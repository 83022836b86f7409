import Mathlib.Data.List.Basic

/-!
# Literals between delimiters

A literal runs from a delimiter to the next one that is not doubled, and a doubled delimiter in it
stands for one. `scan` reads a literal and `double` writes what stands between its delimiters:
`scan_double` is the round trip, whatever comes after the literal.
-/

namespace Literal

variable {α : Type*} [DecidableEq α]

/-- Every delimiter is written twice. -/
def double (d : α) (s : List α) : List α := s.flatMap fun a => if a = d then [d, d] else [a]

/-- What a literal denotes and what comes after it, given the text after its first delimiter. -/
def scan (d : α) : List α → Option (List α × List α)
  | [] => none
  | [a] => if a = d then some ([], []) else none
  | a :: b :: s =>
    if a = d then
      if b = d then (scan d s).map fun p => (d :: p.1, p.2) else some ([], b :: s)
    else (scan d (b :: s)).map fun p => (a :: p.1, p.2)

variable {d a : α} {s s' rest : List α}

@[simp] theorem double_nil : double d [] = [] := rfl

theorem double_cons_self : double d (d :: s) = d :: d :: double d s := by simp [double]

theorem double_cons_of_ne (h : a ≠ d) : double d (a :: s) = a :: double d s := by simp [double, h]

theorem scan_double_self : scan d (d :: d :: s) = (scan d s).map fun p => (d :: p.1, p.2) := by
  simp [scan]

theorem scan_cons_of_ne (h : a ≠ d) :
    scan d (a :: s) = (scan d s).map fun p => (a :: p.1, p.2) := by
  cases s with
  | nil => simp [scan, h]
  | cons b s => simp [scan, h]

/-- The delimiter at the end is not doubled if another character follows it, or none. -/
theorem scan_end (h : rest.head? ≠ some d) : scan d (d :: rest) = some ([], rest) := by
  cases rest with
  | nil => simp [scan]
  | cons b rest =>
    have hb : b ≠ d := fun hb => h (congrArg some hb)
    simp [scan, hb]

/-- **What is written is read back**, up to the delimiter that ends it and no further. -/
theorem scan_double (h : rest.head? ≠ some d) (s : List α) :
    scan d (double d s ++ d :: rest) = some (s, rest) := by
  induction s with
  | nil => exact scan_end h
  | cons a s ih =>
    by_cases ha : a = d
    · subst ha
      rw [double_cons_self, List.cons_append, List.cons_append, scan_double_self, ih]
      rfl
    · rw [double_cons_of_ne ha, List.cons_append, scan_cons_of_ne ha, ih]
      rfl

/-- Different texts are written differently. -/
theorem double_injective (d : α) : Function.Injective (double d) := by
  intro s s' h
  have hend : ([] : List α).head? ≠ some d := by simp
  have hscan := scan_double hend s
  rw [h, scan_double hend] at hscan
  exact (congrArg Prod.fst (Option.some.inj hscan)).symm

theorem mem_double : a ∈ double d s ↔ a ∈ s := by
  induction s with
  | nil => simp
  | cons b s ih =>
    by_cases hb : b = d
    · subst hb
      simp [double_cons_self, ih]
    · simp [double_cons_of_ne hb, ih]

end Literal
