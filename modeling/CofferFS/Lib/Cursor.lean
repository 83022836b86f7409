import Mathlib.Data.List.Sort
import Mathlib.Data.Nat.Notation

/-!
# Scans by position

A sequence is read in several calls while it changes. Every call starts where the one before it
stopped and takes the items at the positions up to its own end. An item that stays in the sequence
may be moved by the changes: back across the start of the next call, and it is skipped; forward
across it, and it is read again. `reads_add_skips` counts: an item that is ahead at the start and
behind at the end is read once more than it is brought back and once less than it is skipped.
-/

namespace Cursor

/-- A call, as one item sees it: where the item is, and the positions the call takes. -/
structure Call where
  pos : ℕ
  start : ℕ
  stop : ℕ

/-- The item is among those that the call takes. -/
def Call.Reads (c : Call) : Prop := c.start ≤ c.pos ∧ c.pos < c.stop

instance (c : Call) : Decidable c.Reads := inferInstanceAs (Decidable (_ ∧ _))

/-- How often the item is read. -/
def reads (cs : List Call) : ℕ := cs.countP fun c => c.Reads

/-- How often it moves back across the start of the next call. -/
def skips : List Call → ℕ
  | c :: d :: cs => (if d.start ≤ c.pos ∧ d.pos < d.start then 1 else 0) + skips (d :: cs)
  | _ => 0

/-- How often it moves forward across the start of the next call. -/
def returns : List Call → ℕ
  | c :: d :: cs => (if c.pos < d.start ∧ d.start ≤ d.pos then 1 else 0) + returns (d :: cs)
  | _ => 0

/-- Every call starts where the one before it stopped. -/
def Chained : List Call → Prop
  | c :: d :: cs => c.start ≤ c.stop ∧ d.start = c.stop ∧ Chained (d :: cs)
  | [c] => c.start ≤ c.stop
  | [] => True

/-- The last call leaves the item behind. -/
def EndsBehind : List Call → Prop
  | [] => False
  | [c] => c.pos < c.stop
  | _ :: d :: cs => EndsBehind (d :: cs)

theorem reads_cons {c : Call} {cs : List Call} :
    reads (c :: cs) = (if c.Reads then 1 else 0) + reads cs := by
  rw [reads, List.countP_cons, reads, Nat.add_comm]
  simp

/-- From one call to the next: an item that was ahead is read, or skipped, or still ahead; one that
is ahead now was so before, or has returned. -/
theorem read_or_skip {c d : Call} (hle : c.start ≤ c.stop) (hstart : d.start = c.stop) :
    (if c.Reads then 1 else 0) + (if d.start ≤ c.pos ∧ d.pos < d.start then 1 else 0) +
        (if d.start ≤ d.pos then 1 else 0) =
      (if c.start ≤ c.pos then 1 else 0) +
        if c.pos < d.start ∧ d.start ≤ d.pos then 1 else 0 := by
  unfold Call.Reads
  rw [hstart]
  rcases lt_or_ge c.pos c.stop with hread | hahead
  · have hno : ¬ c.stop ≤ c.pos := not_le.2 hread
    simp only [hread, hno, and_true, true_and, false_and, if_false, Nat.add_zero]
  · have hno : ¬ c.pos < c.stop := not_lt.2 hahead
    have hfirst : c.start ≤ c.pos := hle.trans hahead
    rcases lt_or_ge d.pos c.stop with hskip | hstill
    · simp [hahead, hno, hfirst, hskip, not_le.2 hskip]
    · simp [hno, hfirst, hstill, not_lt.2 hstill]

/-- **Reads and skips are returns and the first encounter.** -/
theorem reads_add_skips {c : Call} {cs : List Call} (hchain : Chained (c :: cs))
    (hend : EndsBehind (c :: cs)) :
    reads (c :: cs) + skips (c :: cs) = (if c.start ≤ c.pos then 1 else 0) + returns (c :: cs) := by
  induction cs generalizing c with
  | nil =>
    have hlt : c.pos < c.stop := hend
    simp [reads, skips, returns, Call.Reads, hlt]
  | cons d cs ih =>
    obtain ⟨hle, hstart, hchain⟩ := hchain
    have hstep := read_or_skip (d := d) hle hstart
    have hrest := ih hchain hend
    rw [reads_cons]
    simp only [skips, returns]
    omega

/-- An item that is ahead of the first call is read exactly once exactly if it moves back as often
as it moves forward. -/
theorem reads_eq_one_iff {c : Call} {cs : List Call} (hchain : Chained (c :: cs))
    (hend : EndsBehind (c :: cs)) (hahead : c.start ≤ c.pos) :
    reads (c :: cs) = 1 ↔ skips (c :: cs) = returns (c :: cs) := by
  have hcount := reads_add_skips hchain hend
  rw [if_pos hahead] at hcount
  omega

/-- An item whose place never changes is neither skipped nor brought back. -/
theorem skips_eq_returns_of_still {p : ℕ} {cs : List Call} (h : ∀ c ∈ cs, c.pos = p) :
    skips cs = returns cs := by
  induction cs with
  | nil => rfl
  | cons c cs ih =>
    cases cs with
    | nil => rfl
    | cons d cs =>
      have hc : c.pos = p := h c (by simp)
      have hd : d.pos = p := h d (by simp)
      have hrest : skips (d :: cs) = returns (d :: cs) :=
        ih fun e he => h e (List.mem_cons_of_mem _ he)
      simp only [skips, returns, hc, hd, hrest]
      rw [if_neg (by omega), if_neg (by omega)]

/-! ## Positions -/

/-- Of a list in which one item satisfies `p`, a window holds that item if it covers its place. -/
theorem countP_window {α : Type*} {p : α → Bool} {l₁ l₂ : List α} {a : α} (start room : ℕ)
    (h₁ : ∀ b ∈ l₁, p b = false) (ha : p a = true) (h₂ : ∀ b ∈ l₂, p b = false) :
    (((l₁ ++ a :: l₂).drop start).take room).countP p =
      if start ≤ l₁.length ∧ l₁.length < start + room then 1 else 0 := by
  have hnone {l l' : List α} (h : ∀ b ∈ l, p b = false) (hsub : l' ⊆ l) : l'.countP p = 0 :=
    List.countP_eq_zero.2 fun b hb => by simp [h b (hsub hb)]
  by_cases hle : start ≤ l₁.length
  · rw [List.drop_append_of_le_length hle, List.take_append, List.countP_append,
      hnone h₁ fun b hb => List.drop_subset _ _ (List.take_subset _ _ hb), List.length_drop,
      Nat.zero_add]
    rcases hroom : room - (l₁.length - start) with _ | k
    · rw [List.take_zero, List.countP_nil, if_neg (by omega)]
    · rw [List.take_succ_cons, List.countP_cons_of_pos ha, hnone h₂ (List.take_subset _ _),
        if_pos (by omega)]
  · rw [if_neg (by omega)]
    refine hnone h₂ fun b hb => ?_
    have hb := List.take_subset _ _ hb
    rw [List.drop_append, List.drop_eq_nil_of_le (by omega), List.nil_append] at hb
    rcases hskip : start - l₁.length with _ | k
    · omega
    · rw [hskip, List.drop_succ_cons] at hb
      exact List.drop_subset _ _ hb

/-- In a sorted list the items before one are those that are smaller. -/
theorem countP_lt_of_sorted {α : Type*} [LinearOrder α] {l₁ l₂ : List α} {a : α}
    (h : (l₁ ++ a :: l₂).Pairwise (· < ·)) : (l₁ ++ a :: l₂).countP (· < a) = l₁.length := by
  obtain ⟨-, hcons, hlt⟩ := List.pairwise_append.1 h
  have hbefore : l₁.countP (· < a) = l₁.length :=
    List.countP_eq_length.2 fun b hb => decide_eq_true (hlt b hb a List.mem_cons_self)
  have hafter : (a :: l₂).countP (· < a) = 0 := by
    refine List.countP_eq_zero.2 fun b hb => ?_
    rcases List.mem_cons.1 hb with rfl | hb
    · simp
    · simpa using ((List.pairwise_cons.1 hcons).1 b hb).le
  rw [List.countP_append, hbefore, hafter, Nat.add_zero]

end Cursor
