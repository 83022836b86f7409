import Mathlib.Data.Int.Notation
import Mathlib.Data.List.Basic
import Mathlib.Tactic.Common

/-!
# Copying a file page by page while it changes

A `Copier` takes the pages of a file in their order, some at a time, while the file changes. What it
does is left open; `Copier.Documented` is what the manual of an online backup says about it. From
this follows `Documented.current_ok` and its like: whatever has been taken is as it is in the file
now. So a copy that is complete is the file of that moment (`Documented.page_done`), however often
the file has changed, grown or shrunk before.

`Copy` is a copier in memory, which shows that the manual can be followed.
-/

/-- What a step comes to. -/
inductive CopyResult
  /-- The pages are copied, and there are more. -/
  | ok
  /-- All pages are copied. -/
  | done
  /-- The file or the copy is locked. -/
  | busy
  /-- Any other error. -/
  | failed
  deriving DecidableEq

/-- Something that copies a file, in states of type `σ`. -/
structure Copier (β σ : Type) where
  /-- Before the first step. -/
  start : σ
  /-- How many pages of the file have been taken. -/
  copied : σ → ℕ
  /-- The pages of the copy. -/
  page : σ → ℕ → Option β
  /-- An error has come up that every later step answers. -/
  broken : σ → Prop
  /-- The pages still to be copied, after the last step. -/
  remaining : σ → ℤ
  /-- The pages of the file, at the last step. -/
  pagecount : σ → ℤ
  /-- A step copies that many pages of a file. -/
  step : ℕ → List β → σ → CopyResult → σ → Prop
  /-- The file is modified over the connection that the copier uses. -/
  update : List β → List β → σ → σ → Prop
  /-- The file is modified by somebody else. -/
  restart : σ → σ → Prop

namespace Copier

variable {β σ : Type} {T : Copier β σ} {b b' : σ} {file file' : List β} {n : ℕ}

/-- What is documented. -/
structure Documented (T : Copier β σ) : Prop where
  start : T.copied T.start = 0
  /-- The next pages are copied, and there are more. -/
  ok : ∀ {n file b b'}, T.step n file b .ok b' →
    T.copied b' = T.copied b + n ∧ T.copied b' < file.length ∧
      ∀ i < T.copied b', T.page b' i = if i < T.copied b then T.page b i else file[i]?
  /-- All the remaining pages are copied, and the copy has no others. -/
  done : ∀ {n file b b'}, T.step n file b .done b' → ∀ i,
    T.page b' i = if i < T.copied b ∧ i < file.length then T.page b i else file[i]?
  /-- The step can be tried again. -/
  busy : ∀ {n file b b'}, T.step n file b .busy b' →
    T.copied b' = T.copied b ∧ ∀ i < T.copied b, T.page b' i = T.page b i
  /-- After a fatal error there is no point in trying again. -/
  broken : ∀ {n file b r b'}, T.broken b → T.step n file b r b' → r = .failed
  /-- The pages that have been taken are updated at the same time as those of the file. -/
  update : ∀ {file file' b b'}, T.update file file' b b' → ¬ T.broken b' →
    ¬ T.broken b ∧ T.copied b' = T.copied b ∧ ∀ i < T.copied b, i < file'.length →
      (file[i]? = file'[i]? → T.page b' i = T.page b i) ∧
        (file[i]? ≠ file'[i]? → T.page b' i = file'[i]?)
  /-- The copy begins with the first page again. -/
  restart : ∀ {b b'}, T.restart b b' → T.copied b' = 0

/-- The pages that have been taken are as they are in the file. -/
def Current (T : Copier β σ) (b : σ) (file : List β) : Prop :=
  ∀ i < T.copied b, i < file.length → T.page b i = file[i]?

namespace Documented

theorem current_start (hT : T.Documented) (file : List β) : T.Current T.start file := by
  intro i hi _
  rw [hT.start] at hi
  exact absurd hi (Nat.not_lt_zero i)

theorem current_restart (hT : T.Documented) (hstep : T.restart b b') (file : List β) :
    T.Current b' file := by
  intro i hi _
  rw [hT.restart hstep] at hi
  exact absurd hi (Nat.not_lt_zero i)

theorem current_ok (hT : T.Documented) (hstep : T.step n file b .ok b') (h : T.Current b file) :
    T.Current b' file := by
  obtain ⟨-, -, hpages⟩ := hT.ok hstep
  intro i hi hlen
  rw [hpages i hi]
  split_ifs with htaken
  · exact h i htaken hlen
  · rfl

theorem current_busy (hT : T.Documented) (hstep : T.step n file b .busy b')
    (h : T.Current b file) : T.Current b' file := by
  obtain ⟨hcopied, hpages⟩ := hT.busy hstep
  intro i hi hlen
  rw [hcopied] at hi
  rw [hpages i hi, h i hi hlen]

theorem current_update (hT : T.Documented) (hstep : T.update file file' b b')
    (hbroken : ¬ T.broken b') (h : T.Current b file) : T.Current b' file' := by
  obtain ⟨-, hcopied, hpages⟩ := hT.update hstep hbroken
  intro i hi hlen
  rw [hcopied] at hi
  obtain ⟨hkept, hchanged⟩ := hpages i hi hlen
  by_cases hsame : file[i]? = file'[i]?
  · -- an unchanged page is in the file before and after
    have hlen' : i < file.length := by
      by_contra hnone
      rw [List.getElem?_eq_none (Nat.le_of_not_lt hnone), List.getElem?_eq_getElem hlen] at hsame
      cases hsame
    rw [hkept hsame, h i hi hlen', hsame]
  · exact hchanged hsame

/-- **A complete copy is the file.** -/
theorem page_done (hT : T.Documented) (hstep : T.step n file b .done b') (h : T.Current b file)
    (i : ℕ) : T.page b' i = file[i]? := by
  rw [hT.done hstep i]
  split_ifs with htaken
  · exact h i htaken.1 htaken.2
  · rfl

end Documented

end Copier

/-! ## A copier in memory -/

/-- How many pages have been taken, and what the copy holds. -/
structure Copy (β : Type) where
  next : ℕ := 0
  pages : ℕ → Option β := fun _ => none
  /-- How long the file was at the last step. -/
  total : ℕ := 0

namespace Copy

variable {β : Type}

/-- Take the next pages. -/
def take (c : Copy β) (n : ℕ) (file : List β) : Copy β where
  next := c.next + n
  pages i := if i < c.next then c.pages i else file[i]?
  total := file.length

/-- Take all pages that are left, and cut the copy. -/
def finish (c : Copy β) (file : List β) : Copy β where
  next := file.length
  pages i := if i < c.next ∧ i < file.length then c.pages i else file[i]?
  total := file.length

/-- The file changes, and the pages that have been taken with it. -/
def mirror [DecidableEq β] (c : Copy β) (file file' : List β) : Copy β :=
  { c with pages := fun i => if file[i]? = file'[i]? then c.pages i else file'[i]? }

/-- Nothing else uses the file, and nothing fails. -/
def copier (β : Type) [DecidableEq β] : Copier β (Copy β) where
  start := {}
  copied := next
  page := pages
  broken _ := False
  remaining c := c.total - c.next
  pagecount c := c.total
  step n file c r c' :=
    if c.next + n < file.length then r = .ok ∧ c' = c.take n file
    else r = .done ∧ c' = c.finish file
  update file file' c c' := c' = c.mirror file file'
  restart _ _ := False

theorem step_done [DecidableEq β] {c : Copy β} {n : ℕ} {file : List β}
    (h : file.length ≤ c.next + n) : (copier β).step n file c .done (c.finish file) := by
  change if c.next + n < file.length then _ else _
  rw [if_neg (Nat.not_lt.2 h)]
  exact ⟨rfl, rfl⟩

theorem documented_copier (β : Type) [DecidableEq β] : (copier β).Documented where
  start := rfl
  ok {n file b b'} h := by
    change if b.next + n < file.length then _ else _ at h
    split_ifs at h with hmore
    · obtain ⟨-, rfl⟩ := h
      exact ⟨rfl, hmore, fun i _ => rfl⟩
    · cases h.1
  done {n file b b'} h := by
    change if b.next + n < file.length then _ else _ at h
    split_ifs at h
    · cases h.1
    · obtain ⟨-, rfl⟩ := h
      exact fun i => rfl
  busy {n file b b'} h := by
    change if b.next + n < file.length then _ else _ at h
    split_ifs at h <;> cases h.1
  broken h := h.elim
  update {file file' b b'} h _ := by
    cases h
    exact ⟨id, rfl, fun i _ _ => ⟨fun hsame => if_pos hsame, fun hsame => if_neg hsame⟩⟩
  restart h := h.elim

end Copy
