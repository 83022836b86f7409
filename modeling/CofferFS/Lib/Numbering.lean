import Mathlib.Logic.Relation
import Mathlib.Order.Lattice

/-!
# Numbers that are handed out once

A system has live numbers and a mark that no live number exceeds. Its steps never lower the mark,
and a number that a step brings to life is above the mark before it. So a number that is not live
although the mark has reached it stays so for ever, and what is handed out next was never live
before. `good` is an invariant that the steps may rely on.
-/

/-- The steps hand out numbers above the mark only. -/
structure FreshNumbers {σ α : Type*} [LinearOrder α] (step : σ → σ → Prop) (good : σ → Prop)
    (live : σ → α → Prop) (mark : σ → α) : Prop where
  good_step : ∀ s t, good s → step s t → good t
  le_mark : ∀ s i, good s → live s i → i ≤ mark s
  mark_le : ∀ s t, good s → step s t → mark s ≤ mark t
  new_gt : ∀ s t i, good s → step s t → live t i → live s i ∨ mark s < i

namespace FreshNumbers

open Relation

variable {σ α : Type*} [LinearOrder α] {step : σ → σ → Prop} {good : σ → Prop}
  {live : σ → α → Prop} {mark : σ → α} {s t : σ} {i : α}

section Run

variable (h : FreshNumbers step good live mark) (hs : good s) (hrun : ReflTransGen step s t)

include h hs hrun

theorem good_of_run : good t := by
  induction hrun with
  | refl => exact hs
  | tail _ hlast ih => exact h.good_step _ _ ih hlast

theorem mark_le_of_run : mark s ≤ mark t := by
  induction hrun with
  | refl => exact le_refl _
  | tail hfirst hlast ih => exact ih.trans (h.mark_le _ _ (h.good_of_run hs hfirst) hlast)

/-- The mark is never below a number that was live. -/
theorem le_mark_of_run (hi : live s i) : i ≤ mark t :=
  (h.le_mark s i hs hi).trans (h.mark_le_of_run hs hrun)

/-- What is gone does not come back. -/
theorem not_live_of_run (hi : i ≤ mark s) (hgone : ¬ live s i) : ¬ live t i := by
  induction hrun with
  | refl => exact hgone
  | @tail t u hfirst hlast ih =>
    intro hlive
    rcases h.new_gt t u i (h.good_of_run hs hfirst) hlast hlive with hlive | hlt
    · exact ih hlive
    · exact (hi.trans (h.mark_le_of_run hs hfirst)).not_gt hlt

/-- A number that is live again has been live all the time, with the same label. -/
theorem label_of_run {β : Type*} {label : σ → α → β}
    (hkeep : ∀ s t i, good s → step s t → live s i → live t i → label t i = label s i)
    (hi : live s i) (hi' : live t i) : label t i = label s i := by
  induction hrun with
  | refl => rfl
  | @tail t u hfirst hlast ih =>
    have hgood := h.good_of_run hs hfirst
    have hlive : live t i := by
      by_contra hgone
      exact h.not_live_of_run hgood (.single hlast) (h.le_mark_of_run hs hfirst hi) hgone hi'
    rw [hkeep t u i hgood hlast hlive hi', ih hlive]

end Run

end FreshNumbers
