import Mathlib.Logic.Relation
import Mathlib.Data.Fintype.Card
import Mathlib.Data.Set.Finite.Basic

/-!
# Climbing to the root

A graph is given by its upward edges: `up i p` says that `p` holds a name for `i`. A node may
have several. `Climbs up root i` says that the way up from `i` ends at the root whichever edge is
taken at every node: it reaches the root, it never gets stuck elsewhere and it never turns in a
circle. The lemmas say how this survives changes of the graph.
-/

/-- Whichever edges are followed, the way up from `i` ends at `root`. -/
inductive Climbs {α : Type*} (up : α → α → Prop) (root : α) : α → Prop
  | root : Climbs up root root
  | step {i p : α} : up i p → (∀ q, up i q → Climbs up root q) → Climbs up root i

namespace Climbs

open Relation

variable {α : Type*} {up up' : α → α → Prop} {root i j x p : α}

theorem exists_up (h : Climbs up root i) (hroot : i ≠ root) : ∃ p, up i p := by
  cases h with
  | root => exact absurd rfl hroot
  | step hip _ => exact ⟨_, hip⟩

/-- The root is reached. -/
theorem reaches_root (h : Climbs up root i) : ReflTransGen up i root := by
  induction h with
  | root => exact .refl
  | step hip _ ih => exact .head hip (ih _ hip)

/-- There is no endless way up. -/
theorem acc (h : Climbs up root i) (hroot : ∀ p, ¬ up root p) : Acc (fun p i => up i p) i := by
  induction h with
  | root => exact Acc.intro _ fun p hp => (hroot p hp).elim
  | step _ _ ih => exact Acc.intro _ ih

/-- The way up does not turn in a circle. -/
theorem not_cyclic (h : Climbs up root i) (hroot : ∀ p, ¬ up root p) : ¬ TransGen up i i := by
  have hacc := (h.acc hroot).transGen
  intro hcyc
  have hcyc' : TransGen (fun p i => up i p) i i := transGen_swap.1 hcyc
  induction hacc with
  | intro i _ ih => exact ih i hcyc' (h := h) hcyc hcyc'

/-- A change of the graph that leaves an upward closed part alone leaves it climbing. -/
theorem of_agree {S : α → Prop} (hclosed : ∀ i p, S i → i ≠ root → up i p → S p)
    (hagree : ∀ i p, S i → i ≠ root → (up' i p ↔ up i p)) (h : Climbs up root i) (hi : S i) :
    Climbs up' root i := by
  induction h with
  | root => exact .root
  | @step i p hip _ ih =>
    by_cases hroot : i = root
    · subst hroot
      exact .root
    · refine .step ((hagree i p hi hroot).2 hip) fun q hq => ?_
      have hiq : up i q := (hagree i q hi hroot).1 hq
      exact ih q hiq (hclosed i q hi hroot hiq)

/-! ## Finitely many nodes -/

section Finite

variable {S : Set α} (hfin : S.Finite) (hacyc : ∀ i, ¬ TransGen up i i)

include hfin hacyc

/-- In a finite part of a graph without circles one can go by what lies above. -/
theorem induction_above {P : α → Prop}
    (ih : ∀ i ∈ S, (∀ p ∈ S, up i p → P p) → P i) (hi : i ∈ S) : P i := by
  have : Finite S := hfin
  let above (p i : S) : Prop := TransGen up i p
  have htrans : IsTrans S above := ⟨fun _ _ _ hqp hpi => hpi.trans hqp⟩
  have hirrefl : Std.Irrefl above := ⟨fun i => hacyc i⟩
  have hwf : WellFounded above := Finite.wellFounded_of_trans_of_irrefl above
  have hall (i : S) : P i := by
    induction i using hwf.induction with
    | _ i habove => exact ih i i.2 fun p hp hip => habove ⟨p, hp⟩ (.single hip)
  exact hall ⟨i, hi⟩

/-- If every node of the part but the root has a way up that stays in the part, every node reaches
the root. -/
theorem reaches_of_not_cyclic (hup : ∀ i ∈ S, i ≠ root → ∃ p ∈ S, up i p) (hi : i ∈ S) :
    ReflTransGen up i root := by
  refine induction_above hfin hacyc (P := fun i => ReflTransGen up i root) (fun i hi ih => ?_) hi
  by_cases hroot : i = root
  · rw [hroot]
  · obtain ⟨p, hp, hip⟩ := hup i hi hroot
    exact .head hip (ih p hp hip)

/-- If besides no way up leaves the part, every node climbs. -/
theorem of_not_cyclic (hup : ∀ i ∈ S, i ≠ root → ∃ p, up i p)
    (hstay : ∀ i ∈ S, i ≠ root → ∀ p, up i p → p ∈ S) (hi : i ∈ S) : Climbs up root i := by
  refine induction_above hfin hacyc (fun i hi ih => ?_) hi
  by_cases hroot : i = root
  · rw [hroot]
    exact .root
  · obtain ⟨p, hip⟩ := hup i hi hroot
    exact .step hip fun q hiq => ih q (hstay i hi hroot q hiq) hiq

end Finite

/-! ## Giving one node new edges -/

section Attach

variable (hagree : ∀ i q, i ≠ x → (up' i q ↔ up i q))

include hagree

/-- What is not below `x` keeps its way up when only the edges of `x` change. -/
theorem of_not_below (hp : Climbs up root p) (hbelow : ¬ ReflTransGen up p x) :
    Climbs up' root p := by
  refine of_agree (S := fun i => ¬ ReflTransGen up i x) ?_ ?_ hp hbelow
  · intro i q hi _ hiq hqx
    exact hi (.head hiq hqx)
  · intro i q hi _
    exact hagree i q fun hix => hi (hix ▸ .refl)

/-- A node whose new edges all lead to nodes that climb, none of them below it, climbs. -/
theorem attach (hex : ∃ q, up' x q)
    (hnew : ∀ q, up' x q → Climbs up root q ∧ ¬ ReflTransGen up q x) : Climbs up' root x := by
  obtain ⟨q, hq⟩ := hex
  exact .step hq fun q hq => of_not_below hagree (hnew q hq).1 (hnew q hq).2

/-- Giving one node new edges keeps everything climbing. -/
theorem reattach (hex : ∃ q, up' x q)
    (hnew : ∀ q, up' x q → Climbs up root q ∧ ¬ ReflTransGen up q x) (h : Climbs up root i) :
    Climbs up' root i := by
  induction h with
  | root => exact .root
  | @step i q hiq _ ih =>
    by_cases hix : i = x
    · rw [hix]
      exact attach hagree hex hnew
    · exact .step ((hagree i q hix).2 hiq) fun q' hq' => ih q' ((hagree i q' hix).1 hq')

end Attach

end Climbs
