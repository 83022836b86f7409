import Mathlib.Logic.Basic

/-!
# One system seen as another

Two systems take steps under the same labels. A `Refinement` looks at the states of the first one as
states of the second, in such a way that every step is a step there; `Refinement.trace` says that
every run is a run there, label by label.
-/

namespace Systems

variable {σ τ α : Type}

/-- A run, with the labels of its steps. -/
inductive Trace (step : σ → α → σ → Prop) : σ → List α → σ → Prop
  | nil (s : σ) : Trace step s [] s
  | cons {s s' t : σ} {a : α} {as : List α} : step s a s' → Trace step s' as t →
      Trace step s (a :: as) t

/-- A way to look at the states of a system, as long as they are good, that makes every step a step
of another system. -/
structure Refinement (step : σ → α → σ → Prop) (step' : τ → α → τ → Prop) where
  good : σ → Prop
  view : σ → τ
  good_step : ∀ {s a s'}, good s → step s a s' → good s'
  view_step : ∀ {s a s'}, good s → step s a s' → step' (view s) a (view s')

theorem Refinement.trace {step : σ → α → σ → Prop} {step' : τ → α → τ → Prop}
    (r : Refinement step step') {s t : σ} {as : List α} (hs : r.good s) (h : Trace step s as t) :
    Trace step' (r.view s) as (r.view t) := by
  induction h with
  | nil s => exact .nil _
  | cons hstep _ ih => exact .cons (r.view_step hs hstep) (ih (r.good_step hs hstep))

end Systems
