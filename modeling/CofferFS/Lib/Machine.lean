import Mathlib.Logic.Basic
import Mathlib.Data.Nat.Notation

/-!
# Machines that take steps

A machine takes an action in a state if it can. `run` takes a list of actions, one after the
other; what holds at the start and is kept by every step holds after every run
(`invariant_of_run`).
-/

namespace Machine

variable {σ α : Type} {step : σ → α → Option σ} {s s' t : σ} {a : α} {as bs : List α}

/-- Take actions one after the other, if each can be taken. -/
def run (step : σ → α → Option σ) : σ → List α → Option σ
  | s, [] => some s
  | s, a :: as => (step s a).bind fun s' => run step s' as

theorem run_cons : run step s (a :: as) = some t ↔
    ∃ s', step s a = some s' ∧ run step s' as = some t := Option.bind_eq_some_iff

/-- Kept by every step, so kept by every run. -/
theorem invariant_of_run {P : σ → Prop} (hstep : ∀ s a s', P s → step s a = some s' → P s')
    (hs : P s) (h : run step s as = some t) : P t := by
  induction as generalizing s with
  | nil => exact Option.some.inj h ▸ hs
  | cons a as ih =>
    obtain ⟨s', hfirst, hrest⟩ := run_cons.1 h
    exact ih (hstep s a s' hs hfirst) hrest

end Machine
