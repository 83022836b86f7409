import CofferFS.Lib.Script

/-!
# Why scripts stop

`StopsFor R fs p s`: under the failures `fs`, the script `p` run from `s` stops early only with
errors that `R` has a reason for. There is one rule for each way to build a script, so a claim about
all errors of a long script comes down to its checks: each has to have a reason when it stops the
script. What is not a check but a statement, or a script of statements, stops only because something
fails, or by itself; `Runs.stopsFor` is the rule for that.
-/

namespace Script

variable {φ σ ε ε' α β : Type} {R : ε → Prop} {fs : ℕ → Option φ} {p : Script φ σ ε α} {s s' : σ}

/-- The pattern lets some statement fail. -/
def Failing (fs : ℕ → Option φ) : Prop := ∃ n, fs n ≠ none

theorem eq_noFailure (h : ¬ Failing fs) : fs = noFailure := by
  funext n
  exact not_not.1 fun hn => h ⟨n, hn⟩

/-- When the script stops early, there is a reason for it. -/
def StopsFor (R : ε → Prop) (fs : ℕ → Option φ) (p : Script φ σ ε α) (s : σ) : Prop :=
  ∀ n n' s' e, p.run fs n s = ⟨.error e, n', s'⟩ → R e

theorem stopsFor_pure (a : α) : StopsFor R fs (pure a : Script φ σ ε α) s := by
  intro n n' s' e h
  cases h

theorem stopsFor_stop {e : ε} (h : R e) : StopsFor R fs (stop e : Script φ σ ε α) s := by
  intro n n' s' e' hrun
  cases hrun
  exact h

/-- Each part of a sequence has its reasons, the second one after what the first one does under
the failures at hand. -/
theorem stopsFor_bind_run {k : α → Script φ σ ε β} (hp : StopsFor R fs p s)
    (hk : ∀ a t n n', p.run fs n s = ⟨.ok a, n', t⟩ → StopsFor R fs (k a) t) :
    StopsFor R fs (p >>= k) s := by
  intro n n' s' e h
  rcases hrun : p.run fs n s with ⟨e' | a, m, t⟩
  · rw [run_bind_of_error hrun] at h
    cases h
    exact hp _ _ _ _ hrun
  · rw [run_bind_of_ok hrun] at h
    exact hk a t n m hrun _ _ _ _ h

theorem stopsFor_bind {k : α → Script φ σ ε β} (hp : StopsFor R fs p s)
    (hk : ∀ a t, p.Yields s (.ok a) t → StopsFor R fs (k a) t) : StopsFor R fs (p >>= k) s :=
  stopsFor_bind_run hp fun a t _ _ hrun => hk a t (.of_run hrun)

/-- What comes after a check goes on from the same store. -/
theorem stopsFor_guard {k : α → Script φ σ ε β} (hread : p.ReadOnly) (hp : StopsFor R fs p s)
    (hk : ∀ a, p.Yields s (.ok a) s → StopsFor R fs (k a) s) : StopsFor R fs (p >>= k) s := by
  refine stopsFor_bind hp fun a t ht => ?_
  obtain rfl := hread s _ t ht
  exact hk a ht

theorem stopsFor_attempt {q : Script φ σ ε' α} : StopsFor R fs (attempt q : Script φ σ ε _) s := by
  intro n n' s' e h
  rw [run_attempt] at h
  cases h

theorem stopsFor_succeeds {q : Script φ σ ε' α} :
    StopsFor R fs (succeeds q : Script φ σ ε Bool) s := by
  intro n n' s' e h
  rw [run_succeeds] at h
  split at h <;> cases h

theorem StopsFor.mapError {R : ε' → Prop} {f : ε → ε'} (h : StopsFor (fun e => R (f e)) fs p s) :
    StopsFor R fs (mapError f p) s := by
  intro n n' s' e hrun
  rw [run_mapError] at hrun
  rcases hp : p.run fs n s with ⟨e' | a, m, t⟩
  all_goals
    rw [hp] at hrun
    cases hrun
  exact h _ _ _ _ hp

/-- A script of statements stops when one of them fails, or as it does when none does. -/
theorem Runs.stopsFor {r : Except ε α} (h : p.Runs s r s') (hr : ∀ e, r = .error e → R e)
    (hfail : Failing fs → ∀ e, R e) : StopsFor R fs p s := by
  intro n n' t e hrun
  by_cases hfs : Failing fs
  · exact hfail hfs e
  · obtain rfl := eq_noFailure hfs
    obtain ⟨m, h⟩ := h n
    rw [h] at hrun
    cases hrun
    exact hr e rfl

/-- A transaction stops when its begin or its commit fails, or for a reason of its body. -/
theorem StopsFor.transaction {onBegin onCommit : φ → ε} (h : StopsFor R fs p s)
    (hbegin : Failing fs → ∀ x, R (onBegin x)) (hcommit : Failing fs → ∀ x, R (onCommit x)) :
    StopsFor R fs (transaction onBegin onCommit p) s := by
  intro n n' s' e hrun
  rw [run_transaction] at hrun
  split at hrun
  · rename_i x hx
    cases hrun
    exact hbegin ⟨n, by simp [hx]⟩ x
  · split at hrun
    · rename_i hp
      cases hrun
      exact h _ _ _ _ hp
    · split at hrun
      · rename_i m _ _ _ x hx
        cases hrun
        exact hcommit ⟨m, by simp [hx]⟩ x
      · cases hrun

end Script
