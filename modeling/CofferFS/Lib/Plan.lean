import CofferFS.Lib.Script

/-!
# The plan of a script

A script that executes a fixed list of statements succeeds exactly when every one of them meets what
the script needs of it: most must not fail, some may, and some are checks, which may fail but must
pass if they do not. `Follows p s plan a s'` says that `p`, run from `s`, succeeds exactly when its
`plan` is met, and then ends with `a` in the store `s'`. Plans of parts make up the plan of the
whole, so the number of every statement can be read off.
-/

namespace Script

/-- What a script needs of one of its statements. -/
inductive Need
  | must
  | free
  | check (passes : Bool)
  deriving DecidableEq

variable {φ σ ε ε' α β : Type}

/-- The failure of a statement, or its success, is what the script needs. -/
def Need.Met : Need → Option φ → Prop
  | .must, failure => failure = none
  | .free, _ => True
  | .check passes, failure => failure = none → passes = true

/-- The statements from number `n` on are what the plan needs. -/
def Meets (fs : ℕ → Option φ) : ℕ → List Need → Prop
  | _, [] => True
  | n, need :: plan => need.Met (fs n) ∧ Meets fs (n + 1) plan

/-- Run from `s`, the script succeeds exactly when the plan is met. -/
structure Follows (p : Script φ σ ε α) (s : σ) (plan : List Need) (a : α) (s' : σ) : Prop where
  run : ∀ fs n, Meets fs n plan → p.run fs n s = ⟨.ok a, n + plan.length, s'⟩
  only : ∀ fs n b m t, p.run fs n s = ⟨.ok b, m, t⟩ → Meets fs n plan

/-- Run from `s`, the script answers `true` exactly when the plan is met. -/
structure Accepts (p : Script φ σ ε Bool) (s : σ) (plan : List Need) (s' : σ) : Prop where
  run : ∀ fs n, Meets fs n plan → p.run fs n s = ⟨.ok true, n + plan.length, s'⟩
  only : ∀ fs n m t, p.run fs n s = ⟨.ok true, m, t⟩ → Meets fs n plan

/-- The script never succeeds. -/
def Never (p : Script φ σ ε α) : Prop := ∀ s b t, ¬ p.Yields s (.ok b) t

variable {p : Script φ σ ε α} {s s' t : σ} {plan plan' : List Need} {n : ℕ} {a : α}
  {fs : ℕ → Option φ}

theorem meets_append :
    Meets fs n (plan ++ plan') ↔ Meets fs n plan ∧ Meets fs (n + plan.length) plan' := by
  induction plan generalizing n with
  | nil => simp [Meets]
  | cons need plan ih =>
    simp only [List.cons_append, Meets, ih, List.length_cons, and_assoc, Nat.add_assoc,
      Nat.add_comm 1]

/-! ## Statements -/

theorem follows_pure (a : α) : (pure a : Script φ σ ε α).Follows s [] a s :=
  ⟨fun _ _ _ => rfl, fun _ _ _ _ _ _ => trivial⟩

theorem follows_exec {f : σ → Except φ (α × σ)} (h : f s = .ok (a, s')) :
    (exec f).Follows s [.must] a s' :=
  ⟨fun _ _ hn => run_exec_ok_iff.2 ⟨hn.1, h, rfl⟩,
    fun _ _ _ _ _ hrun => ⟨(run_exec_ok_iff.1 hrun).1, trivial⟩⟩

theorem follows_query {f : σ → Except φ α} (h : f s = .ok a) :
    (query f).Follows s [.must] a s := follows_exec (by rw [h]; rfl)

theorem follows_update (f : σ → σ) :
    (update f : Script φ σ φ Unit).Follows s [.must] () (f s) := follows_exec rfl

/-! ## Compound scripts -/

namespace Follows

theorem bind {k : α → Script φ σ ε β} {b : β} (hp : p.Follows s plan a t)
    (hk : (k a).Follows t plan' b s') : (p >>= k).Follows s (plan ++ plan') b s' where
  run fs n hmeets := by
    obtain ⟨hplan, hplan'⟩ := meets_append.1 hmeets
    rw [run_bind_of_ok (hp.run fs n hplan), hk.run fs _ hplan', List.length_append, Nat.add_assoc]
  only fs n b' m u hrun := by
    obtain ⟨a', n', t', hp', hk'⟩ := run_bind_ok_iff.1 hrun
    have hplan := hp.only fs n a' n' t' hp'
    rw [hp.run fs n hplan] at hp'
    cases hp'
    exact meets_append.2 ⟨hplan, hk.only fs _ b' m u hk'⟩

/-- A first statement that may fail. -/
theorem free {q : Script φ σ ε β} {b : β} (hq : q.Follows s plan b s') {p : Script φ σ ε β}
    (h : ∀ fs n, p.run fs n s = q.run fs (n + 1) s) : p.Follows s (.free :: plan) b s' where
  run fs n hmeets := by
    rw [h, hq.run fs (n + 1) hmeets.2, List.length_cons, Nat.add_assoc, Nat.add_comm 1]
  only fs n b' m u hrun := by
    rw [h] at hrun
    exact ⟨trivial, hq.only fs (n + 1) b' m u hrun⟩

theorem mapError {f : ε → ε'} (h : p.Follows s plan a s') :
    (mapError f p).Follows s plan a s' where
  run fs n hmeets := by rw [run_mapError, h.run fs n hmeets]
  only fs n b m t hrun := by
    rw [run_mapError] at hrun
    rcases hp : p.run fs n s with ⟨e | a', n₁, t₁⟩
    · rw [hp] at hrun
      cases hrun
    · exact h.only fs n _ _ _ hp

/-- A transaction adds its begin and its commit. -/
theorem transaction {onBegin onCommit : φ → ε} (h : p.Follows s plan a s') :
    (transaction onBegin onCommit p).Follows s (.must :: (plan ++ [.must])) a s' where
  run fs n hmeets := by
    obtain ⟨hbegin, hmeets⟩ := hmeets
    obtain ⟨hplan, hcommit, -⟩ := meets_append.1 hmeets
    refine run_transaction_ok_iff.2 ⟨hbegin, _, h.run fs (n + 1) hplan, hcommit, ?_⟩
    simp only [List.length_cons, List.length_append, List.length_nil]
    omega
  only fs n b m t hrun := by
    obtain ⟨hbegin, m', hp, hcommit, -⟩ := run_transaction_ok_iff.1 hrun
    have hplan := h.only fs (n + 1) b m' t hp
    rw [h.run fs (n + 1) hplan] at hp
    cases hp
    exact ⟨hbegin, meets_append.2 ⟨hplan, hcommit, trivial⟩⟩

end Follows

/-! ## Scripts that catch their failures -/

/-- A script that catches its failures answers `true` when it has none. -/
theorem Follows.succeeds (h : p.Follows s plan a s') :
    (Script.succeeds p : Script φ σ ε' Bool).Accepts s plan s' where
  run fs n hmeets := by rw [run_succeeds, h.run fs n hmeets]
  only fs n m t hrun := by
    rw [run_succeeds] at hrun
    rcases hp : p.run fs n s with ⟨e | a', n₁, t₁⟩
    · rw [hp] at hrun
      cases hrun
    · exact h.only fs n _ _ _ hp

namespace Accepts

variable {q : Script φ σ ε Bool}

theorem of_pure : (pure true : Script φ σ ε Bool).Accepts s [] s :=
  ⟨fun _ _ _ => rfl, fun _ _ _ _ _ => trivial⟩

/-- Something that has to be done first. -/
theorem after {k : α → Script φ σ ε Bool} (hp : p.Follows s plan a t)
    (hk : (k a).Accepts t plan' s') : (p >>= k).Accepts s (plan ++ plan') s' where
  run fs n hmeets := by
    obtain ⟨hplan, hplan'⟩ := meets_append.1 hmeets
    rw [run_bind_of_ok (hp.run fs n hplan), hk.run fs _ hplan', List.length_append, Nat.add_assoc]
  only fs n m u hrun := by
    obtain ⟨a', n', t', hp', hk'⟩ := run_bind_ok_iff.1 hrun
    have hplan := hp.only fs n a' n' t' hp'
    rw [hp.run fs n hplan] at hp'
    cases hp'
    exact meets_append.2 ⟨hplan, hk.only fs _ m u hk'⟩

/-- What follows succeeds only if the answer is `true`. -/
theorem bind {k : Bool → Script φ σ ε β} {b : β} (hq : q.Accepts s plan t)
    (htrue : (k true).Follows t plan' b s') (hfalse : Never (k false)) :
    (q >>= k).Follows s (plan ++ plan') b s' where
  run fs n hmeets := by
    obtain ⟨hplan, hplan'⟩ := meets_append.1 hmeets
    rw [run_bind_of_ok (hq.run fs n hplan), htrue.run fs _ hplan', List.length_append,
      Nat.add_assoc]
  only fs n b' m u hrun := by
    obtain ⟨r, n', t', hq', hk'⟩ := run_bind_ok_iff.1 hrun
    cases r with
    | false => exact (hfalse _ _ _ (.of_run hk')).elim
    | true =>
      have hplan := hq.only fs n n' t' hq'
      rw [hq.run fs n hplan] at hq'
      cases hq'
      exact meets_append.2 ⟨hplan, htrue.only fs _ b' m u hk'⟩

end Accepts

/-! ## Scripts that never succeed -/

theorem never_stop (e : ε) : Never (stop e : Script φ σ ε α) := by
  intro s b t h
  cases (yields_stop.1 h).1

theorem never_bind {k : α → Script φ σ ε β} (h : ∀ a, Never (k a)) : Never (p >>= k) := by
  intro s b t hy
  obtain ⟨a, t', -, hk⟩ := hy.bind_ok
  exact h a t' b t hk

end Script
