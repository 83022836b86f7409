import Mathlib.Logic.Basic
import Mathlib.Data.Nat.Notation

/-!
# Scripts of statements that may fail

A `Script` runs statements against a store. Which statements fail is not up to the script: a
failure pattern `fs` says for every number `n` whether the `n`-th statement fails, and with what
error. A failing statement changes nothing. `transaction` makes the changes of its body appear
at its commit or not at all. SQLite may also roll the whole transaction back by itself when a
statement fails with `SQLITE_IOERR`, `SQLITE_NOMEM` or `SQLITE_FULL`, and then executes the next
statement outside of it. This is left out: a transaction ends with its commit or where it is given
up.

Two relations describe a script without mentioning numbers of statements.

* `Yields p s r s'`: under *some* failure pattern, `p` run from `s` ends with `r` in `s'`. What
  holds of every such outcome holds whatever fails.
* `Runs p s r s'`: with *no* failure, `p` run from `s` ends with `r` in `s'`.
-/

/-- How a script ended: its result, the number of the next statement, and the store. -/
structure Outcome (σ ε α : Type) where
  val : Except ε α
  next : ℕ
  store : σ

/-- A computation over a store `σ` whose statements fail with errors `φ`; it stops early with
errors `ε`. -/
def Script (φ σ ε α : Type) : Type := (ℕ → Option φ) → ℕ → σ → Outcome σ ε α

namespace Script

variable {φ σ ε ε' α β : Type}

/-- Run from statement number `n`, with the failures of `fs`. -/
def run (p : Script φ σ ε α) (fs : ℕ → Option φ) (n : ℕ) (s : σ) : Outcome σ ε α := p fs n s

/-- The failure pattern in which every statement is executed. -/
def noFailure : ℕ → Option φ := fun _ => none

instance : Monad (Script φ σ ε) where
  pure a := fun _ n s => ⟨.ok a, n, s⟩
  bind p k := fun fs n s =>
    match p fs n s with
    | ⟨.ok a, n', s'⟩ => k a fs n' s'
    | ⟨.error e, n', s'⟩ => ⟨.error e, n', s'⟩

/-- Stop early. -/
def stop (e : ε) : Script φ σ ε α := fun _ n s => ⟨.error e, n, s⟩

/-- One statement: it may fail by itself, as `f` says, or because the pattern says so. -/
def exec (f : σ → Except φ (α × σ)) : Script φ σ φ α := fun fs n s =>
  match fs n with
  | some e => ⟨.error e, n + 1, s⟩
  | none =>
    match f s with
    | .error e => ⟨.error e, n + 1, s⟩
    | .ok (a, s') => ⟨.ok a, n + 1, s'⟩

/-- A statement that only reads. -/
def query (f : σ → Except φ α) : Script φ σ φ α := exec fun s => (f s).map fun a => (a, s)

/-- A statement that only writes, and succeeds unless the pattern says otherwise. -/
def update (f : σ → σ) : Script φ σ φ Unit := exec fun s => .ok ((), f s)

/-- Translate the error a script stops with. -/
def mapError (f : ε → ε') (p : Script φ σ ε α) : Script φ σ ε' α := fun fs n s =>
  match p fs n s with
  | ⟨.ok a, n', s'⟩ => ⟨.ok a, n', s'⟩
  | ⟨.error e, n', s'⟩ => ⟨.error (f e), n', s'⟩

/-- Catch the error a script stops with, and go on. -/
def attempt (p : Script φ σ ε α) : Script φ σ ε' (Except ε α) := fun fs n s =>
  match p fs n s with
  | ⟨r, n', s'⟩ => ⟨.ok r, n', s'⟩

/-- Whether a script succeeded. -/
def succeeds (p : Script φ σ ε α) : Script φ σ ε' Bool := fun fs n s =>
  match p fs n s with
  | ⟨.ok _, n', s'⟩ => ⟨.ok true, n', s'⟩
  | ⟨.error _, n', s'⟩ => ⟨.ok false, n', s'⟩

/-- `BEGIN`, the body, `COMMIT`. The begin and the commit are statements and may fail. A body
that stops early, and a commit that fails, leave the store as it was at the begin. -/
def transaction (onBegin onCommit : φ → ε) (body : Script φ σ ε α) : Script φ σ ε α :=
  fun fs n s =>
    match fs n with
    | some e => ⟨.error (onBegin e), n + 1, s⟩
    | none =>
      match body fs (n + 1) s with
      | ⟨.error e, n', _⟩ => ⟨.error e, n', s⟩
      | ⟨.ok a, n', s'⟩ =>
        match fs n' with
        | some e => ⟨.error (onCommit e), n' + 1, s⟩
        | none => ⟨.ok a, n' + 1, s'⟩

/-! ## What a run is made of -/

variable {p : Script φ σ ε α} {fs : ℕ → Option φ} {n n' : ℕ} {s s' : σ}

theorem run_pure (a : α) : (pure a : Script φ σ ε α).run fs n s = ⟨.ok a, n, s⟩ := rfl

theorem run_stop (e : ε) : (stop e : Script φ σ ε α).run fs n s = ⟨.error e, n, s⟩ := rfl

theorem run_bind (p : Script φ σ ε α) (k : α → Script φ σ ε β) :
    (p >>= k).run fs n s = match p.run fs n s with
      | ⟨.ok a, n', s'⟩ => (k a).run fs n' s'
      | ⟨.error e, n', s'⟩ => ⟨.error e, n', s'⟩ := rfl

theorem run_exec (f : σ → Except φ (α × σ)) :
    (exec f).run fs n s = match fs n with
      | some e => ⟨.error e, n + 1, s⟩
      | none => match f s with
        | .error e => ⟨.error e, n + 1, s⟩
        | .ok (a, s') => ⟨.ok a, n + 1, s'⟩ := rfl

theorem run_mapError (f : ε → ε') :
    (mapError f p).run fs n s = match p.run fs n s with
      | ⟨.ok a, n', s'⟩ => ⟨.ok a, n', s'⟩
      | ⟨.error e, n', s'⟩ => ⟨.error (f e), n', s'⟩ := rfl

theorem run_attempt :
    (attempt p : Script φ σ ε' _).run fs n s =
      ⟨.ok (p.run fs n s).val, (p.run fs n s).next, (p.run fs n s).store⟩ := rfl

theorem run_succeeds :
    (succeeds p : Script φ σ ε' Bool).run fs n s = match p.run fs n s with
      | ⟨.ok _, n', s'⟩ => ⟨.ok true, n', s'⟩
      | ⟨.error _, n', s'⟩ => ⟨.ok false, n', s'⟩ := rfl

theorem run_transaction (onBegin onCommit : φ → ε) :
    (transaction onBegin onCommit p).run fs n s = match fs n with
      | some e => ⟨.error (onBegin e), n + 1, s⟩
      | none => match p.run fs (n + 1) s with
        | ⟨.error e, n', _⟩ => ⟨.error e, n', s⟩
        | ⟨.ok a, n', s'⟩ => match fs n' with
          | some e => ⟨.error (onCommit e), n' + 1, s⟩
          | none => ⟨.ok a, n' + 1, s'⟩ := rfl

theorem run_bind_of_ok {k : α → Script φ σ ε β} {a : α} (h : p.run fs n s = ⟨.ok a, n', s'⟩) :
    (p >>= k).run fs n s = (k a).run fs n' s' := by
  rw [run_bind, h]

theorem run_bind_of_error {k : α → Script φ σ ε β} {e : ε}
    (h : p.run fs n s = ⟨.error e, n', s'⟩) : (p >>= k).run fs n s = ⟨.error e, n', s'⟩ := by
  rw [run_bind, h]

theorem run_bind_ok_iff {k : α → Script φ σ ε β} {b : β} {m : ℕ} {t : σ} :
    (p >>= k).run fs n s = ⟨.ok b, m, t⟩ ↔
      ∃ a n' s', p.run fs n s = ⟨.ok a, n', s'⟩ ∧ (k a).run fs n' s' = ⟨.ok b, m, t⟩ := by
  rcases hp : p.run fs n s with ⟨e | a, n', s'⟩
  · rw [run_bind_of_error hp]
    simp
  · rw [run_bind_of_ok hp]
    constructor
    · intro h
      exact ⟨a, n', s', rfl, h⟩
    · rintro ⟨a', m', t', heq, h⟩
      cases heq
      exact h

theorem run_exec_ok_iff {f : σ → Except φ (α × σ)} {a : α} :
    (exec f).run fs n s = ⟨.ok a, n', s'⟩ ↔ fs n = none ∧ f s = .ok (a, s') ∧ n' = n + 1 := by
  rw [run_exec]
  cases hf : fs n with
  | some e => simp
  | none =>
    rcases hs : f s with e | ⟨b, t⟩
    · simp
    · simp only [Outcome.mk.injEq, Except.ok.injEq, Prod.mk.injEq, true_and]
      constructor
      · rintro ⟨rfl, rfl, rfl⟩
        exact ⟨⟨rfl, rfl⟩, rfl⟩
      · rintro ⟨⟨rfl, rfl⟩, rfl⟩
        exact ⟨rfl, rfl, rfl⟩

theorem run_transaction_ok_iff {onBegin onCommit : φ → ε} {a : α} :
    (transaction onBegin onCommit p).run fs n s = ⟨.ok a, n', s'⟩ ↔
      fs n = none ∧
        ∃ m, p.run fs (n + 1) s = ⟨.ok a, m, s'⟩ ∧ fs m = none ∧ n' = m + 1 := by
  rw [run_transaction]
  cases fs n with
  | some e => simp
  | none =>
    rcases p.run fs (n + 1) s with ⟨e | b, m, t⟩
    · simp
    · cases hm : fs m with
      | some e =>
        simp only [Outcome.mk.injEq, true_and, hm, reduceCtorEq, false_and, false_iff]
        rintro ⟨m', ⟨-, rfl, -⟩, hm', -⟩
        rw [hm] at hm'
        cases hm'
      | none =>
        simp only [Outcome.mk.injEq, Except.ok.injEq, true_and, hm]
        constructor
        · rintro ⟨rfl, rfl, rfl⟩
          exact ⟨m, ⟨rfl, rfl, rfl⟩, hm, rfl⟩
        · rintro ⟨m', ⟨rfl, rfl, rfl⟩, -, rfl⟩
          exact ⟨rfl, rfl, rfl⟩

theorem run_query_of_ok {f : σ → Except φ α} {a : α} (hfs : fs n = none) (h : f s = .ok a) :
    (query f).run fs n s = ⟨.ok a, n + 1, s⟩ :=
  run_exec_ok_iff.2 ⟨hfs, by rw [h]; rfl, rfl⟩

theorem run_query_of_failure {f : σ → Except φ α} {e : φ} (hfs : fs n = some e) :
    (query f).run fs n s = ⟨.error e, n + 1, s⟩ := by
  rw [query, run_exec, hfs]

/-- **A transaction is all or nothing**: when it does not succeed, nothing has happened. -/
theorem transaction_rolls_back {onBegin onCommit : φ → ε} {e : ε}
    (h : (transaction onBegin onCommit p).run fs n s = ⟨.error e, n', s'⟩) : s' = s := by
  rw [run_transaction] at h
  split at h
  · cases h
    rfl
  · split at h
    · cases h
      rfl
    · split at h
      · cases h
        rfl
      · cases h

/-! ## Outcomes under some failures -/

/-- Some failure pattern makes `p`, run from `s`, end with `r` in the store `s'`. -/
def Yields (p : Script φ σ ε α) (s : σ) (r : Except ε α) (s' : σ) : Prop :=
  ∃ fs n n', p.run fs n s = ⟨r, n', s'⟩

theorem Yields.of_run {r : Except ε α} (h : p.run fs n s = ⟨r, n', s'⟩) : p.Yields s r s' :=
  ⟨fs, n, n', h⟩

theorem yields_run (p : Script φ σ ε α) (fs : ℕ → Option φ) (n : ℕ) (s : σ) :
    p.Yields s (p.run fs n s).val (p.run fs n s).store :=
  ⟨fs, n, _, rfl⟩

@[simp] theorem yields_pure {a : α} {r : Except ε α} :
    (pure a : Script φ σ ε α).Yields s r s' ↔ r = .ok a ∧ s' = s := by
  constructor
  · rintro ⟨fs, n, n', h⟩
    rw [run_pure] at h
    cases h
    exact ⟨rfl, rfl⟩
  · rintro ⟨rfl, rfl⟩
    exact ⟨noFailure, 0, 0, rfl⟩

@[simp] theorem yields_stop {e : ε} {r : Except ε α} :
    (stop e : Script φ σ ε α).Yields s r s' ↔ r = .error e ∧ s' = s := by
  constructor
  · rintro ⟨fs, n, n', h⟩
    rw [run_stop] at h
    cases h
    exact ⟨rfl, rfl⟩
  · rintro ⟨rfl, rfl⟩
    exact ⟨noFailure, 0, 0, rfl⟩

/-- A sequence that succeeds is two scripts that do. -/
theorem Yields.bind_ok {k : α → Script φ σ ε β} {b : β} (h : (p >>= k).Yields s (.ok b) s') :
    ∃ a t, p.Yields s (.ok a) t ∧ (k a).Yields t (.ok b) s' := by
  obtain ⟨fs, n, m, h⟩ := h
  obtain ⟨a, n', t, hp, hk⟩ := run_bind_ok_iff.1 h
  exact ⟨a, t, .of_run hp, .of_run hk⟩

@[simp] theorem yields_exec_ok {f : σ → Except φ (α × σ)} {a : α} :
    (exec f).Yields s (.ok a) s' ↔ f s = .ok (a, s') := by
  constructor
  · rintro ⟨fs, n, n', h⟩
    exact (run_exec_ok_iff.1 h).2.1
  · intro h
    exact ⟨noFailure, 0, 1, run_exec_ok_iff.2 ⟨rfl, h, rfl⟩⟩

theorem Yields.exec_error {f : σ → Except φ (α × σ)} {e : φ}
    (h : (exec f).Yields s (.error e) s') : s' = s := by
  obtain ⟨fs, n, n', h⟩ := h
  rw [run_exec] at h
  split at h
  · cases h
    rfl
  · split at h
    · cases h
      rfl
    · cases h

@[simp] theorem yields_update_ok {f : σ → σ} {u : Unit} :
    (update f : Script φ σ φ Unit).Yields s (.ok u) s' ↔ s' = f s := by
  rw [update, yields_exec_ok]
  simp [eq_comm]

@[simp] theorem yields_query_ok {f : σ → Except φ α} {a : α} :
    (query f).Yields s (.ok a) s' ↔ f s = .ok a ∧ s' = s := by
  rw [query, yields_exec_ok]
  cases hf : f s <;> simp [Except.map, eq_comm]

/-- A query changes nothing, whether it succeeds or fails. -/
theorem Yields.query_store {f : σ → Except φ α} {r : Except φ α}
    (h : (query f).Yields s r s') : s' = s := by
  cases r with
  | error e => exact h.exec_error
  | ok a => exact (yields_query_ok.1 h).2

@[simp] theorem yields_mapError_ok {f : ε → ε'} {a : α} :
    (mapError f p).Yields s (.ok a) s' ↔ p.Yields s (.ok a) s' := by
  have hrun (fs : ℕ → Option φ) (n n' : ℕ) :
      (mapError f p).run fs n s = ⟨.ok a, n', s'⟩ ↔ p.run fs n s = ⟨.ok a, n', s'⟩ := by
    rw [run_mapError]
    rcases p.run fs n s with ⟨e | b, m, t⟩ <;> simp
  simp only [Yields, hrun]

@[simp] theorem yields_attempt {r : Except ε' (Except ε α)} :
    (attempt p : Script φ σ ε' _).Yields s r s' ↔ ∃ q, r = .ok q ∧ p.Yields s q s' := by
  constructor
  · rintro ⟨fs, n, n', h⟩
    rw [run_attempt] at h
    cases h
    exact ⟨_, rfl, yields_run p fs n s⟩
  · rintro ⟨q, rfl, fs, n, n', h⟩
    refine ⟨fs, n, n', ?_⟩
    rw [run_attempt, h]

/-- A script reported as successful did what it does when it succeeds. -/
theorem Yields.succeeds_true (h : (succeeds p : Script φ σ ε' Bool).Yields s (.ok true) s') :
    ∃ a, p.Yields s (.ok a) s' := by
  obtain ⟨fs, n, n', h⟩ := h
  rw [run_succeeds] at h
  rcases hp : p.run fs n s with ⟨e | a, m, t⟩
  · simp [hp] at h
  · rw [hp] at h
    cases h
    exact ⟨a, .of_run hp⟩

theorem Yields.transaction_ok {onBegin onCommit : φ → ε} {a : α}
    (h : (transaction onBegin onCommit p).Yields s (.ok a) s') : p.Yields s (.ok a) s' := by
  obtain ⟨fs, n, n', h⟩ := h
  obtain ⟨-, m, hp, -⟩ := run_transaction_ok_iff.1 h
  exact .of_run hp

theorem Yields.transaction_error {onBegin onCommit : φ → ε} {e : ε}
    (h : (transaction onBegin onCommit p).Yields s (.error e) s') : s' = s := by
  obtain ⟨fs, n, n', h⟩ := h
  exact transaction_rolls_back h

theorem Yields.transaction_error_cases {onBegin onCommit : φ → ε} {e : ε}
    (h : (transaction onBegin onCommit p).Yields s (.error e) s') :
    (∃ x, e = onBegin x) ∨ (∃ t, p.Yields s (.error e) t) ∨ ∃ x, e = onCommit x := by
  obtain ⟨fs, n, n', h⟩ := h
  rw [run_transaction] at h
  split at h
  · rename_i x _
    cases h
    exact Or.inl ⟨x, rfl⟩
  · split at h
    · rename_i hp
      cases h
      exact Or.inr (Or.inl ⟨_, .of_run hp⟩)
    · split at h
      · rename_i x _
        cases h
        exact Or.inr (Or.inr ⟨x, rfl⟩)
      · cases h

/-! ## Scripts that only read -/

/-- However it ends, the script leaves the store alone. -/
def ReadOnly (p : Script φ σ ε α) : Prop := ∀ s r s', p.Yields s r s' → s' = s

theorem readOnly_pure (a : α) : (pure a : Script φ σ ε α).ReadOnly :=
  fun _ _ _ h => (yields_pure.1 h).2

theorem readOnly_stop (e : ε) : (stop e : Script φ σ ε α).ReadOnly :=
  fun _ _ _ h => (yields_stop.1 h).2

theorem readOnly_query (f : σ → Except φ α) : (query f).ReadOnly := fun _ _ _ h => h.query_store

theorem readOnly_attempt (h : p.ReadOnly) : (attempt p : Script φ σ ε' _).ReadOnly := by
  intro s r s' hy
  obtain ⟨q, -, hq⟩ := yields_attempt.1 hy
  exact h s q s' hq

/-- Translating the error changes nothing else. -/
theorem Yields.of_mapError {f : ε → ε'} {r : Except ε' α} (h : (mapError f p).Yields s r s') :
    ∃ q, p.Yields s q s' := by
  obtain ⟨fs, n, n', h⟩ := h
  rw [run_mapError] at h
  rcases hp : p.run fs n s with ⟨e | a, m, t⟩
  all_goals
    rw [hp] at h
    cases h
    exact ⟨_, .of_run hp⟩

theorem readOnly_mapError {f : ε → ε'} (h : p.ReadOnly) : (mapError f p).ReadOnly := by
  intro s r s' hy
  obtain ⟨q, hq⟩ := hy.of_mapError
  exact h s q s' hq

/-- A sequence ends in its first part, or runs its second part from where the first one ended. -/
theorem Yields.bind {k : α → Script φ σ ε β} {r : Except ε β} (h : (p >>= k).Yields s r s') :
    (∃ e, r = .error e ∧ p.Yields s (.error e) s') ∨
      ∃ a t, p.Yields s (.ok a) t ∧ (k a).Yields t r s' := by
  obtain ⟨fs, n, n', h⟩ := h
  rcases hp : p.run fs n s with ⟨e | a, m, t⟩
  · rw [run_bind_of_error hp] at h
    cases h
    exact Or.inl ⟨e, rfl, .of_run hp⟩
  · rw [run_bind_of_ok hp] at h
    exact Or.inr ⟨a, t, .of_run hp, .of_run h⟩

theorem readOnly_bind {k : α → Script φ σ ε β} (hp : p.ReadOnly) (hk : ∀ a, (k a).ReadOnly) :
    (p >>= k).ReadOnly := by
  intro s r s' h
  rcases h.bind with ⟨e, -, h⟩ | ⟨a, t, h, h'⟩
  · exact hp s _ s' h
  · rw [hk a t r s' h', hp s _ t h]

/-- A sequence that starts by reading and succeeds goes on from the store it was given. -/
theorem Yields.after {k : α → Script φ σ ε β} {b : β} (h : (p >>= k).Yields s (.ok b) s')
    (hp : p.ReadOnly) : ∃ a, p.Yields s (.ok a) s ∧ (k a).Yields s (.ok b) s' := by
  obtain ⟨a, t, h, h'⟩ := h.bind_ok
  obtain rfl := hp s _ t h
  exact ⟨a, h, h'⟩

/-- A sequence that starts by reading leaves the store alone, or goes on from it. -/
theorem Yields.after_reading {k : α → Script φ σ ε β} {r : Except ε β}
    (h : (p >>= k).Yields s r s') (hp : p.ReadOnly) :
    s' = s ∨ ∃ a, p.Yields s (.ok a) s ∧ (k a).Yields s r s' := by
  rcases h.bind with ⟨e, -, h⟩ | ⟨a, t, h, h'⟩
  · exact Or.inl (hp s _ s' h)
  · obtain rfl := hp s _ t h
    exact Or.inr ⟨a, h, h'⟩

/-- A sequence that ends by reading ends in the store of its first part. -/
theorem Yields.before_reading {k : α → Script φ σ ε β} {r : Except ε β}
    (h : (p >>= k).Yields s r s') (hk : ∀ a, (k a).ReadOnly) : ∃ q, p.Yields s q s' := by
  rcases h.bind with ⟨e, -, h⟩ | ⟨a, t, h, h'⟩
  · exact ⟨_, h⟩
  · obtain rfl := hk a t r s' h'
    exact ⟨_, h⟩

/-- The script stopped early and left no trace. -/
def Undone (r : Except ε α) (s s' : σ) : Prop := (∃ e, r = .error e) ∧ s' = s

/-- Run from `s`, the script leaves no trace or ends as `P` says. -/
def Achieves (p : Script φ σ ε α) (s : σ) (P : Except ε α → σ → Prop) : Prop :=
  ∀ r s', p.Yields s r s' → Undone r s s' ∨ P r s'

/-- A script that only reads may come first. -/
theorem achieves_guard {k : α → Script φ σ ε β} {P : Except ε β → σ → Prop} (hp : p.ReadOnly)
    (hk : ∀ a, p.Yields s (.ok a) s → (k a).Achieves s P) : (p >>= k).Achieves s P := by
  intro r s' h
  rcases h.bind with ⟨e, hr, h⟩ | ⟨a, t, h, h'⟩
  · exact Or.inl ⟨⟨e, hr⟩, hp s _ s' h⟩
  · obtain rfl := hp s _ t h
    exact hk a h r s' h'

/-- A transaction followed by reading has the effect of its body, or none. -/
theorem achieves_transaction {onBegin onCommit : φ → ε} {k : α → Script φ σ ε β}
    {P : Except ε β → σ → Prop} (hk : ∀ a, (k a).ReadOnly)
    (h : ∀ a r s', p.Yields s (.ok a) s' → (k a).Yields s' r s' → P r s') :
    (transaction onBegin onCommit p >>= k).Achieves s P := by
  intro r s' hy
  rcases hy.bind with ⟨e, hr, hy⟩ | ⟨a, t, hy, hy'⟩
  · exact Or.inl ⟨⟨e, hr⟩, hy.transaction_error⟩
  · obtain rfl := hk a t r s' hy'
    exact Or.inr (h a r s' hy.transaction_ok hy')

/-! ## Runs in which nothing fails -/

/-- With no failure, `p` run from `s` ends with `r` in the store `s'`. -/
def Runs (p : Script φ σ ε α) (s : σ) (r : Except ε α) (s' : σ) : Prop :=
  ∀ n, ∃ n', p.run noFailure n s = ⟨r, n', s'⟩

theorem Runs.yields {r : Except ε α} (h : p.Runs s r s') : p.Yields s r s' := by
  obtain ⟨n', h⟩ := h 0
  exact .of_run h

theorem runs_pure (a : α) : (pure a : Script φ σ ε α).Runs s (.ok a) s := fun n => ⟨n, rfl⟩

theorem runs_stop (e : ε) : (stop e : Script φ σ ε α).Runs s (.error e) s := fun n => ⟨n, rfl⟩

theorem Runs.bind {k : α → Script φ σ ε β} {a : α} {r : Except ε β} {t : σ}
    (hp : p.Runs s (.ok a) t) (hk : (k a).Runs t r s') : (p >>= k).Runs s r s' := by
  intro n
  obtain ⟨m, hp⟩ := hp n
  obtain ⟨n', hk⟩ := hk m
  exact ⟨n', (run_bind_of_ok hp).trans hk⟩

theorem Runs.bind_error {k : α → Script φ σ ε β} {e : ε} (hp : p.Runs s (.error e) s') :
    (p >>= k).Runs s (.error e) s' := by
  intro n
  obtain ⟨n', hp⟩ := hp n
  exact ⟨n', run_bind_of_error hp⟩

theorem runs_exec_ok {f : σ → Except φ (α × σ)} {a : α} (h : f s = .ok (a, s')) :
    (exec f).Runs s (.ok a) s' := fun n => ⟨n + 1, run_exec_ok_iff.2 ⟨rfl, h, rfl⟩⟩

theorem runs_exec_error {f : σ → Except φ (α × σ)} {e : φ} (h : f s = .error e) :
    (exec f).Runs s (.error e) s := by
  intro n
  refine ⟨n + 1, ?_⟩
  rw [run_exec, noFailure, h]

theorem runs_query_ok {f : σ → Except φ α} {a : α} (h : f s = .ok a) :
    (query f).Runs s (.ok a) s := runs_exec_ok (by rw [h]; rfl)

theorem runs_query_error {f : σ → Except φ α} {e : φ} (h : f s = .error e) :
    (query f).Runs s (.error e) s := runs_exec_error (by rw [h]; rfl)

theorem runs_update (f : σ → σ) : (update f : Script φ σ φ Unit).Runs s (.ok ()) (f s) :=
  runs_exec_ok rfl

theorem Runs.mapError_ok {f : ε → ε'} {a : α} (h : p.Runs s (.ok a) s') :
    (mapError f p).Runs s (.ok a) s' := by
  intro n
  obtain ⟨n', h⟩ := h n
  refine ⟨n', ?_⟩
  rw [run_mapError, h]

theorem Runs.mapError_error {f : ε → ε'} {e : ε} (h : p.Runs s (.error e) s') :
    (mapError f p).Runs s (.error (f e)) s' := by
  intro n
  obtain ⟨n', h⟩ := h n
  refine ⟨n', ?_⟩
  rw [run_mapError, h]

theorem Runs.attempt {r : Except ε α} (h : p.Runs s r s') :
    (attempt p : Script φ σ ε' _).Runs s (.ok r) s' := by
  intro n
  obtain ⟨n', h⟩ := h n
  refine ⟨n', ?_⟩
  rw [run_attempt, h]

theorem Runs.succeeds {a : α} (h : p.Runs s (.ok a) s') :
    (succeeds p : Script φ σ ε' Bool).Runs s (.ok true) s' := by
  intro n
  obtain ⟨n', h⟩ := h n
  refine ⟨n', ?_⟩
  rw [run_succeeds, h]

theorem Runs.transaction {onBegin onCommit : φ → ε} {a : α} (h : p.Runs s (.ok a) s') :
    (transaction onBegin onCommit p).Runs s (.ok a) s' := by
  intro n
  obtain ⟨m, h⟩ := h (n + 1)
  exact ⟨m + 1, run_transaction_ok_iff.2 ⟨rfl, m, h, rfl, rfl⟩⟩

theorem Runs.transaction_error {onBegin onCommit : φ → ε} {e : ε} (h : p.Runs s (.error e) s') :
    (Script.transaction onBegin onCommit p).Runs s (.error e) s := by
  intro n
  obtain ⟨m, h⟩ := h (n + 1)
  refine ⟨m, ?_⟩
  rw [run_transaction, h]
  rfl

theorem Runs.unique {r r' : Except ε α} {t : σ} (h : p.Runs s r s') (h' : p.Runs s r' t) :
    r = r' ∧ s' = t := by
  obtain ⟨n, h⟩ := h 0
  obtain ⟨n', h'⟩ := h' 0
  cases h.symm.trans h'
  exact ⟨rfl, rfl⟩

/-! ## Scripts that succeed in one way only -/

/-- When the script succeeds, it has done what it does if nothing fails. -/
def Direct (p : Script φ σ ε α) : Prop := ∀ s a s', p.Yields s (.ok a) s' → p.Runs s (.ok a) s'

theorem direct_pure (a : α) : (pure a : Script φ σ ε α).Direct := by
  intro s b s' h
  obtain ⟨hb, rfl⟩ := yields_pure.1 h
  rw [hb]
  exact runs_pure a

theorem direct_stop (e : ε) : (stop e : Script φ σ ε α).Direct := by
  intro s a s' h
  cases (yields_stop.1 h).1

theorem direct_exec (f : σ → Except φ (α × σ)) : (exec f).Direct :=
  fun _ _ _ h => runs_exec_ok (yields_exec_ok.1 h)

theorem direct_query (f : σ → Except φ α) : (query f).Direct := direct_exec _

theorem direct_update (f : σ → σ) : (update f : Script φ σ φ Unit).Direct := direct_exec _

theorem direct_mapError {f : ε → ε'} (h : p.Direct) : (mapError f p).Direct :=
  fun s a s' hy => (h s a s' (yields_mapError_ok.1 hy)).mapError_ok

theorem direct_transaction {onBegin onCommit : φ → ε} (h : p.Direct) :
    (transaction onBegin onCommit p).Direct :=
  fun s a s' hy => (h s a s' hy.transaction_ok).transaction

theorem direct_bind {k : α → Script φ σ ε β} (hp : p.Direct) (hk : ∀ a, (k a).Direct) :
    (p >>= k).Direct := by
  intro s b s' h
  obtain ⟨a, t, h, h'⟩ := h.bind_ok
  exact (hp s a t h).bind (hk a t b s' h')

/-- The only store in which such a script succeeds. -/
theorem Direct.store_eq (hp : p.Direct) {a b : α} {t : σ} (h : p.Yields s (.ok a) s')
    (hruns : p.Runs s (.ok b) t) : s' = t :=
  ((hp s a s' h).unique hruns).2

/-! ## Scripts that cannot tell two stores apart -/

/-- Run from `s` and from `t` the script ends with the same result, whatever fails. -/
def Alike (p : Script φ σ ε α) (s t : σ) : Prop :=
  ∀ fs n, ∃ r n' s' t', p.run fs n s = ⟨r, n', s'⟩ ∧ p.run fs n t = ⟨r, n', t'⟩

section Alike

variable {t : σ}

theorem alike_pure (a : α) : (pure a : Script φ σ ε α).Alike s t :=
  fun _ n => ⟨.ok a, n, s, t, rfl, rfl⟩

theorem alike_stop (e : ε) : (stop e : Script φ σ ε α).Alike s t :=
  fun _ n => ⟨.error e, n, s, t, rfl, rfl⟩

theorem alike_exec {f : σ → Except φ (α × σ)}
    (h : (f s).map Prod.fst = (f t).map Prod.fst) : (exec f).Alike s t := by
  intro fs n
  rw [run_exec, run_exec]
  cases fs n with
  | some e => exact ⟨_, _, _, _, rfl, rfl⟩
  | none =>
    rcases hs : f s with e | ⟨a, s'⟩ <;> rcases ht : f t with e' | ⟨b, t'⟩ <;> rw [hs, ht] at h <;>
      cases h
    · exact ⟨_, _, _, _, rfl, rfl⟩
    · exact ⟨_, _, _, _, rfl, rfl⟩

theorem alike_query {f : σ → Except φ α} (h : f s = f t) : (query f).Alike s t := by
  refine alike_exec ?_
  rw [h]
  cases f t <;> rfl

theorem alike_update (f : σ → σ) : (update f : Script φ σ φ Unit).Alike s t := alike_exec rfl

theorem Alike.mapError {f : ε → ε'} (h : p.Alike s t) : (mapError f p).Alike s t := by
  intro fs n
  obtain ⟨r, n', s', t', hs, ht⟩ := h fs n
  rw [run_mapError, run_mapError, hs, ht]
  cases r <;> exact ⟨_, _, _, _, rfl, rfl⟩

theorem Alike.transaction {onBegin onCommit : φ → ε} (h : p.Alike s t) :
    (Script.transaction onBegin onCommit p).Alike s t := by
  intro fs n
  rw [run_transaction, run_transaction]
  cases fs n with
  | some e => exact ⟨_, _, _, _, rfl, rfl⟩
  | none =>
    obtain ⟨r, n', s', t', hs, ht⟩ := h fs (n + 1)
    simp only [hs, ht]
    cases r with
    | error e => exact ⟨_, _, _, _, rfl, rfl⟩
    | ok a =>
      dsimp only
      cases fs n' with
      | some e => exact ⟨_, _, _, _, rfl, rfl⟩
      | none => exact ⟨_, _, _, _, rfl, rfl⟩

/-- What follows has to be alike from the stores that the first part leaves. -/
theorem Alike.bind {k : α → Script φ σ ε β} (hp : p.Alike s t)
    (hk : ∀ a s' t', p.Yields s (.ok a) s' → p.Yields t (.ok a) t' → (k a).Alike s' t') :
    (p >>= k).Alike s t := by
  intro fs n
  obtain ⟨r, n', s', t', hs, ht⟩ := hp fs n
  cases r with
  | error e => exact ⟨_, _, _, _, run_bind_of_error hs, run_bind_of_error ht⟩
  | ok a =>
    rw [run_bind_of_ok hs, run_bind_of_ok ht]
    exact hk a s' t' (.of_run hs) (.of_run ht) fs n'

/-- After reading the stores are still `s` and `t`. -/
theorem Alike.bind_reading {k : α → Script φ σ ε β} (hp : p.Alike s t) (hread : p.ReadOnly)
    (hk : ∀ a, p.Yields s (.ok a) s → (k a).Alike s t) : (p >>= k).Alike s t := by
  refine hp.bind fun a s' t' hs ht => ?_
  obtain rfl := hread s _ s' hs
  obtain rfl := hread t _ t' ht
  exact hk a hs

theorem Alike.val_eq (h : p.Alike s t) (fs : ℕ → Option φ) (n : ℕ) :
    (p.run fs n s).val = (p.run fs n t).val := by
  obtain ⟨r, n', s', t', hs, ht⟩ := h fs n
  rw [hs, ht]

end Alike

end Script
