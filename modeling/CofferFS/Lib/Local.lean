import CofferFS.Lib.Reasons

/-!
# What a script depends on

A script looks at the failures of the statements that it executes and at no others (`Local`). There
is one rule for each way to build a script. So a run can be told from the failures that it has come
across, `Local.run_cut`, and if there were none it is the run without failures, `Local.run_calm`.
-/

namespace Script

variable {φ σ ε ε' α β : Type} {fs fs' : ℕ → Option φ} {n : ℕ} {s : σ} {p : Script φ σ ε α}

/-- A run depends on the failures of the statements that it executes. -/
structure Local (p : Script φ σ ε α) : Prop where
  le_next : ∀ fs n s, n ≤ (p.run fs n s).next
  congr : ∀ fs fs' n s, (∀ k, n ≤ k → k < (p.run fs n s).next → fs' k = fs k) →
    p.run fs' n s = p.run fs n s

theorem local_pure (a : α) : (pure a : Script φ σ ε α).Local := ⟨fun _ n _ => Nat.le_refl n,
  fun _ _ _ _ _ => rfl⟩

theorem local_stop (e : ε) : (stop e : Script φ σ ε α).Local := ⟨fun _ n _ => Nat.le_refl n,
  fun _ _ _ _ _ => rfl⟩

theorem local_exec (f : σ → Except φ (α × σ)) : (exec f).Local := by
  have hnext (fs : ℕ → Option φ) (n : ℕ) (s : σ) : ((exec f).run fs n s).next = n + 1 := by
    rw [run_exec]
    cases fs n with
    | some e => rfl
    | none => rcases f s with e | ⟨a, t⟩ <;> rfl
  refine ⟨fun fs n s => (hnext fs n s).symm ▸ Nat.le_succ n, fun fs fs' n s h => ?_⟩
  rw [hnext] at h
  rw [run_exec, run_exec, h n (Nat.le_refl n) (Nat.lt_succ_self n)]

theorem local_query (f : σ → Except φ α) : (query f).Local := local_exec _

theorem local_update (f : σ → σ) : (update f : Script φ σ φ Unit).Local := local_exec _

theorem local_ite {c : Prop} [Decidable c] {q : Script φ σ ε α} (hp : p.Local) (hq : q.Local) :
    (if c then p else q).Local := by
  split
  · exact hp
  · exact hq

/-- What is done to the result of a script does not look at failures. -/
theorem Local.map (h : p.Local) {q : Script φ σ ε' β} (g : Except ε α → Except ε' β)
    (hq : ∀ fs n s, q.run fs n s =
      ⟨g (p.run fs n s).val, (p.run fs n s).next, (p.run fs n s).store⟩) : q.Local where
  le_next fs n s := by
    rw [hq]
    exact h.le_next fs n s
  congr fs fs' n s hagree := by
    rw [hq fs] at hagree
    rw [hq fs', hq fs, h.congr fs fs' n s hagree]

theorem Local.mapError {f : ε → ε'} (h : p.Local) : (mapError f p).Local := by
  refine h.map (fun r => r.mapError f) fun fs n s => ?_
  rw [run_mapError]
  rcases p.run fs n s with ⟨e | a, m, t⟩ <;> rfl

theorem Local.attempt (h : p.Local) : (attempt p : Script φ σ ε' _).Local :=
  h.map .ok fun _ _ _ => rfl

theorem Local.succeeds (h : p.Local) : (succeeds p : Script φ σ ε' Bool).Local := by
  refine h.map (fun r => .ok r.isOk) fun fs n s => ?_
  rw [run_succeeds]
  rcases p.run fs n s with ⟨e | a, m, t⟩ <;> rfl

theorem Local.le_of_run (h : p.Local) {r : Except ε α} {m : ℕ} {t : σ}
    (hrun : p.run fs n s = ⟨r, m, t⟩) : n ≤ m := by
  have hle := h.le_next fs n s
  rwa [hrun] at hle

theorem Local.run_eq (h : p.Local) {r : Except ε α} {m : ℕ} {t : σ}
    (hrun : p.run fs n s = ⟨r, m, t⟩) (hagree : ∀ k, n ≤ k → k < m → fs' k = fs k) :
    p.run fs' n s = ⟨r, m, t⟩ := by
  refine (h.congr fs fs' n s fun k hk hlt => hagree k hk ?_).trans hrun
  rwa [hrun] at hlt

theorem Local.bind {k : α → Script φ σ ε β} (hp : p.Local) (hk : ∀ a, (k a).Local) :
    (p >>= k).Local where
  le_next fs n s := by
    rcases hrun : p.run fs n s with ⟨e | a, m, t⟩
    · rw [run_bind_of_error hrun]
      exact hp.le_of_run hrun
    · rw [run_bind_of_ok hrun]
      exact Nat.le_trans (hp.le_of_run hrun) ((hk a).le_next fs m t)
  congr fs fs' n s h := by
    rcases hrun : p.run fs n s with ⟨e | a, m, t⟩
    · rw [run_bind_of_error hrun] at h ⊢
      exact run_bind_of_error (hp.run_eq hrun h)
    · rw [run_bind_of_ok hrun] at h ⊢
      -- the first part executes fewer statements than both
      have hle := hp.le_of_run hrun
      have hnext := (hk a).le_next fs m t
      rw [run_bind_of_ok (hp.run_eq hrun fun j hj hlt => h j hj (Nat.lt_of_lt_of_le hlt hnext))]
      exact (hk a).congr fs fs' m t fun j hj hlt => h j (Nat.le_trans hle hj) hlt

theorem Local.transaction {onBegin onCommit : φ → ε} (h : p.Local) :
    (transaction onBegin onCommit p).Local where
  le_next fs n s := by
    rw [run_transaction]
    cases fs n with
    | some e => exact Nat.le_succ n
    | none =>
      rcases hrun : p.run fs (n + 1) s with ⟨e | a, m, t⟩
      · exact Nat.le_trans (Nat.le_succ n) (h.le_of_run hrun)
      · have hle : n ≤ m + 1 := Nat.le_trans (Nat.le_succ n) (Nat.le_succ_of_le (h.le_of_run hrun))
        cases hcommit : fs m with
        | some e => simpa [hcommit] using hle
        | none => simpa [hcommit] using hle
  congr fs fs' n s hagree := by
    rw [run_transaction] at hagree ⊢
    rw [run_transaction]
    cases hbegin : fs n with
    | some e =>
      rw [hbegin] at hagree
      rw [hagree n (Nat.le_refl n) (Nat.lt_succ_self n), hbegin]
    | none =>
      rw [hbegin] at hagree
      rcases hrun : p.run fs (n + 1) s with ⟨e | a, m, t⟩
      · rw [hrun] at hagree
        have hle := h.le_of_run hrun
        rw [hagree n (Nat.le_refl n) hle, hbegin,
          h.run_eq hrun fun j hj hlt => hagree j (Nat.le_of_succ_le hj) hlt]
      · have hle := h.le_of_run hrun
        have hsame (j : ℕ) (hj : n ≤ j) (hlt : j ≤ m) : fs' j = fs j := by
          rw [hrun] at hagree
          refine hagree j hj ?_
          cases hcommit : fs m with
          | some e => simpa [hcommit] using Nat.lt_succ_of_le hlt
          | none => simpa [hcommit] using Nat.lt_succ_of_le hlt
        rw [hsame n (Nat.le_refl n) (Nat.le_of_succ_le hle), hbegin,
          h.run_eq hrun fun j hj hlt => hsame j (Nat.le_of_succ_le hj) (Nat.le_of_lt hlt)]
        dsimp only
        rw [hsame m (Nat.le_of_succ_le hle) (Nat.le_refl m)]

/-! ## What a run has come across -/

/-- Statements from `n` on are not reached. -/
def cut (fs : ℕ → Option φ) (n : ℕ) : ℕ → Option φ := fun k => if k < n then fs k else none

theorem failing_cut : Failing (cut fs n) ↔ ∃ k < n, fs k ≠ none := by
  constructor
  · rintro ⟨k, hk⟩
    by_cases hlt : k < n
    · exact ⟨k, hlt, by rwa [cut, if_pos hlt] at hk⟩
    · rw [cut, if_neg hlt] at hk
      exact absurd rfl hk
  · rintro ⟨k, hlt, hk⟩
    exact ⟨k, by rwa [cut, if_pos hlt]⟩

/-- **The failures that a run has come across decide it.** -/
theorem Local.run_cut (h : p.Local) : p.run (cut fs (p.run fs 0 s).next) 0 s = p.run fs 0 s :=
  h.congr fs _ 0 s fun _ _ hlt => if_pos hlt

/-- **A run that has come across none is the run without failures.** -/
theorem Local.run_calm (h : p.Local) (hcalm : ∀ k < (p.run fs 0 s).next, fs k = none) :
    p.run noFailure 0 s = p.run fs 0 s :=
  h.congr fs noFailure 0 s fun k _ hlt => (hcalm k hlt).symm

end Script
