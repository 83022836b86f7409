import Mathlib.Data.List.DropRight
import Mathlib.Tactic.Common

/-!
# A write-ahead log that is not synced at a commit

A commit appends to the log; a checkpoint syncs all of it. After a power failure the log ends
somewhere behind what was synced, so the store is in the state after one of the commits from
there on (`mem_survivors_run`); the death of a process loses nothing (`current_run`).
-/

/-- A store: the state that is synced, and those after the commits since then. -/
structure Wal (σ : Type) where
  durable : σ
  pending : List σ := []

namespace Wal

variable {σ : Type}

/-- The state after the last commit, as every process sees it. -/
def current (w : Wal σ) : σ := w.pending.getLastD w.durable

/-- What a power failure may leave. -/
def survivors (w : Wal σ) : List σ := w.durable :: w.pending

/-- What happens to a store. -/
inductive Event (σ : Type)
  | commit (f : σ → σ)
  | checkpoint

def Event.isCheckpoint : Event σ → Bool
  | commit _ => false
  | checkpoint => true

def step (w : Wal σ) : Event σ → Wal σ
  | .commit f => { w with pending := w.pending ++ [f w.current] }
  | .checkpoint => ⟨w.current, []⟩

def run (s : σ) (es : List (Event σ)) : Wal σ := es.foldl step ⟨s, []⟩

/-- The commits of a run. -/
def commits (es : List (Event σ)) : List (σ → σ) :=
  es.filterMap fun
    | .commit f => some f
    | .checkpoint => none

/-- The state after some commits. -/
def after (s : σ) (fs : List (σ → σ)) : σ := fs.foldl (fun s f => f s) s

/-- How many commits the last checkpoint has synced. -/
def synced (es : List (Event σ)) : ℕ :=
  (commits (es.rdropWhile fun e => !e.isCheckpoint)).length

variable {s t : σ} {es es' : List (Event σ)} {f : σ → σ}

theorem survivors_commit (w : Wal σ) :
    (w.step (.commit f)).survivors = w.survivors ++ [f w.current] := rfl

theorem current_commit (w : Wal σ) : (w.step (.commit f)).current = f w.current := by
  rw [step, current, List.getLastD_concat]

/-- The last state is one of those that may be left. -/
theorem current_mem_survivors (w : Wal σ) : w.current ∈ w.survivors := by
  obtain ⟨s, ts⟩ := w
  rcases List.eq_nil_or_concat ts with rfl | ⟨ts, t, rfl⟩
  · exact List.mem_cons_self
  · rw [current, List.concat_eq_append, List.getLastD_concat]
    exact List.mem_cons_of_mem _ (List.mem_append_right _ (List.mem_singleton.2 rfl))

theorem commits_append : commits (es ++ es') = commits es ++ commits es' := List.filterMap_append

theorem after_concat {fs : List (σ → σ)} : after s (fs ++ [f]) = f (after s fs) := by
  rw [after, List.foldl_append]
  rfl

theorem run_concat {e : Event σ} : run s (es ++ [e]) = (run s es).step e := by
  rw [run, List.foldl_append]
  rfl

theorem synced_commit : synced (es ++ [.commit f]) = synced es := by
  rw [synced, List.rdropWhile_concat_pos _ _ _ (by rfl)]
  rfl

theorem synced_checkpoint : synced (es ++ [.checkpoint]) = (commits es).length := by
  rw [synced, List.rdropWhile_concat_neg _ _ _ (by simp [Event.isCheckpoint]), commits_append,
    List.length_append]
  rfl

theorem synced_le (es : List (Event σ)) : synced es ≤ (commits es).length := by
  induction es using List.reverseRecOn with
  | nil => exact Nat.le_refl _
  | append_singleton es e ih =>
    cases e with
    | commit f =>
      rw [synced_commit, commits_append, List.length_append]
      exact Nat.le_add_right_of_le ih
    | checkpoint =>
      rw [synced_checkpoint, commits_append, List.length_append]
      exact Nat.le_add_right _ _

/-- What was committed before a checkpoint is synced. -/
theorem length_le_synced (h : Event.checkpoint ∈ es') :
    (commits es).length ≤ synced (es ++ es') := by
  induction es' using List.reverseRecOn with
  | nil => cases h
  | append_singleton es' e ih =>
    rw [← List.append_assoc]
    cases e with
    | commit f =>
      rw [synced_commit]
      apply ih
      rcases List.mem_append.1 h with h | h
      · exact h
      · cases List.mem_singleton.1 h
    | checkpoint =>
      rw [synced_checkpoint, commits_append, List.length_append]
      exact Nat.le_add_right _ _

/-- Every commit is seen at once. -/
theorem current_run : (run s es).current = after s (commits es) := by
  induction es using List.reverseRecOn with
  | nil => rfl
  | append_singleton es e ih =>
    rw [run_concat]
    cases e with
    | commit f =>
      have hlast : ((run s es).step (.commit f)).current = f (run s es).current := by
        rw [step, current, List.getLastD_concat]
      rw [hlast, ih, commits_append]
      exact after_concat.symm
    | checkpoint =>
      rw [commits_append]
      exact ih.trans (congrArg (after s) (List.append_nil _).symm)

/-- A power failure leaves the state after some of the commits, those that are synced among them,
and it may be any of these states. -/
theorem mem_survivors_run : t ∈ (run s es).survivors ↔
    ∃ k, synced es ≤ k ∧ k ≤ (commits es).length ∧ t = after s ((commits es).take k) := by
  induction es using List.reverseRecOn with
  | nil =>
    refine List.mem_singleton.trans ⟨fun h => ⟨0, Nat.le_refl _, Nat.le_refl _, h⟩, ?_⟩
    rintro ⟨k, -, -, h⟩
    exact h.trans (congrArg (after s) List.take_nil)
  | append_singleton es e ih =>
    cases e with
    | commit f =>
      have hstep : (run s (es ++ [.commit f])).survivors =
          (run s es).survivors ++ [f (after s (commits es))] := by
        rw [run_concat, ← current_run]
        rfl
      have hcommits : commits (es ++ [.commit f]) = commits es ++ [f] := commits_append
      have htake {k : ℕ} (hk : k ≤ (commits es).length) :
          (commits es ++ [f]).take k = (commits es).take k := List.take_append_of_le_length hk
      have hall : (commits es ++ [f]).take ((commits es).length + 1) = commits es ++ [f] :=
        List.take_of_length_le (by rw [List.length_append, List.length_singleton])
      rw [hstep, List.mem_append, ih, List.mem_singleton, synced_commit, hcommits,
        List.length_append, List.length_singleton]
      refine ⟨?_, ?_⟩
      · rintro (⟨k, hsynced, hk, rfl⟩ | rfl)
        · exact ⟨k, hsynced, Nat.le_succ_of_le hk, by rw [htake hk]⟩
        · refine ⟨(commits es).length + 1, Nat.le_succ_of_le (synced_le es), Nat.le_refl _, ?_⟩
          rw [hall, after_concat]
      · rintro ⟨k, hsynced, hk, rfl⟩
        rcases Nat.le_or_eq_of_le_succ hk with hk | rfl
        · exact .inl ⟨k, hsynced, hk, by rw [htake hk]⟩
        · right
          rw [hall, after_concat]
    | checkpoint =>
      have hstep : (run s (es ++ [.checkpoint])).survivors = [after s (commits es)] := by
        rw [run_concat, ← current_run]
        rfl
      have hcommits : commits (es ++ [.checkpoint]) = commits es := by
        rw [commits_append]
        exact List.append_nil _
      rw [hstep, List.mem_singleton, synced_checkpoint, hcommits]
      refine ⟨fun h => ⟨_, Nat.le_refl _, Nat.le_refl _, by rw [List.take_length, h]⟩, ?_⟩
      rintro ⟨k, hsynced, hk, rfl⟩
      rw [Nat.le_antisymm hk hsynced, List.take_length]

end Wal
