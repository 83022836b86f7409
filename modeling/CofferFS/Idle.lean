import CofferFS.Lib.Watch
import Mathlib.Logic.Relation

/-!
# Unmounting when nothing happens

Every callback notes the time (`touch`), in whole seconds; a thread wakes every half minute at most,
and tries to unmount when the last note is old enough (`spawn_idle_watcher`). It tries once: what
`run_unmount` has come to is written to the log, and the thread ends. `idle_unmount` says what one
can rely on over any run of calls and wakings: nothing is tried while the mount is used, though a
note loses up to a second, it is tried within the limit and one waking, and never again.

Times are what the clock says, in seconds. The thread may be late in waking, but not by more than
`late`, and the command takes no time.
-/

namespace CofferFS.Idle

open Watch

/-- How long the watchers of a mount sleep. -/
def poll (limit : ℚ) : ℚ := max (min limit 30) 1

theorem poll_nonneg (limit : ℚ) : 0 ≤ poll limit := zero_le_one.trans (le_max_right _ _)

theorem poll_le (limit : ℚ) : poll limit ≤ 30 := max_le (min_le_right _ _) (by norm_num)

/-- How `run_unmount` ends. -/
inductive RunUnmount
  /-- `Ok`, and the status is a success. -/
  | ok
  /-- `Ok`, and it is not. -/
  | status
  | err
  deriving DecidableEq

/-- The try to unmount: when, what the last call before it was, and what it has come to. -/
structure Attempt where
  time : ℚ
  used : ℚ
  result : RunUnmount

/-- A mount and its watcher, which has returned when it has tried. -/
structure State where
  times : Times
  attempt : Option Attempt := none

namespace State

/-- A mount that begins. -/
def start (now : ℚ) : State := { times := .start now }

/-- Nobody has unmounted it. -/
def Mounted (s : State) : Prop := ∀ a ∈ s.attempt, a.result ≠ .ok

/-- `touch` -/
def touch (s : State) (now : ℚ) : State := { s with times := s.times.use now }

/-- Time passes. -/
def tick (s : State) (now : ℚ) : State := { s with times := s.times.tick now }

/-- One round of the watcher's loop, after its sleep. -/
def wake (timeout : ℚ) (s : State) (now : ℚ) (result : RunUnmount) : State where
  times := s.times.sleep now
  attempt := if timeout ≤ s.times.age now then some ⟨now, s.times.used, result⟩ else none

end State

/-- A call comes while the mount is there, the watcher wakes while it runs, or nothing happens. -/
inductive Step (timeout late : ℚ) : State → State → Prop
  | call {s : State} {now : ℚ} (hmounted : s.Mounted) (hclock : s.times.clock ≤ now)
      (hlate : s.attempt = none → s.times.OnTime (poll timeout) late now) :
      Step timeout late s (s.touch now)
  | tick {s : State} {now : ℚ} (hclock : s.times.clock ≤ now)
      (hlate : s.attempt = none → s.times.OnTime (poll timeout) late now) :
      Step timeout late s (s.tick now)
  | wake {s : State} {now : ℚ} {result : RunUnmount} (hrun : s.attempt = none)
      (hclock : s.times.clock ≤ now) (hsleep : s.times.asleep + poll timeout ≤ now)
      (hlate : s.times.OnTime (poll timeout) late now) :
      Step timeout late s (s.wake timeout now result)

/-- What the watcher knows of the last call, and what its last waking has found. -/
structure Inv (timeout late : ℚ) (s : State) : Prop where
  sound : s.times.Sound
  waiting : s.attempt = none → s.times.asleep ≤ s.times.used + timeout ∧
    s.times.OnTime (poll timeout) late s.times.clock
  attempt : ∀ a ∈ s.attempt, timeout - 1 < a.time - a.used

section Runs

variable {timeout late now : ℚ} {s t : State}

theorem inv_start (htimeout : 0 ≤ timeout) (hlate : 0 ≤ late) (hnow : 0 ≤ now) :
    Inv timeout late (.start now) where
  sound := Times.sound_start hnow
  waiting _ := ⟨le_add_of_nonneg_right htimeout,
    Times.onTime_of_le (poll_nonneg timeout) hlate (le_refl _)⟩
  attempt _ h := nomatch h

theorem Inv.step (h : Inv timeout late s) (htimeout : 0 ≤ timeout) (hlate : 0 ≤ late)
    (hstep : Step timeout late s t) : Inv timeout late t := by
  cases hstep with
  | @call now hmounted hclock hnow =>
    refine ⟨h.sound.use hclock, fun hrun => ⟨?_, hnow hrun⟩, h.attempt⟩
    change s.times.asleep ≤ now + timeout
    linarith [h.sound.asleep_le]
  | tick hclock hnow =>
    exact ⟨h.sound.tick hclock, fun hrun => ⟨(h.waiting hrun).1, hnow hrun⟩, h.attempt⟩
  | @wake now result hrun hclock hsleep hnow =>
    refine ⟨h.sound.sleep hclock, fun hnone => ⟨?_, ?_⟩, fun a ha => ?_⟩
    · -- the watcher goes on, so the last call was recent
      change (if timeout ≤ s.times.age now then some ⟨now, s.times.used, result⟩ else none) =
        (none : Option Attempt) at hnone
      split_ifs at hnone with hdue
      have hrecent := h.sound.lt_of_age_lt (not_le.1 hdue)
      change now ≤ s.times.used + timeout
      linarith
    · exact Times.onTime_of_le (poll_nonneg timeout) hlate (le_refl _)
    · change (if timeout ≤ s.times.age now then some ⟨now, s.times.used, result⟩ else none) =
        some a at ha
      split_ifs at ha with hdue
      cases ha
      exact h.sound.lt_of_le_age hdue

theorem inv_of_run (htimeout : 0 ≤ timeout) (hlate : 0 ≤ late) (hnow : 0 ≤ now)
    (hrun : Relation.ReflTransGen (Step timeout late) (.start now) s) : Inv timeout late s := by
  induction hrun with
  | refl => exact inv_start htimeout hlate hnow
  | tail _ hlast ih => exact ih.step htimeout hlate hlast

/-- The watcher returns after a try, whatever that has come to. -/
theorem Step.attempt_eq {a : Attempt} (h : Step timeout late s t) (ha : s.attempt = some a) :
    t.attempt = some a := by
  cases h with
  | call => exact ha
  | tick => exact ha
  | wake hrun =>
    rw [hrun] at ha
    cases ha

theorem attempt_eq_of_run {a : Attempt} (hrun : Relation.ReflTransGen (Step timeout late) s t)
    (ha : s.attempt = some a) : t.attempt = some a := by
  induction hrun with
  | refl => exact ha
  | tail _ hlast ih => exact hlast.attempt_eq ih

/-- **Nothing is tried within the limit less a second of a call, and a try has been made when more
than the limit and half a minute have passed since the last one. There is one try: if it fails, the
mount stays.** -/
theorem idle_unmount (htimeout : 0 ≤ timeout) (hlate : 0 ≤ late) (hnow : 0 ≤ now)
    (hrun : Relation.ReflTransGen (Step timeout late) (.start now) s) :
    (∀ a ∈ s.attempt, timeout - 1 < a.time - a.used) ∧
      (s.times.used + timeout + 30 + late < s.times.clock → s.attempt.isSome) ∧
      ∀ a ∈ s.attempt, ∀ t, Relation.ReflTransGen (Step timeout late) s t →
        t.attempt = some a ∧ (t.Mounted ↔ a.result ≠ .ok) := by
  have h := inv_of_run htimeout hlate hnow hrun
  refine ⟨h.attempt, fun hidle => ?_, fun a ha t hlater => ?_⟩
  · by_contra hnone
    obtain ⟨hasleep, hclock⟩ := h.waiting (Option.not_isSome_iff_eq_none.1 hnone)
    have hle := hclock.clock_le hasleep
    have hpoll := poll_le timeout
    linarith
  · have ht := attempt_eq_of_run hlater ha
    refine ⟨ht, fun hmounted => hmounted a ht, fun hfailed a' ha' => ?_⟩
    rw [ht] at ha'
    cases ha'
    exact hfailed

/-- The second is lost indeed: a call just before the next second counts as one at its beginning. -/
theorem exists_early (htimeout : 1 ≤ timeout) (hmax : timeout ≤ 30) {δ : ℚ} (hδ : 0 < δ)
    (hδ₁ : δ ≤ 1) (result : RunUnmount) : ∃ s,
      Relation.ReflTransGen (Step timeout 0) (.start 0) s ∧
        s.attempt = some ⟨timeout, 1 - δ, result⟩ := by
  have hpoll : poll timeout = timeout := by
    rw [poll, min_eq_left hmax, max_eq_left htimeout]
  have hcall : Step timeout 0 (.start 0) ((State.start 0).touch (1 - δ)) := by
    refine .call (fun a ha => nomatch ha) (show (0 : ℚ) ≤ 1 - δ by linarith) fun _ => ?_
    change 1 - δ ≤ 0 + poll timeout + 0
    linarith
  have hnote : ⌊1 - δ⌋₊ = 0 := Nat.floor_eq_zero.2 (by linarith)
  have hwake : Step timeout 0 ((State.start 0).touch (1 - δ))
      (((State.start 0).touch (1 - δ)).wake timeout timeout result) := by
    refine .wake rfl ?_ ?_ ?_
    · change 1 - δ ≤ timeout
      linarith
    · change 0 + poll timeout ≤ timeout
      linarith
    · change timeout ≤ 0 + poll timeout + 0
      linarith
  refine ⟨_, (Relation.ReflTransGen.single hcall).tail hwake, ?_⟩
  change (if timeout ≤ timeout - (⌊1 - δ⌋₊ : ℚ) then some ⟨timeout, 1 - δ, result⟩ else none) =
    some (⟨timeout, 1 - δ, result⟩ : Attempt)
  rw [hnote, Nat.cast_zero, sub_zero, if_pos (le_refl _)]

/-- A limit of two seconds, and a mount that does not go. -/
theorem idle_unmount_two : ∃ s, Relation.ReflTransGen (Step 2 0) (.start 0) s ∧
    s.attempt = some ⟨2, 0, .status⟩ ∧
    ∀ t, Relation.ReflTransGen (Step 2 0) s t → t.Mounted := by
  obtain ⟨s, hrun, hs⟩ := @exists_early 2 (by norm_num) (by norm_num) 1 one_pos (le_refl 1) .status
  rw [sub_self] at hs
  refine ⟨s, hrun, hs, fun t hlater => ?_⟩
  have hone := (idle_unmount zero_le_two (le_refl 0) (le_refl 0) hrun).2.2 _ hs t hlater
  exact hone.2.2 (by decide)

end Runs

end CofferFS.Idle
