import Mathlib.Data.Rat.Floor
import Mathlib.Tactic.Linarith

/-!
# Watching for the last use

Every use of something leaves a note of the time, cut to whole seconds. A thread sleeps for a while,
looks how old the note is, and sleeps again. `Times` is what the two of them know of the time, and
`Times.Sound` what always holds of it: the note is at most a second too old. So what the thread
takes for the age of the last use is right but for that second (`Sound.lt_of_le_age`,
`Sound.lt_of_age_lt`). `OnTime.clock_le` bounds how long the thread can go without looking.
-/

namespace Watch

/-- The time of a thing that is used and of the thread that watches it. -/
structure Times where
  clock : ℚ
  /-- Since when the thread sleeps. -/
  asleep : ℚ
  /-- The last use, -/
  used : ℚ
  /-- and the note that it has left. -/
  note : ℕ

namespace Times

def start (now : ℚ) : Times := ⟨now, now, now, ⌊now⌋₊⟩

/-- A use. -/
def use (s : Times) (now : ℚ) : Times := { s with clock := now, used := now, note := ⌊now⌋₊ }

/-- Time passes. -/
def tick (s : Times) (now : ℚ) : Times := { s with clock := now }

/-- The thread goes to sleep. -/
def sleep (s : Times) (now : ℚ) : Times := { s with clock := now, asleep := now }

/-- What the thread takes for the age of the last use. -/
def age (s : Times) (now : ℚ) : ℚ := now - s.note

/-- The thread has not overslept: it wakes after its nap, or somewhat later. -/
def OnTime (nap late : ℚ) (s : Times) (now : ℚ) : Prop := now ≤ s.asleep + nap + late

/-- What holds of the times at any time. -/
structure Sound (s : Times) : Prop where
  nonneg : 0 ≤ s.used
  used_le : s.used ≤ s.clock
  asleep_le : s.asleep ≤ s.clock
  note_eq : s.note = ⌊s.used⌋₊

variable {s : Times} {now limit nap late : ℚ}

theorem sound_start (h : 0 ≤ now) : Sound (start now) := ⟨h, le_refl _, le_refl _, rfl⟩

namespace Sound

theorem use (h : Sound s) (hnow : s.clock ≤ now) : Sound (s.use now) :=
  ⟨(h.nonneg.trans h.used_le).trans hnow, le_refl _, h.asleep_le.trans hnow, rfl⟩

theorem tick (h : Sound s) (hnow : s.clock ≤ now) : Sound (s.tick now) :=
  ⟨h.nonneg, h.used_le.trans hnow, h.asleep_le.trans hnow, h.note_eq⟩

theorem sleep (h : Sound s) (hnow : s.clock ≤ now) : Sound (s.sleep now) :=
  ⟨h.nonneg, h.used_le.trans hnow, le_refl _, h.note_eq⟩

theorem age_lt (h : Sound s) (now : ℚ) : s.age now < now - s.used + 1 := by
  have hfloor := Nat.lt_floor_add_one s.used
  rw [age, h.note_eq]
  linarith

theorem le_age (h : Sound s) (now : ℚ) : now - s.used ≤ s.age now := by
  have hfloor := Nat.floor_le h.nonneg
  rw [age, h.note_eq]
  linarith

/-- **A use that the thread takes for old was more than the limit less a second ago.** -/
theorem lt_of_le_age (h : Sound s) (hold : limit ≤ s.age now) : limit - 1 < now - s.used := by
  linarith [h.age_lt now]

/-- **A use that it takes for recent was less than the limit ago.** -/
theorem lt_of_age_lt (h : Sound s) (hrecent : s.age now < limit) : now - s.used < limit :=
  (h.le_age now).trans_lt hrecent

end Sound

/-- **What was so when the thread went to sleep has been so for a nap at most.** -/
theorem OnTime.clock_le (h : OnTime nap late s s.clock) {t : ℚ} (hasleep : s.asleep ≤ t) :
    s.clock ≤ t + nap + late := by
  have hwake : s.clock ≤ s.asleep + nap + late := h
  linarith

/-- A thread that has just gone to sleep is on time. -/
theorem onTime_of_le (hnap : 0 ≤ nap) (hlate : 0 ≤ late) (hasleep : now ≤ s.asleep) :
    OnTime nap late s now := by
  change now ≤ s.asleep + nap + late
  linarith

end Times

end Watch
