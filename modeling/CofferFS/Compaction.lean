import CofferFS.Sizes
import CofferFS.Idle
import CofferFS.Lib.Rounding

/-!
# Compacting when nothing happens

A second thread watches a mount that was started with `--compact-on-idle`
(`spawn_compact_on_idle_watcher`). If the last note is old enough it reads the size of the
container's file, waits for the lock, looks at the note once more, and runs `VACUUM` if the sum of
the sizes leaves enough to be reclaimed. `compact_on_idle` is about any run of calls, rounds of this
thread and `VACUUM`s: every round has come to what the note, the size and the sum were, and a mount
that is left alone is looked at.

Calls are served one after the other. A call that arrives has left its note before it waits for the
lock. Sizes of the file are whatever the host says. Times are as in `Idle`.
-/

namespace CofferFS

open Rounding Script

/-! ## What is worth a `VACUUM` -/

/-- `MIN_RECLAIM_BYTES` -/
def minReclaimBytes : ℕ := 64 * 1024 * 1024

/-- `MIN_RECLAIM_FRACTION` -/
def minReclaimFraction : F64 := toF64 (1 / 10)

/-- `VACUUM` would give back too little. -/
def tooLittle (onDisk gap : ℕ) : Bool :=
  gap < minReclaimBytes || toF64 gap < toF64 (toF64 onDisk * minReclaimFraction)

/-- A tenth is rounded up, by as little as a number next to 1 has place for. -/
theorem minReclaimFraction_eq : minReclaimFraction = (1 + 2 ^ (-54 : ℤ)) / 10 := by
  have hlog : Int.log 2 (|1 / 10| : ℚ) = -4 := by
    refine le_antisymm ?_ ?_
    · rw [← Int.lt_add_one_iff, log_lt_iff (by norm_num)]
      norm_num
    · rw [le_log_iff (by norm_num)]
      norm_num
  have hfloor : ⌊(36028797018963968 / 5 : ℚ)⌋ = 7205759403792793 := by
    rw [Int.floor_eq_iff]
    norm_num
  rw [minReclaimFraction, toF64, hlog, roundHalfEven]
  norm_num [hfloor]

variable {onDisk gap : ℕ}

theorem toF64_natCast {n : ℕ} (h : n < 2 ^ 53) : toF64 n = n := by
  have hexact := @nearest_mul 53 0 n (Int.natCast_nonneg _) (by exact_mod_cast h)
  rw [zpow_zero, mul_one, Int.cast_natCast] at hexact
  rw [toF64_eq, hexact]

/-- Ten of the tenths are rounded back. -/
theorem toF64_tenths_le (h : gap < 2 ^ 53) : toF64 (gap * (1 + 2 ^ (-54 : ℤ))) ≤ gap := by
  rcases Nat.eq_zero_or_pos gap with rfl | hpos
  · simp [toF64]
  have hgap : (1 : ℚ) ≤ gap := by exact_mod_cast hpos
  have hlt : (gap : ℚ) ≤ 2 ^ 53 - 1 := by
    rw [le_sub_iff_add_le]
    exact_mod_cast h
  have hq : (0 : ℚ) < gap * (1 + 2 ^ (-54 : ℤ)) := by positivity
  have hplace : place 53 (gap * (1 + 2 ^ (-54 : ℤ)) : ℚ) ≤ 0 := by
    rw [place_le_iff hq]
    norm_num
    linarith
  rw [toF64_eq, nearest]
  refine @near_le_intCast _ _ gap hplace ?_
  -- what is too much is less than half of the last place
  have hlast := (place_le_iff hq).1 (le_refl (place 53 (gap * (1 + 2 ^ (-54 : ℤ)) : ℚ)))
  rw [Nat.cast_ofNat, zpow_add₀ two_ne_zero] at hlast
  norm_num at hlast ⊢
  linarith

/-- A multiple of the fraction above ten gaps is not rounded to the gap. -/
theorem lt_toF64 (h : 10 * gap < onDisk) (hlt : gap < 2 ^ 50) :
    (gap : ℚ) < toF64 (onDisk * minReclaimFraction) := by
  have hle : (gap : ℚ) + 1 / 10 ≤ onDisk * minReclaimFraction := by
    have hcast : 10 * (gap : ℚ) + 1 ≤ onDisk := by exact_mod_cast h
    rw [minReclaimFraction_eq]
    norm_num
    linarith
  have hq : (0 : ℚ) < gap + 1 / 10 := by positivity
  have hlt' : (gap : ℚ) + 1 / 10 < 2 ^ 50 := by
    have hcast : (gap : ℚ) + 1 ≤ 2 ^ 50 := by exact_mod_cast hlt
    linarith
  refine lt_of_lt_of_le ?_ ((nearest_mono (by norm_num) hq.le hle).trans_eq (toF64_eq _).symm)
  have hplace : place 53 (gap + 1 / 10 : ℚ) ≤ -3 := by
    rw [place_le_iff hq]
    norm_num
    linarith
  have hlast : (2 : ℚ) ^ place 53 (gap + 1 / 10 : ℚ) ≤ 2 ^ (-3 : ℤ) :=
    zpow_le_zpow_right₀ one_le_two hplace
  have hround := @sub_le_near (gap + 1 / 10) (place 53 (gap + 1 / 10 : ℚ))
  rw [nearest]
  norm_num at hlast
  linarith

/-- **The rounding does not matter**: the two constants are what they are meant to be for any file
that is smaller than 8 PiB. -/
theorem tooLittle_iff (hgap : gap ≤ onDisk) (h : onDisk < 2 ^ 53) :
    tooLittle onDisk gap = true ↔ gap < minReclaimBytes ∨ 10 * gap < onDisk := by
  rw [tooLittle, Bool.or_eq_true, decide_eq_true_iff, decide_eq_true_iff,
    toF64_natCast (hgap.trans_lt h), toF64_natCast h]
  refine or_congr_right ⟨fun hlt => ?_, fun hlt => lt_toF64 hlt (by omega)⟩
  by_contra hle
  have hcast : (onDisk : ℚ) * minReclaimFraction ≤ gap * (1 + 2 ^ (-54 : ℤ)) := by
    have hcast : (onDisk : ℚ) ≤ 10 * gap := by exact_mod_cast not_lt.1 hle
    rw [minReclaimFraction_eq]
    norm_num
    linarith
  have hnonneg : (0 : ℚ) ≤ onDisk * minReclaimFraction := by
    rw [minReclaimFraction_eq]
    positivity
  have hround := nearest_mono (p := 53) (by norm_num) hnonneg hcast
  rw [← toF64_eq, ← toF64_eq] at hround
  exact absurd hlt (not_lt.2 (hround.trans (toF64_tenths_le (hgap.trans_lt h))))

/-! ## The sum that is taken -/

namespace Db

variable {db : Db} {fails : ℕ → Option SqlError}

/-- `SUM` is an error if the sum is too large. -/
theorem sumI64_eq_none {l : List ℤ} (h₀ : ∀ x ∈ l, 0 ≤ x) (hgt : i64Max < l.sum) :
    sumI64 l = none := by
  have hfold (l : List ℤ) (acc : ℤ) (h₀ : ∀ x ∈ l, 0 ≤ x) (hacc : 0 ≤ acc)
      (hgt : i64Max < acc + l.sum) (hle : acc ≤ i64Max) :
      l.foldlM (fun acc x : ℤ => if -2 ^ 63 ≤ acc + x ∧ acc + x ≤ i64Max then some (acc + x)
        else none) acc = none := by
    induction l generalizing acc with
    | nil =>
      rw [List.sum_nil] at hgt
      omega
    | cons x l ih =>
      have hx := h₀ x List.mem_cons_self
      rw [List.sum_cons, ← add_assoc] at hgt
      rw [List.foldlM_cons]
      split_ifs with hfits
      · exact ih (acc + x) (fun y hy => h₀ y (List.mem_cons_of_mem x hy)) (by omega) hgt hfits.2
      · rfl
  exact hfold l 0 h₀ (le_refl 0) (by rwa [zero_add]) (by decide)

theorem sumSize_error (hs : db.StoreInv) (hgt : i64Max < db.totalSize) :
    db.sumSize = .error .other := by
  have hsum : sumI64 (db.inodes.entries.map fun e => e.2.size) = none := by
    refine sumI64_eq_none (fun x hx => ?_) hgt
    obtain ⟨⟨i, r⟩, hir, rfl⟩ := List.mem_map.1 hx
    exact hs.size_nonneg i r.kind r.size (by rw [core, AList.mem_entries_iff.1 hir]; rfl)
  rw [sumSize, hsum]

/-- The gap that is read. A sum that cannot be taken counts as nothing. -/
theorem idleGap_val (hs : db.StoreInv) (onDisk : ℕ) : ((idleGap onDisk).run fails 0 db).val =
    .ok (if fails 0 = none ∧ db.totalSize ≤ i64Max then onDisk - db.totalSize.toNat
      else onDisk) := by
  have hquery : ((query Db.sumSize : Sql ℤ).run fails 0 db).val =
      if fails 0 = none ∧ db.totalSize ≤ i64Max then .ok db.totalSize
      else .error ((fails 0).getD .other) := by
    cases hfail : fails 0 with
    | some e => rw [query, run_exec, hfail]; rfl
    | none =>
      by_cases hle : db.totalSize ≤ i64Max
      · rw [query, run_exec, hfail, sumSize_eq hs hle, if_pos ⟨rfl, hle⟩]
        rfl
      · rw [query, run_exec, hfail, sumSize_error hs (not_le.1 hle), if_neg fun h => hle h.2]
        rfl
  rw [idleGap, run_bind, run_attempt]
  simp only [hquery]
  split_ifs with hread
  · rw [← asU64_totalSize hs hread.2]
    rfl
  · rfl

end Db

namespace Compaction

open Watch
open Idle (poll poll_nonneg poll_le)

/-! ## The watcher -/

/-- What a round of the watcher works with. -/
structure Measure where
  /-- The size of the file, and when it was read. -/
  onDisk : ℕ
  time : ℚ
  /-- The tables and the failures that the sum is taken with. -/
  db : Db
  fails : ℕ → Option SqlError
  gap : ℕ

/-- The gap is what the query says. -/
def Measure.Reads (m : Measure) (db : Db) : Prop :=
  m.db = db ∧ ((idleGap m.onDisk).run m.fails 0 db).val = .ok m.gap

/-- What a round has come to. -/
inductive Outcome
  /-- The mount is in use. -/
  | busy
  /-- The size of the file cannot be read. -/
  | unmeasured
  /-- There is too little to be reclaimed. -/
  | spared (m : Measure)
  /-- `VACUUM` begins. -/
  | compacted (m : Measure)

def Outcome.measure : Outcome → Option Measure
  | .busy | .unmeasured => none
  | .spared m | .compacted m => some m

/-- A round, with the last call before it. -/
structure Round where
  time : ℚ
  used : ℚ
  outcome : Outcome

/-- Where the watcher is. -/
inductive Watcher
  | sleeping
  /-- It waits for the lock. -/
  | waiting (onDisk : ℕ) (time : ℚ)
  /-- It has the lock. -/
  | compacting

/-- A mount and its watcher. -/
structure State where
  times : Times
  db : Db
  /-- The call that waits for its turn. -/
  pending : Option Request := none
  watcher : Watcher := .sleeping
  /-- The end of the last `VACUUM`, at first that of the mounting. -/
  vacuumed : ℚ
  rounds : List Round := []

namespace State

/-- A mount that begins. -/
def start (now : ℚ) (db : Db) : State := { times := .start now, db, vacuumed := now }

/-- A call arrives: `touch`. -/
def arrive (s : State) (req : Request) (now : ℚ) : State :=
  { s with times := s.times.use now, pending := some req }

/-- It is served. -/
def serve (s : State) (env : Env) (req : Request) (now : ℚ) : State :=
  { s with times := s.times.tick now, db := (step env req s.db).2, pending := none }

/-- The round is over, and the next one begins. -/
def next (s : State) (now : ℚ) (outcome : Outcome) : State :=
  { s with
    times := s.times.sleep now
    watcher := .sleeping
    rounds := ⟨now, s.times.used, outcome⟩ :: s.rounds }

/-- The first look, after the sleep. -/
def look (limit : ℚ) (s : State) (now : ℚ) (size : Option ℕ) : State :=
  if s.times.age now < limit then s.next now .busy
  else
    match size with
    | none => s.next now .unmeasured
    | some onDisk => { s with times := s.times.tick now, watcher := .waiting onDisk now }

/-- The second look, with the lock held. -/
def recheck (limit : ℚ) (s : State) (now : ℚ) (m : Measure) : State :=
  if s.times.age now < limit then s.next now .busy
  else if tooLittle m.onDisk m.gap then s.next now (.spared m)
  else
    { s with
      times := s.times.tick now
      watcher := .compacting
      rounds := ⟨now, s.times.used, .compacted m⟩ :: s.rounds }

/-- `VACUUM` has succeeded or failed. It keeps the tables. -/
def finish (s : State) (now : ℚ) : State :=
  { s with times := s.times.sleep now, watcher := .sleeping, vacuumed := now }

end State

/-- Time passes until something happens. -/
inductive Step (limit late : ℚ) : State → State → Prop
  | arrive {s : State} {req : Request} {now : ℚ} (hfree : s.pending = none)
      (hok : KernelOk s.db req) (hclock : s.times.clock ≤ now)
      (hlate : s.watcher ≠ .compacting → s.times.OnTime (poll limit) late now) :
      Step limit late s (s.arrive req now)
  | serve {s : State} {env : Env} {req : Request} {now : ℚ} (hpending : s.pending = some req)
      (hlock : s.watcher ≠ .compacting) (hclock : s.times.clock ≤ now)
      (hlate : s.times.OnTime (poll limit) late now) : Step limit late s (s.serve env req now)
  | look {s : State} {now : ℚ} (size : Option ℕ) (hsleeping : s.watcher = .sleeping)
      (hclock : s.times.clock ≤ now) (hnap : s.times.asleep + poll limit ≤ now)
      (hlate : s.times.OnTime (poll limit) late now) : Step limit late s (s.look limit now size)
  | recheck {s : State} {m : Measure} {now : ℚ} (hwaiting : s.watcher = .waiting m.onDisk m.time)
      (hreads : m.Reads s.db) (hclock : s.times.clock ≤ now)
      (hlate : s.times.OnTime (poll limit) late now) : Step limit late s (s.recheck limit now m)
  | finish {s : State} {now : ℚ} (hcompacting : s.watcher = .compacting)
      (hclock : s.times.clock ≤ now) : Step limit late s (s.finish now)

/-! ## What a round has come to -/

/-- A round has come to what it should. -/
structure Round.Right (limit late : ℚ) (r : Round) : Prop where
  busy : r.outcome = .busy → r.time < r.used + limit
  idle : r.outcome ≠ .busy → r.used + limit - 1 < r.time
  after : late + 1 ≤ limit → ∀ m, r.outcome.measure = some m → r.used < m.time
  gap : ∀ m, r.outcome.measure = some m →
    m.gap = if m.fails 0 = none ∧ m.db.totalSize ≤ i64Max then m.onDisk - m.db.totalSize.toNat
      else m.onDisk
  spared : ∀ m, r.outcome = .spared m → m.onDisk < 2 ^ 53 →
    m.gap < minReclaimBytes ∨ 10 * m.gap < m.onDisk
  compacted : ∀ m, r.outcome = .compacted m → m.onDisk < 2 ^ 53 →
    minReclaimBytes ≤ m.gap ∧ m.onDisk ≤ 10 * m.gap

/-- What holds of a mount and its watcher at any time. -/
structure Inv (limit late : ℚ) (s : State) : Prop where
  sound : s.times.Sound
  reachable : Reachable s.db
  pending : ∀ req, s.pending = some req → KernelOk s.db req
  waiting : ∀ n t, s.watcher = .waiting n t → s.times.asleep + poll limit ≤ t
  onTime : s.watcher ≠ .compacting → s.times.OnTime (poll limit) late s.times.clock
  rounds : ∀ r ∈ s.rounds, r.Right limit late
  looked : s.watcher ≠ .compacting →
    s.times.asleep ≤ max (s.times.used + limit) s.vacuumed ∨
      ∃ r ∈ s.rounds, r.outcome ≠ .busy ∧ r.used = s.times.used ∧ r.time = s.times.asleep

section Rounds

variable {limit late now : ℚ} {s : State} {m : Measure} {o : Outcome}

theorem right_busy (h : s.times.Sound) (hrecent : s.times.age now < limit) :
    Round.Right limit late ⟨now, s.times.used, .busy⟩ where
  busy _ := by
    have hlt := h.lt_of_age_lt hrecent
    change now < s.times.used + limit
    linarith
  idle hne := absurd rfl hne
  after _ _ hm := nomatch hm
  gap _ hm := nomatch hm
  spared _ hm := nomatch hm
  compacted _ hm := nomatch hm

theorem right_unmeasured (h : s.times.Sound) (hold : limit ≤ s.times.age now) :
    Round.Right limit late ⟨now, s.times.used, .unmeasured⟩ where
  busy hbusy := nomatch hbusy
  idle _ := by
    have hlt := h.lt_of_le_age hold
    change s.times.used + limit - 1 < now
    linarith
  after _ _ hm := nomatch hm
  gap _ hm := nomatch hm
  spared _ hm := nomatch hm
  compacted _ hm := nomatch hm

/-- A round that has come to a gap. -/
theorem right_measured (h : s.times.Sound) (hdb : Reachable s.db)
    (hold : limit ≤ s.times.age now) (hreads : m.Reads s.db) (htime : now ≤ m.time + late)
    (ho : o = .spared m ∧ tooLittle m.onDisk m.gap = true ∨
      o = .compacted m ∧ tooLittle m.onDisk m.gap = false) :
    Round.Right limit late ⟨now, s.times.used, o⟩ := by
  have hlt := h.lt_of_le_age hold
  have hmeasure : o.measure = some m := by
    rcases ho with ⟨rfl, -⟩ | ⟨rfl, -⟩ <;> rfl
  have hgap : m.gap = if m.fails 0 = none ∧ m.db.totalSize ≤ i64Max then
      m.onDisk - m.db.totalSize.toNat else m.onDisk := by
    have hval := hreads.2
    rw [Db.idleGap_val hdb.storeInv, ← hreads.1] at hval
    exact (Except.ok.inj hval).symm
  have hle : m.gap ≤ m.onDisk := by
    rw [hgap]
    split_ifs
    · exact Nat.sub_le _ _
    · exact le_refl _
  constructor
  case busy => rcases ho with ⟨rfl, -⟩ | ⟨rfl, -⟩ <;> exact fun hbusy => nomatch hbusy
  case idle =>
    intro _
    change s.times.used + limit - 1 < now
    linarith
  case after =>
    intro hlimit m' hm'
    cases hmeasure.symm.trans hm'
    change s.times.used < m.time
    linarith
  case gap =>
    intro m' hm'
    cases hmeasure.symm.trans hm'
    exact hgap
  case spared =>
    rintro m' rfl hsize
    rcases ho with ⟨heq, hlittle⟩ | ⟨heq, -⟩
    · cases heq
      exact (tooLittle_iff hle hsize).1 hlittle
    · cases heq
  case compacted =>
    rintro m' rfl hsize
    rcases ho with ⟨heq, -⟩ | ⟨heq, hlittle⟩
    · cases heq
    · cases heq
      rw [← Bool.not_eq_true, tooLittle_iff hle hsize, not_or, not_lt, not_lt] at hlittle
      exact hlittle

end Rounds

/-! ## Runs -/

section Runs

variable {limit late now : ℚ} {s t : State} {o : Outcome} {db : Db}

theorem inv_start (hlate : 0 ≤ late) (hnow : 0 ≤ now) (hdb : Reachable db) :
    Inv limit late (.start now db) where
  sound := Times.sound_start hnow
  reachable := hdb
  pending _ h := nomatch h
  waiting _ _ h := nomatch h
  onTime _ := Times.onTime_of_le (poll_nonneg limit) hlate (le_refl _)
  rounds _ h := nomatch h
  looked _ := .inl (le_max_right _ _)

/-- The end of a round. -/
theorem Inv.next (h : Inv limit late s) (hlate : 0 ≤ late) (hclock : s.times.clock ≤ now)
    (hround : Round.Right limit late ⟨now, s.times.used, o⟩) : Inv limit late (s.next now o) where
  sound := h.sound.sleep hclock
  reachable := h.reachable
  pending := h.pending
  waiting _ _ hw := nomatch hw
  onTime _ := Times.onTime_of_le (poll_nonneg limit) hlate (le_refl _)
  rounds r hr := by
    rcases List.mem_cons.1 hr with rfl | hr
    · exact hround
    · exact h.rounds r hr
  looked _ := by
    by_cases hbusy : o = .busy
    · exact .inl (le_max_of_le_left (hround.busy hbusy).le)
    · exact .inr ⟨_, List.mem_cons_self, hbusy, rfl, rfl⟩

theorem Inv.arrive (h : Inv limit late s) (hlimit : 0 ≤ limit) {req : Request}
    (hok : KernelOk s.db req) (hclock : s.times.clock ≤ now)
    (hlate : s.watcher ≠ .compacting → s.times.OnTime (poll limit) late now) :
    Inv limit late (s.arrive req now) where
  sound := h.sound.use hclock
  reachable := h.reachable
  pending req' hreq := by
    cases hreq
    exact hok
  waiting := h.waiting
  onTime := hlate
  rounds := h.rounds
  looked _ := by
    refine .inl (le_max_of_le_left ?_)
    change s.times.asleep ≤ now + limit
    linarith [h.sound.asleep_le]

theorem Inv.serve (h : Inv limit late s) {env : Env} {req : Request}
    (hpending : s.pending = some req) (hclock : s.times.clock ≤ now)
    (hlate : s.times.OnTime (poll limit) late now) : Inv limit late (s.serve env req now) where
  sound := h.sound.tick hclock
  reachable := h.reachable.step env (h.pending req hpending)
  pending _ hreq := nomatch hreq
  waiting := h.waiting
  onTime _ := hlate
  rounds := h.rounds
  looked := h.looked

theorem Inv.look (h : Inv limit late s) (hlate : 0 ≤ late) (size : Option ℕ)
    (hsleeping : s.watcher = .sleeping) (hclock : s.times.clock ≤ now)
    (hnap : s.times.asleep + poll limit ≤ now) (htime : s.times.OnTime (poll limit) late now) :
    Inv limit late (s.look limit now size) := by
  have hnot : s.watcher ≠ .compacting := by
    rw [hsleeping]
    exact Watcher.noConfusion
  unfold State.look
  split_ifs with hrecent
  · exact h.next hlate hclock (right_busy h.sound hrecent)
  · cases size with
    | none => exact h.next hlate hclock (right_unmeasured h.sound (not_lt.1 hrecent))
    | some onDisk =>
      refine ⟨h.sound.tick hclock, h.reachable, h.pending, ?_, fun _ => htime, h.rounds,
        fun _ => h.looked hnot⟩
      intro n t hw
      cases hw
      exact hnap

theorem Inv.recheck (h : Inv limit late s) (hlate : 0 ≤ late) {m : Measure}
    (hwaiting : s.watcher = .waiting m.onDisk m.time) (hreads : m.Reads s.db)
    (hclock : s.times.clock ≤ now) (htime : s.times.OnTime (poll limit) late now) :
    Inv limit late (s.recheck limit now m) := by
  have hmeasured : now ≤ m.time + late := by
    have hnap := h.waiting _ _ hwaiting
    have hwake : now ≤ s.times.asleep + poll limit + late := htime
    linarith
  unfold State.recheck
  split_ifs with hrecent hlittle
  · exact h.next hlate hclock (right_busy h.sound hrecent)
  · exact h.next hlate hclock (right_measured h.sound h.reachable (not_lt.1 hrecent) hreads
      hmeasured (.inl ⟨rfl, hlittle⟩))
  · have hround : Round.Right limit late ⟨now, s.times.used, .compacted m⟩ :=
      right_measured h.sound h.reachable (not_lt.1 hrecent) hreads hmeasured
        (.inr ⟨rfl, Bool.not_eq_true _ ▸ hlittle⟩)
    refine ⟨h.sound.tick hclock, h.reachable, h.pending, (fun _ _ hw => nomatch hw),
      fun hne => absurd rfl hne, ?_, fun hne => absurd rfl hne⟩
    intro r hr
    rcases List.mem_cons.1 hr with rfl | hr
    · exact hround
    · exact h.rounds r hr

theorem Inv.finish (h : Inv limit late s) (hlate : 0 ≤ late) (hclock : s.times.clock ≤ now) :
    Inv limit late (s.finish now) where
  sound := h.sound.sleep hclock
  reachable := h.reachable
  pending := h.pending
  waiting _ _ hw := nomatch hw
  onTime _ := Times.onTime_of_le (poll_nonneg limit) hlate (le_refl _)
  rounds := h.rounds
  looked _ := .inl (le_max_right _ _)

theorem Inv.step (h : Inv limit late s) (hlimit : 0 ≤ limit) (hlate : 0 ≤ late)
    (hstep : Step limit late s t) : Inv limit late t := by
  cases hstep with
  | arrive _ hok hclock htime => exact h.arrive hlimit hok hclock htime
  | serve hpending _ hclock htime => exact h.serve hpending hclock htime
  | look size hsleeping hclock hnap htime => exact h.look hlate size hsleeping hclock hnap htime
  | recheck hwaiting hreads hclock htime => exact h.recheck hlate hwaiting hreads hclock htime
  | finish _ hclock => exact h.finish hlate hclock

theorem inv_of_run (hlimit : 0 ≤ limit) (hlate : 0 ≤ late) (hnow : 0 ≤ now) (hdb : Reachable db)
    (hrun : Relation.ReflTransGen (Step limit late) (.start now db) s) : Inv limit late s := by
  induction hrun with
  | refl => exact inv_start hlate hnow hdb
  | tail _ hlast ih => exact ih.step hlimit hlate hlast

/-! ## Idle mounts -/

/-- An idle mount whose watcher sleeps. -/
structure Quiet (limit : ℚ) (s : State) : Prop where
  sleeping : s.watcher = .sleeping
  clock_le : s.times.clock ≤ s.times.asleep + poll limit
  old : limit ≤ s.times.age (s.times.asleep + poll limit)

/-- A round that finds enough, with a `VACUUM` that takes no time. -/
theorem Quiet.exists_round (h : Quiet limit s) (hlate : 0 ≤ late) {m : Measure}
    (hreads : m.Reads s.db) (htime : m.time = s.times.asleep + poll limit)
    (henough : tooLittle m.onDisk m.gap = false) :
    ∃ t, Relation.ReflTransGen (Step limit late) s t ∧ Quiet limit t ∧ t.db = s.db ∧
      t.times.asleep = m.time ∧ t.rounds = ⟨m.time, s.times.used, .compacted m⟩ :: s.rounds := by
  have hpoll := poll_nonneg limit
  have hontime : s.times.OnTime (poll limit) late m.time := by
    change m.time ≤ s.times.asleep + poll limit + late
    linarith
  have hold : ¬ s.times.age m.time < limit := not_lt.2 (htime ▸ h.old)
  have hlook : Step limit late s (s.look limit m.time (some m.onDisk)) :=
    .look _ h.sleeping (h.clock_le.trans_eq htime.symm) htime.ge hontime
  unfold State.look at hlook
  rw [if_neg hold] at hlook
  have hrecheck := @Step.recheck limit late { s with
    times := s.times.tick m.time, watcher := .waiting m.onDisk m.time } m m.time rfl hreads
    (le_refl m.time) hontime
  unfold State.recheck at hrecheck
  rw [if_neg (show ¬ (s.times.tick m.time).age m.time < limit from hold), henough] at hrecheck
  have hfinish := @Step.finish limit late { s with
    times := (s.times.tick m.time).tick m.time
    watcher := .compacting
    rounds := ⟨m.time, s.times.used, .compacted m⟩ :: s.rounds } m.time rfl (le_refl m.time)
  refine ⟨_, ((Relation.ReflTransGen.single hlook).tail hrecheck).tail hfinish, ⟨rfl, ?_, ?_⟩, rfl,
    rfl, rfl⟩
  · exact le_add_of_nonneg_right hpoll
  · change limit ≤ m.time + poll limit - s.times.note
    have hage : limit ≤ s.times.asleep + poll limit - s.times.note := h.old
    linarith

/-- **The watcher keeps no record of what it has done**: if `VACUUM` gives nothing back, an idle
mount is compacted at every waking. -/
theorem Quiet.compacts_again (h : Quiet limit s) (hlate : 0 ≤ late) {onDisk gap : ℕ}
    (hval : ((idleGap onDisk).run noFailure 0 s.db).val = .ok gap)
    (henough : tooLittle onDisk gap = false) (n : ℕ) :
    ∃ t rs, Relation.ReflTransGen (Step limit late) s t ∧ t.rounds = rs ++ s.rounds ∧
      rs.length = n ∧ ∀ r ∈ rs, ∃ m, r.outcome = .compacted m := by
  induction n generalizing s with
  | zero => exact ⟨s, [], .refl, rfl, rfl, fun r hr => nomatch hr⟩
  | succ n ih =>
    obtain ⟨t, hfirst, hquiet, hdb, -, hround⟩ := @exists_round limit late s h hlate
      ⟨onDisk, s.times.asleep + poll limit, s.db, noFailure, gap⟩ ⟨rfl, hval⟩ rfl henough
    obtain ⟨u, rs, hrest, hrounds, hlength, hall⟩ := ih hquiet (hdb ▸ hval)
    rw [hround, ← List.singleton_append, ← List.append_assoc] at hrounds
    refine ⟨u, _, hfirst.trans hrest, hrounds, ?_, fun r hr => ?_⟩
    · rw [List.length_append, hlength, List.length_singleton]
    · rcases List.mem_append.1 hr with hr | hr
      · exact hall r hr
      · rw [List.mem_singleton.1 hr]
        exact ⟨_, rfl⟩

/-! ## What one can rely on -/

/-- **Every round comes to what it should, and when nothing has been called for the limit and half
a minute, and no `VACUUM` has ended in that time, there has been one that found the mount idle.** -/
theorem compact_on_idle (hlimit : 0 ≤ limit) (hlate : 0 ≤ late) (hnow : 0 ≤ now)
    (hdb : Reachable db)
    (hrun : Relation.ReflTransGen (Step limit late) (.start now db) s) :
    (∀ r ∈ s.rounds, r.Right limit late) ∧
      (s.watcher ≠ .compacting →
        max (s.times.used + limit) s.vacuumed + 30 + late < s.times.clock →
          ∃ r ∈ s.rounds, r.outcome ≠ .busy ∧ r.used = s.times.used ∧
            s.times.clock ≤ r.time + 30 + late) := by
  have h := inv_of_run hlimit hlate hnow hdb hrun
  refine ⟨h.rounds, fun hnot hidle => ?_⟩
  have hpoll := poll_le limit
  rcases h.looked hnot with hrecent | ⟨r, hr, hbusy, hused, htime⟩
  · have hle := (h.onTime hnot).clock_le hrecent
    linarith
  · have hle := (h.onTime hnot).clock_le htime.ge
    exact ⟨r, hr, hbusy, hused, by linarith⟩

theorem compact_on_idle_enough : ∃ s, Relation.ReflTransGen (Step 1 0) (.start 0 .oneFile) s ∧
    ∃ r ∈ s.rounds, (∃ m, r.outcome = .compacted m) ∧ r.Right 1 0 := by
  have hpoll : poll 1 = 1 := by
    rw [poll, min_eq_left (by norm_num), max_self]
  have hquiet : Quiet 1 (.start 0 .oneFile) := by
    refine ⟨rfl, ?_, ?_⟩
    · change (0 : ℚ) ≤ 0 + poll 1
      rw [hpoll, zero_add]
      exact zero_le_one
    · change 1 ≤ 0 + poll 1 - (⌊(0 : ℚ)⌋₊ : ℚ)
      rw [hpoll, Nat.floor_zero, Nat.cast_zero, zero_add, sub_zero]
  have henough : tooLittle (2 ^ 30) (2 ^ 30) = false := by
    rw [← Bool.not_eq_true, tooLittle_iff (le_refl _) (by norm_num)]
    decide
  obtain ⟨s, hrun, -, -, -, hrounds⟩ := @Quiet.exists_round 1 0 _ hquiet (le_refl 0)
    ⟨2 ^ 30, poll 1, .oneFile, noFailure, 2 ^ 30⟩ ⟨rfl, rfl⟩ (zero_add _).symm henough
  have hmem : ⟨poll 1, 0, .compacted ⟨2 ^ 30, poll 1, .oneFile, noFailure, 2 ^ 30⟩⟩ ∈ s.rounds := by
    rw [hrounds]
    exact List.mem_cons_self
  exact ⟨s, hrun, _, hmem, ⟨_, rfl⟩, (compact_on_idle zero_le_one (le_refl 0) (le_refl 0)
    reachable_oneFile hrun).1 _ hmem⟩

end Runs

end Compaction

end CofferFS
