import CofferFS.Time
import Mathlib.Tactic.IntervalCases

/-!
# Times in a `REAL` column

A time is stored as `f64` seconds and read back through `Duration::from_secs_f64`. Three roundings
lie between: that of the fraction, that of the sum and that to whole nanoseconds.
`wholeSecond_eq_iff` says for every time after the epoch whether its second survives them, and
`exists_reported` that nothing panics below `2 ^ 63 - 512` seconds.
-/

namespace CofferFS

open Rounding

/-- The whole second that `secs_to_systemtime` makes of a number. -/
def wholeSecond (v : F64) : ℤ := roundHalfEven (v * 1000000000) / 1000000000

/-! ## Whole nanoseconds -/

section Nanoseconds

variable {v : F64} {n : ℤ}

theorem le_wholeSecond (h : n ≤ v) : n ≤ wholeSecond v := by
  have hmul : ((n * 1000000000 : ℤ) : ℚ) ≤ v * 1000000000 := by
    push_cast
    linarith
  have hround := halfEven_mono hmul
  rw [halfEven_intCast, ← roundHalfEven_eq] at hround
  exact (Int.le_ediv_iff_mul_le (by norm_num)).2 hround

theorem wholeSecond_le (h : v ≤ n) : wholeSecond v ≤ n := by
  have hmul : v * 1000000000 ≤ ((n * 1000000000 : ℤ) : ℚ) := by
    push_cast
    linarith
  have hround := halfEven_mono hmul
  rw [halfEven_intCast, ← roundHalfEven_eq] at hround
  rw [wholeSecond]
  omega

theorem wholeSecond_intCast (n : ℤ) : wholeSecond n = n :=
  le_antisymm (wholeSecond_le le_rfl) (le_wholeSecond le_rfl)

/-- Half of a nanosecond before a second is not rounded up to it. -/
theorem wholeSecond_lt (h : v < n - 1 / 2000000000) : wholeSecond v < n := by
  have hround : roundHalfEven (v * 1000000000) ≤ n * 1000000000 - 1 := by
    refine (halfEven_le_iff _).2 (.inl ?_)
    push_cast
    linarith
  rw [wholeSecond]
  omega

/-- Nothing panics for seconds that fit into an `i64`. -/
theorem secsToSystemtime_of_le (h₀ : 0 ≤ v) (h : v ≤ 2 ^ 63 - 1024) :
    ∃ t, secsToSystemtime v = some t ∧ t.secs = wholeSecond v := by
  rcases h₀.eq_or_lt with rfl | hpos
  · have hzero := wholeSecond_intCast 0
    rw [Int.cast_zero] at hzero
    exact ⟨_, if_pos le_rfl, hzero.symm⟩
  · have hle : wholeSecond v ≤ 2 ^ 63 - 1024 := wholeSecond_le (by exact_mod_cast h)
    obtain ⟨d, hd, hsecs, -⟩ := Duration.fromSecsF64_of_lt h₀ (hle.trans_lt (by norm_num))
    have hfits : d.secs ≤ i64Max := by
      have hmax : i64Max = 2 ^ 63 - 1 := rfl
      rw [← wholeSecond] at hsecs
      omega
    refine ⟨⟨d.secs, d.nanos⟩, ?_, hsecs⟩
    rw [secsToSystemtime, if_neg (not_le.2 hpos), hd, Option.bind_some, SystemTime.epochPlus,
      if_pos hfits]

end Nanoseconds

/-! ## The fraction -/

namespace Duration

variable {d : Duration} {j : ℕ}

/-- The fraction of the second, rounded. -/
def fraction (d : Duration) : F64 := toF64 (d.nanos / 1000000000)

theorem asSecsF64_eq (d : Duration) : d.asSecsF64 = toF64 (toF64 d.secs + d.fraction) := rfl

theorem fraction_nonneg (d : Duration) : 0 ≤ d.fraction := by
  rw [fraction, toF64_eq]
  exact nearest_nonneg (by positivity)

/-- Such a number has a significand of 53 bits. -/
theorem toF64_sub_zpow (hj : j ≤ 53) : toF64 (1 - 2 ^ (-j : ℤ)) = 1 - 2 ^ (-j : ℤ) := by
  have hratio : (2 : ℚ) ^ (53 - j) * 2 ^ (-53 : ℤ) = 2 ^ (-j : ℤ) := by
    have hexp : (-j : ℤ) = (53 - j : ℕ) + -53 := by omega
    rw [hexp, zpow_add₀ two_ne_zero, zpow_natCast]
  have hbound : ((2 ^ 53 - 2 ^ (53 - j) : ℤ) : ℚ) * 2 ^ (-53 : ℤ) = 1 - 2 ^ (-j : ℤ) := by
    push_cast
    rw [sub_mul, hratio]
    norm_num
  have hpos : (0 : ℤ) < 2 ^ (53 - j) := by positivity
  have hmax : (2 : ℤ) ^ (53 - j) ≤ 2 ^ 53 := pow_le_pow_right₀ (by norm_num) (by omega)
  rw [toF64_eq, ← hbound]
  exact nearest_mul (sub_nonneg.2 hmax) (sub_lt_self _ hpos)

section Nanos

variable (hn : d.nanos < 1000000000)
include hn

theorem nanos_lt : (d.nanos : ℚ) ≤ 1000000000 - 1 := by
  have hle : d.nanos + 1 ≤ 1000000000 := hn
  have hcast : (d.nanos : ℚ) + 1 ≤ 1000000000 := by exact_mod_cast hle
  linarith

theorem cast_sub_nanos : ((1000000000 - d.nanos : ℕ) : ℚ) = 1000000000 - d.nanos := by
  rw [Nat.cast_sub hn.le, Nat.cast_ofNat]

theorem abs_fraction_sub_le : |d.fraction - d.nanos / 1000000000| ≤ 2 ^ (-54 : ℤ) := by
  have hlt : (d.nanos / 1000000000 : ℚ) < 2 ^ (0 : ℤ) := by
    have hnanos := nanos_lt hn
    rw [zpow_zero, div_lt_one (by norm_num)]
    linarith
  have h := @abs_nearest_sub_le 53 (d.nanos / 1000000000) 0 (by positivity) hlt
  rw [← toF64_eq, ← fraction] at h
  refine h.trans_eq ?_
  norm_num

theorem fraction_lt_one : d.fraction < 1 - 1 / 2000000000 := by
  have h := (abs_le.1 (abs_fraction_sub_le hn)).2
  have hnanos := nanos_lt hn
  norm_num at h
  linarith

/-- The nanoseconds keep their distance to such a bound: it is never less than an error of the
rounding. -/
theorem nanos_gap (h : 1000000000 < (1000000000 - d.nanos) * 2 ^ j) (hj : j ≤ 53) :
    2 ^ 54 * 1000000000 + 1000000000 * 2 ^ j < 2 ^ 54 * ((1000000000 - d.nanos) * 2 ^ j) := by
  rcases Nat.lt_or_ge j 30 with hsmall | hlarge
  · interval_cases j <;> omega
  · obtain ⟨i, rfl⟩ := Nat.exists_eq_add_of_le hlarge
    have hone : 1 ≤ 2 ^ i := Nat.one_le_two_pow
    have hk : 2 ^ i ≤ (1000000000 - d.nanos) * 2 ^ i := Nat.le_mul_of_pos_left _ (by omega)
    have hmul : (1000000000 - d.nanos) * 2 ^ (30 + i) =
        2 ^ 30 * ((1000000000 - d.nanos) * 2 ^ i) := by
      rw [pow_add]
      ring
    rw [hmul, pow_add]
    generalize (1000000000 - d.nanos) * 2 ^ i = k at *
    generalize 2 ^ i = P at *
    omega

theorem le_fraction (hj : j ≤ 53) (h : (1000000000 - d.nanos) * 2 ^ j ≤ 1000000000) :
    1 - 2 ^ (-j : ℤ) ≤ d.fraction := by
  have hpow : (0 : ℚ) < 2 ^ j := by positivity
  have hinv : (2 : ℚ) ^ (-j : ℤ) = 1 / 2 ^ j := by rw [zpow_neg, zpow_natCast, one_div]
  have hle : (1000000000 - d.nanos : ℚ) * 2 ^ j ≤ 1000000000 := by
    have hcast : ((1000000000 - d.nanos : ℕ) : ℚ) * 2 ^ j ≤ 1000000000 := by exact_mod_cast h
    rwa [cast_sub_nanos hn] at hcast
  have hbound : (1 : ℚ) - 2 ^ (-j : ℤ) ≤ d.nanos / 1000000000 := by
    have hdiv := div_le_div_of_nonneg_right hle hpow.le
    rw [mul_div_cancel_right₀ _ hpow.ne', div_eq_mul_one_div] at hdiv
    rw [hinv, le_div_iff₀ (by norm_num)]
    linarith
  have hone : (0 : ℚ) ≤ 1 - 2 ^ (-j : ℤ) := by
    rw [hinv, sub_nonneg, div_le_one hpow]
    exact one_le_pow₀ one_le_two
  rw [← toF64_sub_zpow hj, fraction, toF64_eq, toF64_eq]
  exact nearest_mono (by norm_num) hone hbound

theorem fraction_lt (hj : j ≤ 53) (h : 1000000000 < (1000000000 - d.nanos) * 2 ^ j) :
    d.fraction < 1 - 2 ^ (-j : ℤ) := by
  have hpow : (0 : ℚ) < 2 ^ j := by positivity
  have hinv : (2 : ℚ) ^ (-j : ℤ) = 1 / 2 ^ j := by rw [zpow_neg, zpow_natCast, one_div]
  have hgap : (2 ^ 54 * 1000000000 + 1000000000 * 2 ^ j : ℚ) <
      2 ^ 54 * ((1000000000 - d.nanos : ℕ) * 2 ^ j) := by
    exact_mod_cast nanos_gap hn h hj
  rw [cast_sub_nanos hn] at hgap
  have herror := (abs_le.1 (abs_fraction_sub_le hn)).2
  have hdiv : (d.nanos / 1000000000 : ℚ) < 1 - 1 / 2 ^ j - 1 / 2 ^ 54 := by
    rw [div_lt_iff₀ (by norm_num)]
    refine lt_of_mul_lt_mul_right ?_ hpow.le
    have hscale : (1 - 1 / 2 ^ j - 1 / 2 ^ 54 : ℚ) * 1000000000 * 2 ^ j =
        (2 ^ j - 1 - 2 ^ j / 2 ^ 54) * 1000000000 := by
      field_simp
    rw [hscale]
    linarith
  rw [hinv]
  norm_num at herror hdiv ⊢
  linarith

/-- **The fraction is rounded up to `1 - 2 ^ (-j)` only from there.** -/
theorem fraction_lt_iff (hj : j ≤ 53) : d.fraction < 1 - 2 ^ (-j : ℤ) ↔
    1000000000 < (1000000000 - d.nanos) * 2 ^ j := by
  refine ⟨fun hlt => ?_, fraction_lt hn hj⟩
  by_contra hle
  exact absurd hlt (not_lt.2 (le_fraction hn hj (not_lt.1 hle)))

end Nanos

/-! ## The sum -/

/-- The second is kept: the number next to the time is not the next second. Up to `2 ^ 53` this is
about the fraction, from there on about the seconds themselves. -/
def KeepsSecond (d : Duration) : Prop :=
  if d.secs < 2 ^ 52 then 1000000000 * 2 ^ Nat.log 2 d.secs < (1000000000 - d.nanos) * 2 ^ 53
  else if d.secs < 2 ^ 53 then d.nanos < 500000000 ∨ d.nanos = 500000000 ∧ d.secs % 2 = 0
  else 2 ^ (Nat.log 2 d.secs - 52) ∣ d.secs

instance (d : Duration) : Decidable d.KeepsSecond := by
  unfold KeepsSecond
  infer_instance

theorem toF64_secs (h : d.secs < 2 ^ 53) : toF64 d.secs = d.secs := by
  have hexact := @nearest_mul 53 0 d.secs (Int.natCast_nonneg _) (by exact_mod_cast h)
  rw [zpow_zero, mul_one, Int.cast_natCast] at hexact
  rw [toF64_eq, hexact]

theorem floor_add {s : ℕ} {f : ℚ} (h₀ : 0 ≤ f) (h₁ : f < 1) : ⌊(s + f : ℚ)⌋ = s := by
  rw [Int.floor_natCast_add, Int.floor_eq_zero_iff.2 ⟨h₀, h₁⟩, add_zero]

theorem place_add {s : ℕ} {f : ℚ} (hs : s ≠ 0) (h₀ : 0 ≤ f) (h₁ : f < 1) :
    place 53 (s + f) = Nat.log 2 s - 52 := by
  have hone : (1 : ℚ) ≤ s := by exact_mod_cast Nat.one_le_iff_ne_zero.2 hs
  have hfloor : ⌊(s + f : ℚ)⌋₊ = s := by
    rw [add_comm, Nat.floor_add_natCast h₀, Nat.floor_eq_zero.2 h₁, zero_add]
  rw [place, abs_of_pos (by linarith), Int.log_of_one_le_right _ (by linarith), hfloor]
  norm_num

section Sum

variable (hn : d.nanos < 1000000000)
include hn

/-- With places after the point: the sum is rounded up to the next second from half of the last
place below it. -/
theorem asSecsF64_lt_iff (hs : d.secs ≠ 0) (hlt : d.secs < 2 ^ 52) :
    d.asSecsF64 < d.secs + 1 ↔
      1000000000 * 2 ^ Nat.log 2 d.secs < (1000000000 - d.nanos) * 2 ^ 53 := by
  have hf := (fraction_lt_one hn).trans (sub_lt_self 1 (by norm_num))
  have hlog : Nat.log 2 d.secs < 52 := Nat.log_lt_of_lt_pow hs hlt
  have hplace := place_add hs d.fraction_nonneg hf
  have hexact := toF64_secs (hlt.trans (by norm_num))
  have hnext := @near_lt_intCast_iff (d.secs + d.fraction) (Nat.log 2 d.secs - 52) (d.secs + 1)
    (by omega)
  obtain ⟨j, hj⟩ := Nat.exists_eq_add_of_le (by omega : Nat.log 2 d.secs ≤ 53)
  have hhalf : (2 : ℚ) ^ (Nat.log 2 d.secs - 52 : ℤ) / 2 = 2 ^ (-j : ℤ) := by
    rw [div_eq_mul_inv, ← zpow_sub_one₀ two_ne_zero]
    congr 1
    omega
  rw [asSecsF64_eq, hexact, toF64_eq, nearest, hplace]
  push_cast at hnext
  rw [hnext, hhalf, add_sub_assoc, add_lt_add_iff_left, fraction_lt_iff hn (by omega), hj, pow_add,
    mul_comm (2 ^ Nat.log 2 d.secs), ← mul_assoc, mul_lt_mul_iff_of_pos_right (by positivity)]

omit hn in
theorem le_asSecsF64 (h : d.secs < 2 ^ 53) : (d.secs : ℚ) ≤ d.asSecsF64 := by
  have hle : (d.secs : ℚ) ≤ d.secs + d.fraction := le_add_of_nonneg_right d.fraction_nonneg
  have hmono := nearest_mono (p := 53) (by norm_num) (Nat.cast_nonneg d.secs) hle
  rwa [← toF64_eq, ← toF64_eq, toF64_secs h, ← toF64_secs h, ← asSecsF64_eq, toF64_secs h] at hmono

/-- Below the next second, the sum is below it by more than half of a nanosecond. -/
theorem asSecsF64_lt_sub (hs : d.secs ≠ 0) (hlt : d.secs < 2 ^ 52)
    (h : d.asSecsF64 < d.secs + 1) : d.asSecsF64 < d.secs + 1 - 1 / 2000000000 := by
  have hf := (fraction_lt_one hn).trans (sub_lt_self 1 (by norm_num))
  have hlog : Nat.log 2 d.secs < 52 := Nat.log_lt_of_lt_pow hs hlt
  have hround : d.asSecsF64 = near (Nat.log 2 d.secs - 52) (d.secs + d.fraction) := by
    rw [asSecsF64_eq, toF64_secs (hlt.trans (by norm_num)), toF64_eq, nearest,
      place_add hs d.fraction_nonneg hf]
  rcases Nat.lt_or_ge (Nat.log 2 d.secs) 22 with hsmall | hlarge
  · -- the last place is smaller than a nanosecond
    have hlast : (2 : ℚ) ^ (Nat.log 2 d.secs - 52 : ℤ) ≤ 2 ^ (-31 : ℤ) :=
      zpow_le_zpow_right₀ one_le_two (by omega)
    have hup := @near_le_add (d.secs + d.fraction) (Nat.log 2 d.secs - 52)
    have herror := (abs_le.1 (abs_fraction_sub_le hn)).2
    have hnanos := nanos_lt hn
    rw [hround]
    norm_num at hlast herror ⊢
    linarith
  · -- the last place is larger
    have hlast : (2 : ℚ) ^ (-30 : ℤ) ≤ 2 ^ (Nat.log 2 d.secs - 52 : ℤ) :=
      zpow_le_zpow_right₀ one_le_two (by omega)
    rw [hround] at h ⊢
    have hsub := @near_le_sub (d.secs + d.fraction) (Nat.log 2 d.secs - 52) (d.secs + 1) (by omega)
      (by exact_mod_cast h)
    push_cast at hsub
    norm_num at hlast
    linarith

theorem wholeSecond_of_lt_two_pow_52 (hs : d.secs ≠ 0) (hlt : d.secs < 2 ^ 52) :
    wholeSecond d.asSecsF64 = d.secs ↔ d.KeepsSecond := by
  have hlow : (d.secs : ℤ) ≤ wholeSecond d.asSecsF64 :=
    le_wholeSecond (by exact_mod_cast le_asSecsF64 (hlt.trans (by norm_num)))
  rw [KeepsSecond, if_pos hlt, ← asSecsF64_lt_iff hn hs hlt]
  constructor
  · intro hkept
    by_contra hnext
    have hhigh : ((d.secs + 1 : ℕ) : ℤ) ≤ wholeSecond d.asSecsF64 :=
      le_wholeSecond (by exact_mod_cast not_lt.1 hnext)
    omega
  · intro hnext
    have hsub := asSecsF64_lt_sub hn hs hlt hnext
    have hhigh : wholeSecond d.asSecsF64 < ((d.secs + 1 : ℕ) : ℤ) := by
      refine wholeSecond_lt ?_
      push_cast
      exact hsub
    omega

/-- At the epoch nothing is added to the fraction. -/
theorem wholeSecond_of_secs_eq_zero (hs : d.secs = 0) :
    wholeSecond d.asSecsF64 = d.secs ↔ d.KeepsSecond := by
  have hkeeps : d.KeepsSecond := by
    rw [KeepsSecond, hs, if_pos (by norm_num), Nat.log_zero_right]
    omega
  have hlow : (d.secs : ℤ) ≤ wholeSecond d.asSecsF64 :=
    le_wholeSecond (by exact_mod_cast le_asSecsF64 (by rw [hs]; norm_num))
  have hsum : d.asSecsF64 = nearest 53 d.fraction := by
    rw [asSecsF64_eq, hs, Nat.cast_zero, toF64_eq 0, nearest_zero, zero_add, toF64_eq]
  have hf := fraction_lt_one hn
  have herror := (abs_le.1 (abs_fraction_sub_le hn)).2
  have herror' := (abs_le.1 (@abs_nearest_sub_le 53 d.fraction 0 d.fraction_nonneg
    (by rw [zpow_zero]; exact hf.trans (by norm_num)))).2
  have hnanos := nanos_lt hn
  have hhigh : wholeSecond d.asSecsF64 < 1 := by
    refine wholeSecond_lt ?_
    rw [hsum]
    norm_num at herror herror' ⊢
    linarith
  refine iff_of_true ?_ hkeeps
  omega

/-- The fraction is not moved across one half. -/
theorem fraction_lt_half_iff : d.fraction < 1 / 2 ↔ d.nanos < 500000000 := by
  have herror := abs_le.1 (abs_fraction_sub_le hn)
  norm_num at herror
  rcases Nat.lt_or_ge d.nanos 500000000 with hlt | hge
  · have hcast : (d.nanos : ℚ) + 1 ≤ 500000000 := by exact_mod_cast hlt
    refine iff_of_true ?_ hlt
    linarith
  · have hhalf : toF64 (1 / 2) = 1 / 2 := by
      rw [toF64_eq]
      simpa using @nearest_zpow 53 (by norm_num) (-1)
    have hcast : (500000000 : ℚ) ≤ d.nanos := by exact_mod_cast hge
    refine iff_of_false (not_lt.2 ?_) (not_lt.2 hge)
    rw [← hhalf, fraction, toF64_eq, toF64_eq]
    refine nearest_mono (by norm_num) (by norm_num) ?_
    linarith

theorem fraction_eq_half_iff : d.fraction = 1 / 2 ↔ d.nanos = 500000000 := by
  have herror := abs_le.1 (abs_fraction_sub_le hn)
  norm_num at herror
  constructor
  · intro hhalf
    have hlo : (d.nanos : ℚ) < 500000000 + 1 := by linarith
    have hhi : (500000000 : ℚ) - 1 < d.nanos := by linarith
    have hlo' : d.nanos < 500000000 + 1 := by exact_mod_cast hlo
    have hhi' : 500000000 < d.nanos + 1 := by
      have hcast : (500000000 : ℚ) < d.nanos + 1 := by linarith
      exact_mod_cast hcast
    omega
  · intro hnanos
    have hhalf : toF64 (2 ^ (-1 : ℤ)) = 2 ^ (-1 : ℤ) := by
      rw [toF64_eq, nearest_zpow (by norm_num)]
    rw [fraction, hnanos]
    norm_num at hhalf ⊢
    exact hhalf

/-- Without places after the point: the sum is rounded to a whole second. -/
theorem wholeSecond_of_lt_two_pow_53 (hge : 2 ^ 52 ≤ d.secs) (hlt : d.secs < 2 ^ 53) :
    wholeSecond d.asSecsF64 = d.secs ↔ d.KeepsSecond := by
  have hs : d.secs ≠ 0 := (lt_of_lt_of_le (by norm_num) hge).ne'
  have hf := (fraction_lt_one hn).trans (sub_lt_self 1 (by norm_num))
  have hlog : Nat.log 2 d.secs = 52 := (Nat.log_eq_iff (by norm_num)).2 ⟨hge, hlt⟩
  have hplace : place 53 (d.secs + d.fraction) = 0 := by
    rw [place_add hs d.fraction_nonneg hf, hlog]
    norm_num
  have hfloor := floor_nearest_of_place_zero hplace
  have hint := floor_nearest_of_nonneg hplace.ge
  rw [floor_add d.fraction_nonneg hf, Int.cast_natCast, add_lt_add_iff_left, add_right_inj,
    fraction_lt_half_iff hn, fraction_eq_half_iff hn] at hfloor
  have hround : d.asSecsF64 = nearest 53 (d.secs + d.fraction) := by
    rw [asSecsF64_eq, toF64_secs hlt, toF64_eq]
  rw [hround, ← hint, wholeSecond_intCast, hfloor, KeepsSecond, if_neg (not_lt.2 hge), if_pos hlt]
  omega

/-- With places before the point: the seconds themselves are rounded, and the fraction is lost. -/
theorem wholeSecond_of_two_pow_53_le (hge : 2 ^ 53 ≤ d.secs) :
    wholeSecond d.asSecsF64 = d.secs ↔ d.KeepsSecond := by
  have hs : d.secs ≠ 0 := (lt_of_lt_of_le (by norm_num) hge).ne'
  have hf := (fraction_lt_one hn).trans (sub_lt_self 1 (by norm_num))
  have hlog : 53 ≤ Nat.log 2 d.secs := Nat.le_log_of_pow_le (by norm_num) hge
  obtain ⟨i, hi⟩ := Nat.exists_eq_add_of_le hlog
  have hplace (f : ℚ) (h₀ : 0 ≤ f) (h₁ : f < 1) : place 53 (d.secs + f) = i + 1 := by
    rw [place_add hs h₀ h₁, hi]
    push_cast
    ring
  -- the seconds, rounded
  have hsecs := hplace 0 le_rfl one_pos
  rw [add_zero] at hsecs
  have hfloor := floor_nearest_of_place_pos hsecs
  have hint := floor_nearest_of_nonneg (hsecs.ge.trans' (by omega))
  rw [Int.floor_natCast, ← toF64_eq] at hfloor
  rw [← toF64_eq] at hint
  have hkeeps : d.KeepsSecond ↔ (2 ^ (i + 1) : ℤ) ∣ d.secs := by
    have hlast : Nat.log 2 d.secs - 52 = i + 1 := by omega
    rw [KeepsSecond, if_neg (by omega), if_neg (not_lt.2 hge), hlast]
    exact_mod_cast Iff.rfl
  rw [hkeeps, ← hfloor]
  have hnonneg : (0 : ℚ) ≤ toF64 d.secs := by
    rw [toF64_eq]
    exact nearest_nonneg (Nat.cast_nonneg _)
  rcases lt_trichotomy ⌊toF64 d.secs⌋ d.secs with hbelow | heq | habove
  · -- the sum is not above the seconds
    refine iff_of_false (fun h => ?_) hbelow.ne
    have hle : (⌊toF64 d.secs⌋ : ℚ) + 1 ≤ d.secs := by exact_mod_cast hbelow
    have hsum : d.asSecsF64 ≤ toF64 d.secs := by
      have hle' : toF64 d.secs + d.fraction ≤ d.secs := by linarith
      have hmono := nearest_mono (p := 53) (by norm_num) (add_nonneg hnonneg d.fraction_nonneg) hle'
      rwa [← toF64_eq, ← toF64_eq, ← asSecsF64_eq] at hmono
    rw [← hint] at hsum
    have hsecond := wholeSecond_le hsum
    omega
  · refine iff_of_true ?_ heq
    have hexact : toF64 d.secs = d.secs := by
      rw [← hint, heq, Int.cast_natCast]
    have hsum := hplace _ d.fraction_nonneg hf
    have hfloor' := floor_nearest_of_place_pos hsum
    have hint' := floor_nearest_of_nonneg (hsum.ge.trans' (by omega))
    rw [floor_add d.fraction_nonneg hf, ← hfloor] at hfloor'
    rw [asSecsF64_eq, hexact, toF64_eq, ← hint', wholeSecond_intCast]
    exact hfloor'.2 heq
  · -- the sum is not below the rounded seconds
    refine iff_of_false (fun h => ?_) habove.ne'
    have hsum : toF64 d.secs ≤ d.asSecsF64 := by
      have hle : toF64 d.secs ≤ toF64 d.secs + d.fraction := le_add_of_nonneg_right d.fraction_nonneg
      have hmono := nearest_mono (p := 53) (by norm_num) hnonneg hle
      have htwice : nearest 53 (toF64 d.secs) = toF64 d.secs := by
        rw [toF64_eq, nearest_nearest (by norm_num) (Nat.cast_nonneg _)]
      rwa [htwice, ← toF64_eq] at hmono
    rw [← hint] at hsum
    have hsecond := le_wholeSecond hsum
    omega

/-- **Whether the second of a time survives the `REAL` column.** -/
theorem wholeSecond_eq_iff : wholeSecond d.asSecsF64 = d.secs ↔ d.KeepsSecond := by
  by_cases hs : d.secs = 0
  · exact wholeSecond_of_secs_eq_zero hn hs
  · rcases Nat.lt_or_ge d.secs (2 ^ 52) with hlt | hge
    · exact wholeSecond_of_lt_two_pow_52 hn hs hlt
    · rcases Nat.lt_or_ge d.secs (2 ^ 53) with hlt | hge'
      · exact wholeSecond_of_lt_two_pow_53 hn hge hlt
      · exact wholeSecond_of_two_pow_53_le hn hge'

end Sum

/-! ## The range -/

/-- The largest `f64` below `2 ^ 63` is the nearest one up to half of a place below `2 ^ 63`. -/
theorem toF64_le {q : ℚ} (h₀ : 0 ≤ q) (h : q < 2 ^ 63 - 512) : toF64 q ≤ 2 ^ 63 - 1024 := by
  rw [toF64_eq]
  rcases lt_or_ge q (2 ^ (62 : ℤ)) with hsmall | hlarge
  · have hmono := nearest_mono (p := 53) (by norm_num) h₀ hsmall.le
    rw [nearest_zpow (by norm_num)] at hmono
    exact hmono.trans (by norm_num)
  · have hpos : 0 < q := (two_zpow_pos 62).trans_le hlarge
    have hlog : Int.log 2 q = 62 := by
      refine le_antisymm ?_ ((le_log_iff hpos).2 hlarge)
      rw [← Int.lt_add_one_iff, log_lt_iff hpos]
      exact h.trans (by norm_num)
    have hplace : place 53 q = 10 := by
      rw [place, abs_of_pos hpos, hlog]
      norm_num
    have hle : halfEven (q / 2 ^ (10 : ℤ)) ≤ 2 ^ 53 - 1 := by
      refine (halfEven_le_iff _).2 (.inl ?_)
      rw [div_lt_iff₀ (two_zpow_pos 10)]
      norm_num
      linarith
    have hcast : (halfEven (q / 2 ^ (10 : ℤ)) : ℚ) ≤ 2 ^ 53 - 1 := by exact_mod_cast hle
    rw [nearest, near, hplace]
    norm_num at hcast ⊢
    linarith

theorem asSecsF64_nonneg (d : Duration) : 0 ≤ d.asSecsF64 := by
  have hsecs : 0 ≤ toF64 d.secs := by
    rw [toF64_eq]
    exact nearest_nonneg (Nat.cast_nonneg _)
  rw [asSecsF64_eq, toF64_eq]
  exact nearest_nonneg (add_nonneg hsecs d.fraction_nonneg)

theorem asSecsF64_le (hn : d.nanos < 1000000000) (h : d.secs < 2 ^ 63 - 512) :
    d.asSecsF64 ≤ 2 ^ 63 - 1024 := by
  have hcast : (d.secs : ℚ) < 2 ^ 63 - 512 := by
    have hlt : (d.secs : ℚ) < ((2 ^ 63 - 512 : ℕ) : ℚ) := by exact_mod_cast h
    norm_num at hlt ⊢
    exact hlt
  have hsecs := toF64_le (Nat.cast_nonneg d.secs) hcast
  have hf := (fraction_lt_one hn).trans (sub_lt_self 1 (by norm_num))
  have hnonneg : 0 ≤ toF64 d.secs := by
    rw [toF64_eq]
    exact nearest_nonneg (Nat.cast_nonneg _)
  rw [asSecsF64_eq]
  refine toF64_le (add_nonneg hnonneg d.fraction_nonneg) ?_
  linarith

end Duration

/-! ## The round trip -/

namespace SystemTime

variable {t t' : SystemTime}

/-- What is stored for a time. -/
def stored (t : SystemTime) : F64 := (t.durationSinceEpoch.map Duration.asSecsF64).getD 0

/-- The nanoseconds are less than a second, and the seconds are not rounded up to `2 ^ 63`. -/
def InRange (t : SystemTime) : Prop := t.secs < 2 ^ 63 - 512 ∧ t.nanos < 1000000000

/-- What is reported for a time: the epoch if it is before it; else its second, exactly if that is
kept. -/
structure Reported (t t' : SystemTime) : Prop where
  before : t.secs < 0 → t' = .unixEpoch
  after : 0 ≤ t.secs → (t'.secs = t.secs ↔ Duration.KeepsSecond ⟨t.secs.toNat, t.nanos⟩)

/-- **Storing a time in range and reading it back does not panic**, and reports it. -/
theorem exists_reported (h : t.InRange) :
    ∃ t', secsToSystemtime t.stored = some t' ∧ Reported t t' := by
  obtain ⟨hsecs, hnanos⟩ := h
  by_cases hneg : t.secs < 0
  · have hstored : t.stored = 0 := by
      rw [stored, durationSinceEpoch, if_neg (not_le.2 hneg)]
      rfl
    refine ⟨.unixEpoch, ?_, fun _ => rfl, fun h => absurd hneg (not_lt.2 h)⟩
    rw [secsToSystemtime, hstored, if_pos le_rfl]
  · have hpos : 0 ≤ t.secs := not_lt.1 hneg
    have hstored : t.stored = (⟨t.secs.toNat, t.nanos⟩ : Duration).asSecsF64 := by
      rw [stored, durationSinceEpoch, if_pos hpos]
      rfl
    obtain ⟨t', ht', hsecond⟩ := secsToSystemtime_of_le (Duration.asSecsF64_nonneg _)
      (Duration.asSecsF64_le (d := ⟨t.secs.toNat, t.nanos⟩) hnanos (by dsimp only; omega))
    have hkeeps := Duration.wholeSecond_eq_iff (d := ⟨t.secs.toNat, t.nanos⟩) hnanos
    rw [Int.toNat_of_nonneg hpos] at hkeeps
    refine ⟨t', by rw [hstored, ht'], fun h => absurd h hneg, fun _ => ?_⟩
    rw [hsecond, hkeeps]

end SystemTime

end CofferFS
