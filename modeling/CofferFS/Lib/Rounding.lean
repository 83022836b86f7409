import Mathlib.Algebra.Order.Field.Power
import Mathlib.Data.Int.Log
import Mathlib.Data.Rat.Floor
import Mathlib.Tactic.Linarith
import Mathlib.Tactic.NormNum
import Mathlib.Tactic.Positivity

/-!
# Rounding to nearest, ties to even

`halfEven` rounds to an integer, `near e` to a multiple of `2 ^ e`, and `nearest p` to a number with
a significand of `p` bits. Everything follows from `halfEven_le_iff`, which says when the result is
at most a given integer: rounding is monotone, changes nothing that is representable, and is off by
at most half of the last place.
-/

namespace Rounding

variable {p : ℕ} {q q' : ℚ} {e k m n : ℤ}

/-! ## To an integer -/

/-- The nearest integer, ties to even. -/
def halfEven (q : ℚ) : ℤ :=
  if q - ⌊q⌋ < 1 / 2 then ⌊q⌋
  else if 1 / 2 < q - ⌊q⌋ then ⌊q⌋ + 1
  else if ⌊q⌋ % 2 = 0 then ⌊q⌋ else ⌊q⌋ + 1

theorem halfEven_le_iff (n : ℤ) :
    halfEven q ≤ n ↔ q < n + 1 / 2 ∨ q = n + 1 / 2 ∧ n % 2 = 0 := by
  have hlo := Int.floor_le q
  have hhi := Int.lt_floor_add_one q
  rcases lt_trichotomy ⌊q⌋ n with hlt | heq | hgt
  · have hle : (⌊q⌋ : ℚ) + 1 ≤ n := by exact_mod_cast hlt
    have hn : q < n + 1 / 2 := by linarith
    have hround : halfEven q ≤ ⌊q⌋ + 1 := by
      unfold halfEven
      split_ifs <;> omega
    simp only [hn, true_or, iff_true]
    omega
  · subst heq
    unfold halfEven
    split_ifs with h₁ h₂ h₃
    · simp only [le_refl, true_iff]
      exact .inl (by linarith)
    · simp only [add_le_iff_nonpos_right, Int.reduceLE, false_iff, not_or, not_lt, not_and]
      exact ⟨by linarith, fun h => absurd h (by linarith)⟩
    · simp only [le_refl, true_iff]
      exact .inr ⟨by linarith, h₃⟩
    · simp only [add_le_iff_nonpos_right, Int.reduceLE, false_iff, not_or, not_lt, not_and]
      exact ⟨by linarith, fun _ => h₃⟩
  · have hge : (n : ℚ) + 1 ≤ ⌊q⌋ := by exact_mod_cast hgt
    have hround : ⌊q⌋ ≤ halfEven q := by
      unfold halfEven
      split_ifs <;> omega
    have hn : ¬ (q < n + 1 / 2 ∨ q = n + 1 / 2 ∧ n % 2 = 0) := by
      rintro (h | ⟨h, -⟩) <;> linarith
    simp only [hn, iff_false]
    omega

theorem le_halfEven_iff (n : ℤ) :
    n ≤ halfEven q ↔ n - 1 / 2 < q ∨ q = n - 1 / 2 ∧ n % 2 = 0 := by
  have h := @halfEven_le_iff q (n - 1)
  have hcast : ((n - 1 : ℤ) : ℚ) + 1 / 2 = n - 1 / 2 := by
    push_cast
    ring
  rw [hcast] at h
  have hnot : n ≤ halfEven q ↔ ¬ halfEven q ≤ n - 1 := by omega
  rw [hnot, h]
  rcases lt_trichotomy q (n - 1 / 2 : ℚ) with hlt | heq | hgt
  · simp only [hlt, hlt.ne, not_lt_of_gt hlt, true_or, false_and, or_self, not_true_eq_false]
  · simp only [heq, lt_irrefl, true_and, false_or]
    omega
  · simp only [hgt, hgt.ne', not_lt_of_gt hgt, true_or, false_and, or_self, not_false_eq_true]

@[simp] theorem halfEven_intCast (n : ℤ) : halfEven n = n :=
  le_antisymm ((halfEven_le_iff n).2 (.inl (by linarith)))
    ((le_halfEven_iff n).2 (.inl (by linarith)))

theorem halfEven_mono (h : q ≤ q') : halfEven q ≤ halfEven q' := by
  rw [halfEven_le_iff]
  rcases (halfEven_le_iff (halfEven q')).1 le_rfl with h' | ⟨h', heven⟩
  · exact .inl (h.trans_lt h')
  · rcases h.lt_or_eq with hlt | rfl
    · exact .inl (h' ▸ hlt)
    · exact .inr ⟨h', heven⟩

theorem halfEven_le_add : (halfEven q : ℚ) ≤ q + 1 / 2 := by
  rcases (le_halfEven_iff (halfEven q)).1 le_rfl with h | ⟨h, -⟩ <;> linarith

theorem sub_le_halfEven : q - 1 / 2 ≤ halfEven q := by
  rcases (halfEven_le_iff (halfEven q)).1 le_rfl with h | ⟨h, -⟩ <;> linarith

theorem halfEven_nonneg (h : 0 ≤ q) : 0 ≤ halfEven q := by
  have hmono := halfEven_mono h
  rwa [← Int.cast_zero, halfEven_intCast] at hmono

/-! ## To a multiple of a power of two -/

/-- The nearest multiple of `2 ^ e`. -/
def near (e : ℤ) (q : ℚ) : ℚ := halfEven (q / 2 ^ e) * 2 ^ e

theorem two_zpow_pos (e : ℤ) : (0 : ℚ) < 2 ^ e := zpow_pos two_pos e

@[simp] theorem near_mul (m e : ℤ) : near e (m * 2 ^ e) = m * 2 ^ e := by
  rw [near, mul_div_cancel_right₀ _ (two_zpow_pos e).ne', halfEven_intCast]

theorem near_mono (e : ℤ) (h : q ≤ q') : near e q ≤ near e q' := by
  have hdiv : q / 2 ^ e ≤ q' / 2 ^ e := div_le_div_of_nonneg_right h (two_zpow_pos e).le
  exact mul_le_mul_of_nonneg_right (Int.cast_le.2 (halfEven_mono hdiv)) (two_zpow_pos e).le

theorem near_le_add : near e q ≤ q + 2 ^ e / 2 := by
  have h := mul_le_mul_of_nonneg_right (@halfEven_le_add (q / 2 ^ e)) (two_zpow_pos e).le
  rw [add_mul, div_mul_cancel₀ _ (two_zpow_pos e).ne'] at h
  rw [near]
  linarith

theorem sub_le_near : q - 2 ^ e / 2 ≤ near e q := by
  have h := mul_le_mul_of_nonneg_right (@sub_le_halfEven (q / 2 ^ e)) (two_zpow_pos e).le
  rw [sub_mul, div_mul_cancel₀ _ (two_zpow_pos e).ne'] at h
  rw [near]
  linarith

/-- A power of two is a multiple of every smaller one. -/
theorem exists_zpow_eq (h : e ≤ k) : ∃ m : ℤ, (2 : ℚ) ^ k = m * 2 ^ e := by
  obtain ⟨i, rfl⟩ := Int.le.dest h
  refine ⟨2 ^ i, ?_⟩
  rw [zpow_add₀ two_ne_zero, zpow_natCast, mul_comm]
  push_cast
  rfl

theorem near_of_le (h : e ≤ k) (n : ℤ) : near e (n * 2 ^ k) = n * 2 ^ k := by
  obtain ⟨m, hm⟩ := exists_zpow_eq h
  have heq : (n : ℚ) * 2 ^ k = (n * m : ℤ) * 2 ^ e := by
    rw [hm]
    push_cast
    ring
  rw [heq, near_mul]

/-- A multiple of `2 ^ k` bounds the result if it bounds the number. -/
theorem near_le_mul (h : e ≤ k) (hq : q ≤ n * 2 ^ k) : near e q ≤ n * 2 ^ k :=
  (near_mono e hq).trans_eq (near_of_le h n)

theorem mul_le_near (h : e ≤ k) (hq : n * 2 ^ k ≤ q) : n * 2 ^ k ≤ near e q :=
  (near_of_le h n).symm.trans_le (near_mono e hq)

theorem near_scale (e k : ℤ) (q : ℚ) : near (e + k) (q * 2 ^ k) = near e q * 2 ^ k := by
  rw [near, near, zpow_add₀ two_ne_zero, mul_div_mul_right _ _ (two_zpow_pos k).ne', mul_assoc]

/-! ## Integers and their neighbours -/

/-- Below an integer, the result is below it by the last place. -/
theorem near_le_sub (he : e ≤ 0) (h : near e q < n) : near e q ≤ n - 2 ^ e := by
  obtain ⟨m, hm⟩ := exists_zpow_eq he
  have hn : (n : ℚ) = ((n * m : ℤ) : ℚ) * 2 ^ e := by
    rw [Int.cast_mul, mul_assoc, ← hm, zpow_zero, mul_one]
  rw [hn, near, mul_lt_mul_iff_of_pos_right (two_zpow_pos e), Int.cast_lt] at h
  have hle : (halfEven (q / 2 ^ e) : ℚ) ≤ (n * m : ℤ) - 1 := by
    exact_mod_cast Int.le_sub_one_of_lt h
  have hmul := mul_le_mul_of_nonneg_right hle (two_zpow_pos e).le
  rwa [sub_mul, one_mul, ← hn] at hmul

theorem intCast_le_near (he : e ≤ 0) (h : n ≤ q) : n ≤ near e q := by
  have hle := @mul_le_near q e 0 n he (by simpa using h)
  simpa using hle

/-- With places after the point, an integer is not left within half of the last place above it. -/
theorem near_le_intCast (he : e ≤ 0) (h : q < n + 2 ^ e / 2) : near e q ≤ n := by
  obtain ⟨m, hm⟩ := exists_zpow_eq he
  have hpos := two_zpow_pos e
  have hn : (n : ℚ) = ((n * m : ℤ) : ℚ) * 2 ^ e := by
    rw [Int.cast_mul, mul_assoc, ← hm, zpow_zero, mul_one]
  have hdiv : q / 2 ^ e < (n * m : ℤ) + 1 / 2 := by
    rw [div_lt_iff₀ hpos, add_mul, ← hn]
    linarith
  have hround : halfEven (q / 2 ^ e) ≤ n * m := (halfEven_le_iff _).2 (.inl hdiv)
  rw [near, hn]
  exact mul_le_mul_of_nonneg_right (Int.cast_le.2 hround) hpos.le

/-- With places after the point, an integer is reached from half of the last place below it. -/
theorem near_lt_intCast_iff (he : e < 0) : near e q < n ↔ q < n - 2 ^ e / 2 := by
  obtain ⟨i, hi⟩ := Int.le.dest (by omega : 1 ≤ -e)
  have hpos := two_zpow_pos e
  have hone : (2 * 2 ^ i : ℚ) * 2 ^ e = 1 := by
    rw [← pow_succ', ← zpow_natCast, ← zpow_add₀ two_ne_zero]
    have hzero : ((i + 1 : ℕ) : ℤ) + e = 0 := by omega
    rw [hzero, zpow_zero]
  -- the integer in units of the last place, an even number
  have hn : (n : ℚ) = ((n * (2 * 2 ^ i) : ℤ) : ℚ) * 2 ^ e := by
    push_cast
    rw [mul_assoc, hone, mul_one]
  have hodd : (n * (2 * 2 ^ i) - 1) % 2 ≠ 0 := by
    have heven : n * (2 * 2 ^ i) = 2 * (n * 2 ^ i) := by ring
    omega
  have hlt : near e q < n ↔ halfEven (q / 2 ^ e) ≤ n * (2 * 2 ^ i) - 1 := by
    rw [hn, near, mul_lt_mul_iff_of_pos_right hpos, Int.cast_lt]
    omega
  rw [hlt, halfEven_le_iff, or_iff_left fun h => hodd h.2, div_lt_iff₀ hpos]
  have hcast : (((n * (2 * 2 ^ i) - 1 : ℤ) : ℚ) + 1 / 2) * 2 ^ e = n - 2 ^ e / 2 := by
    rw [Int.cast_sub, sub_add, sub_mul, ← hn]
    norm_num
    ring
  rw [hcast]

/-! ## To a significand -/

/-- The exponent of the last place of a significand of `p` bits. -/
def place (p : ℕ) (q : ℚ) : ℤ := Int.log 2 |q| - (p - 1)

/-- The nearest number with a significand of `p` bits. -/
def nearest (p : ℕ) (q : ℚ) : ℚ := near (place p q) q

theorem nearest_zero : nearest p 0 = 0 := by
  have h := near_mul 0 (place p 0)
  simpa [nearest] using h

theorem log_lt_iff (hq : 0 < q) : Int.log 2 q < k ↔ q < 2 ^ k := by
  have h := @Int.lt_zpow_iff_log_lt ℚ _ _ _ _ 2 (by norm_num) k q hq
  simpa using h.symm

theorem le_log_iff (hq : 0 < q) : k ≤ Int.log 2 q ↔ 2 ^ k ≤ q := by
  have h := @Int.zpow_le_iff_le_log ℚ _ _ _ _ 2 (by norm_num) k q hq
  simpa using h.symm

theorem place_le_iff (hq : 0 < q) : place p q ≤ e ↔ q < 2 ^ (e + p) := by
  rw [← log_lt_iff hq, place, abs_of_pos hq]
  omega

/-- **What has a significand of `p` bits is not changed.** -/
theorem nearest_mul (hm : 0 ≤ m) (hlt : m < 2 ^ p) : nearest p (m * 2 ^ e) = m * 2 ^ e := by
  rcases hm.eq_or_lt with rfl | hpos
  · simp [nearest_zero]
  · have hq : (0 : ℚ) < m * 2 ^ e := mul_pos (Int.cast_pos.2 hpos) (two_zpow_pos e)
    refine near_of_le ((place_le_iff hq).2 ?_) m
    rw [zpow_add₀ two_ne_zero, mul_comm, zpow_natCast]
    have hcast : (m : ℚ) < 2 ^ p := by exact_mod_cast hlt
    exact mul_lt_mul_of_pos_left hcast (two_zpow_pos e)

theorem nearest_zpow (hp : p ≠ 0) (k : ℤ) : nearest p (2 ^ k) = 2 ^ k := by
  have h := @nearest_mul p k 1 (by norm_num) (one_lt_pow₀ (by norm_num) hp)
  simpa using h

/-- The result stays between the powers of two around the number. -/
theorem zpow_log_le_nearest (hp : p ≠ 0) (hq : 0 < q) : 2 ^ Int.log 2 q ≤ nearest p q := by
  have hle : (2 : ℚ) ^ Int.log 2 q ≤ q := (le_log_iff hq).1 le_rfl
  have h := @mul_le_near q (place p q) (Int.log 2 q) 1 (by rw [place, abs_of_pos hq]; omega)
    (by simpa using hle)
  simpa [nearest] using h

theorem nearest_le_zpow_log (hq : 0 < q) : nearest p q ≤ 2 ^ (Int.log 2 q + 1) := by
  have hle : q ≤ 2 ^ (Int.log 2 q + 1) := ((log_lt_iff hq).1 (Int.lt_add_one_iff.2 le_rfl)).le
  have h := @near_le_mul q (place p q) (Int.log 2 q + 1) 1 (by rw [place, abs_of_pos hq]; omega)
    (by simpa using hle)
  simpa [nearest] using h

theorem nearest_nonneg (hq : 0 ≤ q) : 0 ≤ nearest p q := by
  have h := near_mono (place p q) hq
  have hzero := near_mul 0 (place p q)
  rw [Int.cast_zero, zero_mul] at hzero
  rwa [hzero] at h

theorem nearest_mono (hp : p ≠ 0) (hq : 0 ≤ q) (h : q ≤ q') : nearest p q ≤ nearest p q' := by
  rcases hq.eq_or_lt with rfl | hpos
  · rw [nearest_zero]
    exact nearest_nonneg h
  · have hpos' : 0 < q' := hpos.trans_le h
    have hlog : Int.log 2 q ≤ Int.log 2 q' := Int.log_mono_right hpos h
    rcases hlog.eq_or_lt with heq | hlt
    · have hplace : place p q = place p q' := by
        rw [place, place, abs_of_pos hpos, abs_of_pos hpos', heq]
      rw [nearest, nearest, hplace]
      exact near_mono _ h
    · calc nearest p q ≤ 2 ^ (Int.log 2 q + 1) := nearest_le_zpow_log hpos
        _ ≤ 2 ^ Int.log 2 q' := zpow_le_zpow_right₀ one_le_two (by omega)
        _ ≤ nearest p q' := zpow_log_le_nearest hp hpos'

theorem place_scale (hq : 0 < q) (k : ℤ) : place p (q * 2 ^ k) = place p q + k := by
  have hpos : 0 < q * 2 ^ k := mul_pos hq (two_zpow_pos k)
  have hlog : Int.log 2 (q * 2 ^ k) = Int.log 2 q + k := by
    refine le_antisymm ?_ ?_
    · rw [← Int.lt_add_one_iff, log_lt_iff hpos, add_right_comm, zpow_add₀ two_ne_zero]
      exact mul_lt_mul_of_pos_right ((log_lt_iff hq).1 (Int.lt_add_one_iff.2 le_rfl))
        (two_zpow_pos k)
    · rw [le_log_iff hpos, zpow_add₀ two_ne_zero]
      exact mul_le_mul_of_nonneg_right ((le_log_iff hq).1 le_rfl) (two_zpow_pos k).le
  rw [place, place, abs_of_pos hpos, abs_of_pos hq, hlog]
  ring

/-- A factor that is a power of two is not rounded. -/
theorem nearest_scale (hq : 0 < q) (k : ℤ) : nearest p (q * 2 ^ k) = nearest p q * 2 ^ k := by
  rw [nearest, place_scale hq, near_scale, nearest]

/-- Half of the last place is at most `2 ^ (-p)` of the number. -/
theorem zpow_place_le (hq : q ≠ 0) : (2 : ℚ) ^ place p q / 2 ≤ |q| * 2 ^ (-p : ℤ) := by
  have hle : (2 : ℚ) ^ Int.log 2 |q| ≤ |q| := (le_log_iff (abs_pos.2 hq)).1 le_rfl
  have hplace : (2 : ℚ) ^ place p q / 2 = 2 ^ Int.log 2 |q| * 2 ^ (-p : ℤ) := by
    have hexp : place p q = Int.log 2 |q| + -p + 1 := by
      rw [place]
      ring
    rw [hexp, zpow_add_one₀ two_ne_zero, zpow_add₀ two_ne_zero]
    ring
  rw [hplace]
  exact mul_le_mul_of_nonneg_right hle (two_zpow_pos _).le

/-- The result is not rounded again. -/
theorem nearest_nearest (hp : p ≠ 0) (hq : 0 ≤ q) : nearest p (nearest p q) = nearest p q := by
  have hround : nearest p q = near (place p q) q := rfl
  have hm₀ := halfEven_nonneg (div_nonneg hq (two_zpow_pos (place p q)).le)
  rcases hq.eq_or_lt with rfl | hpos
  · rw [nearest_zero, nearest_zero]
  · rcases (nearest_le_zpow_log hpos).lt_or_eq with hlt | heq
    · have hm : halfEven (q / 2 ^ place p q) < 2 ^ p := by
        have hexp : Int.log 2 q + 1 = place p q + p := by
          rw [place, abs_of_pos hpos]
          ring
        rw [hround, near, hexp, zpow_add₀ two_ne_zero, mul_comm (2 ^ place p q),
          mul_lt_mul_iff_of_pos_right (two_zpow_pos _), zpow_natCast] at hlt
        exact_mod_cast hlt
      exact nearest_mul hm₀ hm
    · rw [heq, nearest_zpow hp]

/-- Below `2 ^ k` the last place is at most `2 ^ (k - p)`. -/
theorem abs_nearest_sub_le (hq : 0 ≤ q) (hk : q < 2 ^ k) : |nearest p q - q| ≤ 2 ^ (k - p) / 2 := by
  rcases hq.eq_or_lt with rfl | hpos
  · rw [nearest_zero, sub_zero, abs_zero]
    exact (half_pos (two_zpow_pos _)).le
  · have hplace : place p q ≤ k - p := (place_le_iff hpos).2 (by rwa [sub_add_cancel])
    have hpow : (2 : ℚ) ^ place p q ≤ 2 ^ (k - p) := zpow_le_zpow_right₀ one_le_two hplace
    have hup := @near_le_add q (place p q)
    have hdown := @sub_le_near q (place p q)
    rw [nearest, abs_le]
    constructor <;> linarith

/-! ## The whole part -/

/-- Without places after the point the result is an integer. -/
theorem floor_nearest_of_nonneg (h : 0 ≤ place p q) : (⌊nearest p q⌋ : ℚ) = nearest p q := by
  obtain ⟨i, hi⟩ := Int.eq_ofNat_of_zero_le h
  have hint : nearest p q = ((halfEven (q / 2 ^ place p q) * 2 ^ i : ℤ) : ℚ) := by
    rw [nearest, near, hi, Int.cast_mul, zpow_natCast]
    norm_num
  rw [hint, Int.floor_intCast]

/-- With places after the point, the whole part is lost from half of the last place below the next
integer on. -/
theorem floor_nearest_of_place_neg (h : place p q < 0) :
    ⌊nearest p q⌋ = ⌊q⌋ ↔ q < ⌊q⌋ + 1 - 2 ^ place p q / 2 := by
  have hle : (⌊q⌋ : ℚ) ≤ nearest p q := intCast_le_near h.le (Int.floor_le q)
  have hlt := @near_lt_intCast_iff q (place p q) (⌊q⌋ + 1) h
  rw [Int.cast_add, Int.cast_one] at hlt
  rw [Int.floor_eq_iff, and_iff_right hle]
  exact hlt

/-- Without places, the number is rounded to an integer. -/
theorem floor_nearest_of_place_zero (h : place p q = 0) :
    ⌊nearest p q⌋ = ⌊q⌋ ↔ q < ⌊q⌋ + 1 / 2 ∨ q = ⌊q⌋ + 1 / 2 ∧ ⌊q⌋ % 2 = 0 := by
  have hround : nearest p q = halfEven q := by rw [nearest, near, h, zpow_zero, div_one, mul_one]
  have hle : ⌊q⌋ ≤ halfEven q := by
    rw [le_halfEven_iff]
    exact .inl (by linarith [Int.floor_le q])
  rw [hround, Int.floor_intCast, ← halfEven_le_iff]
  exact ⟨le_of_eq, fun h => le_antisymm h hle⟩

/-- With places before the point, only a multiple of the last place is a whole part. -/
theorem floor_nearest_of_place_pos {i : ℕ} (h : place p q = i + 1) :
    ⌊nearest p q⌋ = ⌊q⌋ ↔ 2 ^ (i + 1) ∣ ⌊q⌋ := by
  have hlast : (2 : ℚ) ^ place p q = ((2 ^ (i + 1) : ℤ) : ℚ) := by
    rw [h]
    push_cast
    exact_mod_cast rfl
  have hround : nearest p q = ((halfEven (q / 2 ^ place p q) * 2 ^ (i + 1) : ℤ) : ℚ) := by
    rw [nearest, near, Int.cast_mul, hlast]
  rw [hround, Int.floor_intCast]
  constructor
  · intro hfloor
    exact ⟨_, hfloor.symm.trans (mul_comm _ _)⟩
  · intro hdvd
    obtain ⟨m, hm⟩ := hdvd
    have hpow : (2 : ℚ) ≤ 2 ^ (i + 1) := by
      rw [pow_succ']
      have hone : (1 : ℚ) ≤ 2 ^ i := one_le_pow₀ one_le_two
      linarith
    have hpos : (0 : ℚ) < 2 ^ (i + 1) := by linarith
    have hlo := Int.floor_le q
    have hhi := Int.lt_floor_add_one q
    have hcast : (⌊q⌋ : ℚ) = 2 ^ (i + 1) * m := by
      rw [hm]
      push_cast
      rfl
    -- the fraction is less than half of the last place
    have hm' : halfEven (q / 2 ^ place p q) = m := by
      rw [hlast]
      push_cast
      refine le_antisymm ((halfEven_le_iff m).2 (.inl ?_)) ((le_halfEven_iff m).2 (.inl ?_))
      · rw [div_lt_iff₀ hpos]
        linarith
      · rw [lt_div_iff₀ hpos]
        linarith
    rw [hm', hm, mul_comm]

/-! ## Gradual underflow -/

/-- The nearest number with a significand of `p` bits and no place below `2 ^ e`. -/
def gradual (p : ℕ) (e : ℤ) (q : ℚ) : ℚ := near (max (place p q) e) q

theorem gradual_of_le (h : e ≤ place p q) : gradual p e q = nearest p q := by
  rw [gradual, max_eq_left h, nearest]

/-- What has such a significand is not changed. -/
theorem gradual_mul (hp : p ≠ 0) (hm : 0 ≤ m) (hle : m ≤ 2 ^ p) (hk : e ≤ k) :
    gradual p e (m * 2 ^ k) = m * 2 ^ k := by
  rcases hm.eq_or_lt with rfl | hpos
  · have h := near_mul 0 (max (place p 0) e)
    simpa [gradual] using h
  · have hcast : (0 : ℚ) < m := Int.cast_pos.2 hpos
    have hq : (0 : ℚ) < m * 2 ^ k := mul_pos hcast (two_zpow_pos k)
    have hpow : (2 : ℚ) ^ (k + p) = 2 ^ p * 2 ^ k := by
      rw [zpow_add₀ two_ne_zero, zpow_natCast, mul_comm]
    rcases hle.lt_or_eq with hlt | rfl
    · refine near_of_le (max_le ((place_le_iff hq).2 ?_) hk) m
      rw [hpow]
      have hlt' : (m : ℚ) < 2 ^ p := by exact_mod_cast hlt
      exact mul_lt_mul_of_pos_right hlt' (two_zpow_pos k)
    · have hone : ((2 ^ p : ℤ) : ℚ) * 2 ^ k = (1 : ℤ) * 2 ^ (k + p) := by
        rw [hpow]
        push_cast
        ring
      have hplace : place p ((1 : ℤ) * (2 : ℚ) ^ (k + p)) ≤ k + p := by
        rw [place_le_iff (by rw [← hone]; exact hq), Int.cast_one, one_mul]
        exact zpow_lt_zpow_right₀ one_lt_two (by omega)
      rw [hone]
      exact near_of_le (max_le hplace (by omega)) 1

theorem exists_gradual (p : ℕ) (e : ℤ) (hq : 0 ≤ q) :
    ∃ m k : ℤ, 0 ≤ m ∧ m ≤ 2 ^ p ∧ e ≤ k ∧ gradual p e q = m * 2 ^ k := by
  refine ⟨halfEven (q / 2 ^ max (place p q) e), max (place p q) e,
    halfEven_nonneg (div_nonneg hq (two_zpow_pos _).le), ?_, le_max_right _ _, rfl⟩
  rcases hq.eq_or_lt with rfl | hpos
  · rw [zero_div, ← Int.cast_zero, halfEven_intCast]
    positivity
  · have hlt := (place_le_iff hpos).1 (le_max_left (place p q) e)
    rw [zpow_add₀ two_ne_zero, zpow_natCast] at hlt
    have hdiv : q / 2 ^ max (place p q) e ≤ ((2 ^ p : ℤ) : ℚ) := by
      rw [div_le_iff₀ (two_zpow_pos _), mul_comm]
      push_cast
      exact hlt.le
    have hmono := halfEven_mono hdiv
    rwa [halfEven_intCast] at hmono

/-- **A factor that is a power of two is not rounded**, up to underflow. -/
theorem gradual_scale (hp : p ≠ 0) (hq : 0 ≤ q) (i : ℕ) :
    gradual p e (gradual p e q * 2 ^ i) = gradual p e q * 2 ^ i := by
  obtain ⟨m, k, hm, hle, hk, heq⟩ := exists_gradual p e hq
  have hscaled : gradual p e q * 2 ^ i = m * 2 ^ (k + i) := by
    rw [heq, zpow_add₀ two_ne_zero, zpow_natCast, mul_assoc]
  rw [hscaled, gradual_mul hp hm hle (by omega)]

theorem gradual_nonneg (hq : 0 ≤ q) : 0 ≤ gradual p e q := by
  obtain ⟨m, k, hm, -, -, heq⟩ := exists_gradual p e hq
  rw [heq]
  exact mul_nonneg (Int.cast_nonneg hm) (two_zpow_pos k).le

/-- The error is half of the last place, or half of the smallest one. -/
theorem abs_gradual_sub_le : |gradual p e q - q| ≤ |q| * 2 ^ (-p : ℤ) + 2 ^ e / 2 := by
  have hpos := two_zpow_pos e
  by_cases hq : q = 0
  · have hzero := near_mul 0 (max (place p 0) e)
    rw [Int.cast_zero, zero_mul] at hzero
    rw [hq, gradual, hzero, sub_zero, abs_zero, zero_mul]
    linarith
  · have hplace := @zpow_place_le p q hq
    have hup := @near_le_add q (max (place p q) e)
    have hdown := @sub_le_near q (max (place p q) e)
    have hlast : (2 : ℚ) ^ max (place p q) e / 2 ≤ |q| * 2 ^ (-p : ℤ) + 2 ^ e / 2 := by
      have hpos' : 0 < |q| * 2 ^ (-p : ℤ) := mul_pos (abs_pos.2 hq) (two_zpow_pos _)
      rcases max_choice (place p q) e with h | h <;> rw [h] <;> linarith
    rw [gradual, abs_le]
    constructor <;> linarith

end Rounding
