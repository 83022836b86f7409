import CofferFS.Lib.Rounding

/-!
# Times

The `REAL` columns of the database hold `f64` seconds since the epoch. Every value that occurs
is finite, so an `f64` is the rational number it stands for, and an operation on `f64` is the
exact operation followed by rounding to a 53-bit significand (`toF64`). The two conversions of
fs.rs, `time_or_now_to_secs` and `secs_to_systemtime`, are modelled with the library calls they
make; a library call that panics has no result.
-/

namespace CofferFS

/-- A finite `f64`, by its value. -/
abbrev F64 := ℚ

/-- The nearest integer, ties to even. -/
def roundHalfEven (q : ℚ) : ℤ :=
  if q - ⌊q⌋ < 1 / 2 then ⌊q⌋
  else if 1 / 2 < q - ⌊q⌋ then ⌊q⌋ + 1
  else if ⌊q⌋ % 2 = 0 then ⌊q⌋ else ⌊q⌋ + 1

/-- The nearest number with a 53-bit significand. -/
def toF64 (q : ℚ) : F64 :=
  if q = 0 then 0
  else roundHalfEven (q / 2 ^ (Int.log 2 |q| - 52)) * 2 ^ (Int.log 2 |q| - 52)

/-- `i64::MAX`. -/
def i64Max : ℕ := 2 ^ 63 - 1

/-- `std::time::Duration`. -/
structure Duration where
  secs : ℕ
  nanos : ℕ
  deriving DecidableEq

/-- `std::time::SystemTime`: whole seconds relative to the epoch, and nanoseconds after them. -/
structure SystemTime where
  secs : ℤ
  nanos : ℕ
  deriving DecidableEq

/-- `UNIX_EPOCH`. -/
def SystemTime.unixEpoch : SystemTime := ⟨0, 0⟩

/-- `duration_since(UNIX_EPOCH)`, an error for a time before it. -/
def SystemTime.durationSinceEpoch (t : SystemTime) : Option Duration :=
  if 0 ≤ t.secs then some ⟨t.secs.toNat, t.nanos⟩ else none

/-- `Duration::as_secs_f64`. -/
def Duration.asSecsF64 (d : Duration) : F64 :=
  toF64 (toF64 d.secs + toF64 (d.nanos / 1000000000))

/-- `Duration::from_secs_f64`, which panics when the seconds leave `u64`. -/
def Duration.fromSecsF64 (s : F64) : Option Duration :=
  if roundHalfEven (s * 1000000000) / 1000000000 < 2 ^ 64 then
    some ⟨(roundHalfEven (s * 1000000000) / 1000000000).toNat,
      (roundHalfEven (s * 1000000000) % 1000000000).toNat⟩
  else none

/-- `UNIX_EPOCH + d`, which panics when the seconds leave `i64`. -/
def SystemTime.epochPlus (d : Duration) : Option SystemTime :=
  if d.secs ≤ i64Max then some ⟨d.secs, d.nanos⟩ else none

/-- fs.rs `secs_to_systemtime`; `none` is a panic. -/
def secsToSystemtime (s : F64) : Option SystemTime :=
  if s ≤ 0 then some SystemTime.unixEpoch
  else (Duration.fromSecsF64 s).bind SystemTime.epochPlus

/-- `fuser::TimeOrNow`. -/
inductive TimeOrNow
  | specificTime (t : SystemTime)
  | now
  deriving DecidableEq

/-- fs.rs `time_or_now_to_secs`, where `now` is what `db::now_secs` answers. -/
def timeOrNowToSecs (now : F64) (t : Option TimeOrNow) : Option F64 :=
  t.map fun
    | .specificTime st => (st.durationSinceEpoch.map Duration.asSecsF64).getD 0
    | .now => now

/-! ## What the conversions round -/

theorem roundHalfEven_eq (q : ℚ) : roundHalfEven q = Rounding.halfEven q := rfl

theorem toF64_eq (q : ℚ) : toF64 q = Rounding.nearest 53 q := by
  rw [toF64]
  split_ifs with h
  · rw [h, Rounding.nearest_zero]
  · have hplace : Rounding.place 53 q = Int.log 2 |q| - 52 := by
      rw [Rounding.place]
      norm_num
    rw [Rounding.nearest, Rounding.near, hplace]
    rfl

namespace Duration

/-- The seconds that a duration stands for. -/
def value (d : Duration) : ℚ := d.secs + d.nanos / 1000000000

/-- A number of seconds that fits becomes a whole number of nanoseconds. -/
theorem fromSecsF64_of_lt {s : F64} (h₀ : 0 ≤ s)
    (h : roundHalfEven (s * 1000000000) / 1000000000 < 2 ^ 64) :
    ∃ d, fromSecsF64 s = some d ∧ (d.secs : ℤ) = roundHalfEven (s * 1000000000) / 1000000000 ∧
      d.value = roundHalfEven (s * 1000000000) / 1000000000 := by
  have hpos : 0 ≤ roundHalfEven (s * 1000000000) :=
    Rounding.halfEven_nonneg (mul_nonneg h₀ (by norm_num))
  have hsecs : ((roundHalfEven (s * 1000000000) / 1000000000).toNat : ℤ) =
      roundHalfEven (s * 1000000000) / 1000000000 := by omega
  refine ⟨_, if_pos h, hsecs, ?_⟩
  have hnanos : ((roundHalfEven (s * 1000000000) % 1000000000).toNat : ℤ) =
      roundHalfEven (s * 1000000000) % 1000000000 := by omega
  have hsum := Int.mul_ediv_add_emod (roundHalfEven (s * 1000000000)) 1000000000
  rw [← hsecs, ← hnanos] at hsum
  have hcast : (1000000000 * (roundHalfEven (s * 1000000000) / 1000000000).toNat +
      (roundHalfEven (s * 1000000000) % 1000000000).toNat : ℚ) =
        roundHalfEven (s * 1000000000) := by exact_mod_cast hsum
  rw [value, ← hcast]
  field_simp

end Duration

end CofferFS
