import CofferFS.Config
import CofferFS.Lib.Encode

/-!
# Durations

`parse_duration` reads the timeouts of the command line and of the registry. It slices off the unit
by bytes, multiplies in `f64` and converts with `Duration::from_secs_f64`, which panics outside its
range. `parseDurationEnd` tells an error from a panic, which `parseDuration` does not.

An `f64` has 53 bits and a duration whole nanoseconds, so an accepted value is the number times the
unit up to rounding: `parseDuration_rounds` bounds the difference, and there is none for whole
nanoseconds up to 24 days.
-/

namespace CofferFS

open Text Rounding

/-- How a function that may panic ends. -/
inductive Ending (α : Type)
  | ok (a : α)
  | refused
  | panicked
  deriving DecidableEq

/-- `&s[..n]`, which panics if `n` is not at the boundary of a character. -/
def byteSlice (s : Text) (n : ℕ) : Option Text := decode ((encode s).take n)

/-- The seconds in the unit at the end, if there is a unit. -/
def durationUnit (s : Text) : Option ℕ :=
  match s.getLast? with
  | some 's' => some 1
  | some 'm' => some 60
  | some 'h' => some 3600
  | some 'd' => some 86400
  | _ => none

/-- `value * mult as f64` -/
def secsF64 (value : ParsedF64) (mult : ℕ) : ParsedF64 :=
  match value with
  | .finite v => roundF64 (v * mult)
  | other => other

/-- From the text of the number on. -/
def numberEnd (num : Text) (mult : ℕ) : Ending Duration :=
  match parseF64 num with
  | none => .refused
  | some value =>
    match secsF64 value mult with
    | .finite secs =>
      if secs < 0 then .refused
      else match Duration.fromSecsF64 secs with
        | some d => .ok d
        | none => .panicked
    | _ => .refused

/-- main.rs `parse_duration` -/
def parseDurationEnd (s : Text) : Ending Duration :=
  match durationUnit (trim s) with
  | some mult =>
    match byteSlice (trim s) ((encode (trim s)).length - 1) with
    | some num => numberEnd num mult
    | none => .panicked
  | none => numberEnd (trim s) 1

/-- The number of a duration and its unit, exactly. -/
def durationNumber (s : Text) : Option (ℚ × ℕ) :=
  (exactNumber (splitUnit (trim s)).1).map fun x => (x, (splitUnit (trim s)).2)

/-! ## The slice -/

variable {s t : Text} {u : ℕ}

/-- Cutting the byte of an ASCII character off the end is cutting off the character. -/
theorem byteSlice_dropLast {c : Char} (h : t.getLast? = some c) (hc : c.toNat < 0x80) :
    byteSlice t ((encode t).length - 1) = some t.dropLast := by
  have ht : encode t = encode t.dropLast ++ [byte c] := by
    conv_lhs => rw [← List.dropLast_append_getLast? c h]
    rw [encode_append, encode_cons, encodeChar_of_ascii hc]
    rfl
  rw [byteSlice, ht, List.length_append, List.length_singleton, Nat.add_sub_cancel, List.take_left,
    decode_encode]

theorem splitUnit_of_some (h : durationUnit t = some u) :
    splitUnit t = (t.dropLast, u) ∧ ∃ c, t.getLast? = some c ∧ c.toNat < 0x80 := by
  unfold durationUnit at h
  split at h
  case h_5 => cases h
  all_goals
    next hlast =>
      obtain rfl := Option.some.inj h
      refine ⟨?_, _, hlast, by decide⟩
      rw [splitUnit, hlast]
      rfl

theorem splitUnit_of_none (h : durationUnit t = none) : splitUnit t = (t, 1) := by
  unfold durationUnit at h
  unfold splitUnit
  split at h
  case h_5 => simp_all
  all_goals cases h

/-- The unit is one byte, so the slice before it is at the boundary of a character. -/
theorem byteSlice_unit (h : durationUnit t = some u) :
    byteSlice t ((encode t).length - 1) = some (splitUnit t).1 ∧ (splitUnit t).2 = u := by
  obtain ⟨hsplit, c, hlast, hc⟩ := splitUnit_of_some h
  rw [hsplit]
  exact ⟨byteSlice_dropLast hlast hc, rfl⟩

/-- The end is that of the number before the unit. -/
theorem parseDurationEnd_eq (s : Text) :
    parseDurationEnd s = numberEnd (splitUnit (trim s)).1 (splitUnit (trim s)).2 := by
  unfold parseDurationEnd
  cases hunit : durationUnit (trim s) with
  | none => rw [splitUnit_of_none hunit]
  | some u =>
    obtain ⟨hslice, hu⟩ := byteSlice_unit hunit
    rw [hslice, hu]

/-! ## The number -/

/-- A number starts with a digit or a point. -/
theorem head?_of_parseNumber {q : ℚ} (h : parseNumber t = some q) :
    ∃ c, t.head? = some c ∧ (c.isDigit = true ∨ c = '.') := by
  cases t with
  | nil => cases h
  | cons c t =>
    refine ⟨c, rfl, ?_⟩
    by_contra hc
    obtain ⟨hdigit, hdot⟩ := not_or.1 hc
    have hint : (c :: t).takeWhile Char.isDigit = [] := by
      rw [List.takeWhile_cons_of_neg hdigit]
    have hrest : (c :: t).dropWhile Char.isDigit = c :: t := by
      rw [List.dropWhile_cons_of_neg hdigit]
    have hhead : (c :: t).head? ≠ some '.' := fun h => hdot (Option.some.inj h)
    unfold parseNumber at h
    simp only [hint, hrest, if_neg hhead, and_self, if_true] at h
    cases h

/-- A number is none of the words that stand for an `f64`. -/
theorem parseF64_of_exactNumber {x : ℚ} (h : exactNumber t = some x) :
    parseF64 t = some (roundF64 x) := by
  obtain ⟨q, hq, -⟩ := Option.map_eq_some_iff.1 h
  obtain ⟨c, hhead, hc⟩ := head?_of_parseNumber hq
  have hlower : c.toLower = c := by
    rcases hc with hc | rfl
    · have hrange := toNat_of_isDigit hc
      refine dif_neg fun hupper => ?_
      have hA : 65 ≤ c.toNat := UInt32.le_iff_toNat_le.1 hupper.1
      omega
    · rfl
  have hword (word : Text) (hw : word.head? ≠ some c) : (unsigned t).map Char.toLower ≠ word := by
    intro heq
    rw [← heq, List.head?_map, hhead, Option.map_some, hlower] at hw
    exact hw rfl
  have hne (d : Char) (hd : d.isDigit = false) (hdot : d ≠ '.') : some d ≠ some c := by
    intro heq
    obtain rfl := Option.some.inj heq
    rcases hc with hc | hc
    · simp [hd] at hc
    · exact hdot hc
  unfold parseF64
  dsimp only
  rw [if_neg, if_neg, h]
  · rfl
  · exact hword "nan".toList (hne 'n' rfl (by decide))
  · exact not_or.2 ⟨hword "inf".toList (hne 'i' rfl (by decide)),
      hword "infinity".toList (hne 'i' rfl (by decide))⟩

/-! ## The rounding -/

section Rounded

variable {x v secs : ℚ} {u : ℕ}

theorem secsF64_eq_finite_iff : secsF64 (roundF64 x) u = .finite secs ↔
    roundF64 x = .finite (gradual 53 (-1074) x) ∧
      roundF64 (gradual 53 (-1074) x * u) = .finite secs := by
  cases hx : roundF64 x with
  | finite v =>
    obtain rfl := (roundF64_eq_finite_iff.1 hx).1
    simp [secsF64]
  | infinite => simp [secsF64]
  | nan => simp [secsF64]

/-- **The seconds are the number times the unit up to two roundings.** -/
theorem abs_secs_sub_le (h : secsF64 (roundF64 x) u = .finite secs) (hu : u ≤ 86400) :
    |secs - x * u| ≤ |x * u| * (2 ^ (-52 : ℤ) + 2 ^ (-106 : ℤ)) + 2 ^ (-80 : ℤ) := by
  obtain ⟨-, hsecs⟩ := secsF64_eq_finite_iff.1 h
  obtain rfl := (roundF64_eq_finite_iff.1 hsecs).1
  have hu₀ : (0 : ℚ) ≤ u := Nat.cast_nonneg u
  have hu' : (u : ℚ) ≤ 86400 := by exact_mod_cast hu
  have hnumber := @abs_gradual_sub_le 53 x (-1074)
  have hproduct := @abs_gradual_sub_le 53 (gradual 53 (-1074) x * u) (-1074)
  have hδ : (2 : ℚ) ^ (-1074 : ℤ) / 2 ≤ 2 ^ (-101 : ℤ) := by
    have hpow : (2 : ℚ) ^ (-1074 : ℤ) ≤ 2 ^ (-101 : ℤ) :=
      zpow_le_zpow_right₀ one_le_two (by norm_num)
    exact (div_le_self (two_zpow_pos _).le one_le_two).trans hpow
  generalize (2 : ℚ) ^ (-1074 : ℤ) / 2 = δ at hnumber hproduct hδ
  generalize gradual 53 (-1074) (gradual 53 (-1074) x * u) = secs at hproduct ⊢
  generalize gradual 53 (-1074) x = v at hnumber hproduct
  -- the error of the number is multiplied by the unit
  have hscaled : |v * u - x * u| ≤ |x * u| * 2 ^ (-(53 : ℕ) : ℤ) + δ * u := by
    rw [← sub_mul, abs_mul, abs_of_nonneg hu₀, abs_mul, abs_of_nonneg hu₀]
    have h := mul_le_mul_of_nonneg_right hnumber hu₀
    linarith
  have hsize : |v * u| ≤ |x * u| + (|x * u| * 2 ^ (-(53 : ℕ) : ℤ) + δ * u) := by
    have h := abs_sub_abs_le_abs_sub (v * u) (x * u)
    linarith
  have htotal : |secs - x * u| ≤ |secs - v * u| + |v * u - x * u| := abs_sub_le _ _ _
  have hA : 0 ≤ |x * u| := abs_nonneg _
  have hδu : δ * u ≤ 2 ^ (-101 : ℤ) * 86400 := mul_le_mul hδ hu' hu₀ (by positivity)
  generalize |x * u| = A at *
  norm_num at hscaled hsize hproduct hδ hδu ⊢
  linarith

/-- Below `2 ^ 64` there is no `f64` that is rounded up to `2 ^ 64` seconds. -/
theorem secs_fit (h : secsF64 (roundF64 x) u = .finite secs) (hlt : secs < 2 ^ 64) :
    roundHalfEven (secs * 1000000000) / 1000000000 < 2 ^ 64 := by
  obtain ⟨-, hsecs⟩ := secsF64_eq_finite_iff.1 h
  have hle : secs ≤ 2 ^ 64 - 1 := by
    have heq := (roundF64_eq_finite_iff.1 hsecs).1
    rcases lt_or_ge (gradual 53 (-1074) x * u) 0 with hneg | hpos
    · have hzero := near_mono (max (place 53 (gradual 53 (-1074) x * u)) (-1074)) hneg.le
      have hnear := near_mul 0 (max (place 53 (gradual 53 (-1074) x * u)) (-1074))
      rw [Int.cast_zero, zero_mul] at hnear
      rw [hnear, ← gradual, ← heq] at hzero
      exact hzero.trans (by norm_num)
    · obtain ⟨m, k, hm₀, hm, -, hmk⟩ := exists_gradual 53 (-1074) hpos
      rw [← heq] at hmk
      rcases lt_or_ge k 0 with hk | hk
      · have hhalf : (2 : ℚ) ^ k ≤ 2 ^ (-1 : ℤ) := zpow_le_zpow_right₀ one_le_two (by omega)
        have hm' : (m : ℚ) ≤ 2 ^ 53 := by exact_mod_cast hm
        have hprod : (m : ℚ) * 2 ^ k ≤ 2 ^ 53 * 2 ^ (-1 : ℤ) :=
          mul_le_mul hm' hhalf (two_zpow_pos k).le (by positivity)
        rw [hmk]
        exact hprod.trans (by norm_num)
      · obtain ⟨i, rfl⟩ := Int.eq_ofNat_of_zero_le hk
        have hint : secs = ((m * 2 ^ i : ℤ) : ℚ) := by
          rw [hmk, zpow_natCast]
          push_cast
          rfl
        have hlt' : m * 2 ^ i < 2 ^ 64 := by
          rw [hint] at hlt
          exact_mod_cast hlt
        rw [hint]
        exact_mod_cast Int.le_sub_one_of_lt hlt'
  have hmono : roundHalfEven (secs * 1000000000) ≤ (2 ^ 64 - 1) * 1000000000 := by
    have hmul : secs * 1000000000 ≤ (((2 ^ 64 - 1) * 1000000000 : ℤ) : ℚ) := by
      push_cast
      linarith
    have hround := halfEven_mono hmul
    rwa [halfEven_intCast] at hround
  omega

theorem value_of_fromSecsF64 {d : Duration} (h₀ : 0 ≤ secs)
    (h : Duration.fromSecsF64 secs = some d) :
    d.value = roundHalfEven (secs * 1000000000) / 1000000000 := by
  by_cases hlt : roundHalfEven (secs * 1000000000) / 1000000000 < 2 ^ 64
  · obtain ⟨d', hd', -, hvalue⟩ := Duration.fromSecsF64_of_lt h₀ hlt
    rw [h] at hd'
    rw [Option.some.inj hd', hvalue]
  · rw [Duration.fromSecsF64, if_neg hlt] at h
    cases h

end Rounded

/-! ## The result -/

/-- How `parse_duration` ends, up to the seconds that do not fit into a `Duration`. -/
structure DurationRounded (s : Text) : Prop where
  boundary : ∀ u, durationUnit (trim s) = some u →
    byteSlice (trim s) ((encode (trim s)).length - 1) = some (trim s).dropLast
  noNumber : durationNumber s = none → parseDurationEnd s = .refused
  outOfRange : ∀ x u, durationNumber s = some (x, u) →
    (∀ secs, secsF64 (roundF64 x) u = .finite secs → secs < 0) → parseDurationEnd s = .refused
  accepted : ∀ x u secs, durationNumber s = some (x, u) →
    secsF64 (roundF64 x) u = .finite secs → 0 ≤ secs → secs < 2 ^ 64 →
      ∃ d, parseDurationEnd s = .ok d
  value : ∀ x u d, durationNumber s = some (x, u) → parseDurationEnd s = .ok d →
    |d.value - x * u| ≤ |x * u| / 2 ^ 51 + 1 / 1000000000
  exact : ∀ x u d (n : ℤ), durationNumber s = some (x, u) → parseDurationEnd s = .ok d →
    x * u * 1000000000 = n → 0 ≤ x * u → x * u ≤ 2 ^ 21 → d.value = x * u

/-- How it ends for a number. -/
theorem end_of_number {x : ℚ} (h : durationNumber s = some (x, u)) :
    parseDurationEnd s =
      match secsF64 (roundF64 x) u with
      | .finite secs =>
        if secs < 0 then .refused
        else match Duration.fromSecsF64 secs with
          | some d => .ok d
          | none => .panicked
      | _ => .refused := by
  obtain ⟨y, hy, heq⟩ := Option.map_eq_some_iff.1 h
  cases heq
  rw [parseDurationEnd_eq, numberEnd, parseF64_of_exactNumber hy]

theorem unit_le {x : ℚ} (h : durationNumber s = some (x, u)) : u ≤ 86400 := by
  obtain ⟨y, -, heq⟩ := Option.map_eq_some_iff.1 h
  obtain ⟨-, rfl⟩ := Prod.mk.inj heq
  unfold splitUnit
  split <;> simp

/-- An accepted duration comes from seconds that fit. -/
theorem exists_secs {x : ℚ} {d : Duration} (h : durationNumber s = some (x, u))
    (hok : parseDurationEnd s = .ok d) :
    ∃ secs, secsF64 (roundF64 x) u = .finite secs ∧
      d.value = roundHalfEven (secs * 1000000000) / 1000000000 := by
  rw [end_of_number h] at hok
  cases hsecs : secsF64 (roundF64 x) u with
  | finite secs =>
    simp only [hsecs] at hok
    split_ifs at hok with hneg
    refine ⟨secs, rfl, ?_⟩
    cases hd : Duration.fromSecsF64 secs with
    | none =>
      rw [hd] at hok
      cases hok
    | some d' =>
      rw [hd] at hok
      cases hok
      exact value_of_fromSecsF64 (not_lt.1 hneg) hd
  | infinite =>
    rw [hsecs] at hok
    cases hok
  | nan =>
    rw [hsecs] at hok
    cases hok

/-- **A duration is the number times the unit, up to rounding**, as far as it fits. -/
theorem parseDuration_rounds (s : Text) : DurationRounded s := by
  constructor
  case boundary =>
    intro u hu
    obtain ⟨hsplit, -⟩ := splitUnit_of_some hu
    rw [(byteSlice_unit hu).1, hsplit]
  case noNumber =>
    intro h
    have hnone := Option.map_eq_none_iff.1 h
    rw [parseDurationEnd_eq, numberEnd]
    cases hvalue : parseF64 (splitUnit (trim s)).1 with
    | none => rfl
    | some value =>
      cases value with
      | finite v =>
        obtain ⟨q, hq, -⟩ := exactNumber_of_parseF64 hvalue
        rw [hnone] at hq
        cases hq
      | infinite => rfl
      | nan => rfl
  case outOfRange =>
    intro x u h hneg
    rw [end_of_number h]
    cases hsecs : secsF64 (roundF64 x) u with
    | finite secs => simp only [if_pos (hneg secs hsecs)]
    | infinite => rfl
    | nan => rfl
  case accepted =>
    intro x u secs h hsecs h₀ hlt
    obtain ⟨d, hd, -⟩ := Duration.fromSecsF64_of_lt h₀ (secs_fit hsecs hlt)
    refine ⟨d, ?_⟩
    rw [end_of_number h]
    simp only [hsecs, if_neg (not_lt.2 h₀), hd]
  case value =>
    intro x u d h hok
    obtain ⟨secs, hsecs, hvalue⟩ := exists_secs h hok
    have hround := abs_secs_sub_le hsecs (unit_le h)
    have hup := @halfEven_le_add (secs * 1000000000)
    have hdown := @sub_le_halfEven (secs * 1000000000)
    have hA : 0 ≤ |x * u| := abs_nonneg _
    rw [← roundHalfEven_eq] at hup hdown
    rw [hvalue]
    rw [abs_le] at hround ⊢
    norm_num at hround ⊢
    constructor
    · linarith
    · linarith
  case exact =>
    intro x u d n h hok hn h₀ hle
    obtain ⟨secs, hsecs, hvalue⟩ := exists_secs h hok
    have hround := abs_secs_sub_le hsecs (unit_le h)
    rw [abs_of_nonneg h₀, abs_le] at hround
    have hn' : roundHalfEven (secs * 1000000000) = n := by
      norm_num at hround
      refine le_antisymm ((halfEven_le_iff n).2 (.inl ?_)) ((le_halfEven_iff n).2 (.inl ?_))
      · linarith
      · linarith
    rw [hvalue, hn', ← hn]
    field_simp

/-- What an exact and total `parse_duration` would do. -/
structure DurationExact (s : Text) : Prop where
  noPanic : parseDurationEnd s ≠ .panicked
  boundary : ∀ u, durationUnit (trim s) = some u →
    byteSlice (trim s) ((encode (trim s)).length - 1) ≠ none
  value : ∀ d, parseDurationEnd s = .ok d →
    ∃ x u, durationNumber s = some (x, u) ∧ d.value = x * u

/-- A tenth of a nanosecond is accepted, and is no time at all. -/
theorem tenth_of_nanosecond : ¬ ∀ s, DurationExact s := by
  intro h
  have hok : parseDurationEnd "0.0000000001".toList = .ok ⟨0, 0⟩ := by decide +kernel
  have hnumber : durationNumber "0.0000000001".toList = some (1 / 10000000000, 1) := by
    decide +kernel
  obtain ⟨x, u, hxu, hvalue⟩ := (h "0.0000000001".toList).value _ hok
  rw [hnumber] at hxu
  obtain ⟨rfl, rfl⟩ := Prod.mk.inj (Option.some.inj hxu)
  norm_num [Duration.value] at hvalue

end CofferFS
