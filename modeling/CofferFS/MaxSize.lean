import CofferFS.Config
import CofferFS.Create

/-!
# The ceiling that is asked for

`--max-size` is a text: `parse_size` makes a number of bytes of it, `create_container` stores the
number and `read_max_size` reads it at every mount, where 0 stands for no ceiling at all. On the way
the number goes through an `f64` and a cast that cuts it off, so less than a byte is no ceiling and
large numbers are rounded: `ceiling_exact_iff` says which ones arrive as they are.
-/

namespace CofferFS

open Text Rounding Script Container

/-! ## parse_size -/

def u64Max : ℕ := 2 ^ 64 - 1

/-- `to_uppercase`. A character beyond ASCII stays: with or without it the text is no number. -/
def toUppercase (t : Text) : Text := t.map Char.toUpper

/-- The text before the unit, and the bytes in the unit. -/
def splitSize (s : Text) : Text × ℕ :=
  match s.getLast? with
  | some 'K' => (s.dropLast, 1024)
  | some 'M' => (s.dropLast, 1024 ^ 2)
  | some 'G' => (s.dropLast, 1024 ^ 3)
  | some 'T' => (s.dropLast, 1024 ^ 4)
  | _ => (s, 1)

/-- `as u64`, of a number that is not negative. -/
def castU64 : ParsedF64 → ℕ
  | .finite q => min ⌊q⌋.toNat u64Max
  | .infinite => u64Max
  | .nan => 0

/-- main.rs `parse_size` -/
def parseSize (s : Text) : Option ℕ :=
  match parseF64 (splitSize (toUppercase (trim s))).1 with
  | some (.finite value) =>
    if value < 0 then none
    else some (castU64 (roundF64 (value * (splitSize (toUppercase (trim s))).2)))
  | _ => none

/-- The number of bytes that a text asks for, exactly. -/
def sizeNumber (s : Text) : Option ℚ :=
  (exactNumber (splitSize (toUppercase (trim s))).1).map
    fun q => q * (splitSize (toUppercase (trim s))).2

/-! ## From the command line to the mount -/

/-- The value is what a mount reads as the ceiling of a container that was created for the text. -/
def Reaches (s : Text) (v : ℕ) : Prop :=
  ∃ n password time uid gid readonly exclusive c c', parseSize s = some n ∧
    (createContainer password time uid gid (.ofNat n)).Yields .blank (.ok ()) c ∧
      (openDb readonly exclusive).Yields c (.ok ()) c' ∧ c'.readMaxSize = v

theorem store_of_executeAll {ss : List Statement} {c c' : Container} {u : Unit}
    (hy : (executeAll ss).Yields c (.ok u) c') : c' = afterAll ss c := by
  induction ss generalizing c with
  | nil => exact (yields_pure.1 hy).2
  | cons s rest ih =>
    obtain ⟨u, d, hs, hrest⟩ := hy.bind_ok
    rw [yields_exec_ok] at hs
    rw [afterAll, hs]
    exact ih hrest

/-- Rows with keys of their own are inserted without an error. -/
theorem runs_insertMeta {rows : List (String × String)} {rest : List Statement} {c : Container}
    (hnd : (rows.map Prod.fst).Nodup) (hfree : ∀ row ∈ rows, c.meta.lookup row.1 = none)
    (hrest : ∀ t, (executeAll rest).Runs { c with «meta» := t } (.ok ()) { c with «meta» := t }) :
    ∃ t, (executeAll (rows.map (fun row => insertMeta row.1 row.2) ++ rest)).Runs c (.ok ())
      { c with «meta» := t } := by
  induction rows generalizing c with
  | nil => exact ⟨c.meta, hrest c.meta⟩
  | cons row rows ih =>
    obtain ⟨k, v⟩ := row
    rw [List.map_cons, List.nodup_cons] at hnd
    rw [List.forall_mem_cons] at hfree
    have hinsert : insertMeta k v c = .ok ((), { c with «meta» := c.meta.insert k v }) := by
      rw [insertMeta, AList.insertNew_eq_some_iff.2 ⟨hfree.1, rfl⟩]
    obtain ⟨t, ht⟩ := @ih { c with «meta» := c.meta.insert k v } hnd.2 (fun row hrow => by
      have hne : row.1 ≠ k := fun hk => hnd.1 (List.mem_map.2 ⟨row, hrow, hk⟩)
      show (c.meta.insert k v).lookup row.1 = none
      rw [AList.lookup_insert_ne hne]
      exact hfree.2 row hrow) hrest
    exact ⟨t, Runs.bind (runs_exec_ok hinsert) ht⟩

section Creation

variable {password : Text} {time : CreationTime} {uid gid : UInt32} {maxSize : UInt64}

/-- A creation in which nothing fails succeeds. -/
theorem runs_createContainer : ∃ c,
    (createContainer password time uid gid maxSize).Runs .blank (.ok ()) c := by
  have hnd : ((metaRows time maxSize).map Prod.fst).Nodup :=
    (by decide +kernel : ["schema_version", "created_at", "block_size", "max_size"].Nodup)
  obtain ⟨t, ht⟩ := @runs_insertMeta (metaRows time maxSize)
    [executePragma "PRAGMA journal_mode = WAL;".toList] (laidOut time uid gid) hnd (fun _ _ => rfl)
    fun t => Runs.bind (runs_exec_ok rfl) (runs_pure _)
  refine ⟨{ laidOut time uid gid with «meta» := t }, ?_⟩
  -- the statements before the rows of `meta`
  iterate 11 refine Runs.bind (runs_exec_ok rfl) ?_
  exact ht

theorem exists_created {c : Container}
    (hcreate : (createContainer password time uid gid maxSize).Yields .blank (.ok ()) c) :
    ∃ t, c = { laidOut time uid gid with «meta» := t } ∧
      t.lookup "schema_version" = some schemaVersion ∧
      t.lookup "max_size" = some (toString maxSize.toNat) := by
  have hlen : (createStatements password time uid gid maxSize).length = 16 := rfl
  obtain ⟨t, ht, hlookup⟩ := @exists_interrupted password time uid gid maxSize 16 (by decide)
  refine ⟨t, ?_, (hlookup "schema_version").trans (lookup_version (by decide)),
    (hlookup "max_size").trans (lookup_ceiling (by decide))⟩
  rw [← ht, interrupted_eq, List.take_of_length_le hlen.le]
  exact store_of_executeAll hcreate

/-- A ceiling that was stored is read back by every later open. -/
theorem readMaxSize_created {c c' : Container} {readonly exclusive : Bool}
    (hcreate : (createContainer password time uid gid maxSize).Yields .blank (.ok ()) c)
    (hopen : (openDb readonly exclusive).Yields c (.ok ()) c') :
    c'.readMaxSize = maxSize.toNat := by
  obtain ⟨t, rfl, hversion, hceiling⟩ := exists_created hcreate
  rw [openDb_laidOut hversion hopen]
  exact @readMaxSize_laidOut time uid gid maxSize 16 t hceiling

end Creation

theorem castU64_le (v : ParsedF64) : castU64 v ≤ u64Max := by
  cases v with
  | finite q => exact min_le_right _ _
  | infinite => exact le_rfl
  | nan => exact Nat.zero_le _

theorem parseSize_le {s : Text} {n : ℕ} (h : parseSize s = some n) : n ≤ u64Max := by
  unfold parseSize at h
  split at h
  · split_ifs at h
    exact Option.some.inj h ▸ castU64_le _
  · cases h

/-- **A ceiling that is asked for is read back as it was parsed.** -/
theorem reaches_iff {s : Text} {v : ℕ} : Reaches s v ↔ parseSize s = some v := by
  have hback {n : ℕ} (hn : parseSize s = some n) : (UInt64.ofNat n).toNat = n := by
    have hle := parseSize_le hn
    have hmax : u64Max = 2 ^ 64 - 1 := rfl
    rw [UInt64.toNat_ofNat', Nat.mod_eq_of_lt (by omega)]
  constructor
  · intro h
    obtain ⟨n, password, time, uid, gid, readonly, exclusive, c, c', hn, hcreate, hopen, hv⟩ := h
    rw [← hv, readMaxSize_created hcreate hopen, hback hn, hn]
  · intro h
    obtain ⟨c, hcreate⟩ := @runs_createContainer [] ⟨0, "0"⟩ 0 0 (.ofNat v)
    obtain ⟨t, rfl, hversion, -⟩ := exists_created hcreate.yields
    have hopen := (@runs_openDb_laidOut ⟨0, "0"⟩ 0 0 t hversion).yields
    have hv := (readMaxSize_created hcreate.yields hopen).trans (hback h)
    exact ⟨v, [], ⟨0, "0"⟩, 0, 0, false, false, _, _, h, hcreate.yields, hopen, hv⟩

/-! ## What the rounding does -/

/-- The condition for the whole part of a number from 1 on to survive the rounding to 53 bits and the
cast: below `2 ^ 52` the fraction stays further than half of the last place from the next integer,
below `2 ^ 53` the number is not rounded up, and from there on the whole part is a multiple of the
last place, or as large as a `u64` can be. -/
def KeepsFloor (N : ℚ) : Prop :=
  if N < 2 ^ 52 then N < ⌊N⌋ + 1 - 2 ^ (Int.log 2 N - 52) / 2
  else if N < 2 ^ 53 then N < ⌊N⌋ + 1 / 2 ∨ N = ⌊N⌋ + 1 / 2 ∧ ⌊N⌋ % 2 = 0
  else 2 ^ (Int.log 2 N - 52).toNat ∣ ⌊N⌋ ∨ u64Max ≤ N

section Rounded

variable {N x : ℚ} {s : Text} {n : ℕ}

/-- The product with the unit is not rounded again. -/
theorem castU64_roundF64 (hx : 0 ≤ x) (i : ℕ) :
    castU64 (roundF64 (gradual 53 (-1074) x * 2 ^ i)) =
      min ⌊gradual 53 (-1074) x * 2 ^ i⌋.toNat u64Max := by
  have hscale := @gradual_scale 53 x (-1074) (by norm_num) hx i
  have hnonneg : 0 ≤ gradual 53 (-1074) x * 2 ^ i :=
    mul_nonneg (gradual_nonneg hx) (pow_nonneg zero_le_two i)
  rw [roundF64, hscale]
  split_ifs with hinf
  · rw [abs_of_nonneg hnonneg] at hinf
    have hlarge : (u64Max : ℤ) ≤ ⌊gradual 53 (-1074) x * 2 ^ i⌋ := by
      have hmax : ((u64Max : ℤ) : ℚ) ≤ 2 ^ 64 := by norm_num [u64Max]
      rw [Int.le_floor]
      exact (hmax.trans (pow_le_pow_right₀ one_le_two (by norm_num))).trans hinf
    rw [min_eq_right (by omega)]
    rfl
  · rfl

/-- Underflow does not show in the whole part. -/
theorem floor_gradual (hx : 0 < x) {i : ℕ} (hi : i ≤ 40) :
    ⌊gradual 53 (-1074) x * 2 ^ i⌋ = ⌊nearest 53 (x * 2 ^ i)⌋ := by
  by_cases hnormal : -1074 ≤ place 53 x
  · have hscale := @nearest_scale 53 x hx i
    rw [zpow_natCast] at hscale
    rw [gradual_of_le hnormal, hscale]
  · have htiny : x ≤ ((1 : ℤ) : ℚ) * 2 ^ (-1022 : ℤ) := by
      have h := (@place_le_iff 53 x (-1075) hx).1 (by omega)
      rw [Int.cast_one, one_mul]
      exact h.le
    -- both numbers are below one
    have hzero {y : ℚ} (hy₀ : 0 ≤ y) (hy : y ≤ 2 ^ (-982 : ℤ)) : ⌊y⌋ = 0 := by
      have hone : (2 : ℚ) ^ (-982 : ℤ) < 1 := zpow_lt_one_of_neg₀ one_lt_two (by norm_num)
      rw [Int.floor_eq_zero_iff]
      exact ⟨hy₀, hy.trans_lt hone⟩
    have hscaled {y : ℚ} (hy : y ≤ 2 ^ (-1022 : ℤ)) : y * 2 ^ i ≤ 2 ^ (-982 : ℤ) := by
      have hpow : (2 : ℚ) ^ (-982 : ℤ) = 2 ^ (-1022 : ℤ) * 2 ^ 40 := by
        rw [← zpow_natCast, ← zpow_add₀ two_ne_zero]
        norm_num
      rw [hpow]
      exact mul_le_mul hy (pow_le_pow_right₀ one_le_two hi) (by positivity) (by positivity)
    have hgradual : gradual 53 (-1074) x ≤ 2 ^ (-1022 : ℤ) := by
      have h := @near_le_mul x (max (place 53 x) (-1074)) (-1022) 1 (max_le (by omega) (by norm_num))
        htiny
      rwa [Int.cast_one, one_mul] at h
    have hnearest : nearest 53 (x * 2 ^ i) ≤ 2 ^ (-982 : ℤ) := by
      rw [← @nearest_zpow 53 (by norm_num) (-982)]
      rw [Int.cast_one, one_mul] at htiny
      exact nearest_mono (by norm_num) (by positivity) (hscaled htiny)
    rw [hzero (mul_nonneg (gradual_nonneg hx.le) (by positivity)) (hscaled hgradual),
      hzero (nearest_nonneg (by positivity)) hnearest]

theorem exists_splitSize (t : Text) : ∃ i ≤ 40, (splitSize t).2 = 2 ^ i := by
  rw [splitSize]
  split
  · exact ⟨10, by norm_num, by norm_num⟩
  · exact ⟨20, by norm_num, by norm_num⟩
  · exact ⟨30, by norm_num, by norm_num⟩
  · exact ⟨40, by norm_num, by norm_num⟩
  · exact ⟨0, by norm_num, by norm_num⟩

/-- **The ceiling is the whole part of the number rounded to 53 bits**, saturated. -/
theorem parseSize_eq (hs : parseSize s = some n) (hN : sizeNumber s = some N) (hpos : 0 < N) :
    (n : ℤ) = min ⌊nearest 53 N⌋ u64Max := by
  obtain ⟨x, hx, rfl⟩ := Option.map_eq_some_iff.1 hN
  obtain ⟨i, hi, hunit⟩ := exists_splitSize (toUppercase (trim s))
  have hx₀ : 0 < x := by
    rw [hunit] at hpos
    exact (mul_pos_iff_of_pos_right (by positivity)).1 hpos
  unfold parseSize at hs
  split at hs
  · next value hvalue =>
    obtain ⟨q, hq, hround⟩ := exactNumber_of_parseF64 hvalue
    rw [hx] at hq
    cases hq
    obtain rfl := (roundF64_eq_finite_iff.1 hround).1
    split_ifs at hs
    have hfloor := floor_gradual hx₀ hi
    have hnonneg : 0 ≤ ⌊nearest 53 (x * 2 ^ i)⌋ := Int.floor_nonneg.2 (nearest_nonneg (by positivity))
    rw [hunit, Nat.cast_pow, Nat.cast_ofNat, castU64_roundF64 hx₀.le, hfloor] at hs
    rw [hunit, Nat.cast_pow, Nat.cast_ofNat, ← Option.some.inj hs]
    omega
  · cases hs

/-- The largest number of a `u64` is rounded up. -/
theorem u64Max_le_floor_nearest (h : u64Max ≤ N) : (u64Max : ℤ) ≤ ⌊nearest 53 N⌋ := by
  have hmax : (u64Max : ℚ) = 2 ^ 64 - 1 := by norm_num [u64Max]
  have hlow : (2 : ℚ) ^ (63 : ℤ) ≤ N := by
    rw [hmax] at h
    norm_num at h ⊢
    linarith
  have hpos : 0 < N := lt_of_lt_of_le (by positivity) hlow
  have hlog : 63 ≤ Int.log 2 N := (le_log_iff hpos).2 hlow
  have hlarge : (2 : ℚ) ^ (64 : ℤ) ≤ nearest 53 N := by
    rcases hlog.eq_or_lt with heq | hlt
    · have hplace : place 53 N = 11 := by
        rw [place, abs_of_pos hpos, ← heq]
        norm_num
      have hround : 2 ^ 53 ≤ halfEven (N / 2 ^ (11 : ℤ)) := by
        rw [le_halfEven_iff]
        refine .inl ?_
        rw [lt_div_iff₀ (by positivity)]
        rw [hmax] at h
        norm_num at h ⊢
        linarith
      have hcast : ((2 ^ 53 : ℤ) : ℚ) ≤ (halfEven (N / 2 ^ (11 : ℤ)) : ℚ) := by exact_mod_cast hround
      rw [nearest, near, hplace]
      push_cast at hcast
      calc (2 : ℚ) ^ (64 : ℤ) = 2 ^ 53 * 2 ^ (11 : ℤ) := by norm_num
        _ ≤ halfEven (N / 2 ^ (11 : ℤ)) * 2 ^ (11 : ℤ) :=
          mul_le_mul_of_nonneg_right hcast (by positivity)
    · exact (zpow_le_zpow_right₀ one_le_two hlt).trans (zpow_log_le_nearest (by norm_num) hpos)
  rw [Int.le_floor, Int.cast_natCast, hmax]
  norm_num at hlarge ⊢
  linarith

/-- **When the whole part survives.** -/
theorem min_floor_nearest_iff (hN : 1 ≤ N) :
    min ⌊nearest 53 N⌋ (u64Max : ℤ) = min ⌊N⌋ (u64Max : ℤ) ↔ KeepsFloor N := by
  have hmax : (u64Max : ℤ) = 2 ^ 64 - 1 := by norm_num [u64Max]
  have hpos : 0 < N := one_pos.trans_le hN
  have hplace : place 53 N = Int.log 2 N - 52 := by
    rw [place, abs_of_pos hpos]
    norm_num
  have hup := @nearest_le_zpow_log 53 N hpos
  have hsmall {k : ℕ} (hk : k ≤ 53) (h : N < 2 ^ k) :
      min ⌊nearest 53 N⌋ (u64Max : ℤ) = min ⌊N⌋ (u64Max : ℤ) ↔ ⌊nearest 53 N⌋ = ⌊N⌋ := by
    have hpow : (2 : ℚ) ^ k ≤ ((2 ^ 53 : ℤ) : ℚ) := by
      push_cast
      exact pow_le_pow_right₀ one_le_two hk
    have hlog := (log_lt_iff hpos).2 (by simpa using h : N < 2 ^ (k : ℤ))
    have hround : nearest 53 N ≤ 2 ^ k := by
      rw [← zpow_natCast]
      exact hup.trans (zpow_le_zpow_right₀ one_le_two (by omega))
    have hfloor : ⌊N⌋ < 2 ^ 53 := Int.floor_lt.2 (h.trans_le hpow)
    have hfloor' : ⌊nearest 53 N⌋ ≤ 2 ^ 53 :=
      (Int.floor_mono (hround.trans hpow)).trans_eq (Int.floor_intCast _)
    omega
  unfold KeepsFloor
  split_ifs with h₁ h₂
  · rw [hsmall (by norm_num) h₁, ← hplace]
    refine floor_nearest_of_place_neg ?_
    have h := (log_lt_iff hpos).2 (by simpa using h₁ : N < 2 ^ (52 : ℤ))
    omega
  · rw [hsmall (by norm_num) h₂]
    refine floor_nearest_of_place_zero ?_
    have h := (log_lt_iff hpos).2 (by simpa using h₂ : N < 2 ^ (53 : ℤ))
    have h' := (le_log_iff hpos).2 (by simpa using h₁ : 2 ^ (52 : ℤ) ≤ N)
    omega
  · have hlog := (le_log_iff hpos).2 (by simpa using h₂ : 2 ^ (53 : ℤ) ≤ N)
    by_cases hsat : (u64Max : ℚ) ≤ N
    · have hfloor : (u64Max : ℤ) ≤ ⌊N⌋ := Int.le_floor.2 (by simpa using hsat)
      rw [min_eq_right (u64Max_le_floor_nearest hsat), min_eq_right hfloor]
      exact iff_of_true rfl (.inr hsat)
    · have hfloor : ⌊N⌋ < u64Max := Int.floor_lt.2 (by simpa using hsat)
      obtain ⟨i, hi⟩ := Int.le.dest hlog
      have hi' : (Int.log 2 N - 52).toNat = i + 1 := by omega
      rw [hi', or_iff_left hsat, ← floor_nearest_of_place_pos (by omega : place 53 N = i + 1)]
      omega

end Rounded

/-! ## The result -/

/-- What is asked for arrives: it is a ceiling, the whole number of bytes, and larger numbers give no
smaller ceilings. -/
def Kept (N : ℚ) (v : ℕ) : Prop :=
  (0 < v ∧ (v : ℤ) = min ⌊N⌋ u64Max) ∧
    ∀ s' v' N', Reaches s' v' → sizeNumber s' = some N' → N ≤ N' → v ≤ v'

/-- **A ceiling that is asked for arrives as it is if and only if it is at least one byte and its
whole part survives the rounding.** -/
theorem ceiling_exact_iff {s : Text} {v : ℕ} {N : ℚ} (h : Reaches s v) (hN : sizeNumber s = some N)
    (hpos : 0 < N) : Kept N v ↔ 1 ≤ N ∧ KeepsFloor N := by
  have hv := parseSize_eq (reaches_iff.1 h) hN hpos
  have hmono : ∀ s' v' N', Reaches s' v' → sizeNumber s' = some N' → N ≤ N' → v ≤ v' := by
    intro s' v' N' h' hN' hle
    have hv' := parseSize_eq (reaches_iff.1 h') hN' (hpos.trans_le hle)
    have hfloor := Int.floor_mono (@nearest_mono 53 N N' (by norm_num) hpos.le hle)
    omega
  rw [Kept, and_iff_left hmono, hv]
  constructor
  · intro hkept
    obtain ⟨hv₀, hfloor⟩ := hkept
    have hone : 1 ≤ ⌊N⌋ := by omega
    have hN₁ : 1 ≤ N := by simpa using Int.le_floor.1 hone
    exact ⟨hN₁, (min_floor_nearest_iff hN₁).1 hfloor⟩
  · intro hcond
    obtain ⟨hN₁, hkeeps⟩ := hcond
    have hfloor := (min_floor_nearest_iff hN₁).2 hkeeps
    have hone : 1 ≤ ⌊N⌋ := Int.le_floor.2 (by simpa using hN₁)
    have hmax : (u64Max : ℤ) = 2 ^ 64 - 1 := by norm_num [u64Max]
    exact ⟨by omega, hfloor⟩

/-- A container is created with a ceiling of a kilobyte. -/
theorem ceiling_exact_kilobyte : Kept 1024 1024 ↔ (1 : ℚ) ≤ 1024 ∧ KeepsFloor 1024 := by
  have hnumber : sizeNumber "1K".toList = some 1024 := by decide +kernel
  have hparse : parseSize "1K".toList = some 1024 := by decide +kernel
  exact ceiling_exact_iff (reaches_iff.2 hparse) hnumber (by norm_num)

/-- Half a byte is no ceiling at all. -/
theorem half_byte_unlimited :
    ¬ ∀ s v N, Reaches s v → sizeNumber s = some N → 0 < N → Kept N v := by
  intro h
  have hnumber : sizeNumber "0.5".toList = some (1 / 2) := by decide +kernel
  have hparse : parseSize "0.5".toList = some 0 := by decide +kernel
  have hkept := h _ _ _ (reaches_iff.2 hparse) hnumber (by norm_num)
  exact absurd hkept.1.1 (lt_irrefl 0)

end CofferFS
