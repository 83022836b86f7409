import CofferFS.Lib.Text

/-!
# Text in UTF-8

`encode` and `decode` between text and its bytes. A byte below 0x80 is always a character of its
own (`byte_mem_encodeChar`), so cutting the bytes at such a byte is cutting the text at that
character: `encode_takeWhile`, `encode_getLast?`.
-/

namespace Text

/-- The bytes of a text. -/
def encode (t : Text) : List UInt8 := t.flatMap String.utf8EncodeChar

/-- `String::from_utf8` -/
def decode (bytes : List UInt8) : Option Text :=
  bytes.toByteArray.utf8Decode?.map Array.toList

variable {t u : Text} {a c : Char} {b : UInt8}

@[simp] theorem encode_nil : encode [] = [] := rfl

theorem encode_cons : encode (c :: t) = String.utf8EncodeChar c ++ encode t := rfl

theorem encode_append : encode (t ++ u) = encode t ++ encode u := List.flatMap_append

@[simp] theorem decode_encode (t : Text) : decode (encode t) = some t := by
  have h : (encode t).toByteArray.utf8Decode? = some t.toArray := List.utf8Decode?_utf8Encode
  rw [decode, h]
  rfl

/-! ## Bytes below 0x80 -/

/-- The byte of an ASCII character. -/
def byte (c : Char) : UInt8 := .ofNat c.toNat

theorem toNat_byte (h : c.toNat < 0x80) : (byte c).toNat = c.toNat := by
  rw [byte, UInt8.toNat_ofNat']
  omega

theorem encodeChar_of_ascii (h : c.toNat < 0x80) : String.utf8EncodeChar c = [byte c] := by
  have hc : c.val.toNat ≤ 0x7f := by
    have : c.toNat = c.val.toNat := rfl
    omega
  simp only [String.utf8EncodeChar, hc, ↓reduceIte]
  rfl

/-- The bytes of a character beyond ASCII are all beyond it. -/
theorem not_ascii_of_mem (hc : 0x80 ≤ c.toNat) (h : b ∈ String.utf8EncodeChar c) :
    0x80 ≤ b.toNat := by
  have hc' : ¬ c.val.toNat ≤ 0x7f := by
    have : c.toNat = c.val.toNat := rfl
    omega
  have hbyte : ∀ {n m k : ℕ}, n < m → 0x80 ≤ k → m + k ≤ 256 →
      0x80 ≤ (UInt8.ofNat (n + k)).toNat := by
    intro n m k hn hk hm
    rw [UInt8.toNat_ofNat']
    omega
  have hmod : ∀ {n m k : ℕ}, 0 < m → 0x80 ≤ k → m + k ≤ 256 →
      0x80 ≤ (UInt8.ofNat (n % m + k)).toNat := fun hm hk hle =>
    hbyte (Nat.mod_lt _ hm) hk hle
  simp only [String.utf8EncodeChar, hc', ↓reduceIte] at h
  split_ifs at h
  all_goals
    simp only [List.mem_cons, List.not_mem_nil, or_false] at h
    rcases h with rfl | rfl | rfl | rfl <;> exact hmod (by decide) (by decide) (by decide)

/-- An ASCII byte stands for its character only. -/
theorem byte_mem_encodeChar (ha : a.toNat < 0x80) :
    byte a ∈ String.utf8EncodeChar c ↔ c = a := by
  constructor
  · intro h
    by_cases hc : c.toNat < 0x80
    · rw [encodeChar_of_ascii hc, List.mem_singleton] at h
      have hnat := congrArg UInt8.toNat h
      rw [toNat_byte ha, toNat_byte hc] at hnat
      exact Char.toNat_inj.1 hnat.symm
    · have := not_ascii_of_mem (not_lt.1 hc) h
      rw [toNat_byte ha] at this
      omega
  · rintro rfl
    rw [encodeChar_of_ascii ha]
    exact List.mem_singleton_self _

/-- Reading up to an ASCII byte is reading up to its character. -/
theorem encode_takeWhile (ha : a.toNat < 0x80) (t : Text) :
    (encode t).takeWhile (· ≠ byte a) = encode (t.takeWhile (· ≠ a)) := by
  induction t with
  | nil => rfl
  | cons c t ih =>
    by_cases hc : c = a
    · subst hc
      simp [encode_cons, encodeChar_of_ascii ha]
    · have hpos : ∀ b ∈ String.utf8EncodeChar c, decide (b ≠ byte a) = true := by
        intro b hb
        rw [decide_eq_true_eq]
        rintro rfl
        exact hc ((byte_mem_encodeChar ha).1 hb)
      rw [encode_cons, List.takeWhile_append_of_pos hpos, ih, List.takeWhile_cons_of_pos (by simp [hc]),
        encode_cons]

theorem byte_mem_encode (ha : a.toNat < 0x80) : byte a ∈ encode t ↔ a ∈ t := by
  simp [encode, List.mem_flatMap, byte_mem_encodeChar ha]

/-- The last byte is an ASCII byte only if the last character is. -/
theorem encode_getLast? (ha : a.toNat < 0x80) :
    (encode t).getLast? = some (byte a) ↔ t.getLast? = some a := by
  induction t using List.reverseRecOn with
  | nil => simp
  | append_singleton t c _ =>
    have hne : String.utf8EncodeChar c ≠ [] := String.utf8EncodeChar_ne_nil
    have hlast : (encode (t ++ [c])).getLast? = (String.utf8EncodeChar c).getLast? := by
      rw [encode_append, encode_cons, encode_nil, List.append_nil,
        List.getLast?_append_of_ne_nil _ hne]
    rw [hlast, List.getLast?_append, List.getLast?_singleton, Option.some_or, Option.some_inj]
    constructor
    · intro h
      exact (byte_mem_encodeChar ha).1 (List.mem_of_getLast? h)
    · rintro rfl
      rw [encodeChar_of_ascii ha]
      rfl

end Text
