import Mathlib.Data.List.TakeWhile

/-!
# Lossy UTF-8

`lossy` makes valid UTF-8 of arbitrary bytes: it takes one character after the other, and what is
no character, up to the first byte that rules one out, becomes U+FFFD.
-/

namespace Utf8

/-- The length of a character with the given first byte, 0 if there is none. -/
def width (a : UInt8) : ℕ :=
  if a.toNat ≤ 0x7F then 1
  else if 0xC2 ≤ a.toNat ∧ a.toNat ≤ 0xDF then 2
  else if 0xE0 ≤ a.toNat ∧ a.toNat ≤ 0xEF then 3
  else if 0xF0 ≤ a.toNat ∧ a.toNat ≤ 0xF4 then 4
  else 0

/-- A byte that continues a character. -/
def tail (b : UInt8) : Bool := 0x80 ≤ b.toNat && b.toNat ≤ 0xBF

/-- The bytes that may come second. -/
def second (a b : UInt8) : Bool :=
  if a = 0xE0 then 0xA0 ≤ b.toNat && b.toNat ≤ 0xBF
  else if a = 0xED then 0x80 ≤ b.toNat && b.toNat ≤ 0x9F
  else if a = 0xF0 then 0x90 ≤ b.toNat && b.toNat ≤ 0xBF
  else if a = 0xF4 then 0x80 ≤ b.toNat && b.toNat ≤ 0x8F
  else tail b

/-- How many of the bytes after `a` go with it. -/
def follow (a : UInt8) : List UInt8 → ℕ
  | [] => 0
  | b :: rest =>
    if 2 ≤ width a ∧ second a b then 1 + ((rest.take (width a - 2)).takeWhile tail).length else 0

/-- `a` and the bytes that go with it are a character. -/
def isChar (a : UInt8) (rest : List UInt8) : Bool := follow a rest + 1 = width a

/-- U+FFFD -/
def replacement : List UInt8 := [0xEF, 0xBF, 0xBD]

/-- What the bytes are displayed as. -/
def lossy : List UInt8 → List UInt8
  | [] => []
  | a :: rest =>
    (if isChar a rest then a :: rest.take (follow a rest) else replacement) ++
      lossy (rest.drop (follow a rest))
termination_by l => l.length
decreasing_by
  rw [List.length_drop, List.length_cons]
  omega

/-- The bytes are valid UTF-8. -/
def valid : List UInt8 → Bool
  | [] => true
  | a :: rest => isChar a rest && valid (rest.drop (follow a rest))
termination_by l => l.length
decreasing_by
  rw [List.length_drop, List.length_cons]
  omega

variable {a b : UInt8} {rest : List UInt8}

theorem lossy_nil : lossy [] = [] := by rw [lossy]

theorem lossy_cons_of_isChar (h : isChar a rest = true) : lossy (a :: rest) =
    a :: (rest.take (follow a rest) ++ lossy (rest.drop (follow a rest))) := by
  rw [lossy, if_pos h, List.cons_append]

theorem lossy_cons_of_not_isChar (h : isChar a rest = false) : lossy (a :: rest) =
    0xEF :: 0xBF :: 0xBD :: lossy (rest.drop (follow a rest)) := by
  rw [lossy, if_neg (by simp [h])]
  rfl

/-- Valid bytes are displayed as they are. -/
theorem lossy_of_valid {l : List UInt8} (h : valid l = true) : lossy l = l := by
  fun_induction valid l with
  | case1 => exact lossy_nil
  | case2 a rest ih =>
    rw [Bool.and_eq_true] at h
    rw [lossy_cons_of_isChar h.1, ih h.2, List.take_append_drop]

/-! ## Characters -/

theorem follow_of_ascii (h : a.toNat ≤ 0x7F) : follow a rest = 0 := by
  have hwidth : width a = 1 := if_pos h
  cases rest with
  | nil => rfl
  | cons b rest => rw [follow, hwidth, if_neg (by omega)]

theorem isChar_of_ascii (h : a.toNat ≤ 0x7F) : isChar a rest = true := by
  have hwidth : width a = 1 := if_pos h
  rw [isChar, follow_of_ascii h, hwidth]
  rfl

/-- An ASCII byte is displayed as it is. -/
theorem lossy_cons_of_ascii (h : a.toNat ≤ 0x7F) : lossy (a :: rest) = a :: lossy rest := by
  rw [lossy_cons_of_isChar (isChar_of_ascii h), follow_of_ascii h]
  rfl

theorem valid_cons_of_ascii (h : a.toNat ≤ 0x7F) : valid (a :: rest) = valid rest := by
  rw [valid, isChar_of_ascii h, follow_of_ascii h, Bool.true_and, List.drop_zero]

theorem not_ascii_of_tail (h : tail b = true) : 0x80 ≤ b.toNat := by
  rw [tail, Bool.and_eq_true, decide_eq_true_eq] at h
  exact h.1

theorem not_ascii_of_second (h : second a b = true) : 0x80 ≤ b.toNat := by
  unfold second at h
  split_ifs at h
  all_goals first | exact not_ascii_of_tail h | skip
  all_goals
    rw [Bool.and_eq_true, decide_eq_true_eq] at h
    omega

/-- The bytes that go with another are not ASCII. -/
theorem not_ascii_of_mem_follow (h : b ∈ rest.take (follow a rest)) : 0x80 ≤ b.toNat := by
  cases rest with
  | nil => cases h
  | cons c rest =>
    rw [follow] at h
    split_ifs at h with hsecond
    · rw [Nat.add_comm, List.take_succ_cons] at h
      rcases List.mem_cons.1 h with rfl | hmem
      · exact not_ascii_of_second hsecond.2
      · have hprefix : (rest.take (width a - 2)).takeWhile tail =
            rest.take ((rest.take (width a - 2)).takeWhile tail).length :=
          List.prefix_iff_eq_take.1 ((List.takeWhile_prefix _).trans (List.take_prefix _ _))
        rw [← hprefix] at hmem
        exact not_ascii_of_tail (List.mem_takeWhile_imp hmem)
    · cases h

theorem isChar_replacement : isChar 0xEF (0xBF :: 0xBD :: rest) = true := by
  rfl

end Utf8
