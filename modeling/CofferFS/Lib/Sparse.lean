import Mathlib.Algebra.Notation.Defs
import Mathlib.Algebra.Order.BigOperators.Group.Finset
import Mathlib.Data.List.GetD
import Mathlib.Data.List.Range
import Mathlib.Logic.Function.Basic
import Mathlib.Tactic.Common

/-!
# Arrays in sparse blocks

An array of any length is kept in blocks of `B` elements. A block may be missing or too short;
what is not there is zero. `contents` is the array that the blocks stand for, given its length.

The array side comes first: `splice` overwrites a range, `resize` cuts or extends. Then `contents`
turns writing a chunk to one block into a `splice`, and cutting the blocks into a `resize`,
provided that no block reaches past the end of the array (`Fits`).
-/

namespace Sparse

variable {α : Type*} [Zero α]

/-! ## Arrays -/

/-- Overwrite `c` with `d` from `off` on. A gap before `off` is filled with zeros. -/
def splice (c : List α) (off : ℕ) (d : List α) : List α :=
  (c ++ List.replicate (off - c.length) 0).take off ++ d ++ c.drop (off + d.length)

/-- Cut `c` to `n` elements, or extend it with zeros. -/
def resize (c : List α) (n : ℕ) : List α := c.take n ++ List.replicate (n - c.length) 0

variable {c d d' : List α} {off n i : ℕ}

theorem length_splice : (splice c off d).length = max c.length (off + d.length) := by
  simp [splice]
  omega

theorem length_resize : (resize c n).length = n := by
  simp [resize]
  omega

theorem getD_eq_zero (h : c.length ≤ i) : c.getD i 0 = 0 := List.getD_eq_default c 0 h

/-- Arrays of one length are equal if their elements are. -/
theorem ext_getD (hlen : c.length = d.length) (h : ∀ i, c.getD i 0 = d.getD i 0) : c = d := by
  apply List.ext_getElem hlen
  intro i hi hi'
  have hi'' := h i
  rwa [List.getD_eq_getElem c 0 hi, List.getD_eq_getElem d 0 hi'] at hi''

theorem getD_take : (c.take n).getD i 0 = if i < n then c.getD i 0 else 0 := by
  simp only [List.getD_eq_getElem?_getD, List.getElem?_take]
  split_ifs <;> rfl

theorem getD_drop : (c.drop n).getD i 0 = c.getD (n + i) 0 := by
  simp only [List.getD_eq_getElem?_getD, List.getElem?_drop]

theorem getD_append :
    (c ++ d).getD i 0 = if i < c.length then c.getD i 0 else d.getD (i - c.length) 0 := by
  split_ifs with h
  · exact List.getD_append c d 0 i h
  · exact List.getD_append_right c d 0 i (Nat.le_of_not_lt h)

theorem getD_replicate : (List.replicate n (0 : α)).getD i 0 = 0 := by
  simp only [List.getD_eq_getElem?_getD, List.getElem?_replicate]
  split_ifs <;> rfl

theorem getD_splice : (splice c off d).getD i 0 =
    if off ≤ i ∧ i < off + d.length then d.getD (i - off) 0 else c.getD i 0 := by
  have hhead : ((c ++ List.replicate (off - c.length) 0).take off).length = off := by
    simp
    omega
  rw [splice, List.append_assoc, getD_append, hhead]
  by_cases hlo : i < off
  · -- before the range
    rw [if_pos hlo, if_neg (by omega), getD_take, if_pos hlo, getD_append]
    split_ifs with hi
    · rfl
    · rw [getD_replicate, getD_eq_zero (by omega)]
  · rw [if_neg hlo, getD_append]
    by_cases hhi : i - off < d.length
    · rw [if_pos hhi, if_pos (by omega)]
    · -- after the range
      rw [if_neg hhi, if_neg (by omega), getD_drop]
      congr 1
      omega

theorem getD_resize : (resize c n).getD i 0 = if i < n then c.getD i 0 else 0 := by
  rw [resize, getD_append, getD_take, getD_replicate, List.length_take]
  by_cases hn : i < n
  · by_cases hc : i < c.length
    · rw [if_pos (by omega)]
    · rw [if_neg (by omega), if_pos hn, getD_eq_zero (by omega)]
  · rw [if_neg (by omega), if_neg hn]

theorem splice_end : splice c c.length d = c ++ d := by
  simp [splice]

/-- Writing two adjacent ranges is writing one. -/
theorem splice_splice : splice (splice c off d) (off + d.length) d' = splice c off (d ++ d') := by
  apply ext_getD
  · simp only [length_splice, List.length_append]
    omega
  · intro i
    rw [getD_splice, getD_splice, getD_splice, getD_append, List.length_append]
    by_cases hlo : i < off
    · rw [if_neg (by omega), if_neg (by omega), if_neg (by omega)]
    · by_cases hd : i < off + d.length
      · rw [if_neg (by omega), if_pos (by omega), if_pos (by omega), if_pos (by omega)]
      · by_cases hd' : i < off + d.length + d'.length
        · rw [if_pos (by omega), if_pos (by omega), if_neg (by omega)]
          congr 1
          omega
        · rw [if_neg (by omega), if_neg (by omega), if_neg (by omega)]

/-! ## Blocks -/

/-- The element at `i`. -/
def get (B : ℕ) (s : ℕ → List α) (i : ℕ) : α := (s (i / B)).getD (i % B) 0

/-- The array of length `size` that the blocks hold. -/
def contents (B : ℕ) (s : ℕ → List α) (size : ℕ) : List α := (List.range size).map (get B s)

/-- No block is too long or reaches past `size`. -/
structure Fits (B : ℕ) (s : ℕ → List α) (size : ℕ) : Prop where
  length_le : ∀ b, (s b).length ≤ B
  le_size : ∀ b, s b ≠ [] → b * B + (s b).length ≤ size

variable {B size pos : ℕ} {s s' : ℕ → List α}

theorem length_contents : (contents B s size).length = size := by
  simp [contents]

theorem Fits.get_eq_zero (h : Fits B s size) (hi : size ≤ i) : get B s i = 0 := by
  by_cases hnil : s (i / B) = []
  · rw [get, hnil]
    rfl
  · have hle := h.le_size _ hnil
    have hdiv := Nat.div_add_mod' i B
    exact getD_eq_zero (by omega)

theorem Fits.getD_contents (h : Fits B s size) : (contents B s size).getD i 0 = get B s i := by
  by_cases hi : i < size
  · rw [List.getD_eq_getElem _ 0 (by rwa [length_contents])]
    simp [contents]
  · rw [getD_eq_zero (by rw [length_contents]; omega), h.get_eq_zero (by omega)]

/-- The array is known by its length and its elements. -/
theorem Fits.contents_eq (h : Fits B s size) (hlen : c.length = size)
    (hget : ∀ i, get B s i = c.getD i 0) : contents B s size = c := by
  apply ext_getD
  · rw [length_contents, hlen]
  · intro i
    rw [h.getD_contents, hget]

omit [Zero α] in
theorem fits_empty : Fits B (fun _ => ([] : List α)) size :=
  ⟨fun _ => Nat.zero_le _, fun _ h => (h rfl).elim⟩

omit [Zero α] in
theorem Fits.mono (h : Fits B s size) {size' : ℕ} (hle : size ≤ size') : Fits B s size' :=
  ⟨h.length_le, fun b hb => (h.le_size b hb).trans hle⟩

omit [Zero α] in
/-- The first `n` blocks hold at most what lies below `n * B` and below the end of the array. -/
theorem Fits.sum_range_le (h : Fits B s size) (n : ℕ) :
    ∑ b ∈ Finset.range n, (s b).length ≤ min size (n * B) := by
  induction n with
  | zero => simp
  | succ n ih =>
    rw [Finset.sum_range_succ, Nat.add_mul, Nat.one_mul]
    by_cases hnil : s n = []
    · rw [hnil, List.length_nil]
      omega
    · have hlen := h.length_le n
      have hend := h.le_size n hnil
      omega

omit [Zero α] in
/-- Blocks that fit hold no more than the array. -/
theorem Fits.sum_length_le (h : Fits B s size) (t : Finset ℕ) :
    ∑ b ∈ t, (s b).length ≤ size := by
  have hsub : t ⊆ Finset.range (t.sup id + 1) := fun b hb =>
    Finset.mem_range.2 (Nat.lt_succ_of_le (Finset.le_sup (f := id) hb))
  calc ∑ b ∈ t, (s b).length
      ≤ ∑ b ∈ Finset.range (t.sup id + 1), (s b).length := Finset.sum_le_sum_of_subset hsub
    _ ≤ size := (h.sum_range_le _).trans (Nat.min_le_left _ _)

/-! ### Writing to a block -/

/-- Writing a chunk to the block it belongs to writes it to the array. -/
theorem get_update_splice (hfit : pos % B + d.length ≤ B) :
    get B (Function.update s (pos / B) (splice (s (pos / B)) (pos % B) d)) i =
      if pos ≤ i ∧ i < pos + d.length then d.getD (i - pos) 0 else get B s i := by
  have hpos := Nat.div_add_mod' pos B
  have hi := Nat.div_add_mod' i B
  by_cases hb : i / B = pos / B
  · rw [get, hb, Function.update_self, getD_splice, get, hb]
    rw [hb] at hi
    have hsub : i % B - pos % B = i - pos := by omega
    rw [hsub]
    by_cases hin : pos ≤ i ∧ i < pos + d.length
    · rw [if_pos hin, if_pos (by omega)]
    · rw [if_neg hin, if_neg (by omega)]
  · rw [get, Function.update_of_ne hb, if_neg]
    · rfl
    · -- the chunk does not leave its block
      rintro ⟨hlo, hhi⟩
      apply hb
      have hBpos : 0 < B := by omega
      apply Nat.le_antisymm
      · apply Nat.le_of_lt_succ
        rw [Nat.div_lt_iff_lt_mul hBpos, Nat.succ_mul]
        omega
      · exact Nat.div_le_div_right hlo

theorem Fits.update_splice (h : Fits B s size) (hfit : pos % B + d.length ≤ B) :
    Fits B (Function.update s (pos / B) (splice (s (pos / B)) (pos % B) d))
      (max size (pos + d.length)) := by
  have hpos := Nat.div_add_mod' pos B
  constructor
  case length_le =>
    intro b
    by_cases hb : b = pos / B
    · rw [hb, Function.update_self, length_splice]
      exact max_le (h.length_le _) hfit
    · rw [Function.update_of_ne hb]
      exact h.length_le b
  case le_size =>
    intro b hne
    by_cases hb : b = pos / B
    · rw [hb, Function.update_self, length_splice]
      by_cases hnil : s (pos / B) = []
      · rw [hnil, List.length_nil]
        omega
      · have hle := h.le_size _ hnil
        omega
    · rw [Function.update_of_ne hb] at hne ⊢
      exact (h.le_size b hne).trans (le_max_left _ _)

theorem Fits.contents_update_splice (h : Fits B s size) (hfit : pos % B + d.length ≤ B) :
    contents B (Function.update s (pos / B) (splice (s (pos / B)) (pos % B) d))
      (max size (pos + d.length)) = splice (contents B s size) pos d := by
  apply (h.update_splice hfit).contents_eq
  · rw [length_splice, length_contents]
  · intro i
    rw [get_update_splice hfit, getD_splice, h.getD_contents]

/-- Writing nothing past the end extends the array. -/
theorem Fits.contents_splice_nil (h : Fits B s size) :
    contents B s (max size (pos + ([] : List α).length)) = splice (contents B s size) pos [] := by
  apply (h.mono (le_max_left _ _)).contents_eq
  · rw [length_splice, length_contents]
  · intro i
    rw [getD_splice, h.getD_contents, List.length_nil, if_neg (by omega)]

/-! ### Cutting the blocks -/

/-- What is left of the blocks below `n`. -/
def cut (B : ℕ) (s : ℕ → List α) (n b : ℕ) : List α :=
  if n / B < b then [] else if b = n / B then (s b).take (n % B) else s b

theorem get_cut : get B (cut B s n) i = if i < n then get B s i else 0 := by
  have hn := Nat.div_add_mod' n B
  have hi := Nat.div_add_mod' i B
  rw [get, cut]
  by_cases hlt : n / B < i / B
  · have hni : ¬ i < n := fun h => hlt.not_ge (Nat.div_le_div_right h.le)
    rw [if_pos hlt, if_neg hni]
    rfl
  · rw [if_neg hlt]
    by_cases heq : i / B = n / B
    · rw [if_pos heq, getD_take]
      rw [heq] at hi
      by_cases hin : i < n
      · rw [if_pos hin, if_pos (by omega)]
        rfl
      · rw [if_neg hin, if_neg (by omega)]
    · rw [if_neg heq, if_pos]
      · rfl
      · by_contra hge
        have hle := Nat.div_le_div_right (c := B) (Nat.le_of_not_lt hge)
        omega

omit [Zero α] in
theorem fits_cut (h : ∀ b, (s b).length ≤ B) : Fits B (cut B s n) n := by
  have hn := Nat.div_add_mod' n B
  constructor
  case length_le =>
    intro b
    rw [cut]
    split_ifs
    · exact Nat.zero_le _
    · rw [List.length_take]
      exact (min_le_right _ _).trans (h b)
    · exact h b
  case le_size =>
    intro b hne
    rw [cut] at hne ⊢
    split_ifs at hne ⊢ with hlt heq
    · exact (hne rfl).elim
    · rw [heq, List.length_take]
      omega
    · -- a block below the last one is whole
      have hb := h b
      have hmul : (b + 1) * B ≤ n / B * B := Nat.mul_le_mul_right B (by omega)
      rw [Nat.succ_mul] at hmul
      omega

theorem Fits.contents_cut (h : Fits B s size) :
    contents B (cut B s n) n = resize (contents B s size) n := by
  apply (fits_cut h.length_le).contents_eq length_resize
  intro i
  rw [get_cut, getD_resize, h.getD_contents]

/-! ### Reading -/

theorem slice_contents : ((contents B s size).drop pos).take n =
    (List.range' pos (min n (size - pos))).map (get B s) := by
  apply List.ext_getElem
  · simp [contents]
  · intro i hi hi'
    simp [contents]

/-- The part of one block that a read takes. -/
theorem range_map_get (hfit : pos % B + n ≤ B) :
    (List.range' pos n).map (get B s) =
      (List.range' (pos % B) n).map fun i => (s (pos / B)).getD i 0 := by
  have hpos := Nat.div_add_mod' pos B
  apply List.ext_getElem
  · simp
  · intro i hi _
    have hin : i < n := by simpa using hi
    have hsum : pos + i = pos / B * B + (pos % B + i) := by omega
    have hmod : (pos + i) % B = pos % B + i := by
      rw [hsum, Nat.mul_add_mod_self_right, Nat.mod_eq_of_lt (by omega)]
    have hdiv : (pos + i) / B = pos / B := by
      rw [Nat.div_eq_iff (by omega)]
      omega
    simp [get, hmod, hdiv]

end Sparse
