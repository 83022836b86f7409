import Mathlib.Data.List.Basic

/-!
# Lines of fields

A line is fields with a separator between them. A field that may contain the separator is written
with octal escapes: a byte of the escaped set becomes a backslash and three octal digits, and
`codes` reads such a field back (`codes_escape`).

Text is searched for the first occurrence of a pattern. For a pattern that is a word between two
separators, the search passes every field but that word (`after_word`).
-/

/-! ## Octal escapes -/

namespace Octal

/-- A backslash. -/
def mark : UInt8 := 92

/-- The three octal digits of a byte, most significant first. -/
def digits (b : UInt8) : List UInt8 :=
  [.ofNat (48 + b.toNat / 64), .ofNat (48 + b.toNat / 8 % 8), .ofNat (48 + b.toNat % 8)]

/-- The bytes of `S` are escaped. -/
def escape (S : UInt8 → Bool) (l : List UInt8) : List UInt8 :=
  l.flatMap fun b => if S b then mark :: digits b else [b]

/-- `0` to `7` -/
def isOctal (b : UInt8) : Bool := 48 ≤ b.toNat && b.toNat ≤ 55

/-- The number three octal digits denote: up to 511, which no byte holds. -/
def value (a₁ a₂ a₃ : UInt8) : ℕ :=
  (a₁.toNat - 48) * 64 + (a₂.toNat - 48) * 8 + (a₃.toNat - 48)

/-- The numbers a field stands for: an escape for its value, any other byte for itself. -/
def codes : List UInt8 → List ℕ
  | b :: a₁ :: a₂ :: a₃ :: rest =>
    if b = mark ∧ isOctal a₁ ∧ isOctal a₂ ∧ isOctal a₃ then value a₁ a₂ a₃ :: codes rest
    else b.toNat :: codes (a₁ :: a₂ :: a₃ :: rest)
  | l => l.map UInt8.toNat

variable {S : UInt8 → Bool} {b : UInt8} {l l' w : List UInt8}

@[simp] theorem escape_nil : escape S [] = [] := rfl

theorem escape_cons_of_mem (h : S b = true) :
    escape S (b :: l) = mark :: (digits b ++ escape S l) := by
  simp [escape, h]

theorem escape_cons_of_notMem (h : S b = false) : escape S (b :: l) = b :: escape S l := by
  simp [escape, h]

theorem codes_cons_of_ne (h : b ≠ mark) : codes (b :: l) = b.toNat :: codes l := by
  match l with
  | [] => rfl
  | [_] => rfl
  | [_, _] => rfl
  | a₁ :: a₂ :: a₃ :: rest =>
    rw [codes, if_neg]
    intro hb
    exact h hb.1

/-- A digit character is octal and has the value it was made from. -/
theorem toNat_digit {n : ℕ} (h : n < 8) : (UInt8.ofNat (48 + n)).toNat = 48 + n := by
  rw [UInt8.toNat_ofNat']
  omega

theorem isOctal_digit {n : ℕ} (h : n < 8) : isOctal (.ofNat (48 + n)) = true := by
  simp only [isOctal, toNat_digit h, Bool.and_eq_true, decide_eq_true_eq]
  omega

theorem value_digits (b : UInt8) :
    value (.ofNat (48 + b.toNat / 64)) (.ofNat (48 + b.toNat / 8 % 8)) (.ofNat (48 + b.toNat % 8)) =
      b.toNat := by
  have hb := b.toNat_lt
  rw [value, toNat_digit (by omega), toNat_digit (by omega), toNat_digit (by omega)]
  omega

theorem codes_escaped (b : UInt8) : codes (mark :: (digits b ++ l)) = b.toNat :: codes l := by
  have hb := b.toNat_lt
  have h₁ : isOctal (.ofNat (48 + b.toNat / 64)) = true := isOctal_digit (by omega)
  have h₂ : isOctal (.ofNat (48 + b.toNat / 8 % 8)) = true := isOctal_digit (by omega)
  have h₃ : isOctal (.ofNat (48 + b.toNat % 8)) = true := isOctal_digit (by omega)
  simp only [digits, List.cons_append, List.nil_append]
  rw [codes, if_pos ⟨rfl, h₁, h₂, h₃⟩, value_digits]

/-- **What is escaped is read back**, if the backslash itself is escaped: byte for byte, whatever
the bytes look like after one another. -/
theorem codes_escape (hS : S mark = true) (l : List UInt8) :
    codes (escape S l) = l.map UInt8.toNat := by
  induction l with
  | nil => rfl
  | cons b l ih =>
    cases hb : S b with
    | true => rw [escape_cons_of_mem hb, codes_escaped, ih, List.map_cons]
    | false =>
      have hne : b ≠ mark := fun h => by simp [h, hS] at hb
      rw [escape_cons_of_notMem hb, codes_cons_of_ne hne, ih, List.map_cons]

theorem escape_injective (hS : S mark = true) : Function.Injective (escape S) := by
  intro l l' h
  have hcodes := congrArg codes h
  rw [codes_escape hS, codes_escape hS] at hcodes
  exact List.map_injective_iff.2 (fun _ _ => UInt8.toNat_inj.1) hcodes

theorem escape_of_notMem (h : ∀ b ∈ l, S b = false) : escape S l = l := by
  induction l with
  | nil => rfl
  | cons b l ih =>
    rw [escape_cons_of_notMem (h b List.mem_cons_self),
      ih fun c hc => h c (List.mem_cons_of_mem _ hc)]

/-- Text without escaped bytes is seen at the start of a field exactly if it is there. -/
theorem isPrefix_escape (hS : S mark = true) (hw : ∀ b ∈ w, S b = false) (l : List UInt8) :
    w.isPrefixOf (escape S l) = w.isPrefixOf l := by
  induction w generalizing l with
  | nil => simp
  | cons a w ih =>
    have ha : S a = false := hw a List.mem_cons_self
    cases l with
    | nil => rfl
    | cons b l =>
      cases hb : S b with
      | true =>
        have hmark : a ≠ mark := fun h => by simp [h, hS] at ha
        have hne : a ≠ b := fun h => by simp [h, hb] at ha
        simp [escape_cons_of_mem hb, List.isPrefixOf_cons_cons, beq_eq_false_iff_ne.2 hmark,
          beq_eq_false_iff_ne.2 hne]
      | false =>
        simp [escape_cons_of_notMem hb, List.isPrefixOf_cons_cons,
          ih fun c hc => hw c (List.mem_cons_of_mem _ hc)]

/-- Every byte of a field is a byte that is not escaped, a backslash or a digit. -/
theorem mem_escape (h : b ∈ escape S l) : S b = false ∨ b = mark ∨ isOctal b = true := by
  obtain ⟨c, -, hc⟩ := List.mem_flatMap.1 h
  have hlt := c.toNat_lt
  split at hc
  · rcases List.mem_cons.1 hc with rfl | hc
    · exact .inr (.inl rfl)
    · have hdigit : isOctal b = true := by
        simp only [digits, List.mem_cons, List.not_mem_nil, or_false] at hc
        rcases hc with rfl | rfl | rfl <;> exact isOctal_digit (by omega)
      exact .inr (.inr hdigit)
  · rw [List.mem_singleton.1 hc]
    exact .inl (by simpa using ‹¬ S c = true›)

theorem notMem_escape (hb : S b = true) (hmark : b ≠ mark) (hdigit : isOctal b = false) :
    b ∉ escape S l := by
  intro h
  rcases mem_escape h with h | h | h
  · simp [hb] at h
  · exact hmark h
  · simp [hdigit] at h

end Octal

/-! ## Separators -/

namespace Fields

variable {α : Type*} [DecidableEq α]

/-- The text before the first occurrence of `pat`, all of it if there is none. -/
def before (pat : List α) : List α → List α
  | [] => []
  | a :: l => if pat.isPrefixOf (a :: l) then [] else a :: before pat l

/-- The text after the first occurrence of `pat`. -/
def after (pat : List α) : List α → Option (List α)
  | [] => none
  | a :: l => if pat.isPrefixOf (a :: l) then some ((a :: l).drop pat.length) else after pat l

variable {sep : α} {w f l : List α}

/-- A word between separators. -/
def between (sep : α) (w : List α) : List α := sep :: (w ++ [sep])

theorem isPrefixOf_between_of_ne {a : α} (h : a ≠ sep) :
    (between sep w).isPrefixOf (a :: l) = false := by
  simp [between, List.isPrefixOf_cons_cons, h.symm]

theorem isPrefixOf_between (hw : sep ∉ w) (hf : sep ∉ f) :
    (between sep w).isPrefixOf (sep :: (f ++ sep :: l)) = decide (f = w) := by
  have hstep : (between sep w).isPrefixOf (sep :: (f ++ sep :: l)) =
      (w ++ [sep]).isPrefixOf (f ++ sep :: l) := by simp [between]
  rw [hstep, Bool.eq_iff_iff, List.isPrefixOf_iff_prefix, decide_eq_true_eq]
  constructor
  · intro h
    induction w generalizing f with
    | nil =>
      cases f with
      | nil => rfl
      | cons b f => simp_all
    | cons a w ih =>
      cases f with
      | nil => simp_all
      | cons b f =>
        have hab : a = b ∧ w ++ [sep] <+: f ++ sep :: l := by simpa using h
        rw [hab.1, ih (by simp_all) (by simp_all) (by simp [between]) hab.2]
  · rintro rfl
    exact ⟨l, by simp⟩

theorem after_append (hf : sep ∉ f) : after (between sep w) (f ++ l) = after (between sep w) l := by
  induction f with
  | nil => rfl
  | cons a f ih =>
    have ha : a ≠ sep := fun h => hf (h ▸ List.mem_cons_self)
    rw [List.cons_append, after, isPrefixOf_between_of_ne ha, if_neg Bool.false_ne_true,
      ih fun h => hf (List.mem_cons_of_mem _ h)]

/-- The search passes a field that is not the word. -/
theorem after_field (hw : sep ∉ w) (hf : sep ∉ f) (hne : f ≠ w) :
    after (between sep w) (sep :: (f ++ sep :: l)) = after (between sep w) (sep :: l) := by
  rw [after, isPrefixOf_between hw hf, decide_eq_false hne, if_neg Bool.false_ne_true,
    after_append hf]

theorem after_fields (hw : sep ∉ w) {fs : List (List α)} (h : ∀ f ∈ fs, sep ∉ f ∧ f ≠ w) :
    after (between sep w) (fs.flatMap (sep :: ·) ++ sep :: l) =
      after (between sep w) (sep :: l) := by
  induction fs with
  | nil => rfl
  | cons f fs ih =>
    obtain ⟨hf, hne⟩ := h f List.mem_cons_self
    rw [← ih fun g hg => h g (List.mem_cons_of_mem _ hg)]
    cases fs with
    | nil => simpa using after_field hw hf hne
    | cons g fs => simpa using after_field hw hf hne

/-- **The first occurrence is at the first field that is the word.** -/
theorem after_word (hw : sep ∉ w) {fs : List (List α)} (h : ∀ f ∈ fs, sep ∉ f ∧ f ≠ w)
    (hf : sep ∉ f) :
    after (between sep w) (f ++ (fs.flatMap (sep :: ·) ++ sep :: (w ++ sep :: l))) = some l := by
  rw [after_append hf, after_fields hw h, after, isPrefixOf_between hw hw, decide_eq_true rfl,
    if_pos rfl]
  simp [between]

theorem before_append (hf : sep ∉ f) :
    before (between sep w) (f ++ l) = f ++ before (between sep w) l := by
  induction f with
  | nil => rfl
  | cons a f ih =>
    have ha : a ≠ sep := fun h => hf (h ▸ List.mem_cons_self)
    rw [List.cons_append, before, isPrefixOf_between_of_ne ha, if_neg Bool.false_ne_true,
      ih fun h => hf (List.mem_cons_of_mem _ h), List.cons_append]

/-- Between separators, nothing is cut out of the middle of a field. -/
theorem before_sep (l : List α) : before (between sep w) (sep :: l) = [] ∨
    ∃ u, before (between sep w) (sep :: l) = sep :: u := by
  rw [before]
  split
  · exact .inl rfl
  · exact .inr ⟨_, rfl⟩

theorem before_fields (hw : sep ∉ w) (hf : sep ∉ f) {g : List α} (hg : sep ∉ g) :
    before (between sep w) (f ++ sep :: (g ++ sep :: l)) =
      f ++ if g = w then [] else sep :: (g ++ before (between sep w) (sep :: l)) := by
  rw [before_append hf, before, isPrefixOf_between hw hg, before_append hg]
  simp

/-- The word as the second field leaves the first one alone. -/
theorem splitOn_before_of_eq (hw : sep ∉ w) (hf : sep ∉ f) :
    (before (between sep w) (f ++ sep :: (w ++ sep :: l))).splitOn sep = [f] := by
  rw [before_fields hw hf hw, if_pos rfl, List.append_nil, List.splitOn_eq_singleton hf]

theorem splitOn_before_of_ne (hw : sep ∉ w) (hf : sep ∉ f) {g : List α} (hg : sep ∉ g)
    (hne : g ≠ w) : ∃ rest,
      (before (between sep w) (f ++ sep :: (g ++ sep :: l))).splitOn sep = f :: g :: rest := by
  rw [before_fields hw hf hg, if_neg hne, List.splitOn_append_cons_self_of_not_mem hf]
  rcases (before_sep l : _ ∨ ∃ u, before (between sep w) (sep :: l) = sep :: u) with h | ⟨u, h⟩
  · exact ⟨[], by rw [h, List.append_nil, List.splitOn_eq_singleton hg]⟩
  · exact ⟨u.splitOn sep, by rw [h, List.splitOn_append_cons_self_of_not_mem hg]⟩

end Fields
