import Mathlib.Data.List.DropRight
import Mathlib.Tactic.Common

/-!
# Text and its lines

Text is a list of characters. `trim` and `lines` are those of Rust's `str`: white space is the
Unicode property, and a line ends at a line feed, a carriage return before which goes too.
`unlines` ends every line with a line feed; what `lines` makes of the result is `lines_unlines`,
also when the lines themselves have line feeds in them.
-/

/-- Text, as its characters. -/
abbrev Text := List Char

namespace Text

/-! ## White space -/

/-- `char::is_whitespace` -/
def isWs (c : Char) : Bool :=
  (9 ≤ c.toNat && c.toNat ≤ 13) || c.toNat == 0x20 || c.toNat == 0x85 || c.toNat == 0xA0 ||
    c.toNat == 0x1680 || (0x2000 ≤ c.toNat && c.toNat ≤ 0x200A) || c.toNat == 0x2028 ||
    c.toNat == 0x2029 || c.toNat == 0x202F || c.toNat == 0x205F || c.toNat == 0x3000

/-- `str::trim_start` -/
def trimStart (t : Text) : Text := t.dropWhile isWs

/-- `str::trim_end` -/
def trimEnd (t : Text) : Text := t.rdropWhile isWs

/-- `str::trim` -/
def trim (t : Text) : Text := trimEnd (trimStart t)

/-- There is nothing but white space. -/
def Blank (t : Text) : Prop := ∀ c ∈ t, isWs c = true

instance (t : Text) : Decidable (Blank t) := List.decidableBAll _ t

variable {t u w : Text} {c : Char}

theorem toNat_of_isDigit (h : c.isDigit = true) : 48 ≤ c.toNat ∧ c.toNat ≤ 57 := by
  simp only [Char.isDigit, Bool.and_eq_true, decide_eq_true_eq, ge_iff_le, UInt32.le_iff_toNat_le]
    at h
  exact h

theorem isWs_of_isDigit (h : c.isDigit = true) : isWs c = false := by
  have hrange := toNat_of_isDigit h
  simp only [isWs, Bool.or_eq_false_iff, Bool.and_eq_false_iff, decide_eq_false_iff_not,
    beq_eq_false_iff_ne]
  omega

theorem blank_nil : Blank [] := List.forall_mem_nil _

theorem trimStart_append (hw : Blank w) : trimStart (w ++ t) = trimStart t :=
  List.dropWhile_append_of_pos hw

theorem trimStart_of_blank (hw : Blank w) : trimStart w = [] := by
  have happend := @trimStart_append [] w hw
  rwa [List.append_nil] at happend

theorem trimEnd_append (hw : Blank w) : trimEnd (t ++ w) = trimEnd t := by
  rw [trimEnd, List.rdropWhile, List.reverse_append,
    List.dropWhile_append_of_pos fun c hc => hw c (List.mem_reverse.1 hc)]
  rfl

/-- A look from the end does not pass what is not white space. -/
theorem trimEnd_append_right (hu : ¬ Blank u) : trimEnd (t ++ u) = t ++ trimEnd u := by
  have hne : ¬ (u.reverse.dropWhile isWs).isEmpty = true := by
    intro hempty
    refine hu fun c hc => ?_
    exact List.dropWhile_eq_nil_iff.1 (List.isEmpty_iff.1 hempty) c (List.mem_reverse.2 hc)
  rw [trimEnd, trimEnd, List.rdropWhile, List.rdropWhile, List.reverse_append,
    List.dropWhile_append, if_neg hne, List.reverse_append, List.reverse_reverse]

theorem trimEnd_concat (h : isWs c = false) : trimEnd (t ++ [c]) = t ++ [c] :=
  List.rdropWhile_concat_neg _ _ _ (by simp [h])

theorem trimStart_eq_nil_iff : trimStart t = [] ↔ Blank t := List.dropWhile_eq_nil_iff

theorem trimStart_cons (h : isWs c = false) : trimStart (c :: t) = c :: t := by
  rw [trimStart, List.dropWhile_cons, if_neg (by simp [h])]

/-- White space at the end is not seen by a look from the start, unless there is nothing else. -/
theorem trimStart_append_right (ht : ¬ Blank t) :
    trimStart (t ++ w) = trimStart t ++ w := by
  rw [trimStart, List.dropWhile_append, if_neg]
  · rfl
  · intro hempty
    exact ht (trimStart_eq_nil_iff.1 (List.isEmpty_iff.1 hempty))

theorem trim_append_right (hw : Blank w) : trim (t ++ w) = trim t := by
  by_cases ht : Blank t
  · have hboth : Blank (t ++ w) := by
      intro c hc
      rcases List.mem_append.1 hc with hc | hc
      · exact ht c hc
      · exact hw c hc
    rw [trim, trim, trimStart_of_blank hboth, trimStart_of_blank ht]
  · rw [trim, trim, trimStart_append_right ht, trimEnd_append hw]

theorem trim_append_left (hw : Blank w) : trim (w ++ t) = trim t := by
  rw [trim, trim, trimStart_append hw]

theorem trim_eq_nil_iff : trim t = [] ↔ Blank t := by
  constructor
  · intro h
    rw [← trimStart_eq_nil_iff]
    by_contra hne
    have hall : ∀ d ∈ trimStart t, isWs d = true := List.rdropWhile_eq_nil_iff.1 h
    have hhead : isWs ((trimStart t).head hne) = false := List.head_dropWhile_not isWs hne
    have hc := hall _ (List.head_mem hne)
    rw [hhead] at hc
    cases hc
  · intro h
    rw [trim, trimStart_of_blank h]
    exact List.rdropWhile_nil _

/-- What is not trimmed at either end. -/
theorem trim_cons_of_trimEnd (h : isWs c = false) (ht : trimEnd (c :: t) = c :: t) :
    trim (c :: t) = c :: t := by
  rw [trim, trimStart_cons h, ht]

/-- The white space that `trimEnd` takes away. -/
theorem exists_trimEnd (t : Text) : ∃ w, t = trimEnd t ++ w ∧ Blank w := by
  refine ⟨t.rtakeWhile isWs, ?_, ?_⟩
  · rw [trimEnd, List.rdropWhile, List.rtakeWhile, ← List.reverse_append,
      List.takeWhile_append_dropWhile, List.reverse_reverse]
  · intro c hc
    exact List.mem_takeWhile_imp (List.mem_reverse.1 hc)

theorem trim_congr (h : trimEnd t = trimEnd u) : trim t = trim u := by
  obtain ⟨w, ht, hw⟩ := exists_trimEnd t
  obtain ⟨w', hu, hw'⟩ := exists_trimEnd u
  calc trim t = trim (trimEnd t) := by
        nth_rewrite 1 [ht]
        exact trim_append_right hw
    _ = trim u := by
        rw [h]
        nth_rewrite 2 [hu]
        exact (trim_append_right hw').symm

theorem head?_trim_cons (h : isWs c = false) : (trim (c :: t)).head? = some c := by
  obtain ⟨w, ht, hw⟩ := exists_trimEnd (c :: t)
  rw [trim, trimStart_cons h]
  rcases hend : trimEnd (c :: t) with _ | ⟨d, rest⟩
  · rw [hend, List.nil_append] at ht
    rw [← ht] at hw
    rw [hw c List.mem_cons_self] at h
    cases h
  · rw [hend, List.cons_append] at ht
    rw [(List.cons.inj ht).1]
    rfl

/-! ## Splitting -/

/-- `str::split_once` at a character -/
def splitOnce (sep : Char) (t : Text) : Option (Text × Text) :=
  match t.dropWhile (· ≠ sep) with
  | [] => none
  | _ :: rest => some (t.takeWhile (· ≠ sep), rest)

theorem splitOnce_of_notMem {sep : Char} (h : sep ∉ t) : splitOnce sep t = none := by
  have hdrop : t.dropWhile (· ≠ sep) = [] := by
    rw [List.dropWhile_eq_nil_iff]
    intro c hc
    rw [decide_eq_true_eq]
    rintro rfl
    exact h hc
  rw [splitOnce, hdrop]

theorem splitOnce_append_cons {sep : Char} (h : sep ∉ t) :
    splitOnce sep (t ++ sep :: u) = some (t, u) := by
  have hpos : ∀ c ∈ t, decide (c ≠ sep) = true := by
    intro c hc
    rw [decide_eq_true_eq]
    rintro rfl
    exact h hc
  rw [splitOnce, List.dropWhile_append_of_pos hpos, List.takeWhile_append_of_pos hpos,
    List.dropWhile_cons_of_neg (by simp), List.takeWhile_cons_of_neg (by simp), List.append_nil]

/-- What is found is not in what does not have the separator. -/
theorem splitOnce_append {sep : Char} (hw : sep ∉ w) :
    splitOnce sep (t ++ w) = (splitOnce sep t).map fun p => (p.1, p.2 ++ w) := by
  by_cases h : sep ∈ t
  · obtain ⟨x, y, rfl, hx⟩ := List.eq_append_cons_of_mem h
    rw [List.append_assoc, List.cons_append, splitOnce_append_cons hx, splitOnce_append_cons hx]
    rfl
  · have hnone : sep ∉ t ++ w := by
      rw [List.mem_append, not_or]
      exact ⟨h, hw⟩
    rw [splitOnce_of_notMem h, splitOnce_of_notMem hnone]
    rfl

/-! ## Lines -/

/-- A carriage return at the end goes. -/
def stripCr (l : Text) : Text := if l.getLast? = some '\r' then l.dropLast else l

/-- The pieces between the line feeds; the last one only if there is something in it. -/
def lfLines (t : Text) : List Text :=
  (t.splitOn '\n').dropLast ++ ((t.splitOn '\n').getLast?.filter fun l => !l.isEmpty).toList

/-- `str::lines` -/
def lines (t : Text) : List Text :=
  (t.splitOn '\n').dropLast.map stripCr ++
    ((t.splitOn '\n').getLast?.filter fun l => !l.isEmpty).toList

/-- Every line is ended by a line feed. -/
def unlines (ls : List Text) : Text := ls.flatMap (· ++ ['\n'])

/-- The lines that a line really is. -/
def pieces (ls : List Text) : List Text := ls.flatMap (·.splitOn '\n')

/-- `while out.ends_with("\n\n") { out.pop(); }`, on the reversed text. -/
def popReversed : Text → Text
  | '\n' :: '\n' :: t => popReversed ('\n' :: t)
  | t => t

/-- `while out.ends_with("\n\n") { out.pop(); }` -/
def popBlanks (t : Text) : Text := (popReversed t.reverse).reverse

variable {ls ls' : List Text} {l : Text}

theorem newline_notMem_splitOn (t : Text) : ∀ p ∈ t.splitOn '\n', '\n' ∉ p := by
  induction t with
  | nil =>
    intro p hp
    rw [List.splitOn_nil, List.mem_singleton] at hp
    rw [hp]
    exact List.not_mem_nil
  | cons c t ih =>
    intro p hp
    rw [List.splitOn_cons_eq_if_modifyHead] at hp
    split_ifs at hp with hc
    · rcases List.mem_cons.1 hp with rfl | hp
      · exact List.not_mem_nil
      · exact ih p hp
    · obtain ⟨q, qs, hsplit⟩ := List.exists_cons_of_ne_nil (List.splitOn_ne_nil '\n' t)
      rw [hsplit] at ih hp
      rcases List.mem_cons.1 hp with rfl | hp
      · have hq := ih q List.mem_cons_self
        rw [List.mem_cons, not_or]
        exact ⟨fun h => hc (beq_iff_eq.2 h.symm), hq⟩
      · exact ih p (List.mem_cons_of_mem _ hp)

theorem pieces_append : pieces (ls ++ ls') = pieces ls ++ pieces ls' := List.flatMap_append

theorem pieces_cons : pieces (l :: ls) = l.splitOn '\n' ++ pieces ls := rfl

theorem unlines_append : unlines (ls ++ ls') = unlines ls ++ unlines ls' := List.flatMap_append

theorem unlines_cons : unlines (l :: ls) = l ++ '\n' :: unlines ls := by
  rw [unlines, List.flatMap_cons, List.append_assoc]
  rfl

/-- Lines without line feeds are their own pieces. -/
theorem pieces_of_notMem (h : ∀ l ∈ ls, '\n' ∉ l) : pieces ls = ls := by
  induction ls with
  | nil => rfl
  | cons l ls ih =>
    rw [pieces_cons, List.splitOn_eq_singleton (h l List.mem_cons_self),
      ih fun l' hl' => h l' (List.mem_cons_of_mem _ hl'), List.singleton_append]

theorem newline_notMem_pieces (ls : List Text) : ∀ l ∈ pieces ls, '\n' ∉ l := by
  intro l hl
  obtain ⟨l', -, hl⟩ := List.mem_flatMap.1 hl
  exact newline_notMem_splitOn l' l hl

theorem splitOn_unlines : (unlines ls).splitOn '\n' = pieces ls ++ [[]] := by
  induction ls with
  | nil => rfl
  | cons l ls ih =>
    rw [unlines_cons, List.splitOn_append_cons_self, ih, pieces_cons, List.append_assoc]

theorem lfLines_unlines : lfLines (unlines ls) = pieces ls := by
  rw [lfLines, splitOn_unlines, List.dropLast_concat, List.getLast?_concat]
  exact List.append_nil _

theorem lines_unlines : lines (unlines ls) = (pieces ls).map stripCr := by
  rw [lines, splitOn_unlines, List.dropLast_concat, List.getLast?_concat]
  exact List.append_nil _

theorem unlines_splitOn : unlines (l.splitOn '\n') = l ++ ['\n'] := by
  have hjoin (ps : List Text) (hne : ps ≠ []) : unlines ps = ['\n'].intercalate ps ++ ['\n'] := by
    induction ps with
    | nil => exact (hne rfl).elim
    | cons p ps ih =>
      cases ps with
      | nil => rw [unlines_cons, List.intercalate_singleton]; rfl
      | cons q qs =>
        rw [unlines_cons, ih (List.cons_ne_nil _ _), List.intercalate_cons_cons, List.append_assoc,
          List.append_assoc]
        rfl
  rw [hjoin _ (List.splitOn_ne_nil _ _), List.intercalate_splitOn]

theorem unlines_pieces : unlines (pieces ls) = unlines ls := by
  induction ls with
  | nil => rfl
  | cons l ls ih =>
    rw [pieces_cons, unlines_append, ih, unlines_splitOn, unlines_cons, List.append_assoc]
    rfl

/-- A carriage return that goes is white space. -/
theorem exists_stripCr (l : Text) : ∃ w, l = stripCr l ++ w ∧ Blank w := by
  by_cases h : l.getLast? = some '\r'
  · refine ⟨['\r'], ?_, by decide⟩
    rw [stripCr, if_pos h]
    exact (List.dropLast_append_getLast? '\r' h).symm
  · exact ⟨[], by rw [stripCr, if_neg h, List.append_nil], blank_nil⟩

theorem trimEnd_stripCr (l : Text) : trimEnd (stripCr l) = trimEnd l := by
  obtain ⟨w, hl, hw⟩ := exists_stripCr l
  nth_rewrite 2 [hl]
  exact (trimEnd_append hw).symm

theorem newline_notMem_stripCr (h : '\n' ∉ l) : '\n' ∉ stripCr l := by
  obtain ⟨w, hl, -⟩ := exists_stripCr l
  intro hmem
  apply h
  rw [hl]
  exact List.mem_append_left _ hmem

theorem newline_notMem_lines (t : Text) : ∀ l ∈ lines t, '\n' ∉ l := by
  intro l hl
  rcases List.mem_append.1 hl with hl | hl
  · obtain ⟨p, hp, rfl⟩ := List.mem_map.1 hl
    exact newline_notMem_stripCr (newline_notMem_splitOn t p (List.dropLast_subset _ hp))
  · obtain ⟨hlast, -⟩ := Option.filter_eq_some_iff.1 (Option.mem_toList.1 hl)
    exact newline_notMem_splitOn t l (List.mem_of_getLast? hlast)

theorem blank_of_mem_splitOn (hw : Blank w) : ∀ p ∈ w.splitOn '\n', Blank p := by
  intro p hp c hc
  have hmem : c ∈ unlines (w.splitOn '\n') :=
    List.mem_flatMap.2 ⟨p, hp, List.mem_append_left _ hc⟩
  rw [unlines_splitOn, List.mem_append, List.mem_singleton] at hmem
  rcases hmem with hmem | rfl
  · exact hw c hmem
  · decide

/-- White space at the end of a line: some of it may stay there, the rest is blank lines. -/
theorem splitOn_append_blank (ht : '\n' ∉ t) (hw : Blank w) :
    ∃ w' ws, (t ++ w).splitOn '\n' = (t ++ w') :: ws ∧ Blank w' ∧ ∀ p ∈ ws, Blank p := by
  by_cases hnl : '\n' ∈ w
  · obtain ⟨x, y, rfl, hx⟩ := List.eq_append_cons_of_mem hnl
    refine ⟨x, y.splitOn '\n', ?_, fun c hc => hw c (List.mem_append_left _ hc), ?_⟩
    · have htx : '\n' ∉ t ++ x := by
        rw [List.mem_append, not_or]
        exact ⟨ht, hx⟩
      rw [← List.append_assoc, List.splitOn_append_cons_self, List.splitOn_eq_singleton htx]
      rfl
    · exact blank_of_mem_splitOn fun c hc =>
        hw c (List.mem_append_right _ (List.mem_cons_of_mem _ hc))
  · have htw : '\n' ∉ t ++ w := by
      rw [List.mem_append, not_or]
      exact ⟨ht, hnl⟩
    exact ⟨w, [], List.splitOn_eq_singleton htw, hw, List.forall_mem_nil _⟩

/-! ### The blank lines at the end -/

theorem popReversed_newlines : popReversed ('\n' :: '\n' :: t) = popReversed ('\n' :: t) := by
  rw [popReversed]

theorem popReversed_cons (h : c ≠ '\n') : popReversed ('\n' :: c :: t) = '\n' :: c :: t := by
  rw [popReversed]
  rintro t' heq
  exact h (List.cons.inj (List.cons.inj heq).2).1

/-- Only empty lines at the end go. -/
theorem popBlanks_unlines_of_notMem (h : ∀ l ∈ ls, '\n' ∉ l) :
    ∃ kept k, ls = kept ++ List.replicate k [] ∧ popBlanks (unlines ls) = unlines kept := by
  induction ls using List.reverseRecOn with
  | nil => exact ⟨[], 0, rfl, by simp [unlines, popBlanks, popReversed]⟩
  | append_singleton ls l ih =>
    have hrev (ls : List Text) (l : Text) :
        (unlines (ls ++ [l])).reverse = '\n' :: (l.reverse ++ (unlines ls).reverse) := by
      rw [unlines_append, unlines_cons, List.reverse_append, List.reverse_append, List.reverse_cons,
        List.append_assoc]
      rfl
    rcases List.eq_nil_or_concat' l with rfl | ⟨l', c, rfl⟩
    · rcases List.eq_nil_or_concat' ls with rfl | ⟨ls', l', hls⟩
      · exact ⟨[[]], 0, rfl, by simp [unlines, popBlanks, popReversed]⟩
      · obtain ⟨kept, k, hkept, hpop⟩ := ih fun l hl => h l (List.mem_append_left _ hl)
        refine ⟨kept, k + 1, ?_, ?_⟩
        · rw [List.replicate_succ', ← List.append_assoc, ← hkept]
        · have hend : (unlines ls).reverse = '\n' :: (l'.reverse ++ (unlines ls').reverse) := by
            rw [hls, hrev]
          rw [← hpop, popBlanks, popBlanks, hrev, List.reverse_nil, List.nil_append, hend,
            popReversed_newlines]
    · refine ⟨ls ++ [l' ++ [c]], 0, by simp, ?_⟩
      have hc : c ≠ '\n' := by
        rintro rfl
        exact h _ (List.mem_append_right _ List.mem_cons_self) (by simp)
      have hsame : popReversed (unlines (ls ++ [l' ++ [c]])).reverse =
          (unlines (ls ++ [l' ++ [c]])).reverse := by
        rw [hrev, List.reverse_append, List.reverse_singleton, List.singleton_append,
          List.cons_append, popReversed_cons hc]
      rw [popBlanks, hsame, List.reverse_reverse]

theorem popBlanks_unlines (ls : List Text) :
    ∃ kept k, pieces ls = kept ++ List.replicate k [] ∧ popBlanks (unlines ls) = unlines kept := by
  rw [← unlines_pieces]
  exact popBlanks_unlines_of_notMem (newline_notMem_pieces ls)

end Text
