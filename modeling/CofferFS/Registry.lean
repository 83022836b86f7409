import CofferFS.Config

/-!
# The registry is a map

What `coffer add` and `coffer remove` write is read back by the next command. White space at the
end of a line is not seen by `vault_from`, nor are blank lines, and this is what the way through
the file can change; so every section reads the same after a save (`exists_reparse`), and what
`vault_from` makes of the lines of `render` is the vault (`vaultFrom_render`), unless a value is
not one that can be written on a line. `registry_is_map` follows for every sequence of edits.
-/

namespace CofferFS

open Text

/-! ## White space at the end of a line -/

section Reading

variable {t w : Text} {home : Home} {name : Text} {d d' : Draft}

theorem isComment_append (hw : Blank w) : isComment (t ++ w) = isComment t := by
  by_cases ht : Blank t
  · have hboth : trimStart (t ++ w) = trimStart t := by
      rw [trimStart_append ht, trimStart_of_blank hw, trimStart_of_blank ht]
    rw [isComment, isComment, hboth]
  · obtain ⟨c, rest, hc⟩ := List.exists_cons_of_ne_nil fun h => ht (trimStart_eq_nil_iff.1 h)
    rw [isComment, isComment, trimStart_append_right ht, hc]
    rfl

theorem isComment_of_blank (ht : Blank t) : isComment t = true := by
  rw [isComment, trimStart_of_blank ht]

theorem equals_notMem_of_blank (hw : Blank w) : '=' ∉ w := by
  intro h
  exact absurd (hw '=' h) (by decide)

theorem unquote_append (hw : Blank w) : unquote (t ++ w) = unquote t := by
  rw [unquote, unquote, trim_append_right hw]

/-- White space at the end of a line is not seen, unless in the text of an error. -/
theorem Draft.line_append (hw : Blank w) :
    Draft.line home name d (t ++ w) = .ok d' ↔ Draft.line home name d t = .ok d' := by
  rw [Draft.line, Draft.line, isComment_append hw,
    splitOnce_append (equals_notMem_of_blank hw)]
  rcases splitOnce '=' t with _ | ⟨key, value⟩
  · split_ifs
    · rfl
    · simp
  · simp only [Option.map_some, unquote_append hw]

theorem Draft.line_congr {t' : Text} (h : trimEnd t = trimEnd t') :
    Draft.line home name d t = .ok d' ↔ Draft.line home name d t' = .ok d' := by
  obtain ⟨w, ht, hw⟩ := exists_trimEnd t
  obtain ⟨w', ht', hw'⟩ := exists_trimEnd t'
  rw [ht, ht', Draft.line_append hw, Draft.line_append hw', h]

theorem Draft.line_of_comment (ht : isComment t = true) : Draft.line home name d t = .ok d := by
  rw [Draft.line, if_pos ht]

theorem Draft.lines_cons {ls : List Text} :
    Draft.lines home name d (t :: ls) =
      (Draft.line home name d t).bind fun d => Draft.lines home name d ls := List.foldlM_cons

theorem Draft.lines_append {ls ls' : List Text} :
    Draft.lines home name d (ls ++ ls') =
      (Draft.lines home name d ls).bind fun d => Draft.lines home name d ls' :=
  List.foldlM_append

theorem Draft.lines_of_blank {ls : List Text} (hls : ∀ l ∈ ls, Blank l) :
    Draft.lines home name d ls = .ok d := by
  induction ls with
  | nil => rfl
  | cons l ls ih =>
    rw [Draft.lines_cons, Draft.line_of_comment (isComment_of_blank (hls l List.mem_cons_self))]
    exact ih fun l' hl' => hls l' (List.mem_cons_of_mem _ hl')

/-- Blank lines at the end are not seen. -/
theorem Draft.lines_append_blank {ls ls' : List Text} (hls : ∀ l ∈ ls', Blank l) :
    Draft.lines home name d (ls ++ ls') = Draft.lines home name d ls := by
  rw [Draft.lines_append]
  rcases Draft.lines home name d ls with e | d
  · rfl
  · exact Draft.lines_of_blank hls

/-! ## Lines that are written and read again -/

/-- No header, and after it there is at most white space when it is written: what has line feeds
in it comes back as several lines. -/
def Fine (l : Text) : Prop := (trim l).head? ≠ some '[' ∧ '\n' ∉ trimEnd l

/-- The lines that a reader of the file sees. -/
def onFile (ls : List Text) : List Text := (pieces ls).map stripCr

theorem onFile_append {ls ls' : List Text} : onFile (ls ++ ls') = onFile ls ++ onFile ls' := by
  rw [onFile, pieces_append, List.map_append]
  rfl

theorem fine_of_blank (ht : Blank t) : Fine t := by
  have htrim : trimEnd t = [] := List.rdropWhile_eq_nil_iff.2 ht
  refine ⟨?_, ?_⟩
  · rw [trim_eq_nil_iff.2 ht]
    nofun
  · rw [htrim]
    exact List.not_mem_nil

theorem fine_of_notMem (ht : (trim t).head? ≠ some '[') (hnl : '\n' ∉ t) : Fine t := by
  obtain ⟨w, hw, -⟩ := exists_trimEnd t
  refine ⟨ht, fun hmem => hnl ?_⟩
  rw [hw]
  exact List.mem_append_left _ hmem

/-- A fine line comes back as itself, but for the white space at its end, and blank lines. -/
theorem Fine.splitOn (h : Fine t) :
    ∃ t' ws, t.splitOn '\n' = t' :: ws ∧ trimEnd t' = trimEnd t ∧ ∀ l ∈ ws, Blank l := by
  obtain ⟨w, ht, hw⟩ := exists_trimEnd t
  obtain ⟨w', ws, hsplit, hw', hws⟩ := splitOn_append_blank h.2 hw
  refine ⟨trimEnd t ++ w', ws, ?_, ?_, hws⟩
  · rw [← hsplit, ← ht]
  · calc trimEnd (trimEnd t ++ w') = trimEnd (trimEnd t ++ w) := by
          rw [trimEnd_append hw', trimEnd_append hw]
      _ = trimEnd t := by rw [← ht]

theorem blank_stripCr (ht : Blank t) : Blank (stripCr t) := by
  obtain ⟨w, hw, -⟩ := exists_stripCr t
  intro c hc
  apply ht c
  rw [hw]
  exact List.mem_append_left _ hc

theorem Fine.onFile {ls : List Text} (h : ∀ l ∈ ls, Fine l) : ∀ l ∈ onFile ls, Fine l := by
  intro l hl
  obtain ⟨p, hp, rfl⟩ := List.mem_map.1 hl
  obtain ⟨l, hl, hp⟩ := List.mem_flatMap.1 hp
  obtain ⟨t', ws, hsplit, htrim, hws⟩ := (h l hl).splitOn
  have hnl : '\n' ∉ p := newline_notMem_splitOn l p hp
  rw [hsplit] at hp
  rcases List.mem_cons.1 hp with rfl | hp
  · refine fine_of_notMem ?_ (newline_notMem_stripCr hnl)
    rw [trim_congr ((trimEnd_stripCr p).trans htrim)]
    exact (h l hl).1
  · exact fine_of_blank (blank_stripCr (hws p hp))

/-- Fine lines read the same from the file. -/
theorem Draft.lines_onFile {ls : List Text} (h : ∀ l ∈ ls, Fine l) :
    Draft.lines home name d (CofferFS.onFile ls) = .ok d' ↔ Draft.lines home name d ls = .ok d' := by
  induction ls generalizing d with
  | nil => rfl
  | cons l ls ih =>
    obtain ⟨t', ws, hsplit, htrim, hws⟩ := (h l List.mem_cons_self).splitOn
    have hfile : CofferFS.onFile (l :: ls) =
        stripCr t' :: (ws.map stripCr ++ CofferFS.onFile ls) := by
      rw [CofferFS.onFile, pieces_cons, hsplit, List.map_append]
      rfl
    have hblank : ∀ l ∈ ws.map stripCr, Blank l := by
      intro l hl
      obtain ⟨p, hp, rfl⟩ := List.mem_map.1 hl
      exact blank_stripCr (hws p hp)
    have hrest (d₁ : Draft) : Draft.lines home name d₁ (ws.map stripCr ++ CofferFS.onFile ls) =
        Draft.lines home name d₁ (CofferFS.onFile ls) := by
      rw [Draft.lines_append, Draft.lines_of_blank hblank]
      rfl
    have hline (d₁ : Draft) : Draft.line home name d (stripCr t') = .ok d₁ ↔
        Draft.line home name d l = .ok d₁ :=
      Draft.line_congr ((trimEnd_stripCr t').trans htrim)
    have hbind (t : Text) (rest : List Text) : Draft.lines home name d (t :: rest) = .ok d' ↔
        ∃ d₁, Draft.line home name d t = .ok d₁ ∧ Draft.lines home name d₁ rest = .ok d' := by
      rw [Draft.lines_cons]
      rcases Draft.line home name d t with e | d₁ <;> simp [Except.bind]
    rw [hfile, hbind, hbind]
    refine exists_congr fun d₁ => ?_
    rw [hline, hrest, ih fun l hl => h l (List.mem_cons_of_mem _ hl)]

end Reading

/-! ## What is parsed is what was written -/

section Parsing

variable {cfg cfg' : Config} {s t : Section} {name : Text} {n : ℕ} {ls ls' : List Text}

theorem isWs_of_isAlphanum {c : Char} (h : c.isAlphanum = true) : isWs c = false := by
  have hupper : c.isUpper = decide (c.val ≥ 65 ∧ c.val ≤ 90) := rfl
  have hlower : c.isLower = (decide (c.val ≥ 97) && decide (c.val ≤ 122)) := rfl
  have halpha : c.isAlpha = (c.isUpper || c.isLower) := rfl
  simp only [Char.isAlphanum, halpha, hupper, hlower, Char.isDigit,
    Bool.or_eq_true, Bool.and_eq_true, decide_eq_true_eq, ge_iff_le, UInt32.le_iff_toNat_le] at h
  have hnat : c.toNat = c.val.toNat := rfl
  simp only [isWs, hnat, Bool.or_eq_false_iff, Bool.and_eq_false_iff, decide_eq_false_iff_not,
    beq_eq_false_iff_ne]
  simp at h
  omega

/-- Nothing in an alias is white space. -/
theorem isWs_of_validAlias (h : validAlias name = true) : ∀ c ∈ name, isWs c = false := by
  intro c hc
  rw [validAlias, Bool.and_eq_true, List.all_eq_true] at h
  have hchar := h.2 c hc
  simp only [Bool.or_eq_true, beq_iff_eq] at hchar
  rcases hchar with ((hchar | rfl) | rfl) | rfl
  · exact isWs_of_isAlphanum hchar
  · decide
  · decide
  · decide

theorem trim_of_isWs (h : ∀ c ∈ name, isWs c = false) : trim name = name := by
  have hend : trimEnd name = name := by
    rcases List.eq_nil_or_concat' name with rfl | ⟨l, c, rfl⟩
    · rfl
    · exact List.rdropWhile_concat_neg _ _ _ (by simp [h c (by simp)])
  cases name with
  | nil => rfl
  | cons c t => exact trim_cons_of_trimEnd (h c List.mem_cons_self) hend

/-- `format!("[{}]")` -/
theorem trim_header (name : Text) : trim ('[' :: name ++ [']']) = '[' :: name ++ [']'] := by
  have hend : trimEnd ('[' :: name ++ [']']) = '[' :: name ++ [']'] :=
    List.rdropWhile_concat_neg _ _ _ (by decide)
  exact trim_cons_of_trimEnd (by decide) hend

namespace Config

/-- A registry whose lines are fine, under aliases that are each there once. -/
structure WellFormed (cfg : Config) : Prop where
  preamble : ∀ l ∈ cfg.preamble, Fine l
  lines : ∀ s ∈ cfg.sections, ∀ l ∈ s.lines, Fine l
  names : ∀ s ∈ cfg.sections, validAlias s.name = true
  nodup : (cfg.sections.map (·.name)).Nodup

theorem parseLine_header (hname : validAlias name = true)
    (hnew : ∀ s ∈ cfg.sections, s.name ≠ name) :
    cfg.parseLine n ('[' :: name ++ [']']) =
      .ok { cfg with sections := cfg.sections ++ [⟨name, []⟩] } := by
  have hany : (cfg.sections.any fun s => decide (s.name = name)) = false := by
    rw [List.any_eq_false]
    intro s hs
    rw [decide_eq_true_eq]
    exact hnew s hs
  rw [parseLine, trim_header]
  simp only [List.cons_append, List.head?_cons, List.tail_cons, List.getLast?_concat,
    List.dropLast_concat, if_true]
  rw [trim_of_isWs (isWs_of_validAlias hname), hname, hany]
  rfl

theorem parseLine_of_fine {l : Text} (hl : (trim l).head? ≠ some '[') :
    cfg.parseLine n l = .ok (cfg.addLine l) := if_neg hl

theorem parseLines_cons {l : Text} :
    parseLines n cfg (l :: ls) = (cfg.parseLine n l).bind fun cfg => parseLines (n + 1) cfg ls :=
  rfl

theorem parseLines_append :
    parseLines n cfg (ls ++ ls') =
      (parseLines n cfg ls).bind fun cfg => parseLines (n + ls.length) cfg ls' := by
  induction ls generalizing n cfg with
  | nil => rfl
  | cons l ls ih =>
    rw [List.cons_append, parseLines_cons, parseLines_cons]
    rcases cfg.parseLine n l with e | cfg
    · rfl
    · rw [Except.bind, Except.bind, ih, List.length_cons, Nat.add_assoc, Nat.add_comm 1]

theorem parseLines_preamble {pre : List Text} (hls : ∀ l ∈ ls, Fine l) :
    parseLines n ⟨pre, []⟩ ls = .ok ⟨pre ++ ls, []⟩ := by
  induction ls generalizing n pre with
  | nil => rw [List.append_nil]; rfl
  | cons l ls ih =>
    have hadd : addLine ⟨pre, []⟩ l = ⟨pre ++ [l], []⟩ := rfl
    rw [parseLines_cons, parseLine_of_fine (hls l List.mem_cons_self).1, hadd, Except.bind,
      ih fun l hl => hls l (List.mem_cons_of_mem _ hl), List.append_assoc]
    rfl

theorem parseLines_section {pre : List Text} {ss : List Section} (hls : ∀ l ∈ ls, Fine l) :
    parseLines n ⟨pre, ss ++ [s]⟩ ls = .ok ⟨pre, ss ++ [{ s with lines := s.lines ++ ls }]⟩ := by
  induction ls generalizing n s with
  | nil => rw [List.append_nil]; rfl
  | cons l ls ih =>
    have hadd : addLine ⟨pre, ss ++ [s]⟩ l =
        ⟨pre, ss ++ [{ s with lines := s.lines ++ [l] }]⟩ := by
      rw [addLine, List.getLast?_concat, List.dropLast_concat]
    rw [parseLines_cons, parseLine_of_fine (hls l List.mem_cons_self).1, hadd, Except.bind,
      ih fun l hl => hls l (List.mem_cons_of_mem _ hl), List.append_assoc]
    rfl

/-- The sections of a registry are parsed one after the other. -/
theorem parseLines_sections {pre : List Text} {ss ss' : List Section}
    (hlines : ∀ s ∈ ss', ∀ l ∈ s.lines, Fine l) (hnames : ∀ s ∈ ss', validAlias s.name = true)
    (hnodup : ((ss ++ ss').map (·.name)).Nodup) :
    parseLines n ⟨pre, ss⟩ (ss'.flatMap fun s => ('[' :: s.name ++ [']']) :: s.lines) =
      .ok ⟨pre, ss ++ ss'⟩ := by
  induction ss' generalizing n ss with
  | nil => rw [List.append_nil]; rfl
  | cons s rest ih =>
    have hfresh : ∀ t ∈ ss, t.name ≠ s.name := by
      rw [List.map_append, List.nodup_append] at hnodup
      intro t ht
      exact hnodup.2.2 _ (List.mem_map_of_mem ht) _ (List.mem_map_of_mem List.mem_cons_self)
    have hnext : ss ++ s :: rest = ss ++ [s] ++ rest := by rw [List.append_assoc]; rfl
    rw [hnext] at hnodup
    rw [List.flatMap_cons, List.cons_append, parseLines_cons,
      parseLine_header (hnames s List.mem_cons_self) hfresh, Except.bind, parseLines_append,
      parseLines_section (hlines s List.mem_cons_self), Except.bind, List.nil_append,
      ih (fun t ht => hlines t (List.mem_cons_of_mem _ ht))
        (fun t ht => hnames t (List.mem_cons_of_mem _ ht)) hnodup, hnext]

/-- What `to_text` wrote is parsed as what it was written from. -/
theorem WellFormed.parse_allLines (h : cfg.WellFormed) : parseLines n {} cfg.allLines = .ok cfg := by
  have hpre : parseLines n {} cfg.preamble = .ok ⟨cfg.preamble, []⟩ :=
    parseLines_preamble h.preamble
  have hsections : parseLines (n + cfg.preamble.length) ⟨cfg.preamble, []⟩
      (cfg.sections.flatMap fun s => ('[' :: s.name ++ [']']) :: s.lines) = .ok cfg :=
    parseLines_sections h.lines h.names h.nodup
  rw [allLines, parseLines_append, hpre]
  exact hsections

/-! ### What the text says -/

theorem parseLine_cases {raw : Text} (h : cfg.parseLine n raw = .ok cfg') :
    (∃ inner, trim raw = '[' :: inner ++ [']'] ∧ validAlias (trim inner) = true ∧
      (∀ s ∈ cfg.sections, s.name ≠ trim inner) ∧
      cfg' = { cfg with sections := cfg.sections ++ [⟨trim inner, []⟩] }) ∨
    ((trim raw).head? ≠ some '[' ∧ cfg' = cfg.addLine raw) := by
  rw [parseLine] at h
  dsimp only at h
  split_ifs at h with hopen hclose hname hdup
  · left
    obtain ⟨rest, hrest⟩ := List.head?_eq_some_iff.1 hopen
    rw [hrest, List.tail_cons] at hclose hname hdup h
    obtain ⟨inner, rfl⟩ := List.getLast?_eq_some_iff.1 hclose
    rw [List.dropLast_concat] at hname hdup h
    refine ⟨inner, hrest, by simpa using hname, ?_, (Except.ok.inj h).symm⟩
    intro s hs hs'
    exact hdup (List.any_eq_true.2 ⟨s, hs, decide_eq_true hs'⟩)
  · exact .inr ⟨hopen, (Except.ok.inj h).symm⟩

theorem addLine_cases (cfg : Config) (raw : Text) :
    (cfg.sections = [] ∧ cfg.addLine raw = ⟨cfg.preamble ++ [raw], []⟩) ∨
    ∃ ss s, cfg.sections = ss ++ [s] ∧
      cfg.addLine raw = ⟨cfg.preamble, ss ++ [{ s with lines := s.lines ++ [raw] }]⟩ := by
  obtain ⟨pre, sections⟩ := cfg
  rcases List.eq_nil_or_concat' sections with rfl | ⟨ss, s, rfl⟩
  · exact .inl ⟨rfl, rfl⟩
  · refine .inr ⟨ss, s, rfl, ?_⟩
    rw [addLine, List.getLast?_concat, List.dropLast_concat]

theorem WellFormed.addLine {raw : Text} (h : cfg.WellFormed) (hraw : Fine raw) :
    (cfg.addLine raw).WellFormed := by
  rcases addLine_cases cfg raw with ⟨hnone, hadd⟩ | ⟨ss, s, hss, hadd⟩
  · rw [hadd]
    refine ⟨?_, List.forall_mem_nil _, List.forall_mem_nil _, List.nodup_nil⟩
    intro l hl
    rcases List.mem_append.1 hl with hl | hl
    · exact h.preamble l hl
    · rwa [List.mem_singleton.1 hl]
  · obtain ⟨hpre, hlines, hnames, hnodup⟩ := h
    rw [hss] at hlines hnames hnodup
    rw [hadd]
    refine ⟨hpre, ?_, ?_, by simpa using hnodup⟩
    · intro t ht l hl
      rcases List.mem_append.1 ht with ht | ht
      · exact hlines t (List.mem_append_left _ ht) l hl
      · rw [List.mem_singleton.1 ht] at hl
        rcases List.mem_append.1 hl with hl | hl
        · exact hlines s (List.mem_append_right _ List.mem_cons_self) l hl
        · rwa [List.mem_singleton.1 hl]
    · intro t ht
      rcases List.mem_append.1 ht with ht | ht
      · exact hnames t (List.mem_append_left _ ht)
      · rw [List.mem_singleton.1 ht]
        exact hnames s (List.mem_append_right _ List.mem_cons_self)

theorem WellFormed.addSection (h : cfg.WellFormed) (hs : ∀ l ∈ s.lines, Fine l)
    (hname : validAlias s.name = true) (hnew : ∀ t ∈ cfg.sections, t.name ≠ s.name) :
    WellFormed { cfg with sections := cfg.sections ++ [s] } := by
  refine ⟨h.preamble, ?_, ?_, ?_⟩
  · intro t ht
    rcases List.mem_append.1 ht with ht | ht
    · exact h.lines t ht
    · rwa [List.mem_singleton.1 ht]
  · intro t ht
    rcases List.mem_append.1 ht with ht | ht
    · exact h.names t ht
    · rwa [List.mem_singleton.1 ht]
  · rw [List.map_append, List.nodup_append]
    refine ⟨h.nodup, by simp, ?_⟩
    intro name hmem name' hmem'
    obtain ⟨t, ht, rfl⟩ := List.mem_map.1 hmem
    rw [List.mem_singleton.1 hmem']
    exact hnew t ht

theorem WellFormed.parseLine {raw : Text} (h : cfg.WellFormed) (hraw : '\n' ∉ raw)
    (hparse : cfg.parseLine n raw = .ok cfg') : cfg'.WellFormed := by
  rcases parseLine_cases hparse with ⟨inner, -, hname, hnew, rfl⟩ | ⟨hplain, rfl⟩
  · exact h.addSection (List.forall_mem_nil _) hname hnew
  · exact h.addLine (fine_of_notMem hplain hraw)

theorem WellFormed.parseLines (h : cfg.WellFormed) (hls : ∀ l ∈ ls, '\n' ∉ l)
    (hparse : parseLines n cfg ls = .ok cfg') : cfg'.WellFormed := by
  induction ls generalizing n cfg with
  | nil => rwa [← Except.ok.inj hparse]
  | cons l ls ih =>
    rw [parseLines_cons] at hparse
    rcases hline : cfg.parseLine n l with e | cfg₁
    · rw [hline] at hparse
      cases hparse
    · rw [hline] at hparse
      exact ih (h.parseLine (hls l List.mem_cons_self) hline)
        (fun l hl => hls l (List.mem_cons_of_mem _ hl)) hparse

theorem wellFormed_empty : WellFormed {} :=
  ⟨List.forall_mem_nil _, List.forall_mem_nil _, List.forall_mem_nil _, List.nodup_nil⟩

theorem wellFormed_of_parse {text : Text} (h : parse text = .ok cfg) : cfg.WellFormed :=
  wellFormed_empty.parseLines (newline_notMem_lines text) h

end Config

/-! ### After a save -/

/-- Sections that say the same. -/
structure Section.SameReading (s t : Section) : Prop where
  name : s.name = t.name
  lines : ∀ home name d d',
    Draft.lines home name d s.lines = .ok d' ↔ Draft.lines home name d t.lines = .ok d'

theorem Section.SameReading.refl (s : Section) : s.SameReading s := ⟨rfl, fun _ _ _ _ => Iff.rfl⟩

theorem Section.SameReading.trans {s t u : Section} (h : s.SameReading t) (h' : t.SameReading u) :
    s.SameReading u :=
  ⟨h.name.trans h'.name, fun home name d d' =>
    (h.lines home name d d').trans (h'.lines home name d d')⟩

theorem Section.SameReading.symm {s t : Section} (h : s.SameReading t) : t.SameReading s :=
  ⟨h.name.symm, fun home name d d' => (h.lines home name d d').symm⟩

theorem Section.sameReading_onFile {s : Section} (h : ∀ l ∈ s.lines, Fine l) :
    s.SameReading { s with lines := onFile s.lines } :=
  ⟨rfl, fun _ _ _ _ => (Draft.lines_onFile h).symm⟩

theorem Section.sameReading_append_blank {s : Section} (hls : ∀ l ∈ ls, Blank l) :
    s.SameReading { s with lines := s.lines ++ ls } :=
  ⟨rfl, fun _ _ _ _ => by rw [Draft.lines_append_blank hls]⟩

theorem Section.SameReading.vaultFrom {home : Home} {v : Vault} (h : s.SameReading t)
    (hs : s.vaultFrom home = .ok v) : t.vaultFrom home = .ok v := by
  rw [Section.vaultFrom] at hs ⊢
  rcases hdraft : Draft.lines home s.name {} s.lines with e | d
  · rw [hdraft] at hs
    cases hs
  · rw [← h.name, (h.lines home s.name {} d).1 hdraft]
    rw [hdraft] at hs
    exact hs

namespace Config

/-- Registries that say the same. -/
def SameReading (cfg cfg' : Config) : Prop :=
  List.Forall₂ Section.SameReading cfg.sections cfg'.sections

theorem SameReading.refl (cfg : Config) : cfg.SameReading cfg :=
  List.forall₂_same.2 fun s _ => Section.SameReading.refl s

theorem SameReading.symm (h : cfg.SameReading cfg') : cfg'.SameReading cfg :=
  List.Forall₂.flip (h.imp fun _ _ h => h.symm)

theorem SameReading.trans {cfg₁ cfg₂ cfg₃ : Config} (h : cfg₁.SameReading cfg₂)
    (h' : cfg₂.SameReading cfg₃) : cfg₁.SameReading cfg₃ := by
  obtain ⟨_, ss₁⟩ := cfg₁
  obtain ⟨_, ss₂⟩ := cfg₂
  obtain ⟨_, ss₃⟩ := cfg₃
  rw [SameReading] at h h' ⊢
  dsimp only at h h' ⊢
  induction h generalizing ss₃ with
  | nil => exact h'
  | cons hs _ ih =>
    cases h' with
    | cons hs' hrest' => exact List.Forall₂.cons (hs.trans hs') (ih _ hrest')

theorem allLines_onFile (h : cfg.WellFormed) :
    CofferFS.onFile cfg.allLines =
      allLines ⟨CofferFS.onFile cfg.preamble,
        cfg.sections.map fun s => { s with lines := CofferFS.onFile s.lines }⟩ := by
  obtain ⟨pre, sections⟩ := cfg
  have hsections : CofferFS.onFile
        (sections.flatMap fun s => ('[' :: s.name ++ [']']) :: s.lines) =
      (sections.map fun s => { s with lines := CofferFS.onFile s.lines }).flatMap
        fun s => ('[' :: s.name ++ [']']) :: s.lines := by
    have hnames := h.names
    clear h
    induction sections with
    | nil => rfl
    | cons s ss ih =>
      have hnl : '\n' ∉ '[' :: s.name ++ [']'] := by
        intro hmem
        rcases List.mem_append.1 hmem with hmem | hmem
        · rcases List.mem_cons.1 hmem with hmem | hmem
          · exact absurd hmem (by decide)
          · exact absurd (isWs_of_validAlias (hnames s List.mem_cons_self) _ hmem) (by decide)
        · exact absurd (List.mem_singleton.1 hmem) (by decide)
      have hcr : stripCr ('[' :: s.name ++ [']']) = '[' :: s.name ++ [']'] := by
        rw [stripCr, List.getLast?_concat, if_neg (by decide)]
      have hhead : CofferFS.onFile (('[' :: s.name ++ [']']) :: s.lines) =
          ('[' :: s.name ++ [']']) :: CofferFS.onFile s.lines := by
        rw [CofferFS.onFile, pieces_cons, List.splitOn_eq_singleton hnl, List.map_append,
          List.map_singleton, hcr]
        rfl
      rw [List.flatMap_cons, CofferFS.onFile_append, hhead,
        ih fun t ht => hnames t (List.mem_cons_of_mem _ ht)]
      rfl
  rw [allLines, CofferFS.onFile_append, hsections]
  rfl

theorem WellFormed.onFile (h : cfg.WellFormed) :
    WellFormed ⟨CofferFS.onFile cfg.preamble,
      cfg.sections.map fun s => { s with lines := CofferFS.onFile s.lines }⟩ := by
  refine ⟨Fine.onFile h.preamble, ?_, ?_, ?_⟩
  · intro t ht
    obtain ⟨s, hs, rfl⟩ := List.mem_map.1 ht
    exact Fine.onFile (h.lines s hs)
  · intro t ht
    obtain ⟨s, hs, rfl⟩ := List.mem_map.1 ht
    exact h.names s hs
  · rw [List.map_map]
    exact h.nodup

/-- One more blank line at the end of the text. -/
theorem sameReading_addLine (cfg : Config) : cfg.SameReading (cfg.addLine []) := by
  rcases addLine_cases cfg [] with ⟨hnone, hadd⟩ | ⟨ss, s, hss, hadd⟩
  · rw [hadd, SameReading, hnone]
    exact List.Forall₂.nil
  · rw [hadd, SameReading, hss]
    refine List.rel_append (List.forall₂_same.2 fun s _ => Section.SameReading.refl s)
      (List.Forall₂.cons ?_ List.Forall₂.nil)
    exact Section.sameReading_append_blank (by simp [blank_nil])

theorem sameReading_blanks {k : ℕ} (h : parseLines n cfg (List.replicate k []) = .ok cfg') :
    cfg.SameReading cfg' := by
  induction k generalizing n cfg with
  | zero =>
    rw [← Except.ok.inj h]
    exact SameReading.refl cfg
  | succ k ih =>
    rw [List.replicate_succ, parseLines_cons, parseLine_of_fine (by decide)] at h
    exact (sameReading_addLine cfg).trans (ih h)

/-- A save and a load: no section says anything else. Only blank lines at the very end go. -/
theorem exists_reparse (h : cfg.WellFormed) :
    ∃ cfg', parse cfg.toText = .ok cfg' ∧ cfg'.WellFormed ∧ cfg.SameReading cfg' := by
  obtain ⟨kept, k, hkept, hpop⟩ := popBlanks_unlines cfg.allLines
  have hnl : ∀ l ∈ kept, '\n' ∉ l := by
    intro l hl
    apply newline_notMem_pieces cfg.allLines l
    rw [hkept]
    exact List.mem_append_left _ hl
  have hlines : lines cfg.toText = kept.map stripCr := by
    rw [toText, hpop, lines_unlines, pieces_of_notMem hnl]
  have hall : kept.map stripCr ++ List.replicate k [] = CofferFS.onFile cfg.allLines := by
    rw [CofferFS.onFile, hkept, List.map_append, List.map_replicate]
    rfl
  have hfile : parseLines 1 {} (kept.map stripCr ++ List.replicate k []) =
      .ok ⟨CofferFS.onFile cfg.preamble,
        cfg.sections.map fun s => { s with lines := CofferFS.onFile s.lines }⟩ := by
    rw [hall, allLines_onFile h]
    exact h.onFile.parse_allLines
  have hsame : cfg.SameReading ⟨CofferFS.onFile cfg.preamble,
      cfg.sections.map fun s => { s with lines := CofferFS.onFile s.lines }⟩ := by
    rw [SameReading, List.forall₂_map_right_iff, List.forall₂_same]
    exact fun s hs => Section.sameReading_onFile (h.lines s hs)
  rw [parseLines_append] at hfile
  rcases hparse : parseLines 1 {} (kept.map stripCr) with e | cfg'
  · rw [hparse] at hfile
    cases hfile
  · rw [hparse] at hfile
    have hok : parse cfg.toText = .ok cfg' := by rw [parse, hlines, hparse]
    exact ⟨cfg', hok, wellFormed_of_parse hok, hsame.trans (sameReading_blanks hfile).symm⟩

end Config

end Parsing

/-! ## What `render` writes is read as the vault -/

namespace Vault

/-- The paths in a vault. -/
def paths (v : Vault) : List Text :=
  [v.file, v.mountpoint] ++ v.passwordFile.toList ++ v.logFile.toList

/-- The durations in a vault. -/
def durations (v : Vault) : List Text := v.idleTimeout.toList ++ v.compactOnIdle.toList

/-- What `std::path::absolute` has made of the paths. -/
def Absolute (v : Vault) : Prop := ∀ p ∈ v.paths, p.head? = some '/'

/-- The values of the vault can be written on a line and read from it. -/
structure Writable (v : Vault) : Prop where
  path : ∀ p ∈ v.paths, '\n' ∉ p ∧ trimEnd p = p
  command : ∀ c ∈ v.passwordCommand, '\n' ∉ c ∧ c ≠ [] ∧ unquote c = c
  duration : ∀ d ∈ v.durations, '\n' ∉ d.takeWhile isWs

/-- The vault, without the white space around its durations. -/
def trimmed (v : Vault) : Vault :=
  { v with idleTimeout := v.idleTimeout.map trim, compactOnIdle := v.compactOnIdle.map trim }

end Vault

section Rendering

variable {key value t : Text} {home : Home} {name : Text} {d d₁ d₂ : Draft} {v : Vault}

theorem Vault.validAlias_of_acceptable (hv : v.acceptable = true) :
    validAlias v.alias = true := by
  rw [Vault.acceptable, Bool.and_eq_true, Bool.and_eq_true] at hv
  exact hv.1.1

theorem unquote_space : unquote (' ' :: t) = unquote t := by
  have htrim : trim ([' '] ++ t) = trim t := trim_append_left (by decide)
  rw [unquote, unquote, ← htrim]
  rfl

/-- A line of `render` sets its key. -/
theorem Draft.line_entry (hkey : validAlias key = true) (hvalue : unquote value ≠ []) :
    Draft.line home name d (entry key value) = d.set home name key (unquote value) := by
  have hws := isWs_of_validAlias hkey
  have hequals : '=' ∉ key ++ [' '] := by
    intro h
    rcases List.mem_append.1 h with h | h
    · rw [validAlias, Bool.and_eq_true, List.all_eq_true] at hkey
      exact absurd (hkey.2 '=' h) (by decide)
    · exact absurd (List.mem_singleton.1 h) (by decide)
  have hentry : entry key value = key ++ [' '] ++ '=' :: ' ' :: value := by
    rw [entry, List.append_assoc]
    rfl
  have hcomment : isComment (entry key value) = false := by
    cases key with
    | nil => cases hkey
    | cons c rest =>
      have halpha : c.isAlphanum = true := (Bool.and_eq_true_iff.1 hkey).1
      rw [isComment, entry, List.cons_append, trimStart_cons (hws c List.mem_cons_self)]
      dsimp only
      rw [Bool.or_eq_false_iff, beq_eq_false_iff_ne, beq_eq_false_iff_ne]
      refine ⟨?_, ?_⟩
      · rintro rfl
        exact absurd halpha (by decide)
      · rintro rfl
        exact absurd halpha (by decide)
  have htrim : trim (key ++ [' ']) = key := by
    rw [trim_append_right (by decide), trim_of_isWs hws]
  rw [Draft.line, hcomment, hentry, splitOnce_append_cons hequals]
  simp only [Bool.false_eq_true, if_false, unquote_space, if_neg hvalue, htrim]

theorem Draft.lines_append_ok {ls ls' : List Text} (h : Draft.lines home name d ls = .ok d₁)
    (h' : Draft.lines home name d₁ ls' = .ok d₂) :
    Draft.lines home name d (ls ++ ls') = .ok d₂ := by
  rw [Draft.lines_append, h]
  exact h'

theorem Draft.lines_singleton : Draft.lines home name d [t] = Draft.line home name d t := by
  rw [Draft.lines_cons]
  rcases Draft.line home name d t with e | d <;> rfl

/-! ### Values -/

theorem unquote_of_absolute (habs : t.head? = some '/') (hend : trimEnd t = t) : unquote t = t := by
  obtain ⟨rest, rfl⟩ := List.head?_eq_some_iff.1 habs
  have htrim : trim ('/' :: rest) = '/' :: rest := trim_cons_of_trimEnd (by decide) hend
  have hquoted : quoted ('/' :: rest) = false := by
    rw [quoted, List.head?_cons]
    simp
  rw [unquote, htrim, hquoted]
  rfl

theorem expandTilde_of_absolute (habs : t.head? = some '/') : expandTilde home t = t := by
  obtain ⟨rest, rfl⟩ := List.head?_eq_some_iff.1 habs
  rfl

/-- A character that a duration may have. -/
def isDurationChar (c : Char) : Bool := c.isAlphanum || c == '+' || c == '-' || c == '.'

theorem isDurationChar_of_isDigit {c : Char} (h : c.isDigit = true) : isDurationChar c = true := by
  rw [isDurationChar, Char.isAlphanum, h, Bool.or_true]
  rfl

theorem isDurationChar_of_parseDigits {negative : Bool} {e : ℤ}
    (h : parseDigits negative t = some e) : ∀ c ∈ t, isDurationChar c = true := by
  intro c hc
  rw [parseDigits] at h
  split_ifs at h with hall
  all_goals exact isDurationChar_of_isDigit (List.all_eq_true.1 hall.2 c hc)

theorem isDurationChar_of_parseExponent {e : ℤ} (h : parseExponent t = some e) :
    ∀ c ∈ t, isDurationChar c = true := by
  cases t with
  | nil => exact List.forall_mem_nil _
  | cons c rest =>
    unfold parseExponent at h
    dsimp only at h
    split_ifs at h with hc
    have hhead : isDurationChar c = true := by rcases hc with rfl | rfl <;> decide
    split at h
    · have hds := isDurationChar_of_parseDigits h
      exact List.forall_mem_cons.2 ⟨hhead, List.forall_mem_cons.2 ⟨by decide, hds⟩⟩
    · have hds := isDurationChar_of_parseDigits h
      exact List.forall_mem_cons.2 ⟨hhead, List.forall_mem_cons.2 ⟨by decide, hds⟩⟩
    · exact List.forall_mem_cons.2 ⟨hhead, isDurationChar_of_parseDigits h⟩

theorem isDurationChar_of_parseNumber {q : ℚ} (h : parseNumber t = some q) :
    t ≠ [] ∧ ∀ c ∈ t, isDurationChar c = true := by
  have hdigits (t : Text) : ∀ c ∈ t.takeWhile Char.isDigit, isDurationChar c = true :=
    fun c hc => isDurationChar_of_isDigit (List.mem_takeWhile_imp hc)
  rw [parseNumber] at h
  split_ifs at h with hdot hnone hnone
  · obtain ⟨e, he, -⟩ := Option.map_eq_some_iff.1 h
    obtain ⟨rest, hrest⟩ := List.head?_eq_some_iff.1 hdot
    rw [hrest, List.tail_cons] at he
    have ht : t = t.takeWhile Char.isDigit ++
        '.' :: (rest.takeWhile Char.isDigit ++ rest.dropWhile Char.isDigit) := by
      rw [List.takeWhile_append_dropWhile, ← hrest, List.takeWhile_append_dropWhile]
    refine ⟨?_, ?_⟩
    · rw [ht]
      simp
    · rw [ht]
      refine List.forall_mem_append.2 ⟨hdigits t, List.forall_mem_cons.2 ⟨by decide, ?_⟩⟩
      exact List.forall_mem_append.2 ⟨hdigits rest, isDurationChar_of_parseExponent he⟩
  · obtain ⟨e, he, -⟩ := Option.map_eq_some_iff.1 h
    refine ⟨?_, ?_⟩
    · rintro rfl
      exact hnone ⟨rfl, rfl⟩
    · rw [← List.takeWhile_append_dropWhile (p := Char.isDigit) (l := t)]
      exact List.forall_mem_append.2 ⟨hdigits t, isDurationChar_of_parseExponent he⟩

theorem isDurationChar_of_parseF64 {q : F64} (h : parseF64 t = some (.finite q)) :
    t ≠ [] ∧ ∀ c ∈ t, isDurationChar c = true := by
  obtain ⟨r, hr⟩ : ∃ r, parseNumber (unsigned t) = some r := by
    rcases hnum : parseNumber (unsigned t) with _ | r
    · rw [parseF64, exactNumber, hnum] at h
      split_ifs at h <;> cases h
    · exact ⟨r, rfl⟩
  obtain ⟨hne, hall⟩ := isDurationChar_of_parseNumber hr
  rw [unsigned] at hne hall
  split_ifs at hne hall with hsign
  · obtain ⟨sign, rest, rfl⟩ := List.exists_cons_of_ne_nil (l := t) (by rintro rfl; exact hne rfl)
    refine ⟨List.cons_ne_nil _ _, List.forall_mem_cons.2 ⟨?_, hall⟩⟩
    rcases hsign with hsign | hsign
    · rw [Option.some.inj hsign]
      decide
    · rw [Option.some.inj hsign]
      decide
  · exact ⟨hne, hall⟩

theorem exists_splitUnit (t : Text) :
    ∃ unit, t = (splitUnit t).1 ++ unit ∧ ∀ c ∈ unit, isDurationChar c = true := by
  rw [splitUnit]
  split
  all_goals first
    | exact ⟨_, (List.dropLast_append_getLast? _ (by assumption)).symm,
        List.all_eq_true.1 (by decide)⟩
    | exact ⟨[], (List.append_nil t).symm, List.forall_mem_nil _⟩

/-- A duration that is accepted has no white space inside it, and no quotes. -/
theorem isDurationChar_of_parseDuration (h : (parseDuration t).isSome = true) :
    trim t ≠ [] ∧ ∀ c ∈ trim t, isDurationChar c = true := by
  rw [parseDuration] at h
  split at h
  · obtain ⟨hne, hall⟩ := isDurationChar_of_parseF64 (by assumption)
    obtain ⟨unit, hunit, hchars⟩ := exists_splitUnit (trim t)
    refine ⟨?_, ?_⟩
    · rw [hunit]
      exact List.append_ne_nil_of_left_ne_nil hne _
    · rw [hunit]
      exact List.forall_mem_append.2 ⟨hall, hchars⟩
  · cases h

theorem unquote_of_parseDuration (h : (parseDuration t).isSome = true) : unquote t = trim t := by
  obtain ⟨hne, hall⟩ := isDurationChar_of_parseDuration h
  obtain ⟨c, rest, hc⟩ := List.exists_cons_of_ne_nil hne
  have hchar := hall c (by rw [hc]; exact List.mem_cons_self)
  have hquoted : quoted (trim t) = false := by
    rw [quoted, hc, List.head?_cons]
    have hdouble : c ≠ '"' := by
      rintro rfl
      exact absurd hchar (by decide)
    have hsingle : c ≠ '\'' := by
      rintro rfl
      exact absurd hchar (by decide)
    simp [hdouble, hsingle]
  rw [unquote, hquoted]
  rfl

/-! ### The lines of `render` -/

/-- An option that is written when it is there. -/
theorem Draft.lines_option {o : Option Text} {f : Option Text → Draft} {g : Text → Text}
    (hkey : validAlias key = true) (hnone : d = f none)
    (hsome : ∀ x ∈ o, unquote x = g x ∧ g x ≠ [] ∧ d.set home name key (g x) = .ok (f (g x))) :
    Draft.lines home name d (o.map (entry key)).toList = .ok (f (o.map g)) := by
  cases o with
  | none =>
    rw [hnone]
    rfl
  | some x =>
    obtain ⟨hquote, hne, hset⟩ := hsome x rfl
    rw [← hquote] at hne hset
    rw [Option.map_some, Option.toList_some, Draft.lines_singleton, Draft.line_entry hkey hne, hset,
      hquote]
    rfl

/-- A flag that is written when it is on. -/
theorem Draft.lines_flag {b : Bool} {f : Bool → Draft} (hkey : validAlias key = true)
    (hoff : d = f false) (hon : d.set home name key "true".toList = .ok (f true)) :
    Draft.lines home name d (if b then [entry key "true".toList] else []) = .ok (f b) := by
  cases b with
  | false =>
    rw [hoff]
    rfl
  | true =>
    have hquote : unquote "true".toList = "true".toList := by decide
    rw [if_pos rfl, Draft.lines_singleton, Draft.line_entry hkey (by decide), hquote, hon]

/-- The vault that is read is the one that was written. -/
theorem vaultFrom_render (hv : v.acceptable = true) (habs : v.Absolute) (hw : v.Writable) :
    Section.vaultFrom home ⟨v.alias, render v⟩ = .ok v.trimmed := by
  rw [Vault.acceptable, Bool.and_eq_true, Bool.and_eq_true] at hv
  have hpath : ∀ p ∈ v.paths, unquote p = p ∧ p ≠ [] ∧ expandTilde home p = p := by
    intro p hp
    refine ⟨unquote_of_absolute (habs p hp) (hw.path p hp).2, ?_,
      expandTilde_of_absolute (habs p hp)⟩
    rintro rfl
    cases habs [] hp
  have hduration {o : Option Text} (ho : o.all (fun d => (parseDuration d).isSome) = true) :
      ∀ x ∈ o, unquote x = trim x ∧ trim x ≠ [] := by
    rintro x rfl
    exact ⟨unquote_of_parseDuration ho, (isDurationChar_of_parseDuration ho).1⟩
  have hfile := hpath v.file (by simp [Vault.paths])
  have hmountpoint := hpath v.mountpoint (by simp [Vault.paths])
  let draft := Draft.mk v.file v.mountpoint
  let idle := v.idleTimeout.map trim
  let compact := v.compactOnIdle.map trim
  let password := v.passwordFile.map id
  let command := v.passwordCommand.map id
  let log := v.logFile.map id
  have hpaths : Draft.lines home v.alias {}
      [entry "file".toList v.file, entry "mountpoint".toList v.mountpoint] =
      .ok (draft none none none none none false false none) := by
    rw [Draft.lines_cons, Draft.line_entry (by decide) (by rw [hfile.1]; exact hfile.2.1), hfile.1]
    change (Except.ok { file := some (expandTilde home v.file) : Draft }).bind _ = _
    rw [Except.bind, Draft.lines_singleton,
      Draft.line_entry (by decide) (by rw [hmountpoint.1]; exact hmountpoint.2.1), hmountpoint.1]
    change Except.ok (Draft.mk (expandTilde home v.file) (expandTilde home v.mountpoint)
      none none none none none false false none) = _
    rw [hfile.2.2, hmountpoint.2.2]
  have hidle : Draft.lines home v.alias (draft none none none none none false false none)
      (v.idleTimeout.map (entry "idle_timeout".toList)).toList =
      .ok (draft idle none none none none false false none) :=
    Draft.lines_option (f := fun o => draft o none none none none false false none)
      (by decide) rfl fun x hx => ⟨(hduration hv.1.2 x hx).1, (hduration hv.1.2 x hx).2, rfl⟩
  have hcompact : Draft.lines home v.alias (draft idle none none none none false false none)
      (v.compactOnIdle.map (entry "compact_on_idle".toList)).toList =
      .ok (draft idle compact none none none false false none) :=
    Draft.lines_option (f := fun o => draft idle o none none none false false none)
      (by decide) rfl fun x hx => ⟨(hduration hv.2 x hx).1, (hduration hv.2 x hx).2, rfl⟩
  have hpassword : Draft.lines home v.alias (draft idle compact none none none false false none)
      (v.passwordFile.map (entry "password_file".toList)).toList =
      .ok (draft idle compact password none none false false none) := by
    refine Draft.lines_option (f := fun o => draft idle compact o none none false false none)
      (by decide) rfl fun x hx => ?_
    obtain ⟨hquote, hne, htilde⟩ := hpath x (by simp [Vault.paths, Option.mem_def.1 hx])
    refine ⟨hquote, hne, ?_⟩
    change Except.ok (draft idle compact (expandTilde home x) none none false false none) = _
    rw [htilde]
    rfl
  have hcommand : Draft.lines home v.alias (draft idle compact password none none false false none)
      (v.passwordCommand.map (entry "password_command".toList)).toList =
      .ok (draft idle compact password command none false false none) :=
    Draft.lines_option (f := fun o => draft idle compact password o none false false none)
      (by decide) rfl fun x hx => ⟨(hw.command x hx).2.2, (hw.command x hx).2.1, rfl⟩
  have hlog : Draft.lines home v.alias (draft idle compact password command none false false none)
      (v.logFile.map (entry "log_file".toList)).toList =
      .ok (draft idle compact password command log false false none) := by
    refine Draft.lines_option (f := fun o => draft idle compact password command o false false none)
      (by decide) rfl fun x hx => ?_
    obtain ⟨hquote, hne, htilde⟩ := hpath x (by simp [Vault.paths, Option.mem_def.1 hx])
    refine ⟨hquote, hne, ?_⟩
    change Except.ok
      (draft idle compact password command (expandTilde home x) false false none) = _
    rw [htilde]
    rfl
  have hreadOnly : Draft.lines home v.alias (draft idle compact password command log false false none)
      (if v.readOnly then [entry "read_only".toList "true".toList] else []) =
      .ok (draft idle compact password command log v.readOnly false none) :=
    Draft.lines_flag (f := fun b => draft idle compact password command log b false none)
      (by decide) rfl rfl
  have henforce : Draft.lines home v.alias
      (draft idle compact password command log v.readOnly false none)
      (if v.enforcePermissions then [entry "enforce_permissions".toList "true".toList] else []) =
      .ok (draft idle compact password command log v.readOnly v.enforcePermissions none) :=
    Draft.lines_flag (f := fun b => draft idle compact password command log v.readOnly b none)
      (by decide) rfl rfl
  have hlocking : Draft.lines home v.alias
      (draft idle compact password command log v.readOnly v.enforcePermissions none)
      (v.locking.map fun l => entry "locking".toList l.asStr).toList =
      .ok (draft idle compact password command log v.readOnly v.enforcePermissions v.locking) := by
    cases v.locking with
    | none => rfl
    | some l =>
      have hquote : unquote l.asStr = l.asStr := by cases l <;> decide
      have hne : unquote l.asStr ≠ [] := by cases l <;> decide
      rw [Option.map_some, Option.toList_some, Draft.lines_singleton,
        Draft.line_entry (by decide) hne, hquote]
      cases l <;> rfl
  have hlines : Draft.lines home v.alias {} (render v) =
      .ok (draft idle compact password command log v.readOnly v.enforcePermissions v.locking) :=
    Draft.lines_append_ok (Draft.lines_append_ok (Draft.lines_append_ok (Draft.lines_append_ok
      (Draft.lines_append_ok (Draft.lines_append_ok (Draft.lines_append_ok (Draft.lines_append_ok
        hpaths hidle) hcompact) hpassword) hcommand) hlog) hreadOnly) henforce) hlocking
  rw [Section.vaultFrom, hlines]
  simp only [password, command, log, Option.map_id_fun, id]
  rfl

theorem mem_render {l : Text} (h : l ∈ render v) :
    ∃ key value, l = entry key value ∧ validAlias key = true ∧
      (value ∈ v.paths ∨ value ∈ v.durations ∨ value ∈ v.passwordCommand ∨ '\n' ∉ value) := by
  simp only [render, List.mem_append, List.mem_cons, List.not_mem_nil, or_false, Option.mem_toList,
    Option.map_eq_some_iff] at h
  have hbool {b : Bool} {key : Text} (h : l ∈ if b then [entry key "true".toList] else []) :
      l = entry key "true".toList := by
    split_ifs at h with hb
    · exact List.mem_singleton.1 h
    · cases h
  rcases h with (((((((h | ⟨x, hx, rfl⟩) | ⟨x, hx, rfl⟩) | ⟨x, hx, rfl⟩) | ⟨x, hx, rfl⟩) |
    ⟨x, hx, rfl⟩) | h) | h) | ⟨x, hx, rfl⟩
  · rcases h with rfl | rfl
    · exact ⟨_, _, rfl, by decide, .inl (by simp [Vault.paths])⟩
    · exact ⟨_, _, rfl, by decide, .inl (by simp [Vault.paths])⟩
  · exact ⟨_, _, rfl, by decide, .inr (.inl (by simp [Vault.durations, hx]))⟩
  · exact ⟨_, _, rfl, by decide, .inr (.inl (by simp [Vault.durations, hx]))⟩
  · exact ⟨_, _, rfl, by decide, .inl (by simp [Vault.paths, hx])⟩
  · exact ⟨_, _, rfl, by decide, .inr (.inr (.inl hx))⟩
  · exact ⟨_, _, rfl, by decide, .inl (by simp [Vault.paths, hx])⟩
  · exact ⟨_, _, hbool h, by decide, .inr (.inr (.inr (by decide)))⟩
  · exact ⟨_, _, hbool h, by decide, .inr (.inr (.inr (by decide)))⟩
  · exact ⟨_, _, rfl, by decide, .inr (.inr (.inr (by cases x <;> decide)))⟩

theorem newline_notMem_of_validAlias (hkey : validAlias key = true) : '\n' ∉ key := by
  intro h
  exact absurd (isWs_of_validAlias hkey _ h) (by decide)

theorem fine_entry {w : Text} (hkey : validAlias key = true) (ht : '\n' ∉ t) (hw : Blank w) :
    Fine (entry key (t ++ w)) := by
  refine ⟨?_, ?_⟩
  · cases key with
    | nil => cases hkey
    | cons c rest =>
      rw [entry, List.cons_append, head?_trim_cons (isWs_of_validAlias hkey c List.mem_cons_self)]
      intro h
      rw [validAlias, List.head?_cons, Option.some.inj h] at hkey
      cases hkey
  · have hentry : entry key (t ++ w) = entry key t ++ w := by
      rw [entry, entry, List.append_assoc, List.append_assoc]
    have hnl : '\n' ∉ entry key t := by
      rw [entry, List.mem_append, List.mem_append, not_or, not_or]
      exact ⟨newline_notMem_of_validAlias hkey, by decide, ht⟩
    obtain ⟨w', hend, -⟩ := exists_trimEnd (entry key t)
    rw [hentry, trimEnd_append hw]
    intro hmem
    apply hnl
    rw [hend]
    exact List.mem_append_left _ hmem

theorem newline_notMem_of_parseDuration (h : (parseDuration t).isSome = true) :
    '\n' ∉ trim t := by
  intro hmem
  exact absurd ((isDurationChar_of_parseDuration h).2 _ hmem) (by decide)

/-- What `render` writes stays on its lines. -/
theorem fine_render (hv : v.acceptable = true) (hw : v.Writable) : ∀ l ∈ render v, Fine l := by
  intro l hl
  obtain ⟨key, value, rfl, hkey, hvalue⟩ := mem_render hl
  have hplain (hnl : '\n' ∉ value) : Fine (entry key value) := by
    have hfine := fine_entry hkey hnl blank_nil
    rwa [List.append_nil] at hfine
  rcases hvalue with hvalue | hvalue | hvalue | hvalue
  · exact hplain (hw.path value hvalue).1
  · rw [Vault.acceptable, Bool.and_eq_true, Bool.and_eq_true] at hv
    have hparse : (parseDuration value).isSome = true := by
      rcases List.mem_append.1 hvalue with hmem | hmem
      · rw [Option.mem_toList] at hmem
        rw [hmem] at hv
        exact hv.1.2
      · rw [Option.mem_toList] at hmem
        rw [hmem] at hv
        exact hv.2
    -- the white space before the number is on the line, that after it need not be
    obtain ⟨w, hend, hblank⟩ := exists_trimEnd (trimStart value)
    have hsplit : value = value.takeWhile isWs ++ trim value ++ w := by
      rw [List.append_assoc, trim, ← hend]
      exact List.takeWhile_append_dropWhile.symm
    have hnl : '\n' ∉ value.takeWhile isWs ++ trim value := by
      rw [List.mem_append, not_or]
      exact ⟨hw.duration value hvalue, newline_notMem_of_parseDuration hparse⟩
    rw [hsplit]
    exact fine_entry hkey hnl hblank
  · exact hplain (hw.command value hvalue).1
  · exact hplain hvalue

end Rendering

/-! ## What an edit does to the registry -/

namespace Config

variable {cfg cfg' : Config} {home : Home} {name : Text} {o : Option Vault} {v : Vault}
  {ls : List Text} {ss ss' : List Section}

/-- The first section of that name is replaced, with at most a blank line at its end. -/
theorem replaceSection_some (h : replaceSection name ls ss = some ss') :
    ∃ pre s post blanks, ss = pre ++ s :: post ∧ s.name = name ∧ (∀ t ∈ pre, t.name ≠ name) ∧
      (∀ l ∈ blanks, l = []) ∧ ss' = pre ++ { s with lines := ls ++ blanks } :: post := by
  induction ss generalizing ss' with
  | nil => cases h
  | cons s rest ih =>
    rw [replaceSection] at h
    by_cases hname : s.name = name
    · rw [if_pos hname] at h
      refine ⟨[], s, rest, if s.lines.getLast?.any fun l => decide (trim l = []) then [[]] else [],
        rfl, hname, List.forall_mem_nil _, ?_, ?_⟩
      · intro l hl
        split_ifs at hl
        · exact List.mem_singleton.1 hl
        · cases hl
      · rw [← Option.some.inj h]
        split_ifs
        · rfl
        · rw [List.append_nil]
          rfl
    · rw [if_neg hname] at h
      obtain ⟨rest', hrest, rfl⟩ := Option.map_eq_some_iff.1 h
      obtain ⟨pre, t, post, blanks, rfl, ht, hpre, hblanks, rfl⟩ := ih hrest
      exact ⟨s :: pre, t, post, blanks, rfl, ht, List.forall_mem_cons.2 ⟨hname, hpre⟩, hblanks, rfl⟩

theorem replaceSection_none (h : replaceSection name ls ss = none) : ∀ s ∈ ss, s.name ≠ name := by
  induction ss with
  | nil => exact List.forall_mem_nil _
  | cons s rest ih =>
    rw [replaceSection] at h
    by_cases hname : s.name = name
    · rw [if_pos hname] at h
      cases h
    · rw [if_neg hname, Option.map_eq_none_iff] at h
      exact List.forall_mem_cons.2 ⟨hname, ih h⟩

/-- A vault replaces the section of its alias, or comes after the others and perhaps a blank
line. -/
theorem upsert_cases (cfg : Config) (v : Vault) :
    (∃ pre s post blanks, cfg.sections = pre ++ s :: post ∧ s.name = v.alias ∧
      (∀ t ∈ pre, t.name ≠ v.alias) ∧ (∀ l ∈ blanks, l = []) ∧
      (cfg.upsert v).1 = { cfg with
        sections := pre ++ { s with lines := render v ++ blanks } :: post }) ∨
    ((∀ s ∈ cfg.sections, s.name ≠ v.alias) ∧ ∃ cfg', (cfg' = cfg ∨ cfg' = cfg.addLine []) ∧
      (cfg.upsert v).1 = { cfg' with sections := cfg'.sections ++ [⟨v.alias, render v⟩] }) := by
  have hseparated (ls : List Text) : separated ls = ls ∨ separated ls = ls ++ [[]] := by
    rw [separated]
    split_ifs
    · exact .inr rfl
    · exact .inl rfl
  rcases hreplace : replaceSection v.alias (render v) cfg.sections with _ | sections
  · right
    refine ⟨replaceSection_none hreplace, ?_⟩
    rw [upsert, hreplace]
    dsimp only
    rcases addLine_cases cfg [] with ⟨hnone, hadd⟩ | ⟨ss, s, hss, hadd⟩
    · obtain ⟨pre, sections⟩ := cfg
      dsimp only at hnone hadd ⊢
      subst hnone
      rcases hseparated pre with hpre | hpre
      · refine ⟨_, .inl rfl, ?_⟩
        rw [List.getLast?_nil, hpre]
        rfl
      · refine ⟨_, .inr rfl, ?_⟩
        rw [List.getLast?_nil, hpre, hadd]
        rfl
    · rw [hss, List.getLast?_concat, List.dropLast_concat]
      dsimp only
      rcases hseparated s.lines with hlines | hlines
      · refine ⟨_, .inl rfl, ?_⟩
        rw [hlines, hss, List.append_assoc]
        rfl
      · refine ⟨_, .inr rfl, ?_⟩
        rw [hlines, hadd, List.append_assoc]
        rfl
  · left
    obtain ⟨pre, s, post, blanks, hss, hname, hpre, hblanks, rfl⟩ := replaceSection_some hreplace
    refine ⟨pre, s, post, blanks, hss, hname, hpre, hblanks, ?_⟩
    rw [upsert, hreplace]

theorem sameReading_of_separated (h : cfg' = cfg ∨ cfg' = cfg.addLine []) :
    cfg.SameReading cfg' := by
  rcases h with rfl | rfl
  · exact SameReading.refl _
  · exact sameReading_addLine cfg

/-! ### Lookups -/

theorem get_of_find_some {s : Section} (h : cfg.sections.find? (·.name = name) = some s) :
    cfg.get home name = (s.vaultFrom home).map some := by
  rw [get, h]

theorem get_of_forall_ne (h : ∀ s ∈ cfg.sections, s.name ≠ name) : cfg.get home name = .ok none := by
  have hfind : cfg.sections.find? (·.name = name) = none := by
    rw [List.find?_eq_none]
    intro s hs
    rw [decide_eq_true_eq]
    exact h s hs
  rw [get, hfind]

theorem find_append_cons {pre post : List Section} {s : Section} (hpre : ∀ t ∈ pre, t.name ≠ name)
    (hs : s.name = name) : (pre ++ s :: post).find? (·.name = name) = some s := by
  have hnone : pre.find? (·.name = name) = none := by
    rw [List.find?_eq_none]
    intro t ht
    rw [decide_eq_true_eq]
    exact hpre t ht
  rw [List.find?_append, hnone, List.find?_cons_of_pos (by rw [decide_eq_true_eq]; exact hs)]
  rfl

theorem find_append_cons_ne {pre post : List Section} {s : Section} (hs : s.name ≠ name) :
    (pre ++ s :: post).find? (·.name = name) = (pre ++ post).find? (·.name = name) := by
  rw [List.find?_append, List.find?_append,
    List.find?_cons_of_neg (by rw [decide_eq_true_eq]; exact hs)]

theorem SameReading.get (h : cfg.SameReading cfg') (hget : cfg.get home name = .ok o) :
    cfg'.get home name = .ok o := by
  obtain ⟨_, ss⟩ := cfg
  obtain ⟨_, ss'⟩ := cfg'
  rw [SameReading] at h
  rw [Config.get] at hget ⊢
  dsimp only at h hget ⊢
  induction h with
  | nil => exact hget
  | @cons s t _ _ hst _ ih =>
    by_cases hname : s.name = name
    · have hname' : t.name = name := hst.name.symm.trans hname
      rw [List.find?_cons_of_pos (by rw [decide_eq_true_eq]; exact hname)] at hget
      rw [List.find?_cons_of_pos (by rw [decide_eq_true_eq]; exact hname')]
      dsimp only at hget ⊢
      rcases hvault : s.vaultFrom home with e | v
      · rw [hvault] at hget
        cases hget
      · rwa [hst.vaultFrom hvault, ← hvault]
    · have hname' : t.name ≠ name := fun h => hname (hst.name.trans h)
      rw [List.find?_cons_of_neg (by rw [decide_eq_true_eq]; exact hname)] at hget
      rw [List.find?_cons_of_neg (by rw [decide_eq_true_eq]; exact hname')]
      exact ih hget

theorem SameReading.names (h : cfg.SameReading cfg') :
    cfg.sections.map (·.name) = cfg'.sections.map (·.name) := by
  obtain ⟨_, ss⟩ := cfg
  obtain ⟨_, ss'⟩ := cfg'
  rw [SameReading] at h
  dsimp only at h ⊢
  induction h with
  | nil => rfl
  | cons hs _ ih => rw [List.map_cons, List.map_cons, hs.name, ih]

theorem SameReading.forall_ne (h : cfg.SameReading cfg') (hne : ∀ s ∈ cfg.sections, s.name ≠ name) :
    ∀ s ∈ cfg'.sections, s.name ≠ name := by
  have hnames : ∀ n ∈ cfg'.sections.map (·.name), n ≠ name := by
    rw [← h.names]
    intro n hn
    obtain ⟨s, hs, rfl⟩ := List.mem_map.1 hn
    exact hne s hs
  exact fun s hs => hnames s.name (List.mem_map_of_mem hs)

/-- Every section is found under its name, so all of them can be read. -/
theorem exists_vaults (hcfg : cfg.WellFormed) (hget : ∀ name, ∃ o, cfg.get home name = .ok o) :
    ∃ vs, cfg.vaults home = .ok vs := by
  have hread : ∀ s ∈ cfg.sections, ∃ v, s.vaultFrom home = .ok v := by
    intro s hs
    obtain ⟨pre, post, hss⟩ := List.append_of_mem hs
    have hpre : ∀ t ∈ pre, t.name ≠ s.name := by
      have hnodup := hcfg.nodup
      rw [hss, List.map_append, List.nodup_append] at hnodup
      intro t ht
      exact hnodup.2.2 _ (List.mem_map_of_mem ht) _ (List.mem_map_of_mem List.mem_cons_self)
    obtain ⟨o, ho⟩ := hget s.name
    rw [get_of_find_some (by rw [hss]; exact find_append_cons hpre rfl)] at ho
    rcases hvault : s.vaultFrom home with e | v
    · rw [hvault] at ho
      cases ho
    · exact ⟨v, rfl⟩
  rw [vaults]
  generalize cfg.sections = ss at hread ⊢
  induction ss with
  | nil => exact ⟨[], rfl⟩
  | cons s rest ih =>
    obtain ⟨v, hv⟩ := hread s List.mem_cons_self
    obtain ⟨vs, hvs⟩ := ih fun t ht => hread t (List.mem_cons_of_mem _ ht)
    refine ⟨v :: vs, ?_⟩
    rw [List.mapM_cons, hv, hvs]
    rfl

/-! ### Adding and removing -/

theorem WellFormed.upsert (h : cfg.WellFormed) (hv : v.acceptable = true) (hw : v.Writable) :
    (cfg.upsert v).1.WellFormed := by
  rcases upsert_cases cfg v with ⟨pre, s, post, blanks, hss, hname, -, hblanks, hup⟩ |
    ⟨hnone, cfg', hcfg', hup⟩
  · rw [hup]
    obtain ⟨hpre, hlines, hnames, hnodup⟩ := h
    rw [hss] at hlines hnames hnodup
    refine ⟨hpre, ?_, ?_, ?_⟩
    · intro t ht
      rcases List.mem_append.1 ht with ht | ht
      · exact hlines t (List.mem_append_left _ ht)
      · rcases List.mem_cons.1 ht with rfl | ht
        · refine List.forall_mem_append.2 ⟨fine_render hv hw, ?_⟩
          intro l hl
          rw [hblanks l hl]
          exact fine_of_blank blank_nil
        · exact hlines t (List.mem_append_right _ (List.mem_cons_of_mem _ ht))
    · intro t ht
      rcases List.mem_append.1 ht with ht | ht
      · exact hnames t (List.mem_append_left _ ht)
      · rcases List.mem_cons.1 ht with rfl | ht
        · exact hnames s (List.mem_append_right _ List.mem_cons_self)
        · exact hnames t (List.mem_append_right _ (List.mem_cons_of_mem _ ht))
    · rw [List.map_append, List.map_cons] at hnodup ⊢
      exact hnodup
  · rw [hup]
    have hwell : cfg'.WellFormed := by
      rcases hcfg' with rfl | rfl
      · exact h
      · exact h.addLine (fine_of_blank blank_nil)
    exact hwell.addSection (fine_render hv hw) (Vault.validAlias_of_acceptable hv)
      ((sameReading_of_separated hcfg').forall_ne hnone)

theorem get_upsert_self (hv : v.acceptable = true) (habs : v.Absolute) (hw : v.Writable) :
    (cfg.upsert v).1.get home v.alias = .ok (some v.trimmed) := by
  have hread : Section.vaultFrom home ⟨v.alias, render v⟩ = .ok v.trimmed :=
    vaultFrom_render hv habs hw
  rcases upsert_cases cfg v with ⟨pre, s, post, blanks, hss, hname, hpre, hblanks, hup⟩ |
    ⟨hnone, cfg', hcfg', hup⟩
  · have hblank : ∀ l ∈ blanks, Blank l := fun l hl => by rw [hblanks l hl]; exact blank_nil
    have hsame : Section.SameReading ⟨v.alias, render v⟩ { s with lines := render v ++ blanks } :=
      ⟨hname.symm, (Section.sameReading_append_blank hblank).lines⟩
    have hfind : (cfg.upsert v).1.sections.find? (·.name = v.alias) =
        some { s with lines := render v ++ blanks } := by
      rw [hup]
      exact find_append_cons hpre hname
    rw [get_of_find_some hfind, hsame.vaultFrom hread]
    rfl
  · have hfind : (cfg.upsert v).1.sections.find? (·.name = v.alias) =
        some ⟨v.alias, render v⟩ := by
      rw [hup]
      exact find_append_cons ((sameReading_of_separated hcfg').forall_ne hnone) rfl
    rw [get_of_find_some hfind, hread]
    rfl

theorem get_upsert_other (hne : name ≠ v.alias) (hget : cfg.get home name = .ok o) :
    (cfg.upsert v).1.get home name = .ok o := by
  rcases upsert_cases cfg v with ⟨pre, s, post, blanks, hss, hname, hpre, hblanks, hup⟩ |
    ⟨hnone, cfg', hcfg', hup⟩
  · have hs : s.name ≠ name := fun h => hne (h.symm.trans hname)
    have hfind : (cfg.upsert v).1.sections.find? (·.name = name) =
        cfg.sections.find? (·.name = name) := by
      rw [hup, hss, find_append_cons_ne hs]
      exact find_append_cons_ne hs
    rwa [get, hfind]
  · have hfind : (cfg.upsert v).1.sections.find? (·.name = name) =
        cfg'.sections.find? (·.name = name) := by
      rw [hup, find_append_cons_ne hne.symm, List.append_nil]
    rw [get, hfind]
    exact (sameReading_of_separated hcfg').get hget

theorem WellFormed.remove (h : cfg.WellFormed) (name : Text) : (cfg.remove name).1.WellFormed := by
  refine ⟨h.preamble, ?_, ?_, ?_⟩
  · exact fun s hs => h.lines s (List.mem_of_mem_filter hs)
  · exact fun s hs => h.names s (List.mem_of_mem_filter hs)
  · exact h.nodup.sublist (List.filter_sublist.map _)

theorem get_remove_self (cfg : Config) (name : Text) :
    (cfg.remove name).1.get home name = .ok none := by
  refine get_of_forall_ne fun s hs => ?_
  exact of_decide_eq_true (List.mem_filter.1 hs).2

theorem get_remove_other {gone : Text} (hne : name ≠ gone) :
    (cfg.remove gone).1.get home name = cfg.get home name := by
  have hfind : (cfg.remove gone).1.sections.find? (·.name = name) =
      cfg.sections.find? (·.name = name) := by
    rw [remove, List.find?_filter]
    refine congrArg (fun p => cfg.sections.find? p) (funext fun s => ?_)
    by_cases hs : s.name = name
    · simp [hs, hne]
    · simp [hs]
  rw [get, get, hfind]

end Config

/-! ## Sequences of commands -/

/-- What a registry is for: the vault of an alias. -/
abbrev Registry := Text → Option Vault

/-- The text can be read, and says this. -/
def Represents (home : Home) (text : Text) (reg : Registry) : Prop :=
  ∃ cfg, Config.parse text = .ok cfg ∧ (∃ vs, cfg.vaults home = .ok vs) ∧
    ∀ name, cfg.get home name = .ok (reg name)

/-- The commands that change the registry. `coffer add` has looked for the container. -/
inductive Edit
  | add (v : Vault)
  | remove (name : Text)

namespace Edit

/-- The registry is loaded, edited and saved. A command that fails leaves the file as it is. -/
def run (text : Text) : Edit → Text
  | add v =>
    match Config.parse text with
    | .ok cfg => (cmdAdd cfg v).getD text
    | .error _ => text
  | remove name =>
    match Config.parse text with
    | .ok cfg => (cmdRemove cfg name).getD text
    | .error _ => text

/-- What the command is meant to do. -/
def apply (reg : Registry) : Edit → Registry
  | add v => if v.acceptable then Function.update reg v.alias (some v.trimmed) else reg
  | remove name => Function.update reg name none

/-- The paths of a vault that is added are absolute. -/
def Absolute : Edit → Prop
  | add v => v.Absolute
  | remove _ => True

/-- The values of a vault that is added can be written on their lines. -/
def Writable : Edit → Prop
  | add v => v.Writable
  | remove _ => True

end Edit

section Runs

variable {home : Home} {text : Text} {reg : Registry}

/-- A registry that was saved is read as what it was. -/
theorem represents_toText {cfg : Config} (hcfg : cfg.WellFormed)
    (hget : ∀ name, cfg.get home name = .ok (reg name)) : Represents home cfg.toText reg := by
  obtain ⟨cfg', hparse, hcfg', hsame⟩ := Config.exists_reparse hcfg
  have hget' : ∀ name, cfg'.get home name = .ok (reg name) := fun name => hsame.get (hget name)
  exact ⟨cfg', hparse, Config.exists_vaults hcfg' fun name => ⟨_, hget' name⟩, hget'⟩

theorem Represents.run {e : Edit} (h : Represents home text reg) (habs : e.Absolute)
    (hw : e.Writable) : Represents home (e.run text) (e.apply reg) := by
  obtain ⟨cfg, hparse, hvaults, hget⟩ := h
  have hcfg := Config.wellFormed_of_parse hparse
  cases e with
  | add v =>
    rw [Edit.run, hparse, Edit.apply]
    dsimp only
    by_cases hv : v.acceptable = true
    · rw [cmdAdd, if_pos hv, if_pos hv, Option.getD_some]
      refine represents_toText (hcfg.upsert hv hw) fun name => ?_
      by_cases hname : name = v.alias
      · rw [hname, Function.update_self]
        exact Config.get_upsert_self hv habs hw
      · rw [Function.update_of_ne hname]
        exact Config.get_upsert_other hname (hget name)
    · rw [cmdAdd, if_neg hv, if_neg hv]
      exact ⟨cfg, hparse, hvaults, hget⟩
  | remove gone =>
    rw [Edit.run, hparse, Edit.apply]
    dsimp only
    by_cases hgone : (cfg.remove gone).2 = true
    · rw [cmdRemove, if_pos hgone, Option.getD_some]
      refine represents_toText (hcfg.remove gone) fun name => ?_
      by_cases hname : name = gone
      · rw [hname, Function.update_self]
        exact Config.get_remove_self cfg gone
      · rw [Function.update_of_ne hname, Config.get_remove_other hname]
        exact hget name
    · -- there was no such section, so there was no such vault
      have hnone : reg gone = none := by
        have hall : ∀ s ∈ cfg.sections, s.name ≠ gone := by
          intro s hs hname
          apply hgone
          rw [Config.remove, decide_eq_true_eq, ne_eq, List.length_filter_eq_length_iff]
          intro hkept
          exact of_decide_eq_true (hkept s hs) hname
        have hget' := hget gone
        rw [Config.get_of_forall_ne hall] at hget'
        exact (Except.ok.inj hget').symm
      rw [cmdRemove, if_neg hgone, ← hnone, Function.update_eq_self]
      exact ⟨cfg, hparse, hvaults, hget⟩

/-- After any sequence of commands the registry can be read, and has under every alias what was
last added there, as long as the values that were added can be written on their lines. -/
theorem registry_is_map {edits : List Edit} (h : Represents home text reg)
    (habs : ∀ e ∈ edits, e.Absolute) (hw : ∀ e ∈ edits, e.Writable) :
    Represents home (edits.foldl Edit.run text) (edits.foldl Edit.apply reg) := by
  induction edits generalizing text reg with
  | nil => exact h
  | cons e edits ih =>
    exact ih (h.run (habs e List.mem_cons_self) (hw e List.mem_cons_self))
      (fun e' he' => habs e' (List.mem_cons_of_mem _ he'))
      fun e' he' => hw e' (List.mem_cons_of_mem _ he')

/-- A vault with options that a line holds, under the alias `work`. -/
def workVault : Vault :=
  { «alias» := "work".toList, file := "/data/work.coffer".toList, mountpoint := "/mnt/work".toList,
    idleTimeout := some " 30m\n".toList, passwordCommand := some "pass show x = y".toList,
    readOnly := true, locking := some .normal }

theorem registry_is_map_work :
    Represents none
      ([Edit.add workVault, .remove "old".toList, .remove "work".toList].foldl Edit.run [])
      ([Edit.add workVault, .remove "old".toList, .remove "work".toList].foldl Edit.apply
        fun _ => none) := by
  have hwritable : workVault.Writable := by
    refine ⟨by decide, ?_, by decide⟩
    rintro c ⟨⟩
    decide
  have habs : workVault.Absolute := by
    unfold Vault.Absolute
    decide
  have hedits {P : Edit → Prop} (hadd : P (.add workVault)) (hremove : ∀ name, P (.remove name)) :
      ∀ e ∈ [Edit.add workVault, .remove "old".toList, .remove "work".toList], P e := by
    intro e he
    rcases List.mem_cons.1 he with rfl | he
    · exact hadd
    · rcases List.mem_cons.1 he with rfl | he
      · exact hremove _
      · rw [List.mem_singleton.1 he]
        exact hremove _
  exact registry_is_map ⟨{}, rfl, ⟨[], rfl⟩, fun _ => rfl⟩ (hedits habs fun _ => trivial)
    (hedits hwritable fun _ => trivial)

/-- `coffer add a /c /m --password-command '"/opt/my tool" get "item"'` -/
def quotedVault : Vault :=
  { «alias» := "a".toList, file := "/c".toList, mountpoint := "/m".toList,
    passwordCommand := some "\"/opt/my tool\" get \"item\"".toList }

/-- `coffer add b /c /m --password-command ''` -/
def emptyVault : Vault :=
  { «alias» := "b".toList, file := "/c".toList, mountpoint := "/m".toList,
    passwordCommand := some [] }

/-- A command with a quote at both ends loses them, and after an empty one no vault can be
read. -/
theorem command_not_kept :
    (quotedVault.acceptable = true ∧ quotedVault.Absolute ∧
      ¬ Represents none (Edit.run [] (.add quotedVault))
        (Edit.apply (fun _ => none) (.add quotedVault))) ∧
    (emptyVault.acceptable = true ∧ emptyVault.Absolute ∧
      ∀ reg, ¬ Represents none (Edit.run (Edit.run [] (.add quotedVault)) (.add emptyVault)) reg) := by
  refine ⟨⟨by decide, by unfold Vault.Absolute; decide, ?_⟩,
    ⟨by decide, by unfold Vault.Absolute; decide, ?_⟩⟩
  · rintro ⟨cfg, hparse, -, hget⟩
    have hread : ((Config.parse (Edit.run [] (.add quotedVault))).toOption.bind fun cfg =>
        ((cfg.get none "a".toList).toOption.bind id).bind Vault.passwordCommand) =
        some "/opt/my tool\" get \"item".toList := by decide +kernel
    have hgot := hget "a".toList
    rw [hparse, Except.toOption, Option.bind_some, hgot] at hread
    exact absurd hread (by decide +kernel)
  · rintro reg ⟨cfg, hparse, ⟨vs, hvaults⟩, -⟩
    have hread : ((Config.parse (Edit.run (Edit.run [] (.add quotedVault))
        (.add emptyVault))).toOption.bind fun cfg => (cfg.vaults none).toOption) = none := by
      decide +kernel
    rw [hparse, Except.toOption, Option.bind_some, hvaults] at hread
    cases hread

end Runs

end CofferFS
