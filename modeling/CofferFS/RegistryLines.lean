import CofferFS.Registry
import Mathlib.Data.List.Nodup

/-!
# The lines an edit of the registry keeps

Which lines of a hand-edited registry are somebody else's is said here of the text alone
(`otherLines`): all that is not between the header of an alias and the next header, and the
comments that have a line of their own there, the ones over the next header among them. What
`upsert` and `remove` write is what was parsed, with other lines for one section
(`nonblank_upsert`, `nonblank_remove`); so they keep the lines of the others if and only if there
is no such comment to lose and no header to respell (`others_kept_iff`).
-/

namespace CofferFS

open Text

/-! ## The lines of a text -/

/-- The alias in a section header. -/
def headerName (l : Text) : Option Text :=
  if (trim l).head? = some '[' ∧ (trim l).tail.getLast? = some ']' then
    some (trim (trim l).tail.dropLast)
  else none

/-- `[{name}]` -/
def header (name : Text) : Text := '[' :: name ++ [']']

/-- A header as it is written back, any other line as it is. -/
def respelled (l : Text) : Text := ((headerName l).map header).getD l

/-- There is something on the line. -/
def nonblank (l : Text) : Bool := decide (¬ Blank l)

/-- A comment on its own line. -/
def isOwnLineComment (l : Text) : Bool := isComment l && nonblank l

/-- The lines before the section of an alias. -/
def linesBefore (name : Text) (ls : List Text) : List Text :=
  ls.takeWhile fun l => decide (headerName l ≠ some name)

/-- The lines of the section, without its header. -/
def sectionLines (name : Text) (ls : List Text) : List Text :=
  (ls.dropWhile fun l => decide (headerName l ≠ some name)).tail.takeWhile
    fun l => decide (headerName l = none)

/-- The lines after the section. -/
def linesAfter (name : Text) (ls : List Text) : List Text :=
  (ls.dropWhile fun l => decide (headerName l ≠ some name)).tail.dropWhile
    fun l => decide (headerName l = none)

/-- The comments between the header of an alias and the next header. -/
def commentsWithin (name : Text) (text : Text) : List Text :=
  (sectionLines name (lfLines text)).filter isOwnLineComment

/-- The lines that are not those of an alias, in their order. -/
def otherLines (name : Text) (text : Text) : List Text :=
  linesBefore name (lfLines text) ++ commentsWithin name text ++ linesAfter name (lfLines text)

/-- All lines of the others are there in their order, byte for byte, and beside them only those of
the new entry. Blank lines are not looked at. -/
def OthersKept (name : Text) (new : List Text) (text text' : Text) : Prop :=
  ((otherLines name text).filter nonblank).Sublist (lfLines text') ∧
    ((lfLines text').filter nonblank).Perm
      ((otherLines name text).filter nonblank ++ new.filter nonblank)

/-- There is no comment to lose, and every other header is spelled as it is written back. -/
def NothingToLose (name : Text) (text : Text) : Prop :=
  commentsWithin name text = [] ∧
    ∀ l ∈ linesBefore name (lfLines text) ++ linesAfter name (lfLines text),
      ∀ other, headerName l = some other → l = header other

/-- No line ends with a carriage return and a line feed. -/
def LfOnly (text : Text) : Prop := ¬ ['\r', '\n'] <:+: text

section Lines

variable {l name : Text} {ls ls' : List Text}

theorem lines_of_lfOnly {text : Text} (h : LfOnly text) : lines text = lfLines text := by
  have hpieces : ∀ p ∈ (text.splitOn '\n').dropLast, stripCr p = p := by
    generalize hn : text.length = n
    induction n using Nat.strongRecOn generalizing text with
    | _ n ih =>
      by_cases hnl : '\n' ∈ text
      · obtain ⟨x, y, rfl, hx⟩ := List.eq_append_cons_of_mem hnl
        have hy : LfOnly y := by
          rintro ⟨u, v, huv⟩
          exact h ⟨x ++ '\n' :: u, v, by rw [← huv]; simp⟩
        have hrest := ih y.length (by rw [← hn, List.length_append, List.length_cons]; omega) hy rfl
        rw [List.splitOn_append_cons_self, List.splitOn_eq_singleton hx, List.singleton_append,
          List.dropLast_cons_of_ne_nil (List.splitOn_ne_nil _ _)]
        refine List.forall_mem_cons.2 ⟨?_, hrest⟩
        rw [stripCr, if_neg]
        intro hcr
        obtain ⟨x', rfl⟩ := List.getLast?_eq_some_iff.1 hcr
        exact h ⟨x', y, by simp⟩
      · rw [List.splitOn_eq_singleton hnl]
        exact List.forall_mem_nil _
  rw [lines, lfLines, List.map_congr_left hpieces, List.map_id']

theorem headerName_of_not_open (h : (trim l).head? ≠ some '[') : headerName l = none :=
  if_neg fun hboth => h hboth.1

theorem headerName_of_trim {inner : Text} (h : trim l = '[' :: inner ++ [']']) :
    headerName l = some (trim inner) := by
  rw [headerName, h, if_pos]
  · rw [List.cons_append, List.tail_cons, List.dropLast_concat]
  · rw [List.cons_append, List.head?_cons, List.tail_cons, List.getLast?_concat]
    exact ⟨rfl, rfl⟩

theorem headerName_header (h : validAlias name = true) : headerName (header name) = some name := by
  have hname : headerName (header name) = some (trim name) := headerName_of_trim (trim_header name)
  rw [hname, trim_of_isWs (isWs_of_validAlias h)]

theorem respelled_of_none (h : headerName l = none) : respelled l = l := by
  rw [respelled, h]
  rfl

theorem respelled_of_some (h : headerName l = some name) : respelled l = header name := by
  rw [respelled, h]
  rfl

theorem nonblank_header : nonblank (header name) = true := by
  rw [nonblank, decide_eq_true_eq]
  intro h
  exact absurd (h '[' List.mem_cons_self) (by decide)

theorem nonblank_of_headerName (h : headerName l = some name) : nonblank l = true := by
  rw [nonblank, decide_eq_true_eq]
  intro hblank
  rw [headerName, trim_eq_nil_iff.2 hblank] at h
  cases h

theorem nonblank_respelled : nonblank (respelled l) = nonblank l := by
  rcases hname : headerName l with _ | name
  · rw [respelled_of_none hname]
  · rw [respelled_of_some hname, nonblank_header, nonblank_of_headerName hname]

theorem filter_nonblank_respelled :
    (ls.map respelled).filter nonblank = (ls.filter nonblank).map respelled := by
  rw [List.filter_map]
  refine congrArg (List.map respelled) (List.filter_congr fun l _ => ?_)
  exact nonblank_respelled

/-- The lines around a section, found from what their headers say. -/
theorem linesBefore_append {a s b : List Text} {h : Text} (ha : ∀ l ∈ a, headerName l ≠ some name)
    (hh : headerName h = some name) (hs : ∀ l ∈ s, headerName l = none)
    (hb : ∀ l ∈ b.head?, headerName l ≠ none) :
    linesBefore name (a ++ h :: (s ++ b)) = a ∧ sectionLines name (a ++ h :: (s ++ b)) = s ∧
      linesAfter name (a ++ h :: (s ++ b)) = b := by
  have ha' : ∀ l ∈ a, decide (headerName l ≠ some name) = true := fun l hl => decide_eq_true (ha l hl)
  have hs' : ∀ l ∈ s, decide (headerName l = none) = true := fun l hl => decide_eq_true (hs l hl)
  have hrest : ((a ++ h :: (s ++ b)).dropWhile fun l => decide (headerName l ≠ some name)).tail =
      s ++ b := by
    rw [List.dropWhile_append_of_pos ha', List.dropWhile_cons_of_neg (by simp [hh]),
      List.tail_cons]
  refine ⟨?_, ?_, ?_⟩
  · rw [linesBefore, List.takeWhile_append_of_pos ha', List.takeWhile_cons_of_neg (by simp [hh]),
      List.append_nil]
  · rw [sectionLines, hrest, List.takeWhile_append_of_pos hs']
    cases b with
    | nil => exact List.append_nil s
    | cons l b =>
      rw [List.takeWhile_cons_of_neg (by simp [hb l rfl]), List.append_nil]
  · rw [linesAfter, hrest, List.dropWhile_append_of_pos hs']
    cases b with
    | nil => rfl
    | cons l b => rw [List.dropWhile_cons_of_neg (by simp [hb l rfl])]

theorem linesBefore_of_absent (h : ∀ l ∈ ls, headerName l ≠ some name) :
    linesBefore name ls = ls ∧ sectionLines name ls = [] ∧ linesAfter name ls = [] := by
  have hdrop : (ls.dropWhile fun l => decide (headerName l ≠ some name)) = [] :=
    List.dropWhile_eq_nil_iff.2 fun l hl => decide_eq_true (h l hl)
  refine ⟨?_, ?_, ?_⟩
  · exact List.takeWhile_eq_self_iff.2 fun l hl => decide_eq_true (h l hl)
  · rw [sectionLines, hdrop]
    rfl
  · rw [linesAfter, hdrop]
    rfl

end Lines

/-! ## What is parsed -/

namespace Config

variable {cfg cfg' : Config} {n : ℕ} {ls : List Text} {name : Text}

/-- A section as it is written. -/
def sectionText (s : Section) : List Text := header s.name :: s.lines

theorem allLines_eq (cfg : Config) :
    cfg.allLines = cfg.preamble ++ cfg.sections.flatMap sectionText := rfl

theorem allLines_addLine (cfg : Config) (raw : Text) :
    (cfg.addLine raw).allLines = cfg.allLines ++ [raw] := by
  rcases addLine_cases cfg raw with ⟨hnone, hadd⟩ | ⟨ss, s, hss, hadd⟩
  · rw [hadd, allLines_eq, allLines_eq, hnone, List.flatMap_nil, List.append_nil, List.append_nil]
  · have hone : [{ s with lines := s.lines ++ [raw] }].flatMap sectionText =
        [s].flatMap sectionText ++ [raw] := by
      rw [List.flatMap_singleton, List.flatMap_singleton]
      rfl
    rw [hadd, allLines_eq, allLines_eq, hss, List.flatMap_append, List.flatMap_append, hone,
      List.append_assoc, List.append_assoc]

/-- A line is parsed into what it is written back as. -/
theorem allLines_parseLine {raw : Text} (h : cfg.parseLine n raw = .ok cfg') :
    cfg'.allLines = cfg.allLines ++ [respelled raw] ∧
      ∀ name, headerName raw = some name → validAlias name = true := by
  rcases parseLine_cases h with ⟨inner, htrim, hname, -, rfl⟩ | ⟨hplain, rfl⟩
  · have hheader := headerName_of_trim htrim
    refine ⟨?_, ?_⟩
    · rw [allLines_eq, allLines_eq, List.flatMap_append, respelled_of_some hheader,
        List.append_assoc]
      rfl
    · rw [hheader]
      rintro _ ⟨⟩
      exact hname
  · have hheader := headerName_of_not_open hplain
    refine ⟨?_, ?_⟩
    · rw [allLines_addLine, respelled_of_none hheader]
    · rw [hheader]
      nofun

theorem allLines_parseLines (h : parseLines n cfg ls = .ok cfg') :
    cfg'.allLines = cfg.allLines ++ ls.map respelled ∧
      ∀ l ∈ ls, ∀ name, headerName l = some name → validAlias name = true := by
  induction ls generalizing n cfg with
  | nil =>
    rw [← Except.ok.inj h]
    exact ⟨(List.append_nil _).symm, List.forall_mem_nil _⟩
  | cons l ls ih =>
    rw [parseLines_cons] at h
    rcases hline : cfg.parseLine n l with e | cfg₁
    · rw [hline] at h
      cases h
    · rw [hline] at h
      obtain ⟨hfirst, hvalid⟩ := allLines_parseLine hline
      obtain ⟨hrest, hvalids⟩ := ih h
      refine ⟨?_, List.forall_mem_cons.2 ⟨hvalid, hvalids⟩⟩
      rw [hrest, hfirst, List.append_assoc]
      rfl

theorem allLines_parse {text : Text} (hlf : LfOnly text) (h : parse text = .ok cfg) :
    cfg.allLines = (lfLines text).map respelled ∧
      ∀ l ∈ lfLines text, ∀ name, headerName l = some name → validAlias name = true := by
  rw [parse, lines_of_lfOnly hlf] at h
  exact allLines_parseLines h

/-! ## Where the lines of a section are -/

theorem headerName_of_mem_flatMap {ss : List Section} {l : Text}
    (hlines : ∀ s ∈ ss, ∀ l ∈ s.lines, Fine l) (hnames : ∀ s ∈ ss, validAlias s.name = true)
    (hne : ∀ s ∈ ss, s.name ≠ name) (hl : l ∈ ss.flatMap sectionText) :
    headerName l ≠ some name := by
  obtain ⟨s, hs, hl⟩ := List.mem_flatMap.1 hl
  rcases List.mem_cons.1 hl with rfl | hl
  · rw [headerName_header (hnames s hs)]
    exact fun h => hne s hs (Option.some.inj h)
  · rw [headerName_of_not_open (hlines s hs l hl).1]
    nofun

/-- The lines of the text around the section of an alias are those of the sections around it. -/
theorem split_of_mem {text : Text} {pre post : List Section} {s : Section} (hlf : LfOnly text)
    (hparse : parse text = .ok cfg) (hss : cfg.sections = pre ++ s :: post) :
    (linesBefore s.name (lfLines text)).map respelled =
        cfg.preamble ++ pre.flatMap sectionText ∧
      sectionLines s.name (lfLines text) = s.lines ∧
      (linesAfter s.name (lfLines text)).map respelled = post.flatMap sectionText := by
  obtain ⟨hall, hvalid⟩ := allLines_parse hlf hparse
  obtain ⟨hpre, hlines, hnames, hnodup⟩ := wellFormed_of_parse hparse
  rw [hss] at hlines hnames hnodup
  have hother : ∀ t ∈ pre, t.name ≠ s.name := by
    rw [List.map_append, List.nodup_append] at hnodup
    intro t ht
    exact hnodup.2.2 _ (List.mem_map_of_mem ht) _ (List.mem_map_of_mem List.mem_cons_self)
  have hself : validAlias s.name = true := hnames s (List.mem_append_right _ List.mem_cons_self)
  have hwritten : (lfLines text).map respelled =
      (cfg.preamble ++ pre.flatMap sectionText) ++
        header s.name :: (s.lines ++ post.flatMap sectionText) := by
    rw [← hall, allLines_eq, hss, List.flatMap_append, List.flatMap_cons, List.append_assoc]
    rfl
  obtain ⟨a, rest, hsplit, ha, hrest⟩ := List.map_eq_append_iff.1 hwritten
  obtain ⟨h, rest, rfl, hh, hrest⟩ := List.map_eq_cons_iff.1 hrest
  obtain ⟨own, b, rfl, hown, hb⟩ := List.map_eq_append_iff.1 hrest
  rw [hsplit] at hvalid ⊢
  -- a header says the same before and after it is respelled
  have hname : ∀ l ∈ a ++ h :: (own ++ b), headerName (respelled l) = headerName l := by
    intro l hl
    rcases hl' : headerName l with _ | other
    · rw [respelled_of_none hl', hl']
    · rw [respelled_of_some hl', headerName_header (hvalid l hl other hl')]
  have hbefore : ∀ l ∈ a, headerName l ≠ some s.name := by
    intro l hl
    have hmem : respelled l ∈ cfg.preamble ++ pre.flatMap sectionText := by
      rw [← ha]
      exact List.mem_map_of_mem hl
    rw [← hname l (List.mem_append_left _ hl)]
    rcases List.mem_append.1 hmem with hmem | hmem
    · rw [headerName_of_not_open (hpre _ hmem).1]
      nofun
    · exact headerName_of_mem_flatMap (fun t ht => hlines t (List.mem_append_left _ ht))
        (fun t ht => hnames t (List.mem_append_left _ ht)) hother hmem
  have hheader : headerName h = some s.name := by
    rw [← hname h (List.mem_append_right _ List.mem_cons_self), hh, headerName_header hself]
  have hinside : ∀ l ∈ own, headerName l = none := by
    intro l hl
    have hmem : respelled l ∈ s.lines := by
      rw [← hown]
      exact List.mem_map_of_mem hl
    rw [← hname l (List.mem_append_right _ (List.mem_cons_of_mem _ (List.mem_append_left _ hl)))]
    exact headerName_of_not_open
      (hlines s (List.mem_append_right _ List.mem_cons_self) _ hmem).1
  have hnext : ∀ l ∈ b.head?, headerName l ≠ none := by
    intro l hl
    obtain ⟨rest, rfl⟩ := List.head?_eq_some_iff.1 hl
    cases post with
    | nil => cases hb
    | cons t post =>
      have ht : respelled l = header t.name := (List.cons.inj hb).1
      rw [← hname l (List.mem_append_right _ (List.mem_cons_of_mem _
        (List.mem_append_right _ List.mem_cons_self))), ht, headerName_header (hnames t
        (List.mem_append_right _ (List.mem_cons_of_mem _ List.mem_cons_self)))]
      nofun
  obtain ⟨hb₁, hb₂, hb₃⟩ := linesBefore_append hbefore hheader hinside hnext
  have hsame : own.map respelled = own := by
    rw [List.map_congr_left fun l hl => respelled_of_none (hinside l hl), List.map_id']
  exact ⟨by rw [hb₁, ha], by rw [hb₂, ← hown, hsame], by rw [hb₃, hb]⟩

/-- An alias that has no section has no lines. -/
theorem split_of_absent {text : Text} (hlf : LfOnly text) (hparse : parse text = .ok cfg)
    (hnone : ∀ s ∈ cfg.sections, s.name ≠ name) :
    linesBefore name (lfLines text) = lfLines text ∧ sectionLines name (lfLines text) = [] ∧
      linesAfter name (lfLines text) = [] := by
  obtain ⟨hall, hvalid⟩ := allLines_parse hlf hparse
  obtain ⟨hpre, hlines, hnames, -⟩ := wellFormed_of_parse hparse
  refine linesBefore_of_absent fun l hl hname => ?_
  have hmem : header name ∈ cfg.preamble ++ cfg.sections.flatMap sectionText := by
    rw [← allLines_eq, hall, ← respelled_of_some hname]
    exact List.mem_map_of_mem hl
  have hheader := headerName_header (hvalid l hl name hname)
  rcases List.mem_append.1 hmem with hmem | hmem
  · rw [headerName_of_not_open (hpre _ hmem).1] at hheader
    cases hheader
  · exact headerName_of_mem_flatMap hlines hnames hnone hmem hheader

/-! ## What is written -/

theorem nonblank_blanks {blanks : List Text} (h : ∀ l ∈ blanks, l = []) :
    blanks.filter nonblank = [] := by
  rw [List.filter_eq_nil_iff]
  intro l hl
  rw [h l hl]
  decide

theorem nonblank_toText (cfg : Config) :
    (lfLines cfg.toText).filter nonblank = (pieces cfg.allLines).filter nonblank := by
  obtain ⟨kept, k, hkept, hpop⟩ := popBlanks_unlines cfg.allLines
  have hnl : ∀ l ∈ kept, '\n' ∉ l := by
    intro l hl
    apply newline_notMem_pieces cfg.allLines l
    rw [hkept]
    exact List.mem_append_left _ hl
  rw [toText, hpop, lfLines_unlines, pieces_of_notMem hnl, hkept, List.filter_append,
    nonblank_blanks fun l hl => List.eq_of_mem_replicate hl, List.append_nil]

/-- The lines of a new entry. -/
def entryLines (v : Vault) : List Text := pieces (header v.alias :: render v)

theorem newline_notMem_header (h : validAlias name = true) : '\n' ∉ header name := by
  intro hmem
  rcases List.mem_append.1 hmem with hmem | hmem
  · rcases List.mem_cons.1 hmem with hmem | hmem
    · exact absurd hmem (by decide)
    · exact newline_notMem_of_validAlias h hmem
  · exact absurd (List.mem_singleton.1 hmem) (by decide)

/-- What is parsed has no line feeds in its lines. -/
theorem pieces_allLines {text : Text} (hlf : LfOnly text) (hparse : parse text = .ok cfg) :
    ∀ l ∈ cfg.allLines, '\n' ∉ l := by
  obtain ⟨hall, hvalid⟩ := allLines_parse hlf hparse
  intro l hl
  rw [hall] at hl
  obtain ⟨raw, hraw, rfl⟩ := List.mem_map.1 hl
  rcases hname : headerName raw with _ | name
  · rw [respelled_of_none hname, ← lines_of_lfOnly hlf] at *
    exact newline_notMem_lines text raw hraw
  · rw [respelled_of_some hname]
    exact newline_notMem_header (hvalid raw hraw name hname)

/-- What is written around an entry. -/
theorem nonblank_upsert {text : Text} (hlf : LfOnly text) (hparse : parse text = .ok cfg)
    (v : Vault) :
    (lfLines (cfg.upsert v).1.toText).filter nonblank =
      ((linesBefore v.alias (lfLines text)).map respelled).filter nonblank ++
        (entryLines v).filter nonblank ++
        ((linesAfter v.alias (lfLines text)).map respelled).filter nonblank := by
  have hnl := pieces_allLines hlf hparse
  have hall := (allLines_parse hlf hparse).1
  rw [nonblank_toText]
  rcases upsert_cases cfg v with ⟨pre, s, post, blanks, hss, hname, -, hblanks, hup⟩ |
    ⟨hnone, cfg', hcfg', hup⟩
  · obtain ⟨hbefore, -, hafter⟩ := split_of_mem hlf hparse hss
    rw [hname] at hbefore hafter
    rw [allLines_eq, hss, List.flatMap_append, List.flatMap_cons] at hnl
    have hout : (cfg.upsert v).1.allLines = (cfg.preamble ++ pre.flatMap sectionText) ++
        (header v.alias :: render v ++ (blanks ++ post.flatMap sectionText)) := by
      rw [hup, allLines_eq, List.flatMap_append, List.flatMap_cons, sectionText, hname,
        List.append_assoc]
      simp
    have hpre : ∀ l ∈ cfg.preamble ++ pre.flatMap sectionText, '\n' ∉ l := by
      intro l hl
      refine hnl l ?_
      rw [← List.append_assoc]
      exact List.mem_append_left _ hl
    have hpost : ∀ l ∈ post.flatMap sectionText, '\n' ∉ l := fun l hl =>
      hnl l (List.mem_append_right _ (List.mem_append_right _ (List.mem_append_right _ hl)))
    have hempty : ∀ l ∈ blanks, '\n' ∉ l := fun l hl => by
      rw [hblanks l hl]
      exact List.not_mem_nil
    rw [← hbefore] at hout hpre
    rw [← hafter] at hout hpost
    rw [hout, pieces_append, pieces_append, pieces_append, pieces_of_notMem hpre,
      pieces_of_notMem hpost, pieces_of_notMem hempty, List.filter_append, List.filter_append,
      List.filter_append, nonblank_blanks hblanks, List.append_assoc]
    rfl
  · obtain ⟨hbefore, -, hafter⟩ := split_of_absent hlf hparse hnone
    have hcfg : ∃ blanks, cfg'.allLines = cfg.allLines ++ blanks ∧ ∀ l ∈ blanks, l = [] := by
      rcases hcfg' with rfl | rfl
      · exact ⟨[], (List.append_nil _).symm, List.forall_mem_nil _⟩
      · exact ⟨[[]], allLines_addLine cfg [], fun l hl => List.mem_singleton.1 hl⟩
    obtain ⟨blanks, hcfg, hblanks⟩ := hcfg
    have hempty : ∀ l ∈ blanks, '\n' ∉ l := fun l hl => by
      rw [hblanks l hl]
      exact List.not_mem_nil
    have hout : (cfg.upsert v).1.allLines = cfg'.allLines ++ (header v.alias :: render v) := by
      rw [hup, allLines_eq, allLines_eq, List.flatMap_append, List.flatMap_singleton,
        List.append_assoc]
      rfl
    rw [hout, hcfg, pieces_append, pieces_append, pieces_of_notMem hnl, pieces_of_notMem hempty,
      List.filter_append, List.filter_append, nonblank_blanks hblanks, hbefore, hafter, hall,
      List.map_nil, List.filter_nil, List.append_nil, List.append_nil]
    rfl

theorem nonblank_remove {text : Text} (hlf : LfOnly text) (hparse : parse text = .ok cfg)
    (name : Text) :
    (lfLines (cfg.remove name).1.toText).filter nonblank =
      ((linesBefore name (lfLines text)).map respelled).filter nonblank ++
        ((linesAfter name (lfLines text)).map respelled).filter nonblank := by
  have hnl := pieces_allLines hlf hparse
  have hall := (allLines_parse hlf hparse).1
  rw [nonblank_toText]
  by_cases hmem : ∃ s ∈ cfg.sections, s.name = name
  · obtain ⟨s, hs, rfl⟩ := hmem
    obtain ⟨pre, post, hss⟩ := List.append_of_mem hs
    obtain ⟨hbefore, -, hafter⟩ := split_of_mem hlf hparse hss
    have hnodup := (wellFormed_of_parse hparse).nodup
    rw [hss, List.map_append, List.map_cons, List.nodup_middle, List.nodup_cons] at hnodup
    have hkept : (cfg.remove s.name).1.sections = pre ++ post := by
      have hall (ss : List Section) (hsub : ∀ t ∈ ss, t.name ∈ pre.map (·.name) ++ post.map (·.name)) :
          ss.filter (·.name ≠ s.name) = ss := by
        rw [List.filter_eq_self]
        intro t ht
        rw [decide_eq_true_eq]
        intro heq
        exact hnodup.1 (heq ▸ hsub t ht)
      have hself : [s].filter (·.name ≠ s.name) = [] := by simp
      change cfg.sections.filter _ = _
      rw [hss, List.filter_append, ← List.singleton_append, List.filter_append, hself,
        hall pre fun t ht => List.mem_append_left _ (List.mem_map_of_mem ht),
        hall post fun t ht => List.mem_append_right _ (List.mem_map_of_mem ht)]
      rfl
    have hout : (cfg.remove s.name).1.allLines =
        (cfg.preamble ++ pre.flatMap sectionText) ++ post.flatMap sectionText := by
      rw [allLines_eq, hkept, List.flatMap_append, List.append_assoc]
      rfl
    have hsub : ∀ l ∈ (cfg.preamble ++ pre.flatMap sectionText) ++ post.flatMap sectionText,
        '\n' ∉ l := by
      intro l hl
      refine hnl l ?_
      rw [allLines_eq, hss, List.flatMap_append, List.flatMap_cons, ← List.append_assoc]
      rcases List.mem_append.1 hl with hl | hl
      · exact List.mem_append_left _ hl
      · exact List.mem_append_right _ (List.mem_append_right _ hl)
    rw [hout, pieces_of_notMem hsub, List.filter_append, hbefore, hafter]
  · have hnone : ∀ s ∈ cfg.sections, s.name ≠ name := fun s hs hname => hmem ⟨s, hs, hname⟩
    obtain ⟨hbefore, -, hafter⟩ := split_of_absent hlf hparse hnone
    have hkept : (cfg.remove name).1 = cfg := by
      have hfilter : cfg.sections.filter (·.name ≠ name) = cfg.sections :=
        List.filter_eq_self.2 fun s hs => decide_eq_true (hnone s hs)
      rw [remove, hfilter]
    rw [hkept, pieces_of_notMem hnl, hbefore, hafter, hall, List.map_nil, List.filter_nil,
      List.append_nil]

end Config

/-! ## When the lines of the others are kept -/

section Kept

variable {text name : Text} {cfg : Config} {new : List Text}

theorem respelled_respelled {l : Text}
    (h : ∀ name, headerName l = some name → validAlias name = true) :
    respelled (respelled l) = respelled l := by
  rcases hname : headerName l with _ | name
  · rw [respelled_of_none hname, respelled_of_none hname]
  · rw [respelled_of_some hname, respelled_of_some (headerName_header (h name hname))]

theorem respelled_eq_self_iff {l : Text} :
    respelled l = l ↔ ∀ name, headerName l = some name → l = header name := by
  rcases hname : headerName l with _ | name
  · rw [respelled_of_none hname]
    exact iff_of_true rfl nofun
  · rw [respelled_of_some hname]
    refine ⟨?_, fun h => (h name rfl).symm⟩
    rintro h _ ⟨⟩
    exact h.symm

theorem map_respelled {ls : List Text} (h : ∀ l ∈ ls, respelled l = l) : ls.map respelled = ls := by
  rw [List.map_congr_left h, List.map_id']

/-- Nothing is there beside the respelled lines if and only if they were spelled like that. -/
theorem perm_respelled_iff {ls cs : List Text}
    (h : ∀ l ∈ ls, respelled (respelled l) = respelled l) :
    (ls.map respelled).Perm (ls ++ cs) ↔ cs = [] ∧ ∀ l ∈ ls, respelled l = l := by
  refine ⟨fun hperm => ?_, ?_⟩
  · have hlength := hperm.length_eq
    rw [List.length_map, List.length_append] at hlength
    obtain rfl : cs = [] := List.length_eq_zero_iff.1 (by omega)
    refine ⟨rfl, fun l hl => ?_⟩
    obtain ⟨l', hl', rfl⟩ := List.mem_map.1 (hperm.mem_iff.2 (List.mem_append_left _ hl))
    exact h l' hl'
  · rintro ⟨rfl, hsame⟩
    rw [map_respelled hsame, List.append_nil]

/-- What is written around an entry are the lines of the others, if none of them was a comment in
the entry and each was spelled like this already. -/
theorem othersKept_iff_of_nonblank {text' : Text}
    (hvalid : ∀ l ∈ lfLines text, ∀ name, headerName l = some name → validAlias name = true)
    (hout : (lfLines text').filter nonblank =
      ((linesBefore name (lfLines text)).map respelled).filter nonblank ++ new.filter nonblank ++
        ((linesAfter name (lfLines text)).map respelled).filter nonblank) :
    OthersKept name new text text' ↔ NothingToLose name text := by
  have hbefore : ∀ l ∈ linesBefore name (lfLines text), l ∈ lfLines text :=
    fun l hl => (List.takeWhile_subset _) hl
  have hafter : ∀ l ∈ linesAfter name (lfLines text), l ∈ lfLines text := fun l hl =>
    (List.dropWhile_suffix _).subset
      (List.mem_of_mem_tail ((List.dropWhile_suffix _).subset hl))
  have hcomments : (commentsWithin name text).filter nonblank = commentsWithin name text := by
    rw [List.filter_eq_self]
    intro l hl
    exact (Bool.and_eq_true_iff.1 (List.mem_filter.1 hl).2).2
  rw [OthersKept, NothingToLose, hout, otherLines, List.filter_append, List.filter_append,
    hcomments, filter_nonblank_respelled, filter_nonblank_respelled]
  simp only [← respelled_eq_self_iff]
  generalize hc : commentsWithin name text = c at *
  generalize ha : linesBefore name (lfLines text) = a at *
  generalize hb : linesAfter name (lfLines text) = b at *
  have hidem : ∀ l ∈ a.filter nonblank ++ b.filter nonblank,
      respelled (respelled l) = respelled l := by
    intro l hl
    rcases List.mem_append.1 hl with hl | hl
    · exact respelled_respelled (hvalid l (hbefore l (List.mem_of_mem_filter hl)))
    · exact respelled_respelled (hvalid l (hafter l (List.mem_of_mem_filter hl)))
  -- the new entry stands on both sides
  have hperm : ((a.filter nonblank).map respelled ++ new.filter nonblank ++
        (b.filter nonblank).map respelled).Perm
        (a.filter nonblank ++ c ++ b.filter nonblank ++ new.filter nonblank) ↔
      ((a.filter nonblank ++ b.filter nonblank).map respelled).Perm
        (a.filter nonblank ++ b.filter nonblank ++ c) := by
    have hleft : ((a.filter nonblank).map respelled ++ new.filter nonblank ++
        (b.filter nonblank).map respelled).Perm
        ((a.filter nonblank ++ b.filter nonblank).map respelled ++ new.filter nonblank) := by
      rw [List.map_append, List.append_assoc, List.append_assoc]
      exact List.perm_append_comm.append_left _
    have hright : (a.filter nonblank ++ c ++ b.filter nonblank ++ new.filter nonblank).Perm
        (a.filter nonblank ++ b.filter nonblank ++ c ++ new.filter nonblank) := by
      refine List.Perm.append_right _ ?_
      rw [List.append_assoc, List.append_assoc]
      exact List.perm_append_comm.append_left _
    rw [hleft.congr_left, hright.congr_right, List.perm_append_right_iff]
  have hblank : ∀ l, nonblank l = false → respelled l = l := by
    intro l hl
    rcases hname : headerName l with _ | other
    · exact respelled_of_none hname
    · rw [nonblank_of_headerName hname] at hl
      cases hl
  have hall : (∀ l ∈ a.filter nonblank ++ b.filter nonblank, respelled l = l) ↔
      ∀ l ∈ a ++ b, respelled l = l := by
    rw [← List.filter_append]
    refine ⟨fun h l hl => ?_, fun h l hl => h l (List.mem_of_mem_filter hl)⟩
    by_cases hl' : nonblank l = true
    · exact h l (List.mem_filter.2 ⟨hl, hl'⟩)
    · exact hblank l (by simpa using hl')
  rw [hperm, perm_respelled_iff hidem, hall]
  refine ⟨fun h => h.2, fun h => ⟨?_, h⟩⟩
  obtain ⟨rfl, hsame⟩ := h
  have ha' : (a.filter nonblank).map respelled = a.filter nonblank :=
    map_respelled fun l hl => hsame l (List.mem_append_left _ (List.mem_of_mem_filter hl))
  have hb' : (b.filter nonblank).map respelled = b.filter nonblank :=
    map_respelled fun l hl => hsame l (List.mem_append_right _ (List.mem_of_mem_filter hl))
  rw [filter_nonblank_respelled, filter_nonblank_respelled, ha', hb'] at hout
  have hsub : (a.filter nonblank ++ [] ++ b.filter nonblank).Sublist
      ((lfLines text').filter nonblank) := by
    rw [hout, List.append_nil, List.append_assoc]
    exact (List.sublist_append_right _ _).append_left _
  exact hsub.trans List.filter_sublist

/-- An edit of the section of an alias keeps the lines of the others if and only if there is no
comment in the section, and every other header is spelled as it is written back. -/
theorem others_kept_iff (hlf : LfOnly text) (hparse : Config.parse text = .ok cfg) :
    (∀ v : Vault, OthersKept v.alias (Config.entryLines v) text (cfg.upsert v).1.toText ↔
      NothingToLose v.alias text) ∧
    ∀ name, OthersKept name [] text (cfg.remove name).1.toText ↔ NothingToLose name text := by
  have hvalid := (Config.allLines_parse hlf hparse).2
  refine ⟨fun v => ?_, fun name => ?_⟩
  · exact othersKept_iff_of_nonblank hvalid (Config.nonblank_upsert hlf hparse v)
  · refine othersKept_iff_of_nonblank hvalid ?_
    rw [Config.nonblank_remove hlf hparse name]
    simp

/-- Two sections, with a comment over the second header. -/
def commentedText : Text :=
  "# mine\n[a]\nfile = /a\nmountpoint = /m\n\n# photos\n[b]\nfile = /b\nmountpoint = /n\n".toList

def commentedConfig : Config :=
  { preamble := ["# mine".toList]
    sections := [
      ⟨"a".toList, ["file = /a".toList, "mountpoint = /m".toList, [], "# photos".toList]⟩,
      ⟨"b".toList, ["file = /b".toList, "mountpoint = /n".toList]⟩] }

theorem others_kept_iff_commented :
    (∀ v : Vault, OthersKept v.alias (Config.entryLines v) commentedText
        (commentedConfig.upsert v).1.toText ↔ NothingToLose v.alias commentedText) ∧
      ∀ name, OthersKept name [] commentedText (commentedConfig.remove name).1.toText ↔
        NothingToLose name commentedText := by
  have hlf : LfOnly commentedText := by
    unfold LfOnly
    decide +kernel
  exact others_kept_iff hlf (by decide +kernel)

/-- `coffer remove a` takes the comment over the header of `b` along, and so does `coffer add a`. -/
theorem comment_over_next_header_lost :
    Config.parse commentedText = .ok commentedConfig ∧
      ¬ OthersKept "a".toList [] commentedText (commentedConfig.remove "a".toList).1.toText ∧
      ¬ OthersKept quotedVault.alias (Config.entryLines quotedVault) commentedText
        (commentedConfig.upsert quotedVault).1.toText := by
  unfold OthersKept
  decide +kernel

end Kept

end CofferFS
