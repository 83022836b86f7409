import CofferFS.Ipc
import CofferFS.Lib.Encode
import CofferFS.Lib.Fields

/-!
# The mount table

main.rs finds coffer's own mounts in `/proc/self/mountinfo`, which the kernel writes: a line for a
mount, made of fields with a space between them, any number of optional ones before a field `-`.
`Mount.line` is the kernel's side, `cofferMounts` is the reading.

`read_to_string` reads the table or nothing: one byte anywhere in it that is not valid UTF-8, in the
path of somebody else's mount, and no mount of coffer's is found. `decodes_exactly_iff` says that
nothing else goes wrong.
-/

namespace CofferFS.Mounts

open Octal Fields

/-! ## The kernel -/

def space : UInt8 := 32

def newline : UInt8 := 10

def colon : UInt8 := 58

def dash : List UInt8 := Ipc.ascii "-"

def coffer : List UInt8 := Ipc.ascii "coffer"

def fuse : List UInt8 := Ipc.ascii "fuse"

def fuseDot : List UInt8 := Ipc.ascii "fuse."

/-- The bytes that are escaped in paths and those that are escaped in names: the blanks and the
backslash, and whatever else the kernel chooses, but nothing that `fuse.coffer` is made of. -/
structure Escaping where
  path : UInt8 → Bool
  name : UInt8 → Bool
  path_of_mem : ∀ b ∈ [space, 9, newline, mark], path b = true
  name_of_mem : ∀ b ∈ [space, 9, newline, mark], name b = true
  name_of_mem_letters : ∀ b ∈ fuseDot ++ coffer, name b = false

/-- A field that is written as it is, and cannot be taken for the separator. -/
def Field : Type := {f : List UInt8 // space ∉ f ∧ newline ∉ f ∧ f ≠ dash}

/-- A mount. The options of its file system come last and may hold anything but a newline. -/
structure Mount where
  id : ℕ
  parent : ℕ
  major : ℕ
  minor : ℕ
  root : List UInt8
  mountpoint : List UInt8
  options : Field
  optional : List Field
  fstype : List UInt8
  source : List UInt8
  superOptions : List UInt8
  minor_lt : minor < 2 ^ 32
  root_ne : root ≠ dash
  mountpoint_absolute : mountpoint.head? = some 47
  mountpoint_valid : Utf8.valid mountpoint = true
  newline_notMem : newline ∉ superOptions

/-- `%u` -/
def decimal (n : ℕ) : List UInt8 := (Nat.toDigits 10 n).map Text.byte

/-- The fields between the first one and the separator. -/
def Mount.fields (e : Escaping) (m : Mount) : List (List UInt8) :=
  decimal m.parent :: (decimal m.major ++ colon :: decimal m.minor) :: escape e.path m.root ::
    escape e.path m.mountpoint :: m.options.val :: m.optional.map (·.val)

/-- The line of a mount up to its source. -/
def Mount.start (e : Escaping) (m : Mount) (rest : List UInt8) : List UInt8 :=
  decimal m.id ++ ((m.fields e).flatMap (space :: ·) ++ space :: (dash ++ space ::
    (escape e.name m.fstype ++ space :: (escape e.name m.source ++ space :: rest))))

/-- The line of a mount in the table. -/
def Mount.line (e : Escaping) (m : Mount) : List UInt8 := m.start e m.superOptions

def render (e : Escaping) (ms : List Mount) : List UInt8 :=
  ms.flatMap fun m => m.line e ++ [newline]

/-! ## The reading -/

/-- `str::lines`, on the bytes -/
def stripCr (l : List UInt8) : List UInt8 := if l.getLast? = some 13 then l.dropLast else l

def lines (t : List UInt8) : List (List UInt8) :=
  (t.splitOn newline).dropLast.map stripCr ++
    ((t.splitOn newline).getLast?.filter fun l => !l.isEmpty).toList

/-- `u32::from_str` -/
def parseU32 (m : List UInt8) : Option ℕ :=
  (Ipc.parseU64 (m.map fun b => Char.ofNat b.toNat)).filter fun n => decide (n < 2 ^ 32)

/-- `unescape_mountinfo`. A code above 255 would be an overflow of `u8`. -/
def unescapeMountinfo (field : List UInt8) : List UInt8 :=
  Utf8.lossy ((codes field).map UInt8.ofNat)

/-- What a line adds to `found`. -/
def entryOf (line : List UInt8) : Option (List UInt8 × ℕ) :=
  match line.splitOn space with
  | _ :: _ :: devnum :: _ :: mp :: _ =>
    -- `line.split(" - ").nth(1)`
    match (after (between space dash) line).map (before (between space dash)) with
    | some rest =>
      match rest.splitOn space with
      | fstype :: source :: _ =>
        if (fstype = fuse ∨ fuseDot.isPrefixOf fstype) ∧ source = coffer then
          ((devnum.splitOn colon)[1]?.bind parseU32).map fun minor => (unescapeMountinfo mp, minor)
        else none
      | _ => none
    | none => none
  | _ => none

/-- `read_to_string`, given the bytes of the file if it can be read. -/
def readToString (file : Option (List UInt8)) : Option (List UInt8) := file.filter Utf8.valid

def cofferMounts (mountinfo : Option (List UInt8)) : List (List UInt8 × ℕ) :=
  match readToString mountinfo with
  | none => []
  | some table => (lines table).filterMap entryOf

/-- The mountpoint is given as `mount_key` makes it. -/
def fuseConnectionId (mountinfo key : Option (List UInt8)) : Option ℕ :=
  match key with
  | none => none
  | some target =>
    (((cofferMounts mountinfo).filter fun p => decide (p.1 = target)).map Prod.snd).getLast?

def isMounted (key : Option (List UInt8)) (mounts : List (List UInt8 × ℕ)) : Bool :=
  match key with
  | none => false
  | some target => mounts.any fun p => decide (p.1 = target)

def isMountpoint (mountinfo key : Option (List UInt8)) : Bool :=
  match readToString mountinfo with
  | none => true
  | some table =>
    match key with
    | none => false
    | some target => ((lines table).filterMap fun line => (line.splitOn space)[4]?).any
        fun mp => decide (unescapeMountinfo mp = target)

/-- `run_unmount`: whether it succeeds and the connection it aborts, if any. An attempt is `none` if
its command cannot be run, and otherwise a success or a failure. -/
def runUnmount (mountinfo key : Option (List UInt8)) (plain lazy : Option Bool) :
    Option Bool × Option ℕ :=
  -- Looked up before the mountpoint is detached.
  let connection := fuseConnectionId mountinfo key
  match plain with
  | none => (none, none)
  | some true => (some true, none)
  | some false =>
    match lazy with
    | none => (none, none)
    | some true => (some true, connection)
    | some false => (some false, none)

/-! ## Fields of the kernel's lines -/

variable {e : Escaping} {m : Mount} {ms : List Mount} {b : UInt8} {n : ℕ} {rest : List UInt8}

theorem isDigit_of_mem_toDigits {c : Char} (h : c ∈ Nat.toDigits 10 n) : c.isDigit = true :=
  Nat.isDigit_of_mem_toDigits (by decide) (by decide) h

theorem mem_decimal (h : b ∈ decimal n) : 48 ≤ b.toNat ∧ b.toNat ≤ 57 := by
  obtain ⟨c, hc, rfl⟩ := List.mem_map.1 h
  have hrange := Text.toNat_of_isDigit (isDigit_of_mem_toDigits hc)
  rwa [Text.toNat_byte (by omega)]

theorem notMem_decimal (hb : b.toNat < 48 ∨ 57 < b.toNat) : b ∉ decimal n := by
  intro h
  have hrange := mem_decimal h
  omega

theorem decimal_ne_dash : decimal n ≠ dash := by
  intro h
  have hmem : (45 : UInt8) ∈ decimal n := by
    rw [h]
    decide
  exact notMem_decimal (by decide) hmem

theorem parseU32_decimal (h : n < 2 ^ 32) : parseU32 (decimal n) = some n := by
  have hchars : (decimal n).map (fun b => Char.ofNat b.toNat) = Nat.toDigits 10 n := by
    rw [decimal, List.map_map]
    refine (List.map_congr_left fun c hc => ?_).trans (List.map_id _)
    have hrange := Text.toNat_of_isDigit (isDigit_of_mem_toDigits hc)
    rw [Function.comp_apply, Text.toNat_byte (by omega), Char.ofNat_toNat, id]
  rw [parseU32, hchars, Ipc.parseU64_toDigits (by omega), Option.filter_some,
    if_pos (decide_eq_true h)]

/-- A field that is escaped has neither separator in it. -/
theorem separators_notMem_escape {S : UInt8 → Bool}
    (hS : ∀ b ∈ [space, 9, newline, mark], S b = true) (l : List UInt8) :
    space ∉ escape S l ∧ newline ∉ escape S l :=
  ⟨notMem_escape (hS _ (by decide)) (by decide) (by decide),
    notMem_escape (hS _ (by decide)) (by decide) (by decide)⟩

theorem path_mark : e.path mark = true := e.path_of_mem mark (by decide)

theorem name_mark : e.name mark = true := e.name_of_mem mark (by decide)

theorem escape_ne_dash {l : List UInt8} (h : l ≠ dash) : escape e.path l ≠ dash := by
  intro hdash
  have hcodes : l.map UInt8.toNat = dash.map UInt8.toNat := by
    rw [← codes_escape path_mark l, hdash]
    rfl
  exact h (List.map_injective_iff.2 (fun _ _ => UInt8.toNat_inj.1) hcodes)

/-- No field before the separator can be taken for it. -/
theorem mem_fields {f : List UInt8} (h : f ∈ m.fields e) :
    space ∉ f ∧ newline ∉ f ∧ f ≠ dash := by
  have hdecimal (n : ℕ) : space ∉ decimal n ∧ newline ∉ decimal n :=
    ⟨notMem_decimal (by decide), notMem_decimal (by decide)⟩
  have hpath {l : List UInt8} (hl : l ≠ dash) :
      space ∉ escape e.path l ∧ newline ∉ escape e.path l ∧ escape e.path l ≠ dash :=
    ⟨(separators_notMem_escape e.path_of_mem l).1, (separators_notMem_escape e.path_of_mem l).2,
      escape_ne_dash hl⟩
  simp only [Mount.fields, List.mem_cons, List.mem_map] at h
  rcases h with rfl | rfl | rfl | rfl | rfl | ⟨g, -, rfl⟩
  · exact ⟨(hdecimal _).1, (hdecimal _).2, decimal_ne_dash⟩
  · have hcolon : colon ∈ decimal m.major ++ colon :: decimal m.minor := by simp
    have hne : decimal m.major ++ colon :: decimal m.minor ≠ dash := by
      intro h
      rw [h] at hcolon
      exact absurd hcolon (by decide)
    have hmem {b : UInt8} (hb : b ∉ decimal m.major ∧ b ≠ colon ∧ b ∉ decimal m.minor) :
        b ∉ decimal m.major ++ colon :: decimal m.minor := by simpa using hb
    exact ⟨hmem ⟨(hdecimal _).1, by decide, (hdecimal _).1⟩,
      hmem ⟨(hdecimal _).2, by decide, (hdecimal _).2⟩, hne⟩
  · exact hpath m.root_ne
  · refine hpath fun h => ?_
    have habsolute := m.mountpoint_absolute
    rw [h] at habsolute
    exact absurd habsolute (by decide)
  · exact m.options.2
  · exact g.2

/-! ## One line -/

theorem splitOn_start : ∃ fs, (m.start e rest).splitOn space =
    decimal m.id :: decimal m.parent :: (decimal m.major ++ colon :: decimal m.minor) ::
      escape e.path m.root :: escape e.path m.mountpoint :: fs := by
  have hid : space ∉ decimal m.id := notMem_decimal (by decide)
  have hfields (f : List UInt8) (hf : f ∈ m.fields e) : space ∉ f := (mem_fields hf).1
  simp only [Mount.fields, List.forall_mem_cons] at hfields
  obtain ⟨hparent, hdevnum, hroot, hmp, -, -⟩ := hfields
  have hstart : ∃ fs, m.start e rest = decimal m.id ++ space :: (decimal m.parent ++ space ::
      ((decimal m.major ++ colon :: decimal m.minor) ++ space :: (escape e.path m.root ++ space ::
        (escape e.path m.mountpoint ++ space :: fs)))) := by
    simp only [Mount.start, Mount.fields, List.flatMap_cons, List.append_assoc, List.cons_append]
    exact ⟨_, rfl⟩
  obtain ⟨fs, hstart⟩ := hstart
  rw [hstart, List.splitOn_append_cons_self_of_not_mem hid,
    List.splitOn_append_cons_self_of_not_mem hparent,
    List.splitOn_append_cons_self_of_not_mem hdevnum,
    List.splitOn_append_cons_self_of_not_mem hroot, List.splitOn_append_cons_self_of_not_mem hmp]
  exact ⟨_, rfl⟩

theorem after_start : after (between space dash) (m.start e rest) =
    some (escape e.name m.fstype ++ space :: (escape e.name m.source ++ space :: rest)) :=
  after_word (by decide) (fun _ hf => ⟨(mem_fields hf).1, (mem_fields hf).2.2⟩)
    (notMem_decimal (by decide))

/-- The mount is one of coffer's own. -/
def Mount.IsCoffer (m : Mount) : Prop :=
  (m.fstype = fuse ∨ fuseDot <+: m.fstype) ∧ m.source = coffer

instance : DecidablePred Mount.IsCoffer := fun m =>
  inferInstanceAs (Decidable ((m.fstype = fuse ∨ fuseDot <+: m.fstype) ∧ m.source = coffer))

theorem escape_name_eq {l w : List UInt8} (hw : ∀ b ∈ w, b ∈ fuseDot ++ coffer) :
    escape e.name l = w ↔ l = w := by
  have hsame : escape e.name w = w :=
    escape_of_notMem fun b hb => e.name_of_mem_letters b (hw b hb)
  constructor
  · intro h
    exact escape_injective name_mark (h.trans hsame.symm)
  · rintro rfl
    exact hsame

/-- The type and the source that are compared are the mount's own. -/
theorem ours_iff : ((escape e.name m.fstype = fuse ∨ fuseDot.isPrefixOf (escape e.name m.fstype)) ∧
    escape e.name m.source = coffer) ↔ m.IsCoffer := by
  have hsplit : fuseDot = fuse ++ Ipc.ascii "." := by decide +kernel
  have hfuse : ∀ b ∈ fuse, b ∈ fuseDot ++ coffer := fun b hb => by
    rw [hsplit]
    exact List.mem_append_left _ (List.mem_append_left _ hb)
  have hcoffer : ∀ b ∈ coffer, b ∈ fuseDot ++ coffer := fun b hb => List.mem_append_right _ hb
  have hdot : ∀ b ∈ fuseDot, e.name b = false :=
    fun b hb => e.name_of_mem_letters b (List.mem_append_left _ hb)
  rw [escape_name_eq hfuse, escape_name_eq hcoffer, isPrefix_escape name_mark hdot,
    List.isPrefixOf_iff_prefix]
  exact Iff.rfl

theorem codes_path (l : List UInt8) : (codes (escape e.path l)).map UInt8.ofNat = l := by
  rw [codes_escape path_mark, List.map_map]
  exact (List.map_congr_left fun b _ => UInt8.ofNat_toNat).trans (List.map_id _)

theorem unescapeMountinfo_escape {l : List UInt8} (h : Utf8.valid l = true) :
    unescapeMountinfo (escape e.path l) = l := by
  rw [unescapeMountinfo, codes_path, Utf8.lossy_of_valid h]

/-- A line adds its mountpoint and minor number to the result if the mount is coffer's, whatever the
options of the file system are. -/
theorem entryOf_start : entryOf (m.start e rest) =
    if m.IsCoffer then some (m.mountpoint, m.minor) else none := by
  obtain ⟨fs, hfs⟩ := (splitOn_start : ∃ fs, (m.start e rest).splitOn space = _)
  have hdash : space ∉ dash := by decide
  have hfstype := (separators_notMem_escape e.name_of_mem m.fstype).1
  have hsource := (separators_notMem_escape e.name_of_mem m.source).1
  have hminor : ((decimal m.major ++ colon :: decimal m.minor).splitOn colon)[1]?.bind parseU32 =
      some m.minor := by
    have hcolon {n : ℕ} : colon ∉ decimal n := notMem_decimal (by decide)
    rw [List.splitOn_append_cons_self_of_not_mem hcolon, List.splitOn_eq_singleton hcolon]
    exact parseU32_decimal m.minor_lt
  rw [entryOf, hfs]
  simp only [after_start, Option.map_some]
  by_cases h : escape e.name m.source = dash
  · -- The source is taken for a second separator, and is not coffer's.
    have hnot : ¬ m.IsCoffer := fun hc => by
      have hcoffer : escape e.name m.source = coffer := (ours_iff.2 hc).2
      rw [h] at hcoffer
      exact absurd hcoffer (by decide)
    rw [h, splitOn_before_of_eq hdash hfstype, if_neg hnot]
  · obtain ⟨more, hmore⟩ := splitOn_before_of_ne (l := rest) hdash hfstype hsource h
    rw [hmore]
    simp only [ours_iff, hminor, Option.map_some, unescapeMountinfo_escape m.mountpoint_valid]

theorem stripCr_concat (l : List UInt8) (b : UInt8) :
    stripCr (l ++ [b]) = if b = 13 then l else l ++ [b] := by
  simp [stripCr]

theorem stripCr_append (l : List UInt8) :
    stripCr (l ++ space :: rest) = l ++ space :: stripCr rest := by
  rcases rest.eq_nil_or_concat' with rfl | ⟨rest, b, rfl⟩
  · rw [stripCr_concat, if_neg (by decide)]
    rfl
  · have hconcat : l ++ space :: (rest ++ [b]) = (l ++ space :: rest) ++ [b] := by simp
    rw [hconcat, stripCr_concat, stripCr_concat]
    split
    · rfl
    · exact hconcat.symm

/-- A carriage return at the end of a line is one of the options. -/
theorem stripCr_line (m : Mount) : stripCr (m.line e) = m.start e (stripCr m.superOptions) := by
  have hline : ∃ l, ∀ rest, m.start e rest = l ++ space :: rest :=
    ⟨decimal m.id ++ ((m.fields e).flatMap (space :: ·) ++ space :: (dash ++ space ::
      (escape e.name m.fstype ++ space :: escape e.name m.source))), fun rest => by
        simp [Mount.start]⟩
  obtain ⟨l, hl⟩ := hline
  rw [Mount.line, hl, hl, stripCr_append]

/-! ## The table -/

theorem newline_notMem_line (m : Mount) : newline ∉ m.line e := by
  have hne : newline ≠ space := by decide
  have hfields : newline ∉ (m.fields e).flatMap (space :: ·) := by
    intro h
    obtain ⟨f, hf, hmem⟩ := List.mem_flatMap.1 h
    rcases List.mem_cons.1 hmem with h | h
    · exact hne h
    · exact (mem_fields hf).2.1 h
  have hid : newline ∉ decimal m.id := notMem_decimal (by decide)
  have hdash : newline ∉ dash := by decide
  simp [Mount.line, Mount.start, hid, hfields, hdash, hne, m.newline_notMem,
    (separators_notMem_escape e.name_of_mem _).2]

theorem splitOn_render (ms : List Mount) :
    (render e ms).splitOn newline = ms.map (Mount.line e) ++ [[]] := by
  induction ms with
  | nil => rfl
  | cons m ms ih =>
    have hrender : render e (m :: ms) = m.line e ++ newline :: render e ms := by simp [render]
    rw [hrender, List.splitOn_append_cons_self_of_not_mem (newline_notMem_line m), ih]
    rfl

theorem lines_render (ms : List Mount) :
    lines (render e ms) = ms.map fun m => stripCr (m.line e) := by
  have hlast : (Option.filter (fun l : List UInt8 => !l.isEmpty) (some [])).toList = [] := rfl
  rw [lines, splitOn_render, List.dropLast_concat, List.getLast?_concat, hlast, List.append_nil,
    List.map_map]
  rfl

theorem readToString_of_valid {table : List UInt8} (h : Utf8.valid table = true) :
    readToString (some table) = some table := by rw [readToString, Option.filter_some, if_pos h]

theorem readToString_of_not_valid {table : List UInt8} (h : Utf8.valid table = false) :
    readToString (some table) = none := by
  rw [readToString, Option.filter_some, if_neg (by simp [h])]

/-- **Every one of coffer's mounts is found, in the order of the table**, if the table is text. -/
theorem cofferMounts_render (h : Utf8.valid (render e ms) = true) :
    cofferMounts (some (render e ms)) =
      (ms.filter fun m => decide m.IsCoffer).map fun m => (m.mountpoint, m.minor) := by
  rw [cofferMounts, readToString_of_valid h]
  simp only [lines_render, ← List.filterMap_eq_map, ← List.filterMap_eq_filter,
    List.filterMap_filterMap]
  refine List.filterMap_congr fun m _ => ?_
  rw [Function.comp_apply, Option.bind_some, stripCr_line, entryOf_start]
  by_cases hm : m.IsCoffer
  · simp [hm]
  · simp [Option.guard, hm]

/-- Nothing is found in a table that is not text. -/
theorem cofferMounts_of_not_valid {table : List UInt8} (h : Utf8.valid table = false) :
    cofferMounts (some table) = [] := by rw [cofferMounts, readToString_of_not_valid h]

/-! ## What the table is read for -/

/-- The connection of the mount of coffer's that is listed last for a mountpoint. -/
def lastFor (ms : List Mount) (target : List UInt8) : Option ℕ :=
  ((ms.filter fun m => decide (m.IsCoffer ∧ m.mountpoint = target)).map Mount.minor).getLast?

/-- The table is decoded as it was rendered. -/
structure Decoded (e : Escaping) (ms : List Mount) : Prop where
  overflow : ∀ p : List UInt8, ∀ n ∈ codes (escape e.path p), n < 256
  paths : ∀ p, Utf8.valid p = true → unescapeMountinfo (escape e.path p) = p
  mounts : cofferMounts (some (render e ms)) =
    (ms.filter fun m => decide m.IsCoffer).map fun m => (m.mountpoint, m.minor)
  connection : ∀ target, fuseConnectionId (some (render e ms)) (some target) = lastFor ms target
  aborted : ∀ target plain lazy, (runUnmount (some (render e ms)) (some target) plain lazy).2 =
    if plain = some false ∧ lazy = some true then lastFor ms target else none

theorem fuseConnectionId_of_cofferMounts
    (h : cofferMounts (some (render e ms)) =
      (ms.filter fun m => decide m.IsCoffer).map fun m => (m.mountpoint, m.minor))
    (target : List UInt8) :
    fuseConnectionId (some (render e ms)) (some target) = lastFor ms target := by
  have hboth : ∀ m : Mount, (decide (m.mountpoint = target) && decide m.IsCoffer) =
      decide (m.IsCoffer ∧ m.mountpoint = target) := fun m => by
    rw [Bool.and_comm, Bool.decide_and]
  simp only [fuseConnectionId, h, lastFor, List.filter_map, List.map_map, List.filter_filter,
    Function.comp_def, hboth]

theorem isMounted_cofferMounts (h : Utf8.valid (render e ms) = true) (target : List UInt8) :
    isMounted (some target) (cofferMounts (some (render e ms))) =
      ms.any fun m => decide (m.IsCoffer ∧ m.mountpoint = target) := by
  simp [isMounted, cofferMounts_render h, List.any_filter, List.any_map, Function.comp_def,
    Bool.decide_and]

/-- Every mount counts here, coffer's or not. -/
theorem isMountpoint_render (h : Utf8.valid (render e ms) = true) (target : List UInt8) :
    isMountpoint (some (render e ms)) (some target) =
      ms.any fun m => decide (m.mountpoint = target) := by
  have hfield : ∀ m : Mount, ((stripCr (m.line e)).splitOn space)[4]? =
      some (escape e.path m.mountpoint) := fun m => by
    obtain ⟨fs, hfs⟩ := (splitOn_start : ∃ fs, (m.start e (stripCr m.superOptions)).splitOn space = _)
    rw [stripCr_line, hfs]
    rfl
  rw [isMountpoint, readToString_of_valid h]
  simp only [lines_render, List.filterMap_map, Function.comp_def, hfield]
  simp [List.any_map, Function.comp_def, unescapeMountinfo_escape, Mount.mountpoint_valid]

/-- An unmount aborts a connection only after a busy mountpoint was detached. -/
theorem runUnmount_snd (mountinfo key : Option (List UInt8)) (plain lazy : Option Bool) :
    (runUnmount mountinfo key plain lazy).2 =
      if plain = some false ∧ lazy = some true then fuseConnectionId mountinfo key else none := by
  rcases plain with _ | plain
  · rfl
  · cases plain with
    | true => rfl
    | false =>
      rcases lazy with _ | lazy
      · rfl
      · cases lazy <;> rfl

/-- **The mount table is decoded exactly if and only if it is text or coffer has no mount in it.** -/
theorem decodes_exactly_iff (e : Escaping) (ms : List Mount) :
    Decoded e ms ↔ Utf8.valid (render e ms) = true ∨ ∀ m ∈ ms, ¬ m.IsCoffer := by
  constructor
  · intro h
    by_contra hnot
    obtain ⟨htext, hcoffer⟩ := not_or.1 hnot
    have hnone := h.mounts
    rw [cofferMounts_of_not_valid (Bool.not_eq_true _ ▸ htext), eq_comm, List.map_eq_nil_iff,
      List.filter_eq_nil_iff] at hnone
    exact hcoffer fun m hm hc => hnone m hm (decide_eq_true hc)
  · intro h
    have hmounts : cofferMounts (some (render e ms)) =
        (ms.filter fun m => decide m.IsCoffer).map fun m => (m.mountpoint, m.minor) := by
      cases hvalid : Utf8.valid (render e ms) with
      | true => exact cofferMounts_render hvalid
      | false =>
        have hcoffer : ∀ m ∈ ms, ¬ m.IsCoffer := h.resolve_left (by simp [hvalid])
        have hnil : (ms.filter fun m => decide m.IsCoffer) = [] :=
          List.filter_eq_nil_iff.2 fun m hm => by simpa using hcoffer m hm
        rw [cofferMounts_of_not_valid hvalid, hnil, List.map_nil]
    have hconnection := fuseConnectionId_of_cofferMounts hmounts
    refine ⟨fun p n hn => ?_, fun p hp => unescapeMountinfo_escape hp, hmounts, hconnection, ?_⟩
    · rw [codes_escape path_mark] at hn
      obtain ⟨b, -, rfl⟩ := List.mem_map.1 hn
      exact b.toNat_lt
    · intro target plain lazy
      rw [runUnmount_snd, hconnection]

/-- The escapes of the Linux kernel. -/
def linux : Escaping where
  path b := b ∈ [space, 9, newline, mark]
  name b := b ∈ [space, 9, newline, mark, 35]
  path_of_mem _ hb := decide_eq_true hb
  name_of_mem _ hb := decide_eq_true (List.mem_append_left [35] hb)
  name_of_mem_letters b hb := by
    have hletters : (fuseDot ++ coffer).all
        fun b => !decide (b ∈ [space, 9, newline, mark, 35]) := by decide +kernel
    simpa using List.all_eq_true.1 hletters b hb

/-- `rw` -/
def rw : Field := ⟨Ipc.ascii "rw", by decide⟩

/-- A directory whose name is no text, mounted by somebody else on `/m`. -/
def foreign : Mount where
  id := 30
  parent := 1
  major := 8
  minor := 1
  root := [47, 255]
  mountpoint := Ipc.ascii "/m"
  options := rw
  optional := []
  fstype := Ipc.ascii "ext4"
  source := Ipc.ascii "/dev/sda1"
  superOptions := Ipc.ascii "rw"
  minor_lt := by decide
  root_ne := by decide
  mountpoint_absolute := by decide
  mountpoint_valid := by decide +kernel
  newline_notMem := by decide

/-- A mount of coffer's, on `/v`. -/
def vault : Mount where
  id := 31
  parent := 1
  major := 0
  minor := 52
  root := Ipc.ascii "/"
  mountpoint := Ipc.ascii "/v"
  options := rw
  optional := []
  fstype := fuse
  source := coffer
  superOptions := Ipc.ascii "rw"
  minor_lt := by decide
  root_ne := by decide
  mountpoint_absolute := by decide
  mountpoint_valid := by decide +kernel
  newline_notMem := by decide

/-- Somebody else's mount hides coffer's. -/
theorem foreign_hides_vault : ¬ ∀ (e : Escaping) (ms : List Mount), Decoded e ms := by
  intro h
  have hinvalid : Utf8.valid (render linux [foreign, vault]) = false := by decide +kernel
  have hmounts := (h linux [foreign, vault]).mounts
  rw [cofferMounts_of_not_valid hinvalid] at hmounts
  exact absurd hmounts (by decide)

end CofferFS.Mounts
