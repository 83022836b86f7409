import CofferFS.Lib.Rounding
import CofferFS.Lib.Text
import CofferFS.Time

/-!
# The vault registry

config.rs: the text of `~/.coffer/config`, the sections it is parsed into, the vaults that are
read from them, and how `coffer add` and `coffer remove` write it back.
-/

namespace CofferFS

open Text

/-! ## Durations -/

/-- What `str::parse::<f64>` makes of a text that it accepts. -/
inductive ParsedF64
  | finite (value : F64)
  | infinite
  | nan

/-- The number that decimal digits stand for. -/
def digitsValue (ds : Text) : ℕ := ds.foldl (fun n c => 10 * n + (c.toNat - 48)) 0

/-- `[+-]? Digit+`, given without the sign. -/
def parseDigits (negative : Bool) (ds : Text) : Option ℤ :=
  if ds ≠ [] ∧ ds.all Char.isDigit then
    some (if negative then -digitsValue ds else digitsValue ds)
  else none

/-- An exponent, or none at all. -/
def parseExponent : Text → Option ℤ
  | [] => some 0
  | c :: rest =>
    if c = 'e' ∨ c = 'E' then
      match rest with
      | '-' :: ds => parseDigits true ds
      | '+' :: ds => parseDigits false ds
      | ds => parseDigits false ds
    else none

/-- `Number` in the grammar of `f64::from_str`. -/
def parseNumber (t : Text) : Option ℚ :=
  let int := t.takeWhile Char.isDigit
  let rest := t.dropWhile Char.isDigit
  let frac := if rest.head? = some '.' then rest.tail.takeWhile Char.isDigit else []
  let rest := if rest.head? = some '.' then rest.tail.dropWhile Char.isDigit else rest
  if int = [] ∧ frac = [] then none
  else (parseExponent rest).map fun e : ℤ => digitsValue (int ++ frac) * (10 : ℚ) ^ (e - frac.length)

/-- The text after an optional sign. -/
def unsigned (t : Text) : Text :=
  if t.head? = some '-' ∨ t.head? = some '+' then t.tail else t

/-- The number that a text stands for. -/
def exactNumber (t : Text) : Option ℚ :=
  (parseNumber (unsigned t)).map fun q => if t.head? = some '-' then -q else q

/-- The nearest `f64`: 53 bits, the last of them no smaller than the smallest number above zero. The
sign of an infinity is left out. -/
def roundF64 (q : ℚ) : ParsedF64 :=
  if 2 ^ 1024 ≤ |Rounding.gradual 53 (-1074) q| then .infinite
  else .finite (Rounding.gradual 53 (-1074) q)

/-- `f64::from_str` -/
def parseF64 (t : Text) : Option ParsedF64 :=
  let lower := (unsigned t).map Char.toLower
  if lower = "inf".toList ∨ lower = "infinity".toList then some .infinite
  else if lower = "nan".toList then some .nan
  else (exactNumber t).map roundF64

theorem roundF64_eq_finite_iff {q v : ℚ} : roundF64 q = .finite v ↔
    v = Rounding.gradual 53 (-1074) q ∧ |Rounding.gradual 53 (-1074) q| < 2 ^ 1024 := by
  rw [roundF64]
  split_ifs with h
  · refine iff_of_false (fun h' => by cases h') fun h' => ?_
    exact absurd h'.2 (not_lt.2 h)
  · rw [ParsedF64.finite.injEq, and_iff_left (not_le.1 h), eq_comm]

/-- Only a number is parsed as a finite one. -/
theorem exactNumber_of_parseF64 {t : Text} {v : F64} (h : parseF64 t = some (.finite v)) :
    ∃ q, exactNumber t = some q ∧ roundF64 q = .finite v := by
  unfold parseF64 at h
  dsimp only at h
  split_ifs at h
  · cases h
  · cases h
  · exact Option.map_eq_some_iff.1 h

/-- The text before the unit, and the seconds in the unit. -/
def splitUnit (s : Text) : Text × ℕ :=
  match s.getLast? with
  | some 's' => (s.dropLast, 1)
  | some 'm' => (s.dropLast, 60)
  | some 'h' => (s.dropLast, 3600)
  | some 'd' => (s.dropLast, 86400)
  | _ => (s, 1)

/-- main.rs `parse_duration`; there is no result for an error and for the panic of
`from_secs_f64`. -/
def parseDuration (s : Text) : Option Duration :=
  match parseF64 (splitUnit (trim s)).1 with
  | some (.finite value) =>
    match roundF64 (value * (splitUnit (trim s)).2) with
    | .finite secs => if secs < 0 then none else Duration.fromSecsF64 secs
    | _ => none
  | _ => none

/-! ## Vaults -/

/-- db.rs `Locking` -/
inductive Locking
  | auto
  | exclusive
  | normal
  deriving DecidableEq

/-- `Locking::as_str` -/
def Locking.asStr : Locking → Text
  | auto => "auto".toList
  | exclusive => "exclusive".toList
  | normal => "normal".toList

/-- `Locking::parse` -/
def Locking.parse (s : Text) : Option Locking :=
  let s := (trim s).map Char.toLower
  if s = "auto".toList then some auto
  else if s = "exclusive".toList then some exclusive
  else if s = "normal".toList then some normal
  else none

structure Vault where
  «alias» : Text
  file : Text
  mountpoint : Text
  idleTimeout : Option Text := none
  compactOnIdle : Option Text := none
  passwordFile : Option Text := none
  passwordCommand : Option Text := none
  logFile : Option Text := none
  readOnly : Bool := false
  enforcePermissions : Bool := false
  locking : Option Locking := none
  deriving DecidableEq

/-- `validate_alias` -/
def validAlias (name : Text) : Bool :=
  name.head?.any Char.isAlphanum &&
    name.all fun c => c.isAlphanum || c == '-' || c == '_' || c == '.'

/-- What is wrong with a registry. -/
inductive ConfigError
  /-- `malformed section header` -/
  | malformedHeader (line : ℕ) (raw : Text)
  /-- `invalid alias` -/
  | invalidAlias (line : ℕ) (name : Text)
  /-- `duplicate section` -/
  | duplicateSection (line : ℕ) (name : Text)
  /-- ``expected `key = value` `` -/
  | notKeyValue (vault : Text) (raw : Text)
  /-- `has no value` -/
  | noValue (vault : Text) (key : Text)
  /-- `must be true or false`, `must be auto, exclusive or normal` -/
  | badValue (vault : Text) (key value : Text)
  /-- `unknown key` -/
  | unknownKey (vault : Text) (key : Text)
  /-- ``missing `key = ...` `` -/
  | missing (vault : Text) (key : Text)
  deriving DecidableEq

/-- `$HOME`, if it is set and not empty. -/
abbrev Home := Option Text

/-- `PathBuf::join` with a relative path. -/
def joinPath (dir rest : Text) : Text :=
  if dir.getLast? = some '/' then dir ++ rest else dir ++ '/' :: rest

/-- `expand_tilde` -/
def expandTilde (home : Home) (s : Text) : Text :=
  match s, home with
  | '~' :: rest, some home =>
    if rest = [] ∨ rest.head? = some '/' then joinPath home (rest.dropWhile (· == '/')) else s
  | _, _ => s

/-- There are quotes around the text. -/
def quoted (v : Text) : Bool :=
  2 ≤ v.length && ((v.head? == some '"' && v.getLast? == some '"') ||
    (v.head? == some '\'' && v.getLast? == some '\''))

/-- `unquote` -/
def unquote (v : Text) : Text :=
  if quoted (trim v) then (trim v).tail.dropLast else trim v

/-- `parse_bool` -/
def parseBool (value : Text) : Option Bool :=
  let v := value.map Char.toLower
  if v = "true".toList ∨ v = "yes".toList ∨ v = "on".toList ∨ v = "1".toList then some true
  else if v = "false".toList ∨ v = "no".toList ∨ v = "off".toList ∨ v = "0".toList then some false
  else none

/-- `is_comment` -/
def isComment (line : Text) : Bool :=
  match trimStart line with
  | [] => true
  | c :: _ => c == '#' || c == ';'

/-! ## Reading a section -/

structure Section where
  name : Text
  lines : List Text
  deriving DecidableEq

/-- The local variables of `vault_from`. -/
structure Draft where
  file : Option Text := none
  mountpoint : Option Text := none
  idleTimeout : Option Text := none
  compactOnIdle : Option Text := none
  passwordFile : Option Text := none
  passwordCommand : Option Text := none
  logFile : Option Text := none
  readOnly : Bool := false
  enforcePermissions : Bool := false
  locking : Option Locking := none

namespace Draft

/-- `match key.trim()` -/
def set (home : Home) (name : Text) (d : Draft) (key value : Text) : Except ConfigError Draft :=
  if key = "file".toList then .ok { d with file := expandTilde home value }
  else if key = "mountpoint".toList then .ok { d with mountpoint := expandTilde home value }
  else if key = "idle_timeout".toList then .ok { d with idleTimeout := value }
  else if key = "compact_on_idle".toList then .ok { d with compactOnIdle := value }
  else if key = "password_file".toList then .ok { d with passwordFile := expandTilde home value }
  else if key = "password_command".toList then .ok { d with passwordCommand := value }
  else if key = "log_file".toList then .ok { d with logFile := expandTilde home value }
  else if key = "read_only".toList then
    match parseBool value with
    | some b => .ok { d with readOnly := b }
    | none => .error (.badValue name key value)
  else if key = "enforce_permissions".toList then
    match parseBool value with
    | some b => .ok { d with enforcePermissions := b }
    | none => .error (.badValue name key value)
  else if key = "locking".toList then
    match Locking.parse value with
    | some l => .ok { d with locking := l }
    | none => .error (.badValue name key value)
  else .error (.unknownKey name key)

/-- One line of a section. -/
def line (home : Home) (name : Text) (d : Draft) (raw : Text) : Except ConfigError Draft :=
  if isComment raw then .ok d
  else match splitOnce '=' raw with
    | none => .error (.notKeyValue name raw)
    | some (key, value) =>
      if unquote value = [] then .error (.noValue name (trim key))
      else d.set home name (trim key) (unquote value)

/-- The lines of a section. -/
def lines (home : Home) (name : Text) (d : Draft) (ls : List Text) : Except ConfigError Draft :=
  ls.foldlM (line home name) d

end Draft

/-- `vault_from` -/
def Section.vaultFrom (home : Home) (s : Section) : Except ConfigError Vault := do
  let d ← Draft.lines home s.name {} s.lines
  let file ← d.file.elim (.error (.missing s.name "file".toList)) .ok
  let mountpoint ← d.mountpoint.elim (.error (.missing s.name "mountpoint".toList)) .ok
  pure
    { «alias» := s.name, file, mountpoint
      idleTimeout := d.idleTimeout, compactOnIdle := d.compactOnIdle
      passwordFile := d.passwordFile, passwordCommand := d.passwordCommand
      logFile := d.logFile, readOnly := d.readOnly
      enforcePermissions := d.enforcePermissions, locking := d.locking }

/-! ## The registry -/

structure Config where
  preamble : List Text := []
  sections : List Section := []
  deriving DecidableEq

namespace Config

/-- A line that is no header. -/
def addLine (cfg : Config) (raw : Text) : Config :=
  match cfg.sections.getLast? with
  | some s => { cfg with
      sections := cfg.sections.dropLast ++ [{ s with lines := s.lines ++ [raw] }] }
  | none => { cfg with preamble := cfg.preamble ++ [raw] }

/-- One line of the text. -/
def parseLine (cfg : Config) (n : ℕ) (raw : Text) : Except ConfigError Config :=
  if (trim raw).head? = some '[' then
    if (trim raw).tail.getLast? = some ']' then
      let name := trim (trim raw).tail.dropLast
      if validAlias name = false then .error (.invalidAlias n name)
      else if cfg.sections.any (·.name = name) then .error (.duplicateSection n name)
      else .ok { cfg with sections := cfg.sections ++ [⟨name, []⟩] }
    else .error (.malformedHeader n raw)
  else .ok (cfg.addLine raw)

/-- The lines of the text, from number `n` on. -/
def parseLines : ℕ → Config → List Text → Except ConfigError Config
  | _, cfg, [] => .ok cfg
  | n, cfg, raw :: rest => do
    let cfg ← cfg.parseLine n raw
    parseLines (n + 1) cfg rest

/-- `Config::parse` -/
def parse (text : Text) : Except ConfigError Config := parseLines 1 {} (lines text)

/-- `Config::vaults` -/
def vaults (home : Home) (cfg : Config) : Except ConfigError (List Vault) :=
  cfg.sections.mapM (Section.vaultFrom home)

/-- `Config::get` -/
def get (home : Home) (cfg : Config) (name : Text) : Except ConfigError (Option Vault) :=
  match cfg.sections.find? (·.name = name) with
  | some s => (s.vaultFrom home).map some
  | none => .ok none

end Config

/-! ## Writing it back -/

/-- `format!("{key} = {value}")` -/
def entry (key value : Text) : Text := key ++ (" = ".toList ++ value)

/-- `render` -/
def render (v : Vault) : List Text :=
  [entry "file".toList v.file, entry "mountpoint".toList v.mountpoint] ++
    (v.idleTimeout.map (entry "idle_timeout".toList)).toList ++
    (v.compactOnIdle.map (entry "compact_on_idle".toList)).toList ++
    (v.passwordFile.map (entry "password_file".toList)).toList ++
    (v.passwordCommand.map (entry "password_command".toList)).toList ++
    (v.logFile.map (entry "log_file".toList)).toList ++
    (if v.readOnly then [entry "read_only".toList "true".toList] else []) ++
    (if v.enforcePermissions then [entry "enforce_permissions".toList "true".toList] else []) ++
    (v.locking.map fun l => entry "locking".toList l.asStr).toList

namespace Config

/-- The first section of that name gets other lines, and keeps the blank line at its end. -/
def replaceSection (name : Text) (ls : List Text) : List Section → Option (List Section)
  | [] => none
  | s :: rest =>
    if s.name = name then
      some ({ s with lines := if s.lines.getLast?.any fun l => decide (trim l = []) then
        ls ++ [[]] else ls } :: rest)
    else (replaceSection name ls rest).map (s :: ·)

/-- A blank line after lines that do not end with one. -/
def separated (ls : List Text) : List Text :=
  if ls.getLast?.any fun l => decide (trim l ≠ []) then ls ++ [[]] else ls

/-- `Config::upsert`, with whether it replaced a section. -/
def upsert (cfg : Config) (v : Vault) : Config × Bool :=
  match replaceSection v.alias (render v) cfg.sections with
  | some sections => ({ cfg with sections }, true)
  | none =>
    match cfg.sections.getLast? with
    | some s => ({ cfg with sections := cfg.sections.dropLast ++
        [{ s with lines := separated s.lines }, ⟨v.alias, render v⟩] }, false)
    | none => ({ preamble := separated cfg.preamble, sections := [⟨v.alias, render v⟩] }, false)

/-- `Config::remove`, with whether there was a section to remove. -/
def remove (cfg : Config) (name : Text) : Config × Bool :=
  ({ cfg with sections := cfg.sections.filter (·.name ≠ name) },
    (cfg.sections.filter (·.name ≠ name)).length ≠ cfg.sections.length)

/-- The lines that are written. -/
def allLines (cfg : Config) : List Text :=
  cfg.preamble ++ cfg.sections.flatMap fun s => ('[' :: s.name ++ [']']) :: s.lines

/-- `Config::to_text` -/
def toText (cfg : Config) : Text := popBlanks (unlines cfg.allLines)

end Config

/-- What `cmd_add` checks of a vault whose paths it has made absolute. -/
def Vault.acceptable (v : Vault) : Bool :=
  validAlias v.alias && v.idleTimeout.all (fun d => (parseDuration d).isSome) &&
    v.compactOnIdle.all fun d => (parseDuration d).isSome

/-- `cmd_add`, up to the text that it saves. -/
def cmdAdd (cfg : Config) (v : Vault) : Option Text :=
  if v.acceptable then some (cfg.upsert v).1.toText else none

/-- `cmd_remove`, up to the text that it saves. -/
def cmdRemove (cfg : Config) (name : Text) : Option Text :=
  if (cfg.remove name).2 then some (cfg.remove name).1.toText else none

end CofferFS
