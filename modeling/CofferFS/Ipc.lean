import CofferFS.Lib.Text
import CofferFS.Lib.Utf8
import Mathlib.Algebra.Group.Nat.Defs

/-!
# The control socket of a mount

ipc.rs: a client asks the daemon of a mount for a copy of the container. The request is made of
fields that each end with a zero byte, and the daemon reads no more than 64 KiB of it; the answer
is made of lines, reports of the progress before an `ok` or an `error`. What SQLite, the system
and the file system answer to the daemon is given. `backup_protocol` is about both sides together.
-/

namespace CofferFS.Ipc

open Text

/-! ## The request -/

/-- The bytes of an ASCII text. -/
def ascii (s : String) : List UInt8 := s.toList.map fun c => UInt8.ofNat c.toNat

/-- What `ask` sends. -/
def request (verb dest password : List UInt8) : List UInt8 :=
  verb ++ 0 :: (dest ++ 0 :: (password ++ [0]))

/-- A request that is not refused. -/
structure Request where
  withProgress : Bool
  dest : List UInt8
  password : List UInt8
  deriving DecidableEq

/-- The message of a request that is no request. -/
def malformed : Text := "malformed request".toList

/-! ## The daemon -/

/-- The error of a system call, as `io::Error` displays it. -/
structure OsError where
  detail : Text
  code : ℕ

def OsError.display (e : OsError) : Text :=
  e.detail ++ (" (os error ".toList ++ (Nat.toDigits 10 e.code ++ [')']))

/-- What `sqlite3_backup_step` returns. -/
inductive StepCode
  | ok
  | busy
  | locked
  | done
  | other
  deriving DecidableEq

/-- A step of the copy: the result code, `sqlite3_backup_remaining` and
`sqlite3_backup_pagecount`. -/
structure Step where
  code : StepCode
  remaining : ℤ
  pagecount : ℤ

def Step.total (s : Step) : ℕ := s.pagecount.toNat

def Step.done (s : Step) : ℕ := s.total - min s.remaining.toNat s.total

/-- What is answered to the calls that `backup` makes. -/
structure Answers where
  /-- `Connection::open` -/
  opened : Except Text Unit
  /-- the key is set -/
  keyed : Except Text Unit
  /-- `db::page_size` -/
  pageSize : Except Text ℕ
  /-- `sqlite3_backup_init` is not null -/
  started : Bool
  /-- the steps, as long as they are asked for; after them nothing is answered any more -/
  steps : List Step
  /-- `sqlite3_backup_finish` is `SQLITE_OK` -/
  finished : Bool
  /-- `sqlite3_errmsg` -/
  errmsg : Text
  /-- `set_permissions` -/
  permissions : Except OsError Unit

/-- How the loop of `backup` ends. -/
inductive LoopEnd
  | done
  | other
  | abandoned (cause : Text)

/-- The loop of `backup`: what `progress` was told, and how it ended. `progress` answers with an
error to what it has been told so far, or not. -/
def backupLoop (progress : List (ℕ × ℕ) → Option Text) (pageSize : ℕ) :
    List (ℕ × ℕ) → List Step → List (ℕ × ℕ) × Option LoopEnd
  | told, [] => (told, none)
  | told, s :: rest =>
    match s.code with
    | .ok =>
      let told := told ++ [(s.done * pageSize, s.total * pageSize)]
      match progress told with
      | some cause => (told, some (.abandoned cause))
      | none => backupLoop progress pageSize told rest
    | .busy | .locked => backupLoop progress pageSize told rest
    | .done => (told ++ [(s.total * pageSize, s.total * pageSize)], some .done)
    | .other => (told, some .other)

/-- What a call of `backup` did. -/
structure Backup where
  /-- what `progress` was told -/
  told : List (ℕ × ℕ) := []
  /-- what is returned, if anything ever is -/
  result : Option (Except Text Unit)
  /-- something was written to the destination -/
  begun : Bool := false

/-- The error with what it is about before it, as `{:#}` shows it. -/
def context (what cause : Text) : Text := what ++ (": ".toList ++ cause)

/-- What is returned after the loop. -/
def backupEnd (a : Answers) : LoopEnd → Except Text Unit
  | .abandoned cause => .error (context "backup abandoned".toList cause)
  | .other => .error (context "backup failed".toList a.errmsg)
  | .done =>
    if a.finished then a.permissions.mapError OsError.display
    else .error (context "backup failed".toList a.errmsg)

/-- `backup`, with the destination as it is displayed. -/
def backup (a : Answers) (dest : Text) (progress : List (ℕ × ℕ) → Option Text) : Backup :=
  match a.opened, a.keyed, a.pageSize with
  | .error e, _, _ => { result := some (.error (context ("creating ".toList ++ dest) e)) }
  | .ok _, .error e, _ => { result := some (.error e) }
  | .ok _, .ok _, .error e => { result := some (.error e) }
  | .ok _, .ok _, .ok pageSize =>
    if a.started then
      let loop := backupLoop progress pageSize [] a.steps
      { told := loop.1, result := loop.2.map (backupEnd a), begun := true }
    else { result := some (.error (context "starting the backup".toList a.errmsg)) }

/-- The daemon of a mount, and what it is answered. -/
structure Daemon where
  uid : ℕ
  /-- not one that predates the progress reports -/
  knowsProgress : Bool
  /-- `read_first_page` and `verify_password` -/
  verify : List UInt8 → Except Text Bool
  answers : List UInt8 → List UInt8 → Answers
  /-- `Path::display` -/
  display : List UInt8 → Text
  /-- how `Utf8Error` is displayed -/
  utf8Error : List UInt8 → Text

namespace Daemon

/-- `match *verb` -/
def readVerb (d : Daemon) (verb : List UInt8) : Except Text Bool :=
  if verb = ascii "backup" then .ok false
  else if verb = ascii "backup-progress" ∧ d.knowsProgress then .ok true
  else .error malformed

/-- The destination has to be absolute and the password a text. -/
def readFields (d : Daemon) (withProgress : Bool) (dest password : List UInt8) :
    Except Text Request :=
  if dest.head? ≠ some '/'.toUInt8 then
    .error (context malformed "destination must be an absolute path".toList)
  else if Utf8.valid password = false then .error (context malformed (d.utf8Error password))
  else .ok { withProgress, dest, password }

/-- The request that `serve` reads from the bytes, or the message that it refuses them with. -/
def decode (d : Daemon) (bytes : List UInt8) : Except Text Request :=
  match (bytes.take (64 * 1024)).splitOn 0 with
  | [verb, dest, password, []] => do
    let withProgress ← d.readVerb verb
    d.readFields withProgress dest password
  | _ => .error malformed

/-- `serve`, for a client that reads the reports. -/
def serve (d : Daemon) (peer : ℕ) (bytes : List UInt8) : Backup :=
  if peer ≠ d.uid then
    { result := some (.error
      "refused: only the user who mounted the container may use this socket".toList) }
  else match d.decode bytes with
    | .error e => { result := some (.error e) }
    | .ok req =>
      match d.verify req.password with
      | .error e => { result := some (.error e) }
      | .ok false => { result := some (.error "wrong password".toList) }
      | .ok true =>
        let copy := backup (d.answers req.dest req.password) (d.display req.dest) fun _ => none
        { copy with told := if req.withProgress then copy.told else [] }

end Daemon

/-! ## The answer -/

/-- `progress {done} {total}` -/
def progressLine (report : ℕ × ℕ) : Text :=
  "progress ".toList ++ (Nat.toDigits 10 report.1 ++ ' ' :: Nat.toDigits 10 report.2)

/-- `replace('\n', " ")` -/
def oneLine (message : Text) : Text := message.map fun c => if c = '\n' then ' ' else c

/-- The line that ends the answer. -/
def resultLine : Except Text Unit → Text
  | .ok _ => "ok".toList
  | .error e => "error ".toList ++ oneLine e

/-- What `handle` writes. -/
def reply (b : Backup) : Text :=
  unlines (b.told.map progressLine ++ (b.result.map resultLine).toList)

/-! ## The client -/

/-- The number that decimal digits stand for. -/
def parseDecimal (t : Text) : Option ℕ :=
  if t ≠ [] ∧ t.all Char.isDigit then some (Nat.ofDigitChars 10 t 0) else none

/-- `u64::from_str` -/
def parseU64 (t : Text) : Option ℕ :=
  (parseDecimal (if t.head? = some '+' then t.tail else t)).filter fun n => decide (n < 2 ^ 64)

/-- `strip_prefix` -/
def stripPrefix (pre t : Text) : Option Text :=
  if pre.isPrefixOf t then some (t.drop pre.length) else none

/-- The message of an answer that does not come. -/
def noAnswer : Text := "the mount daemon closed the connection without an answer".toList

/-- What a client learns. -/
structure Asked where
  /-- what its `progress` was told -/
  told : List (ℕ × ℕ)
  result : Except Text Unit
  deriving DecidableEq

/-- The loop of `ask`, over the lines that are read. -/
def readAnswer : List Text → Asked
  | [] => ⟨[], .error noAnswer⟩
  | raw :: rest =>
    match (stripPrefix "progress ".toList (trimEnd raw)).bind (splitOnce ' ') with
    | some (done, total) =>
      match parseU64 done, parseU64 total with
      | some done, some total =>
        { told := (done, total) :: (readAnswer rest).told, result := (readAnswer rest).result }
      | _, _ => readAnswer rest
    | none =>
      ⟨[], if trimEnd raw = "ok".toList then .ok ()
        else match stripPrefix "error ".toList (trimEnd raw) with
          | some message => .error message
          | none => .error noAnswer⟩

/-- `ask` -/
def ask (d : Daemon) (peer : ℕ) (verb dest password : List UInt8) : Asked :=
  readAnswer (lfLines (reply (d.serve peer (request verb dest password))))

/-- The daemon has begun to write a copy. -/
def copies (d : Daemon) (peer : ℕ) (verb dest password : List UInt8) : ℕ :=
  if (d.serve peer (request verb dest password)).begun then 1 else 0

/-- What came of `request_backup`. -/
structure Requested extends Asked where
  /-- how many copies were begun -/
  copies : ℕ

/-- `request_backup`, with the daemons that the socket leads to, if it does, when the client
connects for the first and for the second time. -/
def requestBackup (first second : Option Daemon) (peer : ℕ) (dest password : List UInt8) :
    Option Requested :=
  first.map fun d =>
    let asked := ask d peer (ascii "backup-progress") dest password
    let begun := copies d peer (ascii "backup-progress") dest password
    match second with
    | some d' =>
      if asked.result = .error malformed then
        { told := asked.told ++ (ask d' peer (ascii "backup") dest password).told
          result := (ask d' peer (ascii "backup") dest password).result
          copies := begun + copies d' peer (ascii "backup") dest password }
      else { asked with copies := begun }
    | none => { asked with copies := begun }

/-! ## The request is read as it was written -/

section Decoding

variable {verb dest password : List UInt8}

theorem length_splitOn_zero (l : List UInt8) : (l.splitOn 0).length = l.count 0 + 1 := by
  induction l with
  | nil => rfl
  | cons b l ih =>
    rw [List.splitOn_cons_eq_if_modifyHead, List.count_cons]
    split_ifs with hb
    · rw [List.length_cons, ih]
    · rw [List.length_modifyHead, ih]

theorem splitOn_request (hverb : 0 ∉ verb) (hdest : 0 ∉ dest) (hpassword : 0 ∉ password) :
    (request verb dest password).splitOn 0 = [verb, dest, password, []] := by
  rw [request, List.splitOn_append_cons_self, List.splitOn_append_cons_self,
    List.splitOn_append_cons_self, List.splitOn_eq_singleton hverb, List.splitOn_eq_singleton hdest,
    List.splitOn_eq_singleton hpassword]
  rfl

/-- What is cut off after 64 KiB has lost its last zero byte. -/
theorem length_splitOn_take (hverb : 0 ∉ verb) (hdest : 0 ∉ dest) (hpassword : 0 ∉ password)
    {n : ℕ} (hn : n < (request verb dest password).length) :
    (((request verb dest password).take n).splitOn 0).length ≤ 3 := by
  have hconcat : request verb dest password =
      (verb ++ 0 :: (dest ++ 0 :: password)) ++ [0] := by
    simp [request]
  have htake : ((request verb dest password).take n).Sublist
      (verb ++ 0 :: (dest ++ 0 :: password)) := by
    rw [hconcat, List.length_append, List.length_singleton] at hn
    rw [hconcat, List.take_append_of_le_length (by omega)]
    exact List.take_sublist _ _
  have hcount := htake.count_le 0
  rw [List.count_append, List.count_cons_self, List.count_append, List.count_cons_self,
    List.count_eq_zero_of_not_mem hverb, List.count_eq_zero_of_not_mem hdest,
    List.count_eq_zero_of_not_mem hpassword] at hcount
  rw [length_splitOn_zero]
  omega

/-- The verb of a request. -/
def verbOf (withProgress : Bool) : List UInt8 :=
  if withProgress then ascii "backup-progress" else ascii "backup"

theorem Daemon.readVerb_verbOf (d : Daemon) (withProgress : Bool) :
    d.readVerb (verbOf withProgress) = .ok withProgress ∨
      d.readVerb (verbOf withProgress) = .error malformed := by
  cases withProgress with
  | false => exact .inl rfl
  | true =>
    have hne : ascii "backup-progress" ≠ ascii "backup" := by decide
    rw [Daemon.readVerb, verbOf, if_pos rfl, if_neg hne]
    split_ifs
    · exact .inl rfl
    · exact .inr rfl

/-- A request is read as it was sent, or refused. -/
theorem Daemon.decode_request (d : Daemon) (withProgress : Bool)
    (habs : dest.head? = some '/'.toUInt8) (hdest : 0 ∉ dest) (hpassword : 0 ∉ password)
    (hvalid : Utf8.valid password = true) :
    d.decode (request (verbOf withProgress) dest password) = .ok ⟨withProgress, dest, password⟩ ∨
      d.decode (request (verbOf withProgress) dest password) = .error malformed := by
  have hverb : 0 ∉ verbOf withProgress := by cases withProgress <;> decide
  by_cases hlength : (request (verbOf withProgress) dest password).length ≤ 64 * 1024
  · have hfields : d.readFields withProgress dest password = .ok ⟨withProgress, dest, password⟩ := by
      rw [Daemon.readFields, if_neg fun h => h habs, hvalid]
      rfl
    rw [Daemon.decode, List.take_of_length_le hlength, splitOn_request hverb hdest hpassword]
    dsimp only
    rcases d.readVerb_verbOf withProgress with hread | hread
    · rw [hread]
      exact .inl hfields
    · rw [hread]
      exact .inr rfl
  · right
    have hfields := length_splitOn_take hverb hdest hpassword (Nat.lt_of_not_le hlength)
    rw [Daemon.decode]
    split
    · rename_i hsplit
      rw [hsplit] at hfields
      simp at hfields
    · rfl

end Decoding

/-! ## The answer is read as it was written -/

section Answering

variable {told : List (ℕ × ℕ)} {message : Text} {rest : List Text}

theorem newline_notMem_toDigits (n : ℕ) : '\n' ∉ Nat.toDigits 10 n := by
  intro h
  exact absurd (Nat.isDigit_of_mem_toDigits (by decide) (by decide) h) (by decide)

theorem space_notMem_toDigits (n : ℕ) : ' ' ∉ Nat.toDigits 10 n := by
  intro h
  exact absurd (Nat.isDigit_of_mem_toDigits (by decide) (by decide) h) (by decide)

theorem progressLine_eq (r : ℕ × ℕ) : progressLine r =
    "progress ".toList ++ (Nat.toDigits 10 r.1 ++ ' ' :: Nat.toDigits 10 r.2) := by
  unfold progressLine
  rfl

theorem newline_notMem_progressLine (r : ℕ × ℕ) : '\n' ∉ progressLine r := by
  rw [progressLine_eq, List.mem_append, List.mem_append, List.mem_cons]
  rintro (h | h | h | h)
  · exact absurd h (by decide)
  · exact newline_notMem_toDigits _ h
  · exact absurd h (by decide)
  · exact newline_notMem_toDigits _ h

theorem newline_notMem_oneLine : '\n' ∉ oneLine message := by
  intro h
  obtain ⟨c, -, hc⟩ := List.mem_map.1 h
  split_ifs at hc with hnl
  · exact absurd hc (by decide)
  · exact hnl hc

theorem newline_notMem_resultLine (result : Except Text Unit) : '\n' ∉ resultLine result := by
  cases result with
  | ok _ =>
    rw [resultLine]
    decide
  | error e =>
    rw [resultLine, List.mem_append]
    rintro (h | h)
    · exact absurd h (by decide)
    · exact newline_notMem_oneLine h

/-- The lines that are read are those that were written. -/
theorem lfLines_reply (b : Backup) :
    lfLines (reply b) = b.told.map progressLine ++ (b.result.map resultLine).toList := by
  rw [reply, lfLines_unlines, pieces_of_notMem]
  intro l hl
  rcases List.mem_append.1 hl with hl | hl
  · obtain ⟨r, -, rfl⟩ := List.mem_map.1 hl
    exact newline_notMem_progressLine r
  · obtain ⟨r, -, rfl⟩ := Option.map_eq_some_iff.1 (Option.mem_toList.1 hl)
    exact newline_notMem_resultLine r

theorem trimEnd_progressLine (r : ℕ × ℕ) : trimEnd (progressLine r) = progressLine r := by
  obtain ⟨ds, c, hds⟩ := (List.eq_nil_or_concat' (Nat.toDigits 10 r.2)).resolve_left
    Nat.toDigits_ne_nil
  have hmem : c ∈ Nat.toDigits 10 r.2 := hds ▸ List.mem_append_right _ List.mem_cons_self
  have hc : isWs c = false :=
    isWs_of_isDigit (Nat.isDigit_of_mem_toDigits (by decide) (by decide) hmem)
  have hline : progressLine r =
      ("progress ".toList ++ (Nat.toDigits 10 r.1 ++ ' ' :: ds)) ++ [c] := by
    rw [progressLine_eq, hds]
    simp
  rw [hline, trimEnd_concat hc]

theorem stripPrefix_append (pre t : Text) : stripPrefix pre (pre ++ t) = some t := by
  rw [stripPrefix, if_pos (by simp), List.drop_left]

theorem parseDecimal_toDigits (n : ℕ) : parseDecimal (Nat.toDigits 10 n) = some n := by
  have hall : (Nat.toDigits 10 n).all Char.isDigit = true :=
    List.all_eq_true.2 fun c hc => Nat.isDigit_of_mem_toDigits (by decide) (by decide) hc
  rw [parseDecimal, if_pos ⟨Nat.toDigits_ne_nil, hall⟩, Nat.ofDigitChars_ten_toDigits]

theorem parseU64_toDigits {n : ℕ} (h : n < 2 ^ 64) : parseU64 (Nat.toDigits 10 n) = some n := by
  have hhead : (Nat.toDigits 10 n).head? ≠ some '+' := by
    intro hplus
    exact absurd (Nat.isDigit_of_mem_toDigits (by decide) (by decide) (List.mem_of_mem_head? hplus))
      (by decide)
  rw [parseU64, if_neg hhead, parseDecimal_toDigits, Option.filter_some, if_pos (decide_eq_true h)]

/-- A report is no end of the answer. -/
theorem split_progressLine (r : ℕ × ℕ) :
    (stripPrefix "progress ".toList (trimEnd (progressLine r))).bind (splitOnce ' ') =
      some (Nat.toDigits 10 r.1, Nat.toDigits 10 r.2) := by
  rw [trimEnd_progressLine, progressLine_eq, stripPrefix_append, Option.bind_some,
    splitOnce_append_cons (space_notMem_toDigits _)]

theorem readAnswer_progress (told : List (ℕ × ℕ)) (rest : List Text) :
    (readAnswer (told.map progressLine ++ rest)).result = (readAnswer rest).result := by
  induction told with
  | nil => rfl
  | cons r told ih =>
    rw [List.map_cons, List.cons_append, readAnswer, split_progressLine]
    dsimp only
    split
    · exact ih
    · exact ih

/-- The callback is told every report, in their order. -/
theorem told_progress (htold : ∀ r ∈ told, r.1 < 2 ^ 64 ∧ r.2 < 2 ^ 64) :
    (readAnswer (told.map progressLine ++ rest)).told = told ++ (readAnswer rest).told := by
  induction told with
  | nil => rfl
  | cons r told ih =>
    obtain ⟨hdone, htotal⟩ := htold r List.mem_cons_self
    rw [List.map_cons, List.cons_append, readAnswer, split_progressLine]
    dsimp only
    rw [parseU64_toDigits hdone, parseU64_toDigits htotal]
    dsimp only
    rw [ih fun r' hr' => htold r' (List.mem_cons_of_mem _ hr')]
    rfl

theorem blank_oneLine_iff : Blank (oneLine message) ↔ Blank message := by
  have hchar (c : Char) : isWs (if c = '\n' then ' ' else c) = isWs c := by
    split_ifs with h
    · rw [h]
      decide
    · rfl
  simp only [Blank, oneLine, List.forall_mem_map, hchar]

/-- What a client makes of the line that ends the answer. -/
def received : Except Text Unit → Except Text Unit
  | .ok _ => .ok ()
  | .error e => .error (if Blank e then noAnswer else trimEnd (oneLine e))

theorem readAnswer_resultLine (result : Except Text Unit) :
    readAnswer [resultLine result] = ⟨[], received result⟩ := by
  cases result with
  | ok u =>
    cases u
    decide
  | error e =>
    rw [received]
    by_cases hblank : Blank e
    · have hspace : Blank (' ' :: oneLine e) :=
        List.forall_mem_cons.2 ⟨by decide, blank_oneLine_iff.2 hblank⟩
      have hline : trimEnd (resultLine (.error e)) = "error".toList := by
        have happend : resultLine (.error e) = "error".toList ++ ' ' :: oneLine e := rfl
        rw [happend, trimEnd_append hspace]
        decide
      rw [readAnswer, hline, if_pos hblank]
      decide
    · have hline : trimEnd (resultLine (.error e)) = "error ".toList ++ trimEnd (oneLine e) :=
        trimEnd_append_right fun h => hblank (blank_oneLine_iff.1 h)
      have hnot : stripPrefix "progress ".toList ("error ".toList ++ trimEnd (oneLine e)) = none :=
        rfl
      have hok : "error ".toList ++ trimEnd (oneLine e) ≠ "ok".toList := by
        intro h
        cases h
      rw [readAnswer, hline, hnot, Option.bind_none, if_neg hblank, if_neg hok, stripPrefix_append]

/-- The result that a client gets, whatever it was told before. -/
theorem result_reply (b : Backup) :
    (readAnswer (lfLines (reply b))).result = b.result.elim (.error noAnswer) received := by
  rw [lfLines_reply, readAnswer_progress]
  rcases b.result with _ | result
  · rfl
  · rw [Option.map_some, Option.toList_some, readAnswer_resultLine]
    rfl

theorem told_reply {b : Backup} (htold : ∀ r ∈ b.told, r.1 < 2 ^ 64 ∧ r.2 < 2 ^ 64) :
    (readAnswer (lfLines (reply b))).told = b.told := by
  rw [lfLines_reply, told_progress htold]
  rcases b.result with _ | result
  · exact List.append_nil _
  · rw [Option.map_some, Option.toList_some, readAnswer_resultLine]
    exact List.append_nil _

end Answering

/-! ## A copy that was begun is not taken for a refusal -/

section Copying

variable {e : Text}

theorem received_of_head (h : e.head? = some 'b') : received (.error e) ≠ .error malformed := by
  obtain ⟨rest, rfl⟩ := List.head?_eq_some_iff.1 h
  have hblank : ¬ Blank ('b' :: rest) := fun hb => absurd (hb 'b' List.mem_cons_self) (by decide)
  have hhead : (trim ('b' :: oneLine rest)).head? = some 'b' := head?_trim_cons (by decide)
  rw [trim, trimStart_cons (by decide)] at hhead
  rw [received, if_neg hblank]
  intro heq
  have hline : trimEnd ('b' :: oneLine rest) = malformed := Except.error.inj heq
  rw [hline] at hhead
  exact absurd hhead (by decide)

theorem received_of_getLast (h : e.getLast? = some ')') : received (.error e) ≠ .error malformed := by
  obtain ⟨init, rfl⟩ := List.getLast?_eq_some_iff.1 h
  have hblank : ¬ Blank (init ++ [')']) := fun hb =>
    absurd (hb ')' (List.mem_append_right _ List.mem_cons_self)) (by decide)
  have hline : oneLine (init ++ [')']) = oneLine init ++ [')'] := by
    rw [oneLine, List.map_append]
    rfl
  rw [received, if_neg hblank, hline, trimEnd_concat (by decide)]
  intro heq
  have hlast := congrArg List.getLast? (Except.error.inj heq)
  rw [List.getLast?_concat] at hlast
  exact absurd hlast (by decide)

theorem head_context {what cause : Text} {c : Char} (h : what.head? = some c) :
    (context what cause).head? = some c := by
  rw [context, List.head?_append, h]
  rfl

theorem getLast_display (e : OsError) : e.display.getLast? = some ')' := by
  have hdisplay : e.display =
      (e.detail ++ (" (os error ".toList ++ Nat.toDigits 10 e.code)) ++ [')'] := by
    unfold OsError.display
    rw [List.append_assoc, List.append_assoc]
  rw [hdisplay, List.getLast?_concat]

theorem received_backupEnd (a : Answers) (loopEnd : LoopEnd) :
    received (backupEnd a loopEnd) ≠ .error malformed := by
  cases loopEnd with
  | abandoned cause => exact received_of_head (head_context rfl)
  | other => exact received_of_head (head_context rfl)
  | done =>
    unfold backupEnd
    dsimp only
    split_ifs
    · rcases a.permissions with e | u
      · exact received_of_getLast (getLast_display e)
      · nofun
    · exact received_of_head (head_context rfl)

/-- What `backup` returns once it has begun to copy is what follows its loop. -/
theorem backup_of_begun {a : Answers} {dest : Text} {progress : List (ℕ × ℕ) → Option Text}
    {result : Except Text Unit} (hbegun : (backup a dest progress).begun = true)
    (hresult : (backup a dest progress).result = some result) :
    ∃ loopEnd, result = backupEnd a loopEnd := by
  rw [backup] at hbegun hresult
  generalize a.opened = opened, a.keyed = keyed, a.pageSize = pageSize at hbegun hresult
  rcases opened with e | u
  · cases hbegun
  rcases keyed with e | u'
  · cases hbegun
  rcases pageSize with e | pageSize
  · cases hbegun
  dsimp only at hbegun hresult
  split_ifs at hbegun hresult
  obtain ⟨loopEnd, -, hend⟩ := Option.map_eq_some_iff.1 hresult
  exact ⟨loopEnd, hend.symm⟩

theorem serve_of_begun {d : Daemon} {peer : ℕ} {bytes : List UInt8} {result : Except Text Unit}
    (hbegun : (d.serve peer bytes).begun = true) (hresult : (d.serve peer bytes).result = some result) :
    ∃ a loopEnd, result = backupEnd a loopEnd := by
  rw [Daemon.serve] at hbegun hresult
  split_ifs at hbegun hresult
  generalize d.decode bytes = decoded at hbegun hresult
  rcases decoded with e | req
  · cases hbegun
  dsimp only at hbegun hresult
  generalize d.verify req.password = verified at hbegun hresult
  rcases verified with e | verified
  · cases hbegun
  cases verified with
  | false => cases hbegun
  | true => exact ⟨_, backup_of_begun hbegun hresult⟩

/-- Once something was written to the destination, the answer is never that of a daemon that does
not know the request. -/
theorem ask_ne_malformed {d : Daemon} {peer : ℕ} {verb dest password : List UInt8}
    (h : copies d peer verb dest password ≠ 0) :
    (ask d peer verb dest password).result ≠ .error malformed := by
  have hbegun : (d.serve peer (request verb dest password)).begun = true := by
    by_contra hnot
    exact h (if_neg hnot)
  rw [ask, result_reply]
  rcases hserve : (d.serve peer (request verb dest password)).result with _ | result
  · decide
  · obtain ⟨a, loopEnd, rfl⟩ := serve_of_begun hbegun hserve
    exact received_backupEnd a loopEnd

theorem copies_le_one (d : Daemon) (peer : ℕ) (verb dest password : List UInt8) :
    copies d peer verb dest password ≤ 1 := by
  rw [copies]
  split_ifs <;> decide

theorem requestBackup_copies {first second : Option Daemon} {peer : ℕ} {dest password : List UInt8}
    {r : Requested} (h : requestBackup first second peer dest password = some r) : r.copies ≤ 1 := by
  obtain ⟨d, -, rfl⟩ := Option.map_eq_some_iff.1 h
  have hone := copies_le_one d peer (ascii "backup-progress") dest password
  rcases second with _ | d'
  · exact hone
  · dsimp only
    split_ifs with hmalformed
    · have hnone : copies d peer (ascii "backup-progress") dest password = 0 := by
        by_contra hbegun
        exact ask_ne_malformed hbegun hmalformed
      rw [hnone, Nat.zero_add]
      exact copies_le_one d' peer (ascii "backup") dest password
    · exact hone

/-- Reports are only made of a copy. -/
theorem told_of_not_begun {d : Daemon} {peer : ℕ} {bytes : List UInt8}
    (h : (d.serve peer bytes).begun = false) : (d.serve peer bytes).told = [] := by
  have hbackup (a : Answers) (dest : Text) (progress : List (ℕ × ℕ) → Option Text)
      (h : (backup a dest progress).begun = false) : (backup a dest progress).told = [] := by
    rw [backup] at h ⊢
    generalize a.opened = opened, a.keyed = keyed, a.pageSize = pageSize at h ⊢
    rcases opened with e | u
    · rfl
    rcases keyed with e | u'
    · rfl
    rcases pageSize with e | pageSize
    · rfl
    dsimp only at h ⊢
    split_ifs at h ⊢
    rfl
  rw [Daemon.serve] at h ⊢
  split_ifs at h ⊢
  · rfl
  generalize d.decode bytes = decoded at h ⊢
  rcases decoded with e | req
  · rfl
  dsimp only at h ⊢
  generalize d.verify req.password = verified at h ⊢
  rcases verified with e | verified
  · rfl
  cases verified with
  | false => rfl
  | true =>
    dsimp only at h ⊢
    rw [hbackup _ _ _ h]
    split_ifs <;> rfl

/-- After the answer of a daemon that predates the progress reports the plain request decides. -/
theorem requestBackup_fallback {d d' : Daemon} {peer : ℕ} {dest password : List UInt8}
    (h : (ask d peer (ascii "backup-progress") dest password).result = .error malformed) :
    (requestBackup (some d) (some d') peer dest password).map Requested.toAsked =
      some (ask d' peer (ascii "backup") dest password) := by
  have hbegun : (d.serve peer (request (ascii "backup-progress") dest password)).begun = false := by
    by_contra hnot
    have hcopies : copies d peer (ascii "backup-progress") dest password ≠ 0 := by
      rw [copies, if_pos (by simpa using hnot)]
      exact Nat.one_ne_zero
    exact ask_ne_malformed hcopies h
  have hnone := told_of_not_begun hbegun
  have htold : (ask d peer (ascii "backup-progress") dest password).told = [] := by
    rw [ask, told_reply (by rw [hnone]; exact List.forall_mem_nil _), hnone]
  rw [requestBackup, Option.map_some, Option.map_some]
  dsimp only
  rw [if_pos h, htold]
  rfl

end Copying

/-- Both sides of the control socket together: a request is read as it was sent or refused; the
callback hears every report and the client succeeds if and only if the daemon did, or else gets
the daemon's message, or `noAnswer` if there is nothing in it; a daemon that predates the reports
is asked again; and there is at most one copy. -/
theorem backup_protocol :
    (∀ (d : Daemon) withProgress dest password, dest.head? = some '/'.toUInt8 → 0 ∉ dest →
      0 ∉ password → Utf8.valid password = true →
      d.decode (request (verbOf withProgress) dest password) = .ok ⟨withProgress, dest, password⟩ ∨
        d.decode (request (verbOf withProgress) dest password) = .error malformed) ∧
    (∀ (reports : List (UInt64 × UInt64)) result begun,
      let told := reports.map fun r => (r.1.toNat, r.2.toNat)
      let asked := readAnswer (lfLines (reply ⟨told, some result, begun⟩))
      asked.told = told ∧ (asked.result = .ok () ↔ result = .ok ()) ∧
        (∀ message, result = .error message → ¬ Blank message →
          asked.result = .error (trimEnd (oneLine message))) ∧
        ∀ message, result = .error message → Blank message → asked.result = .error noAnswer) ∧
    (∀ d d' peer dest password,
      (ask d peer (ascii "backup-progress") dest password).result = .error malformed →
      (requestBackup (some d) (some d') peer dest password).map Requested.toAsked =
        some (ask d' peer (ascii "backup") dest password)) ∧
    ∀ first second peer dest password r,
      requestBackup first second peer dest password = some r → r.copies ≤ 1 := by
  refine ⟨?_, ?_, ?_, ?_⟩
  · intro d withProgress dest password habs hdest hpassword hvalid
    exact d.decode_request withProgress habs hdest hpassword hvalid
  · intro reports result begun told asked
    have hresult : asked.result = received result := result_reply _
    refine ⟨told_reply ?_, ?_, ?_, ?_⟩
    · intro r hr
      obtain ⟨r, -, rfl⟩ := List.mem_map.1 hr
      exact ⟨r.1.toNat_lt, r.2.toNat_lt⟩
    · rw [hresult]
      rcases result with e | u
      · exact iff_of_false nofun nofun
      · exact iff_of_true rfl rfl
    · rintro message rfl hblank
      rw [hresult, received, if_neg hblank]
    · rintro message rfl hblank
      rw [hresult, received, if_pos hblank]
  · intro d d' peer dest password h
    exact requestBackup_fallback h
  · intro first second peer dest password r h
    exact requestBackup_copies h

/-- The daemon of coffer 0.2.0, in the middle of a copy of 20 pages. -/
def oldDaemon : Daemon where
  uid := 1000
  knowsProgress := false
  verify password := .ok (password = ascii "pw")
  answers _ _ :=
    { opened := .ok (), keyed := .ok (), pageSize := .ok 4096, started := true
      steps := [⟨.ok, 10, 20⟩, ⟨.busy, 10, 20⟩, ⟨.done, 0, 20⟩]
      finished := true, errmsg := "not an error".toList, permissions := .ok () }
  display _ := "/b".toList
  utf8Error _ := "invalid utf-8 sequence".toList

theorem backup_protocol_old :
    (oldDaemon.decode (request (verbOf true) (ascii "/b") (ascii "pw")) =
        .ok ⟨true, ascii "/b", ascii "pw"⟩ ∨
      oldDaemon.decode (request (verbOf true) (ascii "/b") (ascii "pw")) = .error malformed) ∧
    (requestBackup (some oldDaemon) (some oldDaemon) 1000 (ascii "/b") (ascii "pw")).map
        Requested.toAsked =
      some (ask oldDaemon 1000 (ascii "backup") (ascii "/b") (ascii "pw")) ∧
    (ask oldDaemon 1000 (ascii "backup") (ascii "/b") (ascii "pw")).result = .ok () := by
  refine ⟨?_, ?_, by decide +kernel⟩
  · exact backup_protocol.1 oldDaemon true (ascii "/b") (ascii "pw") (by decide) (by decide)
      (by decide) (by decide +kernel)
  · exact backup_protocol.2.2.1 oldDaemon oldDaemon 1000 (ascii "/b") (ascii "pw")
      (by decide +kernel)

/-- An error without a visible message is not told from a connection that was closed. -/
theorem blank_message_lost :
    readAnswer (lfLines (reply { result := some (.error " ".toList) })) =
        ⟨[], .error noAnswer⟩ ∧
      noAnswer ≠ trimEnd (oneLine " ".toList) := by
  decide

end CofferFS.Ipc
