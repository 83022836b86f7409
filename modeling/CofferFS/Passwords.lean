import CofferFS.Lib.Encode

/-!
# Where a password is read from

A password comes from a file, from the output of a command or from standard input, and each of the
three cuts the first line out in its own way. `sources_agree_iff` says for which texts they come to
the same password.
-/

namespace CofferFS

open Text

/-! ## The sources -/

/-- Standard input: a terminal, with what is typed at the prompts, or something else. -/
inductive Stdin
  | terminal (typed : List Text)
  | piped (bytes : List UInt8)

/-- How a command ended, and what it wrote to its standard output. -/
structure Output where
  success : Bool
  stdout : List UInt8

/-- What the process can read. A file that is not readable is `none`, and so is a command that is not
started. -/
structure Host where
  readFile : Text → Option (List UInt8)
  run : Text → Option Output
  stdin : Stdin

/-- Why there is no password. -/
inductive PasswordError
  /-- The terminal or standard input is not readable as text. -/
  | stdin
  /-- `empty password refused` -/
  | emptyRefused
  /-- `passwords did not match` -/
  | didNotMatch
  /-- `password_file and password_command are both set - use one` -/
  | bothSet
  /-- `reading {}` -/
  | reading (path : Text)
  /-- `empty password in {}` -/
  | emptyIn (path : Text)
  /-- `running password command {cmd:?}` -/
  | running (cmd : Text)
  /-- `password command {cmd:?} failed: {}` -/
  | failed (cmd : Text)
  /-- `password command printed invalid UTF-8` -/
  | invalidUtf8
  /-- `password command {cmd:?} printed nothing` -/
  | printedNothing (cmd : Text)
  deriving DecidableEq

/-- `read_line`: the bytes up to a line feed and with it, and those that are left. -/
def readLine (bytes : List UInt8) : Option (Text × List UInt8) :=
  let rest := bytes.dropWhile (· ≠ byte '\n')
  (decode (bytes.takeWhile (· ≠ byte '\n') ++ rest.take 1)).map fun line => (line, rest.drop 1)

/-- `trim_end_matches(['\n', '\r'])` -/
def trimLineEnd (line : Text) : Text := line.rdropWhile fun c => c = '\n' ∨ c = '\r'

/-- `read_one` -/
def readOne : Stdin → Except PasswordError (Text × Stdin)
  | .terminal [] => .error .stdin
  | .terminal (pw :: typed) => .ok (pw, .terminal typed)
  | .piped bytes =>
    match readLine bytes with
    | some (line, rest) => .ok (trimLineEnd line, .piped rest)
    | none => .error .stdin

/-- `read_password` -/
def readPassword (stdin : Stdin) (confirm : Bool) : Except PasswordError Text := do
  let (pw, stdin) ← readOne stdin
  if pw = [] then throw .emptyRefused
  if confirm then
    let (pw2, _) ← readOne stdin
    if pw ≠ pw2 then throw .didNotMatch
  return pw

/-- `strip_suffix(b"\r").unwrap_or(first)` -/
def stripSuffixCr (line : List UInt8) : List UInt8 :=
  if line.getLast? = some (byte '\r') then line.dropLast else line

/-- `read_password_from_command` -/
def readPasswordFromCommand (host : Host) (cmd : Text) : Except PasswordError Text := do
  let some output := host.run cmd | throw (.running cmd)
  if ¬ output.success then throw (.failed cmd)
  let first := output.stdout.takeWhile (· ≠ byte '\n')
  let some pw := decode (stripSuffixCr first) | throw .invalidUtf8
  if pw = [] then throw (.printedNothing cmd)
  return pw

/-- `read_password_source` -/
def readPasswordSource (host : Host) (passwordFile passwordCommand : Option Text) (confirm : Bool) :
    Except PasswordError Text :=
  match passwordCommand, passwordFile with
  | some _, some _ => .error .bothSet
  | some cmd, none => readPasswordFromCommand host cmd
  | none, none => readPassword host.stdin confirm
  | none, some path => do
    let some content := (host.readFile path).bind decode | throw (.reading path)
    let pw := (lines content).head?.getD []
    if pw = [] then throw (.emptyIn path)
    return pw

/-! ## The line that each of them takes -/

/-- The text before the first line feed. -/
def firstLine (t : Text) : Text := t.takeWhile (· ≠ '\n')

/-- An empty password is refused. -/
def refuseEmpty (pw : Text) : Option Text := if pw = [] then none else some pw

/-- A text with which the sources agree: no two carriage returns end its first line, and not even
one does where no line feed follows. -/
def PlainEnd (t : Text) : Prop :=
  ¬ ['\r', '\r'] <:+ firstLine t ∧ ('\n' ∉ t → ¬ ['\r'] <:+ firstLine t)

instance (t : Text) : Decidable (PlainEnd t) := inferInstanceAs (Decidable (_ ∧ _))

/-- What the sources make of a text, a refusal being `none`. -/
structure Passwords where
  file : Option Text
  stdin : Option Text
  command : Option Text

/-- The text as the content of the file, as the output of the command and as standard input. -/
def passwords (host : Host) (path cmd : Text) : Passwords where
  file := (readPasswordSource host (some path) none false).toOption
  stdin := (readPasswordSource host none none false).toOption
  command := (readPasswordSource host none (some cmd) false).toOption

/-- All of them yield the same password, or none does. -/
def Passwords.Agree (p : Passwords) : Prop := p.file = p.stdin ∧ p.command = p.stdin

/-- Whatever is read on this host is the text `t`. -/
structure Supplies (host : Host) (path cmd t : Text) : Prop where
  file : host.readFile path = some (encode t)
  command : host.run cmd = some ⟨true, encode t⟩
  stdin : host.stdin = .piped (encode t)

variable {t l pw pw' : Text} {host : Host} {path cmd : Text}

theorem refuseEmpty_inj : refuseEmpty pw = refuseEmpty pw' ↔ pw = pw' := by
  cases pw <;> cases pw' <;> simp [refuseEmpty]

theorem newline_notMem_firstLine : '\n' ∉ firstLine t := by
  intro h
  simpa using List.mem_takeWhile_imp h

theorem firstLine_of_notMem (h : '\n' ∉ t) : firstLine t = t := by
  rw [firstLine, List.takeWhile_eq_self_iff]
  intro c hc
  rw [decide_eq_true_eq]
  rintro rfl
  exact h hc

theorem exists_of_newline_mem (h : '\n' ∈ t) : ∃ u, t = firstLine t ++ '\n' :: u := by
  obtain ⟨l, u, rfl, hl⟩ := List.eq_append_cons_of_mem h
  refine ⟨u, ?_⟩
  have hpos : ∀ c ∈ l, decide (c ≠ '\n') = true := by
    intro c hc
    rw [decide_eq_true_eq]
    rintro rfl
    exact hl hc
  rw [firstLine, List.takeWhile_append_of_pos hpos, List.takeWhile_cons_of_neg (by simp),
    List.append_nil]

/-- `lines` takes a carriage return only together with the line feed after it. -/
theorem head_lines (t : Text) : (lines t).head?.getD [] =
    if '\n' ∈ t then stripCr (firstLine t) else firstLine t := by
  split_ifs with h
  · obtain ⟨u, hu⟩ := exists_of_newline_mem h
    obtain ⟨p, ps, hps⟩ := List.exists_cons_of_ne_nil (List.splitOn_ne_nil '\n' u)
    have hsplit : t.splitOn '\n' = firstLine t :: p :: ps := by
      conv_lhs => rw [hu]
      rw [List.splitOn_append_cons_self, List.splitOn_eq_singleton newline_notMem_firstLine, hps]
      rfl
    rw [lines, hsplit]
    rfl
  · rw [lines, List.splitOn_eq_singleton h, firstLine_of_notMem h]
    cases t <;> rfl

/-! ## Each source on a text -/

theorem file_eq (h : Supplies host path cmd t) : (passwords host path cmd).file =
    refuseEmpty (if '\n' ∈ t then stripCr (firstLine t) else firstLine t) := by
  rw [← head_lines]
  simp only [passwords, readPasswordSource, h.file, Option.bind_some, decode_encode, refuseEmpty]
  split_ifs <;> rfl

theorem encode_firstLine (t : Text) :
    (encode t).takeWhile (· ≠ byte '\n') = encode (firstLine t) :=
  encode_takeWhile (by decide) t

/-- `read_line` leaves the line feed on the line, and trimming takes it away. -/
theorem readLine_encode (t : Text) :
    ∃ line rest, readLine (encode t) = some (line, rest) ∧
      trimLineEnd line = trimLineEnd (firstLine t) := by
  by_cases h : '\n' ∈ t
  · obtain ⟨u, hu⟩ := exists_of_newline_mem h
    have hbytes : encode t = encode (firstLine t) ++ byte '\n' :: encode u := by
      conv_lhs => rw [hu]
      rw [encode_append, encode_cons, encodeChar_of_ascii (by decide)]
      rfl
    have hpos : ∀ b ∈ encode (firstLine t), decide (b ≠ byte '\n') = true := by
      intro b hb
      rw [decide_eq_true_eq]
      rintro rfl
      exact newline_notMem_firstLine ((byte_mem_encode (by decide)).1 hb)
    have hrest : (encode t).dropWhile (· ≠ byte '\n') = byte '\n' :: encode u := by
      rw [hbytes, List.dropWhile_append_of_pos hpos, List.dropWhile_cons_of_neg (by simp)]
    have hline : encode (firstLine t) ++ (byte '\n' :: encode u).take 1 =
        encode (firstLine t ++ ['\n']) := by
      rw [encode_append, encode_cons, encodeChar_of_ascii (by decide)]
      rfl
    refine ⟨firstLine t ++ ['\n'], encode u, ?_, List.rdropWhile_concat_pos _ _ _ (by simp)⟩
    simp only [readLine, encode_firstLine, hrest, hline, decode_encode]
    rfl
  · have hrest : (encode t).dropWhile (· ≠ byte '\n') = [] := by
      rw [List.dropWhile_eq_nil_iff]
      intro b hb
      rw [decide_eq_true_eq]
      rintro rfl
      exact h ((byte_mem_encode (by decide)).1 hb)
    refine ⟨firstLine t, [], ?_, rfl⟩
    simp only [readLine, encode_firstLine, hrest, List.take_nil, List.append_nil, decode_encode]
    rfl

theorem stdin_eq (h : Supplies host path cmd t) : (passwords host path cmd).stdin =
    refuseEmpty (trimLineEnd (firstLine t)) := by
  obtain ⟨line, rest, hread, hline⟩ := readLine_encode t
  rw [← hline]
  simp only [passwords, readPasswordSource, readPassword, h.stdin, readOne, hread, refuseEmpty]
  show Except.toOption (if trimLineEnd line = [] then _ else _) = _
  by_cases hpw : trimLineEnd line = []
  · rw [if_pos hpw, if_pos hpw]
    rfl
  · rw [if_neg hpw, if_neg hpw]
    rfl

theorem stripSuffixCr_encode (l : Text) : stripSuffixCr (encode l) = encode (stripCr l) := by
  by_cases h : l.getLast? = some '\r'
  · obtain ⟨l', rfl⟩ := List.getLast?_eq_some_iff.1 h
    have hbytes : encode (l' ++ ['\r']) = encode l' ++ [byte '\r'] := by
      rw [encode_append, encode_cons, encodeChar_of_ascii (by decide)]
      rfl
    rw [stripSuffixCr, stripCr, if_pos h, if_pos ((encode_getLast? (by decide)).2 h), hbytes,
      List.dropLast_concat, List.dropLast_concat]
  · rw [stripSuffixCr, stripCr, if_neg h, if_neg fun hb => h ((encode_getLast? (by decide)).1 hb)]

theorem command_eq (h : Supplies host path cmd t) : (passwords host path cmd).command =
    refuseEmpty (stripCr (firstLine t)) := by
  simp only [passwords, readPasswordSource, readPasswordFromCommand, h.command, encode_firstLine,
    stripSuffixCr_encode, decode_encode, refuseEmpty]
  show Except.toOption (if stripCr (firstLine t) = [] then _ else _) = _
  by_cases hpw : stripCr (firstLine t) = []
  · rw [if_pos hpw, if_pos hpw]
    rfl
  · rw [if_neg hpw, if_neg hpw]
    rfl

/-! ## When they agree -/

theorem stripCr_concat : stripCr (l ++ ['\r']) = l := by
  rw [stripCr, if_pos List.getLast?_concat, List.dropLast_concat]

theorem stripCr_eq_self_iff : stripCr l = l ↔ ¬ ['\r'] <:+ l := by
  constructor
  · rintro h ⟨l', rfl⟩
    rw [stripCr_concat] at h
    simpa using congrArg List.length h
  · intro h
    rw [stripCr, if_neg]
    rintro hlast
    obtain ⟨l', rfl⟩ := List.getLast?_eq_some_iff.1 hlast
    exact h ⟨l', rfl⟩

/-- Trimming takes every carriage return at the end. -/
theorem trimLineEnd_eq_self_iff (hl : '\n' ∉ l) : trimLineEnd l = l ↔ ¬ ['\r'] <:+ l := by
  rw [trimLineEnd, List.rdropWhile_eq_self_iff]
  constructor
  · rintro h ⟨l', rfl⟩
    simpa using h (by simp)
  · intro h hne hc
    rw [decide_eq_true_eq] at hc
    rcases hc with hc | hc
    · exact hl (hc ▸ List.getLast_mem hne)
    · exact h ⟨l.dropLast, hc ▸ List.dropLast_append_getLast hne⟩

/-- The two ways to trim differ from the second carriage return on. -/
theorem stripCr_eq_trimLineEnd_iff (hl : '\n' ∉ l) :
    stripCr l = trimLineEnd l ↔ ¬ ['\r', '\r'] <:+ l := by
  by_cases h : ['\r'] <:+ l
  · obtain ⟨l', rfl⟩ := h
    have hl' : '\n' ∉ l' := fun hmem => hl (List.mem_append_left _ hmem)
    have htrim : trimLineEnd (l' ++ ['\r']) = trimLineEnd l' :=
      List.rdropWhile_concat_pos _ _ _ (by simp)
    have hsuffix : ['\r'] ++ ['\r'] <:+ l' ++ ['\r'] ↔ ['\r'] <:+ l' := by
      rw [List.suffix_append_inj_of_length_eq rfl, and_iff_left rfl]
    rw [stripCr_concat, htrim, eq_comm, trimLineEnd_eq_self_iff hl']
    exact not_congr hsuffix.symm
  · have hnot : ¬ ['\r', '\r'] <:+ l := fun hs => h (List.IsSuffix.trans ⟨['\r'], rfl⟩ hs)
    rw [stripCr_eq_self_iff.2 h, (trimLineEnd_eq_self_iff hl).2 h]
    exact ⟨fun _ => hnot, fun _ => rfl⟩

/-- **The sources agree on a text exactly if its first line ends plainly.** -/
theorem sources_agree_iff (h : Supplies host path cmd t) :
    (passwords host path cmd).Agree ↔ PlainEnd t := by
  have hl : '\n' ∉ firstLine t := newline_notMem_firstLine
  rw [Passwords.Agree, file_eq h, stdin_eq h, command_eq h, refuseEmpty_inj, refuseEmpty_inj,
    stripCr_eq_trimLineEnd_iff hl, PlainEnd, and_comm]
  refine and_congr_right fun hcr => ?_
  rw [← (stripCr_eq_trimLineEnd_iff hl).2 hcr]
  by_cases hnl : '\n' ∈ t
  · simp [hnl]
  · rw [if_neg hnl, eq_comm, stripCr_eq_self_iff]
    exact ⟨fun h _ => h, fun h => h hnl⟩

/-- A host on which everything reads the text `t`. -/
def hostOf (t : Text) : Host where
  readFile _ := some (encode t)
  run _ := some ⟨true, encode t⟩
  stdin := .piped (encode t)

theorem supplies_hostOf : Supplies (hostOf t) path cmd t := ⟨rfl, rfl, rfl⟩

theorem sources_agree_crlf :
    (passwords (hostOf ['p', 'w', '\r', '\n']) ['f'] ['c']).Agree ↔ PlainEnd ['p', 'w', '\r', '\n'] :=
  sources_agree_iff supplies_hostOf

/-- A password file that ends in a carriage return without a line feed. -/
theorem bare_cr_disagrees :
    (passwords (hostOf ['p', 'w', '\r']) ['f'] ['c']).file = some ['p', 'w', '\r'] ∧
      (passwords (hostOf ['p', 'w', '\r']) ['f'] ['c']).stdin = some ['p', 'w'] ∧
      (passwords (hostOf ['p', 'w', '\r']) ['f'] ['c']).command = some ['p', 'w'] ∧
      ¬ (passwords (hostOf ['p', 'w', '\r']) ['f'] ['c']).Agree := by
  have hfile : (passwords (hostOf ['p', 'w', '\r']) ['f'] ['c']).file = some ['p', 'w', '\r'] :=
    (file_eq supplies_hostOf).trans (by decide)
  have hstdin : (passwords (hostOf ['p', 'w', '\r']) ['f'] ['c']).stdin = some ['p', 'w'] :=
    (stdin_eq supplies_hostOf).trans (by decide)
  refine ⟨hfile, hstdin, (command_eq supplies_hostOf).trans (by decide), fun h => ?_⟩
  have heq := h.1
  rw [hfile, hstdin] at heq
  exact absurd heq (by decide)

end CofferFS
