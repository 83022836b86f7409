import CofferFS.Lib.Literal
import CofferFS.Lib.Text

/-!
# The password in a PRAGMA

A PRAGMA takes no bound parameter, so the password stands in the text of the statement, between
quotes. `password_quoting` says what SQLite makes of that text at each of the places that execute
it: one statement, whose literal denotes the password.

The lexer below is the part of SQLite's that such a text can reach. It stops at the first NUL.
-/

namespace CofferFS

open Text

namespace Sql

/-- `'` -/
def quote : Char := .ofNat 39

def nul : Char := .ofNat 0

inductive Token
  | word (t : Text)
  /-- A string literal, and the text that it denotes. -/
  | literal (t : Text)
  | equals
  | semicolon
  /-- Anything else, from its first character on. -/
  | other (c : Char)
  deriving DecidableEq

/-- `sqlite3Isspace` -/
def isSpace (c : Char) : Bool := c.toNat = 0x20 || (9 ≤ c.toNat && c.toNat ≤ 13 && c.toNat ≠ 11)

/-- `IdChar` -/
def isIdChar (c : Char) : Bool := c.isAlphanum || c = '_' || c = '$' || 0x80 ≤ c.toNat

/-- An identifier does not start with a digit, and `x'` starts a blob literal. -/
def startsWord (c : Char) (rest : Text) : Bool :=
  isIdChar c && !c.isDigit && c ≠ '$' && !((c = 'x' || c = 'X') && rest.head? = some quote)

/-- `sqlite3GetToken`, once for every token, at most `fuel` of them. -/
def tokensFrom : ℕ → Text → List Token
  | 0, _ => []
  | _, [] => []
  | fuel + 1, c :: rest =>
    if isSpace c then tokensFrom fuel rest
    else if c = quote then
      match Literal.scan quote rest with
      | some (t, rest) => .literal t :: tokensFrom fuel rest
      | none => [.other c]
    else if startsWord c rest then
      .word (c :: rest.takeWhile isIdChar) :: tokensFrom fuel (rest.dropWhile isIdChar)
    else if c = '=' then .equals :: tokensFrom fuel rest
    else if c = ';' then .semicolon :: tokensFrom fuel rest
    else .other c :: tokensFrom fuel rest

/-- The tokens of a text. -/
def tokens (sql : Text) : List Token :=
  let seen := sql.takeWhile (· ≠ nul)
  tokensFrom seen.length seen

/-- The statements that `execute_batch` executes one after the other. -/
def statements (sql : Text) : List (List Token) :=
  ((tokens sql).splitOn .semicolon).filter fun s => !s.isEmpty

/-- `PRAGMA name = 'value'` -/
def pragma (name value : Text) : List Token :=
  [.word "PRAGMA".toList, .word name, .equals, .literal value]

end Sql

open Sql

/-! ## The texts that are executed -/

/-- `'{}'` around the escaped value. -/
def quotedValue (value : Text) : Text := quote :: (Literal.double quote value ++ [quote])

/-- `pragma_key_sql` -/
def pragmaKeySql (pragma value : Text) : Text :=
  "PRAGMA ".toList ++ pragma ++ " = ".toList ++ quotedValue value

/-- The places that hand a password to SQLCipher. -/
inductive PasswordUse
  /-- `create_container` -/
  | create
  /-- `open_db_with` -/
  | openDb
  /-- `cmd_passwd`, for the new password. -/
  | rekey
  /-- `backup` in ipc.rs, for the copy that the mount daemon writes. -/
  | backupByMount
  /-- `cmd_backup`, for the copy that it writes itself. -/
  | backup
  /-- `verify_password` -/
  | verify
  deriving DecidableEq

/-- The pragma that is used there. -/
def PasswordUse.pragma : PasswordUse → Text
  | .rekey => "rekey".toList
  | .create | .openDb | .backupByMount | .backup | .verify => "key".toList

/-- The text that is executed there. -/
def PasswordUse.sql (use : PasswordUse) (password : Text) : Text :=
  pragmaKeySql use.pragma password

/-! ## What SQLite reads -/

theorem pragmaKeySql_eq (pragma value : Text) : pragmaKeySql pragma value =
    'P' :: ("RAGMA".toList ++ ' ' :: (pragma ++ ' ' :: '=' :: ' ' :: quotedValue value)) := by
  show "PRAGMA ".toList ++ pragma ++ " = ".toList ++ quotedValue value = _
  simp

section Lexer

variable {c : Char} {w rest value : Text} {fuel : ℕ}

theorem tokensFrom_nil : tokensFrom fuel [] = [] := by cases fuel <;> rfl

theorem tokensFrom_space (h : isSpace c = true) :
    tokensFrom (fuel + 1) (c :: rest) = tokensFrom fuel rest := by
  simp [tokensFrom, h]

/-- A word ends where a character cannot be in one. -/
theorem tokensFrom_word (hspace : isSpace c = false) (hquote : c ≠ quote)
    (hstart : startsWord c (w ++ rest) = true) (hw : ∀ b ∈ w, isIdChar b = true)
    (hrest : ∀ b ∈ rest.head?, isIdChar b = false) :
    tokensFrom (fuel + 1) (c :: (w ++ rest)) = .word (c :: w) :: tokensFrom fuel rest := by
  have hnone : rest.takeWhile isIdChar = [] := by
    cases rest with
    | nil => rfl
    | cons b rest => simp [hrest b rfl]
  have hdrop : rest.dropWhile isIdChar = rest := by
    cases rest with
    | nil => rfl
    | cons b rest => simp [hrest b rfl]
  rw [tokensFrom, hspace, if_neg Bool.false_ne_true, if_neg hquote, if_pos hstart,
    List.takeWhile_append_of_pos hw, List.dropWhile_append_of_pos hw, hnone, hdrop,
    List.append_nil]

theorem tokensFrom_equals :
    tokensFrom (fuel + 1) ('=' :: rest) = .equals :: tokensFrom fuel rest := rfl

/-- A quoted value is one literal, whatever is in it. -/
theorem tokensFrom_quotedValue :
    tokensFrom (fuel + 1) (quotedValue value) = [.literal value] := by
  have hscan : Literal.scan quote (Literal.double quote value ++ [quote]) = some (value, []) :=
    Literal.scan_double (by simp) value
  have hspace : isSpace quote = false := by decide
  rw [quotedValue, tokensFrom, hspace, if_neg Bool.false_ne_true, if_pos rfl, hscan]
  simp only [tokensFrom_nil]

/-- Whatever the name of the pragma, its statement has four tokens. -/
theorem tokensFrom_pragmaKeySql (hspace : isSpace c = false) (hquote : c ≠ quote)
    (hstart : ∀ rest, startsWord c rest = true) (hw : ∀ b ∈ w, isIdChar b = true) :
    tokensFrom (fuel + 7) (pragmaKeySql (c :: w) value) = Sql.pragma (c :: w) value := by
  have hword : ∀ b ∈ "RAGMA".toList, isIdChar b = true := List.all_eq_true.1 (by decide +kernel)
  have hend : ∀ {rest : Text}, ∀ b ∈ (' ' :: rest).head?, isIdChar b = false := by
    intro rest b hb
    obtain rfl := Option.some.inj hb
    decide
  have hP : isSpace 'P' = false := by decide
  have hP' : 'P' ≠ quote := by decide
  have hblank : isSpace ' ' = true := by decide
  have hstartP : ∀ rest, startsWord 'P' rest = true := fun _ => rfl
  rw [pragmaKeySql_eq, tokensFrom_word hP hP' (hstartP _) hword hend, tokensFrom_space hblank,
    List.cons_append, tokensFrom_word hspace hquote (hstart _) hw hend, tokensFrom_space hblank,
    tokensFrom_equals,
    tokensFrom_space hblank, tokensFrom_quotedValue]
  rfl

end Lexer

variable {password : Text}

theorem tokensFrom_sql (use : PasswordUse) (fuel : ℕ) :
    tokensFrom (fuel + 7) (use.sql password) = Sql.pragma use.pragma password := by
  have hkey : ∀ b ∈ "ey".toList, isIdChar b = true := List.all_eq_true.1 (by decide +kernel)
  have hrekey : ∀ b ∈ "ekey".toList, isIdChar b = true := List.all_eq_true.1 (by decide +kernel)
  cases use with
  | rekey => exact tokensFrom_pragmaKeySql (by decide) (by decide) (fun _ => rfl) hrekey
  | create | openDb | backupByMount | backup | verify =>
    exact tokensFrom_pragmaKeySql (by decide) (by decide) (fun _ => rfl) hkey

/-- SQLite sees the whole text. -/
theorem nul_notMem_sql (use : PasswordUse) (h : nul ∉ password) : nul ∉ use.sql password := by
  have hpragma : nul ∉ use.pragma := by cases use <;> decide +kernel
  have hquote : nul ≠ quote := by decide
  rw [PasswordUse.sql, pragmaKeySql_eq]
  simp only [quotedValue, List.mem_cons, List.mem_append, List.not_mem_nil, or_false, not_or,
    Literal.mem_double]
  exact ⟨by decide, by decide +kernel, by decide, hpragma, by decide, by decide, by decide,
    hquote, h, hquote⟩

theorem tokens_sql (use : PasswordUse) (h : nul ∉ password) :
    tokens (use.sql password) = Sql.pragma use.pragma password := by
  have hseen : (use.sql password).takeWhile (· ≠ nul) = use.sql password := by
    rw [List.takeWhile_eq_self_iff]
    intro c hc
    rw [decide_eq_true_eq]
    rintro rfl
    exact nul_notMem_sql use h hc
  obtain ⟨fuel, hfuel⟩ : ∃ fuel, (use.sql password).length = fuel + 7 := by
    refine Nat.exists_eq_add_of_le' ?_
    rw [PasswordUse.sql, pragmaKeySql_eq]
    simp
  show tokensFrom _ _ = _
  rw [hseen, hfuel, tokensFrom_sql]

/-- **The text is one statement, and its literal is the password.** Two passwords are never written
alike. -/
theorem password_quoting (password : Text) (h : nul ∉ password) :
    (∀ use : PasswordUse, statements (use.sql password) = [Sql.pragma use.pragma password]) ∧
      ∀ other : Text, quotedValue password = quotedValue other → password = other := by
  refine ⟨fun use => ?_, fun other hother => ?_⟩
  · rw [statements, tokens_sql use h]
    rfl
  · exact Literal.double_injective quote (List.append_cancel_right (List.cons.inj hother).2)

theorem password_quoting_quotes :
    (∀ use : PasswordUse, statements (use.sql [quote, 'a', quote, quote]) =
        [Sql.pragma use.pragma [quote, 'a', quote, quote]]) ∧
      ∀ other : Text, quotedValue [quote, 'a', quote, quote] = quotedValue other →
        [quote, 'a', quote, quote] = other :=
  password_quoting _ (by decide)

end CofferFS
