import CofferFS.Lib.Utf8
import Mathlib.Data.List.Basic

/-!
# The file that is opened

`open_db_with` hands SQLite the path of the container as a URI, without escaping it.
`uri_denotes_iff` says for which paths SQLite then opens the file that was named.
-/

namespace CofferFS

open Utf8

/-- A path, as bytes. -/
abbrev PathBytes := List UInt8

/-- The bytes of ASCII text. -/
def ascii (text : List Char) : List UInt8 := text.map fun c => .ofNat c.toNat

/-- `file:` -/
def scheme : List UInt8 := ascii ['f', 'i', 'l', 'e', ':']

/-- `?mode=ro` -/
def modeRo : List UInt8 := ascii ['?', 'm', 'o', 'd', 'e', '=', 'r', 'o']

/-- `format!("file:{}{}", path.display(), if readonly { "?mode=ro" } else { "" })` -/
def openUri (path : PathBytes) (readonly : Bool) : List UInt8 :=
  scheme ++ lossy path ++ if readonly then modeRo else []

/-! ## How SQLite reads a URI -/

namespace Uri

/-- The value of a hexadecimal digit. -/
def hexValue (b : UInt8) : Option ℕ :=
  if 0x30 ≤ b.toNat ∧ b.toNat ≤ 0x39 then some (b.toNat - 0x30)
  else if 0x41 ≤ b.toNat ∧ b.toNat ≤ 0x46 then some (b.toNat - 0x41 + 10)
  else if 0x61 ≤ b.toNat ∧ b.toNat ≤ 0x66 then some (b.toNat - 0x61 + 10)
  else none

/-- The value of the digit at the start of `l`. -/
def digit (l : List UInt8) : Option ℕ := l.head?.bind hexValue

/-- The byte that `%HH` stands for, given what comes after the `%`. -/
def escaped (rest : List UInt8) : Option UInt8 := do
  let v ← digit rest
  let v' ← digit (rest.drop 1)
  pure (.ofNat (16 * v + v'))

/-- `%HH` is decoded. -/
def unescape : List UInt8 → List UInt8
  | [] => []
  | b :: rest =>
    match if b = 0x25 then escaped rest else none with
    | some v => v :: unescape (rest.drop 2)
    | none => b :: unescape rest
termination_by l => l.length
decreasing_by
  · rw [List.length_drop, List.length_cons]
    omega
  · exact Nat.lt_succ_self _

/-- `?` and `#` end the path. -/
def inPath (b : UInt8) : Bool := b ≠ 0x3F && b ≠ 0x23

theorem inPath_iff {b : UInt8} : inPath b = true ↔ 0x3F ≠ b ∧ 0x23 ≠ b := by
  rw [ne_comm, ne_comm (a := (0x23 : UInt8))]
  simp [inPath]

/-- What comes after `file:`. -/
def afterScheme (uri : List UInt8) : List UInt8 := uri.drop scheme.length

/-- The path of a URI. A canonical path does not start with two slashes, so there is no authority
before it. -/
def path (uri : List UInt8) : PathBytes := unescape ((afterScheme uri).takeWhile inPath)

/-- The parameters after the first `?`, up to a `#`. -/
def params (uri : List UInt8) : List (List UInt8 × List UInt8) :=
  match (afterScheme uri).dropWhile inPath with
  | 0x3F :: query => ((query.takeWhile (· ≠ 0x23)).splitOn 0x26).map fun param =>
    (unescape (param.takeWhile (· ≠ 0x3D)), unescape ((param.dropWhile (· ≠ 0x3D)).drop 1))
  | _ => []

end Uri

/-- The URI stands for the file with the given path, to be opened for reading only if `readonly`
says so. -/
def Denotes (uri : List UInt8) (p : PathBytes) (readonly : Bool) : Prop :=
  Uri.path uri = p ∧
    ((ascii ['m', 'o', 'd', 'e'], ascii ['r', 'o']) ∈ Uri.params uri ↔ readonly = true)

/-! ## Paths that mean themselves -/

/-- No byte of the path has a meaning in a URI. -/
def PlainPath (p : PathBytes) : Prop :=
  0x3F ∉ p ∧ 0x23 ∉ p ∧ ∀ before rest, p = before ++ 0x25 :: rest → Uri.escaped rest = none

section Plain

variable {p rest : PathBytes} {b : UInt8}

theorem plainPath_nil : PlainPath [] := by
  refine ⟨List.not_mem_nil, List.not_mem_nil, fun before rest h => ?_⟩
  simp at h

theorem plainPath_cons_iff : PlainPath (b :: p) ↔
    Uri.inPath b = true ∧ (b = 0x25 → Uri.escaped p = none) ∧ PlainPath p := by
  simp only [PlainPath, List.mem_cons, not_or, Uri.inPath_iff]
  constructor
  · rintro ⟨⟨hq, hq'⟩, ⟨hh, hh'⟩, hescaped⟩
    refine ⟨⟨hq, hh⟩, fun hb => hescaped [] p (by rw [hb]; rfl), hq', hh', fun before rest h => ?_⟩
    exact hescaped (b :: before) rest (by rw [h]; rfl)
  · rintro ⟨⟨hq, hh⟩, hb, hq', hh', hescaped⟩
    refine ⟨⟨hq, hq'⟩, ⟨hh, hh'⟩, fun before rest h => ?_⟩
    cases before with
    | nil =>
      obtain ⟨rfl, rfl⟩ := List.cons.inj h
      exact hb rfl
    | cons c before => exact hescaped before rest (List.cons.inj h).2

/-- Bytes that are not ASCII are plain. -/
theorem plainPath_append {u : PathBytes} (h : ∀ b ∈ u, 0x80 ≤ b.toNat) (hp : PlainPath p) :
    PlainPath (u ++ p) := by
  induction u with
  | nil => exact hp
  | cons b u ih =>
    have hb := h b List.mem_cons_self
    have hne (c : UInt8) (hc : c.toNat < 0x80) : b ≠ c := by
      rintro rfl
      omega
    refine plainPath_cons_iff.2 ⟨?_, fun heq => (hne 0x25 (by decide) heq).elim,
      ih fun c hc => h c (List.mem_cons_of_mem _ hc)⟩
    simp [Uri.inPath, hne 0x3F (by decide), hne 0x23 (by decide)]

end Plain

/-! ## Reading back what is displayed -/

namespace Uri

variable {p q : PathBytes} {b : UInt8}

theorem unescape_nil : unescape [] = [] := by rw [unescape]

theorem unescape_cons_of_ne (h : b = 0x25 → escaped p = none) :
    unescape (b :: p) = b :: unescape p := by
  rw [unescape]
  split_ifs with hb
  · rw [h hb]
  · rfl

theorem unescape_cons_of_escaped {v : UInt8} (h : escaped p = some v) :
    unescape (0x25 :: p) = v :: unescape (p.drop 2) := by
  rw [unescape, if_pos rfl, h]

theorem hexValue_ne_none (h : hexValue b ≠ none) : b.toNat ≤ 0x7F ∧ inPath b = true := by
  unfold hexValue at h
  have hb : b.toNat ≠ 0x3F ∧ b.toNat ≠ 0x23 ∧ b.toNat ≤ 0x7F := by
    split_ifs at h
    all_goals first | omega | exact (h rfl).elim
  refine ⟨hb.2.2, inPath_iff.2 ⟨?_, ?_⟩⟩
  · rintro rfl
    exact hb.1 rfl
  · rintro rfl
    exact hb.2.1 rfl

theorem inPath_of_not_ascii (h : 0x80 ≤ b.toNat) : inPath b = true := by
  refine inPath_iff.2 ⟨?_, ?_⟩
  · rintro rfl
    exact absurd h (by decide)
  · rintro rfl
    exact absurd h (by decide)

/-- What SQLite takes for the path, before it decodes it. -/
def shown (p : PathBytes) : List UInt8 := (lossy p).takeWhile inPath

theorem shown_cons_of_ascii (h : b.toNat ≤ 0x7F) :
    shown (b :: p) = if inPath b then b :: shown p else [] := by
  rw [shown, lossy_cons_of_ascii h, List.takeWhile_cons]
  rfl

theorem digit_shown : digit (shown p) = digit p := by
  cases p with
  | nil => rw [shown, lossy_nil]; rfl
  | cons b p =>
    by_cases hascii : b.toNat ≤ 0x7F
    · rw [shown_cons_of_ascii hascii]
      split_ifs with hin
      · rfl
      · by_contra hne
        exact hin (hexValue_ne_none fun hnone => hne hnone.symm).2
    · have hnone : hexValue b = none := by
        by_contra hne
        exact hascii (hexValue_ne_none hne).1
      have hdigit : digit (b :: p) = none := hnone
      rw [hdigit]
      cases hchar : isChar b p with
      | true =>
        rw [shown, lossy_cons_of_isChar hchar, List.takeWhile_cons,
          if_pos (inPath_of_not_ascii (by omega))]
        exact hnone
      | false =>
        rw [shown, lossy_cons_of_not_isChar hchar]
        rfl

theorem drop_shown (h : digit p ≠ none) : (shown p).drop 1 = shown (p.drop 1) := by
  cases p with
  | nil => exact (h rfl).elim
  | cons b p =>
    obtain ⟨hascii, hin⟩ := hexValue_ne_none h
    rw [shown_cons_of_ascii hascii, if_pos hin]
    rfl

theorem escaped_ne_none (h : escaped p ≠ none) : digit p ≠ none ∧ digit (p.drop 1) ≠ none := by
  unfold escaped at h
  constructor
  · intro hnone
    rw [hnone] at h
    exact h rfl
  · intro hnone
    rw [hnone] at h
    cases hd : digit p <;> simp [hd] at h

theorem escaped_shown : escaped (shown p) = escaped p := by
  by_cases hd : digit p = none
  · rw [escaped, escaped, digit_shown, hd]
    rfl
  · rw [escaped, escaped, digit_shown, drop_shown hd, digit_shown]

theorem drop_two_shown (h : escaped p ≠ none) : (shown p).drop 2 = shown (p.drop 2) := by
  obtain ⟨hd, hd'⟩ := escaped_ne_none h
  have hsecond := drop_shown hd'
  rw [← drop_shown hd, List.drop_drop, List.drop_drop] at hsecond
  exact hsecond

/-- Bytes that are not ASCII are read back as they are. -/
theorem unescape_append {u s : List UInt8} (h : ∀ b ∈ u, 0x80 ≤ b.toNat) :
    unescape ((u ++ s).takeWhile inPath) = u ++ unescape (s.takeWhile inPath) := by
  induction u with
  | nil => rfl
  | cons b u ih =>
    have hb := h b List.mem_cons_self
    have hne : b ≠ 0x25 := by
      rintro rfl
      exact absurd hb (by decide)
    rw [List.cons_append, List.takeWhile_cons, if_pos (inPath_of_not_ascii hb),
      unescape_cons_of_ne fun heq => (hne heq).elim,
      ih fun c hc => h c (List.mem_cons_of_mem _ hc), List.cons_append]

/-- What SQLite makes of a path that is displayed. -/
def reread (p : PathBytes) : PathBytes := unescape (shown p)

theorem reread_nil : reread [] = [] := by
  rw [reread, shown, lossy_nil, List.takeWhile_nil, unescape_nil]

theorem reread_end (hb : b.toNat ≤ 0x7F) (hin : inPath b = false) : reread (b :: p) = [] := by
  rw [reread, shown_cons_of_ascii hb, if_neg (by simp [hin]), unescape_nil]

theorem reread_plain (hb : b.toNat ≤ 0x7F) (hin : inPath b = true)
    (h : b = 0x25 → escaped p = none) : reread (b :: p) = b :: reread p := by
  rw [reread, shown_cons_of_ascii hb, if_pos hin,
    unescape_cons_of_ne fun heq => escaped_shown.trans (h heq)]
  rfl

theorem reread_escape {v : UInt8} (h : escaped p = some v) :
    reread (0x25 :: p) = v :: reread (p.drop 2) := by
  have hsome : escaped p ≠ none := by
    rw [h]
    exact Option.some_ne_none v
  rw [reread, shown_cons_of_ascii (by decide), if_pos (by decide),
    unescape_cons_of_escaped (escaped_shown.trans h), drop_two_shown hsome]
  rfl

/-- The bytes of a character that is not ASCII. -/
theorem not_ascii_of_mem_char (hb : 0x80 ≤ b.toNat) :
    ∀ c ∈ b :: p.take (follow b p), 0x80 ≤ c.toNat := by
  intro c hc
  rcases List.mem_cons.1 hc with rfl | hc
  · exact hb
  · exact not_ascii_of_mem_follow hc

theorem reread_char (hb : 0x80 ≤ b.toNat) (h : isChar b p = true) :
    reread (b :: p) = b :: p.take (follow b p) ++ reread (p.drop (follow b p)) := by
  rw [reread, shown, lossy_cons_of_isChar h, ← List.cons_append,
    unescape_append (not_ascii_of_mem_char hb)]
  rfl

theorem reread_invalid (h : isChar b p = false) :
    reread (b :: p) = replacement ++ reread (p.drop (follow b p)) := by
  have hreplacement : ∀ c ∈ replacement, 0x80 ≤ c.toNat := by simp [replacement]
  rw [reread, shown, lossy_cons_of_not_isChar h]
  exact unescape_append hreplacement

/-- The two digits of an escape are ASCII. -/
theorem ascii_of_escaped (h : escaped p ≠ none) : ∀ c ∈ p.take 2, c.toNat ≤ 0x7F := by
  obtain ⟨hd, hd'⟩ := escaped_ne_none h
  match p, hd, hd' with
  | [], hd, _ => exact (hd rfl).elim
  | [c], _, hd' => exact (hd' rfl).elim
  | c :: c' :: p, hd, hd' =>
    intro x hx
    have hpair : x = c ∨ x = c' := by simpa using hx
    rcases hpair with rfl | rfl
    · exact (hexValue_ne_none hd).1
    · exact (hexValue_ne_none hd').1

/-- **Decoding never makes up for what it got ahead.** If what is read back is the path with some
ASCII bytes `w` before it, then there are none, and the path has nothing to be decoded. -/
theorem plain_of_reread {w : List UInt8} (hw : ∀ b ∈ w, b.toNat ≤ 0x7F)
    (h : reread p = w ++ p) : w = [] ∧ valid p = true ∧ PlainPath p := by
  -- by induction on the length of the path; an ASCII byte that is passed joins the end of `w`
  induction hlen : p.length using Nat.strong_induction_on generalizing p w with
  | _ n ih =>
    have ih' (q u : PathBytes) (hq : q.length < n) (hu : ∀ b ∈ u, b.toNat ≤ 0x7F)
        (h : reread q = u ++ q) : u = [] ∧ valid q = true ∧ PlainPath q := ih _ hq hu h rfl
    cases p with
    | nil =>
      rw [reread_nil, List.append_nil] at h
      exact ⟨h.symm, by rw [valid], plainPath_nil⟩
    | cons b p =>
      rw [List.length_cons] at hlen
      by_cases hb : b.toNat ≤ 0x7F
      · cases hin : inPath b with
        | false =>
          rw [reread_end hb hin] at h
          simp at h
        | true =>
          by_cases hescaped : b = 0x25 ∧ escaped p ≠ none
          · -- an escape is one byte for three
            obtain ⟨rfl, hsome⟩ := hescaped
            obtain ⟨v, hv⟩ := Option.ne_none_iff_exists'.1 hsome
            rw [reread_escape hv] at h
            have hdigits := ascii_of_escaped hsome
            have hshort : (p.drop 2).length < n := by
              rw [List.length_drop]
              omega
            cases w with
            | nil =>
              have hrest : reread (p.drop 2) = p.take 2 ++ p.drop 2 := by
                rw [List.take_append_drop]
                exact (List.cons.inj h).2
              have hnone := (ih' _ _ hshort hdigits hrest).1
              have hp : p = [] := by simpa using hnone
              rw [hp] at hsome
              exact (hsome rfl).elim
            | cons c w =>
              have hrest : reread (p.drop 2) = (w ++ 0x25 :: p.take 2) ++ p.drop 2 := by
                rw [List.append_assoc, List.cons_append, List.take_append_drop]
                exact (List.cons.inj h).2
              have hascii : ∀ b ∈ w ++ 0x25 :: p.take 2, b.toNat ≤ 0x7F := by
                intro b hmem
                rcases List.mem_append.1 hmem with hmem | hmem
                · exact hw b (List.mem_cons_of_mem _ hmem)
                · rcases List.mem_cons.1 hmem with rfl | hmem
                  · exact hb
                  · exact hdigits b hmem
              have hnone := (ih' _ _ hshort hascii hrest).1
              simp at hnone
          · have hplain : b = 0x25 → escaped p = none := by
              intro heq
              by_contra hne
              exact hescaped ⟨heq, hne⟩
            rw [reread_plain hb hin hplain] at h
            cases w with
            | nil =>
              obtain ⟨-, hvalid, hp⟩ := ih' p [] (by omega) hw (List.cons.inj h).2
              refine ⟨rfl, ?_, plainPath_cons_iff.2 ⟨hin, hplain, hp⟩⟩
              rw [valid_cons_of_ascii hb]
              exact hvalid
            | cons c w =>
              have hrest : reread p = (w ++ [b]) ++ p := by
                rw [List.append_assoc]
                exact (List.cons.inj h).2
              have hascii : ∀ c ∈ w ++ [b], c.toNat ≤ 0x7F := by
                intro c hmem
                rcases List.mem_append.1 hmem with hmem | hmem
                · exact hw c (List.mem_cons_of_mem _ hmem)
                · rw [List.mem_singleton.1 hmem]
                  exact hb
              have hnone := (ih' p _ (by omega) hascii hrest).1
              simp at hnone
      · have hb' : 0x80 ≤ b.toNat := by omega
        cases hchar : isChar b p with
        | true =>
          rw [reread_char hb' hchar] at h
          cases w with
          | nil =>
            have hrest : p.take (follow b p) ++ reread (p.drop (follow b p)) =
                p.take (follow b p) ++ p.drop (follow b p) := by
              rw [List.take_append_drop]
              exact (List.cons.inj h).2
            have hshort : (p.drop (follow b p)).length < n := by
              rw [List.length_drop]
              omega
            obtain ⟨-, hvalid, hp⟩ := ih' _ [] hshort hw (List.append_cancel_left hrest)
            refine ⟨rfl, ?_, ?_⟩
            · rw [valid, hchar, hvalid]
              rfl
            · have hchars : PlainPath (b :: p.take (follow b p) ++ p.drop (follow b p)) :=
                plainPath_append (not_ascii_of_mem_char hb') hp
              rw [List.cons_append, List.take_append_drop] at hchars
              exact hchars
          | cons c w =>
            obtain ⟨rfl, -⟩ := List.cons.inj h
            exact (hb (hw _ List.mem_cons_self)).elim
        | false =>
          rw [reread_invalid hchar] at h
          cases w with
          | nil =>
            -- what stands there would be U+FFFD itself
            obtain ⟨rfl, h⟩ := List.cons.inj h
            have htrue : isChar 0xEF p = true := by
              rw [← h]
              exact isChar_replacement
            rw [hchar] at htrue
            cases htrue
          | cons c w =>
            obtain ⟨rfl, -⟩ := List.cons.inj h
            exact absurd (hw _ List.mem_cons_self) (by decide)

/-! ## The URI of a path -/

theorem afterScheme_openUri (p : PathBytes) (readonly : Bool) : afterScheme (openUri p readonly) =
    lossy p ++ if readonly then modeRo else [] := by
  rw [afterScheme, openUri, List.append_assoc, List.drop_left]

/-- The query starts with a `?`, so it adds nothing to the path. -/
theorem path_openUri (p : PathBytes) (readonly : Bool) :
    path (openUri p readonly) = reread p := by
  have hquery : (if readonly then modeRo else []).takeWhile inPath = [] := by
    cases readonly <;> rfl
  rw [path, afterScheme_openUri, reread, shown, List.takeWhile_append, hquery, List.append_nil]
  split_ifs with hall
  · rw [(List.takeWhile_prefix _).eq_of_length hall]
  · rfl

theorem inPath_of_plain (h : PlainPath p) : ∀ b ∈ p, inPath b = true := by
  intro b hb
  refine inPath_iff.2 ⟨?_, ?_⟩
  · rintro rfl
    exact h.1 hb
  · rintro rfl
    exact h.2.1 hb

theorem unescape_of_plain (h : PlainPath p) : unescape p = p := by
  induction p with
  | nil => exact unescape_nil
  | cons b p ih =>
    obtain ⟨-, hb, hp⟩ := plainPath_cons_iff.1 h
    rw [unescape_cons_of_ne hb, ih hp]

theorem params_openUri (readonly : Bool) (hvalid : valid p = true) (hp : PlainPath p) :
    params (openUri p readonly) =
      if readonly then [(ascii ['m', 'o', 'd', 'e'], ascii ['r', 'o'])] else [] := by
  rw [params, afterScheme_openUri, lossy_of_valid hvalid,
    List.dropWhile_append_of_pos (inPath_of_plain hp)]
  cases readonly <;> decide +kernel

end Uri

/-- **When SQLite opens the file that was named**: its path is valid UTF-8, and has neither `?` nor
`#` nor a `%` with two hexadecimal digits in it. -/
theorem uri_denotes_iff (p : PathBytes) (readonly : Bool) :
    Denotes (openUri p readonly) p readonly ↔ valid p = true ∧ PlainPath p := by
  constructor
  · intro h
    have hpath : Uri.reread p = [] ++ p := by
      rw [← Uri.path_openUri p readonly]
      exact h.1
    exact (Uri.plain_of_reread (List.forall_mem_nil _) hpath).2
  · rintro ⟨hvalid, hp⟩
    constructor
    · rw [Uri.path_openUri, Uri.reread, Uri.shown, lossy_of_valid hvalid,
        List.takeWhile_eq_self_iff.2 (Uri.inPath_of_plain hp), Uri.unescape_of_plain hp]
    · rw [Uri.params_openUri readonly hvalid hp]
      cases readonly <;> decide

/-- **Two containers, one file**: `/a%62` is opened as `/ab`. -/
theorem percent_path_not_denoted : ¬ ∀ p readonly, Denotes (openUri p readonly) p readonly := by
  intro h
  have hpath := (h (ascii ['/', 'a', '%', '6', '2']) false).1
  have hother : Uri.path (openUri (ascii ['/', 'a', '%', '6', '2']) false) =
      ascii ['/', 'a', 'b'] := by
    decide +kernel
  rw [hother] at hpath
  revert hpath
  decide

end CofferFS
