import CofferFS.Lib.Encode
import CofferFS.Lib.Replace
import CofferFS.Registry
import Mathlib.Data.UInt

/-!
# Saving the registry

`Config::save` replaces the registry through `<path>.tmp`, so that a command that dies on the way
leaves a whole registry behind (`registry_survives`), also by a power failure, although `save` does
not sync the directory: then an earlier registry may come back. But all commands have the same
temporary file, and nothing keeps two of them from running at a time (`registry_torn`).
-/

namespace CofferFS

open Text Replace

/-- The lines of `DEFAULT_HEADER`. -/
def defaultHeader : List Text :=
  ["# coffer vault registry - maintained by `coffer add` / `coffer remove`,".toList,
    "# shown by `coffer list`. One section per vault; the section name is the".toList,
    "# alias for `coffer mount <alias>`. Safe to edit by hand: comments on their".toList,
    "# own line are kept, `~` at the start of a path means $HOME.".toList]

/-- Why a registry is not loaded. -/
inductive LoadError
  /-- `read_to_string` -/
  | notUtf8
  | config (e : ConfigError)

namespace Config

/-- A registry that was never saved. -/
def neverSaved : Config := { preamble := defaultHeader ++ [[]] }

/-- `Config::load_from` -/
def loadFrom : Option (List UInt8) → Except LoadError Config
  | none => .ok neverSaved
  | some bytes =>
    match decode bytes with
    | none => .error .notUtf8
    | some text => (parse text).mapError .config

end Config

/-- The bytes that a command saves, if it comes to that. -/
def Edit.save (e : Edit) (file : Option (List UInt8)) : Option (List UInt8) :=
  match Config.loadFrom file with
  | .error _ => none
  | .ok cfg =>
    match e with
    | add v => (cmdAdd cfg v).map encode
    | remove name => (cmdRemove cfg name).map encode

/-- Where `Config::save` writes. -/
def tmpPath (path : Text) : Text := path ++ ".tmp".toList

/-- The file can be loaded, and says this. -/
def FileSays (home : Home) (file : Option (List UInt8)) (reg : Registry) : Prop :=
  ∃ cfg, Config.loadFrom file = .ok cfg ∧ (∃ vs, cfg.vaults home = .ok vs) ∧
    ∀ name, cfg.get home name = .ok (reg name)

section Save

variable {home : Home} {file : Option (List UInt8)} {reg : Registry} {e : Edit} {text path : Text}

theorem tmpPath_ne (path : Text) : tmpPath path ≠ path := by
  intro h
  have hlen := congrArg List.length h
  have hext : ".tmp".toList.length = 4 := by decide
  rw [tmpPath, List.length_append, hext] at hlen
  omega

/-- The text that the registry has; one that was never saved has the header. -/
def fileText : Option (List UInt8) → Option Text
  | none => some (unlines Config.neverSaved.preamble)
  | some bytes => decode bytes

theorem parse_neverSaved :
    Config.parse (unlines Config.neverSaved.preamble) = .ok Config.neverSaved := by
  have hheader : ∀ l ∈ Config.neverSaved.preamble,
      l.all (· != '\n') = true ∧ l.getLast? ≠ some '\r' ∧ (trim l).head? ≠ some '[' := by
    decide +kernel
  have hnl : ∀ l ∈ Config.neverSaved.preamble, '\n' ∉ l := by
    intro l hl hmem
    exact absurd (List.all_eq_true.1 (hheader l hl).1 _ hmem) (by decide)
  have hlines : lines (unlines Config.neverSaved.preamble) = Config.neverSaved.preamble := by
    rw [lines_unlines, pieces_of_notMem hnl]
    refine (List.map_congr_left fun l hl => ?_).trans (List.map_id _)
    rw [stripCr, if_neg (hheader l hl).2.1]
    rfl
  rw [Config.parse, hlines]
  exact Config.parseLines_preamble fun l hl => fine_of_notMem (hheader l hl).2.2 (hnl l hl)

theorem loadFrom_eq (h : fileText file = some text) :
    Config.loadFrom file = (Config.parse text).mapError .config := by
  cases file with
  | none =>
    rw [← Option.some.inj h, parse_neverSaved]
    rfl
  | some bytes =>
    rw [fileText] at h
    rw [Config.loadFrom, h]

theorem fileSays_iff :
    FileSays home file reg ↔ ∃ text, fileText file = some text ∧ Represents home text reg := by
  constructor
  · rintro ⟨cfg, hload, hread⟩
    cases htext : fileText file with
    | none =>
      cases file with
      | none => cases htext
      | some bytes =>
        rw [fileText] at htext
        rw [Config.loadFrom, htext] at hload
        cases hload
    | some text =>
      rw [loadFrom_eq htext] at hload
      cases hparse : Config.parse text with
      | error e =>
        rw [hparse] at hload
        cases hload
      | ok cfg' =>
        rw [hparse] at hload
        cases hload
        exact ⟨text, rfl, cfg, hparse, hread⟩
  · rintro ⟨text, htext, cfg, hparse, hread⟩
    refine ⟨cfg, ?_, hread⟩
    rw [loadFrom_eq htext, hparse]
    rfl

/-- What is saved is the text that the command makes of the one there was. -/
theorem fileText_save (h : fileText file = some text) :
    fileText ((e.save file).or file) = some (e.run text) := by
  rw [Edit.save, loadFrom_eq h]
  cases hparse : Config.parse text with
  | error err =>
    cases e <;> simp only [Except.mapError, Edit.run, hparse, Option.none_or, h]
  | ok cfg =>
    cases e with
    | add v =>
      simp only [Except.mapError, Edit.run, hparse]
      cases cmdAdd cfg v with
      | none => exact h
      | some text' => exact decode_encode text'
    | remove name =>
      simp only [Except.mapError, Edit.run, hparse]
      cases cmdRemove cfg name with
      | none => exact h
      | some text' => exact decode_encode text'

theorem FileSays.save (h : FileSays home file reg) (habs : e.Absolute) (hw : e.Writable) :
    FileSays home ((e.save file).or file) (e.apply reg) := by
  obtain ⟨text, htext, hreads⟩ := fileSays_iff.1 h
  exact fileSays_iff.2 ⟨_, fileText_save htext, hreads.run habs hw⟩

theorem FileSays.after {es : List Edit} (h : FileSays home file reg)
    (habs : ∀ e ∈ es, e.Absolute) (hw : ∀ e ∈ es, e.Writable) :
    FileSays home (after Edit.save file es) (es.foldl Edit.apply reg) := by
  induction es generalizing file reg with
  | nil => exact h
  | cons e es ih =>
    exact ih (h.save (habs e List.mem_cons_self) (hw e List.mem_cons_self))
      (fun e' he' => habs e' (List.mem_cons_of_mem _ he'))
      fun e' he' => hw e' (List.mem_cons_of_mem _ he')

/-- **Whatever stops the commands that change the registry, one at a time, and when the power fails,
it can be read, and has the vaults that some of the commands have left there, one after the other:
all that came to an end, if the power did not fail.** -/
theorem registry_survives {π : Type} [DecidableEq π] {s t : System π Text UInt8 Edit}
    {ls : List (Label Edit)} (hs : Settled (tmpPath path) path s.disk)
    (hidle : ∀ p, s.phase p = .idle) (hrun : Run Edit.save (tmpPath path) path True s ls t)
    (hreg : FileSays home (s.disk.read path) reg) (habs : ∀ e ∈ saves ls, e.Absolute)
    (hw : ∀ e ∈ saves ls, e.Writable) :
    ∃ es, es.Sublist (saves ls) ∧ FileSays home (t.disk.read path) (es.foldl Edit.apply reg) ∧
      (.powerFailure ∉ ls → es = saves ls) := by
  obtain ⟨es, hsub, hread, hall⟩ := hrun.read (tmpPath_ne path) hs hidle
  refine ⟨es, hsub, ?_, hall⟩
  rw [hread]
  exact hreg.after (fun e he => habs e (hsub.subset he)) fun e he => hw e (hsub.subset he)

/-- Nothing was ever saved, and no command runs. -/
def nothingSaved (π : Type) : System π Text UInt8 Edit := ⟨⟨⟨fun _ => none, []⟩, fun _ => {}, 0⟩,
  fun _ => .idle⟩

theorem settled_nothingSaved (π : Type) (path : Text) :
    Settled (tmpPath path) path (nothingSaved π).disk where
  pending := rfl
  synced := by rintro i ⟨⟩
  distinct := by rintro i ⟨⟩
  named := by rintro n i ⟨⟩

theorem save_workVault : Edit.save (.add workVault) none =
    some (encode (Config.neverSaved.upsert workVault).1.toText) := by
  have hv : workVault.acceptable = true := by decide +kernel
  rw [Edit.save, Config.loadFrom]
  simp only [cmdAdd, if_pos hv, Option.map_some]

theorem registry_survives_work :
    ∃ t, Run Edit.save (tmpPath []) [] True (nothingSaved Unit)
        [.quiet, .quiet, .quiet, .quiet, .saved (.add workVault)] t ∧
      ∃ es, es.Sublist [Edit.add workVault] ∧
        FileSays none (t.disk.read []) (es.foldl Edit.apply fun _ => none) ∧
        (Label.powerFailure ∉ [.quiet, .quiet, .quiet, .quiet, .saved (Edit.add workVault)] →
          es = [Edit.add workVault]) := by
  obtain ⟨t, hrun, -⟩ :=
    exists_saved (tmpPath_ne []) (s := nothingSaved Unit) (fun _ => rfl) () save_workVault
  have habs : workVault.Absolute := by
    unfold Vault.Absolute
    decide
  have hw : workVault.Writable := by
    refine ⟨by decide, ?_, by decide⟩
    rintro c ⟨⟩
    decide
  refine ⟨t, hrun, registry_survives (settled_nothingSaved _ _) (fun _ => rfl) hrun
    ⟨_, rfl, ⟨[], rfl⟩, fun _ => rfl⟩ ?_ ?_⟩
  · intro e he
    rw [List.mem_singleton.1 he]
    exact habs
  · intro e he
    rw [List.mem_singleton.1 he]
    exact hw

/-- **Two commands at a time can leave any part of the text of the second one, though none is
killed: what it has written since the first one has renamed their temporary file.** -/
theorem registry_torn {π : Type} [DecidableEq π] {s : System π Text UInt8 Edit} {p q : π}
    {e e' : Edit} {bytes part rest : List UInt8} (hidle : ∀ p, s.phase p = .idle) (hpq : p ≠ q)
    (he : e.save (s.disk.read path) = some bytes)
    (he' : e'.save (s.disk.read path) = some (part ++ rest)) :
    ∃ ls t, Run Edit.save (tmpPath path) path False s ls t ∧ saves ls = [e] ∧
      .stop ∉ ls ∧ .powerFailure ∉ ls ∧ t.disk.read path = some part := by
  obtain ⟨t, hrun, hread⟩ := exists_torn (tmpPath_ne path) hidle hpq he he'
  exact ⟨_, t, hrun, rfl, by simp, by simp, hread⟩

theorem registry_torn_work :
    ∃ ls t, Run Edit.save (tmpPath []) [] False (nothingSaved Bool) ls t ∧
      saves ls = [.add workVault] ∧ .stop ∉ ls ∧ .powerFailure ∉ ls ∧
      t.disk.read [] = some ((encode (Config.neverSaved.upsert workVault).1.toText).take 300) := by
  have hsplit : Edit.save (.add workVault) none =
      some ((encode (Config.neverSaved.upsert workVault).1.toText).take 300 ++
        (encode (Config.neverSaved.upsert workVault).1.toText).drop 300) := by
    rw [List.take_append_drop]
    exact save_workVault
  exact registry_torn (fun _ => rfl) Bool.false_ne_true save_workVault hsplit

end Save

end CofferFS
