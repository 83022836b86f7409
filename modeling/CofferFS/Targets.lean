import CofferFS.Ipc
import CofferFS.Save

/-!
# What a command is asked to work on

A target on the command line is a path or the alias of a vault; `mount` and `umount` without one ask
the registry. The options of a vault fill in those that the command line leaves open
(`MountOpts.withDefaultsFrom`).

`saved_alias` closes the circle: what `mount --save` has just written to the registry is what the
alias means, to every command, down to the options of the next mount.
-/

namespace CofferFS

open Text

/-! ## The options of a mount -/

structure MountOpts where
  foreground : Bool := false
  idleTimeout : Option Text := none
  compactOnIdle : Option Text := none
  passwordFile : Option Text := none
  passwordCommand : Option Text := none
  readOnly : Bool := false
  log : Option Text := none
  enforcePermissions : Bool := false
  locking : Option Locking := none
  deriving DecidableEq

namespace MountOpts

/-- `MountOpts::with_defaults_from` -/
def withDefaultsFrom (o : MountOpts) (v : Vault) : MountOpts :=
  { o with
    idleTimeout := o.idleTimeout.or v.idleTimeout
    compactOnIdle := o.compactOnIdle.or v.compactOnIdle
    -- a source on the command line silences both that are stored
    passwordFile :=
      if o.passwordFile.isNone && o.passwordCommand.isNone then v.passwordFile else o.passwordFile
    passwordCommand :=
      if o.passwordFile.isNone && o.passwordCommand.isNone then v.passwordCommand
      else o.passwordCommand
    log := o.log.or v.logFile
    readOnly := o.readOnly || v.readOnly
    enforcePermissions := o.enforcePermissions || v.enforcePermissions
    locking := o.locking.or v.locking }

/-- The vault that `--save` registers. -/
def vault (o : MountOpts) («alias» file mountpoint : Text) : Vault where
  «alias» := «alias»
  file := file
  mountpoint := mountpoint
  idleTimeout := o.idleTimeout
  compactOnIdle := o.compactOnIdle
  passwordFile := o.passwordFile
  passwordCommand := o.passwordCommand
  logFile := o.log
  readOnly := o.readOnly
  enforcePermissions := o.enforcePermissions
  locking := o.locking

/-- The paths made absolute. -/
def madeAbsolute (absolute : Text → Text) (o : MountOpts) : MountOpts :=
  { o with passwordFile := o.passwordFile.map absolute, log := o.log.map absolute }

end MountOpts

/-- What `cmd_mount` makes of its options; a duration that is no duration is an error. -/
structure MountSettings where
  foreground : Bool
  idleTimeout : Option (Option Duration)
  compactOnIdle : Option (Option Duration)
  passwordFile : Option Text
  passwordCommand : Option Text
  readOnly : Bool
  log : Option Text
  enforcePermissions : Bool
  locking : Locking

def MountOpts.settings (o : MountOpts) : MountSettings where
  foreground := o.foreground
  idleTimeout := o.idleTimeout.map parseDuration
  compactOnIdle := o.compactOnIdle.map parseDuration
  passwordFile := o.passwordFile
  passwordCommand := o.passwordCommand
  readOnly := o.readOnly
  log := o.log
  enforcePermissions := o.enforcePermissions
  locking := o.locking.getD .auto

/-- The paths made absolute, as `cmd_add` does with `std::path::absolute`. -/
def Vault.madeAbsolute (absolute : Text → Text) (v : Vault) : Vault :=
  { v with
    file := absolute v.file
    mountpoint := absolute v.mountpoint
    passwordFile := v.passwordFile.map absolute
    logFile := v.logFile.map absolute }

/-! ## Targets -/

/-- `looks_like_path` -/
def looksLikePath (arg : Text) : Bool :=
  arg.contains '/' || arg.head? == some '.' || arg.head? == some '~'

/-- Why a command does not know what to work on. -/
inductive TargetError
  | load (e : LoadError)
  | config (e : ConfigError)
  /-- `no such file, and no registered vault by that alias` -/
  | noSuchFile (arg : Text)
  /-- `no vaults registered` -/
  | noVaults
  /-- `not a registered vault` -/
  | notRegistered (arg : Text)
  /-- `neither mounted nor a registered vault` -/
  | neither (arg : Text)
  /-- `is not mounted` -/
  | notMounted (name : Text)
  /-- `none of the registered vaults is currently mounted` -/
  | noneMounted
  /-- `no terminal to choose on` -/
  | noTerminal (candidates : ℕ)
  /-- `aborted` -/
  | aborted

/-- `Config::load()?` -/
abbrev Loaded := Except LoadError Config

/-- `Config::load()?.get(arg)?` -/
def Loaded.get (home : Home) (loaded : Loaded) (arg : Text) : Except TargetError (Option Vault) :=
  match loaded with
  | .error e => .error (.load e)
  | .ok cfg => (cfg.get home arg).mapError .config

/-- `Config::load()?.vaults()?` -/
def Loaded.vaults (home : Home) (loaded : Loaded) : Except TargetError (List Vault) :=
  match loaded with
  | .error e => .error (.load e)
  | .ok cfg => (cfg.vaults home).mapError .config

/-- The vault that an answer picks: by its number, else by its alias. -/
def pickedBy (candidates : List Vault) (answer : Text) : Option Vault :=
  (((Ipc.parseU64 answer).filter (0 < ·)).bind fun n => candidates[n - 1]?).or
    (candidates.find? (·.alias = answer))

/-- The loop of `pick_vault`, on the lines that are typed. -/
def pickLoop (candidates : List Vault) : List Text → Except TargetError Vault
  | [] => .error .aborted
  | line :: rest =>
    if trim line = [] ∨ trim line = "q".toList then .error .aborted
    else match pickedBy candidates (trim line) with
      | some v => .ok v
      | none => pickLoop candidates rest

/-- `pick_vault`; without a terminal there are no lines. -/
def pickVault (terminal : Option (List Text)) : List Vault → Except TargetError Vault
  | [v] => .ok v
  | candidates =>
    match terminal with
    | none => .error (.noTerminal candidates.length)
    | some typed => pickLoop candidates typed

/-- `resolve_container` -/
def resolveContainer (home : Home) (loaded : Loaded) (exist : Text → Bool) (arg : Text) :
    Except TargetError Text :=
  if looksLikePath arg then .ok arg
  else do
    match ← loaded.get home arg with
    | some v => .ok v.file
    | none => if exist arg then .ok arg else .error (.noSuchFile arg)

/-- The vault that `plan_mount` finds in the registry. -/
def registered (home : Home) (loaded : Loaded) (terminal : Option (List Text)) :
    Option Text → Except TargetError (Option Vault)
  | some t => if looksLikePath t then .ok none else loaded.get home t
  | none => do
    let vaults ← loaded.vaults home
    if vaults = [] then .error .noVaults
    else (pickVault terminal vaults).map some

/-- `plan_mount` -/
def planMount (home : Home) (loaded : Loaded) (terminal : Option (List Text))
    (target mountpoint : Option Text) (opts : MountOpts) :
    Except TargetError (Text × Text × MountOpts) := do
  match ← registered home loaded terminal target, target, mountpoint with
  | some v, _, mountpoint => .ok (v.file, mountpoint.getD v.mountpoint, opts.withDefaultsFrom v)
  | none, some file, some mountpoint => .ok (file, mountpoint, opts)
  | none, some t, none => .error (.notRegistered t)
  -- a missing target is a vault or an error by now
  | none, none, _ => .error .noVaults

/-- The mountpoint that `cmd_umount` works out. `mounted` is about coffer's mounts, `occupied` about
all of them. -/
def umountTarget (home : Home) (loaded : Loaded) (terminal : Option (List Text))
    (mounted occupied : Text → Bool) : Option Text → Except TargetError Text
  | some t =>
    if looksLikePath t then .ok t
    else do
      match ← loaded.get home t with
      | some v => if mounted v.mountpoint then .ok v.mountpoint else .error (.notMounted v.alias)
      | none => if occupied t then .ok t else .error (.neither t)
  | none => do
    let vaults ← loaded.vaults home
    if vaults = [] then .error .noVaults
    else if vaults.filter (mounted ·.mountpoint) = [] then .error .noneMounted
    else do
      let v ← pickVault terminal (vaults.filter (mounted ·.mountpoint))
      .ok v.mountpoint

/-! ## A vault that was saved -/

section Saved

variable {home : Home} {file : Option (List UInt8)} {reg : Registry} {loaded : Loaded}
  {name t : Text} {v : Vault} {terminal : Option (List Text)} {absolute : Text → Text}

/-- No alias looks like a path. -/
theorem looksLikePath_of_validAlias (h : validAlias name = true) : looksLikePath name = false := by
  rw [validAlias, Bool.and_eq_true] at h
  obtain ⟨hhead, hall⟩ := h
  have hmem : ∀ c, c ∈ name → c.isAlphanum = true ∨ c = '-' ∨ c = '_' ∨ c = '.' := by
    intro c hc
    have hchar := List.all_eq_true.1 hall c hc
    simpa [or_assoc] using hchar
  have hslash : name.contains '/' = false := by
    rw [List.contains_eq_mem, decide_eq_false_iff_not]
    intro hc
    exact absurd (hmem _ hc) (by decide)
  have hfirst {c : Char} (hc : c.isAlphanum = false) : (name.head? == some c) = false := by
    rw [beq_eq_false_iff_ne]
    intro heq
    rw [heq, Option.any_some, hc] at hhead
    cases hhead
  rw [looksLikePath, hslash, hfirst (by decide), hfirst (by decide)]
  rfl

theorem trim_trim (t : Text) : trim (trim t) = trim t := by
  have hend : trimEnd (trim t) = trim t := List.rdropWhile_idempotent _ _
  cases htrim : trim t with
  | nil => rfl
  | cons c rest =>
    obtain ⟨w, hw, -⟩ := exists_trimEnd (trimStart t)
    have hhead : (trimStart t).head? = some c := by
      rw [hw, ← trim, htrim]
      rfl
    have hc := List.head?_dropWhile_not isWs t
    rw [← trimStart, hhead] at hc
    rw [htrim] at hend
    exact trim_cons_of_trimEnd (by simpa using hc) hend

theorem parseDuration_trim (t : Text) : parseDuration (trim t) = parseDuration t := by
  rw [parseDuration, parseDuration, trim_trim]

/-- An alias leads to its vault. -/
theorem registered_of_get (hname : validAlias name = true)
    (hget : loaded.get home name = .ok (some v)) :
    registered home loaded terminal (some name) = .ok (some v) := by
  rw [registered, looksLikePath_of_validAlias hname]
  exact hget

theorem planMount_of_get (hname : validAlias name = true)
    (hget : loaded.get home name = .ok (some v)) (mountpoint : Option Text) (o : MountOpts) :
    planMount home loaded terminal (some name) mountpoint o =
      .ok (v.file, mountpoint.getD v.mountpoint, o.withDefaultsFrom v) := by
  rw [planMount, registered_of_get hname hget]
  rfl

/-- Options that say nothing leave all to the vault. -/
theorem settings_saved (o : MountOpts) (foreground : Bool) (name f mountpoint : Text) :
    (({ foreground } : MountOpts).withDefaultsFrom
      ((o.vault name f mountpoint).madeAbsolute absolute).trimmed).settings =
      { (o.madeAbsolute absolute).settings with foreground } := by
  have hduration (d : Option Text) : (d.map trim).map parseDuration = d.map parseDuration := by
    cases d with
    | none => rfl
    | some d => exact congrArg some (parseDuration_trim d)
  simp only [MountOpts.settings, MountOpts.withDefaultsFrom, Vault.trimmed, Vault.madeAbsolute,
    MountOpts.vault, MountOpts.madeAbsolute, Option.none_or, Option.isNone_none, Bool.and_self,
    if_true, Bool.false_or, hduration]

/-- What `mount --save` has registered is found again. -/
theorem get_saved (hfile : FileSays home file reg) (habs : v.Absolute) (hw : v.Writable)
    (hv : v.acceptable = true) :
    Loaded.get home (Config.loadFrom ((Edit.save (.add v) file).or file)) v.alias =
      .ok (some v.trimmed) := by
  obtain ⟨cfg, hload, -, hget⟩ := hfile.save (e := .add v) habs hw
  have hreg : Edit.apply reg (.add v) v.alias = some v.trimmed := by
    rw [Edit.apply, if_pos hv, Function.update_self]
  rw [hload]
  change (cfg.get home v.alias).mapError TargetError.config = _
  rw [hget, hreg]
  rfl

/-- **What `mount --save` has written, if the lines of a registry can hold it, is what the alias
means then**: `mount` takes the file and the mountpoint and, where its own options say nothing,
mounts with the same settings; those that restrict cannot be turned off; `umount` and the other
commands find the same paths. -/
theorem saved_alias (habsolute : ∀ p, (absolute p).head? = some '/')
    (hfile : FileSays home file reg) (o : MountOpts) {f mountpoint : Text}
    (hv : ((o.vault name f mountpoint).madeAbsolute absolute).acceptable = true)
    (hw : ((o.vault name f mountpoint).madeAbsolute absolute).Writable)
    (hloaded : loaded = Config.loadFrom
      ((Edit.save (.add ((o.vault name f mountpoint).madeAbsolute absolute)) file).or file)) :
    (∀ exist, resolveContainer home loaded exist name = .ok (absolute f)) ∧
      (∀ mounted occupied, umountTarget home loaded terminal mounted occupied (some name) =
        if mounted (absolute mountpoint) then .ok (absolute mountpoint)
        else .error (.notMounted name)) ∧
      ∀ override flags, ∃ opts,
        planMount home loaded terminal (some name) override flags =
            .ok (absolute f, override.getD (absolute mountpoint), opts) ∧
          (o.readOnly = true → opts.readOnly = true) ∧
          (o.enforcePermissions = true → opts.enforcePermissions = true) ∧
          (flags = { foreground := flags.foreground } → opts.settings =
            { (o.madeAbsolute absolute).settings with foreground := flags.foreground }) := by
  have hname : validAlias name = true := Vault.validAlias_of_acceptable hv
  have habs : ((o.vault name f mountpoint).madeAbsolute absolute).Absolute := by
    intro p hp
    simp only [Vault.paths, Vault.madeAbsolute, List.mem_append, List.mem_cons, Option.mem_toList,
      Option.map_eq_some_iff, List.not_mem_nil, or_false] at hp
    rcases hp with ((rfl | rfl) | ⟨q, -, rfl⟩) | ⟨q, -, rfl⟩ <;> exact habsolute _
  have hget : Loaded.get home loaded name =
      .ok (some ((o.vault name f mountpoint).madeAbsolute absolute).trimmed) := by
    rw [hloaded]
    exact get_saved hfile habs hw hv
  refine ⟨fun exist => ?_, fun mounted occupied => ?_, fun override flags => ?_⟩
  · rw [resolveContainer, looksLikePath_of_validAlias hname, hget]
    rfl
  · rw [umountTarget, looksLikePath_of_validAlias hname, hget]
    rfl
  · refine ⟨_, planMount_of_get hname hget override flags, ?_, ?_, ?_⟩
    · intro hro
      exact Bool.or_eq_true_iff.2 (.inr hro)
    · intro henforce
      exact Bool.or_eq_true_iff.2 (.inr henforce)
    · intro hflags
      rw [hflags]
      exact settings_saved o flags.foreground name f mountpoint

/-- Everything is in `/data`. -/
def inData (p : Text) : Text := "/data/".toList ++ p

/-- Options that a line of the registry holds. -/
def someOpts : MountOpts :=
  { foreground := true, idleTimeout := some " 30m".toList, passwordFile := some "pw".toList
    readOnly := true }

theorem saved_alias_work : resolveContainer none
    (Config.loadFrom ((Edit.save (.add ((someOpts.vault "work".toList "c".toList
      "m".toList).madeAbsolute inData)) none).or none)) (fun _ => false) "work".toList =
      .ok "/data/c".toList := by
  have hw : ((someOpts.vault "work".toList "c".toList "m".toList).madeAbsolute inData).Writable :=
    ⟨by decide, nofun, by decide⟩
  have hv : ((someOpts.vault "work".toList "c".toList "m".toList).madeAbsolute
      inData).acceptable = true := by
    decide +kernel
  exact (@saved_alias none none (fun _ => none) _ "work".toList none inData (fun _ => rfl)
    ⟨_, rfl, ⟨[], rfl⟩, fun _ => rfl⟩ someOpts _ _ hv hw rfl).1 _

end Saved

end CofferFS
