import CofferFS.Own

/-!
# Dropping privileges

Since the mount takes over `FUSE_HANDLE_KILLPRIV_V2`, a write, a truncation and a change of owner
have to drop what makes a file privileged: the setuid bit, the setgid bit of a file that its group
may execute, and the file capabilities. `privileges_right` says that they do, that they leave the
other bits and attributes alone, and that no other request touches modes or capabilities.
-/

namespace CofferFS

/-! ## Modes -/

/-- `S_ISUID` -/
def sIsUid : BitVec 64 := 2048

/-- `S_ISGID` -/
def sIsGid : BitVec 64 := 1024

/-- `S_IXGRP` -/
def sIxGrp : BitVec 64 := 8

/-- What `kill_priv` leaves of a mode. -/
def withoutPrivileges (mode : BitVec 64) : BitVec 64 :=
  if mode &&& sIxGrp ≠ 0 then mode &&& ~~~sIsUid &&& ~~~sIsGid else mode &&& ~~~sIsUid

section Mode

variable {mode mask : BitVec 64}

theorem and_not_of_and_eq_zero (h : mode &&& mask = 0) : mode &&& ~~~mask = mode := by
  ext i hi
  have hbit := congrArg (fun v => v.getLsbD i) h
  simp only [BitVec.getLsbD_and] at hbit
  simp only [BitVec.getElem_and, BitVec.getElem_not]
  grind

/-- A mask sees the bits that are not dropped. -/
theorem withoutPrivileges_and : withoutPrivileges mode &&& mask =
    mode &&& if mode &&& sIxGrp ≠ 0 then ~~~sIsUid &&& (~~~sIsGid &&& mask)
      else ~~~sIsUid &&& mask := by
  unfold withoutPrivileges
  split_ifs <;> simp only [BitVec.and_assoc]

theorem withoutPrivileges_and_of_disjoint (huid : ~~~sIsUid &&& mask = mask)
    (hgid : mode &&& sIxGrp ≠ 0 → ~~~sIsGid &&& mask = mask) :
    withoutPrivileges mode &&& mask = mode &&& mask := by
  rw [withoutPrivileges_and]
  split_ifs with h
  · rw [hgid h, huid]
  · rw [huid]

/-- The setuid bit is gone. -/
theorem withoutPrivileges_and_uid : withoutPrivileges mode &&& sIsUid = 0 := by
  rw [withoutPrivileges_and]
  split_ifs
  · show mode &&& 0 = 0
    simp
  · show mode &&& 0 = 0
    simp

/-- The setgid bit is gone if the group may execute the file. -/
theorem withoutPrivileges_and_gid :
    withoutPrivileges mode &&& sIsGid = 0 ∨ withoutPrivileges mode &&& sIxGrp = 0 := by
  by_cases h : mode &&& sIxGrp = 0
  · right
    rw [withoutPrivileges_and_of_disjoint rfl fun _ => rfl, h]
  · left
    rw [withoutPrivileges_and, if_pos h]
    show mode &&& 0 = 0
    simp

end Mode

/-! ## What the changes do to modes and capabilities -/

namespace Db

/-- The mode of an inode. -/
def mode (db : Db) (i : Ino) : Option (BitVec 64) := (db.inodes.lookup i).map (·.mode)

/-- The attribute that holds the file capabilities. -/
def capability (db : Db) (i : Ino) : Option (List UInt8) := db.attr i "security.capability"

variable {db db' : Db} {i ino parent : Ino} {name : String} {now : F64}

theorem mode_of_own (h : db'.own i = db.own i) : db'.mode i = db.mode i :=
  congrArg (fun o => o.row.map (·.mode)) h

theorem capability_of_own (h : db'.own i = db.own i) : db'.capability i = db.capability i :=
  congrArg (fun o => o.attr "security.capability") h

theorem mode_updateInode {f : Inode → Inode} (hf : ∀ r, (f r).mode = r.mode) :
    (db.updateInode ino f).mode i = db.mode i := by
  show ((db.inodes.updateKey ino f).lookup i).map _ = _
  rw [AList.lookup_updateKey]
  split_ifs
  · simp [mode, hf, Function.comp_def]
  · rfl

theorem mode_clearSuid : (db.clearSuid i).mode i = (db.mode i).map (· &&& ~~~sIsUid) := by
  show ((db.inodes.updateKey i _).lookup i).map _ = _
  rw [AList.lookup_updateKey_self, mode, Option.map_map, Option.map_map]
  congr 1
  funext r
  show (if r.mode &&& sIsUid ≠ 0 then { r with mode := r.mode &&& ~~~sIsUid } else r).mode = _
  split_ifs with h
  · rfl
  · exact (and_not_of_and_eq_zero (not_not.1 h)).symm

theorem mode_clearSgid : (db.clearSgid i).mode i =
    (db.mode i).map fun m => if m &&& sIxGrp ≠ 0 then m &&& ~~~sIsGid else m := by
  show ((db.inodes.updateKey i _).lookup i).map _ = _
  rw [AList.lookup_updateKey_self, mode, Option.map_map, Option.map_map]
  congr 1
  funext r
  show (if r.mode &&& sIsGid ≠ 0 ∧ r.mode &&& sIxGrp ≠ 0 then
    { r with mode := r.mode &&& ~~~sIsGid } else r).mode = _
  show _ = if r.mode &&& sIxGrp ≠ 0 then r.mode &&& ~~~sIsGid else r.mode
  by_cases hgrp : r.mode &&& sIxGrp ≠ 0
  · rw [if_pos hgrp]
    by_cases hgid : r.mode &&& sIsGid ≠ 0
    · rw [if_pos ⟨hgid, hgrp⟩]
    · rw [if_neg fun h => hgid h.1, and_not_of_and_eq_zero (not_not.1 hgid)]
  · rw [if_neg hgrp, if_neg fun h => hgrp h.2]

theorem mode_dropPrivileges :
    (db.dropPrivileges i).mode i = (db.mode i).map withoutPrivileges := by
  show ((db.clearSuid i).clearSgid i).mode i = _
  rw [mode_clearSgid, mode_clearSuid, Option.map_map]
  congr 1
  funext m
  have hgrp : m &&& ~~~sIsUid &&& sIxGrp = m &&& sIxGrp := by
    rw [BitVec.and_assoc]
    rfl
  show (if m &&& ~~~sIsUid &&& sIxGrp ≠ 0 then _ else _) = withoutPrivileges m
  rw [hgrp]
  rfl

theorem attr_dropPrivileges {n : String} : (db.dropPrivileges i).attr i n =
    if n = "security.capability" then none else db.attr i n := by
  show (db.xattrs.map _).bind _ = if _ then _ else db.xattrs.bind _
  cases db.xattrs with
  | none => simp
  | some x =>
    show (x.erase (i, "security.capability")).lookup (i, n) = _
    rw [AList.lookup_erase_eq]
    simp

/-! ### setattr and write -/

/-- The attributes of a `setattr` that come before the drop. -/
def beforeDrop (a : SetAttr) (now : F64) (ino : Ino) (row : InodeRow) (db : Db) : Db :=
  (((db.chmod now ino row a.mode).chown now ino row a.uid a.gid).resize now ino a.size).utimens
    now ino row a.atime a.mtime

variable {a : SetAttr} {row : InodeRow}

theorem xattrs_beforeDrop : (db.beforeDrop a now ino row).xattrs = db.xattrs := by
  have hmode : (db.chmod now ino row a.mode).xattrs = db.xattrs := by
    cases a.mode <;> rfl
  have howner (db : Db) : (db.chown now ino row a.uid a.gid).xattrs = db.xattrs := by
    unfold chown
    split_ifs <;> rfl
  have hsize (db : Db) : (db.resize now ino a.size).xattrs = db.xattrs := by
    cases a.size with
    | none => rfl
    | some n => exact xattrs_truncate
  have htimes (db : Db) : (db.utimens now ino row a.atime a.mtime).xattrs = db.xattrs := by
    unfold utimens
    split_ifs <;> rfl
  rw [beforeDrop, htimes, hsize, howner, hmode]

/-- Without a mode in the request the mode stays until the drop. -/
theorem mode_beforeDrop (hmode : a.mode = none) :
    (db.beforeDrop a now ino row).mode i = db.mode i := by
  have howner (db : Db) : (db.chown now ino row a.uid a.gid).mode i = db.mode i := by
    unfold chown
    split_ifs
    · exact mode_updateInode fun _ => rfl
    · rfl
  have hsize (db : Db) : (db.resize now ino a.size).mode i = db.mode i := by
    cases a.size with
    | none => rfl
    | some n =>
      have hset : (db.setSize (asI64 n) now ino).mode i = db.mode i := mode_updateInode fun _ => rfl
      rw [← hset, mode, mode, ← inodes_truncate]
      rfl
  have htimes (db : Db) : (db.utimens now ino row a.atime a.mtime).mode i = db.mode i := by
    unfold utimens
    split_ifs
    · exact mode_updateInode fun _ => rfl
    · rfl
  rw [beforeDrop, htimes, hsize, howner, hmode]
  rfl

end Db

/-! ## The rule -/

/-- The request has to drop the privileges of `i`: a write that says so, or a `setattr` without a
mode that truncates for a caller who is not root, or changes the owner of a non-directory. -/
def Drops (db : Db) (i : Ino) : Request → Prop
  | .write fh _ _ kill => i = fh ∧ kill = true
  | .setattr caller ino a => i = ino ∧ a.mode = none ∧
      ((a.size ≠ none ∧ caller ≠ 0) ∨ ((a.uid ≠ none ∨ a.gid ≠ none) ∧ ¬ db.IsDir ino))
  | _ => False

/-- The request is for setting the mode of `i`. -/
def SetsMode (i : Ino) : Request → Prop
  | .setattr _ ino a => i = ino ∧ a.mode ≠ none
  | _ => False

/-- The request is for setting or removing the capabilities of `i`. -/
def SetsCapability (i : Ino) : Request → Prop
  | .setxattr ino name _ _ => i = ino ∧ name.toStr = some "security.capability"
  | .removexattr ino name => i = ino ∧ name.toStr = some "security.capability"
  | _ => False

/-- The privileges of `i` are gone, its other bits and attributes stay. -/
structure Dropped (i : Ino) (db db' : Db) : Prop where
  mode : ∃ m m', db.mode i = some m ∧ db'.mode i = some m' ∧ m' &&& sIsUid = 0 ∧
    (m' &&& sIsGid = 0 ∨ m' &&& sIxGrp = 0) ∧
    m' &&& ~~~(sIsUid ||| sIsGid) = m &&& ~~~(sIsUid ||| sIsGid) ∧
    (m &&& sIxGrp = 0 → m' &&& sIsGid = m &&& sIsGid)
  capability : db'.capability i = none
  attr : ∀ n, n ≠ "security.capability" → db'.attr i n = db.attr i n

variable {db db' : Db} {i : Ino}

theorem dropped_of_mode {m : BitVec 64} (hm : db.mode i = some m)
    (hmode : db'.mode i = (db.mode i).map withoutPrivileges)
    (hattr : ∀ n, db'.attr i n = if n = "security.capability" then none else db.attr i n) :
    Dropped i db db' where
  mode := by
    refine ⟨m, withoutPrivileges m, hm, by rw [hmode, hm]; rfl, withoutPrivileges_and_uid,
      withoutPrivileges_and_gid, ?_, fun h => ?_⟩
    · exact withoutPrivileges_and_of_disjoint rfl fun _ => rfl
    · exact withoutPrivileges_and_of_disjoint rfl fun hne => (hne h).elim
  capability := (hattr _).trans (if_pos rfl)
  attr n hn := (hattr n).trans (if_neg hn)

theorem setattrKills_iff {caller : UInt32} {ino : Ino} {a : SetAttr} {row : Db.InodeRow}
    (hrow : db.rowByIno ino = some row) :
    setattrKills caller row.kind a = true ↔ Drops db ino (.setattr caller ino a) := by
  obtain ⟨r, hr, rfl⟩ := Option.map_eq_some_iff.1 hrow
  have hdir : db.IsDir ino ↔ r.kind = .dir := by
    simp [Db.IsDir, hr]
  simp only [Drops, hdir, setattrKills, Db.mapRow, true_and, Bool.and_eq_true, Bool.or_eq_true,
    Option.isNone_iff_eq_none, Option.isSome_iff_ne_none, bne_iff_ne]

/-- What a `setattr` makes of the inode it is about. -/
theorem effect_setattr {m : Mount} {now : F64} {caller : UInt32} {ino : Ino} {a : SetAttr}
    (h : Effect m now (.setattr caller ino a) db db') :
    (Drops db ino (.setattr caller ino a) → Dropped ino db db') ∧
      (¬ Drops db ino (.setattr caller ino a) →
        (a.mode = none → db'.mode ino = db.mode ino) ∧ db'.attr ino = db.attr ino) := by
  obtain ⟨row, hrow, -, rfl⟩ := h
  have happly : a.apply now caller ino row db =
      (db.beforeDrop a now ino row).killIf (setattrKills caller row.kind a) ino := rfl
  have hattr : (db.beforeDrop a now ino row).attr ino = db.attr ino :=
    congrFun (Db.attr_congr Db.xattrs_beforeDrop) ino
  rw [happly, ← setattrKills_iff hrow]
  refine ⟨fun hkills => ?_, fun hkills => ?_⟩
  · have hmode : a.mode = none := ((setattrKills_iff hrow).1 hkills).2.1
    rw [Db.killIf, if_pos hkills]
    obtain ⟨r, hr, -⟩ := Option.map_eq_some_iff.1 hrow
    have hm : db.mode ino = some r.mode := by
      rw [Db.mode, hr]
      rfl
    refine dropped_of_mode hm ?_ fun n => ?_
    · rw [Db.mode_dropPrivileges, Db.mode_beforeDrop hmode]
    · rw [Db.attr_dropPrivileges, hattr]
  · rw [Db.killIf, if_neg hkills]
    exact ⟨fun hmode => Db.mode_beforeDrop hmode, hattr⟩

/-- What a write makes of the inode it is about. -/
theorem effect_write {m : Mount} {now : F64} {fh : Ino} {offset : ℕ} {data : List UInt8}
    {kill : Bool} (h : Effect m now (.write fh offset data kill) db db') :
    (kill = true → Dropped fh db db') ∧
      (kill = false → db'.mode fh = db.mode fh ∧ db'.attr fh = db.attr fh) := by
  obtain ⟨row, hrow, -, rfl⟩ := h
  obtain ⟨r, hr, -⟩ := Option.map_eq_some_iff.1 hrow
  let written := (db.writeBlocks fh offset data).setSize (asI64 (writtenSize row offset data)) now fh
  have hmode : written.mode fh = db.mode fh := by
    have hset : written.mode fh = (db.writeBlocks fh offset data).mode fh :=
      Db.mode_updateInode fun _ => rfl
    rw [hset, Db.mode, Db.inodes_writeBlocks]
    rfl
  have hattr : written.attr = db.attr := Db.attr_congr Db.xattrs_writeBlocks
  have hwrite : writeEffect now fh offset data kill row db = written.killIf kill fh := rfl
  rw [hwrite]
  refine ⟨fun hkill => ?_, fun hkill => ?_⟩
  · rw [Db.killIf, if_pos hkill]
    have hm : db.mode fh = some r.mode := by
      rw [Db.mode, hr]
      rfl
    refine dropped_of_mode hm ?_ fun n => ?_
    · rw [Db.mode_dropPrivileges, hmode]
    · rw [Db.attr_dropPrivileges, hattr]
  · rw [Db.killIf, if_neg (by simp [hkill])]
    exact ⟨hmode, congrFun hattr fh⟩

/-- Mode and capabilities of an inode stay. -/
def KeepsPrivileges (i : Ino) (db db' : Db) : Prop :=
  db'.mode i = db.mode i ∧ db'.capability i = db.capability i

theorem keepsPrivileges_of_own (h : db'.own i = db.own i) : KeepsPrivileges i db db' :=
  ⟨Db.mode_of_own h, Db.capability_of_own h⟩

/-- A directory that is touched keeps them, too. -/
theorem keepsPrivileges_of_touched {now : F64} {parent : Ino}
    (h : db'.own i = if i = parent then (db.own i).mapRow (Db.stamp now) else db.own i) :
    KeepsPrivileges i db db' := by
  split_ifs at h
  · refine ⟨?_, congrArg (fun o => o.attr "security.capability") h⟩
    have hrow : db'.inodes.lookup i = (db.inodes.lookup i).map (Db.stamp now) := congrArg Own.row h
    rw [Db.mode, Db.mode, hrow, Option.map_map]
    rfl
  · exact keepsPrivileges_of_own h

theorem KeepsPrivileges.trans {db'' : Db} (h : KeepsPrivileges i db db')
    (h' : KeepsPrivileges i db' db'') : KeepsPrivileges i db db'' :=
  ⟨h'.1.trans h.1, h'.2.trans h.2⟩

theorem keepsPrivileges_updateInode {ino : Ino} {f : Inode → Inode}
    (hf : ∀ r, (f r).mode = r.mode) : KeepsPrivileges i db (db.updateInode ino f) :=
  ⟨Db.mode_updateInode hf, rfl⟩

theorem keepsPrivileges_dropName {now : F64} {parent ino : Ino} {name : String}
    (hname : db.dentries.lookup (parent, name) = some ino)
    (hi : i ∈ (db.dropName now parent name ino).inodes) :
    KeepsPrivileges i db (db.dropName now parent name ino) := by
  by_cases hino : i = ino
  · subst hino
    rw [← Db.core_ne_none_iff, Db.core_dropName] at hi
    unfold Db.dropName
    split_ifs at hi ⊢ with hlast
    · exact (hi (Function.update_self ..)).elim
    · have hctime : KeepsPrivileges i db ((db.deleteDentry parent name).setCtime now i) :=
        @keepsPrivileges_updateInode (db.deleteDentry parent name) i _ _ fun _ => rfl
      exact hctime.trans (keepsPrivileges_updateInode fun _ => rfl)
  · exact keepsPrivileges_of_touched (Db.own_dropName_of_ne hname hino)

theorem keepsPrivileges_moveName {now : F64} {old new : Ino × String} {ino : Ino} :
    KeepsPrivileges i db (db.moveName now old new ino) := by
  have hold : KeepsPrivileges i db
      ({ db with dentries := (db.dentries.erase old).insert new ino }.touch now old.1) :=
    @keepsPrivileges_updateInode { db with dentries := (db.dentries.erase old).insert new ino }
      i _ _ fun _ => rfl
  exact hold.trans (keepsPrivileges_updateInode fun _ => rfl)

/-- The other requests leave modes and capabilities of the inodes that stay alone. -/
theorem Effect.keepsPrivileges {m : Mount} {now : F64} {req : Request}
    (h : Effect m now req db db') (hi : i ∈ db.inodes) (hi' : i ∈ db'.inodes)
    (hdrops : ¬ Drops db i req) :
    (¬ SetsMode i req → db'.mode i = db.mode i) ∧
      (¬ SetsCapability i req → db'.capability i = db.capability i) := by
  have hfresh : i ≠ db.nextIno := (Db.lt_nextIno hi).ne
  have hboth (hk : KeepsPrivileges i db db') :
      (¬ SetsMode i req → db'.mode i = db.mode i) ∧
        (¬ SetsCapability i req → db'.capability i = db.capability i) :=
    ⟨fun _ => hk.1, fun _ => hk.2⟩
  cases req with
  | setattr caller ino a =>
    by_cases hino : i = ino
    · subst hino
      obtain ⟨hmode, hattr⟩ := (effect_setattr h).2 hdrops
      refine ⟨fun hsets => hmode ?_, fun _ => congrFun hattr _⟩
      by_contra hne
      exact hsets ⟨rfl, hne⟩
    · obtain ⟨row, -, -, rfl⟩ := h
      exact hboth (keepsPrivileges_of_own (Db.own_apply_of_ne hino))
  | write fh offset data kill =>
    by_cases hino : i = fh
    · subst hino
      obtain ⟨hmode, hattr⟩ := (effect_write h).2 (by simpa [Drops] using hdrops)
      exact hboth ⟨hmode, congrFun hattr _⟩
    · obtain ⟨row, -, -, rfl⟩ := h
      exact hboth (keepsPrivileges_of_own (Db.own_writeEffect_of_ne hino))
  | mkdir parent name mode =>
    obtain ⟨n, -, hfree, -, rfl⟩ := h
    exact hboth (keepsPrivileges_of_touched (Db.own_addChild_of_ne hfree hfresh))
  | create parent name mode =>
    obtain ⟨n, -, hfree, -, rfl⟩ := h
    exact hboth (keepsPrivileges_of_touched (Db.own_addChild_of_ne hfree hfresh))
  | symlink parent linkName target =>
    obtain ⟨t, -, n, -, hfree, -, rfl⟩ := h
    exact hboth (keepsPrivileges_of_touched (Db.own_addChild_of_ne hfree hfresh))
  | link ino newparent newname =>
    obtain ⟨n, -, -, -, rfl⟩ := h
    have hname : KeepsPrivileges i db (db.addName now newparent n ino) :=
      @keepsPrivileges_updateInode { db with dentries := db.dentries.insert (newparent, n) ino }
        i _ _ fun _ => rfl
    exact hboth (hname.trans (keepsPrivileges_updateInode fun _ => rfl))
  | unlink parent name =>
    obtain ⟨n, ino, -, hino, rfl⟩ := h
    exact hboth (keepsPrivileges_dropName hino hi')
  | rmdir parent name =>
    obtain ⟨n, ino, -, hino, -, -, rfl⟩ := h
    exact hboth (keepsPrivileges_dropName hino hi')
  | rename parent name newparent newname flags =>
    cases h with
    | sameName =>
      have hold : KeepsPrivileges i db (db.touch now parent) :=
        keepsPrivileges_updateInode fun _ => rfl
      exact hboth (hold.trans (keepsPrivileges_updateInode fun _ => rfl))
    | freeName => exact hboth keepsPrivileges_moveName
    | @replaced n n' ino existing _ _ _ _ _ _ hexisting =>
      rw [← Db.core_ne_none_iff, Db.core_moveName, Db.core_ne_none_iff] at hi'
      exact hboth ((keepsPrivileges_dropName hexisting hi').trans keepsPrivileges_moveName)
  | setxattr ino name value flags =>
    obtain ⟨n, x, hn, -, -, -, -, hx, -, -, rfl⟩ := h
    refine ⟨fun _ => Db.mode_updateInode fun _ => rfl, fun hsets => ?_⟩
    refine (Db.attr_insert hx).trans (if_neg fun heq => hsets ?_)
    obtain ⟨rfl, rfl⟩ := Prod.mk.inj heq
    exact ⟨rfl, hn⟩
  | removexattr ino name =>
    obtain ⟨n, x, hn, hx, -, rfl⟩ := h
    refine ⟨fun _ => Db.mode_updateInode fun _ => rfl, fun hsets => ?_⟩
    refine (Db.attr_erase hx).trans (if_neg fun heq => hsets ?_)
    obtain ⟨rfl, rfl⟩ := Prod.mk.inj heq
    exact ⟨rfl, hn⟩
  | _ =>
    obtain rfl : db' = db := h
    exact hboth ⟨rfl, rfl⟩

/-- A step drops privileges exactly when it must. -/
structure PrivilegesRight (env : Env) (req : Request) (db : Db) : Prop where
  dropped : ∀ a, (step env req db).1 = .ok a → ∀ i, Drops db i req →
    Dropped i db (step env req db).2
  kept : ∀ i ∈ db.inodes, i ∈ (step env req db).2.inodes → ¬ Drops db i req →
    (¬ SetsMode i req → (step env req db).2.mode i = db.mode i) ∧
      (¬ SetsCapability i req → (step env req db).2.capability i = db.capability i)

/-- **Privileges are dropped exactly when they must be**, in every state and whatever fails. -/
theorem privileges_right (env : Env) (req : Request) (db : Db) : PrivilegesRight env req db where
  dropped a ha i hdrops := by
    have heffect : Effect env.mount env.now req db (step env req db).2 := by
      rcases step_effect env req db with ⟨⟨e, he⟩, -⟩ | heffect
      · rw [ha] at he
        cases he
      · exact heffect
    cases req with
    | setattr caller ino attrs =>
      obtain rfl := hdrops.1
      exact (effect_setattr heffect).1 hdrops
    | write fh offset data kill =>
      obtain ⟨rfl, hkill⟩ := hdrops
      exact (effect_write heffect).1 hkill
    | _ => exact hdrops.elim
  kept i hi hi' hdrops := by
    rcases step_cases env req db with hsame | heffect
    · rw [hsame]
      exact ⟨fun _ => rfl, fun _ => rfl⟩
    · exact heffect.keepsPrivileges hi hi' hdrops

end CofferFS
