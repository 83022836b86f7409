import CofferFS.Requests

/-!
# What a request does when it succeeds

`Effect m now req db db'` states the complete effect of a request on the tables, with no mention
of statements, transactions or failures. `step_effect` connects it to the callbacks: whatever
fails, a step either leaves the tables alone or has the complete effect, and a step that is
answered has the effect.
-/

namespace CofferFS

open Script

namespace Db

/-! ## The compound changes -/

/-- A row appears under the next number. -/
def addInode (r : Inode) (db : Db) : Db :=
  { db with inodes := db.inodes.insert db.nextIno r, seq := db.nextIno }

/-- A name appears, and the directory that holds it is touched. -/
def addName (now : F64) (parent : Ino) (name : String) (ino : Ino) (db : Db) : Db :=
  { db with dentries := db.dentries.insert (parent, name) ino }.touch now parent

/-- An inode appears together with its name. -/
def addChild (now : F64) (parent : Ino) (name : String) (r : Inode) (db : Db) : Db :=
  (db.addInode r).addName now parent name db.nextIno

/-- The row of a new inode. -/
def newInode (now : F64) (kind : Kind) (mode : BitVec 64) (uid gid : UInt32)
    (symlinkTarget : Option String) : Inode :=
  { kind, mode, uid, gid
    size := (symlinkTarget.map fun s => asI64 s.utf8ByteSize).getD 0
    atime := now, mtime := now, ctime := now, symlinkTarget }

/-- An inode goes, with everything it owns. -/
def dropInode (ino : Ino) (db : Db) : Db :=
  { db with
    inodes := db.inodes.erase ino
    data := db.data.filter fun k _ => k.1 ≠ ino
    xattrs := db.xattrs.map fun x => x.filter fun k _ => k.1 ≠ ino }

/-- A name goes, and its inode with it if it was the last one. -/
def dropName (now : F64) (parent : Ino) (name : String) (ino : Ino) (db : Db) : Db :=
  (if (db.deleteDentry parent name).nameCount ino = 0 then
    (db.deleteDentry parent name).dropInode ino
  else (db.deleteDentry parent name).setCtime now ino).touch now parent

/-- A name becomes another name; both directories are touched. -/
def moveName (now : F64) (old new : Ino × String) (ino : Ino) (db : Db) : Db :=
  ({ db with dentries := (db.dentries.erase old).insert new ino }.touch now old.1).touch now new.1

/-- The setuid bit, the setgid bit of a group-executable file and the file capabilities go. -/
def dropPrivileges (ino : Ino) (db : Db) : Db :=
  { (db.clearSuid ino).clearSgid ino with
    xattrs := db.xattrs.map fun x => x.erase (ino, "security.capability") }

/-- The privileges of an inode go if they have to. -/
def killIf (kill : Bool) (ino : Ino) (db : Db) : Db := if kill then db.dropPrivileges ino else db

/-- The content of an inode is cut to a length. -/
def truncate (now : F64) (ino : Ino) (length : ℕ) (db : Db) : Db :=
  let above := db.deleteBlocksAbove ino (length / blockSize)
  (if 0 < length % blockSize then
    above.putBlock ino (length / blockSize)
      ((above.block ino (length / blockSize)).take (length % blockSize))
  else above.deleteBlock ino (length / blockSize)).setSize (asI64 length) now ino

/-- `if let Some(m) = mode` -/
def chmod (now : F64) (ino : Ino) (row : InodeRow) (mode : Option (BitVec 32)) (db : Db) : Db :=
  match mode with
  | some m => db.setMode (newMode row.mode m) now ino
  | none => db

/-- `if uid.is_some() || gid.is_some()` -/
def chown (now : F64) (ino : Ino) (row : InodeRow) (uid gid : Option UInt32) (db : Db) : Db :=
  if uid.isSome ∨ gid.isSome then db.setOwner (uid.getD row.uid) (gid.getD row.gid) now ino else db

/-- `if let Some(new_len) = size` -/
def resize (now : F64) (ino : Ino) (size : Option ℕ) (db : Db) : Db :=
  match size with
  | some newLen => db.truncate now ino newLen
  | none => db

/-- `if atime.is_some() || mtime.is_some()` -/
def utimens (now : F64) (ino : Ino) (row : InodeRow) (atime mtime : Option TimeOrNow) (db : Db) :
    Db :=
  if atime.isSome ∨ mtime.isSome then
    db.setTimes ((timeOrNowToSecs now atime).getD row.atime)
      ((timeOrNowToSecs now mtime).getD row.mtime) ino
  else db

/-- The blocks of an inode after `data` is written at `pos`. -/
def writeBlocks (ino : Ino) (pos : ℕ) (data : List UInt8) (db : Db) : Db :=
  if data = [] then db
  else
    writeBlocks ino (pos + chunkLen pos data.length) (data.drop (chunkLen pos data.length))
      (db.putBlock ino (pos / blockSize)
        (overlay (db.block ino (pos / blockSize)) (pos % blockSize)
          (data.take (chunkLen pos data.length))))
termination_by data.length
decreasing_by
  have h : data ≠ [] := by assumption
  have hlen := List.length_pos_iff.2 h
  have hpos := chunkLen_pos pos hlen
  rw [List.length_drop]
  omega

end Db

/-! ## The effect of a request -/

/-- The attributes of a `setattr`, applied one after the other. -/
def SetAttr.apply (a : SetAttr) (now : F64) (caller : UInt32) (ino : Ino) (row : Db.InodeRow)
    (db : Db) : Db :=
  ((((db.chmod now ino row a.mode).chown now ino row a.uid a.gid).resize now ino a.size).utimens
    now ino row a.atime a.mtime).killIf (setattrKills caller row.kind a) ino

/-- The size of a file after a write, as the code calculates it. -/
def writtenSize (row : Db.InodeRow) (offset : ℕ) (data : List UInt8) : ℕ :=
  max row.size (addU64 offset data.length)

/-- The rows and blocks after an accepted write. -/
def writeEffect (now : F64) (fh : Ino) (offset : ℕ) (data : List UInt8) (kill : Bool)
    (row : Db.InodeRow) (db : Db) : Db :=
  ((db.writeBlocks fh offset data).setSize (asI64 (writtenSize row offset data)) now fh).killIf
    kill fh

/-- A new inode appears under a free name. -/
def ChildEffect (now : F64) (parent : Ino) (name : OsStr) (r : Inode) (db db' : Db) : Prop :=
  ∃ n, name.toStr = some n ∧ db.childIno parent n = none ∧ db.nextIno ≤ i64Max ∧
    db' = db.addChild now parent n r

/-- An inode may be deleted: it is not a directory, or an empty one. -/
def Db.Removable (db : Db) (ino : Ino) : Prop :=
  ∃ r, db.inodes.lookup ino = some r ∧ (r.kind = .dir → db.hasChildren ino = false)

/-- What an accepted `rename` does, by what the new name was. Two names of the same inode are not
among the cases: there the primary key refuses the update. -/
inductive RenameEffect (now : F64) (parent : Ino) (name : OsStr) (newparent : Ino)
    (newname : OsStr) (flags : RenameFlags) (db : Db) : Db → Prop
  | sameName {n n' : String} {ino : Ino} : name.toStr = some n → newname.toStr = some n' →
      db.childIno parent n = some ino → flags.exchange = false → flags.whiteout = false →
      flags.noreplace = false → (parent, n) = (newparent, n') →
      RenameEffect now parent name newparent newname flags db
        ((db.touch now parent).touch now newparent)
  | freeName {n n' : String} {ino : Ino} : name.toStr = some n → newname.toStr = some n' →
      db.childIno parent n = some ino → flags.exchange = false → flags.whiteout = false →
      db.childIno newparent n' = none →
      RenameEffect now parent name newparent newname flags db
        (db.moveName now (parent, n) (newparent, n') ino)
  | replaced {n n' : String} {ino existing : Ino} : name.toStr = some n →
      newname.toStr = some n' → db.childIno parent n = some ino → flags.exchange = false →
      flags.whiteout = false → flags.noreplace = false →
      db.childIno newparent n' = some existing → existing ≠ ino → db.Removable existing →
      RenameEffect now parent name newparent newname flags db
        ((db.dropName now newparent n' existing).moveName now (parent, n) (newparent, n') ino)

/-- The complete effect of a request. -/
def Effect (m : Mount) (now : F64) : Request → Db → Db → Prop
  | .setattr caller ino a, db, db' => ∃ row, db.rowByIno ino = some row ∧
      (∀ n, a.size = some n → n ≤ maxFileSize) ∧ db' = a.apply now caller ino row db
  | .mkdir parent name mode, db, db' =>
      ChildEffect now parent name
        (Db.newInode now .dir (fileMode sIfDir mode) m.uid m.gid none) db db'
  | .create parent name mode, db, db' =>
      ChildEffect now parent name
        (Db.newInode now .file (fileMode sIfReg mode) m.uid m.gid none) db db'
  | .symlink parent linkName target, db, db' => ∃ t, target.toStr = some t ∧
      ChildEffect now parent linkName
        (Db.newInode now .symlink (sIfLnk ||| 0o777) m.uid m.gid (some t)) db db'
  | .link ino newparent newname, db, db' => ∃ n, newname.toStr = some n ∧ db.IsLeaf ino ∧
      db.childIno newparent n = none ∧ db' = (db.addName now newparent n ino).setCtime now ino
  | .unlink parent name, db, db' => ∃ n ino, name.toStr = some n ∧
      db.childIno parent n = some ino ∧ db' = db.dropName now parent n ino
  | .rmdir parent name, db, db' => ∃ n ino, name.toStr = some n ∧
      db.childIno parent n = some ino ∧ ino ≠ rootIno ∧ db.Removable ino ∧
      db' = db.dropName now parent n ino
  | .rename parent name newparent newname flags, db, db' =>
      RenameEffect now parent name newparent newname flags db db'
  | .write fh offset data kill, db, db' => ∃ row, db.rowByIno fh = some row ∧
      offset + data.length ≤ maxFileSize ∧ db' = writeEffect now fh offset data kill row db
  | .setxattr ino name value flags, db, db' => ∃ n x, name.toStr = some n ∧ n.isEmpty = false ∧
      n.utf8ByteSize ≤ xattrNameMax ∧ value.length ≤ xattrSizeMax ∧ ino ∈ db.inodes ∧
      db.xattrs = some x ∧ (flags.create = true → x.lookup (ino, n) = none) ∧
      (flags.replace = true → x.lookup (ino, n) ≠ none) ∧
      db' = { db with xattrs := some (x.insert (ino, n) value) }.setCtime now ino
  | .removexattr ino name, db, db' => ∃ n x, name.toStr = some n ∧ db.xattrs = some x ∧
      (ino, n) ∈ x ∧ db' = { db with xattrs := some (x.erase (ino, n)) }.setCtime now ino
  | _, db, db' => db' = db

/-! ## What the helpers do when they succeed -/

section Helpers

variable {db db' : Db} {now : F64} {ino parent : Ino} {name : String} {u : Unit}

theorem yields_rowByIno_ok {o : Option Db.InodeRow} :
    (rowByIno ino).Yields db (.ok o) db' ↔ o = db.rowByIno ino ∧ db' = db := by
  simp [rowByIno, eq_comm]

theorem yields_childIno_ok {o : Option Ino} :
    (childIno parent name).Yields db (.ok o) db' ↔ o = db.childIno parent name ∧ db' = db := by
  simp [childIno, eq_comm]

theorem readOnly_rowByIno : (rowByIno ino).ReadOnly := readOnly_query _

theorem readOnly_childIno : (childIno parent name).ReadOnly := readOnly_query _

theorem readOnly_readBack : (readBack ino).ReadOnly :=
  readOnly_bind (readOnly_orEio readOnly_rowByIno) fun _ =>
    readOnly_bind (readOnly_orRefuse _ _) fun _ => readOnly_orPanic _

theorem linkDentry_ok (h : (linkDentry parent name ino now).Yields db (.ok u) db') :
    db.childIno parent name = none ∧ db' = db.addName now parent name ino := by
  obtain ⟨_, t, hins, htouch⟩ := h.bind_ok
  rw [yields_exec_ok, Db.insertDentry] at hins
  split at hins
  · rename_i dentries hnew
    cases hins
    obtain ⟨hfree, rfl⟩ := AList.insertNew_eq_some_iff.1 hnew
    have h := yields_update_ok.1 htouch
    exact ⟨hfree, h⟩
  · cases hins

theorem insertChild_ok {kind : Kind} {mode : BitVec 64} {uid gid : UInt32} {target : Option String}
    {i : Ino}
    (h : (insertChild now parent name kind mode uid gid target).Yields db (.ok i) db') :
    i = db.nextIno ∧ db.nextIno ≤ i64Max ∧ db.childIno parent name = none ∧
      db' = db.addChild now parent name (Db.newInode now kind mode uid gid target) := by
  obtain ⟨i', t, hins, h⟩ := h.bind_ok
  obtain ⟨_, t', hlink, hpure⟩ := h.bind_ok
  rw [yields_exec_ok, Db.insertInode] at hins
  split at hins
  · rename_i hmax
    cases hins
    obtain ⟨hfree, rfl⟩ := linkDentry_ok hlink
    obtain ⟨hi, rfl⟩ := yields_pure.1 hpure
    cases hi
    exact ⟨rfl, hmax, hfree, rfl⟩
  · cases hins

theorem deleteXattrs_ok (h : Db.deleteXattrs ino db = .ok (u, db')) :
    ∃ x, db.xattrs = some x ∧
      db' = { db with xattrs := some (x.filter fun k _ => k.1 ≠ ino) } := by
  rw [Db.deleteXattrs, Db.onXattrs] at h
  split at h
  · rename_i x hx
    cases h
    exact ⟨x, hx, rfl⟩
  · cases h

theorem deleteInode_ok (h : (deleteInode ino).Yields db (.ok u) db') :
    db' = db.dropInode ino := by
  obtain ⟨_, t, hdata, h⟩ := h.bind_ok
  obtain ⟨_, t', hx, hrow⟩ := h.bind_ok
  obtain rfl := yields_update_ok.1 hdata
  obtain ⟨x, hxs, rfl⟩ := deleteXattrs_ok (yields_exec_ok.1 hx)
  have hxs' : db.xattrs = some x := hxs
  rw [yields_exec_ok, Db.deleteInodeRow] at hrow
  split at hrow
  · -- the trigger finds nothing left to delete
    obtain ⟨y, hy, rfl⟩ := deleteXattrs_ok hrow
    have hyx : y = x.filter fun k _ => k.1 ≠ ino := by simpa using hy.symm
    simp [hyx, Db.dropInode, Db.deleteData, hxs']
  · cases hrow
    simp [Db.dropInode, Db.deleteData, hxs']

theorem unlinkDentry_ok (h : (unlinkDentry parent name ino now).Yields db (.ok u) db') :
    db' = db.dropName now parent name ino := by
  obtain ⟨_, t, hdel, h⟩ := h.bind_ok
  obtain ⟨remaining, t', hcount, h⟩ := h.bind_ok
  obtain ⟨_, t'', hgo, htouch⟩ := h.bind_ok
  obtain rfl := yields_update_ok.1 hdel
  obtain ⟨hremaining, rfl⟩ := yields_query_ok.1 hcount
  cases hremaining
  obtain rfl := yields_update_ok.1 htouch
  unfold Db.dropName
  split_ifs at hgo ⊢
  · rw [deleteInode_ok hgo]
  · rw [yields_update_ok.1 hgo]

theorem readOnly_ensureRemovable : (ensureRemovable ino).ReadOnly := by
  refine readOnly_bind (readOnly_orEio (readOnly_query _)) fun kind => ?_
  split_ifs
  · exact readOnly_bind (readOnly_orEio (readOnly_query _)) fun _ => readOnly_refuseIf _ _
  · exact readOnly_pure ()

theorem ensureRemovable_ok (h : (ensureRemovable ino).Yields db (.ok u) db') :
    db.Removable ino := by
  obtain ⟨kind, hkind, h⟩ := h.after (readOnly_orEio (readOnly_query _))
  have hkind := (yields_query_ok.1 (yields_orEio_ok.1 hkind)).1
  rw [Db.kindOf] at hkind
  split at hkind
  · rename_i r hr
    cases hkind
    refine ⟨r, hr, fun hdir => ?_⟩
    rw [if_pos hdir] at h
    obtain ⟨nonempty, hchildren, h⟩ := h.after (readOnly_orEio (readOnly_query _))
    have hchildren := (yields_query_ok.1 (yields_orEio_ok.1 hchildren)).1
    rw [Except.ok.inj hchildren]
    exact (yields_refuseIf_ok.1 h).1
  · cases hkind

theorem killPriv_ok (h : (killPriv ino).Yields db (.ok u) db') : db' = db.dropPrivileges ino := by
  obtain ⟨_, t, hsuid, h⟩ := h.bind_ok
  obtain ⟨_, t', hsgid, h⟩ := h.bind_ok
  obtain ⟨_, t'', hx, hpure⟩ := h.bind_ok
  obtain rfl := yields_update_ok.1 hsuid
  obtain rfl := yields_update_ok.1 hsgid
  obtain ⟨-, rfl⟩ := yields_pure.1 hpure
  rw [yields_exec_ok, Db.deleteXattr, Db.onXattrs] at hx
  split at hx
  · rename_i x hxs
    have hxs' : db.xattrs = some x := hxs
    cases hx
    simp [Db.dropPrivileges, hxs']
  · cases hx

theorem truncateInode_ok {length : ℕ} (h : (truncateInode now ino length).Yields db (.ok u) db') :
    db' = db.truncate now ino length := by
  obtain ⟨_, t, habove, h⟩ := h.bind_ok
  obtain ⟨_, t', hlast, hsize⟩ := h.bind_ok
  obtain rfl := yields_update_ok.1 habove
  obtain rfl := yields_update_ok.1 hsize
  unfold Db.truncate
  split_ifs at hlast ⊢
  · obtain ⟨block, t, hblock, hput⟩ := hlast.bind_ok
    obtain ⟨heq, rfl⟩ := yields_query_ok.1 hblock
    cases heq
    rw [yields_update_ok.1 hput]
  · rw [yields_update_ok.1 hlast]

theorem writeLoop_ok {pos : ℕ} {data : List UInt8}
    (h : (writeLoop ino pos data).Yields db (.ok u) db') : db' = db.writeBlocks ino pos data := by
  fun_induction Db.writeBlocks ino pos data db with
  | case1 pos db =>
    rw [writeLoop, if_pos rfl] at h
    exact (yields_pure.1 h).2
  | case2 pos data db hdata ih =>
    rw [writeLoop, if_neg hdata] at h
    obtain ⟨buf, t, hget, h⟩ := h.bind_ok
    obtain ⟨_, t', hput, h⟩ := h.bind_ok
    obtain ⟨heq, rfl⟩ := yields_query_ok.1 (yields_orEio_ok.1 hget)
    cases heq
    obtain rfl := yields_update_ok.1 (yields_orErrno_ok.1 hput)
    exact ih h

theorem readOnly_currentTotalSize : currentTotalSize.ReadOnly := readOnly_query _

theorem readOnly_checkCeiling (m : Mount) (increase : ℕ) : (checkCeiling m increase).ReadOnly := by
  refine readOnly_bind (readOnly_attempt readOnly_currentTotalSize) fun used => ?_
  cases used with
  | ok used => exact readOnly_refuseIf _ _
  | error e => exact readOnly_pure ()

theorem readOnly_checkGrowth (m : Mount) (oldSize newSize : ℕ) :
    (checkGrowth m oldSize newSize).ReadOnly := by
  unfold checkGrowth
  split_ifs
  · exact readOnly_checkCeiling m _
  · exact readOnly_pure ()

theorem readOnly_checkTarget (m : Mount) (length : ℕ) : (checkTarget m length).ReadOnly := by
  unfold checkTarget
  split_ifs
  · exact readOnly_checkCeiling m _
  · exact readOnly_pure ()

theorem readOnly_checkFull (m : Mount) : (checkFull m).ReadOnly := by
  unfold checkFull
  split_ifs
  · refine readOnly_bind (readOnly_attempt readOnly_currentTotalSize) fun used => ?_
    cases used with
    | ok used => exact readOnly_refuseIf _ _
    | error e => exact readOnly_pure ()
  · exact readOnly_pure ()

end Helpers

/-! ## What the transactions do when they succeed -/

section Transactions

variable {m : Mount} {db db' : Db} {now : F64} {ino parent newparent : Ino} {name newname : String}
  {u : Unit}

section Setattr

variable {row : Db.InodeRow}

theorem applyMode_ok {mode : Option (BitVec 32)}
    (h : (applyMode now ino row mode).Yields db (.ok u) db') : db' = db.chmod now ino row mode := by
  cases mode with
  | none => exact (yields_pure.1 h).2
  | some m => exact yields_update_ok.1 h

theorem applyOwner_ok {uid gid : Option UInt32}
    (h : (applyOwner now ino row uid gid).Yields db (.ok u) db') :
    db' = db.chown now ino row uid gid := by
  unfold applyOwner at h
  unfold Db.chown
  split_ifs at h ⊢
  · exact yields_update_ok.1 h
  · exact (yields_pure.1 h).2

theorem applySize_ok {size : Option ℕ} (h : (applySize m now ino row size).Yields db (.ok true) db') :
    (∀ n, size = some n → n ≤ maxFileSize) ∧ db' = db.resize now ino size := by
  cases size with
  | none =>
    refine ⟨fun n hn => ?_, (yields_pure.1 h).2⟩
    cases hn
  | some newLen =>
    obtain ⟨_, hmax, h⟩ := h.after (readOnly_refuseIf _ _)
    obtain ⟨_, -, h⟩ := h.after (readOnly_checkGrowth m _ _)
    have hmax := (yields_refuseIf_ok.1 hmax).1
    obtain ⟨_, h⟩ := h.succeeds_true
    refine ⟨fun n hn => ?_, truncateInode_ok h⟩
    cases hn
    simpa using hmax

theorem applyTimes_ok {atime mtime : Option TimeOrNow}
    (h : (applyTimes now ino row atime mtime).Yields db (.ok u) db') :
    db' = db.utimens now ino row atime mtime := by
  unfold applyTimes at h
  unfold Db.utimens
  split_ifs at h ⊢
  · exact yields_update_ok.1 h
  · exact (yields_pure.1 h).2

theorem killIf_ok {kill : Bool} {p : Sql Unit}
    (hp : ∀ {u : Unit} {db db'}, p.Yields db (.ok u) db' → db' = db.dropPrivileges ino)
    (h : (if kill then p else pure ()).Yields db (.ok u) db') : db' = db.killIf kill ino := by
  unfold Db.killIf
  split_ifs at h ⊢
  · exact hp h
  · exact (yields_pure.1 h).2

theorem setattrTx_ok {caller : UInt32} {a : SetAttr}
    (h : (setattrTx m now caller ino a).Yields db (.ok u) db') :
    Effect m now (.setattr caller ino a) db db' := by
  obtain ⟨row, hrow, h⟩ := h.after (readOnly_orEio readOnly_rowByIno)
  have hrow := (yields_rowByIno_ok.1 (yields_orEio_ok.1 hrow)).1
  obtain ⟨row', hsome, h⟩ := h.after (readOnly_orRefuse _ _)
  have hsome := (yields_orRefuse_ok.1 hsome).1
  obtain ⟨okMode, t₁, hmode, h⟩ := h.bind_ok
  obtain ⟨okOwner, t₂, howner, h⟩ := h.bind_ok
  obtain ⟨okSize, t₃, hsize, h⟩ := h.bind_ok
  obtain ⟨okTimes, t₄, htimes, h⟩ := h.bind_ok
  obtain ⟨okKill, t₅, hkill, h⟩ := h.bind_ok
  obtain ⟨hall, rfl⟩ := yields_refuseIf_ok.1 h
  -- none of the accumulated flags is false
  simp only [Bool.not_eq_false', Bool.and_eq_true] at hall
  obtain ⟨⟨⟨⟨rfl, rfl⟩, rfl⟩, rfl⟩, rfl⟩ := hall
  obtain ⟨_, hmode⟩ := hmode.succeeds_true
  obtain ⟨_, howner⟩ := howner.succeeds_true
  obtain ⟨hmax, hsize⟩ := applySize_ok hsize
  obtain ⟨_, htimes⟩ := htimes.succeeds_true
  obtain ⟨_, hkill⟩ := hkill.succeeds_true
  refine ⟨row', hrow.symm.trans hsome, hmax, ?_⟩
  rw [killIf_ok killPriv_ok hkill, applyTimes_ok htimes, hsize, applyOwner_ok howner,
    applyMode_ok hmode]
  rfl

end Setattr

theorem mkdirTx_ok {mode : BitVec 32} {i : Ino}
    (h : (mkdirTx m now parent name mode).Yields db (.ok i) db') :
    i = db.nextIno ∧ db.nextIno ≤ i64Max ∧ db.childIno parent name = none ∧
      db' = db.addChild now parent name
        (Db.newInode now .dir (fileMode sIfDir mode) m.uid m.gid none) := by
  obtain ⟨existing, -, h⟩ := h.after (readOnly_orEio readOnly_childIno)
  obtain ⟨_, -, h⟩ := h.after (readOnly_refuseIf _ _)
  exact insertChild_ok (yields_orEio_ok.1 h)

theorem createTx_ok {mode : BitVec 32} {i : Ino}
    (h : (createTx m now parent name mode).Yields db (.ok i) db') :
    i = db.nextIno ∧ db.nextIno ≤ i64Max ∧ db.childIno parent name = none ∧
      db' = db.addChild now parent name
        (Db.newInode now .file (fileMode sIfReg mode) m.uid m.gid none) := by
  obtain ⟨existing, -, h⟩ := h.after (readOnly_orEio readOnly_childIno)
  obtain ⟨_, -, h⟩ := h.after (readOnly_refuseIf _ _)
  obtain ⟨_, -, h⟩ := h.after (readOnly_checkFull m)
  exact insertChild_ok (yields_orErrno_ok.1 h)

theorem symlinkTx_ok {target : String} {i : Ino}
    (h : (symlinkTx m now parent name target).Yields db (.ok i) db') :
    i = db.nextIno ∧ db.nextIno ≤ i64Max ∧ db.childIno parent name = none ∧
      db' = db.addChild now parent name
        (Db.newInode now .symlink (sIfLnk ||| 0o777) m.uid m.gid (some target)) := by
  obtain ⟨existing, -, h⟩ := h.after (readOnly_attempt readOnly_childIno)
  obtain ⟨_, -, h⟩ := h.after (readOnly_refuseIf _ _)
  obtain ⟨_, -, h⟩ := h.after (readOnly_checkTarget m _)
  exact insertChild_ok (yields_orEio_ok.1 h)

theorem replaceTarget_ok {target : Option Ino}
    (h : (replaceTarget now newparent newname ino target).Yields db (.ok u) db') :
    (∃ existing, target = some existing ∧ existing ≠ ino ∧ db.Removable existing ∧
        db' = db.dropName now newparent newname existing) ∨
      (∀ existing, target = some existing → existing = ino) ∧ db' = db := by
  cases target with
  | none =>
    refine Or.inr ⟨fun existing hex => ?_, (yields_pure.1 h).2⟩
    cases hex
  | some existing =>
    unfold replaceTarget at h
    by_cases hne : existing = ino
    · simp only [hne, ne_eq, not_true_eq_false, if_false] at h
      refine Or.inr ⟨fun e he => ?_, (yields_pure.1 h).2⟩
      rw [← hne, ← Option.some.inj he]
    · simp only [ne_eq, hne, not_false_eq_true, if_true] at h
      obtain ⟨_, hremovable, h⟩ := h.after readOnly_ensureRemovable
      have hremovable := ensureRemovable_ok hremovable
      exact Or.inl ⟨existing, rfl, hne, hremovable, unlinkDentry_ok (yields_orEio_ok.1 h)⟩

theorem Db.dropName_dentries (db : Db) (now : F64) (parent : Ino) (name : String) (ino : Ino) :
    (db.dropName now parent name ino).dentries = db.dentries.erase (parent, name) := by
  unfold Db.dropName
  split_ifs <;> rfl

theorem Db.dropName_lookup_self (db : Db) (now : F64) (parent : Ino) (name : String) (ino : Ino) :
    (db.dropName now parent name ino).dentries.lookup (parent, name) = none := by
  rw [dropName_dentries, AList.lookup_erase]

/-- Names of two inodes are two names. -/
theorem Db.name_ne {old new : Ino × String} {existing : Ino}
    (hold : db.dentries.lookup old = some ino) (hnew : db.dentries.lookup new = some existing)
    (hne : existing ≠ ino) : old ≠ new := by
  rintro rfl
  exact hne (Option.some.inj (hnew.symm.trans hold))

/-- A name stays when a name of another inode goes. -/
theorem Db.dropName_lookup_other {k : Ino × String} {existing : Ino}
    (hold : db.dentries.lookup k = some ino)
    (hnew : db.dentries.lookup (parent, name) = some existing) (hne : existing ≠ ino) :
    (db.dropName now parent name existing).dentries.lookup k = some ino := by
  rw [dropName_dentries, AList.lookup_erase_ne (name_ne hold hnew hne)]
  exact hold

theorem renameDentry_ok {old new : Ino × String} (hold : db.dentries.lookup old = some ino)
    (h : Db.renameDentry old new db = .ok (u, db')) :
    (old = new ∧ db' = db) ∨ (old ≠ new ∧ db.dentries.lookup new = none ∧
      db' = { db with dentries := (db.dentries.erase old).insert new ino }) := by
  rw [Db.renameDentry] at h
  split at h
  · rename_i dentries hrekey
    cases h
    rcases (AList.rekey_eq_some_iff hold).1 hrekey with ⟨heq, rfl⟩ | ⟨hne, hfree, rfl⟩
    · exact Or.inl ⟨heq, rfl⟩
    · exact Or.inr ⟨hne, hfree, rfl⟩
  · cases h

theorem renameTx_ok {name newname : OsStr} {n n' : String} {flags : RenameFlags}
    (hname : name.toStr = some n) (hnewname : newname.toStr = some n')
    (h : (renameTx now parent n newparent n' flags).Yields db (.ok u) db') :
    RenameEffect now parent name newparent newname flags db db' := by
  obtain ⟨o, hchild, h⟩ := h.after (readOnly_orEio readOnly_childIno)
  have hchild := (yields_childIno_ok.1 (yields_orEio_ok.1 hchild)).1
  obtain ⟨ino, hsome, h⟩ := h.after (readOnly_orRefuse _ _)
  have hsome := (yields_orRefuse_ok.1 hsome).1
  obtain ⟨target, htarget, h⟩ := h.after (readOnly_orEio readOnly_childIno)
  have htarget := (yields_childIno_ok.1 (yields_orEio_ok.1 htarget)).1
  obtain ⟨_, hflags, h⟩ := h.after (readOnly_refuseIf _ _)
  have hflags := (yields_refuseIf_ok.1 hflags).1
  obtain ⟨_, hnoreplace, h⟩ := h.after (readOnly_refuseIf _ _)
  have hnoreplace := (yields_refuseIf_ok.1 hnoreplace).1
  obtain ⟨_, t₁, hreplace, h⟩ := h.bind_ok
  obtain ⟨_, t₂, hrename, htouch⟩ := h.bind_ok
  have hrename := yields_exec_ok.1 (yields_orEio_ok.1 hrename)
  obtain rfl := yields_update_ok.1 (yields_orEio_ok.1 htouch)
  have hold : db.childIno parent n = some ino := hchild.symm.trans hsome
  obtain ⟨hexchange, hwhiteout⟩ := Bool.or_eq_false_iff.1 hflags
  rcases replaceTarget_ok hreplace with ⟨existing, rfl, hne, hremovable, rfl⟩ | ⟨hsame, rfl⟩
  · -- another inode had the new name
    have hold' : (db.dropName now newparent n' existing).dentries.lookup (parent, n) = some ino :=
      Db.dropName_lookup_other hold htarget.symm hne
    have hnr : flags.noreplace = false := by simpa using hnoreplace
    rcases renameDentry_ok hold' hrename with ⟨heq, -⟩ | ⟨-, -, rfl⟩
    · rw [heq, Db.dropName_lookup_self] at hold'
      cases hold'
    · exact .replaced hname hnewname hold hexchange hwhiteout hnr htarget.symm hne hremovable
  · rcases renameDentry_ok hold hrename with ⟨heq, rfl⟩ | ⟨hne, hfree, rfl⟩
    · -- the name is renamed to itself
      have htarget' : target = some ino := by
        rw [htarget, Db.childIno, ← heq]
        exact hold
      have hnr : flags.noreplace = false := by simpa [htarget'] using hnoreplace
      exact .sameName hname hnewname hold hexchange hwhiteout hnr heq
    · exact .freeName hname hnewname hold hexchange hwhiteout hfree

theorem readBack_store {ino : Ino} {attr : FileAttr}
    (h : (readBack ino).Yields db (.ok attr) db') : db' = db :=
  readOnly_readBack _ _ _ h

theorem linkTx_ok {newname : OsStr} {n : String} {attr : FileAttr}
    (hname : newname.toStr = some n)
    (h : (linkTx now ino newparent n).Yields db (.ok attr) db') :
    Effect m now (.link ino newparent newname) db db' := by
  obtain ⟨o, hrow, h⟩ := h.after (readOnly_orEio readOnly_rowByIno)
  have hrow := (yields_rowByIno_ok.1 (yields_orEio_ok.1 hrow)).1
  obtain ⟨row, hsome, h⟩ := h.after (readOnly_orRefuse _ _)
  have hsome := (yields_orRefuse_ok.1 hsome).1
  obtain ⟨_, hkind, h⟩ := h.after (readOnly_refuseIf _ _)
  have hkind := (yields_refuseIf_ok.1 hkind).1
  obtain ⟨existing, -, h⟩ := h.after (readOnly_orEio readOnly_childIno)
  obtain ⟨_, -, h⟩ := h.after (readOnly_refuseIf _ _)
  obtain ⟨_, t₁, hlink, h⟩ := h.bind_ok
  obtain ⟨hfree, rfl⟩ := linkDentry_ok (yields_orEio_ok.1 hlink)
  obtain ⟨_, t₂, hctime, hback⟩ := h.bind_ok
  obtain rfl := readBack_store hback
  have hrow' : db.rowByIno ino = some row := hrow.symm.trans hsome
  obtain ⟨r, hr, rfl⟩ := Option.map_eq_some_iff.1 hrow'
  have hleaf : db.IsLeaf ino := ⟨r, hr, by simpa [Db.mapRow] using hkind⟩
  exact ⟨n, hname, hleaf, hfree, yields_update_ok.1 (yields_orEio_ok.1 hctime)⟩

theorem writeTx_ok {offset : ℕ} {data : List UInt8} {kill : Bool}
    (h : (writeTx m now ino offset data kill).Yields db (.ok u) db') :
    ∃ row, db.rowByIno ino = some row ∧ db' = writeEffect now ino offset data kill row db := by
  obtain ⟨o, hrow, h⟩ := h.after (readOnly_orEio readOnly_rowByIno)
  have hrow := (yields_rowByIno_ok.1 (yields_orEio_ok.1 hrow)).1
  obtain ⟨row, hsome, h⟩ := h.after (readOnly_orRefuse _ _)
  have hsome := (yields_orRefuse_ok.1 hsome).1
  obtain ⟨_, -, h⟩ := h.after (readOnly_checkGrowth m _ _)
  obtain ⟨_, t₁, hloop, h⟩ := h.bind_ok
  obtain ⟨_, t₂, hsize, hkill⟩ := h.bind_ok
  obtain rfl := writeLoop_ok hloop
  obtain rfl := yields_update_ok.1 (yields_orErrno_ok.1 hsize)
  refine ⟨row, hrow.symm.trans hsome, ?_⟩
  unfold writeEffect Db.killIf
  split_ifs at hkill ⊢
  · exact killPriv_ok (yields_orErrno_ok.1 hkill)
  · exact (yields_pure.1 hkill).2

theorem setxattrTx_ok {value : List UInt8} {flags : XattrFlags}
    (h : (setxattrTx now ino name value flags).Yields db (.ok u) db') :
    ∃ x, ino ∈ db.inodes ∧ db.xattrs = some x ∧
      (flags.create = true → x.lookup (ino, name) = none) ∧
      (flags.replace = true → x.lookup (ino, name) ≠ none) ∧
      db' = { db with xattrs := some (x.insert (ino, name) value) }.setCtime now ino := by
  obtain ⟨o, hrow, h⟩ := h.after (readOnly_orEio readOnly_rowByIno)
  have hrow := (yields_rowByIno_ok.1 (yields_orEio_ok.1 hrow)).1
  obtain ⟨row, hsome, h⟩ := h.after (readOnly_orRefuse _ _)
  have hsome := (yields_orRefuse_ok.1 hsome).1
  obtain ⟨existing, hexisting, h⟩ := h.after (readOnly_orEio (readOnly_query _))
  have hexisting := (yields_query_ok.1 (yields_orEio_ok.1 hexisting)).1
  obtain ⟨_, hcreate, h⟩ := h.after (readOnly_refuseIf _ _)
  have hcreate := (yields_refuseIf_ok.1 hcreate).1
  obtain ⟨_, hreplace, h⟩ := h.after (readOnly_refuseIf _ _)
  have hreplace := (yields_refuseIf_ok.1 hreplace).1
  obtain ⟨_, t, hput, hctime⟩ := h.bind_ok
  have hput := yields_exec_ok.1 (yields_orEio_ok.1 hput)
  obtain rfl := yields_update_ok.1 (yields_orEio_ok.1 hctime)
  obtain ⟨r, hr, -⟩ := Option.map_eq_some_iff.1 (hrow.symm.trans hsome)
  cases hx : db.xattrs with
  | none =>
    rw [Db.putXattr, Db.onXattrs, hx] at hput
    cases hput
  | some x =>
    rw [Db.putXattr, Db.onXattrs, hx] at hput
    rw [Db.xattr, hx] at hexisting
    cases hput
    cases hexisting
    refine ⟨x, AList.mem_of_lookup_eq_some hr, rfl, fun hc => ?_, fun hc => ?_, rfl⟩
    · simpa [hc] using hcreate
    · simpa [hc, ← Option.isSome_iff_ne_none] using hreplace

theorem removexattrTx_ok (h : (removexattrTx now ino name).Yields db (.ok u) db') :
    ∃ x, db.xattrs = some x ∧ (ino, name) ∈ x ∧
      db' = { db with xattrs := some (x.erase (ino, name)) }.setCtime now ino := by
  obtain ⟨removed, t, hremoved, h⟩ := h.bind_ok
  obtain ⟨_, hsome, h⟩ := h.after (readOnly_refuseIf _ _)
  have hsome := (yields_refuseIf_ok.1 hsome).1
  have hremoved := yields_exec_ok.1 (yields_orEio_ok.1 hremoved)
  obtain rfl := yields_update_ok.1 (yields_orEio_ok.1 h)
  cases hx : db.xattrs with
  | none =>
    rw [Db.deleteXattr, Db.onXattrs, hx] at hremoved
    cases hremoved
  | some x =>
    rw [Db.deleteXattr, Db.onXattrs, hx] at hremoved
    cases hremoved
    by_cases hmem : (ino, name) ∈ x
    · exact ⟨x, rfl, hmem, rfl⟩
    · simp [hmem] at hsome

end Transactions

/-! ## What the callbacks achieve -/

section Achieves

variable {m : Mount} {now : F64} {db : Db}

theorem setattr_achieves (caller : UInt32) (ino : Ino) (a : SetAttr) :
    (setattr m now caller ino a).Achieves db fun _ db' =>
      Effect m now (.setattr caller ino a) db db' := by
  refine achieves_guard (readOnly_refuseIf _ _) fun _ _ => ?_
  refine achieves_transaction (fun _ => readOnly_bind readOnly_readBack fun _ => readOnly_pure _) ?_
  intro u r db' htx _
  exact setattrTx_ok htx

theorem mkdir_achieves (parent : Ino) (name : OsStr) (mode : BitVec 32) :
    (mkdir m now parent name mode).Achieves db fun _ db' =>
      Effect m now (.mkdir parent name mode) db db' := by
  refine achieves_guard (readOnly_refuseIf _ _) fun _ _ => ?_
  refine achieves_guard (readOnly_orRefuse _ _) fun n hn => ?_
  refine achieves_transaction (fun _ => readOnly_bind readOnly_readBack fun _ => readOnly_pure _) ?_
  intro i r db' htx _
  obtain ⟨-, hmax, hfree, hdb'⟩ := mkdirTx_ok htx
  exact ⟨n, (yields_orRefuse_ok.1 hn).1, hfree, hmax, hdb'⟩

/-- The handle that `create` hands out is the number of the new inode. -/
theorem create_achieves (parent : Ino) (name : OsStr) (mode : BitVec 32) :
    (create m now parent name mode).Achieves db fun r db' =>
      Effect m now (.create parent name mode) db db' ∧
        ∀ a, r = .ok a → ∃ attr, a = .created ttl attr 0 db.nextIno := by
  refine achieves_guard (readOnly_refuseIf _ _) fun _ _ => ?_
  refine achieves_guard (readOnly_orRefuse _ _) fun n hn => ?_
  refine achieves_transaction (fun _ => readOnly_bind readOnly_readBack fun _ => readOnly_pure _) ?_
  intro i r db' htx hreply
  obtain ⟨rfl, hmax, hfree, hdb'⟩ := createTx_ok htx
  refine ⟨⟨n, (yields_orRefuse_ok.1 hn).1, hfree, hmax, hdb'⟩, fun a ha => ?_⟩
  subst ha
  obtain ⟨attr, -, hpure⟩ := hreply.after readOnly_readBack
  exact ⟨attr, Except.ok.inj (yields_pure.1 hpure).1⟩

theorem symlink_achieves (parent : Ino) (linkName target : OsStr) :
    (symlink m now parent linkName target).Achieves db fun _ db' =>
      Effect m now (.symlink parent linkName target) db db' := by
  refine achieves_guard (readOnly_refuseIf _ _) fun _ _ => ?_
  refine achieves_guard (readOnly_orRefuse _ _) fun n hn => ?_
  refine achieves_guard (readOnly_orRefuse _ _) fun t ht => ?_
  refine achieves_transaction (fun _ => readOnly_bind readOnly_readBack fun _ => readOnly_pure _) ?_
  intro i r db' htx _
  obtain ⟨-, hmax, hfree, hdb'⟩ := symlinkTx_ok htx
  exact ⟨t, (yields_orRefuse_ok.1 ht).1, n, (yields_orRefuse_ok.1 hn).1, hfree, hmax, hdb'⟩

theorem link_achieves (ino newparent : Ino) (newname : OsStr) :
    (link m now ino newparent newname).Achieves db fun r db' =>
      Effect m now (.link ino newparent newname) db db' ∧ ∃ a, r = .ok a := by
  refine achieves_guard (readOnly_refuseIf _ _) fun _ _ => ?_
  refine achieves_guard (readOnly_orRefuse _ _) fun n hn => ?_
  refine achieves_transaction (fun _ => readOnly_pure _) ?_
  intro attr r db' htx hreply
  exact ⟨linkTx_ok (yields_orRefuse_ok.1 hn).1 htx, _, (yields_pure.1 hreply).1⟩

theorem unlink_achieves (parent : Ino) (name : OsStr) :
    (unlink m now parent name).Achieves db fun r db' =>
      Effect m now (.unlink parent name) db db' ∧ ∃ a, r = .ok a := by
  refine achieves_guard (readOnly_refuseIf _ _) fun _ _ => ?_
  refine achieves_guard (readOnly_orRefuse _ _) fun n hn => ?_
  refine achieves_transaction (fun _ => readOnly_pure _) ?_
  intro u r db' htx hreply
  obtain ⟨o, hchild, htx⟩ := htx.after (readOnly_orEio readOnly_childIno)
  obtain ⟨ino, hsome, htx⟩ := htx.after (readOnly_orRefuse _ _)
  have hchild := (yields_childIno_ok.1 (yields_orEio_ok.1 hchild)).1
  have hsome := (yields_orRefuse_ok.1 hsome).1
  exact ⟨⟨n, ino, (yields_orRefuse_ok.1 hn).1, hchild.symm.trans hsome,
    unlinkDentry_ok (yields_orEio_ok.1 htx)⟩, _, (yields_pure.1 hreply).1⟩

theorem rmdir_achieves (parent : Ino) (name : OsStr) :
    (rmdir m now parent name).Achieves db fun r db' =>
      Effect m now (.rmdir parent name) db db' ∧ ∃ a, r = .ok a := by
  refine achieves_guard (readOnly_refuseIf _ _) fun _ _ => ?_
  refine achieves_guard (readOnly_orRefuse _ _) fun n hn => ?_
  refine achieves_transaction (fun _ => readOnly_pure _) ?_
  intro u r db' htx hreply
  obtain ⟨o, hchild, htx⟩ := htx.after (readOnly_orEio readOnly_childIno)
  obtain ⟨ino, hsome, htx⟩ := htx.after (readOnly_orRefuse _ _)
  obtain ⟨_, hroot, htx⟩ := htx.after (readOnly_refuseIf _ _)
  obtain ⟨_, hremovable, htx⟩ := htx.after readOnly_ensureRemovable
  have hchild := (yields_childIno_ok.1 (yields_orEio_ok.1 hchild)).1
  have hsome := (yields_orRefuse_ok.1 hsome).1
  have hroot := (yields_refuseIf_ok.1 hroot).1
  exact ⟨⟨n, ino, (yields_orRefuse_ok.1 hn).1, hchild.symm.trans hsome, by simpa using hroot,
    ensureRemovable_ok hremovable, unlinkDentry_ok (yields_orEio_ok.1 htx)⟩, _,
    (yields_pure.1 hreply).1⟩

theorem rename_achieves (parent : Ino) (name : OsStr) (newparent : Ino) (newname : OsStr)
    (flags : RenameFlags) :
    (rename m now parent name newparent newname flags).Achieves db fun r db' =>
      Effect m now (.rename parent name newparent newname flags) db db' ∧ ∃ a, r = .ok a := by
  refine achieves_guard (readOnly_refuseIf _ _) fun _ _ => ?_
  refine achieves_guard (readOnly_orRefuse _ _) fun n hn => ?_
  refine achieves_guard (readOnly_orRefuse _ _) fun n' hn' => ?_
  refine achieves_transaction (fun _ => readOnly_pure _) ?_
  intro u r db' htx hreply
  exact ⟨renameTx_ok (yields_orRefuse_ok.1 hn).1 (yields_orRefuse_ok.1 hn').1 htx, _,
    (yields_pure.1 hreply).1⟩

theorem write_achieves (fh : Ino) (offset : ℕ) (data : List UInt8) (kill : Bool) :
    (write m now fh offset data kill).Achieves db fun r db' =>
      Effect m now (.write fh offset data kill) db db' ∧ ∃ a, r = .ok a := by
  refine achieves_guard (readOnly_refuseIf _ _) fun _ _ => ?_
  refine achieves_guard (readOnly_refuseIf _ _) fun _ hmax => ?_
  refine achieves_transaction (fun _ => readOnly_pure _) ?_
  intro u r db' htx hreply
  obtain ⟨row, hrow, hdb'⟩ := writeTx_ok htx
  have hmax := (yields_refuseIf_ok.1 hmax).1
  simp only [Bool.or_eq_false_iff, decide_eq_false_iff_not, not_lt] at hmax
  obtain ⟨hoffset, hlen⟩ := hmax
  rw [subU64_of_le hoffset (by decide)] at hlen
  exact ⟨⟨row, hrow, by omega, hdb'⟩, _, (yields_pure.1 hreply).1⟩

theorem setxattr_achieves (ino : Ino) (name : OsStr) (value : List UInt8) (flags : XattrFlags) :
    (setxattr m now ino name value flags).Achieves db fun r db' =>
      Effect m now (.setxattr ino name value flags) db db' ∧ ∃ a, r = .ok a := by
  refine achieves_guard (readOnly_refuseIf _ _) fun _ _ => ?_
  refine achieves_guard (readOnly_refuseIf _ _) fun _ _ => ?_
  refine achieves_guard (readOnly_orRefuse _ _) fun n hn => ?_
  refine achieves_guard (readOnly_refuseIf _ _) fun _ hname => ?_
  refine achieves_guard (readOnly_refuseIf _ _) fun _ hvalue => ?_
  refine achieves_transaction (fun _ => readOnly_pure _) ?_
  intro u r db' htx hreply
  obtain ⟨x, hmem, hx, hcreate, hreplace, hdb'⟩ := setxattrTx_ok htx
  have hname := (yields_refuseIf_ok.1 hname).1
  have hvalue := (yields_refuseIf_ok.1 hvalue).1
  simp only [Bool.or_eq_false_iff, decide_eq_false_iff_not, not_lt] at hname hvalue
  exact ⟨⟨n, x, (yields_orRefuse_ok.1 hn).1, hname.1, hname.2, hvalue, hmem, hx, hcreate, hreplace,
    hdb'⟩, _, (yields_pure.1 hreply).1⟩

theorem removexattr_achieves (ino : Ino) (name : OsStr) :
    (removexattr m now ino name).Achieves db fun r db' =>
      Effect m now (.removexattr ino name) db db' ∧ ∃ a, r = .ok a := by
  refine achieves_guard (readOnly_refuseIf _ _) fun _ _ => ?_
  refine achieves_guard (readOnly_orRefuse _ _) fun n hn => ?_
  refine achieves_guard (readOnly_refuseIf _ _) fun _ _ => ?_
  refine achieves_transaction (fun _ => readOnly_pure _) ?_
  intro u r db' htx hreply
  obtain ⟨x, hx, hmem, hdb'⟩ := removexattrTx_ok htx
  exact ⟨⟨n, x, (yields_orRefuse_ok.1 hn).1, hx, hmem, hdb'⟩, _, (yields_pure.1 hreply).1⟩

end Achieves

/-! ## Callbacks that only read -/

section ReadOnly

theorem readOnly_lookup (parent : Ino) (name : OsStr) : (lookup parent name).ReadOnly :=
  readOnly_bind (readOnly_orRefuse _ _) fun _ =>
    readOnly_bind (readOnly_orEio readOnly_childIno) fun _ =>
      readOnly_bind (readOnly_orRefuse _ _) fun _ =>
        readOnly_bind readOnly_readBack fun _ => readOnly_pure _

theorem readOnly_getattr (ino : Ino) : (getattr ino).ReadOnly :=
  readOnly_bind (readOnly_orEio readOnly_rowByIno) fun _ =>
    readOnly_bind (readOnly_orRefuse _ _) fun _ =>
      readOnly_bind (readOnly_orPanic _) fun _ => readOnly_pure _

theorem readOnly_readlink (ino : Ino) : (readlink ino).ReadOnly :=
  readOnly_bind (readOnly_orEio readOnly_rowByIno) fun _ =>
    readOnly_bind (readOnly_orRefuse _ _) fun _ => readOnly_pure _

theorem readOnly_open (m : Mount) (ino : Ino) (flags : BitVec 32) : («open» m ino flags).ReadOnly :=
  readOnly_bind (readOnly_refuseIf _ _) fun _ => readOnly_pure _

theorem readOnly_blockOrDefault (ino : Ino) (blockNo : ℕ) : (blockOrDefault ino blockNo).ReadOnly :=
  readOnly_bind (readOnly_attempt (readOnly_query _)) fun _ => readOnly_pure _

theorem readOnly_readLoop (ino : Ino) (stop pos : ℕ) (out : List UInt8) :
    (readLoop ino stop pos out).ReadOnly := by
  fun_induction readLoop ino stop pos out with
  | case1 pos out hlt ih => exact readOnly_bind (readOnly_blockOrDefault _ _) ih
  | case2 pos out hlt => exact readOnly_pure _

theorem readOnly_read (fh : Ino) (offset size : ℕ) : (read fh offset size).ReadOnly := by
  refine readOnly_bind (readOnly_orEio readOnly_rowByIno) fun _ => ?_
  refine readOnly_bind (readOnly_orRefuse _ _) fun row => ?_
  split_ifs
  · exact readOnly_pure _
  · exact readOnly_bind (readOnly_readLoop _ _ _ _) fun _ => readOnly_pure _

theorem readOnly_fetchRows (rows : List Db.ListedName) : (fetchRows rows).ReadOnly := by
  induction rows with
  | nil => exact readOnly_pure _
  | cons r rest ih =>
    refine readOnly_bind (readOnly_attempt (readOnly_query _)) fun row => ?_
    split
    · exact readOnly_bind ih fun _ => readOnly_pure _
    · exact ih
    · exact readOnly_pure _

theorem readOnly_parentIno (ino : Ino) : (parentIno ino).ReadOnly := by
  unfold parentIno
  split_ifs
  · exact readOnly_pure _
  · exact readOnly_orErrno (readOnly_query _)

theorem readOnly_readdir (ino : Ino) (offset room : ℕ) : (readdir ino offset room).ReadOnly :=
  readOnly_bind (readOnly_parentIno ino) fun _ =>
    readOnly_bind (readOnly_orEio (readOnly_query _)) fun _ =>
      readOnly_bind (readOnly_fetchRows _) fun _ => readOnly_pure _

theorem readOnly_statfs (m : Mount) : (statfs m).ReadOnly := by
  refine readOnly_bind (readOnly_attempt readOnly_currentTotalSize) fun used => ?_
  dsimp only
  split_ifs
  · exact readOnly_pure _
  · cases m.hostStatvfs <;> exact readOnly_pure _

theorem readOnly_replyXattr (size : ℕ) (data : List UInt8) : (replyXattr size data).ReadOnly := by
  unfold replyXattr
  split_ifs
  · exact readOnly_pure _
  · exact readOnly_refuse _
  · exact readOnly_pure _

theorem readOnly_getxattr (m : Mount) (ino : Ino) (name : OsStr) (size : ℕ) :
    (getxattr m ino name size).ReadOnly :=
  readOnly_bind (readOnly_orRefuse _ _) fun _ =>
    readOnly_bind (readOnly_refuseIf _ _) fun _ =>
      readOnly_bind (readOnly_orEio (readOnly_query _)) fun _ =>
        readOnly_bind (readOnly_orRefuse _ _) fun _ => readOnly_replyXattr _ _

theorem readOnly_fetchNames (names : List String) : (fetchNames names).ReadOnly := by
  induction names with
  | nil => exact readOnly_pure _
  | cons name rest ih =>
    exact readOnly_bind (readOnly_query _) fun _ => readOnly_bind ih fun _ => readOnly_pure _

theorem readOnly_listxattr (m : Mount) (ino : Ino) (size : ℕ) :
    (listxattr m ino size).ReadOnly := by
  unfold listxattr
  split_ifs
  · exact readOnly_bind (readOnly_orEio (readOnly_query _)) fun _ =>
      readOnly_bind (readOnly_orEio (readOnly_fetchNames _)) fun _ => readOnly_replyXattr _ _
  · exact readOnly_replyXattr _ _

end ReadOnly

/-! ## Steps -/

theorem ReadOnly.achieves {p : Call Answer} {db : Db} (hp : p.ReadOnly) :
    p.Achieves db fun _ db' => db' = db :=
  fun r db' h => Or.inr (hp db r db' h)

/-- **Every request leaves no trace or has its complete effect**, whatever fails. -/
theorem handle_achieves (m : Mount) (now : F64) (req : Request) (db : Db) :
    (handle m now req).Achieves db fun _ db' => Effect m now req db db' := by
  -- what the reply says is not part of the effect
  have hand {P : Reply → Prop} {p : Call Answer}
      (hp : p.Achieves db fun r db' => Effect m now req db db' ∧ P r) :
      p.Achieves db fun _ db' => Effect m now req db db' :=
    fun r db' h => (hp r db' h).imp id And.left
  cases req with
  | lookup parent name => exact ReadOnly.achieves (readOnly_lookup _ _)
  | getattr ino => exact ReadOnly.achieves (readOnly_getattr _)
  | readlink ino => exact ReadOnly.achieves (readOnly_readlink _)
  | setattr caller ino attrs => exact setattr_achieves caller ino attrs
  | mkdir parent name mode => exact mkdir_achieves parent name mode
  | create parent name mode => exact hand (create_achieves parent name mode)
  | symlink parent linkName target => exact symlink_achieves parent linkName target
  | link ino newparent newname => exact hand (link_achieves ino newparent newname)
  | unlink parent name => exact hand (unlink_achieves parent name)
  | rmdir parent name => exact hand (rmdir_achieves parent name)
  | rename parent name newparent newname flags =>
    exact hand (rename_achieves parent name newparent newname flags)
  | «open» ino flags => exact ReadOnly.achieves (readOnly_open _ _ _)
  | read fh offset size => exact ReadOnly.achieves (readOnly_read _ _ _)
  | write fh offset data kill => exact hand (write_achieves fh offset data kill)
  | flush fh => exact ReadOnly.achieves (readOnly_pure _)
  | fsync fh => exact ReadOnly.achieves (readOnly_pure _)
  | release fh => exact ReadOnly.achieves (readOnly_pure _)
  | opendir ino => exact ReadOnly.achieves (readOnly_pure _)
  | readdir ino offset room => exact ReadOnly.achieves (readOnly_readdir _ _ _)
  | statfs => exact ReadOnly.achieves (readOnly_statfs _)
  | setxattr ino name value flags => exact hand (setxattr_achieves ino name value flags)
  | getxattr ino name size => exact ReadOnly.achieves (readOnly_getxattr _ _ _ _)
  | listxattr ino size => exact ReadOnly.achieves (readOnly_listxattr _ _ _)
  | removexattr ino name => exact hand (removexattr_achieves ino name)
  | access ino => exact ReadOnly.achieves (readOnly_pure _)

theorem step_effect (env : Env) (req : Request) (db : Db) :
    Undone (step env req db).1 db (step env req db).2 ∨
      Effect env.mount env.now req db (step env req db).2 :=
  handle_achieves _ _ _ _ _ _ (step_yields env req db)

/-- After a request the tables are what they were, or have its effect. -/
theorem step_cases (env : Env) (req : Request) (db : Db) :
    (step env req db).2 = db ∨ Effect env.mount env.now req db (step env req db).2 :=
  (step_effect env req db).imp And.right id

end CofferFS
