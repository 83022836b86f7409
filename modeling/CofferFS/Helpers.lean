import CofferFS.Lib.Script
import CofferFS.Schema

/-!
# The helpers of fs.rs

The functions above the FUSE callbacks in fs.rs. Those that return a `rusqlite::Result` are
`Sql` scripts; `ensure_removable`, which decides on an errno itself, is a `Call`, the type of the
callbacks. `now` is what `db::now_secs` answers during the request.
-/

namespace CofferFS

open Script

/-- The errnos that fs.rs replies with. -/
inductive Errno
  | e2big | ebusy | eexist | efbig | einval | eio | enodata | enoent | enospc | enotempty | enotsup
  | eperm | erange | erofs
  deriving DecidableEq

/-- Why a callback has no answer: it replied with an error, or it panicked. -/
inductive Halt
  | error (e : Errno)
  | panic
  deriving DecidableEq

/-- A helper that returns a `rusqlite::Result`. -/
abbrev Sql (α : Type) := Script SqlError Db SqlError α

/-- A piece of a callback, with its early returns. -/
abbrev Call (α : Type) := Script SqlError Db Halt α

/-- `errno_for` -/
def errnoFor : SqlError → Errno
  | .diskFull => .enospc
  | _ => .eio

/-! ## Early returns -/

/-- `reply.error(e); return` -/
def refuse {α : Type} (e : Errno) : Call α := stop (.error e)

def refuseIf (c : Bool) (e : Errno) : Call Unit := if c then refuse e else pure ()

def orRefuse {α : Type} (o : Option α) (e : Errno) : Call α :=
  match o with
  | some a => pure a
  | none => refuse e

/-- The value of a library call, or its panic. -/
def orPanic {α : Type} (o : Option α) : Call α :=
  match o with
  | some a => pure a
  | none => stop .panic

def orErrno {α : Type} (f : SqlError → Errno) (p : Sql α) : Call α :=
  mapError (fun e => .error (f e)) p

def orEio {α : Type} (p : Sql α) : Call α := orErrno (fun _ => .eio) p

/-- `con.transaction()` … `tx.commit()`; a failing begin is always `EIO`. -/
def inTransaction {α : Type} (onCommit : SqlError → Errno) (body : Call α) : Call α :=
  transaction (fun _ => .error .eio) (fun e => .error (onCommit e)) body

section Early

variable {α : Type} {db db' : Db}

@[simp] theorem yields_refuse_ok {e : Errno} {a : α} :
    (refuse e : Call α).Yields db (.ok a) db' ↔ False := by
  simp [refuse]

@[simp] theorem yields_refuseIf_ok {c : Bool} {e : Errno} {u : Unit} :
    (refuseIf c e).Yields db (.ok u) db' ↔ c = false ∧ db' = db := by
  unfold refuseIf
  cases c <;> simp

@[simp] theorem yields_orRefuse_ok {o : Option α} {e : Errno} {a : α} :
    (orRefuse o e).Yields db (.ok a) db' ↔ o = some a ∧ db' = db := by
  unfold orRefuse
  cases o <;> simp [eq_comm]

@[simp] theorem yields_orPanic_ok {o : Option α} {a : α} :
    (orPanic o).Yields db (.ok a) db' ↔ o = some a ∧ db' = db := by
  unfold orPanic
  cases o <;> simp [eq_comm]

@[simp] theorem yields_orErrno_ok {f : SqlError → Errno} {p : Sql α} {a : α} :
    (orErrno f p).Yields db (.ok a) db' ↔ p.Yields db (.ok a) db' :=
  yields_mapError_ok

@[simp] theorem yields_orEio_ok {p : Sql α} {a : α} :
    (orEio p).Yields db (.ok a) db' ↔ p.Yields db (.ok a) db' :=
  yields_mapError_ok

theorem run_refuseIf_false {c : Bool} {e : Errno} {fs : ℕ → Option SqlError} {n : ℕ} (h : c = false) :
    (refuseIf c e).run fs n db = ⟨.ok (), n, db⟩ := by
  rw [h]
  rfl

theorem run_refuseIf_true {c : Bool} {e : Errno} {fs : ℕ → Option SqlError} {n : ℕ} (h : c = true) :
    (refuseIf c e).run fs n db = ⟨.error (.error e), n, db⟩ := by
  rw [h]
  rfl

theorem run_orErrno_of_ok {f : SqlError → Errno} {p : Sql α} {a : α} {fs : ℕ → Option SqlError}
    {n n' : ℕ} (h : p.run fs n db = ⟨.ok a, n', db'⟩) :
    (orErrno f p).run fs n db = ⟨.ok a, n', db'⟩ := by
  rw [orErrno, run_mapError, h]

theorem run_orErrno_of_error {f : SqlError → Errno} {p : Sql α} {e : SqlError}
    {fs : ℕ → Option SqlError} {n n' : ℕ} (h : p.run fs n db = ⟨.error e, n', db'⟩) :
    (orErrno f p).run fs n db = ⟨.error (.error (f e)), n', db'⟩ := by
  rw [orErrno, run_mapError, h]

theorem readOnly_refuse (e : Errno) : (refuse e : Call α).ReadOnly := readOnly_stop _

theorem readOnly_refuseIf (c : Bool) (e : Errno) : (refuseIf c e).ReadOnly := by
  unfold refuseIf
  cases c
  · exact readOnly_pure ()
  · exact readOnly_refuse e

theorem readOnly_orRefuse (o : Option α) (e : Errno) : (orRefuse o e).ReadOnly := by
  cases o with
  | none => exact readOnly_refuse e
  | some a => exact readOnly_pure a

theorem readOnly_orPanic (o : Option α) : (orPanic o).ReadOnly := by
  cases o with
  | none => exact readOnly_stop _
  | some a => exact readOnly_pure a

theorem readOnly_orErrno {f : SqlError → Errno} {p : Sql α} (h : p.ReadOnly) :
    (orErrno f p).ReadOnly := readOnly_mapError h

theorem readOnly_orEio {p : Sql α} (h : p.ReadOnly) : (orEio p).ReadOnly := readOnly_mapError h

end Early

/-! ## Names -/

/-- An `OsStr`: bytes, never more than `isize::MAX` of them. -/
structure OsStr where
  bytes : ByteArray
  size_le : bytes.size ≤ i64Max

namespace OsStr

/-- `to_str` -/
def toStr (s : OsStr) : Option String := String.fromUTF8? s.bytes

/-- The bytes of a string. -/
def ofString (s : String) (h : s.utf8ByteSize ≤ i64Max) : OsStr := ⟨s.toByteArray, h⟩

theorem toStr_ofString {s : String} (h : s.utf8ByteSize ≤ i64Max) :
    (ofString s h).toStr = some s := by
  show (if h : s.toByteArray.IsValidUTF8 then some (String.fromUTF8 s.toByteArray h) else none) = _
  rw [dif_pos s.isValidUTF8]
  rfl

/-- A string that comes from a request is not too long for the `size` column. -/
theorem utf8ByteSize_le {s : OsStr} {t : String} (h : s.toStr = some t) :
    t.utf8ByteSize ≤ i64Max := by
  unfold toStr String.fromUTF8? at h
  split at h
  · cases h
    exact s.size_le
  · cases h

end OsStr

/-! ## Helpers over the schema -/

def rowByIno (ino : Ino) : Sql (Option Db.InodeRow) := query fun db => .ok (db.rowByIno ino)

def childIno (parent : Ino) (name : String) : Sql (Option Ino) :=
  query fun db => .ok (db.childIno parent name)

def hasChildren (ino : Ino) : Sql Bool := query fun db => .ok (db.hasChildren ino)

def getBlock (ino : Ino) (blockNo : ℕ) : Sql (List UInt8) :=
  query fun db => .ok (db.block ino blockNo)

def putBlock (ino : Ino) (blockNo : ℕ) (content : List UInt8) : Sql Unit :=
  update (Db.putBlock ino blockNo content)

def currentTotalSize : Sql ℕ := query fun db => db.sumSize.map asU64

def linkDentry (parent : Ino) (name : String) (ino : Ino) (now : F64) : Sql Unit := do
  exec (Db.insertDentry parent name ino)
  update (Db.touch now parent)

def insertChild (now : F64) (parent : Ino) (name : String) (kind : Kind) (mode : BitVec 64)
    (uid gid : UInt32) (symlinkTarget : Option String) : Sql Ino := do
  let newIno ← exec (Db.insertInode
    { kind, mode, uid, gid
      size := (symlinkTarget.map fun s => asI64 s.utf8ByteSize).getD 0
      atime := now, mtime := now, ctime := now, symlinkTarget })
  linkDentry parent name newIno now
  pure newIno

def deleteInode (ino : Ino) : Sql Unit := do
  update (Db.deleteData ino)
  exec (Db.deleteXattrs ino)
  exec (Db.deleteInodeRow ino)

def unlinkDentry (parent : Ino) (name : String) (ino : Ino) (now : F64) : Sql Unit := do
  update (Db.deleteDentry parent name)
  let remaining ← query fun db => .ok (db.nameCount ino)
  (if remaining = 0 then deleteInode ino else update (Db.setCtime now ino))
  update (Db.touch now parent)

def ensureRemovable (ino : Ino) : Call Unit := do
  let kind ← orEio (query fun db => db.kindOf ino)
  if kind = .dir then do
    let nonempty ← orEio (hasChildren ino)
    refuseIf nonempty .enotempty
  else pure ()

def killPriv (ino : Ino) : Sql Unit := do
  update (Db.clearSuid ino)
  update (Db.clearSgid ino)
  let _ ← exec (Db.deleteXattr ino "security.capability")
  pure ()

def truncateInode (now : F64) (ino : Ino) (length : ℕ) : Sql Unit := do
  update (Db.deleteBlocksAbove ino (length / blockSize))
  (if 0 < length % blockSize then do
    let block ← getBlock ino (length / blockSize)
    putBlock ino (length / blockSize) (block.take (length % blockSize))
  else update (Db.deleteBlock ino (length / blockSize)))
  update (Db.setSize (asI64 length) now ino)

/-! ## Attributes -/

/-- `fuser::FileType`, as far as coffer knows it. -/
inductive FileType
  | directory
  | symlink
  | regularFile
  deriving DecidableEq

def fileTypeOf : Kind → FileType
  | .dir => .directory
  | .symlink => .symlink
  | .file => .regularFile

/-- `fuser::FileAttr` -/
structure FileAttr where
  ino : Ino
  size : ℕ
  blocks : ℕ
  atime : SystemTime
  mtime : SystemTime
  ctime : SystemTime
  crtime : SystemTime
  kind : FileType
  perm : BitVec 16
  nlink : ℕ
  uid : UInt32
  gid : UInt32
  rdev : ℕ
  blksize : ℕ
  flags : ℕ
  deriving DecidableEq

/-- `to_attr`; it panics when a time does not fit `SystemTime`. -/
def toAttr (ino : Ino) (row : Db.InodeRow) : Option FileAttr := do
  let atime ← secsToSystemtime row.atime
  let mtime ← secsToSystemtime row.mtime
  let ctime ← secsToSystemtime row.ctime
  let crtime ← secsToSystemtime row.ctime
  some
    { ino, size := row.size, blocks := (row.size + 511) / 512
      atime, mtime, ctime, crtime
      kind := fileTypeOf row.kind
      perm := (row.mode &&& 0o7777).setWidth 16
      nlink := row.nlink, uid := row.uid, gid := row.gid
      rdev := 0, blksize := 4096, flags := 0 }

end CofferFS
