import CofferFS.Helpers

/-!
# The FUSE callbacks

`impl Filesystem for CofferFS`. Every callback is a `Call`: the early returns of the Rust code are
`refuse`, a `match` on a `Result` is `orEio`, `orErrno` or `attempt`, and statements are numbered
in the order in which they are executed, so that a failure pattern can hit any of them.

Arguments that the code ignores are left out, and so is `touch()`, which only feeds the idle
watcher.
-/

namespace CofferFS

open Script

/-- The fields of `struct CofferFS` that the callbacks use besides the connection.
`hostStatvfs` is what `statvfs` answers for the directory of the container. -/
structure Mount where
  maxSize : ℕ
  uid : UInt32
  gid : UInt32
  readOnly : Bool
  hasXattrs : Bool
  hostStatvfs : Option (ℕ × ℕ × ℕ) := none
  deriving DecidableEq

/-- `MAX_FILE_SIZE` -/
def maxFileSize : ℕ := i64Max

/-- `XATTR_NAME_MAX` -/
def xattrNameMax : ℕ := 255

/-- `XATTR_SIZE_MAX` -/
def xattrSizeMax : ℕ := 65536

/-- `TTL`, in seconds. -/
def ttl : ℕ := 1

/-- An entry that `ReplyDirectory::add` accepted. -/
structure DirEntry where
  ino : Ino
  nextOffset : ℕ
  kind : FileType
  name : String
  deriving DecidableEq

/-- What a callback replies when it does not reply with an error. -/
inductive Answer
  | entry (ttl : ℕ) (attr : FileAttr) (generation : ℕ)
  | attr (ttl : ℕ) (attr : FileAttr)
  | created (ttl : ℕ) (attr : FileAttr) (generation : ℕ) (fh : Ino)
  | opened (fh : Ino)
  | data (bytes : List UInt8)
  | written (size : ℕ)
  | directory (entries : List DirEntry)
  | xattrSize (size : ℕ)
  | xattrData (bytes : List UInt8)
  | statfs (blocks bfree bavail files ffree bsize namelen frsize : ℕ)
  | ok
  deriving DecidableEq

/-- The row that a callback reads back for its reply. -/
def readBack (ino : Ino) : Call FileAttr := do
  let row ← orEio (rowByIno ino)
  let row ← orRefuse row .eio
  orPanic (toAttr ino row)

/-! ## lookup, getattr, readlink -/

def lookup (parent : Ino) (name : OsStr) : Call Answer := do
  let name ← orRefuse name.toStr .einval
  let ino ← orEio (childIno parent name)
  let ino ← orRefuse ino .enoent
  let attr ← readBack ino
  pure (.entry ttl attr 0)

def getattr (ino : Ino) : Call Answer := do
  let row ← orEio (rowByIno ino)
  let row ← orRefuse row .enoent
  let attr ← orPanic (toAttr ino row)
  pure (.attr ttl attr)

def readlink (ino : Ino) : Call Answer := do
  let row ← orEio (rowByIno ino)
  let row ← orRefuse row .enoent
  pure (.data (row.symlinkTarget.getD "").toUTF8.toList)

/-! ## The ceiling -/

/-- `if let Ok(used) = current_total_size(&tx)` and the refusal when `increase` more bytes do not
fit. A failing query skips the check. -/
def checkCeiling (m : Mount) (increase : ℕ) : Call Unit := do
  let used ← attempt currentTotalSize
  match used with
  | .ok used => refuseIf (m.maxSize < addU64 used increase) .enospc
  | .error _ => pure ()

/-- The check of `write` and of `setattr`, for a file that grows. -/
def checkGrowth (m : Mount) (oldSize newSize : ℕ) : Call Unit :=
  if m.maxSize ≠ 0 ∧ oldSize < newSize then checkCeiling m (subU64 newSize oldSize) else pure ()

/-- The check of `symlink`, whose target counts. -/
def checkTarget (m : Mount) (length : ℕ) : Call Unit :=
  if m.maxSize ≠ 0 then checkCeiling m length else pure ()

/-- The check of `create`: nothing new once the ceiling is reached. -/
def checkFull (m : Mount) : Call Unit :=
  if m.maxSize ≠ 0 then do
    let used ← attempt currentTotalSize
    match used with
    | .ok used => refuseIf (m.maxSize ≤ used) .enospc
    | .error _ => pure ()
  else pure ()

/-! ## setattr -/

/-- The attributes a `setattr` request carries. -/
structure SetAttr where
  mode : Option (BitVec 32) := none
  uid : Option UInt32 := none
  gid : Option UInt32 := none
  size : Option ℕ := none
  atime : Option TimeOrNow := none
  mtime : Option TimeOrNow := none
  deriving DecidableEq

/-- `kind_bits | (m as i64 & 0o7777)` -/
def newMode (old : BitVec 64) (m : BitVec 32) : BitVec 64 :=
  (old &&& ~~~0o7777) ||| (m.setWidth 64 &&& 0o7777)

/-- `if let Some(m) = mode` -/
def applyMode (now : F64) (ino : Ino) (row : Db.InodeRow) (mode : Option (BitVec 32)) : Sql Unit :=
  match mode with
  | some m => update (Db.setMode (newMode row.mode m) now ino)
  | none => pure ()

/-- `if uid.is_some() || gid.is_some()` -/
def applyOwner (now : F64) (ino : Ino) (row : Db.InodeRow) (uid gid : Option UInt32) : Sql Unit :=
  if uid.isSome ∨ gid.isSome then
    update (Db.setOwner (uid.getD row.uid) (gid.getD row.gid) now ino)
  else pure ()

/-- `if let Some(new_len) = size`, with its early returns. -/
def applySize (m : Mount) (now : F64) (ino : Ino) (row : Db.InodeRow) (size : Option ℕ) :
    Call Bool :=
  match size with
  | some newLen => do
    refuseIf (maxFileSize < newLen) .efbig
    checkGrowth m row.size newLen
    succeeds (truncateInode now ino newLen)
  | none => pure true

/-- `if atime.is_some() || mtime.is_some()` -/
def applyTimes (now : F64) (ino : Ino) (row : Db.InodeRow) (atime mtime : Option TimeOrNow) :
    Sql Unit :=
  if atime.isSome ∨ mtime.isSome then
    update (Db.setTimes ((timeOrNowToSecs now atime).getD row.atime)
      ((timeOrNowToSecs now mtime).getD row.mtime) ino)
  else pure ()

/-- Whether a `setattr` has to drop privileges. -/
def setattrKills (caller : UInt32) (kind : Kind) (a : SetAttr) : Bool :=
  let truncating := a.size.isSome && caller != 0
  let chowning := (a.uid.isSome || a.gid.isSome) && kind != .dir
  a.mode.isNone && (truncating || chowning)

/-- What `setattr` does between `BEGIN` and `COMMIT`. A failing update does not stop it; the
accumulated `ok` does, at the end. -/
def setattrTx (m : Mount) (now : F64) (caller : UInt32) (ino : Ino) (a : SetAttr) : Call Unit := do
  let row ← orEio (rowByIno ino)
  let row ← orRefuse row .enoent
  let okMode ← succeeds (applyMode now ino row a.mode)
  let okOwner ← succeeds (applyOwner now ino row a.uid a.gid)
  let okSize ← applySize m now ino row a.size
  let okTimes ← succeeds (applyTimes now ino row a.atime a.mtime)
  let okKill ← succeeds (if setattrKills caller row.kind a then killPriv ino else pure ())
  refuseIf (!(okMode && okOwner && okSize && okTimes && okKill)) .eio

def setattr (m : Mount) (now : F64) (caller : UInt32) (ino : Ino) (a : SetAttr) : Call Answer := do
  refuseIf m.readOnly .erofs
  inTransaction (fun _ => .eio) (setattrTx m now caller ino a)
  let attr ← readBack ino
  pure (.attr ttl attr)

/-! ## mkdir, create, symlink -/

/-- `S_IFDIR | (mode & 0o7777)` and the like. -/
def fileMode (format : BitVec 64) (mode : BitVec 32) : BitVec 64 :=
  format ||| (mode.setWidth 64 &&& 0o7777)

def sIfDir : BitVec 64 := 0o040000
def sIfReg : BitVec 64 := 0o100000
def sIfLnk : BitVec 64 := 0o120000

def mkdirTx (m : Mount) (now : F64) (parent : Ino) (name : String) (mode : BitVec 32) :
    Call Ino := do
  let existing ← orEio (childIno parent name)
  refuseIf existing.isSome .eexist
  orEio (insertChild now parent name .dir (fileMode sIfDir mode) m.uid m.gid none)

def mkdir (m : Mount) (now : F64) (parent : Ino) (name : OsStr) (mode : BitVec 32) :
    Call Answer := do
  refuseIf m.readOnly .erofs
  let name ← orRefuse name.toStr .einval
  let newIno ← inTransaction (fun _ => .eio) (mkdirTx m now parent name mode)
  let attr ← readBack newIno
  pure (.entry ttl attr 0)

def createTx (m : Mount) (now : F64) (parent : Ino) (name : String) (mode : BitVec 32) :
    Call Ino := do
  let existing ← orEio (childIno parent name)
  refuseIf existing.isSome .eexist
  checkFull m
  orErrno errnoFor (insertChild now parent name .file (fileMode sIfReg mode) m.uid m.gid none)

def create (m : Mount) (now : F64) (parent : Ino) (name : OsStr) (mode : BitVec 32) :
    Call Answer := do
  refuseIf m.readOnly .erofs
  let name ← orRefuse name.toStr .einval
  let newIno ← inTransaction errnoFor (createTx m now parent name mode)
  let attr ← readBack newIno
  pure (.created ttl attr 0 newIno)

/-- Unlike `mkdir`, `symlink` goes on when the look for an existing name fails; the primary key
is then what refuses a duplicate. -/
def symlinkTx (m : Mount) (now : F64) (parent : Ino) (name target : String) : Call Ino := do
  let existing ← attempt (childIno parent name)
  refuseIf (match existing with | .ok o => o.isSome | .error _ => false) .eexist
  checkTarget m target.utf8ByteSize
  orEio (insertChild now parent name .symlink (sIfLnk ||| 0o777) m.uid m.gid (some target))

def symlink (m : Mount) (now : F64) (parent : Ino) (linkName target : OsStr) : Call Answer := do
  refuseIf m.readOnly .erofs
  let name ← orRefuse linkName.toStr .einval
  let targetStr ← orRefuse target.toStr .einval
  let newIno ← inTransaction (fun _ => .eio) (symlinkTx m now parent name targetStr)
  let attr ← readBack newIno
  pure (.entry ttl attr 0)

/-! ## unlink, rmdir, rename, link -/

def unlink (m : Mount) (now : F64) (parent : Ino) (name : OsStr) : Call Answer := do
  refuseIf m.readOnly .erofs
  let name ← orRefuse name.toStr .einval
  inTransaction (fun _ => .eio) do
    let ino ← orEio (childIno parent name)
    let ino ← orRefuse ino .enoent
    orEio (unlinkDentry parent name ino now)
  pure .ok

def rmdir (m : Mount) (now : F64) (parent : Ino) (name : OsStr) : Call Answer := do
  refuseIf m.readOnly .erofs
  let name ← orRefuse name.toStr .einval
  inTransaction (fun _ => .eio) do
    let ino ← orEio (childIno parent name)
    let ino ← orRefuse ino .enoent
    refuseIf (ino = rootIno) .ebusy
    ensureRemovable ino
    orEio (unlinkDentry parent name ino now)
  pure .ok

/-- The flags of `renameat2`. -/
structure RenameFlags where
  noreplace : Bool := false
  exchange : Bool := false
  whiteout : Bool := false
  deriving DecidableEq

/-- `if let Some(existing) = target`: the name goes, unless both names are the same inode. -/
def replaceTarget (now : F64) (newparent : Ino) (newname : String) (ino : Ino)
    (target : Option Ino) : Call Unit :=
  match target with
  | some existing =>
    if existing ≠ ino then do
      ensureRemovable existing
      orEio (unlinkDentry newparent newname existing now)
    else pure ()
  | none => pure ()

def renameTx (now : F64) (parent : Ino) (name : String) (newparent : Ino) (newname : String)
    (flags : RenameFlags) : Call Unit := do
  let ino ← orEio (childIno parent name)
  let ino ← orRefuse ino .enoent
  let target ← orEio (childIno newparent newname)
  refuseIf (flags.exchange || flags.whiteout) .einval
  refuseIf (flags.noreplace && target.isSome) .eexist
  replaceTarget now newparent newname ino target
  orEio (exec (Db.renameDentry (parent, name) (newparent, newname)))
  orEio (update fun db => (db.touch now parent).touch now newparent)

def rename (m : Mount) (now : F64) (parent : Ino) (name : OsStr) (newparent : Ino)
    (newname : OsStr) (flags : RenameFlags) : Call Answer := do
  refuseIf m.readOnly .erofs
  let name ← orRefuse name.toStr .einval
  let newname ← orRefuse newname.toStr .einval
  inTransaction (fun _ => .eio) (renameTx now parent name newparent newname flags)
  pure .ok

/-- `link` reads its row back before the commit. -/
def linkTx (now : F64) (ino newparent : Ino) (newname : String) : Call FileAttr := do
  let row ← orEio (rowByIno ino)
  let row ← orRefuse row .enoent
  refuseIf (row.kind = .dir) .eperm
  let existing ← orEio (childIno newparent newname)
  refuseIf existing.isSome .eexist
  orEio (linkDentry newparent newname ino now)
  orEio (update (Db.setCtime now ino))
  readBack ino

def link (m : Mount) (now : F64) (ino newparent : Ino) (newname : OsStr) : Call Answer := do
  refuseIf m.readOnly .erofs
  let newname ← orRefuse newname.toStr .einval
  let attr ← inTransaction (fun _ => .eio) (linkTx now ino newparent newname)
  pure (.entry ttl attr 0)

/-! ## open, read, write -/

def «open» (m : Mount) (ino : Ino) (flags : BitVec 32) : Call Answer := do
  -- O_ACCMODE is 3 and O_RDONLY is 0
  refuseIf (m.readOnly && flags &&& 3 != 0) .erofs
  pure (.opened ino)

theorem blockSize_pos : 0 < blockSize := by decide

/-- `min(BLOCK_SIZE - block_off, rest)`: how far the current block goes. -/
def chunkLen (pos rest : ℕ) : ℕ := min (blockSize - pos % blockSize) rest

theorem chunkLen_pos (pos : ℕ) {rest : ℕ} (h : 0 < rest) : 0 < chunkLen pos rest := by
  have hmod := Nat.mod_lt pos blockSize_pos
  unfold chunkLen
  omega

theorem chunkLen_le (pos rest : ℕ) : chunkLen pos rest ≤ rest := Nat.min_le_right _ _

theorem chunkLen_fits (pos rest : ℕ) : pos % blockSize + chunkLen pos rest ≤ blockSize := by
  have hmod := Nat.mod_lt pos blockSize_pos
  unfold chunkLen
  omega

/-- `get_block(..).unwrap_or_default()` -/
def blockOrDefault (ino : Ino) (blockNo : ℕ) : Call (List UInt8) := do
  let block ← attempt (getBlock ino blockNo)
  pure (match block with | .ok b => b | .error _ => [])

/-- The part of a block that the loop of `read` appends, zeros where the block is too short. -/
def readPiece (block : List UInt8) (blockOff len : ℕ) : List UInt8 :=
  if blockOff < block.length then
    (block.drop blockOff).take (min len (block.length - blockOff)) ++
      List.replicate (len - min len (block.length - blockOff)) 0
  else List.replicate len 0

/-- `while pos < end` -/
def readLoop (ino : Ino) (stop pos : ℕ) (out : List UInt8) : Call (List UInt8) :=
  if pos < stop then do
    let block ← blockOrDefault ino (pos / blockSize)
    readLoop ino stop (pos + chunkLen pos (stop - pos))
      (out ++ readPiece block (pos % blockSize) (chunkLen pos (stop - pos)))
  else pure out
termination_by stop - pos
decreasing_by
  have h : pos < stop := by assumption
  have hpos := chunkLen_pos pos (Nat.sub_pos_of_lt h)
  omega

def read (fh : Ino) (offset size : ℕ) : Call Answer := do
  let row ← orEio (rowByIno fh)
  let row ← orRefuse row .enoent
  if min (addU64 offset size) row.size ≤ offset then pure (.data [])
  else do
    let out ← readLoop fh (min (addU64 offset size) row.size) offset []
    pure (.data out)

/-- The block with `chunk` written at `blockOff`, extended with zeros if it is too short. -/
def overlay (block : List UInt8) (blockOff : ℕ) (chunk : List UInt8) : List UInt8 :=
  let buf := block ++ List.replicate (blockOff + chunk.length - block.length) 0
  buf.take blockOff ++ chunk ++ buf.drop (blockOff + chunk.length)

/-- `while !remaining.is_empty()` -/
def writeLoop (ino : Ino) (pos : ℕ) (remaining : List UInt8) : Call Unit :=
  if remaining = [] then pure ()
  else do
    let buf ← orEio (getBlock ino (pos / blockSize))
    orErrno errnoFor (putBlock ino (pos / blockSize)
      (overlay buf (pos % blockSize) (remaining.take (chunkLen pos remaining.length))))
    writeLoop ino (pos + chunkLen pos remaining.length)
      (remaining.drop (chunkLen pos remaining.length))
termination_by remaining.length
decreasing_by
  have h : remaining ≠ [] := by assumption
  have hpos := chunkLen_pos pos (List.length_pos_iff.2 h)
  rw [List.length_drop]
  have hlen := List.length_pos_iff.2 h
  omega

def writeTx (m : Mount) (now : F64) (fh : Ino) (offset : ℕ) (data : List UInt8)
    (killSuidgid : Bool) : Call Unit := do
  let row ← orEio (rowByIno fh)
  let row ← orRefuse row .enoent
  checkGrowth m row.size (addU64 offset data.length)
  writeLoop fh offset data
  orErrno errnoFor
    (update (Db.setSize (asI64 (max row.size (addU64 offset data.length))) now fh))
  (if killSuidgid then orErrno errnoFor (killPriv fh) else pure ())

def write (m : Mount) (now : F64) (fh : Ino) (offset : ℕ) (data : List UInt8)
    (killSuidgid : Bool) : Call Answer := do
  refuseIf m.readOnly .erofs
  refuseIf (maxFileSize < offset || subU64 maxFileSize offset < data.length) .efbig
  inTransaction errnoFor (writeTx m now fh offset data killSuidgid)
  pure (.written (data.length % 2 ^ 32))

/-! ## readdir, statfs -/

/-- The rows of a query as `iter.flatten()` yields them: a failing row is dropped. After an error
about the row's columns the iterator goes on, after any other it is at its end. -/
def fetchRows : List Db.ListedName → Call (List Db.ListedName)
  | [] => pure []
  | r :: rest => do
    let row ← attempt (query fun _ => .ok r : Sql Db.ListedName)
    match row with
    | .ok r => do
      let rows ← fetchRows rest
      pure (r :: rows)
    | .error .conversion => fetchRows rest
    | .error _ => pure []

/-- `..` in the root is the root. -/
def parentIno (ino : Ino) : Call Ino :=
  if ino = rootIno then pure rootIno
  else orErrno (fun _ => .enoent) (query fun db => db.parentOf ino)

/-- All entries of a directory, `.` and `..` first. -/
def dirEntries (ino parent : Ino) (rows : List Db.ListedName) : List (Ino × FileType × String) :=
  (ino, .directory, ".") :: (parent, .directory, "..") ::
    rows.map fun r => (r.ino, fileTypeOf r.kind, r.name)

/-- The entries from `offset` on, until `reply.add` says that the buffer is full, which it does
after `room` entries. -/
def addEntries (entries : List (Ino × FileType × String)) (offset room : ℕ) : List DirEntry :=
  ((entries.zipIdx.drop offset).take room).map fun (e, i) =>
    { ino := e.1, nextOffset := i + 1, kind := e.2.1, name := e.2.2 }

def readdir (ino : Ino) (offset room : ℕ) : Call Answer := do
  let parent ← parentIno ino
  let listing ← orEio (query fun db => .ok (db.listing ino))
  let rows ← fetchRows listing
  pure (.directory (addEntries (dirEntries ino parent rows) offset room))

def statfs (m : Mount) : Call Answer := do
  let used ← attempt currentTotalSize
  let used := match used with | .ok u => u | .error _ => 0
  if 0 < m.maxSize then
    pure (.statfs (m.maxSize / 4096) ((m.maxSize - used) / 4096) ((m.maxSize - used) / 4096)
      0 1000000 4096 255 4096)
  else
    match m.hostStatvfs with
    | some (blocks, bfree, bavail) => pure (.statfs blocks bfree bavail 0 1000000 4096 255 4096)
    | none => pure (.statfs 0 0 0 0 1000000 4096 255 4096)

/-! ## Extended attributes -/

/-- `reply_xattr` -/
def replyXattr (size : ℕ) (data : List UInt8) : Call Answer :=
  if size = 0 then pure (.xattrSize (data.length % 2 ^ 32))
  else if size < data.length then refuse .erange
  else pure (.xattrData data)

/-- The flags of `setxattr`. -/
structure XattrFlags where
  create : Bool := false
  replace : Bool := false
  deriving DecidableEq

def setxattrTx (now : F64) (ino : Ino) (name : String) (value : List UInt8) (flags : XattrFlags) :
    Call Unit := do
  let row ← orEio (rowByIno ino)
  let _ ← orRefuse row .enoent
  let existing ← orEio (query fun db => db.xattr ino name)
  refuseIf (existing.isSome && flags.create) .eexist
  refuseIf (existing.isNone && flags.replace) .enodata
  orEio (exec (Db.putXattr ino name value))
  orEio (update (Db.setCtime now ino))

def setxattr (m : Mount) (now : F64) (ino : Ino) (name : OsStr) (value : List UInt8)
    (flags : XattrFlags) : Call Answer := do
  refuseIf m.readOnly .erofs
  refuseIf (!m.hasXattrs) .enotsup
  let name ← orRefuse name.toStr .einval
  refuseIf (name.isEmpty || xattrNameMax < name.utf8ByteSize) .erange
  refuseIf (xattrSizeMax < value.length) .e2big
  inTransaction (fun _ => .eio) (setxattrTx now ino name value flags)
  pure .ok

def getxattr (m : Mount) (ino : Ino) (name : OsStr) (size : ℕ) : Call Answer := do
  let name ← orRefuse name.toStr .einval
  refuseIf (!m.hasXattrs) .enodata
  let value ← orEio (query fun db => db.xattr ino name)
  let value ← orRefuse value .enodata
  replyXattr size value

/-- `while let Some(name) = rows.next()`: every row is fetched, the first failure ends it. -/
def fetchNames : List String → Sql (List UInt8)
  | [] => pure []
  | name :: rest => do
    let name ← query fun _ => .ok name
    let out ← fetchNames rest
    pure (name.toUTF8.toList ++ 0 :: out)

def listxattr (m : Mount) (ino : Ino) (size : ℕ) : Call Answer :=
  if m.hasXattrs then do
    let names ← orEio (query fun db => db.xattrNames ino)
    let list ← orEio (fetchNames names)
    replyXattr size list
  else replyXattr size []

def removexattrTx (now : F64) (ino : Ino) (name : String) : Call Unit := do
  let removed ← orEio (exec (Db.deleteXattr ino name))
  refuseIf (removed = 0) .enodata
  orEio (update (Db.setCtime now ino))

def removexattr (m : Mount) (now : F64) (ino : Ino) (name : OsStr) : Call Answer := do
  refuseIf m.readOnly .erofs
  let name ← orRefuse name.toStr .einval
  refuseIf (!m.hasXattrs) .enodata
  inTransaction (fun _ => .eio) (removexattrTx now ino name)
  pure .ok

end CofferFS
