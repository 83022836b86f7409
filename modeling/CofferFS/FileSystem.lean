import CofferFS.Setattr

/-!
# The file system

What a container is for, without tables, rows, blocks and counters. An `Object` is a directory, a
file or a symlink with all that belongs to it, and a `FileSystem` is objects with names.

`Does` tells what each request does to a file system, and `Says` what an answer may say about it.
`Call` puts both together: a request is refused, or it is done and answered, or, where the reply
needs one more query, it is done but the reply is lost. Failing statements show up nowhere else,
except that what `read`, `readdir` and `statfs` answer is right if none failed.
-/

namespace CofferFS

/-- A directory, a file or a symlink. The code keeps a content for all three. -/
@[ext]
structure Object where
  kind : Kind
  mode : BitVec 64
  uid : UInt32
  gid : UInt32
  atime : F64
  mtime : F64
  ctime : F64
  target : Option String
  content : List UInt8
  xattrs : String → Option (List UInt8)

/-- Objects by their numbers, and their names in the directories. -/
@[ext]
structure FileSystem where
  object : Ino → Option Object
  name : Ino × String → Option Ino

/-! ## Objects -/

namespace Object

variable (now : F64) (o : Object)

/-- The columns of the object. -/
def row : Inode where
  kind := o.kind
  mode := o.mode
  uid := o.uid
  gid := o.gid
  size := o.content.length
  atime := o.atime
  mtime := o.mtime
  ctime := o.ctime
  symlinkTarget := o.target

/-- A new object. A symlink is as long as its target. -/
def new (kind : Kind) (mode : BitVec 64) (uid gid : UInt32) (target : Option String) : Object where
  kind := kind
  mode := mode
  uid := uid
  gid := gid
  atime := now
  mtime := now
  ctime := now
  target := target
  content := List.replicate ((target.map String.utf8ByteSize).getD 0) 0
  xattrs _ := none

/-- The entries of a directory have changed. -/
def stamp : Object := { o with mtime := now, ctime := now }

/-- The names of an object have changed. -/
def changed : Object := { o with ctime := now }

/-- The file capabilities go if the privileges do. -/
def xattrsAfter (kill : Bool) (n : String) : Option (List UInt8) :=
  if kill = true ∧ n = "security.capability" then none else o.xattrs n

/-- Some of the content is overwritten, and the privileges may have to go. -/
def write (offset : ℕ) (data : List UInt8) (kill : Bool) : Object :=
  { o with
    mode := if kill then withoutPrivileges o.mode else o.mode
    mtime := now
    ctime := now
    content := Sparse.splice o.content offset data
    xattrs := o.xattrsAfter kill }

/-- The attributes that are requested are set, a time before the epoch to the epoch. -/
def set (caller : UInt32) (a : SetAttr) : Object where
  kind := o.kind
  mode := a.wantedMode caller o.row
  uid := a.uid.getD o.uid
  gid := a.gid.getD o.gid
  atime := a.leftAtime now o.row
  mtime := a.leftMtime now o.row
  ctime := if a.MoreThanTimes then now else o.ctime
  target := o.target
  content :=
    match a.size with
    | some n => Sparse.resize o.content n
    | none => o.content
  xattrs := o.xattrsAfter (decide (a.DropsPrivileges caller o.kind))

/-- An extended attribute is set or removed. -/
def setXattr (n : String) (value : Option (List UInt8)) : Object :=
  { o with ctime := now, xattrs := Function.update o.xattrs n value }

end Object

/-! ## Changes -/

namespace FileSystem

variable (now : F64) (parent : Ino) (n : String) (i : Ino) (s s' : FileSystem)

/-- One object changes. -/
def update (f : Object → Object) : FileSystem :=
  { s with object := Function.update s.object i ((s.object i).map f) }

def touch : FileSystem := s.update i (Object.stamp now)

/-- A name appears in a directory. -/
def link : FileSystem :=
  { s with name := Function.update s.name (parent, n) (some i) }.touch now parent

/-- An object appears. -/
def put (o : Object) : FileSystem := { s with object := Function.update s.object i (some o) }

/-- The object has a name. -/
def Named : Prop := ∃ k, s.name k = some i

open Classical in
/-- An object that has no name any more goes. -/
noncomputable def release : FileSystem :=
  if s.Named i then s.update i (Object.changed now)
  else { s with object := Function.update s.object i none }

/-- A name disappears from a directory. -/
noncomputable def unlink : FileSystem :=
  ({ s with name := Function.update s.name (parent, n) none }.release now i).touch now parent

/-- A name becomes another name. -/
def move (old new : Ino × String) : FileSystem :=
  ({ s with name := Function.update (Function.update s.name old none) new (some i) }.touch now
    old.1).touch now new.1

/-- The object is not a directory, or an empty one. -/
def Removable : Prop := ∃ o, s.object i = some o ∧ (o.kind = .dir → ∀ n, s.name (i, n) = none)

/-- A new object appears under a free name. -/
def Makes (name : OsStr) (o : Object) : Prop :=
  ∃ n i, name.toStr = some n ∧ s.name (parent, n) = none ∧ s.object i = none ∧
    s' = (s.put i o).link now parent n i

/-- `renameat2` without its two flags that are refused. -/
def Renames (name : OsStr) (newparent : Ino) (newname : OsStr) (noreplace : Bool) : Prop :=
  ∃ n n' i, name.toStr = some n ∧ newname.toStr = some n' ∧ s.name (parent, n) = some i ∧
    ((noreplace = false ∧ (parent, n) = (newparent, n') ∧
        s' = s.move now i (parent, n) (newparent, n')) ∨
      (s.name (newparent, n') = none ∧ s' = s.move now i (parent, n) (newparent, n')) ∨
      ∃ j ≠ i, noreplace = false ∧ s.name (newparent, n') = some j ∧ s.Removable j ∧
        s' = (s.unlink now newparent n' j).move now i (parent, n) (newparent, n'))

/-! ## What requests do -/

/-- What a request does. -/
def Does (m : Mount) (now : F64) (s s' : FileSystem) : Request → Prop
  | .setattr caller ino a => s.object ino ≠ none ∧ (∀ n, a.size = some n → n ≤ maxFileSize) ∧
      s' = s.update ino fun o => o.set now caller a
  | .mkdir parent name mode =>
      s.Makes now parent s' name (.new now .dir (fileMode sIfDir mode) m.uid m.gid none)
  | .create parent name mode =>
      s.Makes now parent s' name (.new now .file (fileMode sIfReg mode) m.uid m.gid none)
  | .symlink parent linkName target => ∃ t, target.toStr = some t ∧
      s.Makes now parent s' linkName (.new now .symlink (sIfLnk ||| 0o777) m.uid m.gid (some t))
  | .link ino newparent newname => ∃ n o, newname.toStr = some n ∧ s.object ino = some o ∧
      o.kind ≠ .dir ∧ s.name (newparent, n) = none ∧
      s' = (s.link now newparent n ino).update ino (Object.changed now)
  | .unlink parent name => ∃ n i, name.toStr = some n ∧ s.name (parent, n) = some i ∧
      s' = s.unlink now parent n i
  | .rmdir parent name => ∃ n i, name.toStr = some n ∧ s.name (parent, n) = some i ∧
      i ≠ rootIno ∧ s.Removable i ∧ s' = s.unlink now parent n i
  | .rename parent name newparent newname flags => flags.exchange = false ∧
      flags.whiteout = false ∧ s.Renames now parent s' name newparent newname flags.noreplace
  | .write fh offset data kill => s.object fh ≠ none ∧ offset + data.length ≤ maxFileSize ∧
      s' = s.update fh fun o => o.write now offset data kill
  | .setxattr ino name value flags => ∃ n o, name.toStr = some n ∧ n.isEmpty = false ∧
      n.utf8ByteSize ≤ xattrNameMax ∧ value.length ≤ xattrSizeMax ∧ s.object ino = some o ∧
      (flags.create = true → o.xattrs n = none) ∧ (flags.replace = true → o.xattrs n ≠ none) ∧
      s' = s.update ino fun o => o.setXattr now n (some value)
  | .removexattr ino name => ∃ n o, name.toStr = some n ∧ s.object ino = some o ∧
      o.xattrs n ≠ none ∧ s' = s.update ino fun o => o.setXattr now n none
  | _ => s' = s

/-! ## What answers say -/

/-- The attributes of an object: a directory is said to have two links, anything else as many as it
has names. -/
def Reports (i : Ino) (attr : FileAttr) : Prop :=
  ∃ o, s.object i = some o ∧ toAttr i
    { kind := o.kind
      nlink := if o.kind = .dir then 2 else Set.ncard {k | s.name k = some i} % 2 ^ 32
      mode := o.mode, uid := o.uid, gid := o.gid, size := o.content.length
      atime := o.atime, mtime := o.mtime, ctime := o.ctime, symlinkTarget := o.target } = some attr

/-- The name denotes the object with these attributes. -/
def Denotes (parent : Ino) (name : OsStr) (attr : FileAttr) : Prop :=
  ∃ n, name.toStr = some n ∧ s.name (parent, n) = some attr.ino ∧ s.Reports attr.ino attr

/-- The names in a directory, in their order. -/
def Lists (i : Ino) (rows : List Db.ListedName) : Prop :=
  (rows.map Db.ListedName.name).Pairwise (· < ·) ∧
    ∀ r, r ∈ rows ↔ s.name (i, r.name) = some r.ino ∧
      (s.object r.ino).map Object.kind = some r.kind

/-- The directory that `..` is, where a directory has one name. -/
def Parent (i p : Ino) : Prop := (i = rootIno ∧ p = rootIno) ∨ ∃ n, s.name (p, n) = some i

/-- The value of an extended attribute. -/
def xattr (i : Ino) (n : String) : Option (List UInt8) :=
  (s.object i).bind fun o => o.xattrs n

/-- How many bytes all contents are together. -/
def Uses (k : ℕ) : Prop :=
  ∃ l : List Ino, l.Nodup ∧ (∀ i, i ∈ l ↔ s.object i ≠ none) ∧
    k = (l.map fun i => ((s.object i).map fun o => o.content.length).getD 0).sum

/-- Asked for size zero, the length is answered, else the bytes if there is room for them. -/
def SaysBytes (size : ℕ) (bytes : List UInt8) (a : Answer) : Prop :=
  (size = 0 ∧ a = .xattrSize (bytes.length % 2 ^ 32)) ∨
    (size ≠ 0 ∧ bytes.length ≤ size ∧ a = .xattrData bytes)

/-- What an answer says about the file system as the request has left it. `calm` is that no
statement has failed. -/
def Says (m : Mount) (calm : Prop) (s : FileSystem) : Request → Answer → Prop
  | .lookup parent name, a | .mkdir parent name _, a | .symlink parent name _, a
  | .link _ parent name, a => ∃ attr, s.Denotes parent name attr ∧ a = .entry ttl attr 0
  | .create parent name _, a => ∃ attr, s.Denotes parent name attr ∧ a = .created ttl attr 0 attr.ino
  | .getattr ino, a | .setattr _ ino _, a => ∃ attr, s.Reports ino attr ∧ a = .attr ttl attr
  | .readlink ino, a => ∃ o, s.object ino = some o ∧
      a = .data (o.target.getD "").toUTF8.toList
  | .open ino _, a => a = .opened ino
  | .opendir _, a => a = .opened 0
  | .read fh offset size, a => ∃ o, s.object fh = some o ∧
      (calm → a = .data ((o.content.drop offset.toNat).take size.toNat))
  | .write _ _ data _, a => a = .written (data.length % 2 ^ 32)
  | .readdir ino offset room, a => ∃ p, s.Parent ino p ∧
      (calm → ∃ rows, s.Lists ino rows ∧
        a = .directory (addEntries (dirEntries ino p rows) offset room))
  | .statfs, a => calm → 0 < m.maxSize → ∀ k, s.Uses k → k ≤ i64Max →
      a = .statfs (m.maxSize / 4096) ((m.maxSize - k) / 4096) ((m.maxSize - k) / 4096)
        0 1000000 4096 255 4096
  | .getxattr ino name size, a => ∃ n v, name.toStr = some n ∧ s.xattr ino n = some v ∧
      SaysBytes size v a
  | .listxattr ino size, a => ∃ names : List String, names.Pairwise (· < ·) ∧
      (∀ n, n ∈ names ↔ m.hasXattrs = true ∧ s.xattr ino n ≠ none) ∧
      SaysBytes size (names.flatMap fun n => n.toUTF8.toList ++ [0]) a
  | _, a => a = .ok

/-- The row for the reply is read after the commit. -/
def ReadsBack : Request → Prop
  | .setattr _ _ _ | .mkdir _ _ _ | .create _ _ _ | .symlink _ _ _ => True
  | _ => False

/-- A request with the reply to it. -/
inductive Call (s : FileSystem) : Env × Request × Reply → FileSystem → Prop
  | refused (env : Env) (req : Request) (e : Halt) : Call s (env, req, .error e) s
  | answered {env : Env} {req : Request} {a : Answer} {s' : FileSystem} :
      s.Does env.mount env.now s' req → s'.Says env.mount (∀ k, env.fails k = none) req a →
      Call s (env, req, .ok a) s'
  | lost {env : Env} {req : Request} {e : Halt} {s' : FileSystem} : ReadsBack req →
      s.Does env.mount env.now s' req → Call s (env, req, .error e) s'

/-- A new file system has a root. -/
def new (now : F64) (uid gid : UInt32) : FileSystem where
  object i := if i = rootIno then some (.new now .dir (sIfDir ||| 0o700) uid gid none) else none
  name _ := none

end FileSystem

end CofferFS
