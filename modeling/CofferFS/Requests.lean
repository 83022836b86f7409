import CofferFS.Callbacks
import Mathlib.Logic.Relation

/-!
# Requests and runs

The requests of the kernel, the state machine that the callbacks make of a container, and what
the kernel is assumed to check before it sends a request.
-/

namespace CofferFS

open Script

/-- A FUSE request, with the arguments the code uses. `read` adds its arguments before it looks at
them, so their widths are part of the request. -/
inductive Request
  | lookup (parent : Ino) (name : OsStr)
  | getattr (ino : Ino)
  | readlink (ino : Ino)
  | setattr (caller : UInt32) (ino : Ino) (attrs : SetAttr)
  | mkdir (parent : Ino) (name : OsStr) (mode : BitVec 32)
  | create (parent : Ino) (name : OsStr) (mode : BitVec 32)
  | symlink (parent : Ino) (linkName target : OsStr)
  | link (ino newparent : Ino) (newname : OsStr)
  | unlink (parent : Ino) (name : OsStr)
  | rmdir (parent : Ino) (name : OsStr)
  | rename (parent : Ino) (name : OsStr) (newparent : Ino) (newname : OsStr) (flags : RenameFlags)
  | «open» (ino : Ino) (flags : BitVec 32)
  | read (fh : Ino) (offset : UInt64) (size : UInt32)
  | write (fh : Ino) (offset : ℕ) (data : List UInt8) (killSuidgid : Bool)
  | flush (fh : Ino)
  | fsync (fh : Ino)
  | release (fh : Ino)
  | opendir (ino : Ino)
  | readdir (ino : Ino) (offset room : ℕ)
  | statfs
  | setxattr (ino : Ino) (name : OsStr) (value : List UInt8) (flags : XattrFlags)
  | getxattr (ino : Ino) (name : OsStr) (size : ℕ)
  | listxattr (ino : Ino) (size : ℕ)
  | removexattr (ino : Ino) (name : OsStr)
  | access (ino : Ino)

/-- The callback that answers a request. -/
def handle (m : Mount) (now : F64) : Request → Call Answer
  | .lookup parent name => lookup parent name
  | .getattr ino => getattr ino
  | .readlink ino => readlink ino
  | .setattr caller ino attrs => setattr m now caller ino attrs
  | .mkdir parent name mode => mkdir m now parent name mode
  | .create parent name mode => create m now parent name mode
  | .symlink parent linkName target => symlink m now parent linkName target
  | .link ino newparent newname => link m now ino newparent newname
  | .unlink parent name => unlink m now parent name
  | .rmdir parent name => rmdir m now parent name
  | .rename parent name newparent newname flags => rename m now parent name newparent newname flags
  | .open ino flags => «open» m ino flags
  | .read fh offset size => read fh offset.toNat size.toNat
  | .write fh offset data killSuidgid => write m now fh offset data killSuidgid
  | .flush _ => pure .ok
  | .fsync _ => pure .ok
  | .release _ => pure .ok
  | .opendir _ => pure (.opened 0)
  | .readdir ino offset room => readdir ino offset room
  | .statfs => statfs m
  | .setxattr ino name value flags => setxattr m now ino name value flags
  | .getxattr ino name size => getxattr m ino name size
  | .listxattr ino size => listxattr m ino size
  | .removexattr ino name => removexattr m now ino name
  | .access _ => pure .ok

/-- What a request meets: the options of the mount that serves it, the clock, and which of its
statements fail. -/
structure Env where
  mount : Mount
  now : F64
  fails : ℕ → Option SqlError

/-- An environment in which every statement is executed. -/
def Env.quiet (mount : Mount) (now : F64) : Env := ⟨mount, now, noFailure⟩

/-- What the callback replies: an answer, an error, or nothing because it panicked. -/
abbrev Reply := Except Halt Answer

/-- The reply to a request and the tables after it. -/
def step (env : Env) (req : Request) (db : Db) : Reply × Db :=
  let o := (handle env.mount env.now req).run env.fails 0 db
  (o.val, o.store)

theorem step_yields (env : Env) (req : Request) (db : Db) :
    (handle env.mount env.now req).Yields db (step env req db).1 (step env req db).2 :=
  yields_run _ _ _ _

/-- A callback that runs to an end without failures decides the step. -/
theorem step_quiet {m : Mount} {now : F64} {req : Request} {db db' : Db} {r : Reply}
    (h : (handle m now req).Runs db r db') : step (.quiet m now) req db = (r, db') := by
  obtain ⟨n, h⟩ := h 0
  show (((handle m now req).run noFailure 0 db).val, ((handle m now req).run noFailure 0 db).store) =
    (r, db')
  rw [h]

/-! ## The state of a new container -/

/-- The tables as `create_container` leaves them: the root, and no names. -/
def Db.created (now : F64) (uid gid : UInt32) : Db where
  inodes := (∅ : Table Ino Inode).insert rootIno
    { kind := .dir, mode := sIfDir ||| 0o700, uid, gid, size := 0
      atime := now, mtime := now, ctime := now, symlinkTarget := none }
  seq := rootIno
  dentries := ∅
  data := ∅
  xattrs := some ∅
  xattrsGc := true

/-! ## What the kernel checks -/

namespace Db

/-- `p` is a directory that has a name for `i`. -/
def Up (db : Db) (i p : Ino) : Prop := ∃ name, db.dentries.lookup (p, name) = some i

/-- `i` is `p` or lies below it. -/
def Below (db : Db) : Ino → Ino → Prop := Relation.ReflTransGen db.Up

def IsDir (db : Db) (i : Ino) : Prop := ∃ r, db.inodes.lookup i = some r ∧ r.kind = .dir

/-- `i` is an inode that is not a directory. -/
def IsLeaf (db : Db) (i : Ino) : Prop := ∃ r, db.inodes.lookup i = some r ∧ r.kind ≠ .dir

/-- The inode that a name in a request denotes. -/
def Names (db : Db) (parent : Ino) (name : OsStr) (i : Ino) : Prop :=
  ∃ n, name.toStr = some n ∧ db.dentries.lookup (parent, n) = some i

end Db

/-- What the kernel assures before it sends a request. A parent argument is an existing directory;
`unlink` is for non-directories and `rmdir` for directories; `rename` neither mixes the two nor
moves a directory below itself. -/
def KernelOk (db : Db) : Request → Prop
  | .mkdir parent _ _ => db.IsDir parent
  | .create parent _ _ => db.IsDir parent
  | .symlink parent _ _ => db.IsDir parent
  | .link _ newparent _ => db.IsDir newparent
  | .unlink parent name => db.IsDir parent ∧ ∀ i, db.Names parent name i → ¬ db.IsDir i
  | .rmdir parent name => db.IsDir parent ∧ ∀ i, db.Names parent name i → db.IsDir i
  | .rename parent name newparent newname _ =>
    db.IsDir parent ∧ db.IsDir newparent ∧
      (∀ i j, db.Names parent name i → db.Names newparent newname j → (db.IsDir i ↔ db.IsDir j)) ∧
      ∀ i, db.Names parent name i → db.IsDir i → ¬ db.Below newparent i
  | _ => True

/-! ## Runs -/

/-- One request that the kernel may send, in any environment. -/
def KernelStep (db db' : Db) : Prop :=
  ∃ env req, KernelOk db req ∧ db' = (step env req db).2

/-- The states that runs from a new container reach. -/
def Reachable (db : Db) : Prop :=
  ∃ now uid gid, Relation.ReflTransGen KernelStep (Db.created now uid gid) db

/-- What holds of a new container and is kept by every request holds in every reachable state. -/
theorem Reachable.induction {P : Db → Prop} (h₀ : ∀ now uid gid, P (.created now uid gid))
    (hstep : ∀ env req db, P db → KernelOk db req → P (step env req db).2) {db : Db}
    (h : Reachable db) : P db := by
  obtain ⟨now, uid, gid, h⟩ := h
  induction h with
  | refl => exact h₀ now uid gid
  | tail _ hlast ih =>
    obtain ⟨env, req, hok, rfl⟩ := hlast
    exact hstep env req _ ih hok

theorem Reachable.step {db : Db} (h : Reachable db) (env : Env) {req : Request}
    (hok : KernelOk db req) : Reachable (step env req db).2 := by
  obtain ⟨now, uid, gid, h⟩ := h
  exact ⟨now, uid, gid, h.tail ⟨env, req, hok, rfl⟩⟩

/-! ## A small container -/

/-- A writable mount without a ceiling. -/
def Mount.plain : Mount where
  maxSize := 0
  uid := 0
  gid := 0
  readOnly := false
  hasXattrs := true

/-- The name of the file in the small container. -/
def nameA : OsStr := .ofString "a" (by decide)

/-- Another name. -/
def nameB : OsStr := .ofString "b" (by decide)

/-- A container with one empty file. -/
def Db.oneFile : Db := (step (.quiet .plain 0) (.create rootIno nameA 0o644) (.created 0 0 0)).2

/-- A container with one file, of one byte. -/
def Db.oneByte : Db := (step (.quiet .plain 0) (.write 2 0 [1] false) .oneFile).2

theorem reachable_created (now : F64) (uid gid : UInt32) : Reachable (.created now uid gid) :=
  ⟨now, uid, gid, .refl⟩

theorem isDir_root_created (now : F64) (uid gid : UInt32) :
    (Db.created now uid gid).IsDir rootIno :=
  ⟨_, AList.lookup_insert _, rfl⟩

theorem reachable_oneFile : Reachable .oneFile :=
  (reachable_created 0 0 0).step _ (isDir_root_created 0 0 0)

theorem reachable_oneByte : Reachable .oneByte := reachable_oneFile.step _ trivial

end CofferFS
