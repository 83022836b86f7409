import CofferFS.Lib.Table
import CofferFS.Time
import Mathlib.Data.Nat.Notation
import Mathlib.Data.List.Sort
import Mathlib.Data.String.Basic

/-!
# The tables of a container

The format-2 schema of db.rs, and what every SQL statement of fs.rs does to it. A statement that
can be refused by the database itself (a duplicate key, a full disk, a missing table, an integer
overflow) has an `Except`; failures from outside are added where the statements are run.

Inode numbers are `u64` in Rust and `i64` in SQLite. The casts between the two are inverse to
each other and the code only compares the numbers, so a number is its `i64` here. Sizes are
different, the code calculates with them, so their casts are written out (`asU64`, `asI64`).
-/

namespace CofferFS

/-! ## Machine integers -/

/-- `v as u64` for an `i64` `v`. -/
def asU64 (v : ℤ) : ℕ := (v % 2 ^ 64).toNat

/-- `n as i64` for a `u64` `n`. -/
def asI64 (n : ℕ) : ℤ := Int.bmod n (2 ^ 64)

/-- `a + b` in `u64`. A release build wraps. -/
def addU64 (a b : ℕ) : ℕ := (a + b) % 2 ^ 64

/-- `a - b` in `u64`. A release build wraps. -/
def subU64 (a b : ℕ) : ℕ := (a + 2 ^ 64 - b) % 2 ^ 64

theorem asU64_of_nonneg {v : ℤ} (h₀ : 0 ≤ v) (h : v ≤ i64Max) : asU64 v = v.toNat := by
  unfold asU64
  rw [i64Max] at h
  rw [Int.emod_eq_of_lt h₀ (by omega)]

theorem asI64_of_le {n : ℕ} (h : n ≤ i64Max) : asI64 n = n := by
  unfold asI64
  rw [i64Max] at h
  rw [Int.bmod_eq_of_le] <;> omega

theorem addU64_of_lt {a b : ℕ} (h : a + b < 2 ^ 64) : addU64 a b = a + b :=
  Nat.mod_eq_of_lt h

theorem subU64_of_le {a b : ℕ} (hb : b ≤ a) (ha : a < 2 ^ 64) : subU64 a b = a - b := by
  unfold subU64
  omega

/-! ## Rows -/

/-- An inode number. -/
abbrev Ino := ℤ

/-- `ROOT_INO`. -/
def rootIno : Ino := 1

/-- `KIND_DIR`, `KIND_FILE`, `KIND_SYMLINK`. -/
inductive Kind
  | dir
  | file
  | symlink
  deriving DecidableEq

/-- `BLOCK_SIZE`. -/
def blockSize : ℕ := 128 * 1024

/-- A row of `inodes`, without its key. -/
structure Inode where
  kind : Kind
  mode : BitVec 64
  uid : UInt32
  gid : UInt32
  size : ℤ
  atime : F64
  mtime : F64
  ctime : F64
  symlinkTarget : Option String
  deriving DecidableEq

/-- The tables of a container, as a connection sees them. `seq` is the `sqlite_sequence` row of
`inodes`; `xattrs` is missing in one narrow case (see `CofferFS::has_xattrs`), and `xattrsGc`
says whether the trigger exists. -/
structure Db where
  inodes : Table Ino Inode
  seq : ℤ
  dentries : Table (Ino × String) Ino
  data : Table (Ino × ℕ) (List UInt8)
  xattrs : Option (Table (Ino × String) (List UInt8))
  xattrsGc : Bool

/-- What the code can tell about a `rusqlite::Error`: whether the disk is full (`errno_for`), and
whether it is about one row's columns, after which an iterator over rows goes on. -/
inductive SqlError
  | diskFull
  | conversion
  | other
  deriving DecidableEq

namespace Db

/-! ## Queries -/

/-- The columns that `SELECT_ROW_BY_INO` reads, after `map_row`. -/
structure InodeRow where
  kind : Kind
  nlink : ℕ
  mode : BitVec 64
  uid : UInt32
  gid : UInt32
  size : ℕ
  atime : F64
  mtime : F64
  ctime : F64
  symlinkTarget : Option String
  deriving DecidableEq

/-- `SELECT count(*) FROM dentries WHERE ino=?1` -/
def nameCount (db : Db) (ino : Ino) : ℕ := db.dentries.count fun _ i => i = ino

/-- `map_row`, with the link count of `SELECT_ROW_BY_INO`. -/
def mapRow (db : Db) (ino : Ino) (r : Inode) : InodeRow where
  kind := r.kind
  nlink := if r.kind = .dir then 2 else db.nameCount ino % 2 ^ 32
  mode := r.mode
  uid := r.uid
  gid := r.gid
  size := asU64 r.size
  atime := r.atime
  mtime := r.mtime
  ctime := r.ctime
  symlinkTarget := r.symlinkTarget

/-- `SELECT_ROW_BY_INO` -/
def rowByIno (db : Db) (ino : Ino) : Option InodeRow := (db.inodes.lookup ino).map (db.mapRow ino)

/-- `SELECT ino FROM dentries WHERE parent=?1 AND name=?2` -/
def childIno (db : Db) (parent : Ino) (name : String) : Option Ino :=
  db.dentries.lookup (parent, name)

/-- `SELECT 1 FROM dentries WHERE parent=?1 LIMIT 1` -/
def hasChildren (db : Db) (ino : Ino) : Bool := db.dentries.count (fun k _ => k.1 = ino) ≠ 0

/-- `SELECT kind FROM inodes WHERE ino=?1`, an error when there is no such row. -/
def kindOf (db : Db) (ino : Ino) : Except SqlError Kind :=
  match db.inodes.lookup ino with
  | some r => .ok r.kind
  | none => .error .other

/-- `SELECT content FROM data WHERE ino=?1 AND block_no=?2`; a missing row is an empty block. -/
def block (db : Db) (ino : Ino) (blockNo : ℕ) : List UInt8 :=
  (db.data.lookup (ino, blockNo)).getD []

/-- SQLite's `SUM` over integers: an error as soon as a partial sum leaves `i64`. -/
def sumI64 : List ℤ → Option ℤ :=
  List.foldlM (fun acc x => if -2 ^ 63 ≤ acc + x ∧ acc + x ≤ i64Max then some (acc + x) else none) 0

/-- `SELECT COALESCE(SUM(size), 0) FROM inodes` -/
def sumSize (db : Db) : Except SqlError ℤ :=
  match sumI64 (db.inodes.entries.map fun e => e.2.size) with
  | some s => .ok s
  | none => .error .other

/-- `SELECT parent FROM dentries WHERE ino=?1`, an error when there is no such row. -/
def parentOf (db : Db) (ino : Ino) : Except SqlError Ino :=
  match db.dentries.entries.find? fun e => e.2 = ino with
  | some e => .ok e.1.1
  | none => .error .other

/-- A row of the listing query of `readdir`. -/
structure ListedName where
  ino : Ino
  name : String
  kind : Kind
  deriving DecidableEq

/-- `SELECT d.ino, d.name, i.kind FROM dentries d JOIN inodes i ON i.ino = d.ino
WHERE d.parent=?1 ORDER BY d.name` -/
def listing (db : Db) (parent : Ino) : List ListedName :=
  (db.dentries.entries.filterMap fun e =>
    if e.1.1 = parent then (db.inodes.lookup e.2).map fun r => ⟨e.2, e.1.2, r.kind⟩
    else none).insertionSort fun a b => a.name ≤ b.name

/-! ## Inserts -/

/-- The row number `AUTOINCREMENT` hands out: above the sequence and above every row. -/
def nextIno (db : Db) : Ino := db.inodes.keys.foldl max db.seq + 1

theorem le_foldl_max {l : List ℤ} {a : ℤ} : a ≤ l.foldl max a ∧ ∀ x ∈ l, x ≤ l.foldl max a := by
  induction l generalizing a with
  | nil => simp
  | cons b l ih =>
    obtain ⟨hab, hmem⟩ := ih (a := max a b)
    rw [List.foldl_cons, List.forall_mem_cons]
    exact ⟨by omega, by omega, hmem⟩

theorem seq_lt_nextIno (db : Db) : db.seq < db.nextIno :=
  Int.lt_add_one_of_le le_foldl_max.1

theorem lt_nextIno {db : Db} {i : Ino} (h : i ∈ db.inodes) : i < db.nextIno :=
  Int.lt_add_one_of_le (le_foldl_max.2 i h)

/-- The next number is not taken. -/
theorem lookup_nextIno (db : Db) : db.inodes.lookup db.nextIno = none := by
  rw [AList.lookup_eq_none]
  exact fun h => (lt_nextIno h).ne rfl

/-- `INSERT INTO inodes …`; when the numbers are used up SQLite answers `SQLITE_FULL`. -/
def insertInode (r : Inode) (db : Db) : Except SqlError (Ino × Db) :=
  if db.nextIno ≤ i64Max then
    .ok (db.nextIno, { db with inodes := db.inodes.insert db.nextIno r, seq := db.nextIno })
  else .error .diskFull

/-- `INSERT INTO dentries (parent, name, ino) VALUES (?1, ?2, ?3)` -/
def insertDentry (parent : Ino) (name : String) (ino : Ino) (db : Db) :
    Except SqlError (Unit × Db) :=
  match db.dentries.insertNew (parent, name) ino with
  | some dentries => .ok ((), { db with dentries })
  | none => .error .other

/-- `INSERT INTO data … ON CONFLICT DO UPDATE`, or a `DELETE` for an empty block. -/
def putBlock (ino : Ino) (blockNo : ℕ) (content : List UInt8) (db : Db) : Db :=
  if content.isEmpty then { db with data := db.data.erase (ino, blockNo) }
  else { db with data := db.data.insert (ino, blockNo) content }

/-! ## Updates -/

/-- `UPDATE inodes SET … WHERE ino=?` -/
def updateInode (ino : Ino) (f : Inode → Inode) (db : Db) : Db :=
  { db with inodes := db.inodes.updateKey ino f }

/-- `UPDATE inodes SET mtime=?1, ctime=?1 WHERE ino=?2` -/
def touch (now : F64) (ino : Ino) : Db → Db :=
  updateInode ino fun r => { r with mtime := now, ctime := now }

/-- `UPDATE inodes SET ctime=?1 WHERE ino=?2` -/
def setCtime (now : F64) (ino : Ino) : Db → Db := updateInode ino fun r => { r with ctime := now }

/-- `UPDATE inodes SET mode=?1, ctime=?2 WHERE ino=?3` -/
def setMode (mode : BitVec 64) (now : F64) (ino : Ino) : Db → Db :=
  updateInode ino fun r => { r with mode := mode, ctime := now }

/-- `UPDATE inodes SET uid=?1, gid=?2, ctime=?3 WHERE ino=?4` -/
def setOwner (uid gid : UInt32) (now : F64) (ino : Ino) : Db → Db :=
  updateInode ino fun r => { r with uid := uid, gid := gid, ctime := now }

/-- `UPDATE inodes SET size=?1, mtime=?2, ctime=?2 WHERE ino=?3` -/
def setSize (size : ℤ) (now : F64) (ino : Ino) : Db → Db :=
  updateInode ino fun r => { r with size := size, mtime := now, ctime := now }

/-- `UPDATE inodes SET atime=?1, mtime=?2 WHERE ino=?3` -/
def setTimes (atime mtime : F64) (ino : Ino) : Db → Db :=
  updateInode ino fun r => { r with atime := atime, mtime := mtime }

/-- `UPDATE inodes SET mode = mode & ~2048 WHERE ino=?1 AND (mode & 2048) != 0` -/
def clearSuid (ino : Ino) : Db → Db :=
  updateInode ino fun r =>
    if r.mode &&& 2048 ≠ 0 then { r with mode := r.mode &&& ~~~2048 } else r

/-- `UPDATE inodes SET mode = mode & ~1024 WHERE ino=?1 AND (mode & 1024) != 0 AND (mode & 8) != 0`
-/
def clearSgid (ino : Ino) : Db → Db :=
  updateInode ino fun r =>
    if r.mode &&& 1024 ≠ 0 ∧ r.mode &&& 8 ≠ 0 then { r with mode := r.mode &&& ~~~1024 } else r

/-- `UPDATE dentries SET parent=?1, name=?2 WHERE parent=?3 AND name=?4` -/
def renameDentry (old new : Ino × String) (db : Db) : Except SqlError (Unit × Db) :=
  match db.dentries.rekey old new with
  | some dentries => .ok ((), { db with dentries })
  | none => .error .other

/-! ## Deletes -/

/-- `DELETE FROM dentries WHERE parent=?1 AND name=?2` -/
def deleteDentry (parent : Ino) (name : String) (db : Db) : Db :=
  { db with dentries := db.dentries.erase (parent, name) }

/-- `DELETE FROM data WHERE ino=?1` -/
def deleteData (ino : Ino) (db : Db) : Db :=
  { db with data := db.data.filter fun k _ => k.1 ≠ ino }

/-- `DELETE FROM data WHERE ino=?1 AND block_no>?2` -/
def deleteBlocksAbove (ino : Ino) (last : ℕ) (db : Db) : Db :=
  { db with data := db.data.filter fun k _ => ¬ (k.1 = ino ∧ last < k.2) }

/-- `DELETE FROM data WHERE ino=?1 AND block_no=?2` -/
def deleteBlock (ino : Ino) (blockNo : ℕ) (db : Db) : Db :=
  { db with data := db.data.erase (ino, blockNo) }

/-- A statement on `xattrs` fails when the table is missing. -/
def onXattrs {α : Type} (f : Table (Ino × String) (List UInt8) →
    α × Table (Ino × String) (List UInt8)) (db : Db) : Except SqlError (α × Db) :=
  match db.xattrs with
  | some x => .ok ((f x).1, { db with xattrs := some (f x).2 })
  | none => .error .other

/-- `DELETE FROM xattrs WHERE ino=?1` -/
def deleteXattrs (ino : Ino) : Db → Except SqlError (Unit × Db) :=
  onXattrs fun x => ((), x.filter fun k _ => k.1 ≠ ino)

/-- `DELETE FROM xattrs WHERE ino=?1 AND name=?2`; the result is the number of rows deleted. -/
def deleteXattr (ino : Ino) (name : String) : Db → Except SqlError (ℕ × Db) :=
  onXattrs fun x => (if (ino, name) ∈ x then 1 else 0, x.erase (ino, name))

/-- `INSERT OR REPLACE INTO xattrs (ino, name, value) VALUES (?1, ?2, ?3)` -/
def putXattr (ino : Ino) (name : String) (value : List UInt8) : Db → Except SqlError (Unit × Db) :=
  onXattrs fun x => ((), x.insert (ino, name) value)

/-- `SELECT value FROM xattrs WHERE ino=?1 AND name=?2` -/
def xattr (db : Db) (ino : Ino) (name : String) : Except SqlError (Option (List UInt8)) :=
  match db.xattrs with
  | some x => .ok (x.lookup (ino, name))
  | none => .error .other

/-- `SELECT name FROM xattrs WHERE ino=?1 ORDER BY name` -/
def xattrNames (db : Db) (ino : Ino) : Except SqlError (List String) :=
  match db.xattrs with
  | some x => .ok ((x.keys.filterMap fun k => if k.1 = ino then some k.2 else none).insertionSort
      (· ≤ ·))
  | none => .error .other

/-- `DELETE FROM inodes WHERE ino=?1`, and what the `xattrs_gc` trigger does after it. -/
def deleteInodeRow (ino : Ino) (db : Db) : Except SqlError (Unit × Db) :=
  if db.xattrsGc ∧ ino ∈ db.inodes then
    deleteXattrs ino { db with inodes := db.inodes.erase ino }
  else .ok ((), { db with inodes := db.inodes.erase ino })

end Db

end CofferFS
