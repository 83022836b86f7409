import CofferFS.Check

/-!
# Containers in both formats

What the file of a container holds, from the point of view of db.rs: `meta`, the `inodes` table in
format 1 or 2, the table that the migration builds next to it, `sqlite_sequence`, and what exists
of `dentries`, `xattrs` and the `xattrs_gc` trigger. `migrate_to_v2` and `open_db_with` are scripts
over it. A connection that a callback uses sees the tables of format 2 (`Container.tables`).

The code of format 1 is not part of this repository. What is known of the format is its schema: a
row of `inodes` carries the parent and the name of its one entry.
-/

namespace CofferFS

open Script

/-- A row of `inodes` in format 1, without its key. -/
structure InodeV1 extends Inode where
  parent : Ino
  name : String
  deriving DecidableEq

/-- The table called `inodes`. -/
inductive InodesTable
  | v1 (rows : Table Ino InodeV1)
  | v2 (rows : Table Ino Inode)
  deriving DecidableEq

/-- The tables of the file. `sequence` is `sqlite_sequence`, and `inodesV2` is `inodes_v2`. -/
structure Container where
  «meta» : Table String String
  inodes : Option InodesTable
  inodesV2 : Option (Table Ino Inode)
  sequence : Table String ℤ
  dentries : Option (Table (Ino × String) Ino)
  idxDentriesIno : Bool
  data : Table (Ino × ℕ) (List UInt8)
  xattrs : Option (Table (Ino × String) (List UInt8))
  xattrsGc : Bool

/-- What `open_db_with` can tell about a statement that fails: whether another connection holds
the container. -/
inductive OpenFailure
  | databaseBusy
  | other
  deriving DecidableEq

/-- A statement that yields no value. -/
abbrev Statement := Container → Except OpenFailure (Unit × Container)

namespace Container

/-! ## The statements of the migration -/

/-- `CREATE TABLE dentries (…)` -/
def createDentries : Statement := fun c =>
  match c.dentries with
  | some _ => .error .other
  | none => .ok ((), { c with dentries := some ∅ })

/-- The rows of `SELECT parent, name, ino FROM inodes WHERE ino != 1`. -/
def entryRows (rows : Table Ino InodeV1) : List (Σ _ : Ino × String, Ino) :=
  (rows.entries.filter fun e => e.1 ≠ rootIno).map fun e => ⟨(e.2.parent, e.2.name), e.1⟩

/-- `INSERT INTO dentries (parent, name, ino) SELECT parent, name, ino FROM inodes WHERE ino != 1`
-/
def fillDentries : Statement := fun c =>
  match c.inodes, c.dentries with
  | some (.v1 rows), some dentries =>
    match dentries.insertAll (entryRows rows) with
    | some dentries => .ok ((), { c with dentries := some dentries })
    | none => .error .other
  | _, _ => .error .other

/-- `CREATE INDEX idx_dentries_ino ON dentries(ino)` -/
def createIndex : Statement := fun c =>
  if c.idxDentriesIno ∨ c.dentries = none then .error .other
  else .ok ((), { c with idxDentriesIno := true })

/-- `CREATE TABLE inodes_v2 (…)` -/
def createInodesV2 : Statement := fun c =>
  match c.inodesV2 with
  | some _ => .error .other
  | none => .ok ((), { c with inodesV2 := some ∅ })

/-- The rows of `SELECT ino, kind, …, symlink_target FROM inodes`. -/
def inodeRows (rows : Table Ino InodeV1) : List (Σ _ : Ino, Inode) :=
  rows.entries.map fun e => ⟨e.1, e.2.toInode⟩

/-- A row with an explicit number raises the sequence of its table to it. -/
def raise (table : String) (sequence : Table String ℤ) (ino : Ino) : Table String ℤ :=
  sequence.insert table (max ((sequence.lookup table).getD 0) ino)

/-- `INSERT INTO inodes_v2 (ino, kind, …) SELECT ino, kind, … FROM inodes` -/
def fillInodesV2 : Statement := fun c =>
  match c.inodes, c.inodesV2 with
  | some (.v1 rows), some inodesV2 =>
    match inodesV2.insertAll (inodeRows rows) with
    | some inodesV2 => .ok ((), { c with
        inodesV2 := some inodesV2
        sequence := rows.keys.foldl (raise "inodes_v2") c.sequence })
    | none => .error .other
  | _, _ => .error .other

/-- `UPDATE sqlite_sequence SET seq = max(seq, COALESCE((SELECT seq FROM sqlite_sequence
WHERE name = 'inodes'), 0)) WHERE name = 'inodes_v2'` -/
def carrySequence (c : Container) : Container :=
  { c with
    sequence := c.sequence.updateKey "inodes_v2" fun seq =>
      max seq ((c.sequence.lookup "inodes").getD 0) }

/-- `DROP TABLE inodes`, which takes the trigger on the table and its sequence along. -/
def dropInodes : Statement := fun c =>
  match c.inodes with
  | some _ => .ok ((), { c with
      inodes := none, xattrsGc := false, sequence := c.sequence.erase "inodes" })
  | none => .error .other

/-- `ALTER TABLE inodes_v2 RENAME TO inodes`, which renames the sequence as well. -/
def renameInodesV2 : Statement := fun c =>
  match c.inodesV2, c.inodes with
  | some rows, none => .ok ((), { c with
      inodesV2 := none
      inodes := some (.v2 rows)
      sequence := match c.sequence.lookup "inodes_v2" with
        | some seq => (c.sequence.erase "inodes_v2").insert "inodes" seq
        | none => c.sequence })
  | _, _ => .error .other

/-- `UPDATE meta SET value = '2' WHERE key = 'schema_version'` -/
def setVersion (c : Container) : Container :=
  { c with «meta» := c.meta.updateKey "schema_version" fun _ => "2" }

/-! ## The other statements of an open -/

/-- `SELECT value FROM meta WHERE key='schema_version'` -/
def version (c : Container) : Except OpenFailure String :=
  match c.meta.lookup "schema_version" with
  | some v => .ok v
  | none => .error .other

/-- `CREATE TABLE IF NOT EXISTS xattrs (…)` -/
def createXattrs (c : Container) : Container := { c with xattrs := some (c.xattrs.getD ∅) }

/-- `CREATE TRIGGER IF NOT EXISTS xattrs_gc AFTER DELETE ON inodes …` -/
def createTrigger : Statement := fun c =>
  match c.inodes with
  | some _ => .ok ((), { c with xattrsGc := true })
  | none => .error .other

/-- The tables as the callbacks see them; there are none while the container is in format 1. -/
def tables (c : Container) : Option Db :=
  match c.inodes, c.dentries with
  | some (.v2 inodes), some dentries =>
    some { inodes, seq := (c.sequence.lookup "inodes").getD 0, dentries, data := c.data,
           xattrs := c.xattrs, xattrsGc := c.xattrsGc }
  | _, _ => none

end Container

/-! ## Opening a container -/

/-- Why `open_db_with` returns no connection. -/
inductive OpenError
  /-- `{} is mounted - the mount holds it exclusively. …` -/
  | mounted
  /-- `wrong password, or the file is not a coffer container` -/
  | wrongPassword
  /-- `{} uses container format version {schema}, this coffer understands version 2 - upgrade
  coffer` -/
  | unknownFormat (schema : String)
  /-- `migrating the container to format version 2`, and the error. -/
  | migrating (e : OpenFailure)
  | sqlite (e : OpenFailure)
  deriving DecidableEq

/-- A piece of `open_db_with`. -/
abbrev Opening (α : Type) := Script OpenFailure Container OpenError α

/-- `SCHEMA_VERSION_V1` -/
def schemaVersionV1 : String := "1"

/-- A batch of `PRAGMA` statements; it may fail, and changes no table. -/
def pragma : Opening Unit := mapError .sqlite (update id)

/-- What `migrate_to_v2` executes between `BEGIN` and `COMMIT`. -/
def migrationBatch : Script OpenFailure Container OpenFailure Unit := do
  exec Container.createDentries
  exec Container.fillDentries
  exec Container.createIndex
  exec Container.createInodesV2
  exec Container.fillInodesV2
  update Container.carrySequence
  exec Container.dropInodes
  exec Container.renameInodesV2
  update Container.setVersion

/-- `migrate_to_v2`. A batch that fails leaves its transaction open; the connection is closed then,
which rolls it back. -/
def migrateToV2 : Opening Unit :=
  transaction .migrating .migrating (mapError .migrating migrationBatch)

/-- `con.execute_batch(XATTRS_SCHEMA)?` -/
def xattrsSchema : Opening Unit := mapError .sqlite do
  update Container.createXattrs
  exec Container.createTrigger

/-- The part of `open_db_with` that writes. -/
def upgrade (outdated : Bool) : Opening Unit := do
  pragma
  (if outdated then migrateToV2 else pure ())
  xattrsSchema

/-- `open_db_with`, from the open file on. -/
def openDb (readonly exclusive : Bool) : Opening Unit := do
  pragma
  pragma
  (if exclusive then pragma else pure ())
  let schema ← mapError (fun e => if e = .databaseBusy then .mounted else .wrongPassword)
    (query Container.version)
  (if schema ≠ schemaVersion ∧ schema ≠ schemaVersionV1 then stop (.unknownFormat schema)
    else pure ())
  (if readonly then pure () else upgrade (schema = schemaVersionV1))
  pragma

end CofferFS
