import CofferFS.Container
import CofferFS.Own

/-!
# The migration to format 2

Format 1 has the names in `inodes`, format 2 in a table of their own. `FormatV1 c rows` says that
`c` is a well-formed container in format 1, and `SameFiles c rows db` that the tables `db` of a
container in format 2 hold the same files under the same paths.

A writable open passes through four containers: the one in format 1, the migrated one, the same
with the `xattrs` table and with the trigger. `migration_preserves` says that nothing else is ever
on the disk, whatever fails, and that the next open completes what is missing.
-/

namespace CofferFS

open Script Relation

/-! ## Format 1 -/

/-- The directory that the one name of `i` is in. -/
def UpV1 (rows : Table Ino InodeV1) (i p : Ino) : Prop :=
  ∃ r, rows.lookup i = some r ∧ r.parent = p

/-- The namespace that a table of format 1 holds; an entry is the row with this parent and name. -/
def treeV1 (rows : Table Ino InodeV1) : Namespace Ino String where
  node i := (rows.lookup i).map fun r => decide (r.kind = .dir)
  entry k := (rows.entries.find? fun e => (e.2.parent, e.2.name) = k).map Sigma.fst

/-- The rows are well-formed: the root is a directory, no two rows have the same parent and name,
the parent of every other row is a directory, and nothing is above itself. -/
structure RowsOk (rows : Table Ino InodeV1) : Prop where
  root : ∃ r, rows.lookup rootIno = some r ∧ r.kind = .dir
  unique : ∀ i j r s, rows.lookup i = some r → rows.lookup j = some s → r.parent = s.parent →
    r.name = s.name → i = j
  parent : ∀ i r, rows.lookup i = some r → i ≠ rootIno →
    ∃ p, rows.lookup r.parent = some p ∧ p.kind = .dir
  acyclic : ∀ i, ¬ TransGen (UpV1 rows) i i

/-- `c` is a well-formed container in format 1, with the rows `rows` in `inodes`. -/
structure FormatV1 (c : Container) (rows : Table Ino InodeV1) : Prop where
  inodes : c.inodes = some (.v1 rows)
  version : c.meta.lookup "schema_version" = some schemaVersionV1
  inodesV2 : c.inodesV2 = none
  dentries : c.dentries = none
  idxDentriesIno : c.idxDentriesIno = false
  rows_ok : RowsOk rows

namespace RowsOk

variable {rows : Table Ino InodeV1} {i j : Ino} {n : String} (h : RowsOk rows)

include h

theorem exists_up (hi : i ∈ rows) (hroot : i ≠ rootIno) : ∃ p ∈ rows, UpV1 rows i p := by
  obtain ⟨r, hr⟩ := AList.exists_lookup_of_mem hi
  obtain ⟨p, hp, -⟩ := h.parent i r hr hroot
  exact ⟨r.parent, AList.mem_of_lookup_eq_some hp, r, hr, rfl⟩

/-- The parent that the row of the root names does not exist: it would lie below the root. -/
theorem root_parent {r : InodeV1} (hr : rows.lookup rootIno = some r) : r.parent ∉ rows := by
  intro hmem
  have hreach : ReflTransGen (UpV1 rows) r.parent rootIno :=
    Climbs.reaches_of_not_cyclic (List.finite_toSet rows.keys) h.acyclic
      (fun i hi hroot => h.exists_up hi hroot) hmem
  exact h.acyclic rootIno (.head' ⟨r, hr, rfl⟩ hreach)

theorem entry_iff {k : Ino × String} : (treeV1 rows).entry k = some i ↔
    ∃ r, rows.lookup i = some r ∧ (r.parent, r.name) = k := by
  have hfound {e : Σ _ : Ino, InodeV1}
      (hfind : rows.entries.find? (fun e => (e.2.parent, e.2.name) = k) = some e) :
      rows.lookup e.1 = some e.2 ∧ (e.2.parent, e.2.name) = k :=
    ⟨AList.mem_entries_iff.1 (List.mem_of_find?_eq_some hfind), by simpa using List.find?_some hfind⟩
  show (rows.entries.find? fun e => (e.2.parent, e.2.name) = k).map Sigma.fst = some i ↔ _
  rw [Option.map_eq_some_iff]
  constructor
  · intro hsome
    obtain ⟨e, hfind, rfl⟩ := hsome
    exact ⟨e.2, hfound hfind⟩
  · intro hrow
    obtain ⟨r, hr, hk⟩ := hrow
    have hsome : (rows.entries.find? fun e => (e.2.parent, e.2.name) = k).isSome :=
      List.find?_isSome.2 ⟨⟨i, r⟩, AList.mem_entries_iff.2 hr, decide_eq_true hk⟩
    obtain ⟨e, hfind⟩ := Option.isSome_iff_exists.1 hsome
    obtain ⟨he, hke⟩ := hfound hfind
    have hpair := hke.trans hk.symm
    exact ⟨e, hfind, h.unique e.1 i e.2 r he hr (congrArg Prod.fst hpair)
      (congrArg Prod.snd hpair)⟩

end RowsOk

/-! ## What the migration makes of it -/

/-- The names of a container in format 1. -/
def dentriesOf (rows : Table Ino InodeV1) : Table (Ino × String) Ino :=
  ((∅ : Table (Ino × String) Ino).insertAll (Container.entryRows rows)).getD ∅

/-- The inodes of a container in format 1. -/
def inodesOf (rows : Table Ino InodeV1) : Table Ino Inode :=
  ((∅ : Table Ino Inode).insertAll (Container.inodeRows rows)).getD ∅

section Rows

variable {rows : Table Ino InodeV1} {i : Ino} {k : Ino × String}

theorem mem_entryRows : (⟨k, i⟩ : Σ _ : Ino × String, Ino) ∈ Container.entryRows rows ↔
    i ≠ rootIno ∧ ∃ r, rows.lookup i = some r ∧ (r.parent, r.name) = k := by
  rw [Container.entryRows, List.mem_map]
  constructor
  · intro h
    obtain ⟨⟨j, r⟩, hmem, heq⟩ := h
    obtain ⟨hmem, hroot⟩ := List.mem_filter.1 hmem
    cases heq
    exact ⟨of_decide_eq_true hroot, r, AList.mem_entries_iff.1 hmem, rfl⟩
  · intro h
    obtain ⟨hroot, r, hr, rfl⟩ := h
    exact ⟨⟨i, r⟩, List.mem_filter.2 ⟨AList.mem_entries_iff.2 hr, decide_eq_true hroot⟩, rfl⟩

theorem mem_inodeRows {r : Inode} : (⟨i, r⟩ : Σ _ : Ino, Inode) ∈ Container.inodeRows rows ↔
    (rows.lookup i).map InodeV1.toInode = some r := by
  rw [Container.inodeRows, List.mem_map, Option.map_eq_some_iff]
  constructor
  · intro h
    obtain ⟨⟨j, s⟩, hmem, heq⟩ := h
    cases heq
    exact ⟨s, AList.mem_entries_iff.1 hmem, rfl⟩
  · intro h
    obtain ⟨s, hs, rfl⟩ := h
    exact ⟨⟨i, s⟩, AList.mem_entries_iff.2 hs, rfl⟩

theorem insertAll_inodeRows : (∅ : Table Ino Inode).insertAll (Container.inodeRows rows) =
    some (inodesOf rows) ∧
      ∀ i, (inodesOf rows).lookup i = (rows.lookup i).map InodeV1.toInode := by
  have hnd : (Container.inodeRows rows).NodupKeys := by
    have hkeys : (Container.inodeRows rows).keys = rows.keys := by
      rw [Container.inodeRows, List.keys, List.map_map]
      rfl
    show (Container.inodeRows rows).keys.Nodup
    exact hkeys ▸ rows.keys_nodup
  obtain ⟨t, ht, hlookup⟩ := AList.exists_insertAll hnd fun e _ => AList.lookup_empty e.1
  have heq : inodesOf rows = t := by
    rw [inodesOf, ht]
    rfl
  rw [heq]
  refine ⟨ht, fun i => Option.ext fun r => ?_⟩
  rw [hlookup, AList.lookup_empty, mem_inodeRows]
  simp

theorem RowsOk.insertAll_entryRows (h : RowsOk rows) :
    (∅ : Table (Ino × String) Ino).insertAll (Container.entryRows rows) = some (dentriesOf rows) ∧
      ∀ k i, (dentriesOf rows).lookup k = some i ↔
        i ≠ rootIno ∧ ∃ r, rows.lookup i = some r ∧ (r.parent, r.name) = k := by
  have hnd : (Container.entryRows rows).NodupKeys := by
    show (Container.entryRows rows).keys.Nodup
    rw [Container.entryRows, List.keys, List.map_map]
    -- two rows with one name would be one row
    refine (rows.nodupKeys.nodup.filter _).map_on fun e he e' he' heq => ?_
    have hrow := AList.mem_entries_iff.1 (List.mem_of_mem_filter he)
    have hrow' := AList.mem_entries_iff.1 (List.mem_of_mem_filter he')
    have hkey : e.1 = e'.1 :=
      h.unique _ _ _ _ hrow hrow' (congrArg Prod.fst heq) (congrArg Prod.snd heq)
    exact rows.nodupKeys.eq_of_fst_eq (List.mem_of_mem_filter he) (List.mem_of_mem_filter he') hkey
  obtain ⟨t, ht, hlookup⟩ := AList.exists_insertAll hnd fun e _ => AList.lookup_empty e.1
  have heq : dentriesOf rows = t := by
    rw [dentriesOf, ht]
    rfl
  rw [heq]
  refine ⟨ht, fun k i => ?_⟩
  rw [hlookup, AList.lookup_empty, mem_entryRows]
  simp

/-- The tables of format 2 hold what the rows of format 1 held: a row became a row and a name. -/
structure Converted (rows : Table Ino InodeV1) (db : Db) : Prop where
  inodes : ∀ i, db.inodes.lookup i = (rows.lookup i).map InodeV1.toInode
  dentries : ∀ k i, db.dentries.lookup k = some i ↔
    i ≠ rootIno ∧ ∃ r, rows.lookup i = some r ∧ (r.parent, r.name) = k

theorem RowsOk.converted {db : Db} (h : RowsOk rows) (hinodes : db.inodes = inodesOf rows)
    (hdentries : db.dentries = dentriesOf rows) : Converted rows db :=
  ⟨hinodes ▸ insertAll_inodeRows.2, hdentries ▸ h.insertAll_entryRows.2⟩

namespace Converted

variable {db : Db} (hc : Converted rows db)

include hc

theorem node_eq : db.tree.node i = (treeV1 rows).node i := by
  show ((db.inodes.lookup i).map _).map _ = (rows.lookup i).map _
  rw [hc.inodes, Option.map_map, Option.map_map]
  rfl

theorem node_eq_true_iff : db.tree.node i = some true ↔
    ∃ r, rows.lookup i = some r ∧ r.kind = .dir := by
  rw [hc.node_eq]
  simp [treeV1]

theorem mem_inodes : i ∈ db.inodes ↔ i ∈ rows := by
  rw [← AList.lookup_isSome, hc.inodes, Option.isSome_map, AList.lookup_isSome]

/-- Names are where the rows were. -/
theorem up_iff {p : Ino} : db.tree.Up i p ↔ i ≠ rootIno ∧ UpV1 rows i p := by
  constructor
  · intro hup
    obtain ⟨n, hn⟩ := hup
    obtain ⟨hroot, r, hr, hk⟩ := (hc.dentries (p, n) i).1 hn
    exact ⟨hroot, r, hr, congrArg Prod.fst hk⟩
  · intro hup
    obtain ⟨hroot, r, hr, rfl⟩ := hup
    exact ⟨r.name, (hc.dentries _ i).2 ⟨hroot, r, hr, rfl⟩⟩

variable (h : RowsOk rows)

include h

/-- In a directory that exists both formats have the same names. -/
theorem entry_eq {n : String} (hi : i ∈ rows) :
    db.tree.entry (i, n) = (treeV1 rows).entry (i, n) := by
  refine Option.ext fun j => ?_
  refine (hc.dentries (i, n) j).trans ?_
  rw [h.entry_iff]
  refine ⟨And.right, fun hrow => ⟨?_, hrow⟩⟩
  rintro rfl
  obtain ⟨r, hr, hk⟩ := hrow
  have hparent : r.parent = i := congrArg Prod.fst hk
  exact h.root_parent hr (hparent ▸ hi)

/-- Every path leads where it led before. -/
theorem resolve_eq (path : List String) (hi : i ∈ rows) :
    db.tree.resolve i path = (treeV1 rows).resolve i path := by
  induction path generalizing i with
  | nil => rfl
  | cons n path ih =>
    show (db.tree.entry (i, n)).bind _ = ((treeV1 rows).entry (i, n)).bind _
    rw [hc.entry_eq h hi]
    cases hentry : (treeV1 rows).entry (i, n) with
    | none => rfl
    | some j =>
      obtain ⟨r, hr, -⟩ := h.entry_iff.1 hentry
      exact ih (AList.mem_of_lookup_eq_some hr)

/-- The result is a tree. -/
theorem wellFormed : db.tree.WellFormed rootIno := by
  constructor
  case root_dir => exact hc.node_eq_true_iff.2 h.root
  case root_unnamed => exact fun k hk => ((hc.dentries k rootIno).1 hk).1 rfl
  case node_of_entry =>
    intro k i hk
    obtain ⟨-, r, hr, -⟩ := (hc.dentries k i).1 hk
    exact Db.node_ne_none_iff.2 (hc.mem_inodes.2 (AList.mem_of_lookup_eq_some hr))
  case dir_of_entry =>
    intro k i hk
    obtain ⟨hroot, r, hr, rfl⟩ := (hc.dentries k i).1 hk
    exact hc.node_eq_true_iff.2 (h.parent i r hr hroot)
  case dir_unique =>
    intro i k k' _ hk hk'
    obtain ⟨-, r, hr, rfl⟩ := (hc.dentries k i).1 hk
    obtain ⟨-, r', hr', rfl⟩ := (hc.dentries k' i).1 hk'
    rw [Option.some.inj (hr.symm.trans hr')]
  case climbs =>
    intro i hi
    refine Climbs.of_not_cyclic (List.finite_toSet rows.keys) (fun i hcirc => ?_) ?_ ?_
      (hc.mem_inodes.1 (Db.node_ne_none_iff.1 hi))
    · exact h.acyclic i (TransGen.mono (fun _ _ hup => (hc.up_iff.1 hup).2) i i hcirc)
    · intro i hi hroot
      obtain ⟨p, -, hup⟩ := h.exists_up hi hroot
      exact ⟨p, hc.up_iff.2 ⟨hroot, hup⟩⟩
    · intro i _ hroot p hup
      obtain ⟨r, hr, rfl⟩ := (hc.up_iff.1 hup).2
      obtain ⟨s, hs, -⟩ := h.parent i r hr hroot
      exact AList.mem_of_lookup_eq_some hs

end Converted

end Rows

/-! ## The containers of an open -/

/-- The sequences after the migration: the copied rows raise the one of `inodes_v2`, the old mark
is carried over to it, and it takes the place of the one of `inodes`. -/
def sequenceOf (rows : Table Ino InodeV1) (sequence : Table String ℤ) : Table String ℤ :=
  let raised := rows.keys.foldl (Container.raise "inodes_v2") sequence
  let carried := raised.updateKey "inodes_v2" fun seq => max seq ((raised.lookup "inodes").getD 0)
  let dropped := carried.erase "inodes"
  match dropped.lookup "inodes_v2" with
  | some seq => (dropped.erase "inodes_v2").insert "inodes" seq
  | none => dropped

namespace Container

/-- The container after the migration is committed. -/
def migrated (c : Container) (rows : Table Ino InodeV1) : Container :=
  { c with
    «meta» := c.meta.updateKey "schema_version" fun _ => "2"
    inodes := some (.v2 (inodesOf rows))
    inodesV2 := none
    sequence := sequenceOf rows c.sequence
    dentries := some (dentriesOf rows)
    idxDentriesIno := true
    xattrsGc := false }

/-- The container with the `xattrs` table and its trigger. -/
def completed (c : Container) : Container := { c.createXattrs with xattrsGc := true }

end Container

section Scripts

variable {c c' : Container} {rows : Table Ino InodeV1}

theorem runs_migrationBatch (h : FormatV1 c rows) :
    migrationBatch.Runs c (.ok ()) (c.migrated rows) := by
  obtain ⟨«meta», inodes, inodesV2, sequence, dentries, idx, data, xattrs, gc⟩ := c
  obtain ⟨rfl, -, rfl, rfl, rfl, hrows⟩ := h
  have hnames := hrows.insertAll_entryRows.1
  have hinodes := (@insertAll_inodeRows rows).1
  refine Runs.bind (runs_exec_ok rfl) ?_
  refine Runs.bind (runs_exec_ok (by simp only [Container.fillDentries, hnames]; rfl)) ?_
  refine Runs.bind (runs_exec_ok rfl) ?_
  refine Runs.bind (runs_exec_ok rfl) ?_
  refine Runs.bind (runs_exec_ok (by simp only [Container.fillInodesV2, hinodes]; rfl)) ?_
  refine Runs.bind (runs_update _) ?_
  refine Runs.bind (runs_exec_ok rfl) ?_
  refine Runs.bind (runs_exec_ok rfl) ?_
  exact runs_update _

theorem direct_migrationBatch : migrationBatch.Direct :=
  direct_bind (direct_exec _) fun _ =>
    direct_bind (direct_exec _) fun _ =>
      direct_bind (direct_exec _) fun _ =>
        direct_bind (direct_exec _) fun _ =>
          direct_bind (direct_exec _) fun _ =>
            direct_bind (direct_update _) fun _ =>
              direct_bind (direct_exec _) fun _ =>
                direct_bind (direct_exec _) fun _ => direct_update _

/-- A migration that is committed has done all of it. -/
theorem migrateToV2_ok (h : FormatV1 c rows) {u : Unit}
    (hy : migrateToV2.Yields c (.ok u) c') : c' = c.migrated rows :=
  direct_migrationBatch.store_eq (yields_mapError_ok.1 hy.transaction_ok) (runs_migrationBatch h)

/-- The table and the trigger are each made in a statement of its own. -/
theorem xattrsSchema_cases {r : Except OpenError Unit} (hy : xattrsSchema.Yields c r c') :
    c' = c ∨ c' = c.createXattrs ∨ c' = c.completed := by
  obtain ⟨q, hy⟩ := hy.of_mapError
  rcases hy.bind with ⟨e, -, htable⟩ | ⟨u, t, htable, htrigger⟩
  · exact Or.inl htable.exec_error
  · obtain rfl := yields_update_ok.1 htable
    right
    cases q with
    | error e => exact Or.inl htrigger.exec_error
    | ok u =>
      right
      rw [yields_exec_ok, Container.createTrigger] at htrigger
      split at htrigger
      · cases htrigger
        rfl
      · cases htrigger

theorem runs_xattrsSchema {t : InodesTable} (h : c.inodes = some t) :
    xattrsSchema.Runs c (.ok ()) c.completed := by
  have htrigger : c.createXattrs.createTrigger = .ok ((), c.completed) := by
    obtain ⟨«meta», inodes, inodesV2, sequence, dentries, idx, data, xattrs, gc⟩ := c
    obtain rfl : inodes = some t := h
    rfl
  exact Runs.mapError_ok ((runs_update _).bind (runs_exec_ok htrigger))

theorem readOnly_pragma : pragma.ReadOnly := by
  intro c r c' h
  obtain ⟨q, h⟩ := h.of_mapError
  cases q with
  | error e => exact h.exec_error
  | ok u => exact yields_update_ok.1 h

theorem runs_pragma : pragma.Runs c (.ok ()) c := (runs_update _).mapError_ok

section Format

variable {schema : String}

/-- `if schema != SCHEMA_VERSION && !outdated` -/
theorem readOnly_checkFormat (schema : String) :
    ((if schema ≠ schemaVersion ∧ schema ≠ schemaVersionV1 then stop (.unknownFormat schema)
      else pure ()) : Opening Unit).ReadOnly := by
  split_ifs
  · exact readOnly_stop _
  · exact readOnly_pure ()

theorem known_of_checkFormat {u : Unit}
    (h : ((if schema ≠ schemaVersion ∧ schema ≠ schemaVersionV1 then stop (.unknownFormat schema)
      else pure ()) : Opening Unit).Yields c (.ok u) c') :
    schema = schemaVersion ∨ schema = schemaVersionV1 := by
  split_ifs at h with hunknown
  · cases (yields_stop.1 h).1
  · tauto

theorem runs_checkFormat (h : schema = schemaVersion ∨ schema = schemaVersionV1) :
    ((if schema ≠ schemaVersion ∧ schema ≠ schemaVersionV1 then stop (.unknownFormat schema)
      else pure ()) : Opening Unit).Runs c (.ok ()) c := by
  rw [if_neg (by tauto)]
  exact runs_pure ()

end Format

/-- An open that is read-only, or that does not get as far as writing, changes nothing. -/
theorem openDb_cases {readonly exclusive : Bool} {r : Except OpenError Unit}
    (hy : (openDb readonly exclusive).Yields c r c') : c' = c ∨ ∃ schema q, readonly = false ∧
      c.version = .ok schema ∧ (schema = schemaVersion ∨ schema = schemaVersionV1) ∧
        (upgrade (schema = schemaVersionV1)).Yields c q c' := by
  rcases hy.after_reading readOnly_pragma with hsame | ⟨_, -, hy⟩
  · exact Or.inl hsame
  rcases hy.after_reading readOnly_pragma with hsame | ⟨_, -, hy⟩
  · exact Or.inl hsame
  have hlocking : (if exclusive then pragma else pure ()).ReadOnly := by
    cases exclusive
    · exact readOnly_pure ()
    · exact readOnly_pragma
  rcases hy.after_reading hlocking with hsame | ⟨_, -, hy⟩
  · exact Or.inl hsame
  rcases hy.after_reading (readOnly_mapError (readOnly_query _)) with hsame | ⟨schema, hschema, hy⟩
  · exact Or.inl hsame
  have hschema := (yields_query_ok.1 (yields_mapError_ok.1 hschema)).1
  rcases hy.after_reading (readOnly_checkFormat schema) with hsame | ⟨_, hformat, hy⟩
  · exact Or.inl hsame
  obtain ⟨q, hy⟩ := hy.before_reading fun _ => readOnly_pragma
  cases readonly with
  | true => exact Or.inl (yields_pure.1 hy).2
  | false => exact Or.inr ⟨schema, q, rfl, hschema, known_of_checkFormat hformat, hy⟩

/-- A writable open of a container whose format is known, without failures. -/
theorem runs_openDb {schema : String} {exclusive : Bool} (hschema : c.version = .ok schema)
    (hknown : schema = schemaVersion ∨ schema = schemaVersionV1)
    (hup : (upgrade (schema = schemaVersionV1)).Runs c (.ok ()) c') :
    (openDb false exclusive).Runs c (.ok ()) c' := by
  have hlocking : (if exclusive then pragma else pure ()).Runs c (.ok ()) c := by
    cases exclusive
    · exact runs_pure ()
    · exact runs_pragma
  refine runs_pragma.bind (runs_pragma.bind (hlocking.bind ?_))
  refine Runs.bind (runs_query_ok hschema).mapError_ok ?_
  refine Runs.bind (runs_checkFormat hknown) ?_
  exact hup.bind runs_pragma

/-! ## The steps of an upgrade -/

/-- An open that writes stops before the migration, in it, or after it. -/
theorem upgrade_cases {outdated : Bool} {r : Except OpenError Unit}
    (hy : (upgrade outdated).Yields c r c') : c' = c ∨
      (∃ e, (if outdated then migrateToV2 else pure ()).Yields c (.error e) c') ∨
      ∃ t, (if outdated then migrateToV2 else pure ()).Yields c (.ok ()) t ∧
        (c' = t ∨ c' = t.createXattrs ∨ c' = t.completed) := by
  rcases hy.after_reading readOnly_pragma with hsame | ⟨_, -, hy⟩
  · exact Or.inl hsame
  right
  rcases hy.bind with ⟨e, -, hy⟩ | ⟨u, t, hy, hx⟩
  · exact Or.inl ⟨e, hy⟩
  · exact Or.inr ⟨t, hy, xattrsSchema_cases hx⟩

/-- In format 2 there is nothing to migrate. -/
theorem upgrade_current {r : Except OpenError Unit} (hy : (upgrade false).Yields c r c') :
    c' = c ∨ c' = c.createXattrs ∨ c' = c.completed := by
  rcases upgrade_cases hy with hsame | ⟨e, hmigrate⟩ | ⟨t, hmigrate, hx⟩
  · exact Or.inl hsame
  · exact Or.inl (yields_pure.1 hmigrate).2
  · rwa [(yields_pure.1 hmigrate).2] at hx

theorem upgrade_outdated (h : FormatV1 c rows) {r : Except OpenError Unit}
    (hy : (upgrade true).Yields c r c') : c' = c ∨ c' = c.migrated rows ∨
      c' = (c.migrated rows).createXattrs ∨ c' = (c.migrated rows).completed := by
  rcases upgrade_cases hy with hsame | ⟨e, hmigrate⟩ | ⟨t, hmigrate, hx⟩
  · exact Or.inl hsame
  · exact Or.inl (Yields.transaction_error hmigrate)
  · rw [migrateToV2_ok h hmigrate] at hx
    exact Or.inr hx

/-- The containers that opens make of one in format 1. -/
inductive Stage (c : Container) (rows : Table Ino InodeV1) : Container → Prop
  | old : Stage c rows c
  | migrated : Stage c rows (c.migrated rows)
  | table : Stage c rows (c.migrated rows).createXattrs
  | full : Stage c rows (c.migrated rows).completed

theorem FormatV1.version_eq (h : FormatV1 c rows) : c.version = .ok schemaVersionV1 := by
  rw [Container.version, h.version]

theorem version_migrated (h : FormatV1 c rows) : (c.migrated rows).version = .ok schemaVersion := by
  have hlookup : (c.migrated rows).meta.lookup "schema_version" = some "2" := by
    show (c.meta.updateKey "schema_version" _).lookup "schema_version" = _
    rw [AList.lookup_updateKey_self, h.version]
    rfl
  rw [Container.version, hlookup]
  rfl

/-- Every open leads from one of them to one of them. -/
theorem Stage.openDb (h : FormatV1 c rows) {s : Container} (hs : Stage c rows s)
    {readonly exclusive : Bool} {r : Except OpenError Unit}
    (hy : (CofferFS.openDb readonly exclusive).Yields s r c') : Stage c rows c' := by
  rcases openDb_cases hy with rfl | ⟨schema, q, -, hschema, -, hup⟩
  · exact hs
  have hcurrent (hversion : s.version = .ok schemaVersion) :
      c' = s ∨ c' = s.createXattrs ∨ c' = s.completed := by
    obtain rfl : schema = schemaVersion := Except.ok.inj (hschema.symm.trans hversion)
    exact upgrade_current hup
  cases hs with
  | old =>
    obtain rfl : schema = schemaVersionV1 := Except.ok.inj (hschema.symm.trans h.version_eq)
    rcases upgrade_outdated h hup with rfl | rfl | rfl | rfl
    exacts [.old, .migrated, .table, .full]
  | migrated =>
    rcases hcurrent (version_migrated h) with rfl | rfl | rfl
    exacts [.migrated, .table, .full]
  | table =>
    rcases hcurrent (version_migrated h) with rfl | rfl | rfl
    exacts [.table, .table, .full]
  | full =>
    rcases hcurrent (version_migrated h) with rfl | rfl | rfl
    exacts [.full, .full, .full]

/-- From each of them a writable open in which nothing fails leads to the last. -/
theorem Stage.runs_openDb (h : FormatV1 c rows) {s : Container} (hs : Stage c rows s)
    (exclusive : Bool) :
    (CofferFS.openDb false exclusive).Runs s (.ok ()) (c.migrated rows).completed := by
  have hcurrent (hversion : s.version = .ok schemaVersion)
      (hinodes : s.inodes = some (.v2 (inodesOf rows))) :
      (CofferFS.openDb false exclusive).Runs s (.ok ()) s.completed :=
    CofferFS.runs_openDb hversion (Or.inl rfl)
      (runs_pragma.bind ((runs_pure ()).bind (runs_xattrsSchema hinodes)))
  cases hs with
  | old =>
    have hmigrate : migrateToV2.Runs c (.ok ()) (c.migrated rows) :=
      (runs_migrationBatch h).mapError_ok.transaction
    exact CofferFS.runs_openDb h.version_eq (Or.inr rfl)
      (runs_pragma.bind (hmigrate.bind (runs_xattrsSchema rfl)))
  | migrated => exact hcurrent (version_migrated h) rfl
  | table => exact hcurrent (version_migrated h) rfl
  | full => exact hcurrent (version_migrated h) rfl

/-! ## What is kept -/

/-- The extended attribute `n` of `i`. -/
def Container.attr (c : Container) (i : Ino) (n : String) : Option (List UInt8) :=
  c.xattrs.bind fun x => x.lookup (i, n)

/-- A row of `data` or `xattrs` is about `i`. -/
def Container.Owns (c : Container) (i : Ino) : Prop :=
  (∃ b, (i, b) ∈ c.data) ∨ ∃ x n, c.xattrs = some x ∧ (i, n) ∈ x

/-- `db` holds the files of `c`: every path leads to the same number, and every number has the same
row, the same blocks and the same extended attributes. -/
structure SameFiles (c : Container) (rows : Table Ino InodeV1) (db : Db) : Prop where
  resolve : ∀ path, db.tree.resolve rootIno path = (treeV1 rows).resolve rootIno path
  row : ∀ i, db.inodes.lookup i = (rows.lookup i).map InodeV1.toInode
  data : db.data = c.data
  attr : ∀ i n, db.attr i n = c.attr i n

/-- `c'` is a container in format 2 that holds the files of `c` in a tree. Rows of `data` and
`xattrs` that belonged to no inode before belong to none now. -/
structure Upgraded (c : Container) (rows : Table Ino InodeV1) (c' : Container) : Prop where
  version : c'.version = .ok schemaVersion
  tables : ∃ db, c'.tables = some db ∧ SameFiles c rows db ∧ db.tree.WellFormed rootIno ∧
    ((∀ i, c.Owns i → i ∈ rows) → db.TreeInv)

/-- The table of the extended attributes is there, and its trigger. -/
structure Container.Complete (c : Container) : Prop where
  xattrs : c.xattrs.isSome
  xattrsGc : c.xattrsGc = true

/-- The migrated container holds the files, whatever there is of `xattrs` and its trigger. -/
theorem upgraded_of_tables (h : FormatV1 c rows) {sequence : ℤ}
    {xattrs : Option (Table (Ino × String) (List UInt8))} {gc : Bool}
    (hversion : c'.version = .ok schemaVersion)
    (htables : c'.tables = some ⟨inodesOf rows, sequence, dentriesOf rows, c.data, xattrs, gc⟩)
    (hxattrs : xattrs = c.xattrs ∨ xattrs = some (c.xattrs.getD ∅)) : Upgraded c rows c' := by
  have hc : Converted rows ⟨inodesOf rows, sequence, dentriesOf rows, c.data, xattrs, gc⟩ :=
    h.rows_ok.converted rfl rfl
  have hroot : rootIno ∈ rows := by
    obtain ⟨r, hr, -⟩ := h.rows_ok.root
    exact AList.mem_of_lookup_eq_some hr
  have hattr (k : Ino × String) :
      (xattrs.bind fun x => x.lookup k) = c.xattrs.bind fun x => x.lookup k := by
    rcases hxattrs with rfl | rfl
    · rfl
    · cases c.xattrs <;> simp
  refine ⟨hversion, _, htables, ⟨fun path => ?_, hc.inodes, rfl, fun i n => hattr (i, n)⟩,
    hc.wellFormed h.rows_ok, fun howned => ?_⟩
  · exact hc.resolve_eq h.rows_ok path hroot
  · refine Db.treeInv_iff.2 ⟨hc.wellFormed h.rows_ok, fun i hi => hc.mem_inodes.2 (howned i ?_)⟩
    rcases hi with ⟨b, hb⟩ | ⟨x, n, hx, hn⟩
    · exact Or.inl ⟨b, hb⟩
    · have hsome : (c.xattrs.bind fun x => x.lookup (i, n)).isSome := by
        rw [← hattr, show xattrs = some x from hx]
        exact AList.lookup_isSome.2 hn
      obtain ⟨value, hvalue⟩ := Option.isSome_iff_exists.1 hsome
      obtain ⟨x', hx', hlookup⟩ := Option.bind_eq_some_iff.1 hvalue
      exact Or.inr ⟨x', n, hx', AList.mem_of_lookup_eq_some hlookup⟩

/-- An open leaves the container in format 1 behind, or an upgraded one. -/
theorem Stage.old_or_upgraded (h : FormatV1 c rows) {s : Container} (hs : Stage c rows s) :
    s = c ∨ Upgraded c rows s := by
  have hversion := version_migrated h
  cases hs with
  | old => exact Or.inl rfl
  | migrated => exact Or.inr (upgraded_of_tables h hversion rfl (Or.inl rfl))
  | table => exact Or.inr (upgraded_of_tables h hversion rfl (Or.inr rfl))
  | full => exact Or.inr (upgraded_of_tables h hversion rfl (Or.inr rfl))

theorem direct_pragma : pragma.Direct := direct_mapError (direct_update _)

theorem direct_openDb {readonly exclusive : Bool} : (openDb readonly exclusive).Direct := by
  have hlocking : (if exclusive then pragma else pure ()).Direct := by
    cases exclusive
    · exact direct_pure ()
    · exact direct_pragma
  have hupgrade (outdated : Bool) : (upgrade outdated).Direct := by
    have hmigrate : (if outdated then migrateToV2 else pure ()).Direct := by
      cases outdated
      · exact direct_pure ()
      · exact direct_transaction (direct_mapError direct_migrationBatch)
    refine direct_bind direct_pragma fun _ => direct_bind hmigrate fun _ => direct_mapError ?_
    exact direct_bind (direct_update _) fun _ => direct_exec _
  refine direct_bind direct_pragma fun _ => direct_bind direct_pragma fun _ =>
    direct_bind hlocking fun _ => direct_bind (direct_mapError (direct_query _)) fun schema => ?_
  refine direct_bind ?_ fun _ => direct_bind ?_ fun _ => direct_pragma
  · split_ifs
    · exact direct_stop _
    · exact direct_pure ()
  · cases readonly
    · exact hupgrade _
    · exact direct_pure ()

end Scripts

/-- One open, with whatever failures. One that is cut off is one whose statements fail from there
on. -/
def Opens (c c' : Container) : Prop :=
  ∃ readonly exclusive r, (openDb readonly exclusive).Yields c r c'

/-- **The migration keeps the files, and happens completely or not at all.** From a well-formed
container in format 1, whatever opens there are and whatever in them fails, the file holds that
container or an upgraded one; a writable open that succeeds makes the same complete container of
each of them, and a further open changes nothing. -/
theorem migration_preserves {c : Container} {rows : Table Ino InodeV1} (h : FormatV1 c rows) :
    ∃ full, Upgraded c rows full ∧ full.Complete ∧
      (∀ c', ReflTransGen Opens c c' → (c' = c ∨ Upgraded c rows c') ∧
        ∀ exclusive, (openDb false exclusive).Runs c' (.ok ()) full ∧
          ∀ c'', (openDb false exclusive).Yields c' (.ok ()) c'' → c'' = full) ∧
      ∀ c', Opens full c' → c' = full := by
  refine ⟨(c.migrated rows).completed, upgraded_of_tables h (version_migrated h) rfl (Or.inr rfl),
    ⟨rfl, rfl⟩, fun c' hopens => ?_, fun c' hopen => ?_⟩
  · have hstage : Stage c rows c' := by
      induction hopens with
      | refl => exact .old
      | tail _ hlast ih =>
        obtain ⟨readonly, exclusive, r, hy⟩ := hlast
        exact ih.openDb h hy
    refine ⟨hstage.old_or_upgraded h, fun exclusive => ⟨hstage.runs_openDb h exclusive, ?_⟩⟩
    intro c'' hy
    exact direct_openDb.store_eq hy (hstage.runs_openDb h exclusive)
  · obtain ⟨readonly, exclusive, r, hy⟩ := hopen
    rcases openDb_cases hy with hsame | ⟨schema, q, -, hschema, -, hup⟩
    · exact hsame
    · obtain rfl : schema = schemaVersion :=
        Except.ok.inj (hschema.symm.trans (version_migrated h))
      rcases upgrade_current hup with hsame | hsame | hsame
      exacts [hsame, hsame, hsame]

/-! ## A small container in format 1 -/

/-- The row of a directory or an empty file in format 1. -/
def rowV1 (kind : Kind) (parent : Ino) (name : String) : InodeV1 where
  kind := kind
  mode := 0
  uid := 0
  gid := 0
  size := 0
  atime := 0
  mtime := 0
  ctime := 0
  symlinkTarget := none
  parent := parent
  name := name

/-- The root with a file, and a directory with a file. -/
def smallRows : Table Ino InodeV1 :=
  ((((∅ : Table Ino InodeV1).insert 1 (rowV1 .dir 0 "")).insert 2 (rowV1 .dir 1 "sub")).insert 7
    (rowV1 .file 1 "a.txt")).insert 9 (rowV1 .file 2 "b.txt")

/-- The container that holds them. Its last file, number 12, was deleted. -/
def Container.small : Container where
  «meta» := (∅ : Table String String).insert "schema_version" "1"
  inodes := some (.v1 smallRows)
  inodesV2 := none
  sequence := (∅ : Table String ℤ).insert "inodes" 12
  dentries := none
  idxDentriesIno := false
  data := ∅
  xattrs := none
  xattrsGc := false

theorem rowsOk_smallRows : RowsOk smallRows := by
  have hrow {i : Ino} {r : InodeV1} (hr : smallRows.lookup i = some r) :
      (⟨i, r⟩ : Σ _ : Ino, InodeV1) ∈ smallRows.entries := AList.mem_entries_iff.2 hr
  refine ⟨⟨rowV1 .dir 0 "", by decide +kernel, rfl⟩, ?_, ?_, ?_⟩
  · intro i j r s hr hs hparent hname
    have hall : ∀ e ∈ smallRows.entries, ∀ e' ∈ smallRows.entries, e.2.parent = e'.2.parent →
        e.2.name = e'.2.name → e.1 = e'.1 := by
      decide +kernel
    exact hall _ (hrow hr) _ (hrow hs) hparent hname
  · intro i r hr hroot
    have hall : ∀ e ∈ smallRows.entries, e.1 ≠ rootIno →
        (smallRows.lookup e.2.parent).map (fun p => p.kind) = some .dir := by
      decide +kernel
    exact Option.map_eq_some_iff.1 (hall _ (hrow hr) hroot)
  · -- every row has a greater number than its parent
    have hlt (i p : Ino) (hup : UpV1 smallRows i p) : p < i := by
      obtain ⟨r, hr, rfl⟩ := hup
      have hall : ∀ e ∈ smallRows.entries, e.2.parent < e.1 := by decide +kernel
      exact hall _ (hrow hr)
    have htrans {i p : Ino} (hup : TransGen (UpV1 smallRows) i p) : p < i := by
      induction hup with
      | single hup => exact hlt _ _ hup
      | tail _ hup ih => exact (hlt _ _ hup).trans ih
    exact fun i hcirc => lt_irrefl i (htrans hcirc)

theorem formatV1_small : FormatV1 .small smallRows :=
  ⟨rfl, by decide, rfl, rfl, rfl, rowsOk_smallRows⟩

theorem migration_preserves_small :
    ∃ full, Upgraded .small smallRows full ∧ full.Complete := by
  obtain ⟨full, hupgraded, hcomplete, -⟩ := migration_preserves formatV1_small
  exact ⟨full, hupgraded, hcomplete⟩

/-- The same with a block of an inode that does not exist. -/
def Container.orphan : Container :=
  { Container.small with data := (∅ : Table (Ino × ℕ) (List UInt8)).insert (99, 0) [1] }

/-- **A block that belongs to no inode is carried over**: what the migration makes of such a
container is a tree of names, but its rows do not all belong to it. -/
theorem orphan_carried_over : ¬ ∀ c rows full, FormatV1 c rows →
    (openDb false false).Runs c (.ok ()) full →
    ∃ db, full.tables = some db ∧ db.TreeInv := by
  intro h
  have hformat : FormatV1 .orphan smallRows := ⟨rfl, by decide, rfl, rfl, rfl, rowsOk_smallRows⟩
  obtain ⟨db, hdb, htree⟩ := h .orphan smallRows _ hformat (Stage.old.runs_openDb hformat false)
  have howner : (99 : Ino) ∈ db.inodes := by
    refine htree.data_owned 99 0 ?_
    cases hdb
    decide
  rw [← AList.lookup_isSome] at howner
  cases hdb
  revert howner
  decide +kernel

end CofferFS
