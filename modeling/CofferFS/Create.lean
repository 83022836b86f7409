import CofferFS.Ipc
import CofferFS.Migration
import CofferFS.Quote

/-!
# The creation of a container

`create_container` executes its statements one by one, each of them a transaction of its own, so
what it leaves behind when it is interrupted is what a number of first statements have made.
`creation_atomic_iff` says at which of them an open finds a complete container or none: at all but
those between the row that makes the file a container and the row with its ceiling, which then
counts as unlimited.
-/

namespace CofferFS

open Script

/-! ## The statements -/

namespace Container

/-- An empty file. `meta` and `data` are empty where the tables do not exist yet. -/
def blank : Container where
  «meta» := ∅
  inodes := none
  inodesV2 := none
  sequence := ∅
  dentries := none
  idxDentriesIno := false
  data := ∅
  xattrs := none
  xattrsGc := false

/-- A `PRAGMA` changes no table. -/
def executePragma (_sql : Text) : Statement := fun c => .ok ((), c)

/-- `CREATE TABLE meta (…)` -/
def createMeta : Statement := fun c => .ok ((), c)

/-- `CREATE TABLE inodes (…)` -/
def createInodes : Statement := fun c =>
  match c.inodes with
  | some _ => .error .other
  | none => .ok ((), { c with inodes := some (.v2 ∅) })

/-- `CREATE TABLE data (…)` -/
def createData : Statement := fun c => .ok ((), c)

/-- `INSERT INTO inodes (ino, kind, …) VALUES (1, ?1, …)` -/
def insertRoot (now : F64) (uid gid : UInt32) : Statement := fun c =>
  match c.inodes with
  | some (.v2 rows) =>
    match rows.insertNew rootIno
      { kind := .dir, mode := sIfDir ||| 0o700, uid, gid, size := 0
        atime := now, mtime := now, ctime := now, symlinkTarget := none } with
    | some rows => .ok ((), { c with
        inodes := some (.v2 rows), sequence := raise "inodes" c.sequence rootIno })
    | none => .error .other
  | _ => .error .other

/-- `INSERT INTO meta (key, value) VALUES (?1, ?2)` -/
def insertMeta (k v : String) : Statement := fun c =>
  match c.meta.insertNew k v with
  | some rows => .ok ((), { c with «meta» := rows })
  | none => .error .other

/-- `read_max_size` -/
def readMaxSize (c : Container) : ℕ :=
  ((c.meta.lookup "max_size").bind fun s => Ipc.parseU64 s.toList).getD 0

end Container

open Container

/-- The time as a number, and as `to_string` writes it. -/
structure CreationTime where
  now : F64
  text : String

/-- The rows of `meta`, with the version first and the ceiling last. -/
def metaRows (time : CreationTime) (maxSize : UInt64) : List (String × String) :=
  [("schema_version", schemaVersion), ("created_at", time.text),
    ("block_size", toString blockSize), ("max_size", toString maxSize.toNat)]

/-- The statements before the rows of `meta`. -/
def setupStatements (password : Text) (time : CreationTime) (uid gid : UInt32) : List Statement :=
  [executePragma "PRAGMA cipher_log_level = NONE;".toList,
    executePragma (PasswordUse.create.sql password),
    executePragma "PRAGMA cipher_page_size = 4096;".toList,
    -- SCHEMA
    createMeta, createInodes, createDentries, createIndex, createData,
    -- XATTRS_SCHEMA
    fun c => .ok ((), c.createXattrs), createTrigger,
    insertRoot time.now uid gid]

/-- The statements of `create_container`. -/
def createStatements (password : Text) (time : CreationTime) (uid gid : UInt32)
    (maxSize : UInt64) : List Statement :=
  setupStatements password time uid gid ++
    (metaRows time maxSize).map (fun row => insertMeta row.1 row.2) ++
      [executePragma "PRAGMA journal_mode = WAL;".toList]

/-- One statement after the other, up to one that fails. -/
def executeAll : List Statement → Script OpenFailure Container OpenFailure Unit
  | [] => pure ()
  | s :: rest => do
    exec s
    executeAll rest

/-- `create_container`, from the new file on. -/
def createContainer (password : Text) (time : CreationTime) (uid gid : UInt32) (maxSize : UInt64) :
    Script OpenFailure Container OpenFailure Unit :=
  executeAll (createStatements password time uid gid maxSize)

/-- The process is killed before statement `n`, or the disk is full there. -/
def cutOffAt (n : ℕ) : ℕ → Option OpenFailure := fun k => if k = n then some .other else none

/-- The file that is left behind when the creation is interrupted after `n` statements. -/
def interrupted (password : Text) (time : CreationTime) (uid gid : UInt32) (maxSize : UInt64)
    (n : ℕ) : Container :=
  ((createContainer password time uid gid maxSize).run (cutOffAt n) 0 .blank).store

/-! ## What a number of statements leaves -/

/-- The file after a list of statements, up to one that fails by itself. -/
def afterAll : List Statement → Container → Container
  | [], c => c
  | s :: rest, c =>
    match s c with
    | .ok (_, c') => afterAll rest c'
    | .error _ => c

theorem run_executeAll (ss : List Statement) (m n : ℕ) (c : Container) :
    ((executeAll ss).run (cutOffAt (m + n)) m c).store = afterAll (ss.take n) c := by
  induction ss generalizing m n c with
  | nil => rw [List.take_nil]; rfl
  | cons s rest ih =>
    cases n with
    | zero =>
      have hm : cutOffAt (m + 0) m = some .other := if_pos rfl
      rw [executeAll, run_bind, run_exec, hm]
      rfl
    | succ n =>
      have hm : cutOffAt (m + (n + 1)) m = none := if_neg (by omega)
      rw [executeAll, run_bind, run_exec, hm, List.take_succ_cons, afterAll]
      cases hs : s c with
      | error e => rfl
      | ok p =>
        obtain ⟨u, c'⟩ := p
        have hnext : m + (n + 1) = m + 1 + n := by omega
        rw [hnext]
        exact ih (m + 1) n c'

/-- The statement leaves `meta` alone. -/
def KeepsMeta (s : Statement) : Prop := ∀ c c' u, s c = .ok (u, c') → c'.meta = c.meta

theorem meta_afterAll {ss : List Statement} (h : ∀ s ∈ ss, KeepsMeta s) (c : Container) :
    (afterAll ss c).meta = c.meta := by
  induction ss generalizing c with
  | nil => rfl
  | cons s rest ih =>
    rw [List.forall_mem_cons] at h
    rw [afterAll]
    split
    · next u c' hs => rw [ih h.2, h.1 c c' u hs]
    · rfl

/-- Rows with keys of their own are inserted, and nothing else changes. -/
theorem afterAll_insertMeta {rows : List (String × String)} {c : Container}
    (hnd : (rows.map Prod.fst).Nodup) (hfree : ∀ row ∈ rows, c.meta.lookup row.1 = none) :
    ∃ t, (∀ rest, afterAll (rows.map (fun row => insertMeta row.1 row.2) ++ rest) c =
        afterAll rest { c with «meta» := t }) ∧
      ∀ k, t.lookup k = (rows.lookup k).or (c.meta.lookup k) := by
  induction rows generalizing c with
  | nil => exact ⟨c.meta, fun _ => rfl, fun _ => rfl⟩
  | cons row rows ih =>
    obtain ⟨k, v⟩ := row
    rw [List.map_cons, List.nodup_cons] at hnd
    rw [List.forall_mem_cons] at hfree
    have hinsert : insertMeta k v c = .ok ((), { c with «meta» := c.meta.insert k v }) := by
      rw [insertMeta, AList.insertNew_eq_some_iff.2 ⟨hfree.1, rfl⟩]
    have hne : ∀ row ∈ rows, row.1 ≠ k := by
      intro row hrow hk
      exact hnd.1 (List.mem_map.2 ⟨row, hrow, hk⟩)
    obtain ⟨t, hafter, hlookup⟩ := @ih { c with «meta» := c.meta.insert k v } hnd.2 fun row hrow => by
      show (c.meta.insert k v).lookup row.1 = none
      rw [AList.lookup_insert_ne (hne row hrow)]
      exact hfree.2 row hrow
    refine ⟨t, fun rest => ?_, fun k' => ?_⟩
    · rw [List.map_cons, List.cons_append, afterAll, hinsert]
      exact hafter rest
    · rw [hlookup, List.lookup_cons]
      show (rows.lookup k').or ((c.meta.insert k v).lookup k') = _
      by_cases hk : k' = k
      · subst hk
        have hnone : rows.lookup k' = none := by
          rw [List.lookup_eq_none_iff]
          intro row hrow
          exact bne_iff_ne.2 (hne row hrow).symm
        rw [hnone, AList.lookup_insert, beq_self_eq_true]
        rfl
      · rw [AList.lookup_insert_ne hk, beq_eq_false_iff_ne.2 hk]

section Creation

variable {password : Text} {time : CreationTime} {uid gid : UInt32} {maxSize : UInt64} {n : ℕ}

theorem interrupted_eq : interrupted password time uid gid maxSize n =
    afterAll ((createStatements password time uid gid maxSize).take n) .blank := by
  have h := run_executeAll (createStatements password time uid gid maxSize) 0 n .blank
  rwa [Nat.zero_add] at h

/-- The tables of a new container, without the rows of `meta`. -/
def laidOut (time : CreationTime) (uid gid : UInt32) : Container where
  «meta» := ∅
  inodes := some (.v2 (Db.created time.now uid gid).inodes)
  inodesV2 := none
  sequence := (∅ : Table String ℤ).insert "inodes" rootIno
  dentries := some ∅
  idxDentriesIno := true
  data := ∅
  xattrs := some ∅
  xattrsGc := true

/-- None of the statements before touches `meta`. -/
theorem setup_keepsMeta : ∀ s ∈ setupStatements password time uid gid, KeepsMeta s := by
  have hsame {f : Container → Container} (hf : ∀ c, (f c).meta = c.meta) :
      KeepsMeta fun c => .ok ((), f c) := by
    intro c c' u h
    cases h
    exact hf c
  have hinodes : KeepsMeta createInodes := by
    intro c c' u h
    unfold createInodes at h
    split at h <;> cases h
    rfl
  have hdentries : KeepsMeta createDentries := by
    intro c c' u h
    unfold createDentries at h
    split at h <;> cases h
    rfl
  have hindex : KeepsMeta createIndex := by
    intro c c' u h
    unfold createIndex at h
    split_ifs at h
    cases h
    rfl
  have htrigger : KeepsMeta createTrigger := by
    intro c c' u h
    unfold createTrigger at h
    split at h <;> cases h
    rfl
  have hroot : KeepsMeta (insertRoot time.now uid gid) := by
    intro c c' u h
    unfold insertRoot at h
    split at h
    · split at h <;> cases h
      rfl
    · cases h
  rw [setupStatements]
  simp only [List.forall_mem_cons]
  exact ⟨hsame fun _ => rfl, hsame fun _ => rfl, hsame fun _ => rfl, hsame fun _ => rfl, hinodes,
    hdentries, hindex, hsame fun _ => rfl, hsame fun _ => rfl, htrigger, hroot,
    List.forall_mem_nil _⟩

/-- The number of the statement that makes the file a container. -/
def versionStatement : ℕ := 11

/-- The number of the statement that stores the ceiling. -/
def ceilingStatement : ℕ := 14

/-- Before the first row of `meta` there is none. -/
theorem meta_interrupted (hn : n ≤ versionStatement) :
    (interrupted password time uid gid maxSize n).meta = ∅ := by
  rw [interrupted_eq, createStatements, List.append_assoc, List.take_append_of_le_length hn]
  exact meta_afterAll (fun s hs => setup_keepsMeta s (List.mem_of_mem_take hs)) _

/-- From then on the tables are complete, and the rows come one by one. -/
theorem exists_interrupted (hn : versionStatement < n) :
    ∃ t, interrupted password time uid gid maxSize n = { laidOut time uid gid with «meta» := t } ∧
      ∀ k, t.lookup k = ((metaRows time maxSize).take (n - versionStatement)).lookup k := by
  have hnd : (((metaRows time maxSize).take (n - versionStatement)).map Prod.fst).Nodup := by
    rw [List.map_take]
    exact (List.take_sublist _ _).nodup (by decide +kernel :
      ["schema_version", "created_at", "block_size", "max_size"].Nodup)
  obtain ⟨t, hafter, hlookup⟩ := @afterAll_insertMeta _ (laidOut time uid gid) hnd fun _ _ => rfl
  refine ⟨t, ?_, fun k => ?_⟩
  · have hsetup (ss : List Statement) : afterAll (setupStatements password time uid gid ++ ss) .blank =
        afterAll ss (laidOut time uid gid) := rfl
    have hlen : (setupStatements password time uid gid).length = versionStatement := rfl
    rw [interrupted_eq, createStatements, List.append_assoc, List.take_append, hlen,
      List.take_of_length_le (hlen.le.trans hn.le), hsetup, List.take_append, ← List.map_take, hafter]
    -- the last statement, if it is executed, changes no table
    rcases n - versionStatement - ((metaRows time maxSize).map _).length with _ | k
    · rfl
    · rw [List.take_succ_cons, List.take_nil]
      rfl
  · rw [hlookup]
    show (List.lookup k _).or ((∅ : Table String String).lookup k) = _
    rw [AList.lookup_empty, Option.or_none]

end Creation

/-! ## What an open finds -/

/-- The container is complete and empty, and has the ceiling that was asked for. -/
structure Container.Fresh (c : Container) (time : CreationTime) (uid gid : UInt32)
    (maxSize : UInt64) : Prop where
  tables : c.tables = some (.created time.now uid gid)
  version : c.version = .ok schemaVersion
  ceiling : c.readMaxSize = maxSize.toNat

/-- An open of the file fails, or finds a complete container. -/
def FreshOrRefused (c : Container) (time : CreationTime) (uid gid : UInt32) (maxSize : UInt64) :
    Prop :=
  ∀ readonly exclusive c', (openDb readonly exclusive).Yields c (.ok ()) c' →
    c'.Fresh time uid gid maxSize

/-- An open succeeds only if it finds a version. -/
theorem version_of_opened {c c' : Container} {readonly exclusive : Bool} {u : Unit}
    (hy : (openDb readonly exclusive).Yields c (.ok u) c') : ∃ schema, c.version = .ok schema := by
  have hlocking : (if exclusive then pragma else pure ()).ReadOnly := by
    cases exclusive
    · exact readOnly_pure ()
    · exact readOnly_pragma
  obtain ⟨_, -, hy⟩ := hy.after readOnly_pragma
  obtain ⟨_, -, hy⟩ := hy.after readOnly_pragma
  obtain ⟨_, -, hy⟩ := hy.after hlocking
  obtain ⟨schema, hschema, -⟩ := hy.after (readOnly_mapError (readOnly_query _))
  exact ⟨schema, (yields_query_ok.1 (yields_mapError_ok.1 hschema)).1⟩

section Opens

variable {password : Text} {time : CreationTime} {uid gid : UInt32} {maxSize : UInt64} {n : ℕ}
  {t : Table String String}

theorem version_laidOut (ht : t.lookup "schema_version" = some schemaVersion) :
    ({ laidOut time uid gid with «meta» := t } : Container).version = .ok schemaVersion := by
  have hlookup : ({ laidOut time uid gid with «meta» := t } : Container).meta.lookup
      "schema_version" = some schemaVersion := ht
  rw [version, hlookup]

/-- An open leaves a new container as it is. -/
theorem openDb_laidOut {c' : Container} {readonly exclusive : Bool} {r : Except OpenError Unit}
    (ht : t.lookup "schema_version" = some schemaVersion)
    (hy : (openDb readonly exclusive).Yields { laidOut time uid gid with «meta» := t } r c') :
    c' = { laidOut time uid gid with «meta» := t } := by
  rcases openDb_cases hy with h | ⟨schema, q, -, hschema, -, hup⟩
  · exact h
  · obtain rfl : schema = schemaVersion := Except.ok.inj (hschema.symm.trans (version_laidOut ht))
    rcases upgrade_current hup with h | h | h
    exacts [h, h, h]

/-- A writable open in which nothing fails succeeds. -/
theorem runs_openDb_laidOut (ht : t.lookup "schema_version" = some schemaVersion) :
    (openDb false false).Runs { laidOut time uid gid with «meta» := t } (.ok ())
      { laidOut time uid gid with «meta» := t } := by
  have hxattrs : xattrsSchema.Runs { laidOut time uid gid with «meta» := t } (.ok ())
      ({ laidOut time uid gid with «meta» := t } : Container).completed := runs_xattrsSchema rfl
  exact runs_openDb (version_laidOut ht) (Or.inl rfl) (runs_pragma.bind ((runs_pure ()).bind hxattrs))

theorem lookup_version (hn : versionStatement < n) :
    ((metaRows time maxSize).take (n - versionStatement)).lookup "schema_version" =
      some schemaVersion := by
  obtain ⟨j, rfl⟩ := Nat.exists_eq_add_of_lt hn
  rw [show versionStatement + j + 1 - versionStatement = j + 1 by omega]
  rfl

/-- The ceiling is read as stored, and as none before it is stored. -/
theorem lookup_ceiling (hn : versionStatement < n) :
    ((metaRows time maxSize).take (n - versionStatement)).lookup "max_size" =
      if n ≤ ceilingStatement then none else some (toString maxSize.toNat) := by
  unfold versionStatement at hn ⊢
  unfold ceilingStatement
  split_ifs with hle
  · obtain rfl | rfl | rfl : n = 12 ∨ n = 13 ∨ n = 14 := by omega
    · rfl
    · rfl
    · rfl
  · have hlen : (metaRows time maxSize).length ≤ n - 11 := by
      have : (metaRows time maxSize).length = 4 := rfl
      omega
    rw [List.take_of_length_le hlen]
    rfl

theorem readMaxSize_laidOut (ht : t.lookup "max_size" =
      if n ≤ ceilingStatement then none else some (toString maxSize.toNat)) :
    ({ laidOut time uid gid with «meta» := t } : Container).readMaxSize =
      if n ≤ ceilingStatement then 0 else maxSize.toNat := by
  show ((t.lookup "max_size").bind _).getD 0 = _
  rw [ht]
  split_ifs
  · rfl
  · have hdigits : (toString maxSize.toNat).toList = Nat.toDigits 10 maxSize.toNat :=
      String.toList_ofList
    rw [Option.bind_some, hdigits, Ipc.parseU64_toDigits maxSize.toNat_lt]
    rfl

end Opens

/-- **An interrupted creation leaves a complete container or none that opens, exactly if it has no
ceiling or is not interrupted between the rows of the version and of the ceiling.** -/
theorem creation_atomic_iff (password : Text) (time : CreationTime) (uid gid : UInt32)
    (maxSize : UInt64) (n : ℕ) :
    FreshOrRefused (interrupted password time uid gid maxSize n) time uid gid maxSize ↔
      (versionStatement < n → n ≤ ceilingStatement → maxSize = 0) := by
  by_cases hn : versionStatement < n
  · obtain ⟨t, hc, hlookup⟩ :=
      @exists_interrupted password time uid gid maxSize n hn
    have hversion := (hlookup "schema_version").trans (lookup_version hn)
    have hceiling := @readMaxSize_laidOut time uid gid maxSize n t
      ((hlookup "max_size").trans (lookup_ceiling hn))
    rw [hc]
    constructor
    · intro h _ hle
      have hfresh := (h false false _ (runs_openDb_laidOut hversion).yields).ceiling
      rw [hceiling, if_pos hle] at hfresh
      exact UInt64.toNat_inj.1 hfresh.symm
    · intro hmax readonly exclusive c' hy
      obtain rfl := openDb_laidOut hversion hy
      refine ⟨rfl, version_laidOut hversion, hceiling.trans ?_⟩
      split_ifs with hle
      · rw [hmax hn hle]
        rfl
      · rfl
  · refine iff_of_true (fun readonly exclusive c' hy => ?_) fun h => (hn h).elim
    obtain ⟨schema, hschema⟩ := version_of_opened hy
    rw [version, meta_interrupted (not_lt.1 hn)] at hschema
    cases hschema

/-- A creation with a ceiling of a megabyte that is interrupted after the row of the version opens
as a container without a ceiling. -/
theorem creation_loses_ceiling : ¬ ∀ password time uid gid maxSize n,
    FreshOrRefused (interrupted password time uid gid maxSize n) time uid gid maxSize := by
  intro h
  obtain ⟨t, hc, hlookup⟩ :=
    @exists_interrupted ['p', 'w'] ⟨0, "0"⟩ 0 0 1048576 12 (by decide)
  have hversion := (hlookup "schema_version").trans (lookup_version (by decide))
  have hceiling := @readMaxSize_laidOut ⟨0, "0"⟩ 0 0 1048576 12 t
    ((hlookup "max_size").trans (lookup_ceiling (by decide)))
  have hopen := h ['p', 'w'] ⟨0, "0"⟩ 0 0 1048576 12 false false
  rw [hc] at hopen
  have hfresh := (hopen _ (runs_openDb_laidOut hversion).yields).ceiling
  rw [hceiling] at hfresh
  exact absurd hfresh (by decide)

end CofferFS
