import CofferFS.Lib.Numbering
import CofferFS.Migration
import CofferFS.Stale

/-!
# Inode numbers over the life of a container

A life starts with a new container, in either format. While it is in format 1, files come and go by
the code of an older coffer; opens may migrate it; from then on it serves requests. The invariant
behind `numbers_never_reused` is that the sequence of `inodes` is never below a number that was
handed out. The migration keeps it because the sequence of the new table is raised to the old one
before the old one goes.
-/

namespace CofferFS

open Script Relation

/-! ## Changes in format 1 -/

/-- What a coffer of format 1 did to the rows and their sequence: a new row got a number above the
sequence and above every row, and went into a directory under a free name; the row that was deleted
was nobody's parent; and other updates kept the numbers, and the rows a tree. -/
inductive ChangeV1 (rows : Table Ino InodeV1) (seq : ℤ) : Table Ino InodeV1 → ℤ → Prop
  | create {i : Ino} {r p : InodeV1} : seq < i → (∀ k ∈ rows, k < i) →
      rows.lookup r.parent = some p → p.kind = .dir →
      (∀ k s, rows.lookup k = some s → (s.parent, s.name) ≠ (r.parent, r.name)) →
      ChangeV1 rows seq (rows.insert i r) i
  | delete {i : Ino} : i ≠ rootIno → (∀ k s, rows.lookup k = some s → s.parent ≠ i) →
      ChangeV1 rows seq (rows.erase i) seq
  | update {rows' : Table Ino InodeV1} : (∀ i, i ∈ rows' ↔ i ∈ rows) → RowsOk rows' →
      (∀ r, rows'.lookup rootIno = some r → r.parent = 0) → ChangeV1 rows seq rows' seq

/-- The rows are a tree whose root has the parent 0, and the sequence is not below any of them. -/
structure NumbersV1 (rows : Table Ino InodeV1) (seq : ℤ) : Prop where
  rows_ok : RowsOk rows
  root_parent : ∀ r, rows.lookup rootIno = some r → r.parent = 0
  le_seq : ∀ i ∈ rows, i ≤ seq

namespace NumbersV1

variable {rows rows' : Table Ino InodeV1} {seq seq' : ℤ} (h : NumbersV1 rows seq)

include h

theorem root_le : rootIno ≤ seq := by
  obtain ⟨r, hr, -⟩ := h.rows_ok.root
  exact h.le_seq rootIno (AList.mem_of_lookup_eq_some hr)

/-- No row has a parent above the sequence. -/
theorem parent_le {i : Ino} {r : InodeV1} (hr : rows.lookup i = some r) : r.parent ≤ seq := by
  by_cases hroot : i = rootIno
  · rw [h.root_parent r (hroot ▸ hr)]
    exact le_trans (by decide) h.root_le
  · obtain ⟨p, hp, -⟩ := h.rows_ok.parent i r hr hroot
    exact h.le_seq _ (AList.mem_of_lookup_eq_some hp)

theorem create {i : Ino} {r p : InodeV1} (hi : seq < i) (hp : rows.lookup r.parent = some p)
    (hdir : p.kind = .dir)
    (hfree : ∀ k s, rows.lookup k = some s → (s.parent, s.name) ≠ (r.parent, r.name)) :
    NumbersV1 (rows.insert i r) i := by
  have hparent_ne : r.parent ≠ i := ((h.le_seq _ (AList.mem_of_lookup_eq_some hp)).trans_lt hi).ne
  have hroot_ne : rootIno ≠ i := (h.root_le.trans_lt hi).ne
  have hcases {k : Ino} {s : InodeV1} (hs : (rows.insert i r).lookup k = some s) :
      k = i ∧ s = r ∨ k ≠ i ∧ rows.lookup k = some s := by
    rw [AList.lookup_insert_eq] at hs
    split_ifs at hs with hk
    · exact Or.inl ⟨hk, (Option.some.inj hs).symm⟩
    · exact Or.inr ⟨hk, hs⟩
  have hold {k : Ino} {s : InodeV1} (hs : rows.lookup k = some s) :
      (rows.insert i r).lookup k = some s := by
    have hk : k ≠ i := ((h.le_seq k (AList.mem_of_lookup_eq_some hs)).trans_lt hi).ne
    rwa [AList.lookup_insert_ne hk]
  -- nothing is in the new row, so it is on no circle
  have hup {k q : Ino} (hup : UpV1 (rows.insert i r) k q) : q ≠ i ∧ (k ≠ i → UpV1 rows k q) := by
    obtain ⟨s, hs, rfl⟩ := hup
    rcases hcases hs with ⟨rfl, rfl⟩ | ⟨hk, hs⟩
    · exact ⟨hparent_ne, fun hne => (hne rfl).elim⟩
    · exact ⟨((h.parent_le hs).trans_lt hi).ne, fun _ => ⟨s, hs, rfl⟩⟩
  have htrans {k q : Ino} (hk : k ≠ i) (htrans : TransGen (UpV1 (rows.insert i r)) k q) :
      q ≠ i ∧ TransGen (UpV1 rows) k q := by
    induction htrans with
    | single hlast => exact ⟨(hup hlast).1, .single ((hup hlast).2 hk)⟩
    | tail _ hlast ih => exact ⟨(hup hlast).1, ih.2.tail ((hup hlast).2 ih.1)⟩
  constructor
  case rows_ok =>
    constructor
    case root =>
      obtain ⟨s, hs, hkind⟩ := h.rows_ok.root
      exact ⟨s, hold hs, hkind⟩
    case unique =>
      intro k l s t hs ht hparent hname
      rcases hcases hs with ⟨rfl, rfl⟩ | ⟨-, hs'⟩
      · rcases hcases ht with ⟨rfl, -⟩ | ⟨-, ht'⟩
        · rfl
        · exact (hfree l t ht' (Prod.ext hparent.symm hname.symm)).elim
      · rcases hcases ht with ⟨rfl, rfl⟩ | ⟨-, ht'⟩
        · exact (hfree k s hs' (Prod.ext hparent hname)).elim
        · exact h.rows_ok.unique k l s t hs' ht' hparent hname
    case parent =>
      intro k s hs hroot
      rcases hcases hs with ⟨rfl, rfl⟩ | ⟨-, hs⟩
      · exact ⟨p, hold hp, hdir⟩
      · obtain ⟨q, hq, hqdir⟩ := h.rows_ok.parent k s hs hroot
        exact ⟨q, hold hq, hqdir⟩
    case acyclic =>
      intro k hcirc
      have hk : k ≠ i := by
        obtain ⟨q, -, hlast⟩ := TransGen.tail'_iff.1 hcirc
        exact (hup hlast).1
      exact h.rows_ok.acyclic k (htrans hk hcirc).2
  case root_parent =>
    intro s hs
    rcases hcases hs with ⟨heq, -⟩ | ⟨-, hs⟩
    · exact (hroot_ne heq).elim
    · exact h.root_parent s hs
  case le_seq =>
    intro k hk
    rcases (AList.mem_insert _).1 hk with rfl | hk
    · exact le_refl _
    · exact (h.le_seq k hk).trans hi.le

theorem delete {i : Ino} (hroot : i ≠ rootIno)
    (hempty : ∀ k s, rows.lookup k = some s → s.parent ≠ i) : NumbersV1 (rows.erase i) seq := by
  have hold {k : Ino} {s : InodeV1} (hs : (rows.erase i).lookup k = some s) :
      rows.lookup k = some s := by
    rw [AList.lookup_erase_eq] at hs
    split_ifs at hs
    exact hs
  have hkept {k : Ino} (hk : k ≠ i) : (rows.erase i).lookup k = rows.lookup k :=
    AList.lookup_erase_ne hk
  constructor
  case rows_ok =>
    constructor
    case root =>
      rw [hkept (Ne.symm hroot)]
      exact h.rows_ok.root
    case unique => exact fun k l s t hs ht => h.rows_ok.unique k l s t (hold hs) (hold ht)
    case parent =>
      intro k s hs hk
      rw [hkept (hempty k s (hold hs))]
      exact h.rows_ok.parent k s (hold hs) hk
    case acyclic =>
      intro k hcirc
      refine h.rows_ok.acyclic k (TransGen.mono (fun a b hup => ?_) k k hcirc)
      obtain ⟨s, hs, hparent⟩ := hup
      exact ⟨s, hold hs, hparent⟩
  case root_parent => exact fun s hs => h.root_parent s (hold hs)
  case le_seq => exact fun k hk => h.le_seq k ((AList.mem_erase.1 hk).2)

/-- A change keeps all of it, does not lower the sequence, and makes numbers above it only. -/
theorem change (hchange : ChangeV1 rows seq rows' seq') :
    NumbersV1 rows' seq' ∧ seq ≤ seq' ∧ ∀ i ∈ rows', i ∈ rows ∨ seq < i := by
  cases hchange with
  | @create i r p hi _ hp hdir hfree =>
    refine ⟨h.create hi hp hdir hfree, hi.le, fun k hk => ?_⟩
    rcases (AList.mem_insert _).1 hk with rfl | hk
    · exact Or.inr hi
    · exact Or.inl hk
  | delete hroot hempty =>
    exact ⟨h.delete hroot hempty, le_refl _, fun k hk => Or.inl (AList.mem_erase.1 hk).2⟩
  | update hkeys hok hroot =>
    exact ⟨⟨hok, hroot, fun i hi => h.le_seq i ((hkeys i).1 hi)⟩, le_refl _,
      fun i hi => Or.inl ((hkeys i).1 hi)⟩

end NumbersV1

/-! ## The sequence in the migration -/

/-- The sequence of `inodes`, which starts at 0. -/
def Container.seq (c : Container) : ℤ := (c.sequence.lookup "inodes").getD 0

section Sequence

variable {table other : String} {l : List Ino} {sequence : Table String ℤ}
  {rows : Table Ino InodeV1}

/-- The copied rows raise the sequence of their table to the largest of them. -/
theorem lookup_raise_self (hl : l ≠ []) :
    (l.foldl (Container.raise table) sequence).lookup table =
      some (l.foldl max ((sequence.lookup table).getD 0)) := by
  induction l generalizing sequence with
  | nil => exact (hl rfl).elim
  | cons i l ih =>
    have hraise : (Container.raise table sequence i).lookup table =
        some (max ((sequence.lookup table).getD 0) i) := AList.lookup_insert _
    rw [List.foldl_cons, List.foldl_cons]
    by_cases hnil : l = []
    · rw [hnil]
      exact hraise
    · rw [ih hnil, hraise]
      rfl

/-- They do not touch the other sequences. -/
theorem lookup_raise_of_ne (hne : other ≠ table) :
    (l.foldl (Container.raise table) sequence).lookup other = sequence.lookup other := by
  induction l generalizing sequence with
  | nil => rfl
  | cons i l ih =>
    rw [List.foldl_cons, ih]
    exact AList.lookup_insert_ne hne

/-- The sequence after the migration is the old one, unless a row is above it. -/
theorem lookup_sequenceOf (hrows : rows.keys ≠ []) :
    (sequenceOf rows sequence).lookup "inodes" =
      some (max (rows.keys.foldl max ((sequence.lookup "inodes_v2").getD 0))
        ((sequence.lookup "inodes").getD 0)) := by
  have hcopied := @lookup_raise_self "inodes_v2" _ sequence hrows
  have hold : (rows.keys.foldl (Container.raise "inodes_v2") sequence).lookup "inodes" =
      sequence.lookup "inodes" := lookup_raise_of_ne (by decide)
  have hcarried : (((rows.keys.foldl (Container.raise "inodes_v2") sequence).updateKey "inodes_v2"
      fun seq => max seq (((rows.keys.foldl (Container.raise "inodes_v2") sequence).lookup
        "inodes").getD 0)).erase "inodes").lookup "inodes_v2" =
      some (max (rows.keys.foldl max ((sequence.lookup "inodes_v2").getD 0))
        ((sequence.lookup "inodes").getD 0)) := by
    rw [AList.lookup_erase_ne (by decide), AList.lookup_updateKey_self, hcopied, hold]
    rfl
  unfold sequenceOf
  dsimp only
  rw [hcarried]
  exact AList.lookup_insert _

theorem seq_migrated {c : Container} (h : FormatV1 c rows) :
    c.seq ≤ (c.migrated rows).seq ∧ ∀ i ∈ rows, i ≤ (c.migrated rows).seq := by
  have hrows : rows.keys ≠ [] := by
    obtain ⟨r, hr, -⟩ := h.rows_ok.root
    exact List.ne_nil_of_mem (AList.mem_of_lookup_eq_some hr)
  have hseq : (c.migrated rows).seq = max (rows.keys.foldl max
      ((c.sequence.lookup "inodes_v2").getD 0)) ((c.sequence.lookup "inodes").getD 0) :=
    congrArg (fun o => Option.getD o 0) (lookup_sequenceOf hrows)
  rw [hseq]
  exact ⟨le_max_right _ _, fun i hi => le_max_of_le_left (Db.le_foldl_max.2 i hi)⟩

end Sequence

/-! ## The steps of a life -/

namespace Container

/-- The number `i` is taken. -/
def Live (c : Container) (i : Ino) : Prop :=
  match c.inodes with
  | some (.v1 rows) => i ∈ rows
  | some (.v2 inodes) => i ∈ inodes
  | none => False

/-- The container after a request has changed the tables to `db`. -/
def withTables (c : Container) (db : Db) : Container :=
  { c with
    inodes := some (.v2 db.inodes)
    sequence := c.sequence.insert "inodes" db.seq
    dentries := some db.dentries
    data := db.data
    xattrs := db.xattrs
    xattrsGc := db.xattrsGc }

theorem tables_withTables (c : Container) (db : Db) : (c.withTables db).tables = some db := by
  have hseq : ((c.sequence.insert "inodes" db.seq).lookup "inodes").getD 0 = db.seq := by
    rw [AList.lookup_insert]
    rfl
  show some ({ db with seq := ((c.sequence.insert "inodes" db.seq).lookup "inodes").getD 0 } : Db) =
    some db
  rw [hseq]

theorem live_iff_of_v1 {c : Container} {rows : Table Ino InodeV1} {i : Ino}
    (h : c.inodes = some (.v1 rows)) : c.Live i ↔ i ∈ rows := by
  rw [Live, h]

/-- What the tables of format 2 say about the container. -/
theorem of_tables {c : Container} {db : Db} (h : c.tables = some db) :
    (∀ i, c.Live i ↔ i ∈ db.inodes) ∧ c.seq = db.seq ∧ ∀ i, c.Owns i ↔ db.Owns i := by
  obtain ⟨«meta», inodes, inodesV2, sequence, dentries, idx, data, xattrs, gc⟩ := c
  unfold tables at h
  split at h
  · cases h
    rename_i hinodes _
    obtain rfl : inodes = _ := hinodes
    exact ⟨fun i => Iff.rfl, rfl, fun i => Iff.rfl⟩
  · cases h

/-- The last statements of an open keep the tables, apart from `xattrs` and its trigger. -/
theorem tables_opened {s c : Container} {db : Db} (h : s.tables = some db)
    (hc : c = s.createXattrs ∨ c = s.completed) : c.version = s.version ∧
      ∃ gc, c.tables =
        some { db with xattrs := some (db.xattrs.getD ∅), xattrsGc := gc } := by
  obtain ⟨«meta», inodes, inodesV2, sequence, dentries, idx, data, xattrs, gc⟩ := s
  unfold tables at h
  split at h
  · cases h
    rename_i hinodes hdentries
    obtain rfl : inodes = _ := hinodes
    obtain rfl : dentries = _ := hdentries
    rcases hc with rfl | rfl
    · exact ⟨rfl, gc, rfl⟩
    · exact ⟨rfl, true, rfl⟩
  · cases h

theorem tables_of_v1 {c : Container} {rows : Table Ino InodeV1} (h : FormatV1 c rows) :
    c.tables = none := by
  rw [tables, h.inodes]

/-- The container after an older coffer has changed its rows, and files and attributes with them. -/
def withRows (c : Container) (rows : Table Ino InodeV1) (seq : ℤ)
    (data : Table (Ino × ℕ) (List UInt8)) (xattrs : Option (Table (Ino × String) (List UInt8)))
    (gc : Bool) : Container :=
  { c with
    inodes := some (.v1 rows)
    sequence := c.sequence.insert "inodes" seq
    data := data
    xattrs := xattrs
    xattrsGc := gc }

/-- A new container, in either format: there is the root, and nothing else. -/
inductive New : Container → Prop
  | v1 {c : Container} {root : InodeV1} :
      FormatV1 c ((∅ : Table Ino InodeV1).insert rootIno root) → root.parent = 0 →
      c.seq = rootIno → (∀ i, ¬ c.Owns i) → New c
  | v2 {c : Container} {now : F64} {uid gid : UInt32} : c.version = .ok schemaVersion →
      c.tables = some (.created now uid gid) → New c

/-- The sequence is not below any number that is taken or that rows belong to, and the names are a
tree. -/
inductive Numbered : Container → Prop
  | v1 {c : Container} {rows : Table Ino InodeV1} : FormatV1 c rows → NumbersV1 rows c.seq →
      (∀ i, c.Owns i → i ≤ c.seq) → Numbered c
  | v2 {c : Container} {db : Db} : c.version = .ok schemaVersion → c.tables = some db →
      db.tree.WellFormed rootIno → (∀ i ∈ db.inodes, i ≤ db.seq) →
      (∀ i, db.Owns i → i ≤ db.seq) → Numbered c

end Container

/-- What can happen to a container: an older coffer changes it while it is in format 1, it is
opened, or a mounted one serves a request. -/
inductive LifeStep : Container → Container → Prop
  | older {c : Container} {rows rows' : Table Ino InodeV1} {seq' : ℤ}
      {data : Table (Ino × ℕ) (List UInt8)}
      {xattrs : Option (Table (Ino × String) (List UInt8))} {gc : Bool} :
      c.inodes = some (.v1 rows) → ChangeV1 rows c.seq rows' seq' →
      (∀ i, (c.withRows rows' seq' data xattrs gc).Owns i → i ∈ rows' ∨ c.Owns i) →
      LifeStep c (c.withRows rows' seq' data xattrs gc)
  | opened {c c' : Container} : Opens c c' → LifeStep c c'
  | request {c : Container} {db : Db} (env : Env) {req : Request} : c.tables = some db →
      KernelOk db req → LifeStep c (c.withTables (step env req db).2)

/-- Some steps of a life. -/
abbrev Life := ReflTransGen LifeStep

/-- `c'` may come after `c`. -/
structure Advances (c c' : Container) : Prop where
  numbered : c'.Numbered
  seq_le : c.seq ≤ c'.seq
  new_gt : ∀ i, c'.Live i → c.Live i ∨ c.seq < i

section Steps

variable {c c' s : Container} {db db' : Db} {rows : Table Ino InodeV1} {i : Ino}

theorem Container.Numbered.advances (h : c.Numbered) : Advances c c :=
  ⟨h, le_refl _, fun _ => Or.inl⟩

theorem Container.Numbered.le_seq (h : c.Numbered) (hi : c.Live i) : i ≤ c.seq := by
  cases h with
  | v1 hformat hnum _ => exact hnum.le_seq i ((Container.live_iff_of_v1 hformat.inodes).1 hi)
  | v2 _ htables _ hle _ =>
    obtain ⟨hlive, hseq, -⟩ := Container.of_tables htables
    rw [hseq]
    exact hle i ((hlive i).1 hi)

/-- In format 2 the invariant is about the tables. -/
theorem Container.Numbered.of_tables (h : c.Numbered) (htables : c.tables = some db) :
    c.version = .ok schemaVersion ∧ db.tree.WellFormed rootIno ∧ (∀ i ∈ db.inodes, i ≤ db.seq) ∧
      ∀ i, db.Owns i → i ≤ db.seq := by
  cases h with
  | v1 hformat =>
    rw [Container.tables_of_v1 hformat] at htables
    cases htables
  | @v2 db₀ hversion htables₀ hwf hle howns =>
    obtain rfl := Option.some.inj (htables₀.symm.trans htables)
    exact ⟨hversion, hwf, hle, howns⟩

theorem advances_of_tables (hversion : c'.version = .ok schemaVersion)
    (htables : c'.tables = some db') (hwf : db'.tree.WellFormed rootIno)
    (hle : ∀ i ∈ db'.inodes, i ≤ db'.seq) (howns : ∀ i, db'.Owns i → i ≤ db'.seq)
    (hseq : c.seq ≤ db'.seq) (hnew : ∀ i ∈ db'.inodes, c.Live i ∨ c.seq < i) :
    Advances c c' := by
  obtain ⟨hlive, hseq', -⟩ := Container.of_tables htables
  exact ⟨.v2 hversion htables hwf hle howns, hseq' ▸ hseq, fun i hi => hnew i ((hlive i).1 hi)⟩

/-- The last statements of an open change no number. -/
theorem Advances.opened (h : Advances c s) (htables : s.tables = some db)
    (hc' : c' = s ∨ c' = s.createXattrs ∨ c' = s.completed) : Advances c c' := by
  rcases hc' with rfl | hc'
  · exact h
  obtain ⟨hlive, hseq, -⟩ := Container.of_tables htables
  obtain ⟨hversion, hwf, hle, howns⟩ := h.numbered.of_tables htables
  obtain ⟨hversion', gc, htables'⟩ := Container.tables_opened htables hc'
  refine advances_of_tables (hversion'.trans hversion) htables' hwf hle
    (fun i hi => howns i ?_) (hseq ▸ h.seq_le) fun i hi => h.new_gt i ((hlive i).2 hi)
  rcases hi with hb | ⟨x, n, hx, hn⟩
  · exact Or.inl hb
  · obtain rfl : db.xattrs.getD ∅ = x := Option.some.inj hx
    cases hxattrs : db.xattrs with
    | none =>
      rw [hxattrs] at hn
      exact (AList.notMem_empty _ hn).elim
    | some x =>
      rw [hxattrs] at hn
      exact Or.inr ⟨x, n, hxattrs, hn⟩

theorem advances_migrated (h : FormatV1 c rows) (howns : ∀ i, c.Owns i → i ≤ c.seq) :
    Advances c (c.migrated rows) := by
  obtain ⟨hseq, hle⟩ := seq_migrated h
  have hc : Converted rows ⟨inodesOf rows, (c.migrated rows).seq, dentriesOf rows, c.data, c.xattrs,
      false⟩ := h.rows_ok.converted rfl rfl
  refine advances_of_tables (version_migrated h) rfl (hc.wellFormed h.rows_ok)
    (fun i hi => hle i (hc.mem_inodes.1 hi)) (fun i hi => (howns i hi).trans hseq) hseq
    fun i hi => Or.inl ?_
  exact (Container.live_iff_of_v1 h.inodes).2 (hc.mem_inodes.1 hi)

theorem Container.Numbered.opens (h : c.Numbered) (hopens : Opens c c') : Advances c c' := by
  obtain ⟨readonly, exclusive, r, hy⟩ := hopens
  rcases openDb_cases hy with rfl | ⟨schema, q, -, hschema, -, hup⟩
  · exact h.advances
  cases h with
  | v1 hformat hnum howns =>
    obtain rfl : schema = schemaVersionV1 :=
      Except.ok.inj (hschema.symm.trans hformat.version_eq)
    rcases upgrade_outdated hformat hup with rfl | hc'
    · exact (Container.Numbered.v1 hformat hnum howns).advances
    · exact (advances_migrated hformat howns).opened rfl hc'
  | v2 hversion htables hwf hle howns =>
    obtain rfl : schema = schemaVersion := Except.ok.inj (hschema.symm.trans hversion)
    exact (Container.Numbered.v2 hversion htables hwf hle howns).advances.opened htables
      (upgrade_current hup)

theorem Container.Numbered.older {rows' : Table Ino InodeV1} {seq' : ℤ}
    {data : Table (Ino × ℕ) (List UInt8)}
    {xattrs : Option (Table (Ino × String) (List UInt8))} {gc : Bool} (h : c.Numbered)
    (hrows : c.inodes = some (.v1 rows)) (hchange : ChangeV1 rows c.seq rows' seq')
    (hadded : ∀ i, (c.withRows rows' seq' data xattrs gc).Owns i → i ∈ rows' ∨ c.Owns i) :
    Advances c (c.withRows rows' seq' data xattrs gc) := by
  cases h with
  | v2 hversion htables =>
    rw [Container.tables, hrows] at htables
    cases htables
  | @v1 rows₀ hformat hnum howns =>
    obtain rfl : rows₀ = rows := InodesTable.v1.inj (Option.some.inj (hformat.inodes.symm.trans hrows))
    obtain ⟨hnum', hle, hnew⟩ := hnum.change hchange
    have hseq : (c.withRows rows' seq' data xattrs gc).seq = seq' := by
      show ((c.sequence.insert "inodes" seq').lookup "inodes").getD 0 = seq'
      rw [AList.lookup_insert]
      rfl
    refine ⟨.v1 ⟨rfl, hformat.version, hformat.inodesV2, hformat.dentries, hformat.idxDentriesIno,
      hnum'.rows_ok⟩ (hseq ▸ hnum') fun i hi => ?_, hseq ▸ hle, fun i hi => ?_⟩
    · rw [hseq]
      rcases hadded i hi with hi | hi
      · exact hnum'.le_seq i hi
      · exact (howns i hi).trans hle
    · rw [Container.live_iff_of_v1 hrows]
      exact hnew i hi

/-- A request does not lower the sequence, and makes numbers above it only. -/
theorem Effect.numbers {m : Mount} {now : F64} {req : Request} (h : Effect m now req db db')
    (hwf : db.tree.WellFormed rootIno) (hle : ∀ i ∈ db.inodes, i ≤ db.seq) :
    (∀ i ∈ db'.inodes, i ≤ db'.seq) ∧ db.seq ≤ db'.seq ∧
      ∀ i ∈ db'.inodes, i ∈ db.inodes ∨ db.seq < i := by
  have hkept (hseq : db'.seq = db.seq) (hmem : ∀ i ∈ db'.inodes, i ∈ db.inodes) :
      (∀ i ∈ db'.inodes, i ≤ db'.seq) ∧ db.seq ≤ db'.seq ∧
        ∀ i ∈ db'.inodes, i ∈ db.inodes ∨ db.seq < i :=
    ⟨fun i hi => hseq ▸ hle i (hmem i hi), hseq.ge, fun i hi => Or.inl (hmem i hi)⟩
  have hchild (k : Ino × String) (i : Ino) (hk : db.dentries.lookup k = some i) : i ∈ db.inodes :=
    Db.node_ne_none_iff.1 (hwf.node_of_entry k i hk)
  rcases h.cases hchild with hchange | ⟨caller, ino, a, row, -, -, -, rfl⟩ |
    ⟨fh, offset, data, kill, row, -, -, -, rfl⟩
  · cases hchange with
    | keeps hcore _ hseq =>
      refine hkept hseq fun i hi => ?_
      rwa [← Db.core_ne_none_iff, hcore, Db.core_ne_none_iff] at hi
    | adds _ _ _ hcore _ hseq =>
      have hnew (i : Ino) (hi : i ∈ db'.inodes) : i = db.nextIno ∨ i ∈ db.inodes := by
        by_cases hnext : i = db.nextIno
        · exact Or.inl hnext
        · rw [← Db.core_ne_none_iff, hcore, Function.update_of_ne hnext, Db.core_ne_none_iff] at hi
          exact Or.inr hi
      rw [hseq]
      refine ⟨fun i hi => ?_, (Db.seq_lt_nextIno db).le, fun i hi => ?_⟩
      · rcases hnew i hi with rfl | hi
        · exact le_refl _
        · exact (Db.lt_nextIno hi).le
      · rcases hnew i hi with rfl | hi
        · exact Or.inr (Db.seq_lt_nextIno db)
        · exact Or.inl hi
    | @drops ino _ hcore _ hseq =>
      refine hkept hseq fun i hi => ?_
      rw [← Db.core_ne_none_iff, hcore] at hi
      by_cases hino : i = ino
      · rw [hino, Function.update_self] at hi
        exact (hi rfl).elim
      · rwa [Function.update_of_ne hino, Db.core_ne_none_iff] at hi
  · exact hkept Db.Concerns.apply.seq fun i => Db.Concerns.apply.mem_inodes.1
  · exact hkept Db.Concerns.writeEffect.seq fun i => Db.Concerns.writeEffect.mem_inodes.1

theorem Container.Numbered.request (h : c.Numbered) (htables : c.tables = some db) (env : Env)
    {req : Request} (hok : KernelOk db req) :
    Advances c (c.withTables (CofferFS.step env req db).2) := by
  obtain ⟨hversion, hwf, hle, howns⟩ := h.of_tables htables
  obtain ⟨hlive, hseq, -⟩ := Container.of_tables htables
  rcases step_cases env req db with hsame | heffect
  · rw [hsame]
    refine advances_of_tables hversion (Container.tables_withTables _ _) hwf hle howns hseq.le
      fun i hi => Or.inl ((hlive i).2 hi)
  · obtain ⟨hle', hseq', hnew⟩ := heffect.numbers hwf hle
    refine advances_of_tables hversion (Container.tables_withTables _ _)
      (heffect.wellFormed hok hwf) hle' (fun i hi => ?_) (hseq ▸ hseq') fun i hi => ?_
    · rcases heffect.owns hi with hi | hi
      · exact (hle i hi).trans hseq'
      · exact (howns i hi).trans hseq'
    · rw [hlive, hseq]
      exact hnew i hi

/-- Every step keeps the invariant, and hands out numbers above the sequence only. -/
theorem LifeStep.advances (h : LifeStep c c') (hc : c.Numbered) : Advances c c' := by
  cases h with
  | older hrows hchange hadded => exact hc.older hrows hchange hadded
  | opened hopens => exact hc.opens hopens
  | request env htables hok => exact hc.request htables env hok

theorem Container.New.numbered (h : c.New) : c.Numbered := by
  cases h with
  | @v1 root hformat hparent hseq howns =>
    refine .v1 hformat ⟨hformat.rows_ok, fun r hr => ?_, fun i hi => ?_⟩ fun i hi =>
      (howns i hi).elim
    · rw [AList.lookup_insert] at hr
      rwa [← Option.some.inj hr]
    · rcases (AList.mem_insert _).1 hi with rfl | hi
      · exact hseq.ge
      · exact (AList.notMem_empty _ hi).elim
  | @v2 now uid gid hversion htables =>
    obtain ⟨hwf, howned⟩ := Db.treeInv_iff.1 (treeInv_created now uid gid)
    have hle (i : Ino) (hi : i ∈ (Db.created now uid gid).inodes) : i ≤ rootIno := by
      rcases (AList.mem_insert _).1 hi with rfl | hi
      · exact le_refl _
      · exact (AList.notMem_empty _ hi).elim
    exact .v2 hversion htables hwf hle fun i hi => hle i (howned i hi)

/-- The sequence is a mark of the numbers that were handed out. -/
theorem numbering : FreshNumbers LifeStep Container.Numbered Container.Live Container.seq where
  good_step _ _ hc hstep := (hstep.advances hc).numbered
  le_mark _ _ hc hi := hc.le_seq hi
  mark_le _ _ hc hstep := (hstep.advances hc).seq_le
  new_gt _ _ i hc hstep hi := (hstep.advances hc).new_gt i hi

end Steps

/-! ## Numbers are never reused -/

/-- **Inode numbers are never reused.** Let `j` have been an inode at any time in the life of a
container, in either format. Then whatever number `insert_child` returns later is greater, and
nothing belongs to it yet. If `j` was deleted it stays so, and requests that still carry the number
have nothing to do with other files. -/
theorem numbers_never_reused {c₀ c₁ c : Container} {db : Db} {j : Ino} (hnew : c₀.New)
    (h₁ : Life c₀ c₁) (hj : c₁.Live j) (h : Life c₁ c) (htables : c.tables = some db) :
    (∀ now parent name kind mode uid gid target i db',
      (insertChild now parent name kind mode uid gid target).Yields db (.ok i) db' →
        j < i ∧ (∀ b, db'.data.lookup (i, b) = none) ∧ ∀ n, db'.attr i n = none) ∧
    (j ∉ db.inodes → Harmless j db ∧ ∀ c', Life c c' → ¬ c'.Live j) := by
  have hnum₁ : c₁.Numbered := numbering.good_of_run hnew.numbered h₁
  have hnum : c.Numbered := numbering.good_of_run hnum₁ h
  have hjseq : j ≤ c.seq := numbering.le_mark_of_run hnum₁ h hj
  obtain ⟨-, hwf, -, howns⟩ := hnum.of_tables htables
  obtain ⟨hlive, hseq, -⟩ := Container.of_tables htables
  constructor
  · intro now parent name kind mode uid gid target i db' hy
    obtain ⟨rfl, -, -, rfl⟩ := insertChild_ok hy
    -- what belongs to an inode has a number that was handed out
    have hfresh : ¬ db.Owns db.nextIno :=
      fun hi => ((howns _ hi).trans_lt (Db.seq_lt_nextIno db)).ne rfl
    refine ⟨(hseq ▸ hjseq).trans_lt (Db.seq_lt_nextIno db), fun b => ?_, fun n => ?_⟩
    · exact AList.lookup_eq_none.2 fun hb => hfresh (Or.inl ⟨b, hb⟩)
    · by_contra hne
      obtain ⟨v, hv⟩ := Option.ne_none_iff_exists'.1 hne
      obtain ⟨x, hx, hlookup⟩ := Option.bind_eq_some_iff.1 hv
      exact hfresh (Or.inr ⟨x, n, hx, AList.mem_of_lookup_eq_some hlookup⟩)
  · intro hgone
    refine ⟨(Db.vacant_of_wellFormed hwf hgone).harmless, fun c' hc' => ?_⟩
    exact numbering.not_live_of_run hnum hc' hjseq (mt (hlive j).1 hgone)

/-! ## A small life -/

/-- The rows of a new container in format 1. -/
def newRows : Table Ino InodeV1 := (∅ : Table Ino InodeV1).insert rootIno (rowV1 .dir 0 "")

/-- A new container in format 1. -/
def Container.newV1 : Container where
  «meta» := (∅ : Table String String).insert "schema_version" "1"
  inodes := some (.v1 newRows)
  inodesV2 := none
  sequence := (∅ : Table String ℤ).insert "inodes" 1
  dentries := none
  idxDentriesIno := false
  data := ∅
  xattrs := none
  xattrsGc := false

/-- The same with a file, number 2. -/
def Container.withFile : Container :=
  Container.newV1.withRows (newRows.insert 2 (rowV1 .file 1 "a.txt")) 2 ∅ none false

/-- The file is deleted. -/
def Container.withoutFile : Container := Container.withFile.withRows newRows 2 ∅ none false

theorem lookup_newRows {i : Ino} {r : InodeV1} (h : newRows.lookup i = some r) :
    i = rootIno ∧ r = rowV1 .dir 0 "" := by
  rw [newRows, AList.lookup_insert_eq] at h
  split_ifs at h with hi
  · exact ⟨hi, (Option.some.inj h).symm⟩
  · cases h

theorem rowsOk_newRows : RowsOk newRows := by
  constructor
  case root => exact ⟨_, AList.lookup_insert _, rfl⟩
  case unique =>
    exact fun i j r s hr hs _ _ => (lookup_newRows hr).1.trans (lookup_newRows hs).1.symm
  case parent => exact fun i r hr hroot => (hroot (lookup_newRows hr).1).elim
  case acyclic =>
    have hup {i p : Ino} (h : UpV1 newRows i p) : i = rootIno ∧ p = 0 := by
      obtain ⟨r, hr, rfl⟩ := h
      obtain ⟨hi, rfl⟩ := lookup_newRows hr
      exact ⟨hi, rfl⟩
    intro i hcirc
    obtain ⟨p, hfirst, -⟩ := TransGen.head'_iff.1 hcirc
    obtain ⟨q, -, hlast⟩ := TransGen.tail'_iff.1 hcirc
    exact absurd ((hup hfirst).1.symm.trans (hup hlast).2) (by decide)

theorem not_owns_of_empty {c : Container} (hdata : c.data = ∅) (hxattrs : c.xattrs = none)
    (i : Ino) : ¬ c.Owns i := by
  intro hi
  rcases hi with ⟨b, hb⟩ | ⟨x, n, hx, -⟩
  · rw [hdata] at hb
    exact AList.notMem_empty _ hb
  · rw [hxattrs] at hx
    cases hx

theorem new_newV1 : Container.newV1.New :=
  .v1 ⟨rfl, by decide, rfl, rfl, rfl, rowsOk_newRows⟩ rfl (by decide) (not_owns_of_empty rfl rfl)

theorem lifeStep_withFile : LifeStep .newV1 .withFile := by
  refine .older rfl (.create (p := rowV1 .dir 0 "") (by decide) ?_ ?_ rfl ?_)
    fun i hi => (not_owns_of_empty rfl rfl i hi).elim
  · intro k hk
    obtain ⟨r, hr⟩ := AList.exists_lookup_of_mem hk
    rw [(lookup_newRows hr).1]
    decide
  · exact AList.lookup_insert _
  · intro k s hs
    rw [(lookup_newRows hs).2]
    decide

theorem lifeStep_withoutFile : LifeStep .withFile .withoutFile := by
  have hrows : (newRows.insert 2 (rowV1 .file 1 "a.txt")).erase 2 = newRows := rfl
  have hchange : ChangeV1 (newRows.insert 2 (rowV1 .file 1 "a.txt")) 2 newRows 2 := by
    rw [← hrows]
    refine .delete (by decide) fun k s hs => ?_
    have hall : ∀ e ∈ (newRows.insert 2 (rowV1 .file 1 "a.txt")).entries, e.2.parent ≠ 2 := by
      decide
    exact hall _ (AList.mem_entries_iff.2 hs)
  exact .older rfl hchange fun i hi => (not_owns_of_empty rfl rfl i hi).elim

/-- The migration of the container from which the file was deleted. -/
theorem life_migrated :
    Life .withFile (Container.withoutFile.migrated newRows).completed := by
  have hformat : FormatV1 .withoutFile newRows :=
    ⟨rfl, by decide, rfl, rfl, rfl, rowsOk_newRows⟩
  refine .tail (.single lifeStep_withoutFile) (.opened ⟨false, false, .ok (), ?_⟩)
  exact ((Stage.old).runs_openDb hformat false).yields

/-- Number 2 is not used again after the migration. -/
theorem numbers_never_reused_small :
    ∃ c db, Life .withFile c ∧ c.tables = some db ∧
      (∀ now parent name kind mode uid gid target i db',
        (insertChild now parent name kind mode uid gid target).Yields db (.ok i) db' →
          2 < i ∧ (∀ b, db'.data.lookup (i, b) = none) ∧ ∀ n, db'.attr i n = none) ∧
      Harmless 2 db := by
  have hlive : Container.withFile.Live 2 := (AList.mem_insert _).2 (Or.inl rfl)
  obtain ⟨hfresh, hgone⟩ :=
    numbers_never_reused new_newV1 (.single lifeStep_withFile) hlive life_migrated rfl
  refine ⟨_, _, life_migrated, rfl, hfresh, (hgone fun hmem => ?_).1⟩
  have hrow : (inodesOf newRows).lookup 2 = none := by decide +kernel
  exact AList.lookup_eq_none.1 hrow hmem

end CofferFS
