import CofferFS.Paths
import CofferFS.Readdir
import CofferFS.Timestamps

/-!
# What the kernel sees of the paths

The kernel does not know paths. It walks them with `lookup`, one name after the other, and reads
directories with `readdir`. Both agree with `Db.paths`: `walk_iff` for the lookups, each in an
environment of its own, where all times can be converted, and `readdir_paths` for the listings, `.`
and `..` included.
-/

namespace CofferFS

open Script

variable {db : Db} {i j parent : Ino} {n : String} {e : List String}

/-! ## Lookups -/

/-- Lookups that follow the names of a path lead from one inode to another. -/
inductive Walk (db : Db) : Ino → List OsStr → Ino → Prop
  | here (i : Ino) : Walk db i [] i
  | onto {i j : Ino} {name : OsStr} {path : List OsStr} {t generation : ℕ} {attr : FileAttr}
      (env : Env) : (step env (.lookup i name) db).1 = .ok (.entry t attr generation) →
      Walk db attr.ino path j → Walk db i (name :: path) j

theorem ino_of_toAttr {row : Db.InodeRow} {attr : FileAttr} (h : toAttr i row = some attr) :
    attr.ino = i := by
  unfold toAttr at h
  obtain ⟨_, -, h⟩ := Option.bind_eq_some_iff.1 h
  obtain ⟨_, -, h⟩ := Option.bind_eq_some_iff.1 h
  obtain ⟨_, -, h⟩ := Option.bind_eq_some_iff.1 h
  obtain ⟨_, -, h⟩ := Option.bind_eq_some_iff.1 h
  cases h
  rfl

theorem readBack_ok {attr : FileAttr} {db' : Db} (h : (readBack i).Yields db (.ok attr) db') :
    ∃ row, db.rowByIno i = some row ∧ toAttr i row = some attr := by
  obtain ⟨o, hrow, h⟩ := h.after (readOnly_orEio readOnly_rowByIno)
  obtain ⟨row, hsome, h⟩ := h.after (readOnly_orRefuse _ _)
  have hrow := (yields_rowByIno_ok.1 (yields_orEio_ok.1 hrow)).1
  have hsome := (yields_orRefuse_ok.1 hsome).1
  exact ⟨row, hrow.symm.trans hsome, (yields_orPanic_ok.1 h).1⟩

/-- A lookup that finds something finds what the table has. -/
theorem lookup_ok {name : OsStr} {a : Answer} {db' : Db}
    (h : (lookup parent name).Yields db (.ok a) db') :
    ∃ n attr, name.toStr = some n ∧ db.childIno parent n = some attr.ino ∧
      a = .entry ttl attr 0 := by
  obtain ⟨n, hn, h⟩ := h.after (readOnly_orRefuse _ _)
  obtain ⟨o, hchild, h⟩ := h.after (readOnly_orEio readOnly_childIno)
  obtain ⟨i, hsome, h⟩ := h.after (readOnly_orRefuse _ _)
  obtain ⟨attr, hback, h⟩ := h.after readOnly_readBack
  obtain ⟨row, -, hattr⟩ := readBack_ok hback
  have hchild := (yields_childIno_ok.1 (yields_orEio_ok.1 hchild)).1
  have hsome := (yields_orRefuse_ok.1 hsome).1
  refine ⟨n, attr, (yields_orRefuse_ok.1 hn).1, ?_, Except.ok.inj (yields_pure.1 h).1⟩
  rw [ino_of_toAttr hattr, ← hchild, hsome]

/-- Without failures a lookup finds what the table has. -/
theorem lookup_quiet (m : Mount) (now : F64) (hdb : db.TreeInv) (htimed : db.Timed StoredTime)
    {name : OsStr} (hn : name.toStr = some n) (hi : db.childIno parent n = some i) :
    ∃ attr, attr.ino = i ∧
      (step (.quiet m now) (.lookup parent name) db).1 = .ok (.entry ttl attr 0) := by
  obtain ⟨r, hr⟩ := AList.exists_lookup_of_mem (hdb.child _ i hi)
  have hrow : db.rowByIno i = some (db.mapRow i r) := by
    rw [Db.rowByIno, hr, Option.map_some]
  obtain ⟨attr, hattr, -⟩ := htimed.exists_attr hrow
  have hback : (readBack i).Runs db (.ok attr) db := by
    refine Runs.bind runs_rowByIno (Runs.bind (runs_orRefuse_some hrow) ?_)
    rw [hattr]
    exact runs_pure attr
  have hrun : (lookup parent name).Runs db (.ok (.entry ttl attr 0)) db := by
    refine Runs.bind (runs_orRefuse_some hn) (Runs.bind (Runs.mapError_ok runs_childIno) ?_)
    exact Runs.bind (runs_orRefuse_some hi) (Runs.bind hback (runs_pure _))
  refine ⟨attr, ino_of_toAttr hattr, ?_⟩
  rw [@step_quiet m now (.lookup parent name) db db _ hrun]

/-- **Lookups that succeed lead where the path leads, and where a path leads lookups can go.** -/
theorem walk_iff (hdb : Reachable db) (htimed : db.Timed StoredTime) {path : List OsStr} :
    Walk db rootIno path j ↔ ∃ q, path.mapM OsStr.toStr = some q ∧ db.paths q = some j := by
  -- from any inode on
  have hfrom (i : Ino) : Walk db i path j ↔
      ∃ q, path.mapM OsStr.toStr = some q ∧ db.tree.resolve i q = some j := by
    induction path generalizing i with
    | nil =>
      constructor
      · intro h
        cases h
        exact ⟨[], rfl, rfl⟩
      · rintro ⟨q, hq, hj⟩
        cases hq
        cases hj
        exact .here _
    | cons name path ih =>
      constructor
      · intro h
        obtain - | ⟨env, hreply, h⟩ := h
        have hy := step_yields env (.lookup i name) db
        rw [hreply] at hy
        obtain ⟨n, attr, hn, hchild, heq⟩ := lookup_ok hy
        cases heq
        obtain ⟨q, hq, hj⟩ := (ih _).1 h
        refine ⟨n :: q, by simp [List.mapM_cons, hn, hq], ?_⟩
        show (db.childIno i n).bind _ = some j
        rw [hchild]
        exact hj
      · rintro ⟨q, hq, hj⟩
        obtain ⟨n, hn, q, hpath, rfl⟩ : ∃ n, name.toStr = some n ∧
            ∃ q', path.mapM OsStr.toStr = some q' ∧ n :: q' = q := by
          simpa [List.mapM_cons, Option.bind_eq_some_iff] using hq
        obtain ⟨k, hk, hj⟩ := Option.bind_eq_some_iff.1 hj
        obtain ⟨attr, rfl, hreply⟩ := lookup_quiet .plain 0 hdb.treeInv htimed hn hk
        exact .onto _ hreply ((ih _).2 ⟨q, hpath, hj⟩)
  exact hfrom rootIno

theorem walk_iff_oneFile : Walk .oneFile rootIno [nameA] 2 ↔
    ∃ q, [nameA].mapM OsStr.toStr = some q ∧ Db.oneFile.paths q = some 2 := by
  have hnow : StoredTime 0 := ⟨.unixEpoch, ⟨by decide, by decide⟩, by decide +kernel⟩
  have htimed : Db.oneFile.Timed StoredTime :=
    Db.Timed.step (timed_created hnow) hnow (Request.TimesInRange.timed trivial hnow)
  exact walk_iff reachable_oneFile htimed

/-! ## Listings -/

theorem Db.mem_listing (hchild : ∀ k i, db.dentries.lookup k = some i → i ∈ db.inodes) :
    (∃ row ∈ db.listing i, row.name = n ∧ row.ino = j) ↔ db.childIno i n = some j := by
  constructor
  · rintro ⟨row, hrow, rfl, rfl⟩
    obtain ⟨⟨⟨dir, n⟩, k⟩, he, hsome⟩ :=
      List.mem_filterMap.1 ((List.perm_insertionSort _ _).mem_iff.1 hrow)
    obtain ⟨rfl, hkind⟩ := Option.ite_none_right_eq_some.1 hsome
    obtain ⟨r, -, rfl⟩ := Option.map_eq_some_iff.1 hkind
    exact AList.mem_entries_iff.1 he
  · intro h
    obtain ⟨l₁, row, l₂, hsplit, hname, hino, -⟩ := db.listing_split hchild h
    exact ⟨row, by simp [hsplit], hname, hino⟩

/-- The parent of a directory is where its one name is. -/
theorem Db.parentOf_eq (hwf : db.tree.WellFormed rootIno) (hdir : db.IsDir i)
    (hi : db.childIno parent n = some i) : db.parentOf i = .ok parent := by
  have hfound : (db.dentries.entries.find? fun e => e.2 = i).isSome := by
    rw [List.find?_isSome]
    exact ⟨⟨(parent, n), i⟩, AList.mem_entries_iff.2 hi, by simp⟩
  obtain ⟨⟨k, j⟩, hk⟩ := Option.isSome_iff_exists.1 hfound
  obtain rfl : j = i := by simpa using List.find?_some hk
  have hname := AList.mem_entries_iff.1 (List.mem_of_find?_eq_some hk)
  obtain rfl := hwf.dir_unique j _ _ (node_eq_true_iff.2 hdir) hi hname
  rw [parentOf, hk]

/-- The parent that `readdir` shows is what the path leads to without its last name. -/
theorem runs_parentIno (hdb : db.TreeInv) (hdir : db.IsDir i) (he : db.paths e = some i) :
    ∃ p, db.paths e.dropLast = some p ∧ (parentIno i).Runs db (.ok p) db := by
  unfold parentIno
  rcases List.eq_nil_or_concat e with rfl | ⟨e, n, rfl⟩
  · obtain rfl : rootIno = i := Option.some.inj he
    exact ⟨rootIno, he, by rw [if_pos rfl]; exact runs_pure _⟩
  · rw [List.concat_eq_append] at he ⊢
    rw [List.dropLast_concat]
    have he' := he
    rw [Db.paths, Namespace.resolve_snoc] at he'
    obtain ⟨p, hp, hi⟩ := Option.bind_eq_some_iff.1 he'
    have hroot : i ≠ rootIno := by
      rintro rfl
      exact hdb.root_unnamed _ hi
    refine ⟨p, hp, ?_⟩
    rw [if_neg hroot]
    exact Runs.mapError_ok (runs_query_ok (Db.parentOf_eq hdb.wellFormed hdir hi))

/-- **A directory lists what the paths through it lead to**, sorted by name and behind `.` and
`..`, if no statement fails. -/
theorem readdir_paths (hdb : Reachable db) (hdir : db.IsDir i) (he : db.paths e = some i) :
    ∃ p names, db.paths e.dropLast = some p ∧ (names.map Prod.fst).Pairwise (· < ·) ∧
      (∀ n j, (n, j) ∈ names ↔ db.paths (e ++ [n]) = some j) ∧
      ∀ m now offset room, ∃ entries,
        (step (.quiet m now) (.readdir i offset room) db).1 = .ok (.directory entries) ∧
          entries.map (fun d => (d.name, d.ino)) =
            (((".", i) :: ("..", p) :: names).drop offset).take room := by
  obtain ⟨p, hp, hparent⟩ := runs_parentIno hdb.treeInv hdir he
  have hchild := hdb.treeInv.child
  refine ⟨p, (db.listing i).map fun row => (row.name, row.ino), hp, ?_, fun n j => ?_, ?_⟩
  · rw [List.map_map]
    exact Db.pairwise_listing hchild
  · rw [Db.paths_snoc he, ← Db.mem_listing hchild]
    simp
  · intro m now offset room
    have hrun : (readdir i offset room).Runs db
        (.ok (.directory (addEntries (dirEntries i p (db.listing i)) offset room))) db := by
      refine Runs.bind hparent (Runs.bind (Runs.mapError_ok (runs_query_ok rfl)) ?_)
      exact Runs.bind runs_fetchRows (runs_pure _)
    refine ⟨_, by rw [@step_quiet m now (.readdir i offset room) db db _ hrun], ?_⟩
    have hnames : (dirEntries i p (db.listing i)).zipIdx.map (fun d => (d.1.2.2, d.1.1)) =
        (".", i) :: ("..", p) :: (db.listing i).map fun row => (row.name, row.ino) := by
      have hfst := congrArg (List.map fun d : Ino × FileType × String => (d.2.2, d.1))
        (List.zipIdx_map_fst 0 (dirEntries i p (db.listing i)))
      rw [List.map_map] at hfst
      exact hfst.trans (by simp [dirEntries])
    rw [addEntries, List.map_map, ← hnames, ← List.map_drop, ← List.map_take]
    rfl

theorem readdir_paths_oneFile : ∃ names : List (String × Ino), ("a", 2) ∈ names ∧ ∃ entries,
    (step (.quiet .plain 0) (.readdir rootIno 2 10) .oneFile).1 = .ok (.directory entries) ∧
      entries.map (fun d => (d.name, d.ino)) = names.take 10 := by
  obtain ⟨p, names, -, -, hnames, hreply⟩ :=
    readdir_paths (e := []) reachable_oneFile reachable_oneFile.treeInv.root rfl
  exact ⟨names, (hnames "a" 2).2 (by decide +kernel), hreply .plain 0 2 10⟩

end CofferFS
