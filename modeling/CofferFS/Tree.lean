import CofferFS.Frame
import CofferFS.Lib.Namespace

/-!
# The namespace of a container

The tables `inodes` and `dentries` hold a `Namespace`. Every effect of a request is one of the
five changes of a namespace, or none, so a container that starts out well-formed stays so:
`reachable_tree`.
-/

namespace CofferFS

open Script Relation

namespace Db

/-- The namespace that a container holds. -/
def tree (db : Db) : Namespace Ino String where
  node i := (db.core i).map fun c => c.1 = .dir
  entry k := db.dentries.lookup k

variable {db db' : Db} {i parent : Ino} {name : String} {now : F64}

theorem node_eq_true_iff : db.tree.node i = some true ↔ db.IsDir i := by
  simp [tree, core, IsDir]

theorem node_eq_false_iff : db.tree.node i = some false ↔ db.IsLeaf i := by
  simp [tree, core, IsLeaf]

theorem node_ne_none_iff : db.tree.node i ≠ none ↔ i ∈ db.inodes := by
  rw [← core_ne_none_iff]
  simp [tree]

/-! ## What the changes do to the namespace -/

theorem Concerns.tree (h : Concerns i db db') : db'.tree = db.tree := by
  have hnode (j : Ino) : db'.tree.node j = db.tree.node j := by
    show (db'.core j).map _ = (db.core j).map _
    by_cases hj : j = i
    · have hkind := congrArg (Option.map fun k => decide (k = Kind.dir)) h.kind
      rw [hj]
      simpa [Function.comp_def] using hkind
    · rw [h.core j hj]
  have hentry (k : Ino × String) : db'.tree.entry k = db.tree.entry k := by
    show db'.dentries.lookup k = db.dentries.lookup k
    rw [h.dentries]
  exact Namespace.ext (funext hnode) (funext hentry)

theorem tree_of_core (h : db'.core = db.core) (hd : db'.dentries = db.dentries) :
    db'.tree = db.tree := by
  simp [tree, h, hd]

theorem tree_touch : (db.touch now i).tree = db.tree := tree_of_core core_touch rfl

theorem tree_setCtime : (db.setCtime now i).tree = db.tree := tree_of_core core_setCtime rfl

theorem tree_dropInode : (db.dropInode i).tree = db.tree.setNode i none := by
  refine Namespace.ext (funext fun j => ?_) rfl
  show ((db.dropInode i).core j).map _ = Function.update db.tree.node i none j
  rw [core_dropInode, Function.update_apply, Function.update_apply]
  split_ifs <;> rfl

theorem tree_addInode {r : Inode} :
    (db.addInode r).tree = db.tree.setNode db.nextIno (some (r.kind = .dir)) := by
  refine Namespace.ext (funext fun j => ?_) rfl
  show ((db.addInode r).core j).map _ = Function.update db.tree.node db.nextIno _ j
  rw [core_addInode, Function.update_apply, Function.update_apply]
  split_ifs <;> rfl

theorem tree_deleteDentry :
    (db.deleteDentry parent name).tree = db.tree.unbind (parent, name) := by
  refine Namespace.ext rfl (funext fun k => ?_)
  show (db.dentries.erase (parent, name)).lookup k = Function.update db.tree.entry _ none k
  rw [AList.lookup_erase_eq, Function.update_apply]
  rfl

theorem tree_insertDentry {k : Ino × String} :
    ({ db with dentries := db.dentries.insert k i } : Db).tree = db.tree.bind k i := by
  refine Namespace.ext rfl (funext fun k' => ?_)
  show (db.dentries.insert k i).lookup k' = Function.update db.tree.entry k (some i) k'
  rw [AList.lookup_insert_eq, Function.update_apply]
  rfl

theorem tree_addName :
    (db.addName now parent name i).tree = db.tree.bind (parent, name) i := by
  rw [addName, tree_touch, tree_insertDentry]

theorem tree_addChild {r : Inode} : (db.addChild now parent name r).tree =
    (db.tree.setNode db.nextIno (some (r.kind = .dir))).bind (parent, name) db.nextIno := by
  rw [addChild, tree_addName, tree_addInode]

theorem tree_dropName : (db.dropName now parent name i).tree =
    if (db.deleteDentry parent name).nameCount i = 0 then
      (db.tree.unbind (parent, name)).setNode i none
    else db.tree.unbind (parent, name) := by
  rw [dropName, tree_touch]
  split_ifs
  · rw [tree_dropInode, tree_deleteDentry]
  · rw [tree_setCtime, tree_deleteDentry]

theorem tree_moveName {old new : Ino × String} :
    (db.moveName now old new i).tree = (db.tree.unbind old).bind new i := by
  have herase : ({ db with dentries := db.dentries.erase old } : Db).tree = db.tree.unbind old :=
    tree_deleteDentry
  rw [moveName, tree_touch, tree_touch, ← herase, ← tree_insertDentry]

/-! ## The changes keep the namespace well-formed -/

theorem nameCount_eq_zero_iff :
    (db.deleteDentry parent name).nameCount i = 0 ↔
      ∀ k, db.tree.entry k = some i → k = (parent, name) := by
  rw [nameCount, AList.count_eq_zero_iff]
  constructor
  · intro h k hk
    by_contra hne
    have hleft : (db.dentries.erase (parent, name)).lookup k = some i := by
      rw [AList.lookup_erase_ne hne]
      exact hk
    simpa using h k i hleft
  · intro h k j hk
    rw [decide_eq_false_iff_not]
    rintro rfl
    have hk' : (if k = (parent, name) then none else db.dentries.lookup k) = some j := by
      rw [← AList.lookup_erase_eq]
      exact hk
    split_ifs at hk' with hne
    exact hne (h k hk')

theorem hasChildren_eq_false_iff :
    db.hasChildren i = false ↔ ∀ n, db.tree.entry (i, n) = none := by
  have hcount : db.hasChildren i = false ↔ db.dentries.count (fun k _ => k.1 = i) = 0 := by
    simp [hasChildren]
  rw [hcount, AList.count_eq_zero_iff]
  constructor
  · intro h n
    by_contra hne
    obtain ⟨j, hj⟩ := Option.ne_none_iff_exists'.1 hne
    simpa using h (i, n) j hj
  · rintro h ⟨p, n⟩ j hj
    rw [decide_eq_false_iff_not]
    rintro rfl
    have hnone := h n
    rw [show db.tree.entry (p, n) = some j from hj] at hnone
    cases hnone

/-- A name goes that denotes a file, or an empty directory. -/
theorem wellFormed_dropName (h : db.tree.WellFormed rootIno)
    (hname : db.dentries.lookup (parent, name) = some i)
    (hempty : db.IsDir i → db.hasChildren i = false) :
    (db.dropName now parent name i).tree.WellFormed rootIno := by
  rw [tree_dropName]
  have hk : db.tree.entry (parent, name) = some i := hname
  split_ifs with hlast
  · refine h.remove hk (nameCount_eq_zero_iff.1 hlast) fun n => ?_
    by_cases hdir : db.IsDir i
    · exact hasChildren_eq_false_iff.1 (hempty hdir) n
    · by_contra hne
      obtain ⟨j, hj⟩ := Option.ne_none_iff_exists'.1 hne
      exact hdir (node_eq_true_iff.1 (h.dir_of_entry (i, n) j hj))
  · -- there is another name, so this is no directory
    rw [nameCount_eq_zero_iff] at hlast
    push Not at hlast
    obtain ⟨k, hk', hne⟩ := hlast
    refine h.unlink ?_ hk ⟨k, hne, hk'⟩
    cases hnode : db.tree.node i with
    | none => exact (h.node_of_entry _ i hk hnode).elim
    | some d =>
      cases d with
      | false => rfl
      | true => exact (hne (h.dir_unique i _ k hnode hk hk')).elim

theorem up_of_up_dropName {j p : Ino} (h : (db.dropName now parent name i).tree.Up j p) :
    db.tree.Up j p := by
  rw [tree_dropName] at h
  split_ifs at h
  · exact Namespace.up_of_up_unbind h
  · exact Namespace.up_of_up_unbind h

theorem node_dropName_of_ne {j : Ino} (hj : j ≠ i) :
    (db.dropName now parent name i).tree.node j = db.tree.node j := by
  rw [tree_dropName]
  split_ifs
  · rw [Namespace.node_setNode_of_ne hj, Namespace.node_unbind]
  · rw [Namespace.node_unbind]

theorem wellFormed_addChild {r : Inode} (h : db.tree.WellFormed rootIno)
    (hparent : db.IsDir parent) (hfree : db.childIno parent name = none) :
    (db.addChild now parent name r).tree.WellFormed rootIno := by
  rw [tree_addChild]
  have hfresh : db.tree.node db.nextIno = none := by
    simp [tree, core, lookup_nextIno]
  exact h.create hfresh (node_eq_true_iff.2 hparent) hfree

end Db

variable {db db' : Db}

/-- What may be deleted is no directory, or an empty one. -/
theorem Db.Removable.empty {i : Ino} (h : db.Removable i) (hdir : db.IsDir i) :
    db.hasChildren i = false := by
  obtain ⟨r, hr, hempty⟩ := h
  obtain ⟨r', hr', hkind⟩ := hdir
  rw [Option.some.inj (hr'.symm.trans hr)] at hkind
  exact hempty hkind

/-- A rename keeps the namespace well-formed. -/
theorem RenameEffect.wellFormed {now : F64} {parent newparent : Ino} {name newname : OsStr}
    {flags : RenameFlags} (h : RenameEffect now parent name newparent newname flags db db')
    (hok : KernelOk db (.rename parent name newparent newname flags))
    (hwf : db.tree.WellFormed rootIno) : db'.tree.WellFormed rootIno := by
  obtain ⟨-, hnewparent, -, hbelow⟩ := hok
  cases h with
  | sameName =>
    rw [Db.tree_touch, Db.tree_touch]
    exact hwf
  | @freeName n n' ino hn hn' hino _ _ hfree =>
    rw [Db.tree_moveName]
    exact hwf.move hino hfree (Db.node_eq_true_iff.2 hnewparent) fun hdir =>
      hbelow ino ⟨n, hn, hino⟩ (Db.node_eq_true_iff.1 hdir)
  | @replaced n n' ino existing hn hn' hino _ _ _ hexisting hne hremovable =>
    -- an empty directory does not hold its own name
    have hnp : newparent ≠ existing := by
      rintro rfl
      have hnone := Db.hasChildren_eq_false_iff.1 (hremovable.empty hnewparent) n'
      rw [show db.tree.entry (newparent, n') = some newparent from hexisting] at hnone
      cases hnone
    have hwf' : (db.dropName now newparent n' existing).tree.WellFormed rootIno :=
      Db.wellFormed_dropName hwf hexisting hremovable.empty
    rw [Db.tree_moveName]
    refine hwf'.move ?_ ?_ ?_ ?_
    · exact Db.dropName_lookup_other hino hexisting hne
    · exact Db.dropName_lookup_self ..
    · rw [Db.node_dropName_of_ne hnp]
      exact Db.node_eq_true_iff.2 hnewparent
    · intro hdir hbelow'
      rw [Db.node_dropName_of_ne (Ne.symm hne)] at hdir
      exact hbelow ino ⟨n, hn, hino⟩ (Db.node_eq_true_iff.1 hdir)
        (ReflTransGen.mono (fun _ _ => Db.up_of_up_dropName) _ _ hbelow')

/-- Every effect keeps the namespace well-formed. -/
theorem Effect.wellFormed {m : Mount} {now : F64} {req : Request} (h : Effect m now req db db')
    (hok : KernelOk db req) (hwf : db.tree.WellFormed rootIno) :
    db'.tree.WellFormed rootIno := by
  cases req with
  | setattr caller ino a =>
    obtain ⟨row, -, -, rfl⟩ := h
    rwa [Db.Concerns.apply.tree]
  | mkdir parent name mode =>
    obtain ⟨n, -, hfree, -, rfl⟩ := h
    exact Db.wellFormed_addChild hwf hok hfree
  | create parent name mode =>
    obtain ⟨n, -, hfree, -, rfl⟩ := h
    exact Db.wellFormed_addChild hwf hok hfree
  | symlink parent linkName target =>
    obtain ⟨t, -, n, -, hfree, -, rfl⟩ := h
    exact Db.wellFormed_addChild hwf hok hfree
  | link ino newparent newname =>
    obtain ⟨n, -, hleaf, hfree, rfl⟩ := h
    rw [Db.tree_setCtime, Db.tree_addName]
    exact hwf.link (Db.node_eq_false_iff.2 hleaf) (Db.node_eq_true_iff.2 hok) hfree
  | unlink parent name =>
    obtain ⟨n, ino, hn, hino, rfl⟩ := h
    exact Db.wellFormed_dropName hwf hino fun hdir => (hok.2 ino ⟨n, hn, hino⟩ hdir).elim
  | rmdir parent name =>
    obtain ⟨n, ino, -, hino, -, hremovable, rfl⟩ := h
    exact Db.wellFormed_dropName hwf hino hremovable.empty
  | rename parent name newparent newname flags => exact RenameEffect.wellFormed h hok hwf
  | write fh offset data kill =>
    obtain ⟨row, -, -, rfl⟩ := h
    rwa [Db.Concerns.writeEffect.tree]
  | setxattr ino name value flags =>
    obtain ⟨n, x, -, -, -, -, -, hx, -, -, rfl⟩ := h
    rwa [(Db.Concerns.setxattr hx).tree]
  | removexattr ino name =>
    obtain ⟨n, x, -, hx, -, rfl⟩ := h
    rwa [(Db.Concerns.removexattr hx).tree]
  | _ =>
    obtain rfl : db' = db := h
    exact hwf

/-! ## Rows that belong to an inode -/

namespace Db

/-- A row of `data` or `xattrs` is about `i`. -/
def Owns (db : Db) (i : Ino) : Prop :=
  (∃ b, (i, b) ∈ db.data) ∨ ∃ x n, db.xattrs = some x ∧ (i, n) ∈ x

/-- Only inodes that exist have rows in `data` and `xattrs`. -/
def Owned (db : Db) : Prop := ∀ i, db.Owns i → i ∈ db.inodes

variable {i j parent : Ino} {name : String} {now : F64}

theorem Concerns.owns (h : Concerns i db db') (hj : db'.Owns j) : j = i ∨ db.Owns j := by
  by_cases hji : j = i
  · exact Or.inl hji
  · right
    rcases hj with ⟨b, hb⟩ | ⟨x', n, hx', hn⟩
    · rw [← AList.lookup_isSome, h.data (j, b) hji, AList.lookup_isSome] at hb
      exact Or.inl ⟨b, hb⟩
    · obtain ⟨x, hx, heq⟩ := h.xattrs x' hx'
      rw [← AList.lookup_isSome, heq (j, n) hji, AList.lookup_isSome] at hn
      exact Or.inr ⟨x, n, hx, hn⟩

theorem Concerns.owned (h : Concerns i db db') (hi : i ∈ db.inodes) (hdb : db.Owned) :
    db'.Owned := by
  intro j hj
  rw [h.mem_inodes]
  rcases h.owns hj with rfl | hj
  · exact hi
  · exact hdb j hj

theorem owns_dropInode (h : (db.dropInode i).Owns j) : j ≠ i ∧ db.Owns j := by
  rcases h with ⟨b, hb⟩ | ⟨x', n, hx', hn⟩
  · obtain ⟨hb, hj⟩ := AList.mem_filter_key.1 hb
    exact ⟨of_decide_eq_true hj, Or.inl ⟨b, hb⟩⟩
  · obtain ⟨x, hx, rfl⟩ := Option.map_eq_some_iff.1 hx'
    obtain ⟨hn, hj⟩ := AList.mem_filter_key.1 hn
    exact ⟨of_decide_eq_true hj, Or.inr ⟨x, n, hx, hn⟩⟩

theorem owns_dropName (h : (db.dropName now parent name i).Owns j) : db.Owns j := by
  unfold dropName at h
  split_ifs at h
  · exact (owns_dropInode h).2
  · exact h

theorem owned_dropName (h : db.Owned) : (db.dropName now parent name i).Owned := by
  intro j hj
  rw [← core_ne_none_iff, core_dropName]
  unfold dropName at hj
  split_ifs at hj ⊢
  · obtain ⟨hji, hj⟩ := owns_dropInode hj
    rw [Function.update_of_ne hji, core_ne_none_iff]
    exact h j hj
  · exact core_ne_none_iff.2 (h j hj)

theorem owned_addChild {r : Inode} (h : db.Owned) : (db.addChild now parent name r).Owned := by
  intro j hj
  rw [← core_ne_none_iff, core_addChild]
  by_cases hji : j = db.nextIno
  · rw [hji, Function.update_self]
    simp
  · rw [Function.update_of_ne hji, core_ne_none_iff]
    exact h j hj

theorem owned_of_core (h : db.Owned) (hcore : db'.core = db.core)
    (howns : ∀ j, db'.Owns j → db.Owns j) : db'.Owned := by
  intro j hj
  rw [← core_ne_none_iff, hcore, core_ne_none_iff]
  exact h j (howns j hj)

end Db

/-- Rows appear only for inodes that exist. -/
theorem Effect.owns {m : Mount} {now : F64} {req : Request} {j : Ino}
    (h : Effect m now req db db') (hj : db'.Owns j) : j ∈ db.inodes ∨ db.Owns j := by
  cases req with
  | setattr caller ino a =>
    obtain ⟨row, hrow, -, rfl⟩ := h
    obtain ⟨r, hr, -⟩ := Option.map_eq_some_iff.1 hrow
    rcases Db.Concerns.apply.owns hj with rfl | hj
    · exact Or.inl (AList.mem_of_lookup_eq_some hr)
    · exact Or.inr hj
  | mkdir parent name mode =>
    obtain ⟨n, -, -, -, rfl⟩ := h
    exact Or.inr hj
  | create parent name mode =>
    obtain ⟨n, -, -, -, rfl⟩ := h
    exact Or.inr hj
  | symlink parent linkName target =>
    obtain ⟨t, -, n, -, -, -, rfl⟩ := h
    exact Or.inr hj
  | link ino newparent newname =>
    obtain ⟨n, -, -, -, rfl⟩ := h
    exact Or.inr hj
  | unlink parent name =>
    obtain ⟨n, ino, -, -, rfl⟩ := h
    exact Or.inr (Db.owns_dropName hj)
  | rmdir parent name =>
    obtain ⟨n, ino, -, -, -, -, rfl⟩ := h
    exact Or.inr (Db.owns_dropName hj)
  | rename parent name newparent newname flags =>
    cases h with
    | sameName => exact Or.inr hj
    | freeName => exact Or.inr hj
    | replaced => exact Or.inr (Db.owns_dropName hj)
  | write fh offset data kill =>
    obtain ⟨row, hrow, -, rfl⟩ := h
    obtain ⟨r, hr, -⟩ := Option.map_eq_some_iff.1 hrow
    rcases Db.Concerns.writeEffect.owns hj with rfl | hj
    · exact Or.inl (AList.mem_of_lookup_eq_some hr)
    · exact Or.inr hj
  | setxattr ino name value flags =>
    obtain ⟨n, x, -, -, -, -, hino, hx, -, -, rfl⟩ := h
    rcases (Db.Concerns.setxattr hx).owns hj with rfl | hj
    · exact Or.inl hino
    · exact Or.inr hj
  | removexattr ino name =>
    obtain ⟨n, x, -, hx, hmem, rfl⟩ := h
    rcases (Db.Concerns.removexattr hx).owns hj with rfl | hj
    · exact Or.inr (Or.inr ⟨x, n, hx, hmem⟩)
    · exact Or.inr hj
  | _ =>
    obtain rfl : db' = db := h
    exact Or.inr hj

/-- A rename keeps every row owned. -/
theorem RenameEffect.owned {now : F64} {parent newparent : Ino} {name newname : OsStr}
    {flags : RenameFlags} (h : RenameEffect now parent name newparent newname flags db db')
    (hdb : db.Owned) : db'.Owned := by
  cases h with
  | sameName => exact Db.owned_of_core hdb (by simp) fun _ => id
  | freeName => exact Db.owned_of_core hdb Db.core_moveName fun _ => id
  | replaced => exact Db.owned_of_core (Db.owned_dropName hdb) Db.core_moveName fun _ => id

/-- Every effect keeps every row owned. -/
theorem Effect.owned {m : Mount} {now : F64} {req : Request} (h : Effect m now req db db')
    (hdb : db.Owned) : db'.Owned := by
  cases req with
  | setattr caller ino a =>
    obtain ⟨row, hrow, -, rfl⟩ := h
    obtain ⟨r, hr, -⟩ := Option.map_eq_some_iff.1 hrow
    exact Db.Concerns.apply.owned (AList.mem_of_lookup_eq_some hr) hdb
  | mkdir parent name mode =>
    obtain ⟨n, -, -, -, rfl⟩ := h
    exact Db.owned_addChild hdb
  | create parent name mode =>
    obtain ⟨n, -, -, -, rfl⟩ := h
    exact Db.owned_addChild hdb
  | symlink parent linkName target =>
    obtain ⟨t, -, n, -, -, -, rfl⟩ := h
    exact Db.owned_addChild hdb
  | link ino newparent newname =>
    obtain ⟨n, -, -, -, rfl⟩ := h
    exact Db.owned_of_core hdb (by simp) fun _ => id
  | unlink parent name =>
    obtain ⟨n, ino, -, -, rfl⟩ := h
    exact Db.owned_dropName hdb
  | rmdir parent name =>
    obtain ⟨n, ino, -, -, -, -, rfl⟩ := h
    exact Db.owned_dropName hdb
  | rename parent name newparent newname flags => exact RenameEffect.owned h hdb
  | write fh offset data kill =>
    obtain ⟨row, hrow, -, rfl⟩ := h
    obtain ⟨r, hr, -⟩ := Option.map_eq_some_iff.1 hrow
    exact Db.Concerns.writeEffect.owned (AList.mem_of_lookup_eq_some hr) hdb
  | setxattr ino name value flags =>
    obtain ⟨n, x, -, -, -, -, hino, hx, -, -, rfl⟩ := h
    exact (Db.Concerns.setxattr hx).owned hino hdb
  | removexattr ino name =>
    obtain ⟨n, x, -, hx, hmem, rfl⟩ := h
    exact (Db.Concerns.removexattr hx).owned (hdb ino (Or.inr ⟨x, n, hx, hmem⟩)) hdb
  | _ =>
    obtain rfl : db' = db := h
    exact hdb

/-! ## The invariant -/

/-- The namespace invariant of a container. -/
structure Db.TreeInv (db : Db) : Prop where
  root : db.IsDir rootIno
  root_unnamed : ∀ k, db.dentries.lookup k ≠ some rootIno
  child : ∀ k i, db.dentries.lookup k = some i → i ∈ db.inodes
  parent : ∀ k i, db.dentries.lookup k = some i → db.IsDir k.1
  dir_one_name : ∀ i, db.IsDir i → i ≠ rootIno → ∃! k, db.dentries.lookup k = some i
  named : ∀ i, i ∈ db.inodes → i ≠ rootIno → ∃ k, db.dentries.lookup k = some i
  climbs : ∀ i, i ∈ db.inodes → Climbs db.Up rootIno i
  data_owned : ∀ i b, (i, b) ∈ db.data → i ∈ db.inodes
  xattrs_owned : ∀ x i n, db.xattrs = some x → (i, n) ∈ x → i ∈ db.inodes

theorem Db.treeInv_iff : db.TreeInv ↔ db.tree.WellFormed rootIno ∧ db.Owned := by
  constructor
  · intro h
    refine ⟨⟨node_eq_true_iff.2 h.root, h.root_unnamed, ?_, ?_, ?_, ?_⟩, ?_⟩
    · exact fun k i hk => node_ne_none_iff.2 (h.child k i hk)
    · exact fun k i hk => node_eq_true_iff.2 (h.parent k i hk)
    · intro i k k' hi hk hk'
      have hroot : i ≠ rootIno := fun hroot => h.root_unnamed k (hroot ▸ hk)
      exact (h.dir_one_name i (node_eq_true_iff.1 hi) hroot).unique hk' hk
    · exact fun i hi => h.climbs i (node_ne_none_iff.1 hi)
    · intro i hi
      rcases hi with ⟨b, hb⟩ | ⟨x, n, hx, hn⟩
      · exact h.data_owned i b hb
      · exact h.xattrs_owned x i n hx hn
  · intro h
    obtain ⟨hwf, howned⟩ := h
    have hnamed (i : Ino) (hi : i ∈ db.inodes) (hroot : i ≠ rootIno) :
        ∃ k, db.dentries.lookup k = some i :=
      hwf.exists_entry (node_ne_none_iff.2 hi) hroot
    refine ⟨node_eq_true_iff.1 hwf.root_dir, hwf.root_unnamed, ?_, ?_, ?_, hnamed, ?_, ?_, ?_⟩
    · exact fun k i hk => node_ne_none_iff.1 (hwf.node_of_entry k i hk)
    · exact fun k i hk => node_eq_true_iff.1 (hwf.dir_of_entry k i hk)
    · intro i hi hroot
      have hi' := node_eq_true_iff.2 hi
      obtain ⟨k, hk⟩ := hnamed i (node_ne_none_iff.1 (by rw [hi']; simp)) hroot
      exact ⟨k, hk, fun k' hk' => hwf.dir_unique i k k' hi' hk hk'⟩
    · exact fun i hi => hwf.climbs i (node_ne_none_iff.2 hi)
    · exact fun i b hb => howned i (Or.inl ⟨b, hb⟩)
    · exact fun x i n hx hn => howned i (Or.inr ⟨x, n, hx, hn⟩)

theorem treeInv_created (now : F64) (uid gid : UInt32) : (Db.created now uid gid).TreeInv := by
  have hlookup (i : Ino) (hi : i ∈ (Db.created now uid gid).inodes) : i = rootIno := by
    rcases AList.mem_insert _ |>.1 hi with rfl | hi
    · rfl
    · exact (AList.notMem_empty i hi).elim
  have hname (k : Ino × String) (i : Ino) : (Db.created now uid gid).dentries.lookup k ≠ some i := by
    show (∅ : Table (Ino × String) Ino).lookup k ≠ some i
    simp
  have hroot : (Db.created now uid gid).IsDir rootIno := ⟨_, AList.lookup_insert _, rfl⟩
  refine ⟨hroot, fun k => hname k _, fun k i hk => (hname k i hk).elim,
    fun k i hk => (hname k i hk).elim, ?_, fun i hi hne => (hne (hlookup i hi)).elim, ?_, ?_, ?_⟩
  · intro i hi hne
    obtain ⟨r, hr, -⟩ := hi
    exact (hne (hlookup i (AList.mem_of_lookup_eq_some hr))).elim
  · intro i hi
    rw [hlookup i hi]
    exact .root
  · exact fun i b hb => (AList.notMem_empty _ hb).elim
  · intro x i n hx hn
    cases hx
    exact (AList.notMem_empty _ hn).elim

/-- One request keeps the invariant, whatever fails. -/
theorem Db.TreeInv.step (h : db.TreeInv) (env : Env) {req : Request} (hok : KernelOk db req) :
    (step env req db).2.TreeInv := by
  obtain ⟨hwf, howned⟩ := treeInv_iff.1 h
  rcases step_cases env req db with hsame | heffect
  · rwa [hsame]
  · exact treeInv_iff.2 ⟨heffect.wellFormed hok hwf, heffect.owned howned⟩

theorem Reachable.treeInv (h : Reachable db) : db.TreeInv :=
  h.induction treeInv_created fun env _ _ hdb hok => hdb.step env hok

/-- The way up turns in no circle. -/
theorem Db.TreeInv.acyclic (h : db.TreeInv) (i : Ino) : ¬ TransGen db.Up i i := by
  intro hcyc
  have hroot (p : Ino) : ¬ db.Up rootIno p := by
    intro hup
    obtain ⟨n, hn⟩ := hup
    exact h.root_unnamed (p, n) hn
  have hi : i ∈ db.inodes := by
    obtain ⟨p, ⟨n, hn⟩, -⟩ := TransGen.head'_iff.1 hcyc
    exact h.child (p, n) i hn
  exact (h.climbs i hi).not_cyclic hroot hcyc

/-- **In every reachable state the tables hold a tree**, whatever requests were made, in which
order, and whatever failed: the way up from every inode ends at the root, and nowhere does it turn
in a circle. -/
theorem reachable_tree (h : Reachable db) :
    db.TreeInv ∧ (∀ i, i ∈ db.inodes → db.Below i rootIno) ∧ ∀ i, ¬ TransGen db.Up i i := by
  have hdb := h.treeInv
  exact ⟨hdb, fun i hi => (hdb.climbs i hi).reaches_root, hdb.acyclic⟩

theorem reachable_tree_oneByte : Db.oneByte.TreeInv := (reachable_tree reachable_oneByte).1

end CofferFS
