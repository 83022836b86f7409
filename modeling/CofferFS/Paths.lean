import CofferFS.Lib.Paths
import CofferFS.Tree
import CofferFS.Reply

/-!
# What paths lead to

`Db.paths` forgets the tables: it only says which inode each path from the root leads to.
`PathEffect` tells what each request does in these terms, where a directory is known by its path: a
new path, one path less, a path that moves together with everything below it.

`step_paths` connects the two: whatever fails, a request leaves the paths alone and is refused, or
it does what `PathEffect` says. `nlink_paths` counts: a file has as many paths as links, a directory
has one.
-/

namespace CofferFS

open Script Relation Paths

/-- Which inode each path leads to. -/
def Db.paths (db : Db) : Paths Ino String := db.tree.resolve rootIno

/-! ## The effect of a request -/

section PathEffect

variable (parent : Ino) (name : OsStr) (P P' : Paths Ino String)

/-- A new inode appears under a free name. -/
def PathNew : Prop :=
  ∃ e n i, P e = some parent ∧ name.toStr = some n ∧ P (e ++ [n]) = none ∧ (∀ q, P q ≠ some i) ∧
    P' = graft (e ++ [n]) (single i) P

/-- A name disappears; there was nothing below it. -/
def PathGone : Prop :=
  ∃ e n i, P e = some parent ∧ name.toStr = some n ∧ below (e ++ [n]) P = single i ∧
    P' = prune (e ++ [n]) P

/-- Another name for an inode that has nothing below it. -/
def PathLinked (ino : Ino) : Prop :=
  ∃ e n q, P e = some parent ∧ name.toStr = some n ∧ P (e ++ [n]) = none ∧ below q P = single ino ∧
    P' = graft (e ++ [n]) (single ino) P

/-- A path moves with everything below it, to a place that is not below it. What was at that place
is gone, and there was nothing below it. -/
def PathMoved (newparent : Ino) (newname : OsStr) : Prop :=
  ∃ e n e' n' i, P e = some parent ∧ name.toStr = some n ∧ P e' = some newparent ∧
    newname.toStr = some n' ∧ P (e ++ [n]) = some i ∧ ¬ e ++ [n] <+: e' ∧
    (e' ++ [n'] = e ++ [n] ∨ P (e' ++ [n']) = none ∨ ∃ j ≠ i, below (e' ++ [n']) P = single j) ∧
    P' = graft (e' ++ [n']) (below (e ++ [n]) P) (prune (e ++ [n]) P)

end PathEffect

/-- What a request does to the paths. -/
def PathEffect : Request → Paths Ino String → Paths Ino String → Prop
  | .mkdir parent name _ => PathNew parent name
  | .create parent name _ => PathNew parent name
  | .symlink parent linkName _ => PathNew parent linkName
  | .link ino newparent newname => fun P P' => PathLinked newparent newname P P' ino
  | .unlink parent name => PathGone parent name
  | .rmdir parent name => PathGone parent name
  | .rename parent name newparent newname _ => fun P P' =>
    PathMoved parent name P P' newparent newname
  | _ => fun P P' => P' = P

namespace Db

variable {db db' : Db} {i j parent : Ino} {name n : String} {now : F64} {e : List String}

theorem paths_of_tree (h : db'.tree = db.tree) : db'.paths = db.paths := by
  rw [paths, h, paths]

theorem TreeInv.wellFormed (h : db.TreeInv) : db.tree.WellFormed rootIno := (treeInv_iff.1 h).1

/-- Every directory has a path. -/
theorem exists_path_dir (h : db.tree.WellFormed rootIno) (hdir : db.IsDir i) :
    ∃ e, db.paths e = some i :=
  h.exists_path (by rw [node_eq_true_iff.2 hdir]; simp)

theorem paths_snoc (he : db.paths e = some parent) :
    db.paths (e ++ [n]) = db.childIno parent n := by
  rw [paths, Namespace.resolve_snoc, ← paths, he]
  rfl

theorem below_paths (he : db.paths e = some parent) (hi : db.childIno parent n = some i) :
    below (e ++ [n]) db.paths = db.tree.resolve i :=
  Namespace.below_resolve (by rw [← paths, paths_snoc he, hi])

/-! ## The compound changes -/

theorem paths_addChild {r : Inode} (h : db.tree.WellFormed rootIno) (hdir : db.IsDir parent)
    (he : db.paths e = some parent) : (db.addChild now parent name r).paths =
      graft (e ++ [name]) (single db.nextIno) db.paths := by
  have hfresh : db.tree.node db.nextIno ≠ some true := by
    simp [tree, core, lookup_nextIno]
  have hentry : (db.addChild now parent name r).tree.entry =
      (db.tree.bind (parent, name) db.nextIno).entry := by
    rw [tree_addChild]
    rfl
  rw [paths, Namespace.resolve_congr hentry, ← h.resolve_leaf hfresh]
  exact h.resolve_bind (node_eq_true_iff.2 hdir) he
    (h.not_below_leaf hfresh (node_eq_true_iff.2 hdir))

theorem paths_dropName (h : db.tree.WellFormed rootIno) (hdir : db.IsDir parent)
    (he : db.paths e = some parent) :
    (db.dropName now parent name i).paths = prune (e ++ [name]) db.paths := by
  have hentry : (db.dropName now parent name i).tree.entry =
      (db.tree.unbind (parent, name)).entry := by
    rw [tree_dropName]
    split_ifs <;> rfl
  rw [paths, Namespace.resolve_congr hentry]
  exact h.resolve_unbind (k := (parent, name)) (node_eq_true_iff.2 hdir) he

/-- Nothing lies below what may be deleted. -/
theorem resolve_removable (h : db.tree.WellFormed rootIno)
    (hempty : db.IsDir i → db.hasChildren i = false) : db.tree.resolve i = single i := by
  by_cases hdir : db.IsDir i
  · exact Namespace.resolve_of_no_entries (hasChildren_eq_false_iff.1 (hempty hdir))
  · exact h.resolve_leaf fun hnode => hdir (node_eq_true_iff.1 hnode)

theorem pathGone_dropName {name : OsStr} (h : db.tree.WellFormed rootIno) (hdir : db.IsDir parent)
    (hn : name.toStr = some n) (hi : db.childIno parent n = some i)
    (hempty : db.IsDir i → db.hasChildren i = false) :
    PathGone parent name db.paths (db.dropName now parent n i).paths := by
  obtain ⟨e, he⟩ := exists_path_dir h hdir
  refine ⟨e, n, i, he, hn, ?_, paths_dropName h hdir he⟩
  rw [below_paths he hi, resolve_removable h hempty]

end Db

variable {db db' : Db} {now : F64} {parent newparent : Ino} {name newname : OsStr}

theorem ChildEffect.paths {r : Inode} (h : ChildEffect now parent name r db db')
    (hwf : db.tree.WellFormed rootIno) (hdir : db.IsDir parent) :
    PathNew parent name db.paths db'.paths := by
  obtain ⟨n, hn, hfree, -, rfl⟩ := h
  obtain ⟨e, he⟩ := Db.exists_path_dir hwf hdir
  refine ⟨e, n, db.nextIno, he, hn, ?_, fun q hq => ?_, Db.paths_addChild hwf hdir he⟩
  · rw [Db.paths_snoc he, hfree]
  · have hnode := hwf.node_of_resolve hq
    simp [Db.tree, Db.core, Db.lookup_nextIno] at hnode

/-- A rename moves a path. -/
theorem RenameEffect.paths {flags : RenameFlags}
    (h : RenameEffect now parent name newparent newname flags db db')
    (hok : KernelOk db (.rename parent name newparent newname flags))
    (hwf : db.tree.WellFormed rootIno) :
    PathMoved parent name db.paths db'.paths newparent newname := by
  obtain ⟨hparent, hnewparent, -, hbelow⟩ := hok
  obtain ⟨e, he⟩ := Db.exists_path_dir hwf hparent
  obtain ⟨e', he'⟩ := Db.exists_path_dir hwf hnewparent
  -- the new place is not below the old name, also when that is no directory
  have hapart {n : String} {i : Ino} (hn : name.toStr = some n)
      (hi : db.childIno parent n = some i) : ¬ db.tree.Below newparent i := by
    by_cases hdir : db.IsDir i
    · exact hbelow i ⟨n, hn, hi⟩ hdir
    · exact hwf.not_below_leaf (fun hnode => hdir (Db.node_eq_true_iff.1 hnode))
        (Db.node_eq_true_iff.2 hnewparent)
  have hprefix {n : String} {i : Ino} (hn : name.toStr = some n)
      (hi : db.childIno parent n = some i) : ¬ e ++ [n] <+: e' := by
    rintro ⟨r, rfl⟩
    refine hapart hn hi (Namespace.below_iff_resolve.2 ⟨r, ?_⟩)
    rw [← Db.below_paths he hi, below, he']
  cases h with
  | @sameName n n' ino hn hn' hino _ _ _ hsame =>
    obtain ⟨rfl, rfl⟩ := Prod.mk.inj hsame
    obtain rfl := hwf.path_unique (Db.node_eq_true_iff.2 hparent) he he'
    refine ⟨e, n, e, n, ino, he, hn, he, hn', ?_, hprefix hn hino, Or.inl rfl, ?_⟩
    · rw [Db.paths_snoc he, hino]
    · rw [prune, graft_graft, graft_below]
      exact Db.paths_of_tree (by rw [Db.tree_touch, Db.tree_touch])
  | @freeName n n' ino hn hn' hino _ _ hfree =>
    refine ⟨e, n, e', n', ino, he, hn, he', hn', ?_, hprefix hn hino, Or.inr (Or.inl ?_), ?_⟩
    · rw [Db.paths_snoc he, hino]
    · rw [Db.paths_snoc he', hfree]
    · rw [Db.paths, Db.tree_moveName]
      have hdir' : db.tree.node (newparent, n').1 = some true := Db.node_eq_true_iff.2 hnewparent
      exact hwf.resolve_move hino he hdir' he' (hapart hn hino)
  | @replaced n n' ino existing hn hn' hino _ _ _ hexisting hne hremovable =>
    have hold : below (e' ++ [n']) db.paths = single existing := by
      rw [Db.below_paths he' hexisting, Db.resolve_removable hwf hremovable.empty]
    have hpath : db.paths (e ++ [n]) = some ino := by
      rw [Db.paths_snoc he, hino]
    -- neither of the two names is below the other
    have hleft : ¬ e ++ [n] <+: e' ++ [n'] := by
      rw [List.prefix_concat_iff]
      rintro (heq | hpre)
      · have hsame := congrFun hold []
        rw [below, List.append_nil, ← heq, hpath] at hsame
        exact hne (Option.some.inj hsame).symm
      · exact hprefix hn hino hpre
    have hright : ¬ e' ++ [n'] <+: e ++ [n] := by
      rintro ⟨r, hr⟩
      have hlost := congrFun hold r
      rw [below, hr, hpath, single] at hlost
      split_ifs at hlost
      exact hne (Option.some.inj hlost).symm
    refine ⟨e, n, e', n', ino, he, hn, he', hn', hpath, hprefix hn hino,
      Or.inr (Or.inr ⟨existing, hne, hold⟩), ?_⟩
    have hwf' : (db.dropName now newparent n' existing).tree.WellFormed rootIno :=
      Db.wellFormed_dropName hwf hexisting hremovable.empty
    have hdrop : (db.dropName now newparent n' existing).paths = prune (e' ++ [n']) db.paths :=
      Db.paths_dropName hwf hnewparent he'
    have hnp : newparent ≠ existing := by
      rintro rfl
      have hnone := Db.hasChildren_eq_false_iff.1 (hremovable.empty hnewparent) n'
      rw [show db.tree.entry (newparent, n') = some newparent from hexisting] at hnone
      cases hnone
    have hname : (db.dropName now newparent n' existing).tree.entry (parent, n) = some ino :=
      Db.dropName_lookup_other hino hexisting hne
    have hdir' : (db.dropName now newparent n' existing).tree.node (newparent, n').1 =
        some true := by
      rw [Db.node_dropName_of_ne hnp]
      exact Db.node_eq_true_iff.2 hnewparent
    have hapart' : ¬ (db.dropName now newparent n' existing).tree.Below newparent ino :=
      fun hbelow' => hapart hn hino
        (ReflTransGen.mono (fun _ _ => Db.up_of_up_dropName) _ _ hbelow')
    -- the directory of the old name is not the one that goes
    have hleft' : (db.dropName now newparent n' existing).paths e = some parent := by
      rw [hdrop, prune_of_outside, he]
      rintro ⟨r, hr⟩
      have hlost := congrFun hold r
      rw [below, hr, he, single] at hlost
      split_ifs at hlost
      obtain rfl := Option.some.inj hlost
      have hnone := Db.hasChildren_eq_false_iff.1 (hremovable.empty hparent) n
      rw [show db.tree.entry (parent, n) = some ino from hino] at hnone
      cases hnone
    have hright' : (db.dropName now newparent n' existing).paths e' = some newparent := by
      rw [hdrop, prune_of_outside, he']
      intro hpre
      simpa using hpre.length_le
    rw [Db.paths, Db.tree_moveName, hwf'.resolve_move hname hleft' hdir' hright' hapart',
      ← Db.paths, hdrop, below_prune hleft hright, prune_comm, prune, graft_graft]

/-- What the effect of a request does to the paths. -/
theorem Effect.paths {m : Mount} {req : Request} (h : Effect m now req db db')
    (hok : KernelOk db req) (hwf : db.tree.WellFormed rootIno) :
    PathEffect req db.paths db'.paths := by
  cases req with
  | setattr caller ino a =>
    obtain ⟨row, -, -, rfl⟩ := h
    exact Db.paths_of_tree Db.Concerns.apply.tree
  | mkdir parent name mode => exact ChildEffect.paths h hwf hok
  | create parent name mode => exact ChildEffect.paths h hwf hok
  | symlink parent linkName target =>
    obtain ⟨t, -, h⟩ := h
    exact ChildEffect.paths h hwf hok
  | link ino newparent newname =>
    obtain ⟨n, hn, hleaf, hfree, rfl⟩ := h
    have hnode := Db.node_eq_false_iff.2 hleaf
    have hleaf' : db.tree.node ino ≠ some true := by simp [hnode]
    obtain ⟨e, he⟩ := Db.exists_path_dir hwf hok
    obtain ⟨q, hq⟩ := hwf.exists_path (i := ino) (by simp [hnode])
    refine ⟨e, n, q, he, hn, ?_, ?_, ?_⟩
    · rw [Db.paths_snoc he, hfree]
    · rw [Db.paths, Namespace.below_resolve hq, hwf.resolve_leaf hleaf']
    · rw [Db.paths_of_tree Db.tree_setCtime, Db.paths, Db.tree_addName, ← hwf.resolve_leaf hleaf']
      exact hwf.resolve_bind (k := (newparent, n)) (Db.node_eq_true_iff.2 hok) he
        (hwf.not_below_leaf hleaf' (Db.node_eq_true_iff.2 hok))
  | unlink parent name =>
    obtain ⟨n, ino, hn, hino, rfl⟩ := h
    exact Db.pathGone_dropName hwf hok.1 hn hino fun hdir => (hok.2 ino ⟨n, hn, hino⟩ hdir).elim
  | rmdir parent name =>
    obtain ⟨n, ino, hn, hino, -, hremovable, rfl⟩ := h
    exact Db.pathGone_dropName hwf hok.1 hn hino hremovable.empty
  | rename parent name newparent newname flags => exact RenameEffect.paths h hok hwf
  | write fh offset data kill =>
    obtain ⟨row, -, -, rfl⟩ := h
    exact Db.paths_of_tree Db.Concerns.writeEffect.tree
  | setxattr ino name value flags =>
    obtain ⟨n, x, -, -, -, -, -, hx, -, -, rfl⟩ := h
    exact Db.paths_of_tree (Db.Concerns.setxattr hx).tree
  | removexattr ino name =>
    obtain ⟨n, x, -, hx, -, rfl⟩ := h
    exact Db.paths_of_tree (Db.Concerns.removexattr hx).tree
  | _ => exact congrArg Db.paths h

/-- **Every request does to the paths what it is for, or is refused and leaves them alone.** An
error may also stand beside what was done: the query for the reply comes after the commit. -/
theorem step_paths (hdb : Reachable db) (env : Env) {req : Request} (hok : KernelOk db req) :
    Undone (step env req db).1 db.paths (step env req db).2.paths ∨
      PathEffect req db.paths (step env req db).2.paths := by
  rcases step_effect env req db with ⟨he, hsame⟩ | heffect
  · exact Or.inl ⟨he, by rw [hsame]⟩
  · exact Or.inr (heffect.paths hok hdb.treeInv.wellFormed)

theorem step_paths_link :
    Undone (step (.quiet .plain 1) (.link 2 rootIno nameB) .oneFile).1 Db.oneFile.paths
        (step (.quiet .plain 1) (.link 2 rootIno nameB) .oneFile).2.paths ∨
      PathEffect (.link 2 rootIno nameB) Db.oneFile.paths
        (step (.quiet .plain 1) (.link 2 rootIno nameB) .oneFile).2.paths :=
  step_paths reachable_oneFile _ reachable_oneFile.treeInv.root

/-! ## Links -/

namespace Db

variable {i : Ino}

/-- The paths of an inode that is not the root end with its names. -/
theorem image_paths (h : db.tree.WellFormed rootIno) (hi : i ≠ rootIno) :
    ∃ f : Ino × String → List String, Set.BijOn f {k | db.dentries.lookup k = some i}
      {q | db.paths q = some i} := by
  have hpath (k : Ino × String) (hk : db.dentries.lookup k = some i) :
      ∃ e, db.paths e = some k.1 :=
    h.exists_path (by rw [h.dir_of_entry k i hk]; simp)
  choose! e he using hpath
  refine ⟨fun k => e k ++ [k.2], fun k hk => ?_, fun k hk k' hk' heq => ?_, fun q hq => ?_⟩
  · show db.paths (e k ++ [k.2]) = some i
    rw [paths_snoc (he k hk)]
    exact hk
  · obtain ⟨hek, hn⟩ := List.append_inj' heq rfl
    have hparent := he k hk
    rw [hek, he k' hk'] at hparent
    exact Prod.ext (Option.some.inj hparent).symm (by simpa using hn)
  · rcases List.eq_nil_or_concat q with rfl | ⟨q, n, rfl⟩
    · exact (hi (Option.some.inj hq).symm).elim
    · rw [List.concat_eq_append] at hq ⊢
      have hq' := hq
      rw [Set.mem_ofPred_eq, paths, Namespace.resolve_snoc] at hq'
      obtain ⟨p, hp, hk⟩ := Option.bind_eq_some_iff.1 hq'
      have hpdir := h.dir_of_entry (p, n) i hk
      refine ⟨(p, n), hk, ?_⟩
      show e (p, n) ++ [n] = q ++ [n]
      rw [h.path_unique hpdir (he (p, n) hk) hp]

end Db

theorem getattr_ok {i : Ino} {a : Answer} (h : (getattr i).Yields db (.ok a) db') :
    ∃ row attr, db.rowByIno i = some row ∧ toAttr i row = some attr ∧ a = .attr ttl attr := by
  obtain ⟨o, hrow, h⟩ := h.after (readOnly_orEio readOnly_rowByIno)
  obtain ⟨row, hsome, h⟩ := h.after (readOnly_orRefuse _ _)
  obtain ⟨attr, hattr, h⟩ := h.after (readOnly_orPanic _)
  have hrow := (yields_rowByIno_ok.1 (yields_orEio_ok.1 hrow)).1
  have hsome := (yields_orRefuse_ok.1 hsome).1
  exact ⟨row, attr, hrow.symm.trans hsome, (yields_orPanic_ok.1 hattr).1,
    Except.ok.inj (yields_pure.1 h).1⟩

theorem toAttr_eq_some {i : Ino} {row : Db.InodeRow} {attr : FileAttr}
    (h : toAttr i row = some attr) : attr.kind = fileTypeOf row.kind ∧ attr.nlink = row.nlink := by
  unfold toAttr at h
  obtain ⟨_, -, h⟩ := Option.bind_eq_some_iff.1 h
  obtain ⟨_, -, h⟩ := Option.bind_eq_some_iff.1 h
  obtain ⟨_, -, h⟩ := Option.bind_eq_some_iff.1 h
  obtain ⟨_, -, h⟩ := Option.bind_eq_some_iff.1 h
  cases h
  exact ⟨rfl, rfl⟩

/-- **A file has as many paths as links, a directory has one path.** -/
theorem nlink_paths (hdb : Reachable db) {env : Env} {i : Ino} {t : ℕ} {attr : FileAttr}
    (h : (step env (.getattr i) db).1 = .ok (.attr t attr)) :
    (attr.kind = .directory → ∃! q, db.paths q = some i) ∧
      (attr.kind ≠ .directory → Set.Finite {q | db.paths q = some i} ∧
        attr.nlink = Set.ncard {q | db.paths q = some i} % 2 ^ 32) := by
  have hwf := hdb.treeInv.wellFormed
  have hy := step_yields env (.getattr i) db
  rw [h] at hy
  obtain ⟨row, attr, hrow, hattr, heq⟩ := getattr_ok hy
  cases heq
  obtain ⟨hkind, hnlink⟩ := toAttr_eq_some hattr
  obtain ⟨r, hr, rfl⟩ := Option.map_eq_some_iff.1 hrow
  have hkind : attr.kind = fileTypeOf r.kind := hkind
  have hdir : attr.kind = .directory ↔ r.kind = .dir := by
    rw [hkind]
    cases r.kind <;> simp [fileTypeOf]
  rw [Ne, hdir]
  refine ⟨fun hk => ?_, fun hk => ?_⟩
  · have hnode := Db.node_eq_true_iff.2 ⟨r, hr, hk⟩
    obtain ⟨e, he⟩ := hwf.exists_path (i := i) (by simp [hnode])
    exact ⟨e, he, fun q hq => hwf.path_unique hnode hq he⟩
  · have hroot : i ≠ rootIno := by
      rintro rfl
      obtain ⟨r', hr', hk'⟩ := Db.node_eq_true_iff.1 hwf.root_dir
      rw [hr] at hr'
      exact hk (Option.some.inj hr' ▸ hk')
    obtain ⟨f, hf⟩ := Db.image_paths hwf hroot
    have hnames := AList.ncard_lookup (fun _ j => decide (j = i)) db.dentries
    simp only [decide_eq_true_eq, exists_eq_right] at hnames
    refine ⟨hf.finite_iff_finite.1 hnames.2, ?_⟩
    rw [hnlink, ← hf.image_eq, hf.injOn.ncard_image, hnames.1]
    exact if_neg hk

theorem nlink_paths_oneFile : ∃ attr : FileAttr, attr.kind = .regularFile ∧
    attr.nlink = Set.ncard {q | Db.oneFile.paths q = some 2} % 2 ^ 32 := by
  have hreply : (step (.quiet .plain 0) (.getattr 2) .oneFile).1 = .ok (.attr ttl
      { ino := 2, size := 0, blocks := 0, atime := .unixEpoch, mtime := .unixEpoch
        ctime := .unixEpoch, crtime := .unixEpoch, kind := .regularFile, perm := 0o644, nlink := 1
        uid := 0, gid := 0, rdev := 0, blksize := 4096, flags := 0 }) := by
    decide +kernel
  exact ⟨_, rfl, ((nlink_paths reachable_oneFile hreply).2 (by decide)).2⟩

end CofferFS
