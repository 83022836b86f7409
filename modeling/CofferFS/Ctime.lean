import CofferFS.Own

/-!
# The change time

`ctime` is what an incremental backup goes by, and it is maintained by hand, in a dozen `UPDATE`
statements. `ctime_right_iff` says of which steps it can be relied on: of all but one. A `setattr`
that carries nothing but times sets them and leaves `ctime` as it was.
-/

namespace CofferFS

variable {db db' db'' : Db} {now : F64} {i ino parent : Ino} {name : String}

/-! ## Changes that are stamped -/

/-- The inode has `now` as its change time. -/
def Db.ChangedAt (now : F64) (i : Ino) (db : Db) : Prop :=
  ∃ r, db.inodes.lookup i = some r ∧ r.ctime = now

/-- What has changed about any inode that is there afterwards shows in its change time. -/
def Stamped (now : F64) (db db' : Db) : Prop :=
  ∀ i ∈ db'.inodes, db'.own i = db.own i ∨ db'.ChangedAt now i

theorem Db.mem_of_own (h : db'.own i = db.own i) : i ∈ db'.inodes ↔ i ∈ db.inodes := by
  have hrow : db'.inodes.lookup i = db.inodes.lookup i := congrArg Own.row h
  rw [← AList.lookup_isSome, hrow, AList.lookup_isSome]

theorem Db.ChangedAt.of_own (h : db.ChangedAt now i) (hown : db'.own i = db.own i) :
    db'.ChangedAt now i := by
  obtain ⟨r, hr, hnow⟩ := h
  exact ⟨r, (congrArg Own.row hown).trans hr, hnow⟩

theorem Stamped.trans (h : Stamped now db db') (h' : Stamped now db' db'') :
    Stamped now db db'' := by
  intro i hi
  rcases h' i hi with hown | hnow
  · rcases h i ((Db.mem_of_own hown).1 hi) with hown' | hnow
    · exact Or.inl (hown.trans hown')
    · exact Or.inr (hnow.of_own hown)
  · exact Or.inr hnow

/-- A change that is about one inode, and stamps it. -/
theorem stamped_of_own (hown : ∀ i, i ≠ ino → db'.own i = db.own i)
    (hnow : ino ∈ db'.inodes → db'.ChangedAt now ino) : Stamped now db db' := by
  intro i hi
  by_cases hino : i = ino
  · subst hino
    exact Or.inr (hnow hi)
  · exact Or.inl (hown i hino)

theorem changedAt_updateInode {f : Inode → Inode} (hf : ∀ r, (f r).ctime = now)
    (hi : i ∈ (db.updateInode i f).inodes) : (db.updateInode i f).ChangedAt now i := by
  obtain ⟨r', hr'⟩ := AList.exists_lookup_of_mem hi
  have hrow : (db.inodes.lookup i).map f = some r' :=
    (AList.lookup_updateKey_self i f db.inodes).symm.trans hr'
  obtain ⟨r, -, rfl⟩ := Option.map_eq_some_iff.1 hrow
  exact ⟨f r, hr', hf r⟩

theorem stamped_updateInode {f : Inode → Inode} (hf : ∀ r, (f r).ctime = now) :
    Stamped now db (db.updateInode ino f) :=
  stamped_of_own (fun _ h => Db.own_updateInode_of_ne h) (changedAt_updateInode hf)

/-- A touched directory is stamped. -/
theorem changedAt_of_touched (hi : i ∈ db'.inodes)
    (h : db'.own i = (db.own i).mapRow (Db.stamp now)) : db'.ChangedAt now i := by
  obtain ⟨r', hr'⟩ := AList.exists_lookup_of_mem hi
  have hrow : (db.inodes.lookup i).map (Db.stamp now) = some r' :=
    (congrArg Own.row h).symm.trans hr'
  obtain ⟨r, -, rfl⟩ := Option.map_eq_some_iff.1 hrow
  exact ⟨_, hr', rfl⟩

theorem stamped_or_touched {c : Prop} [Decidable c] (hi : i ∈ db'.inodes)
    (h : db'.own i = if c then (db.own i).mapRow (Db.stamp now) else db.own i) :
    db'.own i = db.own i ∨ db'.ChangedAt now i := by
  split_ifs at h
  · exact Or.inr (changedAt_of_touched hi h)
  · exact Or.inl h

/-! ## The changes of the requests -/

/-- Once a change time is `now`, an update that keeps such times keeps it. -/
theorem Db.ChangedAt.updateInode {f : Inode → Inode} (hf : ∀ r, r.ctime = now → (f r).ctime = now)
    (h : db.ChangedAt now i) : (db.updateInode ino f).ChangedAt now i := by
  by_cases hino : i = ino
  · subst hino
    obtain ⟨r, hr, hnow⟩ := h
    refine ⟨f r, ?_, hf r hnow⟩
    show (db.inodes.updateKey i f).lookup i = _
    rw [AList.lookup_updateKey_self, hr]
    rfl
  · exact h.of_own (Db.own_updateInode_of_ne hino)

theorem Db.ChangedAt.touch (h : db.ChangedAt now i) : (db.touch now ino).ChangedAt now i :=
  h.updateInode fun _ _ => rfl

theorem stamped_addChild {kind : Kind} {mode : BitVec 64} {uid gid : UInt32}
    {target : Option String} (hfree : db.dentries.lookup (parent, name) = none) :
    Stamped now db (db.addChild now parent name (Db.newInode now kind mode uid gid target)) := by
  intro i hi
  by_cases hnew : i = db.nextIno
  · have hrow : ({ db.addInode (Db.newInode now kind mode uid gid target) with
        dentries := db.dentries.insert (parent, name) db.nextIno } : Db).ChangedAt now i :=
      ⟨_, by rw [hnew]; exact AList.lookup_insert _, rfl⟩
    exact Or.inr hrow.touch
  · exact stamped_or_touched hi (Db.own_addChild_of_ne hfree hnew)

theorem stamped_link (hfree : db.dentries.lookup (parent, name) = none) :
    Stamped now db ((db.addName now parent name ino).setCtime now ino) := by
  let named : Db := { db with dentries := db.dentries.insert (parent, name) ino }
  have hnamed (i : Ino) (hino : i ≠ ino) : named.own i = db.own i := by
    refine (Db.own_insertDentry hfree).trans ?_
    rw [if_neg (Ne.symm hino), zero_add]
    rfl
  intro i hi
  by_cases hino : i = ino
  · subst hino
    exact Or.inr (changedAt_updateInode (fun _ => rfl) hi)
  · have hown : ((db.addName now parent name ino).setCtime now ino).own i =
        if i = parent then (db.own i).mapRow (Db.stamp now) else db.own i := by
      rw [← hnamed i hino, ← Db.own_touch]
      exact Db.own_updateInode_of_ne hino
    exact stamped_or_touched hi hown

theorem stamped_dropName (hname : db.dentries.lookup (parent, name) = some ino) :
    Stamped now db (db.dropName now parent name ino) := by
  intro i hi
  by_cases hino : i = ino
  · subst hino
    right
    have hcore := @Db.core_dropName db i parent name now
    rw [← Db.core_ne_none_iff, hcore] at hi
    unfold Db.dropName
    split_ifs at hi ⊢
    · exact (hi (Function.update_self ..)).elim
    · have hmem : i ∈ (db.deleteDentry parent name).inodes := Db.core_ne_none_iff.1 hi
      exact Db.ChangedAt.touch
        (changedAt_updateInode (fun _ => rfl) (Db.mem_updateInode.2 hmem))
  · exact stamped_or_touched hi (Db.own_dropName_of_ne hname hino)

theorem stamped_touch : Stamped now db (db.touch now ino) := stamped_updateInode fun _ => rfl

theorem stamped_moveName {old new : Ino × String} (hold : db.dentries.lookup old = some ino)
    (hfree : db.dentries.lookup new = none) : Stamped now db (db.moveName now old new ino) := by
  have hrekey : Stamped now db
      { db with dentries := (db.dentries.erase old).insert new ino } :=
    fun i _ => Or.inl (Db.own_rekey hold hfree)
  exact (hrekey.trans stamped_touch).trans stamped_touch

theorem RenameEffect.stamped {newparent : Ino} {name newname : OsStr} {flags : RenameFlags}
    (h : RenameEffect now parent name newparent newname flags db db') : Stamped now db db' := by
  cases h with
  | sameName => exact stamped_touch.trans stamped_touch
  | freeName hn hn' hino _ _ hfree => exact stamped_moveName hino hfree
  | @replaced n n' ino existing hn hn' hino _ _ _ hexisting hne =>
    exact (stamped_dropName hexisting).trans (stamped_moveName
      (Db.dropName_lookup_other hino hexisting hne) (Db.dropName_lookup_self ..))

/-! ## setattr and write -/

/-- Dropping privileges does not touch the change time. -/
theorem Db.ChangedAt.killIf {kill : Bool} (h : db.ChangedAt now i) :
    (db.killIf kill ino).ChangedAt now i := by
  unfold Db.killIf
  split_ifs
  · have hbits : ((db.clearSuid ino).clearSgid ino).ChangedAt now i := by
      refine (h.updateInode fun r hr => ?_).updateInode fun r hr => ?_
      · split_ifs <;> exact hr
      · split_ifs <;> exact hr
    exact hbits
  · exact h

theorem Db.ChangedAt.utimens {row : Db.InodeRow} {atime mtime : Option TimeOrNow}
    (h : db.ChangedAt now i) : (db.utimens now i row atime mtime).ChangedAt now i := by
  unfold Db.utimens
  split_ifs
  · exact h.updateInode fun _ hr => hr
  · exact h

theorem changedAt_truncate {length : ℕ} (hi : i ∈ db.inodes) :
    (db.truncate now i length).ChangedAt now i := by
  have hset : (db.setSize (asI64 length) now i).ChangedAt now i :=
    changedAt_updateInode (fun _ => rfl) (Db.mem_updateInode.2 hi)
  obtain ⟨r, hr, hnow⟩ := hset
  exact ⟨r, by rw [Db.inodes_truncate]; exact hr, hnow⟩

/-- A `setattr` that carries more than times is stamped. -/
theorem changedAt_apply {a : SetAttr} {caller : UInt32} {row : Db.InodeRow} (hi : i ∈ db.inodes)
    (h : ¬ (a.mode = none ∧ a.uid = none ∧ a.gid = none ∧ a.size = none)) :
    (a.apply now caller i row db).ChangedAt now i := by
  have hmem : i ∈ (db.chmod now i row a.mode).inodes := by
    rw [← Db.core_ne_none_iff, Db.core_chmod, Db.core_ne_none_iff]
    exact hi
  have hmem' : i ∈ ((db.chmod now i row a.mode).chown now i row a.uid a.gid).inodes := by
    rw [← Db.core_ne_none_iff, Db.core_chown, Db.core_ne_none_iff]
    exact hmem
  suffices hsized : (((db.chmod now i row a.mode).chown now i row a.uid a.gid).resize now i
      a.size).ChangedAt now i from hsized.utimens.killIf
  cases hsize : a.size with
  | some n => exact changedAt_truncate hmem'
  | none =>
    show ((db.chmod now i row a.mode).chown now i row a.uid a.gid).ChangedAt now i
    unfold Db.chown
    split_ifs with howner
    · exact changedAt_updateInode (fun _ => rfl) (Db.mem_updateInode.2 hmem)
    · cases hmode : a.mode with
      | some m => exact changedAt_updateInode (fun _ => rfl) (Db.mem_updateInode.2 hi)
      | none =>
        simp only [not_or, Option.not_isSome_iff_eq_none] at howner
        exact (h ⟨hmode, howner.1, howner.2, hsize⟩).elim

theorem changedAt_writeEffect {offset : ℕ} {data : List UInt8} {kill : Bool} {row : Db.InodeRow}
    (hi : i ∈ db.inodes) : (writeEffect now i offset data kill row db).ChangedAt now i := by
  have hmem : i ∈ (db.writeBlocks i offset data).inodes := by
    rw [Db.inodes_writeBlocks]
    exact hi
  have hsized : ((db.writeBlocks i offset data).setSize (asI64 (writtenSize row offset data)) now
      i).ChangedAt now i :=
    changedAt_updateInode (fun _ => rfl) (Db.mem_updateInode.2 hmem)
  exact hsized.killIf

/-- A `setattr` with times only is an update of the two times. -/
theorem apply_times {a : SetAttr} {caller : UInt32} {row : Db.InodeRow} (hmode : a.mode = none)
    (huid : a.uid = none) (hgid : a.gid = none) (hsize : a.size = none) :
    a.apply now caller i row db = db.utimens now i row a.atime a.mtime := by
  have hkills : setattrKills caller row.kind a = false := by
    simp [setattrKills, huid, hgid, hsize]
  simp [SetAttr.apply, Db.killIf, Db.chmod, Db.chown, Db.resize, hmode, huid, hgid, hsize, hkills]

/-! ## The rule -/

/-- What the change time is about has changed for `i`: mode, owner, size, times, blocks, attributes
or the number of names. -/
def Changed (i : Ino) (db db' : Db) : Prop :=
  ∃ r r', db.inodes.lookup i = some r ∧ db'.inodes.lookup i = some r' ∧
    (r'.mode ≠ r.mode ∨ r'.uid ≠ r.uid ∨ r'.gid ≠ r.gid ∨ r'.size ≠ r.size ∨ r'.atime ≠ r.atime ∨
      r'.mtime ≠ r.mtime ∨ (db'.own i).block ≠ (db.own i).block ∨ db'.attr i ≠ db.attr i ∨
      db'.nameCount i ≠ db.nameCount i)

/-- The change time misses no change. -/
def CtimeRight (now : F64) (db db' : Db) : Prop :=
  ∀ i, Changed i db db' → db'.ChangedAt now i

/-- The request sets times, and only times, and one of them is new; and the inode was not changed
at the time of the request already. -/
def TimesOnly (now : F64) (db : Db) : Request → Prop
  | .setattr _ ino a => a.mode = none ∧ a.uid = none ∧ a.gid = none ∧ a.size = none ∧
      ∃ r, db.inodes.lookup ino = some r ∧ r.ctime ≠ now ∧
        ((timeOrNowToSecs now a.atime).getD r.atime ≠ r.atime ∨
          (timeOrNowToSecs now a.mtime).getD r.mtime ≠ r.mtime)
  | _ => False

theorem not_changed_of_own (h : db'.own i = db.own i) : ¬ Changed i db db' := by
  rintro ⟨r, r', hr, hr', hne⟩
  have hrow : db'.inodes.lookup i = db.inodes.lookup i := congrArg Own.row h
  have hblock : (db'.own i).block = (db.own i).block := congrArg Own.block h
  have hattr : db'.attr i = db.attr i := congrArg Own.attr h
  have hnames : db'.nameCount i = db.nameCount i := congrArg Own.names h
  rw [hr, hr'] at hrow
  cases hrow
  simp [hblock, hattr, hnames] at hne

theorem Stamped.ctimeRight (h : Stamped now db db') : CtimeRight now db db' := by
  intro i hchanged
  have hi : i ∈ db'.inodes := by
    obtain ⟨r, r', -, hr', -⟩ := hchanged
    exact AList.mem_of_lookup_eq_some hr'
  rcases h i hi with hown | hnow
  · exact (not_changed_of_own hown hchanged).elim
  · exact hnow

/-- Every effect but that of setting times only is stamped. -/
theorem Effect.stamped {m : Mount} {req : Request} (h : Effect m now req db db')
    (htimes : ∀ caller ino a, req = .setattr caller ino a →
      ¬ (a.mode = none ∧ a.uid = none ∧ a.gid = none ∧ a.size = none)) : Stamped now db db' := by
  cases req with
  | setattr caller ino a =>
    obtain ⟨row, hrow, -, rfl⟩ := h
    obtain ⟨r, hr, -⟩ := Option.map_eq_some_iff.1 hrow
    exact stamped_of_own (fun _ hne => Db.own_apply_of_ne hne) fun _ =>
      changedAt_apply (AList.mem_of_lookup_eq_some hr) (htimes caller ino a rfl)
  | write fh offset data kill =>
    obtain ⟨row, hrow, -, rfl⟩ := h
    obtain ⟨r, hr, -⟩ := Option.map_eq_some_iff.1 hrow
    exact stamped_of_own (fun _ hne => Db.own_writeEffect_of_ne hne) fun _ =>
      changedAt_writeEffect (AList.mem_of_lookup_eq_some hr)
  | mkdir parent name mode =>
    obtain ⟨n, -, hfree, -, rfl⟩ := h
    exact stamped_addChild hfree
  | create parent name mode =>
    obtain ⟨n, -, hfree, -, rfl⟩ := h
    exact stamped_addChild hfree
  | symlink parent linkName target =>
    obtain ⟨t, -, n, -, hfree, -, rfl⟩ := h
    exact stamped_addChild hfree
  | link ino newparent newname =>
    obtain ⟨n, -, -, hfree, rfl⟩ := h
    exact stamped_link hfree
  | unlink parent name =>
    obtain ⟨n, ino, -, hino, rfl⟩ := h
    exact stamped_dropName hino
  | rmdir parent name =>
    obtain ⟨n, ino, -, hino, -, -, rfl⟩ := h
    exact stamped_dropName hino
  | rename parent name newparent newname flags => exact RenameEffect.stamped h
  | setxattr ino name value flags =>
    obtain ⟨n, x, -, -, -, -, -, hx, -, -, rfl⟩ := h
    exact stamped_of_own (fun _ hne => Db.own_setxattr_of_ne hx hne)
      (changedAt_updateInode fun _ => rfl)
  | removexattr ino name =>
    obtain ⟨n, x, -, hx, -, rfl⟩ := h
    exact stamped_of_own (fun _ hne => Db.own_removexattr_of_ne hx hne)
      (changedAt_updateInode fun _ => rfl)
  | _ =>
    obtain rfl : db' = db := h
    exact fun i _ => Or.inl rfl

/-- A `setattr` with times only misses a change exactly if one of the times is new. -/
theorem ctimeRight_utimens_iff {r : Inode} {atime mtime : Option TimeOrNow}
    (hr : db.inodes.lookup i = some r) :
    CtimeRight now db (db.utimens now i (db.mapRow i r) atime mtime) ↔
      ¬ (r.ctime ≠ now ∧ ((timeOrNowToSecs now atime).getD r.atime ≠ r.atime ∨
        (timeOrNowToSecs now mtime).getD r.mtime ≠ r.mtime)) := by
  have hrow : (db.utimens now i (db.mapRow i r) atime mtime).inodes.lookup i =
      some { r with
        atime := (timeOrNowToSecs now atime).getD r.atime
        mtime := (timeOrNowToSecs now mtime).getD r.mtime } := by
    unfold Db.utimens
    split_ifs with hsome
    · show (db.inodes.updateKey i _).lookup i = _
      rw [AList.lookup_updateKey_self, hr]
      rfl
    · simp only [not_or, Option.not_isSome_iff_eq_none] at hsome
      rw [hr, hsome.1, hsome.2]
      rfl
  have hrest : ∀ j, j ≠ i → (db.utimens now i (db.mapRow i r) atime mtime).own j = db.own j := by
    intro j hj
    unfold Db.utimens
    split_ifs
    · exact Db.own_updateInode_of_ne hj
    · rfl
  have hsame : (db.utimens now i (db.mapRow i r) atime mtime).data = db.data ∧
      (db.utimens now i (db.mapRow i r) atime mtime).xattrs = db.xattrs ∧
      (db.utimens now i (db.mapRow i r) atime mtime).dentries = db.dentries := by
    unfold Db.utimens
    split_ifs <;> exact ⟨rfl, rfl, rfl⟩
  constructor
  · intro h hmissed
    obtain ⟨hctime, htime⟩ := hmissed
    have hchanged : Changed i db (db.utimens now i (db.mapRow i r) atime mtime) := by
      refine ⟨r, _, hr, hrow, ?_⟩
      rcases htime with hatime | hmtime
      · exact Or.inr (Or.inr (Or.inr (Or.inr (Or.inl hatime))))
      · exact Or.inr (Or.inr (Or.inr (Or.inr (Or.inr (Or.inl hmtime)))))
    obtain ⟨r', hr', hnow⟩ := h i hchanged
    rw [hrow] at hr'
    cases hr'
    exact hctime hnow
  · intro h j hchanged
    by_cases hj : j = i
    · subst hj
      by_cases hctime : r.ctime = now
      · exact ⟨_, hrow, hctime⟩
      · -- neither time is new, so nothing has changed
        have htime : ¬ ((timeOrNowToSecs now atime).getD r.atime ≠ r.atime ∨
            (timeOrNowToSecs now mtime).getD r.mtime ≠ r.mtime) := fun htime => h ⟨hctime, htime⟩
        rw [not_or, not_not, not_not] at htime
        refine (not_changed_of_own (Own.ext ?_ ?_ ?_ ?_) hchanged).elim
        · refine hrow.trans (Eq.trans ?_ hr.symm)
          rw [htime.1, htime.2]
        · funext b
          exact congrArg (fun d => d.lookup (j, b)) hsame.1
        · exact congrFun (Db.attr_congr hsame.2.1) j
        · exact congrArg (fun d => d.count fun _ k => decide (k = j)) hsame.2.2
    · exact (not_changed_of_own (hrest j hj) hchanged).elim

/-- **The change time misses no change but one kind**: when a request is answered, every inode whose
mode, owner, size, times, blocks, attributes or number of names it changed has its time as change
time, unless the request set times and nothing else. -/
theorem ctime_right_iff {env : Env} {req : Request} {a : Answer}
    (hok : (step env req db).1 = .ok a) :
    CtimeRight env.now db (step env req db).2 ↔ ¬ TimesOnly env.now db req := by
  have heffect : Effect env.mount env.now req db (step env req db).2 := by
    rcases step_effect env req db with ⟨⟨e, he⟩, -⟩ | heffect
    · rw [hok] at he
      cases he
    · exact heffect
  by_cases hreq : ∃ caller ino attrs, req = .setattr caller ino attrs ∧ attrs.mode = none ∧
      attrs.uid = none ∧ attrs.gid = none ∧ attrs.size = none
  · obtain ⟨caller, ino, attrs, rfl, hmode, huid, hgid, hsize⟩ := hreq
    obtain ⟨row, hrow, -, hdb'⟩ := heffect
    obtain ⟨r, hr, rfl⟩ := Option.map_eq_some_iff.1 hrow
    rw [hdb', apply_times hmode huid hgid hsize, ctimeRight_utimens_iff hr]
    simp [TimesOnly, hmode, huid, hgid, hsize, hr]
  · have hstamped : Stamped env.now db (step env req db).2 := by
      refine heffect.stamped fun caller ino attrs heq honly => hreq ?_
      exact ⟨caller, ino, attrs, heq, honly.1, honly.2.1, honly.2.2.1, honly.2.2.2⟩
    refine iff_of_true hstamped.ctimeRight fun htimes => hreq ?_
    cases req with
    | setattr caller ino attrs =>
      obtain ⟨hmode, huid, hgid, hsize, -⟩ := htimes
      exact ⟨caller, ino, attrs, rfl, hmode, huid, hgid, hsize⟩
    | _ => exact htimes.elim

/-- The change time of a directory shows that another was made in it. -/
theorem ctime_right_iff_mkdir : CtimeRight 1 (.created 0 0 0)
    (step (.quiet .plain 1) (.mkdir rootIno nameA 0o755) (.created 0 0 0)).2 := by
  have hok : (step (.quiet .plain 1) (.mkdir rootIno nameA 0o755) (.created 0 0 0)).1 =
      .ok (.entry ttl
        { ino := 2, size := 0, blocks := 0, atime := ⟨1, 0⟩, mtime := ⟨1, 0⟩, ctime := ⟨1, 0⟩
          crtime := ⟨1, 0⟩, kind := .directory, perm := 0o755, nlink := 2, uid := 0, gid := 0
          rdev := 0, blksize := 4096, flags := 0 } 0) := by
    decide +kernel
  exact (ctime_right_iff hok).2 id

/-- **A file whose times are set looks unchanged**: its modification time is new, its change time
is not. -/
theorem utimens_keeps_ctime : ¬ ∀ env req db a, Reachable db → KernelOk db req →
    (step env req db).1 = .ok a → CtimeRight env.now db (step env req db).2 := by
  intro h
  let touch : Request := .setattr 0 2 { mtime := some .now }
  have hok : (step (.quiet .plain 1) touch .oneFile).1 =
      .ok (.attr ttl
        { ino := 2, size := 0, blocks := 0, atime := ⟨0, 0⟩, mtime := ⟨1, 0⟩, ctime := ⟨0, 0⟩
          crtime := ⟨0, 0⟩, kind := .regularFile, perm := 0o644, nlink := 1, uid := 0, gid := 0
          rdev := 0, blksize := 4096, flags := 0 }) := by
    decide +kernel
  have hright := h (.quiet .plain 1) touch .oneFile _ reachable_oneFile trivial hok
  have hrow : Db.oneFile.inodes.lookup 2 = some (Db.newInode 0 .file 0o100644 0 0 none) := by
    decide +kernel
  have hrow' : (step (.quiet .plain 1) touch .oneFile).2.inodes.lookup 2 =
      some { Db.newInode 0 .file 0o100644 0 0 none with mtime := 1 } := by
    decide +kernel
  have hchanged : Changed 2 .oneFile (step (.quiet .plain 1) touch .oneFile).2 :=
    ⟨_, _, hrow, hrow',
      Or.inr (Or.inr (Or.inr (Or.inr (Or.inr (Or.inl (by decide +kernel))))))⟩
  obtain ⟨r, hr, hnow⟩ := hright 2 hchanged
  rw [hrow'] at hr
  cases hr
  revert hnow
  decide +kernel

end CofferFS
