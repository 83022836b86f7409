import CofferFS.Own
import CofferFS.Quiet
import CofferFS.Reply
import CofferFS.Tree

/-!
# rename

What `renameat2` is to do with the tables: refuse what it does not support and what would destroy
a target, leave two names of one inode alone, and otherwise move exactly one name. `rename` does all
of it but one thing, `rename_right_iff`: two different names of one inode are an error.
-/

namespace CofferFS

open Script

variable {db db' : Db} {m : Mount} {now : F64} {i ino existing parent newparent : Ino}
  {n n' : String} {name newname : OsStr} {flags : RenameFlags}

/-! ## Without failures -/

theorem runs_deleteInode {x : Table (Ino × String) (List UInt8)} (hx : db.xattrs = some x) :
    (deleteInode ino).Runs db (.ok ()) (db.dropInode ino) := by
  let swept : Db :=
    { db.deleteData ino with xattrs := some (x.filter fun k _ => k.1 ≠ ino) }
  have hsweep : Db.deleteXattrs ino (db.deleteData ino) = .ok ((), swept) := by
    have hx' : (db.deleteData ino).xattrs = some x := hx
    rw [Db.deleteXattrs, Db.onXattrs, hx']
  have hdrop : db.dropInode ino = { swept with inodes := db.inodes.erase ino } := by
    rw [Db.dropInode, hx]
    rfl
  have hrow : Db.deleteInodeRow ino swept = .ok ((), db.dropInode ino) := by
    rw [hdrop, Db.deleteInodeRow]
    split_ifs
    · -- the trigger finds nothing left to delete
      show Except.ok _ = Except.ok _
      simp only [swept, AList.filter_filter_self]
      rfl
    · rfl
  exact Runs.bind (runs_update _) (Runs.bind (runs_exec_ok hsweep) (runs_exec_ok hrow))

theorem runs_unlinkDentry {x : Table (Ino × String) (List UInt8)} (hx : db.xattrs = some x) :
    (unlinkDentry parent n ino now).Runs db (.ok ()) (db.dropName now parent n ino) := by
  refine Runs.bind (runs_update _) (Runs.bind (runs_query_ok rfl) ?_)
  have hgo : (if (db.deleteDentry parent n).nameCount ino = 0 then deleteInode ino
      else update (Db.setCtime now ino) : Sql Unit).Runs (db.deleteDentry parent n) (.ok ())
      (if (db.deleteDentry parent n).nameCount ino = 0 then
        (db.deleteDentry parent n).dropInode ino
      else (db.deleteDentry parent n).setCtime now ino) := by
    split_ifs
    · exact @runs_deleteInode (db.deleteDentry parent n) _ _ hx
    · exact runs_update _
  exact Runs.bind hgo (runs_update _)

theorem runs_ensureRemovable (h : db.Removable ino) :
    (ensureRemovable ino).Runs db (.ok ()) db := by
  obtain ⟨r, hr, hempty⟩ := h
  have hkind : db.kindOf ino = .ok r.kind := by rw [Db.kindOf, hr]
  refine Runs.bind (Runs.mapError_ok (runs_query_ok hkind)) ?_
  by_cases hdir : r.kind = .dir
  · rw [if_pos hdir]
    exact Runs.bind (Runs.mapError_ok (runs_query_ok rfl)) (runs_refuseIf_false (hempty hdir))
  · rw [if_neg hdir]
    exact runs_pure ()

/-- A rename that finds its source and gets past its checks. -/
theorem runs_renameTx {db₁ db₂ : Db} (hino : db.childIno parent n = some ino)
    (hexchange : flags.exchange = false) (hwhiteout : flags.whiteout = false)
    (hnoreplace : (flags.noreplace && (db.childIno newparent n').isSome) = false)
    (hreplace : (replaceTarget now newparent n' ino (db.childIno newparent n')).Runs db (.ok ()) db₁)
    (hdentry : Db.renameDentry (parent, n) (newparent, n') db₁ = .ok ((), db₂)) :
    (renameTx now parent n newparent n' flags).Runs db (.ok ())
      ((db₂.touch now parent).touch now newparent) := by
  refine Runs.bind (Runs.mapError_ok runs_childIno) (Runs.bind (runs_orRefuse_some hino) ?_)
  refine Runs.bind (Runs.mapError_ok runs_childIno) ?_
  refine Runs.bind (runs_refuseIf_false (by rw [hexchange, hwhiteout]; rfl)) ?_
  refine Runs.bind (runs_refuseIf_false hnoreplace) (Runs.bind hreplace ?_)
  exact Runs.bind (Runs.mapError_ok (runs_exec_ok hdentry)) (Runs.mapError_ok (runs_update _))

theorem step_rename (hro : m.readOnly = false) (hn : name.toStr = some n)
    (hn' : newname.toStr = some n')
    (h : (renameTx now parent n newparent n' flags).Runs db (.ok ()) db') :
    step (.quiet m now) (.rename parent name newparent newname flags) db = (.ok .ok, db') :=
  step_quiet (Runs.bind (runs_refuseIf_false hro) (Runs.bind (runs_orRefuse_some hn)
    (Runs.bind (runs_orRefuse_some hn') (Runs.bind h.transaction (runs_pure _)))))

/-! ## What an accepted rename does -/

section Accepted

variable (hro : m.readOnly = false) (hn : name.toStr = some n) (hn' : newname.toStr = some n')
  (hino : db.dentries.lookup (parent, n) = some ino) (hexchange : flags.exchange = false)
  (hwhiteout : flags.whiteout = false)

include hro hn hn' hino hexchange hwhiteout

/-- A name that is renamed to itself stays. -/
theorem step_rename_same (hnoreplace : flags.noreplace = false)
    (hkey : (parent, n) = (newparent, n')) :
    step (.quiet m now) (.rename parent name newparent newname flags) db =
      (.ok .ok, (db.touch now parent).touch now newparent) := by
  have htarget : db.childIno newparent n' = some ino := by
    rw [← hino, hkey]
    rfl
  have hreplace : (replaceTarget now newparent n' ino (db.childIno newparent n')).Runs db (.ok ())
      db := by
    rw [htarget, replaceTarget, if_neg (by simp)]
    exact runs_pure ()
  have hdentry : Db.renameDentry (parent, n) (newparent, n') db = .ok ((), db) := by
    rw [Db.renameDentry, (AList.rekey_eq_some_iff hino).2 (Or.inl ⟨hkey, rfl⟩)]
  exact step_rename hro hn hn' (runs_renameTx hino hexchange hwhiteout (by rw [hnoreplace]; rfl)
    hreplace hdentry)

/-- A name that is free is taken. -/
theorem step_rename_free (hfree : db.dentries.lookup (newparent, n') = none) :
    step (.quiet m now) (.rename parent name newparent newname flags) db =
      (.ok .ok, db.moveName now (parent, n) (newparent, n') ino) := by
  have htarget : db.childIno newparent n' = none := hfree
  have hkey : (parent, n) ≠ (newparent, n') := by
    intro hkey
    rw [← hkey, hino] at hfree
    cases hfree
  have hreplace : (replaceTarget now newparent n' ino (db.childIno newparent n')).Runs db (.ok ())
      db := by
    rw [htarget]
    exact runs_pure ()
  have hdentry : Db.renameDentry (parent, n) (newparent, n') db = .ok ((),
      { db with dentries := (db.dentries.erase (parent, n)).insert (newparent, n') ino }) := by
    rw [Db.renameDentry, (AList.rekey_eq_some_iff hino).2 (Or.inr ⟨hkey, hfree, rfl⟩)]
  exact step_rename hro hn hn' (runs_renameTx hino hexchange hwhiteout (by rw [htarget]; simp)
    hreplace hdentry)

/-- A name of another inode is taken from it. -/
theorem step_rename_replaced {x : Table (Ino × String) (List UInt8)} (hx : db.xattrs = some x)
    (hnoreplace : flags.noreplace = false)
    (hexisting : db.dentries.lookup (newparent, n') = some existing) (hne : existing ≠ ino)
    (hremovable : db.Removable existing) :
    step (.quiet m now) (.rename parent name newparent newname flags) db =
      (.ok .ok,
        (db.dropName now newparent n' existing).moveName now (parent, n) (newparent, n') ino) := by
  have htarget : db.childIno newparent n' = some existing := hexisting
  have hkey : (parent, n) ≠ (newparent, n') := Db.name_ne hino hexisting hne
  have hold : (db.dropName now newparent n' existing).dentries.lookup (parent, n) = some ino :=
    Db.dropName_lookup_other hino hexisting hne
  have hfree : (db.dropName now newparent n' existing).dentries.lookup (newparent, n') = none :=
    Db.dropName_lookup_self ..
  have hreplace : (replaceTarget now newparent n' ino (db.childIno newparent n')).Runs db (.ok ())
      (db.dropName now newparent n' existing) := by
    rw [htarget, replaceTarget, if_pos hne]
    exact Runs.bind (runs_ensureRemovable hremovable) (Runs.mapError_ok (runs_unlinkDentry hx))
  have hdentry : Db.renameDentry (parent, n) (newparent, n')
      (db.dropName now newparent n' existing) = .ok ((),
        { db.dropName now newparent n' existing with
          dentries := ((db.dropName now newparent n' existing).dentries.erase (parent, n)).insert
            (newparent, n') ino }) := by
    rw [Db.renameDentry, (AList.rekey_eq_some_iff hold).2 (Or.inr ⟨hkey, hfree, rfl⟩)]
  exact step_rename hro hn hn' (runs_renameTx hino hexchange hwhiteout (by rw [hnoreplace]; rfl)
    hreplace hdentry)

end Accepted

/-! ## What renameat2 asks for -/

/-- Nothing is left of an inode. -/
def Own.gone : Own := ⟨none, fun _ => none, fun _ => none, 0⟩

/-- What an inode holds, without the times of its last change and the number of its names. -/
def Own.held (o : Own) : Own := { o with row := o.row.map (Db.stamp 0), names := 0 }

/-- An inode has lost one name, and with its last one everything. -/
def Own.LosesName (o o' : Own) : Prop :=
  o'.names + 1 = o.names ∧ if o.names = 1 then o' = gone else o'.held = o.held

/-- `ino` is to be refused the name `new`. -/
def Db.RefusesRename (db : Db) (flags : RenameFlags) (ino : Ino) (new : Ino × String) : Prop :=
  flags.exchange = true ∨ flags.whiteout = true ∨
    (flags.noreplace = true ∧ db.dentries.lookup new ≠ none) ∨
    ∃ existing, db.dentries.lookup new = some existing ∧ existing ≠ ino ∧ db.IsDir existing ∧
      db.hasChildren existing = true

/-- One name has moved, and nothing else. -/
structure Moved (old new : Ino × String) (ino : Ino) (db db' : Db) : Prop where
  dentries : ∀ k, db'.dentries.lookup k =
    if k = new then some ino else if k = old then none else db.dentries.lookup k
  source : db'.own ino = db.own ino
  replaced : ∀ existing, db.dentries.lookup new = some existing →
    (db.own existing).LosesName (db'.own existing)
  other : ∀ i, db.dentries.lookup new ≠ some i → (db'.own i).held = (db.own i).held

/-- What `renameat2` is to do with the name `old` of `ino`. -/
structure RenameRight (flags : RenameFlags) (ino : Ino) (old new : Ino × String) (db : Db)
    (res : Reply × Db) : Prop where
  refused : db.RefusesRename flags ino new → (∃ e, res.1 = .error (.error e)) ∧ res.2 = db
  same : ¬ db.RefusesRename flags ino new → db.dentries.lookup new = some ino →
    res.1 = .ok .ok ∧ res.2.dentries = db.dentries
  moved : ¬ db.RefusesRename flags ino new → db.dentries.lookup new ≠ some ino →
    res.1 = .ok .ok ∧ Moved old new ino db res.2

/-! ## What is left of the inodes -/

theorem held_updateInode {f : Inode → Inode} (hf : ∀ r, Db.stamp 0 (f r) = Db.stamp 0 r) :
    ((db.updateInode ino f).own i).held = (db.own i).held := by
  rw [Db.own_updateInode]
  split_ifs
  · rw [Own.held, Own.mapRow, Option.map_map]
    have hcomp : Db.stamp 0 ∘ f = Db.stamp 0 := funext hf
    rw [hcomp]
    rfl
  · rfl

theorem held_touch : ((db.touch now ino).own i).held = (db.own i).held :=
  held_updateInode fun _ => rfl

theorem held_setCtime : ((db.setCtime now ino).own i).held = (db.own i).held :=
  held_updateInode fun _ => rfl

theorem held_moveName {old new : Ino × String} :
    ((db.moveName now old new ino).own i).held = (db.own i).held := by
  rw [Db.moveName, held_touch, held_touch]
  rfl

theorem own_dropInode_self (h : db.nameCount ino = 0) : (db.dropInode ino).own ino = Own.gone := by
  refine Own.ext (AList.lookup_erase _ _) (funext fun b => ?_) (funext fun n => ?_) h
  · show (db.data.filter _).lookup (ino, b) = none
    rw [AList.lookup_filter]
    cases db.data.lookup (ino, b) <;> simp
  · show (db.xattrs.map _).bind _ = none
    cases db.xattrs with
    | none => rfl
    | some x =>
      show (x.filter _).lookup (ino, n) = none
      rw [AList.lookup_filter]
      cases x.lookup (ino, n) <;> simp

/-- What a name that goes leaves of its inode. -/
theorem own_dropName_self (hname : db.dentries.lookup (parent, n) = some ino)
    (hparent : ino ≠ parent) :
    (db.own ino).LosesName ((db.dropName now parent n ino).own ino) := by
  have hcount : db.nameCount ino = 1 + (db.deleteDentry parent n).nameCount ino := by
    have hown := congrArg Own.names (@Db.own_eraseDentry db ino ino _ hname)
    rwa [if_pos rfl] at hown
  have htouch (db : Db) : (db.touch now parent).own ino = db.own ino :=
    Db.own_updateInode_of_ne hparent
  have hcount' : (db.dropName now parent n ino).nameCount ino =
      (db.deleteDentry parent n).nameCount ino := Db.nameCount_dropName
  have hnames : (db.own ino).names = 1 + (db.deleteDentry parent n).nameCount ino := hcount
  refine ⟨?_, ?_⟩
  · show (db.dropName now parent n ino).nameCount ino + 1 = db.nameCount ino
    rw [hcount', hcount, Nat.add_comm]
  · by_cases hlast : (db.deleteDentry parent n).nameCount ino = 0
    · rw [if_pos (by omega), Db.dropName, if_pos hlast, htouch]
      exact own_dropInode_self hlast
    · rw [if_neg (by omega), Db.dropName, if_neg hlast, htouch, held_setCtime]
      rfl

/-! ## Refusals -/

theorem panicless_ensureRemovable : Panicless (ensureRemovable ino) := by
  refine panicless_bind (panicless_orErrno _ _) fun kind => ?_
  split_ifs
  · exact panicless_bind (panicless_orErrno _ _) fun _ => panicless_refuseIf _ _
  · exact panicless_pure ()

theorem panicless_replaceTarget {target : Option Ino} :
    Panicless (replaceTarget now newparent n' ino target) := by
  cases target with
  | none => exact panicless_pure ()
  | some existing =>
    rw [replaceTarget]
    split_ifs
    · exact panicless_bind panicless_ensureRemovable fun _ => panicless_orErrno _ _
    · exact panicless_pure ()

theorem panicless_rename :
    Panicless (CofferFS.rename m now parent name newparent newname flags) := by
  refine panicless_bind (panicless_refuseIf _ _) fun _ => ?_
  refine panicless_bind (panicless_orRefuse _ _) fun n => ?_
  refine panicless_bind (panicless_orRefuse _ _) fun n' => ?_
  refine panicless_bind (panicless_inTransaction ?_) fun _ => panicless_pure _
  refine panicless_bind (panicless_orErrno _ _) fun _ => ?_
  refine panicless_bind (panicless_orRefuse _ _) fun ino => ?_
  refine panicless_bind (panicless_orErrno _ _) fun target => ?_
  refine panicless_bind (panicless_refuseIf _ _) fun _ => ?_
  refine panicless_bind (panicless_refuseIf _ _) fun _ => ?_
  refine panicless_bind panicless_replaceTarget fun _ => ?_
  exact panicless_bind (panicless_orErrno _ _) fun _ => panicless_orErrno _ _

/-- A rename that has no effect is answered with an error, whatever fails. -/
theorem step_rename_refused (env : Env)
    (h : ∀ db', ¬ RenameEffect env.now parent name newparent newname flags db db') :
    (∃ e, (step env (.rename parent name newparent newname flags) db).1 = .error (.error e)) ∧
      (step env (.rename parent name newparent newname flags) db).2 = db := by
  rcases step_effect env (.rename parent name newparent newname flags) db with hundone | heffect
  · obtain ⟨⟨e, he⟩, hsame⟩ := hundone
    refine ⟨?_, hsame⟩
    cases e with
    | error e => exact ⟨e, he⟩
    | panic =>
      have hy := step_yields env (.rename parent name newparent newname flags) db
      rw [he] at hy
      exact (panicless_rename _ _ hy).elim
  · exact (h _ heffect).elim

/-- What has to be refused has no effect. -/
theorem Db.RefusesRename.not_effect (h : db.RefusesRename flags ino (newparent, n'))
    (hn : name.toStr = some n) (hn' : newname.toStr = some n')
    (hino : db.dentries.lookup (parent, n) = some ino) :
    ¬ RenameEffect now parent name newparent newname flags db db' := by
  intro heffect
  rcases h with hexchange | hwhiteout | ⟨hnoreplace, htaken⟩ | ⟨existing, hexisting, hne, hdir, hfull⟩
  · cases heffect <;> simp_all
  · cases heffect <;> simp_all
  · cases heffect with
    | freeName hs hs' _ _ _ hfree =>
      obtain rfl := Option.some.inj (hs'.symm.trans hn')
      exact htaken hfree
    | sameName => simp_all
    | replaced => simp_all
  · cases heffect with
    | sameName hs hs' hsource _ _ _ hkey =>
      obtain rfl := Option.some.inj (hs.symm.trans hn)
      obtain rfl := Option.some.inj (hs'.symm.trans hn')
      rw [hkey, hexisting] at hino
      exact hne (Option.some.inj hino)
    | freeName hs hs' _ _ _ hfree =>
      obtain rfl := Option.some.inj (hs'.symm.trans hn')
      rw [Db.childIno, hexisting] at hfree
      cases hfree
    | replaced hs hs' _ _ _ _ htarget _ hremovable =>
      obtain rfl := Option.some.inj (hs'.symm.trans hn')
      obtain rfl := Option.some.inj (htarget.symm.trans hexisting)
      rw [hremovable.empty hdir] at hfull
      cases hfull

/-- Two names of one inode are not renamed to each other. -/
theorem not_effect_of_two_names (hn : name.toStr = some n) (hn' : newname.toStr = some n')
    (hino : db.dentries.lookup (parent, n) = some ino)
    (hino' : db.dentries.lookup (newparent, n') = some ino)
    (hkey : (parent, n) ≠ (newparent, n')) :
    ¬ RenameEffect now parent name newparent newname flags db db' := by
  intro heffect
  cases heffect with
  | sameName hs hs' _ _ _ _ hsame =>
    obtain rfl := Option.some.inj (hs.symm.trans hn)
    obtain rfl := Option.some.inj (hs'.symm.trans hn')
    exact hkey hsame
  | freeName hs hs' _ _ _ hfree =>
    obtain rfl := Option.some.inj (hs'.symm.trans hn')
    rw [Db.childIno, hino'] at hfree
    cases hfree
  | replaced hs hs' hsource _ _ _ htarget hne =>
    obtain rfl := Option.some.inj (hs.symm.trans hn)
    obtain rfl := Option.some.inj (hs'.symm.trans hn')
    exact hne (Option.some.inj (htarget.symm.trans (hino'.trans (hino.symm.trans hsource))))

/-! ## The name that moves -/

theorem moveName_dentries {old new : Ino × String} (k : Ino × String) :
    (db.moveName now old new ino).dentries.lookup k =
      if k = new then some ino else if k = old then none else db.dentries.lookup k := by
  show ((db.dentries.erase old).insert new ino).lookup k = _
  rw [AList.lookup_insert_eq, AList.lookup_erase_eq]

/-- The names of an inode keep their number when one of them moves. -/
theorem own_moveName {old new : Ino × String} (hold : db.dentries.lookup old = some ino)
    (hfree : db.dentries.lookup new = none) (hi : i ≠ old.1) (hi' : i ≠ new.1) :
    (db.moveName now old new ino).own i = db.own i := by
  have htouch (db : Db) (p : Ino) (hp : i ≠ p) : (db.touch now p).own i = db.own i :=
    Db.own_updateInode_of_ne hp
  rw [Db.moveName, htouch _ _ hi', htouch _ _ hi, Db.own_rekey hold hfree]

theorem moved_free {old new : Ino × String} (hold : db.dentries.lookup old = some ino)
    (hfree : db.dentries.lookup new = none) (hne : ino ≠ old.1) (hne' : ino ≠ new.1) :
    Moved old new ino db (db.moveName now old new ino) where
  dentries := moveName_dentries
  source := own_moveName hold hfree hne hne'
  replaced existing h := by
    rw [hfree] at h
    cases h
  other i _ := held_moveName

theorem moved_replaced (hold : db.dentries.lookup (parent, n) = some ino)
    (hnew : db.dentries.lookup (newparent, n') = some existing) (hother : existing ≠ ino)
    (hne : ino ≠ parent) (hne' : ino ≠ newparent) (hex : existing ≠ parent)
    (hex' : existing ≠ newparent) :
    Moved (parent, n) (newparent, n') ino db
      ((db.dropName now newparent n' existing).moveName now (parent, n) (newparent, n') ino) := by
  have hold' : (db.dropName now newparent n' existing).dentries.lookup (parent, n) = some ino :=
    Db.dropName_lookup_other hold hnew hother
  have hfree : (db.dropName now newparent n' existing).dentries.lookup (newparent, n') = none :=
    Db.dropName_lookup_self ..
  constructor
  case dentries =>
    intro k
    rw [moveName_dentries, Db.dropName_dentries, AList.lookup_erase_eq]
    split_ifs <;> rfl
  case source =>
    rw [own_moveName hold' hfree hne hne', Db.own_dropName_of_ne hnew (Ne.symm hother),
      if_neg hne']
  case replaced =>
    intro j hj
    obtain rfl := Option.some.inj (hnew.symm.trans hj)
    rw [own_moveName hold' hfree hex hex']
    exact own_dropName_self hnew hex'
  case other =>
    intro i hi
    have hi' : i ≠ existing := by
      rintro rfl
      exact hi hnew
    rw [held_moveName, Db.own_dropName_of_ne hnew hi']
    split_ifs
    · rw [Own.held, Own.mapRow, Option.map_map]
      rfl
    · rfl

/-! ## The result -/

/-- In a tree nothing that is renamed is one of the two directories. -/
theorem ne_parents_of_rename (htree : db.TreeInv)
    (hok : KernelOk db (.rename parent name newparent newname flags)) (hn : name.toStr = some n)
    (hino : db.dentries.lookup (parent, n) = some ino) : ino ≠ parent ∧ ino ≠ newparent := by
  obtain ⟨-, hnewparent, -, hbelow⟩ := hok
  constructor
  · intro heq
    exact htree.acyclic ino (.single ⟨n, heq ▸ hino⟩)
  · intro heq
    exact hbelow ino ⟨n, hn, hino⟩ (heq ▸ hnewparent) (heq ▸ .refl)

/-- What is replaced is not one of the two directories either: they are not empty. -/
theorem ne_parents_of_removable (htree : db.TreeInv) (hremovable : db.Removable existing)
    (hino : db.dentries.lookup (parent, n) = some ino)
    (hnew : db.dentries.lookup (newparent, n') = some existing) :
    existing ≠ parent ∧ existing ≠ newparent := by
  constructor
  · rintro rfl
    have hempty := hremovable.empty (htree.parent _ _ hino)
    have hnone := Db.hasChildren_eq_false_iff.1 hempty n
    rw [show db.tree.entry (existing, n) = some ino from hino] at hnone
    cases hnone
  · intro heq
    exact htree.acyclic existing (.single ⟨n', heq ▸ hnew⟩)

/-- What need not be refused may be removed. -/
theorem removable_of_not_refused (htree : db.TreeInv)
    (h : ¬ db.RefusesRename flags ino (newparent, n'))
    (hnew : db.dentries.lookup (newparent, n') = some existing) (hne : existing ≠ ino) :
    db.Removable existing := by
  obtain ⟨r, hr⟩ := AList.exists_lookup_of_mem (htree.child _ _ hnew)
  refine ⟨r, hr, fun hdir => ?_⟩
  by_contra hfull
  exact h (.inr (.inr (.inr ⟨existing, hnew, hne, ⟨r, hr, hdir⟩, by simpa using hfull⟩)))

/-- **`rename` does what `renameat2` asks for, unless the two names are different names of one
inode** and no flag forbids the rename. The row that is to move then hits the key of the other
name. -/
theorem rename_right_iff {x : Table (Ino × String) (List UInt8)} (htree : db.TreeInv)
    (hx : db.xattrs = some x) (hro : m.readOnly = false) (hn : name.toStr = some n)
    (hn' : newname.toStr = some n')
    (hok : KernelOk db (.rename parent name newparent newname flags))
    (hino : db.dentries.lookup (parent, n) = some ino) :
    RenameRight flags ino (parent, n) (newparent, n') db
        (step (.quiet m now) (.rename parent name newparent newname flags) db) ↔
      flags.exchange = true ∨ flags.whiteout = true ∨ flags.noreplace = true ∨
        db.dentries.lookup (newparent, n') ≠ some ino ∨ (parent, n) = (newparent, n') := by
  constructor
  · intro h
    by_contra hcond
    push Not at hcond
    obtain ⟨hexchange, hwhiteout, hnoreplace, hino', hkey⟩ := hcond
    have hallowed : ¬ db.RefusesRename flags ino (newparent, n') := by
      rintro (hflag | hflag | ⟨hflag, -⟩ | ⟨existing, hexisting, hne, -⟩)
      · exact hexchange hflag
      · exact hwhiteout hflag
      · exact hnoreplace hflag
      · exact hne (Option.some.inj (hexisting.symm.trans hino'))
    have hnone (db' : Db) : ¬ RenameEffect now parent name newparent newname flags db db' :=
      not_effect_of_two_names hn hn' hino hino' hkey
    obtain ⟨⟨e, he⟩, -⟩ := step_rename_refused (.quiet m now) hnone
    rw [(h.same hallowed hino').1] at he
    cases he
  · intro hcond
    obtain ⟨hne, hne'⟩ := ne_parents_of_rename htree hok hn hino
    constructor
    case refused =>
      exact fun href => step_rename_refused _ fun _ => href.not_effect hn hn' hino
    case same =>
      intro hallowed hino'
      have hflags : flags.exchange = false ∧ flags.whiteout = false ∧ flags.noreplace = false := by
        simp only [Db.RefusesRename, hino'] at hallowed
        simp_all
      obtain ⟨hexchange, hwhiteout, hnoreplace⟩ := hflags
      have hkey : (parent, n) = (newparent, n') := by simp_all
      rw [step_rename_same hro hn hn' hino hexchange hwhiteout hnoreplace hkey]
      exact ⟨rfl, rfl⟩
    case moved =>
      intro hallowed hother
      have hflags : flags.exchange = false ∧ flags.whiteout = false := by
        simp only [Db.RefusesRename, not_or] at hallowed
        simp_all
      obtain ⟨hexchange, hwhiteout⟩ := hflags
      cases hnew : db.dentries.lookup (newparent, n') with
      | none =>
        rw [step_rename_free hro hn hn' hino hexchange hwhiteout hnew]
        exact ⟨rfl, moved_free hino hnew hne hne'⟩
      | some existing =>
        have hexisting : existing ≠ ino := by
          rintro rfl
          exact hother hnew
        have hnoreplace : flags.noreplace = false := by
          by_contra hflag
          exact hallowed (.inr (.inr (.inl ⟨by simpa using hflag, by simp [hnew]⟩)))
        have hremovable := removable_of_not_refused htree hallowed hnew hexisting
        obtain ⟨hex, hex'⟩ := ne_parents_of_removable htree hremovable hino hnew
        rw [step_rename_replaced hro hn hn' hino hexchange hwhiteout hx hnoreplace hnew hexisting
          hremovable]
        exact ⟨rfl, moved_replaced hino hnew hexisting hne hne' hex hex'⟩

/-- A container with one file that has two names. -/
def Db.twoNames : Db := (step (.quiet .plain 0) (.link 2 rootIno nameB) .oneFile).2

/-- Where the root is the only directory, the kernel may rename its names. -/
theorem kernelOk_rename_of_files (htree : db.TreeInv) (h : ∀ i, db.IsDir i → i = rootIno) :
    KernelOk db (.rename rootIno name rootIno newname flags) := by
  have hfile (name : OsStr) (i : Ino) (hi : db.Names rootIno name i) : ¬ db.IsDir i := by
    obtain ⟨n, -, hn⟩ := hi
    intro hdir
    exact htree.root_unnamed (rootIno, n) (h i hdir ▸ hn)
  refine ⟨htree.root, htree.root, ?_, ?_⟩
  · exact fun i j hi hj => iff_of_false (hfile name i hi) (hfile newname j hj)
  · exact fun i hi hdir => (hfile name i hi hdir).elim

theorem isDir_oneFile (h : Db.oneFile.IsDir i) : i = rootIno := by
  obtain ⟨r, hr, hdir⟩ := h
  have hmem : i ∈ Db.oneFile.inodes.keys := AList.mem_of_lookup_eq_some hr
  rw [show Db.oneFile.inodes.keys = [2, rootIno] by decide +kernel] at hmem
  rcases List.mem_pair.1 hmem with rfl | rfl
  · rw [show Db.oneFile.inodes.lookup 2 = some (Db.newInode 0 .file 0o100644 0 0 none) by
      decide +kernel] at hr
    cases hr
    cases hdir
  · rfl

theorem isDir_twoNames (h : Db.twoNames.IsDir i) : i = rootIno := by
  rcases step_cases (.quiet .plain 0) (.link 2 rootIno nameB) .oneFile with hsame | heffect
  · exact isDir_oneFile (hsame ▸ h)
  · obtain ⟨n, -, -, -, hlinked⟩ := heffect
    have hcore : Db.twoNames.core = Db.oneFile.core := by
      rw [Db.twoNames, hlinked, Db.core_setCtime, Db.core_addName]
    have hnode : (Db.twoNames.core i).map (fun c => decide (c.1 = .dir)) = some true :=
      Db.node_eq_true_iff.2 h
    rw [hcore] at hnode
    exact isDir_oneFile (Db.node_eq_true_iff.1 hnode)

/-- A file is renamed to a free name. -/
theorem rename_right_iff_oneFile : RenameRight {} 2 (rootIno, "a") (rootIno, "b") .oneFile
    (step (.quiet .plain 1) (.rename rootIno nameA rootIno nameB {}) .oneFile) := by
  obtain ⟨x, hx⟩ := reachable_oneFile.exists_xattrs
  have hfree : Db.oneFile.dentries.lookup (rootIno, "b") ≠ some 2 := by decide +kernel
  have hok : KernelOk .oneFile (.rename rootIno nameA rootIno nameB {}) :=
    kernelOk_rename_of_files reachable_oneFile.treeInv fun _ => isDir_oneFile
  exact (rename_right_iff reachable_oneFile.treeInv hx rfl (by decide +kernel) (by decide +kernel)
    hok (by decide +kernel)).2 (.inr (.inr (.inr (.inl hfree))))

theorem reachable_twoNames : Reachable .twoNames :=
  reachable_oneFile.step _ reachable_oneFile.treeInv.root

/-- **A file with two names cannot be renamed from one to the other**: `EIO`. -/
theorem two_names_not_renamed : ¬ ∀ m now parent name newparent newname flags n n' ino db,
    Reachable db → m.readOnly = false → name.toStr = some n → newname.toStr = some n' →
    KernelOk db (.rename parent name newparent newname flags) →
    db.dentries.lookup (parent, n) = some ino →
    RenameRight flags ino (parent, n) (newparent, n') db
      (step (.quiet m now) (.rename parent name newparent newname flags) db) := by
  intro h
  have hok : KernelOk .twoNames (.rename rootIno nameA rootIno nameB {}) :=
    kernelOk_rename_of_files reachable_twoNames.treeInv fun _ => isDir_twoNames
  have hright := h .plain 1 rootIno nameA rootIno nameB {} "a" "b" 2 .twoNames reachable_twoNames rfl
    (by decide +kernel) (by decide +kernel) hok (by decide +kernel)
  have hboth : Db.twoNames.dentries.lookup (rootIno, "b") = some 2 := by decide +kernel
  have hallowed : ¬ Db.twoNames.RefusesRename {} 2 (rootIno, "b") := by
    rintro (hflag | hflag | ⟨hflag, -⟩ | ⟨existing, hexisting, hne, -⟩)
    · cases hflag
    · cases hflag
    · cases hflag
    · exact hne (Option.some.inj (hexisting.symm.trans hboth))
  have hreply : (step (.quiet .plain 1) (.rename rootIno nameA rootIno nameB {}) .twoNames).1 =
      .error (.error .eio) := by
    decide +kernel
  have hok' := (hright.same hallowed hboth).1
  rw [hreply] at hok'
  cases hok'

end CofferFS
