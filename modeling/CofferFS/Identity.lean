import CofferFS.Lib.Numbering
import CofferFS.Numbers
import CofferFS.Walk

/-!
# What an inode is

An inode has a kind, the type bits of its mode, and a target if it is a symlink. No request changes
these, and a number that is free is not given to another inode, so a number stands for the same
thing in every state that a run can reach (`identity_kept`), and a symlink answers the target that
it was created with (`readlink_symlink`).
-/

namespace CofferFS

open Script Relation

/-- The bits of a mode that `chmod` does not change. -/
def typeBits (mode : BitVec 64) : BitVec 64 := mode &&& ~~~0o7777

/-- What no request changes about an inode. -/
def Inode.identity (r : Inode) : Kind × BitVec 64 × Option String :=
  (r.kind, typeBits r.mode, r.symlinkTarget)

/-- What a number stands for. -/
def Db.identity (db : Db) (i : Ino) : Option (Kind × BitVec 64 × Option String) :=
  (db.inodes.lookup i).map Inode.identity

/-! ## Modes -/

theorem typeBits_newMode (old : BitVec 64) (m : BitVec 32) :
    typeBits (newMode old m) = typeBits old := by
  unfold typeBits newMode
  ext i hi
  simp only [BitVec.getElem_and, BitVec.getElem_or, BitVec.getElem_not]
  cases old[i] <;> cases (BitVec.setWidth 64 m)[i] <;> cases (0o7777#64)[i] <;> rfl

/-- Clearing permission bits keeps the type. -/
theorem typeBits_and (mode bits : BitVec 64) (h : ~~~bits &&& ~~~0o7777 = ~~~0o7777) :
    typeBits (mode &&& ~~~bits) = typeBits mode := by
  rw [typeBits, BitVec.and_assoc, h, typeBits]

namespace Db

variable {db db' : Db} {i parent : Ino} {name : String} {now : F64} {row : InodeRow}

/-! ## Updates keep it -/

theorem identity_updateInode {f : Inode → Inode}
    (hf : ∀ r, db.inodes.lookup i = some r → (f r).identity = r.identity) :
    (db.updateInode i f).identity = db.identity := by
  funext j
  show ((db.inodes.updateKey i f).lookup j).map _ = (db.inodes.lookup j).map _
  rw [AList.lookup_updateKey]
  split_ifs with hj
  · subst hj
    cases hr : db.inodes.lookup j with
    | none => rfl
    | some r => simp [hf r hr]
  · rfl

theorem identity_of_inodes (h : db'.inodes = db.inodes) : db'.identity = db.identity := by
  unfold identity
  rw [h]

@[simp] theorem identity_touch : (db.touch now i).identity = db.identity :=
  identity_updateInode fun _ _ => rfl

@[simp] theorem identity_setCtime : (db.setCtime now i).identity = db.identity :=
  identity_updateInode fun _ _ => rfl

@[simp] theorem identity_setSize {size : ℤ} : (db.setSize size now i).identity = db.identity :=
  identity_updateInode fun _ _ => rfl

theorem identity_chmod {mode : Option (BitVec 32)} (hrow : db.rowByIno i = some row) :
    (db.chmod now i row mode).identity = db.identity := by
  cases mode with
  | none => rfl
  | some m =>
    refine identity_updateInode fun r hr => ?_
    rw [rowByIno, hr, Option.map_some] at hrow
    cases hrow
    exact congrArg (fun bits => (r.kind, bits, r.symlinkTarget)) (typeBits_newMode r.mode m)

theorem identity_chown {uid gid : Option UInt32} :
    (db.chown now i row uid gid).identity = db.identity := by
  unfold chown
  split_ifs
  · exact identity_updateInode fun _ _ => rfl
  · rfl

theorem identity_resize {size : Option ℕ} :
    (db.resize now i size).identity = db.identity := by
  cases size with
  | none => rfl
  | some n =>
    show (db.truncate now i n).identity = _
    rw [identity_of_inodes inodes_truncate, identity_setSize]

theorem identity_utimens {atime mtime : Option TimeOrNow} :
    (db.utimens now i row atime mtime).identity = db.identity := by
  unfold utimens
  split_ifs
  · exact identity_updateInode fun _ _ => rfl
  · rfl

theorem identity_killIf {kill : Bool} : (db.killIf kill i).identity = db.identity := by
  unfold killIf
  split_ifs
  · have hkeep (r : Inode) (bits : BitVec 64) (h : ~~~bits &&& ~~~0o7777 = ~~~0o7777) :
        Inode.identity { r with mode := r.mode &&& ~~~bits } = r.identity :=
      congrArg (fun bits => (r.kind, bits, r.symlinkTarget)) (typeBits_and r.mode bits h)
    have hsgid : ((db.clearSuid i).clearSgid i).identity = (db.clearSuid i).identity := by
      refine identity_updateInode fun r _ => ?_
      split_ifs
      · exact hkeep r _ (by decide)
      · rfl
    have hsuid : (db.clearSuid i).identity = db.identity := by
      refine identity_updateInode fun r _ => ?_
      split_ifs
      · exact hkeep r _ (by decide)
      · rfl
    exact hsgid.trans hsuid
  · rfl

theorem identity_apply {a : SetAttr} {caller : UInt32} (hrow : db.rowByIno i = some row) :
    (a.apply now caller i row db).identity = db.identity := by
  rw [SetAttr.apply, identity_killIf, identity_utimens, identity_resize, identity_chown,
    identity_chmod hrow]

theorem identity_writeEffect {offset : ℕ} {data : List UInt8} {kill : Bool} :
    (writeEffect now i offset data kill row db).identity = db.identity := by
  rw [writeEffect, identity_killIf, identity_setSize, identity_of_inodes inodes_writeBlocks]

/-! ## Inodes that come and go -/

@[simp] theorem identity_addName : (db.addName now parent name i).identity = db.identity :=
  identity_touch

@[simp] theorem identity_addChild {r : Inode} : (db.addChild now parent name r).identity =
    Function.update db.identity db.nextIno (some r.identity) := by
  rw [addChild, identity_addName]
  funext j
  show ((db.inodes.insert db.nextIno r).lookup j).map _ = _
  rw [AList.lookup_insert_eq, Function.update_apply]
  split_ifs <;> rfl

theorem identity_dropName : (db.dropName now parent name i).identity =
    if (db.deleteDentry parent name).nameCount i = 0 then Function.update db.identity i none
    else db.identity := by
  unfold dropName
  rw [identity_touch]
  split_ifs
  · funext j
    show ((db.inodes.erase i).lookup j).map _ = _
    rw [AList.lookup_erase_eq, Function.update_apply]
    split_ifs <;> rfl
  · exact identity_setCtime

@[simp] theorem identity_moveName {old new : Ino × String} :
    (db.moveName now old new i).identity = db.identity := by
  rw [moveName, identity_touch, identity_touch]
  rfl

theorem identity_ne_none_iff : db.identity i ≠ none ↔ i ∈ db.inodes := by
  rw [← Option.isSome_iff_ne_none, ← AList.lookup_isSome, identity, Option.isSome_map]

end Db

/-! ## What requests do to it -/

/-- The type bits agree with the kind, and symlinks have a target, and nothing else has. -/
def WellTyped : Kind × BitVec 64 × Option String → Prop
  | (.dir, bits, target) => bits = sIfDir ∧ target = none
  | (.file, bits, target) => bits = sIfReg ∧ target = none
  | (.symlink, bits, target) => bits = sIfLnk ∧ target.isSome

theorem typeBits_fileMode {format : BitVec 64} (h : typeBits format = format) (mode : BitVec 32) :
    typeBits (fileMode format mode) = format := by
  refine Eq.trans ?_ h
  unfold typeBits fileMode
  ext i hi
  simp only [BitVec.getElem_and, BitVec.getElem_or, BitVec.getElem_not]
  cases format[i] <;> cases (BitVec.setWidth 64 mode)[i] <;> cases (0o7777#64)[i] <;> rfl

theorem typeBits_symlink : typeBits (sIfLnk ||| 0o777) = sIfLnk := by decide

theorem typeBits_root : typeBits (sIfDir ||| 0o700) = sIfDir := by decide

variable {db db' : Db} {i : Ino} {now : F64} {m : Mount} {req : Request}

/-- What inodes are stays, or an inode appears, or one goes. -/
inductive Db.Turns (db : Db) : Db → Prop
  | keeps {db' : Db} : db'.identity = db.identity → Turns db db'
  | adds {db' : Db} {x : Kind × BitVec 64 × Option String} : WellTyped x →
      db'.identity = Function.update db.identity db.nextIno (some x) → Turns db db'
  | drops {db' : Db} {i : Ino} : db'.identity = Function.update db.identity i none → Turns db db'

theorem Db.turns_dropName {parent : Ino} {name : String} :
    db.Turns (db.dropName now parent name i) := by
  have h := @identity_dropName db i parent name now
  split_ifs at h
  · exact .drops h
  · exact .keeps h

/-- No request makes something else of an inode. -/
theorem Effect.turns (h : Effect m now req db db') : db.Turns db' := by
  cases req with
  | setattr caller ino a =>
    obtain ⟨row, hrow, -, rfl⟩ := h
    exact .keeps (Db.identity_apply hrow)
  | mkdir parent name mode =>
    obtain ⟨n, -, -, -, rfl⟩ := h
    refine .adds ?_ Db.identity_addChild
    exact ⟨typeBits_fileMode (by decide) mode, rfl⟩
  | create parent name mode =>
    obtain ⟨n, -, -, -, rfl⟩ := h
    refine .adds ?_ Db.identity_addChild
    exact ⟨typeBits_fileMode (by decide) mode, rfl⟩
  | symlink parent linkName target =>
    obtain ⟨t, -, n, -, -, -, rfl⟩ := h
    refine .adds ?_ Db.identity_addChild
    exact ⟨typeBits_symlink, rfl⟩
  | link ino newparent newname =>
    obtain ⟨n, -, -, -, rfl⟩ := h
    exact .keeps (by simp)
  | unlink parent name =>
    obtain ⟨n, ino, -, -, rfl⟩ := h
    exact Db.turns_dropName
  | rmdir parent name =>
    obtain ⟨n, ino, -, -, -, -, rfl⟩ := h
    exact Db.turns_dropName
  | rename parent name newparent newname flags =>
    cases h with
    | sameName => exact .keeps (by simp)
    | freeName => exact .keeps (by simp)
    | @replaced n n' ino existing =>
      have hdrop := @Db.turns_dropName db existing now newparent n'
      cases hdrop with
      | keeps hid => exact .keeps (Db.identity_moveName.trans hid)
      | adds hx hid => exact .adds hx (Db.identity_moveName.trans hid)
      | drops hid => exact .drops (Db.identity_moveName.trans hid)
  | write fh offset data kill =>
    obtain ⟨row, -, -, rfl⟩ := h
    exact .keeps Db.identity_writeEffect
  | setxattr ino name value flags =>
    obtain ⟨n, x, -, -, -, -, -, -, -, -, rfl⟩ := h
    exact .keeps (Db.identity_setCtime.trans (Db.identity_of_inodes rfl))
  | removexattr ino name =>
    obtain ⟨n, x, -, -, -, rfl⟩ := h
    exact .keeps (Db.identity_setCtime.trans (Db.identity_of_inodes rfl))
  | _ => exact .keeps (congrArg Db.identity h)

theorem Db.Turns.identity_eq (h : db.Turns db') (hi : i ∈ db.inodes) (hi' : i ∈ db'.inodes) :
    db'.identity i = db.identity i := by
  cases h with
  | keeps hid => rw [hid]
  | adds _ hid => rw [hid, Function.update_of_ne (lt_nextIno hi).ne]
  | @drops j hid =>
    rw [← identity_ne_none_iff, hid] at hi'
    by_cases hij : i = j
    · rw [hij, Function.update_self] at hi'
      exact (hi' rfl).elim
    · rw [hid, Function.update_of_ne hij]

theorem Db.Turns.wellTyped (h : db.Turns db') (hdb : ∀ i x, db.identity i = some x → WellTyped x) :
    ∀ i x, db'.identity i = some x → WellTyped x := by
  intro i x hi
  cases h with
  | keeps hid => exact hdb i x (hid ▸ hi)
  | adds hx hid =>
    rw [hid, Function.update_apply] at hi
    split_ifs at hi
    · obtain rfl := Option.some.inj hi
      exact hx
    · exact hdb i x hi
  | drops hid =>
    rw [hid, Function.update_apply] at hi
    split_ifs at hi
    exact hdb i x hi

/-! ## Runs -/

theorem Reachable.wellTyped (h : Reachable db) : ∀ i x, db.identity i = some x → WellTyped x := by
  refine h.induction (P := fun db => ∀ i x, db.identity i = some x → WellTyped x)
    (fun now uid gid i x hi => ?_) fun env req db hdb _ => ?_
  · have hroot : i = rootIno := by
      have hsome : (Db.created now uid gid).identity i ≠ none := by
        rw [hi]
        simp
      have hmem := Db.identity_ne_none_iff.1 hsome
      rcases AList.mem_insert _ |>.1 hmem with rfl | hmem
      · rfl
      · exact (AList.notMem_empty i hmem).elim
    subst hroot
    rw [Db.identity, show (Db.created now uid gid).inodes.lookup rootIno = _ from
      AList.lookup_insert _] at hi
    cases hi
    exact ⟨typeBits_root, rfl⟩
  · rcases step_cases env req db with hsame | heffect
    · rwa [hsame]
    · exact heffect.turns.wellTyped hdb

/-- The numbers of inodes are handed out once. -/
theorem freshNumbers_reachable :
    FreshNumbers KernelStep Reachable (fun db i => i ∈ db.inodes) Db.seq := by
  have hnumbers {db db' : Db} (hdb : Reachable db) (hstep : KernelStep db db') :
      db.seq ≤ db'.seq ∧ ∀ i ∈ db'.inodes, i ∈ db.inodes ∨ db.seq < i := by
    obtain ⟨env, req, -, rfl⟩ := hstep
    rcases step_cases env req db with hsame | heffect
    · rw [hsame]
      exact ⟨le_refl _, fun i hi => Or.inl hi⟩
    · exact (heffect.numbers hdb.treeInv.wellFormed hdb.storeInv.le_seq).2
  constructor
  case good_step =>
    rintro db _ hdb ⟨env, req, hok, rfl⟩
    exact hdb.step env hok
  case le_mark => exact fun db i hdb hi => hdb.storeInv.le_seq i hi
  case mark_le => exact fun db db' hdb hstep => (hnumbers hdb hstep).1
  case new_gt => exact fun db db' i hdb hstep hi => (hnumbers hdb hstep).2 i hi

theorem identity_of_run (hdb : Reachable db) (hrun : ReflTransGen KernelStep db db')
    (hi : i ∈ db.inodes) (hi' : i ∈ db'.inodes) : db'.identity i = db.identity i := by
  have hkeep (db db' : Db) (i : Ino) (_ : Reachable db) (hstep : KernelStep db db')
      (hi : i ∈ db.inodes) (hi' : i ∈ db'.inodes) : db'.identity i = db.identity i := by
    obtain ⟨env, req, -, rfl⟩ := hstep
    rcases step_cases env req db with hsame | heffect
    · rw [hsame]
    · exact heffect.turns.identity_eq hi hi'
  exact freshNumbers_reachable.label_of_run hdb hrun hkeep hi hi'

/-- **A number stands for the same thing for ever**, and its type bits, its kind and its target
agree. -/
theorem identity_kept (hdb : Reachable db) (hrun : ReflTransGen KernelStep db db')
    (hi : i ∈ db.inodes) (hi' : i ∈ db'.inodes) :
    ∃ x, WellTyped x ∧ db.identity i = some x ∧ db'.identity i = some x := by
  obtain ⟨x, hx⟩ := Option.ne_none_iff_exists'.1 (Db.identity_ne_none_iff.2 hi)
  exact ⟨x, hdb.wellTyped i x hx, hx, (identity_of_run hdb hrun hi hi').trans hx⟩

theorem identity_kept_oneFile : ∃ x, WellTyped x ∧ Db.oneFile.identity 2 = some x ∧
    Db.oneByte.identity 2 = some x :=
  identity_kept reachable_oneFile (.single ⟨_, .write 2 0 [1] false, trivial, rfl⟩)
    (by decide +kernel) (by decide +kernel)

/-! ## Symlinks -/

theorem OsStr.toList_toUTF8 {s : OsStr} {t : String} (h : s.toStr = some t) :
    t.toUTF8.toList = s.bytes.toList := by
  unfold toStr String.fromUTF8? at h
  split at h
  · cases h
    rfl
  · cases h

theorem readlink_ok {a : Answer} (h : (readlink i).Yields db (.ok a) db') :
    ∃ row, db.rowByIno i = some row ∧ a = .data (row.symlinkTarget.getD "").toUTF8.toList := by
  obtain ⟨o, hrow, h⟩ := h.after (readOnly_orEio readOnly_rowByIno)
  obtain ⟨row, hsome, h⟩ := h.after (readOnly_orRefuse _ _)
  have hrow := (yields_rowByIno_ok.1 (yields_orEio_ok.1 hrow)).1
  have hsome := (yields_orRefuse_ok.1 hsome).1
  exact ⟨row, hrow.symm.trans hsome, Except.ok.inj (yields_pure.1 h).1⟩

theorem symlink_ok {parent : Ino} {linkName target : OsStr} {a : Answer}
    (h : (symlink m now parent linkName target).Yields db (.ok a) db') :
    ∃ t attr, target.toStr = some t ∧ a = .entry ttl attr 0 ∧ attr.ino ∈ db'.inodes ∧
      db'.identity attr.ino = some (.symlink, sIfLnk, some t) := by
  obtain ⟨_, -, h⟩ := h.after (readOnly_refuseIf _ _)
  obtain ⟨n, -, h⟩ := h.after (readOnly_orRefuse _ _)
  obtain ⟨t, ht, h⟩ := h.after (readOnly_orRefuse _ _)
  obtain ⟨i, db₁, htx, h⟩ := h.bind_ok
  obtain ⟨attr, hback, h⟩ := h.after readOnly_readBack
  obtain ⟨hanswer, rfl⟩ := yields_pure.1 h
  obtain ⟨row, hrow, hattr⟩ := readBack_ok hback
  obtain ⟨rfl, -, -, rfl⟩ := symlinkTx_ok htx.transaction_ok
  obtain ⟨r, hr, -⟩ := Option.map_eq_some_iff.1 hrow
  refine ⟨t, attr, (yields_orRefuse_ok.1 ht).1, Except.ok.inj hanswer, ?_, ?_⟩
  · rw [ino_of_toAttr hattr]
    exact AList.mem_of_lookup_eq_some hr
  · rw [ino_of_toAttr hattr, Db.identity_addChild, Function.update_self]
    exact congrArg (fun bits => some (Kind.symlink, bits, some t)) typeBits_symlink

/-- **A symlink answers the target it was created with**, whatever happens in between. -/
theorem readlink_symlink {env env' : Env} {parent : Ino} {linkName target : OsStr}
    {t generation : ℕ} {attr : FileAttr} {bytes : List UInt8} (hdb : Reachable db)
    (hok : KernelOk db (.symlink parent linkName target))
    (hcreated : (step env (.symlink parent linkName target) db).1 = .ok (.entry t attr generation))
    (hrun : ReflTransGen KernelStep (step env (.symlink parent linkName target) db).2 db')
    (hanswer : (step env' (.readlink attr.ino) db').1 = .ok (.data bytes)) :
    bytes = target.bytes.toList := by
  have hy := step_yields env (.symlink parent linkName target) db
  rw [hcreated] at hy
  obtain ⟨t, attr, ht, heq, hi, hidentity⟩ := symlink_ok hy
  cases heq
  have hy' := step_yields env' (.readlink attr.ino) db'
  rw [hanswer] at hy'
  obtain ⟨row, hrow, heq⟩ := readlink_ok hy'
  cases heq
  obtain ⟨r, hr, rfl⟩ := Option.map_eq_some_iff.1 hrow
  have hkept := identity_of_run (hdb.step env hok) hrun hi (AList.mem_of_lookup_eq_some hr)
  rw [hidentity, Db.identity, hr] at hkept
  have htarget : r.symlinkTarget = some t :=
    congrArg (fun x => x.2.2) (Option.some.inj hkept)
  show (r.symlinkTarget.getD "").toUTF8.toList = _
  rw [htarget]
  exact OsStr.toList_toUTF8 ht

theorem readlink_symlink_created : [98] = nameB.bytes.toList := by
  have hcreated : (step (.quiet .plain 0) (.symlink rootIno nameA nameB) (.created 0 0 0)).1 =
      .ok (.entry ttl
        { ino := 2, size := 1, blocks := 1, atime := .unixEpoch, mtime := .unixEpoch
          ctime := .unixEpoch, crtime := .unixEpoch, kind := .symlink, perm := 0o777, nlink := 1
          uid := 0, gid := 0, rdev := 0, blksize := 4096, flags := 0 } 0) := by
    decide +kernel
  have hanswer : (step (.quiet .plain 1) (.readlink 2)
      (step (.quiet .plain 0) (.symlink rootIno nameA nameB) (.created 0 0 0)).2).1 =
        .ok (.data [98]) := by
    decide +kernel
  exact readlink_symlink (reachable_created 0 0 0) (isDir_root_created 0 0 0) hcreated .refl hanswer

end CofferFS
