import CofferFS.FileSystem
import CofferFS.Rename
import CofferFS.Xattrs

/-!
# A container as a file system

`Db.fileSystem` looks at the tables of a container as a file system: a row with its blocks and its
attributes is an object, and the rows of `dentries` are its names. Every change of the tables is a
change of the file system then, `Effect.does`.
-/

namespace CofferFS

open Script

variable {db db' : Db} {m : Mount} {now : F64} {i ino parent : Ino} {n : String} {r : Inode}

/-! ## The objects of a container -/

/-- A row with its content and its attributes. -/
def Object.of (r : Inode) (content : List UInt8) (xattrs : String → Option (List UInt8)) :
    Object where
  kind := r.kind
  mode := r.mode
  uid := r.uid
  gid := r.gid
  atime := r.atime
  mtime := r.mtime
  ctime := r.ctime
  target := r.symlinkTarget
  content := content
  xattrs := xattrs

namespace Db

def object (db : Db) (i : Ino) : Option Object :=
  (db.inodes.lookup i).map fun r => .of r (db.content i) (db.attr i)

/-- The file system that the tables are. -/
def fileSystem (db : Db) : FileSystem where
  object := db.object
  name k := db.dentries.lookup k

theorem object_of_lookup (h : db.inodes.lookup i = some r) :
    db.object i = some (.of r (db.content i) (db.attr i)) := by
  rw [object, h, Option.map_some]

theorem object_ne_none_iff : db.object i ≠ none ↔ i ∈ db.inodes := by
  rw [object, Ne, Option.map_eq_none_iff, AList.lookup_eq_none, not_not]

theorem content_of_own (h : db'.own i = db.own i) : db'.content i = db.content i := by
  have hrow : db'.inodes.lookup i = db.inodes.lookup i := congrArg Own.row h
  have hcore : db'.core i = db.core i := by rw [core, core, hrow]
  have hblocks : db'.blocks i = db.blocks i := by
    funext b
    have hblock : db'.data.lookup (i, b) = db.data.lookup (i, b) :=
      congrFun (congrArg Own.block h) b
    rw [blocks, block, hblock, blocks, block]
  rw [content, content, hcore, hblocks]

theorem object_of_own (h : db'.own i = db.own i) : db'.object i = db.object i := by
  have hrow : db'.inodes.lookup i = db.inodes.lookup i := congrArg Own.row h
  have hattr : db'.attr i = db.attr i := congrArg Own.attr h
  rw [object, object, hrow, content_of_own h, hattr]

/-- A change of one object. -/
theorem fileSystem_of_object {g : Object → Object} (hnames : db'.dentries = db.dentries)
    (hother : ∀ j, j ≠ i → db'.own j = db.own j) (hi : db'.object i = (db.object i).map g) :
    db'.fileSystem = db.fileSystem.update i g := by
  refine FileSystem.ext (funext fun j => ?_) ?_
  · show db'.object j = Function.update db.object i ((db.object i).map g) j
    by_cases hj : j = i
    · rw [hj, Function.update_self, hi]
    · rw [Function.update_of_ne hj, object_of_own (hother j hj)]
  · show (fun k => db'.dentries.lookup k) = fun k => db.dentries.lookup k
    rw [hnames]

/-- An update of a row that leaves its size alone. -/
theorem fileSystem_updateInode {f : Inode → Inode} {g : Object → Object}
    (hf : ∀ r, (f r).kind = r.kind ∧ (f r).size = r.size)
    (hg : ∀ r c x, g (.of r c x) = .of (f r) c x) :
    (db.updateInode i f).fileSystem = db.fileSystem.update i g := by
  refine fileSystem_of_object rfl (fun j hj => own_updateInode_of_ne hj) ?_
  have hcontent : (db.updateInode i f).content i = db.content i := by
    rw [content, content, core_updateInode hf]
    rfl
  have hattr : (db.updateInode i f).attr i = db.attr i := rfl
  have hrow : (db.updateInode i f).inodes.lookup i = (db.inodes.lookup i).map f :=
    congrArg Own.row own_updateInode_self
  rw [object, object, hrow, hcontent, hattr, Option.map_map, Option.map_map]
  exact congrArg (Option.map · (db.inodes.lookup i)) (funext fun r => (hg r _ _).symm)

theorem fileSystem_touch : (db.touch now i).fileSystem = db.fileSystem.touch now i :=
  fileSystem_updateInode (fun _ => ⟨rfl, rfl⟩) fun _ _ _ => rfl

theorem fileSystem_setCtime :
    (db.setCtime now i).fileSystem = db.fileSystem.update i (Object.changed now) :=
  fileSystem_updateInode (fun _ => ⟨rfl, rfl⟩) fun _ _ _ => rfl

/-! ## Names -/

theorem fileSystem_withDentries {dentries : Table (Ino × String) Ino} :
    ({ db with dentries } : Db).fileSystem =
      { db.fileSystem with name := fun k => dentries.lookup k } := rfl

theorem lookup_insert_eq_update {k : Ino × String} {t : Table (Ino × String) Ino} :
    (fun k' => (t.insert k i).lookup k') = Function.update (fun k' => t.lookup k') k (some i) := by
  funext k'
  rw [AList.lookup_insert_eq, Function.update_apply]

theorem lookup_erase_eq_update {k : Ino × String} {t : Table (Ino × String) Ino} :
    (fun k' => (t.erase k).lookup k') = Function.update (fun k' => t.lookup k') k none := by
  funext k'
  rw [AList.lookup_erase_eq, Function.update_apply]

theorem fileSystem_addName :
    (db.addName now parent n i).fileSystem = db.fileSystem.link now parent n i := by
  rw [addName, fileSystem_touch, fileSystem_withDentries, lookup_insert_eq_update]
  rfl

theorem fileSystem_moveName {old new : Ino × String} :
    (db.moveName now old new i).fileSystem = db.fileSystem.move now i old new := by
  rw [moveName, fileSystem_touch, fileSystem_touch, fileSystem_withDentries,
    lookup_insert_eq_update, lookup_erase_eq_update]
  rfl

theorem named_iff_nameCount : db.fileSystem.Named i ↔ db.nameCount i ≠ 0 := by
  rw [nameCount, Ne, AList.count_eq_zero_iff]
  simp [FileSystem.Named, fileSystem]

theorem fileSystem_dropInode : (db.dropInode i).fileSystem =
    { db.fileSystem with object := Function.update db.fileSystem.object i none } := by
  refine FileSystem.ext (funext fun j => ?_) rfl
  show (db.dropInode i).object j = Function.update db.object i none j
  by_cases hj : j = i
  · subst hj
    rw [Function.update_self]
    by_contra hne
    have hmem := object_ne_none_iff.1 hne
    rw [dropInode, AList.mem_erase] at hmem
    exact hmem.1 rfl
  · rw [Function.update_of_ne hj, object_of_own (own_dropInode_of_ne hj)]

theorem fileSystem_dropName :
    (db.dropName now parent n i).fileSystem = db.fileSystem.unlink now parent n i := by
  have hname : (db.deleteDentry parent n).fileSystem =
      { db.fileSystem with name := Function.update db.fileSystem.name (parent, n) none } := by
    rw [deleteDentry, fileSystem_withDentries, lookup_erase_eq_update]
    rfl
  rw [dropName, fileSystem_touch, FileSystem.unlink, FileSystem.release, ← hname,
    named_iff_nameCount]
  by_cases hlast : (db.deleteDentry parent n).nameCount i = 0
  · rw [if_pos hlast, if_neg (not_not.2 hlast), fileSystem_dropInode]
  · rw [if_neg hlast, if_pos hlast, fileSystem_setCtime]

/-! ## New objects -/

theorem attr_of_notMem (h : db.TreeInv) (hi : i ∉ db.inodes) : db.attr i = fun _ => none := by
  funext n
  unfold attr
  cases hx : db.xattrs with
  | none => rfl
  | some x =>
    refine AList.lookup_eq_none.2 fun hmem => ?_
    exact hi (h.xattrs_owned x i n hx hmem)

theorem fileSystem_addChild {kind : Kind} {mode : BitVec 64} {uid gid : UInt32}
    {target : Option String} (htree : db.TreeInv) (hs : db.StoreInv)
    (htarget : ∀ t, target = some t → t.utf8ByteSize ≤ i64Max) :
    (db.addChild now parent n (newInode now kind mode uid gid target)).fileSystem =
      (db.fileSystem.put db.nextIno (.new now kind mode uid gid target)).link now parent n
        db.nextIno := by
  rw [addChild, fileSystem_addName]
  congr 1
  refine FileSystem.ext (funext fun j => ?_) rfl
  show (db.addInode _).object j = Function.update db.object db.nextIno (some _) j
  by_cases hj : j = db.nextIno
  · rw [hj, Function.update_self]
    refine (object_of_lookup (AList.lookup_insert _)).trans (congrArg some ?_)
    have hnone := attr_of_notMem htree (AList.lookup_eq_none.1 (lookup_nextIno db))
    have hattr : (db.addInode (newInode now kind mode uid gid target)).attr db.nextIno =
        fun _ => none := hnone
    have hcore : (db.addInode (newInode now kind mode uid gid target)).core db.nextIno =
        some (kind, (((target.map String.utf8ByteSize).getD 0 : ℕ) : ℤ)) := by
      rw [core_addInode, Function.update_self]
      cases target with
      | none => rfl
      | some t =>
        have hlen := asI64_of_le (htarget t rfl)
        simp [newInode, hlen]
    have hblocks : (db.addInode (newInode now kind mode uid gid target)).blocks db.nextIno =
        fun _ => [] := hs.no_blocks _ (core_nextIno db)
    have hzero : Sparse.get blockSize (fun _ => ([] : List UInt8)) = fun _ => 0 := rfl
    rw [hattr, content_of_core hcore, hblocks]
    simp [Object.of, Object.new, newInode, Sparse.contents, hzero]
  · rw [Function.update_of_ne hj, object_of_own (own_addInode_of_ne hj)]

/-! ## Changes of one object -/

theorem fileSystem_writeEffect {offset : ℕ} {data : List UInt8} {kill : Bool} {row : InodeRow}
    (hs : db.StoreInv) (hrow : db.rowByIno i = some row)
    (hmax : offset + data.length ≤ maxFileSize) :
    (writeEffect now i offset data kill row db).fileSystem =
      db.fileSystem.update i fun o => o.write now offset data kill := by
  refine fileSystem_of_object Concerns.writeEffect.dentries
    (fun j hj => own_writeEffect_of_ne hj) ?_
  obtain ⟨r, hr, rfl⟩ := Option.map_eq_some_iff.1 hrow
  have hblocks : (db.writeBlocks i offset data).inodes.lookup i = some r := by
    rw [inodes_writeBlocks, hr]
  have hleft := @object_of_lookup (writeEffect now i offset data kill (db.mapRow i r) db) i _
    (lookup_killIf (lookup_setSize hblocks))
  obtain ⟨hdropped, hkept⟩ := @effect_write db _ .plain now i offset data kill ⟨_, hrow, hmax, rfl⟩
  have hattr : (writeEffect now i offset data kill (db.mapRow i r) db).attr i =
      (Object.of r (db.content i) (db.attr i)).xattrsAfter kill := by
    funext n
    cases kill with
    | true =>
      refine (dropped_attr (hdropped rfl)).trans ?_
      simp [Object.xattrsAfter, Object.of]
    | false => exact congrFun (hkept rfl).2 n
  rw [hleft, object_of_lookup hr, Option.map_some, content_write hs hrow hmax, hattr]
  rfl

theorem fileSystem_apply {caller : UInt32} {a : SetAttr} {row : InodeRow} (hs : db.StoreInv)
    (hrow : db.rowByIno i = some row) (hmax : ∀ n, a.size = some n → n ≤ maxFileSize) :
    (a.apply now caller i row db).fileSystem =
      db.fileSystem.update i fun o => o.set now caller a := by
  refine fileSystem_of_object Concerns.apply.dentries (fun j hj => own_apply_of_ne hj) ?_
  obtain ⟨r, hr, rfl⟩ := Option.map_eq_some_iff.1 hrow
  have hleft := @object_of_lookup (a.apply now caller i (db.mapRow i r) db) i _ (lookup_apply hr)
  obtain ⟨hdropped, hkept⟩ := @effect_setattr db _ .plain now caller i a ⟨_, hrow, hmax, rfl⟩
  have hattr : (a.apply now caller i (db.mapRow i r) db).attr i =
      (Object.of r (db.content i) (db.attr i)).xattrsAfter (setattrKills caller r.kind a) := by
    have hkills : setattrKills caller r.kind a = true ↔ Drops db i (.setattr caller i a) :=
      setattrKills_iff hrow
    funext n
    cases hk : setattrKills caller r.kind a with
    | true =>
      refine (dropped_attr (hdropped (hkills.1 hk))).trans ?_
      simp [Object.xattrsAfter, Object.of]
    | false =>
      have hnot : ¬ Drops db i (.setattr caller i a) := fun hd => by
        rw [hkills.2 hd] at hk
        cases hk
      exact congrFun (hkept hnot).2 n
  rw [hleft, object_of_lookup hr, Option.map_some, content_apply hs hrow hmax, hattr,
    setattrKills_eq]
  rfl

theorem fileSystem_setxattr {x x' : Table (Ino × String) (List UInt8)}
    {value : Option (List UInt8)} (hx : db.xattrs = some x)
    (hx' : ∀ k, x'.lookup k = if k = (i, n) then value else x.lookup k) :
    ({ db with xattrs := some x' }.setCtime now i).fileSystem =
      db.fileSystem.update i fun o => o.setXattr now n value := by
  have hattr (j : Ino) (t : String) : ({ db with xattrs := some x' } : Db).attr j t =
      if j = i ∧ t = n then value else db.attr j t := by
    rw [attr, attr, hx]
    refine (hx' (j, t)).trans ?_
    simp only [Prod.mk.injEq]
    rfl
  have hown (j : Ino) (hj : j ≠ i) : ({ db with xattrs := some x' } : Db).own j = db.own j := by
    refine Own.ext rfl rfl (funext fun t => (hattr j t).trans ?_) rfl
    exact if_neg fun h => hj h.1
  refine fileSystem_of_object rfl (fun j hj => (own_updateInode_of_ne hj).trans (hown j hj)) ?_
  have hctime := congrFun (congrArg FileSystem.object
    (@fileSystem_setCtime { db with xattrs := some x' } now i)) i
  refine hctime.trans ?_
  show Function.update _ i _ i = _
  rw [Function.update_self]
  show Option.map _ (Option.map _ _) = Option.map _ (Option.map _ _)
  rw [Option.map_map, Option.map_map]
  refine congrArg (Option.map · (db.inodes.lookup i)) (funext fun r => ?_)
  have hxattrs : ({ db with xattrs := some x' } : Db).attr i =
      Function.update (db.attr i) n value := by
    funext t
    rw [hattr, Function.update_apply]
    simp
  show Object.changed now (.of r (db.content i) (({ db with xattrs := some x' } : Db).attr i)) = _
  rw [hxattrs]
  rfl

end Db

/-! ## What requests do -/

theorem fileSystem_removable (h : db.Removable i) : db.fileSystem.Removable i := by
  obtain ⟨r, hr, hempty⟩ := h
  exact ⟨_, Db.object_of_lookup hr, fun hdir =>
    Db.hasChildren_eq_false_iff.1 (hempty hdir)⟩

theorem ChildEffect.makes {name : OsStr} {kind : Kind} {mode : BitVec 64} {uid gid : UInt32}
    {target : Option String}
    (h : ChildEffect now parent name (Db.newInode now kind mode uid gid target) db db')
    (htree : db.TreeInv) (hs : db.StoreInv)
    (htarget : ∀ t, target = some t → t.utf8ByteSize ≤ i64Max) :
    db.fileSystem.Makes now parent db'.fileSystem name (.new now kind mode uid gid target) := by
  obtain ⟨n, hn, hfree, -, rfl⟩ := h
  refine ⟨n, db.nextIno, hn, hfree, ?_, Db.fileSystem_addChild htree hs htarget⟩
  show Option.map _ _ = none
  rw [Db.lookup_nextIno, Option.map_none]

theorem RenameEffect.renames {name newname : OsStr} {newparent : Ino} {flags : RenameFlags}
    (h : RenameEffect now parent name newparent newname flags db db') :
    flags.exchange = false ∧ flags.whiteout = false ∧
      db.fileSystem.Renames now parent db'.fileSystem name newparent newname flags.noreplace := by
  cases h with
  | @sameName n n' ino hn hn' hino hexchange hwhiteout hnoreplace hsame =>
    refine ⟨hexchange, hwhiteout, n, n', ino, hn, hn', hino, Or.inl ⟨hnoreplace, hsame, ?_⟩⟩
    rw [Db.fileSystem_touch, Db.fileSystem_touch, ← hsame, FileSystem.move]
    have hname : Function.update (Function.update db.fileSystem.name (parent, n) none) (parent, n)
        (some ino) = db.fileSystem.name := by
      rw [Function.update_idem]
      exact Function.update_eq_self_iff.2 hino.symm
    rw [hname, (Prod.mk.inj hsame).1]
  | @freeName n n' ino hn hn' hino hexchange hwhiteout hfree =>
    exact ⟨hexchange, hwhiteout, n, n', ino, hn, hn', hino, Or.inr (Or.inl
      ⟨hfree, Db.fileSystem_moveName⟩)⟩
  | @replaced n n' ino existing hn hn' hino hexchange hwhiteout hnoreplace hexisting hne
      hremovable =>
    refine ⟨hexchange, hwhiteout, n, n', ino, hn, hn', hino, Or.inr (Or.inr ⟨existing, hne,
      hnoreplace, hexisting, fileSystem_removable hremovable, ?_⟩)⟩
    rw [Db.fileSystem_moveName, Db.fileSystem_dropName]

/-- The effect of a request on the tables is what it does to the file system. -/
theorem Effect.does {req : Request} (h : Effect m now req db db') (htree : db.TreeInv)
    (hs : db.StoreInv) : db.fileSystem.Does m now db'.fileSystem req := by
  have hobject {j : Ino} {row : Db.InodeRow} (hrow : db.rowByIno j = some row) :
      db.fileSystem.object j ≠ none := by
    obtain ⟨r, hr, -⟩ := Option.map_eq_some_iff.1 hrow
    exact Db.object_ne_none_iff.2 (AList.mem_of_lookup_eq_some hr)
  cases req with
  | setattr caller ino a =>
    obtain ⟨row, hrow, hmax, rfl⟩ := h
    exact ⟨hobject hrow, hmax, Db.fileSystem_apply hs hrow hmax⟩
  | mkdir parent name mode => exact ChildEffect.makes h htree hs (by simp)
  | create parent name mode => exact ChildEffect.makes h htree hs (by simp)
  | symlink parent linkName target =>
    obtain ⟨t, ht, h⟩ := h
    refine ⟨t, ht, h.makes htree hs fun t' ht' => ?_⟩
    obtain rfl := Option.some.inj ht'
    exact OsStr.utf8ByteSize_le ht
  | link ino newparent newname =>
    obtain ⟨n, hn, ⟨r, hr, hkind⟩, hfree, rfl⟩ := h
    refine ⟨n, _, hn, Db.object_of_lookup hr, hkind, hfree, ?_⟩
    rw [Db.fileSystem_setCtime, Db.fileSystem_addName]
  | unlink parent name =>
    obtain ⟨n, ino, hn, hino, rfl⟩ := h
    exact ⟨n, ino, hn, hino, Db.fileSystem_dropName⟩
  | rmdir parent name =>
    obtain ⟨n, ino, hn, hino, hroot, hremovable, rfl⟩ := h
    exact ⟨n, ino, hn, hino, hroot, fileSystem_removable hremovable, Db.fileSystem_dropName⟩
  | rename parent name newparent newname flags => exact RenameEffect.renames h
  | write fh offset data kill =>
    obtain ⟨row, hrow, hmax, rfl⟩ := h
    exact ⟨hobject hrow, hmax, Db.fileSystem_writeEffect hs hrow hmax⟩
  | setxattr ino name value flags =>
    obtain ⟨n, x, hn, hempty, hlen, hvalue, hino, hx, hcreate, hreplace, rfl⟩ := h
    obtain ⟨r, hr⟩ := AList.exists_lookup_of_mem hino
    have hattr : db.attr ino n = x.lookup (ino, n) := by
      rw [Db.attr, hx]
      rfl
    refine ⟨n, _, hn, hempty, hlen, hvalue, Db.object_of_lookup hr, fun hc => ?_, fun hc => ?_, ?_⟩
    · exact hattr.trans (hcreate hc)
    · exact fun hnone => hreplace hc (hattr.symm.trans hnone)
    · exact Db.fileSystem_setxattr hx fun k => AList.lookup_insert_eq ..
  | removexattr ino name =>
    obtain ⟨n, x, hn, hx, hmem, rfl⟩ := h
    obtain ⟨r, hr⟩ := AList.exists_lookup_of_mem (htree.xattrs_owned x ino n hx hmem)
    have hattr : db.attr ino n = x.lookup (ino, n) := by
      rw [Db.attr, hx]
      rfl
    refine ⟨n, _, hn, Db.object_of_lookup hr, fun hnone => ?_, ?_⟩
    · exact AList.lookup_eq_none.1 (hattr.symm.trans hnone) hmem
    · exact Db.fileSystem_setxattr hx fun k => AList.lookup_erase_eq ..
  | _ => exact congrArg Db.fileSystem h

end CofferFS
