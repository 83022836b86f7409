import CofferFS.Frame

/-!
# What belongs to an inode

`db.own i` is everything a container holds about inode `i`: its row, its blocks, its extended
attributes and the number of its names. The lemmas say what every change makes of it, so that a
statement about one inode needs no look at the tables.
-/

namespace CofferFS

/-- A row of `inodes` with everything that belongs to it. -/
@[ext]
structure Own where
  row : Option Inode
  block : ℕ → Option (List UInt8)
  attr : String → Option (List UInt8)
  names : ℕ

/-- The row is updated. -/
def Own.mapRow (f : Inode → Inode) (o : Own) : Own := { o with row := o.row.map f }

namespace Db

/-- The extended attribute `n` of `i`. -/
def attr (db : Db) (i : Ino) (n : String) : Option (List UInt8) :=
  db.xattrs.bind fun x => x.lookup (i, n)

/-- Everything the container holds about `i`. -/
def own (db : Db) (i : Ino) : Own where
  row := db.inodes.lookup i
  block b := db.data.lookup (i, b)
  attr := db.attr i
  names := db.nameCount i

variable {db db' : Db} {i ino parent : Ino} {name : String} {now : F64}

/-! ## Updates of rows -/

theorem own_updateInode {f : Inode → Inode} : (db.updateInode ino f).own i =
    if i = ino then (db.own i).mapRow f else db.own i := by
  have hrow : (db.updateInode ino f).inodes.lookup i =
      if i = ino then (db.inodes.lookup i).map f else db.inodes.lookup i :=
    AList.lookup_updateKey ..
  split_ifs at hrow ⊢
  · exact Own.ext hrow rfl rfl rfl
  · exact Own.ext hrow rfl rfl rfl

theorem own_updateInode_self {f : Inode → Inode} :
    (db.updateInode i f).own i = (db.own i).mapRow f := by
  rw [own_updateInode, if_pos rfl]

theorem own_updateInode_of_ne {f : Inode → Inode} (h : i ≠ ino) :
    (db.updateInode ino f).own i = db.own i := by
  rw [own_updateInode, if_neg h]

theorem mem_updateInode {f : Inode → Inode} :
    i ∈ (db.updateInode ino f).inodes ↔ i ∈ db.inodes := by
  show i ∈ (db.inodes.updateKey ino f).keys ↔ i ∈ db.inodes.keys
  rw [AList.keys_updateKey]

/-! ## Changes of blocks and attributes -/

theorem own_putBlock_of_ne {b : ℕ} {content : List UInt8} (h : i ≠ ino) :
    (db.putBlock ino b content).own i = db.own i := by
  have hne (b' : ℕ) : (i, b') ≠ (ino, b) := fun heq => h (congrArg Prod.fst heq)
  unfold putBlock
  split_ifs
  · exact Own.ext rfl (funext fun b' => AList.lookup_erase_ne (hne b')) rfl rfl
  · exact Own.ext rfl (funext fun b' => AList.lookup_insert_ne (hne b')) rfl rfl

theorem own_writeBlocks_of_ne {pos : ℕ} {data : List UInt8} (h : i ≠ ino) :
    (db.writeBlocks ino pos data).own i = db.own i := by
  fun_induction writeBlocks ino pos data db with
  | case1 => rfl
  | case2 pos data db hdata ih => rw [ih, own_putBlock_of_ne h]

theorem inodes_putBlock {b : ℕ} {content : List UInt8} :
    (db.putBlock ino b content).inodes = db.inodes := by
  unfold putBlock
  split_ifs <;> rfl

theorem xattrs_putBlock {b : ℕ} {content : List UInt8} :
    (db.putBlock ino b content).xattrs = db.xattrs := by
  unfold putBlock
  split_ifs <;> rfl

theorem inodes_writeBlocks {pos : ℕ} {data : List UInt8} :
    (db.writeBlocks ino pos data).inodes = db.inodes := by
  fun_induction writeBlocks ino pos data db with
  | case1 => rfl
  | case2 pos data db hdata ih => rw [ih, inodes_putBlock]

theorem xattrs_writeBlocks {pos : ℕ} {data : List UInt8} :
    (db.writeBlocks ino pos data).xattrs = db.xattrs := by
  fun_induction writeBlocks ino pos data db with
  | case1 => rfl
  | case2 pos data db hdata ih => rw [ih, xattrs_putBlock]

theorem inodes_setSize {size : ℤ} : (db.setSize size now ino).inodes =
    db.inodes.updateKey ino fun r => { r with size := size, mtime := now, ctime := now } := rfl

theorem inodes_truncate {length : ℕ} : (db.truncate now ino length).inodes =
    (db.setSize (asI64 length) now ino).inodes := by
  unfold truncate
  split_ifs
  · rw [inodes_setSize, inodes_putBlock]
    rfl
  · rfl

theorem xattrs_truncate {length : ℕ} : (db.truncate now ino length).xattrs = db.xattrs := by
  unfold truncate
  split_ifs
  · show (putBlock ino _ _ _).xattrs = _
    rw [xattrs_putBlock]
    rfl
  · rfl

/-- The attributes depend on their table only. -/
theorem attr_congr (h : db'.xattrs = db.xattrs) : db'.attr = db.attr := by
  funext i n
  rw [attr, attr, h]

theorem attr_insert {x : Table (Ino × String) (List UInt8)} {n n' : String} {value : List UInt8}
    (hx : db.xattrs = some x) :
    ({ db with xattrs := some (x.insert (ino, n) value) } : Db).attr i n' =
      if (i, n') = (ino, n) then some value else db.attr i n' := by
  show (x.insert (ino, n) value).lookup (i, n') = _
  rw [AList.lookup_insert_eq, attr, hx]
  rfl

theorem attr_erase {x : Table (Ino × String) (List UInt8)} {n n' : String}
    (hx : db.xattrs = some x) :
    ({ db with xattrs := some (x.erase (ino, n)) } : Db).attr i n' =
      if (i, n') = (ino, n) then none else db.attr i n' := by
  show (x.erase (ino, n)).lookup (i, n') = _
  rw [AList.lookup_erase_eq, attr, hx]
  rfl

theorem own_dropPrivileges_of_ne (h : i ≠ ino) : (db.dropPrivileges ino).own i = db.own i := by
  have hrow : (db.dropPrivileges ino).inodes.lookup i = db.inodes.lookup i := by
    have hbits : ((db.clearSuid ino).clearSgid ino).own i = db.own i :=
      (own_updateInode_of_ne h).trans (own_updateInode_of_ne h)
    exact congrArg Own.row hbits
  have hattr : (db.dropPrivileges ino).attr i = db.attr i := by
    funext n
    show (db.xattrs.map _).bind _ = db.xattrs.bind _
    cases db.xattrs with
    | none => rfl
    | some x => exact AList.lookup_erase_ne fun heq => h (congrArg Prod.fst heq)
  exact Own.ext hrow rfl hattr rfl

theorem own_killIf_of_ne {kill : Bool} (h : i ≠ ino) : (db.killIf kill ino).own i = db.own i := by
  unfold killIf
  split_ifs
  · exact own_dropPrivileges_of_ne h
  · rfl

theorem own_truncate_of_ne {length : ℕ} (h : i ≠ ino) :
    (db.truncate now ino length).own i = db.own i := by
  have habove : (db.deleteBlocksAbove ino (length / blockSize)).own i = db.own i := by
    refine Own.ext rfl (funext fun b => ?_) rfl rfl
    show (db.data.filter _).lookup (i, b) = _
    rw [AList.lookup_filter]
    cases hb : db.data.lookup (i, b) <;> simp [own, hb, h]
  have hlast : (db.deleteBlocksAbove ino (length / blockSize)).own i =
      ((db.deleteBlocksAbove ino (length / blockSize)).deleteBlock ino (length / blockSize)).own i :=
    Own.ext rfl
      (funext fun b => (AList.lookup_erase_ne fun heq => h (congrArg Prod.fst heq)).symm) rfl rfl
  unfold truncate
  refine (own_updateInode_of_ne h).trans ?_
  split_ifs
  · rw [own_putBlock_of_ne h, habove]
  · rw [← hlast, habove]

/-- A `setattr` is about one inode. -/
theorem own_apply_of_ne {a : SetAttr} {caller : UInt32} {row : InodeRow} (h : i ≠ ino) :
    (a.apply now caller ino row db).own i = db.own i := by
  have hmode : (db.chmod now ino row a.mode).own i = db.own i := by
    cases a.mode with
    | none => rfl
    | some m => exact own_updateInode_of_ne h
  have howner (db : Db) : (db.chown now ino row a.uid a.gid).own i = db.own i := by
    unfold chown
    split_ifs
    · exact own_updateInode_of_ne h
    · rfl
  have hsize (db : Db) : (db.resize now ino a.size).own i = db.own i := by
    cases a.size with
    | none => rfl
    | some n => exact own_truncate_of_ne h
  have htimes (db : Db) : (db.utimens now ino row a.atime a.mtime).own i = db.own i := by
    unfold utimens
    split_ifs
    · exact own_updateInode_of_ne h
    · rfl
  rw [SetAttr.apply, own_killIf_of_ne h, htimes, hsize, howner, hmode]

/-- A write is about one inode. -/
theorem own_writeEffect_of_ne {offset : ℕ} {data : List UInt8} {kill : Bool} {row : InodeRow}
    (h : i ≠ ino) : (writeEffect now ino offset data kill row db).own i = db.own i := by
  rw [writeEffect, own_killIf_of_ne h]
  exact (own_updateInode_of_ne h).trans (own_writeBlocks_of_ne h)

theorem own_setxattr_of_ne {x : Table (Ino × String) (List UInt8)} {n : String}
    {value : List UInt8} (hx : db.xattrs = some x) (h : i ≠ ino) :
    ({ db with xattrs := some (x.insert (ino, n) value) }.setCtime now ino).own i = db.own i := by
  refine (own_updateInode_of_ne h).trans (Own.ext rfl rfl (funext fun n' => ?_) rfl)
  exact (attr_insert hx).trans (if_neg fun heq => h (congrArg Prod.fst heq))

theorem own_removexattr_of_ne {x : Table (Ino × String) (List UInt8)} {n : String}
    (hx : db.xattrs = some x) (h : i ≠ ino) :
    ({ db with xattrs := some (x.erase (ino, n)) }.setCtime now ino).own i = db.own i := by
  refine (own_updateInode_of_ne h).trans (Own.ext rfl rfl (funext fun n' => ?_) rfl)
  exact (attr_erase hx).trans (if_neg fun heq => h (congrArg Prod.fst heq))

/-! ## Changes of names -/

/-- Both times of a row that was changed. -/
def stamp (now : F64) (r : Inode) : Inode := { r with mtime := now, ctime := now }

theorem own_touch : (db.touch now ino).own i =
    if i = ino then (db.own i).mapRow (stamp now) else db.own i :=
  own_updateInode

/-- The owner gets one more name. -/
theorem own_insertDentry {k : Ino × String} (hfree : db.dentries.lookup k = none) :
    ({ db with dentries := db.dentries.insert k ino } : Db).own i =
      { db.own i with names := (if ino = i then 1 else 0) + db.nameCount i } := by
  refine Own.ext rfl rfl rfl ?_
  have hcount := AList.count_insert (p := fun _ j => decide (j = i)) (v := ino) hfree
  simp only [decide_eq_true_eq] at hcount
  exact hcount

/-- The owner has one name less. -/
theorem own_eraseDentry {k : Ino × String} (hk : db.dentries.lookup k = some ino) :
    db.own i = { ({ db with dentries := db.dentries.erase k } : Db).own i with
      names := (if ino = i then 1 else 0) +
        ({ db with dentries := db.dentries.erase k } : Db).nameCount i } := by
  refine Own.ext rfl rfl rfl ?_
  have hcount := AList.count_erase (p := fun _ j => decide (j = i)) hk
  simp only [decide_eq_true_eq] at hcount
  exact hcount.symm

theorem own_eraseDentry_of_ne {k : Ino × String} (hk : db.dentries.lookup k = some ino)
    (h : i ≠ ino) : ({ db with dentries := db.dentries.erase k } : Db).own i = db.own i := by
  rw [own_eraseDentry hk, if_neg (Ne.symm h), zero_add]
  rfl

theorem own_addInode_of_ne {r : Inode} (h : i ≠ db.nextIno) : (db.addInode r).own i = db.own i :=
  Own.ext (AList.lookup_insert_ne h) rfl rfl rfl

/-- A new child touches its directory. -/
theorem own_addChild_of_ne {r : Inode} (hfree : db.dentries.lookup (parent, name) = none)
    (h : i ≠ db.nextIno) : (db.addChild now parent name r).own i =
      if i = parent then (db.own i).mapRow (stamp now) else db.own i := by
  have hname : ({ db.addInode r with
      dentries := db.dentries.insert (parent, name) db.nextIno } : Db).own i = db.own i := by
    refine (@own_insertDentry (db.addInode r) _ _ _ hfree).trans ?_
    rw [if_neg (Ne.symm h), zero_add]
    exact own_addInode_of_ne h
  rw [addChild, addName, own_touch]
  rw [show ({ db.addInode r with
      dentries := (db.addInode r).dentries.insert (parent, name) db.nextIno } : Db).own i =
    db.own i from hname]

theorem own_dropInode_of_ne (h : i ≠ ino) : (db.dropInode ino).own i = db.own i := by
  refine Own.ext (AList.lookup_erase_ne h) (funext fun b => ?_) (funext fun n => ?_) rfl
  · show (db.data.filter _).lookup (i, b) = _
    rw [AList.lookup_filter]
    cases hb : db.data.lookup (i, b) <;> simp [own, hb, h]
  · show (db.xattrs.map _).bind _ = db.xattrs.bind _
    cases db.xattrs with
    | none => rfl
    | some x =>
      show (x.filter _).lookup (i, n) = x.lookup (i, n)
      rw [AList.lookup_filter]
      cases x.lookup (i, n) <;> simp [h]

/-- A name that goes is about the inode it denoted, and touches its directory. -/
theorem own_dropName_of_ne (hname : db.dentries.lookup (parent, name) = some ino) (h : i ≠ ino) :
    (db.dropName now parent name ino).own i =
      if i = parent then (db.own i).mapRow (stamp now) else db.own i := by
  have herase : (db.deleteDentry parent name).own i = db.own i := own_eraseDentry_of_ne hname h
  have hgone : (if (db.deleteDentry parent name).nameCount ino = 0 then
      (db.deleteDentry parent name).dropInode ino
    else (db.deleteDentry parent name).setCtime now ino).own i = db.own i := by
    split_ifs
    · rw [own_dropInode_of_ne h, herase]
    · exact (own_updateInode_of_ne h).trans herase
  rw [dropName, own_touch, hgone]

theorem nameCount_dropName : (db.dropName now parent name ino).nameCount i =
    (db.deleteDentry parent name).nameCount i := by
  rw [nameCount, dropName_dentries]
  rfl

/-- A name that becomes another name changes nothing of what belongs to the inodes. -/
theorem own_rekey {old new : Ino × String} (hold : db.dentries.lookup old = some ino)
    (hfree : db.dentries.lookup new = none) :
    ({ db with dentries := (db.dentries.erase old).insert new ino } : Db).own i = db.own i := by
  have hfree' : (db.dentries.erase old).lookup new = none := by
    rw [AList.lookup_erase_eq]
    split_ifs
    · rfl
    · exact hfree
  rw [own_eraseDentry hold]
  exact @own_insertDentry { db with dentries := db.dentries.erase old } _ _ _ hfree'

end Db

end CofferFS
