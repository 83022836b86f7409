import CofferFS.Effects

/-!
# What a change leaves alone

Most updates of `inodes` are about times, modes and owners. What the rest of the development
asks of an inode is its kind and its size, `Db.core`; the lemmas here say what every change does to
it. `Concerns i db db'` says that everything but inode `i` is untouched, which is so for the
requests that are about one inode.
-/

namespace CofferFS

namespace Db

/-- Kind and size of an inode. -/
def core (db : Db) (i : Ino) : Option (Kind × ℤ) :=
  (db.inodes.lookup i).map fun r => (r.kind, r.size)

variable {db : Db} {i j parent : Ino} {name : String} {now : F64}

theorem core_eq_some_iff {c : Kind × ℤ} :
    db.core i = some c ↔ ∃ r, db.inodes.lookup i = some r ∧ (r.kind, r.size) = c :=
  Option.map_eq_some_iff

theorem core_ne_none_iff : db.core i ≠ none ↔ i ∈ db.inodes := by
  rw [← Option.isSome_iff_ne_none, ← AList.lookup_isSome, core, Option.isSome_map]

/-! ## Statements -/

theorem core_updateInode {f : Inode → Inode} (hf : ∀ r, (f r).kind = r.kind ∧ (f r).size = r.size) :
    (db.updateInode i f).core = db.core := by
  funext j
  show ((db.inodes.updateKey i f).lookup j).map _ = (db.inodes.lookup j).map _
  rw [AList.lookup_updateKey]
  split_ifs
  · simp [hf, Function.comp_def]
  · rfl

@[simp] theorem core_touch : (db.touch now i).core = db.core :=
  core_updateInode fun _ => ⟨rfl, rfl⟩

@[simp] theorem core_setCtime : (db.setCtime now i).core = db.core :=
  core_updateInode fun _ => ⟨rfl, rfl⟩

@[simp] theorem core_setMode {mode : BitVec 64} : (db.setMode mode now i).core = db.core :=
  core_updateInode fun _ => ⟨rfl, rfl⟩

@[simp] theorem core_setOwner {uid gid : UInt32} : (db.setOwner uid gid now i).core = db.core :=
  core_updateInode fun _ => ⟨rfl, rfl⟩

@[simp] theorem core_setTimes {atime mtime : F64} : (db.setTimes atime mtime i).core = db.core :=
  core_updateInode fun _ => ⟨rfl, rfl⟩

@[simp] theorem core_clearSuid : (db.clearSuid i).core = db.core :=
  core_updateInode fun r => by split_ifs <;> exact ⟨rfl, rfl⟩

@[simp] theorem core_clearSgid : (db.clearSgid i).core = db.core :=
  core_updateInode fun r => by split_ifs <;> exact ⟨rfl, rfl⟩

@[simp] theorem core_setSize {size : ℤ} : (db.setSize size now i).core =
    Function.update db.core i ((db.core i).map fun c => (c.1, size)) := by
  funext j
  show ((db.inodes.updateKey i _).lookup j).map _ = _
  rw [AList.lookup_updateKey, Function.update_apply]
  split_ifs with hj
  · rw [hj]
    simp [core, Function.comp_def]
  · rfl

@[simp] theorem core_putBlock {b : ℕ} {content : List UInt8} :
    (db.putBlock i b content).core = db.core := by
  unfold putBlock
  split_ifs <;> rfl

/-! ## Compound changes -/

@[simp] theorem core_writeBlocks {pos : ℕ} {data : List UInt8} :
    (db.writeBlocks i pos data).core = db.core := by
  fun_induction writeBlocks i pos data db with
  | case1 => rfl
  | case2 pos data db hdata ih => rw [ih, core_putBlock]

@[simp] theorem core_killIf {kill : Bool} : (db.killIf kill i).core = db.core := by
  unfold killIf
  split_ifs
  · show ((db.clearSuid i).clearSgid i).core = db.core
    rw [core_clearSgid, core_clearSuid]
  · rfl

@[simp] theorem core_chmod {row : InodeRow} {mode : Option (BitVec 32)} :
    (db.chmod now i row mode).core = db.core := by
  cases mode with
  | none => rfl
  | some m => exact core_setMode

@[simp] theorem core_chown {row : InodeRow} {uid gid : Option UInt32} :
    (db.chown now i row uid gid).core = db.core := by
  unfold chown
  split_ifs
  · exact core_setOwner
  · rfl

@[simp] theorem core_utimens {row : InodeRow} {atime mtime : Option TimeOrNow} :
    (db.utimens now i row atime mtime).core = db.core := by
  unfold utimens
  split_ifs
  · exact core_setTimes
  · rfl

@[simp] theorem core_truncate {length : ℕ} : (db.truncate now i length).core =
    Function.update db.core i ((db.core i).map fun c => (c.1, asI64 length)) := by
  unfold truncate
  rw [core_setSize]
  split_ifs
  · rw [core_putBlock]
    rfl
  · rfl

theorem core_resize {size : Option ℕ} : (db.resize now i size).core =
    match size with
    | some n => Function.update db.core i ((db.core i).map fun c => (c.1, asI64 n))
    | none => db.core := by
  cases size with
  | none => rfl
  | some n => exact core_truncate

theorem core_apply {a : SetAttr} {caller : UInt32} {row : InodeRow} :
    (a.apply now caller i row db).core =
      match a.size with
      | some n => Function.update db.core i ((db.core i).map fun c => (c.1, asI64 n))
      | none => db.core := by
  rw [SetAttr.apply, core_killIf, core_utimens, core_resize, core_chown, core_chmod]

theorem core_writeEffect {offset : ℕ} {data : List UInt8} {kill : Bool} {row : InodeRow} :
    (writeEffect now i offset data kill row db).core = Function.update db.core i
      ((db.core i).map fun c => (c.1, asI64 (writtenSize row offset data))) := by
  rw [writeEffect, core_killIf, core_setSize, core_writeBlocks]

theorem core_addInode {r : Inode} :
    (db.addInode r).core = Function.update db.core db.nextIno (some (r.kind, r.size)) := by
  funext j
  show ((db.inodes.insert db.nextIno r).lookup j).map _ = _
  rw [AList.lookup_insert_eq, Function.update_apply]
  split_ifs <;> rfl

theorem core_dropInode : (db.dropInode i).core = Function.update db.core i none := by
  funext j
  show ((db.inodes.erase i).lookup j).map _ = _
  rw [AList.lookup_erase_eq, Function.update_apply]
  split_ifs <;> rfl

@[simp] theorem core_addName : (db.addName now parent name i).core = db.core := core_touch

@[simp] theorem core_addChild {r : Inode} : (db.addChild now parent name r).core =
    Function.update db.core db.nextIno (some (r.kind, r.size)) := by
  rw [addChild, core_addName, core_addInode]

theorem core_dropName : (db.dropName now parent name i).core =
    if (db.deleteDentry parent name).nameCount i = 0 then Function.update db.core i none
    else db.core := by
  rw [dropName, core_touch]
  split_ifs
  · exact core_dropInode
  · exact core_setCtime

@[simp] theorem core_moveName {old new : Ino × String} :
    (db.moveName now old new i).core = db.core := by
  rw [moveName, core_touch, core_touch]
  rfl

/-! ## Changes of one inode -/

/-- The change is about inode `i`: names and the kinds of inodes stay, and so does everything
that belongs to other inodes. -/
structure Concerns (i : Ino) (db db' : Db) : Prop where
  dentries : db'.dentries = db.dentries
  seq : db'.seq = db.seq
  kind : (db'.core i).map Prod.fst = (db.core i).map Prod.fst
  core : ∀ j, j ≠ i → db'.core j = db.core j
  data : ∀ k, k.1 ≠ i → db'.data.lookup k = db.data.lookup k
  xattrs : ∀ x', db'.xattrs = some x' →
    ∃ x, db.xattrs = some x ∧ ∀ k, k.1 ≠ i → x'.lookup k = x.lookup k
  isSome_xattrs : db'.xattrs.isSome = db.xattrs.isSome

namespace Concerns

variable {db' db'' : Db}

theorem refl : Concerns i db db :=
  ⟨rfl, rfl, rfl, fun _ _ => rfl, fun _ _ => rfl, fun x hx => ⟨x, hx, fun _ _ => rfl⟩, rfl⟩

/-- The inodes stay the same. -/
theorem mem_inodes (h : Concerns i db db') : j ∈ db'.inodes ↔ j ∈ db.inodes := by
  rw [← core_ne_none_iff, ← core_ne_none_iff]
  by_cases hj : j = i
  · have hkind := h.kind
    subst hj
    cases hc : db.core j <;> cases hc' : db'.core j <;> simp [hc, hc'] at hkind ⊢
  · rw [h.core j hj]

theorem trans (h : Concerns i db db') (h' : Concerns i db' db'') : Concerns i db db'' where
  dentries := h'.dentries.trans h.dentries
  seq := h'.seq.trans h.seq
  kind := h'.kind.trans h.kind
  core j hj := (h'.core j hj).trans (h.core j hj)
  data k hk := (h'.data k hk).trans (h.data k hk)
  xattrs x'' hx'' := by
    obtain ⟨x', hx', heq'⟩ := h'.xattrs x'' hx''
    obtain ⟨x, hx, heq⟩ := h.xattrs x' hx'
    exact ⟨x, hx, fun k hk => (heq' k hk).trans (heq k hk)⟩
  isSome_xattrs := h'.isSome_xattrs.trans h.isSome_xattrs

/-- An update of the row. -/
theorem updateInode {f : Inode → Inode} (hf : ∀ r, (f r).kind = r.kind) :
    Concerns i db (db.updateInode i f) where
  dentries := rfl
  seq := rfl
  kind := by
    show (((db.inodes.updateKey i f).lookup i).map _).map _ = _
    simp [Db.core, hf, Function.comp_def]
  core j hj := by
    show ((db.inodes.updateKey i f).lookup j).map _ = _
    rw [AList.lookup_updateKey_of_ne hj]
    rfl
  data _ _ := rfl
  xattrs x hx := ⟨x, hx, fun _ _ => rfl⟩
  isSome_xattrs := rfl

/-- A change of the blocks. -/
theorem of_data {data : Table (Ino × ℕ) (List UInt8)}
    (h : ∀ k, k.1 ≠ i → data.lookup k = db.data.lookup k) : Concerns i db { db with data } :=
  ⟨rfl, rfl, rfl, fun _ _ => rfl, h, fun x hx => ⟨x, hx, fun _ _ => rfl⟩, rfl⟩

/-- A change of the extended attributes. -/
theorem of_xattrs {xattrs : Option (Table (Ino × String) (List UInt8))}
    (h : ∀ x', xattrs = some x' →
      ∃ x, db.xattrs = some x ∧ ∀ k, k.1 ≠ i → x'.lookup k = x.lookup k)
    (hsome : xattrs.isSome = db.xattrs.isSome) : Concerns i db { db with xattrs } :=
  ⟨rfl, rfl, rfl, fun _ _ => rfl, fun _ _ => rfl, h, hsome⟩

theorem putBlock {b : ℕ} {content : List UInt8} : Concerns i db (db.putBlock i b content) := by
  have hne (k : Ino × ℕ) (hk : k.1 ≠ i) : k ≠ (i, b) := fun h => hk (h ▸ rfl)
  unfold Db.putBlock
  split_ifs
  · exact of_data fun k hk => AList.lookup_erase_ne (hne k hk)
  · exact of_data fun k hk => AList.lookup_insert_ne (hne k hk)

theorem writeBlocks {pos : ℕ} {data : List UInt8} :
    Concerns i db (db.writeBlocks i pos data) := by
  fun_induction Db.writeBlocks i pos data db with
  | case1 => exact refl
  | case2 pos data db hdata ih => exact putBlock.trans ih

theorem killIf {kill : Bool} : Concerns i db (db.killIf kill i) := by
  unfold Db.killIf
  split_ifs
  · have hsuid : Concerns i db (db.clearSuid i) :=
      updateInode fun r => by split_ifs <;> rfl
    have hsgid : Concerns i (db.clearSuid i) ((db.clearSuid i).clearSgid i) :=
      updateInode fun r => by split_ifs <;> rfl
    refine (hsuid.trans hsgid).trans (of_xattrs (fun x' hx' => ?_) Option.isSome_map)
    obtain ⟨x, hx, rfl⟩ := Option.map_eq_some_iff.1 hx'
    exact ⟨x, hx, fun k hk => AList.lookup_erase_ne fun h => hk (h ▸ rfl)⟩
  · exact refl

theorem truncate {length : ℕ} : Concerns i db (db.truncate now i length) := by
  have habove : Concerns i db (db.deleteBlocksAbove i (length / blockSize)) := by
    refine of_data fun k hk => ?_
    rw [AList.lookup_filter]
    cases h : db.data.lookup k <;> simp [hk]
  unfold Db.truncate
  refine Concerns.trans ?_ (updateInode fun _ => rfl)
  split_ifs
  · exact habove.trans putBlock
  · exact habove.trans (of_data fun k hk => AList.lookup_erase_ne fun h => hk (h ▸ rfl))

theorem apply {a : SetAttr} {caller : UInt32} {row : InodeRow} :
    Concerns i db (a.apply now caller i row db) := by
  refine Concerns.trans ?_ killIf
  have hmoded : Concerns i db (db.chmod now i row a.mode) := by
    cases a.mode with
    | none => exact refl
    | some m => exact updateInode fun _ => rfl
  have howned : Concerns i db ((db.chmod now i row a.mode).chown now i row a.uid a.gid) := by
    unfold chown
    split_ifs
    · exact hmoded.trans (updateInode fun _ => rfl)
    · exact hmoded
  have hsized : Concerns i db (((db.chmod now i row a.mode).chown now i row a.uid a.gid).resize
      now i a.size) := by
    cases a.size with
    | none => exact howned
    | some n => exact howned.trans truncate
  unfold utimens
  split_ifs
  · exact hsized.trans (updateInode fun _ => rfl)
  · exact hsized

theorem writeEffect {offset : ℕ} {data : List UInt8} {kill : Bool} {row : InodeRow} :
    Concerns i db (writeEffect now i offset data kill row db) := by
  have hsized : Concerns i (db.writeBlocks i offset data)
      ((db.writeBlocks i offset data).setSize (asI64 (writtenSize row offset data)) now i) :=
    updateInode fun _ => rfl
  exact (writeBlocks.trans hsized).trans killIf

theorem setxattr {x : Table (Ino × String) (List UInt8)} {n : String} {value : List UInt8}
    (hx : db.xattrs = some x) :
    Concerns i db ({ db with xattrs := some (x.insert (i, n) value) }.setCtime now i) := by
  refine (of_xattrs (fun x' hx' => ?_) (by rw [hx]; rfl)).trans (updateInode fun _ => rfl)
  cases hx'
  exact ⟨x, hx, fun k hk => AList.lookup_insert_ne fun h => hk (h ▸ rfl)⟩

theorem removexattr {x : Table (Ino × String) (List UInt8)} {n : String}
    (hx : db.xattrs = some x) :
    Concerns i db ({ db with xattrs := some (x.erase (i, n)) }.setCtime now i) := by
  refine (of_xattrs (fun x' hx' => ?_) (by rw [hx]; rfl)).trans (updateInode fun _ => rfl)
  cases hx'
  exact ⟨x, hx, fun k hk => AList.lookup_erase_ne fun h => hk (h ▸ rfl)⟩

end Concerns

/-! ## Changes of the set of inodes -/

/-- What a request that neither sets a size nor writes does to kinds, sizes, blocks and the
sequence: nothing, or an inode appears, or one goes. -/
inductive Change (db : Db) : Db → Prop
  | keeps {db' : Db} : db'.core = db.core → db'.data = db.data → db'.seq = db.seq → Change db db'
  | adds {db' : Db} {kind : Kind} {size : ℤ} : 0 ≤ size → size ≤ i64Max →
      (kind = .file → size = 0) →
      db'.core = Function.update db.core db.nextIno (some (kind, size)) → db'.data = db.data →
      db'.seq = db.nextIno → Change db db'
  | drops {db' : Db} {i : Ino} : i ∈ db.inodes → db'.core = Function.update db.core i none →
      db'.data = db.data.filter (fun k _ => k.1 ≠ i) → db'.seq = db.seq → Change db db'

theorem size_newInode {kind : Kind} {mode : BitVec 64} {uid gid : UInt32} {t : String}
    (ht : t.utf8ByteSize ≤ i64Max) :
    (newInode now kind mode uid gid (some t)).size = t.utf8ByteSize := by
  unfold newInode
  rw [Option.map_some, Option.getD_some, asI64_of_le ht]

theorem change_addChild {kind : Kind} {mode : BitVec 64} {uid gid : UInt32}
    {target : Option String} (htarget : ∀ t, target = some t → t.utf8ByteSize ≤ i64Max)
    (hfile : kind = .file → target = none) :
    Change db (db.addChild now parent name (newInode now kind mode uid gid target)) := by
  have hsize : 0 ≤ (newInode now kind mode uid gid target).size ∧
      (newInode now kind mode uid gid target).size ≤ i64Max := by
    cases target with
    | none => exact ⟨le_refl 0, Int.natCast_nonneg _⟩
    | some t =>
      rw [size_newInode (htarget t rfl)]
      exact ⟨Int.natCast_nonneg _, Int.ofNat_le.2 (htarget t rfl)⟩
  refine .adds hsize.1 hsize.2 (fun hkind => ?_) core_addChild rfl rfl
  rw [hfile hkind]
  rfl

theorem change_dropName (hi : i ∈ db.inodes) : Change db (db.dropName now parent name i) := by
  have hcore := @core_dropName db i parent name now
  unfold dropName at hcore ⊢
  split_ifs at hcore ⊢ with hlast
  · exact .drops hi hcore rfl rfl
  · exact .keeps hcore rfl rfl

end Db

/-- A request changes the set of inodes, or it is an accepted `setattr` or `write`. -/
theorem Effect.cases {m : Mount} {now : F64} {req : Request} {db db' : Db}
    (h : Effect m now req db db')
    (hchild : ∀ k i, db.dentries.lookup k = some i → i ∈ db.inodes) :
    db.Change db' ∨
      (∃ caller ino a row, req = .setattr caller ino a ∧ db.rowByIno ino = some row ∧
        (∀ n, a.size = some n → n ≤ maxFileSize) ∧ db' = a.apply now caller ino row db) ∨
      ∃ fh offset data kill row, req = .write fh offset data kill ∧ db.rowByIno fh = some row ∧
        offset + data.length ≤ maxFileSize ∧ db' = writeEffect now fh offset data kill row db := by
  cases req with
  | setattr caller ino a =>
    obtain ⟨row, hrow, hmax, hdb'⟩ := h
    exact Or.inr (Or.inl ⟨caller, ino, a, row, rfl, hrow, hmax, hdb'⟩)
  | write fh offset data kill =>
    obtain ⟨row, hrow, hmax, hdb'⟩ := h
    exact Or.inr (Or.inr ⟨fh, offset, data, kill, row, rfl, hrow, hmax, hdb'⟩)
  | mkdir parent name mode =>
    obtain ⟨n, -, -, -, rfl⟩ := h
    exact Or.inl (Db.change_addChild (fun t ht => by cases ht) fun _ => rfl)
  | create parent name mode =>
    obtain ⟨n, -, -, -, rfl⟩ := h
    exact Or.inl (Db.change_addChild (fun t ht => by cases ht) fun _ => rfl)
  | symlink parent linkName target =>
    obtain ⟨t, ht, n, -, -, -, rfl⟩ := h
    refine Or.inl (Db.change_addChild (fun t' ht' => ?_) fun hkind => by cases hkind)
    cases ht'
    exact OsStr.utf8ByteSize_le ht
  | link ino newparent newname =>
    obtain ⟨n, -, -, -, rfl⟩ := h
    exact Or.inl (.keeps (by simp) rfl rfl)
  | unlink parent name =>
    obtain ⟨n, ino, -, hino, rfl⟩ := h
    exact Or.inl (Db.change_dropName (hchild _ ino hino))
  | rmdir parent name =>
    obtain ⟨n, ino, -, hino, -, -, rfl⟩ := h
    exact Or.inl (Db.change_dropName (hchild _ ino hino))
  | rename parent name newparent newname flags =>
    left
    cases h with
    | sameName => exact .keeps (by simp) rfl rfl
    | freeName => exact .keeps Db.core_moveName rfl rfl
    | @replaced n n' ino existing _ _ _ _ _ _ hexisting =>
      have hdrop : db.Change (db.dropName now newparent n' existing) :=
        Db.change_dropName (hchild _ existing hexisting)
      cases hdrop with
      | keeps hcore hdata hseq => exact .keeps (Db.core_moveName.trans hcore) hdata hseq
      | adds hsize hmax hfile hcore hdata hseq =>
        exact .adds hsize hmax hfile (Db.core_moveName.trans hcore) hdata hseq
      | drops hi hcore hdata hseq => exact .drops hi (Db.core_moveName.trans hcore) hdata hseq
  | setxattr ino name value flags =>
    obtain ⟨n, x, -, -, -, -, -, -, -, -, rfl⟩ := h
    exact Or.inl (.keeps Db.core_setCtime rfl rfl)
  | removexattr ino name =>
    obtain ⟨n, x, -, -, -, rfl⟩ := h
    exact Or.inl (.keeps Db.core_setCtime rfl rfl)
  | _ =>
    obtain rfl : db' = db := h
    exact Or.inl (.keeps rfl rfl rfl)

theorem Effect.change {m : Mount} {now : F64} {req : Request} {db db' : Db}
    (h : Effect m now req db db')
    (hchild : ∀ k i, db.dentries.lookup k = some i → i ∈ db.inodes)
    (hsetattr : ∀ caller ino a, req ≠ .setattr caller ino a)
    (hwrite : ∀ fh offset data kill, req ≠ .write fh offset data kill) : db.Change db' := by
  rcases h.cases hchild with hc | ⟨caller, ino, a, row, hreq, -⟩ |
    ⟨fh, offset, data, kill, row, hreq, -⟩
  · exact hc
  · exact (hsetattr caller ino a hreq).elim
  · exact (hwrite fh offset data kill hreq).elim

/-- The table of extended attributes stays, or stays missing. -/
theorem Effect.isSome_xattrs {m : Mount} {now : F64} {req : Request} {db db' : Db}
    (h : Effect m now req db db') : db'.xattrs.isSome = db.xattrs.isSome := by
  have hdrop (parent : Ino) (name : String) (i : Ino) :
      (db.dropName now parent name i).xattrs.isSome = db.xattrs.isSome := by
    unfold Db.dropName
    split_ifs
    · exact Option.isSome_map
    · rfl
  cases req with
  | setattr caller ino a =>
    obtain ⟨row, -, -, rfl⟩ := h
    exact Db.Concerns.apply.isSome_xattrs
  | mkdir parent name mode =>
    obtain ⟨n, -, -, -, rfl⟩ := h
    rfl
  | create parent name mode =>
    obtain ⟨n, -, -, -, rfl⟩ := h
    rfl
  | symlink parent linkName target =>
    obtain ⟨t, -, n, -, -, -, rfl⟩ := h
    rfl
  | link ino newparent newname =>
    obtain ⟨n, -, -, -, rfl⟩ := h
    rfl
  | unlink parent name =>
    obtain ⟨n, ino, -, -, rfl⟩ := h
    exact hdrop parent n ino
  | rmdir parent name =>
    obtain ⟨n, ino, -, -, -, -, rfl⟩ := h
    exact hdrop parent n ino
  | rename parent name newparent newname flags =>
    cases h with
    | sameName => rfl
    | freeName => rfl
    | @replaced n n' ino existing => exact hdrop newparent n' existing
  | write fh offset data kill =>
    obtain ⟨row, -, -, rfl⟩ := h
    exact Db.Concerns.writeEffect.isSome_xattrs
  | setxattr ino name value flags =>
    obtain ⟨n, x, -, -, -, -, -, hx, -, -, rfl⟩ := h
    exact (Db.Concerns.setxattr hx).isSome_xattrs
  | removexattr ino name =>
    obtain ⟨n, x, -, hx, -, rfl⟩ := h
    exact (Db.Concerns.removexattr hx).isSome_xattrs
  | _ =>
    obtain rfl : db' = db := h
    rfl

theorem Reachable.exists_xattrs {db : Db} (h : Reachable db) : ∃ x, db.xattrs = some x := by
  have hsome : db.xattrs.isSome := by
    refine h.induction (P := fun db => db.xattrs.isSome) (fun _ _ _ => rfl) ?_
    intro env req db hdb _
    rcases step_cases env req db with hsame | heffect
    · rwa [hsame]
    · rwa [heffect.isSome_xattrs]
  exact Option.isSome_iff_exists.1 hsome

end CofferFS
