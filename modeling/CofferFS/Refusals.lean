import CofferFS.Executed
import CofferFS.ReadOnly
import CofferFS.Rename
import CofferFS.Sizes
import CofferFS.Walk
import CofferFS.Xattrs

/-!
# What is refused, and with which errno

`Refused m db req e` is the manual page of the filesystem: it says of each errno which requests it is
the answer to, in terms of names, directories, sizes and attributes and not of statements.

The callbacks keep to it, for all requests and whatever fails: who is refused is told a reason,
`refused_reason`, and an errno that is not among the reasons stands for a statement that it executed
and that failed.
-/

namespace CofferFS

open Script

/-! ## What a request asks for -/

namespace Request

/-- The names and the target that a request carries. -/
def texts : Request → List OsStr
  | .lookup _ name | .mkdir _ name _ | .create _ name _ | .unlink _ name | .rmdir _ name => [name]
  | .symlink _ linkName target => [linkName, target]
  | .link _ _ newname => [newname]
  | .rename _ name _ newname _ => [name, newname]
  | .setxattr _ name _ _ | .getxattr _ name _ | .removexattr _ name => [name]
  | _ => []

/-- The inode that has to be there. -/
def subject : Request → Option Ino
  | .getattr ino | .readlink ino | .setattr _ ino _ | .link ino _ _ | .read ino _ _
  | .write ino _ _ _ | .readdir ino _ _ | .setxattr ino _ _ _ => some ino
  | _ => none

/-- The name that has to be there. -/
def wanted : Request → Option (Ino × OsStr)
  | .lookup parent name | .unlink parent name | .rmdir parent name | .rename parent name _ _ _ =>
    some (parent, name)
  | _ => none

/-- The name that has to be free. -/
def added : Request → Option (Ino × OsStr)
  | .mkdir parent name _ | .create parent name _ | .symlink parent name _ | .link _ parent name =>
    some (parent, name)
  | .rename _ _ newparent newname flags => if flags.noreplace then some (newparent, newname) else none
  | _ => none

/-- The attribute that has to be there. -/
def wantedAttr : Request → Option (Ino × OsStr)
  | .getxattr ino name _ | .removexattr ino name => some (ino, name)
  | .setxattr ino name _ flags => if flags.replace then some (ino, name) else none
  | _ => none

/-- The bytes that have to fit under the ceiling: what the sizes grow by, or one for a new file. -/
def room (db : Db) : Request → Option ℕ
  | .create .. => some 1
  | .symlink parent linkName target => some (growth db (.symlink parent linkName target))
  | req => if growth db req = 0 then none else some (growth db req)

/-- What a request for a new inode is answered with when there are no numbers left. -/
def numberErrno : Request → Option Errno
  | .mkdir .. | .symlink .. => some .eio
  | .create .. => some .enospc
  | _ => none

/-- What a request about an attribute is answered with when there is no table for them. -/
def attrErrno : Request → Option Errno
  | .setxattr .. => some .enotsup
  | .getxattr .. | .removexattr .. => some .enodata
  | _ => none

end Request

/-- The reasons to refuse a request, each with its errno. -/
inductive Refused (m : Mount) (db : Db) : Request → Errno → Prop
  | readOnly {req : Request} : m.readOnly = true → req.writes = true → Refused m db req .erofs
  | notUtf8 {req : Request} {name : OsStr} : name ∈ req.texts → name.toStr = none →
      Refused m db req .einval
  | flags {parent newparent : Ino} {name newname : OsStr} {flags : RenameFlags} :
      flags.exchange = true ∨ flags.whiteout = true →
      Refused m db (.rename parent name newparent newname flags) .einval
  | noInode {req : Request} {i : Ino} : req.subject = some i → i ∉ db.inodes →
      Refused m db req .enoent
  | noName {req : Request} {parent : Ino} {name : OsStr} : req.wanted = some (parent, name) →
      (∀ i, ¬ db.Names parent name i) → Refused m db req .enoent
  | taken {req : Request} {parent i : Ino} {name : OsStr} : req.added = some (parent, name) →
      db.Names parent name i → Refused m db req .eexist
  | directory {ino newparent : Ino} {newname : OsStr} : db.IsDir ino →
      Refused m db (.link ino newparent newname) .eperm
  | notEmpty {parent i : Ino} {name : OsStr} : db.Names parent name i → db.IsDir i →
      db.hasChildren i = true → Refused m db (.rmdir parent name) .enotempty
  | targetNotEmpty {parent newparent i j : Ino} {name newname : OsStr} {flags : RenameFlags} :
      db.Names parent name i → db.Names newparent newname j → j ≠ i → db.IsDir j →
      db.hasChildren j = true → Refused m db (.rename parent name newparent newname flags) .enotempty
  /-- Another name of the same inode: the primary key refuses the update. -/
  | sameInode {parent newparent i : Ino} {name newname : OsStr} {n n' : String}
      {flags : RenameFlags} : name.toStr = some n → newname.toStr = some n' →
      (parent, n) ≠ (newparent, n') → db.Names parent name i → db.Names newparent newname i →
      Refused m db (.rename parent name newparent newname flags) .eio
  | tooLarge {req : Request} : req.TooLarge → Refused m db req .efbig
  | full {req : Request} {k : ℕ} : m.maxSize ≠ 0 → db.totalSize ≤ i64Max → req.room db = some k →
      m.maxSize < db.totalSize + k → Refused m db req .enospc
  | noNumber {req : Request} {e : Errno} : i64Max < db.nextIno → req.numberErrno = some e →
      Refused m db req e
  | noAttrs {req : Request} {e : Errno} : m.hasXattrs = false → req.attrErrno = some e →
      Refused m db req e
  | attrName {ino : Ino} {name : OsStr} {n : String} {value : List UInt8} {flags : XattrFlags} :
      name.toStr = some n → n.isEmpty = true ∨ xattrNameMax < n.utf8ByteSize →
      Refused m db (.setxattr ino name value flags) .erange
  | attrValue {ino : Ino} {name : OsStr} {value : List UInt8} {flags : XattrFlags} :
      xattrSizeMax < value.length → Refused m db (.setxattr ino name value flags) .e2big
  | attrTaken {ino : Ino} {name : OsStr} {n : String} {value : List UInt8} {flags : XattrFlags} :
      name.toStr = some n → flags.create = true → db.attr ino n ≠ none →
      Refused m db (.setxattr ino name value flags) .eexist
  | noAttr {req : Request} {ino : Ino} {name : OsStr} {n : String} :
      req.wantedAttr = some (ino, name) → name.toStr = some n → db.attr ino n = none →
      Refused m db req .enodata
  | valueBuffer {ino : Ino} {name : OsStr} {n : String} {size : ℕ} {v : List UInt8} :
      name.toStr = some n → db.attr ino n = some v → size ≠ 0 → size < v.length →
      Refused m db (.getxattr ino name size) .erange
  | listBuffer {ino : Ino} {size : ℕ} {names : List String} : m.hasXattrs = true →
      db.xattrNames ino = .ok names → size ≠ 0 → size < (nulTerminated names).length →
      Refused m db (.listxattr ino size) .erange

/-- What stands for a failing statement: `EIO`, `ENOSPC` as `errno_for` has it, and `ENOENT` where
`readdir` looks for the parent. -/
def Excused (req : Request) (e : Errno) : Prop :=
  e = .eio ∨ e = .enospc ∨ (∃ ino offset room, req = .readdir ino offset room) ∧ e = .enoent

/-- There is a reason, or a failing statement that it may be. -/
def Told (m : Mount) (db : Db) (fs : ℕ → Option SqlError) (req : Request) (e : Errno) : Prop :=
  Refused m db req e ∨ Failing fs ∧ Excused req e

/-! ## The pieces of the callbacks -/

/-- A panic is not an answer, and needs no reason. -/
def Reason (R : Errno → Prop) : Halt → Prop
  | .error e => R e
  | .panic => True

/-- The errors of failing statements are excused. -/
structure Excuses (R : Errno → Prop) (fs : ℕ → Option SqlError) : Prop where
  eio : Failing fs → R .eio
  enospc : Failing fs → R .enospc

section Pieces

variable {α β : Type} {R : Errno → Prop} {fs : ℕ → Option SqlError} {db db' : Db}

theorem Excuses.errnoFor (h : Excuses R fs) (hfs : Failing fs) (x : SqlError) :
    R (errnoFor x) := by
  cases x with
  | diskFull => exact h.enospc hfs
  | conversion => exact h.eio hfs
  | other => exact h.eio hfs

theorem stopsFor_refuseIf {c : Bool} {e : Errno} (h : c = true → R e) :
    StopsFor (Reason R) fs (refuseIf c e) db := by
  unfold refuseIf
  cases c with
  | false => exact stopsFor_pure ()
  | true => exact stopsFor_stop (R := Reason R) (h rfl)

theorem stopsFor_orRefuse {o : Option α} {e : Errno} (h : o = none → R e) :
    StopsFor (Reason R) fs (orRefuse o e) db := by
  cases o with
  | none => exact stopsFor_stop (R := Reason R) (h rfl)
  | some a => exact stopsFor_pure a

theorem stopsFor_orPanic {o : Option α} : StopsFor (Reason R) fs (orPanic o) db := by
  cases o with
  | none => exact stopsFor_stop (R := Reason R) trivial
  | some a => exact stopsFor_pure a

theorem stopsFor_orErrno {f : SqlError → Errno} {p : Sql α} {r : Except SqlError α}
    (h : p.Runs db r db') (hr : ∀ x, r = .error x → R (f x)) (hfail : Failing fs → ∀ x, R (f x)) :
    StopsFor (Reason R) fs (orErrno f p) db :=
  StopsFor.mapError (h.stopsFor hr hfail)

/-- What would succeed stops only when something fails. -/
theorem stopsFor_orErrno_ok {f : SqlError → Errno} {p : Sql α} {a : α} (h : p.Runs db (.ok a) db')
    (hfail : Failing fs → ∀ x, R (f x)) : StopsFor (Reason R) fs (orErrno f p) db :=
  stopsFor_orErrno h (fun _ hx => by cases hx) hfail

theorem stopsFor_failing {f : SqlError → Errno} {p : Sql α} (hfs : Failing fs)
    (hfail : Failing fs → ∀ x, R (f x)) : StopsFor (Reason R) fs (orErrno f p) db :=
  StopsFor.mapError fun _ _ _ x _ => hfail hfs x

theorem stopsFor_orEio {p : Sql α} {a : α} (hR : Excuses R fs) (h : p.Runs db (.ok a) db') :
    StopsFor (Reason R) fs (orEio p) db :=
  stopsFor_orErrno_ok h fun hfs _ => hR.eio hfs

theorem stopsFor_inTransaction {f : SqlError → Errno} {body : Call α} (hR : Excuses R fs)
    (h : StopsFor (Reason R) fs body db) (hf : Failing fs → ∀ x, R (f x)) :
    StopsFor (Reason R) fs (inTransaction f body) db :=
  h.transaction (fun hfs _ => hR.eio hfs) hf

theorem stopsFor_childIno (hR : Excuses R fs) {parent : Ino} {n : String} :
    StopsFor (Reason R) fs (orEio (childIno parent n)) db := stopsFor_orEio hR runs_childIno

theorem stopsFor_rowByIno (hR : Excuses R fs) {i : Ino} :
    StopsFor (Reason R) fs (orEio (rowByIno i)) db := stopsFor_orEio hR (runs_query_ok rfl)

theorem stopsFor_readBack (hR : Excuses R fs) {i : Ino} (hi : i ∈ db.inodes) :
    StopsFor (Reason R) fs (readBack i) db := by
  refine stopsFor_guard (readOnly_orEio readOnly_rowByIno) (stopsFor_rowByIno hR) fun o ho => ?_
  have ho := (yields_rowByIno_ok.1 (yields_orEio_ok.1 ho)).1
  refine stopsFor_guard (readOnly_orRefuse _ _) (stopsFor_orRefuse fun hnone => ?_) fun _ _ =>
    stopsFor_orPanic
  obtain ⟨r, hr⟩ := AList.exists_lookup_of_mem hi
  rw [hnone, Db.rowByIno, hr] at ho
  cases ho

/-- What is committed is there to be read back. -/
theorem stopsFor_commit {f : SqlError → Errno} {body : Call α} {g : α → Ino}
    {k : α → FileAttr → Answer} (hR : Excuses R fs) (h : StopsFor (Reason R) fs body db)
    (hf : Failing fs → ∀ x, R (f x))
    (hg : ∀ a db', body.Yields db (.ok a) db' → g a ∈ db'.inodes) :
    StopsFor (Reason R) fs
      (do let a ← inTransaction f body; let attr ← readBack (g a); pure (k a attr)) db :=
  stopsFor_bind (stopsFor_inTransaction hR h hf) fun a db' ha =>
    stopsFor_bind (stopsFor_readBack hR (hg a db' ha.transaction_ok)) fun _ _ _ => stopsFor_pure _

theorem stopsFor_sumCheck {refused : ℕ → Bool} (h : sumPasses refused db = false → R .enospc) :
    StopsFor (Reason R) fs (sumCheck refused) db := by
  intro n n' db' e hrun
  rw [run_sumCheck] at hrun
  cases hpasses : sumPasses refused db with
  | true => simp [hpasses] at hrun
  | false =>
    split_ifs at hrun with hnone
    · cases hrun
    · have he := (Outcome.mk.inj hrun).1
      cases he
      exact h hpasses

end Pieces

/-! ## The ceiling -/

section Ceiling

variable {m : Mount} {R : Errno → Prop} {fs : ℕ → Option SqlError} {db : Db}

/-- What SQLite can sum up is in range. -/
theorem sum_le_of_sumI64 {l : List ℤ} {s : ℤ} (h : Db.sumI64 l = some s) : l.sum ≤ i64Max := by
  have hfold (l : List ℤ) (acc : ℤ) (hacc : acc ≤ i64Max)
      (h : l.foldlM (fun acc x : ℤ => if -2 ^ 63 ≤ acc + x ∧ acc + x ≤ i64Max then some (acc + x)
        else none) acc = some s) : acc + l.sum ≤ i64Max := by
    induction l generalizing acc with
    | nil => simpa using hacc
    | cons x l ih =>
      rw [List.foldlM_cons] at h
      split_ifs at h with hx
      · rw [List.sum_cons, ← add_assoc]
        exact ih (acc + x) hx.2 h
      · cases h
  have hsum := hfold l 0 (by decide) h
  rwa [zero_add] at hsum

/-- When a check of the sum refuses, it has seen the sum. -/
theorem of_sumPasses_eq_false (hs : db.StoreInv) {refused : ℕ → Bool}
    (h : sumPasses refused db = false) :
    db.totalSize ≤ i64Max ∧ refused db.totalSize.toNat = true := by
  unfold sumPasses Db.sumSize at h
  cases hsum : Db.sumI64 (db.inodes.entries.map fun e => e.2.size) with
  | none => simp [hsum] at h
  | some s =>
    have hle : db.totalSize ≤ i64Max := sum_le_of_sumI64 hsum
    refine ⟨hle, ?_⟩
    have heq := Db.sumSize_eq hs hle
    rw [Db.sumSize, hsum] at heq
    rw [hsum] at h
    rw [← Db.asU64_totalSize hs hle, ← Except.ok.inj heq]
    simpa using h

theorem stopsFor_checkCeiling (hs : db.StoreInv) {increase : ℕ} (hle : increase ≤ i64Max)
    (h : db.totalSize ≤ i64Max → m.maxSize < db.totalSize + increase → R .enospc) :
    StopsFor (Reason R) fs (checkCeiling m increase) db := by
  refine stopsFor_sumCheck fun hpasses => ?_
  obtain ⟨htotal, hrefused⟩ := of_sumPasses_eq_false hs hpasses
  have h₀ := Db.totalSize_nonneg hs
  have hmax : m.maxSize < addU64 db.totalSize.toNat increase := by simpa using hrefused
  refine h htotal ?_
  rw [i64Max] at htotal hle
  rw [addU64_of_lt (by omega)] at hmax
  omega

theorem stopsFor_checkGrowth (hs : db.StoreInv) {oldSize newSize : ℕ} (hnew : newSize ≤ i64Max)
    (h : m.maxSize ≠ 0 → oldSize < newSize → db.totalSize ≤ i64Max →
      m.maxSize < db.totalSize + (newSize - oldSize : ℕ) → R .enospc) :
    StopsFor (Reason R) fs (checkGrowth m oldSize newSize) db := by
  unfold checkGrowth
  split_ifs with hgrow
  · have hsub : subU64 newSize oldSize = newSize - oldSize :=
      subU64_of_le hgrow.2.le (hnew.trans_lt (by decide))
    rw [hsub]
    exact stopsFor_checkCeiling hs (by omega) (h hgrow.1 hgrow.2)
  · exact stopsFor_pure ()

theorem stopsFor_checkFull (hs : db.StoreInv)
    (h : m.maxSize ≠ 0 → db.totalSize ≤ i64Max → m.maxSize < db.totalSize + 1 → R .enospc) :
    StopsFor (Reason R) fs (checkFull m) db := by
  rw [checkFull_eq]
  split_ifs with hmax
  · refine stopsFor_sumCheck fun hpasses => ?_
    obtain ⟨htotal, hrefused⟩ := of_sumPasses_eq_false hs hpasses
    have h₀ := Db.totalSize_nonneg hs
    have hle : m.maxSize ≤ db.totalSize.toNat := by simpa using hrefused
    exact h hmax htotal (by omega)
  · exact stopsFor_pure ()

end Ceiling

/-! ## New inodes -/

section NewInode

variable {m : Mount} {R : Errno → Prop} {fs : ℕ → Option SqlError} {db db' : Db} {now : F64}
  {parent : Ino} {n : String} {kind : Kind} {mode : BitVec 64} {uid gid : UInt32}
  {target : Option String}

theorem runs_linkDentry {i : Ino} (hfree : db.childIno parent n = none) :
    (linkDentry parent n i now).Runs db (.ok ()) (db.addName now parent n i) := by
  have hins : Db.insertDentry parent n i db =
      .ok ((), { db with dentries := db.dentries.insert (parent, n) i }) := by
    rw [Db.insertDentry, AList.insertNew_eq_some_iff.2 ⟨hfree, rfl⟩]
  exact Runs.bind (runs_exec_ok hins) (runs_update _)

theorem runs_insertChild (hmax : db.nextIno ≤ i64Max) (hfree : db.childIno parent n = none) :
    (insertChild now parent n kind mode uid gid target).Runs db (.ok db.nextIno)
      (db.addChild now parent n (Db.newInode now kind mode uid gid target)) := by
  have hins : Db.insertInode (Db.newInode now kind mode uid gid target) db =
      .ok (db.nextIno, db.addInode (Db.newInode now kind mode uid gid target)) := by
    rw [Db.insertInode, if_pos hmax]
    rfl
  exact Runs.bind (runs_exec_ok hins) (Runs.bind (runs_linkDentry hfree) (runs_pure _))

theorem runs_insertChild_full (hmax : i64Max < db.nextIno) :
    (insertChild now parent n kind mode uid gid target).Runs db (.error .diskFull) db := by
  have hins : Db.insertInode (Db.newInode now kind mode uid gid target) db = .error .diskFull := by
    rw [Db.insertInode, if_neg (not_le.2 hmax)]
  exact (runs_exec_error hins).bind_error

theorem mem_addChild {r : Inode} : db.nextIno ∈ (db.addChild now parent n r).inodes := by
  rw [← Db.core_ne_none_iff, Db.core_addChild, Function.update_self]
  simp

theorem stopsFor_insertChild {f : SqlError → Errno} (hfree : db.childIno parent n = none)
    (h : i64Max < db.nextIno → R (f .diskFull)) (hfail : Failing fs → ∀ x, R (f x)) :
    StopsFor (Reason R) fs (orErrno f (insertChild now parent n kind mode uid gid target)) db := by
  rcases le_or_gt db.nextIno i64Max with hmax | hmax
  · exact stopsFor_orErrno_ok (runs_insertChild hmax hfree) hfail
  · refine stopsFor_orErrno (runs_insertChild_full hmax) (fun x hx => ?_) hfail
    cases hx
    exact h hmax

end NewInode

/-! ## Who is refused is told a reason -/

section Told

variable {m : Mount} {fs : ℕ → Option SqlError} {db : Db} {now : F64} {α β : Type} {req : Request}
  {parent newparent ino : Ino} {name newname : OsStr} {n : String}

theorem excuses_told : Excuses (Told m db fs req) fs where
  eio hfs := Or.inr ⟨hfs, Or.inl rfl⟩
  enospc hfs := Or.inr ⟨hfs, Or.inr (Or.inl rfl)⟩

theorem told_writable {k : Unit → Call α} (hwrites : req.writes = true)
    (h : StopsFor (Reason (Told m db fs req)) fs (k ()) db) :
    StopsFor (Reason (Told m db fs req)) fs (refuseIf m.readOnly .erofs >>= k) db :=
  stopsFor_guard (readOnly_refuseIf _ _)
    (stopsFor_refuseIf fun hro => Or.inl (.readOnly hro hwrites)) fun _ _ => h

theorem told_toStr {k : String → Call α} (hname : name ∈ req.texts)
    (h : ∀ n, name.toStr = some n → StopsFor (Reason (Told m db fs req)) fs (k n) db) :
    StopsFor (Reason (Told m db fs req)) fs (orRefuse name.toStr .einval >>= k) db :=
  stopsFor_guard (readOnly_orRefuse _ _)
    (stopsFor_orRefuse fun hnone => Or.inl (.notUtf8 hname hnone)) fun n hn =>
      h n (yields_orRefuse_ok.1 hn).1

theorem told_row {k : Db.InodeRow → Call α} (hsubject : req.subject = some ino)
    (h : ∀ row, db.rowByIno ino = some row →
      StopsFor (Reason (Told m db fs req)) fs (k row) db) :
    StopsFor (Reason (Told m db fs req)) fs
      (orEio (rowByIno ino) >>= fun o => orRefuse o .enoent >>= k) db := by
  refine stopsFor_guard (readOnly_orEio readOnly_rowByIno) (stopsFor_rowByIno excuses_told)
    fun o ho => ?_
  obtain rfl := (yields_rowByIno_ok.1 (yields_orEio_ok.1 ho)).1
  refine stopsFor_guard (readOnly_orRefuse _ _) (stopsFor_orRefuse fun hnone => ?_) fun row hrow =>
    h row (yields_orRefuse_ok.1 hrow).1
  refine Or.inl (.noInode hsubject fun hmem => ?_)
  obtain ⟨r, hr⟩ := AList.exists_lookup_of_mem hmem
  rw [Db.rowByIno, hr] at hnone
  cases hnone

theorem told_child {k : Ino → Call α} (hwanted : req.wanted = some (parent, name))
    (hn : name.toStr = some n)
    (h : ∀ i, db.childIno parent n = some i → StopsFor (Reason (Told m db fs req)) fs (k i) db) :
    StopsFor (Reason (Told m db fs req)) fs
      (orEio (childIno parent n) >>= fun o => orRefuse o .enoent >>= k) db := by
  refine stopsFor_guard (readOnly_orEio readOnly_childIno) (stopsFor_childIno excuses_told)
    fun o ho => ?_
  obtain rfl := (yields_childIno_ok.1 (yields_orEio_ok.1 ho)).1
  refine stopsFor_guard (readOnly_orRefuse _ _) (stopsFor_orRefuse fun hnone => ?_) fun i hi =>
    h i (yields_orRefuse_ok.1 hi).1
  refine Or.inl (.noName hwanted fun i hi => ?_)
  obtain ⟨n', hn', hi⟩ := hi
  obtain rfl := Option.some.inj (hn.symm.trans hn')
  rw [Db.childIno, hi] at hnone
  cases hnone

theorem told_free {k : Unit → Call α} (hadded : req.added = some (parent, name))
    (hn : name.toStr = some n)
    (h : db.childIno parent n = none → StopsFor (Reason (Told m db fs req)) fs (k ()) db) :
    StopsFor (Reason (Told m db fs req)) fs
      (orEio (childIno parent n) >>= fun o => refuseIf o.isSome .eexist >>= k) db := by
  refine stopsFor_guard (readOnly_orEio readOnly_childIno) (stopsFor_childIno excuses_told)
    fun o ho => ?_
  obtain rfl := (yields_childIno_ok.1 (yields_orEio_ok.1 ho)).1
  refine stopsFor_guard (readOnly_refuseIf _ _) (stopsFor_refuseIf fun hsome => ?_) fun _ hnone =>
    h (Option.not_isSome_iff_eq_none.1 (by simp [(yields_refuseIf_ok.1 hnone).1]))
  obtain ⟨i, hi⟩ := Option.isSome_iff_exists.1 hsome
  exact Or.inl (.taken hadded ⟨n, hn, hi⟩)

/-! ### lookup, getattr, readlink -/

theorem told_lookup (htree : db.TreeInv) :
    StopsFor (Reason (Told m db fs (.lookup parent name))) fs (lookup parent name) db := by
  refine told_toStr List.mem_cons_self fun n hn => told_child rfl hn fun i hi => ?_
  exact stopsFor_bind (stopsFor_readBack excuses_told (htree.child _ i hi)) fun _ _ _ =>
    stopsFor_pure _

theorem told_getattr : StopsFor (Reason (Told m db fs (.getattr ino))) fs (getattr ino) db :=
  told_row rfl fun _ _ => stopsFor_bind stopsFor_orPanic fun _ _ _ => stopsFor_pure _

theorem told_readlink : StopsFor (Reason (Told m db fs (.readlink ino))) fs (readlink ino) db :=
  told_row rfl fun _ _ => stopsFor_pure _

/-! ### mkdir, create, symlink -/

theorem told_mkdir {mode : BitVec 32} :
    StopsFor (Reason (Told m db fs (.mkdir parent name mode))) fs (mkdir m now parent name mode)
      db := by
  refine told_writable rfl (told_toStr List.mem_cons_self fun n hn => ?_)
  refine stopsFor_commit excuses_told ?_ (fun hfs _ => excuses_told.eio hfs) fun i db' hi => ?_
  · refine told_free rfl hn fun hfree => stopsFor_insertChild hfree (fun hmax => ?_) ?_
    · exact Or.inl (.noNumber hmax rfl)
    · exact fun hfs _ => excuses_told.eio hfs
  · obtain ⟨rfl, -, -, rfl⟩ := mkdirTx_ok hi
    exact mem_addChild

theorem told_create (hs : db.StoreInv) {mode : BitVec 32} :
    StopsFor (Reason (Told m db fs (.create parent name mode))) fs (create m now parent name mode)
      db := by
  refine told_writable rfl (told_toStr List.mem_cons_self fun n hn => ?_)
  refine stopsFor_commit excuses_told ?_ excuses_told.errnoFor fun i db' hi => ?_
  · refine told_free rfl hn fun hfree => ?_
    refine stopsFor_guard (readOnly_checkFull m) (stopsFor_checkFull hs ?_) fun _ _ => ?_
    · exact fun hmax htotal hfull => Or.inl (.full hmax htotal rfl hfull)
    · exact stopsFor_insertChild hfree (fun hmax => Or.inl (.noNumber hmax rfl))
        excuses_told.errnoFor
  · obtain ⟨rfl, -, -, rfl⟩ := createTx_ok hi
    exact mem_addChild

/-- A look for a name that is attempted answers, or something fails. -/
theorem attempt_childIno {db' : Db} {o : Except SqlError (Option Ino)} {k k' : ℕ}
    (h : (attempt (childIno parent n) : Call _).run fs k db = ⟨.ok o, k', db'⟩) :
    db' = db ∧ (o = .ok (db.childIno parent n) ∨ (∃ e, o = .error e) ∧ Failing fs) := by
  refine ⟨readOnly_attempt readOnly_childIno _ _ _ (.of_run h), ?_⟩
  cases hk : fs k with
  | none =>
    have hquery : (childIno parent n).run fs k db = ⟨.ok (db.childIno parent n), k + 1, db⟩ :=
      run_query_of_ok hk rfl
    rw [run_attempt, hquery] at h
    cases h
    exact Or.inl rfl
  | some e =>
    rw [run_attempt, childIno, run_query_of_failure hk] at h
    cases h
    exact Or.inr ⟨⟨e, rfl⟩, k, by simp [hk]⟩

/-- `symlink` goes on without the look for its name; then a taken name may be an error of the
insert. -/
theorem told_symlink (hs : db.StoreInv) {target : OsStr} :
    StopsFor (Reason (Told m db fs (.symlink parent name target))) fs
      (symlink m now parent name target) db := by
  have heio (hfs : Failing fs) (_ : SqlError) : Told m db fs (.symlink parent name target) .eio :=
    excuses_told.eio hfs
  refine told_writable rfl (told_toStr List.mem_cons_self fun n hn => ?_)
  refine told_toStr (List.mem_cons_of_mem _ List.mem_cons_self) fun t ht => ?_
  refine stopsFor_commit excuses_told ?_ heio fun i db' hi => ?_
  · refine stopsFor_bind_run stopsFor_attempt fun o db' k k' ho => ?_
    obtain ⟨rfl, hseen⟩ := attempt_childIno ho
    refine stopsFor_guard (readOnly_refuseIf _ _) (stopsFor_refuseIf fun hsome => ?_) fun _ hnone =>
      ?_
    · rcases hseen with rfl | ⟨⟨e, rfl⟩, -⟩
      · obtain ⟨i, hi⟩ := Option.isSome_iff_exists.1 hsome
        exact Or.inl (.taken rfl ⟨n, hn, hi⟩)
      · cases hsome
    · refine stopsFor_guard (readOnly_checkTarget m _) ?_ fun _ _ => ?_
      · unfold checkTarget
        split_ifs with hmax
        · refine stopsFor_checkCeiling hs (OsStr.utf8ByteSize_le ht) fun htotal hfull => ?_
          have hroom : Request.room db' (.symlink parent name target) = some t.utf8ByteSize := by
            rw [Request.room, Request.growth, ht]
          exact Or.inl (.full hmax htotal hroom hfull)
        · exact stopsFor_pure ()
      · rcases hseen with rfl | ⟨-, hfs⟩
        · have hfree := (yields_refuseIf_ok.1 hnone).1
          exact stopsFor_insertChild (by simpa using hfree)
            (fun hmax => Or.inl (.noNumber hmax rfl)) heio
        · exact stopsFor_failing hfs heio
  · obtain ⟨rfl, -, -, rfl⟩ := symlinkTx_ok hi
    exact mem_addChild

/-! ### link, unlink, rmdir -/

theorem told_link :
    StopsFor (Reason (Told m db fs (.link ino newparent newname))) fs
      (link m now ino newparent newname) db := by
  refine told_writable rfl (told_toStr List.mem_cons_self fun n hn => ?_)
  refine stopsFor_bind (stopsFor_inTransaction excuses_told ?_ fun hfs _ => excuses_told.eio hfs)
    fun _ _ _ => stopsFor_pure _
  refine told_row rfl fun row hrow => ?_
  obtain ⟨r, hr, rfl⟩ := Option.map_eq_some_iff.1 hrow
  refine stopsFor_guard (readOnly_refuseIf _ _) (stopsFor_refuseIf fun hdir => ?_) fun _ _ => ?_
  · exact Or.inl (.directory ⟨r, hr, by simpa [Db.mapRow] using hdir⟩)
  · refine told_free rfl hn fun hfree => ?_
    refine stopsFor_bind (stopsFor_orEio excuses_told (runs_linkDentry hfree)) fun _ db₁ h₁ => ?_
    refine stopsFor_bind (stopsFor_orEio excuses_told (runs_update _)) fun _ db₂ h₂ => ?_
    refine stopsFor_readBack excuses_told ?_
    obtain rfl := (linkDentry_ok (yields_orEio_ok.1 h₁)).2
    obtain rfl := yields_update_ok.1 (yields_orEio_ok.1 h₂)
    exact Db.mem_updateInode.2 (Db.mem_updateInode.2 (AList.mem_of_lookup_eq_some hr))

theorem told_unlink {x : Table (Ino × String) (List UInt8)} (hx : db.xattrs = some x) :
    StopsFor (Reason (Told m db fs (.unlink parent name))) fs (unlink m now parent name) db := by
  refine told_writable rfl (told_toStr List.mem_cons_self fun n hn => ?_)
  refine stopsFor_bind (stopsFor_inTransaction excuses_told ?_ fun hfs _ => excuses_told.eio hfs)
    fun _ _ _ => stopsFor_pure _
  exact told_child rfl hn fun i _ => stopsFor_orEio excuses_told (runs_unlinkDentry hx)

/-- Only a directory that is not empty stays. -/
theorem stopsFor_ensureRemovable {R : Errno → Prop} (hR : Excuses R fs) (hino : ino ∈ db.inodes)
    (h : db.IsDir ino → db.hasChildren ino = true → R .enotempty) :
    StopsFor (Reason R) fs (ensureRemovable ino) db := by
  obtain ⟨r, hr⟩ := AList.exists_lookup_of_mem hino
  have hkind : db.kindOf ino = .ok r.kind := by rw [Db.kindOf, hr]
  refine stopsFor_guard (readOnly_orEio (readOnly_query _))
    (stopsFor_orEio hR (runs_query_ok hkind)) fun kind hk => ?_
  obtain rfl := Except.ok.inj (hkind.symm.trans (yields_query_ok.1 (yields_orEio_ok.1 hk)).1)
  split_ifs with hdir
  · refine stopsFor_guard (readOnly_orEio (readOnly_query _))
      (stopsFor_orEio hR (runs_query_ok rfl)) fun nonempty hne => ?_
    obtain rfl := Except.ok.inj (yields_query_ok.1 (yields_orEio_ok.1 hne)).1
    exact stopsFor_refuseIf (h ⟨r, hr, hdir⟩)
  · exact stopsFor_pure ()

theorem told_rmdir (htree : db.TreeInv) {x : Table (Ino × String) (List UInt8)}
    (hx : db.xattrs = some x) :
    StopsFor (Reason (Told m db fs (.rmdir parent name))) fs (rmdir m now parent name) db := by
  refine told_writable rfl (told_toStr List.mem_cons_self fun n hn => ?_)
  refine stopsFor_bind (stopsFor_inTransaction excuses_told ?_ fun hfs _ => excuses_told.eio hfs)
    fun _ _ _ => stopsFor_pure _
  refine told_child rfl hn fun i hi => ?_
  refine stopsFor_guard (readOnly_refuseIf _ _) (stopsFor_refuseIf fun hroot => ?_) fun _ _ => ?_
  · -- the root has no name
    obtain rfl : i = rootIno := by simpa using hroot
    exact (htree.root_unnamed _ hi).elim
  · refine stopsFor_guard readOnly_ensureRemovable ?_ fun _ _ =>
      stopsFor_orEio excuses_told (runs_unlinkDentry hx)
    exact stopsFor_ensureRemovable excuses_told (htree.child _ i hi) fun hdir hchildren =>
      Or.inl (.notEmpty ⟨n, hn, hi⟩ hdir hchildren)

/-! ### rename -/

/-- The primary key refuses a name that is taken. -/
theorem stopsFor_renameDentry {R : Errno → Prop} (hR : Excuses R fs) {old new : Ino × String}
    (hold : db.dentries.lookup old = some ino)
    (h : old ≠ new → db.dentries.lookup new ≠ none → R .eio) :
    StopsFor (Reason R) fs (orEio (exec (Db.renameDentry old new))) db := by
  cases hrename : Db.renameDentry old new db with
  | ok res => exact stopsFor_orEio hR (runs_exec_ok hrename)
  | error x =>
    refine stopsFor_orErrno (runs_exec_error hrename) (fun _ _ => ?_) fun hfs _ => hR.eio hfs
    have hrefused (t : Table (Ino × String) Ino) : db.dentries.rekey old new ≠ some t := by
      intro ht
      rw [Db.renameDentry, ht] at hrename
      cases hrename
    have hne : old ≠ new := fun heq =>
      hrefused _ ((AList.rekey_eq_some_iff hold).2 (Or.inl ⟨heq, rfl⟩))
    exact h hne fun hfree =>
      hrefused _ ((AList.rekey_eq_some_iff hold).2 (Or.inr ⟨hne, hfree, rfl⟩))

theorem told_rename (htree : db.TreeInv) {x : Table (Ino × String) (List UInt8)}
    (hx : db.xattrs = some x) {flags : RenameFlags} :
    StopsFor (Reason (Told m db fs (.rename parent name newparent newname flags))) fs
      (rename m now parent name newparent newname flags) db := by
  have hR := @excuses_told m fs db (.rename parent name newparent newname flags)
  refine told_writable rfl (told_toStr List.mem_cons_self fun n hn => ?_)
  refine told_toStr (List.mem_cons_of_mem _ List.mem_cons_self) fun n' hn' => ?_
  refine stopsFor_bind (stopsFor_inTransaction hR ?_ fun hfs _ => hR.eio hfs)
    fun _ _ _ => stopsFor_pure _
  refine told_child rfl hn fun i hi => ?_
  refine stopsFor_guard (readOnly_orEio readOnly_childIno) (stopsFor_childIno hR)
    fun target ht => ?_
  obtain rfl := (yields_childIno_ok.1 (yields_orEio_ok.1 ht)).1
  refine stopsFor_guard (readOnly_refuseIf _ _) (stopsFor_refuseIf fun hflags => ?_) fun _ _ => ?_
  · exact Or.inl (.flags (by simpa using hflags))
  refine stopsFor_guard (readOnly_refuseIf _ _) (stopsFor_refuseIf fun htaken => ?_) fun _ _ => ?_
  · obtain ⟨hnoreplace, hsome⟩ := Bool.and_eq_true_iff.1 htaken
    obtain ⟨j, hj⟩ := Option.isSome_iff_exists.1 hsome
    exact Or.inl (.taken (by rw [Request.added, if_pos hnoreplace]) ⟨n', hn', hj⟩)
  have htouch (db₂ : Db) : StopsFor (Reason (Told m db fs
      (.rename parent name newparent newname flags))) fs
      (orEio (update fun db => (db.touch now parent).touch now newparent)) db₂ :=
    stopsFor_orEio hR (runs_update _)
  cases hj : db.childIno newparent n' with
  | none =>
    refine stopsFor_bind (stopsFor_pure ()) fun _ db₁ h₁ => ?_
    obtain ⟨-, rfl⟩ := yields_pure.1 h₁
    exact stopsFor_bind (stopsFor_renameDentry hR hi fun _ htaken => (htaken hj).elim)
      fun _ db₂ _ => htouch db₂
  | some j =>
    by_cases hne : j = i
    · subst hne
      rw [replaceTarget, if_neg (not_not.2 rfl)]
      refine stopsFor_bind (stopsFor_pure ()) fun _ db₁ h₁ => ?_
      obtain ⟨-, rfl⟩ := yields_pure.1 h₁
      refine stopsFor_bind (stopsFor_renameDentry hR hi fun hkey _ => ?_) fun _ db₂ _ => htouch db₂
      exact Or.inl (.sameInode hn hn' hkey ⟨n, hn, hi⟩ ⟨n', hn', hj⟩)
    · rw [replaceTarget, if_pos hne]
      refine stopsFor_bind ?_ fun _ db₁ h₁ => ?_
      · refine stopsFor_guard readOnly_ensureRemovable ?_ fun _ _ =>
          stopsFor_orEio hR (runs_unlinkDentry hx)
        exact stopsFor_ensureRemovable hR (htree.child _ j hj) fun hdir hchildren =>
          Or.inl (.targetNotEmpty ⟨n, hn, hi⟩ ⟨n', hn', hj⟩ hne hdir hchildren)
      · obtain ⟨_, -, h₁⟩ := h₁.after readOnly_ensureRemovable
        obtain rfl := unlinkDentry_ok (yields_orEio_ok.1 h₁)
        exact stopsFor_bind (stopsFor_renameDentry hR (Db.dropName_lookup_other hi hj hne)
          fun _ htaken => (htaken (Db.dropName_lookup_self ..)).elim) fun _ db₂ _ => htouch db₂

/-! ### open, read, readdir, statfs -/

theorem told_open {flags : BitVec 32} :
    StopsFor (Reason (Told m db fs (.open ino flags))) fs («open» m ino flags) db := by
  refine stopsFor_guard (readOnly_refuseIf _ _) (stopsFor_refuseIf fun hro => ?_) fun _ _ =>
    stopsFor_pure _
  obtain ⟨hro, hwrites⟩ := Bool.and_eq_true_iff.1 hro
  exact Or.inl (.readOnly hro hwrites)

theorem stopsFor_readLoop {R : Halt → Prop} (stop pos : ℕ) (out : List UInt8) :
    StopsFor R fs (readLoop ino stop pos out) db := by
  fun_induction readLoop ino stop pos out with
  | case1 pos out hlt ih =>
    refine stopsFor_guard (readOnly_blockOrDefault _ _) ?_ fun block _ => ih block
    exact stopsFor_bind stopsFor_attempt fun _ _ _ => stopsFor_pure _
  | case2 pos out hlt => exact stopsFor_pure _

theorem told_read {offset : UInt64} {size : UInt32} :
    StopsFor (Reason (Told m db fs (.read ino offset size))) fs
      (read ino offset.toNat size.toNat) db := by
  refine told_row rfl fun row _ => ?_
  split_ifs
  · exact stopsFor_pure _
  · exact stopsFor_bind (stopsFor_readLoop _ _ _) fun _ _ _ => stopsFor_pure _

theorem stopsFor_fetchRows {R : Halt → Prop} (rows : List Db.ListedName) :
    StopsFor R fs (fetchRows rows) db := by
  induction rows with
  | nil => exact stopsFor_pure _
  | cons r rest ih =>
    refine stopsFor_guard (readOnly_attempt (readOnly_query _)) stopsFor_attempt fun row _ => ?_
    split
    · exact stopsFor_guard (readOnly_fetchRows _) ih fun _ _ => stopsFor_pure _
    · exact ih
    · exact stopsFor_pure _

theorem told_readdir (htree : db.TreeInv) {offset room : ℕ} :
    StopsFor (Reason (Told m db fs (.readdir ino offset room))) fs (readdir ino offset room)
      db := by
  refine stopsFor_guard (readOnly_parentIno ino) ?_ fun parent _ => ?_
  · unfold parentIno
    split_ifs with hroot
    · exact stopsFor_pure _
    · have hfail (hfs : Failing fs) (_ : SqlError) :
          Told m db fs (.readdir ino offset room) .enoent :=
        Or.inr ⟨hfs, Or.inr (Or.inr ⟨⟨ino, offset, room, rfl⟩, rfl⟩)⟩
      cases hparent : db.parentOf ino with
      | ok parent => exact stopsFor_orErrno_ok (runs_query_ok hparent) hfail
      | error x =>
        refine stopsFor_orErrno (runs_query_error hparent) (fun _ _ => ?_) hfail
        -- every inode but the root has a name
        refine Or.inl (.noInode rfl fun hmem => ?_)
        obtain ⟨k, hk⟩ := htree.named ino hmem hroot
        unfold Db.parentOf at hparent
        split at hparent
        · cases hparent
        · rename_i hnone
          have hne := List.find?_eq_none.1 hnone ⟨k, ino⟩ (AList.mem_entries_iff.2 hk)
          simp at hne
  · refine stopsFor_bind (stopsFor_orEio excuses_told (runs_query_ok rfl)) fun rows db₁ _ => ?_
    exact stopsFor_bind (stopsFor_fetchRows rows) fun _ _ _ => stopsFor_pure _

theorem stopsFor_statfs {R : Halt → Prop} : StopsFor R fs (statfs m) db := by
  refine stopsFor_bind stopsFor_attempt fun used db₁ _ => ?_
  dsimp only
  split_ifs
  · exact stopsFor_pure _
  · cases m.hostStatvfs <;> exact stopsFor_pure _

/-! ### write, setattr -/

theorem stopsFor_writeLoop {R : Errno → Prop} (hR : Excuses R fs) {pos : ℕ} {data : List UInt8} :
    StopsFor (Reason R) fs (writeLoop ino pos data) db := by
  fun_induction Db.writeBlocks ino pos data db with
  | case1 pos db =>
    rw [writeLoop, if_pos rfl]
    exact stopsFor_pure ()
  | case2 pos data db hdata ih =>
    rw [writeLoop, if_neg hdata]
    refine stopsFor_guard (readOnly_orEio (readOnly_query _))
      (stopsFor_orEio hR (runs_query_ok rfl)) fun buf hbuf => ?_
    obtain rfl := Except.ok.inj (yields_query_ok.1 (yields_orEio_ok.1 hbuf)).1
    refine stopsFor_bind (stopsFor_orErrno_ok (runs_update _) hR.errnoFor) fun _ db₁ h₁ => ?_
    obtain rfl := yields_update_ok.1 (yields_orErrno_ok.1 h₁)
    exact ih

/-- The bytes a file grows by have to fit under the ceiling. -/
theorem told_growth (hs : db.StoreInv) {row : Db.InodeRow} (hrow : db.rowByIno ino = some row)
    {newSize : ℕ} (hnew : newSize ≤ maxFileSize)
    (hroom : ∀ kind size, db.core ino = some (kind, size) → size.toNat < newSize →
      req.room db = some (newSize - size.toNat)) :
    StopsFor (Reason (Told m db fs req)) fs (checkGrowth m row.size newSize) db := by
  obtain ⟨size, hi, hsize⟩ := Db.core_of_rowByIno hrow
  rw [hsize, hs.asU64_size hi]
  exact stopsFor_checkGrowth hs hnew fun hmax hlt htotal hfull =>
    Or.inl (.full hmax htotal (hroom _ _ hi hlt) hfull)

theorem told_write (hs : db.StoreInv) {x : Table (Ino × String) (List UInt8)}
    (hx : db.xattrs = some x) {offset : ℕ} {data : List UInt8} {kill : Bool} :
    StopsFor (Reason (Told m db fs (.write ino offset data kill))) fs
      (write m now ino offset data kill) db := by
  have hR := @excuses_told m fs db (.write ino offset data kill)
  refine told_writable rfl ?_
  refine stopsFor_guard (readOnly_refuseIf _ _) (stopsFor_refuseIf fun hlarge => ?_)
    fun _ hfits => ?_
  · refine Or.inl (.tooLarge (?_ : maxFileSize < offset + data.length))
    by_contra hmax
    rw [efbig_eq_false (not_lt.1 hmax)] at hlarge
    cases hlarge
  have hmax : offset + data.length ≤ maxFileSize := by
    by_contra hmax
    rw [efbig_eq_true hmax] at hfits
    cases (yields_refuseIf_ok.1 hfits).1
  refine stopsFor_bind (stopsFor_inTransaction hR ?_ hR.errnoFor) fun _ _ _ => stopsFor_pure _
  refine told_row rfl fun row hrow => ?_
  rw [addU64_of_lt (hmax.trans_lt (by decide))]
  refine stopsFor_guard (readOnly_checkGrowth m _ _) (told_growth hs hrow hmax ?_) fun _ _ => ?_
  · intro kind size hi hlt
    have hgrowth : Request.growth db (.write ino offset data kill) =
        offset + data.length - size.toNat := by
      rw [Request.growth, hi]
    rw [Request.room, hgrowth, if_neg (by omega)]
    all_goals simp
  · refine stopsFor_bind (stopsFor_writeLoop hR) fun _ db₁ h₁ => ?_
    refine stopsFor_bind (stopsFor_orErrno_ok (runs_update _) hR.errnoFor) fun _ db₂ h₂ => ?_
    obtain rfl := writeLoop_ok h₁
    obtain rfl := yields_update_ok.1 (yields_orErrno_ok.1 h₂)
    have hc : Db.Concerns ino db (db.writeBlocks ino offset data) := Db.Concerns.writeBlocks
    have hsome := hc.isSome_xattrs
    rw [hx] at hsome
    obtain ⟨y, hy⟩ := Option.isSome_iff_exists.1 hsome
    split_ifs
    · exact stopsFor_orErrno_ok (runs_killPriv (x := y) hy) hR.errnoFor
    · exact stopsFor_pure ()

/-- The size in a `setattr` is refused for a reason. -/
theorem refused_of_sizeRefusal (hs : db.StoreInv) {caller : UInt32} {a : SetAttr}
    {row : Db.InodeRow} {e : Errno} (hrow : db.rowByIno ino = some row)
    (h : sizeRefusal m row a.size db = some e) : Refused m db (.setattr caller ino a) e := by
  cases hsize : a.size with
  | none =>
    rw [hsize] at h
    cases h
  | some newLen =>
    rw [hsize, sizeRefusal] at h
    split_ifs at h with hmax hfits
    · cases h
      exact .tooLarge ⟨newLen, hsize, hmax⟩
    · cases h
      have hcheck := @runs_checkGrowth m db row.size newLen
      rw [if_neg hfits] at hcheck
      obtain ⟨k, hrun⟩ := hcheck 0
      have htold : Told m db noFailure (.setattr caller ino a) .enospc := by
        refine told_growth hs hrow (not_lt.1 hmax) (fun kind size hi hlt => ?_) 0 k db _ hrun
        have hgrowth : Request.growth db (.setattr caller ino a) = newLen - size.toNat := by
          rw [Request.growth, hsize, hi]
        rw [Request.room, hgrowth, if_neg (by omega)]
        all_goals simp
      exact htold.resolve_right fun hfail => hfail.1.elim fun n hn => hn rfl

/-- When something fails, only the file size limit needs a reason. -/
theorem stopsFor_setattrTx_failing (hfs : Failing fs) {caller : UInt32} {a : SetAttr} :
    StopsFor (Reason (Told m db fs (.setattr caller ino a))) fs (setattrTx m now caller ino a)
      db := by
  have hR := @excuses_told m fs db (.setattr caller ino a)
  refine told_row rfl fun row _ => ?_
  refine stopsFor_bind stopsFor_succeeds fun _ _ _ => stopsFor_bind stopsFor_succeeds
    fun _ db₁ _ => ?_
  refine stopsFor_bind ?_ fun _ _ _ => stopsFor_bind stopsFor_succeeds fun _ _ _ =>
    stopsFor_bind stopsFor_succeeds fun _ _ _ => stopsFor_refuseIf fun _ => hR.eio hfs
  cases hsize : a.size with
  | none => exact stopsFor_pure _
  | some newLen =>
    refine stopsFor_bind (stopsFor_refuseIf fun hmax => ?_) fun _ db₂ _ => ?_
    · exact Or.inl (.tooLarge ⟨newLen, hsize, by simpa using hmax⟩)
    · refine stopsFor_bind ?_ fun _ _ _ => stopsFor_succeeds
      unfold checkGrowth
      split_ifs
      · exact stopsFor_sumCheck fun _ => hR.enospc hfs
      · exact stopsFor_pure ()

theorem told_setattr (hs : db.StoreInv) {x : Table (Ino × String) (List UInt8)}
    (hx : db.xattrs = some x) {caller : UInt32} {a : SetAttr} :
    StopsFor (Reason (Told m db fs (.setattr caller ino a))) fs (setattr m now caller ino a)
      db := by
  have hR := @excuses_told m fs db (.setattr caller ino a)
  refine told_writable rfl ?_
  refine stopsFor_commit (g := fun _ => ino) hR ?_ (fun hfs _ => hR.eio hfs) fun _ db' h => ?_
  · by_cases hfs : Failing fs
    · exact stopsFor_setattrTx_failing hfs
    cases hrow : db.rowByIno ino with
    | none =>
      have hrun : (setattrTx m now caller ino a).Runs db (.error (.error .enoent)) db :=
        Runs.bind runs_rowByIno (runs_orRefuse_none hrow).bind_error
      refine hrun.stopsFor (fun e he => ?_) fun hfail => (hfs hfail).elim
      cases he
      refine Or.inl (.noInode rfl fun hmem => ?_)
      obtain ⟨r, hr⟩ := AList.exists_lookup_of_mem hmem
      rw [Db.rowByIno, hr] at hrow
      cases hrow
    | some row =>
      cases hrefusal : sizeRefusal m row a.size db with
      | none =>
        refine (runs_setattrTx hx hrow hrefusal).stopsFor (fun e he => ?_) fun hfail =>
          (hfs hfail).elim
        cases he
      | some e =>
        refine (runs_setattrTx_refused hrow hrefusal).stopsFor (fun e he => ?_) fun hfail =>
          (hfs hfail).elim
        cases he
        exact Or.inl (refused_of_sizeRefusal hs hrow hrefusal)
  · obtain ⟨row, hrow, -, rfl⟩ := setattrTx_ok h
    obtain ⟨r, hr, -⟩ := Option.map_eq_some_iff.1 hrow
    exact Db.Concerns.apply.mem_inodes.2 (AList.mem_of_lookup_eq_some hr)

/-! ### Extended attributes -/

theorem xattr_eq {x : Table (Ino × String) (List UInt8)} (hx : db.xattrs = some x) (n : String) :
    db.xattr ino n = .ok (db.attr ino n) := by
  rw [Db.xattr, Db.attr, hx]
  rfl

theorem stopsFor_replyXattr {R : Errno → Prop} {size : ℕ} {bytes : List UInt8}
    (h : size ≠ 0 → size < bytes.length → R .erange) :
    StopsFor (Reason R) fs (replyXattr size bytes) db := by
  unfold replyXattr
  split_ifs with hsize hlong
  · exact stopsFor_pure _
  · exact stopsFor_stop (R := Reason R) (h hsize hlong)
  · exact stopsFor_pure _

theorem told_setxattr {x : Table (Ino × String) (List UInt8)} (hx : db.xattrs = some x)
    {value : List UInt8} {flags : XattrFlags} :
    StopsFor (Reason (Told m db fs (.setxattr ino name value flags))) fs
      (setxattr m now ino name value flags) db := by
  have hR := @excuses_told m fs db (.setxattr ino name value flags)
  refine told_writable rfl ?_
  refine stopsFor_guard (readOnly_refuseIf _ _) (stopsFor_refuseIf fun hno => ?_) fun _ _ => ?_
  · exact Or.inl (.noAttrs (by simpa using hno) rfl)
  refine told_toStr List.mem_cons_self fun n hn => ?_
  refine stopsFor_guard (readOnly_refuseIf _ _) (stopsFor_refuseIf fun hlen => ?_) fun _ _ => ?_
  · exact Or.inl (.attrName hn (by simpa using hlen))
  refine stopsFor_guard (readOnly_refuseIf _ _) (stopsFor_refuseIf fun hlen => ?_) fun _ _ => ?_
  · exact Or.inl (.attrValue (by simpa using hlen))
  refine stopsFor_bind (stopsFor_inTransaction hR ?_ fun hfs _ => hR.eio hfs) fun _ _ _ =>
    stopsFor_pure _
  refine told_row rfl fun row _ => ?_
  refine stopsFor_guard (readOnly_orEio (readOnly_query _))
    (stopsFor_orEio hR (runs_query_ok (xattr_eq hx n))) fun existing hex => ?_
  have hseen := (yields_query_ok.1 (yields_orEio_ok.1 hex)).1
  obtain rfl := Except.ok.inj ((xattr_eq hx n).symm.trans hseen)
  refine stopsFor_guard (readOnly_refuseIf _ _) (stopsFor_refuseIf fun htaken => ?_) fun _ _ => ?_
  · obtain ⟨hsome, hcreate⟩ := Bool.and_eq_true_iff.1 htaken
    exact Or.inl (.attrTaken hn hcreate (Option.isSome_iff_ne_none.1 hsome))
  refine stopsFor_guard (readOnly_refuseIf _ _) (stopsFor_refuseIf fun hmissing => ?_) fun _ _ => ?_
  · obtain ⟨hnone, hreplace⟩ := Bool.and_eq_true_iff.1 hmissing
    exact Or.inl (.noAttr (by rw [Request.wantedAttr, if_pos hreplace]) hn
      (Option.isNone_iff_eq_none.1 hnone))
  have hput : Db.putXattr ino n value db =
      .ok ((), { db with xattrs := some (x.insert (ino, n) value) }) := by
    rw [Db.putXattr, Db.onXattrs, hx]
  exact stopsFor_bind (stopsFor_orEio hR (runs_exec_ok hput)) fun _ _ _ =>
    stopsFor_orEio hR (runs_update _)

theorem told_getxattr {x : Table (Ino × String) (List UInt8)} (hx : db.xattrs = some x)
    {size : ℕ} :
    StopsFor (Reason (Told m db fs (.getxattr ino name size))) fs (getxattr m ino name size)
      db := by
  refine told_toStr List.mem_cons_self fun n hn => ?_
  refine stopsFor_guard (readOnly_refuseIf _ _) (stopsFor_refuseIf fun hno => ?_) fun _ _ => ?_
  · exact Or.inl (.noAttrs (by simpa using hno) rfl)
  refine stopsFor_guard (readOnly_orEio (readOnly_query _))
    (stopsFor_orEio excuses_told (runs_query_ok (xattr_eq hx n))) fun value hv => ?_
  have hseen := (yields_query_ok.1 (yields_orEio_ok.1 hv)).1
  obtain rfl := Except.ok.inj ((xattr_eq hx n).symm.trans hseen)
  refine stopsFor_guard (readOnly_orRefuse _ _) (stopsFor_orRefuse fun hnone => ?_) fun v hv => ?_
  · exact Or.inl (.noAttr rfl hn hnone)
  · exact stopsFor_replyXattr fun hsize hlong =>
      Or.inl (.valueBuffer hn (yields_orRefuse_ok.1 hv).1 hsize hlong)

theorem runs_fetchNames (names : List String) :
    (fetchNames names).Runs db (.ok (nulTerminated names)) db :=
  fun n => ⟨n + names.length, run_fetchNames (fun _ => rfl) names n⟩

/-- The names that are fetched are all of them. -/
theorem direct_fetchNames (names : List String) : (fetchNames names).Direct := by
  induction names with
  | nil => exact direct_pure _
  | cons n names ih =>
    exact direct_bind (direct_query _) fun _ => direct_bind ih fun _ => direct_pure _

theorem fetchNames_ok {names : List String} {out : List UInt8} {db' : Db}
    (h : (fetchNames names).Yields db (.ok out) db') : out = nulTerminated names :=
  Except.ok.inj ((direct_fetchNames names db out db' h).unique (runs_fetchNames names)).1

theorem told_listxattr {x : Table (Ino × String) (List UInt8)} (hx : db.xattrs = some x)
    {size : ℕ} :
    StopsFor (Reason (Told m db fs (.listxattr ino size))) fs (listxattr m ino size) db := by
  unfold listxattr
  split_ifs with hm
  · obtain ⟨names, hnames, -, -, -⟩ := @xattrNames_ok db ino x hx
    refine stopsFor_guard (readOnly_orEio (readOnly_query _))
      (stopsFor_orEio excuses_told (runs_query_ok hnames)) fun names' h => ?_
    have hseen := (yields_query_ok.1 (yields_orEio_ok.1 h)).1
    obtain rfl := Except.ok.inj (hnames.symm.trans hseen)
    refine stopsFor_guard (readOnly_orEio (readOnly_fetchNames _))
      (stopsFor_orEio excuses_told (runs_fetchNames names)) fun out hout => ?_
    obtain rfl := fetchNames_ok (yields_orEio_ok.1 hout)
    exact stopsFor_replyXattr fun hsize hlong => Or.inl (.listBuffer hm hnames hsize hlong)
  · exact stopsFor_replyXattr fun _ hlong => (Nat.not_lt_zero _ hlong).elim

theorem told_removexattr {x : Table (Ino × String) (List UInt8)} (hx : db.xattrs = some x) :
    StopsFor (Reason (Told m db fs (.removexattr ino name))) fs (removexattr m now ino name)
      db := by
  have hR := @excuses_told m fs db (.removexattr ino name)
  refine told_writable rfl (told_toStr List.mem_cons_self fun n hn => ?_)
  refine stopsFor_guard (readOnly_refuseIf _ _) (stopsFor_refuseIf fun hno => ?_) fun _ _ => ?_
  · exact Or.inl (.noAttrs (by simpa using hno) rfl)
  refine stopsFor_bind (stopsFor_inTransaction hR ?_ fun hfs _ => hR.eio hfs) fun _ _ _ =>
    stopsFor_pure _
  have hdelete : Db.deleteXattr ino n db = .ok (if (ino, n) ∈ x then 1 else 0,
      { db with xattrs := some (x.erase (ino, n)) }) := by
    rw [Db.deleteXattr, Db.onXattrs, hx]
  refine stopsFor_bind (stopsFor_orEio hR (runs_exec_ok hdelete)) fun removed db₁ h₁ => ?_
  have hremoved := hdelete.symm.trans (yields_exec_ok.1 (yields_orEio_ok.1 h₁))
  refine stopsFor_bind (stopsFor_refuseIf fun hzero => ?_) fun _ _ _ =>
    stopsFor_orEio hR (runs_update _)
  cases hremoved
  refine Or.inl (.noAttr rfl hn ?_)
  rw [Db.attr, hx]
  exact AList.lookup_eq_none.2 (by simpa using hzero)

end Told

variable {db : Db} {env : Env} {req : Request} {e : Errno}

theorem told_of_refused (hdb : Reachable db) (h : (step env req db).1 = .error (.error e)) :
    Told env.mount db env.fails req e := by
  have htree := hdb.treeInv
  have hs := hdb.storeInv
  obtain ⟨x, hx⟩ := hdb.exists_xattrs
  have htold : StopsFor (Reason (Told env.mount db env.fails req)) env.fails
      (handle env.mount env.now req) db := by
    cases req with
    | lookup parent name => exact told_lookup htree
    | getattr ino => exact told_getattr
    | readlink ino => exact told_readlink
    | setattr caller ino attrs => exact told_setattr hs hx
    | mkdir parent name mode => exact told_mkdir
    | create parent name mode => exact told_create hs
    | symlink parent linkName target => exact told_symlink hs
    | link ino newparent newname => exact told_link
    | unlink parent name => exact told_unlink hx
    | rmdir parent name => exact told_rmdir htree hx
    | rename parent name newparent newname flags => exact told_rename htree hx
    | «open» ino flags => exact told_open
    | read fh offset size => exact told_read
    | write fh offset data kill => exact told_write hs hx
    | readdir ino offset room => exact told_readdir htree
    | statfs => exact stopsFor_statfs
    | setxattr ino name value flags => exact told_setxattr hx
    | getxattr ino name size => exact told_getxattr hx
    | listxattr ino size => exact told_listxattr hx
    | removexattr ino name => exact told_removexattr hx
    | flush | fsync | release | opendir | access => exact stopsFor_pure _
  rcases hrun : (handle env.mount env.now req).run env.fails 0 db with ⟨r, n', db'⟩
  have hr : (step env req db).1 = r := by rw [step, hrun]
  rw [h] at hr
  subst hr
  exact htold 0 n' db' _ hrun

/-- **Who is refused is told a reason**, or one of the statements that were executed has failed and
the errno stands for that. -/
theorem refused_reason (hdb : Reachable db) (h : (step env req db).1 = .error (.error e)) :
    Refused env.mount db req e ∨ env.Hits req db ∧ Excused req e := by
  rw [← step_met] at h
  rcases told_of_refused hdb h with hrefused | ⟨hfails, hexcused⟩
  · exact Or.inl hrefused
  · exact Or.inr ⟨failing_met.1 hfails, hexcused⟩

theorem refused_reason_taken :
    Refused .plain .oneFile (.create rootIno nameA 0o644) .eexist := by
  have hreply : (step (.quiet .plain 0) (.create rootIno nameA 0o644) .oneFile).1 =
      .error (.error .eexist) := by
    decide +kernel
  refine (refused_reason reachable_oneFile hreply).resolve_right ?_
  rintro ⟨⟨k, -, hk⟩, -⟩
  exact hk rfl

end CofferFS
