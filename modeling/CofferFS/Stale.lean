import CofferFS.Tree
import CofferFS.Xattrs

/-!
# Requests about inodes that are gone

The kernel may send a request with the number of an inode that was deleted: an old handle, or an
inode it still knows. `stale_harmless` says that such a request changes no other inode, and that
its reply is the same whatever else the container holds.
-/

namespace CofferFS

open Script

/-- The inode numbers and handles in a request. -/
def Request.numbers : Request → List Ino
  | .lookup parent _ => [parent]
  | .getattr ino => [ino]
  | .readlink ino => [ino]
  | .setattr _ ino _ => [ino]
  | .mkdir parent _ _ => [parent]
  | .create parent _ _ => [parent]
  | .symlink parent _ _ => [parent]
  | .link ino newparent _ => [ino, newparent]
  | .unlink parent _ => [parent]
  | .rmdir parent _ => [parent]
  | .rename parent _ newparent _ _ => [parent, newparent]
  | .open ino _ => [ino]
  | .read fh _ _ => [fh]
  | .write fh _ _ _ => [fh]
  | .flush fh => [fh]
  | .fsync fh => [fh]
  | .release fh => [fh]
  | .opendir ino => [ino]
  | .readdir ino _ _ => [ino]
  | .statfs => []
  | .setxattr ino _ _ _ => [ino]
  | .getxattr ino _ _ => [ino]
  | .listxattr ino _ => [ino]
  | .removexattr ino _ => [ino]
  | .access ino => [ino]

namespace Db

/-- No inode has the number `j`, no name denotes it and none is in it. -/
structure Vacant (db : Db) (j : Ino) : Prop where
  row : db.inodes.lookup j = none
  unnamed : ∀ k, db.dentries.lookup k ≠ some j
  empty : ∀ n, db.dentries.lookup (j, n) = none

/-- The two containers hold the same extended attributes under the number `j`. -/
structure SameAttrs (j : Ino) (db other : Db) : Prop where
  table : db.xattrs.isSome = other.xattrs.isSome
  attr : ∀ n, db.attr j n = other.attr j n

variable {db other : Db} {j : Ino}

theorem vacant_of_wellFormed (h : db.tree.WellFormed rootIno) (hj : j ∉ db.inodes) :
    db.Vacant j := by
  have hnode : db.tree.node j = none := by
    by_contra hne
    exact hj (node_ne_none_iff.1 hne)
  refine ⟨AList.lookup_eq_none.2 hj, h.unnamed_of_fresh hnode, fun n => ?_⟩
  by_contra hne
  obtain ⟨i, hi⟩ := Option.ne_none_iff_exists'.1 hne
  have hdir := h.dir_of_entry (j, n) i hi
  rw [hnode] at hdir
  cases hdir

theorem Vacant.rowByIno (h : db.Vacant j) : db.rowByIno j = none := by
  rw [Db.rowByIno, h.row]
  rfl

theorem Vacant.parentOf (h : db.Vacant j) : db.parentOf j = .error .other := by
  have hnone : db.dentries.entries.find? (fun e => e.2 = j) = none := by
    refine List.find?_eq_none.2 fun e he => ?_
    have hne := h.unnamed e.1
    rw [AList.mem_entries_iff.1 he] at hne
    simpa using hne
  rw [Db.parentOf, hnone]

theorem SameAttrs.cases (h : SameAttrs j db other) :
    (db.xattrs = none ∧ other.xattrs = none) ∨
      ∃ x y, db.xattrs = some x ∧ other.xattrs = some y := by
  have htable := h.table
  cases hx : db.xattrs with
  | none =>
    rw [hx] at htable
    exact Or.inl ⟨rfl, Option.isNone_iff_eq_none.1 (by simpa using htable)⟩
  | some x =>
    rw [hx] at htable
    obtain ⟨y, hy⟩ := Option.isSome_iff_exists.1 htable.symm
    exact Or.inr ⟨x, y, rfl, hy⟩

theorem SameAttrs.lookup (h : SameAttrs j db other) {x y : Table (Ino × String) (List UInt8)}
    (hx : db.xattrs = some x) (hy : other.xattrs = some y) (n : String) :
    x.lookup (j, n) = y.lookup (j, n) := by
  have hattr := h.attr n
  rwa [Db.attr, Db.attr, hx, hy] at hattr

theorem SameAttrs.xattr (h : SameAttrs j db other) (n : String) :
    db.xattr j n = other.xattr j n := by
  rcases h.cases with ⟨hx, hy⟩ | ⟨x, y, hx, hy⟩
  · rw [Db.xattr, Db.xattr, hx, hy]
  · rw [Db.xattr, Db.xattr, hx, hy]
    exact congrArg Except.ok (h.lookup hx hy n)

/-- The names are sorted, so the list depends on the attributes only. -/
theorem SameAttrs.xattrNames (h : SameAttrs j db other) :
    db.xattrNames j = other.xattrNames j := by
  rcases h.cases with ⟨hx, hy⟩ | ⟨x, y, hx, hy⟩
  · rw [Db.xattrNames, Db.xattrNames, hx, hy]
  · obtain ⟨names, hnames, hsorted, hnodup, hmem⟩ := @xattrNames_ok db j x hx
    obtain ⟨names', hnames', hsorted', hnodup', hmem'⟩ := @xattrNames_ok other j y hy
    have hperm : names.Perm names' := by
      refine (List.perm_ext_iff_of_nodup hnodup hnodup').2 fun n => ?_
      rw [hmem, hmem', h.attr]
    rw [hnames, hnames', hperm.eq_of_pairwise' hsorted hsorted']

/-- Deleting an attribute finds the same number of rows. -/
theorem SameAttrs.deleteXattr (h : SameAttrs j db other) (n : String) :
    (db.deleteXattr j n).map Prod.fst = (other.deleteXattr j n).map Prod.fst := by
  rcases h.cases with ⟨hx, hy⟩ | ⟨x, y, hx, hy⟩
  · unfold Db.deleteXattr Db.onXattrs
    rw [hx, hy]
  · have hmem : (j, n) ∈ x ↔ (j, n) ∈ y := by
      rw [← AList.lookup_isSome, ← AList.lookup_isSome, h.lookup hx hy]
    unfold Db.deleteXattr Db.onXattrs
    rw [hx, hy]
    simp [Except.map, hmem]

/-- Nothing is listed under a number that is gone. -/
theorem Vacant.listing (h : db.Vacant j) : db.listing j = [] := by
  have hnone : (db.dentries.entries.filterMap fun e =>
      if e.1.1 = j then (db.inodes.lookup e.2).map fun r => (⟨e.2, e.1.2, r.kind⟩ : ListedName)
      else none) = [] := by
    refine List.filterMap_eq_nil_iff.2 fun e he => if_neg fun hj => ?_
    have hlookup := AList.mem_entries_iff.1 he
    rw [show e.1 = (j, e.1.2) from Prod.ext hj rfl, h.empty] at hlookup
    cases hlookup
  rw [Db.listing, hnone]
  rfl

end Db

/-- The requests that the kernel may send with the number of an inode that is gone: those that name
an inode, and not the directory to change. -/
inductive Stale (j : Ino) : Request → Prop
  | lookup {name : OsStr} : Stale j (.lookup j name)
  | getattr : Stale j (.getattr j)
  | readlink : Stale j (.readlink j)
  | setattr {caller : UInt32} {a : SetAttr} : Stale j (.setattr caller j a)
  | link {newparent : Ino} {newname : OsStr} : Stale j (.link j newparent newname)
  | «open» {flags : BitVec 32} : Stale j (.open j flags)
  | read {offset : UInt64} {size : UInt32} : Stale j (.read j offset size)
  | write {offset : ℕ} {data : List UInt8} {kill : Bool} : Stale j (.write j offset data kill)
  | flush : Stale j (.flush j)
  | fsync : Stale j (.fsync j)
  | release : Stale j (.release j)
  | opendir : Stale j (.opendir j)
  | readdir {offset room : ℕ} : Stale j (.readdir j offset room)
  | setxattr {name : OsStr} {value : List UInt8} {flags : XattrFlags} :
      Stale j (.setxattr j name value flags)
  | getxattr {name : OsStr} {size : ℕ} : Stale j (.getxattr j name size)
  | listxattr {size : ℕ} : Stale j (.listxattr j size)
  | removexattr {name : OsStr} : Stale j (.removexattr j name)
  | access : Stale j (.access j)

theorem Db.Vacant.stale {db : Db} {j : Ino} {req : Request} (h : db.Vacant j)
    (hok : KernelOk db req) (hj : j ∈ req.numbers) : Stale j req := by
  have hdir {p : Ino} (hp : db.IsDir p) : j ≠ p := by
    rintro rfl
    obtain ⟨r, hr, -⟩ := hp
    rw [h.row] at hr
    cases hr
  cases req with
  | mkdir parent name mode => exact (hdir hok (List.mem_singleton.1 hj)).elim
  | create parent name mode => exact (hdir hok (List.mem_singleton.1 hj)).elim
  | symlink parent linkName target => exact (hdir hok (List.mem_singleton.1 hj)).elim
  | unlink parent name => exact (hdir hok.1 (List.mem_singleton.1 hj)).elim
  | rmdir parent name => exact (hdir hok.1 (List.mem_singleton.1 hj)).elim
  | rename parent name newparent newname flags =>
    rcases List.mem_pair.1 hj with hj | hj
    · exact (hdir hok.1 hj).elim
    · exact (hdir hok.2.1 hj).elim
  | link ino newparent newname =>
    rcases List.mem_pair.1 hj with rfl | hj
    · exact .link
    · exact (hdir hok hj).elim
  | statfs => cases hj
  | _ =>
    obtain rfl := List.mem_singleton.1 hj
    constructor

/-! ## Replies to stale requests -/

section Alike

variable {db other : Db} {j : Ino} {α β : Type}

theorem alike_refuseIf (c : Bool) (e : Errno) : (refuseIf c e).Alike db other := by
  cases c with
  | false => exact alike_pure ()
  | true => exact alike_stop _

theorem alike_orRefuse (o : Option α) (e : Errno) : (orRefuse o e).Alike db other := by
  cases o with
  | none => exact alike_stop _
  | some a => exact alike_pure a

/-- What comes after a refusal does not matter. -/
theorem alike_refuse_bind {e : Errno} {k : α → Call β} :
    ((refuse e : Call α) >>= k).Alike db other :=
  (alike_stop _).bind fun _ _ _ h => by cases (yields_stop.1 h).1

theorem alike_replyXattr (size : ℕ) (data : List UInt8) :
    (replyXattr size data).Alike db other := by
  unfold replyXattr
  split_ifs
  · exact alike_pure _
  · exact alike_stop _
  · exact alike_pure _

theorem alike_fetchNames (names : List String) : (fetchNames names).Alike db other := by
  induction names with
  | nil => exact alike_pure _
  | cons name rest ih =>
    refine Alike.bind_reading (alike_query (f := fun _ => .ok name) rfl) (readOnly_query _)
      fun _ _ => ?_
    exact ih.bind_reading (readOnly_fetchNames rest) fun _ _ => alike_pure _

/-- A script that starts with the row of an inode that is gone ends there. -/
theorem missing_row {k : Db.InodeRow → Call α} (h : db.Vacant j) (h' : other.Vacant j) :
    (orEio (rowByIno j) >>= fun row => orRefuse row .enoent >>= k).Alike db other := by
  refine Alike.bind_reading (alike_query ?_).mapError (readOnly_orEio readOnly_rowByIno)
    fun row hrow => ?_
  · rw [h.rowByIno, h'.rowByIno]
  · obtain rfl : row = none :=
      (yields_rowByIno_ok.1 (yields_orEio_ok.1 hrow)).1.trans h.rowByIno
    exact alike_refuse_bind

/-- It has no result. -/
theorem not_yields_missing {k : Db.InodeRow → Call α} {a : α} {db' : Db} (h : db.Vacant j) :
    ¬ (orEio (rowByIno j) >>= fun row => orRefuse row .enoent >>= k).Yields db (.ok a) db' := by
  intro hy
  obtain ⟨row, hrow, hy⟩ := hy.after (readOnly_orEio readOnly_rowByIno)
  obtain ⟨r, hsome, -⟩ := hy.after (readOnly_orRefuse _ _)
  have hrow := (yields_rowByIno_ok.1 (yields_orEio_ok.1 hrow)).1
  rw [(yields_orRefuse_ok.1 hsome).1, h.rowByIno] at hrow
  cases hrow

variable {m : Mount} {now : F64} {name : OsStr} (h : db.Vacant j) (h' : other.Vacant j)

include h h'

theorem alike_lookup : (lookup j name).Alike db other := by
  refine (alike_orRefuse _ _).bind_reading (readOnly_orRefuse _ _) fun n _ => ?_
  have hchild : db.childIno j n = none := h.empty n
  have hchild' : other.childIno j n = none := h'.empty n
  refine Alike.bind_reading (alike_query ?_).mapError (readOnly_orEio readOnly_childIno)
    fun ino hino => ?_
  · rw [hchild, hchild']
  · obtain rfl : ino = none := (yields_childIno_ok.1 (yields_orEio_ok.1 hino)).1.trans hchild
    exact alike_refuse_bind

theorem alike_setattr {caller : UInt32} {a : SetAttr} :
    (setattr m now caller j a).Alike db other := by
  refine (alike_refuseIf _ _).bind_reading (readOnly_refuseIf _ _) fun _ _ => ?_
  refine (missing_row h h').transaction.bind fun u s t hs _ => ?_
  exact (not_yields_missing h hs.transaction_ok).elim

theorem alike_link {newparent : Ino} : (link m now j newparent name).Alike db other := by
  refine (alike_refuseIf _ _).bind_reading (readOnly_refuseIf _ _) fun _ _ => ?_
  refine (alike_orRefuse _ _).bind_reading (readOnly_orRefuse _ _) fun n _ => ?_
  refine (missing_row h h').transaction.bind fun u s t hs _ => ?_
  exact (not_yields_missing h hs.transaction_ok).elim

theorem alike_write {offset : ℕ} {data : List UInt8} {kill : Bool} :
    (write m now j offset data kill).Alike db other := by
  refine (alike_refuseIf _ _).bind_reading (readOnly_refuseIf _ _) fun _ _ => ?_
  refine (alike_refuseIf _ _).bind_reading (readOnly_refuseIf _ _) fun _ _ => ?_
  exact (missing_row h h').transaction.bind fun _ _ _ _ _ => alike_pure _

theorem alike_setxattr {value : List UInt8} {flags : XattrFlags} :
    (setxattr m now j name value flags).Alike db other := by
  refine (alike_refuseIf _ _).bind_reading (readOnly_refuseIf _ _) fun _ _ => ?_
  refine (alike_refuseIf _ _).bind_reading (readOnly_refuseIf _ _) fun _ _ => ?_
  refine (alike_orRefuse _ _).bind_reading (readOnly_orRefuse _ _) fun n _ => ?_
  refine (alike_refuseIf _ _).bind_reading (readOnly_refuseIf _ _) fun _ _ => ?_
  refine (alike_refuseIf _ _).bind_reading (readOnly_refuseIf _ _) fun _ _ => ?_
  exact (missing_row h h').transaction.bind fun _ _ _ _ _ => alike_pure _

/-- The listing has `.` and `..` only, or none for want of a parent. -/
theorem alike_readdir {offset room : ℕ} : (readdir j offset room).Alike db other := by
  have hparent : (parentIno j).Alike db other := by
    unfold parentIno
    split_ifs
    · exact alike_pure _
    · refine Alike.mapError (alike_query ?_)
      rw [h.parentOf, h'.parentOf]
  refine hparent.bind_reading (readOnly_parentIno j) fun p _ => ?_
  refine Alike.bind_reading (alike_query ?_).mapError (readOnly_orEio (readOnly_query _))
    fun listing hlisting => ?_
  · rw [h.listing, h'.listing]
  · obtain rfl : listing = [] :=
      (Except.ok.inj (yields_query_ok.1 (yields_orEio_ok.1 hlisting)).1).symm.trans h.listing
    exact (alike_pure _).bind_reading (readOnly_pure _) fun _ _ => alike_pure _

omit h h' in
theorem alike_getxattr (hattrs : db.SameAttrs j other) {size : ℕ} :
    (getxattr m j name size).Alike db other := by
  refine (alike_orRefuse _ _).bind_reading (readOnly_orRefuse _ _) fun n _ => ?_
  refine (alike_refuseIf _ _).bind_reading (readOnly_refuseIf _ _) fun _ _ => ?_
  refine Alike.bind_reading (alike_query (hattrs.xattr n)).mapError
    (readOnly_orEio (readOnly_query _)) fun value _ => ?_
  exact (alike_orRefuse _ _).bind_reading (readOnly_orRefuse _ _) fun _ _ => alike_replyXattr _ _

omit h h' in
theorem alike_listxattr (hattrs : db.SameAttrs j other) {size : ℕ} :
    (listxattr m j size).Alike db other := by
  unfold listxattr
  split_ifs
  · refine Alike.bind_reading (alike_query hattrs.xattrNames).mapError
      (readOnly_orEio (readOnly_query _)) fun names _ => ?_
    exact (alike_fetchNames names).mapError.bind_reading
      (readOnly_orEio (readOnly_fetchNames names)) fun _ _ => alike_replyXattr _ _
  · exact alike_replyXattr _ _

omit h h' in
theorem alike_removexattr (hattrs : db.SameAttrs j other) :
    (removexattr m now j name).Alike db other := by
  refine (alike_refuseIf _ _).bind_reading (readOnly_refuseIf _ _) fun _ _ => ?_
  refine (alike_orRefuse _ _).bind_reading (readOnly_orRefuse _ _) fun n _ => ?_
  refine (alike_refuseIf _ _).bind_reading (readOnly_refuseIf _ _) fun _ _ => ?_
  refine Alike.bind (Alike.transaction ?_) fun _ _ _ _ _ => alike_pure _
  refine Alike.bind (alike_exec (hattrs.deleteXattr n)).mapError fun removed s t _ _ => ?_
  refine (alike_refuseIf _ _).bind fun _ s t _ _ => ?_
  exact (alike_update _).mapError

/-- The reply to a stale request does not depend on what else the container holds, apart from the
attributes under this number. -/
theorem Stale.alike_handle (hattrs : db.SameAttrs j other) {req : Request} (hstale : Stale j req) :
    (handle m now req).Alike db other := by
  cases hstale with
  | lookup => exact alike_lookup h h'
  | getattr => exact missing_row h h'
  | readlink => exact missing_row h h'
  | setattr => exact alike_setattr h h'
  | link => exact alike_link h h'
  | «open» =>
    exact (alike_refuseIf _ _).bind_reading (readOnly_refuseIf _ _) fun _ _ => alike_pure _
  | read => exact missing_row h h'
  | write => exact alike_write h h'
  | readdir => exact alike_readdir h h'
  | setxattr => exact alike_setxattr h h'
  | getxattr => exact alike_getxattr hattrs
  | listxattr => exact alike_listxattr hattrs
  | removexattr => exact alike_removexattr hattrs
  | _ => exact alike_pure _

end Alike

/-! ## What stale requests change -/

section Kept

variable {db db' : Db} {m : Mount} {now : F64} {req : Request} {i j : Ino}

/-- Nothing that the request does not name is changed. -/
theorem Effect.own_of_stale (heffect : Effect m now req db db') (h : db.Vacant j)
    (hj : j ∈ req.numbers) (hi : i ∈ db.inodes) (hne : i ∉ req.numbers) :
    db'.own i = db.own i := by
  have hrow {row : Db.InodeRow} : db.rowByIno j ≠ some row := by
    rw [h.rowByIno]
    exact fun hsome => by cases hsome
  have hnew : i ≠ db.nextIno := (Db.lt_nextIno hi).ne
  have hnamed {n : String} {k : Ino} : db.childIno j n ≠ some k := by
    rw [show db.childIno j n = none from h.empty n]
    exact fun hsome => by cases hsome
  cases req with
  | setattr caller ino a =>
    obtain rfl := List.mem_singleton.1 hj
    obtain ⟨row, hsome, -⟩ := heffect
    exact (hrow hsome).elim
  | mkdir parent name mode =>
    obtain ⟨n, -, hfree, -, rfl⟩ := heffect
    rw [Db.own_addChild_of_ne hfree hnew, if_neg (List.mem_singleton.not.1 hne)]
  | create parent name mode =>
    obtain ⟨n, -, hfree, -, rfl⟩ := heffect
    rw [Db.own_addChild_of_ne hfree hnew, if_neg (List.mem_singleton.not.1 hne)]
  | symlink parent linkName target =>
    obtain ⟨t, -, n, -, hfree, -, rfl⟩ := heffect
    rw [Db.own_addChild_of_ne hfree hnew, if_neg (List.mem_singleton.not.1 hne)]
  | link ino newparent newname =>
    obtain ⟨n, -, -, hfree, rfl⟩ := heffect
    have hino : i ≠ ino := fun heq => hne (heq ▸ List.mem_cons_self)
    have hparent : i ≠ newparent :=
      fun heq => hne (heq ▸ List.mem_cons_of_mem _ (List.mem_singleton_self _))
    rw [Db.setCtime, Db.own_updateInode_of_ne hino, Db.addName, Db.own_touch, if_neg hparent,
      Db.own_insertDentry hfree, if_neg (Ne.symm hino), zero_add]
    rfl
  | unlink parent name =>
    obtain rfl := List.mem_singleton.1 hj
    obtain ⟨n, ino, -, hino, -⟩ := heffect
    exact (hnamed hino).elim
  | rmdir parent name =>
    obtain rfl := List.mem_singleton.1 hj
    obtain ⟨n, ino, -, hino, -⟩ := heffect
    exact (hnamed hino).elim
  | rename parent name newparent newname flags =>
    have hparent : i ≠ parent := fun heq => hne (heq ▸ List.mem_cons_self)
    have hnewparent : i ≠ newparent :=
      fun heq => hne (heq ▸ List.mem_cons_of_mem _ (List.mem_singleton_self _))
    have htouch (db : Db) :
        ((db.touch now parent).touch now newparent).own i = db.own i := by
      rw [Db.own_touch, if_neg hnewparent, Db.own_touch, if_neg hparent]
    cases heffect with
    | sameName => exact htouch db
    | freeName _ _ hino _ _ hfree => exact (htouch _).trans (Db.own_rekey hino hfree)
    | replaced _ _ hino _ _ _ hexisting =>
      rcases List.mem_pair.1 hj with rfl | rfl
      · exact (hnamed hino).elim
      · exact (hnamed hexisting).elim
  | write fh offset data kill =>
    obtain rfl := List.mem_singleton.1 hj
    obtain ⟨row, hsome, -⟩ := heffect
    exact (hrow hsome).elim
  | setxattr ino name value flags =>
    obtain rfl := List.mem_singleton.1 hj
    obtain ⟨n, x, -, -, -, -, hino, -⟩ := heffect
    exact (AList.lookup_eq_none.1 h.row hino).elim
  | removexattr ino name =>
    obtain ⟨n, x, -, hx, -, rfl⟩ := heffect
    exact Db.own_removexattr_of_ne hx (List.mem_singleton.not.1 hne)
  | _ =>
    obtain rfl : db' = db := heffect
    rfl

/-- Of the stale requests only `removexattr` finds something to change. -/
theorem Effect.cases_of_stale (heffect : Effect m now req db db') (h : db.Vacant j)
    (hstale : Stale j req) : db' = db ∨ ∃ n x, db.xattrs = some x ∧
      db' = { db with xattrs := some (x.erase (j, n)) }.setCtime now j := by
  cases hstale with
  | setattr =>
    obtain ⟨row, hsome, -⟩ := heffect
    rw [h.rowByIno] at hsome
    cases hsome
  | link =>
    obtain ⟨n, -, ⟨r, hr, -⟩, -⟩ := heffect
    rw [h.row] at hr
    cases hr
  | write =>
    obtain ⟨row, hsome, -⟩ := heffect
    rw [h.rowByIno] at hsome
    cases hsome
  | setxattr =>
    obtain ⟨n, x, -, -, -, -, hino, -⟩ := heffect
    exact (AList.lookup_eq_none.1 h.row hino).elim
  | removexattr =>
    obtain ⟨n, x, -, hx, -, rfl⟩ := heffect
    exact Or.inr ⟨n, x, hx, rfl⟩
  | _ => exact Or.inl heffect

end Kept

/-- Requests that carry the number `j` have nothing to do with the files of the container: they
change nothing that belongs to another inode they do not name, and those that the kernel may send
change no name and no other inode at all, and get the reply that any other container without an
inode `j`, and with the same attributes under this number, gives. -/
structure Harmless (j : Ino) (db : Db) : Prop where
  unnamed : ∀ env req i, j ∈ req.numbers → i ∈ db.inodes → i ∉ req.numbers →
    (step env req db).2.own i = db.own i
  names : ∀ env req, KernelOk db req → j ∈ req.numbers →
    (step env req db).2.dentries = db.dentries
  others : ∀ env req i, KernelOk db req → j ∈ req.numbers → i ≠ j →
    (step env req db).2.own i = db.own i
  reply : ∀ env req other, KernelOk db req → j ∈ req.numbers → other.Vacant j →
    db.SameAttrs j other → (step env req db).1 = (step env req other).1

theorem Db.Vacant.harmless {db : Db} {j : Ino} (h : db.Vacant j) : Harmless j db := by
  constructor
  case unnamed =>
    intro env req i hj hi hne
    rcases step_cases env req db with hsame | heffect
    · rw [hsame]
    · exact heffect.own_of_stale h hj hi hne
  case names =>
    intro env req hok hj
    rcases step_cases env req db with hsame | heffect
    · rw [hsame]
    · rcases heffect.cases_of_stale h (h.stale hok hj) with hsame | ⟨n, x, -, hdb'⟩
      · rw [hsame]
      · rw [hdb']
        rfl
  case others =>
    intro env req i hok hj hne
    rcases step_cases env req db with hsame | heffect
    · rw [hsame]
    · rcases heffect.cases_of_stale h (h.stale hok hj) with hsame | ⟨n, x, hx, hdb'⟩
      · rw [hsame]
      · rw [hdb', Db.own_removexattr_of_ne hx hne]
  case reply =>
    intro env req other hok hj h' hattrs
    exact ((h.stale hok hj).alike_handle h h' hattrs).val_eq env.fails 0

end CofferFS
