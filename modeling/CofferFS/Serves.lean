import CofferFS.Answers
import CofferFS.Caches
import CofferFS.Lib.Refinement
import CofferFS.Objects
import CofferFS.Pieces

/-!
# A container serves a file system

`serves` says what the code is for as a whole: a container is a file system. Whatever requests come
and whatever fails, each of them does to `Db.fileSystem` what it is to do to a file system, or
nothing, and what is answered is so. Hence every run of the callbacks is a run of a file system,
with the same requests and the same replies.
-/

namespace CofferFS

open Script Systems

variable {db db' : Db} {m : Mount} {now : F64} {env : Env} {req : Request} {a : Answer} {i : Ino}
  {attr : FileAttr}

/-! ## Attributes -/

theorem Db.StoreInv.length_content (hs : db.StoreInv) {r : Inode}
    (hr : db.inodes.lookup i = some r) : (db.content i).length = asU64 r.size := by
  have hcore : db.core i = some (r.kind, r.size) := by
    rw [Db.core, hr]
    rfl
  rw [Db.content_of_core hcore, Sparse.length_contents, hs.asU64_size hcore]

theorem Db.ncard_names : Set.ncard {k | db.fileSystem.name k = some i} = db.nameCount i := by
  have hnames := (AList.ncard_lookup (fun _ j => decide (j = i)) db.dentries).1
  simp only [decide_eq_true_eq, exists_eq_right] at hnames
  exact hnames

theorem Db.StoreInv.reports (hs : db.StoreInv) (h : db.Reports i attr) :
    db.fileSystem.Reports i attr := by
  obtain ⟨row, hrow, hattr⟩ := h
  obtain ⟨r, hr, rfl⟩ := Option.map_eq_some_iff.1 hrow
  refine ⟨_, Db.object_of_lookup hr, ?_⟩
  rw [← hattr, Db.ncard_names]
  show toAttr i { kind := r.kind, nlink := _, size := (db.content i).length, .. } = _
  rw [hs.length_content hr]
  rfl

theorem Db.StoreInv.denotes (hs : db.StoreInv) {parent : Ino} {name : OsStr}
    (h : db.Reports attr.ino attr) (hnames : db.Names parent name attr.ino) :
    db.fileSystem.Denotes parent name attr := by
  obtain ⟨n, hn, hi⟩ := hnames
  exact ⟨n, hn, hi, hs.reports h⟩

/-! ## Bytes, names and sums -/

theorem saysBytes_of_reply {size : ℕ} {bytes : List UInt8}
    (h : (replyXattr size bytes).Yields db (.ok a) db') : FileSystem.SaysBytes size bytes a := by
  unfold replyXattr at h
  split_ifs at h with hsize hlong
  · exact Or.inl ⟨hsize, Except.ok.inj (yields_pure.1 h).1⟩
  · exact (yields_refuse_ok.1 h).elim
  · exact Or.inr ⟨hsize, not_lt.1 hlong, Except.ok.inj (yields_pure.1 h).1⟩

theorem Db.xattr_fileSystem (htree : db.TreeInv) {n : String} :
    db.fileSystem.xattr i n = db.attr i n := by
  show (Option.map _ _).bind _ = _
  cases hr : db.inodes.lookup i with
  | none => rw [Db.attr_of_notMem htree (AList.lookup_eq_none.1 hr), Option.map_none,
      Option.bind_none]
  | some r => rfl

theorem Db.lists_listing (htree : db.TreeInv) : db.fileSystem.Lists i (db.listing i) := by
  refine ⟨Db.pairwise_listing htree.child, fun row => ?_⟩
  rw [Db.listing, (List.perm_insertionSort _ _).mem_iff, List.mem_filterMap]
  constructor
  · rintro ⟨⟨⟨dir, n⟩, j⟩, he, hsome⟩
    obtain ⟨rfl, hkind⟩ := Option.ite_none_right_eq_some.1 hsome
    obtain ⟨r, hr, rfl⟩ := Option.map_eq_some_iff.1 hkind
    refine ⟨AList.mem_entries_iff.1 he, ?_⟩
    show Option.map _ (db.object j) = _
    rw [Db.object_of_lookup hr]
    rfl
  · rintro ⟨hname, hkind⟩
    refine ⟨⟨(i, row.name), row.ino⟩, AList.mem_entries_iff.2 hname, ?_⟩
    rw [if_pos rfl]
    obtain ⟨o, ho, hk⟩ := Option.map_eq_some_iff.1 hkind
    obtain ⟨r, hr, rfl⟩ := Option.map_eq_some_iff.1 ho
    rw [hr, Option.map_some]
    cases row
    cases hk
    rfl

theorem Db.totalSize_of_uses (hs : db.StoreInv) {k : ℕ} (h : db.fileSystem.Uses k) :
    db.totalSize = k := by
  obtain ⟨l, hnodup, hmem, rfl⟩ := h
  have hkeys : db.inodes.keys.toFinset = l.toFinset := by
    ext i
    rw [List.mem_toFinset, List.mem_toFinset, hmem]
    exact Db.object_ne_none_iff.symm
  rw [Db.totalSize, AList.sumBy_eq_sum_keys, hkeys, List.sum_toFinset _ hnodup, Nat.cast_list_sum,
    List.map_map]
  congr 1
  refine List.map_congr_left fun i hi => ?_
  obtain ⟨r, hr⟩ := AList.exists_lookup_of_mem (Db.object_ne_none_iff.1 ((hmem i).1 hi))
  have hcore : db.core i = some (r.kind, r.size) := by
    rw [Db.core, hr]
    rfl
  have hobject : db.fileSystem.object i = _ := Db.object_of_lookup hr
  have hlen : ((db.content i).length : ℤ) = r.size := by
    rw [Db.content_of_core hcore, Sparse.length_contents]
    exact Int.toNat_of_nonneg (hs.size_nonneg i _ _ hcore)
  rw [Function.comp_apply, hobject, hr]
  exact hlen.symm

/-! ## Answers -/

theorem Env.eq_quiet (h : ∀ k, env.fails k = none) : env = .quiet env.mount env.now := by
  obtain ⟨mount, now, fails⟩ := env
  obtain rfl : fails = noFailure := funext h
  rfl

/-- The one answer of a callback that ends with it. -/
theorem answer_of_pure {α : Type} {p : Call α} {a' : Answer}
    (h : (p >>= fun _ => pure a').Yields db (.ok a) db') : a = a' := by
  obtain ⟨_, t, -, hpure⟩ := h.bind_ok
  exact Except.ok.inj (yields_pure.1 hpure).1

theorem says_read (hdb : Reachable db) {offset : UInt64} {size : UInt32}
    (h : (step env (.read i offset size) db).1 = .ok a) : ∃ o, db.fileSystem.object i = some o ∧
      ((∀ k, env.fails k = none) → a = .data ((o.content.drop offset.toNat).take size.toNat)) := by
  have hy := step_yields env (.read i offset size) db
  rw [h] at hy
  obtain ⟨row, hrow⟩ := read_ok hy
  obtain ⟨r, hr, -⟩ := Option.map_eq_some_iff.1 hrow
  have hcore : db.core i = some (r.kind, r.size) := by
    rw [Db.core, hr]
    rfl
  refine ⟨_, Db.object_of_lookup hr, fun hcalm => ?_⟩
  rw [Env.eq_quiet hcalm, step_read hdb hcore] at h
  exact (Except.ok.inj h).symm

/-- The parent that is found is one, and is found whenever nothing fails. -/
theorem parentIno_ok {p : Ino} (h : (parentIno i).Yields db (.ok p) db') :
    db.fileSystem.Parent i p ∧ (parentIno i).Runs db (.ok p) db := by
  unfold parentIno at h ⊢
  split_ifs at h ⊢ with hroot
  · obtain rfl := Except.ok.inj (yields_pure.1 h).1
    exact ⟨Or.inl ⟨hroot, rfl⟩, runs_pure _⟩
  · have hfound := (yields_query_ok.1 (yields_orErrno_ok.1 h)).1
    refine ⟨Or.inr ?_, Runs.mapError_ok (runs_query_ok hfound)⟩
    unfold Db.parentOf at hfound
    split at hfound
    · rename_i e he
      obtain rfl : e.2 = i := by simpa using List.find?_some he
      obtain rfl := Except.ok.inj hfound
      exact ⟨e.1.2, AList.mem_entries_iff.1 (List.mem_of_find?_eq_some he)⟩
    · cases hfound

theorem says_readdir (htree : db.TreeInv) {offset room : ℕ}
    (h : (step env (.readdir i offset room) db).1 = .ok a) : ∃ p, db.fileSystem.Parent i p ∧
      ((∀ k, env.fails k = none) → ∃ rows, db.fileSystem.Lists i rows ∧
        a = .directory (addEntries (dirEntries i p rows) offset room)) := by
  have hy := step_yields env (.readdir i offset room) db
  rw [h] at hy
  obtain ⟨p, hp, -⟩ := hy.after (readOnly_parentIno i)
  obtain ⟨hparent, hruns⟩ := parentIno_ok hp
  refine ⟨p, hparent, fun hcalm => ⟨db.listing i, Db.lists_listing htree, ?_⟩⟩
  have hrun : (readdir i offset room).Runs db
      (.ok (.directory (addEntries (dirEntries i p (db.listing i)) offset room))) db := by
    refine Runs.bind hruns (Runs.bind (Runs.mapError_ok (runs_query_ok rfl)) ?_)
    exact Runs.bind runs_fetchRows (runs_pure _)
  rw [Env.eq_quiet hcalm,
    @step_quiet env.mount env.now (.readdir i offset room) db db _ hrun] at h
  exact (Except.ok.inj h).symm

theorem says_getxattr (hdb : Reachable db) {name : OsStr} {size : ℕ}
    (h : (getxattr m i name size).Yields db (.ok a) db') :
    ∃ n v, name.toStr = some n ∧ db.fileSystem.xattr i n = some v ∧
      FileSystem.SaysBytes size v a := by
  obtain ⟨x, hx⟩ := hdb.exists_xattrs
  obtain ⟨n, hn, h⟩ := h.after (readOnly_orRefuse _ _)
  obtain ⟨_, -, h⟩ := h.after (readOnly_refuseIf _ _)
  obtain ⟨value, hvalue, h⟩ := h.after (readOnly_orEio (readOnly_query _))
  obtain ⟨v, hv, hreply⟩ := h.after (readOnly_orRefuse _ _)
  have hvalue := (yields_query_ok.1 (yields_orEio_ok.1 hvalue)).1
  have hattr : db.attr i n = value := Except.ok.inj ((xattr_eq hx n).symm.trans hvalue)
  refine ⟨n, v, (yields_orRefuse_ok.1 hn).1, ?_, saysBytes_of_reply hreply⟩
  rw [Db.xattr_fileSystem hdb.treeInv, hattr, (yields_orRefuse_ok.1 hv).1]

theorem says_listxattr (hdb : Reachable db) {size : ℕ}
    (h : (listxattr m i size).Yields db (.ok a) db') :
    ∃ names : List String, names.Pairwise (· < ·) ∧
      (∀ n, n ∈ names ↔ m.hasXattrs = true ∧ db.fileSystem.xattr i n ≠ none) ∧
      FileSystem.SaysBytes size (names.flatMap fun n => n.toUTF8.toList ++ [0]) a := by
  obtain ⟨x, hx⟩ := hdb.exists_xattrs
  unfold listxattr at h
  split_ifs at h with hm
  · obtain ⟨names, hnames, hsorted, hnodup, hmem⟩ := @xattrNames_ok db i x hx
    obtain ⟨names', hquery, h⟩ := h.after (readOnly_orEio (readOnly_query _))
    obtain ⟨out, hout, hreply⟩ := h.after (readOnly_orEio (readOnly_fetchNames _))
    have hquery := (yields_query_ok.1 (yields_orEio_ok.1 hquery)).1
    obtain rfl : names = names' := Except.ok.inj (hnames.symm.trans hquery)
    refine ⟨names, ?_, fun n => ?_, ?_⟩
    · exact (hsorted.and hnodup).imp fun hlt => lt_of_le_of_ne hlt.1 hlt.2
    · rw [hmem, Db.xattr_fileSystem hdb.treeInv]
      exact (and_iff_right hm).symm
    · rw [fetchNames_ok (yields_orEio_ok.1 hout)] at hreply
      exact saysBytes_of_reply hreply
  · exact ⟨[], .nil, by simp [hm], saysBytes_of_reply h⟩

/-- **An answer is true** of the file system that the request leaves. -/
theorem says_of_answer (hdb : Reachable db) (h : (step env req db).1 = .ok a) :
    (step env req db).2.fileSystem.Says env.mount (∀ k, env.fails k = none) req a := by
  have hs : (step env req db).2.StoreInv := hdb.storeInv.step hdb.treeInv env req
  have hy := step_yields env req db
  rw [h] at hy
  have hsame (hro : (handle env.mount env.now req).ReadOnly) : (step env req db).2 = db :=
    hro _ _ _ hy
  cases req with
  | lookup parent name =>
    obtain ⟨attr, hreports, hnames, rfl⟩ := lookup_reply hy
    exact ⟨attr, hs.denotes hreports hnames, rfl⟩
  | getattr ino =>
    obtain ⟨attr, -, hreports, rfl⟩ := getattr_reply hy
    exact ⟨attr, hs.reports hreports, rfl⟩
  | readlink ino =>
    obtain ⟨row, hrow, rfl⟩ := readlink_ok hy
    obtain ⟨r, hr, rfl⟩ := Option.map_eq_some_iff.1 hrow
    rw [hsame (readOnly_readlink _)]
    exact ⟨_, Db.object_of_lookup hr, rfl⟩
  | setattr caller ino attrs =>
    obtain ⟨attr, -, hreports, rfl⟩ := setattr_reply hy
    exact ⟨attr, hs.reports hreports, rfl⟩
  | mkdir parent name mode =>
    obtain ⟨attr, hreports, hnames, rfl⟩ := mkdir_reply hy
    exact ⟨attr, hs.denotes hreports hnames, rfl⟩
  | create parent name mode =>
    obtain ⟨attr, hreports, hnames, rfl⟩ := create_reply hy
    exact ⟨attr, hs.denotes hreports hnames, rfl⟩
  | symlink parent name target =>
    obtain ⟨attr, hreports, hnames, rfl⟩ := symlink_reply hy
    exact ⟨attr, hs.denotes hreports hnames, rfl⟩
  | link ino newparent newname =>
    obtain ⟨attr, hreports, hnames, rfl⟩ := link_reply hy
    exact ⟨attr, hs.denotes hreports hnames, rfl⟩
  | «open» ino flags => exact answer_of_pure hy
  | read fh offset size =>
    rw [hsame (readOnly_read _ _ _)]
    exact says_read hdb h
  | write fh offset data kill =>
    obtain ⟨_, -, hy⟩ := hy.after (readOnly_refuseIf _ _)
    obtain ⟨_, -, hy⟩ := hy.after (readOnly_refuseIf _ _)
    exact answer_of_pure hy
  | readdir ino offset room =>
    rw [hsame (readOnly_readdir _ _ _)]
    exact says_readdir hdb.treeInv h
  | statfs =>
    rw [hsame (readOnly_statfs _)]
    intro hcalm hmax k hk hle
    have htotal := Db.totalSize_of_uses hdb.storeInv hk
    have hle' : db.totalSize ≤ i64Max := by
      rw [htotal]
      exact Int.ofNat_le.2 hle
    rw [Env.eq_quiet hcalm, step_statfs hdb.storeInv hle' hmax, htotal, Int.toNat_natCast] at h
    exact (Except.ok.inj h).symm
  | getxattr ino name size =>
    rw [hsame (readOnly_getxattr _ _ _ _)]
    exact says_getxattr hdb hy
  | listxattr ino size =>
    rw [hsame (readOnly_listxattr _ _ _)]
    exact says_listxattr hdb hy
  | unlink parent name =>
    obtain ⟨_, -, hy⟩ := hy.after (readOnly_refuseIf _ _)
    obtain ⟨_, -, hy⟩ := hy.after (readOnly_orRefuse _ _)
    exact answer_of_pure hy
  | rmdir parent name =>
    obtain ⟨_, -, hy⟩ := hy.after (readOnly_refuseIf _ _)
    obtain ⟨_, -, hy⟩ := hy.after (readOnly_orRefuse _ _)
    exact answer_of_pure hy
  | rename parent name newparent newname flags =>
    obtain ⟨_, -, hy⟩ := hy.after (readOnly_refuseIf _ _)
    obtain ⟨_, -, hy⟩ := hy.after (readOnly_orRefuse _ _)
    obtain ⟨_, -, hy⟩ := hy.after (readOnly_orRefuse _ _)
    exact answer_of_pure hy
  | setxattr ino name value flags =>
    obtain ⟨_, -, hy⟩ := hy.after (readOnly_refuseIf _ _)
    obtain ⟨_, -, hy⟩ := hy.after (readOnly_refuseIf _ _)
    obtain ⟨_, -, hy⟩ := hy.after (readOnly_orRefuse _ _)
    obtain ⟨_, -, hy⟩ := hy.after (readOnly_refuseIf _ _)
    obtain ⟨_, -, hy⟩ := hy.after (readOnly_refuseIf _ _)
    exact answer_of_pure hy
  | removexattr ino name =>
    obtain ⟨_, -, hy⟩ := hy.after (readOnly_refuseIf _ _)
    obtain ⟨_, -, hy⟩ := hy.after (readOnly_orRefuse _ _)
    obtain ⟨_, -, hy⟩ := hy.after (readOnly_refuseIf _ _)
    exact answer_of_pure hy
  | flush | fsync | release | opendir | access => exact Except.ok.inj (yields_pure.1 hy).1

/-! ## Runs -/

/-- Where nothing is read after the commit, what ends with an error has changed nothing. -/
theorem undone_of_error {e : Halt} (h : (step env req db).1 = .error e)
    (hreq : ¬ FileSystem.ReadsBack req) : (step env req db).2 = db := by
  have hy := step_yields env req db
  rw [h] at hy
  have hundone {P : Db → Prop}
      (hp : (handle env.mount env.now req).Achieves db fun r db' => P db' ∧ ∃ a, r = .ok a) :
      (step env req db).2 = db := by
    rcases hp _ _ hy with hundone | ⟨-, a, ha⟩
    · exact hundone.2
    · cases ha
  cases req with
  | setattr | mkdir | create | symlink => exact (hreq trivial).elim
  | link ino newparent newname => exact hundone (link_achieves ino newparent newname)
  | unlink parent name => exact hundone (unlink_achieves parent name)
  | rmdir parent name => exact hundone (rmdir_achieves parent name)
  | rename parent name newparent newname flags =>
    exact hundone (rename_achieves parent name newparent newname flags)
  | write fh offset data kill => exact hundone (write_achieves fh offset data kill)
  | setxattr ino name value flags => exact hundone (setxattr_achieves ino name value flags)
  | removexattr ino name => exact hundone (removexattr_achieves ino name)
  | lookup parent name => exact readOnly_lookup _ _ _ _ _ hy
  | getattr ino => exact readOnly_getattr _ _ _ _ hy
  | readlink ino => exact readOnly_readlink _ _ _ _ hy
  | «open» ino flags => exact readOnly_open _ _ _ _ _ _ hy
  | read fh offset size => exact readOnly_read _ _ _ _ _ _ hy
  | readdir ino offset room => exact readOnly_readdir _ _ _ _ _ _ hy
  | statfs => exact readOnly_statfs _ _ _ _ hy
  | getxattr ino name size => exact readOnly_getxattr _ _ _ _ _ _ _ hy
  | listxattr ino size => exact readOnly_listxattr _ _ _ _ _ _ hy
  | flush | fsync | release | opendir | access => exact readOnly_pure _ _ _ _ hy

/-- A request that the kernel may send, in any environment, with the reply to it. -/
def KernelCall (db : Db) (c : Env × Request × Reply) (db' : Db) : Prop :=
  KernelOk db c.2.1 ∧ step c.1 c.2.1 db = (c.2.2, db')

/-- One request is a request of the file system. -/
theorem call_of_step (hdb : Reachable db) (env : Env) (req : Request) :
    db.fileSystem.Call (env, req, (step env req db).1) (step env req db).2.fileSystem := by
  cases hreply : (step env req db).1 with
  | ok a =>
    exact .answered ((effect_of_answer hreply).does hdb.treeInv hdb.storeInv)
      (says_of_answer hdb hreply)
  | error e =>
    by_cases hreq : FileSystem.ReadsBack req
    · rcases step_cases env req db with hsame | heffect
      · rw [hsame]
        exact .refused env req e
      · exact .lost hreq (heffect.does hdb.treeInv hdb.storeInv)
    · rw [undone_of_error hreply hreq]
      exact .refused env req e

/-- Containers as file systems. -/
def serving : Refinement KernelCall FileSystem.Call where
  good := Reachable
  view := Db.fileSystem
  good_step := by
    rintro db ⟨env, req, reply⟩ db' hdb ⟨hok, hstep⟩
    obtain rfl : (step env req db).2 = db' := congrArg Prod.snd hstep
    exact hdb.step env hok
  view_step := by
    rintro db ⟨env, req, reply⟩ db' hdb ⟨-, hstep⟩
    obtain rfl : (step env req db).1 = reply := congrArg Prod.fst hstep
    obtain rfl : (step env req db).2 = db' := congrArg Prod.snd hstep
    exact call_of_step hdb env req

theorem fileSystem_created {uid gid : UInt32} :
    (Db.created now uid gid).fileSystem = .new now uid gid := by
  refine FileSystem.ext (funext fun i => ?_) rfl
  show Option.map _ (((∅ : Table Ino Inode).insert rootIno _).lookup i) = if _ then _ else _
  rw [AList.lookup_insert_eq, AList.lookup_empty]
  split_ifs with hroot
  · subst hroot
    rfl
  · rfl

/-- **Every run of a container is a run of a file system**, with the same requests and replies. -/
theorem serves {uid gid : UInt32} {calls : List (Env × Request × Reply)}
    (h : Trace KernelCall (.created now uid gid) calls db) :
    Trace FileSystem.Call (.new now uid gid) calls db.fileSystem := by
  rw [← fileSystem_created]
  exact serving.trace (reachable_created now uid gid) h

theorem serves_oneFile : Trace FileSystem.Call (.new 0 0 0)
    [(.quiet .plain 0, .create rootIno nameA 0o644,
      (step (.quiet .plain 0) (.create rootIno nameA 0o644) (.created 0 0 0)).1)]
    Db.oneFile.fileSystem :=
  serves (.cons ⟨isDir_root_created 0 0 0, rfl⟩ (.nil _))

end CofferFS
