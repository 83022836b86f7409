import CofferFS.Rename
import CofferFS.Seconds
import CofferFS.Setattr

/-!
# Times across requests

What a `setattr` stores is converted back by every later callback that replies with attributes, and
a value that does not convert would abort the daemon there. The invariant is `Db.Timed`: whatever is
stored, it is what is stored for some time in range. A run whose clock and requests give times in
range keeps it, so nothing panics in such a run, and `times_reported` says what is reported for the
times of a `setattr` until they are changed.
-/

namespace CofferFS

open Script

variable {P : F64 → Prop} {m : Mount} {env : Env} {now : F64} {req : Request} {db db' : Db}
  {i ino parent : Ino} {name : String}

/-! ## What the times of the rows come from -/

/-- The times of a row have the property. -/
structure Inode.Timed (P : F64 → Prop) (r : Inode) : Prop where
  atime : P r.atime
  mtime : P r.mtime
  ctime : P r.ctime

/-- The times of all rows have the property. -/
def Db.Timed (P : F64 → Prop) (db : Db) : Prop := db.inodes.Forall (Inode.Timed P)

/-- The times that a request sets have the property. -/
def Request.Timed (P : F64 → Prop) (now : F64) : Request → Prop
  | .setattr _ _ a => ∀ v, timeOrNowToSecs now a.atime = some v ∨
      timeOrNowToSecs now a.mtime = some v → P v
  | _ => True

namespace Db.Timed

theorem updateInode {f : Inode → Inode} (h : db.Timed P) (hf : ∀ r, r.Timed P → (f r).Timed P) :
    (db.updateInode ino f).Timed P :=
  AList.Forall.updateKey h hf

theorem touch (h : db.Timed P) (hnow : P now) : (db.touch now ino).Timed P :=
  h.updateInode fun _ hr => ⟨hr.atime, hnow, hnow⟩

theorem setCtime (h : db.Timed P) (hnow : P now) : (db.setCtime now ino).Timed P :=
  h.updateInode fun _ hr => ⟨hr.atime, hr.mtime, hnow⟩

theorem of_inodes (h : db.Timed P) (heq : db'.inodes = db.inodes) : db'.Timed P := by
  rw [Db.Timed, heq]
  exact h

theorem addName (h : db.Timed P) (hnow : P now) : (db.addName now parent name ino).Timed P :=
  touch (h.of_inodes rfl) hnow

theorem addChild {kind : Kind} {mode : BitVec 64} {uid gid : UInt32} {target : Option String}
    (h : db.Timed P) (hnow : P now) :
    (db.addChild now parent name (newInode now kind mode uid gid target)).Timed P := by
  have hadd : (db.addInode (newInode now kind mode uid gid target)).Timed P :=
    AList.Forall.insert h ⟨hnow, hnow, hnow⟩
  exact hadd.addName hnow

theorem dropName (h : db.Timed P) (hnow : P now) :
    (db.dropName now parent name ino).Timed P := by
  have hdel : (db.deleteDentry parent name).Timed P := h.of_inodes rfl
  unfold Db.dropName
  split_ifs
  · exact touch (AList.Forall.erase hdel) hnow
  · exact touch (hdel.setCtime hnow) hnow

theorem moveName {old new : Ino × String} (h : db.Timed P) (hnow : P now) :
    (db.moveName now old new ino).Timed P :=
  touch (touch (h.of_inodes rfl) hnow) hnow

theorem killIf {kill : Bool} (h : db.Timed P) : (db.killIf kill ino).Timed P := by
  unfold Db.killIf
  split_ifs
  · have hbits : ((db.clearSuid ino).clearSgid ino).Timed P := by
      refine (h.updateInode fun r hr => ?_).updateInode fun r hr => ?_
      · split_ifs <;> exact ⟨hr.atime, hr.mtime, hr.ctime⟩
      · split_ifs <;> exact ⟨hr.atime, hr.mtime, hr.ctime⟩
    exact hbits.of_inodes rfl
  · exact h

theorem setSize {size : ℤ} (h : db.Timed P) (hnow : P now) : (db.setSize size now ino).Timed P :=
  h.updateInode fun _ hr => ⟨hr.atime, hnow, hnow⟩

theorem utimens {row : InodeRow} {atime mtime : Option TimeOrNow} (h : db.Timed P)
    (hatime : P ((timeOrNowToSecs now atime).getD row.atime))
    (hmtime : P ((timeOrNowToSecs now mtime).getD row.mtime)) :
    (db.utimens now ino row atime mtime).Timed P := by
  unfold Db.utimens
  split_ifs
  · exact h.updateInode fun _ hr => ⟨hatime, hmtime, hr.ctime⟩
  · exact h

/-- A `setattr` stores its own times, those of the row, and `now`. -/
theorem apply {a : SetAttr} {caller : UInt32} {row : InodeRow} (h : db.Timed P) (hnow : P now)
    (hrow : db.rowByIno ino = some row) (hreq : (Request.setattr caller ino a).Timed P now) :
    (a.apply now caller ino row db).Timed P := by
  obtain ⟨r, hr, rfl⟩ := Option.map_eq_some_iff.1 hrow
  have hold := h ino r hr
  have hmode : (db.chmod now ino (db.mapRow ino r) a.mode).Timed P := by
    cases a.mode with
    | none => exact h
    | some mode => exact h.updateInode fun _ hr => ⟨hr.atime, hr.mtime, hnow⟩
  have howner : ((db.chmod now ino (db.mapRow ino r) a.mode).chown now ino (db.mapRow ino r) a.uid
      a.gid).Timed P := by
    unfold Db.chown
    split_ifs
    · exact hmode.updateInode fun _ hr => ⟨hr.atime, hr.mtime, hnow⟩
    · exact hmode
  refine killIf (utimens ?_ ?_ ?_)
  · cases a.size with
    | none => exact howner
    | some n => exact (howner.setSize hnow).of_inodes inodes_truncate
  · cases hatime : timeOrNowToSecs now a.atime with
    | none => exact hold.atime
    | some v => exact hreq v (.inl hatime)
  · cases hmtime : timeOrNowToSecs now a.mtime with
    | none => exact hold.mtime
    | some v => exact hreq v (.inr hmtime)

end Db.Timed

theorem RenameEffect.timed {name newname : OsStr} {newparent : Ino} {flags : RenameFlags}
    (h : RenameEffect now parent name newparent newname flags db db') (hdb : db.Timed P)
    (hnow : P now) : db'.Timed P := by
  cases h with
  | sameName => exact (hdb.touch hnow).touch hnow
  | freeName => exact hdb.moveName hnow
  | replaced => exact (hdb.dropName hnow).moveName hnow

/-- **Every time in a row comes from the clock or from a request.** -/
theorem Effect.timed (h : Effect m now req db db') (hdb : db.Timed P) (hnow : P now)
    (hreq : req.Timed P now) : db'.Timed P := by
  cases req with
  | setattr caller ino a =>
    obtain ⟨row, hrow, -, rfl⟩ := h
    exact hdb.apply hnow hrow hreq
  | write fh offset data kill =>
    obtain ⟨row, -, -, rfl⟩ := h
    exact Db.Timed.killIf (Db.Timed.setSize (hdb.of_inodes Db.inodes_writeBlocks) hnow)
  | mkdir parent name mode =>
    obtain ⟨n, -, -, -, rfl⟩ := h
    exact hdb.addChild hnow
  | create parent name mode =>
    obtain ⟨n, -, -, -, rfl⟩ := h
    exact hdb.addChild hnow
  | symlink parent linkName target =>
    obtain ⟨t, -, n, -, -, -, rfl⟩ := h
    exact hdb.addChild hnow
  | link ino newparent newname =>
    obtain ⟨n, -, -, -, rfl⟩ := h
    exact (hdb.addName hnow).setCtime hnow
  | unlink parent name =>
    obtain ⟨n, ino, -, -, rfl⟩ := h
    exact hdb.dropName hnow
  | rmdir parent name =>
    obtain ⟨n, ino, -, -, -, -, rfl⟩ := h
    exact hdb.dropName hnow
  | rename parent name newparent newname flags => exact RenameEffect.timed h hdb hnow
  | setxattr ino name value flags =>
    obtain ⟨n, x, -, -, -, -, -, -, -, -, rfl⟩ := h
    exact Db.Timed.setCtime (hdb.of_inodes rfl) hnow
  | removexattr ino name =>
    obtain ⟨n, x, -, -, -, rfl⟩ := h
    exact Db.Timed.setCtime (hdb.of_inodes rfl) hnow
  | _ =>
    obtain rfl : db' = db := h
    exact hdb

theorem Db.Timed.step (h : db.Timed P) (hnow : P env.now) (hreq : req.Timed P env.now) :
    (step env req db).2.Timed P := by
  rcases step_cases env req db with hsame | heffect
  · exact h.of_inodes (congrArg Db.inodes hsame)
  · exact heffect.timed h hnow hreq

/-! ## Runs -/

/-- What is stored for a time in range. `db::now_secs` converts the time of the clock the same
way. -/
def StoredTime (v : F64) : Prop := ∃ t : SystemTime, t.InRange ∧ v = t.stored

/-- The times that a request carries are in range. -/
def Request.TimesInRange : Request → Prop
  | .setattr _ _ a => ∀ t, a.atime = some (.specificTime t) ∨ a.mtime = some (.specificTime t) →
      t.InRange
  | _ => True

/-- One request, with a clock and times in range. -/
def TimeStep (db db' : Db) : Prop :=
  ∃ env req, StoredTime env.now ∧ req.TimesInRange ∧ db' = (step env req db).2

/-- The states that are reached from a new container with a clock and times in range. -/
def TimeReachable (db : Db) : Prop :=
  ∃ now uid gid, StoredTime now ∧ Relation.ReflTransGen TimeStep (.created now uid gid) db

theorem Request.TimesInRange.timed (h : req.TimesInRange) (hnow : StoredTime now) :
    req.Timed StoredTime now := by
  cases req with
  | setattr caller ino a =>
    have htime (o : Option TimeOrNow) (ho : o = a.atime ∨ o = a.mtime) (v : F64)
        (hv : timeOrNowToSecs now o = some v) : StoredTime v := by
      cases o with
      | none => cases hv
      | some t =>
        obtain rfl := Option.some.inj hv
        cases t with
        | now => exact hnow
        | specificTime t => exact ⟨t, h t (ho.imp Eq.symm Eq.symm), rfl⟩
    intro v hv
    rcases hv with hv | hv
    · exact htime _ (.inl rfl) v hv
    · exact htime _ (.inr rfl) v hv
  | _ => trivial

theorem timed_created {uid gid : UInt32} (hnow : P now) : (Db.created now uid gid).Timed P := by
  refine AList.Forall.insert ?_ ⟨hnow, hnow, hnow⟩
  intro k v hk
  simp at hk

theorem TimeStep.timed (h : TimeStep db db') (hdb : db.Timed StoredTime) :
    db'.Timed StoredTime := by
  obtain ⟨env, req, hnow, hreq, rfl⟩ := h
  exact hdb.step hnow (hreq.timed hnow)

/-- **Whatever is stored in a run is what is stored for a time in range.** -/
theorem TimeReachable.timed (h : TimeReachable db) : db.Timed StoredTime := by
  obtain ⟨now, uid, gid, hnow, h⟩ := h
  induction h with
  | refl => exact timed_created hnow
  | tail _ hlast ih => exact hlast.timed ih

/-! ## Conversions -/

theorem StoredTime.exists_systemtime {v : F64} (h : StoredTime v) :
    ∃ t, secsToSystemtime v = some t := by
  obtain ⟨t, ht, rfl⟩ := h
  obtain ⟨t', ht', -⟩ := t.exists_reported ht
  exact ⟨t', ht'⟩

/-- The attributes of a row with such times are its times, converted. -/
theorem Db.Timed.exists_attr {row : Db.InodeRow} (h : db.Timed StoredTime)
    (hrow : db.rowByIno i = some row) : ∃ attr, toAttr i row = some attr ∧
      secsToSystemtime row.atime = some attr.atime ∧
        secsToSystemtime row.mtime = some attr.mtime := by
  obtain ⟨r, hr, rfl⟩ := Option.map_eq_some_iff.1 hrow
  have htimes := h i r hr
  obtain ⟨atime, hatime⟩ := htimes.atime.exists_systemtime
  obtain ⟨mtime, hmtime⟩ := htimes.mtime.exists_systemtime
  obtain ⟨ctime, hctime⟩ := htimes.ctime.exists_systemtime
  have hatime' : secsToSystemtime (db.mapRow i r).atime = some atime := hatime
  have hmtime' : secsToSystemtime (db.mapRow i r).mtime = some mtime := hmtime
  have hctime' : secsToSystemtime (db.mapRow i r).ctime = some ctime := hctime
  simp only [toAttr, hatime', hmtime', hctime']
  exact ⟨_, rfl, rfl, rfl⟩

/-! ## Nothing panics -/

section NoPanic

variable {α β : Type}

/-- From these tables the piece does not panic. -/
def NoPanic (p : Call α) (db : Db) : Prop := ∀ db', ¬ p.Yields db (.error .panic) db'

theorem Panicless.noPanic {p : Call α} (h : Panicless p) : NoPanic p db := h db

theorem noPanic_bind {p : Call α} {k : α → Call β} (hp : NoPanic p db)
    (hk : ∀ a t, p.Yields db (.ok a) t → NoPanic (k a) t) : NoPanic (p >>= k) db := by
  intro db' h
  rcases h.bind with ⟨e, he, h⟩ | ⟨a, t, ha, h⟩
  · cases he
    exact hp db' h
  · exact hk a t ha db' h

/-- A check comes first that neither panics nor changes anything. -/
theorem noPanic_guard {p : Call α} {k : α → Call β} (hp : Panicless p) (hread : p.ReadOnly)
    (hk : ∀ a, NoPanic (k a) db) : NoPanic (p >>= k) db := by
  refine noPanic_bind hp.noPanic fun a t ha => ?_
  rw [hread db _ t ha]
  exact hk a

theorem noPanic_inTransaction {f : SqlError → Errno} {body : Call α} (h : NoPanic body db) :
    NoPanic (inTransaction f body) db := by
  intro db' hy
  rcases hy.transaction_error_cases with ⟨e, he⟩ | ⟨t, hbody⟩ | ⟨e, he⟩
  · cases he
  · exact h t hbody
  · cases he

theorem noPanic_readBack (h : db.Timed StoredTime) : NoPanic (readBack i) db := by
  intro db' hy
  obtain ⟨fs, n, n', hy⟩ := hy
  rw [readBack_run] at hy
  have hreply : readBackReply (fs n) db i = .error .panic := congrArg Outcome.val hy
  unfold readBackReply at hreply
  cases hrow : db.rowByIno i with
  | none => cases hfs : fs n <;> simp [hrow, hfs] at hreply
  | some row =>
    obtain ⟨attr, hattr, -⟩ := h.exists_attr hrow
    cases hfs : fs n <;> simp [hrow, hattr, hfs] at hreply

/-- A callback that reads its row back after the commit. -/
theorem noPanic_commit {f : SqlError → Errno} {body : Call α} {g : α → Ino}
    {k : α → FileAttr → Answer} (hbody : Panicless body)
    (htimed : ∀ a t, body.Yields db (.ok a) t → t.Timed StoredTime) :
    NoPanic (do let a ← inTransaction f body; let attr ← readBack (g a); pure (k a attr)) db := by
  refine noPanic_bind (panicless_inTransaction hbody).noPanic fun a t ha => ?_
  have ht := htimed a t ha.transaction_ok
  exact noPanic_bind (noPanic_readBack ht) fun _ _ _ => (panicless_pure _).noPanic

end NoPanic

/-! ### Callbacks without times -/

theorem panicless_readlink : Panicless (readlink ino) :=
  panicless_bind (panicless_orErrno _ _) fun _ =>
    panicless_bind (panicless_orRefuse _ _) fun _ => panicless_pure _

theorem panicless_unlink {name : OsStr} : Panicless (unlink m now parent name) := by
  refine panicless_bind (panicless_refuseIf _ _) fun _ => ?_
  refine panicless_bind (panicless_orRefuse _ _) fun _ => ?_
  refine panicless_bind (panicless_inTransaction ?_) fun _ => panicless_pure _
  exact panicless_bind (panicless_orErrno _ _) fun _ =>
    panicless_bind (panicless_orRefuse _ _) fun _ => panicless_orErrno _ _

theorem panicless_rmdir {name : OsStr} : Panicless (rmdir m now parent name) := by
  refine panicless_bind (panicless_refuseIf _ _) fun _ => ?_
  refine panicless_bind (panicless_orRefuse _ _) fun _ => ?_
  refine panicless_bind (panicless_inTransaction ?_) fun _ => panicless_pure _
  refine panicless_bind (panicless_orErrno _ _) fun _ => ?_
  refine panicless_bind (panicless_orRefuse _ _) fun _ => ?_
  refine panicless_bind (panicless_refuseIf _ _) fun _ => ?_
  exact panicless_bind panicless_ensureRemovable fun _ => panicless_orErrno _ _

theorem panicless_readLoop (stop pos : ℕ) (out : List UInt8) :
    Panicless (readLoop ino stop pos out) := by
  fun_induction readLoop ino stop pos out with
  | case1 pos out hlt ih =>
    refine panicless_bind ?_ ih
    exact panicless_bind (panicless_attempt _) fun _ => panicless_pure _
  | case2 pos out hlt => exact panicless_pure _

theorem panicless_read (offset size : ℕ) : Panicless (read ino offset size) := by
  refine panicless_bind (panicless_orErrno _ _) fun _ => ?_
  refine panicless_bind (panicless_orRefuse _ _) fun _ => ?_
  split_ifs
  · exact panicless_pure _
  · exact panicless_bind (panicless_readLoop _ _ _) fun _ => panicless_pure _

theorem panicless_fetchRows (rows : List Db.ListedName) : Panicless (fetchRows rows) := by
  induction rows with
  | nil => exact panicless_pure _
  | cons r rest ih =>
    refine panicless_bind (panicless_attempt _) fun row => ?_
    split
    · exact panicless_bind ih fun _ => panicless_pure _
    · exact ih
    · exact panicless_pure _

theorem panicless_readdir (offset room : ℕ) : Panicless (readdir ino offset room) := by
  refine panicless_bind ?_ fun _ => panicless_bind (panicless_orErrno _ _) fun _ =>
    panicless_bind (panicless_fetchRows _) fun _ => panicless_pure _
  unfold parentIno
  split_ifs
  · exact panicless_pure _
  · exact panicless_orErrno _ _

theorem panicless_statfs : Panicless (statfs m) := by
  refine panicless_bind (panicless_attempt _) fun _ => ?_
  dsimp only
  split_ifs
  · exact panicless_pure _
  · cases m.hostStatvfs <;> exact panicless_pure _

theorem panicless_replyXattr (size : ℕ) (data : List UInt8) : Panicless (replyXattr size data) := by
  unfold replyXattr
  split_ifs
  · exact panicless_pure _
  · exact panicless_refuse _
  · exact panicless_pure _

theorem panicless_getxattr {name : OsStr} (size : ℕ) : Panicless (getxattr m ino name size) :=
  panicless_bind (panicless_orRefuse _ _) fun _ =>
    panicless_bind (panicless_refuseIf _ _) fun _ =>
      panicless_bind (panicless_orErrno _ _) fun _ =>
        panicless_bind (panicless_orRefuse _ _) fun _ => panicless_replyXattr _ _

theorem panicless_listxattr (size : ℕ) : Panicless (listxattr m ino size) := by
  unfold listxattr
  split_ifs
  · exact panicless_bind (panicless_orErrno _ _) fun _ =>
      panicless_bind (panicless_orErrno _ _) fun _ => panicless_replyXattr _ _
  · exact panicless_replyXattr _ _

theorem panicless_removexattr {name : OsStr} : Panicless (removexattr m now ino name) := by
  refine panicless_bind (panicless_refuseIf _ _) fun _ => ?_
  refine panicless_bind (panicless_orRefuse _ _) fun _ => ?_
  refine panicless_bind (panicless_refuseIf _ _) fun _ => ?_
  refine panicless_bind (panicless_inTransaction ?_) fun _ => panicless_pure _
  refine panicless_bind (panicless_orErrno _ _) fun _ => ?_
  exact panicless_bind (panicless_refuseIf _ _) fun _ => panicless_orErrno _ _

theorem panicless_checkFull : Panicless (checkFull m) := by
  unfold checkFull
  split_ifs
  · refine panicless_bind (panicless_attempt _) fun used => ?_
    cases used with
    | ok used => exact panicless_refuseIf _ _
    | error e => exact panicless_pure _
  · exact panicless_pure _

theorem panicless_checkTarget (length : ℕ) : Panicless (checkTarget m length) := by
  unfold checkTarget
  split_ifs
  · exact panicless_checkCeiling _
  · exact panicless_pure _

/-! ### Callbacks that convert times -/

theorem noPanic_lookup {name : OsStr} (h : db.Timed StoredTime) :
    NoPanic (lookup parent name) db := by
  refine noPanic_guard (panicless_orRefuse _ _) (readOnly_orRefuse _ _) fun _ => ?_
  refine noPanic_guard (panicless_orErrno _ _) (readOnly_orEio readOnly_childIno) fun _ => ?_
  refine noPanic_guard (panicless_orRefuse _ _) (readOnly_orRefuse _ _) fun _ => ?_
  exact noPanic_bind (noPanic_readBack h) fun _ _ _ => (panicless_pure _).noPanic

theorem noPanic_getattr (h : db.Timed StoredTime) : NoPanic (getattr ino) db := by
  refine noPanic_bind (panicless_orErrno _ _).noPanic fun row t hrow => ?_
  obtain ⟨rfl, rfl⟩ := yields_rowByIno_ok.1 (yields_orEio_ok.1 hrow)
  refine noPanic_bind (panicless_orRefuse _ _).noPanic fun row t hsome => ?_
  obtain ⟨hrow, rfl⟩ := yields_orRefuse_ok.1 hsome
  obtain ⟨attr, hattr, -⟩ := h.exists_attr hrow
  rw [hattr]
  exact (panicless_bind (panicless_pure attr) fun _ => panicless_pure _).noPanic

theorem noPanic_link {newname : OsStr} (h : db.Timed StoredTime) (hnow : StoredTime now) :
    NoPanic (link m now ino parent newname) db := by
  refine noPanic_guard (panicless_refuseIf _ _) (readOnly_refuseIf _ _) fun _ => ?_
  refine noPanic_guard (panicless_orRefuse _ _) (readOnly_orRefuse _ _) fun n => ?_
  refine noPanic_bind (noPanic_inTransaction ?_) fun _ _ _ => (panicless_pure _).noPanic
  refine noPanic_guard (panicless_orErrno _ _) (readOnly_orEio readOnly_rowByIno) fun _ => ?_
  refine noPanic_guard (panicless_orRefuse _ _) (readOnly_orRefuse _ _) fun _ => ?_
  refine noPanic_guard (panicless_refuseIf _ _) (readOnly_refuseIf _ _) fun _ => ?_
  refine noPanic_guard (panicless_orErrno _ _) (readOnly_orEio readOnly_childIno) fun _ => ?_
  refine noPanic_guard (panicless_refuseIf _ _) (readOnly_refuseIf _ _) fun _ => ?_
  refine noPanic_bind (panicless_orErrno _ _).noPanic fun _ t hlink => ?_
  obtain ⟨-, rfl⟩ := linkDentry_ok (yields_orEio_ok.1 hlink)
  refine noPanic_bind (panicless_orErrno _ _).noPanic fun _ t hctime => ?_
  obtain rfl := yields_update_ok.1 (yields_orEio_ok.1 hctime)
  exact noPanic_readBack ((h.addName hnow).setCtime hnow)

/-- **Where the times are in range, no request panics**, whatever fails. -/
theorem Db.Timed.noPanic (h : db.Timed StoredTime) (hnow : StoredTime now)
    (hreq : req.TimesInRange) : NoPanic (handle m now req) db := by
  cases req with
  | lookup parent name => exact noPanic_lookup h
  | getattr ino => exact noPanic_getattr h
  | readlink ino => exact panicless_readlink.noPanic
  | setattr caller ino a =>
    refine noPanic_guard (panicless_refuseIf _ _) (readOnly_refuseIf _ _) fun _ => ?_
    refine noPanic_commit (panicless_setattrTx _ _) fun _ t ht => ?_
    exact (setattrTx_ok ht).timed h hnow (hreq.timed hnow)
  | mkdir parent name mode =>
    refine noPanic_guard (panicless_refuseIf _ _) (readOnly_refuseIf _ _) fun _ => ?_
    refine noPanic_guard (panicless_orRefuse _ _) (readOnly_orRefuse _ _) fun n => ?_
    refine noPanic_commit ?_ fun _ t ht => ?_
    · exact panicless_bind (panicless_orErrno _ _) fun _ =>
        panicless_bind (panicless_refuseIf _ _) fun _ => panicless_orErrno _ _
    · obtain ⟨-, -, -, rfl⟩ := mkdirTx_ok ht
      exact h.addChild hnow
  | create parent name mode =>
    refine noPanic_guard (panicless_refuseIf _ _) (readOnly_refuseIf _ _) fun _ => ?_
    refine noPanic_guard (panicless_orRefuse _ _) (readOnly_orRefuse _ _) fun n => ?_
    refine noPanic_commit (g := id) ?_ fun _ t ht => ?_
    · exact panicless_bind (panicless_orErrno _ _) fun _ =>
        panicless_bind (panicless_refuseIf _ _) fun _ =>
          panicless_bind panicless_checkFull fun _ => panicless_orErrno _ _
    · obtain ⟨-, -, -, rfl⟩ := createTx_ok ht
      exact h.addChild hnow
  | symlink parent linkName target =>
    refine noPanic_guard (panicless_refuseIf _ _) (readOnly_refuseIf _ _) fun _ => ?_
    refine noPanic_guard (panicless_orRefuse _ _) (readOnly_orRefuse _ _) fun n => ?_
    refine noPanic_guard (panicless_orRefuse _ _) (readOnly_orRefuse _ _) fun _ => ?_
    refine noPanic_commit ?_ fun _ t ht => ?_
    · exact panicless_bind (panicless_attempt _) fun _ =>
        panicless_bind (panicless_refuseIf _ _) fun _ =>
          panicless_bind (panicless_checkTarget _) fun _ => panicless_orErrno _ _
    · obtain ⟨-, -, -, rfl⟩ := symlinkTx_ok ht
      exact h.addChild hnow
  | link ino newparent newname => exact noPanic_link h hnow
  | unlink parent name => exact panicless_unlink.noPanic
  | rmdir parent name => exact panicless_rmdir.noPanic
  | rename parent name newparent newname flags => exact panicless_rename.noPanic
  | «open» ino flags =>
    exact (panicless_bind (panicless_refuseIf _ _) fun _ => panicless_pure _).noPanic
  | read fh offset size => exact (panicless_read _ _).noPanic
  | write fh offset data kill => exact (panicless_write _ _ _).noPanic
  | flush fh => exact (panicless_pure _).noPanic
  | fsync fh => exact (panicless_pure _).noPanic
  | release fh => exact (panicless_pure _).noPanic
  | opendir ino => exact (panicless_pure _).noPanic
  | readdir ino offset room => exact (panicless_readdir _ _).noPanic
  | statfs => exact panicless_statfs.noPanic
  | setxattr ino name value flags => exact panicless_setxattr.noPanic
  | getxattr ino name size => exact (panicless_getxattr _).noPanic
  | listxattr ino size => exact (panicless_listxattr _).noPanic
  | removexattr ino name => exact panicless_removexattr.noPanic
  | access ino => exact (panicless_pure _).noPanic

theorem step_ne_panic (h : db.Timed StoredTime) (hnow : StoredTime env.now)
    (hreq : req.TimesInRange) : (step env req db).1 ≠ .error .panic := by
  intro hpanic
  have hy := step_yields env req db
  rw [hpanic] at hy
  exact h.noPanic hnow hreq _ hy

/-! ## What is reported -/

/-- After a `setattr` has left `db₁`, the row of the inode in `db₂` converts, and as long as a time
is the one that was set, what is reported for it is related to the one that was asked for. -/
def Reports (R : SystemTime → SystemTime → Prop) (ino : Ino) (a : SetAttr) (db₁ db₂ : Db) : Prop :=
  ∃ row₁, db₁.rowByIno ino = some row₁ ∧ ∀ row₂, db₂.rowByIno ino = some row₂ →
    ∃ attr, toAttr ino row₂ = some attr ∧
      (∀ t, a.atime = some (.specificTime t) → row₂.atime = row₁.atime → R t attr.atime) ∧
      ∀ t, a.mtime = some (.specificTime t) → row₂.mtime = row₁.mtime → R t attr.mtime

theorem times_of_apply {a : SetAttr} {caller : UInt32} {row : Db.InodeRow}
    (hrow : db.rowByIno i = some row) :
    ∃ row₁, (a.apply now caller i row db).rowByIno i = some row₁ ∧
      (∀ t, a.atime = some (.specificTime t) → row₁.atime = t.stored) ∧
      ∀ t, a.mtime = some (.specificTime t) → row₁.mtime = t.stored := by
  obtain ⟨r, hr, rfl⟩ := Option.map_eq_some_iff.1 hrow
  have hleft := @Db.lookup_apply db now i r a caller hr
  refine ⟨_, by rw [Db.rowByIno, hleft, Option.map_some], fun t ht => ?_, fun t ht => ?_⟩
  · show a.leftAtime now r = t.stored
    rw [SetAttr.leftAtime, ← timeOrNowToSecs_eq, ht]
    rfl
  · show a.leftMtime now r = t.stored
    rw [SetAttr.leftMtime, if_pos (.inr (by rw [ht]; rfl)), ← timeOrNowToSecs_eq, ht]
    rfl

theorem reported_of_converted {v : F64} {t t' : SystemTime} (ht : t.InRange) (hv : v = t.stored)
    (h : secsToSystemtime v = some t') : t.Reported t' := by
  obtain ⟨t'', ht'', hreported⟩ := t.exists_reported ht
  rw [← hv, h] at ht''
  rwa [Option.some.inj ht'']

/-- **The times of a `setattr` are reported until they are changed**: in every run with a clock and
times in range nothing panics, a time before the epoch is reported as the epoch, and a later one by
its second, exactly if the column keeps that. -/
theorem times_reported {caller : UInt32} {a : SetAttr} {db₂ : Db} (h : TimeReachable db)
    (hnow : StoredTime env.now) (hreq : (Request.setattr caller ino a).TimesInRange)
    (hcommitted : Effect env.mount env.now (.setattr caller ino a) db
      (step env (.setattr caller ino a) db).2)
    (hlater : Relation.ReflTransGen TimeStep (step env (.setattr caller ino a) db).2 db₂) :
    Reports SystemTime.Reported ino a (step env (.setattr caller ino a) db).2 db₂ ∧
      ∀ env req, StoredTime env.now → req.TimesInRange → (step env req db₂).1 ≠ .error .panic := by
  have htimed : db₂.Timed StoredTime := by
    have hset := h.timed.step hnow (hreq.timed hnow)
    induction hlater with
    | refl => exact hset
    | tail _ hlast ih => exact hlast.timed ih
  refine ⟨?_, fun env req hnow hreq => step_ne_panic htimed hnow hreq⟩
  obtain ⟨row, hrow, -, hdb'⟩ := hcommitted
  obtain ⟨row₁, hrow₁, hatime, hmtime⟩ := @times_of_apply env.now db ino a caller row hrow
  refine ⟨row₁, by rw [hdb', hrow₁], fun row₂ hrow₂ => ?_⟩
  obtain ⟨attr, hattr, hconverted, hconverted'⟩ := htimed.exists_attr hrow₂
  refine ⟨attr, hattr, fun t ht heq => ?_, fun t ht heq => ?_⟩
  · exact reported_of_converted (hreq t (.inl ht)) (heq.trans (hatime t ht)) hconverted
  · exact reported_of_converted (hreq t (.inr ht)) (heq.trans (hmtime t ht)) hconverted'

/-- The start of 2020 is reported for a file that is given this modification time. -/
theorem times_reported_touch :
    let a : SetAttr := { mtime := some (.specificTime ⟨1577836800, 0⟩) }
    let db₁ := (step (.quiet .plain 0) (.setattr 0 2 a) .oneFile).2
    Reports SystemTime.Reported 2 a db₁ db₁ ∧
      ∀ env req, StoredTime env.now → req.TimesInRange → (step env req db₁).1 ≠ .error .panic := by
  intro a db₁
  have hnow : StoredTime 0 := ⟨⟨0, 0⟩, ⟨by norm_num, by norm_num⟩, by decide +kernel⟩
  have hreach : TimeReachable .oneFile :=
    ⟨0, 0, 0, hnow, .single ⟨_, .create rootIno nameA 0o644, hnow, trivial, rfl⟩⟩
  have hok : (step (.quiet .plain 0) (.setattr 0 2 a) .oneFile).1 =
      .ok (.attr ttl
        { ino := 2, size := 0, blocks := 0, atime := ⟨0, 0⟩, mtime := ⟨1577836800, 0⟩
          ctime := ⟨0, 0⟩, crtime := ⟨0, 0⟩, kind := .regularFile, perm := 0o644, nlink := 1
          uid := 0, gid := 0, rdev := 0, blksize := 4096, flags := 0 }) := by
    decide +kernel
  have heffect := step_effect (.quiet .plain 0) (.setattr 0 2 a) .oneFile
  rw [hok] at heffect
  refine times_reported hreach hnow (fun t ht => ?_) (heffect.resolve_left ?_) .refl
  · obtain ht | ht := ht
    · cases ht
    · cases ht
      exact ⟨by norm_num, by norm_num⟩
  · intro hundone
    obtain ⟨⟨e, he⟩, -⟩ := hundone
    cases he

/-- **A second before the epoch is not reported**: the epoch is, although the request is answered. -/
theorem before_epoch_reported_as_epoch : ¬ ∀ env caller ino a db db₂ answer, Reachable db →
    (step env (.setattr caller ino a) db).1 = .ok answer →
    Relation.ReflTransGen KernelStep (step env (.setattr caller ino a) db).2 db₂ →
    Reports (fun t t' => t'.secs = t.secs) ino a (step env (.setattr caller ino a) db).2 db₂ := by
  intro h
  let a : SetAttr := { mtime := some (.specificTime ⟨-1, 0⟩) }
  have hok : (step (.quiet .plain 0) (.setattr 0 2 a) .oneFile).1 =
      .ok (.attr ttl
        { ino := 2, size := 0, blocks := 0, atime := ⟨0, 0⟩, mtime := ⟨0, 0⟩
          ctime := ⟨0, 0⟩, crtime := ⟨0, 0⟩, kind := .regularFile, perm := 0o644, nlink := 1
          uid := 0, gid := 0, rdev := 0, blksize := 4096, flags := 0 }) := by
    decide +kernel
  obtain ⟨row, hrow, hreports⟩ := h _ 0 2 a .oneFile _ _ reachable_oneFile hok .refl
  obtain ⟨attr, hattr, -, hmtime⟩ := hreports row hrow
  have hepoch : (((step (.quiet .plain 0) (.setattr 0 2 a) .oneFile).2.rowByIno 2).bind
      (toAttr 2)).map (·.mtime.secs) = some 0 := by
    decide +kernel
  rw [hrow, Option.bind_some, hattr, Option.map_some] at hepoch
  have hsecond : attr.mtime.secs = -1 := hmtime ⟨-1, 0⟩ rfl rfl
  rw [Option.some.inj hepoch] at hsecond
  cases hsecond

end CofferFS
