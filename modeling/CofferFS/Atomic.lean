import CofferFS.Lib.Plan
import CofferFS.Quiet

/-!
# All or nothing, and the truth about it

A transaction makes every request all or nothing. Whether the reply says which of the two it was
depends on what comes after the commit: `setattr`, `mkdir`, `create` and `symlink` read the row for
their reply then, and when this last statement fails they answer `EIO` for a request that is done.

The plan of such a request lists its statements up to the commit, so the number of the one that reads
the row is the length of the plan. `LostReply` says in these terms when a reply is lost, and
`truthful_iff` that nothing else goes wrong.
-/

namespace CofferFS

open Script

/-- An error reply means that nothing was done, an answer that everything was. -/
structure Truthful (env : Env) (req : Request) (db : Db) : Prop where
  refused : ∀ e, (step env req db).1 = .error (.error e) → (step env req db).2 = db
  done : ∀ a, (step env req db).1 = .ok a →
    Effect env.mount env.now req db (step env req db).2

/-! ## The plans of the transactions -/

/-- The look at the ceiling, where there is one. -/
def ceilingPlan (m : Mount) (fits : Bool) : List Need :=
  if m.maxSize ≠ 0 then [.check fits] else []

/-- `BEGIN`, the look for the name, the three statements of `insert_child`, `COMMIT`. -/
def mkdirPlan : List Need := [.must, .must] ++ [.must, .must, .must] ++ [.must]

/-- As `mkdir`, with a look at the ceiling. -/
def createPlan (m : Mount) (db : Db) : List Need :=
  [.must, .must] ++ ceilingPlan m (notFull m db) ++ [.must, .must, .must] ++ [.must]

/-- As `create`, but the look for the name may fail. -/
def symlinkPlan (m : Mount) (target : String) (db : Db) : List Need :=
  [.must, .free] ++ ceilingPlan m (ceilingFits m target.utf8ByteSize db) ++
    [.must, .must, .must] ++ [.must]

/-- The statements of `truncate_inode`, after the look at the ceiling if the file grows. -/
def sizePlan (m : Mount) (row : Db.InodeRow) (size : Option ℕ) (db : Db) : List Need :=
  match size with
  | none => []
  | some n =>
    (if m.maxSize ≠ 0 ∧ row.size < n then [.check (growthFits m row.size n db)] else []) ++
      if 0 < n % blockSize then [.must, .must, .must, .must] else [.must, .must, .must]

/-- `BEGIN`, the row, one statement for each kind of attribute, `kill_priv`, `COMMIT`. -/
def setattrPlan (m : Mount) (caller : UInt32) (a : SetAttr) (row : Db.InodeRow) (db : Db) :
    List Need :=
  [.must, .must] ++ (if a.mode.isSome then [.must] else []) ++
    (if a.uid.isSome ∨ a.gid.isSome then [.must] else []) ++ sizePlan m row a.size db ++
    (if a.atime.isSome ∨ a.mtime.isSome then [.must] else []) ++
    (if setattrKills caller row.kind a then [.must, .must, .must] else []) ++ [.must]

/-! ## The transactions follow their plans -/

section Follows

variable {α : Type} {m : Mount} {db : Db} {now : F64} {ino parent : Ino} {name : String}
  {row : Db.InodeRow} {a : SetAttr}

theorem follows_refuseIf {c : Bool} {e : Errno} (h : c = false) :
    (refuseIf c e).Follows db [] () db := by
  rw [h]
  exact follows_pure ()

theorem follows_orRefuse {o : Option α} {x : α} {e : Errno} (h : o = some x) :
    (orRefuse o e).Follows db [] x db := by
  rw [h]
  exact follows_pure x

theorem follows_rowByIno : (orEio (rowByIno ino)).Follows db [.must] (db.rowByIno ino) db := by
  have hquery : (rowByIno ino).Follows db [.must] (db.rowByIno ino) db := follows_query rfl
  exact hquery.mapError

theorem follows_childIno :
    (orEio (childIno parent name)).Follows db [.must] (db.childIno parent name) db := by
  have hquery : (childIno parent name).Follows db [.must] (db.childIno parent name) db :=
    follows_query rfl
  exact hquery.mapError

theorem follows_sumCheck (refused : ℕ → Bool) :
    (sumCheck refused).Follows db [.check (sumPasses refused db)] () db where
  run fs n hmeets := by
    have hpasses : fs n = none → sumPasses refused db = true := hmeets.1
    rw [run_sumCheck, if_pos hpasses]
    rfl
  only fs n b k t hrun := by
    suffices hpasses : fs n = none → sumPasses refused db = true from ⟨hpasses, trivial⟩
    by_contra hfails
    rw [run_sumCheck, if_neg hfails] at hrun
    cases hrun

theorem follows_checkFull :
    (checkFull m).Follows db (ceilingPlan m (notFull m db)) () db := by
  rw [checkFull_eq, ceilingPlan]
  split_ifs
  · exact follows_sumCheck _
  · exact follows_pure ()

theorem follows_checkTarget (length : ℕ) :
    (checkTarget m length).Follows db (ceilingPlan m (ceilingFits m length db)) () db := by
  rw [checkTarget, ceilingPlan]
  split_ifs
  · exact follows_sumCheck _
  · exact follows_pure ()

theorem follows_linkDentry (hfree : db.childIno parent name = none) :
    (linkDentry parent name ino now).Follows db [.must, .must] ()
      (db.addName now parent name ino) := by
  have hdentry : Db.insertDentry parent name ino db =
      .ok ((), { db with dentries := db.dentries.insert (parent, name) ino }) := by
    rw [Db.insertDentry, AList.insertNew_eq_some_iff.2 ⟨hfree, rfl⟩]
  exact Follows.bind (follows_exec hdentry) (follows_update _)

theorem follows_insertChild {kind : Kind} {mode : BitVec 64} {uid gid : UInt32}
    {target : Option String} (hfree : db.childIno parent name = none)
    (hmax : db.nextIno ≤ i64Max) :
    (insertChild now parent name kind mode uid gid target).Follows db [.must, .must, .must]
      db.nextIno (db.addChild now parent name (Db.newInode now kind mode uid gid target)) := by
  have hinode : Db.insertInode (Db.newInode now kind mode uid gid target) db =
      .ok (db.nextIno, db.addInode (Db.newInode now kind mode uid gid target)) := by
    rw [Db.insertInode, if_pos hmax]
    rfl
  have hlink : (linkDentry parent name db.nextIno now).Follows
      (db.addInode (Db.newInode now kind mode uid gid target)) [.must, .must] ()
      (db.addChild now parent name (Db.newInode now kind mode uid gid target)) :=
    follows_linkDentry hfree
  exact Follows.bind (follows_exec hinode) (Follows.bind hlink (follows_pure _))

theorem follows_mkdir {mode : BitVec 32} (hfree : db.childIno parent name = none)
    (hmax : db.nextIno ≤ i64Max) :
    (inTransaction (fun _ => .eio) (mkdirTx m now parent name mode)).Follows db mkdirPlan db.nextIno
      (db.addChild now parent name
        (Db.newInode now .dir (fileMode sIfDir mode) m.uid m.gid none)) := by
  have hbody : (mkdirTx m now parent name mode).Follows db [.must, .must, .must, .must] db.nextIno
      (db.addChild now parent name
        (Db.newInode now .dir (fileMode sIfDir mode) m.uid m.gid none)) :=
    Follows.bind follows_childIno (Follows.bind (follows_refuseIf (by rw [hfree]; rfl))
      (follows_insertChild hfree hmax).mapError)
  exact hbody.transaction

theorem follows_create {mode : BitVec 32} (hfree : db.childIno parent name = none)
    (hmax : db.nextIno ≤ i64Max) :
    (inTransaction errnoFor (createTx m now parent name mode)).Follows db (createPlan m db)
      db.nextIno (db.addChild now parent name
        (Db.newInode now .file (fileMode sIfReg mode) m.uid m.gid none)) := by
  have hbody : (createTx m now parent name mode).Follows db
      ([.must] ++ ([] ++ (ceilingPlan m (notFull m db) ++ [.must, .must, .must]))) db.nextIno
      (db.addChild now parent name
        (Db.newInode now .file (fileMode sIfReg mode) m.uid m.gid none)) :=
    Follows.bind follows_childIno (Follows.bind (follows_refuseIf (by rw [hfree]; rfl))
      (Follows.bind follows_checkFull (follows_insertChild hfree hmax).mapError))
  have hplan : createPlan m db = .must :: ([.must] ++ ([] ++ (ceilingPlan m (notFull m db) ++
      [.must, .must, .must])) ++ [.must]) := by
    simp [createPlan]
  rw [hplan]
  exact hbody.transaction

/-- Whether the look for the name fails or finds nothing, `symlink` goes on. -/
theorem run_symlinkTx {target : String} (hfree : db.childIno parent name = none)
    (fs : ℕ → Option SqlError) (n : ℕ) :
    (symlinkTx m now parent name target).run fs n db =
      (do
        checkTarget m target.utf8ByteSize
        orEio (insertChild now parent name .symlink (sIfLnk ||| 0o777) m.uid m.gid
          (some target)) : Call Ino).run fs (n + 1) db := by
  have hlook : (childIno parent name).run fs n db =
      ⟨match fs n with | some e => .error e | none => .ok none, n + 1, db⟩ := by
    cases hfs : fs n with
    | some e => exact run_query_of_failure hfs
    | none => exact run_query_of_ok hfs (by rw [hfree])
  unfold symlinkTx
  rw [run_bind_of_ok run_attempt, hlook]
  cases fs n <;> rfl

theorem follows_symlink {target : String} (hfree : db.childIno parent name = none)
    (hmax : db.nextIno ≤ i64Max) :
    (inTransaction (fun _ => .eio) (symlinkTx m now parent name target)).Follows db
      (symlinkPlan m target db) db.nextIno (db.addChild now parent name
        (Db.newInode now .symlink (sIfLnk ||| 0o777) m.uid m.gid (some target))) := by
  have hrest : (do
      checkTarget m target.utf8ByteSize
      orEio (insertChild now parent name .symlink (sIfLnk ||| 0o777) m.uid m.gid
        (some target)) : Call Ino).Follows db
      (ceilingPlan m (ceilingFits m target.utf8ByteSize db) ++ [.must, .must, .must]) db.nextIno
      (db.addChild now parent name
        (Db.newInode now .symlink (sIfLnk ||| 0o777) m.uid m.gid (some target))) :=
    Follows.bind (follows_checkTarget _) (follows_insertChild hfree hmax).mapError
  have hbody := hrest.free (run_symlinkTx hfree)
  have hplan : symlinkPlan m target db = .must :: ((.free :: (ceilingPlan m
      (ceilingFits m target.utf8ByteSize db) ++ [.must, .must, .must])) ++ [.must]) := by
    simp [symlinkPlan]
  rw [hplan]
  exact hbody.transaction

theorem follows_applyMode (mode : Option (BitVec 32)) :
    (applyMode now ino row mode).Follows db (if mode.isSome then [.must] else []) ()
      (db.chmod now ino row mode) := by
  cases mode with
  | none => exact follows_pure ()
  | some m => exact follows_update _

theorem follows_applyOwner (uid gid : Option UInt32) :
    (applyOwner now ino row uid gid).Follows db
      (if uid.isSome ∨ gid.isSome then [.must] else []) () (db.chown now ino row uid gid) := by
  unfold applyOwner Db.chown
  split_ifs
  · exact follows_update _
  · exact follows_pure ()

theorem follows_applyTimes (atime mtime : Option TimeOrNow) :
    (applyTimes now ino row atime mtime).Follows db
      (if atime.isSome ∨ mtime.isSome then [.must] else []) ()
      (db.utimens now ino row atime mtime) := by
  unfold applyTimes Db.utimens
  split_ifs
  · exact follows_update _
  · exact follows_pure ()

theorem follows_truncateInode (length : ℕ) :
    (truncateInode now ino length).Follows db
      (if 0 < length % blockSize then [.must, .must, .must, .must] else [.must, .must, .must]) ()
      (db.truncate now ino length) := by
  unfold truncateInode Db.truncate
  split_ifs
  · have hblock : (getBlock ino (length / blockSize)).Follows
        (db.deleteBlocksAbove ino (length / blockSize)) [.must]
        ((db.deleteBlocksAbove ino (length / blockSize)).block ino (length / blockSize))
        (db.deleteBlocksAbove ino (length / blockSize)) := follows_query rfl
    have hlast : (do
        let block ← getBlock ino (length / blockSize)
        putBlock ino (length / blockSize) (block.take (length % blockSize)) : Sql Unit).Follows
        (db.deleteBlocksAbove ino (length / blockSize)) [.must, .must] ()
        ((db.deleteBlocksAbove ino (length / blockSize)).putBlock ino (length / blockSize)
          (((db.deleteBlocksAbove ino (length / blockSize)).block ino (length / blockSize)).take
            (length % blockSize))) :=
      Follows.bind hblock (follows_update _)
    exact Follows.bind (follows_update _) (Follows.bind hlast (follows_update _))
  · exact Follows.bind (follows_update _) (Follows.bind (follows_update _) (follows_update _))

theorem follows_killPriv {x : Table (Ino × String) (List UInt8)} (hx : db.xattrs = some x) :
    (killPriv ino).Follows db [.must, .must, .must] () (db.dropPrivileges ino) := by
  have hdelete : ((db.clearSuid ino).clearSgid ino).deleteXattr ino "security.capability" =
      .ok (if (ino, "security.capability") ∈ x then 1 else 0, db.dropPrivileges ino) :=
    deleteXattr_capability hx
  exact Follows.bind (follows_update _) (Follows.bind (follows_update _)
    (Follows.bind (follows_exec hdelete) (follows_pure ())))

theorem follows_killIf {x : Table (Ino × String) (List UInt8)} (hx : db.xattrs = some x)
    (kill : Bool) :
    (if kill then killPriv ino else pure () : Sql Unit).Follows db
      (if kill then [.must, .must, .must] else []) () (db.killIf kill ino) := by
  unfold Db.killIf
  split_ifs
  · exact follows_killPriv hx
  · exact follows_pure ()

theorem accepts_applySize {size : Option ℕ} (hmax : ∀ n, size = some n → n ≤ maxFileSize) :
    (applySize m now ino row size).Accepts db (sizePlan m row size db)
      (db.resize now ino size) := by
  cases size with
  | none => exact .of_pure
  | some n =>
    have hrange : (decide (maxFileSize < n)) = false := by simpa using hmax n rfl
    have hgrowth : (checkGrowth m row.size n).Follows db
        (if m.maxSize ≠ 0 ∧ row.size < n then [.check (growthFits m row.size n db)] else []) ()
        db := by
      unfold checkGrowth growthFits
      split_ifs
      · exact follows_sumCheck _
      · exact follows_pure ()
    have hrest : (do
        checkGrowth m row.size n
        succeeds (truncateInode now ino n) : Call Bool).Accepts db
        (sizePlan m row (some n) db) (db.resize now ino (some n)) :=
      Accepts.after hgrowth (follows_truncateInode n).succeeds
    have hall : (applySize m now ino row (some n)).Accepts db ([] ++ sizePlan m row (some n) db)
        (db.resize now ino (some n)) :=
      Accepts.after (follows_refuseIf hrange) hrest
    exact hall

theorem sizePlan_congr {db' : Db} (h : db'.sumSize = db.sumSize) (size : Option ℕ) :
    sizePlan m row size db' = sizePlan m row size db := by
  cases size with
  | none => rfl
  | some n => simp only [sizePlan, growthFits_congr h]

theorem never_refuseIf {c : Bool} {e : Errno} (h : c = true) : Never (refuseIf c e) := by
  rw [h]
  exact never_stop _

theorem follows_setattr {caller : UInt32} {x : Table (Ino × String) (List UInt8)}
    (hx : db.xattrs = some x) (hrow : db.rowByIno ino = some row)
    (hmax : ∀ n, a.size = some n → n ≤ maxFileSize) :
    (inTransaction (fun _ => .eio) (setattrTx m now caller ino a)).Follows db
      (setattrPlan m caller a row db) () (a.apply now caller ino row db) := by
  have hbody : (setattrTx m now caller ino a).Follows db
      ([.must] ++ ([] ++ ((if a.mode.isSome then [.must] else []) ++
        ((if a.uid.isSome ∨ a.gid.isSome then [.must] else []) ++ (sizePlan m row a.size db ++
          ((if a.atime.isSome ∨ a.mtime.isSome then [.must] else []) ++
            ((if setattrKills caller row.kind a then [.must, .must, .must] else []) ++ []))))))) ()
      (a.apply now caller ino row db) := by
    refine Follows.bind follows_rowByIno (Follows.bind (follows_orRefuse hrow) ?_)
    refine Accepts.bind (follows_applyMode a.mode).succeeds ?_ ?_
    swap
    · exact never_bind fun _ => never_bind fun _ => never_bind fun _ => never_bind fun _ =>
        never_refuseIf (by simp)
    refine Accepts.bind (follows_applyOwner a.uid a.gid).succeeds ?_ ?_
    swap
    · exact never_bind fun _ => never_bind fun _ => never_bind fun _ => never_refuseIf (by simp)
    have hsize := @accepts_applySize m
      ((db.chmod now ino row a.mode).chown now ino row a.uid a.gid) now ino row a.size hmax
    rw [sizePlan_congr sumSize_chown_chmod] at hsize
    refine Accepts.bind hsize ?_ ?_
    swap
    · exact never_bind fun _ => never_bind fun _ => never_refuseIf (by simp)
    refine Accepts.bind (follows_applyTimes a.atime a.mtime).succeeds ?_ ?_
    swap
    · exact never_bind fun _ => never_refuseIf (by simp)
    obtain ⟨y, hy⟩ := @exists_xattrs_utimens db now ino a row x hx
    refine Accepts.bind (follows_killIf hy _).succeeds (follows_refuseIf rfl) ?_
    exact never_refuseIf rfl
  have hplan : setattrPlan m caller a row db = .must :: (([.must] ++ ([] ++
      ((if a.mode.isSome then [.must] else []) ++
        ((if a.uid.isSome ∨ a.gid.isSome then [.must] else []) ++ (sizePlan m row a.size db ++
          ((if a.atime.isSome ∨ a.mtime.isSome then [.must] else []) ++
            ((if setattrKills caller row.kind a then [.must, .must, .must] else []) ++ []))))))) ++
      [.must]) := by
    simp [setattrPlan]
  rw [hplan]
  exact hbody.transaction

end Follows

/-! ## The reply after the commit -/

/-- An error reply of the callback means that nothing was done. -/
def Honest (p : Call Answer) (fs : ℕ → Option SqlError) (db : Db) : Prop :=
  ∀ e, (p.run fs 0 db).val = .error (.error e) → (p.run fs 0 db).store = db

section Honest

variable {α β : Type} {fs : ℕ → Option SqlError} {db db' : Db} {f : SqlError → Errno} {body : Call α}
  {g : α → Ino} {k : α → FileAttr → Answer} {plan : List Need} {x : α}

theorem honest_pass {q : Call β} {k : β → Call Answer} {b : β}
    (h : q.run fs 0 db = ⟨.ok b, 0, db⟩) : Honest (q >>= k) fs db ↔ Honest (k b) fs db := by
  rw [Honest, run_bind_of_ok h]
  rfl

theorem honest_stop {q : Call β} {k : β → Call Answer} {e : Halt}
    (h : q.run fs 0 db = ⟨.error e, 0, db⟩) : Honest (q >>= k) fs db := by
  intro e' _
  rw [run_bind_of_error h]

/-- When the transaction follows a plan, the reply is honest unless the plan is met, there was
something to do, and the statement that reads the row fails. -/
theorem honest_iff (h : (inTransaction f body).Follows db plan x db')
    (hmem : g x ∈ db'.inodes) :
    Honest (do let a ← inTransaction f body; let attr ← readBack (g a); pure (k a attr)) fs db ↔
      ¬ (Meets fs 0 plan ∧ fs plan.length ≠ none ∧ db' ≠ db) := by
  rcases hrun : (do
    let a ← inTransaction f body
    let attr ← readBack (g a)
    pure (k a attr) : Call Answer).run fs 0 db with ⟨r, n, t⟩
  rw [Honest, hrun]
  rcases run_readBack_after hrun with ⟨e, rfl, rfl, htx⟩ | ⟨a, commit, htx, hreply⟩
  · -- the transaction has failed, so the plan was not met
    have hplan : ¬ Meets fs 0 plan := by
      intro hmeets
      rw [h.run fs 0 hmeets] at htx
      cases htx
    simp [hplan]
  · have hmeets := h.only fs 0 a commit t htx
    rw [h.run fs 0 hmeets, Nat.zero_add] at htx
    cases htx
    subst hreply
    cases hfs : fs plan.length with
    | some failure => simp [readBackReply, Except.map, hmeets]
    | none =>
      have hreply (e : Errno) : (readBackReply none db' (g x)).map (k x) ≠ .error (.error e) := by
        intro he
        cases hback : readBackReply none db' (g x) with
        | ok attr =>
          rw [hback] at he
          cases he
        | error e' =>
          rw [hback] at he
          cases he
          exact readBackReply_ne_error hmem e hback
      simp [hreply]

/-- A transaction that cannot succeed is refused honestly. -/
theorem honest_of_never (h : ∀ a t, ¬ body.Yields db (.ok a) t) :
    Honest (do let a ← inTransaction f body; let attr ← readBack (g a); pure (k a attr)) fs db := by
  intro e _
  rcases hrun : (do
    let a ← inTransaction f body
    let attr ← readBack (g a)
    pure (k a attr) : Call Answer).run fs 0 db with ⟨r, n, t⟩
  rcases run_readBack_after hrun with ⟨e, rfl, rfl, htx⟩ | ⟨a, commit, htx, hreply⟩
  · rfl
  · exact (h a t (Yields.of_run htx).transaction_ok).elim

end Honest

/-! ## When a reply is lost -/

/-- The name is valid and free, and there is a number left for a new inode. -/
def Db.RoomFor (db : Db) (parent : Ino) (name : OsStr) : Prop :=
  (∃ n, name.toStr = some n ∧ db.childIno parent n = none) ∧ db.nextIno ≤ i64Max

/-- Every statement of the plan is executed, and the next one, which reads the row, fails. -/
def Lost (fs : ℕ → Option SqlError) (plan : List Need) : Prop :=
  Meets fs 0 plan ∧ fs plan.length ≠ none

/-- The request is done, but its row cannot be read back for the reply. -/
def LostReply (env : Env) (db : Db) : Request → Prop
  | .mkdir parent name _ =>
    env.mount.readOnly = false ∧ db.RoomFor parent name ∧ Lost env.fails mkdirPlan
  | .create parent name _ =>
    env.mount.readOnly = false ∧ db.RoomFor parent name ∧
      Lost env.fails (createPlan env.mount db)
  | .symlink parent linkName target =>
    env.mount.readOnly = false ∧ db.RoomFor parent linkName ∧
      ∃ t, target.toStr = some t ∧ Lost env.fails (symlinkPlan env.mount t db)
  | .setattr caller ino a =>
    env.mount.readOnly = false ∧ ∃ row, db.rowByIno ino = some row ∧
      (∀ n, a.size = some n → n ≤ maxFileSize) ∧
      Lost env.fails (setattrPlan env.mount caller a row db) ∧
      a.apply env.now caller ino row db ≠ db
  | _ => False

section Truthful

variable {m : Mount} {now : F64} {fs : ℕ → Option SqlError} {db : Db} {parent : Ino}

theorem addChild_ne {name : String} {r : Inode} : db.addChild now parent name r ≠ db := by
  intro h
  have hseq := congrArg Db.seq h
  exact (Db.seq_lt_nextIno db).ne' hseq

theorem nextIno_mem_addChild {name : String} {r : Inode} :
    db.nextIno ∈ (db.addChild now parent name r).inodes := by
  rw [← Db.core_ne_none_iff, Db.core_addChild, Function.update_self]
  simp

/-- What `mkdir`, `create` and `symlink` have in common after their guards. -/
theorem honest_child {f : SqlError → Errno} {body : Call Ino} {plan : List Need}
    {k : Ino → FileAttr → Answer} {r : Inode} {name : OsStr} {n : String} (hn : name.toStr = some n)
    (hfollows : db.childIno parent n = none → db.nextIno ≤ i64Max →
      (inTransaction f body).Follows db plan db.nextIno (db.addChild now parent n r))
    (honly : ∀ i t, body.Yields db (.ok i) t →
      db.childIno parent n = none ∧ db.nextIno ≤ i64Max) :
    Honest (do let i ← inTransaction f body; let attr ← readBack i; pure (k i attr)) fs db ↔
      ¬ (db.RoomFor parent name ∧ Lost fs plan) := by
  by_cases hroom : db.childIno parent n = none ∧ db.nextIno ≤ i64Max
  · have hRoomFor : db.RoomFor parent name := ⟨⟨n, hn, hroom.1⟩, hroom.2⟩
    have hiff := @honest_iff Ino fs db _ f body id k plan _ (hfollows hroom.1 hroom.2)
      nextIno_mem_addChild
    refine hiff.trans (not_congr ?_)
    simp [hRoomFor, Lost, addChild_ne]
  · have hRoomFor : ¬ db.RoomFor parent name := by
      rintro ⟨⟨n', hn', hfree⟩, hmax⟩
      rw [hn] at hn'
      cases hn'
      exact hroom ⟨hfree, hmax⟩
    have hhonest := @honest_of_never Ino fs db f body id k fun i t hy => hroom (honly i t hy)
    simp only [hRoomFor, false_and, not_false_eq_true, iff_true]
    exact hhonest

/-- A request whose answer follows its commit at once is honest. -/
theorem honest_of_achieves {p : Call Answer} {P : Db → Prop}
    (h : p.Achieves db fun r db' => P db' ∧ ∃ a, r = .ok a) : Honest p fs db := by
  intro e he
  rcases h _ _ (yields_run p fs 0 db) with ⟨-, hsame⟩ | ⟨-, a, ha⟩
  · exact hsame
  · rw [ha] at he
    cases he

theorem honest_of_readOnly {p : Call Answer} (h : p.ReadOnly) : Honest p fs db :=
  fun _ _ => h _ _ _ (yields_run p fs 0 db)

theorem run_orRefuse_some {α : Type} {o : Option α} {a : α} {e : Errno} {n : ℕ} (h : o = some a) :
    (orRefuse o e).run fs n db = ⟨.ok a, n, db⟩ := by
  rw [h]
  rfl

theorem run_orRefuse_none {α : Type} {o : Option α} {e : Errno} {n : ℕ} (h : o = none) :
    (orRefuse o e).run fs n db = ⟨.error (.error e), n, db⟩ := by
  rw [h]
  rfl

theorem honest_mkdir {name : OsStr} {mode : BitVec 32} :
    Honest (mkdir m now parent name mode) fs db ↔
      ¬ (m.readOnly = false ∧ db.RoomFor parent name ∧ Lost fs mkdirPlan) := by
  cases hro : m.readOnly with
  | true => simp [mkdir, honest_stop (run_refuseIf_true hro)]
  | false =>
    rw [mkdir, honest_pass (run_refuseIf_false hro)]
    cases hn : name.toStr with
    | none => simp [honest_stop (run_orRefuse_none rfl), Db.RoomFor, hn]
    | some n =>
      rw [honest_pass (run_orRefuse_some rfl)]
      refine (honest_child (k := fun _ attr => .entry ttl attr 0) hn follows_mkdir fun i t hy =>
        ⟨(mkdirTx_ok hy).2.2.1, (mkdirTx_ok hy).2.1⟩).trans ?_
      simp

theorem honest_create {name : OsStr} {mode : BitVec 32} :
    Honest (create m now parent name mode) fs db ↔
      ¬ (m.readOnly = false ∧ db.RoomFor parent name ∧ Lost fs (createPlan m db)) := by
  cases hro : m.readOnly with
  | true => simp [create, honest_stop (run_refuseIf_true hro)]
  | false =>
    rw [create, honest_pass (run_refuseIf_false hro)]
    cases hn : name.toStr with
    | none => simp [honest_stop (run_orRefuse_none rfl), Db.RoomFor, hn]
    | some n =>
      rw [honest_pass (run_orRefuse_some rfl)]
      refine (honest_child (k := fun i attr => .created ttl attr 0 i) hn follows_create fun i t hy =>
        ⟨(createTx_ok hy).2.2.1, (createTx_ok hy).2.1⟩).trans ?_
      simp

theorem honest_symlink {linkName target : OsStr} :
    Honest (symlink m now parent linkName target) fs db ↔
      ¬ (m.readOnly = false ∧ db.RoomFor parent linkName ∧
        ∃ t, target.toStr = some t ∧ Lost fs (symlinkPlan m t db)) := by
  cases hro : m.readOnly with
  | true => simp [symlink, honest_stop (run_refuseIf_true hro)]
  | false =>
    rw [symlink, honest_pass (run_refuseIf_false hro)]
    cases hn : linkName.toStr with
    | none => simp [honest_stop (run_orRefuse_none rfl), Db.RoomFor, hn]
    | some n =>
      rw [honest_pass (run_orRefuse_some rfl)]
      cases ht : target.toStr with
      | none => simp [honest_stop (run_orRefuse_none rfl)]
      | some t =>
        rw [honest_pass (run_orRefuse_some rfl)]
        refine (honest_child (k := fun _ attr => .entry ttl attr 0) hn follows_symlink fun i s hy =>
          ⟨(symlinkTx_ok hy).2.2.1, (symlinkTx_ok hy).2.1⟩).trans ?_
        simp

theorem honest_setattr {caller : UInt32} {ino : Ino} {a : SetAttr}
    {x : Table (Ino × String) (List UInt8)} (hx : db.xattrs = some x) :
    Honest (setattr m now caller ino a) fs db ↔
      ¬ (m.readOnly = false ∧ ∃ row, db.rowByIno ino = some row ∧
        (∀ n, a.size = some n → n ≤ maxFileSize) ∧ Lost fs (setattrPlan m caller a row db) ∧
          a.apply now caller ino row db ≠ db) := by
  cases hro : m.readOnly with
  | true => simp [setattr, honest_stop (run_refuseIf_true hro)]
  | false =>
    rw [setattr, honest_pass (run_refuseIf_false hro)]
    by_cases haccepted : ∃ row, db.rowByIno ino = some row ∧
        ∀ n, a.size = some n → n ≤ maxFileSize
    · obtain ⟨row, hrow, hmax⟩ := haccepted
      obtain ⟨r, hr, -⟩ := Option.map_eq_some_iff.1 hrow
      have hmem : ino ∈ (a.apply now caller ino row db).inodes :=
        Db.Concerns.apply.mem_inodes.2 (AList.mem_of_lookup_eq_some hr)
      have hiff := @honest_iff Unit fs db _ _ _ (fun _ => ino) (fun _ attr => .attr ttl attr) _ _
        (@follows_setattr m db now ino row a caller x hx hrow hmax) hmem
      refine hiff.trans (not_congr ?_)
      simp only [hrow, Option.some.injEq, exists_eq_left', Lost, and_assoc, true_and]
      exact (and_iff_right hmax).symm
    · have hhonest := @honest_of_never Unit fs db (fun _ => .eio) (setattrTx m now caller ino a)
        (fun _ => ino) (fun _ attr => .attr ttl attr) fun u t hy => by
          obtain ⟨row, hrow, hmax, -⟩ := setattrTx_ok hy
          exact haccepted ⟨row, hrow, hmax⟩
      refine iff_of_true hhonest ?_
      rintro ⟨-, row, hrow, hmax, -⟩
      exact haccepted ⟨row, hrow, hmax⟩

/-- **When the reply tells the truth**: in a reachable state, whatever fails, an error reply means
that nothing was done and an answer that the complete effect is committed, unless the request is
done and the statement that reads its row for the reply fails. -/
theorem truthful_iff {env : Env} {req : Request} (hdb : Reachable db) :
    Truthful env req db ↔ ¬ LostReply env db req := by
  obtain ⟨x, hx⟩ := hdb.exists_xattrs
  -- an answer always tells the truth
  have hdone (a : Answer) (ha : (step env req db).1 = .ok a) :
      Effect env.mount env.now req db (step env req db).2 := by
    rcases step_effect env req db with ⟨⟨e, he⟩, -⟩ | heffect
    · rw [ha] at he
      cases he
    · exact heffect
  have hrefused : Honest (handle env.mount env.now req) env.fails db ↔ ¬ LostReply env db req := by
    cases req with
    | setattr caller ino a => exact honest_setattr hx
    | mkdir parent name mode => exact honest_mkdir
    | create parent name mode => exact honest_create
    | symlink parent linkName target => exact honest_symlink
    | link ino newparent newname =>
      exact iff_of_true (honest_of_achieves (link_achieves ino newparent newname)) id
    | unlink parent name => exact iff_of_true (honest_of_achieves (unlink_achieves parent name)) id
    | rmdir parent name => exact iff_of_true (honest_of_achieves (rmdir_achieves parent name)) id
    | rename parent name newparent newname flags =>
      exact iff_of_true (honest_of_achieves (rename_achieves parent name newparent newname flags)) id
    | write fh offset data kill =>
      exact iff_of_true (honest_of_achieves (write_achieves fh offset data kill)) id
    | setxattr ino name value flags =>
      exact iff_of_true (honest_of_achieves (setxattr_achieves ino name value flags)) id
    | removexattr ino name =>
      exact iff_of_true (honest_of_achieves (removexattr_achieves ino name)) id
    | lookup parent name => exact iff_of_true (honest_of_readOnly (readOnly_lookup _ _)) id
    | getattr ino => exact iff_of_true (honest_of_readOnly (readOnly_getattr _)) id
    | readlink ino => exact iff_of_true (honest_of_readOnly (readOnly_readlink _)) id
    | «open» ino flags => exact iff_of_true (honest_of_readOnly (readOnly_open _ _ _)) id
    | read fh offset size => exact iff_of_true (honest_of_readOnly (readOnly_read _ _ _)) id
    | readdir ino offset room => exact iff_of_true (honest_of_readOnly (readOnly_readdir _ _ _)) id
    | statfs => exact iff_of_true (honest_of_readOnly (readOnly_statfs _)) id
    | getxattr ino name size =>
      exact iff_of_true (honest_of_readOnly (readOnly_getxattr _ _ _ _)) id
    | listxattr ino size => exact iff_of_true (honest_of_readOnly (readOnly_listxattr _ _ _)) id
    | _ => exact iff_of_true (honest_of_readOnly (readOnly_pure _)) id
  constructor
  · exact fun h => hrefused.1 h.refused
  · exact fun h => ⟨hrefused.2 h, hdone⟩

end Truthful

/-- The statement with the given number fails. -/
def failsAt (k n : ℕ) : Option SqlError := if n = k then some .other else none

/-- When the directory that should hold the new one cannot be touched, `mkdir` says so. -/
theorem truthful_iff_mkdir :
    Truthful ⟨.plain, 0, failsAt 4⟩ (.mkdir rootIno nameA 0o755) (.created 0 0 0) := by
  refine (truthful_iff (reachable_created 0 0 0)).2 ?_
  intro h
  obtain ⟨-, -, hmeets, -⟩ := h
  have hexecuted : failsAt 4 4 = none := hmeets.2.2.2.2.1
  cases hexecuted

/-- **A directory is made and its maker is told otherwise**: when the statement after the commit
fails, `mkdir` answers `EIO` and the directory is there. -/
theorem mkdir_loses_reply :
    ¬ ∀ env req db, Reachable db → KernelOk db req → Truthful env req db := by
  intro h
  have htruth := h ⟨.plain, 0, failsAt 6⟩ (.mkdir rootIno nameA 0o755) (.created 0 0 0)
    (reachable_created 0 0 0) (isDir_root_created 0 0 0)
  have hreply : (step ⟨.plain, 0, failsAt 6⟩ (.mkdir rootIno nameA 0o755) (.created 0 0 0)).1 =
      .error (.error .eio) := by
    decide +kernel
  have hsame := congrArg Db.seq (htruth.refused .eio hreply)
  have hseq : (step ⟨.plain, 0, failsAt 6⟩ (.mkdir rootIno nameA 0o755)
      (.created 0 0 0)).2.seq = 2 := by
    decide +kernel
  rw [hseq] at hsame
  cases hsame

end CofferFS
