import CofferFS.Lib.Local
import CofferFS.Requests

/-!
# The statements that a request executes

Failures of other statements than those that a request executes do not matter to it, `local_handle`.
So one may ask whether a request has met a failure, `Env.Hits`, and if it has not it is answered as
in an environment in which nothing fails, `step_of_not_hits`.
-/

namespace CofferFS

open Script

section Local

variable {α : Type} {m : Mount} {now : F64} {i parent : Ino}

/-! ## The pieces of the callbacks -/

theorem local_refuse (e : Errno) : (refuse e : Call α).Local := local_stop _

theorem local_refuseIf (c : Bool) (e : Errno) : (refuseIf c e).Local :=
  local_ite (local_refuse e) (local_pure ())

theorem local_orRefuse (o : Option α) (e : Errno) : (orRefuse o e).Local := by
  cases o with
  | none => exact local_refuse e
  | some a => exact local_pure a

theorem local_orPanic (o : Option α) : (orPanic o).Local := by
  cases o with
  | none => exact local_stop _
  | some a => exact local_pure a

theorem local_orErrno {f : SqlError → Errno} {p : Sql α} (h : p.Local) : (orErrno f p).Local :=
  h.mapError

theorem local_orEio {p : Sql α} (h : p.Local) : (orEio p).Local := h.mapError

theorem local_inTransaction {f : SqlError → Errno} {p : Call α} (h : p.Local) :
    (inTransaction f p).Local := h.transaction

theorem local_linkDentry {name : String} : (linkDentry parent name i now).Local :=
  (local_exec _).bind fun _ => local_update _

theorem local_insertChild {name : String} {kind : Kind} {mode : BitVec 64} {uid gid : UInt32}
    {target : Option String} :
    (insertChild now parent name kind mode uid gid target).Local :=
  (local_exec _).bind fun _ => local_linkDentry.bind fun _ => local_pure _

theorem local_deleteInode : (deleteInode i).Local :=
  (local_update _).bind fun _ => (local_exec _).bind fun _ => local_exec _

theorem local_unlinkDentry {name : String} : (unlinkDentry parent name i now).Local :=
  (local_update _).bind fun _ => (local_query _).bind fun _ =>
    (local_ite local_deleteInode (local_update _)).bind fun _ => local_update _

theorem local_ensureRemovable : (ensureRemovable i).Local :=
  (local_orEio (local_query _)).bind fun _ => local_ite
    ((local_orEio (local_query _)).bind fun _ => local_refuseIf _ _) (local_pure _)

theorem local_killPriv : (killPriv i).Local :=
  (local_update _).bind fun _ => (local_update _).bind fun _ =>
    (local_exec _).bind fun _ => local_pure _

theorem local_truncateInode {length : ℕ} : (truncateInode now i length).Local :=
  (local_update _).bind fun _ => (local_ite ((local_query _).bind fun _ => local_update _)
    (local_update _)).bind fun _ => local_update _

theorem local_readBack : (readBack i).Local :=
  (local_orEio (local_query _)).bind fun _ =>
    (local_orRefuse _ _).bind fun _ => local_orPanic _

theorem local_checkCeiling {increase : ℕ} : (checkCeiling m increase).Local := by
  refine (local_query _).attempt.bind fun used => ?_
  cases used with
  | ok used => exact local_refuseIf _ _
  | error e => exact local_pure _

theorem local_checkGrowth {oldSize newSize : ℕ} : (checkGrowth m oldSize newSize).Local :=
  local_ite local_checkCeiling (local_pure _)

theorem local_checkTarget {length : ℕ} : (checkTarget m length).Local :=
  local_ite local_checkCeiling (local_pure _)

theorem local_checkFull : (checkFull m).Local := by
  refine local_ite ((local_query _).attempt.bind fun used => ?_) (local_pure _)
  cases used with
  | ok used => exact local_refuseIf _ _
  | error e => exact local_pure _

theorem local_applySize {row : Db.InodeRow} {size : Option ℕ} :
    (applySize m now i row size).Local := by
  cases size with
  | none => exact local_pure _
  | some n =>
    exact (local_refuseIf _ _).bind fun _ => local_checkGrowth.bind fun _ =>
      local_truncateInode.succeeds

theorem local_applyMode {row : Db.InodeRow} {mode : Option (BitVec 32)} :
    (applyMode now i row mode).Local := by
  cases mode with
  | none => exact local_pure _
  | some mode => exact local_update _

theorem local_replyXattr {size : ℕ} {data : List UInt8} : (replyXattr size data).Local :=
  local_ite (local_pure _) (local_ite (local_refuse _) (local_pure _))

theorem local_fetchNames {names : List String} : (fetchNames names).Local := by
  induction names with
  | nil => exact local_pure _
  | cons name names ih => exact (local_query _).bind fun _ => ih.bind fun _ => local_pure _

theorem local_fetchRows {rows : List Db.ListedName} : (fetchRows rows).Local := by
  induction rows with
  | nil => exact local_pure _
  | cons r rows ih =>
    refine (local_query _).attempt.bind fun row => ?_
    split
    · exact ih.bind fun _ => local_pure _
    · exact ih
    · exact local_pure _

theorem local_parentIno : (parentIno i).Local :=
  local_ite (local_pure _) (local_orErrno (local_query _))

theorem local_blockOrDefault {blockNo : ℕ} : (blockOrDefault i blockNo).Local :=
  (local_query _).attempt.bind fun _ => local_pure _

theorem local_readLoop {stop pos : ℕ} {out : List UInt8} : (readLoop i stop pos out).Local := by
  fun_induction readLoop i stop pos out with
  | case1 pos out h ih => exact local_blockOrDefault.bind fun block => ih block
  | case2 pos out h => exact local_pure _

theorem local_writeLoop {pos : ℕ} {data : List UInt8} : (writeLoop i pos data).Local := by
  fun_induction writeLoop i pos data with
  | case1 pos => exact local_pure _
  | case2 pos data h ih =>
    exact (local_orEio (local_query _)).bind fun _ =>
      (local_orErrno (local_update _)).bind fun _ => ih

/-! ## The callbacks -/

theorem local_setattrTx {caller : UInt32} {a : SetAttr} : (setattrTx m now caller i a).Local := by
  refine (local_orEio (local_query _)).bind fun _ => (local_orRefuse _ _).bind fun _ => ?_
  refine local_applyMode.succeeds.bind fun _ => ?_
  refine (local_ite (local_update _) (local_pure _)).succeeds.bind fun _ => ?_
  refine local_applySize.bind fun _ => ?_
  refine (local_ite (local_update _) (local_pure _)).succeeds.bind fun _ => ?_
  exact (local_ite local_killPriv (local_pure _)).succeeds.bind fun _ => local_refuseIf _ _

theorem local_symlinkTx {name target : String} : (symlinkTx m now parent name target).Local :=
  (local_query _).attempt.bind fun _ => (local_refuseIf _ _).bind fun _ =>
    local_checkTarget.bind fun _ => local_orEio local_insertChild

theorem local_replaceTarget {name : String} {target : Option Ino} :
    (replaceTarget now parent name i target).Local := by
  cases target with
  | none => exact local_pure _
  | some existing =>
    exact local_ite (local_ensureRemovable.bind fun _ => local_orEio local_unlinkDentry)
      (local_pure _)

theorem local_renameTx {newparent : Ino} {name newname : String} {flags : RenameFlags} :
    (renameTx now parent name newparent newname flags).Local := by
  refine (local_orEio (local_query _)).bind fun _ => (local_orRefuse _ _).bind fun _ => ?_
  refine (local_orEio (local_query _)).bind fun _ => (local_refuseIf _ _).bind fun _ => ?_
  refine (local_refuseIf _ _).bind fun _ => local_replaceTarget.bind fun _ => ?_
  exact (local_orEio (local_exec _)).bind fun _ => local_orEio (local_update _)

theorem local_linkTx {newname : String} : (linkTx now i parent newname).Local := by
  refine (local_orEio (local_query _)).bind fun _ => (local_orRefuse _ _).bind fun _ => ?_
  refine (local_refuseIf _ _).bind fun _ => (local_orEio (local_query _)).bind fun _ => ?_
  refine (local_refuseIf _ _).bind fun _ => (local_orEio local_linkDentry).bind fun _ => ?_
  exact (local_orEio (local_update _)).bind fun _ => local_readBack

theorem local_writeTx {offset : ℕ} {data : List UInt8} {kill : Bool} :
    (writeTx m now i offset data kill).Local := by
  refine (local_orEio (local_query _)).bind fun _ => (local_orRefuse _ _).bind fun _ => ?_
  refine local_checkGrowth.bind fun _ => local_writeLoop.bind fun _ => ?_
  exact (local_orErrno (local_update _)).bind fun _ =>
    local_ite (local_orErrno local_killPriv) (local_pure _)

theorem local_setxattrTx {name : String} {value : List UInt8} {flags : XattrFlags} :
    (setxattrTx now i name value flags).Local := by
  refine (local_orEio (local_query _)).bind fun _ => (local_orRefuse _ _).bind fun _ => ?_
  refine (local_orEio (local_query _)).bind fun _ => (local_refuseIf _ _).bind fun _ => ?_
  refine (local_refuseIf _ _).bind fun _ => (local_orEio (local_exec _)).bind fun _ => ?_
  exact local_orEio (local_update _)

/-- A callback looks at the failures of the statements that it executes. -/
theorem local_handle (m : Mount) (now : F64) (req : Request) : (handle m now req).Local := by
  cases req with
  | lookup parent name =>
    exact (local_orRefuse _ _).bind fun _ => (local_orEio (local_query _)).bind fun _ =>
      (local_orRefuse _ _).bind fun _ => local_readBack.bind fun _ => local_pure _
  | getattr ino =>
    exact (local_orEio (local_query _)).bind fun _ => (local_orRefuse _ _).bind fun _ =>
      (local_orPanic _).bind fun _ => local_pure _
  | readlink ino =>
    exact (local_orEio (local_query _)).bind fun _ => (local_orRefuse _ _).bind fun _ =>
      local_pure _
  | setattr caller ino a =>
    exact (local_refuseIf _ _).bind fun _ => (local_inTransaction local_setattrTx).bind fun _ =>
      local_readBack.bind fun _ => local_pure _
  | mkdir parent name mode =>
    refine (local_refuseIf _ _).bind fun _ => (local_orRefuse _ _).bind fun _ => ?_
    refine (local_inTransaction ?_).bind fun _ => local_readBack.bind fun _ => local_pure _
    exact (local_orEio (local_query _)).bind fun _ => (local_refuseIf _ _).bind fun _ =>
      local_orEio local_insertChild
  | create parent name mode =>
    refine (local_refuseIf _ _).bind fun _ => (local_orRefuse _ _).bind fun _ => ?_
    refine (local_inTransaction ?_).bind fun _ => local_readBack.bind fun _ => local_pure _
    exact (local_orEio (local_query _)).bind fun _ => (local_refuseIf _ _).bind fun _ =>
      local_checkFull.bind fun _ => local_orErrno local_insertChild
  | symlink parent linkName target =>
    refine (local_refuseIf _ _).bind fun _ => (local_orRefuse _ _).bind fun _ => ?_
    exact (local_orRefuse _ _).bind fun _ => (local_inTransaction local_symlinkTx).bind fun _ =>
      local_readBack.bind fun _ => local_pure _
  | link ino newparent newname =>
    exact (local_refuseIf _ _).bind fun _ => (local_orRefuse _ _).bind fun _ =>
      (local_inTransaction local_linkTx).bind fun _ => local_pure _
  | unlink parent name =>
    refine (local_refuseIf _ _).bind fun _ => (local_orRefuse _ _).bind fun _ => ?_
    refine (local_inTransaction ?_).bind fun _ => local_pure _
    exact (local_orEio (local_query _)).bind fun _ => (local_orRefuse _ _).bind fun _ =>
      local_orEio local_unlinkDentry
  | rmdir parent name =>
    refine (local_refuseIf _ _).bind fun _ => (local_orRefuse _ _).bind fun _ => ?_
    refine (local_inTransaction ?_).bind fun _ => local_pure _
    exact (local_orEio (local_query _)).bind fun _ => (local_orRefuse _ _).bind fun _ =>
      (local_refuseIf _ _).bind fun _ => local_ensureRemovable.bind fun _ =>
        local_orEio local_unlinkDentry
  | rename parent name newparent newname flags =>
    exact (local_refuseIf _ _).bind fun _ => (local_orRefuse _ _).bind fun _ =>
      (local_orRefuse _ _).bind fun _ => (local_inTransaction local_renameTx).bind fun _ =>
        local_pure _
  | «open» ino flags => exact (local_refuseIf _ _).bind fun _ => local_pure _
  | read fh offset size =>
    exact (local_orEio (local_query _)).bind fun _ => (local_orRefuse _ _).bind fun _ =>
      local_ite (local_pure _) (local_readLoop.bind fun _ => local_pure _)
  | write fh offset data kill =>
    exact (local_refuseIf _ _).bind fun _ => (local_refuseIf _ _).bind fun _ =>
      (local_inTransaction local_writeTx).bind fun _ => local_pure _
  | readdir ino offset room =>
    exact local_parentIno.bind fun _ => (local_orEio (local_query _)).bind fun _ =>
      local_fetchRows.bind fun _ => local_pure _
  | statfs =>
    refine (local_query _).attempt.bind fun _ => local_ite (local_pure _) ?_
    split <;> exact local_pure _
  | setxattr ino name value flags =>
    refine (local_refuseIf _ _).bind fun _ => (local_refuseIf _ _).bind fun _ => ?_
    refine (local_orRefuse _ _).bind fun _ => (local_refuseIf _ _).bind fun _ => ?_
    exact (local_refuseIf _ _).bind fun _ => (local_inTransaction local_setxattrTx).bind fun _ =>
      local_pure _
  | getxattr ino name size =>
    exact (local_orRefuse _ _).bind fun _ => (local_refuseIf _ _).bind fun _ =>
      (local_orEio (local_query _)).bind fun _ => (local_orRefuse _ _).bind fun _ =>
        local_replyXattr
  | listxattr ino size =>
    exact local_ite ((local_orEio (local_query _)).bind fun _ =>
      (local_orEio local_fetchNames).bind fun _ => local_replyXattr) local_replyXattr
  | removexattr ino name =>
    refine (local_refuseIf _ _).bind fun _ => (local_orRefuse _ _).bind fun _ => ?_
    refine (local_refuseIf _ _).bind fun _ => (local_inTransaction ?_).bind fun _ => local_pure _
    exact (local_orEio (local_exec _)).bind fun _ => (local_refuseIf _ _).bind fun _ =>
      local_orEio (local_update _)
  | flush | fsync | release | opendir | access => exact local_pure _

end Local

/-! ## Failures that are met -/

/-- How many statements a request executes. -/
def statements (env : Env) (req : Request) (db : Db) : ℕ :=
  ((handle env.mount env.now req).run env.fails 0 db).next

/-- One of the statements that the request executes fails. -/
def Env.Hits (env : Env) (req : Request) (db : Db) : Prop :=
  ∃ k < statements env req db, env.fails k ≠ none

/-- The environment as far as the request has come to know it. -/
def Env.met (env : Env) (req : Request) (db : Db) : Env :=
  { env with fails := cut env.fails (statements env req db) }

variable {env : Env} {req : Request} {db : Db}

theorem step_met : step (env.met req db) req db = step env req db := by
  have hrun := @Local.run_cut _ _ _ _ env.fails db _ (local_handle env.mount env.now req)
  exact congrArg (fun o => (o.val, o.store)) hrun

theorem failing_met : Failing (env.met req db).fails ↔ env.Hits req db := failing_cut

/-- **A request that meets no failure is served as if there were none.** -/
theorem step_of_not_hits (h : ¬ env.Hits req db) :
    step env req db = step (.quiet env.mount env.now) req db := by
  have hcalm (k : ℕ) (hk : k < statements env req db) : env.fails k = none :=
    not_not.1 fun hne => h ⟨k, hk, hne⟩
  have hrun := (local_handle env.mount env.now req).run_calm hcalm
  exact congrArg (fun o => (o.val, o.store)) hrun.symm

end CofferFS
