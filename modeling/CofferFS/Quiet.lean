import CofferFS.Reply

/-!
# Callbacks without failures

What the callbacks answer when every statement is executed. The ceiling is the one check that
depends on other inodes: `ceilingFits` is its condition.
-/

namespace CofferFS

open Script

section Helpers

variable {α β : Type} {db : Db} {ino parent : Ino} {now : F64}

theorem runs_refuseIf_false {c : Bool} {e : Errno} (h : c = false) :
    (refuseIf c e).Runs db (.ok ()) db := by
  rw [h]
  exact runs_pure ()

theorem runs_refuseIf_true {c : Bool} {e : Errno} (h : c = true) :
    (refuseIf c e).Runs db (.error (.error e)) db := by
  rw [h]
  exact runs_stop _

theorem runs_orRefuse_none {o : Option α} {e : Errno} (h : o = none) :
    (orRefuse o e).Runs db (.error (.error e)) db := by
  rw [h]
  exact runs_stop _

theorem runs_orRefuse_some {o : Option α} {a : α} {e : Errno} (h : o = some a) :
    (orRefuse o e).Runs db (.ok a) db := by
  rw [h]
  exact runs_pure a

theorem runs_rowByIno : (orEio (rowByIno ino)).Runs db (.ok (db.rowByIno ino)) db :=
  Runs.mapError_ok (runs_query_ok rfl)

theorem runs_childIno {name : String} :
    (childIno parent name).Runs db (.ok (db.childIno parent name)) db := runs_query_ok rfl

theorem runs_writeLoop {pos : ℕ} {data : List UInt8} :
    (writeLoop ino pos data).Runs db (.ok ()) (db.writeBlocks ino pos data) := by
  fun_induction Db.writeBlocks ino pos data db with
  | case1 pos db =>
    rw [writeLoop, if_pos rfl]
    exact runs_pure ()
  | case2 pos data db hdata ih =>
    rw [writeLoop, if_neg hdata]
    refine Runs.bind (Runs.mapError_ok (runs_query_ok rfl)) ?_
    exact Runs.bind (Runs.mapError_ok (runs_update _)) ih

/-- Where there is a table of extended attributes, the capabilities of a file can be deleted. -/
theorem deleteXattr_capability {x : Table (Ino × String) (List UInt8)} (hx : db.xattrs = some x) :
    ((db.clearSuid ino).clearSgid ino).deleteXattr ino "security.capability" =
      .ok (if (ino, "security.capability") ∈ x then 1 else 0, db.dropPrivileges ino) := by
  have hx' : ((db.clearSuid ino).clearSgid ino).xattrs = some x := hx
  rw [Db.deleteXattr, Db.onXattrs, hx']
  simp [Db.dropPrivileges, hx]

theorem runs_killPriv {x : Table (Ino × String) (List UInt8)} (hx : db.xattrs = some x) :
    (killPriv ino).Runs db (.ok ()) (db.dropPrivileges ino) :=
  Runs.bind (runs_update _) (Runs.bind (runs_update _)
    (Runs.bind (runs_exec_ok (deleteXattr_capability hx)) (runs_pure ())))

end Helpers

/-! ## The ceiling -/

section Ceiling

variable {m : Mount} {db : Db}

/-- The condition `refused` is false of the sum over the sizes, or the sum is out of range. -/
def sumPasses (refused : ℕ → Bool) (db : Db) : Bool :=
  match db.sumSize with
  | .ok used => !refused (asU64 used)
  | .error _ => true

/-- `used + increase > self.max_size` is false. -/
def ceilingFits (m : Mount) (increase : ℕ) : Db → Bool :=
  sumPasses fun used => m.maxSize < addU64 used increase

/-- `used >= self.max_size` is false. -/
def notFull (m : Mount) : Db → Bool := sumPasses fun used => m.maxSize ≤ used

/-- What the checks of the ceiling have in common. -/
def sumCheck (refused : ℕ → Bool) : Call Unit := do
  let used ← attempt currentTotalSize
  match used with
  | .ok used => refuseIf (refused used) .enospc
  | .error _ => pure ()

theorem checkCeiling_eq (increase : ℕ) :
    checkCeiling m increase = sumCheck fun used => m.maxSize < addU64 used increase := rfl

theorem checkFull_eq :
    checkFull m = if m.maxSize ≠ 0 then sumCheck fun used => m.maxSize ≤ used else pure () := rfl

/-- How such a check ends: a failing query skips it. -/
theorem run_sumCheck (refused : ℕ → Bool) (fs : ℕ → Option SqlError) (n : ℕ) :
    (sumCheck refused).run fs n db =
      ⟨if fs n = none → sumPasses refused db = true then .ok () else .error (.error .enospc), n + 1,
        db⟩ := by
  unfold sumPasses sumCheck
  rw [run_bind_of_ok run_attempt]
  cases hfs : fs n with
  | some e =>
    rw [currentTotalSize, run_query_of_failure hfs]
    simp [run_pure]
  | none =>
    cases hsum : db.sumSize with
    | ok used =>
      have hquery : currentTotalSize.run fs n db = ⟨.ok (asU64 used), n + 1, db⟩ :=
        run_query_of_ok hfs (by rw [hsum]; rfl)
      rw [hquery]
      cases hrefused : refused (asU64 used) <;>
        simp [hrefused, refuseIf, refuse, run_pure, run_stop]
    | error e =>
      have hquery : currentTotalSize.run fs n db = ⟨.error e, n + 1, db⟩ := by
        rw [currentTotalSize, query, run_exec, hfs, hsum]
        rfl
      rw [hquery]
      simp [run_pure]

theorem runs_checkCeiling (increase : ℕ) :
    (checkCeiling m increase).Runs db
      (if ceilingFits m increase db then .ok () else .error (.error .enospc)) db := by
  intro n
  refine ⟨n + 1, ?_⟩
  rw [checkCeiling_eq, run_sumCheck]
  unfold ceilingFits
  cases hfits : sumPasses (fun used => m.maxSize < addU64 used increase) db <;> simp [noFailure]

/-- A file may grow from `oldSize` to `newSize`. -/
def growthFits (m : Mount) (oldSize newSize : ℕ) (db : Db) : Bool :=
  if m.maxSize ≠ 0 ∧ oldSize < newSize then ceilingFits m (subU64 newSize oldSize) db else true

theorem runs_checkGrowth (oldSize newSize : ℕ) :
    (checkGrowth m oldSize newSize).Runs db
      (if growthFits m oldSize newSize db then .ok () else .error (.error .enospc)) db := by
  unfold checkGrowth growthFits
  by_cases hgrow : m.maxSize ≠ 0 ∧ oldSize < newSize
  · rw [if_pos hgrow, if_pos hgrow]
    exact runs_checkCeiling _
  · rw [if_neg hgrow, if_neg hgrow, if_pos rfl]
    exact runs_pure ()

end Ceiling

/-! ## write -/

section Write

variable {m : Mount} {db : Db} {now : F64} {fh : Ino} {offset : ℕ} {data : List UInt8} {kill : Bool}
  {row : Db.InodeRow}

theorem runs_killIf {x : Table (Ino × String) (List UInt8)} (hx : db.xattrs = some x)
    (f : SqlError → Errno) :
    (if kill then orErrno f (killPriv fh) else pure () : Call Unit).Runs db (.ok ())
      (db.killIf kill fh) := by
  unfold Db.killIf
  split_ifs
  · exact Runs.mapError_ok (runs_killPriv hx)
  · exact runs_pure ()

theorem runs_writeTx_missing (hrow : db.rowByIno fh = none) :
    (writeTx m now fh offset data kill).Runs db (.error (.error .enoent)) db := by
  exact Runs.bind runs_rowByIno (runs_orRefuse_none hrow).bind_error

theorem runs_writeTx_full (hrow : db.rowByIno fh = some row)
    (hfits : growthFits m row.size (addU64 offset data.length) db = false) :
    (writeTx m now fh offset data kill).Runs db (.error (.error .enospc)) db := by
  refine Runs.bind runs_rowByIno (Runs.bind (runs_orRefuse_some hrow) (Runs.bind_error ?_))
  have hcheck := @runs_checkGrowth m db row.size (addU64 offset data.length)
  rwa [if_neg (by simp [hfits])] at hcheck

theorem runs_writeTx {x : Table (Ino × String) (List UInt8)} (hx : db.xattrs = some x)
    (hrow : db.rowByIno fh = some row)
    (hfits : growthFits m row.size (addU64 offset data.length) db = true) :
    (writeTx m now fh offset data kill).Runs db (.ok ())
      (writeEffect now fh offset data kill row db) := by
  refine Runs.bind runs_rowByIno (Runs.bind (runs_orRefuse_some hrow) ?_)
  have hcheck := @runs_checkGrowth m db row.size (addU64 offset data.length)
  rw [if_pos hfits] at hcheck
  refine Runs.bind hcheck (Runs.bind runs_writeLoop ?_)
  refine Runs.bind (Runs.mapError_ok (runs_update _)) ?_
  obtain ⟨y, hy⟩ : ∃ y, ((db.writeBlocks fh offset data).setSize
      (asI64 (writtenSize row offset data)) now fh).xattrs = some y := by
    have hc : Db.Concerns fh db (db.writeBlocks fh offset data) := Db.Concerns.writeBlocks
    have hsome := hc.isSome_xattrs
    rw [hx] at hsome
    exact Option.isSome_iff_exists.1 hsome
  exact runs_killIf hy errnoFor

/-- Whether a write of `data` at `offset` is in the range of `i64`. -/
theorem efbig_eq_false (hmax : offset + data.length ≤ maxFileSize) :
    (maxFileSize < offset || subU64 maxFileSize offset < data.length : Bool) = false := by
  have hoffset : offset ≤ maxFileSize := (Nat.le_add_right _ _).trans hmax
  rw [subU64_of_le hoffset (by decide)]
  simp only [Bool.or_eq_false_iff, decide_eq_false_iff_not]
  omega

theorem efbig_eq_true (hmax : ¬ offset + data.length ≤ maxFileSize) :
    (maxFileSize < offset || subU64 maxFileSize offset < data.length : Bool) = true := by
  by_cases hoffset : offset ≤ maxFileSize
  · rw [subU64_of_le hoffset (by decide)]
    simp only [Bool.or_eq_true, decide_eq_true_eq]
    omega
  · simp [not_le.1 hoffset]

/-- The transaction of a write that may be made decides the step. -/
theorem step_write (hro : m.readOnly = false) (hmax : offset + data.length ≤ maxFileSize)
    {r : Except Halt Unit} {db' : Db}
    (h : (inTransaction errnoFor (writeTx m now fh offset data kill)).Runs db r db') :
    step (.quiet m now) (.write fh offset data kill) db =
      (r.map fun _ => .written (data.length % 2 ^ 32), db') := by
  refine step_quiet (Runs.bind (runs_refuseIf_false hro) ?_)
  refine Runs.bind (runs_refuseIf_false (efbig_eq_false hmax)) ?_
  cases r with
  | error e => exact h.bind_error
  | ok u => exact Runs.bind h (runs_pure _)

/-- What a write meets when every statement is executed. -/
def writeRefusal (m : Mount) (fh : Ino) (offset : ℕ) (data : List UInt8) (db : Db) :
    Option Errno :=
  if m.readOnly then some .erofs
  else if maxFileSize < offset + data.length then some .efbig
  else
    match db.rowByIno fh with
    | none => some .enoent
    | some row =>
      if growthFits m row.size (addU64 offset data.length) db then none else some .enospc

/-- A write that is refused changes nothing. -/
theorem step_write_refused {e : Errno} (h : writeRefusal m fh offset data db = some e) :
    step (.quiet m now) (.write fh offset data kill) db = (.error (.error e), db) := by
  unfold writeRefusal at h
  split_ifs at h with hro hmax
  · cases h
    exact step_quiet (runs_refuseIf_true hro).bind_error
  · cases h
    exact step_quiet (Runs.bind (runs_refuseIf_false (by simpa using hro))
      (runs_refuseIf_true (efbig_eq_true (by omega))).bind_error)
  · have hro : m.readOnly = false := by simpa using hro
    have hmax : offset + data.length ≤ maxFileSize := by omega
    split at h
    · rename_i hrow
      cases h
      exact step_write hro hmax (runs_writeTx_missing hrow).transaction_error
    · rename_i row hrow
      split_ifs at h with hfits
      cases h
      exact step_write hro hmax (runs_writeTx_full hrow (by simpa using hfits)).transaction_error

/-- A write that is not refused has its effect. -/
theorem step_write_accepted {x : Table (Ino × String) (List UInt8)} (hx : db.xattrs = some x)
    (h : writeRefusal m fh offset data db = none) :
    ∃ row, db.rowByIno fh = some row ∧ offset + data.length ≤ maxFileSize ∧
      growthFits m row.size (addU64 offset data.length) db = true ∧
      step (.quiet m now) (.write fh offset data kill) db =
        (.ok (.written (data.length % 2 ^ 32)), writeEffect now fh offset data kill row db) := by
  unfold writeRefusal at h
  split_ifs at h with hro hmax
  have hro : m.readOnly = false := by simpa using hro
  have hmax : offset + data.length ≤ maxFileSize := by omega
  split at h
  · cases h
  · rename_i row hrow
    split_ifs at h with hfits
    exact ⟨row, hrow, hmax, hfits, step_write hro hmax (runs_writeTx hx hrow hfits).transaction⟩

end Write

/-! ## setattr -/

section Setattr

variable {m : Mount} {db : Db} {now : F64} {caller : UInt32} {ino : Ino} {a : SetAttr}
  {row : Db.InodeRow}

theorem runs_applyMode (mode : Option (BitVec 32)) :
    (applyMode now ino row mode).Runs db (.ok ()) (db.chmod now ino row mode) := by
  cases mode with
  | none => exact runs_pure ()
  | some m => exact runs_update _

theorem runs_applyOwner (uid gid : Option UInt32) :
    (applyOwner now ino row uid gid).Runs db (.ok ()) (db.chown now ino row uid gid) := by
  unfold applyOwner Db.chown
  split_ifs
  · exact runs_update _
  · exact runs_pure ()

theorem runs_applyTimes (atime mtime : Option TimeOrNow) :
    (applyTimes now ino row atime mtime).Runs db (.ok ())
      (db.utimens now ino row atime mtime) := by
  unfold applyTimes Db.utimens
  split_ifs
  · exact runs_update _
  · exact runs_pure ()

theorem runs_truncateInode (length : ℕ) :
    (truncateInode now ino length).Runs db (.ok ()) (db.truncate now ino length) := by
  unfold truncateInode Db.truncate
  refine Runs.bind (runs_update _) ?_
  split_ifs
  · exact Runs.bind (Runs.bind (runs_query_ok rfl) (runs_update _)) (runs_update _)
  · exact Runs.bind (runs_update _) (runs_update _)

/-- The sum over the sizes does not depend on the other columns. -/
theorem sumSize_updateInode {f : Inode → Inode} (hf : ∀ r, (f r).size = r.size) :
    (db.updateInode ino f).sumSize = db.sumSize := by
  have hsizes : ((db.updateInode ino f).inodes.entries.map fun e => e.2.size) =
      db.inodes.entries.map fun e => e.2.size := by
    show (db.inodes.entries.map _).map _ = _
    rw [List.map_map]
    apply List.map_congr_left
    intro e _
    by_cases he : e.1 = ino <;> simp [he, hf]
  rw [Db.sumSize, Db.sumSize, hsizes]

theorem sumSize_chown_chmod :
    ((db.chmod now ino row a.mode).chown now ino row a.uid a.gid).sumSize = db.sumSize := by
  have hmode : (db.chmod now ino row a.mode).sumSize = db.sumSize := by
    cases a.mode with
    | none => rfl
    | some m => exact sumSize_updateInode fun _ => rfl
  unfold Db.chown
  split_ifs
  · have howner := @sumSize_updateInode (db.chmod now ino row a.mode) ino
      (fun r => { r with uid := a.uid.getD row.uid, gid := a.gid.getD row.gid, ctime := now })
      fun _ => rfl
    exact howner.trans hmode
  · exact hmode

theorem growthFits_congr {db' : Db} (h : db'.sumSize = db.sumSize) (oldSize newSize : ℕ) :
    growthFits m oldSize newSize db' = growthFits m oldSize newSize db := by
  simp only [growthFits, ceilingFits, sumPasses, h]

/-- Why the size in a `setattr` request is refused, if it is. -/
def sizeRefusal (m : Mount) (row : Db.InodeRow) (size : Option ℕ) (db : Db) : Option Errno :=
  match size with
  | none => none
  | some n =>
    if maxFileSize < n then some .efbig
    else if growthFits m row.size n db then none else some .enospc

theorem sizeRefusal_eq_none_iff {size : Option ℕ} :
    sizeRefusal m row size db = none ↔ (∀ n, size = some n → n ≤ maxFileSize) ∧
      ∀ n, size = some n → growthFits m row.size n db = true := by
  cases size with
  | none => simp [sizeRefusal]
  | some n =>
    simp only [sizeRefusal, Option.some.injEq, forall_eq']
    split_ifs with hmax hfits
    · simp [hmax]
    · simp [not_lt.1 hmax, hfits]
    · simp [hfits]

theorem sizeRefusal_congr {db' : Db} (h : db'.sumSize = db.sumSize) (size : Option ℕ) :
    sizeRefusal m row size db' = sizeRefusal m row size db := by
  cases size with
  | none => rfl
  | some n => simp only [sizeRefusal, growthFits_congr h]

theorem runs_applySize_refused {size : Option ℕ} {e : Errno}
    (h : sizeRefusal m row size db = some e) :
    (applySize m now ino row size).Runs db (.error (.error e)) db := by
  cases size with
  | none => cases h
  | some n =>
    simp only [sizeRefusal] at h
    split_ifs at h with hmax hfits
    · cases h
      exact (runs_refuseIf_true (by simpa using hmax)).bind_error
    · cases h
      refine Runs.bind (runs_refuseIf_false (by simpa using hmax)) (Runs.bind_error ?_)
      have hcheck := @runs_checkGrowth m db row.size n
      rwa [if_neg hfits] at hcheck

theorem runs_applySize {size : Option ℕ} (h : sizeRefusal m row size db = none) :
    (applySize m now ino row size).Runs db (.ok true) (db.resize now ino size) := by
  cases size with
  | none => exact runs_pure true
  | some n =>
    simp only [sizeRefusal] at h
    split_ifs at h with hmax hfits
    refine Runs.bind (runs_refuseIf_false (by simpa using hmax)) ?_
    have hcheck := @runs_checkGrowth m db row.size n
    rw [if_pos hfits] at hcheck
    exact Runs.bind hcheck (runs_truncateInode n).succeeds

/-- What a `setattr` meets when every statement is executed. -/
def setattrRefusal (m : Mount) (ino : Ino) (a : SetAttr) (db : Db) : Option Errno :=
  if m.readOnly then some .erofs
  else
    match db.rowByIno ino with
    | none => some .enoent
    | some row => sizeRefusal m row a.size db

theorem runs_setattrTx_refused {e : Errno} (hrow : db.rowByIno ino = some row)
    (h : sizeRefusal m row a.size db = some e) :
    (setattrTx m now caller ino a).Runs db (.error (.error e))
      ((db.chmod now ino row a.mode).chown now ino row a.uid a.gid) := by
  refine Runs.bind runs_rowByIno (Runs.bind (runs_orRefuse_some hrow) ?_)
  refine Runs.bind (runs_applyMode a.mode).succeeds ?_
  refine Runs.bind (runs_applyOwner a.uid a.gid).succeeds (Runs.bind_error ?_)
  exact runs_applySize_refused ((sizeRefusal_congr sumSize_chown_chmod _).trans h)

/-- The table of extended attributes is still there when the privileges are dropped. -/
theorem exists_xattrs_utimens {x : Table (Ino × String) (List UInt8)} (hx : db.xattrs = some x) :
    ∃ y, ((((db.chmod now ino row a.mode).chown now ino row a.uid a.gid).resize
      now ino a.size).utimens now ino row a.atime a.mtime).xattrs = some y := by
  have hsome := (@Db.Concerns.apply db ino now a 0 row).isSome_xattrs
  rw [hx, SetAttr.apply, Db.killIf] at hsome
  split_ifs at hsome
  · rw [Db.dropPrivileges, Option.isSome_map] at hsome
    exact Option.isSome_iff_exists.1 hsome
  · exact Option.isSome_iff_exists.1 hsome

theorem runs_setattrTx {x : Table (Ino × String) (List UInt8)} (hx : db.xattrs = some x)
    (hrow : db.rowByIno ino = some row) (h : sizeRefusal m row a.size db = none) :
    (setattrTx m now caller ino a).Runs db (.ok ()) (a.apply now caller ino row db) := by
  refine Runs.bind runs_rowByIno (Runs.bind (runs_orRefuse_some hrow) ?_)
  refine Runs.bind (runs_applyMode a.mode).succeeds ?_
  refine Runs.bind (runs_applyOwner a.uid a.gid).succeeds ?_
  refine Runs.bind (runs_applySize ((sizeRefusal_congr sumSize_chown_chmod _).trans h)) ?_
  refine Runs.bind (runs_applyTimes a.atime a.mtime).succeeds ?_
  obtain ⟨y, hy⟩ := @exists_xattrs_utimens db now ino a row x hx
  have hkill : (if setattrKills caller row.kind a then killPriv ino else pure () : Sql Unit).Runs
      ((((db.chmod now ino row a.mode).chown now ino row a.uid a.gid).resize
        now ino a.size).utimens now ino row a.atime a.mtime)
      (.ok ()) (a.apply now caller ino row db) := by
    rw [SetAttr.apply, Db.killIf]
    split_ifs
    · exact runs_killPriv hy
    · exact runs_pure ()
  exact Runs.bind hkill.succeeds (runs_pure ())

/-- A `setattr` that is refused changes nothing. -/
theorem step_setattr_refused {e : Errno} (h : setattrRefusal m ino a db = some e) :
    step (.quiet m now) (.setattr caller ino a) db = (.error (.error e), db) := by
  unfold setattrRefusal at h
  split_ifs at h with hro
  · cases h
    exact step_quiet (runs_refuseIf_true hro).bind_error
  · refine step_quiet (Runs.bind (runs_refuseIf_false (by simpa using hro)) (Runs.bind_error ?_))
    cases hrow : db.rowByIno ino with
    | none =>
      rw [hrow] at h
      cases h
      have hmissing : (setattrTx m now caller ino a).Runs db (.error (.error .enoent)) db :=
        Runs.bind runs_rowByIno (runs_orRefuse_none hrow).bind_error
      exact hmissing.transaction_error
    | some row =>
      rw [hrow] at h
      exact (runs_setattrTx_refused hrow h).transaction_error

/-- The row is read back when nothing fails. -/
theorem runs_readBack : (readBack ino).Runs db (readBackReply none db ino) db :=
  fun n => ⟨n + 1, readBack_run noFailure n⟩

/-- A `setattr` that is not refused has its effect, and is not answered with an error. -/
theorem step_setattr_accepted {x : Table (Ino × String) (List UInt8)} (hx : db.xattrs = some x)
    (h : setattrRefusal m ino a db = none) :
    ∃ row, db.rowByIno ino = some row ∧ sizeRefusal m row a.size db = none ∧
      (step (.quiet m now) (.setattr caller ino a) db).2 = a.apply now caller ino row db ∧
      ∀ e, (step (.quiet m now) (.setattr caller ino a) db).1 ≠ .error (.error e) := by
  unfold setattrRefusal at h
  split_ifs at h with hro
  cases hrow : db.rowByIno ino with
  | none =>
    rw [hrow] at h
    cases h
  | some row =>
    rw [hrow] at h
    refine ⟨row, rfl, h, ?_⟩
    have htx : (inTransaction (fun _ => .eio) (setattrTx m now caller ino a)).Runs db (.ok ())
        (a.apply now caller ino row db) := (runs_setattrTx hx hrow h).transaction
    have hmem : ino ∈ (a.apply now caller ino row db).inodes := by
      obtain ⟨r, hr, -⟩ := Option.map_eq_some_iff.1 hrow
      exact Db.Concerns.apply.mem_inodes.2 (AList.mem_of_lookup_eq_some hr)
    have hback := @runs_readBack (a.apply now caller ino row db) ino
    cases hreply : readBackReply none (a.apply now caller ino row db) ino with
    | error e =>
      rw [hreply] at hback
      have hstep : step (.quiet m now) (.setattr caller ino a) db = (.error e, _) :=
        step_quiet (Runs.bind (runs_refuseIf_false (by simpa using hro))
          (Runs.bind htx hback.bind_error))
      rw [hstep]
      refine ⟨rfl, fun e' he' => ?_⟩
      cases he'
      exact readBackReply_ne_error hmem e' hreply
    | ok attr =>
      rw [hreply] at hback
      have hstep : step (.quiet m now) (.setattr caller ino a) db = (.ok (.attr ttl attr), _) :=
        step_quiet (Runs.bind (runs_refuseIf_false (by simpa using hro))
          (Runs.bind htx (Runs.bind hback (runs_pure _))))
      rw [hstep]
      exact ⟨rfl, fun e' he' => by cases he'⟩

end Setattr

/-! ## symlink -/

section Symlink

variable {m : Mount} {db : Db} {now : F64} {parent : Ino}

theorem runs_symlinkTx_full {name target : String} (hmax : m.maxSize ≠ 0)
    (hfits : ceilingFits m target.utf8ByteSize db = false) :
    ∃ e, (symlinkTx m now parent name target).Runs db (.error e) db := by
  cases hname : (db.childIno parent name).isSome with
  | true => exact ⟨_, Runs.bind runs_childIno.attempt (runs_refuseIf_true hname).bind_error⟩
  | false =>
    have hcheck : (checkTarget m target.utf8ByteSize).Runs db (.error (.error .enospc)) db := by
      have h := @runs_checkCeiling m db target.utf8ByteSize
      rw [if_neg (by simp [hfits])] at h
      rwa [checkTarget, if_pos hmax]
    exact ⟨_, Runs.bind runs_childIno.attempt
      (Runs.bind (runs_refuseIf_false hname) hcheck.bind_error)⟩

/-- A symlink whose target does not fit under the ceiling changes nothing. -/
theorem step_symlink_full {linkName target : OsStr} {t : String} (ht : target.toStr = some t)
    (hmax : m.maxSize ≠ 0) (hfits : ceilingFits m t.utf8ByteSize db = false) :
    (step (.quiet m now) (.symlink parent linkName target) db).2 = db := by
  have hend {r : Reply} (h : (symlink m now parent linkName target).Runs db r db) :
      (step (.quiet m now) (.symlink parent linkName target) db).2 = db := by
    rw [@step_quiet m now (.symlink parent linkName target) db db r h]
  cases hro : m.readOnly with
  | true => exact hend (runs_refuseIf_true hro).bind_error
  | false =>
    cases hname : linkName.toStr with
    | none =>
      exact hend (Runs.bind (runs_refuseIf_false hro) (runs_orRefuse_none hname).bind_error)
    | some n =>
      obtain ⟨e, htx⟩ := @runs_symlinkTx_full m db now parent n t hmax hfits
      exact hend (Runs.bind (runs_refuseIf_false hro) (Runs.bind (runs_orRefuse_some hname)
        (Runs.bind (runs_orRefuse_some ht) htx.transaction_error.bind_error)))

end Symlink

end CofferFS
