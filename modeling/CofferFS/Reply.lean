import CofferFS.Frame

/-!
# What a reply says

`setattr`, `mkdir`, `create` and `symlink` commit first and read the row for their reply
afterwards. `run_readBack_after` says how such a callback ends: before the commit with an error and
no effect, or after it, and then the reply depends on the statement that reads the row. A panic is
possible only there, when the times of the row are converted.
-/

namespace CofferFS

open Script

variable {α β : Type} {m : Mount} {now : F64} {db db' : Db} {ino : Ino}

/-! ## Before the commit nothing panics -/

/-- The piece of a callback does not panic. -/
def Panicless (p : Call α) : Prop := ∀ db db', ¬ p.Yields db (.error .panic) db'

theorem panicless_pure (a : α) : Panicless (pure a) := by
  intro db db' h
  cases (yields_pure.1 h).1

theorem panicless_refuse (e : Errno) : Panicless (refuse e : Call α) := by
  intro db db' h
  cases (yields_stop.1 h).1

theorem panicless_refuseIf (c : Bool) (e : Errno) : Panicless (refuseIf c e) := by
  unfold refuseIf
  cases c
  · exact panicless_pure ()
  · exact panicless_refuse e

theorem panicless_orRefuse (o : Option α) (e : Errno) : Panicless (orRefuse o e) := by
  cases o with
  | none => exact panicless_refuse e
  | some a => exact panicless_pure a

theorem panicless_orErrno (f : SqlError → Errno) (p : Sql α) : Panicless (orErrno f p) := by
  intro db db' h
  obtain ⟨fs, n, n', h⟩ := h
  rw [orErrno, run_mapError] at h
  rcases hp : p.run fs n db with ⟨e | a, n₁, db₁⟩
  · rw [hp] at h
    cases h
  · rw [hp] at h
    cases h

theorem panicless_attempt (p : Sql α) : Panicless (attempt p : Call (Except SqlError α)) := by
  intro db db' h
  obtain ⟨q, hq, -⟩ := yields_attempt.1 h
  cases hq

theorem panicless_succeeds (p : Sql α) : Panicless (Script.succeeds p : Call Bool) := by
  intro db db' h
  obtain ⟨fs, n, n', h⟩ := h
  rw [run_succeeds] at h
  rcases hp : p.run fs n db with ⟨e | a, n₁, db₁⟩
  · rw [hp] at h
    cases h
  · rw [hp] at h
    cases h

theorem panicless_bind {p : Call α} {k : α → Call β} (hp : Panicless p)
    (hk : ∀ a, Panicless (k a)) : Panicless (p >>= k) := by
  intro db db' h
  rcases h.bind with ⟨e, he, h⟩ | ⟨a, t, -, h⟩
  · cases he
    exact hp db db' h
  · exact hk a t db' h

theorem panicless_inTransaction {f : SqlError → Errno} {body : Call α} (h : Panicless body) :
    Panicless (inTransaction f body) := by
  intro db db' hy
  rcases hy.transaction_error_cases with ⟨e, he⟩ | ⟨t, hbody⟩ | ⟨e, he⟩
  · cases he
  · exact h db t hbody
  · cases he

theorem panicless_checkCeiling (increase : ℕ) : Panicless (checkCeiling m increase) := by
  refine panicless_bind (panicless_attempt _) fun used => ?_
  cases used with
  | ok used => exact panicless_refuseIf _ _
  | error e => exact panicless_pure ()

theorem panicless_checkGrowth (oldSize newSize : ℕ) :
    Panicless (checkGrowth m oldSize newSize) := by
  unfold checkGrowth
  split_ifs
  · exact panicless_checkCeiling _
  · exact panicless_pure ()

theorem panicless_applySize (row : Db.InodeRow) (size : Option ℕ) :
    Panicless (applySize m now ino row size) := by
  cases size with
  | none => exact panicless_pure true
  | some newLen =>
    exact panicless_bind (panicless_refuseIf _ _) fun _ =>
      panicless_bind (panicless_checkGrowth _ _) fun _ => panicless_succeeds _

theorem panicless_setattrTx (caller : UInt32) (a : SetAttr) :
    Panicless (setattrTx m now caller ino a) := by
  refine panicless_bind (panicless_orErrno _ _) fun _ => ?_
  refine panicless_bind (panicless_orRefuse _ _) fun row => ?_
  refine panicless_bind (panicless_succeeds _) fun _ => ?_
  refine panicless_bind (panicless_succeeds _) fun _ => ?_
  refine panicless_bind (panicless_applySize _ _) fun _ => ?_
  refine panicless_bind (panicless_succeeds _) fun _ => ?_
  refine panicless_bind (panicless_succeeds _) fun _ => ?_
  exact panicless_refuseIf _ _

theorem panicless_writeLoop (pos : ℕ) (data : List UInt8) : Panicless (writeLoop ino pos data) := by
  fun_induction writeLoop ino pos data with
  | case1 => exact panicless_pure ()
  | case2 pos data hdata ih =>
    exact panicless_bind (panicless_orErrno _ _) fun _ =>
      panicless_bind (panicless_orErrno _ _) fun _ => ih

theorem panicless_write (offset : ℕ) (data : List UInt8) (kill : Bool) :
    Panicless (write m now ino offset data kill) := by
  refine panicless_bind (panicless_refuseIf _ _) fun _ => ?_
  refine panicless_bind (panicless_refuseIf _ _) fun _ => ?_
  refine panicless_bind (panicless_inTransaction ?_) fun _ => panicless_pure _
  refine panicless_bind (panicless_orErrno _ _) fun _ => ?_
  refine panicless_bind (panicless_orRefuse _ _) fun row => ?_
  refine panicless_bind (panicless_checkGrowth _ _) fun _ => ?_
  refine panicless_bind (panicless_writeLoop _ _) fun _ => ?_
  refine panicless_bind (panicless_orErrno _ _) fun _ => ?_
  split_ifs
  · exact panicless_orErrno _ _
  · exact panicless_pure ()

theorem panicless_setxattr {name : OsStr} {value : List UInt8} {flags : XattrFlags} :
    Panicless (setxattr m now ino name value flags) := by
  refine panicless_bind (panicless_refuseIf _ _) fun _ => ?_
  refine panicless_bind (panicless_refuseIf _ _) fun _ => ?_
  refine panicless_bind (panicless_orRefuse _ _) fun n => ?_
  refine panicless_bind (panicless_refuseIf _ _) fun _ => ?_
  refine panicless_bind (panicless_refuseIf _ _) fun _ => ?_
  refine panicless_bind (panicless_inTransaction ?_) fun _ => panicless_pure _
  refine panicless_bind (panicless_orErrno _ _) fun _ => ?_
  refine panicless_bind (panicless_orRefuse _ _) fun _ => ?_
  refine panicless_bind (panicless_orErrno _ _) fun _ => ?_
  refine panicless_bind (panicless_refuseIf _ _) fun _ => ?_
  refine panicless_bind (panicless_refuseIf _ _) fun _ => ?_
  exact panicless_bind (panicless_orErrno _ _) fun _ => panicless_orErrno _ _

/-! ## After the commit -/

/-- What the statement that reads the row makes of the reply. -/
def readBackReply (failure : Option SqlError) (db : Db) (ino : Ino) : Except Halt FileAttr :=
  match failure, (db.rowByIno ino).map (toAttr ino) with
  | some _, _ => .error (.error .eio)
  | none, none => .error (.error .eio)
  | none, some none => .error .panic
  | none, some (some attr) => .ok attr

/-- When the row is there and can be read, the reply is not an error. -/
theorem readBackReply_ne_error (hino : ino ∈ db.inodes) (e : Errno) :
    readBackReply none db ino ≠ .error (.error e) := by
  obtain ⟨r, hr⟩ := AList.exists_lookup_of_mem hino
  unfold readBackReply
  rw [Db.rowByIno, hr, Option.map_some, Option.map_some]
  cases toAttr ino (db.mapRow ino r) with
  | none =>
    intro h
    cases h
  | some attr =>
    intro h
    cases h

theorem readBack_run (fs : ℕ → Option SqlError) (n : ℕ) :
    (readBack ino).run fs n db = ⟨readBackReply (fs n) db ino, n + 1, db⟩ := by
  unfold readBack readBackReply
  cases hfs : fs n with
  | some e => exact run_bind_of_error (run_orErrno_of_error (run_query_of_failure hfs))
  | none =>
    have hquery : (orEio (rowByIno ino)).run fs n db = ⟨.ok (db.rowByIno ino), n + 1, db⟩ :=
      run_orErrno_of_ok (run_query_of_ok hfs rfl)
    rw [run_bind_of_ok hquery]
    cases hrow : db.rowByIno ino with
    | none => rfl
    | some row =>
      rw [Option.map_some]
      cases hattr : toAttr ino row with
      | none => simp [orRefuse, orPanic, hattr, run_bind, run_pure, run_stop]
      | some attr => simp [orRefuse, orPanic, hattr, run_bind, run_pure]

/-- **How a callback ends that reads the row after its commit**: with the error of the
transaction, which has no effect then, or with what reading the row made of the reply. -/
theorem run_readBack_after {f : SqlError → Errno} {body : Call α} {g : α → Ino}
    {k : α → FileAttr → Answer} {fs : ℕ → Option SqlError} {n n' : ℕ} {r : Reply}
    (h : (do let a ← inTransaction f body; let attr ← readBack (g a); pure (k a attr)).run fs n db =
      ⟨r, n', db'⟩) :
    (∃ e, r = .error e ∧ db' = db ∧ (inTransaction f body).run fs n db = ⟨.error e, n', db⟩) ∨
      ∃ a commit, (inTransaction f body).run fs n db = ⟨.ok a, commit, db'⟩ ∧
        r = (readBackReply (fs commit) db' (g a)).map (k a) := by
  rcases htx : (inTransaction f body).run fs n db with ⟨e | a, n₁, db₁⟩
  · obtain rfl := transaction_rolls_back htx
    rw [run_bind_of_error htx] at h
    cases h
    exact Or.inl ⟨e, rfl, rfl, rfl⟩
  · rw [run_bind_of_ok htx, run_bind, readBack_run] at h
    right
    cases hreply : readBackReply (fs n₁) db₁ (g a) with
    | error e =>
      rw [hreply] at h
      cases h
      exact ⟨a, n₁, rfl, by rw [hreply]; rfl⟩
    | ok attr =>
      rw [hreply] at h
      cases h
      exact ⟨a, n₁, rfl, by rw [hreply]; rfl⟩

end CofferFS
