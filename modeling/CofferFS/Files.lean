import CofferFS.Read
import CofferFS.Reply

/-!
# Files as arrays of bytes

The abstract view of a container's files: `Files` gives every inode number an array of bytes, and
`Files.next` says what an answered request does to it, in terms of `Sparse.splice` and
`Sparse.resize` alone. `Holds db files` connects it to the tables. One step of the code keeps the
connection, so in every run without failures a read returns the bytes of the abstract file.
-/

namespace CofferFS

open Script

/-- The bytes of every file. -/
abbrev Files := Ino → List UInt8

namespace Files

/-- What a request does to the files when it is accepted. -/
def after (files : Files) : Request → Files
  | .write fh offset data _ => Function.update files fh (Sparse.splice (files fh) offset data)
  | .setattr _ ino a =>
    match a.size with
    | some n => Function.update files ino (Sparse.resize (files ino) n)
    | none => files
  | _ => files

theorem after_setattr (files : Files) (caller : UInt32) (ino : Ino) (a : SetAttr) :
    files.after (.setattr caller ino a) =
      match a.size with
      | some n => Function.update files ino (Sparse.resize (files ino) n)
      | none => files := rfl

/-- The files after a request that is replied to. A callback that panics has committed: it panics
over the times in its reply. -/
def next (files : Files) (req : Request) : Reply → Files
  | .error (.error _) => files
  | _ => files.after req

end Files

/-- `i` is a regular file. -/
def Db.IsFile (db : Db) (i : Ino) : Prop := ∃ r, db.inodes.lookup i = some r ∧ r.kind = .file

/-- The tables hold the files. Numbers that were never handed out stand for empty files. -/
structure Holds (db : Db) (files : Files) : Prop where
  content : ∀ i, db.IsFile i → db.content i = files i
  fresh : ∀ i, db.seq < i → files i = []

variable {db db' : Db} {files : Files} {i : Ino}

theorem Db.isFile_iff : db.IsFile i ↔ ∃ size, db.core i = some (.file, size) := by
  constructor
  · intro h
    obtain ⟨r, hr, hkind⟩ := h
    exact ⟨r.size, by rw [core, hr, Option.map_some, hkind]⟩
  · intro h
    obtain ⟨size, hsize⟩ := h
    obtain ⟨r, hr, hc⟩ := core_eq_some_iff.1 hsize
    exact ⟨r, hr, (Prod.ext_iff.1 hc).1⟩

theorem Db.Concerns.isFile {j : Ino} (h : Concerns i db db') : db'.IsFile j ↔ db.IsFile j := by
  have hkind : (db'.core j).map Prod.fst = (db.core j).map Prod.fst := by
    by_cases hj : j = i
    · rw [hj, h.kind]
    · rw [h.core j hj]
  have hiff (db : Db) : db.IsFile j ↔ (db.core j).map Prod.fst = some .file := by
    rw [isFile_iff]
    simp
  rw [hiff, hiff, hkind]

/-! ## One step -/

theorem holds_created (now : F64) (uid gid : UInt32) :
    Holds (.created now uid gid) fun _ => [] := by
  refine ⟨fun i hi => ?_, fun _ _ => rfl⟩
  obtain ⟨r, hr, hkind⟩ := hi
  change ((∅ : Table Ino Inode).insert rootIno _).lookup i = some r at hr
  rw [AList.lookup_insert_eq] at hr
  split_ifs at hr
  · cases hr
    cases hkind
  · rw [AList.lookup_empty] at hr
    cases hr

namespace Holds

variable (h : Holds db files)

include h

/-- A change of the set of inodes leaves the files alone. -/
theorem change (hc : db.Change db') : Holds db' files := by
  cases hc with
  | keeps hcore hdata hseq =>
    refine ⟨fun i hi => ?_, fun i hi => h.fresh i (hseq ▸ hi)⟩
    rw [Db.content, hcore, Db.blocks_of_data hdata]
    rw [Db.isFile_iff, hcore, ← Db.isFile_iff] at hi
    exact h.content i hi
  | @adds kind size _ _ hfile hcore hdata hseq =>
    refine ⟨fun i hi => ?_, fun i hi => h.fresh i ((Db.seq_lt_nextIno db).trans (hseq ▸ hi))⟩
    obtain ⟨size', hi⟩ := Db.isFile_iff.1 hi
    by_cases hnew : i = db.nextIno
    · -- a new file is empty
      subst hnew
      rw [Db.content_of_core hi, h.fresh _ (Db.seq_lt_nextIno db)]
      rw [hcore, Function.update_self] at hi
      cases hi
      rw [hfile rfl]
      rfl
    · rw [Db.content, hcore, Db.blocks_of_data hdata, Function.update_of_ne hnew]
      rw [hcore, Function.update_of_ne hnew] at hi
      exact h.content i (Db.isFile_iff.2 ⟨size', hi⟩)
  | @drops d hd hcore hdata hseq =>
    refine ⟨fun i hi => ?_, fun i hi => h.fresh i (hseq ▸ hi)⟩
    obtain ⟨size, hi⟩ := Db.isFile_iff.1 hi
    have hid : i ≠ d := by
      rintro rfl
      rw [hcore, Function.update_self] at hi
      cases hi
    rcases Db.content_change (.drops hd hcore hdata hseq)
      (Db.core_ne_none_iff.1 (by rw [hi]; simp)) with hsame | hnew
    · rw [hsame]
      rw [hcore, Function.update_of_ne hid] at hi
      exact h.content i (Db.isFile_iff.2 ⟨size, hi⟩)
    · rw [hcore, Function.update_of_ne hid, hnew, Db.core_nextIno] at hi
      cases hi

/-- A change of one inode changes its file only. -/
theorem concerns (hs : db.StoreInv) (hc : Db.Concerns i db db') (hi : i ∈ db.inodes)
    {bytes : List UInt8} (hbytes : db.IsFile i → db'.content i = bytes) :
    Holds db' (Function.update files i bytes) := by
  constructor
  case content =>
    intro j hj
    by_cases hji : j = i
    · subst hji
      rw [Function.update_self]
      exact hbytes (hc.isFile.1 hj)
    · rw [Function.update_of_ne hji, hc.content hji]
      exact h.content j (hc.isFile.1 hj)
  case fresh =>
    intro j hj
    rw [hc.seq] at hj
    have hji : j ≠ i := by
      rintro rfl
      exact (hs.le_seq j hi).not_gt hj
    rw [Function.update_of_ne hji]
    exact h.fresh j hj

/-- An accepted `setattr` is what `Files.after` says. -/
theorem setattr (hs : db.StoreInv) {now : F64} {caller : UInt32} {a : SetAttr} {row : Db.InodeRow}
    (hrow : db.rowByIno i = some row) (hmax : ∀ n, a.size = some n → n ≤ maxFileSize) :
    Holds (a.apply now caller i row db) (files.after (.setattr caller i a)) := by
  have hi : i ∈ db.inodes := by
    obtain ⟨r, hr, -⟩ := Option.map_eq_some_iff.1 hrow
    exact AList.mem_of_lookup_eq_some hr
  have hcontent := @Db.content_apply db i now hs a caller row hrow hmax
  rw [Files.after_setattr]
  cases hsize : a.size with
  | none =>
    rw [hsize] at hcontent
    have hsame := h.concerns hs Db.Concerns.apply hi fun hfile =>
      hcontent.trans (h.content i hfile)
    rwa [Function.update_eq_self] at hsame
  | some n =>
    rw [hsize] at hcontent
    refine h.concerns hs Db.Concerns.apply hi fun hfile => ?_
    rw [← h.content i hfile]
    exact hcontent

/-- An accepted `write` is what `Files.after` says. -/
theorem write (hs : db.StoreInv) {now : F64} {offset : ℕ} {data : List UInt8} {kill : Bool}
    {row : Db.InodeRow} (hrow : db.rowByIno i = some row)
    (hmax : offset + data.length ≤ maxFileSize) :
    Holds (writeEffect now i offset data kill row db) (files.after (.write i offset data kill)) := by
  have hi : i ∈ db.inodes := by
    obtain ⟨r, hr, -⟩ := Option.map_eq_some_iff.1 hrow
    exact AList.mem_of_lookup_eq_some hr
  refine h.concerns hs Db.Concerns.writeEffect hi fun hfile => ?_
  rw [← h.content i hfile]
  exact Db.content_write hs hrow hmax

end Holds

/-! ## Replies without failures -/

/-- The reply and the tables after a request are what the run of its callback ends with. -/
theorem step_eq_of_run {env : Env} {req : Request} {r : Reply} {n : ℕ}
    (h : (handle env.mount env.now req).run env.fails 0 db = ⟨r, n, db'⟩) :
    step env req db = (r, db') := by
  show (((handle env.mount env.now req).run env.fails 0 db).val,
    ((handle env.mount env.now req).run env.fails 0 db).store) = _
  rw [h]

/-- Without failures, a `setattr` that is answered with an error has changed nothing. -/
theorem setattr_refused {m : Mount} {now : F64} {caller : UInt32} {a : SetAttr} {e : Errno}
    (h : (step (.quiet m now) (.setattr caller i a) db).1 = .error (.error e)) :
    (step (.quiet m now) (.setattr caller i a) db).2 = db := by
  rcases hrun : (setattr m now caller i a).run noFailure 0 db with ⟨r, n, db'⟩
  have hstep : step (.quiet m now) (.setattr caller i a) db = (r, db') := step_eq_of_run hrun
  rw [hstep] at h ⊢
  obtain rfl : r = .error (.error e) := h
  unfold CofferFS.setattr at hrun
  cases hro : m.readOnly with
  | true =>
    rw [hro] at hrun
    cases hrun
    rfl
  | false =>
    rw [hro] at hrun
    rcases run_readBack_after hrun with ⟨e', -, rfl, -⟩ | ⟨u, commit, htx, hreply⟩
    · rfl
    · -- the row is still there after the commit
      obtain ⟨row, hrow, -, rfl⟩ := setattrTx_ok (Yields.of_run htx).transaction_ok
      obtain ⟨r, hr, -⟩ := Option.map_eq_some_iff.1 hrow
      have hmem : i ∈ (a.apply now caller i row db).inodes :=
        Db.Concerns.apply.mem_inodes.2 (AList.mem_of_lookup_eq_some hr)
      cases hback : readBackReply (noFailure commit) (a.apply now caller i row db) i with
      | ok attr =>
        rw [hback] at hreply
        cases hreply
      | error e' =>
        rw [hback] at hreply
        cases hreply
        exact (readBackReply_ne_error hmem e hback).elim

/-- A `setattr` that panics has its effect: nothing panics before the commit. -/
theorem setattr_panicked {env : Env} {caller : UInt32} {a : SetAttr}
    (h : (step env (.setattr caller i a) db).1 = .error .panic) :
    Effect env.mount env.now (.setattr caller i a) db (step env (.setattr caller i a) db).2 := by
  have hy := step_yields env (.setattr caller i a) db
  rw [h] at hy
  rcases hy.bind with ⟨e, he, hy⟩ | ⟨u, t, hguard, hy⟩
  · cases he
    exact (panicless_refuseIf _ _ _ _ hy).elim
  · obtain rfl := readOnly_refuseIf _ _ _ _ _ hguard
    rcases hy.bind with ⟨e, he, hy⟩ | ⟨u, t, htx, hback⟩
    · cases he
      exact (panicless_inTransaction (panicless_setattrTx caller a) _ _ hy).elim
    · have hro : (readBack i >>= fun attr => pure (.attr ttl attr) : Call Answer).ReadOnly :=
        readOnly_bind readOnly_readBack fun _ => readOnly_pure _
      obtain rfl := hro _ _ _ hback
      exact setattrTx_ok htx.transaction_ok

/-! ## Runs -/

theorem Files.next_eq_self {req : Request} (hsetattr : ∀ caller ino a, req ≠ .setattr caller ino a)
    (hwrite : ∀ fh offset data kill, req ≠ .write fh offset data kill) (files : Files) (r : Reply) :
    files.next req r = files := by
  have hafter : files.after req = files := by
    cases req with
    | setattr caller ino a => exact (hsetattr caller ino a rfl).elim
    | write fh offset data kill => exact (hwrite fh offset data kill rfl).elim
    | _ => rfl
  unfold Files.next
  split
  · rfl
  · exact hafter

/-- A request that is neither a `setattr` nor a `write` does not concern the files. -/
theorem Holds.next_other (h : Holds db files) (htree : db.TreeInv) (env : Env) {req : Request}
    (hsetattr : ∀ caller ino a, req ≠ .setattr caller ino a)
    (hwrite : ∀ fh offset data kill, req ≠ .write fh offset data kill) :
    Holds (step env req db).2 (files.next req (step env req db).1) := by
  rw [Files.next_eq_self hsetattr hwrite]
  rcases step_cases env req db with hsame | heffect
  · rwa [hsame]
  · exact h.change (heffect.change htree.child hsetattr hwrite)

/-- One request in an environment without failures keeps the tables and the files together. -/
theorem Holds.next (h : Holds db files) (htree : db.TreeInv) (hs : db.StoreInv) (m : Mount)
    (now : F64) (req : Request) :
    Holds (step (.quiet m now) req db).2 (files.next req (step (.quiet m now) req db).1) := by
  cases req with
  | setattr caller ino a =>
    have heffect := step_effect (.quiet m now) (.setattr caller ino a) db
    cases hreply : (step (.quiet m now) (.setattr caller ino a) db).1 with
    | ok answer =>
      rw [hreply] at heffect
      obtain ⟨row, hrow, hmax, hdb'⟩ := heffect.resolve_left fun hu => nomatch hu.1
      rw [hdb']
      exact h.setattr hs hrow hmax
    | error halt =>
      cases halt with
      | error e =>
        rw [setattr_refused hreply]
        exact h
      | panic =>
        obtain ⟨row, hrow, hmax, hdb'⟩ := setattr_panicked hreply
        rw [hdb']
        exact h.setattr hs hrow hmax
  | write fh offset data kill =>
    have hy := step_yields (.quiet m now) (.write fh offset data kill) db
    rcases write_achieves fh offset data kill _ _ hy with ⟨⟨halt, hreply⟩, hsame⟩ |
      ⟨⟨row, hrow, hmax, hdb'⟩, answer, hreply⟩
    · rw [hsame, hreply]
      rw [hreply] at hy
      cases halt with
      | error e => exact h
      | panic => exact (panicless_write offset data kill _ _ hy).elim
    · rw [hdb', hreply]
      exact h.write hs hrow hmax
  | _ => exact h.next_other htree _ (fun _ _ _ hreq => nomatch hreq) fun _ _ _ _ hreq => nomatch hreq

/-- The states that runs without failures reach, and the files they hold: every request is served
by some mount at some time, and the kernel may send it. -/
inductive FileRun : Db → Files → Prop
  | start (now : F64) (uid gid : UInt32) : FileRun (.created now uid gid) fun _ => []
  | step {db : Db} {files : Files} (m : Mount) (now : F64) (req : Request) : FileRun db files →
      KernelOk db req →
      FileRun (step (.quiet m now) req db).2 (files.next req (step (.quiet m now) req db).1)

theorem FileRun.reachable (h : FileRun db files) : Reachable db := by
  induction h with
  | start now uid gid => exact reachable_created now uid gid
  | step m now req _ hok ih => exact ih.step _ hok

theorem FileRun.holds (h : FileRun db files) : Holds db files := by
  induction h with
  | start now uid gid => exact holds_created now uid gid
  | step m now req hrun _ ih =>
    exact ih.next hrun.reachable.treeInv hrun.reachable.storeInv m now req

/-- Without failures a read of a file is answered with its bytes. -/
theorem Holds.read (h : Holds db files) (hs : db.StoreInv) (hi : db.IsFile i) (m : Mount)
    (now : F64) (offset : UInt64) (size : UInt32) :
    step (.quiet m now) (.read i offset size) db =
      (.ok (.data (((files i).drop offset.toNat).take size.toNat)), db) := by
  obtain ⟨fileSize, hcore⟩ := Db.isFile_iff.1 hi
  have hread : ∃ n', (CofferFS.read i offset.toNat size.toNat).run noFailure 0 db = ⟨.ok (.data
      (((files i).drop offset.toNat).take size.toNat)), n', db⟩ := by
    rw [← h.content i hi, slice_content hcore]
    exact read_run hs hcore rfl
  obtain ⟨n', hrun⟩ := hread
  exact step_eq_of_run hrun

/-- **The block store refines arrays of bytes**: in every run, a read of a regular file is answered
with the bytes of the abstract file in the range. -/
theorem read_refines (h : FileRun db files) (hi : db.IsFile i) (m : Mount) (now : F64)
    (offset : UInt64) (size : UInt32) :
    step (.quiet m now) (.read i offset size) db =
      (.ok (.data (((files i).drop offset.toNat).take size.toNat)), db) :=
  h.holds.read h.reachable.storeInv hi m now offset size

/-- The small container holds the byte that was written. -/
theorem read_refines_oneByte :
    (step (.quiet .plain 0) (.read 2 0 10) .oneByte).1 = .ok (.data [1]) := by
  have hcreate := (FileRun.start 0 0 0).step .plain 0 (.create rootIno nameA 0o644)
    (isDir_root_created 0 0 0)
  have hwrite := hcreate.step .plain 0 (.write 2 0 [1] false) trivial
  have hfile : Db.oneByte.IsFile 2 := Db.isFile_iff.2 ⟨1, by decide +kernel⟩
  have hread := congrArg Prod.fst (read_refines hwrite hfile .plain 0 0 10)
  exact hread.trans (by decide +kernel)

end CofferFS
