import CofferFS.Files
import CofferFS.Quiet

/-!
# Open files and their names

A handle is the number of its inode, and nothing counts handles: `open` does not look at the
tables and `release` does nothing. So an open file lives exactly as long as it has a name.
`HandleRun` counts the handles on the side, as the kernel does. While an open file has a name its
handles work, whatever happened to its other names; when the last name goes the inode goes with
it, and from then on every request on the handle is refused.
-/

namespace CofferFS

open Script

/-- How many handles of every inode are open. -/
abbrev Handles := Ino → ℕ

/-- The handles after a request is replied to. -/
def Handles.next (handles : Handles) : Request → Reply → Handles
  | .open _ _, .ok (.opened fh) => Function.update handles fh (handles fh + 1)
  | .create _ _ _, .ok (.created _ _ _ fh) => Function.update handles fh (handles fh + 1)
  | .release fh, .ok _ => Function.update handles fh (handles fh - 1)
  | _, _ => handles

namespace Db

/-- The number was handed out, and what it denotes, if anything, is a regular file. -/
structure Openable (db : Db) (i : Ino) : Prop where
  le_seq : i ≤ db.seq
  kind : ∀ c, db.core i = some c → c.1 = .file

/-- Some name denotes `i`. -/
def Named (db : Db) (i : Ino) : Prop := ∃ k, db.dentries.lookup k = some i

end Db

/-- The kernel sends `open` for regular files only; directories have `opendir`. -/
def OpenOk (db : Db) : Request → Prop
  | .open ino _ => db.Openable ino
  | _ => True

/-- Runs without failures, with the files and the handles on the side. -/
inductive HandleRun : Db → Files → Handles → Prop
  | start (now : F64) (uid gid : UInt32) :
      HandleRun (.created now uid gid) (fun _ => []) fun _ => 0
  | step {db : Db} {files : Files} {handles : Handles} (m : Mount) (now : F64) (req : Request) :
      HandleRun db files handles → KernelOk db req → OpenOk db req →
      HandleRun (step (.quiet m now) req db).2 (files.next req (step (.quiet m now) req db).1)
        (handles.next req (step (.quiet m now) req db).1)

/-- Reads of the handle return the content of the file; writes are applied and readable, or they
are refused because the mount is read-only, the file would become too long, or the ceiling is in
the way. -/
structure HandleWorks (db : Db) (files : Files) (fh : Ino) : Prop where
  read : ∀ m now offset size, step (.quiet m now) (.read fh offset size) db =
    (.ok (.data (((files fh).drop offset.toNat).take size.toNat)), db)
  write : ∀ m now offset data kill, writeRefusal m fh offset data db = none →
    ∃ db', step (.quiet m now) (.write fh offset data kill) db =
        (.ok (.written (data.length % 2 ^ 32)), db') ∧
      ∀ m' now' offset' size', step (.quiet m' now') (.read fh offset' size') db' =
        (.ok (.data (((Sparse.splice (files fh) offset data).drop offset'.toNat).take size'.toNat)),
          db')
  refused : ∀ m now offset data kill e, writeRefusal m fh offset data db = some e →
    e ≠ .enoent ∧ step (.quiet m now) (.write fh offset data kill) db = (.error (.error e), db)

/-- Every read and every write of the handle is refused and changes nothing. -/
structure HandleGone (db : Db) (fh : Ino) : Prop where
  read : ∀ m now offset size, step (.quiet m now) (.read fh offset size) db =
    (.error (.error .enoent), db)
  write : ∀ m now offset data kill, ∃ e, step (.quiet m now) (.write fh offset data kill) db =
    (.error (.error e), db)
  write_enoent : ∀ m now offset data kill, m.readOnly = false →
    offset + data.length ≤ maxFileSize →
    step (.quiet m now) (.write fh offset data kill) db = (.error (.error .enoent), db)

variable {db db' : Db} {files : Files} {handles : Handles} {i fh : Ino}

/-! ## What may be open -/

namespace Db.Openable

/-- The numbers of regular files stay theirs. -/
theorem change (h : db.Openable i) (hc : db.Change db') : db'.Openable i := by
  cases hc with
  | keeps hcore _ hseq => exact ⟨hseq ▸ h.le_seq, hcore ▸ h.kind⟩
  | adds _ _ _ hcore _ hseq =>
    have hlt := (Db.seq_lt_nextIno db)
    refine ⟨hseq ▸ h.le_seq.trans hlt.le, fun c hi => ?_⟩
    rw [hcore, Function.update_of_ne (h.le_seq.trans_lt hlt).ne] at hi
    exact h.kind c hi
  | drops _ hcore _ hseq =>
    refine ⟨hseq ▸ h.le_seq, fun c hi => ?_⟩
    rw [hcore, Function.update_apply] at hi
    split_ifs at hi
    exact h.kind c hi

theorem concerns {j : Ino} (h : db.Openable i) (hc : Db.Concerns j db db') : db'.Openable i := by
  refine ⟨hc.seq ▸ h.le_seq, fun c hi => ?_⟩
  have hkind : (db'.core i).map Prod.fst = (db.core i).map Prod.fst := by
    by_cases hij : i = j
    · rw [hij, hc.kind]
    · rw [hc.core i hij]
  rw [hi] at hkind
  obtain ⟨c', hc', heq⟩ := Option.map_eq_some_iff.1 hkind.symm
  exact heq ▸ h.kind c' hc'

theorem step (h : db.Openable i) (htree : db.TreeInv) (env : Env) (req : Request) :
    (step env req db).2.Openable i := by
  rcases step_cases env req db with hsame | heffect
  · rwa [hsame]
  · rcases heffect.cases htree.child with hc | ⟨caller, ino, a, row, -, -, -, hdb'⟩ |
      ⟨fh, offset, data, kill, row, -, -, -, hdb'⟩
    · exact h.change hc
    · rw [hdb']
      exact h.concerns .apply
    · rw [hdb']
      exact h.concerns .writeEffect

/-- An openable number is a file with a name, or nothing has this number. -/
theorem named_iff (h : db.Openable i) (htree : db.TreeInv) : db.Named i ↔ db.IsFile i := by
  constructor
  · intro hnamed
    obtain ⟨k, hk⟩ := hnamed
    obtain ⟨⟨kind, size⟩, hc⟩ :=
      Option.ne_none_iff_exists'.1 (Db.core_ne_none_iff.2 (htree.child k i hk))
    obtain rfl : kind = .file := h.kind _ hc
    exact Db.isFile_iff.2 ⟨size, hc⟩
  · intro hfile
    obtain ⟨size, hc⟩ := Db.isFile_iff.1 hfile
    refine htree.named i (Db.core_ne_none_iff.1 (by rw [hc]; simp)) ?_
    rintro rfl
    -- the root is a directory
    obtain ⟨r, hr, hdir⟩ := htree.root
    obtain ⟨r', hr', hkind⟩ := hfile
    rw [Option.some.inj (hr.symm.trans hr'), hkind] at hdir
    cases hdir

end Db.Openable

/-! ## Runs -/

theorem HandleRun.fileRun (h : HandleRun db files handles) : FileRun db files := by
  induction h with
  | start now uid gid => exact .start now uid gid
  | step m now req _ hok _ ih => exact ih.step m now req hok

/-- The handle that `create` hands out is the number of the file it has made. -/
theorem openable_create {m : Mount} {now : F64} {parent : Ino} {name : OsStr} {mode : BitVec 32}
    {t g : ℕ} {attr : FileAttr}
    (h : (step (.quiet m now) (.create parent name mode) db).1 = .ok (.created t attr g fh)) :
    (step (.quiet m now) (.create parent name mode) db).2.Openable fh := by
  have hy := step_yields (.quiet m now) (.create parent name mode) db
  rcases create_achieves parent name mode _ _ hy with ⟨⟨e, he⟩, -⟩ | ⟨heffect, hreply⟩
  · rw [h] at he
    cases he
  · obtain ⟨attr', hattr⟩ := hreply _ h
    cases hattr
    obtain ⟨n, -, -, -, hdb'⟩ := heffect
    rw [hdb']
    refine ⟨le_refl _, fun c hc => ?_⟩
    rw [Db.core_addChild, Function.update_self] at hc
    cases hc
    rfl

/-- A handle that is open was open before, or was just handed out. -/
theorem Handles.next_pos {req : Request} {r : Reply} (h : 0 < handles.next req r i) :
    0 < handles i ∨ (∃ ino flags, req = .open ino flags ∧ r = .ok (.opened i)) ∨
      ∃ parent name mode t attr g, req = .create parent name mode ∧
        r = .ok (.created t attr g i) := by
  unfold Handles.next at h
  split at h
  · rename_i ino flags fh
    by_cases hfh : i = fh
    · exact Or.inr (Or.inl ⟨ino, flags, rfl, by rw [hfh]⟩)
    · exact Or.inl (by rwa [Function.update_of_ne hfh] at h)
  · rename_i parent name mode t attr g fh
    by_cases hfh : i = fh
    · exact Or.inr (Or.inr ⟨parent, name, mode, t, attr, g, rfl, by rw [hfh]⟩)
    · exact Or.inl (by rwa [Function.update_of_ne hfh] at h)
  · rename_i fh answer
    left
    by_cases hfh : i = fh
    · rw [hfh, Function.update_self] at h
      rw [hfh]
      omega
    · rwa [Function.update_of_ne hfh] at h
  · exact Or.inl h

/-- `open` answers with the number it was asked for. -/
theorem open_answer {m : Mount} {now : F64} {ino : Ino} {flags : BitVec 32}
    (h : (step (.quiet m now) (.open ino flags) db).1 = .ok (.opened fh)) : fh = ino := by
  have hy := step_yields (.quiet m now) (.open ino flags) db
  rw [h] at hy
  obtain ⟨_, -, hpure⟩ := hy.after (readOnly_refuseIf _ _)
  cases (yields_pure.1 hpure).1
  rfl

/-- What is open is openable. -/
theorem HandleRun.openable (h : HandleRun db files handles) (hopen : 0 < handles i) :
    db.Openable i := by
  induction h with
  | start => exact absurd hopen (lt_irrefl 0)
  | @step db files handles m now req hrun hok hopenOk ih =>
    have htree := hrun.fileRun.reachable.treeInv
    rcases Handles.next_pos hopen with hi | ⟨ino, flags, rfl, hreply⟩ |
      ⟨parent, name, mode, t, attr, g, rfl, hreply⟩
    · exact (ih hi).step htree _ _
    · have hino : db.Openable ino := hopenOk
      rw [← open_answer hreply] at hino
      exact hino.step htree _ _
    · exact openable_create hreply

/-! ## What a handle is good for -/

theorem writeRefusal_eq_enoent_iff {m : Mount} {offset : ℕ} {data : List UInt8} :
    writeRefusal m fh offset data db = some .enoent ↔
      m.readOnly = false ∧ offset + data.length ≤ maxFileSize ∧ db.rowByIno fh = none := by
  unfold writeRefusal
  split_ifs with hro hmax
  · simp [hro]
  · simp only [Option.some.injEq, reduceCtorEq, false_iff]
    omega
  · cases hrow : db.rowByIno fh with
    | none => simp [hro, not_lt.1 hmax]
    | some row => simp

/-- The handle of a file that exists works. -/
theorem FileRun.handleWorks (h : FileRun db files) (hfile : db.IsFile fh) :
    HandleWorks db files fh := by
  have hs := h.reachable.storeInv
  obtain ⟨x, hx⟩ := h.reachable.exists_xattrs
  constructor
  case read => exact fun m now offset size => h.holds.read hs hfile m now offset size
  case write =>
    intro m now offset data kill haccepted
    obtain ⟨row, hrow, hmax, -, hstep⟩ := @step_write_accepted m db now fh offset data kill x hx
      haccepted
    refine ⟨_, hstep, fun m' now' offset' size' => ?_⟩
    have hholds := @Holds.write db files fh h.holds hs now offset data kill row hrow hmax
    have hread := hholds.read (hs.writeEffect hrow hmax) (Db.Concerns.writeEffect.isFile.2 hfile)
      m' now' offset' size'
    rw [hread]
    simp [Files.after]
  case refused =>
    intro m now offset data kill e hrefused
    refine ⟨?_, step_write_refused hrefused⟩
    rintro rfl
    obtain ⟨-, -, hrow⟩ := writeRefusal_eq_enoent_iff.1 hrefused
    obtain ⟨r, hr, -⟩ := hfile
    rw [Db.rowByIno, hr] at hrow
    cases hrow

theorem runs_read_missing {offset size : ℕ} (hrow : db.rowByIno fh = none) :
    (CofferFS.read fh offset size).Runs db (.error (.error .enoent)) db :=
  Runs.bind runs_rowByIno (runs_orRefuse_none hrow).bind_error

/-- The handle of a file that does not exist is refused. -/
theorem handleGone (hrow : db.rowByIno fh = none) : HandleGone db fh := by
  constructor
  case read => exact fun m now offset size => step_quiet (runs_read_missing hrow)
  case write =>
    intro m now offset data kill
    have hrefusal : writeRefusal m fh offset data db ≠ none := by
      unfold writeRefusal
      rw [hrow]
      split_ifs <;> simp
    obtain ⟨e, he⟩ := Option.ne_none_iff_exists'.1 hrefusal
    exact ⟨e, step_write_refused he⟩
  case write_enoent =>
    exact fun m now offset data kill hro hmax =>
      step_write_refused (writeRefusal_eq_enoent_iff.2 ⟨hro, hmax, hrow⟩)

/-- **An open file lives as long as it has a name**: while some name denotes it, its handles work,
whatever became of its other names; once the last name is gone, every request on them is refused
and changes nothing. -/
theorem open_file_lives_by_name (h : HandleRun db files handles) (hopen : 0 < handles fh) :
    (db.Named fh → HandleWorks db files fh) ∧ (¬ db.Named fh → HandleGone db fh) := by
  have hiff := (h.openable hopen).named_iff h.fileRun.reachable.treeInv
  refine ⟨fun hnamed => h.fileRun.handleWorks (hiff.1 hnamed), fun hgone => handleGone ?_⟩
  cases hrow : db.rowByIno fh with
  | none => rfl
  | some row =>
    obtain ⟨size, hcore, -⟩ := Db.core_of_rowByIno hrow
    have hkind : row.kind = .file := (h.openable hopen).kind _ hcore
    exact (hgone (hiff.2 (Db.isFile_iff.2 ⟨size, hkind ▸ hcore⟩))).elim

/-- The handles after a file is created in a new container and a byte is written to it. -/
def Handles.oneByte : Handles :=
  (Handles.next (fun _ => 0) (.create rootIno nameA 0o644)
    (step (.quiet .plain 0) (.create rootIno nameA 0o644) (.created 0 0 0)).1).next
    (.write 2 0 [1] false) (step (.quiet .plain 0) (.write 2 0 [1] false) .oneFile).1

/-- The bytes of the files then. -/
def Files.oneByte : Files :=
  (Files.next (fun _ => []) (.create rootIno nameA 0o644)
    (step (.quiet .plain 0) (.create rootIno nameA 0o644) (.created 0 0 0)).1).next
    (.write 2 0 [1] false) (step (.quiet .plain 0) (.write 2 0 [1] false) .oneFile).1

theorem handleRun_oneByte : HandleRun .oneByte .oneByte .oneByte :=
  ((HandleRun.start 0 0 0).step .plain 0 (.create rootIno nameA 0o644) (isDir_root_created 0 0 0)
    trivial).step .plain 0 (.write 2 0 [1] false) trivial trivial

/-- In the small container the handle that `create` handed out works. -/
theorem open_file_lives_by_name_oneByte : HandleWorks .oneByte .oneByte 2 :=
  (open_file_lives_by_name handleRun_oneByte (by decide +kernel)).1
    ⟨(rootIno, "a"), by decide +kernel⟩

/-- **The last name takes an open file along**: it is created, written and unlinked, and the handle
from its creation answers the next read with `ENOENT`. -/
theorem unlink_takes_open_file :
    ¬ ∀ db files handles fh, HandleRun db files handles → 0 < handles fh →
      HandleWorks db files fh := by
  intro h
  have hroot : Db.oneByte.IsDir rootIno := reachable_oneByte.treeInv.root
  have hleaf (i : Ino) (hi : Db.oneByte.Names rootIno nameA i) : ¬ Db.oneByte.IsDir i := by
    obtain ⟨n, hn, hi⟩ := hi
    obtain rfl : n = "a" := Option.some.inj (hn.symm.trans (OsStr.toStr_ofString _))
    have htwo : Db.oneByte.dentries.lookup (rootIno, "a") = some 2 := by decide +kernel
    obtain rfl : i = 2 := Option.some.inj (hi.symm.trans htwo)
    intro hdir
    obtain ⟨r, hr, hkind⟩ := hdir
    have hfile : Db.oneByte.core 2 = some (.file, 1) := by decide +kernel
    rw [Db.core, hr, Option.map_some, hkind] at hfile
    cases hfile
  have hrun := handleRun_oneByte.step .plain 0 (.unlink rootIno nameA) ⟨hroot, hleaf⟩ trivial
  have hread := congrArg Prod.fst ((h _ _ _ 2 hrun (by decide +kernel)).read .plain 0 0 1)
  have henoent : (step (.quiet .plain 0) (.read 2 0 1)
      (step (.quiet .plain 0) (.unlink rootIno nameA) Db.oneByte).2).1 =
        .error (.error .enoent) := by
    decide +kernel
  rw [henoent] at hread
  cases hread

end CofferFS
