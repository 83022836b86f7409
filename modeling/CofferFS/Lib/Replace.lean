import CofferFS.Lib.Sparse
import CofferFS.Lib.Wal
import Mathlib.Data.List.Sublists

/-!
# Replacing a file through a temporary one

A command reads a file, writes the new text to a temporary file next to it, syncs that and renames
it over the old one. It may stop anywhere, and the power may fail: then the directory is what it was
at some time since it was synced, and a file that was not synced holds anything.

As long as one command runs at a time, the file is at every moment what some of the commands that
came to their rename have made of it, one after the other, and all of them if the power did not
fail (`Run.read`). Two at a time write to the same temporary file, and one may rename it while the
other is writing.
-/

namespace Replace

/-! ## Disks -/

/-- A file, and whether what it holds is on the disk. -/
structure File (α : Type) where
  bytes : List α := []
  synced : Bool := true

/-- A directory and the files it names. -/
structure Disk (ν α : Type) where
  dirs : Wal (ν → Option ℕ)
  files : ℕ → File α
  next : ℕ

variable {π ν α ε : Type}

section Model

variable [DecidableEq π] [DecidableEq ν] [Zero α]

namespace Disk

/-- The file of a name. -/
def lookup (d : Disk ν α) (n : ν) : Option ℕ := d.dirs.current n

/-- What is read under a name. -/
def read (d : Disk ν α) (n : ν) : Option (List α) := (d.lookup n).map fun i => (d.files i).bytes

def put (d : Disk ν α) (i : ℕ) (f : File α) : Disk ν α :=
  { d with files := Function.update d.files i f }

/-- `open` with `O_CREAT` and `O_TRUNC`. -/
def openTruncated (d : Disk ν α) (n : ν) : Disk ν α × ℕ :=
  match d.lookup n with
  | some i => (d.put i ⟨[], false⟩, i)
  | none =>
    ({ d.put d.next ⟨[], false⟩ with
        dirs := d.dirs.step (.commit fun dir => Function.update dir n (some d.next))
        next := d.next + 1 }, d.next)

/-- `write` at an offset of the file. -/
def writeAt (d : Disk ν α) (i off : ℕ) (chunk : List α) : Disk ν α :=
  d.put i ⟨Sparse.splice (d.files i).bytes off chunk, false⟩

/-- `fsync` -/
def sync (d : Disk ν α) (i : ℕ) : Disk ν α := d.put i { d.files i with synced := true }

/-- `rename` -/
def rename (d : Disk ν α) (n m : ν) : Disk ν α :=
  { d with dirs := d.dirs.step (.commit fun dir =>
      Function.update (Function.update dir m (dir n)) n none) }

/-- What a power failure may leave of a disk. -/
structure Survives (d d' : Disk ν α) : Prop where
  dirs : ∃ dir ∈ d.dirs.survivors, d'.dirs = ⟨dir, []⟩
  files : ∀ i, (d.files i).synced = true → d'.files i = d.files i
  next : d'.next = d.next

end Disk

/-! ## Commands -/

/-- How far a process is with its command. -/
inductive Phase (ε α : Type)
  | idle
  /-- It has read the file and made the new text. -/
  | loaded (e : ε) (text : List α)
  /-- The temporary file is open; some of the text is written, the rest is not. -/
  | writing (e : ε) (i : ℕ) (done rest : List α)
  /-- The temporary file is synced and closed. -/
  | closed (e : ε) (text : List α)

structure System (π ν α ε : Type) where
  disk : Disk ν α
  phase : π → Phase ε α

/-- What one sees of a step. -/
inductive Label (ε : Type)
  /-- A step on the way to the rename. -/
  | quiet
  | saved (e : ε)
  | stop
  | powerFailure

/-- One step of one of the processes, or of the machine they run on. `edit` is what a command makes
of the file, if it saves it at all; with `alone`, no command starts while another one runs. -/
inductive Step (edit : ε → Option (List α) → Option (List α)) (tmp dest : ν) (alone : Prop) :
    System π ν α ε → Label ε → System π ν α ε → Prop
  | load {s : System π ν α ε} {p : π} {e : ε} {text : List α} (hp : s.phase p = .idle)
      (hone : alone → ∀ q, s.phase q = .idle) (hedit : edit e (s.disk.read dest) = some text) :
      Step edit tmp dest alone s .quiet
        { s with phase := Function.update s.phase p (.loaded e text) }
  | openTmp {s : System π ν α ε} {p : π} {e : ε} {text : List α}
      (hp : s.phase p = .loaded e text) :
      Step edit tmp dest alone s .quiet
        ⟨(s.disk.openTruncated tmp).1,
          Function.update s.phase p (.writing e (s.disk.openTruncated tmp).2 [] text)⟩
  | write {s : System π ν α ε} {p : π} {e : ε} {i : ℕ} {done chunk rest : List α}
      (hp : s.phase p = .writing e i done (chunk ++ rest)) :
      Step edit tmp dest alone s .quiet
        ⟨s.disk.writeAt i done.length chunk,
          Function.update s.phase p (.writing e i (done ++ chunk) rest)⟩
  | sync {s : System π ν α ε} {p : π} {e : ε} {i : ℕ} {text : List α}
      (hp : s.phase p = .writing e i text []) :
      Step edit tmp dest alone s .quiet
        ⟨s.disk.sync i, Function.update s.phase p (.closed e text)⟩
  | rename {s : System π ν α ε} {p : π} {e : ε} {text : List α} (hp : s.phase p = .closed e text)
      (htmp : (s.disk.lookup tmp).isSome) :
      Step edit tmp dest alone s (.saved e)
        ⟨s.disk.rename tmp dest, Function.update s.phase p .idle⟩
  /-- The process ends: it is killed, or one of its calls has failed. -/
  | stop {s : System π ν α ε} {p : π} :
      Step edit tmp dest alone s .stop { s with phase := Function.update s.phase p .idle }
  | powerFailure {s : System π ν α ε} {disk : Disk ν α} (h : s.disk.Survives disk) :
      Step edit tmp dest alone s .powerFailure ⟨disk, fun _ => .idle⟩

/-- The steps of a run, with what one has seen of them. -/
inductive Run (edit : ε → Option (List α) → Option (List α)) (tmp dest : ν) (alone : Prop) :
    System π ν α ε → List (Label ε) → System π ν α ε → Prop
  | refl {s : System π ν α ε} : Run edit tmp dest alone s [] s
  | tail {s t u : System π ν α ε} {ls : List (Label ε)} {l : Label ε}
      (hfirst : Run edit tmp dest alone s ls t) (hlast : Step edit tmp dest alone t l u) :
      Run edit tmp dest alone s (ls ++ [l]) u

/-- The commands that have come to their rename. -/
def saves (ls : List (Label ε)) : List ε :=
  ls.filterMap fun
    | .saved e => some e
    | _ => none

/-- What commands make of the file, one after the other. -/
def after (edit : ε → Option (List α) → Option (List α)) (o : Option (List α)) (es : List ε) :
    Option (List α) :=
  es.foldl (fun o e => (edit e o).or o) o

end Model

/-! ## What is on the disk -/

/-- Under a directory that the disk may have, the file is there with that text, all of it on the
disk. -/
def Shown (d : Disk ν α) (dest : ν) (dir : ν → Option ℕ) (o : Option (List α)) : Prop :=
  match dir dest with
  | none => o = none
  | some i => o = some (d.files i).bytes ∧ (d.files i).synced = true

/-- The file is one of `good` in every directory that a power failure may leave, and `o` now; the
temporary file is another one. -/
structure Kept (tmp dest : ν) (good : Option (List α) → Prop) (o : Option (List α))
    (d : Disk ν α) : Prop where
  survivors : ∀ dir ∈ d.dirs.survivors, ∃ o, good o ∧ Shown d dest dir o
  current : Shown d dest d.dirs.current o
  distinct : ∀ dir ∈ d.dirs.survivors, ∀ i, dir tmp = some i → dir dest ≠ some i
  apart : ∀ dir ∈ d.dirs.survivors, ∀ i, d.lookup tmp = some i → dir dest ≠ some i
  named : ∀ dir ∈ d.dirs.survivors, ∀ n i, dir n = some i → i < d.next

section Disks

variable {tmp dest : ν} {d d' : Disk ν α} {dir : ν → Option ℕ} {o : Option (List α)} {i : ℕ}
  {f : File α} {good good' : Option (List α) → Prop} {text : List α}

theorem shown_none (h : dir dest = none) : Shown d dest dir o ↔ o = none := by
  rw [Shown, h]

theorem shown_some (h : dir dest = some i) :
    Shown d dest dir o ↔ o = some (d.files i).bytes ∧ (d.files i).synced = true := by
  rw [Shown, h]

/-- Only the file itself is looked at. -/
theorem Shown.congr (h : Shown d dest dir o)
    (hfiles : ∀ i, dir dest = some i → (d.files i).synced = true → d'.files i = d.files i) :
    Shown d' dest dir o := by
  cases hdest : dir dest with
  | none => exact (shown_none hdest).2 ((shown_none hdest).1 h)
  | some i =>
    have hi := (shown_some hdest).1 h
    rw [shown_some hdest, hfiles i hdest hi.2]
    exact hi

theorem Shown.put (h : Shown d dest dir o) (hi : dir dest ≠ some i) :
    Shown (d.put i f) dest dir o :=
  h.congr fun _ hj _ => Function.update_of_ne (fun heq => hi (hj.trans (congrArg some heq))) _ _

theorem Shown.read (h : Shown d dest d.dirs.current o) : d.read dest = o := by
  rw [Disk.read, Disk.lookup]
  cases hdest : d.dirs.current dest with
  | none => exact ((shown_none hdest).1 h).symm
  | some i => exact ((shown_some hdest).1 h).1.symm

theorem files_put : (d.put i f).files i = f := Function.update_self _ _ _

theorem Kept.mono (h : Kept tmp dest good o d) (hgood : ∀ o, good o → good' o) :
    Kept tmp dest good' o d where
  survivors := fun dir hdir =>
    let ⟨o, ho, hshown⟩ := h.survivors dir hdir
    ⟨o, hgood o ho, hshown⟩
  current := h.current
  distinct := h.distinct
  apart := h.apart
  named := h.named

/-- Other files may change. -/
theorem Kept.put (h : Kept tmp dest good o d)
    (hi : ∀ dir ∈ d.dirs.survivors, dir dest ≠ some i) : Kept tmp dest good o (d.put i f) where
  survivors := fun dir hdir =>
    let ⟨o, ho, hshown⟩ := h.survivors dir hdir
    ⟨o, ho, hshown.put (hi dir hdir)⟩
  current := h.current.put (hi _ d.dirs.current_mem_survivors)
  distinct := h.distinct
  apart := h.apart
  named := h.named

/-- The temporary file may change. -/
theorem Kept.put_tmp (h : Kept tmp dest good o d) (hi : d.lookup tmp = some i) :
    Kept tmp dest good o (d.put i f) :=
  h.put fun dir hdir => h.apart dir hdir i hi

theorem Kept.powerFailure (h : Kept tmp dest good o d) (hs : d.Survives d') :
    ∃ o', good o' ∧ Kept tmp dest good o' d' := by
  obtain ⟨dir, hdir, hdirs⟩ := hs.dirs
  obtain ⟨o', ho', hshown⟩ := h.survivors dir hdir
  have hshown' : Shown d' dest dir o' := hshown.congr fun i _ => hs.files i
  have hone : ∀ dir' ∈ d'.dirs.survivors, dir' = dir := by
    rw [hdirs]
    exact fun dir' h => List.mem_singleton.1 h
  have hnow : d'.dirs.current = dir := hone _ d'.dirs.current_mem_survivors
  refine ⟨o', ho', ?_, hnow ▸ hshown', ?_, ?_, ?_⟩
  · intro dir' hdir'
    rw [hone dir' hdir']
    exact ⟨o', ho', hshown'⟩
  · intro dir' hdir'
    rw [hone dir' hdir']
    exact h.distinct dir hdir
  · intro dir' hdir'
    rw [hone dir' hdir', Disk.lookup, hnow]
    exact h.distinct dir hdir
  · intro dir' hdir' n i hi
    rw [hone dir' hdir'] at hi
    rw [hs.next]
    exact h.named dir hdir n i hi

variable [DecidableEq ν]

theorem openTruncated_of_some {n : ν} (h : d.lookup n = some i) :
    d.openTruncated n = (d.put i ⟨[], false⟩, i) := by
  rw [Disk.openTruncated, h]

theorem openTruncated_of_none {n : ν} (h : d.lookup n = none) :
    d.openTruncated n = ({ d.put d.next ⟨[], false⟩ with
      dirs := d.dirs.step (.commit fun dir => Function.update dir n (some d.next))
      next := d.next + 1 }, d.next) := by
  rw [Disk.openTruncated, h]

theorem lookup_openTruncated (d : Disk ν α) (n : ν) :
    (d.openTruncated n).1.lookup n = some (d.openTruncated n).2 := by
  cases h : d.lookup n with
  | some i =>
    rw [openTruncated_of_some h]
    exact h
  | none =>
    rw [openTruncated_of_none h, Disk.lookup, Wal.current_commit, Function.update_self]

theorem files_openTruncated (d : Disk ν α) (n : ν) :
    (d.openTruncated n).1.files (d.openTruncated n).2 = ⟨[], false⟩ := by
  cases h : d.lookup n with
  | some i =>
    rw [openTruncated_of_some h]
    exact files_put
  | none =>
    rw [openTruncated_of_none h]
    exact files_put

theorem Kept.openTruncated (h : Kept tmp dest good o d) (hne : tmp ≠ dest) :
    Kept tmp dest good o (d.openTruncated tmp).1 := by
  cases htmp : d.lookup tmp with
  | some i =>
    rw [openTruncated_of_some htmp]
    exact h.put_tmp htmp
  | none =>
    have hfresh : ∀ dir ∈ d.dirs.survivors, dir dest ≠ some d.next := fun dir hdir hdest =>
      lt_irrefl _ (h.named dir hdir dest _ hdest)
    have hput := h.put (f := ⟨[], false⟩) hfresh
    have hcurrent := d.dirs.current_mem_survivors
    have hlookup : (d.dirs.step (.commit fun dir =>
        Function.update dir tmp (some d.next))).current tmp = some d.next := by
      rw [Wal.current_commit, Function.update_self]
    have hdest : Function.update d.dirs.current tmp (some d.next) dest = d.dirs.current dest :=
      Function.update_of_ne hne.symm _ _
    rw [openTruncated_of_none htmp]
    refine ⟨?_, ?_, ?_, ?_, ?_⟩
    · intro dir hdir
      rw [Wal.survivors_commit, List.mem_append, List.mem_singleton] at hdir
      rcases hdir with hdir | rfl
      · exact hput.survivors dir hdir
      · obtain ⟨o', ho', hshown⟩ := hput.survivors _ hcurrent
        refine ⟨o', ho', ?_⟩
        rw [Shown, hdest]
        exact hshown
    · rw [Wal.current_commit, Shown, hdest]
      exact hput.current
    · intro dir hdir j hj
      rw [Wal.survivors_commit, List.mem_append, List.mem_singleton] at hdir
      rcases hdir with hdir | rfl
      · exact h.distinct dir hdir j hj
      · rw [Function.update_self] at hj
        rw [hdest, ← hj]
        exact hfresh _ hcurrent
    · intro dir hdir j hj
      have hj' : some d.next = some j := hlookup.symm.trans hj
      rw [Wal.survivors_commit, List.mem_append, List.mem_singleton] at hdir
      rw [← hj']
      rcases hdir with hdir | rfl
      · exact hfresh dir hdir
      · rw [hdest]
        exact hfresh _ hcurrent
    · intro dir hdir n j hj
      rw [Wal.survivors_commit, List.mem_append, List.mem_singleton] at hdir
      rcases hdir with hdir | rfl
      · exact Nat.lt_succ_of_lt (h.named dir hdir n j hj)
      · by_cases hn : n = tmp
        · rw [hn, Function.update_self] at hj
          exact Option.some.inj hj ▸ Nat.lt_succ_self _
        · rw [Function.update_of_ne hn] at hj
          exact Nat.lt_succ_of_lt (h.named _ hcurrent n j hj)

/-- The temporary file becomes the file. -/
theorem Kept.rename (h : Kept tmp dest good o d) (hne : tmp ≠ dest) (hi : d.lookup tmp = some i)
    (hfile : d.files i = ⟨text, true⟩) :
    Kept tmp dest (fun o => good o ∨ o = some text) (some text) (d.rename tmp dest) := by
  have hcurrent := d.dirs.current_mem_survivors
  let dir₁ := Function.update (Function.update d.dirs.current dest (d.dirs.current tmp)) tmp none
  have hsurvivors : (d.rename tmp dest).dirs.survivors = d.dirs.survivors ++ [dir₁] := rfl
  have hnow : (d.rename tmp dest).dirs.current = dir₁ := Wal.current_commit _
  have htmp : dir₁ tmp = none := Function.update_self _ _ _
  have hdest : dir₁ dest = some i :=
    (Function.update_of_ne hne.symm _ _).trans ((Function.update_self _ _ _).trans hi)
  have hbytes : (d.rename tmp dest).files i = ⟨text, true⟩ := hfile
  have hshown : Shown (d.rename tmp dest) dest dir₁ (some text) := by
    rw [shown_some hdest, hbytes]
    exact ⟨rfl, rfl⟩
  refine ⟨?_, hnow ▸ hshown, ?_, ?_, ?_⟩
  · intro dir hdir
    rw [hsurvivors, List.mem_append, List.mem_singleton] at hdir
    rcases hdir with hdir | rfl
    · obtain ⟨o', ho', hold⟩ := h.survivors dir hdir
      exact ⟨o', .inl ho', hold⟩
    · exact ⟨_, .inr rfl, hshown⟩
  · intro dir hdir j hj
    rw [hsurvivors, List.mem_append, List.mem_singleton] at hdir
    rcases hdir with hdir | rfl
    · exact h.distinct dir hdir j hj
    · rw [htmp] at hj
      cases hj
  · intro dir hdir j hj
    rw [Disk.lookup, hnow, htmp] at hj
    cases hj
  · intro dir hdir n j hj
    rw [hsurvivors, List.mem_append, List.mem_singleton] at hdir
    rcases hdir with hdir | rfl
    · exact h.named dir hdir n j hj
    · by_cases hn : n = tmp
      · rw [hn, htmp] at hj
        cases hj
      · by_cases hn' : n = dest
        · rw [hn', hdest] at hj
          exact h.named _ hcurrent tmp j (hi.trans hj)
        · have hold : dir₁ n = d.dirs.current n :=
            (Function.update_of_ne hn _ _).trans (Function.update_of_ne hn' _ _)
          exact h.named _ hcurrent n j (hold.symm.trans hj)

end Disks

/-! ## One command at a time -/

/-- What a command has on the disk. -/
def Owned (edit : ε → Option (List α) → Option (List α)) (tmp : ν) (o : Option (List α))
    (d : Disk ν α) : Phase ε α → Prop
  | .idle => True
  | .loaded e text => edit e o = some text
  | .writing e i done rest =>
    edit e o = some (done ++ rest) ∧ d.lookup tmp = some i ∧ (d.files i).bytes = done
  | .closed e text => edit e o = some text ∧ ∃ i, d.lookup tmp = some i ∧ d.files i = ⟨text, true⟩

/-- The file is `o`, may become one of `good` by a power failure, and at most one command runs. -/
structure Inv (edit : ε → Option (List α) → Option (List α)) (tmp dest : ν)
    (good : Option (List α) → Prop) (o : Option (List α)) (s : System π ν α ε) : Prop where
  kept : Kept tmp dest good o s.disk
  owned : ∀ p, Owned edit tmp o s.disk (s.phase p)
  one : ∀ p q, s.phase p ≠ .idle → s.phase q ≠ .idle → p = q

/-- What is read after a step. -/
def Seen (edit : ε → Option (List α) → Option (List α)) (good : Option (List α) → Prop)
    (o : Option (List α)) : Label ε → Option (List α) → Prop
  | .quiet, o' | .stop, o' => o' = o
  | .saved e, o' => o' = edit e o ∧ o'.isSome
  | .powerFailure, o' => good o'

/-- A disk on which nothing happens: all of the file is on it, and no change of the directory is
pending. -/
structure Settled (tmp dest : ν) (d : Disk ν α) : Prop where
  pending : d.dirs.pending = []
  synced : ∀ i, d.lookup dest = some i → (d.files i).synced = true
  distinct : ∀ i, d.lookup tmp = some i → d.lookup dest ≠ some i
  named : ∀ n i, d.lookup n = some i → i < d.next

section Runs

variable [DecidableEq π] [DecidableEq ν] [Zero α] {edit : ε → Option (List α) → Option (List α)}
  {tmp dest : ν} {good good' : Option (List α) → Prop} {o o' : Option (List α)}
  {s t : System π ν α ε} {ls : List (Label ε)} {l : Label ε} {d : Disk ν α} {p : π} {i : ℕ}
  {x : Phase ε α}

omit [DecidableEq π] [DecidableEq ν] [Zero α] in
/-- A command that runs has what it has, and the others are idle. -/
theorem Inv.busy (h : Inv edit tmp dest good o s) (hp : s.phase p = x) (hx : x ≠ .idle) :
    Owned edit tmp o s.disk x ∧ ∀ q, q ≠ p → s.phase q = .idle := by
  refine ⟨hp ▸ h.owned p, fun q hq => ?_⟩
  by_contra hbusy
  exact hq (h.one q p hbusy (hp ▸ hx))

omit [DecidableEq ν] [Zero α] in
/-- One process goes on while the others are idle. -/
theorem Inv.next (hidle : ∀ q, q ≠ p → s.phase q = .idle) (hkept : Kept tmp dest good o d)
    (hx : Owned edit tmp o d x) : Inv edit tmp dest good o ⟨d, Function.update s.phase p x⟩ where
  kept := hkept
  owned q := by
    dsimp only
    by_cases hq : q = p
    · rw [hq, Function.update_self]
      exact hx
    · rw [Function.update_of_ne hq, hidle q hq]
      trivial
  one q r hq hr := by
    have honly : ∀ r, Function.update s.phase p x r ≠ .idle → r = p := by
      intro r hr
      by_contra hne
      exact hr ((Function.update_of_ne hne _ _).trans (hidle r hne))
    exact (honly q hq).trans (honly r hr).symm

theorem Inv.step (h : Inv edit tmp dest good o s) (hne : tmp ≠ dest)
    (hstep : Step edit tmp dest True s l t) :
    ∃ o', Seen edit good o l o' ∧ Inv edit tmp dest (fun x => good x ∨ x = o') o' t := by
  have hkept : Kept tmp dest (fun x => good x ∨ x = o) o s.disk := h.kept.mono fun _ => .inl
  cases hstep with
  | @load p e text hp hone hedit =>
    refine ⟨o, rfl, Inv.next (fun q _ => hone trivial q) hkept ?_⟩
    rwa [h.kept.current.read] at hedit
  | @openTmp p e text hp =>
    obtain ⟨hedit, hidle⟩ := h.busy hp (by simp)
    refine ⟨o, rfl, Inv.next hidle (hkept.openTruncated hne) ⟨hedit, lookup_openTruncated _ _, ?_⟩⟩
    rw [files_openTruncated]
  | @write p e i done chunk rest hp =>
    obtain ⟨⟨hedit, hlookup, hbytes⟩, hidle⟩ := h.busy hp (by simp)
    refine ⟨o, rfl, Inv.next hidle (hkept.put_tmp hlookup) ⟨?_, hlookup, ?_⟩⟩
    · rw [List.append_assoc]
      exact hedit
    · rw [Disk.writeAt, files_put, hbytes, Sparse.splice_end]
  | @sync p e i text hp =>
    obtain ⟨⟨hedit, hlookup, hbytes⟩, hidle⟩ := h.busy hp (by simp)
    rw [List.append_nil] at hedit
    refine ⟨o, rfl, Inv.next hidle (hkept.put_tmp hlookup)
      ⟨hedit, i, hlookup, ?_⟩⟩
    rw [Disk.sync, files_put]
    exact congrArg (File.mk · true) hbytes
  | @rename p e text hp htmp =>
    obtain ⟨⟨hedit, i, hlookup, hfile⟩, hidle⟩ := h.busy hp (by simp)
    refine ⟨some text, ⟨hedit.symm, rfl⟩, Inv.next hidle
      (h.kept.rename hne hlookup hfile) trivial⟩
  | @stop p =>
    refine ⟨o, rfl, hkept, ?_, ?_⟩
    · intro q
      dsimp only
      by_cases hq : q = p
      · rw [hq, Function.update_self]
        trivial
      · rw [Function.update_of_ne hq]
        exact h.owned q
    · have hbusy : ∀ q, Function.update s.phase p .idle q ≠ .idle → s.phase q ≠ .idle := by
        intro q hq
        by_cases hqp : q = p
        · rw [hqp, Function.update_self] at hq
          exact absurd rfl hq
        · rwa [Function.update_of_ne hqp] at hq
      exact fun q r hq hr => h.one q r (hbusy q hq) (hbusy r hr)
  | @powerFailure disk hs =>
    obtain ⟨o', ho', hkept'⟩ := h.kept.powerFailure hs
    exact ⟨o', ho', hkept'.mono fun _ => .inl, fun _ => trivial, fun q r hq => absurd rfl hq⟩

omit [DecidableEq π] [DecidableEq ν] [Zero α] in
theorem Settled.inv (h : Settled tmp dest s.disk) (hidle : ∀ p, s.phase p = .idle) :
    Inv edit tmp dest (· = s.disk.read dest) (s.disk.read dest) s := by
  have hone : ∀ dir ∈ s.disk.dirs.survivors, dir = s.disk.dirs.current := by
    intro dir hdir
    rw [Wal.survivors, h.pending, List.mem_singleton] at hdir
    rw [hdir, Wal.current, h.pending, List.getLastD_nil]
  have hshown : Shown s.disk dest s.disk.dirs.current (s.disk.read dest) := by
    rw [Disk.read, Disk.lookup]
    cases hdest : s.disk.dirs.current dest with
    | none => exact (shown_none hdest).2 rfl
    | some i => exact (shown_some hdest).2 ⟨rfl, h.synced i hdest⟩
  refine ⟨⟨?_, hshown, ?_, ?_, ?_⟩, ?_, ?_⟩
  · intro dir hdir
    rw [hone dir hdir]
    exact ⟨_, rfl, hshown⟩
  · intro dir hdir
    rw [hone dir hdir]
    exact h.distinct
  · intro dir hdir
    rw [hone dir hdir]
    exact h.distinct
  · intro dir hdir
    rw [hone dir hdir]
    exact h.named
  · intro p
    rw [hidle p]
    trivial
  · exact fun p q hp => absurd (hidle p) hp

omit [Zero α] in
theorem after_concat {es : List ε} {e : ε} :
    after edit o (es ++ [e]) = (edit e (after edit o es)).or (after edit o es) := by
  rw [after, List.foldl_append]
  rfl

theorem saves_concat : saves (ls ++ [l]) = saves ls ++ saves [l] := List.filterMap_append

/-- **At every moment the file is what some of the commands that came to their rename have made of
it, one after the other; all of them, if the power did not fail.** -/
theorem Run.read (hne : tmp ≠ dest) (hs : Settled tmp dest s.disk)
    (hidle : ∀ p, s.phase p = .idle) (h : Run edit tmp dest True s ls t) :
    ∃ es, es.Sublist (saves ls) ∧ t.disk.read dest = after edit (s.disk.read dest) es ∧
      (.powerFailure ∉ ls → es = saves ls) := by
  let start := s.disk.read dest
  let Good (ls : List (Label ε)) (o : Option (List α)) : Prop :=
    ∃ es, es.Sublist (saves ls) ∧ o = after edit start es
  suffices hinv : ∃ es, es.Sublist (saves ls) ∧ (.powerFailure ∉ ls → es = saves ls) ∧
      Inv edit tmp dest (Good ls) (after edit start es) t by
    obtain ⟨es, hsub, hall, hinv⟩ := hinv
    exact ⟨es, hsub, hinv.kept.current.read, hall⟩
  induction h with
  | refl =>
    have hstart : Inv edit tmp dest (· = start) start s := hs.inv hidle
    refine ⟨[], List.nil_sublist _, fun _ => rfl, ?_⟩
    exact ⟨hstart.kept.mono fun o ho => ⟨[], List.nil_sublist _, ho⟩, hstart.owned, hstart.one⟩
  | @tail t u ls l hfirst hlast ih =>
    obtain ⟨es, hsub, hall, hinv⟩ := ih
    obtain ⟨o', hseen, hinv'⟩ := hinv.step hne hlast
    have hmono {x : Option (List α)} (hx : Good ls x) : Good (ls ++ [l]) x := by
      obtain ⟨es', hsub', rfl⟩ := hx
      refine ⟨es', hsub'.trans ?_, rfl⟩
      rw [saves_concat]
      exact List.sublist_append_left _ _
    -- the commands that made what is read now
    have hnow : ∃ es', es'.Sublist (saves (ls ++ [l])) ∧ o' = after edit start es' ∧
        (.powerFailure ∉ ls ++ [l] → es' = saves (ls ++ [l])) := by
      cases l with
      | quiet | stop =>
        refine ⟨es, ?_, hseen, fun hno => ?_⟩
        · rw [saves_concat]
          exact hsub.trans (List.sublist_append_left _ _)
        · rw [saves_concat, hall fun h => hno (List.mem_append_left _ h)]
          exact (List.append_nil _).symm
      | saved e =>
        obtain ⟨hedit, hsome⟩ := hseen
        refine ⟨es ++ [e], ?_, ?_, fun hno => ?_⟩
        · rw [saves_concat]
          exact hsub.append_right [e]
        · rw [after_concat, ← hedit, Option.or_of_isSome hsome]
        · rw [saves_concat, hall fun h => hno (List.mem_append_left _ h)]
          rfl
      | powerFailure =>
        obtain ⟨es', hsub', ho'⟩ := hseen
        refine ⟨es', ?_, ho', fun hno => ?_⟩
        · rw [saves_concat]
          exact hsub'.trans (List.sublist_append_left _ _)
        · exact absurd (List.mem_append_right _ (List.mem_singleton.2 rfl)) hno
    obtain ⟨es', hsub', rfl, hall'⟩ := hnow
    refine ⟨es', hsub', hall', hinv'.kept.mono ?_, hinv'.owned, hinv'.one⟩
    rintro x (hx | rfl)
    · exact hmono hx
    · exact ⟨es', hsub', rfl⟩

omit [Zero α] in
theorem lookup_rename (hne : tmp ≠ dest) : (d.rename tmp dest).lookup dest = d.lookup tmp := by
  rw [Disk.rename, Disk.lookup, Wal.current_commit, Function.update_of_ne hne.symm,
    Function.update_self]
  rfl

/-- One process is that far, the others are as before. -/
def System.one (s : System π ν α ε) (p : π) (d : Disk ν α) (x : Phase ε α) : System π ν α ε :=
  ⟨d, Function.update s.phase p x⟩

omit [DecidableEq ν] [Zero α] in
theorem one_phase : (s.one p d x).phase p = x := Function.update_self _ _ _

theorem Step.one {d' : Disk ν α} {x' : Phase ε α} {alone : Prop}
    (h : Step edit tmp dest alone (s.one p d x) l
      ⟨d', Function.update (s.one p d x).phase p x'⟩) :
    Step edit tmp dest alone (s.one p d x) l (s.one p d' x') := by
  have hphase : Function.update (s.one p d x).phase p x' = (s.one p d' x').phase :=
    Function.update_idem _ _ _
  rwa [hphase] at h

/-- A command that nothing comes in the way of saves its text. -/
theorem exists_saved {alone : Prop} (hne : tmp ≠ dest) (hidle : ∀ p, s.phase p = .idle) (p : π)
    {e : ε} {text : List α} (he : edit e (s.disk.read dest) = some text) :
    ∃ t, Run edit tmp dest alone s [.quiet, .quiet, .quiet, .quiet, .saved e] t ∧
      t.disk.read dest = some text := by
  let i := (s.disk.openTruncated tmp).2
  let d₁ := (s.disk.openTruncated tmp).1
  let d₂ := d₁.writeAt i 0 text
  let d₃ := d₂.sync i
  have htmp : d₃.lookup tmp = some i := lookup_openTruncated _ _
  have hload : Step edit tmp dest alone s .quiet (s.one p s.disk (.loaded e text)) :=
    .load (hidle p) (fun _ => hidle) he
  have hopen : Step edit tmp dest alone (s.one p s.disk (.loaded e text)) .quiet
      (s.one p d₁ (.writing e i [] text)) := Step.one (.openTmp one_phase)
  have hphase : (s.one p d₁ (.writing e i [] text)).phase p = .writing e i [] (text ++ []) := by
    rw [one_phase, List.append_nil]
  have hwrite : Step edit tmp dest alone (s.one p d₁ (.writing e i [] text)) .quiet
      (s.one p d₂ (.writing e i text [])) := Step.one (.write hphase)
  have hsync : Step edit tmp dest alone (s.one p d₂ (.writing e i text [])) .quiet
      (s.one p d₃ (.closed e text)) := Step.one (.sync one_phase)
  have hrename : Step edit tmp dest alone (s.one p d₃ (.closed e text)) (.saved e)
      (s.one p (d₃.rename tmp dest) .idle) :=
    Step.one (.rename one_phase (Option.isSome_of_eq_some htmp))
  refine ⟨_, .tail (.tail (.tail (.tail (.tail .refl hload) hopen) hwrite) hsync) hrename, ?_⟩
  have hbytes : (d₂.files i).bytes = text := by
    have hempty : (d₁.files i).bytes = [] := congrArg File.bytes (files_openTruncated _ _)
    change ((d₁.writeAt i 0 text).files i).bytes = text
    rw [Disk.writeAt, files_put, hempty]
    exact @Sparse.splice_end α _ [] text
  have hsynced : (d₃.files i).bytes = text := (congrArg File.bytes files_put).trans hbytes
  change ((d₃.rename tmp dest).lookup dest).map (fun i => (d₃.files i).bytes) = some text
  rw [lookup_rename hne, htmp, Option.map_some, hsynced]

/-! ## Two commands at a time -/

/-- Two processes are that far. -/
def System.two (s : System π ν α ε) (p q : π) (d : Disk ν α) (x y : Phase ε α) : System π ν α ε :=
  (s.one p d x).one q d y

section Two

variable {p q : π} {d' : Disk ν α} {x' y y' : Phase ε α}

omit [DecidableEq ν] [Zero α] in
theorem two_phase_fst (hpq : p ≠ q) : (s.two p q d x y).phase p = x :=
  (Function.update_of_ne hpq _ _).trans one_phase

omit [DecidableEq ν] [Zero α] in
theorem two_phase_snd : (s.two p q d x y).phase q = y := one_phase

theorem Step.fst (hpq : p ≠ q) (h : Step edit tmp dest False (s.two p q d x y) l
    ⟨d', Function.update (s.two p q d x y).phase p x'⟩) :
    Step edit tmp dest False (s.two p q d x y) l (s.two p q d' x' y) := by
  have hphase : Function.update (s.two p q d x y).phase p x' = (s.two p q d' x' y).phase := by
    change Function.update (Function.update (Function.update s.phase p x) q y) p x' = _
    rw [Function.update_comm hpq, Function.update_idem]
    exact Function.update_comm hpq.symm _ _ _
  rwa [hphase] at h

theorem Step.snd (h : Step edit tmp dest False (s.two p q d x y) l
    ⟨d', Function.update (s.two p q d x y).phase q y'⟩) :
    Step edit tmp dest False (s.two p q d x y) l (s.two p q d' x y') :=
  Step.one h

end Two

/-- Two commands share the temporary file: the first renames it when the second has begun to write.
The file is then whatever part of its text the second one has written. -/
theorem exists_torn (hne : tmp ≠ dest) (hidle : ∀ p, s.phase p = .idle) {p q : π} (hpq : p ≠ q)
    {e e' : ε} {text chunk rest : List α} (he : edit e (s.disk.read dest) = some text)
    (he' : edit e' (s.disk.read dest) = some (chunk ++ rest)) :
    ∃ t, Run edit tmp dest False s
        [.quiet, .quiet, .quiet, .quiet, .quiet, .quiet, .saved e, .quiet] t ∧
      t.disk.read dest = some chunk := by
  let i := (s.disk.openTruncated tmp).2
  let d₁ := (s.disk.openTruncated tmp).1
  let d₂ := d₁.writeAt i 0 text
  let d₃ := d₂.sync i
  let d₄ := d₃.put i ⟨[], false⟩
  let d₅ := d₄.rename tmp dest
  let d₆ := d₅.writeAt i 0 chunk
  have htmp : d₃.lookup tmp = some i := lookup_openTruncated _ _
  have hreopen : d₃.openTruncated tmp = (d₄, i) := openTruncated_of_some htmp
  let second : Phase ε α := .loaded e' (chunk ++ rest)
  have hload : Step edit tmp dest False s .quiet (s.one p s.disk (.loaded e text)) :=
    .load (hidle p) False.elim he
  have hload' : Step edit tmp dest False (s.one p s.disk (.loaded e text)) .quiet
      (s.two p q s.disk (.loaded e text) second) :=
    .load ((Function.update_of_ne hpq.symm _ _).trans (hidle q)) False.elim he'
  -- the first command writes all of its text
  have hopen : Step edit tmp dest False (s.two p q s.disk (.loaded e text) second) .quiet
      (s.two p q d₁ (.writing e i [] text) second) := Step.fst hpq (.openTmp (two_phase_fst hpq))
  have hphase : (s.two p q d₁ (.writing e i [] text) second).phase p =
      .writing e i [] (text ++ []) := by
    rw [two_phase_fst hpq, List.append_nil]
  have hwrite : Step edit tmp dest False (s.two p q d₁ (.writing e i [] text) second) .quiet
      (s.two p q d₂ (.writing e i text []) second) := Step.fst hpq (.write hphase)
  have hsync : Step edit tmp dest False (s.two p q d₂ (.writing e i text []) second) .quiet
      (s.two p q d₃ (.closed e text) second) := Step.fst hpq (.sync (two_phase_fst hpq))
  -- the second one opens the same file, which the first one renames
  have hopen' : Step edit tmp dest False (s.two p q d₃ (.closed e text) second) .quiet
      (s.two p q d₄ (.closed e text) (.writing e' i [] (chunk ++ rest))) := by
    have h : Step edit tmp dest False (s.two p q d₃ (.closed e text) second) .quiet
        (s.two p q (d₃.openTruncated tmp).1 (.closed e text)
          (.writing e' (d₃.openTruncated tmp).2 [] (chunk ++ rest))) :=
      Step.snd (.openTmp two_phase_snd)
    rwa [hreopen] at h
  have hrename : Step edit tmp dest False
      (s.two p q d₄ (.closed e text) (.writing e' i [] (chunk ++ rest))) (.saved e)
      (s.two p q d₅ .idle (.writing e' i [] (chunk ++ rest))) :=
    Step.fst hpq (.rename (two_phase_fst hpq) (Option.isSome_of_eq_some htmp))
  have hwrite' : Step edit tmp dest False (s.two p q d₅ .idle (.writing e' i [] (chunk ++ rest)))
      .quiet (s.two p q d₆ .idle (.writing e' i chunk rest)) := Step.snd (.write two_phase_snd)
  refine ⟨_, .tail (.tail (.tail (.tail (.tail (.tail (.tail (.tail .refl hload) hload') hopen)
    hwrite) hsync) hopen') hrename) hwrite', ?_⟩
  have hdest : d₆.lookup dest = some i := (lookup_rename hne).trans htmp
  have hbytes : (d₆.files i).bytes = chunk := by
    change ((d₅.writeAt i 0 chunk).files i).bytes = chunk
    have hempty : (d₅.files i).bytes = [] := congrArg File.bytes (files_put (d := d₃))
    rw [Disk.writeAt, files_put, hempty]
    exact @Sparse.splice_end α _ [] chunk
  change d₆.read dest = some chunk
  rw [Disk.read, hdest, Option.map_some, hbytes]

end Runs

end Replace
