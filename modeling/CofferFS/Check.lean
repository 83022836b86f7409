import CofferFS.Tree

/-!
# The consistency check

`find_inconsistencies` and the part of `cmd_check` that prints what it found. The check counts
names of no inode and inodes without a name; what it is to find out is whether the root leads to
every inode. On the containers that requests make the two agree. On a damaged container they need
not: `checkComplete_iff` says which damage the check does not see.
-/

namespace CofferFS

open Script Relation

namespace Db

/-- `SELECT count(*) FROM dentries d LEFT JOIN inodes i ON i.ino = d.ino WHERE i.ino IS NULL` -/
def danglingNames (db : Db) : ℕ := db.dentries.count fun _ i => i ∉ db.inodes

/-- `SELECT count(*) FROM inodes i WHERE i.ino <> 1
AND NOT EXISTS (SELECT 1 FROM dentries d WHERE d.ino = i.ino)` -/
def namelessInodes (db : Db) : ℕ :=
  db.inodes.count fun i _ => i ≠ rootIno ∧ db.nameCount i = 0

end Db

/-- `find_inconsistencies` -/
def findInconsistencies : Sql (ℕ × ℕ) := do
  let dangling ← query fun db => .ok db.danglingNames
  let unreachable ← query fun db => .ok db.namelessInodes
  pure (dangling, unreachable)

/-- `SCHEMA_VERSION` -/
def schemaVersion : String := "2"

/-- A line that `cmd_check` prints about names. -/
inductive CheckLine
  /-- `Checking that every name resolves and every file is reachable...` -/
  | checking
  /-- `OK: no dangling names, no unreachable files.` -/
  | clean
  /-- `{dangling} name(s) point at an inode that does not exist` -/
  | dangling (n : ℕ)
  /-- `{unreachable} file(s) have no name and cannot be reached` -/
  | unreachable (n : ℕ)
  /-- `error: {e}` -/
  | failed (e : SqlError)
  deriving DecidableEq

/-- What `cmd_check` prints about the answer of `find_inconsistencies`, and `logically_ok`. -/
def report : Except SqlError (ℕ × ℕ) → List CheckLine × Bool
  | .ok (0, 0) => ([.clean], true)
  | .ok (dangling, unreachable) =>
    ((if dangling ≠ 0 then [.dangling dangling] else []) ++
      if unreachable ≠ 0 then [.unreachable unreachable] else [], false)
  | .error e => ([.failed e], false)

/-- The last part of `cmd_check`, with `schema_version(&con)` as its argument: the lines it prints
and `logically_ok`. -/
def checkNames (version : Option String) : Sql (List CheckLine × Bool) :=
  if version = some schemaVersion then do
    let found ← attempt findInconsistencies
    pure (.checking :: (report found).1, (report found).2)
  else pure ([], true)

/-! ## What the two counts say -/

variable {db db' : Db}

theorem Db.danglingNames_eq_zero_iff :
    db.danglingNames = 0 ↔ ∀ k i, db.dentries.lookup k = some i → i ∈ db.inodes := by
  simp [danglingNames, AList.count_eq_zero_iff]

theorem Db.namelessInodes_eq_zero_iff : db.namelessInodes = 0 ↔
    ∀ i ∈ db.inodes, i ≠ rootIno → ∃ k, db.dentries.lookup k = some i := by
  have hname (i : Ino) : db.nameCount i = 0 ↔ ¬ ∃ k, db.dentries.lookup k = some i := by
    rw [nameCount, AList.count_eq_zero_iff]
    simp only [decide_eq_false_iff_not, not_exists]
    exact ⟨fun h k hk => h k i hk rfl, fun h k j hk hj => h k (hj ▸ hk)⟩
  rw [namelessInodes, AList.count_eq_zero_iff]
  simp only [decide_eq_false_iff_not, not_and, hname, not_not]
  constructor
  · intro h i hi
    obtain ⟨r, hr⟩ := AList.exists_lookup_of_mem hi
    exact h i r hr
  · exact fun h i r hr => h i (AList.mem_of_lookup_eq_some hr)

/-- Neither query finds anything. -/
structure Db.Quiet (db : Db) : Prop where
  resolves : ∀ k i, db.dentries.lookup k = some i → i ∈ db.inodes
  named : ∀ i ∈ db.inodes, i ≠ rootIno → ∃ k, db.dentries.lookup k = some i

theorem Db.quiet_iff : db.Quiet ↔ db.danglingNames = 0 ∧ db.namelessInodes = 0 := by
  rw [danglingNames_eq_zero_iff, namelessInodes_eq_zero_iff]
  exact ⟨fun h => ⟨h.resolves, h.named⟩, fun h => ⟨h.1, h.2⟩⟩

/-- Whatever fails, the pair that comes back is the two counts. -/
theorem yields_findInconsistencies {r : ℕ × ℕ}
    (h : findInconsistencies.Yields db (.ok r) db') :
    r = (db.danglingNames, db.namelessInodes) := by
  obtain ⟨dangling, t, hdangling, h⟩ := Yields.bind_ok h
  obtain ⟨unreachable, t', hunreachable, h⟩ := Yields.bind_ok h
  obtain ⟨hd, ht⟩ := yields_query_ok.1 hdangling
  obtain ⟨hu, -⟩ := yields_query_ok.1 hunreachable
  have hr := (yields_pure.1 h).1
  rw [ht] at hu
  cases hd
  cases hu
  exact Except.ok.inj hr

theorem runs_findInconsistencies (db : Db) :
    findInconsistencies.Runs db (.ok (db.danglingNames, db.namelessInodes)) db := by
  have hdangling : (query fun db : Db => (.ok db.danglingNames : Except SqlError ℕ)).Runs db
      (.ok db.danglingNames) db :=
    runs_query_ok rfl
  have hunreachable : (query fun db : Db => (.ok db.namelessInodes : Except SqlError ℕ)).Runs db
      (.ok db.namelessInodes) db :=
    runs_query_ok rfl
  exact hdangling.bind (hunreachable.bind (runs_pure _))

theorem runs_zero (h : db.Quiet) : findInconsistencies.Runs db (.ok (0, 0)) db := by
  obtain ⟨hdangling, hunreachable⟩ := Db.quiet_iff.1 h
  have hruns := runs_findInconsistencies db
  rwa [hdangling, hunreachable] at hruns

/-- The check reports nothing exactly if neither query finds anything. -/
theorem yields_zero_iff : (∃ db', findInconsistencies.Yields db (.ok (0, 0)) db') ↔ db.Quiet := by
  constructor
  · intro h
    obtain ⟨db', h⟩ := h
    have hcounts := yields_findInconsistencies h
    exact Db.quiet_iff.2 ⟨(congrArg Prod.fst hcounts).symm, (congrArg Prod.snd hcounts).symm⟩
  · exact fun h => ⟨db, (runs_zero h).yields⟩

theorem clean_mem_report {found : Except SqlError (ℕ × ℕ)} :
    .clean ∈ (report found).1 ↔ found = .ok (0, 0) := by
  rcases found with e | ⟨dangling, unreachable⟩
  · simp [report]
  · cases dangling <;> cases unreachable <;> simp [report]

/-- The line that says so is printed only then. -/
theorem quiet_of_clean {version : Option String} {lines : List CheckLine} {ok : Bool}
    (h : (checkNames version).Yields db (.ok (lines, ok)) db') (hclean : .clean ∈ lines) :
    db.Quiet := by
  unfold checkNames at h
  split_ifs at h
  · obtain ⟨found, t, hfound, h⟩ := h.bind_ok
    obtain ⟨r, hr, hfound⟩ := yields_attempt.1 hfound
    cases Except.ok.inj hr
    obtain ⟨heq, -⟩ := yields_pure.1 h
    cases heq
    have hmem : .clean ∈ (report found).1 := (List.mem_cons.1 hclean).resolve_left nofun
    have hzero : found = .ok (0, 0) := clean_mem_report.1 hmem
    rw [hzero] at hfound
    exact yields_zero_iff.1 ⟨t, hfound⟩
  · obtain ⟨heq, -⟩ := yields_pure.1 h
    cases heq
    simp at hclean

/-! ## What the check is to find out -/

/-- Every name denotes an inode, and names lead from the root to every inode. -/
structure Db.Sound (db : Db) : Prop where
  resolves : ∀ k i, db.dentries.lookup k = some i → i ∈ db.inodes
  reached : ∀ i ∈ db.inodes, db.Below i rootIno

/-- Nothing is lost: no subtree hangs in the air, no directory lies below itself, and no inode
has all of its names in directories that do not exist. -/
structure Db.NothingLost (db : Db) : Prop where
  no_orphan : ∀ i ∈ db.inodes, db.Below i rootIno
  no_circle : ∀ i, ¬ TransGen db.Up i i
  no_stray : ∀ i ∈ db.inodes, i ≠ rootIno → ∃ k, db.dentries.lookup k = some i ∧ k.1 ∈ db.inodes

/-- The check is right about `db`: it finds nothing exactly if `db` is sound, and when it prints
that all is well, nothing is lost. -/
structure Db.CheckComplete (db : Db) : Prop where
  sound_of_zero : ∀ db', findInconsistencies.Yields db (.ok (0, 0)) db' → db.Sound
  zero_of_sound : db.Sound → findInconsistencies.Runs db (.ok (0, 0)) db
  nothing_lost : ∀ version lines ok db', (checkNames version).Yields db (.ok (lines, ok)) db' →
    .clean ∈ lines → db.NothingLost

/-- Damage that two counts cannot see: every name denotes an inode and every inode has a name, but
some directories lie below themselves, or some inode has all of its names in directories that do
not exist. -/
structure Db.HidesLoss (db : Db) : Prop where
  quiet : db.Quiet
  lost : (∃ i, TransGen db.Up i i) ∨
    ∃ i ∈ db.inodes, i ≠ rootIno ∧ ∀ k, db.dentries.lookup k = some i → k.1 ∉ db.inodes

theorem Db.Sound.quiet (h : db.Sound) : db.Quiet := by
  refine ⟨h.resolves, fun i hi hroot => ?_⟩
  rcases ReflTransGen.cases_head (h.reached i hi) with hroot' | ⟨p, ⟨name, hname⟩, -⟩
  · exact (hroot hroot').elim
  · exact ⟨(p, name), hname⟩

/-- Without directories below themselves, and with every inode named in a directory that exists,
the way up from every inode ends, and it can only end at the root. -/
theorem Db.nothingLost_of_not_hidesLoss (hquiet : db.Quiet) (h : ¬ db.HidesLoss) :
    db.NothingLost := by
  have hcircle (i : Ino) : ¬ TransGen db.Up i i := fun hcirc => h ⟨hquiet, Or.inl ⟨i, hcirc⟩⟩
  have hstray (i : Ino) (hi : i ∈ db.inodes) (hroot : i ≠ rootIno) :
      ∃ k, db.dentries.lookup k = some i ∧ k.1 ∈ db.inodes := by
    by_contra hnone
    push Not at hnone
    exact h ⟨hquiet, Or.inr ⟨i, hi, hroot, hnone⟩⟩
  have hfin : {i : Ino | i ∈ db.inodes}.Finite := List.finite_toSet db.inodes.keys
  have hup (i : Ino) (hi : i ∈ db.inodes) (hroot : i ≠ rootIno) :
      ∃ p ∈ db.inodes, db.Up i p := by
    obtain ⟨⟨p, name⟩, hname, hp⟩ := hstray i hi hroot
    exact ⟨p, hp, name, hname⟩
  exact ⟨fun i hi => Climbs.reaches_of_not_cyclic hfin hcircle hup hi, hcircle, hstray⟩

/-- **The check is right about a container exactly if its damage, if any, is not of the hidden
kind.** -/
theorem checkComplete_iff (db : Db) : db.CheckComplete ↔ ¬ db.HidesLoss := by
  constructor
  · intro h hides
    have hclean : (checkNames (some schemaVersion)).Runs db (.ok ([.checking, .clean], true)) db :=
      (runs_zero hides.quiet).attempt.bind (runs_pure _)
    have hlost := h.nothing_lost _ _ _ _ hclean.yields (by simp)
    rcases hides.lost with ⟨i, hcirc⟩ | ⟨i, hi, hroot, hnone⟩
    · exact hlost.no_circle i hcirc
    · obtain ⟨k, hk, hkey⟩ := hlost.no_stray i hi hroot
      exact hnone k hk hkey
  · intro h
    refine ⟨fun db' hzero => ?_, fun hsound => ?_, fun version lines ok db' hrun hclean => ?_⟩
    · have hquiet := yields_zero_iff.1 ⟨db', hzero⟩
      exact ⟨hquiet.resolves, (Db.nothingLost_of_not_hidesLoss hquiet h).no_orphan⟩
    · exact runs_zero hsound.quiet
    · exact Db.nothingLost_of_not_hidesLoss (quiet_of_clean hrun hclean) h

/-- Two directories that hold each other, and no other name. -/
def Db.ring : Db :=
  let dir : Inode := ⟨.dir, sIfDir ||| 0o755, 0, 0, 0, 0, 0, 0, none⟩
  { Db.created 0 0 0 with
    inodes := ((Db.created 0 0 0).inodes.insert 2 dir).insert 3 dir
    seq := 3
    dentries := ((∅ : Table (Ino × String) Ino).insert (2, "a") 3).insert (3, "b") 2 }

/-- The check finds nothing, and the root leads to neither of the two. -/
theorem ring_not_found : (∃ db', findInconsistencies.Yields .ring (.ok (0, 0)) db') ∧
    ¬ Db.ring.Sound := by
  have hquiet : Db.ring.Quiet := Db.quiet_iff.2 (by decide +kernel)
  refine ⟨yields_zero_iff.2 hquiet, fun hsound => ?_⟩
  -- what has a name is one of the two, and so is the directory that holds the name
  have hup (i p : Ino) (hip : Db.ring.Up i p) : p = 2 ∨ p = 3 := by
    obtain ⟨name, hname⟩ := hip
    have hentry : ∀ e ∈ Db.ring.dentries.entries, e.1.1 = 2 ∨ e.1.1 = 3 := by decide +kernel
    exact hentry ⟨(p, name), i⟩ (AList.mem_entries_iff.2 hname)
  have hbelow : Db.ring.Below 2 rootIno := hsound.reached 2 (by decide +kernel)
  rcases ReflTransGen.cases_tail hbelow with hroot | ⟨i, -, hip⟩
  · cases hroot
  · rcases hup i rootIno hip with hroot | hroot <;> cases hroot

/-- The check finds nothing in a container that only requests have changed. -/
theorem Reachable.check_finds_nothing (h : Reachable db) :
    findInconsistencies.Runs db (.ok (0, 0)) db :=
  runs_zero ⟨h.treeInv.child, h.treeInv.named⟩

end CofferFS
