import CofferFS.Lib.Cursor
import CofferFS.Tree
import CofferFS.Quiet

/-!
# Scans of a directory

`readdir` sorts the names of the directory anew in every call and takes its offset for a position
in that list. The kernel reads a directory in several calls, each from the offset that came with
the last entry it got, and between them other requests are served. A name that appears or goes
before the offset moves every name behind it by one.

`Scan` is such a scan over the callbacks. `scan_complete_iff` says when it delivers every entry
that stays exactly once: when no entry moves across the offset, or each as often one way as the
other.
-/

namespace CofferFS

open Script

/-! ## One call -/

section Call

variable {db db' : Db} {dir parent : Ino} {offset room : ℕ}

theorem runs_fetchRows {rows : List Db.ListedName} : (fetchRows rows).Runs db (.ok rows) db := by
  induction rows with
  | nil => exact runs_pure _
  | cons r rest ih =>
    have hfetch : (query fun _ => .ok r : Sql Db.ListedName).Runs db (.ok r) db := runs_query_ok rfl
    refine Runs.bind hfetch.attempt ?_
    exact Runs.bind ih (runs_pure (r :: rest))

/-- Without failures a call that is answered delivers a part of the listing. -/
theorem entries_of_answer {m : Mount} {now : F64} {entries : List DirEntry}
    (h : (step (.quiet m now) (.readdir dir offset room) db).1 = .ok (.directory entries)) :
    ∃ parent, entries = addEntries (dirEntries dir parent (db.listing dir)) offset room := by
  -- the parent is looked up, and is found or is not
  have hparent : (∃ p, (parentIno dir).Runs db (.ok p) db) ∨
      (parentIno dir).Runs db (.error (.error .enoent)) db := by
    unfold parentIno
    split_ifs
    · exact Or.inl ⟨_, runs_pure _⟩
    · cases hp : db.parentOf dir with
      | ok p => exact Or.inl ⟨p, Runs.mapError_ok (runs_query_ok hp)⟩
      | error e => exact Or.inr (Runs.mapError_error (runs_query_error hp))
  rcases hparent with ⟨p, hp⟩ | hp
  · have hrun : (readdir dir offset room).Runs db
        (.ok (.directory (addEntries (dirEntries dir p (db.listing dir)) offset room))) db := by
      refine Runs.bind hp ?_
      refine Runs.bind (Runs.mapError_ok (runs_query_ok rfl)) ?_
      exact Runs.bind runs_fetchRows (runs_pure _)
    rw [@step_quiet m now (.readdir dir offset room) db db _ hrun] at h
    cases h
    exact ⟨p, rfl⟩
  · have hrun : (readdir dir offset room).Runs db (.error (.error .enoent)) db :=
      hp.bind_error
    rw [@step_quiet m now (.readdir dir offset room) db db _ hrun] at h
    cases h

theorem length_addEntries {entries : List (Ino × FileType × String)} :
    (addEntries entries offset room).length = min room (entries.length - offset) := by
  simp [addEntries]

/-- The offset that comes with the last entry counts the entries delivered so far. -/
theorem nextOffset_addEntries {entries : List (Ino × FileType × String)} :
    ((addEntries entries offset room).getLast?.map DirEntry.nextOffset).getD offset =
      offset + (addEntries entries offset room).length := by
  rw [List.getLast?_eq_getElem?]
  rcases hlen : (addEntries entries offset room).length with _ | k
  · rw [List.length_eq_zero_iff.1 hlen]
    rfl
  · have hk : k < (addEntries entries offset room).length := by omega
    rw [Nat.add_sub_cancel, List.getElem?_eq_getElem hk]
    simp [addEntries]
    omega

end Call

/-! ## The listing -/

namespace Db

variable {db : Db} {dir i : Ino} {n : String}

/-- How many names in `dir` come before `n`. -/
def namesBefore (db : Db) (dir : Ino) (n : String) : ℕ :=
  db.dentries.count fun k _ => k.1 = dir ∧ k.2 < n

/-- The names in `dir`, as they are stored. -/
def namesIn (db : Db) (dir : Ino) : List String :=
  db.dentries.keys.filterMap fun k => if k.1 = dir then some k.2 else none

theorem nodup_namesIn : (db.namesIn dir).Nodup := by
  refine db.dentries.keys_nodup.filterMap fun k k' n hk hk' => ?_
  rw [Option.mem_def, Option.ite_none_right_eq_some] at hk hk'
  exact Prod.ext (hk.1.trans hk'.1.symm) (Option.some.inj (hk.2.trans hk'.2.symm))

theorem countP_namesIn : (db.namesIn dir).countP (· < n) = db.namesBefore dir n := by
  rw [namesIn, List.countP_filterMap, AList.keys, List.keys, List.countP_map, namesBefore,
    AList.count]
  refine List.countP_congr fun e _ => ?_
  by_cases hdir : e.1.1 = dir <;> simp [hdir]

/-- The listing has every name of the directory once. -/
theorem perm_listing (hchild : ∀ k i, db.dentries.lookup k = some i → i ∈ db.inodes) :
    ((db.listing dir).map ListedName.name).Perm (db.namesIn dir) := by
  refine ((List.perm_insertionSort _ _).map _).trans (List.Perm.of_eq ?_)
  rw [List.map_filterMap, namesIn, AList.keys, List.keys, List.filterMap_map]
  refine List.filterMap_congr fun e he => ?_
  obtain ⟨r, hr⟩ := AList.exists_lookup_of_mem (hchild e.1 e.2 (AList.mem_entries_iff.1 he))
  by_cases hdir : e.1.1 = dir <;> simp [hdir, hr]

/-- The listing is sorted, and no name is in it twice. -/
theorem pairwise_listing (hchild : ∀ k i, db.dentries.lookup k = some i → i ∈ db.inodes) :
    ((db.listing dir).map ListedName.name).Pairwise (· < ·) := by
  have hle : ((db.listing dir).map ListedName.name).Pairwise (· ≤ ·) := by
    have htotal : Std.Total fun a b : ListedName => a.name ≤ b.name :=
      ⟨fun a b => le_total a.name b.name⟩
    have htrans : IsTrans ListedName fun a b => a.name ≤ b.name :=
      ⟨fun _ _ _ hab hbc => hab.trans hbc⟩
    exact List.pairwise_map.2 (List.pairwise_insertionSort _ _)
  have hne : ((db.listing dir).map ListedName.name).Pairwise (· ≠ ·) :=
    (perm_listing hchild).nodup_iff.2 nodup_namesIn
  exact hle.imp₂ (fun _ _ hle hne => lt_of_le_of_ne hle hne) hne

/-- A name stands in the listing behind the names that come before it. -/
theorem listing_split (hchild : ∀ k i, db.dentries.lookup k = some i → i ∈ db.inodes)
    (hn : db.childIno dir n = some i) : ∃ l₁ row l₂, db.listing dir = l₁ ++ row :: l₂ ∧
      row.name = n ∧ row.ino = i ∧ l₁.length = db.namesBefore dir n ∧
      (∀ r ∈ l₁, r.name ≠ n) ∧ ∀ r ∈ l₂, r.name ≠ n := by
  obtain ⟨r, hr⟩ := AList.exists_lookup_of_mem (hchild _ _ hn)
  have hmem : (⟨i, n, r.kind⟩ : ListedName) ∈ db.listing dir := by
    refine (List.perm_insertionSort _ _).mem_iff.2 (List.mem_filterMap.2 ?_)
    exact ⟨⟨(dir, n), i⟩, AList.mem_entries_iff.2 hn, by simp [hr]⟩
  obtain ⟨l₁, l₂, hsplit⟩ := List.append_of_mem hmem
  have hsorted := @pairwise_listing db dir hchild
  have hperm := @perm_listing db dir hchild
  rw [hsplit, List.map_append, List.map_cons] at hsorted hperm
  refine ⟨l₁, _, l₂, hsplit, rfl, rfl, ?_, ?_, ?_⟩
  · rw [← countP_namesIn, ← hperm.countP_eq, Cursor.countP_lt_of_sorted hsorted, List.length_map]
  · intro r hr
    exact ((List.pairwise_append.1 hsorted).2.2 _ (List.mem_map_of_mem hr) n
      List.mem_cons_self).ne
  · intro r hr
    have hlt := (List.pairwise_cons.1 (List.pairwise_append.1 hsorted).2.1).1 _
      (List.mem_map_of_mem hr)
    exact hlt.ne'

end Db

/-- The entry stands for the name `n` of the inode `i`. The first two entries are `.` and `..`. -/
def DirEntry.StandsFor (n : String) (i : Ino) (e : DirEntry) : Prop :=
  e.name = n ∧ e.ino = i ∧ 2 < e.nextOffset

instance (n : String) (i : Ino) (e : DirEntry) : Decidable (e.StandsFor n i) :=
  inferInstanceAs (Decidable (_ ∧ _))

/-- The place of a name is one of the list. -/
theorem place_lt_length {db : Db} {dir parent i : Ino} {n : String}
    (hchild : ∀ k i, db.dentries.lookup k = some i → i ∈ db.inodes)
    (hn : db.childIno dir n = some i) :
    2 + db.namesBefore dir n < (dirEntries dir parent (db.listing dir)).length := by
  obtain ⟨l₁, row, l₂, hsplit, -, -, hbefore, -, -⟩ := Db.listing_split hchild hn
  simp only [dirEntries, hsplit, List.length_cons, List.length_map, List.length_append]
  omega

/-- A call delivers a name if the name's place is among those that the call covers. -/
theorem countP_addEntries {db : Db} {dir parent i : Ino} {n : String} {offset room : ℕ}
    (hchild : ∀ k i, db.dentries.lookup k = some i → i ∈ db.inodes)
    (hn : db.childIno dir n = some i) :
    (addEntries (dirEntries dir parent (db.listing dir)) offset room).countP
        (fun e => e.StandsFor n i) =
      if offset ≤ 2 + db.namesBefore dir n ∧ 2 + db.namesBefore dir n <
          offset + (addEntries (dirEntries dir parent (db.listing dir)) offset room).length
      then 1 else 0 := by
  obtain ⟨l₁, row, l₂, hsplit, hname, hino, hbefore, h₁, h₂⟩ := Db.listing_split hchild hn
  let entry (r : Db.ListedName) : Ino × FileType × String := (r.ino, fileTypeOf r.kind, r.name)
  let dots : List (Ino × FileType × String) := [(dir, .directory, "."), (parent, .directory, "..")]
  have hall : dirEntries dir parent (db.listing dir) =
      (dots ++ l₁.map entry) ++ entry row :: l₂.map entry := by
    simp [dirEntries, hsplit, entry, dots]
  have hlen : (dots ++ l₁.map entry).length = 2 + db.namesBefore dir n := by
    rw [List.length_append, List.length_map, hbefore]
    rfl
  have hother {l : List Db.ListedName} (h : ∀ r ∈ l, r.name ≠ n) {k : ℕ}
      {b : (Ino × FileType × String) × ℕ} (hb : b ∈ (l.map entry).zipIdx k) : b.1.2.2 ≠ n := by
    obtain ⟨r, hr, heq⟩ := List.mem_map.1 (List.fst_mem_of_mem_zipIdx hb)
    rw [← heq]
    exact h r hr
  -- `.`, `..` and the names before come first, then the name, then the names behind
  have hbehind : ∀ b ∈ (l₂.map entry).zipIdx (2 + db.namesBefore dir n + 1),
      decide (b.1.2.2 = n ∧ b.1.1 = i ∧ 2 < b.2 + 1) = false := by
    intro b hb
    simp [hother h₂ hb]
  have hfront : ∀ b ∈ (dots ++ l₁.map entry).zipIdx,
      decide (b.1.2.2 = n ∧ b.1.1 = i ∧ 2 < b.2 + 1) = false := by
    intro b hb
    rw [List.zipIdx_append] at hb
    rcases List.mem_append.1 hb with hb | hb
    · have hdot : ∀ b ∈ dots.zipIdx, b.2 < 2 := by simp [dots]
      have hlt := hdot b hb
      rw [decide_eq_false_iff_not]
      rintro ⟨-, -, hidx⟩
      omega
    · simp [hother h₁ hb]
  have hitself : decide ((entry row).2.2 = n ∧ (entry row).1 = i ∧
      2 < 2 + db.namesBefore dir n + 1) = true :=
    decide_eq_true ⟨hname, hino, by omega⟩
  have hwindow := @Cursor.countP_window _
    (fun b : (Ino × FileType × String) × ℕ => decide (b.1.2.2 = n ∧ b.1.1 = i ∧ 2 < b.2 + 1))
    _ _ (entry row, 2 + db.namesBefore dir n) offset room hfront hitself hbehind
  rw [List.length_zipIdx, hlen] at hwindow
  have hcover := @place_lt_length db dir parent i n hchild hn
  rw [length_addEntries]
  refine Eq.trans ?_ (hwindow.trans ?_)
  · rw [hall, addEntries, List.zipIdx_append, List.zipIdx_cons, List.countP_map, hlen, Nat.zero_add]
    rfl
  · refine if_congr ?_ rfl rfl
    omega

/-! ## Scans -/

/-- A call of a scan: the tables it met, the offset it started at and what it delivered. -/
structure ScanCall where
  db : Db
  offset : ℕ
  entries : List DirEntry

/-- The offset that comes with the last entry. -/
def ScanCall.next (c : ScanCall) : ℕ :=
  (c.entries.getLast?.map DirEntry.nextOffset).getD c.offset

/-- A scan of `dir` as the kernel makes it, from an offset on: the tables it passes through and its
calls. The buffer of a call has room for an entry; a call that delivers nothing is the last one.
Once the scan has begun any request may come between two calls. -/
inductive Scan (dir : Ino) : Db → ℕ → List Db → List ScanCall → Prop
  | done {db : Db} {offset room : ℕ} (m : Mount) (now : F64) : 0 < room →
      (step (.quiet m now) (.readdir dir offset room) db).1 = .ok (.directory []) →
      Scan dir db offset [db] [⟨db, offset, []⟩]
  | call {db : Db} {offset room : ℕ} {entries : List DirEntry} {states : List Db}
      {calls : List ScanCall} (m : Mount) (now : F64) :
      (step (.quiet m now) (.readdir dir offset room) db).1 = .ok (.directory entries) →
      entries ≠ [] → Scan dir db (ScanCall.next ⟨db, offset, entries⟩) states calls →
      Scan dir db offset (db :: states) (⟨db, offset, entries⟩ :: calls)
  | change {db : Db} {offset : ℕ} {states : List Db} {calls : List ScanCall} (env : Env)
      (req : Request) : 0 < offset → KernelOk db req →
      Scan dir (step env req db).2 offset states calls →
      Scan dir db offset (db :: states) calls

/-- The name `n` denotes `i` from the first call to the last. -/
def Stays (dir : Ino) (n : String) (i : Ino) (states : List Db) : Prop :=
  ∀ db ∈ states, db.childIno dir n = some i

/-- How often the scan delivers the entry. -/
def deliveries (n : String) (i : Ino) (calls : List ScanCall) : ℕ :=
  (calls.flatMap ScanCall.entries).countP fun e => e.StandsFor n i

/-- Every entry that stays is delivered exactly once. -/
def ScanComplete (dir : Ino) (states : List Db) (calls : List ScanCall) : Prop :=
  ∀ n i, Stays dir n i states → deliveries n i calls = 1

/-- A call as the name `n` sees it: its place, behind `.`, `..` and the names that come before it,
and the places that the call covers. -/
def ScanCall.seenBy (dir : Ino) (n : String) (c : ScanCall) : Cursor.Call where
  pos := 2 + c.db.namesBefore dir n
  start := c.offset
  stop := c.next

/-- What happens between the calls moves every entry that stays across the offset of the next call
as often backward as forward. -/
def Balanced (dir : Ino) (states : List Db) (calls : List ScanCall) : Prop :=
  ∀ n i, Stays dir n i states →
    Cursor.skips (calls.map (ScanCall.seenBy dir n)) =
      Cursor.returns (calls.map (ScanCall.seenBy dir n))

variable {db : Db} {dir i : Ino} {n : String} {offset : ℕ} {states : List Db}
  {calls : List ScanCall}

theorem deliveries_cons {c : ScanCall} : deliveries n i (c :: calls) =
    c.entries.countP (fun e => e.StandsFor n i) + deliveries n i calls := by
  rw [deliveries, List.flatMap_cons, List.countP_append, deliveries]

/-- An answered call takes the places that it covers. -/
theorem ScanCall.spec {m : Mount} {now : F64} {room : ℕ} {entries : List DirEntry}
    (htree : db.TreeInv) (hn : db.childIno dir n = some i)
    (h : (step (.quiet m now) (.readdir dir offset room) db).1 = .ok (.directory entries)) :
    ScanCall.next ⟨db, offset, entries⟩ = offset + entries.length ∧
      entries.countP (fun e => e.StandsFor n i) =
        (if (ScanCall.seenBy dir n ⟨db, offset, entries⟩).Reads then 1 else 0) ∧
      (entries = [] → 0 < room → 2 + db.namesBefore dir n < offset) := by
  obtain ⟨parent, rfl⟩ := entries_of_answer h
  have hnext : ScanCall.next ⟨db, offset, addEntries (dirEntries dir parent (db.listing dir)) offset
      room⟩ = _ := nextOffset_addEntries
  refine ⟨hnext, ?_, fun hempty hroom => ?_⟩
  · rw [countP_addEntries htree.child hn, ← hnext]
    rfl
  · have hplace := @place_lt_length db dir parent i n htree.child hn
    have hlen := congrArg List.length hempty
    rw [length_addEntries, List.length_nil] at hlen
    omega

/-- The calls of a scan, as an entry that stays sees them. -/
theorem Scan.seen (h : Scan dir db offset states calls) (hdb : db.TreeInv)
    (hstays : Stays dir n i states) :
    ∃ c cs, calls.map (ScanCall.seenBy dir n) = c :: cs ∧ c.start = offset ∧
      Cursor.Chained (c :: cs) ∧ Cursor.EndsBehind (c :: cs) ∧
      Cursor.reads (c :: cs) = deliveries n i calls := by
  induction h with
  | @done db offset room m now hroom hanswer =>
    obtain ⟨hnext, hcount, hbehind⟩ := ScanCall.spec hdb (hstays db (by simp)) hanswer
    refine ⟨_, [], rfl, rfl, ?_, ?_, ?_⟩
    · exact (Nat.le_add_right offset _).trans hnext.ge
    · exact (hbehind rfl hroom).trans_le ((Nat.le_add_right offset _).trans hnext.ge)
    · rw [Cursor.reads_cons, deliveries_cons, hcount]
      rfl
  | @call db offset room entries states calls m now hanswer _ hrest ih =>
    obtain ⟨hnext, hcount, -⟩ := ScanCall.spec hdb (hstays db (by simp)) hanswer
    obtain ⟨c, cs, hseen, hstart, hchain, hend, hreads⟩ :=
      ih hdb fun t ht => hstays t (List.mem_cons_of_mem _ ht)
    refine ⟨_, c :: cs, congrArg (List.cons _) hseen, rfl, ⟨?_, hstart, hchain⟩, hend, ?_⟩
    · exact (Nat.le_add_right offset _).trans hnext.ge
    · rw [Cursor.reads_cons, deliveries_cons, hcount, hreads]
  | @change db offset states calls env req _ hok _ ih =>
    exact ih (hdb.step env hok) fun t ht => hstays t (List.mem_cons_of_mem _ ht)

/-- An entry that stays is delivered once, once more for every time it is moved forward across the
offset of the next call, and once less for every time it is moved back. -/
theorem Scan.deliveries_eq_one_iff (h : Scan dir db 0 states calls) (hdb : db.TreeInv)
    (hstays : Stays dir n i states) : deliveries n i calls = 1 ↔
      Cursor.skips (calls.map (ScanCall.seenBy dir n)) =
        Cursor.returns (calls.map (ScanCall.seenBy dir n)) := by
  obtain ⟨c, cs, hseen, hstart, hchain, hend, hreads⟩ := h.seen hdb hstays
  have hahead : c.start ≤ c.pos := by
    rw [hstart]
    exact Nat.zero_le _
  rw [hseen, ← hreads]
  exact Cursor.reads_eq_one_iff hchain hend hahead

/-- **A scan delivers every entry that stays exactly once, exactly if what happens between its
calls moves every such entry across the offset as often backward as forward.** -/
theorem scan_complete_iff (hdb : Reachable db) (h : Scan dir db 0 states calls) :
    ScanComplete dir states calls ↔ Balanced dir states calls :=
  forall₂_congr fun _ _ => imp_congr_right fun hstays => h.deliveries_eq_one_iff hdb.treeInv hstays

/-- A scan of a directory in which no name appears or goes is complete. -/
theorem Scan.complete_of_still {names : List String} (h : Scan dir db 0 states calls)
    (hdb : Reachable db) (hstill : ∀ c ∈ calls, c.db.namesIn dir = names) :
    ScanComplete dir states calls := by
  intro n i hstays
  refine (h.deliveries_eq_one_iff hdb.treeInv hstays).2 (Cursor.skips_eq_returns_of_still
    (p := 2 + names.countP (· < n)) fun c hc => ?_)
  obtain ⟨call, hcall, rfl⟩ := List.mem_map.1 hc
  show 2 + call.db.namesBefore dir n = _
  rw [← Db.countP_namesIn, hstill call hcall]

/-- A container with two empty files. -/
def Db.twoFiles : Db :=
  (step (.quiet .plain 0) (.create rootIno nameB 0o644) .oneFile).2

/-- What the first call delivers of them when its buffer has room for three entries. -/
def firstEntries : List DirEntry :=
  [⟨1, 1, .directory, "."⟩, ⟨1, 2, .directory, ".."⟩, ⟨2, 3, .regularFile, "a"⟩]

/-- The container after the first file is deleted. -/
def Db.secondFile : Db := (step (.quiet .plain 0) (.unlink rootIno nameA) .twoFiles).2

theorem reachable_twoFiles : Reachable .twoFiles :=
  reachable_oneFile.step _ reachable_oneFile.treeInv.root

/-- A scan of the two files in two calls, with the first one deleted between them. -/
theorem scan_twoFiles : Scan rootIno .twoFiles 0 [.twoFiles, .twoFiles, .secondFile]
    [⟨.twoFiles, 0, firstEntries⟩, ⟨.secondFile, 3, []⟩] := by
  have hleaf (i : Ino) (hi : Db.twoFiles.Names rootIno nameA i) : ¬ Db.twoFiles.IsDir i := by
    obtain ⟨n, hn, hi⟩ := hi
    obtain rfl : n = "a" := Option.some.inj (hn.symm.trans (OsStr.toStr_ofString _))
    have htwo : Db.twoFiles.dentries.lookup (rootIno, "a") = some 2 := by decide +kernel
    obtain rfl : i = 2 := Option.some.inj (hi.symm.trans htwo)
    intro hdir
    obtain ⟨r, hr, hkind⟩ := hdir
    have hfile : Db.twoFiles.core 2 = some (.file, 0) := by decide +kernel
    rw [Db.core, hr, Option.map_some, hkind] at hfile
    cases hfile
  have hfirst : (step (.quiet .plain 0) (.readdir rootIno 0 3) .twoFiles).1 =
      .ok (.directory firstEntries) := by
    decide +kernel
  have hlast : (step (.quiet .plain 0) (.readdir rootIno 3 3) .secondFile).1 =
      .ok (.directory []) := by
    decide +kernel
  refine .call .plain 0 hfirst (by decide) ?_
  refine .change (.quiet .plain 0) (.unlink rootIno nameA) (by decide)
    ⟨reachable_twoFiles.treeInv.root, hleaf⟩ ?_
  exact .done .plain 0 (by decide) hlast

/-- The second file stays and is not delivered. -/
theorem not_scanComplete_twoFiles : ¬ ScanComplete rootIno [.twoFiles, .twoFiles, .secondFile]
    [⟨.twoFiles, 0, firstEntries⟩, ⟨.secondFile, 3, []⟩] := by
  intro h
  have hstays : Stays rootIno "b" 3 [.twoFiles, .twoFiles, .secondFile] := by
    unfold Stays
    decide +kernel
  have hnone : deliveries "b" 3 [⟨.twoFiles, 0, firstEntries⟩, ⟨.secondFile, 3, []⟩] = 0 := by
    decide +kernel
  have hone := h "b" 3 hstays
  rw [hnone] at hone
  cases hone

/-- So the deletion has moved it across the offset. -/
theorem scan_complete_iff_twoFiles : ¬ Balanced rootIno [.twoFiles, .twoFiles, .secondFile]
    [⟨.twoFiles, 0, firstEntries⟩, ⟨.secondFile, 3, []⟩] :=
  fun h => not_scanComplete_twoFiles ((scan_complete_iff reachable_twoFiles scan_twoFiles).2 h)

/-- A file that stays is skipped because a file before it is deleted. -/
theorem scan_skips : ¬ ∀ dir db states calls, Reachable db → Scan dir db 0 states calls →
    ScanComplete dir states calls :=
  fun h => not_scanComplete_twoFiles (h _ _ _ _ reachable_twoFiles scan_twoFiles)

end CofferFS
