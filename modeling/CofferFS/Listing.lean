import CofferFS.Readdir

/-!
# Listings with failing rows

`readdir` takes the rows of its query from an iterator that drops the failing ones, so a failure
makes the listing shorter and nothing tells. `not_partial_iff` says when that cannot be seen: the
lookup before the rows fails and the reply is an error, or every row up to the end of the part that
is asked for is fetched.
-/

namespace CofferFS

open Script

variable {fs : ℕ → Option SqlError} {db : Db} {dir : Ino} {offset room : ℕ}

/-! ## What the iterator yields -/

/-- The rows that `iter.flatten()` yields when the first of them is statement `n`. -/
def keptRows (fs : ℕ → Option SqlError) : ℕ → List Db.ListedName → List Db.ListedName
  | _, [] => []
  | n, r :: rest =>
    match fs n with
    | none => r :: keptRows fs (n + 1) rest
    | some .conversion => keptRows fs (n + 1) rest
    | some _ => []

theorem run_fetchRows (rows : List Db.ListedName) (n : ℕ) :
    ∃ m, (fetchRows rows).run fs n db = ⟨.ok (keptRows fs n rows), m, db⟩ := by
  induction rows generalizing n with
  | nil => exact ⟨n, rfl⟩
  | cons r rest ih =>
    have hquery {e : Except SqlError Db.ListedName}
        (h : (query fun _ => .ok r : Sql Db.ListedName).run fs n db = ⟨e, n + 1, db⟩) :
        (attempt (query fun _ => .ok r : Sql Db.ListedName) : Call _).run fs n db =
          ⟨.ok e, n + 1, db⟩ := by
      rw [run_attempt, h]
    obtain ⟨m, hm⟩ := ih (n + 1)
    cases hfs : fs n with
    | none =>
      refine ⟨m, ?_⟩
      rw [fetchRows, run_bind_of_ok (hquery (run_query_of_ok hfs rfl))]
      show (fetchRows rest >>= _).run fs (n + 1) db = _
      rw [run_bind_of_ok hm, keptRows, hfs]
      rfl
    | some e =>
      rw [fetchRows, run_bind_of_ok (hquery (run_query_of_failure hfs)), keptRows, hfs]
      cases e with
      | conversion => exact ⟨m, hm⟩
      | _ => exact ⟨n + 1, rfl⟩

section Kept

variable {rows : List Db.ListedName} {n k : ℕ}

theorem keptRows_sublist : (keptRows fs n rows).Sublist rows := by
  induction rows generalizing n with
  | nil => exact List.Sublist.refl _
  | cons r rest ih =>
    rw [keptRows]
    split
    · exact ih.cons_cons r
    · exact ih.cons r
    · exact List.nil_sublist _

/-- Up to the first row that fails nothing is missing. -/
theorem keptRows_append {pre : List Db.ListedName} (h : ∀ j < pre.length, fs (n + j) = none) :
    keptRows fs n (pre ++ rows) = pre ++ keptRows fs (n + pre.length) rows := by
  induction pre generalizing n with
  | nil => rfl
  | cons r pre ih =>
    have hhead : fs n = none := h 0 (Nat.succ_pos _)
    have htail : ∀ j < pre.length, fs (n + 1 + j) = none := by
      intro j hj
      rw [Nat.add_assoc, Nat.add_comm 1 j]
      exact h (j + 1) (Nat.succ_lt_succ hj)
    rw [List.cons_append, keptRows, hhead]
    show r :: keptRows fs (n + 1) (pre ++ rows) = _
    rw [ih htail, List.length_cons, Nat.add_assoc, Nat.add_comm 1]
    rfl

/-- The rows before a place at which none has failed. -/
theorem getElem?_keptRows (h : ∀ j ≤ k, j < rows.length → fs (n + j) = none) :
    (keptRows fs n rows)[k]? = rows[k]? := by
  by_cases hk : k < rows.length
  · have hpre : ∀ j < (rows.take (k + 1)).length, fs (n + j) = none := by
      intro j hj
      rw [List.length_take] at hj
      exact h j (by omega) (by omega)
    have hlen : k < (rows.take (k + 1)).length := by
      rw [List.length_take]
      omega
    conv_lhs => rw [← List.take_append_drop (k + 1) rows]
    rw [keptRows_append hpre, List.getElem?_append_left hlen, List.getElem?_take_of_lt
      (Nat.lt_succ_self k)]
  · rw [List.getElem?_eq_none (not_lt.1 hk), List.getElem?_eq_none]
    exact keptRows_sublist.length_le.trans (not_lt.1 hk)

/-- From the first row that fails on, every row stands before its place or is missing. -/
theorem keptRows_drop_sublist (hfail : fs (n + k) ≠ none) {i : ℕ} (hki : k ≤ i) :
    ((keptRows fs n rows).drop i).Sublist (rows.drop (i + 1)) := by
  induction rows generalizing n k i with
  | nil => simp [keptRows]
  | cons r rest ih =>
    cases k with
    | zero =>
      have hsub : (keptRows fs n (r :: rest)).Sublist rest := by
        rw [keptRows]
        split
        · next h => exact (hfail h).elim
        · exact keptRows_sublist
        · exact List.nil_sublist _
      rw [List.drop_succ_cons]
      exact hsub.drop i
    | succ k =>
      obtain ⟨i, rfl⟩ := Nat.exists_eq_add_of_le' (Nat.one_le_iff_ne_zero.2 (by omega : i ≠ 0))
      have hrest : fs (n + 1 + k) ≠ none := by
        rw [Nat.add_assoc, Nat.add_comm 1 k]
        exact hfail
      rw [keptRows]
      split
      · exact ih hrest (by omega)
      · rw [List.drop_succ_cons]
        exact (List.drop_sublist_drop_left _ (Nat.le_succ i)).trans (ih hrest (by omega))
      · rw [List.drop_nil]
        exact List.nil_sublist _

end Kept

/-! ## The part that is asked for -/

theorem getElem?_addEntries {entries : List (Ino × FileType × String)} {i : ℕ} :
    (addEntries entries offset room)[i]? =
      if i < room then (entries[offset + i]?).map fun e =>
        ⟨e.1, offset + i + 1, e.2.1, e.2.2⟩ else none := by
  by_cases hi : i < room
  · simp [addEntries, hi, List.getElem?_take_of_lt, Option.map_map, Function.comp_def]
  · simp [addEntries, hi]

/-- Two listings show the same part if they agree on its places. -/
theorem addEntries_eq_iff {entries entries' : List (Ino × FileType × String)} :
    addEntries entries offset room = addEntries entries' offset room ↔
      ∀ i < room, entries[offset + i]? = entries'[offset + i]? := by
  rw [List.ext_getElem?_iff]
  refine forall_congr' fun i => ?_
  rw [getElem?_addEntries, getElem?_addEntries]
  by_cases hi : i < room
  · have hinj : Function.Injective fun e : Ino × FileType × String =>
        (⟨e.1, offset + i + 1, e.2.1, e.2.2⟩ : DirEntry) := by
      intro e e' h
      injection h with h₁ _ h₂ h₃
      exact Prod.ext h₁ (Prod.ext h₂ h₃)
    simp [hi, (Option.map_injective hinj).eq_iff]
  · simp [hi]

theorem getElem?_dirEntries {parent : Ino} {rows : List Db.ListedName} {k : ℕ} :
    (dirEntries dir parent rows)[k + 2]? =
      rows[k]?.map fun r => (r.ino, fileTypeOf r.kind, r.name) := by
  simp [dirEntries]

section Window

variable {parent : Ino} {rows : List Db.ListedName} {n : ℕ}

/-- What is shown is complete as long as no row before its end fails. -/
theorem addEntries_keptRows (h : offset < rows.length + 2 → 0 < room →
      ∀ k < rows.length, k + 2 < offset + room → fs (n + k) = none) :
    addEntries (dirEntries dir parent (keptRows fs n rows)) offset room =
      addEntries (dirEntries dir parent rows) offset room := by
  rw [addEntries_eq_iff]
  intro i hi
  rcases hplace : offset + i with _ | _ | k
  · rfl
  · rfl
  · rw [getElem?_dirEntries, getElem?_dirEntries]
    by_cases hk : k < rows.length
    · rw [getElem?_keptRows fun j hj hlen => h (by omega) (by omega) j hlen (by omega)]
    · rw [List.getElem?_eq_none (not_lt.1 hk),
        List.getElem?_eq_none (keptRows_sublist.length_le.trans (not_lt.1 hk))]

/-- A row that fails before the end of what is shown is missed, or one behind it is. -/
theorem addEntries_keptRows_ne (hsorted : (rows.map Db.ListedName.name).Pairwise (· < ·)) {k : ℕ}
    (hk : k < rows.length) (hend : k + 2 < offset + room) (hoffset : offset < rows.length + 2)
    (hroom : 0 < room) (hfail : fs (n + k) ≠ none) :
    addEntries (dirEntries dir parent (keptRows fs n rows)) offset room ≠
      addEntries (dirEntries dir parent rows) offset room := by
  intro h
  -- the first place that is shown and not before the row
  obtain ⟨j, hkj, hoj, hj, hjend⟩ : ∃ j, k ≤ j ∧ offset ≤ j + 2 ∧ j < rows.length ∧
      j + 2 < offset + room := by
    by_cases hle : offset ≤ k + 2
    · exact ⟨k, le_rfl, hle, hk, hend⟩
    · exact ⟨offset - 2, by omega, by omega, by omega, by omega⟩
  have hplace := addEntries_eq_iff.1 h (j + 2 - offset) (by omega)
  rw [Nat.add_sub_cancel' hoj, getElem?_dirEntries, getElem?_dirEntries,
    List.getElem?_eq_getElem hj] at hplace
  obtain ⟨r, hr, heq⟩ := Option.map_eq_some_iff.1 hplace
  have hname : r.name = rows[j].name := congrArg (fun e => e.2.2) heq
  have hmem : r ∈ rows.drop (j + 1) := by
    refine (keptRows_drop_sublist hfail hkj).subset (List.mem_of_getElem? (i := 0) ?_)
    rw [List.getElem?_drop, Nat.add_zero, hr]
  rw [List.pairwise_map, ← List.take_append_drop (j + 1) rows, List.pairwise_append] at hsorted
  have hhere : rows[j] ∈ rows.take (j + 1) := by
    rw [List.mem_take_iff_getElem]
    exact ⟨j, by omega, rfl⟩
  exact (hsorted.2.2 _ hhere _ hmem).ne' hname

end Window

/-! ## Partial listings -/

/-- The number of the first row's statement: the lookup of the parent, which the root is spared,
and the query come before it. -/
def firstRow (dir : Ino) : ℕ := if dir = rootIno then 1 else 2

/-- The reply is an error, or what the listing without failures shows. -/
def NotPartial (env : Env) (db : Db) (dir : Ino) (offset room : ℕ) : Prop :=
  (∃ e, (step env (.readdir dir offset room) db).1 = .error (.error e)) ∨
    (step env (.readdir dir offset room) db).1 =
      (step (.quiet env.mount env.now) (.readdir dir offset room) db).1

/-- If the rows are fetched at all and some of the listing is asked for, every row before the end
of that part is fetched. -/
def ShownRowsFetched (env : Env) (db : Db) (dir : Ino) (offset room : ℕ) : Prop :=
  (∀ n < firstRow dir, env.fails n = none) → offset < (db.listing dir).length + 2 → 0 < room →
    ∀ k < (db.listing dir).length, k + 2 < offset + room → env.fails (firstRow dir + k) = none

theorem exists_parentOf (hdb : db.TreeInv) (hdir : db.IsDir dir) (hroot : dir ≠ rootIno) :
    ∃ p, db.parentOf dir = .ok p := by
  obtain ⟨r, hr, -⟩ := hdir
  obtain ⟨k, hk⟩ := hdb.named dir (AList.mem_of_lookup_eq_some hr) hroot
  have hsome : (db.dentries.entries.find? fun e => e.2 = dir).isSome := by
    rw [List.find?_isSome]
    exact ⟨⟨k, dir⟩, AList.mem_entries_iff.2 hk, by simp⟩
  obtain ⟨e, he⟩ := Option.isSome_iff_exists.1 hsome
  exact ⟨e.1.1, by rw [Db.parentOf, he]⟩

/-- A lookup that finds what it looks for fails only if its statement does. -/
theorem run_orErrno_query {α : Type} (f : SqlError → Errno) {g : Db → Except SqlError α} {a : α}
    (hg : g db = .ok a) (n : ℕ) : (orErrno f (query g)).run fs n db =
      match fs n with
      | none => ⟨.ok a, n + 1, db⟩
      | some e => ⟨.error (.error (f e)), n + 1, db⟩ := by
  rw [orErrno, run_mapError]
  cases hfs : fs n with
  | none => rw [run_query_of_ok hfs hg]
  | some e => rw [run_query_of_failure hfs]

/-- The parent is found, or the reply is an error. -/
theorem run_parentIno (hdb : db.TreeInv) (hdir : db.IsDir dir) :
    ∃ p, ∀ fs, (parentIno dir).run fs 0 db = ⟨.ok p, firstRow dir - 1, db⟩ ∧
        (∀ n < firstRow dir - 1, fs n = none) ∨
      (∃ e n, (parentIno dir).run fs 0 db = ⟨.error (.error e), n, db⟩) ∧
        ¬ ∀ n < firstRow dir, fs n = none := by
  by_cases hroot : dir = rootIno
  · refine ⟨rootIno, fun fs => Or.inl ?_⟩
    simp only [parentIno, firstRow, hroot, ↓reduceIte]
    exact ⟨rfl, fun n hn => (Nat.not_lt_zero n hn).elim⟩
  · obtain ⟨p, hp⟩ := exists_parentOf hdb hdir hroot
    simp only [parentIno, firstRow, hroot, ↓reduceIte]
    refine ⟨p, fun fs => ?_⟩
    rw [run_orErrno_query (fun _ => .enoent) hp 0]
    cases hfs : fs 0 with
    | none =>
      refine Or.inl ⟨rfl, fun n hn => ?_⟩
      obtain rfl : n = 0 := by omega
      exact hfs
    | some e =>
      refine Or.inr ⟨⟨_, _, rfl⟩, fun h => ?_⟩
      rw [h 0 (by decide)] at hfs
      cases hfs

/-- A call whose lookups succeed answers with the rows that are kept, any other with an error. -/
theorem reply_readdir (hdb : db.TreeInv) (hdir : db.IsDir dir) :
    ∃ p, ∀ env, (step env (.readdir dir offset room) db).1 = .ok (.directory (addEntries
          (dirEntries dir p (keptRows env.fails (firstRow dir) (db.listing dir))) offset room)) ∧
        (∀ n < firstRow dir, env.fails n = none) ∨
      (∃ e, (step env (.readdir dir offset room) db).1 = .error (.error e)) ∧
        ¬ ∀ n < firstRow dir, env.fails n = none := by
  obtain ⟨p, hparent⟩ := run_parentIno hdb hdir
  have hlast : firstRow dir - 1 + 1 = firstRow dir := by
    unfold firstRow
    split_ifs <;> rfl
  refine ⟨p, fun env => ?_⟩
  show ((readdir dir offset room).run env.fails 0 db).val = _ ∧ _ ∨
    (∃ e, ((readdir dir offset room).run env.fails 0 db).val = _) ∧ _
  rcases hparent env.fails with ⟨hok, hbefore⟩ | ⟨⟨e, n, herror⟩, hfails⟩
  · have hquery := @run_orErrno_query env.fails db _ (fun _ => .eio)
      (fun db => .ok (db.listing dir)) _ rfl (firstRow dir - 1)
    rw [readdir, run_bind_of_ok hok, orEio]
    cases hfs : env.fails (firstRow dir - 1) with
    | none =>
      rw [hfs, hlast] at hquery
      obtain ⟨m, hrows⟩ := @run_fetchRows env.fails db (db.listing dir) (firstRow dir)
      rw [run_bind_of_ok hquery, run_bind_of_ok hrows]
      refine Or.inl ⟨rfl, fun n hn => ?_⟩
      rcases Nat.lt_or_eq_of_le (Nat.le_sub_one_of_lt hn) with hlt | rfl
      · exact hbefore n hlt
      · exact hfs
    | some e =>
      rw [hfs] at hquery
      rw [run_bind_of_error hquery]
      refine Or.inr ⟨⟨_, rfl⟩, fun h => ?_⟩
      rw [h _ (by omega)] at hfs
      cases hfs
  · rw [readdir, run_bind_of_error herror]
    exact Or.inr ⟨⟨e, rfl⟩, hfails⟩

theorem keptRows_noFailure {rows : List Db.ListedName} {n : ℕ} :
    keptRows noFailure n rows = rows := by
  have h := @keptRows_append noFailure [] n rows fun _ _ => rfl
  rwa [List.append_nil, keptRows, List.append_nil] at h

/-- **A listing is not partial exactly if the rows that are shown are fetched.** -/
theorem not_partial_iff (hdb : Reachable db) (hdir : db.IsDir dir) (env : Env) (offset room : ℕ) :
    NotPartial env db dir offset room ↔ ShownRowsFetched env db dir offset room := by
  obtain ⟨p, hreply⟩ := @reply_readdir db dir offset room hdb.treeInv hdir
  have hquiet : (step (.quiet env.mount env.now) (.readdir dir offset room) db).1 =
      .ok (.directory (addEntries (dirEntries dir p (db.listing dir)) offset room)) := by
    rcases hreply (.quiet env.mount env.now) with ⟨h, -⟩ | ⟨-, hfails⟩
    · rw [h]
      exact congrArg (fun rows => Except.ok (Answer.directory (addEntries (dirEntries dir p rows)
        offset room))) keptRows_noFailure
    · exact (hfails fun _ _ => rfl).elim
  rw [NotPartial, hquiet]
  rcases hreply env with ⟨h, hlookups⟩ | ⟨herror, hfails⟩
  · rw [h]
    simp only [reduceCtorEq, exists_false, false_or, Except.ok.injEq, Answer.directory.injEq]
    constructor
    · intro heq _ hoffset hroom k hk hend
      by_contra hfail
      exact addEntries_keptRows_ne (Db.pairwise_listing hdb.treeInv.child) hk hend hoffset hroom hfail
        heq
    · intro hfetched
      exact addEntries_keptRows (hfetched hlookups)
  · exact iff_of_true (Or.inl herror) fun h => (hfails h).elim

/-- An environment in which the first row of the root's listing cannot be converted. -/
def Env.firstRowFails : Env := ⟨.plain, 0, fun n => if n = 1 then some .conversion else none⟩

theorem not_partial_oneFile : NotPartial .firstRowFails .oneFile rootIno 0 2 ↔
    ShownRowsFetched .firstRowFails .oneFile rootIno 0 2 :=
  not_partial_iff reachable_oneFile reachable_oneFile.treeInv.root .firstRowFails 0 2

/-- The listing of a directory with one file is answered as that of an empty one. -/
theorem listing_cut_short : Reachable .oneFile ∧ Db.oneFile.IsDir rootIno ∧
    (step .firstRowFails (.readdir rootIno 0 3) .oneFile).1 =
      .ok (.directory [⟨1, 1, .directory, "."⟩, ⟨1, 2, .directory, ".."⟩]) ∧
    ¬ NotPartial .firstRowFails .oneFile rootIno 0 3 := by
  have hshort : (step .firstRowFails (.readdir rootIno 0 3) .oneFile).1 =
      .ok (.directory [⟨1, 1, .directory, "."⟩, ⟨1, 2, .directory, ".."⟩]) := by
    decide +kernel
  have hfull : (step (.quiet .plain 0) (.readdir rootIno 0 3) .oneFile).1 = .ok (.directory
      [⟨1, 1, .directory, "."⟩, ⟨1, 2, .directory, ".."⟩, ⟨2, 3, .regularFile, "a"⟩]) := by
    decide +kernel
  refine ⟨reachable_oneFile, reachable_oneFile.treeInv.root, hshort, ?_⟩
  rintro (⟨e, he⟩ | heq)
  · rw [hshort] at he
    cases he
  · rw [hshort, show (step (.quiet (Env.firstRowFails).mount (Env.firstRowFails).now) _ _).1 = _
      from hfull] at heq
    exact absurd heq (by decide)

end CofferFS
