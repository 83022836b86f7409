import CofferFS.Lib.Copy
import CofferFS.Durability

/-!
# Backups of a mounted container

`coffer backup` copies a container in steps. Through the daemon of an exclusive mount the copy is
made by the connection that serves the requests, with its mutex held for one step at a time
(`ipc::backup`); SQLite then updates the copy with what a request changes in pages that have been
taken. A direct backup has a connection of its own, in a read transaction (`cmd_backup`).

What SQLite does in a step is a parameter, a `Copier` that is `Documented`, and its files stay
abstract: `tables` is what is read from the pages of one. Either way the copy is the container
between two requests (`backup_atomic`), and how many steps copy pages does not depend on the
requests (`backup_ends`).
-/

namespace CofferFS.Backup

/-- `PAGES_PER_STEP` -/
def pagesPerStep : ℕ := 1024

/-- Why there is no backup. -/
inductive BackupError
  /-- `backup abandoned` -/
  | abandoned
  /-- `backup failed` -/
  | failed
  deriving DecidableEq

/-- A backup on its way. `snapshot` is what the read transaction of a direct backup sees, and
`outcome` the copy or the error that the loop has ended with. -/
structure State (β σ : Type) where
  live : List β
  snapshot : Option (List β)
  pageSize : ℕ
  copy : σ
  reports : List (ℕ × ℕ) := []
  outcome : Option (Except BackupError σ) := none

variable {β σ : Type} (T : Copier β σ)

namespace State

variable (s : State β σ)

/-- The file that is copied. -/
def source : List β := s.snapshot.getD s.live

/-- `(done, total)`, in bytes, after a step. -/
def progress (copy : σ) : ℕ × ℕ :=
  let total := (T.pagecount copy).toNat
  let done := total - min (T.remaining copy).toNat total
  (done * s.pageSize, total * s.pageSize)

/-- What the client or the progress bar is told after a step. -/
def told (r : CopyResult) (copy : σ) : List (ℕ × ℕ) :=
  match s.snapshot, r with
  | none, .ok => [s.progress T copy]
  | none, .done => [((s.progress T copy).2, (s.progress T copy).2)]
  | none, .busy => []
  | some _, .ok | some _, .busy | some _, .done => [s.progress T copy]
  | _, .failed => []

/-- The state after a step. -/
def after (r : CopyResult) (copy : σ) : State β σ :=
  { s with copy, reports := s.reports ++ s.told T r copy }

/-- The copy when the file has changed: the connection of a direct backup is not the one that
changes it. -/
def Mirrored (live : List β) (copy : σ) : Prop :=
  match s.snapshot, s.outcome with
  | none, none => T.update s.live live s.copy copy
  | _, _ => copy = s.copy

/-- A backup that begins. -/
def start (live : List β) (snapshot : Option (List β)) (pageSize : ℕ) : State β σ where
  live := live
  snapshot := snapshot
  pageSize := pageSize
  copy := T.start

end State

/-- What one sees of a step. -/
inductive Label (β : Type)
  | request (env : Env) (req : Request) (live : List β)
  | restart
  | copied
  | waited
  | ended

/-- A request is served, or the loop goes round once. -/
inductive Step (tables : List β → Db) : State β σ → Label β → State β σ → Prop
  /-- The FUSE thread serves a request. -/
  | request {s : State β σ} {env : Env} {req : Request} {live : List β} {copy : σ}
      (h : tables live = (step env req (tables s.live)).2) (hcopy : s.Mirrored T live copy) :
      Step tables s (.request env req live) { s with live, copy }
  /-- SQLite begins anew, as it does when somebody else has changed the file. -/
  | restart {s : State β σ} {copy : σ} (h : T.restart s.copy copy) :
      Step tables s .restart { s with copy }
  /-- `SQLITE_BUSY`, `SQLITE_LOCKED` -/
  | busy {s : State β σ} {copy : σ} (hrun : s.outcome = none)
      (hstep : T.step pagesPerStep s.source s.copy .busy copy) :
      Step tables s .waited (s.after T .busy copy)
  /-- `SQLITE_OK` -/
  | ok {s : State β σ} {copy : σ} (hrun : s.outcome = none)
      (hstep : T.step pagesPerStep s.source s.copy .ok copy) :
      Step tables s .copied (s.after T .ok copy)
  /-- `SQLITE_OK`, and the client of the daemon has gone. -/
  | abandoned {s : State β σ} {copy : σ} (hrun : s.outcome = none) (hdaemon : s.snapshot = none)
      (hstep : T.step pagesPerStep s.source s.copy .ok copy) :
      Step tables s .ended { s with copy, outcome := some (.error .abandoned) }
  /-- `SQLITE_DONE` -/
  | done {s : State β σ} {copy : σ} (hrun : s.outcome = none)
      (hstep : T.step pagesPerStep s.source s.copy .done copy) :
      Step tables s .ended { s.after T .done copy with outcome := some (.ok copy) }
  /-- `SQLITE_DONE`, but `sqlite3_backup_finish` or the change of the permissions fails. -/
  | spoilt {s : State β σ} {copy : σ} (hrun : s.outcome = none)
      (hstep : T.step pagesPerStep s.source s.copy .done copy) :
      Step tables s .ended { s.after T .done copy with outcome := some (.error .failed) }
  /-- Any other result. -/
  | failed {s : State β σ} {copy : σ} (hrun : s.outcome = none)
      (hstep : T.step pagesPerStep s.source s.copy .failed copy) :
      Step tables s .ended { s with copy, outcome := some (.error .failed) }

/-- What has happened since the start, in its order. -/
inductive Run (tables : List β → Db) : State β σ → List (Label β) → State β σ → Prop
  | refl {s : State β σ} : Run tables s [] s
  | tail {s t u : State β σ} {ls : List (Label β)} {l : Label β} (hfirst : Run tables s ls t)
      (hlast : Step T tables t l u) : Run tables s (ls ++ [l]) u

/-- The requests that were served. -/
def requests (ls : List (Label β)) : List (Env × Request) :=
  ls.filterMap fun
    | .request env req _ => some (env, req)
    | _ => none

/-- How often a step has copied pages, and there were more. -/
def copies (ls : List (Label β)) : ℕ :=
  ls.countP fun
    | .copied => true
    | _ => false

/-- The pages of the copy are what the read transaction saw, or what the requests had made of the
container when the loop ended. -/
def Copied (tables : List β → Db) (live : List β) (snapshot : Option (List β))
    (ls : List (Label β)) (copy : σ) : Prop :=
  ∃ file, (∀ i, T.page copy i = file[i]?) ∧
    match snapshot with
    | some seen => file = seen
    | none => ∃ ls₁ ls₂, ls = ls₁ ++ .ended :: ls₂ ∧
      tables file = Durability.stateAfter (tables live) (requests ls₁)

/-! ## What is copied -/

/-- The source is as the requests have made it, or as it was, and the copy has it so far. -/
structure Inv (tables : List β → Db) (live : List β) (snapshot : Option (List β))
    (ls : List (Label β)) (t : State β σ) : Prop where
  snapshot_eq : t.snapshot = snapshot
  tables_live : tables t.live = Durability.stateAfter (tables live) (requests ls)
  current : t.outcome = none → ¬ T.broken t.copy → T.Current t.copy t.source
  outcome : ∀ copy, t.outcome = some (.ok copy) → Copied T tables live snapshot ls copy

section Inv

variable {T} {tables : List β → Db} {s t : State β σ} {ls : List (Label β)} {l : Label β}
  {live : List β} {snapshot : Option (List β)} {copy : σ} {env : Env} {req : Request}
  {pageSize : ℕ}

theorem requests_concat : requests (ls ++ [l]) = requests ls ++ requests [l] :=
  List.filterMap_append

theorem Copied.concat (h : Copied T tables live snapshot ls copy) (l : Label β) :
    Copied T tables live snapshot (ls ++ [l]) copy := by
  obtain ⟨file, hpages, hfile⟩ := h
  refine ⟨file, hpages, ?_⟩
  cases snapshot with
  | some seen => exact hfile
  | none =>
    obtain ⟨ls₁, ls₂, rfl, htables⟩ := hfile
    exact ⟨ls₁, ls₂ ++ [l], by rw [List.append_assoc]; rfl, htables⟩

/-- What is copied when the loop ends now. -/
theorem Inv.copied (h : Inv T tables live snapshot ls t)
    (hpages : ∀ i, T.page copy i = t.source[i]?) :
    Copied T tables live snapshot (ls ++ [.ended]) copy := by
  refine ⟨t.source, hpages, ?_⟩
  rw [State.source, h.snapshot_eq]
  cases snapshot with
  | some seen => rfl
  | none => exact ⟨ls, [], rfl, h.tables_live⟩

theorem inv_start (hT : T.Documented) (tables : List β → Db) (live : List β)
    (snapshot : Option (List β)) (pageSize : ℕ) :
    Inv T tables live snapshot [] (.start T live snapshot pageSize) where
  snapshot_eq := rfl
  tables_live := rfl
  current _ _ := hT.current_start _
  outcome _ h := nomatch h

/-- A step of the loop leaves the container as it is. -/
theorem Inv.loop (h : Inv T tables live snapshot ls t) (hl : requests [l] = [])
    {reports : List (ℕ × ℕ)} {outcome : Option (Except BackupError σ)}
    (hcurrent : outcome = none → ¬ T.broken copy → T.Current copy t.source)
    (houtcome : ∀ copy, outcome = some (.ok copy) →
      Copied T tables live snapshot (ls ++ [l]) copy) :
    Inv T tables live snapshot (ls ++ [l]) { t with copy, reports, outcome } where
  snapshot_eq := h.snapshot_eq
  tables_live := by
    rw [requests_concat, hl, List.append_nil]
    exact h.tables_live
  current := hcurrent
  outcome := houtcome

/-- A request changes the source and the copy, or neither. -/
theorem State.Mirrored.update_or_same {live' : List β} (h : s.Mirrored T live' copy)
    (hrun : s.outcome = none) :
    s.snapshot = none ∧ T.update s.live live' s.copy copy ∨
      ∃ seen, s.snapshot = some seen ∧ copy = s.copy := by
  rw [State.Mirrored, hrun] at h
  cases hsnapshot : s.snapshot with
  | none =>
    rw [hsnapshot] at h
    exact Or.inl ⟨rfl, h⟩
  | some seen =>
    rw [hsnapshot] at h
    exact Or.inr ⟨seen, rfl, h⟩

theorem Inv.mirrored (hT : T.Documented) (h : Inv T tables live snapshot ls s) {live' : List β}
    (hcopy : s.Mirrored T live' copy) (hrun : s.outcome = none) (hbroken : ¬ T.broken copy) :
    T.Current copy (s.snapshot.getD live') := by
  have hcurrent := h.current hrun
  rw [State.source] at hcurrent
  rcases hcopy.update_or_same hrun with ⟨hnone, hupdate⟩ | ⟨seen, hsome, rfl⟩
  · rw [hnone] at hcurrent ⊢
    exact hT.current_update hupdate hbroken (hcurrent (hT.update hupdate hbroken).1)
  · rw [hsome] at hcurrent ⊢
    exact hcurrent hbroken

theorem Inv.step (hT : T.Documented) (h : Inv T tables live snapshot ls s)
    (hstep : Step T tables s l t) : Inv T tables live snapshot (ls ++ [l]) t := by
  have houtcome (copy : σ) (hcopy : s.outcome = some (.ok copy)) :
      Copied T tables live snapshot (ls ++ [l]) copy := (h.outcome copy hcopy).concat l
  -- a step that does not fail comes after no fatal error
  have hsound {r : CopyResult} {copy : σ} (hr : r ≠ .failed)
      (hcopy : T.step pagesPerStep s.source s.copy r copy) : ¬ T.broken s.copy :=
    fun hbroken => hr (hT.broken hbroken hcopy)
  cases hstep with
  | @request env req live' copy htables hcopy =>
    refine ⟨h.snapshot_eq, ?_, fun hrun hbroken => h.mirrored hT hcopy hrun hbroken, houtcome⟩
    change tables live' = _
    rw [htables, h.tables_live, requests_concat, Durability.stateAfter, Durability.stateAfter,
      List.foldl_append]
    rfl
  | restart hcopy => exact h.loop rfl (fun _ _ => hT.current_restart hcopy _) houtcome
  | busy hrun hcopy =>
    exact h.loop rfl (fun _ _ => hT.current_busy hcopy
      (h.current hrun (hsound (by decide) hcopy))) houtcome
  | ok hrun hcopy =>
    exact h.loop rfl (fun _ _ => hT.current_ok hcopy
      (h.current hrun (hsound (by decide) hcopy))) houtcome
  | done hrun hcopy =>
    have hpages := hT.page_done hcopy (h.current hrun (hsound (by decide) hcopy))
    refine h.loop rfl (fun hnone => nomatch hnone) fun copy' hcopy' => ?_
    cases hcopy'
    exact h.copied hpages
  | abandoned | spoilt | failed =>
    exact h.loop rfl (fun hnone => nomatch hnone) fun copy' hcopy' => nomatch hcopy'

theorem Run.inv (hT : T.Documented) (h : Run T tables (.start T live snapshot pageSize) ls t) :
    Inv T tables live snapshot ls t := by
  induction h with
  | refl => exact inv_start hT tables live snapshot pageSize
  | tail _ hlast ih => exact ih.step hT hlast

/-- **A backup that succeeds is the container between two requests, whatever is served while it
runs: through the daemon as it is when the last pages are copied, directly as it was when the
backup began.** -/
theorem backup_atomic (hT : T.Documented)
    (h : Run T tables (.start T live snapshot pageSize) ls t) (hok : t.outcome = some (.ok copy)) :
    Copied T tables live snapshot ls copy :=
  (h.inv hT).outcome copy hok

/-! ## How long it takes -/

theorem copies_concat : copies (ls ++ [l]) = copies ls + copies [l] := List.countP_append

/-- The steps so far have taken as many pages as they may. -/
structure Ahead (T : Copier β σ) (N : ℕ) (ls : List (Label β)) (t : State β σ) : Prop where
  copied : t.outcome = none → ¬ T.broken t.copy → copies ls * pagesPerStep ≤ T.copied t.copy
  bound : copies ls * pagesPerStep ≤ N
  size : t.source.length ≤ N

/-- A step that does not count. -/
theorem Ahead.idle {N : ℕ} (h : Ahead T N ls s) (hl : copies [l] = 0)
    (hcopied : t.outcome = none → ¬ T.broken t.copy →
      s.outcome = none ∧ ¬ T.broken s.copy ∧ T.copied t.copy = T.copied s.copy)
    (hsize : t.source.length ≤ N) : Ahead T N (ls ++ [l]) t := by
  have hcopies : copies (ls ++ [l]) = copies ls := by rw [copies_concat, hl, Nat.add_zero]
  refine ⟨fun hrun hbroken => ?_, hcopies ▸ h.bound, hsize⟩
  obtain ⟨hrun', hbroken', hcopied⟩ := hcopied hrun hbroken
  rw [hcopies, hcopied]
  exact h.copied hrun' hbroken'

theorem Ahead.step {N : ℕ} (hT : T.Documented) (h : Ahead T N ls s)
    (hstep : Step T tables s l t) (hrestart : l ≠ .restart)
    (hlive : ∀ env req live', l = .request env req live' → live'.length ≤ N) :
    Ahead T N (ls ++ [l]) t := by
  cases hstep with
  | @request env req live' copy htables hcopy =>
    refine h.idle rfl (fun hrun hbroken => ?_) ?_
    · have hrun : s.outcome = none := hrun
      have hbroken : ¬ T.broken copy := hbroken
      rcases hcopy.update_or_same hrun with ⟨-, hupdate⟩ | ⟨seen, -, rfl⟩
      · obtain ⟨hbroken', hcopied, -⟩ := hT.update hupdate hbroken
        exact ⟨hrun, hbroken', hcopied⟩
      · exact ⟨hrun, hbroken, rfl⟩
    · have hsize := h.size
      rw [State.source] at hsize
      change (s.snapshot.getD live').length ≤ N
      cases hsnapshot : s.snapshot with
      | none => exact hlive env req live' rfl
      | some seen =>
        rw [hsnapshot] at hsize
        exact hsize
  | restart => exact absurd rfl hrestart
  | busy hrun hcopy =>
    refine h.idle rfl (fun _ _ => ⟨hrun, fun hbroken => ?_, (hT.busy hcopy).1⟩) h.size
    cases hT.broken hbroken hcopy
  | @ok copy hrun hcopy =>
    obtain ⟨hcopied, hmore, -⟩ := hT.ok hcopy
    have hbroken : ¬ T.broken s.copy := fun hbroken => nomatch hT.broken hbroken hcopy
    have hcopies : copies (ls ++ [.copied]) = copies ls + 1 := copies_concat
    have hnext : copies (ls ++ [.copied]) * pagesPerStep ≤ T.copied copy := by
      rw [hcopies, hcopied, Nat.add_mul, Nat.one_mul]
      exact Nat.add_le_add_right (h.copied hrun hbroken) _
    exact ⟨fun _ _ => hnext, hnext.trans (hmore.le.trans h.size), h.size⟩
  | abandoned | done | spoilt | failed => exact h.idle rfl (fun hnone => nomatch hnone) h.size

/-- **Requests do not hold a backup up: as long as SQLite does not begin anew, no more steps copy
pages before the last one than the container has had stretches of 1024 pages.** -/
theorem backup_ends {N : ℕ} (hT : T.Documented)
    (h : Run T tables (.start T live snapshot pageSize) ls t)
    (hrestart : ∀ l ∈ ls, l ≠ .restart) (hN : (snapshot.getD live).length ≤ N)
    (hlive : ∀ env req live', .request env req live' ∈ ls → live'.length ≤ N) :
    copies ls ≤ N / pagesPerStep := by
  suffices hahead : Ahead T N ls t from (Nat.le_div_iff_mul_le (by decide)).2 hahead.bound
  induction h with
  | refl =>
    refine ⟨fun _ _ => ?_, (Nat.zero_mul pagesPerStep).le.trans (Nat.zero_le _), hN⟩
    exact (Nat.zero_mul pagesPerStep).le.trans (Nat.zero_le _)
  | tail _ hlast ih =>
    refine (ih (fun l hl => hrestart l (List.mem_append_left _ hl))
      fun env req live' hl => hlive env req live' (List.mem_append_left _ hl)).step hT hlast
      (hrestart _ (List.mem_append_right _ (List.mem_singleton.2 rfl))) fun env req live' hl => ?_
    exact hlive env req live' (List.mem_append_right _ (List.mem_singleton.2 hl.symm))

end Inv

/-- A file of one page, before and after a write. -/
def onePage (file : List ℕ) : Db := if file = [0] then .oneFile else .oneByte

/-- A byte is written, and then the page is copied. -/
def writeThenCopy : List (Label ℕ) :=
  [.request (.quiet .plain 0) (.write 2 0 [1] false) [1], .ended]

/-- The copy of the page. -/
def onePageCopy : Copy ℕ := ((Copy.copier ℕ).start.mirror [0] [1]).finish [1]

theorem run_writeThenCopy : ∃ t,
    Run (Copy.copier ℕ) onePage (.start (Copy.copier ℕ) [0] none 4096) writeThenCopy t ∧
      t.outcome = some (.ok onePageCopy) := by
  have hwrite : Step (Copy.copier ℕ) onePage (.start (Copy.copier ℕ) [0] none 4096)
      (.request (.quiet .plain 0) (.write 2 0 [1] false) [1]) _ := .request rfl rfl
  have hdone : (Copy.copier ℕ).step pagesPerStep [1] ((Copy.copier ℕ).start.mirror [0] [1]) .done
      onePageCopy := Copy.step_done (by decide)
  exact ⟨_, .tail (.tail .refl hwrite) (.done rfl hdone), rfl⟩

theorem backup_atomic_onePage :
    Copied (Copy.copier ℕ) onePage [0] none writeThenCopy onePageCopy := by
  obtain ⟨t, hrun, hok⟩ := run_writeThenCopy
  exact backup_atomic (Copy.documented_copier ℕ) hrun hok

theorem backup_ends_onePage : copies writeThenCopy ≤ 1 / pagesPerStep := by
  obtain ⟨t, hrun, -⟩ := run_writeThenCopy
  refine backup_ends (Copy.documented_copier ℕ) hrun ?_ (by decide) ?_
  · rintro l hl rfl
    simp [writeThenCopy] at hl
  · intro env req live' hl
    simp only [writeThenCopy, List.mem_cons, Label.request.injEq, reduceCtorEq, List.not_mem_nil,
      or_false] at hl
    rw [hl.2.2]
    decide

end CofferFS.Backup
