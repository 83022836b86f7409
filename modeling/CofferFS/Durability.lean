import CofferFS.Lib.Wal
import CofferFS.Requests

/-!
# What survives a crash

`open_db_with` sets `journal_mode = WAL` and `synchronous = NORMAL`: a COMMIT is not synced, a
checkpoint is. The callbacks of `flush` and `fsync` do nothing but reply. So the death of the
mount loses nothing that was answered, and a power failure loses only what was answered after the
last checkpoint, from some request on (`durable_from_checkpoint`); an `fsync` makes no difference.

A request is one commit here. One that is cut off by the crash is the last of its run, with the
statements failing from there on.
-/

namespace CofferFS

namespace Durability

/-- What happens to a container that is mounted. -/
inductive Event
  | request (env : Env) (req : Request)
  | checkpoint

/-- A request as a commit. -/
def serve (r : Env × Request) : Db → Db := fun db => (step r.1 r.2 db).2

def Event.onWal : Event → Wal.Event Db
  | request env req => .commit (serve (env, req))
  | checkpoint => .checkpoint

/-- The requests of a run. -/
def requests (es : List Event) : List (Env × Request) :=
  es.filterMap fun
    | .request env req => some (env, req)
    | .checkpoint => none

/-- The storage after a run on a container. -/
def run (start : Db) (es : List Event) : Wal Db := Wal.run start (es.map Event.onWal)

/-- How many requests the last checkpoint has synced. -/
def synced (es : List Event) : ℕ := Wal.synced (es.map Event.onWal)

/-- The tables after some requests. -/
def stateAfter (start : Db) (rs : List (Env × Request)) : Db :=
  rs.foldl (fun db r => serve r db) start

variable {start : Db} {es : List Event}

theorem commits_onWal : Wal.commits (es.map Event.onWal) = (requests es).map serve := by
  rw [Wal.commits, requests, List.filterMap_map, List.map_filterMap]
  refine List.filterMap_congr fun e _ => ?_
  cases e <;> rfl

theorem after_serve (rs : List (Env × Request)) :
    Wal.after start (rs.map serve) = stateAfter start rs := by
  rw [Wal.after, List.foldl_map]
  rfl

theorem mem_survivors {db : Db} : db ∈ (run start es).survivors ↔
    ∃ k, synced es ≤ k ∧ k ≤ (requests es).length ∧ db = stateAfter start ((requests es).take k) := by
  rw [run, Wal.mem_survivors_run, commits_onWal, List.length_map]
  refine exists_congr fun k => ?_
  rw [← List.map_take, after_serve]
  rfl

theorem current_run : (run start es).current = stateAfter start (requests es) := by
  rw [run, Wal.current_run, commits_onWal, after_serve]

/-- What was answered before a checkpoint is synced. -/
theorem length_lt_synced {es₁ es₂ : List Event} {env : Env} {req : Request}
    (h : Event.checkpoint ∈ es₂) :
    (requests es₁).length < synced (es₁ ++ [.request env req] ++ es₂) := by
  have hmem : Wal.Event.checkpoint ∈ es₂.map Event.onWal := List.mem_map_of_mem h
  have hle : (Wal.commits ((es₁ ++ [Event.request env req]).map Event.onWal)).length ≤
      Wal.synced ((es₁ ++ [Event.request env req]).map Event.onWal ++ es₂.map Event.onWal) :=
    Wal.length_le_synced hmem
  rw [commits_onWal, List.length_map, ← List.map_append] at hle
  have hlength : (requests (es₁ ++ [Event.request env req])).length = (requests es₁).length + 1 := by
    rw [requests, List.filterMap_append, List.length_append]
    rfl
  rw [hlength] at hle
  exact hle

/-- A run with a request, and later an `fsync`. `fsync` is answered ok and changes nothing. After
the death of the mount the container has all that was answered. After a power failure it is in
the state after some of the requests, those that are synced among them, and it may be any of
these states; the request is one of those if a checkpoint came after it. -/
theorem durable_from_checkpoint (start : Db) (es₁ es₂ es₃ : List Event) (env env' : Env)
    (req : Request) (fh : Ino) :
    let es := es₁ ++ [.request env req] ++ (es₂ ++ [.request env' (.fsync fh)] ++ es₃)
    (∀ db, step env' (.fsync fh) db = (.ok .ok, db)) ∧
      (run start es).current = stateAfter start (requests es) ∧
      (∀ db, db ∈ (run start es).survivors ↔ ∃ k, synced es ≤ k ∧ k ≤ (requests es).length ∧
        db = stateAfter start ((requests es).take k)) ∧
      (.checkpoint ∈ es₂ ++ es₃ → (requests es₁).length < synced es) := by
  refine ⟨fun _ => rfl, current_run, fun _ => mem_survivors, fun h => length_lt_synced ?_⟩
  rcases List.mem_append.1 h with h | h
  · exact List.mem_append_left _ (List.mem_append_left _ h)
  · exact List.mem_append_right _ h

theorem durable_from_checkpoint_write :
    (requests []).length < synced ([] ++
      [Event.request (.quiet .plain 0) (.write 2 0 [1] false)] ++
      ([.checkpoint] ++ [.request (.quiet .plain 0) (.fsync 2)] ++ [])) :=
  (durable_from_checkpoint .oneFile [] [.checkpoint] [] (.quiet .plain 0) (.quiet .plain 0)
    (.write 2 0 [1] false) 2).2.2.2 List.mem_cons_self

/-- A write that was answered, and after it an `fsync`. -/
def writeThenFsync : List Event :=
  [.request (.quiet .plain 0) (.write 2 0 [1] false), .request (.quiet .plain 0) (.fsync 2)]

/-- A power failure may take a write away that was answered before an `fsync` was. -/
theorem fsynced_write_lost :
    (step (.quiet .plain 0) (.write 2 0 [1] false) .oneFile).1 = .ok (.written 1) ∧
      (step (.quiet .plain 0) (.fsync 2) .oneByte).1 = .ok .ok ∧
      ((run .oneFile writeThenFsync).current.inodes.lookup 2).map (·.size) = some 1 ∧
      ∃ db ∈ (run .oneFile writeThenFsync).survivors, (db.inodes.lookup 2).map (·.size) = some 0 := by
  refine ⟨by decide +kernel, rfl, by decide +kernel, ?_⟩
  exact ⟨.oneFile, List.mem_cons_self, by decide +kernel⟩

end Durability

end CofferFS
