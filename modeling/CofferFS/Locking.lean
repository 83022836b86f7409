import CofferFS.Lib.Machine
import Mathlib.Logic.Function.Basic
import Mathlib.Tactic.Common

/-!
# The lock of the commands that write

`coffer mount`, `passwd` and `compact` take an exclusive `flock` before they ask for the password
(db.rs `lock_exclusive`), and open the container with it after that; a mount then forks, and the
daemon opens the container again with the password of its parent. Any number of these commands
take their steps in any order, and any of their processes may die at any point.

A lock belongs to the open file and is given back when the last process that has the file open
has closed it or has died, so it is held on behalf of a command: of the process that does the
work and of the parents that it was forked from, which only have their `_exit` left.

A command lets the lock go when its function returns, a little before its process ends. In every
run no two commands have the lock at a time, and what is open under the lock is open with the key
that the container has (`keys_are_current`).
-/

namespace CofferFS.Locking

/-- The options of a mount that decide about its steps. -/
structure MountOpts where
  readOnly : Bool
  foreground : Bool
  exclusive : Bool
  compactOnIdle : Bool

inductive Command
  | mount (opts : MountOpts)
  | passwd
  | compact

/-- `open_db` is not asked for a read-only connection. -/
def Command.writable : Command → Bool
  | mount opts => !opts.readOnly
  | _ => true

/-- A thread of the mount has the connection too: the one that serves the control socket, or the
one that compacts the container when it is idle. It is there until the process ends. -/
def Command.hasThread : Command → Bool
  | mount opts => opts.exclusive || opts.compactOnIdle
  | _ => false

section Model

variable {Key : Type}

/-- A connection to the container. -/
structure Connection (Key : Type) where
  writable : Bool
  /-- the password that it was opened with -/
  openedWith : Key
  /-- the key that it works with -/
  key : Key
  deriving DecidableEq

/-- How far the process has come that does the work of a command. -/
inductive Phase (Key : Type)
  | start
  /-- `lock_exclusive` succeeded -/
  | locked
  /-- the password was read -/
  | asked (password : Key)
  /-- `open_db` succeeded -/
  | opened (password : Key)
  /-- one fork of `daemonize` is done -/
  | forked (password : Key)
  /-- both are -/
  | daemon (password : Key)
  /-- the connection from before the forks is closed -/
  | closed (password : Key)
  /-- `session.run` -/
  | serving
  /-- `passwd` has read the new password -/
  | chosen (new : Key)
  /-- the container was rekeyed, or compacted -/
  | finished
  /-- the function of the command returns, and has closed its connection -/
  | returning
  /-- the locked file is closed -/
  | unlocked
  | exited
  deriving DecidableEq

/-- The locked file is open. -/
def Phase.locks : Phase Key → Bool
  | start | unlocked | exited => false
  | _ => true

/-- The function of the command has not returned yet. -/
def Phase.works : Phase Key → Bool
  | start | returning | unlocked | exited => false
  | _ => true

/-- A command that was started. -/
structure Proc (Key : Type) where
  command : Command
  phase : Phase Key := .start
  conn : Option (Connection Key) := none
  /-- the processes that it was forked from, each with the connection that it has open -/
  parents : List (Connection Key) := []

/-- The connections that the processes of the command have open. -/
def Proc.conns (p : Proc Key) : List (Connection Key) := p.conn.toList ++ p.parents

/-- A process of the command has the locked file open. -/
def Proc.holds (p : Proc Key) : Bool := p.phase.locks || !p.parents.isEmpty

/-- What a command does next. -/
inductive Act (Key : Type)
  | lock
  | ask (password : Key)
  | openDb
  | fork
  | close
  | reopen
  | serve
  | choose (new : Key)
  | rekey
  | vacuum
  /-- a transaction: the migration, a request, a compaction -/
  | write
  | return_
  | unlock
  /-- the end of the process that does the work, or its death -/
  | exit
  /-- the end of one of the processes it was forked from, or its death -/
  | parentExit (n : ℕ)

section

variable [DecidableEq Key]

/-- `open_db`: only the current key opens the container. -/
def Proc.openWith (p : Proc Key) (key password : Key) (phase : Phase Key) : Option (Proc Key) :=
  if password = key then
    some { p with phase, conn := some ⟨p.command.writable, password, password⟩ }
  else none

/-- What an action makes of the command that takes it, under the key of the container. -/
def Proc.act (p : Proc Key) (key : Key) : Act Key → Option (Proc Key)
  | .lock => if p.phase = .start then some { p with phase := .locked } else none
  | .ask password => if p.phase = .locked then some { p with phase := .asked password } else none
  | .openDb =>
    match p.phase with
    | .asked password => p.openWith key password (.opened password)
    | _ => none
  | .fork =>
    match p.command, p.phase with
    | .mount opts, .opened password =>
      if opts.foreground then none
      else some { p with phase := .forked password, parents := p.conn.toList ++ p.parents }
    | .mount _, .forked password =>
      some { p with phase := .daemon password, parents := p.conn.toList ++ p.parents }
    | _, _ => none
  | .close =>
    match p.command, p.phase with
    | .mount opts, .opened password =>
      if opts.foreground ∧ opts.exclusive then some { p with phase := .closed password, conn := none }
      else none
    | .mount _, .daemon password => some { p with phase := .closed password, conn := none }
    | _, _ => none
  | .reopen =>
    match p.phase with
    | .closed password => p.openWith key password .serving
    | _ => none
  | .serve =>
    match p.command, p.phase with
    | .mount opts, .opened _ =>
      if opts.foreground ∧ opts.exclusive = false then some { p with phase := .serving } else none
    | _, _ => none
  | .choose new =>
    match p.command, p.phase with
    | .passwd, .opened _ => some { p with phase := .chosen new }
    | _, _ => none
  | .rekey =>
    match p.command, p.phase with
    | .passwd, .chosen new =>
      some { p with phase := .finished, conn := p.conn.map fun c => { c with key := new } }
    | _, _ => none
  | .vacuum =>
    match p.command, p.phase with
    | .compact, .opened _ => some { p with phase := .finished }
    | _, _ => none
  | .write => if p.conn.any (·.writable) then some p else none
  | .return_ =>
    if p.phase.locks ∧ p.phase ≠ .returning then
      some { p with
        phase := .returning
        conn := if p.command.hasThread ∧ p.phase = .serving then p.conn else none }
    else none
  | .unlock => if p.phase = .returning then some { p with phase := .unlocked } else none
  | .exit => if p.phase = .exited then none else some { p with phase := .exited, conn := none }
  | .parentExit n =>
    if n < p.parents.length then some { p with parents := p.parents.eraseIdx n } else none

/-- The container, its lock, and all commands on it that are ever started. -/
structure World (Key : Type) where
  key : Key
  /-- the command whose file has the lock -/
  lock : Option ℕ
  procs : ℕ → Proc Key

/-- Before any command. -/
def World.init (key : Key) (commands : ℕ → Command) : World Key :=
  { key, lock := none, procs := fun i => { command := commands i } }

/-- The key of the container after an action. -/
def Proc.keyAfter (p : Proc Key) (key : Key) : Act Key → Key
  | .rekey =>
    match p.command, p.phase with
    | .passwd, .chosen new => new
    | _, _ => key
  | _ => key

/-- A command takes an action. `flock` fails at once when the lock is taken, and the lock is free
again when no process of its command has the file open. -/
def World.step (w : World Key) : ℕ × Act Key → Option (World Key)
  | (i, .lock) =>
    match w.lock with
    | none => ((w.procs i).act w.key .lock).map fun p =>
        { w with lock := some i, procs := Function.update w.procs i p }
    | some _ =>
      if (w.procs i).phase = .start then
        some { w with procs := Function.update w.procs i { w.procs i with phase := .exited } }
      else none
  | (i, a) => ((w.procs i).act w.key a).map fun p =>
      { key := (w.procs i).keyAfter w.key a
        lock := if w.lock = some i ∧ p.holds = false then none else w.lock
        procs := Function.update w.procs i p }

end

/-! ## What one command does -/

/-- What is true of a command at all times, under the key of the container. -/
structure Proc.Ok (p : Proc Key) (key : Key) : Prop where
  current : p.holds = true → ∀ c ∈ p.conns, c.key = key
  opened : p.command ≠ .passwd → ∀ c ∈ p.conns, c.openedWith = c.key
  parents : p.parents ≠ [] → ∃ opts, p.command = .mount opts
  closed : p.phase.works = false → p.command.hasThread = false → p.conn = none
  start : p.phase = .start → p.conns = []

variable {p p' : Proc Key} {key password : Key} {phase : Phase Key} {a : Act Key}

theorem Phase.locks_of_works (h : phase.works = true) : phase.locks = true := by
  cases phase <;> first | rfl | cases h

theorem Proc.holds_of_locks (h : p.phase.locks = true) : p.holds = true := by
  rw [Proc.holds, h]
  rfl

theorem Proc.holds_of_works (h : p.phase.works = true) : p.holds = true :=
  Proc.holds_of_locks (Phase.locks_of_works h)

/-- A step to another phase, with no connection but those there were. -/
theorem Proc.Ok.of_subset (h : p.Ok key) (hholds : p.holds = true)
    (hcommand : p'.command = p.command) (hconns : ∀ c ∈ p'.conns, c ∈ p.conns)
    (hparents : p'.parents ≠ [] → ∃ opts, p.command = .mount opts)
    (hclosed : p'.phase.works = false → p.command.hasThread = false → p'.conn = none)
    (hstart : p'.phase ≠ .start) : p'.Ok key := by
  refine ⟨fun _ c hc => h.current hholds c (hconns c hc), ?_, ?_, ?_, fun hs => (hstart hs).elim⟩
  · rw [hcommand]
    exact fun hpasswd c hc => h.opened hpasswd c (hconns c hc)
  · rwa [hcommand]
  · rwa [hcommand]

theorem Proc.Ok.advance (h : p.Ok key) (hworks : p.phase.works = true)
    (hphase : phase.works = true) : Proc.Ok { p with phase } key := by
  refine h.of_subset (Proc.holds_of_works hworks) rfl (fun c hc => hc) h.parents ?_ ?_
  · intro hnot
    rw [hphase] at hnot
    cases hnot
  · rintro rfl
    cases hphase

/-- The parent of a mount keeps its connection until it exits. -/
theorem Proc.Ok.fork (h : p.Ok key) {opts : MountOpts} (hcommand : p.command = .mount opts)
    (hworks : p.phase.works = true) (hphase : phase.works = true) :
    Proc.Ok { p with phase, parents := p.conn.toList ++ p.parents } key := by
  refine h.of_subset (Proc.holds_of_works hworks) rfl ?_ (fun _ => ⟨opts, hcommand⟩) ?_ ?_
  · intro c hc
    rcases List.mem_append.1 hc with hc | hc
    · exact List.mem_append_left _ hc
    · exact hc
  · intro hnot
    rw [hphase] at hnot
    cases hnot
  · rintro rfl
    cases hphase

theorem Proc.Ok.close (h : p.Ok key) (hworks : p.phase.works = true) (hphase : phase ≠ .start) :
    Proc.Ok { p with phase, conn := none } key :=
  h.of_subset (Proc.holds_of_works hworks) rfl (fun _ hc => List.mem_append_right _ hc) h.parents
    (fun _ _ => rfl) hphase

/-- `passwd` has no process but its own, so its own connection is all that is open. -/
theorem Proc.Ok.rekey (h : p.Ok key) (hcommand : p.command = .passwd) (new : Key) :
    Proc.Ok { p with phase := .finished, conn := p.conn.map fun c => { c with key := new } } new := by
  have hparents : p.parents = [] := by
    by_contra hne
    obtain ⟨opts, hmount⟩ := h.parents hne
    rw [hcommand] at hmount
    cases hmount
  refine ⟨?_, fun hne => (hne hcommand).elim, h.parents, nofun, nofun⟩
  intro _ c hc
  rw [Proc.conns, hparents, List.append_nil, Option.mem_toList] at hc
  obtain ⟨c, -, rfl⟩ := Option.map_eq_some_iff.1 hc
  rfl

/-- A process that ends leaves its parents with what they have. -/
theorem Proc.Ok.exit (h : p.Ok key) : Proc.Ok { p with phase := .exited, conn := none } key := by
  have hsub : ∀ c ∈ p.parents, c ∈ p.conns := fun c hc => List.mem_append_right _ hc
  refine ⟨?_, fun hpasswd c hc => h.opened hpasswd c (hsub c hc), h.parents, fun _ _ => rfl, nofun⟩
  intro hholds c hc
  refine h.current ?_ c (hsub c hc)
  rw [Proc.holds, Bool.or_eq_true]
  exact .inr (by simpa [Proc.holds, Phase.locks] using hholds)

theorem Proc.Ok.parentExit (h : p.Ok key) {n : ℕ} (hn : n < p.parents.length) :
    Proc.Ok { p with parents := p.parents.eraseIdx n } key := by
  have hne : p.parents ≠ [] := by
    intro hnil
    rw [hnil] at hn
    cases hn
  have hholds : p.holds = true := by
    rw [Proc.holds, Bool.or_eq_true]
    exact .inr (by simpa using hne)
  have hsub : ∀ c ∈ p.conn.toList ++ p.parents.eraseIdx n, c ∈ p.conns := by
    intro c hc
    rcases List.mem_append.1 hc with hc | hc
    · exact List.mem_append_left _ hc
    · exact List.mem_append_right _ (List.mem_of_mem_eraseIdx hc)
  refine ⟨fun _ c hc => h.current hholds c (hsub c hc),
    fun hpasswd c hc => h.opened hpasswd c (hsub c hc),
    fun _ => h.parents hne, h.closed, ?_⟩
  intro hstart
  have hnone := h.start hstart
  rw [Proc.conns, List.append_eq_nil_iff] at hnone
  exact (hne hnone.2).elim

/-- Who changes the key has the file open. -/
theorem Proc.keyAfter_of_not_holds (h : p.holds = false) : p.keyAfter key a = key := by
  cases a with
  | rekey =>
    rw [Proc.keyAfter]
    split
    · rename_i hphase
      rw [Proc.holds_of_locks (by rw [hphase]; rfl)] at h
      cases h
    · rfl
  | _ => rfl

/-- What a command without a thread has open, it has open under the lock. -/
theorem Proc.Ok.conns_eq_nil (h : p.Ok key) (hholds : p.holds = false)
    (hthread : p.command.hasThread = false) : p.conns = [] := by
  rw [Proc.holds, Bool.or_eq_false_iff] at hholds
  have hworks : p.phase.works = false := by
    rw [Bool.eq_false_iff]
    intro hworks
    rw [Phase.locks_of_works hworks] at hholds
    cases hholds.1
  have hparents : p.parents = [] := by simpa using hholds.2
  rw [Proc.conns, hparents, h.closed hworks hthread]
  rfl

/-! ### The world of all commands -/

/-- The lock is that of the command that has the file open, and no command is wrong about the
key. -/
structure World.Ok (w : World Key) : Prop where
  lock : ∀ i, w.lock = some i ↔ (w.procs i).holds = true
  procs : ∀ i, (w.procs i).Ok w.key

variable {w w' : World Key} {i j : ℕ}

theorem World.Ok.eq_of_holds (h : w.Ok) (hi : (w.procs i).holds = true)
    (hj : (w.procs j).holds = true) : i = j := by
  have hlock := (h.lock i).2 hi
  rw [(h.lock j).2 hj] at hlock
  exact (Option.some.inj hlock).symm

theorem World.ok_init (key : Key) (commands : ℕ → Command) : (World.init key commands).Ok := by
  refine ⟨fun i => iff_of_false nofun nofun, fun i => ?_⟩
  exact ⟨nofun, fun _ _ hc => (List.not_mem_nil hc).elim, fun h => (h rfl).elim, fun _ _ => rfl,
    fun _ => rfl⟩

/-- A command that does not have the file open is not affected by the key. -/
theorem Proc.Ok.of_not_holds (h : p.Ok key) (hholds : p.holds = false) (key' : Key) : p.Ok key' := by
  refine ⟨?_, h.opened, h.parents, h.closed, h.start⟩
  rw [hholds]
  nofun

/-- A command that finds the lock taken gives up. -/
theorem World.Ok.refused (h : w.Ok) (hstart : (w.procs i).phase = .start) :
    World.Ok { w with procs := Function.update w.procs i { w.procs i with phase := .exited } } := by
  have hconns := (h.procs i).start hstart
  have hholds : Proc.holds { w.procs i with phase := .exited } = (w.procs i).holds := by
    rw [Proc.holds, Proc.holds, hstart]
    rfl
  refine ⟨fun j => ?_, fun j => ?_⟩
  · by_cases hj : j = i
    · rw [hj]
      dsimp only
      rw [Function.update_self, hholds]
      exact h.lock i
    · dsimp only
      rw [Function.update_of_ne hj]
      exact h.lock j
  · by_cases hj : j = i
    · rw [hj]
      dsimp only
      rw [Function.update_self]
      have hi := h.procs i
      refine ⟨fun hh => hi.current (hholds ▸ hh), hi.opened, hi.parents, fun _ _ => ?_, nofun⟩
      rw [Proc.conns, List.append_eq_nil_iff] at hconns
      exact Option.toList_eq_nil_iff.1 hconns.1
    · dsimp only
      rw [Function.update_of_ne hj]
      exact h.procs j

/-! ## What a step does -/

variable [DecidableEq Key]

theorem Proc.Ok.openWith (h : p.Ok key) (hworks : p.phase.works = true)
    (hphase : phase.works = true) (hopen : p.openWith key password phase = some p') : p'.Ok key := by
  rw [Proc.openWith] at hopen
  split_ifs at hopen with hkey
  obtain rfl := Option.some.inj hopen
  have hparents : ∀ c ∈ p.parents, c ∈ p.conns := fun c hc => List.mem_append_right _ hc
  refine ⟨?_, ?_, h.parents, ?_, ?_⟩
  · intro _ c hc
    rcases List.mem_cons.1 hc with rfl | hc
    · exact hkey
    · exact h.current (Proc.holds_of_works hworks) c (hparents c hc)
  · intro hpasswd c hc
    rcases List.mem_cons.1 hc with rfl | hc
    · rfl
    · exact h.opened hpasswd c (hparents c hc)
  · intro hnot
    rw [hphase] at hnot
    cases hnot
  · rintro rfl
    cases hphase

/-- Whatever a command does, it stays what it is. -/
theorem Proc.Ok.act (h : p.Ok key) (hact : p.act key a = some p') : p'.Ok (p.keyAfter key a) := by
  cases a with
  | lock =>
    rw [Proc.act] at hact
    split_ifs at hact with hphase
    obtain rfl := Option.some.inj hact
    have hnone := h.start hphase
    refine ⟨?_, h.opened, h.parents, nofun, nofun⟩
    intro _ c hc
    rw [Proc.conns] at hc hnone
    rw [hnone] at hc
    cases hc
  | ask password =>
    rw [Proc.act] at hact
    split_ifs at hact with hphase
    obtain rfl := Option.some.inj hact
    exact h.advance (by rw [hphase]; rfl) rfl
  | openDb =>
    rw [Proc.act] at hact
    split at hact
    · rename_i hphase
      exact h.openWith (by rw [hphase]; rfl) rfl hact
    · cases hact
  | fork =>
    rw [Proc.act] at hact
    split at hact
    · rename_i hcommand hphase
      split_ifs at hact
      obtain rfl := Option.some.inj hact
      exact h.fork hcommand (by rw [hphase]; rfl) rfl
    · rename_i hcommand hphase
      obtain rfl := Option.some.inj hact
      exact h.fork hcommand (by rw [hphase]; rfl) rfl
    · cases hact
  | close =>
    rw [Proc.act] at hact
    split at hact
    · rename_i hcommand hphase
      split_ifs at hact
      obtain rfl := Option.some.inj hact
      exact h.close (by rw [hphase]; rfl) nofun
    · rename_i hcommand hphase
      obtain rfl := Option.some.inj hact
      exact h.close (by rw [hphase]; rfl) nofun
    · cases hact
  | reopen =>
    rw [Proc.act] at hact
    split at hact
    · rename_i hphase
      exact h.openWith (by rw [hphase]; rfl) rfl hact
    · cases hact
  | serve =>
    rw [Proc.act] at hact
    split at hact
    · rename_i hphase
      split_ifs at hact
      obtain rfl := Option.some.inj hact
      exact h.advance (by rw [hphase]; rfl) rfl
    · cases hact
  | choose new =>
    rw [Proc.act] at hact
    split at hact
    · rename_i hphase
      obtain rfl := Option.some.inj hact
      exact h.advance (by rw [hphase]; rfl) rfl
    · cases hact
  | rekey =>
    rw [Proc.act] at hact
    split at hact
    · rename_i new hcommand hphase
      obtain rfl := Option.some.inj hact
      have hkey : p.keyAfter key .rekey = new := by
        rw [Proc.keyAfter, hcommand, hphase]
      rw [hkey]
      exact h.rekey hcommand new
    · cases hact
  | vacuum =>
    rw [Proc.act] at hact
    split at hact
    · rename_i hphase
      obtain rfl := Option.some.inj hact
      exact h.advance (by rw [hphase]; rfl) rfl
    · cases hact
  | write =>
    rw [Proc.act] at hact
    split_ifs at hact
    exact Option.some.inj hact ▸ h
  | return_ =>
    rw [Proc.act] at hact
    split_ifs at hact with hphase hthread
    · obtain rfl := Option.some.inj hact
      refine h.of_subset (Proc.holds_of_locks hphase.1) rfl (fun c hc => hc) h.parents ?_ nofun
      intro _ hno
      rw [hthread.1] at hno
      cases hno
    · obtain rfl := Option.some.inj hact
      exact h.of_subset (Proc.holds_of_locks hphase.1) rfl (fun c hc => List.mem_append_right _ hc)
        h.parents (fun _ _ => rfl) nofun
  | unlock =>
    rw [Proc.act] at hact
    split_ifs at hact with hphase
    obtain rfl := Option.some.inj hact
    exact h.of_subset (Proc.holds_of_locks (by rw [hphase]; rfl)) rfl (fun c hc => hc) h.parents
      (fun _ => h.closed (by rw [hphase]; rfl)) nofun
  | exit =>
    rw [Proc.act] at hact
    split_ifs at hact
    obtain rfl := Option.some.inj hact
    exact h.exit
  | parentExit n =>
    rw [Proc.act] at hact
    split_ifs at hact with hn
    obtain rfl := Option.some.inj hact
    exact h.parentExit hn

/-- Only `lock_exclusive` opens the locked file. -/
theorem Proc.holds_of_act (ha : a ≠ .lock) (hact : p.act key a = some p') (h : p'.holds = true) :
    p.holds = true := by
  have hlocks (hphase : p.phase.locks = true) : p.holds = true := Proc.holds_of_locks hphase
  cases a with
  | lock => exact (ha rfl).elim
  | exit =>
    rw [Proc.act] at hact
    split_ifs at hact
    obtain rfl := Option.some.inj hact
    rw [Proc.holds, Bool.or_eq_true]
    exact .inr (by simpa [Proc.holds, Phase.locks] using h)
  | parentExit n =>
    rw [Proc.act] at hact
    split_ifs at hact with hn
    rw [Proc.holds, Bool.or_eq_true]
    right
    cases hparents : p.parents with
    | nil =>
      rw [hparents] at hn
      cases hn
    | cons c rest => rfl
  | write =>
    rw [Proc.act] at hact
    split_ifs at hact
    exact Option.some.inj hact ▸ h
  | return_ =>
    rw [Proc.act] at hact
    split_ifs at hact with hphase
    · exact hlocks hphase.1
    · exact hlocks hphase.1
  | _ =>
    rw [Proc.act] at hact
    first
    | (split_ifs at hact with hphase
       exact hlocks (by rw [hphase]; rfl))
    | (split at hact
       all_goals first
         | (rename_i hphase
            exact hlocks (by rw [hphase]; rfl))
         | cases hact)

/-- A command takes the free lock. -/
theorem World.Ok.take (h : w.Ok) (hfree : w.lock = none)
    (hact : (w.procs i).act w.key .lock = some p) :
    World.Ok { w with lock := some i, procs := Function.update w.procs i p } := by
  have hnone : ∀ j, (w.procs j).holds = false := by
    intro j
    rw [Bool.eq_false_iff]
    intro hj
    rw [← h.lock j, hfree] at hj
    cases hj
  have hp : p.holds = true := by
    rw [Proc.act] at hact
    split_ifs at hact
    rw [← Option.some.inj hact]
    rfl
  refine ⟨fun j => ?_, fun j => ?_⟩
  · dsimp only
    by_cases hj : j = i
    · rw [hj, Function.update_self]
      exact iff_of_true rfl hp
    · refine iff_of_false (fun heq => hj (Option.some.inj heq).symm) ?_
      rw [Function.update_of_ne hj, hnone j]
      nofun
  · by_cases hj : j = i
    · rw [hj]
      dsimp only
      rw [Function.update_self]
      exact (h.procs i).act hact
    · dsimp only
      rw [Function.update_of_ne hj]
      exact h.procs j

/-- Any other action of a command, after which the lock is free if no process of it is left that
has the file open. -/
theorem World.Ok.act (h : w.Ok) (ha : a ≠ .lock) (hact : (w.procs i).act w.key a = some p) :
    World.Ok
      { key := (w.procs i).keyAfter w.key a
        lock := if w.lock = some i ∧ p.holds = false then none else w.lock
        procs := Function.update w.procs i p } := by
  have hkeeps := Proc.holds_of_act ha hact
  refine ⟨fun j => ?_, fun j => ?_⟩
  · dsimp only
    by_cases hj : j = i
    · rw [hj, Function.update_self]
      cases hp : p.holds with
      | true =>
        rw [if_neg fun hh => by cases hh.2]
        exact iff_of_true ((h.lock i).2 (hkeeps hp)) rfl
      | false =>
        refine iff_of_false ?_ nofun
        split_ifs with hlock
        · nofun
        · exact fun heq => hlock ⟨heq, rfl⟩
    · rw [Function.update_of_ne hj]
      split_ifs with hlock
      · refine iff_of_false nofun fun hholds => hj ?_
        exact h.eq_of_holds hholds ((h.lock i).1 hlock.1)
      · exact h.lock j
  · dsimp only
    by_cases hj : j = i
    · rw [hj, Function.update_self]
      exact (h.procs i).act hact
    · rw [Function.update_of_ne hj]
      cases hholds : (w.procs j).holds with
      | false => exact (h.procs j).of_not_holds hholds _
      | true =>
        -- the other one has the file open, so this one does not
        have hi : (w.procs i).holds = false := by
          rw [Bool.eq_false_iff]
          exact fun hi => hj (h.eq_of_holds hholds hi)
        rw [Proc.keyAfter_of_not_holds hi]
        exact h.procs j

theorem World.Ok.step {act : ℕ × Act Key} (h : w.Ok) (hstep : w.step act = some w') : w'.Ok := by
  obtain ⟨i, a⟩ := act
  by_cases ha : a = .lock
  · subst ha
    rw [World.step] at hstep
    split at hstep
    · rename_i hfree
      obtain ⟨p, hact, rfl⟩ := Option.map_eq_some_iff.1 hstep
      exact h.take hfree hact
    · split_ifs at hstep with hstart
      rw [← Option.some.inj hstep]
      exact h.refused hstart
  · have hother : w.step (i, a) = ((w.procs i).act w.key a).map fun p =>
        { key := (w.procs i).keyAfter w.key a
          lock := if w.lock = some i ∧ p.holds = false then none else w.lock
          procs := Function.update w.procs i p } := by
      cases a with
      | lock => exact (ha rfl).elim
      | _ => rfl
    rw [hother] at hstep
    obtain ⟨p, hact, rfl⟩ := Option.map_eq_some_iff.1 hstep
    exact h.act ha hact

/-- In every run no two commands are between taking the lock and letting it go, and the key of
every connection is the current one while its command has the lock; for good, unless the command
is a mount with a thread that still has the connection. Only `passwd` has a connection that was
not opened with this key, the one that it has rekeyed. -/
theorem keys_are_current {key : Key} {commands : ℕ → Command} {acts : List (ℕ × Act Key)}
    {w : World Key} (h : Machine.run World.step (World.init key commands) acts = some w) :
    (∀ i j, (w.procs i).holds = true → (w.procs j).holds = true → i = j) ∧
      ∀ i, ∀ c ∈ (w.procs i).conns,
        (w.procs i).holds = true ∨ (w.procs i).command.hasThread = false →
        c.key = w.key ∧ ((w.procs i).command ≠ .passwd → c.openedWith = w.key) := by
  have hok : w.Ok := Machine.invariant_of_run (P := World.Ok) (fun _ _ _ hok hs => hok.step hs)
    (World.ok_init key commands) h
  refine ⟨fun i j hi hj => hok.eq_of_holds hi hj, fun i c hc hopen => ?_⟩
  have hi := hok.procs i
  cases hholds : (w.procs i).holds with
  | true =>
    have hkey := hi.current hholds c hc
    exact ⟨hkey, fun hpasswd => (hi.opened hpasswd c hc).trans hkey⟩
  | false =>
    rw [hholds] at hopen
    rw [hi.conns_eq_nil hholds (hopen.resolve_left nofun)] at hc
    cases hc

end Model

/-- A mount becomes a daemon, while a `passwd` finds the container in use. -/
def daemonRun : List (ℕ × Act ℕ) :=
  [(0, .lock), (0, .ask 7), (0, .openDb), (1, .lock), (0, .fork), (0, .fork), (0, .parentExit 0),
    (0, .close), (0, .reopen), (0, .write)]

/-- The first command is a mount, all others are `passwd`. -/
def mountFirst (opts : MountOpts) : ℕ → Command
  | 0 => .mount opts
  | _ => .passwd

theorem keys_are_current_daemon :
    ∃ w, Machine.run World.step (World.init 7 (mountFirst ⟨false, false, false, false⟩)) daemonRun =
        some w ∧
      (∀ i j, (w.procs i).holds = true → (w.procs j).holds = true → i = j) ∧
      ∀ i, ∀ c ∈ (w.procs i).conns,
        (w.procs i).holds = true ∨ (w.procs i).command.hasThread = false →
        c.key = w.key ∧ ((w.procs i).command ≠ .passwd → c.openedWith = w.key) := by
  have hsome : (Machine.run World.step (World.init 7 (mountFirst ⟨false, false, false, false⟩))
      daemonRun).isSome = true := by decide
  obtain ⟨w, hw⟩ := Option.isSome_iff_exists.1 hsome
  exact ⟨w, hw, keys_are_current hw⟩

/-- What a run shows of the first two commands: how far they are, and their connections. -/
def shown (commands : ℕ → Command) (acts : List (ℕ × Act ℕ)) :
    Option (Phase ℕ × List (Connection ℕ) × Phase ℕ × ℕ) :=
  (Machine.run World.step (World.init 7 commands) acts).map fun w =>
    ((w.procs 0).phase, (w.procs 0).conns, (w.procs 1).phase, w.key)

/-- `passwd` has rekeyed the container through a connection that was opened with the old key; a
command has taken the lock while another one, which has let it go, has not exited; and a mount
that compacts the container when it is idle has its old connection still open after that. -/
theorem old_connections :
    shown (fun _ => .passwd) [(0, .lock), (0, .ask 7), (0, .openDb), (0, .choose 8), (0, .rekey)] =
        some (.finished, [⟨true, 7, 8⟩], .start, 8) ∧
      shown (fun _ => .compact)
          [(0, .lock), (0, .ask 7), (0, .openDb), (0, .vacuum), (0, .return_), (0, .unlock),
            (1, .lock)] =
        some (.unlocked, [], .locked, 7) ∧
      shown (mountFirst ⟨false, true, false, true⟩)
          [(0, .lock), (0, .ask 7), (0, .openDb), (0, .serve), (0, .return_), (0, .unlock), (1, .lock),
            (1, .ask 7), (1, .openDb), (1, .choose 8), (1, .rekey)] =
        some (.unlocked, [⟨true, 7, 7⟩], .finished, 8) :=
  ⟨rfl, rfl, rfl⟩

end CofferFS.Locking
