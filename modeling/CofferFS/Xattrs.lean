import CofferFS.Privileges
import CofferFS.Quiet
import CofferFS.Reply
import CofferFS.Tree

/-!
# Extended attributes

What the attributes of an inode are supposed to be is a map that follows the requests: `setxattr`
and `removexattr` change it, dropping privileges takes the capabilities out, and with its last name
an inode loses all of them. `xattrs_right` says that a run keeps the table equal to that map, and
what `getxattr` and `listxattr` then answer.
-/

namespace CofferFS

open Script

/-- The attributes of all inodes. -/
abbrev Attrs := Ino → String → Option (List UInt8)

/-- The request has happened: it was answered, or it changed the tables and its reply was lost. -/
def Performed (env : Env) (req : Request) (db : Db) : Prop :=
  (∃ a, (step env req db).1 = .ok a) ∨ (step env req db).2 ≠ db

/-- The last name of `i` goes. -/
def LastNameGoes (db db' : Db) (i : Ino) : Prop := db.nameCount i ≠ 0 ∧ db'.nameCount i = 0

namespace Attrs

open Classical in
/-- What a request is to do with the attributes. -/
noncomputable def request (attrs : Attrs) (req : Request) (db : Db) : Attrs := fun i n =>
  match req with
  | .setxattr ino name value _ =>
    if i = ino ∧ name.toStr = some n then some value else attrs i n
  | .removexattr ino name => if i = ino ∧ name.toStr = some n then none else attrs i n
  | req => if Drops db i req ∧ n = "security.capability" then none else attrs i n

open Classical in
/-- The attributes after a step. -/
noncomputable def next (attrs : Attrs) (env : Env) (req : Request) (db : Db) : Attrs := fun i n =>
  if Performed env req db then
    if LastNameGoes db (step env req db).2 i then none else attrs.request req db i n
  else attrs i n

end Attrs

/-- Names come from the kernel as strings that end at a NUL. -/
def NoNul : Request → Prop
  | .setxattr _ name _ _ => 0 ∉ name.bytes.toList
  | _ => True

/-- A run of requests, beside what the attributes are supposed to be. -/
inductive XattrRun : Db → Attrs → Prop
  | new (now : F64) (uid gid : UInt32) : XattrRun (.created now uid gid) fun _ _ => none
  | step {db : Db} {attrs : Attrs} (env : Env) (req : Request) : XattrRun db attrs →
      KernelOk db req → NoNul req → XattrRun (step env req db).2 (attrs.next env req db)

theorem XattrRun.reachable {db : Db} {attrs : Attrs} (h : XattrRun db attrs) : Reachable db := by
  induction h with
  | new now uid gid => exact reachable_created now uid gid
  | step env req _ hok _ ih => exact ih.step env hok

/-! ## The table follows the map -/

section Follows

variable {db db' : Db} {m : Mount} {now : F64} {i ino parent : Ino} {name : String}

/-- No inode loses its last name. -/
def KeepsNames (db db' : Db) : Prop := ∀ i, db.nameCount i ≤ db'.nameCount i

theorem KeepsNames.not_last (h : KeepsNames db db') (i : Ino) : ¬ LastNameGoes db db' i := by
  rintro ⟨hne, hzero⟩
  have hle := h i
  omega

theorem keepsNames_of_dentries (h : db'.dentries = db.dentries) : KeepsNames db db' := by
  intro i
  rw [Db.nameCount, Db.nameCount, h]

theorem keepsNames_insert {k : Ino × String} (hfree : db.dentries.lookup k = none)
    (h : db'.dentries = db.dentries.insert k ino) : KeepsNames db db' := by
  intro i
  have hown := congrArg Own.names (@Db.own_insertDentry db i ino k hfree)
  have hnames : db'.nameCount i = (if ino = i then 1 else 0) + db.nameCount i := by
    rw [Db.nameCount, h]
    exact hown
  omega

theorem lastNameGoes_dropName (hname : db.dentries.lookup (parent, name) = some ino) :
    LastNameGoes db (db.dropName now parent name ino) i ↔
      i = ino ∧ (db.deleteDentry parent name).nameCount ino = 0 := by
  have hcount := congrArg Own.names (@Db.own_eraseDentry db i ino _ hname)
  have hnames : db.nameCount i =
      (if ino = i then 1 else 0) + (db.deleteDentry parent name).nameCount i := hcount
  rw [LastNameGoes, Db.nameCount_dropName]
  by_cases hino : ino = i
  · subst hino
    rw [if_pos rfl] at hnames
    simp only [true_and]
    omega
  · rw [if_neg hino] at hnames
    have hino' : i ≠ ino := Ne.symm hino
    simp only [hino', false_and, iff_false]
    omega

open Classical in
theorem attr_dropName {n : String} (hname : db.dentries.lookup (parent, name) = some ino) :
    (db.dropName now parent name ino).attr i n =
      if LastNameGoes db (db.dropName now parent name ino) i then none else db.attr i n := by
  simp only [lastNameGoes_dropName hname]
  have htouch (db : Db) : (db.touch now parent).attr = db.attr := Db.attr_congr rfl
  rw [Db.dropName, htouch]
  split_ifs with hlast hboth hboth
  · obtain ⟨rfl, -⟩ := hboth
    show (db.xattrs.map _).bind _ = none
    cases db.xattrs with
    | none => rfl
    | some x =>
      show (x.filter _).lookup (i, n) = none
      rw [AList.lookup_filter]
      cases x.lookup (i, n) <;> simp
  · have hino : i ≠ ino := fun hino => hboth ⟨hino, hlast⟩
    exact congrArg (fun o => o.attr n) (Db.own_dropInode_of_ne hino)
  · exact (hlast hboth.2).elim
  · rfl

theorem nameCount_moveName {old new : Ino × String} (hold : db.dentries.lookup old = some ino)
    (hfree : db.dentries.lookup new = none) :
    (db.moveName now old new ino).nameCount i = db.nameCount i :=
  congrArg Own.names (Db.own_rekey hold hfree)

open Classical in
theorem KeepsNames.attr {o : Option (List UInt8)} {n : String} (h : KeepsNames db db')
    (hattr : db'.attr i n = o) :
    db'.attr i n = if LastNameGoes db db' i then none else o := by
  rw [if_neg (h.not_last i), hattr]

/-- A request about no attributes. -/
theorem Attrs.request_other {attrs : Attrs} {req : Request} {n : String}
    (hset : ∀ ino name value flags, req ≠ .setxattr ino name value flags)
    (hremove : ∀ ino name, req ≠ .removexattr ino name) (hdrops : ¬ Drops db i req) :
    attrs.request req db i n = attrs i n := by
  cases req with
  | setxattr ino name value flags => exact (hset ino name value flags rfl).elim
  | removexattr ino name => exact (hremove ino name rfl).elim
  | _ => exact if_neg fun h => hdrops h.1

theorem dropped_attr {n : String} (h : Dropped i db db') :
    db'.attr i n = if n = "security.capability" then none else db.attr i n := by
  split_ifs with hn
  · rw [hn]
    exact h.capability
  · exact h.attr n hn

open Classical in
/-- The attributes after an effect. -/
theorem Effect.attr {req : Request} {n : String} (h : Effect m now req db db') :
    db'.attr i n =
      if LastNameGoes db db' i then none else Attrs.request db.attr req db i n := by
  cases req with
  | setattr caller ino a =>
    have hnames : KeepsNames db db' := by
      obtain ⟨row, -, -, rfl⟩ := h
      exact keepsNames_of_dentries Db.Concerns.apply.dentries
    refine hnames.attr ?_
    by_cases hino : i = ino
    · subst hino
      obtain ⟨hdrops, hkeeps⟩ := effect_setattr h
      by_cases hd : Drops db i (.setattr caller i a)
      · simp [Attrs.request, hd, dropped_attr (hdrops hd)]
      · simp [Attrs.request, hd, (hkeeps hd).2]
    · obtain ⟨row, -, -, rfl⟩ := h
      have hdrops : ¬ Drops db i (.setattr caller ino a) := fun hd => hino hd.1
      rw [Attrs.request_other (by simp) (by simp) hdrops]
      exact congrArg (fun o => o.attr n) (Db.own_apply_of_ne hino)
  | write fh offset data kill =>
    have hnames : KeepsNames db db' := by
      obtain ⟨row, -, -, rfl⟩ := h
      exact keepsNames_of_dentries Db.Concerns.writeEffect.dentries
    refine hnames.attr ?_
    by_cases hino : i = fh
    · subst hino
      obtain ⟨hdrops, hkeeps⟩ := effect_write h
      cases kill with
      | true => simp [Attrs.request, Drops, dropped_attr (hdrops rfl)]
      | false => simp [Attrs.request, Drops, (hkeeps rfl).2]
    · obtain ⟨row, -, -, rfl⟩ := h
      have hdrops : ¬ Drops db i (.write fh offset data kill) := fun hd => hino hd.1
      rw [Attrs.request_other (by simp) (by simp) hdrops]
      exact congrArg (fun o => o.attr n) (Db.own_writeEffect_of_ne hino)
  | mkdir parent name mode =>
    obtain ⟨n', -, hfree, -, rfl⟩ := h
    exact (keepsNames_insert hfree rfl).attr
      (Attrs.request_other (by simp) (by simp) id).symm
  | create parent name mode =>
    obtain ⟨n', -, hfree, -, rfl⟩ := h
    exact (keepsNames_insert hfree rfl).attr
      (Attrs.request_other (by simp) (by simp) id).symm
  | symlink parent linkName target =>
    obtain ⟨t, -, n', -, hfree, -, rfl⟩ := h
    exact (keepsNames_insert hfree rfl).attr
      (Attrs.request_other (by simp) (by simp) id).symm
  | link ino newparent newname =>
    obtain ⟨n', -, -, hfree, rfl⟩ := h
    exact (keepsNames_insert hfree rfl).attr
      (Attrs.request_other (by simp) (by simp) id).symm
  | unlink parent name =>
    obtain ⟨n', ino, -, hino, rfl⟩ := h
    rw [Attrs.request_other (by simp) (by simp) id]
    exact attr_dropName hino
  | rmdir parent name =>
    obtain ⟨n', ino, -, hino, -, -, rfl⟩ := h
    rw [Attrs.request_other (by simp) (by simp) id]
    exact attr_dropName hino
  | rename parent name newparent newname flags =>
    rw [Attrs.request_other (by simp) (by simp) id]
    cases h with
    | sameName => exact (keepsNames_of_dentries rfl).attr rfl
    | @freeName n' n'' ino _ _ hino _ _ hfree =>
      have hnames : KeepsNames db (db.moveName now (parent, n') (newparent, n'') ino) :=
        fun i => (nameCount_moveName hino hfree).ge
      exact hnames.attr rfl
    | @replaced n' n'' ino existing _ _ hino _ _ _ hexisting hne =>
      have hnames : ((db.dropName now newparent n'' existing).moveName now (parent, n')
          (newparent, n'') ino).nameCount i =
          (db.dropName now newparent n'' existing).nameCount i :=
        nameCount_moveName (Db.dropName_lookup_other hino hexisting hne)
          (Db.dropName_lookup_self ..)
      rw [LastNameGoes, hnames]
      exact attr_dropName hexisting
  | setxattr ino name value flags =>
    obtain ⟨n', x, hn, -, -, -, -, hx, -, -, rfl⟩ := h
    refine (keepsNames_of_dentries rfl).attr ((Db.attr_insert hx).trans ?_)
    simp only [Attrs.request, hn, Option.some.injEq, Prod.mk.injEq, eq_comm]
  | removexattr ino name =>
    obtain ⟨n', x, hn, hx, -, rfl⟩ := h
    refine (keepsNames_of_dentries rfl).attr ((Db.attr_erase hx).trans ?_)
    simp only [Attrs.request, hn, Option.some.injEq, Prod.mk.injEq, eq_comm]
  | _ =>
    obtain rfl : db' = db := h
    refine (keepsNames_of_dentries rfl).attr ?_
    exact (Attrs.request_other (by simp) (by simp) id).symm

theorem effect_of_performed {env : Env} {req : Request} (h : Performed env req db) :
    Effect env.mount env.now req db (step env req db).2 := by
  rcases step_effect env req db with ⟨⟨e, he⟩, hsame⟩ | heffect
  · rcases h with ⟨a, ha⟩ | hne
    · rw [ha] at he
      cases he
    · exact (hne hsame).elim
  · exact heffect

/-- One step keeps the table and the map equal. -/
theorem attr_step (env : Env) (req : Request) (db : Db) :
    (step env req db).2.attr = Attrs.next db.attr env req db := by
  funext i n
  unfold Attrs.next
  by_cases hdone : Performed env req db
  · rw [if_pos hdone]
    exact (effect_of_performed hdone).attr
  · rw [if_neg hdone]
    have hsame : (step env req db).2 = db := by
      by_contra hne
      exact hdone (.inr hne)
    rw [hsame]

end Follows

theorem XattrRun.attr {db : Db} {attrs : Attrs} (h : XattrRun db attrs) : db.attr = attrs := by
  induction h with
  | new now uid gid => rfl
  | @step db attrs env req _ _ _ ih => rw [attr_step, ih]

/-! ## What the table holds -/

/-- What `setxattr` lets into the table: names that can be listed, and values that are not too
long. -/
def Attrs.Valid (attrs : Attrs) : Prop :=
  ∀ i n v, attrs i n = some v → 0 ∉ n.toUTF8.toList ∧ v.length ≤ xattrSizeMax

theorem OsStr.bytes_eq {name : OsStr} {n : String} (h : name.toStr = some n) :
    n.toUTF8 = name.bytes := by
  unfold toStr String.fromUTF8? at h
  split at h
  · cases h
    rfl
  · cases h

theorem Attrs.Valid.next {attrs : Attrs} (h : attrs.Valid) {env : Env} {req : Request} {db : Db}
    (hnul : NoNul req) : (attrs.next env req db).Valid := by
  intro i n v hv
  unfold Attrs.next at hv
  split_ifs at hv with hdone hlast
  · cases req with
    | setxattr ino name value flags =>
      unfold Attrs.request at hv
      dsimp only at hv
      split_ifs at hv with hset
      · obtain ⟨n', x, hn, -, -, hlen, -⟩ := effect_of_performed hdone
        cases hv
        exact ⟨by rw [OsStr.bytes_eq hset.2]; exact hnul, hlen⟩
      · exact h i n v hv
    | removexattr ino name =>
      unfold Attrs.request at hv
      dsimp only at hv
      split_ifs at hv
      exact h i n v hv
    | _ =>
      unfold Attrs.request at hv
      dsimp only at hv
      split_ifs at hv
      exact h i n v hv
  · exact h i n v hv

theorem XattrRun.valid {db : Db} {attrs : Attrs} (h : XattrRun db attrs) : attrs.Valid := by
  induction h with
  | new now uid gid =>
    intro i n v hv
    cases hv
  | step env req _ _ hnul ih => exact ih.next hnul

/-! ## What the queries answer -/

/-- The size protocol: with size 0 the length, otherwise the bytes if they fit. -/
def sizeReply (size : ℕ) (bytes : List UInt8) : Reply :=
  if size = 0 then .ok (.xattrSize bytes.length)
  else if size < bytes.length then .error (.error .erange)
  else .ok (.xattrData bytes)

/-- Every name ends at a NUL. -/
def nulTerminated (names : List String) : List UInt8 :=
  names.flatMap fun n => n.toUTF8.toList ++ [0]

section Queries

variable {db : Db} {fs : ℕ → Option SqlError} {ino : Ino} {x : Table (Ino × String) (List UInt8)}

theorem run_replyXattr {size n : ℕ} {bytes : List UInt8} (hlen : bytes.length < 2 ^ 32) :
    ((replyXattr size bytes).run fs n db).val = sizeReply size bytes := by
  unfold replyXattr sizeReply
  rw [Nat.mod_eq_of_lt hlen]
  split_ifs <;> rfl

theorem splitOn_nulTerminated {names : List String} (h : ∀ n ∈ names, 0 ∉ n.toUTF8.toList) :
    (nulTerminated names).splitOn 0 = names.map (fun n => n.toUTF8.toList) ++ [[]] := by
  induction names with
  | nil => rfl
  | cons n names ih =>
    have hn : (0 : UInt8) ∉ n.toUTF8.toList := h n List.mem_cons_self
    have hrest := ih fun n' hn' => h n' (List.mem_cons_of_mem _ hn')
    show (n.toUTF8.toList ++ [0] ++ nulTerminated names).splitOn 0 = _
    rw [List.append_assoc, List.singleton_append, List.splitOn_append_cons_self_of_not_mem hn, hrest]
    rfl

theorem run_fetchNames (hfs : ∀ k, fs k = none) (names : List String) (n : ℕ) :
    (fetchNames names).run fs n db = ⟨.ok (nulTerminated names), n + names.length, db⟩ := by
  induction names generalizing n with
  | nil => rfl
  | cons name names ih =>
    have hquery : (query fun _ => .ok name : Sql String).run fs n db = ⟨.ok name, n + 1, db⟩ :=
      run_query_of_ok (hfs n) rfl
    rw [fetchNames, run_bind_of_ok hquery, run_bind_of_ok (ih (n + 1)), run_pure]
    have hlen : n + 1 + names.length = n + (name :: names).length := by
      rw [List.length_cons]
      omega
    rw [hlen, nulTerminated, nulTerminated, List.flatMap_cons, List.append_assoc]
    rfl

/-- The names of the attributes of an inode, each once and in order. -/
theorem xattrNames_ok (hx : db.xattrs = some x) :
    ∃ names : List String, db.xattrNames ino = .ok names ∧ names.Pairwise (· ≤ ·) ∧
      names.Nodup ∧ ∀ n, n ∈ names ↔ db.attr ino n ≠ none := by
  refine ⟨_, by rw [Db.xattrNames, hx], List.pairwise_insertionSort _ _, ?_, fun n => ?_⟩
  · rw [(List.perm_insertionSort _ _).nodup_iff]
    refine x.nodupKeys.filterMap fun k k' n hk hk' => ?_
    simp only [Option.mem_def, Option.ite_none_right_eq_some, Option.some.injEq] at hk hk'
    exact Prod.ext (hk.1.trans hk'.1.symm) (hk.2.trans hk'.2.symm)
  · rw [(List.perm_insertionSort _ _).mem_iff, List.mem_filterMap]
    have hattr : db.attr ino n = x.lookup (ino, n) := by
      rw [Db.attr, hx]
      rfl
    rw [hattr, ne_eq, AList.lookup_eq_none, not_not]
    constructor
    · rintro ⟨k, hk, hn⟩
      simp only [Option.ite_none_right_eq_some, Option.some.injEq] at hn
      obtain ⟨rfl, rfl⟩ := hn
      exact hk
    · intro hmem
      exact ⟨(ino, n), hmem, if_pos rfl⟩

theorem val_listxattr {m : Mount} {names : List String} (hm : m.hasXattrs = true)
    (hfs : ∀ k, fs k = none) (hnames : db.xattrNames ino = .ok names)
    (hlen : (nulTerminated names).length < 2 ^ 32) (size : ℕ) :
    ((listxattr m ino size).run fs 0 db).val = sizeReply size (nulTerminated names) := by
  have hquery : (orEio (query fun db : Db => db.xattrNames ino)).run fs 0 db =
      ⟨.ok names, 1, db⟩ := run_orErrno_of_ok (run_query_of_ok (hfs 0) hnames)
  have hfetch : (orEio (fetchNames names)).run fs 1 db =
      ⟨.ok (nulTerminated names), 1 + names.length, db⟩ :=
    run_orErrno_of_ok (run_fetchNames hfs names 1)
  rw [listxattr, if_pos hm, run_bind_of_ok hquery, run_bind_of_ok hfetch, run_replyXattr hlen]

/-- What `getxattr` answers about a value. -/
def valueReply (size : ℕ) : Option (List UInt8) → Reply
  | some v => sizeReply size v
  | none => .error (.error .enodata)

theorem val_getxattr {m : Mount} {name : OsStr} {n : String} (hm : m.hasXattrs = true)
    (hfs : fs 0 = none) (hx : db.xattrs = some x) (hn : name.toStr = some n)
    (hlen : ∀ v, db.attr ino n = some v → v.length ≤ xattrSizeMax) (size : ℕ) :
    ((getxattr m ino name size).run fs 0 db).val = valueReply size (db.attr ino n) := by
  have hname : (orRefuse name.toStr .einval : Call String).run fs 0 db = ⟨.ok n, 0, db⟩ := by
    rw [hn]
    rfl
  have hhas : (refuseIf (!m.hasXattrs) .enodata).run fs 0 db = ⟨.ok (), 0, db⟩ := by
    rw [hm]
    rfl
  have hattr : db.xattr ino n = .ok (db.attr ino n) := by
    rw [Db.xattr, Db.attr, hx]
    rfl
  have hquery : (orEio (query fun db : Db => db.xattr ino n)).run fs 0 db =
      ⟨.ok (db.attr ino n), 1, db⟩ := run_orErrno_of_ok (run_query_of_ok hfs hattr)
  rw [getxattr, run_bind_of_ok hname, run_bind_of_ok hhas, run_bind_of_ok hquery]
  cases hv : db.attr ino n with
  | none => rfl
  | some v =>
    have hv' := hlen v hv
    have hshort : v.length < 2 ^ 32 := by
      rw [xattrSizeMax] at hv'
      omega
    have hvalue : (orRefuse (some v) .enodata : Call (List UInt8)).run fs 1 db = ⟨.ok v, 1, db⟩ :=
      rfl
    rw [run_bind_of_ok hvalue, run_replyXattr hshort]
    rfl

end Queries

/-! ## What setxattr refuses -/

/-- The flags or the limits forbid it to set the attribute. -/
def Attrs.Refuses (attrs : Attrs) (ino : Ino) (n : String) (value : List UInt8)
    (flags : XattrFlags) : Prop :=
  (flags.create = true ∧ attrs ino n ≠ none) ∨ (flags.replace = true ∧ attrs ino n = none) ∨
    xattrNameMax < n.utf8ByteSize ∨ xattrSizeMax < value.length

theorem Attrs.Refuses.not_effect {db db' : Db} {m : Mount} {now : F64} {ino : Ino} {name : OsStr}
    {n : String} {value : List UInt8} {flags : XattrFlags}
    (h : Attrs.Refuses db.attr ino n value flags) (hn : name.toStr = some n) :
    ¬ Effect m now (.setxattr ino name value flags) db db' := by
  rintro ⟨n', x, hn', -, hname, hvalue, -, hx, hcreate, hreplace, -⟩
  obtain rfl := Option.some.inj (hn'.symm.trans hn)
  have hattr : db.attr ino n' = x.lookup (ino, n') := by
    rw [Db.attr, hx]
    rfl
  unfold Attrs.Refuses at h
  rw [hattr] at h
  rcases h with ⟨hflag, hset⟩ | ⟨hflag, hunset⟩ | hlong | hlarge
  · exact hset (hcreate hflag)
  · exact hreplace hflag hunset
  · omega
  · omega

/-! ## The result -/

/-- The requests about attributes see `attrs`. -/
structure XattrsRight (attrs : Attrs) (db : Db) : Prop where
  get : ∀ env ino name n size, env.mount.hasXattrs = true → env.fails 0 = none →
    name.toStr = some n →
    (step env (.getxattr ino name size) db).1 = valueReply size (attrs ino n)
  get_invalid : ∀ env ino name size, name.toStr = none →
    (step env (.getxattr ino name size) db).1 = .error (.error .einval)
  list : ∀ env ino, env.mount.hasXattrs = true → (∀ k, env.fails k = none) →
    ∃ (names : List String) (bytes : List UInt8), names.Nodup ∧
      (∀ n, n ∈ names ↔ attrs ino n ≠ none) ∧
      bytes.splitOn 0 = names.map (fun n => n.toUTF8.toList) ++ [[]] ∧
      (bytes.length < 2 ^ 32 → ∀ size,
        (step env (.listxattr ino size) db).1 = sizeReply size bytes)
  refused : ∀ env ino name n value flags, name.toStr = some n →
    attrs.Refuses ino n value flags →
    (∃ e, (step env (.setxattr ino name value flags) db).1 = .error (.error e)) ∧
      (step env (.setxattr ino name value flags) db).2 = db
  gone : ∀ ino, ino ∉ db.inodes → ∀ n, attrs ino n = none

/-- **Extended attributes follow their inode**: after every run, whatever failed in it, the
requests about attributes see the map that the requests of the run have built. -/
theorem xattrs_right {db : Db} {attrs : Attrs} (h : XattrRun db attrs) :
    XattrsRight attrs db := by
  obtain ⟨x, hx⟩ := h.reachable.exists_xattrs
  have hattrs := h.attr
  have hvalid := h.valid
  subst hattrs
  constructor
  case get =>
    intro env ino name n size hm hfs hn
    exact val_getxattr hm hfs hx hn (fun v hv => (hvalid ino n v hv).2) size
  case get_invalid =>
    intro env ino name size hn
    have hname : (orRefuse name.toStr .einval : Call String).run env.fails 0 db =
        ⟨.error (.error .einval), 0, db⟩ := by
      rw [hn]
      rfl
    show ((getxattr env.mount ino name size).run env.fails 0 db).val = _
    rw [getxattr, run_bind_of_error hname]
  case list =>
    intro env ino hm hfs
    obtain ⟨names, hnames, -, hnodup, hmem⟩ := @xattrNames_ok db ino x hx
    have hnul (n : String) (hn : n ∈ names) : 0 ∉ n.toUTF8.toList := by
      obtain ⟨v, hv⟩ := Option.ne_none_iff_exists'.1 ((hmem n).1 hn)
      exact (hvalid ino n v hv).1
    exact ⟨names, nulTerminated names, hnodup, hmem, splitOn_nulTerminated hnul,
      fun hlen size => val_listxattr hm hfs hnames hlen size⟩
  case refused =>
    intro env ino name n value flags hn hrefuses
    rcases step_effect env (.setxattr ino name value flags) db with ⟨⟨e, he⟩, hsame⟩ | heffect
    · refine ⟨?_, hsame⟩
      cases e with
      | error e => exact ⟨e, he⟩
      | panic =>
        have hy := step_yields env (.setxattr ino name value flags) db
        rw [he] at hy
        exact (panicless_setxattr _ _ hy).elim
    · exact (hrefuses.not_effect hn heffect).elim
  case gone =>
    intro ino hino n
    by_contra hne
    obtain ⟨v, hv⟩ := Option.ne_none_iff_exists'.1 hne
    have hlookup : x.lookup (ino, n) = some v := by
      rw [Db.attr, hx] at hv
      exact hv
    exact hino (h.reachable.treeInv.xattrs_owned x ino n hx (AList.mem_of_lookup_eq_some hlookup))

/-- The root of a new container is given an attribute. -/
theorem xattrs_right_root :
    XattrsRight
      (Attrs.next (fun _ _ => none) (.quiet .plain 0) (.setxattr rootIno nameA [1] {})
        (.created 0 0 0))
      (step (.quiet .plain 0) (.setxattr rootIno nameA [1] {}) (.created 0 0 0)).2 := by
  have hnul : NoNul (.setxattr rootIno nameA [1] {}) := by
    show 0 ∉ nameA.bytes.toList
    decide +kernel
  exact xattrs_right (.step _ _ (.new 0 0 0) trivial hnul)

/-- A name that is not UTF-8. -/
def nameInvalid : OsStr := ⟨⟨#[0xff]⟩, by decide⟩

/-- **A name that is not UTF-8 is not answered as one that was never set**: `EINVAL`. -/
theorem getxattr_invalid_name : ¬ ∀ db attrs env ino name size, XattrRun db attrs →
    env.mount.hasXattrs = true → env.fails 0 = none →
    (step env (.getxattr ino name size) db).1 =
      valueReply size (name.toStr.bind fun n => attrs ino n) := by
  intro h
  have hright := h (.created 0 0 0) _ (.quiet .plain 0) rootIno nameInvalid 0 (.new 0 0 0) rfl rfl
  have hinvalid : nameInvalid.toStr = none := by decide +kernel
  have hreply : (step (.quiet .plain 0) (.getxattr rootIno nameInvalid 0) (.created 0 0 0)).1 =
      .error (.error .einval) := by
    decide +kernel
  rw [hreply, hinvalid] at hright
  cases hright

end CofferFS
