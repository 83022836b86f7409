import CofferFS.Lib.Cache
import CofferFS.Rename
import CofferFS.Walk
import CofferFS.Xattrs

/-!
# What the kernel may keep

`TTL` lets the kernel keep for a second what a reply told it: the attributes of an inode, and which
inode a name denotes. `cache_coherent` says why that is sound. Over any run of requests, in any
environments, a kernel that forgets no more than the inodes and names a request is about never has
an attribute that `getattr` would not answer now, or a name under which `lookup` would find another
inode now.

Two things make it so. A request changes what is reported of no other inodes, `Effect.rowByIno`;
and the attributes in a reply are those that the inode has when the reply is sent,
`current_of_answer`.
-/

namespace CofferFS

open Script

variable {db db' : Db} {m : Mount} {now : F64} {env : Env} {req : Request} {a : Answer} {i : Ino}

/-! ## What a request is about -/

namespace Request

/-- The inodes whose attributes a request may change. -/
def About (db : Db) : Request → Ino → Prop
  | .setattr _ ino _, i | .write ino _ _ _, i | .setxattr ino _ _ _, i | .removexattr ino _, i =>
    i = ino
  | .mkdir parent _ _, i | .create parent _ _, i | .symlink parent _ _, i => i = parent
  | .link ino newparent _, i => i = ino ∨ i = newparent
  | .unlink parent name, i | .rmdir parent name, i => i = parent ∨ db.Names parent name i
  | .rename parent _ newparent newname _, i =>
    i = parent ∨ i = newparent ∨ db.Names newparent newname i
  | _, _ => False

/-- The names that may denote something else afterwards. -/
def Unnames : Request → Ino × OsStr → Prop
  | .unlink parent name, k | .rmdir parent name, k => k = (parent, name)
  | .rename parent name newparent newname _, k => k = (parent, name) ∨ k = (newparent, newname)
  | _, _ => False

/-- The name that the reply to a request is about. -/
def entry : Request → Option (Ino × OsStr)
  | .lookup parent name | .mkdir parent name _ | .create parent name _ | .symlink parent name _
  | .link _ parent name => some (parent, name)
  | _ => none

end Request

/-- The attributes in a reply. -/
def Answer.attr? : Answer → Option FileAttr
  | .entry _ x _ | .attr _ x | .created _ x _ _ => some x
  | _ => none

/-- These are the attributes of the inode. -/
def Db.Reports (db : Db) (i : Ino) (attr : FileAttr) : Prop :=
  ∃ row, db.rowByIno i = some row ∧ toAttr i row = some attr

/-! ## Other inodes keep their attributes -/

theorem rowByIno_of_own (h : db'.own i = db.own i) : db'.rowByIno i = db.rowByIno i := by
  have hrow : db'.inodes.lookup i = db.inodes.lookup i := congrArg Own.row h
  have hnames : db'.nameCount i = db.nameCount i := congrArg Own.names h
  have hmap (r : Inode) : db'.mapRow i r = db.mapRow i r := by
    rw [Db.mapRow, Db.mapRow, hnames]
  rw [Db.rowByIno, Db.rowByIno, hrow]
  exact congrArg (Option.map · (db.inodes.lookup i)) (funext hmap)

theorem RenameEffect.own_of_not_about {parent newparent : Ino} {name newname : OsStr}
    {flags : RenameFlags} (h : RenameEffect now parent name newparent newname flags db db')
    (hi : ¬ (Request.rename parent name newparent newname flags).About db i) :
    db'.own i = db.own i := by
  obtain ⟨hparent, hi⟩ := not_or.1 hi
  obtain ⟨hnewparent, htarget⟩ := not_or.1 hi
  cases h with
  | sameName => rw [Db.own_touch, if_neg hnewparent, Db.own_touch, if_neg hparent]
  | freeName hn hn' hino _ _ hfree => exact own_moveName hino hfree hparent hnewparent
  | @replaced n n' ino existing hn hn' hino _ _ _ hexisting hne =>
    have hother : i ≠ existing := by
      rintro rfl
      exact htarget ⟨n', hn', hexisting⟩
    rw [own_moveName (Db.dropName_lookup_other hino hexisting hne)
      (Db.dropName_lookup_self ..) hparent hnewparent, Db.own_dropName_of_ne hexisting hother,
      if_neg hnewparent]

/-- A request changes nothing about the inodes it is not about. -/
theorem Effect.own_of_not_about (h : Effect m now req db db') (hi : ¬ req.About db i)
    (hmem : i ∈ db.inodes) : db'.own i = db.own i := by
  have hnew : i ≠ db.nextIno := (Db.lt_nextIno hmem).ne
  cases req with
  | setattr caller ino attrs =>
    obtain ⟨row, -, -, rfl⟩ := h
    exact Db.own_apply_of_ne hi
  | mkdir parent name mode =>
    obtain ⟨n, -, hfree, -, rfl⟩ := h
    exact (Db.own_addChild_of_ne hfree hnew).trans (if_neg hi)
  | create parent name mode =>
    obtain ⟨n, -, hfree, -, rfl⟩ := h
    exact (Db.own_addChild_of_ne hfree hnew).trans (if_neg hi)
  | symlink parent name target =>
    obtain ⟨t, -, n, -, hfree, -, rfl⟩ := h
    exact (Db.own_addChild_of_ne hfree hnew).trans (if_neg hi)
  | link ino newparent newname =>
    obtain ⟨n, -, -, hfree, rfl⟩ := h
    obtain ⟨hino, hparent⟩ := not_or.1 hi
    refine (Db.own_updateInode_of_ne hino).trans ?_
    rw [Db.addName, Db.own_touch, if_neg hparent]
    refine (Db.own_insertDentry hfree).trans ?_
    rw [if_neg (Ne.symm hino), zero_add]
    rfl
  | unlink parent name =>
    obtain ⟨n, ino, hn, hino, rfl⟩ := h
    obtain ⟨hparent, hchild⟩ := not_or.1 hi
    have hne : i ≠ ino := fun heq => hchild ⟨n, hn, heq ▸ hino⟩
    rw [Db.own_dropName_of_ne hino hne, if_neg hparent]
  | rmdir parent name =>
    obtain ⟨n, ino, hn, hino, -, -, rfl⟩ := h
    obtain ⟨hparent, hchild⟩ := not_or.1 hi
    have hne : i ≠ ino := fun heq => hchild ⟨n, hn, heq ▸ hino⟩
    rw [Db.own_dropName_of_ne hino hne, if_neg hparent]
  | rename parent name newparent newname flags => exact RenameEffect.own_of_not_about h hi
  | write fh offset data kill =>
    obtain ⟨row, -, -, rfl⟩ := h
    exact Db.own_writeEffect_of_ne hi
  | setxattr ino name value flags =>
    obtain ⟨n, x, -, -, -, -, -, hx, -, -, rfl⟩ := h
    exact Db.own_setxattr_of_ne hx hi
  | removexattr ino name =>
    obtain ⟨n, x, -, hx, -, rfl⟩ := h
    exact Db.own_removexattr_of_ne hx hi
  | _ =>
    obtain rfl : db' = db := h
    rfl

theorem Db.Reports.mem {attr : FileAttr} (h : db.Reports i attr) : i ∈ db.inodes := by
  obtain ⟨row, hrow, -⟩ := h
  obtain ⟨r, hr, -⟩ := Option.map_eq_some_iff.1 hrow
  exact AList.mem_of_lookup_eq_some hr

theorem step_reports {attr : FileAttr} (hi : ¬ req.About db i) (h : db.Reports i attr) :
    (step env req db).2.Reports i attr := by
  rcases step_cases env req db with hsame | heffect
  · rwa [hsame]
  · obtain ⟨row, hrow, hattr⟩ := h
    exact ⟨row, by rw [rowByIno_of_own (heffect.own_of_not_about hi
      (Db.Reports.mem ⟨row, hrow, hattr⟩)), hrow], hattr⟩

/-! ## Names stay -/

theorem OsStr.eq_of_toStr {s s' : OsStr} {n : String} (h : s.toStr = some n)
    (h' : s'.toStr = some n) : s = s' := by
  obtain ⟨bytes, hle⟩ := s
  obtain ⟨bytes', hle'⟩ := s'
  obtain rfl : bytes = bytes' := (bytes_eq h).symm.trans (bytes_eq h')
  rfl

/-- A name stays unless the request takes it away. -/
theorem Effect.lookup_of_not_unnamed (h : Effect m now req db db') {parent : Ino} {name : OsStr}
    {n : String} (hn : name.toStr = some n) (hk : ¬ req.Unnames (parent, name))
    (hi : db.dentries.lookup (parent, n) = some i) : db'.dentries.lookup (parent, n) = some i := by
  -- the names that go are others
  have hother {p : Ino} {s : OsStr} {t : String} (hs : s.toStr = some t)
      (hne : (parent, name) ≠ (p, s)) : (parent, n) ≠ (p, t) := by
    rintro heq
    obtain ⟨rfl, rfl⟩ := Prod.mk.inj heq
    exact hne (by rw [OsStr.eq_of_toStr hn hs])
  have hfree {k : Ino × String} {j : Ino} (hnone : db.dentries.lookup k = none) :
      (db.dentries.insert k j).lookup (parent, n) = some i := by
    rw [AList.lookup_insert_ne, hi]
    rintro rfl
    rw [hnone] at hi
    cases hi
  have hdrop {p : Ino} {t : String} {j : Ino} (hne : (parent, n) ≠ (p, t)) :
      (db.dropName now p t j).dentries.lookup (parent, n) = some i := by
    rw [Db.dropName_dentries, AList.lookup_erase_ne hne, hi]
  cases req with
  | setattr caller ino attrs =>
    obtain ⟨row, -, -, rfl⟩ := h
    rwa [Db.Concerns.apply.dentries]
  | mkdir p s mode =>
    obtain ⟨t, -, hnone, -, rfl⟩ := h
    exact hfree hnone
  | create p s mode =>
    obtain ⟨t, -, hnone, -, rfl⟩ := h
    exact hfree hnone
  | symlink p s target =>
    obtain ⟨_, -, t, -, hnone, -, rfl⟩ := h
    exact hfree hnone
  | link ino p s =>
    obtain ⟨t, -, -, hnone, rfl⟩ := h
    exact hfree hnone
  | unlink p s =>
    obtain ⟨t, ino, ht, -, rfl⟩ := h
    exact hdrop (hother ht hk)
  | rmdir p s =>
    obtain ⟨t, ino, ht, -, -, -, rfl⟩ := h
    exact hdrop (hother ht hk)
  | rename p s p' s' flags =>
    obtain ⟨hold, hnew⟩ := not_or.1 hk
    cases h with
    | sameName => exact hi
    | freeName ht ht' =>
      rw [moveName_dentries, if_neg (hother ht' hnew), if_neg (hother ht hold), hi]
    | replaced ht ht' =>
      rw [moveName_dentries, if_neg (hother ht' hnew), if_neg (hother ht hold),
        hdrop (hother ht' hnew)]
  | write fh offset data kill =>
    obtain ⟨row, -, -, rfl⟩ := h
    rwa [Db.Concerns.writeEffect.dentries]
  | setxattr ino s value flags =>
    obtain ⟨t, x, -, -, -, -, -, hx, -, -, rfl⟩ := h
    rwa [(Db.Concerns.setxattr hx).dentries]
  | removexattr ino s =>
    obtain ⟨t, x, -, hx, -, rfl⟩ := h
    rwa [(Db.Concerns.removexattr hx).dentries]
  | _ =>
    obtain rfl : db' = db := h
    exact hi

theorem step_names {k : Ino × OsStr} (hk : ¬ req.Unnames k) (h : db.Names k.1 k.2 i) :
    (step env req db).2.Names k.1 k.2 i := by
  rcases step_cases env req db with hsame | heffect
  · rwa [hsame]
  · obtain ⟨n, hn, hi⟩ := h
    exact ⟨n, hn, heffect.lookup_of_not_unnamed hn hk hi⟩

/-! ## A reply says what is so -/

/-- No answer of the callback carries attributes. -/
def Attrless (p : Call Answer) : Prop := ∀ db db' a, p.Yields db (.ok a) db' → a.attr? = none

theorem attrless_pure (h : a.attr? = none) : Attrless (pure a) := by
  intro db db' a' hy
  obtain rfl := Except.ok.inj (yields_pure.1 hy).1
  exact h

theorem attrless_refuse (e : Errno) : Attrless (refuse e) := by
  intro db db' a h
  cases (yields_stop.1 h).1

theorem attrless_bind {α : Type} {p : Call α} {k : α → Call Answer} (h : ∀ x, Attrless (k x)) :
    Attrless (p >>= k) := by
  intro db db' a hy
  obtain ⟨x, t, -, hk⟩ := hy.bind_ok
  exact h x t db' a hk

theorem attrless_replyXattr (size : ℕ) (data : List UInt8) : Attrless (replyXattr size data) := by
  unfold replyXattr
  split_ifs
  · exact attrless_pure rfl
  · exact attrless_refuse _
  · exact attrless_pure rfl

/-- What a callback says that ends by reading a row. -/
theorem readBack_reply {k : FileAttr → Answer}
    (h : (do let attr ← readBack i; pure (k attr)).Yields db (.ok a) db') :
    db' = db ∧ ∃ attr, attr.ino = i ∧ db.Reports i attr ∧ a = k attr := by
  obtain ⟨attr, hback, hpure⟩ := h.after readOnly_readBack
  obtain ⟨hanswer, rfl⟩ := yields_pure.1 hpure
  obtain ⟨row, hrow, hattr⟩ := readBack_ok hback
  exact ⟨rfl, attr, ino_of_toAttr hattr, ⟨row, hrow, hattr⟩, (Except.ok.inj hanswer)⟩

theorem lookup_reply {parent : Ino} {name : OsStr}
    (h : (lookup parent name).Yields db (.ok a) db') :
    ∃ attr, db'.Reports attr.ino attr ∧ db'.Names parent name attr.ino ∧ a = .entry ttl attr 0 := by
  obtain ⟨n, hn, h⟩ := h.after (readOnly_orRefuse _ _)
  obtain ⟨o, ho, h⟩ := h.after (readOnly_orEio readOnly_childIno)
  obtain ⟨i, hi, h⟩ := h.after (readOnly_orRefuse _ _)
  obtain ⟨rfl, attr, rfl, hreports, rfl⟩ := readBack_reply h
  have ho := (yields_childIno_ok.1 (yields_orEio_ok.1 ho)).1
  exact ⟨attr, hreports, ⟨n, (yields_orRefuse_ok.1 hn).1,
    ho.symm.trans (yields_orRefuse_ok.1 hi).1⟩, rfl⟩

theorem getattr_reply (h : (getattr i).Yields db (.ok a) db') :
    ∃ attr, attr.ino = i ∧ db'.Reports i attr ∧ a = .attr ttl attr := by
  obtain ⟨row, attr, hrow, hattr, rfl⟩ := getattr_ok h
  obtain rfl := readOnly_getattr _ _ _ _ h
  exact ⟨attr, ino_of_toAttr hattr, ⟨row, hrow, hattr⟩, rfl⟩

theorem setattr_reply {caller : UInt32} {attrs : SetAttr}
    (h : (setattr m now caller i attrs).Yields db (.ok a) db') :
    ∃ attr, attr.ino = i ∧ db'.Reports i attr ∧ a = .attr ttl attr := by
  obtain ⟨_, -, h⟩ := h.after (readOnly_refuseIf _ _)
  obtain ⟨_, db₁, -, h⟩ := h.bind_ok
  obtain ⟨rfl, attr, hino, hreports, rfl⟩ := readBack_reply h
  exact ⟨attr, hino, hreports, rfl⟩

/-- What a callback says that makes an inode. -/
theorem child_reply {f : SqlError → Errno} {body : Call Ino} {k : Ino → FileAttr → Answer}
    {parent : Ino} {name : OsStr} {n : String} {r : Inode} (hn : name.toStr = some n)
    (hbody : ∀ j t, body.Yields db (.ok j) t →
      j = db.nextIno ∧ db.nextIno ≤ i64Max ∧ db.childIno parent n = none ∧
        t = db.addChild now parent n r)
    (h : (do let j ← inTransaction f body; let attr ← readBack j; pure (k j attr)).Yields db
      (.ok a) db') :
    ∃ attr, db'.Reports attr.ino attr ∧ db'.Names parent name attr.ino ∧ a = k attr.ino attr := by
  obtain ⟨j, db₁, htx, h⟩ := h.bind_ok
  obtain ⟨rfl, attr, rfl, hreports, rfl⟩ := readBack_reply h
  obtain ⟨hino, -, -, rfl⟩ := hbody _ _ htx.transaction_ok
  refine ⟨attr, hreports, ⟨n, hn, ?_⟩, rfl⟩
  rw [hino]
  exact AList.lookup_insert _

theorem mkdir_reply {parent : Ino} {name : OsStr} {mode : BitVec 32}
    (h : (mkdir m now parent name mode).Yields db (.ok a) db') :
    ∃ attr, db'.Reports attr.ino attr ∧ db'.Names parent name attr.ino ∧ a = .entry ttl attr 0 := by
  obtain ⟨_, -, h⟩ := h.after (readOnly_refuseIf _ _)
  obtain ⟨n, hn, h⟩ := h.after (readOnly_orRefuse _ _)
  exact child_reply (yields_orRefuse_ok.1 hn).1 (fun _ _ htx => mkdirTx_ok htx) h

theorem create_reply {parent : Ino} {name : OsStr} {mode : BitVec 32}
    (h : (create m now parent name mode).Yields db (.ok a) db') :
    ∃ attr, db'.Reports attr.ino attr ∧ db'.Names parent name attr.ino ∧
      a = .created ttl attr 0 attr.ino := by
  obtain ⟨_, -, h⟩ := h.after (readOnly_refuseIf _ _)
  obtain ⟨n, hn, h⟩ := h.after (readOnly_orRefuse _ _)
  exact child_reply (yields_orRefuse_ok.1 hn).1 (fun _ _ htx => createTx_ok htx) h

theorem symlink_reply {parent : Ino} {linkName target : OsStr}
    (h : (symlink m now parent linkName target).Yields db (.ok a) db') :
    ∃ attr, db'.Reports attr.ino attr ∧ db'.Names parent linkName attr.ino ∧
      a = .entry ttl attr 0 := by
  obtain ⟨_, -, h⟩ := h.after (readOnly_refuseIf _ _)
  obtain ⟨n, hn, h⟩ := h.after (readOnly_orRefuse _ _)
  obtain ⟨t, -, h⟩ := h.after (readOnly_orRefuse _ _)
  exact child_reply (yields_orRefuse_ok.1 hn).1 (fun _ _ htx => symlinkTx_ok htx) h

theorem link_reply {newparent : Ino} {newname : OsStr}
    (h : (link m now i newparent newname).Yields db (.ok a) db') :
    ∃ attr, db'.Reports attr.ino attr ∧ db'.Names newparent newname attr.ino ∧
      a = .entry ttl attr 0 := by
  obtain ⟨_, -, h⟩ := h.after (readOnly_refuseIf _ _)
  obtain ⟨n, hn, h⟩ := h.after (readOnly_orRefuse _ _)
  obtain ⟨attr, db₁, htx, hpure⟩ := h.bind_ok
  obtain ⟨hanswer, rfl⟩ := yields_pure.1 hpure
  have hn := (yields_orRefuse_ok.1 hn).1
  have htx := htx.transaction_ok
  obtain ⟨n', hn', -, -, hdb'⟩ := linkTx_ok (m := m) hn htx
  have hnames : db'.Names newparent newname i := by
    refine ⟨n', hn', ?_⟩
    rw [hdb']
    exact AList.lookup_insert _
  -- the row is read last
  obtain ⟨_, -, htx⟩ := htx.after (readOnly_orEio readOnly_rowByIno)
  obtain ⟨_, -, htx⟩ := htx.after (readOnly_orRefuse _ _)
  obtain ⟨_, -, htx⟩ := htx.after (readOnly_refuseIf _ _)
  obtain ⟨_, -, htx⟩ := htx.after (readOnly_orEio readOnly_childIno)
  obtain ⟨_, -, htx⟩ := htx.after (readOnly_refuseIf _ _)
  obtain ⟨_, _, -, htx⟩ := htx.bind_ok
  obtain ⟨_, _, -, hback⟩ := htx.bind_ok
  obtain ⟨row, hrow, hattr⟩ := readBack_ok hback
  obtain rfl := readBack_store hback
  obtain rfl := ino_of_toAttr hattr
  exact ⟨attr, ⟨row, hrow, hattr⟩, hnames, Except.ok.inj hanswer⟩

/-- **A reply is true when it is sent**: its attributes are the inode's, and the name it is about
denotes that inode. -/
theorem current_of_answer {attr : FileAttr} (h : (step env req db).1 = .ok a)
    (ha : a.attr? = some attr) :
    (step env req db).2.Reports attr.ino attr ∧
      ∀ k, req.entry = some k → (step env req db).2.Names k.1 k.2 attr.ino := by
  have hy := step_yields env req db
  rw [h] at hy
  generalize (step env req db).2 = db' at hy ⊢
  have hnone (hp : Attrless (handle env.mount env.now req)) : False := by
    rw [hp _ _ _ hy] at ha
    cases ha
  have hentry {k : Ino × OsStr} (hreq : req.entry = some k)
      (hnames : db'.Names k.1 k.2 attr.ino) :
      ∀ k, req.entry = some k → db'.Names k.1 k.2 attr.ino := by
    intro k' hk'
    obtain rfl := Option.some.inj (hreq.symm.trans hk')
    exact hnames
  have hnoentry (hreq : req.entry = none) :
      ∀ k, req.entry = some k → db'.Names k.1 k.2 attr.ino := by
    intro k hk
    rw [hreq] at hk
    cases hk
  cases req with
  | lookup parent name =>
    obtain ⟨_, hreports, hnames, rfl⟩ := lookup_reply hy
    cases ha
    exact ⟨hreports, hentry rfl hnames⟩
  | getattr ino =>
    obtain ⟨_, rfl, hreports, rfl⟩ := getattr_reply hy
    cases ha
    exact ⟨hreports, hnoentry rfl⟩
  | setattr caller ino attrs =>
    obtain ⟨_, rfl, hreports, rfl⟩ := setattr_reply hy
    cases ha
    exact ⟨hreports, hnoentry rfl⟩
  | mkdir parent name mode =>
    obtain ⟨_, hreports, hnames, rfl⟩ := mkdir_reply hy
    cases ha
    exact ⟨hreports, hentry rfl hnames⟩
  | create parent name mode =>
    obtain ⟨_, hreports, hnames, rfl⟩ := create_reply hy
    cases ha
    exact ⟨hreports, hentry rfl hnames⟩
  | symlink parent name target =>
    obtain ⟨_, hreports, hnames, rfl⟩ := symlink_reply hy
    cases ha
    exact ⟨hreports, hentry rfl hnames⟩
  | link ino newparent newname =>
    obtain ⟨_, hreports, hnames, rfl⟩ := link_reply hy
    cases ha
    exact ⟨hreports, hentry rfl hnames⟩
  | readlink ino =>
    refine (hnone ?_).elim
    exact attrless_bind fun _ => attrless_bind fun _ => attrless_pure rfl
  | unlink parent name =>
    refine (hnone ?_).elim
    exact attrless_bind fun _ => attrless_bind fun _ => attrless_bind fun _ => attrless_pure rfl
  | rmdir parent name =>
    refine (hnone ?_).elim
    exact attrless_bind fun _ => attrless_bind fun _ => attrless_bind fun _ => attrless_pure rfl
  | rename parent name newparent newname flags =>
    refine (hnone ?_).elim
    exact attrless_bind fun _ => attrless_bind fun _ => attrless_bind fun _ =>
      attrless_bind fun _ => attrless_pure rfl
  | «open» ino flags => exact (hnone (attrless_bind fun _ => attrless_pure rfl)).elim
  | read fh offset size =>
    refine (hnone ?_).elim
    refine attrless_bind fun _ => attrless_bind fun row => ?_
    split_ifs
    · exact attrless_pure rfl
    · exact attrless_bind fun _ => attrless_pure rfl
  | write fh offset data kill =>
    refine (hnone ?_).elim
    exact attrless_bind fun _ => attrless_bind fun _ => attrless_bind fun _ => attrless_pure rfl
  | readdir ino offset room =>
    refine (hnone ?_).elim
    exact attrless_bind fun _ => attrless_bind fun _ => attrless_bind fun _ => attrless_pure rfl
  | statfs =>
    refine (hnone ?_).elim
    refine attrless_bind fun used => ?_
    dsimp only
    split_ifs
    · exact attrless_pure rfl
    · cases env.mount.hostStatvfs <;> exact attrless_pure rfl
  | setxattr ino name value flags =>
    refine (hnone ?_).elim
    exact attrless_bind fun _ => attrless_bind fun _ => attrless_bind fun _ =>
      attrless_bind fun _ => attrless_bind fun _ => attrless_bind fun _ => attrless_pure rfl
  | getxattr ino name size =>
    refine (hnone ?_).elim
    exact attrless_bind fun _ => attrless_bind fun _ => attrless_bind fun _ =>
      attrless_bind fun _ => attrless_replyXattr _ _
  | listxattr ino size =>
    refine (hnone ?_).elim
    unfold handle listxattr
    split_ifs
    · exact attrless_bind fun _ => attrless_bind fun _ => attrless_replyXattr _ _
    · exact attrless_replyXattr _ _
  | removexattr ino name =>
    refine (hnone ?_).elim
    exact attrless_bind fun _ => attrless_bind fun _ => attrless_bind fun _ =>
      attrless_bind fun _ => attrless_pure rfl
  | flush | fsync | release | opendir | access => exact (hnone (attrless_pure rfl)).elim

/-! ## Coherence -/

/-- What the kernel keeps. -/
structure KernelCache where
  attrs : Ino → Option FileAttr
  entries : Ino × OsStr → Option Ino

/-- A run of requests, beside a kernel that keeps what the replies say. -/
inductive CacheRun : Db → KernelCache → Prop
  | new (now : F64) (uid gid : UInt32) :
      CacheRun (.created now uid gid) ⟨fun _ => none, fun _ => none⟩
  | step {db : Db} {c c' : KernelCache} (env : Env) (req : Request) : CacheRun db c →
      Cache.Updated (req.About db)
        (fun i attr => ∃ a, (step env req db).1 = .ok a ∧ a.attr? = some attr ∧ attr.ino = i)
        c.attrs c'.attrs →
      Cache.Updated req.Unnames
        (fun k i => req.entry = some k ∧
          ∃ a attr, (step env req db).1 = .ok a ∧ a.attr? = some attr ∧ attr.ino = i)
        c.entries c'.entries →
      CacheRun (step env req db).2 c'

theorem CacheRun.attrs {c : KernelCache} (h : CacheRun db c) :
    Cache.Coherent db.Reports c.attrs := by
  induction h with
  | new now uid gid => exact Cache.coherent_empty
  | step env req _ hattrs _ ih =>
    refine ih.update hattrs (fun i attr hi hold => step_reports hi hold) ?_
    rintro i attr ⟨a, ha, hattr, rfl⟩
    exact (current_of_answer ha hattr).1

theorem CacheRun.entries {c : KernelCache} (h : CacheRun db c) :
    Cache.Coherent (fun k i => db.Names k.1 k.2 i) c.entries := by
  induction h with
  | new now uid gid => exact Cache.coherent_empty
  | step env req _ _ hentries ih =>
    refine ih.update hentries (fun k i hk hold => step_names hk hold) ?_
    rintro k i ⟨hk, a, attr, ha, hattr, rfl⟩
    exact (current_of_answer ha hattr).2 k hk

theorem runs_readBack_of_reports {attr : FileAttr} (h : db.Reports i attr) :
    (readBack i).Runs db (.ok attr) db := by
  obtain ⟨row, hrow, hattr⟩ := h
  refine Runs.bind runs_rowByIno (Runs.bind (runs_orRefuse_some hrow) ?_)
  rw [hattr]
  exact runs_pure attr

theorem Db.Names.eq {parent : Ino} {name : OsStr} {j : Ino} (h : db.Names parent name i)
    (h' : db.Names parent name j) : i = j := by
  obtain ⟨n, hn, hi⟩ := h
  obtain ⟨n', hn', hj⟩ := h'
  obtain rfl : n = n' := Option.some.inj (hn.symm.trans hn')
  exact Option.some.inj (hi.symm.trans hj)

/-- A lookup answers what `getattr` does for the inode of the name. -/
theorem step_lookup_of_getattr {parent : Ino} {name : OsStr} {attr : FileAttr}
    (hname : db.Names parent name i)
    (h : step (.quiet m now) (.getattr i) db = (.ok (.attr ttl attr), db)) :
    step (.quiet m now) (.lookup parent name) db = (.ok (.entry ttl attr 0), db) := by
  have hy := step_yields (.quiet m now) (.getattr i) db
  rw [h] at hy
  obtain ⟨attr', -, hreports, hanswer⟩ := getattr_reply hy
  cases hanswer
  obtain ⟨n, hn, hino⟩ := hname
  exact step_quiet (Runs.bind (runs_orRefuse_some hn) (Runs.bind (Runs.mapError_ok runs_childIno)
    (Runs.bind (runs_orRefuse_some hino)
      (Runs.bind (runs_readBack_of_reports hreports) (runs_pure _)))))

/-- **What the kernel keeps is what the file system would answer**: `getattr` answers the
attributes, and `lookup` finds the inode of the name if it answers at all, with what `getattr`
answers for it. -/
theorem cache_coherent {c : KernelCache} (h : CacheRun db c) :
    (∀ i attr, c.attrs i = some attr →
      step (.quiet m now) (.getattr i) db = (.ok (.attr ttl attr), db)) ∧
    ∀ parent name i, c.entries (parent, name) = some i →
      (∀ env a, (step env (.lookup parent name) db).1 = .ok a →
        ∃ attr, attr.ino = i ∧ a = .entry ttl attr 0) ∧
      ∀ attr, step (.quiet m now) (.getattr i) db = (.ok (.attr ttl attr), db) →
        step (.quiet m now) (.lookup parent name) db = (.ok (.entry ttl attr 0), db) := by
  constructor
  · intro i attr hi
    obtain ⟨row, hrow, hattr⟩ := h.attrs i attr hi
    refine step_quiet (Runs.bind runs_rowByIno (Runs.bind (runs_orRefuse_some hrow) ?_))
    rw [hattr]
    exact runs_pure _
  · intro parent name i hk
    have hname : db.Names parent name i := h.entries (parent, name) i hk
    refine ⟨fun env a ha => ?_, fun attr => step_lookup_of_getattr hname⟩
    have hy := step_yields env (.lookup parent name) db
    rw [ha] at hy
    rw [readOnly_lookup _ _ _ _ _ hy] at hy
    obtain ⟨attr, -, hfound, rfl⟩ := lookup_reply hy
    exact ⟨attr, hfound.eq hname, rfl⟩

open Classical in
theorem cache_coherent_oneFile : ∃ attr : FileAttr, attr.ino = 2 ∧
    step (.quiet .plain 1) (.lookup rootIno nameA) .oneFile =
      (.ok (.entry ttl attr 0), .oneFile) := by
  let attr : FileAttr :=
    { ino := 2, size := 0, blocks := 0, atime := .unixEpoch, mtime := .unixEpoch
      ctime := .unixEpoch, crtime := .unixEpoch, kind := .regularFile, perm := 0o644, nlink := 1
      uid := 0, gid := 0, rdev := 0, blksize := 4096, flags := 0 }
  have hreply : (step (.quiet .plain 0) (.create rootIno nameA 0o644) (.created 0 0 0)).1 =
      .ok (.created ttl attr 0 2) := by
    decide +kernel
  let c : KernelCache := ⟨fun i => if i = 2 then some attr else none,
    fun k => if k = (rootIno, nameA) then some 2 else none⟩
  have hrun : CacheRun .oneFile c := by
    refine .step (.quiet .plain 0) (.create rootIno nameA 0o644) (.new 0 0 0) ?_ ?_
    · intro i x hx
      obtain ⟨rfl, rfl⟩ : i = 2 ∧ attr = x := by simpa [c, ite_eq_iff] using hx
      exact Or.inr ⟨_, hreply, rfl, rfl⟩
    · intro k i hi
      obtain ⟨rfl, rfl⟩ : k = (rootIno, nameA) ∧ 2 = i := by simpa [c, ite_eq_iff] using hi
      exact Or.inr ⟨rfl, _, _, hreply, rfl, rfl⟩
  have hattr := (@cache_coherent _ .plain 1 c hrun).1 2 attr (by simp [c])
  exact ⟨attr, rfl, ((cache_coherent hrun).2 rootIno nameA 2 (by simp [c])).2 attr hattr⟩

end CofferFS
