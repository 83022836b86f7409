import CofferFS.Identity
import CofferFS.Refusals

/-!
# What is answered

The other direction of `Refused`: who is answered had no reason to be refused, whatever failed
meanwhile, `answered_unrefused`. The one exception is the ceiling, which is not looked at when the
sum over the sizes cannot be read.
-/

namespace CofferFS

open Script

variable {m : Mount} {now : F64} {db : Db} {env : Env} {req : Request} {e : Errno} {a : Answer}

/-- What has happened when a request is answered. -/
theorem effect_of_answer (h : (step env req db).1 = .ok a) :
    Effect env.mount env.now req db (step env req db).2 := by
  rcases step_effect env req db with ⟨⟨e, he⟩, -⟩ | heffect
  · rw [h] at he
    cases he
  · exact heffect

theorem Db.Names.childIno_eq {parent i : Ino} {name : OsStr} {n : String}
    (h : db.Names parent name i) (hn : name.toStr = some n) : db.childIno parent n = some i := by
  obtain ⟨n', hn', hi⟩ := h
  obtain rfl := Option.some.inj (hn.symm.trans hn')
  exact hi

/-! ## Callbacks that only read -/

theorem read_ok {i : Ino} {offset size : ℕ} {db' : Db}
    (h : (read i offset size).Yields db (.ok a) db') : ∃ row, db.rowByIno i = some row := by
  obtain ⟨o, hrow, h⟩ := h.after (readOnly_orEio readOnly_rowByIno)
  obtain ⟨row, hsome, -⟩ := h.after (readOnly_orRefuse _ _)
  have hrow := (yields_rowByIno_ok.1 (yields_orEio_ok.1 hrow)).1
  exact ⟨row, hrow.symm.trans (yields_orRefuse_ok.1 hsome).1⟩

/-- A directory that is listed is the root, or has a name. -/
theorem readdir_ok {i : Ino} {offset room : ℕ} {db' : Db}
    (h : (readdir i offset room).Yields db (.ok a) db') :
    i = rootIno ∨ ∃ k, db.dentries.lookup k = some i := by
  obtain ⟨p, hparent, -⟩ := h.after (readOnly_parentIno i)
  unfold parentIno at hparent
  split_ifs at hparent with hroot
  · exact Or.inl hroot
  · have hfound := (yields_query_ok.1 (yields_orErrno_ok.1 hparent)).1
    unfold Db.parentOf at hfound
    split at hfound
    · rename_i e he
      have hi : e.2 = i := by simpa using List.find?_some he
      exact Or.inr ⟨e.1, AList.mem_entries_iff.1 (hi ▸ List.mem_of_find?_eq_some he)⟩
    · cases hfound

theorem replyXattr_ok {size : ℕ} {bytes : List UInt8} {db' : Db}
    (h : (replyXattr size bytes).Yields db (.ok a) db') : size ≠ 0 → bytes.length ≤ size := by
  unfold replyXattr at h
  split_ifs at h with hsize hlong
  · exact fun hne => (hne hsize).elim
  · exact (yields_refuse_ok.1 h).elim
  · exact fun _ => not_lt.1 hlong

theorem getxattr_ok {x : Table (Ino × String) (List UInt8)} (hx : db.xattrs = some x) {i : Ino}
    {name : OsStr} {size : ℕ} {db' : Db}
    (h : (getxattr m i name size).Yields db (.ok a) db') :
    m.hasXattrs = true ∧ ∃ n v, name.toStr = some n ∧ db.attr i n = some v ∧
      (size ≠ 0 → v.length ≤ size) := by
  obtain ⟨n, hn, h⟩ := h.after (readOnly_orRefuse _ _)
  obtain ⟨_, hm, h⟩ := h.after (readOnly_refuseIf _ _)
  obtain ⟨value, hvalue, h⟩ := h.after (readOnly_orEio (readOnly_query _))
  obtain ⟨v, hv, hreply⟩ := h.after (readOnly_orRefuse _ _)
  have hvalue := (yields_query_ok.1 (yields_orEio_ok.1 hvalue)).1
  have hattr : db.attr i n = value := Except.ok.inj ((xattr_eq hx n).symm.trans hvalue)
  exact ⟨by simpa using (yields_refuseIf_ok.1 hm).1, n, v, (yields_orRefuse_ok.1 hn).1,
    hattr.trans (yields_orRefuse_ok.1 hv).1, replyXattr_ok hreply⟩

theorem listxattr_ok {i : Ino} {size : ℕ} {names : List String} {db' : Db}
    (h : (listxattr m i size).Yields db (.ok a) db') (hm : m.hasXattrs = true)
    (hnames : db.xattrNames i = .ok names) (hsize : size ≠ 0) :
    (nulTerminated names).length ≤ size := by
  rw [listxattr, if_pos hm] at h
  obtain ⟨names', hquery, h⟩ := h.after (readOnly_orEio (readOnly_query _))
  obtain ⟨out, hout, hreply⟩ := h.after (readOnly_orEio (readOnly_fetchNames _))
  have hquery := (yields_query_ok.1 (yields_orEio_ok.1 hquery)).1
  have hsame : names = names' := Except.ok.inj (hnames.symm.trans hquery)
  rw [hsame, ← fetchNames_ok (yields_orEio_ok.1 hout)]
  exact replyXattr_ok hreply hsize

/-- Without a table for attributes, nothing about one is answered. -/
theorem hasXattrs_of_answer {x : Table (Ino × String) (List UInt8)} (hx : db.xattrs = some x)
    {e : Errno} {db' : Db} (hreq : req.attrErrno = some e)
    (h : (handle m now req).Yields db (.ok a) db') : m.hasXattrs = true := by
  have hseen {c : Bool} {e : Errno} {u : Unit} {db' : Db}
      (hcheck : (refuseIf (!c) e).Yields db (.ok u) db') : c = true := by
    simpa using (yields_refuseIf_ok.1 hcheck).1
  cases req with
  | setxattr ino name value flags =>
    obtain ⟨_, -, h⟩ := h.after (readOnly_refuseIf _ _)
    obtain ⟨_, hm, -⟩ := h.after (readOnly_refuseIf _ _)
    exact hseen hm
  | getxattr ino name size => exact (getxattr_ok hx h).1
  | removexattr ino name =>
    obtain ⟨_, -, h⟩ := h.after (readOnly_refuseIf _ _)
    obtain ⟨_, -, h⟩ := h.after (readOnly_orRefuse _ _)
    obtain ⟨_, hm, -⟩ := h.after (readOnly_refuseIf _ _)
    exact hseen hm
  | _ => cases hreq

/-! ## The ceiling -/

theorem runs_create_full {parent : Ino} {name : OsStr} {mode : BitVec 32} (hmax : m.maxSize ≠ 0)
    (hfull : notFull m db = false) :
    ∃ e, (create m now parent name mode).Runs db (.error e) db := by
  cases hro : m.readOnly with
  | true => exact ⟨_, (runs_refuseIf_true hro).bind_error⟩
  | false =>
    cases hn : name.toStr with
    | none =>
      exact ⟨_, Runs.bind (runs_refuseIf_false hro) (runs_orRefuse_none hn).bind_error⟩
    | some n =>
      have htx : ∃ e, (createTx m now parent n mode).Runs db (.error e) db := by
        have hchild : (orEio (childIno parent n)).Runs db (.ok (db.childIno parent n)) db :=
          Runs.mapError_ok runs_childIno
        cases hname : (db.childIno parent n).isSome with
        | true => exact ⟨_, Runs.bind hchild (runs_refuseIf_true hname).bind_error⟩
        | false =>
          have hcheck : (checkFull m).Runs db (.error (.error .enospc)) db := by
            intro k
            refine ⟨k + 1, ?_⟩
            rw [checkFull_eq, if_pos hmax, run_sumCheck]
            rw [notFull] at hfull
            simp [hfull, noFailure]
          exact ⟨_, Runs.bind hchild (Runs.bind (runs_refuseIf_false hname) hcheck.bind_error)⟩
      obtain ⟨e, htx⟩ := htx
      exact ⟨e, Runs.bind (runs_refuseIf_false hro) (Runs.bind (runs_orRefuse_some hn)
        htx.transaction_error.bind_error)⟩

/-- With every statement executed, what is answered fits under the ceiling. -/
theorem fits_of_answer (hdb : Reachable db) (hle : db.totalSize ≤ i64Max) (hmax : m.maxSize ≠ 0)
    (h : (step (.quiet m now) req db).1 = .ok a) {k : ℕ} (hk : req.room db = some k) :
    db.totalSize + k ≤ m.maxSize := by
  have hs := hdb.storeInv
  have heffect := effect_of_answer h
  by_contra hover
  cases req with
  | create parent name mode =>
    cases hk
    have hfull : notFull m db = false := by
      rw [Bool.eq_false_iff, ne_eq, notFull_iff hs hle]
      omega
    obtain ⟨e, hrun⟩ := @runs_create_full m now db parent name mode hmax hfull
    rw [@step_quiet m now (.create parent name mode) db db _ hrun] at h
    cases h
  | symlink parent name target =>
    cases hk
    obtain ⟨t, ht, n, -, -, -, hdb'⟩ := heffect
    have hfull : ceilingFits m t.utf8ByteSize db = false := by
      rw [Bool.eq_false_iff, ne_eq, ceilingFits_iff hs hle (OsStr.utf8ByteSize_le ht)]
      rwa [Request.growth, ht] at hover
    rw [step_symlink_full ht hmax hfull] at hdb'
    -- nothing is new
    have hnew : db.nextIno ∈ db.inodes := by
      have hmem := @mem_addChild db now parent n
        (Db.newInode now .symlink (sIfLnk ||| 0o777) m.uid m.gid (some t))
      change db = db.addChild now parent n
        (Db.newInode now .symlink (sIfLnk ||| 0o777) m.uid m.gid (some t)) at hdb'
      rwa [← hdb'] at hmem
    exact (Db.lt_nextIno hnew).ne rfl
  | setattr caller ino attrs =>
    obtain ⟨row, hrow, hfile, hdb'⟩ := heffect
    obtain ⟨size, hi, -⟩ := Db.core_of_rowByIno hrow
    have h₀ := hs.size_nonneg ino _ size hi
    rw [Request.room] at hk
    · split_ifs at hk with hgrowth
      obtain rfl := Option.some.inj hk
      rw [step_over_ceiling hdb hle hmax (by omega) hgrowth] at hdb'
      have htotal := @totalSize_apply now db caller ino attrs row size hi hfile
      change db = attrs.apply now caller ino row db at hdb'
      rw [← hdb'] at htotal
      rw [Request.growth, hi] at hgrowth
      cases hsize : attrs.size with
      | none => exact hgrowth (by rw [hsize])
      | some n =>
        simp only [hsize] at hgrowth htotal
        omega
    all_goals simp
  | write fh offset data kill =>
    obtain ⟨row, hrow, hfile, hdb'⟩ := heffect
    obtain ⟨size, hi, hrowSize⟩ := Db.core_of_rowByIno hrow
    have h₀ := hs.size_nonneg fh _ size hi
    rw [Request.room] at hk
    · split_ifs at hk with hgrowth
      obtain rfl := Option.some.inj hk
      rw [step_over_ceiling hdb hle hmax (by omega) hgrowth] at hdb'
      have htotal := @totalSize_writeEffect now db fh row size hs offset data kill hi hrowSize hfile
      change db = writeEffect now fh offset data kill row db at hdb'
      rw [← hdb'] at htotal
      rw [Request.growth, hi] at hgrowth
      simp only at hgrowth
      omega
    all_goals simp
  | _ => cases hk

/-! ## Names and inodes -/

theorem toStr_of_answer (hdb : Reachable db) (h : (step env req db).1 = .ok a) {name : OsStr}
    (hname : name ∈ req.texts) : name.toStr ≠ none := by
  have heffect := effect_of_answer h
  generalize (step env req db).2 = db' at heffect
  have hy := step_yields env req db
  rw [h] at hy
  have hsome {name' : OsStr} {n : String} (hn : name'.toStr = some n) (hname : name ∈ [name']) :
      name.toStr ≠ none := by
    obtain rfl := List.mem_singleton.1 hname
    simp [hn]
  cases req with
  | lookup parent name' =>
    obtain ⟨n, attr, hn, -⟩ := lookup_ok hy
    exact hsome hn hname
  | mkdir parent name' mode =>
    obtain ⟨n, hn, -⟩ := heffect
    exact hsome hn hname
  | create parent name' mode =>
    obtain ⟨n, hn, -⟩ := heffect
    exact hsome hn hname
  | symlink parent name' target =>
    obtain ⟨t, ht, n, hn, -⟩ := heffect
    rcases List.mem_cons.1 hname with rfl | hname
    · simp [hn]
    · exact hsome ht hname
  | link ino newparent newname =>
    obtain ⟨n, hn, -⟩ := heffect
    exact hsome hn hname
  | unlink parent name' =>
    obtain ⟨n, ino, hn, -⟩ := heffect
    exact hsome hn hname
  | rmdir parent name' =>
    obtain ⟨n, ino, hn, -⟩ := heffect
    exact hsome hn hname
  | rename parent name' newparent newname flags =>
    have hboth : (∃ n, name'.toStr = some n) ∧ ∃ n, newname.toStr = some n := by
      cases heffect with
      | sameName hn hn' | freeName hn hn' | replaced hn hn' => exact ⟨⟨_, hn⟩, _, hn'⟩
    obtain ⟨⟨n, hn⟩, n', hn'⟩ := hboth
    rcases List.mem_cons.1 hname with rfl | hname
    · simp [hn]
    · exact hsome hn' hname
  | setxattr ino name' value flags =>
    obtain ⟨n, x, hn, -⟩ := heffect
    exact hsome hn hname
  | getxattr ino name' size =>
    obtain ⟨x, hx⟩ := hdb.exists_xattrs
    obtain ⟨-, n, v, hn, -⟩ := getxattr_ok hx hy
    exact hsome hn hname
  | removexattr ino name' =>
    obtain ⟨n, x, hn, -⟩ := heffect
    exact hsome hn hname
  | _ => cases hname

theorem mem_of_answer (hdb : Reachable db) (h : (step env req db).1 = .ok a) {i : Ino}
    (hi : req.subject = some i) : i ∈ db.inodes := by
  have heffect := effect_of_answer h
  generalize (step env req db).2 = db' at heffect
  have hy := step_yields env req db
  rw [h] at hy
  have hmem {j : Ino} {row : Db.InodeRow} (hrow : db.rowByIno j = some row)
      (hj : some j = some i) : i ∈ db.inodes := by
    obtain rfl := Option.some.inj hj
    obtain ⟨r, hr, -⟩ := Option.map_eq_some_iff.1 hrow
    exact AList.mem_of_lookup_eq_some hr
  cases req with
  | getattr ino =>
    obtain ⟨row, attr, hrow, -⟩ := getattr_ok hy
    exact hmem hrow hi
  | readlink ino =>
    obtain ⟨row, hrow, -⟩ := readlink_ok hy
    exact hmem hrow hi
  | setattr caller ino attrs =>
    obtain ⟨row, hrow, -⟩ := heffect
    exact hmem hrow hi
  | link ino newparent newname =>
    obtain ⟨n, -, ⟨r, hr, -⟩, -⟩ := heffect
    obtain rfl := Option.some.inj hi
    exact AList.mem_of_lookup_eq_some hr
  | read fh offset size =>
    obtain ⟨row, hrow⟩ := read_ok hy
    exact hmem hrow hi
  | write fh offset data kill =>
    obtain ⟨row, hrow, -⟩ := heffect
    exact hmem hrow hi
  | readdir ino offset room =>
    obtain rfl := Option.some.inj hi
    rcases readdir_ok hy with rfl | ⟨k, hk⟩
    · obtain ⟨r, hr, -⟩ := hdb.treeInv.root
      exact AList.mem_of_lookup_eq_some hr
    · exact hdb.treeInv.child k ino hk
  | setxattr ino name value flags =>
    obtain ⟨n, x, -, -, -, -, hino, -⟩ := heffect
    obtain rfl := Option.some.inj hi
    exact hino
  | _ => cases hi

theorem names_of_answer (h : (step env req db).1 = .ok a) {parent : Ino} {name : OsStr}
    (hwanted : req.wanted = some (parent, name)) : ∃ i, db.Names parent name i := by
  have heffect := effect_of_answer h
  generalize (step env req db).2 = db' at heffect
  have hy := step_yields env req db
  rw [h] at hy
  cases req with
  | lookup parent' name' =>
    cases hwanted
    obtain ⟨n, attr, hn, hi, -⟩ := lookup_ok hy
    exact ⟨_, n, hn, hi⟩
  | unlink parent' name' =>
    cases hwanted
    obtain ⟨n, ino, hn, hi, -⟩ := heffect
    exact ⟨ino, n, hn, hi⟩
  | rmdir parent' name' =>
    cases hwanted
    obtain ⟨n, ino, hn, hi, -⟩ := heffect
    exact ⟨ino, n, hn, hi⟩
  | rename parent' name' newparent newname flags =>
    cases hwanted
    cases heffect with
    | sameName hn _ hi | freeName hn _ hi | replaced hn _ hi => exact ⟨_, _, hn, hi⟩
  | _ => cases hwanted

theorem free_of_answer (h : (step env req db).1 = .ok a) {parent : Ino} {name : OsStr}
    (hadded : req.added = some (parent, name)) (i : Ino) : ¬ db.Names parent name i := by
  have heffect := effect_of_answer h
  generalize (step env req db).2 = db' at heffect
  have hfree {n : String} (hn : name.toStr = some n) (hnone : db.childIno parent n = none) :
      ¬ db.Names parent name i := by
    intro hi
    rw [hi.childIno_eq hn] at hnone
    cases hnone
  cases req with
  | mkdir parent' name' mode =>
    cases hadded
    obtain ⟨n, hn, hnone, -⟩ := heffect
    exact hfree hn hnone
  | create parent' name' mode =>
    cases hadded
    obtain ⟨n, hn, hnone, -⟩ := heffect
    exact hfree hn hnone
  | symlink parent' name' target =>
    cases hadded
    obtain ⟨t, -, n, hn, hnone, -⟩ := heffect
    exact hfree hn hnone
  | link ino newparent newname =>
    cases hadded
    obtain ⟨n, hn, -, hnone, -⟩ := heffect
    exact hfree hn hnone
  | rename parent' name' newparent newname flags =>
    rw [Request.added] at hadded
    split_ifs at hadded with hnoreplace
    cases hadded
    cases heffect with
    | freeName _ hn' _ _ _ hnone => exact hfree hn' hnone
    | sameName _ _ _ _ _ hoff | replaced _ _ _ _ _ hoff =>
      rw [hnoreplace] at hoff
      cases hoff
  | _ => cases hadded

theorem attr_of_answer {x : Table (Ino × String) (List UInt8)} (hx : db.xattrs = some x)
    (h : (step env req db).1 = .ok a) {i : Ino} {name : OsStr} {n : String}
    (hreq : req.wantedAttr = some (i, name)) (hn : name.toStr = some n) : db.attr i n ≠ none := by
  have heffect := effect_of_answer h
  have hy := step_yields env req db
  rw [h] at hy
  cases req with
  | setxattr ino name' value flags =>
    rw [Request.wantedAttr] at hreq
    split_ifs at hreq with hreplace
    cases hreq
    obtain ⟨n', y, hn', -, -, -, -, hy, -, hthere, -⟩ := heffect
    obtain rfl := Option.some.inj (hn.symm.trans hn')
    rw [Db.attr, hy]
    exact hthere hreplace
  | getxattr ino name' size =>
    cases hreq
    obtain ⟨-, n', v, hn', hv, -⟩ := getxattr_ok hx hy
    obtain rfl := Option.some.inj (hn.symm.trans hn')
    rw [hv]
    simp
  | removexattr ino name' =>
    cases hreq
    obtain ⟨n', y, hn', hy, hmem, -⟩ := heffect
    obtain rfl := Option.some.inj (hn.symm.trans hn')
    rw [Db.attr, hy]
    exact AList.lookup_isSome.2 hmem |> Option.isSome_iff_ne_none.1
  | _ => cases hreq

theorem not_tooLarge_of_answer (h : (step env req db).1 = .ok a) : ¬ req.TooLarge := by
  have heffect := effect_of_answer h
  cases req with
  | setattr caller ino attrs =>
    obtain ⟨row, -, hmax, -⟩ := heffect
    rintro ⟨n, hn, hlarge⟩
    exact absurd (hmax n hn) (not_le.2 hlarge)
  | write fh offset data kill =>
    obtain ⟨row, -, hmax, -⟩ := heffect
    exact not_lt.2 hmax
  | _ => exact id

/-! ## The result -/

/-- The request would exceed the ceiling. -/
def Request.Overfull (m : Mount) (db : Db) (req : Request) : Prop :=
  m.maxSize ≠ 0 ∧ db.totalSize ≤ i64Max ∧ ∃ k, req.room db = some k ∧ m.maxSize < db.totalSize + k

/-- **Who is answered had no reason to be refused**, whatever failed; only a ceiling may have been
missed by a failing query. -/
theorem answered_unrefused (hdb : Reachable db) (h : (step env req db).1 = .ok a)
    (hr : Refused env.mount db req e) :
    env.Hits req db ∧ e = .enospc ∧ req.Overfull env.mount db := by
  have heffect := effect_of_answer h
  generalize (step env req db).2 = db' at heffect
  have hy := step_yields env req db
  obtain ⟨x, hx⟩ := hdb.exists_xattrs
  rw [h] at hy
  cases hr with
  | readOnly hro hwrites =>
    rw [step_refused hro hwrites] at h
    cases h
  | notUtf8 hname hnone => exact (toStr_of_answer hdb h hname hnone).elim
  | flags hflags =>
    exfalso
    cases heffect with
    | sameName _ _ _ hexchange hwhiteout | freeName _ _ _ hexchange hwhiteout
    | replaced _ _ _ hexchange hwhiteout => simp [hexchange, hwhiteout] at hflags
  | noInode hi hmissing => exact (hmissing (mem_of_answer hdb h hi)).elim
  | noName hwanted hmissing =>
    obtain ⟨i, hi⟩ := names_of_answer h hwanted
    exact (hmissing i hi).elim
  | taken hadded hi => exact (free_of_answer h hadded _ hi).elim
  | directory hdir =>
    exfalso
    obtain ⟨n, -, ⟨r, hr, hleaf⟩, -⟩ := heffect
    obtain ⟨r', hr', hkind⟩ := hdir
    obtain rfl := Option.some.inj (hr.symm.trans hr')
    exact hleaf hkind
  | notEmpty hi hdir hchildren =>
    exfalso
    obtain ⟨n, ino, hn, hino, -, hremovable, -⟩ := heffect
    obtain rfl := Option.some.inj (hino.symm.trans (hi.childIno_eq hn))
    rw [hremovable.empty hdir] at hchildren
    cases hchildren
  | targetNotEmpty hi hj hne hdir hchildren =>
    exfalso
    cases heffect with
    | sameName hn hn' hino _ _ _ hkey =>
      refine hne (Option.some.inj ((hj.childIno_eq hn').symm.trans ?_))
      rw [Db.childIno, ← hkey]
      exact hi.childIno_eq hn
    | freeName hn hn' _ _ _ hfree =>
      rw [hj.childIno_eq hn'] at hfree
      cases hfree
    | replaced hn hn' _ _ _ _ hexisting _ hremovable =>
      obtain rfl := Option.some.inj (hexisting.symm.trans (hj.childIno_eq hn'))
      rw [hremovable.empty hdir] at hchildren
      cases hchildren
  | sameInode hn hn' hkey hi hi' =>
    exfalso
    cases heffect with
    | sameName hm hm' _ _ _ _ hsame =>
      obtain rfl := Option.some.inj (hn.symm.trans hm)
      obtain rfl := Option.some.inj (hn'.symm.trans hm')
      exact hkey hsame
    | freeName _ hm' _ _ _ hfree =>
      rw [hi'.childIno_eq hm'] at hfree
      cases hfree
    | replaced hm hm' hino _ _ _ hexisting hne _ =>
      obtain rfl := Option.some.inj (hino.symm.trans (hi.childIno_eq hm))
      exact hne (Option.some.inj (hexisting.symm.trans (hi'.childIno_eq hm')))
  | tooLarge hlarge => exact (not_tooLarge_of_answer h hlarge).elim
  | @full req k hmax hle hk hover =>
    refine ⟨?_, rfl, hmax, hle, k, hk, hover⟩
    by_contra hhits
    rw [step_of_not_hits hhits] at h
    exact absurd hover (not_lt.2 (fits_of_answer hdb hle hmax h hk))
  | noNumber hmax hreq =>
    exfalso
    cases req with
    | mkdir parent name mode =>
      obtain ⟨n, -, -, hle, -⟩ := heffect
      exact absurd hmax (not_lt.2 hle)
    | create parent name mode =>
      obtain ⟨n, -, -, hle, -⟩ := heffect
      exact absurd hmax (not_lt.2 hle)
    | symlink parent name target =>
      obtain ⟨t, -, n, -, -, hle, -⟩ := heffect
      exact absurd hmax (not_lt.2 hle)
    | _ => cases hreq
  | noAttrs hm hreq =>
    have htable := hasXattrs_of_answer hx hreq hy
    rw [hm] at htable
    cases htable
  | attrName hn hlen =>
    exfalso
    obtain ⟨n, x, hn', hempty, hle, -⟩ := heffect
    obtain rfl := Option.some.inj (hn.symm.trans hn')
    rcases hlen with hlen | hlen
    · rw [hempty] at hlen
      cases hlen
    · omega
  | attrValue hlen =>
    obtain ⟨n, x, -, -, -, hle, -⟩ := heffect
    omega
  | attrTaken hn hcreate hattr =>
    exfalso
    obtain ⟨n, x, hn', -, -, -, -, hx', hfree, -, -⟩ := heffect
    obtain rfl := Option.some.inj (hn.symm.trans hn')
    rw [Db.attr, hx'] at hattr
    exact hattr (hfree hcreate)
  | noAttr hreq hn hattr => exact (attr_of_answer hx h hreq hn hattr).elim
  | valueBuffer hn hattr hsize hlong =>
    obtain ⟨-, n, v, hn', hv, hle⟩ := getxattr_ok hx hy
    obtain rfl := Option.some.inj (hn.symm.trans hn')
    obtain rfl := Option.some.inj (hattr.symm.trans hv)
    exact absurd hlong (not_lt.2 (hle hsize))
  | listBuffer hm hnames hsize hlong =>
    exact absurd hlong (not_lt.2 (listxattr_ok hy hm hnames hsize))

/-- The sum over the sizes cannot be read. -/
def Env.blind : Env := ⟨.tiny, 0, fun n => if n = 2 then some .other else none⟩

theorem answered_unrefused_blind : Env.blind.Hits (.create rootIno nameB 0o644) .oneByte ∧
    Errno.enospc = .enospc ∧ (Request.create rootIno nameB 0o644).Overfull .tiny .oneByte := by
  have hreply : (step .blind (.create rootIno nameB 0o644) .oneByte).1 = .ok (.created ttl
      { ino := 3, size := 0, blocks := 0, atime := .unixEpoch, mtime := .unixEpoch
        ctime := .unixEpoch, crtime := .unixEpoch, kind := .regularFile, perm := 0o644, nlink := 1
        uid := 0, gid := 0, rdev := 0, blksize := 4096, flags := 0 } 0 3) := by
    decide +kernel
  refine answered_unrefused reachable_oneByte hreply (.full (by decide) ?_ rfl ?_)
  · decide +kernel
  · decide +kernel

end CofferFS
