import CofferFS.Privileges
import CofferFS.Content
import CofferFS.Seconds

/-!
# setattr as a whole

`setattr` executes up to five updates of one row, and takes the attributes that are not requested
from a copy of the row made before the first of them. `setattr_composes_iff` says when the row and
the content come out as if every requested attribute had been set and no other: always, unless a
time before the epoch is requested, which is stored as the epoch, or a size and an access time
without a modification time.

What is wanted of a request (`SetAttr.wanted`) is said without the functions that compute it.
-/

namespace CofferFS

/-! ## What is requested -/

/-- How long before the epoch a time is. -/
def SystemTime.untilEpoch (t : SystemTime) : Duration :=
  if t.nanos = 0 then ⟨(-t.secs).toNat, 0⟩ else ⟨(-t.secs - 1).toNat, 1000000000 - t.nanos⟩

/-- The signed seconds of a time, as an `f64`. -/
def SystemTime.seconds (t : SystemTime) : F64 :=
  if 0 ≤ t.secs then Duration.asSecsF64 ⟨t.secs.toNat, t.nanos⟩ else -t.untilEpoch.asSecsF64

namespace TimeOrNow

/-- The time that is requested. -/
def requested (now : F64) : TimeOrNow → F64
  | .specificTime t => t.seconds
  | .now => now

/-- The time that is left: the requested one, but not before the epoch. -/
def left (now : F64) : TimeOrNow → F64
  | .specificTime t => max t.seconds 0
  | .now => now

/-- A time before the epoch. -/
def BeforeEpoch : TimeOrNow → Prop
  | .specificTime t => t.seconds < 0
  | .now => False

end TimeOrNow

/-- The permissions of a mode are the twelve lowest bits, the type of the file is above them. -/
def withPermissions (mode : BitVec 64) (m : BitVec 32) : BitVec 64 :=
  mode.extractLsb' 12 52 ++ m.setWidth 12

namespace SetAttr

/-- The privileges of the file have to go: it is truncated by a user, or gets another owner, and the
request does not say what its mode is to be. -/
def DropsPrivileges (a : SetAttr) (caller : UInt32) (kind : Kind) : Prop :=
  a.mode = none ∧ (a.size ≠ none ∧ caller ≠ 0 ∨ (a.uid ≠ none ∨ a.gid ≠ none) ∧ kind ≠ .dir)

instance (a : SetAttr) (caller : UInt32) (kind : Kind) :
    Decidable (a.DropsPrivileges caller kind) :=
  inferInstanceAs (Decidable (_ ∧ _))

/-- The mode that a `setattr` is to leave: the one requested, else the old one less the privileges
that go. -/
def wantedMode (a : SetAttr) (caller : UInt32) (r : Inode) : BitVec 64 :=
  match a.mode with
  | some m => withPermissions r.mode m
  | none => if a.DropsPrivileges caller r.kind then withoutPrivileges r.mode else r.mode

/-- The modification time that a `setattr` is to leave: the one requested, else that of the request
if it has a size. -/
def wantedMtime (a : SetAttr) (now : F64) (r : Inode) : F64 :=
  match a.mtime with
  | some t => t.requested now
  | none => if a.size.isSome then now else r.mtime

/-- More than times is requested. -/
def MoreThanTimes (a : SetAttr) : Prop :=
  a.mode.isSome ∨ a.uid.isSome ∨ a.gid.isSome ∨ a.size.isSome

instance (a : SetAttr) : Decidable a.MoreThanTimes := inferInstanceAs (Decidable (_ ∨ _))

/-- The row that a `setattr` is to leave. The change time is not one of the attributes. -/
def wanted (a : SetAttr) (now : F64) (caller : UInt32) (r : Inode) : Inode where
  kind := r.kind
  mode := a.wantedMode caller r
  uid := a.uid.getD r.uid
  gid := a.gid.getD r.gid
  size := (a.size.map Int.ofNat).getD r.size
  atime := (a.atime.map (·.requested now)).getD r.atime
  mtime := a.wantedMtime now r
  ctime := if a.MoreThanTimes then now else r.ctime
  symlinkTarget := r.symlinkTarget

/-- The access time that the code leaves. -/
def leftAtime (a : SetAttr) (now : F64) (r : Inode) : F64 :=
  (a.atime.map (·.left now)).getD r.atime

/-- The modification time that the code leaves. -/
def leftMtime (a : SetAttr) (now : F64) (r : Inode) : F64 :=
  if a.atime.isSome ∨ a.mtime.isSome then (a.mtime.map (·.left now)).getD r.mtime
  else if a.size.isSome then now else r.mtime

end SetAttr

/-! ## What the code's own conversions give -/

namespace SystemTime

variable {t : SystemTime}

theorem seconds_of_nonneg (h : 0 ≤ t.secs) :
    t.seconds = Duration.asSecsF64 ⟨t.secs.toNat, t.nanos⟩ := if_pos h

theorem seconds_of_neg (h : t.secs < 0) : t.seconds ≤ 0 := by
  rw [seconds, if_neg (not_le.2 h), Left.neg_nonpos_iff]
  exact Duration.asSecsF64_nonneg _

end SystemTime

/-- A time before the epoch becomes the epoch. -/
theorem timeOrNowToSecs_eq (now : F64) (t : Option TimeOrNow) :
    timeOrNowToSecs now t = t.map (·.left now) := by
  rw [timeOrNowToSecs]
  congr 1
  funext t
  cases t with
  | now => rfl
  | specificTime st =>
    change (st.durationSinceEpoch.map Duration.asSecsF64).getD 0 = max st.seconds 0
    by_cases h : 0 ≤ st.secs
    · rw [SystemTime.durationSinceEpoch, if_pos h, SystemTime.seconds_of_nonneg h,
        max_eq_left (Duration.asSecsF64_nonneg _)]
      rfl
    · rw [SystemTime.durationSinceEpoch, if_neg h,
        max_eq_right (SystemTime.seconds_of_neg (not_le.1 h))]
      rfl

theorem TimeOrNow.left_eq_iff {now : F64} {t : TimeOrNow} :
    t.left now = t.requested now ↔ ¬ t.BeforeEpoch := by
  cases t with
  | now => exact iff_of_true rfl id
  | specificTime st =>
    change max st.seconds 0 = st.seconds ↔ ¬ st.seconds < 0
    rw [max_eq_left_iff, not_lt]

theorem getLsbD_permissions {i : ℕ} (h : i < 64) :
    (0o7777 : BitVec 64).getLsbD i = decide (i < 12) := by
  have hmask : (0o7777 : BitVec 64) = (BitVec.allOnes 12).setWidth 64 := by decide
  rw [hmask, BitVec.getLsbD_setWidth, BitVec.getLsbD_allOnes, decide_eq_true h, Bool.true_and]

theorem newMode_eq (mode : BitVec 64) (m : BitVec 32) :
    newMode mode m = withPermissions mode m := by
  refine BitVec.eq_of_getLsbD_eq fun i hi => ?_
  refine Eq.trans ?_ BitVec.getLsbD_append.symm
  rw [newMode, BitVec.getLsbD_or, BitVec.getLsbD_and, BitVec.getLsbD_and, BitVec.getLsbD_not,
    getLsbD_permissions hi, BitVec.getLsbD_setWidth, BitVec.getLsbD_setWidth,
    BitVec.getLsbD_extractLsb']
  by_cases h : i < 12
  · simp [h, hi]
  · have hindex : 12 + (i - 12) = i := by omega
    have hlt : i - 12 < 52 := by omega
    simp [h, hi, hindex, hlt]

theorem setattrKills_eq (caller : UInt32) (kind : Kind) (a : SetAttr) :
    setattrKills caller kind a = decide (a.DropsPrivileges caller kind) := by
  rw [Bool.eq_iff_iff, decide_eq_true_iff]
  simp only [setattrKills, SetAttr.DropsPrivileges, Bool.and_eq_true, Bool.or_eq_true,
    Option.isNone_iff_eq_none, Option.isSome_iff_ne_none, bne_iff_ne]

/-! ## The five updates -/

namespace Db

variable {db : Db} {now : F64} {i : Ino} {r : Inode} {row : InodeRow}

theorem lookup_updateInode {f : Inode → Inode} (h : db.inodes.lookup i = some r) :
    (db.updateInode i f).inodes.lookup i = some (f r) := by
  show (db.inodes.updateKey i f).lookup i = _
  rw [AList.lookup_updateKey_self, h]
  rfl

theorem lookup_chmod {mode : Option (BitVec 32)} (h : db.inodes.lookup i = some r) :
    (db.chmod now i row mode).inodes.lookup i = some { r with
      mode := (mode.map (newMode row.mode)).getD r.mode
      ctime := if mode.isSome then now else r.ctime } := by
  cases mode with
  | none => exact h
  | some m => exact lookup_updateInode h

theorem lookup_chown {uid gid : Option UInt32} (h : db.inodes.lookup i = some r)
    (huid : row.uid = r.uid) (hgid : row.gid = r.gid) :
    (db.chown now i row uid gid).inodes.lookup i = some { r with
      uid := uid.getD r.uid
      gid := gid.getD r.gid
      ctime := if uid.isSome ∨ gid.isSome then now else r.ctime } := by
  unfold chown
  split_ifs with hsome
  · rw [← huid, ← hgid]
    exact lookup_updateInode h
  · simp only [not_or, Option.not_isSome_iff_eq_none] at hsome
    simpa [hsome] using h

theorem lookup_setSize {size : ℤ} (h : db.inodes.lookup i = some r) :
    (db.setSize size now i).inodes.lookup i =
      some { r with size := size, mtime := now, ctime := now } :=
  lookup_updateInode h

theorem lookup_truncate {n : ℕ} (h : db.inodes.lookup i = some r) :
    (db.truncate now i n).inodes.lookup i =
      some { r with size := asI64 n, mtime := now, ctime := now } := by
  rw [inodes_truncate]
  exact lookup_setSize h

theorem lookup_resize {size : Option ℕ} (h : db.inodes.lookup i = some r) :
    (db.resize now i size).inodes.lookup i = some { r with
      size := (size.map asI64).getD r.size
      mtime := if size.isSome then now else r.mtime
      ctime := if size.isSome then now else r.ctime } := by
  cases size with
  | none => exact h
  | some n =>
    rw [Option.map_some, Option.getD_some]
    exact lookup_truncate h

theorem lookup_utimens {atime mtime : Option TimeOrNow} (h : db.inodes.lookup i = some r)
    (hatime : row.atime = r.atime) :
    (db.utimens now i row atime mtime).inodes.lookup i = some { r with
      atime := (atime.map (·.left now)).getD r.atime
      mtime := if atime.isSome ∨ mtime.isSome then (mtime.map (·.left now)).getD row.mtime
        else r.mtime } := by
  rw [← timeOrNowToSecs_eq, ← timeOrNowToSecs_eq]
  unfold utimens
  split_ifs with hsome
  · rw [← hatime]
    exact lookup_updateInode h
  · simp only [not_or, Option.not_isSome_iff_eq_none] at hsome
    simpa [hsome, timeOrNowToSecs] using h

theorem lookup_dropPrivileges (h : db.inodes.lookup i = some r) :
    (db.dropPrivileges i).inodes.lookup i =
      some { r with mode := withoutPrivileges r.mode } := by
  have huid : (if r.mode &&& sIsUid ≠ 0 then { r with mode := r.mode &&& ~~~sIsUid } else r) =
      { r with mode := r.mode &&& ~~~sIsUid } := by
    split_ifs with hmode
    · rfl
    · rw [and_not_of_and_eq_zero (not_not.1 hmode)]
  have hgid (r : Inode) : (if r.mode &&& sIsGid ≠ 0 ∧ r.mode &&& sIxGrp ≠ 0 then
      { r with mode := r.mode &&& ~~~sIsGid } else r) =
      { r with mode := if r.mode &&& sIxGrp ≠ 0 then r.mode &&& ~~~sIsGid else r.mode } := by
    by_cases hgrp : r.mode &&& sIxGrp ≠ 0
    · by_cases hmode : r.mode &&& sIsGid ≠ 0
      · rw [if_pos ⟨hmode, hgrp⟩, if_pos hgrp]
      · rw [if_neg fun h => hmode h.1, if_pos hgrp, and_not_of_and_eq_zero (not_not.1 hmode)]
    · rw [if_neg fun h => hgrp h.2, if_neg hgrp]
  have hstep := lookup_updateInode (f := fun r =>
    if r.mode &&& sIsGid ≠ 0 ∧ r.mode &&& sIxGrp ≠ 0 then { r with mode := r.mode &&& ~~~sIsGid }
    else r) (lookup_updateInode (f := fun r =>
    if r.mode &&& sIsUid ≠ 0 then { r with mode := r.mode &&& ~~~sIsUid } else r) h)
  rw [huid, hgid] at hstep
  refine Eq.trans ?_ (hstep.trans ?_)
  · rfl
  · have hgrp : r.mode &&& ~~~sIsUid &&& sIxGrp = r.mode &&& sIxGrp := by
      rw [BitVec.and_assoc]
      rfl
    show some { r with mode := if r.mode &&& ~~~sIsUid &&& sIxGrp ≠ 0 then _ else _ } = _
    rw [hgrp]
    rfl

theorem lookup_killIf {kill : Bool} (h : db.inodes.lookup i = some r) :
    (db.killIf kill i).inodes.lookup i = some { r with
      mode := if kill then withoutPrivileges r.mode else r.mode } := by
  cases kill with
  | false => exact h
  | true => exact lookup_dropPrivileges h

/-- The row that the code leaves. -/
theorem lookup_apply {a : SetAttr} {caller : UInt32} (h : db.inodes.lookup i = some r) :
    (a.apply now caller i (db.mapRow i r) db).inodes.lookup i = some
      { a.wanted now caller r with
        size := (a.size.map asI64).getD r.size
        atime := a.leftAtime now r
        mtime := a.leftMtime now r } := by
  have hmode := @lookup_chmod db now i r (db.mapRow i r) a.mode h
  have howner := @lookup_chown _ now i _ (db.mapRow i r) a.uid a.gid hmode rfl rfl
  have hsize := @lookup_resize _ now i _ a.size howner
  have htimes := @lookup_utimens _ now i _ (db.mapRow i r) a.atime a.mtime hsize rfl
  have hkill := @lookup_killIf _ i _ (setattrKills caller r.kind a) htimes
  refine Eq.trans hkill (congrArg some ?_)
  have hm : (if setattrKills caller r.kind a then
        withoutPrivileges ((a.mode.map (newMode r.mode)).getD r.mode)
      else (a.mode.map (newMode r.mode)).getD r.mode) = a.wantedMode caller r := by
    rw [SetAttr.wantedMode, setattrKills_eq]
    cases hmode : a.mode with
    | none => exact if_congr decide_eq_true_iff rfl rfl
    | some m =>
      have hkept : ¬ a.DropsPrivileges caller r.kind := fun hdrops => by
        rw [hdrops.1] at hmode
        cases hmode
      rw [Option.map_some, Option.getD_some, decide_eq_false hkept]
      exact newMode_eq r.mode m
  have hc : (if a.size.isSome then now else if a.uid.isSome ∨ a.gid.isSome then now else
      if a.mode.isSome then now else r.ctime) = if a.MoreThanTimes then now else r.ctime := by
    unfold SetAttr.MoreThanTimes
    split_ifs <;> simp_all
  rw [SetAttr.wanted, ← hm, ← hc]
  rfl

end Db

/-! ## When they compose -/

namespace SetAttr

/-- A time before the epoch is requested. -/
def BeforeEpoch (a : SetAttr) : Prop :=
  (∃ t ∈ a.atime, t.BeforeEpoch) ∨ ∃ t ∈ a.mtime, t.BeforeEpoch

/-- A size and an access time are requested, and no modification time. -/
def SizeAndAtime (a : SetAttr) : Prop := a.size.isSome ∧ a.atime.isSome ∧ a.mtime = none

variable {a : SetAttr} {now : F64} {r : Inode}

theorem leftAtime_eq_iff :
    a.leftAtime now r = (a.atime.map (·.requested now)).getD r.atime ↔
      ¬ ∃ t ∈ a.atime, t.BeforeEpoch := by
  unfold leftAtime
  cases a.atime with
  | none => simp
  | some t => simpa using TimeOrNow.left_eq_iff

theorem leftMtime_eq_iff :
    a.leftMtime now r = a.wantedMtime now r ↔
      ¬ (∃ t ∈ a.mtime, t.BeforeEpoch) ∧ (a.SizeAndAtime → r.mtime = now) := by
  unfold leftMtime wantedMtime SizeAndAtime
  cases hmtime : a.mtime with
  | some t => simpa using TimeOrNow.left_eq_iff
  | none =>
    cases hatime : a.atime with
    | none => simp
    | some t =>
      cases hsize : a.size with
      | none => simp
      | some n => simp

end SetAttr

/-- The row and the content after a `setattr` are the old ones with what is requested. -/
structure Composes (now : F64) (caller : UInt32) (ino : Ino) (a : SetAttr) (db db' : Db) :
    Prop where
  row : ∃ r, db.inodes.lookup ino = some r ∧
    db'.inodes.lookup ino = some (a.wanted now caller r)
  content : db'.content ino =
    match a.size with
    | some n => Sparse.resize (db.content ino) n
    | none => db.content ino

variable {db : Db} {env : Env} {caller : UInt32} {ino : Ino} {a : SetAttr} {answer : Answer}

/-- **An accepted `setattr` composes exactly if it does not request a time before the epoch, nor a
size and an access time without a modification time**, or the file was modified at the time of the
request already. -/
theorem setattr_composes_iff (hdb : Reachable db)
    (h : (step env (.setattr caller ino a) db).1 = .ok answer) :
    Composes env.now caller ino a db (step env (.setattr caller ino a) db).2 ↔
      ¬ a.BeforeEpoch ∧
        (a.SizeAndAtime → ∀ r, db.inodes.lookup ino = some r → r.mtime = env.now) := by
  obtain ⟨row, hrow, hmax, hdb'⟩ : Effect env.mount env.now (.setattr caller ino a) db
      (step env (.setattr caller ino a) db).2 := by
    rcases step_effect env (.setattr caller ino a) db with ⟨⟨e, he⟩, -⟩ | heffect
    · rw [h] at he
      cases he
    · exact heffect
  obtain ⟨r, hr, rfl⟩ := Option.map_eq_some_iff.1 hrow
  have hleft := @Db.lookup_apply db env.now ino r a caller hr
  have hsize : (a.size.map asI64).getD r.size = (a.size.map Int.ofNat).getD r.size := by
    cases hn : a.size with
    | none => rw [Option.map_none, Option.map_none]
    | some n =>
      rw [Option.map_some, Option.map_some, Option.getD_some, Option.getD_some]
      exact asI64_of_le (hmax n hn)
  rw [hdb']
  constructor
  · intro hcomposes
    obtain ⟨r', hr', hwanted⟩ := hcomposes.row
    obtain rfl : r' = r := Option.some.inj (hr'.symm.trans hr)
    have hrow' := Option.some.inj (hleft.symm.trans hwanted)
    have hatime := SetAttr.leftAtime_eq_iff.1 (congrArg Inode.atime hrow')
    obtain ⟨hmtime, hboth⟩ := SetAttr.leftMtime_eq_iff.1 (congrArg Inode.mtime hrow')
    refine ⟨not_or.2 ⟨hatime, hmtime⟩, fun hsizes r hr'' => ?_⟩
    obtain rfl : r = r' := Option.some.inj (hr''.symm.trans hr)
    exact hboth hsizes
  · rintro ⟨hepoch, hmtime⟩
    obtain ⟨hatimes, hmtimes⟩ := not_or.1 hepoch
    refine ⟨⟨r, hr, ?_⟩, Db.content_apply hdb.storeInv hrow hmax⟩
    rw [hleft, hsize, SetAttr.leftAtime_eq_iff.2 hatimes,
      SetAttr.leftMtime_eq_iff.2 ⟨hmtimes, fun hboth => hmtime hboth r hr⟩]
    rfl

/-- An empty file is extended. -/
theorem setattr_composes_size :
    Composes 1 0 2 { size := some 5 } .oneFile
      (step (.quiet .plain 1) (.setattr 0 2 { size := some 5 }) .oneFile).2 := by
  have hok : (step (.quiet .plain 1) (.setattr 0 2 { size := some 5 }) .oneFile).1 =
      .ok (.attr ttl
        { ino := 2, size := 5, blocks := 1, atime := ⟨0, 0⟩, mtime := ⟨1, 0⟩, ctime := ⟨1, 0⟩
          crtime := ⟨1, 0⟩, kind := .regularFile, perm := 0o644, nlink := 1, uid := 0, gid := 0
          rdev := 0, blksize := 4096, flags := 0 }) := by
    decide +kernel
  refine (setattr_composes_iff reachable_oneFile hok).2 ⟨?_, fun hboth => ?_⟩
  · rintro (⟨t, ht, -⟩ | ⟨t, ht, -⟩) <;> cases ht
  · exact absurd hboth.2.1 (by decide)

/-- **A file that is extended keeps its old modification time** if its access time is set with the
same request. -/
theorem resize_keeps_mtime : ¬ ∀ env caller ino a db answer, Reachable db →
    (step env (.setattr caller ino a) db).1 = .ok answer →
    Composes env.now caller ino a db (step env (.setattr caller ino a) db).2 := by
  intro h
  let a : SetAttr := { size := some 5, atime := some .now }
  have hok : (step (.quiet .plain 1) (.setattr 0 2 a) .oneFile).1 =
      .ok (.attr ttl
        { ino := 2, size := 5, blocks := 1, atime := ⟨1, 0⟩, mtime := ⟨0, 0⟩, ctime := ⟨1, 0⟩
          crtime := ⟨1, 0⟩, kind := .regularFile, perm := 0o644, nlink := 1, uid := 0, gid := 0
          rdev := 0, blksize := 4096, flags := 0 }) := by
    decide +kernel
  have hrow : Db.oneFile.inodes.lookup 2 = some (Db.newInode 0 .file 0o100644 0 0 none) := by
    decide +kernel
  have hrow' : (step (.quiet .plain 1) (.setattr 0 2 a) .oneFile).2.inodes.lookup 2 =
      some { Db.newInode 0 .file 0o100644 0 0 none with size := 5, atime := 1, ctime := 1 } := by
    decide +kernel
  obtain ⟨r, hr, hwanted⟩ := (h (.quiet .plain 1) 0 2 a .oneFile _ reachable_oneFile hok).row
  obtain rfl := Option.some.inj (hrow.symm.trans hr)
  have hmtime := congrArg Inode.mtime (Option.some.inj (hrow'.symm.trans hwanted))
  revert hmtime
  decide +kernel

end CofferFS
