import CofferFS.Content
import CofferFS.Quiet
import Mathlib.Algebra.BigOperators.Ring.Finset

/-!
# The ceiling

With a ceiling of `max`, up to `i64::MAX`, and as long as no statement fails, the sizes of all
inodes add up to at most `max`, and so do the bytes stored in their blocks. The code checks this in
`write`, in `setattr` and in `symlink`, each time in `u64`; as long as the ceiling is kept none of
these calculations wraps, so the checks mean what they say (`ceilingFits_iff`, `growthFits_iff`).
-/

namespace CofferFS

open Script

namespace Db

/-- The sum of all sizes. -/
def totalSize (db : Db) : ℤ := db.inodes.sumBy fun _ r => r.size

/-- The bytes stored for an inode. -/
def storedBytes (db : Db) (i : Ino) : ℕ :=
  (db.data.filter fun k _ => k.1 = i).sumBy fun _ block => block.length

/-- The bytes stored in all blocks. -/
def totalStored (db : Db) : ℕ := db.data.sumBy fun _ block => block.length

variable {db db' : Db} {i : Ino} {kind kind' : Kind} {size size' : ℤ}

/-! ## What changes do to the sum -/

theorem totalSize_of_core (h : db'.core = db.core) : db'.totalSize = db.totalSize := by
  refine AList.sumBy_congr fun i => ?_
  have hi := congrArg (Option.map Prod.snd) (congrFun h i)
  simpa [core, Function.comp_def] using hi

/-- An inode appears. -/
theorem totalSize_add (h : db'.core = Function.update db.core db.nextIno (some (kind, size))) :
    db'.totalSize = size + db.totalSize := by
  have hcore : db'.core = (db.addInode ⟨kind, 0, 0, 0, size, 0, 0, 0, none⟩).core := by
    rw [h, core_addInode]
  rw [totalSize_of_core hcore]
  exact AList.sumBy_insert (lookup_nextIno db)

/-- An inode goes. -/
theorem totalSize_drop (hi : db.core i = some (kind, size))
    (h : db'.core = Function.update db.core i none) : size + db'.totalSize = db.totalSize := by
  rw [totalSize_of_core (h.trans core_dropInode.symm)]
  obtain ⟨r, hr, hc⟩ := core_eq_some_iff.1 hi
  cases hc
  exact AList.sumBy_erase (f := fun _ r => r.size) hr

/-- The size of an inode changes. -/
theorem totalSize_resize (hi : db.core i = some (kind, size))
    (h : db'.core = Function.update db.core i ((db.core i).map fun c => (c.1, size'))) :
    size + db'.totalSize = size' + db.totalSize := by
  rw [totalSize_of_core (h.trans (@core_setSize db i 0 size').symm)]
  obtain ⟨r, hr, hc⟩ := core_eq_some_iff.1 hi
  cases hc
  exact AList.sumBy_updateKey (f := fun _ r => r.size) hr

theorem totalSize_drop_le (hs : db.StoreInv) (h : db'.core = Function.update db.core i none) :
    db'.totalSize ≤ db.totalSize := by
  cases hi : db.core i with
  | none => rw [totalSize_of_core (h.trans (by rw [← hi, Function.update_eq_self]))]
  | some c =>
    have hsize := hs.size_nonneg i c.1 c.2 hi
    have hdrop := totalSize_drop hi h
    omega

theorem totalSize_dropName_le (hs : db.StoreInv) {now : F64} {parent : Ino} {name : String} :
    (db.dropName now parent name i).totalSize ≤ db.totalSize := by
  have hcore := @core_dropName db i parent name now
  split_ifs at hcore
  · exact totalSize_drop_le hs hcore
  · exact (totalSize_of_core hcore).le

theorem totalSize_nonneg (hs : db.StoreInv) : 0 ≤ db.totalSize := by
  refine AList.sumBy_nonneg fun i r hr => ?_
  exact hs.size_nonneg i r.kind r.size (by rw [core, hr]; rfl)

/-! ## What the code calculates -/

/-- SQLite's sum is the sum when it is in range and nothing is negative. -/
theorem sumI64_eq {l : List ℤ} (h₀ : ∀ x ∈ l, 0 ≤ x) (hle : l.sum ≤ i64Max) :
    sumI64 l = some l.sum := by
  have hfold (l : List ℤ) (acc : ℤ) (h₀ : ∀ x ∈ l, 0 ≤ x) (hacc : 0 ≤ acc)
      (hle : acc + l.sum ≤ i64Max) :
      l.foldlM (fun acc x : ℤ => if -2 ^ 63 ≤ acc + x ∧ acc + x ≤ i64Max then some (acc + x)
        else none) acc = some (acc + l.sum) := by
    induction l generalizing acc with
    | nil => simp
    | cons x l ih =>
      have hx := h₀ x List.mem_cons_self
      have hl : ∀ y ∈ l, 0 ≤ y := fun y hy => h₀ y (List.mem_cons_of_mem x hy)
      have hsum := List.sum_nonneg hl
      rw [List.sum_cons, ← add_assoc] at hle ⊢
      rw [List.foldlM_cons, if_pos ⟨by omega, by omega⟩]
      exact ih (acc + x) hl (by omega) hle
  have hzero := hfold l 0 h₀ (le_refl 0) (by rwa [zero_add])
  rwa [zero_add] at hzero

theorem sumSize_eq (hs : db.StoreInv) (hle : db.totalSize ≤ i64Max) :
    db.sumSize = .ok db.totalSize := by
  have hsum : sumI64 (db.inodes.entries.map fun e => e.2.size) = some db.totalSize := by
    refine sumI64_eq (fun x hx => ?_) hle
    obtain ⟨⟨i, r⟩, hir, rfl⟩ := List.mem_map.1 hx
    exact hs.size_nonneg i r.kind r.size (by rw [core, AList.mem_entries_iff.1 hir]; rfl)
  rw [sumSize, hsum]

theorem asU64_totalSize (hs : db.StoreInv) (hle : db.totalSize ≤ i64Max) :
    asU64 db.totalSize = db.totalSize.toNat :=
  asU64_of_nonneg (totalSize_nonneg hs) hle

end Db

section Checks

variable {m : Mount} {db : Db}

/-- The check for more bytes means what it says. -/
theorem ceilingFits_iff (hs : db.StoreInv) (hle : db.totalSize ≤ i64Max) {increase : ℕ}
    (hincrease : increase ≤ i64Max) :
    ceilingFits m increase db = true ↔ db.totalSize + increase ≤ m.maxSize := by
  have h₀ := Db.totalSize_nonneg hs
  rw [ceilingFits, sumPasses, Db.sumSize_eq hs hle]
  simp only [Db.asU64_totalSize hs hle, Bool.not_eq_true', decide_eq_false_iff_not, not_lt]
  rw [i64Max] at hle hincrease
  rw [addU64_of_lt (by omega)]
  omega

/-- The check for a file that grows means what it says. -/
theorem growthFits_iff (hs : db.StoreInv) (hle : db.totalSize ≤ i64Max) (hmax : m.maxSize ≠ 0)
    {oldSize newSize : ℕ} (hnew : newSize ≤ i64Max) :
    growthFits m oldSize newSize db = true ↔
      (oldSize < newSize → db.totalSize + (newSize - oldSize : ℤ) ≤ m.maxSize) := by
  unfold growthFits
  by_cases hlt : oldSize < newSize
  · have hsub : subU64 newSize oldSize = newSize - oldSize :=
      subU64_of_le hlt.le (hnew.trans_lt (by decide))
    rw [if_pos ⟨hmax, hlt⟩, hsub, ceilingFits_iff hs hle (by omega)]
    simp only [hlt, forall_const, Nat.cast_sub hlt.le]
  · simp [hlt]

end Checks

/-! ## Stored bytes -/

namespace Db

variable {db : Db} {i : Ino} {kind : Kind} {size : ℤ}

/-- Blocks of one inode hold no more than its size. -/
theorem sum_block_le (hs : db.StoreInv) (hi : db.core i = some (kind, size))
    {keys : Finset (Ino × ℕ)} (hkeys : ∀ k ∈ keys, k.1 = i) :
    ∑ k ∈ keys, (db.block k.1 k.2).length ≤ size.toNat := by
  have himage : ∑ k ∈ keys, (db.block k.1 k.2).length =
      ∑ b ∈ keys.image Prod.snd, (db.blocks i b).length := by
    rw [Finset.sum_image fun k hk k' hk' heq => Prod.ext ((hkeys k hk).trans (hkeys k' hk').symm) heq]
    exact Finset.sum_congr rfl fun k hk => by rw [hkeys k hk]; rfl
  rw [himage]
  exact (hs.fits i kind size hi).sum_length_le _

theorem storedBytes_le (hs : db.StoreInv) (hi : db.core i = some (kind, size)) :
    db.storedBytes i ≤ size.toNat := by
  have hkeys (k : Ino × ℕ) (hk : k ∈ (db.data.filter fun k _ => k.1 = i).keys.toFinset) :
      k.1 = i := by
    simpa using (AList.mem_filter_key.1 (AList.mem_keys.2 (List.mem_toFinset.1 hk))).2
  rw [storedBytes, AList.sumBy_eq_sum_keys]
  refine le_trans (le_of_eq (Finset.sum_congr rfl fun k hk => ?_)) (sum_block_le hs hi hkeys)
  rw [AList.lookup_filter, block]
  cases db.data.lookup k <;> simp [Option.filter, hkeys k hk]

theorem totalStored_le (hs : db.StoreInv) (hdata : ∀ i b, (i, b) ∈ db.data → i ∈ db.inodes) :
    (db.totalStored : ℤ) ≤ db.totalSize := by
  have hmaps (k : Ino × ℕ) (hk : k ∈ db.data.keys.toFinset) : k.1 ∈ db.inodes.keys.toFinset :=
    List.mem_toFinset.2 (hdata k.1 k.2 (List.mem_toFinset.1 hk))
  have hstored : db.totalStored = ∑ i ∈ db.inodes.keys.toFinset,
      ∑ k ∈ db.data.keys.toFinset with k.1 = i, (db.block k.1 k.2).length := by
    rw [totalStored, AList.sumBy_eq_sum_keys, Finset.sum_fiberwise_of_maps_to hmaps]
    refine Finset.sum_congr rfl fun k _ => ?_
    rw [block]
    cases db.data.lookup k <;> rfl
  rw [hstored, totalSize, AList.sumBy_eq_sum_keys, Nat.cast_sum]
  refine Finset.sum_le_sum fun i hi => ?_
  obtain ⟨r, hr⟩ := AList.exists_lookup_of_mem (AList.mem_keys.2 (List.mem_toFinset.1 hi))
  have hcore : db.core i = some (r.kind, r.size) := by rw [core, hr]; rfl
  have hle := @sum_block_le db i r.kind r.size hs hcore
    (db.data.keys.toFinset.filter fun k => k.1 = i) fun k hk => (Finset.mem_filter.1 hk).2
  have h₀ := hs.size_nonneg i r.kind r.size hcore
  rw [hr, Option.map_some, Option.getD_some]
  omega

end Db

/-! ## Requests -/

section Requests

variable {m : Mount} {now : F64} {db db' : Db}

/-- A request that neither makes a symlink nor sets a size nor writes does not add to the sum. -/
theorem Effect.totalSize_le {req : Request} (h : Effect m now req db db') (hs : db.StoreInv)
    (hsetattr : ∀ caller ino a, req ≠ .setattr caller ino a)
    (hwrite : ∀ fh offset data kill, req ≠ .write fh offset data kill)
    (hsymlink : ∀ parent linkName target, req ≠ .symlink parent linkName target) :
    db'.totalSize ≤ db.totalSize := by
  cases req with
  | setattr caller ino a => exact (hsetattr caller ino a rfl).elim
  | write fh offset data kill => exact (hwrite fh offset data kill rfl).elim
  | symlink parent linkName target => exact (hsymlink parent linkName target rfl).elim
  | mkdir parent name mode =>
    obtain ⟨n, -, -, -, rfl⟩ := h
    exact ((Db.totalSize_add Db.core_addChild).trans (zero_add _)).le
  | create parent name mode =>
    obtain ⟨n, -, -, -, rfl⟩ := h
    exact ((Db.totalSize_add Db.core_addChild).trans (zero_add _)).le
  | link ino newparent newname =>
    obtain ⟨n, -, -, -, rfl⟩ := h
    exact (Db.totalSize_of_core (by simp)).le
  | unlink parent name =>
    obtain ⟨n, ino, -, -, rfl⟩ := h
    exact Db.totalSize_dropName_le hs
  | rmdir parent name =>
    obtain ⟨n, ino, -, -, -, -, rfl⟩ := h
    exact Db.totalSize_dropName_le hs
  | rename parent name newparent newname flags =>
    cases h with
    | sameName => exact (Db.totalSize_of_core (by simp)).le
    | freeName => exact (Db.totalSize_of_core Db.core_moveName).le
    | replaced =>
      exact (Db.totalSize_of_core Db.core_moveName).le.trans (Db.totalSize_dropName_le hs)
  | setxattr ino name value flags =>
    obtain ⟨n, x, -, -, -, -, -, -, -, -, rfl⟩ := h
    exact (Db.totalSize_of_core Db.core_setCtime).le
  | removexattr ino name =>
    obtain ⟨n, x, -, -, -, rfl⟩ := h
    exact (Db.totalSize_of_core Db.core_setCtime).le
  | _ =>
    obtain rfl : db' = db := h
    exact le_refl _

variable {caller : UInt32} {i : Ino} {a : SetAttr} {row : Db.InodeRow} {size : ℤ}

/-- An accepted `setattr` changes the sum by what it changes the size. -/
theorem totalSize_apply (hi : db.core i = some (row.kind, size))
    (hmax : ∀ n, a.size = some n → n ≤ maxFileSize) :
    (a.apply now caller i row db).totalSize =
      match a.size with
      | some n => db.totalSize + (n - size)
      | none => db.totalSize := by
  have hcore := @Db.core_apply db i now a caller row
  cases hsize : a.size with
  | none =>
    rw [hsize] at hcore
    exact Db.totalSize_of_core hcore
  | some n =>
    simp only [hsize, asI64_of_le (hmax n hsize)] at hcore
    have hresize := Db.totalSize_resize hi hcore
    show (a.apply now caller i row db).totalSize = db.totalSize + (n - size)
    omega

/-- An accepted write changes the sum by what it changes the size. -/
theorem totalSize_writeEffect (hs : db.StoreInv) {offset : ℕ} {data : List UInt8} {kill : Bool}
    (hi : db.core i = some (row.kind, size)) (hrow : row.size = asU64 size)
    (hmax : offset + data.length ≤ maxFileSize) :
    (writeEffect now i offset data kill row db).totalSize =
      db.totalSize + (max size (offset + data.length : ℕ) - size) := by
  obtain ⟨hwritten, hle⟩ := hs.writtenSize_eq hi hrow hmax
  have hcore := @Db.core_writeEffect db i now offset data kill row
  rw [asI64_of_le hle, hwritten] at hcore
  have hresize := Db.totalSize_resize hi hcore
  have h₀ := hs.size_nonneg i _ size hi
  omega

end Requests

/-! ## Runs -/

/-- The states that runs under a ceiling reach in which no statement fails. -/
inductive CeilingRun (max : ℕ) : Db → Prop
  | start (now : F64) (uid gid : UInt32) : CeilingRun max (.created now uid gid)
  | step {db : Db} (m : Mount) (now : F64) (req : Request) : CeilingRun max db → m.maxSize = max →
      KernelOk db req → CeilingRun max (step (.quiet m now) req db).2

section Runs

variable {max : ℕ} {db : Db}

theorem CeilingRun.reachable (h : CeilingRun max db) : Reachable db := by
  induction h with
  | start now uid gid => exact reachable_created now uid gid
  | step m now req _ _ hok ih => exact ih.step _ hok

/-- One request keeps the sum under the ceiling. -/
theorem totalSize_step_le (hdb : Reachable db) (hle : db.totalSize ≤ max) {m : Mount}
    (hm : m.maxSize = max) (hmax₀ : 0 < max) (hmax : max ≤ i64Max) (now : F64) (req : Request) :
    (step (.quiet m now) req db).2.totalSize ≤ max := by
  have hs := hdb.storeInv
  have hm₀ : m.maxSize ≠ 0 := by omega
  have hle' : db.totalSize ≤ i64Max := hle.trans (Int.ofNat_le.2 hmax)
  obtain ⟨x, hx⟩ := hdb.exists_xattrs
  cases req with
  | setattr caller ino a =>
    cases hrefusal : setattrRefusal m ino a db with
    | some e => rwa [step_setattr_refused hrefusal]
    | none =>
      obtain ⟨row, hrow, hsize, hdb', -⟩ := @step_setattr_accepted m db now caller ino a x hx hrefusal
      obtain ⟨size, hi, hrowSize⟩ := Db.core_of_rowByIno hrow
      obtain ⟨hmaxFile, hfits⟩ := sizeRefusal_eq_none_iff.1 hsize
      rw [hdb', totalSize_apply hi hmaxFile]
      split
      · rename_i n hn
        have hfits := (growthFits_iff hs hle' hm₀ (hmaxFile n hn)).1 (hfits n hn)
        rw [hrowSize, hs.asU64_size hi] at hfits
        have h₀ := hs.size_nonneg ino _ size hi
        by_cases hlt : size.toNat < n
        · have hgrown := hfits hlt
          omega
        · omega
      · exact hle
  | write fh offset data kill =>
    cases hrefusal : writeRefusal m fh offset data db with
    | some e => rwa [step_write_refused hrefusal]
    | none =>
      obtain ⟨row, hrow, hmaxFile, hfits, hstep⟩ :=
        @step_write_accepted m db now fh offset data kill x hx hrefusal
      obtain ⟨size, hi, hrowSize⟩ := Db.core_of_rowByIno hrow
      rw [addU64_of_lt (hmaxFile.trans_lt (by decide)), growthFits_iff hs hle' hm₀ hmaxFile, hrowSize,
        hs.asU64_size hi] at hfits
      rw [hstep, totalSize_writeEffect hs hi hrowSize hmaxFile]
      have h₀ := hs.size_nonneg fh _ size hi
      by_cases hlt : size.toNat < offset + data.length
      · have hgrown := hfits hlt
        omega
      · omega
  | symlink parent linkName target =>
    rcases step_cases (.quiet m now) (.symlink parent linkName target) db with hsame |
      ⟨t, ht, n, -, -, -, hdb'⟩
    · rwa [hsame]
    · have htarget := OsStr.utf8ByteSize_le ht
      by_cases hfits : ceilingFits m t.utf8ByteSize db = true
      · rw [ceilingFits_iff hs hle' htarget] at hfits
        rw [hdb', Db.totalSize_add Db.core_addChild, Db.size_newInode htarget]
        omega
      · rwa [step_symlink_full ht hm₀ (by simpa using hfits)]
  | _ =>
    rcases step_cases (.quiet m now) _ db with hsame | heffect
    · rw [hsame]
      exact hle
    · refine (heffect.totalSize_le hs ?_ ?_ ?_).trans hle
      · exact fun _ _ _ hreq => nomatch hreq
      · exact fun _ _ _ _ hreq => nomatch hreq
      · exact fun _ _ _ hreq => nomatch hreq

theorem CeilingRun.totalSize_le (h : CeilingRun max db) (hmax₀ : 0 < max) (hmax : max ≤ i64Max) :
    db.totalSize ≤ max := by
  induction h with
  | start now uid gid => exact Int.natCast_nonneg max
  | step m now req hrun hm _ ih =>
    exact totalSize_step_le hrun.reachable ih hm hmax₀ hmax now req

/-! ## What is not refused -/

section NotFull

variable {m : Mount} {i : Ino} {kind : Kind} {size : ℤ}

/-- What does not make the inode larger, or still fits, passes the check. -/
theorem growthFits_of_fits (hs : db.StoreInv) (hle : db.totalSize ≤ i64Max) (hm₀ : m.maxSize ≠ 0)
    (hi : db.core i = some (kind, size)) {newSize : ℕ} (hnew : newSize ≤ i64Max)
    (hfits : newSize ≤ size ∨ db.totalSize + (newSize - size) ≤ m.maxSize) :
    growthFits m (asU64 size) newSize db = true := by
  rw [growthFits_iff hs hle hm₀ hnew, hs.asU64_size hi]
  have h₀ := hs.size_nonneg i kind size hi
  omega

theorem write_not_full (hs : db.StoreInv) (hle : db.totalSize ≤ i64Max) (hm₀ : m.maxSize ≠ 0)
    {x : Table (Ino × String) (List UInt8)} (hx : db.xattrs = some x) (now : F64)
    {offset : ℕ} {data : List UInt8} (kill : Bool) (hi : db.core i = some (kind, size))
    (hfits : (offset + data.length : ℕ) ≤ size ∨
      db.totalSize + ((offset + data.length : ℕ) - size) ≤ m.maxSize) :
    (step (.quiet m now) (.write i offset data kill) db).1 ≠ .error (.error .enospc) := by
  obtain ⟨row, hrow, -, hsize⟩ := Db.rowByIno_of_core hi
  cases hrefusal : writeRefusal m i offset data db with
  | none =>
    obtain ⟨row', -, -, -, hstep⟩ := @step_write_accepted m db now i offset data kill x hx hrefusal
    rw [hstep]
    intro h
    cases h
  | some e =>
    rw [step_write_refused hrefusal]
    intro h
    cases h
    -- the last check is passed, and the others have errors of their own
    by_cases hmax : maxFileSize < offset + data.length
    · cases hro : m.readOnly <;> simp [writeRefusal, hro, hmax] at hrefusal
    · have hend := addU64_of_lt ((not_lt.1 hmax).trans_lt (by decide))
      have hgrowth := growthFits_of_fits hs hle hm₀ hi (not_lt.1 hmax) hfits
      cases hro : m.readOnly <;>
        simp [writeRefusal, hro, hmax, hrow, hend, hsize, hgrowth] at hrefusal

theorem setattr_not_full (hs : db.StoreInv) (hle : db.totalSize ≤ i64Max) (hm₀ : m.maxSize ≠ 0)
    {x : Table (Ino × String) (List UInt8)} (hx : db.xattrs = some x) (now : F64)
    (caller : UInt32) {a : SetAttr} {n : ℕ} (hn : a.size = some n)
    (hi : db.core i = some (kind, size))
    (hfits : n ≤ size ∨ db.totalSize + (n - size) ≤ m.maxSize) :
    (step (.quiet m now) (.setattr caller i a) db).1 ≠ .error (.error .enospc) := by
  obtain ⟨row, hrow, -, hsize⟩ := Db.rowByIno_of_core hi
  cases hrefusal : setattrRefusal m i a db with
  | none =>
    obtain ⟨-, -, -, -, hreply⟩ := @step_setattr_accepted m db now caller i a x hx hrefusal
    exact hreply .enospc
  | some e =>
    rw [step_setattr_refused hrefusal]
    intro h
    cases h
    by_cases hmax : maxFileSize < n
    · cases hro : m.readOnly <;>
        simp [setattrRefusal, sizeRefusal, hro, hrow, hn, hmax] at hrefusal
    · have hgrowth := growthFits_of_fits hs hle hm₀ hi (not_lt.1 hmax) hfits
      cases hro : m.readOnly <;>
        simp [setattrRefusal, sizeRefusal, hro, hrow, hn, hmax, hsize, hgrowth] at hrefusal

end NotFull

/-! ## The result -/

/-- The `u64` calculations of the checks are exact. -/
structure Db.NoWrap (db : Db) : Prop where
  used : db.sumSize = .ok db.totalSize ∧ asU64 db.totalSize = db.totalSize.toNat
  room : ∀ offset, offset ≤ maxFileSize → subU64 maxFileSize offset = maxFileSize - offset
  fileEnd : ∀ offset (data : List UInt8), offset + data.length ≤ maxFileSize →
    addU64 offset data.length = offset + data.length
  growth : ∀ i row newSize, db.rowByIno i = some row → newSize ≤ maxFileSize →
    row.size < newSize → subU64 newSize row.size = newSize - row.size ∧
      addU64 (asU64 db.totalSize) (newSize - row.size) =
        asU64 db.totalSize + (newSize - row.size)
  target : ∀ (target : OsStr) t, target.toStr = some t →
    addU64 (asU64 db.totalSize) t.utf8ByteSize = asU64 db.totalSize + t.utf8ByteSize

theorem Db.noWrap (hs : db.StoreInv) (hle : db.totalSize ≤ i64Max) : db.NoWrap := by
  have htotal := Db.asU64_totalSize hs hle
  have hmax : i64Max = 2 ^ 63 - 1 := rfl
  have hfile : maxFileSize = i64Max := rfl
  constructor
  case used => exact ⟨Db.sumSize_eq hs hle, htotal⟩
  case room => exact fun offset ho => subU64_of_le ho (by decide)
  case fileEnd => exact fun offset data h => addU64_of_lt (h.trans_lt (by decide))
  case growth =>
    intro i row newSize _ hnew hlt
    rw [htotal]
    exact ⟨subU64_of_le hlt.le (by omega), addU64_of_lt (by omega)⟩
  case target =>
    intro target t ht
    have hlen := OsStr.utf8ByteSize_le ht
    rw [htotal]
    exact addU64_of_lt (by omega)

/-- What holds under a ceiling of `max`: it is not exceeded, neither by sizes nor by stored bytes,
and what fits under it is not refused for it. -/
structure KeepsCeiling (max : ℕ) (db : Db) : Prop where
  totalSize_le : db.totalSize ≤ max
  storedBytes_le : ∀ i kind size, db.core i = some (kind, size) → (db.storedBytes i : ℤ) ≤ size
  totalStored_le : db.totalStored ≤ max
  write : ∀ m now i offset data kill kind size, m.maxSize = max →
    db.core i = some (kind, size) →
    ((offset + data.length : ℕ) ≤ size ∨
      db.totalSize + ((offset + data.length : ℕ) - size) ≤ max) →
    (step (.quiet m now) (.write i offset data kill) db).1 ≠ .error (.error .enospc)
  setattr : ∀ m now caller i a (n : ℕ) kind size, m.maxSize = max → db.core i = some (kind, size) →
    a.size = some n → (n ≤ size ∨ db.totalSize + (n - size) ≤ max) →
    (step (.quiet m now) (.setattr caller i a) db).1 ≠ .error (.error .enospc)
  noWrap : db.NoWrap

/-- **The ceiling cannot be exceeded**: in every run under a ceiling the sizes and the stored bytes
stay below it, no check refuses what still fits, and no calculation in the checks wraps. -/
theorem ceiling_kept (hmax₀ : 0 < max) (hmax : max ≤ i64Max) (h : CeilingRun max db) :
    KeepsCeiling max db := by
  have hs := h.reachable.storeInv
  have htree := h.reachable.treeInv
  have htotal := h.totalSize_le hmax₀ hmax
  have hle : db.totalSize ≤ i64Max := htotal.trans (Int.ofNat_le.2 hmax)
  obtain ⟨x, hx⟩ := h.reachable.exists_xattrs
  constructor
  case totalSize_le => exact htotal
  case storedBytes_le =>
    intro i kind size hi
    have hstored := Db.storedBytes_le hs hi
    have h₀ := hs.size_nonneg i kind size hi
    omega
  case totalStored_le =>
    have hstored := Db.totalStored_le hs htree.data_owned
    omega
  case write =>
    intro m now i offset data kill kind size hm hi hfits
    subst hm
    exact write_not_full hs hle hmax₀.ne' hx now kill hi hfits
  case setattr =>
    intro m now caller i a n kind size hm hi hn hfits
    subst hm
    exact setattr_not_full hs hle hmax₀.ne' hx now caller hn hi hfits
  case noWrap => exact Db.noWrap hs hle

/-- A mount with a ceiling of one byte. -/
def Mount.tiny : Mount := { Mount.plain with maxSize := 1 }

/-- One byte is written under a ceiling of one byte. -/
theorem ceiling_kept_tiny :
    KeepsCeiling 1 (step (.quiet .tiny 0) (.write 2 0 [1] false)
      (step (.quiet .tiny 0) (.create rootIno nameA 0o644) (.created 0 0 0)).2).2 :=
  ceiling_kept (by decide) (by decide)
    (((CeilingRun.start 0 0 0).step .tiny 0 (.create rootIno nameA 0o644) rfl
      (isDir_root_created 0 0 0)).step .tiny 0 _ rfl trivial)

end Runs

end CofferFS
