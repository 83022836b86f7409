import CofferFS.Ceiling

/-!
# The arithmetic of sizes

Every size is in `i64` in every state that is reached (`StoreInv`). Their sum is not: two sparse
files are enough to take it above `i64::MAX`, and then SQLite's `SUM` is an error in every place
that asks for it. `sizes_in_range` says that nothing goes wrong as long as no request adds more to
the sum than there is room for in `i64`.
-/

namespace CofferFS

open Script

/-! ## Who asks for the sum -/

/-- The query of `cmd_info`. -/
def infoUsed : Sql ℤ := query Db.sumSize

/-- What the watcher of an idle mount takes for reclaimable, given the size of the container. -/
def idleGap (onDisk : ℕ) : Sql ℕ := do
  let used ← attempt (query Db.sumSize)
  let used := match used with | .ok u => u | .error _ => 0
  pure (onDisk - asU64 used)

/-! ## Requests that make files larger -/

namespace Request

/-- How much a request adds to the sum of the sizes at most. -/
def growth (db : Db) : Request → ℕ
  | .setattr _ ino a =>
    match a.size, db.core ino with
    | some n, some c => n - c.2.toNat
    | _, _ => 0
  | .write fh offset data _ =>
    match db.core fh with
    | some c => offset + data.length - c.2.toNat
    | none => 0
  | .symlink _ _ target =>
    match target.toStr with
    | some t => t.utf8ByteSize
    | none => 0
  | _ => 0

/-- The file would be larger than any file may be. -/
def TooLarge : Request → Prop
  | .setattr _ _ a => ∃ n, a.size = some n ∧ maxFileSize < n
  | .write _ offset data _ => maxFileSize < offset + data.length
  | _ => False

/-- The sum of the sizes stays in `i64`, or the request is refused: by a mount that is read-only,
for the size of the file, or for a ceiling. The ceiling is only checked if the sum can be read. -/
def Fits (env : Env) (req : Request) (db : Db) : Prop :=
  db.totalSize + req.growth db ≤ i64Max ∨ env.mount.readOnly = true ∨ req.TooLarge ∨
    env.fails = noFailure ∧ env.mount.maxSize ≠ 0 ∧
      env.mount.maxSize < db.totalSize + req.growth db

end Request

/-- The states that are reached if every request fits. -/
inductive SizeRun : Db → Prop
  | start (now : F64) (uid gid : UInt32) : SizeRun (.created now uid gid)
  | step {db : Db} (env : Env) (req : Request) : SizeRun db → KernelOk db req →
      req.Fits env db → SizeRun (step env req db).2

section Step

variable {env : Env} {m : Mount} {now : F64} {req : Request} {db db' : Db}

/-- A request adds to the sum what it says. -/
theorem Effect.totalSize_le_growth (h : Effect m now req db db') (hs : db.StoreInv) :
    db'.totalSize ≤ db.totalSize + req.growth db := by
  cases req with
  | setattr caller ino a =>
    obtain ⟨row, hrow, hmax, rfl⟩ := h
    obtain ⟨size, hi, -⟩ := Db.core_of_rowByIno hrow
    have h₀ := hs.size_nonneg ino _ size hi
    rw [totalSize_apply hi hmax, Request.growth, hi]
    cases a.size with
    | none => exact (add_zero _).ge
    | some n =>
      show db.totalSize + (n - size) ≤ db.totalSize + ((n - size.toNat : ℕ) : ℤ)
      omega
  | write fh offset data kill =>
    obtain ⟨row, hrow, hmax, rfl⟩ := h
    obtain ⟨size, hi, hrowSize⟩ := Db.core_of_rowByIno hrow
    have h₀ := hs.size_nonneg fh _ size hi
    rw [totalSize_writeEffect hs hi hrowSize hmax, Request.growth, hi]
    show db.totalSize + (max size (offset + data.length : ℕ) - size) ≤
      db.totalSize + ((offset + data.length - size.toNat : ℕ) : ℤ)
    omega
  | symlink parent linkName target =>
    obtain ⟨t, ht, n, -, -, -, rfl⟩ := h
    have htarget := OsStr.utf8ByteSize_le ht
    rw [Db.totalSize_add Db.core_addChild, Db.size_newInode htarget, Request.growth, ht, add_comm]
  | _ =>
    refine (h.totalSize_le hs ?_ ?_ ?_).trans (le_add_of_nonneg_right (Int.natCast_nonneg _))
    · exact fun _ _ _ hreq => nomatch hreq
    · exact fun _ _ _ _ hreq => nomatch hreq
    · exact fun _ _ _ hreq => nomatch hreq

/-- What would make a file too large has no effect. -/
theorem Effect.not_tooLarge (h : Effect m now req db db') : ¬ req.TooLarge := by
  cases req with
  | setattr caller ino a =>
    obtain ⟨row, -, hmax, -⟩ := h
    intro hlarge
    obtain ⟨n, hn, hlt⟩ := hlarge
    exact absurd (hmax n hn) (Nat.not_le.2 hlt)
  | write fh offset data kill =>
    obtain ⟨row, -, hmax, -⟩ := h
    exact Nat.not_lt.2 hmax
  | _ => exact id

/-- A request that adds to the sum has no effect on a read-only mount. -/
theorem step_readOnly (hro : env.mount.readOnly = true) (hgrowth : req.growth db ≠ 0) :
    (step env req db).2 = db := by
  have hrefused {k : Unit → Call Answer} (h : handle env.mount env.now req =
      refuseIf env.mount.readOnly .erofs >>= k) : (step env req db).2 = db := by
    rw [step, h, run_bind_of_error (run_refuseIf_true hro)]
  cases req with
  | setattr caller ino a => exact hrefused rfl
  | write fh offset data kill => exact hrefused rfl
  | symlink parent linkName target => exact hrefused rfl
  | _ => exact absurd rfl hgrowth

/-- A request that would exceed a ceiling has no effect. -/
theorem step_over_ceiling (hdb : Reachable db) (hle : db.totalSize ≤ i64Max) (hm₀ : m.maxSize ≠ 0)
    (hover : m.maxSize < db.totalSize + req.growth db) (hgrowth : req.growth db ≠ 0) :
    (step (.quiet m now) req db).2 = db := by
  have hs := hdb.storeInv
  obtain ⟨x, hx⟩ := hdb.exists_xattrs
  cases req with
  | setattr caller ino a =>
    cases hrefusal : setattrRefusal m ino a db with
    | some e => rw [step_setattr_refused hrefusal]
    | none =>
      exfalso
      obtain ⟨row, hrow, hsize, -, -⟩ := @step_setattr_accepted m db now caller ino a x hx hrefusal
      obtain ⟨size, hi, hrowSize⟩ := Db.core_of_rowByIno hrow
      obtain ⟨hmaxFile, hfits⟩ := sizeRefusal_eq_none_iff.1 hsize
      have h₀ := hs.size_nonneg ino _ size hi
      rw [Request.growth, hi] at hover hgrowth
      cases hn : a.size with
      | none => exact hgrowth (by rw [hn])
      | some n =>
        simp only [hn] at hover hgrowth
        have hgrown := (growthFits_iff hs hle hm₀ (hmaxFile n hn)).1 (hfits n hn)
        rw [hrowSize, hs.asU64_size hi] at hgrown
        have hfits := hgrown (by omega)
        omega
  | write fh offset data kill =>
    cases hrefusal : writeRefusal m fh offset data db with
    | some e => rw [step_write_refused hrefusal]
    | none =>
      exfalso
      obtain ⟨row, hrow, hmaxFile, hfits, -⟩ :=
        @step_write_accepted m db now fh offset data kill x hx hrefusal
      obtain ⟨size, hi, hrowSize⟩ := Db.core_of_rowByIno hrow
      have h₀ := hs.size_nonneg fh _ size hi
      rw [Request.growth, hi] at hover hgrowth
      simp only at hover hgrowth
      rw [addU64_of_lt (hmaxFile.trans_lt (by decide)), growthFits_iff hs hle hm₀ hmaxFile, hrowSize,
        hs.asU64_size hi] at hfits
      have hfits := hfits (by omega)
      omega
  | symlink parent linkName target =>
    cases ht : target.toStr with
    | none => exact absurd (by rw [Request.growth, ht]) hgrowth
    | some t =>
      rw [Request.growth, ht] at hover
      refine step_symlink_full ht hm₀ (Bool.eq_false_iff.2 fun hfits => ?_)
      rw [ceilingFits_iff hs hle (OsStr.utf8ByteSize_le ht)] at hfits
      exact absurd hover (not_lt.2 hfits)
  | _ => exact absurd rfl hgrowth

/-- One request that fits keeps the sum in `i64`. -/
theorem totalSize_step_le_i64Max (hdb : Reachable db) (hle : db.totalSize ≤ i64Max)
    (hfits : req.Fits env db) : (step env req db).2.totalSize ≤ i64Max := by
  by_cases hroom : db.totalSize + req.growth db ≤ i64Max
  · rcases step_cases env req db with hsame | heffect
    · rwa [hsame]
    · exact (heffect.totalSize_le_growth hdb.storeInv).trans hroom
  · have hgrowth : req.growth db ≠ 0 := by omega
    rcases hfits.resolve_left hroom with hro | hlarge | ⟨hfails, hm₀, hover⟩
    · rwa [step_readOnly hro hgrowth]
    · rcases step_cases env req db with hsame | heffect
      · rwa [hsame]
      · exact absurd hlarge heffect.not_tooLarge
    · have hquiet : env = .quiet env.mount env.now := by rw [Env.quiet, ← hfails]
      rw [hquiet, step_over_ceiling hdb hle hm₀ hover hgrowth]
      exact hle

end Step

/-! ## Runs -/

section Runs

variable {db : Db}

theorem SizeRun.reachable (h : SizeRun db) : Reachable db := by
  induction h with
  | start now uid gid => exact reachable_created now uid gid
  | step env req _ hok _ ih => exact ih.step env hok

theorem SizeRun.totalSize_le (h : SizeRun db) : db.totalSize ≤ i64Max := by
  induction h with
  | start now uid gid => exact Int.natCast_nonneg i64Max
  | step env req hrun _ hfits ih => exact totalSize_step_le_i64Max hrun.reachable ih hfits

/-- The arithmetic of sizes is exact: what is stored, what is cast, and whatever asks for the sum. -/
structure SizesInRange (db : Db) : Prop where
  size : ∀ i kind size, db.core i = some (kind, size) → 0 ≤ size ∧ size ≤ i64Max
  mapRow : ∀ i row, db.rowByIno i = some row →
    ∃ size, db.core i = some (row.kind, size) ∧ (row.size : ℤ) = size
  written : ∀ i row offset (data : List UInt8), db.rowByIno i = some row →
    offset + data.length ≤ maxFileSize →
      asI64 (writtenSize row offset data) = (max row.size (offset + data.length) : ℕ)
  truncated : ∀ n, n ≤ maxFileSize → asI64 n = n
  blockNo : ∀ pos, pos ≤ maxFileSize → asI64 (pos / blockSize) = (pos / blockSize : ℕ)
  stored : ∀ i b, db.blocks i b ≠ [] → asI64 b = b
  totalSize : 0 ≤ db.totalSize ∧ db.totalSize ≤ i64Max
  currentTotalSize : currentTotalSize.Runs db (.ok db.totalSize.toNat) db
  info : infoUsed.Runs db (.ok db.totalSize) db
  idle : ∀ onDisk, (idleGap onDisk).Runs db (.ok (onDisk - db.totalSize.toNat)) db
  ceiling : ∀ m increase, increase ≤ i64Max →
    (ceilingFits m increase db = true ↔ db.totalSize + increase ≤ m.maxSize)
  full : ∀ m, notFull m db = true ↔ db.totalSize < m.maxSize
  statfs : ∀ m now, 0 < m.maxSize → (step (.quiet m now) .statfs db).1 =
    .ok (.statfs (m.maxSize / 4096) ((m.maxSize - db.totalSize.toNat) / 4096)
      ((m.maxSize - db.totalSize.toNat) / 4096) 0 1000000 4096 255 4096)

theorem runs_idleGap (hs : db.StoreInv) (hle : db.totalSize ≤ i64Max) (onDisk : ℕ) :
    (idleGap onDisk).Runs db (.ok (onDisk - db.totalSize.toNat)) db := by
  have hquery : (query Db.sumSize : Sql ℤ).Runs db (.ok db.totalSize) db :=
    runs_query_ok (Db.sumSize_eq hs hle)
  rw [← Db.asU64_totalSize hs hle]
  exact Runs.bind hquery.attempt (runs_pure _)

theorem runs_currentTotalSize (hs : db.StoreInv) (hle : db.totalSize ≤ i64Max) :
    currentTotalSize.Runs db (.ok db.totalSize.toNat) db := by
  refine runs_query_ok ?_
  rw [Db.sumSize_eq hs hle, ← Db.asU64_totalSize hs hle]
  rfl

theorem notFull_iff (hs : db.StoreInv) (hle : db.totalSize ≤ i64Max) (m : Mount) :
    notFull m db = true ↔ db.totalSize < m.maxSize := by
  have h₀ := Db.totalSize_nonneg hs
  rw [notFull, sumPasses, Db.sumSize_eq hs hle]
  simp only [Db.asU64_totalSize hs hle, Bool.not_eq_true', decide_eq_false_iff_not, not_le]
  omega

theorem step_statfs (hs : db.StoreInv) (hle : db.totalSize ≤ i64Max) {m : Mount}
    (hmax : 0 < m.maxSize) (now : F64) : (step (.quiet m now) .statfs db).1 =
      .ok (.statfs (m.maxSize / 4096) ((m.maxSize - db.totalSize.toNat) / 4096)
        ((m.maxSize - db.totalSize.toNat) / 4096) 0 1000000 4096 255 4096) := by
  have hruns : (handle m now .statfs).Runs db
      (.ok (.statfs (m.maxSize / 4096) ((m.maxSize - db.totalSize.toNat) / 4096)
        ((m.maxSize - db.totalSize.toNat) / 4096) 0 1000000 4096 255 4096)) db := by
    refine Runs.bind (runs_currentTotalSize hs hle).attempt ?_
    simp only [if_pos hmax]
    exact runs_pure _
  rw [step_quiet hruns]

/-- **The arithmetic of sizes stays in range** in every run whose requests fit. -/
theorem sizes_in_range (h : SizeRun db) : SizesInRange db := by
  have hs := h.reachable.storeInv
  have hle := h.totalSize_le
  have hfile : maxFileSize = i64Max := rfl
  constructor
  case size => exact fun i kind size hi => ⟨hs.size_nonneg i kind size hi, hs.size_le i kind size hi⟩
  case mapRow =>
    intro i row hrow
    obtain ⟨size, hi, hrowSize⟩ := Db.core_of_rowByIno hrow
    have h₀ := hs.size_nonneg i _ size hi
    rw [hs.asU64_size hi] at hrowSize
    exact ⟨size, hi, by omega⟩
  case written =>
    intro i row offset data hrow hmax
    obtain ⟨size, hi, hrowSize⟩ := Db.core_of_rowByIno hrow
    obtain ⟨hwritten, hle⟩ := hs.writtenSize_eq hi hrowSize hmax
    rw [asI64_of_le hle, hwritten, hrowSize, hs.asU64_size hi]
  case truncated => exact fun n hn => asI64_of_le hn
  case blockNo => exact fun pos hpos => asI64_of_le ((Nat.div_le_self _ _).trans hpos)
  case stored =>
    intro i b hb
    cases hi : db.core i with
    | none => exact absurd (congrFun (hs.no_blocks i hi) b) hb
    | some c =>
      have hfits := (hs.fits i c.1 c.2 hi).le_size b hb
      have hsize := hs.size_le i c.1 c.2 hi
      have hpos := Nat.le_mul_of_pos_right b blockSize_pos
      exact asI64_of_le (by omega)
  case totalSize => exact ⟨Db.totalSize_nonneg hs, hle⟩
  case currentTotalSize => exact runs_currentTotalSize hs hle
  case info => exact runs_query_ok (Db.sumSize_eq hs hle)
  case idle => exact runs_idleGap hs hle
  case ceiling => exact fun m increase hincrease => ceilingFits_iff hs hle hincrease
  case full => exact notFull_iff hs hle
  case statfs => exact fun m now hmax => step_statfs hs hle hmax now

/-- The file of the small container is made as large as a file may be. -/
theorem sizes_in_range_sparse : SizesInRange
    (step (.quiet .plain 0) (.setattr 0 2 { size := some i64Max }) .oneFile).2 :=
  sizes_in_range (((SizeRun.start 0 0 0).step (.quiet .plain 0) (.create rootIno nameA 0o644)
    (isDir_root_created 0 0 0) (.inl (by decide +kernel))).step (.quiet .plain 0)
      (.setattr 0 2 { size := some i64Max }) trivial (.inl (by decide +kernel)))

/-- Two empty files. -/
def Db.twoEmpty : Db := (step (.quiet .plain 0) (.create rootIno nameB 0o644) .oneFile).2

/-- One of them as large as a file may be, the other of one byte. -/
def Db.twoSparse : Db :=
  (step (.quiet .plain 0) (.setattr 0 3 { size := some 1 })
    (step (.quiet .plain 0) (.setattr 0 2 { size := some i64Max }) .twoEmpty).2).2

/-- Two sparse files, and the sum of the sizes cannot be asked for. -/
theorem two_sparse_files_overflow : ¬ ∀ db, Reachable db → SizesInRange db := by
  intro h
  have hroot : Db.oneFile.IsDir rootIno := by
    have hkind : (Db.oneFile.inodes.lookup rootIno).map (·.kind) = some .dir := by decide +kernel
    exact Option.map_eq_some_iff.1 hkind
  have htwo : Reachable .twoEmpty :=
    @Reachable.step _ reachable_oneFile _ (.create rootIno nameB 0o644) hroot
  have hlarge := @Reachable.step _ htwo (.quiet .plain 0) (.setattr 0 2 { size := some i64Max })
    trivial
  have hreach : Reachable .twoSparse :=
    @Reachable.step _ hlarge (.quiet .plain 0) (.setattr 0 3 { size := some 1 }) trivial
  obtain ⟨n, hrun⟩ := (h _ hreach).info 0
  have herror : (infoUsed.run noFailure 0 .twoSparse).val = .error .other := by decide +kernel
  rw [hrun] at herror
  cases herror

end Runs

end CofferFS
