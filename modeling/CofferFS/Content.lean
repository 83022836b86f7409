import CofferFS.Tree
import CofferFS.Lib.Sparse
import Mathlib.Data.UInt

/-!
# The blocks of a file

The rows of `data` for one inode are an array in sparse blocks. `StoreInv` says that they fit the
size of the inode, and that inodes without a row in `inodes` have no blocks; every effect keeps it.
`content` is the array, and the lemmas say what a write and a truncate do to it.
-/

namespace CofferFS

namespace Db

/-- The blocks of an inode, missing ones empty. -/
def blocks (db : Db) (i : Ino) (b : ℕ) : List UInt8 := db.block i b

/-- The bytes of an inode. -/
def content (db : Db) (i : Ino) : List UInt8 :=
  Sparse.contents blockSize (db.blocks i) (((db.core i).map fun c => c.2.toNat).getD 0)

/-- What holds of sizes, blocks and the sequence. -/
structure StoreInv (db : Db) : Prop where
  le_seq : ∀ i, i ∈ db.inodes → i ≤ db.seq
  size_nonneg : ∀ i kind size, db.core i = some (kind, size) → 0 ≤ size
  size_le : ∀ i kind size, db.core i = some (kind, size) → size ≤ i64Max
  fits : ∀ i kind size, db.core i = some (kind, size) →
    Sparse.Fits blockSize (db.blocks i) size.toNat
  no_blocks : ∀ i, db.core i = none → db.blocks i = fun _ => []

variable {db db' : Db} {i j : Ino} {now : F64} {kind : Kind} {size : ℤ}

theorem content_of_core (h : db.core i = some (kind, size)) :
    db.content i = Sparse.contents blockSize (db.blocks i) size.toNat := by
  rw [content, h]
  rfl

theorem blocks_of_data (h : db'.data = db.data) : db'.blocks = db.blocks := by
  funext i b
  simp [blocks, block, h]

theorem Concerns.blocks (h : Concerns i db db') (hj : j ≠ i) : db'.blocks j = db.blocks j := by
  funext b
  simp [Db.blocks, block, h.data (j, b) hj]

theorem core_nextIno (db : Db) : db.core db.nextIno = none := by
  simp [core, lookup_nextIno]

/-- The row that a callback reads. -/
theorem core_of_rowByIno {row : InodeRow} (h : db.rowByIno i = some row) :
    ∃ size, db.core i = some (row.kind, size) ∧ row.size = asU64 size := by
  obtain ⟨r, hr, rfl⟩ := Option.map_eq_some_iff.1 h
  exact ⟨r.size, by rw [core, hr]; rfl, rfl⟩

theorem rowByIno_of_core (h : db.core i = some (kind, size)) :
    ∃ row, db.rowByIno i = some row ∧ row.kind = kind ∧ row.size = asU64 size := by
  obtain ⟨r, hr, hc⟩ := core_eq_some_iff.1 h
  cases hc
  exact ⟨db.mapRow i r, by rw [rowByIno, hr]; rfl, rfl, rfl⟩

/-! ## Writing -/

theorem overlay_eq_splice (block : List UInt8) (off : ℕ) (chunk : List UInt8) :
    overlay block off chunk = Sparse.splice block off chunk := by
  have htake : (block ++ List.replicate (off + chunk.length - block.length) 0).take off =
      (block ++ List.replicate (off - block.length) (0 : UInt8)).take off := by
    rw [List.take_append, List.take_append, List.take_replicate, List.take_replicate]
    congr 2
    omega
  have hdrop : (block ++ List.replicate (off + chunk.length - block.length) (0 : UInt8)).drop
      (off + chunk.length) = block.drop (off + chunk.length) := by
    rw [List.drop_append, List.drop_replicate, Nat.sub_self]
    exact List.append_nil _
  show _ ++ chunk ++ _ = _ ++ chunk ++ _
  rw [htake, hdrop]

theorem blocks_deleteBlock {b : ℕ} :
    (db.deleteBlock i b).blocks i = Function.update (db.blocks i) b [] := by
  funext b'
  rw [Function.update_apply]
  show (AList.lookup (i, b') (db.data.erase (i, b))).getD [] = _
  split_ifs with hb
  · subst hb
    rw [AList.lookup_erase]
    rfl
  · have hne : (i, b') ≠ (i, b) := fun h => hb (Prod.ext_iff.1 h).2
    rw [AList.lookup_erase_ne hne]
    rfl

theorem blocks_putBlock {b : ℕ} {content : List UInt8} :
    (db.putBlock i b content).blocks i = Function.update (db.blocks i) b content := by
  unfold putBlock
  split_ifs with hnil
  · rw [List.isEmpty_iff.1 hnil]
    exact blocks_deleteBlock
  · funext b'
    rw [Function.update_apply]
    show (AList.lookup (i, b') (db.data.insert (i, b) content)).getD [] = _
    split_ifs with hb
    · subst hb
      rw [AList.lookup_insert]
      rfl
    · have hne : (i, b') ≠ (i, b) := fun h => hb (Prod.ext_iff.1 h).2
      rw [AList.lookup_insert_ne hne]
      rfl

/-- One round of the loop of `write` writes its chunk. -/
theorem blocks_putBlock_overlay {pos : ℕ} {chunk : List UInt8} :
    (db.putBlock i (pos / blockSize)
        (overlay (db.block i (pos / blockSize)) (pos % blockSize) chunk)).blocks i =
      Function.update (db.blocks i) (pos / blockSize)
        (Sparse.splice (db.blocks i (pos / blockSize)) (pos % blockSize) chunk) := by
  rw [blocks_putBlock, overlay_eq_splice]
  rfl

/-- The loop of `write` writes all of `data` at `pos`, block by block. -/
theorem writeBlocks_spec {pos size : ℕ} {data : List UInt8}
    (h : Sparse.Fits blockSize (db.blocks i) size) :
    Sparse.Fits blockSize ((db.writeBlocks i pos data).blocks i) (max size (pos + data.length)) ∧
      Sparse.contents blockSize ((db.writeBlocks i pos data).blocks i)
          (max size (pos + data.length)) =
        Sparse.splice (Sparse.contents blockSize (db.blocks i) size) pos data := by
  fun_induction writeBlocks i pos data db generalizing size with
  | case1 pos db =>
    exact ⟨h.mono (le_max_left _ _), h.contents_splice_nil⟩
  | case2 pos data db hdata ih =>
    have hlen := chunkLen_le pos data.length
    have htake : (data.take (chunkLen pos data.length)).length = chunkLen pos data.length := by
      rw [List.length_take]
      omega
    have hfit : pos % blockSize + (data.take (chunkLen pos data.length)).length ≤ blockSize := by
      rw [htake]
      exact chunkLen_fits pos data.length
    have hfits := h.update_splice hfit
    have hcontents := h.contents_update_splice hfit
    rw [← blocks_putBlock_overlay] at hfits hcontents
    obtain ⟨hfits', hcontents'⟩ := ih hfits
    -- the two ranges make up the whole one
    have hsize : max (max size (pos + (data.take (chunkLen pos data.length)).length))
        (pos + chunkLen pos data.length + (data.drop (chunkLen pos data.length)).length) =
        max size (pos + data.length) := by
      rw [htake, List.length_drop]
      omega
    rw [hsize] at hfits' hcontents'
    refine ⟨hfits', hcontents'.trans ?_⟩
    rw [hcontents]
    nth_rewrite 2 [← htake]
    rw [Sparse.splice_splice, List.take_append_drop]

/-! ## Truncating -/

theorem blocks_deleteBlocksAbove {last : ℕ} : (db.deleteBlocksAbove i last).blocks i =
    fun b => if last < b then [] else db.blocks i b := by
  funext b
  show (AList.lookup (i, b) (db.data.filter _)).getD [] = _
  rw [AList.lookup_filter]
  by_cases hb : last < b
  · cases db.data.lookup (i, b) <;> simp [hb]
  · cases h : db.data.lookup (i, b) <;> simp [Option.filter, blocks, block, h, hb]

theorem blocks_truncate {n : ℕ} :
    (db.truncate now i n).blocks i = Sparse.cut blockSize (db.blocks i) n := by
  have hsame (db : Db) (s : ℤ) : (db.setSize s now i).blocks i = db.blocks i := rfl
  have hlast : (db.deleteBlocksAbove i (n / blockSize)).block i (n / blockSize) =
      db.blocks i (n / blockSize) := by
    show (db.deleteBlocksAbove i (n / blockSize)).blocks i (n / blockSize) = _
    rw [blocks_deleteBlocksAbove]
    exact if_neg (lt_irrefl _)
  unfold truncate
  rw [hsame]
  funext b
  rw [Sparse.cut]
  split_ifs with hoff hlt heq hlt heq
  · rw [blocks_putBlock, Function.update_of_ne (by omega), blocks_deleteBlocksAbove]
    exact if_pos hlt
  · rw [heq, blocks_putBlock, Function.update_self, hlast]
  · rw [blocks_putBlock, Function.update_of_ne heq, blocks_deleteBlocksAbove]
    exact if_neg hlt
  · rw [blocks_deleteBlock, Function.update_of_ne (by omega), blocks_deleteBlocksAbove]
    exact if_pos hlt
  · rw [heq, blocks_deleteBlock, Function.update_self, Nat.eq_zero_of_not_pos hoff]
    rfl
  · rw [blocks_deleteBlock, Function.update_of_ne heq, blocks_deleteBlocksAbove]
    exact if_neg hlt

theorem blocks_killIf {kill : Bool} : (db.killIf kill i).blocks = db.blocks := by
  unfold killIf
  split_ifs <;> rfl

theorem blocks_apply {a : SetAttr} {caller : UInt32} {row : InodeRow} :
    (a.apply now caller i row db).blocks i =
      match a.size with
      | some n => Sparse.cut blockSize (db.blocks i) n
      | none => db.blocks i := by
  have htimed (db : Db) : (db.utimens now i row a.atime a.mtime).blocks = db.blocks := by
    unfold utimens
    split_ifs <;> rfl
  have howned (db : Db) : (db.chown now i row a.uid a.gid).blocks = db.blocks := by
    unfold chown
    split_ifs <;> rfl
  have hmoded : (db.chmod now i row a.mode).blocks = db.blocks := by
    cases a.mode <;> rfl
  rw [SetAttr.apply, blocks_killIf, htimed]
  cases a.size with
  | none => exact congrFun ((howned _).trans hmoded) i
  | some n =>
    show (truncate now i n _).blocks i = _
    rw [blocks_truncate, howned, hmoded]

theorem blocks_writeEffect {offset : ℕ} {data : List UInt8} {kill : Bool} {row : InodeRow} :
    (writeEffect now i offset data kill row db).blocks i =
      (db.writeBlocks i offset data).blocks i := by
  rw [writeEffect, blocks_killIf]
  rfl

/-! ## The invariant is kept -/

namespace StoreInv

variable (h : db.StoreInv)

include h

theorem asU64_size (hi : db.core i = some (kind, size)) : asU64 size = size.toNat :=
  asU64_of_nonneg (h.size_nonneg i kind size hi) (h.size_le i kind size hi)

/-- The size after an accepted write. -/
theorem writtenSize_eq {offset : ℕ} {data : List UInt8} {row : InodeRow}
    (hi : db.core i = some (kind, size)) (hrow : row.size = asU64 size)
    (hmax : offset + data.length ≤ maxFileSize) :
    writtenSize row offset data = max size.toNat (offset + data.length) ∧
      writtenSize row offset data ≤ i64Max := by
  have hle := h.size_le i kind size hi
  have hmax' : maxFileSize < 2 ^ 64 := by decide
  have hsize : writtenSize row offset data = max size.toNat (offset + data.length) := by
    rw [writtenSize, hrow, h.asU64_size hi, addU64_of_lt (hmax.trans_lt hmax')]
  refine ⟨hsize, ?_⟩
  rw [hsize]
  exact max_le (Int.toNat_le.2 hle) hmax

theorem change (hc : db.Change db') : db'.StoreInv := by
  cases hc with
  | keeps hcore hdata hseq =>
    have hblocks := blocks_of_data hdata
    constructor
    case le_seq =>
      intro i hi
      rw [← core_ne_none_iff, hcore, core_ne_none_iff] at hi
      rw [hseq]
      exact h.le_seq i hi
    case size_nonneg => exact fun i kind size hi => h.size_nonneg i kind size (hcore ▸ hi)
    case size_le => exact fun i kind size hi => h.size_le i kind size (hcore ▸ hi)
    case fits =>
      intro i kind size hi
      rw [hblocks]
      exact h.fits i kind size (hcore ▸ hi)
    case no_blocks =>
      intro i hi
      rw [hblocks]
      exact h.no_blocks i (hcore ▸ hi)
  | @adds k s hsize hmax hfile hcore hdata hseq =>
    have hblocks := blocks_of_data hdata
    -- an inode is the new one, or was there
    have hcases {i : Ino} {kind : Kind} {size : ℤ} (hi : db'.core i = some (kind, size)) :
        (i = db.nextIno ∧ size = s) ∨ db.core i = some (kind, size) := by
      rw [hcore, Function.update_apply] at hi
      split_ifs at hi with hnew
      · cases hi
        exact Or.inl ⟨hnew, rfl⟩
      · exact Or.inr hi
    constructor
    case le_seq =>
      intro i hi
      rw [← core_ne_none_iff] at hi
      obtain ⟨c, hc⟩ := Option.ne_none_iff_exists'.1 hi
      rw [hseq]
      rcases hcases hc with ⟨rfl, -⟩ | hc
      · exact le_refl _
      · exact (lt_nextIno (core_ne_none_iff.1 (by rw [hc]; simp))).le
    case size_nonneg =>
      intro i kind size hi
      rcases hcases hi with ⟨-, rfl⟩ | hi
      · exact hsize
      · exact h.size_nonneg i kind size hi
    case size_le =>
      intro i kind size hi
      rcases hcases hi with ⟨-, rfl⟩ | hi
      · exact hmax
      · exact h.size_le i kind size hi
    case fits =>
      intro i kind size hi
      rw [hblocks]
      rcases hcases hi with ⟨rfl, -⟩ | hi
      · rw [h.no_blocks _ (core_nextIno db)]
        exact Sparse.fits_empty
      · exact h.fits i kind size hi
    case no_blocks =>
      intro i hi
      rw [hblocks]
      apply h.no_blocks
      rw [hcore, Function.update_apply] at hi
      split_ifs at hi with hnew
      exact hi
  | @drops d hd hcore hdata hseq =>
    have hcases {i : Ino} {c : Kind × ℤ} (hi : db'.core i = some c) :
        i ≠ d ∧ db.core i = some c := by
      rw [hcore, Function.update_apply] at hi
      split_ifs at hi with hid
      exact ⟨hid, hi⟩
    have hblocks {i : Ino} (hid : i ≠ d) : db'.blocks i = db.blocks i := by
      funext b
      simp only [blocks, block, hdata, AList.lookup_filter]
      cases db.data.lookup (i, b) <;> simp [Option.filter, hid]
    constructor
    case le_seq =>
      intro i hi
      rw [← core_ne_none_iff] at hi
      obtain ⟨c, hc⟩ := Option.ne_none_iff_exists'.1 hi
      rw [hseq]
      exact h.le_seq i (core_ne_none_iff.1 (by rw [(hcases hc).2]; simp))
    case size_nonneg => exact fun i kind size hi => h.size_nonneg i kind size (hcases hi).2
    case size_le => exact fun i kind size hi => h.size_le i kind size (hcases hi).2
    case fits =>
      intro i kind size hi
      rw [hblocks (hcases hi).1]
      exact h.fits i kind size (hcases hi).2
    case no_blocks =>
      intro i hi
      by_cases hid : i = d
      · funext b
        simp only [blocks, block, hdata, AList.lookup_filter, hid]
        cases db.data.lookup (d, b) <;> simp
      · rw [hblocks hid]
        apply h.no_blocks
        rwa [hcore, Function.update_of_ne hid] at hi

/-- A change of one inode keeps the invariant if its own size and blocks stay in order. -/
theorem concerns (hc : Concerns i db db') (hi : db.core i = some (kind, size)) (size' : ℤ)
    (hi' : db'.core i = some (kind, size')) (h₀ : 0 ≤ size') (hmax : size' ≤ i64Max)
    (hfits : Sparse.Fits blockSize (db'.blocks i) size'.toNat) : db'.StoreInv := by
  have hcases {j : Ino} {k : Kind} {s : ℤ} (hj : db'.core j = some (k, s)) :
      (j = i ∧ s = size') ∨ j ≠ i ∧ db.core j = some (k, s) := by
    by_cases hji : j = i
    · subst hji
      rw [hi'] at hj
      cases hj
      exact Or.inl ⟨rfl, rfl⟩
    · exact Or.inr ⟨hji, (hc.core j hji) ▸ hj⟩
  constructor
  case le_seq =>
    intro j hj
    rw [hc.seq]
    exact h.le_seq j (hc.mem_inodes.1 hj)
  case size_nonneg =>
    intro j k s hj
    rcases hcases hj with ⟨-, rfl⟩ | ⟨-, hj⟩
    · exact h₀
    · exact h.size_nonneg j k s hj
  case size_le =>
    intro j k s hj
    rcases hcases hj with ⟨-, rfl⟩ | ⟨-, hj⟩
    · exact hmax
    · exact h.size_le j k s hj
  case fits =>
    intro j k s hj
    rcases hcases hj with ⟨rfl, rfl⟩ | ⟨hji, hj⟩
    · exact hfits
    · rw [hc.blocks hji]
      exact h.fits j k s hj
  case no_blocks =>
    intro j hj
    have hji : j ≠ i := by
      rintro rfl
      rw [hi'] at hj
      cases hj
    rw [hc.blocks hji]
    exact h.no_blocks j ((hc.core j hji) ▸ hj)

/-- An accepted `setattr` keeps the invariant. -/
theorem apply {a : SetAttr} {caller : UInt32} {row : InodeRow}
    (hrow : db.rowByIno i = some row) (hmax : ∀ n, a.size = some n → n ≤ maxFileSize) :
    (a.apply now caller i row db).StoreInv := by
  obtain ⟨size, hi, -⟩ := core_of_rowByIno hrow
  have hcore := @core_apply db i now a caller row
  have hblocks := @blocks_apply db i now a caller row
  cases hsize : a.size with
  | none =>
    simp only [hsize] at hcore hblocks
    refine h.concerns Concerns.apply hi size ?_ (h.size_nonneg _ _ _ hi)
      (h.size_le _ _ _ hi) ?_
    · rw [hcore, hi]
    · rw [hblocks]
      exact h.fits _ _ _ hi
  | some n =>
    rw [hsize] at hcore hblocks
    have hn : asI64 n = n := asI64_of_le (hmax n hsize)
    refine h.concerns Concerns.apply hi (asI64 n) ?_ ?_ ?_ ?_
    · rw [hcore]
      simp [hi]
    · rw [hn]
      exact Int.natCast_nonneg n
    · rw [hn]
      exact Int.ofNat_le.2 (hmax n hsize)
    · rw [hblocks, hn, Int.toNat_natCast]
      exact Sparse.fits_cut (h.fits _ _ _ hi).length_le

/-- An accepted `write` keeps the invariant. -/
theorem writeEffect {offset : ℕ} {data : List UInt8} {kill : Bool} {row : InodeRow}
    (hrow : db.rowByIno i = some row) (hmax : offset + data.length ≤ maxFileSize) :
    (writeEffect now i offset data kill row db).StoreInv := by
  obtain ⟨size, hi, hsize⟩ := core_of_rowByIno hrow
  obtain ⟨hnew, hle⟩ := h.writtenSize_eq hi hsize hmax
  have hasI64 := asI64_of_le hle
  refine h.concerns Concerns.writeEffect hi (asI64 (writtenSize row offset data)) ?_ ?_ ?_
    ?_
  · rw [core_writeEffect]
    simp [hi]
  · rw [hasI64]
    exact Int.natCast_nonneg _
  · rw [hasI64]
    exact Int.ofNat_le.2 hle
  · rw [blocks_writeEffect, hasI64, Int.toNat_natCast, hnew]
    exact (writeBlocks_spec (h.fits _ _ _ hi)).1

end StoreInv

/-! ## What the effects do to the content -/

section Effects

variable (h : db.StoreInv)

include h

theorem content_write {offset : ℕ} {data : List UInt8} {kill : Bool} {row : InodeRow}
    (hrow : db.rowByIno i = some row) (hmax : offset + data.length ≤ maxFileSize) :
    (CofferFS.writeEffect now i offset data kill row db).content i =
      Sparse.splice (db.content i) offset data := by
  obtain ⟨size, hi, hsize⟩ := core_of_rowByIno hrow
  obtain ⟨hnew, hle⟩ := h.writtenSize_eq hi hsize hmax
  have hcore : (CofferFS.writeEffect now i offset data kill row db).core i =
      some (row.kind, asI64 (writtenSize row offset data)) := by
    rw [core_writeEffect]
    simp [hi]
  rw [content_of_core hcore, content_of_core hi, blocks_writeEffect, asI64_of_le hle,
    Int.toNat_natCast, hnew]
  exact (writeBlocks_spec (h.fits _ _ _ hi)).2

theorem content_apply {a : SetAttr} {caller : UInt32} {row : InodeRow}
    (hrow : db.rowByIno i = some row) (hmax : ∀ n, a.size = some n → n ≤ maxFileSize) :
    (a.apply now caller i row db).content i =
      match a.size with
      | some n => Sparse.resize (db.content i) n
      | none => db.content i := by
  obtain ⟨size, hi, -⟩ := core_of_rowByIno hrow
  have hcore := @core_apply db i now a caller row
  have hblocks := @blocks_apply db i now a caller row
  cases hsize : a.size with
  | none =>
    rw [hsize] at hcore hblocks
    rw [content, content, hcore, hblocks]
  | some n =>
    rw [hsize] at hcore hblocks
    have hcore' : (a.apply now caller i row db).core i = some (row.kind, asI64 n) := by
      rw [hcore]
      simp [hi]
    rw [content_of_core hcore', content_of_core hi, hblocks, asI64_of_le (hmax n hsize),
      Int.toNat_natCast]
    exact (h.fits _ _ _ hi).contents_cut

end Effects

/-- The requests that change the set of inodes leave the content of those that stay alone. -/
theorem content_change (hc : db.Change db') (hi : i ∈ db'.inodes) :
    db'.content i = db.content i ∨ i = db.nextIno := by
  cases hc with
  | keeps hcore hdata _ =>
    left
    rw [content, content, hcore, blocks_of_data hdata]
  | adds _ _ _ hcore hdata _ =>
    by_cases hnew : i = db.nextIno
    · exact Or.inr hnew
    · left
      rw [content, content, hcore, blocks_of_data hdata, Function.update_of_ne hnew]
  | @drops d _ hcore hdata _ =>
    left
    have hid : i ≠ d := by
      rintro rfl
      rw [← core_ne_none_iff, hcore, Function.update_self] at hi
      exact hi rfl
    have hblocks : db'.blocks i = db.blocks i := by
      funext b
      simp only [blocks, block, hdata, AList.lookup_filter]
      cases db.data.lookup (i, b) <;> simp [Option.filter, hid]
    rw [content, content, hcore, hblocks, Function.update_of_ne hid]

theorem Concerns.content (h : Concerns i db db') (hj : j ≠ i) : db'.content j = db.content j := by
  rw [Db.content, Db.content, h.core j hj, h.blocks hj]

end Db

/-- Every effect keeps the invariant. -/
theorem Effect.storeInv {m : Mount} {now : F64} {req : Request} {db db' : Db}
    (he : Effect m now req db db') (htree : db.TreeInv) (h : db.StoreInv) : db'.StoreInv := by
  rcases he.cases htree.child with hc | ⟨caller, ino, a, row, -, hrow, hmax, rfl⟩ |
    ⟨fh, offset, data, kill, row, -, hrow, hmax, rfl⟩
  · exact h.change hc
  · exact h.apply hrow hmax
  · exact h.writeEffect hrow hmax

theorem storeInv_created (now : F64) (uid gid : UInt32) : (Db.created now uid gid).StoreInv := by
  have hcases (i : Ino) (kind : Kind) (size : ℤ)
      (hi : (Db.created now uid gid).core i = some (kind, size)) : i = rootIno ∧ size = 0 := by
    obtain ⟨r, hr, hc⟩ := Db.core_eq_some_iff.1 hi
    change ((∅ : Table Ino Inode).insert rootIno _).lookup i = some r at hr
    rw [AList.lookup_insert_eq] at hr
    split_ifs at hr with hroot
    · cases hr
      cases hc
      exact ⟨hroot, rfl⟩
    · rw [AList.lookup_empty] at hr
      cases hr
  have hblocks (i : Ino) : (Db.created now uid gid).blocks i = fun _ => [] := by
    funext b
    show ((∅ : Table (Ino × ℕ) (List UInt8)).lookup (i, b)).getD [] = []
    rw [AList.lookup_empty]
    rfl
  constructor
  case le_seq =>
    intro i hi
    obtain ⟨⟨kind, size⟩, hc⟩ := Option.ne_none_iff_exists'.1 (Db.core_ne_none_iff.2 hi)
    exact (hcases i kind size hc).1.le
  case size_nonneg => exact fun i kind size hi => (hcases i kind size hi).2.ge
  case size_le =>
    intro i kind size hi
    rw [(hcases i kind size hi).2]
    exact Int.natCast_nonneg _
  case fits =>
    intro i kind size hi
    rw [hblocks]
    exact Sparse.fits_empty
  case no_blocks => exact fun i _ => hblocks i

/-- One request keeps the invariant, whatever fails. -/
theorem Db.StoreInv.step {db : Db} (h : db.StoreInv) (htree : db.TreeInv) (env : Env)
    (req : Request) : (step env req db).2.StoreInv := by
  rcases step_cases env req db with hsame | heffect
  · rwa [hsame]
  · exact heffect.storeInv htree h

theorem Reachable.storeInv {db : Db} (h : Reachable db) : db.StoreInv := by
  have hboth : db.TreeInv ∧ db.StoreInv := by
    refine h.induction (P := fun db => db.TreeInv ∧ db.StoreInv) ?_ ?_
    · exact fun now uid gid => ⟨treeInv_created now uid gid, storeInv_created now uid gid⟩
    · exact fun env req db hdb hok => ⟨hdb.1.step env hok, hdb.2.step hdb.1 env req⟩
  exact hboth.2

end CofferFS
