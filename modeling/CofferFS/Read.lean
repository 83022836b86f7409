import CofferFS.Content

/-!
# What a read returns

`read` fetches one block after the other, and takes a block that it cannot fetch for an empty one
(`get_block(..).unwrap_or_default()`). So what it returns depends on which fetches fail:
`readLoop_run` says how. Without failures a read returns the content of the file. With failures it
may return zeros where other bytes are stored, `read_honest_iff` says exactly when.
-/

namespace CofferFS

open Script

section Loop

variable {db : Db} {i : Ino} {fs : ℕ → Option SqlError} {n : ℕ}

theorem readPiece_eq_resize (block : List UInt8) (off len : ℕ) :
    readPiece block off len = Sparse.resize (block.drop off) len := by
  unfold readPiece Sparse.resize
  rw [List.length_drop]
  split_ifs with h
  · have htake : (block.drop off).take (min len (block.length - off)) =
        (block.drop off).take len :=
      List.take_eq_take_iff.2 (by rw [List.length_drop]; omega)
    rw [htake]
    congr 2
    omega
  · rw [List.drop_eq_nil_of_le (by omega), List.take_nil, List.nil_append]
    congr 1
    omega

theorem readPiece_eq (block : List UInt8) (off len : ℕ) :
    readPiece block off len = (List.range' off len).map fun k => block.getD k 0 := by
  rw [readPiece_eq_resize]
  apply Sparse.ext_getD
  · rw [Sparse.length_resize, List.length_map, List.length_range']
  · intro k
    rw [Sparse.getD_resize, Sparse.getD_drop]
    by_cases hk : k < len
    · have hk' : k < ((List.range' off len).map fun k => block.getD k 0).length := by
        rwa [List.length_map, List.length_range']
      rw [if_pos hk, List.getD_eq_getElem _ 0 hk', List.getElem_map, List.getElem_range'_1]
    · rw [if_neg hk, Sparse.getD_eq_zero]
      rw [List.length_map, List.length_range']
      omega

theorem blockOrDefault_run {b : ℕ} : (blockOrDefault i b).run fs n db =
    ⟨.ok (if fs n = none then db.blocks i b else []), n + 1, db⟩ := by
  cases h : fs n with
  | none => simp [blockOrDefault, getBlock, query, run_bind, run_attempt, run_exec, run_pure, h,
      Except.map, Db.blocks]
  | some e => simp [blockOrDefault, getBlock, query, run_bind, run_attempt, run_exec, run_pure, h]

/-- The byte that a read from `pos` delivers for position `j`, if its first fetch is statement
`n`: a block that cannot be fetched counts as empty. -/
def fetched (fs : ℕ → Option SqlError) (n : ℕ) (db : Db) (i : Ino) (pos j : ℕ) : UInt8 :=
  if fs (n + (j / blockSize - pos / blockSize)) = none then
    Sparse.get blockSize (db.blocks i) j
  else 0

/-- The chunk that comes out of one block. -/
theorem readPiece_fetched {pos len : ℕ} (hfit : pos % blockSize + len ≤ blockSize) :
    readPiece (if fs n = none then db.blocks i (pos / blockSize) else []) (pos % blockSize) len =
      (List.range' pos len).map (fetched fs n db i pos) := by
  have hsame (j : ℕ) (hj : j ∈ List.range' pos len) : j / blockSize = pos / blockSize := by
    have hpos := Nat.div_add_mod' pos blockSize
    obtain ⟨hlo, hhi⟩ := List.mem_range'_1.1 hj
    rw [Nat.div_eq_iff blockSize_pos]
    omega
  have hfetched : (List.range' pos len).map (fetched fs n db i pos) =
      (List.range' pos len).map fun j =>
        if fs n = none then Sparse.get blockSize (db.blocks i) j else 0 := by
    apply List.map_congr_left
    intro j hj
    rw [fetched, hsame j hj, Nat.sub_self, Nat.add_zero]
  rw [hfetched, readPiece_eq]
  split_ifs
  · exact (Sparse.range_map_get hfit).symm
  · simp

/-- What the loop of `read` appends, whichever fetches fail. -/
theorem readLoop_run (stop pos : ℕ) (out : List UInt8) (n : ℕ) :
    ∃ n', (readLoop i stop pos out).run fs n db =
      ⟨.ok (out ++ (List.range' pos (stop - pos)).map (fetched fs n db i pos)), n', db⟩ := by
  fun_induction readLoop i stop pos out generalizing n with
  | case1 pos out hlt ih =>
    obtain ⟨n', hrest⟩ := ih (if fs n = none then db.blocks i (pos / blockSize) else []) (n + 1)
    refine ⟨n', ?_⟩
    rw [run_bind_of_ok blockOrDefault_run, hrest]
    have hlen := chunkLen_le pos (stop - pos)
    have hfit := chunkLen_fits pos (stop - pos)
    -- the loop goes on only after a whole block
    have hnext (j : ℕ) (hj : j ∈ List.range' (pos + chunkLen pos (stop - pos))
        (stop - (pos + chunkLen pos (stop - pos)))) :
        fetched fs (n + 1) db i (pos + chunkLen pos (stop - pos)) j = fetched fs n db i pos j := by
      obtain ⟨hlo, hhi⟩ := List.mem_range'_1.1 hj
      have hwhole : chunkLen pos (stop - pos) = blockSize - pos % blockSize := by
        unfold chunkLen at hlo hhi ⊢
        omega
      have hpos := Nat.div_add_mod' pos blockSize
      have hmod := Nat.mod_lt pos blockSize_pos
      have hdiv : (pos + chunkLen pos (stop - pos)) / blockSize = pos / blockSize + 1 := by
        rw [Nat.div_eq_iff blockSize_pos, hwhole, Nat.succ_mul]
        omega
      have hle : pos / blockSize + 1 ≤ j / blockSize := by
        rw [← hdiv]
        exact Nat.div_le_div_right hlo
      have hidx : n + 1 + (j / blockSize - (pos / blockSize + 1)) =
          n + (j / blockSize - pos / blockSize) := by
        omega
      rw [fetched, fetched, hdiv, hidx]
    have hsum : chunkLen pos (stop - pos) + (stop - (pos + chunkLen pos (stop - pos))) =
        stop - pos := by
      omega
    rw [List.append_assoc, readPiece_fetched hfit, List.map_congr_left hnext, ← List.map_append,
      List.range'_append_1, hsum]
  | case2 pos out hge =>
    refine ⟨n, ?_⟩
    rw [run_pure, Nat.sub_eq_zero_of_le (by omega)]
    simp

end Loop

/-! ## The whole callback -/

section Callback

variable {db : Db} {fh : Ino} {offset : UInt64} {size : UInt32} {fs : ℕ → Option SqlError}

/-- Where the read stops. A sum that wraps is below the offset, and the offset is beyond the end of
every file then. -/
theorem stop_sub_offset {fileSize : ℕ} (h : fileSize ≤ i64Max) :
    min (addU64 offset.toNat size.toNat) fileSize - offset.toNat =
      min size.toNat (fileSize - offset.toNat) := by
  have hoffset := offset.toNat_lt
  have hsize := size.toNat_lt
  rw [i64Max] at h
  unfold addU64
  omega

/-- What `read` answers, whichever fetches fail. -/
theorem read_run (h : db.StoreInv) {kind : Kind} {fileSize : ℤ}
    (hi : db.core fh = some (kind, fileSize)) (hrow : fs 0 = none) :
    ∃ n', (read fh offset.toNat size.toNat).run fs 0 db =
      ⟨.ok (.data ((List.range' offset.toNat
        (min size.toNat (fileSize.toNat - offset.toNat))).map
          (fetched fs 1 db fh offset.toNat))), n', db⟩ := by
  obtain ⟨row, hrow', -, hsize⟩ := Db.rowByIno_of_core hi
  rw [h.asU64_size hi] at hsize
  have hquery : (orEio (rowByIno fh)).run fs 0 db = ⟨.ok (some row), 1, db⟩ :=
    run_orErrno_of_ok (run_query_of_ok hrow (by rw [hrow']))
  have hstop : min (addU64 offset.toNat size.toNat) fileSize.toNat - offset.toNat =
      min size.toNat (fileSize.toNat - offset.toNat) :=
    stop_sub_offset (Int.toNat_le.2 (h.size_le fh kind fileSize hi))
  unfold read
  rw [run_bind_of_ok hquery]
  show ∃ n', (if min (addU64 offset.toNat size.toNat) row.size ≤ offset.toNat then _ else _ :
    Call Answer).run fs 1 db = _
  rw [hsize]
  split_ifs with hle
  · refine ⟨1, ?_⟩
    rw [← hstop, Nat.sub_eq_zero_of_le hle]
    rfl
  · obtain ⟨n', hloop⟩ := @readLoop_run db fh fs
      (min (addU64 offset.toNat size.toNat) fileSize.toNat) offset.toNat [] 1
    refine ⟨n', ?_⟩
    rw [run_bind_of_ok hloop, run_pure, hstop, List.nil_append]

theorem slice_content {kind : Kind} {fileSize : ℤ} (hi : db.core fh = some (kind, fileSize)) :
    ((db.content fh).drop offset.toNat).take size.toNat =
      (List.range' offset.toNat (min size.toNat (fileSize.toNat - offset.toNat))).map
        (Sparse.get blockSize (db.blocks fh)) := by
  rw [Db.content_of_core hi]
  exact Sparse.slice_contents

/-- The read is answered with an error, or with the bytes that are stored in the range. -/
def ReadHonest (env : Env) (db : Db) (fh : Ino) (offset : UInt64) (size : UInt32) : Prop :=
  ∀ a, (step env (.read fh offset size) db).1 = .ok a →
    a = .data (((db.content fh).drop offset.toNat).take size.toNat)

/-- **A read is honest exactly if** it stops at the row of the inode, or no fetch fails of a block
that holds anything but zeros in the range. The fetches are the statements from number 1 on. -/
theorem readHonest_iff (hdb : Reachable db) (env : Env) :
    ReadHonest env db fh offset size ↔ env.fails 0 ≠ none ∨ fh ∉ db.inodes ∨
      ∀ j, offset.toNat ≤ j → j < offset.toNat + size.toNat → (db.content fh).getD j 0 ≠ 0 →
        env.fails (1 + (j / blockSize - offset.toNat / blockSize)) = none := by
  have h := hdb.storeInv
  by_cases hrow : env.fails 0 = none
  · cases hi : db.core fh with
    | none =>
      have hino : fh ∉ db.inodes := fun hmem => Db.core_ne_none_iff.2 hmem hi
      refine ⟨fun _ => Or.inr (Or.inl hino), fun _ a ha => ?_⟩
      have hquery : (orEio (rowByIno fh)).run env.fails 0 db = ⟨.ok none, 1, db⟩ := by
        refine run_orErrno_of_ok (run_query_of_ok hrow ?_)
        rw [Db.rowByIno, AList.lookup_eq_none.2 hino]
        rfl
      have hrun : (read fh offset.toNat size.toNat).run env.fails 0 db =
          ⟨.error (.error .enoent), 1, db⟩ := by
        unfold read
        rw [run_bind_of_ok hquery]
        rfl
      change ((read fh offset.toNat size.toNat).run env.fails 0 db).val = .ok a at ha
      rw [hrun] at ha
      cases ha
    | some c =>
      obtain ⟨kind, fileSize⟩ := c
      have hino : fh ∈ db.inodes := Db.core_ne_none_iff.1 (by rw [hi]; simp)
      obtain ⟨n', hrun⟩ := @read_run db fh offset size env.fails h kind fileSize hi hrow
      have hfits := h.fits fh kind fileSize hi
      have hget (j : ℕ) : (db.content fh).getD j 0 = Sparse.get blockSize (db.blocks fh) j := by
        rw [Db.content_of_core hi, hfits.getD_contents]
      -- the reply is honest if every byte is
      have hbytes : ReadHonest env db fh offset size ↔
          ∀ j ∈ List.range' offset.toNat (min size.toNat (fileSize.toNat - offset.toNat)),
            fetched env.fails 1 db fh offset.toNat j = Sparse.get blockSize (db.blocks fh) j := by
        rw [← List.map_inj_left, ← slice_content hi]
        unfold ReadHonest
        show (∀ a, ((read fh offset.toNat size.toNat).run env.fails 0 db).val = .ok a → _) ↔ _
        rw [hrun]
        simp
      rw [hbytes]
      constructor
      · intro hall
        refine Or.inr (Or.inr fun j hlo hhi hne => ?_)
        rw [hget] at hne
        have hj : j < fileSize.toNat := by
          by_contra hge
          exact hne (hfits.get_eq_zero (by omega))
        have hmem : j ∈ List.range' offset.toNat (min size.toNat (fileSize.toNat - offset.toNat)) :=
          List.mem_range'_1.2 ⟨hlo, by omega⟩
        have hj' := hall j hmem
        by_contra hfail
        rw [fetched, if_neg hfail] at hj'
        exact hne hj'.symm
      · intro hor j hmem
        obtain ⟨hlo, hhi⟩ := List.mem_range'_1.1 hmem
        rw [fetched]
        split_ifs with hfetch
        · rfl
        · by_contra hne
          have hall := (hor.resolve_left fun hne => hne hrow).resolve_left fun hn => hn hino
          refine hfetch (hall j hlo (by omega) ?_)
          rw [hget]
          exact Ne.symm hne
  · refine ⟨fun _ => Or.inl hrow, fun _ a ha => ?_⟩
    obtain ⟨e, he⟩ := Option.ne_none_iff_exists'.1 hrow
    have hrun : (read fh offset.toNat size.toNat).run env.fails 0 db =
        ⟨.error (.error .eio), 1, db⟩ := by
      unfold read
      exact run_bind_of_error (run_orErrno_of_error (run_query_of_failure he))
    change ((read fh offset.toNat size.toNat).run env.fails 0 db).val = .ok a at ha
    rw [hrun] at ha
    cases ha

/-- The condition at work: the row cannot be read. -/
theorem readHonest_oneByte :
    ReadHonest ⟨.plain, 0, fun n => if n = 0 then some .other else none⟩ .oneByte 2 0 1 :=
  (readHonest_iff reachable_oneByte _).2 (Or.inl (by decide))

/-- **A read may fabricate data**: of a file that holds the byte 1, with a failing fetch, it
returns the byte 0. -/
theorem read_fabricates : ∃ env db fh offset size, Reachable db ∧
    ¬ ReadHonest env db fh offset size := by
  refine ⟨⟨.plain, 0, fun n => if n = 1 then some .other else none⟩, .oneByte, 2, 0, 1,
    reachable_oneByte, fun h => ?_⟩
  have hreply : (step ⟨.plain, 0, fun n => if n = 1 then some .other else none⟩ (.read 2 0 1)
      .oneByte).1 = .ok (.data [0]) := by
    decide +kernel
  have hslice : ((Db.oneByte.content 2).drop (0 : UInt64).toNat).take (1 : UInt32).toNat = [1] := by
    decide +kernel
  have hdata := h _ hreply
  rw [hslice] at hdata
  exact absurd hdata (by decide)

end Callback

end CofferFS
