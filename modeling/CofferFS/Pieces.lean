import CofferFS.Ceiling
import CofferFS.Files

/-!
# Requests in pieces

The kernel splits long reads and writes as it likes. It does not matter how: writing the pieces of
some data one behind the other is accepted exactly if one write of all of it would be, also under a
ceiling, and leaves the same sizes and the same bytes (`write_pieces`). What is read in pieces is
what one read gives (`read_pieces`).
-/

namespace CofferFS

open Script

/-- The mount has no ceiling, or the container is below it. -/
def Mount.Covers (m : Mount) (db : Db) : Prop :=
  m.maxSize = 0 ∨ db.totalSize ≤ m.maxSize ∧ m.maxSize ≤ i64Max

/-- The pieces are written one behind the other. -/
def writePieces (m : Mount) (now : F64) (kill : Bool) (i : Ino) :
    ℕ → List (List UInt8) → Db → List Reply × Db
  | _, [], db => ([], db)
  | offset, p :: rest, db =>
    let first := step (.quiet m now) (.write i offset p kill) db
    let others := writePieces m now kill i (offset + p.length) rest first.2
    (first.1 :: others.1, others.2)

/-- The pieces are read one behind the other. -/
def readPieces (m : Mount) (now : F64) (i : Ino) (db : Db) : ℕ → List UInt32 → List Reply
  | _, [] => []
  | offset, n :: rest =>
    (step (.quiet m now) (.read i (UInt64.ofNat offset) n) db).1 ::
      readPieces m now i db (offset + n.toNat) rest

variable {m : Mount} {now : F64} {kill : Bool} {db db' : Db} {i : Ino} {offset : ℕ}
  {p q data : List UInt8} {pieces rest : List (List UInt8)} {kind : Kind} {size : ℤ}

/-! ## One write -/

/-- The write is in the range of `i64`, and fits. -/
structure WriteFits (m : Mount) (db : Db) (offset length : ℕ) (size : ℤ) : Prop where
  writable : m.readOnly = false
  le_max : offset + length ≤ maxFileSize
  fits : m.maxSize ≠ 0 → size < (offset + length : ℕ) →
    db.totalSize + ((offset + length : ℕ) - size) ≤ m.maxSize

theorem writeRefusal_eq_none_iff (hs : db.StoreInv) (hc : m.Covers db)
    (hi : db.core i = some (kind, size)) :
    writeRefusal m i offset data db = none ↔ WriteFits m db offset data.length size := by
  obtain ⟨row, hrow, -, hsize⟩ := Db.rowByIno_of_core hi
  have h₀ := hs.size_nonneg i kind size hi
  -- the check of the ceiling means what it says
  have hgrowth (hmax : offset + data.length ≤ maxFileSize) :
      growthFits m row.size (addU64 offset data.length) db = true ↔
        (m.maxSize ≠ 0 → size < (offset + data.length : ℕ) →
          db.totalSize + ((offset + data.length : ℕ) - size) ≤ m.maxSize) := by
    by_cases hm₀ : m.maxSize = 0
    · simp [growthFits, hm₀]
    · obtain ⟨htotal, hmax'⟩ := hc.resolve_left hm₀
      rw [addU64_of_lt (hmax.trans_lt (by decide)), hsize, hs.asU64_size hi,
        growthFits_iff hs (htotal.trans (Int.ofNat_le.2 hmax')) hm₀ hmax]
      simp only [ne_eq, hm₀, not_false_eq_true, forall_const]
      omega
  constructor
  · intro h
    unfold writeRefusal at h
    split_ifs at h with hro hmax
    rw [hrow] at h
    simp only at h
    split_ifs at h with hfits
    exact ⟨by simpa using hro, not_lt.1 hmax, (hgrowth (not_lt.1 hmax)).1 hfits⟩
  · intro h
    unfold writeRefusal
    rw [if_neg (by simp [h.writable]), if_neg (not_lt.2 h.le_max), hrow]
    exact if_pos ((hgrowth h.le_max).2 h.fits)

/-- What an accepted write leaves. -/
structure Written (db db' : Db) (i : Ino) (offset : ℕ) (data : List UInt8) (kind : Kind)
    (size : ℤ) : Prop where
  core : db'.core =
    Function.update db.core i (some (kind, max size (offset + data.length : ℕ)))
  content : db'.content = Function.update db.content i (Sparse.splice (db.content i) offset data)
  totalSize : db'.totalSize = db.totalSize + (max size (offset + data.length : ℕ) - size)

theorem step_write_written (hdb : Reachable db) (hc : m.Covers db)
    (hi : db.core i = some (kind, size)) (h : WriteFits m db offset data.length size) :
    (step (.quiet m now) (.write i offset data kill) db).1 =
        .ok (.written (data.length % 2 ^ 32)) ∧
      Written db (step (.quiet m now) (.write i offset data kill) db).2 i offset data kind size := by
  have hs := hdb.storeInv
  obtain ⟨x, hx⟩ := hdb.exists_xattrs
  obtain ⟨row, hrow, hmax, -, hstep⟩ := @step_write_accepted m db now i offset data kill x hx
    ((writeRefusal_eq_none_iff hs hc hi).2 h)
  obtain ⟨size', hi', hsize⟩ := Db.core_of_rowByIno hrow
  obtain ⟨rfl, rfl⟩ := Prod.mk.inj (Option.some.inj (hi'.symm.trans hi))
  rw [hstep]
  obtain ⟨hwritten, hle⟩ := hs.writtenSize_eq hi hsize hmax
  refine ⟨rfl, ?_, funext fun j => ?_, totalSize_writeEffect hs hi hsize hmax⟩
  · rw [Db.core_writeEffect, hi, asI64_of_le hle, Option.map_some]
    have h₀ := hs.size_nonneg i _ size' hi
    congr 3
    omega
  · by_cases hj : j = i
    · subst hj
      rw [Function.update_self]
      exact Db.content_write hs hrow hmax
    · rw [Function.update_of_ne hj]
      exact Db.Concerns.writeEffect.content hj

theorem Written.core_self (h : Written db db' i offset data kind size) :
    db'.core i = some (kind, max size (offset + data.length : ℕ)) := by
  rw [h.core, Function.update_self]

theorem Written.covers (h : Written db db' i offset data kind size) (hc : m.Covers db)
    (hfits : WriteFits m db offset data.length size) : m.Covers db' := by
  by_cases hm₀ : m.maxSize = 0
  · exact Or.inl hm₀
  · obtain ⟨hbelow, hmax⟩ := hc.resolve_left hm₀
    have htotal := h.totalSize
    have hgrown := hfits.fits hm₀
    exact Or.inr ⟨by omega, hmax⟩

theorem WriteFits.of_append (h : WriteFits m db offset (p ++ q).length size) :
    WriteFits m db offset p.length size := by
  rw [List.length_append] at h
  have hle := h.le_max
  refine ⟨h.writable, by omega, fun hm₀ hgrow => ?_⟩
  have hfits := h.fits hm₀
  omega

/-- The rest of the data fits behind the first piece exactly if all of it fits. -/
theorem Written.fits_append (h : Written db db' i offset p kind size)
    (hp : WriteFits m db offset p.length size) :
    WriteFits m db offset (p ++ q).length size ↔
      WriteFits m db' (offset + p.length) q.length (max size (offset + p.length : ℕ)) := by
  have htotal := h.totalSize
  rw [List.length_append]
  constructor
  · intro hall
    have hle := hall.le_max
    refine ⟨hall.writable, by omega, fun hm₀ hgrow => ?_⟩
    have hfits := hall.fits hm₀
    omega
  · intro hq
    have hle := hq.le_max
    refine ⟨hp.writable, by omega, fun hm₀ hgrow => ?_⟩
    have hfits := hp.fits hm₀
    have hfits' := hq.fits hm₀
    omega

/-- A write behind a write is one write. -/
theorem Written.append {db'' : Db} (h : Written db db' i offset p kind size)
    (h' : Written db' db'' i (offset + p.length) q kind (max size (offset + p.length : ℕ))) :
    Written db db'' i offset (p ++ q) kind size := by
  have hlen : max (max size (offset + p.length : ℕ)) (offset + p.length + q.length : ℕ) =
      max size (offset + (p ++ q).length : ℕ) := by
    rw [List.length_append]
    omega
  refine ⟨?_, ?_, ?_⟩
  · rw [h'.core, h.core, Function.update_idem, hlen]
  · rw [h'.content, h.content, Function.update_idem, Function.update_self, Sparse.splice_splice]
  · rw [h'.totalSize, h.totalSize, hlen]
    omega

/-! ## The pieces -/

/-- What is not accepted is refused, and changes nothing. -/
theorem step_write_not_written (hdb : Reachable db) (hc : m.Covers db)
    (hi : db.core i = some (kind, size)) (h : ¬ WriteFits m db offset data.length size) :
    ∃ e, step (.quiet m now) (.write i offset data kill) db = (.error (.error e), db) := by
  cases hrefusal : writeRefusal m i offset data db with
  | none => exact (h ((writeRefusal_eq_none_iff hdb.storeInv hc hi).1 hrefusal)).elim
  | some e => exact ⟨e, step_write_refused hrefusal⟩

theorem writePieces_written (hdb : Reachable db) (hc : m.Covers db)
    (hi : db.core i = some (kind, size))
    (h : WriteFits m db offset (p ++ rest.flatten).length size) :
    (writePieces m now kill i offset (p :: rest) db).1 =
        (p :: rest).map (fun q => .ok (.written (q.length % 2 ^ 32))) ∧
      Written db (writePieces m now kill i offset (p :: rest) db).2 i offset (p ++ rest.flatten)
        kind size := by
  induction rest generalizing p offset db size with
  | nil =>
    rw [List.flatten_nil, List.append_nil] at h ⊢
    obtain ⟨hreply, hwritten⟩ := @step_write_written m now kill db i offset p _ _ hdb hc hi h
    exact ⟨congrArg (· :: []) hreply, hwritten⟩
  | cons q rest ih =>
    have hp := h.of_append
    obtain ⟨hreply, hwritten⟩ := @step_write_written m now kill db i offset p _ _ hdb hc hi hp
    have hnext : Reachable (step (.quiet m now) (.write i offset p kill) db).2 :=
      hdb.step (.quiet m now) (show KernelOk db (.write i offset p kill) from trivial)
    obtain ⟨hreplies, hrest⟩ := ih hnext (hwritten.covers hc hp) hwritten.core_self
      ((hwritten.fits_append hp).1 h)
    exact ⟨congrArg₂ _ hreply hreplies, hwritten.append hrest⟩

/-- If all of it does not fit, one of the pieces is refused. -/
theorem writePieces_refused (hdb : Reachable db) (hc : m.Covers db)
    (hi : db.core i = some (kind, size))
    (h : ¬ WriteFits m db offset (p ++ rest.flatten).length size) :
    ∃ r ∈ (writePieces m now kill i offset (p :: rest) db).1, ∃ e, r = .error e := by
  induction rest generalizing p offset db size with
  | nil =>
    rw [List.flatten_nil, List.append_nil] at h
    obtain ⟨e, he⟩ := @step_write_not_written m now kill db i offset p _ _ hdb hc hi h
    exact ⟨_, List.mem_cons_self, _, congrArg Prod.fst he⟩
  | cons q rest ih =>
    by_cases hp : WriteFits m db offset p.length size
    · obtain ⟨-, hwritten⟩ := @step_write_written m now kill db i offset p _ _ hdb hc hi hp
      have hnext : Reachable (step (.quiet m now) (.write i offset p kill) db).2 :=
        hdb.step (.quiet m now) (show KernelOk db (.write i offset p kill) from trivial)
      obtain ⟨r, hr, he⟩ := ih hnext (hwritten.covers hc hp) hwritten.core_self
        fun hq => h ((hwritten.fits_append hp).2 hq)
      exact ⟨r, List.mem_cons_of_mem _ hr, he⟩
    · obtain ⟨e, he⟩ := @step_write_not_written m now kill db i offset p _ _ hdb hc hi hp
      exact ⟨_, List.mem_cons_self, _, congrArg Prod.fst he⟩

/-- **It does not matter how a write is split**: the pieces are accepted exactly if the whole is, and
leave the same sizes and bytes. -/
theorem write_pieces (hdb : Reachable db) (hc : m.Covers db) (hi : i ∈ db.inodes)
    (hne : pieces ≠ []) :
    ((∃ e, (step (.quiet m now) (.write i offset pieces.flatten kill) db).1 = .error e) ↔
      ∃ r ∈ (writePieces m now kill i offset pieces db).1, ∃ e, r = .error e) ∧
    ∀ a, (step (.quiet m now) (.write i offset pieces.flatten kill) db).1 = .ok a →
      (writePieces m now kill i offset pieces db).2.core =
          (step (.quiet m now) (.write i offset pieces.flatten kill) db).2.core ∧
        (writePieces m now kill i offset pieces db).2.content =
          (step (.quiet m now) (.write i offset pieces.flatten kill) db).2.content := by
  obtain ⟨⟨kind, size⟩, hi⟩ := Option.ne_none_iff_exists'.1 (Db.core_ne_none_iff.2 hi)
  obtain ⟨p, rest, rfl⟩ := List.exists_cons_of_ne_nil hne
  rw [List.flatten_cons]
  by_cases h : WriteFits m db offset (p ++ rest.flatten).length size
  · obtain ⟨hreply, hwhole⟩ := @step_write_written m now kill db i offset _ _ _ hdb hc hi h
    obtain ⟨hreplies, hpieces⟩ := @writePieces_written m now kill db i offset p rest _ _ hdb hc hi h
    refine ⟨iff_of_false ?_ ?_, fun _ _ => ⟨?_, ?_⟩⟩
    · rw [hreply]
      rintro ⟨e, he⟩
      cases he
    · rw [hreplies]
      rintro ⟨r, hr, e, rfl⟩
      obtain ⟨q, -, hq⟩ := List.mem_map.1 hr
      cases hq
    · rw [hpieces.core, hwhole.core]
    · rw [hpieces.content, hwhole.content]
  · obtain ⟨e, he⟩ := @step_write_not_written m now kill db i offset _ _ _ hdb hc hi h
    rw [he]
    refine ⟨iff_of_true ⟨_, rfl⟩ ?_, fun a ha => by cases ha⟩
    exact writePieces_refused hdb hc hi h

theorem write_pieces_oneFile :
    (∃ e, (step (.quiet .plain 0) (.write 2 3 [7, 8] false) .oneFile).1 = .error e) ↔
      ∃ r ∈ (writePieces .plain 0 false 2 3 [[7], [8]] .oneFile).1, ∃ e, r = .error e := by
  have hmem : 2 ∈ Db.oneFile.inodes := by decide +kernel
  have hne : ([[7], [8]] : List (List UInt8)) ≠ [] := by simp
  exact (write_pieces reachable_oneFile (Or.inl rfl) hmem hne).1

/-! ## Reading -/

theorem step_read (hdb : Reachable db) (hi : db.core i = some (kind, size)) (offset : UInt64)
    (n : UInt32) : (step (.quiet m now) (.read i offset n) db).1 =
      .ok (.data (((db.content i).drop offset.toNat).take n.toNat)) := by
  obtain ⟨n', hrun⟩ := @read_run db i offset n noFailure hdb.storeInv kind size hi rfl
  have hrun' : (handle m now (.read i offset n)).run noFailure 0 db =
      ⟨.ok (.data (((db.content i).drop offset.toNat).take n.toNat)), n', db⟩ := by
    rw [slice_content hi]
    exact hrun
  exact congrArg Prod.fst (@step_eq_of_run _ _ (.quiet m now) _ _ _ hrun')

/-- Adjacent pieces of an array make up one piece of it. -/
theorem readPieces_eq (hdb : Reachable db) (hi : db.core i = some (kind, size))
    {sizes : List UInt32} (hend : offset + (sizes.map UInt32.toNat).sum < 2 ^ 64) :
    ∃ parts : List (List UInt8), readPieces m now i db offset sizes =
        parts.map (fun b => .ok (.data b)) ∧
      parts.flatten = ((db.content i).drop offset).take (sizes.map UInt32.toNat).sum := by
  induction sizes generalizing offset with
  | nil => exact ⟨[], rfl, by simp⟩
  | cons n sizes ih =>
    rw [List.map_cons, List.sum_cons] at hend
    obtain ⟨parts, hparts, hflatten⟩ := @ih (offset + n.toNat) (by omega)
    have hoffset : (UInt64.ofNat offset).toNat = offset :=
      Nat.mod_eq_of_lt ((Nat.le_add_right _ _).trans_lt hend)
    refine ⟨((db.content i).drop offset).take n.toNat :: parts, ?_, ?_⟩
    · rw [readPieces, step_read hdb hi, hoffset, hparts]
      rfl
    · rw [List.flatten_cons, hflatten, List.map_cons, List.sum_cons, List.take_add, List.drop_drop]

/-- **It does not matter how a read is split**: the pieces together are what one read of all of it
gives. -/
theorem read_pieces (hdb : Reachable db) (hi : i ∈ db.inodes) {sizes : List UInt32} {n : UInt32}
    (hsum : (sizes.map UInt32.toNat).sum = n.toNat) (hend : offset + n.toNat < 2 ^ 64) :
    ∃ parts : List (List UInt8),
      readPieces m now i db offset sizes = parts.map (fun b => .ok (.data b)) ∧
        (step (.quiet m now) (.read i (UInt64.ofNat offset) n) db).1 =
          .ok (.data parts.flatten) := by
  obtain ⟨⟨kind, size⟩, hi⟩ := Option.ne_none_iff_exists'.1 (Db.core_ne_none_iff.2 hi)
  obtain ⟨parts, hparts, hflatten⟩ := @readPieces_eq m now _ i offset _ _ hdb hi sizes
    (by rwa [hsum])
  have hoffset : (UInt64.ofNat offset).toNat = offset :=
    Nat.mod_eq_of_lt ((Nat.le_add_right _ _).trans_lt hend)
  refine ⟨parts, hparts, ?_⟩
  rw [step_read hdb hi, hflatten, hsum, hoffset]

/-- The byte that there is, in pieces of none, one and two. -/
theorem read_pieces_oneByte : ∃ parts : List (List UInt8),
    readPieces .plain 0 2 .oneByte 0 [0, 1, 2] = parts.map (fun b => .ok (.data b)) ∧
      (step (.quiet .plain 0) (.read 2 (UInt64.ofNat 0) 3) .oneByte).1 =
        .ok (.data parts.flatten) :=
  read_pieces reachable_oneByte (by decide +kernel) (by decide) (by decide)

end CofferFS
