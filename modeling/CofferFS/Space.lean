import CofferFS.Sizes

/-!
# The free space that statfs reports

Under a ceiling `statfs` reports the bytes that are left in blocks of 4096. `statfs_honest` says
what that is worth, for a ceiling up to `i64::MAX` and as long as no statement fails: what fits into
the free blocks is never refused for lack of space, and what is a block larger than they are is
never accepted.
-/

namespace CofferFS

open Script

variable {m : Mount} {db : Db} {now now' : F64} {max : ℕ}

/-- The request writes to an inode that exists, or sets its size. -/
def Request.Sizes (db : Db) : Request → Prop
  | .write fh _ _ _ => fh ∈ db.inodes
  | .setattr _ ino a => ino ∈ db.inodes ∧ a.size.isSome
  | _ => False

/-- What fits under the ceiling is not refused for lack of space. -/
theorem step_fits (hdb : Reachable db) (hle : db.totalSize ≤ i64Max) (hm₀ : m.maxSize ≠ 0)
    {req : Request} (hreq : req.Sizes db) (hfits : db.totalSize + req.growth db ≤ m.maxSize) :
    (step (.quiet m now) req db).1 ≠ .error (.error .enospc) := by
  have hs := hdb.storeInv
  obtain ⟨x, hx⟩ := hdb.exists_xattrs
  cases req with
  | write fh offset data kill =>
    obtain ⟨⟨kind, size⟩, hi⟩ := Option.ne_none_iff_exists'.1 (Db.core_ne_none_iff.2 hreq)
    have h₀ := hs.size_nonneg fh kind size hi
    refine write_not_full hs hle hm₀ hx now kill hi ?_
    rw [Request.growth, hi] at hfits
    simp only at hfits
    omega
  | setattr caller ino a =>
    obtain ⟨hmem, hsome⟩ := hreq
    obtain ⟨n, hn⟩ := Option.isSome_iff_exists.1 hsome
    obtain ⟨⟨kind, size⟩, hi⟩ := Option.ne_none_iff_exists'.1 (Db.core_ne_none_iff.2 hmem)
    have h₀ := hs.size_nonneg ino kind size hi
    refine setattr_not_full hs hle hm₀ hx now caller hn hi ?_
    rw [Request.growth, hi, hn] at hfits
    simp only at hfits
    omega
  | _ => exact hreq.elim

/-- **What statfs reports as free can be written, and a block more cannot.** -/
theorem statfs_honest (h : CeilingRun max db) (hmax₀ : 0 < max) (hmax : max ≤ i64Max)
    (hm : m.maxSize = max) {blocks bfree bavail files ffree bsize namelen frsize : ℕ}
    (hreply : (step (.quiet m now) .statfs db).1 =
      .ok (.statfs blocks bfree bavail files ffree bsize namelen frsize))
    {req : Request} (hreq : req.Sizes db) :
    (req.growth db ≤ bavail * bsize →
        (step (.quiet m now') req db).1 ≠ .error (.error .enospc)) ∧
      ((bavail + 1) * bsize ≤ req.growth db → (step (.quiet m now') req db).2 = db) := by
  have hs := h.reachable.storeInv
  have htotal := h.totalSize_le hmax₀ hmax
  have hle : db.totalSize ≤ i64Max := htotal.trans (Int.ofNat_le.2 hmax)
  have h₀ := Db.totalSize_nonneg hs
  rw [step_statfs hs hle (by omega)] at hreply
  cases hreply
  refine ⟨fun hgrowth => step_fits h.reachable hle (by omega) hreq ?_, fun hgrowth => ?_⟩
  · omega
  · exact step_over_ceiling h.reachable hle (by omega) (by omega) (by omega)

/-- Under a ceiling of one byte no block is free, and no block can be written. -/
theorem statfs_honest_tiny : (step (.quiet .tiny 0) (.write 2 0 (List.replicate 4096 1) false)
    (step (.quiet .tiny 0) (.create rootIno nameA 0o644) (.created 0 0 0)).2).2 =
      (step (.quiet .tiny 0) (.create rootIno nameA 0o644) (.created 0 0 0)).2 := by
  have hrun := (CeilingRun.start 0 0 0).step .tiny 0 (.create rootIno nameA 0o644) rfl
    (isDir_root_created 0 0 0)
  have hreply : (step (.quiet .tiny 0) .statfs
      (step (.quiet .tiny 0) (.create rootIno nameA 0o644) (.created 0 0 0)).2).1 =
        .ok (.statfs 0 0 0 0 1000000 4096 255 4096) := by
    decide +kernel
  refine (statfs_honest hrun (by decide) (by decide) rfl hreply ?_).2 (by decide +kernel)
  show 2 ∈ _
  decide +kernel

end CofferFS
