import Mathlib.Data.List.AList
import Mathlib.Algebra.BigOperators.Group.List.Basic
import Mathlib.Algebra.BigOperators.Group.Finset.Basic
import Mathlib.Algebra.Order.BigOperators.Group.List
import Mathlib.Algebra.Order.Group.Int
import Mathlib.Data.Set.Card
import Mathlib.Tactic.Ring

/-!
# Tables with a primary key

A table is a finite map from its primary key to the rest of the row, so a row with a
duplicate key cannot be written down. It is Mathlib's `AList`; what is added here are the
operations of SQL that `AList` lacks: a `DELETE` and an `UPDATE` with a condition, an `INSERT`
that the primary key may refuse, an `UPDATE` of the key itself, `count(*)` and `SUM`. Each comes
with the lemma that says what a later lookup finds.
-/

/-- A table with primary key `κ` and remaining columns `ν`. -/
abbrev Table (κ ν : Type*) := AList fun _ : κ => ν

namespace AList

variable {κ ν : Type*} [DecidableEq κ]

/-! ## Conditional delete and update -/

/-- The rows that satisfy `p`: what `DELETE … WHERE NOT p` leaves. -/
def filter (p : κ → ν → Bool) (t : Table κ ν) : Table κ ν :=
  ⟨t.entries.filter fun e => p e.1 e.2, t.nodupKeys.sublist List.filter_sublist⟩

/-- `UPDATE … SET v = f v WHERE p`. -/
def update (p : κ → ν → Bool) (f : ν → ν) (t : Table κ ν) : Table κ ν :=
  ⟨t.entries.map fun e => ⟨e.1, if p e.1 e.2 then f e.2 else e.2⟩,
    List.NodupKeys.map₂ (fun k v => if p k v then f v else v) t.entries t.nodupKeys⟩

theorem mem_entries_iff {t : Table κ ν} {k : κ} {v : ν} :
    (⟨k, v⟩ : Σ _ : κ, ν) ∈ t.entries ↔ t.lookup k = some v :=
  mem_lookup_iff.symm

@[simp] theorem lookup_filter (p : κ → ν → Bool) (t : Table κ ν) (k : κ) :
    (t.filter p).lookup k = (t.lookup k).filter (p k) := by
  apply Option.ext
  intro v
  rw [← mem_entries_iff, Option.filter_eq_some_iff, ← mem_entries_iff]
  simp [filter, List.mem_filter]

@[simp] theorem lookup_update (p : κ → ν → Bool) (f : ν → ν) (t : Table κ ν) (k : κ) :
    (t.update p f).lookup k = (t.lookup k).map fun v => if p k v then f v else v :=
  List.dlookup_map₂ (f := fun k v => if p k v then f v else v) k

theorem mem_filter_key {p : κ → Bool} {t : Table κ ν} {k : κ} :
    k ∈ t.filter (fun k _ => p k) ↔ k ∈ t ∧ p k = true := by
  rw [← lookup_isSome, lookup_filter, ← lookup_isSome]
  cases t.lookup k <;> cases p k <;> simp

omit [DecidableEq κ] in
@[simp] theorem filter_filter_self (p : κ → ν → Bool) (t : Table κ ν) :
    (t.filter p).filter p = t.filter p :=
  AList.ext (by simp [filter, List.filter_filter])

/-- Update the row with key `k`. -/
def updateKey (k : κ) (f : ν → ν) (t : Table κ ν) : Table κ ν := t.update (fun k' _ => k' = k) f

theorem lookup_updateKey (k k' : κ) (f : ν → ν) (t : Table κ ν) :
    (t.updateKey k f).lookup k' = if k' = k then (t.lookup k').map f else t.lookup k' := by
  rw [updateKey, lookup_update]
  by_cases h : k' = k <;> simp [h]

@[simp] theorem lookup_updateKey_self (k : κ) (f : ν → ν) (t : Table κ ν) :
    (t.updateKey k f).lookup k = (t.lookup k).map f := by
  rw [lookup_updateKey, if_pos rfl]

theorem lookup_updateKey_of_ne {k k' : κ} (h : k' ≠ k) (f : ν → ν) (t : Table κ ν) :
    (t.updateKey k f).lookup k' = t.lookup k' := by
  rw [lookup_updateKey, if_neg h]

@[simp] theorem keys_updateKey (k : κ) (f : ν → ν) (t : Table κ ν) :
    (t.updateKey k f).keys = t.keys :=
  List.map₂_keys (fun k' v => if decide (k' = k) then f v else v) t.entries

theorem lookup_erase_eq (k k' : κ) (t : Table κ ν) :
    (t.erase k).lookup k' = if k' = k then none else t.lookup k' := by
  split_ifs with h
  · rw [h, lookup_erase]
  · exact lookup_erase_ne h

theorem lookup_insert_eq (k k' : κ) (v : ν) (t : Table κ ν) :
    (t.insert k v).lookup k' = if k' = k then some v else t.lookup k' := by
  split_ifs with h
  · rw [h, lookup_insert]
  · exact lookup_insert_ne h

theorem mem_of_lookup_eq_some {t : Table κ ν} {k : κ} {v : ν} (h : t.lookup k = some v) : k ∈ t :=
  lookup_isSome.1 (by rw [h]; rfl)

theorem exists_lookup_of_mem {t : Table κ ν} {k : κ} (h : k ∈ t) : ∃ v, t.lookup k = some v :=
  Option.isSome_iff_exists.1 (lookup_isSome.2 h)

/-! ## A property of every row -/

/-- Every row has the property. -/
def Forall (p : ν → Prop) (t : Table κ ν) : Prop := ∀ k v, t.lookup k = some v → p v

section Forall

variable {p : ν → Prop} {t : Table κ ν} {k : κ}

theorem Forall.insert {v : ν} (h : t.Forall p) (hv : p v) : (t.insert k v).Forall p := by
  intro k' v' hk'
  rw [lookup_insert_eq] at hk'
  split_ifs at hk'
  · cases hk'
    exact hv
  · exact h k' v' hk'

theorem Forall.erase (h : t.Forall p) : (t.erase k).Forall p := by
  intro k' v' hk'
  rw [lookup_erase_eq] at hk'
  split_ifs at hk'
  exact h k' v' hk'

theorem Forall.updateKey {f : ν → ν} (h : t.Forall p) (hf : ∀ v, p v → p (f v)) :
    (t.updateKey k f).Forall p := by
  intro k' v' hk'
  rw [lookup_updateKey] at hk'
  split_ifs at hk'
  · obtain ⟨v, hv, rfl⟩ := Option.map_eq_some_iff.1 hk'
    exact hf v (h k' v hv)
  · exact h k' v' hk'

end Forall

/-! ## Insert and change of key -/

/-- `INSERT`, refused when the primary key is taken. -/
def insertNew (k : κ) (v : ν) (t : Table κ ν) : Option (Table κ ν) :=
  if k ∈ t then none else some (t.insert k v)

theorem insertNew_eq_some_iff {k : κ} {v : ν} {t t' : Table κ ν} :
    t.insertNew k v = some t' ↔ t.lookup k = none ∧ t' = t.insert k v := by
  unfold insertNew
  split_ifs with h
  · simpa [lookup_eq_none] using fun h' => (h' h).elim
  · simp [lookup_eq_none.2 h, eq_comm]

/-- `UPDATE … SET key = new WHERE key = old`, refused when another row holds `new`. -/
def rekey (old new : κ) (t : Table κ ν) : Option (Table κ ν) :=
  match t.lookup old with
  | none => some t
  | some v => if old = new then some t else (t.erase old).insertNew new v

theorem rekey_eq_some_iff {old new : κ} {t t' : Table κ ν} {v : ν} (hv : t.lookup old = some v) :
    t.rekey old new = some t' ↔
      (old = new ∧ t' = t) ∨
        (old ≠ new ∧ t.lookup new = none ∧ t' = (t.erase old).insert new v) := by
  simp only [rekey, hv]
  split_ifs with h
  · simp [h, eq_comm]
  · rw [insertNew_eq_some_iff, lookup_erase_ne (Ne.symm h)]
    simp [h]

/-- `INSERT … SELECT`: row after row; one that the primary key refuses undoes the statement. -/
def insertAll (rows : List (Σ _ : κ, ν)) (t : Table κ ν) : Option (Table κ ν) :=
  rows.foldlM (fun t e => t.insertNew e.1 e.2) t

/-- Rows with keys of their own can be inserted, and nothing else appears. -/
theorem exists_insertAll {rows : List (Σ _ : κ, ν)} {t : Table κ ν} (hnd : rows.NodupKeys)
    (hnew : ∀ e ∈ rows, t.lookup e.1 = none) : ∃ t', t.insertAll rows = some t' ∧
      ∀ k v, t'.lookup k = some v ↔ t.lookup k = some v ∨ ⟨k, v⟩ ∈ rows := by
  induction rows generalizing t with
  | nil => exact ⟨t, rfl, fun k v => by simp⟩
  | cons e rows ih =>
    obtain ⟨hfresh, hnd⟩ := List.nodupKeys_cons.1 hnd
    have hne (e' : Σ _ : κ, ν) (he' : e' ∈ rows) : e'.1 ≠ e.1 := fun heq =>
      hfresh (heq ▸ List.mem_keys_of_mem he')
    have hfree : t.lookup e.1 = none := hnew e (by simp)
    have hfirst : t.insertNew e.1 e.2 = some (t.insert e.1 e.2) :=
      insertNew_eq_some_iff.2 ⟨hfree, rfl⟩
    obtain ⟨t', ht', hlookup⟩ := @ih (t.insert e.1 e.2) hnd fun e' he' => by
      rw [lookup_insert_ne (hne e' he')]
      exact hnew e' (List.mem_cons_of_mem _ he')
    refine ⟨t', ?_, fun k v => ?_⟩
    · rw [insertAll, List.foldlM_cons, hfirst]
      exact ht'
    · rw [hlookup, lookup_insert_eq, List.mem_cons]
      by_cases hk : k = e.1
      · subst hk
        have hcons : (⟨e.1, v⟩ : Σ _ : κ, ν) = e ↔ e.2 = v := by
          rw [Sigma.ext_iff]
          simp [eq_comm]
        rw [if_pos rfl, hfree, hcons]
        simp
      · have hcons : (⟨k, v⟩ : Σ _ : κ, ν) ≠ e := fun heq => hk (heq ▸ rfl)
        rw [if_neg hk]
        simp [hcons]

/-! ## Counting -/

/-- `count(*) … WHERE p`. -/
def count (p : κ → ν → Bool) (t : Table κ ν) : ℕ := t.entries.countP fun e => p e.1 e.2

theorem count_eq_zero_iff {p : κ → ν → Bool} {t : Table κ ν} :
    t.count p = 0 ↔ ∀ k v, t.lookup k = some v → p k v = false := by
  rw [count, List.countP_eq_zero]
  constructor
  · intro h k v hv
    simpa using h ⟨k, v⟩ (mem_entries_iff.2 hv)
  · rintro h ⟨k, v⟩ hkv
    simpa using h k v (mem_entries_iff.1 hkv)

/-! ## Sums -/

section Sum

variable {M : Type*} [AddCommMonoid M] {f : κ → ν → M}

/-- `SUM(f)` over all rows. -/
def sumBy (f : κ → ν → M) (t : Table κ ν) : M := (t.entries.map fun e => f e.1 e.2).sum

omit [DecidableEq κ] in
@[simp] theorem sumBy_empty : (∅ : Table κ ν).sumBy f = 0 := rfl

theorem sumBy_insert {t : Table κ ν} {k : κ} {v : ν} (h : t.lookup k = none) :
    (t.insert k v).sumBy f = f k v + t.sumBy f := by
  rw [sumBy, entries_insert_of_notMem (lookup_eq_none.1 h)]
  simp [sumBy]

private theorem sum_kerase {k : κ} {v : ν} :
    ∀ {l : List (Σ _ : κ, ν)}, l.dlookup k = some v →
      f k v + ((l.kerase k).map fun e => f e.1 e.2).sum = (l.map fun e => f e.1 e.2).sum
  | ⟨k', v'⟩ :: l, h => by
    by_cases hk : k = k'
    · subst hk
      have hv : v' = v := by simpa using h
      have hcons : ((⟨k, v'⟩ : Σ _ : κ, ν) :: l).kerase k = l := List.kerase_cons_eq rfl
      rw [hcons, hv]
      simp
    · have hcons : ((⟨k', v'⟩ : Σ _ : κ, ν) :: l).kerase k = ⟨k', v'⟩ :: l.kerase k :=
        List.kerase_cons_ne hk
      rw [List.dlookup_cons_ne l ⟨k', v'⟩ hk] at h
      rw [hcons, List.map_cons, List.map_cons, List.sum_cons, List.sum_cons, ← sum_kerase h,
        add_left_comm]

/-- Deleting a row takes its term out of the sum. -/
theorem sumBy_erase {t : Table κ ν} {k : κ} {v : ν} (h : t.lookup k = some v) :
    f k v + (t.erase k).sumBy f = t.sumBy f :=
  sum_kerase h

private theorem sum_update {k : κ} {v : ν} {g : ν → ν} :
    ∀ {l : List (Σ _ : κ, ν)}, l.NodupKeys → l.dlookup k = some v →
      f k v + (l.map fun e => f e.1 (if e.1 = k then g e.2 else e.2)).sum =
        f k (g v) + (l.map fun e => f e.1 e.2).sum
  | ⟨k', v'⟩ :: l, hnd, h => by
    obtain ⟨hnotin, hnd⟩ := List.nodupKeys_cons.1 hnd
    simp only [List.map_cons, List.sum_cons]
    by_cases hk : k = k'
    · subst hk
      have hv : v' = v := by simpa using h
      -- the rest of the table does not hold `k`, so the update leaves it alone
      have htail : (l.map fun e => f e.1 (if e.1 = k then g e.2 else e.2)) =
          l.map fun e => f e.1 e.2 := by
        apply List.map_congr_left
        intro e he
        have hmem : e.1 ∈ l.keys := List.mem_keys_of_mem he
        have hne : e.1 ≠ k := fun hek => hnotin (hek ▸ hmem)
        rw [if_neg hne]
      rw [htail, if_pos rfl, hv, add_left_comm]
    · rw [List.dlookup_cons_ne l ⟨k', v'⟩ hk] at h
      rw [if_neg (Ne.symm hk), add_left_comm, sum_update hnd h, add_left_comm]

/-- Updating a row exchanges its term in the sum. -/
theorem sumBy_updateKey {t : Table κ ν} {k : κ} {v : ν} {g : ν → ν} (h : t.lookup k = some v) :
    f k v + (t.updateKey k g).sumBy f = f k (g v) + t.sumBy f := by
  have hs := sum_update (f := f) (g := g) t.nodupKeys h
  simpa [sumBy, updateKey, update, Function.comp_def] using hs

/-- What the sum adds up depends on the lookups only. -/
theorem sumBy_congr {t t' : Table κ ν}
    (h : ∀ k, (t.lookup k).map (f k) = (t'.lookup k).map (f k)) : t.sumBy f = t'.sumBy f := by
  have hlookup (t : Table κ ν) (k : κ) :
      (t.entries.map fun e => (⟨e.1, f e.1 e.2⟩ : Σ _ : κ, M)).dlookup k =
        (t.lookup k).map (f k) :=
    List.dlookup_map₂ (f := f) k
  have hperm : (t.entries.map fun e => (⟨e.1, f e.1 e.2⟩ : Σ _ : κ, M)).Perm
      (t'.entries.map fun e => (⟨e.1, f e.1 e.2⟩ : Σ _ : κ, M)) := by
    refine List.lookup_ext (List.NodupKeys.map₂ f _ t.nodupKeys)
      (List.NodupKeys.map₂ f _ t'.nodupKeys) fun k v => ?_
    rw [hlookup, hlookup, h]
  have hsum := (hperm.map Sigma.snd).sum_eq
  simpa [sumBy, List.map_map, Function.comp_def] using hsum

/-- The sum as a sum over the keys. -/
theorem sumBy_eq_sum_keys (t : Table κ ν) :
    t.sumBy f = ∑ k ∈ t.keys.toFinset, ((t.lookup k).map (f k)).getD 0 := by
  rw [List.sum_toFinset _ t.keys_nodup, sumBy]
  congr 1
  show _ = (t.entries.map Sigma.fst).map _
  rw [List.map_map]
  apply List.map_congr_left
  rintro ⟨k, v⟩ hkv
  simp [mem_entries_iff.1 hkv]

end Sum

omit [DecidableEq κ] in
theorem count_eq_sumBy (p : κ → ν → Bool) (t : Table κ ν) :
    t.count p = t.sumBy fun k v => if p k v then 1 else 0 := by
  rw [count, sumBy]
  induction t.entries with
  | nil => rfl
  | cons e l ih => rw [List.countP_cons, List.map_cons, List.sum_cons, ih, add_comm]

/-- A new row counts if it satisfies the condition. -/
theorem count_insert {p : κ → ν → Bool} {t : Table κ ν} {k : κ} {v : ν} (h : t.lookup k = none) :
    (t.insert k v).count p = (if p k v then 1 else 0) + t.count p := by
  rw [count_eq_sumBy, count_eq_sumBy, sumBy_insert h]

/-- A row that goes no longer counts. -/
theorem count_erase {p : κ → ν → Bool} {t : Table κ ν} {k : κ} {v : ν} (h : t.lookup k = some v) :
    (if p k v then 1 else 0) + (t.erase k).count p = t.count p := by
  rw [count_eq_sumBy, count_eq_sumBy]
  exact sumBy_erase (f := fun k v => if p k v then 1 else 0) h

theorem sumBy_nonneg {f : κ → ν → ℤ} {t : Table κ ν}
    (h : ∀ k v, t.lookup k = some v → 0 ≤ f k v) : 0 ≤ t.sumBy f := by
  apply List.sum_nonneg
  intro x hx
  obtain ⟨⟨k, v⟩, hkv, rfl⟩ := List.mem_map.1 hx
  exact h k v (mem_entries_iff.1 hkv)

/-- As many rows are counted as there are keys with such a row. -/
theorem ncard_lookup (p : κ → ν → Bool) (t : Table κ ν) :
    {k | ∃ v, t.lookup k = some v ∧ p k v}.ncard = t.count p ∧
    {k | ∃ v, t.lookup k = some v ∧ p k v}.Finite := by
  have hset : {k | ∃ v, t.lookup k = some v ∧ p k v} = ↑(t.filter p).keys.toFinset := by
    ext k
    rw [Finset.mem_coe, List.mem_toFinset, ← mem_keys, ← lookup_isSome,
      Option.isSome_iff_exists]
    simp [Option.filter_eq_some_iff]
  rw [hset, Set.ncard_coe_finset, List.toFinset_card_of_nodup (t.filter p).keys_nodup]
  refine ⟨?_, Finset.finite_toSet _⟩
  rw [keys, List.keys, List.length_map, count, List.countP_eq_length_filter]
  rfl

end AList
