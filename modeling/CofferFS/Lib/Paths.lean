import CofferFS.Lib.Namespace
import Mathlib.Data.List.Infix

/-!
# Paths

A namespace as its users see it: no nodes and entries, only what each path leads to.

**The map.** `ns.resolve root` is a partial map from paths to nodes. A change of one entry of the
namespace is a `graft` on the map: what was below one path is replaced by another map, and all
other paths lead where they led (`resolve_update`).

**The changes.** In a well-formed namespace a directory has one path, so the changes of a file
system can be told in terms of paths alone: a name appears (`resolve_bind`), a name disappears
(`resolve_unbind`), and a name moves together with everything below it (`resolve_move`).
-/

/-- What each path leads to. -/
abbrev Paths (α β : Type*) := List β → Option α

namespace Paths

variable {α β : Type*}

/-- Only the empty path leads anywhere. -/
def single (i : α) : Paths α β := fun q => if q.isEmpty then some i else none

/-- What lies below a path. -/
def below (e : List β) (f : Paths α β) : Paths α β := fun q => f (e ++ q)

variable [DecidableEq β]

/-- `g` takes the place of everything below `e`. -/
def graft (e : List β) (g f : Paths α β) : Paths α β := fun q =>
  if e <+: q then g (q.drop e.length) else f q

/-- Nothing is left below `e`. -/
def prune (e : List β) (f : Paths α β) : Paths α β := graft e (fun _ => none) f

variable {e e' q r : List β} {f g : Paths α β}

@[simp] theorem graft_append : graft e g f (e ++ r) = g r := by
  simp [graft]

@[simp] theorem graft_self : graft e g f e = g [] := by
  simpa using graft_append (e := e) (r := []) (g := g) (f := f)

theorem graft_of_outside (h : ¬ e <+: q) : graft e g f q = f q := if_neg h

theorem prune_of_outside (h : ¬ e <+: q) : prune e f q = f q := if_neg h

theorem prune_eq_some_iff {i : α} : prune e f q = some i ↔ ¬ e <+: q ∧ f q = some i := by
  by_cases h : e <+: q <;> simp [prune, graft, h]

/-- Putting back what was there changes nothing. -/
theorem graft_below : graft e (below e f) f = f := by
  funext q
  by_cases h : e <+: q
  · obtain ⟨r, rfl⟩ := h
    rw [graft_append, below]
  · exact graft_of_outside h

/-- What is put at `e` does not depend on what was there. -/
theorem graft_graft {g' : Paths α β} : graft e g (graft e g' f) = graft e g f := by
  funext q
  by_cases h : e <+: q <;> simp [graft, h]

theorem prune_comm : prune e (prune e' f) = prune e' (prune e f) := by
  funext q
  by_cases h : e <+: q <;> by_cases h' : e' <+: q <;> simp [prune, graft, h, h']

/-- Pruning elsewhere does not show below `e`. -/
theorem below_prune (h : ¬ e <+: e') (h' : ¬ e' <+: e) : below e (prune e' f) = below e f := by
  funext q
  refine prune_of_outside fun hpre => ?_
  rcases List.prefix_or_prefix_of_prefix hpre (List.prefix_append e q) with hpre | hpre
  · exact h' hpre
  · exact h hpre

end Paths

namespace Namespace

open Paths

variable {α β : Type*} {ns ns' : Namespace α β} {root i j d : α} {k k' : α × β}
variable {e e' q : List β} {n : β}

theorem resolve_snoc :
    ns.resolve i (q ++ [n]) = (ns.resolve i q).bind fun j => ns.entry (j, n) := by
  rw [resolve_append]
  simp [resolve]

/-- What lies below a node lies below each of its paths. -/
theorem below_resolve (he : ns.resolve root e = some i) :
    below e (ns.resolve root) = ns.resolve i := by
  funext q
  rw [below, resolve_append, he]
  rfl

/-- Paths depend on the entries alone. -/
theorem resolve_congr (h : ns'.entry = ns.entry) : ns'.resolve = ns.resolve := by
  funext i q
  induction q generalizing i with
  | nil => rfl
  | cons n q ih => simp only [resolve, h, ih]

/-- Nothing lies below a node without entries. -/
theorem resolve_of_no_entries (h : ∀ n, ns.entry (i, n) = none) : ns.resolve i = single i := by
  funext q
  cases q with
  | nil => rfl
  | cons n q => simp [resolve, h, single]

namespace WellFormed

/-- **A directory has one path.** -/
theorem path_unique (h : ns.WellFormed root) (hd : ns.node d = some true)
    (hq : ns.resolve root q = some d) (he : ns.resolve root e = some d) : q = e := by
  -- the last names of both paths are the one name of the directory
  induction q using List.reverseRecOn generalizing e d with
  | nil =>
    obtain rfl : root = d := Option.some.inj hq
    rcases List.eq_nil_or_concat e with rfl | ⟨e, n, rfl⟩
    · rfl
    · rw [List.concat_eq_append, resolve_snoc] at he
      obtain ⟨p, -, hp⟩ := Option.bind_eq_some_iff.1 he
      exact (h.root_unnamed _ hp).elim
  | append_singleton q n ih =>
    rw [resolve_snoc] at hq
    obtain ⟨p, hqp, hp⟩ := Option.bind_eq_some_iff.1 hq
    rcases List.eq_nil_or_concat e with rfl | ⟨e, n', rfl⟩
    · obtain rfl : root = d := Option.some.inj he
      exact (h.root_unnamed _ hp).elim
    · rw [List.concat_eq_append] at he ⊢
      rw [resolve_snoc] at he
      obtain ⟨p', hep', hp'⟩ := Option.bind_eq_some_iff.1 he
      obtain ⟨rfl, rfl⟩ := Prod.mk.inj (h.dir_unique d _ _ hd hp hp')
      rw [ih (h.dir_of_entry _ d hp) hqp hep']

theorem resolve_eq_dir_iff (h : ns.WellFormed root) (hd : ns.node d = some true)
    (he : ns.resolve root e = some d) : ns.resolve root q = some d ↔ q = e := by
  refine ⟨fun hq => h.path_unique hd hq he, ?_⟩
  rintro rfl
  exact he

/-- A path leads to a node. -/
theorem node_of_resolve (h : ns.WellFormed root) (hq : ns.resolve root q = some i) :
    ns.node i ≠ none := by
  rcases List.eq_nil_or_concat q with rfl | ⟨q, n, rfl⟩
  · obtain rfl : root = i := Option.some.inj hq
    rw [h.root_dir]
    simp
  · rw [List.concat_eq_append, resolve_snoc] at hq
    obtain ⟨p, -, hp⟩ := Option.bind_eq_some_iff.1 hq
    exact h.node_of_entry _ i hp

/-- Nothing lies below a node that is not a directory. -/
theorem resolve_leaf (h : ns.WellFormed root) (hi : ns.node i ≠ some true) :
    ns.resolve i = single i := by
  refine resolve_of_no_entries fun n => ?_
  by_contra hne
  obtain ⟨j, hj⟩ := Option.ne_none_iff_exists'.1 hne
  exact hi (h.dir_of_entry (i, n) j hj)

end WellFormed

variable [DecidableEq α] [DecidableEq β]

/-- **A changed entry is a graft.** The entry `k` of the directory at `e` becomes `v`, and `g` is
what lies below it from then on. -/
theorem resolve_update {v : Option α} {g : Paths α β}
    (he : ∀ q, ns.resolve root q = some k.1 ↔ q = e)
    (hentry : ns'.entry = Function.update ns.entry k v) (hnil : g [] = v)
    (hsnoc : ∀ r n, g (r ++ [n]) = (g r).bind fun j => ns.entry (j, n))
    (happ : ∀ r, g r ≠ some k.1) :
    ns'.resolve root = graft (e ++ [k.2]) g (ns.resolve root) := by
  have hsame {j : α} {n : β} (h : (j, n) ≠ k) : ns'.entry (j, n) = ns.entry (j, n) := by
    rw [hentry, Function.update_of_ne h]
  have hself : ns'.entry k = v := by
    rw [hentry, Function.update_self]
  funext q
  induction q using List.reverseRecOn with
  | nil =>
    rw [graft_of_outside]
    · rfl
    · simp
  | append_singleton q n ih =>
    rw [resolve_snoc, ih]
    by_cases hpre : e ++ [k.2] <+: q
    · -- below the entry
      obtain ⟨r, rfl⟩ := hpre
      rw [graft_append, List.append_assoc, graft_append, hsnoc]
      refine Option.bind_congr fun j hj => hsame ?_
      rintro rfl
      exact happ r hj
    · rw [graft_of_outside hpre]
      by_cases hself' : e ++ [k.2] = q ++ [n]
      · -- the entry itself
        obtain ⟨rfl, hn⟩ := List.append_inj' hself' rfl
        obtain rfl : k.2 = n := by simpa using hn
        rw [(he e).2 rfl, graft_self, hnil, ← hself]
        rfl
      · -- elsewhere
        rw [graft_of_outside (by rw [List.prefix_concat_iff]; tauto), resolve_snoc]
        refine Option.bind_congr fun j hj => hsame ?_
        rintro rfl
        exact hself' (by rw [(he q).1 hj])

namespace WellFormed

variable (h : ns.WellFormed root)

include h

/-- A name appears, with everything that lies below its node. -/
theorem resolve_bind (hdir : ns.node k.1 = some true) (he : ns.resolve root e = some k.1)
    (hbelow : ¬ ns.Below k.1 i) :
    (ns.bind k i).resolve root = graft (e ++ [k.2]) (ns.resolve i) (ns.resolve root) :=
  resolve_update (fun _ => h.resolve_eq_dir_iff hdir he) rfl rfl (fun _ _ => resolve_snoc)
    fun r hr => hbelow (below_iff_resolve.2 ⟨r, hr⟩)

/-- A name disappears, and everything below it. -/
theorem resolve_unbind (hdir : ns.node k.1 = some true) (he : ns.resolve root e = some k.1) :
    (ns.unbind k).resolve root = prune (e ++ [k.2]) (ns.resolve root) :=
  resolve_update (fun _ => h.resolve_eq_dir_iff hdir he) rfl rfl (fun _ _ => rfl)
    fun _ hr => nomatch hr

/-- A name moves, and everything below it with it. -/
theorem resolve_move (hk : ns.entry k = some i) (he : ns.resolve root e = some k.1)
    (hdir' : ns.node k'.1 = some true) (he' : ns.resolve root e' = some k'.1)
    (hbelow : ¬ ns.Below k'.1 i) :
    ((ns.unbind k).bind k' i).resolve root =
      graft (e' ++ [k'.2]) (below (e ++ [k.2]) (ns.resolve root))
        (prune (e ++ [k.2]) (ns.resolve root)) := by
  have hdir := h.dir_of_entry k i hk
  have hunbind := h.resolve_unbind hdir he
  have hnamed : below (e ++ [k.2]) (ns.resolve root) = ns.resolve i :=
    below_resolve (by rw [resolve_snoc, he]; exact hk)
  rw [← hunbind, hnamed]
  refine resolve_update (fun q => ?_) rfl rfl (fun r n => ?_) fun r hr => ?_
  · rw [hunbind, prune_eq_some_iff, h.resolve_eq_dir_iff hdir' he']
    refine ⟨And.right, ?_⟩
    rintro rfl
    refine ⟨fun hpre => ?_, rfl⟩
    obtain ⟨r, rfl⟩ := hpre
    exact hbelow (below_iff_resolve.2 ⟨r, by rw [← hnamed, below, he']⟩)
  · rw [resolve_snoc]
    refine Option.bind_congr fun j hj => ?_
    refine (Function.update_of_ne ?_ ..).symm
    -- the directory of the old name is not below itself
    rintro rfl
    rw [← hnamed, below] at hj
    have hlen := congrArg List.length (h.path_unique hdir hj he)
    simp at hlen
  · exact hbelow (below_iff_resolve.2 ⟨r, hr⟩)

end WellFormed

end Namespace
