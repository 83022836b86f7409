import CofferFS.Lib.Climb
import Mathlib.Logic.Function.Basic

/-!
# Namespaces

What a file system is for, without its data: nodes, some of which are directories, and entries
that give nodes names in directories. Nodes and names are of any type.

`WellFormed` says that the namespace is a tree, but for nodes that are no directories, which may
have several names. The five changes a file system makes keep it: a new node with its name
(`create`), another name for a node (`link`), one name less (`unlink`), a node gone with its last
name (`remove`) and a name that becomes another (`move`).
-/

/-- Nodes and the names they have. `node i` is `none` if there is no node `i`, otherwise it says
whether `i` is a directory; `entry (p, n)` is the node called `n` in `p`. -/
@[ext]
structure Namespace (α β : Type*) where
  node : α → Option Bool
  entry : α × β → Option α

namespace Namespace

open Relation

variable {α β : Type*}

/-- `p` holds a name for `i`. -/
def Up (ns : Namespace α β) (i p : α) : Prop := ∃ n, ns.entry (p, n) = some i

/-- `i` is `p` or lies below it. -/
def Below (ns : Namespace α β) : α → α → Prop := ReflTransGen ns.Up

/-- The node that a path leads to from `i`. -/
def resolve (ns : Namespace α β) : α → List β → Option α
  | i, [] => some i
  | i, n :: path => (ns.entry (i, n)).bind fun j => ns.resolve j path

/-- The namespace is a tree of directories with other nodes hanging in it, perhaps several
times. -/
structure WellFormed (ns : Namespace α β) (root : α) : Prop where
  root_dir : ns.node root = some true
  root_unnamed : ∀ k, ns.entry k ≠ some root
  node_of_entry : ∀ k i, ns.entry k = some i → ns.node i ≠ none
  dir_of_entry : ∀ k i, ns.entry k = some i → ns.node k.1 = some true
  dir_unique : ∀ i k k', ns.node i = some true → ns.entry k = some i → ns.entry k' = some i → k' = k
  climbs : ∀ i, ns.node i ≠ none → Climbs ns.Up root i

/-! ## Paths -/

section Paths

variable {ns : Namespace α β} {i j p : α}

theorem resolve_append (path path' : List β) :
    ns.resolve i (path ++ path') = (ns.resolve i path).bind fun j => ns.resolve j path' := by
  induction path generalizing i with
  | nil => rfl
  | cons n path ih =>
    show ((ns.entry (i, n)).bind fun j => ns.resolve j (path ++ path')) = _
    simp only [ih, resolve, Option.bind_assoc]

/-- What lies below a node is what a path from it leads to. -/
theorem below_iff_resolve : ns.Below i p ↔ ∃ path, ns.resolve p path = some i := by
  constructor
  · intro h
    induction h with
    | refl => exact ⟨[], rfl⟩
    | @tail q p _ hqp ih =>
      obtain ⟨n, hn⟩ := hqp
      obtain ⟨path, hpath⟩ := ih
      refine ⟨n :: path, ?_⟩
      show (ns.entry (p, n)).bind _ = _
      rw [hn]
      exact hpath
  · intro h
    obtain ⟨path, hpath⟩ := h
    induction path generalizing p with
    | nil =>
      cases hpath
      exact .refl
    | cons n path ih =>
      obtain ⟨q, hq, hpath⟩ := Option.bind_eq_some_iff.1 hpath
      exact (ih hpath).tail ⟨n, hq⟩

end Paths

namespace WellFormed

variable {ns : Namespace α β} {root i p : α} (h : ns.WellFormed root)

include h

/-- Every node is found on a path from the root. -/
theorem exists_path (hi : ns.node i ≠ none) : ∃ path, ns.resolve root path = some i :=
  below_iff_resolve.1 (h.climbs i hi).reaches_root

/-- Every node but the root has a name. -/
theorem exists_entry (hi : ns.node i ≠ none) (hroot : i ≠ root) : ∃ k, ns.entry k = some i := by
  obtain ⟨p, n, hn⟩ := (h.climbs i hi).exists_up hroot
  exact ⟨(p, n), hn⟩

theorem dir_of_up (hip : ns.Up i p) : ns.node p = some true := by
  obtain ⟨n, hn⟩ := hip
  exact h.dir_of_entry (p, n) i hn

/-- Nothing lies below a node that is not a directory. -/
theorem not_below_leaf (hi : ns.node i ≠ some true) (hp : ns.node p = some true) :
    ¬ ns.Below p i := by
  intro hbelow
  rcases ReflTransGen.cases_tail hbelow with rfl | ⟨q, -, hqi⟩
  · exact hi hp
  · exact hi (h.dir_of_up hqi)

theorem climbs_of_dir (hp : ns.node p = some true) : Climbs ns.Up root p :=
  h.climbs p (by rw [hp]; simp)

/-- What is no node has no name. -/
theorem unnamed_of_fresh (hfresh : ns.node i = none) (k : α × β) : ns.entry k ≠ some i :=
  fun hk => h.node_of_entry k i hk hfresh

end WellFormed

/-! ## Changes -/

variable [DecidableEq α]

/-- Let `i` be what `v` says. -/
def setNode (ns : Namespace α β) (i : α) (v : Option Bool) : Namespace α β :=
  { ns with node := Function.update ns.node i v }

section SetNode

variable {ns : Namespace α β} {i j : α} {v : Option Bool}

@[simp] theorem entry_setNode : (ns.setNode i v).entry = ns.entry := rfl

@[simp] theorem node_setNode_self : (ns.setNode i v).node i = v := Function.update_self ..

theorem node_setNode_of_ne (h : j ≠ i) : (ns.setNode i v).node j = ns.node j :=
  Function.update_of_ne h ..

end SetNode

variable [DecidableEq β]

/-- Let `k` name `i`. -/
def bind (ns : Namespace α β) (k : α × β) (i : α) : Namespace α β :=
  { ns with entry := Function.update ns.entry k (some i) }

/-- Let `k` name nothing. -/
def unbind (ns : Namespace α β) (k : α × β) : Namespace α β :=
  { ns with entry := Function.update ns.entry k none }

variable {ns : Namespace α β} {root i j p : α} {k k' : α × β}

@[simp] theorem node_bind : (ns.bind k i).node = ns.node := rfl

@[simp] theorem node_unbind : (ns.unbind k).node = ns.node := rfl

/-- A name that was free is new; the others stay. -/
theorem entry_bind_iff (hfree : ns.entry k = none) :
    (ns.bind k i).entry k' = some j ↔ (k' = k ∧ j = i) ∨ ns.entry k' = some j := by
  by_cases hk : k' = k
  · subst hk
    simp [bind, hfree, eq_comm]
  · simp [bind, hk]

theorem entry_unbind_iff :
    (ns.unbind k).entry k' = some j ↔ k' ≠ k ∧ ns.entry k' = some j := by
  by_cases hk : k' = k
  · subst hk
    simp [unbind]
  · simp [unbind, hk]

theorem up_bind (hfree : ns.entry k = none) :
    (ns.bind k i).Up j p ↔ (p = k.1 ∧ j = i) ∨ ns.Up j p := by
  constructor
  · intro h
    obtain ⟨n, hn⟩ := h
    rcases (entry_bind_iff hfree).1 hn with ⟨rfl, hji⟩ | hn
    · exact Or.inl ⟨rfl, hji⟩
    · exact Or.inr ⟨n, hn⟩
  · intro h
    rcases h with ⟨rfl, hji⟩ | ⟨n, hn⟩
    · exact ⟨k.2, (entry_bind_iff hfree).2 (Or.inl ⟨rfl, hji⟩)⟩
    · exact ⟨n, (entry_bind_iff hfree).2 (Or.inr hn)⟩

theorem up_of_up_unbind (h : (ns.unbind k).Up j p) : ns.Up j p := by
  obtain ⟨n, hn⟩ := h
  exact ⟨n, (entry_unbind_iff.1 hn).2⟩

/-- Taking a name away changes nothing for the nodes that did not have it. -/
theorem up_unbind (hk : ns.entry k = some i) (hj : j ≠ i) : (ns.unbind k).Up j p ↔ ns.Up j p := by
  refine ⟨up_of_up_unbind, fun h => ?_⟩
  obtain ⟨n, hn⟩ := h
  refine ⟨n, entry_unbind_iff.2 ⟨fun hpk => ?_, hn⟩⟩
  rw [hpk, hk] at hn
  exact hj (Option.some.inj hn).symm

namespace WellFormed

variable (h : ns.WellFormed root)

include h

/-- A new node with its name. -/
theorem create {d : Bool} (hfresh : ns.node i = none) (hdir : ns.node k.1 = some true)
    (hfree : ns.entry k = none) : ((ns.setNode i (some d)).bind k i).WellFormed root := by
  have hunnamed := h.unnamed_of_fresh hfresh
  -- the nodes there were stay what they were
  have hnode {j : α} (hj : ns.node j ≠ none) : (ns.setNode i (some d)).node j = ns.node j :=
    node_setNode_of_ne fun hji => hj (hji ▸ hfresh)
  have hentry (k' : α × β) (j : α) : ((ns.setNode i (some d)).bind k i).entry k' = some j ↔
      (k' = k ∧ j = i) ∨ ns.entry k' = some j :=
    entry_bind_iff hfree
  have hup (j p : α) : ((ns.setNode i (some d)).bind k i).Up j p ↔
      (p = k.1 ∧ j = i) ∨ ns.Up j p :=
    up_bind hfree
  have hagree (j p : α) (hj : j ≠ i) : ((ns.setNode i (some d)).bind k i).Up j p ↔ ns.Up j p := by
    rw [hup]
    exact ⟨fun hor => hor.resolve_left fun hp => hj hp.2, Or.inr⟩
  have hex : ∃ q, ((ns.setNode i (some d)).bind k i).Up i q :=
    ⟨k.1, (hup i k.1).2 (Or.inl ⟨rfl, rfl⟩)⟩
  have hnew (q : α) (hq : ((ns.setNode i (some d)).bind k i).Up i q) :
      Climbs ns.Up root q ∧ ¬ ns.Below q i := by
    rcases (hup i q).1 hq with ⟨rfl, -⟩ | ⟨n, hn⟩
    · exact ⟨h.climbs_of_dir hdir, h.not_below_leaf (by rw [hfresh]; simp) hdir⟩
    · exact (hunnamed _ hn).elim
  constructor
  case root_dir =>
    rw [node_bind, hnode (by rw [h.root_dir]; simp), h.root_dir]
  case root_unnamed =>
    intro k' hk'
    rcases (hentry k' root).1 hk' with ⟨-, rfl⟩ | hk'
    · rw [h.root_dir] at hfresh
      cases hfresh
    · exact h.root_unnamed k' hk'
  case node_of_entry =>
    intro k' j hk'
    rcases (hentry k' j).1 hk' with ⟨-, rfl⟩ | hk'
    · simp
    · rw [node_bind, hnode (h.node_of_entry k' j hk')]
      exact h.node_of_entry k' j hk'
  case dir_of_entry =>
    intro k' j hk'
    have hd : ns.node k'.1 = some true := by
      rcases (hentry k' j).1 hk' with ⟨rfl, -⟩ | hk'
      · exact hdir
      · exact h.dir_of_entry k' j hk'
    rw [node_bind, hnode (by rw [hd]; simp), hd]
  case dir_unique =>
    intro j k₁ k₂ hj hk₁ hk₂
    by_cases hji : j = i
    · subst hji
      have honly {k' : α × β} (hk' : ((ns.setNode j (some d)).bind k j).entry k' = some j) :
          k' = k := by
        rcases (hentry k' j).1 hk' with ⟨rfl, -⟩ | hk'
        · rfl
        · exact (hunnamed k' hk').elim
      rw [honly hk₁, honly hk₂]
    · have hold {k' : α × β} (hk' : ((ns.setNode i (some d)).bind k i).entry k' = some j) :
          ns.entry k' = some j :=
        ((hentry k' j).1 hk').resolve_left fun hkj => hji hkj.2
      rw [node_bind, node_setNode_of_ne hji] at hj
      exact h.dir_unique j k₁ k₂ hj (hold hk₁) (hold hk₂)
  case climbs =>
    intro j hj
    by_cases hji : j = i
    · rw [hji]
      exact Climbs.attach hagree hex hnew
    · rw [node_bind, node_setNode_of_ne hji] at hj
      exact Climbs.reattach hagree hex hnew (h.climbs j hj)

/-- Another name for a node that is not a directory. -/
theorem link (hleaf : ns.node i = some false) (hdir : ns.node k.1 = some true)
    (hfree : ns.entry k = none) : (ns.bind k i).WellFormed root := by
  have hnotdir : ns.node i ≠ some true := by
    rw [hleaf]
    simp
  have hagree (j p : α) (hj : j ≠ i) : (ns.bind k i).Up j p ↔ ns.Up j p := by
    rw [up_bind hfree]
    exact ⟨fun hor => hor.resolve_left fun hp => hj hp.2, Or.inr⟩
  have hnew (q : α) (hq : (ns.bind k i).Up i q) : Climbs ns.Up root q ∧ ¬ ns.Below q i := by
    have hq : ns.node q = some true := by
      rcases (up_bind hfree).1 hq with ⟨rfl, -⟩ | hq
      · exact hdir
      · exact h.dir_of_up hq
    exact ⟨h.climbs_of_dir hq, h.not_below_leaf hnotdir hq⟩
  constructor
  case root_dir => exact h.root_dir
  case root_unnamed =>
    intro k' hk'
    rcases (entry_bind_iff hfree).1 hk' with ⟨-, rfl⟩ | hk'
    · exact hnotdir h.root_dir
    · exact h.root_unnamed k' hk'
  case node_of_entry =>
    intro k' j hk'
    rcases (entry_bind_iff hfree).1 hk' with ⟨-, rfl⟩ | hk'
    · rw [node_bind, hleaf]
      simp
    · exact h.node_of_entry k' j hk'
  case dir_of_entry =>
    intro k' j hk'
    rcases (entry_bind_iff hfree).1 hk' with ⟨rfl, -⟩ | hk'
    · exact hdir
    · exact h.dir_of_entry k' j hk'
  case dir_unique =>
    intro j k₁ k₂ hj hk₁ hk₂
    have hold {k' : α × β} (hk' : (ns.bind k i).entry k' = some j) : ns.entry k' = some j := by
      refine ((entry_bind_iff hfree).1 hk').resolve_left fun hkj => ?_
      rw [hkj.2] at hj
      exact hnotdir hj
    exact h.dir_unique j k₁ k₂ hj (hold hk₁) (hold hk₂)
  case climbs =>
    intro j hj
    have hex : ∃ q, (ns.bind k i).Up i q := ⟨k.1, (up_bind hfree).2 (Or.inl ⟨rfl, rfl⟩)⟩
    exact Climbs.reattach hagree hex hnew (h.climbs j hj)

/-- One name less for a node that is not a directory and has another one. -/
theorem unlink (hleaf : ns.node i = some false) (hk : ns.entry k = some i)
    (hother : ∃ k', k' ≠ k ∧ ns.entry k' = some i) : (ns.unbind k).WellFormed root := by
  constructor
  case root_dir => exact h.root_dir
  case root_unnamed => exact fun k' hk' => h.root_unnamed k' (entry_unbind_iff.1 hk').2
  case node_of_entry => exact fun k' j hk' => h.node_of_entry k' j (entry_unbind_iff.1 hk').2
  case dir_of_entry => exact fun k' j hk' => h.dir_of_entry k' j (entry_unbind_iff.1 hk').2
  case dir_unique =>
    intro j k₁ k₂ hj hk₁ hk₂
    exact h.dir_unique j k₁ k₂ hj (entry_unbind_iff.1 hk₁).2 (entry_unbind_iff.1 hk₂).2
  case climbs =>
    intro j hj
    have hex : ∃ q, (ns.unbind k).Up i q := by
      obtain ⟨k', hne, hk'⟩ := hother
      exact ⟨k'.1, k'.2, entry_unbind_iff.2 ⟨hne, hk'⟩⟩
    have hnew (q : α) (hq : (ns.unbind k).Up i q) : Climbs ns.Up root q ∧ ¬ ns.Below q i := by
      have hq := h.dir_of_up (up_of_up_unbind hq)
      exact ⟨h.climbs_of_dir hq, h.not_below_leaf (by rw [hleaf]; simp) hq⟩
    exact Climbs.reattach (fun j p hj => up_unbind hk hj) hex hnew (h.climbs j hj)

/-- A node gone with its only name; nothing may lie in it. -/
theorem remove (hk : ns.entry k = some i) (honly : ∀ k', ns.entry k' = some i → k' = k)
    (hempty : ∀ n, ns.entry (i, n) = none) : ((ns.unbind k).setNode i none).WellFormed root := by
  have hroot : root ≠ i := fun hri => h.root_unnamed k (hri ▸ hk)
  -- a name that is left is not a name of `i` and not in `i`
  have hleft {k' : α × β} {j : α} (hk' : (ns.unbind k).entry k' = some j) :
      j ≠ i ∧ k'.1 ≠ i ∧ ns.entry k' = some j := by
    obtain ⟨hne, hk'⟩ := entry_unbind_iff.1 hk'
    refine ⟨fun hji => hne (honly k' (hji ▸ hk')), fun hki => ?_, hk'⟩
    have hnone : ns.entry k' = none := by
      rw [← hempty k'.2, ← hki]
    rw [hnone] at hk'
    cases hk'
  constructor
  case root_dir => rw [node_setNode_of_ne hroot, node_unbind, h.root_dir]
  case root_unnamed => exact fun k' hk' => h.root_unnamed k' (hleft hk').2.2
  case node_of_entry =>
    intro k' j hk'
    obtain ⟨hji, -, hk'⟩ := hleft hk'
    rw [node_setNode_of_ne hji]
    exact h.node_of_entry k' j hk'
  case dir_of_entry =>
    intro k' j hk'
    obtain ⟨-, hki, hk'⟩ := hleft hk'
    rw [node_setNode_of_ne hki]
    exact h.dir_of_entry k' j hk'
  case dir_unique =>
    intro j k₁ k₂ hj hk₁ hk₂
    rw [node_setNode_of_ne (hleft hk₁).1] at hj
    exact h.dir_unique j k₁ k₂ hj (hleft hk₁).2.2 (hleft hk₂).2.2
  case climbs =>
    intro j hj
    have hji : j ≠ i := by
      rintro rfl
      exact hj node_setNode_self
    rw [node_setNode_of_ne hji] at hj
    refine Climbs.of_agree (S := fun j => j ≠ i) ?_ ?_ (h.climbs j hj) hji
    · intro j p _ _ hjp hpi
      obtain ⟨n, hn⟩ := hjp
      rw [hpi, hempty n] at hn
      cases hn
    · exact fun j p hj _ => up_unbind hk hj

/-- A name that becomes another; a directory is not moved below itself. -/
theorem move (hk : ns.entry k = some i) (hfree : ns.entry k' = none)
    (hdir : ns.node k'.1 = some true) (hbelow : ns.node i = some true → ¬ ns.Below k'.1 i) :
    ((ns.unbind k).bind k' i).WellFormed root := by
  have hfree' : (ns.unbind k).entry k' = none := by
    by_contra hne
    obtain ⟨j, hj⟩ := Option.ne_none_iff_exists'.1 hne
    rw [(entry_unbind_iff.1 hj).2] at hfree
    cases hfree
  have hentry (l : α × β) (j : α) : ((ns.unbind k).bind k' i).entry l = some j ↔
      (l = k' ∧ j = i) ∨ (l ≠ k ∧ ns.entry l = some j) := by
    rw [entry_bind_iff hfree', entry_unbind_iff]
  have hagree (j p : α) (hj : j ≠ i) : ((ns.unbind k).bind k' i).Up j p ↔ ns.Up j p := by
    rw [up_bind hfree', up_unbind hk hj]
    exact ⟨fun hor => hor.resolve_left fun hp => hj hp.2, Or.inr⟩
  have hnew (q : α) (hq : ((ns.unbind k).bind k' i).Up i q) :
      Climbs ns.Up root q ∧ ¬ ns.Below q i := by
    obtain ⟨n, hn⟩ := hq
    rcases (hentry _ i).1 hn with ⟨rfl, -⟩ | ⟨hne, hn⟩
    · refine ⟨h.climbs_of_dir hdir, ?_⟩
      by_cases hi : ns.node i = some true
      · exact hbelow hi
      · exact h.not_below_leaf hi hdir
    · -- only a leaf keeps another name
      have hq := h.dir_of_entry _ i hn
      have hi : ns.node i ≠ some true := fun hi => hne (h.dir_unique i _ _ hi hk hn)
      exact ⟨h.climbs_of_dir hq, h.not_below_leaf hi hq⟩
  constructor
  case root_dir => exact h.root_dir
  case root_unnamed =>
    intro l hl
    rcases (hentry l root).1 hl with ⟨-, rfl⟩ | ⟨-, hl⟩
    · exact h.root_unnamed k hk
    · exact h.root_unnamed l hl
  case node_of_entry =>
    intro l j hl
    rcases (hentry l j).1 hl with ⟨-, rfl⟩ | ⟨-, hl⟩
    · exact h.node_of_entry k j hk
    · exact h.node_of_entry l j hl
  case dir_of_entry =>
    intro l j hl
    rcases (hentry l j).1 hl with ⟨rfl, -⟩ | ⟨-, hl⟩
    · exact hdir
    · exact h.dir_of_entry l j hl
  case dir_unique =>
    intro j k₁ k₂ hj hk₁ hk₂
    by_cases hji : j = i
    · -- a directory that was moved has no name but the new one
      subst hji
      have honly {l : α × β} (hl : ((ns.unbind k).bind k' j).entry l = some j) : l = k' := by
        rcases (hentry l j).1 hl with ⟨rfl, -⟩ | ⟨hne, hl⟩
        · rfl
        · exact (hne (h.dir_unique j k l hj hk hl)).elim
      rw [honly hk₁, honly hk₂]
    · have hold {l : α × β} (hl : ((ns.unbind k).bind k' i).entry l = some j) :
          ns.entry l = some j :=
        (((hentry l j).1 hl).resolve_left fun hlj => hji hlj.2).2
      exact h.dir_unique j k₁ k₂ hj (hold hk₁) (hold hk₂)
  case climbs =>
    intro j hj
    have hex : ∃ q, ((ns.unbind k).bind k' i).Up i q :=
      ⟨k'.1, (up_bind hfree').2 (Or.inl ⟨rfl, rfl⟩)⟩
    exact Climbs.reattach hagree hex hnew (h.climbs j hj)

end WellFormed

end Namespace
