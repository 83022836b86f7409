import Mathlib.Logic.Basic

/-!
# Caches of answers

A cache keeps what it was told and forgets what may have changed. `Coherent` says that all of it is
still true; `Coherent.update` is the rule for one request: what the cache does not forget has not
changed, and what it is told is true afterwards.
-/

namespace Cache

variable {κ ν : Type}

/-- Everything in the cache is true. -/
def Coherent (truth : κ → ν → Prop) (c : κ → Option ν) : Prop := ∀ k v, c k = some v → truth k v

/-- The cache after a request: it has at most what it had and need not forget, and what it was
told. It may drop the rest at any time. -/
def Updated (forgotten : κ → Prop) (told : κ → ν → Prop) (c c' : κ → Option ν) : Prop :=
  ∀ k v, c' k = some v → (c k = some v ∧ ¬ forgotten k) ∨ told k v

variable {truth truth' : κ → ν → Prop} {forgotten : κ → Prop} {told : κ → ν → Prop}
  {c c' : κ → Option ν}

theorem coherent_empty : Coherent truth fun _ => none := by
  intro k v h
  cases h

theorem Coherent.update (h : Coherent truth c) (hc : Updated forgotten told c c')
    (hframe : ∀ k v, ¬ forgotten k → truth k v → truth' k v)
    (htold : ∀ k v, told k v → truth' k v) : Coherent truth' c' := by
  intro k v hv
  rcases hc k v hv with ⟨hold, hkeep⟩ | hnew
  · exact hframe k v hkeep (h k v hold)
  · exact htold k v hnew

end Cache
