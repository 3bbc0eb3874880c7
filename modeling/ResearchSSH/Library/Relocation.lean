/-
  ResearchSSH.Library.Relocation — values moved from some keys to others.

  A store says which values are at a key.  A partial equivalence `g` of the keys says which keys
  are moved, and where to: no two keys are moved to the same one.  The key that something is moved
  to can itself be one that is moved, as where a subtree is moved into itself.

  Main results:
    * `relocate_symm`               — a move to free keys is undone by moving back.
    * `relocate_eq_discard_duplicate` — a move to keys that are not moved themselves is a copy, and
      then the removal of what was copied.
-/

import Mathlib.Data.PEquiv

namespace ResearchSSH.Library

universe u v
variable {κ : Type u} {β : Type v} {g : κ ≃. κ} {E : κ → β → Prop} {k s : κ} {v : β}

/-! ## §1. Moving, copying and removing. -/

/-- What is at the keys that `g` moves is at the keys it moves them to, and nowhere else. -/
def relocate (g : κ ≃. κ) (E : κ → β → Prop) (k : κ) (v : β) : Prop :=
  (∃ s, k ∈ g s ∧ E s v) ∨ (g k = none ∧ E k v)

/-- What is at the keys that `g` moves is at the keys it moves them to as well. -/
def duplicate (g : κ ≃. κ) (E : κ → β → Prop) (k : κ) (v : β) : Prop :=
  (∃ s, k ∈ g s ∧ E s v) ∨ E k v

/-- Nothing is left at the keys that `g` moves. -/
def discard (g : κ ≃. κ) (E : κ → β → Prop) (k : κ) (v : β) : Prop := g k = none ∧ E k v

/-- What is already at the keys that `g` leads to is moved itself. -/
def Free (g : κ ≃. κ) (E : κ → β → Prop) : Prop := ∀ k v, E k v → g k = none → g.symm k = none

/-! ## §2. Where the values are after a move. -/

/-- A key that something is moved to. -/
theorem relocate_target (hfree : Free g E) (hk : k ∈ g s) : relocate g E k v ↔ E s v := by
  have hback : g.symm k = some s := g.mem_iff_mem.mpr hk
  constructor
  · rintro (⟨s', hs', hv⟩ | ⟨hnone, hv⟩)
    · rwa [g.inj hk hs']
    · rw [hfree k v hv hnone] at hback
      cases hback
  · intro hv
    exact .inl ⟨s, hk, hv⟩

/-- A key that nothing is moved to. -/
theorem relocate_elsewhere (hk : g.symm k = none) : relocate g E k v ↔ discard g E k v := by
  constructor
  · rintro (⟨s, hs, _⟩ | h)
    · have hback : g.symm k = some s := g.mem_iff_mem.mpr hs
      rw [hk] at hback
      cases hback
    · exact h
  · exact .inr

/-- A key that is moved holds nothing afterwards, unless something is moved to it. -/
theorem not_relocate_source (hs : (g k).isSome) (hk : g.symm k = none) : ¬ relocate g E k v := by
  rw [relocate_elsewhere hk]
  rintro ⟨hnone, _⟩
  rw [hnone] at hs
  cases hs

/-! ## §3. Moving back, and moving by copying. -/

/-- **A move to free keys is undone** by moving back. -/
theorem relocate_symm (hfree : Free g E) : relocate g.symm (relocate g E) = E := by
  funext k v
  refine propext ⟨?_, fun hv => ?_⟩
  · rintro (⟨d, hd, hv⟩ | ⟨hnone, hv⟩)
    · exact (relocate_target hfree (g.mem_iff_mem.mp hd)).mp hv
    · exact ((relocate_elsewhere hnone).mp hv).2
  · cases hk : g k with
    | none => exact .inr ⟨hfree k v hv hk, .inr ⟨hk, hv⟩⟩
    | some d => exact .inl ⟨d, g.mem_iff_mem.mpr hk, (relocate_target hfree hk).mpr hv⟩

/-- **A move by copying.**  None of the keys that `g` leads to is moved itself. -/
theorem relocate_eq_discard_duplicate (hout : ∀ k s, k ∈ g s → g k = none) :
    relocate g E = discard g (duplicate g E) := by
  funext k v
  refine propext ⟨?_, ?_⟩
  · rintro (⟨s, hs, hv⟩ | ⟨hnone, hv⟩)
    · exact ⟨hout k s hs, .inl ⟨s, hs, hv⟩⟩
    · exact ⟨hnone, .inr hv⟩
  · rintro ⟨hnone, hmoved | hv⟩
    · exact .inl hmoved
    · exact .inr ⟨hnone, hv⟩

end ResearchSSH.Library
