/-
  ResearchSSH.Library.KeyedList — items at positions of a list, told apart by a key.

  An item that is found at a position is replaced there, or taken out.  What happens to the
  others does not depend on a key; that nothing is left of the one itself does, when no key is
  used twice.
-/

import Mathlib.Data.List.Nodup

namespace ResearchSSH.Library

universe u v
variable {α : Type u} {κ : Type v} {items : List α} {i : Nat} {old new a : α}

/-! ## §1. The other items. -/

/-- Other items stay. -/
theorem mem_set_of_ne (hi : items[i]? = some old) (ha : a ∈ items) (hne : a ≠ old) :
    a ∈ items.set i new := by
  obtain ⟨j, hj⟩ := List.mem_iff_getElem?.mp ha
  have hij : i ≠ j := by
    intro h
    rw [h, hj, Option.some.injEq] at hi
    exact hne hi
  exact List.mem_iff_getElem?.mpr ⟨j, by rw [List.getElem?_set_ne hij, hj]⟩

theorem mem_set_self (hi : items[i]? = some old) : new ∈ items.set i new := by
  obtain ⟨hlt, _⟩ := List.getElem?_eq_some_iff.mp hi
  exact List.mem_iff_getElem?.mpr ⟨i, List.getElem?_set_self hlt⟩

theorem mem_eraseIdx_of_ne (hi : items[i]? = some old) (ha : a ∈ items) (hne : a ≠ old) :
    a ∈ items.eraseIdx i := by
  obtain ⟨j, hj⟩ := List.mem_iff_getElem?.mp ha
  refine List.mem_eraseIdx_iff_getElem?.mpr ⟨j, ?_, hj⟩
  intro h
  rw [h, hi, Option.some.injEq] at hj
  exact hne hj.symm

/-! ## §2. Keys. -/

variable {key : α → κ}

/-- Replacing an item by one with its key leaves the keys. -/
theorem map_key_set (hi : items[i]? = some old) (hkey : key new = key old) :
    (items.set i new).map key = items.map key := by
  obtain ⟨hlt, hget⟩ := List.getElem?_eq_some_iff.mp hi
  rw [List.map_set, hkey, ← hget]
  apply List.ext_getElem?
  intro j
  rw [List.getElem?_set]
  split
  · next hij => simp [← hij, hlt]
  · rfl

/-- Items that are dropped or keep their key: the keys that are left, in their order. -/
theorem map_key_filterMap_sublist {f : α → Option α}
    (hf : ∀ a b, f a = some b → key b = key a) (items : List α) :
    ((items.filterMap f).map key).Sublist (items.map key) := by
  induction items with
  | nil => exact .slnil
  | cons a items ih =>
    cases h : f a with
    | none =>
      rw [List.filterMap_cons_none h, List.map_cons]
      exact ih.cons _
    | some b =>
      rw [List.filterMap_cons_some h, List.map_cons, List.map_cons, hf a b h]
      exact ih.cons_cons _

/-- The key of an item that was taken out is gone. -/
theorem key_ne_of_mem_eraseIdx (hnodup : (items.map key).Nodup) (hi : items[i]? = some old)
    (ha : a ∈ items.eraseIdx i) : key a ≠ key old := by
  intro hkey
  obtain ⟨j, hj, hget⟩ := List.mem_eraseIdx_iff_getElem?.mp ha
  apply hj
  have hlt : j < (items.map key).length := by
    rw [List.length_map]
    exact (List.getElem?_eq_some_iff.mp hget).1
  apply (List.getElem?_inj hlt hnodup).mp
  rw [List.getElem?_map, List.getElem?_map, hget, hi, Option.map_some, Option.map_some, hkey]

/-- What has the key of an item that was replaced is what it was replaced by. -/
theorem eq_of_mem_set (hnodup : (items.map key).Nodup) (hi : items[i]? = some old)
    (hkey : key new = key old) (ha : a ∈ items.set i new) (hakey : key a = key old) : a = new := by
  have hnodup' : ((items.set i new).map key).Nodup := by rwa [map_key_set hi hkey]
  exact List.inj_on_of_nodup_map hnodup' ha (mem_set_self hi) (hakey.trans hkey.symm)

/-! ## §3. Numbers as keys. -/

/-- No key is used twice, and none from `next` on. -/
def Distinct (keys : List Nat) (next : Nat) : Prop := keys.Nodup ∧ ∀ k ∈ keys, k < next

theorem Distinct.nil (next : Nat) : Distinct [] next :=
  ⟨List.nodup_nil, fun _ h => absurd h List.not_mem_nil⟩

/-- Keys that are taken out only. -/
theorem Distinct.sublist {keys keys' : List Nat} {next : Nat} (h : Distinct keys next)
    (hsub : keys'.Sublist keys) : Distinct keys' next :=
  ⟨h.1.sublist hsub, fun k hk => h.2 k (hsub.subset hk)⟩

/-- The next number is a key that is not used yet. -/
theorem Distinct.push {keys : List Nat} {next : Nat} (h : Distinct keys next) :
    Distinct (keys ++ [next]) (next + 1) := by
  constructor
  · rw [List.nodup_append]
    refine ⟨h.1, List.nodup_singleton next, ?_⟩
    intro k hk k' hk' heq
    have hlt := h.2 k hk
    have hnext : k' = next := List.mem_singleton.mp hk'
    omega
  · intro k hk
    obtain hk | hk := List.mem_append.mp hk
    · have hlt := h.2 k hk
      omega
    · have hnext : k = next := List.mem_singleton.mp hk
      omega

end ResearchSSH.Library
