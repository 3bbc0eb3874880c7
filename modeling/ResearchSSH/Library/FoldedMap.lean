/-
  ResearchSSH.Library.FoldedMap — a map after many keys have been taken out or put in.

  Main results:
    * `lookup_foldl_erase`  — what is left after the keys of a list have been taken out.
    * `lookup_foldl_insert` — what is there after entries with distinct keys have been put in.
-/

import Mathlib.Data.List.AList

namespace ResearchSSH.Library

universe u v
variable {κ : Type u} {β : Type v} [DecidableEq κ]

theorem lookup_foldl_erase (keys : List κ) (m : AList fun _ : κ => β) (k : κ) :
    (keys.foldl (fun m p => m.erase p) m).lookup k = if k ∈ keys then none else m.lookup k := by
  induction keys generalizing m with
  | nil => rw [List.foldl_nil, if_neg List.not_mem_nil]
  | cons p keys ih =>
    rw [List.foldl_cons, ih]
    by_cases hk : k = p
    · subst hk
      rw [AList.lookup_erase, ite_self, if_pos List.mem_cons_self]
    · rw [AList.lookup_erase_ne hk]
      simp only [List.mem_cons, hk, false_or]

/-- Entries with distinct keys stand over whatever was under their keys. -/
theorem lookup_foldl_insert (entries : List (κ × β)) (hkeys : (entries.map Prod.fst).Nodup)
    (m : AList fun _ : κ => β) (k : κ) (v : β) :
    (entries.foldl (fun m (p, b) => m.insert p b) m).lookup k = some v ↔
      (k, v) ∈ entries ∨ (k ∉ entries.map Prod.fst ∧ m.lookup k = some v) := by
  induction entries generalizing m with
  | nil => simp
  | cons e entries ih =>
    obtain ⟨p, b⟩ := e
    rw [List.map_cons, List.nodup_cons] at hkeys
    rw [List.foldl_cons, ih hkeys.2, List.map_cons, List.mem_cons, List.mem_cons]
    by_cases hk : k = p
    · subst hk
      -- the entry that was just put in stays: no later one has its key
      have hlater : (k, v) ∉ entries := fun h =>
        hkeys.1 (List.mem_map.mpr ⟨(k, v), h, rfl⟩)
      rw [AList.lookup_insert, Option.some.injEq, Prod.mk.injEq]
      constructor
      · rintro (h | ⟨_, rfl⟩)
        · exact absurd h hlater
        · exact .inl (.inl ⟨rfl, rfl⟩)
      · rintro ((⟨_, rfl⟩ | h) | ⟨hne, _⟩)
        · exact .inr ⟨hkeys.1, rfl⟩
        · exact absurd h hlater
        · exact absurd (.inl rfl) hne
    · have hhead : (k, v) ≠ (p, b) := fun h => hk (congrArg Prod.fst h)
      rw [AList.lookup_insert_ne hk]
      simp only [hhead, hk, false_or]

end ResearchSSH.Library
