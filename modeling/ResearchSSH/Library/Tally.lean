/-
  ResearchSSH.Library.Tally — a map that keeps a running value for each key.

  An item is counted under its key: what stands there, or a first value, takes the item in.  The
  order of the items of one key is kept, and the keys need none.

  Main results:
    * `lookup_tally`      — under each key, the running value of its items in their order.
    * `mem_keys_tally`    — the keys are those of the items.
    * `perm_flatMap_keys` — the items of distinct keys, put together again, are all items.
-/

import Mathlib.Data.List.AList
import Mathlib.Data.List.Induction
import Mathlib.Data.List.Perm.Basic

namespace ResearchSSH.Library

universe u v w
variable {α : Type u} {κ : Type v} {β : Type w} [DecidableEq κ]

/-- The item counted under its key. -/
def count (key : α → κ) (take : β → α → β) (first : β) (m : AList fun _ : κ => β) (a : α) :
    AList fun _ : κ => β :=
  m.insert (key a) (take ((m.lookup (key a)).getD first) a)

/-- The totals of all items, each under its key. -/
def tally (key : α → κ) (take : β → α → β) (first : β) (items : List α) : AList fun _ : κ => β :=
  items.foldl (count key take first) ∅

variable {key : α → κ} {take : β → α → β} {first : β}

/-- One item more. -/
theorem tally_concat (items : List α) (a : α) :
    tally key take first (items ++ [a]) = count key take first (tally key take first items) a := by
  unfold tally
  rw [List.foldl_append]
  rfl

/-- **Under each key stands the running value of its items.** -/
theorem lookup_tally (items : List α) (k : κ) :
    (tally key take first items).lookup k =
      if k ∈ items.map key then some ((items.filter (key · = k)).foldl take first) else none := by
  induction items using List.reverseRecOn with
  | nil => rfl
  | append_singleton items a ih =>
    rw [tally_concat, List.map_append, List.filter_append, List.foldl_append]
    unfold count
    by_cases hk : k = key a
    · subst hk
      have hvalue : ((tally key take first items).lookup (key a)).getD first
          = (items.filter (key · = key a)).foldl take first := by
        rw [ih]
        split
        · rfl
        · next hnone =>
          -- no item has been counted under the key yet
          rw [List.filter_eq_nil_iff.mpr]
          · rfl
          · intro b hb hkey
            exact hnone (List.mem_map.mpr ⟨b, hb, of_decide_eq_true hkey⟩)
      have hmem : key a ∈ items.map key ++ [a].map key :=
        List.mem_append_right _ List.mem_cons_self
      rw [AList.lookup_insert, hvalue, if_pos hmem]
      simp only [List.filter_cons, decide_true, if_true, List.filter_nil, List.foldl_cons,
        List.foldl_nil]
    · have hne : key a ≠ k := fun h => hk h.symm
      have hmem : k ∈ items.map key ++ [a].map key ↔ k ∈ items.map key := by
        rw [List.mem_append]
        refine or_iff_left ?_
        rw [List.map_singleton, List.mem_singleton]
        exact hk
      rw [AList.lookup_insert_ne hk, ih]
      simp only [hmem, List.filter_cons, hne, decide_false, Bool.false_eq_true, if_false,
        List.filter_nil, List.foldl_nil]

theorem mem_keys_tally (items : List α) (k : κ) :
    k ∈ (tally key take first items).keys ↔ k ∈ items.map key := by
  rw [← AList.mem_keys, ← AList.lookup_isSome, lookup_tally]
  split
  · next h => exact iff_of_true rfl h
  · next h => exact iff_of_false Bool.false_ne_true h

theorem foldl_concat (first : List α) (items : List α) :
    items.foldl (fun taken a => taken ++ [a]) first = first ++ items := by
  induction items generalizing first with
  | nil => exact (List.append_nil _).symm
  | cons a items ih => rw [List.foldl_cons, ih, List.append_assoc, List.singleton_append]

/-- The items of the first key, and those of the others. -/
theorem filter_mem_cons {k : κ} {keys : List κ} (hk : k ∉ keys) (items : List α) :
    (items.filter (key · = k) ++ items.filter (key · ∈ keys)).Perm
      (items.filter (key · ∈ k :: keys)) := by
  induction items with
  | nil => exact .nil
  | cons a items ih =>
    simp only [List.mem_cons] at ih ⊢
    by_cases ha : key a = k
    · simp only [List.filter_cons, ha, true_or, hk, decide_true, decide_false,
        if_true, Bool.false_eq_true, if_false]
      exact ih.cons a
    · by_cases hin : key a ∈ keys
      · simp only [List.filter_cons, ha, false_or, hin, decide_true, decide_false,
          if_true, Bool.false_eq_true, if_false]
        exact List.perm_middle.trans (ih.cons a)
      · simp only [List.filter_cons, ha, false_or, hin, decide_false,
          Bool.false_eq_true, if_false]
        exact ih

/-- The items, ordered by their keys. -/
theorem perm_filter_keys {keys : List κ} (hnodup : keys.Nodup) (items : List α) :
    (keys.flatMap fun k => items.filter (key · = k)).Perm (items.filter (key · ∈ keys)) := by
  induction keys with
  | nil =>
    rw [List.flatMap_nil, List.filter_eq_nil_iff.mpr]
    exact fun a _ h => List.not_mem_nil (of_decide_eq_true h)
  | cons k keys ih =>
    obtain ⟨hk, hrest⟩ := List.nodup_cons.mp hnodup
    rw [List.flatMap_cons]
    exact ((ih hrest).append_left _).trans (filter_mem_cons hk items)

/-- **Nothing is lost and nothing doubled.** -/
theorem perm_flatMap_keys {keys : List κ} (hnodup : keys.Nodup) {items : List α}
    (hkeys : ∀ a ∈ items, key a ∈ keys) :
    (keys.flatMap fun k => items.filter (key · = k)).Perm items := by
  have hall : items.filter (key · ∈ keys) = items :=
    List.filter_eq_self.mpr fun a ha => decide_eq_true (hkeys a ha)
  have hperm : (keys.flatMap fun k => items.filter (key · = k)).Perm
      (items.filter (key · ∈ keys)) := perm_filter_keys hnodup items
  rwa [hall] at hperm

end ResearchSSH.Library
