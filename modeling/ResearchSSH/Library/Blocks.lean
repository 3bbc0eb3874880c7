/-
  ResearchSSH.Library.Blocks — a sequence that is cut into blocks by headers.

  What a loop does at an element depends on what stands before it.  A loop that carries a state
  along gives at every position what the state there asks for; and where the state is set by
  headers only, it is that of the last header.

  Main results:
    * `runLoop_eq`     — a loop gives the outputs of all positions, in order.
    * `under_eq_some`  — the last header before a position.
    * `foldl_under`    — a state that only headers set.
-/

import Mathlib.Data.List.Induction

namespace ResearchSSH.Library

variable {α β σ τ : Type*}

/-! ## §1. Positions. -/

/-- Every element, with those before it. -/
def placed : List α → List α → List (List α × α)
  | _, [] => []
  | pre, x :: xs => (pre, x) :: placed (pre ++ [x]) xs

theorem placed_append (pre xs ys : List α) :
    placed pre (xs ++ ys) = placed pre xs ++ placed (pre ++ xs) ys := by
  induction xs generalizing pre with
  | nil =>
    rw [List.append_nil]
    rfl
  | cons x xs ih =>
    rw [List.cons_append, placed, ih, List.append_assoc]
    rfl

/-! ## §2. Loops. -/

/-- A loop with a state; each element adds to the output. -/
def runLoop (next : σ → α → σ) (emit : σ → α → List β) : σ → List α → List β
  | _, [] => []
  | s, x :: xs => emit s x ++ runLoop next emit (next s x) xs

variable {next : σ → α → σ} {emit : σ → α → List β}

/-- **A loop gives the outputs of all positions, in order.** -/
theorem runLoop_eq (s : σ) (xs : List α) :
    runLoop next emit s xs
      = (placed [] xs).flatMap fun p => emit (p.1.foldl next s) p.2 := by
  -- from the middle of the sequence, with the state that what stands before has led to
  have hfrom : ∀ (xs pre : List α), runLoop next emit (pre.foldl next s) xs
      = (placed pre xs).flatMap fun p => emit (p.1.foldl next s) p.2 := by
    intro xs
    induction xs with
    | nil => intro pre; rfl
    | cons x xs ih =>
      intro pre
      rw [runLoop, placed, List.flatMap_cons, ← ih (pre ++ [x]), List.foldl_append]
      rfl
  exact hfrom xs []

/-- One more element adds its own output. -/
theorem runLoop_concat (s : σ) (pre : List α) (x : α) :
    runLoop next emit s (pre ++ [x]) = runLoop next emit s pre ++ emit (pre.foldl next s) x := by
  rw [runLoop_eq, runLoop_eq, placed_append, List.flatMap_append]
  simp [placed]

/-! ## §3. Headers. -/

/-- The last header of a sequence. -/
def under (header : α → Option τ) (pre : List α) : Option τ := (pre.filterMap header).getLast?

variable {header : α → Option τ}

/-- The header that is last is the one that counts. -/
theorem under_concat (pre : List α) (x : α) :
    under header (pre ++ [x]) = (header x).or (under header pre) := by
  unfold under
  rw [List.filterMap_append]
  cases hx : header x with
  | none => simp [hx]
  | some h => simp [hx]

theorem under_eq_none {pre : List α} : under header pre = none ↔ ∀ x ∈ pre, header x = none := by
  unfold under
  rw [List.getLast?_eq_none_iff, List.filterMap_eq_nil_iff]

/-- **The last header** has no other behind it. -/
theorem under_eq_some {pre : List α} {h : τ} : under header pre = some h ↔
    ∃ before x between, pre = before ++ x :: between ∧ header x = some h ∧
      ∀ y ∈ between, header y = none := by
  unfold under
  rw [List.getLast?_eq_some_iff]
  constructor
  · rintro ⟨hs, heq⟩
    -- Cut in front of the last header, and skip what is none.
    obtain ⟨l, l', rfl, _, hlast⟩ := List.filterMap_eq_append_iff.mp heq
    obtain ⟨skipped, x, between, rfl, _, hx, hnil⟩ := List.filterMap_eq_cons_iff.mp hlast
    refine ⟨l ++ skipped, x, between, by rw [List.append_assoc], hx, ?_⟩
    exact List.filterMap_eq_nil_iff.mp hnil
  · rintro ⟨before, x, between, rfl, hx, hnone⟩
    refine ⟨before.filterMap header, ?_⟩
    rw [List.filterMap_append, List.filterMap_cons_some hx, List.filterMap_eq_nil_iff.mpr hnone]

/-- **A state that only headers set** is that of the last one. -/
theorem foldl_under {g : τ → σ} {s : σ}
    (hset : ∀ s x h, header x = some h → next s x = g h)
    (hkeep : ∀ s x, header x = none → next s x = s) (pre : List α) :
    pre.foldl next s = ((under header pre).map g).getD s := by
  induction pre using List.reverseRecOn with
  | nil => rfl
  | append_singleton pre x ih =>
    rw [List.foldl_append, ih, under_concat]
    cases hx : header x with
    | none => exact hkeep _ x hx
    | some h => exact hset _ x h hx

end ResearchSSH.Library
