/-
  ResearchSSH.Library.Glob — patterns with stars and question marks.

  A text fits a pattern if it can be cut into pieces, one for each sign of the pattern, that the
  signs stand for.  A star stands for any piece, so a text fits a pattern that begins with one if
  it fits without the star, or if it fits without its own first letter; a matcher by backtracking
  tries the two in turn.

  Main results:
    * `fits_nil`, `fits_star`, `fits_any`, `fits_one` — a pattern is taken from the front.
-/

import Mathlib.Data.List.Forall2

namespace ResearchSSH.Library

variable {α : Type*}

/-- A sign of a pattern. -/
inductive Sign (α : Type*)
  | star
  | any
  | one (c : α)
  deriving DecidableEq, Repr

/-- The pieces that a sign stands for; letters are compared by `same`. -/
def Sign.Takes (same : α → α → Prop) : Sign α → List α → Prop
  | .star, _ => True
  | .any, piece => ∃ c, piece = [c]
  | .one c, piece => ∃ d, piece = [d] ∧ same c d

/-- The text can be cut into pieces that the signs of the pattern stand for. -/
def Fits (same : α → α → Prop) (pattern : List (Sign α)) (text : List α) : Prop :=
  ∃ pieces, List.Forall₂ (Sign.Takes same) pattern pieces ∧ pieces.flatten = text

variable {same : α → α → Prop} {pattern : List (Sign α)} {text : List α}

theorem fits_nil : Fits same [] text ↔ text = [] := by
  constructor
  · rintro ⟨pieces, htakes, rfl⟩
    cases htakes
    rfl
  · rintro rfl
    exact ⟨[], .nil, rfl⟩

/-- The first sign takes the first piece. -/
theorem fits_cons {s : Sign α} : Fits same (s :: pattern) text ↔
    ∃ piece rest, s.Takes same piece ∧ Fits same pattern rest ∧ text = piece ++ rest := by
  constructor
  · rintro ⟨pieces, htakes, rfl⟩
    cases htakes with
    | cons hpiece hpieces => exact ⟨_, _, hpiece, ⟨_, hpieces, rfl⟩, List.flatten_cons⟩
  · rintro ⟨piece, rest, hpiece, ⟨pieces, hpieces, rfl⟩, rfl⟩
    exact ⟨piece :: pieces, .cons hpiece hpieces, List.flatten_cons⟩

theorem fits_any : Fits same (.any :: pattern) text ↔
    ∃ c rest, text = c :: rest ∧ Fits same pattern rest := by
  rw [fits_cons]
  constructor
  · rintro ⟨_, rest, ⟨c, rfl⟩, hrest, rfl⟩
    exact ⟨c, rest, rfl, hrest⟩
  · rintro ⟨c, rest, rfl, hrest⟩
    exact ⟨[c], rest, ⟨c, rfl⟩, hrest, rfl⟩

theorem fits_one {c : α} : Fits same (.one c :: pattern) text ↔
    ∃ d rest, text = d :: rest ∧ same c d ∧ Fits same pattern rest := by
  rw [fits_cons]
  constructor
  · rintro ⟨_, rest, ⟨d, rfl, hsame⟩, hrest, rfl⟩
    exact ⟨d, rest, rfl, hsame, hrest⟩
  · rintro ⟨d, rest, rfl, hsame, hrest⟩
    exact ⟨[d], rest, ⟨d, rfl, hsame⟩, hrest, rfl⟩

/-- A star takes nothing, or the first letter and then what it takes of the rest. -/
theorem fits_star : Fits same (.star :: pattern) text ↔
    Fits same pattern text ∨ ∃ c rest, text = c :: rest ∧ Fits same (.star :: pattern) rest := by
  constructor
  · intro h
    obtain ⟨piece, rest, _, hrest, rfl⟩ := fits_cons.mp h
    -- a piece of a star stays one without its first letter
    cases piece with
    | nil => exact .inl hrest
    | cons c piece =>
      exact .inr ⟨c, piece ++ rest, rfl, fits_cons.mpr ⟨piece, rest, trivial, hrest, rfl⟩⟩
  · rintro (h | ⟨c, rest, rfl, h⟩)
    · exact fits_cons.mpr ⟨[], text, trivial, h, rfl⟩
    · obtain ⟨piece, rest, _, hrest, rfl⟩ := fits_cons.mp h
      exact fits_cons.mpr ⟨c :: piece, rest, trivial, hrest, rfl⟩

end ResearchSSH.Library
