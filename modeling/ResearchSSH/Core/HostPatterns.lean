/-
  ResearchSSH.Core.HostPatterns — which hosts a `Host` line of an OpenSSH config is about.

  A pattern is matched byte by byte, with backtracking at a star.  A clause is a list of patterns:
  a host that a negated one matches is out, and otherwise one that a plain one matches is in.

  Main results:
    * `inner_iff`          — the matcher finds a way to cut the host exactly if there is one.
    * `innerWithin_total`  — how deep its recursion goes.
    * `clause_matches_iff` — what a clause means.
-/

import Mathlib.Data.List.Perm.Basic
import ResearchSSH.Core.Ffi
import ResearchSSH.Library.Glob

namespace ResearchSSH.Core

open ResearchSSH.Library

/-! ## §1. Text. -/

/-- `char::is_whitespace`: the characters with the property White_Space. -/
def isWhitespace (c : Char) : Bool :=
  (0x09 ≤ c.toNat && c.toNat ≤ 0x0d) || c.toNat == 0x20 || c.toNat == 0x85 || c.toNat == 0xa0
    || c.toNat == 0x1680 || (0x2000 ≤ c.toNat && c.toNat ≤ 0x200a) || c.toNat == 0x2028
    || c.toNat == 0x2029 || c.toNat == 0x202f || c.toNat == 0x205f || c.toNat == 0x3000

/-- `split_whitespace`. -/
def splitWhitespace (s : Text) : List Text := (s.splitOnP isWhitespace).filter (· ≠ [])

/-- `u8::to_ascii_lowercase`. -/
def toAsciiLowercase (b : UInt8) : UInt8 := if 0x41 ≤ b ∧ b ≤ 0x5a then b + 0x20 else b

/-- `eq_ignore_ascii_case`. -/
def eqIgnoreAsciiCase (a b : UInt8) : Bool := toAsciiLowercase a == toAsciiLowercase b

/-- `*`. -/
def starByte : UInt8 := 0x2a

/-- `?`. -/
def questionByte : UInt8 := 0x3f

/-! ## §2. The matcher. -/

/-- `inner`, on what is left of the pattern and of the text. -/
def inner : List UInt8 → List UInt8 → Bool
  | [], text => text.isEmpty
  | c :: pattern, text =>
    -- A star stands for nothing, or for one byte and then again for any.
    if c = starByte then
      inner pattern text ||
        match text with
        | [] => false
        | _ :: rest => inner (c :: pattern) rest
    else if c = questionByte then
      match text with
      | [] => false
      | _ :: rest => inner pattern rest
    else
      match text with
      | [] => false
      | d :: rest => eqIgnoreAsciiCase c d && inner pattern rest
termination_by pattern text => pattern.length + text.length

/-- `host_pattern_matches`, over the bytes of both texts. -/
def hostPatternMatches (pattern host : Text) : Bool := inner (utf8 pattern) (utf8 host)

/-- What a byte of a pattern stands for. -/
def sign (b : UInt8) : Sign UInt8 :=
  if b = starByte then .star else if b = questionByte then .any else .one b

/-- Equal up to the case of ASCII letters. -/
def SameLetter (a b : UInt8) : Prop := eqIgnoreAsciiCase a b = true

/-- The host can be cut into pieces, one for each byte of the pattern. -/
def GlobMatches (pattern host : Text) : Prop := Fits SameLetter ((utf8 pattern).map sign) (utf8 host)

theorem sign_star : sign starByte = .star := if_pos rfl

theorem sign_any : sign questionByte = .any := by decide

theorem sign_one {c : UInt8} (hstar : c ≠ starByte) (hquestion : c ≠ questionByte) :
    sign c = .one c := by
  unfold sign
  rw [if_neg hstar, if_neg hquestion]

/-- **The matcher finds a way to cut the text exactly if there is one.**  By induction on the
pattern, and at a star on the text. -/
theorem inner_iff (pattern text : List UInt8) :
    inner pattern text = true ↔ Fits SameLetter (pattern.map sign) text := by
  induction pattern generalizing text with
  | nil => rw [inner, List.map_nil, fits_nil, List.isEmpty_iff]
  | cons c pattern ih =>
    rw [List.map_cons]
    by_cases hstar : c = starByte
    · subst hstar
      rw [sign_star]
      -- the star stays, and the text gets shorter
      induction text with
      | nil =>
        rw [inner, if_pos rfl, Bool.or_false, ih, fits_star]
        simp
      | cons d rest ihText =>
        rw [inner, if_pos rfl, Bool.or_eq_true, ih, ihText]
        refine Iff.trans ?_ fits_star.symm
        simp
    · by_cases hquestion : c = questionByte
      · subst hquestion
        rw [sign_any, fits_any]
        cases text with
        | nil =>
          rw [inner, if_neg hstar, if_pos rfl]
          simp
        | cons d rest =>
          rw [inner, if_neg hstar, if_pos rfl, ih]
          simp
      · rw [sign_one hstar hquestion, fits_one]
        cases text with
        | nil =>
          rw [inner, if_neg hstar, if_neg hquestion]
          simp
        | cons d rest =>
          rw [inner, if_neg hstar, if_neg hquestion, Bool.and_eq_true, ih]
          simp [SameLetter]

/-- `inner`, with the depth to which it may recurse; `none` where that is not enough. -/
def innerWithin : Nat → List UInt8 → List UInt8 → Option Bool
  | 0, _, _ => none
  | _ + 1, [], text => some text.isEmpty
  | depth + 1, c :: pattern, text =>
    if c = starByte then
      (innerWithin depth pattern text).bind fun found =>
        if found then some true
        else
          match text with
          | [] => some false
          | _ :: rest => innerWithin depth (c :: pattern) rest
    else if c = questionByte then
      match text with
      | [] => some false
      | _ :: rest => innerWithin depth pattern rest
    else
      match text with
      | [] => some false
      | d :: rest => if eqIgnoreAsciiCase c d then innerWithin depth pattern rest else some false

/-- **The matcher terminates**: it recurses no deeper than pattern and text are long. -/
theorem innerWithin_total (depth : Nat) (pattern text : List UInt8)
    (h : pattern.length + text.length < depth) :
    innerWithin depth pattern text = some (inner pattern text) := by
  induction depth generalizing pattern text with
  | zero => exact absurd h (Nat.not_lt_zero _)
  | succ depth ih =>
    cases pattern with
    | nil => rw [innerWithin, inner]
    | cons c pattern =>
      rw [List.length_cons] at h
      -- a star, a question mark, a letter: each call is on less than before
      rw [innerWithin.eq_def, inner.eq_def]
      dsimp only
      split
      · rw [ih pattern text (by omega), Option.bind_some]
        cases text with
        | nil => cases inner pattern [] <;> rfl
        | cons d rest =>
          rw [List.length_cons] at h
          have hrest := ih (c :: pattern) rest (by rw [List.length_cons]; omega)
          dsimp only
          rw [hrest]
          cases inner pattern (d :: rest) <;> rfl
      · split
        · cases text with
          | nil => rfl
          | cons d rest =>
            rw [List.length_cons] at h
            exact ih pattern rest (by omega)
        · cases text with
          | nil => rfl
          | cons d rest =>
            rw [List.length_cons] at h
            dsimp only
            rw [ih pattern rest (by omega)]
            cases eqIgnoreAsciiCase c d <;> rfl

/-! ## §3. Clauses. -/

/-- The loop of `host_clause_matches`, with the value of `positive`. -/
def clauseLoop (host : Text) : List Text → Bool → Bool
  | [], positive => positive
  | ('!' :: negated) :: patterns, positive =>
    -- A negated pattern that matches ends the loop.
    if hostPatternMatches negated host then false else clauseLoop host patterns positive
  | pattern :: patterns, positive =>
    clauseLoop host patterns (if hostPatternMatches pattern host then true else positive)

/-- `host_clause_matches`: no pattern with `!` may match, and another one must. -/
def hostClauseMatches (patterns host : Text) : Bool :=
  clauseLoop host (splitWhitespace patterns) false

/-- Some plain pattern matches the host, and no negated one does. -/
def ClauseMatches (patterns : List Text) (host : Text) : Prop :=
  (∃ p ∈ patterns, p.head? ≠ some '!' ∧ GlobMatches p host) ∧
    ¬ ∃ negated, '!' :: negated ∈ patterns ∧ GlobMatches negated host

/-- The two loops decide the glob relation. -/
theorem hostPatternMatches_iff {pattern host : Text} :
    hostPatternMatches pattern host = true ↔ GlobMatches pattern host := inner_iff _ _

/-- What the loop gives from `positive` on. -/
theorem clauseLoop_iff (host : Text) (patterns : List Text) (positive : Bool) :
    clauseLoop host patterns positive = true ↔
      (positive = true ∨ ∃ p ∈ patterns, p.head? ≠ some '!' ∧ GlobMatches p host) ∧
        ¬ ∃ negated, '!' :: negated ∈ patterns ∧ GlobMatches negated host := by
  induction patterns generalizing positive with
  | nil => simp [clauseLoop]
  | cons pattern patterns ih =>
    by_cases hnegated : ∃ negated, pattern = '!' :: negated
    · obtain ⟨negated, rfl⟩ := hnegated
      rw [clauseLoop]
      split
      · next hmatches =>
        -- the loop is left, whatever has matched before
        rw [hostPatternMatches_iff] at hmatches
        refine iff_of_false Bool.false_ne_true fun h => h.2 ⟨negated, List.mem_cons_self, hmatches⟩
      · next hmatches =>
        rw [hostPatternMatches_iff] at hmatches
        rw [ih]
        simp [hmatches, or_and_right, exists_or]
    · have hhead : pattern.head? ≠ some '!' := by
        rintro hhead
        obtain ⟨negated, rfl⟩ := List.head?_eq_some_iff.mp hhead
        exact hnegated ⟨negated, rfl⟩
      have hplain : ∀ negated, '!' :: negated ≠ pattern := fun negated h =>
        hnegated ⟨negated, h.symm⟩
      rw [clauseLoop.eq_3 _ _ _ _ fun negated h => hnegated ⟨negated, h⟩, ih]
      by_cases hmatches : GlobMatches pattern host
      · rw [if_pos (hostPatternMatches_iff.mpr hmatches)]
        simp [hhead, hmatches, hplain]
      · rw [if_neg (mt hostPatternMatches_iff.mp hmatches)]
        simp [hmatches, hplain]

/-- The loop over the patterns decides the clause. -/
theorem hostClauseMatches_iff {patterns host : Text} :
    hostClauseMatches patterns host = true ↔ ClauseMatches (splitWhitespace patterns) host := by
  unfold hostClauseMatches ClauseMatches
  rw [clauseLoop_iff]
  simp

/-- **What a clause means.**  A host is in if a plain pattern matches it and no negated one does,
in whatever order they stand; and every match is decided by a recursion that ends. -/
theorem clause_matches_iff (patterns host : Text) :
    (hostClauseMatches patterns host = true ↔ ClauseMatches (splitWhitespace patterns) host) ∧
    (∀ patterns', List.Perm (splitWhitespace patterns') (splitWhitespace patterns) →
      hostClauseMatches patterns' host = hostClauseMatches patterns host) ∧
    ∀ pattern text : List UInt8,
      innerWithin (pattern.length + text.length + 1) pattern text = some (inner pattern text) := by
  refine ⟨hostClauseMatches_iff, fun patterns' hperm => ?_, fun pattern text => ?_⟩
  · rw [Bool.eq_iff_iff, hostClauseMatches_iff, hostClauseMatches_iff]
    unfold ClauseMatches
    simp only [hperm.mem_iff]
  · exact innerWithin_total _ pattern text (Nat.lt_succ_self _)

end ResearchSSH.Core
