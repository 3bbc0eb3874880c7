/-
  ResearchSSH.App.ControlGrammar — what the control-sequence filter removes.

  The grammar of complete control sequences, stated on its own: each form carries the ranges of
  its units, so a `ControlSequence` is well formed by construction.  The filter's inner scans
  cross a body that holds no end mark and stop right behind the mark, so one turn of the loop
  consumes exactly one token.

  Main results:
    * `sanitiseTurn_token`           — one turn of the loop, one token.
    * `sanitiseTerminalChunk_tokens` — of any sequence of tokens the plain units pass, in order,
      and nothing stays pending.
-/
import ResearchSSH.App.ControlFilter

namespace ResearchSSH.App

open ResearchSSH.Library

/-! ## §1. The grammar. -/

/-- What introduces a string that only `ESC \` ends. -/
inductive StringIntroducer where
  | dcs
  | sos
  | pm
  | apc
deriving DecidableEq, Repr

/-- The character behind the escape. -/
def StringIntroducer.unit : StringIntroducer → QChar
  | .dcs => 0x50
  | .sos => 0x58
  | .pm => 0x5e
  | .apc => 0x5f

/-- The units that, after ESC, stand for themselves: none that introduces a longer form. -/
def StandsAlone (u : QChar) : Prop :=
  u ≠ 0x5b ∧ u ≠ 0x5d ∧ (∀ i : StringIntroducer, u ≠ i.unit) ∧ ¬ (0x20 ≤ u ∧ u ≤ 0x2f)

/-- One complete control sequence. -/
inductive ControlSequence where
  /-- `ESC [` or the 8-bit introducer, parameters and intermediates, a final unit. -/
  | csi (eightBit : Bool) (body : List {u : QChar // 0x20 ≤ u ∧ u ≤ 0x3f})
      (final : {u : QChar // 0x40 ≤ u ∧ u ≤ 0x7e})
  /-- `ESC ]`, a body, and BEL or `ESC \`. -/
  | osc (body : List {u : QChar // u ≠ 0x1b ∧ u ≠ 0x07}) (bel : Bool)
  /-- `ESC P`, `ESC X`, `ESC ^` or `ESC _`, a body, and `ESC \`. -/
  | string (introducer : StringIntroducer) (body : List {u : QChar // u ≠ 0x1b})
  /-- ESC, intermediates, a final unit. -/
  | escape (first : {u : QChar // 0x20 ≤ u ∧ u ≤ 0x2f})
      (more : List {u : QChar // 0x20 ≤ u ∧ u ≤ 0x2f}) (final : {u : QChar // 0x30 ≤ u ∧ u ≤ 0x7e})
  /-- ESC and any other single unit. -/
  | single (u : {u : QChar // StandsAlone u})

/-- The string terminator, `ESC \`. -/
def stringTerminator : List QChar := [0x1b, 0x5c]

/-- The sequence as the server sends it. -/
def ControlSequence.render : ControlSequence → List QChar
  | .csi eightBit body final =>
    (if eightBit then [0x9b] else [0x1b, 0x5b]) ++ body.map (·.val) ++ [final.val]
  | .osc body bel =>
    [0x1b, 0x5d] ++ body.map (·.val) ++ (if bel then [0x07] else stringTerminator)
  | .string introducer body => [0x1b, introducer.unit] ++ body.map (·.val) ++ stringTerminator
  | .escape first more final => [0x1b, first.val] ++ more.map (·.val) ++ [final.val]
  | .single u => [0x1b, u.val]

/-- A token of the terminal's text. -/
inductive TerminalToken where
  | plain (u : {u : QChar // u ≠ 0x1b ∧ u ≠ 0x9b})
  | control (sequence : ControlSequence)

/-- The token as the server sends it. -/
def TerminalToken.render : TerminalToken → List QChar
  | .plain u => [u.val]
  | .control sequence => sequence.render

/-- What a token shows: a plain unit itself, a control sequence nothing. -/
def TerminalToken.shown : TerminalToken → List QChar
  | .plain u => [u.val]
  | .control _ => []

/-! ## §2. The inner scans stop right behind the end mark. -/

/-- The body is skipped up to its final character. -/
theorem skipPast_body {isFinal : QChar → Bool} {final : QChar} (hfinal : isFinal final = true)
    (body : List QChar) (hbody : ∀ u ∈ body, isFinal u = false) :
    skipPast isFinal (body ++ [final]) = some [] := by
  induction body with
  | nil =>
    show skipPast isFinal [final] = some []
    rw [skipPast, if_pos hfinal]
  | cons u body ih =>
    have hu : ¬ isFinal u = true := by simp [hbody u List.mem_cons_self]
    rw [List.cons_append, skipPast, if_neg hu]
    exact ih (fun v hv => hbody v (List.mem_cons_of_mem _ hv))

/-- The body of a string is skipped up to its terminator. -/
theorem skipString_body {bel : Bool} {mark : List QChar} (hmark : skipString bel mark = some [])
    (body : List QChar) (hesc : ∀ u ∈ body, u ≠ 0x1b) (hbel : bel = true → ∀ u ∈ body, u ≠ 0x07) :
    skipString bel (body ++ mark) = some [] := by
  induction body with
  | nil => exact hmark
  | cons u body ih =>
    have hu1 : ¬ (bel && u == 0x07) = true := by
      cases bel with
      | false => simp
      | true => simp [hbel rfl u List.mem_cons_self]
    have hu2 : ¬ (u == 0x1b) = true := by simp [hesc u List.mem_cons_self]
    simp only [List.cons_append, skipString, if_neg hu1, if_neg hu2]
    exact ih (fun v hv => hesc v (List.mem_cons_of_mem _ hv))
      (fun hb v hv => hbel hb v (List.mem_cons_of_mem _ hv))

theorem skipString_terminator (bel : Bool) : skipString bel stringTerminator = some [] := by
  cases bel <;> rfl

theorem skipString_bel : skipString true [0x07] = some [] := rfl

/-- A control sequence is skipped as a whole. -/
theorem skipPast_csi (body : List {u : QChar // 0x20 ≤ u ∧ u ≤ 0x3f})
    (final : {u : QChar // 0x40 ≤ u ∧ u ≤ 0x7e}) :
    skipPast isCsiFinal (body.map (·.val) ++ [final.val]) = some [] := by
  refine skipPast_body ?_ _ (fun u hu => ?_)
  · simp [isCsiFinal, final.property]
  · obtain ⟨v, _, rfl⟩ := List.mem_map.mp hu
    have hv := v.property.2
    simp only [isCsiFinal, UInt16.le_iff_toNat_le, Bool.and_eq_false_iff, decide_eq_false_iff_not]
      at hv ⊢
    left
    have h1 : (0x3f : QChar).toNat = 63 := rfl
    have h2 : (0x40 : QChar).toNat = 64 := rfl
    omega

/-- An escape sequence is skipped as a whole. -/
theorem skipPast_escape (more : List {u : QChar // 0x20 ≤ u ∧ u ≤ 0x2f})
    (final : {u : QChar // 0x30 ≤ u ∧ u ≤ 0x7e}) :
    skipPast isEscFinal (more.map (·.val) ++ [final.val]) = some [] := by
  refine skipPast_body ?_ _ (fun u hu => ?_)
  · simp [isEscFinal, final.property]
  · obtain ⟨v, _, rfl⟩ := List.mem_map.mp hu
    have hv := v.property.2
    simp only [isEscFinal, UInt16.le_iff_toNat_le, Bool.and_eq_false_iff, decide_eq_false_iff_not]
      at hv ⊢
    left
    have h1 : (0x2f : QChar).toNat = 47 := rfl
    have h2 : (0x30 : QChar).toNat = 48 := rfl
    omega

/-! ## §3. One turn, one token. -/

/-- A control sequence is consumed whole. -/
theorem sanitiseTurn_control (sequence : ControlSequence) :
    ∃ c cs, sequence.render = c :: cs ∧ sanitiseTurn c cs = .go [] [] := by
  cases sequence with
  | csi eightBit body final =>
    have hscan := skipPast_csi body final
    cases eightBit with
    | true =>
      refine ⟨0x9b, body.map (·.val) ++ [final.val], rfl, ?_⟩
      have hne : (0x9b : QChar) ≠ 0x1b := by decide
      simp only [sanitiseTurn, if_neg hne, if_true, hscan, skipTo]
    | false =>
      refine ⟨0x1b, 0x5b :: (body.map (·.val) ++ [final.val]), rfl, ?_⟩
      simp only [sanitiseTurn, if_true, hscan, skipTo]
  | osc body bel =>
    refine ⟨0x1b, 0x5d :: (body.map (·.val) ++ (if bel then [0x07] else stringTerminator)),
      rfl, ?_⟩
    have hmark : skipString true (if bel then [0x07] else stringTerminator) = some [] := by
      cases bel with
      | true => exact skipString_bel
      | false => exact skipString_terminator true
    have hscan := skipString_body hmark (body.map (·.val))
      (by simp only [List.mem_map]; rintro _ ⟨v, _, rfl⟩; exact v.property.1)
      (by simp only [List.mem_map]; rintro _ _ ⟨v, _, rfl⟩; exact v.property.2)
    have hne : (0x5d : QChar) ≠ 0x5b := by decide
    simp only [sanitiseTurn, if_true, if_neg hne, hscan, skipTo]
  | string introducer body =>
    refine ⟨0x1b, introducer.unit :: (body.map (·.val) ++ stringTerminator), rfl, ?_⟩
    have hscan := skipString_body (skipString_terminator false) (body.map (·.val))
      (by simp only [List.mem_map]; rintro _ ⟨v, _, rfl⟩; exact v.property)
      (by simp)
    have h1 : introducer.unit ≠ 0x5b := by cases introducer <;> decide
    have h2 : introducer.unit ≠ 0x5d := by cases introducer <;> decide
    have h3 : introducer.unit = 0x50 ∨ introducer.unit = 0x58 ∨ introducer.unit = 0x5e
        ∨ introducer.unit = 0x5f := by
      cases introducer <;> decide
    simp only [sanitiseTurn, if_true, if_neg h1, if_neg h2, if_pos h3, hscan, skipTo]
  | escape first more final =>
    refine ⟨0x1b, first.val :: (more.map (·.val) ++ [final.val]), rfl, ?_⟩
    have hscan := skipPast_escape more final
    obtain ⟨f, hlow, hhigh⟩ := first
    have hinter : isEscIntermediate f = true := by simp [isEscIntermediate, hlow, hhigh]
    -- the intermediates lie below every unit that introduces another form
    have hne : ∀ k : QChar, 0x2f < k → f ≠ k := by
      intro k hk hfk
      subst hfk
      exact absurd hhigh (UInt16.not_le.mpr hk)
    have h1 := hne 0x5b (by decide)
    have h2 := hne 0x5d (by decide)
    have h3 : ¬ (f = 0x50 ∨ f = 0x58 ∨ f = 0x5e ∨ f = 0x5f) := by
      simp [hne 0x50 (by decide), hne 0x58 (by decide), hne 0x5e (by decide), hne 0x5f (by decide)]
    simp only [sanitiseTurn, if_true, if_neg h1, if_neg h2, if_neg h3, hinter, hscan, skipTo]
  | single u =>
    obtain ⟨u, h1, h2, hstring, hinter⟩ := u
    refine ⟨0x1b, [u], rfl, ?_⟩
    have h3 : ¬ (u = 0x50 ∨ u = 0x58 ∨ u = 0x5e ∨ u = 0x5f) := by
      have hd := hstring .dcs
      have hs := hstring .sos
      have hp := hstring .pm
      have ha := hstring .apc
      simp only [StringIntroducer.unit] at hd hs hp ha
      simp [hd, hs, hp, ha]
    have h4 : ¬ isEscIntermediate u = true := by
      simpa [isEscIntermediate] using hinter
    simp only [sanitiseTurn, if_true, if_neg h1, if_neg h2, if_neg h3, if_neg h4]

/-- **One turn, one token.** -/
theorem sanitiseTurn_token (token : TerminalToken) :
    ∃ c cs, token.render = c :: cs ∧ controlFilter.turn c cs = .go token.shown [] := by
  cases token with
  | plain u =>
    obtain ⟨u, hesc, hcsi⟩ := u
    refine ⟨u, [], rfl, ?_⟩
    show sanitiseTurn u [] = .go [u] []
    rw [sanitiseTurn, if_neg hesc, if_neg hcsi]
  | control sequence => exact sanitiseTurn_control sequence

/-! ## §4. The filter on a sequence of tokens. -/

/-- **Exactly the control sequences go.**  With nothing pending, the text that passes is made of
the plain units in order, and nothing is pending afterwards. -/
theorem sanitiseTerminalChunk_tokens (tokens : List TerminalToken) :
    sanitiseTerminalChunk [] (tokens.flatMap TerminalToken.render)
      = (tokens.flatMap TerminalToken.shown, []) := by
  have hrun := Scanner.run_flatMap (S := controlFilter) sanitiseTurn_token tokens
  rw [sanitiseTerminalChunk, Scanner.feed, List.nil_append, hrun]
  rfl

end ResearchSSH.App
