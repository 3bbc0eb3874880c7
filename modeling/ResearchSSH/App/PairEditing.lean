/-
  ResearchSSH.App.PairEditing — brackets and quotes that come and go in pairs.

  A character without a partner has the empty string for one, and so has the end of the text for
  its character: behind the last character, Backspace takes that character for a pair.  The handler
  of Enter asks in addition whether the character is an opening bracket.

  Main results:
    * `backspace_insert`     — a pair that was inserted is taken back.
    * `backspace_behind`     — what Backspace does behind a character.
    * `pairsConsistent_iff`  — it touches nothing but pairs, but for the end of the text.
-/

import ResearchSSH.App.CodeEditorPane

namespace ResearchSSH.App

namespace CodeEditorPane

/-! ## §1. The handlers. -/

/-- `String.prototype.charAt`: the empty string where there is none. -/
def charAt (text : QString) (i : Nat) : QString := text[i]?.toList

/-- `pairFor`: empty for what opens nothing. -/
def pairFor (ch : QString) : QString :=
  if ch = lit "(" then lit ")"
  else if ch = lit "[" then lit "]"
  else if ch = lit "\x7b" then lit "\x7d"
  else if ch = lit "\"" then lit "\""
  else if ch = lit "'" then lit "'"
  else []

variable (p : CodeEditorPane)

/-- `remove` and `insert` of the text area, an assignment to its cursor and `setActiveModified`.
The handler of the change has marked the document before. -/
def replaceRange (start stop : Nat) (inserted : QString) (cursor : Nat) : CodeEditorPane :=
  setActiveModified
    { p with
      editorText := p.editorText.take start ++ inserted ++ p.editorText.drop stop
      editorCursor := cursor } true

/-- `handlePairInsert`: both partners are put around the cursor or the selection. -/
def handlePairInsert (selectionStart selectionEnd : Nat) (ch : QString) : Bool × CodeEditorPane :=
  let close := pairFor ch
  if close = [] then (false, p)
  else if selectionStart ≠ selectionEnd then
    let selected := (p.editorText.take selectionEnd).drop selectionStart
    (true, p.replaceRange selectionStart selectionEnd (ch ++ selected ++ close)
      (selectionStart + selected.length + 2))
  else
    (true, p.replaceRange p.editorCursor p.editorCursor (ch ++ close) (p.editorCursor + 1))

/-- `handleBackspacePair`: both partners go if the cursor is between them. -/
def handleBackspacePair (selectionStart selectionEnd : Nat) : Bool × CodeEditorPane :=
  let pos := p.editorCursor
  if selectionStart ≠ selectionEnd then (false, p)
  else if pos = 0 then (false, p)
  else if pairFor (charAt p.editorText (pos - 1)) = charAt p.editorText pos then
    (true, p.replaceRange (pos - 1) (pos + 1) [] (pos - 1))
  else (false, p)

/-! ## §2. Pairs. -/

/-- The partner of an opening bracket or quote. -/
def partner (u : QChar) : Option QChar :=
  if u = 0x28 then some 0x29
  else if u = 0x5b then some 0x5d
  else if u = 0x7b then some 0x7d
  else if u = 0x22 then some 0x22
  else if u = 0x27 then some 0x27
  else none

variable {p} {before after : QString} {u v : QChar} {i : Nat}

/-- No partner is the empty string. -/
theorem pairFor_singleton (u : QChar) : pairFor [u] = (partner u).toList := by
  have hlit : ∀ c : QChar, [u] = [c] ↔ u = c := fun c => ⟨fun h => (List.cons.inj h).1, fun h => h ▸ rfl⟩
  unfold pairFor partner
  rw [show lit "(" = [0x28] from by decide, show lit "[" = [0x5b] from by decide,
    show lit "\x7b" = [0x7b] from by decide, show lit "\"" = [0x22] from by decide,
    show lit "'" = [0x27] from by decide]
  simp only [hlit]
  split_ifs <;> decide

/-- The character behind a text of that length. -/
theorem charAt_behind (before after : QString) (u : QChar) :
    charAt (before ++ u :: after) before.length = [u] := by
  unfold charAt
  rw [List.getElem?_append_right le_rfl, Nat.sub_self]
  rfl

/-- Behind the text there is no character. -/
theorem charAt_end (text : QString) : charAt text text.length = [] := by
  unfold charAt
  rw [List.getElem?_eq_none le_rfl]
  rfl

@[simp] theorem editorText_setActiveModified (value : Bool) :
    (p.setActiveModified value).editorText = p.editorText := by
  unfold setActiveModified replaceDocument
  split
  · rfl
  · simp only [Bool.false_eq_true, false_and, if_false]

@[simp] theorem editorCursor_setActiveModified (value : Bool) :
    (p.setActiveModified value).editorCursor = p.editorCursor := by
  unfold setActiveModified replaceDocument
  split
  · rfl
  · simp only [Bool.false_eq_true, false_and, if_false]

/-- The text after a replacement. -/
@[simp] theorem editorText_replaceRange (start stop : Nat) (inserted : QString) (cursor : Nat) :
    (p.replaceRange start stop inserted cursor).editorText
      = p.editorText.take start ++ inserted ++ p.editorText.drop stop :=
  editorText_setActiveModified true

/-- The cursor is where it was to be put. -/
@[simp] theorem editorCursor_replaceRange (start stop : Nat) (inserted : QString) (cursor : Nat) :
    (p.replaceRange start stop inserted cursor).editorCursor = cursor :=
  editorCursor_setActiveModified true

/-! ## §3. What Backspace does. -/

/-- The text is what stands before the cursor and what stands behind it. -/
def At (p : CodeEditorPane) (before after : QString) : Prop :=
  p.editorText = before ++ after ∧ p.editorCursor = before.length

/-- A cursor within the text is between two parts of it. -/
theorem exists_at (h : p.editorCursor ≤ p.editorText.length) : ∃ before after, p.At before after :=
  ⟨p.editorText.take p.editorCursor, p.editorText.drop p.editorCursor,
    (List.take_append_drop _ _).symm, (List.length_take_of_le h).symm⟩

/-- Nothing is in front of the cursor. -/
theorem backspace_start (h : p.At [] after) : p.handleBackspacePair i i = (false, p) := by
  unfold handleBackspacePair
  have hcursor : p.editorCursor = 0 := h.2
  rw [if_neg (not_not.mpr rfl), if_pos hcursor]

/-- Behind a character, its partner is compared with what follows, if anything does. -/
theorem backspace_behind (h : p.At (before ++ [u]) after) : p.handleBackspacePair i i =
    if (partner u).toList = after.head?.toList then
      (true, p.replaceRange before.length (before.length + 2) [] before.length)
    else (false, p) := by
  obtain ⟨htext, hcursor⟩ := h
  rw [List.length_append, List.length_singleton] at hcursor
  have hprev : charAt p.editorText (p.editorCursor - 1) = [u] := by
    rw [htext, hcursor, Nat.add_sub_cancel, List.append_assoc]
    exact charAt_behind before after u
  have hnext : charAt p.editorText p.editorCursor = after.head?.toList := by
    have hlength : p.editorCursor = (before ++ [u]).length := by
      rw [hcursor, List.length_append, List.length_singleton]
    rw [htext, hlength]
    cases after with
    | nil =>
      rw [List.append_nil]
      exact charAt_end _
    | cons v after => exact charAt_behind _ after v
  unfold handleBackspacePair
  rw [if_neg (not_not.mpr rfl), if_neg (by omega), hprev, hnext, pairFor_singleton, hcursor,
    Nat.add_sub_cancel]

/-- Between a bracket or quote and its partner, both are taken away. -/
theorem backspace_pair (h : p.At (before ++ [u]) (v :: after)) (hpair : partner u = some v) :
    (p.handleBackspacePair i i).1 = true
      ∧ (p.handleBackspacePair i i).2.editorText = before ++ after
      ∧ (p.handleBackspacePair i i).2.editorCursor = before.length := by
  have hremoved : p.editorText.take before.length ++ [] ++ p.editorText.drop (before.length + 2)
      = before ++ after := by
    have htext : p.editorText = before ++ (u :: v :: after) := by
      rw [h.1, List.append_assoc]
      rfl
    rw [htext, List.take_left, ← List.drop_drop, List.drop_left, List.append_nil]
    rfl
  have hnext : (some v).toList = (v :: after).head?.toList := rfl
  rw [backspace_behind h, hpair, if_pos hnext]
  exact ⟨rfl, by rw [editorText_replaceRange, hremoved], editorCursor_replaceRange _ _ _ _⟩

/-- Between other characters, nothing is. -/
theorem backspace_other (h : p.At (before ++ [u]) (v :: after)) (hpair : partner u ≠ some v) :
    p.handleBackspacePair i i = (false, p) := by
  rw [backspace_behind h, if_neg]
  show ¬ (partner u).toList = [v]
  rw [Option.toList_eq_singleton_iff]
  exact hpair

/-- Behind the last character, it is taken away unless it is an opening bracket or quote. -/
theorem backspace_end (h : p.At (before ++ [u]) []) : p.handleBackspacePair i i =
    if partner u = none then
      (true, p.replaceRange before.length (before.length + 2) [] before.length)
    else (false, p) := by
  rw [backspace_behind h]
  show (if (partner u).toList = [] then _ else _) = _
  simp only [Option.toList_eq_nil_iff]

/-- **A pair that was inserted is taken back.** -/
theorem backspace_insert (h : p.editorCursor ≤ p.editorText.length) (hpair : partner u = some v)
    (j : Nat) :
    let q := (p.handlePairInsert i i [u]).2
    (q.handleBackspacePair j j).2.editorText = p.editorText
      ∧ (q.handleBackspacePair j j).2.editorCursor = p.editorCursor := by
  obtain ⟨before, after, htext, hcursor⟩ := exists_at h
  have hclose : pairFor [u] = [v] := by
    rw [pairFor_singleton, hpair]
    rfl
  have hinsert : (p.handlePairInsert i i [u]).2
      = p.replaceRange p.editorCursor p.editorCursor ([u] ++ [v]) (p.editorCursor + 1) := by
    unfold handlePairInsert
    dsimp only
    rw [hclose, if_neg (List.cons_ne_nil v []), if_neg (not_not.mpr rfl)]
  have hat : (p.handlePairInsert i i [u]).2.At (before ++ [u]) (v :: after) := by
    rw [hinsert]
    constructor
    · rw [editorText_replaceRange, htext, hcursor, List.take_left, List.drop_left]
      simp only [List.append_assoc, List.cons_append, List.nil_append]
    · rw [editorCursor_replaceRange, hcursor, List.length_append, List.length_singleton]
  obtain ⟨_, htext', hcursor'⟩ := backspace_pair (i := j) hat hpair
  exact ⟨htext'.trans htext.symm, hcursor'.trans hcursor.symm⟩

/-! ## §4. Pairs and nothing else. -/

/-- The cursor stands between an opening bracket or quote and its partner. -/
def BetweenPair (p : CodeEditorPane) (before after : QString) : Prop :=
  ∃ u v, partner u = some v ∧ p.editorText = before ++ u :: v :: after
    ∧ p.editorCursor = before.length + 1

/-- A pair that is inserted is taken back by Backspace, which takes away a pair around the cursor
and else leaves everything to the text area. -/
structure PairsConsistent (p : CodeEditorPane) : Prop where
  inserted : ∀ u v, partner u = some v → ∀ i j,
    (p.handlePairInsert i i [u]).1 = true
      ∧ ((p.handlePairInsert i i [u]).2.handleBackspacePair j j).2.editorText = p.editorText
      ∧ ((p.handlePairInsert i i [u]).2.handleBackspacePair j j).2.editorCursor = p.editorCursor
  pair : ∀ before after, p.BetweenPair before after → ∀ i,
    (p.handleBackspacePair i i).1 = true
      ∧ (p.handleBackspacePair i i).2.editorText = before ++ after
      ∧ (p.handleBackspacePair i i).2.editorCursor = before.length
  other : (∀ before after, ¬ p.BetweenPair before after) → ∀ i,
    p.handleBackspacePair i i = (false, p)

/-- The cursor is at the end of a text that does not end in an opening bracket or quote. -/
def BehindOther (p : CodeEditorPane) : Prop :=
  0 < p.editorCursor ∧ p.editorCursor = p.editorText.length
    ∧ pairFor (charAt p.editorText (p.editorCursor - 1)) = []

instance (p : CodeEditorPane) : Decidable p.BehindOther := inferInstanceAs (Decidable (_ ∧ _))

/-- At the end of the text, behind what opens nothing. -/
theorem behindOther_iff (h : p.At (before ++ [u]) after) :
    p.BehindOther ↔ after = [] ∧ partner u = none := by
  obtain ⟨htext, hcursor⟩ := h
  have hprev : charAt p.editorText (p.editorCursor - 1) = [u] := by
    rw [htext, hcursor, List.length_append, List.length_singleton, Nat.add_sub_cancel,
      List.append_assoc]
    exact charAt_behind before after u
  have hend : p.editorCursor = p.editorText.length ↔ after = [] := by
    have hlength : ((before ++ [u]) ++ after).length = (before ++ [u]).length + after.length :=
      List.length_append
    rw [hcursor, htext, hlength, ← List.length_eq_zero_iff]
    omega
  have hpos : 0 < p.editorCursor := by
    rw [hcursor, List.length_append, List.length_singleton]
    omega
  unfold BehindOther
  rw [hprev, pairFor_singleton, hend, Option.toList_eq_nil_iff]
  exact and_iff_right hpos

/-- At the start nothing is in front of the cursor. -/
theorem not_behindOther_start (h : p.At [] after) : ¬ p.BehindOther := by
  rintro ⟨hpos, _⟩
  rw [h.2] at hpos
  exact Nat.lt_irrefl 0 hpos

/-- What stands around the cursor is there once. -/
theorem betweenPair_iff {before' after' : QString} (h : p.At (before ++ [u]) after) :
    p.BetweenPair before' after' ↔
      before' = before ∧ ∃ v, after = v :: after' ∧ partner u = some v := by
  obtain ⟨htext, hcursor⟩ := h
  rw [List.append_assoc] at htext
  rw [List.length_append, List.length_singleton] at hcursor
  constructor
  · rintro ⟨u', v, hpair, htext', hcursor'⟩
    have hlength : before'.length = before.length := by omega
    obtain ⟨rfl, hrest⟩ := List.append_inj (htext'.symm.trans htext) hlength
    obtain ⟨rfl, rfl⟩ := List.cons.inj hrest
    exact ⟨rfl, v, rfl, hpair⟩
  · rintro ⟨rfl, v, rfl, hpair⟩
    exact ⟨u, v, hpair, htext, hcursor⟩

/-- At the start nothing is in front of the cursor. -/
theorem not_betweenPair_start {before' after' : QString} (h : p.At [] after) :
    ¬ p.BetweenPair before' after' := by
  rintro ⟨_, _, _, _, hcursor⟩
  rw [h.2] at hcursor
  exact Nat.succ_ne_zero _ hcursor.symm

/-- An opening partner is always handled. -/
theorem handlePairInsert_fst (hpair : partner u = some v) :
    (p.handlePairInsert i i [u]).1 = true := by
  have hclose : pairFor [u] ≠ [] := by
    rw [pairFor_singleton, hpair]
    exact List.cons_ne_nil v []
  unfold handlePairInsert
  dsimp only
  rw [if_neg hclose, if_neg (not_not.mpr rfl)]

/-- Backspace touches pairs only, unless it takes the end of the text for a partner. -/
theorem backspace_exact (hcursor : p.editorCursor ≤ p.editorText.length)
    (hend : ¬ p.BehindOther) (i : Nat) :
    (∀ before after, p.BetweenPair before after →
        (p.handleBackspacePair i i).1 = true
          ∧ (p.handleBackspacePair i i).2.editorText = before ++ after
          ∧ (p.handleBackspacePair i i).2.editorCursor = before.length)
      ∧ ((∀ before after, ¬ p.BetweenPair before after) →
          p.handleBackspacePair i i = (false, p)) := by
  obtain ⟨before, after, hat⟩ := exists_at hcursor
  obtain rfl | ⟨before, u, rfl⟩ := before.eq_nil_or_concat
  · exact ⟨fun _ _ h => absurd h (not_betweenPair_start hat), fun _ => backspace_start hat⟩
  · rw [List.concat_eq_append] at hat
    constructor
    · intro before' after' hpair
      obtain ⟨rfl, v, rfl, hv⟩ := (betweenPair_iff hat).mp hpair
      exact backspace_pair hat hv
    · intro hnone
      cases after with
      | nil =>
        rw [backspace_end hat, if_neg]
        exact fun h => hend ((behindOther_iff hat).mpr ⟨rfl, h⟩)
      | cons v after =>
        refine backspace_other hat fun hv => ?_
        exact hnone before after ((betweenPair_iff hat).mpr ⟨rfl, v, rfl, hv⟩)

/-- Behind the last character it is taken away. -/
theorem backspace_behindOther (hcursor : p.editorCursor ≤ p.editorText.length)
    (hend : p.BehindOther) (i : Nat) : (∀ before after, ¬ p.BetweenPair before after)
      ∧ (p.handleBackspacePair i i).1 = true := by
  obtain ⟨before, after, hat⟩ := exists_at hcursor
  obtain rfl | ⟨before, u, rfl⟩ := before.eq_nil_or_concat
  · exact absurd hend (not_behindOther_start hat)
  · rw [List.concat_eq_append] at hat
    obtain ⟨rfl, hnone⟩ := (behindOther_iff hat).mp hend
    constructor
    · intro before' after' hpair
      obtain ⟨_, v, hnil, _⟩ := (betweenPair_iff hat).mp hpair
      cases hnil
    · rw [backspace_end hat, if_pos hnone]

/-- **Pairs come and go together, and nothing else goes, exactly where the cursor is not behind a
last character that is no opening bracket or quote.** -/
theorem pairsConsistent_iff (p : CodeEditorPane) (h : p.editorCursor ≤ p.editorText.length) :
    p.PairsConsistent ↔ ¬ p.BehindOther := by
  constructor
  · intro hconsistent hend
    obtain ⟨hnone, htrue⟩ := backspace_behindOther h hend 0
    rw [hconsistent.other hnone 0] at htrue
    cases htrue
  · intro hend
    refine ⟨fun u v hpair i j => ?_, fun before after hpair i => ?_, fun hnone i => ?_⟩
    · obtain ⟨htext, hcursor⟩ := backspace_insert (i := i) h hpair j
      exact ⟨handlePairInsert_fst hpair, htext, hcursor⟩
    · exact (backspace_exact h hend i).1 before after hpair
    · exact (backspace_exact h hend i).2 hnone

/-- A document of the text, with the cursor in it. -/
def showing (text : QString) (cursor : Nat) : CodeEditorPane :=
  { initial with
    openDocuments := [makeDocument 0 (lit "/notes.txt") text false false]
    activeDocumentIndex := 0, editorText := text, editorCursor := cursor }

theorem pairsConsistent_brackets :
    1 ≤ (lit "()").length ∧ (showing (lit "()") 1).PairsConsistent :=
  ⟨by decide, (pairsConsistent_iff (showing (lit "()") 1) (by decide)).mpr (by decide)⟩

/-- Behind a letter at the end of the text, Backspace takes the letter and the key. -/
theorem letter_taken_for_pair :
    ¬ ∀ p : CodeEditorPane, p.editorCursor ≤ p.editorText.length → p.PairsConsistent := by
  intro h
  have hcursor : (showing (lit "a") 1).editorCursor ≤ (showing (lit "a") 1).editorText.length := by
    decide
  have hend : (showing (lit "a") 1).BehindOther := by decide
  obtain ⟨hnone, htrue⟩ := backspace_behindOther hcursor hend 1
  rw [(h (showing (lit "a") 1) hcursor).other hnone 1] at htrue
  cases htrue

end CodeEditorPane

end ResearchSSH.App
