/-
  ResearchSSH.App.TypedText — what comes of a text that is typed into the editor.

  The handler of keys puts a partner behind every opening bracket and quote, and passes over a
  closing bracket that is already there.  A quote opens, whatever there is; nothing passes over one.
  Enter brings the indentation of its line along, and opens a pair of brackets.  Tab and Enter accept
  a completion where completions are shown; no other key with a text heeds them.

  The keys are those that are pressed while no text is selected.  When completions are shown, and
  which of them is the current one, is left open.

  Main results:
    * `press_text_at`      — one key.
    * `keys_keep_text`     — no key but Backspace takes anything away.
    * `typed_as_is_iff`    — which texts come out as they were typed.
-/

import ResearchSSH.App.PairEditing

namespace ResearchSSH.App

namespace CodeEditorPane

/-! ## §1. The handlers. -/

variable (p : CodeEditorPane)

/-- `handleClosePair`: a partner that is there is stepped over. -/
def handleClosePair (ch : QString) : Bool × CodeEditorPane :=
  let pos := p.editorCursor
  if charAt p.editorText pos = ch then (true, { p with editorCursor := pos + 1 }) else (false, p)

/-- `leadingWhitespace`. -/
def leadingWhitespace (text : QString) : QString := text.takeWhile isJsSpace

/-- The text behind the last newline before the cursor. -/
def currentLineBeforeCursor : QString :=
  (p.editorText.take p.editorCursor).rtakeWhile (· ≠ 0x0a)

/-- The indentation that the end of a line asks for. -/
def extraIndent (line : QString) : QString :=
  if (lit ":").isSuffixOf (jsTrim line) || (lit "\x7b").isSuffixOf (jsTrim line)
      || (lit "[").isSuffixOf (jsTrim line) || (lit "(").isSuffixOf (jsTrim line)
  then lit "    " else []

/-- `handleSmartEnter`: the indentation of the line, and more of it behind an opening partner. -/
def handleSmartEnter : Bool × CodeEditorPane :=
  let pos := p.editorCursor
  let prev := if pos > 0 then charAt p.editorText (pos - 1) else []
  let next := charAt p.editorText pos
  let line := p.currentLineBeforeCursor
  let indent := leadingWhitespace line
  let extra := extraIndent line
  if pairFor prev = next ∧ (prev = lit "\x7b" ∨ prev = lit "[" ∨ prev = lit "(") then
    (true, p.replaceRange pos pos (lit "\n" ++ indent ++ lit "    \n" ++ indent)
      (pos + indent.length + 5))
  else
    (true, p.replaceRange pos pos (lit "\n" ++ indent ++ extra)
      (pos + 1 + indent.length + extra.length))

/-- What the text area does with a text it is left with. -/
def insertTyped (t : QString) : CodeEditorPane :=
  p.replaceRange p.editorCursor p.editorCursor t (p.editorCursor + t.length)

/-- The texts of the branch of `handlePairInsert`. -/
def opens (t : QString) : Bool :=
  t = lit "(" || t = lit "[" || t = lit "\x7b" || t = lit "\"" || t = lit "'"

/-- The texts of the branch of `handleClosePair`. -/
def closes (t : QString) : Bool := t = lit ")" || t = lit "]" || t = lit "\x7d"

/-- The current row of the completions that are shown: the letters they were looked up for, and the
text that takes their place. -/
structure Completion where
  completionPrefix : QString
  insert : QString
  deriving DecidableEq, Repr

/-- `acceptCompletion`: the completion comes in the place of its prefix. -/
def acceptCompletion (item : Completion) : CodeEditorPane :=
  let start := p.editorCursor - item.completionPrefix.length
  p.replaceRange start p.editorCursor item.insert (start + item.insert.length)

/-- The keys that the text area handles on its own. -/
inductive EditorKey
  /-- A key that is none of those below, nor Backspace, by its `event.text`. -/
  | text (t : QString)
  | tab
  | enter
  /-- Escape, or Space with Ctrl: completions are closed or opened. -/
  | completions
  deriving DecidableEq, Repr

/-- `Keys.onPressed`, and the text area where the event is not accepted. -/
def press (shown : Option Completion) : EditorKey → CodeEditorPane
  | .completions => p
  | .tab =>
    match shown with
    | some item => p.acceptCompletion item
    | none => p.insertTyped (lit "\t")
  | .enter =>
    match shown with
    | some item => p.acceptCompletion item
    | none => p.handleSmartEnter.2
  | .text t =>
    if opens t then
      match p.handlePairInsert p.editorCursor p.editorCursor t with
      | (true, q) => q
      | (false, q) => q.insertTyped t
    else if closes t then
      match p.handleClosePair t with
      | (true, q) => q
      | (false, q) => q.insertTyped t
    else p.insertTyped t

/-- The key accepts the completion that is shown. -/
def accepts (shown : Option Completion) : EditorKey → Bool
  | .tab | .enter => shown.isSome
  | .text _ | .completions => false

/-- Some keys, one after another, each with the completions that are shown when it is pressed. -/
def pressAll (keys : List (EditorKey × Option Completion)) : CodeEditorPane :=
  keys.foldl (fun p key => p.press key.2 key.1) p

/-! ## §2. One key. -/

/-- What stands behind the cursor after a text was typed. -/
def behind (after t : QString) : QString :=
  if opens t then pairFor t ++ after
  else if closes t ∧ after.head?.toList = t then after.tail
  else after

variable {p} {before after : QString}

/-- An insertion at the cursor, and how much of it the cursor goes on. -/
theorem at_insert (h : p.At before after) (a b : QString) :
    (p.replaceRange p.editorCursor p.editorCursor (a ++ b) (p.editorCursor + a.length)).At
      (before ++ a) (b ++ after) := by
  obtain ⟨htext, hcursor⟩ := h
  constructor
  · rw [editorText_replaceRange, htext, hcursor, List.take_left, List.drop_left]
    simp only [List.append_assoc]
  · rw [editorCursor_replaceRange, hcursor, List.length_append]

/-- What is typed stands in front of the cursor. -/
theorem at_insertTyped (h : p.At before after) (t : QString) :
    (p.insertTyped t).At (before ++ t) after := by
  have hinserted := at_insert h t []
  rw [List.append_nil] at hinserted
  exact hinserted

/-- The character behind the cursor. -/
theorem charAt_cursor (h : p.At before after) :
    charAt p.editorText p.editorCursor = after.head?.toList := by
  rw [h.1, h.2]
  cases after with
  | nil =>
    rw [List.append_nil]
    exact charAt_end before
  | cons u after => exact charAt_behind before after u

/-- An opening bracket or quote has a partner, of one unit like itself. -/
theorem of_opens {t : QString} (h : opens t = true) : ∃ u v, t = [u] ∧ pairFor t = [v] := by
  unfold opens at h
  simp only [Bool.or_eq_true, decide_eq_true_eq] at h
  obtain (((rfl | rfl) | rfl) | rfl) | rfl := h
  · exact ⟨0x28, 0x29, by decide, by decide⟩
  · exact ⟨0x5b, 0x5d, by decide, by decide⟩
  · exact ⟨0x7b, 0x7d, by decide, by decide⟩
  · exact ⟨0x22, 0x22, by decide, by decide⟩
  · exact ⟨0x27, 0x27, by decide, by decide⟩

/-- A closing partner is one character and opens nothing. -/
theorem of_closes {t : QString} (h : closes t = true) : (∃ u, t = [u]) ∧ opens t = false := by
  unfold closes at h
  simp only [Bool.or_eq_true, decide_eq_true_eq] at h
  obtain (rfl | rfl) | rfl := h
  · exact ⟨⟨0x29, by decide⟩, by decide⟩
  · exact ⟨⟨0x5d, by decide⟩, by decide⟩
  · exact ⟨⟨0x7d, by decide⟩, by decide⟩

/-- **One key** with a text: before the cursor comes the text, and behind it what `behind` says. -/
theorem press_text_at (h : p.At before after) (shown : Option Completion) (t : QString) :
    (p.press shown (.text t)).At (before ++ t) (behind after t) := by
  unfold press behind
  dsimp only
  by_cases hopens : opens t = true
  · rw [if_pos hopens, if_pos hopens]
    obtain ⟨u, v, rfl, hclose⟩ := of_opens hopens
    have hinsert : p.handlePairInsert p.editorCursor p.editorCursor [u]
        = (true, p.replaceRange p.editorCursor p.editorCursor ([u] ++ [v])
          (p.editorCursor + 1)) := by
      unfold handlePairInsert
      dsimp only
      rw [hclose, if_neg (List.cons_ne_nil v []), if_neg (not_not.mpr rfl)]
    rw [hinsert, hclose]
    exact at_insert h [u] [v]
  · rw [if_neg hopens, if_neg hopens]
    by_cases hcloses : closes t = true
    · rw [if_pos hcloses]
      unfold handleClosePair
      dsimp only
      rw [charAt_cursor h]
      by_cases hhead : after.head?.toList = t
      · -- the bracket that is there becomes the one that was typed
        rw [if_pos hhead, if_pos ⟨hcloses, hhead⟩]
        obtain ⟨u, rfl⟩ := (of_closes hcloses).1
        obtain ⟨rest, rfl⟩ : ∃ rest, after = u :: rest := by
          rw [Option.toList_eq_singleton_iff] at hhead
          exact List.head?_eq_some_iff.mp hhead
        refine ⟨?_, ?_⟩
        · show p.editorText = _
          rw [h.1, List.append_assoc]
          rfl
        · show p.editorCursor + 1 = _
          rw [h.2, List.length_append]
          rfl
      · rw [if_neg hhead, if_neg fun hand => hhead hand.2]
        exact at_insertTyped h t
    · rw [if_neg hcloses, if_neg fun hand => hcloses hand.1]
      exact at_insertTyped h t

/-- Enter puts something before the cursor and something behind it. -/
theorem press_enter_at (h : p.At before after) :
    ∃ a b, (p.press none .enter).At (before ++ a) (b ++ after) := by
  show ∃ a b, p.handleSmartEnter.2.At _ _
  unfold handleSmartEnter
  dsimp only
  generalize (if p.editorCursor > 0 then charAt p.editorText (p.editorCursor - 1) else []) = prev
  generalize extraIndent p.currentLineBeforeCursor = extra
  generalize leadingWhitespace p.currentLineBeforeCursor = indent
  have hnewline : (lit "\n").length = 1 := by decide
  have hspaces : (lit "    ").length = 4 := by decide
  split
  · refine ⟨lit "\n" ++ indent ++ lit "    ", lit "\n" ++ indent, ?_⟩
    have hinserted := at_insert h (lit "\n" ++ indent ++ lit "    ") (lit "\n" ++ indent)
    have hlength : (lit "\n" ++ indent ++ lit "    ").length = indent.length + 5 := by
      rw [List.length_append, List.length_append, hnewline, hspaces]
      omega
    rw [hlength, ← Nat.add_assoc] at hinserted
    rw [show lit "    \n" = lit "    " ++ lit "\n" from by decide]
    simpa only [List.append_assoc] using hinserted
  · refine ⟨lit "\n" ++ indent ++ extra, [], ?_⟩
    have hinserted := at_insertTyped h (lit "\n" ++ indent ++ extra)
    have hlength : (lit "\n" ++ indent ++ extra).length = 1 + indent.length + extra.length := by
      rw [List.length_append, List.length_append, hnewline]
    unfold insertTyped at hinserted
    rw [hlength, ← Nat.add_assoc, ← Nat.add_assoc] at hinserted
    exact hinserted

/-! ## §3. Any number of keys. -/

/-- What stood behind the cursor is there still, before it or behind it. -/
theorem sublist_behind (after t : QString) : after.Sublist (t ++ behind after t) := by
  unfold behind
  split
  · rw [← List.append_assoc]
    exact List.sublist_append_right _ _
  · split
    · next hpassed =>
      obtain ⟨u, rfl⟩ := (of_closes hpassed.1).1
      have hhead := hpassed.2
      rw [Option.toList_eq_singleton_iff] at hhead
      obtain ⟨rest, rfl⟩ := List.head?_eq_some_iff.mp hhead
      exact List.Sublist.refl _
    · exact List.sublist_append_right _ _

/-- One key that accepts no completion. -/
theorem press_keeps (h : p.At before after) {shown : Option Completion} {key : EditorKey}
    (hkey : accepts shown key = false) :
    ∃ a after', (p.press shown key).At (before ++ a) after' ∧ after.Sublist (a ++ after') := by
  have hinsert : ∀ a b : QString, after.Sublist (a ++ (b ++ after)) := fun a b =>
    (List.sublist_append_right b after).trans (List.sublist_append_right a _)
  cases key with
  | text t => exact ⟨t, _, press_text_at h shown t, sublist_behind after t⟩
  | completions =>
    refine ⟨[], after, ?_, List.Sublist.refl _⟩
    rw [List.append_nil]
    exact h
  | tab =>
    obtain rfl := Option.not_isSome_iff_eq_none.mp (Bool.not_eq_true _ ▸ hkey)
    exact ⟨lit "\t", after, at_insertTyped h _, hinsert _ []⟩
  | enter =>
    obtain rfl := Option.not_isSome_iff_eq_none.mp (Bool.not_eq_true _ ▸ hkey)
    obtain ⟨a, b, hat⟩ := press_enter_at h
    exact ⟨a, b ++ after, hat, hinsert a b⟩

/-- **No key but Backspace takes anything away**, unless a completion is accepted, and what stands
before the cursor stays as it is. -/
theorem keys_keep_text (keys : List (EditorKey × Option Completion))
    (hkeys : ∀ key ∈ keys, accepts key.2 key.1 = false) :
    ∀ {p : CodeEditorPane} {before after : QString},
      p.At before after → p.editorText.Sublist (p.pressAll keys).editorText
        ∧ ∃ more after', (p.pressAll keys).At (before ++ more) after' := by
  induction keys with
  | nil =>
    intro p before after h
    refine ⟨List.Sublist.refl _, [], after, ?_⟩
    rw [List.append_nil]
    exact h
  | cons key keys ih =>
    intro p before after h
    obtain ⟨hkey, hrest⟩ := List.forall_mem_cons.mp hkeys
    obtain ⟨a, after', hat, hkept⟩ := press_keeps h hkey
    have hfirst : p.editorText.Sublist (p.press key.2 key.1).editorText := by
      rw [h.1, hat.1, List.append_assoc]
      exact hkept.append_left before
    obtain ⟨hmore, more, after'', hend⟩ := ih hrest hat
    refine ⟨hfirst.trans hmore, a ++ more, after'', ?_⟩
    rw [← List.append_assoc]
    exact hend

/-- Some texts, typed one after another, each with the completions that are shown then. -/
def typeAll (p : CodeEditorPane) (typed : List (QString × Option Completion)) : CodeEditorPane :=
  p.pressAll (typed.map fun key => (.text key.1, key.2))

/-- Where the cursor is when all is typed. -/
theorem typeAll_at (typed : List (QString × Option Completion)) :
    ∀ {p : CodeEditorPane} {before after : QString}, p.At before after →
      (p.typeAll typed).At (before ++ (typed.map Prod.fst).flatten)
        ((typed.map Prod.fst).foldl behind after) := by
  induction typed with
  | nil =>
    intro p before after h
    rw [List.map_nil, List.flatten_nil, List.append_nil]
    exact h
  | cons key typed ih =>
    intro p before after h
    rw [List.map_cons, List.flatten_cons, ← List.append_assoc]
    exact ih (press_text_at h key.2 key.1)

/-! ## §4. Texts that come out as they were typed. -/

/-- The partners that are still to be passed over, the next one first.  A closing bracket passes over
the next one if it is that, and is typed as it is if it is another; `none` where it comes and nothing
is to be passed over. -/
def pendingStep (stack : List QString) (t : QString) : Option (List QString) :=
  if opens t then some (pairFor t :: stack)
  else if closes t then
    match stack with
    | [] => none
    | next :: rest => if next = t then some rest else some (next :: rest)
  else some stack

/-- The partners still to be passed over behind a text, innermost first; `none` if a closing bracket
comes where nothing is to be passed over. -/
def pending : List QString → List QString → Option (List QString)
  | [], stack => some stack
  | t :: ts, stack => (pendingStep stack t).bind (pending ts)

/-- Each entry of the stack is one unit. -/
def Units (stack : List QString) : Prop := ∀ t ∈ stack, ∃ u, t = [u]

/-- What is open is closed by single characters. -/
theorem units_pendingStep {stack stack' : List QString} {t : QString} (h : Units stack)
    (hstep : pendingStep stack t = some stack') : Units stack' := by
  unfold pendingStep at hstep
  split at hstep
  · next hopens =>
    obtain ⟨u, v, -, hclose⟩ := of_opens hopens
    obtain rfl := Option.some.inj hstep
    exact List.forall_mem_cons.mpr ⟨⟨v, hclose⟩, h⟩
  · split at hstep
    · cases stack with
      | nil => cases hstep
      | cons next rest =>
        dsimp only at hstep
        split at hstep
        · obtain rfl := Option.some.inj hstep
          exact (List.forall_mem_cons.mp h).2
        · obtain rfl := Option.some.inj hstep
          exact h
    · obtain rfl := Option.some.inj hstep
      exact h

/-- What is open is closed by single characters. -/
theorem units_pending (ts : List QString) : ∀ {stack stack' : List QString}, Units stack →
    pending ts stack = some stack' → Units stack' := by
  induction ts with
  | nil =>
    intro stack stack' h hpending
    obtain rfl := Option.some.inj hpending
    exact h
  | cons t ts ih =>
    intro stack stack' h hpending
    obtain ⟨next, hstep, hrest⟩ := Option.bind_eq_some_iff.mp hpending
    exact ih (units_pendingStep h hstep) hrest

/-- What is on the stack stands behind the cursor, before what was there. -/
theorem behind_of_pendingStep {stack stack' : List QString} {t : QString} (h : Units stack)
    (hstep : pendingStep stack t = some stack') (after : QString) :
    behind (stack.flatten ++ after) t = stack'.flatten ++ after := by
  unfold pendingStep at hstep
  unfold behind
  by_cases hopens : opens t = true
  · rw [if_pos hopens] at hstep ⊢
    obtain rfl := Option.some.inj hstep
    rw [List.flatten_cons, List.append_assoc]
  · rw [if_neg hopens] at hstep ⊢
    by_cases hcloses : closes t = true
    · rw [if_pos hcloses] at hstep
      cases stack with
      | nil => cases hstep
      | cons next rest =>
        obtain ⟨u, rfl⟩ := h next List.mem_cons_self
        have hhead : (([u] :: rest).flatten ++ after).head?.toList = [u] := rfl
        dsimp only at hstep
        rw [hhead]
        by_cases hnext : [u] = t
        · rw [if_pos hnext] at hstep
          obtain rfl := Option.some.inj hstep
          rw [if_pos ⟨hcloses, hnext⟩]
          rfl
        · rw [if_neg hnext] at hstep
          obtain rfl := Option.some.inj hstep
          rw [if_neg fun hand => hnext hand.2]
    · rw [if_neg hcloses] at hstep
      obtain rfl := Option.some.inj hstep
      rw [if_neg fun hand => hcloses hand.1]

/-- Behind the cursor stand the partners that are still open. -/
theorem foldl_behind_of_pending (ts : List QString) : ∀ {stack stack' : List QString},
    Units stack → pending ts stack = some stack' → ∀ after,
      ts.foldl behind (stack.flatten ++ after) = stack'.flatten ++ after := by
  induction ts with
  | nil =>
    intro stack stack' _ h after
    obtain rfl := Option.some.inj h
    rfl
  | cons t ts ih =>
    intro stack stack' h hpending after
    obtain ⟨next, hstep, hrest⟩ := Option.bind_eq_some_iff.mp hpending
    rw [List.foldl_cons, behind_of_pendingStep h hstep]
    exact ih (units_pendingStep h hstep) hrest after

/-- A closing bracket too many is taken from what was there, if that begins with one. -/
theorem foldl_behind_of_none (ts : List QString) : ∀ {stack : List QString}, Units stack →
    pending ts stack = none → ∃ u,
      ts.foldl behind (stack.flatten ++ [u]) = ts.foldl behind (stack.flatten ++ []) := by
  induction ts with
  | nil =>
    intro stack _ h
    cases h
  | cons t ts ih =>
    intro stack h hpending
    cases hstep : pendingStep stack t with
    -- so far it was as typed: what goes wrong comes later
    | some next =>
      have hrest : pending ts next = none := by
        have hbind : (pendingStep stack t).bind (pending ts) = none := hpending
        rwa [hstep] at hbind
      obtain ⟨u, hsame⟩ := ih (units_pendingStep h hstep) hrest
      refine ⟨u, ?_⟩
      rw [List.foldl_cons, List.foldl_cons, behind_of_pendingStep h hstep,
        behind_of_pendingStep h hstep]
      exact hsame
    -- a closing sign with nothing open: it steps over the sign that stood behind
    | none =>
      unfold pendingStep at hstep
      split at hstep
      · cases hstep
      · next hopens =>
        split at hstep
        · next hcloses =>
          cases stack with
          | nil =>
            obtain ⟨u, rfl⟩ := (of_closes hcloses).1
            refine ⟨u, ?_⟩
            have hpassed : behind [u] [u] = [] := by
              unfold behind
              rw [if_neg hopens, if_pos ⟨hcloses, rfl⟩]
              rfl
            have hnothing : behind [] [u] = [] := by
              unfold behind
              rw [if_neg hopens, if_neg fun hand => List.cons_ne_nil u [] hand.2.symm]
            show ts.foldl behind (behind [u] [u]) = ts.foldl behind (behind [] [u])
            rw [hpassed, hnothing]
          | cons next rest =>
            dsimp only at hstep
            split at hstep <;> cases hstep
        · cases hstep

/-- **Which texts come out as they were typed**, wherever they are typed: those that pass over every
partner, the last one first, and have no closing bracket while none is to be passed over.  Quotes are
not among them, as nothing passes over a quote. -/
theorem foldl_behind_iff (ts : List QString) :
    (∀ after, ts.foldl behind after = after) ↔ pending ts [] = some [] := by
  have hunits : Units [] := List.forall_mem_nil _
  constructor
  · intro h
    cases hpending : pending ts [] with
    | none =>
      obtain ⟨u, hsame⟩ := foldl_behind_of_none ts hunits hpending
      rw [h, h] at hsame
      cases hsame
    | some stack =>
      have hend := foldl_behind_of_pending ts hunits hpending []
      rw [h, List.append_nil] at hend
      cases stack with
      | nil => rfl
      | cons t stack =>
        obtain ⟨u, rfl⟩ := units_pending ts hunits hpending t List.mem_cons_self
        cases hend
  · intro h after
    exact foldl_behind_of_pending ts hunits h after

/-- **Typed texts.**  Wherever the cursor is, and whatever completions are shown, the texts that are
typed stand before it, one after another, and behind it what `behind` makes of what was there.  They
are all that is new, wherever they are typed, exactly if every partner that they put there is passed
over, the last one first, and no closing bracket comes while none is to be passed over. -/
theorem typed_as_is_iff (typed : List (QString × Option Completion)) :
    (∀ (p : CodeEditorPane) (before after : QString), p.At before after →
        (p.typeAll typed).At (before ++ (typed.map Prod.fst).flatten)
          ((typed.map Prod.fst).foldl behind after))
      ∧ ((∀ (p : CodeEditorPane) (before after : QString), p.At before after →
          (p.typeAll typed).editorText = before ++ (typed.map Prod.fst).flatten ++ after)
        ↔ pending (typed.map Prod.fst) [] = some []) := by
  refine ⟨fun p before after h => typeAll_at typed h, ?_⟩
  rw [← foldl_behind_iff]
  constructor
  · intro h after
    have hat : (showing ([] ++ after) 0).At [] after := ⟨rfl, rfl⟩
    have htext := h _ _ _ hat
    rw [(typeAll_at typed hat).1] at htext
    exact List.append_cancel_left htext
  · intro h p before after hat
    rw [(typeAll_at typed hat).1, h]

/-- A call with a list in it, a bracket that does not fit, and a string. -/
example : (pending (["f", "(", "[", "1", "]", ")"].map lit) [],
    pending (["(", "]", ")"].map lit) [],
    pending (["\"", "a", "\""].map lit) [],
    ((showing [] 0).typeAll (["\"", "a", "\""].map fun t => (lit t, none))).editorText)
      = (some [], some [], some [lit "\"", lit "\""], lit "\"a\"\"\"") := by decide

end CodeEditorPane

end ResearchSSH.App
