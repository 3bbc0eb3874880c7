/-
  ResearchSSH.App.TerminalPane — the line in which commands are written.

  The pane keeps the last commands, each once where it was sent several times in a row, and an
  index into them.  While completions are shown, every change of the text or of the cursor computes
  them again; so the part of the line that one of them would replace is always the word before the
  cursor.

  Main results:
    * `acceptCompletion_line` — what a completion does to the line.
    * `Sound.handle`          — one event.
    * `pane_run`              — whole runs.
-/

import ResearchSSH.App.QString
import ResearchSSH.Library.Recent

namespace ResearchSSH.App

open ResearchSSH.Library

/-! ## §1. The pane. -/

/-- An entry of `commandCompletions`, by the fields that the functions read. -/
structure CommandCompletion where
  label : QString
  insert : QString
  deriving DecidableEq, Repr

/-- The properties of the pane and what it has sent. -/
structure TerminalPane where
  connected : Bool
  /-- The text of `input` and its cursor. -/
  text : QString
  cursorPosition : Nat
  completionSuggestions : List CommandCompletion
  completionPrefix : QString
  /-- `terminalCompletion.opened`, and the row of its list that is current. -/
  opened : Bool
  currentIndex : Nat
  commandHistory : List QString
  historyIndex : Int
  /-- The calls of `controller.sendCommand`. -/
  sent : List QString
  deriving DecidableEq, Repr

namespace TerminalPane

/-- The pane as it is made. -/
def initial : TerminalPane :=
  { connected := false, text := [], cursorPosition := 0, completionSuggestions := []
    completionPrefix := [], opened := false, currentIndex := 0, commandHistory := []
    historyIndex := -1, sent := [] }

/-- `commandCompletions`. -/
def commandCompletions : List CommandCompletion :=
  [⟨lit "nvidia-smi", lit "nvidia-smi"⟩, ⟨lit "watch nvidia-smi", lit "watch -n 1 nvidia-smi"⟩,
    ⟨lit "squeue", lit "squeue -u $USER"⟩, ⟨lit "df", lit "df -h"⟩, ⟨lit "ls", lit "ls -lah"⟩,
    ⟨lit "cd", lit "cd "⟩, ⟨lit "python", lit "python "⟩,
    ⟨lit "CUDA_VISIBLE_DEVICES", lit "CUDA_VISIBLE_DEVICES=0 python "⟩,
    ⟨lit "pip install", lit "pip install "⟩, ⟨lit "conda activate", lit "conda activate "⟩,
    ⟨lit "tail", lit "tail -f "⟩, ⟨lit "grep", lit "grep -R \"\" ."⟩,
    ⟨lit "tar", lit "tar -czf archive.tar.gz "⟩]

/-! ## §2. The functions. -/

/-- The characters of `[A-Za-z0-9_.-]`. -/
def isTokenChar (u : QChar) : Bool :=
  (0x41 ≤ u && u ≤ 0x5a) || (0x61 ≤ u && u ≤ 0x7a) || (0x30 ≤ u && u ≤ 0x39) || u == 0x5f
    || u == 0x2e || u == 0x2d

variable (p : TerminalPane)

/-- `tokenPrefix`: the word that ends at the cursor. -/
def tokenPrefix : QString := (p.text.take p.cursorPosition).rtakeWhile isTokenChar

/-- The list of completions goes. -/
def close : TerminalPane := { p with opened := false }

/-- `updateCompletion`: the commands that begin like the word, or all if they were asked for. -/
def updateCompletion (force : Bool) : TerminalPane :=
  if !p.connected then p.close
  else
    let typed := p.tokenPrefix
    let p : TerminalPane := { p with completionPrefix := typed }
    if !force && typed.length < 1 then p.close
    else
      let lower := toLower typed
      let out := commandCompletions.filter fun item =>
        force || lower.isPrefixOf (toLower item.label) || lower.isPrefixOf (toLower item.insert)
      let p : TerminalPane := { p with completionSuggestions := out.take 8 }
      if p.completionSuggestions.length > 0 then { p with currentIndex := 0, opened := true }
      else p.close

/-- The handlers of a changed cursor, and of a changed text that is not the user's. -/
def refresh : TerminalPane := if p.opened then p.updateCompletion false else p

/-- The line is changed, and the handler of its cursor runs. -/
def edit (text : QString) (cursor : Nat) : TerminalPane :=
  { p with text := text, cursorPosition := cursor }.refresh

/-- `acceptCompletion`: the word goes, and the completion comes in its place. -/
def acceptCompletion (index : Nat) : TerminalPane :=
  match p.completionSuggestions[index]? with
  | none => p
  | some item =>
    let start := p.cursorPosition - p.completionPrefix.length
    let p := p.edit (p.text.take start ++ p.text.drop p.cursorPosition) start
    let p := p.edit (p.text.take start ++ item.insert ++ p.text.drop start)
      (start + item.insert.length)
    p.close

/-- The items of `rememberCommand`, with one more command. -/
def withCommand (items : List QString) (command : QString) : List QString :=
  let items := if items.getLast? ≠ some command then items ++ [command] else items
  if items.length > 50 then items.tail else items

/-- `rememberCommand`: a blank one is not kept. -/
def rememberCommand (command : QString) : TerminalPane :=
  if (jsTrim command).length = 0 then p
  else
    let items := withCommand p.commandHistory command
    { p with commandHistory := items, historyIndex := items.length }

/-- `submitInput`: the line is sent, kept and cleared. -/
def submitInput : TerminalPane :=
  let command := p.text
  if !p.connected ∨ (jsTrim command).length = 0 then p
  else
    let p := p.close.rememberCommand command
    { p with sent := p.sent ++ [command], text := [], cursorPosition := 0
             completionSuggestions := [], completionPrefix := [] }

/-- `recallHistory`: one step through the commands; behind the last one the line is empty. -/
def recallHistory (delta : Int) : TerminalPane :=
  if p.commandHistory.length = 0 then p
  else
    let next := (if p.historyIndex < 0 then (p.commandHistory.length : Int) else p.historyIndex)
      + delta
    let next := if next < 0 then 0 else next
    let next := if next > p.commandHistory.length then (p.commandHistory.length : Int) else next
    let text :=
      if next = p.commandHistory.length then []
      else (p.commandHistory[next.toNat]?).getD []
    { p with historyIndex := next, text := text, cursorPosition := text.length, opened := false }

/-- What happens at the pane. -/
inductive Event
  /-- The user edits the text. -/
  | edited (text : QString) (cursor : Nat)
  | moved (cursor : Nat)
  | ctrlSpace
  | tab
  | up
  | down
  /-- Escape, or a click elsewhere. -/
  | dismissed
  /-- Enter, or the button. -/
  | accepted
  | itemEntered (index : Nat)
  | itemClicked (index : Nat)
  | connection (connected : Bool)
  deriving DecidableEq, Repr

/-- What the pane does at an event. -/
def handle : Event → TerminalPane
  | .edited text cursor =>
    { p with text := text, cursorPosition := min cursor text.length
             historyIndex := p.commandHistory.length }.refresh
  | .moved cursor => { p with cursorPosition := min cursor p.text.length }.refresh
  | .ctrlSpace => p.updateCompletion true
  | .tab => if p.opened then p.acceptCompletion p.currentIndex else p.updateCompletion true
  | .up =>
    if p.opened then { p with currentIndex := p.currentIndex - 1 } else p.recallHistory (-1)
  | .down =>
    if p.opened then
      { p with currentIndex := min (p.completionSuggestions.length - 1) (p.currentIndex + 1) }
    else p.recallHistory 1
  | .dismissed => p.close
  | .accepted => p.submitInput
  -- The list is on the screen only while completions are shown.
  | .itemEntered index =>
    if p.opened ∧ index < p.completionSuggestions.length then { p with currentIndex := index } else p
  | .itemClicked index => if p.opened then p.acceptCompletion index else p
  | .connection connected => { p with connected := connected }

/-- A pane from its making on. -/
def run (events : List Event) : TerminalPane := events.foldl handle initial

/-! ## §3. What the functions leave alone. -/

/-- The pane without its completions. -/
structure Line where
  connected : Bool
  text : QString
  cursorPosition : Nat
  commandHistory : List QString
  historyIndex : Int
  sent : List QString
  deriving DecidableEq, Repr

/-- What is left of the pane without its completions. -/
def line : Line :=
  { connected := p.connected, text := p.text, cursorPosition := p.cursorPosition
    commandHistory := p.commandHistory, historyIndex := p.historyIndex, sent := p.sent }

@[simp] theorem line_close : p.close.line = p.line := rfl

@[simp] theorem line_updateCompletion (force : Bool) : (p.updateCompletion force).line = p.line := by
  unfold updateCompletion
  dsimp only
  split
  · rfl
  · split
    · rfl
    · split <;> rfl

@[simp] theorem line_refresh : p.refresh.line = p.line := by
  unfold refresh
  split
  · exact p.line_updateCompletion false
  · rfl

@[simp] theorem line_edit (text : QString) (cursor : Nat) :
    (p.edit text cursor).line = { p.line with text := text, cursorPosition := cursor } :=
  line_refresh _

/-! ## §4. While completions are shown. -/

/-- There is a current row in the list, and the word that a completion replaces is the one before
the cursor. -/
structure Shown : Prop where
  current : p.currentIndex < p.completionSuggestions.length
  word : p.completionPrefix = p.tokenPrefix

/-- What holds of the pane between two events. -/
structure Coherent : Prop where
  cursor : p.cursorPosition ≤ p.text.length
  shown : p.opened = true → p.Shown

variable {p}

/-- A closed list of completions says nothing. -/
theorem Coherent.of_closed (hcursor : p.cursorPosition ≤ p.text.length) (h : p.opened = false) :
    p.Coherent :=
  ⟨hcursor, fun hopened => absurd (h.symm.trans hopened) Bool.false_ne_true⟩

/-- The list is closed. -/
theorem coherent_close (h : p.cursorPosition ≤ p.text.length) : p.close.Coherent :=
  .of_closed h rfl

/-- Completions that are computed fit the line, whatever was shown before. -/
theorem coherent_updateCompletion (h : p.cursorPosition ≤ p.text.length) (force : Bool) :
    (p.updateCompletion force).Coherent := by
  unfold updateCompletion
  dsimp only
  split
  · exact coherent_close h
  · split
    · exact .of_closed h rfl
    · split
      · next hsome => exact ⟨h, fun _ => ⟨hsome, rfl⟩⟩
      · exact .of_closed h rfl

/-- The list is made anew. -/
theorem coherent_refresh (h : p.cursorPosition ≤ p.text.length) : p.refresh.Coherent := by
  unfold refresh
  split
  · exact coherent_updateCompletion h false
  · next hclosed => exact .of_closed h (by simpa using hclosed)

/-- The line before the cursor, up to its last word. -/
def beforeWord (p : TerminalPane) : QString := (p.text.take p.cursorPosition).rdropWhile isTokenChar

/-- A completion begins where the word does. -/
theorem take_start (h : p.cursorPosition ≤ p.text.length) :
    p.text.take (p.cursorPosition - p.tokenPrefix.length) = p.beforeWord
      ∧ p.cursorPosition - p.tokenPrefix.length = p.beforeWord.length := by
  have hparts : p.beforeWord ++ p.tokenPrefix = p.text.take p.cursorPosition :=
    List.rdropWhile_append_rtakeWhile
  have hlength := congrArg List.length hparts
  rw [List.length_append, List.length_take_of_le h] at hlength
  have hstart : p.cursorPosition - p.tokenPrefix.length = p.beforeWord.length := by omega
  refine ⟨?_, hstart⟩
  rw [hstart, show p.beforeWord.length = min p.beforeWord.length p.cursorPosition by omega,
    ← List.take_take, ← hparts, List.take_left]

/-- **A completion replaces the word before the cursor**, and nothing else of the line. -/
theorem acceptCompletion_line (h : p.Coherent) (hopened : p.opened = true) {index : Nat}
    {item : CommandCompletion} (hitem : p.completionSuggestions[index]? = some item) :
    (p.acceptCompletion index).opened = false
      ∧ (p.acceptCompletion index).line =
        { p.line with text := p.beforeWord ++ item.insert ++ p.text.drop p.cursorPosition
                      cursorPosition := p.beforeWord.length + item.insert.length } := by
  obtain ⟨htake, hstart⟩ := take_start h.cursor
  unfold acceptCompletion
  rw [hitem]
  dsimp only
  rw [(h.shown hopened).word, htake, hstart]
  generalize hremoved : p.edit (p.beforeWord ++ p.text.drop p.cursorPosition) p.beforeWord.length = q
  have hline : q.line = { p.line with text := p.beforeWord ++ p.text.drop p.cursorPosition
                                      cursorPosition := p.beforeWord.length } := by
    rw [← hremoved, line_edit]
  have htext : q.text = p.beforeWord ++ p.text.drop p.cursorPosition := congrArg Line.text hline
  refine ⟨rfl, ?_⟩
  rw [line_close, line_edit, htext, List.take_left, List.drop_left, hline]

/-! ## §5. One event. -/

/-- What is kept of the commands, and where one is among them. -/
structure Remembers (p : TerminalPane) : Prop where
  history : p.commandHistory = (p.sent.destutter (· ≠ ·)).rtake 50
  written : ∀ command ∈ p.sent, jsTrim command ≠ []
  low : -1 ≤ p.historyIndex
  high : p.historyIndex ≤ p.commandHistory.length

/-- The completions have no part in it. -/
theorem Remembers.of_line {q : TerminalPane} (h : p.Remembers) (hline : q.line = p.line) :
    q.Remembers := by
  have hhistory : q.commandHistory = p.commandHistory := congrArg Line.commandHistory hline
  have hindex : q.historyIndex = p.historyIndex := congrArg Line.historyIndex hline
  have hsent : q.sent = p.sent := congrArg Line.sent hline
  constructor
  · rw [hhistory, hsent]
    exact h.history
  · rw [hsent]
    exact h.written
  · rw [hindex]
    exact h.low
  · rw [hindex, hhistory]
    exact h.high

/-- The history keeps the last fifty, none twice in a row. -/
theorem withCommand_recent (log : List QString) (command : QString) :
    withCommand ((log.destutter (· ≠ ·)).rtake 50) command
      = ((log ++ [command]).destutter (· ≠ ·)).rtake 50 := by
  unfold withCommand
  dsimp only
  rw [destutter_concat, getLast?_rtake]
  split
  · exact rtake_concat _ _ 50
  · rw [if_neg]
    rw [length_rtake]
    omega

/-- A command that is sent is remembered. -/
theorem remembers_submitInput (h : p.Remembers) : p.submitInput.Remembers := by
  unfold submitInput
  dsimp only
  split
  · exact h
  · next hwritten =>
    have hblank : ¬ (jsTrim p.text).length = 0 := (not_or.mp hwritten).2
    have hnonempty : jsTrim p.text ≠ [] := fun hempty => hblank (by rw [hempty]; rfl)
    unfold rememberCommand
    rw [if_neg hblank]
    refine ⟨?_, ?_, ?_, Int.le_refl _⟩
    · show withCommand p.commandHistory p.text = _
      rw [h.history]
      exact withCommand_recent p.sent p.text
    · exact List.forall_mem_append.mpr ⟨h.written, List.forall_mem_singleton.mpr hnonempty⟩
    · dsimp only
      omega

/-- A command that is recalled is one of those that are kept. -/
theorem recallHistory_shows (h : p.Remembers) (delta : Int) (hsome : p.commandHistory ≠ []) :
    (p.recallHistory delta).Remembers
      ∧ (((p.recallHistory delta).text = []
            ∧ (p.recallHistory delta).historyIndex = p.commandHistory.length)
          ∨ p.commandHistory[(p.recallHistory delta).historyIndex.toNat]?
              = some (p.recallHistory delta).text) := by
  have hlength : ¬ p.commandHistory.length = 0 := fun h => hsome (List.length_eq_zero_iff.mp h)
  unfold recallHistory
  rw [if_neg hlength]
  generalize hnext : (if p.historyIndex < 0 then (p.commandHistory.length : Int)
    else p.historyIndex) + delta = next
  dsimp only
  generalize hbounded : (if (if next < 0 then 0 else next) > (p.commandHistory.length : Int)
    then (p.commandHistory.length : Int) else if next < 0 then 0 else next) = bounded
  have hlow : 0 ≤ bounded := by
    rw [← hbounded]
    split
    · omega
    · split <;> omega
  have hhigh : bounded ≤ p.commandHistory.length := by
    rw [← hbounded]
    split <;> omega
  refine ⟨⟨h.history, h.written, by dsimp only; omega, hhigh⟩, ?_⟩
  by_cases hend : bounded = p.commandHistory.length
  · left
    rw [if_pos hend]
    exact ⟨rfl, hend⟩
  · right
    rw [if_neg hend]
    have hindex : bounded.toNat < p.commandHistory.length := by omega
    rw [List.getElem?_eq_getElem hindex]
    rfl

/-- Between two events the completions fit the line, and the history what was sent. -/
structure Sound (p : TerminalPane) : Prop where
  coherent : p.Coherent
  remembers : p.Remembers

theorem sound_initial : initial.Sound where
  coherent := .of_closed le_rfl rfl
  remembers := ⟨rfl, List.forall_mem_nil _, by decide, by decide⟩

/-- Completions that are asked for change nothing of the line. -/
theorem Sound.updateCompletion (h : p.Sound) (force : Bool) : (p.updateCompletion force).Sound where
  coherent := coherent_updateCompletion h.coherent.cursor force
  remembers := h.remembers.of_line (p.line_updateCompletion force)

/-- A text or a cursor that changes: completions that are shown are computed again. -/
theorem Sound.refresh (hremembers : p.Remembers) (hcursor : p.cursorPosition ≤ p.text.length) :
    p.refresh.Sound where
  coherent := coherent_refresh hcursor
  remembers := hremembers.of_line p.line_refresh

/-- Another row of the list is current. -/
theorem Sound.select (h : p.Sound) (hopened : p.opened = true) {index : Nat}
    (hindex : index < p.completionSuggestions.length) :
    Sound { p with currentIndex := index } where
  coherent := ⟨h.coherent.cursor, fun _ => ⟨hindex, (h.coherent.shown hopened).word⟩⟩
  remembers := h.remembers.of_line rfl

/-- A completion that is accepted closes the list, with the cursor behind it. -/
theorem Sound.acceptCompletion (h : p.Sound) (hopened : p.opened = true) (index : Nat) :
    (p.acceptCompletion index).Sound := by
  cases hitem : p.completionSuggestions[index]? with
  | none =>
    have hsame : p.acceptCompletion index = p := by
      unfold TerminalPane.acceptCompletion
      rw [hitem]
    rw [hsame]
    exact h
  | some item =>
    obtain ⟨hclosed, hline⟩ := acceptCompletion_line h.coherent hopened hitem
    constructor
    · refine .of_closed ?_ hclosed
      show (p.acceptCompletion index).line.cursorPosition
        ≤ (p.acceptCompletion index).line.text.length
      rw [hline]
      simp only [List.length_append]
      omega
    · -- text and cursor are none of what is remembered
      have hother : ({ p with text := p.beforeWord ++ item.insert ++ p.text.drop p.cursorPosition
                              cursorPosition := p.beforeWord.length + item.insert.length }
          : TerminalPane).Remembers :=
        ⟨h.remembers.history, h.remembers.written, h.remembers.low, h.remembers.high⟩
      exact hother.of_line hline

/-- Going through the history closes the list. -/
theorem Sound.recallHistory (h : p.Sound) (delta : Int) : (p.recallHistory delta).Sound := by
  have hempty : p.commandHistory.length = 0 ↔ p.commandHistory = [] := List.length_eq_zero_iff
  by_cases hnone : p.commandHistory = []
  · have hsame : p.recallHistory delta = p := if_pos (hempty.mpr hnone)
    rw [hsame]
    exact h
  · refine ⟨?_, (recallHistory_shows h.remembers delta hnone).1⟩
    unfold TerminalPane.recallHistory
    rw [if_neg (mt hempty.mp hnone)]
    exact .of_closed le_rfl rfl

/-- Sending the line closes the list and leaves the line empty. -/
theorem Sound.submitInput (h : p.Sound) : p.submitInput.Sound where
  remembers := remembers_submitInput h.remembers
  coherent := by
    unfold TerminalPane.submitInput
    dsimp only
    split
    · exact h.coherent
    · refine .of_closed (Nat.zero_le _) ?_
      show (p.close.rememberCommand p.text).opened = false
      unfold rememberCommand
      split <;> rfl

/-- Tab, the arrows and a click do one thing while completions are shown and another while not. -/
theorem Sound.ite {c : Prop} [Decidable c] {q r : TerminalPane} (hq : c → q.Sound)
    (hr : ¬ c → r.Sound) : (if c then q else r).Sound := by
  split
  · next h => exact hq h
  · next h => exact hr h

/-- **One event.** -/
theorem Sound.handle (h : p.Sound) (event : Event) : (p.handle event).Sound := by
  have hremembers := h.remembers
  cases event with
  | edited text cursor =>
    refine .refresh ?_ (Nat.min_le_right _ _)
    exact ⟨hremembers.history, hremembers.written, by dsimp only; omega, Int.le_refl _⟩
  | moved cursor =>
    refine .refresh ?_ (Nat.min_le_right _ _)
    exact ⟨hremembers.history, hremembers.written, hremembers.low, hremembers.high⟩
  | ctrlSpace => exact h.updateCompletion true
  | tab =>
    refine .ite (fun hopened => ?_) fun _ => ?_
    · exact h.acceptCompletion hopened p.currentIndex
    · exact h.updateCompletion true
  | up =>
    refine .ite (fun hopened => ?_) fun _ => ?_
    · have hcurrent := (h.coherent.shown hopened).current
      exact h.select hopened (Nat.lt_of_le_of_lt (Nat.sub_le _ _) hcurrent)
    · exact h.recallHistory (-1)
  | down =>
    refine .ite (fun hopened => ?_) fun _ => ?_
    · have hcurrent := (h.coherent.shown hopened).current
      exact h.select hopened (by omega)
    · exact h.recallHistory 1
  | dismissed => exact ⟨coherent_close h.coherent.cursor, hremembers.of_line rfl⟩
  | accepted => exact h.submitInput
  | itemEntered index =>
    refine .ite (fun hentered => ?_) fun _ => h
    exact h.select hentered.1 hentered.2
  | itemClicked index =>
    refine .ite (fun hopened => ?_) fun _ => h
    exact h.acceptCompletion hopened index
  | connection connected =>
    constructor
    · exact ⟨h.coherent.cursor, fun hopened =>
        ⟨(h.coherent.shown hopened).current, (h.coherent.shown hopened).word⟩⟩
    · exact ⟨hremembers.history, hremembers.written, hremembers.low, hremembers.high⟩

/-! ## §6. Runs. -/

/-- **Whatever happens at the pane.**  The history holds the last fifty of the commands that were
sent, each once where it was sent several times in a row, and none of them is blank.  Going through it
shows its entries, or an empty line behind the last one.  And while completions are shown there is
always a current one, which replaces the word before the cursor and nothing else, and sends nothing. -/
theorem pane_run (events : List Event) :
    (run events).commandHistory = ((run events).sent.destutter (· ≠ ·)).rtake 50
      ∧ (∀ command ∈ (run events).sent, jsTrim command ≠ [])
      ∧ (∀ delta, (run events).commandHistory ≠ [] →
          let q := (run events).recallHistory delta
          (q.text = [] ∧ q.historyIndex = (run events).commandHistory.length)
            ∨ (run events).commandHistory[q.historyIndex.toNat]? = some q.text)
      ∧ ((run events).opened = true →
          ∃ item, (run events).completionSuggestions[(run events).currentIndex]? = some item
            ∧ ((run events).handle .tab).line =
              { (run events).line with
                text := (run events).beforeWord ++ item.insert
                  ++ (run events).text.drop (run events).cursorPosition
                cursorPosition := (run events).beforeWord.length + item.insert.length }) := by
  have hkept : (run events).Sound := by
    unfold run
    have hinitial := sound_initial
    generalize initial = p at hinitial
    induction events generalizing p with
    | nil => exact hinitial
    | cons event events ih => exact ih _ (hinitial.handle event)
  obtain ⟨hcoherent, hremembers⟩ := hkept
  generalize run events = p at hcoherent hremembers ⊢
  refine ⟨hremembers.history, hremembers.written,
    fun delta hsome => (recallHistory_shows hremembers delta hsome).2, fun hopened => ?_⟩
  have hcurrent := (hcoherent.shown hopened).current
  refine ⟨p.completionSuggestions[p.currentIndex], List.getElem?_eq_getElem hcurrent, ?_⟩
  show (if p.opened then _ else _ : TerminalPane).line = _
  rw [if_pos hopened]
  exact (acceptCompletion_line hcoherent hopened (List.getElem?_eq_getElem hcurrent)).2

/-- A command is sent twice and recalled, and a word of it is completed. -/
example : (run [.connection true, .edited (lit "ls") 2, .accepted, .edited (lit "ls") 2, .accepted, .up,
      .edited (lit "x nvi") 5, .tab, .tab]).text = lit "x nvidia-smi"
    ∧ (run [.connection true, .edited (lit "ls") 2, .accepted, .edited (lit "ls") 2, .accepted,
      .up]).commandHistory = [lit "ls"] := by decide

end TerminalPane

end ResearchSSH.App
