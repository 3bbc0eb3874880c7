/-
  ResearchSSH.App.Workspace — the controller and the editor pane together.

  The pane calls the controller's slots, and the controller's editor emits signals that the pane
  handles before the slot goes on.  A step here is a user action at the controller, something the
  user does in the pane, a callback of the core, or the delivery of one result or event; what the
  step has the editor emit is heard by the pane within it.

  What waits in the queue are single results and events: a callback puts all of its batch there,
  and user actions may come between the items of one batch.

  `origins` is not part of the program: it says of a tab which session its text was loaded from.

  Main definitions and results:
    * `Workspace.step` — one step of both.
    * `Outcome` and `step_outcome` — what a step does to the documents and to the desk.
-/

import ResearchSSH.App.ControllerDesk
import ResearchSSH.App.PaneMarks

namespace ResearchSSH.App

open ResearchSSH.Core ResearchSSH.Library

/-! ## §1. Items of a batch. -/

/-- A part of a batch that is ingested on its own. -/
inductive Item
  | event (ev : RustEvent)
  | file (result : FsResult)
  | exec (result : ExecResult)
  deriving DecidableEq, Repr

/-- The parts of a batch. -/
def Batch.items : Batch → List Item
  | .events batch => batch.map .event
  | .files batch => batch.map .file
  | .execs batch => batch.map .exec

/-- One turn of the loop over a batch. -/
def AppController.take (c : AppController) : Item → AppController
  | .event ev => c.ingestRustEvent ev
  | .file result => c.ingestFileResult result
  | .exec result => c.ingestExecResult result

/-- A batch is taken item by item. -/
theorem AppController.ingest_eq_foldl (c : AppController) (batch : Batch) :
    c.ingest batch = batch.items.foldl take c := by
  cases batch with
  | events batch =>
    show batch.foldl _ c = (batch.map _).foldl _ c
    rw [List.foldl_map]
    rfl
  | files batch =>
    show batch.foldl _ c = (batch.map _).foldl _ c
    rw [List.foldl_map]
    rfl
  | execs batch =>
    show batch.foldl _ c = (batch.map _).foldl _ c
    rw [List.foldl_map]
    rfl

/-- An item in the queue, with the session whose callback put it there. -/
structure PostedItem where
  session : Nat
  item : Item
  deriving DecidableEq, Repr

/-- What the controller does when the pane calls it. -/
def EditorCall.perform (c : AppController) : EditorCall → AppController
  | .activateEditorPath path => c.activateEditorPath path
  | .openPath path => c.openPath path
  | .saveEditorPath path text => c.saveEditorPath path text
  | .closeEditor => c.closeEditor

/-! ## §2. The workspace. -/

/-- The controller, the editor pane, what is posted but not delivered, and where it came from. -/
structure Workspace where
  controller : AppController
  pane : CodeEditorPane
  queue : List PostedItem
  /-- The handle the next session will have. -/
  nextHandle : Nat
  origins : Nat → Option Nat

namespace Workspace

open CodeEditorPane AppController

/-- The window has just been opened. -/
def initial (servers : List ServerItem) (credentials : QString → Option (List UInt8)) :
    Workspace :=
  { controller := AppController.initial servers credentials, pane := CodeEditorPane.initial
    queue := [], nextHandle := 0, origins := fun _ => none }

/-- What can happen next. -/
inductive Label
  | user (action : UiAction)
  | pane (l : CodeEditorPane.Label)
  /-- The live session calls back. -/
  | calls (batch : Batch)
  /-- The driver of the live session returns. -/
  | driverStops
  | deliver
  deriving DecidableEq, Repr

variable (s : Workspace)

/-- The origins after the pane has heard a signal that `sender` caused. -/
def originsAfter (p : CodeEditorPane) (origins : Nat → Option Nat) (sender : Option Nat) :
    EditorSignal → Nat → Option Nat
  | .contentLoaded path _ =>
    if p.isIgnoredOpenPath path then origins
    else Function.update origins (p.loadedTab path) sender
  | _ => origins

/-- The pane hears a signal, and the controller performs what the handler calls. -/
def hear (sender : Option Nat) (signal : EditorSignal) : Workspace :=
  let q := (s.pane.answered signal).onSignal signal
  { s with
    controller := (q.calls.drop s.pane.calls.length).foldl EditorCall.perform s.controller
    pane := q
    origins := originsAfter s.pane s.origins sender signal }

/-- The controller has become `c`, and the pane hears what the editor has emitted by then.  That
the slot has ended first makes no difference: slots and handlers meet in the editor's own fields,
and no document and no request depends on those.  The signals that the handlers themselves cause
are `changed`, which they have no use for. -/
def update (sender : Option Nat) (c : AppController) : Workspace :=
  (c.editor.emitted.drop s.controller.editor.emitted.length).foldl (fun s => s.hear sender)
    { s with controller := c }

/-- The pane has become `q`, and the controller performs what it has called by then. -/
def act (q : CodeEditorPane) : Workspace :=
  update { s with pane := q } none
    ((q.calls.drop s.pane.calls.length).foldl EditorCall.perform s.controller)

/-- The flags in a step of the pane are those of the controller. -/
def Offers : CodeEditorPane.Label → Prop
  | .signal _ => False
  | .requestOpen fileAvailable _ _ => fileAvailable = s.controller.fileAvailable
  | .save connected fileAvailable =>
    connected = decide (s.controller.connectionState = .connected)
      ∧ fileAvailable = s.controller.fileAvailable
  | _ => True

instance : ∀ l, Decidable (s.Offers l)
  | .signal _ => inferInstanceAs (Decidable False)
  | .requestOpen _ _ _ => inferInstanceAs (Decidable (_ = _))
  | .save _ _ => inferInstanceAs (Decidable (_ = _ ∧ _ = _))
  | .setActive _ | .requestClose _ | .acceptClose | .rejectClose | .edit _ _ | .moveCursor _ =>
    inferInstanceAs (Decidable True)

/-- One thing happens; `none` if it cannot. -/
def step : Label → Option Workspace
  | .user action =>
    if action.ofPane then none
    else some (update { s with nextHandle := s.nextHandle + 1 } none
      (action.run s.nextHandle s.controller))
  | .pane l => if s.Offers l then (s.pane.step l).map s.act else none
  | .calls batch =>
    -- A destroyed session does not call back.
    match s.controller.live with
    | none => none
    | some handle =>
      some { s with
             queue := s.queue ++ batch.items.map fun item => { session := handle, item := item } }
  | .driverStops =>
    some { s with controller := { s.controller with
                    session := s.controller.session.map fun x => { x with stopped := true } } }
  | .deliver =>
    match s.queue with
    | [] => none
    | posted :: rest =>
      some (update { s with queue := rest } (some posted.session)
        (s.controller.take posted.item))

/-- The workspace with two saved servers. -/
def twoServers : Workspace :=
  initial
    [newServer [] (lit "a") 22 (lit "u") .mock [], newServer [] (lit "b") 22 (lit "u") .mock []]
    fun _ => none

/-- A connection to a server up to the listing of its home directory, which has one file. -/
def connected (index : Int) : List Label :=
  [.user (.connectToServer index none), .calls (.events [.stateChanged .connected]), .deliver,
    .calls (.files [{
      requestId := 1
      payload := .listing [{ name := lit "f", path := lit "/h/f", kind := .file, size := 1
                             modified := -1, editable := true }] }]), .deliver]

/-- The oldest batch is ingested, and the pane hears of it. -/
theorem of_step_deliver {s t : Workspace} (h : s.step .deliver = some t) :
    ∃ posted rest, s.queue = posted :: rest
      ∧ t = update { s with queue := rest } (some posted.session)
        (s.controller.take posted.item) := by
  cases hqueue : s.queue with
  | nil =>
    rw [step, hqueue] at h
    cases h
  | cons posted rest =>
    rw [step, hqueue] at h
    exact ⟨posted, rest, rfl, (Option.some.inj h).symm⟩

/-! ## §3. Hearing. -/

section
variable {s} {p q r : CodeEditorPane} {c d : AppController}

/-- No handler of the pane asks for a file. -/
theorem asksNothing_onSignal (p : CodeEditorPane) (signal : EditorSignal) :
    AsksNothing p (p.onSignal signal) := by
  have hsaved : ∀ path modified, AsksNothing p (p.finishSave path modified) := by
    intro path modified
    obtain ⟨_, hquiet⟩ | ⟨_, _, _, _, _, _, _, hquiet⟩ := p.finishSave_cases path modified
    · exact hquiet.calls
    · exact hquiet.calls
  cases signal with
  | changed isOpen busy => exact (quiet_onChanged p isOpen busy).calls
  | contentLoaded path text =>
    obtain ⟨_, hquiet⟩ | ⟨_, _, _, _, _, _, hquiet⟩ | ⟨_, _, hquiet⟩ := p.upsert_cases path text
    · exact hquiet.calls
    · exact hquiet.calls
    · exact hquiet.calls
  | pathClosed path => exact (p.quiet_handlePathRemoved path false).calls
  | pathRemoved path recursive => exact (p.quiet_handlePathRemoved path recursive).calls
  | pathMoved fromPath toPath => exact (p.quiet_handlePathMoved fromPath toPath).calls
  | openFailed path message =>
    obtain ⟨_, hquiet⟩ | ⟨_, _, _, _, _, _, hquiet⟩ | ⟨_, _, hquiet⟩ := p.openFailed_cases path
    · exact hquiet.calls
    · exact hquiet.calls
    · exact hquiet.calls
  | saveSucceeded path => exact hsaved path false
  | saveFailed path message => exact hsaved path true

/-- Calls that ask for no file change no more than the editor, and are no news. -/
theorem perform_of_no_request {calls : List EditorCall} :
    ∀ c : AppController, (∀ call ∈ calls, call.isFileRequest = false) →
      ∃ e, calls.foldl EditorCall.perform c = { c with editor := e }
        ∧ EditorViewModel.Tells [] c.editor e := by
  induction calls with
  | nil => intro c _; exact ⟨c.editor, rfl, c.editor.tells_refl⟩
  | cons call calls ih =>
    intro c h
    rw [List.forall_mem_cons] at h
    have hfirst : ∃ e, call.perform c = { c with editor := e }
        ∧ EditorViewModel.Tells [] c.editor e := by
      cases call with
      | activateEditorPath path => exact c.activateEditorPath_outcome path
      | closeEditor => exact c.closeEditor_outcome
      | openPath path => exact absurd h.1 (Bool.noConfusion)
      | saveEditorPath path text => exact absurd h.1 (Bool.noConfusion)
    obtain ⟨e, heq, htells⟩ := hfirst
    obtain ⟨e', heq', htells'⟩ := ih { c with editor := e } h.2
    refine ⟨e', ?_, htells.trans htells'⟩
    rw [List.foldl_cons, heq, heq']

/-- What asks for nothing changes the editor alone. -/
theorem perform_of_asksNothing (h : AsksNothing p q) (c : AppController) :
    ∃ e, (q.calls.drop p.calls.length).foldl EditorCall.perform c = { c with editor := e }
      ∧ EditorViewModel.Tells [] c.editor e := by
  obtain ⟨more, hcalls, hnone⟩ := h
  rw [hcalls, List.drop_left]
  exact perform_of_no_request c hnone

/-- What hearing a signal comes to. -/
theorem hear_eq (s : Workspace) (sender : Option Nat) (signal : EditorSignal) :
    ∃ e, s.hear sender signal =
      { s with controller := { s.controller with editor := e }
               pane := (s.pane.answered signal).onSignal signal
               origins := originsAfter s.pane s.origins sender signal } := by
  have hcalls : AsksNothing s.pane ((s.pane.answered signal).onSignal signal) :=
    asksNothing_onSignal (s.pane.answered signal) signal
  obtain ⟨e, heq, _⟩ := perform_of_asksNothing hcalls s.controller
  refine ⟨e, ?_⟩
  unfold hear
  dsimp only
  rw [heq]

/-- A read that is answered leaves the tabs. -/
theorem quiet_answered (p : CodeEditorPane) (signal : EditorSignal) : Quiet p (p.answered signal) :=
  quiet_of_same rfl rfl rfl rfl

/-- The pane hears a signal. -/
theorem coherent_hear {signal : EditorSignal} (h : Coherent p) :
    Coherent ((p.answered signal).onSignal signal) :=
  coherent_step (l := .signal signal) h rfl

/-- From `s` to `t` no more has changed than what is quiet in the pane, and the editor. -/
def Hushed (s t : Workspace) : Prop :=
  ∃ e q, t = { s with controller := { s.controller with editor := e }, pane := q }
    ∧ Quiet s.pane q ∧ Coherent q

/-- From `s` to `t` the pane has heard one piece of news. -/
def Hears (sender : Option Nat) (signal : EditorSignal) (s t : Workspace) : Prop :=
  ∃ e p q, t = { s with controller := { s.controller with editor := e }, pane := q
                        origins := originsAfter p s.origins sender signal }
    ∧ Quiet s.pane p ∧ Coherent p ∧ Quiet (p.onSignal signal) q ∧ Coherent q

theorem Hushed.refl (hp : Coherent s.pane) : Hushed s s :=
  ⟨s.controller.editor, s.pane, rfl, .refl _, hp⟩

/-- The pane stays coherent. -/
theorem Hushed.coherent {t : Workspace} (h : Hushed s t) : Coherent t.pane := by
  obtain ⟨e, q, rfl, _, hq⟩ := h
  exact hq

/-- One after the other. -/
theorem Hushed.trans {t u : Workspace} (h : Hushed s t) (h' : Hushed t u) : Hushed s u := by
  obtain ⟨e, q, rfl, hquiet, _⟩ := h
  obtain ⟨e', q', rfl, hquiet', hq'⟩ := h'
  exact ⟨e', q', rfl, hquiet.trans hquiet', hq'⟩

/-- Nothing of note comes before the signal. -/
theorem Hushed.hears {t u : Workspace} {sender : Option Nat} {signal : EditorSignal}
    (h : Hushed s t) (h' : Hears sender signal t u) : Hears sender signal s u := by
  obtain ⟨e, q, rfl, hquiet, _⟩ := h
  obtain ⟨e', p', q', rfl, hquiet', hp', hheard, hq'⟩ := h'
  exact ⟨e', p', q', rfl, hquiet.trans hquiet', hp', hheard, hq'⟩

/-- Nothing of note comes after the signal. -/
theorem Hears.hushed {t u : Workspace} {sender : Option Nat} {signal : EditorSignal}
    (h : Hears sender signal s t) (h' : Hushed t u) : Hears sender signal s u := by
  obtain ⟨e, p, q, rfl, hquiet, hp, hheard, _⟩ := h
  obtain ⟨e', q', rfl, hquiet', hq'⟩ := h'
  exact ⟨e', p, q', rfl, hquiet, hp, hheard.trans hquiet', hq'⟩

/-- `changed` is nothing of note. -/
theorem hushed_hear_changed (hp : Coherent s.pane) (sender : Option Nat) (isOpen busy : Bool) :
    Hushed s (s.hear sender (.changed isOpen busy)) := by
  obtain ⟨e, heq⟩ := s.hear_eq sender (.changed isOpen busy)
  refine ⟨e, _, heq, ?_, coherent_hear hp⟩
  exact (quiet_answered _ _).trans (quiet_onChanged _ isOpen busy)

/-- The pane hears the signal. -/
theorem hears_hear (hp : Coherent s.pane) (sender : Option Nat) (signal : EditorSignal) :
    Hears sender signal s (s.hear sender signal) := by
  obtain ⟨e, heq⟩ := s.hear_eq sender signal
  have horigins : originsAfter s.pane s.origins sender signal
      = originsAfter (s.pane.answered signal) s.origins sender signal := by
    cases signal <;> rfl
  refine ⟨e, s.pane.answered signal, _, ?_, quiet_answered _ _, hp.congr rfl, .refl _,
    coherent_hear hp⟩
  rw [heq, horigins]

/-- Signals without news are heard quietly. -/
theorem hushed_foldl_hear (sender : Option Nat) {more : List EditorSignal} :
    ∀ s : Workspace, Coherent s.pane → more.filter EditorSignal.isNews = [] →
      Hushed s (more.foldl (fun s => s.hear sender) s) := by
  induction more with
  | nil => intro s hp _; exact .refl hp
  | cons signal more ih =>
    intro s hp h
    rw [List.filter_eq_nil_iff, List.forall_mem_cons] at h
    cases signal with
    | changed isOpen busy =>
      have hfirst := hushed_hear_changed hp sender isOpen busy
      exact hfirst.trans (ih _ hfirst.coherent (List.filter_eq_nil_iff.mpr h.2))
    | _ => exact absurd rfl h.1

/-- The pane stays coherent. -/
theorem Hears.coherent {t : Workspace} {sender : Option Nat} {signal : EditorSignal}
    (h : Hears sender signal s t) : Coherent t.pane := by
  obtain ⟨e, p, q, rfl, _, _, _, hq⟩ := h
  exact hq

/-- One piece of news among the signals is heard. -/
theorem hears_foldl_hear (sender : Option Nat) {signal : EditorSignal} {more : List EditorSignal} :
    ∀ s : Workspace, Coherent s.pane → more.filter EditorSignal.isNews = [signal] →
      Hears sender signal s (more.foldl (fun s => s.hear sender) s) := by
  induction more with
  | nil => intro s _ h; cases h
  | cons first more ih =>
    intro s hp h
    cases hnews : first.isNews with
    | false =>
      rw [List.filter_cons_of_neg (by rw [hnews]; exact Bool.false_ne_true)] at h
      cases first with
      | changed isOpen busy =>
        have hfirst := hushed_hear_changed hp sender isOpen busy
        exact hfirst.hears (ih _ hfirst.coherent h)
      | _ => cases hnews
    | true =>
      rw [List.filter_cons_of_pos hnews, List.cons.injEq] at h
      obtain ⟨rfl, hrest⟩ := h
      have hfirst := hears_hear hp sender first
      exact hfirst.hushed (hushed_foldl_hear sender _ hfirst.coherent hrest)

/-- The controller has changed and the editor has no news. -/
theorem hushed_update (hp : Coherent s.pane) (sender : Option Nat)
    (h : EditorViewModel.Tells [] s.controller.editor c.editor) :
    Hushed { s with controller := c } (s.update sender c) := by
  obtain ⟨more, hemitted, hnews⟩ := h
  unfold update
  rw [hemitted, List.drop_left]
  exact hushed_foldl_hear sender { s with controller := c } hp hnews

/-- A signal of the editor is heard. -/
theorem hears_update (hp : Coherent s.pane) (sender : Option Nat) {signal : EditorSignal}
    (h : EditorViewModel.Tells [signal] s.controller.editor c.editor) :
    Hears sender signal { s with controller := c } (s.update sender c) := by
  obtain ⟨more, hemitted, hnews⟩ := h
  unfold update
  rw [hemitted, List.drop_left]
  exact hears_foldl_hear sender { s with controller := c } hp hnews

/-- A step of the pane that asks for no file. -/
theorem hushed_act (hq : Coherent q) (h : AsksNothing s.pane q) :
    Hushed { s with pane := q } (s.act q) := by
  obtain ⟨e, heq, htells⟩ := perform_of_asksNothing h s.controller
  unfold act
  rw [heq]
  have hupdate : Hushed { s with pane := q, controller := { s.controller with editor := e } } _ :=
    hushed_update (s := { s with pane := q }) (c := { s.controller with editor := e }) hq none
      htells
  obtain ⟨e', q', heq', hquiet, hq'⟩ := hupdate
  exact ⟨e', q', heq', hquiet, hq'⟩

/-- A step of the pane that ends with a request for a file. -/
theorem act_call (h : AsksNothing s.pane r) (request : EditorCall) :
    ∃ e, EditorViewModel.Tells [] s.controller.editor e ∧
      s.act (r.call request) = update { s with pane := r.call request } none
        (request.perform { s.controller with editor := e }) := by
  obtain ⟨more, hcalls, hnone⟩ := h
  obtain ⟨e, heq, htells⟩ := perform_of_no_request s.controller hnone
  refine ⟨e, htells, ?_⟩
  unfold act
  have hdrop : (r.call request).calls.drop s.pane.calls.length = more ++ [request] := by
    show (r.calls ++ [request]).drop _ = _
    rw [hcalls, List.append_assoc, List.drop_left]
  rw [hdrop, List.foldl_append, heq]
  rfl

end

/-! ## §4. What a step does. -/

/-- The part of the controller that the editor shares. -/
def desk : Desk := s.controller.desk

/-- A result with the session that posted it and the request that it answers. -/
structure Reply where
  session : Nat
  result : FsResult
  pending : PendingFs

/-- What the next delivery answers. -/
def reply? : Option Reply :=
  match s.queue with
  | [] => none
  | posted :: _ =>
    match posted.item with
    | .file result =>
      (s.controller.fsPending result.requestId).map fun pending =>
        { session := posted.session, result := result, pending := pending }
    | _ => none

/-- The desk of the workspace is `d`, but for the editor. -/
def DeskIs (d : Desk) : Prop := ∃ e, s.desk = { d with editor := e }

/-- The same documents but for what is quiet, also where files were asked for. -/
structure Alike (p q : CodeEditorPane) : Prop where
  marks : q.marks = p.marks
  nextTab : q.nextTab = p.nextTab
  ignored : q.ignoredOpenPaths = p.ignoredOpenPaths

/-- What leaves the tabs leaves them alike. -/
theorem alike_of_quiet {p q : CodeEditorPane} (h : Quiet p q) : Alike p q :=
  ⟨h.marks, h.nextTab, h.ignored⟩

/-- One after the other. -/
theorem Alike.trans {p q r : CodeEditorPane} (h : Alike p q) (h' : Alike q r) : Alike p r :=
  ⟨h'.marks.trans h.marks, h'.nextTab.trans h.nextTab, h'.ignored.trans h.ignored⟩

/-- A call leaves the tabs alike. -/
theorem alike_call {p q : CodeEditorPane} (h : Alike p q) (request : EditorCall) :
    Alike p (q.call request) :=
  ⟨h.marks, h.nextTab, h.ignored⟩

/-- The pane was `p` and has heard one piece of news. -/
def HasHeard (p : CodeEditorPane) (origins : Nat → Option Nat) (sender : Option Nat)
    (signal : EditorSignal) : Prop :=
  ∃ p', Alike p p' ∧ Coherent p' ∧ Alike (p'.onSignal signal) s.pane
    ∧ s.origins = originsAfter p' origins sender signal

/-- What a move makes of the documents. -/
theorem HasHeard.marks_moved {s : Workspace} {p : CodeEditorPane} {origins : Nat → Option Nat}
    {sender : Option Nat} {fromPath toPath : QString}
    (h : s.HasHeard p origins sender (.pathMoved fromPath toPath)) :
    s.pane.marks = p.marks.map (Mark.moved fromPath toPath) := by
  obtain ⟨p', halike, _, hafter, _⟩ := h
  rw [hafter.marks, ← halike.marks]
  exact marks_handlePathMoved p' fromPath toPath

/-- The pane was `q` when it asked for a file. -/
inductive Asked (q : CodeEditorPane) (entry : PendingFs) (refusal : QString → EditorSignal)
    (t : Workspace) : Prop
  | ignored : ¬ (s.controller.ready = true ∧ entry.path ≠ []) → t.DeskIs s.desk →
      Alike q t.pane → t.origins = s.origins → Asked q entry refusal t
  | taken : s.desk.live.isSome = true → entry.path ≠ [] →
      t.DeskIs { s.desk with
        nextRequestId := s.desk.idAfter 1
        fsPending := Function.update s.desk.fsPending (s.desk.idAfter 1) (some entry) } →
      Alike q t.pane → t.origins = s.origins → Asked q entry refusal t
  | refused (k : Nat) (message : QString) : s.desk.Refuses →
      t.DeskIs { s.desk with nextRequestId := s.desk.idAfter k } →
      t.HasHeard q s.origins none (refusal message) → Asked q entry refusal t

/-- The reply was taken and the editor had this news of it. -/
structure Replied (reply : Reply) (news : List EditorSignal) (t : Workspace) : Prop where
  pending : s.desk.fsPending reply.result.requestId = some reply.pending
  answer : AppController.Answer reply.pending reply.result.payload news
  silent : news = [] → Alike s.pane t.pane ∧ t.origins = s.origins
  heard : ∀ signal, news = [signal] → t.HasHeard s.pane s.origins (some reply.session) signal
  asks : Desk.Asks 2 { s.desk with
      fsPending := Function.update s.desk.fsPending reply.result.requestId none }
    { t.desk with editor := s.desk.editor }

/-- What a step does to the documents and to the desk. -/
inductive Outcome : Label → Workspace → Prop
  | quiet {l : Label} {t : Workspace} :
      Desk.Asks 2 s.desk { t.desk with editor := s.desk.editor } →
      Alike s.pane t.pane → t.origins = s.origins → Outcome l t
  | begun {l : Label} {t : Workspace} :
      Desk.Begun s.desk { t.desk with editor := s.desk.editor } →
      Alike s.pane t.pane → t.origins = s.origins → Outcome l t
  | cleared {l : Label} {t : Workspace} (sender : Option Nat) :
      (∀ id, t.desk.fsPending id = none) → t.desk.fileAvailable = false →
      t.HasHeard s.pane s.origins sender (.pathRemoved [] true) → Outcome l t
  | closed {l : Label} {t : Workspace} (i : Nat) (old : Document) :
      s.pane.openDocuments[i]? = some old → t.DeskIs s.desk →
      Alike { s.pane with
        openDocuments := s.pane.openDocuments.eraseIdx i
        ignoredOpenPaths := s.pane.ignoredAfterClose old } t.pane →
      t.origins = s.origins → Outcome l t
  | opened {t : Workspace} (fileAvailable : Bool) (path : QString) (size : Nat) :
      s.controller.fileAvailable = true → path ≠ [] → size < maxEditorBytes →
      (∀ doc ∈ s.pane.openDocuments, doc.path ≠ path) →
      s.Asked ((s.pane.unignoreOpenPath path).pushLoading path) (.plain .editorOpen path none)
        (.openFailed path) t →
      Outcome (.pane (.requestOpen fileAvailable path size)) t
  | saved {t : Workspace} (connected fileAvailable : Bool) (doc new : Document) :
      s.controller.connectionState = .connected → s.controller.fileAvailable = true →
      s.pane.modified = true → s.pane.activeDocument? = some doc →
      doc.loading = false → doc.saving = false → doc.remoteMissing = false →
      new.mark = { doc.mark with saving := true } →
      s.Asked { s.pane with
          openDocuments := s.pane.openDocuments.set s.pane.activeDocumentIndex.toNat new }
        (.plain .editorSave doc.path (parentOrNull doc.path)) (.saveFailed doc.path) t →
      Outcome (.pane (.save connected fileAvailable)) t
  | answered {t : Workspace} (reply : Reply) (news : List EditorSignal) :
      s.reply? = some reply → s.Replied reply news t → Outcome .deliver t

section
variable {s} {t : Workspace} {l : Label} {c : AppController} {q r : CodeEditorPane}

/-- `u` differs from `s` by its queue and the next handle. -/
def SameBut (s u : Workspace) : Prop :=
  u.controller = s.controller ∧ u.pane = s.pane ∧ u.origins = s.origins

/-- The controller has become `c` without news. -/
theorem update_of_asks {u : Workspace} (sender : Option Nat) (hu : SameBut s u)
    (hp : Coherent s.pane) (heditor : c.editor = s.controller.editor) :
    Coherent (u.update sender c).pane ∧ Alike s.pane (u.update sender c).pane
      ∧ (u.update sender c).origins = s.origins
      ∧ { (u.update sender c).desk with editor := s.desk.editor } = c.desk := by
  obtain ⟨hcontroller, hpane, horigins⟩ := hu
  have hsilent : EditorViewModel.Tells [] u.controller.editor c.editor := by
    rw [hcontroller, heditor]
    exact EditorViewModel.tells_refl _
  have hush := hushed_update (s := u) (hpane ▸ hp) sender hsilent
  refine ⟨hush.coherent, ?_⟩
  obtain ⟨e, q, heq, hquiet, _⟩ := hush
  rw [heq, ← hpane]
  refine ⟨alike_of_quiet hquiet, horigins, ?_⟩
  show { c.desk with editor := s.controller.editor } = c.desk
  rw [← heditor]
  rfl

/-- The controller has become `c` with one piece of news. -/
theorem update_of_news {u : Workspace} (sender : Option Nat) {signal : EditorSignal}
    (hu : SameBut s u) (hp : Coherent s.pane)
    (hnews : EditorViewModel.Tells [signal] s.controller.editor c.editor) :
    Coherent (u.update sender c).pane
      ∧ (u.update sender c).HasHeard s.pane s.origins sender signal
      ∧ (u.update sender c).DeskIs c.desk := by
  obtain ⟨hcontroller, hpane, horigins⟩ := hu
  have hears := hears_update (s := u) (hpane ▸ hp) sender (hcontroller ▸ hnews)
  refine ⟨hears.coherent, ?_⟩
  obtain ⟨e, p, q, heq, hquiet, hp', hheard, _⟩ := hears
  rw [heq, ← hpane, ← horigins]
  exact ⟨⟨p, alike_of_quiet hquiet, hp', alike_of_quiet hheard, rfl⟩, e, rfl⟩

/-- The controller has acted without the pane. -/
theorem outcome_of_replaces {u : Workspace} {sender : Option Nat} (hu : SameBut s u)
    (hp : Coherent s.pane) (h : AppController.Replaces s.desk c.desk) :
    Coherent (u.update sender c).pane ∧ s.Outcome l (u.update sender c) := by
  cases h with
  | asks hasks =>
    obtain ⟨hcoherent, halike, horigins, hdesk⟩ := update_of_asks sender hu hp hasks.editor
    refine ⟨hcoherent, .quiet ?_ halike horigins⟩
    rw [hdesk]
    exact hasks.mono (Nat.le_succ 1)
  | begun hbegun =>
    obtain ⟨hcoherent, halike, horigins, hdesk⟩ := update_of_asks sender hu hp hbegun.editor
    refine ⟨hcoherent, .begun ?_ halike horigins⟩
    rw [hdesk]
    exact hbegun
  | cleared hcleared =>
    obtain ⟨hcoherent, hheard, e, hdesk⟩ := update_of_news sender hu hp hcleared.news
    refine ⟨hcoherent, .cleared sender ?_ ?_ hheard⟩
    · rw [hdesk]
      exact hcleared.pending
    · rw [hdesk]
      exact hcleared.available

/-- The pane has acted and asked for no file. -/
theorem act_of_asksNothing (hq : Coherent q) (h : AsksNothing s.pane q) :
    Coherent (s.act q).pane ∧ (s.act q).DeskIs s.desk ∧ Alike q (s.act q).pane
      ∧ (s.act q).origins = s.origins := by
  have hush := hushed_act hq h
  refine ⟨hush.coherent, ?_⟩
  obtain ⟨e, q', heq, hquiet, _⟩ := hush
  rw [heq]
  exact ⟨⟨e, rfl⟩, alike_of_quiet hquiet, rfl⟩

/-- The editor may be another one. -/
theorem DeskIs.asks {d : Desk} (h : t.DeskIs d) (n : Nat) :
    Desk.Asks n d { t.desk with editor := d.editor } := by
  obtain ⟨e, heq⟩ := h
  rw [heq]
  exact .refl n d

/-- The outcome where the pane asks for nothing. -/
theorem outcome_of_quiet (hq : Coherent q) (h : Quiet s.pane q) :
    Coherent (s.act q).pane ∧ s.Outcome l (s.act q) := by
  obtain ⟨hcoherent, hdesk, hquiet, horigins⟩ := act_of_asksNothing hq h.calls
  exact ⟨hcoherent, .quiet (hdesk.asks 2) ((alike_of_quiet h).trans hquiet) horigins⟩

/-- A document may have been closed. -/
theorem outcome_of_closeDocument (hq : Coherent q) {index : Int}
    (h : Quiet (s.pane.closeDocument index) q) :
    Coherent (s.act q).pane ∧ s.Outcome l (s.act q) := by
  obtain hquiet | ⟨i, old, hget, _, hquiet⟩ := s.pane.closeDocument_cases index
  · exact outcome_of_quiet hq (hquiet.trans h)
  · obtain ⟨hcoherent, hdesk, hacted, horigins⟩ := act_of_asksNothing hq (hquiet.trans h).calls
    refine ⟨hcoherent, .closed i old hget hdesk ?_ horigins⟩
    exact (alike_of_quiet (hquiet.trans h)).trans hacted

/-- The pane has acted and asked for a file. -/
theorem asked_of_call {request : EditorCall} (entry : PendingFs)
    (refusal : QString → EditorSignal) (hr : AsksNothing s.pane r) (hquiet : Quiet q r)
    (hcoherent : Coherent (r.call request))
    (hrequest : ∀ c : AppController,
      (¬ (c.ready = true ∧ entry.path ≠ []) ∧ (request.perform c).desk = c.desk)
        ∨ (c.ready = true ∧ entry.path ≠ [] ∧
          Desk.Requests entry refusal c.desk (request.perform c).desk)) :
    Coherent (s.act (r.call request)).pane ∧ s.Asked q entry refusal (s.act (r.call request)) := by
  have halike : Alike q (r.call request) := alike_call (alike_of_quiet hquiet) request
  obtain ⟨e, htells, hact⟩ := act_call hr request
  rw [hact]
  generalize hc : ({ s.controller with editor := e } : AppController) = c
  have hready : c.ready = s.controller.ready := by rw [← hc]; rfl
  have hdesk : c.desk = { s.desk with editor := e } := by rw [← hc]; rfl
  have htells' : EditorViewModel.Tells [] s.controller.editor c.editor := by rw [← hc]; exact htells
  -- what the controller has become, and what the pane hears of it
  have hquietly : ∀ d : AppController, EditorViewModel.Tells [] c.editor d.editor →
      Coherent (update { s with pane := r.call request } none d).pane
        ∧ (update { s with pane := r.call request } none d).DeskIs d.desk
        ∧ Alike q (update { s with pane := r.call request } none d).pane
        ∧ (update { s with pane := r.call request } none d).origins = s.origins := by
    intro d hd
    have hush := hushed_update (s := { s with pane := r.call request }) hcoherent none
      (htells'.trans hd)
    refine ⟨hush.coherent, ?_⟩
    obtain ⟨e', q', heq, hheard, _⟩ := hush
    rw [heq]
    exact ⟨⟨e', rfl⟩, halike.trans (alike_of_quiet hheard), rfl⟩
  obtain ⟨hnot, hsame⟩ | ⟨hyes, hpath, hrequests⟩ := hrequest c
  · have hsilent : EditorViewModel.Tells [] c.editor (request.perform c).editor := by
      rw [show (request.perform c).editor = c.editor from congrArg Desk.editor hsame]
      exact EditorViewModel.tells_refl _
    obtain ⟨hcoherent', ⟨e', hdesk'⟩, hheard, horigins⟩ := hquietly _ hsilent
    refine ⟨hcoherent', .ignored (hready ▸ hnot) ⟨e', ?_⟩ hheard horigins⟩
    rw [hdesk', hsame, hdesk]
  · cases hrequests with
    | taken e' hlive hb htold =>
      rw [hdesk] at hb hlive
      have hsilent : EditorViewModel.Tells [] c.editor (request.perform c).editor := by
        rw [show (request.perform c).editor = e' from congrArg Desk.editor hb]
        exact htold
      obtain ⟨hcoherent', ⟨e'', hdesk'⟩, hheard, horigins⟩ := hquietly _ hsilent
      refine ⟨hcoherent', .taken hlive hpath ⟨e'', ?_⟩ hheard horigins⟩
      rw [hdesk', hb]
      rfl
    | refused k e' message hrefuses hb htold =>
      rw [hdesk] at hb hrefuses
      have hnews : EditorViewModel.Tells [refusal message] s.controller.editor
          (request.perform c).editor := by
        rw [show (request.perform c).editor = e' from congrArg Desk.editor hb]
        exact htells'.trans htold
      have hears := hears_update (s := { s with pane := r.call request }) hcoherent none hnews
      refine ⟨hears.coherent, ?_⟩
      obtain ⟨e'', p', q', heq, hquiet', hp', hheard, _⟩ := hears
      rw [heq]
      refine .refused k message hrefuses ⟨e'', ?_⟩
        ⟨p', halike.trans (alike_of_quiet hquiet'), hp', alike_of_quiet hheard, rfl⟩
      show { (request.perform c).desk with editor := e'' } = _
      rw [hb]
      rfl

/-- The outcome of what the pane does. -/
theorem outcome_of_pane {l : CodeEditorPane.Label} (hp : Coherent s.pane) (hoffers : s.Offers l)
    (hstep : s.pane.step l = some q) :
    Coherent (s.act q).pane ∧ s.Outcome (.pane l) (s.act q) := by
  have hq : Coherent q := coherent_step hp hstep
  cases l with
  | signal signal => exact absurd hoffers id
  | requestOpen fileAvailable path size =>
    obtain rfl := Option.some.inj hstep
    obtain hquiet | ⟨havailable, hpath, hsize, hnew, r, hquiet, heq⟩ :=
      s.pane.requestOpen_cases fileAvailable path size
    · exact outcome_of_quiet hq hquiet
    · -- a file that is not open: a new tab, and one request
      rw [heq] at hq ⊢
      obtain ⟨hcoherent, hasked⟩ := asked_of_call (.plain .editorOpen path none) (.openFailed path)
        hquiet.calls hquiet hq (fun c => c.openPath_outcome path)
      refine ⟨hcoherent, ?_⟩
      exact .opened fileAvailable path size (hoffers ▸ havailable) hpath hsize hnew hasked
  | setActive index =>
    obtain rfl := Option.some.inj hstep
    exact outcome_of_quiet hq (quiet_setActiveDocument s.pane index)
  | requestClose index =>
    obtain rfl := Option.some.inj hstep
    obtain hquiet | heq := s.pane.requestClose_cases index
    · exact outcome_of_quiet hq hquiet
    · rw [heq] at hq ⊢
      exact outcome_of_closeDocument hq (.refl _)
  | acceptClose =>
    obtain ⟨_, hclosed⟩ := Option.ite_none_right_eq_some.mp hstep
    obtain rfl := Option.some.inj hclosed
    exact outcome_of_closeDocument hq (quiet_of_same rfl rfl rfl rfl)
  | rejectClose =>
    obtain ⟨_, hclosed⟩ := Option.ite_none_right_eq_some.mp hstep
    obtain rfl := Option.some.inj hclosed
    exact outcome_of_quiet hq (quiet_of_same rfl rfl rfl rfl)
  | edit text cursor =>
    obtain ⟨henabled, hedited⟩ := Option.ite_none_right_eq_some.mp hstep
    obtain rfl := Option.some.inj hedited
    exact outcome_of_quiet hq (s.pane.edit_cases text cursor henabled)
  | moveCursor cursor =>
    obtain rfl := Option.some.inj hstep
    exact outcome_of_quiet hq (quiet_of_same rfl rfl rfl rfl)
  | save connected fileAvailable =>
    obtain rfl := Option.some.inj hstep
    obtain heq | ⟨hconnected, havailable, doc, new, hdoc, hloading, hsaving, hmissing, hmark, r,
        hquiet, heq⟩ := saveCurrent_cases hp.inRange connected fileAvailable
    · rw [heq] at hq ⊢
      exact outcome_of_quiet hq (.refl _)
    -- without changes the button does nothing
    by_cases hmodified : s.pane.modified = true
    · rw [heq] at hq ⊢
      obtain ⟨hcoherent, hasked⟩ := asked_of_call
        (.plain .editorSave doc.path (parentOrNull doc.path)) (.saveFailed doc.path)
        hquiet.calls hquiet hq
        (fun c => c.saveEditorPath_outcome doc.path s.pane.editorText)
      refine ⟨hcoherent, .saved connected fileAvailable doc new ?_ (hoffers.2 ▸ havailable)
        hmodified hdoc hloading hsaving hmissing hmark hasked⟩
      exact of_decide_eq_true (hoffers.1 ▸ hconnected)
    · have hnot : s.pane.saveCurrent connected fileAvailable = s.pane := by
        unfold saveCurrent
        rw [if_neg]
        exact fun h => hmodified h.2.2.2.2.2.2
      rw [hnot] at hq ⊢
      exact outcome_of_quiet hq (.refl _)

/-- A request that waits belongs to a session. -/
theorem live_of_pending (hsound : Desk.Sound s.desk) {id : UInt64} {pending : PendingFs}
    (hpending : s.desk.fsPending id = some pending) : s.controller.live.isSome = true := by
  rw [Option.isSome_iff_ne_none]
  intro hidle
  have hnone := (hsound.idle hidle).2 id
  exact absurd (hpending.symm.trans hnone) (Option.some_ne_none pending)

/-- A result that some request waits for is delivered. -/
theorem replied_of_result (hp : Coherent s.pane) (hsound : Desk.Sound s.desk) {session : Nat}
    {rest : List PostedItem} {result : FsResult} {pending : PendingFs}
    (hpending : s.controller.fsPending result.requestId = some pending) :
    Coherent (update { s with queue := rest } (some session)
        (s.controller.ingestFileResult result)).pane
      ∧ ∃ news, s.Replied { session := session, result := result, pending := pending } news
        (update { s with queue := rest } (some session)
          (s.controller.ingestFileResult result)) := by
  have hu : SameBut s { s with queue := rest } := ⟨rfl, rfl, rfl⟩
  obtain ⟨news, e, hanswer, htells, hasks⟩ := s.controller.ingestFileResult_outcome hpending
    (live_of_pending hsound hpending) (hsound.named _ pending hpending)
  generalize s.controller.ingestFileResult result = c at hasks ⊢
  have heditor : c.editor = e := hasks.editor
  rw [← heditor] at htells
  -- what is said to the pane touches the editor alone
  have hdone : ∀ t : Workspace, t.DeskIs c.desk →
      Desk.Asks 2 { s.desk with
          fsPending := Function.update s.desk.fsPending result.requestId none }
        { t.desk with editor := s.desk.editor } := by
    rintro t ⟨e', hdesk⟩
    rw [hdesk]
    exact ⟨hasks.live, rfl, hasks.available, hasks.used, hasks.pending⟩
  -- an answer says one thing to the pane, or none
  obtain rfl | ⟨signal, rfl⟩ : news = [] ∨ ∃ signal, news = [signal] := by
    cases hanswer <;> first | exact Or.inl rfl | exact Or.inr ⟨_, rfl⟩
  · have hush := hushed_update (s := { s with queue := rest }) hp (some session) htells
    refine ⟨hush.coherent, [], ?_⟩
    obtain ⟨e', q, heq, hquiet, _⟩ := hush
    rw [heq]
    exact
      { pending := hpending
        answer := hanswer
        silent := fun _ => ⟨alike_of_quiet hquiet, rfl⟩
        heard := fun _ hnil => absurd hnil.symm (List.cons_ne_nil _ _)
        asks := hdone _ ⟨e', rfl⟩ }
  · obtain ⟨hcoherent, hheard, hdesk⟩ := update_of_news (some session) hu hp htells
    refine ⟨hcoherent, [signal], ?_⟩
    exact
      { pending := hpending
        answer := hanswer
        silent := fun hnil => absurd hnil (List.cons_ne_nil _ _)
        heard := fun _ hother => (List.cons.inj hother).1 ▸ hheard
        asks := hdone _ hdesk }

/-- The outcome of a delivery. -/
theorem outcome_of_deliver (hp : Coherent s.pane) (hsound : Desk.Sound s.desk) {posted : PostedItem}
    {rest : List PostedItem} (hqueue : s.queue = posted :: rest) :
    Coherent (update { s with queue := rest } (some posted.session)
        (s.controller.take posted.item)).pane
      ∧ s.Outcome .deliver (update { s with queue := rest } (some posted.session)
        (s.controller.take posted.item)) := by
  have hu : SameBut s { s with queue := rest } := ⟨rfl, rfl, rfl⟩
  cases hitem : posted.item with
  | event ev =>
    have hreplaces : AppController.Replaces s.desk (s.controller.ingestRustEvent ev).desk := by
      obtain hasks | hcleared := s.controller.replaces_ingestRustEvent ev
      · exact .asks hasks
      · exact .cleared hcleared
    exact outcome_of_replaces hu hp hreplaces
  | exec result =>
    exact outcome_of_replaces hu hp (.asks (s.controller.asks_ingestExecResult result))
  | file result =>
    show Coherent (update _ _ (s.controller.ingestFileResult result)).pane
      ∧ s.Outcome .deliver (update _ _ (s.controller.ingestFileResult result))
    cases hpending : s.controller.fsPending result.requestId with
    | none =>
      rw [s.controller.ingestFileResult_of_none hpending]
      exact outcome_of_replaces hu hp (.asks (.refl 1 s.desk))
    | some pending =>
      obtain ⟨hcoherent, news, hreplied⟩ := replied_of_result hp hsound hpending
      refine ⟨hcoherent, .answered _ news ?_ hreplied⟩
      unfold reply?
      rw [hqueue]
      dsimp only
      rw [hitem]
      dsimp only
      rw [hpending]
      rfl

/-- **What a step does.** -/
theorem step_outcome (hp : Coherent s.pane) (hsound : Desk.Sound s.desk)
    (hstep : s.step l = some t) : Coherent t.pane ∧ s.Outcome l t := by
  cases l with
  | user action =>
    rw [step, Option.ite_none_left_eq_some] at hstep
    obtain ⟨hpane, hrun⟩ := hstep
    obtain rfl := Option.some.inj hrun
    exact outcome_of_replaces ⟨rfl, rfl, rfl⟩ hp
      (action.desk_run (Bool.eq_false_iff.mpr hpane) s.nextHandle s.controller)
  | pane l =>
    obtain ⟨hoffers, hacted⟩ := Option.ite_none_right_eq_some.mp hstep
    obtain ⟨q, hq, rfl⟩ := Option.map_eq_some_iff.mp hacted
    exact outcome_of_pane hp hoffers hq
  | calls batch =>
    cases hlive : s.controller.live with
    | none =>
      rw [step, hlive] at hstep
      cases hstep
    | some handle =>
      rw [step, hlive] at hstep
      obtain rfl := Option.some.inj hstep
      exact ⟨hp, .quiet (.refl 2 s.desk) (alike_of_quiet (.refl _)) rfl⟩
  | driverStops =>
    obtain rfl := Option.some.inj hstep
    refine ⟨hp, .quiet ?_ (alike_of_quiet (.refl _)) rfl⟩
    unfold Workspace.desk AppController.desk AppController.live
    cases s.controller.session with
    | none => exact .refl 2 _
    | some session =>
      exact ⟨rfl, rfl, Or.inl, ⟨0, Nat.zero_le 2, (Desk.idAfter_zero _).symm⟩, fun _ => Or.inl rfl⟩
  | deliver =>
    obtain ⟨posted, rest, hqueue, rfl⟩ := of_step_deliver hstep
    exact outcome_of_deliver hp hsound hqueue

/-! ## §5. What always holds. -/

/-- What the desk says holds also when the editor is another one. -/
theorem DeskIs.sound {d : Desk} (h : t.DeskIs d) (hsound : Desk.Sound d) : Desk.Sound t.desk := by
  obtain ⟨e, heq⟩ := h
  rw [heq]
  exact hsound.editor e

/-- Requests keep the invariant of the desk. -/
theorem Asked.sound {entry : PendingFs} {refusal : QString → EditorSignal}
    (h : s.Asked q entry refusal t) (hsound : Desk.Sound s.desk) : Desk.Sound t.desk := by
  cases h with
  | ignored _ hdesk => exact hdesk.sound hsound
  | taken hlive hpath hdesk => exact hdesk.sound (hsound.put hlive hpath _ _)
  | refused k _ _ hdesk =>
    exact hdesk.sound (show Desk.Sound { s.desk with nextRequestId := _ } from
      ⟨hsound.idle, hsound.named⟩)

/-- Every outcome keeps the invariant of the desk. -/
theorem Outcome.sound (h : s.Outcome l t) (hsound : Desk.Sound s.desk) : Desk.Sound t.desk := by
  cases h with
  | quiet hasks => exact (hsound.asks hasks).editor t.desk.editor
  | begun hbegun => exact (hsound.begun hbegun).editor t.desk.editor
  | cleared _ hnone havailable =>
    refine ⟨fun _ => ⟨havailable, hnone⟩, ?_⟩
    intro id entry hentry
    rw [hnone id] at hentry
    cases hentry
  | closed _ _ _ hdesk => exact hdesk.sound hsound
  | opened _ _ _ _ _ _ _ hasked => exact hasked.sound hsound
  | saved _ _ _ _ _ _ _ _ _ _ _ _ hasked => exact hasked.sound hsound
  | answered reply _ _ hreplied =>
    exact ((hsound.taken reply.result.requestId).asks hreplied.asks).editor t.desk.editor

/-- The pane is coherent and the desk is sound. -/
structure Settled (s : Workspace) : Prop where
  pane : Coherent s.pane
  desk : Desk.Sound s.desk

/-- The window has just been opened. -/
theorem settled_initial (servers : List ServerItem)
    (credentials : QString → Option (List UInt8)) : Settled (initial servers credentials) where
  pane := coherent_initial
  desk := by
    refine ⟨fun _ => ⟨rfl, fun _ => rfl⟩, ?_⟩
    intro id entry hentry
    cases hentry

/-- Each step has one of the outcomes. -/
theorem Settled.outcome (h : Settled s) (hstep : s.step l = some t) : s.Outcome l t :=
  (step_outcome h.pane h.desk hstep).2

/-- A delivery that answers a request takes the reply. -/
theorem Settled.replied (h : Settled s) {reply : Reply} (hreply : s.reply? = some reply)
    (hstep : s.step .deliver = some t) : ∃ news, s.Replied reply news t := by
  obtain ⟨posted, rest, hqueue, rfl⟩ := of_step_deliver hstep
  unfold reply? at hreply
  rw [hqueue] at hreply
  dsimp only at hreply
  cases hitem : posted.item with
  | file result =>
    rw [hitem] at hreply
    obtain ⟨pending, hpending, rfl⟩ := Option.map_eq_some_iff.mp hreply
    exact (replied_of_result h.pane h.desk hpending).2
  | event ev =>
    rw [hitem] at hreply
    cases hreply
  | exec result =>
    rw [hitem] at hreply
    cases hreply

/-- **One step** keeps it. -/
theorem Settled.step (h : Settled s) (hstep : s.step l = some t) : Settled t :=
  ⟨(step_outcome h.pane h.desk hstep).1, (h.outcome hstep).sound h.desk⟩

end

end Workspace

end ResearchSSH.App
