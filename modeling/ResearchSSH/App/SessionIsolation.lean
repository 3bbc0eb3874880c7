/-
  ResearchSSH.App.SessionIsolation — what a destroyed session can still do.

  Destroying a session keeps it from calling back; the batches that wait in the queue are
  delivered all the same, to whatever the controller shows by then.  An event batch moves the
  connection state of the row that is current NOW, and a result is given to the request of the
  live session that has its id, of which each session has a first one, a second one, and so on.

  Main results:
    * `delivery_isolated` — in a run in which every late batch is quiet, no late batch changes
      anything that belongs to a session.
    * `drained_never_late` — nothing is late at all if servers are switched, changed or deleted only
      while no batch is waiting.
-/

import ResearchSSH.App.ControllerFrame

namespace ResearchSSH.App

open ResearchSSH.Core ResearchSSH.Library

/-! ## §1. What belongs to a session. -/

/-- What the controller shows of its session. -/
structure SessionView where
  connectionState : RsSessionState
  statuses : List RsSessionState
  fsPending : UInt64 → Option PendingFs
  execPending : UInt64 → Option PendingExec
  fileTree : RemoteFileTreeModel
  editor : EditorViewModel
  packages : PackageData

/-- What a session must not change for another. -/
def AppController.view (c : AppController) : SessionView :=
  { connectionState := c.connectionState, statuses := c.servers.map ServerItem.status
    fsPending := c.fsPending, execPending := c.execPending, fileTree := c.fileTree
    editor := c.editor, packages := c.packages }

/-- The next delivery, if the session it was posted for has been destroyed. -/
def UiThread.late (s : UiThread) : UiLabel → Option Batch
  | .deliver =>
    match s.queue with
    | [] => none
    | posted :: _ => if s.controller.live = some posted.session then none else some posted.batch
  | _ => none

/-- The step delivers nothing of a destroyed session, or leaves the view as it is. -/
def UiThread.Isolated (s : UiThread) (l : UiLabel) : Prop :=
  (s.late l).isSome → ∀ t, s.step l = some t → t.controller.view = s.controller.view

/-- The event announces a state. -/
def RustEvent.movesState : RustEvent → Bool
  | .stateChanged _ => true
  | _ => false

/-- A batch that meets no request and moves no state. -/
def AppController.Quiet (c : AppController) : Batch → Prop
  | .events batch => ∀ ev ∈ batch, ev.movesState = false
  | .files batch => ∀ result ∈ batch, c.fsPending result.requestId = none
  | .execs batch => ∀ result ∈ batch, c.execPending result.requestId = none

instance (c : AppController) : ∀ batch, Decidable (c.Quiet batch)
  | .events batch => inferInstanceAs (Decidable (∀ ev ∈ batch, ev.movesState = false))
  | .files batch =>
    inferInstanceAs (Decidable (∀ result ∈ batch, c.fsPending result.requestId = none))
  | .execs batch =>
    inferInstanceAs (Decidable (∀ result ∈ batch, c.execPending result.requestId = none))

/-- What is delivered late is quiet. -/
def UiThread.LateQuiet (s : UiThread) (l : UiLabel) : Prop :=
  ∀ batch ∈ s.late l, s.controller.Quiet batch

instance (s : UiThread) (l : UiLabel) : Decidable (s.LateQuiet l) :=
  inferInstanceAs (Decidable (∀ batch ∈ s.late l, s.controller.Quiet batch))

/-! ## §2. Quiet batches. -/

namespace AppController

@[simp] theorem view_appendNotice (c : AppController) (text : QString) :
    (c.appendNotice text).view = c.view := rfl

@[simp] theorem view_appendBytes (c : AppController) (data : List UInt8) :
    (c.appendBytes data).view = c.view := rfl

theorem view_finishCapture (c : AppController) (capture : QString) :
    (c.finishCapture capture).view = c.view := by
  unfold finishCapture
  split
  · rfl
  · split
    · rfl
    · dsimp only
      split <;> rfl

theorem view_captureResourceOutput (c : AppController) (data : List UInt8) :
    (c.captureResourceOutput data).2.view = c.view := by
  unfold captureResourceOutput
  split
  · dsimp only
    split
    · split
      · rfl
      · rw [view_finishCapture]
        split <;> rfl
    · exact view_finishCapture _ _
  · rfl

/-- Terminal output, errors and prompts show nothing of the session's requests. -/
theorem view_ingestRustEvent (c : AppController) {ev : RustEvent} (h : ev.movesState = false) :
    (c.ingestRustEvent ev).view = c.view := by
  cases ev with
  | stateChanged state => exact absurd h Bool.noConfusion
  | data data =>
    have hview := view_captureResourceOutput c data
    unfold AppController.ingestRustEvent
    dsimp only
    rcases hcapture : c.captureResourceOutput data with ⟨taken, c'⟩
    rw [hcapture] at hview
    cases taken <;> exact hview
  | error code message => rfl
  | hostKeyPrompt message => rfl

theorem view_ingestRustEvents (batch : List RustEvent) :
    ∀ c : AppController, (∀ ev ∈ batch, ev.movesState = false) →
      (c.ingestRustEvents batch).view = c.view := by
  induction batch with
  | nil => intro c _; rfl
  | cons ev batch ih =>
    intro c h
    rw [List.forall_mem_cons] at h
    show ((c.ingestRustEvent ev).ingestRustEvents batch).view = c.view
    rw [ih _ h.2, view_ingestRustEvent c h.1]

/-- Results that no request waits for are passed over. -/
theorem ingestFileResults_eq_self (batch : List FsResult) (c : AppController)
    (h : ∀ result ∈ batch, c.fsPending result.requestId = none) :
    c.ingestFileResults batch = c := by
  induction batch with
  | nil => rfl
  | cons result batch ih =>
    rw [List.forall_mem_cons] at h
    have hskip : c.ingestFileResult result = c := by
      unfold ingestFileResult
      rw [h.1]
    show (c.ingestFileResult result).ingestFileResults batch = c
    rw [hskip, ih h.2]

/-- Results that nothing waits for are dropped. -/
theorem ingestExecResults_eq_self (batch : List ExecResult) (c : AppController)
    (h : ∀ result ∈ batch, c.execPending result.requestId = none) :
    c.ingestExecResults batch = c := by
  induction batch with
  | nil => rfl
  | cons result batch ih =>
    rw [List.forall_mem_cons] at h
    have hskip : c.ingestExecResult result = c := by
      unfold ingestExecResult
      rw [h.1]
    show (c.ingestExecResult result).ingestExecResults batch = c
    rw [hskip, ih h.2]

theorem view_ingest_of_quiet (c : AppController) {batch : Batch} (h : c.Quiet batch) :
    (c.ingest batch).view = c.view := by
  cases batch with
  | events batch => exact view_ingestRustEvents batch c h
  | files batch => exact congrArg view (ingestFileResults_eq_self batch c h)
  | execs batch => exact congrArg view (ingestExecResults_eq_self batch c h)

end AppController

/-- The controller after a late delivery. -/
theorem UiThread.step_of_late {s t : UiThread} {l : UiLabel} {batch : Batch}
    (hlate : s.late l = some batch) (hstep : s.step l = some t) :
    t.controller = s.controller.ingest batch := by
  unfold UiThread.late at hlate
  split at hlate
  · obtain ⟨posted, rest, hqueue, rfl⟩ := UiThread.of_step_deliver hstep
    rw [hqueue, Option.ite_none_left_eq_some, Option.some.injEq] at hlate
    rw [← hlate.2]
  · exact absurd hlate (Option.some_ne_none batch).symm

/-- A late batch without states and without known ids changes nothing. -/
theorem UiThread.isolated_of_lateQuiet {s : UiThread} {l : UiLabel} (h : s.LateQuiet l) :
    s.Isolated l := by
  intro hsome t hstep
  obtain ⟨batch, hlate⟩ := Option.isSome_iff_exists.mp hsome
  rw [UiThread.step_of_late hlate hstep]
  exact s.controller.view_ingest_of_quiet (h batch hlate)

/-! ## §3. Drained switches. -/

/-- A server is switched, changed or deleted only while no batch is waiting. -/
def UiThread.Drained (s : UiThread) (l : UiLabel) : Prop :=
  ∀ action, l = .user action → action.switches = true → s.queue = []

/-- Everything in the queue was posted for the session there is. -/
def UiThread.OwnQueue (s : UiThread) : Prop :=
  ∀ posted ∈ s.queue, s.controller.live = some posted.session

/-- A queue that is drained before a new session holds only the live session's batches. -/
theorem UiThread.OwnQueue.step {s t : UiThread} {l : UiLabel} (h : s.OwnQueue)
    (hdrained : s.Drained l) (hstep : s.step l = some t) : t.OwnQueue := by
  cases l with
  | user action =>
    rw [UiThread.step, Option.some.injEq] at hstep
    subst hstep
    intro posted hposted
    -- a switch finds the queue empty; any other action keeps the session
    by_cases hswitch : action.switches = true
    · have hempty := hdrained action rfl hswitch
      rw [hempty] at hposted
      exact absurd hposted List.not_mem_nil
    · have hlive := AppController.live_of_binding
        (UiAction.binding_run (Bool.eq_false_iff.mpr hswitch) s.nextHandle s.controller)
      rw [hlive]
      exact h posted hposted
  | calls batch =>
    obtain ⟨handle, hlive, rfl⟩ := UiThread.of_step_calls hstep
    intro posted hposted
    -- the new batch is posted by the live session
    rcases List.mem_append.mp hposted with hposted | hposted
    · exact h posted hposted
    · rw [List.mem_singleton.mp hposted]
      exact hlive
  | driverStops =>
    rw [UiThread.step, Option.some.injEq] at hstep
    subst hstep
    intro posted hposted
    rw [← h posted hposted]
    exact AppController.live_of_binding
      (AppController.binding_of_face s.controller.face_stopped)
  | deliver =>
    obtain ⟨head, rest, hqueue, rfl⟩ := UiThread.of_step_deliver hstep
    intro posted hposted
    -- no batch replaces the session
    rw [AppController.live_of_binding (s.controller.binding_ingest head.batch)]
    apply h
    rw [hqueue]
    exact List.mem_cons_of_mem head hposted

/-- Where the queue holds nothing of another session, nothing is delivered late. -/
theorem UiThread.OwnQueue.late {s : UiThread} (h : s.OwnQueue) (l : UiLabel) : s.late l = none := by
  unfold UiThread.late
  split
  · split
    · rfl
    next posted rest hqueue =>
      rw [if_pos]
      apply h
      rw [hqueue]
      exact List.mem_cons_self
  · rfl

/-- **Drained switches.**  In a run that switches, changes or deletes servers only while no batch
is waiting, nothing is ever delivered late. -/
theorem drained_never_late (servers : List ServerItem)
    (credentials : QString → Option (List UInt8)) (labels : List UiLabel)
    (h : Along UiThread.step UiThread.Drained (UiThread.initial servers credentials) labels) :
    Along UiThread.step (fun s l => s.late l = none) (UiThread.initial servers credentials)
      labels := by
  refine along_of_invariant (I := UiThread.OwnQueue) ?_ ?_ ?_ h
  · intro s l hown _
    exact hown.late l
  · intro s l t hown hdrained hstep
    exact hown.step hdrained hstep
  · intro posted hposted
    exact absurd hposted List.not_mem_nil

/-! ## §4. Runs. -/

/-- **Late batches.**  In every run of user actions, callbacks and deliveries in which each batch
of a destroyed session is quiet when it is delivered, no batch of a destroyed session changes the
connection state, the status of a server, a pending request, the file tree, the editor or the
package data. -/
theorem delivery_isolated (servers : List ServerItem)
    (credentials : QString → Option (List UInt8)) (labels : List UiLabel)
    (h : Along UiThread.step UiThread.LateQuiet (UiThread.initial servers credentials) labels) :
    Along UiThread.step UiThread.Isolated (UiThread.initial servers credentials) labels := by
  refine along_of_invariant (I := fun _ => True) ?_ ?_ trivial h
  · intro s l _ hquiet
    exact UiThread.isolated_of_lateQuiet hquiet
  · intro s l t _ _ _
    trivial

/-- A connection to the first of two servers up to its listing, which is left waiting. -/
def listingOfA : List UiLabel :=
  [.user (.connectToServer 0 none),
   .calls (.events [.stateChanged .connecting, .stateChanged .connected]), .deliver,
   .calls (.files [{ requestId := 1
                     payload := .listing [{ name := lit "x", path := lit "/home/a/x", kind := .file
                                            size := 0, modified := -1, editable := true }] }])]

/-- A late listing is passed over while the new session waits for nothing. -/
theorem delivery_isolated_quiet_listing :
    (exec UiThread.step twoServers (listingOfA ++ [.user (.connectToServer 1 none)])).map
        (fun s => (s.late .deliver).isSome) = some true ∧
      Along UiThread.step UiThread.Isolated twoServers
        (listingOfA ++ [.user (.connectToServer 1 none), .deliver]) :=
  ⟨by decide, delivery_isolated _ _ _ (by decide)⟩

/-- Once the new session has asked for its own first listing, it is given that of the old one. -/
theorem late_listing_dispatched :
    ¬ Along UiThread.step UiThread.Isolated twoServers
      (listingOfA ++ [.user (.connectToServer 1 none), .user .reloadFiles] ++ [.deliver]) := by
  intro h
  obtain ⟨s, hrun⟩ : ∃ s, exec UiThread.step twoServers
      (listingOfA ++ [.user (.connectToServer 1 none), .user .reloadFiles]) = some s :=
    Option.isSome_iff_exists.mp (by decide)
  have hview : (exec UiThread.step twoServers
      (listingOfA ++ [.user (.connectToServer 1 none), .user .reloadFiles])).map
        (fun s => ((s.late .deliver).isSome, (s.controller.fsPending 1).isSome,
          (s.step .deliver).map fun t => (t.controller.fsPending 1).isSome))
      = some (true, true, some false) := by decide
  rw [hrun, Option.map_some, Option.some.injEq, Prod.mk.injEq, Prod.mk.injEq] at hview
  obtain ⟨hlate, hwaits, hgone⟩ := hview
  obtain ⟨t, hstep, ht⟩ := Option.map_eq_some_iff.mp hgone
  -- isolation would leave the request of the new session pending
  have hsame := (along_cons.mp (h.suffix hrun)).1 hlate t hstep
  have hpending : t.controller.fsPending = s.controller.fsPending :=
    congrArg SessionView.fsPending hsame
  rw [hpending, hwaits] at ht
  exact absurd ht Bool.noConfusion

end ResearchSSH.App
