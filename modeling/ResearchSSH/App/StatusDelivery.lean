/-
  ResearchSSH.App.StatusDelivery — the state that is shown, and the state of the driver.

  A state that is announced reaches the controller behind everything that was posted before it, so
  what an earlier session has still to say is shown before, and never after, what the live session
  says.  No action of the user touches the state that is shown, unless it ends the session.

  Main results:
    * `Application.Shown.step`     — one step.
    * `Application.status_settles` — whole runs.
-/

import ResearchSSH.App.Application
import ResearchSSH.App.ServerActions
import ResearchSSH.Core.DriverLifecycle

namespace ResearchSSH.App

open ResearchSSH.Core ResearchSSH.Library RustCoreBridge

/-! ## §1. Announcements. -/

/-- The state that an event announces. -/
def RustEvent.announced : RustEvent → Option RsSessionState
  | .stateChanged state => some state
  | _ => none

/-- The states that a batch announces. -/
def Batch.announced : Batch → List RsSessionState
  | .events batch => batch.filterMap RustEvent.announced
  | _ => []

/-- The states that are announced in the queue, in order. -/
def announcedIn (queue : List Posted) : List RsSessionState :=
  queue.flatMap fun posted => posted.batch.announced

/-- What the driver has told its session: its state, or that it could not be set up. -/
def told (d : Driver) : RsSessionState := if d.phase = .noProvider then .failed else d.state

/-- What crosses the bridge announces the same states. -/
theorem announced_eventBatch (batches : List (List SessionEvent)) :
    (batches.filterMap eventBatch).flatMap Batch.announced = announcedStates batches.flatten := by
  have hone : ∀ events : List SessionEvent,
      (events.map fun ev => (RustEvent.of decoded ev).seen).filterMap RustEvent.announced
        = announcedStates events := by
    intro events
    induction events with
    | nil => rfl
    | cons ev events ih =>
      cases ev with
      | stateChanged state => exact congrArg (List.cons state) ih
      | _ => exact ih
  induction batches with
  | nil => rfl
  | cons events batches ih =>
    rw [List.flatten_cons, announcedStates_append, ← ih, ← hone]
    unfold eventBatch
    cases events with
    | nil => rfl
    | cons ev events => rfl

/-- Only the batches of events announce states. -/
theorem announced_batchesOf (batches : List (List SessionEvent)) (files : List FileResult)
    (tasks : List Core.ExecResult) :
    (batchesOf batches files tasks).flatMap Batch.announced = announcedStates batches.flatten := by
  have hfiles : (files.map fileBatch).flatMap Batch.announced = [] := by
    rw [List.flatMap_map, List.flatMap_eq_nil_iff]
    exact fun _ _ => rfl
  have htasks : (tasks.map taskBatch).flatMap Batch.announced = [] := by
    rw [List.flatMap_map, List.flatMap_eq_nil_iff]
    exact fun _ _ => rfl
  unfold batchesOf
  rw [List.flatMap_append, List.flatMap_append, hfiles, htasks, List.append_nil, List.append_nil,
    announced_eventBatch]

/-! ## §2. The controller. -/

namespace AppController

variable (c : AppController)

/-- The state is part of the face. -/
theorem connectionState_of_face {d : AppController} (h : d.face = c.face) :
    d.connectionState = c.connectionState := congrArg Face.connectionState h

/-- An event announces its state or none. -/
theorem connectionState_ingestRustEvent (ev : RustEvent) :
    (c.ingestRustEvent ev).connectionState = ev.announced.getD c.connectionState := by
  by_cases h : ∃ state, ev = .stateChanged state
  · obtain ⟨state, rfl⟩ := h
    show (c.setConnectionState state).face.connectionState = state
    rw [face_setConnectionState]
  · have hnone : ev.announced = none := by
      cases ev with
      | stateChanged state => exact absurd ⟨state, rfl⟩ h
      | _ => rfl
    rw [hnone]
    exact c.connectionState_of_face (c.face_ingestRustEvent (not_exists.mp h))

/-- What is shown after a batch is the last state that it announces. -/
theorem connectionState_ingest (batch : Batch) :
    (c.ingest batch).connectionState = batch.announced.getLast?.getD c.connectionState := by
  cases batch with
  | files batch => exact c.connectionState_of_face (c.face_ingestFileResults batch)
  | execs batch => exact c.connectionState_of_face (c.face_ingestExecResults batch)
  | events batch =>
    show (batch.foldl ingestRustEvent c).connectionState
      = (batch.filterMap RustEvent.announced).getLast?.getD c.connectionState
    induction batch generalizing c with
    | nil => rfl
    | cons ev batch ih =>
      rw [List.foldl_cons, ih, connectionState_ingestRustEvent]
      cases hev : ev.announced with
      | none =>
        rw [List.filterMap_cons_none hev]
        rfl
      | some state =>
        rw [List.filterMap_cons_some hev, List.getLast?_cons, Option.getD_some]
        cases (batch.filterMap RustEvent.announced).getLast? <;> rfl

/-- A connect announces nothing by itself. -/
theorem connectionState_connectToServer (index : Int) (created : Created) :
    (c.connectToServer index created).connectionState = c.connectionState := by
  show (c.connectToServer index created).face.connectionState = c.face.connectionState
  have h := c.connectToServer_outcome index created
  generalize (c.connectToServer index created).face = face at h
  cases h <;> rfl

/-- **No user action touches the state that is shown**, unless it ends the session. -/
theorem connectionState_run (action : UiAction) (handle : Nat) :
    (action.run handle c).connectionState = c.connectionState
      ∨ (action.run handle c).face.session = none := by
  by_cases hswitches : action.switches = false
  · left
    -- what switches no session leaves the state alone
    rcases UiAction.face_run hswitches with ⟨index, rfl⟩ | hface
    · show (c.selectServer index).connectionState = c.connectionState
      unfold selectServer
      split <;> rfl
    · exact c.connectionState_of_face (hface handle c)
  · cases action with
    | connectToServer index refused => exact .inl (c.connectionState_connectToServer index _)
    | connectToHost host port username password name keyPath keyPassphrase refused =>
      left
      show (c.connectToHost host port username password name keyPath keyPassphrase
        (answer handle refused)).connectionState = c.connectionState
      by_cases h : host = [] ∨ username = []
      · exact c.connectionState_of_face (c.connectToHost_refused h port password name keyPath
          keyPassphrase _)
      · obtain ⟨credentials, heq⟩ := c.connectToHost_accepted h port password name keyPath
          keyPassphrase (answer handle refused)
        rw [heq]
        exact connectionState_connectToServer { c with servers := _, credentials := credentials } _ _
    | editServer index host port username password name keyPath keyPassphrase =>
      show (c.editServer index host port username password name keyPath
          keyPassphrase).face.connectionState = c.face.connectionState
        ∨ (c.editServer index host port username password name keyPath
          keyPassphrase).face.session = none
      by_cases haccepted : c.isValidIndex index = true ∧ EditAccepted host port username
      · rw [c.editServer_accepted haccepted.1 haccepted.2]
        -- editing the row of the session takes the session down
        by_cases hcurrent : index = c.currentIndex
        · right
          rw [if_pos hcurrent]
          rfl
        · left
          rw [if_neg hcurrent]
      · left
        rw [c.editServer_refused haccepted]
    | deleteServer index =>
      show (c.deleteServer index).face.connectionState = c.face.connectionState
        ∨ (c.deleteServer index).face.session = none
      by_cases hvalid : c.isValidIndex index = true
      · rw [c.deleteServer_valid hvalid]
        -- and so does deleting it
        by_cases hcurrent : index = c.currentIndex
        · right
          rw [if_pos hcurrent]
          rfl
        · left
          rw [if_neg hcurrent]
          split <;> rfl
      · left
        rw [deleteServer_invalid c hvalid]
    | _ => exact absurd rfl hswitches

end AppController

/-! ## §3. One step. -/

namespace Application

/-- What is shown once everything is delivered is what the driver of the session has told, as soon
as it has told anything. -/
structure Shown (s : Application) : Prop where
  driver : ∀ d, s.driver = some d → d.Sound
  shown : ∀ d, s.driver = some d → d.states ≠ [] →
    (announcedIn s.ui.queue).getLast?.getD s.ui.controller.connectionState = told d

variable {s t : Application}

/-- A driver that has told its session something has told it its state last. -/
theorem last_told {d : Driver} (h : d.Sound) (htold : d.states ≠ []) :
    d.states.getLast? = some (told d) := by
  obtain ⟨hphase, -, hstates⟩ | hlife := h
  · rw [hstates, told, if_pos hphase]
    rfl
  · have hphase : d.phase ≠ .noProvider := by
      intro hphase
      have hadmits := hlife.admits
      rw [hphase] at hadmits
      exact hadmits
    rw [told, if_neg hphase]
    have hwalk := hlife.walk
    generalize d.states = states at hwalk htold
    generalize d.state = state at hwalk
    cases hwalk with
    | nil => exact absurd rfl htold
    | snoc => exact List.getLast?_concat

/-- A new driver has told nothing. -/
theorem sound_spawned (sent : List Command) : (Driver.spawned sent).Sound :=
  .inr ⟨.nil, rfl, fun _ => rfl, fun _ => rfl⟩

/-- What the driver becomes when the controller has done something: the same one with more in its
queue, or one that has told nothing. -/
theorem handOver_cases {before : Option (Nat × List Command)} {driver : Option Driver}
    {after : Option (Nat × List Command)} {d : Driver} (h : handOver before driver after = some d) :
    (∃ e more, driver = some e ∧ d = { e with cmdRx := e.cmdRx ++ more })
      ∨ ∃ sent, d = .spawned sent := by
  cases after with
  | none => cases h
  | some l =>
    obtain ⟨handle, sent⟩ := l
    cases before with
    | none => exact .inr ⟨sent, (Option.some.inj h).symm⟩
    | some l' =>
      change (if handle = l'.1 then _ else some (Driver.spawned sent)) = some d at h
      split at h
      · obtain ⟨e, he, rfl⟩ := Option.map_eq_some_iff.mp h
        exact .inl ⟨e, _, he, rfl⟩
      · exact .inr ⟨sent, (Option.some.inj h).symm⟩

/-- A command more changes no state. -/
theorem sound_submit {d : Driver} (h : d.Sound) (more : List Command) :
    Driver.Sound { d with cmdRx := d.cmdRx ++ more } :=
  h.imp id fun hlife => hlife.keep rfl hlife.admits

/-- The controller has done something that keeps what is to be shown, or ends the session. -/
theorem Shown.follow (h : s.Shown) {ui : UiThread}
    (hui : (announcedIn ui.queue).getLast?.getD ui.controller.connectionState
        = (announcedIn s.ui.queue).getLast?.getD s.ui.controller.connectionState
      ∨ ui.controller.face.session = none) : (s.follow ui).Shown := by
  constructor
  · intro d hd
    obtain ⟨e, more, he, rfl⟩ | ⟨sent, rfl⟩ := handOver_cases hd
    · exact sound_submit (h.driver e he) more
    · exact sound_spawned sent
  · intro d hd htold
    obtain hsame | hgone := hui
    · obtain ⟨e, more, he, rfl⟩ | ⟨sent, rfl⟩ := handOver_cases hd
      · exact hsame.trans (h.shown e he htold)
      · exact absurd rfl htold
    · -- without a session there is no driver
      have hlink : ui.controller.traffic.link = none := by
        have hnone : ui.controller.session = none := Option.map_eq_none_iff.mp hgone
        rw [AppController.traffic, hnone]
        rfl
      change handOver _ _ ui.controller.traffic.link = some d at hd
      rw [hlink] at hd
      cases hd

/-- The driver has called back. -/
theorem announcedIn_heard (ui : UiThread) (handle : Nat) (batches : List Batch) (ended : Bool) :
    announcedIn (heard ui handle batches ended).queue
      = announcedIn ui.queue ++ batches.flatMap Batch.announced := by
  show (ui.queue ++ _).flatMap _ = _
  rw [List.flatMap_append, List.flatMap_map]
  rfl

/-- What is posted is not announced yet. -/
theorem connectionState_heard (ui : UiThread) (handle : Nat) (batches : List Batch)
    (ended : Bool) : (heard ui handle batches ended).controller.connectionState
      = ui.controller.connectionState := by
  cases ended <;> rfl

/-- **One step.** -/
theorem Shown.step (hsound : s.Sound) (h : s.Shown) {l : AppLabel} (hstep : s.step l = some t) :
    t.Shown := by
  cases l with
  | user action =>
    rw [of_step_user hstep]
    refine h.follow ?_
    refine (s.ui.controller.connectionState_run action s.ui.nextHandle).imp_left fun hsame => ?_
    rw [hsame]
  | deliver =>
    obtain ⟨posted, rest, hqueue, rfl⟩ := of_step_deliver hstep
    refine h.follow (.inl ?_)
    -- what the batch announces moves from the queue to what is shown
    show (announcedIn rest).getLast?.getD (s.ui.controller.ingest posted.batch).connectionState
      = _
    rw [AppController.connectionState_ingest, hqueue]
    show _ = (posted.batch.announced ++ announcedIn rest).getLast?.getD _
    rw [List.getLast?_append]
    cases (announcedIn rest).getLast? <;> rfl
  | core a =>
    obtain ⟨handle, d, d', batches, hown, hlive, hdriver, hd, hcalled, rfl⟩ := of_step_core hstep
    have hlinked := hsound.linked
    rw [hdriver] at hlinked
    generalize s.ui.controller.traffic.link = link at hlinked
    cases hlinked with
    | on hserves =>
    obtain ⟨-, files, tasks, calls, hadvances⟩ := hserves.step hown hd
    obtain ⟨emitted, hemitted⟩ := hadvances.emitted
    rw [calledBack_eq handle hemitted hadvances.fileSink hadvances.taskSink] at hcalled
    obtain rfl := Option.some.inj hcalled
    have hsounds : d'.Sound := (h.driver d hdriver).step hd
    have hstates : d'.states = d.states ++ announcedStates emitted.flatten := by
      unfold Driver.states
      rw [hemitted, List.flatten_append, announcedStates_append]
    constructor
    · intro e he
      obtain rfl := Option.some.inj he
      exact hsounds
    · intro e he htold
      obtain rfl := Option.some.inj he
      show (announcedIn (heard _ _ _ _).queue).getLast?.getD (heard _ _ _ _).controller.connectionState
        = _
      rw [announcedIn_heard, connectionState_heard, announced_batchesOf, List.getLast?_append]
      have hlast := last_told hsounds htold
      rw [hstates, List.getLast?_append] at hlast
      cases hnew : (announcedStates emitted.flatten).getLast? with
      | some state =>
        rw [hnew] at hlast
        exact Option.some.inj hlast
      | none =>
        -- nothing is announced, and the driver stays with what it has told
        rw [hnew] at hlast
        change d.states.getLast? = some (told d') at hlast
        have htold' : d.states ≠ [] := by
          intro hnone
          rw [hnone] at hlast
          cases hlast
        have hsame : told d = told d' :=
          Option.some.inj ((last_told (h.driver d hdriver) htold').symm.trans hlast)
        rw [← hsame]
        exact h.shown d hdriver htold'

/-! ## §4. Runs. -/

/-- Every reachable application shows what it was told last. -/
theorem shown_run {servers : List ServerItem} {credentials : QString → Option (List UInt8)}
    {labels : List AppLabel} {s : Application}
    (hrun : exec step (initial servers credentials) labels = some s) : s.Sound ∧ s.Shown := by
  refine exec_invariant (I := fun s => s.Sound ∧ s.Shown) ?_ ?_ hrun
  · exact fun _ _ _ h hstep => ⟨h.1.step hstep, h.2.step h.1 hstep⟩
  · exact ⟨Holds.initial servers credentials, fun _ => nofun, fun _ => nofun⟩

/-- **The state that is shown settles.**  In every run of the application, over any number of
sessions and with whatever earlier ones have left in the queue: once the driver of the session has
told its state, and no state is announced in the queue any more, the controller shows the state of
the driver, or `Failed` where the provider could not be created. -/
theorem status_settles {servers : List ServerItem} {credentials : QString → Option (List UInt8)}
    {labels : List AppLabel} {s : Application}
    (hrun : exec step (initial servers credentials) labels = some s) {d : Driver}
    (hdriver : s.driver = some d) (htold : d.states ≠ []) :
    (announcedIn s.ui.queue).getLast?.getD s.ui.controller.connectionState = told d
      ∧ (announcedIn s.ui.queue = [] → s.ui.controller.connectionState = told d) := by
  have h := (shown_run hrun).2.shown d hdriver htold
  refine ⟨h, fun hempty => ?_⟩
  rw [hempty] at h
  exact h

/-- Two servers, and the application has not begun. -/
def bothServers : Application :=
  initial [newServer [] (lit "a") 22 (lit "u") .mock [], newServer [] (lit "b") 22 (lit "u") .mock []]
    fun _ => none

/-- The connection to the first server breaks, and before this is shown the user has changed to the
second one, which then connects. -/
def changedServer : List AppLabel :=
  connecting ++ [.core .recv, .core (.fsReturns (.entries [])), .core .recv,
    .core (.sinkEmit 1 (.disconnected "gone")), .core .drain, .user (.connectToServer 1 none),
    .core (.createProvider (.ok ())), .core .recv, .core .recv, .core (.connectReturns (.ok ()) true),
    .deliver, .deliver, .deliver, .deliver]

theorem status_settles_changed : ∃ s d, exec step bothServers changedServer = some s
    ∧ s.driver = some d ∧ s.ui.controller.connectionState = told d ∧ told d = .connected := by
  obtain ⟨s, hrun⟩ : ∃ s, exec step bothServers changedServer = some s :=
    Option.isSome_iff_exists.mp (by decide)
  have hview : (exec step bothServers changedServer).map
      (fun s => (s.driver.map fun d => (d.states, told d), announcedIn s.ui.queue))
      = some (some ([.connecting, .connected], .connected), []) := by decide
  rw [hrun, Option.map_some, Option.some.injEq, Prod.mk.injEq] at hview
  obtain ⟨hdriver, hempty⟩ := hview
  obtain ⟨d, hd, hpair⟩ := Option.map_eq_some_iff.mp hdriver
  obtain ⟨hstates, htold⟩ := Prod.mk.inj hpair
  have hne : d.states ≠ [] := by
    rw [hstates]
    exact List.cons_ne_nil _ _
  exact ⟨s, d, hrun, hd, (status_settles hrun hd hne).2 hempty, htold⟩

end Application

end ResearchSSH.App
