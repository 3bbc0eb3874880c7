/-
  ResearchSSH.App.UserChanges — who changes files on the remote.

  Listings are asked for by the controller itself, after a connection, a save or a deletion.  What
  can change a file is only ever sent by the action of the user that asks for it, once, to the
  session there is then, and leaves the queue of its driver at most once.

  The driver of a destroyed session is waited for, but not for long.  One that has not ended by then
  goes on: it is detached, with `Shutdown` behind what is still queued, and its emitters are gone,
  so nothing of it comes back to the application.  It goes on asking its file provider for what is
  queued, beside the drivers of the sessions that follow.

  Main results:
    * `AppProcess.exec_app`          — what is detached changes nothing for the application.
    * `AppProcess.changed_step`      — one step.
    * `AppProcess.only_user_changes` — whole runs, session by session.
-/

import ResearchSSH.App.Application
import ResearchSSH.Core.ShutdownQueue

namespace ResearchSSH.App

open ResearchSSH.Core ResearchSSH.Library

/-! ## §1. Detached drivers. -/

/-- The driver of a session that is destroyed without waiting any longer: `Shutdown` is queued, the
cancel signal has fired, and the handle and the emitters are gone. -/
def givenUp (d : Driver) : Driver :=
  { d.signalShutdown with closed := true, fileEmitter := false, taskEmitter := false }

/-- The application, and the drivers that were given up, by the handles of their sessions. -/
structure AppProcess where
  app : Application
  detached : Nat → Option Driver

/-- What can happen next. -/
inductive ProcessLabel
  | app (l : AppLabel)
  /-- A step of a detached driver. -/
  | detached (handle : Nat) (a : Action)
  deriving Repr

namespace AppProcess

/-- The application as it starts. -/
def initial (servers : List ServerItem) (credentials : QString → Option (List UInt8)) :
    AppProcess :=
  { app := .initial servers credentials, detached := fun _ => none }

/-- The driver of the session that is there in `s` and not in `t` joins the detached ones. -/
def leave (detached : Nat → Option Driver) (s t : Application) : Nat → Option Driver :=
  match s.ui.controller.live with
  | some handle =>
    if t.ui.controller.live = some handle then detached
    else Function.update detached handle (s.driver.map givenUp)
  | none => detached

/-- One thing happens; a driver whose session is gone stays, detached. -/
def step (s : AppProcess) : ProcessLabel → Option AppProcess
  | .app l => (s.app.step l).map fun t => { app := t, detached := leave s.detached s.app t }
  | .detached handle a =>
    if a.ofHandle then none
    else ((s.detached handle).bind fun d => d.step a).map fun d' =>
      { s with detached := Function.update s.detached handle (some d') }

/-- The step of the application in a step, if it is one. -/
def ProcessLabel.ofApp : ProcessLabel → Option AppLabel
  | .app l => some l
  | .detached _ _ => none

variable {s t : AppProcess} {handle : Nat}

/-- The application makes a step, and a driver may be left detached. -/
theorem of_step_app {l : AppLabel} (h : s.step (.app l) = some t) :
    s.app.step l = some t.app ∧ t.detached = leave s.detached s.app t.app := by
  obtain ⟨u, hstep, rfl⟩ := Option.map_eq_some_iff.mp h
  exact ⟨hstep, rfl⟩

/-- A detached driver makes a step of its own. -/
theorem of_step_detached {a : Action} (h : s.step (.detached handle a) = some t) :
    ∃ d d', a.ofHandle = false ∧ s.detached handle = some d ∧ d.step a = some d' ∧
      t = { s with detached := Function.update s.detached handle (some d') } := by
  obtain ⟨hown, h⟩ := Option.ite_none_left_eq_some.mp h
  obtain ⟨d', hstep, rfl⟩ := Option.map_eq_some_iff.mp h
  obtain ⟨d, hd, hstep⟩ := Option.bind_eq_some_iff.mp hstep
  exact ⟨d, d', Bool.not_eq_true _ ▸ hown, hd, hstep, rfl⟩

/-- **Nothing comes back from a detached driver**: a run is, for the application, the run of its own
steps. -/
theorem exec_app (labels : List ProcessLabel) : ∀ {s t : AppProcess},
    exec step s labels = some t →
      exec Application.step s.app (labels.filterMap ProcessLabel.ofApp) = some t.app := by
  induction labels with
  | nil =>
    intro s t h
    rw [exec_nil, Option.some.injEq] at h
    rw [h]
    rfl
  | cons l labels ih =>
    intro s t h
    rw [exec_cons] at h
    obtain ⟨u, hstep, hrest⟩ := Option.bind_eq_some_iff.mp h
    have hrest' := ih hrest
    cases l with
    | app l =>
      rw [List.filterMap_cons_some (rfl : ProcessLabel.ofApp (.app l) = some l), exec_cons,
        (of_step_app hstep).1]
      exact hrest'
    | detached handle a =>
      obtain ⟨d, d', -, -, -, rfl⟩ := of_step_detached hstep
      rw [List.filterMap_cons_none (rfl : ProcessLabel.ofApp (.detached handle a) = none)]
      exact hrest'

end AppProcess

/-! ## §2. Changes and intents. -/

/-- The operations that can change something, out of those that providers are asked for. -/
def mutating (calls : List ProviderCall) : List FsOp :=
  (calls.filterMap ProviderCall.fileOp).filterMap mutation

/-- The changes that a driver has asked its file provider for, from `before` to `after`. -/
def changedBy (before after : Option Driver) : List FsOp :=
  match before, after with
  | some d, some d' => mutating (added d.calls d'.calls)
  | _, _ => []

/-- The changes that are still in the queue of the driver. -/
def queuedIn (driver : Option Driver) : List FsOp :=
  match driver with
  | some d => mutations d.cmdRx
  | none => []

/-- The change that the user asks for. -/
def Application.intended (s : Application) : AppLabel → List FsOp
  | .user action => (action.intent s.ui.controller).toList
  | _ => []

namespace AppProcess

/-- The driver of the session with this handle, while the session is there and afterwards. -/
def driverOf (s : AppProcess) (handle : Nat) : Option Driver :=
  if s.app.ui.controller.live = some handle then s.app.driver else s.detached handle

/-- What the user asks for in the session with this handle. -/
def intended (handle : Nat) (s : AppProcess) : ProcessLabel → List FsOp
  | .app l => if s.app.ui.controller.live = some handle then s.app.intended l else []
  | .detached _ _ => []

/-- All changes of a run that the session's file provider is asked for, in order. -/
def changes (handle : Nat) : AppProcess → List ProcessLabel → List FsOp
  | _, [] => []
  | s, l :: ls =>
    match s.step l with
    | some t => changedBy (s.driverOf handle) (t.driverOf handle) ++ changes handle t ls
    | none => []

/-- All that the user asks for in the session, in order. -/
def intents (handle : Nat) : AppProcess → List ProcessLabel → List FsOp
  | _, [] => []
  | s, l :: ls =>
    match s.step l with
    | some t => intended handle s l ++ intents handle t ls
    | none => []

end AppProcess

/-! ## §3. One step of a driver. -/

/-- Nothing is added. -/
theorem added_self {α : Type} (l : List α) : added l l = [] := List.drop_length

/-- A driver that has called nobody, with the same changes in its queue. -/
theorem changedBy_same {driver driver' : Option Driver}
    (hcalls : driver'.map Driver.calls = driver.map Driver.calls)
    (hqueue : queuedIn driver' = queuedIn driver) :
    changedBy driver driver' ++ queuedIn driver' = queuedIn driver := by
  have hnone : changedBy driver driver' = [] := by
    cases driver with
    | none => rfl
    | some d =>
      cases driver' with
      | none => rfl
      | some d' =>
        have hsame : d'.calls = d.calls := Option.some.inj hcalls
        show mutating (added d.calls d'.calls) = []
        rw [hsame, added_self]
        rfl
  rw [hnone, hqueue]
  rfl

/-- What a step of a driver asks for was in its queue. -/
theorem changedBy_step {d d' : Driver} (h : d.AsksQueued d') :
    (changedBy (some d) (some d') ++ queuedIn (some d')).Sublist (queuedIn (some d)) := by
  obtain ⟨calls, hcalls, hasked⟩ := h
  show (mutating (added d.calls d'.calls) ++ mutations d'.cmdRx).Sublist (mutations d.cmdRx)
  rw [hcalls, added_append]
  unfold mutating mutations
  rw [← List.filterMap_append]
  exact hasked.filterMap mutation

/-- Giving a driver up calls nobody, and puts no change in its queue. -/
theorem changedBy_givenUp (driver : Option Driver) :
    changedBy driver (driver.map givenUp) ++ queuedIn (driver.map givenUp) = queuedIn driver := by
  apply changedBy_same
  · cases driver with
    | none => rfl
    | some d =>
      show some d.signalShutdown.calls = some d.calls
      unfold Driver.signalShutdown
      dsimp only
      split <;> rfl
  · cases driver with
    | none => rfl
    | some d =>
      show mutations d.signalShutdown.cmdRx = mutations d.cmdRx
      rw [Driver.cmdRx_signalShutdown, Traffic.mutations_append]
      exact List.append_nil _

/-! ## §4. One step of the application. -/

namespace Application

variable {s t : Application}

/-- The controller has sent something, and the driver has done nothing. -/
theorem changed_handOver {a b : Traffic} {ops : List FsOp} {driver : Option Driver}
    (hlinked : Linked a.link driver) (hasks : Traffic.Asks ops a b) :
    (changedBy driver (handOver a.link driver b.link)
      ++ queuedIn (handOver a.link driver b.link)).Sublist (queuedIn driver ++ ops) := by
  obtain ⟨new, hsends, hops⟩ := hasks
  have hlink := hsends.link
  cases hold : a.link with
  | none =>
    rw [hold, Option.map_none] at hlink
    rw [hlink]
    cases driver <;> exact List.nil_sublist _
  | some l =>
    obtain ⟨handle, sent⟩ := l
    rw [hold] at hlink hlinked
    cases hlinked with
    | on hserves =>
    rw [hlink, Option.map_some, handOver_more]
    show (mutating (added _ _) ++ mutations (_ ++ new)).Sublist (mutations _ ++ ops)
    rw [added_self, Traffic.mutations_append]
    show (mutations _ ++ mutations new).Sublist (mutations _ ++ ops)
    exact hops.append_left _

/-- Requests leave the session. -/
theorem live_of_asks {c d : AppController} {a : Traffic} {ops : List FsOp}
    (hlink : a.link = c.traffic.link) (hasks : Traffic.Asks ops a d.traffic) : d.live = c.live := by
  obtain ⟨new, hsends, -⟩ := hasks
  rw [live_eq, live_eq, hsends.link, hlink, Option.map_map]
  rfl

/-- The session stays, and what its driver is asked for was in the queue or is what the user asks
for; or the session is another one, whose driver has been asked for nothing, or there is none. -/
theorem changed_step {l : AppLabel} (h : s.Sound) (hstep : s.step l = some t) :
    (t.ui.controller.live = s.ui.controller.live ∧
      (changedBy s.driver t.driver ++ queuedIn t.driver).Sublist
        (queuedIn s.driver ++ s.intended l)) ∨
    (∀ handle, t.ui.controller.live = some handle →
      handle = s.ui.nextHandle ∧ queuedIn t.driver = []) := by
  cases l with
  | user action =>
    rw [of_step_user hstep]
    cases action.traffic_run s.ui.nextHandle h.settled with
    | asks hasks => exact .inl ⟨live_of_asks rfl hasks, changed_handOver h.linked hasks⟩
    | renewed hfiles htasks hlink _ =>
      right
      intro handle hlive
      obtain ⟨l, hl, rfl⟩ := Option.map_eq_some_iff.mp ((live_eq _).symm.trans hlive)
      obtain ⟨hhandle, hquiet⟩ := hlink l hl
      refine ⟨hhandle, ?_⟩
      change (action.run s.ui.nextHandle s.ui.controller).traffic.link = some l at hl
      -- the new session has a new driver
      have hspawned : handOver s.ui.controller.traffic.link s.driver (some l)
          = some (.spawned l.2) := by
        cases hold : s.ui.controller.traffic.link with
        | none => rfl
        | some l' =>
          have hyoung := h.young l' hold
          exact if_neg (by omega)
      show queuedIn (handOver s.ui.controller.traffic.link s.driver
        (action.run s.ui.nextHandle s.ui.controller).traffic.link) = []
      rw [hl, hspawned]
      exact Traffic.mutations_of_requestIds hquiet
  | deliver =>
    obtain ⟨posted, rest, hqueue, rfl⟩ := of_step_deliver hstep
    have hasks := s.ui.controller.traffic_ingest posted.batch
    exact .inl ⟨live_of_asks (a := s.ui.controller.traffic.answered posted.batch) rfl hasks,
      changed_handOver (a := s.ui.controller.traffic.answered posted.batch) h.linked hasks⟩
  | core a =>
    obtain ⟨handle, d, d', batches, hown, hlive, hdriver, hd, hcalled, rfl⟩ := of_step_core hstep
    refine .inl ⟨?_, ?_⟩
    · rw [live_eq, live_eq, traffic_heard]
    · show (changedBy s.driver (some d') ++ queuedIn (some d')).Sublist (queuedIn s.driver ++ [])
      rw [hdriver, List.append_nil]
      exact changedBy_step (d.asksQueued_step hown hd)

/-- Handles are given out one after another. -/
theorem nextHandle_le {l : AppLabel} (hstep : s.step l = some t) :
    s.ui.nextHandle ≤ t.ui.nextHandle := by
  cases l with
  | user action =>
    rw [of_step_user hstep]
    exact Nat.le_succ _
  | deliver =>
    obtain ⟨posted, rest, hqueue, rfl⟩ := of_step_deliver hstep
    exact Nat.le_refl _
  | core a =>
    obtain ⟨handle, d, d', batches, hown, hlive, hdriver, hd, hcalled, rfl⟩ := of_step_core hstep
    exact Nat.le_refl _

/-- The live session's handle is an old one. -/
theorem Sound.live_lt (h : s.Sound) {handle : Nat} (hlive : s.ui.controller.live = some handle) :
    handle < s.ui.nextHandle := by
  obtain ⟨l, hl, rfl⟩ := Option.map_eq_some_iff.mp ((live_eq _).symm.trans hlive)
  exact h.young l hl

end Application

namespace AppProcess

variable {s t : AppProcess} {handle : Nat}

/-! ## §5. One step of all. -/

/-- The sessions of the detached drivers are gone. -/
structure Sound (s : AppProcess) : Prop where
  app : s.app.Sound
  gone : ∀ handle d, s.detached handle = some d →
    handle < s.app.ui.nextHandle ∧ s.app.ui.controller.live ≠ some handle

/-- There is no driver at the start. -/
theorem sound_initial (servers : List ServerItem) (credentials : QString → Option (List UInt8)) :
    (initial servers credentials).Sound :=
  ⟨Application.Holds.initial servers credentials, fun _ _ => nofun⟩

/-- While the session stays, nobody is given up. -/
theorem leave_of_live {detached : Nat → Option Driver} {s t : Application}
    (hlive : t.ui.controller.live = s.ui.controller.live) : leave detached s t = detached := by
  unfold leave
  rw [hlive]
  cases s.ui.controller.live with
  | none => rfl
  | some handle => exact if_pos rfl

/-- Who is detached after a step: the driver of the session that is gone, or one from before. -/
theorem leave_apply {detached : Nat → Option Driver} {s t : Application} (handle : Nat)
    (hlive : t.ui.controller.live ≠ some handle) :
    leave detached s t handle = if s.ui.controller.live = some handle then s.driver.map givenUp
      else detached handle := by
  unfold leave
  cases hold : s.ui.controller.live with
  | none => rfl
  | some handle' =>
    dsimp only
    by_cases hsame : handle = handle'
    · subst hsame
      rw [if_neg hlive, if_pos rfl, Function.update_self]
    · rw [if_neg fun heq => hsame (Option.some.inj heq).symm]
      split
      · rfl
      · exact Function.update_of_ne hsame _ _

/-- A detached driver is an old one or the one just left. -/
theorem of_leave {detached : Nat → Option Driver} {s t : Application} {handle : Nat} {d : Driver}
    (h : leave detached s t handle = some d) :
    s.ui.controller.live = some handle ∨ detached handle = some d := by
  unfold leave at h
  cases hold : s.ui.controller.live with
  | none =>
    rw [hold] at h
    exact .inr h
  | some handle' =>
    rw [hold] at h
    dsimp only at h
    by_cases hsame : handle = handle'
    · exact .inl (congrArg some hsame.symm)
    · right
      split at h
      · exact h
      · exact (Function.update_of_ne hsame _ _).symm.trans h

/-- **One step** keeps it. -/
theorem Sound.step {l : ProcessLabel} (h : s.Sound) (hstep : s.step l = some t) : t.Sound := by
  cases l with
  | detached handle a =>
    obtain ⟨d, d', -, hd, -, rfl⟩ := of_step_detached hstep
    refine ⟨h.app, fun handle' e he => ?_⟩
    by_cases hsame : handle' = handle
    · subst hsame
      exact h.gone _ d hd
    · exact h.gone _ e ((Function.update_of_ne hsame _ _).symm.trans he)
  | app l =>
    obtain ⟨happ, hdetached⟩ := of_step_app hstep
    have hnext := Application.nextHandle_le happ
    refine ⟨h.app.step happ, fun handle d hd => ?_⟩
    rw [hdetached] at hd
    obtain ⟨hlive, -⟩ | hrenewed := Application.changed_step h.app happ
    · rw [leave_of_live hlive] at hd
      obtain ⟨hlt, hne⟩ := h.gone handle d hd
      exact ⟨by omega, hlive ▸ hne⟩
    · have hold : handle < s.app.ui.nextHandle := by
        obtain hwas | hd := of_leave hd
        · exact h.app.live_lt hwas
        · exact (h.gone handle d hd).1
      refine ⟨by omega, fun hnow => ?_⟩
      have hnew := (hrenewed handle hnow).1
      omega

/-- **One step**: what the session's file provider is asked for was in the queue of its driver before,
or is what the user asks for. -/
theorem changed_step {l : ProcessLabel} (h : s.Sound) (hstep : s.step l = some t) (handle : Nat) :
    (changedBy (s.driverOf handle) (t.driverOf handle) ++ queuedIn (t.driverOf handle)).Sublist
      (queuedIn (s.driverOf handle) ++ intended handle s l) := by
  have hstays : ∀ {driver driver' : Option Driver}, driver' = driver →
      changedBy driver driver' ++ queuedIn driver' = queuedIn driver := by
    rintro driver _ rfl
    exact changedBy_same rfl rfl
  cases l with
  | detached handle' a =>
    obtain ⟨d, d', hown, hd, hmoved, rfl⟩ := of_step_detached hstep
    show List.Sublist _ (_ ++ [])
    rw [List.append_nil]
    unfold driverOf
    dsimp only
    by_cases hlive : s.app.ui.controller.live = some handle
    · rw [if_pos hlive, if_pos hlive, hstays rfl]
    · rw [if_neg hlive, if_neg hlive]
      by_cases hsame : handle = handle'
      · subst hsame
        rw [Function.update_self, hd]
        exact changedBy_step (d.asksQueued_step hown hmoved)
      · rw [Function.update_of_ne hsame, hstays rfl]
  | app l =>
    obtain ⟨happ, hdetached⟩ := of_step_app hstep
    have happly := @leave_apply s.detached s.app t.app handle
    unfold driverOf intended
    rw [hdetached]
    dsimp only
    by_cases hnow : t.app.ui.controller.live = some handle
    · rw [if_pos hnow]
      obtain ⟨hlive, hchanged⟩ | hrenewed := Application.changed_step h.app happ
      · rw [← hlive, if_pos hnow, if_pos hnow]
        exact hchanged
      · -- a new session, whose handle nobody had
        obtain ⟨hnew, hnothing⟩ := hrenewed handle hnow
        have hbefore : s.app.ui.controller.live ≠ some handle := by
          intro hlive
          have hlt := h.app.live_lt hlive
          omega
        have hunused : s.detached handle = none := by
          rw [Option.eq_none_iff_forall_ne_some]
          intro d hd
          have hlt := (h.gone handle d hd).1
          omega
        rw [if_neg hbefore, if_neg hbefore, hunused, hnothing]
        exact List.nil_sublist _
    · rw [if_neg hnow, happly hnow]
      by_cases hbefore : s.app.ui.controller.live = some handle
      · -- the session is gone, and its driver given up
        rw [if_pos hbefore, if_pos hbefore, if_pos hbefore, changedBy_givenUp]
        exact List.sublist_append_left _ _
      · rw [if_neg hbefore, if_neg hbefore, if_neg hbefore, hstays rfl, List.append_nil]

/-! ## §6. Runs. -/

/-- What a driver changes was queued or is asked for, in that order. -/
theorem changes_sublist (handle : Nat) (ls : List ProcessLabel) (h : s.Sound) :
    (changes handle s ls).Sublist (queuedIn (s.driverOf handle) ++ intents handle s ls) := by
  induction ls generalizing s with
  | nil => exact List.nil_sublist _
  | cons l ls ih =>
    unfold changes intents
    cases hstep : s.step l with
    | none => exact List.nil_sublist _
    | some t =>
      have hfirst := changed_step h hstep handle
      have hrest := ih (h.step hstep)
      -- what is still queued between the two parts is in the first one
      refine (hrest.append_left (changedBy (s.driverOf handle) (t.driverOf handle))).trans ?_
      dsimp only
      rw [← List.append_assoc, ← List.append_assoc]
      exact hfirst.append_right (intents handle t ls)

/-- **Nobody but the user changes files.**  Over every run of the application, with any number of
sessions one after another, drivers that go on detached, providers that answer anything, cancelled and
refused requests, and results that come late: the operations that the file provider of a session is
asked for and that can change something are, in their order, some of those that actions of the user
have asked for in this session, each of them at most once. -/
theorem only_user_changes (servers : List ServerItem)
    (credentials : QString → Option (List UInt8)) (labels : List ProcessLabel) (handle : Nat) :
    (changes handle (initial servers credentials) labels).Sublist
      (intents handle (initial servers credentials) labels) := by
  have hsound := sound_initial servers credentials
  exact changes_sublist handle labels hsound

/-- A listing is under way and a directory is to be made, when the user goes to another server and
makes one there. -/
def movedOn : List AppLabel :=
  Application.connecting ++ [.user (.makeDir (lit "/h") (lit "d")), .core .recv,
      .user (.connectToServer 1 none)] ++ Application.connecting.tail
    ++ [.user (.makeDir (lit "/h") (lit "e")), .core .recv, .core (.fsReturns (.entries [])),
      .core .recv]

/-- The driver of the first session makes its directory behind that of the second. -/
example :
    let start := initial [newServer [] (lit "a") 22 (lit "u") .mock [],
      newServer [] (lit "b") 22 (lit "u") .mock []] fun _ => none
    let run := movedOn.map ProcessLabel.app ++ [.detached 0 .interrupted, .detached 0 .recv]
    (exec step start run).isSome ∧ (changes 0 start run, changes 2 start run)
      = ([.mkdir (toCore (lit "/h/d"))], [.mkdir (toCore (lit "/h/e"))]) := by decide

end AppProcess

end ResearchSSH.App
