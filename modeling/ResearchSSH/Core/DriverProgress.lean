/-
  ResearchSSH.Core.DriverProgress — a driver that is left alone comes to rest.

  The driver is at rest where it has returned, or where both of its channels are empty and it waits
  for something to come.  Away from rest it can always go on, and every step of its own brings it
  nearer, whatever its provider answers and whether the cancel signal wins a race or not.  What it
  hands out on the way is paid for as well: it makes work for others.

  Main results:
    * `work_lowers`  — a step of its own, and what it has handed out.
    * `work_goes_on` — the driver is never stuck.
    * `owed_of_rest` — at rest every request has its result.
-/

import ResearchSSH.Core.RequestQueue
import ResearchSSH.Library.Quiescence

namespace ResearchSSH.Core

open ResearchSSH.Library

/-- The steps that a driver takes by itself, with what its provider answers. -/
def Action.ownWork : Action → Bool
  | .createProvider _ | .recv | .drain | .connectReturns _ _ | .sendReturns _ | .fsReturns _
  | .fsUnavailable | .execReturns _ | .disconnectReturns | .interrupted => true
  | .submit _ | .close | .setFileEmitter | .setTaskEmitter | .cancel | .sinkEmit _ _
  | .gatePrompt _ => false

/-! ## §1. What is still to do. -/

/-- The steps that a command can take, its results included. -/
def Command.effort : Command → Nat
  | .connect => 8
  | _ => 4

/-- The steps from a phase to the end of the loop. -/
def Phase.effort : Phase → Nat
  | .creating => 4
  | .noProvider => 0
  | .select => 2
  | .pollProvider => 3
  | .connecting => 8
  | .cancelledConnect => 5
  | .sending | .disconnecting | .fsOp _ _ | .execOp _ => 4
  | .shutdown => 1
  | .stopped => 0

/-- What a batch of events can cost the one who takes it: a connection makes it ask for a listing. -/
def batchEffort (events : List SessionEvent) : Nat :=
  1 + 4 * (announcedStates events).count .connected

namespace Driver

variable {d d' : Driver} {a : Action}

/-- The driver has returned, or waits for something to come. -/
def AtRest (d : Driver) : Prop :=
  d.ended = true
    ∨ (d.phase = .select ∨ d.phase = .pollProvider) ∧ d.cmdRx = [] ∧ d.provRx = [] ∧ d.closed = false

instance (d : Driver) : Decidable d.AtRest := inferInstanceAs (Decidable (_ ∨ _))

/-- Events of the provider are taken in one turn, once the queue has been found empty. -/
def eventEffort (d : Driver) : Nat :=
  if d.provRx = [] then 0 else if d.phase = .pollProvider then 1 else 3

/-- What the driver still has to do. -/
def remaining (d : Driver) : Nat :=
  d.phase.effort + total (d.cmdRx.map Command.effort) + d.eventEffort

/-- What was handed out, by what it can cost. -/
def handedOut (d : Driver) : Nat :=
  total (d.emitted.map batchEffort) + d.fileSink.length + d.taskSink.length

/-! ## §2. What was handed out. -/

theorem handedOut_emitBatch (d : Driver) (events : List SessionEvent) :
    (d.emitBatch events).handedOut = d.handedOut + batchEffort events := by
  show total ((d.emitted ++ [events]).map batchEffort) + d.fileSink.length + d.taskSink.length = _
  rw [List.map_append, total_append]
  simp only [List.map_cons, List.map_nil, total_cons, total_nil]
  unfold handedOut
  omega

theorem handedOut_setState (d : Driver) (s : RsSessionState) :
    (d.setState s).handedOut = d.handedOut + if s = .connected then 5 else 1 := by
  show (Driver.emitBatch { d with state := s } [.stateChanged s]).handedOut = _
  rw [handedOut_emitBatch]
  congr 1
  cases s <;> rfl

theorem handedOut_emitError (d : Driver) (code : RsErrorCode) (message : String) :
    (d.emitError code message).handedOut = d.handedOut + 1 := handedOut_emitBatch d _

theorem handedOut_deliverFile (d : Driver) (r : FileResult) :
    (d.deliverFile r).handedOut ≤ d.handedOut + 1 := by
  unfold handedOut deliverFile
  dsimp only
  split
  · rw [List.length_append, List.length_singleton]
    omega
  · omega

theorem handedOut_deliverTask (d : Driver) (r : ExecResult) :
    (d.deliverTask r).handedOut ≤ d.handedOut + 1 := by
  unfold handedOut deliverTask
  dsimp only
  split
  · rw [List.length_append, List.length_singleton]
    omega
  · omega

/-- No event of a provider brings a connection. -/
theorem transition_ne_connected (evs : List ProviderEvent) :
    (collectAll evs).2 ≠ some .connected := by
  rw [collectAll_transition]
  intro hlast
  obtain ⟨ev, -, hev⟩ := List.mem_filterMap.mp (List.mem_of_getLast? hlast)
  cases ev <;> cases hev

/-- A drain asks for one delivery at most. -/
theorem handedOut_drainBatches (evs : List ProviderEvent) :
    total ((drainBatches evs).map batchEffort) ≤ 1 := by
  have hquiet := collectAll_announces evs
  have hnever := transition_ne_connected evs
  unfold drainBatches
  generalize collectAll evs = collected at hquiet hnever ⊢
  obtain ⟨events, _ | newState⟩ := collected
  · cases events with
    | nil => exact Nat.zero_le 1
    | cons e es =>
      have hnone : announcedStates (e :: es) = [] := hquiet
      simp only [List.map_cons, List.map_nil, total_cons, total_nil, batchEffort, hnone]
      decide
  · have hnone : announcedStates events = [] := hquiet
    have hother : newState ≠ .connected := fun h => hnever (congrArg some h)
    simp only [List.map_cons, List.map_nil, total_cons, total_nil, batchEffort,
      announcedStates_append, hnone, announcedStates_stateChanged, announcedStates_nil]
    rw [List.nil_append, List.count_singleton, beq_eq_false_iff_ne.mpr hother]
    decide

/-! ## §3. A step of the driver's own. -/

/-- Between phases that do not poll the provider, only the phase counts. -/
theorem remaining_of (d d' : Driver) (hcmd : d'.cmdRx = d.cmdRx) (hprov : d'.provRx = d.provRx)
    (hold : d.phase ≠ .pollProvider) (hnew : d'.phase ≠ .pollProvider) :
    d'.remaining + d.phase.effort = d.remaining + d'.phase.effort := by
  unfold remaining eventEffort
  rw [hcmd, hprov, if_neg hold, if_neg hnew]
  omega

/-- From the select loop into another phase, with both channels as they were. -/
theorem remaining_goes (hphase : d.phase = .select) {e : Driver} (hcmd : e.cmdRx = d.cmdRx)
    (hprov : e.provRx = d.provRx) (hnew : e.phase ≠ .pollProvider) :
    e.remaining + 2 = d.remaining + e.phase.effort := by
  have hself : d.phase.effort = 2 := by rw [hphase]; rfl
  have hselect : d.phase ≠ .pollProvider := by simp [hphase]
  have hmove := remaining_of _ _ hcmd hprov hselect hnew
  omega

/-- Shutting down takes one step more, or none. -/
theorem beginShutdown_lowers (hphase : d.phase = .select) :
    d.beginShutdown.remaining + d.beginShutdown.handedOut < d.remaining + d.handedOut + 4 := by
  unfold beginShutdown
  split
  · have hmove := remaining_goes (e := (d.call .disconnect).goto .shutdown) hphase rfl rfl (by simp)
    have hout : ((d.call .disconnect).goto .shutdown).handedOut = d.handedOut := rfl
    have heffort : ((d.call .disconnect).goto .shutdown).phase.effort = 1 := rfl
    omega
  · have hmove := remaining_goes (e := d.goto .stopped) hphase rfl rfl (by simp)
    have hout : (d.goto .stopped).handedOut = d.handedOut := rfl
    have heffort : (d.goto .stopped).phase.effort = 0 := rfl
    omega

/-- A connect is refused with an error, or announced and awaited. -/
theorem beginConnect_lowers (hphase : d.phase = .select) :
    d.beginConnect.remaining + d.beginConnect.handedOut < d.remaining + d.handedOut + 8 := by
  unfold beginConnect
  split
  · have hsame : (d.emitError .invalidState "already connecting or connected").remaining
        = d.remaining := rfl
    have hout := d.handedOut_emitError .invalidState "already connecting or connected"
    omega
  · generalize hnext : (({ d.setState .connecting with
        attempts := (d.setState .connecting).attempts + 1, live := none } : Driver).call
          (.connect ((d.setState .connecting).attempts + 1))).awaitIn .connecting = e
    have hmove := remaining_goes (e := e) hphase (by rw [← hnext]; rfl) (by rw [← hnext]; rfl)
      (by rw [← hnext]; simp)
    have hout : e.handedOut = d.handedOut + 1 := by
      rw [← hnext]
      exact d.handedOut_setState .connecting
    have heffort : e.phase.effort = 8 := by rw [← hnext]; rfl
    show e.remaining + e.handedOut < _
    omega

/-- Bytes are refused with an error, or their write is awaited. -/
theorem beginSend_lowers (hphase : d.phase = .select) (data : List UInt8) :
    (d.beginSend data).remaining + (d.beginSend data).handedOut < d.remaining + d.handedOut + 4 := by
  unfold beginSend
  split
  · have hsame : (d.emitError .notConnected "cannot send while not connected").remaining
        = d.remaining := rfl
    have hout := d.handedOut_emitError .notConnected "cannot send while not connected"
    omega
  · have hmove := remaining_goes (e := (d.call (.send data)).awaitIn .sending) hphase rfl rfl
      (by simp)
    have hout : ((d.call (.send data)).awaitIn .sending).handedOut = d.handedOut := rfl
    have heffort : ((d.call (.send data)).awaitIn .sending).phase.effort = 4 := rfl
    omega

/-- A disconnect has nothing to do, or is announced and awaited. -/
theorem beginDisconnect_lowers (hphase : d.phase = .select) :
    d.beginDisconnect.remaining + d.beginDisconnect.handedOut
      < d.remaining + d.handedOut + 4 := by
  unfold beginDisconnect
  dsimp only
  split
  · have hsame : ({ d with live := none } : Driver).remaining = d.remaining := rfl
    have hout : ({ d with live := none } : Driver).handedOut = d.handedOut := rfl
    omega
  · generalize hnext : (({ ({ d with live := none } : Driver).setState .disconnecting with
        fileProvider := none } : Driver).call .disconnect).goto .disconnecting = e
    have hmove := remaining_goes (e := e) hphase (by rw [← hnext]; rfl) (by rw [← hnext]; rfl)
      (by rw [← hnext]; simp)
    have hout : e.handedOut = d.handedOut + 1 := by
      rw [← hnext]
      exact d.handedOut_setState .disconnecting
    have heffort : e.phase.effort = 4 := by rw [← hnext]; rfl
    omega

/-- A file operation is awaited; where there is no provider, its refusal is. -/
theorem beginFs_lowers (hphase : d.phase = .select) (requestId : UInt64) (op : FsOp) :
    (d.beginFs requestId op).remaining + (d.beginFs requestId op).handedOut
      < d.remaining + d.handedOut + 4 := by
  have hmove := remaining_goes (e := d.beginFs requestId op) hphase
    (by unfold beginFs; split <;> rfl) (by unfold beginFs; split <;> rfl) (by simp [beginFs])
  have hout : (d.beginFs requestId op).handedOut = d.handedOut := by
    unfold beginFs
    split <;> rfl
  have heffort : (d.beginFs requestId op).phase.effort = 4 := rfl
  omega

/-- A command for the shell is answered with an error, or awaited. -/
theorem beginExec_lowers (hphase : d.phase = .select) (requestId : UInt64) (command : String)
    (timeoutMs : UInt64) :
    (d.beginExec requestId command timeoutMs).remaining
        + (d.beginExec requestId command timeoutMs).handedOut
      < d.remaining + d.handedOut + 4 := by
  unfold beginExec
  split
  · generalize hr : (⟨requestId, .error .notConnected "cannot execute while not connected"⟩
      : ExecResult) = r
    have hsame : (d.deliverTask r).remaining = d.remaining := rfl
    have hout := d.handedOut_deliverTask r
    omega
  · generalize hnext : (d.call (.exec command timeoutMs)).awaitIn (.execOp requestId) = e
    have hmove := remaining_goes (e := e) hphase (by rw [← hnext]; rfl) (by rw [← hnext]; rfl)
      (by rw [← hnext]; simp)
    have hout : e.handedOut = d.handedOut := by rw [← hnext]; rfl
    have heffort : e.phase.effort = 4 := by rw [← hnext]; rfl
    omega

/-- The arms of the command match. -/
theorem handle_lowers (hphase : d.phase = .select) (cmd : Command) :
    (d.handle cmd).remaining + (d.handle cmd).handedOut
      < d.remaining + d.handedOut + cmd.effort := by
  -- a secret or a key is kept, and nothing else changes
  have hkept : ∀ e : Driver, e.remaining = d.remaining → e.handedOut = d.handedOut →
      e.remaining + e.handedOut < d.remaining + d.handedOut + 4 := by
    intro e hsame hout
    omega
  cases cmd with
  | shutdown => exact beginShutdown_lowers hphase
  | setSecret secret => exact hkept _ rfl rfl
  | setPrivateKey keyPath passphrase => exact hkept _ rfl rfl
  | connect => exact beginConnect_lowers hphase
  | send data => exact beginSend_lowers hphase data
  | disconnect => exact beginDisconnect_lowers hphase
  | fs requestId op => exact beginFs_lowers hphase requestId op
  | exec requestId command timeoutMs => exact beginExec_lowers hphase requestId command timeoutMs

/-- Receiving a command leaves less to do. -/
theorem recv_lowers (hphase : d.phase = .select) (hrest : ¬ d.AtRest) :
    d.recv.remaining + d.recv.handedOut < d.remaining + d.handedOut := by
  unfold recv
  split
  · next hcmd =>
    split
    · -- without a handle an empty queue ends the loop
      have hself : d.remaining = 2 + d.eventEffort := by
        unfold remaining
        rw [hphase, hcmd]
        rfl
      have hlater : ∀ p : Phase, p.effort < 2 → p ≠ .pollProvider →
          (d.goto p).remaining < d.remaining := by
        intro p hlow hpoll
        have hmove := remaining_of d (d.goto p) rfl rfl (by simp [hphase]) hpoll
        have heffort : d.phase.effort = 2 := by rw [hphase]; rfl
        have hnew : (d.goto p).phase.effort = p.effort := rfl
        omega
      unfold beginShutdown
      split
      · have hlow := hlater .shutdown (by decide) (by simp)
        show (d.goto .shutdown).remaining + d.handedOut < _
        omega
      · have hlow := hlater .stopped (by decide) (by simp)
        show (d.goto .stopped).remaining + d.handedOut < _
        omega
    · next hopen =>
      -- there is something in the other channel
      have hprov : d.provRx ≠ [] := by
        intro hempty
        exact hrest (.inr ⟨.inl hphase, hcmd, hempty, by simpa using hopen⟩)
      have hself : d.remaining = 5 := by
        unfold remaining eventEffort
        rw [if_neg hprov, hphase, hcmd]
        rfl
      have hnew : (d.goto .pollProvider).remaining = 4 := by
        show 3 + total (d.cmdRx.map Command.effort)
          + (if d.provRx = [] then 0 else if (Phase.pollProvider : Phase) = .pollProvider then 1 else 3)
          = 4
        rw [if_neg hprov, if_pos rfl, hcmd]
        rfl
      have hout : (d.goto .pollProvider).handedOut = d.handedOut := rfl
      omega
  · next cmd rest hcmd =>
    have hlower := handle_lowers (d := { d with cmdRx := rest, dequeued := d.dequeued ++ [cmd] })
      hphase cmd
    have hself : d.remaining
        = Driver.remaining { d with cmdRx := rest, dequeued := d.dequeued ++ [cmd] } + cmd.effort := by
      show d.phase.effort + total (d.cmdRx.map Command.effort) + d.eventEffort
        = d.phase.effort + total (rest.map Command.effort) + d.eventEffort + cmd.effort
      rw [hcmd, List.map_cons, total_cons]
      omega
    have hout : Driver.handedOut { d with cmdRx := rest, dequeued := d.dequeued ++ [cmd] }
        = d.handedOut := rfl
    omega

/-- A drain leaves less to do. -/
theorem drain_lowers (hphase : d.phase = .pollProvider) :
    d.drain.remaining + d.drain.handedOut < d.remaining + d.handedOut := by
  have hbatches := handedOut_drainBatches (d.provRx.map Prod.snd)
  rw [drain_eq]
  generalize hstate : (collectAll (d.provRx.map Prod.snd)).2.getD d.state = newState
  generalize hmore : drainBatches (d.provRx.map Prod.snd) = batches at hbatches ⊢
  have hout : Driver.handedOut { d with
      phase := .select, provRx := [], state := newState, emitted := d.emitted ++ batches }
        = d.handedOut + total (batches.map batchEffort) := by
    show total ((d.emitted ++ batches).map batchEffort) + d.fileSink.length + d.taskSink.length = _
    rw [List.map_append, total_append]
    unfold handedOut
    omega
  have hnew : Driver.remaining { d with
      phase := .select, provRx := [], state := newState, emitted := d.emitted ++ batches }
        = 2 + total (d.cmdRx.map Command.effort) := rfl
  have hself : d.remaining = 3 + total (d.cmdRx.map Command.effort) + d.eventEffort := by
    unfold remaining
    rw [hphase]
    rfl
  by_cases hprov : d.provRx = []
  · -- nothing is handed out, and there is a command or no handle
    have hnone : batches = [] := by
      rw [← hmore, hprov]
      rfl
    rw [hnone, List.map_nil, total_nil] at hout
    rw [hnone] at hnew ⊢
    omega
  · have hevents : d.eventEffort = 1 := by
      unfold eventEffort
      rw [if_neg hprov, if_pos hphase]
    omega

/-- The end of an await: what was handed out is paid for, and the loop goes on. -/
theorem select_lowers {e : Driver} (hcmd : e.cmdRx = d.cmdRx) (hprov : e.provRx = d.provRx)
    (hold : d.phase ≠ .pollProvider) (hpaid : e.handedOut + 2 < d.handedOut + d.phase.effort) :
    (e.goto .select).remaining + (e.goto .select).handedOut < d.remaining + d.handedOut := by
  have hmove := remaining_of d (e.goto .select) hcmd hprov hold (by simp)
  have heffort : (e.goto .select).phase.effort = 2 := rfl
  show (e.goto .select).remaining + e.handedOut < _
  omega

/-- The end of an await that hands out one thing at most. -/
theorem answer_lowers {e : Driver} (hcmd : e.cmdRx = d.cmdRx) (hprov : e.provRx = d.provRx)
    (heffort : d.phase.effort = 4) (hpaid : e.handedOut ≤ d.handedOut + 1) :
    (e.goto .select).remaining + (e.goto .select).handedOut < d.remaining + d.handedOut := by
  have hold : d.phase ≠ .pollProvider := by
    intro hpoll
    rw [hpoll] at heffort
    cases heffort
  exact select_lowers hcmd hprov hold (by omega)

/-- The end of a connect leaves less to do. -/
theorem finishConnect_lowers (hphase : d.phase = .connecting) (result : CoreResult Unit)
    (opened : Bool) : (d.finishConnect result opened).remaining
      + (d.finishConnect result opened).handedOut < d.remaining + d.handedOut := by
  have heffort : d.phase.effort = 8 := by rw [hphase]; rfl
  have hpoll : d.phase ≠ .pollProvider := by simp [hphase]
  cases result with
  | ok u =>
    refine select_lowers rfl rfl hpoll ?_
    rw [handedOut_setState, if_pos rfl]
    show d.handedOut + 5 + 2 < _
    omega
  | error e =>
    refine select_lowers rfl rfl hpoll ?_
    rw [handedOut_setState, handedOut_emitError, if_neg (by decide)]
    omega

/-- The end of a disconnect leaves less to do. -/
theorem finishDisconnect_lowers (hphase : d.phase = .cancelledConnect ∨ d.phase = .disconnecting
      ∨ d.phase = .shutdown) :
    d.finishDisconnect.remaining + d.finishDisconnect.handedOut < d.remaining + d.handedOut := by
  unfold finishDisconnect
  obtain hphase | hphase | hphase := hphase
  · have heffort : d.phase.effort = 5 := by rw [hphase]; rfl
    simp only [hphase]
    refine select_lowers rfl rfl (by simp [hphase]) ?_
    rw [handedOut_setState, handedOut_emitError, if_neg (by decide)]
    omega
  · have heffort : d.phase.effort = 4 := by rw [hphase]; rfl
    simp only [hphase]
    refine select_lowers rfl rfl (by simp [hphase]) ?_
    rw [handedOut_setState, if_neg (by decide)]
    omega
  · have heffort : d.phase.effort = 1 := by rw [hphase]; rfl
    simp only [hphase]
    have hmove := remaining_of d (d.goto .stopped) rfl rfl (by simp [hphase]) (by simp)
    have hend : (d.goto .stopped).phase.effort = 0 := rfl
    have hout : (d.goto .stopped).handedOut = d.handedOut := rfl
    omega

/-- An interruption leaves less to do. -/
theorem interrupt_lowers (hphase : d.phase.cancellable = true) :
    d.interrupt.remaining + d.interrupt.handedOut < d.remaining + d.handedOut := by
  unfold interrupt
  cases hnow : d.phase with
  | connecting =>
    have hmove := remaining_of d ((d.call .disconnect).goto .cancelledConnect) rfl rfl
      (by simp [hnow]) (by simp)
    have hold : d.phase.effort = 8 := by rw [hnow]; rfl
    have hnew : ((d.call .disconnect).goto .cancelledConnect).phase.effort = 5 := rfl
    have hout : ((d.call .disconnect).goto .cancelledConnect).handedOut = d.handedOut := rfl
    dsimp only
    omega
  | sending =>
    have heffort : d.phase.effort = 4 := by rw [hnow]; rfl
    exact answer_lowers rfl rfl heffort (Nat.le_of_eq (d.handedOut_emitError _ _))
  | fsOp requestId op =>
    have heffort : d.phase.effort = 4 := by rw [hnow]; rfl
    exact answer_lowers rfl rfl heffort (d.handedOut_deliverFile _)
  | execOp requestId =>
    have heffort : d.phase.effort = 4 := by rw [hnow]; rfl
    exact answer_lowers rfl rfl heffort (d.handedOut_deliverTask _)
  | _ => simp [hnow, Phase.cancellable] at hphase

/-- **A step of its own brings the driver nearer to rest**, what it hands out included. -/
theorem work_lowers (hown : a.ownWork = true) (hrest : ¬ d.AtRest) (hstep : d.step a = some d') :
    d'.remaining + d'.handedOut < d.remaining + d.handedOut := by
  cases takes_of_step hstep with
  | created hphase =>
    have heffort : d.phase.effort = 4 := by rw [hphase]; rfl
    refine select_lowers rfl rfl (by simp [hphase]) ?_
    show d.handedOut + 2 < _
    omega
  | notCreated hphase e =>
    have heffort : d.phase.effort = 4 := by rw [hphase]; rfl
    -- the error and the state go out as one batch, and nothing is left to do
    generalize hnext : d.emitBatch [.error e.code e.message, .stateChanged .failed] = f
    have hmove := remaining_of d (f.goto .noProvider) (by rw [← hnext]; rfl)
      (by rw [← hnext]; rfl) (by simp [hphase]) (by simp)
    have hout : (f.goto .noProvider).handedOut = d.handedOut + 1 := by
      rw [← hnext]
      exact d.handedOut_emitBatch _
    have hend : (f.goto .noProvider).phase.effort = 0 := rfl
    omega
  -- the only step that may find nothing to do, which is when the driver is at rest
  | recv hphase => exact recv_lowers hphase hrest
  | drain hphase => exact drain_lowers hphase
  | connectReturns result opened hphase => exact finishConnect_lowers hphase result opened
  | sendReturns result hphase =>
    have heffort : d.phase.effort = 4 := by rw [hphase]; rfl
    cases result with
    | ok u => exact answer_lowers (e := d) rfl rfl heffort (Nat.le_succ _)
    | error e => exact answer_lowers rfl rfl heffort (Nat.le_of_eq (d.handedOut_emitError _ _))
  | fsReturns answer hphase _ _ =>
    have heffort : d.phase.effort = 4 := by rw [hphase]; rfl
    exact answer_lowers rfl rfl heffort (d.handedOut_deliverFile _)
  | fsUnavailable hphase _ =>
    have heffort : d.phase.effort = 4 := by rw [hphase]; rfl
    exact answer_lowers rfl rfl heffort (d.handedOut_deliverFile _)
  | execReturns result hphase =>
    have heffort : d.phase.effort = 4 := by rw [hphase]; rfl
    cases result with
    | ok output => exact answer_lowers rfl rfl heffort (d.handedOut_deliverTask _)
    | error e => exact answer_lowers rfl rfl heffort (d.handedOut_deliverTask _)
  | disconnectReturns hphase => exact finishDisconnect_lowers hphase
  | interrupted hphase _ => exact interrupt_lowers hphase
  | submit _ _ | close | setFileEmitter | setTaskEmitter | notified _ | unheard _ | sinkEmit _ _ _ _
  | gatePrompt _ _ _ => cases hown

/-! ## §4. Left alone. -/

/-- Away from rest the driver can go on. -/
theorem work_goes_on (hrest : ¬ d.AtRest) : ∃ a d', Action.ownWork a = true ∧ d.step a = some d' := by
  cases hphase : d.phase with
  | creating => exact ⟨.createProvider (.ok ()), _, rfl, if_pos hphase⟩
  | noProvider => exact absurd (.inl (by simp [ended, hphase])) hrest
  | select => exact ⟨.recv, _, rfl, if_pos hphase⟩
  | pollProvider => exact ⟨.drain, _, rfl, if_pos hphase⟩
  | connecting => exact ⟨.connectReturns (.ok ()) true, _, rfl, if_pos hphase⟩
  | cancelledConnect => exact ⟨.disconnectReturns, _, rfl, if_pos (.inl hphase)⟩
  | sending => exact ⟨.sendReturns (.ok ()), _, rfl, if_pos hphase⟩
  | disconnecting => exact ⟨.disconnectReturns, _, rfl, if_pos (.inr (.inl hphase))⟩
  | fsOp requestId op =>
    cases hprovider : d.fileProvider.isSome with
    | true =>
      refine ⟨.fsReturns (.failed ⟨.internal, none⟩), d.finishFs requestId
        (.error .internal (CoreError.message ⟨.internal, none⟩)), rfl, ?_⟩
      simp only [step, hphase, hprovider, if_true]
      cases op <;> rfl
    | false =>
      refine ⟨.fsUnavailable, d.finishFs requestId fsUnavailable, rfl, ?_⟩
      simp [step, hphase, hprovider]
  | execOp requestId =>
    refine ⟨.execReturns (.error ⟨.internal, none⟩), d.finishExec requestId (.error ⟨.internal, none⟩),
      rfl, ?_⟩
    simp only [step, hphase]
  | shutdown => exact ⟨.disconnectReturns, _, rfl, if_pos (.inr (.inr hphase))⟩
  | stopped => exact absurd (.inl (by simp [ended, hphase])) hrest

/-- At rest nothing is owed, unless the loop has been left. -/
theorem owed_of_rest (hrest : d.AtRest) (hloop : d.ended = false) :
    d.owedFiles = [] ∧ d.owedTasks = [] := by
  obtain hended | ⟨hphase, hcmd, -, -⟩ := hrest
  · rw [hloop] at hended
    cases hended
  · unfold owedFiles owedTasks
    rw [hcmd]
    obtain hphase | hphase := hphase <;> rw [hphase] <;> exact ⟨rfl, rfl⟩

end Driver

end ResearchSSH.Core
