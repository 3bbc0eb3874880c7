/-
  ResearchSSH.Core.Driver — the driver task of a session (`drive` in `session.rs`).

  The driver is a state machine over its program counter (`Phase`): one step is one poll of
  the `select!`, one completion of an awaited future, or one thing its environment does
  (a command sent, a sink used, an emitter registered, the cancel signal).  Whatever the
  provider answers is carried by the label of the step, so a run over all labels covers
  every provider.

  The `select!` is biased: the command queue is polled first (`recv`), and the provider
  channel (`drain`) only after it was found empty.  The drain loop empties the channel, so
  it is one step that takes everything sent before its last `try_recv`.

  Every event in the provider channel is tagged with the connection attempt whose clone of
  the sink emitted it.  The code has no such tag: no function below branches on it.

  Main definitions:
    * `Driver`, `Action`, `Driver.step` — states, labels and the step.
    * `Driver.initial` — a spawned driver whose provider is not yet created.
-/

import Mathlib.Data.List.Induction
import ResearchSSH.Core.Event
import ResearchSSH.Library.Transition

namespace ResearchSSH.Core

open ResearchSSH.Library

/-- A provider call either answers or fails. -/
abbrev CoreResult (T : Type) := Except CoreError T

/-! ## §1. Commands, calls, phases. -/

/-- Commands sent from the session handle to its driver task. -/
inductive Command
  | connect
  | send (data : List UInt8)
  | disconnect
  | setSecret (secret : List UInt8)
  | setPrivateKey (keyPath : Option String) (passphrase : Option (List UInt8))
  | fs (requestId : UInt64) (op : FsOp)
  | exec (requestId : UInt64) (command : String) (timeoutMs : UInt64)
  | shutdown
  deriving DecidableEq, Repr

/-- The calls a driver makes on its provider and on its file provider. -/
inductive ProviderCall
  | setHostKeyGate
  | setSecret (secret : List UInt8)
  | setPrivateKey (keyPath : Option String) (passphrase : Option (List UInt8))
  | connect (attempt : Nat)
  | takeFileProvider
  | send (data : List UInt8)
  | exec (command : String) (timeoutMs : UInt64)
  | file (op : FsOp)
  | disconnect
  deriving DecidableEq, Repr

/-- Where the driver task stands. -/
inductive Phase
  /-- Before `create_provider`. -/
  | creating
  /-- The provider could not be created; the task has returned. -/
  | noProvider
  /-- At the head of the loop, about to poll the command queue. -/
  | select
  /-- The command queue was found empty; about to poll the provider channel. -/
  | pollProvider
  /-- `provider.connect` is awaited. -/
  | connecting
  /-- The connect was cancelled; `provider.disconnect` is awaited. -/
  | cancelledConnect
  /-- `provider.send` is awaited. -/
  | sending
  /-- A `Disconnect` command is being carried out. -/
  | disconnecting
  /-- `run_fs_op` is awaited. -/
  | fsOp (requestId : UInt64) (op : FsOp)
  /-- `run_exec_op` is awaited. -/
  | execOp (requestId : UInt64)
  /-- The bounded disconnect before the loop is left. -/
  | shutdown
  /-- The loop has been left. -/
  | stopped
  deriving DecidableEq, Repr

/-- The awaits that are raced against the cancel signal. -/
def Phase.cancellable : Phase → Bool
  | .connecting | .sending | .fsOp _ _ | .execOp _ => true
  | _ => false

/-- What a method of the file provider can answer. -/
inductive FsAnswer
  | entries (es : List FileEntry)
  | entry (e : FileEntry)
  | bytes (bs : List UInt8)
  | done
  | failed (e : CoreError)
  deriving DecidableEq, Repr

/-- The payload `run_fs_op` makes of the answer to an operation; `none` where the method
behind the operation cannot answer so. -/
def fsPayload : FsOp → FsAnswer → Option FilePayload
  | _, .failed e => some (.error e.code e.message)
  | .list _, .entries es => some (.listing es)
  | .stat _, .entry e => some (.listing [e])
  | .read _ _, .bytes bs => some (.content bs)
  | .write _ _, .done => some .ok
  | .rename _ _, .done => some .ok
  | .remove _ _, .done => some .ok
  | .mkdir _, .done => some .ok
  | .copy _ _, .done => some .ok
  | _, _ => none

/-! ## §2. The state of a driver. -/

/-- The locals of `drive`, the two channels and the emitter slots it shares with the session
handle, and what it has sent out so far.  `live` and the tags in `provRx` belong to the
model: the attempt that is the current connection, and the attempt that emitted an event.
A channel whose receiver is gone keeps what is still sent to it; nothing reads it again. -/
structure Driver where
  phase : Phase
  state : RsSessionState
  /-- The attempt whose connect opened the file provider held. -/
  fileProvider : Option Nat
  cmdRx : List Command
  /-- The session handle, and with it `cmd_tx`, is gone. -/
  closed : Bool
  provRx : List (Nat × ProviderEvent)
  /-- The cancel signal has fired since the current await began. -/
  notified : Bool
  fileEmitter : Bool
  taskEmitter : Bool
  /-- Connection attempts started so far; each got a clone of the sink. -/
  attempts : Nat
  live : Option Nat
  emitted : List (List SessionEvent)
  fileSink : List FileResult
  taskSink : List ExecResult
  calls : List ProviderCall
  dequeued : List Command
  deriving DecidableEq, Repr

namespace Driver

/-- A driver as `Session::spawn` leaves it. -/
def initial : Driver :=
  { phase := .creating, state := .idle, fileProvider := none, cmdRx := [], closed := false
    provRx := [], notified := false, fileEmitter := false, taskEmitter := false
    attempts := 0, live := none, emitted := [], fileSink := [], taskSink := [], calls := []
    dequeued := [] }

/-- The states announced so far, in order. -/
def states (d : Driver) : List RsSessionState := announcedStates d.emitted.flatten

/-- `emit_batch`: one call of the event sink. -/
def emitBatch (d : Driver) (events : List SessionEvent) : Driver :=
  { d with emitted := d.emitted ++ [events] }

/-- `set_state`: the state is kept and announced. -/
def setState (d : Driver) (newState : RsSessionState) : Driver :=
  { d with state := newState }.emitBatch [.stateChanged newState]

/-- An error goes out in a batch of its own. -/
def emitError (d : Driver) (code : RsErrorCode) (message : String) : Driver :=
  d.emitBatch [.error code message]

/-- The driver waits elsewhere now. -/
def goto (d : Driver) (phase : Phase) : Driver := { d with phase := phase }

/-- The provider is called. -/
def call (d : Driver) (c : ProviderCall) : Driver := { d with calls := d.calls ++ [c] }

/-- Start awaiting a future raced against the cancel signal: `notify_waiters` stores no
permit, so signals from before do not count. -/
def awaitIn (d : Driver) (phase : Phase) : Driver :=
  { d with phase := phase, notified := false }

/-- Hand a file result to the emitter, if one is registered. -/
def deliverFile (d : Driver) (r : FileResult) : Driver :=
  { d with fileSink := if d.fileEmitter then d.fileSink ++ [r] else d.fileSink }

/-- Hand a command result to the emitter, if one is registered. -/
def deliverTask (d : Driver) (r : ExecResult) : Driver :=
  { d with taskSink := if d.taskEmitter then d.taskSink ++ [r] else d.taskSink }

attribute [simp] emitBatch setState emitError goto call awaitIn deliverFile deliverTask

/-! ## §3. The command arms. -/

/-- `None | Some(Command::Shutdown)`. -/
def beginShutdown (d : Driver) : Driver :=
  if d.state = .connected ∨ d.state = .connecting then
    (d.call .disconnect).goto .shutdown
  else
    d.goto .stopped

/-- `Command::Connect`. -/
def beginConnect (d : Driver) : Driver :=
  if d.state = .connecting ∨ d.state = .connected then
    d.emitError .invalidState "already connecting or connected"
  else
    let d := d.setState .connecting
    -- The channel is the same one for every attempt, and what is in it stays.
    let d := { d with attempts := d.attempts + 1, live := none }
    (d.call (.connect d.attempts)).awaitIn .connecting

/-- `Command::Send`. -/
def beginSend (d : Driver) (data : List UInt8) : Driver :=
  if d.state ≠ .connected then
    d.emitError .notConnected "cannot send while not connected"
  else
    (d.call (.send data)).awaitIn .sending

/-- `Command::Disconnect`. -/
def beginDisconnect (d : Driver) : Driver :=
  -- Whatever the state, the command has ended the connection there was.
  let d := { d with live := none }
  if ¬ (d.state = .connected ∨ d.state = .connecting) then
    d
  else
    let d := d.setState .disconnecting
    ({ d with fileProvider := none }.call .disconnect).goto .disconnecting

/-- `Command::Fs`: a held file provider is called at once. -/
def beginFs (d : Driver) (requestId : UInt64) (op : FsOp) : Driver :=
  let d := if d.fileProvider.isSome then d.call (.file op) else d
  d.awaitIn (.fsOp requestId op)

/-- `Command::Exec`. -/
def beginExec (d : Driver) (requestId : UInt64) (command : String) (timeoutMs : UInt64) :
    Driver :=
  if d.state ≠ .connected then
    d.deliverTask ⟨requestId, .error .notConnected "cannot execute while not connected"⟩
  else
    (d.call (.exec command timeoutMs)).awaitIn (.execOp requestId)

/-- The arms of the command match. -/
def handle (d : Driver) : Command → Driver
  | .shutdown => d.beginShutdown
  | .setSecret secret => d.call (.setSecret secret)
  | .setPrivateKey keyPath passphrase => d.call (.setPrivateKey keyPath passphrase)
  | .connect => d.beginConnect
  | .send data => d.beginSend data
  | .disconnect => d.beginDisconnect
  | .fs requestId op => d.beginFs requestId op
  | .exec requestId command timeoutMs => d.beginExec requestId command timeoutMs

/-- The first poll of the `select!`. -/
def recv (d : Driver) : Driver :=
  match d.cmdRx with
  | [] => if d.closed then d.beginShutdown else d.goto .pollProvider
  | cmd :: rest => { d with cmdRx := rest, dequeued := d.dequeued ++ [cmd] }.handle cmd

/-! ## §4. The provider event arm. -/

/-- `collect_provider_event`, on the batch and the transition collected so far. -/
def collectProviderEvent (acc : List SessionEvent × Option RsSessionState) :
    ProviderEvent → List SessionEvent × Option RsSessionState
  | .data bytes => (acc.1 ++ [.data bytes], acc.2)
  | .disconnected _ => (acc.1, some .disconnected)
  | .error e => (acc.1 ++ [.error e.code e.message], some .failed)

/-- The batch and the transition of a run of provider events. -/
def collectAll (evs : List ProviderEvent) : List SessionEvent × Option RsSessionState :=
  evs.foldl collectProviderEvent ([], none)

/-- A batch goes out unless there is nothing in it. -/
def emitUnlessEmpty (d : Driver) (batch : List SessionEvent) : Driver :=
  if batch.isEmpty then d else d.emitBatch batch

/-- The second poll of the `select!`: everything in the channel is delivered as one batch.
An empty channel parks the driver until it is woken. -/
def drain (d : Driver) : Driver :=
  match d.provRx with
  | [] => d.goto .select
  | first :: more =>
    -- The tags fall away here: the code sees the events alone.
    let collected := collectAll ((first :: more).map Prod.snd)
    let d := { d with provRx := [] }.goto .select
    match collected.2 with
    | some newState =>
      -- The transition closes the batch, also behind data that came after it.
      { d with state := newState }.emitUnlessEmpty (collected.1 ++ [SessionEvent.stateChanged newState])
    | none => d.emitUnlessEmpty collected.1

/-- One event more. -/
theorem collectAll_snoc (evs : List ProviderEvent) (ev : ProviderEvent) :
    collectAll (evs ++ [ev]) = collectProviderEvent (collectAll evs) ev := by
  simp only [collectAll, List.foldl_append, List.foldl_cons, List.foldl_nil]

/-- The transition of a batch is the outcome of its last event that has one. -/
theorem collectAll_transition (evs : List ProviderEvent) :
    (collectAll evs).2 = (evs.filterMap ProviderEvent.outcome).getLast? := by
  induction evs using List.reverseRecOn with
  | nil => rfl
  | append_singleton evs ev ih =>
    -- the last event either has an outcome, which replaces the one so far, or changes nothing
    rw [collectAll_snoc, List.filterMap_append]
    cases ev with
    | data bytes => simpa [collectProviderEvent, ProviderEvent.outcome] using ih
    | disconnected reason => simp [collectProviderEvent, ProviderEvent.outcome]
    | error e => simp [collectProviderEvent, ProviderEvent.outcome]

/-- The collected events themselves announce no state. -/
theorem collectAll_announces (evs : List ProviderEvent) :
    announcedStates (collectAll evs).1 = [] := by
  induction evs using List.reverseRecOn with
  | nil => rfl
  | append_singleton evs ev ih =>
    rw [collectAll_snoc]
    cases ev <;> simp [collectProviderEvent, ih]

/-- What one drain hands over: no batch or one. -/
def drainBatches (evs : List ProviderEvent) : List (List SessionEvent) :=
  match collectAll evs with
  | (events, some newState) => [events ++ [.stateChanged newState]]
  | ([], none) => []
  | (events, none) => [events]

/-- A drain announces the last state its events decide on. -/
theorem announcedStates_drainBatches (evs : List ProviderEvent) :
    announcedStates (drainBatches evs).flatten = (collectAll evs).2.toList := by
  have hsilent := collectAll_announces evs
  unfold drainBatches
  rcases hcol : collectAll evs with ⟨events, _ | newState⟩
  · rw [hcol] at hsilent
    cases events with
    | nil => rfl
    | cons e es => simpa using hsilent
  · rw [hcol] at hsilent
    simp only [List.flatten_cons, List.flatten_nil, List.append_nil, announcedStates_append,
      announcedStates_stateChanged, announcedStates_nil, Option.toList_some]
    rw [show announcedStates events = [] from hsilent, List.nil_append]

/-- **What a drain does**: the channel is emptied, and its last outcome, if there is one, is
the new state and is announced. -/
theorem drain_eq (d : Driver) :
    d.drain = { d with
      phase := .select
      provRx := []
      state := (collectAll (d.provRx.map Prod.snd)).2.getD d.state
      emitted := d.emitted ++ drainBatches (d.provRx.map Prod.snd) } := by
  unfold drain drainBatches
  cases hprov : d.provRx with
  | nil =>
    have hcol : collectAll (([] : List (Nat × ProviderEvent)).map Prod.snd) = ([], none) := rfl
    simp only [hcol, goto, Option.getD_none, List.append_nil]
    rw [← hprov]
  | cons first more =>
    rcases hcol : collectAll ((first :: more).map Prod.snd) with ⟨events, _ | newState⟩
    · cases events <;> simp only [hcol, emitUnlessEmpty] <;> simp
    · simp only [hcol, emitUnlessEmpty]
      simp

/-! ## §5. Completions. -/

/-- `provider.connect` has returned; `opened` says whether `take_file_provider` finds a file
provider. -/
def finishConnect (d : Driver) (result : CoreResult Unit) (opened : Bool) : Driver :=
  match result with
  | .ok () =>
    let d := d.call .takeFileProvider
    -- The file provider is replaced, by nothing where this connection has none.
    let d := { d with fileProvider := if opened then some d.attempts else none
                      live := some d.attempts }
    (d.setState .connected).goto .select
  | .error e => ((d.emitError e.code e.message).setState .failed).goto .select

/-- `provider.send` has returned. -/
def finishSend (d : Driver) (result : CoreResult Unit) : Driver :=
  match result with
  | .ok () => d.goto .select
  | .error e => (d.emitError e.code e.message).goto .select

/-- `run_fs_op` has returned. -/
def finishFs (d : Driver) (requestId : UInt64) (payload : FilePayload) : Driver :=
  (d.deliverFile ⟨requestId, payload⟩).goto .select

/-- `run_exec_op` has returned. -/
def finishExec (d : Driver) (requestId : UInt64) (result : CoreResult ExecOutput) : Driver :=
  match result with
  | .ok output => (d.deliverTask ⟨requestId, .output output⟩).goto .select
  | .error e => (d.deliverTask ⟨requestId, .error e.code e.message⟩).goto .select

/-- The cancel signal won the race of the current await. -/
def interrupt (d : Driver) : Driver :=
  match d.phase with
  | .connecting => (d.call .disconnect).goto .cancelledConnect
  | .sending => (d.emitError .cancelled "send cancelled").goto .select
  | .fsOp requestId _ =>
    (d.deliverFile ⟨requestId, .error .cancelled "file operation cancelled"⟩).goto .select
  | .execOp requestId =>
    (d.deliverTask ⟨requestId, .error .cancelled "command cancelled"⟩).goto .select
  | _ => d

/-- `provider.disconnect` has returned, or its bound before the end has run out. -/
def finishDisconnect (d : Driver) : Driver :=
  match d.phase with
  | .cancelledConnect =>
    ((d.emitError .cancelled "connection cancelled").setState .disconnected).goto .select
  | .disconnecting => (d.setState .disconnected).goto .select
  | .shutdown => d.goto .stopped
  | _ => d

/-- The result of a file operation without a file provider. -/
def fsUnavailable : FilePayload :=
  .error .providerUnavailable
    "file transfer unavailable: SFTP subsystem is not available for this session"

end Driver

/-! ## §6. The step. -/

/-- What can happen next: a step of the driver task, with what its provider answers, or a
step of its environment. -/
inductive Action
  /-- `create_provider` returns. -/
  | createProvider (result : CoreResult Unit)
  /-- A `Session` method sends a command. -/
  | submit (cmd : Command)
  /-- The session handle is dropped. -/
  | close
  | setFileEmitter
  | setTaskEmitter
  /-- `Session::cancel`. -/
  | cancel
  /-- The sink clone of an attempt is used. -/
  | sinkEmit (attempt : Nat) (ev : ProviderEvent)
  /-- The host-key gate emits a prompt. -/
  | gatePrompt (fingerprint : String)
  /-- The driver polls its command queue. -/
  | recv
  /-- The driver polls its provider channel. -/
  | drain
  | connectReturns (result : CoreResult Unit) (opened : Bool)
  | sendReturns (result : CoreResult Unit)
  /-- The file provider answers. -/
  | fsReturns (answer : FsAnswer)
  /-- `run_fs_op` finds no file provider. -/
  | fsUnavailable
  | execReturns (result : CoreResult ExecOutput)
  | disconnectReturns
  /-- The cancel signal wins the race of the current await. -/
  | interrupted
  deriving Repr

namespace Driver

/-- One step, where it is possible. -/
def step (d : Driver) : Action → Option Driver
  | .createProvider result =>
    if d.phase = .creating then
      match result with
      | .ok () => some ((d.call .setHostKeyGate).goto .select)
      | .error e =>
        some ((d.emitBatch [.error e.code e.message, .stateChanged .failed]).goto .noProvider)
    else none
  -- Commands are sent through the handle.
  | .submit cmd => if d.closed then none else some { d with cmdRx := d.cmdRx ++ [cmd] }
  | .close => some { d with closed := true }
  | .setFileEmitter => some { d with fileEmitter := true }
  | .setTaskEmitter => some { d with taskEmitter := true }
  | .cancel => if d.phase.cancellable then some { d with notified := true } else some d
  | .sinkEmit attempt ev =>
    -- A clone of the sink outlives its attempt.
    if 1 ≤ attempt ∧ attempt ≤ d.attempts then
      some { d with provRx := d.provRx ++ [(attempt, ev)] }
    else none
  | .gatePrompt fingerprint =>
    -- The gate emits on its own, whatever the driver awaits.
    if d.phase = .creating ∨ d.phase = .noProvider then none
    else some (d.emitBatch [.hostKeyPrompt fingerprint])
  | .recv => if d.phase = .select then some d.recv else none
  | .drain => if d.phase = .pollProvider then some d.drain else none
  | .connectReturns result opened =>
    if d.phase = .connecting then some (d.finishConnect result opened) else none
  | .sendReturns result => if d.phase = .sending then some (d.finishSend result) else none
  | .fsReturns answer =>
    match d.phase with
    | .fsOp requestId op =>
      if d.fileProvider.isSome then (fsPayload op answer).map (d.finishFs requestId) else none
    | _ => none
  | .fsUnavailable =>
    match d.phase with
    | .fsOp requestId _ =>
      if d.fileProvider.isSome then none else some (d.finishFs requestId fsUnavailable)
    | _ => none
  | .execReturns result =>
    match d.phase with
    | .execOp requestId => some (d.finishExec requestId result)
    | _ => none
  | .disconnectReturns =>
    if d.phase = .cancelledConnect ∨ d.phase = .disconnecting ∨ d.phase = .shutdown then
      some d.finishDisconnect
    else none
  | .interrupted =>
    -- The signal may win although the answer is there as well.
    if d.phase.cancellable ∧ d.notified then some d.interrupt else none

/-- The step as a relation: each label with the guard under which it is possible. -/
inductive Takes (d : Driver) : Action → Driver → Prop
  | created (hphase : d.phase = .creating) :
      Takes d (.createProvider (.ok ())) ((d.call .setHostKeyGate).goto .select)
  | notCreated (hphase : d.phase = .creating) (e : CoreError) :
      Takes d (.createProvider (.error e))
        ((d.emitBatch [.error e.code e.message, .stateChanged .failed]).goto .noProvider)
  | submit (cmd : Command) (hopen : d.closed = false) :
      Takes d (.submit cmd) { d with cmdRx := d.cmdRx ++ [cmd] }
  | close : Takes d .close { d with closed := true }
  | setFileEmitter : Takes d .setFileEmitter { d with fileEmitter := true }
  | setTaskEmitter : Takes d .setTaskEmitter { d with taskEmitter := true }
  | notified (hphase : d.phase.cancellable = true) :
      Takes d .cancel { d with notified := true }
  | unheard (hphase : d.phase.cancellable = false) : Takes d .cancel d
  | sinkEmit (attempt : Nat) (ev : ProviderEvent) (hpos : 1 ≤ attempt)
      (hstarted : attempt ≤ d.attempts) :
      Takes d (.sinkEmit attempt ev) { d with provRx := d.provRx ++ [(attempt, ev)] }
  | gatePrompt (fingerprint : String) (hphase : d.phase ≠ .creating)
      (hprovider : d.phase ≠ .noProvider) :
      Takes d (.gatePrompt fingerprint) (d.emitBatch [.hostKeyPrompt fingerprint])
  | recv (hphase : d.phase = .select) : Takes d .recv d.recv
  | drain (hphase : d.phase = .pollProvider) : Takes d .drain d.drain
  | connectReturns (result : CoreResult Unit) (opened : Bool) (hphase : d.phase = .connecting) :
      Takes d (.connectReturns result opened) (d.finishConnect result opened)
  | sendReturns (result : CoreResult Unit) (hphase : d.phase = .sending) :
      Takes d (.sendReturns result) (d.finishSend result)
  | fsReturns (answer : FsAnswer) {requestId : UInt64} {op : FsOp} {payload : FilePayload}
      (hphase : d.phase = .fsOp requestId op) (hprovider : d.fileProvider.isSome = true)
      (hpayload : fsPayload op answer = some payload) :
      Takes d (.fsReturns answer) (d.finishFs requestId payload)
  | fsUnavailable {requestId : UInt64} {op : FsOp} (hphase : d.phase = .fsOp requestId op)
      (hprovider : d.fileProvider.isSome = false) :
      Takes d .fsUnavailable (d.finishFs requestId fsUnavailable)
  | execReturns (result : CoreResult ExecOutput) {requestId : UInt64}
      (hphase : d.phase = .execOp requestId) :
      Takes d (.execReturns result) (d.finishExec requestId result)
  | disconnectReturns
      (hphase : d.phase = .cancelledConnect ∨ d.phase = .disconnecting ∨ d.phase = .shutdown) :
      Takes d .disconnectReturns d.finishDisconnect
  | interrupted (hphase : d.phase.cancellable = true) (hnotified : d.notified = true) :
      Takes d .interrupted d.interrupt

/-- **What a step can do**, guards included. -/
theorem takes_of_step {d d' : Driver} {a : Action} (hstep : d.step a = some d') :
    Takes d a d' := by
  cases a with
  | createProvider result =>
    obtain ⟨hphase, hstep⟩ := Option.ite_none_right_eq_some.mp hstep
    cases result with
    | ok _ => cases hstep; exact .created hphase
    | error e => cases hstep; exact .notCreated hphase e
  | submit cmd =>
    obtain ⟨hopen, hstep⟩ := Option.ite_none_left_eq_some.mp hstep
    cases hstep
    exact .submit cmd (by simpa using hopen)
  | close => cases hstep; exact .close
  | setFileEmitter => cases hstep; exact .setFileEmitter
  | setTaskEmitter => cases hstep; exact .setTaskEmitter
  | cancel =>
    rw [step] at hstep
    split at hstep
    · next hphase => cases hstep; exact .notified hphase
    · next hphase => cases hstep; exact .unheard (by simpa using hphase)
  | sinkEmit attempt ev =>
    obtain ⟨⟨hpos, hstarted⟩, hstep⟩ := Option.ite_none_right_eq_some.mp hstep
    cases hstep
    exact .sinkEmit attempt ev hpos hstarted
  | gatePrompt fingerprint =>
    obtain ⟨hphase, hstep⟩ := Option.ite_none_left_eq_some.mp hstep
    cases hstep
    exact .gatePrompt fingerprint (fun h => hphase (.inl h)) (fun h => hphase (.inr h))
  | recv =>
    obtain ⟨hphase, hstep⟩ := Option.ite_none_right_eq_some.mp hstep
    cases hstep
    exact .recv hphase
  | drain =>
    obtain ⟨hphase, hstep⟩ := Option.ite_none_right_eq_some.mp hstep
    cases hstep
    exact .drain hphase
  | connectReturns result opened =>
    obtain ⟨hphase, hstep⟩ := Option.ite_none_right_eq_some.mp hstep
    cases hstep
    exact .connectReturns result opened hphase
  | sendReturns result =>
    obtain ⟨hphase, hstep⟩ := Option.ite_none_right_eq_some.mp hstep
    cases hstep
    exact .sendReturns result hphase
  -- an answer of the file provider must fit the operation that is worked on
  | fsReturns answer =>
    simp only [step] at hstep
    split at hstep
    · next hphase =>
      obtain ⟨hprovider, hstep⟩ := Option.ite_none_right_eq_some.mp hstep
      obtain ⟨payload, hpayload, rfl⟩ := Option.map_eq_some_iff.mp hstep
      exact .fsReturns answer hphase hprovider hpayload
    · cases hstep
  | fsUnavailable =>
    simp only [step] at hstep
    split at hstep
    · next hphase =>
      obtain ⟨hprovider, hstep⟩ := Option.ite_none_left_eq_some.mp hstep
      cases hstep
      exact .fsUnavailable hphase (by simpa using hprovider)
    · cases hstep
  | execReturns result =>
    simp only [step] at hstep
    split at hstep
    · next hphase => cases hstep; exact .execReturns result hphase
    · cases hstep
  | disconnectReturns =>
    obtain ⟨hphase, hstep⟩ := Option.ite_none_right_eq_some.mp hstep
    cases hstep
    exact .disconnectReturns hphase
  | interrupted =>
    obtain ⟨⟨hphase, hnotified⟩, hstep⟩ := Option.ite_none_right_eq_some.mp hstep
    cases hstep
    exact .interrupted hphase hnotified

end Driver

end ResearchSSH.Core
