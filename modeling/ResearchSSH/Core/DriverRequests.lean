/-
  ResearchSSH.Core.DriverRequests — one result per request.

  A file or exec request that the driver takes out of its queue is answered on its own sink
  before the next command is taken out: at once (`Exec` while not connected), or when the
  await it starts ends, by an answer or by the cancel signal.  The accounting invariant is
  an equation between two lists: the ids answered, followed by the one being worked on, are
  the ids dequeued.

  The emitter slots are filled by the session handle.  Only `shutdown_and_join` empties
  them, after it has joined or given up on the driver; that is not a step of a driver run.

  Main results:
    * `Accounted.step` — every step whose dequeued request finds the emitters registered
      keeps the accounts.
    * `one_result_per_request` — the equation for every run.
-/

import ResearchSSH.Core.Driver

namespace ResearchSSH.Core

open ResearchSSH.Library

/-! ## §1. Request ids. -/

/-- The id of a file request. -/
def Command.fsId : Command → Option UInt64
  | .fs requestId _ => some requestId
  | _ => none

/-- The id of an exec request. -/
def Command.execId : Command → Option UInt64
  | .exec requestId _ _ => some requestId
  | _ => none

/-- The id of a request of either kind. -/
def Command.requestId : Command → Option UInt64
  | .fs requestId _ => some requestId
  | .exec requestId _ _ => some requestId
  | _ => none

/-- The command will be answered by a result. -/
def Command.isRequest (cmd : Command) : Bool := cmd.fsId.isSome || cmd.execId.isSome

/-- The commands before the first `Shutdown`. -/
def beforeShutdown (cmds : List Command) : List Command :=
  cmds.takeWhile (fun cmd => decide (cmd ≠ .shutdown))

/-- The ids of the file requests before the first `Shutdown`, in order. -/
def fsRequests (cmds : List Command) : List UInt64 :=
  (beforeShutdown cmds).filterMap Command.fsId

/-- The ids of the exec requests before the first `Shutdown`, in order. -/
def execRequests (cmds : List Command) : List UInt64 :=
  (beforeShutdown cmds).filterMap Command.execId

/-- The file request being worked on, if there is one. -/
def Phase.fsPending : Phase → List UInt64
  | .fsOp requestId _ => [requestId]
  | _ => []

/-- The exec request being worked on, if there is one. -/
def Phase.execPending : Phase → List UInt64
  | .execOp requestId => [requestId]
  | _ => []

/-- The driver has not taken a `Shutdown`. -/
def Phase.running : Phase → Bool
  | .shutdown | .stopped => false
  | _ => true

/-- What is sent before a shutdown is handled first. -/
theorem beforeShutdown_append {cmds : List Command} (h : Command.shutdown ∉ cmds)
    (more : List Command) : beforeShutdown (cmds ++ more) = cmds ++ beforeShutdown more := by
  unfold beforeShutdown
  refine List.takeWhile_append_of_pos ?_
  intro c hc
  have hne : c ≠ .shutdown := by
    rintro rfl
    exact h hc
  simpa using hne

theorem beforeShutdown_eq {cmds : List Command} (h : Command.shutdown ∉ cmds) :
    beforeShutdown cmds = cmds := by
  have happend := beforeShutdown_append h []
  rwa [List.append_nil, show beforeShutdown [] = [] from rfl, List.append_nil] at happend

/-- The last command adds its file request, if it is one. -/
theorem fsRequests_snoc {cmds : List Command} (h : Command.shutdown ∉ cmds) (cmd : Command) :
    fsRequests (cmds ++ [cmd]) = fsRequests cmds ++ cmd.fsId.toList := by
  unfold fsRequests
  rw [beforeShutdown_append h, beforeShutdown_eq h, List.filterMap_append]
  cases cmd <;> rfl

/-- The last command adds its request, if it is one. -/
theorem execRequests_snoc {cmds : List Command} (h : Command.shutdown ∉ cmds)
    (cmd : Command) :
    execRequests (cmds ++ [cmd]) = execRequests cmds ++ cmd.execId.toList := by
  unfold execRequests
  rw [beforeShutdown_append h, beforeShutdown_eq h, List.filterMap_append]
  cases cmd <;> rfl

namespace Driver

/-! ## §2. The accounts. -/

/-- When the driver takes a request out of its queue, both emitters are registered.  From then on
they are assumed to stay: only `shutdown_and_join` empties their slots, after it has joined the
driver or given up on it, and no step of a driver run does. -/
def RegisteredInTime (d : Driver) : Action → Prop
  | .recv =>
    ((d.cmdRx.head?.map Command.isRequest).getD false = true) →
      d.fileEmitter = true ∧ d.taskEmitter = true
  | _ => True

instance (d : Driver) : (a : Action) → Decidable (d.RegisteredInTime a)
  | .recv => inferInstanceAs (Decidable (_ → _))
  | .createProvider _ | .submit _ | .close | .setFileEmitter | .setTaskEmitter | .cancel
  | .sinkEmit _ _ | .gatePrompt _ | .drain | .connectReturns _ _ | .sendReturns _
  | .fsReturns _ | .fsUnavailable | .execReturns _ | .disconnectReturns | .interrupted =>
    inferInstanceAs (Decidable True)

/-- Every dequeued request is answered on its own sink or is being worked on. -/
structure Accounted (d : Driver) : Prop where
  files : d.fileSink.map FileResult.requestId ++ d.phase.fsPending = fsRequests d.dequeued
  tasks : d.taskSink.map ExecResult.requestId ++ d.phase.execPending = execRequests d.dequeued
  running : d.phase.running = true → Command.shutdown ∉ d.dequeued
  fileHeard : d.phase.fsPending ≠ [] → d.fileEmitter = true
  taskHeard : d.phase.execPending ≠ [] → d.taskEmitter = true

theorem Accounted.initial : Accounted initial where
  files := rfl
  tasks := rfl
  running := by intro _; exact List.not_mem_nil
  fileHeard := by intro h; exact absurd rfl h
  taskHeard := by intro h; exact absurd rfl h

/-- The sinks, and what was taken out of the queue. -/
def ledger (d : Driver) : List FileResult × List ExecResult × List Command :=
  (d.fileSink, d.taskSink, d.dequeued)

/-- A step that touches no sink, takes no command out and leaves the request being worked
on alone. -/
theorem Accounted.frame {d d' : Driver} (h : Accounted d) (hledger : d'.ledger = d.ledger)
    (hfs : d'.phase.fsPending = d.phase.fsPending)
    (hexec : d'.phase.execPending = d.phase.execPending)
    (hrun : d'.phase.running = true → d.phase.running = true)
    (hfe : d.fileEmitter = true → d'.fileEmitter = true)
    (hte : d.taskEmitter = true → d'.taskEmitter = true) : Accounted d' := by
  simp only [ledger, Prod.mk.injEq] at hledger
  obtain ⟨hfile, htask, hdeq⟩ := hledger
  refine ⟨?_, ?_, ?_, ?_, ?_⟩
  · rw [hfile, hfs, hdeq]
    exact h.files
  · rw [htask, hexec, hdeq]
    exact h.tasks
  · intro hr
    rw [hdeq]
    exact h.running (hrun hr)
  · intro hp
    exact hfe (h.fileHeard (hfs ▸ hp))
  · intro hp
    exact hte (h.taskHeard (hexec ▸ hp))

/-- No request is worked on in this phase. -/
def Idle (p : Phase) : Prop := p.fsPending = [] ∧ p.execPending = []

/-- A phase that works on no request is left for another such phase. -/
theorem Accounted.move {d d' : Driver} (h : Accounted d) {p : Phase} (hphase : d.phase = p)
    (hledger : d'.ledger = d.ledger) (hemitters : d'.fileEmitter = d.fileEmitter
      ∧ d'.taskEmitter = d.taskEmitter) (hidle : Idle p) (hidle' : Idle d'.phase)
    (hrun : d'.phase.running = true → p.running = true) : Accounted d' := by
  subst hphase
  obtain ⟨hfe, hte⟩ := hemitters
  exact h.frame hledger (hidle'.1.trans hidle.1.symm) (hidle'.2.trans hidle.2.symm) hrun
    (fun he => hfe ▸ he) (fun he => hte ▸ he)

/-! ## §3. Taking a command out. -/

section Dequeue

variable {d : Driver} {rest : List Command}

/-- The driver after `cmd` was taken out of its queue. -/
def dequeue (d : Driver) (cmd : Command) (rest : List Command) : Driver :=
  { d with cmdRx := rest, dequeued := d.dequeued ++ [cmd] }

/-- A command that is no request: no sink is touched, and nothing is worked on after it. -/
theorem Accounted.handle_other (h : Accounted d) (hphase : d.phase = .select) {cmd : Command}
    (hcmd : cmd.isRequest = false) {d' : Driver}
    (hledger : d'.ledger = (d.fileSink, d.taskSink, d.dequeued ++ [cmd]))
    (hidle : Idle d'.phase) (hrun : d'.phase.running = true → cmd ≠ .shutdown) :
    Accounted d' := by
  simp only [ledger, Prod.mk.injEq] at hledger
  obtain ⟨hfile, htask, hdeq⟩ := hledger
  obtain ⟨hfs, hexec⟩ := hidle
  have hno : Command.shutdown ∉ d.dequeued := h.running (by rw [hphase]; rfl)
  have hfsId : cmd.fsId = none := by cases cmd <;> simp_all [Command.isRequest, Command.fsId]
  have hexecId : cmd.execId = none := by
    cases cmd <;> simp_all [Command.isRequest, Command.execId]
  have hfiles := h.files
  have htasks := h.tasks
  rw [hphase] at hfiles htasks
  refine ⟨?_, ?_, ?_, ?_, ?_⟩
  · rw [hfile, hdeq, hfs, fsRequests_snoc hno, hfsId, ← hfiles]
    simp [Phase.fsPending]
  · rw [htask, hdeq, hexec, execRequests_snoc hno, hexecId, ← htasks]
    simp [Phase.execPending]
  · intro hr
    rw [hdeq, List.mem_append, List.mem_singleton]
    rintro (hmem | heq)
    · exact hno hmem
    · exact hrun hr heq.symm
  · intro hp; exact absurd hfs hp
  · intro hp; exact absurd hexec hp

/-- A file operation is taken up. -/
theorem Accounted.handle_fs (h : Accounted d) (hphase : d.phase = .select)
    (hfe : d.fileEmitter = true) (requestId : UInt64) (op : FsOp) :
    Accounted ((d.dequeue (.fs requestId op) rest).handle (.fs requestId op)) := by
  have hno : Command.shutdown ∉ d.dequeued := h.running (by rw [hphase]; rfl)
  have hfiles := h.files
  have htasks := h.tasks
  rw [hphase] at hfiles htasks
  -- whether a file provider is called or not, the request is the one being worked on
  have hview : ∀ e : Driver, e.fileSink = d.fileSink → e.taskSink = d.taskSink →
      e.dequeued = d.dequeued ++ [.fs requestId op] → e.fileEmitter = true →
      e.phase = .fsOp requestId op → Accounted e := by
    intro e hfile htask hdeq hreg hph
    refine ⟨?_, ?_, ?_, ?_, ?_⟩
    · rw [hfile, hdeq, hph, fsRequests_snoc hno, ← hfiles]
      simp [Phase.fsPending, Command.fsId]
    · rw [htask, hdeq, hph, execRequests_snoc hno, ← htasks]
      simp [Phase.execPending, Command.execId]
    · intro _
      rw [hdeq, List.mem_append, List.mem_singleton]
      rintro (hmem | heq)
      · exact hno hmem
      · cases heq
    · intro _; exact hreg
    · intro hp; rw [hph] at hp; exact absurd rfl hp
  simp only [handle, beginFs]
  split
  · exact hview _ rfl rfl rfl hfe rfl
  · exact hview _ rfl rfl rfl hfe rfl

/-- A command for the shell is taken up. -/
theorem Accounted.handle_exec (h : Accounted d) (hphase : d.phase = .select)
    (hte : d.taskEmitter = true) (requestId : UInt64) (command : String)
    (timeoutMs : UInt64) :
    Accounted ((d.dequeue (.exec requestId command timeoutMs) rest).handle
      (.exec requestId command timeoutMs)) := by
  have hno : Command.shutdown ∉ d.dequeued := h.running (by rw [hphase]; rfl)
  have hfiles := h.files
  have htasks := h.tasks
  rw [hphase] at hfiles htasks
  have hno' : Command.shutdown ∉ d.dequeued ++ [.exec requestId command timeoutMs] := by
    rw [List.mem_append, List.mem_singleton]
    rintro (hmem | heq)
    · exact hno hmem
    · cases heq
  simp only [handle, beginExec]
  split
  · -- answered at once
    refine ⟨?_, ?_, ?_, ?_, ?_⟩
    · show d.fileSink.map _ ++ d.phase.fsPending = fsRequests (d.dequeued ++ [_])
      rw [hphase, fsRequests_snoc hno, ← hfiles]
      simp [Phase.fsPending, Command.fsId]
    · show List.map _ (if d.taskEmitter then _ else _) ++ d.phase.execPending
        = execRequests (d.dequeued ++ [_])
      rw [if_pos hte, hphase, execRequests_snoc hno, ← htasks]
      simp [dequeue, Phase.execPending, Command.execId]
    · intro _; exact hno'
    · intro hp; exact absurd (by simp [dequeue, hphase, Phase.fsPending]) hp
    · intro hp; exact absurd (by simp [dequeue, hphase, Phase.execPending]) hp
  · refine ⟨?_, ?_, ?_, ?_, ?_⟩
    · show d.fileSink.map _ ++ [] = fsRequests (d.dequeued ++ [_])
      rw [fsRequests_snoc hno, ← hfiles]
      simp [Phase.fsPending, Command.fsId]
    · show d.taskSink.map _ ++ [requestId] = execRequests (d.dequeued ++ [_])
      rw [execRequests_snoc hno, ← htasks]
      simp [Phase.execPending, Command.execId]
    · intro _; exact hno'
    · intro hp; exact absurd rfl hp
    · intro _; exact hte

/-- Any command is taken up. -/
theorem Accounted.handle (h : Accounted d) (hphase : d.phase = .select) (cmd : Command)
    (hreg : cmd.isRequest = true → d.fileEmitter = true ∧ d.taskEmitter = true) :
    Accounted ((d.dequeue cmd rest).handle cmd) := by
  have hidle : Idle d.phase := hphase ▸ ⟨rfl, rfl⟩
  cases cmd with
  | fs requestId op => exact h.handle_fs hphase (hreg rfl).1 requestId op
  | exec requestId command timeoutMs =>
    exact h.handle_exec hphase (hreg rfl).2 requestId command timeoutMs
  | connect =>
    simp only [Driver.handle, beginConnect]
    split
    · exact h.handle_other hphase rfl rfl hidle (by intro _; decide)
    · exact h.handle_other hphase rfl rfl ⟨rfl, rfl⟩ (by intro _; decide)
  | send data =>
    simp only [Driver.handle, beginSend]
    split
    · exact h.handle_other hphase rfl rfl hidle (by intro _; simp)
    · exact h.handle_other hphase rfl rfl ⟨rfl, rfl⟩ (by intro _; simp)
  | disconnect =>
    simp only [Driver.handle, beginDisconnect]
    split
    · exact h.handle_other hphase rfl rfl hidle (by intro _; decide)
    · exact h.handle_other hphase rfl rfl ⟨rfl, rfl⟩ (by intro _; decide)
  | setSecret secret =>
    exact h.handle_other hphase rfl rfl hidle (by intro _; simp)
  | setPrivateKey keyPath passphrase =>
    exact h.handle_other hphase rfl rfl hidle (by intro _; simp)
  | shutdown =>
    simp only [Driver.handle, beginShutdown]
    split
    · exact h.handle_other hphase rfl rfl ⟨rfl, rfl⟩ (by intro hr; cases hr)
    · exact h.handle_other hphase rfl rfl ⟨rfl, rfl⟩ (by intro hr; cases hr)

/-- A command is received. -/
theorem Accounted.recv (h : Accounted d) (hphase : d.phase = .select)
    (hreg : d.RegisteredInTime .recv) : Accounted d.recv := by
  unfold Driver.recv
  split
  · split
    · unfold beginShutdown
      split
      · exact h.move hphase rfl ⟨rfl, rfl⟩ ⟨rfl, rfl⟩ ⟨rfl, rfl⟩ (fun _ => rfl)
      · exact h.move hphase rfl ⟨rfl, rfl⟩ ⟨rfl, rfl⟩ ⟨rfl, rfl⟩ (fun _ => rfl)
    · exact h.move hphase rfl ⟨rfl, rfl⟩ ⟨rfl, rfl⟩ ⟨rfl, rfl⟩ (fun _ => rfl)
  · next cmd rest hcmds =>
    refine h.handle hphase cmd ?_
    intro hreq
    exact hreg (by rw [hcmds]; exact hreq)

end Dequeue

/-! ## §4. Completions. -/

section Completions

variable {d : Driver}

/-- The file request being worked on is answered. -/
theorem Accounted.answerFile (h : Accounted d) {requestId : UInt64} {op : FsOp}
    (hphase : d.phase = .fsOp requestId op) (payload : FilePayload) :
    Accounted ((d.deliverFile ⟨requestId, payload⟩).goto .select) := by
  have hfe : d.fileEmitter = true := h.fileHeard (by rw [hphase]; simp [Phase.fsPending])
  have hfiles := h.files
  have htasks := h.tasks
  rw [hphase] at hfiles htasks
  refine ⟨?_, ?_, ?_, ?_, ?_⟩
  · show List.map _ (if d.fileEmitter then _ else _) ++ [] = fsRequests d.dequeued
    rw [if_pos hfe, ← hfiles]
    simp [Phase.fsPending]
  · exact htasks
  · intro _; exact h.running (by rw [hphase]; rfl)
  · intro hp; exact absurd rfl hp
  · intro hp; exact absurd rfl hp

/-- The exec request being worked on is answered. -/
theorem Accounted.answerTask (h : Accounted d) {requestId : UInt64}
    (hphase : d.phase = .execOp requestId) (payload : ExecPayload) :
    Accounted ((d.deliverTask ⟨requestId, payload⟩).goto .select) := by
  have hte : d.taskEmitter = true := h.taskHeard (by rw [hphase]; simp [Phase.execPending])
  have hfiles := h.files
  have htasks := h.tasks
  rw [hphase] at hfiles htasks
  refine ⟨?_, ?_, ?_, ?_, ?_⟩
  · exact hfiles
  · show List.map _ (if d.taskEmitter then _ else _) ++ [] = execRequests d.dequeued
    rw [if_pos hte, ← htasks]
    simp [Phase.execPending]
  · intro _; exact h.running (by rw [hphase]; rfl)
  · intro hp; exact absurd rfl hp
  · intro hp; exact absurd rfl hp

/-- The driver is interrupted. -/
theorem Accounted.interrupt (h : Accounted d) : Accounted d.interrupt := by
  unfold Driver.interrupt
  split
  · next hphase => exact h.move hphase rfl ⟨rfl, rfl⟩ ⟨rfl, rfl⟩ ⟨rfl, rfl⟩ (fun _ => rfl)
  · next hphase => exact h.move hphase rfl ⟨rfl, rfl⟩ ⟨rfl, rfl⟩ ⟨rfl, rfl⟩ (fun _ => rfl)
  · next hphase => exact h.answerFile hphase _
  · next hphase => exact h.answerTask hphase _
  · exact h

/-- A disconnect ends. -/
theorem Accounted.finishDisconnect (h : Accounted d) : Accounted d.finishDisconnect := by
  unfold Driver.finishDisconnect
  split
  · next hphase => exact h.move hphase rfl ⟨rfl, rfl⟩ ⟨rfl, rfl⟩ ⟨rfl, rfl⟩ (fun _ => rfl)
  · next hphase => exact h.move hphase rfl ⟨rfl, rfl⟩ ⟨rfl, rfl⟩ ⟨rfl, rfl⟩ (fun _ => rfl)
  · next hphase =>
    -- the driver has stopped: nothing is running any more
    exact h.move hphase rfl ⟨rfl, rfl⟩ ⟨rfl, rfl⟩ ⟨rfl, rfl⟩ (fun hr => absurd hr Bool.noConfusion)
  · exact h

end Completions

/-! ## §5. Steps and runs. -/

/-- **One step** keeps it. -/
theorem Accounted.step {d d' : Driver} {a : Action} (h : Accounted d)
    (hreg : d.RegisteredInTime a) (hstep : d.step a = some d') : Accounted d' := by
  cases takes_of_step hstep with
  | created hphase =>
    exact h.move hphase rfl ⟨rfl, rfl⟩ ⟨rfl, rfl⟩ ⟨rfl, rfl⟩ (fun _ => rfl)
  | notCreated hphase e =>
    exact h.move hphase rfl ⟨rfl, rfl⟩ ⟨rfl, rfl⟩ ⟨rfl, rfl⟩ (fun _ => rfl)
  | submit cmd hopen => exact h.frame rfl rfl rfl id id id
  | close => exact h.frame rfl rfl rfl id id id
  | setFileEmitter => exact h.frame rfl rfl rfl id (fun _ => rfl) id
  | setTaskEmitter => exact h.frame rfl rfl rfl id id (fun _ => rfl)
  | notified hphase => exact h.frame rfl rfl rfl id id id
  | unheard hphase => exact h
  | sinkEmit attempt ev hpos hstarted => exact h.frame rfl rfl rfl id id id
  | gatePrompt fingerprint hphase hprovider => exact h.frame rfl rfl rfl id id id
  | recv hphase => exact h.recv hphase hreg
  | drain hphase =>
    rw [drain_eq]
    exact h.move hphase rfl ⟨rfl, rfl⟩ ⟨rfl, rfl⟩ ⟨rfl, rfl⟩ (fun _ => rfl)
  | connectReturns result opened hphase =>
    cases result <;> exact h.move hphase rfl ⟨rfl, rfl⟩ ⟨rfl, rfl⟩ ⟨rfl, rfl⟩ (fun _ => rfl)
  | sendReturns result hphase =>
    cases result <;> exact h.move hphase rfl ⟨rfl, rfl⟩ ⟨rfl, rfl⟩ ⟨rfl, rfl⟩ (fun _ => rfl)
  | fsReturns answer hphase hprovider hpayload => exact h.answerFile hphase _
  | fsUnavailable hphase hprovider => exact h.answerFile hphase _
  | execReturns result hphase => cases result <;> exact h.answerTask hphase _
  | disconnectReturns hphase => exact h.finishDisconnect
  | interrupted hphase hnotified => exact h.interrupt

/-- **Exactly one result per request.**  In every run in which the emitters were registered
before the first request was dequeued, the ids answered through the file sink, followed by
the file request the driver is working on, are the ids of the file requests dequeued before
the first `Shutdown`, in order; and likewise for the exec sink. -/
theorem one_result_per_request (acts : List Action) (d : Driver)
    (hreg : Along Driver.step RegisteredInTime initial acts)
    (hrun : exec Driver.step initial acts = some d) :
    d.fileSink.map FileResult.requestId ++ d.phase.fsPending = fsRequests d.dequeued ∧
      d.taskSink.map ExecResult.requestId ++ d.phase.execPending
        = execRequests d.dequeued := by
  have hacc : Accounted d :=
    exec_invariant_along (fun _ _ _ h hr hstep => h.step hr hstep) Accounted.initial hreg hrun
  exact ⟨hacc.files, hacc.tasks⟩

/-- Requests before any connection, with a file provider, and cancelled, then a shutdown that
leaves a request in the queue. -/
def requestRun : List Action :=
  [.createProvider (.ok ()), .setFileEmitter, .setTaskEmitter,
    .submit (.exec 1 "nvidia-smi" 5000), .submit (.fs 2 (.list ['.'])), .submit .connect,
    .submit (.fs 3 (.mkdir ['d'])), .submit (.exec 4 "ps" 5000), .submit .shutdown,
    .submit (.fs 5 (.list ['.'])),
    .recv, .recv, .fsUnavailable, .recv, .connectReturns (.ok ()) true,
    .recv, .cancel, .interrupted, .recv, .execReturns (.ok ⟨[], [], 0⟩),
    .recv, .disconnectReturns]

theorem one_result_per_request_run :
    ∃ d, exec Driver.step initial requestRun = some d ∧
      d.fileSink.map FileResult.requestId = fsRequests d.dequeued ∧
      d.taskSink.map ExecResult.requestId = execRequests d.dequeued ∧
      fsRequests d.dequeued = [2, 3] ∧ execRequests d.dequeued = [1, 4] := by
  obtain ⟨d, hrun⟩ : ∃ d, exec Driver.step initial requestRun = some d :=
    Option.isSome_iff_exists.mp (by decide)
  have hview : (exec Driver.step initial requestRun).map
      (fun d => (d.phase, fsRequests d.dequeued, execRequests d.dequeued))
        = some (.stopped, [2, 3], [1, 4]) := by decide
  rw [hrun, Option.map_some, Option.some.injEq, Prod.mk.injEq, Prod.mk.injEq] at hview
  obtain ⟨hphase, hfs, hexec⟩ := hview
  have hall := one_result_per_request requestRun d (by decide) hrun
  rw [hphase, show Phase.stopped.fsPending = [] from rfl, List.append_nil,
    show Phase.stopped.execPending = [] from rfl, List.append_nil] at hall
  exact ⟨d, hrun, hall.1, hall.2, hfs, hexec⟩

end Driver

end ResearchSSH.Core
