/-
  ResearchSSH.Core.RequestQueue — what a driver still owes its session.

  A request that was sent is in the queue, being worked on, or answered.  What a step hands out is
  taken from the front of what is owed, and a file provider is only asked for an operation that
  has just left the queue.

  Main results:
    * `Advances`        — what one step hands out, and what it asks its provider.
    * `Serves.step`     — every step of the driver's own.
    * `asksQueued_step` — what a step asks the file provider for.
-/

import ResearchSSH.Core.FileService

namespace ResearchSSH.Core

open ResearchSSH.Library

/-! ## §1. What is owed. -/

/-- The steps that are made through the session handle. -/
def Action.ofHandle : Action → Bool
  | .submit _ | .close | .setFileEmitter | .setTaskEmitter => true
  | _ => false

/-- The operation that a file provider is asked for. -/
def ProviderCall.fileOp : ProviderCall → Option FsOp
  | .file op => some op
  | _ => none

/-- A payload that the operation can have. -/
def FilePayload.Answers (op : FsOp) (payload : FilePayload) : Prop :=
  (∃ code message, payload = .error code message) ∨ ∃ answer, fsPayload op answer = some payload

namespace Driver

variable {d d' : Driver} {sent : List Command}

/-- The driver has returned, and with it the receiver of the command queue is gone. -/
def ended (d : Driver) : Bool := d.phase = .stopped || d.phase = .noProvider

/-- The file requests without a result, the oldest first. -/
def owedFiles (d : Driver) : List UInt64 := d.phase.fsPending ++ d.cmdRx.filterMap Command.fsId

/-- The commands without a result, the oldest first. -/
def owedTasks (d : Driver) : List UInt64 := d.phase.execPending ++ d.cmdRx.filterMap Command.execId

/-- The driver of a session that was sent `sent`, with both emitters registered. -/
structure Serves (d : Driver) (sent : List Command) : Prop where
  queue : d.dequeued ++ d.cmdRx = sent
  fileHeard : d.fileEmitter = true
  taskHeard : d.taskEmitter = true
  fsWork : ∀ requestId op, d.phase = .fsOp requestId op → .fs requestId op ∈ d.dequeued
  execWork : ∀ requestId, d.phase = .execOp requestId →
    ∃ command timeoutMs, .exec requestId command timeoutMs ∈ d.dequeued

/-- From `d` to `d'` these results were handed out and these calls made. -/
structure Advances (files : List FileResult) (tasks : List ExecResult) (calls : List ProviderCall)
    (d d' : Driver) : Prop where
  fileSink : d'.fileSink = d.fileSink ++ files
  taskSink : d'.taskSink = d.taskSink ++ tasks
  called : d'.calls = d.calls ++ calls
  emitted : ∃ batches, d'.emitted = d.emitted ++ batches
  owedFiles : d.owedFiles = files.map FileResult.requestId ++ d'.owedFiles
  owedTasks : d.owedTasks = tasks.map ExecResult.requestId ++ d'.owedTasks
  asked : (calls.filterMap ProviderCall.fileOp ++ d'.cmdRx.filterMap Command.fsOp).Sublist
    (d.cmdRx.filterMap Command.fsOp)
  answersFiles : ∀ r ∈ files, ∃ op, .fs r.requestId op ∈ d'.dequeued ∧ r.payload.Answers op
  answersTasks : ∀ r ∈ tasks,
    ∃ command timeoutMs, .exec r.requestId command timeoutMs ∈ d'.dequeued

/-- A step that keeps the driver at its work. -/
def Turns (sent : List Command) (d d' : Driver) : Prop :=
  d'.Serves sent ∧ ∃ files tasks calls, Advances files tasks calls d d'

/-- A driver that was given its emitters and some commands before it began. -/
def spawned (sent : List Command) : Driver :=
  { initial with fileEmitter := true, taskEmitter := true, cmdRx := sent }

theorem Serves.spawned (sent : List Command) : Serves (spawned sent) sent where
  queue := rfl
  fileHeard := rfl
  taskHeard := rfl
  fsWork := fun _ _ h => Phase.noConfusion h
  execWork := fun _ h => Phase.noConfusion h

/-- More commands are sent. -/
theorem Serves.submit (h : Serves d sent) (more : List Command) :
    Serves { d with cmdRx := d.cmdRx ++ more } (sent ++ more) where
  queue := by
    show d.dequeued ++ (d.cmdRx ++ more) = sent ++ more
    rw [← List.append_assoc, h.queue]
  fileHeard := h.fileHeard
  taskHeard := h.taskHeard
  fsWork := h.fsWork
  execWork := h.execWork

theorem owedFiles_submit (d : Driver) (more : List Command) :
    owedFiles { d with cmdRx := d.cmdRx ++ more } = d.owedFiles ++ more.filterMap Command.fsId := by
  show d.phase.fsPending ++ (d.cmdRx ++ more).filterMap Command.fsId = _
  rw [List.filterMap_append, ← List.append_assoc]
  rfl

theorem owedTasks_submit (d : Driver) (more : List Command) :
    owedTasks { d with cmdRx := d.cmdRx ++ more }
      = d.owedTasks ++ more.filterMap Command.execId := by
  show d.phase.execPending ++ (d.cmdRx ++ more).filterMap Command.execId = _
  rw [List.filterMap_append, ← List.append_assoc]
  rfl

/-! ## §2. Steps without a request. -/

/-- The emitters and the queue. -/
def inbox (d : Driver) : Bool × Bool × List Command := (d.fileEmitter, d.taskEmitter, d.cmdRx)

/-- A step that takes nothing out and answers nothing, between phases that work on nothing or in
one phase. -/
theorem Serves.quiet (h : Serves d sent) (hledger : d'.ledger = d.ledger)
    (hinbox : d'.inbox = d.inbox) (hphase : d'.phase = d.phase ∨ Idle d.phase ∧ Idle d'.phase)
    {calls : List ProviderCall} (hcalls : d'.calls = d.calls ++ calls)
    (hnone : calls.filterMap ProviderCall.fileOp = [])
    (hemitted : ∃ batches, d'.emitted = d.emitted ++ batches) : Turns sent d d' := by
  -- nothing was answered and nothing taken: only the phase may differ
  simp only [ledger, inbox, Prod.mk.injEq] at hledger hinbox
  obtain ⟨hfile, htask, hdeq⟩ := hledger
  obtain ⟨hfe, hte, hcmd⟩ := hinbox
  have hfs : d'.phase.fsPending = d.phase.fsPending := by
    obtain hsame | ⟨hidle, hidle'⟩ := hphase
    · rw [hsame]
    · rw [hidle.1, hidle'.1]
  have hexec : d'.phase.execPending = d.phase.execPending := by
    obtain hsame | ⟨hidle, hidle'⟩ := hphase
    · rw [hsame]
    · rw [hidle.2, hidle'.2]
  constructor
  · refine ⟨?_, hfe.trans h.fileHeard, hte.trans h.taskHeard, ?_, ?_⟩
    · rw [hdeq, hcmd]
      exact h.queue
    · intro requestId op hnow
      -- an idle phase works on no request
      obtain hsame | ⟨-, hidle'⟩ := hphase
      · rw [hdeq]
        exact h.fsWork requestId op (hsame ▸ hnow)
      · have hwork := hidle'.1
        rw [hnow] at hwork
        cases hwork
    · intro requestId hnow
      obtain hsame | ⟨-, hidle'⟩ := hphase
      · rw [hdeq]
        exact h.execWork requestId (hsame ▸ hnow)
      · have hwork := hidle'.2
        rw [hnow] at hwork
        cases hwork
  · refine ⟨[], [], calls, ?_, ?_, hcalls, hemitted, ?_, ?_, ?_, List.forall_mem_nil _, List.forall_mem_nil _⟩
    · rw [hfile, List.append_nil]
    · rw [htask, List.append_nil]
    · unfold Driver.owedFiles
      rw [hfs, hcmd]
      rfl
    · unfold Driver.owedTasks
      rw [hexec, hcmd]
      rfl
    · rw [hnone, hcmd]
      exact List.Sublist.refl _

/-- A step from one phase without work to another. -/
theorem Serves.moves (h : Serves d sent) {p : Phase} (hphase : d.phase = p)
    (hledger : d'.ledger = d.ledger) (hinbox : d'.inbox = d.inbox) (hidle : Idle p)
    (hidle' : Idle d'.phase) {calls : List ProviderCall} (hcalls : d'.calls = d.calls ++ calls)
    (hnone : calls.filterMap ProviderCall.fileOp = [])
    (hemitted : ∃ batches, d'.emitted = d.emitted ++ batches) : Turns sent d d' := by
  subst hphase
  exact h.quiet hledger hinbox (.inr ⟨hidle, hidle'⟩) hcalls hnone hemitted

/-- Nothing was called, and nothing emitted. -/
theorem nothing_more {α : Type} (l : List α) : ∃ more, l = l ++ more := ⟨[], l.append_nil.symm⟩

/-! ## §3. A command is taken out. -/

/-- A command that is no request. -/
theorem Serves.takes_other (h : Serves d sent) (hphase : d.phase = .select) {cmd : Command}
    {rest : List Command} (hcmd : d.cmdRx = cmd :: rest) (hother : cmd.isRequest = false)
    (hledger : d'.ledger = (d.fileSink, d.taskSink, d.dequeued ++ [cmd]))
    (hinbox : d'.inbox = (d.fileEmitter, d.taskEmitter, rest)) (hidle : Idle d'.phase)
    {calls : List ProviderCall} (hcalls : d'.calls = d.calls ++ calls)
    (hnone : calls.filterMap ProviderCall.fileOp = [])
    (hemitted : ∃ batches, d'.emitted = d.emitted ++ batches) : Turns sent d d' := by
  simp only [ledger, inbox, Prod.mk.injEq] at hledger hinbox
  obtain ⟨hfile, htask, hdeq⟩ := hledger
  obtain ⟨hfe, hte, hrest⟩ := hinbox
  have hfsId : cmd.fsId = none := by cases cmd <;> simp_all [Command.isRequest, Command.fsId]
  have hfsOp : cmd.fsOp = none := by cases cmd <;> simp_all [Command.isRequest, Command.fsId,
    Command.fsOp]
  have hexecId : cmd.execId = none := by
    cases cmd <;> simp_all [Command.isRequest, Command.execId]
  constructor
  · refine ⟨?_, hfe.trans h.fileHeard, hte.trans h.taskHeard, ?_, ?_⟩
    · rw [hdeq, hrest, List.append_assoc, List.singleton_append, ← hcmd]
      exact h.queue
    · intro requestId op hnow
      have hwork := hidle.1
      rw [hnow] at hwork
      cases hwork
    · intro requestId hnow
      have hwork := hidle.2
      rw [hnow] at hwork
      cases hwork
  · refine ⟨[], [], calls, ?_, ?_, hcalls, hemitted, ?_, ?_, ?_, List.forall_mem_nil _, List.forall_mem_nil _⟩
    · rw [hfile, List.append_nil]
    · rw [htask, List.append_nil]
    · unfold Driver.owedFiles
      rw [hphase, hidle.1, hrest, hcmd, List.filterMap_cons_none hfsId]
      rfl
    · unfold Driver.owedTasks
      rw [hphase, hidle.2, hrest, hcmd, List.filterMap_cons_none hexecId]
      rfl
    · rw [hnone, hrest, hcmd, List.filterMap_cons_none hfsOp]
      exact List.Sublist.refl _

/-- A file request is worked on, by a call of the file provider if there is one. -/
theorem Serves.takes_fs (h : Serves d sent) (hphase : d.phase = .select) {requestId : UInt64}
    {op : FsOp} {rest : List Command} (hcmd : d.cmdRx = .fs requestId op :: rest) :
    Turns sent d ((d.dequeue (.fs requestId op) rest).handle (.fs requestId op)) := by
  -- with a file provider or without, the request is worked on and nothing is said yet
  have hview : ∀ (e : Driver) (calls : List ProviderCall), e.ledger
        = (d.fileSink, d.taskSink, d.dequeued ++ [.fs requestId op]) →
      e.inbox = (d.fileEmitter, d.taskEmitter, rest) → e.phase = .fsOp requestId op →
      e.calls = d.calls ++ calls → (calls.filterMap ProviderCall.fileOp).Sublist [op] →
      e.emitted = d.emitted → Turns sent d e := by
    intro e calls hledger hinbox hnow hcalls hasked hemitted
    simp only [ledger, inbox, Prod.mk.injEq] at hledger hinbox
    obtain ⟨hfile, htask, hdeq⟩ := hledger
    obtain ⟨hfe, hte, hrest⟩ := hinbox
    constructor
    · refine ⟨?_, hfe.trans h.fileHeard, hte.trans h.taskHeard, ?_, ?_⟩
      · rw [hdeq, hrest, List.append_assoc, List.singleton_append, ← hcmd]
        exact h.queue
      · intro requestId' op' hnow'
        rw [hnow] at hnow'
        cases hnow'
        rw [hdeq]
        exact List.mem_append_right _ List.mem_cons_self
      · intro requestId' hnow'
        rw [hnow] at hnow'
        cases hnow'
    · refine ⟨[], [], calls, ?_, ?_, hcalls, hemitted ▸ nothing_more _, ?_, ?_, ?_,
        List.forall_mem_nil _, List.forall_mem_nil _⟩
      · rw [hfile, List.append_nil]
      · rw [htask, List.append_nil]
      · unfold Driver.owedFiles
        rw [hphase, hnow, hrest, hcmd]
        rfl
      · unfold Driver.owedTasks
        rw [hphase, hnow, hrest, hcmd]
        rfl
      · rw [hrest, hcmd]
        exact hasked.append (List.Sublist.refl _)
  simp only [handle, beginFs]
  split
  · exact hview _ [.file op] rfl rfl rfl rfl (List.Sublist.refl _) rfl
  · exact hview _ [] rfl rfl rfl (List.append_nil _).symm (List.nil_sublist _) rfl

/-- A command is run, or answered at once. -/
theorem Serves.takes_exec (h : Serves d sent) (hphase : d.phase = .select) {requestId : UInt64}
    {command : String} {timeoutMs : UInt64} {rest : List Command}
    (hcmd : d.cmdRx = .exec requestId command timeoutMs :: rest) :
    Turns sent d ((d.dequeue (.exec requestId command timeoutMs) rest).handle
      (.exec requestId command timeoutMs)) := by
  have hmem : Command.exec requestId command timeoutMs
      ∈ d.dequeued ++ [.exec requestId command timeoutMs] :=
    List.mem_append_right _ List.mem_cons_self
  have hqueue : (d.dequeued ++ [.exec requestId command timeoutMs]) ++ rest = sent := by
    rw [List.append_assoc, List.singleton_append, ← hcmd]
    exact h.queue
  have howed : d.owedFiles = rest.filterMap Command.fsId := by
    unfold Driver.owedFiles
    rw [hphase, hcmd]
    rfl
  have howed' : d.owedTasks = requestId :: rest.filterMap Command.execId := by
    unfold Driver.owedTasks
    rw [hphase, hcmd]
    rfl
  have hasked : d.cmdRx.filterMap Command.fsOp = rest.filterMap Command.fsOp := by
    rw [hcmd]
    rfl
  simp only [handle, beginExec]
  split
  · -- answered at once
    have hsink : ∀ r : ExecResult, (if d.taskEmitter then d.taskSink ++ [r] else d.taskSink)
        = d.taskSink ++ [r] := fun r => if_pos h.taskHeard
    refine ⟨⟨hqueue, h.fileHeard, h.taskHeard, ?_, ?_⟩, [], _, [], ?_, hsink _, ?_,
      nothing_more _, ?_, ?_, ?_, List.forall_mem_nil _, ?_⟩
    · intro requestId' op hnow
      exact Phase.noConfusion (hphase.symm.trans hnow)
    · intro requestId' hnow
      exact Phase.noConfusion (hphase.symm.trans hnow)
    · exact (List.append_nil _).symm
    · exact (List.append_nil _).symm
    · rw [howed]
      show _ = d.phase.fsPending ++ rest.filterMap Command.fsId
      rw [hphase]
      rfl
    · rw [howed']
      show _ = [requestId] ++ (d.phase.execPending ++ rest.filterMap Command.execId)
      rw [hphase]
      rfl
    · rw [hasked]
      exact List.Sublist.refl _
    · intro r hr
      obtain rfl := List.mem_singleton.mp hr
      exact ⟨command, timeoutMs, hmem⟩
  · -- given to the provider: it is owed as long as the phase lasts
    refine ⟨⟨hqueue, h.fileHeard, h.taskHeard, fun _ _ hnow => Phase.noConfusion hnow, ?_⟩,
      [], [], [.exec command timeoutMs], ?_, ?_, rfl, nothing_more _, howed, howed', ?_,
      List.forall_mem_nil _, List.forall_mem_nil _⟩
    · intro requestId' hnow
      cases hnow
      exact ⟨command, timeoutMs, hmem⟩
    · exact (List.append_nil _).symm
    · exact (List.append_nil _).symm
    · rw [hasked]
      exact List.Sublist.refl _

theorem Serves.handles (h : Serves d sent) (hphase : d.phase = .select) {cmd : Command}
    {rest : List Command} (hcmd : d.cmdRx = cmd :: rest) :
    Turns sent d ((d.dequeue cmd rest).handle cmd) := by
  have hidle : Idle d.phase := hphase ▸ ⟨rfl, rfl⟩
  have hcalled : d.calls = d.calls ++ [] := (List.append_nil _).symm
  cases cmd with
  | fs requestId op => exact h.takes_fs hphase hcmd
  | exec requestId command timeoutMs => exact h.takes_exec hphase hcmd
  | connect =>
    simp only [handle, beginConnect]
    split
    · exact h.takes_other hphase hcmd rfl rfl rfl hidle hcalled rfl ⟨_, rfl⟩
    · exact @takes_other _ _ _ h hphase _ _ hcmd rfl rfl rfl ⟨rfl, rfl⟩ [.connect _] rfl rfl
        ⟨_, rfl⟩
  | send data =>
    simp only [handle, beginSend]
    split
    · exact h.takes_other hphase hcmd rfl rfl rfl hidle hcalled rfl ⟨_, rfl⟩
    · exact @takes_other _ _ _ h hphase _ _ hcmd rfl rfl rfl ⟨rfl, rfl⟩ [.send data] rfl rfl
        (nothing_more _)
  | disconnect =>
    simp only [handle, beginDisconnect]
    split
    · exact h.takes_other hphase hcmd rfl rfl rfl hidle hcalled rfl (nothing_more _)
    · exact @takes_other _ _ _ h hphase _ _ hcmd rfl rfl rfl ⟨rfl, rfl⟩ [.disconnect] rfl rfl
        ⟨_, rfl⟩
  | setSecret secret =>
    exact @takes_other _ _ _ h hphase _ _ hcmd rfl rfl rfl hidle [.setSecret secret] rfl rfl
      (nothing_more _)
  | setPrivateKey keyPath passphrase =>
    exact @takes_other _ _ _ h hphase _ _ hcmd rfl rfl rfl hidle [.setPrivateKey keyPath passphrase]
      rfl rfl (nothing_more _)
  | shutdown =>
    simp only [handle, beginShutdown]
    split
    · exact @takes_other _ _ _ h hphase _ _ hcmd rfl rfl rfl ⟨rfl, rfl⟩ [.disconnect] rfl rfl
        (nothing_more _)
    · exact h.takes_other hphase hcmd rfl rfl rfl ⟨rfl, rfl⟩ hcalled rfl (nothing_more _)

theorem Serves.polls (h : Serves d sent) (hphase : d.phase = .select) : Turns sent d d.recv := by
  have hcalled : d.calls = d.calls ++ [] := (List.append_nil _).symm
  unfold recv
  split
  · split
    · unfold beginShutdown
      split
      · exact @moves _ _ _ h _ hphase rfl rfl ⟨rfl, rfl⟩ ⟨rfl, rfl⟩ [.disconnect] rfl rfl
          (nothing_more _)
      · exact h.moves hphase rfl rfl ⟨rfl, rfl⟩ ⟨rfl, rfl⟩ hcalled rfl (nothing_more _)
    · exact h.moves hphase rfl rfl ⟨rfl, rfl⟩ ⟨rfl, rfl⟩ hcalled rfl (nothing_more _)
  · next cmd rest hcmd => exact h.handles hphase hcmd

/-! ## §4. Answers. -/

/-- The file request being worked on is answered. -/
theorem Serves.answersFile (h : Serves d sent) {requestId : UInt64} {op : FsOp}
    (hphase : d.phase = .fsOp requestId op) {payload : FilePayload} (hanswers : payload.Answers op) :
    Turns sent d ((d.deliverFile ⟨requestId, payload⟩).goto .select) := by
  refine ⟨⟨h.queue, h.fileHeard, h.taskHeard, fun _ _ hnow => Phase.noConfusion hnow,
    fun _ hnow => Phase.noConfusion hnow⟩, [⟨requestId, payload⟩], [], [], if_pos h.fileHeard,
    (List.append_nil _).symm, (List.append_nil _).symm, nothing_more _, ?_, ?_,
    List.Sublist.refl _, ?_, List.forall_mem_nil _⟩
  · unfold Driver.owedFiles
    rw [hphase]
    rfl
  · unfold Driver.owedTasks
    rw [hphase]
    rfl
  · intro r hr
    obtain rfl := List.mem_singleton.mp hr
    exact ⟨op, h.fsWork requestId op hphase, hanswers⟩

/-- The command being run is answered. -/
theorem Serves.answersTask (h : Serves d sent) {requestId : UInt64}
    (hphase : d.phase = .execOp requestId) (payload : ExecPayload) :
    Turns sent d ((d.deliverTask ⟨requestId, payload⟩).goto .select) := by
  refine ⟨⟨h.queue, h.fileHeard, h.taskHeard, fun _ _ hnow => Phase.noConfusion hnow,
    fun _ hnow => Phase.noConfusion hnow⟩, [], [⟨requestId, payload⟩], [], (List.append_nil _).symm,
    if_pos h.taskHeard, (List.append_nil _).symm, nothing_more _, ?_, ?_,
    List.Sublist.refl _, List.forall_mem_nil _, ?_⟩
  · unfold Driver.owedFiles
    rw [hphase]
    rfl
  · unfold Driver.owedTasks
    rw [hphase]
    rfl
  · intro r hr
    obtain rfl := List.mem_singleton.mp hr
    exact h.execWork requestId hphase

theorem Serves.interrupted (h : Serves d sent) : Turns sent d d.interrupt := by
  have hcalled : d.calls = d.calls ++ [] := (List.append_nil _).symm
  unfold interrupt
  split
  · next hphase =>
    exact @moves _ _ _ h _ hphase rfl rfl ⟨rfl, rfl⟩ ⟨rfl, rfl⟩ [.disconnect] rfl rfl
      (nothing_more _)
  · next hphase => exact h.moves hphase rfl rfl ⟨rfl, rfl⟩ ⟨rfl, rfl⟩ hcalled rfl ⟨_, rfl⟩
  · next hphase => exact h.answersFile hphase (.inl ⟨_, _, rfl⟩)
  · next hphase => exact h.answersTask hphase _
  · exact h.quiet rfl rfl (.inl rfl) hcalled rfl (nothing_more _)

/-- **Every step of the driver's own** hands out what it takes from what is owed. -/
theorem Serves.step (h : Serves d sent) {a : Action} (hown : a.ofHandle = false)
    (hstep : d.step a = some d') : Turns sent d d' := by
  have hcalled : d.calls = d.calls ++ [] := (List.append_nil _).symm
  cases takes_of_step hstep with
  | created hphase =>
    exact @moves _ _ _ h _ hphase rfl rfl ⟨rfl, rfl⟩ ⟨rfl, rfl⟩ [.setHostKeyGate] rfl rfl
      (nothing_more _)
  | notCreated hphase e =>
    exact h.moves hphase rfl rfl ⟨rfl, rfl⟩ ⟨rfl, rfl⟩ hcalled rfl ⟨_, rfl⟩
  -- the handle's own actions are none of these steps
  | submit cmd hopen => cases hown
  | close => cases hown
  | setFileEmitter => cases hown
  | setTaskEmitter => cases hown
  | notified hphase => exact h.quiet rfl rfl (.inl rfl) hcalled rfl (nothing_more _)
  | unheard hphase => exact h.quiet rfl rfl (.inl rfl) hcalled rfl (nothing_more _)
  | sinkEmit attempt ev hpos hstarted =>
    exact h.quiet rfl rfl (.inl rfl) hcalled rfl (nothing_more _)
  | gatePrompt fingerprint hphase hprovider =>
    exact h.quiet rfl rfl (.inl rfl) hcalled rfl ⟨_, rfl⟩
  -- the only step that takes a command off the queue
  | recv hphase => exact h.polls hphase
  | drain hphase =>
    rw [drain_eq]
    exact h.moves hphase rfl rfl ⟨rfl, rfl⟩ ⟨rfl, rfl⟩ hcalled rfl ⟨_, rfl⟩
  | connectReturns result opened hphase =>
    cases result with
    | ok _ =>
      exact @moves _ _ _ h _ hphase rfl rfl ⟨rfl, rfl⟩ ⟨rfl, rfl⟩ [.takeFileProvider] rfl rfl
        ⟨_, rfl⟩
    | error e =>
      exact h.moves hphase rfl rfl ⟨rfl, rfl⟩ ⟨rfl, rfl⟩ hcalled rfl
        ⟨_, List.append_assoc _ _ _⟩
  | sendReturns result hphase =>
    cases result with
    | ok _ => exact h.moves hphase rfl rfl ⟨rfl, rfl⟩ ⟨rfl, rfl⟩ hcalled rfl (nothing_more _)
    | error e => exact h.moves hphase rfl rfl ⟨rfl, rfl⟩ ⟨rfl, rfl⟩ hcalled rfl ⟨_, rfl⟩
  -- the two that answer what the driver worked on
  | fsReturns answer hphase hprovider hpayload => exact h.answersFile hphase (.inr ⟨_, hpayload⟩)
  | fsUnavailable hphase hprovider => exact h.answersFile hphase (.inl ⟨_, _, rfl⟩)
  | execReturns result hphase =>
    cases result with
    | ok output => exact h.answersTask hphase _
    | error e => exact h.answersTask hphase _
  | disconnectReturns hphase =>
    unfold finishDisconnect
    split
    · next hnow =>
      exact h.moves hnow rfl rfl ⟨rfl, rfl⟩ ⟨rfl, rfl⟩ hcalled rfl ⟨_, List.append_assoc _ _ _⟩
    · next hnow => exact h.moves hnow rfl rfl ⟨rfl, rfl⟩ ⟨rfl, rfl⟩ hcalled rfl ⟨_, rfl⟩
    · next hnow =>
      exact h.moves hnow rfl rfl ⟨rfl, rfl⟩ ⟨rfl, rfl⟩ hcalled rfl (nothing_more _)
    · exact h.quiet rfl rfl (.inl rfl) hcalled rfl (nothing_more _)
  | interrupted hphase hnotified => exact h.interrupted

/-! ## §5. What the file provider is asked for. -/

/-- From `d` to `d'` the file provider was asked for nothing that was not in the queue, in its order
and once. -/
def AsksQueued (d d' : Driver) : Prop :=
  ∃ calls, d'.calls = d.calls ++ calls ∧
    (calls.filterMap ProviderCall.fileOp ++ d'.cmdRx.filterMap Command.fsOp).Sublist
      (d.cmdRx.filterMap Command.fsOp)

/-- The file provider is asked for nothing, and nothing is taken out. -/
theorem AsksQueued.of_calls {calls : List ProviderCall} (hcalls : d'.calls = d.calls ++ calls)
    (hnone : calls.filterMap ProviderCall.fileOp = []) (hcmd : d'.cmdRx = d.cmdRx) :
    AsksQueued d d' := by
  refine ⟨calls, hcalls, ?_⟩
  rw [hnone, hcmd]
  exact List.Sublist.refl _

theorem AsksQueued.quiet (hcalls : d'.calls = d.calls) (hcmd : d'.cmdRx = d.cmdRx) :
    AsksQueued d d' := .of_calls (hcalls.trans (List.append_nil _).symm) rfl hcmd

/-- A command asks the file provider for its own operation, if for any. -/
theorem handle_asked (d : Driver) (cmd : Command) :
    ∃ calls, (d.handle cmd).calls = d.calls ++ calls ∧ (d.handle cmd).cmdRx = d.cmdRx ∧
      (calls.filterMap ProviderCall.fileOp).Sublist (Command.fsOp cmd).toList := by
  have hnone : d.calls = d.calls ++ [] := (List.append_nil _).symm
  cases cmd with
  | fs requestId op =>
    simp only [handle, beginFs]
    split
    · exact ⟨[.file op], rfl, rfl, List.Sublist.refl _⟩
    · exact ⟨[], hnone, rfl, List.nil_sublist _⟩
  | exec requestId command timeoutMs =>
    simp only [handle, beginExec]
    split
    · exact ⟨[], hnone, rfl, List.nil_sublist _⟩
    · exact ⟨[.exec command timeoutMs], rfl, rfl, List.nil_sublist _⟩
  | connect =>
    simp only [handle, beginConnect]
    split
    · exact ⟨[], hnone, rfl, List.nil_sublist _⟩
    · exact ⟨[.connect _], rfl, rfl, List.nil_sublist _⟩
  | send data =>
    simp only [handle, beginSend]
    split
    · exact ⟨[], hnone, rfl, List.nil_sublist _⟩
    · exact ⟨[.send data], rfl, rfl, List.nil_sublist _⟩
  | disconnect =>
    simp only [handle, beginDisconnect]
    split
    · exact ⟨[], hnone, rfl, List.nil_sublist _⟩
    · exact ⟨[.disconnect], rfl, rfl, List.nil_sublist _⟩
  | setSecret secret => exact ⟨[.setSecret secret], rfl, rfl, List.nil_sublist _⟩
  | setPrivateKey keyPath passphrase =>
    exact ⟨[.setPrivateKey keyPath passphrase], rfl, rfl, List.nil_sublist _⟩
  | shutdown =>
    simp only [handle, beginShutdown]
    split
    · exact ⟨[.disconnect], rfl, rfl, List.nil_sublist _⟩
    · exact ⟨[], hnone, rfl, List.nil_sublist _⟩

theorem asksQueued_recv (d : Driver) : AsksQueued d d.recv := by
  unfold recv
  split
  · split
    · unfold beginShutdown
      split
      · exact @AsksQueued.of_calls _ _ [.disconnect] rfl rfl rfl
      · exact .quiet rfl rfl
    · exact .quiet rfl rfl
  · next cmd rest hcmd =>
    obtain ⟨calls, hcalls, hrest, hasked⟩ := handle_asked (d.dequeue cmd rest) cmd
    refine ⟨calls, hcalls, ?_⟩
    have hqueue : d.cmdRx.filterMap Command.fsOp
        = (Command.fsOp cmd).toList ++ rest.filterMap Command.fsOp := by
      rw [hcmd]
      cases hop : Command.fsOp cmd with
      | none => rw [List.filterMap_cons_none hop]; rfl
      | some op => rw [List.filterMap_cons_some hop]; rfl
    show (_ ++ ((d.dequeue cmd rest).handle cmd).cmdRx.filterMap Command.fsOp).Sublist _
    rw [hrest, hqueue]
    exact hasked.append_right _

/-- **Every step of the driver's own** asks the file provider for what was queued alone, also when
nobody hears its results any more. -/
theorem asksQueued_step {a : Action} (hown : a.ofHandle = false) (hstep : d.step a = some d') :
    AsksQueued d d' := by
  cases takes_of_step hstep with
  | created hphase => exact @AsksQueued.of_calls _ _ [.setHostKeyGate] rfl rfl rfl
  | submit cmd hopen => cases hown
  | close => cases hown
  | setFileEmitter => cases hown
  | setTaskEmitter => cases hown
  | recv hphase => exact asksQueued_recv d
  | drain hphase =>
    rw [drain_eq]
    exact .quiet rfl rfl
  | connectReturns result opened hphase =>
    cases result with
    | ok _ => exact @AsksQueued.of_calls _ _ [.takeFileProvider] rfl rfl rfl
    | error e => exact .quiet rfl rfl
  | sendReturns result hphase => cases result <;> exact .quiet rfl rfl
  | execReturns result hphase => cases result <;> exact .quiet rfl rfl
  | disconnectReturns hphase =>
    rcases hphase with hphase | hphase | hphase <;> rw [finishDisconnect, hphase] <;>
      exact .quiet rfl rfl
  | interrupted hphase hnotified =>
    unfold interrupt
    split
    · exact @AsksQueued.of_calls _ _ [.disconnect] rfl rfl rfl
    all_goals exact .quiet rfl rfl
  | _ => exact .quiet rfl rfl

end Driver

end ResearchSSH.Core
