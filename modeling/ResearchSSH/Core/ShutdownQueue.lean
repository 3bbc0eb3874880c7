/-
  ResearchSSH.Core.ShutdownQueue — what a driver still does after `shutdown_and_join`.

  `shutdown_and_join` puts `Shutdown` behind everything that is queued and fires the cancel
  signal once.  The signal reaches the await the driver is in, if that one listens to it, and
  nothing else; the queue is first in, first out.  A disconnect listens to no signal, and a connect
  that is cancelled is followed by a disconnect without a bound.  The commands ahead of `Shutdown`
  are taken up one after another, and each one that the driver does not refuse calls the provider.

  Which commands those are depends on the state in which the driver comes back to its queue
  (`resumesIn`) and on the command alone (`Command.reaches`), since a refused command changes
  neither the state nor the file provider.

  Main results:
    * `Winding.step`        — while refused commands wait, no step calls the provider for one.
    * `reached_of_resumes`  — a command that is not refused is carried out in some run.
    * `busyRun_removes`     — a `remove` carried out after the shutdown.
    * `teardown_stops_iff`  — the queues and driver positions for which only the end follows.
-/

import ResearchSSH.Core.DriverAttempts
import ResearchSSH.Core.DriverRequests

namespace ResearchSSH.Core

open ResearchSSH.Library

/-! ## §1. The signal. -/

/-- An operation of the provider is awaited, other than the bounded disconnect before the end. -/
def Phase.inFlight : Phase → Bool
  | .connecting | .cancelledConnect | .sending | .disconnecting | .fsOp _ _ | .execOp _ => true
  | .creating | .noProvider | .select | .pollProvider | .shutdown | .stopped => false

/-- A connect or a disconnect is awaited, which the signal does not reach or which it turns into a
disconnect without a bound. -/
def Phase.connects : Phase → Bool
  | .connecting | .cancelledConnect | .disconnecting => true
  | _ => false

/-- The signal reaches every other await. -/
theorem Phase.cancellable_of_inFlight {phase : Phase} (hflight : phase.inFlight = true)
    (hcalm : phase.connects = false) : phase.cancellable = true := by
  cases phase with
  | connecting | cancelledConnect | disconnecting => cases hcalm
  | sending | fsOp | execOp => rfl
  | creating | noProvider | select | pollProvider | shutdown | stopped => cases hflight

/-- The command makes the driver call its provider, if it is taken up in this state, with or
without a file provider at hand. -/
def Command.reaches (state : RsSessionState) (held : Bool) : Command → Bool
  | .connect => state ≠ .connecting && state ≠ .connected
  | .send _ => state = .connected
  | .exec _ _ _ => state = .connected
  | .disconnect => state = .connected || state = .connecting
  | .fs _ _ => held
  | .setSecret _ => true
  | .setPrivateKey _ _ => true
  | .shutdown => false

theorem beforeShutdown_cons {cmd : Command} (h : cmd ≠ .shutdown) (cmds : List Command) :
    beforeShutdown (cmd :: cmds) = cmd :: beforeShutdown cmds :=
  List.takeWhile_cons_of_pos (by simpa using h)

/-- More commands behind a `Shutdown` do not count. -/
theorem beforeShutdown_append_of_mem {cmds : List Command} (h : Command.shutdown ∈ cmds)
    (more : List Command) : beforeShutdown (cmds ++ more) = beforeShutdown cmds := by
  induction cmds with
  | nil => cases h
  | cons cmd cmds ih =>
    by_cases hcmd : cmd = .shutdown
    · subst hcmd
      rfl
    · have hin : Command.shutdown ∈ cmds := by
        rcases List.mem_cons.mp h with heq | hin
        · exact absurd heq.symm hcmd
        · exact hin
      rw [List.cons_append, beforeShutdown_cons hcmd, beforeShutdown_cons hcmd, ih hin]

/-- The commands ahead of the `Shutdown` that is sent now. -/
theorem beforeShutdown_snoc (cmds : List Command) :
    beforeShutdown (cmds ++ [Command.shutdown]) = beforeShutdown cmds := by
  by_cases h : Command.shutdown ∈ cmds
  · exact beforeShutdown_append_of_mem h _
  · rw [beforeShutdown_append h [Command.shutdown], beforeShutdown_eq h]
    exact List.append_nil cmds

namespace Driver

/-- `shutdown_and_join` up to the join: `Shutdown` is sent, and the cancel signal fires. -/
def signalShutdown (d : Driver) : Driver :=
  let d := { d with cmdRx := d.cmdRx ++ [Command.shutdown] }
  if d.phase.cancellable then { d with notified := true } else d

/-- The shutdown is queued and signalled in two steps. -/
theorem exec_signalShutdown {d : Driver} (hopen : d.closed = false) :
    exec Driver.step d [.submit .shutdown, .cancel] = some d.signalShutdown := by
  have hsubmit : d.step (.submit .shutdown)
      = some { d with cmdRx := d.cmdRx ++ [.shutdown] } := by
    rw [step, if_neg (by rw [hopen]; decide)]
  rw [exec_cons, hsubmit, Option.bind_some, exec_singleton]
  by_cases hphase : d.phase.cancellable = true <;> simp [step, signalShutdown, hphase]

/-- The step calls the provider for nothing but to end: the bounded disconnect before the loop is
left.  Setting up a provider that was just created asks it for nothing. -/
def OnlyEnds (d : Driver) (a : Action) : Prop :=
  ∀ d', d.step a = some d' →
    d'.calls = d.calls ∨
    (d'.calls = d.calls ++ [.disconnect] ∧ d'.phase = .shutdown) ∨
    (d'.calls = d.calls ++ [.setHostKeyGate] ∧ d.phase = .creating)

/-- **Teardown stops queued work**: an operation in flight is cancelled, and whatever happens next,
the only call of the provider is the bounded disconnect before the end. -/
def TeardownStops (d : Driver) : Prop :=
  (d.phase.inFlight = true → ∃ d', d.signalShutdown.step .interrupted = some d') ∧
    ∀ acts, Along Driver.step OnlyEnds d.signalShutdown acts

/-- The state that the events in the channel leave the session in. -/
def drained (d : Driver) : RsSessionState :=
  (d.decisive.bind fun e => e.2.outcome).getD d.state

/-- The state after a drain. -/
theorem drain_drained (d : Driver) : d.drain.state = d.drained := drain_state d

/-- The states in which the driver can come back to its queue, and whether it then holds a
file provider.  More events can reach the channel before it is drained. -/
def resumesIn (d : Driver) : List (RsSessionState × Bool) :=
  let held := d.fileProvider.isSome
  match d.phase with
  | .noProvider | .shutdown | .stopped => []
  | .creating | .select | .sending | .fsOp _ _ | .execOp _ => [(d.state, held)]
  | .pollProvider =>
    (d.drained, held) ::
      if 1 ≤ d.attempts then [(.disconnected, held), (.failed, held)] else []
  | .connecting => [(.connected, true), (.connected, false), (.failed, held), (.disconnected, held)]
  | .cancelledConnect | .disconnecting => [(.disconnected, held)]

/-! ## §2. Refused commands. -/

/-- A refused command leaves the driver at its queue, or at a file operation without a file
provider. -/
theorem handle_refused {d : Driver} {cmd : Command} (hcmd : cmd ≠ .shutdown)
    (hrefused : cmd.reaches d.state d.fileProvider.isSome = false) :
    (d.handle cmd).calls = d.calls ∧ (d.handle cmd).state = d.state ∧
      (d.handle cmd).fileProvider = d.fileProvider ∧ (d.handle cmd).cmdRx = d.cmdRx ∧
      ((d.handle cmd).phase = d.phase ∨
        d.fileProvider.isSome = false ∧ ∃ requestId op, (d.handle cmd).phase = .fsOp requestId op) := by
  cases cmd with
  | connect =>
    have hstate : d.state = .connecting ∨ d.state = .connected := by
      by_contra hnot
      simp [Command.reaches] at hrefused
      tauto
    simp [handle, beginConnect, hstate]
  | send data =>
    have hstate : d.state ≠ .connected := by simpa [Command.reaches] using hrefused
    simp [handle, beginSend, hstate]
  | exec requestId command timeoutMs =>
    have hstate : d.state ≠ .connected := by simpa [Command.reaches] using hrefused
    simp [handle, beginExec, hstate]
  | disconnect =>
    have hstate : ¬ (d.state = .connected ∨ d.state = .connecting) := by
      simpa [Command.reaches] using hrefused
    simp [handle, beginDisconnect, hstate]
  | fs requestId op =>
    have hheld : d.fileProvider.isSome = false := hrefused
    simp [handle, beginFs, hheld]
  | setSecret secret => cases hrefused
  | setPrivateKey keyPath passphrase => cases hrefused
  | shutdown => exact absurd rfl hcmd

/-- A command that is not refused calls the provider, and not to end. -/
theorem handle_reaches {d : Driver} {cmd : Command} (hphase : d.phase = .select)
    (hreaches : cmd.reaches d.state d.fileProvider.isSome = true) :
    ∃ c, (d.handle cmd).calls = d.calls ++ [c] ∧ c ≠ .setHostKeyGate ∧
      (d.handle cmd).phase ≠ .shutdown := by
  cases cmd with
  | connect =>
    have hstate : ¬ (d.state = .connecting ∨ d.state = .connected) := by
      simpa [Command.reaches] using hreaches
    simp [handle, beginConnect, hstate]
  | send data =>
    have hstate : d.state = .connected := by simpa [Command.reaches] using hreaches
    simp [handle, beginSend, hstate]
  | exec requestId command timeoutMs =>
    have hstate : d.state = .connected := by simpa [Command.reaches] using hreaches
    simp [handle, beginExec, hstate]
  | disconnect =>
    have hstate : d.state = .connected ∨ d.state = .connecting := by
      simpa [Command.reaches] using hreaches
    simp [handle, beginDisconnect, hstate]
  | fs requestId op =>
    have hheld : d.fileProvider.isSome = true := hreaches
    simp [handle, beginFs, hheld]
  | setSecret secret => simp [handle, hphase]
  | setPrivateKey keyPath passphrase => simp [handle, hphase]
  | shutdown => cases hreaches

/-- Taking such a command up is a call for more than the end. -/
theorem not_onlyEnds_recv {d : Driver} {cmd : Command} {rest : List Command}
    (hphase : d.phase = .select) (hqueue : d.cmdRx = cmd :: rest)
    (hreaches : cmd.reaches d.state d.fileProvider.isSome = true) : ¬ d.OnlyEnds .recv := by
  intro h
  have hstep : d.step .recv = some d.recv := if_pos hphase
  have hrecv : d.recv
      = { d with cmdRx := rest, dequeued := d.dequeued ++ [cmd] }.handle cmd := by
    rw [recv, hqueue]
  obtain ⟨c, hcalls, hgate, hnot⟩ :=
    handle_reaches (d := { d with cmdRx := rest, dequeued := d.dequeued ++ [cmd] }) hphase hreaches
  rw [← hrecv] at hcalls hnot
  rcases h _ hstep with hsame | ⟨_, hend⟩ | ⟨hlast, _⟩
  · rw [hcalls] at hsame
    simp at hsame
  · exact hnot hend
  · rw [hcalls] at hlast
    simp only [List.append_cancel_left_eq, List.cons.injEq, and_true] at hlast
    exact hgate hlast

/-! ## §3. While only refused commands wait. -/

/-- No connect or disconnect is awaited, and the driver is done with its queue, or will find
`Shutdown` in it and nothing ahead that it does not refuse. -/
structure Winding (d : Driver) : Prop where
  calm : d.phase.connects = false
  queued : d.resumesIn ≠ [] → Command.shutdown ∈ d.cmdRx
  quiet : ∀ p ∈ d.resumesIn, ∀ cmd ∈ beforeShutdown d.cmdRx, cmd.reaches p.1 p.2 = false

/-- A step that leaves the queue alone, and leads to no other state at the queue. -/
theorem Winding.frame {d d' : Driver} (h : Winding d) (hqueue : d'.cmdRx = d.cmdRx)
    (hcalm : d'.phase.connects = false) (hresumes : d'.resumesIn ⊆ d.resumesIn) : Winding d' where
  calm := hcalm
  queued := by
    intro hne
    rw [hqueue]
    obtain ⟨p, hp⟩ := List.exists_mem_of_ne_nil _ hne
    exact h.queued (List.ne_nil_of_mem (hresumes hp))
  quiet := by
    intro p hp
    rw [hqueue]
    exact h.quiet p (hresumes hp)

/-- A command more. -/
theorem Winding.submit {d : Driver} (h : Winding d) (cmd : Command) :
    Winding { d with cmdRx := d.cmdRx ++ [cmd] } where
  calm := h.calm
  queued := fun hne => List.mem_append_left _ (h.queued hne)
  quiet := by
    intro p hp
    have hqueued := h.queued (List.ne_nil_of_mem hp)
    show ∀ c ∈ beforeShutdown (d.cmdRx ++ [cmd]), c.reaches p.1 p.2 = false
    rw [beforeShutdown_append_of_mem hqueued]
    exact h.quiet p hp

theorem resumesIn_select {d : Driver} (hphase : d.phase = .select) :
    d.resumesIn = [(d.state, d.fileProvider.isSome)] := by
  rw [resumesIn, hphase]

theorem resumesIn_poll {d : Driver} (hphase : d.phase = .pollProvider) (hstarted : 1 ≤ d.attempts) :
    d.resumesIn = [(d.drained, d.fileProvider.isSome), (.disconnected, d.fileProvider.isSome),
      (.failed, d.fileProvider.isSome)] := by
  rw [resumesIn, hphase]
  simp only [if_pos hstarted]

/-- One more event in the channel. -/
theorem drained_sinkEmit (d : Driver) (n : Nat) (ev : ProviderEvent) :
    drained { d with provRx := d.provRx ++ [(n, ev)] } = ev.outcome.getD d.drained := by
  unfold drained decisive
  rw [List.filter_append]
  cases hout : ev.outcome with
  | none => simp [hout]
  | some s => simp [hout]

/-- An event of the provider. -/
theorem Winding.sinkEmit {d : Driver} (h : Winding d) {n : Nat} {ev : ProviderEvent}
    (hstarted : 1 ≤ d.attempts) : Winding { d with provRx := d.provRx ++ [(n, ev)] } := by
  refine h.frame rfl h.calm ?_
  by_cases hphase : d.phase = .pollProvider
  · -- what the event makes of the channel was among the possibilities
    rw [resumesIn_poll hphase hstarted,
      resumesIn_poll (d := { d with provRx := d.provRx ++ [(n, ev)] }) hphase hstarted,
      drained_sinkEmit]
    cases ev <;> simp [ProviderEvent.outcome]
  · have hsame : resumesIn { d with provRx := d.provRx ++ [(n, ev)] } = d.resumesIn := by
      unfold resumesIn
      cases hp : d.phase <;> simp_all
    rw [hsame]
    exact List.Subset.refl _

/-- A command is received. -/
theorem Winding.recv {d : Driver} (h : Winding d) (hphase : d.phase = .select) :
    Winding d.recv ∧ d.OnlyEnds .recv := by
  have hresumes := resumesIn_select hphase
  have hqueued := h.queued (by rw [hresumes]; simp)
  have hquiet := h.quiet _ (by rw [hresumes]; exact List.mem_singleton_self _)
  have hstep : ∀ d', d.step .recv = some d' → d' = d.recv := by
    intro d' hd'
    rw [step, if_pos hphase, Option.some.injEq] at hd'
    exact hd'.symm
  cases hqueue : d.cmdRx with
  | nil =>
    rw [hqueue] at hqueued
    cases hqueued
  | cons cmd rest =>
    have hrecv : d.recv = { d with cmdRx := rest, dequeued := d.dequeued ++ [cmd] }.handle cmd := by
      rw [Driver.recv, hqueue]
    by_cases hcmd : cmd = .shutdown
    · subst hcmd
      -- the loop is left, with a bounded disconnect where there is a connection
      have hends : d.recv.resumesIn = [] ∧ d.recv.phase.connects = false ∧
          (d.recv.calls = d.calls ∨
            d.recv.calls = d.calls ++ [.disconnect] ∧ d.recv.phase = .shutdown) := by
        rw [hrecv, Driver.handle, beginShutdown]
        split
        · exact ⟨rfl, rfl, .inr ⟨rfl, rfl⟩⟩
        · exact ⟨rfl, rfl, .inl rfl⟩
      obtain ⟨hnone, hcalm, hcalls⟩ := hends
      refine ⟨⟨hcalm, fun hne => absurd hnone hne, ?_⟩, ?_⟩
      · rw [hnone]
        simp
      · intro d' hd'
        rw [hstep d' hd']
        rcases hcalls with hsame | hlast
        · exact .inl hsame
        · exact .inr (.inl hlast)
    · rw [hqueue, beforeShutdown_cons hcmd] at hquiet
      obtain ⟨hcalls, hstate, hheld, hrest, hmoved⟩ :=
        handle_refused (d := { d with cmdRx := rest, dequeued := d.dequeued ++ [cmd] }) hcmd
          (hquiet cmd List.mem_cons_self)
      rw [← hrecv] at hcalls hstate hheld hrest hmoved
      have hsame : d.recv.resumesIn = [(d.state, d.fileProvider.isSome)] ∧
          d.recv.phase.connects = false := by
        rcases hmoved with hphase' | ⟨_, requestId, op, hphase'⟩
        · have hselect := hphase'.trans hphase
          rw [resumesIn_select hselect, hstate, hheld, hselect]
          exact ⟨rfl, rfl⟩
        · rw [resumesIn, hphase', hstate, hheld]
          exact ⟨rfl, rfl⟩
      refine ⟨⟨hsame.2, fun _ => ?_, ?_⟩, ?_⟩
      · rw [hqueue] at hqueued
        rcases List.mem_cons.mp hqueued with heq | hin
        · exact absurd heq.symm hcmd
        · rw [hrest]
          exact hin
      · rw [hsame.1, hrest]
        intro p hp c hc
        rw [List.mem_singleton.mp hp]
        exact hquiet c (List.mem_cons_of_mem _ hc)
      · intro d' hd'
        rw [hstep d' hd']
        exact .inl hcalls

/-- **While only refused commands wait, no step calls the provider but to end.** -/
theorem Winding.step {d d' : Driver} {a : Action} (h : Winding d) (hstep : d.step a = some d') :
    Winding d' := by
  have hcalm := h.calm
  cases takes_of_step hstep with
  | created hphase =>
    refine h.frame rfl rfl ?_
    rw [resumesIn_select rfl, resumesIn, hphase]
    exact List.Subset.refl _
  | notCreated hphase e => exact h.frame rfl rfl (List.nil_subset _)
  | submit cmd hopen => exact h.submit cmd
  | close | setFileEmitter | setTaskEmitter | notified | gatePrompt =>
    exact h.frame rfl hcalm (List.Subset.refl _)
  | unheard hphase => exact h
  | sinkEmit attempt ev hpos hstarted => exact h.sinkEmit (by omega)
  | recv hphase => exact (h.recv hphase).1
  | drain hphase =>
    rw [drain_eq]
    refine h.frame rfl rfl ?_
    rw [resumesIn_select rfl, resumesIn, hphase]
    have hstate := drain_drained d
    rw [drain_eq] at hstate
    simp only at hstate
    rw [hstate]
    exact List.cons_subset.mpr ⟨List.mem_cons_self, List.nil_subset _⟩
  | connectReturns result opened hphase =>
    -- no connect is awaited
    rw [hphase] at hcalm
    cases hcalm
  | sendReturns result hphase =>
    cases result <;> refine h.frame rfl rfl ?_ <;> simp [resumesIn, hphase, finishSend]
  | fsReturns answer hphase hprovider hpayload =>
    refine h.frame rfl rfl ?_
    simp [resumesIn, hphase, finishFs]
  | fsUnavailable hphase hprovider =>
    refine h.frame rfl rfl ?_
    simp [resumesIn, hphase, finishFs]
  | execReturns result hphase =>
    cases result <;> refine h.frame rfl rfl ?_ <;> simp [resumesIn, hphase, finishExec]
  | disconnectReturns hphase =>
    rcases hphase with hphase | hphase | hphase
    · rw [hphase] at hcalm
      cases hcalm
    · rw [hphase] at hcalm
      cases hcalm
    · -- the bounded disconnect before the end
      rw [finishDisconnect, hphase]
      exact h.frame rfl rfl (List.nil_subset _)
  | interrupted hphase hnotified =>
    unfold Driver.interrupt
    split
    · next hp =>
      rw [hp] at hcalm
      cases hcalm
    · next hp =>
      refine h.frame rfl rfl ?_
      simp [resumesIn, hp]
    · next hp =>
      refine h.frame rfl rfl ?_
      simp [resumesIn, hp]
    · next hp =>
      refine h.frame rfl rfl ?_
      simp [resumesIn, hp]
    · exact h

/-- A driver that winds down only ends what there is. -/
theorem Winding.onlyEnds {d : Driver} (h : Winding d) (a : Action) : d.OnlyEnds a := by
  intro d' hstep
  have hcalm := h.calm
  cases takes_of_step hstep with
  | created hphase => exact .inr (.inr ⟨rfl, hphase⟩)
  | recv hphase => exact (h.recv hphase).2 _ hstep
  | drain hphase =>
    rw [drain_eq]
    exact .inl rfl
  | connectReturns result opened hphase =>
    rw [hphase] at hcalm
    cases hcalm
  | sendReturns result hphase => cases result <;> exact .inl rfl
  | execReturns result hphase => cases result <;> exact .inl rfl
  | disconnectReturns hphase =>
    rcases hphase with hphase | hphase | hphase <;> rw [finishDisconnect, hphase] <;> exact .inl rfl
  | interrupted hphase hnotified =>
    unfold Driver.interrupt
    split
    · next hp =>
      rw [hp] at hcalm
      cases hcalm
    all_goals exact .inl rfl
  | _ => exact .inl rfl

/-! ## §4. Where a command is carried out. -/

/-- A refused command is taken up and done with. -/
theorem exec_refused {d : Driver} {cmd : Command} {rest : List Command}
    (hphase : d.phase = .select) (hqueue : d.cmdRx = cmd :: rest) (hcmd : cmd ≠ .shutdown)
    (hrefused : cmd.reaches d.state d.fileProvider.isSome = false) :
    ∃ acts d', exec Driver.step d acts = some d' ∧ d'.phase = .select ∧ d'.state = d.state ∧
      d'.fileProvider = d.fileProvider ∧ d'.cmdRx = rest := by
  have hstep : d.step .recv = some d.recv := if_pos hphase
  have hrecv : d.recv = { d with cmdRx := rest, dequeued := d.dequeued ++ [cmd] }.handle cmd := by
    rw [recv, hqueue]
  obtain ⟨_, hstate, hheld, hrest, hmoved⟩ :=
    handle_refused (d := { d with cmdRx := rest, dequeued := d.dequeued ++ [cmd] }) hcmd hrefused
  rw [← hrecv] at hstate hheld hrest hmoved
  rcases hmoved with hstays | ⟨hnone, requestId, op, hfs⟩
  · exact ⟨[.recv], d.recv, (exec_singleton _ _ _).trans hstep, hstays.trans hphase, hstate, hheld,
      hrest⟩
  · -- a file command without a file provider ends at once
    have hanswer : d.recv.step .fsUnavailable = some (d.recv.finishFs requestId fsUnavailable) := by
      have hgone : d.recv.fileProvider.isSome = false := by rw [hheld]; exact hnone
      rw [Driver.step, hfs]
      simp [hgone]
    refine ⟨[.recv, .fsUnavailable], d.recv.finishFs requestId fsUnavailable, ?_, rfl, hstate,
      hheld, hrest⟩
    rw [exec_cons, hstep, Option.bind_some, exec_singleton, hanswer]

/-- At the queue: some run takes up the first command that is not refused. -/
theorem reached_of_select (cmds : List Command) : ∀ {d : Driver}, d.phase = .select →
    d.cmdRx = cmds → (∃ cmd ∈ beforeShutdown cmds,
      cmd.reaches d.state d.fileProvider.isSome = true) →
        ∃ acts, ¬ Along Driver.step OnlyEnds d acts := by
  induction cmds with
  | nil =>
    rintro d _ _ ⟨cmd, hin, _⟩
    cases hin
  | cons first rest ih =>
    rintro d hphase hqueue ⟨cmd, hin, hreaches⟩
    by_cases hfirst : first.reaches d.state d.fileProvider.isSome = true
    · refine ⟨[.recv], fun h => ?_⟩
      exact not_onlyEnds_recv hphase hqueue hfirst (along_cons.mp h).1
    · have hrefused : first.reaches d.state d.fileProvider.isSome = false := by
        simpa using hfirst
      have hne : first ≠ .shutdown := by
        rintro rfl
        cases hin
      rw [beforeShutdown_cons hne] at hin
      have hlater : cmd ∈ beforeShutdown rest := by
        rcases List.mem_cons.mp hin with rfl | hlater
        · exact absurd hreaches hfirst
        · exact hlater
      obtain ⟨pre, d', hpre, hphase', hstate, hheld, hrest⟩ :=
        exec_refused hphase hqueue hne hrefused
      obtain ⟨acts, hacts⟩ := ih hphase' hrest ⟨cmd, hlater, by rw [hstate, hheld]; exact hreaches⟩
      exact ⟨pre ++ acts, fun h => hacts (h.suffix hpre)⟩

/-- The driver can come back to its queue in the state `p`, with the queue as it is. -/
def Resumes (d : Driver) (p : RsSessionState × Bool) : Prop :=
  ∃ acts d', exec Driver.step d acts = some d' ∧ d'.phase = .select ∧
    (d'.state, d'.fileProvider.isSome) = p ∧ d'.cmdRx = d.cmdRx

theorem Resumes.here {d : Driver} {p : RsSessionState × Bool} (hphase : d.phase = .select)
    (hp : p = (d.state, d.fileProvider.isSome)) : Resumes d p :=
  ⟨[], d, rfl, hphase, hp.symm, rfl⟩

theorem Resumes.after {d d' : Driver} {a : Action} {p : RsSessionState × Bool}
    (hstep : d.step a = some d') (hqueue : d'.cmdRx = d.cmdRx) (h : Resumes d' p) :
    Resumes d p := by
  obtain ⟨acts, e, hexec, hphase, hp, hcmd⟩ := h
  refine ⟨a :: acts, e, ?_, hphase, hp, hcmd.trans hqueue⟩
  rw [exec_cons, hstep, Option.bind_some, hexec]

/-- The cancel signal that has fired ends the operation. -/
theorem step_interrupted {d : Driver} (hphase : d.phase.cancellable = true)
    (hnotified : d.phase.cancellable = true → d.notified = true) :
    d.step .interrupted = some d.interrupt := if_pos ⟨hphase, hnotified hphase⟩

/-- A channel that ends in the event `ev` is drained into its outcome. -/
theorem Resumes.of_emitted {d : Driver} (ev : ProviderEvent) {s : RsSessionState}
    (hphase : d.phase = .pollProvider) (hstarted : 1 ≤ d.attempts) (hout : ev.outcome = some s) :
    Resumes d (s, d.fileProvider.isSome) := by
  have hemit : d.step (.sinkEmit d.attempts ev)
      = some { d with provRx := d.provRx ++ [(d.attempts, ev)] } := if_pos ⟨hstarted, le_rfl⟩
  have hdrain : Driver.step { d with provRx := d.provRx ++ [(d.attempts, ev)] } .drain
      = some (drain { d with provRx := d.provRx ++ [(d.attempts, ev)] }) := if_pos hphase
  refine .after hemit rfl (.after hdrain ?_ (.here ?_ ?_))
  · rw [drain_eq]
  · rw [drain_eq]
  · have hdrained := drained_sinkEmit d d.attempts ev
    rw [hout, Option.getD_some] at hdrained
    rw [drain_drained, hdrained, drain_held]

/-- **The driver comes back to its queue in each of the states listed.** -/
theorem resumes_of_mem {d : Driver} {p : RsSessionState × Bool} (hp : p ∈ d.resumesIn)
    (hnotified : d.phase.cancellable = true → d.notified = true) : Resumes d p := by
  cases hphase : d.phase with
  | noProvider | shutdown | stopped => simp [resumesIn, hphase] at hp
  | creating =>
    have hpair : p = (d.state, d.fileProvider.isSome) := by simpa [resumesIn, hphase] using hp
    have hstep : d.step (.createProvider (.ok ())) = some ((d.call .setHostKeyGate).goto .select) :=
      if_pos hphase
    exact .after hstep rfl (.here rfl hpair)
  | select =>
    have hpair : p = (d.state, d.fileProvider.isSome) := by simpa [resumesIn, hphase] using hp
    exact .here hphase hpair
  | sending | fsOp | execOp =>
    have hpair : p = (d.state, d.fileProvider.isSome) := by simpa [resumesIn, hphase] using hp
    have hstep := step_interrupted (d := d) (by rw [hphase]; rfl) hnotified
    rw [interrupt, hphase] at hstep
    exact .after hstep rfl (.here rfl hpair)
  | cancelledConnect | disconnecting =>
    have hpair : p = (.disconnected, d.fileProvider.isSome) := by
      simpa [resumesIn, hphase] using hp
    have hstep : d.step .disconnectReturns = some d.finishDisconnect := by
      simp [Driver.step, hphase]
    rw [finishDisconnect, hphase] at hstep
    exact .after hstep rfl (.here rfl hpair)
  | connecting =>
    have hstep : ∀ result opened, d.step (.connectReturns result opened)
        = some (d.finishConnect result opened) := fun _ _ => if_pos hphase
    simp only [resumesIn, hphase, List.mem_cons, List.not_mem_nil, or_false] at hp
    rcases hp with hopened | hwithout | hfailed | hcancelled
    · exact .after (hstep (.ok ()) true) rfl (.here rfl hopened)
    · exact .after (hstep (.ok ()) false) rfl (.here rfl hwithout)
    · exact .after (hstep (.error { code := .connectFailed, detail := none }) false) rfl
        (.here rfl hfailed)
    · -- the cancel branch waits for its disconnect
      have hcancel := step_interrupted (d := d) (by rw [hphase]; rfl) hnotified
      rw [interrupt, hphase] at hcancel
      have hdone : ((d.call .disconnect).goto .cancelledConnect).step .disconnectReturns
          = some ((d.call .disconnect).goto .cancelledConnect).finishDisconnect := rfl
      exact .after hcancel rfl (.after hdone rfl (.here rfl hcancelled))
  | pollProvider =>
    have hdrain : d.step .drain = some d.drain := if_pos hphase
    rw [resumesIn, hphase] at hp
    rcases List.mem_cons.mp hp with hnow | hmore
    · refine .after hdrain (by rw [drain_eq]) (.here (by rw [drain_eq]) ?_)
      rw [drain_drained, drain_held]
      exact hnow
    · split at hmore
      · next hstarted =>
        simp only [List.mem_cons, List.not_mem_nil, or_false] at hmore
        rcases hmore with rfl | rfl
        · exact .of_emitted (.disconnected "") hphase hstarted rfl
        · exact .of_emitted (.error { code := .internal, detail := none }) hphase hstarted rfl
      · cases hmore

/-! ## §5. Teardown. -/

theorem resumesIn_signalShutdown (d : Driver) : d.signalShutdown.resumesIn = d.resumesIn := by
  unfold signalShutdown
  simp only
  split <;> rfl

theorem cmdRx_signalShutdown (d : Driver) :
    d.signalShutdown.cmdRx = d.cmdRx ++ [Command.shutdown] := by
  unfold signalShutdown
  simp only
  split <;> rfl

/-- Whatever could be cancelled hears the signal. -/
theorem notified_signalShutdown (d : Driver) :
    d.signalShutdown.phase.cancellable = true → d.signalShutdown.notified = true := by
  unfold signalShutdown
  simp only
  split
  · exact fun _ => rfl
  · next hphase => exact fun h => absurd h hphase

/-- Some run after the shutdown carries out a command that is not refused. -/
theorem reached_of_resumes {d : Driver} {p : RsSessionState × Bool} (hp : p ∈ d.resumesIn)
    {cmd : Command} (hcmd : cmd ∈ beforeShutdown d.cmdRx) (hreaches : cmd.reaches p.1 p.2 = true) :
    ∃ acts, ¬ Along Driver.step OnlyEnds d.signalShutdown acts := by
  rw [← resumesIn_signalShutdown] at hp
  obtain ⟨pre, d', hpre, hphase, hstate, hqueue⟩ := resumes_of_mem hp d.notified_signalShutdown
  have hahead : beforeShutdown d'.cmdRx = beforeShutdown d.cmdRx := by
    rw [hqueue, cmdRx_signalShutdown, beforeShutdown_snoc]
  subst hstate
  obtain ⟨acts, hacts⟩ :=
    reached_of_select d'.cmdRx hphase rfl ⟨cmd, by rw [hahead]; exact hcmd, hreaches⟩
  exact ⟨pre ++ acts, fun h => hacts (h.suffix hpre)⟩

theorem phase_signalShutdown (d : Driver) : d.signalShutdown.phase = d.phase := by
  unfold signalShutdown
  simp only
  split <;> rfl

/-- The disconnect after a cancelled connect has no bound. -/
theorem not_onlyEnds_connecting {d : Driver} (hphase : d.phase = .connecting)
    (hnotified : d.notified = true) : ¬ d.OnlyEnds .interrupted := by
  intro h
  have hstep : d.step .interrupted = some ((d.call .disconnect).goto .cancelledConnect) := by
    rw [step_interrupted (by rw [hphase]; rfl) (fun _ => hnotified), interrupt, hphase]
  rcases h _ hstep with hsame | ⟨_, hend⟩ | ⟨_, hcreating⟩
  · simp at hsame
  · cases hend
  · rw [hphase] at hcreating
    cases hcreating

/-- A connect or disconnect that is awaited is not cancelled, or with a disconnect without bound. -/
theorem not_teardownStops_connects {d : Driver} (hconnects : d.phase.connects = true) :
    ¬ d.TeardownStops := by
  rintro ⟨hcancels, hends⟩
  have hsame := phase_signalShutdown d
  cases hphase : d.phase with
  | connecting =>
    rw [hphase] at hsame
    have hnotified := d.notified_signalShutdown (by rw [hsame]; rfl)
    exact not_onlyEnds_connecting hsame hnotified (along_cons.mp (hends [.interrupted])).1
  | cancelledConnect =>
    obtain ⟨d', hstep⟩ := hcancels (by rw [hphase]; rfl)
    rw [hphase] at hsame
    rw [step, hsame] at hstep
    cases hstep
  | disconnecting =>
    obtain ⟨d', hstep⟩ := hcancels (by rw [hphase]; rfl)
    rw [hphase] at hsame
    rw [step, hsame] at hstep
    cases hstep
  | _ =>
    rw [hphase] at hconnects
    cases hconnects

/-- A listing is under way and a `remove` is queued. -/
def busyRun : List Action :=
  [.createProvider (.ok ()), .submit .connect, .recv, .connectReturns (.ok ()) true,
    .submit (.fs 1 (.list ['/'])), .submit (.fs 2 (.remove "/data".toList true)), .recv]

/-- The listing is cancelled, and then the `remove` is carried out. -/
theorem busyRun_removes :
    ∃ d, exec Driver.step initial busyRun = some d ∧
      exec Driver.step d [.submit .shutdown, .cancel] = some d.signalShutdown ∧
      (exec Driver.step d.signalShutdown [.interrupted, .recv]).map (·.calls.getLast?)
        = some (some (.file (.remove "/data".toList true))) ∧
      ¬ d.TeardownStops := by
  obtain ⟨d, hrun⟩ : ∃ d, exec Driver.step initial busyRun = some d :=
    Option.isSome_iff_exists.mp (by decide)
  have hview : (exec Driver.step initial busyRun).map (fun d => (d.closed,
      (exec Driver.step d.signalShutdown [.interrupted, .recv]).map (·.calls.getLast?)))
        = some (false, some (some (.file (.remove "/data".toList true)))) := rfl
  have hwaits : (exec Driver.step initial busyRun).map (fun d =>
      (d.resumesIn, beforeShutdown d.cmdRx))
        = some ([(.connected, true)], [.fs 2 (.remove "/data".toList true)]) := rfl
  rw [hrun, Option.map_some, Option.some.injEq, Prod.mk.injEq] at hview hwaits
  obtain ⟨hopen, hcall⟩ := hview
  obtain ⟨hresumes, hahead⟩ := hwaits
  refine ⟨d, hrun, exec_signalShutdown hopen, hcall, fun h => ?_⟩
  have hp : ((.connected, true) : RsSessionState × Bool) ∈ d.resumesIn := by
    rw [hresumes]
    exact List.mem_singleton_self _
  have hcmd : Command.fs 2 (.remove "/data".toList true) ∈ beforeShutdown d.cmdRx := by
    rw [hahead]
    exact List.mem_singleton_self _
  obtain ⟨acts, hacts⟩ := reached_of_resumes hp hcmd rfl
  exact hacts (h.2 acts)

/-- **When teardown stops queued work.**  For every queue and driver position, teardown stops
queued work exactly if no connect or disconnect is awaited, and every command ahead of `Shutdown`
is one that the driver refuses in whatever state it comes back to its queue. -/
theorem teardown_stops_iff (d : Driver) :
    d.TeardownStops ↔ d.phase.connects = false ∧
      ∀ p ∈ d.resumesIn, ∀ cmd ∈ beforeShutdown d.cmdRx, cmd.reaches p.1 p.2 = false := by
  constructor
  · intro h
    refine ⟨?_, fun p hp cmd hcmd => ?_⟩
    · rw [Bool.eq_false_iff]
      exact fun hconnects => not_teardownStops_connects hconnects h
    · by_contra hnot
      obtain ⟨acts, hacts⟩ := reached_of_resumes hp hcmd (by simpa using hnot)
      exact hacts (h.2 acts)
  · rintro ⟨hcalm, h⟩
    have hwinding : Winding d.signalShutdown := by
      refine ⟨by rw [phase_signalShutdown]; exact hcalm, fun _ => ?_, ?_⟩
      · rw [cmdRx_signalShutdown]
        simp
      · rw [resumesIn_signalShutdown, cmdRx_signalShutdown, beforeShutdown_snoc]
        exact h
    refine ⟨fun hflight => ?_, fun acts => ?_⟩
    · have hphase := Phase.cancellable_of_inFlight hflight hcalm
      rw [← phase_signalShutdown] at hphase
      exact ⟨_, step_interrupted hphase d.notified_signalShutdown⟩
    · exact Invariant.along (fun d a hd => hd.onlyEnds a) (fun _ _ _ hd hstep => hd.step hstep)
        hwinding

end Driver

end ResearchSSH.Core
