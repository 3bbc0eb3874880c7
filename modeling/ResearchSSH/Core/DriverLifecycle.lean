/-
  ResearchSSH.Core.DriverLifecycle — the stream of states a driver announces.

  The state is written in eight places: the command arms, the cancel branches and the
  provider event arm.  What makes the announced stream sound is a relation between the
  program counter and the state (`Phase.Admits`): while a connect is awaited the state is
  `Connecting`, while a disconnect command is carried out it is `Disconnecting`, and at the
  `select!` it is neither.  So a drained batch never falls between a start and its outcome.

  Main results:
    * `Lifecycle.step` — every step of a driver with a provider keeps the invariant.
    * `lifecycle_sound` — the announced states of every run.
-/

import ResearchSSH.Core.Driver

namespace ResearchSSH.Core

open ResearchSSH.Library

/-! ## §1. The allowed pairs. -/

/-- The states that may be announced directly after a state. -/
def Allowed : RsSessionState → RsSessionState → Prop
  | .idle, s => s = .connecting
  | .connecting, s => s = .connected ∨ s = .failed ∨ s = .disconnected
  | .connected, s => s = .disconnecting ∨ s = .disconnected ∨ s = .failed
  | .disconnecting, s => s = .disconnected
  | .disconnected, s => s = .connecting ∨ s = .disconnected ∨ s = .failed
  | .failed, s => s = .connecting ∨ s = .disconnected ∨ s = .failed

/-- Nothing is followed by `Idle`, so a walk that ends there is empty. -/
theorem walk_to_idle {s t : RsSessionState} {l : List RsSessionState} (h : Walk Allowed s l t)
    (ht : t = .idle) : l = [] := by
  cases h with
  | nil => rfl
  | @snoc l b _ _ hallowed =>
    rw [ht] at hallowed
    cases b <;> simp [Allowed] at hallowed

/-- The states of the session that a phase of the driver admits. -/
def Phase.Admits : Phase → RsSessionState → Prop
  | .creating, s => s = .idle
  | .noProvider, _ => False
  | .connecting, s => s = .connecting
  | .cancelledConnect, s => s = .connecting
  | .disconnecting, s => s = .disconnecting
  | _, s => s ≠ .connecting ∧ s ≠ .disconnecting

namespace Driver

/-! ## §2. The invariant. -/

/-- The invariant of a driver whose provider was created. -/
structure Lifecycle (d : Driver) : Prop where
  /-- The announced states lead from `Idle` to the current state, by allowed pairs. -/
  walk : Walk Allowed .idle d.states d.state
  admits : d.phase.Admits d.state
  unused : d.state = .idle → d.attempts = 0
  /-- Only the sink of a started attempt can emit. -/
  silent : d.attempts = 0 → d.provRx = []

/-- The session was just created. -/
theorem Lifecycle.initial : Lifecycle initial where
  walk := .nil
  admits := rfl
  unused := fun _ => rfl
  silent := fun _ => rfl

/-- What the phase says of the state. -/
theorem Lifecycle.admits_at {d : Driver} (h : Lifecycle d) {p : Phase} (hphase : d.phase = p) :
    p.Admits d.state := hphase ▸ h.admits

/-- A step that announces nothing keeps the invariant if it goes to a phase that admits the
state. -/
theorem Lifecycle.stay {d d' : Driver} (h : Lifecycle d) (hstates : d'.states = d.states)
    (hstate : d'.state = d.state) (hattempts : d'.attempts = d.attempts)
    (hprov : d.attempts = 0 → d'.provRx = []) (hphase : d'.phase.Admits d.state) :
    Lifecycle d' where
  walk := by rw [hstates, hstate]; exact h.walk
  admits := by rw [hstate]; exact hphase
  unused := by rw [hstate, hattempts]; exact h.unused
  silent := by rw [hattempts]; exact hprov

/-- What the invariant speaks of, apart from the phase. -/
def reported (d : Driver) :
    List (List SessionEvent) × RsSessionState × Nat × List (Nat × ProviderEvent) :=
  (d.emitted, d.state, d.attempts, d.provRx)

/-- A step that keeps all of it, and goes to a phase that admits the state. -/
theorem Lifecycle.keep {d d' : Driver} (h : Lifecycle d) (hsame : d'.reported = d.reported)
    (hphase : d'.phase.Admits d.state) : Lifecycle d' := by
  simp only [reported, Prod.mk.injEq] at hsame
  obtain ⟨hemitted, hstate, hattempts, hprov⟩ := hsame
  refine h.stay ?_ hstate hattempts ?_ hphase
  · unfold states
    rw [hemitted]
  · rw [hprov]
    exact h.silent

/-- A step that announces a state keeps the invariant if the pair is allowed and the phase
admits the new state. -/
theorem Lifecycle.announce {d d' : Driver} (h : Lifecycle d) {s : RsSessionState}
    (hstates : d'.states = d.states ++ [s]) (hstate : d'.state = s)
    (hallowed : Allowed d.state s) (hs : s ≠ .idle)
    (hprov : d'.attempts = 0 → d'.provRx = []) (hphase : d'.phase.Admits s) :
    Lifecycle d' where
  walk := by rw [hstates, hstate]; exact h.walk.snoc hallowed
  admits := by rw [hstate]; exact hphase
  unused := by rw [hstate]; intro hidle; exact absurd hidle hs
  silent := hprov

/-! ## §3. What each arm keeps. -/

section Arms

variable {d : Driver}

/-- A shutdown begins. -/
theorem Lifecycle.beginShutdown (h : Lifecycle d) (hphase : d.phase = .select) :
    Lifecycle d.beginShutdown := by
  have hadmits := h.admits_at hphase
  unfold Driver.beginShutdown
  split
  · exact h.keep rfl hadmits
  · exact h.keep rfl hadmits

/-- A connect begins. -/
theorem Lifecycle.beginConnect (h : Lifecycle d) (hphase : d.phase = .select) :
    Lifecycle d.beginConnect := by
  have hadmits := h.admits_at hphase
  unfold Driver.beginConnect
  split
  · refine h.stay ?_ rfl rfl h.silent h.admits
    simp [states]
  · next hstate =>
    refine h.announce (s := .connecting) ?_ rfl ?_ (by decide) ?_ rfl
    · simp [states]
    · -- the guard and the phase leave `Idle`, `Disconnected` and `Failed`
      cases hs : d.state <;> simp_all [Allowed, Phase.Admits]
    · intro hzero
      simp at hzero

/-- A write begins. -/
theorem Lifecycle.beginSend (h : Lifecycle d) (hphase : d.phase = .select)
    (data : List UInt8) : Lifecycle (d.beginSend data) := by
  have hadmits := h.admits_at hphase
  unfold Driver.beginSend
  split
  · refine h.stay ?_ rfl rfl h.silent h.admits
    simp [states]
  · exact h.keep rfl hadmits

/-- A disconnect begins. -/
theorem Lifecycle.beginDisconnect (h : Lifecycle d) (hphase : d.phase = .select) :
    Lifecycle d.beginDisconnect := by
  have hadmits := h.admits_at hphase
  unfold Driver.beginDisconnect
  simp only
  split
  · exact h.keep rfl h.admits
  · next hstate =>
    refine h.announce (s := .disconnecting) ?_ rfl ?_ (by decide) h.silent rfl
    · simp [states]
    -- `Connecting` is not a state in which the driver selects
    · have hconn : d.state = .connected := by
        rcases not_not.mp hstate with hc | hc
        · exact hc
        · exact absurd hc hadmits.1
      rw [hconn]
      exact .inl rfl

/-- A file operation begins. -/
theorem Lifecycle.beginFs (h : Lifecycle d) (hphase : d.phase = .select)
    (requestId : UInt64) (op : FsOp) : Lifecycle (d.beginFs requestId op) := by
  have hadmits := h.admits_at hphase
  unfold Driver.beginFs
  simp only
  split
  · exact h.keep rfl hadmits
  · exact h.keep rfl hadmits

/-- A command begins. -/
theorem Lifecycle.beginExec (h : Lifecycle d) (hphase : d.phase = .select)
    (requestId : UInt64) (command : String) (timeoutMs : UInt64) :
    Lifecycle (d.beginExec requestId command timeoutMs) := by
  have hadmits := h.admits_at hphase
  unfold Driver.beginExec
  split
  · exact h.keep rfl h.admits
  · exact h.keep rfl hadmits

/-- A command is taken up. -/
theorem Lifecycle.handle (h : Lifecycle d) (hphase : d.phase = .select) (cmd : Command) :
    Lifecycle (d.handle cmd) := by
  cases cmd with
  | connect => exact h.beginConnect hphase
  | send data => exact h.beginSend hphase data
  | disconnect => exact h.beginDisconnect hphase
  | setSecret secret => exact h.keep rfl h.admits
  | setPrivateKey keyPath passphrase => exact h.keep rfl h.admits
  | fs requestId op => exact h.beginFs hphase requestId op
  | exec requestId command timeoutMs => exact h.beginExec hphase requestId command timeoutMs
  | shutdown => exact h.beginShutdown hphase

/-- A command is received. -/
theorem Lifecycle.recv (h : Lifecycle d) (hphase : d.phase = .select) : Lifecycle d.recv := by
  have hadmits := h.admits_at hphase
  unfold Driver.recv
  split
  · split
    · exact h.beginShutdown hphase
    · exact h.keep rfl hadmits
  · next cmd rest _ =>
    -- taking the command out of the queue changes nothing the invariant speaks of
    have hdeq : Lifecycle { d with cmdRx := rest, dequeued := d.dequeued ++ [cmd] } :=
      h.keep rfl h.admits
    exact hdeq.handle hphase cmd

/-- The provider's events are taken. -/
theorem Lifecycle.drain (h : Lifecycle d) (hphase : d.phase = .pollProvider) :
    Lifecycle d.drain := by
  have hadmits := h.admits_at hphase
  rw [drain_eq]
  have hstates : ∀ (p : Phase) (prov : List (Nat × ProviderEvent)) (s : RsSessionState),
      states { d with phase := p, provRx := prov, state := s
                      emitted := d.emitted ++ drainBatches (d.provRx.map Prod.snd) }
        = d.states ++ (collectAll (d.provRx.map Prod.snd)).2.toList := by
    intro p prov s
    show announcedStates (d.emitted ++ _).flatten = _
    rw [List.flatten_append, announcedStates_append, announcedStates_drainBatches]
    rfl
  cases htr : (collectAll (d.provRx.map Prod.snd)).2 with
  | none =>
    rw [htr] at hstates
    refine h.stay ?_ rfl rfl (fun _ => rfl) hadmits
    rw [hstates]
    simp
  | some s =>
    rw [htr] at hstates
    -- the last outcome in the channel: `Disconnected` or `Failed`
    have hs : s = .disconnected ∨ s = .failed := by
      rw [collectAll_transition] at htr
      obtain ⟨ev, _, hev⟩ := List.mem_filterMap.mp (List.mem_of_getLast? htr)
      cases ev <;> simp_all [ProviderEvent.outcome]
    -- a channel that holds an event was given to an attempt, so the state is not `Idle`
    have hidle : d.state ≠ .idle := by
      intro hidle
      rw [h.silent (h.unused hidle)] at htr
      cases htr
    refine h.announce (hstates _ _ _) rfl ?_ ?_ (fun _ => rfl) ?_
    · cases hd : d.state <;> rcases hs with rfl | rfl <;>
        simp_all [Allowed, Phase.Admits]
    · rcases hs with rfl | rfl <;> decide
    · rcases hs with rfl | rfl <;> exact ⟨by decide, by decide⟩

/-- A connect ends. -/
theorem Lifecycle.finishConnect (h : Lifecycle d) (hphase : d.phase = .connecting)
    (result : CoreResult Unit) (opened : Bool) :
    Lifecycle (d.finishConnect result opened) := by
  have hstate : d.state = .connecting := h.admits_at hphase
  cases result with
  | ok _ =>
    refine h.announce (s := .connected) ?_ rfl ?_ (by decide) h.silent ⟨by decide, by decide⟩
    · simp [Driver.finishConnect, states]
    · rw [hstate]
      exact .inl rfl
  | error e =>
    refine h.announce (s := .failed) ?_ rfl ?_ (by decide) h.silent ⟨by decide, by decide⟩
    · simp [Driver.finishConnect, states]
    · rw [hstate]
      exact .inr (.inl rfl)

/-- A write ends. -/
theorem Lifecycle.finishSend (h : Lifecycle d) (hphase : d.phase = .sending)
    (result : CoreResult Unit) : Lifecycle (d.finishSend result) := by
  have hadmits := h.admits_at hphase
  cases result with
  | ok _ => exact h.keep rfl hadmits
  | error e =>
    refine h.stay ?_ rfl rfl h.silent hadmits
    simp [Driver.finishSend, states]

/-- A command ends. -/
theorem Lifecycle.finishExec (h : Lifecycle d) {requestId : UInt64}
    (hphase : d.phase = .execOp requestId) (result : CoreResult ExecOutput) :
    Lifecycle (d.finishExec requestId result) := by
  have hadmits := h.admits_at hphase
  cases result with
  | ok output => exact h.keep rfl hadmits
  | error e => exact h.keep rfl hadmits

/-- A file operation ends. -/
theorem Lifecycle.finishFs (h : Lifecycle d) {requestId : UInt64} {op : FsOp}
    (hphase : d.phase = .fsOp requestId op) (payload : FilePayload) :
    Lifecycle (d.finishFs requestId payload) := by
  have hadmits := h.admits_at hphase
  exact h.keep rfl hadmits

/-- The driver is interrupted. -/
theorem Lifecycle.interrupt (h : Lifecycle d) : Lifecycle d.interrupt := by
  unfold Driver.interrupt
  split
  · next hphase =>
    have hadmits := h.admits_at hphase
    exact h.keep rfl hadmits
  · next hphase =>
    have hadmits := h.admits_at hphase
    refine h.stay ?_ rfl rfl h.silent hadmits
    simp [states]
  · next hphase =>
    have hadmits := h.admits_at hphase
    exact h.keep rfl hadmits
  · next hphase =>
    have hadmits := h.admits_at hphase
    exact h.keep rfl hadmits
  · exact h

/-- A disconnect ends. -/
theorem Lifecycle.finishDisconnect (h : Lifecycle d) : Lifecycle d.finishDisconnect := by
  unfold Driver.finishDisconnect
  split
  · next hphase =>
    have hadmits := h.admits_at hphase
    refine h.announce (s := .disconnected) ?_ rfl ?_ (by decide) h.silent ⟨by decide, by decide⟩
    · simp [states]
    · rw [show d.state = .connecting from hadmits]
      exact .inr (.inr rfl)
  · next hphase =>
    have hadmits := h.admits_at hphase
    refine h.announce (s := .disconnected) ?_ rfl ?_ (by decide) h.silent ⟨by decide, by decide⟩
    · simp [states]
    · rw [show d.state = .disconnecting from hadmits]
      rfl
  · next hphase =>
    have hadmits := h.admits_at hphase
    exact h.keep rfl hadmits
  · exact h

end Arms

/-! ## §4. Steps and runs. -/

/-- A run either could not create its provider and announced `Failed`, or keeps the
invariant. -/
def Sound (d : Driver) : Prop :=
  (d.phase = .noProvider ∧ d.attempts = 0 ∧ d.states = [.failed]) ∨ Lifecycle d

/-- **One step** keeps it. -/
theorem Lifecycle.step {d d' : Driver} {a : Action} (h : Lifecycle d)
    (hstep : d.step a = some d') : Sound d' := by
  cases takes_of_step hstep with
  | created hphase =>
    refine .inr (h.keep rfl ?_)
    rw [show d.state = .idle from h.admits_at hphase]
    exact ⟨by decide, by decide⟩
  | notCreated hphase e =>
    -- nothing was announced before the provider is created
    have hnone : d.states = [] := walk_to_idle h.walk (h.admits_at hphase)
    refine .inl ⟨rfl, h.unused (h.admits_at hphase), ?_⟩
    simp only [states] at hnone
    simp [states, hnone]
  | submit cmd hopen => exact .inr (h.keep rfl h.admits)
  | close => exact .inr (h.keep rfl h.admits)
  | setFileEmitter => exact .inr (h.keep rfl h.admits)
  | setTaskEmitter => exact .inr (h.keep rfl h.admits)
  | notified hphase => exact .inr (h.keep rfl h.admits)
  | unheard hphase => exact .inr h
  | sinkEmit attempt ev hpos hstarted =>
    refine .inr (h.stay rfl rfl rfl ?_ h.admits)
    intro hzero
    omega
  | gatePrompt fingerprint hphase hprovider =>
    refine .inr (h.stay ?_ rfl rfl h.silent h.admits)
    simp [states]
  | recv hphase => exact .inr (h.recv hphase)
  | drain hphase => exact .inr (h.drain hphase)
  | connectReturns result opened hphase => exact .inr (h.finishConnect hphase result opened)
  | sendReturns result hphase => exact .inr (h.finishSend hphase result)
  | fsReturns answer hphase hprovider hpayload => exact .inr (h.finishFs hphase _)
  | fsUnavailable hphase hprovider => exact .inr (h.finishFs hphase _)
  | execReturns result hphase => exact .inr (h.finishExec hphase result)
  | disconnectReturns hphase => exact .inr h.finishDisconnect
  | interrupted hphase hnotified => exact .inr h.interrupt

/-- A driver without a provider announces nothing more. -/
theorem step_noProvider {d d' : Driver} {a : Action} (hphase : d.phase = .noProvider)
    (hattempts : d.attempts = 0) (hstep : d.step a = some d') :
    d'.phase = .noProvider ∧ d'.attempts = 0 ∧ d'.states = d.states := by
  cases takes_of_step hstep with
  | submit | close | setFileEmitter | setTaskEmitter | unheard | notified =>
    exact ⟨hphase, hattempts, rfl⟩
  | sinkEmit => omega
  | _ => simp_all [Phase.cancellable]

/-- **One step** keeps it. -/
theorem Sound.step {d d' : Driver} {a : Action} (h : Sound d) (hstep : d.step a = some d') :
    Sound d' := by
  rcases h with ⟨hphase, hattempts, hstates⟩ | hlife
  · obtain ⟨hphase', hattempts', hstates'⟩ := step_noProvider hphase hattempts hstep
    exact .inl ⟨hphase', hattempts', hstates'.trans hstates⟩
  · exact hlife.step hstep

/-- Every reachable driver is sound. -/
theorem sound_of_run {acts : List Action} {d : Driver}
    (hrun : exec Driver.step initial acts = some d) : Sound d :=
  exec_invariant (fun _ _ _ h hstep => h.step hstep) (.inr Lifecycle.initial) hrun

/-! ## §5. Where `Connected` comes from. -/

/-- The step announced nothing, or one state other than `Connected`. -/
def Announces (d d' : Driver) : Prop :=
  d'.states = d.states ∨ ∃ s, s ≠ .connected ∧ d'.states = d.states ++ [s]

/-- A command that is taken up announces states in order. -/
theorem handle_announces (d : Driver) (cmd : Command) : Announces d (d.handle cmd) := by
  cases cmd with
  | connect =>
    simp only [handle, beginConnect]
    split
    · exact .inl (by simp [states])
    · exact .inr ⟨.connecting, by decide, by simp [states]⟩
  | send data =>
    simp only [handle, beginSend]
    split
    · exact .inl (by simp [states])
    · exact .inl rfl
  | disconnect =>
    simp only [handle, beginDisconnect]
    split
    · exact .inl rfl
    · exact .inr ⟨.disconnecting, by decide, by simp [states]⟩
  | setSecret secret => exact .inl rfl
  | setPrivateKey keyPath passphrase => exact .inl rfl
  | fs requestId op =>
    left
    simp only [handle, beginFs]
    split <;> rfl
  | exec requestId command timeoutMs =>
    left
    simp only [handle, beginExec]
    split <;> rfl
  | shutdown =>
    left
    simp only [handle, beginShutdown]
    split <;> rfl

/-- A command that is received announces states in order. -/
theorem recv_announces (d : Driver) : Announces d d.recv := by
  unfold recv
  split
  · left
    split
    · unfold beginShutdown
      split <;> rfl
    · rfl
  · exact handle_announces _ _

/-- A drain announces states in order. -/
theorem drain_announces (d : Driver) : Announces d d.drain := by
  rw [drain_eq]
  have hstates : announcedStates (d.emitted ++ drainBatches (d.provRx.map Prod.snd)).flatten
      = d.states ++ (collectAll (d.provRx.map Prod.snd)).2.toList := by
    rw [List.flatten_append, announcedStates_append, announcedStates_drainBatches]
    rfl
  cases htr : (collectAll (d.provRx.map Prod.snd)).2 with
  | none =>
    rw [htr, Option.toList_none, List.append_nil] at hstates
    exact .inl hstates
  | some s =>
    rw [htr] at hstates
    refine .inr ⟨s, ?_, hstates⟩
    rw [collectAll_transition] at htr
    obtain ⟨ev, _, hev⟩ := List.mem_filterMap.mp (List.mem_of_getLast? htr)
    rintro rfl
    cases ev <;> simp [ProviderEvent.outcome] at hev

/-- A step that announces `Connected` is the return of an awaited connect. -/
theorem step_announces {d d' : Driver} {a : Action} (hstep : d.step a = some d') :
    Announces d d' ∨ d.phase = .connecting ∧ ∃ opened, a = .connectReturns (.ok ()) opened := by
  cases takes_of_step hstep with
  | connectReturns result opened hphase =>
    cases result with
    | ok _ => exact .inr ⟨hphase, opened, rfl⟩
    | error e =>
      exact .inl (.inr ⟨.failed, by decide, by simp [states, finishConnect]⟩)
  | notCreated hphase e => exact .inl (.inr ⟨.failed, by decide, by simp [states]⟩)
  | gatePrompt fingerprint => exact .inl (.inl (by simp [states]))
  | recv hphase => exact .inl (recv_announces d)
  | drain hphase => exact .inl (drain_announces d)
  | sendReturns result hphase =>
    cases result with
    | ok _ => exact .inl (.inl rfl)
    | error e => exact .inl (.inl (by simp [states, finishSend]))
  | execReturns result hphase => cases result <;> exact .inl (.inl rfl)
  | disconnectReturns hphase =>
    rcases hphase with hphase | hphase | hphase <;> simp only [finishDisconnect, hphase]
    · exact .inl (.inr ⟨.disconnected, by decide, by simp [states]⟩)
    · exact .inl (.inr ⟨.disconnected, by decide, by simp [states]⟩)
    · exact .inl (.inl rfl)
  | interrupted hphase hnotified =>
    unfold interrupt
    split <;> exact .inl (.inl (by simp [states]))
  | _ => exact .inl (.inl rfl)

/-! ## §6. The announced stream of a run. -/

/-- **Lifecycle soundness of the announced states.**  In every run:
a driver that could not create its provider announced `Failed` and nothing else; a driver
about to select is in the state it announced last (`Idle` before any); consecutive announced
states form allowed pairs; `Connected` is announced only by a connect that returned `Ok`, and
then directly after `Connecting`; and no drained provider event falls between `Connecting` or
`Disconnecting` and its outcome. -/
theorem lifecycle_sound (acts : List Action) (d : Driver)
    (hrun : exec Driver.step initial acts = some d) :
    (d.phase = .noProvider → d.states = [.failed]) ∧
    (d.phase = .select → d.state = d.states.getLast?.getD .idle) ∧
    (d.phase ≠ .noProvider → List.IsChain Allowed (.idle :: d.states)) ∧
    (∀ a d', d.step a = some d' → d'.states ≠ d.states →
      d'.states.getLast? = some .connected →
        (∃ opened, a = .connectReturns (.ok ()) opened) ∧
          d'.states = d.states ++ [.connected] ∧ d.states.getLast? = some .connecting) ∧
    (∀ d', d.step .drain = some d' →
      d.states.getLast? ≠ some .connecting ∧ d.states.getLast? ≠ some .disconnecting) := by
  have hsound := sound_of_run hrun
  have hlife : d.phase ≠ .noProvider → Lifecycle d := by
    intro hphase
    rcases hsound with ⟨hno, _⟩ | hlife
    · exact absurd hno hphase
    · exact hlife
  refine ⟨?_, ?_, ?_, ?_, ?_⟩
  · intro hphase
    rcases hsound with ⟨_, _, hstates⟩ | hlife
    · exact hstates
    -- the invariant admits no driver without a provider
    · have hadmits := hlife.admits_at hphase
      exact hadmits.elim
  · intro hphase
    exact (hlife (by simp [hphase])).walk.last.symm
  · intro hphase
    exact (hlife hphase).walk.isChain
  · intro a d' hstep hnew hlast
    rcases step_announces hstep with hann | ⟨hphase, opened, rfl⟩
    -- no other step announces `Connected`
    · rcases hann with hsame | ⟨s, hs, hstates⟩
      · exact absurd hsame hnew
      · rw [hstates, List.getLast?_concat, Option.some.injEq] at hlast
        exact absurd hlast hs
    · have hl := hlife (by simp [hphase])
      have hstate : d.state = .connecting := hl.admits_at hphase
      simp only [Driver.step, hphase, if_true, Option.some.injEq] at hstep
      refine ⟨⟨opened, rfl⟩, ?_, ?_⟩
      · rw [← hstep]
        simp [finishConnect, states]
      -- the walk ends where the driver stands, which is in `Connecting`
      · have hwalk := hl.walk.last
        rw [hstate] at hwalk
        cases hgl : d.states.getLast? with
        | none => rw [hgl] at hwalk; cases hwalk
        | some s => rw [hgl] at hwalk; exact congrArg some hwalk
  · intro d' hstep
    -- only a driver at its poll drains, and there it is in neither state
    have hphase : d.phase = .pollProvider := by
      cases takes_of_step hstep with
      | drain hphase => exact hphase
    have hl := hlife (by simp [hphase])
    have hadmits := hl.admits_at hphase
    have hwalk := hl.walk.last
    constructor
    · intro hgl
      rw [hgl] at hwalk
      exact hadmits.1 hwalk.symm
    · intro hgl
      rw [hgl] at hwalk
      exact hadmits.2 hwalk.symm

/-- A run through connect, data, and a loss of the connection. -/
def lostRun : List Action :=
  [.createProvider (.ok ()), .submit .connect, .recv, .connectReturns (.ok ()) true,
    .sinkEmit 1 (.data [104, 105]), .sinkEmit 1 (.disconnected "connection closed"),
    .recv, .drain]

theorem lifecycle_sound_lost :
    ∃ d, exec Driver.step initial lostRun = some d ∧
      d.states = [.connecting, .connected, .disconnected] ∧
      d.state = d.states.getLast?.getD .idle ∧ List.IsChain Allowed (.idle :: d.states) := by
  obtain ⟨d, hrun⟩ : ∃ d, exec Driver.step initial lostRun = some d :=
    Option.isSome_iff_exists.mp (by decide)
  have hview : (exec Driver.step initial lostRun).map (fun d => (d.phase, d.states))
      = some (.select, [.connecting, .connected, .disconnected]) := by decide
  rw [hrun, Option.map_some, Option.some.injEq, Prod.mk.injEq] at hview
  obtain ⟨_, hselect, hchain, _⟩ := lifecycle_sound lostRun d hrun
  refine ⟨d, hrun, hview.2, hselect hview.1, hchain ?_⟩
  rw [hview.1]
  decide

end Driver

end ResearchSSH.Core
