/-
  ResearchSSH.Core.DriverAttempts — which connection attempt a provider event belongs to.

  One channel serves all attempts and its events carry no identity, so a drain takes its
  transition from the last event that has an outcome, whoever sent it.  Since the `select!`
  prefers commands, a `Disconnected` that the reader of the first connection left behind can
  be drained after a second one is up, and then ends it (`staleRun`).

  The condition under which this cannot happen is `Orderly`: an attempt that is over leaves
  nothing in the channel, and sends nothing, that would change the state it ended in; and
  nothing of it is in the channel, or follows, once the next attempt starts.

  Main results:
    * `Attributed.step` — orderly steps keep every terminal event attributable.
    * `no_stale_change` — in orderly runs no stale event changes the state.
-/

import ResearchSSH.Core.Driver

namespace ResearchSSH.Core

open ResearchSSH.Library

namespace Driver

/-! ## §1. Stale changes. -/

/-- The event a drain takes its transition from: the last one that has an outcome. -/
def decisive (d : Driver) : Option (Nat × ProviderEvent) :=
  (d.provRx.filter fun e => e.2.outcome.isSome).getLast?

/-- If the step drains the channel and thereby changes the state, then the event it takes the
new state from was emitted for the live connection. -/
def NoStaleChange (d : Driver) (a : Action) : Prop :=
  ∀ d', d.step a = some d' → a = .drain → d'.state ≠ d.state →
    ∀ n ev, d.decisive = some (n, ev) → d.live = some n

/-- The state after a drain is the one its events decide on. -/
theorem drain_state (d : Driver) :
    d.drain.state = (d.decisive.bind fun e => e.2.outcome).getD d.state := by
  rw [drain_eq]
  show (collectAll (d.provRx.map Prod.snd)).2.getD d.state = _
  rw [collectAll_transition]
  congr 1
  unfold decisive
  induction d.provRx using List.reverseRecOn with
  | nil => rfl
  | append_singleton es e ih =>
    rw [List.map_append, List.filterMap_append, List.filter_append]
    cases hout : e.2.outcome with
    | none => simpa [hout] using ih
    | some s => simp [hout]

/-- A drain leaves the file provider. -/
theorem drain_held (d : Driver) : d.drain.fileProvider = d.fileProvider := by rw [drain_eq]

/-- A drain changes the state without a live event exactly when its decisive event is not the
live connection's and names another state. -/
theorem noStaleChange_drain_iff {d : Driver} (hphase : d.phase = .pollProvider) :
    d.NoStaleChange .drain ↔
      ∀ n ev, d.decisive = some (n, ev) → ev.outcome = some d.state ∨ d.live = some n := by
  have hstep : d.step .drain = some d.drain := by rw [step, if_pos hphase]
  have hstate := drain_state d
  constructor
  · intro h n ev hdec
    rw [hdec, Option.bind_some] at hstate
    -- a drain that leaves the state alone has found an event that names it
    by_cases hsame : d.drain.state = d.state
    · left
      have hsome : ev.outcome.isSome = true := by
        have hmem := List.mem_of_getLast? hdec
        exact (List.mem_filter.mp hmem).2
      obtain ⟨s, hs⟩ := Option.isSome_iff_exists.mp hsome
      rw [hs, Option.getD_some, hsame] at hstate
      rw [hs, hstate]
    · exact .inr (h d.drain hstep rfl hsame n ev hdec)
  · intro h d' hd' _ hchange n ev hdec
    cases hstep.symm.trans hd'
    rcases h n ev hdec with hout | hlive
    · rw [hdec, Option.bind_some, hout, Option.getD_some] at hstate
      exact absurd hstate hchange
    · exact hlive

/-! ## §2. The stale run. -/

/-- Connect, then disconnect and connect again while the reader of the first connection
reports that it was closed. -/
def staleRun : List Action :=
  [.createProvider (.ok ()), .submit .connect, .recv, .connectReturns (.ok ()) false,
    .submit .disconnect, .submit .connect, .sinkEmit 1 (.disconnected "connection closed"),
    .recv, .disconnectReturns, .recv, .connectReturns (.ok ()) false, .recv, .drain]

/-- The event of the first attempt takes the second connection from `Connected` to
`Disconnected`. -/
theorem staleRun_changes :
    ∃ d d', exec Driver.step initial staleRun.dropLast = some d ∧
      d.step .drain = some d' ∧ d.state = .connected ∧ d.live = some 2 ∧
      d.decisive = some (1, .disconnected "connection closed") ∧ d'.state = .disconnected ∧
      ¬ Along Driver.step NoStaleChange initial staleRun := by
  obtain ⟨d, hrun⟩ : ∃ d, exec Driver.step initial staleRun.dropLast = some d :=
    Option.isSome_iff_exists.mp (by decide)
  -- the second connection is up, and the event of the first is in the channel
  have hview : (exec Driver.step initial staleRun.dropLast).map
      (fun d => (d.phase, d.state, d.live, d.decisive, d.drain.state))
        = some (.pollProvider, .connected, some 2,
            some (1, .disconnected "connection closed"), .disconnected) := rfl
  rw [hrun, Option.map_some, Option.some.injEq] at hview
  simp only [Prod.mk.injEq] at hview
  obtain ⟨hphase, hstate, hlive, hdec, hdrain⟩ := hview
  have hstep : d.step .drain = some d.drain := by rw [step, if_pos hphase]
  refine ⟨d, d.drain, hrun, hstep, hstate, hlive, hdec, hdrain, ?_⟩
  intro h
  have hsplit : Along Driver.step NoStaleChange initial (staleRun.dropLast ++ [.drain]) := h
  have hlast : Along Driver.step NoStaleChange d [.drain] := hsplit.suffix hrun
  have hlive' := (along_cons.mp hlast).1 d.drain hstep rfl (by rw [hdrain, hstate]; decide) _ _ hdec
  rw [hlive] at hlive'
  cases hlive'

/-! ## §3. The condition. -/

/-- Every event in the channel that has an outcome names the state `s`. -/
def AllName (d : Driver) (s : RsSessionState) : Prop :=
  ∀ e ∈ d.provRx, e.2.outcome = none ∨ e.2.outcome = some s

/-- No event in the channel has an outcome. -/
def NoneEnds (d : Driver) : Prop := ∀ e ∈ d.provRx, e.2.outcome = none

instance (d : Driver) (s : RsSessionState) : Decidable (d.AllName s) :=
  inferInstanceAs (Decidable (∀ e ∈ d.provRx, e.2.outcome = none ∨ e.2.outcome = some s))

instance (d : Driver) : Decidable d.NoneEnds :=
  inferInstanceAs (Decidable (∀ e ∈ d.provRx, e.2.outcome = none))

/-- The latest attempt is over: it is not the live connection, and it is neither being
established nor being ended. -/
def Over (d : Driver) : Prop :=
  d.live = none ∧ d.phase ≠ .connecting ∧ d.phase ≠ .cancelledConnect ∧
    d.phase ≠ .disconnecting

instance (d : Driver) : Decidable d.Over := inferInstanceAs (Decidable (_ ∧ _))

/-- The condition on a step, in terms of the state before it.

An event with an outcome is emitted by the latest attempt only; once that attempt is over, it
names the state the driver is in.  When an attempt ends (its connect fails or is cancelled, a
`Disconnect` is processed), what it left in the channel names the state it ends in.  When a
`Connect` starts a new attempt, nothing with an outcome is left in the channel. -/
def Orderly (d : Driver) : Action → Prop
  | .sinkEmit attempt ev =>
    ev.outcome.isSome = true →
      attempt = d.attempts ∧ (d.Over → ev.outcome = some d.state)
  | .recv =>
    (d.cmdRx.head? = some .connect → d.state ≠ .connected → d.NoneEnds) ∧
      (d.cmdRx.head? = some .disconnect → d.state ≠ .connected → d.AllName d.state)
  | .connectReturns (.error _) _ => d.AllName .failed
  | .disconnectReturns => d.phase ≠ .shutdown → d.AllName .disconnected
  | _ => True

instance (d : Driver) : (a : Action) → Decidable (d.Orderly a)
  | .sinkEmit _ _ => inferInstanceAs (Decidable (_ → _))
  | .recv => inferInstanceAs (Decidable (_ ∧ _))
  | .connectReturns (.error _) _ => inferInstanceAs (Decidable (d.AllName _))
  | .disconnectReturns => inferInstanceAs (Decidable (_ → _))
  | .connectReturns (.ok _) _ | .createProvider _ | .submit _ | .close | .setFileEmitter
  | .setTaskEmitter | .cancel | .gatePrompt _ | .drain | .sendReturns _ | .fsReturns _
  | .fsUnavailable | .execReturns _ | .interrupted => inferInstanceAs (Decidable True)

/-! ## §4. The invariant. -/

/-- Every event with an outcome that is in the channel belongs to the latest attempt, and
once that attempt is over it names the state the driver is in. -/
structure Attributed (d : Driver) : Prop where
  owner : ∀ e ∈ d.provRx, e.2.outcome.isSome = true → e.1 = d.attempts
  latest : d.live = none ∨ d.live = some d.attempts
  harmless : d.Over → d.AllName d.state

/-- No attempt was made. -/
theorem Attributed.initial : Attributed initial where
  owner := by intro e he; cases he
  latest := .inl rfl
  harmless := by intro _ e he; cases he

section Steps

variable {d d' : Driver}

/-- What the invariant speaks of, apart from the phase. -/
def attribution (d : Driver) :
    List (Nat × ProviderEvent) × Nat × Option Nat × RsSessionState :=
  (d.provRx, d.attempts, d.live, d.state)

/-- A step that keeps the channel, the attempts and the state, and after which the attempt is
over only if it was before. -/
theorem Attributed.frame (h : Attributed d) (hsame : d'.attribution = d.attribution)
    (hover : d'.Over → d.Over) : Attributed d' := by
  simp only [attribution, Prod.mk.injEq] at hsame
  obtain ⟨hprov, hattempts, hlive, hstate⟩ := hsame
  refine ⟨?_, ?_, ?_⟩
  · rw [hprov, hattempts]
    exact h.owner
  · rw [hlive, hattempts]
    exact h.latest
  · intro ho
    unfold AllName
    rw [hprov, hstate]
    exact h.harmless (hover ho)

/-- A step that keeps the channel and the attempts, and after which the channel names the
state if the attempt is over. -/
theorem Attributed.ending (h : Attributed d) (hprov : d'.provRx = d.provRx)
    (hattempts : d'.attempts = d.attempts) (hlive : d'.live = d.live ∨ d'.live = none)
    (hname : d'.Over → d.AllName d'.state) : Attributed d' where
  owner := by rw [hprov, hattempts]; exact h.owner
  latest := by
    rcases hlive with hlive | hlive
    · rw [hlive, hattempts]; exact h.latest
    · exact .inl hlive
  harmless := by
    intro ho
    unfold AllName
    rw [hprov]
    exact hname ho

/-- Away from the phases in which an attempt begins or ends, whether the latest attempt is over
depends on `live` alone. -/
theorem Attributed.elsewhere (h : Attributed d) (hsame : d'.attribution = d.attribution)
    (haway : d.phase ≠ .connecting ∧ d.phase ≠ .cancelledConnect ∧ d.phase ≠ .disconnecting) :
    Attributed d' := by
  refine h.frame hsame ?_
  rintro ⟨hlive, _⟩
  simp only [attribution, Prod.mk.injEq] at hsame
  exact ⟨hsame.2.2.1 ▸ hlive, haway⟩

/-- A connect begins when no older end is still to come. -/
theorem Attributed.beginConnect (h : Attributed d) (hphase : d.phase = .select)
    (hclear : d.state ≠ .connected → d.NoneEnds) : Attributed d.beginConnect := by
  unfold Driver.beginConnect
  split
  · exact h.elsewhere rfl (by simp [hphase])
  · next hstate =>
    -- the new attempt owns the channel, because nothing in it has an outcome
    have hnone : d.NoneEnds := hclear (fun hc => hstate (.inr hc))
    refine ⟨?_, .inl rfl, ?_⟩
    · intro e he hout
      rw [hnone e he] at hout
      cases hout
    -- it is being established, so it is not over
    · rintro ⟨_, hne, _⟩
      exact absurd rfl hne

/-- A disconnect begins. -/
theorem Attributed.beginDisconnect (h : Attributed d)
    (hname : d.state ≠ .connected → d.AllName d.state) : Attributed d.beginDisconnect := by
  unfold Driver.beginDisconnect
  simp only
  split
  · next hstate =>
    exact h.ending rfl rfl (.inr rfl) (fun _ => hname (fun hc => hstate (.inl hc)))
  -- while the disconnect is awaited the attempt is being ended, so it is not over yet
  · refine h.ending rfl rfl (.inr rfl) ?_
    rintro ⟨_, _, _, hne⟩
    exact absurd rfl hne

/-- A shutdown begins. -/
theorem Attributed.beginShutdown (h : Attributed d) (hphase : d.phase = .select) :
    Attributed d.beginShutdown := by
  have haway : d.phase ≠ .connecting ∧ d.phase ≠ .cancelledConnect ∧ d.phase ≠ .disconnecting :=
    by simp [hphase]
  unfold Driver.beginShutdown
  split
  · exact h.elsewhere rfl haway
  · exact h.elsewhere rfl haway

/-- A command is taken up. -/
theorem Attributed.handle (h : Attributed d) (hphase : d.phase = .select) {cmd : Command}
    (hconnect : cmd = .connect → d.state ≠ .connected → d.NoneEnds)
    (hdisconnect : cmd = .disconnect → d.state ≠ .connected → d.AllName d.state) :
    Attributed (d.handle cmd) := by
  have haway : d.phase ≠ .connecting ∧ d.phase ≠ .cancelledConnect ∧ d.phase ≠ .disconnecting :=
    by simp [hphase]
  cases cmd with
  | connect => exact h.beginConnect hphase (hconnect rfl)
  | disconnect => exact h.beginDisconnect (hdisconnect rfl)
  | send data =>
    simp only [Driver.handle, beginSend]
    split <;> exact h.elsewhere rfl haway
  | setSecret secret => exact h.elsewhere rfl haway
  | setPrivateKey keyPath passphrase => exact h.elsewhere rfl haway
  | fs requestId op =>
    simp only [Driver.handle, beginFs]
    split <;> exact h.elsewhere rfl haway
  | exec requestId command timeoutMs =>
    simp only [Driver.handle, beginExec]
    split <;> exact h.elsewhere rfl haway
  | shutdown => exact h.beginShutdown hphase

/-- A command is received. -/
theorem Attributed.recv (h : Attributed d) (hphase : d.phase = .select)
    (horder : d.Orderly .recv) : Attributed d.recv := by
  unfold Driver.recv
  split
  · split
    · exact h.beginShutdown hphase
    · exact h.elsewhere rfl (by simp [hphase])
  · next cmd rest hcmds =>
    obtain ⟨hconnect, hdisconnect⟩ := horder
    rw [hcmds, List.head?_cons] at hconnect hdisconnect
    have hdeq : Attributed { d with cmdRx := rest, dequeued := d.dequeued ++ [cmd] } :=
      h.elsewhere rfl (by simp [hphase])
    refine hdeq.handle hphase ?_ ?_
    · rintro rfl; exact hconnect rfl
    · rintro rfl; exact hdisconnect rfl

/-- The provider's events are taken. -/
theorem Attributed.drain (h : Attributed d) : Attributed d.drain := by
  rw [drain_eq]
  refine ⟨?_, h.latest, ?_⟩
  · intro e he; cases he
  · intro _ e he; cases he

/-- The provider sends an event. -/
theorem Attributed.sinkEmit (h : Attributed d) {attempt : Nat} {ev : ProviderEvent}
    (horder : d.Orderly (.sinkEmit attempt ev)) :
    Attributed { d with provRx := d.provRx ++ [(attempt, ev)] } where
  owner := by
    intro e he hout
    rcases List.mem_append.mp he with hold | hnew
    · exact h.owner e hold hout
    · rw [List.mem_singleton.mp hnew] at hout ⊢
      exact (horder hout).1
  latest := h.latest
  harmless := by
    intro ho e he
    rcases List.mem_append.mp he with hold | hnew
    · exact h.harmless ho e hold
    · rw [List.mem_singleton.mp hnew]
      by_cases hout : ev.outcome.isSome = true
      · exact .inr ((horder hout).2 ho)
      · exact .inl (by simpa using hout)

/-- A connect ends. -/
theorem Attributed.finishConnect (h : Attributed d) {result : CoreResult Unit} {opened : Bool}
    (horder : d.Orderly (.connectReturns result opened)) :
    Attributed (d.finishConnect result opened) := by
  cases result with
  | ok _ =>
    refine ⟨h.owner, .inr rfl, ?_⟩
    rintro ⟨hlive, _⟩
    cases hlive
  | error e => exact h.ending rfl rfl (.inl rfl) (fun _ => horder)

/-- A disconnect ends. -/
theorem Attributed.finishDisconnect (h : Attributed d)
    (horder : d.Orderly .disconnectReturns) : Attributed d.finishDisconnect := by
  unfold Driver.finishDisconnect
  split
  · next hphase =>
    exact h.ending rfl rfl (.inl rfl) (fun _ => horder (by rw [hphase]; decide))
  · next hphase =>
    exact h.ending rfl rfl (.inl rfl) (fun _ => horder (by rw [hphase]; decide))
  · next hphase => exact h.elsewhere rfl (by simp [hphase])
  · exact h

/-- The driver is interrupted. -/
theorem Attributed.interrupt (h : Attributed d) : Attributed d.interrupt := by
  unfold Driver.interrupt
  split
  · -- a cancelled connect is being ended
    refine h.frame rfl ?_
    rintro ⟨_, _, hne, _⟩
    exact absurd rfl hne
  · next hphase => exact h.elsewhere rfl (by simp [hphase])
  · next hphase => exact h.elsewhere rfl (by simp [hphase])
  · next hphase => exact h.elsewhere rfl (by simp [hphase])
  · exact h

/-- **One step** keeps it, if it is orderly. -/
theorem Attributed.step {a : Action} (h : Attributed d) (horder : d.Orderly a)
    (hstep : d.step a = some d') : Attributed d' := by
  cases takes_of_step hstep with
  | created hphase => exact h.elsewhere rfl (by simp [hphase])
  | notCreated hphase e => exact h.elsewhere rfl (by simp [hphase])
  | submit cmd hopen => exact h.frame rfl id
  | close => exact h.frame rfl id
  | setFileEmitter => exact h.frame rfl id
  | setTaskEmitter => exact h.frame rfl id
  | notified hphase => exact h.frame rfl id
  | unheard hphase => exact h
  | sinkEmit attempt ev hpos hstarted => exact h.sinkEmit horder
  | gatePrompt fingerprint hphase hprovider => exact h.frame rfl id
  | recv hphase => exact h.recv hphase horder
  | drain hphase => exact h.drain
  | connectReturns result opened hphase => exact h.finishConnect horder
  | sendReturns result hphase =>
    cases result <;> exact h.elsewhere rfl (by simp [hphase])
  | fsReturns answer hphase hprovider hpayload =>
    exact h.elsewhere rfl (by simp [hphase])
  | fsUnavailable hphase hprovider =>
    exact h.elsewhere rfl (by simp [hphase])
  | execReturns result hphase =>
    cases result <;> exact h.elsewhere rfl (by simp [hphase])
  | disconnectReturns hphase => exact h.finishDisconnect horder
  | interrupted hphase hnotified => exact h.interrupt

end Steps

/-! ## §5. Orderly runs. -/

/-- A drain of an attributed channel makes no stale change. -/
theorem Attributed.noStaleChange {d : Driver} (h : Attributed d) (a : Action) :
    d.NoStaleChange a := by
  intro d' hstep ha
  subst ha
  have hphase : d.phase = .pollProvider := by
    cases takes_of_step hstep with
    | drain hphase => exact hphase
  refine (noStaleChange_drain_iff hphase).mpr ?_ d' hstep rfl
  intro n ev hdec
  obtain ⟨hmem, hout⟩ := List.mem_filter.mp (List.mem_of_getLast? hdec)
  rcases h.latest with hnone | hlive
  · -- the latest attempt is over: the event names the state already
    left
    have hover : d.Over := ⟨hnone, by simp [hphase]⟩
    rcases h.harmless hover _ hmem with hno | hsome
    · rw [hno] at hout
      cases hout
    · exact hsome
  · right
    have hn : n = d.attempts := h.owner _ hmem hout
    rw [hlive, hn]

/-- **No stale provider event changes the state of an orderly run.**  If every step of a run is
orderly, then whenever a drain changes the state, the event it takes the new state from was
emitted for the live connection. -/
theorem no_stale_change (acts : List Action) (h : Along Driver.step Orderly initial acts) :
    Along Driver.step NoStaleChange initial acts :=
  along_of_invariant (fun _ a hatt _ => hatt.noStaleChange a)
    (fun _ _ _ hatt horder hstep => hatt.step horder hstep) Attributed.initial h

/-- The same commands with the channel drained before the second connect, and a loss of the
second connection. -/
def orderlyRun : List Action :=
  [.createProvider (.ok ()), .submit .connect, .recv, .connectReturns (.ok ()) false,
    .submit .disconnect, .sinkEmit 1 (.disconnected "connection closed"),
    .recv, .disconnectReturns, .recv, .drain, .submit .connect, .recv,
    .connectReturns (.ok ()) false, .sinkEmit 2 (.error ⟨.runtimeError, none⟩), .recv, .drain]

theorem no_stale_change_orderlyRun :
    (exec Driver.step initial orderlyRun).map (fun d => d.state) = some .failed ∧
      Along Driver.step NoStaleChange initial orderlyRun :=
  ⟨by decide, no_stale_change orderlyRun (by decide)⟩

end Driver

end ResearchSSH.Core
