/-
  ResearchSSH.Core.FileCapability — the file provider a driver holds, against its state.

  The file provider is taken at the end of a connect and put away by the `Disconnect` command,
  and the file arm asks for nothing but whether there is one.  The state has a third writer:
  the provider event arm, which leaves the file provider where it is.  So a connection that is
  lost, not closed, leaves a provider behind that serves file commands of a session that is
  `Disconnected` or `Failed`, and of the next connect while it is awaited.

  Main results:
    * `Capable.step`               — every other step keeps the provider with the state.
    * `lostThenList_serves`        — a file command served after the connection was lost.
    * `files_only_connected_iff`   — the runs in which files are only reached when connected.
-/

import ResearchSSH.Core.DriverAttempts
import ResearchSSH.Core.DriverLifecycle

namespace ResearchSSH.Core

open ResearchSSH.Library

namespace Driver

/-! ## §1. The property. -/

/-- A file provider is held only while the state is `Connected`. -/
def Capable (d : Driver) : Prop := d.fileProvider.isSome = true → d.state = .connected

/-- In any state but `Connected`, a file command that is taken up calls nothing, and the one
that is being processed ends in an error. -/
def RefusesFiles (d : Driver) (a : Action) : Prop :=
  ∀ d', d.step a = some d' → d.state ≠ .connected →
    (∀ requestId op rest, a = .recv → d.cmdRx = .fs requestId op :: rest →
      d'.calls = d.calls) ∧
    (∀ requestId op, d.phase = .fsOp requestId op → d'.phase ≠ d.phase →
      d'.calls = d.calls ∧ ∃ code message,
        d'.fileSink = (d.deliverFile ⟨requestId, .error code message⟩).fileSink)

/-- A drain finds no end of the connection in the channel while a file provider is held. -/
def SparesHeld (d : Driver) (a : Action) : Prop :=
  a = .drain → d.phase = .pollProvider → d.fileProvider.isSome = true → d.NoneEnds

/-! ## §2. What each arm keeps. -/

theorem Sound.admits_at {d : Driver} (h : Sound d) {p : Phase} (hphase : d.phase = p)
    (hp : p ≠ .noProvider) : p.Admits d.state := by
  rcases h with ⟨hno, _⟩ | hlife
  · exact absurd (hphase.symm.trans hno) hp
  · exact hlife.admits_at hphase

/-- The state and the file provider are all that `Capable` speaks of. -/
theorem Capable.frame {d d' : Driver} (h : Capable d) (hstate : d'.state = d.state)
    (hheld : d'.fileProvider = d.fileProvider) : Capable d' := by
  intro hsome
  rw [hheld] at hsome
  rw [hstate]
  exact h hsome

/-- In any other state than `Connected` nothing is held. -/
theorem Capable.none_held {d : Driver} (h : Capable d) (hstate : d.state ≠ .connected) :
    d.fileProvider = none := by
  cases hheld : d.fileProvider with
  | none => rfl
  | some n => exact absurd (h (by rw [hheld]; rfl)) hstate

/-- A driver that holds nothing is capable, whatever its state. -/
theorem Capable.of_none {d : Driver} (h : d.fileProvider = none) : Capable d := by
  intro hsome
  rw [h] at hsome
  cases hsome

section Arms

variable {d : Driver}

/-- A connect begins. -/
theorem Capable.beginConnect (h : Capable d) : Capable d.beginConnect := by
  unfold Driver.beginConnect
  split
  · exact h.frame rfl rfl
  · next hstate =>
    have hnone := h.none_held (fun hconn => hstate (.inr hconn))
    exact .of_none hnone

/-- A disconnect begins. -/
theorem Capable.beginDisconnect (h : Capable d) : Capable d.beginDisconnect := by
  unfold Driver.beginDisconnect
  simp only
  split
  · exact h.frame rfl rfl
  · exact .of_none rfl

/-- A command is taken up. -/
theorem Capable.handle (h : Capable d) (cmd : Command) : Capable (d.handle cmd) := by
  cases cmd with
  | connect => exact h.beginConnect
  | send data =>
    simp only [Driver.handle, beginSend]
    split <;> exact h.frame rfl rfl
  | disconnect => exact h.beginDisconnect
  | setSecret secret => exact h.frame rfl rfl
  | setPrivateKey keyPath passphrase => exact h.frame rfl rfl
  | fs requestId op =>
    simp only [Driver.handle, beginFs]
    split <;> exact h.frame rfl rfl
  | exec requestId command timeoutMs =>
    simp only [Driver.handle, beginExec]
    split <;> exact h.frame rfl rfl
  | shutdown =>
    simp only [Driver.handle, beginShutdown]
    split <;> exact h.frame rfl rfl

/-- A command is received. -/
theorem Capable.recv (h : Capable d) : Capable d.recv := by
  unfold Driver.recv
  split
  · split
    · exact h.handle .shutdown
    · exact h.frame rfl rfl
  · next cmd rest _ =>
    have hdeq : Capable { d with cmdRx := rest, dequeued := d.dequeued ++ [cmd] } :=
      h.frame rfl rfl
    exact hdeq.handle cmd

/-- A drain that ends nothing leaves the state as it is. -/
theorem drain_state_of_noneEnds (h : d.NoneEnds) : d.drain.state = d.state := by
  have hdec : d.decisive = none := by
    unfold decisive
    rw [List.filter_eq_nil_iff.mpr, List.getLast?_nil]
    intro e he
    rw [h e he]
    decide
  rw [drain_state, hdec]
  rfl

/-- A drain that ends something leaves the session `Disconnected` or `Failed`. -/
theorem drain_state_of_ends (h : ¬ d.NoneEnds) : d.drain.state ≠ .connected := by
  cases hdec : d.decisive with
  | none =>
    refine absurd ?_ h
    intro e he
    rw [decisive, List.getLast?_eq_none_iff, List.filter_eq_nil_iff] at hdec
    simpa using hdec e he
  | some e =>
    rw [drain_state, hdec]
    have hsome : e.2.outcome.isSome = true := (List.mem_filter.mp (List.mem_of_getLast? hdec)).2
    obtain ⟨n, ev⟩ := e
    cases ev with
    | data bytes => cases hsome
    | disconnected reason => simp [ProviderEvent.outcome]
    | error err => simp [ProviderEvent.outcome]

/-- The provider's events are taken. -/
theorem Capable.drain (h : Capable d) (hspares : d.fileProvider.isSome = true → d.NoneEnds) :
    Capable d.drain := by
  intro hsome
  rw [drain_held] at hsome
  rw [drain_state_of_noneEnds (hspares hsome)]
  exact h hsome

/-- A connect ends. -/
theorem Capable.finishConnect (h : Capable d) (hstate : d.state = .connecting)
    (result : CoreResult Unit) (opened : Bool) : Capable (d.finishConnect result opened) := by
  cases result with
  | ok _ =>
    intro _
    rfl
  | error e =>
    -- the connect began without a file provider, and has opened none
    have hnone := h.none_held (by rw [hstate]; decide)
    exact .of_none hnone

/-- The driver is interrupted. -/
theorem Capable.interrupt (h : Capable d) : Capable d.interrupt := by
  unfold Driver.interrupt
  split <;> exact h.frame rfl rfl

/-- A disconnect ends. -/
theorem Capable.finishDisconnect (h : Capable d) (hsound : Sound d) :
    Capable d.finishDisconnect := by
  unfold Driver.finishDisconnect
  split
  · next hphase =>
    have hstate : d.state = .connecting := hsound.admits_at hphase (by decide)
    exact .of_none (h.none_held (by rw [hstate]; decide))
  · next hphase =>
    have hstate : d.state = .disconnecting := hsound.admits_at hphase (by decide)
    exact .of_none (h.none_held (by rw [hstate]; decide))
  · exact h.frame rfl rfl
  · exact h

end Arms

/-! ## §3. Steps and runs. -/

/-- **Every step but a drain that ends the connection keeps the provider with the state.** -/
theorem Capable.step {d d' : Driver} {a : Action} (h : Capable d) (hsound : Sound d)
    (hspares : d.SparesHeld a) (hstep : d.step a = some d') : Capable d' := by
  cases takes_of_step hstep with
  | recv hphase => exact h.recv
  | drain hphase => exact h.drain (hspares rfl hphase)
  | connectReturns result opened hphase =>
    exact h.finishConnect (hsound.admits_at hphase (by decide)) result opened
  | sendReturns result hphase => cases result <;> exact h.frame rfl rfl
  | execReturns result hphase => cases result <;> exact h.frame rfl rfl
  | disconnectReturns hphase => exact h.finishDisconnect hsound
  | interrupted hphase hnotified => exact h.interrupt
  | unheard hphase => exact h
  | _ => exact h.frame rfl rfl

/-- Where nothing is held, a file command is refused. -/
theorem Capable.refusesFiles {d : Driver} (h : Capable d) (a : Action) : d.RefusesFiles a := by
  intro d' hstep hstate
  have hnone := h.none_held hstate
  have hheld : d.fileProvider.isSome = false := by rw [hnone]; rfl
  constructor
  · rintro requestId op rest rfl hqueue
    cases takes_of_step hstep with
    | recv hphase => simp [Driver.recv, hqueue, Driver.handle, beginFs, hheld]
  · intro requestId op hphase hmoved
    cases takes_of_step hstep with
    | fsUnavailable hphase' _ =>
      rw [hphase] at hphase'
      cases hphase'
      exact ⟨rfl, _, _, rfl⟩
    | interrupted hcancellable _ =>
      simp only [Driver.interrupt, hphase]
      exact ⟨rfl, _, _, rfl⟩
    | fsReturns answer _ hprovider _ => rw [hheld] at hprovider; cases hprovider
    | disconnectReturns hphase' => simp [hphase] at hphase'
    | _ => simp_all

/-- Connect, lose the connection, and ask for a listing. -/
def lostThenList : List Action := lostRun ++ [.submit (.fs 1 (.list ['/'])), .recv]

/-- The listing is asked of the provider that the lost connection opened. -/
theorem lostThenList_serves :
    ∃ d, exec Driver.step initial lostThenList = some d ∧ d.state = .disconnected ∧
      d.fileProvider = some 1 ∧ d.calls.getLast? = some (.file (.list ['/'])) ∧
      ¬ (Throughout Driver.step Capable initial lostThenList ∧
        Along Driver.step RefusesFiles initial lostThenList) := by
  obtain ⟨d, hrun⟩ : ∃ d, exec Driver.step initial lostThenList = some d :=
    Option.isSome_iff_exists.mp (by decide)
  have hview : (exec Driver.step initial lostThenList).map
      (fun d => (d.state, d.fileProvider, d.calls.getLast?))
        = some (.disconnected, some 1, some (.file (.list ['/']))) := rfl
  rw [hrun, Option.map_some, Option.some.injEq] at hview
  simp only [Prod.mk.injEq] at hview
  obtain ⟨hstate, hheld, hcall⟩ := hview
  refine ⟨d, hrun, hstate, hheld, hcall, fun h => ?_⟩
  have hconn := h.1 lostThenList d List.prefix_rfl hrun (by rw [hheld]; rfl)
  rw [hstate] at hconn
  cases hconn

/-- **When files are only reached while connected.**  Through a whole run a file provider is
held only in the state `Connected`, and file commands in other states are refused without a
call, exactly if no drain finds the end of a connection while a file provider is held. -/
theorem files_only_connected_iff (acts : List Action) :
    (Throughout Driver.step Capable initial acts ∧ Along Driver.step RefusesFiles initial acts)
      ↔ Along Driver.step SparesHeld initial acts := by
  have hstart : Sound initial ∧ Capable initial := ⟨.inr .initial, .of_none rfl⟩
  have hgood : ∀ d a d', Sound d ∧ Capable d → d.SparesHeld a → d.step a = some d' →
      Sound d' ∧ Capable d' :=
    fun d a d' h hspares hstep => ⟨h.1.step hstep, h.2.step h.1 hspares hstep⟩
  have hiff : Throughout Driver.step Capable initial acts ↔
      Along Driver.step SparesHeld initial acts :=
    throughout_iff_along (fun _ h => h.2) hgood ?_ hstart
  · constructor
    · intro h
      exact hiff.mp h.1
    · intro h
      exact ⟨hiff.mpr h, along_of_invariant (fun d a hd _ => hd.2.refusesFiles a) hgood hstart h⟩
  · intro d a _ hnot
    -- the drain that is excluded ends the connection and leaves the provider
    simp only [SparesHeld, Classical.not_imp] at hnot
    obtain ⟨rfl, hphase, hheld, hends⟩ := hnot
    refine ⟨d.drain, by rw [Driver.step, if_pos hphase], fun hcap => ?_⟩
    exact drain_state_of_ends hends (hcap (by rw [drain_held]; exact hheld))

end Driver

end ResearchSSH.Core
