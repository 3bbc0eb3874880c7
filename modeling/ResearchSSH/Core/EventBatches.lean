/-
  ResearchSSH.Core.EventBatches — how the provider's events are cut into batches.

  The drain loop takes whatever is in the channel when it looks, so the cuts are made by timing.
  A batch carries its data and its errors in their order and closes with the last transition in
  it; the transitions before that one are neither carried out nor announced.  What is left of
  them after the batch is the same as after all of its events alone.

  Main results:
    * `deliver_state`, `deliver_reports` — what one batch makes of the driver.
    * `exec_batches` — batches that arrive one after another are drained one after another.
    * `batches_transparent` — the state, the data and the errors do not depend on the cuts.
-/

import ResearchSSH.Core.Driver

namespace ResearchSSH.Core

open ResearchSSH.Library

/-! ## §1. What is reported. -/

/-- Data and errors, which a batch carries in place. -/
def SessionEvent.isReport : SessionEvent → Bool
  | .data _ => true
  | .error _ _ => true
  | .stateChanged _ => false
  | .hostKeyPrompt _ => false

/-- The bytes that an event carries. -/
def SessionEvent.bytes : SessionEvent → List UInt8
  | .data bytes => bytes
  | _ => []

/-- What a provider event puts into the batch. -/
def ProviderEvent.report : ProviderEvent → Option SessionEvent
  | .data bytes => some (.data bytes)
  | .disconnected _ => none
  | .error e => some (.error e.code e.message)

namespace Driver

/-- The data and errors sent out so far. -/
def reports (d : Driver) : List SessionEvent := d.emitted.flatten.filter SessionEvent.isReport

/-- What the terminal has been sent. -/
def terminalBytes (d : Driver) : List UInt8 := d.reports.flatMap SessionEvent.bytes

/-- What is collected is the reports. -/
theorem collectAll_batch (evs : List ProviderEvent) :
    (collectAll evs).1 = evs.filterMap ProviderEvent.report := by
  induction evs using List.reverseRecOn with
  | nil => rfl
  | append_singleton evs ev ih =>
    rw [collectAll_snoc, List.filterMap_append]
    cases ev <;> simp [collectProviderEvent, ProviderEvent.report, ih]

theorem isReport_of_report {evs : List ProviderEvent} {e : SessionEvent}
    (h : e ∈ evs.filterMap ProviderEvent.report) : e.isReport = true := by
  obtain ⟨ev, _, hev⟩ := List.mem_filterMap.mp h
  cases ev with
  | data bytes =>
    obtain rfl := Option.some.inj hev
    rfl
  | disconnected reason => cases hev
  | error e' =>
    obtain rfl := Option.some.inj hev
    rfl

/-- Of what a drain hands over, everything but the announcement is a report. -/
theorem reports_drainBatches (evs : List ProviderEvent) :
    (drainBatches evs).flatten.filter SessionEvent.isReport
      = evs.filterMap ProviderEvent.report := by
  have hall : (evs.filterMap ProviderEvent.report).filter SessionEvent.isReport
      = evs.filterMap ProviderEvent.report :=
    List.filter_eq_self.mpr fun e he => isReport_of_report he
  rw [← collectAll_batch] at hall ⊢
  unfold drainBatches
  rcases hcol : collectAll evs with ⟨events, _ | newState⟩ <;> rw [hcol] at hall
  · -- without a transition, nothing is sent if there is nothing to report
    cases events with
    | nil => rfl
    | cons e es =>
      rw [List.flatten_cons, List.flatten_nil, List.append_nil]
      exact hall
  · rw [List.flatten_cons, List.flatten_nil, List.append_nil, List.filter_append,
      show [SessionEvent.stateChanged newState].filter SessionEvent.isReport = [] from rfl,
      List.append_nil]
    exact hall

/-! ## §2. Batches, one after another. -/

/-- The drain of a channel that holds this batch. -/
def deliver (d : Driver) (batch : List (Nat × ProviderEvent)) : Driver :=
  { d with provRx := batch }.drain

/-- The batches, one after another. -/
def deliverAll (d : Driver) (batches : List (List (Nat × ProviderEvent))) : Driver :=
  batches.foldl deliver d

/-- The outcomes of a run of events, in order. -/
def outcomes (evs : List (Nat × ProviderEvent)) : List RsSessionState :=
  (evs.map Prod.snd).filterMap ProviderEvent.outcome

/-- The state after a batch is the last one it decides on. -/
theorem deliver_state (d : Driver) (batch : List (Nat × ProviderEvent)) :
    (d.deliver batch).state = (outcomes batch).getLast?.getD d.state := by
  unfold deliver outcomes
  rw [drain_eq, collectAll_transition]

/-- A batch goes out in the driver's batches. -/
theorem deliver_emitted (d : Driver) (batch : List (Nat × ProviderEvent)) :
    (d.deliver batch).emitted = d.emitted ++ drainBatches (batch.map Prod.snd) := by
  unfold deliver
  rw [drain_eq]

/-- A batch's reports go out in order. -/
theorem deliver_reports (d : Driver) (batch : List (Nat × ProviderEvent)) :
    (d.deliver batch).reports
      = d.reports ++ (batch.map Prod.snd).filterMap ProviderEvent.report := by
  unfold reports
  rw [deliver_emitted, List.flatten_append, List.filter_append, reports_drainBatches]

/-- The state after a run of batches is the last outcome of all their events. -/
theorem deliverAll_state (batches : List (List (Nat × ProviderEvent))) (d : Driver) :
    (d.deliverAll batches).state = (outcomes batches.flatten).getLast?.getD d.state := by
  induction batches generalizing d with
  | nil => rfl
  | cons batch rest ih =>
    show ((d.deliver batch).deliverAll rest).state = _
    have hsplit : outcomes (batch :: rest).flatten = outcomes batch ++ outcomes rest.flatten := by
      unfold outcomes
      rw [List.flatten_cons, List.map_append, List.filterMap_append]
    rw [ih, deliver_state, hsplit, List.getLast?_append]
    -- a later batch decides, if it has an outcome at all
    cases (outcomes rest.flatten).getLast? <;> rfl

theorem deliverAll_reports (batches : List (List (Nat × ProviderEvent))) (d : Driver) :
    (d.deliverAll batches).reports
      = d.reports ++ (batches.flatten.map Prod.snd).filterMap ProviderEvent.report := by
  induction batches generalizing d with
  | nil => exact (List.append_nil _).symm
  | cons batch rest ih =>
    show ((d.deliver batch).deliverAll rest).reports = _
    rw [ih, deliver_reports, List.flatten_cons, List.map_append, List.filterMap_append,
      List.append_assoc]

/-- A batch that changes the state closes with the announcement of the new one. -/
theorem deliver_announces {d : Driver} {batch : List (Nat × ProviderEvent)}
    (hchanged : (d.deliver batch).state ≠ d.state) : ∃ events,
      (d.deliver batch).emitted = d.emitted ++ [events ++ [.stateChanged (d.deliver batch).state]] := by
  have hstate : (d.deliver batch).state
      = (collectAll (batch.map Prod.snd)).2.getD d.state := by
    unfold deliver
    rw [drain_eq]
  rw [hstate] at hchanged
  rw [deliver_emitted, hstate]
  unfold drainBatches
  rcases hcol : collectAll (batch.map Prod.snd) with ⟨events, _ | newState⟩
  · rw [hcol] at hchanged
    exact absurd rfl hchanged
  · exact ⟨events, rfl⟩

/-! ## §3. Runs of the driver. -/

/-- A batch arrives while the driver waits, which is then woken. -/
def batchRun (batch : List (Nat × ProviderEvent)) : List Action :=
  batch.map (fun e => .sinkEmit e.1 e.2) ++ [.recv, .drain]

/-- The driver waits for its channels, and there is nothing in them. -/
structure Waiting (d : Driver) : Prop where
  phase : d.phase = .select
  handle : d.closed = false
  commands : d.cmdRx = []
  events : d.provRx = []

/-- The events of a batch arrive one by one. -/
theorem exec_arrivals (batch : List (Nat × ProviderEvent)) {d : Driver}
    (hattempts : ∀ e ∈ batch, 1 ≤ e.1 ∧ e.1 ≤ d.attempts) :
    exec step d (batch.map fun e => .sinkEmit e.1 e.2)
      = some { d with provRx := d.provRx ++ batch } := by
  induction batch generalizing d with
  | nil => simp
  | cons e batch ih =>
    have hstep : d.step (.sinkEmit e.1 e.2) = some { d with provRx := d.provRx ++ [e] } :=
      if_pos (hattempts e List.mem_cons_self)
    have hrest := @ih { d with provRx := d.provRx ++ [e] } fun e' he' =>
      hattempts e' (List.mem_cons_of_mem e he')
    rw [List.map_cons, exec_cons, hstep, Option.bind_some]
    refine hrest.trans ?_
    rw [List.append_assoc, List.singleton_append]

/-- A batch that arrives while the driver waits is drained as a whole. -/
theorem exec_batchRun {d : Driver} (hwaiting : Waiting d) {batch : List (Nat × ProviderEvent)}
    (hattempts : ∀ e ∈ batch, 1 ≤ e.1 ∧ e.1 ≤ d.attempts) :
    exec step d (batchRun batch) = some (d.deliver batch) := by
  obtain ⟨hphase, hhandle, hcommands, hevents⟩ := hwaiting
  unfold batchRun
  rw [exec_append, exec_arrivals batch hattempts, hevents, Option.bind_some, List.nil_append]
  -- no command is waiting and the handle is there, so the events are polled next
  have hrecv : step { d with provRx := batch } .recv
      = some ({ d with provRx := batch }.goto .pollProvider) := by
    simp only [step, recv, hphase, hcommands, hhandle]
    rfl
  have hdrain : step ({ d with provRx := batch }.goto .pollProvider) .drain
      = some (d.deliver batch) := by
    have hpoll : ({ d with provRx := batch }.goto .pollProvider).phase = .pollProvider := rfl
    unfold deliver
    rw [step, if_pos hpoll, drain_eq, drain_eq]
    rfl
  rw [exec_cons, hrecv, Option.bind_some, exec_singleton, hdrain]

theorem Waiting.deliver {d : Driver} (h : Waiting d) (batch : List (Nat × ProviderEvent)) :
    Waiting (d.deliver batch) := by
  unfold Driver.deliver
  rw [drain_eq]
  exact ⟨rfl, h.handle, h.commands, rfl⟩

/-- **Batches that arrive one after another are drained one after another.** -/
theorem exec_batches (batches : List (List (Nat × ProviderEvent))) {d : Driver}
    (hwaiting : Waiting d)
    (hattempts : ∀ batch ∈ batches, ∀ e ∈ batch, 1 ≤ e.1 ∧ e.1 ≤ d.attempts) :
    exec step d (batches.flatMap batchRun) = some (d.deliverAll batches) := by
  induction batches generalizing d with
  | nil => rfl
  | cons batch rest ih =>
    have hsame : (d.deliver batch).attempts = d.attempts := by
      unfold deliver
      rw [drain_eq]
    rw [List.flatMap_cons, exec_append,
      exec_batchRun hwaiting (hattempts batch List.mem_cons_self), Option.bind_some]
    refine ih (hwaiting.deliver batch) fun b hb => ?_
    rw [hsame]
    exact hattempts b (List.mem_cons_of_mem batch hb)

/-- **The cuts cannot be seen.**  However a sequence of events is cut into batches, the state
after it, the data and errors sent out and the bytes for the terminal are those of its events
one at a time, and every batch that changes the state closes with its announcement. -/
theorem batches_transparent (d : Driver) (batches : List (List (Nat × ProviderEvent))) :
    (d.deliverAll batches).state = (d.deliverAll (batches.flatten.map fun e => [e])).state ∧
    (d.deliverAll batches).reports = (d.deliverAll (batches.flatten.map fun e => [e])).reports ∧
    (d.deliverAll batches).terminalBytes
      = (d.deliverAll (batches.flatten.map fun e => [e])).terminalBytes ∧
    ∀ before batch, before ++ [batch] <+: batches →
      ((d.deliverAll before).deliver batch).state ≠ (d.deliverAll before).state →
      ∃ events, ((d.deliverAll before).deliver batch).emitted = (d.deliverAll before).emitted
        ++ [events ++ [.stateChanged ((d.deliverAll before).deliver batch).state]] := by
  have hsingle : (batches.flatten.map fun e => [e]).flatten = batches.flatten := by
    rw [← List.flatMap_def]
    exact List.flatMap_singleton' _
  have hreports : (d.deliverAll batches).reports
      = (d.deliverAll (batches.flatten.map fun e => [e])).reports := by
    rw [deliverAll_reports, deliverAll_reports, hsingle]
  refine ⟨?_, hreports, ?_, fun before batch _ => deliver_announces⟩
  · rw [deliverAll_state, deliverAll_state, hsingle]
  · unfold terminalBytes
    rw [hreports]

end Driver

end ResearchSSH.Core
