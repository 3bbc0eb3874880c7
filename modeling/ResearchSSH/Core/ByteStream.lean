/-
  ResearchSSH.Core.ByteStream — what a server sends, through the driver.

  The bytes of a server are put into the provider channel and collected in batches, with what else
  there is in the channel.  However they are cut on the way, they are handed out as they came.

  Main result:
    * `Driver.conveys` — one step of the driver.
-/

import ResearchSSH.Core.EventBatches

namespace ResearchSSH.Core

/-! ## §1. Bytes. -/

/-- The bytes that an event carries. -/
def ProviderEvent.bytes : ProviderEvent → List UInt8
  | .data bytes => bytes
  | _ => []

/-- What is put into the channel. -/
def Action.received : Action → List UInt8
  | .sinkEmit _ ev => ev.bytes
  | _ => []

/-- The bytes of some batches. -/
def bytesOf (batches : List (List SessionEvent)) : List UInt8 :=
  batches.flatten.flatMap SessionEvent.bytes

/-- The bytes of batches one behind another. -/
theorem bytesOf_append (batches more : List (List SessionEvent)) :
    bytesOf (batches ++ more) = bytesOf batches ++ bytesOf more := by
  unfold bytesOf
  rw [List.flatten_append, List.flatMap_append]

namespace Driver

variable {d d' e : Driver}

/-- What has not been collected yet. -/
def inChannel (d : Driver) : List UInt8 := d.provRx.flatMap fun entry => entry.2.bytes

/-- Collecting loses no byte. -/
theorem bytes_collectAll (evs : List ProviderEvent) :
    (collectAll evs).1.flatMap SessionEvent.bytes = evs.flatMap ProviderEvent.bytes := by
  induction evs using List.reverseRecOn with
  | nil => rfl
  | append_singleton evs ev ih =>
    rw [collectAll_snoc, List.flatMap_append, ← ih]
    cases ev with
    | data bytes => simp [collectProviderEvent, SessionEvent.bytes, ProviderEvent.bytes]
    | disconnected reason => simp [collectProviderEvent, ProviderEvent.bytes]
    | error e => simp [collectProviderEvent, SessionEvent.bytes, ProviderEvent.bytes]

/-- Draining loses no byte. -/
theorem bytes_drainBatches (evs : List ProviderEvent) :
    bytesOf (drainBatches evs) = evs.flatMap ProviderEvent.bytes := by
  have hcollected := bytes_collectAll evs
  unfold drainBatches bytesOf
  generalize collectAll evs = collected at hcollected ⊢
  obtain ⟨events, _ | newState⟩ := collected
  · cases events with
    | nil => exact hcollected
    | cons ev events => simpa using hcollected
  · simpa [SessionEvent.bytes] using hcollected

/-! ## §2. Steps. -/

/-- A step that is not about the channel. -/
structure Aside (d d' : Driver) : Prop where
  emitted : ∃ batches, d'.emitted = d.emitted ++ batches ∧ bytesOf batches = []
  channel : d'.provRx = d.provRx

theorem Aside.refl (d : Driver) : Aside d d := ⟨⟨[], (List.append_nil _).symm, rfl⟩, rfl⟩

/-- One after the other. -/
theorem Aside.trans (h : Aside d d') (h' : Aside d' e) : Aside d e := by
  obtain ⟨batches, hemitted, hnone⟩ := h.emitted
  obtain ⟨more, hmore, hnone'⟩ := h'.emitted
  refine ⟨⟨batches ++ more, ?_, ?_⟩, h'.channel.trans h.channel⟩
  · rw [hmore, hemitted, List.append_assoc]
  · rw [bytesOf_append, hnone, hnone']
    rfl

/-- Nothing goes out, and the channel is left. -/
theorem Aside.silent (hemitted : d'.emitted = d.emitted) (hchannel : d'.provRx = d.provRx) :
    Aside d d' := ⟨⟨[], by rw [hemitted, List.append_nil], rfl⟩, hchannel⟩

/-- A batch without bytes goes out. -/
theorem Aside.batch {events : List SessionEvent} (hemitted : d'.emitted = d.emitted ++ [events])
    (hchannel : d'.provRx = d.provRx) (hnone : events.flatMap SessionEvent.bytes = []) :
    Aside d d' := by
  refine ⟨⟨[events], hemitted, ?_⟩, hchannel⟩
  unfold bytesOf
  rwa [List.flatten_singleton]

/-- A command is taken up. -/
theorem aside_handle (d : Driver) (cmd : Command) : Aside d (d.handle cmd) := by
  cases cmd with
  | shutdown =>
    show Aside d d.beginShutdown
    unfold beginShutdown
    split
    · exact .silent rfl rfl
    · exact .silent rfl rfl
  | setSecret secret => exact .silent rfl rfl
  | setPrivateKey keyPath passphrase => exact .silent rfl rfl
  | connect =>
    show Aside d d.beginConnect
    unfold beginConnect
    split
    · exact .batch rfl rfl rfl
    · exact .batch rfl rfl rfl
  | send data =>
    show Aside d (d.beginSend data)
    unfold beginSend
    split
    · exact .batch rfl rfl rfl
    · exact .silent rfl rfl
  | disconnect =>
    show Aside d d.beginDisconnect
    unfold beginDisconnect
    dsimp only
    split
    · exact .silent rfl rfl
    · exact .batch rfl rfl rfl
  | fs requestId op =>
    show Aside d (d.beginFs requestId op)
    unfold beginFs
    split
    · exact .silent rfl rfl
    · exact .silent rfl rfl
  | exec requestId command timeoutMs =>
    show Aside d (d.beginExec requestId command timeoutMs)
    unfold beginExec
    split
    · exact .silent rfl rfl
    · exact .silent rfl rfl

/-- A command is received. -/
theorem aside_recv (d : Driver) : Aside d d.recv := by
  unfold recv
  split
  · split
    · exact aside_handle d .shutdown
    · exact .silent rfl rfl
  · next cmd rest _ =>
    have htaken : Aside d { d with cmdRx := rest, dequeued := d.dequeued ++ [cmd] } :=
      .silent rfl rfl
    exact htaken.trans (aside_handle _ cmd)

/-- A connect ends. -/
theorem aside_finishConnect (d : Driver) (result : CoreResult Unit) (opened : Bool) :
    Aside d (d.finishConnect result opened) := by
  cases result with
  | ok u => exact .batch rfl rfl rfl
  | error e =>
    have hfirst : Aside d (d.emitError e.code e.message) := .batch rfl rfl rfl
    exact hfirst.trans (.batch rfl rfl rfl)

/-- A disconnect ends. -/
theorem aside_finishDisconnect (d : Driver) : Aside d d.finishDisconnect := by
  unfold finishDisconnect
  split
  · have hfirst : Aside d (d.emitError .cancelled "connection cancelled") := .batch rfl rfl rfl
    exact hfirst.trans (.batch rfl rfl rfl)
  · exact .batch rfl rfl rfl
  · exact .silent rfl rfl
  · exact .refl d

/-- The driver is interrupted. -/
theorem aside_interrupt (d : Driver) : Aside d d.interrupt := by
  unfold interrupt
  split
  · exact .silent rfl rfl
  · exact .batch rfl rfl rfl
  · exact .silent rfl rfl
  · exact .silent rfl rfl
  · exact .refl d

/-- **The driver loses no byte**: what was in the channel and what comes in is handed out or still
there. -/
theorem conveys {a : Action} (hstep : d.step a = some d') :
    ∃ batches, d'.emitted = d.emitted ++ batches
      ∧ d.inChannel ++ a.received = bytesOf batches ++ d'.inChannel := by
  -- all but the sink's events and their draining leave the channel as it is
  have haside : a.received = [] → Aside d d' → ∃ batches, d'.emitted = d.emitted ++ batches
      ∧ d.inChannel ++ a.received = bytesOf batches ++ d'.inChannel := by
    intro hnone h
    obtain ⟨batches, hemitted, hbytes⟩ := h.emitted
    refine ⟨batches, hemitted, ?_⟩
    unfold inChannel
    rw [hnone, hbytes, h.channel, List.append_nil, List.nil_append]
  cases takes_of_step hstep with
  -- in at the one end
  | sinkEmit attempt ev _ _ =>
    refine ⟨[], (List.append_nil _).symm, ?_⟩
    unfold inChannel
    rw [List.flatMap_append]
    simp [Action.received, bytesOf]
  -- and out at the other
  | drain _ =>
    refine ⟨drainBatches (d.provRx.map Prod.snd), by rw [drain_eq], ?_⟩
    rw [bytes_drainBatches, drain_eq, List.flatMap_map]
    rfl
  | recv _ => exact haside rfl (aside_recv d)
  | connectReturns result opened _ => exact haside rfl (aside_finishConnect d result opened)
  | disconnectReturns _ => exact haside rfl (aside_finishDisconnect d)
  | interrupted _ _ => exact haside rfl (aside_interrupt d)
  | notCreated _ e => exact haside rfl (.batch rfl rfl rfl)
  | gatePrompt fingerprint _ _ => exact haside rfl (.batch rfl rfl rfl)
  | sendReturns result _ =>
    cases result with
    | ok u => exact haside rfl (.silent rfl rfl)
    | error e => exact haside rfl (.batch rfl rfl rfl)
  | execReturns result _ =>
    cases result with
    | ok output => exact haside rfl (.silent rfl rfl)
    | error e => exact haside rfl (.silent rfl rfl)
  | created _ | submit _ _ | close | setFileEmitter | setTaskEmitter | notified _ | unheard _
  | fsReturns _ _ _ _ | fsUnavailable _ _ => exact haside rfl (.silent rfl rfl)

end Driver

end ResearchSSH.Core
