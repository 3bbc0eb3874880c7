/-
  ResearchSSH.Core.MockSession — the driver over the mock provider.

  `MockProvider` makes its file provider when it is made itself, and `take_file_provider` gives
  it away for good.  The driver asks for it at the end of every successful connect and replaces
  what it holds by the answer, so the first connect of a session gets the file provider and
  every later one gets none.

  A step of the pair is a step of the driver with the answer that the mock gives; what a
  command prints is carried by the label.

  Main results:
    * `step_driver`              — a step of the pair is an execution of the driver.
    * `Furnished.step`           — only a connect that opens no file provider leaves a connected
      driver without one.
    * `reconnectRun_unavailable` — the second connection of a session serves no files.
    * `files_when_connected_iff` — the runs in which every connection has its files.
-/

import ResearchSSH.Core.FileCapability
import ResearchSSH.Core.MockFs

namespace ResearchSSH.Core

open ResearchSSH.Library

/-! ## §1. The mock provider. -/

/-- `ConnectionConfig`, as far as the provider reads it. -/
structure ConnectionConfig where
  host : Text
  port : UInt16
  username : Text
  deriving DecidableEq, Repr

/-- `sink` is the attempt whose clone of the sink is kept. -/
structure MockProvider where
  config : ConnectionConfig
  sink : Option Nat
  connected : Bool
  fileProvider : Option MockFs
  deriving DecidableEq

namespace MockProvider

/-- `new`: the file provider is made here, once. -/
def new (config : ConnectionConfig) : MockProvider :=
  { config := config, sink := none, connected := false, fileProvider := some .seeded }

variable (p : MockProvider)

/-- `prompt`. -/
def prompt : String :=
  String.ofList p.config.username ++ "@" ++ String.ofList p.config.host ++ ":~$ "

/-- `take_file_provider`: the second caller gets none. -/
def takeFileProvider : Option MockFs × MockProvider :=
  (p.fileProvider, { p with fileProvider := none })

/-- The hosts that `connect` refuses. -/
def refuses : Bool := "fail".toList.isPrefixOf p.config.host || p.config.host.isEmpty

/-- The text sent after a connect. -/
def banner : String :=
  "ResearchSSH-Next 模拟 SSH 服务器\r\n已连接到 " ++ String.ofList p.config.host ++ ":"
    ++ toString p.config.port ++ "(用户 " ++ String.ofList p.config.username ++ ")\r\n"
    ++ "(模拟 Provider,尚未接入真实 SSH)\r\n" ++ p.prompt

/-- `connect` with the sink of an attempt: the answer, what it emits, and the provider after. -/
def connect (attempt : Nat) : CoreResult Unit × List ProviderEvent × MockProvider :=
  if p.refuses then
    (.error { code := .connectFailed,
              detail := some ("模拟：主机 “" ++ String.ofList p.config.host ++ "” 无法连接") }, [], p)
  else
    -- The banner is sent before `connect` returns.
    (.ok (), [.data p.banner.toUTF8.data.toList],
      { p with connected := true, sink := some attempt })

/-- `send`, whose echo, response and prompt are `written`. -/
def send (written : List UInt8) : CoreResult Unit × List (Nat × ProviderEvent) :=
  if p.connected then
    match p.sink with
    | some attempt => (.ok (), [(attempt, .data written)])
    | none => (.error { code := .invalidState, detail := none }, [])
  else (.error { code := .notConnected, detail := none }, [])

/-- `exec` of a command that prints `output`. -/
def exec (output : ExecOutput) : CoreResult ExecOutput :=
  if p.connected then .ok output else .error { code := .notConnected, detail := none }

/-- `disconnect`: the sink is dropped. -/
def disconnect : MockProvider := { p with connected := false, sink := none }

end MockProvider

/-! ## §2. The pair. -/

/-- A driver, its provider, and the file provider it was given. -/
structure MockSession where
  driver : Driver
  provider : MockProvider
  files : Option MockFs
  deriving DecidableEq

/-- A step of the driver or its environment, or an answer of the mock. -/
inductive MockAction
  /-- A step that asks nothing of the provider. -/
  | own (a : Action)
  | connectReturns
  | sendReturns (written : List UInt8)
  | fsReturns
  | execReturns (output : ExecOutput)
  | disconnectReturns
  deriving Repr

/-- The steps for which a provider decides whether and how they happen.  The mock is always
created, and it ignores the host-key gate. -/
def Action.ofProvider : Action → Bool
  | .createProvider (.error _) | .sinkEmit _ _ | .gatePrompt _ | .connectReturns _ _
  | .sendReturns _ | .fsReturns _ | .execReturns _ | .disconnectReturns => true
  | _ => false

namespace MockSession

/-- A session that was just created. -/
def initial (config : ConnectionConfig) : MockSession :=
  { driver := .initial, provider := .new config, files := none }

/-- The driver goes on to `d`.  A file provider that it no longer holds is gone. -/
def next (s : MockSession) (d : Driver) : MockSession :=
  { s with driver := d, files := if d.fileProvider.isSome then s.files else none }

/-- Steps of the driver, one after another. -/
def drive (s : MockSession) (acts : List Action) : Option MockSession :=
  (exec Driver.step s.driver acts).map s.next

/-- The driver and its provider, one step. -/
def step (s : MockSession) : MockAction → Option MockSession
  | .own a => if a.ofProvider then none else s.drive [a]
  | .connectReturns =>
    match s.provider.connect s.driver.attempts with
    | (.ok (), events, provider) =>
      -- The file provider is there for the first connection only.
      let (files, provider) := provider.takeFileProvider
      let s := { s with provider := provider, files := files }
      s.drive (events.map (.sinkEmit s.driver.attempts)
        ++ [.connectReturns (.ok ()) files.isSome])
    | (.error e, _, provider) =>
      { s with provider := provider }.drive [.connectReturns (.error e) false]
  | .sendReturns written =>
    let (result, events) := s.provider.send written
    s.drive (events.map (fun e => .sinkEmit e.1 e.2) ++ [.sendReturns result])
  | .fsReturns =>
    match s.driver.phase, s.files with
    | .fsOp _ op, some fs =>
      { s with files := some (fs.perform op).2 }.drive [.fsReturns (fs.perform op).1]
    | _, _ => none
  | .execReturns output => s.drive [.execReturns (s.provider.exec output)]
  | .disconnectReturns =>
    { s with provider := s.provider.disconnect }.drive [.disconnectReturns]

/-- The driver makes its steps, and the provider is told. -/
theorem drive_some {s s' : MockSession} {acts : List Action} (h : s.drive acts = some s') :
    ∃ d, exec Driver.step s.driver acts = some d ∧ s' = s.next d := by
  obtain ⟨d, hd, hs'⟩ := Option.map_eq_some_iff.mp h
  exact ⟨d, hd, hs'.symm⟩

/-- What is emitted waits in the channel, behind what is there. -/
theorem exec_sinkEmits {events : List (Nat × ProviderEvent)} : ∀ {d d' : Driver},
    exec Driver.step d (events.map fun e => .sinkEmit e.1 e.2) = some d' →
      d' = { d with provRx := d.provRx ++ events } := by
  induction events with
  | nil =>
    intro d d' h
    rw [List.map_nil, exec_nil, Option.some.injEq] at h
    rw [List.append_nil]
    exact h.symm
  | cons e events ih =>
    intro d d' h
    obtain ⟨m, hm, hrest⟩ := (exec_cons_some Driver.step).mp h
    cases Driver.takes_of_step hm with
    | sinkEmit attempt ev _ _ =>
      rw [ih hrest, List.append_assoc]
      rfl

/-- A driver with more in its provider channel. -/
def withEvents (d : Driver) (events : List (Nat × ProviderEvent)) : Driver :=
  { d with provRx := d.provRx ++ events }

/-- A step that follows on no emission. -/
theorem step_unemitted {d d' : Driver} {a : Action} (h : d.step a = some d') :
    (withEvents d []).step a = some d' := by
  have hd : withEvents d [] = d := by rw [withEvents, List.append_nil]
  rw [hd]
  exact h

/-- Emitting, and then one step more. -/
theorem exec_emit_then {events : List (Nat × ProviderEvent)} {a : Action} {d d' : Driver}
    (h : exec Driver.step d (events.map (fun e => .sinkEmit e.1 e.2) ++ [a]) = some d') :
    (withEvents d events).step a = some d' := by
  rw [exec_append] at h
  obtain ⟨m, hm, hlast⟩ := Option.bind_eq_some_iff.mp h
  rw [exec_singleton, exec_sinkEmits hm] at hlast
  exact hlast

/-- **What a step of the pair can do**, told by the step of the driver in it. -/
inductive Takes (s : MockSession) : MockAction → MockSession → Prop
  | own {a : Action} {d : Driver} (hown : a.ofProvider = false)
      (hstep : s.driver.step a = some d) : Takes s (.own a) (s.next d)
  | connected {events : List (Nat × ProviderEvent)} {d : Driver}
      (haccepts : s.provider.refuses = false)
      (hstep : (withEvents s.driver events).step
        (.connectReturns (.ok ()) s.provider.fileProvider.isSome) = some d) :
      Takes s .connectReturns
        { driver := d
          provider := { s.provider with
            connected := true, sink := some s.driver.attempts, fileProvider := none }
          files := if d.fileProvider.isSome then s.provider.fileProvider else none }
  | refused {e : CoreError} {d : Driver} (hrefuses : s.provider.refuses = true)
      (hstep : s.driver.step (.connectReturns (.error e) false) = some d) :
      Takes s .connectReturns (s.next d)
  | sendReturns (written : List UInt8) {events : List (Nat × ProviderEvent)}
      {result : CoreResult Unit} {d : Driver}
      (hstep : (withEvents s.driver events).step (.sendReturns result) = some d) :
      Takes s (.sendReturns written) (s.next d)
  | fsReturns {requestId : UInt64} {op : FsOp} {fs : MockFs} {d : Driver}
      (hphase : s.driver.phase = .fsOp requestId op) (hfiles : s.files = some fs)
      (hstep : s.driver.step (.fsReturns (fs.perform op).1) = some d) :
      Takes s .fsReturns ({ s with files := some (fs.perform op).2 }.next d)
  | execReturns (output : ExecOutput) {result : CoreResult ExecOutput} {d : Driver}
      (hstep : s.driver.step (.execReturns result) = some d) :
      Takes s (.execReturns output) (s.next d)
  | disconnectReturns {d : Driver} (hstep : s.driver.step .disconnectReturns = some d) :
      Takes s .disconnectReturns ({ s with provider := s.provider.disconnect }.next d)

/-- The driver makes one step, and the provider is told. -/
theorem drive_one {s s' : MockSession} {a : Action} (h : s.drive [a] = some s') :
    ∃ d, s.driver.step a = some d ∧ s' = s.next d := by
  obtain ⟨d, hd, hs'⟩ := drive_some h
  rw [exec_singleton] at hd
  exact ⟨d, hd, hs'⟩

/-- What a step of the session does. -/
theorem takes_of_step {s s' : MockSession} {a : MockAction} (h : s.step a = some s') :
    Takes s a s' := by
  cases a with
  | own a =>
    obtain ⟨hown, hdrive⟩ := Option.ite_none_left_eq_some.mp h
    obtain ⟨d, hstep, rfl⟩ := drive_one hdrive
    exact .own (by simpa using hown) hstep
  | connectReturns =>
    cases hrefuses : s.provider.refuses with
    | true =>
      simp only [step, MockProvider.connect, hrefuses, if_true] at h
      obtain ⟨d, hstep, rfl⟩ := drive_one h
      exact .refused hrefuses hstep
    | false =>
      simp only [step, MockProvider.connect, hrefuses, MockProvider.takeFileProvider] at h
      obtain ⟨d, hsteps, rfl⟩ := drive_some h
      exact .connected hrefuses
        (@exec_emit_then [(s.driver.attempts, .data s.provider.banner.toUTF8.data.toList)] _ _ _
          hsteps)
  | sendReturns written =>
    obtain ⟨d, hsteps, rfl⟩ := drive_some h
    exact .sendReturns written (exec_emit_then hsteps)
  | fsReturns =>
    simp only [step] at h
    split at h
    · next hphase hfiles =>
      obtain ⟨d, hstep, rfl⟩ := drive_one h
      exact .fsReturns hphase hfiles hstep
    · cases h
  | execReturns output =>
    obtain ⟨d, hstep, rfl⟩ := drive_one h
    exact .execReturns output hstep
  | disconnectReturns =>
    obtain ⟨d, hstep, rfl⟩ := drive_one h
    exact .disconnectReturns hstep

theorem exec_of_drive {s s' : MockSession} {acts : List Action} (h : s.drive acts = some s') :
    exec Driver.step s.driver acts = some s'.driver := by
  obtain ⟨d, hd, rfl⟩ := drive_some h
  exact hd

/-- **The pair refines the driver**: a step of it is an execution of the driver's steps. -/
theorem step_driver {s s' : MockSession} {a : MockAction} (h : s.step a = some s') :
    ∃ acts, exec Driver.step s.driver acts = some s'.driver := by
  cases a with
  | own a =>
    have hexec := exec_of_drive (Option.ite_none_left_eq_some.mp h).2
    exact ⟨_, hexec⟩
  | connectReturns =>
    simp only [step] at h
    split at h <;> have hexec := exec_of_drive h <;> exact ⟨_, hexec⟩
  | sendReturns written =>
    have hexec := exec_of_drive h
    exact ⟨_, hexec⟩
  | fsReturns =>
    simp only [step] at h
    split at h
    · have hexec := exec_of_drive h
      exact ⟨_, hexec⟩
    · cases h
  | execReturns output =>
    have hexec := exec_of_drive h
    exact ⟨_, hexec⟩
  | disconnectReturns =>
    have hexec := exec_of_drive (s := { s with provider := s.provider.disconnect }) h
    exact ⟨_, hexec⟩

end MockSession

/-! ## §3. What the driver keeps of its file provider. -/

namespace Driver

/-- A connected driver holds a file provider. -/
def Furnished (d : Driver) : Prop := d.state = .connected → d.fileProvider.isSome = true

theorem Furnished.frame {d d' : Driver} (h : Furnished d) (hstate : d'.state = d.state)
    (hheld : d'.fileProvider = d.fileProvider) : Furnished d' := by
  intro hconn
  rw [hheld]
  exact h (hstate ▸ hconn)

/-- A command is taken up. -/
theorem Furnished.handle {d : Driver} (h : Furnished d) (cmd : Command) :
    Furnished (d.handle cmd) := by
  cases cmd with
  | connect =>
    simp only [Driver.handle, beginConnect]
    split
    · exact h.frame rfl rfl
    · intro hconn
      cases hconn
  | send data =>
    simp only [Driver.handle, beginSend]
    split <;> exact h.frame rfl rfl
  | disconnect =>
    simp only [Driver.handle, beginDisconnect]
    split
    · exact h.frame rfl rfl
    · intro hconn
      cases hconn
  | setSecret secret => exact h.frame rfl rfl
  | setPrivateKey keyPath passphrase => exact h.frame rfl rfl
  | fs requestId op =>
    simp only [Driver.handle, beginFs]
    split <;> exact h.frame rfl rfl
  | exec requestId command timeoutMs =>
    simp only [Driver.handle, beginExec]
    split <;> exact h.frame rfl rfl
  | shutdown =>
    simp only [Driver.handle, beginShutdown]
    split <;> exact h.frame rfl rfl

/-- **Only a connect that opens no file provider leaves a connected driver without one.** -/
theorem Furnished.step {d d' : Driver} {a : Action} (h : Furnished d)
    (hopens : ∀ opened, a = .connectReturns (.ok ()) opened → opened = true)
    (hstep : d.step a = some d') : Furnished d' := by
  cases takes_of_step hstep with
  | recv hphase =>
    unfold Driver.recv
    split
    · split
      · exact h.handle .shutdown
      · exact h.frame rfl rfl
    · next cmd rest _ =>
      have hdeq : Furnished { d with cmdRx := rest, dequeued := d.dequeued ++ [cmd] } :=
        h.frame rfl rfl
      exact hdeq.handle cmd
  | drain hphase =>
    -- a drain never enters `Connected`
    by_cases hends : d.NoneEnds
    · exact h.frame (drain_state_of_noneEnds hends) (drain_held d)
    · intro hconn
      exact absurd hconn (drain_state_of_ends hends)
  | connectReturns result opened hphase =>
    cases result with
    | ok _ =>
      intro _
      simp only [finishConnect, call, setState, emitBatch, goto]
      rw [if_pos (hopens opened rfl)]
      rfl
    | error e =>
      intro hconn
      cases hconn
  | sendReturns result hphase => cases result <;> exact h.frame rfl rfl
  | execReturns result hphase => cases result <;> exact h.frame rfl rfl
  | disconnectReturns hphase =>
    rcases hphase with hphase | hphase | hphase <;> simp only [finishDisconnect, hphase]
    · intro hconn
      cases hconn
    · intro hconn
      cases hconn
    · exact h.frame rfl rfl
  | interrupted hphase hnotified =>
    unfold Driver.interrupt
    split <;> exact h.frame rfl rfl
  | unheard hphase => exact h
  | _ => exact h.frame rfl rfl

/-- A command may take the file provider away. -/
theorem fileProvider_handle (d : Driver) (cmd : Command) :
    (d.handle cmd).fileProvider = d.fileProvider ∨ (d.handle cmd).fileProvider = none := by
  cases cmd with
  | disconnect =>
    simp only [handle, beginDisconnect]
    split
    · exact .inl rfl
    · exact .inr rfl
  | _ =>
    left
    simp only [handle, beginConnect, beginSend, beginFs, beginExec, beginShutdown]
    (try split) <;> rfl

/-- Only a successful connect brings a file provider. -/
theorem fileProvider_step {d d' : Driver} {a : Action} (hstep : d.step a = some d')
    (ha : ∀ opened, a ≠ .connectReturns (.ok ()) opened) :
    d'.fileProvider = d.fileProvider ∨ d'.fileProvider = none := by
  cases takes_of_step hstep with
  | recv hphase =>
    unfold Driver.recv
    split
    · split
      · exact fileProvider_handle d .shutdown
      · exact .inl rfl
    · next cmd rest _ => exact fileProvider_handle _ cmd
  | drain hphase => exact .inl (drain_held d)
  | connectReturns result opened hphase =>
    cases result with
    | ok _ => exact absurd rfl (ha opened)
    | error e => exact .inl rfl
  | sendReturns result hphase => cases result <;> exact .inl rfl
  | execReturns result hphase => cases result <;> exact .inl rfl
  | disconnectReturns hphase =>
    left
    rcases hphase with hphase | hphase | hphase <;> simp only [finishDisconnect, hphase] <;> rfl
  | interrupted hphase hnotified =>
    left
    unfold Driver.interrupt
    split <;> rfl
  | _ => exact .inl rfl

/-- The file provider was asked for at some time. -/
def Asked (d : Driver) : Prop := ProviderCall.takeFileProvider ∈ d.calls

/-- A command makes no attempt of its own. -/
theorem asked_handle (d : Driver) (cmd : Command) : (d.handle cmd).Asked ↔ d.Asked := by
  cases cmd with
  | connect =>
    simp only [handle, beginConnect, Asked]
    split <;> simp
  | send data =>
    simp only [handle, beginSend, Asked]
    split <;> simp
  | disconnect =>
    simp only [handle, beginDisconnect, Asked]
    split <;> simp
  | setSecret secret => simp [handle, Asked]
  | setPrivateKey keyPath passphrase => simp [handle, Asked]
  | fs requestId op =>
    simp only [handle, beginFs, Asked]
    split <;> simp
  | exec requestId command timeoutMs =>
    simp only [handle, beginExec, Asked]
    split <;> simp
  | shutdown =>
    simp only [handle, beginShutdown, Asked]
    split <;> simp

/-- It is asked for when a connect has returned `Ok`, and at no other time. -/
theorem asked_step {d d' : Driver} {a : Action} (hstep : d.step a = some d') :
    d'.Asked ↔ d.Asked ∨ ∃ opened, a = .connectReturns (.ok ()) opened := by
  cases takes_of_step hstep with
  | recv hphase =>
    simp only [reduceCtorEq, exists_false, or_false]
    unfold Driver.recv
    split
    · split
      · exact asked_handle d .shutdown
      · rfl
    · next cmd rest _ => exact asked_handle _ cmd
  | drain hphase => simp [Asked, drain_eq]
  | connectReturns result opened hphase => cases result <;> simp [Asked, finishConnect]
  | sendReturns result hphase => cases result <;> simp [Asked, finishSend]
  | execReturns result hphase => cases result <;> simp [Asked, finishExec]
  | disconnectReturns hphase =>
    rcases hphase with hphase | hphase | hphase <;> simp [Asked, finishDisconnect, hphase]
  | interrupted hphase hnotified =>
    simp only [reduceCtorEq, exists_false, or_false]
    unfold Driver.interrupt Asked
    split <;> simp
  | _ => simp [Asked, finishFs]

/-- An attempt is counted before its connect is awaited. -/
theorem started_step {d d' : Driver} {a : Action}
    (h : d.phase = .connecting → 1 ≤ d.attempts) (hstep : d.step a = some d') :
    d'.phase = .connecting → 1 ≤ d'.attempts := by
  cases takes_of_step hstep with
  | recv hphase =>
    unfold Driver.recv
    split
    · split
      · simp only [beginShutdown]
        split <;> simp
      · simp
    · next cmd rest _ =>
      cases cmd with
      | connect =>
        simp only [handle, beginConnect]
        split <;> simp [hphase]
      | setSecret secret => simp [handle, hphase]
      | setPrivateKey keyPath passphrase => simp [handle, hphase]
      | _ =>
        simp only [handle, beginSend, beginDisconnect, beginFs, beginExec, beginShutdown]
        split <;> simp [hphase]
  | drain hphase => simp [drain_eq]
  | connectReturns result opened hphase => cases result <;> simp [finishConnect]
  | sendReturns result hphase => cases result <;> simp [finishSend]
  | execReturns result hphase => cases result <;> simp [finishExec]
  | disconnectReturns hphase =>
    rcases hphase with hphase | hphase | hphase <;> simp [finishDisconnect, hphase]
  | interrupted hphase hnotified =>
    unfold Driver.interrupt
    split <;> simp_all [Phase.cancellable]
  | unheard hphase => exact h
  | submit | close | setFileEmitter | setTaskEmitter | notified | sinkEmit | gatePrompt => exact h
  | _ => simp [finishFs]

/-- An error in a payload is the error of the method. -/
theorem fsPayload_error {op : FsOp} {answer : FsAnswer} {code : RsErrorCode} {message : String}
    (h : fsPayload op answer = some (.error code message)) :
    ∃ e, answer = .failed e ∧ e.code = code := by
  cases answer with
  | failed e =>
    refine ⟨e, rfl, ?_⟩
    cases op <;> simp_all [fsPayload]
  | _ => cases op <;> simp [fsPayload] at h

/-- The steps that can deliver a file result. -/
def answersFile : Action → Bool
  | .fsReturns _ | .fsUnavailable | .interrupted => true
  | _ => false

/-- A command answers no file request by itself. -/
theorem fileSink_handle (d : Driver) (cmd : Command) : (d.handle cmd).fileSink = d.fileSink := by
  cases cmd <;> simp only [handle, beginConnect, beginSend, beginDisconnect, beginFs, beginExec,
    beginShutdown] <;> (try split) <;> rfl

/-- Only some steps answer file requests. -/
theorem fileSink_step {d d' : Driver} {a : Action} (hstep : d.step a = some d')
    (ha : answersFile a = false) : d'.fileSink = d.fileSink := by
  cases takes_of_step hstep with
  | recv hphase =>
    unfold Driver.recv
    split
    · split
      · exact fileSink_handle d .shutdown
      · rfl
    · next cmd rest _ => exact fileSink_handle _ cmd
  | drain hphase => rw [drain_eq]
  | connectReturns result opened hphase => cases result <;> rfl
  | sendReturns result hphase => cases result <;> rfl
  | execReturns result hphase => cases result <;> rfl
  | disconnectReturns hphase =>
    rcases hphase with hphase | hphase | hphase <;> simp only [finishDisconnect, hphase] <;> rfl
  | fsReturns | fsUnavailable | interrupted => cases ha
  | _ => rfl

end Driver

/-! ## §4. Runs of the pair. -/

namespace MockSession

/-- What the pair keeps as long as no connect succeeds a second time. -/
structure Provided (s : MockSession) : Prop where
  furnished : s.driver.Furnished
  /-- The mock has its file provider until the driver asks for it. -/
  untaken : s.provider.fileProvider.isSome = true ↔ ¬ s.driver.Asked
  started : s.driver.phase = .connecting → 1 ≤ s.driver.attempts
  /-- A held file provider is there. -/
  held : s.driver.fileProvider.isSome = true → s.files.isSome = true

/-- The session was just created. -/
theorem Provided.initial (config : ConnectionConfig) : Provided (initial config) where
  furnished := by intro h; cases h
  untaken := by simp [MockSession.initial, MockProvider.new, Driver.Asked, Driver.initial]
  started := by intro h; cases h
  held := by intro h; cases h

/-- A step of the driver that is no successful connect, with the provider's file provider left
where it is. -/
theorem Provided.of_driver {s : MockSession} (h : Provided s) {a : Action} {d : Driver}
    {events : List (Nat × ProviderEvent)} {provider : MockProvider} {files : Option MockFs}
    (hstep : (withEvents s.driver events).step a = some d)
    (ha : ∀ opened, a ≠ .connectReturns (.ok ()) opened)
    (hprovider : provider.fileProvider = s.provider.fileProvider)
    (hfiles : files.isSome = s.files.isSome) :
    Provided (MockSession.next ⟨s.driver, provider, files⟩ d) where
  furnished := by
    have hemitted : (withEvents s.driver events).Furnished := h.furnished
    exact hemitted.step (fun opened hopened => absurd hopened (ha opened)) hstep
  untaken := by
    have hasked := Driver.asked_step hstep
    simp only [ha, exists_false, or_false] at hasked
    show provider.fileProvider.isSome = true ↔ ¬ d.Asked
    rw [hprovider, hasked]
    exact h.untaken
  started := Driver.started_step (d := withEvents s.driver events) h.started hstep
  held := by
    intro hsome
    have hheld : s.driver.fileProvider.isSome = true := by
      rcases Driver.fileProvider_step hstep ha with hsame | hnone
      · exact hsame ▸ hsome
      · have hnot : d.fileProvider.isSome = false := by rw [hnone]; rfl
        exact absurd (hnot.symm.trans hsome) (by decide)
    have hkept : (MockSession.next ⟨s.driver, provider, files⟩ d).files = files := if_pos hsome
    rw [hkept, hfiles]
    exact h.held hheld

/-- No connect succeeds after an earlier one of the session has succeeded. -/
def ConnectsOnce (s : MockSession) (a : MockAction) : Prop :=
  a = .connectReturns → s.driver.phase = .connecting → s.provider.refuses = false →
    ¬ s.driver.Asked

/-- **One step** keeps it. -/
theorem Provided.step {s s' : MockSession} {a : MockAction} (h : Provided s)
    (honce : s.ConnectsOnce a) (hstep : s.step a = some s') : Provided s' := by
  cases takes_of_step hstep with
  | own hown hdriver =>
    refine h.of_driver (step_unemitted hdriver) ?_ rfl rfl
    rintro opened rfl
    cases hown
  | connected haccepts hdriver =>
    have hphase : s.driver.phase = .connecting := by
      cases Driver.takes_of_step hdriver with
      | connectReturns _ _ hphase => exact hphase
    have hsome := h.untaken.mpr (honce rfl hphase haccepts)
    rw [hsome] at hdriver
    refine ⟨?_, ?_, ?_, ?_⟩
    · have hemitted : ∀ events, (withEvents s.driver events).Furnished := fun _ => h.furnished
      refine (hemitted _).step (fun opened hopened => ?_) hdriver
      injection hopened with _ hopened
      exact hopened.symm
    · have hasked := (Driver.asked_step hdriver).mpr (.inr ⟨_, rfl⟩)
      simp [hasked]
    · exact Driver.started_step (d := withEvents s.driver _) h.started hdriver
    · intro hheld
      show (if _ then s.provider.fileProvider else none).isSome = true
      rw [if_pos hheld]
      exact hsome
  | refused _ hdriver =>
    exact h.of_driver (step_unemitted hdriver) (by simp) rfl rfl
  | sendReturns written hdriver => exact h.of_driver hdriver (by simp) rfl rfl
  | fsReturns hphase hfiles hdriver =>
    exact h.of_driver (step_unemitted hdriver) (by simp) rfl
      (by rw [hfiles, Option.isSome_some, Option.isSome_some])
  | execReturns output hdriver =>
    exact h.of_driver (step_unemitted hdriver) (by simp) rfl rfl
  | disconnectReturns hdriver =>
    exact h.of_driver (step_unemitted hdriver) (by simp) rfl rfl

/-- While the state is `Connected` no file command is answered with `ProviderUnavailable`. -/
def FilesAnswered (s : MockSession) (a : MockAction) : Prop :=
  ∀ s', s.step a = some s' → s.driver.state = .connected → ∀ requestId message,
    s'.driver.fileSink
      ≠ s.driver.fileSink ++ [⟨requestId, .error .providerUnavailable message⟩]

/-- A furnished driver delivers no error for want of a provider. -/
theorem filesAnswered_of_furnished {s : MockSession} (h : s.driver.Furnished) (a : MockAction) :
    s.FilesAnswered a := by
  intro s' hstep hconn requestId message hsink
  -- steps that deliver nothing leave the results as they are
  have hsilent : ∀ {b : Action} {events : List (Nat × ProviderEvent)},
      (withEvents s.driver events).step b = some s'.driver → Driver.answersFile b = true := by
    intro b events hdriver
    by_contra hb
    have hsame := Driver.fileSink_step hdriver (by simpa using hb)
    rw [hsink] at hsame
    simp [withEvents] at hsame
  cases takes_of_step hstep with
  | own hown hdriver =>
    have hanswers := hsilent (step_unemitted hdriver)
    cases Driver.takes_of_step hdriver with
    | fsUnavailable hphase hnone =>
      rw [h hconn] at hnone
      cases hnone
    | interrupted hphase hnotified =>
      have hdelivers : s.driver.interrupt.fileSink ≠ s.driver.fileSink
          ++ [⟨requestId, .error .providerUnavailable message⟩] := by
        unfold Driver.interrupt
        split
        · simp
        · simp
        · simp only [Driver.deliverFile, Driver.goto]
          split <;> simp
        · simp
        · simp
      exact hdelivers hsink
    | fsReturns => cases hown
    | _ => cases hanswers
  | connected haccepts hdriver => cases hsilent hdriver
  | refused hrefuses hdriver => cases hsilent (step_unemitted hdriver)
  | sendReturns written hdriver => cases hsilent hdriver
  | fsReturns hphase hfiles hdriver =>
    cases Driver.takes_of_step hdriver with
    | fsReturns answer hphase' hprovider hpayload =>
      have hsunk : (Driver.deliverFile s.driver ⟨_, _⟩).fileSink = _ := hsink
      simp only [Driver.deliverFile] at hsunk
      split at hsunk
      · rw [List.append_cancel_left_eq] at hsunk
        simp only [List.cons.injEq, FileResult.mk.injEq, and_true] at hsunk
        rw [hsunk.2] at hpayload
        obtain ⟨e, hfailed, hcode⟩ := Driver.fsPayload_error hpayload
        rcases MockFs.perform_failed _ _ hfailed with hin | hin <;> rw [hin] at hcode <;> cases hcode
      · simp at hsunk
  | execReturns output hdriver => cases hsilent (step_unemitted hdriver)
  | disconnectReturns hdriver => cases hsilent (step_unemitted hdriver)

/-- The second of two connections opens no file provider. -/
theorem Provided.connects_again {s : MockSession} {a : MockAction} (h : Provided s)
    (hnot : ¬ s.ConnectsOnce a) : ∃ s', s.step a = some s' ∧ ¬ s'.driver.Furnished := by
  simp only [ConnectsOnce, Classical.not_imp, not_not] at hnot
  obtain ⟨rfl, hphase, haccepts, hasked⟩ := hnot
  have hnone : s.provider.fileProvider = none := by
    cases hfiles : s.provider.fileProvider with
    | none => rfl
    | some fs => exact absurd hasked (h.untaken.mp (by rw [hfiles]; rfl))
  have hattempts := h.started hphase
  -- the banner goes out, and the connect returns without a file provider
  have hexec : ∀ ev, exec Driver.step s.driver
      [.sinkEmit s.driver.attempts ev, .connectReturns (.ok ()) false]
        = some ((withEvents s.driver [(s.driver.attempts, ev)]).finishConnect (.ok ()) false) := by
    intro ev
    have hemit : s.driver.step (.sinkEmit s.driver.attempts ev)
        = some (withEvents s.driver [(s.driver.attempts, ev)]) := by
      rw [Driver.step, if_pos ⟨hattempts, Nat.le_refl _⟩, withEvents]
    have hconnect : (withEvents s.driver [(s.driver.attempts, ev)]).step
        (.connectReturns (.ok ()) false)
          = some ((withEvents s.driver [(s.driver.attempts, ev)]).finishConnect (.ok ()) false) :=
      if_pos hphase
    rw [exec_cons, hemit, Option.bind_some, exec_singleton, hconnect]
  have hstep : (s.step .connectReturns).map (fun t => (t.driver.state, t.driver.fileProvider))
      = some (.connected, none) := by
    rw [MockSession.step, MockProvider.connect, if_neg (by rw [haccepts]; decide)]
    simp only [MockProvider.takeFileProvider, hnone, drive, List.map_cons, List.map_nil,
      List.cons_append, List.nil_append, Option.isSome_none, hexec]
    rfl
  obtain ⟨t, ht, hview⟩ := Option.map_eq_some_iff.mp hstep
  rw [Prod.mk.injEq] at hview
  refine ⟨t, ht, fun hfurnished => ?_⟩
  have hheld := hfurnished hview.1
  rw [hview.2] at hheld
  cases hheld

/-- Connect, disconnect, connect again, and ask for a listing. -/
def reconnectRun : List MockAction :=
  [.own (.createProvider (.ok ())), .own .setFileEmitter, .own (.submit .connect), .own .recv,
    .connectReturns, .own (.submit .disconnect), .own .recv, .disconnectReturns,
    .own (.submit .connect), .own .recv, .connectReturns, .own (.submit (.fs 1 (.list []))),
    .own .recv, .own .fsUnavailable]

/-- A configuration to try things with. -/
def exampleHost : ConnectionConfig :=
  { host := "example.com".toList, port := 22, username := "alice".toList }

/-- The second connection of a session serves no files. -/
theorem reconnectRun_unavailable :
    ∃ s, exec step (initial exampleHost) reconnectRun = some s ∧ s.driver.state = .connected ∧
      s.driver.fileProvider = none ∧
      s.driver.fileSink = [⟨1, Driver.fsUnavailable⟩] ∧
      ¬ (Throughout step (fun s => s.driver.Furnished) (initial exampleHost) reconnectRun ∧
        Along step FilesAnswered (initial exampleHost) reconnectRun) := by
  obtain ⟨s, hrun⟩ : ∃ s, exec step (initial exampleHost) reconnectRun = some s :=
    Option.isSome_iff_exists.mp rfl
  have hview : (exec step (initial exampleHost) reconnectRun).map
      (fun s => (s.driver.state, s.driver.fileProvider, s.driver.fileSink))
        = some (.connected, none, [⟨1, Driver.fsUnavailable⟩]) := rfl
  rw [hrun, Option.map_some, Option.some.injEq] at hview
  simp only [Prod.mk.injEq] at hview
  obtain ⟨hconn, hnone, hsink⟩ := hview
  refine ⟨s, hrun, hconn, hnone, hsink, fun h => ?_⟩
  have hheld := h.1 reconnectRun s List.prefix_rfl hrun hconn
  rw [hnone] at hheld
  cases hheld

/-- **When every connection has its files.**  Through a whole run of the driver over the mock a
file provider is held whenever the state is `Connected`, and no file command is then answered
with `ProviderUnavailable`, exactly if no connect succeeds after an earlier one has. -/
theorem files_when_connected_iff (config : ConnectionConfig) (acts : List MockAction) :
    (Throughout step (fun s => s.driver.Furnished) (initial config) acts ∧
      Along step FilesAnswered (initial config) acts)
        ↔ Along step ConnectsOnce (initial config) acts := by
  have hstart := Provided.initial config
  have hgood : ∀ s a s', Provided s → s.ConnectsOnce a → s.step a = some s' → Provided s' :=
    fun _ _ _ h honce hstep => h.step honce hstep
  have hiff : Throughout step (fun s => s.driver.Furnished) (initial config) acts
      ↔ Along step ConnectsOnce (initial config) acts :=
    throughout_iff_along (fun _ h => h.furnished) hgood
      (fun _ _ h hnot => h.connects_again hnot) hstart
  constructor
  · intro h
    exact hiff.mp h.1
  · intro h
    refine ⟨hiff.mpr h, along_of_invariant (fun s a hs _ => ?_) hgood hstart h⟩
    exact filesAnswered_of_furnished hs.furnished a

end MockSession

end ResearchSSH.Core
