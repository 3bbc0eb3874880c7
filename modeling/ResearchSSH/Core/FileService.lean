/-
  ResearchSSH.Core.FileService — the file results of a session, against one filesystem.

  Requests wait in the queue of the driver, they are cancelled, a disconnect drops the file
  provider and a later connect does not bring it back.  Whatever happens, the results that a
  session hands out are those of one filesystem that is asked for the requests in the order in
  which they were taken out of the queue, those left out that were cancelled or found no provider.

  Main results:
    * `logs_step`               — what a step of the driver adds to the log.
    * `file_service_sequential` — the log of every run is explained by the seeded filesystem.
    * `reads_last_write`        — a read gives what the last write before it wrote.
-/

import ResearchSSH.Core.DriverRequests
import ResearchSSH.Core.MockFrame
import ResearchSSH.Core.MockSession
import ResearchSSH.Library.SequentialObject

namespace ResearchSSH.Core

open ResearchSSH.Library

/-! ## §1. The log. -/

/-- The operation of a file request. -/
def Command.fsOp : Command → Option FsOp
  | .fs _ op => some op
  | _ => none

/-- The operations of the file requests before the first `Shutdown`, in order. -/
def fsOps (cmds : List Command) : List FsOp := (beforeShutdown cmds).filterMap Command.fsOp

/-- What a result says about an operation that was carried out.  A request that was cancelled or
found no file provider was not. -/
def FilePayload.carriedOut : FilePayload → Option FilePayload
  | .error code message =>
    if code = .cancelled ∨ code = .providerUnavailable then none else some (.error code message)
  | payload => some payload

/-- The file requests that were answered, with what became of them. -/
def Driver.fileLog (d : Driver) : List (FsOp × Option FilePayload) :=
  (fsOps d.dequeued).zipWith (fun op r => (op, r.payload.carriedOut)) d.fileSink

/-- The last command adds its operation, if it is one. -/
theorem fsOps_snoc {cmds : List Command} (h : Command.shutdown ∉ cmds) (cmd : Command) :
    fsOps (cmds ++ [cmd]) = fsOps cmds ++ cmd.fsOp.toList := by
  unfold fsOps
  rw [beforeShutdown_append h, beforeShutdown_eq h, List.filterMap_append]
  cases cmd <;> rfl

/-- An operation for each request. -/
theorem length_fsOps (cmds : List Command) : (fsOps cmds).length = (fsRequests cmds).length := by
  unfold fsOps fsRequests
  induction beforeShutdown cmds with
  | nil => rfl
  | cons cmd cmds ih =>
    cases cmd with
    | fs requestId op => exact congrArg Nat.succ ih
    | _ => exact ih

/-- Operations that have no result yet are not in the log. -/
theorem zipWith_append_left {α β γ : Type} (f : α → β → γ) {as : List α} {bs : List β}
    (h : as.length = bs.length) (more : List α) : (as ++ more).zipWith f bs = as.zipWith f bs := by
  have happend : (as ++ more).zipWith f (bs ++ []) = _ := List.zipWith_append h
  rwa [List.append_nil, List.zipWith_nil_right, List.append_nil] at happend

/-! ## §2. The driver. -/

namespace Driver

variable {d d' : Driver}

/-- The request being worked on is the last one taken out. -/
def WorksOnLast (d : Driver) : Prop :=
  ∀ requestId op, d.phase = .fsOp requestId op → (fsOps d.dequeued).getLast? = some op

/-- A driver that works on none. -/
theorem WorksOnLast.of_idle (h : d.phase.fsPending = []) : WorksOnLast d := by
  intro requestId op hphase
  rw [hphase] at h
  cases h

/-- What the step `a` makes of the log. -/
inductive Logs (a : Action) (d d' : Driver) : Prop
  | silent : (∀ answer, a ≠ .fsReturns answer) → d'.fileLog = d.fileLog → Logs a d d'
  | refused (op : FsOp) : (∀ answer, a ≠ .fsReturns answer) →
      d'.fileLog = d.fileLog ++ [(op, none)] → Logs a d d'
  | answered {requestId : UInt64} {op : FsOp} {answer : FsAnswer} {payload : FilePayload} :
      a = .fsReturns answer → d.phase = .fsOp requestId op → fsPayload op answer = some payload →
      d'.fileLog = d.fileLog ++ [(op, payload.carriedOut)] → Logs a d d'

/-- The answers, and the request being worked on, are as many as the operations. -/
theorem Accounted.length_fileSink (h : Accounted d) :
    d.fileSink.length + d.phase.fsPending.length = (fsOps d.dequeued).length := by
  rw [length_fsOps, ← h.files, List.length_append, List.length_map]

/-- Without a request being worked on, an operation more is not in the log yet. -/
theorem fileLog_snoc (h : Accounted d) (hidle : d.phase.fsPending = [])
    (hno : Command.shutdown ∉ d.dequeued) {cmd : Command} (hsink : d'.fileSink = d.fileSink)
    (hdeq : d'.dequeued = d.dequeued ++ [cmd]) : d'.fileLog = d.fileLog := by
  have hlength := h.length_fileSink
  rw [hidle, List.length_nil, Nat.add_zero] at hlength
  unfold fileLog
  rw [hsink, hdeq, fsOps_snoc hno, zipWith_append_left _ hlength.symm]

/-- The answer to the request being worked on goes to the end of the log. -/
theorem fileLog_answer (h : Accounted d) (hlast : WorksOnLast d) {requestId : UInt64} {op : FsOp}
    (hphase : d.phase = .fsOp requestId op) (payload : FilePayload) (p : Phase) :
    ((d.deliverFile ⟨requestId, payload⟩).goto p).fileLog
      = d.fileLog ++ [(op, payload.carriedOut)] := by
  have hheard : d.fileEmitter = true := h.fileHeard (by rw [hphase]; exact List.cons_ne_nil _ _)
  obtain ⟨ops, hops⟩ := List.getLast?_eq_some_iff.mp (hlast requestId op hphase)
  have hlength := h.length_fileSink
  rw [hphase, hops, List.length_append] at hlength
  have heq : ops.length = d.fileSink.length := (Nat.add_right_cancel hlength).symm
  show (fsOps d.dequeued).zipWith _ (if d.fileEmitter then _ else _) = _
  unfold fileLog
  rw [if_pos hheard, hops, List.zipWith_append heq, zipWith_append_left _ heq]
  rfl

/-- A step that takes nothing out and answers nothing. -/
theorem Logs.frame {a : Action} (ha : ∀ answer, a ≠ .fsReturns answer)
    (hledger : d'.ledger = d.ledger) : Logs a d d' := by
  simp only [ledger, Prod.mk.injEq] at hledger
  obtain ⟨hfile, -, hdeq⟩ := hledger
  refine .silent ha ?_
  unfold fileLog
  rw [hfile, hdeq]

/-- Only the phase and what was taken count. -/
theorem WorksOnLast.frame (h : WorksOnLast d) (hdeq : d'.dequeued = d.dequeued)
    (hphase : d'.phase = d.phase) : WorksOnLast d' := by
  unfold WorksOnLast
  rw [hdeq, hphase]
  exact h

/-- A command is taken out: only a file request is worked on next, and the log stays. -/
theorem logs_handle (h : Accounted d) (hphase : d.phase = .select) (cmd : Command)
    (rest : List Command) :
    WorksOnLast ((d.dequeue cmd rest).handle cmd)
      ∧ Logs .recv d ((d.dequeue cmd rest).handle cmd) := by
  -- no shutdown was taken yet, which would end what is asked
  have hno : Command.shutdown ∉ d.dequeued := h.running (by rw [hphase]; rfl)
  have hidle : d.phase.fsPending = [] := by rw [hphase]; rfl
  have hlog : ∀ e : Driver, e.fileSink = d.fileSink → e.dequeued = d.dequeued ++ [cmd] →
      Logs .recv d e := fun e hsink hdeq =>
    .silent (fun _ => nofun) (fileLog_snoc h hidle hno hsink hdeq)
  cases cmd with
  | fs requestId op =>
    -- the operation begun is the last of those taken
    have hwork : ∀ e : Driver, e.dequeued = d.dequeued ++ [.fs requestId op] →
        e.phase = .fsOp requestId op → WorksOnLast e := by
      intro e hdeq hnow requestId' op' hnow'
      rw [hnow] at hnow'
      cases hnow'
      rw [hdeq, fsOps_snoc hno]
      exact List.getLast?_concat
    simp only [handle, beginFs]
    split
    · exact ⟨hwork _ rfl rfl, hlog _ rfl rfl⟩
    · exact ⟨hwork _ rfl rfl, hlog _ rfl rfl⟩
  | connect =>
    simp only [handle, beginConnect]
    split
    · exact ⟨.of_idle hidle, hlog _ rfl rfl⟩
    · exact ⟨.of_idle rfl, hlog _ rfl rfl⟩
  | send data =>
    simp only [handle, beginSend]
    split
    · exact ⟨.of_idle hidle, hlog _ rfl rfl⟩
    · exact ⟨.of_idle rfl, hlog _ rfl rfl⟩
  | disconnect =>
    simp only [handle, beginDisconnect]
    split
    · exact ⟨.of_idle hidle, hlog _ rfl rfl⟩
    · exact ⟨.of_idle rfl, hlog _ rfl rfl⟩
  | exec requestId command timeoutMs =>
    simp only [handle, beginExec]
    split
    · exact ⟨.of_idle hidle, hlog _ rfl rfl⟩
    · exact ⟨.of_idle rfl, hlog _ rfl rfl⟩
  | setSecret secret => exact ⟨.of_idle hidle, hlog _ rfl rfl⟩
  | setPrivateKey keyPath passphrase => exact ⟨.of_idle hidle, hlog _ rfl rfl⟩
  | shutdown =>
    simp only [handle, beginShutdown]
    split
    · exact ⟨.of_idle rfl, hlog _ rfl rfl⟩
    · exact ⟨.of_idle rfl, hlog _ rfl rfl⟩

/-- Receiving an operation begins its entry in the log. -/
theorem logs_recv (h : Accounted d) (hphase : d.phase = .select) :
    WorksOnLast d.recv ∧ Logs .recv d d.recv := by
  unfold recv
  split
  · split
    · unfold beginShutdown
      split
      · exact ⟨.of_idle rfl, .frame (fun _ => nofun) rfl⟩
      · exact ⟨.of_idle rfl, .frame (fun _ => nofun) rfl⟩
    · exact ⟨.of_idle rfl, .frame (fun _ => nofun) rfl⟩
  · next cmd rest _ => exact logs_handle h hphase cmd rest

/-- **What a step of the driver adds to the log**: the answer to the request being worked on, that
it was not carried out, or nothing. -/
theorem logs_step (h : Accounted d) (hlast : WorksOnLast d) {a : Action}
    (hstep : d.step a = some d') : WorksOnLast d' ∧ Logs a d d' := by
  -- an operation that is answered without having been carried out
  have hrefused : ∀ {requestId op} {b : Action} (payload : FilePayload),
      d.phase = .fsOp requestId op → (∀ answer, b ≠ .fsReturns answer) →
      payload.carriedOut = none →
      WorksOnLast ((d.deliverFile ⟨requestId, payload⟩).goto .select)
        ∧ Logs b d ((d.deliverFile ⟨requestId, payload⟩).goto .select) := by
    intro requestId op b payload hphase hb hnone
    refine ⟨.of_idle rfl, .refused op hb ?_⟩
    rw [fileLog_answer h hlast hphase, hnone]
  cases takes_of_step hstep with
  | created hphase => exact ⟨.of_idle rfl, .frame (fun _ => nofun) rfl⟩
  | notCreated hphase e => exact ⟨.of_idle rfl, .frame (fun _ => nofun) rfl⟩
  | submit cmd hopen => exact ⟨hlast.frame rfl rfl, .frame (fun _ => nofun) rfl⟩
  | close => exact ⟨hlast.frame rfl rfl, .frame (fun _ => nofun) rfl⟩
  | setFileEmitter => exact ⟨hlast.frame rfl rfl, .frame (fun _ => nofun) rfl⟩
  | setTaskEmitter => exact ⟨hlast.frame rfl rfl, .frame (fun _ => nofun) rfl⟩
  | notified hphase => exact ⟨hlast.frame rfl rfl, .frame (fun _ => nofun) rfl⟩
  | unheard hphase => exact ⟨hlast, .frame (fun _ => nofun) rfl⟩
  | sinkEmit attempt ev hpos hstarted => exact ⟨hlast.frame rfl rfl, .frame (fun _ => nofun) rfl⟩
  | gatePrompt fingerprint hphase hprovider =>
    exact ⟨hlast.frame rfl rfl, .frame (fun _ => nofun) rfl⟩
  | recv hphase => exact logs_recv h hphase
  | drain hphase =>
    rw [drain_eq]
    exact ⟨.of_idle rfl, .frame (fun _ => nofun) rfl⟩
  | connectReturns result opened hphase =>
    cases result <;> exact ⟨.of_idle rfl, .frame (fun _ => nofun) rfl⟩
  | sendReturns result hphase =>
    cases result <;> exact ⟨.of_idle rfl, .frame (fun _ => nofun) rfl⟩
  | fsReturns answer hphase hprovider hpayload =>
    exact ⟨.of_idle rfl, .answered rfl hphase hpayload (fileLog_answer h hlast hphase _ _)⟩
  | fsUnavailable hphase hprovider =>
    exact hrefused _ hphase (fun _ => nofun) rfl
  | execReturns result hphase =>
    have hidle : ∀ p : Phase, p = .select → p.fsPending = [] := by
      intro p hp
      rw [hp]
      rfl
    cases result <;>
      exact ⟨.of_idle (hidle _ rfl), .silent (fun _ => nofun) rfl⟩
  | disconnectReturns hphase =>
    unfold finishDisconnect
    split
    · exact ⟨.of_idle rfl, .frame (fun _ => nofun) rfl⟩
    · exact ⟨.of_idle rfl, .frame (fun _ => nofun) rfl⟩
    · exact ⟨.of_idle rfl, .frame (fun _ => nofun) rfl⟩
    · exact ⟨hlast, .frame (fun _ => nofun) rfl⟩
  | interrupted hphase hnotified =>
    unfold interrupt
    split
    · exact ⟨.of_idle rfl, .frame (fun _ => nofun) rfl⟩
    · exact ⟨.of_idle rfl, .frame (fun _ => nofun) rfl⟩
    · next hfs => exact hrefused _ hfs (fun _ => nofun) rfl
    · exact ⟨.of_idle rfl, .silent (fun _ => nofun) rfl⟩
    · exact ⟨hlast, .frame (fun _ => nofun) rfl⟩

end Driver

/-! ## §3. One filesystem. -/

namespace MockFs

/-- The payload of an operation that is carried out. -/
def result (fs : MockFs) (op : FsOp) : FilePayload :=
  (fsPayload op (fs.perform op).1).getD .ok

/-- The filesystem as an object that takes one operation after another. -/
def fileObject (fs : MockFs) (op : FsOp) : FilePayload × MockFs := (fs.result op, (fs.perform op).2)

variable (fs : MockFs)

/-- The answer of a method fits the operation behind which it is called. -/
theorem fsPayload_perform (op : FsOp) : fsPayload op (fs.perform op).1 = some (fs.result op) := by
  have hdone : ∀ (op : FsOp) (r : CoreResult Unit), fsPayload op .done = some .ok →
      (fsPayload op (done r)).isSome = true := by
    intro op r hop
    cases r with
    | ok _ => rw [show done (.ok ()) = .done from rfl, hop]; rfl
    | error e => rfl
  have hfits : (fsPayload op (fs.perform op).1).isSome = true := by
    cases op with
    | list path => simp only [perform]; split <;> rfl
    | stat path => simp only [perform]; split <;> rfl
    | read path maxLen => simp only [perform]; split <;> rfl
    | write path data => rfl
    | mkdir path => rfl
    | rename src dst => exact hdone (.rename src dst) _ rfl
    | remove path recursive => exact hdone (.remove path recursive) _ rfl
    | copy src dst => exact hdone (.copy src dst) _ rfl
  obtain ⟨payload, hpayload⟩ := Option.isSome_iff_exists.mp hfits
  unfold result
  rw [hpayload]
  rfl

/-- No error of the filesystem looks like a request that was not carried out. -/
theorem carriedOut_result (op : FsOp) : (fs.result op).carriedOut = some (fs.result op) := by
  have hfits := fs.fsPayload_perform op
  cases hanswer : (fs.perform op).1 with
  | failed e =>
    rw [hanswer] at hfits
    have hresult : fs.result op = .error e.code e.message := by
      cases op <;> exact (Option.some.inj hfits).symm
    have hcode := fs.perform_failed op hanswer
    rw [hresult]
    refine if_neg ?_
    rintro (hcancelled | hunavailable)
    · rw [hcancelled] at hcode
      exact hcode.elim nofun nofun
    · rw [hunavailable] at hcode
      exact hcode.elim nofun nofun
  | entries es =>
    rw [hanswer] at hfits
    have hresult : fs.result op = .listing es := by
      cases op with
      | list path => exact (Option.some.inj hfits).symm
      | _ => cases hfits
    rw [hresult]
    rfl
  | entry e =>
    rw [hanswer] at hfits
    have hresult : fs.result op = .listing [e] := by
      cases op with
      | stat path => exact (Option.some.inj hfits).symm
      | _ => cases hfits
    rw [hresult]
    rfl
  | bytes bs =>
    rw [hanswer] at hfits
    have hresult : fs.result op = .content bs := by
      cases op with
      | read path maxLen => exact (Option.some.inj hfits).symm
      | _ => cases hfits
    rw [hresult]
    rfl
  | done =>
    rw [hanswer] at hfits
    have hresult : fs.result op = .ok := by
      cases op with
      | list path => cases hfits
      | stat path => cases hfits
      | read path maxLen => cases hfits
      | _ => exact (Option.some.inj hfits).symm
    rw [hresult]
    rfl

end MockFs

/-! ## §4. The session. -/

namespace MockSession

variable {s s' : MockSession}

/-- When a request is taken out of the queue, both emitters are registered. -/
def RegisteredInTime (s : MockSession) : MockAction → Prop
  | .own a => s.driver.RegisteredInTime a
  | _ => True

instance (s : MockSession) : (a : MockAction) → Decidable (s.RegisteredInTime a)
  | .own a => inferInstanceAs (Decidable (s.driver.RegisteredInTime a))
  | .connectReturns | .sendReturns _ | .fsReturns | .execReturns _ | .disconnectReturns =>
    inferInstanceAs (Decidable True)

/-- Whoever holds the filesystem now, it is the one that the log leaves. -/
structure Served (s : MockSession) : Prop where
  accounted : s.driver.Accounted
  last : s.driver.WorksOnLast
  /-- The filesystem is in one place. -/
  once : s.provider.fileProvider.isSome = true → s.files = none
  explained : ∃ fs, Explains MockFs.fileObject .seeded s.driver.fileLog fs
    ∧ (∀ held, s.files = some held → held = fs)
    ∧ ∀ held, s.provider.fileProvider = some held → held = fs

/-- The session was just created. -/
theorem Served.initial (config : ConnectionConfig) : Served (initial config) where
  accounted := .initial
  last := .of_idle rfl
  once := fun _ => rfl
  explained := ⟨.seeded, .nil _, nofun, fun _ h => (Option.some.inj h).symm⟩

/-- A step that asks nothing of the filesystem: it may be dropped, or handed over. -/
theorem Served.silent (h : Served s) {a : Action} {d : Driver} (hacc : s'.driver.Accounted)
    (hdriver : s'.driver = d) (hlogs : d.WorksOnLast ∧ Driver.Logs a s.driver d)
    (ha : ∀ answer, a ≠ .fsReturns answer)
    (hfiles : ∀ held, s'.files = some held → s.files = some held
      ∨ s.provider.fileProvider = some held)
    (hprovider : ∀ held, s'.provider.fileProvider = some held →
      s.provider.fileProvider = some held)
    (honce : s'.provider.fileProvider.isSome = true → s'.files = none) : Served s' := by
  subst hdriver
  obtain ⟨hlast, hlog⟩ := hlogs
  obtain ⟨fs, hexplained, hheld, hkept⟩ := h.explained
  refine ⟨hacc, hlast, honce, fs, ?_, ?_, fun held hsome => hkept held (hprovider held hsome)⟩
  · cases hlog with
    | silent _ heq =>
      rw [heq]
      exact hexplained
    | refused op _ heq =>
      rw [heq]
      exact explains_concat hexplained rfl
    | answered hanswer _ _ _ => exact absurd hanswer (ha _)
  · intro held hsome
    exact (hfiles held hsome).elim (hheld held) (hkept held)

theorem next_files {d : Driver} {held : MockFs} (h : (s.next d).files = some held) :
    s.files = some held := by
  change (if d.fileProvider.isSome then s.files else none) = some held at h
  split at h
  · exact h
  · cases h

theorem next_files_none {d : Driver} (h : s.files = none) : (s.next d).files = none := by
  show (if d.fileProvider.isSome then s.files else none) = none
  rw [h, ite_self]

/-- What is emitted on the way is not in the log. -/
theorem Served.withEvents (h : Served s) (events : List (Nat × ProviderEvent)) {a : Action}
    {d : Driver} (hstep : (withEvents s.driver events).step a = some d)
    (hreg : (withEvents s.driver events).RegisteredInTime a) :
    d.Accounted ∧ d.WorksOnLast ∧ Driver.Logs a s.driver d := by
  have hacc : (MockSession.withEvents s.driver events).Accounted :=
    h.accounted.frame rfl rfl rfl id id id
  have hlast : (MockSession.withEvents s.driver events).WorksOnLast := h.last.frame rfl rfl
  obtain ⟨hlast', hlogs⟩ := Driver.logs_step hacc hlast hstep
  refine ⟨hacc.step hreg hstep, hlast', ?_⟩
  cases hlogs with
  | silent hne heq => exact .silent hne heq
  | refused op hne heq => exact .refused op hne heq
  | answered hanswer hphase hpayload heq => exact .answered hanswer hphase hpayload heq

/-- One step of the driver. -/
theorem Served.one (h : Served s) {a : Action} {d : Driver} (hstep : s.driver.step a = some d)
    (hreg : s.driver.RegisteredInTime a) :
    d.Accounted ∧ d.WorksOnLast ∧ Driver.Logs a s.driver d := by
  refine h.withEvents [] (step_unemitted hstep) ?_
  unfold MockSession.withEvents
  rwa [List.append_nil]

/-- **Every step keeps the log explained.** -/
theorem Served.step (h : Served s) {a : MockAction} (hreg : s.RegisteredInTime a)
    (hstep : s.step a = some s') : Served s' := by
  have hsame : ∀ {d : Driver} {held : MockFs}, (s.next d).files = some held →
      s.files = some held ∨ s.provider.fileProvider = some held := fun hsome => .inl (next_files hsome)
  have honce : ∀ {d : Driver}, s.provider.fileProvider.isSome = true → (s.next d).files = none :=
    fun hsome => next_files_none (h.once hsome)
  cases takes_of_step hstep with
  | @own b d hown hd =>
    obtain ⟨hacc, hlogs⟩ := h.one hd hreg
    refine h.silent hacc rfl hlogs ?_ (fun _ => hsame) (fun _ => id) honce
    rintro answer rfl
    cases hown
  -- the file provider is handed over here, and it is the first one or none
  | connected haccepts hd =>
    obtain ⟨hacc, hlogs⟩ := h.withEvents _ hd trivial
    refine h.silent hacc rfl hlogs (fun _ => nofun) ?_ (fun _ => nofun) nofun
    intro held hsome
    dsimp only at hsome
    split at hsome
    · exact .inr hsome
    · cases hsome
  | refused hrefuses hd =>
    obtain ⟨hacc, hlogs⟩ := h.one hd trivial
    exact h.silent hacc rfl hlogs (fun _ => nofun) (fun _ => hsame) (fun _ => id) honce
  | sendReturns written hd =>
    obtain ⟨hacc, hlogs⟩ := h.withEvents _ hd trivial
    exact h.silent hacc rfl hlogs (fun _ => nofun) (fun _ => hsame) (fun _ => id) honce
  | execReturns output hd =>
    obtain ⟨hacc, hlogs⟩ := h.one hd trivial
    exact h.silent hacc rfl hlogs (fun _ => nofun) (fun _ => hsame) (fun _ => id) honce
  | disconnectReturns hd =>
    obtain ⟨hacc, hlogs⟩ := h.one hd trivial
    exact h.silent hacc rfl hlogs (fun _ => nofun) (fun _ => hsame) (fun _ => id) honce
  -- the one step that moves the file system: its entry explains the move
  | @fsReturns requestId op fs d hphase hfiles hd =>
    obtain ⟨hacc, hlast, hlog⟩ := h.one hd trivial
    obtain ⟨fs', hexplained, hheld, -⟩ := h.explained
    obtain rfl := hheld fs hfiles
    -- what the driver holds, the provider has given away
    have hgone : s.provider.fileProvider = none := by
      refine Option.not_isSome_iff_eq_none.mp fun hsome => ?_
      rw [h.once hsome] at hfiles
      cases hfiles
    refine ⟨hacc, hlast, fun hsome => ?_, (fs.perform op).2, ?_, ?_, ?_⟩
    · change s.provider.fileProvider.isSome = true at hsome
      rw [hgone] at hsome
      cases hsome
    · cases hlog with
      | silent hne _ => exact absurd rfl (hne _)
      | refused _ hne _ => exact absurd rfl (hne _)
      | answered hanswer hphase' hpayload heq =>
        obtain rfl := Action.fsReturns.inj hanswer
        obtain ⟨-, rfl⟩ := Phase.fsOp.inj (hphase.symm.trans hphase')
        rw [fs.fsPayload_perform, Option.some.injEq] at hpayload
        show Explains _ _ d.fileLog _
        rw [heq, ← hpayload, fs.carriedOut_result]
        exact explains_concat hexplained (carry_some.mpr ⟨rfl, rfl⟩)
    · intro held hsome
      exact (Option.some.inj (next_files hsome)).symm
    · intro held hsome
      exact absurd (hgone.symm.trans hsome) nofun

/-- Every reachable session is served. -/
theorem served_run {config : ConnectionConfig} {acts : List MockAction}
    {s : MockSession} (hreg : Along MockSession.step RegisteredInTime (initial config) acts)
    (hrun : exec MockSession.step (initial config) acts = some s) : Served s :=
  exec_invariant_along (fun _ _ _ h hr hs => h.step hr hs) (Served.initial config) hreg hrun

/-- **The file service is sequential.**  In every run in which the emitters were registered in time,
the results that were handed out are, one for each request that was answered and in the order in
which the requests were taken out of the queue, those of one filesystem that began as it was seeded
and was asked for nothing but what was carried out; and the filesystem that the session holds, if it
holds one, is what this leaves. -/
theorem file_service_sequential (config : ConnectionConfig) (acts : List MockAction)
    (s : MockSession) (hreg : Along MockSession.step RegisteredInTime (initial config) acts)
    (hrun : exec MockSession.step (initial config) acts = some s) :
    s.driver.fileLog.length = s.driver.fileSink.length ∧
      ∃ fs, Explains MockFs.fileObject .seeded s.driver.fileLog fs ∧
        ∀ held, s.files = some held → held = fs := by
  have h : Served s := served_run hreg hrun
  obtain ⟨fs, hexplained, hheld, -⟩ := h.explained
  refine ⟨?_, fs, hexplained, hheld⟩
  have hlength := h.accounted.length_fileSink
  unfold Driver.fileLog
  rw [List.length_zipWith]
  omega

/-- A connection, a file that is written, a directory made while another request is cancelled, and
the file that is read; then the connection is closed, and nothing is served any more. -/
def serviceRun : List MockAction :=
  [.own (.createProvider (.ok ())), .own .setFileEmitter, .own .setTaskEmitter,
    .own (.submit .connect), .own (.submit (.fs 1 (.write ['a'] [104, 105]))),
    .own (.submit (.fs 2 (.mkdir ['d']))), .own (.submit (.fs 3 (.remove ['a'] false))),
    .own (.submit (.fs 4 (.read ['a'] 1))), .own (.submit .disconnect),
    .own (.submit (.fs 5 (.read ['a'] 0))),
    .own .recv, .connectReturns, .own .recv, .fsReturns, .own .recv, .fsReturns,
    .own .recv, .own .cancel, .own .interrupted, .own .recv, .fsReturns,
    .own .recv, .disconnectReturns, .own .recv, .own .fsUnavailable]

theorem serviceRun_log : (exec MockSession.step (initial exampleHost) serviceRun).map
    (fun s => s.driver.fileLog) =
      some [(.write ['a'] [104, 105], some .ok), (.mkdir ['d'], some .ok),
        (.remove ['a'] false, none), (.read ['a'] 1, some (.content [104])),
        (.read ['a'] 0, none)] := rfl

theorem serviceRun_registered :
    Along MockSession.step RegisteredInTime (initial exampleHost) serviceRun := by
  decide +kernel

theorem file_service_sequential_run :
    ∃ s, exec MockSession.step (initial exampleHost) serviceRun = some s ∧
      s.driver.fileSink.length = 5 ∧
        ∃ fs, Explains MockFs.fileObject .seeded s.driver.fileLog fs := by
  have hview := serviceRun_log
  obtain ⟨s, hrun, hlog⟩ := Option.map_eq_some_iff.mp hview
  have h := file_service_sequential exampleHost serviceRun s serviceRun_registered hrun
  obtain ⟨hlength, fs, hexplained, -⟩ := h
  rw [hlog] at hlength
  exact ⟨s, hrun, hlength.symm, fs, hexplained⟩

end MockSession

/-! ## §5. Reading what was written. -/

/-- The paths at which a call can change something. -/
def FsOp.writes : FsOp → List Text
  | .list _ | .stat _ | .read _ _ => []
  | .write path _ => [path]
  | .rename src dst => [src, dst]
  | .remove path _ => [path]
  | .mkdir path => [path]
  | .copy _ dst => [dst]

namespace MockFs

/-- What a call does not write to, or to something above it, is as it was. -/
theorem unchanged_of_writes (fs : MockFs) {p : Text} (op : FsOp)
    (h : ∀ arg ∈ op.writes, ¬ AtOrBelow arg p) : fs.Unchanged (fs.perform op).2 p := by
  cases op with
  | list path => exact .refl fs p
  | stat path => exact .refl fs p
  | read path maxLen => exact .refl fs p
  | copy src dst => exact unchanged_copy (h dst List.mem_cons_self)
  | write path data => exact fs.unchanged_perform (.write path data) h
  | rename src dst => exact fs.unchanged_perform (.rename src dst) h
  | remove path recursive => exact fs.unchanged_perform (.remove path recursive) h
  | mkdir path => exact fs.unchanged_perform (.mkdir path) h

/-- What a read of these contents gives: at most as much as was asked for, 0 for all of it. -/
def cut (maxLen : UInt64) (data : List UInt8) : List UInt8 :=
  if 0 < maxLen ∧ maxLen.toNat < data.length then data.take maxLen.toNat else data

/-- A read of a file that is there. -/
theorem result_read {fs : MockFs} {path : Text} {data : List UInt8}
    (h : fs.files.lookup path = some data) (maxLen : UInt64) :
    fs.result (.read path maxLen) = .content (cut maxLen data) := by
  have hread : fs.readFile path maxLen = .ok (cut maxLen data) := by
    unfold readFile
    rw [h]
    rfl
  unfold result perform
  simp only [hread]
  rfl

end MockFs

/-- The call leaves the file at the path alone. -/
def FsOp.Spares (path : Text) (op : FsOp) : Prop := ∀ arg ∈ op.writes, ¬ AtOrBelow arg path

instance (path : Text) (op : FsOp) : Decidable (op.Spares path) :=
  List.decidableBAll _ op.writes

/-- What the filesystem has at the path is what was last written there. -/
theorem MockSession.Served.reads_back {s : MockSession} (h : Served s)
    {pre mid post : List (FsOp × Option FilePayload)} {path : Text} {data : List UInt8}
    {maxLen : UInt64} {payload : FilePayload}
    (hlog : s.driver.fileLog =
      pre ++ (.write path data, some .ok) :: (mid ++ (.read path maxLen, some payload) :: post))
    (hmid : ∀ entry ∈ mid, entry.2.isSome = true → entry.1.Spares path) :
    payload = .content (MockFs.cut maxLen data) := by
  obtain ⟨fs, hexplained, -⟩ := h.explained
  rw [hlog] at hexplained
  have hspared : ∀ entry ∈ mid, entry.2.isSome = true → ∀ fs : MockFs,
      (MockFs.fileObject fs entry.1).2.files.lookup path = fs.files.lookup path :=
    fun entry hentry hcarried fs => (fs.unchanged_of_writes entry.1 (hmid entry hentry hcarried)).2
  obtain ⟨m, n, -, hview, hread⟩ := hexplained.read_back (fun fs : MockFs => fs.files.lookup path) hspared
  have hwritten : n.files.lookup path = some data := hview.trans (m.lookup_writeFile_self path data)
  rw [← MockFs.result_read hwritten]
  exact hread.symm

/-- **A read gives what the last write before it wrote**, however many requests were carried out in
between that write to another place, however many to the same place were cancelled or found no file
provider, and whatever else the session went through. -/
theorem MockSession.reads_last_write (config : ConnectionConfig) (acts : List MockAction)
    (s : MockSession) (hreg : Along MockSession.step RegisteredInTime (initial config) acts)
    (hrun : exec MockSession.step (initial config) acts = some s)
    {pre mid post : List (FsOp × Option FilePayload)} {path : Text} {data : List UInt8}
    {maxLen : UInt64} {payload : FilePayload}
    (hlog : s.driver.fileLog =
      pre ++ (.write path data, some .ok) :: (mid ++ (.read path maxLen, some payload) :: post))
    (hmid : ∀ entry ∈ mid, entry.2.isSome = true → entry.1.Spares path) :
    payload = .content (MockFs.cut maxLen data) := (served_run hreg hrun).reads_back hlog hmid

theorem MockSession.reads_last_write_run :
    MockFs.cut 1 [104, 105] = [104] ∧
      ∃ s, exec MockSession.step (initial exampleHost) serviceRun = some s ∧
        FilePayload.content [104] = .content (MockFs.cut 1 [104, 105]) := by
  obtain ⟨s, hrun, hlog⟩ := Option.map_eq_some_iff.mp serviceRun_log
  refine ⟨by decide, s, hrun, ?_⟩
  have hmid : ∀ entry ∈ [(FsOp.mkdir ['d'], some FilePayload.ok), (.remove ['a'] false, none)],
      entry.2.isSome = true → entry.1.Spares ['a'] := by decide
  have hlog' : s.driver.fileLog = [] ++ (.write ['a'] [104, 105], some .ok)
      :: ([(.mkdir ['d'], some .ok), (.remove ['a'] false, none)]
        ++ (.read ['a'] 1, some (.content [104])) :: [(.read ['a'] 0, none)]) := hlog
  exact reads_last_write exampleHost serviceRun s serviceRun_registered hrun hlog' hmid

end ResearchSSH.Core
