/-
  ResearchSSH.App.BridgeCalls — the bridge's calls of the core.

  A string is handed over as its UTF-8 bytes with a NUL behind them, and bytes with their number.
  What the session is asked for is what the caller meant: with each text up to its first NUL, and a
  `?` for each surrogate that stands alone.

  Main results:
    * `Request.call_eq`      — one call.
    * `requests_cross`       — any sequence of calls, and what becomes of a text on the way.
    * `Request.call_controller` — the controller's requests are such calls.
-/

import ResearchSSH.App.ControllerTasks
import ResearchSSH.App.RustCoreBridge
import ResearchSSH.App.Utf8
import ResearchSSH.Core.FfiRequests
import ResearchSSH.Library.Transition

namespace ResearchSSH.App

open ResearchSSH.Core ResearchSSH.Library

/-! ## §1. The calls. -/

namespace RustCoreBridge

/-- `QByteArray::constData`; behind the bytes stands a NUL. -/
def constData (bytes : List UInt8) : Ptr UInt8 := some (bytes ++ [0])

variable (session : Option SessionHandle)

/-- `connectSession`. -/
def connectSession : Option (RsErrorCode × Option SessionHandle) := rscoreSessionConnect session

/-- `disconnectSession`. -/
def disconnectSession : Option (RsErrorCode × Option SessionHandle) :=
  rscoreSessionDisconnect session

/-- `sendToSession`. -/
def sendToSession (data : List UInt8) : Option (RsErrorCode × Option SessionHandle) :=
  rscoreSessionSend session (constData data) data.length

/-- `setSessionPassword`. -/
def setSessionPassword (secret : List UInt8) : Option (RsErrorCode × Option SessionHandle) :=
  rscoreSessionSetPassword session (constData secret) secret.length

/-- `setSessionPrivateKey`. -/
def setSessionPrivateKey (keyPath : QString) (passphrase : List UInt8) :
    Option (RsErrorCode × Option SessionHandle) :=
  rscoreSessionSetPrivateKey session (constData (toUtf8 keyPath)) (constData passphrase)
    passphrase.length

/-- `fsList`. -/
def fsList (path : QString) : Option (UInt64 × Option SessionHandle) :=
  rscoreSessionFsList session (constData (toUtf8 path))

/-- `fsRead`. -/
def fsRead (path : QString) (maxLen : UInt64) : Option (UInt64 × Option SessionHandle) :=
  rscoreSessionFsRead session (constData (toUtf8 path)) maxLen

/-- `fsWrite`. -/
def fsWrite (path : QString) (data : List UInt8) : Option (UInt64 × Option SessionHandle) :=
  rscoreSessionFsWrite session (constData (toUtf8 path)) (constData data) data.length

/-- `fsRename`. -/
def fsRename (src dst : QString) : Option (UInt64 × Option SessionHandle) :=
  rscoreSessionFsRename session (constData (toUtf8 src)) (constData (toUtf8 dst))

/-- `fsRemove`. -/
def fsRemove (path : QString) (recursive : Bool) : Option (UInt64 × Option SessionHandle) :=
  rscoreSessionFsRemove session (constData (toUtf8 path)) recursive

/-- `fsMkdir`. -/
def fsMkdir (path : QString) : Option (UInt64 × Option SessionHandle) :=
  rscoreSessionFsMkdir session (constData (toUtf8 path))

/-- `fsCopy`. -/
def fsCopy (src dst : QString) : Option (UInt64 × Option SessionHandle) :=
  rscoreSessionFsCopy session (constData (toUtf8 src)) (constData (toUtf8 dst))

/-- `exec`. -/
def exec (command : QString) (timeoutMs : UInt64) : Option (UInt64 × Option SessionHandle) :=
  rscoreSessionExec session (constData (toUtf8 command)) timeoutMs

end RustCoreBridge

/-! ## §2. What is meant. -/

/-- A call of the bridge that asks a session for something. -/
inductive Request
  | connect
  | disconnect
  | send (data : List UInt8)
  | setPassword (secret : List UInt8)
  | setPrivateKey (keyPath : QString) (passphrase : List UInt8)
  | fsList (path : QString)
  | fsRead (path : QString) (maxLen : UInt64)
  | fsWrite (path : QString) (data : List UInt8)
  | fsRename (src dst : QString)
  | fsRemove (path : QString) (recursive : Bool)
  | fsMkdir (path : QString)
  | fsCopy (src dst : QString)
  | exec (command : QString) (timeoutMs : UInt64)
  deriving DecidableEq, Repr

/-- What a call returns. -/
inductive Returned
  | code (code : RsErrorCode)
  | id (requestId : UInt64)
  deriving DecidableEq, Repr

/-- The command a request stands for: one without a result, or one whose result comes under an id. -/
inductive Meaning
  | plain (command : Command)
  | numbered (command : UInt64 → Command)

namespace Request

/-- The call, down to the session. -/
def call (session : Option SessionHandle) : Request → Option (Returned × Option SessionHandle)
  | .connect => (RustCoreBridge.connectSession session).map fun r => (.code r.1, r.2)
  | .disconnect => (RustCoreBridge.disconnectSession session).map fun r => (.code r.1, r.2)
  | .send data => (RustCoreBridge.sendToSession session data).map fun r => (.code r.1, r.2)
  | .setPassword secret => (RustCoreBridge.setSessionPassword session secret).map fun r => (.code r.1, r.2)
  | .setPrivateKey keyPath passphrase =>
    (RustCoreBridge.setSessionPrivateKey session keyPath passphrase).map fun r => (.code r.1, r.2)
  | .fsList path => (RustCoreBridge.fsList session path).map fun r => (.id r.1, r.2)
  | .fsRead path maxLen => (RustCoreBridge.fsRead session path maxLen).map fun r => (.id r.1, r.2)
  | .fsWrite path data => (RustCoreBridge.fsWrite session path data).map fun r => (.id r.1, r.2)
  | .fsRename src dst => (RustCoreBridge.fsRename session src dst).map fun r => (.id r.1, r.2)
  | .fsRemove path recursive =>
    (RustCoreBridge.fsRemove session path recursive).map fun r => (.id r.1, r.2)
  | .fsMkdir path => (RustCoreBridge.fsMkdir session path).map fun r => (.id r.1, r.2)
  | .fsCopy src dst => (RustCoreBridge.fsCopy session src dst).map fun r => (.id r.1, r.2)
  | .exec command timeoutMs =>
    (RustCoreBridge.exec session command timeoutMs).map fun r => (.id r.1, r.2)

/-- What the caller means, with the texts as the core reads them. -/
def meaning : Request → Meaning
  | .connect => .plain .connect
  | .disconnect => .plain .disconnect
  | .send data => .plain (.send data)
  | .setPassword secret => .plain (.setSecret secret)
  | .setPrivateKey keyPath passphrase =>
    .plain (.setPrivateKey
      (if toCore keyPath = [] then none else some (String.ofList (toCore keyPath)))
      (if passphrase = [] then none else some passphrase))
  | .fsList path => .numbered fun id => .fs id (.list (toCore path))
  | .fsRead path maxLen => .numbered fun id => .fs id (.read (toCore path) maxLen)
  | .fsWrite path data => .numbered fun id => .fs id (.write (toCore path) data)
  | .fsRename src dst => .numbered fun id => .fs id (.rename (toCore src) (toCore dst))
  | .fsRemove path recursive => .numbered fun id => .fs id (.remove (toCore path) recursive)
  | .fsMkdir path => .numbered fun id => .fs id (.mkdir (toCore path))
  | .fsCopy src dst => .numbered fun id => .fs id (.copy (toCore src) (toCore dst))
  | .exec command timeoutMs =>
    .numbered fun id => .exec id (String.ofList (toCore command)) timeoutMs

end Request

/-- What a session makes of it: a refusal where there is none or its driver has stopped; else the
command is queued. -/
def Meaning.ask (session : Option SessionHandle) : Meaning → Returned × Option SessionHandle
  | .plain command =>
    match session with
    | none => (.code .nullArgument, none)
    | some s =>
      if s.stopped then (.code .runtimeError, some s)
      else (.code .ok, some { s with sent := s.sent ++ [command] })
  | .numbered command =>
    match session with
    | none => (.id 0, none)
    | some s =>
      let id := s.nextRequestId + 1
      if s.stopped then (.id 0, some { s with nextRequestId := id })
      else (.id id, some { s with nextRequestId := id, sent := s.sent ++ [command id] })

/-! ## §3. One call. -/

open RustCoreBridge

/-- The C side reads the text that was written. -/
theorem cstrToString_toUtf8 (s : QString) :
    cstrToString (constData (toUtf8 s)) = some (.ok (toCore s)) := cstrToString_utf8 (toUnicode s)

/-- The C side reads the bytes that were given. -/
theorem bytesToVec_constData (bytes : List UInt8) :
    bytesToVec (constData bytes) bytes.length = some (.ok bytes) := bytesToVec_self bytes [0]

section Ways

variable (session : Option SessionHandle)

/-- A plain call asks the session what it means to ask. -/
theorem withSession_sendCmd (command : Command) :
    ((fun r : RsErrorCode × Option SessionHandle => (Returned.code r.1, r.2))
        (withSession session (·.sendCmd command)))
      = (Meaning.plain command).ask session := by
  cases session with
  | none => rfl
  | some s =>
    unfold withSession SessionHandle.sendCmd SessionHandle.sendToDriver Meaning.ask
    dsimp only
    cases hstopped : s.stopped <;> rfl

/-- A numbered call asks the session what it means to ask. -/
theorem fsWithSession_submit (command : UInt64 → Command) :
    ((fun r : UInt64 × Option SessionHandle => (Returned.id r.1, r.2))
        (fsWithSession session (·.submit command)))
      = (Meaning.numbered command).ask session := by
  cases session with
  | none => rfl
  | some s =>
    unfold fsWithSession SessionHandle.submit SessionHandle.nextId SessionHandle.sendToDriver
      Meaning.ask
    dsimp only
    cases hstopped : s.stopped <;> rfl

/-- A function whose argument is a text goes on with what is read of it. -/
theorem orZero_toUtf8 (path : QString) (next : Text → Option (UInt64 × Option SessionHandle)) :
    orZero session (cstrToString (constData (toUtf8 path))) next = next (toCore path) := by
  unfold orZero
  rw [cstrToString_toUtf8]
  rfl

/-- A buffer with its own length is never refused. -/
theorem orZero_constData (bytes : List UInt8)
    (next : List UInt8 → Option (UInt64 × Option SessionHandle)) :
    orZero session (bytesToVec (constData bytes) bytes.length) next = next bytes := by
  unfold orZero
  rw [bytesToVec_constData]
  rfl

/-- A buffer with its own length is never refused. -/
theorem orCode_constData (bytes : List UInt8)
    (next : List UInt8 → Option (RsErrorCode × Option SessionHandle)) :
    orCode session (bytesToVec (constData bytes) bytes.length) next = next bytes := by
  unfold orCode
  rw [bytesToVec_constData]
  rfl

/-- The empty key path is no key path. -/
theorem readKeyPath_toUtf8 (keyPath : QString) :
    readKeyPath (constData (toUtf8 keyPath))
      = some (.ok (if toCore keyPath = [] then none else some (toCore keyPath))) := by
  show (cstrToString (constData (toUtf8 keyPath))).map _ = _
  rw [cstrToString_toUtf8]
  rfl

/-- The empty passphrase is no passphrase. -/
theorem readPassphrase_constData (passphrase : List UInt8) :
    readPassphrase (constData passphrase) passphrase.length
      = some (.ok (if passphrase = [] then none else some passphrase)) := by
  unfold readPassphrase
  by_cases hempty : passphrase = []
  · rw [if_pos (by rw [hempty]; rfl), if_pos hempty]
  · rw [if_neg (by simpa using hempty), if_neg hempty, bytesToVec_constData]
    rfl

end Ways

/-- **One call** asks the session for what is meant, reads nothing behind a buffer, and is refused for
no argument. -/
theorem Request.call_eq (r : Request) (session : Option SessionHandle) :
    r.call session = some (r.meaning.ask session) := by
  cases r with
  | connect => exact congrArg some (withSession_sendCmd session _)
  | disconnect => exact congrArg some (withSession_sendCmd session _)
  | send data =>
    show (orCode session (bytesToVec (constData data) data.length) _).map _ = _
    rw [orCode_constData]
    exact congrArg some (withSession_sendCmd session _)
  | setPassword secret =>
    show (orCode session (bytesToVec (constData secret) secret.length) _).map _ = _
    rw [orCode_constData]
    exact congrArg some (withSession_sendCmd session _)
  | setPrivateKey keyPath passphrase =>
    show (rscoreSessionSetPrivateKey session _ _ _).map _ = _
    -- the one call with an optional argument: an empty passphrase is a null pointer
    unfold rscoreSessionSetPrivateKey orCode
    rw [readKeyPath_toUtf8, Option.bind_some]
    dsimp only
    rw [readPassphrase_constData, Option.bind_some]
    refine (congrArg some (withSession_sendCmd session _)).trans ?_
    show some (Meaning.ask _ (.plain (.setPrivateKey (Option.map _ _) _))) = _
    rw [apply_ite (Option.map String.ofList)]
    rfl
  | fsList path =>
    show (orZero session (cstrToString (constData (toUtf8 path))) _).map _ = _
    rw [orZero_toUtf8]
    exact congrArg some (fsWithSession_submit session _)
  | fsRead path maxLen =>
    show (orZero session (cstrToString (constData (toUtf8 path))) _).map _ = _
    rw [orZero_toUtf8]
    exact congrArg some (fsWithSession_submit session _)
  | fsWrite path data =>
    show (orZero session (cstrToString (constData (toUtf8 path))) _).map _ = _
    rw [orZero_toUtf8, orZero_constData]
    exact congrArg some (fsWithSession_submit session _)
  | fsRename src dst =>
    show (orZero session (cstrToString (constData (toUtf8 src))) _).map _ = _
    rw [orZero_toUtf8, orZero_toUtf8]
    exact congrArg some (fsWithSession_submit session _)
  | fsRemove path recursive =>
    show (orZero session (cstrToString (constData (toUtf8 path))) _).map _ = _
    rw [orZero_toUtf8]
    exact congrArg some (fsWithSession_submit session _)
  | fsMkdir path =>
    show (orZero session (cstrToString (constData (toUtf8 path))) _).map _ = _
    rw [orZero_toUtf8]
    exact congrArg some (fsWithSession_submit session _)
  | fsCopy src dst =>
    show (orZero session (cstrToString (constData (toUtf8 src))) _).map _ = _
    rw [orZero_toUtf8, orZero_toUtf8]
    exact congrArg some (fsWithSession_submit session _)
  | exec command timeoutMs =>
    show (orZero session (cstrToString (constData (toUtf8 command))) _).map _ = _
    rw [orZero_toUtf8]
    exact congrArg some (fsWithSession_submit session _)

/-! ## §4. The controller's requests. -/

/-- The session, as its handle takes requests. -/
def Session.core (s : Session) : SessionHandle :=
  { nextRequestId := s.nextRequestId, stopped := s.stopped, sent := s.sent }

/-- The request, as the controller makes it. -/
def Request.byController (c : AppController) (r : Request) : Returned × AppController :=
  match r.meaning with
  | .plain command => (.code (c.sendCmd command).1, (c.sendCmd command).2)
  | .numbered command => (.id (c.submit command).1, (c.submit command).2)

/-- What a session does with a plain command. -/
theorem ask_send (s : Session) (command : Command) :
    (Meaning.plain command).ask (some s.core)
      = (.code (s.send command).1, some (s.send command).2.core) := by
  unfold Session.send
  show (if s.stopped = true then _ else _) = _
  by_cases hstopped : s.stopped = true
  · rw [if_pos hstopped, if_pos hstopped]
  · rw [if_neg hstopped, if_neg hstopped]
    rfl

/-- What a session does with a numbered command. -/
theorem ask_submit (s : Session) (command : UInt64 → Command) :
    (Meaning.numbered command).ask (some s.core)
      = (.id (s.submit command).1, some (s.submit command).2.core) := by
  unfold Session.submit
  show (if s.stopped = true then _ else _) = _
  dsimp only
  by_cases hstopped : s.stopped = true
  · rw [if_pos hstopped, if_pos hstopped]
    rfl
  · rw [if_neg hstopped, if_neg hstopped]
    rfl

/-- What the controller's session does with a plain command. -/
theorem sendCmd_ask (c : AppController) (command : Command) :
    (Meaning.plain command).ask (c.session.map Session.core)
      = (.code (c.sendCmd command).1, (c.sendCmd command).2.session.map Session.core) := by
  unfold AppController.sendCmd
  cases hsession : c.session with
  | none =>
    dsimp only
    rw [hsession]
    rfl
  | some s => exact ask_send s command

/-- What the controller's session does with a numbered command. -/
theorem submit_ask (c : AppController) (command : UInt64 → Command) :
    (Meaning.numbered command).ask (c.session.map Session.core)
      = (.id (c.submit command).1, (c.submit command).2.session.map Session.core) := by
  unfold AppController.submit
  cases hsession : c.session with
  | none =>
    dsimp only
    rw [hsession]
    rfl
  | some s => exact ask_submit s command

/-- What the controller asks its session for is what goes through the bridge. -/
theorem Request.call_controller (c : AppController) (r : Request) :
    r.call (c.session.map Session.core)
      = some ((r.byController c).1, (r.byController c).2.session.map Session.core) := by
  rw [r.call_eq]
  unfold byController
  cases r.meaning with
  | plain command => exact congrArg some (sendCmd_ask c command)
  | numbered command => exact congrArg some (submit_ask c command)

/-! ## §5. Any number of calls. -/

/-- What happens to a session between the bridge and its driver. -/
inductive Exchange
  | request (r : Request)
  /-- The driver has returned and dropped the queue. -/
  | driverStops
  deriving DecidableEq, Repr

/-- The driver of the session has ended. -/
def stop (session : Option SessionHandle) : Option SessionHandle :=
  session.map fun s => { s with stopped := true }

/-- The answers to the calls, and the session after them. -/
def calls : Option SessionHandle → List Exchange → Option (List Returned × Option SessionHandle)
  | session, [] => some ([], session)
  | session, .driverStops :: rest => calls (stop session) rest
  | session, .request r :: rest =>
    (r.call session).bind fun (answer, session') =>
      (calls session' rest).map fun (answers, session'') => (answer :: answers, session'')

/-- What they are to be. -/
def asks : Option SessionHandle → List Exchange → List Returned × Option SessionHandle
  | session, [] => ([], session)
  | session, .driverStops :: rest => asks (stop session) rest
  | session, .request r :: rest =>
    let (answer, session') := r.meaning.ask session
    let (answers, session'') := asks session' rest
    (answer :: answers, session'')

/-- A text that the core reads as it is. -/
structure Crosses (text : QString) : Prop where
  /-- No surrogate stands alone. -/
  wellFormed : wellFormed text = true
  noNul : '\x00' ∉ toUnicode text

/-- A text comes back from UTF-8 if and only if it has no lone surrogate. -/
theorem toCore_iff (text : QString) : (toCore text).flatMap utf16 = text ↔ Crosses text := by
  constructor
  · intro hsame
    have hchars : toUnicode text = toCore text := by
      calc toUnicode text = toUnicode ((toCore text).flatMap utf16) := by rw [hsame]
        _ = toCore text := toUnicode_utf16 _
    refine ⟨(utf16_toUnicode_iff text).mp (by rw [hchars, hsame]), fun hnul => ?_⟩
    rw [hchars] at hnul
    have hbefore := List.mem_takeWhile_imp hnul
    simp at hbefore
  · intro h
    have hchars : toCore text = toUnicode text := by
      refine List.takeWhile_eq_self_iff.mpr fun c hc => ?_
      have hne : c ≠ '\x00' := fun heq => h.noNul (heq ▸ hc)
      simpa using hne
    rw [hchars]
    exact (utf16_toUnicode_iff text).mpr h.wellFormed

/-- **Requests cross the C interface.**  Whatever the bridge is asked for on a session, in any order,
on a null handle or not, and wherever the driver stops in between: no call reads behind a buffer, the
answers are those of the session itself, and what is queued are the commands that were meant.  A text
among them is the one that was passed exactly if it has no NUL and no surrogate that stands alone. -/
theorem requests_cross (session : Option SessionHandle) (exchanges : List Exchange) :
    calls session exchanges = some (asks session exchanges)
      ∧ ∀ text : QString, (toCore text).flatMap utf16 = text ↔ Crosses text := by
  refine ⟨?_, toCore_iff⟩
  induction exchanges generalizing session with
  | nil => rfl
  | cons exchange exchanges ih =>
    cases exchange with
    | driverStops => exact ih (stop session)
    | request r =>
      show (r.call session).bind _ = _
      rw [r.call_eq, Option.bind_some]
      show (calls (r.meaning.ask session).2 exchanges).map _ = _
      rw [ih]
      rfl

end ResearchSSH.App
