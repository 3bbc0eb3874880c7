/-
  ResearchSSH.Core.FfiRequests — the C functions through which a session is asked for something.

  Each one reads its arguments out of the buffers it is given, before it looks at the session, and
  passes them on to the method of the session.  A null pointer and bytes that are no UTF-8 are
  refused with a code, or with the request id 0 where an id is returned.

  A pointer is what lies behind it (`Ptr`); `none` for a result says that a function would read
  behind the end of a buffer.  None of the functions panics.

  Main results:
    * `cstrToString_utf8`   — what is read of a text that C++ passes.
    * `bytesToVec_self`     — bytes are taken as they are.
-/

import ResearchSSH.Core.Driver
import ResearchSSH.Core.Ffi
import ResearchSSH.Core.TextDecoding

namespace ResearchSSH.Core

/-! ## §1. The session. -/

/-- What a `Session` needs to take requests: the counter, and the queue of the driver, which is
closed once the driver has returned. -/
structure SessionHandle where
  nextRequestId : UInt64
  stopped : Bool
  sent : List Command
  deriving DecidableEq, Repr

namespace SessionHandle

variable (s : SessionHandle)

/-- `self.cmd_tx.send(cmd)`; `none` where the driver is gone. -/
def sendToDriver (cmd : Command) : Option SessionHandle :=
  if s.stopped then none else some { s with sent := s.sent ++ [cmd] }

/-- `send_cmd`: an error if the driver takes no commands any more. -/
def sendCmd (cmd : Command) : CoreResult Unit × SessionHandle :=
  match s.sendToDriver cmd with
  | some s' => (.ok (), s')
  | none => (.error ⟨.runtimeError, "session driver stopped"⟩, s)

/-- `next_id`: the counter is raised and handed out. -/
def nextId : UInt64 × SessionHandle :=
  (s.nextRequestId + 1, { s with nextRequestId := s.nextRequestId + 1 })

/-- `submit_fs` and `exec`: the id is given before the command is sent. -/
def submit (cmd : UInt64 → Command) : UInt64 × SessionHandle :=
  let (id, s) := s.nextId
  match s.sendToDriver (cmd id) with
  | some s' => (id, s')
  | none => (0, s)

/-- `submit_fs`: a file operation under the next id. -/
def submitFs (op : FsOp) : UInt64 × SessionHandle := s.submit fun id => .fs id op

/-- `connect`. -/
def connect : CoreResult Unit × SessionHandle := s.sendCmd .connect

/-- `disconnect`. -/
def disconnect : CoreResult Unit × SessionHandle := s.sendCmd .disconnect

/-- `send`: bytes for the terminal. -/
def send (data : List UInt8) : CoreResult Unit × SessionHandle := s.sendCmd (.send data)

/-- `set_secret`. -/
def setSecret (secret : List UInt8) : CoreResult Unit × SessionHandle := s.sendCmd (.setSecret secret)

/-- `set_private_key`. -/
def setPrivateKey (keyPath : Option Text) (passphrase : Option (List UInt8)) :
    CoreResult Unit × SessionHandle :=
  s.sendCmd (.setPrivateKey (keyPath.map String.ofList) passphrase)

/-- `fs_list`. -/
def fsList (path : Text) : UInt64 × SessionHandle := s.submitFs (.list path)

/-- `fs_read`. -/
def fsRead (path : Text) (maxLen : UInt64) : UInt64 × SessionHandle := s.submitFs (.read path maxLen)

/-- `fs_write`. -/
def fsWrite (path : Text) (data : List UInt8) : UInt64 × SessionHandle := s.submitFs (.write path data)

/-- `fs_rename`. -/
def fsRename (src dst : Text) : UInt64 × SessionHandle := s.submitFs (.rename src dst)

/-- `fs_remove`. -/
def fsRemove (path : Text) (recursive : Bool) : UInt64 × SessionHandle :=
  s.submitFs (.remove path recursive)

/-- `fs_mkdir`. -/
def fsMkdir (path : Text) : UInt64 × SessionHandle := s.submitFs (.mkdir path)

/-- `fs_copy`. -/
def fsCopy (src dst : Text) : UInt64 × SessionHandle := s.submitFs (.copy src dst)

/-- `exec`: a command under the next id. -/
def exec (command : Text) (timeoutMs : UInt64) : UInt64 × SessionHandle :=
  s.submit fun id => .exec id (String.ofList command) timeoutMs

end SessionHandle

/-! ## §2. Arguments. -/

/-- `cstr_to_string`: null and ill-formed UTF-8 are errors; without a terminator the read has no
meaning. -/
def cstrToString (p : Ptr UInt8) : Option (Except RsErrorCode Text) :=
  match p with
  | none => some (.error .nullArgument)
  | some buffer =>
    if (0 : UInt8) ∈ buffer then
      match fromUtf8 (buffer.takeWhile (· ≠ 0)) with
      | some s => some (.ok s)
      | none => some (.error .invalidUtf8)
    else none

/-- `bytes_to_vec`: null is an error unless the length is 0. -/
def bytesToVec (data : Ptr UInt8) (len : Nat) : Option (Except RsErrorCode (List UInt8)) :=
  if len = 0 then some (.ok [])
  else
    match data with
    | none => some (.error .nullArgument)
    | some buffer => if len ≤ buffer.length then some (.ok (buffer.take len)) else none

/-- The bytes of a text without a NUL, up to a NUL behind it. -/
theorem takeWhile_utf8 (s : Text) (rest : List UInt8) :
    (utf8 s ++ 0 :: rest).takeWhile (· ≠ 0) = utf8 (s.takeWhile (· ≠ '\x00')) := by
  induction s with
  | nil => rfl
  | cons c s ih =>
    have hcons : ∀ t : Text, utf8 (c :: t) = String.utf8EncodeChar c ++ utf8 t := fun _ =>
      List.flatMap_cons
    rw [hcons, List.append_assoc]
    by_cases hnul : c = '\x00'
    · rw [List.takeWhile_cons_of_neg (by simp [hnul]), hnul]
      rfl
    · have hbytes : ∀ b ∈ String.utf8EncodeChar c, (decide (b ≠ 0)) = true := by
        intro b hb
        refine decide_eq_true fun hzero => hnul (zero_mem_utf8EncodeChar.mp ?_)
        rwa [← hzero]
      rw [List.takeWhile_append_of_pos hbytes, ih,
        List.takeWhile_cons_of_pos (by simpa using hnul), hcons]

/-- **What is read of a text** that stands in its buffer with a NUL behind it: what comes before its
first NUL.  It is never refused. -/
theorem cstrToString_utf8 (s : Text) :
    cstrToString (some (utf8 s ++ [0])) = some (.ok (s.takeWhile (· ≠ '\x00'))) := by
  have hend : (0 : UInt8) ∈ utf8 s ++ [0] := List.mem_append_right _ (List.mem_singleton.mpr rfl)
  have hread : fromUtf8 ((utf8 s ++ [0]).takeWhile (· ≠ 0)) = some (s.takeWhile (· ≠ '\x00')) := by
    rw [takeWhile_utf8]
    exact fromUtf8_eq_some.mpr rfl
  unfold cstrToString
  dsimp only
  rw [if_pos hend, hread]

/-- Bytes are taken as they are, whatever stands behind them. -/
theorem bytesToVec_self (bytes rest : List UInt8) :
    bytesToVec (some (bytes ++ rest)) bytes.length = some (.ok bytes) := by
  unfold bytesToVec
  by_cases hempty : bytes.length = 0
  · rw [if_pos hempty, List.length_eq_zero_iff.mp hempty]
  · rw [if_neg hempty]
    dsimp only
    rw [if_pos (by rw [List.length_append]; omega), List.take_left]

/-! ## §3. The functions. -/

/-- `with_session`. -/
def withSession (session : Option SessionHandle)
    (f : SessionHandle → CoreResult Unit × SessionHandle) : RsErrorCode × Option SessionHandle :=
  match session with
  | some s =>
    match f s with
    | (.ok (), s') => (.ok, some s')
    | (.error e, s') => (e.code, some s')
  | none => (.nullArgument, none)

/-- `fs_with_session`. -/
def fsWithSession (session : Option SessionHandle) (f : SessionHandle → UInt64 × SessionHandle) :
    UInt64 × Option SessionHandle :=
  match session with
  | some s => ((f s).1, some (f s).2)
  | none => (0, none)

section Functions

variable (session : Option SessionHandle)

/-- The result of a function that returns a code, after one argument was read. -/
def orCode {α : Type} (argument : Option (Except RsErrorCode α))
    (next : α → Option (RsErrorCode × Option SessionHandle)) :
    Option (RsErrorCode × Option SessionHandle) :=
  argument.bind fun
    | .ok a => next a
    | .error code => some (code, session)

/-- The result of a function that returns an id, after one argument was read. -/
def orZero {α : Type} (argument : Option (Except RsErrorCode α))
    (next : α → Option (UInt64 × Option SessionHandle)) : Option (UInt64 × Option SessionHandle) :=
  argument.bind fun
    | .ok a => next a
    | .error _ => some (0, session)

/-- `rscore_session_connect`. -/
def rscoreSessionConnect : Option (RsErrorCode × Option SessionHandle) :=
  some (withSession session (·.connect))

/-- `rscore_session_disconnect`. -/
def rscoreSessionDisconnect : Option (RsErrorCode × Option SessionHandle) :=
  some (withSession session (·.disconnect))

/-- `rscore_session_send`. -/
def rscoreSessionSend (data : Ptr UInt8) (len : Nat) : Option (RsErrorCode × Option SessionHandle) :=
  orCode session (bytesToVec data len) fun bytes => some (withSession session (·.send bytes))

/-- `rscore_session_set_password`. -/
def rscoreSessionSetPassword (data : Ptr UInt8) (len : Nat) :
    Option (RsErrorCode × Option SessionHandle) :=
  orCode session (bytesToVec data len) fun bytes => some (withSession session (·.setSecret bytes))

/-- No key path and an empty one are the same. -/
def readKeyPath (keyPath : Ptr UInt8) : Option (Except RsErrorCode (Option Text)) :=
  match keyPath with
  | none => some (.ok none)
  | some _ => (cstrToString keyPath).map (·.map fun s => if s = [] then none else some s)

/-- An empty passphrase is none, wherever it points. -/
def readPassphrase (passphrase : Ptr UInt8) (len : Nat) :
    Option (Except RsErrorCode (Option (List UInt8))) :=
  if len = 0 then some (.ok none) else (bytesToVec passphrase len).map (·.map some)

/-- `rscore_session_set_private_key`. -/
def rscoreSessionSetPrivateKey (keyPath passphrase : Ptr UInt8) (passphraseLen : Nat) :
    Option (RsErrorCode × Option SessionHandle) :=
  orCode session (readKeyPath keyPath) fun keyPath =>
    orCode session (readPassphrase passphrase passphraseLen) fun passphrase =>
      some (withSession session (·.setPrivateKey keyPath passphrase))

/-- `rscore_session_exec`: id 0 is a refusal. -/
def rscoreSessionExec (command : Ptr UInt8) (timeoutMs : UInt64) :
    Option (UInt64 × Option SessionHandle) :=
  orZero session (cstrToString command) fun cmd =>
    some (fsWithSession session (·.exec cmd timeoutMs))

/-- `rscore_session_fs_list`. -/
def rscoreSessionFsList (path : Ptr UInt8) : Option (UInt64 × Option SessionHandle) :=
  orZero session (cstrToString path) fun p => some (fsWithSession session (·.fsList p))

/-- `rscore_session_fs_read`. -/
def rscoreSessionFsRead (path : Ptr UInt8) (maxLen : UInt64) :
    Option (UInt64 × Option SessionHandle) :=
  orZero session (cstrToString path) fun p => some (fsWithSession session (·.fsRead p maxLen))

/-- `rscore_session_fs_write`. -/
def rscoreSessionFsWrite (path data : Ptr UInt8) (len : Nat) :
    Option (UInt64 × Option SessionHandle) :=
  orZero session (cstrToString path) fun p =>
    orZero session (bytesToVec data len) fun bytes =>
      some (fsWithSession session (·.fsWrite p bytes))

/-- `rscore_session_fs_rename`. -/
def rscoreSessionFsRename (src dst : Ptr UInt8) : Option (UInt64 × Option SessionHandle) :=
  orZero session (cstrToString src) fun src =>
    orZero session (cstrToString dst) fun dst =>
      some (fsWithSession session (·.fsRename src dst))

/-- `rscore_session_fs_remove`. -/
def rscoreSessionFsRemove (path : Ptr UInt8) (recursive : Bool) :
    Option (UInt64 × Option SessionHandle) :=
  orZero session (cstrToString path) fun p => some (fsWithSession session (·.fsRemove p recursive))

/-- `rscore_session_fs_mkdir`. -/
def rscoreSessionFsMkdir (path : Ptr UInt8) : Option (UInt64 × Option SessionHandle) :=
  orZero session (cstrToString path) fun p => some (fsWithSession session (·.fsMkdir p))

/-- `rscore_session_fs_copy`. -/
def rscoreSessionFsCopy (src dst : Ptr UInt8) : Option (UInt64 × Option SessionHandle) :=
  orZero session (cstrToString src) fun src =>
    orZero session (cstrToString dst) fun dst =>
      some (fsWithSession session (·.fsCopy src dst))

end Functions

end ResearchSSH.Core
