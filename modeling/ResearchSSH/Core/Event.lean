/-
  ResearchSSH.Core.Event — the values that cross the core's interfaces.

  Session states, error codes and errors (`lib.rs`), session events (`event.rs`), file and
  command results (`fs.rs`, `task.rs`), the file operations a session can be asked for
  (`session.rs`) and the events a provider pushes (`provider.rs`).

  Bytes are lists of `UInt8`.  Remote paths and names are lists of characters, since later
  modules compute on them; messages are `String`s.
-/

import Mathlib.Data.List.Basic

namespace ResearchSSH.Core

/-- Text that the program computes on: a remote path, a file name. -/
abbrev Text := List Char

/-! ## §1. States and errors. -/

/-- Lifecycle state of a session. -/
inductive RsSessionState
  | idle | connecting | connected | disconnecting | disconnected | failed
  deriving DecidableEq, Repr

/-- Stable error codes. -/
inductive RsErrorCode
  | ok | nullArgument | invalidUtf8 | invalidState | providerUnavailable | connectFailed
  | notConnected | cancelled | runtimeError | panic | internal
  deriving DecidableEq, Repr

/-- The static description of a code. -/
def RsErrorCode.message : RsErrorCode → String
  | .ok => "ok"
  | .nullArgument => "a required pointer argument was null"
  | .invalidUtf8 => "argument was not valid UTF-8"
  | .invalidState => "operation invalid in current session state"
  | .providerUnavailable => "requested provider or capability is unavailable"
  | .connectFailed => "failed to establish the connection"
  | .notConnected => "session is not connected"
  | .cancelled => "operation was cancelled"
  | .runtimeError => "async runtime error"
  | .panic => "a panic was caught at the FFI boundary"
  | .internal => "internal error"

/-- A code with an optional detail message. -/
structure CoreError where
  code : RsErrorCode
  detail : Option String
  deriving DecidableEq, Repr

/-- The message to surface: the detail if present, else the description of the code. -/
def CoreError.message (e : CoreError) : String := e.detail.getD e.code.message

/-! ## §2. Session events. -/

/-- What a session tells the outside world. -/
inductive SessionEvent
  | stateChanged (state : RsSessionState)
  | data (bytes : List UInt8)
  | error (code : RsErrorCode) (message : String)
  | hostKeyPrompt (fingerprint : String)
  deriving DecidableEq, Repr

/-- The state an event announces, if it announces one. -/
def SessionEvent.announces : SessionEvent → Option RsSessionState
  | .stateChanged s => some s
  | .data _ => none
  | .error _ _ => none
  | .hostKeyPrompt _ => none

/-- The states announced by a list of events, in order. -/
def announcedStates (events : List SessionEvent) : List RsSessionState :=
  events.filterMap SessionEvent.announces

@[simp] theorem announcedStates_nil : announcedStates [] = [] := rfl

/-- The states of events one behind another. -/
@[simp] theorem announcedStates_append (as bs : List SessionEvent) :
    announcedStates (as ++ bs) = announcedStates as ++ announcedStates bs := by
  simp only [announcedStates, List.filterMap_append]

@[simp] theorem announcedStates_stateChanged (s : RsSessionState) (es : List SessionEvent) :
    announcedStates (.stateChanged s :: es) = s :: announcedStates es := rfl

@[simp] theorem announcedStates_data (bytes : List UInt8) (es : List SessionEvent) :
    announcedStates (.data bytes :: es) = announcedStates es := rfl

@[simp] theorem announcedStates_error (code : RsErrorCode) (message : String)
    (es : List SessionEvent) :
    announcedStates (.error code message :: es) = announcedStates es := rfl

@[simp] theorem announcedStates_hostKeyPrompt (fingerprint : String) (es : List SessionEvent) :
    announcedStates (.hostKeyPrompt fingerprint :: es) = announcedStates es := rfl

/-- Events a provider pushes asynchronously toward its session. -/
inductive ProviderEvent
  | data (bytes : List UInt8)
  | disconnected (reason : String)
  | error (e : CoreError)
  deriving DecidableEq, Repr

/-- The state a provider event puts the session in, if it ends the connection. -/
def ProviderEvent.outcome : ProviderEvent → Option RsSessionState
  | .data _ => none
  | .disconnected _ => some .disconnected
  | .error _ => some .failed

/-! ## §3. Files and commands. -/

/-- `FileKind`. -/
inductive FileKind
  | file | directory | symlink | other
  deriving DecidableEq, Repr

/-- One entry in a remote directory listing. -/
structure FileEntry where
  name : Text
  path : Text
  kind : FileKind
  size : UInt64
  modifiedUnix : Int64
  mode : UInt32
  editableText : Bool
  deriving DecidableEq, Repr

/-- A file operation requested over the C ABI. -/
inductive FsOp
  | list (path : Text)
  | stat (path : Text)
  | read (path : Text) (maxLen : UInt64)
  | write (path : Text) (data : List UInt8)
  | rename (src dst : Text)
  | remove (path : Text) (recursive : Bool)
  | mkdir (path : Text)
  | copy (src dst : Text)
  deriving DecidableEq, Repr

/-- Payload of a file result. -/
inductive FilePayload
  | listing (entries : List FileEntry)
  | content (bytes : List UInt8)
  | ok
  | error (code : RsErrorCode) (message : String)
  deriving DecidableEq, Repr

/-- Result of a single file operation. -/
structure FileResult where
  requestId : UInt64
  payload : FilePayload
  deriving DecidableEq, Repr

/-- Output captured from one non-interactive remote command. -/
structure ExecOutput where
  stdout : List UInt8
  stderr : List UInt8
  exitStatus : Int32
  deriving DecidableEq, Repr

/-- Payload of a command result. -/
inductive ExecPayload
  | output (output : ExecOutput)
  | error (code : RsErrorCode) (message : String)
  deriving DecidableEq, Repr

/-- Result of one side-channel command. -/
structure ExecResult where
  requestId : UInt64
  payload : ExecPayload
  deriving DecidableEq, Repr

end ResearchSSH.Core
