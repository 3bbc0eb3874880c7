/-
  ResearchSSH.App.UiThread — user actions, callbacks of the core, and the queue between them.

  A callback runs on a thread of the core: it copies its batch and posts a lambda to the UI
  thread.  The lambdas wait in a queue and are taken one at a time, between user actions; none
  of them knows which session it was posted for.  The model writes that session beside each
  batch, and no function of the program reads it.

  Only a session that has not been destroyed calls back; the batches it has posted by then stay
  in the queue.

  Main definitions:
    * `UiAction.run` — what a user action does to the controller.
    * `UiThread.step` — one user action, one callback, or the delivery of one batch.
-/

import ResearchSSH.App.ControllerSessions
import ResearchSSH.Library.Transition

namespace ResearchSSH.App

open ResearchSSH.Core ResearchSSH.Library

/-! ## §1. User actions. -/

/-- The slots that QML calls.  An action that creates a session carries the handle that the core
would give it, or the reason why there is none. -/
inductive UiAction
  | selectServer (index : Int)
  | connectToServer (index : Int) (refused : Option RsErrorCode)
  | connectToHost (host : QString) (port : Int)
      (username password name keyPath keyPassphrase : QString) (refused : Option RsErrorCode)
  | editServer (index : Int) (host : QString) (port : Int)
      (username password name keyPath keyPassphrase : QString)
  | deleteServer (index : Int)
  | disconnectCurrent
  | cancel
  | confirmHostKey (accept : Bool)
  | sendCommand (text : QString)
  | sendInterrupt
  | clearTerminal
  | runPythonFile (path device : QString)
  | refreshResourceSnapshot
  | refreshEnvironment
  | searchPackages (query : QString)
  | installPackage (manager name : QString)
  | updatePackage (manager name : QString)
  | removePackage (manager name : QString)
  | activateEditorPath (path : QString)
  | closeEditor
  | openPath (path : QString)
  | reloadFiles
  | fetchMore (node : Nat)
  | copyPath (path : QString)
  | cutPath (path : QString)
  | paste (destDir : QString)
  | renamePath (path newName : QString)
  | deletePath (path : QString) (isDir : Bool)
  | makeDir (parentDir name : QString)
  | makeFile (parentDir name : QString)
  | uploadFile (destDir localPath fileName : QString) (contents : Option (List UInt8))
  | saveEditor (text : QString)
  | saveEditorPath (path text : QString)
  deriving DecidableEq, Repr

/-- The answer of the core to `createSession`, with the handle a new session would have. -/
def answer (handle : Nat) : Option RsErrorCode → AppController.Created
  | none => .session handle
  | some code => .failed code

/-- A user action at a controller.  `cancel` is a signal to the driver and leaves the controller
as it is. -/
def UiAction.run (handle : Nat) (c : AppController) : UiAction → AppController
  | .selectServer index => c.selectServer index
  | .connectToServer index refused => c.connectToServer index (answer handle refused)
  | .connectToHost host port username password name keyPath keyPassphrase refused =>
    c.connectToHost host port username password name keyPath keyPassphrase (answer handle refused)
  | .editServer index host port username password name keyPath keyPassphrase =>
    c.editServer index host port username password name keyPath keyPassphrase
  | .deleteServer index => c.deleteServer index
  | .disconnectCurrent => c.disconnectCurrent
  | .cancel => c
  | .confirmHostKey accept => c.confirmHostKey accept
  | .sendCommand text => c.sendCommand text
  | .sendInterrupt => c.sendInterrupt
  | .clearTerminal => { c with terminal := [] }
  | .runPythonFile path device => c.runPythonFile path device
  | .refreshResourceSnapshot => c.refreshResourceSnapshot
  | .refreshEnvironment => c.refreshEnvironment
  | .searchPackages query => c.searchPackages query
  | .installPackage manager name => c.installPackage manager name
  | .updatePackage manager name => c.updatePackage manager name
  | .removePackage manager name => c.removePackage manager name
  | .activateEditorPath path => c.activateEditorPath path
  | .closeEditor => c.closeEditor
  | .openPath path => c.openPath path
  | .reloadFiles => c.reloadFiles
  | .fetchMore node => c.fetchMore node
  | .copyPath path => c.copyPath path
  | .cutPath path => c.cutPath path
  | .paste destDir => c.paste destDir
  | .renamePath path newName => c.renamePath path newName
  | .deletePath path isDir => c.deletePath path isDir
  | .makeDir parentDir name => c.makeDir parentDir name
  | .makeFile parentDir name => c.makeFile parentDir name
  | .uploadFile destDir localPath fileName contents =>
    c.uploadFile destDir localPath fileName contents
  | .saveEditor text => c.saveEditor text
  | .saveEditorPath path text => c.saveEditorPath path text

/-! ## §2. Batches and the queue. -/

/-- What one callback hands over. -/
inductive Batch
  | events (batch : List RustEvent)
  | files (batch : List FsResult)
  | execs (batch : List ExecResult)
  deriving DecidableEq, Repr

/-- `ingestRustEvents`, `ingestFileResults` or `ingestExecResults`. -/
def AppController.ingest (c : AppController) : Batch → AppController
  | .events batch => c.ingestRustEvents batch
  | .files batch => c.ingestFileResults batch
  | .execs batch => c.ingestExecResults batch

/-- A lambda in the queue, with the session whose callback posted it. -/
structure Posted where
  session : Nat
  batch : Batch
  deriving DecidableEq, Repr

/-- The controller and what is posted to it. -/
structure UiThread where
  controller : AppController
  queue : List Posted
  /-- The handle the next session will have. -/
  nextHandle : Nat

/-- The handle of the session there is. -/
def AppController.live (c : AppController) : Option Nat := c.session.map Session.handle

/-- One thing that happens. -/
inductive UiLabel
  | user (action : UiAction)
  /-- The live session calls back. -/
  | calls (batch : Batch)
  /-- The driver of the live session returns. -/
  | driverStops
  | deliver
  deriving DecidableEq, Repr

namespace UiThread

/-- The application as it starts. -/
def initial (servers : List ServerItem) (credentials : QString → Option (List UInt8)) : UiThread :=
  { controller := .initial servers credentials, queue := [], nextHandle := 0 }

/-- One thing happens. -/
def step (s : UiThread) : UiLabel → Option UiThread
  | .user action =>
    some { s with controller := action.run s.nextHandle s.controller
                  nextHandle := s.nextHandle + 1 }
  | .calls batch =>
    -- A destroyed session does not call back.
    match s.controller.live with
    | none => none
    | some handle => some { s with queue := s.queue ++ [{ session := handle, batch := batch }] }
  | .driverStops =>
    some { s with controller := { s.controller with
                    session := s.controller.session.map fun x => { x with stopped := true } } }
  | .deliver =>
    -- Nothing here asks whether the session that posted the batch is still the live one.
    match s.queue with
    | [] => none
    | posted :: rest =>
      some { s with controller := s.controller.ingest posted.batch, queue := rest }

variable {s t : UiThread}

/-- The live session's batch is posted. -/
theorem of_step_calls {batch : Batch} (h : s.step (.calls batch) = some t) :
    ∃ handle, s.controller.live = some handle
      ∧ t = { s with queue := s.queue ++ [{ session := handle, batch := batch }] } := by
  cases hlive : s.controller.live with
  | none =>
    rw [step, hlive] at h
    cases h
  | some handle =>
    rw [step, hlive] at h
    exact ⟨handle, rfl, (Option.some.inj h).symm⟩

/-- The oldest batch is ingested. -/
theorem of_step_deliver (h : s.step .deliver = some t) :
    ∃ posted rest, s.queue = posted :: rest
      ∧ t = { s with controller := s.controller.ingest posted.batch, queue := rest } := by
  cases hqueue : s.queue with
  | nil =>
    rw [step, hqueue] at h
    cases h
  | cons posted rest =>
    rw [step, hqueue] at h
    exact ⟨posted, rest, rfl, (Option.some.inj h).symm⟩

end UiThread

/-- The application with two saved servers. -/
def twoServers : UiThread :=
  UiThread.initial [newServer [] (lit "a") 22 (lit "u") .mock [],
                    newServer [] (lit "b") 22 (lit "u") .mock []] fun _ => none

end ResearchSSH.App
