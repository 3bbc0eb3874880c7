/-
  ResearchSSH.App.EditorViewModel — what the controller tells the editor pane.

  The view model remembers one path and three flags; the documents themselves live in the pane,
  which learns of everything else through signals.  `emitted` is the list of all signals so far,
  `changed` with the two flags its handler reads.
-/

import ResearchSSH.App.QString

namespace ResearchSSH.App

/-- The signals of the view model, with their arguments. -/
inductive EditorSignal
  | changed (isOpen busy : Bool)
  | contentLoaded (path text : QString)
  | pathClosed (path : QString)
  | pathRemoved (path : QString) (recursive : Bool)
  | pathMoved (fromPath toPath : QString)
  | openFailed (path message : QString)
  | saveSucceeded (path : QString)
  | saveFailed (path message : QString)
  deriving DecidableEq, Repr

/-- The view model's own fields and the signals it has emitted so far. -/
structure EditorViewModel where
  path : QString
  isOpen : Bool
  busy : Bool
  saving : Bool
  emitted : List EditorSignal
  deriving DecidableEq, Repr

namespace EditorViewModel

/-- No file is open. -/
def initial : EditorViewModel :=
  { path := [], isOpen := false, busy := false, saving := false, emitted := [] }

variable (e : EditorViewModel)

/-- A signal goes out. -/
def emit (signal : EditorSignal) : EditorViewModel :=
  { e with emitted := e.emitted ++ [signal] }

/-- `changed`: what QML reads again. -/
def emitChanged : EditorViewModel := e.emit (.changed e.isOpen e.busy)

/-- `beginOpen`: the file was asked for. -/
def beginOpen (path : QString) : EditorViewModel :=
  emitChanged { e with path := path, isOpen := true, busy := true }

/-- `setContent`: a read has come, perhaps of a file that is no longer the current one. -/
def setContent (path : QString) (data : List UInt8) : EditorViewModel :=
  (emitChanged { e with busy := if e.path = path then false else e.busy, isOpen := true }).emit
    (.contentLoaded path (fromUtf8 data))

/-- `failOpen`: only the current file stops being busy. -/
def failOpen (path message : QString) : EditorViewModel :=
  if path = [] ∨ e.path = path then
    (emitChanged { e with busy := false }).emit (.openFailed path message)
  else e.emit (.openFailed path message)

/-- `activatePath`: another tab is at the front. -/
def activatePath (path : QString) : EditorViewModel :=
  if path = [] then e
  else emitChanged { e with path := path, isOpen := true, busy := false }

/-- `removePath`: a path was removed on the server. -/
def removePath (path : QString) (recursive : Bool) : EditorViewModel :=
  if path = [] ∧ recursive = false then e else e.emit (.pathRemoved path recursive)

/-- `movePath`: the current path follows, and the tabs are told. -/
def movePath (fromPath toPath : QString) : EditorViewModel :=
  if fromPath = [] ∨ toPath = [] then e
  else
    let moved := e.path = fromPath ∨ startsWith e.path (fromPath ++ lit "/")
    let path := if moved then toPath ++ e.path.drop fromPath.length else e.path
    emitChanged ({ e with path := path }.emit (.pathMoved fromPath toPath))

/-- `beginSave`. -/
def beginSave : EditorViewModel :=
  if e.isOpen then emitChanged { e with saving := true } else e

/-- `finishSave`: without a path the current one is meant. -/
def finishSave (ok : Bool) (message path : QString) : EditorViewModel :=
  let target := if path = [] then e.path else path
  (emitChanged { e with saving := false }).emit
    (if ok then .saveSucceeded target else .saveFailed target message)

/-- `close`. -/
def close : EditorViewModel :=
  emitChanged { e with path := [], isOpen := false, busy := false, saving := false }

end EditorViewModel

end ResearchSSH.App
