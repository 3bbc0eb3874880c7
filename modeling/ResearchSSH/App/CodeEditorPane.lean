/-
  ResearchSSH.App.CodeEditorPane — the open documents of the editor pane.

  Texts are taken as the text area shows them, with one unit for every line end.  `loadingText`
  and `applyingEditorText` are set only while the pane itself fills the text area, to keep the
  handler of an edit away; filling it is one assignment here, and an edit a step of its own.
  Focus, highlighting and completion are left out.

  A document has a `tab` that no handler reads: it tells the document from others that have, had
  or will have its path or its place in the list.  So has the close dialog, for the document it
  was opened for.  Nor is `inFlight` read, the requests that the file pipeline has yet to answer.
-/

import ResearchSSH.App.EditorViewModel
import ResearchSSH.Library.Transition

namespace ResearchSSH.App

open ResearchSSH.Library

/-! ## §1. Documents. -/

/-- An entry of `openDocuments`.  `tab` is the identity of the tab, which no later path changes. -/
structure Document where
  tab : Nat
  path : QString
  name : QString
  text : QString
  modified : Bool
  loading : Bool
  saving : Bool
  remoteMissing : Bool
  cursorPosition : Nat
  deriving DecidableEq, Repr

/-- What stands behind the last slash. -/
def fileNameOf (path : QString) : QString :=
  match lastIndexOf path 0x2f with
  | some i => path.drop (i + 1)
  | none => path

/-- The path is the target itself or, if asked for, lies below it. -/
def pathMatches (path target : QString) (recursive : Bool) : Bool :=
  if target = [] then recursive
  else path == target || (recursive && startsWith path (target ++ lit "/"))

/-- The path after its file, or a directory above it, was moved. -/
def movedPath (path fromPath toPath : QString) : QString :=
  if path = fromPath then toPath
  else if startsWith path (fromPath ++ lit "/") then toPath ++ path.drop fromPath.length
  else path

/-- `makeDocument`, in the given tab. -/
def makeDocument (tab : Nat) (path text : QString) (modified loading : Bool) : Document :=
  { tab := tab, path := path, name := fileNameOf path, text := text, modified := modified
    loading := loading, saving := false, remoteMissing := false, cursorPosition := 0 }

/-- The first tab on a path, -1 if there is none. -/
def findDocumentIndex (docs : List Document) (path : QString) : Int :=
  match docs.findIdx? fun doc => doc.path == path with
  | some i => i
  | none => -1

/-! ## §2. The pane. -/

/-- What the pane asks of the controller. -/
inductive EditorCall
  | activateEditorPath (path : QString)
  | openPath (path : QString)
  | saveEditorPath (path text : QString)
  | closeEditor
  deriving DecidableEq, Repr

/-- The signal brings the result of the request. -/
def EditorCall.answeredBy : EditorCall → EditorSignal → Bool
  | .openPath path, .contentLoaded loaded _ => path == loaded
  | .openPath path, .openFailed failed _ => path == failed
  | .saveEditorPath path _, .saveSucceeded saved => path == saved
  | .saveEditorPath path _, .saveFailed failed _ => path == failed
  | _, _ => false

/-- The signal brings the result of some request. -/
def EditorSignal.isResult : EditorSignal → Bool
  | .contentLoaded _ _ | .openFailed _ _ | .saveSucceeded _ | .saveFailed _ _ => true
  | _ => false

/-- The calls the controller may answer later. -/
def EditorCall.isFileRequest : EditorCall → Bool
  | .openPath _ => true
  | .saveEditorPath _ _ => true
  | _ => false

/-- The question asked before a modified tab is closed.  It remembers an index; `tab` records which
tab that was. -/
structure CloseFileDialog where
  opened : Bool
  index : Int
  fileName : QString
  tab : Nat
  deriving DecidableEq, Repr

/-- `calls` is everything the pane asked of the controller so far, and `nextTab` the tab of the
next document. -/
structure CodeEditorPane where
  openDocuments : List Document
  activeDocumentIndex : Int
  modified : Bool
  editorText : QString
  editorCursor : Nat
  pendingOpenPath : QString
  ignoredOpenPaths : List QString
  closeFileDialog : CloseFileDialog
  largeFilePath : Option QString
  calls : List EditorCall
  inFlight : List EditorCall
  nextTab : Nat
  deriving DecidableEq, Repr

/-- `maxEditorBytes`, 2 MiB. -/
def maxEditorBytes : Nat := 2 * 1024 * 1024

namespace CodeEditorPane

/-- The pane as it is made: no tab, nothing asked for. -/
def initial : CodeEditorPane :=
  { openDocuments := [], activeDocumentIndex := -1, modified := false, editorText := []
    editorCursor := 0, pendingOpenPath := [], ignoredOpenPaths := []
    closeFileDialog := { opened := false, index := -1, fileName := [], tab := 0 }
    largeFilePath := none, calls := [], inFlight := [], nextTab := 0 }

variable (p : CodeEditorPane)

/-- The document at an index, if it is in range. -/
def documentAt? (index : Int) : Option Document :=
  if index < 0 then none else p.openDocuments[index.toNat]?

/-- The active document, if the index names one. -/
def activeDocument? : Option Document := p.documentAt? p.activeDocumentIndex

/-- `activePath`: empty without an active document. -/
def activePath : QString :=
  match p.activeDocument? with
  | some doc => doc.path
  | none => []

/-- The active document still waits for its text. -/
def activeDocumentLoading : Bool := p.activeDocument?.any Document.loading

/-- The active document is being saved. -/
def activeDocumentSaving : Bool := p.activeDocument?.any Document.saving

/-- The file of the active document was removed on the server. -/
def activeDocumentRemoteMissing : Bool := p.activeDocument?.any Document.remoteMissing

/-- A call of the controller; those it may answer later are in flight from now on. -/
def call (request : EditorCall) : CodeEditorPane :=
  { p with
    calls := p.calls ++ [request]
    inFlight := p.inFlight ++ [request].filter EditorCall.isFileRequest }

/-- `if (root.activePath.length > 0) root.controller.activateEditorPath(root.activePath)` -/
def activateActivePath : CodeEditorPane :=
  if p.activePath = [] then p else p.call (.activateEditorPath p.activePath)

/-- The text area shows what the active document holds. -/
def syncEditorFromActiveDocument : CodeEditorPane :=
  match p.activeDocument? with
  | none => { p with editorText := [], editorCursor := 0, modified := false }
  | some doc =>
    { p with
      editorText := doc.text, editorCursor := min doc.cursorPosition doc.text.length
      modified := doc.modified }

/-- An assignment to `activeDocumentIndex`, with `onActiveDocumentIndexChanged`. -/
def setActiveDocumentIndex (index : Int) : CodeEditorPane :=
  if index = p.activeDocumentIndex then p
  else syncEditorFromActiveDocument { p with activeDocumentIndex := index }

/-- `replaceDocument`: a new record in the place of an old one. -/
def replaceDocument (index : Int) (doc : Document) (syncActive : Bool) : CodeEditorPane :=
  let p := { p with openDocuments := p.openDocuments.set index.toNat doc }
  if syncActive ∧ index = p.activeDocumentIndex then p.syncEditorFromActiveDocument else p

/-- The next read of the path is to be dropped. -/
def isIgnoredOpenPath (path : QString) : Bool := p.ignoredOpenPaths.contains path

/-- The tab was closed while its read was on its way. -/
def ignoreOpenPath (path : QString) : CodeEditorPane :=
  if path = [] ∨ p.isIgnoredOpenPath path then p
  else { p with ignoredOpenPaths := p.ignoredOpenPaths ++ [path] }

/-- The path was asked for again, or its dropped read has come. -/
def unignoreOpenPath (path : QString) : CodeEditorPane :=
  { p with ignoredOpenPaths := p.ignoredOpenPaths.erase path }

/-- The document with the text and the cursor of the text area. -/
def withEditor (doc : Document) : Document :=
  { doc with text := p.editorText, cursorPosition := p.editorCursor }

/-- What stands in the text area is kept in the active document. -/
def persistActiveText : CodeEditorPane :=
  match p.activeDocument? with
  | none => p
  | some doc => p.replaceDocument p.activeDocumentIndex (p.withEditor doc) false

/-- `activateDocument`: the other tab comes to the front. -/
def activateDocument (index : Int) (persistCurrent : Bool) : CodeEditorPane :=
  if index < 0 ∨ p.openDocuments.length ≤ index then p
  else
    -- What the text area shows belongs to the document that is left.
    let p := if persistCurrent then p.persistActiveText else p
    -- Filled again also where the index stays: the document under it may be another one.
    let p := (p.setActiveDocumentIndex index).syncEditorFromActiveDocument
    match p.documentAt? index with
    | some doc => p.call (.activateEditorPath doc.path)
    | none => p

/-- A click on a tab. -/
def setActiveDocument (index : Int) : CodeEditorPane :=
  if index < 0 ∨ p.openDocuments.length ≤ index then p
  else activateDocument { p with pendingOpenPath := [] } index true

/-- `setActiveModified`: the mark of the text area and that of its document, which loads no longer.
-/
def setActiveModified (value : Bool) : CodeEditorPane :=
  match p.activeDocument? with
  | none => { p with modified := false }
  | some doc =>
    let doc := { p.withEditor doc with modified := value, loading := false }
    { p.replaceDocument p.activeDocumentIndex doc false with modified := value }

/-- `setActiveSaving`: the mark of the active document only. -/
def setActiveSaving (value : Bool) : CodeEditorPane :=
  match p.activeDocument? with
  | none => p
  | some doc =>
    p.replaceDocument p.activeDocumentIndex { p.withEditor doc with saving := value } false

/-- `onChanged` of the controller's editor, with the flags it reads. -/
def onChanged (isOpen busy : Bool) : CodeEditorPane :=
  if ¬ isOpen ∧ ¬ busy ∧ p.openDocuments = [] then
    { setActiveDocumentIndex { p with openDocuments := [] } (-1) with
      pendingOpenPath := [], editorText := [], editorCursor := 0, modified := false }
  else p

/-- What every handler does when the last document is gone.  The controller's `closeEditor`
emits `changed` before it returns. -/
def closeEditor : CodeEditorPane :=
  let p := { p.setActiveDocumentIndex (-1) with modified := false, editorText := [], editorCursor := 0 }
  (p.call .closeEditor).onChanged false false

/-! ## §3. The handlers. -/

/-- A document that waits for its text is put at the end of the list. -/
def pushLoading (path : QString) : CodeEditorPane :=
  { p with
    openDocuments := p.openDocuments ++ [makeDocument p.nextTab path [] false true]
    pendingOpenPath := path, nextTab := p.nextTab + 1 }

/-- `requestOpen`: a tab that is open is shown, any other file is read into a new one. -/
def requestOpen (fileAvailable : Bool) (path : QString) (size : Nat) : CodeEditorPane :=
  if ¬ fileAvailable then p
  else if path = [] then p
  else
    let existing := findDocumentIndex p.openDocuments path
    if existing ≥ 0 then p.setActiveDocument existing
    else if size ≥ maxEditorBytes then { p with largeFilePath := some path }
    else
      -- The path is wanted again, also for a read from before.
      let p := (p.unignoreOpenPath path).pushLoading path
      (p.activateDocument (p.openDocuments.length - 1) true).call (.openPath path)

/-- `saveCurrent`: sends what the text area shows, under all the conditions of the source. -/
def saveCurrent (connected fileAvailable : Bool) : CodeEditorPane :=
  if connected ∧ fileAvailable ∧ p.activeDocumentIndex ≥ 0 ∧ ¬ p.activeDocumentLoading
      ∧ ¬ p.activeDocumentSaving ∧ ¬ p.activeDocumentRemoteMissing ∧ p.modified then
    let p := p.activateActivePath
    (p.setActiveSaving true).call (.saveEditorPath p.activePath p.editorText)
  else p

/-- The loaded text is put in the place of the document at `index`, or at the end of the list. -/
def placeLoaded (index : Int) (path text : QString) (wasActive : Bool) : CodeEditorPane :=
  match p.documentAt? index with
  -- Found by its path alone, and replaced whether or not it is modified.
  | some old => p.replaceDocument index (makeDocument old.tab path text false false) wasActive
  | none =>
    { p with
      openDocuments := p.openDocuments ++ [makeDocument p.nextTab path text false false]
      nextTab := p.nextTab + 1 }

/-- What is left to do when the loaded document is in place. -/
def afterLoaded (index : Int) (path : QString) (wasActive : Bool) : CodeEditorPane :=
  -- The tab that was asked for last is shown, and any if none is shown yet.
  let shouldActivate := p.pendingOpenPath = path ∨ p.activeDocumentIndex < 0
  let p := if p.pendingOpenPath = path then { p with pendingOpenPath := [] } else p
  if shouldActivate then p.activateDocument index false
  else if wasActive then p.activateDocument index false
  else p.activateActivePath

/-- A read has come: the tab on its path, or a new one, gets the text. -/
def upsertLoadedDocument (path text : QString) : CodeEditorPane :=
  if p.isIgnoredOpenPath path then (p.unignoreOpenPath path).activateActivePath
  else
    let index := findDocumentIndex p.openDocuments path
    let wasActive := index = p.activeDocumentIndex
    let p := p.placeLoaded index path text wasActive
    let index := if index ≥ 0 then index else p.openDocuments.length - 1
    p.afterLoaded index path wasActive

/-- What is left to do when the document at `index` has been taken out of the list. -/
def afterSplice (index : Int) (wasActive : Bool) : CodeEditorPane :=
  if wasActive then p.activateDocument (min index (p.openDocuments.length - 1)) false
  -- The active document has moved one place to the left.
  else if index < p.activeDocumentIndex then p.setActiveDocumentIndex (p.activeDocumentIndex - 1)
  else p

/-- A read has failed: the tab on its path goes. -/
def handleOpenFailed (path : QString) : CodeEditorPane :=
  if p.isIgnoredOpenPath path then p.unignoreOpenPath path
  else
    let index := findDocumentIndex p.openDocuments path
    if index < 0 then p
    else
      let wasActive := index = p.activeDocumentIndex
      -- Taken out whether or not it has been modified since it was asked for.
      let p := { p with openDocuments := p.openDocuments.eraseIdx index.toNat }
      let p := if p.pendingOpenPath = path then { p with pendingOpenPath := [] } else p
      if p.openDocuments = [] then p.closeEditor else p.afterSplice index wasActive

/-- What the removal of `path` leaves of a document: one that is modified stays open. -/
def afterRemoval (path : QString) (recursive : Bool) (doc : Document) : Option Document :=
  if ¬ pathMatches doc.path path recursive then some doc
  else if doc.modified then
    some { doc with remoteMissing := true, saving := false, loading := false }
  else none

/-- A path was removed on the server: tabs without changes go, the others are marked missing. -/
def handlePathRemoved (path : QString) (recursive : Bool) : CodeEditorPane :=
  let p := p.persistActiveText
  let oldActivePath := p.activePath
  let oldActiveIndex := p.activeDocumentIndex
  let p := { p with openDocuments := p.openDocuments.filterMap (afterRemoval path recursive) }
  if p.openDocuments = [] then p.closeEditor
  else
    let activeIndex := findDocumentIndex p.openDocuments oldActivePath
    match p.documentAt? activeIndex with
    | some doc =>
      { (p.setActiveDocumentIndex activeIndex).syncEditorFromActiveDocument with
        modified := doc.modified }
    | none => p.activateDocument (min oldActiveIndex (p.openDocuments.length - 1)) false

/-- A document after its path was moved; the mark of a missing file goes. -/
def afterMove (fromPath toPath : QString) (doc : Document) : Document :=
  if pathMatches doc.path fromPath true then
    let path := movedPath doc.path fromPath toPath
    { doc with path := path, name := fileNameOf path, remoteMissing := false }
  else doc

/-- A path was moved on the server: every tab on it or below it follows. -/
def handlePathMoved (fromPath toPath : QString) : CodeEditorPane :=
  let p := p.persistActiveText
  if p.openDocuments.any fun doc => pathMatches doc.path fromPath true then
    let p := { p with openDocuments := p.openDocuments.map (afterMove fromPath toPath) }
    p.syncEditorFromActiveDocument.activateActivePath
  else p

/-- The read that a closing document waits for is no longer wanted. -/
def forgetOpening (closingDoc : Document) : CodeEditorPane :=
  -- Its text is still to come, and would open the tab again.
  let p := if closingDoc.loading then p.ignoreOpenPath closingDoc.path else p
  if p.pendingOpenPath = closingDoc.path then { p with pendingOpenPath := [] } else p

/-- `closeDocument`: the tab goes, and a read that it waited for is ignored. -/
def closeDocument (index : Int) : CodeEditorPane :=
  match p.documentAt? index with
  | none => p
  | some closingDoc =>
    let wasActive := index = p.activeDocumentIndex
    let p := p.forgetOpening closingDoc
    let p := { p with openDocuments := p.openDocuments.eraseIdx index.toNat }
    if p.openDocuments = [] then { p.closeEditor with pendingOpenPath := [] }
    else p.afterSplice index wasActive

/-- The cross of a tab: one with changes is asked about first. -/
def requestCloseDocument (index : Int) : CodeEditorPane :=
  match p.documentAt? index with
  | none => p
  | some doc =>
    if doc.modified then
      { p with closeFileDialog := { opened := true, index := index, fileName := doc.name, tab := doc.tab } }
    else p.closeDocument index

/-- `onAccepted` of the close dialog. -/
def acceptClose : CodeEditorPane :=
  -- Whatever stands under the index by now.
  let p := p.closeDocument p.closeFileDialog.index
  { p with closeFileDialog := { p.closeFileDialog with opened := false, index := -1 } }

/-- The question is answered with no. -/
def rejectClose : CodeEditorPane :=
  { p with closeFileDialog := { p.closeFileDialog with opened := false } }

/-- What `onSaveSucceeded` and `onSaveFailed` make of a document: it is modified if and only if
the save failed. -/
def savedDocument (index : Int) (modified : Bool) (doc : Document) : Document :=
  let doc := { doc with modified := modified, saving := false }
  if index = p.activeDocumentIndex then p.withEditor doc else doc

/-- A save has ended; a failed one leaves the document modified. -/
def finishSave (path : QString) (modified : Bool) : CodeEditorPane :=
  let index := findDocumentIndex p.openDocuments path
  match p.documentAt? index with
  | none => p
  | some doc =>
    let p := p.replaceDocument index (p.savedDocument index modified doc) false
    if index = p.activeDocumentIndex then { p with modified := modified } else p

/-- The signal `saveSucceeded`. -/
def onSaveSucceeded (path : QString) : CodeEditorPane := p.finishSave path false

/-- The signal `saveFailed`. -/
def onSaveFailed (path : QString) : CodeEditorPane := p.finishSave path true

/-- The first request that the signal answers is answered. -/
def answered (signal : EditorSignal) : CodeEditorPane :=
  { p with inFlight := p.inFlight.eraseP fun request => request.answeredBy signal }

/-- The signals of the controller's editor. -/
def onSignal : EditorSignal → CodeEditorPane
  | .changed isOpen busy => p.onChanged isOpen busy
  | .contentLoaded path text => p.upsertLoadedDocument path text
  | .pathClosed path => p.handlePathRemoved path false
  | .pathRemoved path recursive => p.handlePathRemoved path recursive
  | .pathMoved fromPath toPath => p.handlePathMoved fromPath toPath
  | .openFailed path _ => p.handleOpenFailed path
  | .saveSucceeded path => p.onSaveSucceeded path
  | .saveFailed path _ => p.onSaveFailed path

/-- `onTextChanged` after the user changed the text. -/
def edit (text : QString) (cursor : Nat) : CodeEditorPane :=
  setActiveModified { p with editorText := text, editorCursor := cursor } true

/-! ## §4. Steps. -/

/-- What can happen to the pane: a signal of the controller, or something the user does. -/
inductive Label
  | signal (signal : EditorSignal)
  | requestOpen (fileAvailable : Bool) (path : QString) (size : Nat)
  | setActive (index : Int)
  | requestClose (index : Int)
  | acceptClose
  | rejectClose
  | edit (text : QString) (cursor : Nat)
  | moveCursor (cursor : Nat)
  | save (connected fileAvailable : Bool)
  deriving DecidableEq, Repr

/-- One step.  The dialog's buttons are there while it is open, and the text area takes no
input without a document or while the document is loading. -/
def step : Label → Option CodeEditorPane
  | .signal signal => some ((p.answered signal).onSignal signal)
  | .requestOpen fileAvailable path size => some (p.requestOpen fileAvailable path size)
  | .setActive index => some (p.setActiveDocument index)
  | .requestClose index => some (p.requestCloseDocument index)
  | .acceptClose => if p.closeFileDialog.opened then some p.acceptClose else none
  | .rejectClose => if p.closeFileDialog.opened then some p.rejectClose else none
  | .edit text cursor =>
    if p.activeDocument?.isSome ∧ ¬ p.activeDocumentLoading ∧ ¬ p.activeDocumentSaving then
      some (p.edit text cursor)
    else none
  | .moveCursor cursor => some { p with editorCursor := cursor }
  | .save connected fileAvailable => some (p.saveCurrent connected fileAvailable)

/-- A result is that of the request that has waited longest. -/
def InOrder : Label → Prop
  | .signal signal =>
    signal.isResult → p.inFlight.head?.any (fun request => request.answeredBy signal) = true
  | _ => True

instance : ∀ l, Decidable (p.InOrder l)
  | .signal signal =>
    inferInstanceAs (Decidable (signal.isResult →
      p.inFlight.head?.any (fun request => request.answeredBy signal) = true))
  | .requestOpen _ _ _ | .setActive _ | .requestClose _ | .acceptClose | .rejectClose
  | .edit _ _ | .moveCursor _ | .save _ _ => inferInstanceAs (Decidable True)

end CodeEditorPane

end ResearchSSH.App
