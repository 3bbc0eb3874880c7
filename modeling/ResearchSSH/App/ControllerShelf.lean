/-
  ResearchSSH.App.ControllerShelf — the file tree, the clipboard and the commands under way.

  The shelf of a controller is what it keeps beside its desk and its face.  Most functions leave
  the shelf as it is and ask for no move that empties the clipboard (`Spares`); the file functions
  touch the tree alone, the command functions the commands alone; a destroyed session clears the
  shelf (`Torn`).  What is left are the few functions that the results about tree, clipboard and
  commands are about.

  A run here is any sequence of inputs: user actions, single results and events, and the end of a
  driver.  That is every run of the UI thread, and more.

  Main results:
    * `UiAction.spares_run` — the actions that leave the shelf alone.
    * `settled_connectToServer` and its like — the server actions.
    * `UiThread.exec_inputs` — every run of the UI thread is one of inputs.
-/

import ResearchSSH.App.ControllerDesk
import ResearchSSH.App.Workspace

namespace ResearchSSH.App

open ResearchSSH.Core ResearchSSH.Library

/-- The part of the controller about the tree, the clipboard and the packages. -/
structure Shelf where
  fileTree : RemoteFileTreeModel
  clipboardPath : QString
  clipboardCut : Bool
  execPending : UInt64 → Option PendingExec
  busy : Bool

namespace AppController

/-- The controller's part of it. -/
def shelf (c : AppController) : Shelf :=
  { fileTree := c.fileTree, clipboardPath := c.clipboardPath, clipboardCut := c.clipboardCut
    execPending := c.execPending, busy := c.packages.busy }

/-- Neither the shelf nor what waits for a file result is touched. -/
structure Idles (c d : AppController) : Prop where
  shelf : d.shelf = c.shelf
  fsPending : d.fsPending = c.fsPending

/-- The shelf is left as it is, and no new request would empty the clipboard. -/
structure Spares (c d : AppController) : Prop where
  shelf : d.shelf = c.shelf
  clears : ∀ id pending, d.fsPending id = some pending → pending.clearClipboard = true →
    c.fsPending id = some pending

/-- At most the tree is another one. -/
def SparesButTree (c d : AppController) : Prop := Spares { c with fileTree := d.fileTree } d

/-- At most the commands are others. -/
def SparesButCommands (c d : AppController) : Prop :=
  Spares { c with execPending := d.execPending, packages := d.packages } d

/-- The shelf has been cleared. -/
structure Torn (c d : AppController) : Prop where
  shelf : d.shelf = { fileTree := c.fileTree.clearTree, clipboardPath := [], clipboardCut := false
                      execPending := fun _ => none, busy := false }
  clears : ∀ id pending, d.fsPending id = some pending → pending.clearClipboard = false

section
variable {c d e : AppController}

theorem Idles.refl (c : AppController) : Idles c c := ⟨rfl, rfl⟩

/-- One after the other. -/
theorem Idles.trans (h : Idles c d) (h' : Idles d e) : Idles c e :=
  ⟨h'.shelf.trans h.shelf, h'.fsPending.trans h.fsPending⟩

/-- Only shelf and table of the first controller count. -/
theorem Idles.start {b : AppController} (h : Idles c d) (hshelf : c.shelf = b.shelf)
    (hpending : c.fsPending = b.fsPending) : Idles b d :=
  ⟨h.shelf.trans hshelf, h.fsPending.trans hpending⟩

/-- What leaves the table alone clears none of it. -/
theorem Idles.spares (h : Idles c d) : Spares c d :=
  ⟨h.shelf, fun id pending hpending _ => by rw [← h.fsPending]; exact hpending⟩

theorem Spares.same (hshelf : d.shelf = c.shelf) (hpending : d.fsPending = c.fsPending) :
    Spares c d := Idles.spares ⟨hshelf, hpending⟩

theorem Spares.refl (c : AppController) : Spares c c := .same rfl rfl

/-- One after the other. -/
theorem Spares.trans (h : Spares c d) (h' : Spares d e) : Spares c e where
  shelf := h'.shelf.trans h.shelf
  clears := fun id pending hpending hclear =>
    h.clears id pending (h'.clears id pending hpending hclear) hclear

/-- What differs outside of shelf and requests does not matter. -/
theorem Spares.start {b : AppController} (h : Spares c d) (hshelf : c.shelf = b.shelf)
    (hpending : c.fsPending = b.fsPending) : Spares b d :=
  (Spares.same hshelf hpending).trans h

/-- The tree is on the shelf. -/
theorem Spares.fileTree (h : Spares c d) : d.fileTree = c.fileTree :=
  congrArg Shelf.fileTree h.shelf

/-- The tree may stay as it is. -/
theorem Spares.butTree (h : Spares c d) : SparesButTree c d := by
  unfold SparesButTree
  rw [h.fileTree]
  exact h

/-- The commands may stay as they are. -/
theorem Spares.butCommands (h : Spares c d) : SparesButCommands c d where
  shelf := by
    have hshelf := h.shelf
    unfold AppController.shelf at hshelf ⊢
    rw [Shelf.mk.injEq] at hshelf ⊢
    exact ⟨hshelf.1, hshelf.2.1, hshelf.2.2.1, rfl, rfl⟩
  clears := h.clears

/-- One after the other. -/
theorem SparesButCommands.trans (h : SparesButCommands c d) (h' : SparesButCommands d e) :
    SparesButCommands c e where
  shelf := by
    have hfirst := h.shelf
    have hsecond := h'.shelf
    unfold AppController.shelf at hfirst hsecond ⊢
    rw [Shelf.mk.injEq] at hfirst hsecond ⊢
    exact ⟨hsecond.1.trans hfirst.1, hsecond.2.1.trans hfirst.2.1,
      hsecond.2.2.1.trans hfirst.2.2.1, rfl, rfl⟩
  clears := fun id pending hpending hclear =>
    h.clears id pending (h'.clears id pending hpending hclear) hclear

/-- One after the other. -/
theorem SparesButTree.trans (h : SparesButTree c d) (h' : SparesButTree d e) :
    SparesButTree c e where
  shelf := by
    have hfirst := h.shelf
    have hsecond := h'.shelf
    unfold AppController.shelf at hfirst hsecond ⊢
    rw [Shelf.mk.injEq] at hfirst hsecond ⊢
    exact ⟨rfl, hsecond.2.1.trans hfirst.2.1, hsecond.2.2.1.trans hfirst.2.2.1,
      hsecond.2.2.2.1.trans hfirst.2.2.2.1, hsecond.2.2.2.2.trans hfirst.2.2.2.2⟩
  clears := fun id pending hpending hclear =>
    h.clears id pending (h'.clears id pending hpending hclear) hclear

/-- The first controller may have another tree. -/
theorem SparesButTree.start {b : AppController} (h : SparesButTree c d)
    (hshelf : c.shelf = { b.shelf with fileTree := c.fileTree })
    (hpending : c.fsPending = b.fsPending) : SparesButTree b d :=
  SparesButTree.trans (Spares.same hshelf hpending) h

/-- The first controller may have other commands. -/
theorem SparesButCommands.start {b : AppController} (h : SparesButCommands c d)
    (hshelf : c.shelf = { b.shelf with execPending := c.execPending, busy := c.packages.busy })
    (hpending : c.fsPending = b.fsPending) : SparesButCommands b d :=
  SparesButCommands.trans (Spares.same hshelf hpending) h

/-- What comes after the connection has ended. -/
theorem Torn.spares (h : Torn c d) (h' : Spares d e) : Torn c e where
  shelf := h'.shelf.trans h.shelf
  clears := by
    intro id pending hpending
    rw [Bool.eq_false_iff]
    intro hclear
    have hfalse := h.clears id pending (h'.clears id pending hpending hclear)
    rw [hfalse] at hclear
    cases hclear

end

variable (c : AppController)

/-! ## §1. Through the bridge. -/

theorem spares_submit (command : UInt64 → Command) : Spares c (c.submit command).2 := by
  unfold submit
  split <;> exact .same rfl rfl

theorem spares_submitFs (op : FsOp) : Spares c (c.submitFs op).2 := c.spares_submit _

theorem idles_sendCmd (command : Command) : Idles c (c.sendCmd command).2 := by
  unfold sendCmd
  split <;> exact ⟨rfl, rfl⟩

/-- An entry that clears no clipboard is spared. -/
theorem spares_trackFsRequest (id : UInt64) {pending : PendingFs}
    (h : pending.clearClipboard = false) : Spares c (c.trackFsRequest id pending) := by
  unfold trackFsRequest
  split
  · exact .refl c
  · refine ⟨rfl, fun other entry hentry hclear => ?_⟩
    change Function.update c.fsPending id (some pending) other = some entry at hentry
    by_cases hsame : other = id
    · rw [hsame, Function.update_self, Option.some.injEq] at hentry
      rw [← hentry, h] at hclear
      cases hclear
    · rw [Function.update_of_ne hsame] at hentry
      exact hentry

/-- A change that clears no clipboard is spared. -/
theorem spares_trackMutation (op : FsOp) (refused : QString) {pending : PendingFs}
    (h : pending.clearClipboard = false) :
    Spares c (trackMutation (c.submitFs op) refused pending) := by
  have hsubmit := c.spares_submitFs op
  unfold trackMutation
  split
  · exact hsubmit.trans (.same rfl rfl)
  · exact hsubmit.trans (spares_trackFsRequest _ _ h)

/-- A request is given the id 0 exactly where it is refused. -/
theorem submit_eq_zero_iff (command : UInt64 → Command) :
    (c.submit command).1 = 0 ↔ c.desk.Refuses := by
  constructor
  · intro hzero
    obtain ⟨_, _, _, ⟨_, hrefuses⟩ | ⟨_, _, hne, _⟩⟩ := c.submit_outcome command
    · exact hrefuses
    · exact absurd hzero hne
  · intro hrefuses
    unfold submit
    cases hsession : c.session with
    | none => rfl
    | some s =>
      have hdesk : c.desk.stopped = s.stopped ∧ c.desk.idAfter 1 = s.nextRequestId + 1 := by
        show (c.session.map Session.stopped).getD true = _
          ∧ (c.session.map Session.nextRequestId).getD 0 + 1 = _
        rw [hsession]
        exact ⟨rfl, rfl⟩
      unfold Desk.Refuses at hrefuses
      rw [hdesk.1, hdesk.2] at hrefuses
      dsimp only
      unfold Session.submit
      split
      · rfl
      · next hopen => exact hrefuses.resolve_left hopen

/-! ## §2. Files. -/

theorem spares_expandDir (path : QString) : SparesButTree c (c.expandDir path) := by
  unfold expandDir
  split
  · have hsubmit := c.spares_submitFs (.list (toCore path))
    generalize c.submitFs (.list (toCore path)) = submitted at hsubmit ⊢
    obtain ⟨id, c'⟩ := submitted
    dsimp only at hsubmit ⊢
    split
    · exact hsubmit.butTree.trans (Spares.same rfl rfl)
    · exact (hsubmit.trans (spares_trackFsRequest _ _ rfl)).butTree
  · exact Spares.same rfl rfl

theorem spares_fetchMore (id : Nat) : SparesButTree c (c.fetchMore id) := by
  unfold fetchMore
  split
  · next tree path _ =>
    exact spares_expandDir { c with fileTree := tree } path
  · exact Spares.same rfl rfl

theorem spares_reloadFiles : SparesButTree c c.reloadFiles := by
  unfold reloadFiles
  split
  · exact (spares_expandDir _ []).start rfl rfl
  · exact Spares.same rfl rfl

theorem spares_openPath (path : QString) : Spares c (c.openPath path) := by
  unfold openPath
  split
  · split
    · exact .refl c
    · dsimp only
      have hsubmit := spares_submitFs { c with editor := c.editor.beginOpen path }
        (.read (toCore path) editorReadLimit.toUInt64)
      generalize submitFs { c with editor := c.editor.beginOpen path }
        (.read (toCore path) editorReadLimit.toUInt64) = submitted at hsubmit ⊢
      obtain ⟨id, c'⟩ := submitted
      dsimp only at hsubmit ⊢
      have hfirst : Spares c c' := hsubmit.start rfl rfl
      split
      · exact hfirst.trans (.same rfl rfl)
      · exact hfirst.trans (spares_trackFsRequest _ _ rfl)
  · exact .same rfl rfl

theorem spares_renamePath (path newName : QString) : Spares c (c.renamePath path newName) := by
  unfold renamePath
  split
  · split
    · exact .refl c
    · split
      · exact c.spares_trackMutation _ _ rfl
      · exact .same rfl rfl
  · exact .same rfl rfl

theorem spares_deletePath (path : QString) (isDir : Bool) : Spares c (c.deletePath path isDir) := by
  unfold deletePath
  split
  · split
    · exact .refl c
    · exact c.spares_trackMutation _ _ rfl
  · exact .same rfl rfl

theorem spares_makeDir (parentDir name : QString) : Spares c (c.makeDir parentDir name) := by
  unfold makeDir
  split
  · split
    · exact c.spares_trackMutation _ _ rfl
    · exact .same rfl rfl
  · exact .same rfl rfl

theorem spares_makeFile (parentDir name : QString) : Spares c (c.makeFile parentDir name) := by
  unfold makeFile
  split
  · split
    · exact c.spares_trackMutation _ _ rfl
    · exact .same rfl rfl
  · exact .same rfl rfl

theorem spares_uploadFile (destDir localPath fileName : QString) (contents : Option (List UInt8)) :
    Spares c (c.uploadFile destDir localPath fileName contents) := by
  unfold uploadFile
  split
  · split
    · exact .same rfl rfl
    · exact c.spares_trackMutation _ _ rfl
  · exact .same rfl rfl

theorem spares_saveEditorPath (path text : QString) : Spares c (c.saveEditorPath path text) := by
  unfold saveEditorPath
  split
  · split
    · exact .refl c
    · dsimp only
      have hsubmit := spares_submitFs { c with editor := (c.editor.activatePath path).beginSave }
        (.write (toCore path) (toUtf8 text))
      generalize submitFs { c with editor := (c.editor.activatePath path).beginSave }
        (.write (toCore path) (toUtf8 text)) = submitted at hsubmit ⊢
      obtain ⟨id, c'⟩ := submitted
      dsimp only at hsubmit ⊢
      have hfirst : Spares c c' := hsubmit.start rfl rfl
      split
      · exact hfirst.trans (.same rfl rfl)
      · exact hfirst.trans (spares_trackFsRequest _ _ rfl)
  · exact .same rfl rfl

theorem idles_activateEditorPath (path : QString) : Idles c (c.activateEditorPath path) := by
  unfold activateEditorPath
  split <;> exact ⟨rfl, rfl⟩

theorem spares_expandSome (dir : Option QString) : SparesButTree c (c.expandSome dir) := by
  unfold expandSome
  split
  · exact c.spares_expandDir _
  · exact (Spares.refl c).butTree

theorem spares_refreshAfter (pending : PendingFs) : SparesButTree c (c.refreshAfter pending) := by
  have hfirst := c.spares_expandSome pending.refreshDir
  unfold refreshAfter
  dsimp only
  split
  · split
    · exact hfirst.trans (spares_expandDir _ _)
    · exact hfirst
  · exact hfirst

/-- A failure may reach the tree, not the clipboard. -/
theorem spares_failFileRequest (pending : PendingFs) (code : RsErrorCode) (message : QString) :
    SparesButTree c (c.failFileRequest pending code message) := by
  unfold failFileRequest
  cases pending.kind with
  | listing =>
    dsimp only
    split
    · split <;> exact Spares.same rfl rfl
    · exact Spares.same rfl rfl
  | editorOpen => exact Spares.same rfl rfl
  | editorSave => exact Spares.same rfl rfl
  | mutate => exact Spares.same rfl rfl

theorem spares_finishListing (pending : PendingFs) (payload : FsPayload) :
    SparesButTree c (c.finishListing pending payload) := by
  unfold finishListing
  split
  · dsimp only
    split
    · unfold rememberHomeFromRootListing
      split <;> exact Spares.same rfl rfl
    · exact Spares.same rfl rfl
  · dsimp only
    split <;> exact Spares.same rfl rfl

theorem idles_finishOpen (pending : PendingFs) (payload : FsPayload) :
    Idles c (c.finishOpen pending payload) := by
  unfold finishOpen
  split
  · split
    · exact ⟨rfl, rfl⟩
    · split <;> exact ⟨rfl, rfl⟩
  · exact ⟨rfl, rfl⟩

/-- A save may refresh the tree. -/
theorem spares_finishSave (pending : PendingFs) (payload : FsPayload) :
    SparesButTree c (c.finishSave pending payload) := by
  unfold finishSave
  split
  · exact (spares_refreshAfter _ pending).start rfl rfl
  · exact Spares.same rfl rfl

/-! ## §3. Commands. -/

theorem spares_submitExec (command : QString) (timeoutMs : UInt64) (kind : PendingExecKind)
    (label : QString) : SparesButCommands c (c.submitExec command timeoutMs kind label).2 := by
  unfold submitExec
  split
  · have hsubmit := c.spares_submit fun id => .exec id (String.ofList (toCore command)) timeoutMs
    generalize c.submit (fun id => .exec id (String.ofList (toCore command)) timeoutMs)
      = submitted at hsubmit ⊢
    obtain ⟨id, c'⟩ := submitted
    dsimp only at hsubmit ⊢
    split
    · exact hsubmit.butCommands
    · have hclears := hsubmit.butCommands.clears
      refine ⟨?_, hclears⟩
      have hshelf := hsubmit.butCommands.shelf
      unfold shelf at hshelf ⊢
      rw [Shelf.mk.injEq] at hshelf ⊢
      exact ⟨hshelf.1, hshelf.2.1, hshelf.2.2.1, rfl, rfl⟩
  · exact (Spares.refl c).butCommands

theorem spares_submitPackage (command : QString) (timeoutMs : UInt64) (kind : PendingExecKind)
    (label failureText : QString) :
    SparesButCommands c (c.submitPackage command timeoutMs kind label failureText) := by
  have hsubmit := c.spares_submitExec command timeoutMs kind label
  unfold submitPackage
  generalize c.submitExec command timeoutMs kind label = submitted at hsubmit ⊢
  obtain ⟨id, c'⟩ := submitted
  dsimp only at hsubmit ⊢
  split
  · exact hsubmit.trans (Spares.same rfl rfl)
  · exact hsubmit

theorem spares_refreshEnvironment : SparesButCommands c c.refreshEnvironment := by
  unfold refreshEnvironment
  split
  · split
    · exact (Spares.refl c).butCommands
    · exact (spares_submitPackage _ _ _ _ _ _).start rfl rfl
  · exact Spares.same rfl rfl

theorem spares_searchPackages (query : QString) : SparesButCommands c (c.searchPackages query) := by
  unfold searchPackages
  dsimp only
  split
  · exact (Spares.refl c).butCommands
  · split
    · split
      · exact (Spares.refl c).butCommands
      · exact (spares_submitPackage _ _ _ _ _ _).start rfl rfl
    · exact Spares.same rfl rfl

theorem spares_mutatePackage (m : PackageMutation) (manager name : QString) :
    SparesButCommands c (c.mutatePackage m manager name) := by
  unfold mutatePackage
  dsimp only
  split
  · exact (Spares.refl c).butCommands
  · split
    · split
      · exact (Spares.refl c).butCommands
      · split
        · split
          · exact Spares.same rfl rfl
          · exact (spares_submitPackage _ _ _ _ _ _).start rfl rfl
        · exact Spares.same rfl rfl
    · exact Spares.same rfl rfl

theorem spares_refreshResourceSnapshot : SparesButCommands c c.refreshResourceSnapshot := by
  unfold refreshResourceSnapshot
  split
  · split
    · exact (Spares.refl c).butCommands
    · have hsubmit := spares_submitExec
        { c with resources := { busy := true, capture := [], markerTail := [] } }
        resourceSnapshotCommand 8000 .resourceSnapshot (lit "资源快照")
      generalize submitExec { c with resources := { busy := true, capture := [], markerTail := [] } }
        resourceSnapshotCommand 8000 .resourceSnapshot (lit "资源快照") = submitted at hsubmit ⊢
      obtain ⟨id, c'⟩ := submitted
      dsimp only at hsubmit ⊢
      have hfirst : SparesButCommands c c' := hsubmit.start rfl rfl
      split
      · exact hfirst.trans (Spares.same rfl rfl)
      · exact hfirst
  · exact Spares.same rfl rfl

theorem spares_finishPackageMutation (result : ExecResult)
    (successText failureText refreshText : QString) :
    SparesButCommands c (c.finishPackageMutation result successText failureText refreshText) := by
  unfold finishPackageMutation
  dsimp only
  split
  · exact Spares.same rfl rfl
  · exact (spares_submitPackage _ _ _ _ _ _).start rfl rfl

/-- No command's result reaches the tree or the clipboard. -/
theorem spares_ingestExecResult (result : ExecResult) :
    SparesButCommands c (c.ingestExecResult result) := by
  unfold ingestExecResult
  split
  · exact (Spares.refl c).butCommands
  next pending _ =>
    dsimp only
    cases pending.kind with
    | resourceSnapshot => dsimp only; split <;> exact Spares.same rfl rfl
    | environmentProbe =>
      dsimp only
      split
      · exact Spares.same rfl rfl
      · exact (spares_submitPackage _ _ _ _ _ _).start rfl rfl
    | packageList => dsimp only; split <;> exact Spares.same rfl rfl
    | packageSearch => dsimp only; split <;> exact Spares.same rfl rfl
    | packageInstall => exact (spares_finishPackageMutation _ _ _ _ _).start rfl rfl
    | packageUpdate => exact (spares_finishPackageMutation _ _ _ _ _).start rfl rfl
    | packageRemove => exact (spares_finishPackageMutation _ _ _ _ _).start rfl rfl

theorem idles_finishCapture (capture : QString) : Idles c (c.finishCapture capture) := by
  unfold finishCapture
  split
  · exact ⟨rfl, rfl⟩
  · split
    · exact ⟨rfl, rfl⟩
    · dsimp only
      split <;> exact ⟨rfl, rfl⟩

theorem idles_captureResourceOutput (data : List UInt8) :
    Idles c (c.captureResourceOutput data).2 := by
  unfold captureResourceOutput
  split
  · dsimp only
    split
    · split
      · exact ⟨rfl, rfl⟩
      · refine (idles_finishCapture _ _).start ?_ ?_
        · split <;> rfl
        · split <;> rfl
    · exact idles_finishCapture _ _
  · exact .refl c

theorem idles_sendTerminalBytes (payload : List UInt8) (failureContext : QString) :
    Idles c (c.sendTerminalBytes payload failureContext).2 := by
  have h := c.idles_sendCmd (.send payload)
  unfold sendTerminalBytes
  generalize c.sendCmd (.send payload) = sent at h ⊢
  obtain ⟨rc, c'⟩ := sent
  dsimp only at h ⊢
  split
  · exact h
  · exact h.trans (⟨rfl, rfl⟩)

theorem idles_sendCommand (text : QString) : Idles c (c.sendCommand text) := by
  unfold sendCommand
  split
  · split
    · exact .refl c
    · exact idles_sendTerminalBytes _ _ _
  · exact ⟨rfl, rfl⟩

theorem idles_sendInterrupt : Idles c c.sendInterrupt := by
  unfold sendInterrupt
  split
  · have h := c.idles_sendTerminalBytes [0x03] (lit "中止信号发送失败")
    generalize c.sendTerminalBytes [0x03] (lit "中止信号发送失败") = sent at h ⊢
    obtain ⟨taken, c'⟩ := sent
    cases taken with
    | true => exact h.trans (⟨rfl, rfl⟩)
    | false => exact h
  · exact ⟨rfl, rfl⟩

theorem idles_runPythonFile (path device : QString) : Idles c (c.runPythonFile path device) := by
  unfold runPythonFile
  split
  · split
    · exact ⟨rfl, rfl⟩
    · split
      · exact ⟨rfl, rfl⟩
      · exact (idles_sendTerminalBytes _ _ _).start rfl rfl
  · exact ⟨rfl, rfl⟩

/-! ## §4. Sessions. -/

theorem idles_setStatus (row : Int) (status : RsSessionState) :
    Idles c (c.setStatus row status) := by
  unfold setStatus
  split <;> exact ⟨rfl, rfl⟩

theorem idles_selectServer (index : Int) : Idles c (c.selectServer index) := by
  unfold selectServer
  split <;> exact ⟨rfl, rfl⟩

theorem idles_disconnectCurrent : Idles c c.disconnectCurrent := by
  unfold disconnectCurrent
  split
  · exact .refl c
  · have h := c.idles_sendCmd .disconnect
    generalize c.sendCmd .disconnect = sent at h ⊢
    obtain ⟨rc, c'⟩ := sent
    dsimp only at h ⊢
    split
    · exact h
    · exact h.trans (⟨rfl, rfl⟩)

theorem idles_confirmHostKey (accept : Bool) : Idles c (c.confirmHostKey accept) := by
  unfold confirmHostKey
  split <;> exact ⟨rfl, rfl⟩

theorem idles_requestConnect : Idles c c.requestConnect := by
  have h := idles_sendCmd (c.appendNotice (arg (lit "正在连接 %1 …") [c.currentEndpoint])) .connect
  unfold requestConnect
  dsimp only
  generalize sendCmd (c.appendNotice (arg (lit "正在连接 %1 …") [c.currentEndpoint])) .connect
    = sent at h ⊢
  obtain ⟨rc, c'⟩ := sent
  dsimp only at h ⊢
  have hfirst : Idles c c' := h.start rfl rfl
  split
  · exact hfirst
  · exact hfirst.trans (⟨rfl, rfl⟩)

theorem idles_openSession (index : Int) (item : ServerItem) (handle : Nat) :
    Idles c (c.openSession index item handle) := by
  unfold openSession
  dsimp only
  refine Idles.start (idles_sendCmd _ _) ?_ ?_
  · split
    · rfl
    · exact (idles_sendCmd _ _).shelf
  · split
    · rfl
    · exact (idles_sendCmd _ _).fsPending

theorem torn_teardownSession : Torn c c.teardownSession := ⟨rfl, nofun⟩

/-- A server action leaves shelf and requests alone or clears them. -/
def Settled (d : AppController) : Prop := Idles c d ∨ Torn c d

variable {c} in

/-- What comes after an end is idle. -/
theorem Settled.idles {d e : AppController} (h : c.Settled d) (h' : Idles d e) : c.Settled e := by
  rcases h with h | h
  · exact .inl (h.trans h')
  · exact .inr (h.spares h'.spares)

/-- A connect ends the session there is, or leaves all as it is. -/
theorem settled_connectToServer (index : Int) (created : Created) :
    c.Settled (c.connectToServer index created) := by
  unfold connectToServer
  split
  · exact .inl (.refl c)
  · next item _ =>
    have hselected := c.idles_selectServer index
    dsimp only
    generalize c.selectServer index = d at hselected ⊢
    have hkept : c.Settled
        (if d.session.isSome ∧ d.currentIndex ≠ index then d.teardownSession else d) := by
      split
      · refine .inr ⟨?_, nofun⟩
        rw [d.torn_teardownSession.shelf, hselected.spares.fileTree]
      · exact .inl hselected
    generalize (if d.session.isSome ∧ d.currentIndex ≠ index then d.teardownSession else d) = e
      at hkept ⊢
    cases e.session with
    | some session => exact hkept.idles (idles_requestConnect _)
    | none =>
      cases created with
      | session handle =>
        exact hkept.idles ((idles_openSession _ _ _ _).trans (idles_requestConnect _))
      | failed code => exact hkept.idles ((idles_setStatus _ _ _).start rfl rfl)

/-- A connect ends the session there is, or leaves all as it is. -/
theorem settled_connectToHost (host : QString) (port : Int)
    (username password name keyPath keyPassphrase : QString) (created : Created) :
    c.Settled (c.connectToHost host port username password name keyPath keyPassphrase created) := by
  by_cases h : host = [] ∨ username = []
  · unfold connectToHost
    rw [if_pos h]
    exact .inl ⟨rfl, rfl⟩
  · obtain ⟨credentials, heq⟩ := c.connectToHost_accepted h port password name keyPath keyPassphrase
      created
    rw [heq]
    rcases settled_connectToServer { c with servers := _, credentials := credentials } _ created
      with hkept | htorn
    · exact .inl (hkept.start rfl rfl)
    · exact .inr ⟨htorn.shelf, htorn.clears⟩

theorem settled_dropCurrentSession (index : Int) :
    c.Settled (if index = c.currentIndex then c.dropCurrentSession else c) := by
  split
  · exact .inr ⟨rfl, nofun⟩
  · exact .inl (.refl c)

theorem idles_editSecret (oldKey newKey : QString) (changed : Bool) (old : Option (List UInt8))
    (value : QString) : Idles c (c.editSecret oldKey newKey changed old value) := by
  unfold editSecret
  split
  · dsimp only
    split <;> exact ⟨rfl, rfl⟩
  · split
    · split <;> exact ⟨rfl, rfl⟩
    · exact .refl c

theorem idles_updateServer (row : Int) (name host : QString) (port : Int) (username : QString)
    (provider : ProviderKind) (keyPath : QString) :
    Idles c (c.updateServer row name host port username provider keyPath).2 := by
  unfold updateServer
  split <;> exact ⟨rfl, rfl⟩

/-- Editing ends the session of the row, or leaves all as it is. -/
theorem settled_editServer (index : Int) (host : QString) (port : Int)
    (username password name keyPath keyPassphrase : QString) :
    c.Settled (c.editServer index host port username password name keyPath keyPassphrase) := by
  have hdropped := c.settled_dropCurrentSession index
  unfold editServer
  split
  · exact .inl (.refl c)
  · dsimp only
    split
    · exact .inl ⟨rfl, rfl⟩
    · -- the session of the row that is edited goes first
      generalize (if index = c.currentIndex then c.dropCurrentSession else c) = d at hdropped ⊢
      have hupdated := d.idles_updateServer index name (trimmed host) port (trimmed username) .russh
        keyPath
      generalize d.updateServer index name (trimmed host) port (trimmed username) .russh keyPath
        = updated at hupdated ⊢
      obtain ⟨taken, d'⟩ := updated
      have hkept := hdropped.idles hupdated
      cases taken with
      | false => exact hkept.idles ⟨rfl, rfl⟩
      | true =>
        -- the row takes its values, then its secrets move, then it is selected
        refine hkept.idles (Idles.trans (Idles.trans ?_ (idles_selectServer _ index))
          ⟨rfl, rfl⟩)
        exact Idles.trans (Idles.trans (idles_setStatus d' index .idle)
          (idles_editSecret _ _ _ _ _ _)) (idles_editSecret _ _ _ _ _ _)

/-- Deleting ends the session of the row, or leaves all as it is. -/
theorem settled_deleteServer (index : Int) : c.Settled (c.deleteServer index) := by
  unfold deleteServer
  split
  · exact .inl (.refl c)
  · dsimp only
    by_cases hcurrent : index = c.currentIndex
    · rw [if_pos hcurrent]
      exact .inr ⟨rfl, nofun⟩
    · rw [if_neg hcurrent]
      split
      · exact .inl ⟨rfl, rfl⟩
      · exact .inl ⟨rfl, rfl⟩

/-! ## §5. Events and results. -/

/-- An announced state lists the root, forgets the connection, or does no more than it shows. -/
theorem setConnectionState_cases (state : RsSessionState) :
    ∃ d : AppController, Idles c d ∧ d.session = c.session ∧
      (state = .connected ∧ c.setConnectionState state = d.reloadFiles
        ∨ c.setConnectionState state = d.forgetConnection ∨ c.setConnectionState state = d) := by
  have hstatus : Idles c (if 0 ≤ c.currentIndex then
      setStatus { c with connectionState := state } c.currentIndex state
      else { c with connectionState := state }) := by
    split
    · exact (idles_setStatus _ _ _).start rfl rfl
    · exact ⟨rfl, rfl⟩
  have hsession : (if 0 ≤ c.currentIndex then
      setStatus { c with connectionState := state } c.currentIndex state
      else { c with connectionState := state }).session = c.session := by
    split
    · unfold setStatus
      split <;> rfl
    · rfl
  unfold setConnectionState
  dsimp only
  generalize (if 0 ≤ c.currentIndex then
      setStatus { c with connectionState := state } c.currentIndex state
      else { c with connectionState := state }) = d at hstatus hsession ⊢
  cases state with
  | connected =>
    exact ⟨{ d with remoteHomePath := [] }, hstatus.trans (⟨rfl, rfl⟩), hsession, .inl ⟨rfl, rfl⟩⟩
  | disconnected => exact ⟨d, hstatus, hsession, .inr (.inl rfl)⟩
  | failed => exact ⟨d, hstatus, hsession, .inr (.inl rfl)⟩
  | idle => exact ⟨d, hstatus, hsession, .inr (.inr rfl)⟩
  | connecting => exact ⟨d, hstatus, hsession, .inr (.inr rfl)⟩
  | disconnecting => exact ⟨d, hstatus, hsession, .inr (.inr rfl)⟩

/-- Every other event leaves the shelf alone. -/
theorem idles_ingestRustEvent {ev : RustEvent} (h : ∀ state, ev ≠ .stateChanged state) :
    Idles c (c.ingestRustEvent ev) := by
  cases ev with
  | stateChanged state => exact absurd rfl (h state)
  | data data =>
    have h := c.idles_captureResourceOutput data
    unfold ingestRustEvent
    dsimp only
    generalize c.captureResourceOutput data = captured at h ⊢
    obtain ⟨taken, c'⟩ := captured
    cases taken with
    | true => exact h
    | false => exact h.trans (⟨rfl, rfl⟩)
  | error code message => exact ⟨rfl, rfl⟩
  | hostKeyPrompt message => exact ⟨rfl, rfl⟩

/-- A lost connection takes the tree and the commands; the clipboard is kept. -/
theorem shelf_forgetConnection :
    c.forgetConnection.shelf =
      { c.shelf with fileTree := c.fileTree.clearTree, execPending := fun _ => none
                     busy := false } := rfl

/-- Only a success can empty the clipboard, if its request says so. -/
theorem spares_finishMutate (pending : PendingFs) (payload : FsPayload) :
    SparesButTree
      (if payload = .ok ∧ pending.clearClipboard = true then
        { c with clipboardPath := [], clipboardCut := false } else c)
      (c.finishMutate pending payload) := by
  cases payload with
  | ok =>
    unfold finishMutate
    dsimp only
    refine (spares_refreshAfter _ pending).start ?_ ?_
    · cases pending.clearClipboard <;> cases pending.mutation <;> rfl
    · cases pending.clearClipboard <;> cases pending.mutation <;> rfl
  | listing entries => exact (Spares.refl c).butTree
  | content data => exact (Spares.refl c).butTree
  | error code message => exact (Spares.refl c).butTree

theorem shelf_trackMutation (submitted : UInt64 × AppController) (refused : QString)
    (pending : PendingFs) :
    (trackMutation submitted refused pending).shelf = submitted.2.shelf := by
  unfold trackMutation
  split
  · rfl
  · unfold trackFsRequest
    split <;> rfl

/-- The clipboard is kept until the paste is answered. -/
theorem shelf_paste (destDir : QString) : (c.paste destDir).shelf = c.shelf := by
  unfold paste
  split
  · split
    · rfl
    · dsimp only
      split <;> rw [shelf_trackMutation, (spares_submitFs _ _).shelf]
  · rfl

end AppController

/-! ## §6. User actions. -/

/-- The actions that can touch the shelf, or ask for a move that empties the clipboard. -/
def UiAction.usesShelf : UiAction → Bool
  | .connectToServer _ _ | .connectToHost _ _ _ _ _ _ _ _ | .editServer _ _ _ _ _ _ _ _
  | .deleteServer _ | .refreshResourceSnapshot | .refreshEnvironment | .searchPackages _
  | .installPackage _ _ | .updatePackage _ _ | .removePackage _ _ | .reloadFiles | .fetchMore _
  | .copyPath _ | .cutPath _ | .paste _ => true
  | _ => false

/-- An action that does not use the shelf spares it. -/
theorem UiAction.spares_run {action : UiAction} (h : action.usesShelf = false) (handle : Nat)
    (c : AppController) : AppController.Spares c (action.run handle c) := by
  cases action with
  | selectServer index => exact (c.idles_selectServer index).spares
  | disconnectCurrent => exact c.idles_disconnectCurrent.spares
  | cancel => exact .refl c
  | confirmHostKey accept => exact (c.idles_confirmHostKey accept).spares
  | sendCommand text => exact (c.idles_sendCommand text).spares
  | sendInterrupt => exact c.idles_sendInterrupt.spares
  | clearTerminal => exact .same rfl rfl
  | runPythonFile path device => exact (c.idles_runPythonFile path device).spares
  | activateEditorPath path => exact (c.idles_activateEditorPath path).spares
  | closeEditor => exact .same rfl rfl
  | openPath path => exact c.spares_openPath path
  | renamePath path newName => exact c.spares_renamePath path newName
  | deletePath path isDir => exact c.spares_deletePath path isDir
  | makeDir parentDir name => exact c.spares_makeDir parentDir name
  | makeFile parentDir name => exact c.spares_makeFile parentDir name
  | uploadFile destDir localPath fileName contents =>
    exact c.spares_uploadFile destDir localPath fileName contents
  | saveEditor text => exact c.spares_saveEditorPath _ text
  | saveEditorPath path text => exact c.spares_saveEditorPath path text
  | _ => exact absurd h Bool.noConfusion

/-! ## §7. Runs of inputs. -/

/-- What the controller is given: a user action, with the handle that a session it creates would
have; one result or event; or its driver has returned. -/
inductive Input
  | user (handle : Nat) (action : UiAction)
  | item (item : Item)
  | driverStops
  deriving DecidableEq, Repr

namespace AppController

/-- The controller takes an input. -/
def feed (c : AppController) : Input → AppController
  | .user handle action => action.run handle c
  | .item item => c.take item
  | .driverStops => { c with session := c.session.map fun x => { x with stopped := true } }

/-- The same as a step that can always be made. -/
def step (c : AppController) (input : Input) : Option AppController := some (c.feed input)

theorem step_eq_some {c d : AppController} {input : Input} :
    c.step input = some d ↔ c.feed input = d := Option.some_inj

/-- A run is the fold of its inputs. -/
theorem exec_eq_foldl (c : AppController) (inputs : List Input) :
    exec step c inputs = some (inputs.foldl feed c) := by
  induction inputs generalizing c with
  | nil => rfl
  | cons input inputs ih =>
    rw [exec_cons, step, Option.bind_some, ih]
    rfl

/-- A batch of items is taken item by item. -/
theorem foldl_feed_items (c : AppController) (items : List Item) :
    (items.map Input.item).foldl feed c = items.foldl take c := by
  rw [List.foldl_map]
  rfl

end AppController

/-- **Every run of the UI thread is one of inputs**: a delivered batch is given item by item. -/
theorem UiThread.exec_inputs {s t : UiThread} {labels : List UiLabel}
    (h : exec UiThread.step s labels = some t) :
    ∃ inputs, exec AppController.step s.controller inputs = some t.controller := by
  refine exec_invariant (I := fun u =>
    ∃ inputs, exec AppController.step s.controller inputs = some u.controller) ?_ ⟨[], rfl⟩ h
  intro u label v ⟨inputs, hinputs⟩ hstep
  -- one step is some inputs more
  suffices hmore : ∃ more : List Input, v.controller = more.foldl AppController.feed u.controller by
    obtain ⟨more, hmore⟩ := hmore
    refine ⟨inputs ++ more, ?_⟩
    rw [exec_append, hinputs, Option.bind_some, AppController.exec_eq_foldl, hmore]
  cases label with
  | user action =>
    rw [UiThread.step, Option.some.injEq] at hstep
    exact ⟨[.user u.nextHandle action], hstep ▸ rfl⟩
  | calls batch =>
    obtain ⟨_, _, rfl⟩ := UiThread.of_step_calls hstep
    exact ⟨[], rfl⟩
  | driverStops =>
    rw [UiThread.step, Option.some.injEq] at hstep
    exact ⟨[.driverStops], hstep ▸ rfl⟩
  | deliver =>
    obtain ⟨posted, rest, _, rfl⟩ := UiThread.of_step_deliver hstep
    refine ⟨posted.batch.items.map .item, ?_⟩
    rw [AppController.foldl_feed_items, ← AppController.ingest_eq_foldl]

end ResearchSSH.App
