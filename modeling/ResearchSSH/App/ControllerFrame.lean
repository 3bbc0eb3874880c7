/-
  ResearchSSH.App.ControllerFrame — what requests and results leave alone.

  The server list with its credentials, which session the controller has, which row it thinks the
  session belongs to, and what it shows of the connection (`face`) is changed by the server
  actions and by events only.  Every other function of the controller has a lemma here that says
  so.  Events move the status of a row, but not the session or what the rows log in to
  (`binding`).

  Main results:
    * `UiAction.face_run` — an action that is not one of the server list leaves the face alone.
    * `face_setConnectionState` — an announced state is what the current row shows.
-/

import ResearchSSH.App.UiThread

namespace ResearchSSH.App

open ResearchSSH.Core

/-- A login: host, port and user name. -/
structure Login where
  host : QString
  port : UInt16
  username : QString
  deriving DecidableEq, Repr

/-- Where the row logs in. -/
def ServerItem.login (item : ServerItem) : Login :=
  { host := item.host, port := item.port, username := item.username }

/-- Where the session has logged in. -/
def Session.login (s : Session) : Login :=
  { host := s.host, port := s.port, username := s.username }

/-- The session there is, the row it is bound to, and the logins of the rows. -/
structure Binding where
  session : Option (Nat × Login)
  currentIndex : Int
  rows : List Login
  deriving DecidableEq, Repr

/-- The server list, its secrets, and what is shown of the session. -/
structure Face where
  servers : List ServerItem
  credentials : QString → Option (List UInt8)
  session : Option (Nat × Login)
  currentIndex : Int
  selectedIndex : Int
  connectionState : RsSessionState
  currentEndpoint : QString

namespace AppController

variable (c : AppController)

/-- The session, its row and the rows' logins. -/
def binding : Binding :=
  { session := c.session.map fun s => (s.handle, s.login), currentIndex := c.currentIndex
    rows := c.servers.map ServerItem.login }

/-- What decides about sessions and their rows. -/
def face : Face :=
  { servers := c.servers, credentials := c.credentials
    session := c.session.map fun s => (s.handle, s.login), currentIndex := c.currentIndex
    selectedIndex := c.selectedIndex, connectionState := c.connectionState
    currentEndpoint := c.currentEndpoint }

variable {c} in

/-- The face decides about the bindings. -/
theorem binding_of_face {d : AppController} (h : c.face = d.face) : c.binding = d.binding := by
  have hbinding : ∀ c : AppController, c.binding =
      { session := c.face.session, currentIndex := c.face.currentIndex
        rows := c.face.servers.map ServerItem.login } := fun _ => rfl
  rw [hbinding, hbinding, h]

/-- The driver of the session has returned. -/
theorem face_stopped : face { c with
    session := c.session.map fun x => { x with stopped := true } } = c.face := by
  rw [face, Option.map_map]
  rfl

/-! ## §1. Through the bridge. -/

theorem face_submit (command : UInt64 → Command) :
    (c.submit command).2.face = c.face := by
  unfold submit
  cases h : c.session with
  | none => rfl
  | some s =>
    have hsubmit : (s.submit command).2.handle = s.handle ∧ (s.submit command).2.login = s.login := by
      unfold Session.submit
      split <;> exact ⟨rfl, rfl⟩
    simp only [face, h, Option.map_some, hsubmit.1, hsubmit.2]

theorem face_submitFs (op : FsOp) : (c.submitFs op).2.face = c.face := c.face_submit _

theorem face_sendCmd (command : Command) : (c.sendCmd command).2.face = c.face := by
  unfold sendCmd
  cases h : c.session with
  | none => rfl
  | some s =>
    have hsend : (s.send command).2.handle = s.handle ∧ (s.send command).2.login = s.login := by
      unfold Session.send
      split <;> exact ⟨rfl, rfl⟩
    simp only [face, h, Option.map_some, hsend.1, hsend.2]

theorem face_trackFsRequest (id : UInt64) (pending : PendingFs) :
    (c.trackFsRequest id pending).face = c.face := by
  unfold trackFsRequest
  split <;> rfl

theorem face_trackMutation (submitted : UInt64 × AppController) (refused : QString)
    (pending : PendingFs) :
    (trackMutation submitted refused pending).face = submitted.2.face := by
  unfold trackMutation
  split
  · rfl
  · exact face_trackFsRequest _ _ _

/-! ## §2. Files. -/

theorem face_expandDir (path : QString) : (c.expandDir path).face = c.face := by
  unfold expandDir
  split
  · have h := c.face_submitFs (.list (toCore path))
    generalize c.submitFs (.list (toCore path)) = submitted at h ⊢
    obtain ⟨id, c'⟩ := submitted
    dsimp only at h ⊢
    split
    · exact h
    · rw [face_trackFsRequest, h]
  · rfl

theorem face_fetchMore (id : Nat) : (c.fetchMore id).face = c.face := by
  unfold fetchMore
  split
  · exact face_expandDir _ _
  · rfl

theorem face_reloadFiles : c.reloadFiles.face = c.face := by
  unfold reloadFiles
  split
  · exact face_expandDir _ _
  · rfl

theorem face_openPath (path : QString) : (c.openPath path).face = c.face := by
  unfold openPath
  split
  · split
    · rfl
    · dsimp only
      have h := face_submitFs { c with editor := c.editor.beginOpen path }
        (.read (toCore path) editorReadLimit.toUInt64)
      generalize submitFs { c with editor := c.editor.beginOpen path }
        (.read (toCore path) editorReadLimit.toUInt64) = submitted at h ⊢
      obtain ⟨id, c'⟩ := submitted
      dsimp only at h ⊢
      split
      · exact h
      · rw [face_trackFsRequest, h]
        rfl
  · rfl

theorem face_copyPath (path : QString) : (c.copyPath path).face = c.face := by
  unfold copyPath
  split <;> rfl

theorem face_cutPath (path : QString) : (c.cutPath path).face = c.face := by
  unfold cutPath
  split <;> rfl

theorem face_paste (destDir : QString) : (c.paste destDir).face = c.face := by
  unfold paste
  split
  · split
    · rfl
    · dsimp only
      split <;> rw [face_trackMutation, face_submitFs]
  · rfl

theorem face_renamePath (path newName : QString) :
    (c.renamePath path newName).face = c.face := by
  unfold renamePath
  split
  · split
    · rfl
    · split
      · rw [face_trackMutation, face_submitFs]
      · rfl
  · rfl

theorem face_deletePath (path : QString) (isDir : Bool) :
    (c.deletePath path isDir).face = c.face := by
  unfold deletePath
  split
  · split
    · rfl
    · rw [face_trackMutation, face_submitFs]
  · rfl

theorem face_makeDir (parentDir name : QString) :
    (c.makeDir parentDir name).face = c.face := by
  unfold makeDir
  split
  · split
    · rw [face_trackMutation, face_submitFs]
    · rfl
  · rfl

theorem face_makeFile (parentDir name : QString) :
    (c.makeFile parentDir name).face = c.face := by
  unfold makeFile
  split
  · split
    · rw [face_trackMutation, face_submitFs]
    · rfl
  · rfl

theorem face_uploadFile (destDir localPath fileName : QString)
    (contents : Option (List UInt8)) :
    (c.uploadFile destDir localPath fileName contents).face = c.face := by
  unfold uploadFile
  split
  · split
    · rfl
    · rw [face_trackMutation, face_submitFs]
  · rfl

theorem face_saveEditorPath (path text : QString) :
    (c.saveEditorPath path text).face = c.face := by
  unfold saveEditorPath
  split
  · split
    · rfl
    · dsimp only
      have h := face_submitFs { c with editor := (c.editor.activatePath path).beginSave }
        (.write (toCore path) (toUtf8 text))
      generalize submitFs { c with editor := (c.editor.activatePath path).beginSave }
        (.write (toCore path) (toUtf8 text)) = submitted at h ⊢
      obtain ⟨id, c'⟩ := submitted
      dsimp only at h ⊢
      split
      · exact h
      · rw [face_trackFsRequest, h]
        rfl
  · rfl

theorem face_activateEditorPath (path : QString) :
    (c.activateEditorPath path).face = c.face := by
  unfold activateEditorPath
  split <;> rfl

/-! ## §3. Results of files. -/

theorem face_expandSome (dir : Option QString) : (c.expandSome dir).face = c.face := by
  unfold expandSome
  split
  · exact c.face_expandDir _
  · rfl

theorem face_refreshAfter (pending : PendingFs) :
    (c.refreshAfter pending).face = c.face := by
  unfold refreshAfter
  dsimp only
  split
  · split
    · rw [face_expandDir, face_expandSome]
    · exact c.face_expandSome _
  · exact c.face_expandSome _

theorem face_failFileRequest (pending : PendingFs) (code : RsErrorCode) (message : QString) :
    (c.failFileRequest pending code message).face = c.face := by
  unfold failFileRequest
  cases pending.kind with
  | listing =>
    dsimp only
    split
    · split <;> rfl
    · rfl
  | editorOpen => rfl
  | editorSave => rfl
  | mutate => rfl

theorem face_finishListing (pending : PendingFs) (payload : FsPayload) :
    (c.finishListing pending payload).face = c.face := by
  unfold finishListing
  split
  · dsimp only
    split
    · unfold rememberHomeFromRootListing
      split <;> rfl
    · rfl
  · dsimp only
    split <;> rfl

theorem face_finishOpen (pending : PendingFs) (payload : FsPayload) :
    (c.finishOpen pending payload).face = c.face := by
  unfold finishOpen
  split
  · split
    · rfl
    · split <;> rfl
  · rfl

theorem face_finishSave (pending : PendingFs) (payload : FsPayload) :
    (c.finishSave pending payload).face = c.face := by
  unfold finishSave
  split
  · exact face_refreshAfter _ _
  · rfl

theorem face_finishMutate (pending : PendingFs) (payload : FsPayload) :
    (c.finishMutate pending payload).face = c.face := by
  unfold finishMutate
  split
  · dsimp only
    rw [face_refreshAfter]
    cases pending.clearClipboard <;> cases pending.mutation <;> rfl
  · rfl

/-- No file result changes a row or a session. -/
theorem face_ingestFileResult (result : FsResult) :
    (c.ingestFileResult result).face = c.face := by
  unfold ingestFileResult
  split
  · rfl
  · dsimp only
    split
    · exact face_failFileRequest _ _ _ _
    · split
      · exact face_finishListing _ _ _
      · exact face_finishOpen _ _ _
      · exact face_finishSave _ _ _
      · exact face_finishMutate _ _ _

/-- No batch of file results does. -/
theorem face_ingestFileResults (batch : List FsResult) :
    (c.ingestFileResults batch).face = c.face := by
  unfold ingestFileResults
  induction batch generalizing c with
  | nil => rfl
  | cons result batch ih => rw [List.foldl_cons, ih, face_ingestFileResult]

/-! ## §4. Commands. -/

theorem face_submitExec (command : QString) (timeoutMs : UInt64) (kind : PendingExecKind)
    (label : QString) : (c.submitExec command timeoutMs kind label).2.face = c.face := by
  unfold submitExec
  split
  · have h := c.face_submit fun id => .exec id (String.ofList (toCore command)) timeoutMs
    generalize c.submit (fun id => .exec id (String.ofList (toCore command)) timeoutMs)
      = submitted at h ⊢
    obtain ⟨id, c'⟩ := submitted
    dsimp only at h ⊢
    split <;> exact h
  · rfl

theorem face_submitPackage (command : QString) (timeoutMs : UInt64) (kind : PendingExecKind)
    (label failureText : QString) :
    (c.submitPackage command timeoutMs kind label failureText).face = c.face := by
  have h := c.face_submitExec command timeoutMs kind label
  unfold submitPackage
  generalize c.submitExec command timeoutMs kind label = submitted at h ⊢
  obtain ⟨id, c'⟩ := submitted
  dsimp only at h ⊢
  split <;> exact h

theorem face_refreshEnvironment : c.refreshEnvironment.face = c.face := by
  unfold refreshEnvironment
  split
  · split
    · rfl
    · exact face_submitPackage _ _ _ _ _ _
  · rfl

theorem face_searchPackages (query : QString) :
    (c.searchPackages query).face = c.face := by
  unfold searchPackages
  dsimp only
  split
  · rfl
  · split
    · split
      · rfl
      · exact face_submitPackage _ _ _ _ _ _
    · rfl

theorem face_mutatePackage (m : PackageMutation) (manager name : QString) :
    (c.mutatePackage m manager name).face = c.face := by
  unfold mutatePackage
  dsimp only
  split
  · rfl
  · split
    · split
      · rfl
      · split
        · split
          · rfl
          · exact face_submitPackage _ _ _ _ _ _
        · rfl
    · rfl

theorem face_refreshResourceSnapshot : c.refreshResourceSnapshot.face = c.face := by
  unfold refreshResourceSnapshot
  split
  · split
    · rfl
    · have h := face_submitExec
        { c with resources := { busy := true, capture := [], markerTail := [] } }
        resourceSnapshotCommand 8000 .resourceSnapshot (lit "资源快照")
      generalize submitExec { c with resources := { busy := true, capture := [], markerTail := [] } }
        resourceSnapshotCommand 8000 .resourceSnapshot (lit "资源快照") = submitted at h ⊢
      obtain ⟨id, c'⟩ := submitted
      dsimp only at h ⊢
      split <;> exact h
  · rfl

theorem face_finishPackageMutation (result : ExecResult)
    (successText failureText refreshText : QString) :
    (c.finishPackageMutation result successText failureText refreshText).face = c.face := by
  unfold finishPackageMutation
  dsimp only
  split
  · rfl
  · exact face_submitPackage _ _ _ _ _ _

/-- No command's result changes a row or a session. -/
theorem face_ingestExecResult (result : ExecResult) :
    (c.ingestExecResult result).face = c.face := by
  unfold ingestExecResult
  split
  · rfl
  next pending _ =>
    dsimp only
    cases pending.kind with
    | resourceSnapshot => dsimp only; split <;> rfl
    | environmentProbe =>
      dsimp only
      split
      · rfl
      · exact face_submitPackage _ _ _ _ _ _
    | packageList => dsimp only; split <;> rfl
    | packageSearch => dsimp only; split <;> rfl
    | packageInstall => exact face_finishPackageMutation _ _ _ _ _
    | packageUpdate => exact face_finishPackageMutation _ _ _ _ _
    | packageRemove => exact face_finishPackageMutation _ _ _ _ _

/-- No batch of them does. -/
theorem face_ingestExecResults (batch : List ExecResult) :
    (c.ingestExecResults batch).face = c.face := by
  unfold ingestExecResults
  induction batch generalizing c with
  | nil => rfl
  | cons result batch ih => rw [List.foldl_cons, ih, face_ingestExecResult]

theorem face_finishCapture (capture : QString) :
    (c.finishCapture capture).face = c.face := by
  unfold finishCapture
  split
  · rfl
  · split
    · rfl
    · dsimp only
      split <;> rfl

theorem face_captureResourceOutput (data : List UInt8) :
    (c.captureResourceOutput data).2.face = c.face := by
  unfold captureResourceOutput
  split
  · dsimp only
    split
    · split
      · rfl
      · rw [face_finishCapture]
        split <;> rfl
    · exact face_finishCapture _ _
  · rfl

/-! ## §5. Sessions. -/

/-- A status is no part of a login. -/
theorem map_login_modify_status (servers : List ServerItem) (row : Nat) (status : RsSessionState) :
    (servers.modify row fun item => { item with status := status }).map ServerItem.login
      = servers.map ServerItem.login := by
  apply List.ext_getElem?
  intro i
  rw [List.getElem?_map, List.getElem?_map, List.getElem?_modify]
  cases servers[i]? with
  | none => rfl
  | some item =>
    rw [Option.map_some]
    split <;> rfl

/-- A row's status is no part of the bindings. -/
theorem binding_setStatus (row : Int) (status : RsSessionState) :
    (c.setStatus row status).binding = c.binding := by
  unfold setStatus
  split
  · unfold binding
    dsimp only
    rw [map_login_modify_status]
  · rfl

/-- What is selected is no part of the bindings. -/
theorem binding_selectServer (index : Int) : (c.selectServer index).binding = c.binding := by
  unfold selectServer
  split <;> rfl

theorem face_disconnectCurrent : c.disconnectCurrent.face = c.face := by
  unfold disconnectCurrent
  split
  · rfl
  · have h := c.face_sendCmd .disconnect
    generalize c.sendCmd .disconnect = sent at h ⊢
    obtain ⟨rc, c'⟩ := sent
    dsimp only at h ⊢
    split <;> exact h

theorem face_confirmHostKey (accept : Bool) : (c.confirmHostKey accept).face = c.face := by
  unfold confirmHostKey
  split <;> rfl

theorem face_sendTerminalBytes (payload : List UInt8) (failureContext : QString) :
    (c.sendTerminalBytes payload failureContext).2.face = c.face := by
  have h := c.face_sendCmd (.send payload)
  unfold sendTerminalBytes
  generalize c.sendCmd (.send payload) = sent at h ⊢
  obtain ⟨rc, c'⟩ := sent
  dsimp only at h ⊢
  split <;> exact h

theorem face_sendCommand (text : QString) : (c.sendCommand text).face = c.face := by
  unfold sendCommand
  split
  · split
    · rfl
    · exact face_sendTerminalBytes _ _ _
  · rfl

theorem face_sendInterrupt : c.sendInterrupt.face = c.face := by
  unfold sendInterrupt
  split
  · have h := c.face_sendTerminalBytes [0x03] (lit "中止信号发送失败")
    generalize c.sendTerminalBytes [0x03] (lit "中止信号发送失败") = sent at h ⊢
    obtain ⟨taken, c'⟩ := sent
    cases taken <;> exact h
  · rfl

theorem face_runPythonFile (path device : QString) :
    (c.runPythonFile path device).face = c.face := by
  unfold runPythonFile
  split
  · split
    · rfl
    · split
      · rfl
      · exact face_sendTerminalBytes _ _ _
  · rfl

/-- The fields of the face after an announced state: the state, and the status of the row that is
current. -/
theorem face_setConnectionState (state : RsSessionState) :
    (c.setConnectionState state).face =
      { (if 0 ≤ c.currentIndex then c.setStatus c.currentIndex state else c).face with
        connectionState := state } := by
  have hstatus : (if 0 ≤ c.currentIndex then
      setStatus { c with connectionState := state } c.currentIndex state
      else { c with connectionState := state }).face =
      { (if 0 ≤ c.currentIndex then c.setStatus c.currentIndex state else c).face with
        connectionState := state } := by
    unfold setStatus
    by_cases hcurrent : 0 ≤ c.currentIndex
    · rw [if_pos hcurrent, if_pos hcurrent]
      show (if c.isValidIndex c.currentIndex = true then _ else _ : AppController).face = _
      split <;> rfl
    · rw [if_neg hcurrent, if_neg hcurrent]
      rfl
  unfold setConnectionState
  dsimp only
  split
  · rw [face_reloadFiles]
    exact hstatus
  · exact hstatus
  · exact hstatus
  · exact hstatus

/-- A state that is announced leaves the bindings. -/
theorem binding_setConnectionState (state : RsSessionState) :
    (c.setConnectionState state).binding = c.binding := by
  have hbinding : (c.setConnectionState state).binding =
      (if 0 ≤ c.currentIndex then c.setStatus c.currentIndex state else c).binding := by
    show Binding.mk (c.setConnectionState state).face.session
      (c.setConnectionState state).face.currentIndex
      ((c.setConnectionState state).face.servers.map ServerItem.login) = _
    rw [face_setConnectionState]
    rfl
  rw [hbinding]
  split
  · exact c.binding_setStatus _ _
  · rfl

/-- Terminal output, errors and prompts leave the face alone. -/
theorem face_ingestRustEvent {ev : RustEvent} (h : ∀ state, ev ≠ .stateChanged state) :
    (c.ingestRustEvent ev).face = c.face := by
  cases ev with
  | stateChanged state => exact absurd rfl (h state)
  | data data =>
    have h := c.face_captureResourceOutput data
    unfold ingestRustEvent
    dsimp only
    generalize c.captureResourceOutput data = captured at h ⊢
    obtain ⟨taken, c'⟩ := captured
    cases taken <;> exact h
  | error code message => rfl
  | hostKeyPrompt message => rfl

/-- An event leaves the bindings. -/
theorem binding_ingestRustEvent (ev : RustEvent) :
    (c.ingestRustEvent ev).binding = c.binding := by
  by_cases h : ∃ state, ev = .stateChanged state
  · obtain ⟨state, rfl⟩ := h
    exact c.binding_setConnectionState state
  · exact binding_of_face (c.face_ingestRustEvent (not_exists.mp h))

/-- A batch of events leaves the bindings. -/
theorem binding_ingestRustEvents (batch : List RustEvent) :
    (c.ingestRustEvents batch).binding = c.binding := by
  unfold ingestRustEvents
  induction batch generalizing c with
  | nil => rfl
  | cons ev batch ih => rw [List.foldl_cons, ih, binding_ingestRustEvent]

/-- **No delivery binds a session to another row.** -/
theorem binding_ingest (batch : Batch) : (c.ingest batch).binding = c.binding := by
  cases batch with
  | events batch => exact c.binding_ingestRustEvents batch
  | files batch => exact binding_of_face (c.face_ingestFileResults batch)
  | execs batch => exact binding_of_face (c.face_ingestExecResults batch)

variable {c} in

/-- The bindings name the session there is. -/
theorem live_of_binding {d : AppController} (h : c.binding = d.binding) : c.live = d.live := by
  have hlive : ∀ c : AppController, c.live = c.binding.session.map Prod.fst := by
    intro c
    rw [live, binding, Option.map_map]
    rfl
  rw [hlive, hlive, h]

end AppController

/-! ## §6. User actions. -/

/-- The actions that can destroy a session. -/
def UiAction.switches : UiAction → Bool
  | .connectToServer _ _ | .connectToHost _ _ _ _ _ _ _ _ | .editServer _ _ _ _ _ _ _ _
  | .deleteServer _ => true
  | _ => false

/-- What an action that destroys no session does to the face: nothing, unless it selects a
server. -/
theorem UiAction.face_run {action : UiAction} (h : action.switches = false) :
    (∃ index, action = .selectServer index) ∨
      ∀ handle c, (action.run handle c).face = c.face := by
  by_cases hselect : ∃ index, action = .selectServer index
  · exact Or.inl hselect
  refine Or.inr fun handle c => ?_
  cases action with
  | selectServer index => exact absurd ⟨index, rfl⟩ hselect
  | connectToServer _ _ => exact absurd h Bool.noConfusion
  | connectToHost _ _ _ _ _ _ _ _ => exact absurd h Bool.noConfusion
  | editServer _ _ _ _ _ _ _ _ => exact absurd h Bool.noConfusion
  | deleteServer _ => exact absurd h Bool.noConfusion
  | disconnectCurrent => exact c.face_disconnectCurrent
  | cancel => rfl
  | confirmHostKey accept => exact c.face_confirmHostKey accept
  | sendCommand text => exact c.face_sendCommand text
  | sendInterrupt => exact c.face_sendInterrupt
  | clearTerminal => rfl
  | runPythonFile path device => exact c.face_runPythonFile path device
  | refreshResourceSnapshot => exact c.face_refreshResourceSnapshot
  | refreshEnvironment => exact c.face_refreshEnvironment
  | searchPackages query => exact c.face_searchPackages query
  | installPackage manager name => exact c.face_mutatePackage _ manager name
  | updatePackage manager name => exact c.face_mutatePackage _ manager name
  | removePackage manager name => exact c.face_mutatePackage _ manager name
  | activateEditorPath path => exact c.face_activateEditorPath path
  | closeEditor => rfl
  | openPath path => exact c.face_openPath path
  | reloadFiles => exact c.face_reloadFiles
  | fetchMore node => exact c.face_fetchMore node
  | copyPath path => exact c.face_copyPath path
  | cutPath path => exact c.face_cutPath path
  | paste destDir => exact c.face_paste destDir
  | renamePath path newName => exact c.face_renamePath path newName
  | deletePath path isDir => exact c.face_deletePath path isDir
  | makeDir parentDir name => exact c.face_makeDir parentDir name
  | makeFile parentDir name => exact c.face_makeFile parentDir name
  | uploadFile destDir localPath fileName contents =>
    exact c.face_uploadFile destDir localPath fileName contents
  | saveEditor text => exact c.face_saveEditorPath _ text
  | saveEditorPath path text => exact c.face_saveEditorPath path text

/-- Only actions on sessions and rows change the bindings. -/
theorem UiAction.binding_run {action : UiAction} (h : action.switches = false) (handle : Nat)
    (c : AppController) : (action.run handle c).binding = c.binding := by
  rcases UiAction.face_run h with ⟨index, rfl⟩ | hface
  · exact c.binding_selectServer index
  · exact AppController.binding_of_face (hface handle c)

end ResearchSSH.App
