/-
  ResearchSSH.App.AppController — the controller's state, and its file requests.

  Everything here runs on the UI thread.  A request to the core goes through the handle of the
  session: it is given the next id of THIS session, and what is to be done with its result is
  kept under that id in `m_fsPending`.  The ids of a session begin at 1; nothing in an id or in a
  result tells which session it belongs to.

  A session is known here by what its handle does: the command queue takes commands until the
  driver has stopped, after which every request is refused with the id 0.

  Signals that only make QML read a property again are not part of the model; what a signal tells
  the editor pane is (`EditorViewModel.emitted`).
-/

import ResearchSSH.App.EditorViewModel
import ResearchSSH.App.PackageText
import ResearchSSH.App.RemoteFileTree
import ResearchSSH.Core.Driver

namespace ResearchSSH.App

open ResearchSSH.Core

/-! ## §1. Data. -/

/-- The providers a server entry can name. -/
inductive ProviderKind
  | mock | russh
  deriving DecidableEq, Repr

/-- A row of the server list. -/
structure ServerItem where
  name : QString
  host : QString
  port : UInt16
  username : QString
  provider : ProviderKind
  status : RsSessionState
  keyPath : QString
  deriving DecidableEq, Repr

/-- A session as its handle knows it.  `handle` tells sessions apart, as the address does while
a session lives. -/
structure Session where
  handle : Nat
  host : QString
  port : UInt16
  username : QString
  provider : ProviderKind
  nextRequestId : UInt64
  /-- The driver has returned and dropped the receiver of the command queue. -/
  stopped : Bool
  sent : List Command
  deriving DecidableEq, Repr

/-- What a file request was made for. -/
inductive PendingFsKind
  | listing | editorOpen | editorSave | mutate
  deriving DecidableEq, Repr

/-- What a change of the tree does when it has succeeded. -/
inductive Mutation
  | noMutation | createLike | copyLike | moveLike | deleteLike
  deriving DecidableEq, Repr

/-- What to do with the result of a file request.  A directory to refresh is `none` where the
source has a null string. -/
structure PendingFs where
  kind : PendingFsKind
  path : QString
  refreshDir : Option QString
  extraRefreshDir : Option QString
  clearClipboard : Bool
  mutation : Mutation
  destinationPath : QString
  recursive : Bool
  deriving DecidableEq, Repr

/-- A listing, open or save request with the defaults for what only mutations use. -/
def PendingFs.plain (kind : PendingFsKind) (path : QString) (refreshDir : Option QString) :
    PendingFs :=
  { kind := kind, path := path, refreshDir := refreshDir, extraRefreshDir := none
    clearClipboard := false, mutation := .noMutation, destinationPath := [], recursive := false }

/-- What a command was run for. -/
inductive PendingExecKind
  | resourceSnapshot | environmentProbe | packageList | packageSearch | packageInstall
  | packageUpdate | packageRemove
  deriving DecidableEq, Repr

/-- What is remembered of a command, under its id. -/
structure PendingExec where
  kind : PendingExecKind
  label : QString
  deriving DecidableEq, Repr

/-- The members behind the package pane. -/
structure PackageData where
  tools : List PackageTool
  installed : List InstalledPackage
  searchResults : List FoundPackage
  statusText : QString
  logText : QString
  busy : Bool
  deriving DecidableEq, Repr

/-- The package pane before any session. -/
def PackageData.initial : PackageData :=
  { tools := [], installed := [], searchResults := [], statusText := lit "连接后可扫描环境"
    logText := [], busy := false }

/-- The members behind the capture of a resource snapshot; what a snapshot shows is not part of
the model. -/
structure ResourceCapture where
  busy : Bool
  capture : QString
  markerTail : QString
  deriving DecidableEq, Repr

/-- No resource snapshot is under way. -/
def ResourceCapture.idle : ResourceCapture := { busy := false, capture := [], markerTail := [] }

/-- What the terminal view model is given. -/
inductive TerminalInput
  | bytes (data : List UInt8)
  | notice (text : QString)
  deriving DecidableEq, Repr

/-- The controller with all the data that its operations read and write. -/
structure AppController where
  servers : List ServerItem
  credentials : QString → Option (List UInt8)
  session : Option Session
  currentIndex : Int
  selectedIndex : Int
  connectionState : RsSessionState
  currentEndpoint : QString
  fsPending : UInt64 → Option PendingFs
  execPending : UInt64 → Option PendingExec
  clipboardPath : QString
  clipboardCut : Bool
  remoteHomePath : QString
  fileAvailable : Bool
  fileStatusText : QString
  resources : ResourceCapture
  packages : PackageData
  terminal : List TerminalInput
  hostKeyPrompts : List QString
  fileTree : RemoteFileTreeModel
  editor : EditorViewModel

/-! ## §2. Results, as the bridge copies them out. -/

/-- An event as the bridge hands it over. -/
inductive RustEvent
  | stateChanged (state : RsSessionState)
  | data (bytes : List UInt8)
  | error (code : RsErrorCode) (message : QString)
  | hostKeyPrompt (message : QString)
  deriving DecidableEq, Repr

/-- What a file result carries. -/
inductive FsPayload
  | listing (entries : List FsEntry)
  | content (data : List UInt8)
  | ok
  | error (code : RsErrorCode) (message : QString)
  deriving DecidableEq, Repr

/-- A file result as the bridge hands it over. -/
structure FsResult where
  requestId : UInt64
  payload : FsPayload
  deriving DecidableEq, Repr

/-- The result of a command as the bridge hands it over. -/
structure ExecResult where
  requestId : UInt64
  isError : Bool
  stdoutData : List UInt8
  stderrData : List UInt8
  exitStatus : Int32
  message : QString
  deriving DecidableEq, Repr

/-! ## §3. Through the bridge. -/

/-- `RustCoreBridge::describe`. -/
def describe (code : RsErrorCode) : QString := lit code.message

namespace Session

/-- `Session::next_id` and the send that follows it; 0 where the queue is closed. -/
def submit (s : Session) (command : UInt64 → Command) : UInt64 × Session :=
  let id := s.nextRequestId + 1
  -- A refused request has used up its id.
  if s.stopped then (0, { s with nextRequestId := id })
  else (id, { s with nextRequestId := id, sent := s.sent ++ [command id] })

/-- `Session::send_cmd`. -/
def send (s : Session) (command : Command) : RsErrorCode × Session :=
  if s.stopped then (.runtimeError, s) else (.ok, { s with sent := s.sent ++ [command] })

end Session

namespace AppController

/-- The controller as it is constructed, with the servers that were saved. -/
def initial (servers : List ServerItem) (credentials : QString → Option (List UInt8)) :
    AppController :=
  { servers := servers, credentials := credentials, session := none, currentIndex := -1
    selectedIndex := if servers = [] then -1 else 0, connectionState := .idle
    currentEndpoint := [], fsPending := fun _ => none, execPending := fun _ => none
    clipboardPath := [], clipboardCut := false, remoteHomePath := []
    fileAvailable := false, fileStatusText := lit "连接后显示远端文件"
    resources := .idle, packages := .initial, terminal := [], hostKeyPrompts := []
    fileTree := .initial, editor := .initial }

variable (c : AppController)

/-- `m_terminal->appendNotice`. -/
def appendNotice (text : QString) : AppController :=
  { c with terminal := c.terminal ++ [.notice text] }

/-- `m_session && m_connectionState == RsSessionState_Connected`, the guard of every request. -/
def ready : Bool := c.session.isSome && c.connectionState = .connected

/-- A request through the handle of the session; a null handle answers 0. -/
def submit (command : UInt64 → Command) : UInt64 × AppController :=
  match c.session with
  | none => (0, c)
  | some s => ((s.submit command).1, { c with session := some (s.submit command).2 })

/-- The `fs*` calls of the bridge. -/
def submitFs (op : FsOp) : UInt64 × AppController := c.submit fun id => .fs id op

/-- A command through the handle of the session. -/
def sendCmd (command : Command) : RsErrorCode × AppController :=
  match c.session with
  | none => (.nullArgument, c)
  | some s => ((s.send command).1, { c with session := some (s.send command).2 })

/-- `trackFsRequest`: the entry its result will be looked up under. -/
def trackFsRequest (requestId : UInt64) (pending : PendingFs) : AppController :=
  -- 0 is no request: it would be the key of every refused one.
  if requestId = 0 then c
  else { c with fsPending := Function.update c.fsPending requestId (some pending) }

/-- `clearPendingFs`: a session that ends is waited for no longer. -/
def clearPendingFs : AppController := { c with fsPending := fun _ => none }

/-- `setFileStatus`. -/
def setFileStatus (available : Bool) (text : QString) : AppController :=
  { c with fileAvailable := available, fileStatusText := text }

/-! ## §4. Directories. -/

/-- `expandDir`: asks for the listing of a directory. -/
def expandDir (path : QString) : AppController :=
  if c.ready then
    match c.submitFs (.list (toCore path)) with
    | (id, c) =>
      if id = 0 then
        { c with fileTree := c.fileTree.markLoadFailed path }.appendNotice
          (lit "无法提交目录加载请求。")
      else c.trackFsRequest id (.plain .listing path none)
  else { c with fileTree := c.fileTree.markLoadFailed path }

/-- `m_fileTree->fetchMore`, with the signal it emits. -/
def fetchMore (id : Nat) : AppController :=
  match c.fileTree.fetchMore id with
  | (tree, some path) => { c with fileTree := tree }.expandDir path
  | (tree, none) => { c with fileTree := tree }

/-- `reloadFiles`: starts the tree anew from the root. -/
def reloadFiles : AppController :=
  if c.ready then
    -- The old tree goes at once; the new root waits for its listing.
    let c := { c with fileTree := c.fileTree.clearTree }.setFileStatus false
      (lit "正在加载远端文件...")
    { c with fileTree := c.fileTree.loadRoot }.expandDir []
  else
    { c with fileTree := c.fileTree.clearTree }.setFileStatus false (lit "连接后显示远端文件")

/-- `targetDirForWrite`: what is written without a directory goes to the home directory. -/
def targetDirForWrite (dir : QString) : QString :=
  if (dir = [] ∨ dir = lit ".") ∧ c.remoteHomePath ≠ [] then c.remoteHomePath else dir

/-- A null string where the path has no parent. -/
def parentOrNull (path : QString) : Option QString :=
  if parentDirOf path = [] then none else some (parentDirOf path)

/-! ## §5. File actions. -/

/-- `kEditorReadLimit`. -/
def editorReadLimit : Nat := 2 * 1024 * 1024

/-- `openPath`: asks for the content of a file. -/
def openPath (path : QString) : AppController :=
  if c.ready then
    if path = [] then c
    else
      -- The editor is busy before it is known whether the request is taken.
      let c := { c with editor := c.editor.beginOpen path }
      match c.submitFs (.read (toCore path) editorReadLimit.toUInt64) with
      | (id, c) =>
        if id = 0 then
          { c with editor := c.editor.failOpen path (lit "无法提交读取请求。") }.appendNotice
            (lit "无法提交读取请求。")
        else c.trackFsRequest id (.plain .editorOpen path none)
  else c.appendNotice (lit "未连接,无法打开远端文件。")

/-- `copyPath`. -/
def copyPath (path : QString) : AppController :=
  if path = [] then c
  else
    { c with clipboardPath := path, clipboardCut := false }.appendNotice
      (arg (lit "已复制远端路径：%1") [path])

/-- `cutPath`. -/
def cutPath (path : QString) : AppController :=
  if path = [] then c
  else
    { c with clipboardPath := path, clipboardCut := true }.appendNotice
      (arg (lit "已剪切远端路径：%1") [path])

/-- The end of every mutation: a refused request is reported, any other is tracked. -/
def trackMutation (submitted : UInt64 × AppController) (refused : QString)
    (pending : PendingFs) : AppController :=
  if submitted.1 = 0 then submitted.2.appendNotice refused
  else submitted.2.trackFsRequest submitted.1 pending

/-- `paste`: a copy or, for a cut path, a rename into the directory. -/
def paste (destDir : QString) : AppController :=
  if c.ready then
    if c.clipboardPath = [] then c.appendNotice (lit "没有可粘贴的远端路径。")
    else
      let source := c.clipboardPath
      let dest := joinRemotePath (c.targetDirForWrite destDir) (baseNameOf source)
      -- A cut moves the file and empties the clipboard once the move has succeeded.
      if c.clipboardCut then
        trackMutation (c.submitFs (.rename (toCore source) (toCore dest)))
          (lit "无法提交剪切请求。")
          { kind := .mutate, path := source, refreshDir := some destDir
            extraRefreshDir := parentOrNull source, clearClipboard := true
            mutation := .moveLike, destinationPath := dest, recursive := false }
      else
        trackMutation (c.submitFs (.copy (toCore source) (toCore dest)))
          (lit "无法提交复制请求。")
          { kind := .mutate, path := dest, refreshDir := some destDir, extraRefreshDir := none
            clearClipboard := false, mutation := .copyLike, destinationPath := dest
            recursive := false }
  else c.appendNotice (lit "未连接,无法粘贴远端文件。")

/-- `renamePath`: a new name in the same directory. -/
def renamePath (path newName : QString) : AppController :=
  if c.ready then
    if path = [] then c
    else if isValidRemoteName newName then
      let dest := joinRemotePath (parentDirOf path) (trimmed newName)
      trackMutation (c.submitFs (.rename (toCore path) (toCore dest)))
        (lit "无法提交重命名请求。")
        { kind := .mutate, path := path, refreshDir := parentOrNull path, extraRefreshDir := none
          clearClipboard := false, mutation := .moveLike, destinationPath := dest
          recursive := false }
    else c.appendNotice (lit "名称无效：不能包含路径分隔符。")
  else c.appendNotice (lit "未连接,无法重命名远端路径。")

/-- `deletePath`: directories are removed with what they hold. -/
def deletePath (path : QString) (isDir : Bool) : AppController :=
  if c.ready then
    if path = [] then c
    else
      trackMutation (c.submitFs (.remove (toCore path) isDir)) (lit "无法提交删除请求。")
        { kind := .mutate, path := path, refreshDir := parentOrNull path, extraRefreshDir := none
          clearClipboard := false, mutation := .deleteLike, destinationPath := []
          recursive := isDir }
  else c.appendNotice (lit "未连接,无法删除远端路径。")

/-- What is kept for a request that creates `path` in `dir`. -/
def pendingCreate (path dir : QString) : PendingFs :=
  { kind := .mutate, path := path, refreshDir := some dir, extraRefreshDir := none
    clearClipboard := false, mutation := .createLike, destinationPath := path
    recursive := false }

/-- `makeDir`. -/
def makeDir (parentDir name : QString) : AppController :=
  if c.ready then
    if isValidRemoteName name then
      let path := joinRemotePath (c.targetDirForWrite parentDir) (trimmed name)
      trackMutation (c.submitFs (.mkdir (toCore path))) (lit "无法提交新建目录请求。")
        (pendingCreate path parentDir)
    else c.appendNotice (lit "目录名称无效：不能包含路径分隔符。")
  else c.appendNotice (lit "未连接,无法创建远端目录。")

/-- A new file is an empty write. -/
def makeFile (parentDir name : QString) : AppController :=
  if c.ready then
    if isValidRemoteName name then
      let path := joinRemotePath (c.targetDirForWrite parentDir) (trimmed name)
      -- Nothing asks whether the directory has a file of this name.
      trackMutation (c.submitFs (.write (toCore path) [])) (lit "无法提交新建文件请求。")
        (pendingCreate path parentDir)
    else c.appendNotice (lit "文件名称无效：不能包含路径分隔符。")
  else c.appendNotice (lit "未连接,无法创建远端文件。")

/-- `uploadFile`, with the local file's path, its name and its contents if it can be read. -/
def uploadFile (destDir localPath fileName : QString) (contents : Option (List UInt8)) :
    AppController :=
  if c.ready then
    match (if localPath = [] then none else contents) with
    | none => c.appendNotice (arg (lit "无法读取本地文件：%1") [localPath])
    | some data =>
      let dest := joinRemotePath (c.targetDirForWrite destDir) fileName
      trackMutation (c.submitFs (.write (toCore dest) data)) (lit "无法提交上传请求。")
        (pendingCreate dest destDir)
  else c.appendNotice (lit "未连接,无法上传文件。")

/-- `saveEditorPath`: writes a text back to its path. -/
def saveEditorPath (path text : QString) : AppController :=
  if c.ready then
    if path = [] then c
    else
      -- Activating the path opens the editor: a closed one would not begin to save.
      let c := { c with editor := (c.editor.activatePath path).beginSave }
      match c.submitFs (.write (toCore path) (toUtf8 text)) with
      | (id, c) =>
        if id = 0 then
          { c with editor := c.editor.finishSave false (lit "无法提交保存请求。") path }.appendNotice
            (lit "无法提交保存请求。")
        else c.trackFsRequest id (.plain .editorSave path (parentOrNull path))
  else c.appendNotice (lit "未连接,无法保存远端文件。")

/-- `saveEditor`: the path is the editor's own. -/
def saveEditor (text : QString) : AppController := c.saveEditorPath c.editor.path text

/-- `activateEditorPath`. -/
def activateEditorPath (path : QString) : AppController :=
  if path = [] then c else { c with editor := c.editor.activatePath path }

/-- `closeEditor`. -/
def closeEditor : AppController := { c with editor := c.editor.close }

/-! ## §6. File results. -/

/-- `looksLikeTextBuffer`: no NUL, few other control bytes, no invalid UTF-8. -/
def looksLikeTextBuffer (data : List UInt8) : Bool :=
  if data = [] then true
  else if data.contains 0 then false
  else
    -- Line ends and tabs are the only control bytes of a text.
    let suspicious := data.countP fun b => b < 0x20 && b ≠ 0x0a && b ≠ 0x0d && b ≠ 0x09
    if suspicious > data.length / 100 then false else !hasUtf8Error 0 data

/-- `rememberHomeFromRootListing`: the directory in which the entries of the root listing lie. -/
def rememberHomeFromRootListing (entries : List FsEntry) : AppController :=
  match (entries.map fun e => parentDirOf e.path).find? (· ≠ []) with
  | some parent => { c with remoteHomePath := parent }
  | none => c

/-- `expandDir`, unless the directory is a null string. -/
def expandSome (dir : Option QString) : AppController :=
  match dir with
  | some dir => c.expandDir dir
  | none => c

/-- The two refreshes after a request that changed directories. -/
def refreshAfter (pending : PendingFs) : AppController :=
  let c := c.expandSome pending.refreshDir
  match pending.extraRefreshDir with
  -- A move inside one directory refreshes it once.
  | some dir => if dir ≠ pending.refreshDir.getD [] then c.expandDir dir else c
  | none => c

/-- The error branch of `ingestFileResults`. -/
def failFileRequest (pending : PendingFs) (code : RsErrorCode) (message : QString) :
    AppController :=
  let msg := if message = [] then describe code else message
  let c :=
    match pending.kind with
    | .listing =>
      let c := { c with fileTree := c.fileTree.markLoadFailed pending.path }
      if pending.path = [] then
        if code = RsErrorCode.providerUnavailable then
          c.setFileStatus false (lit "文件传输不可用：当前 SSH 会话没有打开 SFTP 子系统。")
        else c.setFileStatus false (arg (lit "远端文件加载失败：%1") [msg])
      else c
    -- The pane is given the message as it came, not the one shown in the terminal.
    | .editorOpen => { c with editor := c.editor.failOpen pending.path message }
    | .editorSave => { c with editor := c.editor.finishSave false msg pending.path }
    | .mutate => c
  c.appendNotice (arg (lit "文件操作失败：%1") [msg])

/-- The result of a listing. -/
def finishListing (pending : PendingFs) : FsPayload → AppController
  | .listing entries =>
    let c :=
      if pending.path = [] then
        (c.rememberHomeFromRootListing entries).setFileStatus true
          (if entries = [] then lit "远端文件已就绪：当前目录为空" else lit "远端文件已就绪")
      else c
    { c with fileTree := c.fileTree.applyListing pending.path entries }
  | _ =>
    let c := if pending.path = [] then
               c.setFileStatus false (lit "远端文件加载失败：返回结果类型不匹配。")
             else c
    { c with fileTree := c.fileTree.markLoadFailed pending.path }

/-- A file that is not shown: the pane is told, and the reason goes to the terminal. -/
def refuseOpen (path reason notice : QString) : AppController :=
  { c with editor := c.editor.failOpen path reason }.appendNotice notice

/-- The result of an open. -/
def finishOpen (pending : PendingFs) : FsPayload → AppController
  | .content data =>
    -- A read is cut at the limit, so a file as long as it may have been cut.
    if editorReadLimit ≤ data.length then
      c.refuseOpen pending.path (lit "文件达到编辑器读取上限。")
        (arg (lit "拒绝打开：文件达到编辑器读取上限 %1 MB。") [number (editorReadLimit / 1024 / 1024)])
    else if looksLikeTextBuffer data then
      { c with editor := c.editor.setContent pending.path data }.appendNotice
        (arg (lit "已打开远端文件：%1") [pending.path])
    else
      c.refuseOpen pending.path (lit "该文件看起来不是 UTF-8 文本。")
        (lit "拒绝打开：该文件看起来不是 UTF-8 文本。")
  | _ =>
    c.refuseOpen pending.path (lit "返回结果类型不匹配。")
      (lit "打开文件失败：返回结果类型不匹配。")

/-- The result of a save. -/
def finishSave (pending : PendingFs) : FsPayload → AppController
  | .ok =>
    let c := { c with editor := c.editor.finishSave true [] pending.path }.appendNotice
      (arg (lit "已保存远端文件：%1") [pending.path])
    c.refreshAfter pending
  | _ =>
    { c with editor := c.editor.finishSave false (lit "保存失败：返回结果类型不匹配。")
                         pending.path }.appendNotice
      (lit "保存失败：返回结果类型不匹配。")

/-- The result of a mutation. -/
def finishMutate (pending : PendingFs) : FsPayload → AppController
  | .ok =>
    let c := c.appendNotice (lit "文件操作完成。")
    let c :=
      match pending.mutation with
      -- Open documents follow what became of their files.
      | .deleteLike => { c with editor := c.editor.removePath pending.path pending.recursive }
      | .moveLike => { c with editor := c.editor.movePath pending.path pending.destinationPath }
      | _ => c
    let c := if pending.clearClipboard then { c with clipboardPath := [], clipboardCut := false }
             else c
    c.refreshAfter pending
  | _ => c

/-- One turn of `ingestFileResults`: a result is dispatched by its id alone. -/
def ingestFileResult (result : FsResult) : AppController :=
  match c.fsPending result.requestId with
  | none => c
  | some pending =>
    let c := { c with fsPending := Function.update c.fsPending result.requestId none }
    match result.payload with
    | .error code message => c.failFileRequest pending code message
    | payload =>
      match pending.kind with
      | .listing => c.finishListing pending payload
      | .editorOpen => c.finishOpen pending payload
      | .editorSave => c.finishSave pending payload
      | .mutate => c.finishMutate pending payload

/-- `ingestFileResults`: the results of a batch, one after another. -/
def ingestFileResults (batch : List FsResult) : AppController :=
  batch.foldl ingestFileResult c

end AppController

end ResearchSSH.App
