/-
  ResearchSSH.App.ControllerSessions — servers, the session of the controller, and its events.

  The controller has at most one session.  To switch servers it destroys the session it has
  (`teardownSession`) and creates another one for the new row; `m_connectionState` is only moved
  by the `StateChanged` events that come in.
-/

import ResearchSSH.App.ControllerTasks

namespace ResearchSSH.App

open ResearchSSH.Core

/-! ## §1. The server list. -/

/-- `ServerListModel::addServer`. -/
def newServer (name host : QString) (port : UInt16) (username : QString) (provider : ProviderKind)
    (keyPath : QString) : ServerItem :=
  { name := if name = [] then host else name, host := host, port := port, username := username
    provider := provider, status := .idle, keyPath := keyPath }

/-- An entry of the saved server list. -/
structure SavedServer where
  name : QString
  host : QString
  port : Int
  username : QString
  keyPath : QString
  deriving DecidableEq, Repr

/-- `loadServers`: entries without a host or a user name are skipped. -/
def loadServers (saved : List SavedServer) : List ServerItem :=
  saved.filterMap fun entry =>
    let host := trimmed entry.host
    let username := trimmed entry.username
    if host = [] ∨ username = [] then none
    else some (newServer entry.name host (entry.port % 65536).toNat.toUInt16 username .russh
      entry.keyPath)

/-- A row that was loaded is idle. -/
theorem status_loadServers {saved : List SavedServer} {item : ServerItem}
    (h : item ∈ loadServers saved) : item.status = .idle := by
  obtain ⟨entry, -, hentry⟩ := List.mem_filterMap.mp h
  dsimp only at hentry
  split at hentry
  · exact absurd hentry (Option.some_ne_none item).symm
  · rw [Option.some.injEq] at hentry
    rw [← hentry]
    rfl

/-- `static_cast<quint16>(port)` of a positive port, else 22. -/
def portOf (port : Int) : UInt16 := if port > 0 then port.toNat.toUInt16 else 22

namespace AppController

variable (c : AppController)

/-- `isValidIndex` of the server list. -/
def isValidIndex (row : Int) : Bool := 0 ≤ row && row < c.servers.length

/-- `setStatus`: nothing happens to a row that is not there. -/
def setStatus (row : Int) (status : RsSessionState) : AppController :=
  if c.isValidIndex row then
    { c with servers := c.servers.modify row.toNat fun item => { item with status := status } }
  else c

/-- `ServerListModel::updateServer`, and whether it took the values. -/
def updateServer (row : Int) (name host : QString) (port : Int) (username : QString)
    (provider : ProviderKind) (keyPath : QString) : Bool × AppController :=
  if !c.isValidIndex row ∨ trimmed host = [] ∨ trimmed username = [] ∨ port ≤ 0 ∨ port > 65535 then
    (false, c)
  else
    (true,
      { c with servers := c.servers.modify row.toNat fun item =>
          { item with name := if trimmed name = [] then trimmed host else trimmed name
                      host := trimmed host, port := portOf port, username := trimmed username
                      provider := provider, keyPath := trimmed keyPath } })

/-- The key of a login in the credential store. -/
def endpoint (username host : QString) (port : UInt16) : QString :=
  arg (arg (lit "%1@%2:%3") [username, host]) [number port.toNat]

/-- `endpointFor`: the key under which a row's credentials lie. -/
def endpointFor (index : Int) : QString :=
  match c.servers[index.toNat]? with
  | none => []
  | some item => endpoint item.username item.host item.port

/-- `selectServer`. -/
def selectServer (index : Int) : AppController :=
  if c.isValidIndex index ∧ index ≠ c.selectedIndex then { c with selectedIndex := index } else c

/-! ## §2. Credentials. -/

/-- The key of a login's passphrase. -/
def keyPassKey (endpoint : QString) : QString := endpoint ++ lit "#keypass"

/-- `CredentialStore::store`. -/
def storeSecret (key : QString) (secret : List UInt8) : AppController :=
  { c with credentials := Function.update c.credentials key (some secret) }

/-- `CredentialStore::remove`. -/
def removeSecret (key : QString) : AppController :=
  { c with credentials := Function.update c.credentials key none }

/-- `CredentialStore::load`: empty where nothing is stored. -/
def loadSecret (key : QString) : List UInt8 := (c.credentials key).getD []

/-- The move of one secret in `editServer`: a new value replaces it, an old one follows its
endpoint. -/
def editSecret (oldKey newKey : QString) (changed : Bool) (old : Option (List UInt8))
    (value : QString) : AppController :=
  if value ≠ [] then
    let c := c.storeSecret newKey (toUtf8 value)
    if changed then c.removeSecret oldKey else c
  else
    match old with
    | some secret =>
      if changed then (c.storeSecret newKey secret).removeSecret oldKey else c
    | none => c

/-! ## §3. Teardown. -/

/-- `teardownSession`: the session is destroyed and everything that belonged to it forgotten.
What its callbacks have already queued is not in the controller's hands. -/
def teardownSession : AppController :=
  let c := { c with session := none }.clearPendingFs
  let c := { c with clipboardPath := [], clipboardCut := false, remoteHomePath := []
                    resources := .idle, execPending := fun _ => none, packages := .initial }
  let c := c.setFileStatus false (lit "连接后显示远端文件")
  { c with fileTree := c.fileTree.clearTree, editor := c.editor.removePath [] true
           currentIndex := -1 }

/-- What `editServer` and `deleteServer` do to the session of the row they change. -/
def dropCurrentSession : AppController :=
  { c.teardownSession with connectionState := .idle, currentEndpoint := [] }

/-! ## §4. Connecting. -/

/-- What the core answers to `createSession`. -/
inductive Created
  | session (handle : Nat)
  | failed (code : RsErrorCode)
  deriving DecidableEq, Repr

/-- The body of `connectToServer` where there is no session: one is created and given the
secrets stored for its endpoint. -/
def openSession (index : Int) (item : ServerItem) (handle : Nat) : AppController :=
  let session : Session :=
    { handle := handle, host := item.host, port := item.port, username := item.username
      provider := item.provider, nextRequestId := 0, stopped := false, sent := [] }
  let endpoint := c.endpointFor index
  let c := { c with session := some session, currentIndex := index, currentEndpoint := endpoint }
  let secret := c.loadSecret endpoint
  let c := if secret = [] then c else (c.sendCmd (.setSecret secret)).2
  let keyPath := toCore item.keyPath
  let keyPass := c.loadSecret (keyPassKey endpoint)
  (c.sendCmd (.setPrivateKey (if keyPath = [] then none else some (String.ofList keyPath))
    (if keyPass = [] then none else some keyPass))).2

/-- The end of `connectToServer`: ask the session there is to connect. -/
def requestConnect : AppController :=
  let c := c.appendNotice (arg (lit "正在连接 %1 …") [c.currentEndpoint])
  match c.sendCmd .connect with
  | (rc, c) =>
    if rc = .ok then c else c.appendNotice (arg (lit "连接请求被拒绝：%1") [describe rc])

/-- `connectToServer`: any session there is goes first, then the row gets its own. -/
def connectToServer (index : Int) (created : Created) : AppController :=
  match (if c.isValidIndex index then c.servers[index.toNat]? else none) with
  | none => c
  | some item =>
    let c := c.selectServer index
    -- One session at a time: that of another row is destroyed before this row gets its own.
    let c := if c.session.isSome ∧ c.currentIndex ≠ index then c.teardownSession else c
    match c.session with
    -- The row's own session is asked again; its driver refuses if it is connecting or connected.
    | some _ => c.requestConnect
    | none =>
      match created with
      | .session handle => (c.openSession index item handle).requestConnect
      | .failed code =>
        (c.appendNotice (arg (lit "创建会话失败：%1") [describe code])).setStatus index .failed

/-- `connectToHost`: a new row for the login, its secrets, and a session for it. -/
def connectToHost (host : QString) (port : Int) (username password name keyPath keyPassphrase : QString)
    (created : Created) : AppController :=
  if host = [] ∨ username = [] then c.appendNotice (lit "主机和用户名不能为空。")
  else
    let p := portOf port
    let index : Int := c.servers.length
    let c := { c with servers := c.servers ++ [newServer name host p username .russh keyPath] }
    let key := endpoint username host p
    let c := if password = [] then c else c.storeSecret key (toUtf8 password)
    let c := if keyPassphrase = [] then c
             else c.storeSecret (keyPassKey key) (toUtf8 keyPassphrase)
    c.connectToServer index created

/-- `editServer`. -/
def editServer (index : Int) (host : QString) (port : Int)
    (username password name keyPath keyPassphrase : QString) : AppController :=
  if !c.isValidIndex index then c
  else
    let cleanHost := trimmed host
    let cleanUser := trimmed username
    if cleanHost = [] ∨ cleanUser = [] ∨ port ≤ 0 ∨ port > 65535 then
      c.appendNotice (lit "服务器配置无效：主机、用户名和端口不能为空。")
    else
      let oldEndpoint := c.endpointFor index
      let newEndpoint := endpoint cleanUser cleanHost (portOf port)
      -- Both secrets are read under the old endpoint before the row takes its new values.
      let changed := oldEndpoint ≠ newEndpoint
      let oldPassword := c.credentials oldEndpoint
      let oldKeyPass := c.credentials (keyPassKey oldEndpoint)
      let c := if index = c.currentIndex then c.dropCurrentSession else c
      match c.updateServer index name cleanHost port cleanUser .russh keyPath with
      | (false, c) => c.appendNotice (lit "服务器配置更新失败。")
      | (true, c) =>
        let c := c.setStatus index .idle
        let c := c.editSecret oldEndpoint newEndpoint changed oldPassword password
        let c := c.editSecret (keyPassKey oldEndpoint) (keyPassKey newEndpoint) changed oldKeyPass
          keyPassphrase
        (c.selectServer index).appendNotice (arg (lit "已更新服务器：%1") [newEndpoint])

/-- `deleteServer`: the row goes, and with it its credentials. -/
def deleteServer (index : Int) : AppController :=
  if !c.isValidIndex index then c
  else
    let endpoint := c.endpointFor index
    let c :=
      if index = c.currentIndex then c.dropCurrentSession
      -- The rows behind the deleted one move up.
      else if c.currentIndex > index then { c with currentIndex := c.currentIndex - 1 }
      else c
    let c := (c.removeSecret endpoint).removeSecret (keyPassKey endpoint)
    let c := { c with servers := c.servers.eraseIdx index.toNat }
    let count : Int := c.servers.length
    let nextSelected :=
      if c.selectedIndex = index then if count = 0 then -1 else min index (count - 1)
      else if c.selectedIndex > index then c.selectedIndex - 1
      else c.selectedIndex
    { c with selectedIndex := nextSelected }.appendNotice
      (arg (lit "已删除服务器：%1") [endpoint])

/-! ## §5. The session's commands. -/

/-- `disconnectCurrent`. -/
def disconnectCurrent : AppController :=
  if c.session.isNone then c
  else
    match c.sendCmd .disconnect with
    | (rc, c) =>
      if rc = .ok then c else c.appendNotice (arg (lit "断开请求被拒绝：%1") [describe rc])

/-- `confirmHostKey`; the answer itself goes to the gate of the session. -/
def confirmHostKey (accept : Bool) : AppController :=
  if c.session.isNone then c
  else c.appendNotice (if accept then lit "已接受主机密钥。" else lit "已拒绝主机密钥,连接中止。")

/-- `sendTerminalBytes`, and whether the bytes were taken. -/
def sendTerminalBytes (payload : List UInt8) (failureContext : QString) : Bool × AppController :=
  match c.sendCmd (.send payload) with
  | (rc, c) =>
    if rc = .ok then (true, c)
    else (false, c.appendNotice (arg (lit "%1：%2") [failureContext, describe rc]))

/-- A line of its own for the shell, with the Enter key behind it. -/
def sendShellLine (line failureContext : QString) : Bool × AppController :=
  c.sendTerminalBytes (toUtf8 line ++ [0x0d]) failureContext

/-- `sendCommand`. -/
def sendCommand (text : QString) : AppController :=
  if c.ready then
    if trimmed text = [] then c else (c.sendShellLine text (lit "发送失败")).2
  else c.appendNotice (lit "未连接,无法发送命令。")

/-- `sendInterrupt`: Ctrl+C. -/
def sendInterrupt : AppController :=
  if c.ready then
    match c.sendTerminalBytes [0x03] (lit "中止信号发送失败") with
    | (true, c) => c.appendNotice (lit "已发送 Ctrl+C。")
    | (false, c) => c
  else c.appendNotice (lit "未连接,无法中止程序。")

/-- The device prefix and the label of `runPythonFile`; `none` for a GPU that is not a number. -/
def pythonDevice (device : QString) : Option (QString × QString) :=
  let target := toLower (trimmed device)
  if target = lit "cpu" then some (lit "CUDA_VISIBLE_DEVICES='' ", lit "CPU")
  else
    let cut := if startsWith target (lit "gpu") then trimmed (target.drop 3) else target
    let gpu := if cut = [] then lit "0" else cut
    if gpu.all fun u => (digitOf u).isSome then
      some (arg (lit "CUDA_VISIBLE_DEVICES=%1 ") [gpu], arg (lit "GPU %1") [gpu])
    else none

/-- `runPythonFile`: the line that changes to the directory and runs the file. -/
def runPythonFile (path device : QString) : AppController :=
  if c.ready then
    if path = [] ∨ !endsWith (toLower path) (lit ".py") then
      c.appendNotice (lit "请选择一个 .py 文件再运行。")
    else
      match pythonDevice device with
      | none => c.appendNotice (arg (lit "GPU 编号无效：%1") [device])
      | some (envPrefix, label) =>
        ((c.appendNotice (arg (lit "运行 %1，目标：%2") [path, label])).sendShellLine
          (pythonCommand envPrefix path) (lit "运行 Python 失败")).2
  else c.appendNotice (lit "未连接,无法运行 Python 文件。")

/-! ## §6. Events. -/

/-- What a lost connection takes with it. -/
def forgetConnection : AppController :=
  let c := c.clearPendingFs
  let c := { c with remoteHomePath := [], resources := .idle, execPending := fun _ => none
                    packages := .initial }
  let c := c.setFileStatus false (lit "连接后显示远端文件")
  { c with fileTree := c.fileTree.clearTree, editor := c.editor.removePath [] true }

/-- `setConnectionState`: what the session's state means for its row, the files and the packages. -/
def setConnectionState (state : RsSessionState) : AppController :=
  let c := { c with connectionState := state }
  -- The row of the session there is now, which need not be the one that announced the state.
  let c := if 0 ≤ c.currentIndex then c.setStatus c.currentIndex state else c
  match state with
  -- The root is listed as soon as there is a connection.
  | .connected => { c with remoteHomePath := [] }.reloadFiles
  | .disconnected | .failed => c.forgetConnection
  | _ => c

/-- One turn of `ingestRustEvents`. -/
def ingestRustEvent (ev : RustEvent) : AppController :=
  match ev with
  | .stateChanged state => c.setConnectionState state
  | .data data =>
    match c.captureResourceOutput data with
    -- Output of the snapshot command is not shown.
    | (true, c) => c
    | (false, c) => c.appendBytes data
  | .error code message =>
    let msg := if message = [] then describe code else message
    c.appendNotice (arg (lit "错误：%1") [msg])
  | .hostKeyPrompt message =>
    { c with hostKeyPrompts := c.hostKeyPrompts ++ [message] }.appendNotice
      (arg (lit "服务器主机密钥指纹：%1") [message])

/-- `ingestRustEvents`: the events of a batch, one after another. -/
def ingestRustEvents (batch : List RustEvent) : AppController := batch.foldl ingestRustEvent c

end AppController

end ResearchSSH.App
