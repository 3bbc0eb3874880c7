/-
  ResearchSSH.App.ControllerTasks — commands on the side channel: packages and resources.

  Like a file request, a command is kept under the id its session gave it, in `m_execPending`,
  and its result is dispatched by that id alone.
-/

import ResearchSSH.App.AppController

namespace ResearchSSH.App

open ResearchSSH.Core

namespace AppController

variable (c : AppController)

/-! ## §1. Submitting. -/

/-- `submitExec`: a command of the session, entered under its id. -/
def submitExec (command : QString) (timeoutMs : UInt64) (kind : PendingExecKind)
    (label : QString) : UInt64 × AppController :=
  if c.ready then
    match c.submit fun id => .exec id (String.ofList (toCore command)) timeoutMs with
    | (id, c) =>
      if id = 0 then (0, c)
      else (id, { c with execPending :=
                           Function.update c.execPending id (some { kind := kind, label := label }) })
  else (0, c)

/-- `setPackageStatus`. -/
def setPackageStatus (text : QString) : AppController :=
  { c with packages := { c.packages with statusText := text } }

/-- `setPackageBusy`. -/
def setPackageBusy (busy : Bool) : AppController :=
  { c with packages := { c.packages with busy := busy } }

/-- Submit a package command; where that fails, the pane is not busy after all. -/
def submitPackage (command : QString) (timeoutMs : UInt64) (kind : PendingExecKind)
    (label failureText : QString) : AppController :=
  match c.submitExec command timeoutMs kind label with
  | (id, c) => if id = 0 then (c.setPackageBusy false).setPackageStatus failureText else c

/-! ## §2. Package actions. -/

/-- `refreshEnvironment`: the probe, unless the pane is busy. -/
def refreshEnvironment : AppController :=
  if c.ready then
    if c.packages.busy then c
    else
      ((c.setPackageBusy true).setPackageStatus (lit "正在扫描服务器环境...")).submitPackage
        environmentProbeCommand 8000 .environmentProbe (lit "环境扫描")
        (lit "环境扫描请求提交失败")
  else c.setPackageStatus (lit "未连接，无法扫描环境")

/-- `searchPackages`. -/
def searchPackages (query : QString) : AppController :=
  let q := trimmed query
  if q = [] then c
  else if c.ready then
    if c.packages.busy then c
    else
      { c with packages := { c.packages with busy := true, searchResults := []
                                             statusText := arg (lit "正在搜索：%1") [q] } }.submitPackage
        (packageSearchCommand q) 12000 .packageSearch q (lit "搜索请求提交失败")
  else c.setPackageStatus (lit "未连接，无法搜索包")

/-- What tells the three package mutations apart: the action, the managers it is offered for, how
its result is kept, and its texts. -/
structure PackageMutation where
  action : PackageAction
  supports : QString → Bool
  kind : PendingExecKind
  notConnected : QString
  notSupported : QString
  running : QString
  submitFailed : QString

/-- What `installPackage`, `updatePackage` and `removePackage` have in common. -/
def mutatePackage (m : PackageMutation) (manager name : QString) : AppController :=
  let mgr := toLower (trimmed manager)
  let pkg := trimmed name
  if pkg = [] then c
  else if c.ready then
    if c.packages.busy then c
    else if m.supports mgr then
      let command := packageMutationCommand m.action mgr pkg
      if command = [] then c.setPackageStatus (arg m.notSupported [manager])
      else
        { c with packages := { c.packages with busy := true, logText := []
                                               statusText := arg m.running [pkg, manager] } }.submitPackage
          command 300000 m.kind pkg m.submitFailed
    else c.setPackageStatus (arg m.notSupported [manager])
  else c.setPackageStatus m.notConnected

/-- `installPackage`. -/
def installPackage (manager name : QString) : AppController :=
  c.mutatePackage
    { action := .install, supports := canInstallPackageManager, kind := .packageInstall
      notConnected := lit "未连接，无法安装包", notSupported := lit "%1 来源暂不支持一键安装"
      running := lit "正在安装 %1（%2）...", submitFailed := lit "安装请求提交失败" } manager name

/-- `updatePackage`. -/
def updatePackage (manager name : QString) : AppController :=
  c.mutatePackage
    { action := .update, supports := canUpdatePackageManager, kind := .packageUpdate
      notConnected := lit "未连接，无法更新包", notSupported := lit "%1 来源暂不支持一键更新"
      running := lit "正在更新 %1（%2）...", submitFailed := lit "更新请求提交失败" } manager name

/-- `removePackage`. -/
def removePackage (manager name : QString) : AppController :=
  c.mutatePackage
    { action := .remove, supports := canRemovePackageManager, kind := .packageRemove
      notConnected := lit "未连接，无法卸载包", notSupported := lit "%1 来源暂不支持一键卸载"
      running := lit "正在卸载 %1（%2）...", submitFailed := lit "卸载请求提交失败" } manager name

/-! ## §3. Resources. -/

/-- `refreshResourceSnapshot`.  Where it shows the example snapshot instead, nothing is being
captured. -/
def refreshResourceSnapshot : AppController :=
  if c.ready then
    if c.resources.busy then c
    else
      match { c with resources := { busy := true, capture := [], markerTail := [] } }.submitExec
          resourceSnapshotCommand 8000 .resourceSnapshot (lit "资源快照") with
      | (id, c) => if id = 0 then { c with resources := .idle } else c
  else { c with resources := { c.resources with busy := false } }

/-- What `parseResourceSnapshot` does on each of its ways out, what it shows left aside. -/
def parseResourceSnapshot : AppController :=
  { c with resources := { c.resources with busy := false } }

/-- Bytes for the terminal. -/
def appendBytes (data : List UInt8) : AppController :=
  { c with terminal := c.terminal ++ [.bytes data] }

/-- `kResourceBegin`. -/
def resourceBegin : QString := lit "__RSSH_RESOURCE_BEGIN__"

/-- `kResourceEnd`. -/
def resourceEnd : QString := lit "__RSSH_RESOURCE_END__"

/-- `captureResourceOutput` once there is a capture: it ends where it has grown too long or where
the end marker stands. -/
def finishCapture (capture : QString) : AppController :=
  if capture.length > 50000 then { c with resources := .idle }
  else
    match indexOf capture resourceEnd with
    -- The end has not come yet: everything so far is kept.
    | none => { c with resources := { c.resources with capture := capture } }
    | some e =>
      -- What stands behind the end marker is the terminal's.
      let trailing := capture.drop (e + resourceEnd.length)
      let c := { c with resources := { c.resources with capture := [], markerTail := [] } }
        |>.parseResourceSnapshot
      if trailing = [] then c else c.appendBytes (toUtf8 trailing)

/-- `captureResourceOutput`, and whether it has taken the data. -/
def captureResourceOutput (data : List UInt8) : Bool × AppController :=
  if c.resources.busy then
    let chunk := fromUtf8 data
    if c.resources.capture = [] then
      let probe := c.resources.markerTail ++ chunk
      match indexOf probe resourceBegin with
      | none =>
        -- The marker may be split between two batches, so its longest proper prefix is kept.
        let tail := probe.drop (probe.length - (resourceBegin.length - 1))
        (false, { c with resources := { c.resources with markerTail := tail } })
      | some b =>
        -- A position in the text, used below as a number of bytes.
        let chunkStart := b - c.resources.markerTail.length
        let c := if chunkStart > 0 then c.appendBytes (data.take chunkStart) else c
        (true, { c with resources := { c.resources with markerTail := [] } }.finishCapture
                 (probe.drop b))
    else (true, c.finishCapture (c.resources.capture ++ chunk))
  else (false, c)

/-! ## §4. Results of commands. -/

/-- `parseEnvironmentProbe`: after the probe the list of installed packages is asked for. -/
def parseEnvironmentProbe (text : QString) : AppController :=
  -- The list of packages is asked for in the same breath, so the pane stays busy.
  let probe := readEnvironmentProbe text
  { c with packages := { c.packages with tools := probe.tools, statusText := probe.summary
                                         busy := true } }.submitPackage
    packageListCommand 12000 .packageList (lit "已安装包列表")
    (lit "环境扫描完成，但已安装清单请求提交失败")

/-- `parseInstalledPackages`. -/
def parseInstalledPackages (text : QString) : AppController :=
  let packages := readInstalledPackages text
  { c with packages := { c.packages with
                         installed := packages
                         statusText := arg (lit "已安装包：%1 项") [number packages.length] } }

/-- `parsePackageSearch`. -/
def parsePackageSearch (text : QString) : AppController :=
  let results := readFoundPackages c.packages.installed text
  { c with packages := { c.packages with
                         searchResults := results
                         statusText := arg (lit "搜索结果：%1 项") [number results.length] } }

/-- `isError || result.exitStatus != 0`. -/
def execFailed (result : ExecResult) : Bool := result.isError || result.exitStatus ≠ 0

/-- A package was installed, updated or removed: the log is shown, and after a success the list is
asked for anew. -/
def finishPackageMutation (result : ExecResult) (successText failureText refreshText : QString) :
    AppController :=
  let output := trimmed (fromUtf8 (result.stdoutData ++ result.stderrData))
  let logText := tailForUi output 1800
  if execFailed result then
    -- The core's own message comes before what the command printed.
    let detail := if result.message = [] then tailForUi output 700 else trimmed result.message
    { c with packages := { c.packages with
                           statusText := if detail = [] then failureText
                                         else arg (lit "%1，详情见操作日志") [failureText]
                           logText := if logText = [] then detail else logText } }
  else
    { c with packages := { c.packages with logText := logText, statusText := successText
                                           busy := true } }.submitPackage
      packageListCommand 12000 .packageList refreshText
      (arg (lit "%1，但刷新包列表失败") [successText])

/-- A failed read of package data: the text, with what went wrong if there is something to say. -/
def failPackageRead (result : ExecResult) (text : QString) : AppController :=
  let stderrText := if result.message = [] then fromUtf8 result.stderrData else result.message
  c.setPackageStatus (if stderrText = [] then text else arg (text ++ lit "：%1") [stderrText])

/-- One turn of `ingestExecResults`. -/
def ingestExecResult (result : ExecResult) : AppController :=
  match c.execPending result.requestId with
  | none => c
  | some pending =>
    let c := { c with execPending := Function.update c.execPending result.requestId none }
    let stdoutText := fromUtf8 result.stdoutData
    match pending.kind with
    | .resourceSnapshot =>
      let c := { c with resources := { c.resources with busy := false } }
      if execFailed result then c else c.parseResourceSnapshot
    | .environmentProbe =>
      let c := c.setPackageBusy false
      if execFailed result then c.failPackageRead result (lit "环境扫描失败")
      else c.parseEnvironmentProbe stdoutText
    | .packageList =>
      let c := c.setPackageBusy false
      if execFailed result then c.failPackageRead result (lit "已安装清单读取失败")
      else c.parseInstalledPackages stdoutText
    | .packageSearch =>
      let c := c.setPackageBusy false
      if execFailed result then c.failPackageRead result (lit "包搜索失败")
      else c.parsePackageSearch stdoutText
    | .packageInstall =>
      (c.setPackageBusy false).finishPackageMutation result (lit "安装完成") (lit "安装失败")
        (lit "安装后刷新包列表")
    | .packageUpdate =>
      (c.setPackageBusy false).finishPackageMutation result (lit "更新完成") (lit "更新失败")
        (lit "更新后刷新包列表")
    | .packageRemove =>
      (c.setPackageBusy false).finishPackageMutation result (lit "卸载完成") (lit "卸载失败")
        (lit "卸载后刷新包列表")

/-- `ingestExecResults`: the results of a batch, one after another. -/
def ingestExecResults (batch : List ExecResult) : AppController :=
  batch.foldl ingestExecResult c

end AppController

end ResearchSSH.App
