/-
  ResearchSSH.App.PackageText — what the package pane reads out of command output.

  The texts come line by line from the commands of `RemoteCommands`; a line that does not have
  the expected form is passed over.
-/

import ResearchSSH.App.RemoteCommands

namespace ResearchSSH.App

/-! ## §1. The environment probe. -/

/-- A tool that the probe has found, and where. -/
structure PackageTool where
  name : QString
  path : QString
  deriving DecidableEq, Repr

/-- What `parseEnvironmentProbe` collects. -/
structure EnvironmentProbe where
  tools : List PackageTool
  osText : QString
  pythonText : QString
  cudaText : QString
  deriving DecidableEq, Repr

/-- One line of the probe. -/
def EnvironmentProbe.readLine (probe : EnvironmentProbe) (line : QString) : EnvironmentProbe :=
  if startsWith line (lit "os=") then { probe with osText := line.drop 3 }
  else if startsWith line (lit "version:python=") then
    { probe with pythonText := line.drop (lit "version:python=").length }
  else if startsWith line (lit "version:cuda=") then
    { probe with cudaText := line.drop (lit "version:cuda=").length }
  else if startsWith line (lit "tool:") then
    match indexOf line (lit "=") with
    | none => probe
    | some eq =>
      if eq ≤ 5 then probe
      else
        { probe with
          tools := probe.tools ++ [{ name := (line.drop 5).take (eq - 5)
                                     path := line.drop (eq + 1) }] }
  else probe

/-- `parseEnvironmentProbe`, the part that reads. -/
def readEnvironmentProbe (text : QString) : EnvironmentProbe :=
  ((splitLines text).map trimmed).foldl EnvironmentProbe.readLine
    { tools := [], osText := [], pythonText := [], cudaText := [] }

/-- The status text after a probe. -/
def EnvironmentProbe.summary (probe : EnvironmentProbe) : QString :=
  let cuda := if probe.cudaText = [] then [] else arg (lit "CUDA: %1") [probe.cudaText]
  let parts := [probe.osText, probe.pythonText, cuda].filter (· ≠ [])
  if parts = [] then lit "环境扫描完成" else join parts (lit " · ")

/-! ## §2. Package lists. -/

/-- An entry of `m_installedPackages`. -/
structure InstalledPackage where
  manager : QString
  name : QString
  version : QString
  canUpdate : Bool
  canRemove : Bool
  deriving DecidableEq, Repr

/-- `line.split('|')`. -/
def splitFields (line : QString) : List QString := line.splitOnP fun u => u == 0x7c

/-- One line of the list of packages; what the shell marks is passed over. -/
def readInstalledLine (line : QString) : Option InstalledPackage :=
  if startsWith line (lit "__RSSH_") then none
  else
    match (splitFields line).map trimmed with
    | manager :: name :: version :: _ =>
      some { manager := manager, name := name, version := version
             canUpdate := canUpdatePackageManager (toLower manager)
             canRemove := canRemovePackageManager (toLower manager) }
    | _ => none

/-- `parseInstalledPackages`, the part that reads. -/
def readInstalledPackages (text : QString) : List InstalledPackage :=
  ((splitLines text).map trimmed).filterMap readInstalledLine

/-- `compare(.., Qt::CaseInsensitive) == 0`. -/
def sameText (s t : QString) : Bool := toLower s = toLower t

/-- `packageAlreadyInstalled`. -/
def packageAlreadyInstalled (packages : List InstalledPackage) (manager name : QString) : Bool :=
  packages.any fun pkg => sameText pkg.manager manager && sameText pkg.name name

/-- An entry of `m_packageSearchResults`. -/
structure FoundPackage where
  manager : QString
  name : QString
  version : QString
  detail : QString
  canInstall : Bool
  installed : Bool
  deriving DecidableEq, Repr

/-- One line of what a search has found, beside the packages that are installed. -/
def readFoundLine (packages : List InstalledPackage) (line : QString) : Option FoundPackage :=
  if startsWith line (lit "__RSSH_") then none
  else
    match splitFields line with
    | manager :: name :: version :: d :: details =>
      some { manager := trimmed manager, name := trimmed name, version := trimmed version
             detail := trimmed (join (d :: details) (lit " | "))
             canInstall := canInstallPackageManager (toLower (trimmed manager))
             installed := packageAlreadyInstalled packages (toLower (trimmed manager))
               (trimmed name) }
    | manager :: name :: _ =>
      some { manager := trimmed manager, name := trimmed name, version := lit "latest"
             detail := line
             canInstall := canInstallPackageManager (toLower (trimmed manager))
             installed := packageAlreadyInstalled packages (toLower (trimmed manager))
               (trimmed name) }
    | _ => none

/-- `parsePackageSearch`, the part that reads. -/
def readFoundPackages (packages : List InstalledPackage) (text : QString) : List FoundPackage :=
  ((splitLines text).map trimmed).filterMap (readFoundLine packages)

/-! ## §3. The operation log. -/

/-- `tailForUi`: the end of a text that is too long for the pane. -/
def tailForUi (text : QString) (limit : Nat) : QString :=
  let cut := trimmed text
  if cut.length ≤ limit then cut
  else arg (lit "...\n%1") [cut.drop (cut.length - limit)]

end ResearchSSH.App
