/-
  ResearchSSH.App.RemotePath — the path functions of `AppController` and of the file panes.

  A remote path is cut at slashes (0x2f).  The empty path and "." stand for the home directory
  of the connection.
-/

import ResearchSSH.App.QString

namespace ResearchSSH.App

/-- The separator of remote paths. -/
def slash : QChar := 0x2f

/-- The separator a Windows path may bring along. -/
def backslash : QChar := 0x5c

/-- `while (s.endsWith('/') && s.size() > 1) s.chop(1)`, on the units from the last to the
first. -/
def chopSlashesRev : QString → QString
  | u :: v :: rest => if u = slash then chopSlashesRev (v :: rest) else u :: v :: rest
  | units => units

/-- `while (s.endsWith('/')) s.chop(1)`. -/
def chopSlashes (s : QString) : QString := (chopSlashesRev s.reverse).reverse

/-- `baseNameOf`: at most one trailing slash is taken off. -/
def baseNameOf (path : QString) : QString :=
  let cut := if path.getLast? = some slash ∧ path.length > 1 then path.dropLast else path
  match lastIndexOf cut slash with
  | some i => cut.drop (i + 1)
  | none => cut

/-- `joinRemotePath`. -/
def joinRemotePath (dir name : QString) : QString :=
  if name = [] then dir
  else if dir = [] ∨ dir = lit "." then name
  -- `"%1/%2".arg(dir, name)` fills in both markers at once: neither text is read again
  else if dir = lit "/" then slash :: name
  else chopSlashes dir ++ slash :: name

/-- `RemoteFileTreeModel::parentPathOf`. -/
def parentPathOf (path : QString) : QString :=
  let cut := chopSlashes path
  match lastIndexOf cut slash with
  | none => []
  | some 0 => [slash]
  | some i => cut.take i

/-- `AppController::parentDirOf`. -/
def parentDirOf (path : QString) : QString :=
  if path = [] then []
  else
    let cut := chopSlashes path
    match lastIndexOf cut slash with
    | none => []
    | some 0 => [slash]
    | some i => cut.take i

/-- `isValidRemoteName`, the controller's check of a new name. -/
def isValidRemoteName (name : QString) : Bool :=
  trimmed name ≠ [] && slash ∉ trimmed name && backslash ∉ trimmed name

/-- `validRemoteName`, the check of the file pane. -/
def validRemoteName (name : QString) : Bool :=
  jsTrim name ≠ [] && slash ∉ name && backslash ∉ name

end ResearchSSH.App
