/-
  ResearchSSH.App.RemoteCommands — the shell command lines that `AppController` sends.

  A name chosen by the user or found on the server enters a command line through `shellQuote`
  only; the manager of a package operation is one of the fixed names below.
-/

import ResearchSSH.App.QString

namespace ResearchSSH.App

/-- `shellQuote`: single quotes around the value, each of its own replaced by `'\''`. -/
def shellQuote (value : QString) : QString :=
  let quoted := value.flatMap fun u => if u = 0x27 then lit "'\\''" else [u]
  lit "'" ++ quoted ++ lit "'"

/-! ## §1. Package managers. -/

/-- `PackageAction`. -/
inductive PackageAction
  | install | update | remove
  deriving DecidableEq, Repr

/-- `packageActionName`. -/
def packageActionName : PackageAction → QString
  | .install => lit "install"
  | .update => lit "update"
  | .remove => lit "remove"

/-- `isPipManager`. -/
def isPipManager (manager : QString) : Bool := manager = lit "pip" || manager = lit "pip3"

/-- `isCondaManager`. -/
def isCondaManager (manager : QString) : Bool := manager = lit "conda" || manager = lit "mamba"

/-- `isSystemPackageManager`. -/
def isSystemPackageManager (manager : QString) : Bool :=
  manager = lit "apt" || manager = lit "dnf" || manager = lit "yum" || manager = lit "pacman"
    || manager = lit "zypper"

/-- `isNpmManager`. -/
def isNpmManager (manager : QString) : Bool := manager = lit "npm"

/-- `canInstallPackageManager`. -/
def canInstallPackageManager (manager : QString) : Bool :=
  isPipManager manager || manager = lit "uv" || isCondaManager manager
    || isSystemPackageManager manager || isNpmManager manager

/-- `canUpdatePackageManager`. -/
def canUpdatePackageManager (manager : QString) : Bool := canInstallPackageManager manager

/-- `canRemovePackageManager`. -/
def canRemovePackageManager (manager : QString) : Bool :=
  isPipManager manager || manager = lit "uv" || isCondaManager manager
    || isSystemPackageManager manager || isNpmManager manager

/-! ## §2. Package commands. -/

/-- `packageListCommand`, the script as the source has it. -/
def packageListCommand : QString :=
  lit ("printf '__RSSH_PKG_LIST__\\n'; "
    ++ "if command -v python3 >/dev/null 2>&1 || command -v python >/dev/null 2>&1; then "
    ++ "PY=python3; command -v python3 >/dev/null 2>&1 || PY=python; "
    ++ "\"$PY\" -m pip list --format=freeze 2>/dev/null | awk -F'==' 'NF>=2 \x7bprint "
    ++ "\"pip|\" $1 \"|\" $2\x7d' | head -n 160; "
    ++ "fi; "
    ++ "if command -v conda >/dev/null 2>&1; then conda list 2>/dev/null | awk 'NF>=2 && $1 "
    ++ "!~ /^#/ \x7bprint \"conda|\" $1 \"|\" $2\x7d' | head -n 160; fi; "
    ++ "if command -v mamba >/dev/null 2>&1 && ! command -v conda >/dev/null 2>&1; then mamba "
    ++ "list 2>/dev/null | awk 'NF>=2 && $1 !~ /^#/ \x7bprint \"mamba|\" $1 \"|\" $2\x7d' | "
    ++ "head -n 160; fi; "
    ++ "if command -v apt >/dev/null 2>&1; then apt list --installed 2>/dev/null | awk -F'[ "
    ++ "/]' 'NR>1 \x7bprint \"apt|\" $1 \"|\" $3\x7d' | head -n 160; fi; "
    ++ "if command -v dnf >/dev/null 2>&1; then dnf -q list installed 2>/dev/null | awk "
    ++ "'NF>=2 \x7bname=$1; sub(/\\.[^.]+$/, \"\", name); print \"dnf|\" name \"|\" $2\x7d' | "
    ++ "head -n 160; fi; "
    ++ "if command -v yum >/dev/null 2>&1 && ! command -v dnf >/dev/null 2>&1; then yum -q "
    ++ "list installed 2>/dev/null | awk 'NF>=2 \x7bname=$1; sub(/\\.[^.]+$/, \"\", name); "
    ++ "print \"yum|\" name \"|\" $2\x7d' | head -n 160; fi; "
    ++ "if command -v pacman >/dev/null 2>&1; then pacman -Q 2>/dev/null | awk 'NF>=2 "
    ++ "\x7bprint \"pacman|\" $1 \"|\" $2\x7d' | head -n 160; fi; "
    ++ "if command -v zypper >/dev/null 2>&1; then zypper --non-interactive search "
    ++ "--installed-only 2>/dev/null | awk -F'|' '$2 ~ /[A-Za-z0-9_.+-]/ \x7bgsub(/^[ \\t]+|[ "
    ++ "\\t]+$/, \"\", $2); gsub(/^[ \\t]+|[ \\t]+$/, \"\", $4); print \"zypper|\" $2 \"|\" "
    ++ "$4\x7d' | head -n 160; fi; "
    ++ "if command -v npm >/dev/null 2>&1; then npm list -g --depth=0 --parseable 2>/dev/null "
    ++ "| awk -F'/node_modules/' 'NF>=2 \x7bprint \"npm|\" $2 \"|global\"\x7d' | head -n 120; "
    ++ "fi; "
    ++ "if command -v module >/dev/null 2>&1; then module list 2>&1 | sed 's/^[[:space:]]*//' "
    ++ "| grep -E '^[0-9]+\\)' | sed 's/^[0-9]*)[[:space:]]*/module|/; s/$/|loaded/' | head "
    ++ "-n 80; fi; "
    ++ "printf '__RSSH_PKG_DONE__\\n'")

/-- `packageSearchCommand`: the query is quoted before it is put in. -/
def packageSearchCommand (query : QString) : QString :=
  let quoted := shellQuote query
  arg (lit ("printf '__RSSH_PKG_SEARCH__ %s\\n' %1; "
    ++ "if command -v python3 >/dev/null 2>&1 || command -v python >/dev/null 2>&1; then "
    ++ "PY=python3; command -v python3 >/dev/null 2>&1 || PY=python; "
    ++ "\"$PY\" -m pip index versions %1 2>/dev/null | awk -v q=%1 'NR==1 \x7bver=$0; "
    ++ "sub(/^[^(]*\\(/, \"\", ver); sub(/\\).*/, \"\", ver); if (ver == \"\") "
    ++ "ver=\"latest\"; print \"pip|\" q \"|\" ver \"|PyPI\"; exit\x7d'; "
    ++ "fi; "
    ++ "if command -v conda >/dev/null 2>&1; then conda search %1 2>/dev/null | awk 'NF>=2 && "
    ++ "$1 !~ /^#/ \x7bprint \"conda|\" $1 \"|\" $2 \"|Conda\"; count++; if (count>=12) "
    ++ "exit\x7d'; fi; "
    ++ "if command -v mamba >/dev/null 2>&1; then mamba search %1 2>/dev/null | awk 'NF>=2 && "
    ++ "$1 !~ /^#/ \x7bprint \"mamba|\" $1 \"|\" $2 \"|Mamba\"; count++; if (count>=12) "
    ++ "exit\x7d'; fi; "
    ++ "if command -v apt-cache >/dev/null 2>&1; then apt-cache search --names-only %1 "
    ++ "2>/dev/null | awk -F' - ' 'NF>=1 \x7bprint \"apt|\" $1 \"|available|\" $2\x7d' | head "
    ++ "-n 12; fi; "
    ++ "if command -v dnf >/dev/null 2>&1; then dnf -q search %1 2>/dev/null | awk 'NF>=1 && "
    ++ "$1 !~ /:$/ \x7bname=$1; sub(/\\.[^.]+$/, \"\", name); print \"dnf|\" name "
    ++ "\"|available|\" $0; count++; if (count>=12) exit\x7d'; fi; "
    ++ "if command -v yum >/dev/null 2>&1 && ! command -v dnf >/dev/null 2>&1; then yum -q "
    ++ "search %1 2>/dev/null | awk 'NF>=1 && $1 !~ /:$/ \x7bname=$1; sub(/\\.[^.]+$/, \"\", "
    ++ "name); print \"yum|\" name \"|available|\" $0; count++; if (count>=12) exit\x7d'; fi; "
    ++ "if command -v pacman >/dev/null 2>&1; then pacman -Ss %1 2>/dev/null | awk '/^[^ ]/ "
    ++ "\x7bsplit($1,a,\"/\"); print \"pacman|\" a[2] \"|\" $2 \"|\" $1; count++; if "
    ++ "(count>=12) exit\x7d'; fi; "
    ++ "if command -v zypper >/dev/null 2>&1; then zypper --non-interactive search %1 "
    ++ "2>/dev/null | awk -F'|' '$2 ~ /[A-Za-z0-9_.+-]/ \x7bgsub(/^[ \\t]+|[ \\t]+$/, \"\", "
    ++ "$2); gsub(/^[ \\t]+|[ \\t]+$/, \"\", $4); print \"zypper|\" $2 \"|\" $4 \"|zypper\"; "
    ++ "count++; if (count>=12) exit\x7d'; fi; "
    ++ "if command -v npm >/dev/null 2>&1; then npm search --parseable %1 2>/dev/null | awk "
    ++ "-F'\\t' 'NF>=1 \x7bprint \"npm|\" $1 \"|\" $4 \"|\" $2; count++; if (count>=12) "
    ++ "exit\x7d'; fi; "
    ++ "if command -v module >/dev/null 2>&1; then module avail %1 2>&1 | sed "
    ++ "'s/^[[:space:]]*//' | grep -E '.+' | head -n 8 | sed 's/^/module|/'; fi; "
    ++ "printf '__RSSH_PKG_SEARCH_DONE__\\n'")) [quoted]

/-- The guard in front of every change to system packages. -/
def requireRoot : QString :=
  lit ("[ \"$(id -u 2>/dev/null || echo 1)\" -eq 0 ] || "
    ++ "\x7b echo 'system package changes require a root session' >&2; exit 126; \x7d; ")

/-- The operation of `packageMutationCommand`; empty for an unknown manager. -/
def packageOperation (action : PackageAction) (manager packageName : QString) : QString :=
  let quoted := shellQuote packageName
  if isPipManager manager then
    let python := "PY=python3; command -v python3 >/dev/null 2>&1 || PY=python; "
    match action with
    | .remove => arg (lit (python ++ "\"$PY\" -m pip uninstall -y %1 2>&1")) [quoted]
    | _ => arg (lit (python ++ "\"$PY\" -m pip install --user --upgrade %1 2>&1")) [quoted]
  else if manager = lit "uv" then
    match action with
    | .remove => arg (lit "uv pip uninstall %1 2>&1") [quoted]
    | _ => arg (lit "uv pip install --upgrade %1 2>&1") [quoted]
  else if isCondaManager manager then
    let verb := match action with
                | .install => lit "install"
                | .update => lit "update"
                | .remove => lit "remove"
    arg (lit "%1 %2 -y %3 2>&1") [manager, verb, quoted]
  else if manager = lit "apt" then
    let verb := match action with
                | .install => lit "install -y"
                | .update => lit "install -y --only-upgrade"
                | .remove => lit "remove -y"
    arg (requireRoot ++ lit "env DEBIAN_FRONTEND=noninteractive apt-get %1 %2 2>&1") [verb, quoted]
  else if manager = lit "dnf" ∨ manager = lit "yum" then
    let verb := match action with
                | .install => lit "install"
                | .update => lit "upgrade"
                | .remove => lit "remove"
    arg (requireRoot ++ lit "%1 -y %2 %3 2>&1") [manager, verb, quoted]
  else if manager = lit "pacman" then
    let verb := match action with
                | .remove => lit "-R"
                | _ => lit "-S"
    arg (requireRoot ++ lit "pacman %1 --noconfirm %2 2>&1") [verb, quoted]
  else if manager = lit "zypper" then
    let verb := match action with
                | .install => lit "install"
                | .update => lit "update"
                | .remove => lit "remove"
    arg (requireRoot ++ lit "zypper --non-interactive %1 %2 2>&1") [verb, quoted]
  else if manager = lit "npm" then
    let verb := match action with
                | .install => lit "install"
                | .update => lit "update"
                | .remove => lit "uninstall"
    arg (lit "npm %1 -g %2 2>&1") [verb, quoted]
  else []

/-- `packageMutationCommand`: nothing for a manager it does not know. -/
def packageMutationCommand (action : PackageAction) (manager packageName : QString) : QString :=
  let operation := packageOperation action manager packageName
  if operation = [] then []
  else
    arg (lit ("printf '__RSSH_PKG_ACTION__ %s %s %s\\n' %1 %2 %3; %4; rc=$?; "
        ++ "printf '__RSSH_PKG_ACTION_DONE__\\n'; exit $rc"))
      [shellQuote (packageActionName action), shellQuote manager, shellQuote packageName, operation]

/-! ## §3. Probes and programs. -/

/-- The command of `refreshEnvironment`. -/
def environmentProbeCommand : QString :=
  lit ("printf '__RSSH_ENV_PROBE__\\n'; "
    ++ "if [ -r /etc/os-release ]; then . /etc/os-release; printf 'os=%s\\n' "
    ++ "\"$\x7bPRETTY_NAME:-$NAME\x7d\"; else uname -s | sed 's/^/os=/'; fi; "
    ++ "printf 'kernel=%s\\n' \"$(uname -r 2>/dev/null || true)\"; "
    ++ "printf 'arch=%s\\n' \"$(uname -m 2>/dev/null || true)\"; "
    ++ "for tool in apt dnf yum pacman zypper python3 python pip pip3 uv conda mamba npm "
    ++ "module ml spack; do "
    ++ "p=$(command -v \"$tool\" 2>/dev/null || true); [ -n \"$p\" ] && printf "
    ++ "'tool:%s=%s\\n' \"$tool\" \"$p\"; "
    ++ "done; "
    ++ "(python3 --version 2>&1 || python --version 2>&1 || true) | head -n 1 | sed "
    ++ "'s/^/version:python=/'; "
    ++ "(gcc --version 2>/dev/null || true) | head -n 1 | sed 's/^/version:gcc=/'; "
    ++ "(nvcc --version 2>/dev/null | grep release || true) | sed 's/^/version:cuda=/'; "
    ++ "printf '__RSSH_ENV_DONE__\\n'")

/-- The command of `refreshResourceSnapshot`. -/
def resourceSnapshotCommand : QString :=
  lit ("printf '__RSSH_RESOURCE_BEGIN__\\n'; "
    ++ "if command -v nvidia-smi >/dev/null 2>&1; then "
    ++ "nvidia-smi --query-gpu=index,uuid,name,utilization.gpu,memory.used,memory.total "
    ++ "--format=csv,noheader,nounits 2>/dev/null || true; "
    ++ "printf '__RSSH_RESOURCE_PROCESSES__\\n'; "
    ++ "nvidia-smi --query-compute-apps=gpu_uuid,pid,process_name,used_memory "
    ++ "--format=csv,noheader,nounits 2>/dev/null || true; "
    ++ "else printf '__RSSH_RESOURCE_PROCESSES__\\n'; fi; "
    ++ "printf '__RSSH_RESOURCE_CPU__\\n'; "
    ++ "ps -eo pid,user,comm,pcpu,pmem --sort=-pcpu 2>/dev/null | head -n 8 || true; "
    ++ "printf '__RSSH_RESOURCE_JOBS__\\n'; "
    ++ "if command -v squeue >/dev/null 2>&1; then "
    ++ "squeue -h -o '%i|%P|%j|%u|%T|%M|%D|%R' 2>/dev/null | head -n 8 || true; fi; "
    ++ "printf '__RSSH_RESOURCE_DISK__\\n'; "
    ++ "df -hP 2>/dev/null | awk 'NR>1 \x7bprint $1 \"|\" $2 \"|\" $3 \"|\" $4 \"|\" $5 \"|\" "
    ++ "$6\x7d' | head -n 8 || true; "
    ++ "printf '__RSSH_RESOURCE_END__\\n'")

/-- The command of `runPythonFile`, with the prefix that selects the device. -/
def pythonCommand (envPrefix path : QString) : QString :=
  arg (lit ("%1PYTHON_BIN=$(command -v python3 2>/dev/null || command -v python 2>/dev/null); "
    ++ "if [ -z \"$PYTHON_BIN\" ]; then echo 'python3/python not found' >&2; exit 127; fi; "
    ++ "\"$PYTHON_BIN\" %2"))
    [envPrefix, shellQuote path]

end ResearchSSH.App
