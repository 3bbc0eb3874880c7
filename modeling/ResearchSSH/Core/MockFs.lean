/-
  ResearchSSH.Core.MockFs — the in-memory filesystem behind the mock provider.

  `dirs` is a set of paths and `files` a map from paths to contents.  A path is only a key:
  nothing relates the two, or a path to its parent, and an operation that succeeds puts its
  entries where it was told to, whatever was there before.

  Main definitions:
    * `MockFs`, `MockFs.seeded` and the methods of `MockFileProvider`.
    * `MockFs.perform` — the call that `run_fs_op` makes for an operation.
-/

import Mathlib.Data.Char
import Mathlib.Data.Finset.Option
import Mathlib.Data.Finset.Sort
import Mathlib.Data.List.AList
import Mathlib.Data.List.DropRight
import Mathlib.Data.List.Lex
import ResearchSSH.Core.Driver

namespace ResearchSSH.Core

/-! ## §1. Names. -/

/-- The extensions of text files. -/
def textExtensions : List Text :=
  ["txt", "md", "rst", "log", "csv", "tsv", "json", "yaml", "yml", "toml", "ini", "cfg", "conf",
   "env", "py", "pyi", "ipynb", "c", "h", "cc", "cpp", "cxx", "hpp", "hxx", "rs", "go", "java",
   "kt", "js", "ts", "tsx", "jsx", "sh", "bash", "zsh", "fish", "r", "jl", "m", "lua", "pl", "rb",
   "php", "sql", "html", "css", "xml", "tex", "bib", "make", "cmake", "gradle", "dockerfile",
   "gitignore"].map String.toList

/-- `rsplit_once(sep)`: what stands behind the last separator. -/
def afterLast (sep : Char) (s : Text) : Option Text :=
  if sep ∈ s then some (s.rtakeWhile (· ≠ sep)) else none

/-- `looks_like_text`. -/
def looksLikeText (name : Text) : Bool :=
  let lower := name.map Char.toLower
  if lower ∈ ["makefile", "dockerfile", "cmakelists.txt", ".gitignore"].map String.toList then true
  else
    match afterLast '.' lower with
    | some ext => ext ∈ textExtensions
    | none => false

/-- `format!("{}/", path.trim_end_matches('/'))`: what every path below `path` begins with. -/
def below (path : Text) : Text := path.rdropWhile (· = '/') ++ ['/']

/-- Does the path lie below a directory with this `below`? -/
def startsWith (path start : Text) : Bool := start.isPrefixOf path

/-- `path.replacen(from_prefix, to_prefix, 1)` of a path that begins with the first. -/
def replacePrefix (path fromPrefix toPrefix : Text) : Text := toPrefix ++ path.drop fromPrefix.length

/-! ## §2. The filesystem. -/

/-- The contents of the files by path. -/
abbrev FileMap := AList fun _ : Text => List UInt8

/-- `MockFs`: the directories there are, and what the files hold. -/
structure MockFs where
  dirs : Finset Text
  files : FileMap
  deriving DecidableEq

namespace MockFs

/-- `MOCK_HOME`, the home directory of the simulated filesystem. -/
def mockHome : Text := "/home/researcher".toList

/-- The files the provider starts with. -/
def seededFiles : List (String × List UInt8) :=
  [("/home/researcher/train.py",
    ("import torch\n\ndef main():\n    print('training on the mock cluster')\n\n"
      ++ "if __name__ == '__main__':\n    main()\n").toUTF8.data.toList),
   ("/home/researcher/kernel.cpp",
    "#include <cstdio>\nint main()\x7b printf(\"hello from mock\\n\"); return 0; \x7d\n".toUTF8.data.toList),
   ("/home/researcher/README.md",
    "# Mock workspace\n\nDemo files served by the in-memory mock provider.\n".toUTF8.data.toList),
   ("/home/researcher/results.csv", "epoch,loss\n1,0.42\n2,0.31\n".toUTF8.data.toList),
   ("/home/researcher/model.bin", List.replicate 2048 0),
   ("/home/researcher/data/run.sh", "#!/bin/sh\npython ../train.py\n".toUTF8.data.toList)]

/-- `seeded`: the file system the provider starts with. -/
def seeded : MockFs :=
  { dirs := {mockHome, "/home/researcher/data".toList, "/home/researcher/experiments".toList}
    files := seededFiles.foldl (fun files (path, data) => files.insert path.toList data) ∅ }

variable (fs : MockFs)

/-- `resolve`: no path and `.` are the home directory. -/
def resolve (path : Text) : Text := if path = [] ∨ path = ['.'] then mockHome else path

/-- An entry of a listing. -/
def entry (path name : Text) (isDir : Bool) (size : UInt64) : FileEntry :=
  { name := name, path := path, kind := if isDir then .directory else .file, size := size
    modifiedUnix := -1, mode := if isDir then 0o755 else 0o644
    editableText := !isDir && looksLikeText name }

/-- The name under which a path is a child of a directory with this `below`. -/
def childName (start path : Text) : Option Text :=
  if startsWith path start then
    let rest := path.drop start.length
    if rest = [] ∨ '/' ∈ rest then none else some rest
  else none

/-- The children of a directory: directories first, and by name. -/
def children (dir : Text) : List FileEntry :=
  let start := below dir
  let dirNames := (fs.dirs.image (childName start)).eraseNone
  let fileNames := (fs.files.keys.toFinset.image (childName start)).eraseNone
  (dirNames.sort).map (fun name => entry (start ++ name) name true 0)
    ++ (fileNames.sort).map fun name =>
        entry (start ++ name) name false ((fs.files.lookup (start ++ name)).getD []).length.toUInt64

/-- The error for a path that is not there. -/
def notFound (path : Text) : CoreError :=
  { code := .internal, detail := some ("no such file: " ++ String.ofList path) }

/-! ## §3. The operations of the file provider. -/

/-- `list_dir`. -/
def listDir (path : Text) : CoreResult (List FileEntry) :=
  let dir := resolve path
  if dir ∈ fs.dirs then .ok (fs.children dir) else .error (notFound dir)

/-- `stat`. -/
def stat (path : Text) : CoreResult FileEntry :=
  let p := resolve path
  let name := p.rtakeWhile (· ≠ '/')
  if p ∈ fs.dirs then .ok (entry p name true 0)
  else
    match fs.files.lookup p with
    | some c => .ok (entry p name false c.length.toUInt64)
    | none => .error (notFound p)

/-- `read_file`: no more than asked for. -/
def readFile (path : Text) (maxLen : UInt64) : CoreResult (List UInt8) :=
  match fs.files.lookup path with
  | none => .error (notFound path)
  | some data =>
    .ok (if 0 < maxLen ∧ maxLen.toNat < data.length then data.take maxLen.toNat else data)

/-- `write_file`: whatever was in the file is gone. -/
def writeFile (path : Text) (data : List UInt8) : MockFs :=
  { fs with files := fs.files.insert path data }

/-- Where a directory goes when `src` becomes `dst`. -/
def renamedDir (src dst dir : Text) : Text :=
  if dir = src then dst else replacePrefix dir (below src) (below dst)

/-- The files below a directory, where they go when it becomes `dst`. -/
def renamedFiles (src dst : Text) : List (Text × List UInt8) :=
  (fs.files.entries.filter fun e => startsWith e.1 (below src)).map fun e =>
    (replacePrefix e.1 (below src) (below dst), e.2)

/-- `rename`: a file, or every path of a directory. -/
def rename (src dst : Text) : CoreResult Unit × MockFs :=
  match fs.files.lookup src with
  | some content => (.ok (), { fs with files := (fs.files.erase src).insert dst content })
  | none =>
    if src ∉ fs.dirs then (.error (notFound src), fs)
    else
      let movedDirs := fs.dirs.filter fun d => d = src ∨ startsWith d (below src)
      -- What is below the directory goes along, over whatever is at its new place.
      let movedFiles := fs.renamedFiles src dst
      let kept := (fs.files.keys.filter fun p => startsWith p (below src)).foldl
        (fun files p => files.erase p) fs.files
      (.ok (),
        { dirs := (fs.dirs \ movedDirs) ∪ movedDirs.image (renamedDir src dst)
          files := movedFiles.foldl (fun files (p, content) => files.insert p content) kept })

/-- `remove`: a file, or a directory that is empty or may be removed with what it holds. -/
def remove (path : Text) (recursive : Bool) : CoreResult Unit × MockFs :=
  if (fs.files.lookup path).isSome then (.ok (), { fs with files := fs.files.erase path })
  else if path ∈ fs.dirs then
    let start := below path
    -- A file anywhere below counts, also where no directory holds it.
    let hasChildren := (∃ d ∈ fs.dirs, startsWith d start) ∨ fs.files.keys.any (startsWith · start)
    if hasChildren ∧ recursive = false then
      (.error { code := .invalidState, detail := some "directory not empty" }, fs)
    else
      (.ok (),
        { dirs := fs.dirs.filter fun d => d ≠ path ∧ !startsWith d start
          files := (fs.files.keys.filter (startsWith · start)).foldl
            (fun files p => files.erase p) fs.files })
  else (.error (notFound path), fs)

/-- `mkdir`: no error for a directory that is there. -/
def mkdir (path : Text) : MockFs := { fs with dirs := insert path fs.dirs }

/-- `copy`: a file, or every path of a directory. -/
def copy (src dst : Text) : CoreResult Unit × MockFs :=
  match fs.files.lookup src with
  | some content => (.ok (), { fs with files := fs.files.insert dst content })
  | none =>
    if src ∉ fs.dirs then (.error (notFound src), fs)
    else
      let copiedDirs := fs.dirs.filter fun d => d = src ∨ startsWith d (below src)
      (.ok (),
        { dirs := fs.dirs ∪ copiedDirs.image (renamedDir src dst)
          files := (fs.renamedFiles src dst).foldl
            (fun files (p, content) => files.insert p content) fs.files })

/-- The answer to a call that gives nothing back. -/
def done : CoreResult Unit → FsAnswer
  | .ok _ => .done
  | .error e => .failed e

/-- The call behind an operation, and what it leaves of the filesystem. -/
def perform : FsOp → FsAnswer × MockFs
  | .list path => (match fs.listDir path with
                   | .ok es => .entries es
                   | .error e => .failed e, fs)
  | .stat path => (match fs.stat path with
                   | .ok e => .entry e
                   | .error e => .failed e, fs)
  | .read path maxLen => (match fs.readFile path maxLen with
                          | .ok bs => .bytes bs
                          | .error e => .failed e, fs)
  | .write path data => (.done, fs.writeFile path data)
  | .rename src dst => (done (fs.rename src dst).1, (fs.rename src dst).2)
  | .remove path recursive => (done (fs.remove path recursive).1, (fs.remove path recursive).2)
  | .mkdir path => (.done, fs.mkdir path)
  | .copy src dst => (done (fs.copy src dst).1, (fs.copy src dst).2)

theorem done_failed {r : CoreResult Unit} {e : CoreError} (h : done r = .failed e) :
    r = .error e := by
  cases r with
  | ok _ => cases h
  | error e' =>
    injection h with h
    rw [h]

/-- The error of a listing. -/
theorem listDir_error {path : Text} {e : CoreError} (h : fs.listDir path = .error e) :
    e.code = .internal := by
  unfold listDir at h
  simp only at h
  split at h
  · cases h
  · injection h with h
    rw [← h]
    rfl

/-- The error of a `stat`. -/
theorem stat_error {path : Text} {e : CoreError} (h : fs.stat path = .error e) :
    e.code = .internal := by
  unfold stat at h
  simp only at h
  split at h
  · cases h
  · split at h
    · cases h
    · injection h with h
      rw [← h]
      rfl

/-- The error of a read. -/
theorem readFile_error {path : Text} {maxLen : UInt64} {e : CoreError}
    (h : fs.readFile path maxLen = .error e) : e.code = .internal := by
  unfold readFile at h
  split at h
  · injection h with h
    rw [← h]
    rfl
  · cases h

/-- The errors of the mock: no such file, or a directory that is not empty. -/
theorem perform_failed {e : CoreError} (op : FsOp) (h : (fs.perform op).1 = .failed e) :
    e.code = .internal ∨ e.code = .invalidState := by
  have hnotFound : ∀ p, notFound p = e → e.code = .internal := by
    intro p hp
    rw [← hp]
    rfl
  cases op with
  | list path =>
    simp only [perform] at h
    split at h
    · cases h
    · next herr =>
      injection h with h
      exact .inl (fs.listDir_error (h ▸ herr))
  | stat path =>
    simp only [perform] at h
    split at h
    · cases h
    · next herr =>
      injection h with h
      exact .inl (fs.stat_error (h ▸ herr))
  | read path maxLen =>
    simp only [perform] at h
    split at h
    · cases h
    · next herr =>
      injection h with h
      exact .inl (fs.readFile_error (h ▸ herr))
  | write path data => cases h
  | mkdir path => cases h
  -- only a source that is not there fails these
  | rename src dst =>
    have herr := done_failed h
    unfold rename at herr
    split at herr
    · cases herr
    · split at herr
      · injection herr with herr
        exact .inl (hnotFound src herr)
      · cases herr
  | copy src dst =>
    have herr := done_failed h
    unfold copy at herr
    split at herr
    · cases herr
    · split at herr
      · injection herr with herr
        exact .inl (hnotFound src herr)
      · cases herr
  | remove path recursive =>
    have herr := done_failed h
    unfold remove at herr
    split at herr
    · cases herr
    · split at herr
      · simp only at herr
        split at herr
        · injection herr with herr
          rw [← herr]
          exact .inr rfl
        · cases herr
      · injection herr with herr
        exact .inl (hnotFound path herr)

/-- The file commands of a queue, carried out one after another. -/
def serve (fs : MockFs) : List Command → List FsAnswer × MockFs
  | [] => ([], fs)
  | .fs _ op :: rest =>
    ((fs.perform op).1 :: (serve (fs.perform op).2 rest).1, (serve (fs.perform op).2 rest).2)
  -- Other commands do not reach the filesystem.
  | _ :: rest => serve fs rest

/-! ## §4. What a write leaves of the other files. -/

/-- Every file is still there, with what it contained. -/
def Keeps (before after : MockFs) : Prop :=
  ∀ path data, before.files.lookup path = some data → after.files.lookup path = some data

theorem Keeps.refl : fs.Keeps fs := fun _ _ h => h

/-- What was written is there. -/
theorem lookup_writeFile_self (path : Text) (data : List UInt8) :
    (fs.writeFile path data).files.lookup path = some data := AList.lookup_insert _

/-- Other files stay. -/
theorem lookup_writeFile_ne {p path : Text} (data : List UInt8) (h : p ≠ path) :
    (fs.writeFile path data).files.lookup p = fs.files.lookup p := AList.lookup_insert_ne h

/-- A write keeps every file exactly if the file was new, or already had these contents. -/
theorem keeps_writeFile_iff (path : Text) (data : List UInt8) :
    fs.Keeps (fs.writeFile path data) ↔
      ∀ old, fs.files.lookup path = some old → old = data := by
  constructor
  · intro h old hold
    have hnew := h path old hold
    rw [lookup_writeFile_self, Option.some.injEq] at hnew
    exact hnew.symm
  · intro h p old hold
    -- only the file that is written can change
    by_cases hp : p = path
    · subst hp
      rw [lookup_writeFile_self, h old hold]
    · rw [lookup_writeFile_ne fs data hp]
      exact hold

end MockFs

end ResearchSSH.Core
