/-
  ResearchSSH.Core.SftpFiles — the file operations over SFTP.

  A file is read and written in as many requests as the server and the client library see fit,
  each of which can fail, or lose its answer after it was carried out; an operation that is
  cancelled ends at such a request as well.  Paths are resolved by the server, over links the
  client never sees, so two paths can be one file.

  Main results:
    * `resolvePath_eq`   — the path that a request is made with, whatever was asked before.
    * `readToEnd_reads`  — the pieces that are read are the file.
    * `writeAll_writes`  — the pieces that are written are the beginning of what is to be written.
-/

import ResearchSSH.Core.MockFs
import ResearchSSH.Core.SftpRemove
import ResearchSSH.Library.TreeWrites

namespace ResearchSSH.Core

open ResearchSSH.Library

/-! ## §1. The remote side. -/

/-- The contents of a file. -/
abbrev Bytes := List UInt8

/-- `FileAttributes`, as a listing uses them. -/
structure Metadata where
  isSymlink : Bool
  isDir : Bool
  isRegular : Bool
  size : Option UInt64
  mtime : Option UInt32
  permissions : Option UInt32
  deriving DecidableEq, Repr

/-- A server whose files hold bytes. -/
structure FileServer extends SftpServer Bytes where
  metadata : Place → Node Bytes → Metadata
  /-- The bytes that the request of this number moves at most. -/
  portion : Nat → Nat
  portion_pos : ∀ n, 0 < portion n

namespace Sftp

section Provider

variable (server : FileServer) (replies : Nat → Reply)

/-- The attributes of what a listing names; they are not looked at for the directory itself and
its parent. -/
def entryMetadata (t : FileTree Bytes) (place : Place) (name : Text) : Metadata :=
  match t.at? (place ++ [name]) with
  | some node => server.metadata (place ++ [name]) node
  | none => server.metadata place .directory

/-- What the server does at `read_dir`: the names, each with its attributes. -/
def readDirEffect (path : Text) (t : FileTree Bytes) :
    Option (List (Text × Metadata) × FileTree Bytes) :=
  (Core.readDirEffect server.toSftpServer path t).bind fun (names, t) =>
    (resolve t server.linkLimit server.listsThroughLinks path).map fun place =>
      (names.map fun name => (name, entryMetadata server t place name), t)

/-- `metadata` follows links. -/
def metadataEffect (path : Text) (t : FileTree Bytes) : Option (Metadata × FileTree Bytes) :=
  (resolve t server.linkLimit true path).bind fun place =>
    (t.at? place).map fun node => (server.metadata place node, t)

/-- `open`, of a file; devices and the like are not opened. -/
def openEffect (path : Text) (t : FileTree Bytes) : Option (Place × FileTree Bytes) :=
  (resolve t server.linkLimit true path).bind fun place =>
    if t.isFile place then some (place, t) else none

/-- A read of at most `want` bytes at `offset`; there are none at the end of the file. -/
def readEffect (handle : Place) (offset want : Nat) (t : FileTree Bytes) :
    Option (Bytes × FileTree Bytes) :=
  match t.at? handle with
  | some (.file data) => some ((data.drop offset).take want, t)
  | _ => none

/-- `create`: the file is empty afterwards, whether it was there or not. -/
def createEffect (path : Text) (t : FileTree Bytes) : Option (Place × FileTree Bytes) :=
  (resolveNew t server.linkLimit true path).bind fun
    | .existing place => if t.isFile place then some (place, t.write place []) else none
    | .vacant dir name => (t.create dir name (.file [])).map fun t => (dir ++ [name], t)

/-- What the server does at a write: the bytes replace those at the offset. -/
def writeEffect (handle : Place) (offset : Nat) (bytes : Bytes) (t : FileTree Bytes) :
    Option (Unit × FileTree Bytes) :=
  match t.at? handle with
  | some (.file data) =>
    some ((), t.write handle
      (data.take offset ++ bytes ++ data.drop (offset + bytes.length)))
  | _ => none

/-- `rename`, to a name that is not taken. -/
def renameEffect (src dst : Text) (t : FileTree Bytes) : Option (Unit × FileTree Bytes) :=
  (resolve t server.linkLimit false src).bind fun place =>
    (resolveNew t server.linkLimit false dst).bind fun
      | .existing _ => none
      | .vacant dir name => (t.move place dir name).map fun t => ((), t)

/-- `create_dir`; a directory may be named with slashes at the end. -/
def createDirEffect (path : Text) (t : FileTree Bytes) : Option (Unit × FileTree Bytes) :=
  (resolveNew t server.linkLimit false (path.rdropWhile (· = '/'))).bind fun
    | .existing _ => none
    | .vacant dir name => (t.create dir name .directory).map fun t => ((), t)

/-! ## §2. The provider. -/

/-- `map_meta_kind`. -/
def mapMetaKind (attrs : Metadata) : FileKind :=
  if attrs.isSymlink then .symlink
  else if attrs.isDir then .directory
  else if attrs.isRegular then .file
  else .other

/-- The entry that `list_dir` and `stat` make of attributes. -/
def fileEntry (name path : Text) (attrs : Metadata) : FileEntry :=
  let kind := mapMetaKind attrs
  { name := name
    path := path
    kind := kind
    size := attrs.size.getD 0
    modifiedUnix := (attrs.mtime.map fun m => m.toUInt64.toInt64).getD (-1)
    mode := attrs.permissions.getD 0
    editableText := kind = .file && looksLikeText name }

/-- The entries of a listing, without the directory itself and its parent. -/
def fileEntries (dir : Text) (listed : List (Text × Metadata)) : List FileEntry :=
  listed.filterMap fun (name, attrs) =>
    if name = ['.'] ∨ name = ['.', '.'] then none
    else some (fileEntry name (joinPath dir name) attrs)

/-- `list_dir`. -/
def listDir (path : Text) (w : Sftp Bytes) : CoreResult (List FileEntry) × Sftp Bytes :=
  let (dir, w) := resolveDir server.toSftpServer path w
  match request replies "read_dir" (readDirEffect server dir) w with
  | (.error e, w) => (.error e, w)
  | (.ok listed, w) => (.ok (fileEntries dir listed), w)

/-- `stat`. -/
def stat (path : Text) (w : Sftp Bytes) : CoreResult FileEntry × Sftp Bytes :=
  let (p, w) := resolvePath server.toSftpServer path w
  match request replies "metadata" (metadataEffect server p) w with
  | (.error e, w) => (.error e, w)
  | (.ok attrs, w) => (.ok (fileEntry (p.rtakeWhile (· ≠ '/')) p attrs), w)

/-- `read_to_end`, of a handle that gives `left` more bytes if it was cut; `none` where the fuel
has run out. -/
def readToEnd (stage : String) (handle : Place) :
    Nat → Option Nat → Bytes → Sftp Bytes → Option (CoreResult Bytes × Sftp Bytes)
  | 0, _, _, _ => none
  | fuel + 1, left, data, w =>
    if left = some 0 then some (.ok data, w)
    else
      let want := min (server.portion w.requests) (left.getD (server.portion w.requests))
      match request replies stage (readEffect handle data.length want) w with
      | (.error e, w) => some (.error e, w)
      | (.ok bytes, w) =>
        if bytes = [] then some (.ok data, w)
        else readToEnd stage handle fuel (left.map (· - bytes.length)) (data ++ bytes) w

/-- `write_all`, of what is left to be written behind `offset`. -/
def writeAll (stage : String) (handle : Place) :
    Nat → Nat → Bytes → Sftp Bytes → Option (CoreResult Unit × Sftp Bytes)
  | 0, _, _, _ => none
  | fuel + 1, offset, rest, w =>
    if rest = [] then some (.ok (), w)
    else
      let chunk := rest.take (server.portion w.requests)
      match request replies stage (writeEffect handle offset chunk) w with
      | (.error e, w) => some (.error e, w)
      | (.ok (), w) =>
        writeAll stage handle fuel (offset + chunk.length) (rest.drop chunk.length) w

/-- `read_file`: asks until the end of the file or the most that is wanted. -/
def readFile (fuel : Nat) (path : Text) (maxLen : UInt64) (w : Sftp Bytes) :
    Option (CoreResult Bytes × Sftp Bytes) :=
  let (p, w) := resolvePath server.toSftpServer path w
  match request replies "open" (openEffect server p) w with
  | (.error e, w) => some (.error e, w)
  | (.ok file, w) =>
    -- A length of 0 means no limit.
    let left := if maxLen > 0 then some maxLen.toNat else none
    readToEnd server replies "read" file fuel left [] w

/-- Make the file empty, and write to it: how `write_file` and `copy` go on. -/
def createAndWrite (create write : String) (fuel : Nat) (p : Text) (data : Bytes)
    (w : Sftp Bytes) : Option (CoreResult Unit × Sftp Bytes) :=
  match request replies create (createEffect server p) w with
  | (.error e, w) => some (.error e, w)
  | (.ok file, w) => writeAll server replies write file fuel 0 data w

/-- `write_file`. -/
def writeFile (fuel : Nat) (path : Text) (data : Bytes) (w : Sftp Bytes) :
    Option (CoreResult Unit × Sftp Bytes) :=
  let (p, w) := resolvePath server.toSftpServer path w
  createAndWrite server replies "create" "write" fuel p data w

/-- `rename`. -/
def rename (src dst : Text) (w : Sftp Bytes) : CoreResult Unit × Sftp Bytes :=
  let (src, w) := resolvePath server.toSftpServer src w
  let (dst, w) := resolvePath server.toSftpServer dst w
  request replies "rename" (renameEffect server src dst) w

/-- `mkdir`. -/
def mkdir (path : Text) (w : Sftp Bytes) : CoreResult Unit × Sftp Bytes :=
  let (p, w) := resolvePath server.toSftpServer path w
  request replies "mkdir" (createDirEffect server p) w

/-- `copy`: the whole file is read before the other one is made. -/
def copy (fuel : Nat) (src dst : Text) (w : Sftp Bytes) :
    Option (CoreResult Unit × Sftp Bytes) :=
  let (src, w) := resolvePath server.toSftpServer src w
  let (dst, w) := resolvePath server.toSftpServer dst w
  -- `sftp.read`: the file is opened and read to its end.
  match request replies "copy read" (openEffect server src) w with
  | (.error e, w) => some (.error e, w)
  | (.ok file, w) =>
    match readToEnd server replies "copy read" file fuel none [] w with
    | none => none
    | some (.error e, w) => some (.error e, w)
    | some (.ok data, w) =>
      createAndWrite server replies "copy create" "copy write" fuel dst data w

/-- The answer to a call, by what is made of a value. -/
def answerOf {α : Type} (f : α → FsAnswer) : CoreResult α → FsAnswer
  | .ok a => f a
  | .error e => .failed e

/-- The call behind an operation. -/
def perform (fuel : Nat) : FsOp → Sftp Bytes → Option (FsAnswer × Sftp Bytes)
  | .list path, w => some ((listDir server replies path w).map (answerOf .entries) id)
  | .stat path, w => some ((stat server replies path w).map (answerOf .entry) id)
  | .read path maxLen, w =>
    (readFile server replies fuel path maxLen w).map (Prod.map (answerOf .bytes) id)
  | .write path data, w => (writeFile server replies fuel path data w).map (Prod.map MockFs.done id)
  | .rename src dst, w => some ((rename server replies src dst w).map MockFs.done id)
  | .remove path recursive, w =>
    (remove server.toSftpServer replies fuel path recursive w).map (Prod.map MockFs.done id)
  | .mkdir path, w => some ((mkdir server replies path w).map MockFs.done id)
  | .copy src dst, w => (copy server replies fuel src dst w).map (Prod.map MockFs.done id)

/-- What comes to a server: an operation, or another connection with a provider of its own. -/
inductive Event
  | operation (op : FsOp)
  | reconnected
  deriving DecidableEq, Repr

/-- One event after another, whatever the operations answer. -/
def run (fuel : Nat) : List Event → Sftp Bytes → Option (Sftp Bytes)
  | [], w => some w
  | .operation op :: events, w =>
    (perform server replies fuel op w).bind fun (_, w) => run fuel events w
  | .reconnected :: events, w => run fuel events { w with home := none }

/-! ## §3. Paths. -/

/-- The home directory: what `canonicalize(".")` gives, and a dot where that fails. -/
def toldHome : Text :=
  match server.canonicalHome with
  | .ok home => home
  | .error _ => ['.']

/-- The path that a request for `path` is made with. -/
def fullPath (path : Text) : Text :=
  if path = [] ∨ path = ['.'] then toldHome server
  else if path.head? = some '/' then path
  else joinPath (toldHome server) path

/-- The home directory that is remembered is the one that is told. -/
def Homed (w : Sftp Bytes) : Prop := ∀ home, w.home = some home → home = toldHome server

variable {server replies}

/-- The home directory is the one the server tells. -/
theorem homeDir_eq {w : Sftp Bytes} (hw : Homed server w) :
    ∃ w₁, homeDir server.toSftpServer w = (toldHome server, w₁) ∧ w₁.tree = w.tree ∧
      Homed server w₁ := by
  unfold homeDir
  cases hhome : w.home with
  | some home => exact ⟨w, by rw [hw home hhome], rfl, hw⟩
  | none =>
    refine ⟨{ w with home := some (toldHome server) }, rfl, rfl, ?_⟩
    intro home heq
    exact (Option.some.inj heq).symm

/-- A path of a file or a directory becomes the same full path. -/
theorem resolveDir_eq {w : Sftp Bytes} (hw : Homed server w) (path : Text) :
    ∃ w₁, resolveDir server.toSftpServer path w = (fullPath server path, w₁) ∧
      w₁.tree = w.tree ∧ Homed server w₁ := by
  obtain ⟨w₁, hhome, htree, hw₁⟩ := homeDir_eq hw
  unfold resolveDir fullPath
  by_cases hdot : path = [] ∨ path = ['.']
  · have hno : ¬ (path ≠ [] ∧ path ≠ ['.'] ∧ path.head? = some '/') := by
      rintro ⟨h₁, h₂, _⟩
      exact hdot.elim h₁ h₂
    rw [if_neg hno, if_pos hdot, hhome]
    simp only
    rw [if_pos hdot]
    exact ⟨w₁, rfl, htree, hw₁⟩
  · rw [if_neg hdot]
    by_cases habsolute : path.head? = some '/'
    · rw [if_pos ⟨fun h => hdot (.inl h), fun h => hdot (.inr h), habsolute⟩, if_pos habsolute]
      exact ⟨w, rfl, rfl, hw⟩
    · rw [if_neg (fun h => habsolute h.2.2), if_neg habsolute, hhome]
      simp only
      rw [if_neg hdot]
      exact ⟨w₁, rfl, htree, hw₁⟩

/-- A path is completed by the home directory. -/
theorem resolvePath_eq {w : Sftp Bytes} (hw : Homed server w) (path : Text) :
    ∃ w₁, resolvePath server.toSftpServer path w = (fullPath server path, w₁) ∧
      w₁.tree = w.tree ∧ Homed server w₁ := by
  unfold resolvePath
  by_cases hdot : path = [] ∨ path = ['.']
  · rw [if_pos hdot]
    exact resolveDir_eq hw path
  · rw [if_neg hdot]
    unfold fullPath
    rw [if_neg hdot]
    by_cases habsolute : path.head? = some '/'
    · rw [if_pos habsolute, if_pos habsolute]
      exact ⟨w, rfl, rfl, hw⟩
    · obtain ⟨w₁, hhome, htree, hw₁⟩ := homeDir_eq hw
      rw [if_neg habsolute, if_neg habsolute, hhome]
      exact ⟨w₁, rfl, htree, hw₁⟩

/-- A full path is absolute if the home directory is. -/
theorem fullPath_absolute (hhome : (toldHome server).head? = some '/') (path : Text) :
    ∃ rest, fullPath server path = '/' :: rest := by
  have hcons : ∀ s : Text, s.head? = some '/' → ∃ rest, s = '/' :: rest := by
    intro s hs
    obtain ⟨rest, hrest⟩ := List.head?_eq_some_iff.mp hs
    exact ⟨rest, hrest⟩
  unfold fullPath
  split
  · exact hcons _ hhome
  · split
    · next habsolute => exact hcons _ habsolute
    · obtain ⟨rest, hrest⟩ := hcons _ hhome
      rw [hrest]
      exact joinPath_absolute rest path

/-! ## §4. Requests. -/

theorem request_home {α : Type} {stage : String}
    {effect : FileTree Bytes → Option (α × FileTree Bytes)} {w w' : Sftp Bytes}
    {res : CoreResult α} (h : request replies stage effect w = (res, w')) : w'.home = w.home := by
  unfold request at h
  simp only at h
  split at h <;> (obtain ⟨_, rfl⟩ := Prod.mk.injEq .. ▸ h; rfl)

/-- A request that only looks. -/
theorem request_same {α : Type} {stage : String}
    {effect : FileTree Bytes → Option (α × FileTree Bytes)} {w w' : Sftp Bytes}
    {res : CoreResult α} (hsame : ∀ t a t', effect t = some (a, t') → t' = t)
    (h : request replies stage effect w = (res, w')) :
    w'.tree = w.tree ∧ ∀ a, res = .ok a → effect w.tree = some (a, w.tree) := by
  rcases request_cases h with ⟨a, rfl, heffect⟩ | ⟨e, rfl, htree | ⟨a, heffect⟩⟩
  · have htree := hsame _ _ _ heffect
    refine ⟨htree, fun b hb => ?_⟩
    injection hb with hb
    rw [← hb, heffect, htree]
  · exact ⟨htree, fun b hb => by cases hb⟩
  · exact ⟨hsame _ _ _ heffect, fun b hb => by cases hb⟩

/-- An open changes nothing and finds its file. -/
theorem openEffect_some {path : Text} {t t' : FileTree Bytes} {file : Place}
    (h : openEffect server path t = some (file, t')) :
    t' = t ∧ resolve t server.linkLimit true path = some file ∧
      ∃ data, t.at? file = some (.file data) := by
  obtain ⟨place, hplace, h⟩ := Option.bind_eq_some_iff.mp h
  obtain ⟨hfile, heq⟩ := Option.ite_none_right_eq_some.mp h
  rw [Option.some.injEq, Prod.mk.injEq] at heq
  obtain ⟨rfl, rfl⟩ := heq
  exact ⟨rfl, hplace, t.isFile_iff.mp hfile⟩

/-- A read changes nothing and returns a piece of the file. -/
theorem readEffect_some {file : Place} {offset want : Nat} {t t' : FileTree Bytes}
    {bytes : Bytes} (h : readEffect file offset want t = some (bytes, t')) :
    t' = t ∧ ∀ data, t.at? file = some (.file data) → bytes = (data.drop offset).take want := by
  unfold readEffect at h
  split at h
  · next data hdata =>
    rw [Option.some.injEq, Prod.mk.injEq] at h
    obtain ⟨rfl, rfl⟩ := h
    refine ⟨rfl, fun data' hdata' => ?_⟩
    rw [hdata, Option.some.injEq] at hdata'
    injection hdata' with heq
    rw [heq]
  · cases h

/-- The file at `place` now holds `data`, and nothing else is changed. -/
structure Sets (place : Place) (data : Bytes) (t t' : FileTree Bytes) : Prop where
  file : t'.at? place = some (.file data)
  elsewhere : ∀ inner, inner ≠ place → t'.at? inner = t.at? inner
  /-- There was a file, or nothing. -/
  was : ∀ node, t.at? place = some node → ∃ old, node = .file old

theorem Sets.trans {place : Place} {data data' : Bytes} {t u v : FileTree Bytes}
    (h : Sets place data t u) (h' : Sets place data' u v) : Sets place data' t v where
  file := h'.file
  elsewhere := fun inner hne => (h'.elsewhere inner hne).trans (h.elsewhere inner hne)
  was := h.was

theorem Sets.kept {place : Place} {data : Bytes} {t t' : FileTree Bytes}
    (h : Sets place data t t') : t.Kept t' := by
  intro inner node hnode
  by_cases heq : inner = place
  · rw [heq] at hnode ⊢
    obtain ⟨old, rfl⟩ := h.was node hnode
    rw [h.file]
    rfl
  · rw [h.elsewhere inner heq, hnode]
    rfl

theorem sets_write {place : Place} {old data : Bytes} {t : FileTree Bytes}
    (h : t.at? place = some (.file old)) : Sets place data t (t.write place data) where
  file := by rw [t.at_write h, if_pos rfl]
  elsewhere := fun inner hne => by rw [t.at_write h, if_neg hne]
  was := by
    intro node hnode
    rw [h, Option.some.injEq] at hnode
    exact ⟨old, hnode.symm⟩

/-- A create leaves an empty file. -/
theorem createEffect_some {path : Text} {t t' : FileTree Bytes} {file : Place}
    (h : createEffect server path t = some (file, t')) :
    ∃ found, resolveNew t server.linkLimit true path = some found ∧ found.place = file ∧
      Sets file [] t t' := by
  obtain ⟨found, hfound, h⟩ := Option.bind_eq_some_iff.mp h
  refine ⟨found, hfound, ?_⟩
  cases found with
  | existing place =>
    obtain ⟨hfile, heq⟩ := Option.ite_none_right_eq_some.mp h
    rw [Option.some.injEq, Prod.mk.injEq] at heq
    obtain ⟨rfl, rfl⟩ := heq
    obtain ⟨old, hold⟩ := t.isFile_iff.mp hfile
    exact ⟨rfl, sets_write hold⟩
  | vacant dir name =>
    obtain ⟨u, hu, heq⟩ := Option.map_eq_some_iff.mp h
    rw [Prod.mk.injEq] at heq
    obtain ⟨rfl, rfl⟩ := heq
    obtain ⟨hvacant, hat⟩ := t.create_eq_some hu
    refine ⟨rfl, ?_, ?_, ?_⟩
    · rw [hat, if_pos rfl]
    · intro inner hne
      rw [hat, if_neg hne]
    · intro node hnode
      rw [hvacant.free] at hnode
      cases hnode

/-- A write replaces its piece of the file. -/
theorem writeEffect_some {file : Place} {offset : Nat} {bytes old : Bytes}
    {t t' : FileTree Bytes} {a : Unit} (h : writeEffect file offset bytes t = some (a, t'))
    (hold : t.at? file = some (.file old)) :
    Sets file (old.take offset ++ bytes ++ old.drop (offset + bytes.length)) t t' := by
  unfold writeEffect at h
  rw [hold] at h
  simp only [Option.some.injEq, Prod.mk.injEq] at h
  rw [← h.2]
  exact sets_write hold

/-! ## §5. The loops. -/

/-- What a limit leaves of the contents of a file. -/
def upTo : Option Nat → Bytes → Bytes
  | none, whole => whole
  | some n, whole => whole.take n

/-- What has been read so far is the beginning of the file, and so is what is read in the end. -/
theorem readToEnd_reads {stage : String} {file : Place} {whole : Bytes} (fuel : Nat) :
    ∀ {left : Option Nat} {data : Bytes} {w w' : Sftp Bytes} {res : CoreResult Bytes},
      readToEnd server replies stage file fuel left data w = some (res, w') →
      w.tree.at? file = some (.file whole) → data = whole.take data.length →
        w'.tree = w.tree ∧ w'.home = w.home ∧
          ∀ bytes, res = .ok bytes → bytes = upTo (left.map (data.length + ·)) whole := by
  induction fuel with
  | zero =>
    intro left data w w' res h
    cases h
  | succ fuel ih =>
    intro left data w w' res h hfile hdata
    rw [readToEnd] at h
    -- as much was read as was asked for
    by_cases hleft : left = some 0
    · rw [if_pos hleft, Option.some.injEq, Prod.mk.injEq] at h
      obtain ⟨rfl, rfl⟩ := h
      refine ⟨rfl, rfl, fun bytes hbytes => ?_⟩
      injection hbytes with hbytes
      rw [← hbytes, hleft]
      exact hdata
    · rw [if_neg hleft] at h
      simp only at h
      generalize hwant : min (server.portion w.requests)
        (left.getD (server.portion w.requests)) = want at h
      -- a request for nothing would look like the end of the file
      have hpos : 0 < want := by
        have hportion := server.portion_pos w.requests
        cases left with
        | none =>
          rw [Option.getD_none] at hwant
          omega
        | some n =>
          have hn : n ≠ 0 := fun heq => hleft (by rw [heq])
          rw [Option.getD_some] at hwant
          omega
      cases hread : request replies stage (readEffect file data.length want) w with
      | mk answer w₁ =>
      have hlook := request_same (fun _ _ _ heffect => (readEffect_some heffect).1) hread
      have hhome := request_home hread
      rw [hread] at h
      cases answer with
      | error e =>
        simp only [Option.some.injEq, Prod.mk.injEq] at h
        obtain ⟨rfl, rfl⟩ := h
        exact ⟨hlook.1, hhome, fun bytes hbytes => by cases hbytes⟩
      | ok chunk =>
        have hchunk := (readEffect_some (hlook.2 chunk rfl)).2 whole hfile
        simp only at h
        by_cases hend : chunk = []
        · -- nothing came, so everything was read
          rw [if_pos hend, Option.some.injEq, Prod.mk.injEq] at h
          obtain ⟨rfl, rfl⟩ := h
          refine ⟨hlook.1, hhome, fun bytes hbytes => ?_⟩
          injection hbytes with hbytes
          have hlong : whole.length ≤ data.length := by
            have hlength := congrArg List.length hchunk
            rw [hend, List.length_nil, List.length_take, List.length_drop] at hlength
            omega
          have hwhole : data = whole := by
            rw [hdata, List.take_of_length_le hlong]
          rw [← hbytes, hwhole]
          cases left with
          | none => rfl
          | some n =>
            show whole = whole.take (whole.length + n)
            rw [List.take_of_length_le (by omega)]
        · -- one piece more, and the loop goes on behind it
          rw [if_neg hend] at h
          have hlength : chunk.length ≤ want := by
            rw [hchunk, List.length_take]
            omega
          have hnext : data ++ chunk = whole.take (data ++ chunk).length := by
            rw [List.length_append, List.take_add, ← hdata]
            congr 1
            rw [hchunk]
            simp
          have hrest := ih h (by rw [hlook.1]; exact hfile) hnext
          refine ⟨hrest.1.trans hlook.1, hrest.2.1.trans hhome, fun bytes hbytes => ?_⟩
          rw [hrest.2.2 bytes hbytes]
          cases left with
          | none => rfl
          | some n =>
            have hn : want ≤ n := by
              rw [Option.getD_some] at hwant
              omega
            show whole.take ((data ++ chunk).length + (n - chunk.length))
              = whole.take (data.length + n)
            congr 1
            rw [List.length_append]
            omega

/-- What is written so far is the beginning of what is to be written, however it ends. -/
theorem writeAll_writes {stage : String} {file : Place} {whole : Bytes} (fuel : Nat) :
    ∀ {offset : Nat} {w w' : Sftp Bytes} {res : CoreResult Unit},
      writeAll server replies stage file fuel offset (whole.drop offset) w = some (res, w') →
      w.tree.at? file = some (.file (whole.take offset)) →
        ∃ n, Sets file (whole.take n) w.tree w'.tree ∧ w'.home = w.home ∧
          (res = .ok () → whole.take n = whole) := by
  induction fuel with
  | zero =>
    intro offset w w' res h
    cases h
  | succ fuel ih =>
    intro offset w w' res h hfile
    have hstart : Sets file (whole.take offset) w.tree w.tree :=
      ⟨hfile, fun _ _ => rfl, fun node hnode => by
        rw [hfile, Option.some.injEq] at hnode
        exact ⟨_, hnode.symm⟩⟩
    rw [writeAll] at h
    by_cases hend : whole.drop offset = []
    · rw [if_pos hend, Option.some.injEq, Prod.mk.injEq] at h
      obtain ⟨rfl, rfl⟩ := h
      refine ⟨offset, hstart, rfl, fun _ => ?_⟩
      rw [List.take_of_length_le (List.drop_eq_nil_iff.mp hend)]
    · rw [if_neg hend] at h
      simp only at h
      generalize hchunk : (whole.drop offset).take (server.portion w.requests) = chunk at h
      have hinside : offset < whole.length := by
        rw [List.drop_eq_nil_iff] at hend
        omega
      -- the file is the beginning of what is to be written after this request as before it
      have hafter : ∀ t', (∃ a, writeEffect file offset chunk w.tree = some (a, t')) →
          Sets file (whole.take (offset + chunk.length)) w.tree t' := by
        rintro t' ⟨a, heffect⟩
        have hsets := writeEffect_some heffect hfile
        have hbytes : (whole.take offset).take offset ++ chunk
            ++ (whole.take offset).drop (offset + chunk.length)
            = whole.take (offset + chunk.length) := by
          have hshort : (whole.take offset).length ≤ offset + chunk.length := by
            rw [List.length_take]
            omega
          rw [List.take_take, Nat.min_self, List.drop_eq_nil_of_le hshort, List.append_nil,
            List.take_add, ← hchunk]
          congr 1
          simp
        rw [hbytes] at hsets
        exact hsets
      cases hrequest : request replies stage (writeEffect file offset chunk) w with
      | mk answer w₁ =>
      have hhome := request_home hrequest
      rw [hrequest] at h
      rcases request_cases hrequest with ⟨a, rfl, heffect⟩ | ⟨e, rfl, hfailed⟩
      · have hsets := hafter w₁.tree ⟨a, heffect⟩
        simp only [List.drop_drop] at h
        obtain ⟨n, hn, hhome', hok⟩ := ih h hsets.file
        exact ⟨n, hsets.trans hn, hhome'.trans hhome, hok⟩
      · simp only [Option.some.injEq, Prod.mk.injEq] at h
        obtain ⟨rfl, rfl⟩ := h
        rcases hfailed with hsame | ⟨a, heffect⟩
        · exact ⟨offset, by rw [hsame]; exact hstart, hhome, fun hok => by cases hok⟩
        · exact ⟨_, hafter w₁.tree ⟨a, heffect⟩, hhome, fun hok => by cases hok⟩

end Provider

end Sftp

end ResearchSSH.Core
