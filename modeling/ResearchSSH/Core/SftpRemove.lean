/-
  ResearchSSH.Core.SftpRemove — recursive delete over SFTP.

  `SftpFileProvider::remove` asks what the path itself is, descends into it only if that is a
  directory and no link, and takes entry after entry out before the directory goes.  It names
  everything by path, so every request resolves its path anew, over links the client never sees.

  The remote side is a `FileTree`, and every request can be refused, or lose its answer after
  it was carried out.  What the client library makes of the attributes of a node is the
  library's affair; all that is asked of it is that it knows a link.

  The recursion is given fuel; it needs no more than the depth of the tree.

  Main results:
    * `remove_confined`  — what a `remove` that returns has done to the tree.
    * `remove_isSome`    — how much fuel is enough.
    * `remove_recursive` — a recursive delete ends, and stays in the subtree of its path.
-/

import ResearchSSH.Core.Driver
import ResearchSSH.Library.FileTree

namespace ResearchSSH.Core

open ResearchSSH.Library

/-! ## §1. The remote side. -/

/-- `FileAttributes`, by the two questions that `remove` asks of it. -/
structure FileAttributes where
  isDir : Bool
  isSymlink : Bool
  deriving DecidableEq, Repr

/-- How a server, seen through the client library, does its work. -/
structure SftpServer (δ : Type) where
  /-- Links that are followed in one path. -/
  linkLimit : Nat
  /-- Is the directory behind a link listed where the link is named? -/
  listsThroughLinks : Bool
  attributes : Node δ → FileAttributes
  symlink_attributes : ∀ target, (attributes (.symlink target)).isSymlink = true
  /-- The order in which `read_dir` names the entries. -/
  order : List Text → List Text
  order_perm : ∀ names, (order names).Perm names
  /-- `canonicalize(".")`. -/
  canonicalHome : Except String Text

/-- What becomes of a request. -/
inductive Delivery
  | served
  | refused
  /-- Carried out, and answered with an error all the same. -/
  | lost
  deriving DecidableEq, Repr

/-- What becomes of a request, and the error it is answered with if it fails. -/
structure Reply where
  delivery : Delivery
  error : String
  deriving DecidableEq, Repr

/-- An `SftpFileProvider` and the tree it works on. -/
structure Sftp (δ : Type) where
  tree : FileTree δ
  home : Option Text
  /-- Requests sent so far. -/
  requests : Nat

/-- `sftp_err`: some of the server's texts are put in other words. -/
def sftpErr (stage raw : String) : CoreError :=
  let lower := raw.toList.map Char.toLower
  let has (part : String) : Bool := lower.tails.any part.toList.isPrefixOf
  let reason :=
    if has "permission" || has "denied" then "permission denied"
    else if has "no such" || has "not found" then "path not found"
    else if has "exists" then "target already exists"
    else if has "directory not empty" || has "not empty" then "directory not empty"
    else raw
  let message :=
    if reason = raw then "sftp " ++ stage ++ ": " ++ raw
    else "sftp " ++ stage ++ ": " ++ reason ++ " (" ++ raw ++ ")"
  { code := .runtimeError, detail := some message }

/-- `join_path`: one slash between the two. -/
def joinPath (dir name : Text) : Text := dir.rdropWhile (· = '/') ++ '/' :: name

section Provider

variable {δ : Type} (server : SftpServer δ) (replies : Nat → Reply)

/-- One request: what it is to do, where it is possible, and what becomes of it. -/
def request {α : Type} (stage : String) (effect : FileTree δ → Option (α × FileTree δ))
    (w : Sftp δ) : CoreResult α × Sftp δ :=
  let reply := replies w.requests
  let w := { w with requests := w.requests + 1 }
  match reply.delivery, effect w.tree with
  | .served, some (a, tree) => (.ok a, { w with tree := tree })
  | .lost, some (_, tree) => (.error (sftpErr stage reply.error), { w with tree := tree })
  | _, _ => (.error (sftpErr stage reply.error), w)

/-- What the server does at `symlink_metadata`: a link is not followed. -/
def lstatEffect (path : Text) (t : FileTree δ) : Option (FileAttributes × FileTree δ) :=
  (resolve t server.linkLimit false path).bind fun place =>
    (t.at? place).map fun node => (server.attributes node, t)

/-- A listing also names the directory itself and its parent. -/
def readDirEffect (path : Text) (t : FileTree δ) : Option (List Text × FileTree δ) :=
  (resolve t server.linkLimit server.listsThroughLinks path).bind fun place =>
    if t.isDirectory place then
      some (server.order (['.'] :: ['.', '.'] :: t.entryNames place), t)
    else none

/-- What the server does at `remove_file`: links go, directories do not. -/
def removeFileEffect (path : Text) (t : FileTree δ) : Option (Unit × FileTree δ) :=
  (resolve t server.linkLimit false path).bind fun place =>
    if h : t.isDirectory place = true then none
    else some ((), t.erase place
      (t.entryNames_of_not_directory fun hdir => h (t.isDirectory_iff.mpr hdir)))

/-- What the server does at `remove_dir`: only an empty directory goes. -/
def removeDirEffect (path : Text) (t : FileTree δ) : Option (Unit × FileTree δ) :=
  (resolve t server.linkLimit false path).bind fun place =>
    if t.isDirectory place then
      if h : t.entryNames place = [] then some ((), t.erase place h) else none
    else none

/-! ## §2. The provider. -/

/-- `home_dir`: asked for once, and `.` if the server does not say. -/
def homeDir (w : Sftp δ) : Text × Sftp δ :=
  match w.home with
  | some home => (home, w)
  | none =>
    let home := match server.canonicalHome with
      | .ok home => home
      | .error _ => ['.']
    (home, { w with home := some home })

/-- `resolve_dir`: what is not absolute lies in the home directory. -/
def resolveDir (path : Text) (w : Sftp δ) : Text × Sftp δ :=
  if path ≠ [] ∧ path ≠ ['.'] ∧ path.head? = some '/' then (path, w)
  else
    let (home, w) := homeDir server w
    if path = [] ∨ path = ['.'] then (home, w) else (joinPath home path, w)

/-- `resolve_path`: what is not absolute lies in the home directory. -/
def resolvePath (path : Text) (w : Sftp δ) : Text × Sftp δ :=
  if path = [] ∨ path = ['.'] then resolveDir server path w
  else if path.head? = some '/' then (path, w)
  else
    let (home, w) := homeDir server w
    (joinPath home path, w)

/-- The loop over the entries of a directory. -/
def removeEntries (remove : Text → Sftp δ → Option (CoreResult Unit × Sftp δ)) (path : Text) :
    List Text → Sftp δ → Option (CoreResult Unit × Sftp δ)
  | [], w => some (.ok (), w)
  | name :: names, w =>
    if name = ['.'] ∨ name = ['.', '.'] then removeEntries remove path names w
    else
      match remove (joinPath path name) w with
      | none => none
      | some (.error e, w) => some (.error e, w)
      | some (.ok (), w) => removeEntries remove path names w

/-- `SftpFileProvider::remove`; `none` where the fuel has run out. -/
def remove : Nat → Text → Bool → Sftp δ → Option (CoreResult Unit × Sftp δ)
  | 0, _, _, _ => none
  | fuel + 1, path, recursive, w =>
    let (path, w) := resolvePath server path w
    match request replies "stat" (lstatEffect server path) w with
    | (.error e, w) => some (.error e, w)
    | (.ok attributes, w) =>
      -- Only a real directory is descended.
      if attributes.isDir && !attributes.isSymlink then
        let emptied : Option (CoreResult Unit × Sftp δ) :=
          if recursive then
            match request replies "read_dir" (readDirEffect server path) w with
            | (.error e, w) => some (.error e, w)
            | (.ok names, w) => removeEntries (fun p w => remove fuel p true w) path names w
          else some (.ok (), w)
        match emptied with
        | none => none
        | some (.error e, w) => some (.error e, w)
        | some (.ok (), w) => some (request replies "rmdir" (removeDirEffect server path) w)
      else some (request replies "remove" (removeFileEffect server path) w)

/-! ## §3. What a request does to the tree. -/

variable {server replies}

/-- A request has its effect and answers, or fails, with the effect or without. -/
theorem request_cases {α : Type} {stage : String}
    {effect : FileTree δ → Option (α × FileTree δ)} {w w' : Sftp δ} {res : CoreResult α}
    (h : request replies stage effect w = (res, w')) :
    (∃ a, res = .ok a ∧ effect w.tree = some (a, w'.tree)) ∨
      (∃ e, res = .error e ∧ (w'.tree = w.tree ∨ ∃ a, effect w.tree = some (a, w'.tree))) := by
  unfold request at h
  simp only at h
  split at h
  · next a tree _ heffect =>
    obtain ⟨rfl, rfl⟩ := Prod.mk.injEq .. ▸ h
    exact .inl ⟨a, rfl, heffect⟩
  · next a tree _ heffect =>
    obtain ⟨rfl, rfl⟩ := Prod.mk.injEq .. ▸ h
    exact .inr ⟨_, rfl, .inr ⟨a, heffect⟩⟩
  · obtain ⟨rfl, rfl⟩ := Prod.mk.injEq .. ▸ h
    exact .inr ⟨_, rfl, .inl rfl⟩

/-- Nothing is gone but nodes at `place` and below. -/
structure Confined (place : Place) (w w' : Sftp δ) : Prop where
  within : w'.tree.Within w.tree
  outside : ∀ inner, ¬ place <+: inner → w'.tree.at? inner = w.tree.at? inner

theorem Confined.of_same {place : Place} {w w' : Sftp δ} (h : w'.tree = w.tree) :
    Confined place w w' where
  within := by
    rw [h]
    exact FileTree.Within.refl _
  outside := fun inner _ => by rw [h]

theorem Confined.trans {place : Place} {w w' w'' : Sftp δ} (h : Confined place w w')
    (h' : Confined place w' w'') : Confined place w w'' where
  within := FileTree.Within.trans h'.within h.within
  outside := fun inner hinner => (h'.outside inner hinner).trans (h.outside inner hinner)

/-- What is confined to an entry is confined to its directory. -/
theorem Confined.of_entry {place : Place} {name : Text} {w w' : Sftp δ}
    (h : Confined (place ++ [name]) w w') : Confined place w w' where
  within := h.within
  outside := fun inner hinner =>
    h.outside inner fun hentry => hinner ((List.prefix_append _ _).trans hentry)

theorem lstat_same {path : Text} {t t' : FileTree δ} {a : FileAttributes}
    (h : lstatEffect server path t = some (a, t')) :
    t' = t ∧ ∃ place node, resolve t server.linkLimit false path = some place ∧
      t.at? place = some node ∧ a = server.attributes node := by
  obtain ⟨place, hplace, hnode⟩ := Option.bind_eq_some_iff.mp h
  obtain ⟨node, hnode, heq⟩ := Option.map_eq_some_iff.mp hnode
  rw [Prod.mk.injEq] at heq
  exact ⟨heq.2.symm, place, node, hplace, hnode, heq.1.symm⟩

theorem readDir_same {path : Text} {t t' : FileTree δ} {names : List Text}
    (h : readDirEffect server path t = some (names, t')) :
    t' = t ∧ ∃ place, resolve t server.linkLimit server.listsThroughLinks path = some place ∧
      t.at? place = some .directory ∧
      ∀ name ∈ names, name = ['.'] ∨ name = ['.', '.'] ∨ name ∈ t.entryNames place := by
  obtain ⟨place, hplace, hlist⟩ := Option.bind_eq_some_iff.mp h
  obtain ⟨hdir, heq⟩ := Option.ite_none_right_eq_some.mp hlist
  rw [Option.some.injEq, Prod.mk.injEq] at heq
  refine ⟨heq.2.symm, place, hplace, t.isDirectory_iff.mp hdir, fun name hname => ?_⟩
  rw [← heq.1, (server.order_perm _).mem_iff] at hname
  simpa using hname

/-- The requests that take a node out take out the node that the path leads to. -/
theorem removeEffect_erases {path : Text} {t t' : FileTree δ} {a : Unit}
    (h : removeFileEffect server path t = some (a, t') ∨
      removeDirEffect server path t = some (a, t')) :
    ∃ place hempty, resolve t server.linkLimit false path = some place ∧
      t' = t.erase place hempty := by
  rcases h with h | h
  · obtain ⟨place, hplace, h⟩ := Option.bind_eq_some_iff.mp h
    split at h
    · cases h
    · rw [Option.some.injEq, Prod.mk.injEq] at h
      exact ⟨place, _, hplace, h.2.symm⟩
  · obtain ⟨place, hplace, h⟩ := Option.bind_eq_some_iff.mp h
    split at h
    · split at h
      · rw [Option.some.injEq, Prod.mk.injEq] at h
        exact ⟨place, _, hplace, h.2.symm⟩
      · cases h
    · cases h

theorem Confined.of_erase {place : Place} {w w' : Sftp δ} {hempty : w.tree.entryNames place = []}
    (h : w'.tree = w.tree.erase place hempty) : Confined place w w' where
  within := by
    rw [h]
    exact w.tree.erase_within hempty
  outside := by
    intro inner hinner
    rw [h]
    refine w.tree.at_erase_ne hempty fun heq => hinner ?_
    exact heq ▸ List.prefix_rfl

/-- The last request of a `remove`: it takes out the node at `place`, or fails. -/
theorem removal_confined {stage : String} {effect : FileTree δ → Option (Unit × FileTree δ)}
    {path : Text} {w w' : Sftp δ} {res : CoreResult Unit} {place : Place}
    (heffect : ∀ t x, effect t = some x →
      removeFileEffect server path t = some x ∨ removeDirEffect server path t = some x)
    (hplace : ∀ p, resolve w.tree server.linkLimit false path = some p → p = place)
    (h : request replies stage effect w = (res, w')) :
    Confined place w w' ∧ (res = .ok () → w'.tree.at? place = none) := by
  have hgone : ∀ a, effect w.tree = some (a, w'.tree) →
      Confined place w w' ∧ w'.tree.at? place = none := by
    intro a ha
    obtain ⟨p, hempty, hp, htree⟩ := removeEffect_erases (heffect _ _ ha)
    have heq := hplace p hp
    subst heq
    exact ⟨.of_erase htree, by rw [htree, FileTree.at_erase_self]⟩
  rcases request_cases h with ⟨a, rfl, ha⟩ | ⟨e, rfl, hsame | ⟨a, ha⟩⟩
  · exact ⟨(hgone a ha).1, fun _ => (hgone a ha).2⟩
  · exact ⟨.of_same hsame, fun hok => by cases hok⟩
  · exact ⟨(hgone a ha).1, fun hok => by cases hok⟩

/-! ## §4. What a `remove` does to the tree. -/

/-- An absolute path is taken as it is. -/
theorem resolvePath_absolute (path : Text) (w : Sftp δ) :
    resolvePath server ('/' :: path) w = ('/' :: path, w) := by
  unfold resolvePath
  rw [if_neg (by simp), if_pos List.head?_cons]

/-- The path of an entry of an absolute path is absolute. -/
theorem joinPath_absolute (path name : Text) :
    ∃ rest, joinPath ('/' :: path) name = '/' :: rest := by
  unfold joinPath
  cases htrim : ('/' :: path).rdropWhile (· = '/') with
  | nil => exact ⟨name, rfl⟩
  | cons c cs =>
    have hprefix : (c :: cs) <+: ('/' :: path) := htrim ▸ List.rdropWhile_prefix _ _
    obtain ⟨rfl, _⟩ := List.cons_prefix_cons.mp hprefix
    exact ⟨_, rfl⟩

/-- The loop over entries, when each of its calls is confined to the directory. -/
theorem removeEntries_confined {rm : Text → Sftp δ → Option (CoreResult Unit × Sftp δ)}
    {path : Text} {place : Place} {whole : FileTree δ} {names : List Text}
    (hrm : ∀ name ∈ names, ∀ u u' res, u.tree.Within whole → name ≠ ['.'] → name ≠ ['.', '.'] →
      rm (joinPath path name) u = some (res, u') → Confined place u u') :
    ∀ (u u' : Sftp δ) (res : CoreResult Unit), u.tree.Within whole →
      removeEntries rm path names u = some (res, u') → Confined place u u' := by
  induction names with
  | nil =>
    intro u u' res _ h
    rw [removeEntries, Option.some.injEq, Prod.mk.injEq] at h
    exact .of_same (by rw [h.2])
  | cons name names ih =>
    intro u u' res hwithin h
    have ih' := ih fun n hn => hrm n (List.mem_cons_of_mem _ hn)
    rw [removeEntries] at h
    split at h
    · exact ih' u u' res hwithin h
    · next hdots =>
      rw [not_or] at hdots
      have hentry := hrm name List.mem_cons_self u
      split at h
      · cases h
      · next e v hv =>
        rw [Option.some.injEq, Prod.mk.injEq] at h
        exact h.2 ▸ hentry v _ hwithin hdots.1 hdots.2 hv
      · next v hv =>
        have hfirst := hentry v _ hwithin hdots.1 hdots.2 hv
        exact hfirst.trans (ih' v u' res (FileTree.Within.trans hfirst.within hwithin) h)

/-- The path leads to `place` here, and in what is left of the tree nowhere else. -/
theorem only_place {limit : Nat} {path : Text} {t u : FileTree δ} {place p : Place}
    (hplace : resolve t limit false path = some place) (hu : u.Within t)
    (hp : resolve u limit false path = some p) : p = place := by
  have hp' := resolve_mono hu hp
  rw [hplace, Option.some.injEq] at hp'
  exact hp'.symm

/-- `symlink_metadata` changes nothing. -/
theorem stat_same {path : Text} {w w' : Sftp δ} {res : CoreResult FileAttributes}
    (h : request replies "stat" (lstatEffect server path) w = (res, w')) : w'.tree = w.tree := by
  rcases request_cases h with ⟨_, _, heffect⟩ | ⟨_, _, hsame | ⟨_, heffect⟩⟩
  · exact (lstat_same heffect).1
  · exact hsame
  · exact (lstat_same heffect).1

/-- What it answers is said of the node the path leads to, links at its end not followed. -/
theorem stat_ok {path : Text} {w w' : Sftp δ} {attributes : FileAttributes}
    (h : request replies "stat" (lstatEffect server path) w = (.ok attributes, w')) :
    ∃ place node, resolve w.tree server.linkLimit false path = some place ∧
      w.tree.at? place = some node ∧ attributes = server.attributes node := by
  rcases request_cases h with ⟨a, hok, heffect⟩ | ⟨_, herr, _⟩
  · cases hok
    exact (lstat_same heffect).2
  · cases herr

/-- `read_dir` changes nothing. -/
theorem list_same {path : Text} {w w' : Sftp δ} {res : CoreResult (List Text)}
    (h : request replies "read_dir" (readDirEffect server path) w = (res, w')) :
    w'.tree = w.tree := by
  rcases request_cases h with ⟨_, _, heffect⟩ | ⟨_, _, hsame | ⟨_, heffect⟩⟩
  · exact (readDir_same heffect).1
  · exact hsame
  · exact (readDir_same heffect).1

/-- Where the path leads to no link, the entries of that very node are listed. -/
theorem list_ok {path : Text} {w w' : Sftp δ} {names : List Text} {place : Place}
    (h : request replies "read_dir" (readDirEffect server path) w = (.ok names, w'))
    (hplace : resolve w.tree server.linkLimit false path = some place)
    (hnolink : ∀ target, w.tree.at? place ≠ some (.symlink target)) :
    w.tree.at? place = some .directory ∧
      ∀ name ∈ names, name ≠ ['.'] → name ≠ ['.', '.'] → name ∈ w.tree.entryNames place := by
  rcases request_cases h with ⟨_, hok, heffect⟩ | ⟨_, herr, _⟩
  · cases hok
    obtain ⟨_, q, hq, hdir, hin⟩ := readDir_same heffect
    rw [resolve_follow hplace hnolink, Option.some.injEq] at hq
    subst hq
    refine ⟨hdir, fun name hname hdot hdots => ?_⟩
    rcases hin name hname with hbad | hbad | hentry
    · exact absurd hbad hdot
    · exact absurd hbad hdots
    · exact hentry
  · cases herr

/-- A node that is descended is no link. -/
theorem not_link_of_descended {node : Node δ}
    (h : (server.attributes node).isDir && !(server.attributes node).isSymlink) (target : Text) :
    node ≠ .symlink target := by
  rintro rfl
  rw [server.symlink_attributes, Bool.not_true, Bool.and_false] at h
  cases h

/-- In what is left of the tree, the path of an entry leads to that entry or nowhere. -/
theorem entry_place {path name : Text} {t u : FileTree δ} {place q : Place}
    (hplace : resolve t server.linkLimit false path = some place)
    (hdir : t.at? place = some .directory) (hname : name ∈ t.entryNames place)
    (hu : u.Within t)
    (hq : resolve u server.linkLimit false (joinPath path name) = some q) :
    q = place ++ [name] := by
  obtain ⟨node, hnode⟩ := t.mem_entryNames.mp hname
  exact resolve_child hplace hdir (t.proper_of_at hnode) (resolve_mono hu hq)

/-- What a call of `remove` has done to the subtree that its path leads to. -/
structure Removes (server : SftpServer δ) (path : Text) (w w' : Sftp δ) (res : CoreResult Unit) :
    Prop where
  found : ∀ place, resolve w.tree server.linkLimit false path = some place →
    Confined place w w' ∧ (res = .ok () → w'.tree.at? place = none)
  missing : resolve w.tree server.linkLimit false path = none →
    res ≠ .ok () ∧ w'.tree = w.tree

/-- A call that failed and changed nothing. -/
theorem Removes.of_error {path : Text} {w w' : Sftp δ} {e : CoreError} (h : w'.tree = w.tree) :
    Removes server path w w' (.error e) where
  found := fun _ _ => ⟨.of_same h, nofun⟩
  missing := fun _ => ⟨nofun, h⟩

/-- A call whose path leads to `place`. -/
theorem Removes.of_place {path : Text} {w w' : Sftp δ} {res : CoreResult Unit} {place : Place}
    (hplace : resolve w.tree server.linkLimit false path = some place)
    (hconfined : Confined place w w') (hgone : res = .ok () → w'.tree.at? place = none) :
    Removes server path w w' res where
  found := by
    intro p hp
    rw [hplace, Option.some.injEq] at hp
    subst hp
    exact ⟨hconfined, hgone⟩
  missing := fun hnone => by rw [hplace] at hnone; cases hnone

/-- The calls for the entries of a directory stay below it. -/
theorem Removes.entry {path name : Text} {t : FileTree δ} {u u' : Sftp δ} {res : CoreResult Unit}
    {place : Place} (h : Removes server (joinPath path name) u u' res)
    (hplace : resolve t server.linkLimit false path = some place)
    (hdir : t.at? place = some .directory) (hname : name ∈ t.entryNames place)
    (hu : u.tree.Within t) : Confined place u u' := by
  cases hchild : resolve u.tree server.linkLimit false (joinPath path name) with
  | none => exact .of_same (h.missing hchild).2
  | some q =>
    have hq := entry_place hplace hdir hname hu hchild
    subst hq
    exact (h.found _ hchild).1.of_entry

/-- **What one recursive call can do**: its first requests fail; or its path leads to a node that
is not descended, and that node is to be removed; or it leads to a directory, whose entries come
first. -/
inductive RemoveCall (server : SftpServer δ) (replies : Nat → Reply) (fuel : Nat) (path : Text)
    (w : Sftp δ) (out : Option (CoreResult Unit × Sftp δ)) : Prop
  | failed (e : CoreError) (w' : Sftp δ) (hsame : w'.tree = w.tree)
      (hout : out = some (.error e, w'))
  | single (place : Place) (w₁ : Sftp δ)
      (hplace : resolve w.tree server.linkLimit false path = some place) (hsame : w₁.tree = w.tree)
      (hout : out = some (request replies "remove" (removeFileEffect server path) w₁))
  | directory (place : Place) (names : List Text) (w₂ : Sftp δ)
      (hplace : resolve w.tree server.linkLimit false path = some place)
      (hdir : w.tree.at? place = some .directory)
      (hnames : ∀ name ∈ names, name ≠ ['.'] → name ≠ ['.', '.'] → name ∈ w.tree.entryNames place)
      (hsame : w₂.tree = w.tree)
      (hout : out =
        match removeEntries (fun p w => remove server replies fuel p true w) path names w₂ with
        | none => none
        | some (.error e, w) => some (.error e, w)
        | some (.ok (), w) => some (request replies "rmdir" (removeDirEffect server path) w))

theorem remove_call (fuel : Nat) (path : Text) (w : Sftp δ) :
    RemoveCall server replies fuel ('/' :: path) w
      (remove server replies (fuel + 1) ('/' :: path) true w) := by
  rw [remove, resolvePath_absolute]
  simp only
  cases hstat : request replies "stat" (lstatEffect server ('/' :: path)) w with
  | mk stat w₁ =>
  have hsame₁ := stat_same hstat
  cases stat with
  | error e => exact .failed e w₁ hsame₁ rfl
  | ok attributes =>
    obtain ⟨place, node, hplace, hnode, rfl⟩ := stat_ok hstat
    simp only
    split
    · next hdescends =>
      simp only [if_true]
      cases hread : request replies "read_dir" (readDirEffect server ('/' :: path)) w₁ with
      | mk listed w₂ =>
      have hsame₂ := (list_same hread).trans hsame₁
      cases listed with
      | error e => exact .failed e w₂ hsame₂ rfl
      | ok names =>
        -- a link is not descended, so the listing is that of the place itself
        have hnolink : ∀ target, w.tree.at? place ≠ some (.symlink target) := by
          intro target htarget
          rw [hnode, Option.some.injEq] at htarget
          exact not_link_of_descended hdescends target htarget
        rw [← hsame₁] at hplace hnolink
        obtain ⟨hdir, hnames⟩ := list_ok hread hplace hnolink
        rw [hsame₁] at hplace hdir hnames
        exact .directory place names w₂ hplace hdir hnames hsame₂ rfl
    · exact .single place w₁ hplace hsame₁ rfl

/-- **What a recursive `remove` that returns has done**: nothing outside of the subtree at the
place its path leads to; and where it reports success, that place is gone. -/
theorem remove_confined (fuel : Nat) : ∀ {path : Text} {w w' : Sftp δ} {res : CoreResult Unit},
    remove server replies fuel ('/' :: path) true w = some (res, w') →
      Removes server ('/' :: path) w w' res := by
  induction fuel with
  | zero => intro path w w' res h; cases h
  | succ fuel ih =>
    intro path w w' res h
    cases @remove_call _ server replies fuel path w with
    | failed e w₁ hsame hout =>
      obtain ⟨rfl, rfl⟩ : Except.error e = res ∧ w₁ = w' := by simpa [h] using hout.symm
      exact .of_error hsame
    | single place w₁ hplace hsame hout =>
      rw [h, Option.some.injEq] at hout
      have hstart : Confined place w w₁ := .of_same hsame
      have hlast := removal_confined (fun _ _ heffect => .inl heffect)
        (fun _ => only_place hplace hstart.within) hout.symm
      exact .of_place hplace (hstart.trans hlast.1) hlast.2
    | directory place names w₂ hplace hdir hnames hsame hout =>
      have hlisted : Confined place w w₂ := .of_same hsame
      -- every call of the loop is for an entry of the directory at `place`
      have hentries : ∀ name ∈ names, ∀ u u' res, u.tree.Within w.tree → name ≠ ['.'] →
          name ≠ ['.', '.'] →
          remove server replies fuel (joinPath ('/' :: path) name) true u = some (res, u') →
            Confined place u u' := by
        intro name hname u u' res hu hdot hdots hrun
        obtain ⟨rest, hrest⟩ := joinPath_absolute path name
        rw [hrest] at hrun
        have hchild := ih hrun
        rw [← hrest] at hchild
        exact hchild.entry hplace hdir (hnames name hname hdot hdots) hu
      rw [h] at hout
      cases hloop : removeEntries (fun p w => remove server replies fuel p true w)
          ('/' :: path) names w₂ with
      | none => rw [hloop] at hout; cases hout
      | some emptied =>
        obtain ⟨result, w₃⟩ := emptied
        have hemptied := hlisted.trans
          (removeEntries_confined hentries w₂ w₃ result hlisted.within hloop)
        rw [hloop] at hout
        cases result with
        | error e =>
          simp only [Option.some.injEq, Prod.mk.injEq] at hout
          obtain ⟨rfl, rfl⟩ := hout
          exact .of_place hplace hemptied nofun
        | ok _ =>
          -- the directory itself goes last
          simp only [Option.some.injEq] at hout
          have hlast := removal_confined (fun _ _ heffect => .inr heffect)
            (fun _ => only_place hplace hemptied.within) hout.symm
          exact .of_place hplace (hemptied.trans hlast.1) hlast.2

/-! ## §5. Enough fuel. -/

theorem removeEntries_mono {rm rm' : Text → Sftp δ → Option (CoreResult Unit × Sftp δ)}
    (h : ∀ p u out, rm p u = some out → rm' p u = some out) (path : Text) (names : List Text) :
    ∀ {u : Sftp δ} {out : CoreResult Unit × Sftp δ},
      removeEntries rm path names u = some out → removeEntries rm' path names u = some out := by
  induction names with
  | nil => intro u out hrun; exact hrun
  | cons name names ih =>
    intro u out hrun
    rw [removeEntries] at hrun ⊢
    split at hrun
    · next hdots => rw [if_pos hdots]; exact ih hrun
    · next hdots =>
      rw [if_neg hdots]
      cases hcall : rm (joinPath path name) u with
      | none => rw [hcall] at hrun; cases hrun
      | some first =>
        rw [hcall] at hrun
        rw [h _ _ _ hcall]
        obtain ⟨res, v⟩ := first
        cases res with
        | error e => exact hrun
        | ok _ => exact ih hrun

/-- More fuel gives the same result. -/
theorem remove_mono (fuel : Nat) : ∀ {path : Text} {recursive : Bool} {w : Sftp δ}
    {out : CoreResult Unit × Sftp δ}, remove server replies fuel path recursive w = some out →
      remove server replies (fuel + 1) path recursive w = some out := by
  induction fuel with
  | zero => intro path recursive w out h; cases h
  | succ fuel ih =>
    intro path recursive w out h
    rw [remove] at h ⊢
    cases hresolved : resolvePath server path w with
    | mk path u =>
    rw [hresolved] at h
    simp only at h ⊢
    cases hstat : request replies "stat" (lstatEffect server path) u with
    | mk stat v =>
    rw [hstat] at h
    cases stat with
    | error e => exact h
    | ok attributes =>
      simp only at h ⊢
      split at h
      · next hdescends =>
        rw [if_pos hdescends]
        cases recursive with
        | false => exact h
        | true =>
          -- the entries are removed with the fuel that is left, where the hypothesis holds
          simp only [if_true] at h ⊢
          cases hread : request replies "read_dir" (readDirEffect server path) v with
          | mk listed x =>
          rw [hread] at h
          cases listed with
          | error e => exact h
          | ok names =>
            simp only at h ⊢
            cases hloop : removeEntries (fun p w => remove server replies fuel p true w)
                path names x with
            | none => rw [hloop] at h; cases h
            | some emptied =>
              rw [hloop] at h
              rw [removeEntries_mono (fun _ _ _ hcall => ih hcall) path names hloop]
              exact h
      · next hplain =>
        rw [if_neg hplain]
        exact h

/-- What a call of `remove` has left is within what it found. -/
theorem Removes.within {path : Text} {w w' : Sftp δ} {res : CoreResult Unit}
    (h : Removes server path w w' res) : w'.tree.Within w.tree := by
  cases hplace : resolve w.tree server.linkLimit false path with
  | none =>
    rw [(h.missing hplace).2]
    exact FileTree.Within.refl _
  | some place => exact (h.found place hplace).1.within

/-- The loop over entries returns if each of its calls does. -/
theorem removeEntries_isSome (rm : Text → Sftp δ → Option (CoreResult Unit × Sftp δ))
    {path : Text} {whole : FileTree δ} {names : List Text}
    (hrm : ∀ name ∈ names, ∀ u, u.tree.Within whole → name ≠ ['.'] → name ≠ ['.', '.'] →
      ∃ out, rm (joinPath path name) u = some out ∧ out.2.tree.Within u.tree) :
    ∀ u : Sftp δ, u.tree.Within whole → ∃ out, removeEntries rm path names u = some out := by
  induction names with
  | nil => exact fun u _ => ⟨_, rfl⟩
  | cons name names ih =>
    intro u hu
    have ih' := ih fun n hn => hrm n (List.mem_cons_of_mem _ hn)
    rw [removeEntries]
    by_cases hdots : name = ['.'] ∨ name = ['.', '.']
    · rw [if_pos hdots]
      exact ih' u hu
    · rw [if_neg hdots]
      rw [not_or] at hdots
      obtain ⟨⟨res, v⟩, hcall, hv⟩ := hrm name List.mem_cons_self u hu hdots.1 hdots.2
      rw [hcall]
      cases res with
      | error e => exact ⟨_, rfl⟩
      | ok _ => exact ih' v (FileTree.Within.trans hv hu)

/-- **Enough fuel**: one call for every level between the path's place and the deepest node. -/
theorem remove_isSome (fuel : Nat) : ∀ {path : Text} {w : Sftp δ} {depth : Nat},
    (∀ place node, w.tree.at? place = some node → place.length ≤ depth) → 0 < fuel →
    (∀ place, resolve w.tree server.linkLimit false ('/' :: path) = some place →
      depth < fuel + place.length) →
    ∃ out, remove server replies fuel ('/' :: path) true w = some out := by
  induction fuel with
  | zero => intro path w depth _ hfuel _; omega
  | succ fuel ih =>
    intro path w depth hdepth _ henough
    cases @remove_call _ server replies fuel path w with
    | failed e w₁ hsame hout => exact ⟨_, hout⟩
    | single place w₁ hplace hsame hout => exact ⟨_, hout⟩
    | directory place names w₂ hplace hdir hnames hsame hout =>
      have hroom := henough place hplace
      -- an entry is one level deeper, and a call with one unit less is made for it
      have hentries : ∀ name ∈ names, ∀ u, u.tree.Within w.tree → name ≠ ['.'] →
          name ≠ ['.', '.'] →
          ∃ out, remove server replies fuel (joinPath ('/' :: path) name) true u = some out ∧
            out.2.tree.Within u.tree := by
        intro name hname u hu hdot hdots
        have hentry := hnames name hname hdot hdots
        obtain ⟨child, hchild⟩ := w.tree.mem_entryNames.mp hentry
        have hdeep := hdepth _ _ hchild
        rw [List.length_append, List.length_singleton] at hdeep
        obtain ⟨rest, hrest⟩ := joinPath_absolute path name
        have henter : ∀ q, resolve u.tree server.linkLimit false ('/' :: rest) = some q →
            depth < fuel + q.length := by
          intro q hq
          rw [← hrest] at hq
          rw [entry_place hplace hdir hentry hu hq, List.length_append, List.length_singleton]
          omega
        rw [hrest]
        obtain ⟨⟨res, u'⟩, hrun⟩ := ih (fun q n hq => hdepth q n (hu q n hq)) (by omega) henter
        exact ⟨_, hrun, (remove_confined fuel hrun).within⟩
      have hstart : w₂.tree.Within w.tree := by
        rw [hsame]
        exact FileTree.Within.refl _
      obtain ⟨⟨result, w₃⟩, hloop⟩ := removeEntries_isSome
        (fun p w => remove server replies fuel p true w) hentries w₂ hstart
      rw [hout, hloop]
      cases result with
      | error e => exact ⟨_, rfl⟩
      | ok _ => exact ⟨_, rfl⟩

/-- From some amount of fuel on, the result is one and the same. -/
theorem remove_settles (path : Text) (w : Sftp δ) :
    ∃ out bound, ∀ fuel ≥ bound, remove server replies fuel ('/' :: path) true w = some out := by
  obtain ⟨depth, hdepth⟩ := w.tree.exists_depth
  have hsome : ∃ out, remove server replies (depth + 1) ('/' :: path) true w = some out :=
    remove_isSome (depth + 1) hdepth (by omega) (fun place _ => by omega)
  obtain ⟨out, hout⟩ := hsome
  refine ⟨out, depth + 1, fun fuel hfuel => ?_⟩
  induction fuel, hfuel using Nat.le_induction with
  | base => exact hout
  | succ fuel _ ih => exact remove_mono fuel ih

/-- **A recursive delete ends, and stays in the subtree of its path.**  Whatever the tree and
whichever requests fail: where it succeeds, exactly the nodes at and below the place that the
path leads to are gone; where it fails, no others are.  Every other node is as it was. -/
theorem remove_recursive (server : SftpServer δ) (replies : Nat → Reply) (w : Sftp δ)
    (path : Text) :
    ∃ res w' bound,
      (∀ fuel ≥ bound, remove server replies fuel ('/' :: path) true w = some (res, w')) ∧
      (res = .ok () → ∃ place, resolve w.tree server.linkLimit false ('/' :: path) = some place ∧
        ∀ inner, w'.tree.at? inner = if place <+: inner then none else w.tree.at? inner) ∧
      (res ≠ .ok () → ∀ inner, w'.tree.at? inner = w.tree.at? inner ∨
        w'.tree.at? inner = none ∧ ∃ place,
          resolve w.tree server.linkLimit false ('/' :: path) = some place ∧ place <+: inner) := by
  have hsettles : ∃ out bound, ∀ fuel ≥ bound,
      remove server replies fuel ('/' :: path) true w = some out := remove_settles path w
  obtain ⟨⟨res, w'⟩, bound, hbound⟩ := hsettles
  have hremoves := remove_confined bound (hbound bound le_rfl)
  refine ⟨res, w', bound, hbound, fun hok => ?_, fun _ inner => ?_⟩
  · cases hplace : resolve w.tree server.linkLimit false ('/' :: path) with
    | none => exact absurd hok (hremoves.missing hplace).1
    | some place =>
      obtain ⟨hconfined, hgone⟩ := hremoves.found place hplace
      refine ⟨place, rfl, fun inner => ?_⟩
      -- all below the place is gone, and nothing beside it was touched
      by_cases hinner : place <+: inner
      · obtain ⟨rest, rfl⟩ := hinner
        rw [if_pos (List.prefix_append _ _)]
        exact w'.tree.not_mem_below (hgone hok) rest
      · rw [if_neg hinner]
        exact hconfined.outside inner hinner
  · cases hplace : resolve w.tree server.linkLimit false ('/' :: path) with
    | none => exact .inl (by rw [(hremoves.missing hplace).2])
    | some place =>
      obtain ⟨hconfined, _⟩ := hremoves.found place hplace
      -- after a failure what is below it is as it was or gone
      by_cases hinner : place <+: inner
      · cases hleft : w'.tree.at? inner with
        | none => exact .inr ⟨rfl, place, rfl, hinner⟩
        | some node => exact .inl (hconfined.within inner node hleft).symm
      · exact .inl (hconfined.outside inner hinner)

end Provider

end ResearchSSH.Core
