/-
  ResearchSSH.Core.SftpOutcomes — what a file operation over SFTP has done when it ends.

  Any request of an operation can fail, before or after it was carried out, and a cancelled
  operation ends at a request as well.  What is left then is not nothing: a write may have cut its
  file and written the beginning of what was to be written, a recursive delete may have taken out
  part of its subtree.  But nothing else is touched.

  Main results:
    * `perform_settles` — with enough fuel every operation ends, and always in the same way.
    * `perform_outcome` — what the operation has done when it has ended.
-/

import ResearchSSH.Core.SftpFiles

namespace ResearchSSH.Core.Sftp

open ResearchSSH.Library

variable {server : FileServer} {replies : Nat → Reply}

/-! ## §1. Writing, reading and copying. -/

theorem Homed.of_home {w w' : Sftp Bytes} (hw : Homed server w) (h : w'.home = w.home) :
    Homed server w' := by
  intro home heq
  rw [h] at heq
  exact hw home heq

/-- **What a write leaves**: nothing was begun, or the file holds the beginning of what was to be
written; all of it, where the write says that it is `done`. -/
inductive Writes (server : FileServer) (p : Text) (data : Bytes) (t t' : FileTree Bytes)
    (done : Prop) : Prop
  | untouched (same : t' = t) (failed : ¬ done)
  | begun (found : Target) (written : Bytes)
      (leads : resolveNew t server.linkLimit true p = some found)
      (beginning : written <+: data) (sets : Sets found.place written t t')
      (whole : done → written = data)

/-- What a write leaves, whether or not it succeeds. -/
theorem createAndWrite_writes {create write : String} {fuel : Nat} {p : Text} {data : Bytes}
    {w w' : Sftp Bytes} {res : CoreResult Unit} (hw : Homed server w)
    (h : createAndWrite server replies create write fuel p data w = some (res, w')) :
    Writes server p data w.tree w'.tree (res = .ok ()) ∧ Homed server w' := by
  unfold createAndWrite at h
  cases hcreate : request replies create (createEffect server p) w with
  | mk answer w₁ =>
  have hhome := request_home hcreate
  rw [hcreate] at h
  rcases request_cases hcreate with ⟨file, rfl, heffect⟩ | ⟨e, rfl, hfailed⟩
  · obtain ⟨found, hfound, rfl, hempty⟩ := createEffect_some heffect
    obtain ⟨n, hsets, hhome', hok⟩ := writeAll_writes fuel h hempty.file
    exact ⟨.begun found _ hfound (List.take_prefix n data) (hempty.trans hsets) hok,
      hw.of_home (hhome'.trans hhome)⟩
  · simp only [Option.some.injEq, Prod.mk.injEq] at h
    obtain ⟨rfl, rfl⟩ := h
    refine ⟨?_, hw.of_home hhome⟩
    rcases hfailed with hsame | ⟨file, heffect⟩
    · exact .untouched hsame (fun hok => by cases hok)
    · -- the file was made, though the answer says otherwise
      obtain ⟨found, hfound, rfl, hempty⟩ := createEffect_some heffect
      exact .begun found [] hfound List.nil_prefix hempty (fun hok => by cases hok)

/-- What `write_file` leaves. -/
theorem writeFile_writes {fuel : Nat} {path : Text} {data : Bytes} {w w' : Sftp Bytes}
    {res : CoreResult Unit} (hw : Homed server w)
    (h : writeFile server replies fuel path data w = some (res, w')) :
    Writes server (fullPath server path) data w.tree w'.tree (res = .ok ()) ∧
      Homed server w' := by
  obtain ⟨w₁, hpath, htree, hw₁⟩ := resolvePath_eq hw path
  unfold writeFile at h
  rw [hpath] at h
  rw [← htree]
  exact createAndWrite_writes hw₁ h

/-- The file that a path leads to. -/
def LeadsToFile (server : FileServer) (t : FileTree Bytes) (p : Text) (whole : Bytes) : Prop :=
  ∃ place, resolve t server.linkLimit true p = some place ∧ t.at? place = some (.file whole)

/-- The limit of a read; 0 means none. -/
def readLimit (maxLen : UInt64) : Option Nat := if maxLen > 0 then some maxLen.toNat else none

/-- What `read_file` returns. -/
theorem readFile_reads {fuel : Nat} {path : Text} {maxLen : UInt64} {w w' : Sftp Bytes}
    {res : CoreResult Bytes} (hw : Homed server w)
    (h : readFile server replies fuel path maxLen w = some (res, w')) :
    w'.tree = w.tree ∧ Homed server w' ∧ ∀ bytes, res = .ok bytes →
      ∃ whole, LeadsToFile server w.tree (fullPath server path) whole ∧
        bytes = upTo (readLimit maxLen) whole := by
  obtain ⟨w₁, hpath, htree, hw₁⟩ := resolvePath_eq hw path
  unfold readFile at h
  rw [hpath] at h
  simp only at h
  cases hopen : request replies "open" (openEffect server (fullPath server path)) w₁ with
  | mk answer w₂ =>
  have hlook := request_same (fun _ _ _ heffect => (openEffect_some heffect).1) hopen
  have hw₂ := hw₁.of_home (request_home hopen)
  rw [hopen] at h
  cases answer with
  | error e =>
    simp only [Option.some.injEq, Prod.mk.injEq] at h
    obtain ⟨rfl, rfl⟩ := h
    exact ⟨hlook.1.trans htree, hw₂, fun bytes hbytes => by cases hbytes⟩
  | ok file =>
    obtain ⟨-, hplace, whole, hwhole⟩ := openEffect_some (hlook.2 file rfl)
    rw [htree] at hplace hwhole
    have hfile : w₂.tree.at? file = some (.file whole) := by
      rw [hlook.1, htree]
      exact hwhole
    -- nothing changes the file between its opening and its last piece
    obtain ⟨hsame, hhome, hread⟩ := readToEnd_reads fuel h hfile rfl
    refine ⟨hsame.trans (hlook.1.trans htree), hw₂.of_home hhome, fun bytes hbytes => ?_⟩
    refine ⟨whole, ⟨file, hplace, hwhole⟩, ?_⟩
    rw [hread bytes hbytes]
    show upTo ((readLimit maxLen).map (0 + ·)) whole = _
    cases readLimit maxLen with
    | none => rfl
    | some n => rw [Option.map_some, Nat.zero_add]

/-- What a copy leaves: what a write of the contents of its source leaves. -/
inductive Copies (server : FileServer) (src dst : Text) (t t' : FileTree Bytes) (done : Prop) :
    Prop
  | untouched (same : t' = t) (failed : ¬ done)
  | begun (whole : Bytes) (source : LeadsToFile server t src whole)
      (writes : Writes server dst whole t t' done)

/-- What `copy` leaves. -/
theorem copy_copies {fuel : Nat} {src dst : Text} {w w' : Sftp Bytes} {res : CoreResult Unit}
    (hw : Homed server w) (h : copy server replies fuel src dst w = some (res, w')) :
    Copies server (fullPath server src) (fullPath server dst) w.tree w'.tree (res = .ok ()) ∧
      Homed server w' := by
  obtain ⟨w₀, hsrc, htree₀, hw₀⟩ := resolvePath_eq hw src
  obtain ⟨w₁, hdst, htree₁, hw₁⟩ := resolvePath_eq hw₀ dst
  have htree : w₁.tree = w.tree := htree₁.trans htree₀
  unfold copy at h
  rw [hsrc] at h
  simp only at h
  rw [hdst] at h
  simp only at h
  -- the source is read whole before anything is written
  cases hopen : request replies "copy read" (openEffect server (fullPath server src)) w₁ with
  | mk answer w₂ =>
  have hlook := request_same (fun _ _ _ heffect => (openEffect_some heffect).1) hopen
  have hw₂ := hw₁.of_home (request_home hopen)
  rw [hopen] at h
  cases answer with
  | error e =>
    simp only [Option.some.injEq, Prod.mk.injEq] at h
    obtain ⟨rfl, rfl⟩ := h
    exact ⟨.untouched (hlook.1.trans htree) (fun hok => by cases hok), hw₂⟩
  | ok file =>
    simp only at h
    obtain ⟨-, hplace, whole, hwhole⟩ := openEffect_some (hlook.2 file rfl)
    rw [htree] at hplace hwhole
    have hfile : w₂.tree.at? file = some (.file whole) := by
      rw [hlook.1, htree]
      exact hwhole
    cases hread : readToEnd server replies "copy read" file fuel none [] w₂ with
    | none =>
      rw [hread] at h
      cases h
    | some out =>
      obtain ⟨answer, w₃⟩ := out
      obtain ⟨hsame, hhome, hbytes⟩ := readToEnd_reads fuel hread hfile rfl
      have hw₃ := hw₂.of_home hhome
      have hback : w₃.tree = w.tree := hsame.trans (hlook.1.trans htree)
      rw [hread] at h
      cases answer with
      | error e =>
        simp only [Option.some.injEq, Prod.mk.injEq] at h
        obtain ⟨rfl, rfl⟩ := h
        exact ⟨.untouched hback (fun hok => by cases hok), hw₃⟩
      | ok data =>
        have hdata : data = whole := hbytes data rfl
        -- from here on it is a write of what was read
        obtain ⟨hwrites, hw'⟩ := createAndWrite_writes hw₃ h
        rw [hback, hdata] at hwrites
        exact ⟨.begun whole ⟨file, hplace, hwhole⟩ hwrites, hw'⟩

/-! ## §2. Renaming and making directories. -/

/-- A change that takes place at once: where it is `done` it has taken place, and else it may
have. -/
def AtOnce (change : FileTree Bytes → FileTree Bytes → Prop) (t t' : FileTree Bytes)
    (done : Prop) : Prop := (done → change t t') ∧ (t' = t ∨ change t t')

/-- A single request changes all or nothing. -/
theorem request_atOnce {stage : String} {effect : FileTree Bytes → Option (Unit × FileTree Bytes)}
    {w w' : Sftp Bytes} {res : CoreResult Unit}
    (h : request replies stage effect w = (res, w')) :
    AtOnce (fun t t' => ∃ a, effect t = some (a, t')) w.tree w'.tree (res = .ok ()) := by
  rcases request_cases h with ⟨a, rfl, heffect⟩ | ⟨e, rfl, hfailed⟩
  · exact ⟨fun _ => ⟨a, heffect⟩, .inr ⟨a, heffect⟩⟩
  · exact ⟨fun hok => (by cases hok), hfailed⟩

theorem AtOnce.imp {change change' : FileTree Bytes → FileTree Bytes → Prop}
    {t t' : FileTree Bytes} {done : Prop} (h : AtOnce change t t' done)
    (himp : change t t' → change' t t') : AtOnce change' t t' done :=
  ⟨fun hdone => himp (h.1 hdone), h.2.imp_right himp⟩

/-- The subtree at the place of `src` has become the new entry that `dst` names. -/
def Renames (server : FileServer) (src dst : Text) (t t' : FileTree Bytes) : Prop :=
  ∃ place dir name, resolve t server.linkLimit false src = some place ∧
    resolveNew t server.linkLimit false dst = some (.vacant dir name) ∧
    t.move place dir name = some t'

/-- What `rename` leaves. -/
theorem rename_renames {src dst : Text} {w w' : Sftp Bytes} {res : CoreResult Unit}
    (hw : Homed server w) (h : rename server replies src dst w = (res, w')) :
    AtOnce (Renames server (fullPath server src) (fullPath server dst)) w.tree w'.tree
      (res = .ok ()) ∧ Homed server w' := by
  obtain ⟨w₀, hsrc, htree₀, hw₀⟩ := resolvePath_eq hw src
  obtain ⟨w₁, hdst, htree₁, hw₁⟩ := resolvePath_eq hw₀ dst
  unfold rename at h
  rw [hsrc] at h
  simp only at h
  rw [hdst] at h
  refine ⟨?_, hw₁.of_home (request_home h)⟩
  rw [← htree₀, ← htree₁]
  refine (request_atOnce h).imp ?_
  rintro ⟨a, heffect⟩
  obtain ⟨place, hplace, heffect⟩ := Option.bind_eq_some_iff.mp heffect
  obtain ⟨found, hfound, heffect⟩ := Option.bind_eq_some_iff.mp heffect
  cases found with
  | existing other => cases heffect
  | vacant dir name =>
    obtain ⟨u, hu, heq⟩ := Option.map_eq_some_iff.mp heffect
    rw [Prod.mk.injEq] at heq
    exact ⟨place, dir, name, hplace, hfound, heq.2 ▸ hu⟩

/-- There is a new directory. -/
def MakesDir (server : FileServer) (p : Text) (t t' : FileTree Bytes) : Prop :=
  ∃ dir name,
    resolveNew t server.linkLimit false (p.rdropWhile (· = '/')) = some (.vacant dir name) ∧
    t.create dir name .directory = some t'

/-- What `mkdir` leaves. -/
theorem mkdir_makes {path : Text} {w w' : Sftp Bytes} {res : CoreResult Unit}
    (hw : Homed server w) (h : mkdir server replies path w = (res, w')) :
    AtOnce (MakesDir server (fullPath server path)) w.tree w'.tree (res = .ok ()) ∧
      Homed server w' := by
  obtain ⟨w₁, hpath, htree, hw₁⟩ := resolvePath_eq hw path
  unfold mkdir at h
  rw [hpath] at h
  refine ⟨?_, hw₁.of_home (request_home h)⟩
  rw [← htree]
  refine (request_atOnce h).imp ?_
  rintro ⟨a, heffect⟩
  obtain ⟨found, hfound, heffect⟩ := Option.bind_eq_some_iff.mp heffect
  cases found with
  | existing other => cases heffect
  | vacant dir name =>
    obtain ⟨u, hu, heq⟩ := Option.map_eq_some_iff.mp heffect
    rw [Prod.mk.injEq] at heq
    exact ⟨dir, name, hfound, heq.2 ▸ hu⟩

/-! ## §3. Removing. -/

/-- What is gone from the tree after a `remove`: nothing but nodes of the subtree at the place of
the path; and that place, where it is done. -/
structure RemovesTree (server : FileServer) (p : Text) (t t' : FileTree Bytes) (done : Prop) :
    Prop where
  within : t'.Within t
  outside : ∀ inner, (∀ place, resolve t server.linkLimit false p = some place →
    ¬ place <+: inner) → t'.at? inner = t.at? inner
  gone : done → ∃ place, resolve t server.linkLimit false p = some place ∧
    ∀ rest, t'.at? (place ++ rest) = none

theorem removesTree_of {p : Text} {w w' : Sftp Bytes} {res : CoreResult Unit}
    (h : Removes server.toSftpServer p w w' res) :
    RemovesTree server p w.tree w'.tree (res = .ok ()) where
  within := h.within
  outside := by
    intro inner hinner
    cases hplace : resolve w.tree server.linkLimit false p with
    | none => rw [(h.missing hplace).2]
    | some place => exact (h.found place hplace).1.outside inner (hinner place hplace)
  gone := by
    intro hdone
    cases hplace : resolve w.tree server.linkLimit false p with
    | none => exact absurd hdone (h.missing hplace).1
    | some place =>
      exact ⟨place, rfl, w'.tree.not_mem_below ((h.found place hplace).2 hdone)⟩

/-- A `remove` that does not descend takes out one node, or fails. -/
theorem remove_single {fuel : Nat} {path : Text} {w w' : Sftp Bytes} {res : CoreResult Unit}
    (h : remove server.toSftpServer replies (fuel + 1) ('/' :: path) false w = some (res, w')) :
    Removes server.toSftpServer ('/' :: path) w w' res := by
  rw [remove, resolvePath_absolute] at h
  simp only at h
  cases hstat : request replies "stat" (lstatEffect server.toSftpServer ('/' :: path)) w with
  | mk answer w₁ =>
  have hsame := stat_same hstat
  rw [hstat] at h
  cases answer with
  | error e =>
    simp only [Option.some.injEq, Prod.mk.injEq] at h
    obtain ⟨rfl, rfl⟩ := h
    exact .of_error hsame
  | ok attributes =>
    obtain ⟨place, node, hplace, -, -⟩ := stat_ok hstat
    have hstart : Confined place w w₁ := .of_same hsame
    have honly : ∀ p, resolve w₁.tree server.linkLimit false ('/' :: path) = some p →
        p = place := by
      intro p hp
      rw [hsame, hplace, Option.some.injEq] at hp
      exact hp.symm
    simp only [Bool.false_eq_true, if_false] at h
    split at h
    · rw [Option.some.injEq] at h
      have hlast := removal_confined (fun _ _ heffect => .inr heffect) honly h
      exact .of_place hplace (hstart.trans hlast.1) hlast.2
    · rw [Option.some.injEq] at h
      have hlast := removal_confined (fun _ _ heffect => .inl heffect) honly h
      exact .of_place hplace (hstart.trans hlast.1) hlast.2

/-- From its full path on, `remove` names everything by absolute paths. -/
theorem remove_resolved (replies : Nat → Reply) (hhome : (toldHome server).head? = some '/')
    {w : Sftp Bytes} (hw : Homed server w) (path : Text) :
    ∃ rest w₁, fullPath server path = '/' :: rest ∧ w₁.tree = w.tree ∧ Homed server w₁ ∧
      ∀ fuel recursive, remove server.toSftpServer replies fuel path recursive w
        = remove server.toSftpServer replies fuel ('/' :: rest) recursive w₁ := by
  obtain ⟨rest, hrest⟩ := fullPath_absolute hhome path
  obtain ⟨w₁, hpath, htree, hw₁⟩ := resolvePath_eq hw path
  refine ⟨rest, w₁, hrest, htree, hw₁, fun fuel recursive => ?_⟩
  cases fuel with
  | zero => rfl
  | succ fuel =>
    rw [remove, remove, hpath, hrest, resolvePath_absolute]

theorem removeEntries_homed {rm : Text → Sftp Bytes → Option (CoreResult Unit × Sftp Bytes)}
    (hrm : ∀ p u res u', Homed server u → rm p u = some (res, u') → Homed server u')
    (path : Text) (names : List Text) : ∀ {u u' : Sftp Bytes} {res : CoreResult Unit},
      Homed server u → removeEntries rm path names u = some (res, u') → Homed server u' := by
  induction names with
  | nil =>
    intro u u' res hu h
    rw [removeEntries, Option.some.injEq, Prod.mk.injEq] at h
    exact h.2 ▸ hu
  | cons name names ih =>
    intro u u' res hu h
    rw [removeEntries] at h
    split at h
    · exact ih hu h
    · split at h
      · cases h
      · next e v hv =>
        rw [Option.some.injEq, Prod.mk.injEq] at h
        exact h.2 ▸ hrm _ _ _ _ hu hv
      · next v hv => exact ih (hrm _ _ _ _ hu hv) h

theorem remove_homed (fuel : Nat) : ∀ {path : Text} {recursive : Bool} {w w' : Sftp Bytes}
    {res : CoreResult Unit}, Homed server w →
      remove server.toSftpServer replies fuel path recursive w = some (res, w') →
        Homed server w' := by
  induction fuel with
  | zero =>
    intro path recursive w w' res _ h
    cases h
  | succ fuel ih =>
    intro path recursive w w' res hw h
    -- each request leaves the home directory that was told once
    obtain ⟨w₁, hpath, -, hw₁⟩ := resolvePath_eq hw path
    rw [remove, hpath] at h
    simp only at h
    generalize fullPath server path = p at h
    cases hstat : request replies "stat" (lstatEffect server.toSftpServer p) w₁ with
    | mk answer w₂ =>
    have hw₂ := hw₁.of_home (request_home hstat)
    rw [hstat] at h
    cases answer with
    | error e =>
      simp only [Option.some.injEq, Prod.mk.injEq] at h
      exact h.2 ▸ hw₂
    | ok attributes =>
      simp only at h
      split at h
      · cases recursive with
        | false =>
          simp only [Bool.false_eq_true, if_false, Option.some.injEq] at h
          exact hw₂.of_home (request_home h)
        | true =>
          simp only [if_true] at h
          cases hread : request replies "read_dir"
              (Core.readDirEffect server.toSftpServer p) w₂ with
          | mk listed w₃ =>
          have hw₃ := hw₂.of_home (request_home hread)
          rw [hread] at h
          cases listed with
          | error e =>
            simp only [Option.some.injEq, Prod.mk.injEq] at h
            exact h.2 ▸ hw₃
          | ok names =>
            simp only at h
            cases hloop : removeEntries
                (fun p w => remove server.toSftpServer replies fuel p true w) p names w₃ with
            | none =>
              rw [hloop] at h
              cases h
            | some emptied =>
              obtain ⟨result, w₄⟩ := emptied
              -- the entries are removed by the function itself
              have hw₄ := removeEntries_homed (fun _ _ _ _ hu hrm => ih hu hrm) p names hw₃ hloop
              rw [hloop] at h
              cases result with
              | error e =>
                simp only [Option.some.injEq, Prod.mk.injEq] at h
                exact h.2 ▸ hw₄
              | ok _ =>
                simp only [Option.some.injEq] at h
                exact hw₄.of_home (request_home h)
      · rw [Option.some.injEq] at h
        exact hw₂.of_home (request_home h)

/-- What `remove` leaves. -/
theorem remove_removes (hhome : (toldHome server).head? = some '/') {fuel : Nat} {path : Text}
    {recursive : Bool} {w w' : Sftp Bytes} {res : CoreResult Unit} (hw : Homed server w)
    (h : remove server.toSftpServer replies fuel path recursive w = some (res, w')) :
    RemovesTree server (fullPath server path) w.tree w'.tree (res = .ok ()) ∧
      Homed server w' := by
  refine ⟨?_, remove_homed fuel hw h⟩
  obtain ⟨rest, w₁, hrest, htree, -, hremove⟩ := remove_resolved replies hhome hw path
  rw [hremove] at h
  rw [hrest, ← htree]
  cases recursive with
  | true => exact removesTree_of (remove_confined fuel h)
  | false =>
    cases fuel with
    | zero => cases h
    | succ fuel => exact removesTree_of (remove_single h)

/-! ## §4. Looking. -/

/-- **What a listing says of a directory**: one entry for each of its nodes, with the path that
leads to the node and what the server says of it. -/
def Lists (server : FileServer) (t : FileTree Bytes) (p : Text) (entries : List FileEntry) :
    Prop :=
  ∃ place, resolve t server.linkLimit server.listsThroughLinks p = some place ∧
    t.at? place = some .directory ∧
    (entries.map FileEntry.name).Perm (t.entryNames place) ∧
    ∀ e ∈ entries, ∃ node, t.at? (place ++ [e.name]) = some node ∧
      resolve t server.linkLimit false e.path = some (place ++ [e.name]) ∧
      e = fileEntry e.name (joinPath p e.name) (server.metadata (place ++ [e.name]) node)

theorem readDirEffect_some {p : Text} {t t' : FileTree Bytes}
    {entries : List (Text × Metadata)} (h : readDirEffect server p t = some (entries, t')) :
    t' = t ∧ ∃ (place : Place) (names : List Text),
      resolve t server.linkLimit server.listsThroughLinks p = some place ∧
      t.at? place = some .directory ∧
      names.Perm (['.'] :: ['.', '.'] :: t.entryNames place) ∧
      entries = names.map fun name => (name, entryMetadata server t place name) := by
  obtain ⟨⟨names, u⟩, hnames, h⟩ := Option.bind_eq_some_iff.mp h
  obtain ⟨place, hplace, hlist⟩ := Option.bind_eq_some_iff.mp hnames
  obtain ⟨hdir, heq⟩ := Option.ite_none_right_eq_some.mp hlist
  rw [Option.some.injEq, Prod.mk.injEq] at heq
  obtain ⟨rfl, rfl⟩ := heq
  simp only [hplace, Option.map_some, Option.some.injEq, Prod.mk.injEq] at h
  exact ⟨h.2.symm, place, _, hplace, t.isDirectory_iff.mp hdir, server.order_perm _, h.1.symm⟩

theorem map_name_entries (p : Text) (attrsOf : Text → Metadata) (names : List Text) :
    (fileEntries p (names.map fun name => (name, attrsOf name))).map FileEntry.name
      = names.filter fun name => !decide (name = ['.'] ∨ name = ['.', '.']) := by
  induction names with
  | nil => rfl
  | cons name names ih =>
    rw [List.map_cons, fileEntries, List.filterMap_cons, List.filter_cons]
    by_cases hdots : name = ['.'] ∨ name = ['.', '.']
    · simp only [if_pos hdots, decide_eq_true hdots, Bool.not_true, Bool.false_eq_true, if_false]
      exact ih
    · simp only [if_neg hdots, decide_eq_false hdots, Bool.not_false, if_true, List.map_cons]
      exact congrArg (name :: ·) ih

/-- What `list_dir` returns. -/
theorem listDir_lists {path : Text} {w w' : Sftp Bytes} {res : CoreResult (List FileEntry)}
    (hw : Homed server w) (h : listDir server replies path w = (res, w')) :
    w'.tree = w.tree ∧ Homed server w' ∧ ∀ entries, res = .ok entries →
      Lists server w.tree (fullPath server path) entries := by
  obtain ⟨w₁, hpath, htree, hw₁⟩ := resolveDir_eq hw path
  unfold listDir at h
  rw [hpath] at h
  simp only at h
  generalize fullPath server path = p at h ⊢
  cases hread : request replies "read_dir" (readDirEffect server p) w₁ with
  | mk answer w₂ =>
  have hlook := request_same (fun _ _ _ heffect => (readDirEffect_some heffect).1) hread
  have hw₂ := hw₁.of_home (request_home hread)
  rw [hread] at h
  cases answer with
  | error e =>
    simp only [Prod.mk.injEq] at h
    obtain ⟨rfl, rfl⟩ := h
    exact ⟨hlook.1.trans htree, hw₂, fun entries hentries => by cases hentries⟩
  | ok listed =>
    simp only [Prod.mk.injEq] at h
    obtain ⟨rfl, rfl⟩ := h
    refine ⟨hlook.1.trans htree, hw₂, fun entries hentries => ?_⟩
    injection hentries with hentries
    obtain ⟨-, place, names, hplace, hdir, hnames, rfl⟩ := readDirEffect_some (hlook.2 listed rfl)
    rw [htree] at hplace hdir hnames hentries
    -- the entries of a directory have proper names
    have hproper : ∀ name ∈ w.tree.entryNames place, ProperName name := by
      intro name hname
      obtain ⟨node, hnode⟩ := w.tree.mem_entryNames.mp hname
      exact w.tree.proper_of_at hnode
    have hfollow : resolve w.tree server.linkLimit true p = some place := by
      cases hthrough : server.listsThroughLinks with
      | true =>
        rw [hthrough] at hplace
        exact hplace
      | false =>
        rw [hthrough] at hplace
        exact resolve_follow hplace (by rw [hdir]; simp)
    refine ⟨place, hplace, hdir, ?_, ?_⟩
    · rw [← hentries, map_name_entries]
      refine (hnames.filter _).trans ?_
      rw [List.filter_cons_of_neg (by decide), List.filter_cons_of_neg (by decide),
        List.filter_eq_self.mpr]
      intro name hname
      obtain ⟨-, hdot, hdots, -⟩ := hproper name hname
      rw [Bool.not_eq_true', decide_eq_false_iff_not]
      exact fun h => h.elim hdot hdots
    · intro e he
      rw [← hentries] at he
      obtain ⟨⟨name, attrs⟩, hin, hentry⟩ := List.mem_filterMap.mp he
      obtain ⟨name', hname', heq⟩ := List.mem_map.mp hin
      rw [Prod.mk.injEq] at heq
      obtain ⟨rfl, rfl⟩ := heq
      obtain ⟨hdots, hentry⟩ := Option.ite_none_left_eq_some.mp hentry
      rw [Option.some.injEq] at hentry
      rw [not_or] at hdots
      have hmem : name' ∈ w.tree.entryNames place := by
        rcases List.mem_cons.mp (hnames.mem_iff.mp hname') with hbad | hmem
        · exact absurd hbad hdots.1
        · rcases List.mem_cons.mp hmem with hbad | hmem
          · exact absurd hbad hdots.2
          · exact hmem
      obtain ⟨node, hnode⟩ := w.tree.mem_entryNames.mp hmem
      have hattrs : entryMetadata server w.tree place name'
          = server.metadata (place ++ [name']) node := by
        unfold entryMetadata
        rw [hnode]
      rw [hattrs] at hentry
      refine ⟨node, ?_, ?_, ?_⟩
      · rw [← hentry]
        exact hnode
      · rw [← hentry]
        exact resolve_entry hfollow hnode
      · rw [← hentry]
        rfl

/-- `stat` follows links, and names the file by the path that was asked for. -/
def Stats (server : FileServer) (t : FileTree Bytes) (p : Text) (e : FileEntry) : Prop :=
  ∃ place node, resolve t server.linkLimit true p = some place ∧ t.at? place = some node ∧
    e = fileEntry (p.rtakeWhile (· ≠ '/')) p (server.metadata place node)

/-- What `stat` returns. -/
theorem stat_stats {path : Text} {w w' : Sftp Bytes} {res : CoreResult FileEntry}
    (hw : Homed server w) (h : Sftp.stat server replies path w = (res, w')) :
    w'.tree = w.tree ∧ Homed server w' ∧ ∀ e, res = .ok e →
      Stats server w.tree (fullPath server path) e := by
  obtain ⟨w₁, hpath, htree, hw₁⟩ := resolvePath_eq hw path
  unfold Sftp.stat at h
  rw [hpath] at h
  simp only at h
  generalize fullPath server path = p at h ⊢
  have hsame : ∀ t a t', metadataEffect server p t = some (a, t') → t' = t ∧
      ∃ place node, resolve t server.linkLimit true p = some place ∧ t.at? place = some node ∧
        a = server.metadata place node := by
    intro t a t' heffect
    obtain ⟨place, hplace, heffect⟩ := Option.bind_eq_some_iff.mp heffect
    obtain ⟨node, hnode, heq⟩ := Option.map_eq_some_iff.mp heffect
    rw [Prod.mk.injEq] at heq
    exact ⟨heq.2.symm, place, node, hplace, hnode, heq.1.symm⟩
  cases hask : request replies "metadata" (metadataEffect server p) w₁ with
  | mk answer w₂ =>
  have hlook := request_same (fun t a t' heffect => (hsame t a t' heffect).1) hask
  have hw₂ := hw₁.of_home (request_home hask)
  rw [hask] at h
  cases answer with
  | error e =>
    simp only [Prod.mk.injEq] at h
    obtain ⟨rfl, rfl⟩ := h
    exact ⟨hlook.1.trans htree, hw₂, fun e he => by cases he⟩
  | ok attrs =>
    simp only [Prod.mk.injEq] at h
    obtain ⟨rfl, rfl⟩ := h
    refine ⟨hlook.1.trans htree, hw₂, fun e he => ?_⟩
    injection he with he
    obtain ⟨-, place, node, hplace, hnode, hattrs⟩ := hsame _ _ _ (hlook.2 attrs rfl)
    rw [htree] at hplace hnode
    exact ⟨place, node, hplace, hnode, by rw [← he, hattrs]⟩

/-! ## §5. Every operation ends. -/

/-- From some amount of fuel on, the result is there and stays the same. -/
def Settles {α : Type} (f : Nat → Option α) : Prop := ∃ out bound, ∀ fuel ≥ bound, f fuel = some out

theorem Settles.of_mono {α : Type} {f : Nat → Option α} {n : Nat} {out : α}
    (hmono : ∀ fuel out, f fuel = some out → f (fuel + 1) = some out) (h : f n = some out) :
    ∀ fuel ≥ n, f fuel = some out := by
  intro fuel hfuel
  induction fuel, hfuel using Nat.le_induction with
  | base => exact h
  | succ fuel _ ih => exact hmono fuel out ih

theorem Settles.const {α : Type} (a : α) : Settles fun _ => some a := ⟨a, 0, fun _ _ => rfl⟩

theorem Settles.map {α β : Type} {f : Nat → Option α} (g : α → β) (h : Settles f) :
    Settles fun fuel => (f fuel).map g := by
  obtain ⟨out, bound, hout⟩ := h
  refine ⟨g out, bound, fun fuel hfuel => ?_⟩
  simp only [hout fuel hfuel, Option.map_some]

theorem readToEnd_mono {stage : String} {file : Place} (fuel : Nat) :
    ∀ {left : Option Nat} {data : Bytes} {w : Sftp Bytes} {out : CoreResult Bytes × Sftp Bytes},
      readToEnd server replies stage file fuel left data w = some out →
        readToEnd server replies stage file (fuel + 1) left data w = some out := by
  induction fuel with
  | zero =>
    intro left data w out h
    cases h
  | succ fuel ih =>
    intro left data w out h
    rw [readToEnd] at h ⊢
    by_cases hleft : left = some 0
    · rw [if_pos hleft] at h ⊢
      exact h
    · rw [if_neg hleft] at h ⊢
      simp only at h ⊢
      split at h
      · exact h
      · next chunk w₁ hread =>
        by_cases hend : chunk = []
        · rw [if_pos hend] at h ⊢
          exact h
        · rw [if_neg hend] at h ⊢
          exact ih h

/-- Every piece of a file that is read is shorter than what is left of it. -/
theorem readToEnd_isSome {stage : String} {file : Place} {whole : Bytes} (fuel : Nat) :
    ∀ {left : Option Nat} {data : Bytes} {w : Sftp Bytes},
      w.tree.at? file = some (.file whole) → data.length ≤ whole.length →
        whole.length < data.length + fuel →
          ∃ out, readToEnd server replies stage file fuel left data w = some out := by
  induction fuel with
  | zero =>
    intro left data w _ hshort hfuel
    omega
  | succ fuel ih =>
    intro left data w hfile hshort hfuel
    rw [readToEnd]
    by_cases hleft : left = some 0
    · rw [if_pos hleft]
      exact ⟨_, rfl⟩
    · rw [if_neg hleft]
      simp only
      generalize min (server.portion w.requests) (left.getD (server.portion w.requests)) = want
      cases hread : request replies stage (readEffect file data.length want) w with
      | mk answer w₁ =>
      have hlook := request_same (fun _ _ _ heffect => (readEffect_some heffect).1) hread
      cases answer with
      | error e => exact ⟨_, rfl⟩
      | ok chunk =>
        simp only
        by_cases hend : chunk = []
        · rw [if_pos hend]
          exact ⟨_, rfl⟩
        · rw [if_neg hend]
          have hchunk := (readEffect_some (hlook.2 chunk rfl)).2 whole hfile
          have hlength : chunk.length ≤ whole.length - data.length := by
            rw [hchunk, List.length_take, List.length_drop]
            omega
          have hpos := List.length_pos_iff.mpr hend
          apply ih
          · rw [hlook.1]
            exact hfile
          · rw [List.length_append]
            omega
          · rw [List.length_append]
            omega

/-- The loop of a read comes to its end. -/
theorem readToEnd_settles {stage : String} {file : Place} {whole : Bytes} {left : Option Nat}
    {w : Sftp Bytes} (hfile : w.tree.at? file = some (.file whole)) :
    Settles fun fuel => readToEnd server replies stage file fuel left [] w := by
  have hsome : ∃ out,
      readToEnd server replies stage file (whole.length + 1) left [] w = some out :=
    readToEnd_isSome _ hfile (Nat.zero_le _) (by rw [List.length_nil]; omega)
  obtain ⟨out, hout⟩ := hsome
  exact ⟨out, _, Settles.of_mono (fun fuel out h => readToEnd_mono fuel h) hout⟩

theorem writeAll_mono {stage : String} {file : Place} (fuel : Nat) :
    ∀ {offset : Nat} {rest : Bytes} {w : Sftp Bytes} {out : CoreResult Unit × Sftp Bytes},
      writeAll server replies stage file fuel offset rest w = some out →
        writeAll server replies stage file (fuel + 1) offset rest w = some out := by
  induction fuel with
  | zero =>
    intro offset rest w out h
    cases h
  | succ fuel ih =>
    intro offset rest w out h
    rw [writeAll] at h ⊢
    by_cases hend : rest = []
    · rw [if_pos hend] at h ⊢
      exact h
    · rw [if_neg hend] at h ⊢
      simp only at h ⊢
      split at h
      · exact h
      · exact ih h

/-- The loop of a write comes to its end. -/
theorem writeAll_isSome {stage : String} {file : Place} (fuel : Nat) :
    ∀ {offset : Nat} {rest : Bytes} {w : Sftp Bytes}, rest.length < fuel →
      ∃ out, writeAll server replies stage file fuel offset rest w = some out := by
  induction fuel with
  | zero =>
    intro offset rest w hfuel
    omega
  | succ fuel ih =>
    intro offset rest w hfuel
    rw [writeAll]
    by_cases hend : rest = []
    · rw [if_pos hend]
      exact ⟨_, rfl⟩
    · rw [if_neg hend]
      simp only
      split
      · exact ⟨_, rfl⟩
      · apply ih
        have hportion := server.portion_pos w.requests
        have hpos := List.length_pos_iff.mpr hend
        rw [List.length_drop, List.length_take]
        omega

/-- A write comes to its end. -/
theorem createAndWrite_settles {create write : String} {p : Text} {data : Bytes}
    {w : Sftp Bytes} :
    Settles fun fuel => createAndWrite server replies create write fuel p data w := by
  unfold createAndWrite
  split
  · exact .const _
  · next file w₁ _ =>
    have hsome : ∃ out,
        writeAll server replies write file (data.length + 1) 0 data w₁ = some out :=
      writeAll_isSome _ (Nat.lt_succ_self _)
    obtain ⟨out, hout⟩ := hsome
    exact ⟨out, _, Settles.of_mono (fun fuel out h => writeAll_mono fuel h) hout⟩

/-- A copy comes to its end. -/
theorem copy_settles {src dst : Text} {w : Sftp Bytes} :
    Settles fun fuel => copy server replies fuel src dst w := by
  cases hsrc : resolvePath server.toSftpServer src w with
  | mk s w₀ =>
  cases hdst : resolvePath server.toSftpServer dst w₀ with
  | mk d w₁ =>
  unfold copy
  simp only [hsrc, hdst]
  split
  · exact .const _
  · next file w₂ hopen =>
    have hlook := request_same (fun _ _ _ heffect => (openEffect_some heffect).1) hopen
    obtain ⟨-, -, whole, hwhole⟩ := openEffect_some (hlook.2 file rfl)
    rw [← hlook.1] at hwhole
    have hreads : Settles fun fuel =>
        readToEnd server replies "copy read" file fuel none [] w₂ := readToEnd_settles hwhole
    obtain ⟨⟨answer, w₃⟩, bound, hread⟩ := hreads
    cases answer with
    | error e =>
      refine ⟨(.error e, w₃), bound, fun fuel hfuel => ?_⟩
      have hout := hread fuel hfuel
      simp only at hout ⊢
      rw [hout]
    | ok data =>
      have hwrites : Settles fun fuel =>
          createAndWrite server replies "copy create" "copy write" fuel d data w₃ :=
        createAndWrite_settles
      obtain ⟨out, bound', hwrite⟩ := hwrites
      refine ⟨out, max bound bound', fun fuel hfuel => ?_⟩
      have hout := hread fuel (by omega)
      simp only at hout ⊢
      rw [hout]
      exact hwrite fuel (by omega)

/-- A read comes to its end. -/
theorem readFile_settles {path : Text} {maxLen : UInt64} {w : Sftp Bytes} :
    Settles fun fuel => readFile server replies fuel path maxLen w := by
  unfold readFile
  simp only
  split
  · exact .const _
  · next file w₁ hopen =>
    have hlook := request_same (fun _ _ _ heffect => (openEffect_some heffect).1) hopen
    obtain ⟨-, -, whole, hwhole⟩ := openEffect_some (hlook.2 file rfl)
    rw [← hlook.1] at hwhole
    exact readToEnd_settles hwhole

/-- A removal comes to its end. -/
theorem remove_ends (hhome : (toldHome server).head? = some '/') {path : Text}
    {recursive : Bool} {w : Sftp Bytes} (hw : Homed server w) :
    Settles fun fuel => remove server.toSftpServer replies fuel path recursive w := by
  obtain ⟨rest, w₁, -, -, -, hremove⟩ := remove_resolved replies hhome hw path
  simp only [hremove]
  cases recursive with
  | true => exact remove_settles rest w₁
  | false =>
    -- one call is enough where nothing is descended
    have hsome : ∃ out,
        remove server.toSftpServer replies 1 ('/' :: rest) false w₁ = some out := by
      rw [remove, resolvePath_absolute]
      simp only [Bool.false_eq_true, if_false]
      split
      · exact ⟨_, rfl⟩
      · split
        · exact ⟨_, rfl⟩
        · exact ⟨_, rfl⟩
    obtain ⟨out, hout⟩ := hsome
    exact ⟨out, _, Settles.of_mono (fun fuel out h => remove_mono fuel h) hout⟩

/-- Every operation comes to its end. -/
theorem perform_settles (hhome : (toldHome server).head? = some '/') {w : Sftp Bytes}
    (hw : Homed server w) (op : FsOp) :
    Settles fun fuel => perform server replies fuel op w := by
  cases op with
  | list path => exact .const _
  | stat path => exact .const _
  | read path maxLen => exact readFile_settles.map _
  | write path data => exact createAndWrite_settles.map _
  | rename src dst => exact .const _
  | remove path recursive => exact (remove_ends hhome hw).map _
  | mkdir path => exact .const _
  | copy src dst => exact copy_settles.map _

/-! ## §6. The outcome of an operation. -/

/-- What an operation has done to the tree when it answers, and what its answer says. -/
def Outcome (server : FileServer) (t t' : FileTree Bytes) : FsOp → FsAnswer → Prop
  | .list path, answer =>
    t' = t ∧ ∀ entries, answer = .entries entries → Lists server t (fullPath server path) entries
  | .stat path, answer =>
    t' = t ∧ ∀ e, answer = .entry e → Stats server t (fullPath server path) e
  | .read path maxLen, answer =>
    t' = t ∧ ∀ bytes, answer = .bytes bytes →
      ∃ whole, LeadsToFile server t (fullPath server path) whole ∧
        bytes = upTo (readLimit maxLen) whole
  | .write path data, answer =>
    Writes server (fullPath server path) data t t' (answer = .done)
  | .rename src dst, answer =>
    AtOnce (Renames server (fullPath server src) (fullPath server dst)) t t' (answer = .done)
  | .remove path _, answer =>
    RemovesTree server (fullPath server path) t t' (answer = .done)
  | .mkdir path, answer => AtOnce (MakesDir server (fullPath server path)) t t' (answer = .done)
  | .copy src dst, answer =>
    Copies server (fullPath server src) (fullPath server dst) t t' (answer = .done)

theorem done_iff {res : CoreResult Unit} : MockFs.done res = .done ↔ res = .ok () := by
  cases res with
  | ok _ => exact ⟨fun _ => rfl, fun _ => rfl⟩
  | error e =>
    constructor
    · intro h
      cases h
    · intro h
      cases h

theorem answerOf_eq {α : Type} {f : α → FsAnswer} {res : CoreResult α} {a : α}
    (hinj : ∀ a a', f a = f a' → a = a') (hfailed : ∀ a e, f a ≠ .failed e)
    (h : answerOf f res = f a) : res = .ok a := by
  cases res with
  | ok a' => rw [hinj a' a h]
  | error e => exact absurd h.symm (hfailed a e)

/-- Every operation has its outcome. -/
theorem perform_outcome (hhome : (toldHome server).head? = some '/') {fuel : Nat} {op : FsOp}
    {w w' : Sftp Bytes} {answer : FsAnswer} (hw : Homed server w)
    (h : perform server replies fuel op w = some (answer, w')) :
    Outcome server w.tree w'.tree op answer ∧ Homed server w' ∧
      ∃ payload, fsPayload op answer = some payload := by
  cases op with
  -- reading: the tree is left as it is
  | list path =>
    cases hcall : listDir server replies path w with
    | mk res u =>
    rw [perform, hcall, Option.some.injEq, Prod.map_apply, Prod.mk.injEq] at h
    obtain ⟨rfl, rfl⟩ := h
    obtain ⟨hsame, hw', hlists⟩ := listDir_lists hw hcall
    refine ⟨⟨hsame, fun entries hentries => hlists entries ?_⟩, hw', ?_⟩
    · exact answerOf_eq (fun a a' heq => (by injection heq)) (fun a e => (by nofun)) hentries
    · cases res <;> exact ⟨_, rfl⟩
  | stat path =>
    cases hcall : Sftp.stat server replies path w with
    | mk res u =>
    rw [perform, hcall, Option.some.injEq, Prod.map_apply, Prod.mk.injEq] at h
    obtain ⟨rfl, rfl⟩ := h
    obtain ⟨hsame, hw', hstats⟩ := stat_stats hw hcall
    refine ⟨⟨hsame, fun e he => hstats e ?_⟩, hw', ?_⟩
    · exact answerOf_eq (fun a a' heq => (by injection heq)) (fun a e => (by nofun)) he
    · cases res <;> exact ⟨_, rfl⟩
  | read path maxLen =>
    obtain ⟨⟨res, u⟩, hread, heq⟩ := Option.map_eq_some_iff.mp h
    rw [Prod.map_apply, Prod.mk.injEq] at heq
    obtain ⟨rfl, rfl⟩ := heq
    obtain ⟨hsame, hw', hreads⟩ := readFile_reads hw hread
    refine ⟨⟨hsame, fun bytes hbytes => hreads bytes ?_⟩, hw', ?_⟩
    · exact answerOf_eq (fun a a' heq => (by injection heq)) (fun a e => (by nofun)) hbytes
    · cases res <;> exact ⟨_, rfl⟩
  -- changing: the operation's own outcome, and an answer without data
  | write path data =>
    obtain ⟨⟨res, u⟩, hwrite, heq⟩ := Option.map_eq_some_iff.mp h
    rw [Prod.map_apply, Prod.mk.injEq] at heq
    obtain ⟨rfl, rfl⟩ := heq
    obtain ⟨hwrites, hw'⟩ := writeFile_writes hw hwrite
    refine ⟨?_, hw', ?_⟩
    · rw [Outcome, done_iff]
      exact hwrites
    · cases res <;> exact ⟨_, rfl⟩
  | rename src dst =>
    cases hcall : rename server replies src dst w with
    | mk res u =>
    rw [perform, hcall, Option.some.injEq, Prod.map_apply, Prod.mk.injEq] at h
    obtain ⟨rfl, rfl⟩ := h
    obtain ⟨hrenames, hw'⟩ := rename_renames hw hcall
    refine ⟨?_, hw', ?_⟩
    · rw [Outcome, done_iff]
      exact hrenames
    · cases res <;> exact ⟨_, rfl⟩
  | remove path recursive =>
    obtain ⟨⟨res, u⟩, hremove, heq⟩ := Option.map_eq_some_iff.mp h
    rw [Prod.map_apply, Prod.mk.injEq] at heq
    obtain ⟨rfl, rfl⟩ := heq
    obtain ⟨hremoves, hw'⟩ := remove_removes hhome hw hremove
    refine ⟨?_, hw', ?_⟩
    · rw [Outcome, done_iff]
      exact hremoves
    · cases res <;> exact ⟨_, rfl⟩
  | mkdir path =>
    cases hcall : mkdir server replies path w with
    | mk res u =>
    rw [perform, hcall, Option.some.injEq, Prod.map_apply, Prod.mk.injEq] at h
    obtain ⟨rfl, rfl⟩ := h
    obtain ⟨hmakes, hw'⟩ := mkdir_makes hw hcall
    refine ⟨?_, hw', ?_⟩
    · rw [Outcome, done_iff]
      exact hmakes
    · cases res <;> exact ⟨_, rfl⟩
  | copy src dst =>
    obtain ⟨⟨res, u⟩, hcopy, heq⟩ := Option.map_eq_some_iff.mp h
    rw [Prod.map_apply, Prod.mk.injEq] at heq
    obtain ⟨rfl, rfl⟩ := heq
    obtain ⟨hcopies, hw'⟩ := copy_copies hw hcopy
    refine ⟨?_, hw', ?_⟩
    · rw [Outcome, done_iff]
      exact hcopies
    · cases res <;> exact ⟨_, rfl⟩

end ResearchSSH.Core.Sftp
