/-
  ResearchSSH.Core.SftpRuns — the files of a server, over whole runs of operations.

  Operations follow one another, over any number of connections; any of their requests can fail.
  An operation touches the file that it writes, or the subtree that it removes or renames, found
  over whatever links its path leads through; and nothing else.

  Main results:
    * `operation_outcome` — every operation ends, has done what it says, and has touched nothing
      that it is not about.
    * `written_stays`     — what was written is read back, by whatever path leads there.
    * `listing_leads`     — the paths of a listing lead to what they were listed for.
-/

import ResearchSSH.Core.SftpOutcomes

namespace ResearchSSH.Core.Sftp

open ResearchSSH.Library

variable {server : FileServer} {replies : Nat → Reply}

/-! ## §1. What an operation touches. -/

/-- A server that moves two bytes at a time. -/
def exampleServer : FileServer where
  linkLimit := 3
  listsThroughLinks := true
  attributes
    | .directory => { isDir := true, isSymlink := false }
    | .symlink _ => { isDir := false, isSymlink := true }
    | _ => { isDir := false, isSymlink := false }
  symlink_attributes := fun _ => rfl
  order := id
  order_perm := fun _ => .refl _
  canonicalHome := .ok ['/']
  metadata := fun _ node =>
    { isSymlink := (match node with | .symlink _ => true | _ => false)
      isDir := (match node with | .directory => true | _ => false)
      isRegular := (match node with | .file _ => true | _ => false)
      size := none
      mtime := none
      permissions := none }
  portion := fun _ => 2
  portion_pos := fun _ => Nat.zero_lt_two

/-- A root with a file and a link to it. -/
def exampleFiles : FileTree Bytes where
  nodes := ((AList.singleton [] .directory).insert [['f']] (.file [1])).insert [['l']]
    (.symlink ['f'])
  proper := by
    intro place hin
    rcases (AList.mem_insert _).mp hin with rfl | hin
    · decide
    · rcases (AList.mem_insert _).mp hin with rfl | hin
      · decide
      · rw [AList.mem_keys, AList.keys_singleton, List.mem_singleton] at hin
        subst hin
        decide
  parents := by
    intro place name hin
    have hroot : place = [] := by
      rcases (AList.mem_insert _).mp hin with heq | hin
      · exact List.dropLast_concat.symm.trans (congrArg List.dropLast heq)
      · rcases (AList.mem_insert _).mp hin with heq | hin
        · exact List.dropLast_concat.symm.trans (congrArg List.dropLast heq)
        · rw [AList.mem_keys, AList.keys_singleton, List.mem_singleton] at hin
          exact absurd hin (by simp)
    subst hroot
    rfl

/-- A provider of its own, that has asked for nothing yet. -/
def exampleProvider : Sftp Bytes := { tree := exampleFiles, home := none, requests := 0 }

/-- The request is done and answered. -/
def served (_ : Nat) : Reply := { delivery := .served, error := "" }

theorem homed_example : Homed exampleServer exampleProvider := by
  intro home heq
  cases heq

/-- The operation is about the node at `place`: it writes it, or removes or renames it or what it
stands in. -/
def Touches (server : FileServer) (t : FileTree Bytes) (place : Place) : FsOp → Prop
  | .write path _ | .copy _ path =>
    ∃ found, resolveNew t server.linkLimit true (fullPath server path) = some found ∧
      found.place = place
  | .remove path _ | .rename path _ =>
    ∃ top, resolve t server.linkLimit false (fullPath server path) = some top ∧ top <+: place
  | _ => False

theorem Writes.spares {p : Text} {data : Bytes} {t t' : FileTree Bytes} {done : Prop}
    {place : Place} (h : Writes server p data t t' done)
    (hspared : ¬ ∃ found, resolveNew t server.linkLimit true p = some found ∧
      found.place = place) : t'.at? place = t.at? place := by
  cases h with
  | untouched same failed => rw [same]
  | begun found written leads beginning sets whole =>
    apply sets.elsewhere
    intro heq
    exact hspared ⟨found, leads, heq.symm⟩

/-- What an operation is not about stays as it is, however the operation ends. -/
theorem Outcome.spares {t t' : FileTree Bytes} {op : FsOp} {answer : FsAnswer} {place : Place}
    {node : Node Bytes} (h : Outcome server t t' op answer) (hnode : t.at? place = some node)
    (hspared : ¬ Touches server t place op) : t'.at? place = some node := by
  cases op with
  | list path => rw [h.1, hnode]
  | stat path => rw [h.1, hnode]
  | read path maxLen => rw [h.1, hnode]
  | write path data => rw [Writes.spares h hspared, hnode]
  | rename src dst =>
    rcases h.2 with hsame | ⟨top, dir, name, htop, hdst, hmove⟩
    · rw [hsame, hnode]
    · obtain ⟨hmovable, hat⟩ := FileTree.at_move hmove
      -- what is there is neither moved nor where something is moved to
      have hnotdst : ¬ dir ++ [name] <+: place := by
        rintro ⟨rest, rfl⟩
        rw [hmovable.2.1.below] at hnode
        cases hnode
      have hnotsrc : ¬ top <+: place := fun hunder => hspared ⟨top, htop, hunder⟩
      rw [hat, if_neg hnotdst, if_neg hnotsrc, hnode]
  | remove path recursive =>
    rw [h.outside place, hnode]
    intro top htop hunder
    exact hspared ⟨top, htop, hunder⟩
  | mkdir path =>
    rcases h.2 with hsame | ⟨dir, name, -, hcreate⟩
    · rw [hsame, hnode]
    · obtain ⟨hvacant, hat⟩ := t.create_eq_some hcreate
      have hne : place ≠ dir ++ [name] := by
        rintro rfl
        rw [hvacant.free] at hnode
        cases hnode
      rw [hat, if_neg hne, hnode]
  | copy src dst =>
    cases h with
    | untouched same failed => rw [same, hnode]
    | begun whole source writes => rw [writes.spares hspared, hnode]

/-- **Every operation ends, has done what it says, and has touched nothing that it is not about.**
Whichever requests fail, lose their answer, or are the last before a cancel: a write or a copy
that fails leaves the beginning of the contents or nothing new, a recursive delete that fails part
of the subtree, and a rename or a new directory all or nothing. -/
theorem operation_outcome (server : FileServer) (replies : Nat → Reply)
    (hhome : (toldHome server).head? = some '/') (w : Sftp Bytes) (hw : Homed server w)
    (op : FsOp) :
    ∃ answer w' bound,
      (∀ fuel ≥ bound, perform server replies fuel op w = some (answer, w')) ∧
      (∃ payload, fsPayload op answer = some payload) ∧
      Outcome server w.tree w'.tree op answer ∧
      (∀ place node, w.tree.at? place = some node → ¬ Touches server w.tree place op →
        w'.tree.at? place = some node) ∧
      Homed server w' := by
  have hsettles : Settles fun fuel => perform server replies fuel op w :=
    perform_settles hhome hw op
  obtain ⟨⟨answer, w'⟩, bound, hperform⟩ := hsettles
  obtain ⟨houtcome, hw', hpayload⟩ := perform_outcome hhome hw (hperform bound le_rfl)
  exact ⟨answer, w', bound, hperform, hpayload, houtcome,
    fun place node hnode hspared => houtcome.spares hnode hspared, hw'⟩

/-- A copy over a link. -/
theorem operation_outcome_copy : ∃ answer w' bound, ∀ fuel ≥ bound,
    perform exampleServer served fuel (.copy ['l'] ['g']) exampleProvider
      = some (answer, w') := by
  obtain ⟨answer, w', bound, hperform, -⟩ :=
    operation_outcome exampleServer served rfl exampleProvider homed_example (.copy ['l'] ['g'])
  exact ⟨answer, w', bound, hperform⟩

/-! ## §2. Runs. -/

/-- No operation of the run is about the node at `place`. -/
def SparesAlong (server : FileServer) (replies : Nat → Reply) (fuel : Nat) (place : Place) :
    List Event → Sftp Bytes → Prop
  | [], _ => True
  | .operation op :: events, w =>
    ¬ Touches server w.tree place op ∧ ∀ answer w',
      perform server replies fuel op w = some (answer, w') →
        SparesAlong server replies fuel place events w'
  | .reconnected :: events, w =>
    SparesAlong server replies fuel place events { w with home := none }

/-- A new provider knows no home directory yet. -/
theorem homed_reconnected (w : Sftp Bytes) : Homed server { w with home := none } := by
  intro home heq
  cases heq

/-- What no operation of a run is about is there at its end. -/
theorem run_spares (hhome : (toldHome server).head? = some '/') {fuel : Nat} {place : Place}
    {node : Node Bytes} (events : List Event) : ∀ {w w' : Sftp Bytes}, Homed server w →
      run server replies fuel events w = some w' →
      SparesAlong server replies fuel place events w → w.tree.at? place = some node →
        w'.tree.at? place = some node ∧ Homed server w' := by
  induction events with
  | nil =>
    intro w w' hw h _ hnode
    rw [run, Option.some.injEq] at h
    exact h ▸ ⟨hnode, hw⟩
  | cons event events ih =>
    intro w w' hw h hspares hnode
    cases event with
    | operation op =>
      obtain ⟨⟨answer, u⟩, hperform, hrest⟩ := Option.bind_eq_some_iff.mp h
      obtain ⟨houtcome, hu, -⟩ := perform_outcome hhome hw hperform
      exact ih hu hrest (hspares.2 answer u hperform) (houtcome.spares hnode hspares.1)
    | reconnected => exact ih (homed_reconnected w) h hspares hnode

/-! ## §3. The last write. -/

theorem LeadsToFile.unique {t : FileTree Bytes} {p : Text} {whole whole' : Bytes}
    (h : LeadsToFile server t p whole) (h' : LeadsToFile server t p whole') : whole = whole' := by
  obtain ⟨place, hplace, hwhole⟩ := h
  obtain ⟨place', hplace', hwhole'⟩ := h'
  rw [hplace, Option.some.injEq] at hplace'
  rw [← hplace', hwhole, Option.some.injEq] at hwhole'
  injection hwhole'

/-- The operation is to put `data` into the file that `path` names. -/
def Brings (server : FileServer) (t : FileTree Bytes) (path : Text) (data : Bytes) : FsOp → Prop
  | .write p d => p = path ∧ d = data
  | .copy src p => p = path ∧ LeadsToFile server t (fullPath server src) data
  | _ => False

/-- A write that is done has put its data where its path leads from then on. -/
theorem Writes.leads {p : Text} {data : Bytes} {t t' : FileTree Bytes} {done : Prop}
    (h : Writes server p data t t' done) (hdone : done) :
    ∃ place, resolve t' server.linkLimit true p = some place ∧
      t'.at? place = some (.file data) := by
  cases h with
  | untouched same failed => exact absurd hdone failed
  | begun found written leads beginning sets whole =>
    have hdata := whole hdone
    subst hdata
    refine ⟨found.place, resolve_made sets.kept leads ⟨_, sets.file, ?_⟩, sets.file⟩
    intro target heq
    cases heq

theorem brings_leads {t t' : FileTree Bytes} {op : FsOp} {path : Text} {data : Bytes}
    (h : Outcome server t t' op .done) (hbrings : Brings server t path data op) :
    ∃ place, resolve t' server.linkLimit true (fullPath server path) = some place ∧
      t'.at? place = some (.file data) := by
  cases op with
  | write p d =>
    obtain ⟨rfl, rfl⟩ := hbrings
    exact Writes.leads h rfl
  | copy src p =>
    obtain ⟨rfl, hsource⟩ := hbrings
    cases h with
    | untouched same failed => exact absurd rfl failed
    | begun whole source writes =>
      rw [hsource.unique source]
      exact writes.leads rfl
  | list p => exact hbrings.elim
  | stat p => exact hbrings.elim
  | read p maxLen => exact hbrings.elim
  | rename src dst => exact hbrings.elim
  | remove p recursive => exact hbrings.elim
  | mkdir p => exact hbrings.elim

/-- A read of the file at a place gives its contents, up to the limit, or fails. -/
theorem read_at (hhome : (toldHome server).head? = some '/') {w : Sftp Bytes} {place : Place}
    {data : Bytes} (hw : Homed server w) (hfile : w.tree.at? place = some (.file data))
    (path : Text) (maxLen : UInt64)
    (hleads : resolve w.tree server.linkLimit true (fullPath server path) = some place) :
    ∃ answer w' bound,
      (∀ fuel ≥ bound, perform server replies fuel (.read path maxLen) w = some (answer, w')) ∧
      w'.tree = w.tree ∧
      (answer = .bytes (upTo (readLimit maxLen) data) ∨ ∃ e, answer = .failed e) := by
  obtain ⟨answer, w', bound, hperform, ⟨payload, hpayload⟩, ⟨hsame, hbytes⟩, -, -⟩ :=
    operation_outcome server replies hhome w hw (.read path maxLen)
  refine ⟨answer, w', bound, hperform, hsame, ?_⟩
  cases answer with
  | bytes bytes =>
    obtain ⟨whole, hwhole, rfl⟩ := hbytes bytes rfl
    rw [hwhole.unique ⟨place, hleads, hfile⟩]
    exact .inl rfl
  | failed e => exact .inr ⟨e, rfl⟩
  | entries es => cases hpayload
  | entry e => cases hpayload
  | done => cases hpayload

/-- **What was written is read back.**  After a write or a copy that is done, and whatever else
happens that is not about its file, over any number of connections and with any failures, the file
is what was written, and a read by any path that leads to it gives just that, up to its limit, if
it does not fail. -/
theorem written_stays (hhome : (toldHome server).head? = some '/') {fuel : Nat} {op : FsOp}
    {path : Text} {data : Bytes} {w w₁ : Sftp Bytes} (hw : Homed server w)
    (hdone : perform server replies fuel op w = some (.done, w₁))
    (hbrings : Brings server w.tree path data op) :
    ∃ place, resolve w₁.tree server.linkLimit true (fullPath server path) = some place ∧
      ∀ events w₂, run server replies fuel events w₁ = some w₂ →
        SparesAlong server replies fuel place events w₁ →
          w₂.tree.at? place = some (.file data) ∧
          ∀ path' maxLen,
            resolve w₂.tree server.linkLimit true (fullPath server path') = some place →
              ∃ answer w₃ bound, (∀ fuel ≥ bound,
                perform server replies fuel (.read path' maxLen) w₂ = some (answer, w₃)) ∧
                w₃.tree = w₂.tree ∧
                (answer = .bytes (upTo (readLimit maxLen) data) ∨ ∃ e, answer = .failed e) := by
  obtain ⟨houtcome, hw₁, -⟩ := perform_outcome hhome hw hdone
  obtain ⟨place, hleads, hfile⟩ := brings_leads houtcome hbrings
  refine ⟨place, hleads, fun events w₂ hrun hspares => ?_⟩
  obtain ⟨hfile₂, hw₂⟩ := run_spares hhome events hw₁ hrun hspares hfile
  exact ⟨hfile₂, fun path' maxLen hleads' => read_at hhome hw₂ hfile₂ path' maxLen hleads'⟩

/-- The example after three bytes were written over the link. -/
def writtenOver : Sftp Bytes :=
  ((perform exampleServer served 4 (.write ['l'] [1, 2, 3]) exampleProvider).get rfl).2

theorem written_stays_linked : ∃ w₂,
    run exampleServer served 4 [.reconnected, .operation (.mkdir ['d'])] writtenOver = some w₂ ∧
      w₂.tree.at? [['f']] = some (.file [1, 2, 3]) := by
  have hstays := written_stays rfl homed_example
    (rfl : perform exampleServer served 4 (.write ['l'] [1, 2, 3]) exampleProvider
      = some (.done, writtenOver)) ⟨rfl, rfl⟩
  obtain ⟨place, hleads, hstays⟩ := hstays
  have hplace : [['f']] = place := Option.some.inj
    ((rfl : some [['f']] = resolve writtenOver.tree exampleServer.linkLimit true
      (fullPath exampleServer ['l'])).trans hleads)
  subst hplace
  refine ⟨_, rfl, (hstays [.reconnected, .operation (.mkdir ['d'])] _ rfl ?_).1⟩
  exact ⟨not_false, fun _ _ _ => trivial⟩

/-! ## §4. Listings. -/

/-- The path of an entry is absolute, and taken as it is. -/
theorem fullPath_joinPath (rest name : Text) :
    fullPath server (joinPath ('/' :: rest) name) = joinPath ('/' :: rest) name := by
  obtain ⟨rest', hrest'⟩ := joinPath_absolute rest name
  rw [hrest']
  unfold fullPath
  rw [if_neg (by simp), if_pos List.head?_cons]

/-- A directory's path leads to it with every link followed, if it is listed there. -/
theorem Lists.directory {t : FileTree Bytes} {p : Text} {entries : List FileEntry}
    (h : Lists server t p entries) :
    ∃ place, resolve t server.linkLimit true p = some place ∧
      t.at? place = some .directory ∧
      (entries.map FileEntry.name).Perm (t.entryNames place) ∧
      ∀ e ∈ entries, ∃ node, t.at? (place ++ [e.name]) = some node ∧
        resolve t server.linkLimit false e.path = some (place ++ [e.name]) ∧
        e = fileEntry e.name (joinPath p e.name) (server.metadata (place ++ [e.name]) node) := by
  obtain ⟨place, hplace, hdir, hnames, hentries⟩ := h
  refine ⟨place, ?_, hdir, hnames, hentries⟩
  cases hthrough : server.listsThroughLinks with
  | true =>
    rw [hthrough] at hplace
    exact hplace
  | false =>
    rw [hthrough] at hplace
    exact resolve_follow hplace (by rw [hdir]; simp)

/-- **The paths of a listing lead to what they were listed for.**  A listing has one entry for
each node of the directory.  The path of an entry, given back, leads to the node of that name,
links in the path of the directory or none: what removes or renames it is about that node and what
stands in it, what writes it or copies to it, unless it is a link, is about that node alone, and
what lists it, if it is a directory, lists that. -/
theorem listing_leads (hhome : (toldHome server).head? = some '/') {fuel : Nat} {path : Text}
    {entries : List FileEntry} {w w' : Sftp Bytes} (hw : Homed server w)
    (h : perform server replies fuel (.list path) w = some (.entries entries, w')) :
    w'.tree = w.tree ∧ ∃ place, resolve w.tree server.linkLimit true (fullPath server path)
        = some place ∧
      (entries.map FileEntry.name).Perm (w.tree.entryNames place) ∧
      ∀ e ∈ entries, ∃ node, w.tree.at? (place ++ [e.name]) = some node ∧
        e.kind = mapMetaKind (server.metadata (place ++ [e.name]) node) ∧
        (∀ inner recursive, Touches server w.tree inner (.remove e.path recursive) ↔
          place ++ [e.name] <+: inner) ∧
        (∀ inner dst, Touches server w.tree inner (.rename e.path dst) ↔
          place ++ [e.name] <+: inner) ∧
        ((∀ target, node ≠ .symlink target) →
          (∀ inner data, Touches server w.tree inner (.write e.path data) ↔
            inner = place ++ [e.name]) ∧
          (∀ inner src, Touches server w.tree inner (.copy src e.path) ↔
            inner = place ++ [e.name]) ∧
          ∀ inside, Lists server w.tree e.path inside →
            (inside.map FileEntry.name).Perm (w.tree.entryNames (place ++ [e.name]))) := by
  obtain ⟨⟨hsame, hlists⟩, -, -⟩ := perform_outcome hhome hw h
  obtain ⟨place, hplace, hdir, hnames, hentries⟩ := (hlists entries rfl).directory
  refine ⟨hsame, place, hplace, hnames, fun e he => ?_⟩
  obtain ⟨node, hnode, hleads, heq⟩ := hentries e he
  obtain ⟨rest, hrest⟩ := fullPath_absolute hhome path
  -- the path of the entry is taken as it is
  have hpath : fullPath server e.path = e.path := by
    have hentry : e.path = joinPath ('/' :: rest) e.name := by
      rw [heq, hrest]
      rfl
    rw [hentry, fullPath_joinPath]
  have htop : ∀ inner, (∃ top, resolve w.tree server.linkLimit false (fullPath server e.path)
      = some top ∧ top <+: inner) ↔ place ++ [e.name] <+: inner := by
    intro inner
    rw [hpath, hleads]
    constructor
    · rintro ⟨top, htop, hunder⟩
      rw [Option.some.injEq] at htop
      exact htop ▸ hunder
    · intro hunder
      exact ⟨_, rfl, hunder⟩
  refine ⟨node, hnode, by rw [heq]; rfl, fun inner _ => htop inner, fun inner _ => htop inner,
    fun hplain => ?_⟩
  have hfollow : resolve w.tree server.linkLimit true e.path = some (place ++ [e.name]) := by
    apply resolve_follow hleads
    intro target
    rw [hnode, ne_eq, Option.some.injEq]
    exact hplain target
  have hfound : ∀ inner, (∃ found,
      resolveNew w.tree server.linkLimit true (fullPath server e.path) = some found ∧
        found.place = inner) ↔ inner = place ++ [e.name] := by
    intro inner
    rw [hpath, resolveNew_existing hfollow]
    constructor
    · rintro ⟨found, hfound, rfl⟩
      rw [Option.some.injEq] at hfound
      rw [← hfound]
      rfl
    · rintro rfl
      exact ⟨_, rfl, rfl⟩
  refine ⟨fun inner _ => hfound inner, fun inner _ => hfound inner, fun inside hinside => ?_⟩
  obtain ⟨place', hplace', -, hnames', -⟩ := hinside.directory
  rw [hfollow, Option.some.injEq] at hplace'
  rw [hplace']
  exact hnames'

/-- The entries of the example. -/
def exampleEntries : List FileEntry :=
  [fileEntry ['l'] ['/', 'l'] (exampleServer.metadata [['l']] (.symlink ['f'])),
    fileEntry ['f'] ['/', 'f'] (exampleServer.metadata [['f']] (.file [1]))]

/-- Removing the entry of the link takes out the link, and not the file it leads to. -/
theorem listing_leads_example :
    Touches exampleServer exampleFiles [['l']] (.remove ['/', 'l'] true) ∧
      ¬ Touches exampleServer exampleFiles [['f']] (.remove ['/', 'l'] true) := by
  have hleads := listing_leads rfl homed_example
    (rfl : perform exampleServer served 0 (.list []) exampleProvider
      = some (.entries exampleEntries, { exampleProvider with home := some ['/'], requests := 1 }))
  obtain ⟨-, place, hplace, -, hentries⟩ := hleads
  have hroot : [] = place := Option.some.inj hplace
  subst hroot
  obtain ⟨node, -, -, hremove, -⟩ := hentries _ List.mem_cons_self
  constructor
  · apply (hremove [['l']] true).mpr
    exact List.prefix_rfl
  · intro htouches
    have hunder : [['l']] <+: [['f']] := (hremove [['f']] true).mp htouches
    exact absurd hunder (by decide)

end ResearchSSH.Core.Sftp
