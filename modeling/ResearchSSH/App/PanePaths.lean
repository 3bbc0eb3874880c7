/-
  ResearchSSH.App.PanePaths — whether a path tells an open document from the others.

  Every result is matched to the first document with its path.  A document is opened, and a loaded
  one put into the list, only after its path has been looked for there.  A move looks for nothing:
  what is moved onto the path of an open document leaves two of them with one path.

  Main results:
    * `moved_nodup_iff` — which moves keep paths distinct.
    * `one_tab_each_iff` — they stay distinct throughout a run exactly if all its moves land free.
-/

import ResearchSSH.App.PaneFrame

namespace ResearchSSH.App

open ResearchSSH.Library

/-! ## §1. Moved paths. -/

/-- The path is that of what is moved, or of something below it. -/
def Rewritten (fromPath path : QString) : Prop :=
  path = fromPath ∨ startsWith path (fromPath ++ lit "/") = true

instance (fromPath path : QString) : Decidable (Rewritten fromPath path) :=
  inferInstanceAs (Decidable (path = fromPath ∨ startsWith path (fromPath ++ lit "/") = true))

/-- A path that is not concerned stays. -/
theorem movedPath_of_not_rewritten {fromPath path : QString} (toPath : QString)
    (h : ¬ Rewritten fromPath path) : movedPath path fromPath toPath = path := by
  unfold movedPath
  rw [if_neg (fun heq => h (Or.inl heq)), if_neg (fun hbelow => h (Or.inr hbelow))]

/-- The new path keeps what stands behind the old directory. -/
theorem movedPath_of_rewritten {fromPath path : QString} (toPath : QString)
    (h : Rewritten fromPath path) :
    ∃ rest, path = fromPath ++ rest ∧ movedPath path fromPath toPath = toPath ++ rest := by
  unfold movedPath
  by_cases heq : path = fromPath
  · rw [if_pos heq]
    exact ⟨[], by rw [heq, List.append_nil], (List.append_nil _).symm⟩
  · have hbelow : startsWith path (fromPath ++ lit "/") = true := h.resolve_left heq
    rw [if_neg heq, if_pos hbelow]
    obtain ⟨rest, hrest⟩ := List.isPrefixOf_iff_prefix.mp hbelow
    rw [List.append_assoc] at hrest
    refine ⟨lit "/" ++ rest, hrest.symm, ?_⟩
    rw [← hrest, List.drop_left]

/-- Two paths that move do not meet. -/
theorem movedPath_inj {fromPath toPath a b : QString} (ha : Rewritten fromPath a)
    (hb : Rewritten fromPath b) (h : movedPath a fromPath toPath = movedPath b fromPath toPath) :
    a = b := by
  obtain ⟨restA, rfl, hmovedA⟩ := movedPath_of_rewritten toPath ha
  obtain ⟨restB, rfl, hmovedB⟩ := movedPath_of_rewritten toPath hb
  rw [hmovedA, hmovedB] at h
  rw [List.append_cancel_left h]

/-- Nothing that is moved lands on what is not. -/
def LandsFree (fromPath toPath : QString) (paths : List QString) : Prop :=
  ∀ a ∈ paths, Rewritten fromPath a → ∀ b ∈ paths, ¬ Rewritten fromPath b →
    movedPath a fromPath toPath ≠ b

instance (fromPath toPath : QString) (paths : List QString) :
    Decidable (LandsFree fromPath toPath paths) :=
  inferInstanceAs (Decidable (∀ a ∈ paths, Rewritten fromPath a → ∀ b ∈ paths,
    ¬ Rewritten fromPath b → movedPath a fromPath toPath ≠ b))

/-- **Which moves keep paths distinct.** -/
theorem moved_nodup_iff {paths : List QString} (h : paths.Nodup) (fromPath toPath : QString) :
    (paths.map fun path => movedPath path fromPath toPath).Nodup
      ↔ LandsFree fromPath toPath paths := by
  rw [List.nodup_map_iff_inj_on h]
  constructor
  · intro hinj a ha hrewritten b hb hkept hland
    have heq : a = b := by
      apply hinj a ha b hb
      rw [movedPath_of_not_rewritten toPath hkept]
      exact hland
    exact hkept (heq ▸ hrewritten)
  · intro hfree a ha b hb heq
    by_cases hmovedA : Rewritten fromPath a
    · by_cases hmovedB : Rewritten fromPath b
      · exact movedPath_inj hmovedA hmovedB heq
      · rw [movedPath_of_not_rewritten toPath hmovedB] at heq
        exact absurd heq (hfree a ha hmovedA b hb hmovedB)
    · rw [movedPath_of_not_rewritten toPath hmovedA] at heq
      by_cases hmovedB : Rewritten fromPath b
      · exact absurd heq.symm (hfree b hb hmovedB a ha hmovedA)
      · rwa [movedPath_of_not_rewritten toPath hmovedB] at heq

namespace CodeEditorPane

variable {p q : CodeEditorPane}

/-! ## §2. Paths of the open documents. -/

/-- The paths of the tabs, in their order. -/
def paths (p : CodeEditorPane) : List QString := p.openDocuments.map Document.path

/-- No path is open in two documents. -/
def OneTabEach (p : CodeEditorPane) : Prop := p.paths.Nodup

instance (p : CodeEditorPane) : Decidable p.OneTabEach := inferInstanceAs (Decidable p.paths.Nodup)

/-- The paths are among the marks. -/
theorem paths_of_marks (p : CodeEditorPane) : p.paths = p.marks.map Mark.path := by
  unfold CodeEditorPane.paths CodeEditorPane.marks
  rw [List.map_map]
  rfl

/-- What leaves the marks leaves the paths. -/
theorem Quiet.paths (h : Quiet p q) : q.paths = p.paths := by
  rw [paths_of_marks, paths_of_marks, h.marks]

/-- What leaves the marks keeps it. -/
theorem Quiet.oneTabEach (h : Quiet p q) (hp : OneTabEach p) : OneTabEach q := by
  unfold OneTabEach
  rw [h.paths]
  exact hp

/-! ## §3. What the handlers make of the paths. -/

/-- A document is put at the end of the list, with a path that no other one has. -/
theorem oneTabEach_push (h : OneTabEach p) {doc : Document}
    (hnew : ∀ old ∈ p.openDocuments, old.path ≠ doc.path)
    (hdocs : q.openDocuments = p.openDocuments ++ [doc]) : OneTabEach q := by
  unfold OneTabEach CodeEditorPane.paths
  rw [hdocs, List.map_append, List.map_singleton, List.nodup_append]
  refine ⟨h, List.nodup_singleton _, ?_⟩
  intro path hpath other hother
  obtain ⟨old, hold, rfl⟩ := List.mem_map.mp hpath
  rw [List.mem_singleton.mp hother]
  exact hnew old hold

/-- Tabs that are taken out only. -/
theorem oneTabEach_of_sublist (h : OneTabEach p) (hsub : q.openDocuments.Sublist p.openDocuments) :
    OneTabEach q :=
  List.Nodup.sublist (hsub.map _) h

/-- A record with the same path. -/
theorem oneTabEach_set (h : OneTabEach p) {i : Nat} {old new : Document}
    (hget : p.openDocuments[i]? = some old) (hpath : new.path = old.path)
    (hdocs : q.openDocuments = p.openDocuments.set i new) : OneTabEach q := by
  unfold OneTabEach CodeEditorPane.paths
  rw [hdocs, map_key_set hget hpath]
  exact h

/-- A file that is open is not opened again. -/
theorem OneTabEach.requestOpen (h : OneTabEach p) (fileAvailable : Bool) (path : QString)
    (size : Nat) : OneTabEach (p.requestOpen fileAvailable path size) := by
  obtain hquiet | ⟨_, _, _, hnew, r, hquiet, heq⟩ := p.requestOpen_cases fileAvailable path size
  · exact hquiet.oneTabEach h
  · rw [heq]
    exact hquiet.oneTabEach (oneTabEach_push h hnew rfl)

/-- A read for an open file goes to its tab. -/
theorem OneTabEach.upsertLoadedDocument (h : OneTabEach p) (path text : QString) :
    OneTabEach (p.upsertLoadedDocument path text) := by
  obtain ⟨_, hquiet⟩ | ⟨_, i, old, hget, hpath, _, hquiet⟩ | ⟨_, hnew, hquiet⟩ :=
    p.upsert_cases path text
  · exact hquiet.oneTabEach h
  · exact hquiet.oneTabEach (oneTabEach_set h hget hpath.symm rfl)
  · exact hquiet.oneTabEach (oneTabEach_push h hnew rfl)

/-- A tab goes. -/
theorem OneTabEach.handleOpenFailed (h : OneTabEach p) (path : QString) :
    OneTabEach (p.handleOpenFailed path) := by
  obtain ⟨_, hquiet⟩ | ⟨_, i, old, _, _, _, hquiet⟩ | ⟨_, _, hquiet⟩ := p.openFailed_cases path
  · exact hquiet.oneTabEach h
  · exact hquiet.oneTabEach (oneTabEach_of_sublist h (List.eraseIdx_sublist _ i))
  · exact hquiet.oneTabEach h

/-- What stays after a removal keeps its path. -/
theorem afterRemoval_path {path : QString} {recursive : Bool} {doc kept : Document}
    (h : afterRemoval path recursive doc = some kept) : kept.path = doc.path := by
  unfold afterRemoval at h
  split at h
  · rw [← Option.some.inj h]
  · split at h
    · rw [← Option.some.inj h]
    · cases h

/-- Some tabs go. -/
theorem OneTabEach.handlePathRemoved (h : OneTabEach p) (path : QString) (recursive : Bool) :
    OneTabEach (p.handlePathRemoved path recursive) := by
  apply (p.quiet_handlePathRemoved path recursive).oneTabEach
  have hpersist : OneTabEach p.persistActiveText := (quiet_persistActiveText p).oneTabEach h
  exact List.Nodup.sublist (map_key_filterMap_sublist (fun _ _ => afterRemoval_path) _) hpersist

/-- A save keeps the path. -/
theorem OneTabEach.finishSave (h : OneTabEach p) (path : QString) (modified : Bool) :
    OneTabEach (p.finishSave path modified) := by
  obtain ⟨_, hquiet⟩ | ⟨i, old, new, hget, _, _, hmark, hquiet⟩ := p.finishSave_cases path modified
  · exact hquiet.oneTabEach h
  · exact hquiet.oneTabEach (oneTabEach_set h hget (congrArg Mark.path hmark) rfl)

/-- A tab goes. -/
theorem OneTabEach.closeDocument (h : OneTabEach p) (index : Int) :
    OneTabEach (p.closeDocument index) := by
  obtain hquiet | ⟨i, old, _, _, hquiet⟩ := p.closeDocument_cases index
  · exact hquiet.oneTabEach h
  · exact hquiet.oneTabEach (oneTabEach_of_sublist h (List.eraseIdx_sublist _ i))

/-- A tab may go. -/
theorem OneTabEach.requestCloseDocument (h : OneTabEach p) (index : Int) :
    OneTabEach (p.requestCloseDocument index) := by
  obtain hquiet | heq := p.requestClose_cases index
  · exact hquiet.oneTabEach h
  · rw [heq]
    exact h.closeDocument index

/-- A mark is set. -/
theorem OneTabEach.saveCurrent (h : OneTabEach p) (hrange : p.InRange)
    (connected fileAvailable : Bool) : OneTabEach (p.saveCurrent connected fileAvailable) := by
  obtain heq | ⟨_, _, doc, new, hdoc, _, _, _, hmark, r, hquiet, heq⟩ :=
    saveCurrent_cases hrange connected fileAvailable
  · rw [heq]
    exact h
  · obtain ⟨_, hget⟩ := p.documentAt?_eq_some.mp hdoc
    rw [heq]
    exact hquiet.oneTabEach (oneTabEach_set h hget (congrArg Mark.path hmark) rfl)

/-- What a move makes of the paths, also of those it has nothing to do with. -/
theorem paths_handlePathMoved (p : CodeEditorPane) (fromPath toPath : QString) :
    (p.handlePathMoved fromPath toPath).paths
      = p.paths.map fun path => movedPath path fromPath toPath := by
  rw [(p.quiet_handlePathMoved fromPath toPath).paths]
  show (p.openDocuments.map _).map Document.path = (p.openDocuments.map Document.path).map _
  rw [List.map_map, List.map_map]
  apply List.map_congr_left
  intro doc _
  show (afterMove fromPath toPath doc).path = movedPath doc.path fromPath toPath
  unfold afterMove
  split
  · rfl
  · next hnot =>
    rw [movedPath_of_not_rewritten]
    -- what a move rewrites, it matches
    rintro (heq | hbelow)
    · apply hnot
      unfold pathMatches
      split
      · rfl
      · simp [heq]
    · apply hnot
      unfold pathMatches
      split
      · rfl
      · simp [hbelow]

/-! ## §4. Runs. -/

/-- A move of a file or directory lands no open document on another one that is open. -/
def MovesLandFree (p : CodeEditorPane) : Label → Prop
  | .signal (.pathMoved fromPath toPath) => LandsFree fromPath toPath p.paths
  | _ => True

/-- **One step** keeps it, if what moves lands on no open path. -/
theorem OneTabEach.step {l : Label} (h : OneTabEach p) (hp : Coherent p) (hfree : p.MovesLandFree l)
    (hstep : p.step l = some q) : OneTabEach q := by
  cases l with
  | signal signal =>
    obtain rfl := Option.some.inj hstep
    have hanswered : OneTabEach (p.answered signal) := h
    cases signal with
    | changed isOpen busy => exact (quiet_onChanged _ isOpen busy).oneTabEach hanswered
    | contentLoaded path text => exact hanswered.upsertLoadedDocument path text
    | pathClosed path => exact hanswered.handlePathRemoved path false
    | pathRemoved path recursive => exact hanswered.handlePathRemoved path recursive
    | pathMoved fromPath toPath =>
      show (CodeEditorPane.handlePathMoved _ fromPath toPath).paths.Nodup
      -- the only step that renames tabs, and so the only one with a condition
      rw [paths_handlePathMoved]
      exact (moved_nodup_iff h fromPath toPath).mpr hfree
    | openFailed path message => exact hanswered.handleOpenFailed path
    | saveSucceeded path => exact hanswered.finishSave path false
    | saveFailed path message => exact hanswered.finishSave path true
  | requestOpen fileAvailable path size =>
    obtain rfl := Option.some.inj hstep
    exact h.requestOpen fileAvailable path size
  | setActive index =>
    obtain rfl := Option.some.inj hstep
    exact (quiet_setActiveDocument p index).oneTabEach h
  | requestClose index =>
    obtain rfl := Option.some.inj hstep
    exact h.requestCloseDocument index
  | acceptClose =>
    obtain ⟨_, hclosed⟩ := Option.ite_none_right_eq_some.mp hstep
    obtain rfl := Option.some.inj hclosed
    exact h.closeDocument p.closeFileDialog.index
  | rejectClose =>
    obtain ⟨_, hclosed⟩ := Option.ite_none_right_eq_some.mp hstep
    obtain rfl := Option.some.inj hclosed
    exact h
  | edit text cursor =>
    obtain ⟨henabled, hedited⟩ := Option.ite_none_right_eq_some.mp hstep
    obtain rfl := Option.some.inj hedited
    exact (p.edit_cases text cursor henabled).oneTabEach h
  | moveCursor cursor =>
    obtain rfl := Option.some.inj hstep
    exact h
  | save connected fileAvailable =>
    obtain rfl := Option.some.inj hstep
    exact h.saveCurrent hp.inRange connected fileAvailable

/-- A move that does not land free leaves two documents with one path. -/
theorem not_oneTabEach_of_move (h : OneTabEach p) {l : Label} (hland : ¬ p.MovesLandFree l) :
    ∃ q, p.step l = some q ∧ ¬ OneTabEach q := by
  cases l with
  | signal signal =>
    cases signal with
    | pathMoved fromPath toPath =>
      refine ⟨_, rfl, ?_⟩
      intro hq
      apply hland
      refine (moved_nodup_iff h fromPath toPath).mp ?_
      have hpaths := paths_handlePathMoved (p.answered (.pathMoved fromPath toPath)) fromPath toPath
      exact hpaths ▸ hq
    | _ => exact absurd trivial hland
  | _ => exact absurd trivial hland

/-- **When no path is open twice.**  The paths of the open documents are distinct in every state
of a run exactly if every move in it lands free. -/
theorem one_tab_each_iff (labels : List Label) :
    Throughout step OneTabEach initial labels ↔ Along step MovesLandFree initial labels := by
  refine throughout_iff_along (I := fun s => Coherent s ∧ OneTabEach s) (fun _ h => h.2) ?_ ?_
    ⟨coherent_initial, List.nodup_nil⟩
  · rintro s l t ⟨hs, hone⟩ hfree hstep
    exact ⟨coherent_step hs hstep, hone.step hs hfree hstep⟩
  · rintro s l ⟨_, hone⟩ hland
    exact not_oneTabEach_of_move hone hland

/-- Two files are open and one of them is edited and deleted, so that it stays open; then the
other one is renamed to its name. -/
def renamedOntoRun : List Label :=
  [.requestOpen true (lit "/home/a") 4, .requestOpen true (lit "/home/b") 4,
    .signal (.contentLoaded (lit "/home/a") (lit "one")),
    .signal (.contentLoaded (lit "/home/b") (lit "two")), .edit (lit "to") 2,
    .signal (.pathRemoved (lit "/home/b") false),
    .signal (.pathMoved (lit "/home/a") (lit "/home/b"))]

theorem renamedOnto_two_tabs :
    ¬ Throughout step OneTabEach initial renamedOntoRun := by
  intro h
  obtain ⟨p, hrun⟩ : ∃ p, exec step initial renamedOntoRun = some p :=
    Option.isSome_iff_exists.mp (by decide)
  have hpaths : (exec step initial renamedOntoRun).map paths
      = some [lit "/home/b", lit "/home/b"] := by decide
  rw [hrun, Option.map_some, Option.some.injEq] at hpaths
  have hone : p.paths.Nodup := h _ p List.prefix_rfl hrun
  rw [hpaths] at hone
  exact absurd hone (by decide)

end CodeEditorPane

end ResearchSSH.App
