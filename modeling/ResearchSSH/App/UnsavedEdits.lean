/-
  ResearchSSH.App.UnsavedEdits — which steps of the editor pane keep every unsaved edit.

  Two lookups go wrong.  A result is matched to a document by its path alone, so the second read
  of a file that was closed and opened again falls on what was edited since the first.  And the
  close dialog remembers an index, under which another document can stand when the user confirms.

  Main results:
    * `noLoss_iff` — from a coherent pane, a step keeps every unsaved edit exactly if it `Keeps`.
    * `unsaved_edits_kept_iff` — a run loses no unsaved edit exactly if all its steps `Keeps`.
-/

import ResearchSSH.App.PaneCoherence

namespace ResearchSSH.App

open ResearchSSH.Library

namespace CodeEditorPane

variable (p : CodeEditorPane)

/-! ## §1. Losing an edit. -/

/-- The user changes the document in this step, or confirms that it is to be discarded. -/
def GivenUp (doc : Document) : Label → Prop
  | .edit _ _ => p.activeDocument? = some doc
  | .acceptClose => doc.tab = p.closeFileDialog.tab
  | _ => False

/-- Whatever is modified is still open after the step, with the same text. -/
def NoLoss (l : Label) : Prop :=
  ∀ q, p.step l = some q → ∀ doc ∈ p.openDocuments, doc.modified = true → ¬ p.GivenUp doc l →
    Holds q.openDocuments doc

/-- The result of a read falls on no document that is modified, unless it is one the pane no
longer wants, or brings the text that is there; and the close dialog is accepted while its index
is still that of the document it was opened for, or of one that is not modified. -/
def Keeps : Label → Prop
  | .signal (.contentLoaded path text) =>
    p.isIgnoredOpenPath path = false →
      ∀ doc ∈ p.documentAt? (findDocumentIndex p.openDocuments path),
        doc.modified = true → text = doc.text
  | .signal (.openFailed path _) =>
    p.isIgnoredOpenPath path = false →
      ∀ doc ∈ p.documentAt? (findDocumentIndex p.openDocuments path), doc.modified = false
  | .acceptClose =>
    p.closeFileDialog.opened = true →
      ∀ doc ∈ p.documentAt? p.closeFileDialog.index,
        doc.modified = true → doc.tab = p.closeFileDialog.tab
  | _ => True

/-! ## §2. What the handlers keep. -/

variable {p}

theorem openDocuments_upsert_ignored {path : QString} (text : QString)
    (h : p.isIgnoredOpenPath path = true) :
    (p.upsertLoadedDocument path text).openDocuments = p.openDocuments := by
  unfold upsertLoadedDocument
  rw [if_pos h]
  exact openDocuments_activateActivePath _

/-- The loaded document takes the place of the first one with its path. -/
theorem openDocuments_upsert_some {path : QString} {old : Document} (text : QString)
    (h : p.isIgnoredOpenPath path = false)
    (hold : p.documentAt? (findDocumentIndex p.openDocuments path) = some old) :
    (p.upsertLoadedDocument path text).openDocuments
      = p.openDocuments.set (findDocumentIndex p.openDocuments path).toNat
          (makeDocument old.tab path text false false) := by
  unfold upsertLoadedDocument placeLoaded
  rw [if_neg (by simp [h])]
  dsimp only
  rw [hold]
  simp

theorem openDocuments_upsert_none {path : QString} (text : QString)
    (h : p.isIgnoredOpenPath path = false)
    (hnone : p.documentAt? (findDocumentIndex p.openDocuments path) = none) :
    (p.upsertLoadedDocument path text).openDocuments
      = p.openDocuments ++ [makeDocument p.nextTab path text false false] := by
  unfold upsertLoadedDocument placeLoaded
  rw [if_neg (by simp [h])]
  dsimp only
  rw [hnone]
  simp

theorem openDocuments_openFailed_ignored {path : QString} (h : p.isIgnoredOpenPath path = true) :
    (p.handleOpenFailed path).openDocuments = p.openDocuments := by
  unfold handleOpenFailed
  rw [if_pos h]
  rfl

theorem openDocuments_openFailed {path : QString} (h : p.isIgnoredOpenPath path = false) :
    (p.handleOpenFailed path).openDocuments
      = match p.documentAt? (findDocumentIndex p.openDocuments path) with
        | some _ => p.openDocuments.eraseIdx (findDocumentIndex p.openDocuments path).toNat
        | none => p.openDocuments := by
  unfold handleOpenFailed
  rw [if_neg (by simp [h])]
  dsimp only
  by_cases hpos : 0 ≤ findDocumentIndex p.openDocuments path
  · obtain ⟨old, hold⟩ := findDocumentIndex_nonneg hpos
    rw [if_neg (Int.not_lt.mpr hpos), p.documentAt?_eq_some.mpr ⟨hpos, hold⟩]
    split <;> split <;> simp
  · have hnone : p.documentAt? (findDocumentIndex p.openDocuments path) = none := by
      unfold documentAt?
      rw [if_pos (Int.not_le.mp hpos)]
    rw [if_pos (Int.not_le.mp hpos), hnone]

theorem openDocuments_closeDocument (p : CodeEditorPane) (index : Int) :
    (p.closeDocument index).openDocuments
      = match p.documentAt? index with
        | some _ => p.openDocuments.eraseIdx index.toNat
        | none => p.openDocuments := by
  unfold closeDocument
  split
  · next hnone => rw [hnone]
  · next old hold =>
    rw [hold]
    obtain ⟨hdocs, _⟩ := forgetOpening_frame p old
    dsimp only
    split
    · show (closeEditor _).openDocuments = _
      rw [openDocuments_closeEditor, hdocs]
    · rw [openDocuments_afterSplice, hdocs]

/-- What a removal leaves of the documents holds every modified one. -/
theorem holds_afterRemoval {docs : List Document} {doc : Document} (path : QString)
    (recursive : Bool) (hdoc : doc ∈ docs) (hmod : doc.modified = true) :
    Holds (docs.filterMap (afterRemoval path recursive)) doc := by
  obtain ⟨kept, hkept, htab, htext⟩ : ∃ kept, afterRemoval path recursive doc = some kept
      ∧ kept.tab = doc.tab ∧ kept.text = doc.text := by
    unfold afterRemoval
    rw [if_pos hmod]
    split
    · exact ⟨doc, rfl, rfl, rfl⟩
    · exact ⟨_, rfl, rfl, rfl⟩
  exact ⟨kept, List.mem_filterMap.mpr ⟨doc, hdoc, hkept⟩, htab, htext⟩

theorem openDocuments_handlePathRemoved (p : CodeEditorPane) (path : QString) (recursive : Bool) :
    (p.handlePathRemoved path recursive).openDocuments
      = p.persistActiveText.openDocuments.filterMap (afterRemoval path recursive) := by
  unfold handlePathRemoved
  dsimp only
  split
  · exact openDocuments_closeEditor _
  · split
    · show (syncEditorFromActiveDocument _).openDocuments = _
      rw [openDocuments_sync, openDocuments_setActiveDocumentIndex]
    · exact openDocuments_activateDocument_false _ _

/-- Records with the same data carry the documents over. -/
theorem carries_map {f : Document → Document}
    (hf : ∀ doc, (f doc).tab = doc.tab ∧ (f doc).text = doc.text ∧ (f doc).modified = doc.modified)
    (docs : List Document) : Carries docs (docs.map f) :=
  fun doc hdoc => ⟨f doc, List.mem_map_of_mem hdoc, hf doc⟩

/-- A move carries them over. -/
theorem Shows.carries_handlePathMoved (h : p.Shows) (fromPath toPath : QString) :
    Carries p.openDocuments (p.handlePathMoved fromPath toPath).openDocuments := by
  refine h.carries_persistActiveText.trans ?_
  unfold handlePathMoved
  dsimp only
  split
  · rw [openDocuments_activateActivePath, openDocuments_sync]
    refine carries_map ?_ _
    intro doc
    unfold afterMove
    split <;> exact ⟨rfl, rfl, rfl⟩
  · exact .refl _

/-- A click on a tab carries them over. -/
theorem Shows.carries_setActiveDocument (h : p.Shows) (index : Int) :
    Carries p.openDocuments (p.setActiveDocument index).openDocuments := by
  unfold CodeEditorPane.setActiveDocument
  split
  · exact .refl _
  · exact Shows.carries_activateDocument (p := { p with pendingOpenPath := [] }) h index

/-- Opening a file carries them over. -/
theorem Coherent.carries_requestOpen (h : Coherent p) (fileAvailable : Bool) (path : QString)
    (size : Nat) : Carries p.openDocuments (p.requestOpen fileAvailable path size).openDocuments := by
  unfold CodeEditorPane.requestOpen
  split
  · exact .refl _
  · split
    · exact .refl _
    · dsimp only
      split
      · exact h.shows.carries_setActiveDocument _
      · split
        · exact .refl _
        · have hshows : Shows ((p.unignoreOpenPath path).pushLoading path) :=
            h.shows_push rfl rfl rfl
          have hpush : Carries p.openDocuments
              ((p.unignoreOpenPath path).pushLoading path).openDocuments :=
            .of_subset (List.subset_append_left _ _)
          exact hpush.trans (hshows.carries_activateDocument _)

/-- A mark carries them over. -/
theorem Shows.carries_setActiveSaving (h : p.Shows) (value : Bool) :
    Carries p.openDocuments (p.setActiveSaving value).openDocuments := by
  unfold CodeEditorPane.setActiveSaving
  split
  · exact .refl _
  · next doc hdoc =>
    obtain ⟨_, hget⟩ := p.documentAt?_eq_some.mp hdoc
    rw [openDocuments_replaceDocument]
    exact carries_set hget rfl (h doc hdoc) rfl

/-- Sending the text carries them over. -/
theorem Coherent.carries_saveCurrent (h : Coherent p) (connected fileAvailable : Bool) :
    Carries p.openDocuments (p.saveCurrent connected fileAvailable).openDocuments := by
  unfold CodeEditorPane.saveCurrent
  split
  · show Carries p.openDocuments (p.activateActivePath.setActiveSaving true).openDocuments
    rw [← openDocuments_activateActivePath p]
    exact h.activateActivePath.shows.carries_setActiveSaving true
  · exact .refl _

/-- A finished save leaves every text as it is. -/
theorem Shows.holds_finishSave (h : p.Shows) (path : QString) (modified : Bool) {doc : Document}
    (hdoc : doc ∈ p.openDocuments) : Holds (p.finishSave path modified).openDocuments doc := by
  unfold CodeEditorPane.finishSave
  dsimp only
  split
  · exact .of_mem hdoc
  · next old hold =>
    obtain ⟨_, hget⟩ := p.documentAt?_eq_some.mp hold
    have htext : (p.savedDocument (findDocumentIndex p.openDocuments path) modified old).text
        = old.text := by
      unfold savedDocument
      dsimp only
      split
      · next hindex =>
        rw [hindex] at hold
        exact h old hold
      · rfl
    have hset := holds_set hget hdoc (fun _ => ⟨p.savedDocument_tab _ modified old, htext⟩)
    split
    · show Holds (CodeEditorPane.replaceDocument _ _ _ _).openDocuments doc
      rw [openDocuments_replaceDocument]
      exact hset
    · rw [openDocuments_replaceDocument]
      exact hset

/-! ## §3. Which steps lose nothing. -/

/-- When a read loses no edits. -/
theorem holds_upsert_iff (h : Coherent p) (path text : QString) :
    (∀ doc ∈ p.openDocuments, doc.modified = true →
        Holds (p.upsertLoadedDocument path text).openDocuments doc)
      ↔ (p.isIgnoredOpenPath path = false →
          ∀ doc ∈ p.documentAt? (findDocumentIndex p.openDocuments path),
            doc.modified = true → text = doc.text) := by
  cases hignored : p.isIgnoredOpenPath path with
  | true =>
    rw [openDocuments_upsert_ignored text hignored]
    simp only [Bool.true_eq_false, false_implies, iff_true]
    exact fun doc hdoc _ => .of_mem hdoc
  | false =>
    cases hold : p.documentAt? (findDocumentIndex p.openDocuments path) with
    | some old =>
      obtain ⟨_, hget⟩ := p.documentAt?_eq_some.mp hold
      have htab : (makeDocument old.tab path text false false).tab = old.tab := rfl
      rw [openDocuments_upsert_some text hignored hold, holds_set_iff h.distinct.1 hget htab]
      simp [makeDocument]
    | none =>
      rw [openDocuments_upsert_none text hignored hold]
      simp only [Option.mem_def, reduceCtorEq, false_implies, implies_true, iff_true]
      exact fun doc hdoc _ => .of_mem (List.mem_append_left _ hdoc)

/-- When a read that fails loses no edits. -/
theorem holds_openFailed_iff (h : Coherent p) (path : QString) :
    (∀ doc ∈ p.openDocuments, doc.modified = true →
        Holds (p.handleOpenFailed path).openDocuments doc)
      ↔ (p.isIgnoredOpenPath path = false →
          ∀ doc ∈ p.documentAt? (findDocumentIndex p.openDocuments path),
            doc.modified = false) := by
  cases hignored : p.isIgnoredOpenPath path with
  | true =>
    rw [openDocuments_openFailed_ignored hignored]
    simp only [Bool.true_eq_false, false_implies, iff_true]
    exact fun doc hdoc _ => .of_mem hdoc
  | false =>
    rw [openDocuments_openFailed hignored]
    cases hold : p.documentAt? (findDocumentIndex p.openDocuments path) with
    | some old =>
      obtain ⟨_, hget⟩ := p.documentAt?_eq_some.mp hold
      simpa using holds_eraseIdx_iff h.distinct.1 hget (fun _ => False)
    | none =>
      simp only [Option.mem_def, reduceCtorEq, false_implies, implies_true, iff_true]
      exact fun doc hdoc _ => .of_mem hdoc

/-- When closing a tab loses no edits. -/
theorem holds_closeDocument_iff (h : Coherent p) (index : Int) (spared : Document → Prop) :
    (∀ doc ∈ p.openDocuments, doc.modified = true → ¬ spared doc →
        Holds (p.closeDocument index).openDocuments doc)
      ↔ ∀ doc ∈ p.documentAt? index, doc.modified = true → spared doc := by
  rw [openDocuments_closeDocument]
  cases hold : p.documentAt? index with
  | some old =>
    obtain ⟨_, hget⟩ := p.documentAt?_eq_some.mp hold
    simpa using holds_eraseIdx_iff h.distinct.1 hget spared
  | none =>
    simp only [Option.mem_def, reduceCtorEq, false_implies, implies_true, iff_true]
    exact fun doc hdoc _ _ => .of_mem hdoc

/-- The question can be answered while it is open. -/
theorem step_acceptClose (h : p.closeFileDialog.opened = true) :
    p.step .acceptClose = some p.acceptClose := if_pos h

/-- The user can type while the text area is enabled. -/
theorem step_edit (text : QString) (cursor : Nat)
    (h : p.activeDocument?.isSome ∧ ¬ p.activeDocumentLoading ∧ ¬ p.activeDocumentSaving) :
    p.step (.edit text cursor) = some (p.edit text cursor) := if_pos h

/-- A step that is possible, and what it leaves. -/
theorem noLoss_of_step {q : CodeEditorPane} {l : Label} (hstep : p.step l = some q) :
    p.NoLoss l ↔ ∀ doc ∈ p.openDocuments, doc.modified = true → ¬ p.GivenUp doc l →
      Holds q.openDocuments doc := by
  unfold NoLoss
  rw [hstep]
  simp only [Option.some.injEq, forall_eq']

/-- What carries all documents over loses nothing. -/
theorem noLoss_of_carries {q : CodeEditorPane} {l : Label} (hstep : p.step l = some q)
    (h : Carries p.openDocuments q.openDocuments) : p.NoLoss l :=
  (noLoss_of_step hstep).mpr fun _ hdoc _ _ => h.holds hdoc

/-- What cannot happen loses nothing. -/
theorem noLoss_of_disabled {l : Label} (hstep : p.step l = none) : p.NoLoss l := by
  intro q hq
  rw [hstep] at hq
  cases hq

/-- A removal keeps the tabs with edits. -/
theorem Shows.holds_handlePathRemoved (h : p.Shows) (path : QString) (recursive : Bool)
    {doc : Document} (hdoc : doc ∈ p.openDocuments) (hmod : doc.modified = true) :
    Holds (p.handlePathRemoved path recursive).openDocuments doc := by
  rw [openDocuments_handlePathRemoved]
  -- first the text area is written back, then the paths are compared
  obtain ⟨kept, hkept, htab, htext, hkeptMod⟩ := h.carries_persistActiveText doc hdoc
  obtain ⟨left, hleft, hleftTab, hleftText⟩ :=
    holds_afterRemoval path recursive hkept (hkeptMod.trans hmod)
  exact ⟨left, hleft, hleftTab.trans htab, hleftText.trans htext⟩

/-- An edit changes the active document only. -/
theorem holds_setActiveModified (p : CodeEditorPane) (value : Bool) {doc : Document}
    (hdoc : doc ∈ p.openDocuments) (hne : p.activeDocument? ≠ some doc) :
    Holds (p.setActiveModified value).openDocuments doc := by
  unfold setActiveModified
  split
  · exact .of_mem hdoc
  · next active hactive =>
    obtain ⟨_, hget⟩ := p.documentAt?_eq_some.mp hactive
    show Holds (CodeEditorPane.replaceDocument _ _ _ _).openDocuments doc
    rw [openDocuments_replaceDocument]
    refine .of_mem (mem_set_of_ne hget hdoc ?_)
    intro heq
    -- the document that is replaced is the active one
    exact hne (heq ▸ hactive)

/-- **Which steps lose nothing.**  From a coherent pane, a step keeps every unsaved edit exactly
if it `Keeps`. -/
theorem noLoss_iff (h : Coherent p) (l : Label) : p.NoLoss l ↔ p.Keeps l := by
  cases l with
  | signal signal =>
    have hp : Coherent (p.answered signal) := h.congr rfl
    rw [noLoss_of_step rfl]
    cases signal with
    | contentLoaded path text =>
      simp only [GivenUp, not_false_eq_true, forall_const]
      exact holds_upsert_iff hp path text
    | openFailed path message =>
      simp only [GivenUp, not_false_eq_true, forall_const]
      exact holds_openFailed_iff hp path
    | changed isOpen busy =>
      refine iff_of_true (fun doc hdoc _ _ => .of_mem ?_) trivial
      show doc ∈ (CodeEditorPane.onChanged _ isOpen busy).openDocuments
      rwa [openDocuments_onChanged]
    | pathClosed path =>
      exact iff_of_true (fun _ hdoc hmod _ => hp.shows.holds_handlePathRemoved path false hdoc hmod)
        trivial
    | pathRemoved path recursive =>
      exact iff_of_true
        (fun _ hdoc hmod _ => hp.shows.holds_handlePathRemoved path recursive hdoc hmod) trivial
    | pathMoved fromPath toPath =>
      exact iff_of_true
        (fun _ hdoc _ _ => (hp.shows.carries_handlePathMoved fromPath toPath).holds hdoc) trivial
    | saveSucceeded path =>
      exact iff_of_true (fun _ hdoc _ _ => hp.shows.holds_finishSave path false hdoc) trivial
    | saveFailed path message =>
      exact iff_of_true (fun _ hdoc _ _ => hp.shows.holds_finishSave path true hdoc) trivial
  | requestOpen fileAvailable path size =>
    exact iff_of_true (noLoss_of_carries rfl (h.carries_requestOpen fileAvailable path size)) trivial
  | setActive index =>
    exact iff_of_true (noLoss_of_carries rfl (h.shows.carries_setActiveDocument index)) trivial
  | requestClose index =>
    refine iff_of_true ((noLoss_of_step rfl).mpr ?_) trivial
    show ∀ doc ∈ p.openDocuments, doc.modified = true → ¬ False →
      Holds (p.requestCloseDocument index).openDocuments doc
    unfold requestCloseDocument
    split
    · exact fun doc hdoc _ _ => .of_mem hdoc
    · next old hold =>
      split
      · exact fun doc hdoc _ _ => .of_mem hdoc
      -- closed at once: the document is not modified
      · next hclean =>
        rw [holds_closeDocument_iff h index (fun _ => False), hold]
        intro doc hdoc hmod
        rw [Option.mem_some_iff] at hdoc
        exact hclean (hdoc ▸ hmod)
  | acceptClose =>
    by_cases hopened : p.closeFileDialog.opened = true
    · rw [noLoss_of_step (step_acceptClose hopened)]
      -- only the document that the dialog was opened for is spared
      refine (holds_closeDocument_iff h p.closeFileDialog.index
        (fun doc => doc.tab = p.closeFileDialog.tab)).trans ?_
      exact ⟨fun hkeep _ => hkeep, fun hkeep => hkeep hopened⟩
    · exact iff_of_true (noLoss_of_disabled (if_neg hopened)) (fun h => absurd h hopened)
  | rejectClose =>
    refine iff_of_true ?_ trivial
    by_cases hopened : p.closeFileDialog.opened = true
    · exact noLoss_of_carries (if_pos hopened) (.refl _)
    · exact noLoss_of_disabled (if_neg hopened)
  | edit text cursor =>
    refine iff_of_true ?_ trivial
    by_cases henabled : p.activeDocument?.isSome ∧ ¬ p.activeDocumentLoading
        ∧ ¬ p.activeDocumentSaving
    · rw [noLoss_of_step (step_edit text cursor henabled)]
      intro doc hdoc _ hne
      exact holds_setActiveModified { p with editorText := text, editorCursor := cursor } true hdoc hne
    · exact noLoss_of_disabled (if_neg henabled)
  | moveCursor cursor => exact iff_of_true (noLoss_of_carries rfl (.refl _)) trivial
  | save connected fileAvailable =>
    exact iff_of_true (noLoss_of_carries rfl (h.carries_saveCurrent connected fileAvailable)) trivial

/-! ## §4. Runs. -/

/-- **A run loses no unsaved edit exactly if all its steps `Keeps`.** -/
theorem unsaved_edits_kept_iff (labels : List Label) :
    Along step NoLoss initial labels ↔ Along step Keeps initial labels :=
  along_congr (fun _ _ _ h hstep => coherent_step h hstep) (fun _ l h => noLoss_iff h l)
    coherent_initial

/-- A tab is closed while its file is being read, opened again, and edited after the first of
the two reads is there. -/
def secondReadRun : List Label :=
  [.requestOpen true (lit "/home/run.sh") 4, .requestClose 0,
    .requestOpen true (lit "/home/run.sh") 4,
    .signal (.contentLoaded (lit "/home/run.sh") (lit "date")),
    .edit (lit "date -u") 7]

/-- A second read of a file that is open. -/
def secondRead : Label := .signal (.contentLoaded (lit "/home/run.sh") (lit "date"))

/-- The second read then takes the edit away, although all results came in order. -/
theorem secondRead_overwrites :
    Along step InOrder initial (secondReadRun ++ [secondRead])
      ∧ ¬ Along step NoLoss initial (secondReadRun ++ [secondRead]) := by
  refine ⟨by decide, ?_⟩
  intro h
  obtain ⟨s, hrun⟩ : ∃ s, exec step initial secondReadRun = some s :=
    Option.isSome_iff_exists.mp (by decide)
  have hview : (exec step initial secondReadRun).bind (fun s => (s.step secondRead).map fun q =>
      s.openDocuments.any fun doc => doc.modified && decide (¬ Holds q.openDocuments doc))
      = some true := by decide
  rw [hrun, Option.bind_some, Option.map_eq_some_iff] at hview
  obtain ⟨q, hq, hlost⟩ := hview
  obtain ⟨doc, hdoc, hboth⟩ := List.any_eq_true.mp hlost
  obtain ⟨hmod, hgone⟩ := Bool.and_eq_true_iff.mp hboth
  -- a signal gives nothing up, so the step would have to keep the document
  have hkept := (along_cons.mp (h.suffix hrun)).1 q hq doc hdoc hmod (fun hfalse => hfalse)
  exact of_decide_eq_true hgone hkept

/-- The close dialog is opened for `b`, which then moves to another index: `c` is discarded. -/
example :
    (exec step initial
      [.requestOpen true (lit "a") 1, .requestOpen true (lit "b") 1, .requestOpen true (lit "c") 1,
        .signal (.contentLoaded (lit "a") []), .signal (.contentLoaded (lit "b") []),
        .signal (.contentLoaded (lit "c") []), .edit (lit "x") 1, .setActive 1, .edit (lit "y") 1,
        .requestClose 1, .signal (.pathRemoved (lit "a") false), .acceptClose]).map
      (fun p => p.openDocuments.map Document.path) = some [lit "b"] := by decide

end CodeEditorPane

end ResearchSSH.App
