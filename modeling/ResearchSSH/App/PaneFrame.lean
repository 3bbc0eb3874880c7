/-
  ResearchSSH.App.PaneFrame — what the handlers of the pane leave alone.

  Most of what a handler does is filling the text area and telling the controller which document
  is shown.  None of that changes the path of a document, the marks that wait for a result, the
  paths to ignore, or asks for a file.

  Main results, one for each handler that does more:
    * `requestOpen_cases`, `upsert_cases`, `openFailed_cases`, `closeDocument_cases`,
      `finishSave_cases`, `saveCurrent_cases` — what happens to the documents, up to `Quiet`.
    * `quiet_handlePathMoved`, `quiet_handlePathRemoved` — what a move and a removal make of every
      document.
-/

import ResearchSSH.App.PaneBuffer

namespace ResearchSSH.App

open ResearchSSH.Library

/-! ## §1. Marks. -/

/-- A document without its text, its cursor and whether it is modified. -/
structure Mark where
  tab : Nat
  path : QString
  loading : Bool
  saving : Bool
  remoteMissing : Bool
  deriving DecidableEq, Repr

/-- What a document says about its requests. -/
def Document.mark (doc : Document) : Mark :=
  { tab := doc.tab, path := doc.path, loading := doc.loading, saving := doc.saving
    remoteMissing := doc.remoteMissing }

/-- A file was moved. -/
def Mark.moved (fromPath toPath : QString) (m : Mark) : Mark :=
  if pathMatches m.path fromPath true then
    { m with path := movedPath m.path fromPath toPath, remoteMissing := false }
  else m

/-- Documents that are replaced by others with the same mark. -/
theorem map_mark_set {docs : List Document} {i : Nat} {old new : Document}
    (hget : docs[i]? = some old) (hmark : new.mark = old.mark) :
    (docs.set i new).map Document.mark = docs.map Document.mark :=
  map_key_set hget hmark

namespace CodeEditorPane

/-- The marks of all tabs. -/
def marks (p : CodeEditorPane) : List Mark := p.openDocuments.map Document.mark

/-- From `p` to `q` no file was asked for. -/
def AsksNothing (p q : CodeEditorPane) : Prop :=
  ∃ more, q.calls = p.calls ++ more ∧ ∀ c ∈ more, c.isFileRequest = false

/-- From `p` to `q` no more has changed than texts, cursors, what is modified and what is shown,
and no file was asked for. -/
structure Quiet (p q : CodeEditorPane) : Prop where
  marks : q.marks = p.marks
  nextTab : q.nextTab = p.nextTab
  ignored : q.ignoredOpenPaths = p.ignoredOpenPaths
  calls : AsksNothing p q

variable {p q r : CodeEditorPane}

theorem Quiet.refl (p : CodeEditorPane) : Quiet p p :=
  ⟨rfl, rfl, rfl, [], (List.append_nil _).symm, fun _ h => absurd h List.not_mem_nil⟩

/-- One after the other. -/
theorem Quiet.trans (h : Quiet p q) (h' : Quiet q r) : Quiet p r := by
  obtain ⟨more, hcalls, hmore⟩ := h.calls
  obtain ⟨more', hcalls', hmore'⟩ := h'.calls
  refine ⟨h'.marks.trans h.marks, h'.nextTab.trans h.nextTab, h'.ignored.trans h.ignored,
    more ++ more', ?_, ?_⟩
  · rw [hcalls', hcalls, List.append_assoc]
  · intro c hc
    exact (List.mem_append.mp hc).elim (hmore c) (hmore' c)

/-- No request was made, and the lists are the same. -/
theorem quiet_of_same (hdocs : q.openDocuments = p.openDocuments) (hnext : q.nextTab = p.nextTab)
    (hignored : q.ignoredOpenPaths = p.ignoredOpenPaths) (hcalls : q.calls = p.calls) :
    Quiet p q := by
  refine ⟨?_, hnext, hignored, [], ?_, fun _ h => absurd h List.not_mem_nil⟩
  · unfold CodeEditorPane.marks
    rw [hdocs]
  · rw [hcalls, List.append_nil]

/-- A call that asks for no file. -/
theorem quiet_call (p : CodeEditorPane) {request : EditorCall}
    (h : request.isFileRequest = false) : Quiet p (p.call request) := by
  refine ⟨rfl, rfl, rfl, [request], rfl, ?_⟩
  intro c hc
  rw [List.mem_singleton.mp hc]
  exact h

/-- The text area alone changes. -/
theorem quiet_sync (p : CodeEditorPane) : Quiet p p.syncEditorFromActiveDocument := by
  apply quiet_of_same p.openDocuments_sync p.nextTab_sync
  · unfold syncEditorFromActiveDocument
    split <;> rfl
  · unfold syncEditorFromActiveDocument
    split <;> rfl

/-- Which document is active is none of the marks. -/
theorem quiet_setActiveDocumentIndex (p : CodeEditorPane) (index : Int) :
    Quiet p (p.setActiveDocumentIndex index) := by
  unfold setActiveDocumentIndex
  split
  · exact .refl p
  · refine Quiet.trans ?_ (quiet_sync _)
    exact quiet_of_same rfl rfl rfl rfl

/-- The controller is told the path. -/
theorem quiet_activateActivePath (p : CodeEditorPane) : Quiet p p.activateActivePath := by
  unfold activateActivePath
  split
  · exact .refl p
  · exact quiet_call p rfl

/-- A document is replaced by one with its mark. -/
theorem quiet_replaceDocument {index : Int} {old new : Document}
    (hold : p.documentAt? index = some old) (hmark : new.mark = old.mark) :
    Quiet p (p.replaceDocument index new false) := by
  obtain ⟨_, hget⟩ := p.documentAt?_eq_some.mp hold
  rw [replaceDocument_false]
  exact ⟨map_mark_set hget hmark, rfl, rfl, [], (List.append_nil _).symm,
    fun _ h => absurd h List.not_mem_nil⟩

/-- The text is none of the marks. -/
theorem quiet_persistActiveText (p : CodeEditorPane) : Quiet p p.persistActiveText := by
  unfold persistActiveText
  split
  · exact .refl p
  · next doc hdoc => exact quiet_replaceDocument hdoc rfl

/-- Another document comes to the front. -/
theorem quiet_activateDocument (p : CodeEditorPane) (index : Int) (persistCurrent : Bool) :
    Quiet p (p.activateDocument index persistCurrent) := by
  unfold activateDocument
  split
  · exact .refl p
  · dsimp only
    have hpersist : Quiet p (if persistCurrent then p.persistActiveText else p) := by
      split
      · exact quiet_persistActiveText p
      · exact .refl p
    have hfilled := (hpersist.trans (quiet_setActiveDocumentIndex _ index)).trans (quiet_sync _)
    split
    · exact hfilled.trans (quiet_call _ rfl)
    · exact hfilled

/-- A click on a tab. -/
theorem quiet_setActiveDocument (p : CodeEditorPane) (index : Int) :
    Quiet p (p.setActiveDocument index) := by
  unfold setActiveDocument
  split
  · exact .refl p
  · refine Quiet.trans ?_ (quiet_activateDocument { p with pendingOpenPath := [] } index true)
    exact quiet_of_same rfl rfl rfl rfl

/-- The signal of the controller. -/
theorem quiet_onChanged (p : CodeEditorPane) (isOpen busy : Bool) :
    Quiet p (p.onChanged isOpen busy) := by
  unfold onChanged
  split
  · next h =>
    have hsame : Quiet p { p with openDocuments := [] } := quiet_of_same h.2.2.symm rfl rfl rfl
    have hindex := hsame.trans (quiet_setActiveDocumentIndex _ (-1))
    exact hindex.trans (quiet_of_same rfl rfl rfl rfl)
  · exact .refl p

/-- The controller is told that no file is open. -/
theorem quiet_closeEditor (p : CodeEditorPane) : Quiet p p.closeEditor := by
  unfold closeEditor
  dsimp only
  refine Quiet.trans ?_ (quiet_onChanged _ false false)
  refine Quiet.trans ?_ (quiet_call _ rfl)
  exact (quiet_setActiveDocumentIndex p (-1)).trans (quiet_of_same rfl rfl rfl rfl)

/-- After a tab has gone. -/
theorem quiet_afterSplice (p : CodeEditorPane) (index : Int) (wasActive : Bool) :
    Quiet p (p.afterSplice index wasActive) := by
  unfold afterSplice
  split
  · exact quiet_activateDocument p _ false
  · split
    · exact quiet_setActiveDocumentIndex p _
    · exact .refl p

/-- After a read has come. -/
theorem quiet_afterLoaded (p : CodeEditorPane) (index : Int) (path : QString)
    (wasActive : Bool) : Quiet p (p.afterLoaded index path wasActive) := by
  have hpending : Quiet p
      (if p.pendingOpenPath = path then { p with pendingOpenPath := [] } else p) := by
    split
    · exact quiet_of_same rfl rfl rfl rfl
    · exact .refl p
  unfold afterLoaded
  dsimp only
  split
  · exact hpending.trans (quiet_activateDocument _ _ false)
  · split
    · exact hpending.trans (quiet_activateDocument _ _ false)
    · exact hpending.trans (quiet_activateActivePath _)

/-! ## §2. The handlers. -/

/-- The path is of no document. -/
theorem not_mem_paths_of_findDocumentIndex {docs : List Document} {path : QString}
    (h : findDocumentIndex docs path < 0) : ∀ doc ∈ docs, doc.path ≠ path := by
  unfold findDocumentIndex at h
  split at h
  · next i _ =>
    have hnonneg : (0 : Int) ≤ i := Int.natCast_nonneg i
    omega
  · next hnone =>
    intro doc hdoc hpath
    have hne := List.findIdx?_eq_none_iff.mp hnone doc hdoc
    rw [hpath] at hne
    simp at hne

/-- An index without a document is that of a path without a tab. -/
theorem documentAt?_find_none {path : QString}
    (hnone : p.documentAt? (findDocumentIndex p.openDocuments path) = none) :
    findDocumentIndex p.openDocuments path < 0 := by
  by_contra hpos
  obtain ⟨doc, hdoc⟩ := findDocumentIndex_nonneg (Int.not_lt.mp hpos)
  rw [p.documentAt?_eq_some.mpr ⟨Int.not_lt.mp hpos, hdoc⟩] at hnone
  cases hnone

/-- An open request shows a document that is there, or begins one and asks for its file. -/
theorem requestOpen_cases (p : CodeEditorPane) (fileAvailable : Bool) (path : QString) (size : Nat) :
    Quiet p (p.requestOpen fileAvailable path size)
      ∨ (fileAvailable = true ∧ path ≠ [] ∧ size < maxEditorBytes ∧
        (∀ doc ∈ p.openDocuments, doc.path ≠ path)
        ∧ ∃ r, Quiet ((p.unignoreOpenPath path).pushLoading path) r
          ∧ p.requestOpen fileAvailable path size = r.call (.openPath path)) := by
  unfold requestOpen
  split
  · exact Or.inl (.refl p)
  · next havailable =>
    split
    · exact Or.inl (.refl p)
    · next hpath =>
      dsimp only
      split
      · exact Or.inl (quiet_setActiveDocument p _)
      · next hnone =>
        split
        · exact Or.inl (quiet_of_same rfl rfl rfl rfl)
        · next hsize =>
          right
          refine ⟨of_not_not havailable, hpath, Nat.not_le.mp hsize,
            not_mem_paths_of_findDocumentIndex (by omega), _, ?_, rfl⟩
          exact quiet_activateDocument _ _ true

/-- A content is dropped, or put into the first document with its path, or begins one. -/
theorem upsert_cases (p : CodeEditorPane) (path text : QString) :
    (p.isIgnoredOpenPath path = true
        ∧ Quiet (p.unignoreOpenPath path) (p.upsertLoadedDocument path text))
      ∨ (p.isIgnoredOpenPath path = false
        ∧ ∃ (i : Nat) (old : Document), p.openDocuments[i]? = some old ∧ old.path = path
        ∧ findDocumentIndex p.openDocuments path = i
        ∧ Quiet { p with
            openDocuments := p.openDocuments.set i (makeDocument old.tab path text false false) }
          (p.upsertLoadedDocument path text))
      ∨ (p.isIgnoredOpenPath path = false ∧ (∀ doc ∈ p.openDocuments, doc.path ≠ path)
        ∧ Quiet { p with
            openDocuments := p.openDocuments ++ [makeDocument p.nextTab path text false false]
            nextTab := p.nextTab + 1 }
          (p.upsertLoadedDocument path text)) := by
  unfold upsertLoadedDocument
  split
  · next hignored => exact Or.inl ⟨hignored, quiet_activateActivePath _⟩
  · next hignored =>
    rw [Bool.not_eq_true] at hignored
    dsimp only
    cases hold : p.documentAt? (findDocumentIndex p.openDocuments path) with
    | some old =>
      obtain ⟨hpos, hget⟩ := p.documentAt?_eq_some.mp hold
      refine Or.inr (Or.inl ⟨hignored, _, old, hget, path_of_findDocumentIndex hpos hget,
        (Int.toNat_of_nonneg hpos).symm, ?_⟩)
      refine Quiet.trans ?_ (quiet_afterLoaded _ _ path _)
      unfold placeLoaded replaceDocument
      rw [hold]
      dsimp only
      split
      · exact quiet_sync _
      · exact .refl _
    | none =>
      refine Or.inr (Or.inr ⟨hignored,
        not_mem_paths_of_findDocumentIndex (documentAt?_find_none hold), ?_⟩)
      refine Quiet.trans ?_ (quiet_afterLoaded _ _ path _)
      unfold placeLoaded
      rw [hold]
      exact .refl _

/-- A failed open is dropped, or takes the first document with its path away. -/
theorem openFailed_cases (p : CodeEditorPane) (path : QString) :
    (p.isIgnoredOpenPath path = true
        ∧ Quiet (p.unignoreOpenPath path) (p.handleOpenFailed path))
      ∨ (p.isIgnoredOpenPath path = false
        ∧ ∃ (i : Nat) (old : Document), p.openDocuments[i]? = some old ∧ old.path = path
        ∧ findDocumentIndex p.openDocuments path = i
        ∧ Quiet { p with openDocuments := p.openDocuments.eraseIdx i } (p.handleOpenFailed path))
      ∨ (p.isIgnoredOpenPath path = false ∧ (∀ doc ∈ p.openDocuments, doc.path ≠ path)
        ∧ Quiet p (p.handleOpenFailed path)) := by
  unfold handleOpenFailed
  split
  · next hignored => exact Or.inl ⟨hignored, .refl _⟩
  · next hignored =>
    rw [Bool.not_eq_true] at hignored
    dsimp only
    split
    · next hnone =>
      exact Or.inr (Or.inr ⟨hignored, not_mem_paths_of_findDocumentIndex hnone, .refl p⟩)
    · next hpos =>
      rw [Int.not_lt] at hpos
      obtain ⟨old, hget⟩ := findDocumentIndex_nonneg hpos
      refine Or.inr (Or.inl ⟨hignored, _, old, hget, path_of_findDocumentIndex hpos hget,
        (Int.toNat_of_nonneg hpos).symm, ?_⟩)
      generalize hcut : p.openDocuments.eraseIdx (findDocumentIndex p.openDocuments path).toNat = docs
      split
      · refine Quiet.trans (quiet_of_same rfl rfl rfl rfl) (q := { p with
          openDocuments := docs, pendingOpenPath := [] }) ?_
        split
        · exact quiet_closeEditor _
        · exact quiet_afterSplice _ _ _
      · split
        · exact quiet_closeEditor _
        · exact quiet_afterSplice _ _ _

/-- A move of the document is a move of its mark. -/
theorem mark_afterMove (fromPath toPath : QString) (doc : Document) :
    (afterMove fromPath toPath doc).mark = doc.mark.moved fromPath toPath := by
  unfold afterMove Mark.moved Document.mark
  dsimp only
  split <;> rfl

/-- A move that concerns no tab changes none. -/
theorem afterMove_id (fromPath toPath : QString) {docs : List Document}
    (h : ¬ (docs.any fun doc => pathMatches doc.path fromPath true) = true) :
    docs.map (afterMove fromPath toPath) = docs := by
  have hsame : ∀ doc ∈ docs, afterMove fromPath toPath doc = doc := by
    intro doc hdoc
    unfold afterMove
    rw [if_neg (fun hmatch => h (List.any_eq_true.mpr ⟨doc, hdoc, hmatch⟩))]
  rw [List.map_congr_left hsame, List.map_id'']
  exact fun _ => rfl

/-- A move changes the documents at the path and below it. -/
theorem quiet_handlePathMoved (p : CodeEditorPane) (fromPath toPath : QString) :
    Quiet { p with openDocuments := p.openDocuments.map (afterMove fromPath toPath) }
      (p.handlePathMoved fromPath toPath) := by
  have hpersist := quiet_persistActiveText p
  have hmoved : Quiet { p with openDocuments := p.openDocuments.map (afterMove fromPath toPath) }
      { p.persistActiveText with
        openDocuments := p.persistActiveText.openDocuments.map (afterMove fromPath toPath) } := by
    refine ⟨?_, hpersist.nextTab, hpersist.ignored, hpersist.calls⟩
    -- what a move makes of a document's mark is decided by the mark
    have hmark : Document.mark ∘ afterMove fromPath toPath
        = Mark.moved fromPath toPath ∘ Document.mark :=
      funext (mark_afterMove fromPath toPath)
    show (p.persistActiveText.openDocuments.map _).map Document.mark = (p.openDocuments.map _).map _
    rw [List.map_map, List.map_map, hmark, ← List.map_map, ← List.map_map]
    exact congrArg (List.map (Mark.moved fromPath toPath)) hpersist.marks
  refine hmoved.trans ?_
  unfold handlePathMoved
  dsimp only
  split
  · exact (quiet_sync _).trans (quiet_activateActivePath _)
  · next hnone =>
    rw [afterMove_id fromPath toPath hnone]
    exact .refl _

/-- A removal takes documents away, or marks them. -/
theorem quiet_handlePathRemoved (p : CodeEditorPane) (path : QString) (recursive : Bool) :
    Quiet { p with
        openDocuments := p.persistActiveText.openDocuments.filterMap (afterRemoval path recursive) }
      (p.handlePathRemoved path recursive) := by
  have hpersist := quiet_persistActiveText p
  have hremoved : Quiet { p with
      openDocuments := p.persistActiveText.openDocuments.filterMap (afterRemoval path recursive) }
      { p.persistActiveText with
        openDocuments := p.persistActiveText.openDocuments.filterMap (afterRemoval path recursive) } :=
    ⟨rfl, hpersist.nextTab, hpersist.ignored, hpersist.calls⟩
  refine hremoved.trans ?_
  unfold handlePathRemoved
  dsimp only
  split
  · exact quiet_closeEditor _
  · split
    · exact ((quiet_setActiveDocumentIndex _ _).trans (quiet_sync _)).trans
        (quiet_of_same rfl rfl rfl rfl)
    · exact quiet_activateDocument _ _ false

/-- The paths to ignore when a document is closed. -/
def ignoredAfterClose (p : CodeEditorPane) (closingDoc : Document) : List QString :=
  (if closingDoc.loading then p.ignoreOpenPath closingDoc.path else p).ignoredOpenPaths

/-- Closing takes one tab out, or there is no such tab. -/
theorem closeDocument_cases (p : CodeEditorPane) (index : Int) :
    Quiet p (p.closeDocument index)
      ∨ ∃ (i : Nat) (old : Document), p.openDocuments[i]? = some old ∧ index = i
        ∧ Quiet { p with
            openDocuments := p.openDocuments.eraseIdx i
            ignoredOpenPaths := p.ignoredAfterClose old }
          (p.closeDocument index) := by
  unfold closeDocument
  split
  · exact Or.inl (.refl p)
  · next old hold =>
    right
    obtain ⟨hpos, hget⟩ := p.documentAt?_eq_some.mp hold
    refine ⟨_, old, hget, (Int.toNat_of_nonneg hpos).symm, ?_⟩
    obtain ⟨hdocs, _, _, hnext⟩ := forgetOpening_frame p old
    have hforgotten : (p.forgetOpening old).ignoredOpenPaths = p.ignoredAfterClose old
        ∧ (p.forgetOpening old).calls = p.calls := by
      unfold forgetOpening ignoredAfterClose CodeEditorPane.ignoreOpenPath
      dsimp only
      split <;> split <;> first | exact ⟨rfl, rfl⟩ | split <;> exact ⟨rfl, rfl⟩
    have hcut : Quiet { p with
        openDocuments := p.openDocuments.eraseIdx index.toNat
        ignoredOpenPaths := p.ignoredAfterClose old }
        { p.forgetOpening old with
          openDocuments := (p.forgetOpening old).openDocuments.eraseIdx index.toNat } :=
      quiet_of_same (by rw [hdocs]) hnext hforgotten.1 hforgotten.2
    dsimp only
    split
    · exact (hcut.trans (quiet_closeEditor _)).trans (quiet_of_same rfl rfl rfl rfl)
    · exact hcut.trans (quiet_afterSplice _ _ _)

/-- Asking either opens the question or closes at once. -/
theorem requestClose_cases (p : CodeEditorPane) (index : Int) :
    Quiet p (p.requestCloseDocument index)
      ∨ p.requestCloseDocument index = p.closeDocument index := by
  unfold requestCloseDocument
  split
  · exact Or.inl (.refl p)
  · split
    · exact Or.inl (quiet_of_same rfl rfl rfl rfl)
    · exact Or.inr rfl

/-- A finished save clears the mark of the first document with its path. -/
theorem finishSave_cases (p : CodeEditorPane) (path : QString) (modified : Bool) :
    ((∀ doc ∈ p.openDocuments, doc.path ≠ path) ∧ Quiet p (p.finishSave path modified))
      ∨ ∃ (i : Nat) (old new : Document), p.openDocuments[i]? = some old ∧ old.path = path
        ∧ findDocumentIndex p.openDocuments path = i
        ∧ new.mark = { old.mark with saving := false }
        ∧ Quiet { p with openDocuments := p.openDocuments.set i new } (p.finishSave path modified) := by
  unfold finishSave
  dsimp only
  split
  · next hnone =>
    exact Or.inl ⟨not_mem_paths_of_findDocumentIndex (documentAt?_find_none hnone), .refl p⟩
  · next old hold =>
    right
    obtain ⟨hpos, hget⟩ := p.documentAt?_eq_some.mp hold
    refine ⟨_, old, p.savedDocument (findDocumentIndex p.openDocuments path) modified old, hget,
      path_of_findDocumentIndex hpos hget, (Int.toNat_of_nonneg hpos).symm, ?_, ?_⟩
    · unfold savedDocument
      dsimp only
      split <;> rfl
    · rw [replaceDocument_false]
      split
      · exact quiet_of_same rfl rfl rfl rfl
      · exact .refl _

/-- The active document stays the same. -/
theorem activeDocument?_activateActivePath (p : CodeEditorPane) :
    p.activateActivePath.activeDocument? = p.activeDocument?
      ∧ p.activateActivePath.activeDocumentIndex = p.activeDocumentIndex
      ∧ p.activateActivePath.editorText = p.editorText := by
  unfold activateActivePath
  split
  · exact ⟨rfl, rfl, rfl⟩
  · exact ⟨rfl, rfl, rfl⟩

/-- A save marks the active document and asks for its file to be written. -/
theorem saveCurrent_cases (hrange : p.InRange) (connected fileAvailable : Bool) :
    p.saveCurrent connected fileAvailable = p
      ∨ (connected = true ∧ fileAvailable = true ∧ ∃ doc new, p.activeDocument? = some doc
        ∧ doc.loading = false ∧ doc.saving = false ∧ doc.remoteMissing = false
        ∧ new.mark = { doc.mark with saving := true }
        ∧ ∃ r, Quiet { p with
              openDocuments := p.openDocuments.set p.activeDocumentIndex.toNat new } r
          ∧ p.saveCurrent connected fileAvailable
            = r.call (.saveEditorPath doc.path p.editorText)) := by
  unfold saveCurrent
  split
  · next h =>
    obtain ⟨hconnected, havailable, hindex, hloading, hsaving, hmissing, _⟩ := h
    right
    obtain ⟨doc, hdoc⟩ : ∃ doc, p.activeDocument? = some doc := by
      obtain ⟨hnone, _⟩ | ⟨hpos, hlt⟩ := hrange
      · omega
      · exact ⟨_, p.documentAt?_eq_some.mpr ⟨hpos, List.getElem?_eq_getElem (by omega)⟩⟩
    unfold activeDocumentLoading at hloading
    unfold activeDocumentSaving at hsaving
    unfold activeDocumentRemoteMissing at hmissing
    rw [hdoc] at hloading hsaving hmissing
    refine ⟨hconnected, havailable, doc, { p.withEditor doc with saving := true }, hdoc,
      by simpa using hloading, by simpa using hsaving, by simpa using hmissing, rfl, ?_⟩
    obtain ⟨hactive, hindexed, htext⟩ := activeDocument?_activateActivePath p
    -- the active document has its path also while it is saved
    have hsave : p.activateActivePath.setActiveSaving true
        = { p.activateActivePath with
            openDocuments := p.openDocuments.set p.activeDocumentIndex.toNat
              { p.withEditor doc with saving := true } } := by
      unfold setActiveSaving
      rw [hactive, hdoc]
      dsimp only
      rw [replaceDocument_false, openDocuments_activateActivePath, hindexed]
      unfold withEditor activateActivePath
      split <;> rfl
    have hpath : p.activateActivePath.activePath = doc.path := by
      unfold activePath
      rw [hactive, hdoc]
    refine ⟨p.activateActivePath.setActiveSaving true, ?_, ?_⟩
    · rw [hsave]
      have hactivated := quiet_activateActivePath p
      exact ⟨rfl, hactivated.nextTab, hactivated.ignored, hactivated.calls⟩
    · dsimp only
      rw [hpath, htext]
  · exact Or.inl rfl

/-- Typing changes no mark; the guard is that of the text area. -/
theorem edit_cases (p : CodeEditorPane) (text : QString) (cursor : Nat)
    (henabled : p.activeDocument?.isSome ∧ ¬ p.activeDocumentLoading ∧ ¬ p.activeDocumentSaving) :
    Quiet p (p.edit text cursor) := by
  obtain ⟨doc, hdoc⟩ := Option.isSome_iff_exists.mp henabled.1
  obtain ⟨_, hget⟩ := p.documentAt?_eq_some.mp hdoc
  have hloading : doc.loading = false := by
    have hnot := henabled.2.1
    unfold activeDocumentLoading at hnot
    rw [hdoc] at hnot
    simpa using hnot
  have hactive : activeDocument? { p with editorText := text, editorCursor := cursor } = some doc :=
    hdoc
  unfold edit setActiveModified
  rw [hactive]
  dsimp only
  rw [replaceDocument_false]
  refine ⟨map_mark_set hget ?_, rfl, rfl, [], (List.append_nil _).symm,
    fun _ h => absurd h List.not_mem_nil⟩
  unfold Document.mark withEditor
  simp [hloading]

end CodeEditorPane

end ResearchSSH.App
