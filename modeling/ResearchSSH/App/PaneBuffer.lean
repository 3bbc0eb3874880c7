/-
  ResearchSSH.App.PaneBuffer — the text area and the list of documents.

  A text is in two places, in the text area and in its document, and so is the mark that it has
  been modified.  The handlers copy both back and forth while they insert documents, take them out
  and move the active index.

  Main results:
    * `Marked.step` — the pane shows the mark of its active document after every step.
    * `texts_step` — a step changes the text of no document but the ones it names.
    * `buffer_coherent` — all of it, in every state of every run.
-/

import ResearchSSH.App.UnsavedEdits

namespace ResearchSSH.App

open ResearchSSH.Library

/-! ## §1. Lists of documents. -/

/-- What is in both lists has the same text in them. -/
def TextsKept (docs docs' : List Document) : Prop :=
  ∀ old ∈ docs, ∀ doc ∈ docs', doc.tab = old.tab → doc.text = old.text

section
variable {docs docs' : List Document}

/-- Documents that are still held have kept their texts. -/
theorem textsKept_of_holds (h : ∀ doc ∈ docs, Holds docs' doc)
    (hnodup : (docs'.map Document.tab).Nodup) : TextsKept docs docs' := by
  intro old hold doc hdoc htab
  obtain ⟨kept, hkept, hkeptTab, hkeptText⟩ := h old hold
  have heq : doc = kept := List.inj_on_of_nodup_map hnodup hdoc hkept (htab.trans hkeptTab.symm)
  rw [heq]
  exact hkeptText

/-- Documents that are carried over have kept their texts. -/
theorem Carries.textsKept (h : Carries docs docs') (hnodup : (docs'.map Document.tab).Nodup) :
    TextsKept docs docs' :=
  textsKept_of_holds (fun _ hdoc => h.holds hdoc) hnodup

/-- Documents are only taken out. -/
theorem textsKept_of_subset (h : docs' ⊆ docs) (hnodup : (docs.map Document.tab).Nodup) :
    TextsKept docs docs' := by
  intro old hold doc hdoc htab
  rw [List.inj_on_of_nodup_map hnodup (h hdoc) hold htab]

/-- A document is replaced in its tab: the other texts stay. -/
theorem texts_set {i : Nat} {replaced : Document} (new : Document)
    (hnodup : (docs.map Document.tab).Nodup)
    (hget : docs[i]? = some replaced) (htab : new.tab = replaced.tab) :
    ∀ old ∈ docs, ∀ doc ∈ docs.set i new, doc.tab = old.tab → old ≠ replaced →
      doc.text = old.text := by
  intro old hold doc hdoc hdocTab hne
  have hnodup' : ((docs.set i new).map Document.tab).Nodup := by rwa [map_key_set hget htab]
  have heq : doc = old :=
    List.inj_on_of_nodup_map hnodup' hdoc (mem_set_of_ne hget hold hne) hdocTab
  rw [heq]

/-- The document that is found under a path has it. -/
theorem path_of_findDocumentIndex {path : QString} {doc : Document}
    (hpos : 0 ≤ findDocumentIndex docs path)
    (hget : docs[(findDocumentIndex docs path).toNat]? = some doc) : doc.path = path := by
  unfold findDocumentIndex at hpos hget
  cases h : docs.findIdx? fun doc => doc.path == path with
  | none =>
    rw [h] at hpos
    exact absurd hpos (by decide)
  | some i =>
    rw [h] at hget
    obtain ⟨hlt, hpath, -⟩ := List.findIdx?_eq_some_iff_getElem.mp h
    rw [show ((i : Nat) : Int).toNat = i from rfl, List.getElem?_eq_getElem hlt,
      Option.some.injEq] at hget
    rw [← hget]
    exact eq_of_beq hpath

end

namespace CodeEditorPane

variable {p q : CodeEditorPane}

/-! ## §2. The mark of the active document. -/

/-- The pane is marked as modified exactly if its active document is. -/
def Marked (p : CodeEditorPane) : Prop :=
  ∀ doc, p.activeDocument? = some doc → p.modified = doc.modified

/-- Tabs and index decide which document is active. -/
theorem activeDocument?_congr (hdocs : q.openDocuments = p.openDocuments)
    (hindex : q.activeDocumentIndex = p.activeDocumentIndex) :
    q.activeDocument? = p.activeDocument? := by
  unfold activeDocument? documentAt?
  rw [hdocs, hindex]

theorem Marked.congr (h : Marked p) (hdocs : q.openDocuments = p.openDocuments)
    (hindex : q.activeDocumentIndex = p.activeDocumentIndex) (hmodified : q.modified = p.modified) :
    Marked q := by
  intro doc hdoc
  rw [activeDocument?_congr hdocs hindex] at hdoc
  rw [hmodified]
  exact h doc hdoc

/-- Without tabs there is nothing to mark. -/
theorem marked_of_empty (h : p.openDocuments = []) : Marked p := by
  intro doc hdoc
  obtain ⟨_, hget⟩ := p.documentAt?_eq_some.mp hdoc
  rw [h] at hget
  exact absurd hget (Option.some_ne_none doc).symm

/-- The mark is that of the document shown. -/
theorem marked_sync (p : CodeEditorPane) : Marked p.syncEditorFromActiveDocument := by
  intro doc hdoc
  rw [activeDocument?_congr p.openDocuments_sync p.activeDocumentIndex_sync] at hdoc
  unfold syncEditorFromActiveDocument
  rw [hdoc]

/-- The marks are not touched. -/
theorem Marked.activateActivePath (h : Marked p) : Marked p.activateActivePath := by
  unfold CodeEditorPane.activateActivePath
  split
  · exact h
  · exact h.congr rfl rfl rfl

/-- The mark changes with the document. -/
theorem Marked.setActiveDocumentIndex (h : Marked p) (index : Int) :
    Marked (p.setActiveDocumentIndex index) := by
  unfold CodeEditorPane.setActiveDocumentIndex
  split
  · exact h
  · exact marked_sync _

/-- A document is replaced by one that is marked as it is. -/
theorem Marked.replaceDocument (h : Marked p) {index : Int} {old new : Document}
    (hold : p.documentAt? index = some old)
    (hmodified : index = p.activeDocumentIndex → new.modified = old.modified) :
    Marked (p.replaceDocument index new false) := by
  obtain ⟨hpos, hget⟩ := p.documentAt?_eq_some.mp hold
  rw [replaceDocument_false]
  intro doc hdoc
  obtain ⟨hactive, hat⟩ := (documentAt?_eq_some _).mp hdoc
  change 0 ≤ p.activeDocumentIndex at hactive
  change (p.openDocuments.set index.toNat new)[p.activeDocumentIndex.toNat]? = some doc at hat
  show p.modified = doc.modified
  by_cases hindex : index = p.activeDocumentIndex
  · rw [← hindex, List.getElem?_set_self (List.getElem?_eq_some_iff.mp hget).1,
      Option.some.injEq] at hat
    rw [← hat, hmodified hindex]
    rw [hindex] at hold
    exact h old hold
  · rw [List.getElem?_set_ne (by omega)] at hat
    exact h doc (p.documentAt?_eq_some.mpr ⟨hactive, hat⟩)

/-- The mark is kept with the text. -/
theorem Marked.persistActiveText (h : Marked p) : Marked p.persistActiveText := by
  unfold CodeEditorPane.persistActiveText
  split
  · exact h
  · next doc hdoc => exact h.replaceDocument hdoc (fun _ => rfl)

/-- The mark is that of the document that comes to the front. -/
theorem marked_activateDocument {index : Int} (persistCurrent : Bool)
    (hrange : 0 ≤ index ∧ index < p.openDocuments.length) :
    Marked (p.activateDocument index persistCurrent) := by
  obtain ⟨_, _, heq⟩ := p.activateDocument_eq persistCurrent hrange
  rw [heq]
  exact (marked_sync _).congr rfl rfl rfl

/-- Also if the index names no document. -/
theorem Marked.activateDocument (h : Marked p) (index : Int) (persistCurrent : Bool) :
    Marked (p.activateDocument index persistCurrent) := by
  by_cases hrange : 0 ≤ index ∧ index < p.openDocuments.length
  · exact marked_activateDocument persistCurrent hrange
  · rwa [p.activateDocument_of_not_inRange persistCurrent hrange]

/-- A click on a tab. -/
theorem Marked.setActiveDocument (h : Marked p) (index : Int) :
    Marked (p.setActiveDocument index) := by
  unfold CodeEditorPane.setActiveDocument
  split
  · exact h
  · exact Marked.activateDocument (p := { p with pendingOpenPath := [] }) (h.congr rfl rfl rfl)
      index true

/-- The signal of the controller. -/
theorem Marked.onChanged (h : Marked p) (isOpen busy : Bool) : Marked (p.onChanged isOpen busy) := by
  by_cases hdocs : p.openDocuments = []
  · exact marked_of_empty ((p.openDocuments_onChanged isOpen busy).trans hdocs)
  · unfold CodeEditorPane.onChanged
    rw [if_neg (fun hall => hdocs hall.2.2)]
    exact h

/-- A document behind the active one is put at the end of the list. -/
theorem Marked.push (h : Marked p) (hrange : p.InRange) {doc : Document}
    (hdocs : q.openDocuments = p.openDocuments ++ [doc])
    (hindex : q.activeDocumentIndex = p.activeDocumentIndex) (hmodified : q.modified = p.modified) :
    Marked q := by
  intro shown hshown
  obtain ⟨hpos, hat⟩ := q.documentAt?_eq_some.mp hshown
  rw [hmodified]
  rw [hindex] at hpos
  obtain ⟨hnone, _⟩ | ⟨_, hlt⟩ := hrange
  · omega
  · rw [hdocs, hindex, List.getElem?_append_left (by omega)] at hat
    exact h shown (p.documentAt?_eq_some.mpr ⟨hpos, hat⟩)

/-- A document is taken out: the active one stays, or another one is shown with its mark. -/
theorem Marked.afterSplice (h : Marked p) {index : Int} {old : Document}
    (hold : p.documentAt? index = some old)
    (hdocs : q.openDocuments = p.openDocuments.eraseIdx index.toNat) (hne : q.openDocuments ≠ [])
    (hindex : q.activeDocumentIndex = p.activeDocumentIndex) (hmodified : q.modified = p.modified) :
    Marked (q.afterSplice index (decide (index = p.activeDocumentIndex))) := by
  obtain ⟨hpos, hget⟩ := p.documentAt?_eq_some.mp hold
  have hlong : 0 < q.openDocuments.length := List.length_pos_iff.mpr hne
  unfold CodeEditorPane.afterSplice
  by_cases hwas : index = p.activeDocumentIndex
  · rw [decide_eq_true hwas, if_pos rfl]
    exact marked_activateDocument false (by omega)
  · rw [decide_eq_false hwas, if_neg Bool.false_ne_true]
    by_cases hbefore : index < q.activeDocumentIndex
    · rw [if_pos hbefore]
      unfold CodeEditorPane.setActiveDocumentIndex
      rw [if_neg (by omega)]
      exact marked_sync _
    · -- what stood before the hole has not moved
      rw [if_neg hbefore]
      intro doc hdoc
      obtain ⟨hactive, hat⟩ := q.documentAt?_eq_some.mp hdoc
      rw [hdocs, hindex, List.getElem?_eraseIdx_of_lt (by omega)] at hat
      rw [hmodified]
      exact h doc (p.documentAt?_eq_some.mpr ⟨hindex ▸ hactive, hat⟩)

/-! ## §3. The handlers. -/

/-- A file is opened. -/
theorem Marked.requestOpen (h : Marked p) (fileAvailable : Bool) (path : QString) (size : Nat) :
    Marked (p.requestOpen fileAvailable path size) := by
  unfold CodeEditorPane.requestOpen
  split
  · exact h
  · split
    · exact h
    · dsimp only
      split
      · exact h.setActiveDocument _
      · split
        · exact h.congr rfl rfl rfl
        · have hlong : 0 < ((p.unignoreOpenPath path).pushLoading path).openDocuments.length := by
            simp [pushLoading]
          have hactivated : Marked (((p.unignoreOpenPath path).pushLoading path).activateDocument
              (((p.unignoreOpenPath path).pushLoading path).openDocuments.length - 1) true) :=
            marked_activateDocument true (by omega)
          exact hactivated.congr rfl rfl rfl

/-- The mark of a save is another one. -/
theorem Marked.setActiveSaving (h : Marked p) (value : Bool) : Marked (p.setActiveSaving value) := by
  unfold CodeEditorPane.setActiveSaving
  split
  · exact h
  · next doc hdoc => exact h.replaceDocument hdoc (fun _ => rfl)

/-- The text is sent. -/
theorem Marked.saveCurrent (h : Marked p) (connected fileAvailable : Bool) :
    Marked (p.saveCurrent connected fileAvailable) := by
  unfold CodeEditorPane.saveCurrent
  split
  · exact (h.activateActivePath.setActiveSaving true).congr rfl rfl rfl
  · exact h

/-- A read has come. -/
theorem Marked.afterLoaded (h : Marked p) (index : Int) (path : QString) (wasActive : Bool) :
    Marked (p.afterLoaded index path wasActive) := by
  have hpending : Marked
      (if p.pendingOpenPath = path then { p with pendingOpenPath := [] } else p) := by
    split
    · exact h.congr rfl rfl rfl
    · exact h
  unfold CodeEditorPane.afterLoaded
  dsimp only
  split
  · exact hpending.activateDocument index false
  · split
    · exact hpending.activateDocument index false
    · exact hpending.activateActivePath

/-- A read has come, for a tab or none. -/
theorem Marked.upsertLoadedDocument (h : Marked p) (hrange : p.InRange) (path text : QString) :
    Marked (p.upsertLoadedDocument path text) := by
  unfold CodeEditorPane.upsertLoadedDocument
  split
  · exact Marked.activateActivePath (h.congr rfl rfl rfl)
  · dsimp only
    apply Marked.afterLoaded
    unfold placeLoaded
    split
    · next old hold =>
      by_cases hindex : findDocumentIndex p.openDocuments path = p.activeDocumentIndex
      · -- the text area is filled again with the loaded document
        unfold CodeEditorPane.replaceDocument
        rw [if_pos ⟨decide_eq_true hindex, hindex⟩]
        exact marked_sync _
      · rw [decide_eq_false hindex]
        exact h.replaceDocument hold (fun hin => absurd hin hindex)
    · exact h.push hrange rfl rfl rfl

/-- A read has failed. -/
theorem Marked.handleOpenFailed (h : Marked p) (path : QString) :
    Marked (p.handleOpenFailed path) := by
  unfold CodeEditorPane.handleOpenFailed
  split
  · exact h.congr rfl rfl rfl
  · dsimp only
    split
    · exact h
    · next hindex =>
      obtain ⟨old, hold⟩ := findDocumentIndex_nonneg (Int.not_lt.mp hindex)
      have hat := p.documentAt?_eq_some.mpr ⟨Int.not_lt.mp hindex, hold⟩
      split
      · split
        · exact marked_of_empty ((openDocuments_closeEditor _).trans ‹_›)
        · exact h.afterSplice hat rfl ‹_› rfl rfl
      · split
        · exact marked_of_empty ((openDocuments_closeEditor _).trans ‹_›)
        · exact h.afterSplice hat rfl ‹_› rfl rfl

/-- A path was removed. -/
theorem marked_handlePathRemoved (hrange : p.InRange) (path : QString) (recursive : Bool) :
    Marked (p.handlePathRemoved path recursive) := by
  unfold CodeEditorPane.handlePathRemoved
  obtain ⟨htabs, -, hindex⟩ := tabs_persistActiveText p
  have hlength : p.persistActiveText.openDocuments.length = p.openDocuments.length := by
    rw [← List.length_map Document.tab, htabs, List.length_map]
  generalize p.persistActiveText = r at hindex hlength ⊢
  dsimp only
  split
  · exact marked_of_empty ((openDocuments_closeEditor _).trans ‹_›)
  · next hne =>
    split
    · next doc hdoc =>
      refine (marked_sync (setActiveDocumentIndex _ _)).congr rfl rfl ?_
      -- the mark is assigned once more, as the text area was filled
      obtain ⟨hpos, hget⟩ := (documentAt?_eq_some _).mp hdoc
      have hactive : (setActiveDocumentIndex
          { r with openDocuments := r.openDocuments.filterMap (afterRemoval path recursive) }
          (findDocumentIndex (r.openDocuments.filterMap (afterRemoval path recursive))
            r.activePath)).activeDocument? = some doc := by
        apply (documentAt?_eq_some _).mpr
        rw [activeDocumentIndex_setActiveDocumentIndex, openDocuments_setActiveDocumentIndex]
        exact ⟨hpos, hget⟩
      unfold syncEditorFromActiveDocument
      rw [hactive]
    · have hlong := List.length_pos_iff.mpr hne
      refine marked_activateDocument false ?_
      dsimp only at hlong ⊢
      obtain ⟨_, hnil⟩ | ⟨hlow, hhigh⟩ := hrange
      · rw [hnil, List.length_nil] at hlength
        rw [List.length_eq_zero_iff.mp hlength] at hne
        exact absurd rfl hne
      · omega

/-- A path was moved. -/
theorem Marked.handlePathMoved (h : Marked p) (fromPath toPath : QString) :
    Marked (p.handlePathMoved fromPath toPath) := by
  unfold CodeEditorPane.handlePathMoved
  dsimp only
  split
  · exact (marked_sync _).activateActivePath
  · exact h.persistActiveText

/-- A tab is closed. -/
theorem Marked.closeDocument (h : Marked p) (index : Int) :
    Marked (p.closeDocument index) := by
  unfold CodeEditorPane.closeDocument
  split
  · exact h
  · next old hold =>
    obtain ⟨hdocs, hindex, _, _⟩ := forgetOpening_frame p old
    have hmodified : (p.forgetOpening old).modified = p.modified := by
      unfold forgetOpening CodeEditorPane.ignoreOpenPath
      dsimp only
      split <;> split <;> first | rfl | split <;> rfl
    dsimp only
    split
    · exact marked_of_empty ((openDocuments_closeEditor _).trans ‹_›)
    · refine h.afterSplice hold ?_ ‹_› hindex hmodified
      show (p.forgetOpening old).openDocuments.eraseIdx index.toNat = _
      rw [hdocs]

/-- A tab is to be closed. -/
theorem Marked.requestCloseDocument (h : Marked p) (index : Int) :
    Marked (p.requestCloseDocument index) := by
  unfold CodeEditorPane.requestCloseDocument
  split
  · exact h
  · split
    · exact h.congr rfl rfl rfl
    · exact h.closeDocument index

/-- A document is replaced by one with the mark that the pane is given. -/
theorem marked_replaceActive {old : Document} (new : Document)
    (hold : p.activeDocument? = some old) :
    Marked { p.replaceDocument p.activeDocumentIndex new false with modified := new.modified } := by
  obtain ⟨_, hget⟩ := p.documentAt?_eq_some.mp hold
  rw [replaceDocument_false]
  intro doc hdoc
  obtain ⟨_, hat⟩ := (documentAt?_eq_some _).mp hdoc
  change (p.openDocuments.set p.activeDocumentIndex.toNat new)[p.activeDocumentIndex.toNat]?
    = some doc at hat
  rw [List.getElem?_set_self (List.getElem?_eq_some_iff.mp hget).1, Option.some.injEq] at hat
  show new.modified = doc.modified
  rw [hat]

/-- A document after a save has the mark the save gives it. -/
theorem savedDocument_modified (p : CodeEditorPane) (index : Int) (modified : Bool)
    (doc : Document) : (p.savedDocument index modified doc).modified = modified := by
  unfold savedDocument
  dsimp only
  split <;> rfl

/-- A save has ended. -/
theorem Marked.finishSave (h : Marked p) (path : QString) (modified : Bool) :
    Marked (p.finishSave path modified) := by
  unfold CodeEditorPane.finishSave
  dsimp only
  split
  · exact h
  · next doc hdoc =>
    split
    · next hindex =>
      rw [hindex] at hdoc ⊢
      have hmarked := marked_replaceActive (p.savedDocument p.activeDocumentIndex modified doc) hdoc
      rw [savedDocument_modified] at hmarked
      exact hmarked
    · next hindex => exact h.replaceDocument hdoc (fun hin => absurd hin hindex)

/-- The user types. -/
theorem marked_edit (p : CodeEditorPane) (text : QString) (cursor : Nat) :
    Marked (p.edit text cursor) := by
  unfold edit setActiveModified
  split
  · next hnone =>
    intro doc hdoc
    exact absurd (hnone.symm.trans hdoc) (Option.some_ne_none doc).symm
  · next doc hdoc => exact marked_replaceActive _ hdoc

/-- The pane shows the mark of its active document after every step. -/
theorem Marked.step {l : Label} (h : Marked p) (hp : Coherent p) (hstep : p.step l = some q) :
    Marked q := by
  cases l with
  | signal signal =>
    obtain rfl := Option.some.inj hstep
    have h : Marked (p.answered signal) := h.congr rfl rfl rfl
    have hrange : (p.answered signal).InRange := hp.inRange
    cases signal with
    | changed isOpen busy => exact h.onChanged isOpen busy
    | contentLoaded path text => exact h.upsertLoadedDocument hrange path text
    | pathClosed path => exact marked_handlePathRemoved hrange path false
    | pathRemoved path recursive => exact marked_handlePathRemoved hrange path recursive
    | pathMoved fromPath toPath => exact h.handlePathMoved fromPath toPath
    | openFailed path message => exact h.handleOpenFailed path
    | saveSucceeded path => exact h.finishSave path false
    | saveFailed path message => exact h.finishSave path true
  | requestOpen fileAvailable path size =>
    obtain rfl := Option.some.inj hstep
    exact h.requestOpen fileAvailable path size
  | setActive index =>
    obtain rfl := Option.some.inj hstep
    exact h.setActiveDocument index
  | requestClose index =>
    obtain rfl := Option.some.inj hstep
    exact h.requestCloseDocument index
  | acceptClose =>
    obtain ⟨_, hq⟩ := Option.ite_none_right_eq_some.mp hstep
    obtain rfl := Option.some.inj hq
    exact (h.closeDocument p.closeFileDialog.index).congr rfl rfl rfl
  | rejectClose =>
    obtain ⟨_, hq⟩ := Option.ite_none_right_eq_some.mp hstep
    obtain rfl := Option.some.inj hq
    exact h.congr rfl rfl rfl
  | edit text cursor =>
    obtain ⟨_, hq⟩ := Option.ite_none_right_eq_some.mp hstep
    obtain rfl := Option.some.inj hq
    exact marked_edit p text cursor
  | moveCursor cursor =>
    obtain rfl := Option.some.inj hstep
    exact h.congr rfl rfl rfl
  | save connected fileAvailable =>
    obtain rfl := Option.some.inj hstep
    exact h.saveCurrent connected fileAvailable

/-! ## §4. The texts of the other documents. -/

/-- The step names the document: it is the active one at an edit, and has the path whose content
is loaded. -/
def Names (p : CodeEditorPane) (doc : Document) : Label → Prop
  | .edit _ _ => p.activeDocument? = some doc
  | .signal (.contentLoaded path _) => doc.path = path
  | _ => False

/-- A read changes the text of its own path only. -/
theorem Coherent.texts_upsert (h : Coherent p) (path text : QString) :
    ∀ old ∈ p.openDocuments, ∀ doc ∈ (p.upsertLoadedDocument path text).openDocuments,
      doc.tab = old.tab → old.path ≠ path → doc.text = old.text := by
  intro old hold doc hdoc htab hpath
  cases hignored : p.isIgnoredOpenPath path with
  | true =>
    rw [openDocuments_upsert_ignored text hignored] at hdoc
    exact textsKept_of_subset (List.Subset.refl _) h.distinct.1 old hold doc hdoc htab
  | false =>
    cases hfound : p.documentAt? (findDocumentIndex p.openDocuments path) with
    | some found =>
      obtain ⟨hpos, hget⟩ := p.documentAt?_eq_some.mp hfound
      rw [openDocuments_upsert_some text hignored hfound] at hdoc
      refine texts_set (makeDocument found.tab path text false false) h.distinct.1 hget rfl
        old hold doc hdoc htab ?_
      intro heq
      exact hpath (heq ▸ path_of_findDocumentIndex hpos hget)
    | none =>
      rw [openDocuments_upsert_none text hignored hfound] at hdoc
      obtain hdoc | hdoc := List.mem_append.mp hdoc
      · exact textsKept_of_subset (List.Subset.refl _) h.distinct.1 old hold doc hdoc htab
      · -- the new document has a tab that none had before
        have hlt := h.distinct.2 old.tab (List.mem_map_of_mem hold)
        rw [List.mem_singleton.mp hdoc] at htab
        exact absurd htab (Nat.ne_of_gt hlt)

/-- What stays after a removal keeps its text. -/
theorem afterRemoval_text {path : QString} {recursive : Bool} {doc kept : Document}
    (h : afterRemoval path recursive doc = some kept) : kept.text = doc.text := by
  unfold afterRemoval at h
  split at h
  · rw [← Option.some.inj h]
  · split at h
    · rw [← Option.some.inj h]
    · cases h

/-- A removal changes no text. -/
theorem Coherent.textsKept_handlePathRemoved (h : Coherent p) (path : QString) (recursive : Bool) :
    TextsKept p.openDocuments (p.handlePathRemoved path recursive).openDocuments := by
  intro old hold doc hdoc htab
  rw [openDocuments_handlePathRemoved] at hdoc
  obtain ⟨before, hbefore, hafter⟩ := List.mem_filterMap.mp hdoc
  rw [afterRemoval_text hafter]
  rw [afterRemoval_tab hafter] at htab
  exact h.shows.carries_persistActiveText.textsKept h.persistActiveText.distinct.1
    old hold before hbefore htab

/-- A read that fails changes no text. -/
theorem Coherent.textsKept_handleOpenFailed (h : Coherent p) (path : QString) :
    TextsKept p.openDocuments (p.handleOpenFailed path).openDocuments := by
  refine textsKept_of_subset ?_ h.distinct.1
  cases hignored : p.isIgnoredOpenPath path with
  | true =>
    rw [openDocuments_openFailed_ignored hignored]
    exact List.Subset.refl _
  | false =>
    rw [openDocuments_openFailed hignored]
    split
    · exact (List.eraseIdx_sublist _ _).subset
    · exact List.Subset.refl _

/-- Closing a tab changes no other's text. -/
theorem Coherent.textsKept_closeDocument (h : Coherent p) (index : Int) :
    TextsKept p.openDocuments (p.closeDocument index).openDocuments := by
  refine textsKept_of_subset ?_ h.distinct.1
  rw [openDocuments_closeDocument]
  split
  · exact (List.eraseIdx_sublist _ _).subset
  · exact List.Subset.refl _

/-- Asking to close a tab changes no other's text. -/
theorem Coherent.textsKept_requestClose (h : Coherent p) (index : Int) :
    TextsKept p.openDocuments (p.requestCloseDocument index).openDocuments := by
  unfold CodeEditorPane.requestCloseDocument
  split
  · exact textsKept_of_subset (List.Subset.refl _) h.distinct.1
  · split
    · exact textsKept_of_subset (List.Subset.refl _) h.distinct.1
    · exact h.textsKept_closeDocument index

/-- Typing changes the text of the active document only. -/
theorem Coherent.texts_edit (h : Coherent p) (text : QString) (cursor : Nat) :
    ∀ old ∈ p.openDocuments, ∀ doc ∈ (p.edit text cursor).openDocuments,
      doc.tab = old.tab → p.activeDocument? ≠ some old → doc.text = old.text := by
  intro old hold doc hdoc htab hactive
  obtain ⟨kept, hkept, hkeptTab, hkeptText⟩ :=
    holds_setActiveModified { p with editorText := text, editorCursor := cursor } true hold hactive
  have heq : doc = kept := List.inj_on_of_nodup_map (h.edit text cursor).distinct.1 hdoc hkept
    (htab.trans hkeptTab.symm)
  rw [heq]
  exact hkeptText

/-- **The frame of a step.**  A document that is open before and after has kept its text, unless
the step names it. -/
theorem texts_step {l : Label} (h : Coherent p) (hstep : p.step l = some q) :
    ∀ old ∈ p.openDocuments, ∀ doc ∈ q.openDocuments, doc.tab = old.tab → ¬ p.Names old l →
      doc.text = old.text := by
  have hq : (q.openDocuments.map Document.tab).Nodup := (coherent_step h hstep).distinct.1
  intro old hold doc hdoc htab hnames
  cases l with
  | signal signal =>
    obtain rfl := Option.some.inj hstep
    have hp : Coherent (p.answered signal) := h.congr rfl
    cases signal with
    -- the one signal that brings a text, for the path it names
    | contentLoaded path text => exact hp.texts_upsert path text old hold doc hdoc htab hnames
    | openFailed path message => exact hp.textsKept_handleOpenFailed path old hold doc hdoc htab
    | changed isOpen busy =>
      refine (Carries.of_subset ?_).textsKept hq old hold doc hdoc htab
      show p.openDocuments ⊆ (CodeEditorPane.onChanged _ isOpen busy).openDocuments
      rw [openDocuments_onChanged]
      exact List.Subset.refl _
    | pathClosed path => exact hp.textsKept_handlePathRemoved path false old hold doc hdoc htab
    | pathRemoved path recursive =>
      exact hp.textsKept_handlePathRemoved path recursive old hold doc hdoc htab
    | pathMoved fromPath toPath =>
      exact (hp.shows.carries_handlePathMoved fromPath toPath).textsKept hq old hold doc hdoc htab
    | saveSucceeded path =>
      exact textsKept_of_holds (fun _ hmem => hp.shows.holds_finishSave path false hmem) hq
        old hold doc hdoc htab
    | saveFailed path message =>
      exact textsKept_of_holds (fun _ hmem => hp.shows.holds_finishSave path true hmem) hq
        old hold doc hdoc htab
  | requestOpen fileAvailable path size =>
    obtain rfl := Option.some.inj hstep
    exact (h.carries_requestOpen fileAvailable path size).textsKept hq old hold doc hdoc htab
  | setActive index =>
    obtain rfl := Option.some.inj hstep
    exact (h.shows.carries_setActiveDocument index).textsKept hq old hold doc hdoc htab
  | requestClose index =>
    obtain rfl := Option.some.inj hstep
    exact h.textsKept_requestClose index old hold doc hdoc htab
  | acceptClose =>
    obtain ⟨_, hclosed⟩ := Option.ite_none_right_eq_some.mp hstep
    obtain rfl := Option.some.inj hclosed
    exact h.textsKept_closeDocument p.closeFileDialog.index old hold doc hdoc htab
  | rejectClose =>
    obtain ⟨_, hclosed⟩ := Option.ite_none_right_eq_some.mp hstep
    obtain rfl := Option.some.inj hclosed
    exact (Carries.refl _).textsKept hq old hold doc hdoc htab
  | edit text cursor =>
    obtain ⟨_, hedited⟩ := Option.ite_none_right_eq_some.mp hstep
    obtain rfl := Option.some.inj hedited
    exact h.texts_edit text cursor old hold doc hdoc htab hnames
  | moveCursor cursor =>
    obtain rfl := Option.some.inj hstep
    exact (Carries.refl _).textsKept hq old hold doc hdoc htab
  | save connected fileAvailable =>
    obtain rfl := Option.some.inj hstep
    exact (h.carries_saveCurrent connected fileAvailable).textsKept hq old hold doc hdoc htab

/-! ## §5. Runs. -/

theorem marked_initial : Marked initial := marked_of_empty rfl

/-- **The text area and the documents say the same.**  In every state of every run the active
index is -1 exactly without documents and else that of a document, whose text the text area shows
and whose mark the pane shows; and whatever happens next, every document that stays open keeps its
text unless the step names it. -/
theorem buffer_coherent (labels : List Label) (p : CodeEditorPane)
    (hrun : exec step initial labels = some p) :
    (p.activeDocumentIndex = -1 ↔ p.openDocuments = [])
      ∧ (p.activeDocumentIndex ≠ -1 →
          0 ≤ p.activeDocumentIndex ∧ p.activeDocumentIndex < p.openDocuments.length
            ∧ ∃ doc, p.activeDocument? = some doc ∧ p.editorText = doc.text
              ∧ p.modified = doc.modified)
      ∧ ∀ l q, p.step l = some q → ∀ old ∈ p.openDocuments, ∀ doc ∈ q.openDocuments,
          doc.tab = old.tab → ¬ p.Names old l → doc.text = old.text := by
  obtain ⟨hp, hmarked⟩ : Coherent p ∧ Marked p := by
    refine exec_invariant (I := fun s => Coherent s ∧ Marked s) ?_
      ⟨coherent_initial, marked_initial⟩ hrun
    rintro s l t ⟨hs, hmarked⟩ hstep
    exact ⟨coherent_step hs hstep, hmarked.step hs hstep⟩
  refine ⟨?_, ?_, fun l q hstep => texts_step hp hstep⟩
  · obtain ⟨hnone, hnil⟩ | ⟨hpos, hlt⟩ := hp.inRange
    · exact ⟨fun _ => hnil, fun _ => hnone⟩
    · constructor
      · intro hnone
        omega
      · intro hnil
        rw [hnil, List.length_nil] at hlt
        omega
  · intro hindex
    obtain ⟨hnone, _⟩ | ⟨hpos, hlt⟩ := hp.inRange
    · exact absurd hnone hindex
    · obtain ⟨doc, hdoc⟩ : ∃ doc, p.openDocuments[p.activeDocumentIndex.toNat]? = some doc :=
        ⟨_, List.getElem?_eq_getElem (by omega)⟩
      have hactive : p.activeDocument? = some doc := p.documentAt?_eq_some.mpr ⟨hpos, hdoc⟩
      exact ⟨hpos, hlt, doc, hactive, hp.shows doc hactive, hmarked doc hactive⟩

/-- Two files are open, the first is edited and removed on the server while the second is
shown. -/
def removedBehindRun : List Label :=
  [.requestOpen true (lit "/home/a") 4, .requestOpen true (lit "/home/b") 4,
    .signal (.contentLoaded (lit "/home/a") (lit "one")),
    .signal (.contentLoaded (lit "/home/b") (lit "two")), .setActive 0, .edit (lit "on") 2,
    .setActive 1, .signal (.pathRemoved (lit "/home/a") false)]

theorem buffer_coherent_removedBehind :
    ∃ p, exec step initial removedBehindRun = some p ∧ p.activeDocumentIndex = 1
      ∧ ((p.activeDocumentIndex = -1 ↔ p.openDocuments = [])
        ∧ (p.activeDocumentIndex ≠ -1 →
            0 ≤ p.activeDocumentIndex ∧ p.activeDocumentIndex < p.openDocuments.length
              ∧ ∃ doc, p.activeDocument? = some doc ∧ p.editorText = doc.text
                ∧ p.modified = doc.modified)
        ∧ ∀ l q, p.step l = some q → ∀ old ∈ p.openDocuments, ∀ doc ∈ q.openDocuments,
            doc.tab = old.tab → ¬ p.Names old l → doc.text = old.text) := by
  obtain ⟨p, hp⟩ : ∃ p, exec step initial removedBehindRun = some p :=
    Option.isSome_iff_exists.mp (by decide)
  refine ⟨p, hp, ?_, buffer_coherent removedBehindRun p hp⟩
  have hindex : (exec step initial removedBehindRun).map activeDocumentIndex = some 1 := by decide
  rw [hp, Option.map_some, Option.some.injEq] at hindex
  exact hindex

end CodeEditorPane

end ResearchSSH.App
