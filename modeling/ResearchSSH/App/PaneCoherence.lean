/-
  ResearchSSH.App.PaneCoherence — what holds of the editor pane whatever happens.

  Main result:
    * `coherent_step` — every step keeps the active index in range and the text area showing the
      active document.

  Most handlers end by filling the text area from the active document, which makes the pane
  coherent as soon as the index is in range.  Those that do not leave the active document alone.
-/

import ResearchSSH.App.CodeEditorPane
import ResearchSSH.Library.KeyedList

namespace ResearchSSH.App

open ResearchSSH.Library

/-! ## §1. Lists of documents. -/

/-- The document is in the list, with its text. -/
def Holds (docs : List Document) (doc : Document) : Prop :=
  ∃ kept ∈ docs, kept.tab = doc.tab ∧ kept.text = doc.text

instance (docs : List Document) (doc : Document) : Decidable (Holds docs doc) :=
  inferInstanceAs (Decidable (∃ kept ∈ docs, kept.tab = doc.tab ∧ kept.text = doc.text))

/-- Every document is still there with its text, and still modified if it was. -/
def Carries (docs docs' : List Document) : Prop :=
  ∀ doc ∈ docs, ∃ kept ∈ docs', kept.tab = doc.tab ∧ kept.text = doc.text
    ∧ kept.modified = doc.modified

/-- A document that is there is held. -/
theorem Holds.of_mem {docs : List Document} {doc : Document} (h : doc ∈ docs) : Holds docs doc :=
  ⟨doc, h, rfl, rfl⟩

theorem Carries.refl (docs : List Document) : Carries docs docs :=
  fun doc h => ⟨doc, h, rfl, rfl, rfl⟩

/-- Documents that are held go along. -/
theorem Carries.holds {docs docs' : List Document} {doc : Document} (h : Carries docs docs')
    (hdoc : doc ∈ docs) : Holds docs' doc := by
  obtain ⟨kept, hkept, htab, htext, _⟩ := h doc hdoc
  exact ⟨kept, hkept, htab, htext⟩

/-- Documents that all stay are carried over. -/
theorem Carries.of_subset {docs docs' : List Document} (h : docs ⊆ docs') : Carries docs docs' :=
  fun doc hdoc => ⟨doc, h hdoc, rfl, rfl, rfl⟩

/-- One after the other. -/
theorem Carries.trans {docs docs' docs'' : List Document} (h : Carries docs docs')
    (h' : Carries docs' docs'') : Carries docs docs'' := by
  intro doc hdoc
  obtain ⟨kept, hkept, htab, htext, hmod⟩ := h doc hdoc
  obtain ⟨kept', hkept', htab', htext', hmod'⟩ := h' kept hkept
  exact ⟨kept', hkept', htab'.trans htab, htext'.trans htext, hmod'.trans hmod⟩

section
variable {docs : List Document} {i : Nat} {old new doc : Document}

/-- Another record in its place holds the document if it has its tab and text. -/
theorem holds_set (hi : docs[i]? = some old) (hdoc : doc ∈ docs)
    (h : doc = old → new.tab = old.tab ∧ new.text = old.text) : Holds (docs.set i new) doc := by
  by_cases heq : doc = old
  · obtain ⟨htab, htext⟩ := h heq
    exact ⟨new, mem_set_self hi, by rw [htab, heq], by rw [htext, heq]⟩
  · exact .of_mem (mem_set_of_ne hi hdoc heq)

/-- Another record in its place carries the document over if it has its data. -/
theorem carries_set (hi : docs[i]? = some old) (htab : new.tab = old.tab)
    (htext : new.text = old.text) (hmod : new.modified = old.modified) :
    Carries docs (docs.set i new) := by
  intro doc hdoc
  by_cases heq : doc = old
  · exact ⟨new, mem_set_self hi, by rw [htab, heq], by rw [htext, heq], by rw [hmod, heq]⟩
  · exact ⟨doc, mem_set_of_ne hi hdoc heq, rfl, rfl, rfl⟩

variable (hnodup : (docs.map Document.tab).Nodup)

include hnodup

/-- Nothing with its tab is left of a document that was taken out. -/
theorem not_holds_eraseIdx (hi : docs[i]? = some old) : ¬ Holds (docs.eraseIdx i) old := by
  rintro ⟨kept, hkept, htab, _⟩
  exact key_ne_of_mem_eraseIdx hnodup hi hkept htab

/-- A record with another text does not hold the document. -/
theorem not_holds_set (hi : docs[i]? = some old) (htab : new.tab = old.tab)
    (htext : new.text ≠ old.text) : ¬ Holds (docs.set i new) old := by
  rintro ⟨kept, hkept, hkeptTab, hkeptText⟩
  have hkeptNew : kept = new := eq_of_mem_set hnodup hi htab hkept hkeptTab
  exact htext (hkeptNew ▸ hkeptText)

/-- Which documents can be taken out: one that is not modified, and one that is `spared`. -/
theorem holds_eraseIdx_iff (hi : docs[i]? = some old) (spared : Document → Prop) :
    (∀ doc ∈ docs, doc.modified = true → ¬ spared doc → Holds (docs.eraseIdx i) doc)
      ↔ (old.modified = true → spared old) := by
  constructor
  · intro h hmod
    by_contra hspared
    exact not_holds_eraseIdx hnodup hi (h old (List.mem_of_getElem? hi) hmod hspared)
  · intro h doc hdoc hmod hspared
    by_cases heq : doc = old
    · rw [heq] at hmod hspared
      exact absurd (h hmod) hspared
    · exact .of_mem (mem_eraseIdx_of_ne hi hdoc heq)

/-- Which documents can be replaced in their tab: one that is not modified, and any by one with
the same text. -/
theorem holds_set_iff (hi : docs[i]? = some old) (htab : new.tab = old.tab) :
    (∀ doc ∈ docs, doc.modified = true → Holds (docs.set i new) doc)
      ↔ (old.modified = true → new.text = old.text) := by
  constructor
  · intro h hmod
    by_contra htext
    exact not_holds_set hnodup hi htab htext (h old (List.mem_of_getElem? hi) hmod)
  · intro h doc hdoc hmod
    refine holds_set hi hdoc ?_
    intro heq
    rw [heq] at hmod
    exact ⟨htab, h hmod⟩

end

/-- An index that is found names a document. -/
theorem findDocumentIndex_nonneg {docs : List Document} {path : QString}
    (h : 0 ≤ findDocumentIndex docs path) :
    ∃ doc, docs[(findDocumentIndex docs path).toNat]? = some doc := by
  unfold findDocumentIndex at h ⊢
  split
  · next i hi =>
    obtain ⟨hlt, _⟩ := List.findIdx?_eq_some_iff_getElem.mp hi
    exact ⟨docs[i], List.getElem?_eq_getElem hlt⟩
  · next hnone =>
    rw [hnone] at h
    exact absurd h (by decide)

/-! ## §2. What the small functions leave alone. -/

namespace CodeEditorPane

variable (p : CodeEditorPane)

/-- The document of an index. -/
theorem documentAt?_eq_some {index : Int} {doc : Document} :
    p.documentAt? index = some doc ↔ 0 ≤ index ∧ p.openDocuments[index.toNat]? = some doc := by
  unfold documentAt?
  by_cases h : index < 0
  · simp [h, Int.not_le.mpr h]
  · simp [h, Int.not_lt.mp h]

@[simp] theorem openDocuments_sync :
    p.syncEditorFromActiveDocument.openDocuments = p.openDocuments := by
  unfold syncEditorFromActiveDocument
  split <;> rfl

@[simp] theorem activeDocumentIndex_sync :
    p.syncEditorFromActiveDocument.activeDocumentIndex = p.activeDocumentIndex := by
  unfold syncEditorFromActiveDocument
  split <;> rfl

@[simp] theorem nextTab_sync : p.syncEditorFromActiveDocument.nextTab = p.nextTab := by
  unfold syncEditorFromActiveDocument
  split <;> rfl

@[simp] theorem openDocuments_setActiveDocumentIndex (index : Int) :
    (p.setActiveDocumentIndex index).openDocuments = p.openDocuments := by
  unfold setActiveDocumentIndex
  split
  · rfl
  · exact openDocuments_sync _

@[simp] theorem activeDocumentIndex_setActiveDocumentIndex (index : Int) :
    (p.setActiveDocumentIndex index).activeDocumentIndex = index := by
  unfold setActiveDocumentIndex
  split
  · next h => exact h.symm
  · exact activeDocumentIndex_sync _

@[simp] theorem nextTab_setActiveDocumentIndex (index : Int) :
    (p.setActiveDocumentIndex index).nextTab = p.nextTab := by
  unfold setActiveDocumentIndex
  split
  · rfl
  · exact nextTab_sync _

@[simp] theorem openDocuments_activateActivePath :
    p.activateActivePath.openDocuments = p.openDocuments := by
  unfold activateActivePath
  split <;> rfl

@[simp] theorem openDocuments_onChanged (isOpen busy : Bool) :
    (p.onChanged isOpen busy).openDocuments = p.openDocuments := by
  unfold onChanged
  split
  · next h =>
    show (setActiveDocumentIndex _ (-1)).openDocuments = _
    rw [openDocuments_setActiveDocumentIndex, h.2.2]
  · rfl

@[simp] theorem openDocuments_closeEditor : p.closeEditor.openDocuments = p.openDocuments := by
  unfold closeEditor
  rw [openDocuments_onChanged]
  exact openDocuments_setActiveDocumentIndex p (-1)

theorem activeDocumentIndex_onChanged (isOpen busy : Bool) (h : p.activeDocumentIndex = -1) :
    (p.onChanged isOpen busy).activeDocumentIndex = -1 := by
  unfold onChanged
  split
  · exact activeDocumentIndex_setActiveDocumentIndex _ (-1)
  · exact h

@[simp] theorem activeDocumentIndex_closeEditor : p.closeEditor.activeDocumentIndex = -1 := by
  unfold closeEditor
  exact activeDocumentIndex_onChanged _ false false
    (activeDocumentIndex_setActiveDocumentIndex p (-1))

@[simp] theorem openDocuments_replaceDocument (index : Int) (doc : Document) (syncActive : Bool) :
    (p.replaceDocument index doc syncActive).openDocuments
      = p.openDocuments.set index.toNat doc := by
  dsimp only [replaceDocument]
  split
  · exact openDocuments_sync _
  · rfl

@[simp] theorem activeDocumentIndex_replaceDocument (index : Int) (doc : Document)
    (syncActive : Bool) :
    (p.replaceDocument index doc syncActive).activeDocumentIndex = p.activeDocumentIndex := by
  dsimp only [replaceDocument]
  split
  · exact activeDocumentIndex_sync _
  · rfl

@[simp] theorem nextTab_replaceDocument (index : Int) (doc : Document) (syncActive : Bool) :
    (p.replaceDocument index doc syncActive).nextTab = p.nextTab := by
  dsimp only [replaceDocument]
  split
  · exact nextTab_sync _
  · rfl

/-- What `activateDocument` does, up to the requests it makes. -/
theorem activateDocument_eq {index : Int} (persistCurrent : Bool)
    (h : 0 ≤ index ∧ index < p.openDocuments.length) :
    ∃ calls inFlight, p.activateDocument index persistCurrent =
      { syncEditorFromActiveDocument (setActiveDocumentIndex
          (if persistCurrent then p.persistActiveText else p) index) with
        calls := calls, inFlight := inFlight } := by
  unfold activateDocument
  rw [if_neg (by omega)]
  dsimp only
  split
  · exact ⟨_, _, rfl⟩
  · exact ⟨_, _, rfl⟩

/-- An index that names no document does nothing. -/
theorem activateDocument_of_not_inRange {index : Int} (persistCurrent : Bool)
    (h : ¬ (0 ≤ index ∧ index < p.openDocuments.length)) :
    p.activateDocument index persistCurrent = p := by
  unfold activateDocument
  rw [if_pos (by omega)]

@[simp] theorem openDocuments_activateDocument_false (index : Int) :
    (p.activateDocument index false).openDocuments = p.openDocuments := by
  by_cases h : 0 ≤ index ∧ index < p.openDocuments.length
  · obtain ⟨_, _, heq⟩ := p.activateDocument_eq false h
    rw [heq]
    simp
  · rw [p.activateDocument_of_not_inRange false h]

@[simp] theorem openDocuments_afterSplice (index : Int) (wasActive : Bool) :
    (p.afterSplice index wasActive).openDocuments = p.openDocuments := by
  unfold afterSplice
  split
  · exact p.openDocuments_activateDocument_false _
  · split
    · exact openDocuments_setActiveDocumentIndex _ _
    · rfl

@[simp] theorem openDocuments_afterLoaded (index : Int) (path : QString) (wasActive : Bool) :
    (p.afterLoaded index path wasActive).openDocuments = p.openDocuments := by
  have hpending : (if p.pendingOpenPath = path then { p with pendingOpenPath := [] }
      else p).openDocuments = p.openDocuments := by
    split <;> rfl
  unfold afterLoaded
  dsimp only
  split
  · rw [openDocuments_activateDocument_false, hpending]
  · split
    · rw [openDocuments_activateDocument_false, hpending]
    · rw [openDocuments_activateActivePath, hpending]

/-! ## §3. Coherence. -/

/-- The active index is that of a document, and -1 without documents. -/
def InRange : Prop :=
  (p.activeDocumentIndex = -1 ∧ p.openDocuments = [])
    ∨ (0 ≤ p.activeDocumentIndex ∧ p.activeDocumentIndex < p.openDocuments.length)

/-- The text area shows the active document. -/
def Shows : Prop := ∀ doc, p.activeDocument? = some doc → p.editorText = doc.text

/-- What holds of the pane between two events. -/
structure Coherent : Prop where
  distinct : Distinct (p.openDocuments.map Document.tab) p.nextTab
  inRange : p.InRange
  shows : p.Shows

variable {p}

/-- The pane as it is made. -/
theorem coherent_initial : Coherent initial where
  distinct := .nil 0
  inRange := Or.inl ⟨rfl, rfl⟩
  shows := fun _ h => by cases h

/-- Without tabs nothing is active. -/
theorem coherent_of_empty (hdocs : p.openDocuments = []) (hindex : p.activeDocumentIndex = -1) :
    Coherent p where
  distinct := by
    rw [hdocs]
    exact .nil p.nextTab
  inRange := Or.inl ⟨hindex, hdocs⟩
  shows := by
    intro doc hdoc
    obtain ⟨hpos, _⟩ := (p.documentAt?_eq_some).mp hdoc
    omega

/-- The last tab has gone. -/
theorem coherent_closeEditor (hdocs : p.openDocuments = []) : Coherent p.closeEditor :=
  coherent_of_empty (p.openDocuments_closeEditor.trans hdocs) p.activeDocumentIndex_closeEditor

/-- The text area shows the active document after a sync. -/
theorem shows_sync (p : CodeEditorPane) : p.syncEditorFromActiveDocument.Shows := by
  intro doc hdoc
  have hactive : p.activeDocument? = some doc := by
    unfold activeDocument? documentAt? at hdoc ⊢
    rwa [openDocuments_sync, activeDocumentIndex_sync] at hdoc
  unfold syncEditorFromActiveDocument
  rw [hactive]

/-- Refilling the text area makes a pane coherent whose index is in range. -/
theorem coherent_sync (hdistinct : Distinct (p.openDocuments.map Document.tab) p.nextTab)
    (hrange : p.InRange) : Coherent p.syncEditorFromActiveDocument where
  distinct := by rwa [openDocuments_sync, nextTab_sync]
  inRange := by
    unfold InRange
    rwa [openDocuments_sync, activeDocumentIndex_sync]
  shows := shows_sync p

/-- What coherence speaks of. -/
def shown (p : CodeEditorPane) : List Document × Int × QString × Nat :=
  (p.openDocuments, p.activeDocumentIndex, p.editorText, p.nextTab)

theorem Coherent.congr {q : CodeEditorPane} (h : Coherent p) (hsame : q.shown = p.shown) :
    Coherent q := by
  simp only [shown, Prod.mk.injEq] at hsame
  obtain ⟨hdocs, hindex, htext, hnext⟩ := hsame
  refine ⟨?_, ?_, ?_⟩
  · rw [hdocs, hnext]
    exact h.distinct
  · unfold InRange
    rw [hdocs, hindex]
    exact h.inRange
  · intro doc hdoc
    unfold activeDocument? documentAt? at hdoc
    rw [hdocs, hindex] at hdoc
    rw [htext]
    exact h.shows doc hdoc

/-- A call changes no tab. -/
theorem Coherent.call (h : Coherent p) (request : EditorCall) : Coherent (p.call request) :=
  h.congr rfl

/-- Telling the controller the path changes no tab. -/
theorem Coherent.activateActivePath (h : Coherent p) : Coherent p.activateActivePath := by
  unfold CodeEditorPane.activateActivePath
  split
  · exact h
  · exact h.call _

/-- The signal of the controller closes an empty pane only. -/
theorem Coherent.onChanged (h : Coherent p) (isOpen busy : Bool) :
    Coherent (p.onChanged isOpen busy) := by
  by_cases hdocs : p.openDocuments = []
  · have hindex : p.activeDocumentIndex = -1 := by
      -- without documents the index was -1 before
      obtain ⟨hindex, _⟩ | ⟨hpos, hlt⟩ := h.inRange
      · exact hindex
      · rw [hdocs, List.length_nil] at hlt
        omega
    exact coherent_of_empty ((p.openDocuments_onChanged isOpen busy).trans hdocs)
      (p.activeDocumentIndex_onChanged isOpen busy hindex)
  · unfold CodeEditorPane.onChanged
    rw [if_neg (fun hall => hdocs hall.2.2)]
    exact h

section
variable {i : Nat} {old new : Document}

/-- A new record keeps the tab. -/
theorem distinct_set (h : Distinct (p.openDocuments.map Document.tab) p.nextTab)
    (hget : p.openDocuments[i]? = some old) (htab : new.tab = old.tab) :
    Distinct ((p.openDocuments.set i new).map Document.tab) p.nextTab := by
  rwa [map_key_set hget htab]

/-- A new record keeps the index in range. -/
theorem InRange.set (h : p.InRange) (hget : p.openDocuments[i]? = some old) :
    InRange { p with openDocuments := p.openDocuments.set i new } := by
  obtain ⟨_, hdocs⟩ | hrange := h
  · rw [hdocs] at hget
    exact absurd hget (by simp)
  · right
    show _ ∧ _ < ((p.openDocuments.set i new).length : Int)
    rwa [List.length_set]

/-- A replacement without a sync. -/
theorem replaceDocument_false (p : CodeEditorPane) (index : Int) (new : Document) :
    p.replaceDocument index new false
      = { p with openDocuments := p.openDocuments.set index.toNat new } := by
  unfold CodeEditorPane.replaceDocument
  simp

/-- The active document is replaced in its tab by what the text area shows. -/
theorem coherent_replaceActive (hdistinct : Distinct (p.openDocuments.map Document.tab) p.nextTab)
    (hrange : p.InRange) (hold : p.activeDocument? = some old) (htab : new.tab = old.tab)
    (htext : new.text = p.editorText) :
    Coherent (p.replaceDocument p.activeDocumentIndex new false) := by
  obtain ⟨_, hget⟩ := p.documentAt?_eq_some.mp hold
  rw [replaceDocument_false]
  refine ⟨distinct_set hdistinct hget htab, hrange.set hget, ?_⟩
  intro doc hdoc
  obtain ⟨_, hat⟩ := (documentAt?_eq_some _).mp hdoc
  show p.editorText = doc.text
  change (p.openDocuments.set p.activeDocumentIndex.toNat new)[p.activeDocumentIndex.toNat]?
    = some doc at hat
  rw [List.getElem?_set_self (List.getElem?_eq_some_iff.mp hget).1, Option.some.injEq] at hat
  rw [← hat, htext]

/-- Any document is replaced in its tab; if it is the active one, by what the text area shows. -/
theorem Coherent.replaceDocument (h : Coherent p) {index : Int}
    (hold : p.documentAt? index = some old) (htab : new.tab = old.tab)
    (htext : index = p.activeDocumentIndex → new.text = p.editorText) :
    Coherent (p.replaceDocument index new false) := by
  by_cases hindex : index = p.activeDocumentIndex
  · rw [hindex] at hold ⊢
    exact coherent_replaceActive h.distinct h.inRange hold htab (htext hindex)
  · obtain ⟨hpos, hget⟩ := p.documentAt?_eq_some.mp hold
    rw [replaceDocument_false]
    refine ⟨distinct_set h.distinct hget htab, h.inRange.set hget, ?_⟩
    intro doc hdoc
    obtain ⟨hactive, hat⟩ := (documentAt?_eq_some _).mp hdoc
    change 0 ≤ p.activeDocumentIndex at hactive
    change (p.openDocuments.set index.toNat new)[p.activeDocumentIndex.toNat]? = some doc at hat
    rw [List.getElem?_set_ne (by omega)] at hat
    exact h.shows doc (p.documentAt?_eq_some.mpr ⟨hactive, hat⟩)

end

/-- Keeping the text changes neither tabs nor index. -/
theorem tabs_persistActiveText (p : CodeEditorPane) :
    p.persistActiveText.openDocuments.map Document.tab = p.openDocuments.map Document.tab
      ∧ p.persistActiveText.nextTab = p.nextTab
      ∧ p.persistActiveText.activeDocumentIndex = p.activeDocumentIndex := by
  unfold persistActiveText
  split
  · exact ⟨rfl, rfl, rfl⟩
  · next doc hdoc =>
    obtain ⟨_, hget⟩ := p.documentAt?_eq_some.mp hdoc
    rw [openDocuments_replaceDocument, nextTab_replaceDocument, activeDocumentIndex_replaceDocument]
    exact ⟨map_key_set hget rfl, rfl, rfl⟩

/-- What the text area shows is what `persistActiveText` writes back. -/
theorem Shows.carries_persistActiveText (h : p.Shows) :
    Carries p.openDocuments p.persistActiveText.openDocuments := by
  unfold CodeEditorPane.persistActiveText
  split
  · exact .refl _
  · next doc hdoc =>
    obtain ⟨_, hget⟩ := p.documentAt?_eq_some.mp hdoc
    rw [openDocuments_replaceDocument]
    exact carries_set hget rfl (h doc hdoc) rfl

/-- The text that is shown is kept in its document. -/
theorem Coherent.persistActiveText (h : Coherent p) : Coherent p.persistActiveText := by
  unfold CodeEditorPane.persistActiveText
  split
  · exact h
  · next doc hdoc =>
    exact h.replaceDocument hdoc rfl (fun _ => rfl)

/-- Another document comes to the front. -/
theorem coherent_activateDocument {index : Int} (persistCurrent : Bool)
    (hdistinct : Distinct (p.openDocuments.map Document.tab) p.nextTab)
    (hrange : 0 ≤ index ∧ index < p.openDocuments.length) :
    Coherent (p.activateDocument index persistCurrent) := by
  obtain ⟨_, _, heq⟩ := p.activateDocument_eq persistCurrent hrange
  rw [heq]
  obtain ⟨htabs, hnext, _⟩ := tabs_persistActiveText p
  have hlength : p.persistActiveText.openDocuments.length = p.openDocuments.length := by
    rw [← List.length_map Document.tab, htabs, List.length_map]
  have hsync : Coherent (syncEditorFromActiveDocument (setActiveDocumentIndex
      (if persistCurrent then p.persistActiveText else p) index)) := by
    apply coherent_sync
    · rw [openDocuments_setActiveDocumentIndex, nextTab_setActiveDocumentIndex]
      split
      · rwa [htabs, hnext]
      · exact hdistinct
    · right
      rw [activeDocumentIndex_setActiveDocumentIndex, openDocuments_setActiveDocumentIndex]
      refine ⟨hrange.1, ?_⟩
      split
      · rw [hlength]
        exact hrange.2
      · exact hrange.2
  exact ⟨hsync.distinct, hsync.inRange, hsync.shows⟩

/-- Also if the index names no document. -/
theorem Coherent.activateDocument (h : Coherent p) (index : Int) (persistCurrent : Bool) :
    Coherent (p.activateDocument index persistCurrent) := by
  by_cases hrange : 0 ≤ index ∧ index < p.openDocuments.length
  · exact coherent_activateDocument persistCurrent h.distinct hrange
  · rwa [p.activateDocument_of_not_inRange persistCurrent hrange]

/-- The document that is left takes its text along. -/
theorem Shows.carries_activateDocument (h : p.Shows) (index : Int) :
    Carries p.openDocuments (p.activateDocument index true).openDocuments := by
  by_cases hrange : 0 ≤ index ∧ index < p.openDocuments.length
  · obtain ⟨_, _, heq⟩ := p.activateDocument_eq true hrange
    rw [heq]
    simpa using h.carries_persistActiveText
  · rw [p.activateDocument_of_not_inRange true hrange]
    exact .refl _

/-- A document is taken out of the list: the active one is still the active one, or the text
area is filled again. -/
theorem Coherent.afterSplice {q : CodeEditorPane} (h : Coherent p) {index : Int} {old : Document}
    (hold : p.documentAt? index = some old)
    (hdocs : q.openDocuments = p.openDocuments.eraseIdx index.toNat) (hne : q.openDocuments ≠ [])
    (hindex : q.activeDocumentIndex = p.activeDocumentIndex) (htext : q.editorText = p.editorText)
    (hnext : q.nextTab = p.nextTab) :
    Coherent (q.afterSplice index (decide (index = p.activeDocumentIndex))) := by
  obtain ⟨hpos, hget⟩ := p.documentAt?_eq_some.mp hold
  have hlt := (List.getElem?_eq_some_iff.mp hget).1
  have hlength : q.openDocuments.length = p.openDocuments.length - 1 := by
    rw [hdocs, List.length_eraseIdx_of_lt hlt]
  have hlong : 0 < q.openDocuments.length := List.length_pos_iff.mpr hne
  have hdistinct : Distinct (q.openDocuments.map Document.tab) q.nextTab := by
    rw [hdocs, hnext]
    exact h.distinct.sublist ((List.eraseIdx_sublist _ _).map _)
  have hactive : 0 ≤ p.activeDocumentIndex ∧ p.activeDocumentIndex < p.openDocuments.length := by
    obtain ⟨_, hnil⟩ | hrange := h.inRange
    · rw [hnil] at hlt
      exact absurd hlt (Nat.not_lt_zero _)
    · exact hrange
  unfold CodeEditorPane.afterSplice
  by_cases hwas : index = p.activeDocumentIndex
  · rw [decide_eq_true hwas, if_pos rfl]
    exact coherent_activateDocument false hdistinct (by omega)
  · rw [decide_eq_false hwas, if_neg Bool.false_ne_true]
    by_cases hbefore : index < q.activeDocumentIndex
    · -- The index moves down with its document, and the text area is filled again.
      rw [if_pos hbefore]
      have hmoved : q.setActiveDocumentIndex (q.activeDocumentIndex - 1)
          = syncEditorFromActiveDocument
              { q with activeDocumentIndex := q.activeDocumentIndex - 1 } := by
        unfold setActiveDocumentIndex
        rw [if_neg (by omega)]
      rw [hmoved]
      refine coherent_sync hdistinct (Or.inr ?_)
      show 0 ≤ q.activeDocumentIndex - 1 ∧ q.activeDocumentIndex - 1 < (q.openDocuments.length : Int)
      omega
    · -- What stood before the hole has not moved.
      rw [if_neg hbefore]
      refine ⟨hdistinct, Or.inr ⟨by omega, by omega⟩, ?_⟩
      intro doc hdoc
      obtain ⟨_, hat⟩ := q.documentAt?_eq_some.mp hdoc
      rw [hdocs, hindex, List.getElem?_eraseIdx_of_lt (by omega)] at hat
      rw [htext]
      exact h.shows doc (p.documentAt?_eq_some.mpr ⟨hactive.1, hat⟩)

/-! ## §4. The handlers keep a pane coherent. -/

/-- A click on a tab. -/
theorem Coherent.setActiveDocument (h : Coherent p) (index : Int) :
    Coherent (p.setActiveDocument index) := by
  unfold CodeEditorPane.setActiveDocument
  split
  · exact h
  · exact Coherent.activateDocument (p := { p with pendingOpenPath := [] })
      (h.congr rfl) index true

/-- A new document at the end of the list. -/
theorem Coherent.distinct_push (h : Coherent p) {doc : Document} (htab : doc.tab = p.nextTab) :
    Distinct ((p.openDocuments ++ [doc]).map Document.tab) (p.nextTab + 1) := by
  rw [List.map_append, List.map_singleton, htab]
  exact h.distinct.push

/-- A new tab behind the others is not shown yet. -/
theorem Coherent.shows_push (h : Coherent p) {q : CodeEditorPane} {doc : Document}
    (hdocs : q.openDocuments = p.openDocuments ++ [doc])
    (hindex : q.activeDocumentIndex = p.activeDocumentIndex) (htext : q.editorText = p.editorText) :
    q.Shows := by
  intro shown hshown
  obtain ⟨hpos, hat⟩ := q.documentAt?_eq_some.mp hshown
  rw [htext]
  rw [hindex] at hpos
  -- the active document is not the one at the end
  obtain ⟨hnone, _⟩ | ⟨_, hlt⟩ := h.inRange
  · omega
  · rw [hdocs, hindex, List.getElem?_append_left (by omega)] at hat
    exact h.shows shown (p.documentAt?_eq_some.mpr ⟨hpos, hat⟩)

/-- A file is opened. -/
theorem Coherent.requestOpen (h : Coherent p) (fileAvailable : Bool) (path : QString)
    (size : Nat) : Coherent (p.requestOpen fileAvailable path size) := by
  unfold CodeEditorPane.requestOpen
  split
  · exact h
  · split
    · exact h
    · dsimp only
      split
      · exact h.setActiveDocument _
      · split
        · exact h.congr rfl
        · refine (coherent_activateDocument true ?_ ?_).call _
          · exact h.distinct_push rfl
          · have hlong : 0 < ((p.unignoreOpenPath path).pushLoading path).openDocuments.length := by
              simp [pushLoading]
            omega

/-- The active document is marked. -/
theorem Coherent.setActiveSaving (h : Coherent p) (value : Bool) :
    Coherent (p.setActiveSaving value) := by
  unfold CodeEditorPane.setActiveSaving
  split
  · exact h
  · next doc hdoc => exact h.replaceDocument hdoc rfl (fun _ => rfl)

/-- The text is sent. -/
theorem Coherent.saveCurrent (h : Coherent p) (connected fileAvailable : Bool) :
    Coherent (p.saveCurrent connected fileAvailable) := by
  unfold CodeEditorPane.saveCurrent
  split
  · exact (h.activateActivePath.setActiveSaving true).call _
  · exact h

/-- The loaded document takes the place of the one with its path; the text area is filled again
if that is the active one. -/
theorem Coherent.replaceLoaded (h : Coherent p) {index : Int} {old new : Document}
    (hold : p.documentAt? index = some old) (htab : new.tab = old.tab) :
    Coherent (p.replaceDocument index new (decide (index = p.activeDocumentIndex))) := by
  by_cases hindex : index = p.activeDocumentIndex
  · obtain ⟨_, hget⟩ := p.documentAt?_eq_some.mp hold
    have heq : p.replaceDocument index new (decide (index = p.activeDocumentIndex))
        = syncEditorFromActiveDocument
            { p with openDocuments := p.openDocuments.set index.toNat new } := by
      unfold CodeEditorPane.replaceDocument
      simp [hindex]
    rw [heq]
    exact coherent_sync (distinct_set h.distinct hget htab) (h.inRange.set hget)
  · rw [decide_eq_false hindex]
    exact h.replaceDocument hold htab (fun hin => absurd hin hindex)

/-- A read has come. -/
theorem Coherent.afterLoaded (h : Coherent p) (index : Int) (path : QString) (wasActive : Bool) :
    Coherent (p.afterLoaded index path wasActive) := by
  have hpending : Coherent
      (if p.pendingOpenPath = path then { p with pendingOpenPath := [] } else p) := by
    split
    · exact h.congr rfl
    · exact h
  unfold CodeEditorPane.afterLoaded
  dsimp only
  split
  · exact hpending.activateDocument index false
  · split
    · exact hpending.activateDocument index false
    · exact hpending.activateActivePath

/-- Without an active document the loaded one becomes active. -/
theorem coherent_afterLoaded_first {index : Int} (path : QString) (wasActive : Bool)
    (hdistinct : Distinct (p.openDocuments.map Document.tab) p.nextTab)
    (hnone : p.activeDocumentIndex < 0) (hrange : 0 ≤ index ∧ index < p.openDocuments.length) :
    Coherent (p.afterLoaded index path wasActive) := by
  unfold CodeEditorPane.afterLoaded
  dsimp only
  rw [if_pos (Or.inr hnone)]
  split
  · exact coherent_activateDocument (p := { p with pendingOpenPath := [] }) false hdistinct hrange
  · exact coherent_activateDocument false hdistinct hrange

/-- A read has come, for a tab or none. -/
theorem Coherent.upsertLoadedDocument (h : Coherent p) (path text : QString) :
    Coherent (p.upsertLoadedDocument path text) := by
  unfold CodeEditorPane.upsertLoadedDocument
  split
  · exact Coherent.activateActivePath (h.congr rfl)
  · dsimp only
    cases hold : p.documentAt? (findDocumentIndex p.openDocuments path) with
    | some old =>
      apply Coherent.afterLoaded
      unfold placeLoaded
      rw [hold]
      exact h.replaceLoaded hold rfl
    | none =>
      have hmissing : ¬ findDocumentIndex p.openDocuments path ≥ 0 := by
        intro hpos
        obtain ⟨doc, hdoc⟩ := findDocumentIndex_nonneg hpos
        rw [p.documentAt?_eq_some.mpr ⟨hpos, hdoc⟩] at hold
        cases hold
      unfold placeLoaded
      rw [hold, if_neg hmissing]
      dsimp only
      have hdistinct : Distinct ((p.openDocuments
          ++ [makeDocument p.nextTab path text false false]).map Document.tab) (p.nextTab + 1) :=
        h.distinct_push rfl
      have hlength : ((p.openDocuments ++ [makeDocument p.nextTab path text false false]).length : Int)
          = p.openDocuments.length + 1 := by
        rw [List.length_append, List.length_singleton]
        omega
      -- the first document of all becomes active, any other stands behind the active one
      obtain ⟨hnone, _⟩ | ⟨hpos, hlt⟩ := h.inRange
      · refine coherent_afterLoaded_first path _ hdistinct ?_ ?_
        · show p.activeDocumentIndex < 0
          omega
        · dsimp only
          omega
      · apply Coherent.afterLoaded
        refine ⟨hdistinct, Or.inr ⟨hpos, ?_⟩, h.shows_push rfl rfl rfl⟩
        dsimp only
        omega

/-- A read has failed. -/
theorem Coherent.handleOpenFailed (h : Coherent p) (path : QString) :
    Coherent (p.handleOpenFailed path) := by
  unfold CodeEditorPane.handleOpenFailed
  split
  · exact h.congr rfl
  · dsimp only
    split
    · exact h
    · next hindex =>
      obtain ⟨old, hold⟩ := findDocumentIndex_nonneg (Int.not_lt.mp hindex)
      have hat := p.documentAt?_eq_some.mpr ⟨Int.not_lt.mp hindex, hold⟩
      split
      · split
        · exact coherent_closeEditor ‹_›
        · exact h.afterSplice hat rfl ‹_› rfl rfl rfl
      · split
        · exact coherent_closeEditor ‹_›
        · exact h.afterSplice hat rfl ‹_› rfl rfl rfl

/-- What stays after a removal keeps its tab. -/
theorem afterRemoval_tab {path : QString} {recursive : Bool} {doc kept : Document}
    (h : afterRemoval path recursive doc = some kept) : kept.tab = doc.tab := by
  unfold afterRemoval at h
  split at h
  · rw [← Option.some.inj h]
  · split at h
    · rw [← Option.some.inj h]
    · cases h

/-- A path was removed. -/
theorem Coherent.handlePathRemoved (h : Coherent p) (path : QString) (recursive : Bool) :
    Coherent (p.handlePathRemoved path recursive) := by
  unfold CodeEditorPane.handlePathRemoved
  have hp := h.persistActiveText
  generalize p.persistActiveText = q at hp ⊢
  dsimp only
  have hdistinct : Distinct
      ((q.openDocuments.filterMap (afterRemoval path recursive)).map Document.tab) q.nextTab :=
    hp.distinct.sublist (map_key_filterMap_sublist (fun _ _ => afterRemoval_tab) _)
  split
  · exact coherent_closeEditor ‹_›
  · next hne =>
    split
    · next doc hdoc =>
      obtain ⟨hpos, hget⟩ := (documentAt?_eq_some _).mp hdoc
      have hlt := (List.getElem?_eq_some_iff.mp hget).1
      refine (coherent_sync (p := setActiveDocumentIndex _ _) ?_ ?_).congr rfl
      · rwa [openDocuments_setActiveDocumentIndex, nextTab_setActiveDocumentIndex]
      · right
        rw [openDocuments_setActiveDocumentIndex, activeDocumentIndex_setActiveDocumentIndex]
        omega
    -- the active document is gone: the one in its place, or the last one, becomes active
    · refine coherent_activateDocument false hdistinct ?_
      have hlong := List.length_pos_iff.mpr hne
      dsimp only at hlong ⊢
      obtain ⟨_, hnil⟩ | hrange := hp.inRange
      · rw [hnil] at hne
        exact absurd rfl hne
      · omega

/-- A move keeps the tab. -/
theorem afterMove_tab (fromPath toPath : QString) (doc : Document) :
    (afterMove fromPath toPath doc).tab = doc.tab := by
  unfold afterMove
  split <;> rfl

/-- A path was moved. -/
theorem Coherent.handlePathMoved (h : Coherent p) (fromPath toPath : QString) :
    Coherent (p.handlePathMoved fromPath toPath) := by
  unfold CodeEditorPane.handlePathMoved
  have hp := h.persistActiveText
  generalize p.persistActiveText = q at hp ⊢
  dsimp only
  split
  -- every document may have changed its path, and none its tab
  · apply Coherent.activateActivePath
    apply coherent_sync
    · show Distinct ((q.openDocuments.map (afterMove fromPath toPath)).map Document.tab) q.nextTab
      rw [List.map_map, show Document.tab ∘ afterMove fromPath toPath = Document.tab from
        funext (afterMove_tab fromPath toPath)]
      exact hp.distinct
    · obtain ⟨hindex, hnil⟩ | hrange := hp.inRange
      · left
        exact ⟨hindex, by rw [hnil, List.map_nil]⟩
      · right
        show _ ∧ _ < ((q.openDocuments.map (afterMove fromPath toPath)).length : Int)
        rwa [List.length_map]
  · exact hp

/-- Ignoring a read changes no tab. -/
theorem forgetOpening_frame (p : CodeEditorPane) (doc : Document) :
    (p.forgetOpening doc).openDocuments = p.openDocuments
      ∧ (p.forgetOpening doc).activeDocumentIndex = p.activeDocumentIndex
      ∧ (p.forgetOpening doc).editorText = p.editorText
      ∧ (p.forgetOpening doc).nextTab = p.nextTab := by
  unfold forgetOpening CodeEditorPane.ignoreOpenPath
  dsimp only
  split <;> split <;> first | exact ⟨rfl, rfl, rfl, rfl⟩ | split <;> exact ⟨rfl, rfl, rfl, rfl⟩

/-- A tab is closed. -/
theorem Coherent.closeDocument (h : Coherent p) (index : Int) :
    Coherent (p.closeDocument index) := by
  unfold CodeEditorPane.closeDocument
  split
  · exact h
  · next old hold =>
    obtain ⟨hdocs, hindex, htext, hnext⟩ := forgetOpening_frame p old
    dsimp only
    split
    · exact (coherent_closeEditor ‹_›).congr rfl
    · refine h.afterSplice hold ?_ ‹_› hindex htext hnext
      show (p.forgetOpening old).openDocuments.eraseIdx index.toNat = _
      rw [hdocs]

/-- A tab is to be closed. -/
theorem Coherent.requestCloseDocument (h : Coherent p) (index : Int) :
    Coherent (p.requestCloseDocument index) := by
  unfold CodeEditorPane.requestCloseDocument
  split
  · exact h
  · split
    · exact h.congr rfl
    · exact h.closeDocument index

/-- A save keeps the tab. -/
@[simp] theorem savedDocument_tab (p : CodeEditorPane) (index : Int) (modified : Bool)
    (doc : Document) : (p.savedDocument index modified doc).tab = doc.tab := by
  unfold savedDocument
  dsimp only
  split <;> rfl

/-- A save has ended. -/
theorem Coherent.finishSave (h : Coherent p) (path : QString) (modified : Bool) :
    Coherent (p.finishSave path modified) := by
  unfold CodeEditorPane.finishSave
  dsimp only
  split
  · exact h
  · next doc hdoc =>
    -- the active document takes the text that the text area shows
    have hreplaced := h.replaceDocument hdoc (p.savedDocument_tab _ modified doc) (by
      intro hindex
      unfold savedDocument
      rw [if_pos hindex]
      rfl)
    split
    · exact hreplaced.congr rfl
    · exact hreplaced

/-- The text area is written into the active document, whatever it shows. -/
theorem coherent_setActiveModified
    (hdistinct : Distinct (p.openDocuments.map Document.tab) p.nextTab) (hrange : p.InRange)
    (value : Bool) : Coherent (p.setActiveModified value) := by
  unfold setActiveModified
  split
  · next hnone =>
    refine ⟨hdistinct, hrange, ?_⟩
    intro doc hdoc
    have hactive : p.activeDocument? = some doc := hdoc
    rw [hnone] at hactive
    cases hactive
  · next doc hdoc =>
    have hreplaced : Coherent (p.replaceDocument p.activeDocumentIndex
        { p.withEditor doc with modified := value, loading := false } false) :=
      coherent_replaceActive hdistinct hrange hdoc rfl rfl
    exact hreplaced.congr rfl

/-- The user types. -/
theorem Coherent.edit (h : Coherent p) (text : QString) (cursor : Nat) :
    Coherent (p.edit text cursor) :=
  coherent_setActiveModified (p := { p with editorText := text, editorCursor := cursor })
    h.distinct h.inRange true

/-- **The invariant.**  Whatever happens, the text area shows the active document. -/
theorem coherent_step {q : CodeEditorPane} {l : Label} (h : Coherent p)
    (hstep : p.step l = some q) : Coherent q := by
  cases l with
  | signal signal =>
    obtain rfl := Option.some.inj hstep
    have hp : Coherent (p.answered signal) := h.congr rfl
    cases signal with
    | changed isOpen busy => exact hp.onChanged isOpen busy
    | contentLoaded path text => exact hp.upsertLoadedDocument path text
    | pathClosed path => exact hp.handlePathRemoved path false
    | pathRemoved path recursive => exact hp.handlePathRemoved path recursive
    | pathMoved fromPath toPath => exact hp.handlePathMoved fromPath toPath
    | openFailed path message => exact hp.handleOpenFailed path
    | saveSucceeded path => exact hp.finishSave path false
    | saveFailed path message => exact hp.finishSave path true
  | requestOpen fileAvailable path size =>
    obtain rfl := Option.some.inj hstep
    exact h.requestOpen fileAvailable path size
  | setActive index =>
    obtain rfl := Option.some.inj hstep
    exact h.setActiveDocument index
  | requestClose index =>
    obtain rfl := Option.some.inj hstep
    exact h.requestCloseDocument index
  | acceptClose =>
    obtain ⟨_, hq⟩ := Option.ite_none_right_eq_some.mp hstep
    obtain rfl := Option.some.inj hq
    exact (h.closeDocument p.closeFileDialog.index).congr rfl
  | rejectClose =>
    obtain ⟨_, hq⟩ := Option.ite_none_right_eq_some.mp hstep
    obtain rfl := Option.some.inj hq
    exact h.congr rfl
  | edit text cursor =>
    obtain ⟨_, hq⟩ := Option.ite_none_right_eq_some.mp hstep
    obtain rfl := Option.some.inj hq
    exact h.edit text cursor
  | moveCursor cursor =>
    obtain rfl := Option.some.inj hstep
    exact h.congr rfl
  | save connected fileAvailable =>
    obtain rfl := Option.some.inj hstep
    exact h.saveCurrent connected fileAvailable

end CodeEditorPane

end ResearchSSH.App
