/-
  ResearchSSH.App.PaneMarks — what the signals make of the marks of the open documents.

  A document that waits for a result is found again by its path, and the first one that has the
  path is taken for it.

  Main results:
    * `faded_onSignal` — news other than a loaded text and a move only take marks away.
    * `mem_marks_upsert`, `marks_handlePathMoved` — a loaded text, and a move.
    * `loading_after_upsert`, `foundTab_after_openFailed`, `foundTab_after_finishSave` — a result
      clears the mark of the document that is found by its path, and of no other.
-/

import Mathlib.Data.List.InsertIdx
import ResearchSSH.App.PaneFrame

namespace ResearchSSH.App

open ResearchSSH.Library

/-! ## §1. Fading. -/

/-- From `m` to `m'` nothing waits that did not, and no file was found again. -/
structure Mark.Fades (m m' : Mark) : Prop where
  tab : m'.tab = m.tab
  path : m'.path = m.path
  loading : m'.loading = true → m.loading = true
  saving : m'.saving = true → m.saving = true
  missing : m'.loading = false → m'.remoteMissing = false →
    m.loading = false ∧ m.remoteMissing = false

theorem Mark.Fades.refl (m : Mark) : m.Fades m := ⟨rfl, rfl, id, id, fun h h' => ⟨h, h'⟩⟩

/-- A move changes the path only. -/
theorem Mark.moved_keeps (m : Mark) (fromPath toPath : QString) :
    (m.moved fromPath toPath).tab = m.tab ∧ (m.moved fromPath toPath).loading = m.loading
      ∧ (m.moved fromPath toPath).saving = m.saving := by
  unfold Mark.moved
  split <;> exact ⟨rfl, rfl, rfl⟩

/-- Every mark comes from one of before. -/
def Faded (before after : List Mark) : Prop := ∀ m' ∈ after, ∃ m ∈ before, m.Fades m'

section
variable {marks : List Mark} {i : Nat} {m m' : Mark}

/-- Marks that are taken out only. -/
theorem faded_of_subset {after : List Mark} (h : after ⊆ marks) : Faded marks after :=
  fun m hm => ⟨m, h hm, .refl m⟩

/-- One mark is replaced by what it fades to. -/
theorem faded_set (hget : marks[i]? = some m) (h : m.Fades m') : Faded marks (marks.set i m') := by
  intro a ha
  obtain ha | rfl := List.mem_or_eq_of_mem_set ha
  · exact ⟨a, ha, .refl a⟩
  · exact ⟨m, List.mem_of_getElem? hget, h⟩

end

namespace CodeEditorPane

variable {p q : CodeEditorPane}

/-! ## §2. Documents found by their paths. -/

/-- The tab of the document that is found by a path. -/
def foundTab (p : CodeEditorPane) (path : QString) : Option Nat :=
  (p.documentAt? (findDocumentIndex p.openDocuments path)).map Document.tab

/-- The tab that a loaded text is put into. -/
def loadedTab (p : CodeEditorPane) (path : QString) : Nat := (p.foundTab path).getD p.nextTab

/-- What is found is found by the marks. -/
theorem foundTab_eq (p : CodeEditorPane) (path : QString) :
    p.foundTab path = (p.marks.find? fun m => m.path == path).map Mark.tab := by
  unfold foundTab CodeEditorPane.marks
  rw [List.find?_map, Option.map_map]
  show _ = Option.map Document.tab (p.openDocuments.find? fun doc => doc.path == path)
  congr 1
  unfold findDocumentIndex
  rw [List.find?_eq_bind_findIdx?_getElem?]
  cases p.openDocuments.findIdx? fun doc => doc.path == path with
  | none => rfl
  | some i =>
    show p.documentAt? (i : Int) = p.openDocuments[i]?
    unfold documentAt?
    rw [if_neg (by omega), Int.toNat_natCast]

/-- The tab on a path. -/
theorem foundTab_of_get {path : QString} {i : Nat} {old : Document}
    (hget : p.openDocuments[i]? = some old) (hfound : findDocumentIndex p.openDocuments path = i) :
    p.foundTab path = some old.tab := by
  unfold foundTab
  rw [hfound, p.documentAt?_eq_some.mpr ⟨Int.natCast_nonneg i, hget⟩]
  rfl

/-- No tab is on the path. -/
theorem foundTab_of_none {path : QString} (h : ∀ doc ∈ p.openDocuments, doc.path ≠ path) :
    p.foundTab path = none := by
  rw [foundTab_eq, List.find?_eq_none.mpr]
  · rfl
  · intro m hm
    obtain ⟨doc, hdoc, rfl⟩ := List.mem_map.mp hm
    simpa [Document.mark] using h doc hdoc

/-- The marks after a record is replaced. -/
theorem marks_set (p : CodeEditorPane) (i : Nat) (new : Document) :
    CodeEditorPane.marks { p with openDocuments := p.openDocuments.set i new }
      = p.marks.set i new.mark :=
  List.map_set

/-- The marks after a tab is taken out. -/
theorem marks_eraseIdx (p : CodeEditorPane) (i : Nat) :
    CodeEditorPane.marks { p with openDocuments := p.openDocuments.eraseIdx i }
      = p.marks.eraseIdx i :=
  (List.eraseIdx_map _ _ _).symm

/-- The mark of a document. -/
theorem getElem?_marks {i : Nat} {doc : Document} (hget : p.openDocuments[i]? = some doc) :
    p.marks[i]? = some doc.mark := by
  unfold CodeEditorPane.marks
  rw [List.getElem?_map, hget]
  rfl

/-- The tabs of the marks are those of the documents. -/
theorem nodup_tabs_marks (h : Coherent p) : (p.marks.map Mark.tab).Nodup := by
  unfold CodeEditorPane.marks
  rw [List.map_map]
  exact h.distinct.1

/-! ## §3. Signals. -/

/-- A loaded text makes a document with no marks in the tab it is put into. -/
theorem mem_marks_upsert (hp : Coherent p) (path text : QString) :
    (path ∈ p.ignoredOpenPaths ∧ (p.upsertLoadedDocument path text).marks = p.marks)
      ∨ (path ∉ p.ignoredOpenPaths ∧ ∀ m' ∈ (p.upsertLoadedDocument path text).marks,
        (m'.tab = p.loadedTab path ∧ m'.path = path ∧ m'.loading = false ∧ m'.saving = false)
          ∨ (m' ∈ p.marks ∧ m'.tab ≠ p.loadedTab path)) := by
  have hignored : ∀ ignored, p.isIgnoredOpenPath path = ignored →
      (path ∈ p.ignoredOpenPaths ↔ ignored = true) := by
    rintro ignored rfl
    exact List.contains_iff_mem.symm
  obtain ⟨hyes, hquiet⟩ | ⟨hno, i, old, hget, hpath, hfound, hquiet⟩ | ⟨hno, hnew, hquiet⟩ :=
    p.upsert_cases path text
  · exact Or.inl ⟨(hignored _ hyes).mpr rfl, hquiet.marks⟩
  · refine Or.inr ⟨fun hmem => absurd ((hignored _ hno).mp hmem) Bool.false_ne_true, ?_⟩
    -- the path is open: its tab is loaded anew, and is the one of its number
    have htab : p.loadedTab path = old.tab := by
      unfold loadedTab
      rw [foundTab_of_get hget hfound]
      rfl
    rw [hquiet.marks, marks_set, htab]
    intro m' hm'
    by_cases hsame : m'.tab = old.tab
    · left
      have hkey : (makeDocument old.tab path text false false).mark.tab = old.mark.tab := rfl
      have hloaded := eq_of_mem_set (nodup_tabs_marks hp) (getElem?_marks hget) hkey hm' hsame
      rw [hloaded]
      exact ⟨rfl, rfl, rfl, rfl⟩
    · right
      refine ⟨(List.mem_or_eq_of_mem_set hm').resolve_right ?_, hsame⟩
      rintro rfl
      exact hsame rfl
  · refine Or.inr ⟨fun hmem => absurd ((hignored _ hno).mp hmem) Bool.false_ne_true, ?_⟩
    -- it is not: the new tab's number is above all others
    have htab : p.loadedTab path = p.nextTab := by
      unfold loadedTab
      rw [foundTab_of_none hnew]
      rfl
    rw [hquiet.marks, htab]
    intro m' hm'
    change m' ∈ (p.openDocuments ++ [_]).map Document.mark at hm'
    rw [List.map_append, List.mem_append, List.map_singleton, List.mem_singleton] at hm'
    obtain hold | rfl := hm'
    · right
      obtain ⟨doc, hdoc, rfl⟩ := List.mem_map.mp hold
      exact ⟨hold, Nat.ne_of_lt (hp.distinct.2 doc.tab (List.mem_map_of_mem hdoc))⟩
    · exact Or.inl ⟨rfl, rfl, rfl, rfl⟩

/-- The marks after a move. -/
theorem marks_handlePathMoved (p : CodeEditorPane) (fromPath toPath : QString) :
    (p.handlePathMoved fromPath toPath).marks = p.marks.map (Mark.moved fromPath toPath) := by
  have hmark : Document.mark ∘ afterMove fromPath toPath
      = Mark.moved fromPath toPath ∘ Document.mark := funext (mark_afterMove fromPath toPath)
  rw [(p.quiet_handlePathMoved fromPath toPath).marks]
  show (p.openDocuments.map _).map Document.mark = (p.openDocuments.map Document.mark).map _
  rw [List.map_map, List.map_map, hmark]

/-- What is left of a document after a removal is as it was, or marked as missing. -/
theorem mark_afterRemoval {path : QString} {recursive : Bool} {doc kept : Document}
    (h : afterRemoval path recursive doc = some kept) :
    (kept.mark = doc.mark ∧ pathMatches doc.path path recursive = false)
      ∨ kept.mark = { doc.mark with remoteMissing := true, saving := false, loading := false } := by
  unfold afterRemoval at h
  split at h
  · next hnot =>
    exact Or.inl ⟨congrArg Document.mark (Option.some.inj h).symm, Bool.eq_false_iff.mpr hnot⟩
  · split at h
    · exact Or.inr (congrArg Document.mark (Option.some.inj h).symm)
    · cases h

/-- The marks after a removal. -/
theorem mem_marks_removed {path : QString} {recursive : Bool} {m' : Mark}
    (h : m' ∈ (p.handlePathRemoved path recursive).marks) :
    ∃ m ∈ p.marks, (m' = m ∧ pathMatches m.path path recursive = false)
      ∨ m' = { m with remoteMissing := true, saving := false, loading := false } := by
  rw [(p.quiet_handlePathRemoved path recursive).marks] at h
  obtain ⟨kept, hkept, rfl⟩ := List.mem_map.mp h
  obtain ⟨doc, hdoc, hremoved⟩ := List.mem_filterMap.mp hkept
  refine ⟨doc.mark, ?_, mark_afterRemoval hremoved⟩
  rw [← (quiet_persistActiveText p).marks]
  exact List.mem_map_of_mem hdoc

/-- When everything is gone, no document waits for a result, and none is found any more. -/
theorem mem_marks_removedAll {m' : Mark} (h : m' ∈ (p.handlePathRemoved [] true).marks) :
    m'.loading = false ∧ m'.saving = false ∧ m'.remoteMissing = true := by
  obtain ⟨m, _, ⟨_, hkept⟩ | rfl⟩ := mem_marks_removed h
  · exact absurd hkept (by simp [pathMatches])
  · exact ⟨rfl, rfl, rfl⟩

/-- A removal takes marks out or marks the file missing. -/
theorem faded_handlePathRemoved (p : CodeEditorPane) (path : QString) (recursive : Bool) :
    Faded p.marks (p.handlePathRemoved path recursive).marks := by
  intro m' hm'
  obtain ⟨m, hm, ⟨rfl, _⟩ | rfl⟩ := mem_marks_removed hm'
  · exact ⟨m', hm, .refl m'⟩
  · exact ⟨m, hm, rfl, rfl, fun h => absurd h Bool.false_ne_true,
      fun h => absurd h Bool.false_ne_true, fun _ h => absurd h Bool.noConfusion⟩

/-- A failed open only takes a document away. -/
theorem marks_handleOpenFailed (p : CodeEditorPane) (path : QString) :
    (p.handleOpenFailed path).marks ⊆ p.marks := by
  obtain ⟨_, hquiet⟩ | ⟨_, i, old, _, _, _, hquiet⟩ | ⟨_, _, hquiet⟩ := p.openFailed_cases path
  · rw [hquiet.marks]
    exact List.Subset.refl _
  · rw [hquiet.marks, marks_eraseIdx]
    exact (List.eraseIdx_sublist _ _).subset
  · rw [hquiet.marks]
    exact List.Subset.refl _

/-- The end of a save takes its mark away. -/
theorem faded_finishSave (p : CodeEditorPane) (path : QString) (modified : Bool) :
    Faded p.marks (p.finishSave path modified).marks := by
  obtain ⟨_, hquiet⟩ | ⟨i, old, new, hget, _, _, hmark, hquiet⟩ := p.finishSave_cases path modified
  · rw [hquiet.marks]
    exact faded_of_subset (List.Subset.refl _)
  · rw [hquiet.marks, marks_set, hmark]
    exact faded_set (getElem?_marks hget)
      ⟨rfl, rfl, id, fun h => absurd h Bool.false_ne_true, fun h h' => ⟨h, h'⟩⟩

/-- Neither a loaded text nor a move. -/
theorem faded_onSignal (p : CodeEditorPane) {signal : EditorSignal}
    (hloaded : ∀ path text, signal ≠ .contentLoaded path text)
    (hmoved : ∀ fromPath toPath, signal ≠ .pathMoved fromPath toPath) :
    Faded p.marks (p.onSignal signal).marks := by
  cases signal with
  | changed isOpen busy =>
    show Faded p.marks (p.onChanged isOpen busy).marks
    rw [(quiet_onChanged p isOpen busy).marks]
    exact faded_of_subset (List.Subset.refl _)
  | contentLoaded path text => exact absurd rfl (hloaded path text)
  | pathClosed path => exact p.faded_handlePathRemoved path false
  | pathRemoved path recursive => exact p.faded_handlePathRemoved path recursive
  | pathMoved fromPath toPath => exact absurd rfl (hmoved fromPath toPath)
  | openFailed path message => exact faded_of_subset (p.marks_handleOpenFailed path)
  | saveSucceeded path => exact p.faded_finishSave path false
  | saveFailed path message => exact p.faded_finishSave path true

/-- No signal has a path ignored that was not. -/
theorem ignored_onSignal (p : CodeEditorPane) (signal : EditorSignal) :
    (p.onSignal signal).ignoredOpenPaths.Sublist p.ignoredOpenPaths := by
  have hsaved : ∀ path modified,
      (p.finishSave path modified).ignoredOpenPaths.Sublist p.ignoredOpenPaths := by
    intro path modified
    obtain ⟨_, hquiet⟩ | ⟨_, _, _, _, _, _, _, hquiet⟩ := p.finishSave_cases path modified
    · rw [hquiet.ignored]
    · rw [hquiet.ignored]
  cases signal with
  | changed isOpen busy =>
    show (p.onChanged isOpen busy).ignoredOpenPaths.Sublist _
    rw [(quiet_onChanged p isOpen busy).ignored]
  | contentLoaded path text =>
    show (p.upsertLoadedDocument path text).ignoredOpenPaths.Sublist _
    obtain ⟨_, hquiet⟩ | ⟨_, _, _, _, _, _, hquiet⟩ | ⟨_, _, hquiet⟩ := p.upsert_cases path text
    · rw [hquiet.ignored]
      exact List.erase_sublist
    · rw [hquiet.ignored]
    · rw [hquiet.ignored]
  | pathClosed path =>
    show (p.handlePathRemoved path false).ignoredOpenPaths.Sublist _
    rw [(p.quiet_handlePathRemoved path false).ignored]
  | pathRemoved path recursive =>
    show (p.handlePathRemoved path recursive).ignoredOpenPaths.Sublist _
    rw [(p.quiet_handlePathRemoved path recursive).ignored]
  | pathMoved fromPath toPath =>
    show (p.handlePathMoved fromPath toPath).ignoredOpenPaths.Sublist _
    rw [(p.quiet_handlePathMoved fromPath toPath).ignored]
  | openFailed path message =>
    show (p.handleOpenFailed path).ignoredOpenPaths.Sublist _
    obtain ⟨_, hquiet⟩ | ⟨_, _, _, _, _, _, hquiet⟩ | ⟨_, _, hquiet⟩ := p.openFailed_cases path
    · rw [hquiet.ignored]
      exact List.erase_sublist
    · rw [hquiet.ignored]
    · rw [hquiet.ignored]
  | saveSucceeded path => exact hsaved path false
  | saveFailed path message => exact hsaved path true

/-- Closing a document has at most its path ignored, and only if it waits for its text. -/
theorem mem_ignoredAfterClose {doc : Document} {path : QString}
    (h : path ∈ p.ignoredAfterClose doc) :
    path ∈ p.ignoredOpenPaths ∨ (doc.loading = true ∧ path = doc.path) := by
  unfold ignoredAfterClose CodeEditorPane.ignoreOpenPath at h
  split at h
  · next hloading =>
    split at h
    · exact Or.inl h
    · exact (List.mem_append.mp h).imp_right fun hlast => ⟨hloading, List.mem_singleton.mp hlast⟩
  · exact Or.inl h

/-- No path is ignored twice. -/
theorem nodup_ignoredAfterClose (h : p.ignoredOpenPaths.Nodup) (doc : Document) :
    (p.ignoredAfterClose doc).Nodup := by
  unfold ignoredAfterClose CodeEditorPane.ignoreOpenPath
  split
  · split
    · exact h
    · next hnew =>
      have hnot : doc.path ∉ p.ignoredOpenPaths :=
        fun hmem => hnew (Or.inr (List.contains_iff_mem.mpr hmem))
      rw [List.nodup_append]
      refine ⟨h, List.nodup_singleton _, ?_⟩
      intro path hpath other hother heq
      rw [List.mem_singleton.mp hother] at heq
      exact hnot (heq ▸ hpath)
  · exact h

/-! ## §4. Results clear the marks of the document that is found. -/

section
variable {path : QString}

/-- The document that is found by the path of a loaded text does not wait for one any more. -/
theorem loading_after_upsert (hp : Coherent p) (text : QString) :
    ∀ m' ∈ (p.upsertLoadedDocument path text).marks, m'.loading = true →
      m' ∈ p.marks ∧ (path ∈ p.ignoredOpenPaths ∨ p.foundTab path ≠ some m'.tab) := by
  intro m' hm' hloading
  obtain ⟨hignored, hmarks⟩ | ⟨_, hmarks⟩ := mem_marks_upsert hp path text
  · rw [hmarks] at hm'
    exact ⟨hm', Or.inl hignored⟩
  · obtain ⟨_, _, hloaded, _⟩ | ⟨hold, hother⟩ := hmarks m' hm'
    · rw [hloaded] at hloading
      exact absurd hloading Bool.false_ne_true
    · refine ⟨hold, Or.inr fun hfound => hother ?_⟩
      unfold loadedTab
      rw [hfound]
      rfl

/-- A read leaves the marks of saves. -/
theorem saving_after_upsert (hp : Coherent p) (text : QString) :
    ∀ m' ∈ (p.upsertLoadedDocument path text).marks, m'.saving = true → m' ∈ p.marks := by
  intro m' hm' hsaving
  obtain ⟨_, hmarks⟩ | ⟨_, hmarks⟩ := mem_marks_upsert hp path text
  · rw [hmarks] at hm'
    exact hm'
  · obtain ⟨_, _, _, hsaved⟩ | ⟨hold, _⟩ := hmarks m' hm'
    · rw [hsaved] at hsaving
      exact absurd hsaving Bool.false_ne_true
    · exact hold

/-- The document that is found by the path of a failed open is gone. -/
theorem foundTab_after_openFailed (hp : Coherent p) :
    ∀ m' ∈ (p.handleOpenFailed path).marks,
      path ∈ p.ignoredOpenPaths ∨ p.foundTab path ≠ some m'.tab := by
  intro m' hm'
  obtain ⟨hignored, _⟩ | ⟨_, i, old, hget, _, hindex, hquiet⟩ | ⟨_, hnew, _⟩ :=
    p.openFailed_cases path
  · exact Or.inl (List.contains_iff_mem.mp hignored)
  · rw [hquiet.marks, marks_eraseIdx] at hm'
    rw [foundTab_of_get hget hindex]
    refine Or.inr fun htab => ?_
    exact key_ne_of_mem_eraseIdx (nodup_tabs_marks hp) (getElem?_marks hget) hm'
      (Option.some.inj htab).symm
  · rw [foundTab_of_none hnew]
    exact Or.inr (Option.some_ne_none _).symm

/-- The document that is found by the path of a finished save is not saving any more. -/
theorem foundTab_after_finishSave (hp : Coherent p) (modified : Bool) :
    ∀ m' ∈ (p.finishSave path modified).marks, m'.saving = true →
      p.foundTab path ≠ some m'.tab := by
  intro m' hm' hsaving htab
  obtain ⟨hnew, _⟩ | ⟨i, old, new, hget, _, hindex, hmark, hquiet⟩ :=
    p.finishSave_cases path modified
  · rw [foundTab_of_none hnew] at htab
    cases htab
  · rw [hquiet.marks, marks_set] at hm'
    rw [foundTab_of_get hget hindex, Option.some.injEq] at htab
    have hkey : new.mark.tab = old.mark.tab := by rw [hmark]
    have hsame := eq_of_mem_set (nodup_tabs_marks hp) (getElem?_marks hget) hkey hm' htab.symm
    rw [hsame, hmark] at hsaving
    exact absurd hsaving Bool.false_ne_true

end

/-- What is found depends on the tabs and the paths alone. -/
theorem foundTab_congr {marks : List Mark} (hq : q.marks = marks)
    (h : marks.map (fun m => (m.path, m.tab)) = p.marks.map fun m => (m.path, m.tab))
    (path : QString) : q.foundTab path = p.foundTab path := by
  have hfound : ∀ marks : List Mark, (marks.find? fun m => m.path == path).map Mark.tab
      = ((marks.map fun m => (m.path, m.tab)).find? fun k => k.1 == path).map Prod.snd := by
    intro marks
    rw [List.find?_map, Option.map_map]
    rfl
  rw [foundTab_eq, foundTab_eq, hq, hfound, hfound, h]

/-- A document at the end of the list is found by a path that no other one has. -/
theorem foundTab_push {marks : List Mark} {m : Mark} (hq : q.marks = marks ++ [m])
    (hnew : ∀ old ∈ marks, old.path ≠ m.path) : q.foundTab m.path = some m.tab := by
  have hnone : marks.find? (fun old => old.path == m.path) = none := by
    rw [List.find?_eq_none]
    intro old hold
    simpa using hnew old hold
  rw [foundTab_eq, hq, List.find?_append, hnone]
  simp

end CodeEditorPane

end ResearchSSH.App
