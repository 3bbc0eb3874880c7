/-
  ResearchSSH.App.WorkspaceMarks — a document that waits has a request that it waits for.

  The pane marks a document as loading or saving when it asks for its file, and the controller
  keeps the request with the path the document had.  The result is given to the first document
  with that path, by which time a rename may have changed the paths.

  Main results:
    * `Accounted` and `Accounted.step` — every mark has its request, and the paths of the documents
      are such that no two documents wait for one text.
    * `marks_awaited` — in an orderly run every mark has a request with the path of its document,
      and every result clears the marks of its path.
    * `renamed_while_loading` — a rename that was asked for before a file is opened.
-/

import ResearchSSH.App.Workspace

namespace ResearchSSH.App

open ResearchSSH.Core ResearchSSH.Library

/-- Some request of this kind and path waits for its result. -/
def Awaited (pending : UInt64 → Option PendingFs) (kind : PendingFsKind) (path : QString) : Prop :=
  ∃ id entry, pending id = some entry ∧ entry.kind = kind ∧ entry.path = path

/-- The next two ids are not those of an open or a save that still waits. -/
def Desk.IdsFree (d : Desk) : Prop :=
  ∀ k ∈ [1, 2], ∀ entry ∈ d.fsPending (d.idAfter k), entry.ofEditor = false

instance (d : Desk) : Decidable d.IdsFree :=
  inferInstanceAs (Decidable (∀ k ∈ [1, 2], ∀ entry ∈ d.fsPending (d.idAfter k), _))

namespace Workspace

open CodeEditorPane AppController

/-! ## §1. Orderly steps. -/

/-- Every mark of a document has a request whose result will clear it. -/
def MarksAwaited (s : Workspace) : Prop :=
  ∀ doc ∈ s.pane.openDocuments,
    (doc.loading = true → Awaited s.controller.fsPending .editorOpen doc.path)
      ∧ (doc.saving = true → Awaited s.controller.fsPending .editorSave doc.path)

/-- The result of an open or a save leaves no document of its path marked. -/
def RepliesClear (s : Workspace) : Label → Prop
  | .deliver => ∀ reply ∈ s.reply?, ∀ t, s.step .deliver = some t →
    ∀ doc ∈ t.pane.openDocuments, doc.path = reply.pending.path →
      (reply.pending.kind = .editorOpen → doc.loading = false)
        ∧ (reply.pending.kind = .editorSave → doc.saving = false)
  | _ => True

/-- A document is begun only while the controller is connected. -/
def OpensConnected (s : Workspace) (path : QString) (size : Nat) : Prop :=
  s.controller.fileAvailable = true → path ≠ [] → size < maxEditorBytes →
    s.pane.foundTab path = none → s.controller.connectionState = .connected

/-- A save that is going to be refused is one of a document that is found by its path. -/
def RefusesFound (s : Workspace) : Prop :=
  s.desk.Refuses → s.controller.connectionState = .connected → s.controller.fileAvailable = true →
    s.pane.modified = true → ∀ doc ∈ s.pane.activeDocument?,
      doc.loading = false → doc.saving = false → doc.remoteMissing = false →
        s.pane.foundTab doc.path = some doc.tab

/-- Documents that wait for the result are found by its path. -/
def AnswersFound (s : Workspace) (reply : Reply) : Prop :=
  ∀ doc ∈ s.pane.openDocuments, doc.path = reply.pending.path →
    (reply.pending.kind = .editorOpen ∧ doc.loading = true)
      ∨ (reply.pending.kind = .editorSave ∧ doc.saving = true) →
    s.pane.foundTab doc.path = some doc.tab

/-- A move changes the path of no document that waits for a result. -/
def MovesPast (s : Workspace) (reply : Reply) : Prop :=
  reply.pending.mutation = .moveLike → reply.result.payload = .ok →
    ∀ doc ∈ s.pane.openDocuments, doc.loading = true ∨ doc.saving = true →
      pathMatches doc.path reply.pending.path true = true →
        movedPath doc.path reply.pending.path reply.pending.destinationPath = doc.path

instance (s : Workspace) (path : QString) (size : Nat) : Decidable (s.OpensConnected path size) :=
  inferInstanceAs (Decidable (_ → _ → _ → _ → _))

instance (s : Workspace) : Decidable s.RefusesFound :=
  inferInstanceAs (Decidable (_ → _ → _ → _ → ∀ doc ∈ s.pane.activeDocument?, _ → _ → _ → _))

instance (s : Workspace) (reply : Reply) : Decidable (s.AnswersFound reply) :=
  inferInstanceAs (Decidable (∀ doc ∈ s.pane.openDocuments, _ → (_ ∧ _) ∨ (_ ∧ _) → _))

instance (s : Workspace) (reply : Reply) : Decidable (s.MovesPast reply) :=
  inferInstanceAs (Decidable (_ → _ → ∀ doc ∈ s.pane.openDocuments, _ → _ → _))

/-- No step loses the request of a document that waits, or the document of a request. -/
def Orderly (s : Workspace) (l : Label) : Prop :=
  s.desk.IdsFree ∧
    match l with
    | .pane (.requestOpen _ path size) => s.OpensConnected path size
    | .pane (.save _ _) => s.RefusesFound
    | .deliver => ∀ reply ∈ s.reply?, s.AnswersFound reply ∧ s.MovesPast reply
    | _ => True

instance (s : Workspace) (l : Label) : Decidable (s.Orderly l) :=
  match l with
  | .pane (.requestOpen _ path size) =>
    inferInstanceAs (Decidable (s.desk.IdsFree ∧ s.OpensConnected path size))
  | .pane (.save _ _) => inferInstanceAs (Decidable (s.desk.IdsFree ∧ s.RefusesFound))
  | .deliver =>
    inferInstanceAs (Decidable (s.desk.IdsFree ∧
      ∀ reply ∈ s.reply?, s.AnswersFound reply ∧ s.MovesPast reply))
  | .pane (.signal _) | .pane (.setActive _) | .pane (.requestClose _) | .pane .acceptClose
  | .pane .rejectClose | .pane (.edit _ _) | .pane (.moveCursor _) | .user _ | .calls _
  | .driverStops => inferInstanceAs (Decidable (s.desk.IdsFree ∧ True))

/-! ## §2. Requests that still wait. -/

section
variable {a b : Desk} {kind : PendingFsKind} {path : QString} {pending : UInt64 → Option PendingFs}

/-- The kinds of requests that mark a document. -/
def MarksKind (kind : PendingFsKind) : Prop := kind = .editorOpen ∨ kind = .editorSave

/-- Marks are those of the editor's requests. -/
theorem ofEditor_of_marksKind {entry : PendingFs} (h : MarksKind entry.kind) :
    entry.ofEditor = true := by
  unfold PendingFs.ofEditor
  obtain h | h := h
  · rw [h]
    rfl
  · rw [h]
    rfl

/-- Requests of others take no id of a request that marks a document. -/
theorem awaited_asks (h : Awaited a.fsPending kind path) (hkind : MarksKind kind)
    (hasks : Desk.Asks 2 a b) (hfree : a.IdsFree) : Awaited b.fsPending kind path := by
  obtain ⟨id, entry, hentry, rfl, hpath⟩ := h
  refine ⟨id, entry, ?_, rfl, hpath⟩
  obtain hsame | ⟨k, _, hpos, hle, rfl, _⟩ := hasks.pending id
  · rw [hsame, hentry]
  · have hk : k ∈ [1, 2] := by
      obtain rfl | rfl : k = 1 ∨ k = 2 := by omega
      · exact List.mem_cons_self
      · exact List.mem_cons_of_mem _ List.mem_cons_self
    have hother := hfree k hk entry hentry
    rw [ofEditor_of_marksKind hkind] at hother
    exact absurd hother.symm Bool.false_ne_true

/-- An entry under a free id displaces none. -/
theorem awaited_put (h : Awaited a.fsPending kind path) (hkind : MarksKind kind)
    (hfree : a.IdsFree) (entry : PendingFs) :
    Awaited (Function.update a.fsPending (a.idAfter 1) (some entry)) kind path := by
  obtain ⟨id, other, hother, rfl, hpath⟩ := h
  refine ⟨id, other, ?_, rfl, hpath⟩
  rw [Function.update_of_ne, hother]
  rintro rfl
  have hnot := hfree 1 List.mem_cons_self other hother
  rw [ofEditor_of_marksKind hkind] at hnot
  exact absurd hnot.symm Bool.false_ne_true

/-- The request that is answered may be the only one of its kind and path. -/
theorem awaited_taken (h : Awaited pending kind path) {id : UInt64} {answered : PendingFs}
    (hanswered : pending id = some answered)
    (hother : answered.kind = kind → answered.path ≠ path) :
    Awaited (Function.update pending id none) kind path := by
  obtain ⟨id', entry, hentry, rfl, rfl⟩ := h
  refine ⟨id', entry, ?_, rfl, rfl⟩
  rw [Function.update_of_ne, hentry]
  rintro rfl
  obtain rfl := Option.some.inj (hanswered.symm.trans hentry)
  exact hother rfl rfl

/-- An entry less leaves the ids free. -/
theorem idsFree_taken (h : a.IdsFree) (id : UInt64) :
    Desk.IdsFree { a with fsPending := Function.update a.fsPending id none } := by
  intro k hk entry hentry
  change Function.update a.fsPending id none (a.idAfter k) = some entry at hentry
  by_cases hsame : a.idAfter k = id
  · rw [hsame, Function.update_self] at hentry
    cases hentry
  · rw [Function.update_of_ne hsame] at hentry
    exact h k hk entry hentry

end

/-! ## §3. Documents that wait. -/

/-- Every mark of a tab belongs to a request that is waited for. -/
def AwaitedMarks (pending : UInt64 → Option PendingFs) (marks : List Mark) : Prop :=
  ∀ m ∈ marks, (m.loading = true → Awaited pending .editorOpen m.path)
    ∧ (m.saving = true → Awaited pending .editorSave m.path)

/-- The paths of documents, of those that wait for their texts, and the paths to ignore. -/
structure Tidy (marks : List Mark) (ignored : List QString) : Prop where
  named : ∀ m ∈ marks, m.path ≠ []
  once : ignored.Nodup
  wanted : ∀ m ∈ marks, m.loading = true → m.path ∉ ignored
  single : ∀ m ∈ marks, ∀ m' ∈ marks, m.loading = true → m'.loading = true →
    m.path = m'.path → m.tab = m'.tab

section
variable {marks after : List Mark} {ignored ignored' : List QString} {path : QString}

/-- Every document is one of before, and waits only if that one did. -/
theorem Tidy.of_former (h : Tidy marks ignored) (hsub : ignored'.Sublist ignored)
    (hnamed : ∀ m' ∈ after, m'.path ≠ [])
    (hloading : ∀ m' ∈ after, m'.loading = true →
      ∃ m ∈ marks, m.loading = true ∧ m'.tab = m.tab ∧ m'.path = m.path) : Tidy after ignored' where
  named := hnamed
  once := h.once.sublist hsub
  wanted := by
    intro m' hm' hload hignored
    obtain ⟨m, hm, hwas, _, hpath⟩ := hloading m' hm' hload
    exact h.wanted m hm hwas (hpath ▸ hsub.subset hignored)
  single := by
    intro a ha b hb haload hbload hsame
    obtain ⟨m, hm, hmload, hmtab, hmpath⟩ := hloading a ha haload
    obtain ⟨m', hm', hmload', hmtab', hmpath'⟩ := hloading b hb hbload
    rw [hmtab, hmtab']
    exact h.single m hm m' hm' hmload hmload' (hmpath.symm.trans (hsame.trans hmpath'))

/-- Marks that fade keep it. -/
theorem Tidy.faded (h : Tidy marks ignored) (hsub : ignored'.Sublist ignored)
    (hfaded : Faded marks after) : Tidy after ignored' := by
  apply h.of_former hsub
  · intro m' hm'
    obtain ⟨m, hm, hfades⟩ := hfaded m' hm'
    rw [hfades.path]
    exact h.named m hm
  · intro m' hm' hload
    obtain ⟨m, hm, hfades⟩ := hfaded m' hm'
    exact ⟨m, hm, hfades.loading hload, hfades.tab, hfades.path⟩

/-- A document is begun for a path that no other one has. -/
theorem Tidy.push (h : Tidy marks ignored) {m : Mark} (hpath : m.path ≠ [])
    (hnew : ∀ old ∈ marks, old.path ≠ m.path) :
    Tidy (marks ++ [m]) (ignored.erase m.path) where
  named := by
    intro m' hm'
    obtain hold | hlast := List.mem_append.mp hm'
    · exact h.named m' hold
    · rw [List.mem_singleton.mp hlast]
      exact hpath
  once := h.once.erase _
  wanted := by
    intro m' hm' hload
    obtain hold | hlast := List.mem_append.mp hm'
    · exact fun hmem => h.wanted m' hold hload (List.mem_of_mem_erase hmem)
    · rw [List.mem_singleton.mp hlast]
      exact h.once.not_mem_erase
  single := by
    intro a ha b hb haload hbload hsame
    obtain ha | hlasta := List.mem_append.mp ha
    · obtain hb | hlastb := List.mem_append.mp hb
      · exact h.single a ha b hb haload hbload hsame
      · rw [List.mem_singleton.mp hlastb] at hsame
        exact absurd hsame (hnew a ha)
    · rw [List.mem_singleton.mp hlasta] at hsame ⊢
      obtain hb | hlastb := List.mem_append.mp hb
      · exact absurd hsame.symm (hnew b hb)
      · rw [List.mem_singleton.mp hlastb]

/-- A document is closed; its path is ignored from now on only if it waited for its text. -/
theorem Tidy.close {p : CodeEditorPane} (hp : Coherent p) (h : Tidy p.marks p.ignoredOpenPaths)
    {i : Nat} {old : Document} (hget : p.openDocuments[i]? = some old) :
    Tidy (p.marks.eraseIdx i) (p.ignoredAfterClose old) where
  named := fun m hm => h.named m (List.mem_of_mem_eraseIdx hm)
  once := nodup_ignoredAfterClose h.once old
  wanted := by
    intro m hm hload hignored
    have hmem := List.mem_of_mem_eraseIdx hm
    obtain hignored | ⟨hloading, hpath⟩ := mem_ignoredAfterClose hignored
    · exact h.wanted m hmem hload hignored
    · -- only one document waits for a text of this path
      have htab := h.single m hmem old.mark (List.mem_of_getElem? (getElem?_marks hget)) hload
        hloading hpath
      exact key_ne_of_mem_eraseIdx (nodup_tabs_marks hp) (getElem?_marks hget) hm htab
  single := fun m hm m' hm' =>
    h.single m (List.mem_of_mem_eraseIdx hm) m' (List.mem_of_mem_eraseIdx hm')

/-- A read keeps it. -/
theorem Tidy.loaded {p : CodeEditorPane} (hp : Coherent p) (h : Tidy p.marks p.ignoredOpenPaths)
    (hpath : path ≠ []) (text : QString) :
    Tidy (p.upsertLoadedDocument path text).marks
      (p.upsertLoadedDocument path text).ignoredOpenPaths := by
  apply h.of_former (p.ignored_onSignal (.contentLoaded path text))
  · intro m' hm'
    obtain ⟨_, hmarks⟩ | ⟨_, hmarks⟩ := mem_marks_upsert hp path text
    · rw [hmarks] at hm'
      exact h.named m' hm'
    · obtain ⟨_, hloaded, _⟩ | ⟨hold, _⟩ := hmarks m' hm'
      · rw [hloaded]
        exact hpath
      · exact h.named m' hold
  · intro m' hm' hload
    exact ⟨m', (loading_after_upsert hp text m' hm' hload).1, hload, rfl, rfl⟩

/-- What a move makes of a document that waits, if it passes it by. -/
theorem Tidy.moved (h : Tidy marks ignored) {fromPath toPath : QString} (hto : toPath ≠ [])
    (hpast : ∀ m ∈ marks, m.loading = true ∨ m.saving = true →
      (m.moved fromPath toPath).path = m.path) :
    Tidy (marks.map (Mark.moved fromPath toPath)) ignored := by
  apply h.of_former (List.Sublist.refl _)
  · intro m' hm'
    obtain ⟨m, hm, rfl⟩ := List.mem_map.mp hm'
    unfold Mark.moved
    split
    · show movedPath m.path fromPath toPath ≠ []
      unfold movedPath
      split
      · exact hto
      · split
        · exact fun hnil => hto (List.append_eq_nil_iff.mp hnil).1
        · exact h.named m hm
    · exact h.named m hm
  · intro m' hm' hload
    obtain ⟨m, hm, rfl⟩ := List.mem_map.mp hm'
    obtain ⟨htab, hloading, _⟩ := m.moved_keeps fromPath toPath
    rw [hloading] at hload
    exact ⟨m, hm, hload, htab, hpast m hm (Or.inl hload)⟩

end

section
variable {s t : Workspace} {marks after : List Mark} {pending pending' : UInt64 → Option PendingFs}

/-- Marks that fade are waited for still. -/
theorem AwaitedMarks.faded (h : AwaitedMarks pending marks) (hfaded : Faded marks after) :
    AwaitedMarks pending after := by
  intro m' hm'
  obtain ⟨m, hm, hfades⟩ := hfaded m' hm'
  rw [hfades.path]
  exact ⟨fun hload => (h m hm).1 (hfades.loading hload),
    fun hsave => (h m hm).2 (hfades.saving hsave)⟩

/-- The requests that mark documents are still there. -/
theorem AwaitedMarks.keep (h : AwaitedMarks pending marks)
    (hkeep : ∀ kind path, MarksKind kind → Awaited pending kind path → Awaited pending' kind path) :
    AwaitedMarks pending' marks := by
  intro m hm
  exact ⟨fun hload => hkeep _ _ (Or.inl rfl) ((h m hm).1 hload),
    fun hsave => hkeep _ _ (Or.inr rfl) ((h m hm).2 hsave)⟩

/-- News that only takes marks away. -/
theorem Tidy.heard {p : CodeEditorPane} {origins : Nat → Option Nat} {sender : Option Nat}
    {signal : EditorSignal} (h : Tidy p.marks p.ignoredOpenPaths)
    (hheard : t.HasHeard p origins sender signal)
    (hloaded : ∀ path text, signal ≠ .contentLoaded path text)
    (hmoved : ∀ fromPath toPath, signal ≠ .pathMoved fromPath toPath) :
    Tidy t.pane.marks t.pane.ignoredOpenPaths := by
  obtain ⟨p', halike, _, hafter, _⟩ := hheard
  rw [hafter.marks, hafter.ignored]
  rw [← halike.marks, ← halike.ignored] at h
  exact h.faded (p'.ignored_onSignal signal) (p'.faded_onSignal hloaded hmoved)

/-- The paths of the documents, and the requests for them. -/
structure Accounted (s : Workspace) : Prop where
  tidy : Tidy s.pane.marks s.pane.ignoredOpenPaths
  awaited : AwaitedMarks s.controller.fsPending s.pane.marks

/-! ## §4. Results. -/

/-- After the result of a request every document that waits has waited before, and not for it. -/
structure Answered (s t : Workspace) (reply : Reply) : Prop where
  loading : ∀ m' ∈ t.pane.marks, m'.loading = true →
    (∃ m ∈ s.pane.marks, m.loading = true ∧ m'.path = m.path)
      ∧ (reply.pending.kind = .editorOpen → reply.pending.path ≠ m'.path)
  saving : ∀ m' ∈ t.pane.marks, m'.saving = true →
    (∃ m ∈ s.pane.marks, m.saving = true ∧ m'.path = m.path)
      ∧ (reply.pending.kind = .editorSave → reply.pending.path ≠ m'.path)

/-- A result that only takes marks away, among them those that it is for. -/
theorem answered_of_faded {reply : Reply} (h : Faded s.pane.marks t.pane.marks)
    (hopen : reply.pending.kind = .editorOpen →
      ∀ m' ∈ t.pane.marks, m'.loading = true → reply.pending.path ≠ m'.path)
    (hsave : reply.pending.kind = .editorSave →
      ∀ m' ∈ t.pane.marks, m'.saving = true → reply.pending.path ≠ m'.path) :
    Answered s t reply where
  loading := by
    intro m' hm' hload
    obtain ⟨m, hm, hfades⟩ := h m' hm'
    exact ⟨⟨m, hm, hfades.loading hload, hfades.path⟩, fun hkind => hopen hkind m' hm' hload⟩
  saving := by
    intro m' hm' hsaving
    obtain ⟨m, hm, hfades⟩ := h m' hm'
    exact ⟨⟨m, hm, hfades.saving hsaving, hfades.path⟩, fun hkind => hsave hkind m' hm' hsaving⟩

/-- Documents that wait for the result are found by its path, also when the pane hears of it. -/
theorem AnswersFound.alike {reply : Reply} {p : CodeEditorPane} (h : s.AnswersFound reply)
    (halike : Alike s.pane p) {m : Mark} (hm : m ∈ p.marks)
    (hpath : reply.pending.path = m.path)
    (hmark : (reply.pending.kind = .editorOpen ∧ m.loading = true)
      ∨ (reply.pending.kind = .editorSave ∧ m.saving = true)) :
    p.foundTab reply.pending.path = some m.tab := by
  rw [halike.marks] at hm
  obtain ⟨doc, hdoc, rfl⟩ := List.mem_map.mp hm
  rw [foundTab_congr halike.marks rfl, hpath]
  exact h doc hdoc hpath.symm hmark

/-- A move that passes by leaves the paths that documents wait with. -/
theorem MovesPast.moved {reply : Reply} (h : s.MovesPast reply)
    (hmutation : reply.pending.mutation = .moveLike) (hpayload : reply.result.payload = .ok) :
    ∀ m ∈ s.pane.marks, m.loading = true ∨ m.saving = true →
      (m.moved reply.pending.path reply.pending.destinationPath).path = m.path := by
  intro m hm hwaits
  obtain ⟨doc, hdoc, rfl⟩ := List.mem_map.mp hm
  unfold Mark.moved
  split
  · next hmatch => exact h hmutation hpayload doc hdoc hwaits hmatch
  · rfl

/-- A text is loaded into the document that waits for it. -/
theorem Accounted.contentLoaded (h : Accounted s) {reply : Reply} {text : QString}
    (hfound : s.AnswersFound reply) (hkind : reply.pending.kind = .editorOpen)
    (hheard : t.HasHeard s.pane s.origins (some reply.session)
      (.contentLoaded reply.pending.path text)) : Answered s t reply := by
  obtain ⟨p', halike, hp', hafter, _⟩ := hheard
  have hmarks : t.pane.marks = (p'.upsertLoadedDocument reply.pending.path text).marks :=
    hafter.marks
  constructor
  · intro m' hm' hload
    rw [hmarks] at hm'
    obtain ⟨hold, hnot⟩ := loading_after_upsert hp' text m' hm' hload
    have hwas : m' ∈ s.pane.marks := halike.marks ▸ hold
    refine ⟨⟨m', hwas, hload, rfl⟩, fun _ hpath => ?_⟩
    obtain hignored | hother := hnot
    · rw [halike.ignored, hpath] at hignored
      exact h.tidy.wanted m' hwas hload hignored
    · exact hother (hfound.alike halike hold hpath (Or.inl ⟨hkind, hload⟩))
  · intro m' hm' hsave
    rw [hmarks] at hm'
    have hold := saving_after_upsert hp' text m' hm' hsave
    refine ⟨⟨m', halike.marks ▸ hold, hsave, rfl⟩, fun hsaved => ?_⟩
    rw [hkind] at hsaved
    cases hsaved

/-- The document that waits for a text there is none of is taken away. -/
theorem Accounted.openFailed (h : Accounted s) {reply : Reply} {message : QString}
    (hfound : s.AnswersFound reply) (hkind : reply.pending.kind = .editorOpen)
    (hheard : t.HasHeard s.pane s.origins (some reply.session)
      (.openFailed reply.pending.path message)) : Answered s t reply := by
  obtain ⟨p', halike, hp', hafter, _⟩ := hheard
  have hmarks : t.pane.marks = (p'.handleOpenFailed reply.pending.path).marks := hafter.marks
  have hkept : t.pane.marks ⊆ p'.marks := by
    rw [hmarks]
    exact p'.marks_handleOpenFailed _
  apply answered_of_faded
  · rw [← halike.marks]
    exact faded_of_subset hkept
  · intro _ m' hm' hload hpath
    have hold := hkept hm'
    rw [hmarks] at hm'
    obtain hignored | hother := foundTab_after_openFailed hp' m' hm'
    · rw [halike.ignored, hpath] at hignored
      exact h.tidy.wanted m' (halike.marks ▸ hold) hload hignored
    · exact hother (hfound.alike halike hold hpath (Or.inl ⟨hkind, hload⟩))
  · intro hsaved
    rw [hkind] at hsaved
    cases hsaved

/-- The document that waits for the end of a save does not wait any more. -/
theorem answered_of_saved {reply : Reply} {ok : Bool} {message : QString}
    (hfound : s.AnswersFound reply) (hkind : reply.pending.kind = .editorSave)
    (hheard : t.HasHeard s.pane s.origins (some reply.session)
      (EditorViewModel.saveNews ok message reply.pending.path)) : Answered s t reply := by
  obtain ⟨p', halike, hp', hafter, _⟩ := hheard
  have hmarks : t.pane.marks = (p'.finishSave reply.pending.path (!ok)).marks := by
    rw [hafter.marks]
    cases ok <;> rfl
  have hfaded := p'.faded_finishSave reply.pending.path (!ok)
  rw [← hmarks] at hfaded
  apply answered_of_faded
  · rw [← halike.marks]
    exact hfaded
  · intro hopen
    rw [hkind] at hopen
    cases hopen
  · intro _ m' hm' hsave hpath
    obtain ⟨m, hm, hfades⟩ := hfaded m' hm'
    rw [hmarks] at hm'
    have hother := foundTab_after_finishSave hp' _ m' hm' hsave
    rw [hfades.tab] at hother
    rw [hfades.path] at hpath
    exact hother (hfound.alike halike hm hpath (Or.inr ⟨hkind, hfades.saving hsave⟩))

/-- A move passes by what waits. -/
theorem answered_of_moved {reply : Reply} (hkind : reply.pending.kind = .mutate)
    (hpast : ∀ m ∈ s.pane.marks, m.loading = true ∨ m.saving = true →
      (m.moved reply.pending.path reply.pending.destinationPath).path = m.path)
    (hheard : t.HasHeard s.pane s.origins (some reply.session)
      (.pathMoved reply.pending.path reply.pending.destinationPath)) : Answered s t reply := by
  have hmarks := hheard.marks_moved
  constructor
  · intro m' hm' hload
    rw [hmarks] at hm'
    obtain ⟨m, hm, rfl⟩ := List.mem_map.mp hm'
    rw [(m.moved_keeps _ _).2.1] at hload
    refine ⟨⟨m, hm, hload, hpast m hm (Or.inl hload)⟩, fun hopen => ?_⟩
    rw [hkind] at hopen
    cases hopen
  · intro m' hm' hsave
    rw [hmarks] at hm'
    obtain ⟨m, hm, rfl⟩ := List.mem_map.mp hm'
    rw [(m.moved_keeps _ _).2.2] at hsave
    refine ⟨⟨m, hm, hsave, hpast m hm (Or.inr hsave)⟩, fun hsaved => ?_⟩
    rw [hkind] at hsaved
    cases hsaved

/-- A result that finds its mark. -/
theorem Accounted.answered (h : Accounted s) {reply : Reply} {news : List EditorSignal}
    (hfound : s.AnswersFound reply) (hpast : s.MovesPast reply)
    (hreplied : s.Replied reply news t) : Answered s t reply := by
  have hheard := hreplied.heard
  cases hreplied.answer with
  | silent hkind =>
    apply answered_of_faded
    · rw [(hreplied.silent rfl).1.marks]
      exact faded_of_subset (List.Subset.refl _)
    · intro hopen
      rw [hopen] at hkind
      exact absurd hkind (by decide)
    · intro hsaved
      rw [hsaved] at hkind
      exact absurd hkind (by decide)
  | loaded data hkind _ => exact h.contentLoaded hfound hkind (hheard _ rfl)
  | openFailed message hkind => exact h.openFailed hfound hkind (hheard _ rfl)
  | saved ok message hkind => exact answered_of_saved hfound hkind (hheard _ rfl)
  | removed hkind =>
    obtain ⟨p', halike, _, hafter, _⟩ := hheard _ rfl
    apply answered_of_faded
    · rw [hafter.marks, ← halike.marks]
      exact p'.faded_handlePathRemoved _ _
    · intro hopen
      rw [hkind] at hopen
      cases hopen
    · intro hsaved
      rw [hkind] at hsaved
      cases hsaved
  | moved hkind hmutation hpayload _ =>
    exact answered_of_moved hkind (hpast.moved hmutation hpayload) (hheard _ rfl)

/-- The paths stay in order: a result only takes marks away, or moves documents. -/
theorem Tidy.answered (h : Tidy s.pane.marks s.pane.ignoredOpenPaths) {reply : Reply}
    {news : List EditorSignal} (hpast : s.MovesPast reply) (hsound : Desk.Sound s.desk)
    (hreplied : s.Replied reply news t) : Tidy t.pane.marks t.pane.ignoredOpenPaths := by
  have hheard := hreplied.heard
  cases hreplied.answer with
  | silent _ =>
    obtain ⟨halike, _⟩ := hreplied.silent rfl
    rw [halike.marks, halike.ignored]
    exact h
  | loaded data hkind _ =>
    obtain ⟨p', halike, hp', hafter, _⟩ := hheard _ rfl
    rw [hafter.marks, hafter.ignored]
    rw [← halike.marks, ← halike.ignored] at h
    exact h.loaded hp' (hsound.named _ _ hreplied.pending (ofEditor_of_marksKind (Or.inl hkind))) _
  | openFailed message _ => exact h.heard (hheard _ rfl) nofun nofun
  | saved ok message _ =>
    refine h.heard (hheard _ rfl) ?_ ?_
    · cases ok <;> exact nofun
    · cases ok <;> exact nofun
  | removed _ => exact h.heard (hheard _ rfl) nofun nofun
  | moved _ hmutation hpayload hto =>
    have hmarks := (hheard _ rfl).marks_moved
    obtain ⟨p', halike, _, hafter, _⟩ := hheard _ rfl
    have hignored : t.pane.ignoredOpenPaths = s.pane.ignoredOpenPaths := by
      rw [hafter.ignored, ← halike.ignored]
      exact (p'.quiet_handlePathMoved _ _).ignored
    rw [hmarks, hignored]
    exact h.moved hto (hpast.moved hmutation hpayload)

/-- The result of a request that is not waited for any more takes no other request away. -/
theorem AwaitedMarks.answered (h : AwaitedMarks pending s.pane.marks) {reply : Reply}
    (hanswered : Answered s t reply) {id : UInt64} (hpending : pending id = some reply.pending) :
    AwaitedMarks (Function.update pending id none) t.pane.marks := by
  intro m' hm'
  constructor
  · intro hload
    obtain ⟨⟨m, hm, hwas, hpath⟩, hother⟩ := hanswered.loading m' hm' hload
    exact awaited_taken (hpath ▸ (h m hm).1 hwas) hpending hother
  · intro hsave
    obtain ⟨⟨m, hm, hwas, hpath⟩, hother⟩ := hanswered.saving m' hm' hsave
    exact awaited_taken (hpath ▸ (h m hm).2 hwas) hpending hother

/-! ## §5. Requests. -/

/-- A pane that shows files of a connected server can ask for them. -/
theorem Settled.ready (hs : Settled s) (havailable : s.controller.fileAvailable = true)
    (hconnected : s.controller.connectionState = .connected) : s.controller.ready = true := by
  have hlive : s.controller.live ≠ none := by
    intro hidle
    have hnone : s.controller.fileAvailable = false := (hs.desk.idle hidle).1
    rw [hnone] at havailable
    exact Bool.false_ne_true havailable
  unfold AppController.live at hlive
  unfold AppController.ready
  rw [hconnected]
  cases hsession : s.controller.session with
  | none =>
    rw [hsession] at hlive
    exact absurd rfl hlive
  | some session => rfl

/-- A new entry is waited for. -/
theorem awaited_new (pending : UInt64 → Option PendingFs) (id : UInt64) (entry : PendingFs) :
    Awaited (Function.update pending id (some entry)) entry.kind entry.path :=
  ⟨id, entry, Function.update_self _ _ _, rfl, rfl⟩

/-- Whatever comes of a request, the documents that wait are accounted for. -/
theorem accounted_of_asked {q : CodeEditorPane} {entry : PendingFs}
    {refusal : QString → EditorSignal} (hasked : s.Asked q entry refusal t)
    (hready : s.controller.ready = true) (hpath : entry.path ≠ [])
    (htidy : Tidy q.marks q.ignoredOpenPaths)
    (htaken : AwaitedMarks
      (Function.update s.desk.fsPending (s.desk.idAfter 1) (some entry)) q.marks)
    (hrefused : ∀ message, s.desk.Refuses → t.HasHeard q s.origins none (refusal message) →
      AwaitedMarks s.controller.fsPending t.pane.marks)
    (hloaded : ∀ message path text, refusal message ≠ .contentLoaded path text)
    (hmoved : ∀ message fromPath toPath, refusal message ≠ .pathMoved fromPath toPath) :
    Accounted t := by
  have hpending : ∀ d : Desk, t.DeskIs d → t.controller.fsPending = d.fsPending := by
    rintro d ⟨e, hdesk⟩
    exact congrArg Desk.fsPending hdesk
  cases hasked with
  | ignored hnot _ _ _ => exact absurd ⟨hready, hpath⟩ hnot
  | taken _ _ hdesk halike _ =>
    constructor
    · rw [halike.marks, halike.ignored]
      exact htidy
    · rw [hpending _ hdesk, halike.marks]
      exact htaken
  | refused k message hrefuses hdesk hheard =>
    constructor
    · exact htidy.heard hheard (hloaded message) (hmoved message)
    · rw [hpending _ hdesk]
      exact hrefused message hrefuses hheard

/-- A document is begun and its file asked for. -/
theorem Accounted.opened (h : Accounted s) (hfree : s.desk.IdsFree) {path : QString}
    (hready : s.controller.ready = true) (hpath : path ≠ [])
    (hnew : ∀ doc ∈ s.pane.openDocuments, doc.path ≠ path)
    (hasked : s.Asked ((s.pane.unignoreOpenPath path).pushLoading path)
      (.plain .editorOpen path none) (.openFailed path) t) : Accounted t := by
  have hold : ∀ m ∈ s.pane.marks, m.path ≠ path := by
    intro m hm
    obtain ⟨doc, hdoc, rfl⟩ := List.mem_map.mp hm
    exact hnew doc hdoc
  have hmarks : ((s.pane.unignoreOpenPath path).pushLoading path).marks = s.pane.marks
      ++ [(makeDocument s.pane.nextTab path [] false true).mark] := List.map_append
  have htidy := h.tidy.push (m := (makeDocument s.pane.nextTab path [] false true).mark) hpath hold
  rw [← hmarks] at htidy
  refine accounted_of_asked hasked hready hpath htidy ?_ ?_ nofun nofun
  · intro m hm
    rw [hmarks, List.mem_append, List.mem_singleton] at hm
    obtain hm | rfl := hm
    · exact ⟨fun hload => awaited_put ((h.awaited m hm).1 hload) (Or.inl rfl) hfree _,
        fun hsave => awaited_put ((h.awaited m hm).2 hsave) (Or.inr rfl) hfree _⟩
    · exact ⟨fun _ => awaited_new _ _ (.plain .editorOpen path none),
        fun hsave => absurd hsave Bool.false_ne_true⟩
  · -- the pane takes the document away again
    intro message _ hheard
    obtain ⟨p', halike, hp', hafter, _⟩ := hheard
    rw [hafter.marks]
    have hmarks' := halike.marks.trans hmarks
    intro m' hm'
    have hm := p'.marks_handleOpenFailed path hm'
    rw [hmarks', List.mem_append, List.mem_singleton] at hm
    obtain hm | rfl := hm
    · exact h.awaited m' hm
    · exfalso
      obtain hignored | hother := foundTab_after_openFailed hp' _ hm'
      · rw [halike.ignored] at hignored
        exact h.tidy.once.not_mem_erase hignored
      · exact hother (foundTab_push hmarks' hold)

/-- A document is saved. -/
theorem Accounted.saved (h : Accounted s) (hfree : s.desk.IdsFree)
    {doc new : Document} (hready : s.controller.ready = true)
    (hdoc : s.pane.activeDocument? = some doc) (hmark : new.mark = { doc.mark with saving := true })
    (hfound : s.desk.Refuses → s.pane.foundTab doc.path = some doc.tab)
    (hasked : s.Asked { s.pane with
        openDocuments := s.pane.openDocuments.set s.pane.activeDocumentIndex.toNat new }
      (.plain .editorSave doc.path (parentOrNull doc.path)) (.saveFailed doc.path) t) :
    Accounted t := by
  have hget := getElem?_marks (s.pane.documentAt?_eq_some.mp hdoc).2
  have hmem : doc.mark ∈ s.pane.marks := List.mem_of_getElem? hget
  have hmarks := (marks_set s.pane s.pane.activeDocumentIndex.toNat new).trans
    (congrArg (s.pane.marks.set _) hmark)
  refine accounted_of_asked hasked hready (h.tidy.named doc.mark hmem) ?_ ?_ ?_ nofun nofun
  · -- a save changes no path, and no document waits for its text that did not
    rw [hmarks]
    apply h.tidy.of_former (List.Sublist.refl _)
    · intro m' hm'
      obtain hm' | rfl := List.mem_or_eq_of_mem_set hm'
      · exact h.tidy.named m' hm'
      · exact h.tidy.named doc.mark hmem
    · intro m' hm' hload
      obtain hm' | rfl := List.mem_or_eq_of_mem_set hm'
      · exact ⟨m', hm', hload, rfl, rfl⟩
      · exact ⟨doc.mark, hmem, hload, rfl, rfl⟩
  · rw [hmarks]
    intro m hm
    obtain hm | rfl := List.mem_or_eq_of_mem_set hm
    · exact ⟨fun hload => awaited_put ((h.awaited m hm).1 hload) (Or.inl rfl) hfree _,
        fun hsave => awaited_put ((h.awaited m hm).2 hsave) (Or.inr rfl) hfree _⟩
    · exact ⟨fun hload => awaited_put ((h.awaited doc.mark hmem).1 hload) (Or.inl rfl) hfree _,
        fun _ => awaited_new _ _ (.plain .editorSave doc.path (parentOrNull doc.path))⟩
  · -- the pane marks the document that it finds as not saving again
    intro message hrefuses hheard
    obtain ⟨p', halike, hp', hafter, _⟩ := hheard
    rw [hafter.marks]
    have hmarks' := halike.marks.trans hmarks
    have hsame : p'.foundTab doc.path = some doc.tab := by
      rw [foundTab_congr (p := s.pane) hmarks' (map_key_set hget rfl), hfound hrefuses]
    intro m' hm'
    obtain ⟨m, hm, hfades⟩ := p'.faded_finishSave doc.path true m' hm'
    rw [hmarks'] at hm
    rw [hfades.path]
    obtain hm | rfl := List.mem_or_eq_of_mem_set hm
    · exact ⟨fun hload => (h.awaited m hm).1 (hfades.loading hload),
        fun hsave => (h.awaited m hm).2 (hfades.saving hsave)⟩
    · refine ⟨fun hload => (h.awaited doc.mark hmem).1 (hfades.loading hload), fun hsave => ?_⟩
      exfalso
      apply foundTab_after_finishSave hp' true m' hm' hsave
      rw [hfades.tab]
      exact hsame

/-! ## §6. Steps. -/

/-- **One step** keeps it. -/
theorem Accounted.step {l : Label} (h : Accounted s) (hs : Settled s) (horderly : s.Orderly l)
    (hstep : s.step l = some t) : Accounted t := by
  have hfree : s.desk.IdsFree := by
    cases l with
    | pane l => cases l <;> exact horderly.1
    | _ => exact horderly.1
  cases hs.outcome hstep with
  -- further requests at most: every mark has its request still
  | quiet hasks halike _ =>
    constructor
    · rw [halike.marks, halike.ignored]
      exact h.tidy
    · rw [halike.marks]
      exact h.awaited.keep fun _ _ hkind hwaits => awaited_asks hwaits hkind hasks hfree
  | begun hbegun halike _ =>
    constructor
    · rw [halike.marks, halike.ignored]
      exact h.tidy
    · rw [halike.marks, show t.controller.fsPending = s.controller.fsPending from hbegun.pending]
      exact h.awaited
  -- a new session: the pane was told to close all, and no mark stays
  | cleared sender _ _ hheard =>
    refine ⟨h.tidy.heard hheard nofun nofun, ?_⟩
    obtain ⟨p', _, _, hafter, _⟩ := hheard
    intro m hm
    rw [hafter.marks] at hm
    obtain ⟨hloading, hsaving, _⟩ := mem_marks_removedAll hm
    rw [hloading, hsaving]
    exact ⟨nofun, nofun⟩
  | closed i old hget hdesk halike _ =>
    have hmarks : t.pane.marks = s.pane.marks.eraseIdx i :=
      halike.marks.trans (s.pane.marks_eraseIdx i)
    obtain ⟨e, hdesk⟩ := hdesk
    constructor
    · rw [hmarks, halike.ignored]
      exact h.tidy.close hs.pane hget
    · rw [hmarks, show t.controller.fsPending = s.controller.fsPending from
        congrArg Desk.fsPending hdesk]
      exact h.awaited.faded (faded_of_subset (List.eraseIdx_sublist _ i).subset)
  | opened _ path size havailable hpath hsize hnew hasked =>
    have hconnected := horderly.2 havailable hpath hsize (foundTab_of_none hnew)
    exact h.opened hfree (hs.ready havailable hconnected) hpath hnew hasked
  | saved _ _ doc new hconnected havailable hmodified hdoc hloading hsaving hmissing hmark hasked =>
    refine h.saved hfree (hs.ready havailable hconnected) hdoc hmark ?_ hasked
    intro hrefuses
    exact horderly.2 hrefuses hconnected havailable hmodified doc hdoc hloading hsaving hmissing
  -- the one request that left was the one whose mark was cleared
  | answered reply news hreply hreplied =>
    obtain ⟨hfound, hpast⟩ := horderly.2 reply hreply
    constructor
    · exact h.tidy.answered hpast hs.desk hreplied
    · have hleft := h.awaited.answered (h.answered hfound hpast hreplied) hreplied.pending
      exact hleft.keep fun _ _ hkind hwaits =>
        awaited_asks hwaits hkind hreplied.asks (idsFree_taken hfree _)

/-- Then every mark is waited for. -/
theorem Accounted.marksAwaited (h : Accounted s) : s.MarksAwaited :=
  fun _ hdoc => h.awaited _ (List.mem_map_of_mem hdoc)

/-- Then every reply clears its mark. -/
theorem Accounted.repliesClear (h : Accounted s) (hs : Settled s) {l : Label}
    (horderly : s.Orderly l) : s.RepliesClear l := by
  cases l with
  | deliver =>
    intro reply hreply t hstep doc hdoc hpath
    obtain ⟨news, hreplied⟩ := hs.replied hreply hstep
    obtain ⟨hfound, hpast⟩ := horderly.2 reply hreply
    have hanswered := h.answered hfound hpast hreplied
    have hmem : doc.mark ∈ t.pane.marks := List.mem_map_of_mem hdoc
    constructor
    · intro hopen
      rw [Bool.eq_false_iff]
      exact fun hload => (hanswered.loading _ hmem hload).2 hopen hpath.symm
    · intro hsaved
      rw [Bool.eq_false_iff]
      exact fun hsave => (hanswered.saving _ hmem hsave).2 hsaved hpath.symm
  | _ => trivial

end

/-! ## §7. Runs. -/

/-- No tab, no mark. -/
theorem accounted_initial (servers : List ServerItem)
    (credentials : QString → Option (List UInt8)) : Accounted (initial servers credentials) where
  tidy :=
    { named := fun _ hm => absurd hm List.not_mem_nil
      once := List.nodup_nil
      wanted := fun _ hm => absurd hm List.not_mem_nil
      single := fun _ hm => absurd hm List.not_mem_nil }
  awaited := fun _ hm => absurd hm List.not_mem_nil

/-- **A document that waits has a request that it waits for.**  In an orderly run this holds in
every state, and every result that arrives leaves no document of its path marked. -/
theorem marks_awaited (servers : List ServerItem) (credentials : QString → Option (List UInt8))
    (labels : List Label) (h : Along step Orderly (initial servers credentials) labels) :
    Throughout step MarksAwaited (initial servers credentials) labels
      ∧ Along step RepliesClear (initial servers credentials) labels := by
  have hinitial := And.intro (settled_initial servers credentials)
    (accounted_initial servers credentials)
  have hkept : ∀ (s : Workspace) (l : Label) (t : Workspace), s.Settled ∧ s.Accounted →
      s.Orderly l → s.step l = some t → t.Settled ∧ t.Accounted :=
    fun s l t hs horderly hstep => ⟨hs.1.step hstep, hs.2.step hs.1 horderly hstep⟩
  constructor
  · exact throughout_of_invariant (fun s hs => hs.2.marksAwaited) hkept hinitial h
  · exact along_of_invariant (fun s l hs => hs.2.repliesClear hs.1) hkept hinitial h

/-- A file is opened, edited and saved, and meanwhile another one is renamed. -/
def openedRun : List Label :=
  connected 0 ++ [.pane (.requestOpen true (lit "/h/f") 1),
    .user (.renamePath (lit "/h/x") (lit "g")),
    .calls (.files [{ requestId := 2, payload := .content [0x61] },
      { requestId := 3, payload := .ok }]),
    .deliver, .deliver, .pane (.edit (lit "b") 1), .pane (.save true true),
    .calls (.files [{ requestId := 5, payload := .ok }]), .deliver]

theorem marks_awaited_opened :
    Along step Orderly twoServers openedRun
      ∧ Throughout step MarksAwaited twoServers openedRun
      ∧ Along step RepliesClear twoServers openedRun :=
  ⟨by decide, marks_awaited _ _ _ (by decide)⟩

/-- A file is renamed, and before the result of that it is opened under its old path. -/
def renamedFirstRun : List Label :=
  connected 0 ++ [.user (.renamePath (lit "/h/f") (lit "g")),
    .pane (.requestOpen true (lit "/h/f") 1),
    .calls (.files [{ requestId := 2, payload := .ok }]), .deliver]

/-- What waits for results at the end of that run. -/
def renamedFirstPending : UInt64 → Option PendingFs :=
  let listed := Function.update (Function.update (fun _ => none) 1
    (some (.plain .listing [] none))) 1 none
  let renamed := Function.update listed 2 (some
    { PendingFs.plain .mutate (lit "/h/f") (some (lit "/h")) with
      mutation := .moveLike, destinationPath := lit "/h/g" })
  let opened := Function.update renamed 3 (some (.plain .editorOpen (lit "/h/f") none))
  Function.update (Function.update opened 2 none) 4 (some (.plain .listing (lit "/h") none))

/-- The document has the new path, and the request for its text the old one. -/
theorem renamed_while_loading : ¬ Throughout step MarksAwaited twoServers renamedFirstRun := by
  intro h
  obtain ⟨s, hrun⟩ : ∃ s, exec step twoServers renamedFirstRun = some s :=
    Option.isSome_iff_exists.mp (by decide)
  have hloading : (exec step twoServers renamedFirstRun).map (fun s =>
      s.pane.openDocuments.any fun doc => doc.loading && doc.path == lit "/h/g") = some true := by
    decide
  have hpending : (exec step twoServers renamedFirstRun).map (fun s => s.controller.fsPending)
      = some renamedFirstPending := by
    rfl
  rw [hrun, Option.map_some, Option.some.injEq] at hloading hpending
  obtain ⟨doc, hdoc, hmark⟩ := List.any_eq_true.mp hloading
  rw [Bool.and_eq_true, beq_iff_eq] at hmark
  obtain ⟨id, entry, hentry, _, hpath⟩ := (h _ s List.prefix_rfl hrun doc hdoc).1 hmark.1
  rw [hpending] at hentry
  rw [hmark.2] at hpath
  -- nothing that waits has the new path
  simp only [renamedFirstPending, Function.update_apply] at hentry
  split_ifs at hentry
  · rw [← Option.some.inj hentry] at hpath
    exact absurd hpath (by decide)
  · rw [← Option.some.inj hentry] at hpath
    exact absurd hpath (by decide)

end Workspace

end ResearchSSH.App
