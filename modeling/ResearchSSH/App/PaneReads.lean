/-
  ResearchSSH.App.PaneReads — reads whose tab was closed before the result arrived.

  Closing a document that waits for its text puts its path into a list of paths to ignore, and the
  next result for the path is dropped.  Opening the path again takes it out of that list, although
  the read of the closed tab is still to be answered.

  The pane is put together with the reads it has asked for, in their order.  A read remembers the
  tab it was made for; the pane does not.

  Main results:
    * `Outstanding` and its lemmas — open documents and reads while no path is opened over a late
      read.
    * `late_reads_dropped` — in such a run the result of a late read changes no document.
    * `reopened_over_late_read` — a path that is opened, closed and opened again.
-/

import Mathlib.Data.List.InsertIdx
import ResearchSSH.App.PanePaths

namespace ResearchSSH.App

open ResearchSSH.Library

/-! ## §1. The pane and its reads. -/

/-- A read that the pane has asked for. -/
structure OpenRead where
  tab : Nat
  path : QString
  deriving DecidableEq, Repr

/-- The reads are in the order in which they were asked for, and will be answered. -/
structure Reading where
  pane : CodeEditorPane
  reads : List OpenRead
  deriving DecidableEq, Repr

/-- How a read ends. -/
inductive ReadResult
  | loaded (text : QString)
  | failed (message : QString)
  deriving DecidableEq, Repr

/-- What the pane is told then. -/
def ReadResult.signal (path : QString) : ReadResult → EditorSignal
  | .loaded text => .contentLoaded path text
  | .failed message => .openFailed path message

/-- The step brings no result of a read, and no news of a file that was moved or removed. -/
def CodeEditorPane.Label.ofTabs : CodeEditorPane.Label → Bool
  | .signal (.changed _ _) | .signal (.saveSucceeded _) | .signal (.saveFailed _ _) => true
  | .signal _ => false
  | _ => true

namespace Reading

open CodeEditorPane

/-- What can happen next. -/
inductive Label
  | tabs (l : CodeEditorPane.Label)
  | answered (result : ReadResult)
  deriving DecidableEq, Repr

/-- No tab, and no read on its way. -/
def initial : Reading := { pane := CodeEditorPane.initial, reads := [] }

/-- The reads that the pane asked for from `p` to `q`, for the tab that was begun. -/
def newReads (p q : CodeEditorPane) : List OpenRead :=
  (q.calls.drop p.calls.length).filterMap fun
    | .openPath path => some { tab := p.nextTab, path := path }
    | _ => none

/-- One step.  The read that has waited longest is answered first. -/
def step (s : Reading) : Label → Option Reading
  | .tabs l =>
    if l.ofTabs then
      (s.pane.step l).map fun q => { pane := q, reads := s.reads ++ newReads s.pane q }
    else none
  | .answered result =>
    match s.reads with
    | [] => none
    | read :: reads =>
      let signal := result.signal read.path
      some { pane := (s.pane.answered signal).onSignal signal, reads := reads }

/-- The tab of the read is closed. -/
def Late (s : Reading) (read : OpenRead) : Prop := ∀ doc ∈ s.pane.openDocuments, doc.tab ≠ read.tab

instance (s : Reading) (read : OpenRead) : Decidable (s.Late read) :=
  inferInstanceAs (Decidable (∀ doc ∈ s.pane.openDocuments, doc.tab ≠ read.tab))

/-- If the read that is answered is late, the documents stay as they are: none is created,
changed or taken out. -/
def LateReadDropped (s : Reading) : Label → Prop
  | .answered result => ∀ read ∈ s.reads.head?, s.Late read →
      ∀ t, s.step (.answered result) = some t → t.pane.openDocuments = s.pane.openDocuments
  | .tabs _ => True

/-- No path is opened while a late read of it is to be answered. -/
def OpensNotLate (s : Reading) : Label → Prop
  | .tabs (.requestOpen fileAvailable path size) =>
    fileAvailable = true → size < maxEditorBytes →
      ∀ read ∈ s.reads, s.Late read → read.path ≠ path
  | _ => True

instance (s : Reading) : ∀ l, Decidable (s.OpensNotLate l)
  | .tabs (.requestOpen fileAvailable path size) =>
    inferInstanceAs (Decidable (fileAvailable = true → size < maxEditorBytes →
      ∀ read ∈ s.reads, s.Late read → read.path ≠ path))
  | .tabs (.signal _) | .tabs (.setActive _) | .tabs (.requestClose _) | .tabs .acceptClose
  | .tabs .rejectClose | .tabs (.edit _ _) | .tabs (.moveCursor _) | .tabs (.save _ _)
  | .answered _ => inferInstanceAs (Decidable True)

/-! ## §2. Tickets. -/

/-- What a document says of its read. -/
structure Ticket where
  tab : Nat
  path : QString
  loading : Bool
  deriving DecidableEq, Repr

/-- What a document says about its read. -/
def Ticket.ofDocument (doc : Document) : Ticket :=
  { tab := doc.tab, path := doc.path, loading := doc.loading }

/-- The tickets of all tabs. -/
def tickets (p : CodeEditorPane) : List Ticket := p.openDocuments.map .ofDocument

/-- Tickets, the next tab, the paths to ignore and the reads, while no path is opened over a late
read. -/
structure Outstanding (tickets : List Ticket) (next : Nat) (ignored : List QString)
    (reads : List OpenRead) : Prop where
  tabs : Distinct (tickets.map Ticket.tab) next
  paths : (tickets.map Ticket.path).Nodup
  readTabs : Distinct (reads.map OpenRead.tab) next
  named : ∀ read ∈ reads, read.path ≠ []
  /-- An open document still waits for its read. -/
  awaited : ∀ read ∈ reads, ∀ t ∈ tickets, t.tab = read.tab →
    t.path = read.path ∧ t.loading = true
  /-- The path of a late read is to be ignored, and is nowhere else. -/
  late : ∀ read ∈ reads, (∀ t ∈ tickets, t.tab ≠ read.tab) → read.path ∈ ignored
    ∧ (∀ t ∈ tickets, t.path ≠ read.path)
    ∧ ∀ other ∈ reads, other.path = read.path → other = read

section
variable {tickets : List Ticket} {next : Nat} {ignored : List QString} {reads : List OpenRead}
  {read : OpenRead} {i : Nat} {t : Ticket}

/-- No tab, no read. -/
theorem outstanding_nil : Outstanding [] 0 [] [] where
  tabs := .nil 0
  paths := List.nodup_nil
  readTabs := .nil 0
  named := fun _ h => absurd h List.not_mem_nil
  awaited := fun _ h => absurd h List.not_mem_nil
  late := fun _ h => absurd h List.not_mem_nil

/-- A document is begun for a path that no document and no late read has. -/
theorem Outstanding.push (h : Outstanding tickets next ignored reads) {path : QString}
    (hpath : path ≠ []) (hnew : ∀ t ∈ tickets, t.path ≠ path)
    (hlate : ∀ read ∈ reads, (∀ t ∈ tickets, t.tab ≠ read.tab) → read.path ≠ path) :
    Outstanding (tickets ++ [{ tab := next, path := path, loading := true }]) (next + 1)
      (ignored.erase path) (reads ++ [{ tab := next, path := path }]) := by
  have hbefore : ∀ read ∈ reads, read.tab ≠ next :=
    fun read hread => Nat.ne_of_lt (h.readTabs.2 read.tab (List.mem_map_of_mem hread))
  refine ⟨?_, ?_, ?_, ?_, ?_, ?_⟩
  · rw [List.map_append, List.map_singleton]
    exact h.tabs.push
  · rw [List.map_append, List.map_singleton, List.nodup_append]
    refine ⟨h.paths, List.nodup_singleton _, ?_⟩
    intro a ha b hb
    obtain ⟨t, ht, rfl⟩ := List.mem_map.mp ha
    rw [List.mem_singleton.mp hb]
    exact hnew t ht
  · rw [List.map_append, List.map_singleton]
    exact h.readTabs.push
  · intro read hread
    obtain hold | hlast := List.mem_append.mp hread
    · exact h.named read hold
    · rw [List.mem_singleton.mp hlast]
      exact hpath
  · intro read hread t ht htab
    obtain ht | hlastTicket := List.mem_append.mp ht
    · obtain hold | hlast := List.mem_append.mp hread
      · exact h.awaited read hold t ht htab
      · rw [List.mem_singleton.mp hlast] at htab
        exact absurd htab (Nat.ne_of_lt (h.tabs.2 t.tab (List.mem_map_of_mem ht)))
    · rw [List.mem_singleton.mp hlastTicket] at htab ⊢
      obtain hold | hlast := List.mem_append.mp hread
      · exact absurd htab.symm (hbefore read hold)
      · rw [List.mem_singleton.mp hlast]
        exact ⟨rfl, rfl⟩
  · intro read hread hislate
    -- the read that is added is not late
    have hisold : read ∈ reads := by
      refine (List.mem_append.mp hread).resolve_right ?_
      intro hlast
      rw [List.mem_singleton.mp hlast] at hislate
      exact hislate _ (List.mem_append_right _ (List.mem_singleton.mpr rfl)) rfl
    have hwas : ∀ t ∈ tickets, t.tab ≠ read.tab :=
      fun t ht => hislate t (List.mem_append_left _ ht)
    obtain ⟨hignored, hnone, honly⟩ := h.late read hisold hwas
    have hne := hlate read hisold hwas
    refine ⟨(List.mem_erase_of_ne hne).mpr hignored, ?_, ?_⟩
    · intro t ht
      obtain ht | hlastTicket := List.mem_append.mp ht
      · exact hnone t ht
      · rw [List.mem_singleton.mp hlastTicket]
        exact hne.symm
    · intro other hother hsame
      obtain hother | hlast := List.mem_append.mp hother
      · exact honly other hother hsame
      · rw [List.mem_singleton.mp hlast] at hsame
        exact absurd hsame.symm hne

/-- A document is closed; if it waits for its text, its path is to be ignored from now on. -/
theorem Outstanding.close (h : Outstanding tickets next ignored reads)
    (hget : tickets[i]? = some t) {ignored' : List QString} (hsub : ignored ⊆ ignored')
    (hloading : t.loading = true → t.path ≠ [] → t.path ∈ ignored') :
    Outstanding (tickets.eraseIdx i) next ignored' reads := by
  have hmem : t ∈ tickets := List.mem_of_getElem? hget
  refine ⟨h.tabs.sublist ((List.eraseIdx_sublist _ i).map _),
    h.paths.sublist ((List.eraseIdx_sublist _ i).map _), h.readTabs, h.named, ?_, ?_⟩
  · intro read hread u hu
    exact h.awaited read hread u (List.mem_of_mem_eraseIdx hu)
  · intro read hread hislate
    by_cases htab : t.tab = read.tab
    · -- the read becomes late with this step
      obtain ⟨hpath, hload⟩ := h.awaited read hread t hmem htab
      refine ⟨?_, ?_, ?_⟩
      · rw [← hpath]
        exact hloading hload (hpath ▸ h.named read hread)
      · intro u hu
        rw [← hpath]
        exact key_ne_of_mem_eraseIdx h.paths hget hu
      · intro other hother hsame
        have hopen : ¬ ∀ u ∈ tickets, u.tab ≠ other.tab := by
          intro hnone
          exact (h.late other hother hnone).2.1 t hmem (hpath.trans hsame.symm)
        rw [not_forall₂] at hopen
        obtain ⟨u, hu, hutab⟩ := hopen
        rw [not_not] at hutab
        have hupath := (h.awaited other hother u hu hutab).1
        have huis : u = t :=
          List.inj_on_of_nodup_map h.paths hu hmem (hupath.trans (hsame.trans hpath.symm))
        apply List.inj_on_of_nodup_map h.readTabs.1 hother hread
        rw [← hutab, huis, htab]
    · have hwas : ∀ u ∈ tickets, u.tab ≠ read.tab := by
        intro u hu
        by_cases hut : u = t
        · rw [hut]
          exact htab
        · exact hislate u (mem_eraseIdx_of_ne hget hu hut)
      obtain ⟨hignored, hnone, honly⟩ := h.late read hread hwas
      exact ⟨hsub hignored, fun u hu => hnone u (List.mem_of_mem_eraseIdx hu), honly⟩

/-- No read comes twice. -/
theorem Outstanding.ne_head (h : Outstanding tickets next ignored (read :: reads)) :
    ∀ other ∈ reads, other.tab ≠ read.tab := by
  have hnodup := h.readTabs.1
  rw [List.map_cons, List.nodup_cons] at hnodup
  intro other hother htab
  exact hnodup.1 (htab ▸ List.mem_map_of_mem hother)

/-- The first read is answered and its result dropped. -/
theorem Outstanding.drop (h : Outstanding tickets next ignored (read :: reads)) :
    Outstanding tickets next (ignored.erase read.path) reads := by
  refine ⟨h.tabs, h.paths, h.readTabs.sublist (List.sublist_cons_self _ _),
    fun other hother => h.named other (List.mem_cons_of_mem _ hother),
    fun other hother => h.awaited other (List.mem_cons_of_mem _ hother), ?_⟩
  intro other hother hislate
  obtain ⟨hignored, hnone, honly⟩ := h.late other (List.mem_cons_of_mem _ hother) hislate
  refine ⟨(List.mem_erase_of_ne ?_).mpr hignored, hnone,
    fun third hthird => honly third (List.mem_cons_of_mem _ hthird)⟩
  intro hsame
  exact h.ne_head other hother (congrArg OpenRead.tab (honly read List.mem_cons_self hsame.symm).symm)

/-- The document under the path of the first read is the one that waits for it, unless the result
is dropped. -/
theorem Outstanding.tab_eq (h : Outstanding tickets next ignored (read :: reads))
    (hnot : read.path ∉ ignored) (hmem : t ∈ tickets) (hpath : t.path = read.path) :
    t.tab = read.tab := by
  have hopen : ¬ ∀ u ∈ tickets, u.tab ≠ read.tab :=
    fun hnone => hnot (h.late read List.mem_cons_self hnone).1
  rw [not_forall₂] at hopen
  obtain ⟨u, hu, hutab⟩ := hopen
  rw [not_not] at hutab
  have hupath := (h.awaited read List.mem_cons_self u hu hutab).1
  rw [← List.inj_on_of_nodup_map h.paths hu hmem (hupath.trans hpath.symm), hutab]

/-- A document waits for the first read, unless the result is dropped. -/
theorem Outstanding.exists_ticket (h : Outstanding tickets next ignored (read :: reads))
    (hnot : read.path ∉ ignored) : ∃ t ∈ tickets, t.path = read.path := by
  by_contra hnone
  apply hnot
  refine (h.late read List.mem_cons_self ?_).1
  intro t ht htab
  exact hnone ⟨t, ht, (h.awaited read List.mem_cons_self t ht htab).1⟩

/-- The text of the first read is put into the document that waits for it. -/
theorem Outstanding.load (h : Outstanding tickets next ignored (read :: reads))
    (hnot : read.path ∉ ignored) (hget : tickets[i]? = some t) (hpath : t.path = read.path) :
    Outstanding (tickets.set i { tab := t.tab, path := read.path, loading := false }) next ignored
      reads := by
  have htab := h.tab_eq hnot (List.mem_of_getElem? hget) hpath
  have htabs : (tickets.set i { tab := t.tab, path := read.path, loading := false }).map Ticket.tab
      = tickets.map Ticket.tab := map_key_set hget rfl
  have hpaths : (tickets.set i { tab := t.tab, path := read.path, loading := false }).map
      Ticket.path = tickets.map Ticket.path := map_key_set hget hpath.symm
  refine ⟨?_, ?_, h.readTabs.sublist (List.sublist_cons_self _ _),
    fun other hother => h.named other (List.mem_cons_of_mem _ hother), ?_, ?_⟩
  · rw [htabs]
    exact h.tabs
  · rw [hpaths]
    exact h.paths
  · intro other hother u hu hutab
    obtain hu | rfl := List.mem_or_eq_of_mem_set hu
    · exact h.awaited other (List.mem_cons_of_mem _ hother) u hu hutab
    -- the document that was loaded waits for no read any more
    · exact absurd (hutab.symm.trans htab) (h.ne_head other hother)
  · intro other hother hislate
    have hwas : ∀ u ∈ tickets, u.tab ≠ other.tab := by
      intro u hu hutab
      have hmem : u.tab ∈ (tickets.set i { tab := t.tab, path := read.path, loading := false }).map
          Ticket.tab := by
        rw [htabs]
        exact List.mem_map_of_mem hu
      obtain ⟨v, hv, hvtab⟩ := List.mem_map.mp hmem
      exact hislate v hv (hvtab.trans hutab)
    obtain ⟨hignored, hnone, honly⟩ := h.late other (List.mem_cons_of_mem _ hother) hwas
    refine ⟨hignored, ?_, fun third hthird => honly third (List.mem_cons_of_mem _ hthird)⟩
    intro u hu hupath
    have hmem : u.path ∈ tickets.map Ticket.path := by
      rw [← hpaths]
      exact List.mem_map_of_mem hu
    obtain ⟨v, hv, hvpath⟩ := List.mem_map.mp hmem
    exact hnone v hv (hvpath.trans hupath)

/-- The first read failed, and the document that waits for it is taken out. -/
theorem Outstanding.fail (h : Outstanding tickets next ignored (read :: reads))
    (hnot : read.path ∉ ignored) (hget : tickets[i]? = some t) (hpath : t.path = read.path) :
    Outstanding (tickets.eraseIdx i) next ignored reads := by
  have htab := h.tab_eq hnot (List.mem_of_getElem? hget) hpath
  refine ⟨h.tabs.sublist ((List.eraseIdx_sublist _ i).map _),
    h.paths.sublist ((List.eraseIdx_sublist _ i).map _),
    h.readTabs.sublist (List.sublist_cons_self _ _),
    fun other hother => h.named other (List.mem_cons_of_mem _ hother), ?_, ?_⟩
  · intro other hother u hu
    exact h.awaited other (List.mem_cons_of_mem _ hother) u (List.mem_of_mem_eraseIdx hu)
  · intro other hother hislate
    have hwas : ∀ u ∈ tickets, u.tab ≠ other.tab := by
      intro u hu
      by_cases hut : u = t
      · rw [hut, htab]
        exact (h.ne_head other hother).symm
      · exact hislate u (mem_eraseIdx_of_ne hget hu hut)
    obtain ⟨hignored, hnone, honly⟩ := h.late other (List.mem_cons_of_mem _ hother) hwas
    exact ⟨hignored, fun u hu => hnone u (List.mem_of_mem_eraseIdx hu),
      fun third hthird => honly third (List.mem_cons_of_mem _ hthird)⟩

end

/-! ## §3. The steps of the pane. -/

section
variable {p q r : CodeEditorPane} {reads : List OpenRead}

/-- The reads that are asked for by the last calls. -/
theorem newReads_of_calls {more : List EditorCall} (hcalls : q.calls = p.calls ++ more) :
    newReads p q = more.filterMap fun
      | .openPath path => some { tab := p.nextTab, path := path }
      | _ => none := by
  unfold newReads
  rw [hcalls, List.drop_left]

/-- Nothing is asked for. -/
theorem newReads_of_asksNothing (h : AsksNothing p q) : newReads p q = [] := by
  obtain ⟨more, hcalls, hmore⟩ := h
  rw [newReads_of_calls hcalls, List.filterMap_eq_nil_iff]
  intro request hrequest
  have hno := hmore request hrequest
  cases request with
  | openPath path => cases hno
  | _ => rfl

/-- What one call asks for. -/
theorem newReads_call (h : AsksNothing p r) (request : EditorCall) :
    newReads p (r.call request) = [request].filterMap fun
      | .openPath path => some { tab := p.nextTab, path := path }
      | _ => none := by
  have hnone := newReads_of_asksNothing h
  obtain ⟨more, hcalls, _⟩ := h
  have hcalled : (r.call request).calls = p.calls ++ (more ++ [request]) := by
    show r.calls ++ [request] = _
    rw [hcalls, List.append_assoc]
  rw [newReads_of_calls hcalls] at hnone
  rw [newReads_of_calls hcalled, List.filterMap_append, hnone, List.nil_append]

/-- The tickets are among the marks. -/
theorem tickets_of_marks (hmarks : q.marks = p.marks) : tickets q = tickets p := by
  have hticket : Ticket.ofDocument
      = (fun m : Mark => { tab := m.tab, path := m.path, loading := m.loading }) ∘ Document.mark := rfl
  unfold tickets
  rw [hticket, ← List.map_map, ← List.map_map]
  exact congrArg _ hmarks

/-- The tickets are the documents', and the reads of the pane's. -/
def Tracked (p : CodeEditorPane) (reads : List OpenRead) : Prop :=
  Outstanding (tickets p) p.nextTab p.ignoredOpenPaths reads

/-- What leaves the marks keeps it. -/
theorem Tracked.quiet (h : Tracked p reads) (hquiet : Quiet p q) : Tracked q reads := by
  unfold Tracked
  rw [tickets_of_marks hquiet.marks, hquiet.nextTab, hquiet.ignored]
  exact h

/-- A document is replaced by one with the same ticket. -/
theorem Tracked.set (h : Tracked p reads) {i : Nat} {old new : Document}
    (hget : p.openDocuments[i]? = some old) (hticket : Ticket.ofDocument new = .ofDocument old) :
    Tracked { p with openDocuments := p.openDocuments.set i new } reads := by
  have htickets : tickets { p with openDocuments := p.openDocuments.set i new } = tickets p :=
    map_key_set hget hticket
  unfold Tracked
  rw [htickets]
  exact h

/-- The ticket of a document. -/
theorem getElem?_tickets {i : Nat} {doc : Document} (hget : p.openDocuments[i]? = some doc) :
    (tickets p)[i]? = some (.ofDocument doc) := by
  unfold tickets
  rw [List.getElem?_map, hget, Option.map_some]

/-- A new tab waits for the read that is asked for now. -/
theorem Tracked.requestOpen (h : Tracked p reads) (fileAvailable : Bool) (path : QString)
    (size : Nat)
    (hlate : OpensNotLate ⟨p, reads⟩ (.tabs (.requestOpen fileAvailable path size))) :
    Tracked (p.requestOpen fileAvailable path size)
      (reads ++ newReads p (p.requestOpen fileAvailable path size)) := by
  obtain hquiet | ⟨havailable, hpath, hsize, hnew, r, hquiet, heq⟩ :=
    p.requestOpen_cases fileAvailable path size
  · rw [newReads_of_asksNothing hquiet.calls, List.append_nil]
    exact h.quiet hquiet
  · have hread : newReads p (r.call (.openPath path)) = [{ tab := p.nextTab, path := path }] :=
      newReads_call (p := p) hquiet.calls (.openPath path)
    rw [heq, hread]
    have hpushed : Tracked ((p.unignoreOpenPath path).pushLoading path)
        (reads ++ [{ tab := p.nextTab, path := path }]) := by
      have htickets : tickets ((p.unignoreOpenPath path).pushLoading path)
          = tickets p ++ [{ tab := p.nextTab, path := path, loading := true }] := by
        show (p.openDocuments ++ [_]).map Ticket.ofDocument = _
        rw [List.map_append]
        rfl
      unfold Tracked
      rw [htickets]
      apply Outstanding.push h hpath
      · intro t ht
        obtain ⟨doc, hdoc, rfl⟩ := List.mem_map.mp ht
        exact hnew doc hdoc
      · intro read hread hislate
        apply hlate havailable hsize read hread
        intro doc hdoc
        exact hislate _ (List.mem_map_of_mem hdoc)
    have hshown : Tracked r _ := hpushed.quiet hquiet
    exact hshown

/-- A tab that waits leaves its path to be ignored. -/
theorem ignoredAfterClose_spec (p : CodeEditorPane) (doc : Document) :
    p.ignoredOpenPaths ⊆ p.ignoredAfterClose doc
      ∧ (doc.loading = true → doc.path ≠ [] → doc.path ∈ p.ignoredAfterClose doc) := by
  unfold ignoredAfterClose CodeEditorPane.ignoreOpenPath
  split
  · next hloading =>
    split
    · next hskip =>
      refine ⟨List.Subset.refl _, fun _ hne => ?_⟩
      exact List.contains_iff_mem.mp (hskip.resolve_left hne)
    · refine ⟨List.subset_append_left _ _, fun _ _ => ?_⟩
      exact List.mem_append_right _ (List.mem_singleton.mpr rfl)
  · next hnot => exact ⟨List.Subset.refl _, fun hloading => absurd hloading hnot⟩

/-- The read of the tab will be dropped. -/
theorem Tracked.closeDocument (h : Tracked p reads) (index : Int) :
    Tracked (p.closeDocument index) (reads ++ newReads p (p.closeDocument index)) := by
  obtain hquiet | ⟨i, old, hget, _, hquiet⟩ := p.closeDocument_cases index
  · rw [newReads_of_asksNothing hquiet.calls, List.append_nil]
    exact h.quiet hquiet
  · have hnone : newReads p (p.closeDocument index) = [] := newReads_of_asksNothing hquiet.calls
    rw [hnone, List.append_nil]
    obtain ⟨hsub, hadded⟩ := ignoredAfterClose_spec p old
    have hclosed : Tracked { p with
        openDocuments := p.openDocuments.eraseIdx i
        ignoredOpenPaths := p.ignoredAfterClose old } reads := by
      have htickets : tickets { p with
          openDocuments := p.openDocuments.eraseIdx i
          ignoredOpenPaths := p.ignoredAfterClose old } = (tickets p).eraseIdx i :=
        (List.eraseIdx_map _ _ _).symm
      unfold Tracked
      rw [htickets]
      exact Outstanding.close h (getElem?_tickets hget) hsub hadded
    exact hclosed.quiet hquiet

/-- The read of the tab, if it goes, will be dropped. -/
theorem Tracked.requestCloseDocument (h : Tracked p reads) (index : Int) :
    Tracked (p.requestCloseDocument index) (reads ++ newReads p (p.requestCloseDocument index)) := by
  obtain hquiet | heq := p.requestClose_cases index
  · rw [newReads_of_asksNothing hquiet.calls, List.append_nil]
    exact h.quiet hquiet
  · rw [heq]
    exact h.closeDocument index

/-- A save asks for no read. -/
theorem Tracked.saveCurrent (h : Tracked p reads) (hrange : p.InRange)
    (connected fileAvailable : Bool) :
    Tracked (p.saveCurrent connected fileAvailable)
      (reads ++ newReads p (p.saveCurrent connected fileAvailable)) := by
  obtain heq | ⟨_, _, doc, new, hdoc, _, _, _, hmark, r, hquiet, heq⟩ :=
    saveCurrent_cases hrange connected fileAvailable
  · rw [heq, newReads_of_asksNothing (Quiet.refl p).calls, List.append_nil]
    exact h
  · obtain ⟨_, hget⟩ := p.documentAt?_eq_some.mp hdoc
    have hnone : newReads p (r.call (.saveEditorPath doc.path p.editorText)) = [] :=
      newReads_call (p := p) hquiet.calls _
    rw [heq, hnone, List.append_nil]
    have hticket : Ticket.ofDocument new = .ofDocument doc :=
      congrArg (fun m : Mark => { tab := m.tab, path := m.path, loading := m.loading : Ticket }) hmark
    have hsaved : Tracked r reads := (h.set hget hticket).quiet hquiet
    exact hsaved

/-- The end of a save asks for no read. -/
theorem Tracked.finishSave (h : Tracked p reads) (path : QString) (modified : Bool) :
    Tracked (p.finishSave path modified) (reads ++ newReads p (p.finishSave path modified)) := by
  obtain ⟨_, hquiet⟩ | ⟨i, old, new, hget, _, _, hmark, hquiet⟩ := p.finishSave_cases path modified
  · rw [newReads_of_asksNothing hquiet.calls, List.append_nil]
    exact h.quiet hquiet
  · have hnone : newReads p (p.finishSave path modified) = [] := newReads_of_asksNothing hquiet.calls
    rw [hnone, List.append_nil]
    have hticket : Ticket.ofDocument new = .ofDocument old :=
      congrArg (fun m : Mark => { tab := m.tab, path := m.path, loading := m.loading : Ticket }) hmark
    exact (h.set hget hticket).quiet hquiet

/-- What leaves the marks asks for no read. -/
theorem Tracked.quietly (h : Tracked p reads) (hquiet : Quiet p q) :
    Tracked q (reads ++ newReads p q) := by
  rw [newReads_of_asksNothing hquiet.calls, List.append_nil]
  exact h.quiet hquiet

/-- **One step of the tabs** keeps it. -/
theorem Tracked.tabs {l : CodeEditorPane.Label} (h : Tracked p reads) (hp : Coherent p)
    (hlate : OpensNotLate ⟨p, reads⟩ (.tabs l)) (hof : l.ofTabs = true)
    (hstep : p.step l = some q) : Tracked q (reads ++ newReads p q) := by
  cases l with
  | signal signal =>
    obtain rfl := Option.some.inj hstep
    have hanswered : Tracked (p.answered signal) reads := h
    cases signal with
    | changed isOpen busy => exact hanswered.quietly (quiet_onChanged _ isOpen busy)
    | saveSucceeded path => exact hanswered.finishSave path false
    | saveFailed path message => exact hanswered.finishSave path true
    -- signals that answer a read or change a path are none of the tabs' own
    | contentLoaded path text => cases hof
    | pathClosed path => cases hof
    | pathRemoved path recursive => cases hof
    | pathMoved fromPath toPath => cases hof
    | openFailed path message => cases hof
  | requestOpen fileAvailable path size =>
    obtain rfl := Option.some.inj hstep
    exact h.requestOpen fileAvailable path size hlate
  | setActive index =>
    obtain rfl := Option.some.inj hstep
    exact h.quietly (quiet_setActiveDocument p index)
  | requestClose index =>
    obtain rfl := Option.some.inj hstep
    exact h.requestCloseDocument index
  | acceptClose =>
    obtain ⟨_, hclosed⟩ := Option.ite_none_right_eq_some.mp hstep
    obtain rfl := Option.some.inj hclosed
    exact h.closeDocument p.closeFileDialog.index
  | rejectClose =>
    obtain ⟨_, hclosed⟩ := Option.ite_none_right_eq_some.mp hstep
    obtain rfl := Option.some.inj hclosed
    exact h.quietly (quiet_of_same rfl rfl rfl rfl)
  | edit text cursor =>
    obtain ⟨henabled, hedited⟩ := Option.ite_none_right_eq_some.mp hstep
    obtain rfl := Option.some.inj hedited
    exact h.quietly (p.edit_cases text cursor henabled)
  | moveCursor cursor =>
    obtain rfl := Option.some.inj hstep
    exact h.quietly (quiet_of_same rfl rfl rfl rfl)
  | save connected fileAvailable =>
    obtain rfl := Option.some.inj hstep
    exact h.saveCurrent hp.inRange connected fileAvailable

/-! ## §4. Results. -/

variable {read : OpenRead}

/-- The paths that are ignored. -/
theorem mem_ignored_iff {path : QString} :
    p.isIgnoredOpenPath path = true ↔ path ∈ p.ignoredOpenPaths := List.contains_iff_mem

/-- The oldest read has its tab, unless it is ignored. -/
theorem Tracked.exists_document (h : Tracked p (read :: reads))
    (hnot : p.isIgnoredOpenPath read.path = false) : ∃ doc ∈ p.openDocuments, doc.path = read.path := by
  have hout : read.path ∉ p.ignoredOpenPaths := by
    rw [← mem_ignored_iff, hnot]
    exact Bool.false_ne_true
  obtain ⟨t, ht, hpath⟩ := Outstanding.exists_ticket h hout
  obtain ⟨doc, hdoc, rfl⟩ := List.mem_map.mp ht
  exact ⟨doc, hdoc, hpath⟩

/-- The oldest read comes. -/
theorem Tracked.loaded (h : Tracked p (read :: reads)) (text : QString) :
    Tracked (p.upsertLoadedDocument read.path text) reads := by
  obtain ⟨_, hquiet⟩ | ⟨hnot, i, old, hget, hpath, _, hquiet⟩ | ⟨hnot, hnone, _⟩ :=
    p.upsert_cases read.path text
  · have hdropped : Tracked (p.unignoreOpenPath read.path) reads := Outstanding.drop h
    exact hdropped.quiet hquiet
  · have hout : read.path ∉ p.ignoredOpenPaths := by
      rw [← mem_ignored_iff, hnot]
      exact Bool.false_ne_true
    have hloaded : Tracked { p with
        openDocuments := p.openDocuments.set i (makeDocument old.tab read.path text false false) }
        reads := by
      have htickets : tickets { p with
          openDocuments := p.openDocuments.set i (makeDocument old.tab read.path text false false) }
          = (tickets p).set i { tab := old.tab, path := read.path, loading := false } :=
        List.map_set
      unfold Tracked
      rw [htickets]
      exact Outstanding.load h hout (getElem?_tickets hget) hpath
    exact hloaded.quiet hquiet
  · obtain ⟨doc, hdoc, hpath⟩ := h.exists_document hnot
    exact absurd hpath (hnone doc hdoc)

/-- The oldest read fails. -/
theorem Tracked.failed (h : Tracked p (read :: reads)) :
    Tracked (p.handleOpenFailed read.path) reads := by
  obtain ⟨_, hquiet⟩ | ⟨hnot, i, old, hget, hpath, _, hquiet⟩ | ⟨hnot, hnone, _⟩ :=
    p.openFailed_cases read.path
  · have hdropped : Tracked (p.unignoreOpenPath read.path) reads := Outstanding.drop h
    exact hdropped.quiet hquiet
  · have hout : read.path ∉ p.ignoredOpenPaths := by
      rw [← mem_ignored_iff, hnot]
      exact Bool.false_ne_true
    have hcut : Tracked { p with openDocuments := p.openDocuments.eraseIdx i } reads := by
      have htickets : tickets { p with openDocuments := p.openDocuments.eraseIdx i }
          = (tickets p).eraseIdx i := (List.eraseIdx_map _ _ _).symm
      unfold Tracked
      rw [htickets]
      exact Outstanding.fail h hout (getElem?_tickets hget) hpath
    exact hcut.quiet hquiet
  · obtain ⟨doc, hdoc, hpath⟩ := h.exists_document hnot
    exact absurd hpath (hnone doc hdoc)

end

/-- The result of a late read is dropped. -/
theorem late_dropped {p : CodeEditorPane} {reads : List OpenRead} {read : OpenRead}
    (h : Tracked p (read :: reads)) (hlate : Late ⟨p, read :: reads⟩ read) (result : ReadResult) :
    ((p.answered (result.signal read.path)).onSignal (result.signal read.path)).openDocuments
      = p.openDocuments := by
  have hignored : p.isIgnoredOpenPath read.path = true := by
    apply mem_ignored_iff.mpr
    refine (Outstanding.late h read List.mem_cons_self ?_).1
    intro t ht
    obtain ⟨doc, hdoc, rfl⟩ := List.mem_map.mp ht
    exact hlate doc hdoc
  cases result with
  | loaded text => exact openDocuments_upsert_ignored (p := p.answered _) text hignored
  | failed message => exact openDocuments_openFailed_ignored (p := p.answered _) hignored

/-! ## §5. Runs. -/

/-- The pane is coherent, and its reads are tracked. -/
def Sound (s : Reading) : Prop := Coherent s.pane ∧ Tracked s.pane s.reads

/-- No tab, and no read on its way. -/
theorem sound_initial : Sound initial := ⟨coherent_initial, outstanding_nil⟩

/-- **One step** keeps it, if no path is opened whose late read is still to be dropped. -/
theorem Sound.step {s t : Reading} {l : Label} (h : Sound s) (hlate : s.OpensNotLate l)
    (hstep : s.step l = some t) : Sound t := by
  obtain ⟨hp, htracked⟩ := h
  cases l with
  | tabs l =>
    obtain ⟨hof, hrest⟩ := Option.ite_none_right_eq_some.mp hstep
    obtain ⟨q, hq, rfl⟩ := Option.map_eq_some_iff.mp hrest
    exact ⟨coherent_step hp hq, htracked.tabs hp hlate hof hq⟩
  | answered result =>
    obtain ⟨p, reads⟩ := s
    cases reads with
    | nil => cases hstep
    | cons read reads =>
      obtain rfl := Option.some.inj hstep
      have hsignal : p.step (.signal (result.signal read.path)) = some _ := rfl
      refine ⟨coherent_step hp hsignal, ?_⟩
      have hanswered : Tracked (p.answered (result.signal read.path)) (read :: reads) := htracked
      cases result with
      | loaded text => exact hanswered.loaded text
      | failed message => exact hanswered.failed

/-- Then a read without a tab is dropped. -/
theorem Sound.dropped {s : Reading} {l : Label} (h : Sound s) : s.LateReadDropped l := by
  cases l with
  | tabs l => trivial
  | answered result =>
    obtain ⟨p, reads⟩ := s
    intro read hread hlate t hstep
    cases reads with
    | nil => cases hstep
    | cons first reads =>
      obtain rfl := Option.some.inj hread
      obtain rfl := Option.some.inj hstep
      exact late_dropped h.2 hlate result

/-- **A closed tab stays closed.**  In a run in which no path is opened while a late read of it is
to be answered, the result of a late read changes no document. -/
theorem late_reads_dropped (labels : List Label) (h : Along step OpensNotLate initial labels) :
    Along step LateReadDropped initial labels :=
  along_of_invariant (I := Sound) (fun _ _ hs _ => hs.dropped)
    (fun _ _ _ hs hlate hstep => hs.step hlate hstep) sound_initial h

/-- A file is opened, closed while it is read, and opened again after its read was answered. -/
def reopenedAfterRun : List Label :=
  [.tabs (.requestOpen true (lit "/home/a") 4), .tabs (.requestOpen true (lit "/home/b") 4),
    .tabs (.requestClose 0), .answered (.loaded (lit "one")),
    .tabs (.requestOpen true (lit "/home/a") 4), .answered (.loaded (lit "two")),
    .answered (.loaded (lit "new"))]

theorem late_reads_dropped_reopenedAfter :
    Along step OpensNotLate initial reopenedAfterRun
      ∧ Along step LateReadDropped initial reopenedAfterRun :=
  ⟨by decide, late_reads_dropped reopenedAfterRun (by decide)⟩

/-- The file is opened again before that. -/
def reopenedBeforeRun : List Label :=
  [.tabs (.requestOpen true (lit "/home/a") 4), .tabs (.requestClose 0),
    .tabs (.requestOpen true (lit "/home/a") 4)]

/-- The failure of the first read takes the second tab away. -/
theorem reopened_over_late_read :
    ¬ Along step LateReadDropped initial (reopenedBeforeRun ++ [.answered (.failed [])]) := by
  intro h
  obtain ⟨s, hrun⟩ : ∃ s, exec step initial reopenedBeforeRun = some s :=
    Option.isSome_iff_exists.mp (by decide)
  have hview : (exec step initial reopenedBeforeRun).map (fun s =>
      (s.reads.head?, s.reads.head?.all (fun read => decide (s.Late read)),
        s.pane.openDocuments.length,
        (s.step (.answered (.failed []))).map fun t => t.pane.openDocuments.length))
      = some (some { tab := 0, path := lit "/home/a" }, true, 1, some 0) := by decide
  rw [hrun, Option.map_some, Option.some.injEq, Prod.mk.injEq, Prod.mk.injEq, Prod.mk.injEq] at hview
  obtain ⟨hhead, hlate, hlength, hafter⟩ := hview
  obtain ⟨t, ht, htlength⟩ := Option.map_eq_some_iff.mp hafter
  rw [hhead, Option.all_some] at hlate
  have hdropped := (along_cons.mp (h.suffix hrun)).1 _ (Option.mem_def.mpr hhead)
    (of_decide_eq_true hlate) t ht
  rw [hdropped, hlength] at htlength
  exact absurd htlength (by decide)

end Reading

end ResearchSSH.App
