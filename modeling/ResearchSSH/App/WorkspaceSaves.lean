/-
  ResearchSSH.App.WorkspaceSaves — to which session a document is saved.

  A session that is torn down leaves the modified documents open, and marks them as missing; a
  document so marked is not saved.  A move takes the mark away from every document at its path,
  and paths are alike on different servers.

  Main results:
    * `Owned` and `Owned.step` — what is not marked was loaded from the live session.
    * `saves_home` — in a run in which replies bring home nothing of another session, every save
      goes to the session that the document was loaded from.
    * `renamed_elsewhere_saved` — a document of one server is renamed on another and saved there.
-/

import ResearchSSH.App.Workspace

namespace ResearchSSH.App

open ResearchSSH.Core ResearchSSH.Library

/-! ## §1. Saves and replies. -/

/-- The result is the content of a file. -/
def FsPayload.isContent : FsPayload → Bool
  | .content _ => true
  | _ => false

namespace Workspace

open CodeEditorPane AppController

/-- A save that makes a request through the session writes a document that was loaded from it. -/
def SavesHome (s : Workspace) : Label → Prop
  | .pane (.save connected fileAvailable) =>
    ∀ t, s.step (.pane (.save connected fileAvailable)) = some t →
      t.controller.session ≠ s.controller.session →
        ∃ doc handle, s.pane.activeDocument? = some doc ∧ s.controller.live = some handle
          ∧ s.origins doc.tab = some handle
  | _ => True

/-- A text that is put into a document comes from the live session. -/
def LoadsHome (s : Workspace) (reply : Reply) : Prop :=
  reply.pending.kind = .editorOpen → reply.result.payload.isContent = true →
    reply.pending.path ∉ s.pane.ignoredOpenPaths → s.controller.live = some reply.session

/-- A move finds no missing document again that does not come from the live session. -/
def MovesHome (s : Workspace) (reply : Reply) : Prop :=
  reply.pending.mutation = .moveLike → reply.result.payload = .ok →
    ∀ doc ∈ s.pane.openDocuments, pathMatches doc.path reply.pending.path true = true →
      doc.remoteMissing = true → s.origins doc.tab = s.controller.live

instance (s : Workspace) (reply : Reply) : Decidable (s.LoadsHome reply) :=
  inferInstanceAs (Decidable (_ → _ → _ → _))

instance (s : Workspace) (reply : Reply) : Decidable (s.MovesHome reply) :=
  inferInstanceAs (Decidable (_ → _ → ∀ doc ∈ s.pane.openDocuments, _ → _ → _))

/-- No reply brings home anything of another session. -/
def BringsHome (s : Workspace) : Label → Prop
  | .deliver => ∀ reply ∈ s.reply?, s.LoadsHome reply ∧ s.MovesHome reply
  | _ => True

instance (s : Workspace) : ∀ l, Decidable (s.BringsHome l)
  | .deliver =>
    inferInstanceAs (Decidable (∀ reply ∈ s.reply?, s.LoadsHome reply ∧ s.MovesHome reply))
  | .user _ | .pane _ | .calls _ | .driverStops => inferInstanceAs (Decidable True)

/-! ## §2. What is not missing. -/

/-- A document that neither waits for its text nor is missing was loaded from the live session. -/
def OwnedMarks (live : Option Nat) (origins : Nat → Option Nat) (marks : List Mark) : Prop :=
  ∀ m ∈ marks, m.loading = false → m.remoteMissing = false →
    ∃ handle, live = some handle ∧ origins m.tab = some handle

/-- The tabs that are loaded and not missing belong to the live session. -/
def Owned (s : Workspace) : Prop := OwnedMarks s.controller.live s.origins s.pane.marks

section
variable {s t : Workspace} {live : Option Nat} {origins : Nat → Option Nat}
  {before after : List Mark}

/-- Marks that fade are owned still. -/
theorem OwnedMarks.faded (h : OwnedMarks live origins before) (hfaded : Faded before after) :
    OwnedMarks live origins after := by
  intro m' hm' hloading hmissing
  obtain ⟨m, hm, hfades⟩ := hfaded m' hm'
  obtain ⟨hloading, hmissing⟩ := hfades.missing hloading hmissing
  rw [hfades.tab]
  exact h m hm hloading hmissing

/-- News that only takes marks away. -/
theorem OwnedMarks.heard {p : CodeEditorPane} {sender : Option Nat} {signal : EditorSignal}
    (h : OwnedMarks live origins p.marks) (hheard : t.HasHeard p origins sender signal)
    (hloaded : ∀ path text, signal ≠ .contentLoaded path text)
    (hmoved : ∀ fromPath toPath, signal ≠ .pathMoved fromPath toPath) :
    OwnedMarks live t.origins t.pane.marks := by
  obtain ⟨p', halike, _, hafter, horigins⟩ := hheard
  have hsame : originsAfter p' origins sender signal = origins := by
    cases signal with
    | contentLoaded path text => exact absurd rfl (hloaded path text)
    | _ => rfl
  rw [horigins, hsame, hafter.marks]
  rw [← halike.marks] at h
  exact h.faded (p'.faded_onSignal hloaded hmoved)

/-- A loaded text of the live session. -/
theorem OwnedMarks.loaded {p : CodeEditorPane} {session : Nat} {path text : QString}
    (h : OwnedMarks live origins p.marks)
    (hhome : path ∉ p.ignoredOpenPaths → live = some session)
    (hheard : t.HasHeard p origins (some session) (.contentLoaded path text)) :
    OwnedMarks live t.origins t.pane.marks := by
  obtain ⟨p', halike, hp', hafter, horigins⟩ := hheard
  rw [horigins, hafter.marks]
  rw [← halike.marks] at h
  rw [← halike.ignored] at hhome
  show OwnedMarks live (if p'.isIgnoredOpenPath path then origins
    else Function.update origins (p'.loadedTab path) (some session))
    (p'.upsertLoadedDocument path text).marks
  obtain ⟨hignored, hmarks⟩ | ⟨hwanted, hmarks⟩ := mem_marks_upsert hp' path text
  · have hdropped : p'.isIgnoredOpenPath path = true := List.contains_iff_mem.mpr hignored
    rw [if_pos hdropped, hmarks]
    exact h
  · have htaken : ¬ p'.isIgnoredOpenPath path = true := fun hyes =>
      hwanted (List.contains_iff_mem.mp hyes)
    rw [if_neg htaken]
    intro m' hm' hloading hmissing
    obtain ⟨htab, _⟩ | ⟨hold, hother⟩ := hmarks m' hm'
    · refine ⟨session, hhome hwanted, ?_⟩
      rw [htab, Function.update_self]
    · rw [Function.update_of_ne hother]
      exact h m' hold hloading hmissing

/-- A move that finds nothing of another session again. -/
theorem OwnedMarks.moved {p : CodeEditorPane} {sender : Option Nat} {fromPath toPath : QString}
    (h : OwnedMarks live origins p.marks) (hlive : live.isSome = true)
    (hhome : ∀ m ∈ p.marks, pathMatches m.path fromPath true = true → m.remoteMissing = true →
      origins m.tab = live)
    (hheard : t.HasHeard p origins sender (.pathMoved fromPath toPath)) :
    OwnedMarks live t.origins t.pane.marks := by
  rw [hheard.marks_moved]
  obtain ⟨_, _, _, _, horigins⟩ := hheard
  rw [horigins]
  show OwnedMarks live origins (p.marks.map (Mark.moved fromPath toPath))
  intro m' hm' hloading hmissing
  obtain ⟨m, hm, rfl⟩ := List.mem_map.mp hm'
  unfold Mark.moved at hloading hmissing ⊢
  split at hloading
  · next hmatch =>
    rw [if_pos hmatch] at hmissing ⊢
    -- the one the move finds again keeps its tab
    show ∃ handle, live = some handle ∧ origins m.tab = some handle
    cases hwas : m.remoteMissing with
    | true =>
      obtain ⟨handle, hhandle⟩ := Option.isSome_iff_exists.mp hlive
      exact ⟨handle, hhandle, (hhome m hm hmatch hwas).trans hhandle⟩
    | false => exact h m hm hloading hwas
  · next hmatch =>
    rw [if_neg hmatch] at hmissing ⊢
    exact h m hm hloading hmissing

/-- A document that is saved keeps its tab and is as little missing as it was. -/
theorem OwnedMarks.set {i : Nat} {m m' : Mark} (h : OwnedMarks live origins before)
    (hget : before[i]? = some m) (htab : m'.tab = m.tab) (hloading : m'.loading = m.loading)
    (hmissing : m'.remoteMissing = m.remoteMissing) :
    OwnedMarks live origins (before.set i m') := by
  intro a ha haloading hamissing
  obtain ha | rfl := List.mem_or_eq_of_mem_set ha
  · exact h a ha haloading hamissing
  · rw [htab]
    exact h m (List.mem_of_getElem? hget) (hloading ▸ haloading) (hmissing ▸ hamissing)

/-- A request of the pane: whatever comes of it, no document is found again. -/
theorem OwnedMarks.asked {q : CodeEditorPane} {entry : PendingFs}
    {refusal : QString → EditorSignal} (h : OwnedMarks s.controller.live s.origins q.marks)
    (hasked : s.Asked q entry refusal t)
    (hloaded : ∀ message path text, refusal message ≠ .contentLoaded path text)
    (hmoved : ∀ message fromPath toPath, refusal message ≠ .pathMoved fromPath toPath) :
    Owned t := by
  have hlive : ∀ d : Desk, t.DeskIs d → d.live = s.controller.live →
      t.controller.live = s.controller.live := by
    rintro d ⟨e, hdesk⟩ hd
    exact (congrArg Desk.live hdesk).trans hd
  unfold Owned
  cases hasked with
  | ignored _ hdesk hquiet horigins =>
    rw [hlive _ hdesk rfl, horigins, hquiet.marks]
    exact h
  | taken _ _ hdesk hquiet horigins =>
    rw [hlive _ hdesk rfl, horigins, hquiet.marks]
    exact h
  | refused k message _ hdesk hheard =>
    rw [hlive _ hdesk rfl]
    exact h.heard hheard (hloaded message) (hmoved message)

/-! ## §3. Steps. -/

/-- A result of the live session. -/
theorem Owned.answered {reply : Reply} {news : List EditorSignal} (h : Owned s)
    (hs : Settled s) (hhome : s.LoadsHome reply ∧ s.MovesHome reply)
    (hreplied : s.Replied reply news t) : Owned t := by
  have hlive : t.controller.live = s.controller.live := hreplied.asks.live
  have hheard := hreplied.heard
  unfold Owned at h ⊢
  rw [hlive]
  cases hreplied.answer with
  | silent _ =>
    obtain ⟨halike, horigins⟩ := hreplied.silent rfl
    rw [horigins, halike.marks]
    exact h
  | loaded data hkind hpayload =>
    refine h.loaded (hhome.1 hkind ?_) (hheard _ rfl)
    rw [hpayload]
    rfl
  | openFailed message _ => exact h.heard (hheard _ rfl) nofun nofun
  | saved ok message _ =>
    refine h.heard (hheard _ rfl) ?_ ?_
    · cases ok <;> exact nofun
    · cases ok <;> exact nofun
  | removed _ => exact h.heard (hheard _ rfl) nofun nofun
  | moved _ hmutation hpayload _ =>
    refine h.moved (live_of_pending hs.desk hreplied.pending) ?_ (hheard _ rfl)
    intro m hm hmatch hmissing
    obtain ⟨doc, hdoc, rfl⟩ := List.mem_map.mp hm
    exact hhome.2 hmutation hpayload doc hdoc hmatch hmissing

/-- **One step** keeps it, if reads and moves come home. -/
theorem Owned.step {l : Label} (h : Owned s) (hs : Settled s) (hhome : s.BringsHome l)
    (hstep : s.step l = some t) : Owned t := by
  cases hs.outcome hstep with
  | quiet hasks halike horigins =>
    unfold Owned
    rw [show t.controller.live = s.controller.live from hasks.live, horigins, halike.marks]
    exact h
  | begun hbegun halike _ =>
    -- without a session every document waited or was missing
    intro m hm hloading hmissing
    rw [halike.marks] at hm
    obtain ⟨handle, hlive, _⟩ := h m hm hloading hmissing
    exact absurd (hbegun.idle.symm.trans hlive) (Option.some_ne_none handle).symm
  | cleared sender _ _ hheard =>
    obtain ⟨p', _, _, hafter, _⟩ := hheard
    intro m hm _ hmissing
    rw [hafter.marks] at hm
    rw [(mem_marks_removedAll hm).2.2] at hmissing
    exact absurd hmissing.symm Bool.false_ne_true
  | closed i old _ hdesk halike horigins =>
    obtain ⟨e, hdesk⟩ := hdesk
    unfold Owned
    rw [show t.controller.live = s.controller.live from congrArg Desk.live hdesk, horigins,
      halike.marks]
    apply OwnedMarks.faded h
    apply faded_of_subset
    show (s.pane.openDocuments.eraseIdx i).map Document.mark ⊆ _
    exact ((List.eraseIdx_sublist _ i).map _).subset
  | opened _ path _ _ _ _ _ hasked =>
    refine OwnedMarks.asked ?_ hasked nofun nofun
    intro m hm hloading hmissing
    change m ∈ (s.pane.openDocuments ++ [_]).map Document.mark at hm
    rw [List.map_append, List.mem_append, List.map_singleton, List.mem_singleton] at hm
    obtain hm | rfl := hm
    · exact h m hm hloading hmissing
    · exact absurd hloading.symm Bool.false_ne_true
  | saved _ _ doc new _ _ _ hdoc _ _ _ hmark hasked =>
    refine OwnedMarks.asked ?_ hasked nofun nofun
    obtain ⟨_, hget⟩ := s.pane.documentAt?_eq_some.mp hdoc
    rw [marks_set, hmark]
    exact OwnedMarks.set h (getElem?_marks hget) rfl rfl rfl
  | answered reply news hreply hreplied => exact h.answered hs (hhome reply hreply) hreplied

/-- Then every save goes home. -/
theorem Owned.savesHome (h : Owned s) (hs : Settled s) (l : Label) : s.SavesHome l := by
  cases l with
  | pane l =>
    cases l with
    | save connected fileAvailable =>
      intro t hstep hused
      obtain ⟨_, hacted⟩ := Option.ite_none_right_eq_some.mp hstep
      obtain ⟨q, hq, rfl⟩ := Option.map_eq_some_iff.mp hacted
      obtain rfl := Option.some.inj hq
      obtain heq | ⟨_, _, doc, _, hdoc, hloading, _, hmissing, _⟩ :=
        saveCurrent_cases hs.pane.inRange connected fileAvailable
      · -- nothing was saved, and the session was not asked for anything
        rw [heq] at hused
        obtain ⟨e, q', hact, _⟩ := hushed_act hs.pane (Quiet.refl s.pane).calls
        rw [hact] at hused
        exact absurd rfl hused
      · have hmem : doc.mark ∈ s.pane.marks :=
          List.mem_of_getElem? (getElem?_marks (s.pane.documentAt?_eq_some.mp hdoc).2)
        obtain ⟨handle, hlive, horigin⟩ := h doc.mark hmem hloading hmissing
        exact ⟨doc, handle, hdoc, hlive, horigin⟩
    | _ => trivial
  | _ => trivial

end

/-! ## §4. Runs. -/

/-- **A document is saved where it was loaded.**  In a run in which no reply brings home anything
of another session, every save goes to the session that the document was loaded from. -/
theorem saves_home (servers : List ServerItem) (credentials : QString → Option (List UInt8))
    (labels : List Label) (h : Along step BringsHome (initial servers credentials) labels) :
    Along step SavesHome (initial servers credentials) labels := by
  refine along_of_invariant (I := fun s => Settled s ∧ Owned s) ?_ ?_
    ⟨settled_initial servers credentials, fun _ hm => absurd hm List.not_mem_nil⟩ h
  · intro s l hs _
    exact hs.2.savesHome hs.1 l
  · intro s l t hs hhome hstep
    exact ⟨hs.1.step hstep, hs.2.step hs.1 hhome hstep⟩

/-- On the first server a file is opened and edited. -/
def editedRun : List Label :=
  connected 0 ++ [.pane (.requestOpen true (lit "/h/f") 1),
    .calls (.files [{ requestId := 2, payload := .content [0x61] }]), .deliver,
    .pane (.edit (lit "b") 1)]

/-- The document is saved, the server is switched, and on the other one a file is renamed that
has not been open. -/
def renamedOtherRun : List Label :=
  editedRun ++ [.pane (.save true true)] ++ connected 1
    ++ [.user (.renamePath (lit "/h/x") (lit "g")),
      .calls (.files [{ requestId := 2, payload := .ok }]), .deliver, .pane (.save true true)]

theorem saves_home_renamedOther :
    Along step BringsHome twoServers renamedOtherRun
      ∧ Along step SavesHome twoServers renamedOtherRun :=
  ⟨by decide, saves_home _ _ _ (by decide)⟩

/-- Instead, a file with the path of the document is renamed there. -/
def renamedElsewhereRun : List Label :=
  editedRun ++ connected 1 ++ [.user (.renamePath (lit "/h/f") (lit "g")),
    .calls (.files [{ requestId := 2, payload := .ok }]), .deliver]

/-- The text of the first server is written to the second one. -/
theorem renamed_elsewhere_saved :
    ¬ Along step SavesHome twoServers (renamedElsewhereRun ++ [.pane (.save true true)]) := by
  intro h
  obtain ⟨s, hrun⟩ : ∃ s, exec step twoServers renamedElsewhereRun = some s :=
    Option.isSome_iff_exists.mp (by decide)
  have hview : (exec step twoServers renamedElsewhereRun).map (fun s =>
      (s.pane.activeDocument?.map fun doc => s.origins doc.tab, s.controller.live,
        (s.step (.pane (.save true true))).map fun t =>
          decide (t.controller.session ≠ s.controller.session)))
      = some (some (some 0), some 1, some true) := by decide
  rw [hrun, Option.map_some, Option.some.injEq, Prod.mk.injEq, Prod.mk.injEq] at hview
  obtain ⟨horigin, hlive, hwrites⟩ := hview
  obtain ⟨t, ht, hused⟩ := Option.map_eq_some_iff.mp hwrites
  obtain ⟨doc, handle, hdoc, hhandle, hsame⟩ :=
    (along_cons.mp (h.suffix hrun)).1 t ht (of_decide_eq_true hused)
  rw [hdoc, Option.map_some, hsame, ← hhandle, hlive] at horigin
  exact absurd horigin (by decide)

end Workspace

end ResearchSSH.App
