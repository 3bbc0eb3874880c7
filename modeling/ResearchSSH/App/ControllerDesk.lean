/-
  ResearchSSH.App.ControllerDesk — what the controller has under way for the editor.

  The desk of a controller is its session and the ids it gives out, the editor, and the file
  requests that wait for their results.  Most functions only put requests of their own on it
  (`Desk.Asks`).  A lost or destroyed session clears it and tells the editor that everything is
  gone (`Desk.Cleared`).  Opening, saving, and the results of both are the rest.

  Main results:
    * `UiAction.desk_run`, `replaces_ingestRustEvent` — actions outside the editor, and events.
    * `openPath_outcome`, `saveEditorPath_outcome` — the two requests of the editor.
    * `ingestFileResult_outcome` — a result takes its request away and tells the editor its news.
-/

import ResearchSSH.App.ServerActions

namespace ResearchSSH.App

open ResearchSSH.Core

/-! ## §1. News of the editor. -/

/-- Everything but a signal that only makes QML read a property again. -/
def EditorSignal.isNews : EditorSignal → Bool
  | .changed _ _ => false
  | _ => true

/-- From `e` to `e'` the editor has told this news, in this order. -/
def EditorViewModel.Tells (news : List EditorSignal) (e e' : EditorViewModel) : Prop :=
  ∃ more, e'.emitted = e.emitted ++ more ∧ more.filter EditorSignal.isNews = news

namespace EditorViewModel

variable {e e' e'' : EditorViewModel} {news news' : List EditorSignal}

theorem tells_refl (e : EditorViewModel) : Tells [] e e := ⟨[], (List.append_nil _).symm, rfl⟩

/-- One after the other. -/
theorem Tells.trans (h : Tells news e e') (h' : Tells news' e' e'') :
    Tells (news ++ news') e e'' := by
  obtain ⟨more, hemitted, hmore⟩ := h
  obtain ⟨more', hemitted', hmore'⟩ := h'
  refine ⟨more ++ more', ?_, ?_⟩
  · rw [hemitted', hemitted, List.append_assoc]
  · rw [List.filter_append, hmore, hmore']

/-- A signal that is news is told. -/
theorem tells_emit (e : EditorViewModel) {signal : EditorSignal} (h : signal.isNews = true) :
    Tells [signal] e (e.emit signal) :=
  ⟨[signal], rfl, List.filter_cons_of_pos h⟩

theorem tells_emitChanged (e : EditorViewModel) : Tells [] e e.emitChanged := ⟨[_], rfl, rfl⟩

theorem tells_beginOpen (e : EditorViewModel) (path : QString) : Tells [] e (e.beginOpen path) :=
  ⟨[_], rfl, rfl⟩

theorem tells_failOpen (e : EditorViewModel) (path message : QString) :
    Tells [.openFailed path message] e (e.failOpen path message) := by
  unfold failOpen
  split
  · exact (tells_emitChanged { e with busy := false }).trans (tells_emit _ rfl)
  · exact e.tells_emit rfl

theorem tells_setContent (e : EditorViewModel) (path : QString) (data : List UInt8) :
    Tells [.contentLoaded path (fromUtf8 data)] e (e.setContent path data) := by
  unfold setContent
  exact (tells_emitChanged { e with busy := _, isOpen := true }).trans (tells_emit _ rfl)

theorem tells_activatePath (e : EditorViewModel) (path : QString) :
    Tells [] e (e.activatePath path) := by
  unfold activatePath
  split
  · exact e.tells_refl
  · exact tells_emitChanged { e with path := path, isOpen := true, busy := false }

theorem tells_beginSave (e : EditorViewModel) : Tells [] e e.beginSave := by
  unfold beginSave
  split
  · exact tells_emitChanged { e with saving := true }
  · exact e.tells_refl

theorem tells_close (e : EditorViewModel) : Tells [] e e.close := ⟨[_], rfl, rfl⟩

/-- What a finished save tells the pane. -/
def saveNews (ok : Bool) (message path : QString) : EditorSignal :=
  if ok then .saveSucceeded path else .saveFailed path message

/-- The end of a save is told, with its path. -/
theorem tells_finishSave (e : EditorViewModel) (ok : Bool) (message : QString) {path : QString}
    (hpath : path ≠ []) : Tells [saveNews ok message path] e (e.finishSave ok message path) := by
  have hnews : (saveNews ok message path).isNews = true := by
    unfold saveNews
    split <;> rfl
  unfold finishSave
  rw [if_neg hpath]
  exact (tells_emitChanged { e with saving := false }).trans (tells_emit _ hnews)

/-- A removal is told unless there is nothing to tell. -/
theorem tells_removePath (e : EditorViewModel) (path : QString) (recursive : Bool) :
    e.removePath path recursive = e
      ∨ Tells [.pathRemoved path recursive] e (e.removePath path recursive) := by
  unfold removePath
  split
  · exact Or.inl rfl
  · exact Or.inr (e.tells_emit rfl)

/-- A move is told unless one of its paths is empty. -/
theorem tells_movePath (e : EditorViewModel) (fromPath toPath : QString) :
    e.movePath fromPath toPath = e
      ∨ (toPath ≠ [] ∧ Tells [.pathMoved fromPath toPath] e (e.movePath fromPath toPath)) := by
  unfold movePath
  split
  · exact Or.inl rfl
  · next h =>
    refine Or.inr ⟨fun hto => h (Or.inr hto), ?_⟩
    exact ⟨[_, _], List.append_assoc _ _ _, rfl⟩

end EditorViewModel

/-! ## §2. The desk. -/

/-- The result of the request clears a mark in the editor pane. -/
def PendingFs.ofEditor (pending : PendingFs) : Bool :=
  pending.kind = .editorOpen || pending.kind = .editorSave

/-- The part of the controller that the editor shares. -/
structure Desk where
  /-- The handle of the session there is. -/
  live : Option Nat
  /-- No request is taken any more. -/
  stopped : Bool
  nextRequestId : UInt64
  editor : EditorViewModel
  fileAvailable : Bool
  fsPending : UInt64 → Option PendingFs

/-- The controller's part of it; without a session no request is taken. -/
def AppController.desk (c : AppController) : Desk :=
  { live := c.live, stopped := (c.session.map Session.stopped).getD true
    nextRequestId := (c.session.map Session.nextRequestId).getD 0
    editor := c.editor, fileAvailable := c.fileAvailable, fsPending := c.fsPending }

namespace Desk

variable {a b c : Desk} {m n : Nat}

/-- The id of the `n`-th request from here. -/
def idAfter (d : Desk) (n : Nat) : UInt64 := d.nextRequestId + UInt64.ofNat n

/-- The next request is answered with the id 0. -/
def Refuses (d : Desk) : Prop := d.stopped = true ∨ d.idAfter 1 = 0

instance (d : Desk) : Decidable d.Refuses :=
  inferInstanceAs (Decidable (d.stopped = true ∨ d.idAfter 1 = 0))

/-- From `a` to `b` at most `n` requests were made, none of them for the editor. -/
structure Asks (n : Nat) (a b : Desk) : Prop where
  live : b.live = a.live
  editor : b.editor = a.editor
  available : b.fileAvailable = true → a.fileAvailable = true ∨ a.live.isSome = true
  used : ∃ k ≤ n, b.nextRequestId = a.idAfter k
  pending : ∀ id, b.fsPending id = a.fsPending id
    ∨ ∃ k entry, 0 < k ∧ k ≤ n ∧ id = a.idAfter k ∧ a.live.isSome = true
      ∧ b.fsPending id = some entry ∧ entry.ofEditor = false

/-- Nothing waits any more, and the editor was told that everything is gone. -/
structure Cleared (a b : Desk) : Prop where
  pending : ∀ id, b.fsPending id = none
  available : b.fileAvailable = false
  news : EditorViewModel.Tells [.pathRemoved [] true] a.editor b.editor

/-- A request of the editor: it is refused and the editor told so, or `entry` waits for its
result. -/
inductive Requests (entry : PendingFs) (refusal : QString → EditorSignal) (a b : Desk) : Prop
  | refused (k : Nat) (e : EditorViewModel) (message : QString) : a.Refuses →
      b = { a with nextRequestId := a.idAfter k, editor := e } →
      EditorViewModel.Tells [refusal message] a.editor e → Requests entry refusal a b
  | taken (e : EditorViewModel) : a.live.isSome = true →
      b = { a with nextRequestId := a.idAfter 1, editor := e
                   fsPending := Function.update a.fsPending (a.idAfter 1) (some entry) } →
      EditorViewModel.Tells [] a.editor e → Requests entry refusal a b

/-- There was no session, and nothing but the session is new. -/
structure Begun (a b : Desk) : Prop where
  idle : a.live = none
  editor : b.editor = a.editor
  available : b.fileAvailable = a.fileAvailable
  pending : b.fsPending = a.fsPending

/-- The next id, as it is. -/
theorem idAfter_zero (d : Desk) : d.idAfter 0 = d.nextRequestId := by
  unfold idAfter
  simp

/-- One count after the other. -/
theorem idAfter_add (h : b.nextRequestId = a.idAfter m) (n : Nat) :
    b.idAfter n = a.idAfter (m + n) := by
  unfold idAfter at h ⊢
  rw [h, UInt64.ofNat_add, UInt64.add_assoc]

theorem Asks.refl (n : Nat) (a : Desk) : Asks n a a where
  live := rfl
  editor := rfl
  available := Or.inl
  used := ⟨0, Nat.zero_le n, a.idAfter_zero.symm⟩
  pending := fun _ => Or.inl rfl

/-- A bound may be raised. -/
theorem Asks.mono (h : Asks m a b) (hle : m ≤ n) : Asks n a b where
  live := h.live
  editor := h.editor
  available := h.available
  used := by
    obtain ⟨k, hk, hused⟩ := h.used
    exact ⟨k, Nat.le_trans hk hle, hused⟩
  pending := by
    intro id
    refine (h.pending id).imp_right ?_
    rintro ⟨k, entry, hpos, hk, hid, hlive, hentry, hkind⟩
    exact ⟨k, entry, hpos, Nat.le_trans hk hle, hid, hlive, hentry, hkind⟩

/-- One after the other. -/
theorem Asks.trans (h : Asks m a b) (h' : Asks n b c) : Asks (m + n) a c where
  live := h'.live.trans h.live
  editor := h'.editor.trans h.editor
  available := by
    intro hc
    obtain hb | hlive := h'.available hc
    · exact h.available hb
    · exact Or.inr (h.live ▸ hlive)
  used := by
    obtain ⟨k, hk, hused⟩ := h.used
    obtain ⟨k', hk', hused'⟩ := h'.used
    exact ⟨k + k', by omega, hused'.trans (idAfter_add hused k')⟩
  pending := by
    intro id
    obtain ⟨used, hused, hnext⟩ := h.used
    obtain hsame | ⟨k, entry, hpos, hk, hid, hlive, hentry, hkind⟩ := h'.pending id
    · rw [hsame]
      refine (h.pending id).imp_right ?_
      rintro ⟨k, entry, hpos, hk, hid, hlive, hentry, hkind⟩
      exact ⟨k, entry, hpos, by omega, hid, hlive, hentry, hkind⟩
    · refine Or.inr ⟨used + k, entry, by omega, by omega, ?_, h.live ▸ hlive, hentry, hkind⟩
      rw [hid, idAfter_add hnext k]

/-- The pane is told less than it was. -/
theorem Asks.unavailable (h : Asks n a b) : Asks n a { b with fileAvailable := false } where
  live := h.live
  editor := h.editor
  available := fun hfalse => absurd hfalse Bool.noConfusion
  used := h.used
  pending := h.pending

/-- Nothing waits without a session, and the requests of the editor are for a path. -/
structure Sound (d : Desk) : Prop where
  idle : d.live = none → d.fileAvailable = false ∧ ∀ id, d.fsPending id = none
  named : ∀ id entry, d.fsPending id = some entry → entry.ofEditor = true → entry.path ≠ []

/-- The invariant says nothing of the editor. -/
theorem Sound.editor (h : Sound a) (e : EditorViewModel) : Sound { a with editor := e } :=
  ⟨h.idle, h.named⟩

/-- Requests keep it. -/
theorem Sound.asks (h : Sound a) (h' : Asks n a b) : Sound b where
  idle := by
    intro hidle
    rw [h'.live] at hidle
    obtain ⟨havailable, hnone⟩ := h.idle hidle
    have hdead : a.live.isSome = false := by rw [hidle]; rfl
    constructor
    · rw [Bool.eq_false_iff]
      intro hb
      obtain ha | hlive := h'.available hb
      · exact absurd (havailable.symm.trans ha) Bool.false_ne_true
      · exact absurd (hdead.symm.trans hlive) Bool.false_ne_true
    · intro id
      obtain hsame | ⟨_, _, _, _, _, hlive, _⟩ := h'.pending id
      · rw [hsame, hnone id]
      · exact absurd (hdead.symm.trans hlive) Bool.false_ne_true
  named := by
    intro id entry hentry hkind
    obtain hsame | ⟨_, other, _, _, _, _, hother, hnot⟩ := h'.pending id
    · exact h.named id entry (hsame ▸ hentry) hkind
    · rw [hother, Option.some.injEq] at hentry
      rw [← hentry, hnot] at hkind
      exact absurd hkind Bool.false_ne_true

/-- A new session begins with it. -/
theorem Sound.begun (h : Sound a) (h' : Begun a b) : Sound b where
  idle := by
    intro _
    rw [h'.available, h'.pending]
    exact h.idle h'.idle
  named := by
    rw [h'.pending]
    exact h.named

/-- A request is taken away. -/
theorem Sound.taken (h : Sound a) (id : UInt64) :
    Sound { a with fsPending := Function.update a.fsPending id none } where
  idle := by
    intro hidle
    obtain ⟨havailable, hnone⟩ := h.idle hidle
    refine ⟨havailable, ?_⟩
    intro other
    show Function.update a.fsPending id none other = none
    by_cases hsame : other = id
    · rw [hsame, Function.update_self]
    · rw [Function.update_of_ne hsame, hnone]
  named := by
    intro other entry hentry
    change Function.update a.fsPending id none other = some entry at hentry
    by_cases hsame : other = id
    · rw [hsame, Function.update_self] at hentry
      cases hentry
    · rw [Function.update_of_ne hsame] at hentry
      exact h.named other entry hentry

/-- A request of the editor is put on the desk of a live session. -/
theorem Sound.put (h : Sound a) (hlive : a.live.isSome = true) {entry : PendingFs}
    (hpath : entry.path ≠ []) (next id : UInt64) :
    Sound { a with nextRequestId := next, fsPending := Function.update a.fsPending id (some entry) }
    where
  idle := by
    intro hidle
    rw [show a.live = none from hidle] at hlive
    exact absurd hlive Bool.false_ne_true
  named := by
    intro other entry' hentry
    change Function.update a.fsPending id (some entry) other = some entry' at hentry
    by_cases hsame : other = id
    · rw [hsame, Function.update_self, Option.some.injEq] at hentry
      rw [← hentry]
      exact fun _ => hpath
    · rw [Function.update_of_ne hsame] at hentry
      exact h.named other entry' hentry

theorem Cleared.begun (h : Cleared a b) (h' : Begun b c) : Cleared a c where
  pending := by
    rw [h'.pending]
    exact h.pending
  available := h'.available.trans h.available
  news := by
    rw [h'.editor]
    exact h.news

end Desk

namespace AppController

variable (c : AppController)

open Desk EditorViewModel

/-! ## §3. Through the bridge. -/

/-- A request uses an id up, if there is a session; it is given this id or refused. -/
theorem submit_outcome (command : UInt64 → Command) :
    ∃ k ≤ 1, (c.submit command).2.desk = { c.desk with nextRequestId := c.desk.idAfter k }
      ∧ (((c.submit command).1 = 0 ∧ c.desk.Refuses)
        ∨ (k = 1 ∧ (c.submit command).1 = c.desk.idAfter 1 ∧ (c.submit command).1 ≠ 0
          ∧ c.desk.live.isSome = true)) := by
  unfold submit
  cases h : c.session with
  | none =>
    refine ⟨0, Nat.zero_le 1, ?_, Or.inl ⟨rfl, Or.inl ?_⟩⟩
    · rw [idAfter_zero]
    · show (c.session.map Session.stopped).getD true = true
      rw [h]
      rfl
  | some s =>
    obtain ⟨hlive, hstopped, hnext⟩ : c.desk.live = some s.handle ∧ c.desk.stopped = s.stopped
        ∧ c.desk.idAfter 1 = s.nextRequestId + 1 := by
      show c.session.map Session.handle = _ ∧ (c.session.map Session.stopped).getD true = _
        ∧ (c.session.map Session.nextRequestId).getD 0 + 1 = _
      rw [h]
      exact ⟨rfl, rfl, rfl⟩
    refine ⟨1, Nat.le_refl 1, ?_, ?_⟩
    · rw [hnext]
      show Desk.mk _ _ _ _ _ _ = Desk.mk c.desk.live c.desk.stopped _ _ _ _
      rw [hlive, hstopped]
      show Desk.mk (some (s.submit command).2.handle) (s.submit command).2.stopped
        (s.submit command).2.nextRequestId _ _ _ = _
      unfold Session.submit
      split <;> rfl
    · unfold Desk.Refuses
      rw [hnext, hlive, hstopped]
      show ((s.submit command).1 = 0 ∧ _)
        ∨ (_ ∧ (s.submit command).1 = _ ∧ (s.submit command).1 ≠ 0 ∧ _)
      unfold Session.submit
      split
      · next hstop => exact Or.inl ⟨rfl, Or.inl hstop⟩
      · by_cases hzero : s.nextRequestId + 1 = 0
        · exact Or.inl ⟨hzero, Or.inr hzero⟩
        · exact Or.inr ⟨rfl, rfl, hzero, rfl⟩

/-- A request gets the next id, or 0 where no session takes it. -/
theorem submitFs_outcome (op : FsOp) :
    ∃ k ≤ 1, (c.submitFs op).2.desk = { c.desk with nextRequestId := c.desk.idAfter k }
      ∧ (((c.submitFs op).1 = 0 ∧ c.desk.Refuses)
        ∨ (k = 1 ∧ (c.submitFs op).1 = c.desk.idAfter 1 ∧ (c.submitFs op).1 ≠ 0
          ∧ c.desk.live.isSome = true)) :=
  c.submit_outcome _

/-- A command uses up one id at most. -/
theorem asks_submit (command : UInt64 → Command) : Asks 1 c.desk (c.submit command).2.desk := by
  obtain ⟨k, hk, hdesk, _⟩ := c.submit_outcome command
  rw [hdesk]
  exact ⟨rfl, rfl, Or.inl, ⟨k, hk, rfl⟩, fun _ => Or.inl rfl⟩

/-- A request that is tracked, or refused. -/
theorem asks_trackFsRequest (op : FsOp) {pending : PendingFs} (h : pending.ofEditor = false) :
    Asks 1 c.desk ((c.submitFs op).2.trackFsRequest (c.submitFs op).1 pending).desk := by
  obtain ⟨k, hk, hdesk, hid⟩ := c.submitFs_outcome op
  unfold trackFsRequest
  split
  · exact c.asks_submit _
  · next hzero =>
    obtain ⟨-, hid, -, hlive⟩ := hid.resolve_left fun h => hzero h.1
    show Asks 1 c.desk { (c.submitFs op).2.desk with
      fsPending := Function.update (c.submitFs op).2.desk.fsPending (c.submitFs op).1 (some pending) }
    rw [hdesk, hid]
    refine ⟨rfl, rfl, Or.inl, ⟨k, hk, rfl⟩, ?_⟩
    intro id
    by_cases hsame : id = c.desk.idAfter 1
    · rw [hsame]
      exact Or.inr ⟨1, pending, Nat.zero_lt_one, Nat.le_refl 1, rfl, hlive,
        Function.update_self _ _ _, h⟩
    · exact Or.inl (Function.update_of_ne hsame _ _)

/-- A change of the tree asks once, and no tab waits for it. -/
theorem asks_trackMutation (op : FsOp) (refused : QString) {pending : PendingFs}
    (h : pending.ofEditor = false) :
    Asks 1 c.desk (trackMutation (c.submitFs op) refused pending).desk := by
  unfold trackMutation
  split
  · exact c.asks_submit _
  · exact c.asks_trackFsRequest op h

theorem desk_sendCmd (command : Command) : (c.sendCmd command).2.desk = c.desk := by
  unfold sendCmd
  cases h : c.session with
  | none => rfl
  | some s =>
    have hsend : (s.send command).2.handle = s.handle ∧ (s.send command).2.stopped = s.stopped
        ∧ (s.send command).2.nextRequestId = s.nextRequestId := by
      unfold Session.send
      split <;> exact ⟨rfl, rfl, rfl⟩
    simp only [desk, live, h, Option.map_some, hsend.1, hsend.2.1, hsend.2.2]

/-! ## §4. Files. -/

theorem asks_expandDir (path : QString) : Asks 1 c.desk (c.expandDir path).desk := by
  unfold expandDir
  split
  · have hrefused : Asks 1 c.desk (c.submitFs (.list (toCore path))).2.desk := c.asks_submit _
    have htaken := c.asks_trackFsRequest (.list (toCore path))
      (show (PendingFs.plain .listing path none).ofEditor = false from rfl)
    generalize c.submitFs (.list (toCore path)) = submitted at hrefused htaken ⊢
    obtain ⟨id, c'⟩ := submitted
    dsimp only at hrefused htaken ⊢
    split
    · exact hrefused
    · exact htaken
  · exact .refl 1 c.desk

theorem asks_fetchMore (id : Nat) : Asks 1 c.desk (c.fetchMore id).desk := by
  unfold fetchMore
  split
  · next tree path _ => exact asks_expandDir { c with fileTree := tree } path
  · exact .refl 1 c.desk

/-- The root is asked for, and the files are not available meanwhile. -/
theorem asks_reloadFiles : Asks 1 c.desk c.reloadFiles.desk := by
  have hcleared : Asks 0 c.desk { c.desk with fileAvailable := false } :=
    (Asks.refl 0 c.desk).unavailable
  have hexpand : ∀ d : AppController, d.desk = { c.desk with fileAvailable := false } →
      Asks 1 c.desk (d.expandDir []).desk := by
    intro d hd
    rw [← hd] at hcleared
    exact hcleared.trans (n := 1) (d.asks_expandDir [])
  unfold reloadFiles
  split
  · exact hexpand _ rfl
  · exact hcleared.mono (Nat.zero_le 1)

theorem asks_paste (destDir : QString) : Asks 1 c.desk (c.paste destDir).desk := by
  unfold paste
  split
  · split
    · exact .refl 1 c.desk
    · dsimp only
      split
      · exact c.asks_trackMutation _ _ rfl
      · exact c.asks_trackMutation _ _ rfl
  · exact .refl 1 c.desk

theorem asks_renamePath (path newName : QString) :
    Asks 1 c.desk (c.renamePath path newName).desk := by
  unfold renamePath
  split
  · split
    · exact .refl 1 c.desk
    · split
      · exact c.asks_trackMutation _ _ rfl
      · exact .refl 1 c.desk
  · exact .refl 1 c.desk

theorem asks_deletePath (path : QString) (isDir : Bool) :
    Asks 1 c.desk (c.deletePath path isDir).desk := by
  unfold deletePath
  split
  · split
    · exact .refl 1 c.desk
    · exact c.asks_trackMutation _ _ rfl
  · exact .refl 1 c.desk

theorem asks_makeDir (parentDir name : QString) :
    Asks 1 c.desk (c.makeDir parentDir name).desk := by
  unfold makeDir
  split
  · split
    · exact c.asks_trackMutation _ _ rfl
    · exact .refl 1 c.desk
  · exact .refl 1 c.desk

theorem asks_makeFile (parentDir name : QString) :
    Asks 1 c.desk (c.makeFile parentDir name).desk := by
  unfold makeFile
  split
  · split
    · exact c.asks_trackMutation _ _ rfl
    · exact .refl 1 c.desk
  · exact .refl 1 c.desk

theorem asks_uploadFile (destDir localPath fileName : QString) (contents : Option (List UInt8)) :
    Asks 1 c.desk (c.uploadFile destDir localPath fileName contents).desk := by
  unfold uploadFile
  split
  · split
    · exact .refl 1 c.desk
    · exact c.asks_trackMutation _ _ rfl
  · exact .refl 1 c.desk

theorem asks_expandSome (dir : Option QString) : Asks 1 c.desk (c.expandSome dir).desk := by
  unfold expandSome
  split
  · exact c.asks_expandDir _
  · exact .refl 1 c.desk

/-- Two listings at most after a change of the tree. -/
theorem asks_refreshAfter (pending : PendingFs) :
    Asks 2 c.desk (c.refreshAfter pending).desk := by
  have hfirst := c.asks_expandSome pending.refreshDir
  unfold refreshAfter
  dsimp only
  split
  · split
    · exact hfirst.trans (asks_expandDir _ _)
    · exact hfirst.mono (Nat.le_succ 1)
  · exact hfirst.mono (Nat.le_succ 1)

theorem activateEditorPath_outcome (path : QString) :
    ∃ e, c.activateEditorPath path = { c with editor := e } ∧ Tells [] c.editor e := by
  unfold activateEditorPath
  split
  · exact ⟨c.editor, rfl, c.editor.tells_refl⟩
  · exact ⟨_, rfl, c.editor.tells_activatePath path⟩

theorem closeEditor_outcome :
    ∃ e, c.closeEditor = { c with editor := e } ∧ Tells [] c.editor e :=
  ⟨_, rfl, c.editor.tells_close⟩

/-! ## §5. Opening and saving. -/

/-- What a request of the editor comes to once the editor has been told that it begins. -/
theorem requests_submitFs (op : FsOp) (entry : PendingFs) (notice : QString)
    {begun : EditorViewModel} {refused : EditorViewModel → EditorViewModel}
    {refusal : QString → EditorSignal} {message : QString} (hbegun : Tells [] c.editor begun)
    (hrefused : ∀ e, Tells [refusal message] e (refused e)) {submitted : UInt64 × AppController}
    (hsubmitted : submitted = submitFs { c with editor := begun } op) :
    Requests entry refusal c.desk
      (if submitted.1 = 0 then
        { submitted.2 with editor := refused submitted.2.editor }.appendNotice notice
      else submitted.2.trackFsRequest submitted.1 entry).desk := by
  obtain ⟨k, -, hdesk, hid⟩ := submitFs_outcome { c with editor := begun } op
  rw [← hsubmitted] at hdesk hid
  have heditor : submitted.2.editor = begun := congrArg Desk.editor hdesk
  obtain ⟨hzero, hrefuses⟩ | ⟨rfl, hid, hne, hlive⟩ := hid
  · rw [if_pos hzero, heditor]
    refine .refused k (refused begun) message hrefuses ?_ (hbegun.trans (hrefused begun))
    show { submitted.2.desk with editor := refused begun } = _
    rw [hdesk]
    rfl
  · rw [if_neg hne]
    refine .taken begun hlive ?_ hbegun
    unfold trackFsRequest
    rw [if_neg hne]
    show { submitted.2.desk with
      fsPending := Function.update submitted.2.desk.fsPending submitted.1 (some entry) } = _
    rw [hdesk, hid]
    rfl

/-- Opening asks for the file, or nothing happens. -/
theorem openPath_outcome (path : QString) :
    (¬ (c.ready = true ∧ path ≠ []) ∧ (c.openPath path).desk = c.desk)
      ∨ (c.ready = true ∧ path ≠ [] ∧ Requests (.plain .editorOpen path none) (.openFailed path)
          c.desk (c.openPath path).desk) := by
  unfold openPath
  split
  · next hready =>
    split
    · next hpath => exact Or.inl ⟨fun h => h.2 hpath, rfl⟩
    · next hpath =>
      refine Or.inr ⟨hready, hpath, ?_⟩
      exact c.requests_submitFs (.read (toCore path) editorReadLimit.toUInt64)
        (.plain .editorOpen path none) (lit "无法提交读取请求。") (c.editor.tells_beginOpen path)
        (fun e => e.tells_failOpen path (lit "无法提交读取请求。")) rfl
  · next hready => exact Or.inl ⟨fun h => hready h.1, rfl⟩

/-- Saving asks to write the file, or nothing happens. -/
theorem saveEditorPath_outcome (path text : QString) :
    (¬ (c.ready = true ∧ path ≠ []) ∧ (c.saveEditorPath path text).desk = c.desk)
      ∨ (c.ready = true ∧ path ≠ [] ∧
          Requests (.plain .editorSave path (parentOrNull path)) (.saveFailed path)
            c.desk (c.saveEditorPath path text).desk) := by
  unfold saveEditorPath
  split
  · next hready =>
    split
    · next hpath => exact Or.inl ⟨fun h => h.2 hpath, rfl⟩
    · next hpath =>
      refine Or.inr ⟨hready, hpath, ?_⟩
      have hbegun : Tells [] c.editor (c.editor.activatePath path).beginSave :=
        (c.editor.tells_activatePath path).trans (tells_beginSave _)
      have hrefused : ∀ e : EditorViewModel, Tells [.saveFailed path (lit "无法提交保存请求。")] e
          (e.finishSave false (lit "无法提交保存请求。") path) :=
        fun e => e.tells_finishSave false (lit "无法提交保存请求。") hpath
      exact c.requests_submitFs (.write (toCore path) (toUtf8 text))
        (.plain .editorSave path (parentOrNull path)) (lit "无法提交保存请求。") hbegun hrefused rfl
  · next hready => exact Or.inl ⟨fun h => hready h.1, rfl⟩

/-! ## §6. Results. -/

/-- What a result tells the editor, by the request it answers. -/
inductive Answer (pending : PendingFs) (payload : FsPayload) : List EditorSignal → Prop
  | silent : pending.kind = .listing ∨ pending.kind = .mutate → Answer pending payload []
  | loaded (data : List UInt8) : pending.kind = .editorOpen → payload = .content data →
      Answer pending payload [.contentLoaded pending.path (fromUtf8 data)]
  | openFailed (message : QString) : pending.kind = .editorOpen →
      Answer pending payload [.openFailed pending.path message]
  | saved (ok : Bool) (message : QString) : pending.kind = .editorSave →
      Answer pending payload [saveNews ok message pending.path]
  | removed : pending.kind = .mutate →
      Answer pending payload [.pathRemoved pending.path pending.recursive]
  | moved : pending.kind = .mutate → pending.mutation = .moveLike → payload = .ok →
      pending.destinationPath ≠ [] →
      Answer pending payload [.pathMoved pending.path pending.destinationPath]

/-- From `c` to `d` a result told the editor its news, and at most two requests followed. -/
def Answers (pending : PendingFs) (payload : FsPayload) (a b : Desk) : Prop :=
  ∃ news e, Answer pending payload news ∧ Tells news a.editor e ∧ Asks 2 { a with editor := e } b

/-- A failure is told to the tab that waits. -/
theorem answers_failFileRequest {pending : PendingFs}
    (hpath : pending.ofEditor = true → pending.path ≠ []) (payload : FsPayload)
    (code : RsErrorCode) (message : QString) :
    Answers pending payload c.desk (c.failFileRequest pending code message).desk := by
  obtain ⟨kind, path, refreshDir, extraRefreshDir, clearClipboard, mutation, dest, recursive⟩ :=
    pending
  unfold failFileRequest
  cases kind with
  | listing =>
    refine ⟨[], c.editor, .silent (Or.inl rfl), c.editor.tells_refl, ?_⟩
    dsimp only
    split
    · split
      · exact (Asks.refl 2 c.desk).unavailable
      · exact (Asks.refl 2 c.desk).unavailable
    · exact .refl 2 c.desk
  | editorOpen =>
    exact ⟨_, _, .openFailed message rfl, c.editor.tells_failOpen path message, .refl 2 _⟩
  | editorSave =>
    exact ⟨_, _, .saved false _ rfl, c.editor.tells_finishSave false _ (hpath rfl), .refl 2 _⟩
  | mutate => exact ⟨[], c.editor, .silent (Or.inr rfl), c.editor.tells_refl, .refl 2 c.desk⟩

/-- No tab waits for a listing. -/
theorem answers_finishListing (hlive : c.live.isSome = true) {pending : PendingFs}
    (hkind : pending.kind = .listing) (payload : FsPayload) :
    Answers pending payload c.desk (c.finishListing pending payload).desk := by
  refine ⟨[], c.editor, .silent (Or.inl hkind), c.editor.tells_refl, ?_⟩
  have hshown : ∀ available, Asks 2 c.desk { c.desk with fileAvailable := available } :=
    fun _ => ⟨rfl, rfl, fun _ => Or.inr hlive, ⟨0, Nat.zero_le 2, c.desk.idAfter_zero.symm⟩,
      fun _ => Or.inl rfl⟩
  unfold finishListing
  split
  · dsimp only
    split
    · unfold rememberHomeFromRootListing
      split
      · exact hshown true
      · exact hshown true
    · exact .refl 2 c.desk
  · dsimp only
    split
    · exact hshown false
    · exact .refl 2 c.desk

/-- The tab that waits gets the text, or is told why not. -/
theorem answers_finishOpen {pending : PendingFs} (hkind : pending.kind = .editorOpen)
    (payload : FsPayload) :
    Answers pending payload c.desk (c.finishOpen pending payload).desk := by
  have hrefused : ∀ reason notice,
      Answers pending payload c.desk (c.refuseOpen pending.path reason notice).desk :=
    fun reason _ => ⟨_, _, .openFailed reason hkind, c.editor.tells_failOpen _ reason, .refl 2 _⟩
  cases payload with
  | content data =>
    unfold finishOpen
    dsimp only
    split
    · exact hrefused _ _
    · split
      · exact ⟨_, _, .loaded data hkind rfl, c.editor.tells_setContent _ data, .refl 2 _⟩
      · exact hrefused _ _
  | listing entries => exact hrefused _ _
  | ok => exact hrefused _ _
  | error code message => exact hrefused _ _

/-- The tab that waits is told how the save ended. -/
theorem answers_finishSave {pending : PendingFs} (hkind : pending.kind = .editorSave)
    (hpath : pending.path ≠ []) (payload : FsPayload) :
    Answers pending payload c.desk (c.finishSave pending payload).desk := by
  have hfailed : ∀ payload, Answers pending payload c.desk
      { c.desk with editor := c.editor.finishSave false (lit "保存失败：返回结果类型不匹配。") pending.path } :=
    fun _ => ⟨_, _, .saved false _ hkind, c.editor.tells_finishSave false _ hpath, .refl 2 _⟩
  cases payload with
  | ok =>
    refine ⟨_, _, .saved true [] hkind, c.editor.tells_finishSave true [] hpath, ?_⟩
    unfold finishSave
    exact asks_refreshAfter ({ c with editor := _ }.appendNotice _) pending
  | content data => exact hfailed _
  | listing entries => exact hfailed _
  | error code message => exact hfailed _

/-- No tab waits for a change of the tree, though it may move or lose its file. -/
theorem answers_finishMutate {pending : PendingFs} (hkind : pending.kind = .mutate)
    (payload : FsPayload) :
    Answers pending payload c.desk (c.finishMutate pending payload).desk := by
  have hsilent : ∀ payload, Answers pending payload c.desk c.desk :=
    fun _ => ⟨[], c.editor, .silent (Or.inr hkind), c.editor.tells_refl, .refl 2 c.desk⟩
  -- the clipboard and the refreshed directories come after what the editor is told
  have hrest : ∀ (d : AppController) {news : List EditorSignal} {e : EditorViewModel},
      Answer pending .ok news → Tells news c.editor e → d.desk = { c.desk with editor := e } →
      Answers pending .ok c.desk (refreshAfter (if pending.clearClipboard then
        { d with clipboardPath := [], clipboardCut := false } else d) pending).desk := by
    intro d news e hanswer htells hdesk
    refine ⟨news, e, hanswer, htells, ?_⟩
    rw [← hdesk]
    split
    · exact asks_refreshAfter { d with clipboardPath := [], clipboardCut := false } pending
    · exact d.asks_refreshAfter pending
  cases payload with
  | ok =>
    unfold finishMutate
    dsimp only
    cases hmutation : pending.mutation with
    | deleteLike =>
      obtain hsame | htells := c.editor.tells_removePath pending.path pending.recursive
      · refine hrest _ (.silent (Or.inr hkind)) c.editor.tells_refl ?_
        exact congrArg (fun e => { c.desk with editor := e }) hsame
      · exact hrest _ (.removed hkind) htells rfl
    | moveLike =>
      obtain hsame | ⟨hdest, htells⟩ :=
        c.editor.tells_movePath pending.path pending.destinationPath
      · refine hrest _ (.silent (Or.inr hkind)) c.editor.tells_refl ?_
        exact congrArg (fun e => { c.desk with editor := e }) hsame
      · exact hrest _ (.moved hkind hmutation rfl hdest) htells rfl
    | noMutation => exact hrest _ (.silent (Or.inr hkind)) c.editor.tells_refl rfl
    | createLike => exact hrest _ (.silent (Or.inr hkind)) c.editor.tells_refl rfl
    | copyLike => exact hrest _ (.silent (Or.inr hkind)) c.editor.tells_refl rfl
  | content data => exact hsilent _
  | listing entries => exact hsilent _
  | error code message => exact hsilent _

/-- A result that some request waits for: the request is taken away, and the editor told. -/
theorem ingestFileResult_outcome {result : FsResult} {pending : PendingFs}
    (hpending : c.fsPending result.requestId = some pending) (hlive : c.live.isSome = true)
    (hpath : pending.ofEditor = true → pending.path ≠ []) :
    Answers pending result.payload
      { c.desk with fsPending := Function.update c.fsPending result.requestId none }
      (c.ingestFileResult result).desk := by
  unfold ingestFileResult
  rw [hpending]
  dsimp only
  show Answers pending result.payload
    (desk { c with fsPending := Function.update c.fsPending result.requestId none }) _
  have htaken : live { c with fsPending := Function.update c.fsPending result.requestId none }
    = c.live := rfl
  generalize ({ c with fsPending := Function.update c.fsPending result.requestId none } :
    AppController) = d at htaken ⊢
  split
  · next code message hpayload =>
    rw [hpayload]
    exact d.answers_failFileRequest hpath _ code message
  · split
    · next hkind => exact d.answers_finishListing (htaken ▸ hlive) hkind _
    · next hkind => exact d.answers_finishOpen hkind _
    · next hkind =>
      refine d.answers_finishSave hkind (hpath ?_) _
      unfold PendingFs.ofEditor
      rw [hkind]
      rfl
    · next hkind => exact d.answers_finishMutate hkind _

/-- Nothing waits for the result. -/
theorem ingestFileResult_of_none {result : FsResult} (h : c.fsPending result.requestId = none) :
    c.ingestFileResult result = c := by
  unfold ingestFileResult
  rw [h]

/-! ## §7. Commands. -/

theorem asks_submitExec (command : QString) (timeoutMs : UInt64) (kind : PendingExecKind)
    (label : QString) : Asks 1 c.desk (c.submitExec command timeoutMs kind label).2.desk := by
  unfold submitExec
  split
  · have h := c.asks_submit fun id => .exec id (String.ofList (toCore command)) timeoutMs
    generalize c.submit (fun id => .exec id (String.ofList (toCore command)) timeoutMs)
      = submitted at h ⊢
    obtain ⟨id, c'⟩ := submitted
    dsimp only at h ⊢
    split
    · exact h
    · exact h
  · exact .refl 1 c.desk

variable {c} in

/-- A command that is submitted once the pane of packages shows that it runs. -/
theorem asks_submitPackage {d : AppController} (hdesk : d.desk = c.desk) (command : QString)
    (timeoutMs : UInt64) (kind : PendingExecKind) (label failureText : QString) :
    Asks 1 c.desk (d.submitPackage command timeoutMs kind label failureText).desk := by
  have h := d.asks_submitExec command timeoutMs kind label
  rw [hdesk] at h
  unfold submitPackage
  generalize d.submitExec command timeoutMs kind label = submitted at h ⊢
  obtain ⟨id, c'⟩ := submitted
  dsimp only at h ⊢
  split
  · exact h
  · exact h

theorem asks_refreshEnvironment : Asks 1 c.desk c.refreshEnvironment.desk := by
  unfold refreshEnvironment
  split
  · split
    · exact .refl 1 c.desk
    · exact asks_submitPackage (by rfl) _ _ _ _ _
  · exact .refl 1 c.desk

theorem asks_searchPackages (query : QString) : Asks 1 c.desk (c.searchPackages query).desk := by
  unfold searchPackages
  dsimp only
  split
  · exact .refl 1 c.desk
  · split
    · split
      · exact .refl 1 c.desk
      · exact asks_submitPackage (by rfl) _ _ _ _ _
    · exact .refl 1 c.desk

theorem asks_mutatePackage (m : PackageMutation) (manager name : QString) :
    Asks 1 c.desk (c.mutatePackage m manager name).desk := by
  unfold mutatePackage
  dsimp only
  split
  · exact .refl 1 c.desk
  · split
    · split
      · exact .refl 1 c.desk
      · split
        · split
          · exact .refl 1 c.desk
          · exact asks_submitPackage (by rfl) _ _ _ _ _
        · exact .refl 1 c.desk
    · exact .refl 1 c.desk

theorem asks_refreshResourceSnapshot : Asks 1 c.desk c.refreshResourceSnapshot.desk := by
  unfold refreshResourceSnapshot
  split
  · split
    · exact .refl 1 c.desk
    · have h := asks_submitExec
        { c with resources := { busy := true, capture := [], markerTail := [] } }
        resourceSnapshotCommand 8000 .resourceSnapshot (lit "资源快照")
      generalize submitExec { c with resources := { busy := true, capture := [], markerTail := [] } }
        resourceSnapshotCommand 8000 .resourceSnapshot (lit "资源快照") = submitted at h ⊢
      obtain ⟨id, c'⟩ := submitted
      dsimp only at h ⊢
      split
      · exact h
      · exact h
  · exact .refl 1 c.desk

variable {c} in
theorem asks_finishPackageMutation {d : AppController} (hdesk : d.desk = c.desk)
    (result : ExecResult) (successText failureText refreshText : QString) :
    Asks 1 c.desk (d.finishPackageMutation result successText failureText refreshText).desk := by
  rw [← hdesk]
  unfold finishPackageMutation
  dsimp only
  split
  · exact .refl 1 d.desk
  · exact asks_submitPackage (by rfl) _ _ _ _ _

theorem asks_ingestExecResult (result : ExecResult) :
    Asks 1 c.desk (c.ingestExecResult result).desk := by
  unfold ingestExecResult
  split
  · exact .refl 1 c.desk
  next pending _ =>
    dsimp only
    cases pending.kind with
    | resourceSnapshot =>
      dsimp only
      split
      · exact .refl 1 c.desk
      · exact .refl 1 c.desk
    | environmentProbe =>
      dsimp only
      split
      · exact .refl 1 c.desk
      · exact asks_submitPackage (by rfl) _ _ _ _ _
    | packageList => dsimp only; split <;> exact .refl 1 c.desk
    | packageSearch => dsimp only; split <;> exact .refl 1 c.desk
    | packageInstall =>
      exact asks_finishPackageMutation (by rfl) _ _ _ _
    | packageUpdate =>
      exact asks_finishPackageMutation (by rfl) _ _ _ _
    | packageRemove =>
      exact asks_finishPackageMutation (by rfl) _ _ _ _

theorem desk_finishCapture (capture : QString) : (c.finishCapture capture).desk = c.desk := by
  unfold finishCapture
  split
  · rfl
  · split
    · rfl
    · dsimp only
      split <;> rfl

theorem desk_captureResourceOutput (data : List UInt8) :
    (c.captureResourceOutput data).2.desk = c.desk := by
  unfold captureResourceOutput
  split
  · dsimp only
    split
    · split
      · rfl
      · rw [desk_finishCapture]
        split <;> rfl
    · exact desk_finishCapture _ _
  · rfl

theorem desk_sendTerminalBytes (payload : List UInt8) (failureContext : QString) :
    (c.sendTerminalBytes payload failureContext).2.desk = c.desk := by
  have h := c.desk_sendCmd (.send payload)
  unfold sendTerminalBytes
  generalize c.sendCmd (.send payload) = sent at h ⊢
  obtain ⟨rc, c'⟩ := sent
  dsimp only at h ⊢
  split <;> exact h

theorem desk_sendCommand (text : QString) : (c.sendCommand text).desk = c.desk := by
  unfold sendCommand
  split
  · split
    · rfl
    · exact desk_sendTerminalBytes _ _ _
  · rfl

theorem desk_sendInterrupt : c.sendInterrupt.desk = c.desk := by
  unfold sendInterrupt
  split
  · have h := c.desk_sendTerminalBytes [0x03] (lit "中止信号发送失败")
    generalize c.sendTerminalBytes [0x03] (lit "中止信号发送失败") = sent at h ⊢
    obtain ⟨taken, c'⟩ := sent
    cases taken <;> exact h
  · rfl

theorem desk_runPythonFile (path device : QString) :
    (c.runPythonFile path device).desk = c.desk := by
  unfold runPythonFile
  split
  · split
    · rfl
    · split
      · rfl
      · exact desk_sendTerminalBytes _ _ _
  · rfl

/-! ## §8. Sessions. -/

theorem desk_setStatus (row : Int) (status : RsSessionState) :
    (c.setStatus row status).desk = c.desk := by
  unfold setStatus
  split <;> rfl

theorem desk_selectServer (index : Int) : (c.selectServer index).desk = c.desk := by
  unfold selectServer
  split <;> rfl

theorem desk_disconnectCurrent : c.disconnectCurrent.desk = c.desk := by
  unfold disconnectCurrent
  split
  · rfl
  · have h := c.desk_sendCmd .disconnect
    generalize c.sendCmd .disconnect = sent at h ⊢
    obtain ⟨rc, c'⟩ := sent
    dsimp only at h ⊢
    split <;> exact h

theorem desk_confirmHostKey (accept : Bool) : (c.confirmHostKey accept).desk = c.desk := by
  unfold confirmHostKey
  split <;> rfl

theorem desk_requestConnect : c.requestConnect.desk = c.desk := by
  have h := desk_sendCmd (c.appendNotice (arg (lit "正在连接 %1 …") [c.currentEndpoint])) .connect
  unfold requestConnect
  dsimp only
  generalize sendCmd (c.appendNotice (arg (lit "正在连接 %1 …") [c.currentEndpoint])) .connect
    = sent at h ⊢
  obtain ⟨rc, c'⟩ := sent
  dsimp only at h ⊢
  split <;> exact h

/-- Nothing is waited for when a session goes. -/
theorem cleared_teardownSession : Cleared c.desk c.teardownSession.desk :=
  ⟨fun _ => rfl, rfl, c.editor.tells_emit rfl⟩

theorem cleared_dropCurrentSession : Cleared c.desk c.dropCurrentSession.desk :=
  c.cleared_teardownSession

theorem cleared_forgetConnection : Cleared c.desk c.forgetConnection.desk :=
  ⟨fun _ => rfl, rfl, c.editor.tells_emit rfl⟩

/-- A session begins with nothing asked for. -/
theorem begun_openSession (hidle : c.live = none) (index : Int) (item : ServerItem)
    (handle : Nat) : Begun c.desk (c.openSession index item handle).desk := by
  unfold openSession
  dsimp only
  rw [desk_sendCmd]
  split
  · exact ⟨hidle, rfl, rfl, rfl⟩
  · rw [desk_sendCmd]
    exact ⟨hidle, rfl, rfl, rfl⟩

/-- What becomes of the desk when the controller's session may be replaced. -/
inductive Replaces (a b : Desk) : Prop
  | asks : Asks 1 a b → Replaces a b
  | begun : Begun a b → Replaces a b
  | cleared : Cleared a b → Replaces a b

/-- A connect replaces the session, whatever there was. -/
theorem replaces_connectToServer (index : Int) (created : Created) :
    Replaces c.desk (c.connectToServer index created).desk := by
  unfold connectToServer
  split
  · exact .asks (.refl 1 c.desk)
  · next item _ =>
    have hselected := c.desk_selectServer index
    generalize c.selectServer index = d at hselected ⊢
    rw [← hselected]
    dsimp only
    by_cases hother : d.session.isSome ∧ d.currentIndex ≠ index
    · -- the session of another row is gone by the time this row gets its own
      rw [if_pos hother]
      have hcleared := d.cleared_teardownSession
      have hgone : d.teardownSession.session = none := rfl
      have hidle : d.teardownSession.live = none := rfl
      generalize d.teardownSession = torn at hcleared hgone hidle ⊢
      rw [hgone]
      cases created with
      | session handle =>
        dsimp only
        rw [desk_requestConnect]
        exact .cleared (hcleared.begun (torn.begun_openSession hidle index item handle))
      | failed code =>
        dsimp only
        rw [desk_setStatus]
        exact .cleared hcleared
    · rw [if_neg hother]
      cases hsession : d.session with
      | some session =>
        dsimp only
        rw [desk_requestConnect]
        exact .asks (.refl 1 d.desk)
      | none =>
        cases created with
        | session handle =>
          dsimp only
          rw [desk_requestConnect]
          refine .begun (d.begun_openSession ?_ index item handle)
          unfold live
          rw [hsession]
          rfl
        | failed code =>
          dsimp only
          rw [desk_setStatus]
          exact .asks (.refl 1 d.desk)

/-- A connect replaces the session, whatever there was. -/
theorem replaces_connectToHost (host : QString) (port : Int)
    (username password name keyPath keyPassphrase : QString) (created : Created) :
    Replaces c.desk (c.connectToHost host port username password name keyPath keyPassphrase
      created).desk := by
  by_cases h : host = [] ∨ username = []
  · unfold connectToHost
    rw [if_pos h]
    exact .asks (.refl 1 c.desk)
  · obtain ⟨credentials, heq⟩ := c.connectToHost_accepted h port password name keyPath keyPassphrase
      created
    rw [heq]
    exact replaces_connectToServer { c with servers := _, credentials := credentials } _ created

theorem desk_editSecret (oldKey newKey : QString) (changed : Bool) (old : Option (List UInt8))
    (value : QString) : (c.editSecret oldKey newKey changed old value).desk = c.desk := by
  unfold editSecret
  split
  · dsimp only
    split <;> rfl
  · split
    · split <;> rfl
    · rfl

theorem desk_updateServer (row : Int) (name host : QString) (port : Int) (username : QString)
    (provider : ProviderKind) (keyPath : QString) :
    (c.updateServer row name host port username provider keyPath).2.desk = c.desk := by
  unfold updateServer
  split <;> rfl

/-- Editing a row may end the session. -/
theorem replaces_editServer (index : Int) (host : QString) (port : Int)
    (username password name keyPath keyPassphrase : QString) :
    Replaces c.desk
      (c.editServer index host port username password name keyPath keyPassphrase).desk := by
  have hdropped : Replaces c.desk
      (if index = c.currentIndex then c.dropCurrentSession else c).desk := by
    split
    · exact .cleared c.cleared_dropCurrentSession
    · exact .asks (.refl 1 c.desk)
  unfold editServer
  split
  · exact .asks (.refl 1 c.desk)
  · dsimp only
    split
    · exact .asks (.refl 1 c.desk)
    · generalize (if index = c.currentIndex then c.dropCurrentSession else c) = d at hdropped ⊢
      have hupdated := d.desk_updateServer index name (trimmed host) port (trimmed username) .russh
        keyPath
      generalize d.updateServer index name (trimmed host) port (trimmed username) .russh keyPath
        = updated at hupdated ⊢
      obtain ⟨taken, d'⟩ := updated
      rw [← hupdated] at hdropped
      cases taken with
      | false => exact hdropped
      | true =>
        show Replaces c.desk (selectServer _ index).desk
        rw [desk_selectServer, desk_editSecret, desk_editSecret, desk_setStatus]
        exact hdropped

/-- Deleting a row may end the session. -/
theorem replaces_deleteServer (index : Int) : Replaces c.desk (c.deleteServer index).desk := by
  unfold deleteServer
  split
  · exact .asks (.refl 1 c.desk)
  · by_cases hcurrent : index = c.currentIndex
    · rw [if_pos hcurrent]
      exact .cleared c.cleared_dropCurrentSession
    · rw [if_neg hcurrent]
      split
      · exact .asks (.refl 1 c.desk)
      · exact .asks (.refl 1 c.desk)

/-- An announced state lists the root, or takes the connection away. -/
theorem replaces_setConnectionState (state : RsSessionState) :
    Asks 1 c.desk (c.setConnectionState state).desk
      ∨ Cleared c.desk (c.setConnectionState state).desk := by
  have hstatus : (if 0 ≤ c.currentIndex then
      setStatus { c with connectionState := state } c.currentIndex state
      else { c with connectionState := state }).desk = c.desk := by
    split
    · exact desk_setStatus _ _ _
    · rfl
  unfold setConnectionState
  dsimp only
  generalize (if 0 ≤ c.currentIndex then
      setStatus { c with connectionState := state } c.currentIndex state
      else { c with connectionState := state }) = d at hstatus ⊢
  rw [← hstatus]
  split
  · exact Or.inl (asks_reloadFiles { d with remoteHomePath := [] })
  · exact Or.inr d.cleared_forgetConnection
  · exact Or.inr d.cleared_forgetConnection
  · exact Or.inl (.refl 1 d.desk)

/-- An event asks for the root at most, or ends the connection. -/
theorem replaces_ingestRustEvent (ev : RustEvent) :
    Asks 1 c.desk (c.ingestRustEvent ev).desk ∨ Cleared c.desk (c.ingestRustEvent ev).desk := by
  cases ev with
  | stateChanged state => exact c.replaces_setConnectionState state
  | data data =>
    have h := c.desk_captureResourceOutput data
    left
    rw [← h]
    unfold ingestRustEvent
    dsimp only
    generalize c.captureResourceOutput data = captured at h ⊢
    obtain ⟨taken, c'⟩ := captured
    cases taken with
    | true => exact .refl 1 c'.desk
    | false => exact .refl 1 c'.desk
  | error code message => exact Or.inl (.refl 1 c.desk)
  | hostKeyPrompt message => exact Or.inl (.refl 1 c.desk)

end AppController

/-! ## §9. User actions. -/

/-- The actions that only the editor pane calls. -/
def UiAction.ofPane : UiAction → Bool
  | .activateEditorPath _ | .closeEditor | .openPath _ | .saveEditor _ | .saveEditorPath _ _ => true
  | _ => false

/-- What an action that is not the editor pane's does to the desk. -/
theorem UiAction.desk_run {action : UiAction} (h : action.ofPane = false) (handle : Nat)
    (c : AppController) : AppController.Replaces c.desk (action.run handle c).desk := by
  cases action with
  | selectServer index => exact .asks (c.desk_selectServer index ▸ .refl 1 _)
  | connectToServer index refused => exact c.replaces_connectToServer index _
  | connectToHost host port username password name keyPath keyPassphrase refused =>
    exact c.replaces_connectToHost host port username password name keyPath keyPassphrase _
  | editServer index host port username password name keyPath keyPassphrase =>
    exact c.replaces_editServer index host port username password name keyPath keyPassphrase
  | deleteServer index => exact c.replaces_deleteServer index
  | disconnectCurrent => exact .asks (c.desk_disconnectCurrent ▸ .refl 1 _)
  | cancel => exact .asks (.refl 1 _)
  | confirmHostKey accept => exact .asks (c.desk_confirmHostKey accept ▸ .refl 1 _)
  | sendCommand text => exact .asks (c.desk_sendCommand text ▸ .refl 1 _)
  | sendInterrupt => exact .asks (c.desk_sendInterrupt ▸ .refl 1 _)
  | clearTerminal => exact .asks (.refl 1 _)
  | runPythonFile path device => exact .asks (c.desk_runPythonFile path device ▸ .refl 1 _)
  | refreshResourceSnapshot => exact .asks c.asks_refreshResourceSnapshot
  | refreshEnvironment => exact .asks c.asks_refreshEnvironment
  | searchPackages query => exact .asks (c.asks_searchPackages query)
  | installPackage manager name => exact .asks (c.asks_mutatePackage _ manager name)
  | updatePackage manager name => exact .asks (c.asks_mutatePackage _ manager name)
  | removePackage manager name => exact .asks (c.asks_mutatePackage _ manager name)
  | activateEditorPath path => exact absurd h Bool.noConfusion
  | closeEditor => exact absurd h Bool.noConfusion
  | openPath path => exact absurd h Bool.noConfusion
  | reloadFiles => exact .asks c.asks_reloadFiles
  | fetchMore node => exact .asks (c.asks_fetchMore node)
  | copyPath path =>
    refine .asks ?_
    show Desk.Asks 1 c.desk (c.copyPath path).desk
    unfold AppController.copyPath
    split <;> exact .refl 1 c.desk
  | cutPath path =>
    refine .asks ?_
    show Desk.Asks 1 c.desk (c.cutPath path).desk
    unfold AppController.cutPath
    split <;> exact .refl 1 c.desk
  | paste destDir => exact .asks (c.asks_paste destDir)
  | renamePath path newName => exact .asks (c.asks_renamePath path newName)
  | deletePath path isDir => exact .asks (c.asks_deletePath path isDir)
  | makeDir parentDir name => exact .asks (c.asks_makeDir parentDir name)
  | makeFile parentDir name => exact .asks (c.asks_makeFile parentDir name)
  | uploadFile destDir localPath fileName contents =>
    exact .asks (c.asks_uploadFile destDir localPath fileName contents)
  | saveEditor text => exact absurd h Bool.noConfusion
  | saveEditorPath path text => exact absurd h Bool.noConfusion

end ResearchSSH.App
