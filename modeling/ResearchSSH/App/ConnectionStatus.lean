/-
  ResearchSSH.App.ConnectionStatus — what the server list shows of the connection.

  A status that comes in is shown in two places, `m_connectionState` and the row that is current.
  `editServer` and `deleteServer` reset both when they take the session away; `connectToServer`
  takes it away to give another row its own and resets neither, so the row it leaves goes on
  showing what it showed.

  Nothing is delivered late here: what comes in is of the live session.

  Main result:
    * `statuses_coherent_iff` — the statuses are coherent throughout a run exactly if every
      session that is left for another row has shown that it is settled.
-/

import ResearchSSH.App.SessionRow

namespace ResearchSSH.App

open ResearchSSH.Core ResearchSSH.Library

/-! ## §1. The server list and its session. -/

/-- The states of a row that has no connection and is not getting one. -/
def settled : RsSessionState → Bool
  | .idle | .disconnected | .failed => true
  | _ => false

/-- The controller, and what each session has announced last. -/
structure StatusPanel where
  controller : AppController
  /-- The handle the next session will have. -/
  nextHandle : Nat
  announced : Nat → Option RsSessionState

/-- What can happen next. -/
inductive StatusLabel
  | user (action : UiAction)
  /-- A batch of the live session is delivered. -/
  | delivered (batch : Batch)
  | driverStops
  deriving DecidableEq, Repr

/-- What session `handle` has announced after one more event. -/
def announce (handle : Nat) (announced : Nat → Option RsSessionState) :
    RustEvent → Nat → Option RsSessionState
  | .stateChanged state => Function.update announced handle (some state)
  | _ => announced

/-- What session `handle` has announced after a batch. -/
def announceAll (handle : Nat) (announced : Nat → Option RsSessionState) :
    Batch → Nat → Option RsSessionState
  | .events batch => batch.foldl (announce handle) announced
  | _ => announced

namespace StatusPanel

/-- The application has just been started. -/
def initial (saved : List SavedServer) (credentials : QString → Option (List UInt8)) :
    StatusPanel :=
  { controller := .initial (loadServers saved) credentials, nextHandle := 0
    announced := fun _ => none }

/-- One thing happens. -/
def step (s : StatusPanel) : StatusLabel → Option StatusPanel
  | .user action =>
    some { s with controller := action.run s.nextHandle s.controller
                  nextHandle := s.nextHandle + 1 }
  | .delivered batch =>
    match s.controller.live with
    | none => none
    | some handle =>
      some { s with controller := s.controller.ingest batch
                    announced := announceAll handle s.announced batch }
  | .driverStops =>
    some { s with controller := { s.controller with
                    session := s.controller.session.map fun x => { x with stopped := true } } }

/-- Every row but the current one is settled, and what shows a connection is a session that has
announced one last. -/
structure Coherent (s : StatusPanel) : Prop where
  others : ∀ (row : Nat) item, s.controller.servers[row]? = some item →
    (row : Int) ≠ s.controller.currentIndex → settled item.status = true
  connected : s.controller.connectionState = .connected →
    ∃ handle, s.controller.live = some handle ∧ s.announced handle = some .connected

/-- The action takes the session away from a row and leaves the row in the list as it is. -/
def leaves (c : AppController) : UiAction → Prop
  | .connectToServer index _ =>
    c.isValidIndex index = true ∧ c.session.isSome ∧ c.currentIndex ≠ index
  | .connectToHost host _ username _ _ _ _ _ => host ≠ [] ∧ username ≠ [] ∧ c.session.isSome
  | _ => False

/-- A session is left for another row only once its row shows it settled. -/
def LeavesSettled (s : StatusPanel) (l : StatusLabel) : Prop :=
  ∀ action, l = .user action → leaves s.controller action →
    ∀ item, s.controller.servers[s.controller.currentIndex.toNat]? = some item →
      settled item.status = true

/-! ## §2. The invariant. -/

/-- A shown state is the one announced last; before the first one it is a settled one. -/
def Shows (announced : Option RsSessionState) (shown : RsSessionState) : Prop :=
  match announced with
  | some state => shown = state
  | none => settled shown = true

/-- What is shown is what the live session has announced.  The handles given out are those
below `next`. -/
structure StatusSound (f : Face) (announced : Nat → Option RsSessionState) (next : Nat) :
    Prop where
  bound : SessionBound f
  others : ∀ (row : Nat) item, f.servers[row]? = some item → (row : Int) ≠ f.currentIndex →
    settled item.status = true
  state : ∀ x, f.session = some x → Shows (announced x.1) f.connectionState
  row : ∀ x item, f.session = some x → f.servers[f.currentIndex.toNat]? = some item →
    Shows (announced x.1) item.status
  noSession : f.session = none → settled f.connectionState = true
  given : ∀ x, f.session = some x → x.1 < next
  fresh : ∀ handle, next ≤ handle → announced handle = none

end StatusPanel

namespace StatusPanel.StatusSound

variable {f : Face} {announced : Nat → Option RsSessionState} {next : Nat}

/-- A handle that no session takes changes nothing. -/
theorem succ (h : StatusSound f announced next) : StatusSound f announced (next + 1) :=
  { h with
    given := fun x hx => Nat.lt_succ_of_lt (h.given x hx)
    fresh := fun handle hhandle => h.fresh handle (Nat.le_of_succ_le hhandle) }

/-- The row of a session exists. -/
theorem exists_row (h : StatusSound f announced next) {x : Nat × Login}
    (hx : f.session = some x) : ∃ item, f.servers[f.currentIndex.toNat]? = some item := by
  have hrow := (h.bound.row x hx).2
  rw [List.getElem?_map, Option.map_eq_some_iff] at hrow
  obtain ⟨item, hitem, -⟩ := hrow
  exact ⟨item, hitem⟩

/-- A row that shows its session settled shows it as the controller does. -/
theorem settled_state (h : StatusSound f announced next)
    (hrow : f.session.isSome → ∀ item, f.servers[f.currentIndex.toNat]? = some item →
      settled item.status = true) : settled f.connectionState = true := by
  cases hsession : f.session with
  | none => exact h.noSession hsession
  | some x =>
    obtain ⟨item, hitem⟩ := h.exists_row hsession
    have hsettled := hrow (by rw [hsession]; rfl) item hitem
    have hstate := h.state x hsession
    have hshown := h.row x item hsession hitem
    cases hannounced : announced x.1 with
    | none =>
      rw [hannounced] at hstate
      exact hstate
    | some state =>
      rw [hannounced] at hstate hshown
      have hsame : f.connectionState = item.status := hstate.trans hshown.symm
      rw [hsame]
      exact hsettled

/-- Where the session's own row is settled, all are. -/
theorem settled_row (h : StatusSound f announced next)
    (hrow : f.session.isSome → ∀ item, f.servers[f.currentIndex.toNat]? = some item →
      settled item.status = true) {row : Nat} {item : ServerItem}
    (hitem : f.servers[row]? = some item) : settled item.status = true := by
  by_cases hcurrent : (row : Int) = f.currentIndex
  swap
  · exact h.others row item hitem hcurrent
  have hsome : f.session.isSome := by
    rw [h.bound.live_iff]
    omega
  apply hrow hsome item
  rw [← hcurrent, Int.toNat_natCast]
  exact hitem

/-- With no session and nothing announced, everything is settled. -/
theorem of_no_session (hbound : SessionBound f) (hsession : f.session = none)
    (hrows : ∀ (row : Nat) item, f.servers[row]? = some item → settled item.status = true)
    (hstate : settled f.connectionState = true)
    (hfresh : ∀ handle, next ≤ handle → announced handle = none) :
    StatusSound f announced next where
  bound := hbound
  others row item hitem _ := hrows row item hitem
  state x hx := absurd (hsession.symm.trans hx) (Option.some_ne_none x).symm
  row x _ hx _ := absurd (hsession.symm.trans hx) (Option.some_ne_none x).symm
  noSession _ := hstate
  given x hx := absurd (hsession.symm.trans hx) (Option.some_ne_none x).symm
  fresh := hfresh

/-! ## §3. Actions on the server list. -/

/-- A row that is added is not connected. -/
theorem add (h : StatusSound f announced next) {item : ServerItem}
    (hitem : settled item.status = true) (credentials : QString → Option (List UInt8)) :
    StatusSound { f with servers := f.servers ++ [item], credentials := credentials } announced
      next where
  bound := h.bound.add item credentials
  others row x hx hne := by
    have hx' : (f.servers ++ [item])[row]? = some x := hx
    rw [List.getElem?_append] at hx'
    split at hx'
    · exact h.others row x hx' hne
    · rw [List.getElem?_singleton] at hx'
      split at hx'
      · rw [Option.some.injEq] at hx'
        rw [← hx']
        exact hitem
      · exact absurd hx' (Option.some_ne_none x).symm
  state := h.state
  row x y hx hy := by
    obtain ⟨row, hrow⟩ := h.exists_row hx
    have hy' : (f.servers ++ [item])[f.currentIndex.toNat]? = some y := hy
    rw [List.getElem?_append_left (List.getElem?_eq_some_iff.mp hrow).1] at hy'
    exact h.row x y hx hy'
  noSession := h.noSession
  given := h.given
  fresh := h.fresh

/-- A connect, if the row that is left has settled. -/
theorem connect {c : AppController} {index : Int} {created : AppController.Created}
    (h : StatusSound c.face announced next) (hout : c.ConnectOutcome index created f)
    (hcreated : ∀ handle, created = .session handle → handle = next)
    (hleft : c.isValidIndex index = true → c.session.isSome → c.currentIndex ≠ index →
      ∀ item, c.servers[c.currentIndex.toNat]? = some item → settled item.status = true) :
    StatusSound f announced (next + 1) := by
  have hbound : SessionBound f := h.bound.connect hout
  have hsession : c.face.session.isSome = c.session.isSome := Option.isSome_map
  cases hout with
  | invalid _ => exact h.succ
  | again _ _ _ =>
    exact { h.succ with bound := hbound }
  -- nothing is announced yet for the new session, so its row must be settled
  | @opened item handle hvalid hitem hother hhandle =>
    obtain ⟨hlow, -⟩ := c.isValidIndex_iff.mp hvalid
    have hrow : c.face.session.isSome → ∀ item,
        c.face.servers[c.face.currentIndex.toNat]? = some item → settled item.status = true := by
      rw [hsession]
      exact fun hsome => hleft hvalid hsome (hother hsome)
    have hnext : handle = next := hcreated handle hhandle
    have hnew : announced handle = none := h.fresh handle (by omega)
    refine ⟨hbound, ?_, ?_, ?_, ?_, ?_, h.succ.fresh⟩
    · intro row item hitem _
      exact h.settled_row hrow hitem
    · rintro x ⟨⟩
      show Shows (announced handle) c.connectionState
      rw [hnew]
      exact h.settled_state hrow
    · rintro x item ⟨⟩ hitem
      show Shows (announced handle) item.status
      rw [hnew]
      exact h.settled_row hrow hitem
    · intro hnone
      exact absurd hnone (Option.some_ne_none _)
    · rintro x ⟨⟩
      show handle < next + 1
      omega
  -- no session is left, and the row that was tried says so
  | failed hvalid hother _ =>
    have hrow : c.face.session.isSome → ∀ item,
        c.face.servers[c.face.currentIndex.toNat]? = some item → settled item.status = true := by
      rw [hsession]
      exact fun hsome => hleft hvalid hsome (hother hsome)
    apply of_no_session hbound rfl ?_ (h.settled_state hrow) h.succ.fresh
    intro row item hitem
    have hmodified : (c.servers.modify index.toNat fun item =>
      { item with status := .failed })[row]? = some item := hitem
    rw [List.getElem?_modify, Option.map_eq_map, Option.map_eq_some_iff] at hmodified
    obtain ⟨old, hold, hnew⟩ := hmodified
    rw [← hnew]
    split
    · rfl
    · exact h.settled_row hrow hold

/-- An edit keeps the row's status. -/
theorem edit {c : AppController} {index : Int} {host username : QString} {port : Int}
    (h : StatusSound c.face announced next) (hvalid : c.isValidIndex index = true)
    (haccepted : AppController.EditAccepted host port username)
    (password name keyPath keyPassphrase : QString) :
    StatusSound (c.editServer index host port username password name keyPath keyPassphrase).face
      announced next := by
  have hbound := h.bound.edit hvalid haccepted password name keyPath keyPassphrase
  obtain ⟨hlow, -⟩ := c.isValidIndex_iff.mp hvalid
  rw [c.editServer_accepted hvalid haccepted] at hbound ⊢
  -- the changed row is idle, the others are as they were
  have hrows : ∀ (row : Nat) item, (c.servers.modify index.toNat
      (AppController.editedItem name host port username keyPath))[row]? = some item →
      ((row : Int) ≠ index → (row : Int) ≠ c.currentIndex) → settled item.status = true := by
    intro row item hitem hne
    rw [List.getElem?_modify, Option.map_eq_map, Option.map_eq_some_iff] at hitem
    obtain ⟨old, hold, hnew⟩ := hitem
    rw [← hnew]
    split
    · rfl
    next hrow =>
      have hother : (row : Int) ≠ index := by omega
      exact h.others row old hold (hne hother)
  by_cases hcurrent : index = c.currentIndex
  · rw [if_pos hcurrent] at hbound ⊢
    exact of_no_session hbound rfl (fun row item hitem => hrows row item hitem
      (fun hne => hcurrent ▸ hne)) rfl h.fresh
  · rw [if_neg hcurrent] at hbound ⊢
    refine ⟨hbound, fun row item hitem hne => hrows row item hitem (fun _ => hne), h.state, ?_,
      h.noSession, h.given, h.fresh⟩
    intro x item hx hitem
    have hne : index.toNat ≠ c.currentIndex.toNat := by
      have : 0 ≤ c.currentIndex := (h.bound.row x hx).1
      omega
    apply h.row x item hx
    rw [← hitem]
    exact (List.getElem?_modify_ne _ _ hne).symm

/-- The row goes, and with it the session that it may have. -/
theorem delete {c : AppController} {index : Int} (h : StatusSound c.face announced next)
    (hvalid : c.isValidIndex index = true) :
    StatusSound (c.deleteServer index).face announced next := by
  have hbound := h.bound.delete hvalid
  obtain ⟨hlow, hhigh⟩ := c.isValidIndex_iff.mp hvalid
  rw [c.deleteServer_valid hvalid] at hbound ⊢
  -- a row that is left was a row before, one further down from the deleted one on
  have hrows : ∀ (row : Nat) item, (c.servers.eraseIdx index.toNat)[row]? = some item →
      c.servers[if row < index.toNat then row else row + 1]? = some item := by
    intro row item hitem
    rw [List.getElem?_eraseIdx] at hitem
    split
    next hfront => rwa [if_pos hfront] at hitem
    next hbehind => rwa [if_neg hbehind] at hitem
  by_cases hcurrent : index = c.currentIndex
  · rw [if_pos hcurrent] at hbound ⊢
    refine of_no_session hbound rfl (fun row item hitem => ?_) rfl h.fresh
    refine h.others _ item (hrows row item hitem) ?_
    show _ ≠ c.currentIndex
    split <;> omega
  rw [if_neg hcurrent] at hbound ⊢
  by_cases hbehind : c.currentIndex > index
  · rw [if_pos hbehind] at hbound ⊢
    refine ⟨hbound, ?_, h.state, ?_, h.noSession, h.given, h.fresh⟩
    · intro row item hitem hne
      refine h.others _ item (hrows row item hitem) ?_
      have hne' : (row : Int) ≠ c.currentIndex - 1 := hne
      show _ ≠ c.currentIndex
      split <;> omega
    · intro x item hx hitem
      apply h.row x item hx
      have hmoved := hrows (c.currentIndex - 1).toNat item hitem
      have hindex : (if (c.currentIndex - 1).toNat < index.toNat then (c.currentIndex - 1).toNat
          else (c.currentIndex - 1).toNat + 1) = c.currentIndex.toNat := by
        split <;> omega
      rw [hindex] at hmoved
      exact hmoved
  · rw [if_neg hbehind] at hbound ⊢
    refine ⟨hbound, ?_, h.state, ?_, h.noSession, h.given, h.fresh⟩
    · intro row item hitem hne
      refine h.others _ item (hrows row item hitem) ?_
      have hne' : (row : Int) ≠ c.currentIndex := hne
      show _ ≠ c.currentIndex
      split <;> omega
    · intro x item hx hitem
      have hfront : 0 ≤ c.currentIndex := (h.bound.row x hx).1
      apply h.row x item hx
      have hmoved := hrows c.currentIndex.toNat item hitem
      rw [if_pos (by omega)] at hmoved
      exact hmoved

/-! ## §4. Events and results. -/

/-- What the live session announces is shown by its row and by the controller. -/
theorem setConnectionState {c : AppController} {handle : Nat}
    (h : StatusSound c.face announced next) (hlive : c.live = some handle)
    (state : RsSessionState) :
    StatusSound (c.setConnectionState state).face
      (Function.update announced handle (some state)) next := by
  have hbound := h.bound.setConnectionState state
  obtain ⟨x, hx, hhandle⟩ := Option.map_eq_some_iff.mp hlive
  have hsession : c.face.session = some (handle, x.login) := by
    rw [AppController.face, hx, ← hhandle]
    rfl
  have hlow : 0 ≤ c.currentIndex := (h.bound.row _ hsession).1
  obtain ⟨own, hown⟩ := h.exists_row hsession
  have hvalid : c.isValidIndex c.currentIndex = true := by
    have hlength : c.currentIndex.toNat < c.servers.length := (List.getElem?_eq_some_iff.mp hown).1
    exact c.isValidIndex_iff.mpr ⟨hlow, by omega⟩
  rw [c.face_setConnectionState, if_pos hlow, c.setStatus_eq hvalid] at hbound ⊢
  -- the batch is of the session that is live, so its row is the selected one
  have hsame : ∀ y, c.face.session = some y → y.1 = handle := by
    intro y hy
    rw [hsession, Option.some.injEq] at hy
    rw [← hy]
  refine ⟨hbound, ?_, ?_, ?_, ?_, h.given, ?_⟩
  · intro row item hitem hne
    have hne' : c.currentIndex.toNat ≠ row := by
      have : (row : Int) ≠ c.currentIndex := hne
      omega
    apply h.others row item ?_ hne
    rw [← hitem]
    exact (List.getElem?_modify_ne _ _ hne').symm
  · intro y hy
    rw [hsame y hy, Function.update_self]
    rfl
  · intro y item hy hitem
    rw [hsame y hy, Function.update_self]
    have hitem' : (c.servers.modify c.currentIndex.toNat fun item =>
      { item with status := state })[c.currentIndex.toNat]? = some item := hitem
    have hown' : c.servers[c.currentIndex.toNat]? = some own := hown
    rw [List.getElem?_modify_eq, hown', Option.map_eq_map, Option.map_some, Option.some.injEq] at hitem'
    rw [← hitem']
    rfl
  · intro hnone
    exact absurd (hsession.symm.trans hnone) (Option.some_ne_none _)
  · intro other hother
    have hgiven : handle < next := h.given _ hsession
    rw [Function.update_of_ne (by omega)]
    exact h.fresh other hother

/-- The states of a batch reach the row of their session. -/
theorem ingestRustEvents {handle : Nat} (batch : List RustEvent) :
    ∀ {c : AppController} {announced : Nat → Option RsSessionState},
      StatusSound c.face announced next → c.live = some handle →
      StatusSound (c.ingestRustEvents batch).face (batch.foldl (announce handle) announced)
        next := by
  induction batch with
  | nil => intro c announced h _; exact h
  | cons ev batch ih =>
    intro c announced h hlive
    show StatusSound ((c.ingestRustEvent ev).ingestRustEvents batch).face
      (batch.foldl (announce handle) (announce handle announced ev)) next
    apply ih
    · cases ev with
      | stateChanged state => exact h.setConnectionState hlive state
      | _ =>
        rw [c.face_ingestRustEvent (fun _ hstate => RustEvent.noConfusion hstate)]
        exact h
    · rw [AppController.live_of_binding (c.binding_ingestRustEvent ev)]
      exact hlive

/-- A batch of the live session. -/
theorem ingest {c : AppController} {handle : Nat} (h : StatusSound c.face announced next)
    (hlive : c.live = some handle) (batch : Batch) :
    StatusSound (c.ingest batch).face (announceAll handle announced batch) next := by
  cases batch with
  | events batch => exact ingestRustEvents batch h hlive
  | files batch =>
    show StatusSound (c.ingestFileResults batch).face announced next
    rw [c.face_ingestFileResults batch]
    exact h
  | execs batch =>
    show StatusSound (c.ingestExecResults batch).face announced next
    rw [c.face_ingestExecResults batch]
    exact h

/-- No row is connected at the start. -/
theorem initial (saved : List SavedServer) (credentials : QString → Option (List UInt8)) :
    StatusSound (AppController.initial (loadServers saved) credentials).face (fun _ => none) 0 := by
  apply of_no_session (SessionBound.initial _ _) rfl ?_ rfl (fun _ _ => rfl)
  intro row item hitem
  rw [status_loadServers (List.mem_of_getElem? hitem)]
  rfl

/-- The step of a user action that leaves no session unsettled. -/
theorem run {c : AppController} (h : StatusSound c.face announced next) (action : UiAction)
    (hleft : leaves c action → ∀ item, c.servers[c.currentIndex.toNat]? = some item →
      settled item.status = true) :
    StatusSound (action.run next c).face announced (next + 1) := by
  have hcreated : ∀ refused handle, answer next refused = .session handle → handle = next := by
    intro refused handle hanswer
    cases refused with
    | none => exact (AppController.Created.session.inj hanswer).symm
    | some code => exact AppController.Created.noConfusion hanswer
  -- what switches no session changes the selection at most
  by_cases hswitch : action.switches = true
  swap
  · rcases UiAction.face_run (Bool.eq_false_iff.mpr hswitch) with ⟨index, rfl⟩ | hface
    · have hbound : SessionBound (c.selectServer index).face :=
        h.bound.run next (.selectServer index)
      show StatusSound (c.selectServer index).face announced (next + 1)
      by_cases hvalid : c.isValidIndex index = true
      · rw [c.selectServer_eq hvalid] at hbound ⊢
        exact { h.succ with bound := hbound }
      · unfold AppController.selectServer
        rw [if_neg (fun hand => hvalid hand.1)]
        exact h.succ
    · rw [hface]
      exact h.succ
  cases action with
  | connectToServer index refused =>
    apply h.connect (c.connectToServer_outcome index (answer next refused)) (hcreated refused)
    intro hvalid hsome hne
    exact hleft ⟨hvalid, hsome, hne⟩
  | connectToHost host port username password name keyPath keyPassphrase refused =>
    show StatusSound (c.connectToHost _ _ _ _ _ _ _ _).face announced (next + 1)
    by_cases hvalues : host = [] ∨ username = []
    · rw [c.connectToHost_refused hvalues]
      exact h.succ
    · obtain ⟨credentials, heq⟩ := c.connectToHost_accepted hvalues port password name keyPath
        keyPassphrase (answer next refused)
      rw [heq]
      refine StatusSound.connect ?_ (AppController.connectToServer_outcome _ _ _)
        (hcreated refused) ?_
      · exact h.add rfl credentials
      · -- the current row is one of those before the added one
        intro _ hsome _ item hitem
        apply hleft ⟨(not_or.mp hvalues).1, (not_or.mp hvalues).2, hsome⟩ item
        obtain ⟨x, hx⟩ := Option.isSome_iff_exists.mp hsome
        have hx' : c.session = some x := hx
        have hsession : c.face.session = some (x.handle, x.login) := by
          rw [AppController.face, hx']
          rfl
        obtain ⟨own, hown⟩ := h.exists_row hsession
        have hlength : c.currentIndex.toNat < c.servers.length :=
          (List.getElem?_eq_some_iff.mp hown).1
        have hitem' : (c.servers ++ [newServer name host (portOf port) username .russh keyPath])[
          c.currentIndex.toNat]? = some item := hitem
        rwa [List.getElem?_append_left hlength] at hitem'
  | editServer index host port username password name keyPath keyPassphrase =>
    show StatusSound (c.editServer _ _ _ _ _ _ _ _).face announced (next + 1)
    by_cases haccepted : c.isValidIndex index = true ∧ AppController.EditAccepted host port username
    · exact (h.edit haccepted.1 haccepted.2 password name keyPath keyPassphrase).succ
    · rw [c.editServer_refused haccepted]
      exact h.succ
  | deleteServer index =>
    show StatusSound (c.deleteServer index).face announced (next + 1)
    by_cases hvalid : c.isValidIndex index = true
    · exact (h.delete hvalid).succ
    · rw [c.deleteServer_invalid hvalid]
      exact h.succ
  | _ => exact absurd hswitch Bool.noConfusion

end StatusPanel.StatusSound

/-! ## §5. Leaving a session unsettled. -/

/-- A row whose session is taken away for another row shows what it showed, and is not the
current one any more. -/
theorem AppController.ConnectOutcome.left_row {c : AppController} {index : Int}
    {created : AppController.Created} {f : Face} (hout : c.ConnectOutcome index created f)
    (hvalid : c.isValidIndex index = true) (hsome : c.session.isSome)
    (hother : c.currentIndex ≠ index) (hlow : 0 ≤ c.currentIndex) {item : ServerItem}
    (hitem : c.servers[c.currentIndex.toNat]? = some item) :
    f.servers[c.currentIndex.toNat]? = some item ∧
      (c.currentIndex.toNat : Int) ≠ f.currentIndex := by
  cases hout with
  | invalid hinvalid =>
    rw [hvalid] at hinvalid
    exact absurd hinvalid Bool.noConfusion
  | again _ _ hcurrent => exact absurd hcurrent hother
  | opened _ _ _ _ =>
    refine ⟨hitem, ?_⟩
    show (c.currentIndex.toNat : Int) ≠ index
    omega
  | failed _ _ _ =>
    obtain ⟨hindex, -⟩ := c.isValidIndex_iff.mp hvalid
    constructor
    · show (c.servers.modify index.toNat _)[c.currentIndex.toNat]? = some item
      rw [List.getElem?_modify_ne _ _ (by omega)]
      exact hitem
    · show (c.currentIndex.toNat : Int) ≠ if c.session.isSome then -1 else c.currentIndex
      rw [if_pos hsome]
      omega

namespace StatusPanel

/-- A row that is left while it is connected stays so for ever. -/
theorem not_coherent_of_left {s : StatusPanel} {next : Nat}
    (h : StatusSound s.controller.face s.announced next) {action : UiAction}
    (hleaves : leaves s.controller action) {item : ServerItem}
    (hitem : s.controller.servers[s.controller.currentIndex.toNat]? = some item)
    (hunsettled : ¬ settled item.status = true) (announced : Nat → Option RsSessionState) :
    ¬ Coherent { controller := action.run next s.controller, nextHandle := next + 1
                 announced := announced } := by
  intro hcoherent
  obtain ⟨c, handle, before⟩ := s
  dsimp only at h hleaves hitem hcoherent
  have hcurrent : c.session.isSome → 0 ≤ c.currentIndex := by
    intro hsome
    obtain ⟨x, hx⟩ := Option.isSome_iff_exists.mp hsome
    have hsession : c.face.session = some (x.handle, x.login) := by
      rw [AppController.face, hx]
      rfl
    exact (h.bound.row _ hsession).1
  have hlength : c.currentIndex.toNat < c.servers.length := (List.getElem?_eq_some_iff.mp hitem).1
  cases action with
  | connectToServer index refused =>
    obtain ⟨hvalid, hsome, hother⟩ := hleaves
    obtain ⟨hrow, hne⟩ := (c.connectToServer_outcome index (answer next refused)).left_row hvalid
      hsome hother (hcurrent hsome) hitem
    exact hunsettled (hcoherent.others _ item hrow hne)
  | connectToHost host port username password name keyPath keyPassphrase refused =>
    obtain ⟨hhost, husername, hsome⟩ := hleaves
    have hother : c.currentIndex ≠ (c.servers.length : Int) := by
      have := hcurrent hsome
      omega
    obtain ⟨credentials, heq⟩ := c.connectToHost_accepted (not_or.mpr ⟨hhost, husername⟩) port
      password name keyPath keyPassphrase (answer next refused)
    have hadded : (c.servers ++ [newServer name host (portOf port) username .russh keyPath])[
        c.currentIndex.toNat]? = some item := by
      rw [List.getElem?_append_left hlength]
      exact hitem
    obtain ⟨hrow, hne⟩ := (AppController.connectToServer_outcome
      { c with servers := c.servers ++ [newServer name host (portOf port) username .russh keyPath]
               credentials := credentials } c.servers.length (answer next refused)).left_row
      (by
        rw [AppController.isValidIndex_iff, List.length_append, List.length_singleton]
        omega) hsome hother (hcurrent hsome) hadded
    rw [← heq] at hrow hne
    exact hunsettled (hcoherent.others _ item hrow hne)
  | _ => exact hleaves

/-! ## §6. Runs. -/

/-- The invariant of a run. -/
def Sound (s : StatusPanel) : Prop := StatusSound s.controller.face s.announced s.nextHandle

/-- The invariant says what the statuses are to be. -/
theorem Sound.coherent {s : StatusPanel} (h : s.Sound) : s.Coherent := by
  refine ⟨h.others, fun hconnected => ?_⟩
  cases hsession : s.controller.session with
  | none =>
    have hstate : settled s.controller.connectionState = true :=
      h.noSession (by rw [AppController.face, hsession]; rfl)
    rw [hconnected] at hstate
    exact absurd hstate Bool.noConfusion
  | some x =>
    have hface : s.controller.face.session = some (x.handle, x.login) := by
      rw [AppController.face, hsession]
      rfl
    have hshown : Shows (s.announced x.handle) s.controller.connectionState := h.state _ hface
    refine ⟨x.handle, by rw [AppController.live, hsession]; rfl, ?_⟩
    rw [hconnected] at hshown
    cases hannounced : s.announced x.handle with
    | none =>
      rw [hannounced] at hshown
      exact absurd hshown Bool.noConfusion
    | some state =>
      rw [hannounced] at hshown
      rw [← show RsSessionState.connected = state from hshown]

/-- **One step** keeps it, if the row that is left has settled. -/
theorem Sound.step {s t : StatusPanel} {l : StatusLabel} (h : s.Sound) (hl : s.LeavesSettled l)
    (hstep : s.step l = some t) : t.Sound := by
  cases l with
  | user action =>
    rw [StatusPanel.step, Option.some.injEq] at hstep
    subst hstep
    exact StatusSound.run h action (hl action rfl)
  | delivered batch =>
    unfold StatusPanel.step at hstep
    cases hlive : s.controller.live with
    | none =>
      rw [hlive] at hstep
      exact absurd hstep (Option.some_ne_none t).symm
    | some handle =>
      rw [hlive] at hstep
      dsimp only at hstep
      rw [Option.some.injEq] at hstep
      subst hstep
      exact StatusSound.ingest h hlive batch
  | driverStops =>
    rw [StatusPanel.step, Option.some.injEq] at hstep
    subst hstep
    unfold Sound
    rw [s.controller.face_stopped]
    exact h

/-- **Connection status.**  In a run of user actions and of what the live session delivers, every
row but the current one shows `Idle`, `Disconnected` or `Failed`, and the controller shows
`Connected` only for a live session that has announced it last, in every state, exactly if no
`connectToServer` or `connectToHost` takes the session away from a row that shows another
state. -/
theorem statuses_coherent_iff (saved : List SavedServer)
    (credentials : QString → Option (List UInt8)) (labels : List StatusLabel) :
    Throughout StatusPanel.step Coherent (StatusPanel.initial saved credentials) labels ↔
      Along StatusPanel.step LeavesSettled (StatusPanel.initial saved credentials) labels := by
  refine throughout_iff_along (I := Sound) (fun s h => h.coherent)
    (fun s l t h hl hstep => h.step hl hstep) ?_ (StatusSound.initial saved credentials)
  intro s l h hleft
  unfold LeavesSettled at hleft
  push Not at hleft
  obtain ⟨action, rfl, hleaves, item, hitem, hunsettled⟩ := hleft
  exact ⟨_, rfl, not_coherent_of_left h hleaves hitem hunsettled s.announced⟩

/-- Two saved servers. -/
def twoSaved : StatusPanel :=
  initial [{ name := [], host := lit "a", port := 22, username := lit "u", keyPath := [] },
           { name := [], host := lit "b", port := 22, username := lit "u", keyPath := [] }]
    fun _ => none

/-- A connected server is left for another one: its row goes on showing `Connected`, and so does
the controller before the new session has announced anything. -/
theorem left_row_stays_connected :
    ¬ Throughout StatusPanel.step Coherent twoSaved
      [.user (.connectToServer 0 none),
       .delivered (.events [.stateChanged .connecting, .stateChanged .connected]),
       .user (.connectToServer 1 none)] := by
  intro h
  obtain ⟨s, hrun⟩ : ∃ s, exec StatusPanel.step twoSaved
      [.user (.connectToServer 0 none),
       .delivered (.events [.stateChanged .connecting, .stateChanged .connected]),
       .user (.connectToServer 1 none)] = some s :=
    Option.isSome_iff_exists.mp (by decide)
  have hview : (exec StatusPanel.step twoSaved
      [.user (.connectToServer 0 none),
       .delivered (.events [.stateChanged .connecting, .stateChanged .connected]),
       .user (.connectToServer 1 none)]).map
        (fun s => (s.controller.connectionState, s.controller.live, s.announced 1))
      = some (.connected, some 1, none) := by decide
  rw [hrun, Option.map_some, Option.some.injEq, Prod.mk.injEq, Prod.mk.injEq] at hview
  obtain ⟨handle, hlive, hannounced⟩ :=
    (h _ s List.prefix_rfl hrun).connected hview.1
  rw [hview.2.1, Option.some.injEq] at hlive
  rw [← hlive, hview.2.2] at hannounced
  exact absurd hannounced (Option.some_ne_none _).symm

end StatusPanel

end ResearchSSH.App
