/-
  ResearchSSH.App.SessionRow — the row the session belongs to.

  The controller finds the server of its session through `m_currentIndex`, an index into a list
  that is added to, changed and shortened while the session lives; `m_selectedIndex` is another
  one.  The session itself keeps the login it was created with, so the index can be held against
  it.

  Main results:
    * `SessionBound.run` — an action on the server list keeps the session at its row.
    * `session_at_its_row` — in every state of every run, whatever is delivered.
-/

import ResearchSSH.App.ServerActions
import ResearchSSH.Library.Transition

namespace ResearchSSH.App

open ResearchSSH.Core ResearchSSH.Library

/-! ## §1. The invariant. -/

/-- The session is that of the current row, and what is selected is a row or nothing. -/
structure SessionBound (f : Face) : Prop where
  live_iff : f.session.isSome ↔ f.currentIndex ≠ -1
  row : ∀ x, f.session = some x → 0 ≤ f.currentIndex ∧
    (f.servers.map ServerItem.login)[f.currentIndex.toNat]? = some x.2
  endpoint : ∀ x, f.session = some x →
    f.currentEndpoint = AppController.endpoint x.2.username x.2.host x.2.port
  selected : f.selectedIndex = -1 ∨ 0 ≤ f.selectedIndex ∧ f.selectedIndex < f.servers.length

namespace SessionBound

variable {f g : Face}

/-- Without a session there is no current row. -/
theorem currentIndex_of_none (h : SessionBound f) (hnone : f.session = none) :
    f.currentIndex = -1 := by
  by_contra hne
  have hsome := h.live_iff.mpr hne
  rw [hnone] at hsome
  exact absurd hsome Bool.noConfusion

/-- Only the logins of the rows count, not their names or statuses. -/
theorem of_logins (h : SessionBound f)
    (hservers : g.servers.map ServerItem.login = f.servers.map ServerItem.login)
    (hsession : g.session = f.session) (hcurrent : g.currentIndex = f.currentIndex)
    (hselected : g.selectedIndex = f.selectedIndex)
    (hendpoint : g.currentEndpoint = f.currentEndpoint) : SessionBound g := by
  have hlength : g.servers.length = f.servers.length := by
    have hmapped := congrArg List.length hservers
    rwa [List.length_map, List.length_map] at hmapped
  refine ⟨?_, ?_, ?_, ?_⟩
  · rw [hsession, hcurrent]
    exact h.live_iff
  · rw [hsession, hcurrent, hservers]
    exact h.row
  · rw [hsession, hendpoint]
    exact h.endpoint
  · rw [hselected, hlength]
    exact h.selected

/-- Another row is selected. -/
theorem select (h : SessionBound f) {index : Int} (hlow : 0 ≤ index)
    (hhigh : index < f.servers.length) : SessionBound { f with selectedIndex := index } :=
  ⟨h.live_iff, h.row, h.endpoint, Or.inr ⟨hlow, hhigh⟩⟩

/-- Without a session there is no current row. -/
theorem of_no_session (hsession : f.session = none) (hcurrent : f.currentIndex = -1)
    (hselected : f.selectedIndex = -1 ∨ 0 ≤ f.selectedIndex ∧ f.selectedIndex < f.servers.length) :
    SessionBound f := by
  refine ⟨?_, ?_, ?_, hselected⟩
  · rw [hsession, hcurrent]
    simp
  · rw [hsession]
    exact fun x hx => absurd hx (Option.some_ne_none x).symm
  · rw [hsession]
    exact fun x hx => absurd hx (Option.some_ne_none x).symm

/-! ## §2. Actions on the server list. -/

/-- A row is added behind the others. -/
theorem add (h : SessionBound f) (item : ServerItem)
    (credentials : QString → Option (List UInt8)) :
    SessionBound { f with servers := f.servers ++ [item], credentials := credentials } := by
  refine ⟨h.live_iff, ?_, h.endpoint, ?_⟩
  · intro x hx
    obtain ⟨hlow, hrow⟩ := h.row x hx
    refine ⟨hlow, ?_⟩
    obtain ⟨hbound, -⟩ := List.getElem?_eq_some_iff.mp hrow
    show ((f.servers ++ [item]).map ServerItem.login)[f.currentIndex.toNat]? = some x.2
    rw [List.map_append, List.getElem?_append_left hbound]
    exact hrow
  · rcases h.selected with hnone | ⟨hlow, hhigh⟩
    · exact Or.inl hnone
    · refine Or.inr ⟨hlow, ?_⟩
      show f.selectedIndex < ((f.servers ++ [item]).length : Int)
      rw [List.length_append]
      omega

/-- A session begins at its row. -/
theorem connect {c : AppController} {index : Int} {created : AppController.Created}
    (h : SessionBound c.face) (hout : c.ConnectOutcome index created f) : SessionBound f := by
  cases hout with
  | invalid _ => exact h
  | again hvalid _ _ =>
    obtain ⟨hlow, hhigh⟩ := c.isValidIndex_iff.mp hvalid
    exact h.select hlow hhigh
  | opened hvalid hitem _ _ =>
    obtain ⟨hlow, hhigh⟩ := c.isValidIndex_iff.mp hvalid
    refine ⟨?_, ?_, ?_, Or.inr ⟨hlow, hhigh⟩⟩
    · show (some _).isSome = true ↔ index ≠ -1
      rw [Option.isSome_some]
      exact iff_of_true rfl (by omega)
    · rintro x ⟨⟩
      refine ⟨hlow, ?_⟩
      show (c.servers.map ServerItem.login)[index.toNat]? = _
      rw [List.getElem?_map, hitem]
      rfl
    · rintro x ⟨⟩
      show c.endpointFor index = _
      unfold AppController.endpointFor
      rw [hitem]
      rfl
  -- no session is left, whether there was one before or not
  | failed hvalid _ _ =>
    obtain ⟨hlow, hhigh⟩ := c.isValidIndex_iff.mp hvalid
    apply of_no_session
    · rfl
    · show (if c.session.isSome then -1 else c.currentIndex) = -1
      cases hsession : c.session with
      | none =>
        apply h.currentIndex_of_none
        show c.session.map _ = none
        rw [hsession]
        rfl
      | some x => rfl
    · refine Or.inr ⟨hlow, ?_⟩
      show index < ((c.servers.modify index.toNat _).length : Int)
      rw [List.length_modify]
      exact hhigh

/-- A row is edited. -/
theorem edit {c : AppController} {index : Int} {host username : QString} {port : Int}
    (h : SessionBound c.face) (hvalid : c.isValidIndex index = true)
    (haccepted : AppController.EditAccepted host port username)
    (password name keyPath keyPassphrase : QString) :
    SessionBound
      (c.editServer index host port username password name keyPath keyPassphrase).face := by
  obtain ⟨hlow, hhigh⟩ := c.isValidIndex_iff.mp hvalid
  rw [c.editServer_accepted hvalid haccepted]
  have hselected : index = -1 ∨ 0 ≤ index ∧ index <
      ((c.servers.modify index.toNat
        (AppController.editedItem name host port username keyPath)).length : Int) := by
    rw [List.length_modify]
    exact Or.inr ⟨hlow, hhigh⟩
  by_cases hcurrent : index = c.currentIndex
  · rw [if_pos hcurrent]
    exact of_no_session rfl rfl hselected
  · rw [if_neg hcurrent]
    refine ⟨h.live_iff, ?_, h.endpoint, hselected⟩
    intro x hx
    obtain ⟨hcurrentLow, hrow⟩ := h.row x hx
    refine ⟨hcurrentLow, ?_⟩
    -- the session is that of another row
    have hne : index.toNat ≠ c.currentIndex.toNat := by
      have : 0 ≤ c.currentIndex := hcurrentLow
      omega
    show ((c.servers.modify index.toNat _).map ServerItem.login)[c.currentIndex.toNat]? = some x.2
    rw [List.getElem?_map, List.getElem?_modify_ne _ _ hne, ← List.getElem?_map]
    exact hrow

/-- The rows behind a deleted one move up, and so does the current one. -/
theorem delete {c : AppController} {index : Int} (h : SessionBound c.face)
    (hvalid : c.isValidIndex index = true) : SessionBound (c.deleteServer index).face := by
  obtain ⟨hlow, hhigh⟩ := c.isValidIndex_iff.mp hvalid
  have hlength : ((c.servers.eraseIdx index.toNat).length : Int) = c.servers.length - 1 := by
    rw [List.length_eraseIdx_of_lt (by omega)]
    omega
  rw [c.deleteServer_valid hvalid]
  have hselected : c.selectedAfterDelete index = -1 ∨ 0 ≤ c.selectedAfterDelete index ∧
      c.selectedAfterDelete index < ((c.servers.eraseIdx index.toNat).length : Int) := by
    have hbefore : c.selectedIndex = -1 ∨ 0 ≤ c.selectedIndex ∧
      c.selectedIndex < (c.servers.length : Int) := h.selected
    unfold AppController.selectedAfterDelete
    rw [hlength]
    split
    · split
      · exact Or.inl rfl
      · exact Or.inr (by omega)
    · split <;> omega
  by_cases hcurrent : index = c.currentIndex
  · rw [if_pos hcurrent]
    exact of_no_session rfl rfl hselected
  rw [if_neg hcurrent]
  by_cases hbehind : c.currentIndex > index
  · -- the session's row moves up by one
    rw [if_pos hbehind]
    refine ⟨?_, ?_, h.endpoint, hselected⟩
    · have hlive := h.live_iff
      show c.face.session.isSome = true ↔ c.currentIndex - 1 ≠ -1
      rw [hlive]
      show c.currentIndex ≠ -1 ↔ c.currentIndex - 1 ≠ -1
      omega
    · intro x hx
      obtain ⟨-, hrow⟩ := h.row x hx
      refine ⟨?_, ?_⟩
      · show 0 ≤ c.currentIndex - 1
        omega
      · have hnat : (c.currentIndex - 1).toNat + 1 = c.currentIndex.toNat := by omega
        show ((c.servers.eraseIdx index.toNat).map ServerItem.login)[(c.currentIndex - 1).toNat]?
          = some x.2
        rw [List.getElem?_map, List.getElem?_eraseIdx_of_ge (by omega), hnat,
          ← List.getElem?_map]
        exact hrow
  · rw [if_neg hbehind]
    refine ⟨h.live_iff, ?_, h.endpoint, hselected⟩
    intro x hx
    obtain ⟨hcurrentLow, hrow⟩ := h.row x hx
    refine ⟨hcurrentLow, ?_⟩
    have hfront : c.currentIndex.toNat < index.toNat := by
      have : 0 ≤ c.currentIndex := hcurrentLow
      omega
    show ((c.servers.eraseIdx index.toNat).map ServerItem.login)[c.currentIndex.toNat]? = some x.2
    rw [List.getElem?_map, List.getElem?_eraseIdx_of_lt hfront, ← List.getElem?_map]
    exact hrow

/-- The step of a user action. -/
theorem run {c : AppController} (h : SessionBound c.face) (handle : Nat) (action : UiAction) :
    SessionBound (action.run handle c).face := by
  by_cases hswitch : action.switches = true
  swap
  · rcases UiAction.face_run (Bool.eq_false_iff.mpr hswitch) with ⟨index, rfl⟩ | hface
    · show SessionBound (c.selectServer index).face
      by_cases hvalid : c.isValidIndex index = true
      · obtain ⟨hlow, hhigh⟩ := c.isValidIndex_iff.mp hvalid
        rw [c.selectServer_eq hvalid]
        exact h.select hlow hhigh
      · unfold AppController.selectServer
        rw [if_neg (fun hand => hvalid hand.1)]
        exact h
    · rw [hface]
      exact h
  cases action with
  | connectToServer index refused => exact h.connect (c.connectToServer_outcome index _)
  | connectToHost host port username password name keyPath keyPassphrase refused =>
    show SessionBound (c.connectToHost _ _ _ _ _ _ _ _).face
    by_cases hvalues : host = [] ∨ username = []
    · rw [c.connectToHost_refused hvalues]
      exact h
    · obtain ⟨credentials, heq⟩ := c.connectToHost_accepted hvalues port password name keyPath
        keyPassphrase (answer handle refused)
      rw [heq]
      refine SessionBound.connect ?_ (AppController.connectToServer_outcome _ _ _)
      exact h.add _ credentials
  | editServer index host port username password name keyPath keyPassphrase =>
    show SessionBound (c.editServer _ _ _ _ _ _ _ _).face
    by_cases haccepted : c.isValidIndex index = true ∧ AppController.EditAccepted host port username
    · exact h.edit haccepted.1 haccepted.2 password name keyPath keyPassphrase
    · rw [c.editServer_refused haccepted]
      exact h
  | deleteServer index =>
    show SessionBound (c.deleteServer index).face
    by_cases hvalid : c.isValidIndex index = true
    · exact h.delete hvalid
    · rw [c.deleteServer_invalid hvalid]
      exact h
  | _ => exact absurd hswitch Bool.noConfusion

/-! ## §3. Events and results. -/

/-- A state is announced. -/
theorem setConnectionState {c : AppController} (h : SessionBound c.face)
    (state : RsSessionState) : SessionBound (c.setConnectionState state).face := by
  rw [c.face_setConnectionState]
  split
  · by_cases hvalid : c.isValidIndex c.currentIndex = true
    · rw [c.setStatus_eq hvalid]
      exact h.of_logins (AppController.map_login_modify_status _ _ _) rfl rfl rfl rfl
    · unfold AppController.setStatus
      rw [if_neg hvalid]
      exact h.of_logins rfl rfl rfl rfl rfl
  · exact h.of_logins rfl rfl rfl rfl rfl

/-- A batch of events. -/
theorem ingestRustEvents (batch : List RustEvent) :
    ∀ {c : AppController}, SessionBound c.face → SessionBound (c.ingestRustEvents batch).face := by
  induction batch with
  | nil => intro c h; exact h
  | cons ev batch ih =>
    intro c h
    show SessionBound ((c.ingestRustEvent ev).ingestRustEvents batch).face
    apply ih
    by_cases hstate : ∃ state, ev = .stateChanged state
    · obtain ⟨state, rfl⟩ := hstate
      exact h.setConnectionState state
    · rw [c.face_ingestRustEvent (not_exists.mp hstate)]
      exact h

/-- A batch. -/
theorem ingest {c : AppController} (h : SessionBound c.face) (batch : Batch) :
    SessionBound (c.ingest batch).face := by
  cases batch with
  | events batch => exact ingestRustEvents batch h
  | files batch =>
    show SessionBound (c.ingestFileResults batch).face
    rw [c.face_ingestFileResults batch]
    exact h
  | execs batch =>
    show SessionBound (c.ingestExecResults batch).face
    rw [c.face_ingestExecResults batch]
    exact h

/-- The application has just been started. -/
theorem initial (servers : List ServerItem) (credentials : QString → Option (List UInt8)) :
    SessionBound (AppController.initial servers credentials).face := by
  apply of_no_session rfl rfl
  show (if servers = [] then (-1 : Int) else 0) = -1 ∨ _
  cases servers with
  | nil => exact Or.inl rfl
  | cons item rest =>
    refine Or.inr ⟨Int.le_refl 0, ?_⟩
    show (0 : Int) < ((item :: rest).length : Int)
    rw [List.length_cons]
    omega

/-- **One step** keeps the session at its row. -/
theorem step {s t : UiThread} {l : UiLabel} (h : SessionBound s.controller.face)
    (hstep : s.step l = some t) : SessionBound t.controller.face := by
  cases l with
  | user action =>
    rw [UiThread.step, Option.some.injEq] at hstep
    subst hstep
    exact h.run s.nextHandle action
  | calls batch =>
    obtain ⟨handle, _, rfl⟩ := UiThread.of_step_calls hstep
    exact h
  | driverStops =>
    rw [UiThread.step, Option.some.injEq] at hstep
    subst hstep
    rw [s.controller.face_stopped]
    exact h
  | deliver =>
    obtain ⟨head, rest, _, rfl⟩ := UiThread.of_step_deliver hstep
    exact h.ingest head.batch

end SessionBound

/-! ## §4. Runs. -/

/-- The server that is selected. -/
def AppController.selectedServer (c : AppController) : Option ServerItem :=
  if 0 ≤ c.selectedIndex then c.servers[c.selectedIndex.toNat]? else none

/-- The selection follows its server when another row is deleted. -/
theorem SessionBound.selectedServer_deleteServer {c : AppController} (h : SessionBound c.face)
    {index : Int} (hother : index ≠ c.selectedIndex) :
    (c.deleteServer index).selectedServer = c.selectedServer := by
  by_cases hvalid : c.isValidIndex index = true
  swap
  · rw [c.deleteServer_invalid hvalid]
  obtain ⟨hlow, hhigh⟩ := c.isValidIndex_iff.mp hvalid
  have hface := c.deleteServer_valid hvalid
  have hservers : (c.deleteServer index).servers = c.servers.eraseIdx index.toNat :=
    congrArg Face.servers hface
  have hselected : (c.deleteServer index).selectedIndex = c.selectedAfterDelete index :=
    congrArg Face.selectedIndex hface
  have hbefore : c.selectedIndex = -1 ∨ 0 ≤ c.selectedIndex ∧
    c.selectedIndex < (c.servers.length : Int) := h.selected
  unfold AppController.selectedServer
  rw [hservers, hselected]
  unfold AppController.selectedAfterDelete
  rw [if_neg (Ne.symm hother)]
  by_cases hbehind : c.selectedIndex > index
  · rw [if_pos hbehind, if_pos (by omega), if_pos (by omega),
      List.getElem?_eraseIdx_of_ge (by omega)]
    congr 1
    omega
  · rw [if_neg hbehind]
    split
    · rw [List.getElem?_eraseIdx_of_lt (by omega)]
    · rfl

/-- **The session is at its row.**  In every state of every run, whatever is delivered: there is
a session exactly if there is a current row; its host, port and user name are those the session
was created with, and the current endpoint is that of the row; what is selected is a row or
nothing, and stays the same server when another row is deleted. -/
theorem session_at_its_row (servers : List ServerItem)
    (credentials : QString → Option (List UInt8)) (labels : List UiLabel) (s : UiThread)
    (hrun : exec UiThread.step (UiThread.initial servers credentials) labels = some s) :
    (s.controller.session.isSome ↔ s.controller.currentIndex ≠ -1) ∧
      (∀ x, s.controller.session = some x →
        s.controller.isValidIndex s.controller.currentIndex = true ∧
        (∃ item, s.controller.servers[s.controller.currentIndex.toNat]? = some item ∧
          item.host = x.host ∧ item.port = x.port ∧ item.username = x.username) ∧
        s.controller.currentEndpoint = s.controller.endpointFor s.controller.currentIndex) ∧
      (s.controller.selectedIndex = -1 ∨
        s.controller.isValidIndex s.controller.selectedIndex = true) ∧
      ∀ index, index ≠ s.controller.selectedIndex →
        (s.controller.deleteServer index).selectedServer = s.controller.selectedServer := by
  -- the invariant holds of every reachable controller
  have h : SessionBound s.controller.face :=
    exec_invariant (I := fun s => SessionBound s.controller.face)
      (fun s l t h hstep => h.step hstep) (SessionBound.initial servers credentials) hrun
  generalize s.controller = c at h
  refine ⟨?_, ?_, ?_, fun index hother => h.selectedServer_deleteServer hother⟩
  · have hlive := h.live_iff
    rw [AppController.face, Option.isSome_map] at hlive
    exact hlive
  · intro x hx
    have hsession : c.face.session = some (x.handle, x.login) := by
      rw [AppController.face, hx]
      rfl
    obtain ⟨hlow, hrow⟩ := h.row _ hsession
    rw [List.getElem?_map, Option.map_eq_some_iff] at hrow
    obtain ⟨item, hitem, hlogin⟩ := hrow
    have hhigh : c.currentIndex.toNat < c.servers.length := (List.getElem?_eq_some_iff.mp hitem).1
    have hlowC : 0 ≤ c.currentIndex := hlow
    have hhost : item.host = x.host := congrArg Login.host hlogin
    have hport : item.port = x.port := congrArg Login.port hlogin
    have husername : item.username = x.username := congrArg Login.username hlogin
    refine ⟨c.isValidIndex_iff.mpr ⟨hlowC, by omega⟩, ⟨item, hitem, hhost, hport, husername⟩, ?_⟩
    have hendpoint : c.currentEndpoint = AppController.endpoint x.username x.host x.port :=
      h.endpoint (x.handle, x.login) hsession
    have hitemC : c.servers[c.currentIndex.toNat]? = some item := hitem
    unfold AppController.endpointFor
    rw [hendpoint, hitemC]
    dsimp only
    rw [hhost, hport, husername]
  · rw [c.isValidIndex_iff]
    exact h.selected

/-- The session of the second server, after the first one has been deleted. -/
theorem session_at_its_row_moved_up :
    ∃ s, exec UiThread.step twoServers
        [.user (.connectToServer 1 none), .user (.deleteServer 0)] = some s ∧
      s.controller.currentIndex = 0 ∧ s.controller.session.map Session.host = some (lit "b") ∧
      s.controller.currentEndpoint = s.controller.endpointFor s.controller.currentIndex := by
  obtain ⟨s, hrun⟩ : ∃ s, exec UiThread.step twoServers
      [.user (.connectToServer 1 none), .user (.deleteServer 0)] = some s :=
    Option.isSome_iff_exists.mp (by decide)
  have hview : (exec UiThread.step twoServers
      [.user (.connectToServer 1 none), .user (.deleteServer 0)]).map
        (fun s => (s.controller.currentIndex, s.controller.session.map Session.host))
      = some (0, some (lit "b")) := by decide
  rw [hrun, Option.map_some, Option.some.injEq, Prod.mk.injEq] at hview
  obtain ⟨x, hx, -⟩ := Option.map_eq_some_iff.mp hview.2
  have h := session_at_its_row _ _ _ s hrun
  exact ⟨s, hrun, hview.1, hview.2, (h.2.1 x hx).2.2⟩

end ResearchSSH.App
