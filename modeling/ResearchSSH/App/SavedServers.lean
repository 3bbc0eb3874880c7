/-
  ResearchSSH.App.SavedServers — the server list, over restarts of the application.

  The list is kept in the settings as an array: a size, and the values of each entry under its
  index.  Every change of the list rewrites the array and its size; entries behind the size are
  left as they are.  A row comes back with its host and user name trimmed, as the russh provider,
  and not at all where nothing is left of one of the two.

  `connectToHost` trims nothing, `editServer` does.

  Of the settings it is assumed that a text comes back as it was written, which for `QSettings` is so
  unless a surrogate stands alone in it.

  Main results:
    * `servers_saveServers`       — what is written is what is read.
    * `servers_survive_restart`   — what a restart makes of the list, in every run.
-/

import ResearchSSH.App.ServerActions
import ResearchSSH.App.UiThread
import ResearchSSH.Library.Transition

namespace ResearchSSH.App

open ResearchSSH.Core ResearchSSH.Library

/-! ## §1. The settings. -/

/-- The texts of a row that are saved. -/
inductive ServerText
  | name | host | username | keyPath
  deriving DecidableEq, Repr

/-- What is stored under `servers/`, by index: what `toString` and `toInt` make of it.  A text that
is not there is the empty one. -/
structure Settings where
  size : Int
  text : Nat → ServerText → QString
  port : Nat → Option Int

/-- The text of a row. -/
def ServerItem.text (item : ServerItem) : ServerText → QString
  | .name => item.name
  | .host => item.host
  | .username => item.username
  | .keyPath => item.keyPath

namespace Settings

variable (settings : Settings)

/-- The values of one entry, as `setValue` leaves them. -/
def setEntry (index : Nat) (item : ServerItem) : Settings :=
  { settings with text := Function.update settings.text index item.text
                  port := Function.update settings.port index (some item.port.toNat) }

/-- The loop of `saveServers` from one index on. -/
def setEntries : Settings → Nat → List ServerItem → Settings
  | settings, _, [] => settings
  | settings, index, item :: items => (settings.setEntry index item).setEntries (index + 1) items

/-- `saveServers`; `endArray` writes how many indices were set. -/
def saveServers (items : List ServerItem) : Settings :=
  { settings.setEntries 0 items with size := items.length }

/-- The entries `loadServers` reads. -/
def servers : List SavedServer :=
  (List.range settings.size.toNat).map fun index =>
    { name := settings.text index .name, host := settings.text index .host
      port := (settings.port index).getD 22, username := settings.text index .username
      keyPath := settings.text index .keyPath }

end Settings

/-- What is kept of a row. -/
def ServerItem.saved (item : ServerItem) : SavedServer :=
  { name := item.name, host := item.host, port := item.port.toNat, username := item.username
    keyPath := item.keyPath }

namespace Settings

/-- Entries in front are left. -/
theorem setEntries_before (items : List ServerItem) (settings : Settings) (first : Nat) {index : Nat}
    (h : index < first) : (settings.setEntries first items).text index = settings.text index
      ∧ (settings.setEntries first items).port index = settings.port index := by
  induction items generalizing settings first with
  | nil => exact ⟨rfl, rfl⟩
  | cons item items ih =>
    have hne : index ≠ first := Nat.ne_of_lt h
    obtain ⟨htext, hport⟩ := ih (settings.setEntry first item) (first + 1) (Nat.lt_succ_of_lt h)
    exact ⟨htext.trans (Function.update_of_ne hne _ _), hport.trans (Function.update_of_ne hne _ _)⟩

/-- The entry of each row. -/
theorem setEntries_at (items : List ServerItem) (settings : Settings) (first : Nat) {k : Nat}
    {item : ServerItem} (h : items[k]? = some item) :
    (settings.setEntries first items).text (first + k) = item.text
      ∧ (settings.setEntries first items).port (first + k) = some (item.port.toNat : Int) := by
  induction items generalizing settings first k with
  | nil => exact absurd h (by simp)
  | cons head items ih =>
    cases k with
    | zero =>
      obtain rfl : head = item := by simpa using h
      obtain ⟨htext, hport⟩ := setEntries_before items (settings.setEntry first head)
        (first + 1) (Nat.lt_succ_self first)
      exact ⟨htext.trans (Function.update_self _ _ _), hport.trans (Function.update_self _ _ _)⟩
    | succ k =>
      have hlater := ih (settings.setEntry first head) (first + 1) (k := k) (by simpa using h)
      rw [show first + 1 + k = first + (k + 1) by omega] at hlater
      exact hlater

/-- **What is written is what is read**, whatever an earlier and longer list has left behind. -/
theorem servers_saveServers (settings : Settings) (items : List ServerItem) :
    (settings.saveServers items).servers = items.map ServerItem.saved := by
  apply List.ext_getElem?
  intro k
  unfold servers saveServers
  rw [List.getElem?_map, List.getElem?_map, Int.toNat_natCast]
  by_cases hk : k < items.length
  · obtain ⟨item, hitem⟩ : ∃ item, items[k]? = some item := ⟨_, List.getElem?_eq_getElem hk⟩
    obtain ⟨htext, hport⟩ := setEntries_at items settings 0 hitem
    rw [Nat.zero_add] at htext hport
    rw [List.getElem?_range hk, hitem]
    dsimp only [Option.map_some]
    rw [htext, hport]
    rfl
  · rw [List.getElem?_eq_none (by rw [List.length_range]; omega),
      List.getElem?_eq_none (by omega)]
    rfl

end Settings

/-! ## §2. A row that is loaded again. -/

namespace ServerItem

/-- The row as a restart shows it. -/
def restored (item : ServerItem) : Option ServerItem :=
  if trimmed item.host = [] ∨ trimmed item.username = [] then none
  else some (newServer item.name (trimmed item.host) item.port (trimmed item.username) .russh
    item.keyPath)

/-- The row without its status. -/
def idle (item : ServerItem) : ServerItem := { item with status := .idle }

/-- What every row has. -/
structure Complete (item : ServerItem) : Prop where
  name : item.name ≠ []
  host : item.host ≠ []
  username : item.username ≠ []
  provider : item.provider = .russh

/-- No blanks around the host and the user name. -/
def Tidy (item : ServerItem) : Prop :=
  trimmed item.host = item.host ∧ trimmed item.username = item.username

instance (item : ServerItem) : Decidable item.Tidy := inferInstanceAs (Decidable (_ ∧ _))

variable {item row : ServerItem}

/-- A complete row comes back if and only if it is tidy. -/
theorem restored_iff_tidy (h : item.Complete) : item.restored = some item.idle ↔ item.Tidy := by
  unfold restored
  constructor
  · intro hrestored
    split at hrestored
    · cases hrestored
    · have hrow := Option.some.inj hrestored
      exact ⟨congrArg ServerItem.host hrow, congrArg ServerItem.username hrow⟩
  · intro htidy
    rw [htidy.1, htidy.2, if_neg (not_or.mpr ⟨h.host, h.username⟩)]
    unfold newServer
    rw [if_neg h.name, ← h.provider]
    rfl

end ServerItem

/-- A row that is added is complete. -/
theorem complete_newServer {host username : QString} (hhost : host ≠ []) (husername : username ≠ [])
    (name : QString) (port : UInt16) (keyPath : QString) :
    (newServer name host port username .russh keyPath).Complete := by
  refine ⟨?_, hhost, husername, rfl⟩
  show (if name = [] then host else name) ≠ []
  split
  · exact hhost
  · assumption

/-- What is loaded needs no second restart. -/
theorem of_mem_loadServers {saved : List SavedServer} {item : ServerItem}
    (h : item ∈ loadServers saved) : item.Complete ∧ item.Tidy ∧ item.status = .idle := by
  obtain ⟨entry, -, hentry⟩ := List.mem_filterMap.mp h
  dsimp only at hentry
  split at hentry
  · cases hentry
  · next hvalues =>
    obtain rfl := Option.some.inj hentry
    obtain ⟨hhost, husername⟩ := not_or.mp hvalues
    exact ⟨complete_newServer hhost husername _ _ _, ⟨trimmed_trimmed _, trimmed_trimmed _⟩, rfl⟩

/-- A port comes back from its `int`. -/
theorem portOf_loaded (port : UInt16) : (((port.toNat : Int) % 65536).toNat).toUInt16 = port := by
  have hlt := port.toNat_lt
  have hmod : ((port.toNat : Int) % 65536).toNat = port.toNat := by omega
  rw [hmod]
  exact UInt16.ofNat_toNat

/-- What is loaded of rows that were saved. -/
theorem loadServers_saved (items : List ServerItem) :
    loadServers (items.map ServerItem.saved) = items.filterMap ServerItem.restored := by
  unfold loadServers
  rw [List.filterMap_map]
  apply List.filterMap_congr
  intro item _
  show (if _ then none else some (newServer _ _ (((item.port.toNat : Int) % 65536).toNat).toUInt16
    _ _ _)) = item.restored
  rw [portOf_loaded]
  rfl

/-! ## §3. The rows, step by step. -/

namespace AppController

variable (c : AppController)

/-- The rows without their statuses. -/
def rows : List ServerItem := c.servers.map ServerItem.idle

variable {c} in

/-- The rows are part of the face. -/
theorem rows_of_face {d : AppController} (h : c.face = d.face) : c.rows = d.rows :=
  congrArg (fun face => face.servers.map ServerItem.idle) h

/-- A status is not saved. -/
theorem map_idle_modify (items : List ServerItem) (index : Nat) (status : RsSessionState) :
    (items.modify index fun item => { item with status := status }).map ServerItem.idle
      = items.map ServerItem.idle := by
  induction items generalizing index with
  | nil => cases index <;> rfl
  | cons item items ih =>
    cases index with
    | zero => rfl
    | succ index =>
      rw [List.modify_succ_cons, List.map_cons, List.map_cons, ih]

/-- A status is not saved. -/
theorem rows_setStatus (index : Int) (status : RsSessionState) :
    (c.setStatus index status).rows = c.rows := by
  unfold setStatus
  split
  · exact map_idle_modify c.servers _ status
  · rfl

/-- An event changes nothing that is saved. -/
theorem rows_ingestRustEvent (ev : RustEvent) : (c.ingestRustEvent ev).rows = c.rows := by
  by_cases h : ∃ state, ev = .stateChanged state
  · obtain ⟨state, rfl⟩ := h
    show (c.setConnectionState state).face.servers.map ServerItem.idle = c.rows
    rw [face_setConnectionState]
    show (if 0 ≤ c.currentIndex then c.setStatus c.currentIndex state else c).rows = c.rows
    split
    · exact c.rows_setStatus _ _
    · rfl
  · exact rows_of_face (c.face_ingestRustEvent (not_exists.mp h))

/-- A delivery changes nothing that is saved. -/
theorem rows_ingest (batch : Batch) : (c.ingest batch).rows = c.rows := by
  cases batch with
  | events batch =>
    show (c.ingestRustEvents batch).rows = c.rows
    unfold ingestRustEvents
    induction batch generalizing c with
    | nil => rfl
    | cons ev batch ih => rw [List.foldl_cons, ih, rows_ingestRustEvent]
  | files batch => exact rows_of_face (c.face_ingestFileResults batch)
  | execs batch => exact rows_of_face (c.face_ingestExecResults batch)

/-- A connect changes nothing that is saved. -/
theorem rows_connectToServer (index : Int) (created : Created) :
    (c.connectToServer index created).rows = c.rows := by
  have h := c.connectToServer_outcome index created
  unfold rows
  show (c.connectToServer index created).face.servers.map ServerItem.idle = _
  generalize (c.connectToServer index created).face = face at h ⊢
  cases h with
  | invalid => rfl
  | again => rfl
  | opened => rfl
  | failed => exact map_idle_modify c.servers _ .failed

end AppController

/-- The list that an action saves, if it saves one.  `connectToHost` does so before it connects,
`editServer` before it selects the row. -/
def UiAction.rowsSaved (c : AppController) : UiAction → Option (List ServerItem)
  | .connectToHost host port username _ name keyPath _ _ =>
    if host = [] ∨ username = [] then none
    else some (c.servers ++ [newServer name host (portOf port) username .russh keyPath])
  | .editServer index host port username _ name keyPath _ =>
    if c.isValidIndex index = true ∧ AppController.EditAccepted host port username then
      some (c.servers.modify index.toNat
        (AppController.editedItem name host port username keyPath))
    else none
  | .deleteServer index =>
    if c.isValidIndex index = true then some (c.servers.eraseIdx index.toNat) else none
  | _ => none

namespace UiAction

variable {action : UiAction} {c : AppController}

/-- An action changes the rows if it saves them, and saves what it has changed. -/
theorem rows_run (action : UiAction) (handle : Nat) (c : AppController) :
    (action.run handle c).rows
      = ((action.rowsSaved c).getD c.servers).map ServerItem.idle := by
  by_cases hswitches : action.switches = true
  · cases action with
    | connectToServer index refused => exact c.rows_connectToServer index _
    | connectToHost host port username password name keyPath keyPassphrase refused =>
      show (c.connectToHost _ _ _ _ _ _ _ _).rows = _
      unfold rowsSaved
      dsimp only
      -- the row is added and saved first, then connected to
      by_cases hvalues : host = [] ∨ username = []
      · rw [if_pos hvalues]
        exact AppController.rows_of_face (c.connectToHost_refused hvalues _ _ _ _ _ _)
      · rw [if_neg hvalues]
        obtain ⟨credentials, heq⟩ := c.connectToHost_accepted hvalues port password name keyPath
          keyPassphrase (answer handle refused)
        rw [heq, AppController.rows_connectToServer]
        rfl
    | editServer index host port username password name keyPath keyPassphrase =>
      show (c.editServer _ _ _ _ _ _ _ _).face.servers.map ServerItem.idle = _
      unfold rowsSaved
      dsimp only
      by_cases haccepted : c.isValidIndex index = true
          ∧ AppController.EditAccepted host port username
      · rw [if_pos haccepted, c.editServer_accepted haccepted.1 haccepted.2]
        rfl
      · rw [if_neg haccepted, c.editServer_refused haccepted]
        rfl
    | deleteServer index =>
      show (c.deleteServer index).face.servers.map ServerItem.idle = _
      unfold rowsSaved
      dsimp only
      by_cases hvalid : c.isValidIndex index = true
      · rw [if_pos hvalid, c.deleteServer_valid hvalid]
        rfl
      · rw [if_neg hvalid, c.deleteServer_invalid hvalid]
        rfl
    | _ => exact absurd hswitches Bool.noConfusion
  · have hkept : action.switches = false := by simpa using hswitches
    -- nothing else saves any row
    have hnone : action.rowsSaved c = none := by
      cases action <;> first | rfl | exact absurd hkept Bool.noConfusion
    rw [hnone]
    obtain ⟨index, rfl⟩ | hface := UiAction.face_run hkept
    · show (c.selectServer index).rows = c.rows
      unfold AppController.selectServer
      split <;> rfl
    · exact AppController.rows_of_face (hface handle c)

end UiAction

/-! ## §4. The application with its settings. -/

/-- The application, and the settings it shares with those that were started before it. -/
structure Desktop where
  ui : UiThread
  settings : Settings

/-- What can happen next. -/
inductive DesktopLabel
  | ui (label : UiLabel)
  /-- The application is closed and started again. -/
  | restart
  deriving DecidableEq, Repr

namespace Desktop

/-- `initialize`; the secrets are where they were. -/
def launch (settings : Settings) (credentials : QString → Option (List UInt8)) : Desktop :=
  { ui := .initial (loadServers settings.servers) credentials, settings := settings }

/-- The application is closed and started again: only settings and credentials stay. -/
def restart (s : Desktop) : Desktop := launch s.settings s.ui.controller.credentials

/-- What a step of the UI thread writes. -/
def written (s : Desktop) : UiLabel → Settings
  | .user action =>
    ((action.rowsSaved s.ui.controller).map s.settings.saveServers).getD s.settings
  | _ => s.settings

/-- One thing happens. -/
def step (s : Desktop) : DesktopLabel → Option Desktop
  | .ui label => (s.ui.step label).map fun ui => { ui := ui, settings := s.written label }
  | .restart => some s.restart

/-- The rows of the list. -/
def servers (s : Desktop) : List ServerItem := s.ui.controller.servers

/-- The new row of `connectToHost` has no blanks around its host and its user name. -/
def AddsTidy (_ : Desktop) : DesktopLabel → Prop
  | .ui (.user (.connectToHost host _ username _ _ _ _ _)) =>
    trimmed host = host ∧ trimmed username = username
  | _ => True

variable {s t : Desktop} {label : DesktopLabel}

instance (s : Desktop) (label : DesktopLabel) : Decidable (s.AddsTidy label) := by
  unfold AddsTidy
  split <;> infer_instance

/-- The settings hold what a restart makes of the rows, and every row has what it needs. -/
structure Kept (s : Desktop) : Prop where
  settings : loadServers s.settings.servers = s.servers.filterMap ServerItem.restored
  complete : ∀ item ∈ s.servers, item.Complete

/-- A status is not restored. -/
theorem restored_rows (items : List ServerItem) :
    (items.map ServerItem.idle).filterMap ServerItem.restored
      = items.filterMap ServerItem.restored := by
  rw [List.filterMap_map]
  rfl

/-- What holds of a row holds of it with any status. -/
theorem forall_of_rows {P : ServerItem → Prop} (hidle : ∀ item : ServerItem, P item.idle ↔ P item)
    {items more : List ServerItem} (h : items.map ServerItem.idle = more.map ServerItem.idle)
    (hmore : ∀ item ∈ more, P item) : ∀ item ∈ items, P item := by
  intro item hitem
  have hmem : item.idle ∈ more.map ServerItem.idle := h ▸ List.mem_map_of_mem hitem
  obtain ⟨other, hother, heq⟩ := List.mem_map.mp hmem
  exact (hidle item).mp (heq ▸ (hidle other).mpr (hmore other hother))

/-- The status has no part in it. -/
theorem complete_idle (item : ServerItem) : item.idle.Complete ↔ item.Complete :=
  ⟨fun h => ⟨h.name, h.host, h.username, h.provider⟩,
    fun h => ⟨h.name, h.host, h.username, h.provider⟩⟩

/-- The rows after a step of the UI thread, and what is written. -/
theorem ui_step {label : UiLabel} {ui : UiThread} (h : s.ui.step label = some ui) :
    (ui.controller.rows = s.ui.controller.rows ∧ s.written label = s.settings)
      ∨ ∃ action rows, label = .user action ∧ action.rowsSaved s.ui.controller = some rows
        ∧ ui.controller.rows = rows.map ServerItem.idle
        ∧ s.written label = s.settings.saveServers rows := by
  cases label with
  | user action =>
    obtain rfl := Option.some.inj h
    have hrows := UiAction.rows_run action s.ui.nextHandle s.ui.controller
    cases hsaved : action.rowsSaved s.ui.controller with
    | none =>
      rw [hsaved] at hrows
      refine Or.inl ⟨hrows, ?_⟩
      show ((action.rowsSaved _).map _).getD _ = _
      rw [hsaved]
      rfl
    | some rows =>
      rw [hsaved] at hrows
      refine Or.inr ⟨action, rows, rfl, hsaved, hrows, ?_⟩
      show ((action.rowsSaved _).map _).getD _ = _
      rw [hsaved]
      rfl
  | calls batch =>
    obtain ⟨handle, -, rfl⟩ := UiThread.of_step_calls h
    exact Or.inl ⟨rfl, rfl⟩
  | driverStops =>
    obtain rfl := Option.some.inj h
    exact Or.inl ⟨rfl, rfl⟩
  | deliver =>
    obtain ⟨posted, rest, -, rfl⟩ := UiThread.of_step_deliver h
    exact Or.inl ⟨AppController.rows_ingest _ _, rfl⟩

/-- A row that is saved was in the list, or has the values of an action. -/
theorem rowsSaved_mem {action : UiAction} {c : AppController} {rows : List ServerItem}
    (h : action.rowsSaved c = some rows) {item : ServerItem} (hitem : item ∈ rows) :
    item ∈ c.servers ∨ (∃ host port username password name keyPath keyPassphrase refused,
        action = .connectToHost host port username password name keyPath keyPassphrase refused
          ∧ host ≠ [] ∧ username ≠ []
          ∧ item = newServer name host (portOf port) username .russh keyPath)
      ∨ (∃ host port username name keyPath row, AppController.EditAccepted host port username
          ∧ item = AppController.editedItem name host port username keyPath row) := by
  cases action with
  | connectToHost host port username password name keyPath keyPassphrase refused =>
    unfold UiAction.rowsSaved at h
    dsimp only at h
    split at h
    · cases h
    · next hvalues =>
      obtain rfl := Option.some.inj h
      obtain hold | hnew := List.mem_append.mp hitem
      · exact Or.inl hold
      · obtain ⟨hhost, husername⟩ := not_or.mp hvalues
        exact Or.inr (Or.inl ⟨_, _, _, _, _, _, _, _, rfl, hhost, husername,
          List.mem_singleton.mp hnew⟩)
  | editServer index host port username password name keyPath keyPassphrase =>
    unfold UiAction.rowsSaved at h
    dsimp only at h
    split at h
    · next haccepted =>
      obtain rfl := Option.some.inj h
      obtain ⟨k, hk⟩ := List.getElem?_of_mem hitem
      rw [List.getElem?_modify] at hk
      obtain ⟨row, hrow, heq⟩ := Option.map_eq_some_iff.mp hk
      split at heq
      · exact Or.inr (Or.inr ⟨_, _, _, _, _, row, haccepted.2, heq.symm⟩)
      · exact Or.inl (heq ▸ List.mem_of_getElem? hrow)
    · cases h
  | deleteServer index =>
    unfold UiAction.rowsSaved at h
    dsimp only at h
    split at h
    · obtain rfl := Option.some.inj h
      exact Or.inl (List.mem_of_mem_eraseIdx hitem)
    · cases h
  | _ => cases h

/-- A row that was edited is complete and tidy. -/
theorem complete_editedItem {host username : QString} {port : Int}
    (h : AppController.EditAccepted host port username) (name keyPath : QString)
    (row : ServerItem) : (AppController.editedItem name host port username keyPath row).Complete
      ∧ (AppController.editedItem name host port username keyPath row).Tidy := by
  obtain ⟨hhost, husername, -, -⟩ := h
  refine ⟨⟨?_, hhost, husername, rfl⟩, trimmed_trimmed _, trimmed_trimmed _⟩
  show (if trimmed name = [] then trimmed host else trimmed name) ≠ []
  split
  · exact hhost
  · assumption

/-- A list that was loaded is as the next restart leaves it. -/
theorem kept_launch (settings : Settings) (credentials : QString → Option (List UInt8)) :
    Kept (launch settings credentials) := by
  refine ⟨?_, fun item hitem => (of_mem_loadServers hitem).1⟩
  show loadServers settings.servers = (loadServers settings.servers).filterMap ServerItem.restored
  symm
  rw [List.filterMap_congr (g := some) fun item hitem => ?_, List.filterMap_some]
  obtain ⟨hcomplete, htidy, hstatus⟩ := of_mem_loadServers hitem
  rw [(ServerItem.restored_iff_tidy hcomplete).mpr htidy]
  unfold ServerItem.idle
  rw [← hstatus]

/-- **One step** keeps it. -/
theorem Kept.step (h : s.Kept) (hstep : s.step label = some t) : t.Kept := by
  cases label with
  | restart =>
    obtain rfl := Option.some.inj hstep
    exact kept_launch _ _
  | ui label =>
    obtain ⟨ui, hui, rfl⟩ := Option.map_eq_some_iff.mp hstep
    obtain ⟨hrows, hwritten⟩ | ⟨action, rows, -, hsaved, hrows, hwritten⟩ := ui_step hui
    · have hsame : ui.controller.servers.filterMap ServerItem.restored
          = s.servers.filterMap ServerItem.restored := by
        rw [← restored_rows, show ui.controller.servers.map ServerItem.idle = _ from hrows]
        exact restored_rows _
      constructor
      · show loadServers (s.written label).servers = _
        rw [hwritten, h.settings]
        exact hsame.symm
      · exact forall_of_rows complete_idle hrows h.complete
    · constructor
      · show loadServers (s.written label).servers = ui.controller.servers.filterMap _
        rw [hwritten, Settings.servers_saveServers, loadServers_saved, ← restored_rows,
          ← restored_rows ui.controller.servers,
          show ui.controller.servers.map ServerItem.idle = _ from hrows]
      · refine forall_of_rows complete_idle hrows fun item hitem => ?_
        obtain hold | ⟨_, _, _, _, _, _, _, _, -, hhost, husername, rfl⟩
            | ⟨_, _, _, _, _, row, haccepted, rfl⟩ := rowsSaved_mem hsaved hitem
        · exact h.complete item hold
        · exact complete_newServer hhost husername _ _ _
        · exact (complete_editedItem haccepted _ _ row).1

/-- **One step** keeps the rows tidy, if what is added is. -/
theorem tidy_step (h : ∀ item ∈ s.servers, item.Tidy) (htidy : s.AddsTidy label)
    (hstep : s.step label = some t) : ∀ item ∈ t.servers, item.Tidy := by
  cases label with
  | restart =>
    obtain rfl := Option.some.inj hstep
    exact fun item hitem => (of_mem_loadServers hitem).2.1
  | ui label =>
    obtain ⟨ui, hui, rfl⟩ := Option.map_eq_some_iff.mp hstep
    obtain ⟨hrows, -⟩ | ⟨action, rows, rfl, hsaved, hrows, -⟩ := ui_step hui
    · exact forall_of_rows (fun _ => Iff.rfl) hrows h
    · refine forall_of_rows (fun _ => Iff.rfl) hrows fun item hitem => ?_
      obtain hold | ⟨_, _, _, _, _, _, _, _, rfl, -, -, rfl⟩
          | ⟨_, _, _, _, _, row, haccepted, rfl⟩ := rowsSaved_mem hsaved hitem
      · exact h item hold
      · exact htidy
      · exact (complete_editedItem haccepted _ _ row).2

/-! ## §5. Runs. -/

/-- A list is kept as a whole exactly if each of its rows is. -/
theorem filterMap_eq_map_iff {α β : Type} {f : α → Option β} {g : α → β} (items : List α) :
    items.filterMap f = items.map g ↔ ∀ item ∈ items, f item = some (g item) := by
  induction items with
  | nil => exact ⟨fun _ _ h => absurd h List.not_mem_nil, fun _ => rfl⟩
  | cons item items ih =>
    rw [List.forall_mem_cons, ← ih]
    cases hitem : f item with
    | none =>
      rw [List.filterMap_cons_none hitem]
      constructor
      · intro h
        have hlength := congrArg List.length h
        have hle := List.length_filterMap_le f items
        rw [List.length_map, List.length_cons] at hlength
        omega
      · exact fun h => absurd h.1 (Option.some_ne_none _).symm
    | some row =>
      rw [List.filterMap_cons_some hitem, List.map_cons, List.cons.injEq, Option.some.injEq]

/-- **The server list survives a restart.**  Start from any settings, and let any number of sessions,
server actions and restarts follow.  A restart shows the rows there are, in their order, each as
`restored` has it.  It shows all of them unchanged exactly if none has blanks around its host or its
user name; and that is so if no row was added with such blanks. -/
theorem servers_survive_restart {settings : Settings} {credentials : QString → Option (List UInt8)}
    {labels : List DesktopLabel} (hrun : exec step (launch settings credentials) labels = some s) :
    s.restart.servers = s.servers.filterMap ServerItem.restored
      ∧ (s.restart.servers = s.servers.map ServerItem.idle ↔ ∀ item ∈ s.servers, item.Tidy)
      ∧ (Along step AddsTidy (launch settings credentials) labels →
        s.restart.servers = s.servers.map ServerItem.idle) := by
  have hkept : s.Kept := exec_invariant (fun _ _ _ h hstep => Kept.step h hstep)
    (kept_launch settings credentials) hrun
  have hiff : s.restart.servers = s.servers.map ServerItem.idle
      ↔ ∀ item ∈ s.servers, item.Tidy := by
    show loadServers s.settings.servers = _ ↔ _
    rw [hkept.settings, filterMap_eq_map_iff]
    exact forall_congr' fun item => forall_congr' fun hitem =>
      ServerItem.restored_iff_tidy (hkept.complete item hitem)
  refine ⟨hkept.settings, hiff, fun halong => hiff.mpr ?_⟩
  have hloaded : ∀ item ∈ (launch settings credentials).servers, item.Tidy :=
    fun item hitem => (of_mem_loadServers hitem).2.1
  exact exec_invariant_along (I := fun s => ∀ item ∈ s.servers, item.Tidy)
    (fun _ _ _ h htidy hstep => tidy_step h htidy hstep) hloaded halong hrun

/-- Two servers, one of them edited, and the application started again in between. -/
def serverRun : List DesktopLabel :=
  [.ui (.user (.connectToHost (lit "a") 22 (lit "u") [] [] [] [] none)), .restart,
    .ui (.user (.connectToHost (lit "b") 0 (lit "v") [] [] [] [] (some .internal))),
    .ui (.user (.editServer 0 (lit " c ") 2222 (lit "w") [] [] [] []))]

/-- Nothing was saved yet. -/
def noSettings : Settings := { size := 0, text := fun _ _ => [], port := fun _ => none }

theorem servers_survive_restart_edited : ∃ s,
    exec step (launch noSettings fun _ => none) serverRun = some s
      ∧ s.restart.servers = s.servers.map ServerItem.idle ∧ s.servers.length = 2 := by
  obtain ⟨s, hrun⟩ : ∃ s, exec step (launch noSettings fun _ => none) serverRun = some s :=
    Option.isSome_iff_exists.mp (by decide)
  have htidy : Along step AddsTidy (launch noSettings fun _ => none) serverRun := by decide
  have hlength : (exec step (launch noSettings fun _ => none) serverRun).map
      (fun s => s.servers.length) = some 2 := by decide
  rw [hrun, Option.map_some, Option.some.injEq] at hlength
  exact ⟨s, hrun, (servers_survive_restart hrun).2.2 htidy, hlength⟩

end Desktop

end ResearchSSH.App
