/-
  ResearchSSH.App.ServerActions — what the actions on the server list do to the face.

  One result for each action, with every way out of it.  The results about the session's row, the
  statuses and the credentials rest on these and on nothing else of the actions.

  Main results:
    * `connectToServer_outcome`, `connectToHost_accepted` — connecting.
    * `editServer_accepted`, `deleteServer_valid` — changing and deleting a row.
-/

import ResearchSSH.App.ControllerFrame
import Mathlib.Data.List.Basic

namespace ResearchSSH.App

open ResearchSSH.Core

namespace AppController

variable (c : AppController)

/-- The indices of the rows. -/
theorem isValidIndex_iff {row : Int} :
    c.isValidIndex row = true ↔ 0 ≤ row ∧ row < c.servers.length := by
  unfold isValidIndex
  rw [Bool.and_eq_true, decide_eq_true_eq, decide_eq_true_eq]

variable {c} in

/-- Only the number of rows counts. -/
theorem isValidIndex_congr {d : AppController} (h : c.servers.length = d.servers.length)
    (row : Int) : c.isValidIndex row = d.isValidIndex row := by
  unfold isValidIndex
  rw [h]

/-- A valid index has its row. -/
theorem getElem?_of_isValidIndex {row : Int} (h : c.isValidIndex row = true) :
    ∃ item, c.servers[row.toNat]? = some item := by
  obtain ⟨hlow, hhigh⟩ := c.isValidIndex_iff.mp h
  have hlength : row.toNat < c.servers.length := by omega
  exact ⟨_, List.getElem?_eq_getElem hlength⟩

/-! ## §1. Parts of the actions. -/

/-- The status of a row that is there. -/
theorem setStatus_eq {row : Int} (h : c.isValidIndex row = true) (status : RsSessionState) :
    c.setStatus row status =
      { c with servers := c.servers.modify row.toNat fun item => { item with status := status } } := by
  unfold setStatus
  rw [if_pos h]

/-- The selection of a row that is there. -/
theorem selectServer_eq {index : Int} (h : c.isValidIndex index = true) :
    c.selectServer index = { c with selectedIndex := index } := by
  unfold selectServer
  by_cases hselected : index = c.selectedIndex
  · rw [if_neg (fun hand => hand.2 hselected), hselected]
  · rw [if_pos ⟨h, hselected⟩]

theorem face_openSession (index : Int) (item : ServerItem) (handle : Nat) :
    (c.openSession index item handle).face =
      { c.face with session := some (handle, item.login), currentIndex := index
                    currentEndpoint := c.endpointFor index } := by
  unfold openSession
  dsimp only
  rw [face_sendCmd]
  split
  · rfl
  · rw [face_sendCmd]
    rfl

theorem face_requestConnect : c.requestConnect.face = c.face := by
  unfold requestConnect
  have h := (c.appendNotice (arg (lit "正在连接 %1 …") [c.currentEndpoint])).face_sendCmd .connect
  dsimp only
  generalize (c.appendNotice (arg (lit "正在连接 %1 …") [c.currentEndpoint])).sendCmd .connect
    = sent at h ⊢
  obtain ⟨rc, c'⟩ := sent
  dsimp only at h ⊢
  split <;> exact h

/-! ## §2. Connecting. -/

/-- The ways out of `connectToServer`, by what becomes of the face. -/
inductive ConnectOutcome (index : Int) (created : Created) : Face → Prop
  | invalid : c.isValidIndex index = false → ConnectOutcome index created c.face
  /-- The row's own session is asked again. -/
  | again : c.isValidIndex index = true → c.session.isSome → c.currentIndex = index →
      ConnectOutcome index created { c.face with selectedIndex := index }
  | opened {item : ServerItem} {handle : Nat} : c.isValidIndex index = true →
      c.servers[index.toNat]? = some item → (c.session.isSome → c.currentIndex ≠ index) →
      created = .session handle →
      ConnectOutcome index created
        { c.face with session := some (handle, item.login), currentIndex := index
                      selectedIndex := index, currentEndpoint := c.endpointFor index }
  | failed {code : RsErrorCode} : c.isValidIndex index = true →
      (c.session.isSome → c.currentIndex ≠ index) → created = .failed code →
      ConnectOutcome index created
        { c.face with session := none
                      currentIndex := if c.session.isSome then -1 else c.currentIndex
                      selectedIndex := index
                      servers := c.servers.modify index.toNat fun item =>
                        { item with status := .failed } }

/-- What a connect leaves of rows and sessions. -/
theorem connectToServer_outcome (index : Int) (created : Created) :
    c.ConnectOutcome index created (c.connectToServer index created).face := by
  unfold connectToServer
  cases hvalid : c.isValidIndex index with
  | false => exact ConnectOutcome.invalid hvalid
  | true =>
    obtain ⟨item, hitem⟩ := c.getElem?_of_isValidIndex hvalid
    rw [if_pos rfl, hitem]
    dsimp only
    rw [c.selectServer_eq hvalid]
    by_cases hother : c.session.isSome ∧ c.currentIndex ≠ index
    · -- the session of another row is gone by the time this row gets its own
      rw [if_pos hother]
      cases created with
      | session handle =>
        show c.ConnectOutcome index _ (requestConnect _).face
        rw [face_requestConnect, face_openSession]
        exact ConnectOutcome.opened hvalid hitem (fun _ => hother.2) rfl
      | failed code =>
        show c.ConnectOutcome index _ (setStatus _ index .failed).face
        have h : c.ConnectOutcome index (.failed code) _ :=
          ConnectOutcome.failed hvalid (fun _ => hother.2) rfl
        rw [if_pos hother.1] at h
        rw [setStatus_eq]
        · exact h
        · exact hvalid
    · rw [if_neg hother]
      cases hsession : c.session with
      | some x =>
        have hsome : c.session.isSome = true := by rw [hsession]; rfl
        -- the row has its session already, which is asked to connect again
        have hcurrent : c.currentIndex = index := by
          by_contra hne
          exact hother ⟨hsome, hne⟩
        show c.ConnectOutcome index _ (requestConnect _).face
        rw [face_requestConnect]
        have h : c.ConnectOutcome index created _ := ConnectOutcome.again hvalid hsome hcurrent
        rw [face, hsession] at h
        exact h
      | none =>
        -- there was no session at all
        have hnone : c.session.isSome = true → c.currentIndex ≠ index := by
          rw [hsession]
          exact fun h => absurd h Bool.noConfusion
        cases created with
        | session handle =>
          show c.ConnectOutcome index _ (requestConnect _).face
          rw [face_requestConnect, face_openSession]
          exact ConnectOutcome.opened hvalid hitem hnone rfl
        | failed code =>
          show c.ConnectOutcome index _ (setStatus _ index .failed).face
          have h : c.ConnectOutcome index (.failed code) _ :=
            ConnectOutcome.failed hvalid hnone rfl
          rw [hsession] at h
          rw [setStatus_eq]
          · exact h
          · exact hvalid

/-- Without host or user nothing happens. -/
theorem connectToHost_refused {host username : QString} (h : host = [] ∨ username = [])
    (port : Int) (password name keyPath keyPassphrase : QString) (created : Created) :
    (c.connectToHost host port username password name keyPath keyPassphrase created).face
      = c.face := by
  unfold connectToHost
  rw [if_pos h]
  rfl

/-- An accepted `connectToHost` is a `connectToServer` of a row that has just been added. -/
theorem connectToHost_accepted {host username : QString} (h : ¬ (host = [] ∨ username = []))
    (port : Int) (password name keyPath keyPassphrase : QString) (created : Created) :
    ∃ credentials, c.connectToHost host port username password name keyPath keyPassphrase created =
      connectToServer
        { c with servers := c.servers ++ [newServer name host (portOf port) username .russh keyPath]
                 credentials := credentials } c.servers.length created := by
  unfold connectToHost
  rw [if_neg h]
  dsimp only
  by_cases hpassword : password = []
  · rw [if_pos hpassword]
    by_cases hpassphrase : keyPassphrase = []
    · rw [if_pos hpassphrase]
      exact ⟨_, rfl⟩
    · rw [if_neg hpassphrase]
      exact ⟨_, rfl⟩
  · rw [if_neg hpassword]
    by_cases hpassphrase : keyPassphrase = []
    · rw [if_pos hpassphrase]
      exact ⟨_, rfl⟩
    · rw [if_neg hpassphrase]
      exact ⟨_, rfl⟩

/-! ## §3. Changing a row. -/

/-- What `editServer` takes. -/
def EditAccepted (host : QString) (port : Int) (username : QString) : Prop :=
  trimmed host ≠ [] ∧ trimmed username ≠ [] ∧ 0 < port ∧ port ≤ 65535

instance (host : QString) (port : Int) (username : QString) :
    Decidable (EditAccepted host port username) :=
  inferInstanceAs (Decidable (_ ∧ _ ∧ _ ∧ _))

/-- A row with the values of an accepted edit. -/
def editedItem (name host : QString) (port : Int) (username keyPath : QString)
    (item : ServerItem) : ServerItem :=
  { item with name := if trimmed name = [] then trimmed host else trimmed name
              host := trimmed host, port := portOf port, username := trimmed username
              provider := .russh, status := .idle, keyPath := trimmed keyPath }

/-- The endpoint of a row with the values of an accepted edit. -/
def editedEndpoint (host : QString) (port : Int) (username : QString) : QString :=
  endpoint (trimmed username) (trimmed host) (portOf port)

/-- The controller after the secrets of an accepted edit have moved: both are read before the
first one does. -/
def editedSecrets (index : Int) (newEndpoint password keyPassphrase : QString) : AppController :=
  (c.editSecret (c.endpointFor index) newEndpoint (c.endpointFor index ≠ newEndpoint)
      (c.credentials (c.endpointFor index)) password).editSecret
    (keyPassKey (c.endpointFor index)) (keyPassKey newEndpoint) (c.endpointFor index ≠ newEndpoint)
    (c.credentials (keyPassKey (c.endpointFor index))) keyPassphrase

/-- Only the credentials count. -/
theorem credentials_editSecret {d : AppController} (h : c.credentials = d.credentials)
    (oldKey newKey : QString) (changed : Bool) (old : Option (List UInt8)) (value : QString) :
    (c.editSecret oldKey newKey changed old value).credentials =
      (d.editSecret oldKey newKey changed old value).credentials := by
  unfold editSecret storeSecret removeSecret
  rw [h]
  split
  · dsimp only
    split <;> rfl
  · cases old with
    | none => exact h
    | some secret =>
      dsimp only
      split
      · rfl
      · exact h

/-- The move of a secret touches nothing else of the face. -/
theorem face_editSecret (oldKey newKey : QString) (changed : Bool) (old : Option (List UInt8))
    (value : QString) :
    (c.editSecret oldKey newKey changed old value).face =
      { c.face with
        credentials := (c.editSecret oldKey newKey changed old value).credentials } := by
  unfold editSecret
  split
  · dsimp only
    split <;> rfl
  · split
    · split <;> rfl
    · rfl

/-- A row that is there, with accepted values. -/
theorem updateServer_eq {index : Int} {host username : QString} {port : Int}
    (hvalid : c.isValidIndex index = true) (haccepted : EditAccepted host port username)
    (name keyPath : QString) :
    c.updateServer index name (trimmed host) port (trimmed username) .russh keyPath =
      (true, { c with servers := c.servers.modify index.toNat fun item =>
        { editedItem name host port username keyPath item with status := item.status } }) := by
  obtain ⟨hhost, husername, hlow, hhigh⟩ := haccepted
  unfold updateServer
  rw [trimmed_trimmed, trimmed_trimmed, if_neg]
  · rfl
  · rw [hvalid]
    rintro (h | h | h | h | h)
    · exact absurd h Bool.noConfusion
    · exact hhost h
    · exact husername h
    · omega
    · omega

/-- Otherwise nothing happens. -/
theorem editServer_refused {index : Int} {host username : QString} {port : Int}
    (h : ¬ (c.isValidIndex index = true ∧ EditAccepted host port username))
    (password name keyPath keyPassphrase : QString) :
    (c.editServer index host port username password name keyPath keyPassphrase).face = c.face := by
  unfold editServer
  split
  · rfl
  next hvalid =>
    dsimp only
    rw [if_pos]
    · rfl
    · by_contra hvalues
      apply h
      rw [not_or, not_or, not_or] at hvalues
      refine ⟨by simpa using hvalid, hvalues.1, hvalues.2.1, ?_, ?_⟩
      · exact Int.not_le.mp hvalues.2.2.1
      · exact Int.not_lt.mp hvalues.2.2.2

/-- An accepted edit: the row takes its values, its session is gone, its secrets follow it. -/
theorem editServer_accepted {index : Int} {host username : QString} {port : Int}
    (hvalid : c.isValidIndex index = true) (haccepted : EditAccepted host port username)
    (password name keyPath keyPassphrase : QString) :
    (c.editServer index host port username password name keyPath keyPassphrase).face =
      { (if index = c.currentIndex then c.dropCurrentSession else c).face with
        servers := c.servers.modify index.toNat (editedItem name host port username keyPath)
        selectedIndex := index
        credentials := (c.editedSecrets index (editedEndpoint host port username) password
          keyPassphrase).credentials } := by
  have hvalues : ¬ (trimmed host = [] ∨ trimmed username = [] ∨ port ≤ 0 ∨ port > 65535) := by
    obtain ⟨hhost, husername, hlow, hhigh⟩ := haccepted
    rintro (h | h | h | h)
    · exact hhost h
    · exact husername h
    · omega
    · omega
  unfold editServer
  rw [hvalid]
  dsimp only
  rw [if_neg (by simp), if_neg hvalues]
  -- the session of the edited row is dropped first; neither the rows nor the secrets change
  have hservers : (if index = c.currentIndex then c.dropCurrentSession else c).servers
      = c.servers := by split <;> rfl
  have hcredentials : (if index = c.currentIndex then c.dropCurrentSession else c).credentials
      = c.credentials := by split <;> rfl
  generalize (if index = c.currentIndex then c.dropCurrentSession else c) = d
    at hservers hcredentials ⊢
  have hvalid' : d.isValidIndex index = true :=
    (isValidIndex_congr (congrArg List.length hservers) index).trans hvalid
  rw [d.updateServer_eq hvalid' haccepted]
  dsimp only
  -- the status of the row is reset with its values
  have hrow : setStatus { d with servers := d.servers.modify index.toNat fun item =>
        { editedItem name host port username keyPath item with status := item.status } } index .idle
      = { d with servers := c.servers.modify index.toNat
                   (editedItem name host port username keyPath) } := by
    rw [setStatus_eq]
    · dsimp only
      rw [List.modify_modify_eq, hservers]
      rfl
    · rw [isValidIndex_congr (List.length_modify _ _ _) index]
      exact hvalid'
  rw [hrow]
  have hlength : (c.servers.modify index.toNat (editedItem name host port username keyPath)).length
      = c.servers.length := List.length_modify _ _ _
  generalize c.servers.modify index.toNat (editedItem name host port username keyPath) = rows
    at hlength ⊢
  have hsecrets : (editSecret (editSecret { d with servers := rows } (c.endpointFor index)
      (editedEndpoint host port username)
      (c.endpointFor index ≠ editedEndpoint host port username)
      (c.credentials (c.endpointFor index)) password) (keyPassKey (c.endpointFor index))
      (keyPassKey (editedEndpoint host port username))
      (c.endpointFor index ≠ editedEndpoint host port username)
      (c.credentials (keyPassKey (c.endpointFor index))) keyPassphrase).face =
      { d.face with
        servers := rows
        credentials := (c.editedSecrets index (editedEndpoint host port username) password
          keyPassphrase).credentials } := by
    have hmoved := credentials_editSecret _ (credentials_editSecret { d with servers := rows }
      hcredentials (c.endpointFor index) (editedEndpoint host port username)
      (c.endpointFor index ≠ editedEndpoint host port username)
      (c.credentials (c.endpointFor index)) password) (keyPassKey (c.endpointFor index))
      (keyPassKey (editedEndpoint host port username))
      (c.endpointFor index ≠ editedEndpoint host port username)
      (c.credentials (keyPassKey (c.endpointFor index))) keyPassphrase
    rw [face_editSecret, hmoved, face_editSecret]
    rfl
  show (selectServer (editSecret (editSecret _ _ (editedEndpoint host port username)
    (c.endpointFor index ≠ editedEndpoint host port username) _ _) _
    (keyPassKey (editedEndpoint host port username))
    (c.endpointFor index ≠ editedEndpoint host port username) _ _) index).face = _
  generalize editSecret (editSecret _ _ _ _ _ _) _ _ _ _ _ = e at hsecrets ⊢
  have hvalidE : e.isValidIndex index = true := by
    have hrows : e.servers = rows := congrArg Face.servers hsecrets
    rw [← hrows] at hlength
    exact (isValidIndex_congr hlength index).trans hvalid
  rw [selectServer_eq e hvalidE]
  show { e.face with selectedIndex := index } = _
  rw [hsecrets]

/-! ## §4. Deleting a row. -/

/-- What is selected after row `index` has been deleted. -/
def selectedAfterDelete (index : Int) : Int :=
  if c.selectedIndex = index then
    if ((c.servers.eraseIdx index.toNat).length : Int) = 0 then -1
    else min index ((c.servers.eraseIdx index.toNat).length - 1)
  else if c.selectedIndex > index then c.selectedIndex - 1
  else c.selectedIndex

/-- A row that is not there is not deleted. -/
theorem deleteServer_invalid {index : Int} (h : ¬ c.isValidIndex index = true) :
    c.deleteServer index = c := by
  unfold deleteServer
  rw [if_pos (by simpa using h)]

/-- The row is gone with its session and its secrets, and the indices behind it have moved up. -/
theorem deleteServer_valid {index : Int} (h : c.isValidIndex index = true) :
    (c.deleteServer index).face =
      { (if index = c.currentIndex then c.dropCurrentSession
         else if c.currentIndex > index then { c with currentIndex := c.currentIndex - 1 }
         else c).face with
        servers := c.servers.eraseIdx index.toNat
        credentials := ((c.removeSecret (c.endpointFor index)).removeSecret
          (keyPassKey (c.endpointFor index))).credentials
        selectedIndex := c.selectedAfterDelete index } := by
  unfold deleteServer selectedAfterDelete
  rw [h]
  dsimp only
  rw [if_neg (by simp)]
  by_cases hcurrent : index = c.currentIndex
  · rw [if_pos hcurrent]
    rfl
  · rw [if_neg hcurrent]
    by_cases hbehind : c.currentIndex > index
    · rw [if_pos hbehind]
      rfl
    · rw [if_neg hbehind]
      rfl

end AppController

end ResearchSSH.App
