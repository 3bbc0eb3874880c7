/-
  ResearchSSH.App.ServerCredentials — what changing or deleting a server does to the secrets of
  the others.

  A secret is stored under the endpoint of its row, and nothing keeps two rows from having one
  endpoint: `connectToHost` adds a row without looking for another one of the same login, and an
  edit may give a row the login of another one.  Deleting or moving a row takes its secrets along
  all the same.

  Main result:
    * `credentials_kept_iff` — when the secrets of the other rows, and those of an edited row, stay
      what they were.
-/

import ResearchSSH.App.CredentialKeys
import ResearchSSH.App.ServerActions
import ResearchSSH.Library.Transition

namespace ResearchSSH.App

open ResearchSSH.Core ResearchSSH.Library

namespace AppController

variable (c : AppController)

/-! ## §1. Keys of rows. -/

/-- The endpoint of a row is the key of its login. -/
theorem exists_endpointFor_eq_key {index : Int} (h : c.isValidIndex index = true) :
    ∃ l : Login, c.endpointFor index = l.key := by
  obtain ⟨item, hitem⟩ := c.getElem?_of_isValidIndex h
  refine ⟨item.login, ?_⟩
  unfold endpointFor
  rw [hitem]
  rfl

/-- Different endpoints have different keys for their passphrases. -/
theorem keyPassKey_injective {s t : QString} (h : keyPassKey s = keyPassKey t) : s = t :=
  List.append_cancel_right h

/-! ## §2. The secrets after an action. -/

/-- A store after the secret under `old` has moved to `new`, or a new one has taken its place. -/
def movedSecret (credentials : QString → Option (List UInt8)) (old new value : QString) :
    QString → Option (List UInt8) := fun key =>
  if key = new then
    if value ≠ [] then some (toUtf8 value) else (credentials old).or (credentials new)
  else if key = old then none
  else credentials key

/-- One secret put under `new`, and whatever `old` holds taken away. -/
theorem update_moved (credentials : QString → Option (List UInt8)) (old new key : QString)
    (secret : List UInt8) :
    (if old ≠ new then Function.update (Function.update credentials new (some secret)) old none
      else Function.update credentials new (some secret)) key =
      if key = new then some secret else if key = old then none else credentials key := by
  by_cases hchanged : old = new
  · rw [if_neg (not_not.mpr hchanged)]
    by_cases hnew : key = new
    · rw [if_pos hnew, hnew, Function.update_self]
    · rw [if_neg hnew, if_neg (hchanged ▸ hnew), Function.update_of_ne hnew]
  · rw [if_pos hchanged]
    by_cases hnew : key = new
    · rw [if_pos hnew, hnew, Function.update_of_ne (Ne.symm hchanged), Function.update_self]
    · rw [if_neg hnew]
      by_cases hkey : key = old
      · rw [if_pos hkey, hkey, Function.update_self]
      · rw [if_neg hkey, Function.update_of_ne hkey, Function.update_of_ne hnew]

/-- What an edit does with one secret. -/
theorem credentials_editSecret_eq (old new value : QString) :
    (c.editSecret old new (old ≠ new) (c.credentials old) value).credentials =
      movedSecret c.credentials old new value := by
  funext key
  have hmoved : ∀ secret, (if decide (old ≠ new) = true then
      (c.storeSecret new secret).removeSecret old else c.storeSecret new secret).credentials =
      if old ≠ new then Function.update (Function.update c.credentials new (some secret)) old none
      else Function.update c.credentials new (some secret) := by
    intro secret
    by_cases hchanged : old = new
    · rw [if_neg (not_not.mpr hchanged), if_neg (by simpa using hchanged)]
      rfl
    · rw [if_pos hchanged, if_pos (by simpa using hchanged)]
      rfl
  unfold editSecret movedSecret
  by_cases hvalue : value = []
  · rw [if_neg (not_not.mpr hvalue), if_neg (not_not.mpr hvalue)]
    cases hold : c.credentials old with
    | none =>
      -- nothing moves, and nothing is under the old key
      dsimp only
      rw [Option.none_or]
      by_cases hnew : key = new
      · rw [if_pos hnew, hnew]
      · rw [if_neg hnew]
        by_cases hkey : key = old
        · rw [if_pos hkey, hkey]
          exact hold
        · rw [if_neg hkey]
    | some secret =>
      rw [Option.some_or, ← update_moved]
      dsimp only
      by_cases hchanged : old = new
      · rw [if_neg (by simpa using hchanged), if_neg (not_not.mpr hchanged), ← hchanged, ← hold,
          Function.update_eq_self]
      · have h := hmoved secret
        rw [if_pos (by simpa using hchanged)] at h ⊢
        rw [h]
  · rw [if_pos hvalue, if_pos hvalue, ← update_moved]
    dsimp only
    rw [hmoved]

/-- Other keys keep theirs. -/
theorem movedSecret_of_ne {credentials : QString → Option (List UInt8)} {old new key : QString}
    (hold : key ≠ old) (hnew : key ≠ new) (value : QString) :
    movedSecret credentials old new value key = credentials key := by
  unfold movedSecret
  rw [if_neg hnew, if_neg hold]

/-- A move looks at the keys it is about and at no other. -/
theorem movedSecret_congr {credentials others : QString → Option (List UInt8)}
    {old new key : QString} (hold : credentials old = others old)
    (hnew : credentials new = others new) (hkey : credentials key = others key)
    (value : QString) :
    movedSecret credentials old new value key = movedSecret others old new value key := by
  unfold movedSecret
  rw [hold, hnew, hkey]

/-- What an edit does with both secrets of a row. -/
theorem credentials_editedSecrets {index : Int} (hvalid : c.isValidIndex index = true)
    (edited : Login) (password keyPassphrase : QString) :
    (c.editedSecrets index edited.key password keyPassphrase).credentials =
      movedSecret (movedSecret c.credentials (c.endpointFor index) edited.key password)
        (keyPassKey (c.endpointFor index)) (keyPassKey edited.key) keyPassphrase := by
  obtain ⟨own, hown⟩ := c.exists_endpointFor_eq_key hvalid
  have hfirst := c.credentials_editSecret_eq (c.endpointFor index) edited.key password
  unfold editedSecrets
  generalize c.editSecret (c.endpointFor index) edited.key (c.endpointFor index ≠ edited.key)
    (c.credentials (c.endpointFor index)) password = d at hfirst ⊢
  -- the passphrase that was read before is the one there still is
  have hold : d.credentials (keyPassKey (c.endpointFor index)) =
      c.credentials (keyPassKey (c.endpointFor index)) := by
    rw [hfirst, hown]
    exact movedSecret_of_ne (Ne.symm (key_ne_keyPassKey own own))
      (Ne.symm (key_ne_keyPassKey edited own)) password
  have hchanged : (decide (c.endpointFor index ≠ edited.key)) =
      decide (keyPassKey (c.endpointFor index) ≠ keyPassKey edited.key) := by
    rw [decide_eq_decide]
    exact not_congr ⟨congrArg keyPassKey, keyPassKey_injective⟩
  rw [← hold, hchanged, credentials_editSecret_eq, hfirst]

/-- The password of a login after an accepted edit. -/
theorem editedSecrets_key {index : Int} (hvalid : c.isValidIndex index = true)
    (edited l : Login) (password keyPassphrase : QString) :
    (c.editedSecrets index edited.key password keyPassphrase).credentials l.key =
      movedSecret c.credentials (c.endpointFor index) edited.key password l.key := by
  obtain ⟨own, hown⟩ := c.exists_endpointFor_eq_key hvalid
  rw [c.credentials_editedSecrets hvalid, hown]
  exact movedSecret_of_ne (key_ne_keyPassKey l own) (key_ne_keyPassKey l edited) keyPassphrase

/-- The passphrase of a login after an accepted edit. -/
theorem editedSecrets_keyPassKey {index : Int} (hvalid : c.isValidIndex index = true)
    (edited l : Login) (password keyPassphrase : QString) :
    (c.editedSecrets index edited.key password keyPassphrase).credentials (keyPassKey l.key) =
      movedSecret c.credentials (keyPassKey (c.endpointFor index)) (keyPassKey edited.key)
        keyPassphrase (keyPassKey l.key) := by
  obtain ⟨own, hown⟩ := c.exists_endpointFor_eq_key hvalid
  have hkept : ∀ l : Login, movedSecret c.credentials own.key edited.key password
      (keyPassKey l.key) = c.credentials (keyPassKey l.key) :=
    fun l => movedSecret_of_ne (Ne.symm (key_ne_keyPassKey own l))
      (Ne.symm (key_ne_keyPassKey edited l)) password
  rw [c.credentials_editedSecrets hvalid, hown]
  exact movedSecret_congr (hkept own) (hkept edited) (hkept l) keyPassphrase

/-! ## §3. The conditions. -/

/-- The other rows find the secrets they had. -/
def OthersKept (index : Int) (after : AppController) : Prop :=
  ∀ j, c.isValidIndex j = true → j ≠ index →
    after.credentials (c.endpointFor j) = c.credentials (c.endpointFor j) ∧
    after.credentials (keyPassKey (c.endpointFor j)) =
      c.credentials (keyPassKey (c.endpointFor j))

/-- Row `index` loads the secrets it loaded. -/
def OwnKept (index : Int) (after : AppController) : Prop :=
  after.loadSecret (after.endpointFor index) = c.loadSecret (c.endpointFor index) ∧
    after.loadSecret (keyPassKey (after.endpointFor index)) =
      c.loadSecret (keyPassKey (c.endpointFor index))

/-- Nothing is stored for row `index`, or no other row has its endpoint. -/
def DeletesAlone (index : Int) : Prop :=
  c.isValidIndex index = true →
    ∀ j, c.isValidIndex j = true → j ≠ index → c.endpointFor j = c.endpointFor index →
      c.credentials (c.endpointFor index) = none ∧
      c.credentials (keyPassKey (c.endpointFor index)) = none

/-- What an edit puts under `new` is what is stored there: the value it was given, else what is
stored under `old`, if anything. -/
def SameSecret (old new value : QString) : Prop :=
  if value ≠ [] then c.credentials new = some (toUtf8 value)
  else c.credentials old = none ∨ c.credentials old = c.credentials new

/-- Where another row has the new endpoint, the edit puts nothing new under it; where one has the
old endpoint and the edit leaves it, nothing is stored under it. -/
def EditsAlone (index : Int) (edited password keyPassphrase : QString) : Prop :=
  ∀ j, c.isValidIndex j = true → j ≠ index →
    (c.endpointFor j = edited → c.SameSecret (c.endpointFor index) edited password ∧
      c.SameSecret (keyPassKey (c.endpointFor index)) (keyPassKey edited) keyPassphrase) ∧
    (c.endpointFor j = c.endpointFor index → c.endpointFor index ≠ edited →
      c.credentials (c.endpointFor index) = none ∧
      c.credentials (keyPassKey (c.endpointFor index)) = none)

/-- A secret that the row does not have is not found under its new endpoint either. -/
def FindsNothing (index : Int) (edited : QString) : Prop :=
  (c.credentials (c.endpointFor index) = none → c.loadSecret edited = []) ∧
    (c.credentials (keyPassKey (c.endpointFor index)) = none →
      c.loadSecret (keyPassKey edited) = [])

/-! ## §4. Exact conditions. -/

/-- When a move leaves the secret under a key as it was. -/
theorem movedSecret_eq_iff (old new value key : QString) :
    movedSecret c.credentials old new value key = c.credentials key ↔
      (key = new → c.SameSecret old new value) ∧
      (key = old → old ≠ new → c.credentials old = none) := by
  unfold movedSecret SameSecret
  by_cases hnew : key = new
  · subst hnew
    rw [if_pos rfl]
    have hself : ∀ P : Prop, (P ↔ ((key = key → P) ∧
        (key = old → old ≠ key → c.credentials old = none))) := by
      intro P
      exact ⟨fun hP => ⟨fun _ => hP, fun hold hne => absurd hold.symm hne⟩, fun h => h.1 rfl⟩
    rw [← hself]
    split
    · exact eq_comm
    · cases c.credentials old with
      | none => simp
      | some secret => simp
  · rw [if_neg hnew]
    by_cases hold : key = old
    · subst hold
      rw [if_pos rfl]
      constructor
      · intro hnone
        exact ⟨fun h => absurd h hnew, fun _ _ => hnone.symm⟩
      · intro h
        exact (h.2 rfl hnew).symm
    · rw [if_neg hold]
      exact iff_of_true rfl ⟨fun h => absurd h hnew, fun h => absurd h hold⟩

/-- Deleting a row keeps the others' secrets if and only if they have other keys. -/
theorem othersKept_deleteServer_iff (index : Int) :
    c.OthersKept index (c.deleteServer index) ↔ c.DeletesAlone index := by
  by_cases hvalid : c.isValidIndex index = true
  swap
  · rw [c.deleteServer_invalid hvalid]
    exact iff_of_true (fun j _ _ => ⟨rfl, rfl⟩) (fun h => absurd h hvalid)
  obtain ⟨own, hown⟩ := c.exists_endpointFor_eq_key hvalid
  have hafter : (c.deleteServer index).credentials =
      Function.update (Function.update c.credentials (c.endpointFor index) none)
        (keyPassKey (c.endpointFor index)) none :=
    congrArg Face.credentials (c.deleteServer_valid hvalid)
  have hkey : ∀ l : Login, (c.deleteServer index).credentials l.key =
      if l.key = c.endpointFor index then none else c.credentials l.key := by
    intro l
    rw [hafter, Function.update_of_ne (hown ▸ key_ne_keyPassKey l own)]
    rw [Function.update_apply]
  have hkeyPassKey : ∀ l : Login, (c.deleteServer index).credentials (keyPassKey l.key) =
      if l.key = c.endpointFor index then none else c.credentials (keyPassKey l.key) := by
    intro l
    rw [hafter, Function.update_apply,
      Function.update_of_ne (hown ▸ Ne.symm (key_ne_keyPassKey own l))]
    by_cases hsame : l.key = c.endpointFor index
    · rw [if_pos hsame, if_pos (congrArg keyPassKey hsame)]
    · rw [if_neg hsame, if_neg (fun h => hsame (keyPassKey_injective h))]
  constructor
  · intro h _ j hj hne hsame
    obtain ⟨l, hl⟩ := c.exists_endpointFor_eq_key hj
    obtain ⟨hpassword, hpassphrase⟩ := h j hj hne
    rw [hl, hkey, if_pos (hl ▸ hsame)] at hpassword
    rw [hl, hkeyPassKey, if_pos (hl ▸ hsame)] at hpassphrase
    rw [← hsame, hl]
    exact ⟨hpassword.symm, hpassphrase.symm⟩
  · intro h j hj hne
    obtain ⟨l, hl⟩ := c.exists_endpointFor_eq_key hj
    rw [hl, hkey, hkeyPassKey]
    by_cases hsame : l.key = c.endpointFor index
    · obtain ⟨hpassword, hpassphrase⟩ := h hvalid j hj hne (hl.trans hsame)
      rw [if_pos hsame, if_pos hsame, hsame]
      exact ⟨hpassword.symm, hpassphrase.symm⟩
    · rw [if_neg hsame, if_neg hsame]
      exact ⟨rfl, rfl⟩

section Edit

variable {index : Int} {host username : QString} {port : Int}
  (password name keyPath keyPassphrase : QString)

/-- The credentials after an accepted edit. -/
theorem credentials_editServer (hvalid : c.isValidIndex index = true)
    (haccepted : EditAccepted host port username) :
    (c.editServer index host port username password name keyPath keyPassphrase).credentials =
      (c.editedSecrets index (editedEndpoint host port username) password
        keyPassphrase).credentials :=
  congrArg Face.credentials
    (c.editServer_accepted hvalid haccepted password name keyPath keyPassphrase)

/-- The row's key after an accepted edit. -/
theorem endpointFor_editServer (hvalid : c.isValidIndex index = true)
    (haccepted : EditAccepted host port username) :
    (c.editServer index host port username password name keyPath keyPassphrase).endpointFor index =
      editedEndpoint host port username := by
  obtain ⟨item, hitem⟩ := c.getElem?_of_isValidIndex hvalid
  have hservers : (c.editServer index host port username password name keyPath
      keyPassphrase).servers =
      c.servers.modify index.toNat (editedItem name host port username keyPath) :=
    congrArg Face.servers
      (c.editServer_accepted hvalid haccepted password name keyPath keyPassphrase)
  unfold endpointFor
  rw [hservers, List.getElem?_modify_eq, hitem]
  rfl

/-- Editing a row keeps the others' secrets if and only if they have other keys. -/
theorem othersKept_editServer_iff :
    c.OthersKept index
        (c.editServer index host port username password name keyPath keyPassphrase) ↔
      (c.isValidIndex index = true → EditAccepted host port username →
        c.EditsAlone index (editedEndpoint host port username) password keyPassphrase) := by
  by_cases haccepted : c.isValidIndex index = true ∧ EditAccepted host port username
  swap
  · have hsame : (c.editServer index host port username password name keyPath
        keyPassphrase).credentials = c.credentials :=
      congrArg Face.credentials (c.editServer_refused haccepted password name keyPath keyPassphrase)
    refine iff_of_true (fun j _ _ => ?_) (fun hvalid h => absurd ⟨hvalid, h⟩ haccepted)
    rw [hsame]
    exact ⟨rfl, rfl⟩
  obtain ⟨hvalid, haccepted⟩ := haccepted
  have hafter := c.credentials_editServer password name keyPath keyPassphrase hvalid haccepted
  -- the new key is a login's key, as the rows' own are
  obtain ⟨edited, hedited⟩ : ∃ edited : Login,
      editedEndpoint host port username = edited.key :=
    ⟨{ host := trimmed host, port := portOf port, username := trimmed username }, rfl⟩
  rw [hedited] at hafter ⊢
  -- one row at a time, its password and its passphrase
  have hkept : ∀ j, c.isValidIndex j = true →
      (((c.editServer index host port username password name keyPath keyPassphrase).credentials
          (c.endpointFor j) = c.credentials (c.endpointFor j) ∧
        (c.editServer index host port username password name keyPath keyPassphrase).credentials
          (keyPassKey (c.endpointFor j)) = c.credentials (keyPassKey (c.endpointFor j))) ↔
      (c.endpointFor j = edited.key → c.SameSecret (c.endpointFor index) edited.key password ∧
        c.SameSecret (keyPassKey (c.endpointFor index)) (keyPassKey edited.key) keyPassphrase) ∧
      (c.endpointFor j = c.endpointFor index → c.endpointFor index ≠ edited.key →
        c.credentials (c.endpointFor index) = none ∧
        c.credentials (keyPassKey (c.endpointFor index)) = none)) := by
    intro j hj
    obtain ⟨l, hl⟩ := c.exists_endpointFor_eq_key hj
    have hkeys : ∀ s t : QString, keyPassKey s = keyPassKey t ↔ s = t :=
      fun s t => ⟨keyPassKey_injective, congrArg keyPassKey⟩
    rw [hafter, hl, c.editedSecrets_key hvalid, c.editedSecrets_keyPassKey hvalid,
      movedSecret_eq_iff, movedSecret_eq_iff, hkeys, hkeys, Ne, Ne, hkeys]
    constructor
    · rintro ⟨⟨hnew, hold⟩, hnew', hold'⟩
      exact ⟨fun h => ⟨hnew h, hnew' h⟩, fun h hne => ⟨hold h hne, hold' h hne⟩⟩
    · rintro ⟨hnew, hold⟩
      exact ⟨⟨fun h => (hnew h).1, fun h hne => (hold h hne).1⟩,
        fun h => (hnew h).2, fun h hne => (hold h hne).2⟩
  constructor
  · intro h _ _ j hj hne
    exact (hkept j hj).mp (h j hj hne)
  · intro h j hj hne
    exact (hkept j hj).mpr (h hvalid haccepted j hj hne)

/-- What the edited row loads after an edit without new secrets. -/
theorem loadSecret_editServer (hvalid : c.isValidIndex index = true)
    (haccepted : EditAccepted host port username) :
    (c.editServer index host port username [] name keyPath []).loadSecret
        (editedEndpoint host port username) =
      ((c.credentials (c.endpointFor index)).or
        (c.credentials (editedEndpoint host port username))).getD [] ∧
    (c.editServer index host port username [] name keyPath []).loadSecret
        (keyPassKey (editedEndpoint host port username)) =
      ((c.credentials (keyPassKey (c.endpointFor index))).or
        (c.credentials (keyPassKey (editedEndpoint host port username)))).getD [] := by
  have hafter := c.credentials_editServer [] name keyPath [] hvalid haccepted
  obtain ⟨edited, hedited⟩ : ∃ edited : Login,
      editedEndpoint host port username = edited.key :=
    ⟨{ host := trimmed host, port := portOf port, username := trimmed username }, rfl⟩
  unfold loadSecret
  rw [hedited] at hafter ⊢
  rw [hafter, c.editedSecrets_key hvalid, c.editedSecrets_keyPassKey hvalid]
  unfold movedSecret
  rw [if_pos rfl, if_pos rfl, if_neg (not_not.mpr rfl), if_neg (not_not.mpr rfl)]
  exact ⟨rfl, rfl⟩

/-- A refused edit leaves the row and the secrets alone. -/
theorem loadSecret_editServer_refused
    (h : ¬ (c.isValidIndex index = true ∧ EditAccepted host port username)) :
    c.OwnKept index
      (c.editServer index host port username password name keyPath keyPassphrase) := by
  have hface := c.editServer_refused h password name keyPath keyPassphrase
  have hcredentials := congrArg Face.credentials hface
  have hservers := congrArg Face.servers hface
  generalize c.editServer index host port username password name keyPath keyPassphrase = after
    at hcredentials hservers ⊢
  have hsecrets : after.credentials = c.credentials := hcredentials
  have hrows : after.servers = c.servers := hservers
  unfold OwnKept loadSecret endpointFor
  rw [hsecrets, hrows]
  exact ⟨rfl, rfl⟩

/-- Editing a row keeps its own secrets if and only if none lie under the new key. -/
theorem ownKept_editServer_iff :
    c.OwnKept index (c.editServer index host port username [] name keyPath []) ↔
      (c.isValidIndex index = true → EditAccepted host port username →
        c.FindsNothing index (editedEndpoint host port username)) := by
  by_cases haccepted : c.isValidIndex index = true ∧ EditAccepted host port username
  swap
  · exact iff_of_true (c.loadSecret_editServer_refused [] name keyPath [] haccepted)
      (fun hvalid h => absurd ⟨hvalid, h⟩ haccepted)
  obtain ⟨hvalid, haccepted⟩ := haccepted
  have hor : ∀ old new : Option (List UInt8),
      (old.or new).getD [] = old.getD [] ↔ (old = none → new.getD [] = []) := by
    intro old new
    cases old with
    | none => simp
    | some secret => simp
  obtain ⟨hpassword, hpassphrase⟩ := c.loadSecret_editServer name keyPath hvalid haccepted
  unfold OwnKept FindsNothing
  rw [c.endpointFor_editServer [] name keyPath [] hvalid haccepted, hpassword, hpassphrase]
  unfold loadSecret
  rw [hor, hor]
  exact ⟨fun h _ _ => h, fun h => h hvalid haccepted⟩

/-- A secret that the row has is loaded after an edit without new secrets. -/
theorem loadSecret_editServer_of_stored :
    ((c.credentials (c.endpointFor index)).isSome →
      (c.editServer index host port username [] name keyPath []).loadSecret
          ((c.editServer index host port username [] name keyPath []).endpointFor index) =
        c.loadSecret (c.endpointFor index)) ∧
    ((c.credentials (keyPassKey (c.endpointFor index))).isSome →
      (c.editServer index host port username [] name keyPath []).loadSecret
          (keyPassKey ((c.editServer index host port username [] name keyPath []).endpointFor
            index)) =
        c.loadSecret (keyPassKey (c.endpointFor index))) := by
  by_cases haccepted : c.isValidIndex index = true ∧ EditAccepted host port username
  swap
  · obtain ⟨hpassword, hpassphrase⟩ :=
      c.loadSecret_editServer_refused [] name keyPath [] haccepted
    exact ⟨fun _ => hpassword, fun _ => hpassphrase⟩
  obtain ⟨hvalid, haccepted⟩ := haccepted
  have hor : ∀ old new : Option (List UInt8), old.isSome → (old.or new).getD [] = old.getD [] := by
    intro old new hsome
    cases old with
    | none => exact absurd hsome Bool.noConfusion
    | some secret => rfl
  obtain ⟨hpassword, hpassphrase⟩ := c.loadSecret_editServer name keyPath hvalid haccepted
  rw [c.endpointFor_editServer [] name keyPath [] hvalid haccepted, hpassword, hpassphrase]
  exact ⟨hor _ _, hor _ _⟩

end Edit

/-- **The secrets of the others.**  For every controller and every row: `deleteServer` leaves the
secrets of the other rows as they are exactly if nothing is stored for the row or no other one has
its endpoint; `editServer` does exactly if the rows that have the old or the new endpoint are not
touched by what it moves; and an edit without new secrets leaves the row those it has, and lets it
load the same as before exactly if it finds none in place of those it has not. -/
theorem credentials_kept_iff (index : Int) :
    (c.OthersKept index (c.deleteServer index) ↔ c.DeletesAlone index) ∧
    ∀ (host : QString) (port : Int) (username name keyPath : QString),
      (∀ password keyPassphrase : QString,
        c.OthersKept index
            (c.editServer index host port username password name keyPath keyPassphrase) ↔
          (c.isValidIndex index = true → EditAccepted host port username →
            c.EditsAlone index (editedEndpoint host port username) password keyPassphrase)) ∧
      (c.OwnKept index (c.editServer index host port username [] name keyPath []) ↔
        (c.isValidIndex index = true → EditAccepted host port username →
          c.FindsNothing index (editedEndpoint host port username))) ∧
      ((c.credentials (c.endpointFor index)).isSome →
        (c.editServer index host port username [] name keyPath []).loadSecret
            ((c.editServer index host port username [] name keyPath []).endpointFor index) =
          c.loadSecret (c.endpointFor index)) ∧
      ((c.credentials (keyPassKey (c.endpointFor index))).isSome →
        (c.editServer index host port username [] name keyPath []).loadSecret
            (keyPassKey ((c.editServer index host port username [] name keyPath []).endpointFor
              index)) =
          c.loadSecret (keyPassKey (c.endpointFor index))) := by
  refine ⟨c.othersKept_deleteServer_iff index, fun host port username name keyPath => ⟨?_, ?_, ?_⟩⟩
  · intro password keyPassphrase
    exact c.othersKept_editServer_iff password name keyPath keyPassphrase
  · exact c.ownKept_editServer_iff name keyPath
  · exact c.loadSecret_editServer_of_stored name keyPath

/-- One login added twice: deleting the second row takes the password of the first one. -/
theorem twin_loses_password :
    ¬ ∀ (labels : List UiLabel) (s : UiThread),
      exec UiThread.step (UiThread.initial [] fun _ => none) labels = some s →
      ∀ index, s.controller.OthersKept index (s.controller.deleteServer index) := by
  intro h
  obtain ⟨s, hrun⟩ : ∃ s, exec UiThread.step (UiThread.initial [] fun _ => none)
      [.user (.connectToHost (lit "h") 22 (lit "u") (lit "p") [] [] [] none),
       .user (.connectToHost (lit "h") 22 (lit "u") [] [] [] [] none)] = some s :=
    Option.isSome_iff_exists.mp (by decide)
  have hview : (exec UiThread.step (UiThread.initial [] fun _ => none)
      [.user (.connectToHost (lit "h") 22 (lit "u") (lit "p") [] [] [] none),
       .user (.connectToHost (lit "h") 22 (lit "u") [] [] [] [] none)]).map
        (fun s => (s.controller.isValidIndex 0,
          s.controller.credentials (s.controller.endpointFor 0),
          (s.controller.deleteServer 1).credentials (s.controller.endpointFor 0)))
      = some (true, some (toUtf8 (lit "p")), none) := by decide
  rw [hrun, Option.map_some, Option.some.injEq, Prod.mk.injEq, Prod.mk.injEq] at hview
  have hkept := (h _ s hrun 1 0 hview.1 (by decide)).1
  rw [hview.2.1, hview.2.2] at hkept
  exact absurd hkept (Option.some_ne_none _).symm

end AppController

end ResearchSSH.App
