/-
  ResearchSSH.App.ClipboardMoves — whose clipboard a finished move empties.

  A paste of a cut path is submitted as a move, and its request carries one flag: empty the
  clipboard when the move has succeeded.  The flag does not say which entry is meant, so the
  success empties whatever is on the clipboard by then.

  The runs here count the entries that are put on the clipboard, and note beside each request of a
  paste which of them it was for.  No function of the program reads either.

  Main results:
    * `Traced.step`          — a move that waits is for its own entry, as long as that is there.
    * `copied_while_moving`  — a copied path that the success of an earlier move takes away.
    * `clears_its_own_iff`   — a run in which this does not happen.
-/

import ResearchSSH.App.ControllerShelf

namespace ResearchSSH.App

open ResearchSSH.Core ResearchSSH.Library

/-! ## §1. Runs that count. -/

/-- A paste asks for something and is not refused. -/
def AppController.Pastes (c : AppController) : Prop :=
  c.ready = true ∧ c.clipboardPath ≠ [] ∧ ¬ c.desk.Refuses

instance (c : AppController) : Decidable c.Pastes :=
  inferInstanceAs (Decidable (c.ready = true ∧ c.clipboardPath ≠ [] ∧ ¬ c.desk.Refuses))

/-- An entry is put on the clipboard. -/
def Input.sets : Input → Bool
  | .user _ (.copyPath path) => path ≠ []
  | .user _ (.cutPath path) => path ≠ []
  | _ => false

/-- The controller, how many entries have been put on its clipboard, and how many there had been
when the paste with an id was submitted. -/
structure Clipped where
  controller : AppController
  entries : Nat
  pastedAt : UInt64 → Nat

namespace Clipped

/-- The application has just been started. -/
def initial (servers : List ServerItem) (credentials : QString → Option (List UInt8)) : Clipped :=
  { controller := .initial servers credentials, entries := 0, pastedAt := fun _ => 0 }

/-- The ids of the pastes, after one more input. -/
def pastedNext (s : Clipped) : Input → UInt64 → Nat
  | .user _ (.paste _) =>
    if s.controller.Pastes then Function.update s.pastedAt (s.controller.desk.idAfter 1) s.entries
    else s.pastedAt
  | _ => s.pastedAt

/-- The controller takes an input, and the clipboard's entries are counted. -/
def next (s : Clipped) (input : Input) : Clipped :=
  { controller := s.controller.feed input
    entries := if input.sets then s.entries + 1 else s.entries
    pastedAt := s.pastedNext input }

/-- The same as a step that can always be made. -/
def step (s : Clipped) (input : Input) : Option Clipped := some (s.next input)

/-- A file result that takes the clipboard's entry away is the success of a move of that entry,
pasted when it was there. -/
def ClearsItsOwn (s : Clipped) (input : Input) : Prop :=
  ∀ result, input = .item (.file result) → s.controller.clipboardPath ≠ [] →
    (s.controller.feed input).clipboardPath ≠ s.controller.clipboardPath →
    ∃ pending, s.controller.fsPending result.requestId = some pending ∧ result.payload = .ok ∧
      pending.kind = .mutate ∧ pending.mutation = .moveLike ∧
      pending.path = s.controller.clipboardPath ∧ s.pastedAt result.requestId = s.entries

/-- When the paste of a cut path has succeeded, the clipboard is empty or nothing has been put on
it since that paste. -/
def MovesSettle (s : Clipped) (input : Input) : Prop :=
  ∀ result pending, input = .item (.file result) →
    s.controller.fsPending result.requestId = some pending → pending.clearClipboard = true →
    result.payload = .ok →
    s.controller.clipboardPath = [] ∨ s.pastedAt result.requestId = s.entries

/-! ## §2. What an input does to the clipboard. -/

/-- The clipboard is kept or emptied, and no new request would empty it. -/
structure Fades (c d : AppController) : Prop where
  path : d.clipboardPath = c.clipboardPath ∨ d.clipboardPath = []
  clears : ∀ id pending, d.fsPending id = some pending → pending.clearClipboard = true →
    c.fsPending id = some pending

variable {c d e : AppController}

/-- What spares the clipboard adds no moves. -/
theorem fades_spares (h : AppController.Spares c d) : Fades c d :=
  ⟨.inl (congrArg Shelf.clipboardPath h.shelf), h.clears⟩

theorem fades_butTree (h : AppController.SparesButTree c d) : Fades c d :=
  ⟨.inl (congrArg Shelf.clipboardPath h.shelf), h.clears⟩

theorem fades_butCommands (h : AppController.SparesButCommands c d) : Fades c d :=
  ⟨.inl (congrArg Shelf.clipboardPath h.shelf), h.clears⟩

/-- A connection that ends may empty the clipboard. -/
theorem fades_settled (h : c.Settled d) : Fades c d := by
  rcases h with hidles | htorn
  · exact fades_spares hidles.spares
  · refine ⟨.inr (congrArg Shelf.clipboardPath htorn.shelf), fun id pending hpending hclear => ?_⟩
    rw [htorn.clears id pending hpending] at hclear
    cases hclear

/-- One after the other. -/
theorem Fades.trans (h : Fades c d) (h' : Fades d e) : Fades c e where
  path := by
    rcases h'.path with hkept | hempty
    · rw [hkept]
      exact h.path
    · exact .inr hempty
  clears := fun id pending hpending hclear =>
    h.clears id pending (h'.clears id pending hpending hclear) hclear

/-- The clipboard outlives the connection. -/
theorem fades_forgetConnection (c : AppController) : Fades c c.forgetConnection :=
  ⟨.inl (congrArg Shelf.clipboardPath c.shelf_forgetConnection), nofun⟩

/-- No event fills the clipboard. -/
theorem fades_ingestRustEvent (c : AppController) (ev : RustEvent) :
    Fades c (c.ingestRustEvent ev) := by
  by_cases hstate : ∃ state, ev = .stateChanged state
  · obtain ⟨state, rfl⟩ := hstate
    show Fades c (c.setConnectionState state)
    obtain ⟨d, hidles, _, ⟨_, heq⟩ | heq | heq⟩ := c.setConnectionState_cases state
    · rw [heq]
      exact (fades_spares hidles.spares).trans (fades_butTree d.spares_reloadFiles)
    · rw [heq]
      exact (fades_spares hidles.spares).trans (fades_forgetConnection d)
    · rw [heq]
      exact fades_spares hidles.spares
  · exact fades_spares (c.idles_ingestRustEvent (not_exists.mp hstate)).spares

/-- A result takes its request away. -/
theorem fades_taken (c : AppController) (id : UInt64) :
    Fades c { c with fsPending := Function.update c.fsPending id none } := by
  refine ⟨.inl rfl, fun other pending hpending _ => ?_⟩
  change Function.update c.fsPending id none other = some pending at hpending
  by_cases hid : other = id
  · rw [hid, Function.update_self] at hpending
    cases hpending
  · rw [Function.update_of_ne hid] at hpending
    exact hpending

/-- A change that has succeeded may empty the clipboard. -/
theorem fades_finishMutate (c : AppController) (pending : PendingFs) (payload : FsPayload) :
    Fades c (c.finishMutate pending payload) := by
  have hrest := fades_butTree (c.spares_finishMutate pending payload)
  refine Fades.trans ?_ hrest
  split
  · exact ⟨.inr rfl, fun _ _ hpending _ => hpending⟩
  · exact fades_spares (.refl c)

/-- No file result fills the clipboard. -/
theorem fades_ingestFileResult (c : AppController) (result : FsResult) :
    Fades c (c.ingestFileResult result) := by
  unfold AppController.ingestFileResult
  cases c.fsPending result.requestId with
  | none => exact fades_spares (.refl c)
  | some pending =>
    refine (fades_taken c result.requestId).trans ?_
    dsimp only
    -- only the result of a mutation can empty the clipboard
    split
    · exact fades_butTree (AppController.spares_failFileRequest _ _ _ _)
    · cases pending.kind with
      | listing => exact fades_butTree (AppController.spares_finishListing _ _ _)
      | editorOpen => exact fades_spares (AppController.idles_finishOpen _ _ _).spares
      | editorSave => exact fades_butTree (AppController.spares_finishSave _ _ _)
      | mutate => exact fades_finishMutate _ _ _

/-- Every input but a copy, a cut and a paste. -/
theorem fades_feed (c : AppController) {input : Input} (hsets : input.sets = false)
    (hpaste : ∀ handle destDir, input ≠ .user handle (.paste destDir)) :
    Fades c (c.feed input) := by
  cases input with
  | item item =>
    cases item with
    | event ev => exact fades_ingestRustEvent c ev
    | file result => exact fades_ingestFileResult c result
    | exec result => exact fades_butCommands (c.spares_ingestExecResult result)
  | driverStops => exact fades_spares (.same rfl rfl)
  | user handle action =>
    by_cases huses : action.usesShelf = true
    · cases action with
      | connectToServer index refused => exact fades_settled (c.settled_connectToServer _ _)
      | connectToHost host port username password name keyPath keyPassphrase refused =>
        exact fades_settled (c.settled_connectToHost _ _ _ _ _ _ _ _)
      | editServer index host port username password name keyPath keyPassphrase =>
        exact fades_settled (c.settled_editServer _ _ _ _ _ _ _ _)
      | deleteServer index => exact fades_settled (c.settled_deleteServer index)
      | refreshResourceSnapshot => exact fades_butCommands c.spares_refreshResourceSnapshot
      | refreshEnvironment => exact fades_butCommands c.spares_refreshEnvironment
      | searchPackages query => exact fades_butCommands (c.spares_searchPackages query)
      | installPackage manager name => exact fades_butCommands (c.spares_mutatePackage _ _ _)
      | updatePackage manager name => exact fades_butCommands (c.spares_mutatePackage _ _ _)
      | removePackage manager name => exact fades_butCommands (c.spares_mutatePackage _ _ _)
      | reloadFiles => exact fades_butTree c.spares_reloadFiles
      | fetchMore node => exact fades_butTree (c.spares_fetchMore node)
      | copyPath path =>
        -- an empty path is not copied
        obtain rfl : path = [] := by simpa [Input.sets] using hsets
        exact fades_spares (.refl c)
      | cutPath path =>
        obtain rfl : path = [] := by simpa [Input.sets] using hsets
        exact fades_spares (.refl c)
      | paste destDir => exact absurd rfl (hpaste handle destDir)
      | _ => cases huses
    · exact fades_spares (UiAction.spares_run (Bool.eq_false_iff.mpr huses) handle c)

/-! ## §3. Pastes. -/

/-- If the request empties the clipboard, it is a move of `source`. -/
def Moves (source : QString) (pending : PendingFs) : Prop :=
  pending.clearClipboard = true →
    pending.kind = .mutate ∧ pending.mutation = .moveLike ∧ pending.path = source

/-- What a request to move or to copy does to the requests that wait. -/
theorem fsPending_trackMutation (c : AppController) (op : FsOp) (refused : QString)
    (pending : PendingFs) :
    (AppController.trackMutation (c.submitFs op) refused pending).fsPending =
      if c.desk.Refuses then c.fsPending
      else Function.update c.fsPending (c.desk.idAfter 1) (some pending) := by
  have hzero : (c.submitFs op).1 = 0 ↔ c.desk.Refuses := c.submit_eq_zero_iff _
  obtain ⟨_, _, hdesk, hid⟩ := c.submitFs_outcome op
  generalize c.submitFs op = submitted at hdesk hid hzero ⊢
  obtain ⟨id, d⟩ := submitted
  dsimp only at hdesk hid hzero
  have hsame : d.fsPending = c.fsPending := congrArg Desk.fsPending hdesk
  unfold AppController.trackMutation
  by_cases hrefuses : c.desk.Refuses
  · rw [if_pos hrefuses, if_pos (hzero.mpr hrefuses)]
    exact hsame
  · have hne : id ≠ 0 := mt hzero.mp hrefuses
    obtain ⟨_, heq, _⟩ := hid.resolve_left fun h => hne h.1
    rw [if_neg hrefuses, if_neg hne, AppController.trackFsRequest, if_neg hne, ← heq, ← hsame]

/-- A paste puts its request under the next id, or leaves the requests alone. -/
theorem fsPending_paste (c : AppController) (destDir : QString) :
    (¬ c.Pastes ∧ (c.paste destDir).fsPending = c.fsPending) ∨
      (c.Pastes ∧ ∃ pending, Moves c.clipboardPath pending ∧ (c.paste destDir).fsPending =
        Function.update c.fsPending (c.desk.idAfter 1) (some pending)) := by
  unfold AppController.paste
  by_cases hready : c.ready = true
  · rw [if_pos hready]
    by_cases hempty : c.clipboardPath = []
    · rw [if_pos hempty]
      exact .inl ⟨fun h => h.2.1 hempty, rfl⟩
    · rw [if_neg hempty]
      dsimp only
      -- a cut and a copy differ in the request alone
      by_cases hrefuses : c.desk.Refuses
      · refine .inl ⟨fun h => h.2.2 hrefuses, ?_⟩
        split <;> rw [fsPending_trackMutation, if_pos hrefuses]
      · refine .inr ⟨⟨hready, hempty, hrefuses⟩, ?_⟩
        split
        · exact ⟨_, fun _ => ⟨rfl, rfl, rfl⟩, by rw [fsPending_trackMutation, if_neg hrefuses]⟩
        · exact ⟨_, Bool.noConfusion, by rw [fsPending_trackMutation, if_neg hrefuses]⟩
  · rw [if_neg hready]
    exact .inl ⟨fun h => hready h.1, rfl⟩

/-! ## §4. The moves that wait. -/

/-- A request that would empty the clipboard is a move that was pasted from an entry there has
been; if that is the last one, it is still there or the clipboard is empty. -/
structure TracedMove (path : QString) (entries pastedAt : Nat) (pending : PendingFs) : Prop where
  kind : pending.kind = .mutate
  mutation : pending.mutation = .moveLike
  known : pastedAt ≤ entries
  own : pastedAt = entries → path = pending.path ∨ path = []

/-- Every move that waits is one of these. -/
def Traced (s : Clipped) : Prop :=
  ∀ id pending, s.controller.fsPending id = some pending → pending.clearClipboard = true →
    TracedMove s.controller.clipboardPath s.entries (s.pastedAt id) pending

variable {s t : Clipped}

/-- A move is traced to its entry also when the clipboard is emptied. -/
theorem TracedMove.faded {path path' : QString} {entries pastedAt : Nat} {pending : PendingFs}
    (h : TracedMove path entries pastedAt pending) (hpath : path' = path ∨ path' = []) :
    TracedMove path' entries pastedAt pending where
  kind := h.kind
  mutation := h.mutation
  known := h.known
  own := by
    intro hlast
    rcases hpath with rfl | rfl
    · exact h.own hlast
    · exact .inr rfl

/-- A new entry leaves all moves that wait behind. -/
theorem TracedMove.left {path path' : QString} {entries pastedAt : Nat} {pending : PendingFs}
    (h : TracedMove path entries pastedAt pending) :
    TracedMove path' (entries + 1) pastedAt pending where
  kind := h.kind
  mutation := h.mutation
  known := Nat.le_succ_of_le h.known
  own := by
    intro hlast
    have hknown := h.known
    omega

/-- What adds no moves keeps them traced. -/
theorem Traced.fades (h : s.Traced) {d : AppController} (h' : Fades s.controller d) :
    Traced { s with controller := d } :=
  fun id pending hpending hclear =>
    (h id pending (h'.clears id pending hpending hclear) hclear).faded h'.path

/-- An entry is put on the clipboard. -/
theorem Traced.set (h : s.Traced) {d : AppController}
    (hpending : d.fsPending = s.controller.fsPending) :
    Traced { s with controller := d, entries := s.entries + 1 } := by
  intro id pending hwaits hclear
  rw [show d.fsPending = s.controller.fsPending from hpending] at hwaits
  exact (h id pending hwaits hclear).left

/-- The move that a paste begins is traced to the clipboard's entry. -/
theorem Traced.paste (h : s.Traced) (handle : Nat) (destDir : QString) :
    (s.next (.user handle (.paste destDir))).Traced := by
  have hpath : (s.controller.paste destDir).clipboardPath = s.controller.clipboardPath :=
    congrArg Shelf.clipboardPath (s.controller.shelf_paste destDir)
  intro id pending hwaits hclear
  change (s.controller.paste destDir).fsPending id = some pending at hwaits
  show TracedMove (s.controller.paste destDir).clipboardPath s.entries
    ((if s.controller.Pastes then
        Function.update s.pastedAt (s.controller.desk.idAfter 1) s.entries
      else s.pastedAt) id) pending
  rw [hpath]
  obtain ⟨hnot, hsame⟩ | ⟨htakes, entry, hmoves, hupdate⟩ := fsPending_paste s.controller destDir
  · rw [hsame] at hwaits
    rw [if_neg hnot]
    exact h id pending hwaits hclear
  · rw [hupdate] at hwaits
    rw [if_pos htakes]
    by_cases hid : id = s.controller.desk.idAfter 1
    · -- the request of this paste
      rw [hid, Function.update_self, Option.some.injEq] at hwaits
      rw [hid, Function.update_self]
      obtain ⟨hkind, hmutation, hsource⟩ := hmoves (by rw [hwaits]; exact hclear)
      rw [hwaits] at hkind hmutation hsource
      exact ⟨hkind, hmutation, le_rfl, fun _ => .inl hsource.symm⟩
    · rw [Function.update_of_ne hid] at hwaits ⊢
      exact h id pending hwaits hclear

/-- **One input**: the moves that wait stay moves of their own entries. -/
theorem Traced.next (h : s.Traced) (input : Input) : (s.next input).Traced := by
  cases hsets : input.sets with
  | true =>
    cases input with
    | user handle action =>
      cases action with
      | copyPath path =>
        have hpath : path ≠ [] := by simpa [Input.sets] using hsets
        refine cast (congrArg Traced ?_) (h.set (d := s.controller.copyPath path) ?_)
        · rw [Clipped.next, hsets]
          rfl
        · rw [AppController.copyPath, if_neg hpath]
          rfl
      | cutPath path =>
        have hpath : path ≠ [] := by simpa [Input.sets] using hsets
        refine cast (congrArg Traced ?_) (h.set (d := s.controller.cutPath path) ?_)
        · rw [Clipped.next, hsets]
          rfl
        · rw [AppController.cutPath, if_neg hpath]
          rfl
      | _ => cases hsets
    | item item => cases hsets
    | driverStops => cases hsets
  | false =>
    by_cases hpaste : ∃ handle destDir, input = .user handle (.paste destDir)
    · obtain ⟨handle, destDir, rfl⟩ := hpaste
      exact h.paste handle destDir
    · have hne : ∀ handle destDir, input ≠ .user handle (.paste destDir) :=
        fun handle destDir heq => hpaste ⟨handle, destDir, heq⟩
      have hsame : s.pastedNext input = s.pastedAt := by
        unfold pastedNext
        split
        · next handle destDir => exact absurd rfl (hne handle destDir)
        · rfl
      have hnext : s.next input = { s with controller := s.controller.feed input } := by
        rw [Clipped.next, hsets, hsame]
        rfl
      rw [hnext]
      exact h.fades (fades_feed s.controller hsets hne)

/-- No move is under way at the start. -/
theorem traced_initial (servers : List ServerItem) (credentials : QString → Option (List UInt8)) :
    (initial servers credentials).Traced := nofun

/-! ## §5. What a result takes away. -/

/-- A result that changes the clipboard is the success of a request that empties it. -/
theorem clears_of_lost (c : AppController) (result : FsResult)
    (hlost : (c.ingestFileResult result).clipboardPath ≠ c.clipboardPath) :
    ∃ pending, c.fsPending result.requestId = some pending ∧ pending.clearClipboard = true ∧
      result.payload = .ok := by
  have hkeeps : ∀ {d : AppController}, AppController.SparesButTree
      { c with fsPending := Function.update c.fsPending result.requestId none } d →
      d.clipboardPath = c.clipboardPath := fun h => congrArg Shelf.clipboardPath h.shelf
  unfold AppController.ingestFileResult at hlost
  cases hpending : c.fsPending result.requestId with
  | none =>
    rw [hpending] at hlost
    exact absurd rfl hlost
  | some pending =>
    rw [hpending] at hlost
    dsimp only at hlost
    refine ⟨pending, rfl, ?_⟩
    split at hlost
    · exact absurd (hkeeps (AppController.spares_failFileRequest _ _ _ _)) hlost
    · cases hkind : pending.kind with
      | listing =>
        rw [hkind] at hlost
        exact absurd (hkeeps (AppController.spares_finishListing _ _ _)) hlost
      | editorOpen =>
        rw [hkind] at hlost
        exact absurd (hkeeps (AppController.idles_finishOpen _ _ _).spares.butTree) hlost
      | editorSave =>
        rw [hkind] at hlost
        exact absurd (hkeeps (AppController.spares_finishSave _ _ _)) hlost
      | mutate =>
        rw [hkind] at hlost
        by_cases hclears : result.payload = .ok ∧ pending.clearClipboard = true
        · exact ⟨hclears.2, hclears.1⟩
        · have hrest := AppController.spares_finishMutate
            { c with fsPending := Function.update c.fsPending result.requestId none } pending
            result.payload
          rw [if_neg hclears] at hrest
          exact absurd (hkeeps hrest) hlost

/-- The success of a request that empties the clipboard empties it. -/
theorem cleared_of_clears (c : AppController) (result : FsResult) {pending : PendingFs}
    (hpending : c.fsPending result.requestId = some pending) (hkind : pending.kind = .mutate)
    (hclears : pending.clearClipboard = true) (hok : result.payload = .ok) :
    (c.ingestFileResult result).clipboardPath = [] := by
  have hrest := AppController.spares_finishMutate
    { c with fsPending := Function.update c.fsPending result.requestId none } pending result.payload
  rw [if_pos ⟨hok, hclears⟩] at hrest
  unfold AppController.ingestFileResult
  rw [hpending]
  dsimp only
  rw [hok] at hrest ⊢
  dsimp only
  rw [hkind]
  exact congrArg Shelf.clipboardPath hrest.shelf

/-- **One result**: it takes away its own entry only, exactly if the condition holds. -/
theorem Traced.clearsItsOwn_iff (h : s.Traced) (input : Input) :
    s.ClearsItsOwn input ↔ s.MovesSettle input := by
  constructor
  · intro hown result pending hinput hpending hclear hok
    by_cases hempty : s.controller.clipboardPath = []
    · exact .inl hempty
    · right
      subst hinput
      have hmove := h result.requestId pending hpending hclear
      have hcleared := cleared_of_clears s.controller result hpending hmove.kind hclear hok
      obtain ⟨_, _, _, _, _, _, hlast⟩ := hown result rfl hempty (by
        show (s.controller.ingestFileResult result).clipboardPath ≠ _
        rw [hcleared]
        exact Ne.symm hempty)
      exact hlast
  · intro hsettle result hinput hnonempty hlost
    subst hinput
    obtain ⟨pending, hpending, hclear, hok⟩ := clears_of_lost s.controller result hlost
    have hmove := h result.requestId pending hpending hclear
    -- nothing has been put there since, and it is not empty
    have hlast := (hsettle result pending rfl hpending hclear hok).resolve_left hnonempty
    refine ⟨pending, hpending, hok, hmove.kind, hmove.mutation, ?_, hlast⟩
    exact ((hmove.own hlast).resolve_right hnonempty).symm

/-- A path is cut and pasted, and while the move is under way another one is copied. -/
def copiedMeanwhile : List Input :=
  [.user 0 (.connectToServer 0 none), .item (.event (.stateChanged .connected)),
    .user 0 (.cutPath (lit "/h/a")), .user 0 (.paste (lit "/h/d")),
    .user 0 (.copyPath (lit "/h/b"))]

/-- The move succeeds. -/
def moved : Input := .item (.file { requestId := 2, payload := .ok })

/-- Two saved servers, and nothing in the clipboard. -/
def twoServersClipped : Clipped := initial twoServers.controller.servers fun _ => none

/-- The copied path is gone. -/
theorem copied_while_moving :
    ∃ s, exec step twoServersClipped copiedMeanwhile = some s ∧
      s.controller.clipboardPath = lit "/h/b" ∧ (s.next moved).controller.clipboardPath = [] ∧
      ¬ Along step ClearsItsOwn twoServersClipped (copiedMeanwhile ++ [moved]) := by
  refine ⟨_, rfl, rfl, rfl, fun h => ?_⟩
  obtain ⟨hown, _⟩ := along_cons.mp (h.suffix rfl)
  obtain ⟨_, _, _, _, _, _, hlast⟩ := hown _ rfl (by decide) (by decide)
  -- it was pasted from the first entry, and there are two
  exact absurd hlast (by decide)

/-- **Whose entry a finished move takes away.**  In a run every file result that takes an entry off
the clipboard is the success of a move of that very entry, pasted when it was there, exactly if at
every success of a pasted cut the clipboard is empty or nothing has been put on it since that
paste. -/
theorem clears_its_own_iff (servers : List ServerItem)
    (credentials : QString → Option (List UInt8)) (inputs : List Input) :
    Along step ClearsItsOwn (initial servers credentials) inputs ↔
      Along step MovesSettle (initial servers credentials) inputs := by
  refine along_congr (I := Traced) ?_ (fun s input h => h.clearsItsOwn_iff input)
    (traced_initial servers credentials)
  intro s input t h hstep
  rw [step, Option.some.injEq] at hstep
  exact hstep ▸ h.next input

end Clipped

end ResearchSSH.App
