/-
  ResearchSSH.App.PackageBusy — the busy flag of the package pane, against the commands under way.

  The flag is set before a package command is submitted, taken back where the submission fails,
  and cleared when the result comes, unless the result asks for the list of packages in the same
  breath.  While it is set no other package command is submitted, so at most one is under way.

  The commands are kept under the ids of their requests.  A resource snapshot is submitted while the
  pane is busy: it must not be given the id of the package command that still waits, which needs the
  counter of the session to go once around all 64 bits.

  Main results:
    * `PackagesExact.feed`        — every other input keeps flag and commands together.
    * `packages_exact_iff`        — the flag is exact as long as no snapshot does that.
-/

import ResearchSSH.App.ControllerShelf

namespace ResearchSSH.App

open ResearchSSH.Core ResearchSSH.Library

/-! ## §1. The property. -/

/-- A package command waits under this id. -/
def PackageAt (execPending : UInt64 → Option PendingExec) (id : UInt64) : Prop :=
  ∃ entry, execPending id = some entry ∧ entry.kind ≠ .resourceSnapshot

namespace AppController

/-- The pane is busy exactly while a package command is under way, and there is only one. -/
structure PackagesExact (c : AppController) : Prop where
  busy : c.packages.busy = true ↔ ∃ id, PackageAt c.execPending id
  single : ∀ id id', PackageAt c.execPending id → PackageAt c.execPending id' → id = id'

/-- A resource snapshot that is asked for and not refused is not given the id of a package command
that still waits. -/
def SnapshotFresh (c : AppController) (input : Input) : Prop :=
  ∀ handle, input = .user handle .refreshResourceSnapshot → c.ready = true →
    c.resources.busy = false → ¬ c.desk.Refuses → ¬ PackageAt c.execPending (c.desk.idAfter 1)

variable {c d : AppController}

theorem PackagesExact.congr (h : c.PackagesExact) (hpending : d.execPending = c.execPending)
    (hbusy : d.packages.busy = c.packages.busy) : d.PackagesExact := by
  refine ⟨?_, ?_⟩
  · rw [hbusy, hpending]
    exact h.busy
  · rw [hpending]
    exact h.single

/-- What spares the commands keeps it. -/
theorem PackagesExact.spares (h : c.PackagesExact) (h' : Spares c d) : d.PackagesExact :=
  h.congr (congrArg Shelf.execPending h'.shelf) (congrArg Shelf.busy h'.shelf)

/-- The tree has no part in it. -/
theorem PackagesExact.butTree (h : c.PackagesExact) (h' : SparesButTree c d) : d.PackagesExact :=
  h.congr (congrArg Shelf.execPending h'.shelf) (congrArg Shelf.busy h'.shelf)

/-- Nothing is under way, and the pane is not busy. -/
theorem PackagesExact.of_idle (hnone : ∀ id, ¬ PackageAt c.execPending id)
    (hbusy : c.packages.busy = false) : c.PackagesExact := by
  refine ⟨⟨fun htrue => ?_, fun ⟨id, hid⟩ => absurd hid (hnone id)⟩,
    fun id _ hid _ => absurd hid (hnone id)⟩
  rw [hbusy] at htrue
  cases htrue

/-- A pane that is not busy waits for no package command. -/
theorem PackagesExact.none_of_idle (h : c.PackagesExact) (hidle : ¬ c.packages.busy = true)
    (id : UInt64) : ¬ PackageAt c.execPending id :=
  fun hid => hidle (h.busy.mpr ⟨id, hid⟩)

/-- An empty table has no package command. -/
theorem not_packageAt_none (id : UInt64) : ¬ PackageAt (fun _ => none) id := by
  intro ⟨_, hnone, _⟩
  cases hnone

/-- Nothing is waited for, and the pane is not busy. -/
theorem PackagesExact.cleared (hpending : d.execPending = fun _ => none)
    (hbusy : d.packages.busy = false) : d.PackagesExact := by
  refine .of_idle ?_ hbusy
  rw [hpending]
  exact not_packageAt_none

/-- Also when the session ends. -/
theorem PackagesExact.settled (h : c.PackagesExact) (h' : c.Settled d) : d.PackagesExact := by
  rcases h' with hidles | htorn
  · exact h.spares hidles.spares
  · exact .cleared (congrArg Shelf.execPending htorn.shelf) (congrArg Shelf.busy htorn.shelf)

/-! ## §2. Submitting. -/

/-- A command is refused and changes nothing here, or waits under the next id. -/
theorem submitExec_outcome (c : AppController) (command : QString) (timeoutMs : UInt64)
    (kind : PendingExecKind) (label : QString) :
    (c.submitExec command timeoutMs kind label).2.packages = c.packages ∧
      (((c.submitExec command timeoutMs kind label).1 = 0 ∧
          (c.submitExec command timeoutMs kind label).2.execPending = c.execPending) ∨
        ((c.submitExec command timeoutMs kind label).1 ≠ 0 ∧ ¬ c.desk.Refuses ∧
          (c.submitExec command timeoutMs kind label).2.execPending =
            Function.update c.execPending (c.desk.idAfter 1)
              (some { kind := kind, label := label }))) := by
  have hkept : ∀ request, (c.submit request).2.packages = c.packages
      ∧ (c.submit request).2.execPending = c.execPending := by
    intro request
    unfold submit
    split <;> exact ⟨rfl, rfl⟩
  obtain ⟨k, _, _, hid⟩ :=
    c.submit_outcome fun id => .exec id (String.ofList (toCore command)) timeoutMs
  have hzero := c.submit_eq_zero_iff fun id => .exec id (String.ofList (toCore command)) timeoutMs
  obtain ⟨hpackages, hpending⟩ := hkept fun id => .exec id (String.ofList (toCore command)) timeoutMs
  unfold submitExec
  split
  · generalize c.submit (fun id => .exec id (String.ofList (toCore command)) timeoutMs)
      = submitted at hid hzero hpackages hpending ⊢
    obtain ⟨id, c'⟩ := submitted
    dsimp only at hid hzero hpackages hpending ⊢
    split
    · exact ⟨hpackages, .inl ⟨rfl, hpending⟩⟩
    · next hne =>
      obtain ⟨_, hid, _⟩ := hid.resolve_left fun h => hne h.1
      refine ⟨hpackages, .inr ⟨hne, mt hzero.mpr hne, ?_⟩⟩
      show Function.update c'.execPending id _ = _
      rw [hpending, hid]
  · exact ⟨rfl, .inl ⟨rfl, rfl⟩⟩

/-- What waits under an id once a command has been put under `next`. -/
theorem packageAt_update {execPending : UInt64 → Option PendingExec} {next id : UInt64}
    {entry : PendingExec} :
    PackageAt (Function.update execPending next (some entry)) id ↔
      (id = next ∧ entry.kind ≠ .resourceSnapshot) ∨ (id ≠ next ∧ PackageAt execPending id) := by
  unfold PackageAt
  by_cases hid : id = next
  · simp [hid]
  · simp [hid]

/-- A package command leaves the table with its entry only. -/
theorem packageAt_remove {execPending : UInt64 → Option PendingExec} {gone id : UInt64} :
    PackageAt (Function.update execPending gone none) id ↔
      id ≠ gone ∧ PackageAt execPending id := by
  unfold PackageAt
  by_cases hid : id = gone
  · simp [hid]
  · simp [hid]

/-- **A package command is submitted** by a pane that shows that it runs and has no other. -/
theorem exact_submitPackage (hnone : ∀ id, ¬ PackageAt c.execPending id)
    (hbusy : c.packages.busy = true) (command : QString) (timeoutMs : UInt64)
    {kind : PendingExecKind} (hkind : kind ≠ .resourceSnapshot) (label failureText : QString) :
    (c.submitPackage command timeoutMs kind label failureText).PackagesExact := by
  obtain ⟨hpackages, houtcome⟩ := c.submitExec_outcome command timeoutMs kind label
  unfold submitPackage
  generalize c.submitExec command timeoutMs kind label = submitted at hpackages houtcome ⊢
  obtain ⟨id, c'⟩ := submitted
  dsimp only at hpackages houtcome ⊢
  rcases houtcome with ⟨hzero, hpending⟩ | ⟨hne, _, hpending⟩
  · -- refused: the pane is not busy after all
    rw [if_pos hzero]
    refine .of_idle ?_ rfl
    show ∀ id, ¬ PackageAt c'.execPending id
    rw [hpending]
    exact hnone
  · rw [if_neg hne]
    have hat : ∀ id, PackageAt c'.execPending id ↔ id = c.desk.idAfter 1 := by
      intro id
      rw [hpending, packageAt_update]
      constructor
      · rintro (⟨hid, _⟩ | ⟨_, hold⟩)
        · exact hid
        · exact absurd hold (hnone id)
      · exact fun hid => .inl ⟨hid, hkind⟩
    refine ⟨⟨fun _ => ⟨_, (hat _).mpr rfl⟩, fun _ => ?_⟩, fun id id' hid hid' => ?_⟩
    · rw [hpackages]
      exact hbusy
    · rw [(hat id).mp hid, (hat id').mp hid']

/-! ## §3. Actions. -/

/-- The probe makes the pane busy. -/
theorem PackagesExact.refreshEnvironment (h : c.PackagesExact) :
    c.refreshEnvironment.PackagesExact := by
  unfold AppController.refreshEnvironment
  split
  · split
    · exact h
    · next hidle =>
      refine exact_submitPackage ?_ rfl _ _ (by decide) _ _
      exact h.none_of_idle hidle
  · exact h.congr rfl rfl

/-- The search makes the pane busy. -/
theorem PackagesExact.searchPackages (h : c.PackagesExact) (query : QString) :
    (c.searchPackages query).PackagesExact := by
  unfold AppController.searchPackages
  dsimp only
  split
  · exact h
  · split
    · split
      · exact h
      · next hidle =>
      refine exact_submitPackage ?_ rfl _ _ (by decide) _ _
      exact h.none_of_idle hidle
    · exact h.congr rfl rfl

/-- A package command makes the pane busy. -/
theorem PackagesExact.mutatePackage (h : c.PackagesExact) {m : PackageMutation}
    (hkind : m.kind ≠ .resourceSnapshot) (manager name : QString) :
    (c.mutatePackage m manager name).PackagesExact := by
  unfold AppController.mutatePackage
  dsimp only
  split
  · exact h
  · split
    · split
      · exact h
      · next hidle =>
        split
        · split
          · exact h.congr rfl rfl
          · refine exact_submitPackage ?_ rfl _ _ hkind _ _
            exact h.none_of_idle hidle
        · exact h.congr rfl rfl
    · exact h.congr rfl rfl

/-- A resource snapshot waits beside a package command, unless it takes its id. -/
theorem PackagesExact.refreshResourceSnapshot (h : c.PackagesExact)
    (hfresh : c.ready = true → c.resources.busy = false → ¬ c.desk.Refuses →
      ¬ PackageAt c.execPending (c.desk.idAfter 1)) :
    c.refreshResourceSnapshot.PackagesExact := by
  unfold AppController.refreshResourceSnapshot
  split
  · next hready =>
    split
    · exact h
    · next hidle =>
      obtain ⟨hpackages, houtcome⟩ := submitExec_outcome
        { c with resources := { busy := true, capture := [], markerTail := [] } }
        resourceSnapshotCommand 8000 .resourceSnapshot (lit "资源快照")
      generalize submitExec { c with resources := { busy := true, capture := [], markerTail := [] } }
        resourceSnapshotCommand 8000 .resourceSnapshot (lit "资源快照")
          = submitted at hpackages houtcome ⊢
      obtain ⟨id, c'⟩ := submitted
      dsimp only at hpackages houtcome ⊢
      have hexact : c'.PackagesExact := by
        have hat : ∀ id, PackageAt c'.execPending id ↔ PackageAt c.execPending id := by
          intro id
          rcases houtcome with ⟨_, hpending⟩ | ⟨_, htaken, hpending⟩
          · rw [hpending]
          · rw [hpending, packageAt_update]
            constructor
            · rintro (⟨_, hkind⟩ | ⟨_, hold⟩)
              · exact absurd rfl hkind
              · exact hold
            · intro hold
              refine .inr ⟨?_, hold⟩
              rintro rfl
              exact hfresh hready (by simpa using hidle) htaken hold
        refine ⟨?_, fun id id' hid hid' => h.single id id' ((hat id).mp hid) ((hat id').mp hid')⟩
        simp only [hat, hpackages]
        exact h.busy
      split
      · exact hexact.congr rfl rfl
      · exact hexact
  · exact h.congr rfl rfl

/-- **A user action.** -/
theorem PackagesExact.run (h : c.PackagesExact) {handle : Nat} {action : UiAction}
    (hfresh : c.SnapshotFresh (.user handle action)) : (action.run handle c).PackagesExact := by
  by_cases hshelf : action.usesShelf = false
  · exact h.spares (UiAction.spares_run hshelf handle c)
  · cases action with
    | connectToServer index refused => exact h.settled (c.settled_connectToServer _ _)
    | connectToHost host port username password name keyPath keyPassphrase refused =>
      exact h.settled (c.settled_connectToHost _ _ _ _ _ _ _ _)
    | editServer index host port username password name keyPath keyPassphrase =>
      exact h.settled (c.settled_editServer _ _ _ _ _ _ _ _)
    | deleteServer index => exact h.settled (c.settled_deleteServer index)
    | refreshResourceSnapshot => exact h.refreshResourceSnapshot (hfresh handle rfl)
    | refreshEnvironment => exact h.refreshEnvironment
    | searchPackages query => exact h.searchPackages query
    | installPackage manager name => exact h.mutatePackage (by decide) manager name
    | updatePackage manager name => exact h.mutatePackage (by decide) manager name
    | removePackage manager name => exact h.mutatePackage (by decide) manager name
    | reloadFiles => exact h.butTree c.spares_reloadFiles
    | fetchMore node => exact h.butTree (c.spares_fetchMore node)
    | copyPath path =>
      show (c.copyPath path).PackagesExact
      unfold copyPath
      split
      · exact h
      · exact h.congr rfl rfl
    | cutPath path =>
      show (c.cutPath path).PackagesExact
      unfold cutPath
      split
      · exact h
      · exact h.congr rfl rfl
    | paste destDir =>
      have hkept := c.shelf_paste destDir
      exact h.congr (congrArg Shelf.execPending hkept) (congrArg Shelf.busy hkept)
    | _ => exact absurd rfl hshelf

/-! ## §4. Results and events. -/

/-- After a package command the pane is busy if the list is asked for. -/
theorem exact_finishPackageMutation (hnone : ∀ id, ¬ PackageAt c.execPending id)
    (hbusy : c.packages.busy = false) (result : ExecResult)
    (successText failureText refreshText : QString) :
    (c.finishPackageMutation result successText failureText refreshText).PackagesExact := by
  unfold finishPackageMutation
  dsimp only
  split
  · exact .of_idle hnone hbusy
  · refine exact_submitPackage ?_ rfl _ _ (by decide) _ _
    exact hnone

/-- A snapshot that is answered was no package command. -/
theorem PackagesExact.snapshotAnswered (h : c.PackagesExact) {id : UInt64} {pending : PendingExec}
    (hpending : c.execPending id = some pending) (hkind : pending.kind = .resourceSnapshot) :
    PackagesExact { c with execPending := Function.update c.execPending id none } := by
  have hat : ∀ other, PackageAt (Function.update c.execPending id none) other
      ↔ PackageAt c.execPending other := by
    intro other
    rw [packageAt_remove]
    constructor
    · exact fun hother => hother.2
    · rintro ⟨entry, hentry, hne⟩
      refine ⟨?_, entry, hentry, hne⟩
      rintro rfl
      rw [hpending, Option.some.injEq] at hentry
      exact hne (hentry ▸ hkind)
  refine ⟨?_, fun id id' hid hid' => h.single id id' ((hat id).mp hid) ((hat id').mp hid')⟩
  simp only [hat]
  exact h.busy

/-- A package command that is answered was the only one. -/
theorem PackagesExact.packageAnswered (h : c.PackagesExact) {id : UInt64}
    (hwaits : PackageAt c.execPending id) (other : UInt64) :
    ¬ PackageAt (Function.update c.execPending id none) other := by
  intro hother
  rw [packageAt_remove] at hother
  exact hother.1 (h.single _ _ hother.2 hwaits)

/-- **The result of a command.**  That of a package command leaves none behind, or one that
follows from it. -/
theorem PackagesExact.ingestExecResult (h : c.PackagesExact) (result : ExecResult) :
    (c.ingestExecResult result).PackagesExact := by
  unfold AppController.ingestExecResult
  cases hpending : c.execPending result.requestId with
  | none => exact h
  | some pending =>
    dsimp only
    by_cases hkind : pending.kind = .resourceSnapshot
    · have hkept := h.snapshotAnswered hpending hkind
      rw [hkind]
      dsimp only
      split
      · exact hkept.congr rfl rfl
      · exact hkept.congr rfl rfl
    · have hnone := h.packageAnswered ⟨pending, hpending, hkind⟩
      cases hcase : pending.kind with
      | resourceSnapshot => exact absurd hcase hkind
      | environmentProbe =>
        dsimp only
        split
        · exact .of_idle hnone rfl
        · exact exact_submitPackage hnone rfl _ _ (by decide) _ _
      | packageList =>
        dsimp only
        split
        · exact .of_idle hnone rfl
        · exact .of_idle hnone rfl
      | packageSearch =>
        dsimp only
        split
        · exact .of_idle hnone rfl
        · exact .of_idle hnone rfl
      | packageInstall => exact exact_finishPackageMutation hnone rfl _ _ _ _
      | packageUpdate => exact exact_finishPackageMutation hnone rfl _ _ _ _
      | packageRemove => exact exact_finishPackageMutation hnone rfl _ _ _ _

/-- An event leaves the packages, or ends the connection. -/
theorem PackagesExact.ingestRustEvent (h : c.PackagesExact) (ev : RustEvent) :
    (c.ingestRustEvent ev).PackagesExact := by
  by_cases hstate : ∃ state, ev = .stateChanged state
  · obtain ⟨state, rfl⟩ := hstate
    obtain ⟨d, hidles, _, ⟨_, heq⟩ | heq | heq⟩ := c.setConnectionState_cases state
    · show (c.setConnectionState state).PackagesExact
      rw [heq]
      exact (h.spares hidles.spares).butTree d.spares_reloadFiles
    · show (c.setConnectionState state).PackagesExact
      rw [heq]
      exact .cleared rfl rfl
    · show (c.setConnectionState state).PackagesExact
      rw [heq]
      exact h.spares hidles.spares
  · exact h.spares (c.idles_ingestRustEvent (not_exists.mp hstate)).spares

/-- A file result has no part in it. -/
theorem PackagesExact.ingestFileResult (h : c.PackagesExact) (result : FsResult) :
    (c.ingestFileResult result).PackagesExact := by
  unfold AppController.ingestFileResult
  split
  · exact h
  next pending _ =>
    dsimp only
    have htaken : PackagesExact
        { c with fsPending := Function.update c.fsPending result.requestId none } := h.congr rfl rfl
    split
    · exact htaken.butTree (spares_failFileRequest _ _ _ _)
    · split
      · exact htaken.butTree (spares_finishListing _ _ _)
      · exact htaken.spares (idles_finishOpen _ _ _).spares
      · exact htaken.butTree (spares_finishSave _ _ _)
      · refine PackagesExact.butTree ?_ (spares_finishMutate _ _ _)
        split
        · exact htaken.congr rfl rfl
        · exact htaken

/-- **One input.** -/
theorem PackagesExact.feed (h : c.PackagesExact) {input : Input} (hfresh : c.SnapshotFresh input) :
    (c.feed input).PackagesExact := by
  cases input with
  | user handle action => exact h.run hfresh
  | item item =>
    cases item with
    | event ev => exact h.ingestRustEvent ev
    | file result => exact h.ingestFileResult result
    | exec result => exact h.ingestExecResult result
  | driverStops => exact h.congr rfl rfl

/-- The pane is not busy at the start. -/
theorem packagesExact_initial (servers : List ServerItem)
    (credentials : QString → Option (List UInt8)) :
    (AppController.initial servers credentials).PackagesExact := .cleared rfl rfl

/-! ## §5. Runs. -/

/-- A session that takes requests gives an id. -/
theorem submitExec_ne_zero (hready : c.ready = true) (htaken : ¬ c.desk.Refuses)
    (command : QString) (timeoutMs : UInt64) (kind : PendingExecKind) (label : QString) :
    (c.submitExec command timeoutMs kind label).1 ≠ 0 := by
  have hsubmit := c.submit_eq_zero_iff fun id =>
    .exec id (String.ofList (toCore command)) timeoutMs
  unfold submitExec
  rw [if_pos hready]
  dsimp only
  split
  · next hzero => exact absurd (hsubmit.mp hzero) htaken
  · next hne => exact hne

/-- A snapshot that is submitted puts its entry under the next id, whatever waits there. -/
theorem refreshResourceSnapshot_takes (hready : c.ready = true) (hidle : c.resources.busy = false)
    (htaken : ¬ c.desk.Refuses) :
    c.refreshResourceSnapshot.packages = c.packages ∧
      c.refreshResourceSnapshot.execPending = Function.update c.execPending (c.desk.idAfter 1)
        (some { kind := .resourceSnapshot, label := lit "资源快照" }) := by
  obtain ⟨hpackages, houtcome⟩ := submitExec_outcome
    { c with resources := { busy := true, capture := [], markerTail := [] } }
    resourceSnapshotCommand 8000 .resourceSnapshot (lit "资源快照")
  have hne := submitExec_ne_zero
    (c := { c with resources := { busy := true, capture := [], markerTail := [] } })
    hready htaken resourceSnapshotCommand 8000 .resourceSnapshot (lit "资源快照")
  unfold refreshResourceSnapshot
  rw [if_pos hready, if_neg (by rw [hidle]; decide)]
  generalize submitExec { c with resources := { busy := true, capture := [], markerTail := [] } }
    resourceSnapshotCommand 8000 .resourceSnapshot (lit "资源快照")
      = submitted at hpackages houtcome hne ⊢
  obtain ⟨id, c'⟩ := submitted
  dsimp only at hpackages houtcome hne ⊢
  rw [if_neg hne]
  obtain ⟨hzero, _⟩ | ⟨_, _, hpending⟩ := houtcome
  · exact absurd hzero hne
  · exact ⟨hpackages, hpending⟩

/-- The pane is busy, and the command it was busy with has lost its place. -/
theorem PackagesExact.lost (h : c.PackagesExact)
    (hwaits : PackageAt c.execPending (c.desk.idAfter 1))
    (hpackages : d.packages = c.packages)
    (hpending : d.execPending = Function.update c.execPending (c.desk.idAfter 1)
      (some { kind := .resourceSnapshot, label := lit "资源快照" })) :
    d.packages.busy = true ∧ ∀ id, ¬ PackageAt d.execPending id := by
  refine ⟨?_, fun id hid => ?_⟩
  · rw [hpackages]
    exact h.busy.mpr ⟨_, hwaits⟩
  · rw [hpending, packageAt_update] at hid
    obtain ⟨_, hkind⟩ | ⟨hother, hold⟩ := hid
    · exact hkind rfl
    · exact hother (h.single _ _ hold hwaits)

/-- A pane that is busy for nothing is not exact. -/
theorem not_exact_of_stuck (hbusy : c.packages.busy = true)
    (hnone : ∀ id, ¬ PackageAt c.execPending id) : ¬ c.PackagesExact := by
  intro h
  obtain ⟨id, hid⟩ := h.busy.mp hbusy
  exact hnone id hid

/-- **When the busy flag is exact.**  Through a whole run the pane is busy exactly while one
package command waits for its result, exactly if no resource snapshot is submitted under the id of
a package command that still waits. -/
theorem packages_exact_iff (servers : List ServerItem) (credentials : QString → Option (List UInt8))
    (inputs : List Input) :
    Throughout step PackagesExact (AppController.initial servers credentials) inputs ↔
      Along step SnapshotFresh (AppController.initial servers credentials) inputs := by
  refine throughout_iff_along (I := PackagesExact) (fun _ h => h) ?_ ?_
    (packagesExact_initial servers credentials)
  · intro c input d h hfresh hstep
    rw [step_eq_some] at hstep
    exact hstep ▸ h.feed hfresh
  · intro c input h hnot
    simp only [SnapshotFresh, Classical.not_forall, not_not] at hnot
    obtain ⟨handle, rfl, hready, hidle, htaken, hwaits⟩ := hnot
    obtain ⟨hpackages, htook⟩ := refreshResourceSnapshot_takes hready hidle htaken
    obtain ⟨hbusy, hnone⟩ := h.lost hwaits hpackages htook
    exact ⟨_, rfl, not_exact_of_stuck hbusy hnone⟩

end AppController

end ResearchSSH.App
