/-
  ResearchSSH.App.DirectoryLoading — a directory that is loading has its listing under way.

  The tree sets the flag of a node and asks for its path; the controller keeps the path with the
  request and hands it back when the result comes or when the request is not taken.  Between the
  two stands nothing but the table of waiting requests: an entry leaves it with its own result or
  together with the whole tree, unless another request is put in its place.  That needs a listing
  that waits while the counter of the session goes once around all 64 bits.

  Main results:
    * `awaited_expandDir`      — asking for a path, or failing to.
    * `Awaited.feed`           — one input.
    * `directories_not_stuck`  — whole runs in which the listings that wait keep their ids.
-/

import ResearchSSH.App.ControllerShelf
import ResearchSSH.App.ControllerTraffic
import ResearchSSH.App.TreeLoading

namespace ResearchSSH.App

open ResearchSSH.Core ResearchSSH.Library

namespace AppController

/-! ## §1. The property. -/

/-- A listing of the path is under way. -/
def Lists (c : AppController) (path : QString) : Prop :=
  ∃ id pending, c.fsPending id = some pending ∧ pending.kind = .listing ∧ pending.path = path

/-- No directory is stuck. -/
structure NoneStuck (c : AppController) : Prop where
  awaited : ∀ n ∈ c.fileTree.root.nodes, n.info.loading = true → c.Lists n.info.path
  fetchable : ∀ n ∈ c.fileTree.root.nodes, n.info.isDir = true → n.info.loaded = false →
    ¬ c.Lists n.info.path → RemoteFileTreeModel.canFetchMore n = true

/-- The requests sent from `c` to `d` have ids of their own, none of them that of a listing that
still waits. -/
structure SparesListings (c d : AppController) : Prop where
  distinct : (givenOut c d).Nodup
  fresh : ∀ id ∈ givenOut c d, ∀ pending, c.fsPending id = some pending → pending.kind ≠ .listing

/-- The requests that the input makes spare the listings that still wait. -/
def ListingsFresh (c : AppController) (input : Input) : Prop := SparesListings c (c.feed input)

instance ListingsFresh.decidable (c : AppController) (input : Input) :
    Decidable (ListingsFresh c input) :=
  -- over the list, not over the finitely many ids there are
  have : Decidable (∀ id ∈ givenOut c (c.feed input),
      (c.fsPending id).map PendingFs.kind ≠ some .listing) := List.decidableBAll _ _
  decidable_of_iff ((givenOut c (c.feed input)).Nodup ∧ ∀ id ∈ givenOut c (c.feed input),
      (c.fsPending id).map PendingFs.kind ≠ some .listing) <| by
    constructor
    · rintro ⟨hdistinct, hfresh⟩
      refine ⟨hdistinct, fun id hid pending hpending hkind => hfresh id hid ?_⟩
      rw [hpending, Option.map_some, hkind]
    · rintro ⟨hdistinct, hfresh⟩
      refine ⟨hdistinct, fun id hid hkind => ?_⟩
      obtain ⟨pending, hpending, hlisting⟩ := Option.map_eq_some_iff.mp hkind
      exact hfresh id hid pending hpending hlisting

variable {c d e : AppController}

/-- Tree and index belong together, and every node that is loading is listed, but for the nodes at
`path`. -/
structure AwaitedBut (path : Option QString) (c : AppController) : Prop where
  keyed : c.fileTree.Keyed
  awaited : ∀ r, c.fileTree.Loading r → some r.path = path ∨ c.Lists r.path

/-- Tree and index belong together, and every node that is loading is listed. -/
abbrev Awaited (c : AppController) : Prop := AwaitedBut none c

/-- A directory that is loading is waited for. -/
theorem Awaited.lists (h : c.Awaited) {r : Ref} (hr : c.fileTree.Loading r) : c.Lists r.path :=
  (h.awaited r hr).resolve_left nofun

/-- What is waited for is not stuck. -/
theorem Awaited.noneStuck (h : c.Awaited) : c.NoneStuck := by
  have hawaited : ∀ n ∈ c.fileTree.root.nodes, n.info.loading = true → c.Lists n.info.path :=
    fun n hn hloading => h.lists ⟨n, hn, hloading, rfl⟩
  refine ⟨hawaited, fun n hn hdir hloaded hnone => ?_⟩
  have hidle : n.info.loading = false := by
    rw [Bool.eq_false_iff]
    exact fun hloading => hnone (hawaited n hn hloading)
  rw [RemoteFileTreeModel.canFetchMore, hdir, hloaded, hidle]
  rfl

/-- The listings that wait go on waiting. -/
def KeepsListings (c d : AppController) : Prop :=
  ∀ id pending, c.fsPending id = some pending → pending.kind = .listing →
    d.fsPending id = some pending

/-- A directory that is waited for is so still. -/
theorem KeepsListings.lists (h : KeepsListings c d) {path : QString} (hlists : c.Lists path) :
    d.Lists path := by
  obtain ⟨id, pending, hpending, hkind, hpath⟩ := hlists
  exact ⟨id, pending, h id pending hpending hkind, hkind, hpath⟩

/-- The tree stays, and no listing is dropped. -/
theorem AwaitedBut.kept {path : Option QString} (h : AwaitedBut path c)
    (htree : d.fileTree = c.fileTree) (hkeeps : KeepsListings c d) : AwaitedBut path d where
  keyed := htree ▸ h.keyed
  awaited := by
    intro r hr
    rw [htree] at hr
    exact (h.awaited r hr).imp_right hkeeps.lists

/-- What touches neither tree nor table keeps it. -/
theorem AwaitedBut.idles {path : Option QString} (h : AwaitedBut path c) (h' : Idles c d) :
    AwaitedBut path d :=
  h.kept h'.spares.fileTree (fun id pending hpending _ => by rw [h'.fsPending]; exact hpending)

/-- Nothing is loading in a tree that has been cleared. -/
theorem Awaited.cleared (h : c.fileTree.Keyed) (htree : d.fileTree = c.fileTree.clearTree) :
    d.Awaited where
  keyed := by
    rw [htree]
    exact (RemoteFileTreeModel.linked_clearTree [] h).keyed
  awaited := by
    intro r hr
    rw [htree] at hr
    exact absurd hr RemoteFileTreeModel.not_loading_clearTree

/-- The nodes at `path` are not loading any more. -/
theorem AwaitedBut.ended {path : QString} (h : AwaitedBut (some path) c)
    (hkeyed : d.fileTree.Keyed)
    (hless : ∀ r, d.fileTree.Loading r → c.fileTree.Loading r ∧ r.path ≠ path)
    (hpending : d.fsPending = c.fsPending) : d.Awaited where
  keyed := hkeyed
  awaited := by
    intro r hr
    obtain ⟨hold, hne⟩ := hless r hr
    obtain heq | ⟨id, pending, hlists⟩ := h.awaited r hold
    · exact absurd (Option.some.inj heq) hne
    · exact .inr ⟨id, pending, hpending ▸ hlists⟩

/-- The directory that was the exception loads no longer. -/
theorem AwaitedBut.failed {path : QString} (h : AwaitedBut (some path) c)
    (htree : d.fileTree = c.fileTree.markLoadFailed path) (hpending : d.fsPending = c.fsPending) :
    d.Awaited := by
  refine h.ended ?_ (fun r hr => ?_) hpending
  · rw [htree]
    exact h.keyed.congr (RemoteFileTreeModel.sameRows_markLoadFailed path c.fileTree)
  · rw [htree] at hr
    exact RemoteFileTreeModel.loading_markLoadFailed h.keyed hr

/-- The directory that was the exception is loaded. -/
theorem AwaitedBut.listed {path : QString} {entries : List FsEntry} (h : AwaitedBut (some path) c)
    (htree : d.fileTree = c.fileTree.applyListing path entries)
    (hpending : d.fsPending = c.fsPending) : d.Awaited := by
  obtain ⟨hkeyed, hless⟩ := h.keyed.applyListing path entries
  exact h.ended (htree ▸ hkeyed) (htree ▸ hless) hpending

/-- Also when the session ends: the tree is empty then. -/
theorem Awaited.settled (h : c.Awaited) (h' : c.Settled d) : d.Awaited := by
  rcases h' with hidles | htorn
  · exact h.idles hidles
  · exact .cleared h.keyed (congrArg Shelf.fileTree htorn.shelf)

/-! ## §2. Requests. -/

/-- Before a request is taken away, the listings that wait are no fewer. -/
theorem SparesListings.of_less {b : AppController} (h : SparesListings b d)
    (hsession : b.session = c.session)
    (hless : ∀ id pending, c.fsPending id = some pending → b.fsPending id = some pending) :
    SparesListings c d := by
  have hids : givenOut c d = givenOut b d := by
    unfold givenOut sentIds
    rw [hsession]
  refine ⟨hids ▸ h.distinct, fun id hid pending hpending => ?_⟩
  exact h.fresh id (hids ▸ hid) pending (hless id pending hpending)

/-- Requests that are sent in two parts. -/
theorem SparesListings.split {ops ops' : List FsOp} (h : SparesListings c e)
    (hfirst : Traffic.Asks ops c.traffic d.traffic)
    (hsecond : Traffic.Asks ops' d.traffic e.traffic) :
    SparesListings c d ∧ SparesListings d e := by
  obtain ⟨new, hsends, -⟩ := hfirst
  obtain ⟨new', hsends', -⟩ := hsecond
  have hboth := givenOut_of_sends (hsends.trans hsends')
  rw [Traffic.requestIds_append, ← givenOut_of_sends hsends, ← givenOut_of_sends hsends'] at hboth
  obtain ⟨hdistinct, hfresh⟩ := h
  rw [hboth] at hdistinct hfresh
  obtain ⟨hdistinct₁, hdistinct₂, hapart⟩ := List.nodup_append'.mp hdistinct
  refine ⟨⟨hdistinct₁, fun id hid => hfresh id (List.mem_append_left _ hid)⟩, hdistinct₂, ?_⟩
  intro id hid pending hpending
  obtain hold | hnew := entry_of_sends hsends hpending
  · exact hfresh id (List.mem_append_right _ hid) pending hold
  · exact absurd hid (hapart hnew)

/-- What is new in the table was put there under an id that was given out. -/
theorem keepsListings_of_asks {n : Nat} {ops : List FsOp} (h : Desk.Asks n c.desk d.desk)
    (htraffic : Traffic.Asks ops c.traffic d.traffic) (hfresh : SparesListings c d) :
    KeepsListings c d := by
  obtain ⟨new, hsends, -⟩ := htraffic
  intro id pending hpending hkind
  obtain hsame | ⟨k, entry, _, _, _, _, hentry, _⟩ := h.pending id
  · exact hsame.trans hpending
  · obtain hold | hnew := entry_of_sends hsends hentry
    · exact hentry.trans (hold.symm.trans hpending)
    · exact absurd hkind (hfresh.fresh id hnew pending hpending)

/-- A request whose id is no listing's drops none. -/
theorem keepsListings_of_requests {entry : PendingFs} {refusal : QString → EditorSignal}
    {ops : List FsOp} (h : Desk.Requests entry refusal c.desk d.desk)
    (htraffic : Traffic.Asks ops c.traffic d.traffic) (hfresh : SparesListings c d) :
    KeepsListings c d := by
  obtain ⟨new, hsends, -⟩ := htraffic
  intro id pending hpending hkind
  cases h with
  | refused k e message _ hdesk _ =>
    rw [show d.fsPending = c.fsPending from congrArg Desk.fsPending hdesk]
    exact hpending
  | taken e _ hdesk _ =>
    have hput : d.fsPending = Function.update c.fsPending (c.desk.idAfter 1) (some entry) :=
      congrArg Desk.fsPending hdesk
    by_cases hid : id = c.desk.idAfter 1
    · have hentry : d.fsPending id = some entry := by rw [hput, hid, Function.update_self]
      obtain hold | hnew := entry_of_sends hsends hentry
      · exact hentry.trans (hold.symm.trans hpending)
      · exact absurd hkind (hfresh.fresh id hnew pending hpending)
    · rw [hput, Function.update_of_ne hid]
      exact hpending

/-- What asking for a directory comes to. -/
theorem expandDir_outcome (c : AppController) (path : QString) :
    ((c.expandDir path).fileTree = c.fileTree.markLoadFailed path ∧
        (c.expandDir path).fsPending = c.fsPending) ∨
      ((c.expandDir path).fileTree = c.fileTree ∧
        (c.expandDir path).fsPending =
          Function.update c.fsPending (c.desk.idAfter 1) (some (.plain .listing path none))) := by
  unfold expandDir
  split
  · obtain ⟨k, hk, hdesk, hid⟩ := c.submitFs_outcome (.list (toCore path))
    have htree := (c.spares_submitFs (.list (toCore path))).fileTree
    generalize c.submitFs (.list (toCore path)) = submitted at hdesk hid htree ⊢
    obtain ⟨id, c'⟩ := submitted
    dsimp only at hdesk hid htree ⊢
    have hpending : c'.fsPending = c.fsPending := congrArg Desk.fsPending hdesk
    split
    · exact .inl ⟨congrArg (fun t => t.markLoadFailed path) htree, hpending⟩
    · next hne =>
      obtain ⟨rfl, rfl, _, _⟩ := hid.resolve_left fun h => hne h.1
      unfold trackFsRequest
      rw [if_neg hne]
      refine .inr ⟨htree, ?_⟩
      show Function.update c'.fsPending _ _ = _
      rw [hpending]
  · exact .inl ⟨rfl, rfl⟩

/-- **Asking for a path**: it is listed from now on, or not loading any more. -/
theorem awaited_expandDir {path : QString} (h : AwaitedBut (some path) c)
    (hfresh : SparesListings c (c.expandDir path)) : (c.expandDir path).Awaited := by
  obtain ⟨htree, hpending⟩ | ⟨htree, hpending⟩ := c.expandDir_outcome path
  · exact h.failed htree hpending
  · have hkeeps := keepsListings_of_asks (c.asks_expandDir path) (c.traffic_expandDir path) hfresh
    refine ⟨htree ▸ h.keyed, fun r hr => .inr ?_⟩
    rw [htree] at hr
    obtain heq | hold := h.awaited r hr
    · refine ⟨_, _, by rw [hpending, Function.update_self], rfl, (Option.some.inj heq).symm⟩
    · exact hkeeps.lists hold

/-- Every directory may be the exception. -/
theorem Awaited.but (h : c.Awaited) (path : QString) : AwaitedBut (some path) c :=
  ⟨h.keyed, fun _ hr => .inr (h.lists hr)⟩

/-- The directory is asked for, if there is one. -/
theorem awaited_expandSome (h : c.Awaited) (dir : Option QString)
    (hfresh : SparesListings c (c.expandSome dir)) : (c.expandSome dir).Awaited := by
  cases dir with
  | none => exact h
  | some path => exact awaited_expandDir (h.but _) hfresh

/-- Both directories of a change are asked for. -/
theorem awaited_refreshAfter (h : c.Awaited) (pending : PendingFs)
    (hfresh : SparesListings c (c.refreshAfter pending)) : (c.refreshAfter pending).Awaited := by
  unfold refreshAfter at hfresh ⊢
  dsimp only at hfresh ⊢
  cases hextra : pending.extraRefreshDir with
  | none =>
    rw [hextra] at hfresh
    exact awaited_expandSome h _ hfresh
  | some dir =>
    rw [hextra] at hfresh
    dsimp only at hfresh ⊢
    by_cases hother : dir ≠ pending.refreshDir.getD []
    · rw [if_pos hother] at hfresh ⊢
      -- the first of the two listings spares the second one's
      obtain ⟨hfirst, hsecond⟩ := hfresh.split (c.traffic_expandSome _) (traffic_expandDir _ _)
      exact awaited_expandDir ((awaited_expandSome h _ hfirst).but _) hsecond
    · rw [if_neg hother] at hfresh ⊢
      exact awaited_expandSome h _ hfresh

/-- A directory that is opened is asked for. -/
theorem awaited_fetchMore (h : c.Awaited) (id : Nat) (hfresh : SparesListings c (c.fetchMore id)) :
    (c.fetchMore id).Awaited := by
  have hkeyed := h.keyed.congr (RemoteFileTreeModel.sameRows_fetchMore id c.fileTree)
  have hloading : ∀ r, (c.fileTree.fetchMore id).1.Loading r →
      c.fileTree.Loading r ∨ (c.fileTree.fetchMore id).2 = some r.path :=
    fun _ => RemoteFileTreeModel.loading_fetchMore h.keyed
  unfold fetchMore at hfresh ⊢
  generalize c.fileTree.fetchMore id = fetched at hkeyed hloading hfresh ⊢
  obtain ⟨tree, path⟩ := fetched
  dsimp only at hkeyed hloading hfresh ⊢
  cases path with
  | none => exact ⟨hkeyed, fun r hr => .inr (h.lists ((hloading r hr).resolve_right nofun))⟩
  | some path =>
    dsimp only at hfresh ⊢
    refine awaited_expandDir ⟨hkeyed, fun r hr => ?_⟩
      (hfresh.of_less rfl fun _ _ hpending => hpending)
    obtain hold | hpath := hloading r hr
    · exact .inr (h.lists hold)
    · exact .inl hpath.symm

/-- The new root is asked for. -/
theorem awaited_reloadFiles (h : c.Awaited) (hfresh : SparesListings c c.reloadFiles) :
    c.reloadFiles.Awaited := by
  have hcleared := (RemoteFileTreeModel.linked_clearTree [] h.keyed).keyed
  unfold reloadFiles at hfresh ⊢
  by_cases hready : c.ready = true
  · rw [if_pos hready] at hfresh ⊢
    dsimp only at hfresh ⊢
    refine awaited_expandDir ⟨?_, fun r hr => ?_⟩ (hfresh.of_less rfl fun _ _ hpending => hpending)
    · exact hcleared.congr (RemoteFileTreeModel.sameRows_loadRoot _)
    · -- the root alone is loading
      obtain hold | hpath := RemoteFileTreeModel.loading_loadRoot hcleared hr
      · exact absurd hold RemoteFileTreeModel.not_loading_clearTree
      · exact .inl (congrArg some hpath)
  · rw [if_neg hready]
    exact .cleared h.keyed rfl

/-! ## §3. Results and events. -/

/-- A request is taken away: only a listing can be missed. -/
theorem Awaited.taken (h : c.Awaited) {id : UInt64} {pending : PendingFs}
    (hpending : c.fsPending id = some pending) :
    AwaitedBut (if pending.kind = .listing then some pending.path else none)
      { c with fsPending := Function.update c.fsPending id none } where
  keyed := h.keyed
  awaited := by
    intro r hr
    obtain ⟨id', pending', hpending', hkind, hpath⟩ := h.lists hr
    by_cases hid : id' = id
    · -- the listing that is answered
      rw [hid, hpending, Option.some.injEq] at hpending'
      left
      rw [hpending', if_pos hkind, hpath]
    · refine .inr ⟨id', pending', ?_, hkind, hpath⟩
      show Function.update c.fsPending id none id' = _
      rw [Function.update_of_ne hid]
      exact hpending'

/-- What a failure does to table and tree. -/
theorem failFileRequest_outcome (c : AppController) (pending : PendingFs) (code : RsErrorCode)
    (message : QString) :
    (c.failFileRequest pending code message).fsPending = c.fsPending ∧
      (c.failFileRequest pending code message).fileTree =
        if pending.kind = .listing then c.fileTree.markLoadFailed pending.path else c.fileTree := by
  unfold failFileRequest
  cases pending.kind with
  | listing =>
    dsimp only
    split
    · split <;> exact ⟨rfl, rfl⟩
    · exact ⟨rfl, rfl⟩
  | editorOpen => exact ⟨rfl, rfl⟩
  | editorSave => exact ⟨rfl, rfl⟩
  | mutate => exact ⟨rfl, rfl⟩

/-- The directory of a failed listing loads no longer. -/
theorem awaited_failFileRequest {pending : PendingFs}
    (h : AwaitedBut (if pending.kind = .listing then some pending.path else none) c)
    (code : RsErrorCode) (message : QString) :
    (c.failFileRequest pending code message).Awaited := by
  obtain ⟨hpending, htree⟩ := c.failFileRequest_outcome pending code message
  by_cases hkind : pending.kind = .listing
  · rw [if_pos hkind] at h htree
    exact h.failed htree hpending
  · rw [if_neg hkind] at h htree
    exact h.kept htree (fun id entry hentry _ => by rw [hpending]; exact hentry)

/-- The directory of a listing is loaded. -/
theorem awaited_finishListing {pending : PendingFs} (h : AwaitedBut (some pending.path) c)
    (payload : FsPayload) : (c.finishListing pending payload).Awaited := by
  unfold finishListing
  split
  · next entries =>
    refine @AwaitedBut.listed _ _ _ entries h ?_ ?_
    · dsimp only
      split
      · unfold rememberHomeFromRootListing
        split <;> rfl
      · rfl
    · dsimp only
      split
      · unfold rememberHomeFromRootListing
        split <;> rfl
      · rfl
  · refine h.failed ?_ ?_
    · dsimp only
      split <;> rfl
    · dsimp only
      split <;> rfl

/-- A save may ask for its directory again. -/
theorem awaited_finishSave (h : c.Awaited) (pending : PendingFs) (payload : FsPayload)
    (hfresh : SparesListings c (c.finishSave pending payload)) :
    (c.finishSave pending payload).Awaited := by
  unfold finishSave at hfresh ⊢
  split at hfresh
  · dsimp only at hfresh ⊢
    refine awaited_refreshAfter ?_ pending (hfresh.of_less rfl fun _ _ hpending => hpending)
    exact h.idles ⟨rfl, rfl⟩
  · exact h.idles ⟨rfl, rfl⟩

/-- A change asks for its directories again. -/
theorem awaited_finishMutate (h : c.Awaited) (pending : PendingFs) (payload : FsPayload)
    (hfresh : SparesListings c (c.finishMutate pending payload)) :
    (c.finishMutate pending payload).Awaited := by
  unfold finishMutate at hfresh ⊢
  split at hfresh
  · dsimp only at hfresh ⊢
    -- neither the editor nor the clipboard matters
    refine awaited_refreshAfter (h.kept ?_ fun id entry hentry _ => ?_) pending
      (hfresh.of_less ?_ fun id entry hentry => ?_)
    · cases pending.clearClipboard <;> cases pending.mutation <;> rfl
    · cases pending.clearClipboard <;> cases pending.mutation <;> exact hentry
    · cases pending.clearClipboard <;> cases pending.mutation <;> rfl
    · revert hentry
      cases pending.clearClipboard <;> cases pending.mutation <;> exact fun hentry => hentry
  · exact h

/-- What waits without a request that is taken away has waited before. -/
theorem fsPending_of_taken {table : UInt64 → Option PendingFs} {requestId id : UInt64}
    {entry : PendingFs} (h : Function.update table requestId none id = some entry) :
    table id = some entry := by
  by_cases hid : id = requestId
  · rw [hid, Function.update_self] at h
    cases h
  · rwa [Function.update_of_ne hid] at h

/-- **The result of a file request.** -/
theorem Awaited.ingestFileResult (h : c.Awaited) (result : FsResult)
    (hfresh : SparesListings c (c.ingestFileResult result)) :
    (c.ingestFileResult result).Awaited := by
  unfold AppController.ingestFileResult at hfresh ⊢
  cases hpending : c.fsPending result.requestId with
  | none => exact h
  | some pending =>
    have htaken := h.taken hpending
    rw [hpending] at hfresh
    dsimp only at hfresh ⊢
    have hfresh' : SparesListings
        { c with fsPending := Function.update c.fsPending result.requestId none } _ :=
      hfresh.of_less rfl fun id entry hentry => fsPending_of_taken hentry
    split at hfresh'
    · exact awaited_failFileRequest htaken _ _
    · cases hkind : pending.kind with
      | listing =>
        rw [if_pos hkind] at htaken
        exact awaited_finishListing htaken _
      | editorOpen =>
        rw [if_neg (by rw [hkind]; decide)] at htaken
        exact htaken.idles (idles_finishOpen _ _ _)
      | editorSave =>
        rw [if_neg (by rw [hkind]; decide)] at htaken
        rw [hkind] at hfresh'
        exact awaited_finishSave htaken _ _ hfresh'
      | mutate =>
        rw [if_neg (by rw [hkind]; decide)] at htaken
        rw [hkind] at hfresh'
        exact awaited_finishMutate htaken _ _ hfresh'

/-- A new connection asks for its root. -/
theorem Awaited.ingestRustEvent (h : c.Awaited) (ev : RustEvent)
    (hfresh : SparesListings c (c.ingestRustEvent ev)) : (c.ingestRustEvent ev).Awaited := by
  by_cases hstate : ∃ state, ev = .stateChanged state
  · obtain ⟨state, rfl⟩ := hstate
    change SparesListings c (c.setConnectionState state) at hfresh
    show (c.setConnectionState state).Awaited
    obtain ⟨d, hidles, hsession, ⟨_, heq⟩ | heq | heq⟩ := c.setConnectionState_cases state
    · -- connected: the root is asked for
      rw [heq] at hfresh ⊢
      refine awaited_reloadFiles (h.idles hidles)
        (hfresh.of_less hsession.symm fun id entry hentry => ?_)
      rw [← hidles.fsPending]
      exact hentry
    · rw [heq]
      exact .cleared (h.idles hidles).keyed rfl
    · rw [heq]
      exact h.idles hidles
  · exact h.idles (c.idles_ingestRustEvent (not_exists.mp hstate))

/-- **The result of a command**, which may ask for the packages again. -/
theorem Awaited.ingestExecResult (h : c.Awaited) (result : ExecResult)
    (hfresh : SparesListings c (c.ingestExecResult result)) :
    (c.ingestExecResult result).Awaited := by
  have htraffic := c.traffic_ingestExecResult result
  rw [answered_task] at htraffic
  refine h.kept (c.spares_ingestExecResult result).fileTree ?_
  -- the command that is answered is no listing
  have hkeeps : KeepsListings
      { c with execPending := Function.update c.execPending result.requestId none } _ :=
    keepsListings_of_asks (c.asks_ingestExecResult result) htraffic
      (hfresh.of_less rfl fun _ _ hpending => hpending)
  exact hkeeps

/-! ## §4. Actions. -/

/-- At most one request, and the tree as it was. -/
theorem Awaited.asks {ops : List FsOp} (h : c.Awaited) (hfresh : SparesListings c d)
    (htree : d.fileTree = c.fileTree) (hasks : Desk.Asks 1 c.desk d.desk)
    (htraffic : Traffic.Asks ops c.traffic d.traffic) : d.Awaited :=
  h.kept htree (keepsListings_of_asks hasks htraffic hfresh)

/-- The read has an id of its own. -/
theorem Awaited.openPath (h : c.Awaited) (path : QString)
    (hfresh : SparesListings c (c.openPath path)) : (c.openPath path).Awaited := by
  refine h.kept (c.spares_openPath path).fileTree ?_
  obtain ⟨_, hsame⟩ | ⟨_, _, hrequests⟩ := c.openPath_outcome path
  · exact fun id pending hpending _ => by
      rw [show (c.openPath path).fsPending = c.fsPending from congrArg Desk.fsPending hsame]
      exact hpending
  · exact keepsListings_of_requests hrequests (c.traffic_openPath path) hfresh

/-- The write has an id of its own. -/
theorem Awaited.saveEditorPath (h : c.Awaited) (path text : QString)
    (hfresh : SparesListings c (c.saveEditorPath path text)) :
    (c.saveEditorPath path text).Awaited := by
  refine h.kept (c.spares_saveEditorPath path text).fileTree ?_
  obtain ⟨_, hsame⟩ | ⟨_, _, hrequests⟩ := c.saveEditorPath_outcome path text
  · exact fun id pending hpending _ => by
      rw [show (c.saveEditorPath path text).fsPending = c.fsPending from
        congrArg Desk.fsPending hsame]
      exact hpending
  · exact keepsListings_of_requests hrequests (c.traffic_saveEditorPath path text) hfresh

/-- **A user action.** -/
theorem Awaited.run (h : c.Awaited) (handle : Nat) (action : UiAction)
    (hfresh : SparesListings c (action.run handle c)) : (action.run handle c).Awaited := by
  cases action with
  | selectServer index => exact h.idles (c.idles_selectServer index)
  | connectToServer index refused => exact h.settled (c.settled_connectToServer _ _)
  | connectToHost host port username password name keyPath keyPassphrase refused =>
    exact h.settled (c.settled_connectToHost _ _ _ _ _ _ _ _)
  | editServer index host port username password name keyPath keyPassphrase =>
    exact h.settled (c.settled_editServer _ _ _ _ _ _ _ _)
  | deleteServer index => exact h.settled (c.settled_deleteServer index)
  | disconnectCurrent => exact h.idles c.idles_disconnectCurrent
  | cancel => exact h
  | confirmHostKey accept => exact h.idles (c.idles_confirmHostKey accept)
  | sendCommand text => exact h.idles (c.idles_sendCommand text)
  | sendInterrupt => exact h.idles c.idles_sendInterrupt
  | clearTerminal => exact h.idles ⟨rfl, rfl⟩
  | runPythonFile path device => exact h.idles (c.idles_runPythonFile path device)
  | refreshResourceSnapshot =>
    exact h.asks hfresh c.spares_refreshResourceSnapshot.fileTree c.asks_refreshResourceSnapshot
      c.traffic_refreshResourceSnapshot
  | refreshEnvironment =>
    exact h.asks hfresh c.spares_refreshEnvironment.fileTree c.asks_refreshEnvironment
      c.traffic_refreshEnvironment
  | searchPackages query =>
    exact h.asks hfresh (c.spares_searchPackages query).fileTree (c.asks_searchPackages query)
      (c.traffic_searchPackages query)
  | installPackage manager name =>
    exact h.asks hfresh (c.spares_mutatePackage _ manager name).fileTree
      (c.asks_mutatePackage _ _ _) (c.traffic_mutatePackage _ _ _)
  | updatePackage manager name =>
    exact h.asks hfresh (c.spares_mutatePackage _ manager name).fileTree
      (c.asks_mutatePackage _ _ _) (c.traffic_mutatePackage _ _ _)
  | removePackage manager name =>
    exact h.asks hfresh (c.spares_mutatePackage _ manager name).fileTree
      (c.asks_mutatePackage _ _ _) (c.traffic_mutatePackage _ _ _)
  | activateEditorPath path => exact h.idles (c.idles_activateEditorPath path)
  | closeEditor => exact h.idles ⟨rfl, rfl⟩
  | openPath path => exact h.openPath path hfresh
  | reloadFiles => exact awaited_reloadFiles h hfresh
  | fetchMore node => exact awaited_fetchMore h node hfresh
  | copyPath path =>
    show (c.copyPath path).Awaited
    unfold copyPath
    split
    · exact h
    · exact h.kept rfl (fun _ _ hpending _ => hpending)
  | cutPath path =>
    show (c.cutPath path).Awaited
    unfold cutPath
    split
    · exact h
    · exact h.kept rfl (fun _ _ hpending _ => hpending)
  | paste destDir =>
    exact h.asks hfresh (congrArg Shelf.fileTree (c.shelf_paste destDir)) (c.asks_paste destDir)
      (c.traffic_paste destDir)
  | renamePath path newName =>
    exact h.asks hfresh (c.spares_renamePath path newName).fileTree (c.asks_renamePath path newName)
      (c.traffic_renamePath path newName)
  | deletePath path isDir =>
    exact h.asks hfresh (c.spares_deletePath path isDir).fileTree (c.asks_deletePath path isDir)
      (c.traffic_deletePath path isDir)
  | makeDir parentDir name =>
    exact h.asks hfresh (c.spares_makeDir parentDir name).fileTree (c.asks_makeDir parentDir name)
      (c.traffic_makeDir parentDir name)
  | makeFile parentDir name =>
    exact h.asks hfresh (c.spares_makeFile parentDir name).fileTree (c.asks_makeFile parentDir name)
      (c.traffic_makeFile parentDir name)
  | uploadFile destDir localPath fileName contents =>
    exact h.asks hfresh (c.spares_uploadFile _ _ _ contents).fileTree (c.asks_uploadFile _ _ _ _)
      (c.traffic_uploadFile _ _ _ _)
  | saveEditor text => exact h.saveEditorPath _ text hfresh
  | saveEditorPath path text => exact h.saveEditorPath path text hfresh

/-! ## §5. Runs. -/

/-- **One input.** -/
theorem Awaited.feed (h : c.Awaited) {input : Input} (hfresh : c.ListingsFresh input) :
    (c.feed input).Awaited := by
  cases input with
  | user handle action => exact h.run handle action hfresh
  | item item =>
    cases item with
    | event ev => exact h.ingestRustEvent ev hfresh
    | file result => exact h.ingestFileResult result hfresh
    | exec result => exact h.ingestExecResult result hfresh
  | driverStops => exact h.idles ⟨rfl, rfl⟩

/-- Nothing is loading at the start. -/
theorem awaited_initial (servers : List ServerItem) (credentials : QString → Option (List UInt8)) :
    (AppController.initial servers credentials).Awaited where
  keyed := (RemoteFileTreeModel.linked_initial []).keyed
  awaited := by
    rintro r ⟨n, hn, hloading, _⟩
    change n ∈ (Node.mk _ []).nodes at hn
    rw [Node.nodes_mk, List.flatMap_nil, List.mem_singleton] at hn
    rw [hn] at hloading
    cases hloading

/-- **No directory is stuck** as long as no request is given the id of a listing that still waits:
in every state of the run each node that is loading has a listing of its path under way, and a
directory that is neither loaded nor listed can be expanded. -/
theorem directories_not_stuck (servers : List ServerItem)
    (credentials : QString → Option (List UInt8)) (inputs : List Input)
    (hfresh : Along step ListingsFresh (AppController.initial servers credentials) inputs) :
    Throughout step NoneStuck (AppController.initial servers credentials) inputs := by
  refine throughout_of_invariant (I := Awaited) (fun _ h => h.noneStuck) ?_
    (awaited_initial servers credentials) hfresh
  intro c input d h hfresh hstep
  rw [step_eq_some] at hstep
  exact hstep ▸ h.feed hfresh

/-- The session is up and its root directory has been asked for. -/
def listingRoot : List Input :=
  [.user 0 (.connectToServer 0 none), .item (.event (.stateChanged .connected))]

/-- The home directory is listed and has one directory, which is expanded and cannot be read. -/
def unreadable : List Input :=
  listingRoot ++
    [.item (.file {
      requestId := 1
      payload := .listing [{ name := lit "d", path := lit "/h/d", kind := .directory, size := 0
                             modified := -1, editable := false }] }),
     .user 0 (.fetchMore 1),
     .item (.file { requestId := 2, payload := .error .runtimeError (lit "denied") })]

theorem directories_not_stuck_unreadable :
    Along step ListingsFresh twoServers.controller unreadable ∧
      Throughout step NoneStuck twoServers.controller unreadable :=
  ⟨by decide, directories_not_stuck _ _ unreadable (by decide)⟩

end AppController

end ResearchSSH.App
