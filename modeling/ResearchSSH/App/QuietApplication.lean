/-
  ResearchSSH.App.QuietApplication — what is shown when nothing is under way.

  A directory that loads has a listing that waits for its result, and a busy package pane a command.
  A request that waits is owed by the driver, or its result is on its way.  Together: when the
  driver owes nothing and nothing is on its way, nothing loads and nothing is busy.

  Main result:
    * `Application.quiet_shows_nothing_busy`
-/

import ResearchSSH.App.Application
import ResearchSSH.App.DirectoryLoading
import ResearchSSH.App.PackageBusy

namespace ResearchSSH.App

open ResearchSSH.Core ResearchSSH.Library

namespace AppController

variable {c : AppController}

/-- The requests that the input makes have ids of their own, none of them that of a request that
still waits. -/
structure IdsFresh (c : AppController) (input : Input) : Prop where
  distinct : (givenOut c (c.feed input)).Nodup
  fresh : ∀ id ∈ givenOut c (c.feed input), c.fsPending id = none ∧ c.execPending id = none

instance IdsFresh.decidable (c : AppController) (input : Input) : Decidable (c.IdsFresh input) :=
  -- over the list, not over the finitely many ids there are
  have : Decidable (∀ id ∈ givenOut c (c.feed input),
      c.fsPending id = none ∧ c.execPending id = none) := List.decidableBAll _ _
  decidable_of_iff ((givenOut c (c.feed input)).Nodup ∧
      ∀ id ∈ givenOut c (c.feed input), c.fsPending id = none ∧ c.execPending id = none)
    ⟨fun h => ⟨h.1, h.2⟩, fun h => ⟨h.distinct, h.fresh⟩⟩

/-- The condition for the listings. -/
theorem IdsFresh.listings {input : Input} (h : c.IdsFresh input) : c.ListingsFresh input where
  distinct := h.distinct
  fresh := by
    intro id hid pending hpending
    exact absurd ((h.fresh id hid).1.symm.trans hpending) nofun

/-- A snapshot that is not refused is given the next id. -/
theorem IdsFresh.snapshot {input : Input} (h : c.IdsFresh input) : c.SnapshotFresh input := by
  rintro handle rfl hready hidle htaken ⟨entry, hentry, hkind⟩
  obtain ⟨-, hput⟩ := refreshResourceSnapshot_takes hready hidle htaken
  obtain ⟨new, hsends, -⟩ := c.traffic_refreshResourceSnapshot
  obtain hold | ⟨command, timeoutMs, hnew⟩ := hsends.tasks (c.desk.idAfter 1) _
    ((congrFun hput _).trans (Function.update_self _ _ _))
  · -- what waits there is a snapshot already
    obtain rfl := Option.some.inj (hentry.symm.trans hold)
    exact hkind rfl
  · have hgiven : c.desk.idAfter 1 ∈ givenOut c c.refreshResourceSnapshot := by
      rw [givenOut_of_sends hsends]
      exact List.mem_filterMap.mpr ⟨_, hnew, rfl⟩
    exact absurd ((h.fresh _ hgiven).2.symm.trans hentry) nofun

/-- The directories that load are listed, and the package pane is busy exactly with its command. -/
structure Busy (c : AppController) : Prop where
  awaited : c.Awaited
  packages : c.PackagesExact

/-- **One input** keeps it. -/
theorem Busy.feed (h : c.Busy) {input : Input} (hfresh : c.IdsFresh input) :
    (c.feed input).Busy where
  awaited := h.awaited.feed hfresh.listings
  packages := h.packages.feed hfresh.snapshot

/-- Inputs one after another keep it. -/
theorem Busy.feed_all (h : c.Busy) {inputs : List Input}
    (hfresh : Along step IdsFresh c inputs) : (inputs.foldl AppController.feed c).Busy := by
  refine exec_invariant_along ?_ h hfresh (exec_eq_foldl c inputs)
  intro c input d hc hids hstep
  rw [← step_eq_some.mp hstep]
  exact hc.feed hids

/-- What is busy waits for a request. -/
theorem Busy.idle (h : c.Busy) (hfiles : ∀ id, c.fsPending id = none)
    (htasks : ∀ id, c.execPending id = none) :
    (∀ n ∈ c.fileTree.root.nodes, n.info.loading = false)
      ∧ (∀ n ∈ c.fileTree.root.nodes, n.info.isDir = true → n.info.loaded = false →
        RemoteFileTreeModel.canFetchMore n = true)
      ∧ c.packages.busy = false := by
  have hnone : ∀ path, ¬ c.Lists path := by
    rintro path ⟨id, pending, hpending, -⟩
    exact absurd ((hfiles id).symm.trans hpending) nofun
  have hstuck := h.awaited.noneStuck
  refine ⟨fun n hn => ?_, fun n hn hdir hloaded => ?_, ?_⟩
  · rw [Bool.eq_false_iff]
    exact fun hloading => hnone _ (hstuck.awaited n hn hloading)
  · exact hstuck.fetchable n hn hdir hloaded (hnone _)
  · rw [Bool.eq_false_iff]
    intro hbusy
    obtain ⟨id, entry, hentry, -⟩ := h.packages.busy.mp hbusy
    exact absurd ((htasks id).symm.trans hentry) nofun

end AppController

namespace Application

variable {s t : Application}

/-- The ids are fresh at every turn that the controller takes in this step. -/
def Fresh (s : Application) : AppLabel → Prop
  | .user action => s.ui.controller.IdsFresh (.user s.ui.nextHandle action)
  | .deliver => Along AppController.step AppController.IdsFresh s.ui.controller
      ((s.ui.queue.head?.map fun posted => posted.batch.items.map Input.item).getD [])
  | .core _ => True

instance Fresh.decidable (s : Application) : (l : AppLabel) → Decidable (s.Fresh l)
  | .user action => inferInstanceAs (Decidable (s.ui.controller.IdsFresh (.user _ action)))
  | .deliver => inferInstanceAs (Decidable (Along _ _ _ _))
  | .core _ => inferInstanceAs (Decidable True)

/-- **One step** of the application keeps it. -/
theorem busy_step {l : AppLabel} (h : s.ui.controller.Busy) (hfresh : s.Fresh l)
    (hstep : s.step l = some t) : t.ui.controller.Busy := by
  cases l with
  | user action =>
    rw [of_step_user hstep]
    exact AppController.Busy.feed h hfresh
  | deliver =>
    obtain ⟨posted, rest, hqueue, rfl⟩ := of_step_deliver hstep
    unfold Fresh at hfresh
    rw [hqueue] at hfresh
    change Along _ _ _ (posted.batch.items.map Input.item) at hfresh
    have hfed := h.feed_all hfresh
    rw [AppController.foldl_feed_items, ← AppController.ingest_eq_foldl] at hfed
    exact hfed
  | core a =>
    obtain ⟨handle, d, d', batches, -, -, -, -, -, rfl⟩ := of_step_core hstep
    have hstops : ∀ c : AppController, c.Busy → AppController.Busy
        { c with session := c.session.map fun x => { x with stopped := true } } :=
      fun c hc => ⟨hc.awaited.idles ⟨rfl, rfl⟩, hc.packages.congr rfl rfl⟩
    show (heard _ _ _ d'.ended).controller.Busy
    cases d'.ended with
    | false => exact h
    | true => exact hstops _ h

/-- **When all is quiet, nothing loads and nothing is busy.**  In every run of the application in
which no request is given the id of one that still waits: when the driver of the session owes no
result and none is on its way to the controller, no directory of the tree is loading, every directory
that is not loaded can be fetched, and the package pane is not busy. -/
theorem quiet_shows_nothing_busy {servers : List ServerItem}
    {credentials : QString → Option (List UInt8)} {labels : List AppLabel}
    (hrun : exec step (initial servers credentials) labels = some s)
    (hfresh : Along step Fresh (initial servers credentials) labels) (hquiet : s.Quiet) :
    (∀ n ∈ s.ui.controller.fileTree.root.nodes, n.info.loading = false)
      ∧ (∀ n ∈ s.ui.controller.fileTree.root.nodes, n.info.isDir = true → n.info.loaded = false →
        RemoteFileTreeModel.canFetchMore n = true)
      ∧ s.ui.controller.packages.busy = false := by
  have hsound := sound_run hrun
  have hbusy : s.ui.controller.Busy :=
    exec_invariant_along (I := fun s => s.ui.controller.Busy)
      (fun _ _ _ h hfresh hstep => busy_step h hfresh hstep)
      ⟨AppController.awaited_initial servers credentials,
        AppController.packagesExact_initial servers credentials⟩ hfresh hrun
  exact hbusy.idle (fun id => (hsound.quiet hquiet id).1) fun id => (hsound.quiet hquiet id).2

/-- The root is listed, an environment is probed, and the answers to both are delivered. -/
def probed : List AppLabel :=
  connecting ++ [.user .refreshEnvironment, .core .recv, .core (.fsReturns (.entries [])),
    .core .recv, .core (.execReturns (.error ⟨.cancelled, none⟩)), .deliver, .deliver]

theorem quiet_shows_nothing_busy_probed : ∃ s, exec step oneServer probed = some s
    ∧ (∀ n ∈ s.ui.controller.fileTree.root.nodes, n.info.loading = false)
    ∧ s.ui.controller.packages.busy = false := by
  obtain ⟨s, hrun⟩ : ∃ s, exec step oneServer probed = some s :=
    Option.isSome_iff_exists.mp (by decide)
  have hview : (exec step oneServer probed).map
      (fun s => (s.ui.queue, s.driver.map fun d => (d.owedFiles, d.owedTasks)))
      = some ([], some ([], [])) := by decide
  rw [hrun, Option.map_some, Option.some.injEq, Prod.mk.injEq] at hview
  obtain ⟨hqueue, hdriver⟩ := hview
  have hquiet : s.Quiet := by
    constructor
    · intro d hd
      rw [hd, Option.map_some, Option.some.injEq, Prod.mk.injEq] at hdriver
      exact hdriver
    · rw [hqueue]
      exact fun _ => nofun
  obtain ⟨hloading, -, hbusy⟩ := quiet_shows_nothing_busy hrun (by decide) hquiet
  exact ⟨s, hrun, hloading, hbusy⟩

end Application

end ResearchSSH.App
