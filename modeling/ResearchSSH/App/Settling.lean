/-
  ResearchSSH.App.Settling — an application that is left alone comes to rest.

  Results that arrive make the controller send more: a connection asks for the root, a change for
  one or two listings, a change of packages for their list.  What such a request makes of its own
  makes no more requests.  So everything that is under way when the user lets go, with all that
  follows from it, comes to an end, after a number of steps that can be told beforehand.

  Main results:
    * `AppController.spends_ingest`   — what a batch that arrives makes the controller send.
    * `Application.settles`           — every step of the application's own lowers what remains.
    * `Application.left_alone_settles` — from every reachable state.
-/

import Mathlib.Algebra.BigOperators.Group.Finset.Basic
import Mathlib.Data.FinEnum
import ResearchSSH.App.StatusDelivery
import ResearchSSH.Core.DriverProgress
import ResearchSSH.Library.Quiescence

namespace ResearchSSH.App

open ResearchSSH.Core ResearchSSH.Library RustCoreBridge

/-! ## §1. What waits, and what it will ask for. -/

/-- The weights of the entries of a table, together. -/
def tableEffort {κ α : Type} [Fintype κ] (weight : α → Nat) (table : κ → Option α) : Nat :=
  ∑ key : κ, (table key).elim 0 weight

section Table

variable {κ α : Type} [Fintype κ] (weight : α → Nat) (table : κ → Option α)

/-- One entry is replaced by another, or by none. -/
theorem tableEffort_update [DecidableEq κ] (key : κ) (value : Option α) :
    tableEffort weight (Function.update table key value) + (table key).elim 0 weight
      = tableEffort weight table + value.elim 0 weight := by
  have hnew := Finset.add_sum_erase Finset.univ
    (fun k => (Function.update table key value k).elim 0 weight) (Finset.mem_univ key)
  have hold := Finset.add_sum_erase Finset.univ (fun k => (table k).elim 0 weight)
    (Finset.mem_univ key)
  have hothers : ∑ k ∈ Finset.univ.erase key, (Function.update table key value k).elim 0 weight
      = ∑ k ∈ Finset.univ.erase key, (table k).elim 0 weight := by
    refine Finset.sum_congr rfl fun k hk => ?_
    rw [Function.update_of_ne (Finset.ne_of_mem_erase hk)]
  unfold tableEffort
  simp only [Function.update_self] at hnew
  omega

/-- An empty table leads to nothing. -/
theorem tableEffort_empty : tableEffort weight (fun _ : κ => none) = 0 := Finset.sum_const_zero

end Table

/-- What the result of a request makes the controller ask for. -/
def PendingFs.effort (entry : PendingFs) : Nat :=
  match entry.kind with
  | .listing | .editorOpen => 0
  -- Two listings at most.
  | .editorSave | .mutate => 8

/-- The work that its result can still lead to. -/
def PendingExec.effort (entry : PendingExec) : Nat :=
  match entry.kind with
  | .resourceSnapshot | .packageList | .packageSearch => 0
  -- The list of packages.
  | .environmentProbe | .packageInstall | .packageUpdate | .packageRemove => 4

/-- What waits, by what its results will ask for. -/
def Traffic.waitingEffort (a : Traffic) : Nat :=
  tableEffort PendingFs.effort a.fsPending + tableEffort PendingExec.effort a.execPending

/-- From `a` to `b` at most `n` was spent, on new commands and on what waits. -/
def Traffic.Spends (n : Nat) (a b : Traffic) : Prop :=
  ∃ new, b.link = a.link.map (fun l => (l.1, l.2 ++ new))
    ∧ total (new.map Command.effort) + b.waitingEffort ≤ a.waitingEffort + n

namespace Traffic

variable {a b c : Traffic} {m n : Nat}

theorem Spends.refl (a : Traffic) : Spends 0 a a := by
  refine ⟨[], ?_, ?_⟩
  · cases a.link <;> simp
  · rw [List.map_nil, total_nil]
    omega

theorem Spends.of_eq (h : b = a) : Spends 0 a b := h ▸ .refl a

/-- A bound may be raised. -/
theorem Spends.mono (h : Spends m a b) (hle : m ≤ n) : Spends n a b := by
  obtain ⟨new, hlink, hspent⟩ := h
  exact ⟨new, hlink, by omega⟩

/-- One after the other. -/
theorem Spends.trans (h : Spends m a b) (h' : Spends n b c) : Spends (m + n) a c := by
  obtain ⟨new, hlink, hspent⟩ := h
  obtain ⟨new', hlink', hspent'⟩ := h'
  refine ⟨new ++ new', ?_, ?_⟩
  · rw [hlink', hlink, Option.map_map]
    congr 1
    funext l
    simp only [Function.comp_apply, List.append_assoc]
  · rw [List.map_append, total_append]
    omega

/-- The entry that a result answers pays for what follows. -/
theorem Spends.answered_file {id : UInt64} {entry : PendingFs} (hentry : a.fsPending id = some entry)
    (h : Spends entry.effort { a with fsPending := Function.update a.fsPending id none } b) :
    Spends 0 a b := by
  obtain ⟨new, hlink, hspent⟩ := h
  have hpaid := tableEffort_update PendingFs.effort a.fsPending id none
  rw [hentry] at hpaid
  refine ⟨new, hlink, ?_⟩
  unfold waitingEffort at hspent ⊢
  simp only [Option.elim_some, Option.elim_none] at hpaid hspent
  omega

/-- A result may spend what its entry was worth. -/
theorem Spends.answered_task {id : UInt64} {entry : PendingExec}
    (hentry : a.execPending id = some entry)
    (h : Spends entry.effort { a with execPending := Function.update a.execPending id none } b) :
    Spends 0 a b := by
  obtain ⟨new, hlink, hspent⟩ := h
  have hpaid := tableEffort_update PendingExec.effort a.execPending id none
  rw [hentry] at hpaid
  refine ⟨new, hlink, ?_⟩
  unfold waitingEffort at hspent ⊢
  simp only [Option.elim_some, Option.elim_none] at hpaid hspent
  omega

/-- A new entry that asks for nothing. -/
theorem Spends.put_file {id : UInt64} {entry : PendingFs} (h : Spends n a b)
    (hentry : entry.effort = 0) :
    Spends n a { b with fsPending := Function.update b.fsPending id (some entry) } := by
  obtain ⟨new, hlink, hspent⟩ := h
  have hput := tableEffort_update PendingFs.effort b.fsPending id (some entry)
  refine ⟨new, hlink, ?_⟩
  unfold waitingEffort at hspent ⊢
  simp only [Option.elim_some, hentry] at hput ⊢
  omega

/-- An entry that leads to nothing costs nothing. -/
theorem Spends.put_task {id : UInt64} {entry : PendingExec} (h : Spends n a b)
    (hentry : entry.effort = 0) :
    Spends n a { b with execPending := Function.update b.execPending id (some entry) } := by
  obtain ⟨new, hlink, hspent⟩ := h
  have hput := tableEffort_update PendingExec.effort b.execPending id (some entry)
  refine ⟨new, hlink, ?_⟩
  unfold waitingEffort at hspent ⊢
  simp only [Option.elim_some, hentry] at hput ⊢
  omega

/-- All entries are dropped. -/
theorem Spends.dropped (hlink : b.link = a.link) (hfiles : b.fsPending = fun _ => none)
    (htasks : b.execPending = fun _ => none) : Spends 0 a b := by
  refine ⟨[], ?_, ?_⟩
  · rw [hlink]
    cases a.link <;> simp
  · unfold waitingEffort
    rw [hfiles, htasks, tableEffort_empty, tableEffort_empty, List.map_nil, total_nil]
    omega

end Traffic

/-! ## §2. What the controller sends by itself. -/

namespace AppController

variable (c : AppController)

open Traffic

/-- A command costs what it leads to. -/
theorem spends_submit {n : Nat} {command : UInt64 → Command} (h : ∀ id, (command id).effort = n) :
    Spends n c.traffic (c.submit command).2.traffic := by
  unfold submit
  cases hsession : c.session with
  | none => exact (Spends.refl _).mono (Nat.zero_le n)
  | some s =>
    have hlink : c.traffic.link = some (s.handle, s.sent) := by rw [traffic, hsession]; rfl
    dsimp only
    unfold Session.submit
    dsimp only
    split
    · refine ⟨[], ?_, ?_⟩
      · rw [hlink, Option.map_some, List.append_nil]
        rfl
      · rw [List.map_nil, total_nil]
        show 0 + c.traffic.waitingEffort ≤ _
        omega
    · refine ⟨[command (s.nextRequestId + 1)], ?_, ?_⟩
      · rw [hlink, Option.map_some]
        rfl
      · simp only [List.map_cons, List.map_nil, total_cons, total_nil, h]
        show n + 0 + c.traffic.waitingEffort ≤ _
        omega

/-- A file operation costs its work in the driver. -/
theorem spends_submitFs (op : FsOp) : Spends 4 c.traffic (c.submitFs op).2.traffic :=
  c.spends_submit fun _ => rfl

/-- An entry that leads to nothing costs nothing. -/
theorem spends_trackFsRequest {a : Traffic} {n : Nat} (h : Spends n a c.traffic) (id : UInt64)
    {pending : PendingFs} (hpending : pending.effort = 0) :
    Spends n a (c.trackFsRequest id pending).traffic := by
  unfold trackFsRequest
  split
  · exact h
  · exact h.put_file hpending

/-- A listing is asked for. -/
theorem spends_expandDir (path : QString) : Spends 4 c.traffic (c.expandDir path).traffic := by
  unfold expandDir
  split
  · have h := c.spends_submitFs (.list (toCore path))
    generalize c.submitFs (.list (toCore path)) = submitted at h ⊢
    obtain ⟨id, c'⟩ := submitted
    dsimp only at h ⊢
    split
    · exact h
    · exact c'.spends_trackFsRequest h id rfl
  · exact (Spends.refl _).mono (Nat.zero_le 4)

/-- The root is asked for. -/
theorem spends_reloadFiles : Spends 4 c.traffic c.reloadFiles.traffic := by
  have hexpand : ∀ d : AppController, d.traffic = c.traffic →
      Spends 4 c.traffic (d.expandDir []).traffic := by
    intro d hd
    rw [← hd]
    exact d.spends_expandDir []
  unfold reloadFiles
  split
  · exact hexpand _ rfl
  · exact (Spends.refl _).mono (Nat.zero_le 4)

/-- Two listings are asked for. -/
theorem spends_refreshAfter (pending : PendingFs) :
    Spends 8 c.traffic (c.refreshAfter pending).traffic := by
  have hfirst : Spends 4 c.traffic (c.expandSome pending.refreshDir).traffic := by
    unfold expandSome
    split
    · exact c.spends_expandDir _
    · exact (Spends.refl _).mono (Nat.zero_le 4)
  unfold refreshAfter
  dsimp only
  split
  · split
    · exact hfirst.trans (spends_expandDir _ _)
    · exact hfirst.mono (by omega)
  · exact hfirst.mono (by omega)

/-- A save refreshes its directory. -/
theorem spends_finishSave (pending : PendingFs) (payload : FsPayload) :
    Spends 8 c.traffic (c.finishSave pending payload).traffic := by
  have hrefresh : ∀ d : AppController, d.traffic = c.traffic →
      Spends 8 c.traffic (d.refreshAfter pending).traffic := by
    intro d hd
    rw [← hd]
    exact d.spends_refreshAfter pending
  unfold finishSave
  split
  · exact hrefresh _ rfl
  · exact (Spends.refl _).mono (Nat.zero_le 8)

/-- A change refreshes its directories. -/
theorem spends_finishMutate (pending : PendingFs) (payload : FsPayload) :
    Spends 8 c.traffic (c.finishMutate pending payload).traffic := by
  have hrefresh : ∀ d : AppController, d.traffic = c.traffic →
      Spends 8 c.traffic (refreshAfter (if pending.clearClipboard then
        { d with clipboardPath := [], clipboardCut := false } else d) pending).traffic := by
    intro d hd
    rw [← hd]
    split
    · exact spends_refreshAfter { d with clipboardPath := [], clipboardCut := false } pending
    · exact d.spends_refreshAfter pending
  cases payload with
  | ok =>
    unfold finishMutate
    dsimp only
    cases pending.mutation with
    | _ => exact hrefresh _ rfl
  | _ => exact (Spends.refl _).mono (Nat.zero_le 8)

/-- **A file result is paid for** by the entry that it answers. -/
theorem spends_ingestFileResult (result : FsResult) :
    Spends 0 c.traffic (c.ingestFileResult result).traffic := by
  unfold ingestFileResult
  split
  · exact .refl _
  next pending hpending =>
    refine Spends.answered_file hpending ?_
    show Spends pending.effort (traffic { c with
      fsPending := Function.update c.fsPending result.requestId none }) _
    dsimp only
    generalize ({ c with
      fsPending := Function.update c.fsPending result.requestId none } : AppController) = d
    split
    · exact (Spends.of_eq (d.traffic_failFileRequest pending _ _)).mono (Nat.zero_le _)
    · unfold PendingFs.effort
      cases pending.kind with
      | listing => exact .of_eq (d.traffic_finishListing pending _)
      | editorOpen => exact .of_eq (d.traffic_finishOpen pending _)
      | editorSave => exact d.spends_finishSave pending _
      | mutate => exact d.spends_finishMutate pending _

/-- The list of packages is asked for. -/
theorem spends_packageList {d : AppController} (hd : d.traffic = c.traffic) (command : QString)
    (timeoutMs : UInt64) (label failureText : QString) :
    Spends 4 c.traffic (d.submitPackage command timeoutMs .packageList label failureText).traffic := by
  have hsubmit : Spends 4 c.traffic (d.submitExec command timeoutMs .packageList label).2.traffic := by
    rw [← hd]
    unfold submitExec
    split
    · have h : Spends 4 d.traffic
          (d.submit fun id => .exec id (String.ofList (toCore command)) timeoutMs).2.traffic :=
        d.spends_submit fun _ => rfl
      generalize d.submit (fun id => .exec id (String.ofList (toCore command)) timeoutMs)
        = submitted at h ⊢
      obtain ⟨id, c'⟩ := submitted
      dsimp only at h ⊢
      split
      · exact h
      · exact h.put_task rfl
    · exact (Spends.refl _).mono (Nat.zero_le 4)
  unfold submitPackage
  generalize d.submitExec command timeoutMs .packageList label = submitted at hsubmit ⊢
  obtain ⟨id, c'⟩ := submitted
  dsimp only at hsubmit ⊢
  split
  · exact hsubmit
  · exact hsubmit

/-- After a package command the list is asked for. -/
theorem spends_finishPackageMutation {d : AppController} (hd : d.traffic = c.traffic)
    (result : ExecResult) (successText failureText refreshText : QString) :
    Spends 4 c.traffic
      (d.finishPackageMutation result successText failureText refreshText).traffic := by
  unfold finishPackageMutation
  dsimp only
  split
  · exact (Spends.of_eq hd).mono (Nat.zero_le 4)
  · exact c.spends_packageList (by exact hd) _ _ _ _

/-- **A result of a command is paid for** by the entry that it answers. -/
theorem spends_ingestExecResult (result : ExecResult) :
    Spends 0 c.traffic (c.ingestExecResult result).traffic := by
  unfold ingestExecResult
  split
  · exact .refl _
  next pending hpending =>
    refine Spends.answered_task hpending ?_
    show Spends pending.effort (traffic { c with
      execPending := Function.update c.execPending result.requestId none }) _
    dsimp only
    unfold PendingExec.effort
    cases pending.kind with
    | resourceSnapshot => dsimp only; split <;> exact .refl _
    | environmentProbe =>
      dsimp only
      split
      · exact (Spends.refl _).mono (Nat.zero_le 4)
      · exact spends_packageList _ (by rfl) _ _ _ _
    | packageList => dsimp only; split <;> exact .refl _
    | packageSearch => dsimp only; split <;> exact .refl _
    | packageInstall => exact spends_finishPackageMutation _ (by rfl) _ _ _ _
    | packageUpdate => exact spends_finishPackageMutation _ (by rfl) _ _ _ _
    | packageRemove => exact spends_finishPackageMutation _ (by rfl) _ _ _ _

/-- A new connection asks for its root. -/
theorem spends_setConnectionState (state : RsSessionState) :
    Spends (if state = .connected then 4 else 0) c.traffic (c.setConnectionState state).traffic := by
  have hstatus : (if 0 ≤ c.currentIndex then
      setStatus { c with connectionState := state } c.currentIndex state
      else { c with connectionState := state }).traffic = c.traffic := by
    split
    · exact traffic_setStatus _ _ _
    · rfl
  unfold setConnectionState
  dsimp only
  generalize (if 0 ≤ c.currentIndex then
      setStatus { c with connectionState := state } c.currentIndex state
      else { c with connectionState := state }) = d at hstatus ⊢
  rw [← hstatus]
  cases state with
  | connected => exact spends_reloadFiles { d with remoteHomePath := [] }
  | disconnected => exact .dropped rfl rfl rfl
  | failed => exact .dropped rfl rfl rfl
  | _ => exact .refl _

/-- Only a new connection asks for something. -/
theorem spends_ingestRustEvent (ev : RustEvent) :
    Spends (4 * ev.announced.toList.count .connected) c.traffic (c.ingestRustEvent ev).traffic := by
  cases ev with
  | stateChanged state =>
    have h := c.spends_setConnectionState state
    cases state <;> exact h
  | data data =>
    have h := c.traffic_captureResourceOutput data
    rw [← h]
    unfold ingestRustEvent
    dsimp only
    generalize c.captureResourceOutput data = captured at h ⊢
    obtain ⟨taken, c'⟩ := captured
    cases taken <;> exact .refl _
  | error code message => exact .refl _
  | hostKeyPrompt message => exact .refl _

/-- **What a batch makes the controller send.** -/
theorem spends_ingest (batch : Batch) :
    Spends (4 * batch.announced.count .connected) c.traffic (c.ingest batch).traffic := by
  cases batch with
  | events batch =>
    show Spends (4 * (batch.filterMap RustEvent.announced).count .connected) c.traffic
      (batch.foldl ingestRustEvent c).traffic
    induction batch generalizing c with
    | nil => exact .refl _
    | cons ev batch ih =>
      refine ((c.spends_ingestRustEvent ev).trans (ih _)).mono (Nat.le_of_eq ?_)
      cases hev : ev.announced with
      | none =>
        rw [List.filterMap_cons_none hev]
        simp
      | some state =>
        rw [List.filterMap_cons_some hev, List.count_cons]
        simp only [Option.toList_some, List.count_singleton]
        omega
  | files batch =>
    show Spends 0 c.traffic (batch.foldl ingestFileResult c).traffic
    induction batch generalizing c with
    | nil => exact .refl _
    | cons result batch ih =>
      have h := (c.spends_ingestFileResult result).trans (ih (c.ingestFileResult result))
      exact h.mono (Nat.le_refl 0)
  | execs batch =>
    show Spends 0 c.traffic (batch.foldl ingestExecResult c).traffic
    induction batch generalizing c with
    | nil => exact .refl _
    | cons result batch ih =>
      have h := (c.spends_ingestExecResult result).trans (ih (c.ingestExecResult result))
      exact h.mono (Nat.le_refl 0)

end AppController

/-! ## §3. What remains to be done. -/

/-- What a batch can cost when it is delivered. -/
def Batch.effort (batch : Batch) : Nat := 1 + 4 * batch.announced.count .connected

/-- What a batch of events can lead to. -/
theorem effort_eventBatch (events : List SessionEvent) :
    total (([events].filterMap eventBatch).map Batch.effort) ≤ batchEffort events := by
  have hsame := announced_eventBatch [events]
  rw [List.flatten_singleton] at hsame
  cases hbatch : eventBatch events with
  | none =>
    rw [List.filterMap_cons_none hbatch]
    exact Nat.zero_le _
  | some batch =>
    rw [List.filterMap_cons_some hbatch] at hsame ⊢
    simp only [List.filterMap_nil, List.flatMap_cons, List.flatMap_nil, List.append_nil] at hsame
    simp only [List.filterMap_nil, List.map_cons, List.map_nil, total_cons, total_nil,
      Batch.effort, batchEffort, hsame]
    omega

/-- What the driver has handed out costs as much when it is delivered. -/
theorem effort_batchesOf (batches : List (List SessionEvent)) (files : List FileResult)
    (tasks : List Core.ExecResult) : total ((batchesOf batches files tasks).map Batch.effort)
      ≤ total (batches.map batchEffort) + files.length + tasks.length := by
  have hevents : total ((batches.filterMap eventBatch).map Batch.effort)
      ≤ total (batches.map batchEffort) := by
    induction batches with
    | nil => exact Nat.le_refl 0
    | cons events batches ih =>
      have hfirst := effort_eventBatch events
      rw [show events :: batches = [events] ++ batches from rfl, List.filterMap_append,
        List.map_append, total_append, List.map_append, total_append]
      simp only [List.map_cons, List.map_nil, total_cons, total_nil] at hfirst ⊢
      omega
  have hfiles : total ((files.map fileBatch).map Batch.effort) = files.length := by
    induction files with
    | nil => rfl
    | cons r files ih =>
      rw [List.map_cons, List.map_cons, total_cons, ih, List.length_cons]
      exact Nat.add_comm 1 files.length
  have htasks : total ((tasks.map taskBatch).map Batch.effort) = tasks.length := by
    induction tasks with
    | nil => rfl
    | cons r tasks ih =>
      rw [List.map_cons, List.map_cons, total_cons, ih, List.length_cons]
      exact Nat.add_comm 1 tasks.length
  unfold batchesOf
  rw [List.map_append, List.map_append, total_append, total_append]
  omega

namespace Application

variable {s t : Application}

/-- The steps that the application takes by itself.  A driver at rest is parked. -/
def Inner (s : Application) : AppLabel → Prop
  | .user _ => False
  | .core a => a.ownWork = true ∧ ∀ d ∈ s.driver, ¬ d.AtRest
  | .deliver => True

/-- Nothing is to be delivered, and the driver has nothing to do. -/
def AtRest (s : Application) : Prop := s.ui.queue = [] ∧ ∀ d ∈ s.driver, d.AtRest

instance (s : Application) : (l : AppLabel) → Decidable (s.Inner l)
  | .user _ => inferInstanceAs (Decidable False)
  | .core a => inferInstanceAs (Decidable (a.ownWork = true ∧ ∀ d ∈ s.driver, ¬ d.AtRest))
  | .deliver => inferInstanceAs (Decidable True)

/-- What is still to be done, each thing with all that it can lead to. -/
def remaining (s : Application) : Nat :=
  (s.driver.map Driver.remaining).getD 0
    + total (s.ui.queue.map fun posted => posted.batch.effort)
    + s.ui.controller.traffic.waitingEffort

/-- What the driver is given adds to what remains for it. -/
theorem remaining_handOver {a b : Traffic} {driver : Option Driver} {n : Nat}
    (hlinked : Linked a.link driver) (h : Traffic.Spends n a b) :
    ((handOver a.link driver b.link).map Driver.remaining).getD 0 + b.waitingEffort
      ≤ (driver.map Driver.remaining).getD 0 + a.waitingEffort + n := by
  obtain ⟨new, hlink, hspent⟩ := h
  generalize a.link = link at hlinked hlink ⊢
  cases hlinked with
  | off =>
    rw [hlink]
    show 0 + _ ≤ 0 + _ + n
    omega
  | @on handle sent d hserves =>
    rw [hlink, Option.map_some, handOver_more]
    have hmore : Driver.remaining { d with cmdRx := d.cmdRx ++ new }
        = d.remaining + total (new.map Command.effort) := by
      show d.phase.effort + total ((d.cmdRx ++ new).map Command.effort) + d.eventEffort = _
      rw [List.map_append, total_append]
      unfold Driver.remaining
      omega
    show Driver.remaining { d with cmdRx := d.cmdRx ++ new } + _ ≤ d.remaining + _ + n
    omega

/-- **A batch that is delivered** leaves less to be done. -/
theorem deliver_falls (h : s.Sound) (hstep : s.step .deliver = some t) :
    t.remaining < s.remaining := by
  obtain ⟨posted, rest, hqueue, rfl⟩ := of_step_deliver hstep
  have hgiven := remaining_handOver h.linked (s.ui.controller.spends_ingest posted.batch)
  have hcost : total (s.ui.queue.map fun posted => posted.batch.effort)
      = 1 + 4 * posted.batch.announced.count .connected
        + total (rest.map fun posted => posted.batch.effort) := by
    rw [hqueue, List.map_cons, total_cons]
    rfl
  show ((handOver s.ui.controller.traffic.link s.driver
      (s.ui.controller.ingest posted.batch).traffic.link).map Driver.remaining).getD 0
    + total (rest.map fun posted => posted.batch.effort)
    + (s.ui.controller.ingest posted.batch).traffic.waitingEffort < _
  unfold remaining
  omega

/-- **A step of the driver** leaves less to be done, also where it has called back. -/
theorem core_falls {a : Action} (h : s.Sound) (hwork : a.ownWork = true)
    (hbusy : ∀ d, s.driver = some d → ¬ d.AtRest) (hstep : s.step (.core a) = some t) :
    t.remaining < s.remaining := by
  obtain ⟨handle, d, d', batches, hown, hlive, hdriver, hd, hcalled, rfl⟩ := of_step_core hstep
  have hlowers := Driver.work_lowers hwork (hbusy d hdriver) hd
  have hlinked := h.linked
  rw [hdriver] at hlinked
  generalize s.ui.controller.traffic.link = link at hlinked
  cases hlinked with
  | on hserves =>
  obtain ⟨-, files, tasks, calls, hadvances⟩ := hserves.step hown hd
  obtain ⟨emitted, hemitted⟩ := hadvances.emitted
  rw [calledBack_eq handle hemitted hadvances.fileSink hadvances.taskSink] at hcalled
  obtain rfl := Option.some.inj hcalled
  -- what the driver hands out is what it emitted and answered
  have hout : d'.handedOut
      = d.handedOut + total (emitted.map batchEffort) + files.length + tasks.length := by
    unfold Driver.handedOut
    rw [hemitted, hadvances.fileSink, hadvances.taskSink, List.map_append, total_append,
      List.length_append, List.length_append]
    omega
  -- and what is posted is worth no more than what it was made of
  have hposted := effort_batchesOf emitted files tasks
  have hqueue : total ((heard s.ui handle (batchesOf emitted files tasks) d'.ended).queue.map
      fun posted => posted.batch.effort)
        = total (s.ui.queue.map fun posted => posted.batch.effort)
          + total ((batchesOf emitted files tasks).map Batch.effort) := by
    show total ((s.ui.queue ++ _).map _) = _
    rw [List.map_append, total_append, List.map_map]
    rfl
  have hbefore : s.remaining = d.remaining
      + total (s.ui.queue.map fun posted => posted.batch.effort)
      + s.ui.controller.traffic.waitingEffort := by
    unfold remaining
    rw [hdriver]
    rfl
  show d'.remaining + total ((heard s.ui handle _ d'.ended).queue.map _)
    + (heard s.ui handle _ d'.ended).controller.traffic.waitingEffort < _
  have hwaits : Traffic.waitingEffort
      (heard s.ui handle (batchesOf emitted files tasks) d'.ended).controller.traffic
        = s.ui.controller.traffic.waitingEffort := by
    rw [traffic_heard]
    rfl
  rw [hwaits, hqueue]
  omega

/-- A step of the driver's own is possible for the application. -/
theorem step_core {a : Action} {d d' : Driver} (h : s.Sound) (hwork : a.ownWork = true)
    (hdriver : s.driver = some d) (hd : d.step a = some d') : ∃ t, s.step (.core a) = some t := by
  have hown : a.ofHandle = false := by
    cases a with
    | submit _ | close | setFileEmitter | setTaskEmitter => cases hwork
    | _ => rfl
  have hlinked := h.linked
  rw [hdriver] at hlinked
  cases hlink : s.ui.controller.traffic.link with
  | none =>
    rw [hlink] at hlinked
    cases hlinked
  | some l =>
    obtain ⟨handle, sent⟩ := l
    rw [hlink] at hlinked
    cases hlinked with
    | on hserves =>
    obtain ⟨x, hx, hpair⟩ := Option.map_eq_some_iff.mp hlink
    have hlive : s.ui.controller.live = some handle := by
      rw [AppController.live, hx, ← (Prod.mk.inj hpair).1]
      rfl
    obtain ⟨-, files, tasks, calls, hadvances⟩ := hserves.step hown hd
    obtain ⟨emitted, hemitted⟩ := hadvances.emitted
    have hcalled := calledBack_eq handle hemitted hadvances.fileSink hadvances.taskSink
    refine ⟨{ ui := heard s.ui handle (batchesOf emitted files tasks) d'.ended, driver := some d' }, ?_⟩
    simp only [step, hown, hlive, hdriver, hd, Option.bind_some, hcalled, Option.map_some]
    rfl

/-- Away from rest there is something that the application can do. -/
theorem inner_goes_on (h : s.Sound) (hrest : ¬ s.AtRest) :
    ∃ l t, s.Inner l ∧ s.step l = some t := by
  cases hqueue : s.ui.queue with
  | cons posted rest =>
    refine ⟨.deliver, s.follow { s.ui with
      controller := s.ui.controller.ingest posted.batch, queue := rest }, trivial, ?_⟩
    show (s.ui.step .deliver).map s.follow = _
    simp only [UiThread.step, hqueue]
    rfl
  | nil =>
    cases hdriver : s.driver with
    | none =>
      exact absurd ⟨hqueue, fun d hd => absurd (hdriver.symm.trans hd) (Option.some_ne_none d).symm⟩
        hrest
    | some d =>
      have hbusy : ¬ d.AtRest := by
        intro hd
        refine hrest ⟨hqueue, fun e he => ?_⟩
        rwa [← Option.some.inj (hdriver.symm.trans he)]
      obtain ⟨a, d', hwork, hd⟩ := Driver.work_goes_on hbusy
      obtain ⟨t, ht⟩ := step_core h hwork hdriver hd
      refine ⟨.core a, t, ⟨hwork, fun e he => ?_⟩, ht⟩
      rwa [← Option.some.inj (hdriver.symm.trans he)]

/-- **The application settles.** -/
theorem settles : Settles step Sound Inner AtRest remaining where
  keeps := fun h _ hstep => h.step hstep
  falls := by
    intro s l t h hinner hstep
    cases l with
    | user action => exact hinner.elim
    | core a => exact core_falls h hinner.1 hinner.2 hstep
    | deliver => exact deliver_falls h hstep
  moves := inner_goes_on

/-! ## §4. Runs. -/

/-- At rest nothing is waited for, unless the driver has left its loop. -/
theorem quiet_of_rest (hrest : s.AtRest) (hloop : ∀ d, s.driver = some d → d.ended = false) :
    s.Quiet := by
  refine ⟨fun d hd => Driver.owed_of_rest (hrest.2 d hd) (hloop d hd), ?_⟩
  rw [hrest.1]
  exact List.forall_mem_nil _

/-- **Left alone, the application comes to rest.**  Take any state that a run of the application can
reach, and let the user and the other end do nothing more.  Then whatever the providers answer to
what is under way, whichever of the races against the cancel signal are won, and in whatever order
the driver goes on and batches are delivered: no more than `remaining` steps follow; wherever they
have led, they can be continued until all is at rest; and at rest the queue of the UI thread is
empty, and the controller waits for no result, unless the driver has left its loop. -/
theorem left_alone_settles {servers : List ServerItem} {credentials : QString → Option (List UInt8)}
    {labels more : List AppLabel}
    (hrun : exec step (initial servers credentials) labels = some s)
    (hinner : Along step Inner s more) (hmore : exec step s more = some t) :
    more.length ≤ s.remaining
      ∧ (∃ rest u, Along step Inner t rest ∧ exec step t rest = some u ∧ u.AtRest)
      ∧ (t.AtRest → (∀ d, t.driver = some d → d.ended = false) →
        ∀ id, t.ui.controller.fsPending id = none ∧ t.ui.controller.execPending id = none) := by
  have hsound := sound_run hrun
  have hlater := settles.invariant hsound hinner hmore
  refine ⟨?_, settles.exists_run hlater, fun hrest hloop id => ?_⟩
  · have hlength := settles.length_le hsound hinner hmore
    omega
  · exact hlater.quiet (quiet_of_rest hrest hloop) id

/-- The root is listed, and the listing is delivered. -/
def listing : List AppLabel := [.core .recv, .core (.fsReturns (.entries [])), .deliver]

theorem left_alone_settles_listing : ∃ s t, exec step oneServer connecting = some s
    ∧ exec step s listing = some t ∧ 3 ≤ s.remaining
    ∧ ∃ rest u, Along step Inner t rest ∧ exec step t rest = some u ∧ u.AtRest := by
  obtain ⟨s, hrun⟩ : ∃ s, exec step oneServer connecting = some s :=
    Option.isSome_iff_exists.mp (by decide)
  have hview : (exec step oneServer connecting).map
      (fun s => (decide (Along step Inner s listing), (exec step s listing).isSome))
        = some (true, true) := by decide
  rw [hrun, Option.map_some, Option.some.injEq, Prod.mk.injEq, decide_eq_true_eq] at hview
  obtain ⟨t, hmore⟩ := Option.isSome_iff_exists.mp hview.2
  obtain ⟨hlength, hrest, -⟩ := left_alone_settles hrun hview.1 hmore
  exact ⟨s, t, hrun, hmore, hlength, hrest⟩

end Application

end ResearchSSH.App
