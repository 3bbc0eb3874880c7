/-
  ResearchSSH.App.Application — the UI thread and the driver of its session, as one system.

  What the controller sends goes to the end of the driver's queue.  What the driver emits is
  flattened into C records, copied out by a callback and posted to the UI thread, behind whatever
  is still there from an earlier session.  With a session that is destroyed its driver goes out of
  sight: its emitters are taken away before the UI thread goes on, so a driver that has not ended by
  then calls nobody back any more.  What it still asks its own provider for is no part of this
  module (it is of `UserChanges`).  What it has posted stays.

  The cancel signal is fired by the user and by the teardown of a session.  A run shows it as a step
  of the driver, before the action that it belongs to.

  Main results:
    * `Application.step_ui`   — a step of the application is one of the UI thread, or several.
    * `Application.Sound.step` — what is kept about requests and results.
-/

import ResearchSSH.App.ControllerTraffic
import ResearchSSH.App.RustCoreBridge
import ResearchSSH.Core.RequestQueue

namespace ResearchSSH.App

open ResearchSSH.Core ResearchSSH.Library

/-! ## §1. Called back. -/

namespace RustCoreBridge

variable (handle : Nat)

/-- What the event callback of the session posts, through both languages. -/
def postEvents (events : List SessionEvent) : Option (Option Batch) :=
  (deliver (emitBatch true events) (onRustEvents fromUtf8 (some handle))).map
    fun posted => posted.map fun p => .events (p.2.map RustEvent.seen)

/-- What the file callback posts; the driver hands out one result at a time. -/
def postFile (result : FileResult) : Option (Option Batch) :=
  (deliver (emitFileResults true [result]) (onFileResults fromUtf8 (some handle))).map
    fun posted => posted.map fun p => .files (p.2.map FsResult.seen)

/-- What the task callback posts. -/
def postTask (result : Core.ExecResult) : Option (Option Batch) :=
  (deliver (emitTaskResults true [result]) (onExecResults fromUtf8 (some handle))).map
    fun posted => posted.map fun p => .execs (p.2.map ExecResult.seen)

/-- The strings of the core, as Qt decodes them. -/
def decoded (s : Text) : QString :=
  (if (replaceNul s).head? = some byteOrderMark then (replaceNul s).tail
    else replaceNul s).flatMap utf16

/-- The batch that arrives. -/
def eventBatch (events : List SessionEvent) : Option Batch :=
  if events = [] then none else some (.events (events.map fun ev => (RustEvent.of decoded ev).seen))

/-- The batch in which a file result arrives. -/
def fileBatch (result : FileResult) : Batch := .files [(FsResult.of decoded result).seen]

/-- The batch in which a command's result arrives. -/
def taskBatch (result : Core.ExecResult) : Batch := .execs [(ExecResult.of decoded result).seen]

/-- What the bridge copies of a batch of events, none left out. -/
theorem postEvents_eq (events : List SessionEvent) :
    postEvents handle events = some (eventBatch events) := by
  unfold eventBatch
  split
  · next hempty =>
    subst hempty
    rfl
  · next hne => exact ((carries_fromUtf8 Nat).posted decoded handle).1 events hne

/-- What the bridge copies of a file result. -/
theorem postFile_eq (result : FileResult) :
    postFile handle result = some (some (fileBatch result)) :=
  ((carries_fromUtf8 Nat).posted decoded handle).2.1 [result] (List.cons_ne_nil _ _)

/-- What the bridge copies of a command's result. -/
theorem postTask_eq (result : Core.ExecResult) :
    postTask handle result = some (some (taskBatch result)) :=
  ((carries_fromUtf8 Nat).posted decoded handle).2.2 [result] (List.cons_ne_nil _ _)

end RustCoreBridge

open RustCoreBridge

/-- What the driver has added since. -/
def added {α : Type} (before after : List α) : List α := after.drop before.length

/-- The callbacks that the driver makes from `d` to `d'`; `none` where one of them reads behind a
buffer. -/
def calledBack (handle : Nat) (d d' : Driver) : Option (List Batch) :=
  ((added d.emitted d'.emitted).mapM (postEvents handle)).bind fun events =>
    ((added d.fileSink d'.fileSink).mapM (postFile handle)).bind fun files =>
      ((added d.taskSink d'.taskSink).mapM (postTask handle)).map fun tasks =>
        (events ++ files ++ tasks).filterMap id

/-- The batches that arrive. -/
def batchesOf (batches : List (List SessionEvent)) (files : List FileResult)
    (tasks : List Core.ExecResult) : List Batch :=
  batches.filterMap eventBatch ++ files.map fileBatch ++ tasks.map taskBatch

theorem added_append {α : Type} (l more : List α) : added l (l ++ more) = more :=
  List.drop_left

theorem mapM_some {α β : Type} {f : α → Option β} {g : α → β} (h : ∀ a, f a = some (g a))
    (l : List α) : l.mapM f = some (l.map g) := by
  induction l with
  | nil => rfl
  | cons a l ih => rw [List.mapM_cons, h, ih]; rfl

/-- **No callback reads behind a buffer**, and every batch arrives. -/
theorem calledBack_eq (handle : Nat) {d d' : Driver} {batches : List (List SessionEvent)}
    {files : List FileResult} {tasks : List Core.ExecResult}
    (hemitted : d'.emitted = d.emitted ++ batches) (hfiles : d'.fileSink = d.fileSink ++ files)
    (htasks : d'.taskSink = d.taskSink ++ tasks) :
    calledBack handle d d' = some (batchesOf batches files tasks) := by
  unfold calledBack batchesOf
  rw [hemitted, hfiles, htasks, added_append, added_append, added_append,
    mapM_some (postEvents_eq handle), mapM_some (postFile_eq handle),
    mapM_some (postTask_eq handle)]
  have hkept : ∀ {α : Type} (f : α → Batch) (l : List α),
      (l.map fun a => some (f a)).filterMap id = l.map f := by
    intro α f l
    rw [List.filterMap_map]
    exact congrFun List.filterMap_eq_map l
  simp only [Option.bind_some, Option.map_some, List.filterMap_append, hkept, List.filterMap_map]
  rfl

/-! ## §2. The system. -/

/-- The UI thread and the driver of the session there is. -/
structure Application where
  ui : UiThread
  driver : Option Driver

/-- What can happen next. -/
inductive AppLabel
  | user (action : UiAction)
  /-- A step of the driver's own, or a signal to it. -/
  | core (a : Action)
  | deliver
  deriving Repr

namespace Application

/-- The application as it starts. -/
def initial (servers : List ServerItem) (credentials : QString → Option (List UInt8)) :
    Application :=
  { ui := .initial servers credentials, driver := none }

/-- What the controller has sent goes to the driver of its session.  A new session has a new driver,
whose callbacks are registered before anything is sent. -/
def handOver (before : Option (Nat × List Command)) (driver : Option Driver) :
    Option (Nat × List Command) → Option Driver
  | none => none
  | some (handle, sent) =>
    match before with
    | some (handle', sent') =>
      if handle = handle' then
        driver.map fun d => { d with cmdRx := d.cmdRx ++ added sent' sent }
      else some (.spawned sent)
    | none => some (.spawned sent)

/-- The UI thread has taken a step. -/
def follow (s : Application) (ui : UiThread) : Application :=
  { ui := ui
    driver := handOver s.ui.controller.traffic.link s.driver ui.controller.traffic.link }

/-- The UI thread after the driver has called back, and has perhaps returned. -/
def heard (ui : UiThread) (handle : Nat) (batches : List Batch) (ended : Bool) : UiThread :=
  { ui with
    queue := ui.queue ++ batches.map fun batch => { session := handle, batch := batch }
    controller := if ended then { ui.controller with
        session := ui.controller.session.map fun x => { x with stopped := true } }
      else ui.controller }

/-- One thing happens, and the driver is told what the user's thread has sent. -/
def step (s : Application) : AppLabel → Option Application
  | .user action => (s.ui.step (.user action)).map s.follow
  | .deliver => (s.ui.step .deliver).map s.follow
  | .core a =>
    if a.ofHandle then none
    else
      match s.ui.controller.live, s.driver with
      | some handle, some d =>
        (d.step a).bind fun d' => (calledBack handle d d').map fun batches =>
          { ui := heard s.ui handle batches d'.ended, driver := some d' }
      | _, _ => none

/-! ## §3. A view of the UI thread. -/

/-- The labels that a step of the driver has on the UI thread. -/
def heardLabels (batches : List Batch) (ended : Bool) : List UiLabel :=
  batches.map .calls ++ (if ended then [.driverStops] else [])

/-- The batches are posted behind one another while their session lives. -/
theorem exec_calls {handle : Nat} (batches : List Batch) {ui : UiThread}
    (hlive : ui.controller.live = some handle) :
    exec UiThread.step ui (batches.map .calls)
      = some { ui with
          queue := ui.queue ++ batches.map fun batch => { session := handle, batch := batch } } := by
  induction batches generalizing ui with
  | nil => simp
  | cons batch batches ih =>
    have hstep : ui.step (.calls batch) = some { ui with
        queue := ui.queue ++ [{ session := handle, batch := batch }] } := by
      simp only [UiThread.step, hlive]
    rw [List.map_cons, exec_cons, hstep, Option.bind_some, ih (by exact hlive), List.append_assoc]
    rfl

/-- What is heard of a driver's step is made of steps of the user's thread. -/
theorem exec_heard {handle : Nat} {ui : UiThread} (hlive : ui.controller.live = some handle)
    (batches : List Batch) (ended : Bool) :
    exec UiThread.step ui (heardLabels batches ended) = some (heard ui handle batches ended) := by
  unfold heardLabels heard
  rw [exec_append, exec_calls batches hlive, Option.bind_some]
  cases ended <;> rfl

/-- What a core step is made of. -/
theorem of_step_core {s t : Application} {a : Action} (h : s.step (.core a) = some t) :
    ∃ handle d d' batches, a.ofHandle = false ∧ s.ui.controller.live = some handle
      ∧ s.driver = some d ∧ d.step a = some d' ∧ calledBack handle d d' = some batches
      ∧ t = { ui := heard s.ui handle batches d'.ended, driver := some d' } := by
  obtain ⟨hown, h⟩ := Option.ite_none_left_eq_some.mp h
  cases hlive : s.ui.controller.live with
  | none =>
    rw [hlive] at h
    cases h
  | some handle =>
    cases hdriver : s.driver with
    | none =>
      rw [hlive, hdriver] at h
      cases h
    | some d =>
      rw [hlive, hdriver] at h
      obtain ⟨d', hstep, h⟩ := Option.bind_eq_some_iff.mp h
      obtain ⟨batches, hcalled, rfl⟩ := Option.map_eq_some_iff.mp h
      exact ⟨handle, d, d', batches, Bool.not_eq_true _ ▸ hown, rfl, rfl, hstep, hcalled, rfl⟩

/-- The user acts, and the driver is told. -/
theorem of_step_user {s t : Application} {action : UiAction} (h : s.step (.user action) = some t) :
    t = s.follow { s.ui with controller := action.run s.ui.nextHandle s.ui.controller
                             nextHandle := s.ui.nextHandle + 1 } :=
  (Option.some.inj h).symm

/-- The oldest batch is delivered, and the driver is told. -/
theorem of_step_deliver {s t : Application} (h : s.step .deliver = some t) :
    ∃ posted rest, s.ui.queue = posted :: rest ∧ t = s.follow { s.ui with
      controller := s.ui.controller.ingest posted.batch, queue := rest } := by
  change (s.ui.step .deliver).map s.follow = some t at h
  obtain ⟨ui, hui, rfl⟩ := Option.map_eq_some_iff.mp h
  obtain ⟨posted, rest, hqueue, rfl⟩ := UiThread.of_step_deliver hui
  exact ⟨posted, rest, hqueue, rfl⟩

/-- **The application runs on the UI thread**: its steps are steps of the thread. -/
theorem step_ui {s t : Application} {l : AppLabel} (h : s.step l = some t) :
    ∃ labels, exec UiThread.step s.ui labels = some t.ui := by
  cases l with
  | user action =>
    rw [of_step_user h]
    exact ⟨[.user action], rfl⟩
  | deliver =>
    obtain ⟨posted, rest, hqueue, rfl⟩ := of_step_deliver h
    refine ⟨[.deliver], ?_⟩
    simp only [exec_singleton, UiThread.step, hqueue]
    rfl
  | core a =>
    obtain ⟨handle, d, d', batches, -, hlive, -, -, -, rfl⟩ := of_step_core h
    exact ⟨heardLabels batches d'.ended, exec_heard hlive batches d'.ended⟩

/-! ## §4. Requests and results. -/

/-- The file results in a batch. -/
def filesOf : Batch → List FsResult
  | .files batch => batch
  | _ => []

/-- What the core can answer to the operation, as it arrives. -/
def Agrees (op : FsOp) (result : FsResult) : Prop :=
  ∃ payload : FilePayload, payload.Answers op
    ∧ result = (FsResult.of decoded { requestId := result.requestId, payload := payload }).seen

/-- The driver is that of the session there is. -/
inductive Linked : Option (Nat × List Command) → Option Driver → Prop
  | off : Linked none none
  | on {handle : Nat} {sent : List Command} {d : Driver} (hserves : d.Serves sent) :
      Linked (some (handle, sent)) (some d)

/-- A file request that the driver owes, or whose result is on its way. -/
def ComesFile (handle : Nat) (d : Driver) (queue : List Posted) (requestId : UInt64) : Prop :=
  requestId ∈ d.owedFiles
    ∨ ∃ batch, { session := handle, batch := batch } ∈ queue ∧ requestId ∈ batch.fileIds

/-- A command that the driver owes, or whose result is on its way. -/
def ComesTask (handle : Nat) (d : Driver) (queue : List Posted) (requestId : UInt64) : Prop :=
  requestId ∈ d.owedTasks
    ∨ ∃ batch, { session := handle, batch := batch } ∈ queue ∧ requestId ∈ batch.taskIds

/-- What is kept about requests and results. -/
structure Holds (a : Traffic) (driver : Option Driver) (queue : List Posted) (next : Nat) : Prop
    where
  settled : a.Settled
  linked : Linked a.link driver
  young : ∀ l, a.link = some l → l.1 < next
  old : ∀ posted ∈ queue, posted.session < next
  files : ∀ handle sent d, a.link = some (handle, sent) → driver = some d →
    ∀ id entry, a.fsPending id = some entry → ComesFile handle d queue id
  tasks : ∀ handle sent d, a.link = some (handle, sent) → driver = some d →
    ∀ id entry, a.execPending id = some entry → ComesTask handle d queue id
  asked : ∀ handle sent, a.link = some (handle, sent) → ∀ id entry, a.fsPending id = some entry →
    ∃ op, .fs id op ∈ sent ∧ entry.Fits op
  answered : ∀ handle sent, a.link = some (handle, sent) →
    ∀ batch, { session := handle, batch := batch } ∈ queue → ∀ result ∈ filesOf batch,
      ∃ op, .fs result.requestId op ∈ sent ∧ Agrees op result

variable {a b : Traffic} {driver : Option Driver} {queue : List Posted} {next : Nat}

/-- Nothing is waited for at the start. -/
theorem Holds.initial (servers : List ServerItem) (credentials : QString → Option (List UInt8)) :
    Holds (initial servers credentials).ui.controller.traffic none [] 0 where
  settled := fun _ => ⟨fun _ => rfl, fun _ => rfl⟩
  linked := .off
  young := fun _ => nofun
  old := fun _ => nofun
  files := fun _ _ _ => nofun
  tasks := fun _ _ _ => nofun
  asked := fun _ _ => nofun
  answered := fun _ _ => nofun

/-- The counter of the session plays no part in it. -/
theorem Holds.recount (h : Holds a driver queue next) (counter : Option UInt64) :
    Holds { a with counter := counter } driver queue next :=
  ⟨h.settled, h.linked, h.young, h.old, h.files, h.tasks, h.asked, h.answered⟩

/-- Handles only grow. -/
theorem Holds.succ (h : Holds a driver queue next) : Holds a driver queue (next + 1) :=
  { h with young := fun l hl => Nat.lt_succ_of_lt (h.young l hl)
           old := fun posted hmem => Nat.lt_succ_of_lt (h.old posted hmem) }

/-- The batch at the front is taken, and what it answers does not wait any more. -/
theorem Holds.taken {posted : Posted} {rest : List Posted}
    (h : Holds a driver (posted :: rest) next) :
    Holds (a.answered posted.batch) driver rest next where
  settled := h.settled.answered posted.batch
  linked := h.linked
  young := h.young
  old := fun p hp => h.old p (List.mem_cons_of_mem _ hp)
  files := by
    intro handle sent d hlink hdriver id entry hentry
    obtain ⟨hnot, hold⟩ := Option.ite_none_left_eq_some.mp hentry
    refine (h.files handle sent d hlink hdriver id entry hold).imp_right ?_
    rintro ⟨batch, hmem, hid⟩
    obtain heq | hrest := List.mem_cons.mp hmem
    · rw [← heq] at hnot
      exact absurd hid hnot
    · exact ⟨batch, hrest, hid⟩
  tasks := by
    intro handle sent d hlink hdriver id entry hentry
    obtain ⟨hnot, hold⟩ := Option.ite_none_left_eq_some.mp hentry
    refine (h.tasks handle sent d hlink hdriver id entry hold).imp_right ?_
    rintro ⟨batch, hmem, hid⟩
    obtain heq | hrest := List.mem_cons.mp hmem
    · rw [← heq] at hnot
      exact absurd hid hnot
    · exact ⟨batch, hrest, hid⟩
  asked := by
    intro handle sent hlink id entry hentry
    exact h.asked handle sent hlink id entry (Option.ite_none_left_eq_some.mp hentry).2
  answered := fun handle sent hlink batch hmem =>
    h.answered handle sent hlink batch (List.mem_cons_of_mem _ hmem)

/-- What the driver of the same session is given. -/
theorem handOver_more {handle : Nat} {sent new : List Command} {d : Driver} :
    handOver (some (handle, sent)) (some d) (some (handle, sent ++ new))
      = some { d with cmdRx := d.cmdRx ++ new } := by
  unfold handOver
  dsimp only
  rw [if_pos rfl, added_append]
  rfl

/-- The session is sent something more. -/
theorem Holds.asks {ops : List FsOp} (h : Holds a driver queue next)
    (hasks : Traffic.Asks ops a b) : Holds b (handOver a.link driver b.link) queue next := by
  have hsettled := h.settled.asks hasks
  obtain ⟨new, hsends, -⟩ := hasks
  have hlink := hsends.link
  cases hold : a.link with
  | none =>
    rw [hold, Option.map_none] at hlink
    rw [hlink]
    have hnone : ∀ l, b.link ≠ some l := fun l hl => absurd (hlink.symm.trans hl) nofun
    exact ⟨hsettled, by rw [hlink]; exact .off, fun l hl => absurd hl (hnone l), h.old,
      fun _ _ _ hl => absurd hl (hnone _), fun _ _ _ hl => absurd hl (hnone _),
      fun _ _ hl => absurd hl (hnone _), fun _ _ hl => absurd hl (hnone _)⟩
  | some l =>
    obtain ⟨handle, sent⟩ := l
    rw [hold, Option.map_some] at hlink
    have hlinked := h.linked
    rw [hold] at hlinked
    cases hlinked with
    | on hserves =>
    rename_i d
    rw [hlink, handOver_more]
    have hsame : ∀ {handle' sent'}, b.link = some (handle', sent') →
        handle' = handle ∧ sent' = sent ++ new := by
      intro handle' sent' hl
      rw [hlink, Option.some.injEq, Prod.mk.injEq] at hl
      exact ⟨hl.1.symm, hl.2.symm⟩
    refine ⟨hsettled, hlink ▸ .on (hserves.submit new), ?_, h.old, ?_, ?_, ?_, ?_⟩
    · intro l hl
      rw [(hsame hl).1]
      exact h.young _ hold
    · intro handle' sent' d' hl hd id entry hentry
      obtain ⟨rfl, -⟩ := hsame hl
      obtain rfl := Option.some.inj hd
      -- it has waited before, or waits for a request that is queued now
      obtain hwaits | ⟨op, hop, -⟩ := hsends.files id entry hentry
      · refine (h.files _ sent d hold rfl id entry hwaits).imp_left fun howed => ?_
        exact Driver.owedFiles_submit _ _ ▸ List.mem_append_left _ howed
      · exact .inl (Driver.owedFiles_submit _ _ ▸ List.mem_append_right _
          (List.mem_filterMap.mpr ⟨_, hop, rfl⟩))
    · intro handle' sent' d' hl hd id entry hentry
      obtain ⟨rfl, -⟩ := hsame hl
      obtain rfl := Option.some.inj hd
      obtain hwaits | ⟨command, timeoutMs, hmem⟩ := hsends.tasks id entry hentry
      · refine (h.tasks _ sent d hold rfl id entry hwaits).imp_left fun howed => ?_
        exact Driver.owedTasks_submit _ _ ▸ List.mem_append_left _ howed
      · exact .inl (Driver.owedTasks_submit _ _ ▸ List.mem_append_right _
          (List.mem_filterMap.mpr ⟨_, hmem, rfl⟩))
    · intro handle' sent' hl id entry hentry
      obtain ⟨rfl, rfl⟩ := hsame hl
      obtain hwaits | ⟨op, hop, hfits⟩ := hsends.files id entry hentry
      · obtain ⟨op, hop, hfits⟩ := h.asked _ sent hold id entry hwaits
        exact ⟨op, List.mem_append_left _ hop, hfits⟩
      · exact ⟨op, List.mem_append_right _ hop, hfits⟩
    · intro handle' sent' hl batch hmem result hresult
      obtain ⟨rfl, rfl⟩ := hsame hl
      obtain ⟨op, hop, hagrees⟩ := h.answered _ sent hold batch hmem result hresult
      exact ⟨op, List.mem_append_left _ hop, hagrees⟩

/-- There is another session, or none, and nothing waits. -/
theorem Holds.renewed (h : Holds a driver queue next) (hfiles : ∀ id, b.fsPending id = none)
    (htasks : ∀ id, b.execPending id = none) (hlink : ∀ l, b.link = some l → l.1 = next) :
    Holds b (handOver a.link driver b.link) queue (next + 1) := by
  have hlinked : Linked b.link (handOver a.link driver b.link) := by
    cases hnew : b.link with
    | none => exact .off
    | some l =>
      obtain ⟨handle, sent⟩ := l
      have hhandle : handle = next := hlink _ hnew
      cases hold : a.link with
      | none => exact .on (.spawned sent)
      | some l' =>
        -- a handle is never given out again
        have hne : handle ≠ l'.1 := by
          have := h.young l' hold
          omega
        unfold handOver
        dsimp only
        rw [if_neg hne]
        exact .on (.spawned sent)
  refine ⟨fun _ => ⟨hfiles, htasks⟩, hlinked, ?_, ?_, ?_, ?_, ?_, ?_⟩
  · intro l hl
    rw [hlink l hl]
    exact Nat.lt_succ_self next
  · exact fun posted hmem => Nat.lt_succ_of_lt (h.old posted hmem)
  · exact fun _ _ _ _ _ id entry hentry => absurd ((hfiles id).symm.trans hentry) nofun
  · exact fun _ _ _ _ _ id entry hentry => absurd ((htasks id).symm.trans hentry) nofun
  · exact fun _ _ _ id entry hentry => absurd ((hfiles id).symm.trans hentry) nofun
  · intro handle sent hl batch hmem
    have hyoung : handle < next := h.old _ hmem
    have hhandle : handle = next := hlink _ hl
    omega

/-! ## §5. What the driver hands out. -/

/-- The id of a file result arrives. -/
theorem requestId_file (r : FileResult) : (FsResult.of decoded r).seen.requestId = r.requestId := by
  unfold FsResult.of
  cases r.payload <;> rfl

/-- The id of a command's result arrives. -/
theorem requestId_task (r : Core.ExecResult) :
    (ExecResult.of decoded r).seen.requestId = r.requestId := by
  unfold ExecResult.of
  cases r.payload <;> rfl

/-- Only the batches of file results have file results. -/
theorem of_mem_filesOf {batches : List (List SessionEvent)} {files : List FileResult}
    {tasks : List Core.ExecResult} {batch : Batch} (hbatch : batch ∈ batchesOf batches files tasks)
    {result : FsResult} (h : result ∈ filesOf batch) :
    ∃ r ∈ files, result = (FsResult.of decoded r).seen := by
  unfold batchesOf at hbatch
  rw [List.mem_append, List.mem_append] at hbatch
  obtain (hevent | hfile) | htask := hbatch
  · obtain ⟨events, -, hevents⟩ := List.mem_filterMap.mp hevent
    obtain ⟨-, hbatch⟩ := Option.ite_none_left_eq_some.mp hevents
    rw [← Option.some.inj hbatch] at h
    cases h
  · obtain ⟨r, hr, rfl⟩ := List.mem_map.mp hfile
    exact ⟨r, hr, List.mem_singleton.mp h⟩
  · obtain ⟨r, -, rfl⟩ := List.mem_map.mp htask
    cases h

/-- The driver has done something, and called back. -/
theorem Holds.turns {handle : Nat} {sent : List Command} {d d' : Driver}
    (h : Holds a (some d) queue next) (hlink : a.link = some (handle, sent))
    (hserves : d'.Serves sent) {batches : List (List SessionEvent)} {files : List FileResult}
    {tasks : List Core.ExecResult} {calls : List ProviderCall}
    (hadvances : Driver.Advances files tasks calls d d') :
    Holds a (some d') (queue ++ (batchesOf batches files tasks).map fun batch =>
      { session := handle, batch := batch }) next := by
  have hsame : ∀ {handle' sent'}, a.link = some (handle', sent') →
      handle' = handle ∧ sent' = sent := by
    intro handle' sent' hl
    rw [hlink, Option.some.injEq, Prod.mk.injEq] at hl
    exact ⟨hl.1.symm, hl.2.symm⟩
  have hposted : ∀ batch ∈ batchesOf batches files tasks,
      ({ session := handle, batch := batch } : Posted) ∈ queue ++
        (batchesOf batches files tasks).map fun batch => { session := handle, batch := batch } :=
    fun batch hbatch => List.mem_append_right _ (List.mem_map.mpr ⟨batch, hbatch, rfl⟩)
  refine ⟨h.settled, by rw [hlink]; exact .on hserves, h.young, ?_, ?_, ?_, h.asked, ?_⟩
  · intro posted hmem
    obtain hold | hnew := List.mem_append.mp hmem
    · exact h.old posted hold
    · -- posted now, by the live session
      obtain ⟨batch, -, rfl⟩ := List.mem_map.mp hnew
      exact h.young _ hlink
  · intro handle' sent' e hl he id entry hentry
    obtain ⟨rfl, -⟩ := hsame hl
    obtain rfl := Option.some.inj he
    obtain howed | ⟨batch, hmem, hid⟩ := h.files _ sent d hlink rfl id entry hentry
    · rw [hadvances.owedFiles] at howed
      obtain hout | hstill := List.mem_append.mp howed
      · -- the result is handed out by this step
        obtain ⟨r, hr, rfl⟩ := List.mem_map.mp hout
        refine .inr ⟨fileBatch r, hposted _ ?_, ?_⟩
        · exact List.mem_append_left _ (List.mem_append_right _ (List.mem_map.mpr ⟨r, hr, rfl⟩))
        · exact List.mem_singleton.mpr (requestId_file r).symm
      · exact .inl hstill
    · exact .inr ⟨batch, List.mem_append_left _ hmem, hid⟩
  · intro handle' sent' e hl he id entry hentry
    obtain ⟨rfl, -⟩ := hsame hl
    obtain rfl := Option.some.inj he
    obtain howed | ⟨batch, hmem, hid⟩ := h.tasks _ sent d hlink rfl id entry hentry
    · rw [hadvances.owedTasks] at howed
      obtain hout | hstill := List.mem_append.mp howed
      · obtain ⟨r, hr, rfl⟩ := List.mem_map.mp hout
        refine .inr ⟨taskBatch r, hposted _ ?_, ?_⟩
        · exact List.mem_append_right _ (List.mem_map.mpr ⟨r, hr, rfl⟩)
        · exact List.mem_singleton.mpr (requestId_task r).symm
      · exact .inl hstill
    · exact .inr ⟨batch, List.mem_append_left _ hmem, hid⟩
  · intro handle' sent' hl batch hmem result hresult
    obtain ⟨rfl, rfl⟩ := hsame hl
    obtain hold | hnew := List.mem_append.mp hmem
    · exact h.answered _ _ hlink batch hold result hresult
    · -- posted now: the result answers an operation that was sent
      obtain ⟨batch', hbatch, heq⟩ := List.mem_map.mp hnew
      obtain rfl : batch' = batch := congrArg Posted.batch heq
      obtain ⟨r, hr, rfl⟩ := of_mem_filesOf hbatch hresult
      obtain ⟨op, hop, hanswers⟩ := hadvances.answersFiles r hr
      rw [requestId_file]
      refine ⟨op, ?_, r.payload, hanswers, ?_⟩
      · rw [← hserves.queue]
        exact List.mem_append_left _ hop
      · rw [requestId_file]

/-! ## §6. Runs. -/

/-- The invariant of a run. -/
def Sound (s : Application) : Prop :=
  Holds s.ui.controller.traffic s.driver s.ui.queue s.ui.nextHandle

/-- The session that is live is the one that is linked. -/
theorem live_eq (c : AppController) : c.live = c.traffic.link.map Prod.fst := by
  unfold AppController.live AppController.traffic
  rw [Option.map_map]
  rfl

/-- A driver that ends stops the counter. -/
theorem traffic_heard (ui : UiThread) (handle : Nat) (batches : List Batch) (ended : Bool) :
    (heard ui handle batches ended).controller.traffic
      = { ui.controller.traffic with
          counter := (heard ui handle batches ended).controller.traffic.counter } := by
  cases ended with
  | false => rfl
  | true =>
    show Traffic.mk ((ui.controller.session.map _).map _) _ _ _ = _
    rw [Option.map_map]
    rfl

/-- **One step** of the application keeps it. -/
theorem Sound.step {s t : Application} {l : AppLabel} (h : s.Sound) (hstep : s.step l = some t) :
    t.Sound := by
  cases l with
  | user action =>
    rw [of_step_user hstep]
    cases action.traffic_run s.ui.nextHandle h.settled with
    | asks hasks => exact (Holds.asks h hasks).succ
    | renewed hfiles htasks hlink _ =>
      exact Holds.renewed h hfiles htasks fun l hl => (hlink l hl).1
  | deliver =>
    obtain ⟨posted, rest, hqueue, rfl⟩ := of_step_deliver hstep
    have hholds : Holds s.ui.controller.traffic s.driver (posted :: rest) s.ui.nextHandle := by
      rw [← hqueue]
      exact h
    exact hholds.taken.asks (s.ui.controller.traffic_ingest posted.batch)
  | core a =>
    obtain ⟨handle, d, d', batches, hown, hlive, hdriver, hd, hcalled, rfl⟩ := of_step_core hstep
    have hlinked := h.linked
    rw [hdriver] at hlinked
    obtain ⟨x, hx, hhandle⟩ := Option.map_eq_some_iff.mp hlive
    have hlink : s.ui.controller.traffic.link = some (handle, x.sent) := by
      rw [AppController.traffic, hx, ← hhandle]
      rfl
    rw [hlink] at hlinked
    cases hlinked with
    | on hserves =>
    obtain ⟨hserves', files, tasks, calls, hadvances⟩ := hserves.step hown hd
    obtain ⟨emitted, hemitted⟩ := hadvances.emitted
    rw [calledBack_eq handle hemitted hadvances.fileSink hadvances.taskSink] at hcalled
    obtain rfl := Option.some.inj hcalled
    have hholds : Holds s.ui.controller.traffic (some d) s.ui.queue s.ui.nextHandle := by
      rw [← hdriver]
      exact h
    show Holds (heard _ _ _ _).controller.traffic _ _ _
    rw [traffic_heard]
    exact (hholds.turns hlink hserves' hadvances).recount _

/-- Every reachable application is sound. -/
theorem sound_run {servers : List ServerItem} {credentials : QString → Option (List UInt8)}
    {labels : List AppLabel} {s : Application}
    (hrun : exec step (initial servers credentials) labels = some s) : s.Sound :=
  exec_invariant (fun _ _ _ h hstep => h.step hstep) (Holds.initial servers credentials) hrun

/-! ## §7. Nothing is forgotten. -/

/-- The driver owes nothing, and nothing of the live session is on its way. -/
def Quiet (s : Application) : Prop :=
  (∀ d, s.driver = some d → d.owedFiles = [] ∧ d.owedTasks = [])
    ∧ ∀ posted ∈ s.ui.queue, s.ui.controller.live ≠ some posted.session

/-- The session there is, and its driver. -/
theorem Sound.exists_driver {s : Application} (h : s.Sound)
    (hwaits : ¬ ((∀ id, s.ui.controller.fsPending id = none)
      ∧ ∀ id, s.ui.controller.execPending id = none)) :
    ∃ handle sent d, s.ui.controller.traffic.link = some (handle, sent)
      ∧ s.ui.controller.live = some handle ∧ s.driver = some d := by
  have hlinked := h.linked
  cases hlink : s.ui.controller.traffic.link with
  | none => exact absurd (h.settled hlink) hwaits
  | some l =>
    obtain ⟨handle, sent⟩ := l
    obtain ⟨x, hx, hpair⟩ := Option.map_eq_some_iff.mp hlink
    rw [hlink] at hlinked
    generalize s.driver = driver at hlinked
    cases hlinked with
    | on hserves =>
      refine ⟨handle, sent, _, rfl, ?_, rfl⟩
      rw [AppController.live, hx, ← (Prod.mk.inj hpair).1]
      rfl

/-- What waits for a file result waits for one that will come. -/
theorem Sound.comesFile {s : Application} (h : s.Sound) {id : UInt64} {entry : PendingFs}
    (hentry : s.ui.controller.fsPending id = some entry) :
    ∃ handle d, s.ui.controller.live = some handle ∧ s.driver = some d
      ∧ ComesFile handle d s.ui.queue id := by
  obtain ⟨handle, sent, d, hlink, hlive, hdriver⟩ :=
    h.exists_driver fun hnone => absurd ((hnone.1 id).symm.trans hentry) nofun
  exact ⟨handle, d, hlive, hdriver, h.files handle sent d hlink hdriver id entry hentry⟩

/-- What waits for a command's result waits for one that will come. -/
theorem Sound.comesTask {s : Application} (h : s.Sound) {id : UInt64} {entry : PendingExec}
    (hentry : s.ui.controller.execPending id = some entry) :
    ∃ handle d, s.ui.controller.live = some handle ∧ s.driver = some d
      ∧ ComesTask handle d s.ui.queue id := by
  obtain ⟨handle, sent, d, hlink, hlive, hdriver⟩ :=
    h.exists_driver fun hnone => absurd ((hnone.2 id).symm.trans hentry) nofun
  exact ⟨handle, d, hlive, hdriver, h.tasks handle sent d hlink hdriver id entry hentry⟩

/-- Where all is quiet, nothing waits. -/
theorem Sound.quiet {s : Application} (h : s.Sound) (hquiet : s.Quiet) (id : UInt64) :
    s.ui.controller.fsPending id = none ∧ s.ui.controller.execPending id = none := by
  constructor
  · rw [Option.eq_none_iff_forall_ne_some]
    intro entry hentry
    obtain ⟨handle, d, hlive, hdriver, howed | ⟨batch, hmem, -⟩⟩ := h.comesFile hentry
    · rw [(hquiet.1 d hdriver).1] at howed
      cases howed
    · exact hquiet.2 _ hmem hlive
  · rw [Option.eq_none_iff_forall_ne_some]
    intro entry hentry
    obtain ⟨handle, d, hlive, hdriver, howed | ⟨batch, hmem, -⟩⟩ := h.comesTask hentry
    · rw [(hquiet.1 d hdriver).2] at howed
      cases howed
    · exact hquiet.2 _ hmem hlive

/-- **Nothing is waited for that never comes.**  In every run of the application, whatever the user
does and the providers answer and whatever is still on its way from earlier sessions, each request
that the controller waits for is in the queue of the live driver, being worked on, or answered by a
batch of the live session that is still to be delivered; and where there is nothing of this, the
controller waits for nothing. -/
theorem every_request_comes {servers : List ServerItem}
    {credentials : QString → Option (List UInt8)} {labels : List AppLabel} {s : Application}
    (hrun : exec step (initial servers credentials) labels = some s) :
    (∀ id entry, s.ui.controller.fsPending id = some entry →
      ∃ handle d, s.ui.controller.live = some handle ∧ s.driver = some d
        ∧ ComesFile handle d s.ui.queue id) ∧
    (∀ id entry, s.ui.controller.execPending id = some entry →
      ∃ handle d, s.ui.controller.live = some handle ∧ s.driver = some d
        ∧ ComesTask handle d s.ui.queue id) ∧
    (s.Quiet → ∀ id, s.ui.controller.fsPending id = none
      ∧ s.ui.controller.execPending id = none) :=
  have h := sound_run hrun
  ⟨fun _ _ hentry => h.comesFile hentry, fun _ _ hentry => h.comesTask hentry, h.quiet⟩

/-- The session is up, and its root has been asked for. -/
def connecting : List AppLabel :=
  [.user (.connectToServer 0 none), .core (.createProvider (.ok ())), .core .recv, .core .recv,
    .deliver, .core (.connectReturns (.ok ()) true), .deliver]

/-- The start of the runs below: one server. -/
def oneServer : Application := initial [newServer [] (lit "a") 22 (lit "u") .mock []] fun _ => none

/-- The listing is answered, and the answer is still to be delivered. -/
def listed : List AppLabel := connecting ++ [.core .recv, .core (.fsReturns (.entries []))]

theorem every_request_comes_listing : ∃ s handle d, exec step oneServer listed = some s
    ∧ s.ui.controller.live = some handle ∧ s.driver = some d
    ∧ ComesFile handle d s.ui.queue 1 := by
  obtain ⟨s, hrun⟩ : ∃ s, exec step oneServer listed = some s :=
    Option.isSome_iff_exists.mp (by decide)
  have hview : (exec step oneServer listed).map
      (fun s => (s.ui.controller.fsPending 1).isSome) = some true := by decide
  rw [hrun, Option.map_some, Option.some.injEq] at hview
  obtain ⟨entry, hentry⟩ := Option.isSome_iff_exists.mp hview
  obtain ⟨handle, d, hcomes⟩ := (every_request_comes hrun).1 1 entry hentry
  exact ⟨s, handle, d, hrun, hcomes⟩

/-! ## §8. What comes fits. -/

/-- The payload is one that the entry is made for: no branch for a wrong kind of result is taken. -/
def Takes (entry : PendingFs) : FsPayload → Prop
  | .listing _ => entry.kind = .listing
  | .content _ => entry.kind = .editorOpen
  | .ok => entry.kind = .editorSave ∨ entry.kind = .mutate
  | .error _ _ => True

end Application

end ResearchSSH.App
