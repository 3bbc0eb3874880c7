/-
  ResearchSSH.App.RequestIds — a session of fewer than 2^64 requests gives out no id twice.

  The requests that a session was sent have its first ids, one after another.  What waits in a table
  waits under one of them.  So as long as the counter has not gone around, the ids of the requests
  that come next are those of nobody.

  Main results:
    * `Counted.feed`               — one input.
    * `AppController.ids_kept`     — the conditions on ids hold along every run of such sessions.
    * `Application.ids_kept`, `Application.fsIds_nodup` — and so they do for the application.
-/

import ResearchSSH.App.QuietApplication

namespace ResearchSSH.App

open ResearchSSH.Core ResearchSSH.Library

/-! ## §1. First ids. -/

/-- The first ids are distinct until the counter has gone around. -/
theorem nodup_firstIds {n : Nat} (h : n < UInt64.size) : (firstIds n).Nodup := by
  refine List.Nodup.map_on ?_ List.nodup_range
  intro k hk k' hk' hids
  rw [List.mem_range] at hk hk'
  have hnats := congrArg UInt64.toNat hids
  rw [UInt64.toNat_ofNat', UInt64.toNat_ofNat', Nat.mod_eq_of_lt, Nat.mod_eq_of_lt] at hnats
  · omega
  · exact Nat.lt_of_le_of_lt hk' h
  · exact Nat.lt_of_le_of_lt hk h

/-- The ids of file requests are among the ids. -/
theorem fsIds_sublist (commands : List Command) :
    (commands.filterMap Command.fsId).Sublist (requestIds commands) := by
  induction commands with
  | nil => exact List.Sublist.refl []
  | cons cmd commands ih =>
    cases cmd with
    | fs requestId op => exact ih.cons_cons requestId
    | exec requestId command timeoutMs => exact ih.cons requestId
    | _ => exact ih

/-! ## §2. What waits was sent. -/

namespace Traffic

variable {a b : Traffic} {ops : List FsOp}

/-- The requests of the session have its first ids, and what waits in the tables was sent to it. -/
structure Counted (a : Traffic) : Prop where
  numbered : a.Numbered
  files : ∀ id entry, a.fsPending id = some entry →
    ∃ handle ids, a.asked = some (handle, ids) ∧ id ∈ ids
  tasks : ∀ id entry, a.execPending id = some entry →
    ∃ handle ids, a.asked = some (handle, ids) ∧ id ∈ ids

/-- Without a session nothing waits. -/
theorem Counted.settled (h : Counted a) : Settled a := by
  intro hidle
  have hnone : a.asked = none := by
    rw [asked, hidle]
    rfl
  refine ⟨fun id => ?_, fun id => ?_⟩
  · rw [Option.eq_none_iff_forall_ne_some]
    intro entry hentry
    obtain ⟨handle, ids, hasked, -⟩ := h.files id entry hentry
    exact absurd (hasked.symm.trans hnone) (Option.some_ne_none _)
  · rw [Option.eq_none_iff_forall_ne_some]
    intro entry hentry
    obtain ⟨handle, ids, hasked, -⟩ := h.tasks id entry hentry
    exact absurd (hasked.symm.trans hnone) (Option.some_ne_none _)

/-- What was sent before is still there. -/
theorem Sends.asked_old {new : List Command} (h : Sends new a b) {id : UInt64}
    (hold : ∃ handle ids, a.asked = some (handle, ids) ∧ id ∈ ids) :
    ∃ handle ids, b.asked = some (handle, ids) ∧ id ∈ ids := by
  obtain ⟨handle, ids, hasked, hid⟩ := hold
  obtain ⟨l, hl, hpair⟩ := Option.map_eq_some_iff.mp hasked
  obtain ⟨rfl, rfl⟩ := Prod.mk.inj hpair
  refine ⟨l.1, requestIds (l.2 ++ new), ?_, ?_⟩
  · rw [asked, h.link, hl]
    rfl
  · rw [requestIds_append]
    exact List.mem_append_left _ hid

/-- What is sent now is there. -/
theorem Sends.asked_new {new : List Command} (h : Sends new a b) {cmd : Command} {id : UInt64}
    (hcmd : cmd ∈ new) (hid : cmd.requestId = some id) :
    ∃ handle ids, b.asked = some (handle, ids) ∧ id ∈ ids := by
  cases hlink : a.link with
  | none =>
    rw [h.idle hlink] at hcmd
    cases hcmd
  | some l =>
    refine ⟨l.1, requestIds (l.2 ++ new), ?_, ?_⟩
    · rw [asked, h.link, hlink]
      rfl
    · rw [requestIds_append]
      exact List.mem_append_right _ (List.mem_filterMap.mpr ⟨cmd, hcmd, hid⟩)

/-- Requests are counted. -/
theorem Counted.asks (h : Counted a) (h' : Asks ops a b) : Counted b := by
  obtain ⟨new, hsends, -⟩ := h'
  refine ⟨hsends.numbered h.numbered, fun id entry hentry => ?_, fun id entry hentry => ?_⟩
  · obtain hold | ⟨op, hop, -⟩ := hsends.files id entry hentry
    · exact hsends.asked_old (h.files id entry hold)
    · exact hsends.asked_new hop rfl
  · obtain hold | ⟨command, timeoutMs, hcmd⟩ := hsends.tasks id entry hentry
    · exact hsends.asked_old (h.tasks id entry hold)
    · exact hsends.asked_new hcmd rfl

/-- A batch only takes entries away. -/
theorem Counted.answered (h : Counted a) (batch : Batch) : Counted (a.answered batch) where
  numbered := h.numbered
  files := by
    intro id entry hentry
    exact h.files id entry (Option.ite_none_left_eq_some.mp hentry).2
  tasks := by
    intro id entry hentry
    exact h.tasks id entry (Option.ite_none_left_eq_some.mp hentry).2

/-- Also when a session begins or ends. -/
theorem Counted.outcome {handle : Nat} (h : Counted a) (h' : Outcome handle ops a b) :
    Counted b := by
  cases h' with
  | asks hasks => exact h.asks hasks
  | renewed hfiles htasks _ hnumbered =>
    refine ⟨hnumbered, fun id entry hentry => ?_, fun id entry hentry => ?_⟩
    · exact absurd ((hfiles id).symm.trans hentry) nofun
    · exact absurd ((htasks id).symm.trans hentry) nofun

/-- A session that takes no requests any more counts none. -/
theorem Counted.stopped (h : Counted a) (hasked : b.asked = a.asked)
    (hcounter : b.counter = none ∨ b.counter = a.counter) (hfiles : b.fsPending = a.fsPending)
    (htasks : b.execPending = a.execPending) : Counted b where
  numbered := by
    intro handle ids hids
    rw [hasked] at hids
    obtain ⟨hfirst, hcount⟩ := h.numbered handle ids hids
    refine ⟨hfirst, fun last hlast => ?_⟩
    obtain hnone | hsame := hcounter
    · exact absurd (hnone.symm.trans hlast) nofun
    · exact hcount last (hsame.symm.trans hlast)
  files := by
    rw [hfiles, hasked]
    exact h.files
  tasks := by
    rw [htasks, hasked]
    exact h.tasks

end Traffic

/-! ## §3. One input. -/

namespace AppController

variable {c d : AppController}

/-- The requests of the session have its first ids, and what waits was sent to it. -/
abbrev Counted (c : AppController) : Prop := c.traffic.Counted

/-- Fewer requests than there are ids. -/
def FewRequests (c : AppController) : Prop := c.sentIds.length < UInt64.size

/-- The ids that the session was sent. -/
theorem sentIds_of_asked {handle : Nat} {ids : List UInt64}
    (h : c.traffic.asked = some (handle, ids)) : c.sentIds = ids := by
  obtain ⟨l, hl, hpair⟩ := Option.map_eq_some_iff.mp h
  rw [sentIds_of_link hl]
  exact (Prod.mk.inj hpair).2

/-- Nothing was sent at the start. -/
theorem counted_initial (servers : List ServerItem) (credentials : QString → Option (List UInt8)) :
    (AppController.initial servers credentials).Counted :=
  ⟨.gone rfl, fun _ _ => nofun, fun _ _ => nofun⟩

/-- No id is given out twice. -/
theorem Counted.nodup (h : c.Counted) (hfew : c.FewRequests) : c.sentIds.Nodup := by
  cases hlink : c.traffic.link with
  | none =>
    rw [sentIds_of_idle hlink]
    exact List.nodup_nil
  | some l =>
    have hids := (h.numbered l.1 (requestIds l.2) (by rw [Traffic.asked, hlink]; rfl)).1
    rw [FewRequests, sentIds_of_link hlink] at hfew
    rw [sentIds_of_link hlink, hids]
    exact nodup_firstIds hfew

/-- Under an id that was not sent nothing waits. -/
theorem Counted.waits (h : c.Counted) {id : UInt64} (hid : id ∉ c.sentIds) :
    c.fsPending id = none ∧ c.execPending id = none := by
  refine ⟨?_, ?_⟩
  · rw [Option.eq_none_iff_forall_ne_some]
    intro entry hentry
    obtain ⟨handle, ids, hasked, hmem⟩ := h.files id entry hentry
    exact hid (sentIds_of_asked hasked ▸ hmem)
  · rw [Option.eq_none_iff_forall_ne_some]
    intro entry hentry
    obtain ⟨handle, ids, hasked, hmem⟩ := h.tasks id entry hentry
    exact hid (sentIds_of_asked hasked ▸ hmem)

/-- Ids are only added. -/
theorem sentIds_of_asks {ops : List FsOp} {a : Traffic} (hlink : a.link = c.traffic.link)
    (h : Traffic.Asks ops a d.traffic) : ∃ more, d.sentIds = c.sentIds ++ more := by
  obtain ⟨new, hsends, -⟩ := h
  have hnow := hsends.link
  rw [hlink] at hnow
  cases hold : c.traffic.link with
  | none =>
    rw [hold] at hnow
    exact ⟨[], by rw [sentIds_of_idle hold, sentIds_of_idle hnow]; rfl⟩
  | some l =>
    rw [hold] at hnow
    refine ⟨requestIds new, ?_⟩
    rw [sentIds_of_link hold, sentIds_of_link hnow]
    exact Traffic.requestIds_append _ _

/-- What a result, an event or a stop adds. -/
theorem sentIds_take (c : AppController) (item : Item) :
    ∃ more, (c.take item).sentIds = c.sentIds ++ more := by
  cases item with
  | event ev => exact sentIds_of_asks rfl (c.traffic_ingestRustEvent ev)
  | file result =>
    exact sentIds_of_asks (a := c.traffic.answered (.files [result])) rfl
      (c.traffic_ingestFileResult result)
  | exec result =>
    exact sentIds_of_asks (a := c.traffic.answered (.execs [result])) rfl
      (c.traffic_ingestExecResult result)

/-- A result or an event. -/
theorem Counted.take (h : c.Counted) (item : Item) : (c.take item).Counted := by
  cases item with
  | event ev => exact Traffic.Counted.asks h (c.traffic_ingestRustEvent ev)
  | file result =>
    exact (Traffic.Counted.answered h (.files [result])).asks (c.traffic_ingestFileResult result)
  | exec result =>
    exact (Traffic.Counted.answered h (.execs [result])).asks (c.traffic_ingestExecResult result)

/-- The driver is gone, and the session with its requests is still there. -/
theorem asked_stopped (c : AppController) :
    Traffic.asked (traffic { c with session := c.session.map fun x => { x with stopped := true } })
        = c.traffic.asked
      ∧ Traffic.counter
        (traffic { c with session := c.session.map fun x => { x with stopped := true } }) = none := by
  unfold traffic Traffic.asked
  cases c.session with
  | none => exact ⟨rfl, rfl⟩
  | some s => exact ⟨rfl, rfl⟩

/-- The driver ends. -/
theorem Counted.driverStops (h : c.Counted) :
    Counted { c with session := c.session.map fun x => { x with stopped := true } } :=
  Traffic.Counted.stopped h c.asked_stopped.1 (.inl c.asked_stopped.2) rfl rfl

/-- **One input.** -/
theorem Counted.feed (h : c.Counted) (input : Input) : (c.feed input).Counted := by
  cases input with
  | user handle action => exact Traffic.Counted.outcome h (action.traffic_run handle h.settled)
  | item item => exact h.take item
  | driverStops => exact h.driverStops

/-- The session stays, and is given some ids more, or it has given out none. -/
theorem Counted.sentIds_feed (h : c.Counted) (input : Input) :
    (∃ more, (c.feed input).sentIds = c.sentIds ++ more) ∨ (c.feed input).sentIds = [] := by
  cases input with
  | item item => exact .inl (c.sentIds_take item)
  | driverStops =>
    refine .inl ⟨[], ?_⟩
    rw [List.append_nil]
    unfold sentIds
    cases hsession : c.session <;> simp [AppController.feed, hsession]
  | user handle action =>
    have hrun := action.traffic_run handle h.settled
    cases hrun with
    | asks hasks => exact .inl (sentIds_of_asks rfl hasks)
    | renewed _ _ hlink _ =>
      right
      show (action.run handle c).sentIds = []
      cases hnow : (action.run handle c).traffic.link with
      | none => exact sentIds_of_idle hnow
      | some l =>
        rw [sentIds_of_link hnow]
        exact (hlink l hnow).2

/-- **The ids that an input's requests are given are those of nobody.** -/
theorem Counted.idsFresh (h : c.Counted) {input : Input} (hfew : (c.feed input).FewRequests) :
    c.IdsFresh input := by
  have hnodup := (h.feed input).nodup hfew
  obtain ⟨more, hmore⟩ | hnone := h.sentIds_feed input
  · have hgiven : givenOut c (c.feed input) = more := by
      rw [givenOut, hmore, List.drop_left]
    rw [hmore] at hnodup
    obtain ⟨-, hdistinct, hapart⟩ := List.nodup_append'.mp hnodup
    refine ⟨hgiven ▸ hdistinct, fun id hid => h.waits fun hsent => ?_⟩
    exact hapart hsent (hgiven ▸ hid)
  · have hgiven : givenOut c (c.feed input) = [] := by
      rw [givenOut, hnone, List.drop_nil]
    constructor
    · rw [hgiven]
      exact List.nodup_nil
    · rw [hgiven]
      exact List.forall_mem_nil _

/-! ## §4. Runs. -/

/-- **Fewer than 2^64 requests.**  In a run in which no session is sent as many requests as there are
ids, no request is given the id of a listing that still waits, nor is a resource snapshot given that
of a package command. -/
theorem ids_kept (servers : List ServerItem) (credentials : QString → Option (List UInt8))
    (inputs : List Input)
    (hfew : Throughout step FewRequests (AppController.initial servers credentials) inputs) :
    Along step ListingsFresh (AppController.initial servers credentials) inputs
      ∧ Along step SnapshotFresh (AppController.initial servers credentials) inputs := by
  have hstep : ∀ c input d, Counted c → step c input = some d → Counted d := by
    intro c input d hc hd
    rw [← step_eq_some.mp hd]
    exact hc.feed input
  have hfresh : ∀ c input, Counted c → (∀ d, step c input = some d → d.FewRequests) →
      c.IdsFresh input := fun c input hc hnext => hc.idsFresh (hnext _ rfl)
  refine ⟨?_, ?_⟩
  · exact along_of_throughout hstep (fun c input hc hnext => (hfresh c input hc hnext).listings)
      (counted_initial servers credentials) hfew
  · exact along_of_throughout hstep (fun c input hc hnext => (hfresh c input hc hnext).snapshot)
      (counted_initial servers credentials) hfew

/-- The items of a batch, one after another. -/
theorem Counted.take_all (h : c.Counted) (items : List Item) : (items.foldl AppController.take c).Counted := by
  induction items generalizing c with
  | nil => exact h
  | cons item items ih => exact ih (h.take item)

/-- What the items of a batch add. -/
theorem sentIds_take_all (items : List Item) :
    ∃ more, (items.foldl take c).sentIds = c.sentIds ++ more := by
  induction items generalizing c with
  | nil => exact ⟨[], (List.append_nil _).symm⟩
  | cons item items ih =>
    obtain ⟨first, hfirst⟩ := c.sentIds_take item
    obtain ⟨more, hmore⟩ := @ih (c.take item)
    exact ⟨first ++ more, by rw [List.foldl_cons, hmore, hfirst, List.append_assoc]⟩

/-- If there are ids enough for a batch, there are for each of its items. -/
theorem Counted.along_items (items : List Item) : ∀ {c : AppController}, c.Counted →
    (items.foldl AppController.take c).FewRequests → Along step IdsFresh c (items.map .item) := by
  induction items with
  | nil =>
    intro c _ _
    trivial
  | cons item items ih =>
    intro c h hfew
    have hnext : (c.take item).FewRequests := by
      obtain ⟨more, hmore⟩ := @sentIds_take_all (c.take item) items
      have hall : (items.foldl AppController.take (c.take item)).FewRequests := hfew
      rw [FewRequests, hmore, List.length_append] at hall
      exact Nat.lt_of_le_of_lt (Nat.le_add_right _ _) hall
    refine along_cons.mpr ⟨h.idsFresh hnext, fun d hd => ?_⟩
    rw [← step_eq_some.mp hd]
    exact ih (h.take item) hfew

end AppController

/-! ## §5. The application. -/

namespace Application

variable {s t : Application}

/-- The driver is heard. -/
theorem counted_heard {ui : UiThread} (h : ui.controller.Counted) (handle : Nat)
    (batches : List Batch) (ended : Bool) :
    (heard ui handle batches ended).controller.Counted := by
  cases ended with
  | false => exact h
  | true => exact h.driverStops

/-- One step of the application. -/
theorem counted_step {l : AppLabel} (h : s.ui.controller.Counted) (hstep : s.step l = some t) :
    t.ui.controller.Counted := by
  cases l with
  | user action =>
    rw [of_step_user hstep]
    exact AppController.Counted.feed h (.user s.ui.nextHandle action)
  | deliver =>
    obtain ⟨posted, rest, hqueue, rfl⟩ := of_step_deliver hstep
    show (s.ui.controller.ingest posted.batch).Counted
    rw [AppController.ingest_eq_foldl]
    exact AppController.Counted.take_all h _
  | core a =>
    obtain ⟨handle, d, d', batches, -, -, -, -, -, rfl⟩ := of_step_core hstep
    exact counted_heard h handle _ _

/-- **Fewer than 2^64 requests**: in such a run of the application no request is given the id of one
that still waits. -/
theorem ids_kept (servers : List ServerItem) (credentials : QString → Option (List UInt8))
    (labels : List AppLabel)
    (hfew : Throughout step (fun s => s.ui.controller.FewRequests) (initial servers credentials)
      labels) : Along step Fresh (initial servers credentials) labels := by
  refine along_of_throughout (I := fun s => s.ui.controller.Counted)
    (fun _ _ _ h hstep => counted_step h hstep) ?_
    (AppController.counted_initial servers credentials) hfew
  intro s l h hnext
  cases l with
  | user action => exact AppController.Counted.idsFresh h (hnext _ rfl)
  | core a => trivial
  | deliver =>
    unfold Fresh
    cases hqueue : s.ui.queue with
    | nil => trivial
    | cons posted rest =>
      refine AppController.Counted.along_items _ h ?_
      have hstep : s.step .deliver = some (s.follow
          { s.ui with controller := s.ui.controller.ingest posted.batch, queue := rest }) := by
        show (s.ui.step .deliver).map s.follow = _
        rw [UiThread.step, hqueue]
        rfl
      have hall : (s.ui.controller.ingest posted.batch).FewRequests := hnext _ hstep
      rw [AppController.ingest_eq_foldl] at hall
      exact hall

/-- The file requests of such a session have ids of their own. -/
theorem fsIds_nodup {servers : List ServerItem} {credentials : QString → Option (List UInt8)}
    {labels : List AppLabel} (hrun : exec step (initial servers credentials) labels = some s)
    {x : Session} (hlive : s.ui.controller.session = some x)
    (hfew : s.ui.controller.FewRequests) : (x.sent.filterMap Command.fsId).Nodup := by
  have hcounted : s.ui.controller.Counted :=
    exec_invariant (I := fun s => s.ui.controller.Counted)
      (fun _ _ _ h hstep => counted_step h hstep)
      (AppController.counted_initial servers credentials) hrun
  have hids : s.ui.controller.sentIds = requestIds x.sent := by
    rw [AppController.sentIds, hlive]
    rfl
  exact (fsIds_sublist x.sent).nodup (hids ▸ hcounted.nodup hfew)

end Application

end ResearchSSH.App
