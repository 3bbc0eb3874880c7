/-
  ResearchSSH.App.TerminalStream — what a server sends, on its way to the terminal.

  The bytes that the driver hands out are flattened into C records, copied out, posted to the UI
  thread and delivered.  They arrive as they were sent.  What is still in the channel of a session
  that is given up is the only thing that is lost.

  Main result:
    * `Application.every_byte_delivered` — whole runs, over any number of sessions.
-/

import ResearchSSH.App.Application
import ResearchSSH.Core.ByteStream
import ResearchSSH.Library.Conveyor

namespace ResearchSSH.App

open ResearchSSH.Core ResearchSSH.Library RustCoreBridge

/-! ## §1. Batches. -/

/-- The bytes that an event carries for the terminal. -/
def RustEvent.bytes : RustEvent → List UInt8
  | .data bytes => bytes
  | _ => []

/-- What a batch has for the terminal. -/
def Batch.bytes : Batch → List UInt8
  | .events batch => batch.flatMap RustEvent.bytes
  | _ => []

/-- The bytes of an event arrive. -/
theorem bytes_seen (ev : SessionEvent) : (RustEvent.of decoded ev).seen.bytes = ev.bytes := by
  cases ev <;> rfl

/-- The bytes of batches of events arrive. -/
theorem bytes_eventBatch (batches : List (List SessionEvent)) :
    (batches.filterMap eventBatch).flatMap Batch.bytes = bytesOf batches := by
  induction batches with
  | nil => rfl
  | cons events batches ih =>
    rw [show events :: batches = [events] ++ batches from rfl, List.filterMap_append,
      List.flatMap_append, ih, bytesOf_append]
    congr 1
    unfold bytesOf
    rw [List.flatten_singleton]
    by_cases hempty : events = []
    · rw [hempty]
      rfl
    · have hbatch : eventBatch events
          = some (.events (events.map fun ev => (RustEvent.of decoded ev).seen)) := if_neg hempty
      rw [List.filterMap_cons_some hbatch]
      show (events.map _).flatMap RustEvent.bytes ++ [] = _
      rw [List.append_nil, List.flatMap_map]
      simp only [bytes_seen]

/-- Only the batches of events have bytes. -/
theorem bytes_batchesOf (batches : List (List SessionEvent)) (files : List FileResult)
    (tasks : List Core.ExecResult) :
    (batchesOf batches files tasks).flatMap Batch.bytes = bytesOf batches := by
  have hfiles : (files.map fileBatch).flatMap Batch.bytes = [] := by
    rw [List.flatMap_map, List.flatMap_eq_nil_iff]
    exact fun _ _ => rfl
  have htasks : (tasks.map taskBatch).flatMap Batch.bytes = [] := by
    rw [List.flatMap_map, List.flatMap_eq_nil_iff]
    exact fun _ _ => rfl
  unfold batchesOf
  rw [List.flatMap_append, List.flatMap_append, hfiles, htasks, bytes_eventBatch, List.append_nil,
    List.append_nil]

/-! ## §2. One step. -/

namespace Application

variable {s t : Application}

/-- What a server sends. -/
def received (_ : Application) : AppLabel → List UInt8
  | .core a => a.received
  | _ => []

/-- What the controller is given of it. -/
def delivered (s : Application) : AppLabel → List UInt8
  | .deliver => s.ui.queue.head?.elim [] fun posted => posted.batch.bytes
  | _ => []

/-- What is on its way, the oldest first. -/
def onTheWay (s : Application) : List UInt8 :=
  (s.ui.queue.flatMap fun posted => posted.batch.bytes) ++ s.driver.elim [] Driver.inChannel

/-- The session there is stays, or there is nothing in its channel that could be lost. -/
def KeepsSession (s : Application) (l : AppLabel) : Prop :=
  s.driver.elim [] Driver.inChannel = []
    ∨ ∀ t ∈ s.step l, t.ui.controller.live = s.ui.controller.live

instance (s : Application) (l : AppLabel) : Decidable (s.KeepsSession l) :=
  inferInstanceAs (Decidable (_ ∨ ∀ t ∈ s.step l, _))

/-- The driver of the session that there was, if it is still the one; what another one had in its
channel is gone. -/
theorem inChannel_handOver {a b : Traffic} {driver : Option Driver} (hlinked : Linked a.link driver) :
    ((handOver a.link driver b.link).elim [] Driver.inChannel = []
        ∨ (handOver a.link driver b.link).elim [] Driver.inChannel = driver.elim [] Driver.inChannel)
      ∧ (b.link.map Prod.fst = a.link.map Prod.fst →
        (handOver a.link driver b.link).elim [] Driver.inChannel
          = driver.elim [] Driver.inChannel) := by
  generalize a.link = link at hlinked ⊢
  generalize b.link = link'
  cases hlinked with
  | off =>
    cases link' with
    | none => exact ⟨.inl rfl, fun _ => rfl⟩
    | some l => exact ⟨.inl rfl, nofun⟩
  | @on handle sent d hserves =>
    cases link' with
    | none => exact ⟨.inl rfl, nofun⟩
    | some l =>
      obtain ⟨handle', sent'⟩ := l
      unfold handOver
      dsimp only
      split
      · exact ⟨.inr rfl, fun _ => rfl⟩
      · next hother =>
        exact ⟨.inl rfl, fun hsame => absurd (Option.some.inj hsame) hother⟩

/-- **A step of the driver** carries everything on. -/
theorem conveys_core {a : Action} (h : s.Sound) (hstep : s.step (.core a) = some t) :
    s.onTheWay ++ s.received (.core a) = s.delivered (.core a) ++ t.onTheWay := by
  obtain ⟨handle, d, d', batches, hown, hlive, hdriver, hd, hcalled, rfl⟩ := of_step_core hstep
  have hlinked := h.linked
  rw [hdriver] at hlinked
  generalize s.ui.controller.traffic.link = link at hlinked
  cases hlinked with
  | on hserves =>
  obtain ⟨-, files, tasks, calls, hadvances⟩ := hserves.step hown hd
  obtain ⟨emitted, hemitted, hbytes⟩ := Driver.conveys hd
  rw [calledBack_eq handle hemitted hadvances.fileSink hadvances.taskSink] at hcalled
  obtain rfl := Option.some.inj hcalled
  have hqueue : ((s.ui.queue ++ (batchesOf emitted files tasks).map fun batch =>
        ({ session := handle, batch := batch } : Posted)).flatMap fun posted => posted.batch.bytes)
      = (s.ui.queue.flatMap fun posted => posted.batch.bytes) ++ bytesOf emitted := by
    rw [List.flatMap_append, List.flatMap_map, ← bytes_batchesOf emitted files tasks]
  show (_ ++ s.driver.elim [] Driver.inChannel) ++ a.received
    = ((s.ui.queue ++ _).flatMap _) ++ d'.inChannel
  rw [hqueue, hdriver]
  show (_ ++ d.inChannel) ++ a.received = _
  rw [List.append_assoc, hbytes, List.append_assoc]

/-- **Any step** loses nothing but what is in the channel of a session that is given up. -/
theorem conveys_step {l : AppLabel} (h : s.Sound) (hstep : s.step l = some t) :
    (s.delivered l ++ t.onTheWay).Sublist (s.onTheWay ++ s.received l)
      ∧ (s.KeepsSession l → s.onTheWay ++ s.received l = s.delivered l ++ t.onTheWay) := by
  -- The controller has done something: the queue is carried on, and the channel may be.
  have hfollow : ∀ (queue : List Posted) (out : List UInt8),
      out ++ (queue.flatMap fun posted => posted.batch.bytes)
        = (s.ui.queue.flatMap fun posted => posted.batch.bytes) →
      t.ui.queue = queue → t.driver = handOver s.ui.controller.traffic.link s.driver
        t.ui.controller.traffic.link →
      (out ++ t.onTheWay).Sublist (s.onTheWay ++ [])
        ∧ (s.KeepsSession l → s.onTheWay ++ [] = out ++ t.onTheWay) := by
    intro queue out hout hqueue hdriver
    obtain ⟨hcases, hsame⟩ := inChannel_handOver (b := t.ui.controller.traffic) h.linked
    unfold onTheWay
    rw [hqueue, hdriver, List.append_nil, ← List.append_assoc, hout]
    constructor
    · obtain hgone | hkept := hcases
      · rw [hgone]
        exact (List.nil_sublist _).append_left _
      · rw [hkept]
    · intro hkeeps
      congr 1
      obtain hempty | hlive := hkeeps
      · obtain hgone | hkept := hcases
        · rw [hgone, hempty]
        · exact hkept.symm
      · refine (hsame ?_).symm
        rw [← live_eq, ← live_eq]
        exact hlive t hstep
  cases l with
  | core a =>
    have heq := conveys_core h hstep
    exact ⟨heq ▸ List.Sublist.refl _, fun _ => heq⟩
  | user action =>
    have ht := of_step_user hstep
    exact hfollow _ [] rfl (by rw [ht]; rfl) (by rw [ht]; rfl)
  | deliver =>
    obtain ⟨posted, rest, hqueue, ht⟩ := of_step_deliver hstep
    have hout : s.delivered .deliver = posted.batch.bytes := by
      unfold delivered
      rw [hqueue]
      rfl
    rw [hout]
    refine hfollow rest _ ?_ (by rw [ht]; rfl) (by rw [ht]; rfl)
    rw [hqueue, List.flatMap_cons]

/-! ## §3. Runs. -/

/-- **Every byte is delivered, once and in order.**  In every run of the application, over any number
of sessions and however the bytes are cut into chunks and batches: what the controller is given,
followed by what is still on its way, is what was on its way at first followed by what servers have
sent, with parts left out at most; and nothing is left out as long as no session is given up whose
channel still has something in it. -/
theorem every_byte_delivered {servers : List ServerItem}
    {credentials : QString → Option (List UInt8)} {labels more : List AppLabel}
    (hrun : exec step (initial servers credentials) labels = some s)
    (hmore : exec step s more = some t) :
    (gathered step delivered s more ++ t.onTheWay).Sublist
        (s.onTheWay ++ gathered step received s more)
      ∧ (Along step KeepsSession s more →
        s.onTheWay ++ gathered step received s more = gathered step delivered s more ++ t.onTheWay) := by
  have hsound := sound_run hrun
  constructor
  · exact conveyed_sublist (fun _ _ _ h hstep => h.step hstep)
      (fun _ _ _ h hstep => (conveys_step h hstep).1) hsound hmore
  · intro hkeeps
    exact conveyed (fun _ _ _ h hstep => h.step hstep)
      (fun _ _ _ h hkeeps hstep => (conveys_step h hstep).2 hkeeps) hsound hkeeps hmore

/-- Two chunks that are collected in one batch, and a third one behind them. -/
def greeting : List AppLabel :=
  [.core (.sinkEmit 1 (.data [104])), .core (.sinkEmit 1 (.data [105, 33])), .core .recv,
    .core .drain, .core (.sinkEmit 1 (.data [10])), .user .disconnectCurrent]

theorem every_byte_delivered_greeting : ∃ s t, exec step oneServer listed = some s
    ∧ exec step s greeting = some t
    ∧ s.onTheWay ++ [104, 105, 33, 10] = gathered step delivered s greeting ++ t.onTheWay := by
  obtain ⟨s, hrun⟩ : ∃ s, exec step oneServer listed = some s :=
    Option.isSome_iff_exists.mp (by decide)
  have hview : (exec step oneServer listed).map
      (fun s => (decide (Along step KeepsSession s greeting), (exec step s greeting).isSome,
        gathered step received s greeting)) = some (true, true, [104, 105, 33, 10]) := by decide
  rw [hrun, Option.map_some, Option.some.injEq, Prod.mk.injEq, Prod.mk.injEq,
    decide_eq_true_eq] at hview
  obtain ⟨hkeeps, hsome, hreceived⟩ := hview
  obtain ⟨t, hmore⟩ := Option.isSome_iff_exists.mp hsome
  have h := (every_byte_delivered hrun hmore).2 hkeeps
  rw [hreceived] at h
  exact ⟨s, t, hrun, hmore, h⟩

end Application

end ResearchSSH.App
