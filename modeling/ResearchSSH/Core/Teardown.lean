/-
  ResearchSSH.Core.Teardown — `shutdown_and_join` against the tasks that call back.

  Three kinds of process share the emitters of a session: the driver task, any number of
  host-key gate tasks, and the owner, the thread that registers callbacks and then destroys
  the session.  A step of a process is one of its lock-protected sections.  Every `emit_*` of
  an emitter holds the emitter's `active` mutex across the C callback; the driver holds the
  lock of an emitter slot for the whole `if let` that clones and uses the emitter, and so does
  the owner for the `if let` that takes it out.

  The join with the driver is bounded: the owner leaves it whether or not the driver has
  finished, and an unfinished driver keeps running, detached.

  Main results:
    * `Guarded.step` — the locks protect the callbacks, step by step.
    * `no_callback_after_destroy` — after `shutdown_and_join` has returned no callback is in
      progress and none ever starts.
-/

import Mathlib.Logic.Function.Basic
import ResearchSSH.Library.Transition

namespace ResearchSSH.Core

open ResearchSSH.Library

/-! ## §1. Processes and program counters. -/

/-- The pipelines whose emitter sits in a slot. -/
inductive Pipe
  | file | exec
  deriving DecidableEq, Repr

/-- The emitters of a session: one for events, and one for each registration of a file or an
exec callback. -/
inductive Emitter
  | event
  | registered (pipe : Pipe) (n : Nat)
  deriving DecidableEq, Repr

/-- Who can hold a lock. -/
inductive Proc
  | driver
  | gate (i : Nat)
  | owner
  deriving DecidableEq, Repr

/-- Inside an `emit_*`: about to lock `active`, holding it, or holding it in the callback. -/
inductive EmitPc
  | lock | read | call
  deriving DecidableEq, Repr

/-- Where the driver is. -/
inductive DriverPc
  /-- Anywhere outside of the sections below. -/
  | running
  /-- In `emit_batch` of the event emitter. -/
  | emitting (pc : EmitPc)
  /-- About to lock a slot. -/
  | lockSlot (p : Pipe)
  /-- The slot is locked and about to be read. -/
  | readSlot (p : Pipe)
  /-- The slot is locked; in `emit_*` of the emitter cloned from it. -/
  | delivering (p : Pipe) (n : Nat) (pc : EmitPc)
  /-- At the end of the `if let`: about to unlock the slot. -/
  | unlockSlot (p : Pipe)
  | finished
  deriving DecidableEq, Repr

/-- Where a host key gate is. -/
inductive GatePc
  | idle
  | emitting (pc : EmitPc)
  deriving DecidableEq, Repr

/-- Where the caller of `rscore_session_destroy` is. -/
inductive OwnerPc
  /-- Before destroy: callbacks can be registered. -/
  | serving
  /-- `Shutdown` is sent and the cancel signal given; waiting for the driver. -/
  | joining
  | deactivateEvent
  | lockSlot (p : Pipe)
  /-- The slot is locked and was emptied; about to deactivate what was in it. -/
  | deactivate (p : Pipe) (n : Nat)
  | unlockSlot (p : Pipe)
  | returned
  deriving DecidableEq, Repr

/-- The processes, the emitter slots, the `active` flags, and who holds which lock. -/
structure Teardown where
  driver : DriverPc
  gates : Nat → GatePc
  owner : OwnerPc
  slot : Pipe → Option Nat
  slotLock : Pipe → Option Proc
  active : Emitter → Bool
  activeLock : Emitter → Option Proc
  registrations : Nat

namespace Teardown

/-- A session as `Session::spawn` leaves it. -/
def initial : Teardown :=
  { driver := .running, gates := fun _ => .idle, owner := .serving, slot := fun _ => none
    slotLock := fun _ => none, active := fun _ => true, activeLock := fun _ => none
    registrations := 0 }

/-! ## §2. Steps. -/

/-- The lock of an emitter's flag changes hands. -/
def setActiveLock (t : Teardown) (e : Emitter) (holder : Option Proc) : Teardown :=
  { t with activeLock := Function.update t.activeLock e holder }

/-- The lock of a slot changes hands. -/
def setSlotLock (t : Teardown) (p : Pipe) (holder : Option Proc) : Teardown :=
  { t with slotLock := Function.update t.slotLock p holder }

/-- One section of `emit_*` of an emitter, with where it goes on (`none` when it is left). -/
def emitStep (t : Teardown) (proc : Proc) (e : Emitter) : EmitPc → Option (Teardown × Option EmitPc)
  | .lock =>
    if t.activeLock e = none then some (t.setActiveLock e (some proc), some .read) else none
  -- An inactive emitter is left at once, without a callback.
  | .read => if t.active e then some (t, some .call) else some (t.setActiveLock e none, none)
  | .call => some (t.setActiveLock e none, none)

/-- The driver goes on where it stands. -/
def driverStep (t : Teardown) : Option Teardown :=
  match t.driver with
  | .running => none
  | .emitting pc =>
    (t.emitStep .driver .event pc).map fun (t, next) =>
      { t with driver := match next with
                         | some pc => .emitting pc
                         | none => .running }
  | .lockSlot p =>
    if t.slotLock p = none then
      some { t.setSlotLock p (some .driver) with driver := .readSlot p }
    else none
  | .readSlot p =>
    match t.slot p with
    -- The clone is used with the slot still locked.
    | some n => some { t with driver := .delivering p n .lock }
    | none => some { t with driver := .unlockSlot p }
  | .delivering p n pc =>
    (t.emitStep .driver (.registered p n) pc).map fun (t, next) =>
      { t with driver := match next with
                         | some pc => .delivering p n pc
                         | none => .unlockSlot p }
  | .unlockSlot p => some { t.setSlotLock p none with driver := .running }
  | .finished => none

/-- A gate task goes on where it stands. -/
def gateStep (t : Teardown) (i : Nat) : Option Teardown :=
  match t.gates i with
  | .idle => none
  | .emitting pc =>
    (t.emitStep (.gate i) .event pc).map fun (t, next) =>
      { t with gates := Function.update t.gates i (match next with
                                                   | some pc => .emitting pc
                                                   | none => .idle) }

/-- `deactivate` of an emitter, where its mutex is free. -/
def deactivateStep (t : Teardown) (e : Emitter) (next : OwnerPc) : Option Teardown :=
  if t.activeLock e = none then
    some { t with active := Function.update t.active e false, owner := next }
  else none

/-- The owner goes on where it stands: `shutdown_and_join`. -/
def ownerStep (t : Teardown) : Option Teardown :=
  match t.owner with
  | .serving => some { t with owner := .joining }
  -- The join ends whether or not the driver has finished.
  | .joining => some { t with owner := .deactivateEvent }
  | .deactivateEvent => t.deactivateStep .event (.lockSlot .file)
  | .lockSlot p =>
    if t.slotLock p = none then
      let next := match t.slot p with
                  | some n => .deactivate p n
                  | none => .unlockSlot p
      some { t.setSlotLock p (some .owner) with
             slot := Function.update t.slot p none, owner := next }
    else none
  | .deactivate p n => t.deactivateStep (.registered p n) (.unlockSlot p)
  | .unlockSlot p =>
    some { t.setSlotLock p none with owner := match p with
                                              | .file => .lockSlot .exec
                                              | .exec => .returned }
  | .returned => none

end Teardown

/-- Which process moves, and what it begins where it has a choice. -/
inductive TeardownAction
  /-- The driver begins an `emit_batch`. -/
  | driverEmits
  /-- The driver has a result for a pipeline. -/
  | driverAnswers (p : Pipe)
  | driverFinishes
  | driverGoesOn
  /-- A gate task begins to emit a prompt. -/
  | gateEmits (i : Nat)
  | gateGoesOn (i : Nat)
  /-- The owner registers a callback, in place of an earlier one if there is one. -/
  | register (p : Pipe)
  | ownerGoesOn
  deriving DecidableEq, Repr

namespace Teardown

/-- One step of any of them; a lock that is held stops who wants it. -/
def step (t : Teardown) : TeardownAction → Option Teardown
  | .driverEmits => if t.driver = .running then some { t with driver := .emitting .lock } else none
  | .driverAnswers p =>
    if t.driver = .running then some { t with driver := .lockSlot p } else none
  | .driverFinishes => if t.driver = .running then some { t with driver := .finished } else none
  | .driverGoesOn => t.driverStep
  | .gateEmits i =>
    if t.gates i = .idle then
      some { t with gates := Function.update t.gates i (.emitting .lock) }
    else none
  | .gateGoesOn i => t.gateStep i
  | .register p =>
    if t.owner = .serving ∧ t.slotLock p = none then
      some { t with slot := Function.update t.slot p (some t.registrations)
                    registrations := t.registrations + 1 }
    else none
  | .ownerGoesOn => t.ownerStep

/-- A callback through the emitter is in progress. -/
def InCallback (t : Teardown) (e : Emitter) : Prop :=
  (t.driver = .emitting .call ∧ e = .event) ∨
    (∃ i, t.gates i = .emitting .call ∧ e = .event) ∨
    ∃ p n, t.driver = .delivering p n .call ∧ e = .registered p n

/-! ## §3. Who holds an emitter. -/

/-- A process inside `emit_*`, past the lock, holds the mutex; in the callback the emitter is
active. -/
def Holds (t : Teardown) (proc : Proc) (e : Emitter) (pc : EmitPc) : Prop :=
  pc ≠ .lock → t.activeLock e = some proc ∧ (pc = .call → t.active e = true)

/-- **What a section of `emit_*` does**: it takes the mutex, goes on into the callback of an
active emitter, or releases the mutex and leaves. -/
theorem emitStep_cases {t t' : Teardown} {proc : Proc} {e : Emitter} {pc : EmitPc}
    {next : Option EmitPc} (h : t.emitStep proc e pc = some (t', next)) :
    (pc = .lock ∧ t.activeLock e = none ∧ t' = t.setActiveLock e (some proc) ∧
        next = some .read) ∨
      (pc = .read ∧ t.active e = true ∧ t' = t ∧ next = some .call) ∨
      (pc ≠ .lock ∧ t' = t.setActiveLock e none ∧ next = none) := by
  cases pc with
  | lock =>
    obtain ⟨hfree, h⟩ := Option.ite_none_right_eq_some.mp h
    rw [Option.some.injEq, Prod.mk.injEq] at h
    exact .inl ⟨rfl, hfree, h.1.symm, h.2.symm⟩
  | read =>
    simp only [emitStep] at h
    split at h
    · next hactive =>
      rw [Option.some.injEq, Prod.mk.injEq] at h
      exact .inr (.inl ⟨rfl, hactive, h.1.symm, h.2.symm⟩)
    · rw [Option.some.injEq, Prod.mk.injEq] at h
      exact .inr (.inr ⟨by decide, h.1.symm, h.2.symm⟩)
  | call =>
    simp only [emitStep, Option.some.injEq, Prod.mk.injEq] at h
    exact .inr (.inr ⟨by decide, h.1.symm, h.2.symm⟩)

/-- What it leaves alone. -/
theorem emitStep_frame {t t' : Teardown} {proc : Proc} {e : Emitter} {pc : EmitPc}
    {next : Option EmitPc} (h : t.emitStep proc e pc = some (t', next)) :
    t' = { t with activeLock := t'.activeLock } := by
  rcases emitStep_cases h with ⟨_, _, rfl, _⟩ | ⟨_, _, rfl, _⟩ | ⟨_, rfl, _⟩ <;> rfl

/-- The process itself goes on holding the emitter until it leaves `emit_*`. -/
theorem Holds.self {t t' : Teardown} {proc : Proc} {e : Emitter} {pc pc' : EmitPc}
    (h : t.Holds proc e pc) (hstep : t.emitStep proc e pc = some (t', some pc')) :
    t'.Holds proc e pc' := by
  intro _
  rcases emitStep_cases hstep with ⟨_, _, rfl, hnext⟩ | ⟨rfl, hactive, rfl, _⟩ | ⟨_, _, hnext⟩
  · cases hnext
    refine ⟨?_, ?_⟩
    · show Function.update t.activeLock e (some proc) e = some proc
      rw [Function.update_self]
    · intro hcall
      cases hcall
  · exact ⟨(h (by decide)).1, fun _ => hactive⟩
  · cases hnext

/-- A mutex that is held is neither taken nor released by another process. -/
theorem Holds.other {t t' : Teardown} {proc q : Proc} {e e' : Emitter} {pc pc' : EmitPc}
    {next : Option EmitPc} (hq : t.Holds q e' pc') (h : t.Holds proc e pc) (hne : q ≠ proc)
    (hstep : t.emitStep proc e pc = some (t', next)) : t'.Holds q e' pc' := by
  intro hpc'
  obtain ⟨hlock, hactive⟩ := hq hpc'
  rcases emitStep_cases hstep with ⟨_, hfree, rfl, _⟩ | ⟨_, _, rfl, _⟩ | ⟨hpc, rfl, _⟩
  · -- the mutex that is taken was free, so it is another one
    have he : e' ≠ e := by
      rintro rfl
      rw [hlock] at hfree
      cases hfree
    refine ⟨?_, hactive⟩
    show Function.update t.activeLock e (some proc) e' = some q
    rw [Function.update_of_ne he, hlock]
  · exact ⟨hlock, hactive⟩
  · -- the mutex that is released was held by the process that moves
    have he : e' ≠ e := by
      rintro rfl
      rw [(h hpc).1, Option.some.injEq] at hlock
      exact hne hlock.symm
    refine ⟨?_, hactive⟩
    show Function.update t.activeLock e none e' = some q
    rw [Function.update_of_ne he, hlock]

/-- An emitter whose mutex is free can be deactivated without harm to a callback. -/
theorem Holds.deactivate {t t' : Teardown} {q : Proc} {e e' : Emitter} {pc : EmitPc}
    (hq : t.Holds q e' pc) (hfree : t.activeLock e = none)
    (hlock : t'.activeLock = t.activeLock)
    (hactive : t'.active = Function.update t.active e false) : t'.Holds q e' pc := by
  intro hpc
  obtain ⟨hheld, hcall⟩ := hq hpc
  refine ⟨by rw [hlock]; exact hheld, ?_⟩
  intro hc
  have hne : e' ≠ e := by
    rintro rfl
    rw [hheld] at hfree
    cases hfree
  rw [hactive, Function.update_of_ne hne]
  exact hcall hc

/-- Steps that touch neither the mutexes nor the flags. -/
theorem Holds.same {t t' : Teardown} {q : Proc} {e : Emitter} {pc : EmitPc}
    (hq : t.Holds q e pc) (hlock : t'.activeLock = t.activeLock)
    (hactive : t'.active = t.active) : t'.Holds q e pc := by
  intro hpc
  rw [hlock, hactive]
  exact hq hpc

/-! ## §4. The invariant. -/

/-- What the driver holds where it stands: the slot lock while it is inside the `if let`, with
the emitter it cloned still in the slot, and the mutex inside `emit_*`. -/
def DriverHolds (t : Teardown) : DriverPc → Prop
  | .running | .lockSlot _ | .finished => True
  | .emitting pc => t.Holds .driver .event pc
  | .readSlot p => t.slotLock p = some .driver
  | .delivering p n pc =>
    t.slotLock p = some .driver ∧ t.slot p = some n ∧ t.Holds .driver (.registered p n) pc
  | .unlockSlot p => t.slotLock p = some .driver

/-- What a gate task holds where it stands. -/
def GateHolds (t : Teardown) (i : Nat) : GatePc → Prop
  | .idle => True
  | .emitting pc => t.Holds (.gate i) .event pc

end Teardown

/-- The owner is inside the `if let` that takes the emitter out of the slot. -/
def OwnerPc.inSlot : OwnerPc → Pipe → Prop
  | .deactivate p _, q => q = p
  | .unlockSlot p, q => q = p
  | _, _ => False

/-- The event emitter has been deactivated. -/
def OwnerPc.eventDone : OwnerPc → Bool
  | .serving | .joining | .deactivateEvent => false
  | _ => true

/-- The slot has been emptied. -/
def OwnerPc.emptied : OwnerPc → Pipe → Bool
  | .deactivate .file _, .file | .unlockSlot .file, .file | .lockSlot .exec, .file => true
  | .deactivate .exec _, _ | .unlockSlot .exec, _ | .returned, _ => true
  | _, _ => false

namespace Teardown

/-- Who is inside a section holds its lock, and what the owner has shut stays shut. -/
structure Guarded (t : Teardown) : Prop where
  driver : t.DriverHolds t.driver
  gates : ∀ i, t.GateHolds i (t.gates i)
  ownerSlot : ∀ p, t.owner.inSlot p → t.slotLock p = some .owner
  eventOff : t.owner.eventDone = true → t.active .event = false
  emptied : ∀ p, t.owner.emptied p = true → t.slot p = none

theorem Guarded.initial : Guarded initial where
  driver := trivial
  gates := fun _ => trivial
  ownerSlot := by intro p h; exact h.elim
  eventOff := by intro h; cases h
  emptied := by intro p _; rfl

section Mono

variable {t t' : Teardown}

/-- What the driver holds survives steps of others that keep the slots it has locked and the
mutexes it holds. -/
theorem DriverHolds.mono {pc : DriverPc} (h : t.DriverHolds pc)
    (hslot : ∀ p, t.slotLock p = some .driver →
      t'.slotLock p = some .driver ∧ t'.slot p = t.slot p)
    (hholds : ∀ e pc, t.Holds .driver e pc → t'.Holds .driver e pc) : t'.DriverHolds pc := by
  cases pc with
  | running | lockSlot | finished => trivial
  | emitting pc => exact hholds _ _ h
  | readSlot p => exact (hslot p h).1
  | unlockSlot p => exact (hslot p h).1
  | delivering p n pc =>
    obtain ⟨hlock, hvalue, hheld⟩ := h
    exact ⟨(hslot p hlock).1, (hslot p hlock).2.trans hvalue, hholds _ _ hheld⟩

theorem GateHolds.mono {i : Nat} {pc : GatePc} (h : t.GateHolds i pc)
    (hholds : ∀ e pc, t.Holds (.gate i) e pc → t'.Holds (.gate i) e pc) :
    t'.GateHolds i pc := by
  cases pc with
  | idle => trivial
  | emitting pc => exact hholds _ _ h

end Mono

/-! ## §5. Steps of the driver and of the gates. -/

section Tasks

variable {t t' : Teardown}

/-- A section of `emit_*` by the driver, seen by the gates and the owner. -/
theorem Guarded.driver_emits (h : t.Guarded) {e : Emitter} {pc : EmitPc}
    {next : Option EmitPc} (hheld : t.Holds .driver e pc)
    (hstep : t.emitStep .driver e pc = some (t', next)) (dpc : DriverPc)
    (hdriver : t'.DriverHolds dpc) : Guarded { t' with driver := dpc } := by
  have hframe := emitStep_frame hstep
  refine ⟨?_, ?_, ?_, ?_, ?_⟩
  · exact hdriver.mono (fun _ hp => ⟨hp, rfl⟩) (fun _ _ hq => hq.same rfl rfl)
  · intro i
    have hgate : t.GateHolds i (t'.gates i) := by rw [hframe]; exact h.gates i
    refine hgate.mono ?_
    intro e' pc' hq
    exact (hq.other hheld (by simp) hstep).same rfl rfl
  · rw [hframe]; exact h.ownerSlot
  · rw [hframe]; exact h.eventOff
  · rw [hframe]; exact h.emptied

/-- What the others work on, apart from the locks of the slots. -/
def besidesDriver (t : Teardown) : (Nat → GatePc) × OwnerPc × (Pipe → Option Nat)
    × (Emitter → Bool) × (Emitter → Option Proc) :=
  (t.gates, t.owner, t.slot, t.active, t.activeLock)

/-- A step of the driver that touches no mutex of an emitter. -/
theorem Guarded.driver_moves (h : t.Guarded) (hsame : t'.besidesDriver = t.besidesDriver)
    (hslotLock : ∀ p, t.slotLock p = some .owner → t'.slotLock p = some .owner)
    (hdriver : t'.DriverHolds t'.driver) : t'.Guarded := by
  simp only [besidesDriver, Prod.mk.injEq] at hsame
  obtain ⟨hgates, howner, hslot, hactive, hlock⟩ := hsame
  refine ⟨hdriver, ?_, ?_, ?_, ?_⟩
  · intro i
    rw [hgates]
    exact (h.gates i).mono (fun _ _ hq => hq.same hlock hactive)
  · rw [howner]
    intro p hp
    exact hslotLock p (h.ownerSlot p hp)
  · rw [howner, hactive]; exact h.eventOff
  · rw [howner, hslot]; exact h.emptied

theorem Guarded.driverStep (h : t.Guarded) (hstep : t.driverStep = some t') : t'.Guarded := by
  have hdriver := h.driver
  unfold Teardown.driverStep at hstep
  cases hpc : t.driver with
  | running => rw [hpc] at hstep; cases hstep
  | finished => rw [hpc] at hstep; cases hstep
  | emitting pc =>
    rw [hpc] at hstep hdriver
    obtain ⟨⟨u, next⟩, hemit, rfl⟩ := Option.map_eq_some_iff.mp hstep
    refine h.driver_emits hdriver hemit _ ?_
    cases next with
    | none => trivial
    | some pc' =>
      have hself : u.Holds .driver .event pc' := Holds.self hdriver hemit
      exact hself
  | lockSlot p =>
    rw [hpc] at hstep
    obtain ⟨hfree, hstep⟩ := Option.ite_none_right_eq_some.mp hstep
    cases hstep
    refine h.driver_moves rfl ?_ ?_
    · intro q hq
      have hne : q ≠ p := by
        rintro rfl
        rw [hfree] at hq
        cases hq
      -- the slot that is locked was free, so the owner's is another one
      show Function.update t.slotLock p (some .driver) q = some .owner
      rw [Function.update_of_ne hne, hq]
    · show Function.update t.slotLock p (some .driver) p = some .driver
      rw [Function.update_self]
  | readSlot p =>
    rw [hpc] at hstep hdriver
    simp only at hstep
    split at hstep
    · next n hn =>
      cases hstep
      -- the clone is of the emitter in the slot, and its mutex is not yet taken
      refine h.driver_moves rfl (fun _ hq => hq) ⟨hdriver, hn, ?_⟩
      intro hne
      exact absurd rfl hne
    · cases hstep
      exact h.driver_moves rfl (fun _ hq => hq) hdriver
  | delivering p n pc =>
    rw [hpc] at hstep hdriver
    obtain ⟨⟨u, next⟩, hemit, rfl⟩ := Option.map_eq_some_iff.mp hstep
    obtain ⟨hlock, hvalue, hheld⟩ := hdriver
    have hframe := emitStep_frame hemit
    have hlock' : u.slotLock p = some .driver := by rw [hframe]; exact hlock
    have hvalue' : u.slot p = some n := by rw [hframe]; exact hvalue
    refine h.driver_emits hheld hemit _ ?_
    cases next with
    | none => exact hlock'
    | some pc' =>
      have hself : u.Holds .driver (.registered p n) pc' := Holds.self hheld hemit
      exact ⟨hlock', hvalue', hself⟩
  | unlockSlot p =>
    rw [hpc] at hstep hdriver
    cases hstep
    refine h.driver_moves rfl ?_ trivial
    intro q hq
    have hne : q ≠ p := by
      rintro rfl
      rw [show t.slotLock q = some .driver from hdriver] at hq
      cases hq
    -- the driver unlocks its own slot
    show Function.update t.slotLock p none q = some .owner
    rw [Function.update_of_ne hne, hq]

theorem Guarded.gateStep (h : t.Guarded) {i : Nat} (hstep : t.gateStep i = some t') :
    t'.Guarded := by
  have hgate := h.gates i
  unfold Teardown.gateStep at hstep
  cases hpc : t.gates i with
  | idle => rw [hpc] at hstep; cases hstep
  | emitting pc =>
    rw [hpc] at hstep hgate
    obtain ⟨⟨u, next⟩, hemit, rfl⟩ := Option.map_eq_some_iff.mp hstep
    have hframe := emitStep_frame hemit
    refine ⟨?_, ?_, ?_, ?_, ?_⟩
    · have hdriver : t.DriverHolds u.driver := by rw [hframe]; exact h.driver
      refine hdriver.mono ?_ ?_
      · intro p hp
        rw [hframe]
        exact ⟨hp, rfl⟩
      · intro e' pc' hq
        exact (hq.other hgate (by simp) hemit).same rfl rfl
    · intro j
      by_cases hj : j = i
      · subst hj
        show GateHolds _ j (Function.update u.gates j _ j)
        rw [Function.update_self]
        cases next with
        | none => trivial
        | some pc' =>
          have hself : u.Holds (.gate j) .event pc' := Holds.self hgate hemit
          exact hself
      · show GateHolds _ j (Function.update u.gates i _ j)
        rw [Function.update_of_ne hj]
        have hother : t.GateHolds j (u.gates j) := by rw [hframe]; exact h.gates j
        refine hother.mono ?_
        intro e' pc' hq
        exact (hq.other hgate (by simpa using hj) hemit).same rfl rfl
    · rw [hframe]; exact h.ownerSlot
    · rw [hframe]; exact h.eventOff
    · rw [hframe]; exact h.emptied

/-- A gate task that begins to emit holds nothing yet. -/
theorem Guarded.gateEmits (h : t.Guarded) (i : Nat) :
    Guarded { t with gates := Function.update t.gates i (.emitting .lock) } := by
  refine ⟨h.driver.mono (fun _ hp => ⟨hp, rfl⟩) (fun _ _ hq => hq.same rfl rfl), ?_,
    h.ownerSlot, h.eventOff, h.emptied⟩
  intro j
  by_cases hj : j = i
  · subst hj
    show GateHolds _ j (Function.update t.gates j _ j)
    rw [Function.update_self]
    intro hne
    exact absurd rfl hne
  · show GateHolds _ j (Function.update t.gates i _ j)
    rw [Function.update_of_ne hj]
    exact (h.gates j).mono (fun _ _ hq => hq.same rfl rfl)

end Tasks

/-! ## §6. Steps of the owner. -/

section Owner

variable {t t' : Teardown}

/-- A step of the owner keeps what the tasks hold if it leaves alone every slot the driver
has locked and every mutex a task holds. -/
theorem Guarded.owner_moves (h : t.Guarded) (hdriver : t'.driver = t.driver)
    (hgates : t'.gates = t.gates)
    (hslot : ∀ p, t.slotLock p = some .driver →
      t'.slotLock p = some .driver ∧ t'.slot p = t.slot p)
    (hholds : ∀ q e pc, t.Holds q e pc → t'.Holds q e pc)
    (howner : ∀ p, t'.owner.inSlot p → t'.slotLock p = some .owner)
    (hevent : t'.owner.eventDone = true → t'.active .event = false)
    (hemptied : ∀ p, t'.owner.emptied p = true → t'.slot p = none) : t'.Guarded where
  driver := by rw [hdriver]; exact h.driver.mono hslot (hholds .driver)
  gates := by intro i; rw [hgates]; exact (h.gates i).mono (hholds (.gate i))
  ownerSlot := howner
  eventOff := hevent
  emptied := hemptied

/-- A registration goes into a slot that the driver has not locked. -/
theorem Guarded.register (h : t.Guarded) (hserving : t.owner = .serving) {p : Pipe}
    (hfree : t.slotLock p = none) (n : Nat) :
    Guarded { t with slot := Function.update t.slot p (some n), registrations := n + 1 } := by
  refine h.owner_moves rfl rfl ?_ (fun _ _ _ hq => hq.same rfl rfl) h.ownerSlot h.eventOff ?_
  · intro q hq
    have hne : q ≠ p := by
      rintro rfl
      rw [hfree] at hq
      cases hq
    exact ⟨hq, Function.update_of_ne hne _ _⟩
  · intro q hq
    rw [show OwnerPc.emptied _ q = OwnerPc.emptied .serving q by rw [← hserving]] at hq
    cases hq

/-- The owner deactivates an emitter whose mutex is free. -/
theorem Guarded.deactivateStep (h : t.Guarded) {e : Emitter} {next : OwnerPc}
    (hstep : t.deactivateStep e next = some t')
    (howner : ∀ p, next.inSlot p → t.slotLock p = some .owner)
    (hevent : next.eventDone = true → e = .event ∨ t.active .event = false)
    (hemptied : ∀ p, next.emptied p = true → t.slot p = none) : t'.Guarded := by
  obtain ⟨hfree, hstep⟩ := Option.ite_none_right_eq_some.mp hstep
  cases hstep
  refine h.owner_moves rfl rfl (fun _ hp => ⟨hp, rfl⟩) ?_ howner ?_ hemptied
  · intro q e' pc hq
    -- a task in a callback holds the mutex, which the owner found free
    exact hq.deactivate hfree rfl rfl
  · intro hnext
    show Function.update t.active e false .event = false
    by_cases he : Emitter.event = e
    · rw [← he, Function.update_self]
    · rw [Function.update_of_ne he]
      rcases hevent hnext with heq | hoff
      · exact absurd heq.symm he
      · exact hoff

/-- The owner locks a slot and takes out what is in it. -/
theorem Guarded.take (h : t.Guarded) {p : Pipe} (hpc : t.owner = .lockSlot p)
    (hfree : t.slotLock p = none) {next : OwnerPc} (hin : ∀ q, next.inSlot q → q = p)
    (hemptied : ∀ q, next.emptied q = true → q = p ∨ t.owner.emptied q = true) :
    Guarded { t.setSlotLock p (some .owner) with
              slot := Function.update t.slot p none, owner := next } := by
  refine h.owner_moves rfl rfl ?_ (fun _ _ _ hq => hq.same rfl rfl) ?_ ?_ ?_
  · intro q hq
    -- the driver has not locked the slot that was free
    have hne : q ≠ p := by
      rintro rfl
      rw [hfree] at hq
      cases hq
    refine ⟨?_, Function.update_of_ne hne _ _⟩
    show Function.update t.slotLock p (some .owner) q = some .driver
    rw [Function.update_of_ne hne, hq]
  · intro q hq
    rw [hin q hq]
    show Function.update t.slotLock p (some .owner) p = some .owner
    rw [Function.update_self]
  · intro _
    exact h.eventOff (by rw [hpc]; rfl)
  · intro q hq
    show Function.update t.slot p none q = none
    by_cases hqp : q = p
    · rw [hqp, Function.update_self]
    · rw [Function.update_of_ne hqp]
      rcases hemptied q hq with heq | hold
      · exact absurd heq hqp
      · exact h.emptied q hold

/-- The owner unlocks the slot it emptied. -/
theorem Guarded.release (h : t.Guarded) {p : Pipe} (hpc : t.owner = .unlockSlot p)
    {next : OwnerPc} (hin : ∀ q, ¬ next.inSlot q)
    (hemptied : ∀ q, next.emptied q = true → t.owner.emptied q = true) :
    Guarded { t.setSlotLock p none with owner := next } := by
  -- the slot is the owner's, so the driver's are others
  have hheld : t.slotLock p = some .owner := h.ownerSlot p (by rw [hpc]; rfl)
  refine h.owner_moves rfl rfl ?_ (fun _ _ _ hq => hq.same rfl rfl) ?_ ?_ ?_
  · intro q hq
    have hne : q ≠ p := by
      rintro rfl
      rw [hheld] at hq
      cases hq
    refine ⟨?_, rfl⟩
    show Function.update t.slotLock p none q = some .driver
    rw [Function.update_of_ne hne, hq]
  · intro q hq
    exact absurd hq (hin q)
  · intro _
    exact h.eventOff (by rw [hpc]; rfl)
  · intro q hq
    exact h.emptied q (hemptied q hq)

theorem Guarded.ownerStep (h : t.Guarded) (hstep : t.ownerStep = some t') : t'.Guarded := by
  have hemptied := h.emptied
  have heventOff := h.eventOff
  have hownerSlot := h.ownerSlot
  unfold Teardown.ownerStep at hstep
  cases hpc : t.owner with
  | serving =>
    rw [hpc] at hstep
    cases hstep
    refine h.owner_moves rfl rfl (fun _ hp => ⟨hp, rfl⟩) (fun _ _ _ hq => hq.same rfl rfl) ?_ ?_ ?_
    · intro p hp; exact hp.elim
    · intro hdone; cases hdone
    · intro p hp; cases hp
  | joining =>
    rw [hpc] at hstep
    cases hstep
    refine h.owner_moves rfl rfl (fun _ hp => ⟨hp, rfl⟩) (fun _ _ _ hq => hq.same rfl rfl) ?_ ?_ ?_
    · intro p hp; exact hp.elim
    · intro hdone; cases hdone
    · intro p hp; cases hp
  | deactivateEvent =>
    rw [hpc] at hstep
    refine h.deactivateStep hstep ?_ (fun _ => .inl rfl) ?_
    · intro p hp; exact hp.elim
    · intro p hp; cases hp
  -- the lock is taken, and with it whatever emitter the slot holds
  | lockSlot p =>
    rw [hpc] at hstep
    obtain ⟨hfree, hstep⟩ := Option.ite_none_right_eq_some.mp hstep
    rw [Option.some.injEq] at hstep
    subst hstep
    refine h.take hpc hfree ?_ ?_
    · intro q hq
      cases hslot : t.slot p <;> rw [hslot] at hq <;> exact hq
    · intro q hq
      rw [hpc]
      cases hslot : t.slot p <;> rw [hslot] at hq <;> cases p <;> cases q <;>
        simp_all [OwnerPc.emptied]
  | deactivate p n =>
    rw [hpc] at hstep hemptied heventOff hownerSlot
    refine h.deactivateStep hstep ?_ (fun _ => .inr (heventOff rfl)) ?_
    · intro q hq; exact hownerSlot q hq
    · intro q hq
      refine hemptied q ?_
      cases p <;> cases q <;> simp_all [OwnerPc.emptied]
  -- the slot was emptied while it was locked
  | unlockSlot p =>
    rw [hpc] at hstep
    rw [Option.some.injEq] at hstep
    subst hstep
    refine h.release hpc ?_ ?_
    · intro q hq
      cases p <;> exact hq
    · intro q hq
      rw [hpc]
      cases p <;> cases q <;> simp_all [OwnerPc.emptied]
  | returned => rw [hpc] at hstep; cases hstep

end Owner

/-! ## §7. Steps and runs. -/

theorem Guarded.step {t t' : Teardown} {a : TeardownAction} (h : t.Guarded)
    (hstep : t.step a = some t') : t'.Guarded := by
  cases a with
  | driverEmits =>
    obtain ⟨_, hstep⟩ := Option.ite_none_right_eq_some.mp hstep
    cases hstep
    refine h.driver_moves rfl (fun _ hq => hq) ?_
    intro hne
    exact absurd rfl hne
  | driverAnswers p =>
    obtain ⟨_, hstep⟩ := Option.ite_none_right_eq_some.mp hstep
    cases hstep
    exact h.driver_moves rfl (fun _ hq => hq) trivial
  | driverFinishes =>
    obtain ⟨_, hstep⟩ := Option.ite_none_right_eq_some.mp hstep
    cases hstep
    exact h.driver_moves rfl (fun _ hq => hq) trivial
  | driverGoesOn => exact h.driverStep hstep
  | gateEmits i =>
    obtain ⟨_, hstep⟩ := Option.ite_none_right_eq_some.mp hstep
    cases hstep
    exact h.gateEmits i
  | gateGoesOn i => exact h.gateStep hstep
  | register p =>
    obtain ⟨⟨hserving, hfree⟩, hstep⟩ := Option.ite_none_right_eq_some.mp hstep
    cases hstep
    exact h.register hserving hfree _
  | ownerGoesOn => exact h.ownerStep hstep

theorem driverStep_owner {t t' : Teardown} (hstep : t.driverStep = some t') :
    t'.owner = t.owner := by
  unfold driverStep at hstep
  split at hstep
  · cases hstep
  · obtain ⟨⟨u, next⟩, hemit, rfl⟩ := Option.map_eq_some_iff.mp hstep
    rw [emitStep_frame hemit]
  · obtain ⟨_, hstep⟩ := Option.ite_none_right_eq_some.mp hstep
    cases hstep
    rfl
  · split at hstep <;> cases hstep <;> rfl
  · obtain ⟨⟨u, next⟩, hemit, rfl⟩ := Option.map_eq_some_iff.mp hstep
    rw [emitStep_frame hemit]
  · cases hstep
    rfl
  · cases hstep

theorem gateStep_owner {t t' : Teardown} {i : Nat} (hstep : t.gateStep i = some t') :
    t'.owner = t.owner := by
  unfold gateStep at hstep
  split at hstep
  · cases hstep
  · obtain ⟨⟨u, next⟩, hemit, rfl⟩ := Option.map_eq_some_iff.mp hstep
    rw [emitStep_frame hemit]

/-- Once it has returned, the owner stays so. -/
theorem step_returned {t t' : Teardown} {a : TeardownAction} (h : t.owner = .returned)
    (hstep : t.step a = some t') : t'.owner = .returned := by
  cases a with
  | driverGoesOn => rw [driverStep_owner hstep, h]
  | gateGoesOn i => rw [gateStep_owner hstep, h]
  | ownerGoesOn =>
    simp only [step, ownerStep, h] at hstep
    cases hstep
  | register p =>
    obtain ⟨⟨hserving, _⟩, _⟩ := Option.ite_none_right_eq_some.mp hstep
    rw [h] at hserving
    cases hserving
  | driverEmits | driverAnswers | driverFinishes | gateEmits =>
    obtain ⟨_, hstep⟩ := Option.ite_none_right_eq_some.mp hstep
    cases hstep
    exact h

/-- With the owner returned, every emitter a callback could go through is out of reach: the
event emitter is inactive, and both slots are empty. -/
theorem Guarded.no_callback {t : Teardown} (h : t.Guarded) (hret : t.owner = .returned)
    (e : Emitter) : ¬ t.InCallback e := by
  have hevent : t.active .event = false := h.eventOff (by rw [hret]; rfl)
  have hslot : ∀ p, t.slot p = none := by
    intro p
    exact h.emptied p (by rw [hret]; rfl)
  have hdriver := h.driver
  rintro (⟨hcall, _⟩ | ⟨i, hcall, _⟩ | ⟨p, n, hcall, _⟩)
  · rw [hcall] at hdriver
    -- in the callback the emitter is active, but it has been deactivated
    have hactive := (hdriver (by decide)).2 rfl
    rw [hevent] at hactive
    cases hactive
  · have hgate := h.gates i
    rw [hcall] at hgate
    have hactive := (hgate (by decide)).2 rfl
    rw [hevent] at hactive
    cases hactive
  · rw [hcall] at hdriver
    -- a delivery holds its slot with the emitter in it, but the slot was emptied
    have hvalue := hdriver.2.1
    rw [hslot p] at hvalue
    cases hvalue

/-- **No callback after destroy.**  In every interleaving of the driver, the gates and the
owner: once `shutdown_and_join` has returned, no event, file or exec callback is in progress,
then or in any state that follows. -/
theorem no_callback_after_destroy (acts : List TeardownAction) (t : Teardown)
    (hrun : exec Teardown.step initial acts = some t) (hret : t.owner = .returned) :
    ∀ more u, exec Teardown.step t more = some u → ∀ e, ¬ u.InCallback e := by
  intro more u hmore e
  have hguarded : t.Guarded :=
    exec_invariant (fun _ _ _ h hstep => h.step hstep) Guarded.initial hrun
  have hlater : u.Guarded ∧ u.owner = .returned :=
    exec_invariant (I := fun v => v.Guarded ∧ v.owner = .returned)
      (fun _ _ _ h hstep => ⟨h.1.step hstep, step_returned h.2 hstep⟩) ⟨hguarded, hret⟩ hmore
  exact hlater.1.no_callback hlater.2 e

/-- A file callback is registered twice; the driver is in a file callback and a gate in a prompt
when the join runs out; both come back, and the owner deactivates what is left. -/
def detachedRun : List TeardownAction :=
  [.register .file, .register .file, .register .exec, .driverAnswers .file, .driverGoesOn,
    .driverGoesOn, .driverGoesOn, .driverGoesOn, .gateEmits 0, .gateGoesOn 0, .gateGoesOn 0,
    .ownerGoesOn, .ownerGoesOn, .gateGoesOn 0, .ownerGoesOn, .driverGoesOn, .driverGoesOn,
    .ownerGoesOn, .ownerGoesOn, .ownerGoesOn, .ownerGoesOn, .ownerGoesOn, .ownerGoesOn]

/-- Afterwards the detached driver still runs into its emitters, without a callback. -/
def detachedRest : List TeardownAction :=
  [.driverEmits, .driverGoesOn, .driverGoesOn, .driverAnswers .exec, .driverGoesOn,
    .driverGoesOn, .driverGoesOn]

theorem no_callback_after_destroy_detached :
    ∃ t u, exec Teardown.step initial detachedRun = some t ∧ t.owner = .returned ∧
      exec Teardown.step t detachedRest = some u ∧ u.driver = .running ∧
      ¬ u.InCallback .event := by
  obtain ⟨u, hall⟩ : ∃ u, exec Teardown.step initial (detachedRun ++ detachedRest) = some u :=
    Option.isSome_iff_exists.mp (by decide)
  have hdriver : (exec Teardown.step initial (detachedRun ++ detachedRest)).map (·.driver)
      = some .running := by decide
  have howner : (exec Teardown.step initial detachedRun).map (·.owner) = some .returned := by
    decide
  rw [exec_append, Option.bind_eq_some_iff] at hall
  obtain ⟨t, hrun, hrest⟩ := hall
  rw [exec_append, hrun, Option.bind_some, hrest, Option.map_some, Option.some.injEq] at hdriver
  rw [hrun, Option.map_some, Option.some.injEq] at howner
  exact ⟨t, u, hrun, howner, hrest, hdriver,
    no_callback_after_destroy detachedRun t hrun howner detachedRest u hrest .event⟩

end Teardown

end ResearchSSH.Core
