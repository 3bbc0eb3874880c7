/-
  ResearchSSH.Core.HostKeyGate — from the host-key prompt to the user's decision.

  `HostKeyGate::confirm` puts the sending end of a fresh channel into the one slot of the
  session, emits a prompt with the fingerprint, and awaits the other end.  The prompt travels
  to the UI through a queue; the dialog shows the fingerprint delivered last; a press of one of
  its two buttons takes whatever sender is in the slot *then* and sends the bare decision.

  Nothing connects the decision with the fingerprint it was made for.  A `confirm` of a later
  connection attempt replaces the sender while the dialog still shows the earlier fingerprint,
  and the press answers the later one (`wrongKeyRun`).

  Main results:
    * `Consistent.step` — the slot holds the latest call or nothing, and every call that still
      waits is in it.
    * `bound_iff_pressed_on_latest` — decisions are bound to what was shown exactly in the runs
      in which no press happens on an outdated prompt while the latest call waits.
-/

import Mathlib.Logic.Function.Basic
import ResearchSSH.Library.Transition

namespace ResearchSSH.Core

open ResearchSSH.Library

/-! ## §1. States and steps. -/

/-- What has become of a `confirm` call. -/
inductive ConfirmStatus
  /-- Nothing was sent to it yet. -/
  | waiting
  /-- A decision was sent and not yet received. -/
  | decided (accept : Bool)
  /-- Its sender was dropped. -/
  | dropped
  | returned (accept : Bool)
  /-- Its future was dropped: the attempt was cancelled or failed. -/
  | abandoned
  deriving DecidableEq, Repr

/-- A press of a button of the dialog: the prompt on display, the button, and the call that
received the decision. -/
structure Press where
  shown : Nat × String
  accept : Bool
  resolved : Option Nat
  deriving DecidableEq, Repr

/-- The `confirm` calls of one session, numbered in order, the slot, the prompts on their way to
the UI and the dialog.  A prompt carries the number of its call in the model only; the code
carries the fingerprint. -/
structure HostKey where
  calls : Nat
  fingerprint : Nat → String
  status : Nat → ConfirmStatus
  /-- The call has emitted its prompt. -/
  prompted : Nat → Bool
  /-- `host_key_pending`: the call whose sender is in the slot. -/
  pending : Option Nat
  prompts : List (Nat × String)
  dialog : Option (Nat × String)
  presses : List Press

/-- What can happen next. -/
inductive HostKeyAction
  /-- A `confirm` call stores its sender. -/
  | confirm (fingerprint : String)
  /-- The call emits its prompt. -/
  | emitPrompt (n : Nat)
  /-- The UI takes the next prompt: `HostKeyDialog.show`. -/
  | deliver
  /-- A button of the dialog: `confirmHostKey(accept)`. -/
  | press (accept : Bool)
  /-- The call returns. -/
  | returns (n : Nat)
  /-- The attempt of the call is cancelled or fails. -/
  | abandon (n : Nat)
  deriving DecidableEq, Repr

namespace HostKey

/-- No call was made. -/
def initial : HostKey :=
  { calls := 0, fingerprint := fun _ => "", status := fun _ => .waiting
    prompted := fun _ => false, pending := none, prompts := [], dialog := none, presses := [] }

/-- The call goes on or ends. -/
def setStatus (s : HostKey) (n : Nat) (status : ConfirmStatus) : HostKey :=
  { s with status := Function.update s.status n status }

/-- The sender in the slot is dropped, because another one takes its place. -/
def dropPending (s : HostKey) : HostKey :=
  match s.pending with
  | some n => if s.status n = .waiting then s.setStatus n .dropped else s
  | none => s

/-- The first half of `confirm`: the sender goes into the slot. -/
def confirm (s : HostKey) (fingerprint : String) : HostKey :=
  -- There is one slot, whichever attempt the sender in it belongs to.
  let s := s.dropPending
  { s with
    calls := s.calls + 1
    fingerprint := Function.update s.fingerprint s.calls fingerprint
    status := Function.update s.status s.calls .waiting
    prompted := Function.update s.prompted s.calls false
    pending := some s.calls }

/-- The call that `confirm_host_key` sends its decision to: the one in the slot, if its
receiver is still there. -/
def receiver (s : HostKey) : Option Nat :=
  match s.pending with
  | some n => if s.status n = .waiting then some n else none
  | none => none

/-- A button of the dialog showing `shown`: `confirm_host_key(accept)`, and the dialog closes. -/
def press (s : HostKey) (shown : Nat × String) (accept : Bool) : HostKey :=
  -- The decision goes to the call in the slot, not to the one that is shown.
  let resolved := s.receiver
  let s := match resolved with
           | some n => s.setStatus n (.decided accept)
           | none => s
  { s with pending := none, dialog := none, presses := s.presses ++ [⟨shown, accept, resolved⟩] }

/-- One thing happens; `none` if it cannot. -/
def step (s : HostKey) : HostKeyAction → Option HostKey
  | .confirm fingerprint => some (s.confirm fingerprint)
  | .emitPrompt n =>
    if n < s.calls ∧ s.prompted n = false then
      some { s with prompted := Function.update s.prompted n true
                    prompts := s.prompts ++ [(n, s.fingerprint n)] }
    else none
  | .deliver =>
    match s.prompts with
    | prompt :: rest => some { s with prompts := rest, dialog := some prompt }
    | [] => none
  | .press accept =>
    match s.dialog with
    | some shown => some (s.press shown accept)
    | none => none
  | .returns n =>
    if n < s.calls ∧ s.prompted n = true then
      match s.status n with
      | .decided accept => some (s.setStatus n (.returned accept))
      -- A dropped sender counts as a refusal.
      | .dropped => some (s.setStatus n (.returned false))
      | _ => none
    else none
  | .abandon n =>
    if n < s.calls ∧ s.prompted n = true then
      match s.status n with
      | .returned _ => none
      | _ => some (s.setStatus n .abandoned)
    else none

/-! ## §2. The property and the condition. -/

/-- A decision went to the call whose prompt was on display. -/
def Press.Bound (p : Press) : Prop := ∀ n, p.resolved = some n → p.shown.1 = n

/-- Decisions are bound to what the user saw: a call that returned `true` was accepted while the
dialog displayed exactly its fingerprint, and no decision made for one prompt resolved another
call. -/
def DecisionsBound (s : HostKey) : Prop :=
  (∀ n, n < s.calls → s.status n = .returned true →
      ∃ p ∈ s.presses, p.accept = true ∧ p.shown.2 = s.fingerprint n) ∧
    ∀ p ∈ s.presses, Press.Bound p

/-- At a press, the dialog shows the prompt of the latest `confirm` call, or that call no longer
waits. -/
def PressedOnLatest (s : HostKey) : HostKeyAction → Prop
  | .press _ =>
    ∀ shown ∈ s.dialog, shown.1 + 1 = s.calls ∨ s.status (s.calls - 1) ≠ .waiting
  | _ => True

instance (s : HostKey) : (a : HostKeyAction) → Decidable (s.PressedOnLatest a)
  | .press _ =>
    match h : s.dialog with
    | some shown =>
      decidable_of_iff (shown.1 + 1 = s.calls ∨ s.status (s.calls - 1) ≠ .waiting)
        (by simp [PressedOnLatest, h])
    | none => isTrue (by simp [PressedOnLatest, h])
  | .confirm _ | .emitPrompt _ | .deliver | .returns _ | .abandon _ =>
    inferInstanceAs (Decidable True)

/-! ## §3. The invariant. -/

/-- The prompt names its call's fingerprint. -/
def Genuine (s : HostKey) (prompt : Nat × String) : Prop :=
  prompt.1 < s.calls ∧ prompt.2 = s.fingerprint prompt.1

/-- What holds of the gate between two steps. -/
structure Consistent (s : HostKey) : Prop where
  latest : ∀ n, s.pending = some n → n + 1 = s.calls
  /-- A call that still waits is the one in the slot. -/
  waiting : ∀ n, n < s.calls → s.status n = .waiting → s.pending = some n
  prompts : ∀ prompt ∈ s.prompts, s.Genuine prompt
  dialog : ∀ prompt ∈ s.dialog, s.Genuine prompt
  presses : ∀ p ∈ s.presses, s.Genuine p.shown
  /-- A call is accepted only by an accepting press that resolved it. -/
  accepted : ∀ n, n < s.calls → s.status n = .decided true ∨ s.status n = .returned true →
    ∃ p ∈ s.presses, p.accept = true ∧ p.resolved = some n

/-- No call was made. -/
theorem Consistent.initial : Consistent initial where
  latest := by intro n h; cases h
  waiting := by intro n h; exact absurd h (Nat.not_lt_zero n)
  prompts := by intro prompt h; cases h
  dialog := by intro prompt h; cases h
  presses := by intro p h; cases h
  accepted := by intro n h; exact absurd h (Nat.not_lt_zero n)

/-- The call that waited fails. -/
theorem dropPending_frame (s : HostKey) :
    s.dropPending = { s with status := s.dropPending.status } := by
  unfold dropPending
  split
  · split <;> rfl
  · rfl

/-- A status that `dropPending` leaves is the one from before, or `dropped`. -/
theorem dropPending_status (s : HostKey) (n : Nat) :
    s.dropPending.status n = s.status n ∨
      s.pending = some n ∧ s.dropPending.status n = .dropped := by
  unfold dropPending
  split
  · next m hm =>
    split
    · by_cases hn : n = m
      · subst hn
        refine .inr ⟨hm, ?_⟩
        show Function.update s.status n .dropped n = .dropped
        rw [Function.update_self]
      · left
        show Function.update s.status m .dropped n = s.status n
        rw [Function.update_of_ne hn]
    · exact .inl rfl
  · exact .inl rfl

/-- After it nobody waits. -/
theorem Consistent.dropPending_waiting {s : HostKey} (h : s.Consistent) {n : Nat}
    (hn : n < s.calls) : s.dropPending.status n ≠ .waiting := by
  intro hwait
  by_cases hpend : s.pending = some n
  · by_cases hs : s.status n = .waiting
    · unfold dropPending at hwait
      simp only [hpend, hs, if_true] at hwait
      rw [show (s.setStatus n .dropped).status n = .dropped from Function.update_self _ _ _] at hwait
      cases hwait
    · rcases dropPending_status s n with hsame | ⟨_, hdrop⟩
      · exact hs (hsame ▸ hwait)
      · rw [hdrop] at hwait
        cases hwait
  · rcases dropPending_status s n with hsame | ⟨hp, _⟩
    · exact hpend (h.waiting n hn (hsame ▸ hwait))
    · exact hpend hp

/-- The receiver of a decision is the latest call. -/
theorem Consistent.receiver_eq {s : HostKey} (h : s.Consistent) {n : Nat}
    (hn : s.receiver = some n) : s.pending = some n ∧ s.status n = .waiting ∧ n + 1 = s.calls := by
  unfold receiver at hn
  split at hn
  · next m hm =>
    obtain ⟨hwait, heq⟩ := Option.ite_none_right_eq_some.mp hn
    cases heq
    exact ⟨hm, hwait, h.latest n hm⟩
  · cases hn

/-- Nobody receives a decision only if nobody waits. -/
theorem Consistent.receiver_none {s : HostKey} (h : s.Consistent) (hr : s.receiver = none)
    {n : Nat} (hn : n < s.calls) : s.status n ≠ .waiting := by
  intro hwait
  have hpend := h.waiting n hn hwait
  unfold receiver at hr
  simp only [hpend, hwait, if_true] at hr
  cases hr

/-- A prompt of a call stays one. -/
theorem Genuine.mono {s t : HostKey} {prompt : Nat × String} (h : s.Genuine prompt)
    (hcalls : s.calls ≤ t.calls)
    (hfp : ∀ n, n < s.calls → t.fingerprint n = s.fingerprint n) : t.Genuine prompt :=
  ⟨Nat.lt_of_lt_of_le h.1 hcalls, h.2.trans (hfp _ h.1).symm⟩

/-! ## §4. Steps. -/

section Steps

variable {s : HostKey}

/-- A call stores its sender. -/
theorem Consistent.confirm (h : s.Consistent) (fingerprint : String) :
    (s.confirm fingerprint).Consistent := by
  have hframe := dropPending_frame s
  have hcalls : s.dropPending.calls = s.calls := by rw [hframe]
  -- the new call has a number of its own, so nothing known of the earlier ones changes
  have hkeep : ∀ n, n < s.calls → (s.confirm fingerprint).fingerprint n = s.fingerprint n := by
    intro n hn
    show Function.update s.dropPending.fingerprint s.dropPending.calls fingerprint n = _
    rw [Function.update_of_ne (by omega), hframe]
  have hgrow : s.calls ≤ (s.confirm fingerprint).calls := by
    show s.calls ≤ s.dropPending.calls + 1
    omega
  have hold : ∀ n, n ≠ s.calls →
      (s.confirm fingerprint).status n = s.dropPending.status n := by
    intro n hn
    show Function.update s.dropPending.status s.dropPending.calls .waiting n = _
    rw [Function.update_of_ne (by omega)]
  have hnew : (s.confirm fingerprint).status s.calls = .waiting := by
    show Function.update s.dropPending.status s.dropPending.calls .waiting s.calls = _
    rw [hcalls, Function.update_self]
  have hpresses : (s.confirm fingerprint).presses = s.presses := by
    show s.dropPending.presses = s.presses
    rw [hframe]
  have hprompts : (s.confirm fingerprint).prompts = s.prompts := by
    show s.dropPending.prompts = s.prompts
    rw [hframe]
  have hdialog : (s.confirm fingerprint).dialog = s.dialog := by
    show s.dropPending.dialog = s.dialog
    rw [hframe]
  refine ⟨?_, ?_, ?_, ?_, ?_, ?_⟩
  · intro n hn
    have hn' : some s.dropPending.calls = some n := hn
    cases hn'
    rfl
  · intro n hn hwait
    have hn' : n < s.dropPending.calls + 1 := hn
    show some s.dropPending.calls = some n
    by_cases hlast : n = s.calls
    · rw [hlast, hcalls]
    · -- the calls from before do not wait any more
      rw [hold n hlast] at hwait
      exact absurd hwait (h.dropPending_waiting (by omega))
  · intro prompt hp
    rw [hprompts] at hp
    exact (h.prompts prompt hp).mono hgrow hkeep
  · intro prompt hp
    rw [hdialog] at hp
    exact (h.dialog prompt hp).mono hgrow hkeep
  · intro p hp
    rw [hpresses] at hp
    exact (h.presses p hp).mono hgrow hkeep
  · intro n hn hst
    rw [hpresses]
    have hn' : n < s.dropPending.calls + 1 := hn
    by_cases hlast : n = s.calls
    · rw [hlast, hnew] at hst
      rcases hst with hst | hst <;> cases hst
    · rw [hold n hlast] at hst
      rcases dropPending_status s n with hsame | ⟨_, hdrop⟩
      · rw [hsame] at hst
        exact h.accepted n (by omega) hst
      · rw [hdrop] at hst
        rcases hst with hst | hst <;> cases hst

/-- A call that is not resolved by it changes its status to one that neither waits nor is newly
accepted. -/
theorem Consistent.setStatus (h : s.Consistent) {n : Nat} {status : ConfirmStatus}
    (hwait : status ≠ .waiting) (hdec : status ≠ .decided true)
    (hret : status = .returned true → s.status n = .decided true) :
    (s.setStatus n status).Consistent := by
  refine ⟨h.latest, ?_, h.prompts, h.dialog, h.presses, ?_⟩
  · intro m hm hst
    have hst' : Function.update s.status n status m = .waiting := hst
    by_cases hmn : m = n
    · rw [hmn, Function.update_self] at hst'
      exact absurd hst' hwait
    · rw [Function.update_of_ne hmn] at hst'
      exact h.waiting m hm hst'
  · intro m hm hst
    have hst' : Function.update s.status n status m = .decided true ∨
        Function.update s.status n status m = .returned true := hst
    by_cases hmn : m = n
    · subst hmn
      rw [Function.update_self] at hst'
      rcases hst' with hst' | hst'
      · exact absurd hst' hdec
      · exact h.accepted m hm (.inl (hret hst'))
    · rw [Function.update_of_ne hmn] at hst'
      exact h.accepted m hm hst'

/-- A button is pressed. -/
theorem Consistent.press (h : s.Consistent) {shown : Nat × String} (hshown : s.dialog = some shown)
    (accept : Bool) : (s.press shown accept).Consistent := by
  have hgenuine : s.Genuine shown := h.dialog shown hshown
  unfold HostKey.press
  simp only
  have hpresses : ∀ p ∈ s.presses ++ [⟨shown, accept, s.receiver⟩], s.Genuine p.shown := by
    intro p hp
    rcases List.mem_append.mp hp with hp | hp
    · exact h.presses p hp
    · rw [List.mem_singleton.mp hp]
      exact hgenuine
  cases hr : s.receiver with
  | none =>
    rw [hr] at hpresses
    refine ⟨?_, ?_, h.prompts, ?_, hpresses, ?_⟩
    · intro n hn; cases hn
    · intro n hn hwait
      exact absurd hwait (h.receiver_none hr hn)
    · intro prompt hp; cases hp
    · intro n hn hst
      obtain ⟨p, hp, hacc⟩ := h.accepted n hn hst
      exact ⟨p, List.mem_append_left _ hp, hacc⟩
  | some m =>
    rw [hr] at hpresses
    obtain ⟨hpend, _, hlast⟩ := h.receiver_eq hr
    refine ⟨?_, ?_, h.prompts, ?_, hpresses, ?_⟩
    · intro n hn; cases hn
    · intro n hn hwait
      have hwait' : Function.update s.status m (.decided accept) n = .waiting := hwait
      by_cases hnm : n = m
      · rw [hnm, Function.update_self] at hwait'
        cases hwait'
      · rw [Function.update_of_ne hnm] at hwait'
        -- whoever waited was in the slot
        rw [h.waiting n hn hwait', Option.some.injEq] at hpend
        exact absurd hpend hnm
    · intro prompt hp; cases hp
    · intro n hn hst
      have hst' : Function.update s.status m (.decided accept) n = .decided true ∨
          Function.update s.status m (.decided accept) n = .returned true := hst
      by_cases hnm : n = m
      · subst hnm
        rw [Function.update_self] at hst'
        -- this press accepted the call
        have hacc : accept = true := by
          rcases hst' with hst' | hst'
          · exact ConfirmStatus.decided.inj hst'
          · cases hst'
        exact ⟨⟨shown, accept, some n⟩, List.mem_append_right _ (List.mem_singleton.mpr rfl),
          hacc, rfl⟩
      · rw [Function.update_of_ne hnm] at hst'
        obtain ⟨p, hp, hacc⟩ := h.accepted n hn hst'
        exact ⟨p, List.mem_append_left _ hp, hacc⟩

/-- **One step** keeps it. -/
theorem Consistent.step {t : HostKey} {a : HostKeyAction} (h : s.Consistent)
    (hstep : s.step a = some t) : t.Consistent := by
  cases a with
  | confirm fingerprint =>
    cases hstep
    exact h.confirm fingerprint
  -- the prompt shows the fingerprint of the confirm that asked
  | emitPrompt n =>
    obtain ⟨⟨hn, _⟩, hstep⟩ := Option.ite_none_right_eq_some.mp hstep
    cases hstep
    refine ⟨h.latest, h.waiting, ?_, h.dialog, h.presses, h.accepted⟩
    intro prompt hp
    rcases List.mem_append.mp hp with hp | hp
    · exact h.prompts prompt hp
    · rw [List.mem_singleton.mp hp]
      exact ⟨hn, rfl⟩
  | deliver =>
    simp only [HostKey.step] at hstep
    split at hstep
    · next prompt rest hprompts =>
      cases hstep
      refine ⟨h.latest, h.waiting, ?_, ?_, h.presses, h.accepted⟩
      · intro p hp
        exact h.prompts p (by rw [hprompts]; exact List.mem_cons_of_mem _ hp)
      · intro p hp
        cases hp
        exact h.prompts prompt (by rw [hprompts]; exact List.mem_cons_self)
    · cases hstep
  | press accept =>
    simp only [HostKey.step] at hstep
    split at hstep
    · next shown hshown =>
      cases hstep
      exact h.press hshown accept
    · cases hstep
  | returns n =>
    obtain ⟨_, hstep⟩ := Option.ite_none_right_eq_some.mp hstep
    split at hstep
    · next accept hst =>
      cases hstep
      refine h.setStatus (by simp) (by simp) ?_
      intro hret
      rw [hst, ConfirmStatus.returned.inj hret]
    · cases hstep
      exact h.setStatus (by simp) (by simp) (by simp)
    · cases hstep
  | abandon n =>
    obtain ⟨_, hstep⟩ := Option.ite_none_right_eq_some.mp hstep
    split at hstep
    · cases hstep
    · cases hstep
      exact h.setStatus (by simp) (by simp) (by simp)

end Steps

/-! ## §5. Runs. -/

/-- Every decision so far went to the call whose prompt was on display. -/
def PressesBound (s : HostKey) : Prop := ∀ p ∈ s.presses, Press.Bound p

/-- In a consistent state that is the whole of the property. -/
theorem Consistent.decisionsBound_iff {s : HostKey} (h : s.Consistent) :
    s.DecisionsBound ↔ s.PressesBound := by
  constructor
  · intro hbound
    exact hbound.2
  · intro hpresses
    refine ⟨?_, hpresses⟩
    intro n hn hst
    obtain ⟨p, hp, hacc, hres⟩ := h.accepted n hn (.inr hst)
    -- the press that accepted the call was bound to it, and prompts are genuine
    have hshown : p.shown.1 = n := hpresses p hp n hres
    have hgenuine := (h.presses p hp).2
    rw [hshown] at hgenuine
    exact ⟨p, hp, hacc, hgenuine⟩

/-- What one press adds is bound exactly if the press meets the condition. -/
theorem Consistent.press_bound_iff {s : HostKey} (h : s.Consistent) {shown : Nat × String}
    (hshown : s.dialog = some shown) (accept : Bool) :
    Press.Bound ⟨shown, accept, s.receiver⟩ ↔ s.PressedOnLatest (.press accept) := by
  have hlt : shown.1 < s.calls := (h.dialog shown hshown).1
  constructor
  · intro hbound shown' hmem
    cases hshown.symm.trans hmem
    cases hr : s.receiver with
    | none =>
      right
      exact h.receiver_none hr (by omega)
    | some n =>
      left
      obtain ⟨_, _, hlast⟩ := h.receiver_eq hr
      rw [hbound n hr, hlast]
  · intro hcond n hr
    obtain ⟨_, hwait, hlast⟩ := h.receiver_eq hr
    -- the call that receives the decision is the latest one, and it waits
    rcases hcond shown hshown with heq | hdone
    · show shown.1 = n
      omega
    · rw [show s.calls - 1 = n by omega] at hdone
      exact absurd hwait hdone

/-- What one step adds to the condition. -/
theorem Consistent.step_bound_iff {s t : HostKey} {a : HostKeyAction} (h : s.Consistent)
    (hstep : s.step a = some t) :
    t.PressesBound ↔ s.PressesBound ∧ s.PressedOnLatest a := by
  -- all but a press leave what was pressed as it is
  have hsame : t.presses = s.presses → s.PressedOnLatest a →
      (t.PressesBound ↔ s.PressesBound ∧ s.PressedOnLatest a) := by
    intro heq hcond
    unfold PressesBound
    rw [heq]
    exact ⟨fun hb => ⟨hb, hcond⟩, fun hb => hb.1⟩
  cases a with
  | confirm fingerprint =>
    cases hstep
    refine hsame ?_ trivial
    show s.dropPending.presses = s.presses
    rw [dropPending_frame s]
  | emitPrompt n =>
    obtain ⟨_, hstep⟩ := Option.ite_none_right_eq_some.mp hstep
    cases hstep
    exact hsame rfl trivial
  | deliver =>
    simp only [HostKey.step] at hstep
    split at hstep <;> cases hstep
    exact hsame rfl trivial
  | press accept =>
    simp only [HostKey.step] at hstep
    split at hstep
    · next shown hshown =>
      cases hstep
      -- a press adds one entry, and that one is judged
      have hpresses : (s.press shown accept).presses
          = s.presses ++ [⟨shown, accept, s.receiver⟩] := by
        unfold HostKey.press
        simp only
        cases s.receiver <;> rfl
      rw [← h.press_bound_iff hshown accept]
      unfold PressesBound
      rw [hpresses]
      simp only [List.forall_mem_append, List.forall_mem_singleton]
    · cases hstep
  | returns n =>
    obtain ⟨_, hstep⟩ := Option.ite_none_right_eq_some.mp hstep
    split at hstep <;> cases hstep <;> exact hsame rfl trivial
  | abandon n =>
    obtain ⟨_, hstep⟩ := Option.ite_none_right_eq_some.mp hstep
    split at hstep <;> cases hstep
    exact hsame rfl trivial

/-- **Decisions are bound to what was shown exactly in the runs that press on the latest
prompt.**  At the end of a run every call that returned `true` was accepted while the dialog
displayed exactly its fingerprint, and no decision resolved the call of another prompt, if and
only if at every press the dialog showed the prompt of the latest `confirm` call or that call did
not wait any more. -/
theorem bound_iff_pressed_on_latest (acts : List HostKeyAction) (s : HostKey)
    (hrun : exec HostKey.step initial acts = some s) :
    s.DecisionsBound ↔ Along HostKey.step PressedOnLatest initial acts := by
  have hcons : s.Consistent :=
    exec_invariant (fun _ _ _ h hstep => h.step hstep) Consistent.initial hrun
  have hhistory : s.PressesBound ↔
      initial.PressesBound ∧ Along HostKey.step PressedOnLatest initial acts :=
    history_iff_along (fun _ _ _ h hstep => h.step hstep)
      (fun _ _ _ h hstep => h.step_bound_iff hstep) Consistent.initial hrun
  have hinitial : initial.PressesBound := by
    intro p hp
    cases hp
  rw [hcons.decisionsBound_iff, hhistory]
  exact ⟨fun hb => hb.2, fun hb => ⟨hinitial, hb⟩⟩

/-- The first attempt fails with its prompt on display; a second attempt asks for another key;
the user accepts the key on display. -/
def wrongKeyRun : List HostKeyAction :=
  [.confirm "SHA256:first", .emitPrompt 0, .deliver, .abandon 0, .confirm "SHA256:second",
    .emitPrompt 1, .press true, .returns 1]

/-- The second key is accepted though only the first was ever displayed. -/
theorem wrongKeyRun_accepts :
    ∃ s, exec HostKey.step initial wrongKeyRun = some s ∧ s.status 1 = .returned true ∧
      s.fingerprint 1 = "SHA256:second" ∧ s.presses.map (fun p => p.shown.2) = ["SHA256:first"] ∧
      ¬ s.DecisionsBound := by
  obtain ⟨s, hrun⟩ : ∃ s, exec HostKey.step initial wrongKeyRun = some s :=
    Option.isSome_iff_exists.mp (by decide)
  have hview : (exec HostKey.step initial wrongKeyRun).map
      (fun s => (s.status 1, s.fingerprint 1, s.presses))
        = some (.returned true, "SHA256:second", [⟨(0, "SHA256:first"), true, some 1⟩]) := by
    decide
  rw [hrun, Option.map_some, Option.some.injEq, Prod.mk.injEq, Prod.mk.injEq] at hview
  obtain ⟨hst, hfp, hpresses⟩ := hview
  refine ⟨s, hrun, hst, hfp, by rw [hpresses]; rfl, ?_⟩
  rintro ⟨_, hbound⟩
  have hwrong := hbound ⟨(0, "SHA256:first"), true, some 1⟩ (by rw [hpresses]; simp) 1 rfl
  cases hwrong

/-- The same with the second prompt delivered before the press. -/
def rightKeyRun : List HostKeyAction :=
  [.confirm "SHA256:first", .emitPrompt 0, .deliver, .abandon 0, .confirm "SHA256:second",
    .emitPrompt 1, .deliver, .press true, .returns 1]

theorem bound_iff_pressed_on_latest_rightKeyRun :
    ∃ s, exec HostKey.step initial rightKeyRun = some s ∧ s.status 1 = .returned true ∧
      s.DecisionsBound := by
  obtain ⟨s, hrun⟩ : ∃ s, exec HostKey.step initial rightKeyRun = some s :=
    Option.isSome_iff_exists.mp (by decide)
  have hview : (exec HostKey.step initial rightKeyRun).map (fun s => s.status 1)
      = some (.returned true) := by decide
  rw [hrun, Option.map_some, Option.some.injEq] at hview
  exact ⟨s, hrun, hview, (bound_iff_pressed_on_latest rightKeyRun s hrun).mpr (by decide)⟩

end HostKey

end ResearchSSH.Core
