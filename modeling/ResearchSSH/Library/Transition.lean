/-
  ResearchSSH.Library.Transition — executions of a labelled, partial step.

  A system is given by `step : σ → α → Option σ`: the label says which of the possible
  things happens next, and `none` says that it cannot happen in this state.  All the
  nondeterminism of a system (scheduling, the environment's answers) is in its labels, so
  "for every interleaving" is "for every list of labels".

  Main results:
    * `exec_append` — an execution can be cut anywhere.
    * `exec_invariant` — what holds at the start and is kept by every step holds at the end.
    * `along_of_invariant` — an invariant kept by the steps that meet a condition turns a
      run whose steps all meet that condition into a run whose steps all meet what the
      invariant gives.
    * `along_congr` — conditions that agree under an invariant are met by the same runs.
    * `history_iff_along` — a fact about the record of a run holds at its end exactly if every
      step met the condition under which it is kept.
    * `throughout_iff_along` — what the good steps keep and a bad step breaks at once holds
      throughout a run exactly if all its steps are good.
-/

import Mathlib.Data.List.Chain

namespace ResearchSSH.Library

universe u v
variable {σ : Type u} {α : Type v} (step : σ → α → Option σ)

/-! ## §1. Executions. -/

/-- The state after the labels have been taken one after another, if all were possible. -/
def exec : σ → List α → Option σ
  | s, [] => some s
  | s, a :: as =>
    match step s a with
    | some t => exec t as
    | none => none

@[simp] theorem exec_nil (s : σ) : exec step s [] = some s := rfl

theorem exec_cons (s : σ) (a : α) (as : List α) :
    exec step s (a :: as) = (step s a).bind (fun t => exec step t as) := by
  rw [exec]
  cases step s a <;> rfl

/-- The first step of an execution, and the rest of it. -/
theorem exec_cons_some {s t : σ} {a : α} {as : List α} :
    exec step s (a :: as) = some t ↔ ∃ m, step s a = some m ∧ exec step m as = some t := by
  rw [exec_cons, Option.bind_eq_some_iff]

theorem exec_singleton (s : σ) (a : α) : exec step s [a] = step s a := by
  rw [exec_cons]
  cases step s a <;> rfl

/-- A run in two parts. -/
theorem exec_append (s : σ) (as bs : List α) :
    exec step s (as ++ bs) = (exec step s as).bind (fun t => exec step t bs) := by
  induction as generalizing s with
  | nil => rfl
  | cons a as ih =>
    rw [List.cons_append, exec_cons, exec_cons, Option.bind_assoc]
    congr 1
    funext t
    exact ih t

/-- A state that some execution from `s` ends in. -/
def Reachable (s t : σ) : Prop := ∃ as, exec step s as = some t

theorem Reachable.refl (s : σ) : Reachable step s s := ⟨[], rfl⟩

variable {step}

/-- One step more. -/
theorem Reachable.tail {s t u : σ} {a : α} (h : Reachable step s t)
    (ha : step t a = some u) : Reachable step s u := by
  obtain ⟨as, has⟩ := h
  refine ⟨as ++ [a], ?_⟩
  rw [exec_append, has, Option.bind_some, exec_cons, ha]
  rfl

/-! ## §2. Invariants. -/

/-- **The invariant rule.**  What holds at the start and is kept by every step holds at
the end of every execution. -/
theorem exec_invariant {I : σ → Prop} (hstep : ∀ s a t, I s → step s a = some t → I t) :
    ∀ {as : List α} {s t : σ}, I s → exec step s as = some t → I t := by
  intro as
  induction as with
  | nil =>
    intro s t hs h
    rw [exec_nil, Option.some.injEq] at h
    exact h ▸ hs
  | cons a as ih =>
    intro s t hs h
    obtain ⟨m, ha, hm⟩ := (exec_cons_some step).mp h
    exact ih (hstep s a m hs ha) hm

/-- What every step keeps holds of every reachable state. -/
theorem Reachable.invariant {I : σ → Prop} {s t : σ} (h : Reachable step s t)
    (h0 : I s) (hstep : ∀ s a t, I s → step s a = some t → I t) : I t := by
  obtain ⟨as, has⟩ := h
  exact exec_invariant hstep h0 has

/-! ## §3. Conditions on the steps of a run. -/

variable (step)

/-- Every step of the run meets `C`, a condition on the state before it and its label.  A
label that is not possible ends the run. -/
def Along (C : σ → α → Prop) : σ → List α → Prop
  | _, [] => True
  | s, a :: as =>
    C s a ∧
      match step s a with
      | some t => Along C t as
      | none => True

instance Along.decidable (C : σ → α → Prop) [∀ s a, Decidable (C s a)] :
    ∀ s as, Decidable (Along step C s as)
  | _, [] => inferInstanceAs (Decidable True)
  | s, a :: as =>
    match h : step s a with
    | some t =>
      have := Along.decidable C t as
      decidable_of_iff (C s a ∧ Along step C t as) (by rw [Along, h])
    | none => decidable_of_iff (C s a) (by simp [Along, h])

variable {step} {C D : σ → α → Prop}

/-- The condition on the first step and on the others. -/
theorem along_cons {s : σ} {a : α} {as : List α} :
    Along step C s (a :: as) ↔ C s a ∧ ∀ t, step s a = some t → Along step C t as := by
  rw [Along]
  cases step s a <;> simp

/-- What all steps of a run meet, the steps after a prefix of it meet. -/
theorem Along.suffix {as bs : List α} : ∀ {s t : σ}, Along step C s (as ++ bs) →
    exec step s as = some t → Along step C t bs := by
  induction as with
  | nil =>
    intro s t h hrun
    rw [exec_nil, Option.some.injEq] at hrun
    exact hrun ▸ h
  | cons a as ih =>
    intro s t h hrun
    obtain ⟨m, ha, hm⟩ := (exec_cons_some step).mp hrun
    exact ih ((along_cons.mp h).2 m ha) hm

/-- **The rule for conditional runs.**  `I` holds at the start and is kept by the steps
that meet `C`; at such steps it gives `D`.  Then in a run whose steps all meet `C`, all
meet `D`. -/
theorem along_of_invariant {I : σ → Prop} (hD : ∀ s a, I s → C s a → D s a)
    (hstep : ∀ s a t, I s → C s a → step s a = some t → I t) :
    ∀ {as : List α} {s : σ}, I s → Along step C s as → Along step D s as := by
  intro as
  induction as with
  | nil => intro s _ _; trivial
  | cons a as ih =>
    intro s hs h
    obtain ⟨hC, hrest⟩ := along_cons.mp h
    refine along_cons.mpr ⟨hD s a hs hC, ?_⟩
    intro t ht
    exact ih (hstep s a t hs hC ht) (hrest t ht)

/-- An invariant of all steps gives what it gives along every run. -/
theorem Invariant.along {I : σ → Prop} (hD : ∀ s a, I s → D s a)
    (hstep : ∀ s a t, I s → step s a = some t → I t) :
    ∀ {as : List α} {s : σ}, I s → Along step D s as := by
  intro as
  induction as with
  | nil => intro s _; trivial
  | cons a as ih =>
    intro s hs
    exact along_cons.mpr ⟨hD s a hs, fun t ht => ih (hstep s a t hs ht)⟩

/-- Conditions that agree under an invariant are met by the same runs. -/
theorem along_congr {I : σ → Prop} (hstep : ∀ s a t, I s → step s a = some t → I t)
    (hCD : ∀ s a, I s → (C s a ↔ D s a)) {as : List α} {s : σ} (hs : I s) :
    Along step C s as ↔ Along step D s as := by
  constructor
  · exact along_of_invariant (fun s a h => (hCD s a h).mp) (fun s a t h _ => hstep s a t h) hs
  · exact along_of_invariant (fun s a h => (hCD s a h).mpr) (fun s a t h _ => hstep s a t h) hs

/-- The end of a run whose steps all meet `C` satisfies every invariant such steps keep. -/
theorem exec_invariant_along {I : σ → Prop}
    (hstep : ∀ s a t, I s → C s a → step s a = some t → I t) :
    ∀ {as : List α} {s t : σ}, I s → Along step C s as → exec step s as = some t → I t := by
  intro as
  induction as with
  | nil =>
    intro s t hs _ h
    rw [exec_nil, Option.some.injEq] at h
    exact h ▸ hs
  | cons a as ih =>
    intro s t hs hC h
    obtain ⟨m, ha, hm⟩ := (exec_cons_some step).mp h
    obtain ⟨hCa, hrest⟩ := along_cons.mp hC
    exact ih (hstep s a m hs hCa ha) (hrest m ha) hm

/-- **The rule for histories.**  `H` is a fact about what was recorded; under the invariant a
step keeps it exactly if the step meets `C`.  Then `H` holds at the end of a run exactly if it
held at the start and every step of the run meets `C`. -/
theorem history_iff_along {I H : σ → Prop} (hstep : ∀ s a t, I s → step s a = some t → I t)
    (hH : ∀ s a t, I s → step s a = some t → (H t ↔ H s ∧ C s a)) :
    ∀ {as : List α} {s t : σ}, I s → exec step s as = some t →
      (H t ↔ H s ∧ Along step C s as) := by
  intro as
  induction as with
  | nil =>
    intro s t _ h
    rw [exec_nil, Option.some.injEq] at h
    rw [h]
    exact ⟨fun ht => ⟨ht, trivial⟩, fun ht => ht.1⟩
  | cons a as ih =>
    intro s t hs h
    obtain ⟨m, ha, hm⟩ := (exec_cons_some step).mp h
    rw [ih (hstep s a m hs ha) hm, hH s a m hs ha, along_cons, and_assoc]
    refine and_congr_right fun _ => and_congr_right fun _ => ?_
    constructor
    · intro hrest u hu
      rw [ha, Option.some.injEq] at hu
      exact hu ▸ hrest
    · intro hrest
      exact hrest m ha

/-! ## §4. States of a run. -/

variable (step) in

/-- `P` holds in every state that the run passes through, its first and its last one included. -/
def Throughout (P : σ → Prop) (s : σ) (as : List α) : Prop :=
  ∀ pre t, pre <+: as → exec step s pre = some t → P t

theorem throughout_nil {P : σ → Prop} {s : σ} : Throughout step P s [] ↔ P s := by
  constructor
  · intro h
    exact h [] s List.prefix_rfl rfl
  · intro hs pre t hpre hrun
    rw [List.prefix_nil.mp hpre, exec_nil, Option.some.injEq] at hrun
    exact hrun ▸ hs

theorem throughout_cons {P : σ → Prop} {s : σ} {a : α} {as : List α} :
    Throughout step P s (a :: as) ↔
      P s ∧ ∀ t, step s a = some t → Throughout step P t as := by
  constructor
  · intro h
    refine ⟨h [] s List.nil_prefix rfl, fun t ha pre u hpre hrun => ?_⟩
    exact h (a :: pre) u (List.cons_prefix_cons.mpr ⟨rfl, hpre⟩)
      ((exec_cons_some step).mpr ⟨t, ha, hrun⟩)
  · rintro ⟨hs, hrest⟩ pre u hpre hrun
    cases pre with
    | nil =>
      rw [exec_nil, Option.some.injEq] at hrun
      exact hrun ▸ hs
    | cons b pre =>
      obtain ⟨rfl, htail⟩ := List.cons_prefix_cons.mp hpre
      obtain ⟨t, ha, hrun⟩ := (exec_cons_some step).mp hrun
      exact hrest t ha pre u htail hrun

/-- What an invariant gives holds throughout. -/
theorem throughout_of_invariant {I P : σ → Prop} (hP : ∀ s, I s → P s)
    (hstep : ∀ s a t, I s → C s a → step s a = some t → I t) :
    ∀ {as : List α} {s : σ}, I s → Along step C s as → Throughout step P s as := by
  intro as
  induction as with
  | nil =>
    intro s hs _
    exact throughout_nil.mpr (hP s hs)
  | cons a as ih =>
    intro s hs h
    obtain ⟨hC, hrest⟩ := along_cons.mp h
    refine throughout_cons.mpr ⟨hP s hs, fun t ha => ?_⟩
    exact ih (hstep s a t hs hC ha) (hrest t ha)

/-- A condition on the steps that the states of a run give, under an invariant. -/
theorem along_of_throughout {I P : σ → Prop} (hstep : ∀ s a t, I s → step s a = some t → I t)
    (hD : ∀ s a, I s → (∀ t, step s a = some t → P t) → D s a) :
    ∀ {as : List α} {s : σ}, I s → Throughout step P s as → Along step D s as := by
  intro as
  induction as with
  | nil => intro s _ _; trivial
  | cons a as ih =>
    intro s hs h
    obtain ⟨-, hrest⟩ := throughout_cons.mp h
    refine along_cons.mpr ⟨hD s a hs fun t ha => ?_, fun t ha => ?_⟩
    · exact hrest t ha [] t List.nil_prefix rfl
    · exact ih (hstep s a t hs ha) (hrest t ha)

/-- **The rule for exact conditions.**  `I` gives `P` and is kept by the steps that meet `C`; a
step that does not meet `C` is possible and breaks `P` at once.  Then `P` holds throughout a run
exactly if every step meets `C`. -/
theorem throughout_iff_along {I P : σ → Prop} (hP : ∀ s, I s → P s)
    (hgood : ∀ s a t, I s → C s a → step s a = some t → I t)
    (hbad : ∀ s a, I s → ¬ C s a → ∃ t, step s a = some t ∧ ¬ P t) :
    ∀ {as : List α} {s : σ}, I s → (Throughout step P s as ↔ Along step C s as) := by
  intro as s hs
  refine ⟨?_, throughout_of_invariant hP hgood hs⟩
  induction as generalizing s with
  | nil => intro _; trivial
  | cons a as ih =>
    intro h
    obtain ⟨-, hrest⟩ := throughout_cons.mp h
    have hC : C s a := by
      by_contra hnot
      obtain ⟨t, ha, hbroken⟩ := hbad s a hs hnot
      exact hbroken (hrest t ha [] t List.nil_prefix rfl)
    refine along_cons.mpr ⟨hC, fun t ha => ?_⟩
    exact ih (hgood s a t hs hC ha) (hrest t ha)

/-! ## §5. Walks. -/

/-- The listed points are visited one after another along `R`, starting from `a`; the last
of them, or `a` if there is none, is `b`. -/
inductive Walk (R : σ → σ → Prop) (a : σ) : List σ → σ → Prop
  | nil : Walk R a [] a
  | snoc {l : List σ} {b c : σ} : Walk R a l b → R b c → Walk R a (l ++ [c]) c

theorem Walk.last {R : σ → σ → Prop} {a b : σ} {l : List σ} (h : Walk R a l b) :
    l.getLast?.getD a = b := by
  cases h with
  | nil => rfl
  | snoc _ _ => rw [List.getLast?_concat, Option.getD_some]

/-- A walk steps along `R` from each point to the next. -/
theorem Walk.isChain {R : σ → σ → Prop} {a b : σ} {l : List σ} (h : Walk R a l b) :
    List.IsChain R (a :: l) := by
  induction h with
  | nil => exact List.isChain_singleton a
  | @snoc l b c hl hbc ih =>
    rw [← List.cons_append, List.isChain_append]
    refine ⟨ih, List.isChain_singleton c, ?_⟩
    intro x hx y hy
    have hxb : x = b := by
      have hlast := hl.last
      rw [List.getLast?_cons, Option.mem_some_iff] at hx
      rw [← hx, hlast]
    have hyc : c = y := by simpa using hy
    rw [hxb, ← hyc]
    exact hbc

end ResearchSSH.Library
