/-
  ResearchSSH.Library.Quiescence — systems that come to rest when they are left alone.

  Some steps are the system's own, the others come from outside.  If every own step lowers a
  measure, and wherever the system is not at rest there is one, then it is at rest after as many own
  steps as the measure says, whichever they are, and it cannot get stuck before.

  Main results:
    * `Settles.length_le`  — no run of own steps is longer than the measure says.
    * `Settles.exists_run` — each can be continued to rest.
-/

import ResearchSSH.Library.Transition

namespace ResearchSSH.Library

universe u v
variable {σ : Type u} {α : Type v}

/-- The sum of some efforts. -/
def total : List Nat → Nat
  | [] => 0
  | n :: ns => n + total ns

@[simp] theorem total_nil : total [] = 0 := rfl

@[simp] theorem total_cons (n : Nat) (ns : List Nat) : total (n :: ns) = n + total ns := rfl

theorem total_append (ns ms : List Nat) : total (ns ++ ms) = total ns + total ms := by
  induction ns with
  | nil => exact (Nat.zero_add _).symm
  | cons n ns ih =>
    rw [List.cons_append, total_cons, total_cons, ih]
    omega

/-- From the states of the invariant `I`, own steps lead to rest. -/
structure Settles (step : σ → α → Option σ) (I : σ → Prop) (own : σ → α → Prop) (rest : σ → Prop)
    (μ : σ → Nat) : Prop where
  keeps : ∀ {s a t}, I s → own s a → step s a = some t → I t
  falls : ∀ {s a t}, I s → own s a → step s a = some t → μ t < μ s
  moves : ∀ {s}, I s → ¬ rest s → ∃ a t, own s a ∧ step s a = some t

variable {step : σ → α → Option σ} {I : σ → Prop} {own : σ → α → Prop} {rest : σ → Prop} {μ : σ → Nat}

/-- Steps of its own keep the invariant. -/
theorem Settles.invariant (h : Settles step I own rest μ) {s t : σ} {as : List α} (hs : I s)
    (hown : Along step own s as) (hrun : exec step s as = some t) : I t :=
  exec_invariant_along (fun _ _ _ => h.keeps) hs hown hrun

/-- **Own steps come to an end.** -/
theorem Settles.length_le (h : Settles step I own rest μ) {as : List α} :
    ∀ {s t : σ}, I s → Along step own s as → exec step s as = some t → as.length + μ t ≤ μ s := by
  induction as with
  | nil =>
    intro s t _ _ hrun
    obtain rfl : s = t := Option.some.inj hrun
    exact Nat.le_of_eq (Nat.zero_add _)
  | cons a as ih =>
    intro s t hs hown hrun
    obtain ⟨ha, hlater⟩ := along_cons.mp hown
    obtain ⟨m, hstep, hrun⟩ := (exec_cons_some step).mp hrun
    have hfalls := h.falls hs ha hstep
    have hrest := ih (h.keeps hs ha hstep) (hlater m hstep) hrun
    rw [List.length_cons]
    omega

/-- **There is a run to rest.** -/
theorem Settles.exists_run (h : Settles step I own rest μ) {s : σ} (hs : I s) :
    ∃ as t, Along step own s as ∧ exec step s as = some t ∧ rest t := by
  induction hn : μ s using Nat.strong_induction_on generalizing s with
  | _ n ih =>
    by_cases hrest : rest s
    · exact ⟨[], s, trivial, rfl, hrest⟩
    · obtain ⟨a, m, ha, hstep⟩ := h.moves hs hrest
      have hfalls := h.falls hs ha hstep
      obtain ⟨as, t, hown, hrun, hend⟩ := ih (μ m) (by omega) (h.keeps hs ha hstep) rfl
      refine ⟨a :: as, t, ?_, (exec_cons_some step).mpr ⟨m, hstep, hrun⟩, hend⟩
      refine along_cons.mpr ⟨ha, fun m' hstep' => ?_⟩
      rwa [← Option.some.inj (hstep.symm.trans hstep')]

end ResearchSSH.Library
