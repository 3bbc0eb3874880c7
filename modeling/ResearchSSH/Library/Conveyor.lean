/-
  ResearchSSH.Library.Conveyor — systems that carry a stream.

  Each step may put something on at one end and take something off at the other.  If a step neither
  loses, adds nor reorders anything, then over a whole run what was on it at first and was put on
  is what was taken off and is still on it.  A step may also drop something; then what comes out is
  what went in with parts left out, still in order.

  Main results:
    * `conveyed`         — runs in which nothing is dropped.
    * `conveyed_sublist` — all runs.
-/

import ResearchSSH.Library.Transition

namespace ResearchSSH.Library

universe u v w
variable {σ : Type u} {α : Type v} {β : Type w}

/-- What the steps of a run give, one after another. -/
def gathered (step : σ → α → Option σ) (f : σ → α → List β) : σ → List α → List β
  | _, [] => []
  | s, a :: as =>
    f s a ++
      match step s a with
      | some t => gathered step f t as
      | none => []

variable {step : σ → α → Option σ}

theorem gathered_cons {f : σ → α → List β} {s m : σ} {a : α} (as : List α)
    (hstep : step s a = some m) : gathered step f s (a :: as) = f s a ++ gathered step f m as := by
  rw [gathered, hstep]

variable {I : σ → Prop} {keeps : σ → α → Prop} {load : σ → List β} {input output : σ → α → List β}

/-- **Nothing is lost, added or reordered.** -/
theorem conveyed (hinv : ∀ s a t, I s → step s a = some t → I t)
    (hstep : ∀ s a t, I s → keeps s a → step s a = some t →
      load s ++ input s a = output s a ++ load t) {as : List α} :
    ∀ {s t : σ}, I s → Along step keeps s as → exec step s as = some t →
      load s ++ gathered step input s as = gathered step output s as ++ load t := by
  induction as with
  | nil =>
    intro s t _ _ hrun
    obtain rfl : s = t := Option.some.inj hrun
    simp [gathered]
  | cons a as ih =>
    intro s t hs hkeeps hrun
    obtain ⟨ha, hlater⟩ := along_cons.mp hkeeps
    obtain ⟨m, hm, hrun⟩ := (exec_cons_some step).mp hrun
    have hrest := ih (hinv s a m hs hm) (hlater m hm) hrun
    rw [gathered_cons as hm, gathered_cons as hm]
    calc load s ++ (input s a ++ gathered step input m as)
        = output s a ++ (load m ++ gathered step input m as) := by
          rw [← List.append_assoc, hstep s a m hs ha hm, List.append_assoc]
      _ = output s a ++ gathered step output m as ++ load t := by
          rw [hrest, List.append_assoc]

/-- **Nothing is added or reordered.** -/
theorem conveyed_sublist (hinv : ∀ s a t, I s → step s a = some t → I t)
    (hstep : ∀ s a t, I s → step s a = some t →
      (output s a ++ load t).Sublist (load s ++ input s a)) {as : List α} :
    ∀ {s t : σ}, I s → exec step s as = some t →
      (gathered step output s as ++ load t).Sublist (load s ++ gathered step input s as) := by
  induction as with
  | nil =>
    intro s t _ hrun
    obtain rfl : s = t := Option.some.inj hrun
    simp [gathered]
  | cons a as ih =>
    intro s t hs hrun
    obtain ⟨m, hm, hrun⟩ := (exec_cons_some step).mp hrun
    have hrest := ih (hinv s a m hs hm) hrun
    rw [gathered_cons as hm, gathered_cons as hm]
    have hfirst : (output s a ++ (load m ++ gathered step input m as)).Sublist
        (load s ++ (input s a ++ gathered step input m as)) := by
      rw [← List.append_assoc, ← List.append_assoc]
      exact (hstep s a m hs hm).append_right _
    rw [List.append_assoc]
    exact (hrest.append_left (output s a)).trans hfirst

end ResearchSSH.Library
