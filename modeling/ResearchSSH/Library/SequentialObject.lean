/-
  ResearchSSH.Library.SequentialObject — logs that one object explains.

  An object takes one operation after another; each has an answer and leaves the object in a new
  state.  A log is a list of operations with what became of them: carried out, with an answer, or
  not carried out at all.  The log is explained from a state if the object, asked for the operations
  that were carried out, in their order, gives the answers of the log.

  Main results:
    * `explains_concat` — one operation more.
    * `Explains.keeps` — what no operation of the log changes.
    * `Explains.read_back` — a later operation finds what an earlier one left.
-/

import ResearchSSH.Library.Transition

namespace ResearchSSH.Library

universe u v w
variable {σ : Type u} {ω : Type v} {ρ : Type w} [DecidableEq ρ] (object : σ → ω → ρ × σ)

/-- One entry of a log. -/
def carry (s : σ) : ω × Option ρ → Option σ
  | (_, none) => some s
  | (op, some answer) => if (object s op).1 = answer then some (object s op).2 else none

/-- From `s` the log is explained, and the object is left in `t`. -/
def Explains (s : σ) (log : List (ω × Option ρ)) (t : σ) : Prop := exec (carry object) s log = some t

instance [DecidableEq σ] (s : σ) (log : List (ω × Option ρ)) (t : σ) :
    Decidable (Explains object s log t) := inferInstanceAs (Decidable (_ = some t))

variable {object} {s t : σ} {log : List (ω × Option ρ)} {op : ω} {answer : ρ}

theorem Explains.nil (s : σ) : Explains object s [] s := rfl

/-- A log is explained in two parts. -/
theorem explains_append {more : List (ω × Option ρ)} :
    Explains object s (log ++ more) t ↔ ∃ m, Explains object s log m ∧ Explains object m more t := by
  unfold Explains
  rw [exec_append, Option.bind_eq_some_iff]

theorem explains_cons {entry : ω × Option ρ} :
    Explains object s (entry :: log) t ↔ ∃ m, carry object s entry = some m ∧ Explains object m log t :=
  exec_cons_some (carry object)

/-- An answered operation is carried out by the object. -/
theorem carry_some : carry object s (op, some answer) = some t ↔
    (object s op).1 = answer ∧ (object s op).2 = t := by
  unfold carry
  rw [Option.ite_none_right_eq_some, Option.some.injEq]

/-- **One operation more** at the end of an explained log. -/
theorem explains_concat {entry : ω × Option ρ} (h : Explains object s log t) {u : σ}
    (hentry : carry object t entry = some u) : Explains object s (log ++ [entry]) u :=
  explains_append.mpr ⟨t, h, explains_cons.mpr ⟨u, hentry, .nil u⟩⟩

/-! ## §1. What a log leaves alone. -/

/-- What none of the operations that were carried out changes is as it was. -/
theorem Explains.keeps {α : Type*} (view : σ → α) (h : Explains object s log t)
    (hkeeps : ∀ entry ∈ log, entry.2.isSome = true → ∀ s, view (object s entry.1).2 = view s) :
    view t = view s := by
  induction log generalizing s with
  | nil => rw [Option.some.inj h]
  | cons entry log ih =>
    obtain ⟨m, hfirst, hrest⟩ := explains_cons.mp h
    rw [ih hrest fun e he => hkeeps e (List.mem_cons_of_mem _ he)]
    obtain ⟨op, outcome⟩ := entry
    cases outcome with
    | none => rw [Option.some.inj hfirst]
    | some answer =>
      rw [← (carry_some.mp hfirst).2]
      exact hkeeps _ List.mem_cons_self rfl s

/-- **A later operation finds what an earlier one left**, where nothing that was carried out in
between changes it. -/
theorem Explains.read_back {α : Type*} (view : σ → α) {pre mid post : List (ω × Option ρ)}
    {first second : ω} {a b : ρ}
    (h : Explains object s (pre ++ (first, some a) :: (mid ++ (second, some b) :: post)) t)
    (hmid : ∀ entry ∈ mid, entry.2.isSome = true → ∀ s, view (object s entry.1).2 = view s) :
    ∃ m n, (object m first).1 = a ∧ view n = view (object m first).2 ∧ (object n second).1 = b := by
  obtain ⟨m, -, h⟩ := explains_append.mp h
  obtain ⟨m', hfirst, h⟩ := explains_cons.mp h
  obtain ⟨n, hbetween, h⟩ := explains_append.mp h
  obtain ⟨_, hsecond, -⟩ := explains_cons.mp h
  obtain ⟨ha, rfl⟩ := carry_some.mp hfirst
  exact ⟨m, n, ha, hbetween.keeps view hmid, (carry_some.mp hsecond).1⟩

end ResearchSSH.Library
