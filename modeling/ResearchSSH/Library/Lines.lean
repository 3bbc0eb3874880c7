/-
  ResearchSSH.Library.Lines — a sequence cut into lines.

  A line ends at the mark `nl`, which is not part of it; what stands behind the last mark is one
  more line, unless it is empty.  Appending to a text adds lines at its end only if its last
  line is ended: otherwise the first new line is glued to it.

  Main results:
    * `length_lines`     — the number of lines: the marks, and the open line if there is one.
    * `lines_flatMap`    — lines that are written one after another are read back.
    * `lines_append_iff` — when the lines of `s ++ t` are those of `s` and then those of `t`.
-/

import Mathlib.Data.List.Basic

namespace ResearchSSH.Library

variable {α : Type*}

/-! ## §1. Ended texts. -/

/-- The text is empty or its last line is ended. -/
def Ended (nl : α) (s : List α) : Prop := ∀ c, s.getLast? = some c → c = nl

instance [DecidableEq α] (nl : α) (s : List α) : Decidable (Ended nl s) :=
  match h : s.getLast? with
  | none => isTrue (fun c hc => by rw [h] at hc; cases hc)
  | some d =>
    decidable_of_iff (d = nl) ⟨fun hd c hc => by
      rw [h, Option.some.injEq] at hc
      exact hc ▸ hd, fun hs => hs d h⟩

variable {nl : α}

theorem ended_nil : Ended nl ([] : List α) := by
  intro c hc
  cases hc

theorem ended_concat (s : List α) : Ended nl (s ++ [nl]) := by
  intro c hc
  rw [List.getLast?_concat, Option.some.injEq] at hc
  exact hc.symm

theorem ended_append {s t : List α} (ht : t ≠ []) : Ended nl (s ++ t) ↔ Ended nl t := by
  unfold Ended
  rw [List.getLast?_append_of_ne_nil s ht]

theorem ended_cons {c : α} {cs : List α} (h : cs ≠ []) : Ended nl (c :: cs) ↔ Ended nl cs :=
  ended_append (s := [c]) h

/-! ## §2. Lines. -/

variable [DecidableEq α]

/-- The lines of a text. -/
def lines (nl : α) : List α → List (List α)
  | [] => []
  | c :: cs =>
    if c = nl then [] :: lines nl cs
    else
      match lines nl cs with
      | [] => [[c]]
      | l :: ls => (c :: l) :: ls

attribute [local simp] lines

theorem lines_eq_nil {s : List α} (h : lines nl s = []) : s = [] := by
  cases s with
  | nil => rfl
  | cons c cs =>
    rw [lines] at h
    split at h
    · cases h
    · split at h <;> cases h

/-- No line contains the mark. -/
theorem not_mem_of_mem_lines {s : List α} : ∀ l ∈ lines nl s, nl ∉ l := by
  induction s with
  | nil => intro l hl; cases hl
  | cons c cs ih =>
    intro l hl
    rw [lines] at hl
    split at hl
    · rcases List.mem_cons.mp hl with rfl | hl
      · exact List.not_mem_nil
      · exact ih l hl
    · next hc =>
      have hnew : ∀ l', nl ∉ l' → nl ∉ c :: l' := by
        intro l' hl' hin
        rcases List.mem_cons.mp hin with heq | hin
        · exact hc heq.symm
        · exact hl' hin
      split at hl
      · rw [List.mem_singleton.mp hl]
        exact hnew [] List.not_mem_nil
      · next first rest heq =>
        rcases List.mem_cons.mp hl with rfl | hl
        · exact hnew first (ih first (by rw [heq]; exact List.mem_cons_self))
        · exact ih l (by rw [heq]; exact List.mem_cons_of_mem _ hl)

/-- A text without the mark, and then the mark: one line. -/
theorem lines_single {l : List α} (h : nl ∉ l) : lines nl (l ++ [nl]) = [l] := by
  induction l with
  | nil => simp
  | cons c cs ih =>
    have hc : c ≠ nl := fun heq => h (heq ▸ List.mem_cons_self)
    rw [List.cons_append, lines, if_neg hc, ih (fun hin => h (List.mem_cons_of_mem _ hin))]

/-- The number of lines. -/
theorem length_lines (s : List α) :
    (lines nl s).length = s.count nl + if Ended nl s then 0 else 1 := by
  induction s with
  | nil => simp [ended_nil]
  | cons c cs ih =>
    by_cases hcs : cs = []
    · -- a text of one mark or of one other letter
      subst hcs
      by_cases hc : c = nl
      · subst hc
        simp [Ended]
      · simp [Ended, hc]
    · have hended : (if Ended nl (c :: cs) then 0 else 1) = if Ended nl cs then 0 else 1 := by
        simp only [ended_cons hcs]
      rw [lines, hended]
      by_cases hc : c = nl
      · rw [if_pos hc, hc, List.count_cons_self, List.length_cons, ih]
        omega
      · rw [if_neg hc, List.count_cons_of_ne hc, ← ih]
        cases hlines : lines nl cs with
        | nil => exact absurd (lines_eq_nil hlines) hcs
        | cons l ls => rfl

/-! ## §3. Appending. -/

/-- The lines of two texts, if the first ends with a line. -/
theorem lines_append {s : List α} (h : Ended nl s) (t : List α) :
    lines nl (s ++ t) = lines nl s ++ lines nl t := by
  induction s with
  | nil => rfl
  | cons c cs ih =>
    by_cases hcs : cs = []
    · subst hcs
      have hc : c = nl := h c rfl
      simp [hc]
    · have ih' := ih ((ended_cons hcs).mp h)
      rw [List.cons_append, lines, lines, ih']
      by_cases hc : c = nl
      · simp only [if_pos hc, List.cons_append]
      · rw [if_neg hc, if_neg hc]
        cases hlines : lines nl cs with
        | nil => exact absurd (lines_eq_nil hlines) hcs
        | cons l ls => rfl

/-- **When appending adds lines.**  The lines of `s ++ t` are those of `s` and then those of `t`
exactly if the last line of `s` is ended, or `t` is empty. -/
theorem lines_append_iff {s t : List α} :
    lines nl (s ++ t) = lines nl s ++ lines nl t ↔ Ended nl s ∨ t = [] := by
  constructor
  · intro h
    by_cases ht : t = []
    · exact .inr ht
    · -- an open line is counted in `s`, and glued to the first line of `t`
      left
      by_contra hopen
      have hlen := congrArg List.length h
      have hended : (if Ended nl (s ++ t) then 0 else 1) = if Ended nl t then 0 else 1 := by
        simp only [ended_append ht]
      rw [List.length_append, length_lines, length_lines, length_lines, hended, if_neg hopen,
        List.count_append] at hlen
      omega
  · rintro (h | rfl)
    · exact lines_append h t
    · rw [List.append_nil, lines, List.append_nil]

/-- Lines that are each ended by the mark. -/
theorem lines_flatMap {ls : List (List α)} (h : ∀ l ∈ ls, nl ∉ l) :
    lines nl (ls.flatMap (· ++ [nl])) = ls := by
  induction ls with
  | nil => rfl
  | cons l ls ih =>
    rw [List.flatMap_cons, lines_append (ended_concat l), lines_single (h l List.mem_cons_self),
      ih (fun l' hl' => h l' (List.mem_cons_of_mem _ hl'))]
    rfl

end ResearchSSH.Library
