/-
  ResearchSSH.Library.Recent — the last entries of a log that grows.

  A log without repetitions in a row, and the last entries of a log, each after one more entry: the
  new log is got from the old one, without what was left out of it.

  Main results:
    * `destutter_concat` — an entry is added unless it repeats the last one.
    * `rtake_concat`     — an entry is added, and the first one goes where there are too many.
-/

import Mathlib.Data.List.Destutter
import Mathlib.Data.List.DropRight

namespace ResearchSSH.Library

variable {α : Type*}

section Repetitions

variable [DecidableEq α]

theorem destutter'_concat (l : List α) (a x : α) :
    (l ++ [x]).destutter' (· ≠ ·) a
      = if (l.destutter' (· ≠ ·) a).getLast? ≠ some x then l.destutter' (· ≠ ·) a ++ [x]
        else l.destutter' (· ≠ ·) a := by
  induction l generalizing a with
  | nil =>
    show [x].destutter' (· ≠ ·) a = if ([a] : List α).getLast? ≠ some x then [a] ++ [x] else [a]
    rw [List.destutter'_singleton]
    simp
  | cons b l ih =>
    rw [List.cons_append]
    by_cases hne : a ≠ b
    · rw [List.destutter'_cons_pos _ hne, List.destutter'_cons_pos _ hne, ih]
      have hlast : (a :: l.destutter' (· ≠ ·) b).getLast? = (l.destutter' (· ≠ ·) b).getLast? :=
        List.getLast?_cons_of_ne_nil (List.destutter'_ne_nil _ _)
      rw [hlast]
      split <;> rfl
    · rw [List.destutter'_cons_neg _ hne, List.destutter'_cons_neg _ hne, ih]

/-- A list without repetitions in a row, after one more entry. -/
theorem destutter_concat (l : List α) (x : α) :
    (l ++ [x]).destutter (· ≠ ·)
      = if (l.destutter (· ≠ ·)).getLast? ≠ some x then l.destutter (· ≠ ·) ++ [x]
        else l.destutter (· ≠ ·) := by
  cases l with
  | nil => rfl
  | cons a l =>
    rw [List.cons_append, List.destutter_cons', List.destutter_cons', destutter'_concat]

end Repetitions

theorem getLast?_rtake (l : List α) (n : Nat) : (l.rtake (n + 1)).getLast? = l.getLast? := by
  obtain rfl | ⟨l, x, rfl⟩ := l.eq_nil_or_concat
  · rw [List.rtake_nil]
  · rw [List.concat_eq_append, List.rtake_concat_succ, List.getLast?_concat, List.getLast?_concat]

theorem length_rtake (l : List α) (n : Nat) : (l.rtake n).length = min n l.length := by
  unfold List.rtake
  rw [List.length_drop]
  omega

/-- The last entries, with one more: the first of them goes where there are too many. -/
theorem rtake_concat (l : List α) (x : α) (n : Nat) :
    (if (l.rtake n ++ [x]).length > n then (l.rtake n ++ [x]).tail else l.rtake n ++ [x])
      = (l ++ [x]).rtake n := by
  have hlength := length_rtake l n
  unfold List.rtake at hlength ⊢
  rw [List.length_append, List.length_append, List.length_singleton, hlength]
  by_cases hfull : n ≤ l.length
  · rw [if_pos (by omega), ← List.drop_one]
    have hshift : (l.drop (l.length - n) ++ [x]) = (l ++ [x]).drop (l.length - n) :=
      (List.drop_append_of_le_length (Nat.sub_le _ _)).symm
    rw [hshift, List.drop_drop]
    congr 1
    omega
  · rw [if_neg (by omega), show l.length - n = 0 by omega, show l.length + 1 - n = 0 by omega]
    rfl

end ResearchSSH.Library
