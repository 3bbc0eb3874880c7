/-
  ResearchSSH.Library.FirstMatch — the first place of a word in a text, whole or in pieces.

  A text is cut at the first place of a word.  When the text comes in pieces and the word has not
  come yet, the end of what has come, one letter shorter than the word, is all that is needed to
  find it in what follows.

  Main results:
    * `firstMatch_eq_some`, `firstMatch_eq_none` — the first place, by what stands around it.
    * `infix_keep_iff`, `FirstEnd.of_keep`       — the first place, from the end that is kept.
-/

import Mathlib.Data.List.Infix

namespace ResearchSSH.Library

universe u
variable {α : Type u} [DecidableEq α] {m s t a b c : List α} {i : Nat}

/-! ## §1. The first place. -/

/-- Where a list is first found in another. -/
def firstMatch (m s : List α) : Option Nat := s.tails.findIdx? m.isPrefixOf

/-- The text before and behind the first place of the word. -/
def cutAt (m s : List α) : Option (List α × List α) :=
  (firstMatch m s).map fun i => (s.take i, s.drop (i + m.length))

/-- The word ends for the first time where `a ++ m` does. -/
def FirstEnd (m a : List α) : Prop := ¬ m <:+: (a ++ m).dropLast

omit [DecidableEq α] in

/-- A place of the word before `i` is a place in a text that ends before the word at `i` does. -/
theorem infix_dropLast_iff (hm : m ≠ []) :
    m <:+: (a ++ m).dropLast ↔ ∃ j < a.length, m <+: (a ++ m).drop j := by
  have hpos := List.length_pos_iff.mpr hm
  constructor
  · rintro ⟨x, y, hxy⟩
    have hlength := congrArg List.length hxy
    rw [List.length_dropLast] at hlength
    simp only [List.length_append] at hlength
    refine ⟨x.length, by omega, ?_⟩
    have hbegins : x ++ m <+: a ++ m :=
      (List.prefix_append _ y).trans (hxy ▸ List.dropLast_prefix _)
    obtain ⟨z, hz⟩ := hbegins
    rw [← hz, List.append_assoc, List.drop_left]
    exact List.prefix_append m z
  · rintro ⟨j, hj, z, hz⟩
    have hsplit : (a ++ m).take j ++ m ++ z = a ++ m := by
      rw [List.append_assoc, hz, List.take_append_drop]
    -- behind an earlier place there is something left
    have hz' : z ≠ [] := by
      rintro rfl
      have hlength := congrArg List.length hsplit
      simp only [List.length_append, List.length_take, List.length_nil] at hlength
      omega
    refine ⟨(a ++ m).take j, z.dropLast, ?_⟩
    rw [← List.dropLast_append_of_ne_nil hz', hsplit]

/-- What it is to be first found somewhere. -/
theorem firstMatch_eq_some_iff : firstMatch m s = some i ↔
    i ≤ s.length ∧ m <+: s.drop i ∧ ∀ j < i, ¬ m <+: s.drop j := by
  unfold firstMatch
  rw [List.findIdx?_eq_some_iff_getElem]
  simp only [List.length_tails, List.getElem_tails, List.isPrefixOf_iff_prefix, Nat.lt_succ_iff]
  constructor
  · rintro ⟨hi, hmatch, hfirst⟩
    exact ⟨hi, hmatch, hfirst⟩
  · rintro ⟨hi, hmatch, hfirst⟩
    exact ⟨hi, hmatch, hfirst⟩

/-- **The first place**, by what stands before and behind it. -/
theorem firstMatch_eq_some (hm : m ≠ []) : firstMatch m s = some i ↔
    ∃ a c, s = a ++ m ++ c ∧ a.length = i ∧ FirstEnd m a := by
  rw [firstMatch_eq_some_iff]
  constructor
  · rintro ⟨hi, ⟨c, hc⟩, hfirst⟩
    have hs : s = s.take i ++ m ++ c := by
      rw [List.append_assoc, hc, List.take_append_drop]
    refine ⟨s.take i, c, hs, List.length_take_of_le hi, ?_⟩
    intro hfound
    obtain ⟨j, hj, hmatch⟩ := (infix_dropLast_iff hm).mp hfound
    rw [List.length_take_of_le hi] at hj
    refine hfirst j hj ?_
    rw [hs, List.drop_append_of_le_length]
    · exact hmatch.trans (List.prefix_append _ c)
    · rw [List.length_append, List.length_take_of_le hi]
      omega
  · rintro ⟨a, c, rfl, rfl, hfirst⟩
    refine ⟨by simp only [List.length_append]; omega, ?_, fun j hj hmatch => ?_⟩
    · rw [List.append_assoc, List.drop_left]
      exact List.prefix_append m c
    · refine hfirst ((infix_dropLast_iff hm).mpr ⟨j, hj, ?_⟩)
      rw [List.drop_append_of_le_length (by simp only [List.length_append]; omega)] at hmatch
      refine List.prefix_of_prefix_length_le hmatch (List.prefix_append _ c) ?_
      rw [List.length_drop, List.length_append]
      omega

theorem firstMatch_eq_none : firstMatch m s = none ↔ ¬ m <:+: s := by
  unfold firstMatch
  rw [List.findIdx?_eq_none_iff]
  simp only [List.mem_tails, Bool.eq_false_iff, ne_eq, List.isPrefixOf_iff_prefix]
  constructor
  · rintro h ⟨x, y, rfl⟩
    exact h (m ++ y) ⟨x, (List.append_assoc x m y).symm⟩ (List.prefix_append m y)
  · intro h u hu hmatch
    exact h (hmatch.isInfix.trans hu.isInfix)

/-- What a cut consists of. -/
theorem cutAt_eq_some (hm : m ≠ []) :
    cutAt m s = some (a, c) ↔ s = a ++ m ++ c ∧ FirstEnd m a := by
  unfold cutAt
  rw [Option.map_eq_some_iff]
  constructor
  · rintro ⟨i, hi, hcut⟩
    obtain ⟨a', c', rfl, rfl, hfirst⟩ := (firstMatch_eq_some hm).mp hi
    rw [List.append_assoc, List.take_left, ← List.append_assoc, ← List.length_append,
      List.drop_left] at hcut
    obtain ⟨rfl, rfl⟩ := Prod.mk.inj hcut
    exact ⟨rfl, hfirst⟩
  · rintro ⟨rfl, hfirst⟩
    refine ⟨a.length, (firstMatch_eq_some hm).mpr ⟨a, c, rfl, rfl, hfirst⟩, ?_⟩
    rw [List.append_assoc, List.take_left, ← List.append_assoc, ← List.length_append,
      List.drop_left]

theorem cutAt_eq_none : cutAt m s = none ↔ ¬ m <:+: s := by
  unfold cutAt
  rw [Option.map_eq_none_iff, firstMatch_eq_none]

omit [DecidableEq α] in

/-- A place of the word that ends for the first time ends before any other. -/
theorem FirstEnd.length_le (h : FirstEnd m a) (hm : m ≠ []) (hb : b ++ m ++ t = a ++ m ++ c) :
    a.length ≤ b.length := by
  by_contra hlt
  refine h ((infix_dropLast_iff hm).mpr ⟨b.length, Nat.lt_of_not_le hlt, ?_⟩)
  have hmatch : m <+: (a ++ m ++ c).drop b.length := by
    rw [← hb, List.append_assoc, List.drop_left]
    exact List.prefix_append m t
  rw [List.drop_append_of_le_length (by simp only [List.length_append]; omega)] at hmatch
  refine List.prefix_of_prefix_length_le hmatch (List.prefix_append _ c) ?_
  rw [List.length_drop, List.length_append]
  omega

/-! ## §2. Texts in pieces. -/

/-- What is kept of a text that does not hold the word: its end, shorter than the word. -/
def keep (m s : List α) : List α := s.drop (s.length - (m.length - 1))

omit [DecidableEq α] in
theorem keep_suffix (m s : List α) : keep m s <:+ s := List.drop_suffix _ s

omit [DecidableEq α] in
theorem length_keep_lt (hm : m ≠ []) : (keep m s).length < m.length := by
  have hpos := List.length_pos_iff.mpr hm
  unfold keep
  rw [List.length_drop]
  omega

omit [DecidableEq α] in

/-- The end of what is kept and a further piece is the end of the whole. -/
theorem keep_keep_append (m s t : List α) : keep m (keep m s ++ t) = keep m (s ++ t) := by
  have hs : s = s.take (s.length - (m.length - 1)) ++ keep m s := (List.take_append_drop _ _).symm
  have hlength : (keep m s).length = min s.length (m.length - 1) := by
    unfold keep
    rw [List.length_drop]
    omega
  have hdrop : (s ++ t).drop (s.length - (m.length - 1)) = keep m s ++ t :=
    List.drop_append_of_le_length (Nat.sub_le _ _)
  show (keep m s ++ t).drop _ = (s ++ t).drop _
  rw [← hdrop, List.drop_drop, List.length_drop, List.length_append]
  congr 1
  omega

omit [DecidableEq α] in

/-- What is kept is enough to find the pattern later. -/
theorem infix_keep_iff (h : ¬ m <:+: s) : m <:+: keep m s ++ t ↔ m <:+: s ++ t := by
  constructor
  · intro hfound
    obtain ⟨x, hx⟩ := keep_suffix m s
    refine hfound.trans (List.IsSuffix.isInfix ⟨x, ?_⟩)
    rw [← List.append_assoc, hx]
  · rintro ⟨x, y, hxy⟩
    -- the word ends behind the text, so it begins in what is kept
    have hlong : s.length < x.length + m.length := by
      by_contra hle
      apply h
      have hbegins : x ++ m <+: s := by
        refine List.prefix_of_prefix_length_le ⟨y, hxy⟩ (List.prefix_append s t) ?_
        rw [List.length_append]
        omega
      exact (List.infix_append' x m []).trans
        (by rw [List.append_nil]; exact hbegins.isInfix)
    refine ⟨x.drop (s.length - (m.length - 1)), y, ?_⟩
    have hdrop := congrArg (List.drop (s.length - (m.length - 1))) hxy
    rw [List.append_assoc, List.drop_append_of_le_length (by omega),
      List.drop_append_of_le_length (Nat.sub_le _ _), ← List.append_assoc] at hdrop
    exact hdrop

omit [DecidableEq α] in

/-- **The first place is found from the end that is kept.** -/
theorem FirstEnd.of_keep (hm : m ≠ []) (h : ¬ m <:+: s) (hfirst : FirstEnd m a)
    (hsplit : keep m s ++ t = a ++ m ++ c) (hpre : b ++ keep m s = s) : FirstEnd m (b ++ a) := by
  have hne : a ++ m ≠ [] := List.append_ne_nil_of_right_ne_nil a hm
  have hshorter : (a ++ m).dropLast <+: a ++ m := List.dropLast_prefix _
  have hbegins : (a ++ m).dropLast <+: keep m s ++ t := hshorter.trans ⟨c, hsplit.symm⟩
  intro hfound
  rw [List.append_assoc, List.dropLast_append_of_ne_nil hne] at hfound
  obtain hle | hlt := Nat.lt_or_ge (keep m s).length (a ++ m).dropLast.length |>.symm
  · have hkept : (a ++ m).dropLast <+: keep m s :=
      List.prefix_of_prefix_length_le hbegins (List.prefix_append _ t) hle
    apply h
    rw [← hpre]
    exact hfound.trans ((List.prefix_append_right_inj b).mpr hkept).isInfix
  · obtain ⟨t', ht'⟩ :=
      List.prefix_of_prefix_length_le (List.prefix_append _ t) hbegins (Nat.le_of_lt hlt)
    rw [← ht', ← List.append_assoc, hpre] at hfound
    apply hfirst
    rw [← ht']
    exact (infix_keep_iff h).mpr hfound

end ResearchSSH.Library
