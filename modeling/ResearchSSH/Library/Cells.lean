/-
  ResearchSSH.Library.Cells — rows that are cut at marks, and cells without spaces at their ends.

  A row is cut at every mark and each part is trimmed.  Spaces at the ends of the row then play no
  role, and a row that was put together from fields is cut where they meet and wherever a field has
  a mark of its own.

  Main results:
    * `trim_rule`         — what spaces at the ends do not change, trimming does not change.
    * `cells_intercalate` — the cells of a row are those of its fields.
    * `tidy_iff`          — the texts that are put together again from their cells.
    * `splitRuns_lines`   — lines that were written are read, whatever ends a line.
-/

import Mathlib.Data.List.Basic
import Mathlib.Data.List.DropRight

namespace ResearchSSH.Library

variable {α β : Type*} (space mark : α → Bool)

/-! ## §1. The ends of a text. -/

/-- A text without the spaces at its ends. -/
def trim (s : List α) : List α := (s.dropWhile space).rdropWhile space

/-- The parts between marks, each without the spaces at its ends. -/
def cells (s : List α) : List (List α) := (s.splitOnP mark).map (trim space)

variable {space mark} {s t l : List α} {a m : α}

/-- **The rule for trimming.**  What spaces at the ends do not change, trimming does not change. -/
theorem trim_rule {f : List α → β} (hcons : ∀ a s, space a = true → f (a :: s) = f s)
    (hconcat : ∀ a s, space a = true → f (s ++ [a]) = f s) (s : List α) :
    f (trim space s) = f s := by
  have hright : ∀ t : List α, f (t.rdropWhile space) = f t := by
    intro t
    induction t using List.reverseRecOn with
    | nil => rw [List.rdropWhile_nil]
    | append_singleton t a ih =>
      by_cases ha : space a = true
      · rw [List.rdropWhile_concat_pos _ _ _ ha, ih, hconcat a t ha]
      · rw [List.rdropWhile_concat_neg _ _ _ ha]
  have hleft : f (s.dropWhile space) = f s := by
    induction s with
    | nil => rfl
    | cons a s ih =>
      by_cases ha : space a = true
      · rw [List.dropWhile_cons_of_pos ha, ih, hcons a s ha]
      · rw [List.dropWhile_cons_of_neg ha]
  exact (hright _).trans hleft

theorem trim_cons (h : space a = true) (s : List α) : trim space (a :: s) = trim space s := by
  unfold trim
  rw [List.dropWhile_cons_of_pos h]

theorem trim_concat (h : space a = true) (s : List α) : trim space (s ++ [a]) = trim space s := by
  unfold trim
  rw [List.dropWhile_append]
  split
  · next hnone =>
    rw [List.isEmpty_iff.mp hnone, List.dropWhile_cons_of_pos h, List.dropWhile_nil]
  · rw [List.rdropWhile_concat_pos _ _ _ h]

/-- What is trimmed has nothing to trim. -/
theorem trim_trim (s : List α) : trim space (trim space s) = trim space s :=
  trim_rule (fun _ s h => trim_cons h s) (fun _ s h => trim_concat h s) s

theorem trim_append (h : ∀ a ∈ l, space a = true) (s : List α) :
    trim space (l ++ s) = trim space s := by
  induction l with
  | nil => rfl
  | cons a l ih =>
    rw [List.cons_append, trim_cons (h a List.mem_cons_self),
      ih fun b hb => h b (List.mem_cons_of_mem a hb)]

theorem mem_trim (h : a ∈ s) (ha : space a = false) : a ∈ trim space s := by
  have hsame : (a ∈ trim space s) = (a ∈ s) := by
    refine trim_rule (f := (a ∈ ·)) (fun b s hb => ?_) (fun b s hb => ?_) s
    · have hne : a ≠ b := by
        rintro rfl
        rw [ha] at hb
        cases hb
      rw [List.mem_cons, or_iff_right hne]
    · have hne : a ≠ b := by
        rintro rfl
        rw [ha] at hb
        cases hb
      rw [List.mem_append, List.mem_singleton, or_iff_left hne]
  rw [hsame]
  exact h

/-- A text that neither begins nor ends with a space. -/
theorem trim_of_ends (hfirst : ∀ a, s.head? = some a → space a = false)
    (hlast : ∀ a, s.getLast? = some a → space a = false) : trim space s = s := by
  cases s with
  | nil => rfl
  | cons a s =>
    have ha : space a = false := hfirst a rfl
    unfold trim
    rw [List.dropWhile_cons_of_neg (by rw [ha]; exact Bool.false_ne_true)]
    obtain hnil | ⟨t, b, ht⟩ := (a :: s).eq_nil_or_concat
    · cases hnil
    · rw [List.concat_eq_append] at ht
      have hb : space b = false := hlast b (by rw [ht, List.getLast?_concat])
      rw [ht, List.rdropWhile_concat_neg _ _ _ (by rw [hb]; exact Bool.false_ne_true)]

theorem length_trim_le (s : List α) : (trim space s).length ≤ s.length := by
  have hleft := (List.dropWhile_suffix (l := s) space).length_le
  exact (List.rdropWhile_prefix space (s.dropWhile space)).length_le.trans hleft

/-- **What is trimmed already** neither begins nor ends with a space. -/
theorem trim_eq_self_iff : trim space s = s ↔
    (∀ a, s.head? = some a → space a = false) ∧ ∀ a, s.getLast? = some a → space a = false := by
  refine ⟨fun h => ⟨fun a ha => ?_, fun a ha => ?_⟩, fun h => trim_of_ends h.1 h.2⟩
  · obtain ⟨t, rfl⟩ := List.head?_eq_some_iff.mp ha
    by_contra hspace
    rw [Bool.not_eq_false] at hspace
    rw [trim_cons hspace] at h
    have hlength : (trim space t).length ≤ t.length := length_trim_le t
    rw [h, List.length_cons] at hlength
    omega
  · obtain ⟨t, rfl⟩ := List.getLast?_eq_some_iff.mp ha
    by_contra hspace
    rw [Bool.not_eq_false] at hspace
    rw [trim_concat hspace] at h
    have hlength : (trim space t).length ≤ t.length := length_trim_le t
    rw [h, List.length_append, List.length_singleton] at hlength
    omega

/-- Without spaces there is nothing to trim. -/
theorem trim_of_forall (h : ∀ a ∈ s, space a = false) : trim space s = s :=
  trim_of_ends (fun a ha => h a (List.mem_of_head? ha)) fun a ha => h a (List.mem_of_getLast? ha)

/-- Behind the spaces a text begins with, the first unit stays the first. -/
theorem head?_trim (hl : ∀ a ∈ l, space a = true) (ha : space a = false) (s : List α) :
    (trim space (l ++ a :: s)).head? = some a := by
  rw [trim_append hl]
  unfold trim
  rw [List.dropWhile_cons_of_neg (by rw [ha]; exact Bool.false_ne_true)]
  obtain ⟨rest, hrest⟩ := List.rdropWhile_prefix space (a :: s)
  cases hcut : (a :: s).rdropWhile space with
  | nil =>
    rw [List.rdropWhile_eq_nil_iff] at hcut
    rw [hcut a List.mem_cons_self] at ha
    cases ha
  | cons b t =>
    rw [hcut, List.cons_append] at hrest
    rw [(List.cons.inj hrest).1]
    rfl

/-! ## §2. Cells. -/

/-- The cells on both sides of a mark. -/
theorem cells_append (hm : mark m = true) (s t : List α) :
    cells space mark (s ++ m :: t) = cells space mark s ++ cells space mark t := by
  unfold cells
  rw [List.splitOnP_append_cons s t hm, List.map_append]

/-- Without marks there is one cell. -/
theorem cells_plain (h : ∀ a ∈ s, mark a = false) : cells space mark s = [trim space s] := by
  unfold cells
  rw [List.splitOnP_eq_singleton h]
  rfl

theorem cells_ne_nil (s : List α) : cells space mark s ≠ [] := by
  unfold cells
  exact fun h => List.splitOnP_ne_nil mark s (List.map_eq_nil_iff.mp h)

theorem not_mem_of_mem_splitOnP {p : List α} (hp : p ∈ s.splitOnP mark) :
    ∀ a ∈ p, mark a = false := by
  induction s generalizing p with
  | nil =>
    rw [List.splitOnP_nil, List.mem_singleton] at hp
    rw [hp]
    exact fun a ha => absurd ha List.not_mem_nil
  | cons b s ih =>
    rw [List.splitOnP_cons_eq_if_modifyHead] at hp
    split at hp
    · obtain rfl | hp := List.mem_cons.mp hp
      · exact fun a ha => absurd ha List.not_mem_nil
      · exact ih hp
    · next hb =>
      obtain ⟨first, more, hsplit⟩ := List.exists_cons_of_ne_nil (List.splitOnP_ne_nil mark s)
      rw [hsplit, List.modifyHead_cons] at hp
      obtain rfl | hp := List.mem_cons.mp hp
      · intro a ha
        obtain rfl | ha := List.mem_cons.mp ha
        · exact Bool.eq_false_iff.mpr hb
        · exact ih (by rw [hsplit]; exact List.mem_cons_self) a ha
      · exact ih (by rw [hsplit]; exact List.mem_cons_of_mem first hp)

section
variable (hspace : ∀ a, space a = true → mark a = false)

include hspace

theorem cells_cons_space (ha : space a = true) (s : List α) :
    cells space mark (a :: s) = cells space mark s := by
  obtain ⟨first, more, hsplit⟩ := List.exists_cons_of_ne_nil (List.splitOnP_ne_nil mark s)
  unfold cells
  rw [List.splitOnP_cons_eq_if_modifyHead, if_neg (by rw [hspace a ha]; exact Bool.false_ne_true),
    hsplit, List.modifyHead_cons, List.map_cons, List.map_cons, trim_cons ha]

theorem cells_concat_space (ha : space a = true) (s : List α) :
    cells space mark (s ++ [a]) = cells space mark s := by
  induction hn : s.length using Nat.strong_induction_on generalizing s with
  | _ n ih =>
  by_cases hmark : ∃ m ∈ s, mark m = true
  · -- only what stands behind a mark is touched
    obtain ⟨m, hmem, hm⟩ := hmark
    obtain ⟨x, y, rfl⟩ := List.append_of_mem hmem
    have hshorter : y.length < n := by
      rw [← hn, List.length_append, List.length_cons]
      omega
    rw [List.append_assoc, List.cons_append, cells_append hm, cells_append hm,
      ih y.length hshorter y rfl]
  · have hnone : ∀ b ∈ s, mark b = false := fun b hb =>
      Bool.eq_false_iff.mpr fun hm => hmark ⟨b, hb, hm⟩
    have hnone' : ∀ b ∈ s ++ [a], mark b = false := by
      intro b hb
      obtain hb | hb := List.mem_append.mp hb
      · exact hnone b hb
      · rw [List.mem_singleton.mp hb]
        exact hspace a ha
    rw [cells_plain hnone, cells_plain hnone', trim_concat ha]

/-- Spaces at the ends of a row play no role. -/
theorem cells_trim (s : List α) : cells space mark (trim space s) = cells space mark s :=
  trim_rule (fun _ s h => cells_cons_space hspace h s)
    (fun _ s h => cells_concat_space hspace h s) s

theorem cells_append_spaces (hl : ∀ a ∈ l, space a = true) (s : List α) :
    cells space mark (l ++ s) = cells space mark s := by
  induction l with
  | nil => rfl
  | cons a l ih =>
    rw [List.cons_append, cells_cons_space hspace (hl a List.mem_cons_self),
      ih fun b hb => hl b (List.mem_cons_of_mem a hb)]

/-- **The cells of a row are those of its fields.** -/
theorem cells_intercalate (hm : mark m = true) (hl : ∀ a ∈ l, space a = true)
    {fields : List (List α)} (hne : fields ≠ []) :
    cells space mark ((m :: l).intercalate fields) = fields.flatMap (cells space mark) := by
  induction fields with
  | nil => exact absurd rfl hne
  | cons f fields ih =>
    cases fields with
    | nil =>
      rw [List.intercalate_singleton, List.flatMap_cons, List.flatMap_nil, List.append_nil]
    | cons g fields =>
      rw [List.intercalate_cons_cons, List.append_assoc, List.cons_append, cells_append hm,
        cells_append_spaces hspace hl, ih (List.cons_ne_nil g fields)]
      rfl

end

/-- Parts without marks, put together with one mark between them, are found again. -/
theorem splitOnP_intercalate (hm : mark m = true) {parts : List (List α)} (hne : parts ≠ [])
    (hparts : ∀ p ∈ parts, ∀ a ∈ p, mark a = false) :
    ([m].intercalate parts).splitOnP mark = parts := by
  induction parts with
  | nil => exact absurd rfl hne
  | cons p parts ih =>
    have hp := hparts p List.mem_cons_self
    cases parts with
    | nil => rw [List.intercalate_singleton, List.splitOnP_eq_singleton hp]
    | cons q parts =>
      rw [List.intercalate_cons_cons, List.append_assoc, List.singleton_append,
        List.splitOnP_append_cons_of_forall_mem hp m hm, ih (List.cons_ne_nil q parts)
          fun r hr => hparts r (List.mem_cons_of_mem p hr)]

theorem head?_intercalate (m : α) {f : List α} {fields : List (List α)} :
    ([m].intercalate (f :: fields)).head? = if f = [] ∧ fields ≠ [] then some m else f.head? := by
  cases fields with
  | nil => rw [List.intercalate_singleton, if_neg fun h => h.2 rfl]
  | cons g fields =>
    rw [List.intercalate_cons_cons, List.append_assoc]
    cases f with
    | nil => rw [if_pos ⟨rfl, List.cons_ne_nil g fields⟩]; rfl
    | cons a f => rw [if_neg fun h => List.cons_ne_nil a f h.1]; rfl

/-- Fields without spaces at their ends make a row without spaces at its ends. -/
theorem trim_intercalate (hm : space m = false) {fields : List (List α)}
    (h : ∀ f ∈ fields, trim space f = f) :
    trim space ([m].intercalate fields) = [m].intercalate fields := by
  have hends : (∀ a, ([m].intercalate fields).head? = some a → space a = false)
      ∧ ∀ a, ([m].intercalate fields).getLast? = some a → space a = false := by
    induction fields with
    | nil => exact ⟨nofun, nofun⟩
    | cons f fields ih =>
      obtain ⟨hfirst, hlast⟩ := trim_eq_self_iff.mp (h f List.mem_cons_self)
      obtain ⟨_, ihlast⟩ := ih fun g hg => h g (List.mem_cons_of_mem f hg)
      constructor
      · intro a ha
        rw [head?_intercalate] at ha
        split at ha
        · rw [← Option.some.inj ha]
          exact hm
        · exact hfirst a ha
      · intro a ha
        cases fields with
        | nil =>
          rw [List.intercalate_singleton] at ha
          exact hlast a ha
        | cons g fields =>
          rw [List.intercalate_cons_cons, List.append_assoc, List.singleton_append,
            List.getLast?_append_of_ne_nil _ (List.cons_ne_nil _ _)] at ha
          by_cases hnone : [m].intercalate (g :: fields) = []
          · rw [hnone] at ha
            rw [← Option.some.inj ha]
            exact hm
          · rw [List.getLast?_cons_of_ne_nil hnone] at ha
            exact ihlast a ha
  exact trim_of_ends hends.1 hends.2

/-- A beginning without the mark is one of the first field. -/
theorem prefix_append_cons_iff (hm : m ∉ l) : l <+: s ++ m :: t ↔ l <+: s := by
  constructor
  · intro h
    by_cases hlong : l.length ≤ s.length
    · exact List.prefix_of_prefix_length_le h (List.prefix_append s _) hlong
    · have hbehind : s ++ [m] <+: l := by
        refine List.prefix_of_prefix_length_le (List.prefix_append_right_inj s |>.mpr
          (List.prefix_append [m] t)) h ?_
        rw [List.length_append, List.length_singleton]
        omega
      exact absurd (hbehind.subset (List.mem_append_right s (List.mem_singleton_self m))) hm
  · exact fun h => h.trans (List.prefix_append s _)

/-! ## §3. Texts that are put together again. -/

variable (space mark) in

/-- Parts without marks and without spaces at their ends, put together with `gap`. -/
def Tidy (gap s : List α) : Prop :=
  ∃ parts, parts ≠ [] ∧ (∀ p ∈ parts, (∀ a ∈ p, mark a = false) ∧ trim space p = p)
    ∧ s = gap.intercalate parts

theorem mem_intercalate {gap : List α} {parts : List (List α)} (h : a ∈ gap.intercalate parts) :
    a ∈ gap ∨ ∃ p ∈ parts, a ∈ p := by
  induction parts with
  | nil => exact absurd h List.not_mem_nil
  | cons p parts ih =>
    cases parts with
    | nil =>
      rw [List.intercalate_singleton] at h
      exact .inr ⟨p, List.mem_cons_self, h⟩
    | cons q parts =>
      rw [List.intercalate_cons_cons, List.mem_append, List.mem_append] at h
      obtain (h | h) | h := h
      · exact .inr ⟨p, List.mem_cons_self, h⟩
      · exact .inl h
      · obtain h | ⟨r, hr, ha⟩ := ih h
        · exact .inl h
        · exact .inr ⟨r, List.mem_cons_of_mem p hr, ha⟩

/-- What is trimmed loses only spaces. -/
theorem mem_of_mem_trim (h : a ∈ trim space s) : a ∈ s := by
  have hright := (List.rdropWhile_prefix space (s.dropWhile space)).subset h
  exact (List.dropWhile_suffix space).subset hright

/-- **A text is put together again from its cells exactly if it is tidy.** -/
theorem tidy_iff (hspace : ∀ a, space a = true → mark a = false) (hm : mark m = true)
    (hl : ∀ a ∈ l, space a = true) :
    (m :: l).intercalate (cells space mark s) = s ↔ Tidy space mark (m :: l) s := by
  constructor
  · intro h
    refine ⟨cells space mark s, cells_ne_nil s, ?_, h.symm⟩
    intro p hp
    obtain ⟨q, hq, rfl⟩ := List.mem_map.mp hp
    exact ⟨fun a ha => not_mem_of_mem_splitOnP hq a (mem_of_mem_trim ha), trim_trim q⟩
  · rintro ⟨parts, hne, hparts, rfl⟩
    have hcells : parts.flatMap (cells space mark) = parts.flatMap fun p => [p] := by
      refine List.flatMap_congr fun p hp => ?_
      rw [cells_plain (hparts p hp).1, (hparts p hp).2]
    rw [cells_intercalate hspace hm hl hne, hcells, List.flatMap_singleton']

/-! ## §4. Lines. -/

variable (mark) in

/-- The parts between runs of marks, the empty ones at the ends included. -/
def splitRuns : List α → List (List α)
  | [] => [[]]
  | a :: s =>
    if mark a then
      if s.head?.any mark then splitRuns s else [] :: splitRuns s
    else (splitRuns s).modifyHead (a :: ·)

/-- A run of marks is one separator. -/
theorem splitRuns_run (hl : ∀ a ∈ l, mark a = true) (hne : l ≠ [])
    (hs : s.head?.any mark = false) : splitRuns mark (l ++ s) = [] :: splitRuns mark s := by
  induction l with
  | nil => exact absurd rfl hne
  | cons a l ih =>
    have ha := hl a List.mem_cons_self
    rw [List.cons_append, splitRuns, if_pos ha]
    cases l with
    | nil =>
      rw [List.nil_append, if_neg (by rw [hs]; exact Bool.false_ne_true)]
    | cons b l =>
      have hb := hl b (List.mem_cons_of_mem a List.mem_cons_self)
      rw [if_pos (by rw [List.cons_append, List.head?_cons, Option.any_some, hb]),
        ih (fun c hc => hl c (List.mem_cons_of_mem a hc)) (List.cons_ne_nil b l)]

/-- One line. -/
theorem splitRuns_append (ht : ∀ a ∈ t, mark a = false) (hl : ∀ a ∈ l, mark a = true)
    (hne : l ≠ []) (hs : s.head?.any mark = false) :
    splitRuns mark (t ++ l ++ s) = t :: splitRuns mark s := by
  rw [List.append_assoc]
  induction t with
  | nil => exact splitRuns_run hl hne hs
  | cons a t ih =>
    rw [List.cons_append, splitRuns, if_neg (by
      rw [ht a List.mem_cons_self]
      exact Bool.false_ne_true), ih fun b hb => ht b (List.mem_cons_of_mem a hb)]
    rfl

/-- **Lines that were written are read.**  Each of them is ended by the same run of marks. -/
theorem splitRuns_lines (hl : ∀ a ∈ l, mark a = true) (hne : l ≠ []) {rows : List (List α)}
    (hrows : ∀ r ∈ rows, r ≠ [] ∧ ∀ a ∈ r, mark a = false) :
    splitRuns mark (rows.flatMap (· ++ l)) = rows ++ [[]] := by
  induction rows with
  | nil => rfl
  | cons r rows ih =>
    have hrest := ih fun r' hr' => hrows r' (List.mem_cons_of_mem r hr')
    have hhead : (rows.flatMap (· ++ l)).head?.any mark = false := by
      cases rows with
      | nil => rfl
      | cons r' rows =>
        obtain ⟨hr'ne, hr'⟩ := hrows r' (List.mem_cons_of_mem r List.mem_cons_self)
        obtain ⟨b, rest, rfl⟩ := List.exists_cons_of_ne_nil hr'ne
        rw [List.flatMap_cons, List.cons_append, List.cons_append, List.head?_cons,
          Option.any_some]
        exact hr' b List.mem_cons_self
    rw [List.flatMap_cons, splitRuns_append (hrows r List.mem_cons_self).2 hl hne hhead, hrest]
    rfl

end ResearchSSH.Library
