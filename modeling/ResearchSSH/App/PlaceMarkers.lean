/-
  ResearchSSH.App.PlaceMarkers — how `QString::arg` reads a text.

  A place marker is a `%` with an optional `L` and one or two digits behind it.  A unit that is
  neither a digit nor an `L` ends whatever marker stands before it, so a text can be cut in front
  of such a unit and its parts read on their own.  The `L` asks for a number in the user's locale;
  numbers are written here as in the C locale, with it or without.

  Main results:
    * `argPieces_append` — the cut.
    * `arg_single` — one argument stands for all markers of the lowest number.
    * `exists_marker` — where the first marker of a number stands.
    * `arg_set` — where an argument stands among others.
-/

import Mathlib.Data.List.Dedup
import ResearchSSH.App.QString

namespace ResearchSSH.App

/-! ## §1. Reading. -/

/-- The unit is no part of a marker unless it begins one. -/
def endsMarker (u : QChar) : Prop := digitOf u = none ∧ u ≠ 0x4c

instance (u : QChar) : Decidable (endsMarker u) := inferInstanceAs (Decidable (_ ∧ _))

/-- The number at the head of a text, with the number of units it takes. -/
def markerDigits : QString → Option (Nat × Nat)
  | [] => none
  | d :: more =>
    match digitOf d, more.head?.bind digitOf with
    | some m, some n => some (10 * m + n, 2)
    | some m, none => some (m, 1)
    | none, _ => none

/-- A marker may begin with an `L`. -/
theorem placeMarker_eq (rest : QString) :
    placeMarker rest =
      if rest.head? = some 0x4c then (markerDigits (rest.drop 1)).map fun q => (q.1, q.2 + 1)
      else markerDigits rest := by
  have hdigits : ∀ (l : Nat) (text : QString),
      (match text with
        | [] => none
        | d :: more =>
          match digitOf d, more.head?.bind digitOf with
          | some m, some n => some (10 * m + n, l + 2)
          | some m, none => some (m, l + 1)
          | none, _ => none) = (markerDigits text).map fun q => (q.1, q.2 + l) := by
    intro l text
    cases text with
    | nil => rfl
    | cons d more =>
      unfold markerDigits
      dsimp only
      cases digitOf d with
      | none => rfl
      | some m =>
        cases more.head?.bind digitOf with
        | none => exact congrArg some (Prod.ext rfl (Nat.add_comm l 1))
        | some n => exact congrArg some (Prod.ext rfl (Nat.add_comm l 2))
  refine (hdigits _ _).trans ?_
  split
  · rfl
  · rw [List.drop_zero]
    exact Option.map_id'

/-- What ends a marker hides what stands behind it. -/
theorem markerDigits_append {c : QChar} (hc : endsMarker c) (rest tail : QString) :
    markerDigits (rest ++ c :: tail) = markerDigits rest := by
  cases rest with
  | nil =>
    show (match digitOf c, tail.head?.bind digitOf with
      | some m, some n => some (10 * m + n, 2)
      | some m, none => some (m, 1)
      | none, _ => none) = none
    rw [hc.1]
  | cons d more =>
    have hhead : (more ++ c :: tail).head?.bind digitOf = more.head?.bind digitOf := by
      cases more with
      | nil => exact hc.1
      | cons _ _ => rfl
    rw [List.cons_append, markerDigits, markerDigits, hhead]

/-- What ends a marker hides what stands behind it. -/
theorem placeMarker_append {c : QChar} (hc : endsMarker c) (rest tail : QString) :
    placeMarker (rest ++ c :: tail) = placeMarker rest := by
  rw [placeMarker_eq, placeMarker_eq]
  cases rest with
  | nil =>
    rw [List.nil_append, List.head?_cons, if_neg (fun h => hc.2 (Option.some.inj h))]
    exact markerDigits_append hc [] tail
  | cons x xs =>
    rw [List.cons_append, List.head?_cons, List.head?_cons, List.drop_succ_cons,
      List.drop_succ_cons, List.drop_zero, List.drop_zero, markerDigits_append hc,
      ← List.cons_append, markerDigits_append hc]

/-- The digits of a marker are in the text. -/
theorem markerDigits_size_le {rest : QString} {n size : Nat}
    (h : markerDigits rest = some (n, size)) : 0 < size ∧ size ≤ rest.length := by
  cases rest with
  | nil => exact absurd h (Option.some_ne_none _).symm
  | cons d more =>
    rw [markerDigits] at h
    split at h
    next m k _ hk =>
      have hmore : 0 < more.length := by
        cases more with
        | nil => exact absurd hk (Option.some_ne_none k).symm
        | cons _ _ => exact Nat.succ_pos _
      obtain ⟨-, rfl⟩ := Prod.mk.inj (Option.some.inj h)
      rw [List.length_cons]
      omega
    · obtain ⟨-, rfl⟩ := Prod.mk.inj (Option.some.inj h)
      rw [List.length_cons]
      omega
    · exact absurd h (Option.some_ne_none _).symm

/-- A marker is in the text. -/
theorem placeMarker_size_le {rest : QString} {n size : Nat}
    (h : placeMarker rest = some (n, size)) : size ≤ rest.length := by
  rw [placeMarker_eq] at h
  split at h
  next hl =>
    obtain ⟨⟨m, k⟩, hdigits, heq⟩ := Option.map_eq_some_iff.mp h
    obtain ⟨-, rfl⟩ := Prod.mk.inj heq
    obtain ⟨hpos, hle⟩ := markerDigits_size_le hdigits
    rw [List.length_drop] at hle
    omega
  · exact (markerDigits_size_le h).2

-- the equations of the reader, for the lemmas below
attribute [local simp] argPieces

/-- Characters already taken are skipped. -/
theorem argPieces_eq_drop (skip : Nat) (s : QString) :
    argPieces skip s = argPieces 0 (s.drop skip) := by
  induction s generalizing skip with
  | nil =>
    rw [List.drop_nil]
    cases skip <;> simp
  | cons u rest ih =>
    cases skip with
    | zero => rfl
    | succ skip =>
      rw [argPieces, List.drop_succ_cons]
      exact ih skip

/-- A text can be cut in front of a unit that ends every marker. -/
theorem argPieces_append {c : QChar} (hc : endsMarker c) (tail : QString) (skip : Nat)
    (s : QString) (hskip : skip ≤ s.length) :
    argPieces skip (s ++ c :: tail) = argPieces skip s ++ argPieces 0 (c :: tail) := by
  fun_induction argPieces skip s with
  | case1 skip =>
    rw [List.length_nil, Nat.le_zero] at hskip
    rw [hskip]
    rfl
  | case2 skip u rest ih =>
    rw [List.cons_append, argPieces]
    exact ih (Nat.le_of_succ_le_succ hskip)
  | case3 u rest n size hmarker ih =>
    have hu : u = 0x25 := by
      by_contra hne
      rw [if_neg hne] at hmarker
      exact absurd hmarker (Option.some_ne_none _).symm
    rw [if_pos hu] at hmarker
    have hsize := placeMarker_size_le hmarker
    rw [List.cons_append, argPieces, if_pos hu, placeMarker_append hc, hmarker]
    dsimp only
    rw [List.take_append_of_le_length hsize, ih hsize]
    rfl
  | case4 u rest hmarker ih =>
    rw [List.cons_append, argPieces]
    have hmarker' : (if u = 0x25 then placeMarker (rest ++ c :: tail) else none) = none := by
      rw [placeMarker_append hc]
      exact hmarker
    rw [hmarker']
    dsimp only
    rw [ih (Nat.zero_le _)]
    rfl

/-- The pieces are the text. -/
theorem argPieces_text (skip : Nat) (s : QString) :
    (argPieces skip s).flatMap Prod.snd = s.drop skip := by
  fun_induction argPieces skip s with
  | case1 skip => rw [List.drop_nil]; rfl
  | case2 skip u rest ih => rw [ih, List.drop_succ_cons]
  | case3 u rest n size hmarker ih =>
    rw [List.flatMap_cons, ih, List.drop_zero]
    show u :: rest.take size ++ rest.drop size = u :: rest
    rw [List.cons_append, List.take_append_drop]
  | case4 u rest hmarker ih =>
    rw [List.flatMap_cons, ih, List.drop_zero, List.drop_zero]
    rfl

/-- A marker is a piece of its own. -/
theorem argPieces_percent {rest : QString} {n size : Nat}
    (h : placeMarker rest = some (n, size)) (s : QString) :
    argPieces 0 (s ++ 0x25 :: rest) =
      argPieces 0 s ++ (some n, 0x25 :: rest.take size) :: argPieces 0 (rest.drop size) := by
  rw [argPieces_append (by decide) rest 0 s (Nat.zero_le _), argPieces, if_pos rfl, h]
  dsimp only
  rw [argPieces_eq_drop size rest]

/-- A unit that ends every marker, and is not itself the beginning of one. -/
theorem argPieces_separator {c : QChar} (hc : endsMarker c) (hpercent : c ≠ 0x25)
    (s tail : QString) :
    argPieces 0 (s ++ c :: tail) = argPieces 0 s ++ (none, [c]) :: argPieces 0 tail := by
  rw [argPieces_append hc tail 0 s (Nat.zero_le _), argPieces, if_neg hpercent]

/-! ## §2. The markers of a text. -/

/-- The numbers of the markers, in the order in which they stand. -/
def markers (s : QString) : List Nat := (argPieces 0 s).filterMap Prod.fst

/-- The pieces written out, `d` in place of the markers numbered `m`. -/
def substitute (m : Nat) (d : QString) (pieces : List (Option Nat × QString)) : QString :=
  pieces.flatMap fun q => if q.1 = some m then d else q.2

/-- A marker is one of the markers. -/
theorem markers_percent {rest : QString} {n size : Nat} (h : placeMarker rest = some (n, size))
    (s : QString) :
    markers (s ++ 0x25 :: rest) = markers s ++ n :: markers (rest.drop size) := by
  unfold markers
  rw [argPieces_percent h, List.filterMap_append]
  rfl

/-- The markers on both sides of what ends one. -/
theorem markers_separator {c : QChar} (hc : endsMarker c) (hpercent : c ≠ 0x25)
    (s tail : QString) : markers (s ++ c :: tail) = markers s ++ markers tail := by
  unfold markers
  rw [argPieces_separator hc hpercent, List.filterMap_append]
  rfl

/-- Pieces are filled in one after another. -/
theorem substitute_append (m : Nat) (d : QString) (ps qs : List (Option Nat × QString)) :
    substitute m d (ps ++ qs) = substitute m d ps ++ substitute m d qs := List.flatMap_append

/-- A marker of the number is replaced. -/
theorem substitute_cons_self (m : Nat) (d written : QString) (qs : List (Option Nat × QString)) :
    substitute m d ((some m, written) :: qs) = d ++ substitute m d qs := by
  unfold substitute
  rw [List.flatMap_cons, if_pos rfl]

/-- A text without markers of the number stays as it is. -/
theorem substitute_of_notMem {m : Nat} {s : QString} (h : m ∉ markers s) (d : QString) :
    substitute m d (argPieces 0 s) = s := by
  have hpieces : ∀ q ∈ argPieces 0 s, (if q.1 = some m then d else q.2) = q.2 := by
    intro q hq
    rw [if_neg]
    intro hm
    exact h (List.mem_filterMap.mpr ⟨q, hq, hm⟩)
  unfold substitute
  rw [List.flatMap_congr hpieces]
  exact argPieces_text 0 s

/-- Where a marker stands first. -/
theorem exists_marker {n : Nat} {s : QString} (h : n ∈ markers s) :
    ∃ a rest size, s = a ++ 0x25 :: rest ∧ placeMarker rest = some (n, size) ∧ n ∉ markers a := by
  have key : ∀ skip s, n ∈ (argPieces skip s).filterMap Prod.fst →
      ∃ a rest size, s.drop skip = a ++ 0x25 :: rest ∧ placeMarker rest = some (n, size) ∧
        n ∉ markers a := by
    intro skip s h
    fun_induction argPieces skip s with
    | case1 skip => exact absurd h List.not_mem_nil
    | case2 skip u rest ih => exact ih h
    | case3 u rest m size hmarker ih =>
      have hu : u = 0x25 := by
        by_contra hne
        rw [if_neg hne] at hmarker
        exact absurd hmarker (Option.some_ne_none _).symm
      rw [if_pos hu] at hmarker
      by_cases hm : n = m
      · -- this marker is the first of the number
        refine ⟨[], rest, size, ?_, hm ▸ hmarker, List.not_mem_nil⟩
        rw [hu]
        rfl
      · -- the first marker of the number stands behind this one
        have hrest : n ∈ (argPieces size rest).filterMap Prod.fst := by
          have hmem : n ∈ m :: (argPieces size rest).filterMap Prod.fst := h
          exact (List.mem_cons.mp hmem).resolve_left hm
        obtain ⟨a, tail, k, hdrop, htail, hfree⟩ := ih hrest
        have hsplit : rest = (rest.take size ++ a) ++ 0x25 :: tail := by
          rw [List.append_assoc, ← hdrop, List.take_append_drop]
        have hhead : placeMarker (rest.take size ++ a) = some (m, size) := by
          rw [hsplit, placeMarker_append (by decide)] at hmarker
          exact hmarker
        refine ⟨0x25 :: (rest.take size ++ a), tail, k, ?_, htail, ?_⟩
        · rw [List.drop_zero, hu, List.cons_append, ← hsplit]
        · have hmarkers := markers_percent hhead []
          rw [List.nil_append] at hmarkers
          have hlength : (rest.take size).length = size :=
            List.length_take_of_le (placeMarker_size_le hmarker)
          rw [hmarkers, List.drop_left' hlength]
          rw [show markers [] = [] from rfl, List.nil_append, List.mem_cons]
          exact fun hmem => hmem.elim hm hfree
    | case4 u rest hmarker ih =>
      have hrest : n ∈ (argPieces 0 rest).filterMap Prod.fst := by
        rw [List.filterMap_cons_none rfl] at h
        exact h
      obtain ⟨a, tail, k, hdrop, htail, hfree⟩ := ih hrest
      rw [List.drop_zero] at hdrop
      refine ⟨u :: a, tail, k, ?_, htail, ?_⟩
      · rw [List.drop_zero, hdrop]
        rfl
      · unfold markers
        rw [argPieces]
        have hnone : (if u = 0x25 then placeMarker a else none) = none := by
          rw [hdrop, placeMarker_append (by decide)] at hmarker
          exact hmarker
        rw [hnone]
        exact hfree
  exact key 0 s h

/-! ## §3. One argument. -/

/-- One argument stands for every marker of the lowest number, and the other markers stay. -/
theorem arg_single {m : Nat} {s : QString} (hm : m ∈ markers s)
    (hmin : ∀ n ∈ markers s, m ≤ n) (d : QString) :
    arg s [d] = substitute m d (argPieces 0 s) := by
  have hsorted : (markers s).dedup.insertionSort (· ≤ ·) |>.Pairwise (· ≤ ·) :=
    List.pairwise_insertionSort _ _
  have hmem : ∀ n, n ∈ (markers s).dedup.insertionSort (· ≤ ·) ↔ n ∈ markers s := by
    intro n
    rw [List.mem_insertionSort, List.mem_dedup]
  -- the lowest number is the first one
  obtain ⟨others, hnumbers⟩ : ∃ others,
      (markers s).dedup.insertionSort (· ≤ ·) = m :: others := by
    cases hcases : (markers s).dedup.insertionSort (· ≤ ·) with
    | nil =>
      have hin := (hmem m).mpr hm
      rw [hcases] at hin
      exact absurd hin List.not_mem_nil
    | cons x xs =>
      rw [hcases] at hsorted hmem
      have hle : m ≤ x := hmin x ((hmem x).mp List.mem_cons_self)
      have hge : x ≤ m := by
        rcases List.mem_cons.mp ((hmem m).mpr hm) with rfl | hin
        · exact Nat.le_refl _
        · exact (List.pairwise_cons.mp hsorted).1 m hin
      exact ⟨xs, by rw [Nat.le_antisymm hle hge]⟩
  unfold arg substitute
  dsimp only
  apply List.flatMap_congr
  rintro ⟨marker, written⟩ -
  cases marker with
  | none => rfl
  | some n =>
    dsimp only
    show ([d][((markers s).dedup.insertionSort (· ≤ ·)).idxOf n]?).getD written = _
    rw [hnumbers]
    by_cases hn : n = m
    · rw [if_pos (congrArg some hn), hn, List.idxOf_cons_self]
      rfl
    · rw [if_neg (fun h => hn (Option.some.inj h)), List.idxOf_cons_ne _ (Ne.symm hn)]
      rfl

/-! ## §4. Markers written otherwise. -/

/-- A marker written with its `L` left out, or put in. -/
theorem exists_rewritten {m : Nat} {s : QString} (h : m ∈ markers s) :
    ∃ t, t ≠ s ∧ t ≠ [] ∧ markers t = markers s ∧
      ∀ d, substitute m d (argPieces 0 t) = substitute m d (argPieces 0 s) := by
  obtain ⟨a, rest, size, rfl, hmarker, -⟩ := exists_marker h
  obtain ⟨other, k, hlength, hother, hdrop⟩ : ∃ other k, other.length ≠ rest.length ∧
      placeMarker other = some (m, k) ∧ other.drop k = rest.drop size := by
    have hdigits := hmarker
    rw [placeMarker_eq] at hdigits
    cases rest with
    | nil => exact absurd hdigits (Option.some_ne_none _).symm
    | cons x xs =>
      by_cases hx : x = 0x4c
      · rw [List.head?_cons, hx, if_pos rfl, List.drop_one, List.tail_cons] at hdigits
        obtain ⟨⟨n, k⟩, hxs, heq⟩ := Option.map_eq_some_iff.mp hdigits
        obtain ⟨rfl, rfl⟩ := Prod.mk.inj heq
        refine ⟨xs, k, by simp, ?_, rfl⟩
        rw [placeMarker_eq, if_neg, hxs]
        -- a number does not begin with the letter
        intro hl
        cases xs with
        | nil => exact absurd hl (Option.some_ne_none _).symm
        | cons y ys =>
          rw [List.head?_cons, Option.some.injEq] at hl
          rw [hl, markerDigits] at hxs
          exact absurd hxs (by simp [digitOf])
      · have hne : ¬ (x :: xs).head? = some 0x4c := fun hl => hx (Option.some.inj hl)
        rw [if_neg hne] at hdigits
        refine ⟨0x4c :: x :: xs, size + 1, by simp, ?_, rfl⟩
        rw [placeMarker_eq, List.head?_cons, if_pos rfl, List.drop_one, List.tail_cons, hdigits]
        rfl
  refine ⟨a ++ 0x25 :: other, ?_, ?_, ?_, ?_⟩
  · intro heq
    have hlengths := congrArg List.length heq
    rw [List.length_append, List.length_append, List.length_cons, List.length_cons] at hlengths
    omega
  · exact List.append_ne_nil_of_right_ne_nil _ (List.cons_ne_nil _ _)
  · rw [markers_percent hother, markers_percent hmarker, hdrop]
  · intro d
    rw [argPieces_percent hother, argPieces_percent hmarker, substitute_append, substitute_append,
      substitute_cons_self, substitute_cons_self, hdrop]

/-! ## §5. One argument among others. -/

/-- The numbers of the markers of a text, in the order of the arguments. -/
def markerNumbers (text : QString) : List Nat := (markers text).dedup.insertionSort (· ≤ ·)

/-- The text between the markers that stand for argument `i`, with the others in place. -/
def segments (numbers : List Nat) (args : List QString) (i : Nat) :
    List (Option Nat × QString) → List QString
  | [] => [[]]
  | (marker, written) :: pieces =>
    if marker.map (numbers.idxOf ·) = some i then [] :: segments numbers args i pieces
    else
      match segments numbers args i pieces with
      | [] => []
      | s :: ss => ((marker.bind fun n => args[numbers.idxOf n]?).getD written ++ s) :: ss

/-- The text in pieces: what stands, and what is put in. -/
def argSegments (text : QString) (args : List QString) (i : Nat) : List QString :=
  segments (markerNumbers text) args i (argPieces 0 text)

/-- There is always a segment. -/
theorem segments_ne_nil (numbers : List Nat) (args : List QString) (i : Nat)
    (pieces : List (Option Nat × QString)) : segments numbers args i pieces ≠ [] := by
  induction pieces with
  | nil => exact List.cons_ne_nil _ _
  | cons p pieces ih =>
    rw [segments]
    split
    · exact List.cons_ne_nil _ _
    · split
      · next heq => exact absurd heq ih
      · exact List.cons_ne_nil _ _

/-- What stands in front of the first text stands in front of all. -/
theorem intercalate_append (x w s : QString) (ss : List QString) :
    x.intercalate ((w ++ s) :: ss) = w ++ x.intercalate (s :: ss) := by
  cases ss with
  | nil => rw [List.intercalate_singleton, List.intercalate_singleton]
  | cons s' ss => simp only [List.intercalate_cons_cons, List.append_assoc]

/-- The segments joined are the text filled in. -/
theorem flatMap_segments {numbers : List Nat} {args : List QString} {i : Nat}
    (hi : i < args.length) {x : QString} {f : Option Nat × QString → QString}
    (hnone : ∀ written, f (none, written) = written)
    (hsome : ∀ n written, f (some n, written)
      = ((args.set i x)[numbers.idxOf n]?).getD written) (pieces : List (Option Nat × QString)) :
    pieces.flatMap f = x.intercalate (segments numbers args i pieces) := by
  induction pieces with
  | nil => rw [segments, List.intercalate_singleton]; rfl
  | cons p pieces ih =>
    obtain ⟨marker, written⟩ := p
    rw [List.flatMap_cons, ih, segments]
    obtain ⟨s, ss, hrest⟩ := List.exists_cons_of_ne_nil (segments_ne_nil numbers args i pieces)
    cases marker with
    | none =>
      rw [if_neg nofun, hrest, hnone, intercalate_append]
      rfl
    | some n =>
      rw [Option.map_some, hsome]
      by_cases hn : numbers.idxOf n = i
      · rw [if_pos (congrArg some hn), List.intercalate_cons_of_ne_nil
          (segments_ne_nil numbers args i pieces), hn, List.getElem?_set_self hi]
        rfl
      · rw [if_neg fun h => hn (Option.some.inj h), hrest, List.getElem?_set_ne (Ne.symm hn)]
        exact (intercalate_append x _ s ss).symm

/-- **An argument stands between the segments of the text**, whatever it is. -/
theorem arg_set (text : QString) {args : List QString} {i : Nat} (hi : i < args.length)
    (x : QString) : arg text (args.set i x) = x.intercalate (argSegments text args i) :=
  flatMap_segments hi (fun _ => rfl) (fun _ _ => rfl) (argPieces 0 text)

end ResearchSSH.App
