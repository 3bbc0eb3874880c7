/-
  ResearchSSH.Library.TokenText — replacing tokens one kind after another.

  A token is a mark and a letter; two marks stand for one.  Read once from left to right, a text
  is cut into parts, and every token can be replaced where it stands.  Replacing all pairs of the
  mark and one letter, and then those of the next letter, reads again what was put in before.  It
  does the same as long as every pair that is replaced is a token of the text.

  To tell these from other pairs, the letters of tokens are flagged; all others, those that were
  put in and those of two marks, are not.

  Main results:
    * `source_parts`       — the parts of a text make it up.
    * `clean_iff`          — when every pair that is replaced is a token.
    * `replaceEach_iff`    — when that is replacing the tokens in one pass.
    * `replaceEach_unmarked` — it is, where no value has the mark in it.
-/

import Mathlib.Data.List.Nodup
import Mathlib.Data.List.Infix

namespace ResearchSSH.Library

variable {α : Type*}

/-! ## §1. The parts of a text. -/

/-- A piece of a text: a letter, a token or the escape of the mark. -/
inductive Part (α : Type*)
  | letter (c : α)
  | token (k : α)
  | escape
  deriving DecidableEq, Repr

/-- A pair that is not flagged as a token. -/
def Stray (a b : α) (s : List (α × Bool)) : Prop :=
  ∃ before x y after, s = before ++ (a, x) :: (b, y) :: after ∧ (x && y) = false

variable {a b : α} {s : List (α × Bool)}

theorem Stray.append (h : Stray a b s) (l : List (α × Bool)) : Stray a b (l ++ s) := by
  obtain ⟨before, x, y, after, rfl, hflag⟩ := h
  exact ⟨l ++ before, x, y, after, (List.append_assoc _ _ _).symm, hflag⟩

theorem Stray.cons (h : Stray a b s) (c : α × Bool) : Stray a b (c :: s) := h.append [c]

theorem not_stray_cons {c : α × Bool} (hs : ¬ Stray a b s)
    (h : ∀ d rest, s = d :: rest → ¬ (c.1 = a ∧ d.1 = b ∧ (c.2 && d.2) = false)) :
    ¬ Stray a b (c :: s) := by
  rintro ⟨before, x, y, after, heq, hflag⟩
  cases before with
  | nil =>
    obtain ⟨rfl, rfl⟩ := List.cons.inj heq
    exact h (b, y) after rfl ⟨rfl, rfl, hflag⟩
  | cons d before =>
    obtain ⟨_, rfl⟩ := List.cons.inj heq
    exact hs ⟨before, x, y, after, rfl, hflag⟩

theorem not_stray_plain {l : List α} (hl : a ∉ l) (hs : ¬ Stray a b s) :
    ¬ Stray a b (l.map (·, false) ++ s) := by
  induction l with
  | nil => exact hs
  | cons c l ih =>
    rw [List.mem_cons, not_or] at hl
    exact not_stray_cons (ih hl.2) fun _ _ _ hpair => hl.1 hpair.1.symm

variable [DecidableEq α] (mark : α) (keys : List α) (value : α → List α)

/-- The parts of a text, from left to right. -/
def parts : List α → List (Part α)
  | [] => []
  | [c] => [.letter c]
  | c :: d :: rest =>
    if c = mark then
      if d ∈ keys then .token d :: parts rest
      else if d = mark then .escape :: parts rest
      else .letter c :: parts (d :: rest)
    else .letter c :: parts (d :: rest)

/-- The piece as it is written. -/
def Part.source : Part α → List α
  | .letter c => [c]
  | .token k => [mark, k]
  | .escape => [mark, mark]

/-- What a part becomes: tokens their values, and two marks one. -/
def Part.once : Part α → List α
  | .letter c => [c]
  | .token k => value k
  | .escape => [mark]

/-- Every token is replaced where it stands. -/
def onePass (s : List α) : List α := (parts mark keys s).flatMap (Part.once mark value)

/-- The parts make up the text. -/
theorem source_parts (s : List α) : (parts mark keys s).flatMap (Part.source mark) = s := by
  fun_induction parts mark keys s with
  | case1 => rfl
  | case2 c => rfl
  | case3 d rest hkey ih =>
    rw [List.flatMap_cons, ih]
    rfl
  | case4 rest hkey ih =>
    rw [List.flatMap_cons, ih]
    rfl
  | case5 d rest hkey hmark ih =>
    rw [List.flatMap_cons, ih]
    rfl
  | case6 c d rest hmark ih =>
    rw [List.flatMap_cons, ih]
    rfl

theorem token_mem_keys {k : α} {s : List α} (h : .token k ∈ parts mark keys s) : k ∈ keys := by
  fun_induction parts mark keys s with
  | case1 => cases h
  | case2 c => simp at h
  | case3 d rest hkey ih =>
    obtain heq | h := List.mem_cons.mp h
    · rw [Part.token.inj heq]
      exact hkey
    · exact ih h
  | case4 rest hkey ih => exact ih ((List.mem_cons.mp h).resolve_left nofun)
  | case5 d rest hkey hmark ih => exact ih ((List.mem_cons.mp h).resolve_left nofun)
  | case6 c d rest hmark ih => exact ih ((List.mem_cons.mp h).resolve_left nofun)

/-! ## §2. Replacing one kind of pair. -/

/-- Every `a` and `b` next to each other is replaced, from left to right. -/
def replacePair (a b : α) (new : List α) : List α → List α
  | [] => []
  | [c] => [c]
  | c :: d :: rest =>
    -- Within one kind, what is put in is not read again.
    if c = a ∧ d = b then new ++ replacePair a b new rest else c :: replacePair a b new (d :: rest)

/-- The same for letters with flags; what is put in has none. -/
def replaceMarked (a b : α) (new : List α) : List (α × Bool) → List (α × Bool)
  | [] => []
  | [c] => [c]
  | c :: d :: rest =>
    if c.1 = a ∧ d.1 = b then new.map (·, false) ++ replaceMarked a b new rest
    else c :: replaceMarked a b new (d :: rest)

theorem map_replaceMarked (a b : α) (new : List α) (s : List (α × Bool)) :
    (replaceMarked a b new s).map Prod.fst = replacePair a b new (s.map Prod.fst) := by
  fun_induction replaceMarked a b new s with
  | case1 => rfl
  | case2 c => rfl
  | case3 c d rest hpair ih =>
    rw [List.map_append, ih, List.map_cons, List.map_cons, replacePair, if_pos hpair]
    simp [Function.comp_def]
  | case4 c d rest hpair ih =>
    rw [List.map_cons, ih]
    exact (if_neg hpair).symm

variable {mark keys value} {a b : α} {new : List α} {s : List (α × Bool)}

theorem replaceMarked_cons {c : α × Bool} (h : ∀ d rest, s = d :: rest → ¬ (c.1 = a ∧ d.1 = b)) :
    replaceMarked a b new (c :: s) = c :: replaceMarked a b new s := by
  cases s with
  | nil => rfl
  | cons d rest => rw [replaceMarked, if_neg (h d rest rfl)]

/-- Letters that belong to no token stay. -/
theorem replaceMarked_plain (l : List α) (h : ¬ Stray a b (l.map (·, false) ++ s)) :
    replaceMarked a b new (l.map (·, false) ++ s) = l.map (·, false) ++ replaceMarked a b new s := by
  induction l with
  | nil => rfl
  | cons c l ih =>
    rw [List.map_cons, List.cons_append] at h ⊢
    have hrest : ∀ d rest, l.map (·, false) ++ s = d :: rest → ¬ (c = a ∧ d.1 = b) := by
      rintro ⟨d, y⟩ rest heq ⟨rfl, rfl⟩
      exact h ⟨[], false, y, rest, by rw [heq]; rfl, rfl⟩
    rw [replaceMarked_cons hrest, ih fun hstray => h (hstray.cons _), List.cons_append]

/-! ## §3. One kind after another. -/

variable (mark value)

/-- A part, where the tokens of `done` have been replaced. -/
def Part.marked (done : List α) : Part α → List (α × Bool)
  | .letter c => [(c, false)]
  -- A token keeps its flags until its kind is replaced.
  | .token k => if k ∈ done then (value k).map (·, false) else [(mark, true), (k, true)]
  | .escape => [(mark, false), (mark, false)]

/-- The text, where the tokens of `done` have been replaced. -/
def markedText (done : List α) (ps : List (Part α)) : List (α × Bool) :=
  ps.flatMap (Part.marked mark value done)

/-- All kinds of pairs, one after another. -/
def replaceEach (keys : List α) (s : List α) : List α :=
  keys.foldl (fun s k => replacePair mark k (value k) s) s

/-- Every pair that is replaced is a token. -/
def Clean : List α → List (α × Bool) → Prop
  | [], _ => True
  | k :: keys, s => ¬ Stray mark k s ∧ Clean keys (replaceMarked mark k (value k) s)

variable {mark value}

theorem marked_done {k : α} {done : List α} (h : k ∈ done) :
    Part.marked mark value done (.token k) = (value k).map (·, false) := if_pos h

theorem marked_open {k : α} {done : List α} (h : k ∉ done) :
    Part.marked mark value done (.token k) = [(mark, true), (k, true)] := if_neg h

/-- The tokens of one kind are replaced, and nothing else. -/
theorem replaceMarked_markedText {k : α} {done : List α} (hk : k ∉ done) (ps : List (Part α))
    (htokens : ∀ k', .token k' ∈ ps → k' ≠ mark) (h : ¬ Stray mark k (markedText mark value done ps)) :
    replaceMarked mark k (value k) (markedText mark value done ps)
      = markedText mark value (done ++ [k]) ps := by
  induction ps with
  | nil => rfl
  | cons p ps ih =>
    unfold markedText at h ih ⊢
    rw [List.flatMap_cons] at h ⊢
    have hrest := ih (fun k' hk' => htokens k' (List.mem_cons_of_mem p hk'))
      fun hstray => h (hstray.append _)
    rw [List.flatMap_cons, ← hrest]
    cases p with
    | letter c => exact replaceMarked_plain [c] h
    | escape => exact replaceMarked_plain [mark, mark] h
    | token k' =>
      by_cases hdone : k' ∈ done
      · rw [marked_done hdone] at h ⊢
        rw [marked_done (List.mem_append_left _ hdone)]
        exact replaceMarked_plain (value k') h
      · rw [marked_open hdone]
        by_cases hkey : k' = k
        · subst hkey
          rw [marked_done (List.mem_append_right _ (List.mem_singleton_self _))]
          exact if_pos ⟨rfl, rfl⟩
        · -- a token of another kind: neither its mark nor its letter is read as a pair of this one
          have hnot : k' ∉ done ++ [k] := by simp [hdone, hkey]
          have hmark := htokens k' List.mem_cons_self
          rw [marked_open hnot, List.cons_append, List.cons_append, List.nil_append,
            replaceMarked_cons, replaceMarked_cons]
          · rfl
          · exact fun d rest _ hpair => hmark hpair.1
          · rintro d rest heq ⟨_, rfl⟩
            exact hkey (congrArg Prod.fst (List.cons.inj heq).1)

/-- When replacing one token after another hits only tokens. -/
theorem clean_iff {ps : List (Part α)} (htokens : ∀ k, .token k ∈ ps → k ≠ mark) (keys : List α) :
    ∀ done : List α, (done ++ keys).Nodup →
      (Clean mark value keys (markedText mark value done ps) ↔
        ∀ before k after, keys = before ++ k :: after →
          ¬ Stray mark k (markedText mark value (done ++ before) ps)) := by
  induction keys with
  | nil =>
    intro done _
    refine iff_of_true trivial fun before k after h => ?_
    exact absurd h.symm (by simp)
  | cons k keys ih =>
    intro done hnodup
    have hk : k ∉ done := fun hmem =>
      (List.nodup_append.mp hnodup).2.2 k hmem k List.mem_cons_self rfl
    rw [Clean]
    -- The first kind is `k`; for the later ones `k` is among those that are done.
    constructor
    · rintro ⟨hstray, hclean⟩ before k' after hsplit
      rw [replaceMarked_markedText hk ps htokens hstray, ih (done ++ [k]) (by simpa using hnodup)]
        at hclean
      cases before with
      | nil =>
        obtain ⟨rfl, _⟩ := List.cons.inj hsplit
        rwa [List.append_nil]
      | cons c before =>
        obtain ⟨rfl, hrest⟩ := List.cons.inj hsplit
        have hlater := hclean before k' after hrest
        rwa [List.append_assoc] at hlater
    · intro h
      have hstray : ¬ Stray mark k (markedText mark value done ps) := by
        have hfirst := h [] k keys rfl
        rwa [List.append_nil] at hfirst
      refine ⟨hstray, ?_⟩
      rw [replaceMarked_markedText hk ps htokens hstray, ih (done ++ [k]) (by simpa using hnodup)]
      rintro before k' after rfl
      rw [List.append_assoc]
      exact h (k :: before) k' after rfl

/-! ## §4. One pass. -/

variable (mark value) in

/-- The flags change nothing. -/
theorem replaceEach_map (keys : List α) :
    ∀ s : List (α × Bool), replaceEach mark value keys (s.map Prod.fst)
      = (keys.foldl (fun s k => replaceMarked mark k (value k) s) s).map Prod.fst := by
  induction keys with
  | nil => intro s; rfl
  | cons k keys ih =>
    intro s
    show replaceEach mark value keys (replacePair mark k (value k) (s.map Prod.fst)) = _
    rw [← map_replaceMarked, ih]
    rfl

/-- The text that is left when all kinds of tokens have been replaced. -/
theorem foldl_replaceMarked {ps : List (Part α)} (htokens : ∀ k, .token k ∈ ps → k ≠ mark)
    (keys : List α) : ∀ done : List α, (done ++ keys).Nodup →
      Clean mark value keys (markedText mark value done ps) →
      keys.foldl (fun s k => replaceMarked mark k (value k) s) (markedText mark value done ps)
        = markedText mark value (done ++ keys) ps := by
  induction keys with
  | nil =>
    intro done _ _
    rw [List.append_nil]
    rfl
  | cons k keys ih =>
    rintro done hnodup ⟨hstray, hclean⟩
    have hk : k ∉ done := fun hmem =>
      (List.nodup_append.mp hnodup).2.2 k hmem k List.mem_cons_self rfl
    rw [replaceMarked_markedText hk ps htokens hstray] at hclean
    rw [List.foldl_cons, replaceMarked_markedText hk ps htokens hstray,
      ih (done ++ [k]) (by simpa using hnodup) hclean, List.append_assoc]
    rfl

/-- Every part stands for itself before anything is replaced. -/
theorem map_markedText_nil (ps : List (Part α)) :
    (markedText mark value [] ps).map Prod.fst = ps.flatMap (Part.source mark) := by
  unfold markedText
  rw [List.map_flatMap]
  refine List.flatMap_congr fun p _ => ?_
  cases p <;> rfl

/-- Two marks are one letter longer than what they stand for. -/
theorem length_markedText {ps : List (Part α)} (htokens : ∀ k, .token k ∈ ps → k ∈ keys) :
    ((markedText mark value keys ps).map Prod.fst).length
      = (ps.flatMap (Part.once mark value)).length + ps.count .escape := by
  unfold markedText
  induction ps with
  | nil => rfl
  | cons p ps ih =>
    have hrest := ih fun k hk => htokens k (List.mem_cons_of_mem p hk)
    rw [List.length_map] at hrest ⊢
    rw [List.flatMap_cons, List.flatMap_cons, List.length_append, List.length_append, hrest]
    cases p with
    | letter c =>
      have hother : Part.letter c ≠ .escape := nofun
      rw [List.count_cons_of_ne hother]
      simp only [Part.marked, Part.once, List.length_singleton]
      omega
    | token k =>
      have hother : Part.token k ≠ .escape := nofun
      rw [List.count_cons_of_ne hother, marked_done (htokens k List.mem_cons_self), List.length_map]
      simp only [Part.once]
      omega
    | escape =>
      rw [List.count_cons_self]
      simp only [Part.marked, Part.once, List.length_cons]
      omega

theorem map_markedText_keys {ps : List (Part α)} (htokens : ∀ k, .token k ∈ ps → k ∈ keys)
    (hescape : .escape ∉ ps) :
    (markedText mark value keys ps).map Prod.fst = ps.flatMap (Part.once mark value) := by
  unfold markedText
  rw [List.map_flatMap]
  refine List.flatMap_congr fun p hp => ?_
  cases p with
  | letter c => rfl
  | token k =>
    rw [marked_done (htokens k hp), List.map_map]
    exact List.map_id' (value k)
  | escape => exact absurd hp hescape

/-- **When one kind after another is one pass.**  The tokens of a text, and nothing else, are
replaced, and the text is that of the one pass, exactly if no two marks are in it and no pair that
is not a token arises where the kinds before it have been replaced. -/
theorem replaceEach_iff (hmark : mark ∉ keys) (hnodup : keys.Nodup) (s : List α) :
    (replaceEach mark value keys s = onePass mark keys value s ∧
        Clean mark value keys (markedText mark value [] (parts mark keys s))) ↔
      .escape ∉ parts mark keys s ∧ ∀ before k after, keys = before ++ k :: after →
        ¬ Stray mark k (markedText mark value before (parts mark keys s)) := by
  have htokens : ∀ k, .token k ∈ parts mark keys s → k ∈ keys := fun k => token_mem_keys mark keys
  have hne : ∀ k, .token k ∈ parts mark keys s → k ≠ mark := by
    rintro k hk rfl
    exact hmark (htokens k hk)
  have hclean : Clean mark value keys (markedText mark value [] (parts mark keys s)) ↔ _ :=
    clean_iff hne keys [] hnodup
  simp only [List.nil_append] at hclean
  -- Where only tokens are replaced, the text with all of them replaced is what is left.
  have htext : Clean mark value keys (markedText mark value [] (parts mark keys s)) →
      replaceEach mark value keys s
        = (markedText mark value keys (parts mark keys s)).map Prod.fst := by
    intro h
    have hsource : (markedText mark value [] (parts mark keys s)).map Prod.fst = s :=
      (map_markedText_nil _).trans (source_parts mark keys s)
    have heach := replaceEach_map mark value keys (markedText mark value [] (parts mark keys s))
    rw [hsource, foldl_replaceMarked hne keys [] hnodup h, List.nil_append] at heach
    exact heach
  constructor
  · rintro ⟨honce, h⟩
    refine ⟨fun hescape => ?_, hclean.mp h⟩
    -- with two marks in it, the text would be longer than that of the one pass
    have hlength : ((markedText mark value keys (parts mark keys s)).map Prod.fst).length = _ :=
      length_markedText htokens
    rw [← htext h, honce] at hlength
    have hpos := List.count_pos_iff.mpr hescape
    unfold onePass at hlength
    omega
  · rintro ⟨hescape, hstray⟩
    have h := hclean.mpr hstray
    exact ⟨(htext h).trans (map_markedText_keys htokens hescape), h⟩

/-! ## §5. Values without the mark. -/

/-- A letter that is no mark stands for itself. -/
theorem parts_letter {c : α} (h : c ≠ mark) (s : List α) :
    ∃ ps, parts mark keys (c :: s) = .letter c :: ps := by
  cases s with
  | nil => exact ⟨[], rfl⟩
  | cons d s => exact ⟨parts mark keys (d :: s), if_neg h⟩

/-- Without two marks, and with values that have none, all pairs are tokens. -/
theorem not_stray_unmarked (hmark : mark ∉ keys) {done : List α} {k : α} (hk : k ∈ keys)
    (hvalue : ∀ k ∈ done, mark ∉ value k) (s : List α) (hescape : .escape ∉ parts mark keys s) :
    ¬ Stray mark k (markedText mark value done (parts mark keys s)) := by
  unfold markedText
  fun_induction parts mark keys s with
  | case1 =>
    rintro ⟨before, x, y, after, heq, _⟩
    exact absurd heq (by simp)
  | case2 c =>
    refine not_stray_cons ?_ fun d rest heq => absurd heq (by simp)
    rintro ⟨before, x, y, after, heq, _⟩
    exact absurd heq (by simp)
  | case3 d rest hkey ih =>
    rw [List.mem_cons, not_or] at hescape
    rw [List.flatMap_cons]
    by_cases hdone : d ∈ done
    · rw [marked_done hdone]
      exact not_stray_plain (hvalue d hdone) (ih hescape.2)
    · rw [marked_open hdone]
      -- its letter is no mark, and the pair of the two is flagged
      have hd : d ≠ mark := fun heq => hmark (heq ▸ hkey)
      refine not_stray_cons (not_stray_cons (ih hescape.2) fun _ _ _ hpair => hd hpair.1) ?_
      rintro e rest heq ⟨_, _, hflag⟩
      rw [← (List.cons.inj heq).1] at hflag
      cases hflag
  | case4 rest hkey ih => exact absurd List.mem_cons_self hescape
  | case5 d rest hkey hd ih =>
    rw [List.mem_cons, not_or] at hescape
    rw [List.flatMap_cons]
    refine not_stray_cons (ih hescape.2) ?_
    rintro e rest' heq ⟨_, he, _⟩
    -- what stands behind this mark is a letter, and no key
    obtain ⟨ps, hps⟩ : ∃ ps, parts mark keys (d :: rest) = .letter d :: ps := parts_letter hd rest
    rw [hps, List.flatMap_cons] at heq
    rw [← (List.cons.inj heq).1] at he
    have hdk : d = k := he
    rw [hdk] at hkey
    exact hkey hk
  | case6 c d rest hc ih =>
    rw [List.mem_cons, not_or] at hescape
    rw [List.flatMap_cons]
    exact not_stray_cons (ih hescape.2) fun _ _ _ hpair => hc hpair.1

/-- Without marks in the values both ways agree. -/
theorem replaceEach_unmarked (hmark : mark ∉ keys) (hnodup : keys.Nodup)
    (hvalue : ∀ k ∈ keys, mark ∉ value k) {s : List α} (hescape : .escape ∉ parts mark keys s) :
    replaceEach mark value keys s = onePass mark keys value s := by
  refine ((replaceEach_iff hmark hnodup s).mpr ⟨hescape, ?_⟩).1
  rintro before k after rfl
  refine not_stray_unmarked hmark ?_ (fun k' hk' => hvalue k' (List.mem_append_left _ hk')) s hescape
  exact List.mem_append_right _ List.mem_cons_self

end ResearchSSH.Library
