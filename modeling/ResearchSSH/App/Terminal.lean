/-
  ResearchSSH.App.Terminal — the text behind the terminal pane.

  `TerminalViewModel::appendBytes` decodes the bytes, removes control sequences, folds CR and
  CR LF into LF, lets a backspace take back the unit before it, and appends what is left to
  `m_text`, of which only the last `kMaxChars` units are kept.

  The decoder and the control-sequence filter carry state from one chunk to the next.  The loop
  that folds line ends and backspaces does not: it starts over, with an empty `filtered`, at every
  chunk.  So a cut can be SEEN in the text in two ways: between a CR and its LF, and before a
  backspace that would have taken back a unit of an earlier chunk.  `Seamless` says that no cut
  does either.

  Main results:
    * `filterUnits_flatten`, `filterUnits_flatten_lt` — without a visible cut the loop distributes
      over the chunks; with one it yields strictly fewer units on the whole than on the parts.
    * `appendChunks_text` — the text does not depend on the cuts exactly when they are seamless.
-/
import Mathlib.Data.List.Basic
import ResearchSSH.App.ControlFilter

namespace ResearchSSH.App

open ResearchSSH.Library

/-! ## §1. The view model. -/

/-- `QStringDecoder(QStringDecoder::Utf8)`: a stateful decoder whose result does not depend on how
the bytes are cut. -/
structure Utf8Decoder where
  State : Type
  decode : State → List UInt8 → List QChar × State
  decode_nil : ∀ s, decode s [] = ([], s)
  decode_append : ∀ s a b,
    decode s (a ++ b) = ((decode s a).1 ++ (decode (decode s a).2 b).1, (decode (decode s a).2 b).2)

/-- `kMaxChars`. -/
def kMaxChars : Nat := 200000

/-- `m_text.remove(0, m_text.size() - kMaxChars)`, when the text is longer than that. -/
def capText (text : List QChar) : List QChar :=
  if text.length > kMaxChars then text.drop (text.length - kMaxChars) else text

/-- The text never grows beyond the cap. -/
theorem capText_length (text : List QChar) : (capText text).length ≤ kMaxChars := by
  unfold capText
  split
  · rw [List.length_drop]
    omega
  · omega

/-- The members of `TerminalViewModel` that `appendBytes` reads, with what every call leaves
true of them: the text is capped, and the pending text is one the filter holds. -/
structure TerminalViewModel (D : Utf8Decoder) where
  text : List QChar
  utf8 : D.State
  pendingControl : List QChar
  text_le : text.length ≤ kMaxChars
  pending_le : pendingControl.length ≤ kMaxPendingControlChars
  pending_held : controlFilter.run pendingControl = ([], pendingControl)

namespace TerminalViewModel

variable {D : Utf8Decoder}

/-- `TerminalViewModel::appendText`. -/
def appendText (vm : TerminalViewModel D) (chunk : List QChar) : TerminalViewModel D :=
  if chunk.isEmpty then vm
  else { vm with text := capText (vm.text ++ chunk), text_le := capText_length _ }

end TerminalViewModel

/-- `filtered.chop(1)`, unless `filtered` is empty or ends a line. -/
def chopUnit (filtered : List QChar) : List QChar :=
  if filtered ≠ [] ∧ filtered.getLast? ≠ some 0x0a then filtered.dropLast else filtered

/-- The loop of `appendBytes` over a filtered chunk. -/
def filterUnits (filtered : List QChar) : List QChar → List QChar
  | [] => filtered
  | u :: rest =>
    if u = 0x0d then
      match rest with
      | [] => filtered ++ [0x0a]
      | n :: rest' =>
        if n = 0x0a then filterUnits (filtered ++ [0x0a]) rest'
        else filterUnits (filtered ++ [0x0a]) (n :: rest')
    else if u = 0x08 then filterUnits (chopUnit filtered) rest
    else if u = 0x0a ∨ u = 0x09 ∨ 0x20 ≤ u then filterUnits (filtered ++ [u]) rest
    else filterUnits filtered rest

/-- A pending text the filter leaves behind is short enough and held. -/
theorem sanitiseTerminalChunk_pending (p chunk : List QChar) :
    (sanitiseTerminalChunk p chunk).2.length ≤ kMaxPendingControlChars ∧
      controlFilter.run (sanitiseTerminalChunk p chunk).2
        = ([], (sanitiseTerminalChunk p chunk).2) := by
  simp only [sanitiseTerminalChunk, Scanner.feed]
  split
  · exact ⟨Nat.zero_le _, Scanner.run_nil _⟩
  next h => exact ⟨Nat.not_lt.mp h, Scanner.run_held _ _⟩

namespace TerminalViewModel

variable {D : Utf8Decoder}

/-- `TerminalViewModel::appendBytes`. -/
def appendBytes (vm : TerminalViewModel D) (bytes : List UInt8) : TerminalViewModel D :=
  let decoded := D.decode vm.utf8 bytes
  let chunk := sanitiseTerminalChunk vm.pendingControl decoded.1
  have hp := sanitiseTerminalChunk_pending vm.pendingControl decoded.1
  { vm with
    utf8 := decoded.2
    pendingControl := chunk.2
    pending_le := hp.1
    pending_held := hp.2 : TerminalViewModel D }.appendText (filterUnits [] chunk.1)

/-- `appendBytes` on the chunks one after another. -/
def appendChunks (vm : TerminalViewModel D) (chunks : List (List UInt8)) : TerminalViewModel D :=
  chunks.foldl appendBytes vm

end TerminalViewModel

/-! ## §2. The loop, unit by unit. -/

/-- What the loop does with one unit that is not the LF of a CR LF. -/
def putUnit (filtered : List QChar) (u : QChar) : List QChar :=
  if u = 0x0d then filtered ++ [0x0a]
  else if u = 0x08 then chopUnit filtered
  else if u = 0x0a ∨ u = 0x09 ∨ 0x20 ≤ u then filtered ++ [u]
  else filtered

/-- Drop every LF that follows a CR. -/
def joinCrLf : List QChar → List QChar
  | [] => []
  | u :: rest =>
    if u = 0x0d then
      match rest with
      | [] => [u]
      | n :: rest' => if n = 0x0a then u :: joinCrLf rest' else u :: joinCrLf (n :: rest')
    else u :: joinCrLf rest

theorem joinCrLf_of_ne {u : QChar} (h : u ≠ 0x0d) (rest : List QChar) :
    joinCrLf (u :: rest) = u :: joinCrLf rest := by
  rw [joinCrLf.eq_def]
  simp only [if_neg h]

theorem joinCrLf_cr_lf (rest : List QChar) :
    joinCrLf (0x0d :: 0x0a :: rest) = 0x0d :: joinCrLf rest := by
  simp [joinCrLf]

theorem joinCrLf_cr_of_ne {n : QChar} (h : n ≠ 0x0a) (rest : List QChar) :
    joinCrLf (0x0d :: n :: rest) = 0x0d :: joinCrLf (n :: rest) := by
  rw [joinCrLf]
  simp only [if_true, if_neg h]

/-- The filter takes the units one by one, once line ends are joined. -/
theorem filterUnits_eq_foldl : ∀ (units filtered : List QChar),
    filterUnits filtered units = (joinCrLf units).foldl putUnit filtered
  | [], filtered => by simp [filterUnits, joinCrLf]
  -- a CR at the very end has no LF to look for
  | [u], filtered => by
    unfold filterUnits joinCrLf
    split_ifs <;> simp_all [filterUnits, joinCrLf, putUnit]
  | u :: n :: rest, filtered => by
    have ih1 := filterUnits_eq_foldl rest
    have ih2 := filterUnits_eq_foldl (n :: rest)
    unfold filterUnits
    by_cases hcr : u = 0x0d
    · subst hcr
      simp only [if_true]
      by_cases hlf : n = 0x0a
      · subst hlf
        rw [if_pos rfl, ih1, joinCrLf_cr_lf]
        rfl
      · rw [if_neg hlf, ih2, joinCrLf_cr_of_ne hlf]
        rfl
    · rw [joinCrLf_of_ne hcr, List.foldl_cons]
      simp only [if_neg hcr, putUnit]
      split_ifs <;> exact ih2 _

/-- What the loop makes of `c` after `pre`: a leading LF is gone when `pre` ends in its CR. -/
def afterCr (pre c : List QChar) : List QChar :=
  if pre.getLast? = some 0x0d ∧ c.head? = some 0x0a then c.tail else c

/-- Line ends are joined over a cut too, if the first part keeps its carriage return. -/
theorem joinCrLf_append : ∀ (pre c : List QChar),
    joinCrLf (pre ++ c) = joinCrLf pre ++ joinCrLf (afterCr pre c)
  | [], c => by simp [joinCrLf, afterCr]
  | [u], c => by
    cases c with
    | nil => simp [joinCrLf, afterCr]
    | cons n rest =>
      by_cases hcr : u = 0x0d
      · by_cases hlf : n = 0x0a <;> simp [joinCrLf, afterCr, hcr, hlf]
      · simp [joinCrLf, afterCr, hcr]
  | u :: n :: pre, c => by
    have ih1 := joinCrLf_append pre c
    have ih2 := joinCrLf_append (n :: pre) c
    have hafter : afterCr (u :: n :: pre) c = afterCr (n :: pre) c := by
      simp [afterCr]
    rw [hafter, List.cons_append, List.cons_append]
    by_cases hcr : u = 0x0d
    · subst hcr
      by_cases hlf : n = 0x0a
      · subst hlf
        -- the LF goes with the CR before it, so the cut is seen from behind it
        have hafter' : afterCr (0x0a :: pre) c = afterCr pre c := by
          cases pre with
          | nil => simp [afterCr]
          | cons x xs => simp [afterCr]
        rw [joinCrLf_cr_lf, joinCrLf_cr_lf, hafter', ih1, List.cons_append]
      · rw [joinCrLf_cr_of_ne hlf, joinCrLf_cr_of_ne hlf, List.cons_append, ← ih2,
          List.cons_append]
    · rw [joinCrLf_of_ne hcr, joinCrLf_of_ne hcr, List.cons_append, ← ih2, List.cons_append]

/-- The loop on `pre ++ c` is the loop on `c`, started from what it made of `pre`. -/
theorem filterUnits_append (pre c : List QChar) :
    filterUnits [] (pre ++ c) = (joinCrLf (afterCr pre c)).foldl putUnit (filterUnits [] pre) := by
  rw [filterUnits_eq_foldl, filterUnits_eq_foldl, joinCrLf_append, List.foldl_append]

/-! ## §3. Columns: how far a backspace can reach. -/

/-- The number of units a backspace can take back after `u`, given the number before it. -/
def columnStep (n : Nat) (u : QChar) : Nat :=
  if u = 0x0d ∨ u = 0x0a then 0
  else if u = 0x08 then n - 1
  else if u = 0x09 ∨ 0x20 ≤ u then n + 1
  else n

/-- The number of units that backspaces after `units` can take back. -/
def column (units : List QChar) : Nat := units.foldl columnStep 0

/-- With `n` units of its own on the line, `units` backspaces over the start of its first line. -/
def backsUp : Nat → List QChar → Bool
  | _, [] => false
  | n, u :: rest =>
    if u = 0x0d ∨ u = 0x0a then false
    else if u = 0x08 then n == 0 || backsUp (n - 1) rest
    else if u = 0x09 ∨ 0x20 ≤ u then backsUp (n + 1) rest
    else backsUp n rest

/-- The erasable units of a line buffer: those after its last LF. -/
def erasable (filtered : List QChar) : Nat :=
  (filtered.reverse.takeWhile (fun u => decide (u ≠ 0x0a))).length

/-- One unit more can be erased, unless it ends the line. -/
theorem erasable_concat (l : List QChar) (u : QChar) :
    erasable (l ++ [u]) = if u = 0x0a then 0 else erasable l + 1 := by
  by_cases h : u = 0x0a <;> simp [erasable, h]

/-- One unit less. -/
theorem erasable_chopUnit (l : List QChar) : erasable (chopUnit l) = erasable l - 1 := by
  rcases List.eq_nil_or_concat' l with rfl | ⟨init, u, rfl⟩
  · simp [chopUnit, erasable]
  · by_cases h : u = 0x0a <;> simp [chopUnit, erasable_concat, h]

/-- What can be erased is the column. -/
theorem erasable_putUnit (l : List QChar) (u : QChar) :
    erasable (putUnit l u) = columnStep (erasable l) u := by
  by_cases hcr : u = 0x0d
  · subst hcr
    simp [putUnit, columnStep, erasable_concat]
  · by_cases hlf : u = 0x0a
    · subst hlf
      simp [putUnit, columnStep, erasable_concat]
    · simp only [putUnit, columnStep, hcr, hlf, if_false, false_or]
      split_ifs
      · exact erasable_chopUnit l
      · simp [erasable_concat, hlf]
      · rfl

/-- Joining line ends leaves the column. -/
theorem foldl_columnStep_joinCrLf : ∀ (units : List QChar) (n : Nat),
    (joinCrLf units).foldl columnStep n = units.foldl columnStep n
  | [], n => by simp [joinCrLf]
  | [u], n => by simp [joinCrLf]
  | u :: m :: rest, n => by
    have ih1 := foldl_columnStep_joinCrLf rest
    have ih2 := foldl_columnStep_joinCrLf (m :: rest)
    by_cases hcr : u = 0x0d
    · subst hcr
      by_cases hlf : m = 0x0a
      · subst hlf
        rw [joinCrLf_cr_lf, List.foldl_cons, ih1]
        rfl
      · rw [joinCrLf_cr_of_ne hlf, List.foldl_cons, ih2]
        rfl
    · rw [joinCrLf_of_ne hcr, List.foldl_cons, ih2]
      rfl

/-- What can be erased behind some units. -/
theorem erasable_foldl_putUnit (units : List QChar) : ∀ l,
    erasable (units.foldl putUnit l) = units.foldl columnStep (erasable l) := by
  induction units with
  | nil => intro l; rfl
  | cons u units ih =>
    intro l
    rw [List.foldl_cons, List.foldl_cons, ih, erasable_putUnit]

/-- `column` counts the erasable units of what the loop makes of the input. -/
theorem erasable_filterUnits (units : List QChar) :
    erasable (filterUnits [] units) = column units := by
  rw [filterUnits_eq_foldl, erasable_foldl_putUnit, foldl_columnStep_joinCrLf]
  rfl

/-- Behind a line end nothing backs up. -/
theorem backsUp_lineEnd (n : Nat) {u : QChar} (h : u = 0x0d ∨ u = 0x0a) (rest : List QChar) :
    backsUp n (u :: rest) = false := by
  rw [backsUp, if_pos h]

/-- Joining line ends backs up nothing. -/
theorem backsUp_joinCrLf : ∀ (units : List QChar) (n : Nat),
    backsUp n (joinCrLf units) = backsUp n units
  | [], n => by simp [joinCrLf]
  | [u], n => by simp [joinCrLf]
  | u :: m :: rest, n => by
    have ih := backsUp_joinCrLf (m :: rest)
    by_cases hcr : u = 0x0d
    · -- both sides stop at the line end
      subst hcr
      rw [backsUp_lineEnd n (.inl rfl)]
      by_cases hlf : m = 0x0a
      · subst hlf
        rw [joinCrLf_cr_lf, backsUp_lineEnd n (.inl rfl)]
      · rw [joinCrLf_cr_of_ne hlf, backsUp_lineEnd n (.inl rfl)]
    · rw [joinCrLf_of_ne hcr, backsUp, backsUp, ih, ih, ih]

/-! ## §4. One cut. -/

/-- What backspaces among `c` cannot reach: `own` is what the chunk has put so far, `acc` what was
there before. -/
def Covered (acc own c : List QChar) : Prop :=
  erasable acc = 0 ∨ (0x0a : QChar) ∈ own ∨ backsUp own.length c = false

/-- Nothing is erased beyond the line. -/
theorem chopUnit_of_erasable {acc : List QChar} (h : erasable acc = 0) : chopUnit acc = acc := by
  rcases List.eq_nil_or_concat' acc with rfl | ⟨init, v, rfl⟩
  · rfl
  -- with nothing erasable the last unit ends a line
  · have hv : v = 0x0a := by
      by_contra hne
      simp [erasable_concat, hne] at h
    simp [chopUnit, hv]

/-- The last unit is erased, unless it ends the line. -/
theorem chopUnit_concat (l : List QChar) (v : QChar) :
    chopUnit (l ++ [v]) = if v = 0x0a then l ++ [v] else l := by
  by_cases hv : v = 0x0a <;> simp [chopUnit, hv]

/-- A backspace among `c` takes back only what the chunk has put itself. -/
theorem Covered.chop {acc own c : List QChar} (h : Covered acc own (0x08 :: c)) :
    chopUnit (acc ++ own) = acc ++ chopUnit own ∧ Covered acc (chopUnit own) c := by
  rcases List.eq_nil_or_concat' own with rfl | ⟨init, v, rfl⟩
  · -- the chunk has nothing of its own to take back, so `acc` must not have either
    have hacc : erasable acc = 0 := by
      rcases h with h | h | h
      · exact h
      · simp at h
      · simp [backsUp] at h
    constructor
    · rw [List.append_nil, chopUnit_of_erasable hacc]
      simp [chopUnit]
    · exact .inl hacc
  · rw [← List.append_assoc, chopUnit_concat, chopUnit_concat]
    by_cases hv : v = 0x0a
    · rw [if_pos hv, if_pos hv, List.append_assoc]
      exact ⟨rfl, .inr (.inl (by simp [hv]))⟩
    · rw [if_neg hv, if_neg hv]
      refine ⟨rfl, ?_⟩
      rcases h with h | h | h
      · exact .inl h
      · exact .inr (.inl (by simpa [Ne.symm hv] using h))
      · exact .inr (.inr (by simpa [backsUp] using h))

/-- One unit of a covered chunk is put as if the chunk were alone. -/
theorem Covered.put {acc own c : List QChar} {u : QChar} (h : Covered acc own (u :: c)) :
    putUnit (acc ++ own) u = acc ++ putUnit own u ∧ Covered acc (putUnit own u) c := by
  by_cases hcr : u = 0x0d
  · simp only [putUnit, if_pos hcr, List.append_assoc]
    exact ⟨trivial, .inr (.inl (by simp))⟩
  · by_cases hbs : u = 0x08
    · subst hbs
      simpa only [putUnit, if_neg hcr, if_true] using h.chop
    · by_cases hlf : u = 0x0a
      · subst hlf
        simp only [putUnit, if_neg hcr, if_neg hbs, true_or, if_true, List.append_assoc]
        exact ⟨trivial, .inr (.inl (by simp))⟩
      · have hend : ¬ (u = 0x0d ∨ u = 0x0a) := by simp [hcr, hlf]
        simp only [Covered, backsUp, if_neg hend, if_neg hbs] at h
        by_cases hkeep : u = 0x09 ∨ 0x20 ≤ u
        · rw [if_pos hkeep] at h
          simp only [putUnit, if_neg hcr, if_neg hbs, hkeep, or_true, if_true, List.append_assoc]
          refine ⟨trivial, ?_⟩
          rcases h with h | h | h
          · exact .inl h
          · exact .inr (.inl (by simp [h]))
          · exact .inr (.inr (by simpa using h))
        · rw [if_neg hkeep] at h
          simp only [putUnit, if_neg hcr, if_neg hbs, hlf, hkeep, or_self, if_false]
          exact ⟨trivial, h⟩

/-- A covered chunk is processed as if it were alone. -/
theorem foldl_putUnit_append (c : List QChar) : ∀ (acc own : List QChar),
    Covered acc own c → c.foldl putUnit (acc ++ own) = acc ++ c.foldl putUnit own := by
  induction c with
  | nil => intro acc own _; rfl
  | cons u c ih =>
    intro acc own h
    rw [List.foldl_cons, List.foldl_cons, h.put.1]
    exact ih acc _ h.put.2

/-- Erasing never adds. -/
theorem chopUnit_length_le (l : List QChar) : (chopUnit l).length ≤ l.length := by
  unfold chopUnit
  split
  · rw [List.length_dropLast]
    omega
  · exact Nat.le_refl _

/-- Erasing takes a unit away if there is one. -/
theorem chopUnit_length_lt {l : List QChar} (h : 0 < erasable l) :
    (chopUnit l).length < l.length := by
  rcases List.eq_nil_or_concat' l with rfl | ⟨init, v, rfl⟩
  · simp [erasable] at h
  · have hv : v ≠ 0x0a := by
      intro hv
      simp [erasable_concat, hv] at h
    rw [chopUnit_concat, if_neg hv]
    simp

/-- One unit, whether covered or not: the buffer splits again into what was there before, possibly
one unit shorter, and what the chunk has put itself. -/
theorem putUnit_split (acc own : List QChar) (u : QChar) :
    putUnit (acc ++ own) u = acc ++ putUnit own u ∨
      (own = [] ∧ u = 0x08 ∧ putUnit (acc ++ own) u = chopUnit acc ++ putUnit own u) := by
  by_cases hbs : u = 0x08
  · have hput : ∀ l, putUnit l u = chopUnit l := fun l => by simp [putUnit, hbs]
    rw [hput, hput]
    rcases List.eq_nil_or_concat' own with rfl | ⟨init, v, rfl⟩
    · exact .inr ⟨rfl, hbs, by simp [chopUnit]⟩
    · rw [← List.append_assoc, chopUnit_concat, chopUnit_concat]
      split <;> simp
  · left
    simp only [putUnit, if_neg hbs]
    split_ifs <;> simp

/-- Processing a chunk after `acc` never yields more than processing it alone. -/
theorem foldl_putUnit_length_le (c : List QChar) : ∀ (acc own : List QChar),
    (c.foldl putUnit (acc ++ own)).length ≤ acc.length + (c.foldl putUnit own).length := by
  induction c with
  | nil => intro acc own; simp
  | cons u c ih =>
    intro acc own
    rw [List.foldl_cons, List.foldl_cons]
    rcases putUnit_split acc own u with h | ⟨_, _, h⟩
    · rw [h]
      exact ih acc _
    · have hacc := chopUnit_length_le acc
      have := ih (chopUnit acc) (putUnit own u)
      rw [h]
      omega

/-- It yields strictly less when the chunk backs up into `acc`. -/
theorem foldl_putUnit_length_lt (c : List QChar) : ∀ (acc own : List QChar),
    0 < erasable acc → (0x0a : QChar) ∉ own → backsUp own.length c = true →
      (c.foldl putUnit (acc ++ own)).length < acc.length + (c.foldl putUnit own).length := by
  induction c with
  | nil => intro acc own _ _ h; simp [backsUp] at h
  | cons u c ih =>
    intro acc own hacc hown hback
    have hend : ¬ (u = 0x0d ∨ u = 0x0a) := by
      intro hend
      simp [backsUp, hend] at hback
    have hcr : u ≠ 0x0d := fun h => hend (.inl h)
    have hlf : u ≠ 0x0a := fun h => hend (.inr h)
    rw [backsUp, if_neg hend] at hback
    rw [List.foldl_cons, List.foldl_cons]
    rcases putUnit_split acc own u with h | ⟨_, _, h⟩
    · rw [h]
      by_cases hbs : u = 0x08
      · rw [if_pos hbs] at hback
        have hput : ∀ l, putUnit l u = chopUnit l := fun l => by simp [putUnit, hbs]
        rcases List.eq_nil_or_concat' own with rfl | ⟨init, v, rfl⟩
        · -- a first backspace into `acc` does not leave `acc` as it was
          exfalso
          have hlt := chopUnit_length_lt hacc
          rw [List.append_nil, hput, hput] at h
          rw [h] at hlt
          simp [chopUnit] at hlt
        · have hv : v ≠ 0x0a := by
            intro hv
            simp [hv] at hown
          have hinit : putUnit (init ++ [v]) u = init := by rw [hput, chopUnit_concat, if_neg hv]
          rw [hinit]
          refine ih acc init hacc (fun hmem => hown (by simp [hmem])) ?_
          simpa using hback
      · rw [if_neg hbs] at hback
        by_cases hkeep : u = 0x09 ∨ 0x20 ≤ u
        · have hput : putUnit own u = own ++ [u] := by simp [putUnit, hcr, hbs, hkeep]
          rw [if_pos hkeep] at hback
          rw [hput]
          refine ih acc _ hacc ?_ (by simpa using hback)
          simp [hown, Ne.symm hlf]
        · have hput : putUnit own u = own := by simp [putUnit, hcr, hbs, hlf, hkeep]
          rw [if_neg hkeep] at hback
          rw [hput]
          exact ih acc own hacc hown hback
    · have hlt := chopUnit_length_lt hacc
      have := foldl_putUnit_length_le c (chopUnit acc) (putUnit own u)
      rw [h]
      omega

/-! ## §5. All cuts. -/

/-- The cut between `pre` and the chunk `c` cannot be seen: it does not part a CR from its LF, and
`c` does not back up into the line that `pre` leaves open. -/
def Seam (pre c : List QChar) : Prop :=
  ¬ (pre.getLast? = some 0x0d ∧ c.head? = some 0x0a) ∧ ¬ (0 < column pre ∧ backsUp 0 c = true)

instance (pre c : List QChar) : Decidable (Seam pre c) := inferInstanceAs (Decidable (_ ∧ _))

/-- None of the cuts between the chunks that follow `pre` can be seen. -/
def Seamless : List QChar → List (List QChar) → Prop
  | _, [] => True
  | pre, c :: cs => Seam pre c ∧ Seamless (pre ++ c) cs

instance Seamless.decidable : (pre : List QChar) → (cs : List (List QChar)) →
    Decidable (Seamless pre cs)
  | _, [] => isTrue trivial
  | pre, c :: cs =>
    have := Seamless.decidable (pre ++ c) cs
    inferInstanceAs (Decidable (_ ∧ _))

/-- At a seam the parts are filtered by themselves. -/
theorem filterUnits_seam {pre c : List QChar} (h : Seam pre c) :
    filterUnits [] (pre ++ c) = filterUnits [] pre ++ filterUnits [] c := by
  obtain ⟨hcrlf, hback⟩ := h
  have hafter : afterCr pre c = c := by rw [afterCr, if_neg hcrlf]
  -- either there is nothing to take back before the cut, or the chunk does not reach that far
  have hcov : Covered (filterUnits [] pre) [] (joinCrLf c) := by
    rw [not_and_or, Nat.not_lt, Nat.le_zero, Bool.not_eq_true] at hback
    rcases hback with hcol | hback
    · exact .inl ((erasable_filterUnits pre).trans hcol)
    · exact .inr (.inr ((backsUp_joinCrLf c 0).trans hback))
  have h := foldl_putUnit_append _ _ _ hcov
  rw [List.append_nil] at h
  rw [filterUnits_append, hafter, h, filterUnits_eq_foldl c]

/-- A cut may leave more, never less. -/
theorem filterUnits_append_length_le (pre c : List QChar) :
    (filterUnits [] (pre ++ c)).length
      ≤ (filterUnits [] pre).length + (filterUnits [] c).length := by
  by_cases h : Seam pre c
  · have hlen := congrArg List.length (filterUnits_seam h)
    rw [List.length_append] at hlen
    omega
  · have hle := foldl_putUnit_length_le (joinCrLf (afterCr pre c)) (filterUnits [] pre) []
    rw [List.append_nil, ← filterUnits_append] at hle
    -- it is enough to compare what the loop makes of `c` with and without its leading LF
    suffices hpart : ((joinCrLf (afterCr pre c)).foldl putUnit []).length
        ≤ (filterUnits [] c).length by omega
    rw [filterUnits_eq_foldl c, afterCr]
    split
    next hcut =>
      cases c with
      | nil => simp at hcut
      | cons u c =>
        have hu : u = 0x0a := by simpa using hcut.2
        subst hu
        have hcov : Covered [0x0a] [] (joinCrLf c) := .inl (by decide)
        have h := foldl_putUnit_append _ _ _ hcov
        have hput : putUnit [] 0x0a = [0x0a] := by decide
        rw [List.append_nil] at h
        rw [joinCrLf_of_ne (by decide), List.foldl_cons, hput, h]
        simp
    next => exact Nat.le_refl _

/-- A cut that can be seen leaves more units in the parts than in the whole. -/
theorem filterUnits_not_seam {pre c : List QChar} (h : ¬ Seam pre c) :
    (filterUnits [] (pre ++ c)).length
      < (filterUnits [] pre).length + (filterUnits [] c).length := by
  by_cases hcrlf : pre.getLast? = some 0x0d ∧ c.head? = some 0x0a
  · -- alone, `c` turns the LF of the parted CR LF into a second line end
    have hle := foldl_putUnit_length_le (joinCrLf (afterCr pre c)) (filterUnits [] pre) []
    rw [List.append_nil, ← filterUnits_append, afterCr, if_pos hcrlf] at hle
    cases c with
    | nil => simp at hcrlf
    | cons u c =>
      have hu : u = 0x0a := by simpa using hcrlf.2
      subst hu
      have hcov : Covered [0x0a] [] (joinCrLf c) := .inl (by decide)
      have hone := foldl_putUnit_append _ _ _ hcov
      have hput : putUnit [] 0x0a = [0x0a] := by decide
      rw [List.append_nil] at hone
      rw [filterUnits_eq_foldl (0x0a :: c), joinCrLf_of_ne (by decide), List.foldl_cons, hput, hone]
      simp only [List.tail_cons, List.length_append, List.length_singleton] at hle ⊢
      omega
  · -- the backspace finds a unit to take back only when it sees what `pre` has left
    have hback : 0 < column pre ∧ backsUp 0 c = true := by
      by_contra hback
      exact h ⟨hcrlf, hback⟩
    have hafter : afterCr pre c = c := by rw [afterCr, if_neg hcrlf]
    have hlt := foldl_putUnit_length_lt (joinCrLf c) (filterUnits [] pre) []
      (by rw [erasable_filterUnits]; exact hback.1) (by simp)
      (by rw [List.length_nil, backsUp_joinCrLf]; exact hback.2)
    rw [List.append_nil] at hlt
    rw [filterUnits_append, hafter, filterUnits_eq_foldl c]
    exact hlt

/-- Over seamless cuts the loop distributes over the chunks. -/
theorem filterUnits_flatten : ∀ {chunks : List (List QChar)} {pre : List QChar},
    Seamless pre chunks →
      filterUnits [] (pre ++ chunks.flatten)
        = filterUnits [] pre ++ (chunks.map (filterUnits [])).flatten
  | [], pre, _ => by simp
  | c :: cs, pre, h => by
    have ih := filterUnits_flatten h.2
    rw [List.flatten_cons, ← List.append_assoc, ih, filterUnits_seam h.1]
    simp

/-- Cuts may leave more, never less. -/
theorem filterUnits_flatten_le : ∀ (chunks : List (List QChar)) (pre : List QChar),
    (filterUnits [] (pre ++ chunks.flatten)).length
      ≤ (filterUnits [] pre).length + (chunks.map (filterUnits [])).flatten.length
  | [], pre => by simp
  | c :: cs, pre => by
    have ih := filterUnits_flatten_le cs (pre ++ c)
    have hc := filterUnits_append_length_le pre c
    rw [List.flatten_cons, ← List.append_assoc]
    simp only [List.map_cons, List.flatten_cons, List.length_append]
    omega

/-- A single visible cut leaves more units in the parts than in the whole. -/
theorem filterUnits_flatten_lt : ∀ {chunks : List (List QChar)} {pre : List QChar},
    ¬ Seamless pre chunks →
      (filterUnits [] (pre ++ chunks.flatten)).length
        < (filterUnits [] pre).length + (chunks.map (filterUnits [])).flatten.length
  | [], _, h => absurd trivial h
  | c :: cs, pre, h => by
    rw [List.flatten_cons, ← List.append_assoc]
    simp only [List.map_cons, List.flatten_cons, List.length_append]
    -- the visible cut is a later one, or this one; the cuts behind it can only widen the gap
    by_cases hc : Seam pre c
    · have ih := filterUnits_flatten_lt (fun hcs => h ⟨hc, hcs⟩)
      rw [filterUnits_seam hc, List.length_append] at ih
      omega
    · have ih := filterUnits_flatten_le cs (pre ++ c)
      have := filterUnits_not_seam hc
      omega

/-! ## §6. The text. -/

/-- The oldest units go. -/
theorem capText_eq_drop (text : List QChar) : capText text = text.drop (text.length - kMaxChars) := by
  unfold capText
  split
  · rfl
  next h => rw [Nat.sub_eq_zero_of_le (Nat.not_lt.mp h), List.drop_zero]

/-- Below the cap nothing goes. -/
theorem capText_of_le {text : List QChar} (h : text.length ≤ kMaxChars) : capText text = text := by
  rw [capText, if_neg (Nat.not_lt.mpr h)]

/-- Capping early is no different from capping late. -/
theorem capText_append (text more : List QChar) :
    capText (capText text ++ more) = capText (text ++ more) := by
  simp only [capText_eq_drop, List.length_append, List.length_drop]
  have hdrop : text.drop (text.length - kMaxChars) ++ more
      = (text ++ more).drop (text.length - kMaxChars) := by
    rw [List.drop_append_of_le_length (Nat.sub_le _ _)]
  -- what is dropped early and late adds up to what is dropped at once
  have hsum : (text.length - kMaxChars)
      + (text.length - (text.length - kMaxChars) + more.length - kMaxChars)
      = text.length + more.length - kMaxChars := by omega
  rw [hdrop, List.drop_drop, hsum]

namespace TerminalViewModel

variable {D : Utf8Decoder}

/-- The text afterwards. -/
theorem appendText_text (vm : TerminalViewModel D) (chunk : List QChar) :
    (vm.appendText chunk).text = capText (vm.text ++ chunk) := by
  unfold appendText
  split
  next h =>
    rw [List.isEmpty_iff.mp h, List.append_nil, capText_of_le vm.text_le]
  next => rfl

@[simp] theorem appendText_utf8 (vm : TerminalViewModel D) (chunk : List QChar) :
    (vm.appendText chunk).utf8 = vm.utf8 := by
  unfold appendText
  split <;> rfl

@[simp] theorem appendText_pendingControl (vm : TerminalViewModel D) (chunk : List QChar) :
    (vm.appendText chunk).pendingControl = vm.pendingControl := by
  unfold appendText
  split <;> rfl

end TerminalViewModel

/-- The decoded text of each chunk, and the decoder after the last. -/
def Utf8Decoder.decodeChunks (D : Utf8Decoder) : D.State → List (List UInt8) →
    List (List QChar) × D.State
  | s, [] => ([], s)
  | s, c :: cs =>
    let r := D.decode s c
    let r' := D.decodeChunks r.2 cs
    (r.1 :: r'.1, r'.2)

/-- A decoder with a state does not see the cuts. -/
theorem Utf8Decoder.decodeChunks_flatten (D : Utf8Decoder) (chunks : List (List UInt8)) : ∀ s,
    D.decode s chunks.flatten
      = ((D.decodeChunks s chunks).1.flatten, (D.decodeChunks s chunks).2) := by
  induction chunks with
  | nil => intro s; exact D.decode_nil s
  | cons c cs ih =>
    intro s
    rw [List.flatten_cons, D.decode_append, ih]
    rfl

namespace TerminalViewModel

variable {D : Utf8Decoder}

/-- What the control-sequence filter lets through of each chunk. -/
def passed (vm : TerminalViewModel D) (chunks : List (List UInt8)) : List (List QChar) :=
  (sanitiseChunks vm.pendingControl (D.decodeChunks vm.utf8 chunks).1).1

/-- No incomplete control sequence withheld along the way is dropped for its length. -/
def Withholds (vm : TerminalViewModel D) (chunks : List (List UInt8)) : Prop :=
  WithheldFits vm.pendingControl (D.decodeChunks vm.utf8 chunks).1

/-- The text afterwards. -/
theorem appendBytes_text (vm : TerminalViewModel D) (bytes : List UInt8) :
    (vm.appendBytes bytes).text
      = capText (vm.text ++ filterUnits []
          (sanitiseTerminalChunk vm.pendingControl (D.decode vm.utf8 bytes).1).1) := by
  rw [appendBytes, appendText_text]

/-- The decoder's state afterwards. -/
@[simp] theorem appendBytes_utf8 (vm : TerminalViewModel D) (bytes : List UInt8) :
    (vm.appendBytes bytes).utf8 = (D.decode vm.utf8 bytes).2 := by
  rw [appendBytes, appendText_utf8]

/-- The withheld sequence afterwards. -/
@[simp] theorem appendBytes_pendingControl (vm : TerminalViewModel D) (bytes : List UInt8) :
    (vm.appendBytes bytes).pendingControl
      = (sanitiseTerminalChunk vm.pendingControl (D.decode vm.utf8 bytes).1).2 := by
  rw [appendBytes, appendText_pendingControl]

/-- Chunk by chunk, the text gets what the loop makes of each passed chunk alone. -/
theorem appendChunks_text_eq (chunks : List (List UInt8)) : ∀ (vm : TerminalViewModel D),
    (vm.appendChunks chunks).text
      = capText (vm.text ++ ((vm.passed chunks).map (filterUnits [])).flatten) := by
  induction chunks with
  | nil =>
    intro vm
    show vm.text = capText (vm.text ++ [])
    rw [List.append_nil, capText_of_le vm.text_le]
  | cons c cs ih =>
    intro vm
    have hpassed : vm.passed (c :: cs)
        = (sanitiseTerminalChunk vm.pendingControl (D.decode vm.utf8 c).1).1
          :: (vm.appendBytes c).passed cs := by
      simp only [passed, Utf8Decoder.decodeChunks, sanitiseChunks, appendBytes_utf8,
        appendBytes_pendingControl]
    show ((vm.appendBytes c).appendChunks cs).text = _
    rw [ih, appendBytes_text, capText_append, hpassed, List.append_assoc]
    rfl

/-- At once, the text gets what the loop makes of all passed chunks together. -/
theorem appendBytes_flatten_text (vm : TerminalViewModel D) (chunks : List (List UInt8))
    (hfit : vm.Withholds chunks) :
    (vm.appendBytes chunks.flatten).text
      = capText (vm.text ++ filterUnits [] (vm.passed chunks).flatten) := by
  have h := sanitiseChunks_eq_chunk vm.pending_held vm.pending_le hfit
  rw [appendBytes_text, D.decodeChunks_flatten, ← h]
  rfl

/-- **The text depends on the cuts exactly where they can be seen.**  Seamless cuts never show in
the text.  Cuts that are not seamless always do, as long as the text stays below the size cap (at
the cap the unit that is too many may be the very one that is removed). -/
theorem appendChunks_text (vm : TerminalViewModel D) (chunks : List (List UInt8))
    (hfit : vm.Withholds chunks) :
    (Seamless [] (vm.passed chunks) →
      (vm.appendChunks chunks).text = (vm.appendBytes chunks.flatten).text) ∧
    (vm.text.length + (filterUnits [] (vm.passed chunks).flatten).length < kMaxChars →
      (vm.appendChunks chunks).text = (vm.appendBytes chunks.flatten).text →
        Seamless [] (vm.passed chunks)) := by
  rw [appendChunks_text_eq, appendBytes_flatten_text vm chunks hfit]
  constructor
  · intro hseam
    have h := filterUnits_flatten hseam
    rw [List.nil_append] at h
    rw [h]
    rfl
  · intro hroom heq
    by_contra hseam
    have hlt := filterUnits_flatten_lt hseam
    rw [List.nil_append] at hlt
    -- below the cap the capped texts still differ in length
    have hlen := congrArg List.length heq
    simp only [capText_eq_drop, List.length_drop, List.length_append] at hlen
    simp only [filterUnits, List.length_nil, Nat.zero_add] at hlt
    omega

end TerminalViewModel

/-- The decoder on ASCII input: one unit for each byte, and nothing to hold over. -/
def asciiDecoder : Utf8Decoder where
  State := Unit
  decode s bytes := (bytes.map UInt8.toUInt16, s)
  decode_nil _ := rfl
  decode_append _ _ _ := by simp

namespace TerminalViewModel

/-- The view model of a new terminal. -/
def fresh : TerminalViewModel asciiDecoder where
  text := []
  utf8 := ()
  pendingControl := []
  text_le := by simp
  pending_le := by simp
  pending_held := Scanner.run_nil _

/-- Chunks of a new terminal that hold no control sequence are passed as they are. -/
theorem fresh_passed (chunks : List (List UInt8)) (units : List (List QChar))
    (hdec : (asciiDecoder.decodeChunks () chunks).1 = units)
    (hplain : ∀ c ∈ units, ∀ u ∈ c, u ≠ 0x1b ∧ u ≠ 0x9b) :
    fresh.passed chunks = units ∧ fresh.Withholds chunks := by
  obtain ⟨hall, hfit⟩ := sanitiseChunks_plain hplain
  unfold passed Withholds
  rw [show fresh.utf8 = () from rfl, show fresh.pendingControl = [] from rfl, hdec, hall]
  exact ⟨rfl, hfit⟩

/-- `a` CR and LF `b`, cut between the CR and the LF: two line ends instead of one. -/
theorem appendChunks_text_crlf :
    fresh.Withholds [[0x61, 0x0d], [0x0a, 0x62]] ∧
      (fresh.appendChunks [[0x61, 0x0d], [0x0a, 0x62]]).text = [0x61, 0x0a, 0x0a, 0x62] ∧
      (fresh.appendBytes [0x61, 0x0d, 0x0a, 0x62]).text = [0x61, 0x0a, 0x62] := by
  obtain ⟨hpassed, hfit⟩ := fresh_passed [[0x61, 0x0d], [0x0a, 0x62]]
    [[0x61, 0x0d], [0x0a, 0x62]] (by decide) (by simp)
  refine ⟨hfit, ?_, ?_⟩
  · rw [appendChunks_text_eq, hpassed]
    decide
  · have h := appendBytes_flatten_text fresh _ hfit
    rw [hpassed] at h
    exact h.trans (by decide)

/-- `a` and `b` CR LF, cut after the `a`. -/
theorem appendChunks_text_plain :
    (fresh.appendChunks [[0x61], [0x62, 0x0d, 0x0a]]).text
      = (fresh.appendBytes [[0x61], [0x62, 0x0d, 0x0a]].flatten).text := by
  obtain ⟨hpassed, hfit⟩ := fresh_passed [[0x61], [0x62, 0x0d, 0x0a]]
    [[0x61], [0x62, 0x0d, 0x0a]] (by decide) (by simp)
  refine (appendChunks_text fresh _ hfit).1 ?_
  rw [hpassed]
  decide

end TerminalViewModel

end ResearchSSH.App
