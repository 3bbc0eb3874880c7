/-
  ResearchSSH.App.ControlFilter — the terminal's control-sequence filter.

  `TerminalViewModel::sanitiseTerminalChunk` removes ANSI/VT control sequences from the decoded
  text, one chunk at a time.  A sequence cut by the end of a chunk is kept in `m_pendingControl`
  and put back in front of the next chunk; a pending text above `kMaxPendingControlChars` is
  dropped.

  The loop body is one scanner decision (`sanitiseTurn`): append the unit, jump over a complete
  sequence, or hold the rest of the input.  The two inner loops are `skipPast` (a sequence that
  ends with a final unit) and `skipString` (a string that ends with `ESC \`).  Both are stable:
  once they have found the end of a sequence, more input does not move it.

  Main results:
    * `controlFilter`                — the filter is a `Scanner`.
    * `sanitiseChunks_eq_single`     — filtering chunk by chunk is filtering at once.
-/
import Mathlib.Data.List.Basic
import ResearchSSH.App.QString
import ResearchSSH.Library.Scanner

namespace ResearchSSH.App

open ResearchSSH.Library

/-! ## §1. The filter as the source computes it. -/

/-- `kMaxPendingControlChars`. -/
def kMaxPendingControlChars : Nat := 4096

/-- The characters that end a control sequence. -/
def isCsiFinal (u : QChar) : Bool := decide (0x40 ≤ u) && decide (u ≤ 0x7e)

/-- The characters between the escape and its final one. -/
def isEscIntermediate (u : QChar) : Bool := decide (0x20 ≤ u) && decide (u ≤ 0x2f)

/-- The characters that end an escape sequence. -/
def isEscFinal (u : QChar) : Bool := decide (0x30 ≤ u) && decide (u ≤ 0x7e)

/-- The scan for a final unit: what follows it, or `none` where the input ends first. -/
def skipPast (isFinal : QChar → Bool) : List QChar → Option (List QChar)
  | [] => none
  | c :: cs => if isFinal c then some cs else skipPast isFinal cs

/-- The scan for the end of a string: `ESC \`, or BEL where `bel` is set.  An ESC at the very end
stops the scan, any other ESC is part of the string. -/
def skipString (bel : Bool) : List QChar → Option (List QChar)
  | [] => none
  | cur :: cs =>
    if bel && cur == 0x07 then some cs
    else if cur == 0x1b then
      match cs with
      | [] => none
      | next :: rest => if next == 0x5c then some rest else skipString bel cs
    else skipString bel cs

/-- `i = j; continue` after a complete sequence, `holdPending(input, i); break` otherwise. -/
def skipTo : Option (List QChar) → Turn QChar QChar
  | some rest => .go [] rest
  | none => .hold

/-- One turn of the loop at the unit `u`, with `rest` still unread. -/
def sanitiseTurn (u : QChar) (rest : List QChar) : Turn QChar QChar :=
  if u = 0x1b then
    match rest with
    | [] => .hold
    | n :: body =>
      if n = 0x5b then skipTo (skipPast isCsiFinal body)                                  -- [
      else if n = 0x5d then skipTo (skipString true body)                                 -- ]
      else if n = 0x50 ∨ n = 0x58 ∨ n = 0x5e ∨ n = 0x5f then skipTo (skipString false body) -- P X ^ _
      else if isEscIntermediate n then skipTo (skipPast isEscFinal body)
      else .go [] body
  else if u = 0x9b then skipTo (skipPast isCsiFinal rest)
  else .go [u] rest

/-! ## §2. The inner scans. -/

/-- What is left is shorter. -/
theorem skipPast_length {f : QChar → Bool} : ∀ {cs rest : List QChar},
    skipPast f cs = some rest → rest.length < cs.length
  | [], _, h => by simp [skipPast] at h
  | c :: cs, rest, h => by
    simp only [skipPast] at h
    split at h
    · injection h with h
      subst h
      simp
    · exact Nat.lt_succ_of_lt (skipPast_length h)

/-- An end that was found is found again with more text behind it. -/
theorem skipPast_append {f : QChar → Bool} (more : List QChar) : ∀ {cs rest : List QChar},
    skipPast f cs = some rest → skipPast f (cs ++ more) = some (rest ++ more)
  | [], _, h => by simp [skipPast] at h
  | c :: cs, rest, h => by
    simp only [skipPast] at h
    simp only [List.cons_append, skipPast]
    split at h
    next hf =>
      injection h with h
      rw [if_pos hf, h]
    next hf =>
      rw [if_neg hf]
      exact skipPast_append more h

/-- What is left is shorter. -/
theorem skipString_length {bel : Bool} : ∀ {cs rest : List QChar},
    skipString bel cs = some rest → rest.length < cs.length
  | [], _, h => by simp [skipString] at h
  | cur :: cs, rest, h => by
    simp only [skipString] at h
    split at h
    · injection h with h
      subst h
      simp
    · split at h
      · cases cs with
        | nil => simp at h
        | cons next tail =>
          simp only at h
          split at h
          · injection h with h
            subst h
            simp only [List.length_cons]
            omega
          · exact Nat.lt_succ_of_lt (skipString_length h)
      · exact Nat.lt_succ_of_lt (skipString_length h)

/-- An end that was found is found again with more text behind it. -/
theorem skipString_append {bel : Bool} (more : List QChar) : ∀ {cs rest : List QChar},
    skipString bel cs = some rest → skipString bel (cs ++ more) = some (rest ++ more)
  | [], _, h => by simp [skipString] at h
  | cur :: cs, rest, h => by
    simp only [skipString] at h
    simp only [List.cons_append, skipString]
    split at h
    next hbel =>
      injection h with h
      rw [if_pos hbel, h]
    next hbel =>
      rw [if_neg hbel]
      split at h
      next hesc =>
        rw [if_pos hesc]
        -- an ESC in the last place never completes, so a next unit is there to decide
        cases cs with
        | nil => simp at h
        | cons next tail =>
          simp only [List.cons_append] at h ⊢
          split at h
          next hst =>
            injection h with h
            rw [if_pos hst, h]
          next hst =>
            rw [if_neg hst]
            exact skipString_append more h
      next hesc =>
        rw [if_neg hesc]
        exact skipString_append more h

/-! ## §3. The loop body is a scanner decision. -/

/-- A skip writes nothing. -/
theorem skipTo_go {o : Option (List QChar)} {out rest : List QChar}
    (h : skipTo o = .go out rest) : out = [] ∧ o = some rest := by
  cases o with
  | none => cases h
  | some r =>
    injection h with hout hrest
    exact ⟨hout.symm, congrArg some hrest⟩

/-- Everything a turn that goes on can have done. -/
theorem sanitiseTurn_cases {u : QChar} {cs out rest : List QChar}
    (h : sanitiseTurn u cs = .go out rest) :
    (u = 0x1b ∧ out = [] ∧ ∃ n body, cs = n :: body ∧
      ((∃ f, skipPast f body = some rest ∧
          ∀ more, sanitiseTurn u (cs ++ more) = skipTo (skipPast f (body ++ more))) ∨
        (∃ bel, skipString bel body = some rest ∧
          ∀ more, sanitiseTurn u (cs ++ more) = skipTo (skipString bel (body ++ more))) ∨
        (body = rest ∧ ∀ more, sanitiseTurn u (cs ++ more) = .go [] (body ++ more)))) ∨
    (u = 0x9b ∧ out = [] ∧ skipPast isCsiFinal cs = some rest) ∨
    (u ≠ 0x1b ∧ u ≠ 0x9b ∧ out = [u] ∧ cs = rest) := by
  -- an ESC takes the unit after it along; the 8-bit CSI stands alone
  by_cases hesc : u = 0x1b
  · left
    subst hesc
    cases cs with
    | nil => simp [sanitiseTurn] at h
    | cons n body =>
      simp only [sanitiseTurn, if_true] at h
      split at h
      next h1 =>
        obtain ⟨hout, hrest⟩ := skipTo_go h
        exact ⟨rfl, hout, n, body, rfl, .inl ⟨_, hrest, fun more => by simp [sanitiseTurn, h1]⟩⟩
      next h1 =>
        split at h
        next h2 =>
          obtain ⟨hout, hrest⟩ := skipTo_go h
          exact ⟨rfl, hout, n, body, rfl,
            .inr (.inl ⟨_, hrest, fun more => by simp [sanitiseTurn, h2]⟩)⟩
        next h2 =>
          split at h
          next h3 =>
            obtain ⟨hout, hrest⟩ := skipTo_go h
            exact ⟨rfl, hout, n, body, rfl,
              .inr (.inl ⟨_, hrest, fun more => by simp [sanitiseTurn, h1, h2, h3]⟩)⟩
          next h3 =>
            split at h
            next h4 =>
              obtain ⟨hout, hrest⟩ := skipTo_go h
              exact ⟨rfl, hout, n, body, rfl,
                .inl ⟨_, hrest, fun more => by simp [sanitiseTurn, h1, h2, h3, h4]⟩⟩
            next h4 =>
              injection h with hout hrest
              exact ⟨rfl, hout.symm, n, body, rfl,
                .inr (.inr ⟨hrest, fun more => by simp [sanitiseTurn, h1, h2, h3, h4]⟩)⟩
  · right
    simp only [sanitiseTurn, if_neg hesc] at h
    split at h
    next hcsi =>
      obtain ⟨hout, hrest⟩ := skipTo_go h
      exact .inl ⟨hcsi, hout, hrest⟩
    next hcsi =>
      injection h with hout hrest
      exact .inr ⟨hesc, hcsi, hout.symm, hrest⟩

/-- A turn never adds to what is still to be read. -/
theorem sanitiseTurn_progress {u : QChar} {cs out rest : List QChar}
    (h : sanitiseTurn u cs = .go out rest) : rest.length ≤ cs.length := by
  rcases sanitiseTurn_cases h with
    ⟨_, _, n, body, rfl, ⟨f, hs, _⟩ | ⟨bel, hs, _⟩ | ⟨rfl, _⟩⟩ | ⟨_, _, hs⟩ | ⟨_, _, _, rfl⟩
  · have := skipPast_length hs
    simp only [List.length_cons]
    omega
  · have := skipString_length hs
    simp only [List.length_cons]
    omega
  · simp
  · exact Nat.le_of_lt (skipPast_length hs)
  · exact Nat.le_refl _

/-- **Stability.**  A complete sequence stays complete, and ends at the same place, when more
input follows. -/
theorem sanitiseTurn_append {u : QChar} {cs out rest : List QChar}
    (h : sanitiseTurn u cs = .go out rest) (more : List QChar) :
    sanitiseTurn u (cs ++ more) = .go out (rest ++ more) := by
  rcases sanitiseTurn_cases h with
    ⟨_, rfl, n, body, _, ⟨f, hs, ht⟩ | ⟨bel, hs, ht⟩ | ⟨rfl, ht⟩⟩ | ⟨rfl, rfl, hs⟩
      | ⟨hesc, hcsi, rfl, rfl⟩
  · rw [ht, skipPast_append more hs, skipTo]
  · rw [ht, skipString_append more hs, skipTo]
  · exact ht more
  · have hne : (0x9b : QChar) ≠ 0x1b := by decide
    simp only [sanitiseTurn, if_neg hne, if_true, skipPast_append more hs, skipTo]
  · simp only [sanitiseTurn, if_neg hesc, if_neg hcsi]

/-- The control-sequence filter. -/
def controlFilter : Scanner QChar QChar where
  turn := sanitiseTurn
  progress := sanitiseTurn_progress
  stable := sanitiseTurn_append

/-! ## §4. Chunks. -/

/-- `TerminalViewModel::sanitiseTerminalChunk`: the text that passes and the new
`m_pendingControl`. -/
def sanitiseTerminalChunk (pendingControl chunk : List QChar) : List QChar × List QChar :=
  controlFilter.feed kMaxPendingControlChars pendingControl chunk

/-- The text `holdPending` is given, before it is dropped for its length. -/
def withheld (pendingControl chunk : List QChar) : List QChar :=
  (controlFilter.run (pendingControl ++ chunk)).2

/-- Calls on the chunks one after another: the outputs in order, and the last
`m_pendingControl`. -/
def sanitiseChunks : List QChar → List (List QChar) → List (List QChar) × List QChar
  | pendingControl, [] => ([], pendingControl)
  | pendingControl, c :: cs =>
    let r := sanitiseTerminalChunk pendingControl c
    let r' := sanitiseChunks r.2 cs
    (r.1 :: r'.1, r'.2)

/-- The text withheld after each call is at most `kMaxPendingControlChars` long. -/
def WithheldFits : List QChar → List (List QChar) → Prop
  | _, [] => True
  | pendingControl, c :: cs =>
    (withheld pendingControl c).length ≤ kMaxPendingControlChars ∧
      WithheldFits (sanitiseTerminalChunk pendingControl c).2 cs

/-- The chunks go through the general scanner. -/
theorem sanitiseChunks_eq_feedAll (chunks : List (List QChar)) : ∀ p,
    sanitiseChunks p chunks = controlFilter.feedAll kMaxPendingControlChars p chunks := by
  induction chunks with
  | nil => intro p; rfl
  | cons c cs ih =>
    intro p
    simp only [sanitiseChunks, Scanner.feedAll, sanitiseTerminalChunk, ih]

/-- The condition is the general scanner's. -/
theorem withheldFits_iff (chunks : List (List QChar)) : ∀ p,
    WithheldFits p chunks ↔ controlFilter.Fits kMaxPendingControlChars p chunks := by
  induction chunks with
  | nil => intro p; rfl
  | cons c cs ih =>
    intro p
    simp only [WithheldFits, Scanner.Fits, withheld, sanitiseTerminalChunk, ih]

/-- Units that introduce no control sequence pass. -/
theorem run_plain : ∀ {s : List QChar}, (∀ u ∈ s, u ≠ 0x1b ∧ u ≠ 0x9b) →
    controlFilter.run s = (s, [])
  | [], _ => Scanner.run_nil _
  | u :: s, h => by
    obtain ⟨hesc, hcsi⟩ := h u List.mem_cons_self
    have hturn : controlFilter.turn u s = .go [u] s := by
      show sanitiseTurn u s = .go [u] s
      simp only [sanitiseTurn, if_neg hesc, if_neg hcsi]
    rw [Scanner.run_cons_go _ hturn, run_plain (fun v hv => h v (List.mem_cons_of_mem _ hv))]
    rfl

/-- Chunks of plain units pass as they are, and nothing is withheld. -/
theorem sanitiseChunks_plain : ∀ {chunks : List (List QChar)},
    (∀ c ∈ chunks, ∀ u ∈ c, u ≠ 0x1b ∧ u ≠ 0x9b) →
      sanitiseChunks [] chunks = (chunks, []) ∧ WithheldFits [] chunks
  | [], _ => ⟨rfl, trivial⟩
  | c :: cs, h => by
    have hrun := run_plain (h c List.mem_cons_self)
    have hchunk : sanitiseTerminalChunk [] c = (c, []) := by
      simp [sanitiseTerminalChunk, Scanner.feed, hrun]
    obtain ⟨hall, hfit⟩ := sanitiseChunks_plain (fun d hd => h d (List.mem_cons_of_mem _ hd))
    refine ⟨by simp only [sanitiseChunks, hchunk, hall], ?_, ?_⟩
    · simp [withheld, hrun]
    · rw [hchunk]
      exact hfit

/-- The held tail is no longer than what was scanned. -/
theorem withheld_length_le (p c : List QChar) : (withheld p c).length ≤ p.length + c.length := by
  rw [withheld, ← List.length_append]
  exact controlFilter.run_held_length _

/-- Short inputs cannot withhold too much. -/
theorem WithheldFits.of_length : ∀ {chunks : List (List QChar)} {p : List QChar},
    p.length + chunks.flatten.length ≤ kMaxPendingControlChars → WithheldFits p chunks
  | [], _, _ => trivial
  | c :: cs, p, h => by
    rw [List.flatten_cons, List.length_append] at h
    have hc := withheld_length_le p c
    refine ⟨by omega, WithheldFits.of_length ?_⟩
    have hpending : (sanitiseTerminalChunk p c).2.length ≤ (withheld p c).length := by
      simp only [sanitiseTerminalChunk, Scanner.feed, withheld]
      split
      · exact Nat.zero_le _
      · exact Nat.le_refl _
    omega

/-- Calls on the chunks agree with one call on their concatenation, from any pending text that
the filter itself holds. -/
theorem sanitiseChunks_eq_chunk {p : List QChar} {chunks : List (List QChar)}
    (hheld : controlFilter.run p = ([], p)) (hlen : p.length ≤ kMaxPendingControlChars)
    (hfit : WithheldFits p chunks) :
    ((sanitiseChunks p chunks).1.flatten, (sanitiseChunks p chunks).2)
      = sanitiseTerminalChunk p chunks.flatten := by
  rw [sanitiseChunks_eq_feedAll]
  exact Scanner.feedAll_eq_feed hheld hlen ((withheldFits_iff chunks p).mp hfit)

/-- **The filter is streaming-correct.**  However `s` is cut, the concatenated outputs and the
final pending text are those of one call on `s`, as long as no withheld text is dropped. -/
theorem sanitiseChunks_eq_single (s : List QChar) (chunks : List (List QChar))
    (hcut : chunks.flatten = s) (hfit : WithheldFits [] chunks) :
    (sanitiseChunks [] chunks).1.flatten = (sanitiseTerminalChunk [] s).1 ∧
      (sanitiseChunks [] chunks).2 = (sanitiseTerminalChunk [] s).2 := by
  subst hcut
  -- no pending text: the filter holds that of itself
  have h := sanitiseChunks_eq_chunk (Scanner.run_nil _) (Nat.zero_le _) hfit
  exact Prod.ext_iff.mp h

/-- `ESC [ 3 1 m A`, cut inside the sequence. -/
theorem sanitiseChunks_eq_single_sgr :
    (sanitiseChunks [] [[0x1b, 0x5b, 0x33], [0x31, 0x6d, 0x41]]).1.flatten
        = (sanitiseTerminalChunk [] [0x1b, 0x5b, 0x33, 0x31, 0x6d, 0x41]).1 ∧
      (sanitiseChunks [] [[0x1b, 0x5b, 0x33], [0x31, 0x6d, 0x41]]).2
        = (sanitiseTerminalChunk [] [0x1b, 0x5b, 0x33, 0x31, 0x6d, 0x41]).2 :=
  sanitiseChunks_eq_single _ _ rfl (.of_length (by decide))

end ResearchSSH.App
