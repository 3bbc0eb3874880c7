/-
  ResearchSSH.Library.Scanner — incremental scanning with a held-back tail.

  A scanner reads a list from the left.  At every position it either emits some output and moves
  on, or HOLDS: what it sees is the beginning of something longer, and it keeps the rest of the
  input until more of it has arrived.  The held tail is put back in front of the next chunk and
  scanned again.

  The one law such a scanner needs is stability: a decision taken on some input is taken again,
  with the same output, when more input follows.  The structure `Scanner` carries that law, so
  every instance gets the streaming theorem for free.

  Main results:
    * `Scanner.run_append`     — scanning `s ++ t` is scanning `s`, then the held tail and `t`.
    * `Scanner.feedAll_eq_feed` — feeding a list chunk by chunk is feeding it whole, as long as
      no held tail exceeds the limit above which it is dropped.
    * `Scanner.run_flatMap`    — a scanner that consumes each token of a grammar in one turn
      cuts every sequence of tokens where its tokens end.
-/
import Mathlib.Data.List.Basic

namespace ResearchSSH.Library

variable {α β : Type*}

/-! ## §1. Scanners. -/

/-- One decision of a scanner. -/
inductive Turn (α β : Type*) where
  /-- Emit `out` and go on reading at `rest`. -/
  | go (out : List β) (rest : List α)
  /-- Hold back the input from here on. -/
  | hold

/-- A scanner, by its decision at the nonempty input `c :: cs`. -/
structure Scanner (α β : Type*) where
  turn : α → List α → Turn α β
  /-- A decision that goes on consumes the head. -/
  progress : ∀ {c cs out rest}, turn c cs = .go out rest → rest.length ≤ cs.length
  /-- A decision that goes on does not depend on what follows. -/
  stable : ∀ {c cs out rest}, turn c cs = .go out rest →
    ∀ more, turn c (cs ++ more) = .go out (rest ++ more)

namespace Scanner

variable (S : Scanner α β)

/-- Scan to the end of the input or to the first position that holds: the output and the held
tail. -/
def run : List α → List β × List α
  | [] => ([], [])
  | c :: cs =>
    match _h : S.turn c cs with
    | .go out rest => (out ++ (run rest).1, (run rest).2)
    | .hold => ([], c :: cs)
termination_by input => input.length
decreasing_by all_goals exact Nat.lt_succ_of_le (S.progress _h)

@[simp] theorem run_nil : S.run [] = ([], []) := by rw [run]

/-- A turn writes and goes on. -/
theorem run_cons_go {c : α} {cs : List α} {out : List β} {rest : List α}
    (h : S.turn c cs = .go out rest) :
    S.run (c :: cs) = (out ++ (S.run rest).1, (S.run rest).2) := by
  rw [run]
  split
  next out' rest' h' =>
    rw [h] at h'
    injection h' with hout hrest
    subst hout hrest
    rfl
  next h' => rw [h] at h'; cases h'

/-- A turn may withhold what is left. -/
theorem run_cons_hold {c : α} {cs : List α} (h : S.turn c cs = .hold) :
    S.run (c :: cs) = ([], c :: cs) := by
  rw [run]
  split
  next h' => rw [h] at h'; cases h'
  next => rfl

/-- **Rescanning.**  Scanning `s ++ t` gives the output of `s`, then what scanning the held tail
of `s` followed by `t` gives. -/
theorem run_append (s t : List α) :
    S.run (s ++ t)
      = ((S.run s).1 ++ (S.run ((S.run s).2 ++ t)).1, (S.run ((S.run s).2 ++ t)).2) := by
  induction s using run.induct (S := S) with
  | case1 => simp
  | case2 c cs out rest h ih =>
    rw [List.cons_append, S.run_cons_go (S.stable h t), S.run_cons_go h, ih]
    simp only [List.append_assoc]
  | case3 c cs h => simp [S.run_cons_hold h]

/-- The held tail is the fixed point of rescanning. -/
theorem run_held (s : List α) : S.run (S.run s).2 = ([], (S.run s).2) := by
  have h := S.run_append s []
  simp only [List.append_nil] at h
  obtain ⟨hout, htail⟩ := Prod.ext_iff.mp h
  exact Prod.ext (List.append_right_eq_self.mp hout.symm) htail.symm

theorem run_held_length (s : List α) : (S.run s).2.length ≤ s.length := by
  induction s using run.induct (S := S) with
  | case1 => simp
  | case2 c cs out rest h ih =>
    have := S.progress h
    rw [S.run_cons_go h, List.length_cons]
    exact Nat.le_trans ih (Nat.le_succ_of_le this)
  | case3 c cs h => simp [S.run_cons_hold h]

/-! ## §2. Feeding chunks. -/

/-- Feed one chunk after the pending tail `p`.  A tail longer than `limit` is dropped. -/
def feed (limit : Nat) (p chunk : List α) : List β × List α :=
  let r := S.run (p ++ chunk)
  (r.1, if r.2.length > limit then [] else r.2)

/-- Feed the chunks one after another: one output for each chunk, and the last pending tail. -/
def feedAll (limit : Nat) : List α → List (List α) → List (List β) × List α
  | p, [] => ([], p)
  | p, c :: cs =>
    let r := S.feed limit p c
    let r' := feedAll limit r.2 cs
    (r.1 :: r'.1, r'.2)

/-- No tail withheld along the way is longer than `limit`. -/
def Fits (limit : Nat) : List α → List (List α) → Prop
  | _, [] => True
  | p, c :: cs =>
    (S.run (p ++ c)).2.length ≤ limit ∧ Fits limit (S.feed limit p c).2 cs

variable {S} {limit : Nat}

/-- Below the limit a chunk is read behind what is withheld. -/
theorem feed_of_le {p chunk : List α} (h : (S.run (p ++ chunk)).2.length ≤ limit) :
    S.feed limit p chunk = S.run (p ++ chunk) := by
  have hn : ¬ (S.run (p ++ chunk)).2.length > limit := Nat.not_lt.mpr h
  simp only [feed, if_neg hn]

/-- Feeding the chunks is scanning their concatenation, as long as nothing is dropped. -/
theorem feedAll_eq_run : ∀ (chunks : List (List α)) (p : List α),
    S.run p = ([], p) → S.Fits limit p chunks →
      ((S.feedAll limit p chunks).1.flatten, (S.feedAll limit p chunks).2)
        = S.run (p ++ chunks.flatten)
  | [], p, hp, _ => by simp [feedAll, hp]
  | c :: cs, p, _, hfit => by
    obtain ⟨hc, hcs⟩ := hfit
    have hfeed := feed_of_le hc
    rw [hfeed] at hcs
    have ih := feedAll_eq_run cs (S.run (p ++ c)).2 (S.run_held _) hcs
    have hsplit : S.run (p ++ (c :: cs).flatten)
        = ((S.run (p ++ c)).1 ++ (S.run ((S.run (p ++ c)).2 ++ cs.flatten)).1,
            (S.run ((S.run (p ++ c)).2 ++ cs.flatten)).2) := by
      rw [List.flatten_cons, ← List.append_assoc]
      exact S.run_append _ _
    rw [hsplit, ← ih]
    simp only [feedAll, hfeed, List.flatten_cons]

/-- The tail withheld from the whole input is the one withheld after the last chunk. -/
theorem Fits.whole : ∀ {chunks : List (List α)} {p : List α},
    S.run p = ([], p) → p.length ≤ limit → S.Fits limit p chunks →
      (S.run (p ++ chunks.flatten)).2.length ≤ limit
  | [], p, hp, hlen, _ => by simpa [hp] using hlen
  | c :: cs, p, _, _, hfit => by
    obtain ⟨hc, hcs⟩ := hfit
    rw [feed_of_le hc] at hcs
    have ih := Fits.whole (S.run_held _) hc hcs
    rw [List.flatten_cons, ← List.append_assoc, S.run_append]
    exact ih

/-- **Streaming.**  Feeding chunk by chunk gives the output and the pending tail of feeding the
concatenation at once, as long as no withheld tail exceeds the limit. -/
theorem feedAll_eq_feed {chunks : List (List α)} {p : List α} (hp : S.run p = ([], p))
    (hlen : p.length ≤ limit) (hfit : S.Fits limit p chunks) :
    ((S.feedAll limit p chunks).1.flatten, (S.feedAll limit p chunks).2)
      = S.feed limit p chunks.flatten := by
  rw [feed_of_le (Fits.whole hp hlen hfit)]
  exact feedAll_eq_run chunks p hp hfit

/-! ## §3. Tokens. -/

section Tokens

variable {γ : Type*} {render : γ → List α} {out : γ → List β}

/-- Each token is consumed in one turn.  Stability lets the turn ignore the tokens behind it. -/
theorem run_flatMap
    (hturn : ∀ t, ∃ c cs, render t = c :: cs ∧ S.turn c cs = .go (out t) []) (ts : List γ) :
    S.run (ts.flatMap render) = (ts.flatMap out, []) := by
  induction ts with
  | nil => exact S.run_nil
  | cons t ts ih =>
    obtain ⟨c, cs, hrender, ht⟩ := hturn t
    have hmore := S.stable ht (ts.flatMap render)
    rw [List.nil_append] at hmore
    rw [List.flatMap_cons, hrender, List.cons_append, S.run_cons_go hmore, ih]
    rfl

end Tokens

end Scanner

end ResearchSSH.Library
