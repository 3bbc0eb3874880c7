/-
  ResearchSSH.App.ResourceOutput — terminal output while a resource snapshot is awaited.

  The output comes in chunks, each decoded on its own, and is searched for the markers of a
  snapshot; what stands between them is kept from the terminal.  The place of the begin marker is
  counted in units of the decoded text and used as a number of bytes of the chunk, and a byte order
  mark at the beginning of a chunk is not decoded at all: what is not ASCII before the begin marker
  moves the cut.

  Main results:
    * `Decodes.marker`        — a marker of the output is a marker of the decoded text.
    * `Progress.step`          — what one chunk does, as long as the cut is right.
    * `Progress.delivers`      — what the terminal has been given by then.
    * `delivers_throughout`    — so in every state of a run whose cuts are right.
-/

import ResearchSSH.App.ControllerSessions
import ResearchSSH.App.Utf8
import ResearchSSH.Library.FirstMatch
import ResearchSSH.Library.Transition

namespace ResearchSSH.App

open ResearchSSH.Core ResearchSSH.Library
open AppController (resourceBegin resourceEnd)

/-! ## §1. Output and decoded text. -/

/-- The units of the characters. -/
def units (s : Text) : QString := s.flatMap utf16

/-- The units of the characters, without some of the byte order marks. -/
inductive Decodes : Text → QString → Prop
  | nil : Decodes [] []
  | keep (c : Char) {s : Text} {q : QString} : Decodes s q → Decodes (c :: s) (utf16 c ++ q)
  | drop {s : Text} {q : QString} : Decodes s q → Decodes (byteOrderMark :: s) q

namespace Decodes

variable {s t w : Text} {q r : QString}

/-- A text is decoded as its units. -/
theorem of_units (s : Text) : Decodes s (units s) := by
  induction s with
  | nil => exact .nil
  | cons c s ih => exact .keep c ih

/-- Texts are decoded one behind the other. -/
theorem append (h : Decodes s q) (h' : Decodes t r) : Decodes (s ++ t) (q ++ r) := by
  induction h with
  | nil => exact h'
  | keep c _ ih =>
    rw [List.append_assoc]
    exact .keep c ih
  | drop _ ih => exact .drop ih

/-- What decodes two texts is cut between them. -/
theorem split (h : Decodes (s ++ t) r) : ∃ a b, r = a ++ b ∧ Decodes s a ∧ Decodes t b := by
  induction s generalizing r with
  | nil => exact ⟨[], r, rfl, .nil, h⟩
  | cons c s ih =>
    rw [List.cons_append] at h
    generalize hall : c :: (s ++ t) = all at h
    cases h with
    | nil => cases hall
    | keep d h =>
      obtain ⟨rfl, rfl⟩ := List.cons.inj hall
      obtain ⟨a, b, rfl, ha, hb⟩ := ih h
      exact ⟨utf16 c ++ a, b, (List.append_assoc _ a b).symm, .keep c ha, hb⟩
    | drop h =>
      obtain ⟨rfl, rfl⟩ := List.cons.inj hall
      obtain ⟨a, b, rfl, ha, hb⟩ := ih h
      exact ⟨a, b, rfl, .drop ha, hb⟩

/-- Without byte order marks there is one way to decode. -/
theorem eq_units (h : Decodes w q) (hw : byteOrderMark ∉ w) : q = units w := by
  induction h with
  | nil => rfl
  | keep c _ ih =>
    rw [ih (List.not_mem_of_not_mem_cons hw)]
    rfl
  | drop _ _ => exact absurd List.mem_cons_self hw

/-- **A marker of the output is a marker of the decoded text.** -/
theorem marker (h : Decodes s q) (hw : byteOrderMark ∉ w) (hfound : w <:+: s) :
    units w <:+: q := by
  obtain ⟨x, y, rfl⟩ := hfound
  obtain ⟨a, b, rfl, ha, hb⟩ := h.split
  obtain ⟨a', m, rfl, _, hm⟩ := ha.split
  exact ⟨a', b, by rw [hm.eq_units hw]⟩

end Decodes

/-- What Qt reads of the bytes of a text. -/
theorem decodes_fromUtf8 (s : Text) : Decodes s (fromUtf8 (utf8 s)) := by
  rw [fromUtf8_utf8]
  split
  · next hmark =>
    obtain ⟨rest, rfl⟩ := List.head?_eq_some_iff.mp hmark
    exact .drop (.of_units rest)
  · exact .of_units s

/-! ## §2. Places in decoded text. -/

variable {s : Text} {u : QChar}

/-- One unit, or a pair that begins with a high surrogate. -/
theorem utf16_cases (c : Char) : (∃ u, utf16 c = [u]) ∨
    ∃ u v, utf16 c = [u, v] ∧ isHighSurrogate u = true := by
  have hvalid : c.toNat < 0xd800 ∨ (0xdfff < c.toNat ∧ c.toNat < 0x110000) := c.valid
  unfold utf16
  generalize c.toNat = v at hvalid ⊢
  split
  · exact .inl ⟨_, rfl⟩
  · next hlarge =>
    refine .inr ⟨_, _, rfl, ?_⟩
    rw [isHighSurrogate_iff, toNat_toUInt16 (by omega)]
    omega

/-- Every character has a unit. -/
theorem utf16_ne_nil (c : Char) : utf16 c ≠ [] := by
  obtain ⟨u, hu⟩ | ⟨u, v, hu, _⟩ := utf16_cases c
  · rw [hu]
    exact List.cons_ne_nil _ _
  · rw [hu]
    exact List.cons_ne_nil _ _

/-- The units of two texts. -/
theorem units_append (s t : Text) : units (s ++ t) = units s ++ units t := List.flatMap_append

/-- The units of a character and a text. -/
theorem units_cons (c : Char) (s : Text) : units (c :: s) = utf16 c ++ units s := rfl

/-- Behind a unit that is no high surrogate, a character ends. -/
theorem units_split (hu : isHighSurrogate u = false) :
    ∀ {s : Text} {a b : QString}, units s = a ++ u :: b →
      ∃ x y, s = x ++ y ∧ units x = a ++ [u] ∧ units y = b := by
  intro s
  induction s with
  | nil =>
    intro a b h
    exact absurd h.symm (List.append_ne_nil_of_right_ne_nil a (List.cons_ne_nil u b))
  | cons c s ih =>
    intro a b h
    rw [units_cons] at h
    -- a letter has one unit, or a pair whose first unit is no place to cut behind
    obtain ⟨v, hv⟩ | ⟨v, v', hv, hhigh⟩ := utf16_cases c
    · rw [hv, List.singleton_append] at h
      cases a with
      | nil =>
        obtain ⟨rfl, hb⟩ := List.cons.inj h
        exact ⟨[c], s, rfl, by rw [units_cons, hv]; rfl, hb⟩
      | cons v' a =>
        have hrest : units s = a ++ u :: b := (List.cons.inj h).2
        obtain ⟨x, y, rfl, hx, hy⟩ := ih hrest
        refine ⟨c :: x, y, rfl, ?_, hy⟩
        rw [units_cons, hv, hx, (List.cons.inj h).1]
        rfl
    · rw [hv] at h
      cases a with
      | nil =>
        obtain ⟨rfl, _⟩ := List.cons.inj h
        rw [hu] at hhigh
        cases hhigh
      | cons w a =>
        obtain ⟨rfl, hrest⟩ := List.cons.inj h
        cases a with
        | nil =>
          obtain ⟨rfl, hb⟩ := List.cons.inj hrest
          exact ⟨[c], s, rfl, by rw [units_cons, hv]; rfl, hb⟩
        | cons w a =>
          have hmore : units s = a ++ u :: b := (List.cons.inj hrest).2
          obtain ⟨x, y, rfl, hx, hy⟩ := ih hmore
          refine ⟨c :: x, y, rfl, ?_, hy⟩
          rw [units_cons, hv, hx, (List.cons.inj hrest).1]
          rfl

/-- Every character is ASCII. -/
def Plain (s : Text) : Prop := ∀ c ∈ s, c.toNat < 0x80

instance (s : Text) : Decidable (Plain s) := List.decidableBAll _ s

/-- A plain text has a unit for each character. -/
theorem length_units (h : Plain s) : (units s).length = s.length := by
  induction s with
  | nil => rfl
  | cons c s ih =>
    have hone : utf16 c = [c.toNat.toUInt16] := by
      have hc := h c List.mem_cons_self
      exact if_pos (by omega)
    rw [units_cons, hone, List.singleton_append, List.length_cons, List.length_cons,
      ih fun d hd => h d (List.mem_cons_of_mem c hd)]

/-- A plain text has a byte for each character. -/
theorem length_utf8 (h : Plain s) : (utf8 s).length = s.length := by
  induction s with
  | nil => rfl
  | cons c s ih =>
    have hone : (String.utf8EncodeChar c).length = 1 := by
      have hc : c.toNat < 0x80 := h c List.mem_cons_self
      rw [String.length_utf8EncodeChar, Char.utf8Size_eq_one_iff]
      exact UInt32.le_iff_toNat_le.mpr (Nat.le_of_lt_succ hc)
    have hrest := ih fun d hd => h d (List.mem_cons_of_mem c hd)
    unfold utf8 at hrest ⊢
    rw [List.flatMap_cons, List.length_append, hone, hrest, List.length_cons, Nat.add_comm]

/-- Bytes of characters that are all ASCII. -/
theorem take_utf8 {t : Text} {n : Nat} (h : Plain s) (hn : n ≤ s.length) :
    (utf8 (s ++ t)).take n = utf8 (s.take n) := by
  have hplain : Plain (s.take n) := fun c hc => h c (List.mem_of_mem_take hc)
  have hlength : (utf8 (s.take n)).length = n := by
    rw [length_utf8 hplain, List.length_take_of_le hn]
  have hsplit : s ++ t = s.take n ++ (s.drop n ++ t) := by
    rw [← List.append_assoc, List.take_append_drop]
  rw [hsplit, show utf8 (s.take n ++ (s.drop n ++ t)) = utf8 (s.take n) ++ utf8 (s.drop n ++ t)
    from List.flatMap_append, List.take_left' hlength]

/-! ## §3. What the terminal is to be given. -/

/-- The line the snapshot begins with. -/
def beginMarker : Text := "__RSSH_RESOURCE_BEGIN__".toList

/-- The line the snapshot ends with. -/
def endMarker : Text := "__RSSH_RESOURCE_END__".toList

/-- The marker in units. -/
theorem units_beginMarker : units beginMarker = resourceBegin := rfl

/-- The marker in units. -/
theorem units_endMarker : units endMarker = resourceEnd := rfl

theorem beginMarker_ne_nil : beginMarker ≠ [] := List.cons_ne_nil _ _

theorem endMarker_ne_nil : endMarker ≠ [] := List.cons_ne_nil _ _

/-- What stands before the first begin marker and behind the end marker that follows it, once and
in order; of what stands between, or behind a begin marker without an end marker, any part. -/
def Delivers (stream : Text) (shown : List UInt8) : Prop :=
  match cutAt beginMarker stream with
  | none => shown = utf8 stream
  | some (before, rest) =>
    match cutAt endMarker rest with
    | none =>
      ∃ part, part.Sublist (utf8 (beginMarker ++ rest)) ∧ shown = utf8 before ++ part
    | some (region, after) =>
      ∃ part, part.Sublist (utf8 (beginMarker ++ region ++ endMarker))
        ∧ shown = utf8 before ++ part ++ utf8 after

variable {stream before rest region after chunk : Text} {part : List UInt8}

/-- The bytes of two texts. -/
theorem utf8_append (s t : Text) : utf8 (s ++ t) = utf8 s ++ utf8 t := List.flatMap_append

/-- A snapshot that has begun and not ended. -/
theorem Delivers.of_open (hstream : stream = before ++ beginMarker ++ rest)
    (hfirst : FirstEnd beginMarker before) (hopen : ¬ endMarker <:+: rest)
    (hpart : part.Sublist (utf8 (beginMarker ++ rest))) :
    Delivers stream (utf8 before ++ part) := by
  unfold Delivers
  rw [(cutAt_eq_some beginMarker_ne_nil).mpr ⟨hstream, hfirst⟩]
  dsimp only
  rw [cutAt_eq_none.mpr hopen]
  exact ⟨part, hpart, rfl⟩

/-- Output that is shown from some place on, not behind the end marker. -/
theorem Delivers.of_closed (hstream : stream = before ++ beginMarker ++ (region ++ after))
    (hfirst : FirstEnd beginMarker before) (hclosed : ¬ endMarker <:+: region.dropLast)
    (hpart : part.Sublist (utf8 (beginMarker ++ region))) :
    Delivers stream (utf8 before ++ part ++ utf8 after) := by
  unfold Delivers
  rw [(cutAt_eq_some beginMarker_ne_nil).mpr ⟨hstream, hfirst⟩]
  dsimp only
  cases hcut : cutAt endMarker (region ++ after) with
  | none =>
    refine ⟨part ++ utf8 after, ?_, List.append_assoc _ _ _⟩
    rw [← List.append_assoc, utf8_append (beginMarker ++ region)]
    exact hpart.append (List.Sublist.refl _)
  | some parts =>
    obtain ⟨mid, behind⟩ := parts
    obtain ⟨hsplit, _⟩ := (cutAt_eq_some endMarker_ne_nil).mp hcut
    -- the end marker does not end before the region does
    have hlong : region.length ≤ (mid ++ endMarker).length := by
      by_contra hlt
      apply hclosed
      have hwhole : mid ++ endMarker <+: region ++ after := ⟨behind, hsplit.symm⟩
      have hshorter : region.dropLast <+: region := List.dropLast_prefix _
      have hbegins : mid ++ endMarker <+: region.dropLast := by
        refine List.prefix_of_prefix_length_le hwhole
          (hshorter.trans (List.prefix_append _ _)) ?_
        rw [List.length_dropLast]
        omega
      exact (List.suffix_append mid endMarker).isInfix.trans hbegins.isInfix
    obtain ⟨more, hmore⟩ := List.prefix_of_prefix_length_le
      (List.prefix_append region after) ⟨behind, hsplit.symm⟩ hlong
    have hafter : after = more ++ behind := by
      rw [← hmore, List.append_assoc] at hsplit
      exact List.append_cancel_left hsplit
    refine ⟨part ++ utf8 more, ?_, ?_⟩
    · rw [List.append_assoc beginMarker, ← hmore, ← List.append_assoc,
        utf8_append (beginMarker ++ region)]
      exact hpart.append (List.Sublist.refl _)
    · show utf8 before ++ part ++ utf8 after = utf8 before ++ (part ++ utf8 more) ++ utf8 behind
      rw [hafter, utf8_append, List.append_assoc, List.append_assoc, List.append_assoc]

/-- Showing everything is right. -/
theorem delivers_all (stream : Text) : Delivers stream (utf8 stream) := by
  cases hcut : cutAt beginMarker stream with
  | none =>
    unfold Delivers
    rw [hcut]
  | some parts =>
    obtain ⟨before, rest⟩ := parts
    obtain ⟨hstream, hfirst⟩ := (cutAt_eq_some beginMarker_ne_nil).mp hcut
    have hnone : ¬ endMarker <:+: ([] : Text).dropLast := by decide
    have hmarker : (utf8 beginMarker).Sublist (utf8 (beginMarker ++ [])) := by
      rw [List.append_nil]
    have hshown := Delivers.of_closed hstream hfirst hnone hmarker
    rw [← utf8_append, ← utf8_append, ← hstream] at hshown
    exact hshown

/-! ## §4. What a chunk does to the controller. -/

namespace AppController

/-- What the terminal was given since `c₀`, and nothing but bytes of output. -/
def Wrote (c₀ c : AppController) (bytes : List UInt8) : Prop :=
  ∃ inputs : List (List UInt8),
    c.terminal = c₀.terminal ++ inputs.map TerminalInput.bytes ∧ inputs.flatten = bytes

variable {c₀ c : AppController} {bytes data : List UInt8} {capture : QString}

theorem Wrote.refl (c₀ : AppController) : Wrote c₀ c₀ [] := ⟨[], (List.append_nil _).symm, rfl⟩

/-- Only the terminal counts. -/
theorem Wrote.of_terminal (h : Wrote c₀ c bytes) {c' : AppController}
    (hterminal : c'.terminal = c.terminal) : Wrote c₀ c' bytes := by
  obtain ⟨inputs, hinputs, hflat⟩ := h
  exact ⟨inputs, hterminal.trans hinputs, hflat⟩

/-- Some bytes more. -/
theorem Wrote.appendBytes (h : Wrote c₀ c bytes) (data : List UInt8) :
    Wrote c₀ (c.appendBytes data) (bytes ++ data) := by
  obtain ⟨inputs, hinputs, rfl⟩ := h
  refine ⟨inputs ++ [data], ?_, ?_⟩
  · show c.terminal ++ [.bytes data] = _
    rw [hinputs, List.map_append, List.append_assoc]
    rfl
  · rw [List.flatten_append, List.flatten_singleton]

/-- Output that the capture takes goes nowhere else. -/
theorem ingest_taken {c' : AppController} (h : c.captureResourceOutput data = (true, c')) :
    c.ingestRustEvent (.data data) = c' := by
  unfold ingestRustEvent
  dsimp only
  rw [h]

/-- Output that the capture does not take goes to the terminal. -/
theorem ingest_passed {c' : AppController} (h : c.captureResourceOutput data = (false, c')) :
    c.ingestRustEvent (.data data) = c'.appendBytes data := by
  unfold ingestRustEvent
  dsimp only
  rw [h]

/-- After the snapshot the terminal is given everything. -/
theorem ingest_idle (h : c.resources.busy = false) :
    c.ingestRustEvent (.data data) = c.appendBytes data := by
  apply ingest_passed
  unfold captureResourceOutput
  rw [h, if_neg Bool.false_ne_true]

section
variable (hbusy : c.resources.busy = true)

include hbusy

/-- As long as no marker is found the output waits or goes on. -/
theorem ingest_probing (hempty : c.resources.capture = [])
    (hnone : indexOf (c.resources.markerTail ++ fromUtf8 data) resourceBegin = none) :
    c.ingestRustEvent (.data data) =
      appendBytes { c with resources :=
        { c.resources with
          markerTail := keep resourceBegin (c.resources.markerTail ++ fromUtf8 data) } } data := by
  apply ingest_passed
  unfold captureResourceOutput
  rw [hbusy, if_pos rfl]
  dsimp only
  rw [if_pos hempty, hnone]
  rfl

/-- Where the marker is found, the bytes up to its place are handed on. -/
theorem ingest_found (hempty : c.resources.capture = []) {b : Nat}
    (hfound : indexOf (c.resources.markerTail ++ fromUtf8 data) resourceBegin = some b)
    (h : Wrote c₀ c bytes) :
    ∃ c', c'.resources = { busy := true, capture := [], markerTail := [] }
      ∧ Wrote c₀ c' (bytes ++ data.take (b - c.resources.markerTail.length))
      ∧ c.ingestRustEvent (.data data)
          = c'.finishCapture ((c.resources.markerTail ++ fromUtf8 data).drop b) := by
  have hidle : ({ c.resources with markerTail := [] } : ResourceCapture)
      = { busy := true, capture := [], markerTail := [] } := by
    dsimp only
    rw [hbusy, hempty]
  by_cases hcut : b - c.resources.markerTail.length > 0
  · refine ⟨{ c.appendBytes (data.take (b - c.resources.markerTail.length)) with
      resources := { c.resources with markerTail := [] } }, hidle,
      (h.appendBytes _).of_terminal rfl, ingest_taken ?_⟩
    unfold captureResourceOutput
    rw [hbusy, if_pos rfl]
    dsimp only
    rw [if_pos hempty, hfound]
    dsimp only
    rw [if_pos hcut]
    rfl
  · refine ⟨{ c with resources := { c.resources with markerTail := [] } }, hidle, ?_,
      ingest_taken ?_⟩
    · rw [Nat.eq_zero_of_not_pos hcut, List.take_zero, List.append_nil]
      exact h.of_terminal rfl
    · unfold captureResourceOutput
      rw [hbusy, if_pos rfl]
      dsimp only
      rw [if_pos hempty, hfound]
      dsimp only
      rw [if_neg hcut]

/-- Within a snapshot the output is collected. -/
theorem ingest_capturing (hcapture : c.resources.capture ≠ []) :
    c.ingestRustEvent (.data data) =
      c.finishCapture (c.resources.capture ++ fromUtf8 data) := by
  apply ingest_taken
  unfold captureResourceOutput
  rw [hbusy, if_pos rfl]
  dsimp only
  rw [if_neg hcapture]

end

/-- The end is not there yet. -/
theorem finishCapture_open (hlimit : capture.length ≤ 50000)
    (hnone : indexOf capture resourceEnd = none) : c.finishCapture capture =
      { c with resources := { c.resources with capture := capture } } := by
  unfold finishCapture
  rw [if_neg (Nat.not_lt.mpr hlimit), hnone]

/-- The end is there: what stands behind it goes to the terminal. -/
theorem finishCapture_closed (hlimit : capture.length ≤ 50000) {e : Nat}
    (hfound : indexOf capture resourceEnd = some e) (h : Wrote c₀ c bytes) :
    (c.finishCapture capture).resources.busy = false
      ∧ Wrote c₀ (c.finishCapture capture)
          (bytes ++ toUtf8 (capture.drop (e + resourceEnd.length))) := by
  unfold finishCapture
  rw [if_neg (Nat.not_lt.mpr hlimit), hfound]
  dsimp only
  split
  · next hnil =>
    rw [hnil]
    refine ⟨rfl, ?_⟩
    show Wrote c₀ _ (bytes ++ [])
    rw [List.append_nil]
    exact h.of_terminal rfl
  · exact ⟨rfl, (h.of_terminal rfl).appendBytes _⟩

/-! ## §5. How far the snapshot has come. -/

/-- The output so far has no begin marker that was seen, or it is being captured since one, or the
end was seen: with what the terminal has been given by then. -/
inductive Progress (c₀ c : AppController) (stream : Text) : Prop
  | probing (seen : QString) : c.resources.busy = true → c.resources.capture = [] →
      c.resources.markerTail = keep resourceBegin seen → Decodes stream seen →
      ¬ resourceBegin <:+: seen → Wrote c₀ c (utf8 stream) → Progress c₀ c stream
  | capturing (before rest : Text) (text : QString) (k : Nat) :
      stream = before ++ beginMarker ++ rest → FirstEnd beginMarker before →
      Decodes rest text → ¬ resourceEnd <:+: resourceBegin ++ text →
      c.resources.busy = true → c.resources.capture = resourceBegin ++ text →
      Wrote c₀ c (utf8 (before ++ beginMarker.take k)) → Progress c₀ c stream
  | ended (before region after : Text) (k : Nat) :
      stream = before ++ beginMarker ++ (region ++ after) → FirstEnd beginMarker before →
      ¬ endMarker <:+: region.dropLast → c.resources.busy = false →
      Wrote c₀ c (utf8 (before ++ beginMarker.take k) ++ utf8 after) → Progress c₀ c stream

variable {stream chunk before rest w bom : Text} {text : QString} {k : Nat}

/-- No marker has a byte order mark. -/
theorem byteOrderMark_not_mem_markers :
    byteOrderMark ∉ beginMarker ∧ byteOrderMark ∉ endMarker := by decide

/-- A part of the begin marker is a part of what may be kept back. -/
theorem sublist_marker (k : Nat) (rest : Text) :
    (utf8 (beginMarker.take k)).Sublist (utf8 (beginMarker ++ rest)) := by
  have hsplit : beginMarker ++ rest = beginMarker.take k ++ (beginMarker.drop k ++ rest) := by
    rw [← List.append_assoc, List.take_append_drop]
  rw [hsplit, utf8_append]
  exact List.sublist_append_left _ _

/-- Wherever the output was cut, it was delivered. -/
theorem Progress.delivers (h : Progress c₀ c stream) :
    ∃ bytes, Wrote c₀ c bytes ∧ Delivers stream bytes := by
  cases h with
  | probing seen _ _ _ _ _ hwrote => exact ⟨_, hwrote, delivers_all stream⟩
  | capturing before rest text k hstream hfirst hdec hopen _ _ hwrote =>
    refine ⟨_, hwrote, ?_⟩
    rw [utf8_append]
    refine Delivers.of_open hstream hfirst ?_ (sublist_marker k rest)
    intro hend
    have hseen := hdec.marker byteOrderMark_not_mem_markers.2 hend
    rw [units_endMarker] at hseen
    exact hopen (hseen.trans (List.suffix_append resourceBegin text).isInfix)
  | ended before region after k hstream hfirst hclosed _ hwrote =>
    refine ⟨_, hwrote, ?_⟩
    rw [utf8_append]
    exact Delivers.of_closed hstream hfirst hclosed (sublist_marker k region)

/-- An end marker that was not there before ends in the new characters, behind one of them. -/
theorem endMarker_split {captured a trailing : QString} (hopen : ¬ resourceEnd <:+: captured)
    (h : captured ++ units w = a ++ resourceEnd ++ trailing) :
    ∃ w₁ c w₂ g, w = w₁ ++ c :: w₂ ∧ units (w₁ ++ [c]) = g ++ [0x5f] ∧ units w₂ = trailing
      ∧ captured ++ g = (a ++ resourceEnd).dropLast := by
  have hlast : a ++ resourceEnd = (a ++ resourceEnd).dropLast ++ [0x5f] := by
    have hmarker : resourceEnd = resourceEnd.dropLast ++ [0x5f] := by decide
    rw [List.dropLast_append_of_ne_nil (by decide), List.append_assoc, ← hmarker]
  have hbegins : captured <+: (a ++ resourceEnd).dropLast := by
    rw [hlast, List.append_assoc] at h
    have hlong : captured.length ≤ (a ++ resourceEnd).dropLast.length := by
      by_contra hlt
      apply hopen
      have hend : a ++ resourceEnd <+: captured ++ units w :=
        ⟨trailing, by rw [h, ← List.append_assoc, ← hlast]⟩
      have hwhole : a ++ resourceEnd <+: captured := by
        refine List.prefix_of_prefix_length_le hend (List.prefix_append _ _) ?_
        rw [hlast, List.length_append, List.length_singleton]
        omega
      exact (List.suffix_append a resourceEnd).isInfix.trans hwhole.isInfix
    exact List.prefix_of_prefix_length_le (List.prefix_append _ _) ⟨_, h.symm⟩ hlong
  obtain ⟨g, hg⟩ := hbegins
  have hunits : units w = g ++ 0x5f :: trailing := by
    rw [hlast, ← hg, List.append_assoc, List.append_assoc] at h
    exact List.append_cancel_left h
  obtain ⟨x, y, rfl, hx, hy⟩ := units_split (by decide) hunits
  obtain rfl | ⟨w₁, c, rfl⟩ := x.eq_nil_or_concat
  · exact absurd hx.symm (List.append_ne_nil_of_right_ne_nil g (List.cons_ne_nil _ _))
  · rw [List.concat_eq_append] at hx ⊢
    exact ⟨w₁, c, y, g, by rw [List.append_assoc]; rfl, hx, hy, hg⟩

/-- What stands before the last of the characters. -/
theorem units_before {c : Char} {g : QString} {u : QChar} (h : units (w ++ [c]) = g ++ [u]) :
    units w <+: g := by
  rw [units_append] at h
  refine List.prefix_of_prefix_length_le ⟨_, h⟩ (List.prefix_append _ _) ?_
  have hlength := congrArg List.length h
  rw [List.length_append, List.length_append, List.length_singleton] at hlength
  have hpos : 0 < (units [c]).length :=
    List.length_pos_of_ne_nil (List.append_ne_nil_of_left_ne_nil (utf16_ne_nil c) _)
  omega

/-- The capture grows by decoded characters, and the end marker is searched for. -/
theorem Progress.finish {c' : AppController} (hstream : stream = before ++ beginMarker ++ rest)
    (hfirst : FirstEnd beginMarker before) (hdec : Decodes rest text)
    (hopen : ¬ resourceEnd <:+: resourceBegin ++ text) (hbusy : c'.resources.busy = true)
    (hwrote : Wrote c₀ c' (utf8 (before ++ beginMarker.take k))) (hbom : Decodes bom [])
    (hlimit : (resourceBegin ++ text ++ units w).length ≤ 50000) :
    Progress c₀ (c'.finishCapture (resourceBegin ++ text ++ units w)) (stream ++ (bom ++ w)) := by
  have hmore : Decodes (bom ++ w) (units w) := hbom.append (.of_units w)
  cases hindex : indexOf (resourceBegin ++ text ++ units w) resourceEnd with
  | none =>
    have hnot := firstMatch_eq_none.mp hindex
    rw [finishCapture_open hlimit hindex]
    refine .capturing before (rest ++ (bom ++ w)) (text ++ units w) k ?_ hfirst
      (hdec.append hmore) ?_ hbusy ?_ (hwrote.of_terminal rfl)
    · rw [hstream, List.append_assoc]
    · rwa [← List.append_assoc]
    · exact List.append_assoc _ _ _
  | some e =>
    have hend : resourceEnd ≠ [] := List.cons_ne_nil _ _
    obtain ⟨a, trailing, hsplit, rfl, hfirstEnd⟩ := (firstMatch_eq_some hend).mp hindex
    obtain ⟨w₁, c₁, w₂, g, rfl, hw₁, hw₂, hg⟩ := endMarker_split hopen hsplit
    have htrailing : toUtf8 ((resourceBegin ++ text ++ units (w₁ ++ c₁ :: w₂)).drop
        (a.length + resourceEnd.length)) = utf8 w₂ := by
      rw [hsplit, ← List.length_append, List.drop_left, ← hw₂]
      exact toUtf8_utf16 w₂
    obtain ⟨hidle, hwrote'⟩ := finishCapture_closed hlimit hindex hwrote
    rw [htrailing] at hwrote'
    refine .ended before (rest ++ bom ++ (w₁ ++ [c₁])) w₂ k ?_ hfirst ?_ hidle hwrote'
    · rw [hstream]
      simp only [List.append_assoc, List.singleton_append]
    · -- an end marker that ends before would have been found before
      intro hbefore
      rw [← List.append_assoc, List.dropLast_concat] at hbefore
      have hdec' := (hdec.append hbom).append (.of_units w₁)
      have hseen := hdec'.marker byteOrderMark_not_mem_markers.2 hbefore
      rw [units_endMarker, List.append_nil] at hseen
      obtain ⟨more, rfl⟩ := units_before hw₁
      apply hfirstEnd
      rw [← hg, List.append_assoc, ← List.append_assoc text]
      exact hseen.trans (List.infix_append resourceBegin _ more)

/-! ## §6. One chunk. -/

/-- The decoded chunk behind what was kept of the output before it. -/
def probe (c : AppController) (chunk : Text) : QString :=
  c.resources.markerTail ++ fromUtf8 (utf8 chunk)

/-- Where the chunk completes what is taken for the begin marker, it is ASCII up to there, and what
is taken for the marker is one. -/
def MarkerExact (c : AppController) (stream chunk : Text) : Prop :=
  c.resources.busy = true → c.resources.capture = [] →
    ∀ b, indexOf (c.probe chunk) resourceBegin = some b →
      let n := b + resourceBegin.length - c.resources.markerTail.length
      Plain (chunk.take n) ∧ beginMarker <:+ stream ++ chunk.take n

/-- The capture stays below its limit. -/
def BelowLimit (c : AppController) (chunk : Text) : Prop :=
  c.resources.busy = true →
    (c.resources.capture = [] →
        ∀ b, indexOf (c.probe chunk) resourceBegin = some b →
          ((c.probe chunk).drop b).length ≤ 50000)
      ∧ (c.resources.capture ≠ [] →
          (c.resources.capture ++ fromUtf8 (utf8 chunk)).length ≤ 50000)

/-- A chunk is decoded behind its byte order mark, if it begins with one. -/
theorem chunk_cases (chunk : Text) : ∃ bom w, chunk = bom ++ w ∧ Decodes bom []
    ∧ fromUtf8 (utf8 chunk) = units w := by
  rw [fromUtf8_utf8]
  split
  · next hmark =>
    obtain ⟨w, rfl⟩ := List.head?_eq_some_iff.mp hmark
    exact ⟨[byteOrderMark], w, rfl, .drop .nil, rfl⟩
  · exact ⟨[], chunk, rfl, .nil, rfl⟩

/-- A chunk that begins with ASCII is decoded as a whole. -/
theorem fromUtf8_plain {n : Nat} (hn : 0 < n) (h : Plain (chunk.take n)) :
    fromUtf8 (utf8 chunk) = units chunk := by
  rw [fromUtf8_utf8, if_neg]
  · rfl
  · intro hmark
    obtain ⟨w, rfl⟩ := List.head?_eq_some_iff.mp hmark
    obtain ⟨m, rfl⟩ := Nat.exists_eq_succ_of_ne_zero (Nat.ne_of_gt hn)
    have hascii : byteOrderMark.toNat < 0x80 := h byteOrderMark List.mem_cons_self
    exact absurd hascii (by decide)

/-- Up to the end of the marker there is a unit for each character of the chunk. -/
theorem marker_end {tail a behind : QString} {n : Nat} (hplain : Plain (chunk.take n))
    (hn : a.length + resourceBegin.length - tail.length = n)
    (h : tail ++ units chunk = a ++ resourceBegin ++ behind) :
    ∃ x y, chunk = x ++ y ∧ chunk.take n = x ∧ x.length = n := by
  refine ⟨chunk.take n, chunk.drop n, (List.take_append_drop n chunk).symm, rfl, ?_⟩
  have hlength := congrArg List.length h
  simp only [List.length_append] at hlength
  by_contra hne
  -- a shorter chunk would have too few units
  have hle : chunk.length < n := by
    rw [List.length_take] at hne
    omega
  rw [List.take_of_length_le (Nat.le_of_lt hle)] at hplain
  rw [length_units hplain] at hlength
  omega

/-- What stands before the last new character holds a begin marker only if it has been seen. -/
theorem marker_before {seen : QString} {x : Text} (hdec : Decodes stream seen) (hx : x ≠ [])
    (hnone : ¬ resourceBegin <:+: (seen ++ units x).dropLast) :
    ¬ beginMarker <:+: (stream ++ x).dropLast := by
  obtain rfl | ⟨x', c, rfl⟩ := x.eq_nil_or_concat
  · exact absurd rfl hx
  · rw [List.concat_eq_append] at hnone ⊢
    rw [← List.append_assoc, List.dropLast_concat]
    intro hearlier
    have hseen := (hdec.append (.of_units x')).marker byteOrderMark_not_mem_markers.1 hearlier
    rw [units_beginMarker] at hseen
    obtain hnil | ⟨g, u, hg⟩ := (units (x' ++ [c])).eq_nil_or_concat
    · rw [units_append] at hnil
      have hlast : utf16 c ++ units [] = [] := (List.append_eq_nil_iff.mp hnil).2
      exact absurd (List.append_eq_nil_iff.mp hlast).1 (utf16_ne_nil c)
    · rw [List.concat_eq_append] at hg
      obtain ⟨more, rfl⟩ := units_before hg
      rw [hg, ← List.append_assoc, List.dropLast_concat, ← List.append_assoc] at hnone
      exact hnone (hseen.trans (List.prefix_append _ more).isInfix)

/-- **The begin marker comes.** -/
theorem Progress.begin {seen : QString} (hbusy : c.resources.busy = true)
    (hempty : c.resources.capture = []) (htail : c.resources.markerTail = keep resourceBegin seen)
    (hdec : Decodes stream seen) (hnone : ¬ resourceBegin <:+: seen)
    (hwrote : Wrote c₀ c (utf8 stream)) {b : Nat}
    (hfound : indexOf (c.probe chunk) resourceBegin = some b)
    (hexact : c.MarkerExact stream chunk) (hlimit : c.BelowLimit chunk) :
    Progress c₀ (c.ingestRustEvent (.data (utf8 chunk))) (stream ++ chunk) := by
  have hmarker : resourceBegin ≠ [] := List.cons_ne_nil _ _
  obtain ⟨hplain, before, hbefore⟩ := hexact hbusy hempty b hfound
  have hlong := (hlimit hbusy).1 hempty b hfound
  have hshort : c.resources.markerTail.length < resourceBegin.length := by
    rw [htail]
    exact length_keep_lt hmarker
  have hpos : 0 < b + resourceBegin.length - c.resources.markerTail.length := by omega
  have hchunk := fromUtf8_plain hpos hplain
  obtain ⟨c', hresources, hwrote', hingest⟩ := ingest_found hbusy hempty hfound hwrote
  rw [hingest]
  obtain ⟨a, behind, hsplit, rfl, hfirst⟩ := (firstMatch_eq_some hmarker).mp hfound
  unfold probe at hsplit hlong
  rw [hchunk] at hsplit hlong ⊢
  generalize hn : a.length + resourceBegin.length - c.resources.markerTail.length = n
    at hplain hbefore hpos
  -- the chunk up to the end of the marker, and behind it
  obtain ⟨x, y, rfl, hx, hxlen⟩ := marker_end hplain hn hsplit
  rw [hx] at hplain hbefore
  rw [units_append, ← List.append_assoc] at hsplit hlong ⊢
  obtain ⟨hmark, hbehind⟩ := List.append_inj hsplit (by
    rw [List.length_append, List.length_append, length_units hplain]
    omega)
  obtain ⟨pre, hpre⟩ := keep_suffix resourceBegin seen
  have hfirst' : FirstEnd beginMarker before := by
    rw [htail, List.append_assoc] at hsplit
    have hfirstSeen := hfirst.of_keep hmarker hnone hsplit hpre
    unfold FirstEnd at hfirstSeen ⊢
    rw [List.append_assoc, ← hmark, htail, ← List.append_assoc, hpre] at hfirstSeen
    rw [hbefore]
    exact marker_before hdec (List.ne_nil_of_length_pos (by omega)) hfirstSeen
  have hshown : utf8 stream ++ (utf8 (x ++ y)).take (a.length - c.resources.markerTail.length)
      = utf8 (before ++ beginMarker.take (stream.length
          + (a.length - c.resources.markerTail.length) - before.length)) := by
    have hlength := congrArg List.length hbefore
    have hsame : beginMarker.length = resourceBegin.length := by decide
    rw [List.length_append, List.length_append] at hlength
    rw [take_utf8 hplain (by omega), ← utf8_append]
    congr 1
    rw [← List.take_length_add_append, ← hbefore, List.take_append,
      List.take_of_length_le (by omega)]
  rw [hshown] at hwrote'
  rw [hmark, List.append_assoc, List.drop_left] at hlong ⊢
  have hopen : ¬ resourceEnd <:+: resourceBegin ++ [] := by decide
  have hend : Progress c₀ (c'.finishCapture (resourceBegin ++ [] ++ units y))
      (before ++ beginMarker ++ ([] ++ y)) :=
    Progress.finish (List.append_nil _).symm hfirst' .nil hopen (by rw [hresources]) hwrote' .nil
      (by rwa [List.append_nil])
  rw [List.append_nil, List.nil_append, hbefore, List.append_assoc] at hend
  exact hend

/-- **What one chunk does.** -/
theorem Progress.step (h : Progress c₀ c stream) (hexact : c.MarkerExact stream chunk)
    (hlimit : c.BelowLimit chunk) :
    Progress c₀ (c.ingestRustEvent (.data (utf8 chunk))) (stream ++ chunk) := by
  cases h with
  | probing seen hbusy hempty htail hdec hnone hwrote =>
    cases hindex : indexOf (c.probe chunk) resourceBegin with
    | none =>
      -- the marker is not complete: what was kept of the text is enough to find it later
      have hprobe := firstMatch_eq_none.mp hindex
      unfold probe at hprobe hindex
      rw [ingest_probing hbusy hempty hindex]
      refine .probing (seen ++ fromUtf8 (utf8 chunk)) hbusy hempty ?_
        (hdec.append (decodes_fromUtf8 chunk)) ?_ ?_
      · show keep resourceBegin (c.resources.markerTail ++ fromUtf8 (utf8 chunk)) = _
        rw [htail, keep_keep_append]
      · rw [htail] at hprobe
        exact mt (infix_keep_iff hnone).mpr hprobe
      · rw [utf8_append]
        exact (hwrote.of_terminal rfl).appendBytes _
    | some b => exact Progress.begin hbusy hempty htail hdec hnone hwrote hindex hexact hlimit
  | capturing before rest text k hstream hfirst hdec hopen hbusy hcapture hwrote =>
    have hne : c.resources.capture ≠ [] := by
      rw [hcapture]
      exact List.append_ne_nil_of_left_ne_nil (List.cons_ne_nil _ _) text
    obtain ⟨bom, w, rfl, hbom, hchunk⟩ := chunk_cases chunk
    have hlong := (hlimit hbusy).2 hne
    rw [hcapture, hchunk] at hlong
    rw [ingest_capturing hbusy hne, hcapture, hchunk]
    exact Progress.finish hstream hfirst hdec hopen hbusy hwrote hbom hlong
  | ended before region after k hstream hfirst hclosed hidle hwrote =>
    rw [ingest_idle hidle]
    refine .ended before region (after ++ chunk) k ?_ hfirst hclosed hidle ?_
    · rw [hstream]
      simp only [List.append_assoc]
    · rw [utf8_append after, ← List.append_assoc]
      exact hwrote.appendBytes _

instance : Decidable (c.MarkerExact stream chunk) :=
  inferInstanceAs (Decidable (_ → _ → ∀ b, b ∈ indexOf (c.probe chunk) resourceBegin → _ ∧ _))

instance : Decidable (c.BelowLimit chunk) :=
  inferInstanceAs (Decidable (_ →
    (_ → ∀ b, b ∈ indexOf (c.probe chunk) resourceBegin → _ ≤ _) ∧ (_ → _ ≤ _)))

/-! ## §7. Runs. -/

/-- One more chunk; the output so far is recorded. -/
def receive (s : AppController × Text) (chunk : Text) : Option (AppController × Text) :=
  some (s.1.ingestRustEvent (.data (utf8 chunk)), s.2 ++ chunk)

/-- **The capture does not eat output, as long as the cut is right.**  From when the snapshot is
asked for, in every state of the run. -/
theorem delivers_throughout (c₀ : AppController) (chunks : List Text)
    (hasked : c₀.resources = { busy := true, capture := [], markerTail := [] })
    (h : Along receive (fun s chunk => s.1.MarkerExact s.2 chunk ∧ s.1.BelowLimit chunk)
      (c₀, []) chunks) :
    Throughout receive (fun s => ∃ bytes, Wrote c₀ s.1 bytes ∧ Delivers s.2 bytes)
      (c₀, []) chunks := by
  have hstart : Progress c₀ c₀ [] := by
    refine .probing [] ?_ ?_ ?_ .nil (by decide) (Wrote.refl c₀)
    · rw [hasked]
    · rw [hasked]
    · rw [hasked]
      rfl
  refine throughout_of_invariant (I := fun s => Progress c₀ s.1 s.2)
    (fun s hs => hs.delivers) ?_ hstart h
  intro s chunk t hs hgood ht
  rw [receive, Option.some.injEq] at ht
  rw [← ht]
  exact hs.step hgood.1 hgood.2

/-- A controller that has just asked for a snapshot. -/
def asking : AppController :=
  { AppController.initial [] (fun _ => none) with
    resources := { busy := true, capture := [], markerTail := [] } }

/-- A prompt that is not ASCII, and the markers cut apart. -/
theorem delivers_prompt :
    Throughout receive (fun s => ∃ bytes, Wrote asking s.1 bytes ∧ Delivers s.2 bytes)
      (asking, []) ["é$ ls\nout__RSSH_RES".toList, "OURCE_BEGIN__\n0, GPU__RSSH_RES".toList,
        "OURCE_END__é$ ".toList] :=
  delivers_throughout asking _ rfl (by decide)

/-- Of what stands before the begin marker in its chunk, as many bytes are shown as there are
units: the second byte of the letter is lost. -/
theorem letter_cut_before_marker :
    ¬ ∀ (c₀ : AppController) (chunks : List Text),
      c₀.resources = { busy := true, capture := [], markerTail := [] } →
      Along receive (fun s chunk => s.1.BelowLimit chunk) (c₀, []) chunks →
      Throughout receive (fun s => ∃ bytes, Wrote c₀ s.1 bytes ∧ Delivers s.2 bytes)
        (c₀, []) chunks := by
  intro h
  have hrun := h asking ["é__RSSH_RESOURCE_BEGIN__".toList] rfl (by decide)
  obtain ⟨bytes, ⟨inputs, hinputs, rfl⟩, hdelivers⟩ := hrun _ _ List.prefix_rfl rfl
  have hshown : inputs.map TerminalInput.bytes = [.bytes [0xc3]] := hinputs.symm
  obtain ⟨shown, rfl⟩ : ∃ shown, inputs = [shown] := by
    apply List.length_eq_one_iff.mp
    rw [← List.length_map TerminalInput.bytes, hshown]
    rfl
  have hfirst : shown = [0xc3] := by
    rw [List.map_singleton] at hshown
    exact TerminalInput.bytes.inj (List.singleton_inj.mp hshown)
  rw [hfirst, List.flatten_singleton] at hdelivers
  obtain ⟨part, _, hpart⟩ : ∃ part : List UInt8,
      part.Sublist (utf8 (beginMarker ++ [])) ∧ [0xc3] = utf8 ['é'] ++ part := hdelivers
  have hlength := congrArg List.length hpart
  rw [List.length_append, show (utf8 ['é']).length = 2 from rfl, List.length_singleton] at hlength
  omega

end AppController

end ResearchSSH.App
