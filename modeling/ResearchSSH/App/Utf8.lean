/-
  ResearchSSH.App.Utf8 — strings of the core, read by Qt.

  The decoder takes the bytes of one character after another, so of a string in UTF-8 it gives the
  characters.  `QString::fromUtf8` drops a byte order mark before it starts.

  Main results:
    * `decodeUtf8_utf8` — the decoder's loop.
    * `fromUtf8_utf8`   — the decoder.
-/

import Mathlib.Algebra.Group.Nat.Defs
import ResearchSSH.Core.Ffi
import ResearchSSH.App.QString

namespace ResearchSSH.App

open ResearchSSH.Core

/-! ## §1. One byte. -/

/-- A mask of low bits. -/
theorem toNat_and_mask (b : UInt8) (k : Nat) (hk : k < 8) :
    (b &&& UInt8.ofNat (2 ^ k - 1)).toNat = b.toNat % 2 ^ k := by
  have hmask : (UInt8.ofNat (2 ^ k - 1)).toNat = 2 ^ k - 1 := by
    rw [UInt8.toNat_ofNat']
    refine Nat.mod_eq_of_lt ?_
    have hpow : 2 ^ k ≤ 2 ^ 7 := Nat.pow_le_pow_right (by omega) (by omega)
    omega
  rw [UInt8.toNat_and, hmask, Nat.and_two_pow_sub_one_eq_mod]

/-- The byte that carries six more bits. -/
def continuation (n : Nat) : UInt8 := UInt8.ofNat (n % 64 + 128)

/-- The number of a continuation byte. -/
theorem toNat_continuation (n : Nat) : (continuation n).toNat = n % 64 + 128 := by
  rw [continuation, UInt8.toNat_ofNat']
  omega

/-- A continuation byte is recognised. -/
theorem isContinuation_continuation (n : Nat) : isContinuation (continuation n) = true := by
  have hall : ∀ m < 64, isContinuation (UInt8.ofNat (m + 128)) = true := by decide
  exact hall (n % 64) (Nat.mod_lt n (by omega))

/-- The bits of a continuation byte. -/
theorem toNat_continuation_bits (n : Nat) : (continuation n &&& 0x3f).toNat = n % 64 := by
  rw [show (0x3f : UInt8) = UInt8.ofNat (2 ^ 6 - 1) from rfl, toNat_and_mask _ 6 (by omega),
    toNat_continuation]
  omega

/-! ## §2. One character. -/

/-- The branches of `utf8Step` behind a lead byte: the continuation bytes `need`, the least number
that may be written with them, and the bits of the lead byte. -/
def utf8Sequence (rest : List UInt8) (need least lead : Nat) : Utf8Step :=
  if rest.length < need then
    if rest.all isContinuation then .endOfString else .invalid
  else
    let tail := rest.take need
    let code := tail.foldl (fun code t => code * 0x40 + (t &&& 0x3f).toNat) lead
    if tail.all isContinuation && least ≤ code && code ≤ 0x10ffff
        && !(0xd800 ≤ code && code < 0xe000)
      then .scalar code need else .invalid

/-- What a first byte announces. -/
theorem utf8Step_eq (b : UInt8) (rest : List UInt8) :
    utf8Step b rest =
      if b < 0x80 then .scalar b.toNat 0
      else if b ≤ 0xc1 then .invalid
      else if b < 0xe0 then utf8Sequence rest 1 0x80 (b &&& 0x1f).toNat
      else if b < 0xf0 then utf8Sequence rest 2 0x800 (b &&& 0x0f).toNat
      else if b < 0xf5 then utf8Sequence rest 3 0x10000 (b &&& 0x07).toNat
      else .invalid := rfl

/-- The continuation bytes that are asked for stand there, and give a scalar value. -/
theorem utf8Sequence_scalar {ts : List UInt8} {need least lead code : Nat} (rest : List UInt8)
    (hneed : ts.length = need) (hall : ts.all isContinuation = true)
    (hcode : ts.foldl (fun code t => code * 0x40 + (t &&& 0x3f).toNat) lead = code)
    (hleast : least ≤ code) (hmost : code ≤ 0x10ffff) (hplain : ¬ (0xd800 ≤ code ∧ code < 0xe000)) :
    utf8Sequence (ts ++ rest) need least lead = .scalar code need := by
  unfold utf8Sequence
  rw [if_neg (by rw [List.length_append]; omega), ← hneed, List.take_left]
  dsimp only
  rw [hcode, hall, if_pos]
  simp only [Bool.true_and, Bool.and_eq_true, decide_eq_true_eq, Bool.not_eq_true',
    Bool.and_eq_false_iff, decide_eq_false_iff_not]
  omega

/-- A byte with its high bits set to `base` and its low `k` bits to those of `n`. -/
theorem toNat_lead (base : Nat) {k n : Nat} (hk : k < 8) (hbase : base % 2 ^ k = 0)
    (hfits : n + base < 256) (hn : n < 2 ^ k) :
    (UInt8.ofNat (n + base)).toNat = n + base ∧
      (UInt8.ofNat (n + base) &&& UInt8.ofNat (2 ^ k - 1)).toNat = n := by
  have hbyte : (UInt8.ofNat (n + base)).toNat = n + base := by
    rw [UInt8.toNat_ofNat']
    exact Nat.mod_eq_of_lt hfits
  refine ⟨hbyte, ?_⟩
  rw [toNat_and_mask _ k hk, hbyte, Nat.add_mod, hbase, Nat.add_zero, Nat.mod_mod]
  exact Nat.mod_eq_of_lt hn

/-- A sequence of one byte. -/
theorem utf8Step_one {v : Nat} (h : v ≤ 0x7f) (rest : List UInt8) :
    utf8Step (UInt8.ofNat v) rest = .scalar v 0 := by
  have hb : (UInt8.ofNat v).toNat = v := by
    rw [UInt8.toNat_ofNat']
    omega
  rw [utf8Step_eq, if_pos, hb]
  rw [UInt8.lt_iff_toNat_lt, hb]
  show v < 128
  omega

/-- A sequence of two bytes. -/
theorem utf8Step_two {v : Nat} (hleast : 0x80 ≤ v) (hmost : v ≤ 0x7ff) (rest : List UInt8) :
    utf8Step (UInt8.ofNat (v / 64 % 0x20 + 0xc0)) ([continuation v] ++ rest) = .scalar v 1 := by
  have hn : v / 64 % 0x20 < 2 ^ 5 := by omega
  obtain ⟨hb, hbits⟩ := toNat_lead 0xc0 (by omega) rfl (by omega) hn
  rw [utf8Step_eq, if_neg (by rw [UInt8.lt_iff_toNat_lt, hb]; show ¬ _ < 128; omega),
    if_neg (by rw [UInt8.le_iff_toNat_le, hb]; show ¬ _ ≤ 0xc1; omega),
    if_pos (by rw [UInt8.lt_iff_toNat_lt, hb]; show _ < 0xe0; omega)]
  refine utf8Sequence_scalar rest rfl ?_ ?_ hleast (by omega) (by omega)
  · simp [isContinuation_continuation]
  · rw [show (0x1f : UInt8) = UInt8.ofNat (2 ^ 5 - 1) from rfl, hbits]
    simp only [List.foldl_cons, List.foldl_nil, toNat_continuation_bits]
    omega

/-- A sequence of three bytes. -/
theorem utf8Step_three {v : Nat} (hleast : 0x800 ≤ v) (hmost : v ≤ 0xffff)
    (hplain : ¬ (0xd800 ≤ v ∧ v < 0xe000)) (rest : List UInt8) :
    utf8Step (UInt8.ofNat (v / 4096 % 0x10 + 0xe0))
      ([continuation (v / 64), continuation v] ++ rest) = .scalar v 2 := by
  have hn : v / 4096 % 0x10 < 2 ^ 4 := by omega
  obtain ⟨hb, hbits⟩ := toNat_lead 0xe0 (by omega) rfl (by omega) hn
  rw [utf8Step_eq, if_neg (by rw [UInt8.lt_iff_toNat_lt, hb]; show ¬ _ < 128; omega),
    if_neg (by rw [UInt8.le_iff_toNat_le, hb]; show ¬ _ ≤ 0xc1; omega),
    if_neg (by rw [UInt8.lt_iff_toNat_lt, hb]; show ¬ _ < 0xe0; omega),
    if_pos (by rw [UInt8.lt_iff_toNat_lt, hb]; show _ < 0xf0; omega)]
  refine utf8Sequence_scalar rest rfl ?_ ?_ hleast (by omega) hplain
  · simp [isContinuation_continuation]
  · rw [show (0x0f : UInt8) = UInt8.ofNat (2 ^ 4 - 1) from rfl, hbits]
    simp only [List.foldl_cons, List.foldl_nil, toNat_continuation_bits]
    omega

/-- A sequence of four bytes. -/
theorem utf8Step_four {v : Nat} (hleast : 0x10000 ≤ v) (hmost : v ≤ 0x10ffff) (rest : List UInt8) :
    utf8Step (UInt8.ofNat (v / 262144 % 0x08 + 0xf0))
      ([continuation (v / 4096), continuation (v / 64), continuation v] ++ rest)
        = .scalar v 3 := by
  have hn : v / 262144 % 0x08 < 2 ^ 3 := by omega
  obtain ⟨hb, hbits⟩ := toNat_lead 0xf0 (by omega) rfl (by omega) hn
  rw [utf8Step_eq, if_neg (by rw [UInt8.lt_iff_toNat_lt, hb]; show ¬ _ < 128; omega),
    if_neg (by rw [UInt8.le_iff_toNat_le, hb]; show ¬ _ ≤ 0xc1; omega),
    if_neg (by rw [UInt8.lt_iff_toNat_lt, hb]; show ¬ _ < 0xe0; omega),
    if_neg (by rw [UInt8.lt_iff_toNat_lt, hb]; show ¬ _ < 0xf0; omega),
    if_pos (by rw [UInt8.lt_iff_toNat_lt, hb]; show _ < 0xf5; omega)]
  refine utf8Sequence_scalar rest rfl ?_ ?_ hleast hmost (by omega)
  · simp [isContinuation_continuation]
  · rw [show (0x07 : UInt8) = UInt8.ofNat (2 ^ 3 - 1) from rfl, hbits]
    simp only [List.foldl_cons, List.foldl_nil, toNat_continuation_bits]
    omega

/-- **One character**: its first byte asks for the others, and they give its number. -/
theorem utf8Step_char (c : Char) : ∃ b ts, String.utf8EncodeChar c = b :: ts ∧
    ∀ rest, utf8Step b (ts ++ rest) = .scalar c.toNat ts.length := by
  have hvalid : c.toNat < 0xd800 ∨ (0xdfff < c.toNat ∧ c.toNat < 0x110000) := c.valid
  unfold String.utf8EncodeChar
  dsimp only
  rw [show c.val.toNat = c.toNat from rfl]
  generalize c.toNat = v at hvalid ⊢
  -- as many bytes as the number needs
  split
  · next hone => exact ⟨_, [], rfl, utf8Step_one hone⟩
  · split
    · next hone htwo => exact ⟨_, _, rfl, utf8Step_two (by omega) htwo⟩
    · split
      · next htwo hthree => exact ⟨_, _, rfl, utf8Step_three (by omega) hthree (by omega)⟩
      · next hthree => exact ⟨_, _, rfl, utf8Step_four (by omega) (by omega)⟩

/-! ## §3. Strings. -/

/-- The bytes that a character has used up are skipped. -/
theorem decodeUtf8_skip (ts rest : List UInt8) :
    decodeUtf8 ts.length (ts ++ rest) = decodeUtf8 0 rest := by
  induction ts with
  | nil => rfl
  | cons t ts ih => exact ih

/-- **The decoder's loop**: of a string in UTF-8 it gives the characters. -/
theorem decodeUtf8_utf8 (s : Text) : decodeUtf8 0 (utf8 s) = s.flatMap utf16 := by
  induction s with
  | nil => rfl
  | cons c s ih =>
    obtain ⟨b, ts, hbytes, hstep⟩ := utf8Step_char c
    -- one turn of the loop, and the bytes it leaves out
    rw [utf8, List.flatMap_cons, hbytes, List.cons_append, decodeUtf8, hstep]
    dsimp only
    rw [Char.ofNat_toNat, decodeUtf8_skip, List.flatMap_cons, ← ih]
    rfl

/-- The byte order mark. -/
def byteOrderMark : Char := Char.ofNat 0xfeff

/-- The byte order mark is a sequence of three bytes. -/
theorem utf8Step_byteOrderMark (rest : List UInt8) :
    utf8Step 0xef (0xbb :: 0xbf :: rest) = .scalar 0xfeff 2 := by
  obtain ⟨b, ts, hbytes, hstep⟩ := utf8Step_char byteOrderMark
  have hmark : String.utf8EncodeChar byteOrderMark = [0xef, 0xbb, 0xbf] := rfl
  rw [hmark, List.cons.injEq] at hbytes
  obtain ⟨rfl, rfl⟩ := hbytes
  exact hstep rest

/-- The bytes of a byte order mark stand for nothing else. -/
theorem byteOrderMark_prefix_iff (s : Text) :
    [0xef, 0xbb, 0xbf].isPrefixOf (utf8 s) = true ↔ s.head? = some byteOrderMark := by
  cases s with
  | nil => simp [utf8]
  | cons c s =>
    rw [List.isPrefixOf_iff_prefix, List.head?_cons, Option.some.injEq]
    constructor
    · intro hprefix
      obtain ⟨b, ts, hbytes, hstep⟩ := utf8Step_char c
      obtain ⟨rest, hrest⟩ := hprefix
      rw [utf8, List.flatMap_cons, hbytes] at hrest
      obtain ⟨rfl, htail⟩ := List.cons.inj hrest
      have hmark : utf8Step 0xef (0xbb :: 0xbf :: rest) = .scalar c.toNat ts.length := by
        rw [show 0xbb :: 0xbf :: rest = ts ++ s.flatMap String.utf8EncodeChar from htail]
        exact hstep _
      have hcode := (Utf8Step.scalar.inj ((utf8Step_byteOrderMark rest).symm.trans hmark)).1
      rw [byteOrderMark, hcode, Char.ofNat_toNat]
    · rintro rfl
      rw [utf8, List.flatMap_cons]
      exact List.prefix_append _ _

/-- **The decoder**: it gives the characters behind an initial byte order mark. -/
theorem fromUtf8_utf8 (s : Text) :
    fromUtf8 (utf8 s) = (if s.head? = some byteOrderMark then s.tail else s).flatMap utf16 := by
  unfold fromUtf8
  by_cases hmark : s.head? = some byteOrderMark
  · rw [if_pos ((byteOrderMark_prefix_iff s).mpr hmark), if_pos hmark]
    obtain ⟨rest, rfl⟩ := List.head?_eq_some_iff.mp hmark
    exact decodeUtf8_utf8 rest
  · rw [if_neg (mt (byteOrderMark_prefix_iff s).mp hmark), if_neg hmark]
    exact decodeUtf8_utf8 s

/-! ## §4. And back. -/

/-- A unit that begins no pair is a character. -/
theorem toUnicode_cons {u : QChar} (h : isHighSurrogate u = false) (rest : QString) :
    toUnicode (u :: rest) = scalarOf u :: toUnicode rest := by
  cases rest with
  | nil => rfl
  | cons v rest =>
    show (if (isHighSurrogate u && isLowSurrogate v) = true then _ else _) = _
    rw [h, Bool.false_and, if_neg Bool.false_ne_true]

/-- A pair is a character. -/
theorem toUnicode_surrogates {u v : QChar} (hu : isHighSurrogate u = true)
    (hv : isLowSurrogate v = true) (rest : QString) : toUnicode (u :: v :: rest)
      = Char.ofNat (0x10000 + (u.toNat - 0xd800) * 0x400 + (v.toNat - 0xdc00)) :: toUnicode rest := by
  show (if (isHighSurrogate u && isLowSurrogate v) = true then _ else _) = _
  rw [hu, hv, Bool.true_and, if_pos rfl]

/-- The first halves, as numbers. -/
theorem isHighSurrogate_iff (u : QChar) :
    isHighSurrogate u = true ↔ 0xd800 ≤ u.toNat ∧ u.toNat < 0xdc00 := by
  unfold isHighSurrogate
  rw [Bool.and_eq_true, decide_eq_true_eq, decide_eq_true_eq, UInt16.le_iff_toNat_le,
    UInt16.lt_iff_toNat_lt]
  rfl

/-- The second halves, as numbers. -/
theorem isLowSurrogate_iff (u : QChar) :
    isLowSurrogate u = true ↔ 0xdc00 ≤ u.toNat ∧ u.toNat < 0xe000 := by
  unfold isLowSurrogate
  rw [Bool.and_eq_true, decide_eq_true_eq, decide_eq_true_eq, UInt16.le_iff_toNat_le,
    UInt16.lt_iff_toNat_lt]
  rfl

/-- A small number is itself as a unit. -/
theorem toNat_toUInt16 {n : Nat} (h : n < 0x10000) : n.toUInt16.toNat = n :=
  UInt16.toNat_ofNat_of_lt' h

/-- The units of a character are read as it. -/
theorem toUnicode_append (c : Char) (rest : QString) :
    toUnicode (utf16 c ++ rest) = c :: toUnicode rest := by
  have hvalid : c.toNat < 0xd800 ∨ (0xdfff < c.toNat ∧ c.toNat < 0x110000) := c.valid
  have hchar : Char.ofNat c.toNat = c := Char.ofNat_toNat c
  unfold utf16
  generalize c.toNat = v at hvalid hchar ⊢
  split
  · next hsmall =>
    have hunit := toNat_toUInt16 hsmall
    have hhigh : isHighSurrogate v.toUInt16 = false := by
      rw [Bool.eq_false_iff, Ne, isHighSurrogate_iff, hunit]
      omega
    have hlow : isLowSurrogate v.toUInt16 = false := by
      rw [Bool.eq_false_iff, Ne, isLowSurrogate_iff, hunit]
      omega
    rw [List.singleton_append, toUnicode_cons hhigh]
    unfold scalarOf
    rw [hhigh, hlow, Bool.false_or, if_neg Bool.false_ne_true, hunit, hchar]
  · next hlarge =>
    have hu : (0xd800 + (v - 0x10000) / 0x400).toUInt16.toNat
        = 0xd800 + (v - 0x10000) / 0x400 := toNat_toUInt16 (by omega)
    have hl : (0xdc00 + (v - 0x10000) % 0x400).toUInt16.toNat
        = 0xdc00 + (v - 0x10000) % 0x400 := toNat_toUInt16 (by omega)
    have hhigh := (isHighSurrogate_iff (0xd800 + (v - 0x10000) / 0x400).toUInt16).mpr
      (by rw [hu]; omega)
    have hlow := (isLowSurrogate_iff (0xdc00 + (v - 0x10000) % 0x400).toUInt16).mpr
      (by rw [hl]; omega)
    have hcode : 0x10000 + (0xd800 + (v - 0x10000) / 0x400 - 0xd800) * 0x400
        + (0xdc00 + (v - 0x10000) % 0x400 - 0xdc00) = v := by omega
    rw [List.cons_append, List.singleton_append, toUnicode_surrogates hhigh hlow, hu, hl, hcode,
      hchar]

/-- The units of a text are read as it. -/
theorem toUnicode_utf16 (s : Text) : toUnicode (s.flatMap utf16) = s := by
  induction s with
  | nil => rfl
  | cons c s ih => rw [List.flatMap_cons, toUnicode_append, ih]

/-- No surrogate stands alone. -/
def wellFormed : QString → Bool
  | [] => true
  | [u] => !(isHighSurrogate u || isLowSurrogate u)
  | u :: v :: rest =>
    if isHighSurrogate u && isLowSurrogate v then wellFormed rest
    else !(isHighSurrogate u || isLowSurrogate u) && wellFormed (v :: rest)

/-- A valid number is itself as a character. -/
theorem toNat_ofNat_char {n : Nat} (h : n.isValidChar) : (Char.ofNat n).toNat = n := by
  unfold Char.ofNat
  rw [dif_pos h]
  rfl

/-- A unit that is no surrogate is a character of its own. -/
theorem utf16_scalarOf {u : QChar} (h : (isHighSurrogate u || isLowSurrogate u) = false) :
    utf16 (scalarOf u) = [u] := by
  have hlt : u.toNat < 0x10000 := u.toNat_lt
  have hchar : (Char.ofNat u.toNat).toNat = u.toNat := by
    refine toNat_ofNat_char ?_
    rw [Bool.or_eq_false_iff, Bool.eq_false_iff, Bool.eq_false_iff, Ne, Ne, isHighSurrogate_iff,
      isLowSurrogate_iff] at h
    unfold Nat.isValidChar
    omega
  unfold scalarOf utf16
  rw [h, if_neg Bool.false_ne_true, hchar, if_pos hlt]
  exact congrArg (fun v => [v]) UInt16.ofNat_toNat

/-- A surrogate that stands alone is not what comes back. -/
theorem head_utf16_scalarOf {u : QChar} (h : (isHighSurrogate u || isLowSurrogate u) = true)
    (rest : QString) : utf16 (scalarOf u) ++ rest = 0x3f :: rest ∧ u ≠ 0x3f := by
  constructor
  · unfold scalarOf
    rw [h, if_pos rfl]
    rfl
  · rintro rfl
    revert h
    decide

/-- The two surrogates of a character. -/
theorem utf16_surrogates {u v : QChar} (hu : isHighSurrogate u = true)
    (hv : isLowSurrogate v = true) :
    utf16 (Char.ofNat (0x10000 + (u.toNat - 0xd800) * 0x400 + (v.toNat - 0xdc00))) = [u, v] := by
  rw [isHighSurrogate_iff] at hu
  rw [isLowSurrogate_iff] at hv
  have hchar := toNat_ofNat_char (n := 0x10000 + (u.toNat - 0xd800) * 0x400 + (v.toNat - 0xdc00))
    (by unfold Nat.isValidChar; omega)
  have hhigh : 0xd800 + (0x10000 + (u.toNat - 0xd800) * 0x400 + (v.toNat - 0xdc00) - 0x10000) / 0x400
      = u.toNat := by omega
  have hlow : 0xdc00 + (0x10000 + (u.toNat - 0xd800) * 0x400 + (v.toNat - 0xdc00) - 0x10000) % 0x400
      = v.toNat := by omega
  unfold utf16
  rw [hchar, if_neg (by omega), hhigh, hlow]
  exact congrArg₂ (fun x y => [x, y]) UInt16.ofNat_toNat UInt16.ofNat_toNat

/-- **Which texts come through as they are**: those in which no surrogate stands alone. -/
theorem utf16_toUnicode_iff (s : QString) :
    (toUnicode s).flatMap utf16 = s ↔ wellFormed s = true := by
  induction s using wellFormed.induct with
  | case1 => exact iff_of_true rfl rfl
  | case2 u =>
    show utf16 (scalarOf u) ++ [] = [u] ↔ (!(isHighSurrogate u || isLowSurrogate u)) = true
    cases h : isHighSurrogate u || isLowSurrogate u with
    | false =>
      rw [utf16_scalarOf h]
      exact iff_of_true rfl rfl
    | true =>
      obtain ⟨hhead, hne⟩ := head_utf16_scalarOf h []
      rw [hhead]
      exact iff_of_false (fun heq => hne (List.cons.inj heq).1.symm) nofun
  | case3 u v rest hpair ih =>
    obtain ⟨hu, hv⟩ := Bool.and_eq_true_iff.mp hpair
    rw [toUnicode_surrogates hu hv, List.flatMap_cons, utf16_surrogates hu hv, wellFormed,
      if_pos hpair, ← ih]
    exact List.append_right_inj [u, v]
  | case4 u v rest hpair ih =>
    have hscalar : toUnicode (u :: v :: rest) = scalarOf u :: toUnicode (v :: rest) := if_neg hpair
    rw [hscalar, List.flatMap_cons, wellFormed, if_neg hpair]
    cases h : isHighSurrogate u || isLowSurrogate u with
    | false =>
      rw [utf16_scalarOf h, Bool.not_false, Bool.true_and, ← ih]
      exact List.append_right_inj [u]
    | true =>
      obtain ⟨hhead, hne⟩ := head_utf16_scalarOf h ((toUnicode (v :: rest)).flatMap utf16)
      rw [hhead]
      exact iff_of_false (fun heq => hne (List.cons.inj heq).1.symm) nofun

/-- **The encoder**: of the units of characters it gives their bytes. -/
theorem toUtf8_utf16 (s : Text) : toUtf8 (s.flatMap utf16) = utf8 s := by
  unfold toUtf8
  rw [toUnicode_utf16]
  rfl

end ResearchSSH.App
