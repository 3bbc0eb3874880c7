/-
  ResearchSSH.Core.TextDecoding — the text that bytes stand for.

  `String::from_utf8` takes the bytes of a text and no others.  `to_string_lossy` takes all: it
  reads them one after another, and where they stop being UTF-8, what was read of the character is
  dropped for U+FFFD and the byte at hand is read as the first of the next one.

  Main results:
    * `fromUtf8_eq_some`   — the texts that are read.
    * `toStringLossy_utf8` — nothing is lost of a text in UTF-8.
-/

import ResearchSSH.Core.Ffi

namespace ResearchSSH.Core

/-! ## §1. `from_utf8`. -/

/-- `String::from_utf8`. -/
def fromUtf8 (bytes : List UInt8) : Option Text :=
  (String.fromUTF8? bytes.toByteArray).map String.toList

/-- The bytes are those of a text. -/
def ValidUtf8 (bytes : List UInt8) : Prop := ∃ s : Text, utf8 s = bytes

/-- A text is read from its own bytes and no others. -/
theorem fromUtf8_eq_some {bytes : List UInt8} {s : Text} :
    fromUtf8 bytes = some s ↔ utf8 s = bytes := by
  have hbytes : (String.ofList s).toByteArray = bytes.toByteArray ↔ utf8 s = bytes := by
    rw [String.toByteArray_ofList]
    constructor
    · intro h
      have hlist := congrArg (fun b => b.data.toList) h
      simpa only [utf8, List.utf8Encode, List.toList_data_toByteArray] using hlist
    · intro h
      exact congrArg List.toByteArray h
  rw [← hbytes]
  unfold fromUtf8 String.fromUTF8?
  split
  · next hvalid =>
    have hsame : String.fromUTF8 bytes.toByteArray hvalid = String.ofList s ↔
        (String.ofList s).toByteArray = bytes.toByteArray :=
      String.toByteArray_inj.symm.trans eq_comm
    rw [Option.map_some, Option.some.injEq, ← hsame, ← String.toList_inj, String.toList_ofList]
  · next hinvalid =>
    refine iff_of_false nofun fun h => hinvalid ?_
    rw [← h]
    exact (String.ofList s).isValidUTF8

/-- Different texts have different bytes. -/
theorem utf8_inj {s t : Text} : utf8 s = utf8 t ↔ s = t := by
  constructor
  · intro h
    exact Option.some.inj ((fromUtf8_eq_some.mpr h).symm.trans (fromUtf8_eq_some.mpr rfl))
  · rintro rfl
    rfl

theorem validUtf8_iff {bytes : List UInt8} : ValidUtf8 bytes ↔ (fromUtf8 bytes).isSome := by
  rw [Option.isSome_iff_exists]
  exact exists_congr fun s => fromUtf8_eq_some.symm

/-! ## §2. The machine. -/

/-- A character of which bytes are owed: how many, the bounds of the next one, and the bits that
have been read. -/
structure Pending where
  owed : Nat
  low : Nat
  high : Nat
  code : Nat
  deriving DecidableEq, Repr

/-- The first byte of a character of two to four. -/
def opens (n : Nat) : Option Pending :=
  if 0xc2 ≤ n ∧ n ≤ 0xdf then some { owed := 1, low := 0x80, high := 0xbf, code := n - 0xc0 }
  else if n = 0xe0 then some { owed := 2, low := 0xa0, high := 0xbf, code := 0 }
  else if n = 0xed then some { owed := 2, low := 0x80, high := 0x9f, code := 0xd }
  else if 0xe1 ≤ n ∧ n ≤ 0xef then some { owed := 2, low := 0x80, high := 0xbf, code := n - 0xe0 }
  else if n = 0xf0 then some { owed := 3, low := 0x90, high := 0xbf, code := 0 }
  else if n = 0xf4 then some { owed := 3, low := 0x80, high := 0x8f, code := 4 }
  else if 0xf1 ≤ n ∧ n ≤ 0xf3 then some { owed := 3, low := 0x80, high := 0xbf, code := n - 0xf0 }
  else none

/-- U+FFFD. -/
def replacementChar : Char := Char.ofNat 0xfffd

/-- A byte where a character starts. -/
def firstByte (n : Nat) : Text × Option Pending :=
  if n < 0x80 then ([Char.ofNat n], none)
  else
    match opens n with
    | some p => ([], some p)
    | none => ([replacementChar], none)

/-- A byte that is not the last one: any may come next. -/
def Pending.more (p : Pending) (n : Nat) : Pending :=
  { owed := p.owed - 1, low := 0x80, high := 0xbf, code := p.code * 0x40 + n % 0x40 }

/-- A byte, and the character it may belong to. -/
def nextByte : Option Pending → Nat → Text × Option Pending
  | none, n => firstByte n
  | some p, n =>
    if p.low ≤ n ∧ n ≤ p.high then
      if p.owed = 1 then ([Char.ofNat (p.code * 0x40 + n % 0x40)], none) else ([], some (p.more n))
    -- What was read is given up; the byte at hand may still begin a character.
    else (replacementChar :: (firstByte n).1, (firstByte n).2)

/-- `from_utf8_lossy`, within a character or between two. -/
def lossyFrom : Option Pending → List UInt8 → Text
  | none, [] => []
  -- the text ends within a character
  | some _, [] => [replacementChar]
  | q, b :: bytes => (nextByte q b.toNat).1 ++ lossyFrom (nextByte q b.toNat).2 bytes

/-- `String::from_utf8_lossy`. -/
def toStringLossy (bytes : List UInt8) : Text := lossyFrom none bytes

/-! ## §3. One character. -/

theorem lossyFrom_ascii {n : Nat} (h : n < 0x80) (bytes : List UInt8) :
    lossyFrom none (UInt8.ofNat n :: bytes) = Char.ofNat n :: lossyFrom none bytes := by
  have hn : (UInt8.ofNat n).toNat = n := by
    rw [UInt8.toNat_ofNat']
    omega
  rw [lossyFrom, hn, nextByte, firstByte, if_pos h]
  rfl

theorem lossyFrom_first {n : Nat} {p : Pending} (hlow : 0x80 ≤ n) (hhigh : n < 0x100)
    (h : opens n = some p) (bytes : List UInt8) :
    lossyFrom none (UInt8.ofNat n :: bytes) = lossyFrom (some p) bytes := by
  have hn : (UInt8.ofNat n).toNat = n := by
    rw [UInt8.toNat_ofNat']
    omega
  rw [lossyFrom, hn, nextByte, firstByte, if_neg (by omega), h]
  rfl

/-- A byte that carries six more bits. -/
theorem lossyFrom_more {p : Pending} {n : Nat} (hlow : p.low ≤ n % 0x40 + 0x80)
    (hhigh : n % 0x40 + 0x80 ≤ p.high) (howed : p.owed ≠ 1) (bytes : List UInt8) :
    lossyFrom (some p) (UInt8.ofNat (n % 0x40 + 0x80) :: bytes)
      = lossyFrom (some (p.more n)) bytes := by
  have hn : (UInt8.ofNat (n % 0x40 + 0x80)).toNat = n % 0x40 + 0x80 := by
    rw [UInt8.toNat_ofNat']
    omega
  have hbits : (n % 0x40 + 0x80) % 0x40 = n % 0x40 := by omega
  rw [lossyFrom, hn, nextByte, if_pos ⟨hlow, hhigh⟩, if_neg howed, Pending.more, hbits]
  rfl

theorem lossyFrom_last {p : Pending} {n : Nat} (hlow : p.low ≤ n % 0x40 + 0x80)
    (hhigh : n % 0x40 + 0x80 ≤ p.high) (howed : p.owed = 1) (bytes : List UInt8) :
    lossyFrom (some p) (UInt8.ofNat (n % 0x40 + 0x80) :: bytes)
      = Char.ofNat (p.code * 0x40 + n % 0x40) :: lossyFrom none bytes := by
  have hn : (UInt8.ofNat (n % 0x40 + 0x80)).toNat = n % 0x40 + 0x80 := by
    rw [UInt8.toNat_ofNat']
    omega
  have hbits : (n % 0x40 + 0x80) % 0x40 = n % 0x40 := by omega
  rw [lossyFrom, hn, nextByte, if_pos ⟨hlow, hhigh⟩, if_pos howed, hbits]
  rfl

/-- What the first of three bytes opens: the next one is bounded so that no number is written
with too many bytes, and no surrogate is written at all. -/
theorem opens_three {v : Nat} (hleast : 0x800 ≤ v) (hmost : v ≤ 0xffff)
    (hplain : ¬ (0xd800 ≤ v ∧ v < 0xe000)) :
    ∃ p, opens (v / 4096 % 0x10 + 0xe0) = some p ∧ p.owed = 2 ∧ p.code = v / 4096 ∧
      p.low ≤ v / 64 % 0x40 + 0x80 ∧ v / 64 % 0x40 + 0x80 ≤ p.high := by
  unfold opens
  rw [if_neg (by omega)]
  split
  · exact ⟨_, rfl, rfl, by dsimp only; omega, by dsimp only; omega, by dsimp only; omega⟩
  · split
    · exact ⟨_, rfl, rfl, by dsimp only; omega, by dsimp only; omega, by dsimp only; omega⟩
    · rw [if_pos (by omega)]
      exact ⟨_, rfl, rfl, by dsimp only; omega, by dsimp only; omega, by dsimp only; omega⟩

theorem opens_four {v : Nat} (hleast : 0x10000 ≤ v) (hmost : v ≤ 0x10ffff) :
    ∃ p, opens (v / 262144 % 0x08 + 0xf0) = some p ∧ p.owed = 3 ∧ p.code = v / 262144 ∧
      p.low ≤ v / 4096 % 0x40 + 0x80 ∧ v / 4096 % 0x40 + 0x80 ≤ p.high := by
  unfold opens
  rw [if_neg (by omega), if_neg (by omega), if_neg (by omega), if_neg (by omega)]
  split
  · exact ⟨_, rfl, rfl, by dsimp only; omega, by dsimp only; omega, by dsimp only; omega⟩
  · split
    · exact ⟨_, rfl, rfl, by dsimp only; omega, by dsimp only; omega, by dsimp only; omega⟩
    · rw [if_pos (by omega)]
      exact ⟨_, rfl, rfl, by dsimp only; omega, by dsimp only; omega, by dsimp only; omega⟩

theorem lossyFrom_char (c : Char) (bytes : List UInt8) :
    lossyFrom none (String.utf8EncodeChar c ++ bytes) = c :: lossyFrom none bytes := by
  have hvalid : c.toNat < 0xd800 ∨ (0xdfff < c.toNat ∧ c.toNat < 0x110000) := c.valid
  have hback : Char.ofNat c.toNat = c := Char.ofNat_toNat c
  unfold String.utf8EncodeChar
  dsimp only
  rw [show c.val.toNat = c.toNat from rfl]
  generalize c.toNat = v at hvalid hback ⊢
  -- as many bytes as the number needs
  split
  · rw [List.cons_append, List.nil_append, lossyFrom_ascii (by omega), hback]
  · split
    · have hopens : opens (v / 64 % 0x20 + 0xc0)
          = some { owed := 1, low := 0x80, high := 0xbf, code := v / 64 % 0x20 + 0xc0 - 0xc0 } :=
        if_pos (by omega)
      have hcode : (v / 64 % 0x20 + 0xc0 - 0xc0) * 0x40 + v % 0x40 = v := by omega
      rw [List.cons_append, List.cons_append, List.nil_append,
        lossyFrom_first (by omega) (by omega) hopens,
        lossyFrom_last (by dsimp only; omega) (by dsimp only; omega) rfl, hcode, hback]
    · split
      · obtain ⟨p, hopens, howed, hcode, hlow, hhigh⟩ :=
          opens_three (v := v) (by omega) (by omega) (by omega)
        have hall : (v / 4096 * 0x40 + v / 64 % 0x40) * 0x40 + v % 0x40 = v := by omega
        rw [List.cons_append, List.cons_append, List.cons_append, List.nil_append,
          lossyFrom_first (by omega) (by omega) hopens,
          lossyFrom_more hlow hhigh (by omega), Pending.more, howed, hcode,
          lossyFrom_last (by dsimp only; omega) (by dsimp only; omega) rfl, hall, hback]
      · obtain ⟨p, hopens, howed, hcode, hlow, hhigh⟩ :=
          opens_four (v := v) (by omega) (by omega)
        have hall : ((v / 262144 * 0x40 + v / 4096 % 0x40) * 0x40 + v / 64 % 0x40) * 0x40
            + v % 0x40 = v := by omega
        rw [List.cons_append, List.cons_append, List.cons_append, List.cons_append,
          List.nil_append, lossyFrom_first (by omega) (by omega) hopens,
          lossyFrom_more hlow hhigh (by omega), Pending.more, howed, hcode,
          lossyFrom_more (by dsimp only; omega) (by dsimp only; omega) (by dsimp only; omega),
          Pending.more,
          lossyFrom_last (by dsimp only; omega) (by dsimp only; omega) rfl, hall, hback]

/-- **Nothing is lost of a text in UTF-8.** -/
theorem toStringLossy_utf8 (s : Text) : toStringLossy (utf8 s) = s := by
  unfold toStringLossy
  induction s with
  | nil => rfl
  | cons c s ih =>
    rw [utf8, List.flatMap_cons, lossyFrom_char]
    exact congrArg (c :: ·) ih

end ResearchSSH.Core
