/-
  ResearchSSH.App.Numerals — numbers written in digits, and texts that are read as numbers.

  A text is read as an `int` only if the number fits, and as a double whatever its size; what the
  number is rounded to is the business of the format.

  Main results:
    * `number_injective`  — no two numbers are written alike.
    * `toInt_number`      — a number is read back if it fits.
    * `toDouble_text`     — a decimal is read as the double next to it.
-/

import ResearchSSH.App.Utf8
import ResearchSSH.Library.Binary64
import ResearchSSH.Library.Cells

namespace ResearchSSH.App

open ResearchSSH.Library

/-! ## §1. Numbers. -/

/-- A decimal digit is one of `0` to `9`. -/
theorem bounds_of_mem_toDigits {c : Char} {n : Nat} (h : c ∈ Nat.toDigits 10 n) :
    48 ≤ c.toNat ∧ c.toNat ≤ 57 := by
  have hdigit := Nat.isDigit_of_mem_toDigits (by decide) (by decide) h
  unfold Char.isDigit at hdigit
  rw [Bool.and_eq_true, decide_eq_true_eq, decide_eq_true_eq] at hdigit
  exact hdigit

/-- A number is printed by its decimal digits. -/
theorem number_eq (n : Nat) :
    number n = (Nat.toDigits 10 n).map fun c => c.toNat.toUInt16 := by
  have hdigit : ∀ c ∈ Nat.toDigits 10 n, utf16 c = [c.toNat.toUInt16] := by
    intro c hc
    have hbounds := bounds_of_mem_toDigits hc
    unfold utf16
    rw [if_pos (by omega)]
  show (toString n).toList.flatMap utf16 = _
  rw [Nat.toString_eq_ofList_toDigits, String.toList_ofList, List.flatMap_congr hdigit]
  exact (List.map_eq_flatMap).symm

/-- A number has a digit. -/
theorem number_ne_nil (n : Nat) : number n ≠ [] := by
  rw [number_eq]
  exact fun h => Nat.toDigits_ne_nil (List.map_eq_nil_iff.mp h)

/-- A digit is read as its value. -/
theorem digitOf_digit {c : Char} (h : 48 ≤ c.toNat ∧ c.toNat ≤ 57) :
    digitOf c.toNat.toUInt16 = some (c.toNat - 48) := by
  have h30 : (0x30 : UInt16).toNat = 48 := rfl
  have h39 : (0x39 : UInt16).toNat = 57 := rfl
  have hunit : c.toNat.toUInt16.toNat = c.toNat := toNat_toUInt16 (by omega)
  unfold digitOf
  rw [if_pos, hunit]
  rw [Bool.and_eq_true, decide_eq_true_eq, decide_eq_true_eq, UInt16.le_iff_toNat_le,
    UInt16.le_iff_toNat_le, hunit]
  omega

/-- A number is all digits. -/
theorem digitOf_of_mem_number {u : QChar} {n : Nat} (h : u ∈ number n) :
    (digitOf u).isSome = true := by
  rw [number_eq] at h
  obtain ⟨c, hc, rfl⟩ := List.mem_map.mp h
  rw [digitOf_digit (bounds_of_mem_toDigits hc)]
  rfl

/-- Different numbers are printed differently. -/
theorem number_injective {a b : Nat} (h : number a = number b) : a = b := by
  have hdigits : Nat.toDigits 10 a = Nat.toDigits 10 b := by
    have hback : ∀ n, (number n).map (fun u => Char.ofNat u.toNat) = Nat.toDigits 10 n := by
      intro n
      rw [number_eq, List.map_map]
      refine (List.map_congr_left fun c hc => ?_).trans (List.map_id _)
      obtain ⟨hlow, hhigh⟩ := bounds_of_mem_toDigits hc
      show Char.ofNat c.toNat.toUInt16.toNat = c
      rw [toNat_toUInt16 (by omega), Char.ofNat_toNat]
    rw [← hback a, ← hback b, h]
  calc
    a = Nat.ofDigitChars 10 (Nat.toDigits 10 a) 0 := Nat.ofDigitChars_ten_toDigits.symm
    _ = Nat.ofDigitChars 10 (Nat.toDigits 10 b) 0 := by rw [hdigits]
    _ = b := Nat.ofDigitChars_ten_toDigits

/-- What is no digit is not in a number. -/
theorem notMem_number {u : QChar} (h : digitOf u = none) (n : Nat) : u ∉ number n := by
  intro hmem
  have hsome := digitOf_of_mem_number hmem
  rw [h] at hsome
  exact absurd hsome Bool.noConfusion

/-! ## §2. Reading a number. -/

/-- The number of a text of digits, behind those read already. -/
def readDigits : Nat → QString → Option Nat
  | n, [] => some n
  | n, u :: rest => (digitOf u).bind fun d => readDigits (10 * n + d) rest

/-- A text of digits. -/
def readNat (s : QString) : Option Nat := if s = [] then none else readDigits 0 s

/-- `QString::toInt`; `none` where `ok` is not set. -/
def toInt (s : QString) : Option Int :=
  let value : Option Int :=
    match trimmed s with
    | [] => none
    | u :: digits =>
      if u = 0x2d then (readNat digits).map fun n => -(n : Int)
      else if u = 0x2b then (readNat digits).map Int.ofNat
      else (readNat (u :: digits)).map Int.ofNat
  value.filter fun n => -(2 ^ 31) ≤ n ∧ n < 2 ^ 31

/-- A number with at most one point. -/
def readDecimal (s : QString) : Option ℚ :=
  match s.splitOnP (· == 0x2e) with
  | [whole] => (readNat whole).map fun n : Nat => (n : ℚ)
  | [whole, part] => (readNat (whole ++ part)).map fun n : Nat => (n : ℚ) / 10 ^ part.length
  | _ => none

/-- `QString::toDouble` of a text of digits and points: 0 where it is no number. -/
def toDouble (s : QString) : Binary64 :=
  match readDecimal s with
  | some x => .ofRat x
  | none => .finite 0

/-- Digits are read one after another. -/
theorem readDigits_append {a : QString} {m n : Nat} (h : readDigits n a = some m) (b : QString) :
    readDigits n (a ++ b) = readDigits m b := by
  induction a generalizing n with
  | nil =>
    rw [readDigits, Option.some.injEq] at h
    rw [h]
    rfl
  | cons u a ih =>
    rw [readDigits] at h
    rw [List.cons_append, readDigits]
    obtain ⟨d, hd, hrest⟩ := Option.bind_eq_some_iff.mp h
    rw [hd, Option.bind_some, ih hrest]

/-- The digits of a number are read as it. -/
theorem readDigits_number (n : Nat) : readDigits 0 (number n) = some n := by
  have hchars : ∀ (cs : List Char) (k : Nat), (∀ c ∈ cs, 48 ≤ c.toNat ∧ c.toNat ≤ 57) →
      readDigits k (cs.map fun c => c.toNat.toUInt16) = some (Nat.ofDigitChars 10 cs k) := by
    intro cs
    induction cs with
    | nil =>
      intro k _
      rw [Nat.ofDigitChars_nil]
      rfl
    | cons c cs ih =>
      intro k h
      rw [List.map_cons, readDigits, digitOf_digit (h c List.mem_cons_self), Option.bind_some,
        ih _ fun d hd => h d (List.mem_cons_of_mem c hd), Nat.ofDigitChars_cons]
      rfl
  rw [number_eq, hchars _ 0 fun c hc => bounds_of_mem_toDigits hc, Nat.ofDigitChars_ten_toDigits]

/-- A number that was printed is read again. -/
theorem readNat_number (n : Nat) : readNat (number n) = some n := by
  unfold readNat
  rw [if_neg (number_ne_nil n), readDigits_number]

/-- Between the space and the next one of Latin-1 there is none. -/
theorem not_space_of_bounds {u : QChar} (hlow : 0x21 ≤ u.toNat) (hhigh : u.toNat < 0x85) :
    isSpace u = false := by
  by_contra hspace
  rw [Bool.not_eq_false] at hspace
  unfold isSpace isSeparatorSpace at hspace
  simp only [Bool.and_eq_true, Bool.or_eq_true, decide_eq_true_eq, beq_iff_eq,
    UInt16.le_iff_toNat_le, ← UInt16.toNat_inj] at hspace
  simp only [UInt16.reduceToNat] at hspace
  omega

/-- What has a digit's value is one of `0` to `9`. -/
theorem bounds_of_digitOf {u : QChar} (h : (digitOf u).isSome = true) :
    0x30 ≤ u.toNat ∧ u.toNat ≤ 0x39 := by
  unfold digitOf at h
  split at h
  · next hbounds =>
    rw [Bool.and_eq_true, decide_eq_true_eq, decide_eq_true_eq, UInt16.le_iff_toNat_le,
      UInt16.le_iff_toNat_le] at hbounds
    exact hbounds
  · cases h

/-- No blank is in a number. -/
theorem isSpace_of_mem_number {u : QChar} {n : Nat} (h : u ∈ number n) : isSpace u = false := by
  obtain ⟨hlow, hhigh⟩ := bounds_of_digitOf (digitOf_of_mem_number h)
  exact not_space_of_bounds (by omega) (by omega)

/-- A number has nothing to trim. -/
theorem trimmed_number (n : Nat) : trimmed (number n) = number n :=
  trim_of_forall fun _ hu => isSpace_of_mem_number hu

/-- **A number is read back if it fits.** -/
theorem toInt_number (n : Nat) :
    toInt (number n) = if n < 2 ^ 31 then some (n : Int) else none := by
  obtain ⟨u, digits, hcons⟩ := List.exists_cons_of_ne_nil (number_ne_nil n)
  have hu : (digitOf u).isSome = true := digitOf_of_mem_number (by
    rw [hcons]
    exact List.mem_cons_self)
  have hminus : u ≠ 0x2d := by
    rintro rfl
    exact absurd hu (by decide)
  have hplus : u ≠ 0x2b := by
    rintro rfl
    exact absurd hu (by decide)
  have hread := readNat_number n
  unfold toInt
  rw [trimmed_number]
  rw [hcons] at hread ⊢
  dsimp only
  rw [if_neg hminus, if_neg hplus, hread, Option.map_some]
  by_cases hn : n < 2 ^ 31
  · rw [if_pos hn, Option.filter_some, if_pos]
    · rfl
    · rw [decide_eq_true_eq]
      show -(2 ^ 31) ≤ (n : Int) ∧ (n : Int) < 2 ^ 31
      omega
  · rw [if_neg hn, Option.filter_some, if_neg]
    rw [decide_eq_true_eq]
    show ¬ (-(2 ^ 31) ≤ (n : Int) ∧ (n : Int) < 2 ^ 31)
    omega

/-! ## §3. Decimals. -/

/-- A number with at most one digit behind the point. -/
structure Numeral where
  whole : Nat
  tenth : Option (Fin 10)
  deriving DecidableEq, Repr

namespace Numeral

/-- The numeral as it is printed. -/
def text (x : Numeral) : QString :=
  match x.tenth with
  | none => number x.whole
  | some d => number x.whole ++ 0x2e :: number d

/-- The numeral in tenths. -/
def tenths (x : Numeral) : Nat :=
  match x.tenth with
  | none => 10 * x.whole
  | some d => 10 * x.whole + d

/-- The numeral as a number. -/
def value (x : Numeral) : ℚ := x.tenths / 10

/-- A numeral that was printed is read again. -/
theorem readDecimal_text (x : Numeral) : readDecimal x.text = some x.value := by
  have hpoint : ∀ n, ∀ u ∈ number n, (u == 0x2e) = false := by
    intro n u hu
    rw [beq_eq_false_iff_ne]
    rintro rfl
    exact notMem_number (by decide) n hu
  obtain ⟨whole, tenth⟩ := x
  unfold readDecimal value text tenths
  cases tenth with
  | none =>
    dsimp only
    rw [List.splitOnP_eq_singleton (hpoint whole)]
    dsimp only
    rw [readNat_number, Option.map_some]
    push_cast
    rw [mul_div_cancel_left₀ _ (by norm_num)]
  | some d =>
    have hdigit : number d = [(d : Nat).digitChar.toNat.toUInt16] := by
      rw [number_eq, Nat.toDigits_of_lt_base d.isLt]
      rfl
    have hread : readNat (number whole ++ number d) = some (10 * whole + d) := by
      unfold readNat
      rw [if_neg (List.append_ne_nil_of_left_ne_nil (number_ne_nil whole) _),
        readDigits_append (readDigits_number whole)]
      have hvalue := readDigits_number d
      rw [hdigit, readDigits] at hvalue
      obtain ⟨v, hv, hsame⟩ := Option.bind_eq_some_iff.mp hvalue
      rw [hdigit, readDigits, hv, Option.bind_some]
      rw [readDigits, Option.some.injEq] at hsame ⊢
      omega
    dsimp only
    rw [List.splitOnP_append_cons_of_forall_mem (hpoint whole) 0x2e rfl,
      List.splitOnP_eq_singleton (hpoint d)]
    dsimp only
    rw [hread, hdigit, Option.map_some, List.length_singleton, pow_one]

/-- **A decimal is read as the double next to it.** -/
theorem toDouble_text (x : Numeral) : toDouble x.text = .ofRat x.value := by
  unfold toDouble
  rw [readDecimal_text]

end Numeral

end ResearchSSH.App
