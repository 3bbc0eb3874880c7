/-
  ResearchSSH.Library.Binary64 — double precision numbers by their values.

  A finite number is the rational number it stands for; the two zeros are one.  The result of an
  operation is the exact result, rounded to the nearest number that has a place in the format, and
  halfway between two of them to the one whose last digit is even.

  Main results:
    * `nearest_le`, `le_nearest` — rounding does not pass over a number of the format.
    * `ofRat_of_le`, `ofRat_cases` — where the format ends.
    * `truncate_ofRat`           — rounding does not pass over an integer.
-/

import Mathlib.Data.Int.Log
import Mathlib.Data.Rat.Floor
import Mathlib.Tactic.Linarith
import Mathlib.Tactic.NormNum
import Mathlib.Tactic.Ring

namespace ResearchSSH.Library

/-! ## §1. Rounding. -/

/-- The nearest integer, halfway the even one. -/
def roundEven (x : ℚ) : ℤ :=
  if Int.fract x < 1 / 2 ∨ (Int.fract x = 1 / 2 ∧ ⌊x⌋ % 2 = 0) then ⌊x⌋ else ⌊x⌋ + 1

/-- The place of the last digit of a number of this size. -/
def lastPlace (x : ℚ) : ℤ := max (Int.log 2 |x| - 52) (-1074)

/-- The nearest number with 53 binary digits. -/
def nearest (x : ℚ) : ℚ := roundEven (x / 2 ^ lastPlace x) * 2 ^ lastPlace x

/-- A number of the format, as far as its digits go. -/
def Representable (g : ℚ) : Prop := ∃ m e : ℤ, |m| ≤ 2 ^ 53 ∧ -1074 ≤ e ∧ g = m * 2 ^ e

variable {x g : ℚ} {k : ℤ}

theorem le_roundEven (h : (k : ℚ) ≤ x) : k ≤ roundEven x := by
  have hfloor : k ≤ ⌊x⌋ := Int.le_floor.mpr h
  unfold roundEven
  split
  · exact hfloor
  · omega

theorem roundEven_le (h : x ≤ k) : roundEven x ≤ k := by
  have hfloor : ⌊x⌋ ≤ k := Int.floor_le_iff.mpr (by linarith)
  unfold roundEven
  split
  · exact hfloor
  · next hup =>
    -- an integer is not rounded up
    have hne : ⌊x⌋ ≠ k := by
      intro heq
      apply hup
      left
      have hfract := Int.self_sub_floor x
      rw [heq] at hfract
      rw [← hfract]
      linarith
    omega

theorem two_zpow_pos (e : ℤ) : (0 : ℚ) < 2 ^ e := zpow_pos (by norm_num) e

/-- A multiple of the last place of `x` is not passed over. -/
theorem le_nearest_of_multiple (h : (k : ℚ) * 2 ^ lastPlace x ≤ x) :
    (k : ℚ) * 2 ^ lastPlace x ≤ nearest x := by
  have hpos := two_zpow_pos (lastPlace x)
  have hround : k ≤ roundEven (x / 2 ^ lastPlace x) := le_roundEven ((le_div_iff₀ hpos).mpr h)
  exact mul_le_mul_of_nonneg_right (Int.cast_le.mpr hround) hpos.le

/-- Rounding does not pass a number of the same precision. -/
theorem nearest_le_of_multiple (h : x ≤ (k : ℚ) * 2 ^ lastPlace x) :
    nearest x ≤ (k : ℚ) * 2 ^ lastPlace x := by
  have hpos := two_zpow_pos (lastPlace x)
  have hround : roundEven (x / 2 ^ lastPlace x) ≤ k := roundEven_le ((div_le_iff₀ hpos).mpr h)
  exact mul_le_mul_of_nonneg_right (Int.cast_le.mpr hround) hpos.le

/-- A number of the format is a multiple of the last place of `x`, or not above the power of two
below `x`, which is one. -/
theorem Representable.multiple_or_le (hg : Representable g) (hx : 0 < x) :
    (∃ k : ℤ, g = k * 2 ^ lastPlace x)
      ∨ g ≤ (2 ^ 52 : ℤ) * 2 ^ lastPlace x ∧ ((2 ^ 52 : ℤ) : ℚ) * 2 ^ lastPlace x ≤ x := by
  obtain ⟨m, e, hm, he, rfl⟩ := hg
  -- a place as high as the last one of x gives a multiple of it
  by_cases hle : lastPlace x ≤ e
  · left
    obtain ⟨d, hd⟩ := Int.eq_ofNat_of_zero_le (sub_nonneg.mpr hle)
    refine ⟨m * 2 ^ d, ?_⟩
    have hsum : e = d + lastPlace x := by omega
    rw [hsum, zpow_add₀ two_ne_zero, zpow_natCast]
    push_cast
    ring
  · right
    -- a lower one is possible for a normal x only
    have hplace : lastPlace x = Int.log 2 |x| - 52 := by
      unfold lastPlace at hle ⊢
      omega
    have hpower : ((2 ^ 52 : ℤ) : ℚ) * 2 ^ lastPlace x = 2 ^ Int.log 2 |x| := by
      have hsum : Int.log 2 |x| = 52 + lastPlace x := by omega
      rw [hsum, zpow_add₀ two_ne_zero]
      norm_num
    constructor
    · have hstep : (2 : ℚ) ^ e ≤ 2 ^ (lastPlace x - 1) :=
        zpow_le_zpow_right₀ (by norm_num) (by omega)
      have hdigits : (m : ℚ) ≤ 2 ^ 53 := by exact_mod_cast le_trans (le_abs_self m) hm
      calc (m : ℚ) * 2 ^ e ≤ 2 ^ 53 * 2 ^ e :=
            mul_le_mul_of_nonneg_right hdigits (two_zpow_pos e).le
        _ ≤ 2 ^ 53 * 2 ^ (lastPlace x - 1) := mul_le_mul_of_nonneg_left hstep (by norm_num)
        _ = (2 ^ 52 : ℤ) * 2 ^ lastPlace x := by
            rw [zpow_sub₀ two_ne_zero]
            push_cast
            ring
    · rw [hpower]
      have hlog := Int.zpow_log_le_self (b := 2) (by norm_num) (abs_pos.mpr hx.ne')
      rw [abs_of_pos hx] at hlog ⊢
      exact_mod_cast hlog

theorem representable_div (m : ℤ) {k : ℕ} (hm : |m| ≤ 2 ^ 53) (hk : k ≤ 1074) :
    Representable (m / 2 ^ k) := by
  refine ⟨m, -(k : ℤ), hm, by omega, ?_⟩
  rw [zpow_neg, zpow_natCast, div_eq_mul_inv]

theorem roundEven_intCast (k : ℤ) : roundEven k = k :=
  le_antisymm (roundEven_le le_rfl) (le_roundEven le_rfl)

theorem nearest_zero : nearest 0 = 0 := by
  have hzero := roundEven_intCast 0
  rw [Int.cast_zero] at hzero
  unfold nearest
  rw [zero_div, hzero, Int.cast_zero, zero_mul]

/-- **Rounding does not pass over a number of the format, upwards.** -/
theorem nearest_le (hg : Representable g) (hx : 0 ≤ x) (h : x ≤ g) : nearest x ≤ g := by
  obtain rfl | hpos := hx.eq_or_lt
  · rw [nearest_zero]
    exact h
  · obtain ⟨k, rfl⟩ | ⟨hle, hbelow⟩ := hg.multiple_or_le hpos
    · exact nearest_le_of_multiple h
    · have heq : x = (2 ^ 52 : ℤ) * 2 ^ lastPlace x := le_antisymm (h.trans hle) hbelow
      exact (nearest_le_of_multiple heq.le).trans (heq.ge.trans h)

/-- **Nor downwards.** -/
theorem le_nearest (hg : Representable g) (hx : 0 ≤ x) (h : g ≤ x) : g ≤ nearest x := by
  obtain rfl | hpos := hx.eq_or_lt
  · rw [nearest_zero]
    exact h
  · obtain ⟨k, rfl⟩ | ⟨hle, hbelow⟩ := hg.multiple_or_le hpos
    · exact le_nearest_of_multiple h
    · exact hle.trans (le_nearest_of_multiple hbelow)

theorem nearest_nonneg (hx : 0 ≤ x) : 0 ≤ nearest x :=
  le_nearest ⟨0, 0, by norm_num, by norm_num, by norm_num⟩ hx hx

/-! ## §2. Numbers. -/

/-- The values of a double; a zero has no sign here. -/
inductive Binary64
  | finite (value : ℚ)
  | infinite (negative : Bool)
  | nan
  deriving DecidableEq

namespace Binary64

/-- What an operation with this exact result gives. -/
def ofRat (x : ℚ) : Binary64 :=
  if |nearest x| < 2 ^ 1024 then .finite (nearest x) else .infinite (decide (x < 0))

instance : OfNat Binary64 0 := ⟨.finite 0⟩

/-- The sum, rounded. -/
def add : Binary64 → Binary64 → Binary64
  | .finite a, .finite b => ofRat (a + b)
  | .finite _, .infinite s => .infinite s
  | .infinite s, .finite _ => .infinite s
  | .infinite s, .infinite t => if s = t then .infinite s else .nan
  | .nan, _ => .nan
  | _, .nan => .nan

instance : Add Binary64 := ⟨add⟩

/-- `a < b`: nothing is less or greater than what is no number. -/
def lt : Binary64 → Binary64 → Bool
  | .finite a, .finite b => a < b
  | .finite _, .infinite negative => !negative
  | .infinite negative, .finite _ => negative
  | .infinite s, .infinite t => s && !t
  | .nan, _ => false
  | _, .nan => false

/-- The conversion to an integer; what has none is 0 here. -/
def truncate : Binary64 → ℤ
  | .finite a => if 0 ≤ a then ⌊a⌋ else ⌈a⌉
  | _ => 0

/-- A number below a small double is not rounded to infinity. -/
theorem ofRat_of_le (hx : 0 ≤ x) (hg : Representable g) (h : x ≤ g) (hsmall : g < 2 ^ 1024) :
    ofRat x = .finite (nearest x) := by
  have hle : |nearest x| < 2 ^ 1024 := by
    rw [abs_of_nonneg (nearest_nonneg hx)]
    exact (nearest_le hg hx h).trans_lt hsmall
  exact if_pos hle

/-- Rounding a number that is not negative: a finite number, or infinity. -/
theorem ofRat_cases (hx : 0 ≤ x) : ofRat x = .finite (nearest x) ∨ ofRat x = .infinite false := by
  unfold ofRat
  split
  · exact .inl rfl
  · right
    rw [decide_eq_false (not_lt.mpr hx)]

/-- Rounding does not reach the next integer from below its last sixteenth. -/
theorem truncate_ofRat {m : ℤ} (hm : 0 ≤ m) (hsmall : m ≤ 2 ^ 20) (hlow : (m : ℚ) ≤ x)
    (hhigh : x ≤ m + 15 / 16) : (ofRat x).truncate = m := by
  have hm' : (0 : ℚ) ≤ m := by exact_mod_cast hm
  have hsmall' : (m : ℚ) ≤ 2 ^ 20 := by exact_mod_cast hsmall
  have hx : 0 ≤ x := hm'.trans hlow
  have hlowest : Representable (m : ℚ) := by
    have hrep := representable_div m (k := 0) (by rw [abs_of_nonneg hm]; omega) (by norm_num)
    rwa [pow_zero, div_one] at hrep
  have hupper : Representable ((m : ℚ) + 15 / 16) := by
    have hrep := representable_div (16 * m + 15) (k := 4) (by rw [abs_of_nonneg (by omega)]; omega)
      (by norm_num)
    have heq : ((16 * m + 15 : ℤ) : ℚ) / 2 ^ 4 = m + 15 / 16 := by
      push_cast
      ring
    rwa [heq] at hrep
  have hlarge : (2 : ℚ) ^ 21 ≤ 2 ^ 1024 := pow_le_pow_right₀ (by norm_num) (by norm_num)
  have hfinite : (m : ℚ) + 15 / 16 < 2 ^ 1024 := lt_of_lt_of_le (by linarith) hlarge
  rw [ofRat_of_le hx hupper hhigh hfinite]
  have hbelow := le_nearest hlowest hx hlow
  have habove := nearest_le hupper hx hhigh
  show (if 0 ≤ nearest x then ⌊nearest x⌋ else ⌈nearest x⌉) = m
  rw [if_pos (hm'.trans hbelow), Int.floor_eq_iff]
  exact ⟨hbelow, by linarith⟩

end Binary64

end ResearchSSH.Library
