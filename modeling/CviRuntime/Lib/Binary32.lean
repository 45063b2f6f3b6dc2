import Mathlib.Algebra.Order.Ring.Nat

/-!
# Comparing floats by their bits

A float of 32 bits is a sign, 8 bits of exponent and 23 bits of fraction. Read as an integer, the
bits of the floats above a positive one are the integers above it.
-/

namespace CviRuntime.Binary32

abbrev Bits := BitVec 32

def sign (b : Bits) : Bool := b.msb

def exponent (b : Bits) : Nat := b.toNat / 2 ^ 23 % 2 ^ 8

def fraction (b : Bits) : Nat := b.toNat % 2 ^ 23

def isNaN (b : Bits) : Bool := exponent b = 255 ∧ fraction b ≠ 0

/-- The absolute value in units of `2 ^ -149`; an infinity counts as `2 ^ 128`. -/
def magnitude (b : Bits) : Nat :=
  if exponent b = 0 then fraction b else (2 ^ 23 + fraction b) * 2 ^ (exponent b - 1)

/-- The value in units of `2 ^ -149`. -/
def value (b : Bits) : Int := if sign b then -(magnitude b : Int) else magnitude b

/-- The comparison `a > b` of floats, which a NaN never passes. -/
def gt (a b : Bits) : Bool := !isNaN a && !isNaN b && decide (value a > value b)

/-- The comparison `a >= b`. -/
def ge (a b : Bits) : Bool := !isNaN a && !isNaN b && decide (value a ≥ value b)

variable {a b : Bits}

theorem fraction_lt (b : Bits) : fraction b < 2 ^ 23 := Nat.mod_lt _ (Nat.two_pow_pos 23)

theorem exponent_fraction (b : Bits) : exponent b * 2 ^ 23 + fraction b = b.toNat % 2 ^ 31 := by
  have bound := b.isLt
  unfold exponent fraction
  omega

/-- A float with exponent `e` is less than each with a larger one. -/
theorem magnitude_lt_of_exponent (b : Bits) : magnitude b < 2 ^ 23 * 2 ^ exponent b := by
  have small := fraction_lt b
  unfold magnitude
  by_cases subnormal : exponent b = 0
  · rw [if_pos subnormal, subnormal]
    omega
  · have step : 2 ^ exponent b = 2 * 2 ^ (exponent b - 1) := by
      rw [← Nat.pow_succ', Nat.succ_eq_add_one, Nat.sub_add_cancel (Nat.pos_of_ne_zero subnormal)]
    rw [if_neg subnormal, step, ← Nat.mul_assoc]
    exact Nat.mul_lt_mul_of_pos_right (by omega) (Nat.two_pow_pos _)

theorem le_magnitude_of_exponent (later : 0 < exponent b) :
    2 ^ 23 * 2 ^ (exponent b - 1) ≤ magnitude b := by
  rw [magnitude, if_neg (Nat.ne_of_gt later)]
  exact Nat.mul_le_mul_right _ (Nat.le_add_right _ _)

/-- The absolute value grows with the lower 31 bits. -/
theorem magnitude_lt (less : a.toNat % 2 ^ 31 < b.toNat % 2 ^ 31) : magnitude a < magnitude b := by
  rw [← exponent_fraction, ← exponent_fraction] at less
  have smallA := fraction_lt a
  have smallB := fraction_lt b
  obtain lower | same : exponent a < exponent b ∨ exponent a = exponent b := by omega
  · calc magnitude a < 2 ^ 23 * 2 ^ exponent a := magnitude_lt_of_exponent a
      _ ≤ 2 ^ 23 * 2 ^ (exponent b - 1) :=
        Nat.mul_le_mul_left _ (Nat.pow_le_pow_right (by decide) (by omega))
      _ ≤ magnitude b := le_magnitude_of_exponent (by omega)
  · have order : fraction a < fraction b := by
      rw [same] at less
      omega
    unfold magnitude
    rw [same]
    split
    · exact order
    · exact Nat.mul_lt_mul_of_pos_right (by omega) (Nat.two_pow_pos _)

theorem magnitude_lt_iff : magnitude a < magnitude b ↔ a.toNat % 2 ^ 31 < b.toNat % 2 ^ 31 := by
  refine ⟨fun less => ?_, magnitude_lt⟩
  by_contra notLess
  obtain more | same := Nat.lt_or_eq_of_le (Nat.le_of_not_lt notLess)
  · exact Nat.lt_asymm less (magnitude_lt more)
  · have equal : magnitude a = magnitude b := by
      have fields := same
      rw [← exponent_fraction, ← exponent_fraction] at fields
      have smallA := fraction_lt a
      have smallB := fraction_lt b
      have exponents : exponent a = exponent b := by omega
      have fractions : fraction a = fraction b := by omega
      rw [magnitude, magnitude, exponents, fractions]
    exact Nat.lt_irrefl _ (equal ▸ less)

theorem toInt_of_sign (signed : sign b = true) : b.toInt < 0 := by
  rw [sign, BitVec.msb_eq_decide, decide_eq_true_eq] at signed
  rw [BitVec.toInt_eq_toNat_cond]
  have bound := b.isLt
  split <;> omega

theorem toInt_of_not_sign (unsigned : sign b = false) : b.toInt = (b.toNat % 2 ^ 31 : Nat) := by
  rw [sign, BitVec.msb_eq_decide, decide_eq_false_iff_not] at unsigned
  rw [BitVec.toInt_eq_toNat_cond]
  split <;> omega

theorem ge_iff : ge a b = true ↔ (isNaN a = false ∧ isNaN b = false) ∧ value b ≤ value a := by
  rw [ge, Bool.and_eq_true, Bool.and_eq_true, Bool.not_eq_true', Bool.not_eq_true',
    decide_eq_true_eq, ge_iff_le]

theorem value_of_not_sign (unsigned : sign a = false) : value a = magnitude a :=
  if_neg (Bool.eq_false_iff.mp unsigned)

theorem value_of_sign (signed : sign a = true) : value a = -(magnitude a : Int) := if_pos signed

theorem magnitude_le_iff : magnitude a ≤ magnitude b ↔ a.toNat % 2 ^ 31 ≤ b.toNat % 2 ^ 31 := by
  rw [← Nat.not_lt, ← Nat.not_lt, magnitude_lt_iff]

theorem positive_of_gt (more : gt b 0 = true) : isNaN b = false ∧ 0 < value b := by
  rw [gt, Bool.and_eq_true, Bool.and_eq_true, Bool.not_eq_true', decide_eq_true_eq] at more
  exact ⟨more.1.1, more.2⟩

/-- Above a positive float the comparison is that of the bits as signed integers. -/
theorem gt_iff_toInt (numberA : isNaN a = false) (numberB : isNaN b = false)
    (positive : 0 < value b) : gt a b = true ↔ a.toInt > b.toInt := by
  have unsigned : sign b = false := by
    by_contra signed
    rw [value, if_pos (eq_true_of_ne_false signed)] at positive
    omega
  have valueB : value b = magnitude b := if_neg (Bool.eq_false_iff.mp unsigned)
  rw [gt, numberA, numberB, Bool.not_false, Bool.true_and, Bool.true_and, decide_eq_true_eq, valueB,
    toInt_of_not_sign unsigned]
  cases signA : sign a with
  | true =>
    have negative := toInt_of_sign signA
    rw [value, if_pos signA]
    omega
  | false =>
    rw [value, if_neg (Bool.eq_false_iff.mp signA), toInt_of_not_sign signA, gt_iff_lt, gt_iff_lt,
      Int.ofNat_lt, Int.ofNat_lt]
    exact magnitude_lt_iff

end CviRuntime.Binary32
