import CviRuntime.Lib.Binary32

/-!
# Rounding to floats

A converted integer and a product become the nearest float; of two that are equally near, the one
with the even fraction. A carry out of the fraction goes into the exponent, and out of that to the
infinity.
-/

namespace CviRuntime.Binary32

/-! ## The nearest float -/

/-- `m / 2 ^ s` as the nearest integer, and halfway as the even one. -/
def shiftNearest (m s : Nat) : Nat :=
  if 2 ^ s < 2 * (m % 2 ^ s) ∨ (2 * (m % 2 ^ s) = 2 ^ s ∧ m / 2 ^ s % 2 = 1) then m / 2 ^ s + 1
  else m / 2 ^ s

/-- The bits of the infinity. -/
def infBits : Nat := 255 * 2 ^ 23

/-- The bits of the float that is nearest to `m` units of `2 ^ -(149 + shift)`. -/
def nearest (m shift : Nat) : Nat :=
  let s := max shift (Nat.log2 m - 23)
  min ((s - shift) * 2 ^ 23 + shiftNearest m s) infBits

def withSign (negative : Bool) (bits : Nat) : Bits :=
  BitVec.ofNat 32 ((if negative then 2 ^ 31 else 0) + bits)

/-- The conversion of an integer. -/
def ofInt (n : Int) : Bits := withSign (decide (n < 0)) (nearest (n.natAbs * 2 ^ 149) 0)

def isInf (b : Bits) : Bool := exponent b = 255 ∧ fraction b = 0

/-- A NaN that is quiet. -/
def nan : Bits := 0x7FC00000#32

def one : Bits := 0x3F800000#32

/-- The product of floats. -/
def mul (a b : Bits) : Bits :=
  if isNaN a || isNaN b then nan
  else if (isInf a && magnitude b = 0) || (isInf b && magnitude a = 0) then nan
  else withSign (sign a != sign b)
    (if isInf a || isInf b then infBits else nearest (magnitude a * magnitude b) 149)

/-- The float is this integer. -/
def IsInt (b : Bits) (n : Int) : Prop := exponent b ≠ 255 ∧ value b = n * 2 ^ 149

/-! ## Exact results -/

section

variable {m s e c : Nat} {x : Bits}

theorem shiftNearest_mul (c s : Nat) : shiftNearest (c * 2 ^ s) s = c := by
  have positive := Nat.two_pow_pos s
  rw [shiftNearest, Nat.mul_mod_left, Nat.mul_div_cancel _ positive, if_neg]
  omega

theorem nearest_le (m shift : Nat) : nearest m shift ≤ infBits := Nat.min_le_right _ _

theorem log2_mul_two_pow (low : 2 ^ 23 ≤ c) (high : c < 2 ^ 24) (e : Nat) :
    Nat.log2 (c * 2 ^ e) = 23 + e := by
  have positive := Nat.two_pow_pos e
  have nonzero : c * 2 ^ e ≠ 0 := Nat.mul_ne_zero (by omega) positive.ne'
  rw [Nat.log2_eq_iff nonzero]
  constructor
  · rw [Nat.pow_add]
    exact Nat.mul_le_mul_right _ low
  · have exponents : 23 + e + 1 = 24 + e := by omega
    rw [exponents, Nat.pow_add]
    exact Nat.mul_lt_mul_of_pos_right high positive

/-- The nearest float to a float is this float. -/
theorem nearest_magnitude (finite : exponent x < 255) (k : Nat) :
    nearest (magnitude x * 2 ^ k) k = x.toNat % 2 ^ 31 := by
  have small := fraction_lt x
  rw [← exponent_fraction, nearest, magnitude]
  by_cases subnormal : exponent x = 0
  · have shift : Nat.log2 (fraction x * 2 ^ k) - 23 ≤ k := by
      by_cases zero : fraction x = 0
      · simp [zero]
      · have below : Nat.log2 (fraction x * 2 ^ k) < 23 + k := by
          rw [Nat.log2_lt (Nat.mul_ne_zero zero (Nat.two_pow_pos k).ne'), Nat.pow_add]
          exact Nat.mul_lt_mul_of_pos_right small (Nat.two_pow_pos k)
        omega
    rw [if_pos subnormal, Nat.max_eq_left shift, shiftNearest_mul, infBits]
    omega
  · have split : (2 ^ 23 + fraction x) * 2 ^ (exponent x - 1) * 2 ^ k =
        (2 ^ 23 + fraction x) * 2 ^ (exponent x - 1 + k) := by
      rw [Nat.pow_add, Nat.mul_assoc]
    rw [if_neg subnormal, split, log2_mul_two_pow (by omega) (by omega)]
    have shift : max k (23 + (exponent x - 1 + k) - 23) = exponent x - 1 + k := by omega
    rw [shift, shiftNearest_mul, infBits]
    omega

theorem toNat_withSign {negative : Bool} (small : m < 2 ^ 31) :
    (withSign negative m).toNat = (if negative then 2 ^ 31 else 0) + m := by
  rw [withSign, BitVec.toNat_ofNat]
  apply Nat.mod_eq_of_lt
  split <;> omega

theorem infBits_lt : infBits < 2 ^ 31 := by decide

theorem nearest_lt (m shift : Nat) : nearest m shift < 2 ^ 31 :=
  (nearest_le m shift).trans_lt infBits_lt

/-- A float is its sign and its other bits. -/
theorem withSign_sign (x : Bits) : withSign (sign x) (x.toNat % 2 ^ 31) = x := by
  apply BitVec.eq_of_toNat_eq
  have bound := x.isLt
  rw [toNat_withSign (Nat.mod_lt _ (Nat.two_pow_pos 31)), sign, BitVec.msb_eq_decide]
  split
  · next signed =>
    have set := of_decide_eq_true signed
    omega
  · next unsigned =>
    have clear := of_decide_eq_false (Bool.eq_false_iff.mpr unsigned)
    omega

theorem toNat_of_isInf (infinite : isInf x = true) : x.toNat % 2 ^ 31 = infBits := by
  obtain ⟨exponents, fractions⟩ := of_decide_eq_true infinite
  rw [← exponent_fraction, exponents, fractions, infBits, Nat.add_zero]

/-- A product with 1. -/
theorem mul_one (number : isNaN x = false) : mul x one = x := by
  have oneNumber : isNaN one = false := by decide
  have oneFinite : isInf one = false := by decide
  have oneSign : sign one = false := by decide
  have oneNonzero : ¬magnitude one = 0 := by decide
  have oneValue : magnitude one = 2 ^ 149 := by decide
  unfold mul
  simp only [number, oneNumber, oneFinite, oneNonzero, Bool.or_false, Bool.false_and,
    decide_false, Bool.and_false, Bool.false_eq_true, if_false, oneSign, Bool.bne_false]
  by_cases infinite : isInf x = true
  · rw [if_pos infinite, ← toNat_of_isInf infinite, withSign_sign]
  · have finite : exponent x < 255 := by
      have bound : exponent x < 2 ^ 8 := Nat.mod_lt _ (Nat.two_pow_pos 8)
      have notNaN := of_decide_eq_false number
      have notInf := of_decide_eq_false (Bool.eq_false_iff.mpr infinite)
      by_contra large
      have top : exponent x = 255 := by omega
      by_cases zero : fraction x = 0
      · exact notInf ⟨top, zero⟩
      · exact notNaN ⟨top, zero⟩
    rw [if_neg infinite, oneValue, nearest_magnitude finite, withSign_sign]

end

/-! ## Integers -/

section

variable {m e c : Nat} {n : Int} {negative : Bool}

theorem exponent_withSign (small : m < 2 ^ 31) : exponent (withSign negative m) = m / 2 ^ 23 := by
  rw [exponent, toNat_withSign small]
  split <;> omega

theorem fraction_withSign (small : m < 2 ^ 31) : fraction (withSign negative m) = m % 2 ^ 23 := by
  rw [fraction, toNat_withSign small]
  split <;> omega

theorem sign_withSign (small : m < 2 ^ 31) : sign (withSign negative m) = negative := by
  rw [sign, BitVec.msb_eq_decide, toNat_withSign small]
  cases negative with
  | true => exact decide_eq_true (by simp)
  | false =>
    apply decide_eq_false
    simp only [Bool.false_eq_true, if_false]
    omega

theorem magnitude_withSign (low : 2 ^ 23 ≤ c) (high : c < 2 ^ 24) (small : e < 254) :
    magnitude (withSign negative (e * 2 ^ 23 + c)) = c * 2 ^ e := by
  have bound : e * 2 ^ 23 + c < 2 ^ 31 := by omega
  have exponents : (e * 2 ^ 23 + c) / 2 ^ 23 = e + 1 := by omega
  have fractions : 2 ^ 23 + (e * 2 ^ 23 + c) % 2 ^ 23 = c := by omega
  rw [magnitude, exponent_withSign bound, fraction_withSign bound, exponents, fractions,
    if_neg (Nat.succ_ne_zero e), Nat.add_sub_cancel]

/-- A number of up to 24 binary digits has the exponent of its first digit. -/
theorem nearest_natCast (positive : 0 < m) (small : m < 2 ^ 24) :
    2 ^ 23 ≤ m * 2 ^ (23 - Nat.log2 m) ∧ m * 2 ^ (23 - Nat.log2 m) < 2 ^ 24 ∧ Nat.log2 m ≤ 23 ∧
      nearest (m * 2 ^ 149) 0 = (Nat.log2 m + 126) * 2 ^ 23 + m * 2 ^ (23 - Nat.log2 m) := by
  have digits : Nat.log2 m ≤ 23 := Nat.le_of_lt_succ ((Nat.log2_lt positive.ne').mpr small)
  obtain ⟨low, high⟩ := (Nat.log2_eq_iff positive.ne').mp rfl
  have low' : 2 ^ 23 ≤ m * 2 ^ (23 - Nat.log2 m) := by
    calc 2 ^ 23 = 2 ^ Nat.log2 m * 2 ^ (23 - Nat.log2 m) := by
          rw [← Nat.pow_add, Nat.add_sub_cancel' digits]
      _ ≤ _ := Nat.mul_le_mul_right _ low
  have high' : m * 2 ^ (23 - Nat.log2 m) < 2 ^ 24 := by
    calc m * 2 ^ (23 - Nat.log2 m)
        < 2 ^ (Nat.log2 m + 1) * 2 ^ (23 - Nat.log2 m) :=
          Nat.mul_lt_mul_of_pos_right high (Nat.two_pow_pos _)
      _ = 2 ^ 24 := by
          rw [← Nat.pow_add]
          congr 1
          omega
  have split : m * 2 ^ 149 = m * 2 ^ (23 - Nat.log2 m) * 2 ^ (Nat.log2 m + 126) := by
    rw [Nat.mul_assoc, ← Nat.pow_add]
    congr 2
    omega
  refine ⟨low', high', digits, ?_⟩
  rw [nearest, split, log2_mul_two_pow low' high', infBits]
  have shift : max 0 (23 + (Nat.log2 m + 126) - 23) = Nat.log2 m + 126 := by omega
  rw [shift, shiftNearest_mul]
  omega

/-- Integers of up to 24 binary digits, and the next one, are converted exactly. -/
theorem isInt_ofInt (small : n.natAbs ≤ 2 ^ 24) : IsInt (ofInt n) n := by
  have bound := nearest_lt (n.natAbs * 2 ^ 149) 0
  have exact : exponent (ofInt n) ≠ 255 ∧ magnitude (ofInt n) = n.natAbs * 2 ^ 149 := by
    obtain less | top := Nat.lt_or_eq_of_le small
    · cases Nat.eq_zero_or_pos n.natAbs with
      | inl zero =>
        obtain rfl := Int.natAbs_eq_zero.mp zero
        decide
      | inr positive =>
        obtain ⟨low, high, digits, bits⟩ := nearest_natCast positive less
        constructor
        · rw [ofInt, exponent_withSign bound, bits]
          omega
        · rw [ofInt, bits, magnitude_withSign low high (by omega), Nat.mul_assoc, ← Nat.pow_add]
          congr 2
          omega
    · rw [ofInt, top]
      cases decide (n < 0) with
      | true => decide
      | false => decide
  refine ⟨exact.1, ?_⟩
  rw [value, exact.2, ofInt, sign_withSign bound]
  split
  · next negative =>
    rw [Int.natCast_mul, Int.ofNat_natAbs_of_nonpos (of_decide_eq_true negative).le, Int.neg_mul,
      Int.neg_neg]
    rfl
  · next natural =>
    have notNegative := of_decide_eq_false (Bool.eq_false_iff.mpr natural)
    rw [Int.natCast_mul, Int.natAbs_of_nonneg (Int.not_lt.mp notNegative)]
    rfl

/-- Only 0 is converted to the float of 0. -/
theorem ofInt_natCast_eq_zero {k : Nat} : ofInt k = ofInt 0 → k = 0 := by
  intro same
  by_contra nonzero
  have digits : 23 + 126 ≤ Nat.log2 (k * 2 ^ 149) := by
    have positive := Nat.two_pow_pos 149
    rw [Nat.le_log2 (Nat.mul_ne_zero nonzero positive.ne')]
    exact Nat.le_mul_of_pos_left _ (Nat.pos_of_ne_zero nonzero)
  have bits : 0 < nearest ((k : Int).natAbs * 2 ^ 149) 0 := by
    rw [Int.natAbs_natCast, nearest, infBits]
    omega
  have left : (ofInt k).toNat = nearest ((k : Int).natAbs * 2 ^ 149) 0 := by
    rw [ofInt, toNat_withSign (nearest_lt _ _), if_neg, Nat.zero_add]
    simp
  have right : (ofInt 0).toNat = 0 := by decide
  rw [same, right] at left
  omega

/-- A float is no more than one integer. -/
theorem IsInt.unique {b : Bits} {n' : Int} (left : IsInt b n) (right : IsInt b n') : n = n' := by
  have same := left.2.symm.trans right.2
  exact Int.eq_of_mul_eq_mul_right (by decide) same

end

end CviRuntime.Binary32
