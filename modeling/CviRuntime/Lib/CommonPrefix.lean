import CviRuntime.Lib.ByteMem
import Mathlib.Data.List.Basic

/-!
# Common prefixes

How far two places of a list agree, and how a comparison of words finds it: the bits in which two
little-endian words differ start in the first byte in which their bytes differ.
-/

namespace CviRuntime.CommonPrefix

open CviRuntime.ByteMem

variable {α : Type*}

/-- From `p` and `q` on `D` elements agree, and then comes `limit` or a difference. -/
structure Common (l : List α) (limit p q D : Nat) : Prop where
  inside : p + D ≤ limit
  agree : ∀ k, k < D → l[p + k]? = l[q + k]?
  ends : p + D = limit ∨ l[p + D]? ≠ l[q + D]?

section

variable {l : List α} {limit p q D c : Nat}

theorem exists_common (start : p ≤ limit) : ∃ D, Common l limit p q D := by
  obtain ⟨rest, rfl⟩ := Nat.exists_eq_add_of_le start
  induction rest generalizing p q with
  | zero => exact ⟨0, Nat.le_refl _, fun k below => absurd below (Nat.not_lt_zero k), Or.inl rfl⟩
  | succ rest ih =>
    by_cases same : l[p]? = l[q]?
    · obtain ⟨D, inside, agree, ends⟩ := ih (p := p + 1) (q := q + 1) (Nat.le_add_right _ _)
      refine ⟨D + 1, by omega, ?_, ?_⟩
      · intro k below
        cases k with
        | zero => exact same
        | succ k =>
          have next := agree k (by omega)
          rwa [Nat.add_right_comm, Nat.add_right_comm q] at next
      · rcases ends with last | differs
        · exact Or.inl (by omega)
        · rw [Nat.add_right_comm, Nat.add_right_comm q] at differs
          exact Or.inr differs
    · exact ⟨0, by omega, fun k below => absurd below (Nat.not_lt_zero k), Or.inr same⟩

/-- What agrees further is left of what agrees. -/
theorem Common.drop (common : Common l limit p q D) (less : c ≤ D) :
    Common l limit (p + c) (q + c) (D - c) := by
  obtain ⟨inside, agree, ends⟩ := common
  refine ⟨by omega, ?_, ?_⟩
  · intro k below
    have same := agree (c + k) (by omega)
    rwa [← Nat.add_assoc, ← Nat.add_assoc] at same
  · rw [Nat.add_assoc, Nat.add_assoc, Nat.add_sub_cancel' less]
    exact ends

/-- A block of `c` elements inside the limit agrees exactly if so much is common. -/
theorem Common.block (common : Common l limit p q D) (fits : p + c ≤ limit) :
    (∀ k, k < c → l[p + k]? = l[q + k]?) ↔ c ≤ D := by
  obtain ⟨inside, agree, ends⟩ := common
  constructor
  · intro same
    by_contra short
    rcases ends with last | differs
    · omega
    · exact differs (same D (by omega))
  · intro less k below
    exact agree k (by omega)

end

/-! ## Words -/

/-- How many elements at the front of two lists agree. -/
def agreeing [DecidableEq α] : List α → List α → Nat
  | x :: xs, y :: ys => if x = y then agreeing xs ys + 1 else 0
  | _, _ => 0

theorem agreeing_eq [DecidableEq α] {xs ys : List α} {D : Nat} (sameLength : xs.length = ys.length)
    (agree : ∀ k, k < D → xs[k]? = ys[k]?) (differs : xs[D]? ≠ ys[D]?) : agreeing xs ys = D := by
  induction D generalizing xs ys with
  | zero =>
    cases xs with
    | nil =>
      cases ys with
      | nil => exact absurd rfl differs
      | cons y ys => cases sameLength
    | cons x xs =>
      cases ys with
      | nil => cases sameLength
      | cons y ys =>
        have apart : x ≠ y := fun same => differs (by rw [same]; rfl)
        exact if_neg apart
  | succ D ih =>
    have first := agree 0 (Nat.succ_pos D)
    cases xs with
    | nil =>
      cases ys with
      | nil => exact absurd rfl differs
      | cons y ys => cases sameLength
    | cons x xs =>
      cases ys with
      | nil => cases sameLength
      | cons y ys =>
        have same : x = y := Option.some.inj first
        rw [agreeing, if_pos same]
        congr 1
        apply ih (Nat.succ.inj sameLength)
        · intro k below
          exact agree (k + 1) (Nat.succ_lt_succ below)
        · exact differs

theorem leNat_inj {xs ys : List UInt8} (sameLength : xs.length = ys.length)
    (same : leNat xs = leNat ys) : xs = ys := by
  induction xs generalizing ys with
  | nil => exact (List.eq_nil_of_length_eq_zero sameLength.symm).symm
  | cons x xs ih =>
    cases ys with
    | nil => cases sameLength
    | cons y ys =>
      have x_lt := x.toNat_lt
      have y_lt := y.toNat_lt
      rw [leNat, leNat] at same
      have head : x = y := UInt8.toNat_inj.mp (by omega)
      have tail : xs = ys := ih (Nat.succ.inj sameLength) (by omega)
      rw [head, tail]

/-- The number of zero bits at the low end of a number of at most `width` bits. -/
def trailingZeros : Nat → Nat → Nat
  | 0, _ => 0
  | width + 1, val => if val % 2 = 1 then 0 else trailingZeros width (val / 2) + 1

theorem trailingZeros_add {width k val : Nat} (low : val % 2 ^ k = 0) :
    trailingZeros (width + k) val = trailingZeros width (val / 2 ^ k) + k := by
  induction k generalizing val with
  | zero => rw [Nat.pow_zero, Nat.div_one]; rfl
  | succ k ih =>
    have split : 2 ^ (k + 1) = 2 * 2 ^ k := Nat.pow_succ'
    rw [split] at low ⊢
    have even : val % 2 = 0 := by
      rw [← Nat.mod_mul_right_mod val 2 (2 ^ k), low]
    have rest : val / 2 % 2 ^ k = 0 := by
      rw [Nat.mod_mul, even] at low
      have zero : 2 * (val / 2 % 2 ^ k) = 0 := by omega
      omega
    rw [← Nat.add_assoc, trailingZeros, if_neg (by omega), ih rest, Nat.div_div_eq_div_mul]
    omega

theorem trailingZeros_lt {width k val : Nat} (low : val % 2 ^ k ≠ 0) :
    trailingZeros (width + k) val < k := by
  induction k generalizing val with
  | zero => exact absurd (Nat.mod_one val) low
  | succ k ih =>
    rw [← Nat.add_assoc, trailingZeros]
    by_cases odd : val % 2 = 1
    · rw [if_pos odd]
      exact Nat.succ_pos k
    · rw [if_neg odd]
      apply Nat.succ_lt_succ
      apply ih
      intro rest
      apply low
      have split : 2 ^ (k + 1) = 2 * 2 ^ k := Nat.pow_succ'
      rw [split, Nat.mod_mul, rest]
      omega

theorem xor_eq_zero {a b : Nat} : a ^^^ b = 0 ↔ a = b := by
  constructor
  · intro zero
    have cancel : a ^^^ b ^^^ b = b := by rw [zero, Nat.zero_xor]
    rwa [Nat.xor_assoc, Nat.xor_self, Nat.xor_zero] at cancel
  · rintro rfl
    exact Nat.xor_self a

/-- The zero bits below the first difference of two words are the bytes before it. -/
theorem trailingZeros_xor {xs ys : List UInt8} (sameLength : xs.length = ys.length)
    (differ : xs ≠ ys) :
    trailingZeros (8 * xs.length) (leNat xs ^^^ leNat ys) / 8 = agreeing xs ys := by
  induction xs generalizing ys with
  | nil => exact absurd (List.eq_nil_of_length_eq_zero sameLength.symm).symm differ
  | cons x xs ih =>
    cases ys with
    | nil => cases sameLength
    | cons y ys =>
      have x_lt := x.toNat_lt
      have y_lt := y.toNat_lt
      have low : (leNat (x :: xs) ^^^ leNat (y :: ys)) % 2 ^ 8 = x.toNat ^^^ y.toNat := by
        rw [Nat.xor_mod_two_pow, leNat, leNat, Nat.add_mul_mod_self_left,
          Nat.add_mul_mod_self_left, Nat.mod_eq_of_lt x_lt, Nat.mod_eq_of_lt y_lt]
      have high : (leNat (x :: xs) ^^^ leNat (y :: ys)) / 2 ^ 8 = leNat xs ^^^ leNat ys := by
        have upper (z : UInt8) (zs : List UInt8) : leNat (z :: zs) / 2 ^ 8 = leNat zs := by
          have z_lt := z.toNat_lt
          rw [leNat]
          omega
        rw [Nat.xor_div_two_pow, upper, upper]
      have width : 8 * (x :: xs).length = 8 * xs.length + 8 := by
        rw [List.length_cons]
        omega
      rw [width, agreeing]
      by_cases same : x = y
      · have rest : xs ≠ ys := fun equal => differ (by rw [same, equal])
        rw [if_pos same, trailingZeros_add (by rw [low, same, Nat.xor_self]), high,
          Nat.add_div_right _ (by decide), ih (Nat.succ.inj sameLength) rest]
      · rw [if_neg same]
        apply Nat.div_eq_of_lt
        apply trailingZeros_lt
        rw [low]
        intro zero
        exact same (UInt8.toNat_inj.mp (xor_eq_zero.mp zero))

end CviRuntime.CommonPrefix
