import Mathlib.Data.List.Basic
import Mathlib.Algebra.Order.Ring.Nat

/-!
# Symbol remapping (`test/1822/bm_vlc_compress.h:51-68,155-271`)

Before a block is coded its symbols are moved so that frequent ones become small: signed bytes
by a circular shift of each side and folding of the sign, exponents by a shift to a centre. Both
have an inverse.
-/

namespace CviRuntime.Vlc

/-- `(int8_t)byte`. -/
def int8 (byte : UInt8) : Int := if byte.toNat < 128 then byte.toNat else byte.toNat - 256

/-- `(uint8_t)z`. -/
def uint8 (z : Int) : UInt8 := UInt8.ofNat (z % 256).toNat

/-- `sign_to_unsign`. -/
def signToUnsign (val : UInt8) : UInt8 :=
  let signI := val.toNat / 2 ^ 7 % 2
  let absDataI := (int8 val).natAbs
  uint8 ((2 * absDataI : Nat) - (signI : Nat))

/-- `unsign_to_sign`. -/
def unsignToSign (val : UInt8) : Int :=
  let signI := val.toNat % 2
  let absDataI := (val.toNat + 1) / 2
  int8 (uint8 (if signI = 1 then -(absDataI : Int) else absDataI))

/-- `uint8_t range` of the two functions that follow. -/
def shiftRange (bias : UInt8) : Int := if bias.toNat ≤ 128 then bias.toNat else 255 - bias.toNat

/-- `center_shift`. -/
def centerShift (val bias : UInt8) (zeroGuard : Bool) : UInt8 :=
  if val = 0 ∧ zeroGuard then 0
  else
    let shiftDataI : Int := val.toNat - bias.toNat
    let range := shiftRange bias
    if bias.toNat ≤ 128 then
      if (val.toNat : Int) ≥ 2 * range then val
      else uint8 ((signToUnsign (uint8 shiftDataI)).toNat + zeroGuard.toNat)
    else if (val.toNat : Int) < bias.toNat - range then
      uint8 (range + bias.toNat - val.toNat + zeroGuard.toNat)
    else uint8 ((signToUnsign (uint8 shiftDataI)).toNat + zeroGuard.toNat)

/-- `inv_center_shift`. -/
def invCenterShift (val bias : UInt8) (zeroGuard : Bool) : UInt8 :=
  if val = 0 ∧ zeroGuard then 0
  else
    let unsignDataI := uint8 (val.toNat - zeroGuard.toNat)
    let range := shiftRange bias
    if bias.toNat ≤ 128 then
      if (val.toNat : Int) ≥ 2 * range then val
      else uint8 (unsignToSign unsignDataI + bias.toNat)
    else if (unsignDataI.toNat : Int) > 2 * range then
      uint8 (range + bias.toNat - val.toNat + zeroGuard.toNat)
    else uint8 (unsignToSign unsignDataI + bias.toNat)

/-- `two_side_circular_shift`. -/
def twoSideCircularShift (val : Int) (bias0 bias1 : UInt8) : Int :=
  if val = 0 then 0
  else
    let sign := decide (val < 0)
    let absVal : Int := val.natAbs - (if sign then bias1.toNat else bias0.toNat)
    let absVal := absVal + (if absVal ≤ 0 then 127 + sign.toNat else 0)
    int8 (uint8 (if sign then -absVal else absVal))

/-- `inv_two_side_circular_shift`. -/
def invTwoSideCircularShift (val : Int) (bias0 bias1 : UInt8) : Int :=
  if val = 0 then 0
  else
    let sign := decide (val < 0)
    let absVal : Int := val.natAbs + (if sign then bias1.toNat else bias0.toNat)
    let absValMinus := absVal - (127 + sign.toNat)
    let absValLsb := uint8 (if absValMinus ≤ 0 then absVal else absValMinus)
    int8 (uint8 (if sign then -absValLsb.toNat else absValLsb.toNat))

/-- `symbol_remapping`. -/
def symbolRemapping (blk : List UInt8) (bias0 bias1 : UInt8)
    (signedness isBf16Exp zeroGuard : Bool) : List UInt8 :=
  if isBf16Exp = false ∧ signedness = false then blk
  else if isBf16Exp then blk.map fun byte => centerShift byte bias0 zeroGuard
  else blk.map fun byte => signToUnsign (uint8 (twoSideCircularShift (int8 byte) bias0 bias1))

/-- `inv_symbol_remapping`. -/
def invSymbolRemapping (blk : List UInt8) (bias0 bias1 : UInt8)
    (signedness isBf16Exp zeroGuard : Bool) : List UInt8 :=
  if isBf16Exp = false ∧ signedness = false then blk
  else if isBf16Exp then blk.map fun byte => invCenterShift byte bias0 zeroGuard
  else blk.map fun byte => uint8 (invTwoSideCircularShift (unsignToSign byte) bias0 bias1)

/-! ## Conversions -/

@[simp] theorem toNat_uint8 (z : Int) : ((uint8 z).toNat : Int) = z % 256 := by
  have nonneg := Int.emod_nonneg z (by decide : (256 : Int) ≠ 0)
  have lt := Int.emod_lt_of_pos z (by decide : (0 : Int) < 256)
  rw [uint8, UInt8.toNat_ofNat', Nat.mod_eq_of_lt (by omega), Int.toNat_of_nonneg nonneg]

theorem toNat_uint8_of_lt {n : Nat} (lt : n < 256) : (uint8 n).toNat = n := by
  have same := toNat_uint8 n
  omega

theorem uint8_toNat (byte : UInt8) : uint8 byte.toNat = byte :=
  UInt8.toNat.inj (toNat_uint8_of_lt byte.toNat_lt)

theorem int8_uint8 {z : Int} (lo : -128 ≤ z) (hi : z ≤ 127) : int8 (uint8 z) = z := by
  have same := toNat_uint8 z
  unfold int8
  split <;> omega

theorem uint8_int8 (byte : UInt8) : uint8 (int8 byte) = byte := by
  have lt := byte.toNat_lt
  apply UInt8.toNat.inj
  unfold int8
  split
  · have same := toNat_uint8 byte.toNat
    omega
  · have same := toNat_uint8 (byte.toNat - 256)
    omega

theorem int8_range (byte : UInt8) : -128 ≤ int8 byte ∧ int8 byte ≤ 127 := by
  have lt := byte.toNat_lt
  unfold int8
  split <;> omega

/-! ## Folding the sign -/

theorem toNat_signToUnsign {z : Int} (lo : -128 ≤ z) (hi : z ≤ 127) :
    ((signToUnsign (uint8 z)).toNat : Int) = if z < 0 then -2 * z - 1 else 2 * z := by
  have byte := toNat_uint8 z
  simp only [signToUnsign, toNat_uint8, int8_uint8 lo hi]
  by_cases negative : z < 0
  · have sign : (uint8 z).toNat / 2 ^ 7 % 2 = 1 := by omega
    rw [sign, if_pos negative]
    omega
  · have sign : (uint8 z).toNat / 2 ^ 7 % 2 = 0 := by omega
    rw [sign, if_neg negative]
    omega

theorem unsignToSign_eq (val : UInt8) :
    unsignToSign val =
      if val.toNat % 2 = 1 then -(((val.toNat + 1) / 2 : Nat) : Int)
      else ((val.toNat / 2 : Nat) : Int) := by
  have lt := val.toNat_lt
  unfold unsignToSign
  by_cases odd : val.toNat % 2 = 1
  · simp only [odd, if_true]
    exact int8_uint8 (by omega) (by omega)
  · simp only [odd, if_false]
    rw [int8_uint8 (by omega) (by omega)]
    omega

/-- Unfolding undoes folding. -/
theorem unsignToSign_signToUnsign {z : Int} (lo : -128 ≤ z) (hi : z ≤ 127) :
    unsignToSign (signToUnsign (uint8 z)) = z := by
  have folded := toNat_signToUnsign lo hi
  rw [unsignToSign_eq]
  split at folded <;> split <;> omega

/-! ## The circular shift of the two sides -/

/-- The values of one side: `1` to `top`, moved down by `bias` and around. -/
theorem twoSideCircularShift_eq {val : Int} {bias0 bias1 : UInt8} (lo : -128 ≤ val)
    (hi : val ≤ 127) (h₀ : bias0.toNat ≤ 127) (h₁ : bias1.toNat ≤ 127) :
    twoSideCircularShift val bias0 bias1 =
      if val = 0 then 0
      else if val < 0 then
        if val + bias1.toNat < 0 then val + bias1.toNat else val + bias1.toNat - 128
      else if 0 < val - bias0.toNat then val - bias0.toNat else val - bias0.toNat + 127 := by
  unfold twoSideCircularShift
  by_cases zero : val = 0
  · rw [if_pos zero, if_pos zero]
  · rw [if_neg zero, if_neg zero]
    by_cases negative : val < 0
    · simp only [negative, decide_true, if_true, Bool.toNat_true]
      split <;> split <;> rw [int8_uint8] <;> omega
    · simp only [negative, decide_false, if_false, Bool.toNat_false, Bool.false_eq_true]
      split <;> split <;> rw [int8_uint8] <;> omega

theorem invTwoSideCircularShift_eq {val : Int} {bias0 bias1 : UInt8} (lo : -128 ≤ val)
    (hi : val ≤ 127) (h₀ : bias0.toNat ≤ 127) (h₁ : bias1.toNat ≤ 127) :
    invTwoSideCircularShift val bias0 bias1 =
      if val = 0 then 0
      else if val < 0 then
        if -128 ≤ val - bias1.toNat then val - bias1.toNat else val - bias1.toNat + 128
      else if val + bias0.toNat ≤ 127 then val + bias0.toNat else val + bias0.toNat - 127 := by
  unfold invTwoSideCircularShift
  by_cases zero : val = 0
  · rw [if_pos zero, if_pos zero]
  · rw [if_neg zero, if_neg zero]
    by_cases negative : val < 0
    · simp only [negative, decide_true, if_true, Bool.toNat_true, toNat_uint8]
      split <;> split <;> rw [int8_uint8] <;> omega
    · simp only [negative, decide_false, if_false, Bool.toNat_false, Bool.false_eq_true,
        toNat_uint8]
      split <;> split <;> rw [int8_uint8] <;> omega

/-- The shift keeps each side, and the other undoes it. -/
theorem invTwoSideCircularShift_twoSide {val : Int} {bias0 bias1 : UInt8} (lo : -128 ≤ val)
    (hi : val ≤ 127) (h₀ : bias0.toNat ≤ 127) (h₁ : bias1.toNat ≤ 127) :
    -128 ≤ twoSideCircularShift val bias0 bias1 ∧ twoSideCircularShift val bias0 bias1 ≤ 127 ∧
      invTwoSideCircularShift (twoSideCircularShift val bias0 bias1) bias0 bias1 = val := by
  have shifted := twoSideCircularShift_eq lo hi h₀ h₁
  generalize twoSideCircularShift val bias0 bias1 = moved at shifted
  have inside : -128 ≤ moved ∧ moved ≤ 127 := by
    rw [shifted]
    split
    · omega
    · split <;> split <;> omega
  refine ⟨inside.1, inside.2, ?_⟩
  rw [invTwoSideCircularShift_eq inside.1 inside.2 h₀ h₁]
  split at shifted
  · rw [if_pos shifted]
    omega
  · split at shifted
    · rw [if_neg (by split at shifted <;> omega), if_pos (by split at shifted <;> omega)]
      split at shifted <;> split <;> omega
    · rw [if_neg (by split at shifted <;> omega), if_neg (by split at shifted <;> omega)]
      split at shifted <;> split <;> omega

/-! ## The shift to the centre -/

/-- Where a value other than a guarded zero goes: near the bias it is folded around it and makes
    room for the guard, farther away it stays, or is reflected. -/
def centred (val bias guard : Int) : Int :=
  let folded := if val < bias then 2 * (bias - val) - 1 else 2 * (val - bias)
  if bias ≤ 128 then if 2 * bias ≤ val then val else folded + guard
  else if val < 2 * bias - 255 then 255 - val + guard else folded + guard

section Centre

variable {val bias : UInt8} {zeroGuard : Bool}

theorem shiftRange_eq (bias : UInt8) :
    shiftRange bias =
      if (bias.toNat : Int) ≤ 128 then (bias.toNat : Int) else 255 - bias.toNat := by
  unfold shiftRange
  split <;> split <;> omega

theorem toNat_ne_zero (byte : UInt8) (ne : byte ≠ 0) : 1 ≤ byte.toNat := by
  have pos : byte.toNat ≠ 0 := fun zero => ne (UInt8.toNat.inj zero)
  omega

theorem guard_le (unguarded : ¬ (val = 0 ∧ zeroGuard = true)) : zeroGuard.toNat ≤ val.toNat := by
  cases zeroGuard with
  | false => simp
  | true => exact toNat_ne_zero val fun zero => unguarded ⟨zero, rfl⟩

theorem toNat_centerShift (bias : UInt8) (unguarded : ¬ (val = 0 ∧ zeroGuard = true)) :
    ((centerShift val bias zeroGuard).toNat : Int) =
      centred val.toNat bias.toNat zeroGuard.toNat := by
  have ltVal := val.toNat_lt
  have ltBias := bias.toNat_lt
  have guard := Bool.toNat_le zeroGuard
  have room := guard_le unguarded
  unfold centerShift centred
  rw [if_neg unguarded, shiftRange_eq]
  by_cases low : bias.toNat ≤ 128
  · have low' : (bias.toNat : Int) ≤ 128 := by omega
    simp only [low, low', if_true]
    by_cases far : 2 * (bias.toNat : Int) ≤ val.toNat
    · rw [if_pos far, if_pos far]
    · rw [if_neg far, if_neg far, toNat_uint8, toNat_signToUnsign (by omega) (by omega)]
      split <;> split <;> omega
  · have high : ¬ (bias.toNat : Int) ≤ 128 := by omega
    simp only [low, high, if_false]
    by_cases far : (val.toNat : Int) < 2 * bias.toNat - 255
    · rw [if_pos (by omega), if_pos far, toNat_uint8]
      omega
    · rw [if_neg (by omega), if_neg far, toNat_uint8, toNat_signToUnsign (by omega) (by omega)]
      split <;> split <;> omega

/-- With a guard only zero goes to zero. -/
theorem centerShift_eq_zero_iff (guarded : zeroGuard = true) :
    centerShift val bias zeroGuard = 0 ↔ val = 0 := by
  subst guarded
  constructor
  · intro zero
    by_contra ne
    have moved := toNat_centerShift bias (fun both => ne both.1 : ¬ (val = 0 ∧ true = true))
    have pos := toNat_ne_zero val ne
    have ltVal := val.toNat_lt
    rw [zero] at moved
    simp only [centred, UInt8.toNat_zero, Bool.toNat_true] at moved
    split at moved
    · split at moved
      · omega
      · split at moved <;> omega
    · split at moved
      · omega
      · split at moved <;> omega
  · rintro rfl
    simp [centerShift]

theorem invCenterShift_centerShift (val bias : UInt8) (zeroGuard : Bool) :
    invCenterShift (centerShift val bias zeroGuard) bias zeroGuard = val := by
  by_cases guarded : val = 0 ∧ zeroGuard = true
  · obtain ⟨rfl, rfl⟩ := guarded
    simp [invCenterShift, centerShift]
  · have moved := toNat_centerShift bias guarded
    have visible : ¬ (centerShift val bias zeroGuard = 0 ∧ zeroGuard = true) := fun both =>
      guarded ⟨(centerShift_eq_zero_iff both.2).mp both.1, both.2⟩
    have ltVal := val.toNat_lt
    have ltBias := bias.toNat_lt
    have guard := Bool.toNat_le zeroGuard
    have room := guard_le guarded
    have roomW := guard_le visible
    generalize centerShift val bias zeroGuard = w at moved visible roomW
    have ltW := w.toNat_lt
    have unsign := toNat_uint8 ((w.toNat : Int) - zeroGuard.toNat)
    apply UInt8.toNat.inj
    have cast : ((invCenterShift w bias zeroGuard).toNat : Int) = val.toNat := by
      unfold centred at moved
      unfold invCenterShift
      rw [if_neg visible, shiftRange_eq]
      dsimp only
      rw [unsignToSign_eq]
      generalize uint8 ((w.toNat : Int) - zeroGuard.toNat) = u at unsign
      by_cases low : bias.toNat ≤ 128
      · have low' : (bias.toNat : Int) ≤ 128 := by omega
        simp only [low, low', if_true] at moved ⊢
        by_cases far : 2 * (bias.toNat : Int) ≤ val.toNat
        · rw [if_pos far] at moved
          rw [if_pos (by omega)]
          exact moved
        · rw [if_neg far] at moved
          rw [if_neg (by split at moved <;> omega), toNat_uint8]
          split at moved <;> split <;> omega
      · have high : ¬ (bias.toNat : Int) ≤ 128 := by omega
        simp only [low, high, if_false] at moved ⊢
        by_cases far : (val.toNat : Int) < 2 * bias.toNat - 255
        · rw [if_pos far] at moved
          rw [if_pos (by omega), toNat_uint8]
          omega
        · rw [if_neg far] at moved
          rw [if_neg (by split at moved <;> omega), toNat_uint8]
          split at moved <;> split <;> omega
    omega

end Centre

/-! ## Blocks -/

@[simp] theorem length_symbolRemapping (blk : List UInt8) (bias0 bias1 : UInt8)
    (signedness isBf16Exp zeroGuard : Bool) :
    (symbolRemapping blk bias0 bias1 signedness isBf16Exp zeroGuard).length = blk.length := by
  unfold symbolRemapping
  split
  · rfl
  · split <;> simp

/-- The remapping of bytes is undone for biases of seven bits. -/
theorem invSymbolRemapping_bytes (blk : List UInt8) {bias0 bias1 : UInt8} (signedness : Bool)
    (h₀ : bias0.toNat ≤ 127) (h₁ : bias1.toNat ≤ 127) :
    invSymbolRemapping (symbolRemapping blk bias0 bias1 signedness false false) bias0 bias1
      signedness false false = blk := by
  cases signedness with
  | false => simp [symbolRemapping, invSymbolRemapping]
  | true =>
    simp only [symbolRemapping, invSymbolRemapping, Bool.true_eq_false, and_false, if_false,
      Bool.false_eq_true, List.map_map]
    refine List.map_id'' (fun byte => ?_) blk
    obtain ⟨lo, hi⟩ := int8_range byte
    obtain ⟨lo', hi', undone⟩ := invTwoSideCircularShift_twoSide lo hi h₀ h₁
    simp only [Function.comp_apply]
    rw [unsignToSign_signToUnsign lo' hi', undone, uint8_int8]

/-- The remapping of exponents is undone. -/
theorem invSymbolRemapping_exp (blk : List UInt8) (bias0 bias1 bias1' : UInt8)
    (zeroGuard : Bool) :
    invSymbolRemapping (symbolRemapping blk bias0 bias1 false true zeroGuard) bias0 bias1' false
      true zeroGuard = blk := by
  simp only [symbolRemapping, invSymbolRemapping, Bool.true_eq_false, false_and, if_false, if_true,
    List.map_map]
  refine List.map_id'' (fun byte => ?_) blk
  exact invCenterShift_centerShift byte bias0 zeroGuard

end CviRuntime.Vlc
