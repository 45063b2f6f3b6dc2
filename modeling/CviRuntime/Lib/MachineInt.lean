import Mathlib.Algebra.Order.Ring.Nat
import Mathlib.Algebra.Ring.Int.Defs
import Mathlib.Data.Int.Order.Basic

/-!
# Integers of 32 bits

What an integer becomes in a register of 32 bits that is read as signed, and what it stays when it
fits. A product that overflows such a register has the residue, where that is what becomes of it, or
no value.
-/

namespace CviRuntime.MachineInt

/-- The integer in 32 bits, read as signed. -/
def int32 (x : Int) : Int := x.bmod (2 ^ 32)

/-- The integer is in the range of 32 bits. -/
def Fits (x : Int) : Prop := -2 ^ 31 ≤ x ∧ x < 2 ^ 31

instance (x : Int) : Decidable (Fits x) := inferInstanceAs (Decidable (_ ∧ _))

theorem int32_of_fits {x : Int} (fits : Fits x) : int32 x = x := by
  obtain ⟨low, high⟩ := fits
  apply Int.bmod_eq_of_le <;> omega

/-- The value of an `int` that is the result of a sum, a product or a conversion from another type,
    where the program relies on it being in range: out of range it is not defined. -/
def asInt (x : Int) : Option Int := if Fits x then some x else none

theorem asInt_of_fits {x : Int} (fits : Fits x) : asInt x = some x := if_pos fits

theorem Fits.natCast {n : Nat} (small : n < 2 ^ 31) : Fits n := by
  constructor <;> omega

theorem int32_natCast {n : Nat} (small : n < 2 ^ 31) : int32 n = n :=
  int32_of_fits (Fits.natCast small)

end CviRuntime.MachineInt
