import Mathlib.Data.List.GetD
import Mathlib.Algebra.Order.Ring.Nat
import Mathlib.Data.Nat.Bitwise

/-!
# Byte memories

A memory is a function from addresses to bytes. `readBytes` and `writeBytes` move
blocks, `read32` and `le32` little-endian words. `alignUp` is the rounding up to a
power of two with which layouts are computed.
-/

namespace CviRuntime.ByteMem

/-- The `n` bytes at `off`. -/
def readBytes (m : Nat → UInt8) (off n : Nat) : List UInt8 :=
  (List.range n).map fun i => m (off + i)

/-- The memory with a block copied to `off`. -/
def writeBytes (m : Nat → UInt8) (off : Nat) (bytes : List UInt8) : Nat → UInt8 := fun a =>
  if off ≤ a ∧ a < off + bytes.length then bytes.getD (a - off) 0 else m a

/-- The four bytes of a word, lowest first; higher bits are cut off. -/
def le32 (value : Nat) : List UInt8 :=
  [UInt8.ofNat value, UInt8.ofNat (value / 256), UInt8.ofNat (value / 65536),
    UInt8.ofNat (value / 16777216)]

/-- The value of a block of bytes, lowest first. -/
def leNat : List UInt8 → Nat
  | [] => 0
  | byte :: rest => byte.toNat + 256 * leNat rest

def read32 (m : Nat → UInt8) (off : Nat) : Nat := leNat (readBytes m off 4)

section

variable {m m' : Nat → UInt8} {off n a : Nat} {bytes : List UInt8}

@[simp] theorem length_readBytes : (readBytes m off n).length = n := by
  simp [readBytes]

@[simp] theorem length_le32 (value : Nat) : (le32 value).length = 4 := rfl

theorem readBytes_congr (same : ∀ i, i < n → m' (off + i) = m (off + i)) :
    readBytes m' off n = readBytes m off n := by
  unfold readBytes
  apply List.map_congr_left
  intro i member
  exact same i (List.mem_range.mp member)

theorem writeBytes_inside (low : off ≤ a) (high : a < off + bytes.length) :
    writeBytes m off bytes a = bytes.getD (a - off) 0 :=
  if_pos ⟨low, high⟩

theorem writeBytes_outside (outside : a < off ∨ off + bytes.length ≤ a) :
    writeBytes m off bytes a = m a := by
  refine if_neg ?_
  rintro ⟨low, high⟩
  omega

theorem readBytes_writeBytes : readBytes (writeBytes m off bytes) off bytes.length = bytes := by
  apply List.ext_getElem
  · simp
  · intro i small _
    have inside : i < bytes.length := by simpa using small
    simp [readBytes, writeBytes, inside]

theorem readBytes_writeBytes_outside {off' : Nat}
    (outside : off + n ≤ off' ∨ off' + bytes.length ≤ off) :
    readBytes (writeBytes m off' bytes) off n = readBytes m off n := by
  apply readBytes_congr
  intro i small
  exact writeBytes_outside (by omega)

/-- Two blocks copied in a row. -/
theorem writeBytes_append (rest : List UInt8) :
    writeBytes (writeBytes m off bytes) (off + bytes.length) rest =
      writeBytes m off (bytes ++ rest) := by
  funext a
  simp only [writeBytes, List.length_append, List.getD_eq_getElem?_getD]
  split_ifs with second both first
  · rw [List.getElem?_append_right (by omega), Nat.sub_sub]
  · omega
  · rw [List.getElem?_append_left (by omega)]
  · omega
  · omega
  · rfl

/-- Reading two blocks in a row. -/
theorem readBytes_add (p q : Nat) :
    readBytes m off (p + q) = readBytes m off p ++ readBytes m (off + p) q := by
  unfold readBytes
  rw [List.range_add, List.map_append, List.map_map]
  congr 1
  apply List.map_congr_left
  intro i _
  simp only [Function.comp_apply, Nat.add_assoc]

/-- Reading the beginning of a block. -/
theorem readBytes_take {k : Nat} (small : k ≤ n) :
    (readBytes m off n).take k = readBytes m off k := by
  simp [readBytes, ← List.map_take, List.take_range, Nat.min_eq_left small]

theorem read32_congr (same : ∀ i, i < 4 → m' (off + i) = m (off + i)) :
    read32 m' off = read32 m off :=
  congrArg leNat (readBytes_congr same)

theorem read32_lt (m : Nat → UInt8) (off : Nat) : read32 m off < 2 ^ 32 := by
  have byte (b : UInt8) : b.toNat < 256 := b.toNat_lt
  have b0 := byte (m (off + 0))
  have b1 := byte (m (off + 1))
  have b2 := byte (m (off + 2))
  have b3 := byte (m (off + 3))
  show leNat [m (off + 0), m (off + 1), m (off + 2), m (off + 3)] < 2 ^ 32
  simp only [leNat]
  omega

theorem leNat_le32 (value : Nat) : leNat (le32 value) = value % 2 ^ 32 := by
  simp only [leNat, le32, UInt8.toNat_ofNat']
  omega

theorem read32_writeBytes_le32 (value : Nat) :
    read32 (writeBytes m off (le32 value)) off = value % 2 ^ 32 := by
  rw [read32, ← leNat_le32, ← length_le32 value, readBytes_writeBytes]

theorem read32_writeBytes_outside {off' : Nat}
    (outside : off + 4 ≤ off' ∨ off' + bytes.length ≤ off) :
    read32 (writeBytes m off' bytes) off = read32 m off :=
  congrArg leNat (readBytes_writeBytes_outside outside)

/-- A word inside a copied block. -/
theorem read32_writeBytes_inside {k : Nat} (fits : k + 4 ≤ bytes.length) :
    read32 (writeBytes m off bytes) (off + k) = leNat ((bytes.drop k).take 4) := by
  unfold read32
  congr 1
  apply List.ext_getElem
  · simp
    omega
  · intro i small _
    have four : i < 4 := by simpa using small
    have inside : off ≤ off + k + i ∧ off + k + i < off + bytes.length := by omega
    have index : off + k + i - off = k + i := by omega
    have bound : k + i < bytes.length := by omega
    simp [readBytes, writeBytes, inside, index, bound]

end

/-! ## Alignment -/

/-- Round up to a multiple of `2 ^ bit`: add `2 ^ bit - 1`, then clear the low bits. -/
def alignUp (x bit : Nat) : Nat := ((x + (2 ^ bit - 1)) >>> bit) <<< bit

section

variable {x y bit : Nat}

theorem alignUp_eq : alignUp x bit = (x + (2 ^ bit - 1)) / 2 ^ bit * 2 ^ bit := by
  rw [alignUp, Nat.shiftLeft_eq, Nat.shiftRight_eq_div_pow]

theorem le_alignUp : x ≤ alignUp x bit := by
  have pos : 0 < 2 ^ bit := Nat.two_pow_pos bit
  have split := Nat.div_add_mod (x + (2 ^ bit - 1)) (2 ^ bit)
  have small := Nat.mod_lt (x + (2 ^ bit - 1)) pos
  rw [alignUp_eq, Nat.mul_comm]
  omega

theorem alignUp_dvd : 2 ^ bit ∣ alignUp x bit := by
  rw [alignUp_eq]
  exact Nat.dvd_mul_left _ _

/-- The least multiple from `x` on. -/
theorem alignUp_le (multiple : 2 ^ bit ∣ y) (above : x ≤ y) : alignUp x bit ≤ y := by
  obtain ⟨k, rfl⟩ := multiple
  have pos : 0 < 2 ^ bit := Nat.two_pow_pos bit
  rw [alignUp_eq, Nat.mul_comm]
  apply Nat.mul_le_mul_left
  rw [← Nat.lt_succ_iff, Nat.div_lt_iff_lt_mul pos, Nat.succ_mul, Nat.mul_comm k]
  omega

theorem alignUp_of_dvd (multiple : 2 ^ bit ∣ x) : alignUp x bit = x :=
  Nat.le_antisymm (alignUp_le multiple (Nat.le_refl x)) le_alignUp

theorem alignUp_add (multiple : 2 ^ bit ∣ y) : alignUp (y + x) bit = y + alignUp x bit := by
  obtain ⟨k, rfl⟩ := multiple
  rw [alignUp_eq, alignUp_eq, Nat.add_assoc, Nat.mul_add_div (Nat.two_pow_pos bit), Nat.add_mul,
    Nat.mul_comm k]

end

end CviRuntime.ByteMem
