import Mathlib.Data.List.GetD
import Mathlib.Algebra.Order.Ring.Nat

/-!
# Bits in a buffer of bytes

Bits are counted from the lowest bit of the first byte. They are set one by one by `|=` in a
buffer of zeros, and read back at the place they were written.
-/

namespace CviRuntime.BitStream

/-- Bit `i` of a buffer; outside of it there are zeros. -/
def bitAt (buf : List UInt8) (i : Nat) : Bool := (buf.getD (i / 8) 0).toNat.testBit (i % 8)

/-- `buf[i / 8] |= bit << (i % 8)`; outside of the buffer nothing happens. -/
def orBit (buf : List UInt8) (i : Nat) (bit : Bool) : List UInt8 :=
  buf.modify (i / 8) fun byte => byte ||| UInt8.ofNat (bit.toNat <<< (i % 8))

/-- The first `len` bits of a buffer. -/
def bitsOf (buf : List UInt8) (len : Nat) : List Bool := (List.range len).map (bitAt buf)

@[simp] theorem length_orBit (buf : List UInt8) (i : Nat) (bit : Bool) :
    (orBit buf i bit).length = buf.length := by
  simp [orBit]

@[simp] theorem length_bitsOf (buf : List UInt8) (len : Nat) : (bitsOf buf len).length = len := by
  simp [bitsOf]

theorem getElem?_bitsOf {buf : List UInt8} {len i : Nat} (lt : i < len) :
    (bitsOf buf len)[i]? = some (bitAt buf i) := by
  simp [bitsOf, List.getElem?_range lt]

theorem testBit_or_shift (byte : UInt8) (bit : Bool) {s j : Nat} (hs : s < 8) :
    (byte ||| UInt8.ofNat (bit.toNat <<< s)).toNat.testBit j =
      (byte.toNat.testBit j || (decide (j = s) && bit)) := by
  have small : bit.toNat <<< s < 2 ^ 8 := by
    rw [Nat.shiftLeft_eq]
    have one := Bool.toNat_le bit
    have power : 2 ^ s ≤ 2 ^ 7 := Nat.pow_le_pow_right (by omega) (by omega)
    calc bit.toNat * 2 ^ s ≤ 1 * 2 ^ 7 := Nat.mul_le_mul one power
      _ < 2 ^ 8 := by omega
  rw [UInt8.toNat_or, UInt8.toNat_ofNat', Nat.mod_eq_of_lt small, Nat.testBit_or,
    Nat.testBit_shiftLeft]
  congr 1
  rcases Nat.lt_trichotomy j s with lt | rfl | gt
  · simp [Nat.not_le.mpr lt, Nat.ne_of_lt lt]
  · cases bit <;> simp
  · have above : bit.toNat.testBit (j - s) = false := by
      refine Nat.testBit_lt_two_pow ?_
      have one := Bool.toNat_le bit
      have power : 2 ^ 1 ≤ 2 ^ (j - s) := Nat.pow_le_pow_right (by omega) (by omega)
      omega
    simp [above, Nat.ne_of_gt gt]

theorem bitAt_orBit (buf : List UInt8) (i : Nat) (bit : Bool) (j : Nat) :
    bitAt (orBit buf i bit) j =
      (bitAt buf j || (decide (j / 8 < buf.length) && (decide (i = j) && bit))) := by
  unfold bitAt orBit
  rw [List.getD_eq_getElem?_getD, List.getD_eq_getElem?_getD, List.getElem?_modify]
  by_cases inside : j / 8 < buf.length
  · rw [List.getElem?_eq_getElem inside]
    by_cases byte : i / 8 = j / 8
    · simp only [byte, if_true, Option.map_eq_map, Option.map_some, Option.getD_some, inside,
        decide_true, Bool.true_and]
      rw [testBit_or_shift _ _ (Nat.mod_lt i (by omega))]
      congr 2
      rw [decide_eq_decide]
      omega
    · have other : i ≠ j := fun same => byte (by rw [same])
      simp [byte, other]
  · rw [List.getElem?_eq_none (by omega)]
    simp [inside]

/-- Bits set one after the other. -/
theorem bitAt_foldl_orBit {ι : Type*} (place : ι → Nat) (bit : ι → Bool) (j : Nat) :
    ∀ (l : List ι) (buf : List UInt8),
      bitAt (l.foldl (fun buf x => orBit buf (place x) (bit x)) buf) j =
        (bitAt buf j || (decide (j / 8 < buf.length) &&
          l.any fun x => decide (place x = j) && bit x)) := by
  intro l
  induction l with
  | nil =>
    intro buf
    simp
  | cons x l ih =>
    intro buf
    rw [List.foldl_cons, ih, bitAt_orBit, length_orBit, List.any_cons]
    cases decide (j / 8 < buf.length) <;> simp [Bool.or_assoc]

theorem length_foldl_orBit {ι : Type*} (place : ι → Nat) (bit : ι → Bool) :
    ∀ (l : List ι) (buf : List UInt8),
      (l.foldl (fun buf x => orBit buf (place x) (bit x)) buf).length = buf.length := by
  intro l
  induction l with
  | nil =>
    intro buf
    rfl
  | cons x l ih =>
    intro buf
    rw [List.foldl_cons, ih, length_orBit]

/-- Buffers with the same bits are the same. -/
theorem ext_bitAt {a b : List UInt8} (length : a.length = b.length)
    (same : ∀ j, j < 8 * a.length → bitAt a j = bitAt b j) : a = b := by
  refine List.ext_getElem length fun k lt lt' => ?_
  apply UInt8.toNat.inj
  apply Nat.eq_of_testBit_eq
  intro s
  by_cases small : s < 8
  · have bit := same (8 * k + s) (by omega)
    unfold bitAt at bit
    rw [show (8 * k + s) / 8 = k by omega, show (8 * k + s) % 8 = s by omega] at bit
    simpa [List.getD_eq_getElem?_getD, List.getElem?_eq_getElem lt,
      List.getElem?_eq_getElem lt'] using bit
  · have power : 2 ^ 8 ≤ 2 ^ s := Nat.pow_le_pow_right (by omega) (by omega)
    rw [Nat.testBit_lt_two_pow (Nat.lt_of_lt_of_le (UInt8.toNat_lt _) power),
      Nat.testBit_lt_two_pow (Nat.lt_of_lt_of_le (UInt8.toNat_lt _) power)]

theorem bitAt_replicate_zero (n j : Nat) : bitAt (List.replicate n 0) j = false := by
  unfold bitAt
  rw [List.getD_eq_getElem?_getD, List.getElem?_replicate]
  split <;> simp

/-! ## Writing -/

/-- `len` bits of `src` set from `pos` on. -/
def setBits (buf : List UInt8) (pos : Nat) (src : List UInt8) (len : Nat) : List UInt8 :=
  (List.range len).foldl (fun buf bit => orBit buf (pos + bit) (bitAt src bit)) buf

/-- The buffer begins with these bits; all that follows is zero. -/
structure Holds (buf : List UInt8) (bits : List Bool) : Prop where
  fits : bits.length ≤ 8 * buf.length
  bit : ∀ i, bitAt buf i = bits.getD i false

theorem holds_nil (n : Nat) : Holds (List.replicate n 0) [] :=
  ⟨by simp, fun i => by rw [bitAt_replicate_zero]; rfl⟩

/-- Zeros that are skipped count as written. -/
theorem Holds.skip {buf : List UInt8} {bits : List Bool} (holds : Holds buf bits) {n : Nat}
    (fits : bits.length + n ≤ 8 * buf.length) : Holds buf (bits ++ List.replicate n false) := by
  refine ⟨by simpa using fits, fun i => ?_⟩
  rw [holds.bit]
  rcases Nat.lt_or_ge i bits.length with lt | ge
  · rw [List.getD_append _ _ _ _ lt]
  · rw [List.getD_eq_default _ _ ge, List.getD_append_right _ _ _ _ ge,
      List.getD_eq_getElem?_getD, List.getElem?_replicate]
    split <;> rfl

theorem any_range_place (len pos j : Nat) (bit : Nat → Bool) :
    ((List.range len).any fun x => decide (pos + x = j) && bit x) =
      (decide (pos ≤ j ∧ j < pos + len) && bit (j - pos)) := by
  rw [Bool.eq_iff_iff]
  simp only [List.any_eq_true, List.mem_range, Bool.and_eq_true, decide_eq_true_eq]
  constructor
  · rintro ⟨x, lt, rfl, set⟩
    refine ⟨⟨by omega, by omega⟩, ?_⟩
    rwa [Nat.add_sub_cancel_left]
  · rintro ⟨⟨le, lt⟩, set⟩
    exact ⟨j - pos, by omega, by omega, set⟩

@[simp] theorem length_setBits (buf : List UInt8) (pos : Nat) (src : List UInt8) (len : Nat) :
    (setBits buf pos src len).length = buf.length :=
  length_foldl_orBit _ _ _ _

theorem bitAt_setBits {buf src : List UInt8} {pos len : Nat} (j : Nat)
    (fits : pos + len ≤ 8 * buf.length) :
    bitAt (setBits buf pos src len) j =
      (bitAt buf j || (decide (pos ≤ j ∧ j < pos + len) && bitAt src (j - pos))) := by
  unfold setBits
  rw [bitAt_foldl_orBit, any_range_place]
  by_cases here : pos ≤ j ∧ j < pos + len
  · rw [decide_eq_true (by omega : j / 8 < buf.length), Bool.true_and]
  · simp [here]

/-- What is written follows what is there. -/
theorem Holds.setBits {buf src : List UInt8} {bits : List Bool} (holds : Holds buf bits) {len : Nat}
    (fits : bits.length + len ≤ 8 * buf.length) :
    Holds (setBits buf bits.length src len) (bits ++ bitsOf src len) := by
  refine ⟨by simpa using fits, fun i => ?_⟩
  rw [bitAt_setBits i fits, holds.bit]
  rcases Nat.lt_or_ge i bits.length with lt | ge
  · rw [List.getD_append _ _ _ _ lt, decide_eq_false (by omega), Bool.false_and, Bool.or_false]
  · rw [List.getD_eq_default bits false ge, List.getD_append_right _ _ _ _ ge, Bool.false_or,
      List.getD_eq_getElem?_getD]
    by_cases inside : i < bits.length + len
    · rw [decide_eq_true ⟨ge, inside⟩, getElem?_bitsOf (by omega)]
      rfl
    · rw [decide_eq_false (by omega), List.getElem?_eq_none (by rw [length_bitsOf]; omega)]
      rfl

/-! ## Reading -/

/-- From `pos` on lie these bits. -/
structure Ahead (buf : List UInt8) (pos : Nat) (bits : List Bool) : Prop where
  inside : pos + bits.length ≤ 8 * buf.length
  bit : ∀ i b, bits[i]? = some b → bitAt buf (pos + i) = b

theorem Holds.ahead {buf : List UInt8} {bits : List Bool} (holds : Holds buf bits) :
    Ahead buf 0 bits := by
  refine ⟨by simpa using holds.fits, fun i b entry => ?_⟩
  rw [Nat.zero_add, holds.bit, List.getD_eq_getElem?_getD, entry]
  rfl

theorem bitAt_append_left {a b : List UInt8} {i : Nat} (lt : i < 8 * a.length) :
    bitAt (a ++ b) i = bitAt a i := by
  unfold bitAt
  rw [List.getD_append _ _ _ _ (by omega)]

/-- What follows a buffer does not matter. -/
theorem Ahead.append {a : List UInt8} {pos : Nat} {bits : List Bool} (ahead : Ahead a pos bits)
    (b : List UInt8) : Ahead (a ++ b) pos bits := by
  have inside := ahead.inside
  refine ⟨by rw [List.length_append]; omega, fun i x entry => ?_⟩
  have lt := (List.getElem?_eq_some_iff.mp entry).1
  rw [bitAt_append_left (by omega)]
  exact ahead.bit i x entry

/-- A beginning that has the bits is enough. -/
theorem Ahead.take {buf : List UInt8} {pos n : Nat} {bits : List Bool} (ahead : Ahead buf pos bits)
    (inside : pos + bits.length ≤ 8 * (buf.take n).length) : Ahead (buf.take n) pos bits := by
  refine ⟨inside, fun i x entry => ?_⟩
  have lt := (List.getElem?_eq_some_iff.mp entry).1
  rw [← ahead.bit i x entry]
  conv_rhs => rw [← List.take_append_drop n buf]
  rw [bitAt_append_left (by omega)]

/-- The first bits and those after them. -/
theorem ahead_append {buf : List UInt8} {pos : Nat} {a b : List Bool} :
    Ahead buf pos (a ++ b) ↔ Ahead buf pos a ∧ Ahead buf (pos + a.length) b := by
  constructor
  · rintro ⟨inside, bit⟩
    rw [List.length_append] at inside
    refine ⟨⟨by omega, fun i x entry => bit i x ?_⟩, ⟨by omega, fun i x entry => ?_⟩⟩
    · rw [List.getElem?_append_left (List.getElem?_eq_some_iff.mp entry).1]
      exact entry
    · rw [Nat.add_assoc]
      refine bit (a.length + i) x ?_
      rw [List.getElem?_append_right (by omega), Nat.add_sub_cancel_left]
      exact entry
  · rintro ⟨first, later⟩
    refine ⟨by rw [List.length_append]; have := later.inside; omega, fun i x entry => ?_⟩
    rcases Nat.lt_or_ge i a.length with lt | ge
    · rw [List.getElem?_append_left lt] at entry
      exact first.bit i x entry
    · rw [List.getElem?_append_right ge] at entry
      have read := later.bit (i - a.length) x entry
      rwa [show pos + a.length + (i - a.length) = pos + i by omega] at read

/-- `len` bits from `pos` on, set in a buffer of `n` zeros. -/
def getBits (buf : List UInt8) (pos n len : Nat) : List UInt8 :=
  (List.range len).foldl (fun dest bit => orBit dest bit (bitAt buf (pos + bit)))
    (List.replicate n 0)

@[simp] theorem length_getBits (buf : List UInt8) (pos n len : Nat) :
    (getBits buf pos n len).length = n := by
  rw [getBits, length_foldl_orBit (fun bit => bit), List.length_replicate]

theorem bitAt_getBits {buf : List UInt8} {pos n len : Nat} (j : Nat) (room : len ≤ 8 * n) :
    bitAt (getBits buf pos n len) j = (decide (j < len) && bitAt buf (pos + j)) := by
  have place := any_range_place len 0 j fun bit => bitAt buf (pos + bit)
  simp only [Nat.zero_add, Nat.zero_le, true_and, Nat.sub_zero] at place
  rw [getBits, bitAt_foldl_orBit (fun bit => bit), bitAt_replicate_zero, Bool.false_or, place,
    List.length_replicate]
  by_cases lt : j < len
  · rw [decide_eq_true (by omega : j / 8 < n), Bool.true_and]
  · simp [lt]

/-- The bits that lie ahead are read. -/
theorem Ahead.bitAt_getBits {buf : List UInt8} {pos : Nat} {bits : List Bool}
    (ahead : Ahead buf pos bits) {n : Nat} (room : bits.length ≤ 8 * n) (j : Nat) :
    bitAt (getBits buf pos n bits.length) j = bits.getD j false := by
  rw [BitStream.bitAt_getBits j room, List.getD_eq_getElem?_getD]
  by_cases lt : j < bits.length
  · rw [decide_eq_true lt, Bool.true_and, ahead.bit j _ (List.getElem?_eq_getElem lt),
      List.getElem?_eq_getElem lt]
    rfl
  · rw [decide_eq_false lt, List.getElem?_eq_none (by omega)]
    rfl

/-- A buffer of which only the first `len` bits are set is read back from them. -/
theorem Ahead.getBits_bitsOf {buf src : List UInt8} {pos len : Nat}
    (ahead : Ahead buf pos (bitsOf src len)) (room : len ≤ 8 * src.length)
    (rest : ∀ j, len ≤ j → bitAt src j = false) : getBits buf pos src.length len = src := by
  refine ext_bitAt (by simp) fun j _ => ?_
  have read := ahead.bitAt_getBits (n := src.length) (by simpa using room) j
  rw [length_bitsOf] at read
  rw [read, List.getD_eq_getElem?_getD]
  rcases Nat.lt_or_ge j len with lt | ge
  · rw [getElem?_bitsOf lt]
    rfl
  · rw [List.getElem?_eq_none (by rw [length_bitsOf]; exact ge), rest j ge]
    rfl

/-- Outside of a buffer there are zeros. -/
theorem bitAt_outside {buf : List UInt8} {j : Nat} (ge : 8 * buf.length ≤ j) :
    bitAt buf j = false := by
  unfold bitAt
  rw [List.getD_eq_getElem?_getD, List.getElem?_eq_none (by omega)]
  exact Nat.zero_testBit _

/-- A small byte has small bits only. -/
theorem bitAt_singleton_of_lt {byte : UInt8} {len j : Nat} (lt : byte.toNat < 2 ^ len)
    (ge : len ≤ j) : bitAt [byte] j = false := by
  rcases Nat.lt_or_ge j 8 with small | large
  · unfold bitAt
    rw [show j / 8 = 0 by omega, show j % 8 = j by omega]
    exact Nat.testBit_lt_two_pow
      (Nat.lt_of_lt_of_le lt (Nat.pow_le_pow_right (by omega) ge))
  · exact bitAt_outside (by simpa using large)

end CviRuntime.BitStream
