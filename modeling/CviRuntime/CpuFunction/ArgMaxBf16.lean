import CviRuntime.CpuFunction.ArgMax

/-!
# The place of the maximum in bf16 (`argmax_v2.cpp`, `argmax_v3.cpp`)

The maxima of the blocks are compared as `int16_t`. Among negative numbers this is the reverse of
their order. The place is written as a float, which past 2 ^ 24 may be another place.
-/

namespace CviRuntime.CpuFunction

open CviRuntime.FirstMax CviRuntime.Kernel CviRuntime.Loop
open CviRuntime.Binary32 (Bits IsInt ge isNaN value)

/-! ## The order of `bf16` and that of `int16_t` -/

section

variable {a b : BitVec 16}

theorem toNat_bf16 (a : BitVec 16) : (bf16 a).toNat = a.toNat * 2 ^ 16 := by
  rw [bf16, BitVec.toNat_append, Nat.shiftLeft_eq]
  simp

theorem bf16_injective : Function.Injective bf16 := by
  intro a b same
  have numbers := congrArg BitVec.toNat same
  rw [toNat_bf16, toNat_bf16] at numbers
  exact BitVec.eq_of_toNat_eq (Nat.eq_of_mul_eq_mul_right (Nat.two_pow_pos 16) numbers)

theorem sign_bf16 (a : BitVec 16) : Binary32.sign (bf16 a) = a.msb := by
  have bound := a.isLt
  rw [Binary32.sign, BitVec.msb_eq_decide, BitVec.msb_eq_decide, toNat_bf16, decide_eq_decide]
  omega

/-- Numbers with a clear sign have the order of the integers. -/
theorem value_le_of_toInt_le (unsigned : b.msb = false) (le : a.toInt ≤ b.toInt) :
    value (bf16 a) ≤ value (bf16 b) := by
  have boundA := a.isLt
  have boundB := b.isLt
  rw [Binary32.value_of_not_sign (a := bf16 b) (by rwa [sign_bf16])]
  cases signA : a.msb with
  | true =>
    rw [Binary32.value_of_sign (by rwa [sign_bf16])]
    omega
  | false =>
    rw [Binary32.value_of_not_sign (by rwa [sign_bf16]), Int.ofNat_le, Binary32.magnitude_le_iff,
      toNat_bf16, toNat_bf16]
    rw [BitVec.msb_eq_decide, decide_eq_false_iff_not] at unsigned signA
    rw [BitVec.toInt_eq_toNat_cond, BitVec.toInt_eq_toNat_cond] at le
    split at le <;> split at le <;> omega

/-- Numbers with a set sign have the reverse order. -/
theorem value_lt_of_toInt_lt (signedA : a.msb = true) (signedB : b.msb = true)
    (less : a.toInt < b.toInt) : value (bf16 b) < value (bf16 a) := by
  have boundA := a.isLt
  have boundB := b.isLt
  rw [Binary32.value_of_sign (by rwa [sign_bf16]), Binary32.value_of_sign (by rwa [sign_bf16]),
    Int.neg_lt_neg_iff, Int.ofNat_lt, Binary32.magnitude_lt_iff, toNat_bf16, toNat_bf16]
  rw [BitVec.msb_eq_decide, decide_eq_true_eq] at signedA signedB
  rw [BitVec.toInt_eq_toNat_cond, BitVec.toInt_eq_toNat_cond] at less
  split at less <;> split at less <;> omega

end

/-! ## Rows -/

/-- The map holds the greatest number of each block of each row. -/
def Bf16Maxima (data map : Nat → BitVec 8) (dims : ArgMaxDims) : Prop :=
  ∀ i < dims.outerDim, ∀ j < dims.tileNum,
    (∃ k < dims.innerDim, k / 256 = j ∧
      word16 data (i * dims.innerDim + k) = word16 map (i * dims.tileNum + j)) ∧
    ∀ k < dims.innerDim, k / 256 = j →
      ge (bf16 (word16 map (i * dims.tileNum + j)))
        (bf16 (word16 data (i * dims.innerDim + k))) = true

/-- For a row the functions report a number that is no less than any of the row, and a place at
    which the row has it. -/
def ReportsGreatest (scale : Bits) (scale3 : Option Bits) (hasValues : Bool)
    (data map : Nat → BitVec 8) (dims : ArgMaxDims) (i : Nat) : Prop :=
  ∃ v index, Reports .bf16 scale scale3 hasValues data map dims i v v index ∧
    (∃ k < dims.innerDim, IsInt index k ∧ bf16 (word16 data (i * dims.innerDim + k)) = v) ∧
    ∀ k' < dims.innerDim, ge v (bf16 (word16 data (i * dims.innerDim + k'))) = true

/-- One of the row's block maxima has a clear sign, or all are the same. -/
def SignClearOrSame (map : Nat → BitVec 8) (dims : ArgMaxDims) (i : Nat) : Prop :=
  (∃ j < dims.tileNum, (word16 map (i * dims.tileNum + j)).msb = false) ∨
    ∀ j < dims.tileNum, word16 map (i * dims.tileNum + j) = word16 map (i * dims.tileNum)

/-- The first of the blocks whose maxima are greatest as integers, and the least place in it of its
    maximum. -/
structure IsFirstPlace (data map : Nat → BitVec 8) (dims : ArgMaxDims) (i idx k : Nat) : Prop where
  block : IsFirstMax (fun j => (word16 map (i * dims.tileNum + j)).toInt) dims.tileNum idx
  less : k < dims.innerDim
  inBlock : k / 256 = idx
  attains : word16 data (i * dims.innerDim + k) = word16 map (i * dims.tileNum + idx)
  least : ∀ j < k, j / 256 = idx →
    word16 data (i * dims.innerDim + j) ≠ word16 map (i * dims.tileNum + idx)

/-- As a float, this place is one at which the row has the same number. -/
def PlaceKept (data map : Nat → BitVec 8) (dims : ArgMaxDims) (i : Nat) : Prop :=
  ∀ idx k, IsFirstPlace data map dims i idx k → ∃ k' < dims.innerDim,
    IsInt (Binary32.ofInt k) k' ∧
      word16 data (i * dims.innerDim + k') = word16 data (i * dims.innerDim + k)

section

variable {data map : Nat → BitVec 8} {dims : ArgMaxDims} {i idx k : Nat}

theorem IsFirstPlace.unique {idx' k' : Nat} (left : IsFirstPlace data map dims i idx k)
    (right : IsFirstPlace data map dims i idx' k') : idx = idx' ∧ k = k' := by
  obtain rfl := left.block.unique right.block
  refine ⟨rfl, ?_⟩
  rcases Nat.lt_trichotomy k k' with less | same | more
  · exact absurd left.attains (right.least k less left.inBlock)
  · exact same
  · exact absurd right.attains (left.least k' more right.inBlock)

/-- In a row of which each place is exact as a float every place is kept. -/
theorem placeKept_of_le (small : dims.innerDim ≤ 2 ^ 24 + 1) : PlaceKept data map dims i := by
  intro idx k first
  have less := first.less
  refine ⟨k, less, Binary32.isInt_ofInt ?_, rfl⟩
  omega

/-- What is reported: the block maximum that is greatest as an integer, and its first place. -/
theorem bf16_reports (scale : Bits) (scale3 : Option Bits) (hasValues : Bool)
    (some_tile : 0 < dims.tileNum) (maxima : Bf16Maxima data map dims)
    (inRows : i < dims.outerDim) :
    ∃ idx k, IsFirstPlace data map dims i idx k ∧
      Reports .bf16 scale scale3 hasValues data map dims i
        (bf16 (word16 map (i * dims.tileNum + idx))) (bf16 (word16 map (i * dims.tileNum + idx)))
        (Binary32.ofInt k) := by
  have ints : ∀ mem i, cpuData .bf16 mem i = (word16 mem i).toInt := fun mem i => rfl
  obtain ⟨idx, best, result⟩ := argMaxRow_eq (cpuData .bf16 data) (cpuData .bf16 map) i some_tile
  obtain ⟨⟨k, less, inTile, attains⟩, atLeast⟩ := maxima i inRows idx best.less
  have number := (Binary32.ge_iff.mp (atLeast k less inTile)).1.1
  have present : ∃ k < dims.innerDim, k / 256 = idx ∧ row (cpuData .bf16 data) dims i k =
      cpuData .bf16 map (i * dims.tileNum + idx) :=
    ⟨k, less, inTile, by rw [row, ints, ints, attains]⟩
  obtain ⟨less', inBlock, attains', least⟩ := tileSearch_of_exists present
  have reports := reports_row .bf16 scale scale3 hasValues data map inRows
  have bits : BitVec.ofInt 16 (cpuData .bf16 map (i * dims.tileNum + idx)) =
      word16 map (i * dims.tileNum + idx) := by
    rw [ints, BitVec.ofInt_toInt]
  have unscaled : Binary32.mul (maxValFp32 .bf16 (cpuData .bf16 map (i * dims.tileNum + idx)))
      (scaleV2 .bf16 scale) = bf16 (word16 map (i * dims.tileNum + idx)) := by
    rw [maxValFp32, if_neg (by decide), bits, scaleV2, if_neg (by decide), Binary32.mul_one number]
  refine ⟨idx, _, ⟨best, less', inBlock, BitVec.toInt_inj.mp attains', ?_⟩, ?_⟩
  · intro j before inTile same
    apply least j before inTile
    rw [row, ints, ints, same]
  rw [result] at reports
  simpa only [unscaled, bits, if_neg (show CviFmt.bf16 ≠ .int8 by decide)] using reports

/-- A report that is no less than all elements of the row is no less than all block maxima. -/
theorem ge_maxima_iff (maxima : Bf16Maxima data map dims)
    (tiles : dims.tileNum = rounds dims.innerDim 256) (inRows : i < dims.outerDim) (v : Bits) :
    (∀ k < dims.innerDim, ge v (bf16 (word16 data (i * dims.innerDim + k))) = true) ↔
      ∀ j < dims.tileNum, ge v (bf16 (word16 map (i * dims.tileNum + j))) = true := by
  constructor
  · intro greatest j inTiles
    obtain ⟨k, less, -, attains⟩ := (maxima i inRows j inTiles).1
    rw [← attains]
    exact greatest k less
  · intro greatest k less
    have inTiles : k / 256 < dims.tileNum := tiles ▸ div_lt_rounds (by decide) less
    have upper := Binary32.ge_iff.mp (greatest _ inTiles)
    have lower := Binary32.ge_iff.mp ((maxima i inRows _ inTiles).2 k less rfl)
    exact Binary32.ge_iff.mpr ⟨⟨upper.1.1, lower.1.2⟩, lower.2.trans upper.2⟩

/-- The greatest integer among the block maxima is the greatest number exactly when one of them has
    a clear sign or all are the same. -/
theorem greatest_toInt_iff (maxima : Bf16Maxima data map dims) (inRows : i < dims.outerDim)
    {idx : Nat} (inTiles : idx < dims.tileNum)
    (best : ∀ j < dims.tileNum, (word16 map (i * dims.tileNum + j)).toInt ≤
      (word16 map (i * dims.tileNum + idx)).toInt) :
    (∀ j < dims.tileNum, ge (bf16 (word16 map (i * dims.tileNum + idx)))
      (bf16 (word16 map (i * dims.tileNum + j))) = true) ↔ SignClearOrSame map dims i := by
  have number : ∀ j < dims.tileNum, isNaN (bf16 (word16 map (i * dims.tileNum + j))) = false := by
    intro j less
    obtain ⟨⟨k, inRow, inTile, -⟩, atLeast⟩ := maxima i inRows j less
    exact (Binary32.ge_iff.mp (atLeast k inRow inTile)).1.1
  have order : ∀ j < dims.tileNum, (ge (bf16 (word16 map (i * dims.tileNum + idx)))
      (bf16 (word16 map (i * dims.tileNum + j))) = true ↔
        value (bf16 (word16 map (i * dims.tileNum + j))) ≤
          value (bf16 (word16 map (i * dims.tileNum + idx)))) := fun j less => by
    rw [Binary32.ge_iff]
    exact and_iff_right ⟨number idx inTiles, number j less⟩
  constructor
  · intro greatest
    by_contra neither
    obtain ⟨signed, differ⟩ := not_or.mp neither
    have signs : ∀ j < dims.tileNum, (word16 map (i * dims.tileNum + j)).msb = true := by
      intro j less
      by_contra clear
      exact signed ⟨j, less, Bool.eq_false_iff.mpr clear⟩
    -- with all signs set, a smaller integer would be a greater number
    have same : ∀ j < dims.tileNum,
        word16 map (i * dims.tileNum + j) = word16 map (i * dims.tileNum + idx) := by
      intro j less
      obtain smaller | equal := (best j less).lt_or_eq
      · have greater := value_lt_of_toInt_lt (signs j less) (signs idx inTiles) smaller
        exact absurd ((order j less).mp (greatest j less)) (not_le.mpr greater)
      · exact BitVec.toInt_inj.mp equal
    refine differ fun j less => ?_
    have first := same 0 (Nat.zero_lt_of_lt inTiles)
    rw [Nat.add_zero] at first
    exact (same j less).trans first.symm
  · rintro (⟨j, less, clear⟩ | same)
    · have unsigned : (word16 map (i * dims.tileNum + idx)).msb = false := by
        have above := best j less
        rw [BitVec.msb_eq_toInt, decide_eq_false_iff_not] at clear ⊢
        omega
      exact fun j less => (order j less).mpr (value_le_of_toInt_le unsigned (best j less))
    · intro j less
      rw [order j less, same j less, same idx inTiles]

/-- The reports of a row are the greatest number and a place of it exactly when one of the block
    maxima has a clear sign or all are the same, and the place is kept. -/
theorem reportsGreatest_iff (scale : Bits) (scale3 : Option Bits) (hasValues : Bool)
    (positive : 0 < dims.innerDim) (tiles : dims.tileNum = rounds dims.innerDim 256)
    (maxima : Bf16Maxima data map dims) (inRows : i < dims.outerDim) :
    ReportsGreatest scale scale3 hasValues data map dims i ↔
      SignClearOrSame map dims i ∧ PlaceKept data map dims i := by
  have some_tile : 0 < dims.tileNum :=
    tiles ▸ Nat.zero_lt_of_lt (div_lt_rounds (w := 256) (by decide) positive)
  obtain ⟨idx, k, first, reports⟩ := bf16_reports scale scale3 hasValues some_tile maxima inRows
  rw [← greatest_toInt_iff maxima inRows first.block.less first.block.greatest,
    ← ge_maxima_iff maxima tiles inRows]
  constructor
  · rintro ⟨v, index, reports', ⟨k', less, exact, here⟩, greatest⟩
    obtain rfl := Option.some.inj (reports.1.1.symm.trans reports'.1.1)
    obtain rfl := Option.some.inj (reports.2.1.symm.trans reports'.2.1)
    refine ⟨greatest, fun idx' k'' first' => ?_⟩
    obtain ⟨rfl, rfl⟩ := first.unique first'
    exact ⟨k', less, exact, (bf16_injective here).trans first.attains.symm⟩
  · rintro ⟨greatest, kept⟩
    obtain ⟨k', less, exact, same⟩ := kept idx k first
    exact ⟨_, _, reports, ⟨k', less, exact, by rw [same, first.attains]⟩, greatest⟩

end

/-- The reports are the greatest numbers of the rows and their places exactly when in each row one
    of the block maxima has a clear sign or all are the same, and its place is kept; which is so in
    rows of up to 2 ^ 24 + 1 elements. -/
theorem argMax_bf16_iff (scale : Bits) (scale3 : Option Bits) (hasValues : Bool)
    (shape : List Nat) (axis : Nat) (data map : Nat → BitVec 8)
    (positive : 0 < (argMaxDims shape axis).innerDim)
    (maxima : Bf16Maxima data map (argMaxDims shape axis)) :
    ((∃ dims, argMaxSetup shape axis = some dims ∧
        ∀ i < dims.outerDim, ReportsGreatest scale scale3 hasValues data map dims i) ↔
      (argMaxDims shape axis).innerDim + 255 < 2 ^ 31 ∧ ∀ i < (argMaxDims shape axis).outerDim,
        SignClearOrSame map (argMaxDims shape axis) i ∧
          PlaceKept data map (argMaxDims shape axis) i) ∧
    ((argMaxDims shape axis).innerDim ≤ 2 ^ 24 + 1 →
      ∀ i, PlaceKept data map (argMaxDims shape axis) i) := by
  refine ⟨?_, fun small i => placeKept_of_le small⟩
  simp only [argMaxSetup_eq_some_iff, and_assoc, exists_and_left, exists_eq_left']
  refine and_congr_right fun _ => forall_congr' fun i => forall_congr' fun inRows => ?_
  exact reportsGreatest_iff scale scale3 hasValues positive rfl maxima inRows

/-- A row of 1. -/
def bf16Ones (p : Nat) : BitVec 8 := if p % 2 = 0 then 0x80 else 0x3F

theorem word16_bf16Ones (k : Nat) : word16 bf16Ones k = 0x3F80#16 := by
  have low : 2 * k % 2 = 0 := Nat.mul_mod_right 2 k
  have high : (2 * k + 1) % 2 ≠ 0 := by omega
  rw [word16, bf16Ones, bf16Ones, if_neg high, if_pos low]
  rfl

theorem argMax_bf16_iff_ones :
    ((∃ dims, argMaxSetup [1, 300] 1 = some dims ∧ ∀ i < dims.outerDim,
        ReportsGreatest Binary32.one none true bf16Ones bf16Ones dims i) ↔
      (argMaxDims [1, 300] 1).innerDim + 255 < 2 ^ 31 ∧ ∀ i < (argMaxDims [1, 300] 1).outerDim,
        SignClearOrSame bf16Ones (argMaxDims [1, 300] 1) i ∧
          PlaceKept bf16Ones bf16Ones (argMaxDims [1, 300] 1) i) ∧
    ((argMaxDims [1, 300] 1).innerDim ≤ 2 ^ 24 + 1 →
      ∀ i, PlaceKept bf16Ones bf16Ones (argMaxDims [1, 300] 1) i) := by
  refine argMax_bf16_iff Binary32.one none true [1, 300] 1 _ _ (by decide) ?_
  intro i _ j inTiles
  have inner : (argMaxDims [1, 300] 1).innerDim = 300 := rfl
  have bound : j < 2 := inTiles
  simp only [word16_bf16Ones, and_true, inner]
  exact ⟨⟨256 * j, by omega, by omega⟩, fun _ _ _ => by decide⟩

/-- A block of 256 times -1, and one of -2. -/
def twoBlocks (p : Nat) : BitVec 8 :=
  if p < 512 then if p % 2 = 0 then 0x80 else 0xBF else if p % 2 = 0 then 0x00 else 0xC0

theorem word16_twoBlocks (k : Nat) :
    word16 twoBlocks k = if k < 256 then 0xBF80#16 else 0xC000#16 := by
  have low : 2 * k % 2 = 0 := Nat.mul_mod_right 2 k
  have high : (2 * k + 1) % 2 ≠ 0 := by omega
  by_cases first : k < 256
  · rw [word16, twoBlocks, twoBlocks, if_pos (by omega), if_neg high, if_pos (by omega), if_pos low,
      if_pos first]
    rfl
  · rw [word16, twoBlocks, twoBlocks, if_neg (by omega), if_neg high, if_neg (by omega), if_pos low,
      if_neg first]
    rfl

/-- The maxima of the blocks, -1 and -2. -/
def twoMaxima (p : Nat) : BitVec 8 := if p < 2 then twoBlocks p else twoBlocks (p + 510)

/-- For this row -2 is reported. -/
theorem argMax_bf16_negative :
    Bf16Maxima twoBlocks twoMaxima (argMaxDims [1, 257] 1) ∧
      ¬ ReportsGreatest Binary32.one none true twoBlocks twoMaxima (argMaxDims [1, 257] 1) 0 := by
  constructor
  · intro i inRows j inTiles
    obtain rfl : i = 0 := Nat.lt_one_iff.mp inRows
    have tiles : j = 0 ∨ j = 1 := by
      have bound : j < 2 := inTiles
      omega
    simp only [word16_twoBlocks, Nat.zero_mul, Nat.zero_add]
    obtain rfl | rfl := tiles
    · refine ⟨⟨0, by decide⟩, fun k _ inTile => ?_⟩
      rw [if_pos (by omega)]
      decide
    · refine ⟨⟨256, by decide⟩, fun k _ inTile => ?_⟩
      rw [if_neg (by omega)]
      decide
  · rintro ⟨v, index, reports, -, greatest⟩
    have value2 : (argMaxV2Run .bf16 Binary32.one twoBlocks twoMaxima
        (argMaxDims [1, 257] 1))[2 * 0]? = some 0xC0000000#32 := by
      decide +kernel
    obtain rfl := Option.some.inj (value2.symm.trans reports.1.1)
    have atFirst := greatest 0 (by decide)
    revert atFirst
    decide

end CviRuntime.CpuFunction
