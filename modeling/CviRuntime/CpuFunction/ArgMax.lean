import CviRuntime.Kernel.StrideCopy
import CviRuntime.Lib.Binary32Round
import CviRuntime.Lib.FirstMax
import CviRuntime.Lib.MachineInt

/-!
# The place of the maximum (`argmax.cpp`, `argmax_v2.cpp`, `argmax_v3.cpp`)

A second tensor holds the maximum of each 256 elements of a row. The functions take the greatest of
these and search it in its block. The first version begins with 0 and passes over negative blocks.
The place is written as a float, which is exact up to 2 ^ 24.
-/

namespace CviRuntime.CpuFunction

open CviRuntime.FirstMax CviRuntime.Kernel CviRuntime.Loop CviRuntime.MachineInt
open CviRuntime.Binary32 (Bits IsInt)

/-! ## The functions -/

/-- The members that `setup` computes (`argmax_v3.cpp:48-52`). -/
structure ArgMaxDims where
  outerDim : Nat
  innerDim : Nat
  tileNum : Nat

def argMaxDims (shape : List Nat) (axis : Nat) : ArgMaxDims where
  outerDim := (shape.take axis).prod
  innerDim := shape.getD axis 0
  tileNum := (shape.getD axis 0 + 256 - 1) / 256

/-- `setup`; `none` where `_inner_dim + 256 - 1` is out of the range of an `int`. -/
def argMaxSetup (shape : List Nat) (axis : Nat) : Option ArgMaxDims :=
  if Fits ((shape.getD axis 0 : Nat) + 256 - 1) then some (argMaxDims shape axis) else none

/-- An element of two bytes. -/
def word16 (mem : Nat → BitVec 8) (i : Nat) : BitVec 16 := mem (2 * i + 1) ++ mem (2 * i)

/-- `cpu_data<T>()[i]`, where `T` is `int8_t` or, for all other formats, `int16_t`. -/
def cpuData (fmt : CviFmt) (mem : Nat → BitVec 8) (i : Nat) : Int :=
  if fmt = .int8 then (mem i).toInt else (word16 mem i).toInt

/-- `BF16` (`argmax_v3.cpp:11-20`). -/
def bf16 (data : BitVec 16) : Bits := data ++ 0#16

/-- The search in a tile (`argmax_v3.cpp:78-88`), from the index of the tile on. -/
def tileSearch (data : Nat → Int) (dims : ArgMaxDims) (i idx : Nat) (maxVal : Int) : Nat :=
  let offset := idx * 256
  let len := min (dims.innerDim - offset) 256
  search data (i * dims.innerDim + offset) len maxVal + offset

/-- `max_val` and `idx + offset` of a row (`argmax_v2.cpp:56-75`, `argmax_v3.cpp:67-88`). -/
def argMaxRow (data map : Nat → Int) (dims : ArgMaxDims) (i : Nat) : Int × Nat :=
  let mapPtr := fun j => map (i * dims.tileNum + j)
  let best := scan mapPtr (mapPtr 0, 0) (List.range' 1 (dims.tileNum - 1))
  (best.1, tileSearch data dims i best.2 best.1)

/-- `max_val_fp32` (`argmax_v2.cpp:76-80`). -/
def maxValFp32 (fmt : CviFmt) (maxVal : Int) : Bits :=
  if fmt = .int8 then Binary32.ofInt maxVal else bf16 (BitVec.ofInt 16 maxVal)

/-- `scale` of the second version (`argmax_v2.cpp:32-34`). -/
def scaleV2 (fmt : CviFmt) (param : Bits) : Bits := if fmt = .int8 then param else Binary32.one

/-- `ArgMaxV2Func::run` (`argmax_v2.cpp:44-84`): a value and an index for each row. -/
def argMaxV2Run (fmt : CviFmt) (scale : Bits) (data map : Nat → BitVec 8)
    (dims : ArgMaxDims) : List Bits :=
  (List.range dims.outerDim).flatMap fun i =>
    let best := argMaxRow (cpuData fmt data) (cpuData fmt map) dims i
    [Binary32.mul (maxValFp32 fmt best.1) (scaleV2 fmt scale), Binary32.ofInt best.2]

/-- The outputs of the third version; the second one may be missing. -/
structure ArgMaxV3Out where
  indices : List Bits
  values : Option (List Bits)

/-- `ArgMaxV3Func::run` (`argmax_v3.cpp:54-100`). The scale is a parameter that may be missing. -/
def argMaxV3Run (fmt : CviFmt) (scale : Option Bits) (hasValues : Bool)
    (data map : Nat → BitVec 8) (dims : ArgMaxDims) : ArgMaxV3Out where
  indices := (List.range dims.outerDim).map fun i =>
    Binary32.ofInt (argMaxRow (cpuData fmt data) (cpuData fmt map) dims i).2
  values := if hasValues then
      some ((List.range dims.outerDim).map fun i =>
        let maxVal := (argMaxRow (cpuData fmt data) (cpuData fmt map) dims i).1
        if fmt = .int8 then Binary32.mul (Binary32.ofInt maxVal) (scale.getD Binary32.one)
        else bf16 (BitVec.ofInt 16 maxVal))
    else none

/-- `idx + offset` of a row in the first version (`argmax.cpp:41-65`). -/
def argMaxRowV1 (data map : Nat → Int) (dims : ArgMaxDims) (i : Nat) : Nat :=
  let mapPtr := fun j => map (i * dims.tileNum + j)
  let best := (List.range dims.tileNum).foldl (fun best j =>
    if mapPtr j < 0 then best
    else if mapPtr j > best.1 then (mapPtr j, j)
    else best) (0, 0)
  tileSearch data dims i best.2 best.1

/-- `ArgMaxFunc::run` (`argmax.cpp:26-66`). -/
def argMaxRun (fmt : CviFmt) (data map : Nat → BitVec 8) (dims : ArgMaxDims) :
    List Bits :=
  (List.range dims.outerDim).map fun i =>
    Binary32.ofInt (argMaxRowV1 (cpuData fmt data) (cpuData fmt map) dims i)

/-! ## A row -/

/-- The elements of a row. -/
def row (data : Nat → Int) (dims : ArgMaxDims) (i k : Nat) : Int := data (i * dims.innerDim + k)

/-- The map holds the maximum of each block of each row. -/
def TileMaxima (data map : Nat → Int) (dims : ArgMaxDims) : Prop :=
  ∀ i < dims.outerDim, ∀ j < dims.tileNum,
    IsBlockMax (row data dims i) 256 dims.innerDim j (map (i * dims.tileNum + j))

section

variable {data map : Nat → Int} {dims : ArgMaxDims} {i idx : Nat} {x : Int}

/-- The places of a tile. -/
theorem place_in_tile {j : Nat} :
    j < min (dims.innerDim - idx * 256) 256 ↔
      idx * 256 + j < dims.innerDim ∧ (idx * 256 + j) / 256 = idx := by
  omega

/-- The search finds the first place in the tile. -/
theorem tileSearch_of_exists
    (present : ∃ k < dims.innerDim, k / 256 = idx ∧ row data dims i k = x) :
    tileSearch data dims i idx x < dims.innerDim ∧ tileSearch data dims i idx x / 256 = idx ∧
      row data dims i (tileSearch data dims i idx x) = x ∧
      ∀ j < tileSearch data dims i idx x, j / 256 = idx → row data dims i j ≠ x := by
  obtain ⟨k, less, inTile, here⟩ := present
  obtain ⟨j, split⟩ := Nat.exists_eq_add_of_le (inTile ▸ Nat.div_mul_le_self k 256)
  subst split
  have present : ∃ j < min (dims.innerDim - idx * 256) 256,
      data (i * dims.innerDim + idx * 256 + j) = x :=
    ⟨j, place_in_tile.mpr ⟨less, inTile⟩, by rwa [Nat.add_assoc]⟩
  have found := search_of_exists (f := data) (x := x) present
  have inside := place_in_tile.mp found.1
  have place : tileSearch data dims i idx x =
      idx * 256 + search data (i * dims.innerDim + idx * 256)
        (min (dims.innerDim - idx * 256) 256) x := Nat.add_comm _ _
  rw [place]
  refine ⟨inside.1, inside.2, ?_, fun j' before inTile' => ?_⟩
  · rw [row, ← Nat.add_assoc]
    exact found.2.1
  · obtain ⟨j, rfl⟩ := Nat.exists_eq_add_of_le (inTile' ▸ Nat.div_mul_le_self j' 256)
    rw [row, ← Nat.add_assoc]
    exact found.2.2 j (Nat.add_lt_add_iff_left.mp before)

/-- Without such an element the answer is the first place of the tile. -/
theorem tileSearch_of_none (absent : ∀ k < dims.innerDim, k / 256 = idx → row data dims i k ≠ x) :
    tileSearch data dims i idx x = idx * 256 := by
  rw [tileSearch, search_of_none, Nat.zero_add]
  intro j less
  obtain ⟨inRow, inTile⟩ := place_in_tile.mp less
  rw [Nat.add_assoc]
  exact absent _ inRow inTile

theorem argMaxRow_eq (data map : Nat → Int) (i : Nat) (some_tile : 0 < dims.tileNum) :
    ∃ idx, IsFirstMax (fun j => map (i * dims.tileNum + j)) dims.tileNum idx ∧
      argMaxRow data map dims i = (map (i * dims.tileNum + idx),
        tileSearch data dims i idx (map (i * dims.tileNum + idx))) := by
  obtain ⟨idx, scanned, best⟩ :=
    scan_spec (f := fun j => map (i * dims.tileNum + j)) (dims.tileNum - 1)
  rw [Nat.sub_add_cancel some_tile] at best
  refine ⟨idx, best, ?_⟩
  rw [argMaxRow]
  simp only [scanned]

/-- The row's maximum and its first place. -/
theorem argMaxRow_spec (tiles : dims.tileNum = rounds dims.innerDim 256)
    (positive : 0 < dims.innerDim) (maxima : TileMaxima data map dims)
    (inRows : i < dims.outerDim) :
    (argMaxRow data map dims i).1 = row data dims i (argMaxRow data map dims i).2 ∧
      IsFirstMax (row data dims i) dims.innerDim (argMaxRow data map dims i).2 := by
  have some_tile : 0 < dims.tileNum := by
    rw [tiles]
    exact Nat.zero_lt_of_lt (div_lt_rounds (by decide) positive)
  obtain ⟨idx, best, result⟩ := argMaxRow_eq data map i some_tile
  obtain ⟨less, inTile, attains, least⟩ :=
    tileSearch_of_exists (maxima i inRows idx best.less).attained
  rw [result]
  exact ⟨attains.symm, IsFirstMax.of_blocks (m := fun j => map (i * dims.tileNum + j)) (by decide)
    (tiles ▸ maxima i inRows) (tiles ▸ best) less inTile attains least⟩

end

/-! ## The reports -/

/-- Two values for each row, one behind the other. -/
theorem pairs_getElem? {β : Type*} (f g : Nat → β) {n i : Nat} (less : i < n) :
    ((List.range n).flatMap fun i => [f i, g i])[2 * i]? = some (f i) ∧
      ((List.range n).flatMap fun i => [f i, g i])[2 * i + 1]? = some (g i) := by
  have length : ∀ n, ((List.range n).flatMap fun i => [f i, g i]).length = 2 * n := fun n => by
    simp [List.length_flatMap, Nat.mul_comm]
  induction n with
  | zero => cases less
  | succ n ih =>
    rw [List.range_succ, List.flatMap_append]
    obtain earlier | rfl := Nat.lt_succ_iff_lt_or_eq.mp less
    · rw [List.getElem?_append_left (by rw [length]; omega),
        List.getElem?_append_left (by rw [length]; omega)]
      exact ih earlier
    · rw [List.getElem?_append_right (by rw [length]), length,
        List.getElem?_append_right (by rw [length]; omega), length, Nat.sub_self,
        Nat.add_sub_cancel_left]
      exact ⟨rfl, rfl⟩

/-- Both versions report a value and a place for a row; the third may leave the value out. -/
def Reports (fmt : CviFmt) (scale : Bits) (scale3 : Option Bits) (hasValues : Bool)
    (data map : Nat → BitVec 8) (dims : ArgMaxDims) (i : Nat) (value2 value3 index : Bits) : Prop :=
  ((argMaxV2Run fmt scale data map dims)[2 * i]? = some value2 ∧
    (argMaxV2Run fmt scale data map dims)[2 * i + 1]? = some index) ∧
  (argMaxV3Run fmt scale3 hasValues data map dims).indices[i]? = some index ∧
  ∀ values, (argMaxV3Run fmt scale3 hasValues data map dims).values = some values →
    values[i]? = some value3

/-- What they report is the row's pair. -/
theorem reports_row (fmt : CviFmt) (scale : Bits) (scale3 : Option Bits) (hasValues : Bool)
    (data map : Nat → BitVec 8) {dims : ArgMaxDims} {i : Nat} (inRows : i < dims.outerDim) :
    let best := argMaxRow (cpuData fmt data) (cpuData fmt map) dims i
    Reports fmt scale scale3 hasValues data map dims i
      (Binary32.mul (maxValFp32 fmt best.1) (scaleV2 fmt scale))
      (if fmt = .int8 then Binary32.mul (Binary32.ofInt best.1) (scale3.getD Binary32.one)
        else bf16 (BitVec.ofInt 16 best.1)) (Binary32.ofInt best.2) := by
  refine ⟨pairs_getElem? _ _ inRows, ?_, fun values present => ?_⟩
  · rw [argMaxV3Run, List.getElem?_map, List.getElem?_range inRows]
    rfl
  · rw [argMaxV3Run] at present
    obtain ⟨-, same⟩ := Option.ite_none_right_eq_some.mp present
    rw [← Option.some.inj same, List.getElem?_map, List.getElem?_range inRows]
    rfl

/-! ## `int8` -/

@[simp] theorem innerDim_argMaxDims (shape : List Nat) (axis : Nat) :
    (argMaxDims shape axis).innerDim = shape.getD axis 0 := rfl

theorem argMaxSetup_eq {shape : List Nat} {axis : Nat}
    (small : (argMaxDims shape axis).innerDim + 255 < 2 ^ 31) :
    argMaxSetup shape axis = some (argMaxDims shape axis) := by
  rw [innerDim_argMaxDims] at small
  have fits : Fits ((shape.getD axis 0 : Nat) + 256 - 1) := by
    constructor <;> omega
  rw [argMaxSetup, if_pos fits]

theorem argMaxSetup_eq_some_iff {shape : List Nat} {axis : Nat} {dims : ArgMaxDims} :
    argMaxSetup shape axis = some dims ↔
      (argMaxDims shape axis).innerDim + 255 < 2 ^ 31 ∧ argMaxDims shape axis = dims := by
  constructor
  · intro setup
    rw [argMaxSetup] at setup
    obtain ⟨fits, same⟩ := Option.ite_none_right_eq_some.mp setup
    obtain ⟨-, high⟩ := fits
    refine ⟨?_, Option.some.inj same⟩
    rw [innerDim_argMaxDims]
    omega
  · rintro ⟨small, rfl⟩
    exact argMaxSetup_eq small

theorem cpuData_int8 (mem : Nat → BitVec 8) (i : Nat) : cpuData .int8 mem i = (mem i).toInt :=
  if_pos rfl

theorem natAbs_int8_le (mem : Nat → BitVec 8) (i : Nat) :
    (cpuData .int8 mem i).natAbs ≤ 2 ^ 24 := by
  have low := BitVec.le_toInt (mem i)
  have high := BitVec.toInt_lt (x := mem i)
  rw [cpuData_int8]
  omega

/-- The reports for a row are right: the maximum of the row, times the scale, and the least place at
    which the row has it. -/
def ReportsFirstMax (scale : Bits) (scale3 : Option Bits) (hasValues : Bool)
    (data map : Nat → BitVec 8) (dims : ArgMaxDims) (i : Nat) : Prop :=
  ∃ k maxVal index, IsFirstMax (row (cpuData .int8 data) dims i) dims.innerDim k ∧
    IsInt maxVal (row (cpuData .int8 data) dims i k) ∧ IsInt index k ∧
    Reports .int8 scale scale3 hasValues data map dims i (Binary32.mul maxVal scale)
      (Binary32.mul maxVal (scale3.getD Binary32.one)) index

section

variable {scale : Bits} {scale3 : Option Bits} {hasValues : Bool} {data map : Nat → BitVec 8}
  {dims : ArgMaxDims} {i : Nat}

theorem reports_int8 (scale : Bits) (scale3 : Option Bits) (hasValues : Bool)
    (data map : Nat → BitVec 8) (inRows : i < dims.outerDim) :
    Reports .int8 scale scale3 hasValues data map dims i
      (Binary32.mul (Binary32.ofInt (argMaxRow (cpuData .int8 data) (cpuData .int8 map) dims i).1)
        scale)
      (Binary32.mul (Binary32.ofInt (argMaxRow (cpuData .int8 data) (cpuData .int8 map) dims i).1)
        (scale3.getD Binary32.one))
      (Binary32.ofInt (argMaxRow (cpuData .int8 data) (cpuData .int8 map) dims i).2) := by
  have reports := reports_row .int8 scale scale3 hasValues data map inRows
  simpa only [maxValFp32, scaleV2, if_true] using reports

/-- They are, when the place is exact as a float. -/
theorem reportsFirstMax_iff (tiles : dims.tileNum = rounds dims.innerDim 256)
    (positive : 0 < dims.innerDim)
    (maxima : TileMaxima (cpuData .int8 data) (cpuData .int8 map) dims)
    (inRows : i < dims.outerDim) :
    ReportsFirstMax scale scale3 hasValues data map dims i ↔
      ∀ k, IsFirstMax (row (cpuData .int8 data) dims i) dims.innerDim k →
        IsInt (Binary32.ofInt k) k := by
  obtain ⟨value, best⟩ := argMaxRow_spec tiles positive maxima inRows
  have reports := reports_int8 scale scale3 hasValues data map inRows
  constructor
  · rintro ⟨k, maxVal, index, first, -, exact, reports'⟩ k' first'
    obtain rfl := first.unique first'
    obtain rfl := best.unique first
    obtain rfl := Option.some.inj (reports.2.1.symm.trans reports'.2.1)
    exact exact
  · intro exact
    refine ⟨_, _, _, best, ?_, exact _ best, reports⟩
    rw [value]
    exact Binary32.isInt_ofInt (natAbs_int8_le data _)

end

/-- The second and the third version report the maximum of each row, times the scale, and the least
    place of it, for rows of which each place is exact as a float. -/
theorem argMax_int8 (scale : Bits) (scale3 : Option Bits) (hasValues : Bool)
    (shape : List Nat) (axis : Nat) (data map : Nat → BitVec 8)
    (positive : 0 < (argMaxDims shape axis).innerDim)
    (small : (argMaxDims shape axis).innerDim ≤ 2 ^ 24 + 1)
    (maxima : TileMaxima (cpuData .int8 data) (cpuData .int8 map) (argMaxDims shape axis)) :
    argMaxSetup shape axis = some (argMaxDims shape axis) ∧
      ∀ i < (argMaxDims shape axis).outerDim,
        ReportsFirstMax scale scale3 hasValues data map (argMaxDims shape axis) i := by
  refine ⟨argMaxSetup_eq (by omega), fun i inRows => ?_⟩
  rw [reportsFirstMax_iff rfl positive maxima inRows]
  intro k first
  apply Binary32.isInt_ofInt
  have less := first.less
  omega

/-- Elements of a row, with the greatest of them twice in the second of its blocks. -/
def secondBlock (p : Nat) : BitVec 8 := if p = 258 ∨ p = 259 then 7 else 4

/-- The maxima of its blocks. -/
def secondMaxima (p : Nat) : BitVec 8 := if p = 1 then 7 else 4

theorem maxima_secondBlock : TileMaxima (cpuData .int8 secondBlock) (cpuData .int8 secondMaxima)
    (argMaxDims [1, 300] 1) := by
  intro i inRows j inTiles
  obtain rfl : i = 0 := Nat.lt_one_iff.mp inRows
  have tiles : j = 0 ∨ j = 1 := by
    have bound : j < 2 := inTiles
    omega
  obtain rfl | rfl := tiles
  · exact ⟨by decide +kernel, by decide +kernel⟩
  · exact ⟨by decide +kernel, by decide +kernel⟩

theorem argMax_int8_twoBlocks :
    argMaxSetup [1, 300] 1 = some (argMaxDims [1, 300] 1) ∧
      ∀ i < (argMaxDims [1, 300] 1).outerDim, ReportsFirstMax 0x3F000000#32 none true secondBlock
        secondMaxima (argMaxDims [1, 300] 1) i :=
  argMax_int8 0x3F000000#32 none true [1, 300] 1 secondBlock secondMaxima (by decide) (by decide)
    maxima_secondBlock

/-- A row with a 1 at the place 2 ^ 24 + 1. -/
def farOne (p : Nat) : BitVec 8 := if p = 2 ^ 24 + 1 then 1 else 0

/-- The maxima of its blocks. -/
def farMaxima (p : Nat) : BitVec 8 := if p = 65536 then 1 else 0

theorem cpuData_farOne (k : Nat) : cpuData .int8 farOne k = if k = 2 ^ 24 + 1 then 1 else 0 := by
  rw [cpuData_int8, farOne]
  split
  · rfl
  · rfl

theorem cpuData_farMaxima (j : Nat) : cpuData .int8 farMaxima j = if j = 65536 then 1 else 0 := by
  rw [cpuData_int8, farMaxima]
  split
  · rfl
  · rfl

/-- The least place of the maximum is 2 ^ 24 + 1, and 2 ^ 24 is reported. -/
theorem argMax_int8_far :
    TileMaxima (cpuData .int8 farOne) (cpuData .int8 farMaxima) (argMaxDims [1, 2 ^ 24 + 2] 1) ∧
      ¬ReportsFirstMax Binary32.one none true farOne farMaxima
        (argMaxDims [1, 2 ^ 24 + 2] 1) 0 := by
  have inner : (argMaxDims [1, 2 ^ 24 + 2] 1).innerDim = 2 ^ 24 + 2 := rfl
  have maxima : TileMaxima (cpuData .int8 farOne) (cpuData .int8 farMaxima)
      (argMaxDims [1, 2 ^ 24 + 2] 1) := by
    intro i inRows j inTiles
    obtain rfl : i = 0 := Nat.lt_one_iff.mp inRows
    have bound : j < 65537 := inTiles
    rw [Nat.zero_mul, Nat.zero_add]
    constructor
    · by_cases last : j = 65536
      · refine ⟨2 ^ 24 + 1, by rw [inner]; omega, by omega, ?_⟩
        rw [row, Nat.zero_mul, Nat.zero_add, cpuData_farOne, cpuData_farMaxima, if_pos rfl,
          if_pos last]
      · refine ⟨j * 256, by rw [inner]; omega, by omega, ?_⟩
        rw [row, Nat.zero_mul, Nat.zero_add, cpuData_farOne, cpuData_farMaxima,
          if_neg (by omega), if_neg last]
    · intro k less inTile
      rw [row, Nat.zero_mul, Nat.zero_add, cpuData_farOne, cpuData_farMaxima]
      split
      · rw [if_pos (by omega)]
      · split <;> decide
  refine ⟨maxima, fun right => ?_⟩
  have first : IsFirstMax (row (cpuData .int8 farOne) (argMaxDims [1, 2 ^ 24 + 2] 1) 0)
      (2 ^ 24 + 2) (2 ^ 24 + 1) := by
    refine ⟨by omega, fun j _ => ?_, fun j before => ?_⟩
    · rw [row, row, Nat.zero_mul, Nat.zero_add, Nat.zero_add, cpuData_farOne, cpuData_farOne,
        if_pos rfl]
      split <;> decide
    · rw [row, row, Nat.zero_mul, Nat.zero_add, Nat.zero_add, cpuData_farOne, cpuData_farOne,
        if_pos rfl, if_neg (by omega)]
      decide
  have exact := (reportsFirstMax_iff rfl (by decide) maxima (by decide)).mp right _ first
  exact absurd exact.2 (by decide)

/-! ## The first version -/

section

variable {data map : Nat → Int} {dims : ArgMaxDims} {i k : Nat}

/-- The scan of the first version finds a positive maximum, or nothing. -/
theorem scanV1_spec (f : Nat → Int) (n : Nat) :
    let best := (List.range n).foldl (fun best j =>
      if f j < 0 then best else if f j > best.1 then (f j, j) else best) (0, 0)
    ((∀ j < n, f j ≤ 0) ∧ best = (0, 0)) ∨
      ∃ k, best = (f k, k) ∧ 0 < f k ∧ IsFirstMax f n k := by
  induction n with
  | zero => exact Or.inl ⟨fun j less => absurd less (Nat.not_lt_zero j), rfl⟩
  | succ n ih =>
    simp only [List.range_succ, List.foldl_append, List.foldl_cons, List.foldl_nil] at ih ⊢
    obtain ⟨none, found⟩ | ⟨k, found, positive, best⟩ := ih
    · rw [found]
      by_cases more : 0 < f n
      · refine Or.inr ⟨n, by rw [if_neg (not_lt.mpr more.le), if_pos more], more,
          Nat.lt_succ_self n, fun j less => ?_, fun j less => (none j less).trans_lt more⟩
        obtain earlier | rfl := Nat.lt_succ_iff_lt_or_eq.mp less
        · exact ((none j earlier).trans_lt more).le
        · exact le_rfl
      · refine Or.inl ⟨fun j less => ?_, ?_⟩
        · obtain earlier | rfl := Nat.lt_succ_iff_lt_or_eq.mp less
          · exact none j earlier
          · exact not_lt.mp more
        · rw [if_neg more, ite_self]
    · rw [found]
      by_cases more : f n > f k
      · refine Or.inr ⟨n, by rw [if_neg (not_lt.mpr (positive.trans more).le), if_pos more],
          positive.trans more, Nat.lt_succ_self n, fun j less => ?_,
          fun j less => (best.greatest j less).trans_lt more⟩
        obtain earlier | rfl := Nat.lt_succ_iff_lt_or_eq.mp less
        · exact ((best.greatest j earlier).trans_lt more).le
        · exact le_rfl
      · refine Or.inr ⟨k, by rw [if_neg more, ite_self], positive, Nat.lt_succ_of_lt best.less,
          fun j less => ?_, best.first⟩
        obtain earlier | rfl := Nat.lt_succ_iff_lt_or_eq.mp less
        · exact best.greatest j earlier
        · exact not_lt.mp more

/-- The row has a positive element, or a 0 in its first tile, or begins with its maximum. -/
def BeginsRight (f : Nat → Int) (n : Nat) : Prop :=
  (∃ k < n, 0 < f k) ∨ (∃ k < n, k < 256 ∧ f k = 0) ∨ ∀ k < n, f k ≤ f 0

/-- Without a positive element the first version searches a 0 in the first tile. -/
theorem argMaxRowV1_of_nonpos (best : IsFirstMax (row data dims i) dims.innerDim k)
    (atMost : ∀ j < dims.innerDim, row data dims i j ≤ 0) :
    (tileSearch data dims i 0 0 = k ↔ BeginsRight (row data dims i) dims.innerDim) ∧
      (¬ BeginsRight (row data dims i) dims.innerDim → tileSearch data dims i 0 0 = 0) := by
  by_cases zero : ∃ k < dims.innerDim, k / 256 = 0 ∧ row data dims i k = 0
  · obtain ⟨less, inTile, attains, least⟩ := tileSearch_of_exists zero
    have begins : BeginsRight (row data dims i) dims.innerDim := by
      obtain ⟨k, below, inFirst, isZero⟩ := zero
      exact Or.inr (Or.inl ⟨k, below, by omega, isZero⟩)
    have firstMax : IsFirstMax (row data dims i) dims.innerDim (tileSearch data dims i 0 0) := by
      refine ⟨less, fun j below => attains.symm ▸ atMost j below, fun j before => ?_⟩
      rw [attains]
      exact lt_of_le_of_ne (atMost j (before.trans less)) (least j before (by omega))
    exact ⟨iff_of_true (firstMax.unique best) begins, fun not => absurd begins not⟩
  · have none : tileSearch data dims i 0 0 = 0 := by
      rw [tileSearch_of_none, Nat.zero_mul]
      intro k less inTile isZero
      exact zero ⟨k, less, inTile, isZero⟩
    rw [none]
    refine ⟨⟨fun same => Or.inr (Or.inr (same ▸ best.greatest)), fun begins => ?_⟩, fun _ => rfl⟩
    obtain ⟨k, less, above⟩ | ⟨k, less, small, isZero⟩ | most := begins
    · exact absurd above (not_lt.mpr (atMost k less))
    · exact absurd ⟨k, less, by omega, isZero⟩ zero
    · by_contra differ
      have later := best.first 0 (Nat.pos_of_ne_zero (Ne.symm differ))
      exact absurd (most _ best.less) (not_le.mpr later)

/-- The first version comes to the index of the others on these rows; on all others to 0, which is
    not theirs. -/
theorem argMaxRowV1_iff (tiles : dims.tileNum = rounds dims.innerDim 256)
    (positive : 0 < dims.innerDim) (maxima : TileMaxima data map dims)
    (inRows : i < dims.outerDim) :
    (argMaxRowV1 data map dims i = (argMaxRow data map dims i).2 ↔
      BeginsRight (row data dims i) dims.innerDim) ∧
    (¬ BeginsRight (row data dims i) dims.innerDim → argMaxRowV1 data map dims i = 0) := by
  have some_tile : 0 < dims.tileNum := by
    rw [tiles]
    exact Nat.zero_lt_of_lt (div_lt_rounds (by decide) positive)
  obtain ⟨-, best⟩ := argMaxRow_spec tiles positive maxima inRows
  obtain ⟨nonpos, scanned⟩ | ⟨idx, scanned, more, first⟩ :=
    scanV1_spec (fun j => map (i * dims.tileNum + j)) dims.tileNum
  · have result : argMaxRowV1 data map dims i = tileSearch data dims i 0 0 := by
      rw [argMaxRowV1]
      simp only [scanned]
    rw [result]
    refine argMaxRowV1_of_nonpos best fun j less => ?_
    have inTiles : j / 256 < dims.tileNum := tiles ▸ div_lt_rounds (by decide) less
    exact ((maxima i inRows _ inTiles).greatest j less rfl).trans (nonpos _ inTiles)
  · -- a positive maximum is found as by the other versions
    obtain ⟨idx', first', row_eq⟩ := argMaxRow_eq data map i some_tile
    obtain rfl := first.unique first'
    have result : argMaxRowV1 data map dims i = (argMaxRow data map dims i).2 := by
      rw [row_eq, argMaxRowV1]
      simp only [scanned]
    have begins : BeginsRight (row data dims i) dims.innerDim := by
      obtain ⟨k, less, -, attains⟩ := (maxima i inRows idx first.less).attained
      exact Or.inl ⟨k, less, attains ▸ more⟩
    exact ⟨iff_of_true result begins, fun not => absurd begins not⟩

end

/-- The first version writes the indices of the third exactly when each row has a positive element,
    or a 0 in its first tile, or begins with its maximum. -/
theorem argMaxV1_iff (scale3 : Option Bits) (hasValues : Bool) (shape : List Nat) (axis : Nat)
    (data map : Nat → BitVec 8) (positive : 0 < (argMaxDims shape axis).innerDim)
    (maxima : TileMaxima (cpuData .int8 data) (cpuData .int8 map) (argMaxDims shape axis)) :
    (∃ dims, argMaxSetup shape axis = some dims ∧ argMaxRun .int8 data map dims =
        (argMaxV3Run .int8 scale3 hasValues data map dims).indices) ↔
      (argMaxDims shape axis).innerDim + 255 < 2 ^ 31 ∧
      ∀ i < (argMaxDims shape axis).outerDim,
        BeginsRight (row (cpuData .int8 data) (argMaxDims shape axis) i)
          (argMaxDims shape axis).innerDim := by
  simp only [argMaxSetup_eq_some_iff, and_assoc, exists_and_left, exists_eq_left']
  refine and_congr_right fun _ => ?_
  rw [argMaxRun, argMaxV3Run, List.map_inj_left]
  refine forall_congr' fun i => ?_
  rw [List.mem_range]
  refine forall_congr' fun inRows => ?_
  obtain ⟨same, zero⟩ := argMaxRowV1_iff rfl positive maxima inRows
  rw [← same]
  constructor
  · intro written
    by_contra differ
    rw [zero (mt same.mpr differ)] at written differ
    exact differ (Binary32.ofInt_natCast_eq_zero written.symm).symm
  · intro indices
    rw [indices]

/-- The row with the greatest elements in its second block. -/
theorem argMaxV1_iff_twoBlocks :
    (∃ dims, argMaxSetup [1, 300] 1 = some dims ∧ argMaxRun .int8 secondBlock secondMaxima dims =
        (argMaxV3Run .int8 none true secondBlock secondMaxima dims).indices) ↔
      (argMaxDims [1, 300] 1).innerDim + 255 < 2 ^ 31 ∧
      ∀ i < (argMaxDims [1, 300] 1).outerDim,
        BeginsRight (row (cpuData .int8 secondBlock) (argMaxDims [1, 300] 1) i)
          (argMaxDims [1, 300] 1).innerDim :=
  argMaxV1_iff none true [1, 300] 1 secondBlock secondMaxima (by decide) maxima_secondBlock

/-- A row of -2 and -1: the first version answers 0, the third 1. -/
theorem argMaxV1_negative :
    TileMaxima (cpuData .int8 fun p => if p = 0 then 254 else 255) (cpuData .int8 fun _ => 255)
        (argMaxDims [1, 2] 1) ∧
      ¬∃ dims, argMaxSetup [1, 2] 1 = some dims ∧
        argMaxRun .int8 (fun p => if p = 0 then 254 else 255) (fun _ => 255) dims =
          (argMaxV3Run .int8 none true (fun p => if p = 0 then 254 else 255) (fun _ => 255)
            dims).indices := by
  refine ⟨fun i inRows j inTiles => ?_, ?_⟩
  · obtain rfl : i = 0 := Nat.lt_one_iff.mp inRows
    obtain rfl : j = 0 := Nat.lt_one_iff.mp inTiles
    exact ⟨by decide, by decide⟩
  · rintro ⟨dims, setup, same⟩
    obtain ⟨-, rfl⟩ := argMaxSetup_eq_some_iff.mp setup
    exact absurd same (by decide)

end CviRuntime.CpuFunction
