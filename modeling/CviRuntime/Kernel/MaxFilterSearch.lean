import CviRuntime.Kernel.MaxFilter

/-!
# The tile search of the max filter (`src/common/kernel_function/grayImageLight.cpp`)

`calc_background` takes the first tile whose input and output fit the local memory. When none does,
the search runs out with steps of 0, and the tile loop goes on with these.
-/

namespace CviRuntime.Kernel

open CviRuntime.Interval CviRuntime.Loop CviRuntime.Strips
open CviRuntime.Runtime (toI32 toU32)

/-- `step_ih` and `step_iw` of a tile (`grayImageLight.cpp:69-76`). -/
def stepIn (i k s step : Nat) : Int := min (((step : Int) - 1) * s + k) i

/-- The local memory for the input of a tile, and for its output. -/
def inputSize (ops : PoolOps) (ih iw k s stepOh stepOw : Nat) : Nat :=
  ops.lmemTensorToSize ⟨1, 1, toU32 (stepIn ih k s stepOh), toU32 (stepIn iw k s stepOw)⟩ .u8

def outputSize (ops : PoolOps) (stepOh stepOw : Nat) : Nat :=
  ops.lmemTensorToSize ⟨1, 1, stepOh, stepOw⟩ .u8

/-- The size test (`grayImageLight.cpp:79-84`): the sizes and their sum are `int`. -/
def sizeTest (ops : PoolOps) (lmemSize ih iw k s stepOh stepOw : Nat) : Option Bool :=
  let xTlSz := toI32 (inputSize ops ih iw k s stepOh stepOw)
  let yTlSz := toI32 (outputSize ops stepOh stepOw)
  checked [xTlSz + yTlSz] (decide (xTlSz + yTlSz ≤ toI32 lmemSize))

/-- The body of the search loops: the steps and `x_tl_sz` where it leaves them. -/
def tryTile (ops : PoolOps) (lmemSize ih iw k s stepOw stepOh : Nat) :
    Option (Option (Nat × Nat × Int)) :=
  (checked [(stepOh : Int) - 1, ((stepOh : Int) - 1) * s, ((stepOh : Int) - 1) * s + k,
      (stepOw : Int) - 1, ((stepOw : Int) - 1) * s, ((stepOw : Int) - 1) * s + k] ()).bind fun _ =>
    (sizeTest ops lmemSize ih iw k s stepOh stepOw).map fun fits =>
      if fits then some (stepOh, stepOw, toI32 (inputSize ops ih iw k s stepOh stepOw)) else none

/-- The search (`grayImageLight.cpp:67-88`). -/
def searchTile (ops : PoolOps) (lmemSize ih iw oh ow k s : Nat) :
    Option (Option (Nat × Nat × Int)) :=
  countdown (fun stepOw => countdown (tryTile ops lmemSize ih iw k s stepOw) oh) ow

/-- `calc_background`. A search that runs out leaves steps of 0 and the size of the tile it tried
    last. -/
def calcBackground (ops : PoolOps) (lmemSize fuel ih iw oh ow k s pad : Nat) :
    Option (List Tile) :=
  (searchTile ops lmemSize ih iw oh ow k s).bind fun found =>
    let tile := found.getD (0, 0, toI32 (inputSize ops ih iw k s 1 1))
    tileLoop ops fuel ih iw oh ow k s pad tile.1 tile.2.1 tile.2.2

/-- The input of a tile ends before its output begins, which ends inside the local memory. -/
structure Tile.Fits (ops : PoolOps) (lmemSize : Nat) (tile : Tile) : Prop where
  input : tile.pool.ifmap.startAddress +
    ops.lmemTensorToSize tile.pool.ifmap.shape tile.pool.ifmap.fmt ≤ tile.pool.ofmap.startAddress
  output : tile.pool.ofmap.startAddress +
    ops.lmemTensorToSize tile.pool.ofmap.shape tile.pool.ofmap.fmt ≤ lmemSize

/-- The size function returns a `uint32_t`, and more for a larger tensor. -/
structure PoolOps.Monotone (ops : PoolOps) : Prop where
  word : ∀ shape fmt, ops.lmemTensorToSize shape fmt < 2 ^ 32
  monotone : ∀ {h h' w w' : Nat}, h ≤ h' → w ≤ w' →
    ops.lmemTensorToSize ⟨1, 1, h, w⟩ .u8 ≤ ops.lmemTensorToSize ⟨1, 1, h', w'⟩ .u8

/-- The tile is the first one in the search order (wide ones first, among them high ones) that the
    size test takes, it fits the local memory, and the tile loop can go on with it. -/
structure TakesTile (ops : PoolOps) (lmemSize ih iw k stepOh stepOw : Nat) : Prop where
  ohIn : 0 < stepOh ∧ stepOh ≤ ih
  owIn : 0 < stepOw ∧ stepOw ≤ iw
  taken : sizeTest ops lmemSize ih iw k 1 stepOh stepOw = some true
  higher : ∀ oh, stepOh < oh → oh ≤ ih → sizeTest ops lmemSize ih iw k 1 oh stepOw = some false
  wider : ∀ oh ow, stepOw < ow → ow ≤ iw → 0 < oh → oh ≤ ih →
    sizeTest ops lmemSize ih iw k 1 oh ow = some false
  fits : inputSize ops ih iw k 1 stepOh stepOw + outputSize ops stepOh stepOw ≤ lmemSize
  inRange : TilesInRange ih iw k stepOh stepOw

/-- `calc_background` ends, and its tiles fit. -/
def BackgroundFits (ops : PoolOps) (lmemSize ih iw k : Nat) : Prop :=
  ∃ fuel tiles, calcBackground ops lmemSize fuel ih iw ih iw k 1 ((k - 1) / 2) = some tiles ∧
    ∀ tile ∈ tiles, tile.Fits ops lmemSize

/-- Sizes far from the limits of `int`. -/
structure OrdinarySizes (ops : PoolOps) (lmemSize ih iw k : Nat) : Prop where
  lmem : lmemSize < 2 ^ 31
  image : ops.lmemTensorToSize ⟨1, 1, ih, iw⟩ .u8 < 2 ^ 30
  rows : ih + k ≤ 2 ^ 31 ∧ ih ≤ 2 ^ 30
  cols : iw + k ≤ 2 ^ 31 ∧ iw ≤ 2 ^ 30
  pixels : ih * iw ≤ 2 ^ 31

section

variable {ops : PoolOps} {lmemSize ih iw k stepOh stepOw fuel : Nat} {xTlSz : Int}

theorem stepIn_eq {i step : Nat} (stepPos : 0 < step) :
    stepIn i k 1 step = (min (step - 1 + k) i : Nat) := by
  rw [stepIn]
  omega

theorem toU32_toI32 {value : Nat} (small : value < 2 ^ 32) : toU32 (toI32 value) = value := by
  rw [toU32, toI32]
  split <;> omega

/-- The body of the search loops is the size test. -/
theorem tryTile_eq (rows : stepOh + k ≤ 2 ^ 31) (cols : stepOw + k ≤ 2 ^ 31) (ohPos : 0 < stepOh)
    (owPos : 0 < stepOw) :
    tryTile ops lmemSize ih iw k 1 stepOw stepOh =
      (sizeTest ops lmemSize ih iw k 1 stepOh stepOw).map fun fits =>
        if fits then some (stepOh, stepOw, toI32 (inputSize ops ih iw k 1 stepOh stepOw))
        else none := by
  rw [tryTile, checked, if_pos, Option.bind_some]
  simp only [List.forall_mem_cons, InInt32, Nat.cast_one, Int.mul_one]
  refine ⟨?_, ?_, ?_, ?_, ?_, ?_, List.forall_mem_nil _⟩ <;> omega

theorem tryTile_inRange (ends : (tryTile ops lmemSize ih iw k 1 stepOw stepOh).isSome) :
    stepOh + k ≤ 2 ^ 31 ∧ stepOw + k ≤ 2 ^ 31 := by
  obtain ⟨_, ends⟩ := Option.isSome_iff_exists.mp ends
  obtain ⟨_, results, -⟩ := Option.bind_eq_some_iff.mp ends
  have inRange := (checked_eq_some.mp results).1
  simp only [List.forall_mem_cons, InInt32, Nat.cast_one, Int.mul_one] at inRange
  omega

/-- With steps of 0 the tile loop does not end. -/
theorem tileLoop_zero {oh ow s pad : Nat} (ohPos : 0 < oh) (owPos : 0 < ow) :
    tileLoop ops fuel ih iw oh ow k s pad 0 0 xTlSz = none := by
  have still : checkedAdd (2 ^ 31) 0 0 = some 0 := by decide
  have columns : ∀ gaStride row, tileRow gaStride fuel iw ow k s pad 0 xTlSz row = none :=
    fun gaStride row => forUp_stuck owPos still fuel
  rw [tileLoop, Option.map_eq_none_iff]
  cases fuel with
  | zero => rfl
  | succ fuel =>
    rw [forUp, if_pos ohPos]
    cases axisTile ih oh k s pad 0 0 with
    | none => rfl
    | some row => rw [Option.bind_some, columns, Option.bind_none]

/-- What the search settles on. -/
theorem searchTile_some_iff (rows : ih + k ≤ 2 ^ 31) (cols : iw + k ≤ 2 ^ 31) :
    searchTile ops lmemSize ih iw ih iw k 1 = some (some (stepOh, stepOw, xTlSz)) ↔
      ((0 < stepOh ∧ stepOh ≤ ih) ∧ 0 < stepOw ∧ stepOw ≤ iw) ∧
        (sizeTest ops lmemSize ih iw k 1 stepOh stepOw = some true ∧
          xTlSz = toI32 (inputSize ops ih iw k 1 stepOh stepOw)) ∧
        (∀ oh, stepOh < oh → oh ≤ ih → sizeTest ops lmemSize ih iw k 1 oh stepOw = some false) ∧
        ∀ oh ow, stepOw < ow → ow ≤ iw → 0 < oh → oh ≤ ih →
          sizeTest ops lmemSize ih iw k 1 oh ow = some false := by
  have hit : ∀ {oh ow}, 0 < oh → oh ≤ ih → 0 < ow → ow ≤ iw → ∀ taken,
      (tryTile ops lmemSize ih iw k 1 ow oh = some (some taken) ↔
        sizeTest ops lmemSize ih iw k 1 oh ow = some true ∧
          taken = (oh, ow, toI32 (inputSize ops ih iw k 1 oh ow))) := by
    intro oh ow ohPos ohLe owPos owLe taken
    rw [tryTile_eq (by omega) (by omega) ohPos owPos]
    cases sizeTest ops lmemSize ih iw k 1 oh ow with
    | none => simp
    | some fits => cases fits <;> simp [eq_comm]
  have miss : ∀ {oh ow}, 0 < oh → oh ≤ ih → 0 < ow → ow ≤ iw →
      (tryTile ops lmemSize ih iw k 1 ow oh = some none ↔
        sizeTest ops lmemSize ih iw k 1 oh ow = some false) := by
    intro oh ow ohPos ohLe owPos owLe
    rw [tryTile_eq (by omega) (by omega) ohPos owPos]
    cases sizeTest ops lmemSize ih iw k 1 oh ow with
    | none => simp
    | some fits => cases fits <;> simp
  rw [searchTile, countdown_eq_hit]
  simp only [countdown_eq_hit, countdown_eq_miss]
  constructor
  · rintro ⟨ow, owIn, ⟨oh, ohIn, taken, higher⟩, wider⟩
    obtain ⟨fits, same⟩ := (hit ohIn.1 ohIn.2 owIn.1 owIn.2 _).mp taken
    obtain ⟨rfl, rfl, rfl⟩ : stepOh = oh ∧ stepOw = ow ∧ _ := by simpa using same
    refine ⟨⟨ohIn, owIn⟩, ⟨fits, rfl⟩, ?_, ?_⟩
    · intro oh above below
      exact (miss (by omega) below owIn.1 owIn.2).mp (higher oh above below)
    · intro oh ow above below ohPos ohLe
      exact (miss ohPos ohLe (by omega) below).mp (wider ow above below oh ohPos ohLe)
  · rintro ⟨⟨ohIn, owIn⟩, ⟨fits, rfl⟩, higher, wider⟩
    refine ⟨stepOw, owIn, ⟨stepOh, ohIn, (hit ohIn.1 ohIn.2 owIn.1 owIn.2 _).mpr ⟨fits, rfl⟩, ?_⟩,
      ?_⟩
    · intro oh above below
      exact (miss (by omega) below owIn.1 owIn.2).mpr (higher oh above below)
    · intro ow above below oh ohPos ohLe
      exact (miss ohPos ohLe (by omega) below).mpr (wider oh ow above below ohPos ohLe)

/-- The search begins with the whole image, whose sizes it computes. -/
theorem searchTile_inRange (ihPos : 0 < ih) (iwPos : 0 < iw)
    (ends : (searchTile ops lmemSize ih iw ih iw k 1).isSome) :
    ih + k ≤ 2 ^ 31 ∧ iw + k ≤ 2 ^ 31 := by
  have columns := countdown_first iwPos ends
  exact tryTile_inRange (countdown_first ihPos columns)

theorem AxisTile.Exact.curIn_le {t : AxisTile} {i step pos : Nat} (exact : t.Exact i k step pos)
    (iSmall : i < 2 ^ 31) (stepPos : 0 < step) : t.curIn.toNat ≤ toU32 (stepIn i k 1 step) := by
  have cur := exact.cur
  have low := exact.low
  have inside := exact.inside
  have pads := exact.pads
  have sum := exact.sum
  rw [stepIn_eq stepPos, toU32_natCast_of_lt (by omega)]
  omega

/-- The sizes of the tiles are at most those that the search computed. -/
theorem inputSize_le (monotone : ops.Monotone) {tile : Tile} {ohPos owPos : Nat}
    (ihSmall : ih < 2 ^ 31) (iwSmall : iw < 2 ^ 31) (stepOhPos : 0 < stepOh)
    (stepOwPos : 0 < stepOw) (exact : tile.Exact ih iw k stepOh stepOw xTlSz ohPos owPos) :
    ops.lmemTensorToSize tile.pool.ifmap.shape tile.pool.ifmap.fmt ≤
      inputSize ops ih iw k 1 stepOh stepOw := by
  rw [exact.pool]
  exact monotone.monotone (exact.rows.curIn_le ihSmall stepOhPos)
    (exact.cols.curIn_le iwSmall stepOwPos)

theorem outputSize_le (monotone : ops.Monotone) {tile : Tile} {ohPos owPos : Nat}
    (exact : tile.Exact ih iw k stepOh stepOw xTlSz ohPos owPos) :
    ops.lmemTensorToSize tile.pool.ofmap.shape tile.pool.ofmap.fmt ≤
      outputSize ops stepOh stepOw := by
  have rows := exact.rows.cur
  have cols := exact.cols.cur
  rw [exact.pool]
  exact monotone.monotone (by omega) (by omega)

theorem Tile.Exact.start (monotone : ops.Monotone) {tile : Tile} {ohPos owPos : Nat}
    (exact : tile.Exact ih iw k stepOh stepOw (toI32 (inputSize ops ih iw k 1 stepOh stepOw))
      ohPos owPos) :
    tile.pool.ofmap.startAddress = inputSize ops ih iw k 1 stepOh stepOw := by
  rw [exact.pool]
  exact toU32_toI32 (monotone.word _ _)

/-- The output of the first tile is as large as the search assumed. -/
theorem exists_first_tile {tiles : List Tile} (ihPos : 0 < ih) (iwPos : 0 < iw)
    (ohIn : 0 < stepOh ∧ stepOh ≤ ih) (owIn : 0 < stepOw ∧ stepOw ≤ iw)
    (outputs : tiles.map Tile.outputs = grid (strips ih stepOh) (strips iw stepOw))
    (each : ∀ tile ∈ tiles, ∃ ohPos < ih, ∃ owPos < iw,
      tile.Exact ih iw k stepOh stepOw xTlSz ohPos owPos) :
    ∃ tile ∈ tiles, tile.Exact ih iw k stepOh stepOw xTlSz 0 0 ∧
      ops.lmemTensorToSize tile.pool.ofmap.shape tile.pool.ofmap.fmt =
        outputSize ops stepOh stepOw := by
  have partition : TilesRect ih iw (tiles.map Tile.outputs) := by
    rw [outputs]
    exact tilesRect_grid (tiles_strips ohIn.1) (tiles_strips owIn.1)
  obtain ⟨rect, inOutputs, contains⟩ := partition.exists_mem ihPos iwPos
  obtain ⟨tile, member, rfl⟩ := List.mem_map.mp inOutputs
  obtain ⟨ohPos, -, owPos, -, exact⟩ := each tile member
  obtain ⟨⟨rowFrom, -⟩, colFrom, -⟩ := contains
  have rowPlace : tile.row.pos = ohPos := exact.rows.place
  have colPlace : tile.col.pos = owPos := exact.cols.place
  obtain rfl : ohPos = 0 := by
    rw [← rowPlace]
    exact Nat.le_zero.mp rowFrom
  obtain rfl : owPos = 0 := by
    rw [← colPlace]
    exact Nat.le_zero.mp colFrom
  refine ⟨tile, member, exact, ?_⟩
  rw [exact.pool, exact.rows.cur, exact.cols.cur, Nat.sub_zero, Nat.sub_zero,
    Nat.min_eq_right ohIn.2, Nat.min_eq_right owIn.2]
  rfl

/-- When `calc_background` ends, it has taken the first tile that the size test takes. -/
theorem calcBackground_takes {pad : Nat} {tiles : List Tile} (ihPos : 0 < ih) (iwPos : 0 < iw)
    (ends : calcBackground ops lmemSize fuel ih iw ih iw k 1 pad = some tiles) :
    ∃ stepOh stepOw, ((0 < stepOh ∧ stepOh ≤ ih) ∧ 0 < stepOw ∧ stepOw ≤ iw) ∧
      sizeTest ops lmemSize ih iw k 1 stepOh stepOw = some true ∧
      (∀ oh, stepOh < oh → oh ≤ ih → sizeTest ops lmemSize ih iw k 1 oh stepOw = some false) ∧
      (∀ oh ow, stepOw < ow → ow ≤ iw → 0 < oh → oh ≤ ih →
        sizeTest ops lmemSize ih iw k 1 oh ow = some false) ∧
      tileLoop ops fuel ih iw ih iw k 1 pad stepOh stepOw
        (toI32 (inputSize ops ih iw k 1 stepOh stepOw)) = some tiles := by
  obtain ⟨found, searched, ends⟩ := Option.bind_eq_some_iff.mp ends
  cases found with
  | none =>
    rw [Option.getD_none, tileLoop_zero ihPos iwPos] at ends
    cases ends
  | some taken =>
    obtain ⟨stepOh, stepOw, xTlSz⟩ := taken
    have inRange := searchTile_inRange ihPos iwPos (Option.isSome_of_eq_some searched)
    obtain ⟨inImage, ⟨taken, rfl⟩, higher, wider⟩ :=
      (searchTile_some_iff inRange.1 inRange.2).mp searched
    exact ⟨stepOh, stepOw, inImage, taken, higher, wider, ends⟩

/-- Whenever `calc_background` ends, its tiles are exact. -/
theorem calcBackground_exact {tiles : List Tile} (lawful : ops.Lawful) (ihPos : 0 < ih)
    (ihSmall : ih < 2 ^ 31) (iwPos : 0 < iw) (iwSmall : iw < 2 ^ 31) (kPos : 0 < k)
    (kSmall : k < 2 ^ 31)
    (ends : calcBackground ops lmemSize fuel ih iw ih iw k 1 ((k - 1) / 2) = some tiles) :
    ∃ stepOh stepOw xTlSz, TilesExact ops ih iw k stepOh stepOw xTlSz tiles := by
  obtain ⟨stepOh, stepOw, ⟨ohIn, owIn⟩, -, -, -, ends⟩ := calcBackground_takes ihPos iwPos ends
  exact ⟨stepOh, stepOw, _, tilesExact_of_tileLoop lawful ihPos ihSmall iwPos iwSmall kPos kSmall
    ohIn.1 owIn.1 ends⟩

/-- `calc_background` ends, and all its tiles fit, exactly when the search takes a tile. -/
theorem backgroundFits_iff (dense : IsDense ops.tgDefaultStride) (monotone : ops.Monotone)
    (ihPos : 0 < ih) (ihSmall : ih < 2 ^ 31) (iwPos : 0 < iw) (iwSmall : iw < 2 ^ 31) (kPos : 0 < k)
    (kSmall : k < 2 ^ 31) :
    BackgroundFits ops lmemSize ih iw k ↔
      ∃ stepOh stepOw, TakesTile ops lmemSize ih iw k stepOh stepOw := by
  constructor
  · rintro ⟨fuel, tiles, ends, fits⟩
    obtain ⟨stepOh, stepOw, ⟨ohIn, owIn⟩, taken, higher, wider, ends⟩ :=
      calcBackground_takes ihPos iwPos ends
    obtain ⟨loopInRange, outputs, each⟩ := tileLoop_exact dense ihPos ihSmall iwPos iwSmall kPos
      kSmall ohIn.1 owIn.1 ends
    obtain ⟨tile, member, exact, output⟩ := exists_first_tile ihPos iwPos ohIn owIn outputs each
    have last := (fits tile member).output
    rw [exact.start monotone, output] at last
    exact ⟨stepOh, stepOw, ohIn, owIn, taken, higher, wider, last, loopInRange⟩
  · rintro ⟨stepOh, stepOw, takes⟩
    have searched := (searchTile_some_iff takes.inRange.rows takes.inRange.cols).mpr
      ⟨⟨takes.ohIn, takes.owIn⟩, ⟨takes.taken, rfl⟩, takes.higher, takes.wider⟩
    have ends : (tileLoop ops _ ih iw ih iw k 1 ((k - 1) / 2) stepOh stepOw
        (toI32 (inputSize ops ih iw k 1 stepOh stepOw))).isSome :=
      tileLoop_isSome ihPos ihSmall iwPos iwSmall kPos kSmall takes.ohIn.1 takes.owIn.1
        takes.inRange (Nat.lt_succ_of_le (Nat.le_max_left _ (rounds iw stepOw)))
        (Nat.lt_succ_of_le (Nat.le_max_right (rounds ih stepOh) _))
    obtain ⟨tiles, ends⟩ := Option.isSome_iff_exists.mp ends
    refine ⟨_, tiles, Option.bind_eq_some_iff.mpr ⟨_, searched, ends⟩, fun tile member => ?_⟩
    obtain ⟨-, -, each⟩ := tileLoop_exact dense ihPos ihSmall iwPos iwSmall kPos kSmall
      takes.ohIn.1 takes.owIn.1 ends
    obtain ⟨ohPos, -, owPos, -, exact⟩ := each tile member
    have fits := takes.fits
    have input := inputSize_le monotone ihSmall iwSmall takes.ohIn.1 takes.owIn.1 exact
    have output := outputSize_le monotone exact
    have start := exact.start monotone
    have inputStart : tile.pool.ifmap.startAddress = 0 := by rw [exact.pool]
    exact ⟨by omega, by omega⟩

/-! ## Sizes far from the limits of `int` -/

theorem inputSize_mono (monotone : ops.Monotone) (ihSmall : ih < 2 ^ 31) (iwSmall : iw < 2 ^ 31)
    {oh ow : Nat} (ohPos : 0 < oh) (owPos : 0 < ow) (ohLe : oh ≤ stepOh) (owLe : ow ≤ stepOw) :
    inputSize ops ih iw k 1 oh ow ≤ inputSize ops ih iw k 1 stepOh stepOw := by
  refine monotone.monotone ?_ ?_
  · rw [stepIn_eq ohPos, stepIn_eq (by omega), toU32_natCast_of_lt (by omega),
      toU32_natCast_of_lt (by omega)]
    omega
  · rw [stepIn_eq owPos, stepIn_eq (by omega), toU32_natCast_of_lt (by omega),
      toU32_natCast_of_lt (by omega)]
    omega

theorem inputSize_le_image (monotone : ops.Monotone) (ihSmall : ih < 2 ^ 31)
    (iwSmall : iw < 2 ^ 31) (ohPos : 0 < stepOh) (owPos : 0 < stepOw) :
    inputSize ops ih iw k 1 stepOh stepOw ≤ ops.lmemTensorToSize ⟨1, 1, ih, iw⟩ .u8 := by
  refine monotone.monotone ?_ ?_
  · rw [stepIn_eq ohPos, toU32_natCast_of_lt (by omega)]
    omega
  · rw [stepIn_eq owPos, toU32_natCast_of_lt (by omega)]
    omega

/-- Far from the limits the size test compares the sizes themselves. -/
theorem sizeTest_eq (monotone : ops.Monotone) (ordinary : OrdinarySizes ops lmemSize ih iw k)
    (ohIn : 0 < stepOh ∧ stepOh ≤ ih) (owIn : 0 < stepOw ∧ stepOw ≤ iw) :
    sizeTest ops lmemSize ih iw k 1 stepOh stepOw = some (decide
      (inputSize ops ih iw k 1 stepOh stepOw + outputSize ops stepOh stepOw ≤ lmemSize)) := by
  have rows := ordinary.rows
  have cols := ordinary.cols
  have lmem := ordinary.lmem
  have image := ordinary.image
  have input : inputSize ops ih iw k 1 stepOh stepOw ≤ _ :=
    inputSize_le_image monotone (by omega) (by omega) ohIn.1 owIn.1
  have output : outputSize ops stepOh stepOw ≤ ops.lmemTensorToSize ⟨1, 1, ih, iw⟩ .u8 :=
    monotone.monotone ohIn.2 owIn.2
  rw [sizeTest, toI32, toI32, toI32, if_pos (by omega), if_pos (by omega), if_pos lmem, checked,
    if_pos (by simp only [List.forall_mem_cons, InInt32]; exact ⟨by omega, List.forall_mem_nil _⟩)]
  congr 1
  exact decide_eq_decide.mpr (by omega)

theorem OrdinarySizes.tilesInRange (ordinary : OrdinarySizes ops lmemSize ih iw k)
    (ihPos : 0 < ih) (iwPos : 0 < iw) (ohIn : 0 < stepOh ∧ stepOh ≤ ih)
    (owIn : 0 < stepOw ∧ stepOw ≤ iw) : TilesInRange ih iw k stepOh stepOw where
  rows := ordinary.rows.1
  cols := ordinary.cols.1
  rowAdvance := by
    have : lastPos ih stepOh < ih := lastPos_lt ihPos
    have := ordinary.rows.2
    omega
  colAdvance := by
    have : lastPos iw stepOw < iw := lastPos_lt iwPos
    have := ordinary.cols.2
    omega
  address := (Nat.mul_lt_mul_of_pos_right (lastPos_lt ihPos) iwPos).trans_le ordinary.pixels

/-- Far from the limits the search fails only when the smallest tile does not fit. -/
theorem takesTile_iff (monotone : ops.Monotone) (ordinary : OrdinarySizes ops lmemSize ih iw k)
    (ihPos : 0 < ih) (iwPos : 0 < iw) :
    (∃ stepOh stepOw, TakesTile ops lmemSize ih iw k stepOh stepOw) ↔
      inputSize ops ih iw k 1 1 1 + outputSize ops 1 1 ≤ lmemSize := by
  have rows := ordinary.rows
  have cols := ordinary.cols
  constructor
  · rintro ⟨stepOh, stepOw, takes⟩
    have fits := takes.fits
    have input : inputSize ops ih iw k 1 1 1 ≤ inputSize ops ih iw k 1 stepOh stepOw :=
      inputSize_mono monotone (by omega) (by omega) Nat.one_pos Nat.one_pos takes.ohIn.1
        takes.owIn.1
    have output : outputSize ops 1 1 ≤ outputSize ops stepOh stepOw :=
      monotone.monotone takes.ohIn.1 takes.owIn.1
    omega
  · intro smallest
    have ends : (searchTile ops lmemSize ih iw ih iw k 1).isSome :=
      countdown_isSome fun ow owPos owLe => countdown_isSome fun oh ohPos ohLe => by
        rw [tryTile_eq (by omega) (by omega) ohPos owPos,
          sizeTest_eq monotone ordinary ⟨ohPos, ohLe⟩ ⟨owPos, owLe⟩]
        rfl
    obtain ⟨found, ends⟩ := Option.isSome_iff_exists.mp ends
    cases found with
    | none =>
      have missed := countdown_eq_miss.mp (countdown_eq_miss.mp ends 1 Nat.one_pos iwPos) 1
        Nat.one_pos ihPos
      rw [tryTile_eq (by omega) (by omega) Nat.one_pos Nat.one_pos,
        sizeTest_eq monotone ordinary ⟨Nat.one_pos, ihPos⟩ ⟨Nat.one_pos, iwPos⟩,
        decide_eq_true smallest] at missed
      cases missed
    | some taken =>
      obtain ⟨stepOh, stepOw, xTlSz⟩ := taken
      obtain ⟨⟨ohIn, owIn⟩, ⟨taken, -⟩, higher, wider⟩ :=
        (searchTile_some_iff rows.1 cols.1).mp ends
      have fits := taken
      rw [sizeTest_eq monotone ordinary ohIn owIn] at fits
      exact ⟨stepOh, stepOw, ohIn, owIn, taken, higher, wider,
        of_decide_eq_true (Option.some.inj fits),
        ordinary.tilesInRange ihPos iwPos ohIn owIn⟩

/-- Where the smallest tile does not fit, `calc_background` does not return. -/
theorem calcBackground_hangs (monotone : ops.Monotone)
    (ordinary : OrdinarySizes ops lmemSize ih iw k) (ihPos : 0 < ih) (iwPos : 0 < iw)
    (large : lmemSize < inputSize ops ih iw k 1 1 1 + outputSize ops 1 1) (fuel pad : Nat) :
    calcBackground ops lmemSize fuel ih iw ih iw k 1 pad = none := by
  have rows := ordinary.rows
  have cols := ordinary.cols
  have missed : searchTile ops lmemSize ih iw ih iw k 1 = some none :=
    countdown_eq_miss.mpr fun ow owPos owLe => countdown_eq_miss.mpr fun oh ohPos ohLe => by
      have input : inputSize ops ih iw k 1 1 1 ≤ inputSize ops ih iw k 1 oh ow :=
        inputSize_mono monotone (by omega) (by omega) Nat.one_pos Nat.one_pos ohPos owPos
      have output : outputSize ops 1 1 ≤ outputSize ops oh ow := monotone.monotone ohPos owPos
      rw [tryTile_eq (by omega) (by omega) ohPos owPos,
        sizeTest_eq monotone ordinary ⟨ohPos, ohLe⟩ ⟨owPos, owLe⟩, decide_eq_false (by omega)]
      rfl
  rw [calcBackground, missed, Option.bind_some]
  exact tileLoop_zero ihPos iwPos

/-- For positive `int` sizes and a monotone size function `calc_background` ends with tiles that
    fit exactly when the search takes a tile that does and that the tile loop can go on with.
    Far from the limits of `int` this is when the smallest tile fits; otherwise the function does
    not return. -/
theorem calc_background_fits_iff (ops : PoolOps) (dense : IsDense ops.tgDefaultStride)
    (monotone : ops.Monotone) (lmemSize ih iw k : Nat) (ihPos : 0 < ih) (ihSmall : ih < 2 ^ 31)
    (iwPos : 0 < iw) (iwSmall : iw < 2 ^ 31) (kPos : 0 < k) (kSmall : k < 2 ^ 31) :
    (BackgroundFits ops lmemSize ih iw k ↔
      ∃ stepOh stepOw, TakesTile ops lmemSize ih iw k stepOh stepOw) ∧
    (OrdinarySizes ops lmemSize ih iw k →
      (BackgroundFits ops lmemSize ih iw k ↔
        inputSize ops ih iw k 1 1 1 + outputSize ops 1 1 ≤ lmemSize)) := by
  have general : BackgroundFits ops lmemSize ih iw k ↔ _ :=
    backgroundFits_iff dense monotone ihPos ihSmall iwPos iwSmall kPos kSmall
  exact ⟨general, fun ordinary => general.trans (takesTile_iff monotone ordinary ihPos iwPos)⟩

end

theorem poolOps_monotone : poolOps.Monotone where
  word shape _ := Nat.lt_of_le_of_lt (Nat.min_le_right _ _) (by decide)
  monotone h w := by
    have sizes := Nat.mul_le_mul h w
    simp only [poolOps, Nat.one_mul]
    omega

theorem calc_background_fits_iff_small :
    (BackgroundFits poolOps 24 5 4 3 ↔
      ∃ stepOh stepOw, TakesTile poolOps 24 5 4 3 stepOh stepOw) ∧
    BackgroundFits poolOps 24 5 4 3 :=
  have result := calc_background_fits_iff poolOps poolOps_lawful.dense poolOps_monotone 24 5 4 3
    (by decide) (by decide) (by decide) (by decide) (by decide) (by decide)
  ⟨result.1, (result.2 ⟨by decide, by decide, by decide, by decide, by decide⟩).mpr (by decide)⟩

/-- A kernel of 200 by 200 pixels does not fit a local memory of 32 KiB. -/
theorem calc_background_large_kernel :
    ¬ ∃ fuel tiles, calcBackground poolOps 32768 fuel 480 640 480 640 200 1 99 = some tiles := by
  rintro ⟨fuel, tiles, ends⟩
  rw [calcBackground_hangs poolOps_monotone ⟨by decide, by decide, by decide, by decide, by decide⟩
    (by decide) (by decide) (by decide)] at ends
  cases ends

end CviRuntime.Kernel
