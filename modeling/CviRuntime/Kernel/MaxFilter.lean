import CviRuntime.Kernel.Cvk
import CviRuntime.Lib.Strips
import CviRuntime.Runtime.AlignedFrames

/-!
# The tiles of the max filter (`src/common/kernel_function/grayImageLight.cpp`)

`calc_background` cuts the output of a max filter into tiles and loads for each of them the part of
the image that its windows reach. Where a window reaches over the border of the image, the tile is
padded on that side.
-/

namespace CviRuntime.Kernel

open CviRuntime.Interval CviRuntime.Loop CviRuntime.Strips
open CviRuntime.Runtime (toI32 toU32)

/-- What the tile loop computes for one axis of a tile: `oh_pos`, `cur_oh`, `ih_top`, `cur_ih`,
    `cur_pad_t` and `cur_pad_b` for the rows, and the same for the columns. -/
structure AxisTile where
  pos : Nat
  cur : Int
  low : Int
  curIn : Int
  padLow : Int
  padHigh : Int
  deriving DecidableEq, Repr

/-- `grayImageLight.cpp:93-100` for the rows and `103-110` for the columns. -/
def axisTile (i o k s pad step pos : Nat) : Option AxisTile :=
  let cur : Int := min ((o : Int) - pos) step
  let reach : Int := (pos + cur - 1) * s + k - pad
  let low : Int := max ((pos : Int) * s - pad) 0
  let high : Int := min reach i
  checked
    ([(o : Int) - pos, pos + cur, (pos : Int) * s, (pos : Int) * s - pad, pos + cur - 1,
      (pos + cur - 1) * s, (pos + cur - 1) * s + k, reach, high - low] ++
      (if low = 0 then [(pad : Int) - pos * s] else []) ++ if high = i then [reach - i] else [])
    { pos := pos
      cur := cur
      low := low
      curIn := high - low
      padLow := if low = 0 then (pad : Int) - pos * s else 0
      padHigh := if high = i then reach - i else 0 }

/-- `cvk_tiu_max_pooling_param_t`. -/
structure MaxPooling where
  ofmap : Tl
  ifmap : Tl
  kh : Nat
  kw : Nat
  padTop : Int
  padBottom : Int
  padLeft : Int
  padRight : Int
  strideH : Nat
  strideW : Nat
  deriving DecidableEq, Repr

/-- The commands of a tile. -/
structure Tile where
  row : AxisTile
  col : AxisTile
  load : Tg
  pool : MaxPooling
  store : Tg
  deriving DecidableEq, Repr

/-- The functions of the kernel library that the filter uses. -/
structure PoolOps where
  tgDefaultStride : TgShape → CvkFmt → TgStride
  lmemTensorToSize : TgShape → CvkFmt → Nat
  tdmaG2lTensorCopy : Tg → Tl → Buffers → TgIndex → UInt8
  tiuMaxPooling : MaxPooling → (TgIndex → UInt8) → TgIndex → UInt8
  tdmaL2gTensorCopy : Tl → Tg → (TgIndex → UInt8) → Buffers → Buffers

/-- `x_ga + row * width + col` with a product in `int` and sums in `uint64_t`. -/
def gaddr (row width col : Int) : Nat := ((row * width + col) % 2 ^ 64).toNat

/-- The body of the inner loop (`grayImageLight.cpp:111-137`). -/
def tileAt (gaStride : TgStride) (iw ow k : Nat) (xTlSz : Int) (row col : AxisTile) :
    Option Tile :=
  let x : Tl := {
    startAddress := 0
    fmt := .u8
    shape := ⟨1, 1, toU32 row.curIn, toU32 col.curIn⟩ }
  let bkg : Tl := {
    startAddress := toU32 xTlSz
    fmt := .u8
    shape := ⟨1, 1, toU32 row.cur, toU32 col.cur⟩ }
  checked [row.low * iw, row.pos * ow]
    { row := row
      col := col
      load := ⟨2, gaddr row.low iw col.low, .u8, x.shape, gaStride⟩
      pool := ⟨bkg, x, k, k, row.padLow, row.padHigh, col.padLow, col.padHigh, 1, 1⟩
      store := ⟨3, gaddr row.pos ow col.pos, .u8, bkg.shape, gaStride⟩ }

/-- The inner loop, over the columns. -/
def tileRow (gaStride : TgStride) (fuel iw ow k s pad stepOw : Nat) (xTlSz : Int)
    (row : AxisTile) : Option (List Tile) :=
  forUp (checkedAdd (2 ^ 31) stepOw)
    (fun owPos => (axisTile iw ow k s pad stepOw owPos).bind
      (tileAt gaStride iw ow k xTlSz row)) ow fuel 0

/-- The tile loop of `calc_background` (`grayImageLight.cpp:88-139`). -/
def tileLoop (ops : PoolOps) (fuel ih iw oh ow k s pad stepOh stepOw : Nat) (xTlSz : Int) :
    Option (List Tile) :=
  (forUp (checkedAdd (2 ^ 31) stepOh)
    (fun ohPos => (axisTile ih oh k s pad stepOh ohPos).bind
      (tileRow (ops.tgDefaultStride ⟨1, 1, ih, iw⟩ .u8) fuel iw ow k s pad stepOw xTlSz))
    oh fuel 0).map List.flatten

/-! ## What the commands compute -/

/-- The largest of some bytes, 0 if there are none. -/
def maxOf (values : List UInt8) : UInt8 := values.foldr max 0

/-- The elements of a `kh` by `kw` window with its corner at `(r, c)` that lie in a map of `h` by
    `w` elements. -/
def windowValues (kh kw : Nat) (r c : Int) (h w : Nat) (value : Nat → Nat → UInt8) : List UInt8 :=
  (List.range kh).flatMap fun a : Nat => (List.range kw).filterMap fun b : Nat =>
    if (0 ≤ r + a ∧ r + a < h) ∧ 0 ≤ c + b ∧ c + b < w then
      some (value (r + a).toNat (c + b).toNat)
    else none

/-- The map, its pads and the window fit the result. -/
structure MaxPooling.WellFormed (p : MaxPooling) : Prop where
  samePlanes : p.ifmap.shape.n = p.ofmap.shape.n ∧ p.ifmap.shape.c = p.ofmap.shape.c
  nonempty : 0 < p.ifmap.shape.h ∧ 0 < p.ifmap.shape.w
  padsNonneg : 0 ≤ p.padTop ∧ 0 ≤ p.padBottom ∧ 0 ≤ p.padLeft ∧ 0 ≤ p.padRight
  rows : p.padTop + p.ifmap.shape.h + p.padBottom = (p.ofmap.shape.h - 1) * p.strideH + p.kh
  cols : p.padLeft + p.ifmap.shape.w + p.padRight = (p.ofmap.shape.w - 1) * p.strideW + p.kw

/-- What `tiu_max_pooling` is relied on for: an element of the result is the largest one of the
    map in its window; pads do not count, being 0 as the smallest `uint8_t`. -/
def PoolsMax (tiuMaxPooling : MaxPooling → (TgIndex → UInt8) → TgIndex → UInt8) : Prop :=
  ∀ (p : MaxPooling) (value : TgIndex → UInt8) (index : TgIndex), p.WellFormed →
    index.In p.ofmap.shape p.ofmap.fmt → p.ofmap.fmt = .u8 → p.ifmap.fmt = .u8 →
      tiuMaxPooling p value index =
        maxOf (windowValues p.kh p.kw (index.k * p.strideH - p.padTop)
          (index.x * p.strideW - p.padLeft) p.ifmap.shape.h p.ifmap.shape.w
          fun r c => value ⟨index.i, index.j, r, c⟩)

/-- What the library is relied on for. -/
structure PoolOps.Lawful (ops : PoolOps) : Prop where
  dense : IsDense ops.tgDefaultStride
  loads : LoadsTensor ops.tdmaG2lTensorCopy
  pools : PoolsMax ops.tiuMaxPooling
  stores : StoresTensor ops.tdmaL2gTensorCopy

/-- The commands of a tile, one after the other. -/
def Tile.run (ops : PoolOps) (buf : Buffers) (tile : Tile) : Buffers :=
  ops.tdmaL2gTensorCopy tile.pool.ofmap tile.store
    (ops.tiuMaxPooling tile.pool (ops.tdmaG2lTensorCopy tile.load tile.pool.ifmap buf)) buf

def runTiles (ops : PoolOps) (tiles : List Tile) (buf : Buffers) : Buffers :=
  tiles.foldl (Tile.run ops) buf

/-- The max filter without tiles: the largest pixel of the image in the window around an output. -/
def maxFilter (image : Nat → UInt8) (ih iw k pad r c : Nat) : UInt8 :=
  maxOf (windowValues k k (r - pad) (c - pad) ih iw fun r c => image (r * iw + c))

/-! ## One axis -/

/-- The part of the image that the strip at `pos` loads is non-empty and inside it, its pads fit,
    and the window of every output addresses exactly its own part of the image. -/
structure AxisTile.Exact (t : AxisTile) (i k step pos : Nat) : Prop where
  place : t.pos = pos
  cur : t.cur = (min (i - pos) step : Nat)
  low : 0 ≤ t.low ∧ t.low ≤ pos
  nonempty : 0 < t.curIn
  inside : t.low + t.curIn ≤ i
  pads : 0 ≤ t.padLow ∧ 0 ≤ t.padHigh
  sum : t.padLow + t.curIn + t.padHigh = t.cur - 1 + k
  origin : t.low - t.padLow = pos - ((k - 1) / 2 : Nat)
  window : ∀ r < (min (i - pos) step : Nat), ∀ a < k,
    (0 ≤ (pos + r : Int) - ((k - 1) / 2 : Nat) + a ∧ (pos + r : Int) - ((k - 1) / 2 : Nat) + a < i ↔
      0 ≤ (r : Int) - t.padLow + a ∧ (r : Int) - t.padLow + a < t.curIn)

section Axis

variable {i k step pos : Nat}

theorem axisTile_isSome (below : pos < i) (iSmall : i < 2 ^ 31) (kPos : 0 < k)
    (kSmall : k < 2 ^ 31) :
    (axisTile i i k 1 ((k - 1) / 2) step pos).isSome ↔
      pos + min (i - pos) step + k ≤ 2 ^ 31 := by
  have half : (k - 1) / 2 < k := by omega
  rw [axisTile, checked_isSome]
  simp only [List.forall_mem_append, List.forall_mem_cons, forall_mem_ite, InInt32, Int.mul_one,
    Nat.cast_one]
  constructor
  · rintro ⟨⟨⟨-, -, -, -, -, -, reach, -⟩, -⟩, -⟩
    omega
  · intro small
    refine ⟨⟨⟨?_, ?_, ?_, ?_, ?_, ?_, ?_, ?_, ?_, List.forall_mem_nil _⟩, fun border => ?_⟩,
      fun border => ?_⟩
    all_goals omega

theorem axisTile_exact (below : pos < i) (stepPos : 0 < step) (kPos : 0 < k) {t : AxisTile}
    (is : axisTile i i k 1 ((k - 1) / 2) step pos = some t) : t.Exact i k step pos := by
  have half : (k - 1) / 2 < k := by omega
  obtain ⟨-, rfl⟩ := checked_eq_some.mp is
  simp only [Int.mul_one, Nat.cast_one]
  refine ⟨rfl, ?_, ⟨?_, ?_⟩, ?_, ?_, ⟨?_, ?_⟩, ?_, ?_, ?_⟩
  all_goals simp only
  case refine_6 => split <;> omega
  case refine_7 => split <;> omega
  case refine_8 => split <;> split <;> omega
  case refine_9 => split <;> omega
  case refine_10 =>
    intro r inStrip a inWindow
    split <;> constructor <;> intro reached <;> omega
  all_goals omega

end Axis

/-! ## The tile loop -/

/-- The outputs of a tile. -/
def Tile.outputs (tile : Tile) : Rect :=
  ((tile.row.pos, tile.row.cur.toNat), (tile.col.pos, tile.col.cur.toNat))

/-- No operation of the tile loop overflows. -/
structure TilesInRange (ih iw k stepOh stepOw : Nat) : Prop where
  rows : ih + k ≤ 2 ^ 31
  cols : iw + k ≤ 2 ^ 31
  rowAdvance : lastPos ih stepOh + stepOh < 2 ^ 31
  colAdvance : lastPos iw stepOw + stepOw < 2 ^ 31
  address : lastPos ih stepOh * iw < 2 ^ 31

/-- A tile of one strip of rows and one of columns, with the commands for it. -/
structure Tile.Exact (tile : Tile) (ih iw k stepOh stepOw : Nat) (xTlSz : Int) (ohPos owPos : Nat) :
    Prop where
  rows : tile.row.Exact ih k stepOh ohPos
  cols : tile.col.Exact iw k stepOw owPos
  load : tile.load = ⟨2, tile.row.low.toNat * iw + tile.col.low.toNat, .u8,
    ⟨1, 1, tile.row.curIn.toNat, tile.col.curIn.toNat⟩, denseStride ⟨1, 1, ih, iw⟩ .u8⟩
  pool : tile.pool = ⟨⟨toU32 xTlSz, .u8, ⟨1, 1, tile.row.cur.toNat, tile.col.cur.toNat⟩⟩,
    ⟨0, .u8, ⟨1, 1, tile.row.curIn.toNat, tile.col.curIn.toNat⟩⟩, k, k, tile.row.padLow,
    tile.row.padHigh, tile.col.padLow, tile.col.padHigh, 1, 1⟩
  store : tile.store = ⟨3, ohPos * iw + owPos, .u8,
    ⟨1, 1, tile.row.cur.toNat, tile.col.cur.toNat⟩, denseStride ⟨1, 1, ih, iw⟩ .u8⟩

section Loop

variable {ops : PoolOps} {ih iw k stepOh stepOw fuel : Nat} {xTlSz : Int} {gaStride : TgStride}

theorem gaddr_eq {row width col : Nat} (product : (row : Int) * width < 2 ^ 31)
    (small : col < 2 ^ 31) : gaddr row width col = row * width + col := by
  have nonneg : 0 ≤ (row : Int) * width :=
    Int.mul_nonneg (Int.natCast_nonneg row) (Int.natCast_nonneg width)
  rw [gaddr, Int.emod_eq_of_lt (by omega) (by omega), ← Nat.cast_mul, ← Nat.cast_add,
    Int.toNat_natCast]

theorem toU32_natCast_of_lt {n : Nat} (small : n < 2 ^ 31) : toU32 n = n := by
  rw [toU32]
  omega

/-- A tile whose addresses do not overflow is exact. -/
theorem tileAt_exact {row col : AxisTile} {ohPos owPos : Nat} {tile : Tile}
    (rows : row.Exact ih k stepOh ohPos) (cols : col.Exact iw k stepOw owPos)
    (ohBelow : ohPos < ih) (owBelow : owPos < iw) (ihSmall : ih < 2 ^ 31) (iwSmall : iw < 2 ^ 31)
    (is : tileAt (denseStride ⟨1, 1, ih, iw⟩ .u8) iw iw k xTlSz row col = some tile) :
    tile.Exact ih iw k stepOh stepOw xTlSz ohPos owPos := by
  obtain ⟨results, rfl⟩ := checked_eq_some.mp is
  simp only [List.forall_mem_cons, InInt32] at results
  obtain ⟨⟨-, lowSmall⟩, ⟨-, posSmall⟩, -⟩ := results
  obtain ⟨rowLow, rowLowEq⟩ := Int.eq_ofNat_of_zero_le rows.low.1
  obtain ⟨colLow, colLowEq⟩ := Int.eq_ofNat_of_zero_le cols.low.1
  obtain ⟨rowIn, rowInEq⟩ := Int.eq_ofNat_of_zero_le rows.nonempty.le
  obtain ⟨colIn, colInEq⟩ := Int.eq_ofNat_of_zero_le cols.nonempty.le
  have rowsInside := rows.inside
  have colsInside := cols.inside
  rw [rowLowEq] at lowSmall
  refine ⟨rows, cols, ?_, ?_, ?_⟩
  · rw [rowLowEq, colLowEq, rowInEq, colInEq, gaddr_eq lowSmall (by omega),
      toU32_natCast_of_lt (by omega), toU32_natCast_of_lt (by omega)]
    rfl
  · rw [rowInEq, colInEq, rows.cur, cols.cur, toU32_natCast_of_lt (by omega),
      toU32_natCast_of_lt (by omega), toU32_natCast_of_lt (by omega),
      toU32_natCast_of_lt (by omega)]
    rfl
  · rw [rows.place] at posSmall ⊢
    rw [cols.place, rows.cur, cols.cur, gaddr_eq posSmall (by omega),
      toU32_natCast_of_lt (by omega), toU32_natCast_of_lt (by omega)]
    rfl

theorem AxisTile.Exact.strip {t : AxisTile} {i step pos : Nat} (exact : t.Exact i k step pos) :
    (t.pos, t.cur.toNat) = strip i step pos := by
  rw [exact.place, exact.cur, Int.toNat_natCast]
  rfl

theorem Tile.Exact.outputs_eq {tile : Tile} {ohPos owPos : Nat}
    (exact : tile.Exact ih iw k stepOh stepOw xTlSz ohPos owPos) :
    tile.outputs = (strip ih stepOh ohPos, strip iw stepOw owPos) := by
  rw [Tile.outputs, exact.rows.strip, exact.cols.strip]

theorem lastPos_add_min {i step : Nat} (iPos : 0 < i) (stepPos : 0 < step) :
    lastPos i step + min (i - lastPos i step) step = i := by
  have below : lastPos i step < i := lastPos_lt iPos
  have past : i ≤ lastPos i step + step := bound_le_lastPos_add stepPos
  omega

/-- The tiles of a strip of rows, one for each strip of columns. -/
theorem tileRow_exact {row : AxisTile} {ohPos : Nat} {tiles : List Tile} (iwPos : 0 < iw)
    (iwSmall : iw < 2 ^ 31) (ihSmall : ih < 2 ^ 31) (kPos : 0 < k) (kSmall : k < 2 ^ 31)
    (stepPos : 0 < stepOw) (ohBelow : ohPos < ih) (rows : row.Exact ih k stepOh ohPos)
    (is : tileRow (denseStride ⟨1, 1, ih, iw⟩ .u8) fuel iw iw k 1 ((k - 1) / 2) stepOw xTlSz row =
      some tiles) :
    (iw + k ≤ 2 ^ 31 ∧ lastPos iw stepOw + stepOw < 2 ^ 31 ∧ ohPos * iw < 2 ^ 31) ∧
      tiles.map Tile.outputs =
        (strips iw stepOw).map (fun col => (strip ih stepOh ohPos, col)) ∧
      ∀ tile ∈ tiles, ∃ owPos < iw, tile.Exact ih iw k stepOh stepOw xTlSz ohPos owPos := by
  obtain ⟨advance, bodies⟩ := forUp_checkedAdd stepPos iwPos iwSmall.le is
  have exact : ∀ owPos ∈ positions iw stepOw, ∀ tile,
      (axisTile iw iw k 1 ((k - 1) / 2) stepOw owPos).bind
        (tileAt (denseStride ⟨1, 1, ih, iw⟩ .u8) iw iw k xTlSz row) = some tile →
      tile.Exact ih iw k stepOh stepOw xTlSz ohPos owPos := by
    intro owPos member tile body
    have owBelow := ((mem_positions stepPos).mp member).2
    obtain ⟨col, axis, commands⟩ := Option.bind_eq_some_iff.mp body
    exact tileAt_exact rows (axisTile_exact owBelow stepPos kPos axis) ohBelow owBelow ihSmall
      iwSmall commands
  refine ⟨?_, ?_, ?_⟩
  · obtain ⟨tile, -, body⟩ := body_of_mem bodies (lastPos_mem stepPos iwPos)
    obtain ⟨col, axis, commands⟩ := Option.bind_eq_some_iff.mp body
    have inRange := (axisTile_isSome (lastPos_lt iwPos) iwSmall kPos kSmall).mp
      (Option.isSome_of_eq_some axis)
    rw [lastPos_add_min iwPos stepPos] at inRange
    have products := (checked_eq_some.mp commands).1 _ (List.mem_cons_of_mem _ List.mem_cons_self)
    rw [rows.place] at products
    exact ⟨inRange, advance, by exact_mod_cast products.2⟩
  · rw [strips, List.map_map]
    refine map_results bodies fun owPos member tile body => ?_
    exact (exact owPos member tile body).outputs_eq
  · intro tile member
    obtain ⟨owPos, visited, body⟩ := exists_of_mem_results bodies member
    exact ⟨owPos, ((mem_positions stepPos).mp visited).2, exact owPos visited tile body⟩

/-- A strip of rows in range has its tiles. -/
theorem tileRow_isSome {row : AxisTile} {ohPos : Nat} (iwPos : 0 < iw) (iwSmall : iw < 2 ^ 31)
    (kPos : 0 < k) (kSmall : k < 2 ^ 31) (stepPos : 0 < stepOw) (cols : iw + k ≤ 2 ^ 31)
    (advance : lastPos iw stepOw + stepOw < 2 ^ 31) (address : ohPos * iw < 2 ^ 31)
    (rows : row.Exact ih k stepOh ohPos) (enough : rounds iw stepOw < fuel) :
    (tileRow gaStride fuel iw iw k 1 ((k - 1) / 2) stepOw xTlSz row).isSome := by
  refine (forUp_checkedAdd_iff stepPos iwPos iwSmall.le enough).mpr ⟨advance, ?_⟩
  intro owPos member
  have owBelow := ((mem_positions stepPos).mp member).2
  have axis : (axisTile iw iw k 1 ((k - 1) / 2) stepOw owPos).isSome :=
    (axisTile_isSome owBelow iwSmall kPos kSmall).mpr (by omega)
  obtain ⟨col, axis⟩ := Option.isSome_iff_exists.mp axis
  rw [axis, Option.bind_some, tileAt, checked_isSome]
  have low : row.low * iw ≤ ((ohPos * iw : Nat) : Int) := by
    rw [Nat.cast_mul]
    exact Int.mul_le_mul_of_nonneg_right rows.low.2 (Int.natCast_nonneg iw)
  have lowNonneg : 0 ≤ row.low * iw := Int.mul_nonneg rows.low.1 (Int.natCast_nonneg iw)
  simp only [List.forall_mem_cons, InInt32, rows.place, ← Nat.cast_mul]
  refine ⟨⟨by omega, by omega⟩, ⟨by omega, by exact_mod_cast address⟩, List.forall_mem_nil _⟩

/-- What the tile loop emits when it ends. -/
theorem tileLoop_exact {tiles : List Tile} (dense : IsDense ops.tgDefaultStride) (ihPos : 0 < ih)
    (ihSmall : ih < 2 ^ 31) (iwPos : 0 < iw) (iwSmall : iw < 2 ^ 31) (kPos : 0 < k)
    (kSmall : k < 2 ^ 31) (ohPos : 0 < stepOh) (owPos : 0 < stepOw)
    (is : tileLoop ops fuel ih iw ih iw k 1 ((k - 1) / 2) stepOh stepOw xTlSz = some tiles) :
    TilesInRange ih iw k stepOh stepOw ∧
      tiles.map Tile.outputs = grid (strips ih stepOh) (strips iw stepOw) ∧
      ∀ tile ∈ tiles, ∃ ohPos < ih, ∃ owPos < iw,
        tile.Exact ih iw k stepOh stepOw xTlSz ohPos owPos := by
  rw [tileLoop, dense] at is
  obtain ⟨rowTiles, ends, rfl⟩ := Option.map_eq_some_iff.mp is
  obtain ⟨advance, bodies⟩ := forUp_checkedAdd ohPos ihPos ihSmall.le ends
  have exact : ∀ pos ∈ positions ih stepOh, ∀ tiles,
      (axisTile ih ih k 1 ((k - 1) / 2) stepOh pos).bind
        (tileRow (denseStride ⟨1, 1, ih, iw⟩ .u8) fuel iw iw k 1 ((k - 1) / 2) stepOw xTlSz) =
          some tiles →
      (iw + k ≤ 2 ^ 31 ∧ lastPos iw stepOw + stepOw < 2 ^ 31 ∧ pos * iw < 2 ^ 31) ∧
        tiles.map Tile.outputs = (strips iw stepOw).map (fun col => (strip ih stepOh pos, col)) ∧
        ∀ tile ∈ tiles, ∃ owPos < iw, tile.Exact ih iw k stepOh stepOw xTlSz pos owPos := by
    intro pos member tiles body
    have below := ((mem_positions ohPos).mp member).2
    obtain ⟨row, axis, columns⟩ := Option.bind_eq_some_iff.mp body
    exact tileRow_exact iwPos iwSmall ihSmall kPos kSmall owPos below
      (axisTile_exact below ohPos kPos axis) columns
  refine ⟨?_, ?_, ?_⟩
  · have last := lastPos_mem ohPos ihPos
    obtain ⟨tiles, -, body⟩ := body_of_mem bodies last
    obtain ⟨⟨cols, colAdvance, address⟩, -⟩ := exact _ last tiles body
    obtain ⟨row, axis, -⟩ := Option.bind_eq_some_iff.mp body
    have rows := (axisTile_isSome (lastPos_lt ihPos) ihSmall kPos kSmall).mp
      (Option.isSome_of_eq_some axis)
    rw [lastPos_add_min ihPos ohPos] at rows
    exact ⟨rows, cols, advance, colAdvance, address⟩
  · have rows : strips ih stepOh = (positions ih stepOh).map (strip ih stepOh) := rfl
    rw [List.map_flatten, grid, List.flatMap_def, rows, List.map_map]
    congr 1
    exact map_results bodies fun pos member tiles body => (exact pos member tiles body).2.1
  · intro tile member
    obtain ⟨tiles, inRows, inRow⟩ := List.mem_flatten.mp member
    obtain ⟨pos, visited, body⟩ := exists_of_mem_results bodies inRows
    exact ⟨pos, ((mem_positions ohPos).mp visited).2, (exact pos visited tiles body).2.2 tile inRow⟩

theorem tileLoop_isSome (ihPos : 0 < ih)
    (ihSmall : ih < 2 ^ 31) (iwPos : 0 < iw) (iwSmall : iw < 2 ^ 31) (kPos : 0 < k)
    (kSmall : k < 2 ^ 31) (ohPos : 0 < stepOh) (owPos : 0 < stepOw)
    (inRange : TilesInRange ih iw k stepOh stepOw) (enoughRows : rounds ih stepOh < fuel)
    (enoughCols : rounds iw stepOw < fuel) :
    (tileLoop ops fuel ih iw ih iw k 1 ((k - 1) / 2) stepOh stepOw xTlSz).isSome := by
  rw [tileLoop, Option.isSome_map]
  refine (forUp_checkedAdd_iff ohPos ihPos ihSmall.le enoughRows).mpr ⟨inRange.rowAdvance, ?_⟩
  intro pos member
  have below := ((mem_positions ohPos).mp member).2
  have rows := inRange.rows
  have axis : (axisTile ih ih k 1 ((k - 1) / 2) stepOh pos).isSome :=
    (axisTile_isSome below ihSmall kPos kSmall).mpr (by omega)
  obtain ⟨row, axis⟩ := Option.isSome_iff_exists.mp axis
  rw [axis, Option.bind_some]
  exact tileRow_isSome iwPos iwSmall kPos kSmall owPos inRange.cols inRange.colAdvance
    ((Nat.mul_le_mul_right iw (le_lastPos ohPos member)).trans_lt inRange.address)
    (axisTile_exact below ohPos kPos axis) enoughCols

end Loop

/-! ## The result -/

section Result

variable {ops : PoolOps} {ih iw k stepOh stepOw ohPos owPos : Nat} {xTlSz : Int} {tile : Tile}

/-- The window of an output in its tile holds the pixels of its window in the image. -/
theorem windowValues_tile (exact : tile.Exact ih iw k stepOh stepOw xTlSz ohPos owPos) {r c : Nat}
    (row : r < min (ih - ohPos) stepOh) (col : c < min (iw - owPos) stepOw)
    (image : Nat → Nat → UInt8) :
    windowValues k k (r - tile.row.padLow) (c - tile.col.padLow) tile.row.curIn.toNat
        tile.col.curIn.toNat
        (fun r' c' => image (tile.row.low.toNat + r') (tile.col.low.toNat + c')) =
      windowValues k k ((ohPos + r : Nat) - ((k - 1) / 2 : Nat))
        ((owPos + c : Nat) - ((k - 1) / 2 : Nat)) ih iw image := by
  refine List.flatMap_congr fun a aMem => List.filterMap_congr fun b bMem => ?_
  have inside := and_congr (exact.rows.window r row a (List.mem_range.mp aMem))
    (exact.cols.window c col b (List.mem_range.mp bMem))
  have rowOrigin := exact.rows.origin
  have colOrigin := exact.cols.origin
  have rowLow := exact.rows.low.1
  have colLow := exact.cols.low.1
  rw [Int.toNat_of_nonneg exact.rows.nonempty.le, Int.toNat_of_nonneg exact.cols.nonempty.le,
    Nat.cast_add, Nat.cast_add]
  by_cases inTile : (0 ≤ (r : Int) - tile.row.padLow + a ∧
      (r : Int) - tile.row.padLow + a < tile.row.curIn) ∧
      0 ≤ (c : Int) - tile.col.padLow + b ∧ (c : Int) - tile.col.padLow + b < tile.col.curIn
  · rw [if_pos inTile, if_pos (inside.mpr inTile)]
    obtain ⟨⟨rowNonneg, -⟩, colNonneg, -⟩ := inTile
    have rowPlace : tile.row.low.toNat + ((r : Int) - tile.row.padLow + a).toNat =
        ((ohPos : Int) + r - ((k - 1) / 2 : Nat) + a).toNat := by omega
    have colPlace : tile.col.low.toNat + ((c : Int) - tile.col.padLow + b).toNat =
        ((owPos : Int) + c - ((k - 1) / 2 : Nat) + b).toNat := by omega
    simp only [rowPlace, colPlace]
  · rw [if_neg inTile, if_neg (mt inside.mp inTile)]

theorem windowValues_congr {kh kw h w : Nat} {r c : Int} {value value' : Nat → Nat → UInt8}
    (same : ∀ r < h, ∀ c < w, value r c = value' r c) :
    windowValues kh kw r c h w value = windowValues kh kw r c h w value' := by
  refine List.flatMap_congr fun a _ => List.filterMap_congr fun b _ => ?_
  split
  · next inside => rw [same _ (by omega) _ (by omega)]
  · rfl

/-- The pads and shapes of the pooling fit each other. -/
theorem Tile.Exact.wellFormed (exact : tile.Exact ih iw k stepOh stepOw xTlSz ohPos owPos)
    (rowsPos : 0 < tile.row.cur) (colsPos : 0 < tile.col.cur) : tile.pool.WellFormed := by
  have pool := exact.pool
  have rowSum := exact.rows.sum
  have colSum := exact.cols.sum
  have rowIn := exact.rows.nonempty
  have colIn := exact.cols.nonempty
  rw [pool]
  refine ⟨⟨rfl, rfl⟩, ⟨?_, ?_⟩, ⟨exact.rows.pads.1, exact.rows.pads.2, exact.cols.pads.1,
    exact.cols.pads.2⟩, ?_, ?_⟩
  all_goals simp only [Nat.cast_one, Int.mul_one]
  all_goals omega

/-- An element of the result of the pooling is the max filter at its place in the image. -/
theorem Tile.Exact.pooled (lawful : ops.Lawful)
    (exact : tile.Exact ih iw k stepOh stepOw xTlSz ohPos owPos) (buf : Buffers) {r c : Nat}
    (row : r < min (ih - ohPos) stepOh) (col : c < min (iw - owPos) stepOw) :
    ops.tiuMaxPooling tile.pool (ops.tdmaG2lTensorCopy tile.load tile.pool.ifmap buf) ⟨0, 0, r, c⟩ =
      maxFilter (buf 2) ih iw k ((k - 1) / 2) (ohPos + r) (owPos + c) := by
  have rowCur := exact.rows.cur
  have colCur := exact.cols.cur
  have wellFormed := exact.wellFormed (by omega) (by omega)
  have pool := exact.pool
  have inside : TgIndex.In ⟨0, 0, r, c⟩ tile.pool.ofmap.shape tile.pool.ofmap.fmt := by
    rw [pool]
    refine ⟨Nat.one_pos, Nat.one_pos, ?_, ?_⟩
    · show r < tile.row.cur.toNat
      omega
    · show c < tile.col.cur.toNat * 1
      omega
  rw [lawful.pools _ _ _ wellFormed inside (by rw [pool]) (by rw [pool]), maxFilter,
    ← windowValues_tile exact row col fun r c => buf 2 (r * iw + c)]
  congr 1
  rw [pool]
  simp only [Nat.cast_one, Int.mul_one]
  refine windowValues_congr fun r' rowIn c' colIn => ?_
  have loaded : TgIndex.In ⟨0, 0, r', c'⟩ tile.load.shape tile.load.fmt := by
    rw [exact.load]
    exact ⟨Nat.one_pos, Nat.one_pos, rowIn, by rwa [CvkFmt.bytes, Nat.mul_one]⟩
  rw [lawful.loads _ _ _ _ (by rw [exact.load]) loaded, exact.load]
  congr 1
  simp only [TgStride.offset, denseStride, CvkFmt.bytes]
  ring

/-- The elements that a tile stores are its outputs. -/
theorem Tile.Exact.in_store_iff (exact : tile.Exact ih iw k stepOh stepOw xTlSz ohPos owPos)
    {i j r c : Nat} :
    TgIndex.In ⟨i, j, r, c⟩ tile.store.shape tile.store.fmt ↔
      (i = 0 ∧ j = 0) ∧ r < min (ih - ohPos) stepOh ∧ c < min (iw - owPos) stepOw := by
  have rowCur := exact.rows.cur
  have colCur := exact.cols.cur
  rw [exact.store]
  constructor
  · rintro ⟨iLt, jLt, rLt, cLt⟩
    simp only [CvkFmt.bytes] at iLt jLt rLt cLt
    omega
  · rintro ⟨⟨rfl, rfl⟩, row, col⟩
    refine ⟨Nat.one_pos, Nat.one_pos, ?_, ?_⟩
    · show r < tile.row.cur.toNat
      omega
    · show c < tile.col.cur.toNat * 1
      omega

/-- And they go to the places of these outputs in the image. -/
theorem Tile.Exact.store_address (exact : tile.Exact ih iw k stepOh stepOw xTlSz ohPos owPos)
    (r c : Nat) :
    tile.store.startAddress + tile.store.stride.offset ⟨0, 0, r, c⟩ =
      (ohPos + r) * iw + (owPos + c) := by
  rw [exact.store]
  simp only [TgStride.offset, denseStride, CvkFmt.bytes]
  ring

/-- A tile puts the max filter at its outputs and leaves all else alone. -/
theorem Tile.Exact.run_apply (lawful : ops.Lawful)
    (exact : tile.Exact ih iw k stepOh stepOw xTlSz ohPos owPos) (owBelow : owPos < iw)
    (buf : Buffers) (reg a : Nat) :
    tile.run ops buf reg a =
      if reg = 3 ∧ tile.outputs.Contains (a / iw) (a % iw) then
        maxFilter (buf 2) ih iw k ((k - 1) / 2) (a / iw) (a % iw)
      else buf reg a := by
  have iwPos : 0 < iw := Nat.zero_lt_of_lt owBelow
  have register : tile.store.baseRegIndex = 3 := by rw [exact.store]
  rcases lawful.stores tile.pool.ofmap tile.store
      (ops.tiuMaxPooling tile.pool (ops.tdmaG2lTensorCopy tile.load tile.pool.ifmap buf)) buf reg a
      (by rw [exact.pool, exact.store]) with
    ⟨here, index, inside, rfl, value⟩ | ⟨outside, kept⟩
  · obtain ⟨i, j, r, c⟩ := index
    obtain ⟨⟨rfl, rfl⟩, row, col⟩ := exact.in_store_iff.mp inside
    have div : ((ohPos + r) * iw + (owPos + c)) / iw = ohPos + r := by
      rw [Nat.mul_comm, Nat.mul_add_div iwPos, Nat.div_eq_of_lt (by omega), Nat.add_zero]
    have mod : ((ohPos + r) * iw + (owPos + c)) % iw = owPos + c := by
      rw [Nat.mul_comm, Nat.mul_add_mod, Nat.mod_eq_of_lt (by omega)]
    have output : tile.outputs.Contains (ohPos + r) (owPos + c) := by
      rw [exact.outputs_eq]
      simp only [Rect.Contains, Slot.Contains, strip]
      omega
    rw [Tile.run, value, exact.store_address, div, mod, if_pos ⟨here.trans register, output⟩]
    exact exact.pooled lawful buf row col
  · rw [Tile.run, kept, if_neg]
    rintro ⟨rfl, output⟩
    rw [exact.outputs_eq] at output
    obtain ⟨⟨rowFrom, rowTo⟩, colFrom, colTo⟩ := output
    simp only [strip] at rowFrom rowTo colFrom colTo
    refine outside ⟨register.symm, ⟨0, 0, a / iw - ohPos, a % iw - owPos⟩,
      exact.in_store_iff.mpr ⟨⟨rfl, rfl⟩, by omega, by omega⟩, ?_⟩
    rw [exact.store_address, Nat.add_sub_cancel' rowFrom, Nat.add_sub_cancel' colFrom,
      Nat.div_add_mod']

/-- The tiles one after the other leave the max filter at all their outputs. -/
theorem runTiles_apply (lawful : ops.Lawful) {tiles : List Tile}
    (exact : ∀ tile ∈ tiles, ∃ ohPos < ih, ∃ owPos < iw,
      tile.Exact ih iw k stepOh stepOw xTlSz ohPos owPos) (buf : Buffers) (reg a : Nat) :
    runTiles ops tiles buf reg a =
      if reg = 3 ∧ ∃ tile ∈ tiles, tile.outputs.Contains (a / iw) (a % iw) then
        maxFilter (buf 2) ih iw k ((k - 1) / 2) (a / iw) (a % iw)
      else buf reg a := by
  induction tiles generalizing buf with
  | nil => simp [runTiles]
  | cons tile tiles ih' =>
    obtain ⟨ohPos, -, owPos, owBelow, first⟩ := exact tile List.mem_cons_self
    have step := first.run_apply lawful owBelow buf
    have image : tile.run ops buf 2 = buf 2 := by
      funext a
      rw [step, if_neg (fun output => absurd output.1 (by decide))]
    have rest := ih' (fun tile member => exact tile (List.mem_cons_of_mem _ member))
      (tile.run ops buf)
    rw [image] at rest
    rw [runTiles, List.foldl_cons, ← runTiles, rest, step]
    simp only [List.exists_mem_cons_iff]
    by_cases later : reg = 3 ∧ ∃ tile ∈ tiles, tile.outputs.Contains (a / iw) (a % iw)
    · rw [if_pos later, if_pos ⟨later.1, .inr later.2⟩]
    · rw [if_neg later]
      by_cases here : reg = 3 ∧ tile.outputs.Contains (a / iw) (a % iw)
      · rw [if_pos here, if_pos ⟨here.1, .inl here.2⟩]
      · rw [if_neg here, if_neg]
        rintro ⟨register, inFirst | inRest⟩
        · exact here ⟨register, inFirst⟩
        · exact later ⟨register, inRest⟩

end Result

/-- The tiles partition the outputs, each of them is exact, and together they compute the max
    filter. -/
structure TilesExact (ops : PoolOps) (ih iw k stepOh stepOw : Nat) (xTlSz : Int)
    (tiles : List Tile) : Prop where
  partition : TilesRect ih iw (tiles.map Tile.outputs)
  each : ∀ tile ∈ tiles, ∃ ohPos < ih, ∃ owPos < iw,
    tile.Exact ih iw k stepOh stepOw xTlSz ohPos owPos
  result : ∀ buf reg a, runTiles ops tiles buf reg a =
    if reg = 3 ∧ a < ih * iw then maxFilter (buf 2) ih iw k ((k - 1) / 2) (a / iw) (a % iw)
    else buf reg a

/-- What the tile loop emits is exact. -/
theorem tilesExact_of_tileLoop {ops : PoolOps} (lawful : ops.Lawful)
    {fuel ih iw k stepOh stepOw : Nat} {xTlSz : Int} {tiles : List Tile} (ihPos : 0 < ih)
    (ihSmall : ih < 2 ^ 31) (iwPos : 0 < iw) (iwSmall : iw < 2 ^ 31) (kPos : 0 < k)
    (kSmall : k < 2 ^ 31) (stepOhPos : 0 < stepOh) (stepOwPos : 0 < stepOw)
    (ends : tileLoop ops fuel ih iw ih iw k 1 ((k - 1) / 2) stepOh stepOw xTlSz = some tiles) :
    TilesExact ops ih iw k stepOh stepOw xTlSz tiles := by
  obtain ⟨-, outputs, each⟩ := tileLoop_exact lawful.dense ihPos ihSmall iwPos iwSmall kPos kSmall
    stepOhPos stepOwPos ends
  have partition : TilesRect ih iw (tiles.map Tile.outputs) := by
    rw [outputs]
    exact tilesRect_grid (tiles_strips stepOhPos) (tiles_strips stepOwPos)
  refine ⟨partition, each, fun buf reg a => ?_⟩
  have somewhere : (∃ tile ∈ tiles, tile.outputs.Contains (a / iw) (a % iw)) ↔ a < ih * iw := by
    rw [← Nat.div_lt_iff_lt_mul iwPos]
    constructor
    · rintro ⟨tile, member, output⟩
      exact (partition.inside (List.mem_map_of_mem member) output).1
    · intro below
      obtain ⟨rect, member, output⟩ := partition.exists_mem below (Nat.mod_lt a iwPos)
      obtain ⟨tile, inTiles, rfl⟩ := List.mem_map.mp member
      exact ⟨tile, inTiles, output⟩
  rw [runTiles_apply lawful each]
  simp only [somewhere]

/-- For an image, a kernel and a tile of positive `int` sizes, the tile loop is exact unless one of
    its operations overflows. -/
theorem max_filter_tiles_iff (ops : PoolOps) (lawful : ops.Lawful) (ih iw k stepOh stepOw : Nat)
    (xTlSz : Int) (ihPos : 0 < ih) (ihSmall : ih < 2 ^ 31) (iwPos : 0 < iw) (iwSmall : iw < 2 ^ 31)
    (kPos : 0 < k) (kSmall : k < 2 ^ 31) (stepOhPos : 0 < stepOh) (stepOwPos : 0 < stepOw) :
    (∃ fuel tiles,
      tileLoop ops fuel ih iw ih iw k 1 ((k - 1) / 2) stepOh stepOw xTlSz = some tiles ∧
      TilesExact ops ih iw k stepOh stepOw xTlSz tiles) ↔ TilesInRange ih iw k stepOh stepOw := by
  constructor
  · rintro ⟨fuel, tiles, ends, -⟩
    exact (tileLoop_exact lawful.dense ihPos ihSmall iwPos iwSmall kPos kSmall stepOhPos stepOwPos
      ends).1
  · intro inRange
    have ends : (tileLoop ops _ ih iw ih iw k 1 ((k - 1) / 2) stepOh stepOw xTlSz).isSome :=
      tileLoop_isSome ihPos ihSmall iwPos iwSmall kPos kSmall stepOhPos stepOwPos inRange
      (Nat.lt_succ_of_le (Nat.le_max_left _ (rounds iw stepOw)))
      (Nat.lt_succ_of_le (Nat.le_max_right (rounds ih stepOh) _))
    obtain ⟨tiles, ends⟩ := Option.isSome_iff_exists.mp ends
    exact ⟨_, tiles, ends, tilesExact_of_tileLoop lawful ihPos ihSmall iwPos iwSmall kPos kSmall
      stepOhPos stepOwPos ends⟩

/-- A library that does what is relied on, with tensors packed in local memory. -/
def poolOps : PoolOps where
  tgDefaultStride := denseStride
  lmemTensorToSize shape _ := min (shape.n * shape.c * shape.h * shape.w) (2 ^ 32 - 1)
  tdmaG2lTensorCopy := tensorLoad
  tiuMaxPooling p value index :=
    maxOf (windowValues p.kh p.kw (index.k * p.strideH - p.padTop) (index.x * p.strideW - p.padLeft)
      p.ifmap.shape.h p.ifmap.shape.w fun r c => value ⟨index.i, index.j, r, c⟩)
  tdmaL2gTensorCopy := tensorStore

theorem poolOps_lawful : poolOps.Lawful :=
  ⟨fun _ _ => rfl, loadsTensor_tensorLoad, fun _ _ _ _ _ _ _ => rfl, storesTensor_tensorStore⟩

theorem max_filter_tiles_iff_small :
    ∃ fuel tiles, tileLoop poolOps fuel 5 4 5 4 3 1 1 2 3 9 = some tiles ∧
      TilesExact poolOps 5 4 3 2 3 9 tiles :=
  (max_filter_tiles_iff poolOps poolOps_lawful 5 4 3 2 3 9 (by decide) (by decide) (by decide)
    (by decide) (by decide) (by decide) (by decide) (by decide)).mpr
    ⟨by decide, by decide, by decide, by decide, by decide⟩

/-- The offset of a row of an image of 2.5 GB does not fit an `int`. -/
theorem max_filter_tiles_large :
    ¬ ∃ fuel tiles, tileLoop poolOps fuel 50000 50000 50000 50000 3 1 1 16 64 1188 = some tiles ∧
      TilesExact poolOps 50000 50000 3 16 64 1188 tiles := by
  rintro ⟨fuel, tiles, ends, -⟩
  have inRange := (tileLoop_exact poolOps_lawful.dense (by decide) (by decide) (by decide)
    (by decide) (by decide) (by decide) (by decide) (by decide) ends).1
  exact absurd inRange.address (by decide)

end CviRuntime.Kernel
