import CviRuntime.Lib.Assignment
import CviRuntime.Lib.MachineInt
import CviRuntime.Lib.Sampling
import CviRuntime.Lib.Scatter

/-!
# Deformable convolution (`src/common/cpu_function/deformableconv.{hpp,cpp}`)

For each image the output is filled with the bias, the samples that the kernel needs are put into
the columns, and the product of columns and weights is added to the output. Floats are elements of
an ordered field here. The sizes of the two vectors and the place in the columns are products of
`int`s that the shapes do not bound.
-/

namespace CviRuntime.CpuFunction

open CviRuntime.MachineInt CviRuntime.RowMajor CviRuntime.Sampling CviRuntime.Scatter
open CviRuntime.Assignment
open CviRuntime.Assignment.Reading

/-! ## The product of matrices -/

/-- The tensors, and the vectors of `run`. -/
inductive DcnBuffer where
  | bottom | weight | bias | offset | mask | ones | columns | top
  deriving DecidableEq

/-- A place in a buffer; also a pointer to it. -/
abbrev DcnCell := DcnBuffer × Int

/-- A pointer that is advanced. -/
def DcnCell.plus (pointer : DcnCell) (n : Int) : DcnCell := (pointer.1, pointer.2 + n)

section

variable {K : Type*} [Field K]

/-- `AddDot` (`deformableconv.cpp:29-43`). -/
def addDot (k : Int) (x : DcnCell) (incx : Int) (y gamma : DcnCell) (alpha beta : K) :
    Assign DcnCell K where
  target := gamma
  source := do
    let sum ← (List.range k.toNat).foldlM (fun (sum : K) (p : Nat) => do
      let xp ← load (x.plus (p * incx))
      let yp ← load (y.plus p)
      return sum + xp * yp) 0
    let old ← load gamma
    return alpha * sum + beta * old

/-- `THFloatBlas_gemm` (`deformableconv.cpp:49-71`), which ignores whether a matrix is
    transposed. -/
def thFloatBlasGemm (m n k : Int) (alpha : K) (a : DcnCell) (lda : Int) (b : DcnCell) (ldb : Int)
    (beta : K) (c : DcnCell) (ldc : Int) : List (Assign DcnCell K) :=
  (List.range n.toNat).flatMap fun (j : Nat) => (List.range m.toNat).map fun (i : Nat) =>
    addDot k (a.plus i) lda (b.plus (j * ldb)) (c.plus (j * ldc + i)) alpha beta

variable [LinearOrder K] [FloorRing K]

/-- `dmcn_im2col_bilinear_cpu` (`deformableconv.hpp:71-101`). -/
def dmcnIm2colBilinear (bottomData : DcnCell) (dataWidth height width : Int) (h w : K) :
    Reading DcnCell K K := do
  let hLow := ⌊h⌋
  let wLow := ⌊w⌋
  let hHigh := hLow + 1
  let wHigh := wLow + 1
  let lh := h - hLow
  let lw := w - wLow
  let hh := 1 - lh
  let hw := 1 - lw
  let v1 ← loadIf (0 ≤ hLow ∧ 0 ≤ wLow) (bottomData.plus (hLow * dataWidth + wLow))
  let v2 ← loadIf (0 ≤ hLow ∧ wHigh ≤ width - 1) (bottomData.plus (hLow * dataWidth + wHigh))
  let v3 ← loadIf (hHigh ≤ height - 1 ∧ 0 ≤ wLow) (bottomData.plus (hHigh * dataWidth + wLow))
  let v4 ← loadIf (hHigh ≤ height - 1 ∧ wHigh ≤ width - 1)
    (bottomData.plus (hHigh * dataWidth + wHigh))
  return hh * hw * v1 + hh * lw * v2 + lh * hw * v3 + lh * lw * v4

end

/-! ## The kernel -/

structure DeformableConv where
  strideH : Int
  strideW : Int
  padH : Int
  padW : Int
  dilationH : Int
  dilationW : Int
  deformableGroup : Int
  bottomShape : List Nat
  weightShape : List Nat
  biasShape : List Nat
  offsetShape : List Nat
  maskShape : List Nat
  topShape : List Nat

namespace DeformableConv

variable (p : DeformableConv)

def batch : Nat := p.bottomShape.getD 0 0

def channels : Nat := p.bottomShape.getD 1 0

def height : Nat := p.bottomShape.getD 2 0

def width : Nat := p.bottomShape.getD 3 0

def channelsOut : Nat := p.weightShape.getD 0 0

def kernelH : Nat := p.weightShape.getD 2 0

def kernelW : Nat := p.weightShape.getD 3 0

/-- `height_out` and `width_out` (`deformableconv.cpp:116-117`). -/
def heightOut : Int :=
  (p.height + 2 * p.padH - (p.dilationH * (p.kernelH - 1) + 1)).tdiv p.strideH + 1

def widthOut : Int :=
  (p.width + 2 * p.padW - (p.dilationW * (p.kernelW - 1) + 1)).tdiv p.strideW + 1

/-- The elements of an image in a tensor (`deformableconv.cpp:125-128`). -/
def chw (shape : List Nat) : Int :=
  (shape.getD 1 0 : Int) * shape.getD 2 0 * shape.getD 3 0 * 1

section

variable {K : Type*} [Field K] [LinearOrder K] [FloorRing K]

/-- `val` for a point of the image: 0 unless the point is near it
    (`deformableconv.hpp:147-160`). -/
def im2colSample (dataImPtr : DcnCell) (hIm wIm : K) : Reading DcnCell K K :=
  if -1 < hIm ∧ -1 < wIm ∧ hIm < p.height ∧ wIm < p.width then
    dmcnIm2colBilinear dataImPtr p.width p.height p.width hIm wIm
  else pure 0

/-- The value of a cell of the columns (`deformableconv.hpp:144-161`), for the point that would be
    taken without an offset. -/
def im2colValue (dataImPtr dataOffsetHPtr dataOffsetWPtr dataMaskPtr : DcnCell) (h w : Int) :
    Reading DcnCell K K := do
  let offsetH ← load dataOffsetHPtr
  let offsetW ← load dataOffsetWPtr
  let mask ← load dataMaskPtr
  let val ← p.im2colSample dataImPtr (h + offsetH) (w + offsetW)
  return val * mask

/-- One pass of the loop of `modulated_deformable_im2col_cpu_kernel`
    (`deformableconv.hpp:103-168`). -/
def im2colCells (dataIm dataOffset dataMask : DcnCell) (channelPerDeformableGroup batchSize : Int)
    (dataCol : DcnCell) (index : Int) : List (Assign DcnCell K) :=
  let wCol := index.tmod p.widthOut
  let hCol := (index.tdiv p.widthOut).tmod p.heightOut
  let bCol := (((index.tdiv p.widthOut).tdiv p.heightOut).tdiv p.channels).tmod batchSize
  let cIm := ((index.tdiv p.widthOut).tdiv p.heightOut).tmod p.channels
  let cCol := cIm * p.kernelH * p.kernelW
  let deformableGroupIndex := cIm.tdiv channelPerDeformableGroup
  let hIn := hCol * p.strideH - p.padH
  let wIn := wCol * p.strideW - p.padW
  let dataColPtr := dataCol.plus (int32 (((bCol * p.channels * p.kernelW * p.kernelH + cCol) *
    p.heightOut + hCol) * p.widthOut + wCol))
  let dataImPtr := dataIm.plus ((bCol * p.channels + cIm) * p.height * p.width)
  let dataOffsetPtr := dataOffset.plus ((bCol * p.deformableGroup + deformableGroupIndex) * 2 *
    p.kernelH * p.kernelW * p.heightOut * p.widthOut)
  let dataMaskPtr := dataMask.plus ((bCol * p.deformableGroup + deformableGroupIndex) *
    p.kernelH * p.kernelW * p.heightOut * p.widthOut)
  ((List.range p.kernelH).flatMap fun i =>
    (List.range p.kernelW).map fun j => (i, j)).zipIdx.map fun ((i, j), step) =>
      let dataOffsetHPtr := (2 * (i * p.kernelW + j) * p.heightOut + hCol) * p.widthOut + wCol
      let dataOffsetWPtr := ((2 * (i * p.kernelW + j) + 1) * p.heightOut + hCol) * p.widthOut + wCol
      let dataMaskHwPtr := ((i * p.kernelW + j) * p.heightOut + hCol) * p.widthOut + wCol
      -- the pointer into the columns is advanced after each pass
      ⟨dataColPtr.plus (step * (p.heightOut * p.widthOut)),
        p.im2colValue dataImPtr (dataOffsetPtr.plus dataOffsetHPtr)
          (dataOffsetPtr.plus dataOffsetWPtr) (dataMaskPtr.plus dataMaskHwPtr)
          (hIn + i * p.dilationH) (wIn + j * p.dilationW)⟩

/-- `modulated_deformable_im2col_cpu` (`deformableconv.hpp:170-184`); `none` where it divides by
    zero. -/
def modulatedDeformableIm2col (dataIm dataOffset dataMask : DcnCell) (batchSize : Int)
    (dataCol : DcnCell) : Option (List (Assign DcnCell K)) :=
  let channelPerDeformableGroup := (p.channels : Int).tdiv p.deformableGroup
  let numKernels := p.channels * batchSize * p.heightOut * p.widthOut
  if p.deformableGroup = 0 ∨ (0 < numKernels ∧ channelPerDeformableGroup = 0) then none
  else some ((List.range numKernels.toNat).flatMap fun (index : Nat) =>
    p.im2colCells dataIm dataOffset dataMask channelPerDeformableGroup batchSize dataCol index)

/-- One pass of the loop over the batch (`deformableconv.cpp:130-185`). -/
def batchPass (b : Nat) : Option (List (Assign DcnCell K)) := do
  let inputN : DcnCell := (.bottom, b * (p.channels * p.height * p.width * 1))
  let offsetN : DcnCell := (.offset, b * chw p.offsetShape)
  let maskN : DcnCell := (.mask, b * chw p.maskShape)
  let outputN : DcnCell := (.top, b * chw p.topShape)
  let m : Int := p.channelsOut
  let n := p.heightOut * p.widthOut
  let k : Int := p.channels * p.kernelH * p.kernelW
  let bias := thFloatBlasGemm n m 1 1 (.ones, 0) 1 (.bias, 0) 1 0 outputN n
  let im2col ← p.modulatedDeformableIm2col inputN offsetN maskN 1 (.columns, 0)
  let product := thFloatBlasGemm n m k 1 (.columns, 0) n (.weight, 0) k 1 outputN n
  return bias ++ im2col ++ product

/-- The vectors `ones` and `columns` beside the tensors. -/
def allocate (memory : DcnCell → K) : DcnCell → K
  | (.ones, _) => 1
  | (.columns, _) => 0
  | cell => memory cell

/-- The sizes of the vectors `ones` and `columns` (`deformableconv.cpp:122-123`). -/
def onesLength : Int := int32 (p.heightOut * p.widthOut)

def columnsLength : Int :=
  int32 (p.channels * p.kernelH * p.kernelW * 1 * p.heightOut * p.widthOut)

/-- `DeformableConvFunc::run` (`deformableconv.cpp:105-187`): the accesses in each pass over the
    batch, and the memory afterwards; `none` where it divides by zero, or a vector would have a
    negative size. -/
def run (memory : DcnCell → K) : Option (List (List (Access DcnCell)) × (DcnCell → K)) :=
  if p.strideH = 0 ∨ p.strideW = 0 ∨ p.onesLength < 0 ∨ p.columnsLength < 0 then none
  else do
    let passes ← (List.range p.batch).mapM p.batchPass
    return (traces passes (allocate memory), perform passes.flatten (allocate memory))

end

end DeformableConv

/-! ## What the product computes -/

section

variable {K : Type*} [Field K] {memory : DcnCell → K} {x y gamma : DcnCell} {incx : Int} {k : Nat}
  {alpha beta : K}

@[simp] theorem plus_fst (pointer : DcnCell) (n : Int) : (pointer.plus n).1 = pointer.1 := rfl

@[simp] theorem plus_plus (pointer : DcnCell) (n n' : Int) :
    (pointer.plus n).plus n' = pointer.plus (n + n') :=
  Prod.ext rfl (Int.add_assoc _ _ _)

theorem value_addDot :
    (addDot k x incx y gamma alpha beta).source.value memory =
      alpha * (∑ q ∈ Finset.range k, memory (x.plus (q * incx)) * memory (y.plus q)) +
        beta * memory gamma := by
  have terms : value memory ((List.range k).foldlM (fun (sum : K) (q : Nat) => do
      let xp ← load (x.plus (q * incx))
      let yp ← load (y.plus q)
      return sum + xp * yp) 0) =
        ((List.range k).map fun (q : Nat) =>
          memory (x.plus (q * incx)) * memory (y.plus q)).sum :=
    value_sum (fun sum q => by simp) _
  simp only [addDot, Int.toNat_natCast, value_bind, value_pure, value_load, terms]
  rfl

theorem mem_reads_addDot {cell : DcnCell} :
    cell ∈ (addDot k x incx y gamma alpha beta).source.reads memory ↔
      (∃ q < k, cell = x.plus (q * incx) ∨ cell = y.plus q) ∨ cell = gamma := by
  have cells : reads memory ((List.range k).foldlM (fun (sum : K) (q : Nat) => do
      let xp ← load (x.plus (q * incx))
      let yp ← load (y.plus q)
      return sum + xp * yp) 0) =
        (List.range k).flatMap fun (q : Nat) => [x.plus (q * incx), y.plus q] :=
    reads_foldlM (fun sum q => by simp) _ 0
  simp [addDot, cells]

variable {m n : Nat} {a b c : DcnCell} {lda ldb : Int}

/-- The columns of the product are written one after the other. -/
theorem thFloatBlasGemm_eq :
    thFloatBlasGemm m n k alpha a lda b ldb beta c m =
      (indices [n, m]).map fun index =>
        addDot k (a.plus (index.getD 1 0 : Nat)) lda (b.plus ((index.getD 0 0 : Nat) * ldb))
          (c.plus (flat [n, m] index : Nat)) alpha beta := by
  simp [thFloatBlasGemm, flat, flatMap_singleton_range]

theorem targets_thFloatBlasGemm :
    (thFloatBlasGemm m n k alpha a lda b ldb beta c m).map Assign.target =
      (List.range (n * m)).map fun place : Nat => c.plus place := by
  have places := congrArg (List.map fun place : Nat => c.plus place) (map_flat_indices [n, m])
  simp only [List.prod_cons, List.prod_nil, Nat.mul_one] at places
  rw [thFloatBlasGemm_eq, List.map_map, ← places, List.map_map]
  rfl

/-- No other element of the product is read for an element. -/
theorem apart_thFloatBlasGemm (otherA : a.1 ≠ c.1) (otherB : b.1 ≠ c.1) :
    Apart (thFloatBlasGemm m n k alpha a lda b ldb beta c m) memory := by
  refine ⟨?_, fun assign member cell inReads isTarget => ?_⟩
  · rw [targets_thFloatBlasGemm]
    apply List.nodup_range.map
    intro place place' same
    exact Int.ofNat_inj.mp (Int.add_left_cancel (congrArg Prod.snd same))
  · have inC : cell.1 = c.1 := by
      rw [targets_thFloatBlasGemm] at isTarget
      obtain ⟨place, -, rfl⟩ := List.mem_map.mp isTarget
      rfl
    rw [thFloatBlasGemm_eq] at member
    obtain ⟨index, -, rfl⟩ := List.mem_map.mp member
    rcases mem_reads_addDot.mp inReads with ⟨q, -, rfl | rfl⟩ | rfl
    · exact absurd inC otherA
    · exact absurd inC otherB
    · rfl

/-- Only the product is written. -/
theorem perform_thFloatBlasGemm_of_ne {cell : DcnCell} (other : cell.1 ≠ c.1) :
    perform (thFloatBlasGemm m n k alpha a lda b ldb beta c m) memory cell = memory cell := by
  refine perform_of_notMem fun isTarget => other ?_
  rw [targets_thFloatBlasGemm] at isTarget
  obtain ⟨place, -, rfl⟩ := List.mem_map.mp isTarget
  rfl

/-- The element of row `i` and column `j`. -/
theorem perform_thFloatBlasGemm (otherA : a.1 ≠ c.1) (otherB : b.1 ≠ c.1) {i j : Nat} (hj : j < n)
    (hi : i < m) :
    perform (thFloatBlasGemm m n k alpha a lda b ldb beta c m) memory
        (c.plus (flat [n, m] [j, i] : Nat)) =
      alpha * (∑ q ∈ Finset.range k,
        memory (a.plus (i + q * lda)) * memory (b.plus (j * ldb + q))) +
          beta * memory (c.plus (flat [n, m] [j, i] : Nat)) := by
  have inside : Inside [n, m] [j, i] :=
    inside_pair.mpr ⟨hj, hi⟩
  have member : addDot k (a.plus i) lda (b.plus (j * ldb)) (c.plus (flat [n, m] [j, i] : Nat))
      alpha beta ∈ thFloatBlasGemm m n k alpha a lda b ldb beta c m := by
    rw [thFloatBlasGemm_eq]
    exact List.mem_map.mpr ⟨[j, i], mem_indices.mpr inside, rfl⟩
  have apart : Apart (thFloatBlasGemm m n k alpha a lda b ldb beta c m) memory :=
    apart_thFloatBlasGemm otherA otherB
  have written := apart.perform_of_mem member
  rw [value_addDot] at written
  simp only [plus_plus] at written
  exact written

end

/-! ## What is sampled -/

section

variable {K : Type*} [Field K] [LinearOrder K] [FloorRing K] {memory : DcnCell → K}
  {bottomData : DcnCell} {height width : Nat} {h w : K}

/-- The point is less than one away from the image. -/
def NearPlane (height width : Nat) (h w : K) : Prop := -1 < h ∧ -1 < w ∧ h < height ∧ w < width

/-- The checks that are left out hold near the image. -/
theorem floor_bounds (near : NearPlane height width h w) :
    (-1 ≤ ⌊h⌋ ∧ ⌊h⌋ < height) ∧ (-1 ≤ ⌊w⌋ ∧ ⌊w⌋ < width) := by
  obtain ⟨above, right, below, left⟩ := near
  refine ⟨⟨Int.le_floor.mpr ?_, Int.floor_lt.mpr ?_⟩, Int.le_floor.mpr ?_, Int.floor_lt.mpr ?_⟩
  · exact_mod_cast above.le
  · exact_mod_cast below
  · exact_mod_cast right.le
  · exact_mod_cast left

theorem value_dmcnIm2colBilinear (near : NearPlane height width h w) :
    (dmcnIm2colBilinear bottomData width height width h w).value memory =
      bilinear height width (fun q => memory (bottomData.plus (q.1 * width + q.2))) h w := by
  obtain ⟨⟨above, below⟩, right, left⟩ := floor_bounds near
  have corner1 : (0 ≤ ⌊h⌋ ∧ 0 ≤ ⌊w⌋) ↔ inPlane height width (⌊h⌋, ⌊w⌋) = true := by
    simp only [inPlane, decide_eq_true_eq]
    omega
  have corner2 : (0 ≤ ⌊h⌋ ∧ ⌊w⌋ + 1 ≤ (width : Int) - 1) ↔
      inPlane height width (⌊h⌋, ⌊w⌋ + 1) = true := by
    simp only [inPlane, decide_eq_true_eq]
    omega
  have corner3 : (⌊h⌋ + 1 ≤ (height : Int) - 1 ∧ 0 ≤ ⌊w⌋) ↔
      inPlane height width (⌊h⌋ + 1, ⌊w⌋) = true := by
    simp only [inPlane, decide_eq_true_eq]
    omega
  have corner4 : (⌊h⌋ + 1 ≤ (height : Int) - 1 ∧ ⌊w⌋ + 1 ≤ (width : Int) - 1) ↔
      inPlane height width (⌊h⌋ + 1, ⌊w⌋ + 1) = true := by
    simp only [inPlane, decide_eq_true_eq]
    omega
  simp only [dmcnIm2colBilinear, value_bind, value_loadIf, value_pure, corner1, corner2, corner3,
    corner4]
  simp only [bilinear, bilinearTaps, cross, linearTaps, List.flatMap_cons, List.flatMap_nil,
    List.map_cons, List.map_nil, List.append_nil, List.cons_append, List.nil_append, combine_cons,
    combine_nil]
  ring

/-- All reads lie in the plane. -/
theorem reads_dmcnIm2colBilinear (near : NearPlane height width h w) {cell : DcnCell}
    (member : cell ∈ (dmcnIm2colBilinear bottomData width height width h w).reads memory) :
    ∃ y < height, ∃ x < width, cell = bottomData.plus ((y : Int) * width + x) := by
  obtain ⟨⟨above, below⟩, right, left⟩ := floor_bounds near
  have place : ∀ y x : Int, 0 ≤ y → y < height → 0 ≤ x → x < width →
      ∃ y' < height, ∃ x' < width,
        bottomData.plus (y * width + x) = bottomData.plus ((y' : Int) * width + x') := by
    intro y x yLow yHigh xLow xHigh
    refine ⟨y.toNat, by omega, x.toNat, by omega, ?_⟩
    rw [Int.toNat_of_nonneg yLow, Int.toNat_of_nonneg xLow]
  simp only [dmcnIm2colBilinear, reads_bind, reads_pure, List.append_nil, List.mem_append,
    mem_reads_loadIf] at member
  rcases member with ⟨inside, rfl⟩ | ⟨inside, rfl⟩ | ⟨inside, rfl⟩ | ⟨inside, rfl⟩
  · exact place _ _ inside.1 below inside.2 left
  · exact place _ _ inside.1 below (by omega) (by omega)
  · exact place _ _ (by omega) (by omega) inside.2 left
  · exact place _ _ (by omega) (by omega) (by omega) (by omega)

end

/-! ## The convolution -/

namespace DeformableConv

variable (p : DeformableConv)

/-- The size of the output, where it is positive. -/
def outH : Nat := p.heightOut.toNat

def outW : Nat := p.widthOut.toNat

def groups : Nat := p.deformableGroup.toNat

/-- The deformable group of a channel. -/
def group (c : Nat) : Nat := c / (p.channels / p.groups)

/-- The shapes of the tensors, and the parameters of a convolution. -/
structure Shapes (p : DeformableConv) : Prop where
  strideH : 1 ≤ p.strideH
  strideW : 1 ≤ p.strideW
  heightOut : 0 < p.heightOut
  widthOut : 0 < p.widthOut
  deformableGroup : 0 < p.deformableGroup
  divides : p.groups ∣ p.channels
  bottom : p.bottomShape = [p.batch, p.channels, p.height, p.width]
  weight : p.weightShape = [p.channelsOut, p.channels, p.kernelH, p.kernelW]
  bias : p.biasShape.prod = p.channelsOut
  offset : p.offsetShape =
    [p.batch, p.groups * (2 * (p.kernelH * p.kernelW)), p.outH, p.outW]
  mask : p.maskShape = [p.batch, p.groups * (p.kernelH * p.kernelW), p.outH, p.outW]
  top : p.topShape = [p.batch, p.channelsOut, p.outH, p.outW]

/-- The number of cells in the columns. -/
def columnsSize (p : DeformableConv) : Nat :=
  [p.channels, p.kernelH, p.kernelW, p.outH, p.outW].prod

/-- The shapes, with vectors whose sizes are `int`s. -/
structure Fits (p : DeformableConv) : Prop extends Shapes p where
  ones : p.outH * p.outW < 2 ^ 31
  columns : p.columnsSize < 2 ^ 31

section

variable {K : Type*} (memory : DcnCell → K) (b c i j y x : Nat)

/-- Where the offset of a point is: that of its row (`axis` 0) or of its column (`axis` 1). -/
def offsetCell (axis : Nat) : DcnCell :=
  (.offset, (flat p.offsetShape
    [b, p.group c * (2 * (p.kernelH * p.kernelW)) + (2 * (i * p.kernelW + j) + axis), y, x] : Nat))

def maskCell : DcnCell :=
  (.mask, (flat p.maskShape
    [b, p.group c * (p.kernelH * p.kernelW) + (i * p.kernelW + j), y, x] : Nat))

def bottomCell (h w : Nat) : DcnCell := (.bottom, (flat p.bottomShape [b, c, h, w] : Nat))

def weightCell (o : Nat) : DcnCell := (.weight, (flat p.weightShape [o, c, i, j] : Nat))

def topCell (o : Nat) : DcnCell := (.top, (flat p.topShape [b, o, y, x] : Nat))

def columnCell : DcnCell :=
  (.columns,
    (flat [p.channels, p.kernelH, p.kernelW, p.outH, p.outW] [c, i, j, y, x] : Nat))

variable [Field K]

/-- The point of the image that is sampled: its row and its column. -/
def pointH : K :=
  (y * p.strideH - p.padH + i * p.dilationH : Int) + memory (p.offsetCell b c i j y x 0)

def pointW : K :=
  (x * p.strideW - p.padW + j * p.dilationW : Int) + memory (p.offsetCell b c i j y x 1)

variable [LinearOrder K] [FloorRing K]

/-- The image at this point. -/
def sampleAt : K :=
  bilinear p.height p.width (fun place => memory (p.bottomCell b c place.1.toNat place.2.toNat))
    (p.pointH memory b c i j y x) (p.pointW memory b c i j y x)

/-- An element of the output. -/
def convolution (o : Nat) : K :=
  memory (.bias, o) + ∑ c ∈ Finset.range p.channels, ∑ i ∈ Finset.range p.kernelH,
    ∑ j ∈ Finset.range p.kernelW,
      memory (p.weightCell c i j o) * memory (p.maskCell b c i j y x) *
        p.sampleAt memory b c i j y x

end

/-! ## The columns -/

/-- The coordinates of a thread. -/
theorem coordinates {C H W c y x : Nat} (hy : y < H) (hx : x < W) :
    (flat [C, H, W] [c, y, x]) % W = x ∧ (flat [C, H, W] [c, y, x]) / W % H = y ∧
      (flat [C, H, W] [c, y, x]) / W / H = c := by
  have whole : flat [C, H, W] [c, y, x] = (c * H + y) * W + x := by
    simp only [flat, List.prod_cons, List.prod_nil]
    ring
  rw [whole, place_mod hx, place_div hx, place_mod hy, place_div hy]
  exact ⟨rfl, rfl, rfl⟩

section

variable {p} {K : Type*} [Field K] [LinearOrder K] [FloorRing K] {memory : DcnCell → K}
  {b c i j y x : Nat}

theorem Fits.outH_eq (fits : p.Fits) : p.heightOut = p.outH :=
  (Int.toNat_of_nonneg fits.heightOut.le).symm

theorem Fits.outW_eq (fits : p.Fits) : p.widthOut = p.outW :=
  (Int.toNat_of_nonneg fits.widthOut.le).symm

theorem Fits.groups_eq (fits : p.Fits) : p.deformableGroup = p.groups :=
  (Int.toNat_of_nonneg fits.deformableGroup.le).symm

theorem Fits.onesLength_eq (fits : p.Fits) : p.onesLength = (p.outH * p.outW : Nat) := by
  rw [onesLength, fits.outH_eq, fits.outW_eq, ← Nat.cast_mul]
  exact int32_natCast fits.ones

theorem Fits.columnsLength_eq (fits : p.Fits) : p.columnsLength = p.columnsSize := by
  have product : (p.channels : Int) * p.kernelH * p.kernelW * 1 * p.heightOut * p.widthOut =
      (p.columnsSize : Nat) := by
    rw [fits.outH_eq, fits.outW_eq]
    simp only [columnsSize, List.prod_cons, List.prod_nil]
    push_cast
    ring
  rw [columnsLength, product]
  exact int32_natCast fits.columns

/-- The first of the cells that a thread fills. -/
theorem Fits.int32_column (fits : p.Fits) (hc : c < p.channels) (hi : i < p.kernelH)
    (hj : j < p.kernelW) (hy : y < p.outH) (hx : x < p.outW) :
    int32 ((((0 : Int) * p.channels * p.kernelW * p.kernelH + c * p.kernelH * p.kernelW) * p.outH +
        y) * p.outW + x) =
      (flat [p.channels, p.kernelH, p.kernelW, p.outH, p.outW] [c, 0, 0, y, x] : Nat) := by
  have inside : Inside [p.channels, p.kernelH, p.kernelW, p.outH, p.outW] [c, 0, 0, y, x] := by
    simp only [inside_cons, inside_nil]
    exact ⟨hc, Nat.zero_lt_of_lt hi, Nat.zero_lt_of_lt hj, hy, hx, trivial⟩
  have small := (flat_lt inside).trans fits.columns
  have place : (((0 : Int) * p.channels * p.kernelW * p.kernelH + c * p.kernelH * p.kernelW) *
      p.outH + y) * p.outW + x =
        (flat [p.channels, p.kernelH, p.kernelW, p.outH, p.outW] [c, 0, 0, y, x] : Nat) := by
    simp only [flat, List.prod_cons, List.prod_nil]
    push_cast
    ring
  rw [place]
  exact int32_natCast small

/-- What is done for a cell of the columns, in terms of its coordinates. -/
def im2colCell (p : DeformableConv) (b c y x i j : Nat) : Assign DcnCell K :=
  ⟨p.columnCell c i j y x,
    p.im2colValue (p.bottomCell b c 0 0) (p.offsetCell b c i j y x 0) (p.offsetCell b c i j y x 1)
      (p.maskCell b c i j y x) (y * p.strideH - p.padH + i * p.dilationH)
      (x * p.strideW - p.padW + j * p.dilationW)⟩

theorem im2colCells_eq (fits : p.Fits) (hc : c < p.channels) (hy : y < p.outH) (hx : x < p.outW) :
    p.im2colCells (K := K) (.bottom, b * (p.channels * p.height * p.width * 1))
        (.offset, b * chw p.offsetShape) (.mask, b * chw p.maskShape)
        ((p.channels : Int).tdiv p.deformableGroup) 1 (.columns, 0)
        (flat [p.channels, p.outH, p.outW] [c, y, x] : Nat) =
      (indices [p.kernelH, p.kernelW]).map fun tap =>
        p.im2colCell b c y x (tap.getD 0 0) (tap.getD 1 0) := by
  have taps : ((List.range p.kernelH).flatMap fun i =>
      (List.range p.kernelW).map fun j => (i, j)) =
        (indices [p.kernelH, p.kernelW]).map fun tap => (tap.getD 0 0, tap.getD 1 0) := by
    simp [flatMap_singleton_range]
  obtain ⟨column, row, channel⟩ := coordinates (C := p.channels) (c := c) hy hx
  unfold im2colCells
  rw [taps, zipIdx_map_indices, List.map_map]
  apply List.map_congr_left
  intro tap member
  obtain ⟨i, j, rfl⟩ := List.length_eq_two.mp (mem_indices.mp member).1
  obtain ⟨hi, hj⟩ := inside_pair.mp (mem_indices.mp member)
  simp only [fits.outW_eq, fits.outH_eq, fits.groups_eq, Function.comp_apply, ← Int.ofNat_tmod,
    ← Int.ofNat_tdiv, column, row, channel, Nat.mod_eq_of_lt hc, Nat.div_eq_of_lt hc, Int.tmod_one,
    List.getD_cons_zero, List.getD_cons_succ, im2colCell, fits.int32_column hc hi hj hy hx]
  have groupCast : ((c / (p.channels / p.groups) : Nat) : Int) = p.group c := rfl
  rw [groupCast]
  -- the target, and the four pointers
  congr 2 <;> refine Prod.ext rfl ?_ <;>
    simp only [DcnCell.plus, columnCell, bottomCell, offsetCell, maskCell, chw, fits.bottom,
      fits.offset, fits.mask, flat, List.prod_cons, List.prod_nil, List.getD_cons_zero,
      List.getD_cons_succ] <;>
    push_cast <;> ring

/-- What is done for all cells of the columns. -/
def im2colProgram (p : DeformableConv) (b : Nat) : List (Assign DcnCell K) :=
  (indices [p.channels, p.outH, p.outW]).flatMap fun thread =>
    (indices [p.kernelH, p.kernelW]).map fun tap =>
      p.im2colCell b (thread.getD 0 0) (thread.getD 1 0) (thread.getD 2 0) (tap.getD 0 0)
        (tap.getD 1 0)

/-- There is a channel for each group, if there are any. -/
theorem Fits.channels_div_ne_zero (fits : p.Fits) (occupied : 0 < p.channels) :
    p.channels / p.groups ≠ 0 := by
  intro zero
  have whole := Nat.div_mul_cancel fits.divides
  rw [zero, Nat.zero_mul] at whole
  exact Nat.ne_of_gt occupied whole.symm

theorem modulatedDeformableIm2col_eq (fits : p.Fits) (b : Nat) :
    p.modulatedDeformableIm2col (K := K) (.bottom, b * (p.channels * p.height * p.width * 1))
        (.offset, b * chw p.offsetShape) (.mask, b * chw p.maskShape) 1 (.columns, 0) =
      some (p.im2colProgram b) := by
  have threads : (p.channels : Int) * 1 * p.heightOut * p.widthOut =
      ([p.channels, p.outH, p.outW].prod : Nat) := by
    rw [fits.outH_eq, fits.outW_eq]
    simp only [List.prod_cons, List.prod_nil]
    push_cast
    ring
  have divided : (p.channels : Int).tdiv p.deformableGroup = (p.channels / p.groups : Nat) := by
    rw [fits.groups_eq]
    rfl
  have safe : ¬(p.deformableGroup = 0 ∨ 0 < (p.channels : Int) * 1 * p.heightOut * p.widthOut ∧
      (p.channels : Int).tdiv p.deformableGroup = 0) := by
    rintro (zero | ⟨positive, zero⟩)
    · exact fits.deformableGroup.ne' zero
    · rw [divided] at zero
      refine fits.channels_div_ne_zero (Nat.pos_of_ne_zero fun none => ?_) (Int.ofNat_inj.mp zero)
      rw [none] at positive
      simp at positive
  unfold modulatedDeformableIm2col
  rw [if_neg safe, threads, Int.toNat_natCast, ← map_flat_indices, List.flatMap_map]
  refine congrArg some (List.flatMap_congr fun thread member => ?_)
  obtain ⟨c, y, x, rfl⟩ := List.length_eq_three.mp (mem_indices.mp member).1
  have inside := mem_indices.mp member
  simp only [inside_cons, inside_nil] at inside
  exact im2colCells_eq fits inside.1 inside.2.1 inside.2.2.1

theorem mem_im2colProgram {a : Assign DcnCell K} :
    a ∈ p.im2colProgram b ↔ ∃ c < p.channels, ∃ y < p.outH, ∃ x < p.outW, ∃ i < p.kernelH,
      ∃ j < p.kernelW, a = p.im2colCell b c y x i j := by
  simp only [im2colProgram, List.mem_flatMap, List.mem_map]
  constructor
  · rintro ⟨thread, inThreads, tap, inTaps, rfl⟩
    have inside := mem_indices.mp inThreads
    have inside' := mem_indices.mp inTaps
    exact ⟨_, inside.2 0 (by simp), _, inside.2 1 (by simp), _, inside.2 2 (by simp), _,
      inside'.2 0 (by simp), _, inside'.2 1 (by simp), rfl⟩
  · rintro ⟨c, hc, y, hy, x, hx, i, hi, j, hj, rfl⟩
    refine ⟨[c, y, x], mem_indices.mpr ?_, [i, j], mem_indices.mpr ?_, rfl⟩
    · exact inside_triple.mpr ⟨hc, hy, hx⟩
    · exact inside_pair.mpr ⟨hi, hj⟩

/-- Every cell of the columns is the target of some assignment. -/
theorem exists_columnCell {place : Nat} (less : place < p.columnsSize) :
    ∃ c < p.channels, ∃ i < p.kernelH, ∃ j < p.kernelW, ∃ y < p.outH, ∃ x < p.outW,
      p.columnCell c i j y x = (.columns, (place : Int)) := by
  obtain ⟨index, inside, rfl⟩ := exists_index less
  obtain ⟨c, i, j, y, x, rfl⟩ : ∃ c i j y x, index = [c, i, j, y, x] := by
    match index, inside.1 with
    | [c, i, j, y, x], _ => exact ⟨c, i, j, y, x, rfl⟩
  simp only [inside_cons, inside_nil] at inside
  obtain ⟨hc, hi, hj, hy, hx, -⟩ := inside
  exact ⟨c, hc, i, hi, j, hj, y, hy, x, hx, rfl⟩

theorem targets_im2colProgram :
    ((p.im2colProgram (K := K) b).map fun a => a.target.2.toNat).Perm
      (List.range p.columnsSize) := by
  refine perm_range_of_onto ?_ fun place less => ?_
  · simp only [im2colProgram, List.length_map, List.length_flatMap, length_indices,
      List.map_const', List.sum_replicate_nat, columnsSize, List.prod_cons, List.prod_nil]
    exact le_of_eq (by ring)
  · obtain ⟨c, hc, i, hi, j, hj, y, hy, x, hx, same⟩ := exists_columnCell less
    refine List.mem_map.mpr ⟨_, mem_im2colProgram.mpr
      ⟨c, hc, y, hy, x, hx, i, hi, j, hj, rfl⟩, ?_⟩
    rw [im2colCell, same]
    rfl

theorem once_im2colProgram : ((p.im2colProgram (K := K) b).map Assign.target).Nodup := by
  have distinct := nodup_of_perm_range (targets_im2colProgram (p := p) (K := K) (b := b))
  refine List.Nodup.of_map (fun cell : DcnCell => cell.2.toNat) ?_
  rwa [List.map_map]

theorem reads_im2colSample {dataImPtr cell : DcnCell} {h w : K}
    (inReads : cell ∈ (p.im2colSample dataImPtr h w).reads memory) :
    ∃ y < p.height, ∃ x < p.width, cell = dataImPtr.plus ((y : Int) * p.width + x) := by
  unfold im2colSample at inReads
  split at inReads
  · next near => exact reads_dmcnIm2colBilinear near inReads
  · cases inReads

/-- What an assignment to the columns reads. -/
theorem reads_im2colCell {a : Assign DcnCell K} (member : a ∈ p.im2colProgram b) {cell : DcnCell}
    (inReads : cell ∈ a.source.reads memory) :
    ∃ c < p.channels, ∃ y < p.outH, ∃ x < p.outW, ∃ i < p.kernelH, ∃ j < p.kernelW,
      (∃ axis < 2, cell = p.offsetCell b c i j y x axis) ∨ cell = p.maskCell b c i j y x ∨
        ∃ h < p.height, ∃ w < p.width,
          cell = (p.bottomCell b c 0 0).plus ((h : Int) * p.width + w) := by
  obtain ⟨c, hc, y, hy, x, hx, i, hi, j, hj, rfl⟩ := mem_im2colProgram.mp member
  refine ⟨c, hc, y, hy, x, hx, i, hi, j, hj, ?_⟩
  simp only [im2colCell, im2colValue, reads_bind, reads_load, value_load, List.singleton_append,
    List.mem_cons] at inReads
  rcases inReads with rfl | rfl | rfl | inReads
  · exact .inl ⟨0, Nat.zero_lt_two, rfl⟩
  · exact .inl ⟨1, Nat.one_lt_two, rfl⟩
  · exact .inr (.inl rfl)
  · rw [reads_pure, List.append_nil] at inReads
    exact .inr (.inr (reads_im2colSample inReads))

theorem buffer_of_reads_im2colCell {a : Assign DcnCell K} (member : a ∈ p.im2colProgram b)
    {cell : DcnCell} (inReads : cell ∈ a.source.reads memory) :
    cell.1 = .offset ∨ cell.1 = .mask ∨ cell.1 = .bottom := by
  obtain ⟨c, -, y, -, x, -, i, -, j, -, same⟩ := reads_im2colCell member inReads
  rcases same with ⟨axis, -, rfl⟩ | rfl | ⟨h, -, w, -, rfl⟩
  · exact .inl rfl
  · exact .inr (.inl rfl)
  · exact .inr (.inr rfl)

theorem target_im2colProgram {cell : DcnCell}
    (isTarget : cell ∈ (p.im2colProgram (K := K) b).map Assign.target) : cell.1 = .columns := by
  obtain ⟨a, member, rfl⟩ := List.mem_map.mp isTarget
  obtain ⟨c, -, y, -, x, -, i, -, j, -, rfl⟩ := mem_im2colProgram.mp member
  rfl

theorem apart_im2colProgram : Apart (p.im2colProgram b) memory := by
  refine ⟨once_im2colProgram, fun a member cell inReads isTarget => ?_⟩
  have inColumns := target_im2colProgram isTarget
  rcases buffer_of_reads_im2colCell member inReads with other | other | other
  · cases other.symm.trans inColumns
  · cases other.symm.trans inColumns
  · cases other.symm.trans inColumns

theorem perform_im2colProgram_of_ne {cell : DcnCell} (other : cell.1 ≠ .columns) :
    perform (p.im2colProgram b) memory cell = memory cell :=
  perform_of_notMem fun isTarget => other (target_im2colProgram isTarget)

variable [IsStrictOrderedRing K]

theorem value_im2colSample (fits : p.Fits) {h w : K} :
    (p.im2colSample (p.bottomCell b c 0 0) h w).value memory =
      bilinear p.height p.width
        (fun place => memory (p.bottomCell b c place.1.toNat place.2.toNat)) h w := by
  have plane : ∀ q : Int × Int, inPlane p.height p.width q →
      memory ((p.bottomCell b c 0 0).plus (q.1 * p.width + q.2)) =
        memory (p.bottomCell b c q.1.toNat q.2.toNat) := by
    intro q inside
    obtain ⟨⟨rowLow, -⟩, columnLow, -⟩ : (0 ≤ q.1 ∧ q.1 < p.height) ∧ (0 ≤ q.2 ∧ q.2 < p.width) :=
      of_decide_eq_true inside
    refine congrArg memory (Prod.ext rfl ?_)
    simp only [DcnCell.plus, bottomCell, fits.bottom, flat, List.prod_cons, List.prod_nil]
    push_cast
    rw [Int.toNat_of_nonneg rowLow, Int.toNat_of_nonneg columnLow]
    ring
  unfold im2colSample
  split
  · next near => rw [value_dmcnIm2colBilinear near, bilinear_congr _ _ plane]
  · next far => rw [bilinear_of_outside far, value_pure]

/-- A cell of the columns gets the sample at its point, times the mask. -/
theorem value_im2colCell (fits : p.Fits) :
    (p.im2colCell b c y x i j).source.value memory =
      p.sampleAt memory b c i j y x * memory (p.maskCell b c i j y x) := by
  simp only [im2colCell, im2colValue, value_bind, value_load, value_pure, value_im2colSample fits]
  rfl

theorem perform_im2colProgram (fits : p.Fits) (hc : c < p.channels) (hi : i < p.kernelH)
    (hj : j < p.kernelW) (hy : y < p.outH) (hx : x < p.outW) :
    perform (p.im2colProgram b) memory (p.columnCell c i j y x) =
      p.sampleAt memory b c i j y x * memory (p.maskCell b c i j y x) := by
  have member := mem_im2colProgram (K := K) (b := b).mpr
    ⟨c, hc, y, hy, x, hx, i, hi, j, hj, rfl⟩
  exact (apart_im2colProgram.perform_of_mem member).trans (value_im2colCell fits)

end

end DeformableConv

end CviRuntime.CpuFunction
