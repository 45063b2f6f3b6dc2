import CviRuntime.CpuFunction.DeformableConv

/-!
# The passes of the deformable convolution (`src/common/cpu_function/deformableconv.cpp`)

Each pass fills one image of the output, and leaves the others. It reads the columns only after it
has written them, each of their cells once; all accesses are inside the buffers, whatever the
offsets are.
-/

namespace CviRuntime.CpuFunction

open CviRuntime.RowMajor CviRuntime.Sampling CviRuntime.Scatter CviRuntime.Assignment
open CviRuntime.Assignment.Reading

namespace DeformableConv

variable (p : DeformableConv)

/-! ## One pass over the batch -/

section

variable {p} {K : Type*} [Field K] {memory memory' : DcnCell → K} {b c i j y x o : Nat}

/-- The elements of a channel of the output. -/
def outSize (p : DeformableConv) : Nat := p.outH * p.outW

/-- The first element of an image of the output. -/
def outputN (p : DeformableConv) (b : Nat) : DcnCell := (.top, b * chw p.topShape)

def biasProgram (p : DeformableConv) (b : Nat) : List (Assign DcnCell K) :=
  thFloatBlasGemm p.outSize p.channelsOut (1 : Nat) 1 (.ones, 0) 1 (.bias, 0) 1 0 (p.outputN b)
    p.outSize

def kernelSize (p : DeformableConv) : Nat := p.channels * p.kernelH * p.kernelW

def weightProgram (p : DeformableConv) (b : Nat) : List (Assign DcnCell K) :=
  thFloatBlasGemm p.outSize p.channelsOut p.kernelSize 1 (.columns, 0) p.outSize (.weight, 0)
    p.kernelSize 1 (p.outputN b) p.outSize

theorem topCell_eq (fits : p.Fits) (b y x o : Nat) :
    p.topCell b y x o =
      (p.outputN b).plus (flat [p.channelsOut, p.outSize] [o, y * p.outW + x] : Nat) := by
  refine Prod.ext rfl ?_
  simp only [DcnCell.plus, topCell, outputN, outSize, chw, fits.top, flat, List.prod_cons,
    List.prod_nil, List.getD_cons_zero, List.getD_cons_succ]
  push_cast
  ring

theorem columnCell_eq (c i j y x : Nat) :
    p.columnCell c i j y x = DcnCell.plus (.columns, 0)
      ((y * p.outW + x : Nat) +
        (flat [p.channels, p.kernelH, p.kernelW] [c, i, j] : Nat) * p.outSize) := by
  refine Prod.ext rfl ?_
  simp only [DcnCell.plus, columnCell, outSize, flat, List.prod_cons, List.prod_nil]
  push_cast
  ring

theorem weightCell_eq (fits : p.Fits) (c i j o : Nat) :
    p.weightCell c i j o = DcnCell.plus (.weight, 0)
      (o * p.kernelSize + (flat [p.channels, p.kernelH, p.kernelW] [c, i, j] : Nat)) := by
  refine Prod.ext rfl ?_
  simp only [DcnCell.plus, weightCell, kernelSize, fits.weight, flat, List.prod_cons, List.prod_nil]
  push_cast
  ring

/-- What a pass starts from: the tensors that are only read hold what they held at first. -/
structure Ready (memory memory' : DcnCell → K) : Prop where
  ones : ∀ n, memory' (.ones, n) = 1
  inputs : ∀ cell : DcnCell, cell.1 ≠ .ones → cell.1 ≠ .columns → cell.1 ≠ .top →
    memory' cell = memory cell

theorem ready_allocate (memory : DcnCell → K) : Ready memory (allocate memory) := by
  refine ⟨fun n => rfl, fun cell notOnes notColumns notTop => ?_⟩
  obtain ⟨buffer, n⟩ := cell
  cases buffer with
  | ones => exact absurd rfl notOnes
  | columns => exact absurd rfl notColumns
  | top => rfl
  | bottom => rfl
  | weight => rfl
  | bias => rfl
  | offset => rfl
  | mask => rfl

/-- The columns and the output do not matter. -/
theorem Ready.of_kept {later : DcnCell → K} (ready : Ready memory memory')
    (kept : ∀ cell : DcnCell, cell.1 ≠ .columns → cell.1 ≠ .top → later cell = memory' cell) :
    Ready memory later := by
  refine ⟨fun n => ?_, fun cell notOnes notColumns notTop => ?_⟩
  · rw [kept _ (by simp) (by simp), ready.ones]
  · rw [kept cell notColumns notTop, ready.inputs cell notOnes notColumns notTop]

theorem Ready.biasProgram (ready : Ready memory memory') (p : DeformableConv) (b : Nat) :
    Ready memory (perform (p.biasProgram b) memory') := by
  apply ready.of_kept
  intro cell _ notTop
  exact perform_thFloatBlasGemm_of_ne notTop

/-- The place of a pixel in a channel. -/
theorem pixel_lt (hy : y < p.outH) (hx : x < p.outW) : y * p.outW + x < p.outSize :=
  place_lt hy hx

/-- The bias is put into the output first. -/
theorem perform_biasProgram (fits : p.Fits) (ready : Ready memory memory') (ho : o < p.channelsOut)
    (hy : y < p.outH) (hx : x < p.outW) :
    perform (p.biasProgram b) memory' (p.topCell b y x o) = memory (.bias, o) := by
  have one : memory' (DcnCell.plus (.ones, 0) ((y * p.outW + x : Nat) + (0 : Nat) * 1)) = 1 :=
    ready.ones _
  have bias : memory' (DcnCell.plus (.bias, 0) (o * 1 + (0 : Nat))) = memory (.bias, o) := by
    have place : DcnCell.plus (.bias, 0) (o * 1 + (0 : Nat)) = (.bias, (o : Int)) := by
      refine Prod.ext rfl ?_
      simp [DcnCell.plus]
    rw [place, ready.inputs _ (by simp) (by simp) (by simp)]
  rw [topCell_eq fits, biasProgram,
    perform_thFloatBlasGemm (by simp [outputN]) (by simp [outputN]) ho (pixel_lt hy hx),
    Finset.sum_range_one, one, bias]
  ring

/-- A product that is put into one image of the output leaves the others. -/
theorem topCell_notMem (fits : p.Fits) {b' k : Nat} {alpha beta : K} {a c : DcnCell}
    {lda ldb : Int} (other : b' ≠ b) (ho : o < p.channelsOut) (hy : y < p.outH) (hx : x < p.outW) :
    p.topCell b' y x o ∉ (thFloatBlasGemm p.outSize p.channelsOut k alpha a lda c ldb beta
      (p.outputN b) p.outSize).map Assign.target := by
  have image : chw p.topShape = (p.channelsOut * p.outSize : Nat) := by
    simp only [chw, outSize, fits.top, List.getD_cons_zero, List.getD_cons_succ]
    push_cast
    ring
  have inside : Inside [p.channelsOut, p.outSize] [o, y * p.outW + x] :=
    inside_pair.mpr ⟨ho, pixel_lt hy hx⟩
  have less := flat_lt inside
  simp only [List.prod_cons, List.prod_nil, Nat.mul_one] at less
  rw [targets_thFloatBlasGemm, topCell_eq fits]
  intro isTarget
  obtain ⟨place, inRange, same⟩ := List.mem_map.mp isTarget
  have places : (b * (p.channelsOut * p.outSize) + place : Nat) =
      b' * (p.channelsOut * p.outSize) +
        flat [p.channelsOut, p.outSize] [o, y * p.outW + x] := by
    have same := congrArg Prod.snd same
    simp only [DcnCell.plus, outputN, image] at same
    exact_mod_cast same
  have batches := congrArg (· / (p.channelsOut * p.outSize)) places
  simp only [place_div (List.mem_range.mp inRange), place_div less] at batches
  exact other batches.symm

variable [LinearOrder K] [FloorRing K]

def batchProgram (p : DeformableConv) (b : Nat) : List (Assign DcnCell K) :=
  p.biasProgram b ++ p.im2colProgram b ++ p.weightProgram b

theorem batchPass_eq (fits : p.Fits) (b : Nat) :
    p.batchPass (K := K) b = some (p.batchProgram b) := by
  have size : p.heightOut * p.widthOut = (p.outSize : Int) := by
    rw [fits.outH_eq, fits.outW_eq, outSize, Nat.cast_mul]
  have columns : (p.channels : Int) * p.kernelH * p.kernelW = (p.kernelSize : Int) := by
    rw [kernelSize, Nat.cast_mul, Nat.cast_mul]
  unfold batchPass
  simp only [modulatedDeformableIm2col_eq fits, size, columns]
  rfl

/-- A value computed from the tensors that are only read is the same in each pass. -/
theorem Ready.sampleAt_eq (ready : Ready memory memory') :
    p.sampleAt memory' b c i j y x = p.sampleAt memory b c i j y x := by
  have offset : ∀ axis,
      memory' (p.offsetCell b c i j y x axis) = memory (p.offsetCell b c i j y x axis) :=
    fun axis => ready.inputs _ (by simp [offsetCell]) (by simp [offsetCell]) (by simp [offsetCell])
  have bottom : ∀ h w, memory' (p.bottomCell b c h w) = memory (p.bottomCell b c h w) :=
    fun h w => ready.inputs _ (by simp [bottomCell]) (by simp [bottomCell]) (by simp [bottomCell])
  simp only [sampleAt, pointH, pointW, offset, bottom]

theorem Ready.batchProgram (ready : Ready memory memory') (b : Nat) :
    Ready memory (perform (p.batchProgram b) memory') := by
  apply ready.of_kept
  intro cell notColumns notTop
  rw [DeformableConv.batchProgram, perform_append, perform_append, weightProgram,
    DeformableConv.biasProgram, perform_thFloatBlasGemm_of_ne notTop,
    perform_im2colProgram_of_ne notColumns, perform_thFloatBlasGemm_of_ne notTop]

theorem perform_batchProgram_of_other (fits : p.Fits) {b' : Nat} (other : b' ≠ b)
    (ho : o < p.channelsOut) (hy : y < p.outH) (hx : x < p.outW) :
    perform (p.batchProgram b) memory (p.topCell b' y x o) = memory (p.topCell b' y x o) := by
  rw [batchProgram, perform_append, perform_append, weightProgram, biasProgram,
    perform_of_notMem (topCell_notMem fits other ho hy hx),
    perform_im2colProgram_of_ne (by simp [topCell]),
    perform_of_notMem (topCell_notMem fits other ho hy hx)]

variable [IsStrictOrderedRing K]

/-- An element of the output after its pass. -/
theorem perform_batchProgram (fits : p.Fits) (ready : Ready memory memory')
    (ho : o < p.channelsOut) (hy : y < p.outH) (hx : x < p.outW) :
    perform (p.batchProgram b) memory' (p.topCell b y x o) = p.convolution memory b y x o := by
  have bias : perform (p.im2colProgram b) (perform (p.biasProgram b) memory')
      (p.topCell b y x o) = memory (.bias, o) := by
    rw [perform_im2colProgram_of_ne (by simp [topCell]), perform_biasProgram fits ready ho hy hx]
  have inputs : Ready memory (perform (p.biasProgram b) memory') := ready.biasProgram p b
  have size : p.kernelSize = [p.channels, p.kernelH, p.kernelW].prod := by
    simp only [kernelSize, List.prod_cons, List.prod_nil]
    ring
  rw [batchProgram, perform_append, perform_append, weightProgram]
  rw [topCell_eq fits] at bias ⊢
  rw [perform_thFloatBlasGemm (by simp [outputN]) (by simp [outputN]) ho (pixel_lt hy hx), bias,
    one_mul, one_mul, add_comm, size, sum_range_prod, ← size]
  simp only [sum_indices_cons, indices_nil, List.map_singleton, List.sum_singleton]
  refine congrArg (memory (.bias, (o : Int)) + ·) (Finset.sum_congr rfl fun c inC =>
    Finset.sum_congr rfl fun i inI => Finset.sum_congr rfl fun j inJ => ?_)
  rw [← columnCell_eq, ← weightCell_eq fits, perform_im2colProgram fits (Finset.mem_range.mp inC)
    (Finset.mem_range.mp inI) (Finset.mem_range.mp inJ) hy hx,
    perform_im2colProgram_of_ne (by simp [weightCell]), inputs.sampleAt_eq,
    inputs.inputs (p.maskCell b c i j y x) (by simp [maskCell]) (by simp [maskCell])
      (by simp [maskCell]),
    inputs.inputs (p.weightCell c i j o) (by simp [weightCell]) (by simp [weightCell])
      (by simp [weightCell])]
  ring

/-! ## All passes -/

/-- The images of the output after passes for some of them. -/
theorem perform_batches (fits : p.Fits) (ho : o < p.channelsOut) (hy : y < p.outH)
    (hx : x < p.outW) {bs : List Nat} (distinct : bs.Nodup) (ready : Ready memory memory') :
    perform (bs.map p.batchProgram).flatten memory' (p.topCell b y x o) =
      if b ∈ bs then p.convolution memory b y x o else memory' (p.topCell b y x o) := by
  induction bs generalizing memory' with
  | nil => rfl
  | cons b₀ bs ih =>
    obtain ⟨fresh, distinct⟩ := List.nodup_cons.mp distinct
    rw [List.map_cons, List.flatten_cons, perform_append, ih distinct (ready.batchProgram b₀)]
    by_cases later : b ∈ bs
    · rw [if_pos later, if_pos (List.mem_cons_of_mem _ later)]
    · rw [if_neg later]
      by_cases now : b = b₀
      · subst now
        rw [if_pos List.mem_cons_self, perform_batchProgram fits ready ho hy hx]
      · rw [if_neg (List.not_mem_cons_of_ne_of_not_mem now later),
          perform_batchProgram_of_other fits now ho hy hx]

end

/-! ## Accesses -/

/-- The elements of a buffer. -/
def size : DcnBuffer → Int
  | .bottom => p.bottomShape.prod
  | .weight => p.weightShape.prod
  | .bias => p.biasShape.prod
  | .offset => p.offsetShape.prod
  | .mask => p.maskShape.prod
  | .ones => p.onesLength
  | .columns => p.columnsLength
  | .top => p.topShape.prod

/-- The cell is in its buffer. -/
def InBuffer (cell : DcnCell) : Prop := 0 ≤ cell.2 ∧ cell.2 < p.size cell.1

section

variable {p} {b c i j y x o axis : Nat}

theorem inBuffer_flat {buffer : DcnBuffer} {shape index : List Nat}
    (size : p.size buffer = shape.prod) (inside : Inside shape index) :
    p.InBuffer (buffer, (flat shape index : Nat)) := by
  refine ⟨Int.natCast_nonneg _, ?_⟩
  change ((flat shape index : Nat) : Int) < p.size buffer
  rw [size]
  exact Int.ofNat_lt.mpr (flat_lt inside)

theorem Fits.size_ones (fits : p.Fits) : p.size .ones = [p.outSize].prod := by
  rw [size, fits.onesLength_eq, List.prod_singleton, outSize]

theorem Fits.size_columns (fits : p.Fits) : p.size .columns = p.columnsSize :=
  fits.columnsLength_eq

theorem Fits.size_columns_product (fits : p.Fits) :
    p.size .columns = [p.kernelSize, p.outSize].prod := by
  rw [fits.size_columns]
  simp only [columnsSize, kernelSize, outSize, List.prod_cons, List.prod_nil]
  push_cast
  ring

theorem Fits.size_weight (fits : p.Fits) :
    p.size .weight = [p.channelsOut, p.kernelSize].prod := by
  rw [size, fits.weight]
  simp only [kernelSize, List.prod_cons, List.prod_nil]
  push_cast
  ring

theorem Fits.size_top (fits : p.Fits) :
    p.size .top = [p.batch, p.channelsOut, p.outSize].prod := by
  rw [size, fits.top]
  simp only [outSize, List.prod_cons, List.prod_nil]
  push_cast
  ring

/-- The group of a channel is one of the groups. -/
theorem Fits.group_lt (fits : p.Fits) (hc : c < p.channels) : p.group c < p.groups := by
  apply Nat.div_lt_of_lt_mul
  rwa [Nat.div_mul_cancel fits.divides]

theorem inBuffer_offsetCell (fits : p.Fits) (hb : b < p.batch) (hc : c < p.channels)
    (hi : i < p.kernelH) (hj : j < p.kernelW) (hy : y < p.outH) (hx : x < p.outW)
    (hAxis : axis < 2) : p.InBuffer (p.offsetCell b c i j y x axis) := by
  have tap : 2 * (i * p.kernelW + j) + axis < 2 * (p.kernelH * p.kernelW) := by
    have := place_lt hi hj
    omega
  apply inBuffer_flat rfl
  rw [fits.offset]
  exact inside_quadruple.mpr ⟨hb, place_lt (fits.group_lt hc) tap, hy, hx⟩

theorem inBuffer_maskCell (fits : p.Fits) (hb : b < p.batch) (hc : c < p.channels)
    (hi : i < p.kernelH) (hj : j < p.kernelW) (hy : y < p.outH) (hx : x < p.outW) :
    p.InBuffer (p.maskCell b c i j y x) := by
  apply inBuffer_flat rfl
  rw [fits.mask]
  exact inside_quadruple.mpr ⟨hb, place_lt (fits.group_lt hc) (place_lt hi hj), hy, hx⟩

theorem inBuffer_bottomCell (fits : p.Fits) (hb : b < p.batch) (hc : c < p.channels) {h w : Nat}
    (hh : h < p.height) (hw : w < p.width) :
    p.InBuffer ((p.bottomCell b c 0 0).plus ((h : Int) * p.width + w)) := by
  have cell : (p.bottomCell b c 0 0).plus ((h : Int) * p.width + w) = p.bottomCell b c h w := by
    refine Prod.ext rfl ?_
    simp only [DcnCell.plus, bottomCell, fits.bottom, flat, List.prod_cons, List.prod_nil]
    push_cast
    ring
  rw [cell]
  apply inBuffer_flat rfl
  rw [fits.bottom]
  exact inside_quadruple.mpr ⟨hb, hc, hh, hw⟩

theorem inBuffer_columnCell (fits : p.Fits) (hc : c < p.channels) (hi : i < p.kernelH)
    (hj : j < p.kernelW) (hy : y < p.outH) (hx : x < p.outW) :
    p.InBuffer (p.columnCell c i j y x) := by
  apply inBuffer_flat fits.size_columns
  simp only [inside_cons, inside_nil]
  exact ⟨hc, hi, hj, hy, hx, trivial⟩

section

variable {K : Type*} [Field K] {memory : DcnCell → K}

/-- The cells of a product lie in their buffers when the matrices do. -/
theorem inBuffer_thFloatBlasGemm {m n k : Nat} {alpha beta : K} {a b c : DcnCell} {lda ldb : Int}
    (inA : ∀ i < m, ∀ q < k, p.InBuffer (a.plus (i + q * lda)))
    (inB : ∀ j < n, ∀ q < k, p.InBuffer (b.plus (j * ldb + q)))
    (inC : ∀ place < n * m, p.InBuffer (c.plus place)) :
    ∀ access ∈ (thFloatBlasGemm m n k alpha a lda b ldb beta c m).flatMap (accesses memory),
      p.InBuffer access.cell := by
  have place_lt : ∀ index ∈ indices [n, m], flat [n, m] index < n * m := fun index member => by
    have less := flat_lt (mem_indices.mp member)
    simpa using less
  rw [thFloatBlasGemm_eq]
  refine forall_accesses (fun assign member => ?_) fun assign member cell inReads => ?_
  · obtain ⟨index, inIndices, rfl⟩ := List.mem_map.mp member
    exact inC _ (place_lt index inIndices)
  · obtain ⟨index, inIndices, rfl⟩ := List.mem_map.mp member
    have inside := mem_indices.mp inIndices
    rcases mem_reads_addDot.mp inReads with ⟨q, hq, rfl | rfl⟩ | rfl
    · rw [plus_plus]
      exact inA _ (inside.2 1 (by simp)) q hq
    · rw [plus_plus]
      exact inB _ (inside.2 0 (by simp)) q hq
    · exact inC _ (place_lt index inIndices)

/-- The elements of an image of the output. -/
theorem inBuffer_outputN (fits : p.Fits) (hb : b < p.batch) :
    ∀ place < p.channelsOut * p.outSize, p.InBuffer ((p.outputN b).plus place) := by
  intro place less
  have cell : (p.outputN b).plus place =
      (DcnBuffer.top, ((b * (p.channelsOut * p.outSize) + place : Nat) : Int)) := by
    refine Prod.ext rfl ?_
    simp only [DcnCell.plus, outputN, outSize, chw, fits.top, List.getD_cons_zero,
      List.getD_cons_succ]
    push_cast
    ring
  rw [cell]
  refine ⟨Int.natCast_nonneg _, ?_⟩
  rw [fits.size_top, List.prod_cons, List.prod_cons, List.prod_singleton]
  exact Int.ofNat_lt.mpr (place_lt hb less)

theorem inBuffer_biasProgram (fits : p.Fits) (hb : b < p.batch) :
    ∀ access ∈ (p.biasProgram b).flatMap (accesses memory), p.InBuffer access.cell := by
  refine inBuffer_thFloatBlasGemm (fun i hi q hq => ?_) (fun j hj q hq => ?_)
    (inBuffer_outputN fits hb)
  · obtain rfl := Nat.lt_one_iff.mp hq
    refine ⟨by simp [DcnCell.plus], ?_⟩
    rw [plus_fst, fits.size_ones]
    simp only [DcnCell.plus, List.prod_singleton]
    omega
  · obtain rfl := Nat.lt_one_iff.mp hq
    refine ⟨by simp [DcnCell.plus], ?_⟩
    rw [plus_fst, size, fits.bias]
    simp only [DcnCell.plus]
    omega

theorem inBuffer_weightProgram (fits : p.Fits) (hb : b < p.batch) :
    ∀ access ∈ (p.weightProgram b).flatMap (accesses memory), p.InBuffer access.cell := by
  refine inBuffer_thFloatBlasGemm (fun i hi q hq => ?_) (fun j hj q hq => ?_)
    (inBuffer_outputN fits hb)
  · have cell : DcnCell.plus (.columns, 0) (i + q * p.outSize) =
        (DcnBuffer.columns, ((flat [p.kernelSize, p.outSize] [q, i] : Nat) : Int)) := by
      refine Prod.ext rfl ?_
      simp only [DcnCell.plus, flat, List.prod_cons, List.prod_nil]
      push_cast
      ring
    rw [cell]
    apply inBuffer_flat fits.size_columns_product
    exact inside_pair.mpr ⟨hq, hi⟩
  · have cell : DcnCell.plus (.weight, 0) (j * p.kernelSize + q) =
        (DcnBuffer.weight, ((flat [p.channelsOut, p.kernelSize] [j, q] : Nat) : Int)) := by
      refine Prod.ext rfl ?_
      simp only [DcnCell.plus, flat, List.prod_cons, List.prod_nil]
      push_cast
      ring
    rw [cell]
    apply inBuffer_flat fits.size_weight
    exact inside_pair.mpr ⟨hj, hq⟩

variable [LinearOrder K] [FloorRing K]

theorem inBuffer_im2colProgram (fits : p.Fits) (hb : b < p.batch) :
    ∀ access ∈ (p.im2colProgram b).flatMap (accesses memory), p.InBuffer access.cell := by
  refine forall_accesses (fun a member => ?_) fun a member cell inReads => ?_
  · obtain ⟨c, hc, y, hy, x, hx, i, hi, j, hj, rfl⟩ := mem_im2colProgram.mp member
    exact inBuffer_columnCell fits hc hi hj hy hx
  · obtain ⟨c, hc, y, hy, x, hx, i, hi, j, hj, same⟩ := reads_im2colCell member inReads
    rcases same with ⟨axis, hAxis, rfl⟩ | rfl | ⟨h, hh, w, hw, rfl⟩
    · exact inBuffer_offsetCell fits hb hc hi hj hy hx hAxis
    · exact inBuffer_maskCell fits hb hc hi hj hy hx
    · exact inBuffer_bottomCell fits hb hc hh hw

end

end

/-! ## The columns in a pass -/

section

variable {p} {K : Type*} [Field K] {memory : DcnCell → K} {b : Nat} {cell : DcnCell}

/-- The product reads its matrices and writes its result. -/
theorem buffer_of_mem_accesses {m n k : Nat} {alpha beta : K} {a c c' : DcnCell} {lda ldb : Int} :
    ∀ access ∈ (thFloatBlasGemm m n k alpha a lda c ldb beta c' m).flatMap (accesses memory),
      access.cell.1 = a.1 ∨ access.cell.1 = c.1 ∨ access.cell.1 = c'.1 := by
  rw [thFloatBlasGemm_eq]
  refine forall_accesses (P := fun cell : DcnCell => cell.1 = a.1 ∨ cell.1 = c.1 ∨ cell.1 = c'.1)
    (fun assign member => ?_) fun assign member cell inReads => ?_
  · obtain ⟨index, -, rfl⟩ := List.mem_map.mp member
    exact .inr (.inr rfl)
  · obtain ⟨index, -, rfl⟩ := List.mem_map.mp member
    rcases mem_reads_addDot.mp inReads with ⟨q, -, rfl | rfl⟩ | rfl
    · exact .inl rfl
    · exact .inr (.inl rfl)
    · exact .inr (.inr rfl)

theorem biasProgram_notColumns (inColumns : cell.1 = .columns) :
    ∀ access ∈ (p.biasProgram b).flatMap (accesses memory), access.cell ≠ cell := by
  rintro access member rfl
  rcases buffer_of_mem_accesses access member with other | other | other
  · cases inColumns.symm.trans other
  · cases inColumns.symm.trans other
  · cases inColumns.symm.trans other

theorem weightProgram_notWritten (inColumns : cell.1 = .columns) :
    Access.write cell ∉ (p.weightProgram b).flatMap (accesses memory) := by
  rw [write_mem_accesses, weightProgram, targets_thFloatBlasGemm]
  intro isTarget
  obtain ⟨place, -, rfl⟩ := List.mem_map.mp isTarget
  cases inColumns

variable [LinearOrder K] [FloorRing K]

theorem writtenFirst_im2colProgram {place : Nat} (less : place < p.columnsSize) :
    WrittenFirst (.columns, (place : Int)) ((p.im2colProgram b).flatMap (accesses memory)) := by
  obtain ⟨c, hc, i, hi, j, hj, y, hy, x, hx, same⟩ := exists_columnCell less
  rw [← same]
  refine writtenFirst_of_mem once_im2colProgram
    (mem_im2colProgram.mpr ⟨c, hc, y, hy, x, hx, i, hi, j, hj, rfl⟩) fun a member inReads => ?_
  rcases buffer_of_reads_im2colCell member inReads with other | other | other
  · cases other
  · cases other
  · cases other

/-- The accesses of a pass. -/
theorem trace_batchProgram (b : Nat) :
    trace (p.batchProgram b) memory =
      (p.biasProgram b).flatMap (accesses memory) ++
        (p.im2colProgram b).flatMap (accesses (perform (p.biasProgram b) memory)) ++
          (p.weightProgram b).flatMap
            (accesses (perform (p.im2colProgram b) (perform (p.biasProgram b) memory))) := by
  have bias : Apart (p.biasProgram b) memory :=
    apart_thFloatBlasGemm (by simp [outputN]) (by simp [outputN])
  have weight : Apart (p.weightProgram b)
      (perform (p.im2colProgram b) (perform (p.biasProgram b) memory)) :=
    apart_thFloatBlasGemm (by simp [outputN]) (by simp [outputN])
  rw [batchProgram, trace_append, trace_append, perform_append, bias.trace_eq,
    apart_im2colProgram.trace_eq, weight.trace_eq]

/-- What the accesses of a pass are to be. -/
structure GoodTrace (p : DeformableConv) (accessList : List (Access DcnCell)) : Prop where
  inside : ∀ access ∈ accessList, p.InBuffer access.cell
  columns : ∀ place : Int, 0 ≤ place → place < p.size .columns →
    WrittenFirst (.columns, place) accessList

theorem goodTrace_batchProgram (fits : p.Fits) (hb : b < p.batch) :
    p.GoodTrace (trace (p.batchProgram b) memory) := by
  refine ⟨fun access member => ?_, fun place natural less => ?_⟩
  · rw [trace_batchProgram, List.mem_append, List.mem_append] at member
    rcases member with (inBias | inColumns) | inWeight
    · exact inBuffer_biasProgram fits hb access inBias
    · exact inBuffer_im2colProgram fits hb access inColumns
    · exact inBuffer_weightProgram fits hb access inWeight
  · have place_eq : place = (place.toNat : Int) := (Int.toNat_of_nonneg natural).symm
    rw [fits.size_columns, place_eq] at less
    rw [place_eq, trace_batchProgram]
    refine ((writtenFirst_im2colProgram (Int.ofNat_lt.mp less)).append_left ?_ ?_).append_right
      (weightProgram_notWritten rfl)
    · exact fun inBias => biasProgram_notColumns rfl _ inBias rfl
    · exact fun inBias => biasProgram_notColumns rfl _ inBias rfl

theorem goodTrace_of_mem_traces (fits : p.Fits) {bs : List Nat} (inBatch : ∀ b ∈ bs, b < p.batch) :
    ∀ accessList ∈ traces (bs.map p.batchProgram) memory, p.GoodTrace accessList := by
  induction bs generalizing memory with
  | nil =>
    intro accessList member
    cases member
  | cons b bs ih =>
    intro accessList member
    cases List.mem_cons.mp member with
    | inl head =>
      subst head
      exact goodTrace_batchProgram fits (inBatch b List.mem_cons_self)
    | inr tail => exact ih (fun b' later => inBatch b' (List.mem_cons_of_mem _ later)) _ tail

theorem run_eq (fits : p.Fits) (memory : DcnCell → K) :
    p.run memory = some
      (traces ((List.range p.batch).map p.batchProgram) (allocate memory),
        perform ((List.range p.batch).map p.batchProgram).flatten (allocate memory)) := by
  have safe : ¬(p.strideH = 0 ∨ p.strideW = 0 ∨ p.onesLength < 0 ∨ p.columnsLength < 0) := by
    rintro (zero | zero | negative | negative)
    · exact absurd fits.strideH (by omega)
    · exact absurd fits.strideW (by omega)
    · rw [fits.onesLength_eq] at negative
      exact absurd (Int.natCast_nonneg _) negative.not_ge
    · rw [fits.columnsLength_eq] at negative
      exact absurd (Int.natCast_nonneg _) negative.not_ge
  have passes : p.batchPass (K := K) = fun b => pure (p.batchProgram b) :=
    funext fun b => batchPass_eq fits b
  unfold run
  rw [if_neg safe, passes, List.mapM_pure]
  rfl

end

end DeformableConv

open DeformableConv

/-- Every element of the output is that of the convolution. In each pass over the batch the cells of
    the columns are written exactly once, and not read before; all accesses are inside the
    buffers. -/
theorem deformableConv_eq {K : Type*} [Field K] [LinearOrder K] [IsStrictOrderedRing K]
    [FloorRing K] (p : DeformableConv) (memory : DcnCell → K) (fits : p.Fits) :
    ∃ passes result, p.run memory = some (passes, result) ∧
      (∀ b < p.batch, ∀ o < p.channelsOut, ∀ y < p.outH, ∀ x < p.outW,
        result (p.topCell b y x o) = p.convolution memory b y x o) ∧
      passes.length = p.batch ∧ ∀ accessList ∈ passes, p.GoodTrace accessList := by
  refine ⟨_, _, run_eq fits memory, fun b hb o ho y hy x hx => ?_, ?_, ?_⟩
  · rw [perform_batches fits ho hy hx List.nodup_range (ready_allocate memory),
      if_pos (List.mem_range.mpr hb)]
  · rw [length_traces, List.length_map, List.length_range]
  · exact goodTrace_of_mem_traces fits fun b member => List.mem_range.mp member

/-- Two channels with an offset for each, and a kernel of one row. -/
def twoChannels : DeformableConv where
  strideH := 1
  strideW := 1
  padH := 0
  padW := 1
  dilationH := 1
  dilationW := 2
  deformableGroup := 2
  bottomShape := [1, 2, 2, 3]
  weightShape := [1, 2, 1, 2]
  biasShape := [1]
  offsetShape := [1, 8, 2, 3]
  maskShape := [1, 4, 2, 3]
  topShape := [1, 1, 2, 3]

theorem fits_twoChannels : twoChannels.Fits where
  strideH := by decide
  strideW := by decide
  heightOut := by decide
  widthOut := by decide
  deformableGroup := by decide
  divides := by decide
  bottom := rfl
  weight := rfl
  bias := rfl
  offset := rfl
  mask := rfl
  top := rfl
  ones := by decide
  columns := by decide

theorem deformableConv_eq_twoChannels :
    ∃ passes result, twoChannels.run (fun cell : DcnCell => (cell.2 : ℚ) / 2) =
        some (passes, result) ∧
      (∀ b < twoChannels.batch, ∀ o < twoChannels.channelsOut, ∀ y < twoChannels.outH,
        ∀ x < twoChannels.outW, result (twoChannels.topCell b y x o) =
          twoChannels.convolution (fun cell : DcnCell => (cell.2 : ℚ) / 2) b y x o) ∧
      passes.length = twoChannels.batch ∧
        ∀ accessList ∈ passes, twoChannels.GoodTrace accessList :=
  deformableConv_eq twoChannels _ fits_twoChannels

/-- 64 channels of 2000 x 2000 and a kernel of 3 x 3. -/
def manyColumns : DeformableConv where
  strideH := 1
  strideW := 1
  padH := 1
  padW := 1
  dilationH := 1
  dilationW := 1
  deformableGroup := 1
  bottomShape := [1, 64, 2000, 2000]
  weightShape := [1, 64, 3, 3]
  biasShape := [1]
  offsetShape := [1, 18, 2000, 2000]
  maskShape := [1, 9, 2000, 2000]
  topShape := [1, 1, 2000, 2000]

theorem shapes_manyColumns : manyColumns.Shapes where
  strideH := by decide
  strideW := by decide
  heightOut := by decide
  widthOut := by decide
  deformableGroup := by decide
  divides := by decide
  bottom := rfl
  weight := rfl
  bias := rfl
  offset := rfl
  mask := rfl
  top := rfl

/-- The size of the columns is negative in an `int`, and nothing is computed. -/
theorem deformableConv_manyColumns :
    manyColumns.Shapes ∧ ∀ memory : DcnCell → ℚ, manyColumns.run memory = none := by
  refine ⟨shapes_manyColumns, fun memory => ?_⟩
  have negative : manyColumns.columnsLength < 0 := by decide
  exact if_pos (.inr (.inr (.inr negative)))

end CviRuntime.CpuFunction
