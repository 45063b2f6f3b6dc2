import CviRuntime.Lib.MachineInt
import CviRuntime.Lib.Sampling
import CviRuntime.Lib.Scatter

/-!
# Pooling of regions (`src/common/cpu_function/roi_pooling.cpp`)

Each region is cut into bins, and each bin clipped to the feature map. The maximum of a bin is kept
in the output itself, which is cleared before; so a bin whose values are all negative gives 0.
Coordinates are rational numbers here; what is made of them as an `int` has to be in the range of
one.
-/

namespace CviRuntime.CpuFunction

open CviRuntime.MachineInt CviRuntime.RowMajor CviRuntime.Sampling CviRuntime.Scatter

/-! ## The regions -/

/-- `roi_batch_ind` and the rounded corners. -/
structure Roi where
  batchInd : Int
  startW : Int
  startH : Int
  endW : Int
  endH : Int
  deriving DecidableEq

/-- The five values at `batch_rois` (`roi_pooling.cpp:52-56`). -/
def roiAt (rois : Nat → ℚ) (spatialScale : ℚ) (batchRois : Nat) : Roi where
  batchInd := toInt (rois batchRois)
  startW := stdRound (rois (batchRois + 1) * spatialScale)
  startH := stdRound (rois (batchRois + 2) * spatialScale)
  endW := stdRound (rois (batchRois + 3) * spatialScale)
  endH := stdRound (rois (batchRois + 4) * spatialScale)

def Roi.height (roi : Roi) : Int := max (roi.endH - roi.startH + 1) 1

def Roi.width (roi : Roi) : Int := max (roi.endW - roi.startW + 1) 1

/-- What the region is converted to, and its extents, are in the range of an `int`
    (`roi_pooling.cpp:52-60`). -/
def Roi.InRange (roi : Roi) : Prop :=
  Fits roi.batchInd ∧ Fits roi.startW ∧ Fits roi.startH ∧ Fits roi.endW ∧ Fits roi.endH ∧
    Fits (roi.endH - roi.startH + 1) ∧ Fits (roi.endW - roi.startW + 1)

instance (roi : Roi) : Decidable roi.InRange := inferInstanceAs (Decidable (_ ∧ _))

/-- The end of the region, from which its last bins are clipped. -/
def Roi.EndsInRange (roi : Roi) : Prop :=
  Fits (roi.startH + roi.height) ∧ Fits (roi.startW + roi.width)

/-- The first and the last edge of a bin, before clipping. -/
def binEdge (size : Int) (pooled p : Nat) : Int := ⌊(p : ℚ) * (size / pooled)⌋

def binEnd (size : Int) (pooled p : Nat) : Int := ⌈((p : ℚ) + 1) * (size / pooled)⌉

/-- The edges can be moved to the region in an `int` (`roi_pooling.cpp:83-86`). -/
def EdgesFit (start size : Int) (pooled p : Nat) : Prop :=
  Fits (binEdge size pooled p + start) ∧ Fits (binEnd size pooled p + start)

instance (start size : Int) (pooled p : Nat) : Decidable (EdgesFit start size pooled p) :=
  inferInstanceAs (Decidable (_ ∧ _))

/-- Clipped to the feature map. -/
def clipEdge (x : Int) (size : Nat) : Int := min (max x 0) size

/-! ## The kernel -/

/-- `Neuron::offset` (`neuron.hpp:52-54`). -/
def neuronOffset (shape : List Nat) (n : Nat) : Nat :=
  n * shape.getD 1 0 * shape.getD 2 0 * shape.getD 3 0

/-- One bin: its region, the place of the channel in the feature maps, and its numbers. -/
structure RoiBin where
  roi : Roi
  batchData : Int
  ph : Nat
  pw : Nat
  deriving DecidableEq

structure RoiPooling where
  pooledH : Nat
  pooledW : Nat
  spatialScale : ℚ
  dataShape : List Nat
  roisShape : List Nat
  topShape : List Nat

namespace RoiPooling

variable (p : RoiPooling)

def batch : Nat := p.dataShape.getD 0 0

def channel : Nat := p.dataShape.getD 1 0

def height : Nat := p.dataShape.getD 2 0

def width : Nat := p.dataShape.getD 3 0

def numRois : Nat := p.roisShape.getD 2 0

/-- The `n`-th region of a batch; `batch_rois` advances by 5. -/
def roi (rois : Nat → ℚ) (b n : Nat) : Roi :=
  roiAt rois p.spatialScale (neuronOffset p.roisShape b + n * 5)

/-- The loops (`roi_pooling.cpp:48-108`): for each place of the output its bin. The output advances
    by a plane with each channel of each region. -/
def moves (rois : Nat → ℚ) : List (Nat × RoiBin) :=
  (List.range p.batch).flatMap fun b =>
    let batchTopData := neuronOffset p.topShape (b * p.numRois)
    let planes := (List.range p.numRois).flatMap fun n =>
      let roi := p.roi rois b n
      let batchData := roi.batchInd * p.channel * p.height * p.width
      (List.range p.channel).map fun (c : Nat) => (roi, batchData + c * (p.height * p.width))
    planes.zipIdx.flatMap fun ((roi, batchData), plane) =>
      (List.range p.pooledH).flatMap fun ph =>
        (List.range p.pooledW).map fun pw =>
          let poolIndex := ph * p.pooledW + pw
          (batchTopData + plane * (p.pooledH * p.pooledW) + poolIndex, ⟨roi, batchData, ph, pw⟩)

def hstart (bin : RoiBin) : Int :=
  clipEdge (binEdge bin.roi.height p.pooledH bin.ph + bin.roi.startH) p.height

def hend (bin : RoiBin) : Int :=
  clipEdge (binEnd bin.roi.height p.pooledH bin.ph + bin.roi.startH) p.height

def wstart (bin : RoiBin) : Int :=
  clipEdge (binEdge bin.roi.width p.pooledW bin.pw + bin.roi.startW) p.width

def wend (bin : RoiBin) : Int :=
  clipEdge (binEnd bin.roi.width p.pooledW bin.pw + bin.roi.startW) p.width

/-- The sums of the bin are in the range of an `int`. -/
def EdgesInRange (bin : RoiBin) : Prop :=
  EdgesFit bin.roi.startH bin.roi.height p.pooledH bin.ph ∧
    EdgesFit bin.roi.startW bin.roi.width p.pooledW bin.pw

instance (bin : RoiBin) : Decidable (p.EdgesInRange bin) := inferInstanceAs (Decidable (_ ∧ _))

/-- The loops over a bin (`roi_pooling.cpp:96-104`): the places of `data` that are read. -/
def binReads (bin : RoiBin) : List Int :=
  (List.range (p.hend bin - p.hstart bin).toNat).flatMap fun (i : Nat) =>
    let h := p.hstart bin + i
    (List.range (p.wend bin - p.wstart bin).toNat).map fun (j : Nat) =>
      let w := p.wstart bin + j
      bin.batchData + (h * p.width + w)

section

variable {α : Type*} [LinearOrder α] [Zero α] (data : Int → α)

/-- What a bin makes of its place in the output (`roi_pooling.cpp:88-104`). -/
def poolBin (bin : RoiBin) (top : α) : α :=
  let isEmpty := p.hend bin ≤ p.hstart bin ∨ p.wend bin ≤ p.wstart bin
  let top := if isEmpty then 0 else top
  (p.binReads bin).foldl (fun top index => if top < data index then data index else top) top

/-- `ROIPoolingFunc::run` (`roi_pooling.cpp:32-111`): the places of `data` that are read, and the
    output; `none` where the assertion on a batch index fails, or an `int` is out of range. -/
def run (rois : Nat → ℚ) : Option (List Int × (Nat → α)) :=
  if (∀ b < p.batch, ∀ n < p.numRois,
      (p.roi rois b n).InRange ∧ (p.roi rois b n).batchInd < p.batch) ∧
      ∀ move ∈ p.moves rois, p.EdgesInRange move.2 then
    some ((p.moves rois).flatMap fun move => p.binReads move.2,
      accumulate (p.poolBin data) (p.moves rois) fun _ => 0)
  else none

end

/-! ## The maximum of a bin -/

section

variable {p} {α : Type*} [LinearOrder α]

/-- The running maximum is at least its start and every value, and one of them. -/
theorem foldl_running_max (data : Int → α) (reads : List Int) (top : α) :
    let kept := reads.foldl (fun top index => if top < data index then data index else top) top
    top ≤ kept ∧ (∀ index ∈ reads, data index ≤ kept) ∧
      (kept = top ∨ ∃ index ∈ reads, kept = data index) := by
  induction reads generalizing top with
  | nil => exact ⟨le_refl top, fun _ member => absurd member List.not_mem_nil, .inl rfl⟩
  | cons index reads ih =>
    obtain ⟨above, all, one⟩ := ih (if top < data index then data index else top)
    have start : top ≤ (if top < data index then data index else top) ∧
        data index ≤ (if top < data index then data index else top) := by
      split
      · next less => exact ⟨le_of_lt less, le_refl _⟩
      · next more => exact ⟨le_refl _, not_lt.mp more⟩
    refine ⟨start.1.trans above, ?_, ?_⟩
    · intro i member
      cases List.mem_cons.mp member with
      | inl same => exact same ▸ start.2.trans above
      | inr later => exact all i later
    · rw [List.foldl_cons]
      cases one with
      | inl same =>
        rw [same]
        split
        · exact .inr ⟨index, List.mem_cons_self, rfl⟩
        · exact .inl rfl
      | inr found =>
        obtain ⟨i, member, value⟩ := found
        exact .inr ⟨i, List.mem_cons_of_mem _ member, value⟩

end

/-! ## The cells of a bin -/

/-- A cell of the feature map between the edges of a bin. -/
def InBin (bin : RoiBin) (h w : Nat) : Prop :=
  (h < p.height ∧ binEdge bin.roi.height p.pooledH bin.ph + bin.roi.startH ≤ h ∧
      h < binEnd bin.roi.height p.pooledH bin.ph + bin.roi.startH) ∧
    (w < p.width ∧ binEdge bin.roi.width p.pooledW bin.pw + bin.roi.startW ≤ w ∧
      w < binEnd bin.roi.width p.pooledW bin.pw + bin.roi.startW)

variable {p}

/-- Clipping both edges leaves the cells of the map between them. -/
theorem clipEdge_between {low high x : Int} {size : Nat} :
    clipEdge low size ≤ x ∧ x < clipEdge high size ↔
      ∃ n : Nat, x = n ∧ n < size ∧ low ≤ n ∧ (n : Int) < high := by
  unfold clipEdge
  constructor
  · intro between
    exact ⟨x.toNat, by omega, by omega, by omega, by omega⟩
  · rintro ⟨n, rfl, inside, above, below⟩
    omega

theorem mem_int_range {low high x : Int} :
    (∃ i : Nat, i ∈ List.range (high - low).toNat ∧ low + (i : Int) = x) ↔ low ≤ x ∧ x < high := by
  constructor
  · rintro ⟨i, member, rfl⟩
    have less := List.mem_range.mp member
    omega
  · intro between
    exact ⟨(x - low).toNat, List.mem_range.mpr (by omega), by omega⟩

/-- The places that are read are those of the cells. -/
theorem mem_binReads {bin : RoiBin} {index : Int} :
    index ∈ p.binReads bin ↔
      ∃ h w, p.InBin bin h w ∧ index = bin.batchData + (h * p.width + w) := by
  unfold binReads
  constructor
  · intro member
    obtain ⟨i, inRows, member⟩ := List.mem_flatMap.mp member
    obtain ⟨j, inRow, rfl⟩ := List.mem_map.mp member
    have row := mem_int_range.mp ⟨i, inRows, rfl⟩
    have column := mem_int_range.mp ⟨j, inRow, rfl⟩
    obtain ⟨h, isRow, inside⟩ := clipEdge_between.mp row
    obtain ⟨w, isColumn, inside'⟩ := clipEdge_between.mp column
    refine ⟨h, w, ⟨inside, inside'⟩, ?_⟩
    rw [isRow, isColumn]
  · rintro ⟨h, w, ⟨inside, inside'⟩, rfl⟩
    obtain ⟨i, inRows, isRow⟩ := mem_int_range.mpr (clipEdge_between.mpr ⟨h, rfl, inside⟩)
    obtain ⟨j, inRow, isColumn⟩ := mem_int_range.mpr (clipEdge_between.mpr ⟨w, rfl, inside'⟩)
    refine List.mem_flatMap.mpr ⟨i, inRows, List.mem_map.mpr ⟨j, inRow, ?_⟩⟩
    change bin.batchData + ((p.hstart bin + i) * p.width + (p.wstart bin + j)) = _
    rw [← isRow, ← isColumn]
    rfl

/-! ## The edges in the range of an int -/

section

variable {start size : Int} {pooled q : Nat}

/-- The edges lie between the start and the end of the region. -/
theorem binEdge_bounds (positive : 0 < size) (inside : q < pooled) :
    0 ≤ binEdge size pooled q ∧ binEdge size pooled q ≤ size ∧ 0 ≤ binEnd size pooled q ∧
      binEnd size pooled q ≤ size := by
  have sizePos : (0 : ℚ) < size := by exact_mod_cast positive
  have pooledPos : (0 : ℚ) < pooled := by exact_mod_cast Nat.zero_lt_of_lt inside
  have next : (q : ℚ) + 1 ≤ pooled := by exact_mod_cast inside
  have step : (0 : ℚ) < size / pooled := div_pos sizePos pooledPos
  have whole : (pooled : ℚ) * (size / pooled) = size := by field_simp
  have last : ((q : ℚ) + 1) * (size / pooled) ≤ size := by
    calc ((q : ℚ) + 1) * (size / pooled) ≤ pooled * (size / pooled) := by gcongr
      _ = size := whole
  refine ⟨Int.floor_nonneg.mpr (by positivity), ?_, Int.ceil_nonneg (by positivity),
    Int.ceil_le.mpr last⟩
  have below : (binEdge size pooled q : ℚ) ≤ size := by
    calc (binEdge size pooled q : ℚ) ≤ q * (size / pooled) := Int.floor_le _
      _ ≤ (q + 1) * (size / pooled) := by gcongr; linarith
      _ ≤ size := last
  exact_mod_cast below

theorem edgesFit_of_ends (startFits : Fits start) (endFits : Fits (start + size))
    (positive : 0 < size) (inside : q < pooled) : EdgesFit start size pooled q := by
  obtain ⟨edgeLow, edgeHigh, endLow, endHigh⟩ := binEdge_bounds positive inside
  obtain ⟨low, -⟩ := startFits
  obtain ⟨-, high⟩ := endFits
  exact ⟨⟨by omega, by omega⟩, by omega, by omega⟩

/-- The last bin ends where the region does. -/
theorem ends_of_edgesFit (pooledPos : 0 < pooled)
    (edges : EdgesFit start size pooled (pooled - 1)) : Fits (start + size) := by
  have last : binEnd size pooled (pooled - 1) = size := by
    have isLast : (((pooled - 1 : Nat) : ℚ) + 1) = pooled := by
      exact_mod_cast Nat.sub_add_cancel pooledPos
    have whole : (pooled : ℚ) * (size / pooled) = size := by field_simp
    rw [binEnd, isLast, whole, Int.ceil_intCast]
  have fits := edges.2
  rwa [last, Int.add_comm] at fits

end

/-! ## The places of the output -/

/-- The shapes of the tensors: a list of regions for each batch, and a pooled map for each channel
    of each region. -/
structure Fits (p : RoiPooling) : Prop where
  data : p.dataShape = [p.batch, p.channel, p.height, p.width]
  rois : p.roisShape = [p.batch, 1, p.numRois, 5]
  top : p.topShape = [p.batch * p.numRois, p.channel, p.pooledH, p.pooledW]
  pooledHPos : 0 < p.pooledH
  pooledWPos : 0 < p.pooledW

/-- The bin of the `k`-th region of all. -/
def binAt (p : RoiPooling) (rois : Nat → ℚ) (k c ph pw : Nat) : RoiBin :=
  let roi := roiAt rois p.spatialScale (5 * k)
  ⟨roi, roi.batchInd * p.channel * p.height * p.width + c * (p.height * p.width), ph, pw⟩

section

variable {rois : Nat → ℚ} {b n c ph pw : Nat}

theorem roi_eq (fits : p.Fits) :
    p.roi rois b n = roiAt rois p.spatialScale (5 * (b * p.numRois + n)) := by
  have place : neuronOffset p.roisShape b + n * 5 = 5 * (b * p.numRois + n) := by
    rw [neuronOffset, fits.rois]
    simp only [List.getD_cons_succ, List.getD_cons_zero]
    ring
  rw [roi, place]

theorem moves_eq (fits : p.Fits) (rois : Nat → ℚ) :
    p.moves rois =
      (indices [p.batch, p.numRois, p.channel, p.pooledH, p.pooledW]).map fun index =>
        (flat [p.batch, p.numRois, p.channel, p.pooledH, p.pooledW] index,
          p.binAt rois (index.getD 0 0 * p.numRois + index.getD 1 0) (index.getD 2 0)
            (index.getD 3 0) (index.getD 4 0)) := by
  -- the counter of the planes is the position of region and channel
  have planes : ∀ b, ((List.range p.numRois).flatMap fun n =>
      (List.range p.channel).map fun (c : Nat) =>
        (p.roi rois b n, (p.roi rois b n).batchInd * p.channel * p.height * p.width +
          c * (p.height * p.width))) =
      (indices [p.numRois, p.channel]).map fun index =>
        (p.roi rois b (index.getD 0 0),
          (p.roi rois b (index.getD 0 0)).batchInd * p.channel * p.height * p.width +
            (index.getD 1 0 : Nat) * (p.height * p.width)) := by
    intro b
    simp [flatMap_singleton_range]
  have plane : ∀ b, neuronOffset p.topShape (b * p.numRois) =
      b * (p.numRois * (p.channel * (p.pooledH * p.pooledW))) := by
    intro b
    rw [neuronOffset, fits.top]
    simp only [List.getD_cons_succ, List.getD_cons_zero]
    ring
  unfold moves
  simp only [planes, zipIdx_map_indices, plane]
  simp [List.flatMap_assoc, List.flatMap_map, flatMap_singleton_range, flat, binAt, roi_eq fits,
    Nat.add_mul, Nat.mul_assoc, Nat.add_assoc]

theorem moves_writes (fits : p.Fits) (rois : Nat → ℚ) :
    (p.moves rois).map Prod.fst = List.range p.topShape.prod := by
  have size : p.topShape.prod =
      [p.batch, p.numRois, p.channel, p.pooledH, p.pooledW].prod := by
    rw [fits.top]
    simp [Nat.mul_assoc]
  rw [moves_eq fits, List.map_map, size, ← map_flat_indices]
  rfl

theorem mem_moves (rois : Nat → ℚ) (fits : p.Fits) (hb : b < p.batch) (hn : n < p.numRois)
    (hc : c < p.channel) (hph : ph < p.pooledH) (hpw : pw < p.pooledW) :
    (flat p.topShape [b * p.numRois + n, c, ph, pw], p.binAt rois (b * p.numRois + n) c ph pw) ∈
      p.moves rois := by
  have inside : Inside [p.batch, p.numRois, p.channel, p.pooledH, p.pooledW] [b, n, c, ph, pw] := by
    simp only [inside_cons, inside_nil]
    exact ⟨hb, hn, hc, hph, hpw, trivial⟩
  rw [moves_eq fits]
  refine List.mem_map.mpr ⟨_, mem_indices.mpr inside, Prod.ext ?_ rfl⟩
  rw [fits.top]
  simp [flat, Nat.add_mul, Nat.mul_assoc, Nat.add_assoc]

/-- Every move is that of a bin of the list of regions. -/
theorem exists_of_mem_moves (fits : p.Fits) {move : Nat × RoiBin} (member : move ∈ p.moves rois) :
    ∃ k < p.batch * p.numRois, ∃ c < p.channel, ∃ ph < p.pooledH, ∃ pw < p.pooledW,
      move.2 = p.binAt rois k c ph pw := by
  rw [moves_eq fits] at member
  obtain ⟨index, inLoops, rfl⟩ := List.mem_map.mp member
  have inside := mem_indices.mp inLoops
  refine ⟨_, place_lt (inside.2 0 (by simp)) (inside.2 1 (by simp)), _,
    inside.2 2 (by simp), _, inside.2 3 (by simp), _, inside.2 4 (by simp), rfl⟩

end

/-! ## Where the maximum is right -/

section

variable {α : Type*} [LinearOrder α] [Zero α]

/-- A feature of the map that a region is about. -/
def feature (p : RoiPooling) (data : Int → α) (roi : Roi) (c h w : Nat) : α :=
  data (flat p.dataShape [roi.batchInd.toNat, c, h, w])

/-- The maximum of the features in a bin, or 0 when there are none. -/
def IsBinMax (p : RoiPooling) (data : Int → α) (bin : RoiBin) (c : Nat) (x : α) : Prop :=
  (∃ h w, p.InBin bin h w ∧ x = p.feature data bin.roi c h w ∧
      ∀ h' w', p.InBin bin h' w' → p.feature data bin.roi c h' w' ≤ x) ∨
    ((∀ h w, ¬p.InBin bin h w) ∧ x = 0)

/-- What the kernel should do: read inside the feature maps, and write the maximum of each bin. -/
def PoolsMax (p : RoiPooling) (rois : Nat → ℚ) (data : Int → α) : Prop :=
  ∃ reads top, p.run data rois = some (reads, top) ∧
    (∀ r ∈ reads, 0 ≤ r ∧ r < p.dataShape.prod) ∧
    ∀ k < p.batch * p.numRois, ∀ c < p.channel, ∀ ph < p.pooledH, ∀ pw < p.pooledW,
      p.IsBinMax data (p.binAt rois k c ph pw) c (top (flat p.topShape [k, c, ph, pw]))

/-- Every region names a feature map. -/
def ValidBatches (p : RoiPooling) (rois : Nat → ℚ) : Prop :=
  ∀ k < p.batch * p.numRois, 0 ≤ (roiAt rois p.spatialScale (5 * k)).batchInd ∧
    (roiAt rois p.spatialScale (5 * k)).batchInd < p.batch

variable {rois : Nat → ℚ} {data : Int → α} {k c ph pw : Nat}

/-- The place in `data` of a cell. -/
theorem cell_place (fits : p.Fits) (valid : p.ValidBatches rois) (hk : k < p.batch * p.numRois)
    {h w : Nat} :
    (p.binAt rois k c ph pw).batchData + ((h : Int) * p.width + w) =
      (flat p.dataShape
        [(roiAt rois p.spatialScale (5 * k)).batchInd.toNat, c, h, w] : Nat) := by
  have natural := Int.toNat_of_nonneg (valid k hk).1
  rw [fits.data]
  simp only [binAt, flat, List.prod_cons, List.prod_nil]
  push_cast
  rw [natural]
  ring

theorem cell_inside (fits : p.Fits) (valid : p.ValidBatches rois) (hk : k < p.batch * p.numRois)
    (hc : c < p.channel) {h w : Nat} (inBin : p.InBin (p.binAt rois k c ph pw) h w) :
    flat p.dataShape [(roiAt rois p.spatialScale (5 * k)).batchInd.toNat, c, h, w] <
      p.dataShape.prod := by
  have batchLess : (roiAt rois p.spatialScale (5 * k)).batchInd.toNat < p.batch := by
    have := valid k hk
    omega
  rw [fits.data]
  apply flat_lt
  exact inside_quadruple.mpr ⟨batchLess, hc, inBin.1.1, inBin.2.1⟩

/-- All reads lie inside the feature maps. -/
theorem reads_inside (fits : p.Fits) (valid : p.ValidBatches rois) :
    ∀ r ∈ (p.moves rois).flatMap fun move => p.binReads move.2,
      0 ≤ r ∧ r < p.dataShape.prod := by
  intro r member
  obtain ⟨move, inMoves, member⟩ := List.mem_flatMap.mp member
  obtain ⟨k, hk, c, hc, ph, _, pw, _, bin⟩ := exists_of_mem_moves fits inMoves
  rw [bin] at member
  obtain ⟨h, w, inBin, rfl⟩ := mem_binReads.mp member
  rw [cell_place fits valid hk]
  exact ⟨Int.natCast_nonneg _, Int.ofNat_lt.mpr (cell_inside fits valid hk hc inBin)⟩

/-- The bins are empty when the loops say so. -/
theorem poolBin_eq (bin : RoiBin) :
    p.poolBin data bin 0 =
      (p.binReads bin).foldl (fun top index => if top < data index then data index else top)
        0 := by
  simp [poolBin]

/-- A bin is right when it has no cells, or one whose feature is not negative. -/
theorem isBinMax_poolBin_iff (fits : p.Fits) (valid : p.ValidBatches rois)
    (hk : k < p.batch * p.numRois) :
    p.IsBinMax data (p.binAt rois k c ph pw) c (p.poolBin data (p.binAt rois k c ph pw) 0) ↔
      ((∃ h w, p.InBin (p.binAt rois k c ph pw) h w) →
        ∃ h w, p.InBin (p.binAt rois k c ph pw) h w ∧
          0 ≤ p.feature data (p.binAt rois k c ph pw).roi c h w) := by
  have features : ∀ h w : Nat,
      data ((p.binAt rois k c ph pw).batchData + ((h : Int) * p.width + w)) =
        p.feature data (p.binAt rois k c ph pw).roi c h w := by
    intro h w
    rw [cell_place fits valid hk]
    rfl
  obtain ⟨start, all, one⟩ := foldl_running_max data
    (p.binReads (p.binAt rois k c ph pw)) 0
  rw [← poolBin_eq] at start all one
  have above : ∀ h w, p.InBin (p.binAt rois k c ph pw) h w →
      p.feature data (p.binAt rois k c ph pw).roi c h w ≤
        p.poolBin data (p.binAt rois k c ph pw) 0 := fun h w inBin => by
    rw [← features]
    exact all _ (mem_binReads.mpr ⟨h, w, inBin, rfl⟩)
  constructor
  · intro right occupied
    cases right with
    | inl maximum =>
      obtain ⟨h, w, inBin, value, -⟩ := maximum
      exact ⟨h, w, inBin, value ▸ start⟩
    | inr empty =>
      obtain ⟨h, w, inBin⟩ := occupied
      exact absurd inBin (empty.1 h w)
  · intro enough
    cases one with
    | inr found =>
      obtain ⟨index, member, value⟩ := found
      obtain ⟨h, w, inBin, rfl⟩ := mem_binReads.mp member
      exact .inl ⟨h, w, inBin, value.trans (features h w), above⟩
    | inl zero =>
      by_cases occupied : ∃ h w, p.InBin (p.binAt rois k c ph pw) h w
      · obtain ⟨h, w, inBin, natural⟩ := enough occupied
        -- the feature is not negative, and no larger than what is kept
        refine .inl ⟨h, w, inBin, le_antisymm ?_ (above h w inBin), above⟩
        rw [zero]
        exact natural
      · refine .inr ⟨fun h w inBin => occupied ⟨h, w, inBin⟩, zero⟩

/-- The numbers of the regions and of their bins are in the range of an `int`. -/
structure InRange (p : RoiPooling) (rois : Nat → ℚ) : Prop where
  regions : ∀ k < p.batch * p.numRois, (roiAt rois p.spatialScale (5 * k)).InRange
  ends : ∀ k < p.batch * p.numRois, 0 < p.channel →
    (roiAt rois p.spatialScale (5 * k)).EndsInRange

theorem edgesInRange_of_mem (fits : p.Fits) (inRange : p.InRange rois) {move : Nat × RoiBin}
    (member : move ∈ p.moves rois) : p.EdgesInRange move.2 := by
  obtain ⟨k, hk, c, hc, ph, hph, pw, hpw, bin⟩ := exists_of_mem_moves fits member
  obtain ⟨-, startW, startH, -⟩ := inRange.regions k hk
  obtain ⟨endH, endW⟩ := inRange.ends k hk (Nat.zero_lt_of_lt hc)
  rw [bin]
  exact ⟨edgesFit_of_ends startH endH (lt_max_of_lt_right Int.one_pos) hph,
    edgesFit_of_ends startW endW (lt_max_of_lt_right Int.one_pos) hpw⟩

/-- With valid batch indices no assertion fails, and no `int` is out of range. -/
theorem run_eq (fits : p.Fits) (valid : p.ValidBatches rois) (inRange : p.InRange rois) :
    p.run data rois = some ((p.moves rois).flatMap fun move => p.binReads move.2,
      accumulate (p.poolBin data) (p.moves rois) fun _ => 0) := by
  apply if_pos
  refine ⟨fun b hb n hn => ?_, fun move member => edgesInRange_of_mem fits inRange member⟩
  rw [roi_eq fits]
  exact ⟨inRange.regions _ (place_lt hb hn), (valid _ (place_lt hb hn)).2⟩

/-- The number of a region is that of its batch and its place there. -/
theorem region_lt {k : Nat} (hk : k < p.batch * p.numRois) :
    k / p.numRois < p.batch ∧ k % p.numRois < p.numRois := by
  have roisPos : 0 < p.numRois := Nat.pos_of_ne_zero fun zero => by
    rw [zero, Nat.mul_zero] at hk
    exact Nat.not_lt_zero k hk
  exact ⟨Nat.div_lt_of_lt_mul (Nat.mul_comm p.batch p.numRois ▸ hk), Nat.mod_lt k roisPos⟩

theorem mem_moves_region (rois : Nat → ℚ) (fits : p.Fits) (hk : k < p.batch * p.numRois)
    (hc : c < p.channel) (hph : ph < p.pooledH) (hpw : pw < p.pooledW) :
    (flat p.topShape [k, c, ph, pw], p.binAt rois k c ph pw) ∈ p.moves rois := by
  obtain ⟨hb, hn⟩ := region_lt hk
  have member := mem_moves rois fits hb hn hc hph hpw
  rwa [Nat.div_add_mod'] at member

/-- Whatever a run comes to, its numbers were in range: the last bin of a region ends with it. -/
theorem inRange_of_run (fits : p.Fits) {result : List Int × (Nat → α)}
    (ran : p.run data rois = some result) : p.InRange rois := by
  have checked : (∀ b < p.batch, ∀ n < p.numRois,
      (p.roi rois b n).InRange ∧ (p.roi rois b n).batchInd < p.batch) ∧
      ∀ move ∈ p.moves rois, p.EdgesInRange move.2 := by
    by_contra failed
    rw [run, if_neg failed] at ran
    exact absurd ran (by simp)
  obtain ⟨regions, bins⟩ := checked
  refine ⟨fun k hk => ?_, fun k hk channels => ?_⟩
  · obtain ⟨hb, hn⟩ := region_lt hk
    have here := (regions _ hb _ hn).1
    rwa [roi_eq fits, Nat.div_add_mod'] at here
  · obtain ⟨edgesH, edgesW⟩ := bins _ (mem_moves_region rois fits hk channels
      (Nat.sub_one_lt_of_lt fits.pooledHPos) (Nat.sub_one_lt_of_lt fits.pooledWPos))
    exact ⟨ends_of_edgesFit fits.pooledHPos edgesH, ends_of_edgesFit fits.pooledWPos edgesW⟩

/-- Each place of the output is that of one bin. -/
theorem pooled_value (fits : p.Fits) (hk : k < p.batch * p.numRois) (hc : c < p.channel)
    (hph : ph < p.pooledH) (hpw : pw < p.pooledW) :
    accumulate (p.poolBin data) (p.moves rois) (fun _ => 0) (flat p.topShape [k, c, ph, pw]) =
      p.poolBin data (p.binAt rois k c ph pw) 0 := by
  have member := mem_moves_region rois fits hk hc hph hpw
  refine accumulate_of_mem ?_ member
  rw [moves_writes fits]
  exact List.nodup_range

end

end RoiPooling

open RoiPooling

/-- The pooling is right exactly when the regions are in the range of an `int`, and every bin with
    cells has one whose feature is not negative; the reads always lie inside the feature maps. -/
theorem roiPooling_max_iff {α : Type*} [LinearOrder α] [Zero α] (p : RoiPooling)
    (rois : Nat → ℚ) (data : Int → α) (fits : p.Fits) (valid : p.ValidBatches rois) :
    p.PoolsMax rois data ↔
    p.InRange rois ∧ ∀ k < p.batch * p.numRois, ∀ c < p.channel, ∀ ph < p.pooledH, ∀ pw < p.pooledW,
      (∃ h w, p.InBin (p.binAt rois k c ph pw) h w) →
        ∃ h w, p.InBin (p.binAt rois k c ph pw) h w ∧
          0 ≤ p.feature data (p.binAt rois k c ph pw).roi c h w := by
  constructor
  · rintro ⟨reads, top, ran, -, right⟩
    have inRange := inRange_of_run fits ran
    refine ⟨inRange, fun k hk c hc ph hph pw hpw => ?_⟩
    rw [run_eq fits valid inRange] at ran
    obtain ⟨-, rfl⟩ := Prod.mk.inj (Option.some.inj ran)
    have here := right k hk c hc ph hph pw hpw
    rw [pooled_value fits hk hc hph hpw] at here
    exact (isBinMax_poolBin_iff fits valid hk).mp here
  · rintro ⟨inRange, enough⟩
    refine ⟨_, _, run_eq fits valid inRange, reads_inside fits valid, ?_⟩
    intro k hk c hc ph hph pw hpw
    rw [pooled_value fits hk hc hph hpw]
    exact (isBinMax_poolBin_iff fits valid hk).mpr (enough k hk c hc ph hph pw hpw)

/-- A map of one cell, and one region that is this cell. -/
def oneCell : RoiPooling where
  pooledH := 1
  pooledW := 1
  spatialScale := 1
  dataShape := [1, 1, 1, 1]
  roisShape := [1, 1, 1, 5]
  topShape := [1, 1, 1, 1]

theorem fits_oneCell : oneCell.Fits := ⟨rfl, rfl, rfl, by decide, by decide⟩

theorem roiAt_zero (k : Nat) : roiAt (fun _ => 0) 1 k = ⟨0, 0, 0, 0, 0⟩ := by
  simp [roiAt, toInt, stdRound]
  norm_num

theorem valid_oneCell : oneCell.ValidBatches fun _ => 0 := by
  intro k _
  change 0 ≤ (roiAt (fun _ => 0) 1 (5 * k)).batchInd ∧ (roiAt (fun _ => 0) 1 (5 * k)).batchInd < 1
  rw [roiAt_zero]
  exact ⟨le_refl 0, Int.one_pos⟩

theorem inBin_oneCell : oneCell.InBin (oneCell.binAt (fun _ => 0) 0 0 0 0) 0 0 := by
  simp [InBin, binAt, oneCell, roiAt_zero, RoiPooling.height, RoiPooling.width, Roi.height,
    Roi.width, binEdge, binEnd]

theorem inRange_oneCell : oneCell.InRange fun _ => 0 := by
  refine ⟨fun k _ => ?_, fun k _ _ => ?_⟩
  · change (roiAt (fun _ => 0) 1 (5 * k)).InRange
    rw [roiAt_zero]
    decide
  · change (roiAt (fun _ => 0) 1 (5 * k)).EndsInRange
    rw [roiAt_zero]
    exact ⟨by decide, by decide⟩

theorem roiPooling_max_iff_oneCell :
    oneCell.PoolsMax (fun _ => 0) (fun _ => (3 : Int)) ↔
    oneCell.InRange (fun _ => 0) ∧ ∀ k < oneCell.batch * oneCell.numRois, ∀ c < oneCell.channel,
      ∀ ph < oneCell.pooledH, ∀ pw < oneCell.pooledW,
      (∃ h w, oneCell.InBin (oneCell.binAt (fun _ => 0) k c ph pw) h w) →
        ∃ h w, oneCell.InBin (oneCell.binAt (fun _ => 0) k c ph pw) h w ∧
          0 ≤ oneCell.feature (fun _ => (3 : Int)) (oneCell.binAt (fun _ => 0) k c ph pw).roi
            c h w :=
  roiPooling_max_iff oneCell (fun _ => 0) (fun _ => 3) fits_oneCell valid_oneCell

/-- A region from -2000000000 to 2000000000 in both directions. -/
def wideRegion : Nat → ℚ
  | 1 | 2 => -2000000000
  | 3 | 4 => 2000000000
  | _ => 0

/-- A map of one negative cell is pooled to 0; the extents of a wide region are out of range. -/
theorem roiPooling_negative :
    ¬oneCell.PoolsMax (fun _ => 0) (fun _ => (-1 : Int)) ∧
      ¬oneCell.PoolsMax wideRegion (fun _ => (3 : Int)) := by
  constructor
  · rintro ⟨reads, top, ran, -, right⟩
    rw [run_eq fits_oneCell valid_oneCell inRange_oneCell] at ran
    obtain ⟨-, rfl⟩ := Prod.mk.inj (Option.some.inj ran)
    have here := right 0 (by decide) 0 (by decide) 0 (by decide) 0 (by decide)
    rw [pooled_value fits_oneCell (by decide) (by decide) (by decide) (by decide),
      isBinMax_poolBin_iff fits_oneCell valid_oneCell (by decide)] at here
    obtain ⟨h, w, -, natural⟩ := here ⟨0, 0, inBin_oneCell⟩
    exact absurd (show (0 : Int) ≤ -1 from natural) (by decide)
  · rintro ⟨reads, top, ran, -⟩
    have region := (inRange_of_run fits_oneCell ran).regions 0 (by decide)
    exact absurd region (by decide +kernel)

end CviRuntime.CpuFunction
