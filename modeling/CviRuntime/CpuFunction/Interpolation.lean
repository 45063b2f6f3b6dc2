import CviRuntime.Lib.Sampling
import CviRuntime.Lib.Scatter

/-!
# Interpolation (`src/common/cpu_function/interpolation.cpp`)

Every mode writes the pixels of each plane as samples of a row and of a column of the input; the
modes differ in the two neighbours they take on an axis and in their weights. Coordinates and
weights are rational numbers here, and a kernel is the list of the places it writes, each with the
terms of the sum.
-/

namespace CviRuntime.CpuFunction

open CviRuntime.RowMajor CviRuntime.Sampling CviRuntime.Scatter

/-! ## Half pixels -/

/-- `coordinate_transform` (`interpolation.cpp:11-20`). -/
def coordinateTransform (xResized xScale lengthResized : ℚ) (pytorch : Bool) : ℚ :=
  if pytorch then
    if 1 < lengthResized then (xResized + 1 / 2) / xScale - 1 / 2 else 0
  else (xResized + 1 / 2) / xScale - 1 / 2

/-- `in_y`, and `in_x` (`interpolation.cpp:34-39`, `:55-60`). What the first assignment puts there
    is not used. -/
def inCoordinate (inputLength : Nat) (scale : ℚ) (outputLength : Int) (pytorch : Bool) (y : Nat) :
    ℚ :=
  let inY :=
    if scale = 1 then (y : ℚ) else coordinateTransform y scale outputLength pytorch
  max 0 (min inY ((inputLength : ℚ) - 1))

/-- `in_y1`, `in_y2`, `dy1` and `dy2`, and the same for `x`. -/
structure Neighbours where
  first : Int
  second : Int
  d1 : ℚ
  d2 : ℚ

/-- The neighbours of a coordinate (`interpolation.cpp:41-49`, `:62-71`). -/
def neighbours (inputLength : Nat) (inY : ℚ) : Neighbours :=
  let inY1 := min (toInt inY) ((inputLength : Int) - 1)
  let inY2 := min (inY1 + 1) ((inputLength : Int) - 1)
  if inY1 = inY2 then ⟨inY1, inY2, 1 / 2, 1 / 2⟩ else ⟨inY1, inY2, |inY - inY1|, |inY - inY2|⟩

/-- `upsampleBilinear` (`interpolation.cpp:22-85`). The loops over `n` and `c` only move `Xdata` and
    `Ydata` on by a plane. -/
def upsampleBilinear (planes inputHeight inputWidth : Nat) (heightScale widthScale : ℚ)
    (pytorch : Bool) : List (Int × List (Int × ℚ)) :=
  let outputWidth := toInt (inputWidth * widthScale)
  let outputHeight := toInt (inputHeight * heightScale)
  (List.range planes).flatMap fun (plane : Nat) =>
    let xdata : Int := plane * (inputHeight * inputWidth)
    let ydata : Int := plane * (outputWidth * outputHeight)
    (List.range outputHeight.toNat).flatMap fun (y : Nat) =>
      let ys := neighbours inputHeight
        (inCoordinate inputHeight heightScale outputHeight pytorch y)
      (List.range outputWidth.toNat).map fun (x : Nat) =>
        let xs := neighbours inputWidth
          (inCoordinate inputWidth widthScale outputWidth pytorch x)
        (ydata + (outputWidth * y + x),
          [(xdata + (inputWidth * ys.first + xs.first), xs.d2 * ys.d2),
            (xdata + (inputWidth * ys.first + xs.second), xs.d1 * ys.d2),
            (xdata + (inputWidth * ys.second + xs.first), xs.d2 * ys.d1),
            (xdata + (inputWidth * ys.second + xs.second), xs.d1 * ys.d1)])

/-! ## Nearest -/

/-- `h_resized`, and `w_resized` (`interpolation.cpp:100-101`, `:113-114`). -/
def nearestResized (halfPixel : Bool) (scale : ℚ) (h : Nat) : Int :=
  if halfPixel then ⌈((h : ℚ) + 1 / 2) * scale - 1⌉ else toInt ((h : ℚ) * scale)

/-- `interp_nearest_inner` (`interpolation.cpp:87-121`), for any type of elements. -/
def interpNearestInner (planes ih iw oh ow : Nat) (halfPixel : Bool) :
    List (Int × List (Int × ℚ)) :=
  let scaleH : ℚ := ih / oh
  let scaleW : ℚ := iw / ow
  (List.range planes).flatMap fun (i : Nat) =>
    (List.range oh).flatMap fun (h : Nat) =>
      (List.range ow).map fun (w : Nat) =>
        let hResized := nearestResized halfPixel scaleH h
        let wResized := nearestResized halfPixel scaleW w
        ((i : Int) * oh * ow + h * ow + w, [((i : Int) * ih * iw + hResized * iw + wResized, 1)])

/-! ## Asymmetric -/

/-- The terms of `value` (`interpolation.cpp:148-173`), for the plane at `input`. -/
def valueTerms (input w : Int) (fh fw : ℚ) : List (Int × ℚ) :=
  let h0 := ⌊fh⌋
  let h1 := ⌈fh⌉
  let w0 := ⌊fw⌋
  let w1 := ⌈fw⌉
  let value (ih iw : Int) := input + (ih * w + iw)
  if h0 = fh ∧ w0 = fw then [(value h0 w0, 1)]
  else if h0 = fh then [(value h0 w0, w1 - fw), (value h0 w1, fw - w0)]
  else if w0 = fw then [(value h0 w0, h1 - fh), (value h1 w0, fh - h0)]
  else
    [(value h0 w0, (w1 - fw) * (h1 - fh)), (value h0 w1, (fw - w0) * (h1 - fh)),
      (value h1 w0, (w1 - fw) * (fh - h0)), (value h1 w1, (fw - w0) * (fh - h0))]

/-- `fh`, and `fw` (`interpolation.cpp:184-185`). -/
def asymmetricCoordinate (inputLength : Nat) (scale : ℚ) (h : Nat) : ℚ :=
  min ((h : ℚ) * scale) ((inputLength : ℚ) - 1)

/-- `interp_asymmetric` (`interpolation.cpp:175-191`). -/
def interpAsymmetric (planes ih iw oh ow : Nat) : List (Int × List (Int × ℚ)) :=
  let scaleH : ℚ := ih / oh
  let scaleW : ℚ := iw / ow
  (List.range planes).flatMap fun (i : Nat) =>
    (List.range oh).flatMap fun (h : Nat) =>
      (List.range ow).map fun (w : Nat) =>
        ((i : Int) * oh * ow + h * ow + w,
          valueTerms ((i : Int) * ih * iw) iw (asymmetricCoordinate ih scaleH h)
            (asymmetricCoordinate iw scaleW w))

/-! ## Aligned corners -/

/-- A part of a plane: its corner, its height and width, and those of the plane. -/
structure Region where
  x : Int
  y : Int
  height : Int
  width : Int
  fullHeight : Int
  fullWidth : Int

/-- What `my_interp` asserts of its two regions (`interpolation.cpp:199-200`). -/
def Region.Valid (r : Region) : Prop :=
  0 ≤ r.x ∧ 0 ≤ r.y ∧ 0 < r.height ∧ 0 < r.width ∧
    r.width + r.x ≤ r.fullWidth ∧ r.height + r.y ≤ r.fullHeight

instance (r : Region) : Decidable r.Valid := inferInstanceAs (Decidable (_ ∧ _))

/-- `h1`, `h1p`, `h1lambda` and `h0lambda`, and the same for `w` (`interpolation.cpp:230-242`). -/
structure AlignedStep where
  h1 : Int
  h1p : Int
  h1lambda : ℚ
  h0lambda : ℚ

def alignedStep (height1 height2 : Int) (h2 : Nat) : AlignedStep :=
  let rheight : ℚ := if 1 < height2 then ((height1 - 1 : Int) : ℚ) / (height2 - 1 : Int) else 0
  let h1r := rheight * h2
  let h1 := toInt h1r
  ⟨h1, if h1 < height1 - 1 then 1 else 0, h1r - h1, 1 - (h1r - h1)⟩

/-- `my_interp` (`interpolation.cpp:193-265`), where `packed` is false; `none` where the assertion
    fails. -/
def myInterp (channels : Nat) (r1 r2 : Region) : Option (List (Int × List (Int × ℚ))) :=
  if r1.Valid ∧ r2.Valid then
    some <| (List.range r2.height.toNat).flatMap fun (h2 : Nat) =>
      (List.range r2.width.toNat).flatMap fun (w2 : Nat) =>
        (List.range channels).map fun (c : Nat) =>
          let pos2 := (r2.y + h2) * r2.fullWidth + (r2.x + w2) + c * (r2.fullWidth * r2.fullHeight)
          if r1.height = r2.height ∧ r1.width = r2.width then
            let pos1 :=
              (r1.y + h2) * r1.fullWidth + (r1.x + w2) + c * (r1.fullWidth * r1.fullHeight)
            (pos2, [(pos1, 1)])
          else
            let h := alignedStep r1.height r2.height h2
            let w := alignedStep r1.width r2.width w2
            let pos1 :=
              (r1.y + h.h1) * r1.fullWidth + (r1.x + w.h1) + c * (r1.fullWidth * r1.fullHeight)
            (pos2,
              [(pos1, h.h0lambda * w.h0lambda), (pos1 + w.h1p, h.h0lambda * w.h1lambda),
                (pos1 + h.h1p * r1.fullWidth, h.h1lambda * w.h0lambda),
                (pos1 + (h.h1p * r1.fullWidth + w.h1p), h.h1lambda * w.h1lambda)])
  else none

/-! ## The function -/

/-- The parameters of the operation. -/
structure InterpolationParam where
  shrinkFactor : Int
  zoomFactor : Int
  padBeg : Int
  padEnd : Int
  height : Int
  width : Int
  coordinateTransformationMode : String

/-- `InterpolationFunc` after `setup`; the sizes of the crop are not set in all modes. -/
structure Interpolation where
  num : Nat
  channels : Nat
  heightIn : Nat
  widthIn : Nat
  padBeg : Int
  heightInEff : Option Int
  widthInEff : Option Int
  heightOut : Int
  widthOut : Int
  mode : String

/-- The size of the output for aligned corners (`interpolation.cpp:302-327`); `none` where an
    assertion fails. It stays -1 when there is nothing to take it from. -/
def InterpolationParam.outLength (p : InterpolationParam) (eff length : Int) : Option Int :=
  let shrunk := (eff - 1).tdiv p.shrinkFactor + 1
  if p.shrinkFactor ≠ 0 ∧ p.zoomFactor = 0 then
    if 1 ≤ p.shrinkFactor then some shrunk else none
  else if p.zoomFactor ≠ 0 ∧ p.shrinkFactor = 0 then
    if 1 ≤ p.zoomFactor then some (eff + (eff - 1) * (p.zoomFactor - 1)) else none
  else if p.height ≠ 0 ∧ p.width ≠ 0 then some length
  else if p.zoomFactor ≠ 0 ∧ p.shrinkFactor ≠ 0 then
    if 1 ≤ p.shrinkFactor ∧ 1 ≤ p.zoomFactor then
      some (shrunk + (shrunk - 1) * (p.zoomFactor - 1))
    else none
  else some (-1)

/-- `InterpolationFunc::setup` (`interpolation.cpp:268-329`). -/
def interpolationSetup (p : InterpolationParam) (bottomShape topShape : List Nat) :
    Option Interpolation :=
  let heightIn := bottomShape.getD 2 0
  let widthIn := bottomShape.getD 3 0
  if p.coordinateTransformationMode ≠ "align_corners" then
    let given := p.height ≠ 0 ∧ p.width ≠ 0
    some ⟨bottomShape.getD 0 0, bottomShape.getD 1 0, heightIn, widthIn, p.padBeg, none, none,
      if given then p.height else topShape.getD 2 0, if given then p.width else topShape.getD 3 0,
      p.coordinateTransformationMode⟩
  else
    let heightInEff := heightIn + p.padBeg + p.padEnd
    let widthInEff := widthIn + p.padBeg + p.padEnd
    (p.outLength heightInEff p.height).bind fun heightOut =>
      (p.outLength widthInEff p.width).map fun widthOut =>
        ⟨bottomShape.getD 0 0, bottomShape.getD 1 0, heightIn, widthIn, p.padBeg,
          some heightInEff, some widthInEff, heightOut, widthOut,
          p.coordinateTransformationMode⟩

/-- `InterpolationFunc::run` (`interpolation.cpp:331-352`); `none` where an assertion fails or a
    size is not set. -/
def Interpolation.run (d : Interpolation) : Option (List (Int × List (Int × ℚ))) :=
  let planes := d.num * d.channels
  let heightScale : ℚ := d.heightOut / d.heightIn
  let widthScale : ℚ := d.widthOut / d.widthIn
  if d.mode = "half_pixel" then
    some (upsampleBilinear planes d.heightIn d.widthIn heightScale widthScale false)
  else if d.mode = "pytorch_half_pixel" then
    some (upsampleBilinear planes d.heightIn d.widthIn heightScale widthScale true)
  else if "nearest".toList <+: d.mode.toList then
    some (interpNearestInner planes d.heightIn d.widthIn d.heightOut.toNat d.widthOut.toNat
      (d.mode = "nearest_half_pixel"))
  else if d.mode = "asymmetric" then
    some (interpAsymmetric planes d.heightIn d.widthIn d.heightOut.toNat d.widthOut.toNat)
  else
    d.heightInEff.bind fun heightInEff =>
      d.widthInEff.bind fun widthInEff =>
        myInterp planes
          ⟨-d.padBeg, -d.padBeg, heightInEff, widthInEff, d.heightIn, d.widthIn⟩
          ⟨0, 0, d.heightOut, d.widthOut, d.heightOut, d.widthOut⟩

/-! ## Kernels that sample rows and columns -/

/-- A pixel of a plane of the input. -/
def planePixel (ih iw i : Nat) (pixel : Int × Int) : Int :=
  (i : Int) * (ih * iw) + (pixel.1 * iw + pixel.2)

/-- The move for a pixel of the output, from the samples of a row and of a column. -/
def axesMove (planes ih iw oh ow : Nat) (rows columns : Nat → List (Int × ℚ)) (i h w : Nat) :
    Int × List (Int × ℚ) :=
  ((flat [planes, oh, ow] [i, h, w] : Nat),
    relocate (planePixel ih iw i) (cross (rows h) (columns w)))

/-- Every place of the output is written once, by the move of its pixel. -/
structure FollowsAxes (planes ih iw oh ow : Nat) (rows columns : Nat → List (Int × ℚ))
    (moves : List (Int × List (Int × ℚ))) : Prop where
  writes : (moves.map Prod.fst).Perm ((List.range [planes, oh, ow].prod).map Nat.cast)
  moved : ∀ move ∈ moves, ∃ i < planes, ∃ h < oh, ∃ w < ow,
    move = axesMove planes ih iw oh ow rows columns i h w

/-- Every place of the output is written once, as a sample of the crop of its plane. -/
structure Interpolates (planes ih iw oh ow : Nat) (top bottom left right : Int)
    (moves : List (Int × List (Int × ℚ))) : Prop where
  writes : (moves.map Prod.fst).Perm ((List.range [planes, oh, ow].prod).map Nat.cast)
  sampled : ∀ move ∈ moves, ∃ i < planes, ∃ h < oh, ∃ w < ow,
    move.1 = (flat [planes, oh, ow] [i, h, w] : Nat) ∧ Convex move.2 ∧
      ∀ t ∈ move.2, ∃ y x, top ≤ y ∧ y < bottom ∧ left ≤ x ∧ x < right ∧
        t.1 = planePixel ih iw i (y, x)

/-- The output, from what its buffer held. -/
def filled (moves : List (Int × List (Int × ℚ))) (input out : Int → ℚ) : Int → ℚ :=
  scatter (combine input) moves out

section

variable {planes ih iw oh ow : Nat} {rows columns : Nat → List (Int × ℚ)}
variable {moves : List (Int × List (Int × ℚ))} {move : Nat → Nat → Nat → Int × List (Int × ℚ)}
variable {top bottom left right : Int}

theorem map_axesMove_fst :
    ((indices [planes, oh, ow]).map fun index =>
      axesMove planes ih iw oh ow rows columns (index.getD 0 0) (index.getD 1 0)
        (index.getD 2 0)).map Prod.fst = (List.range [planes, oh, ow].prod).map Nat.cast := by
  rw [← map_flat_indices, List.map_map, List.map_map]
  apply List.map_congr_left
  intro index member
  obtain ⟨i, h, w, rfl⟩ := List.length_eq_three.mp (mem_indices.mp member).1
  rfl

/-- The loops over planes, rows and columns. -/
theorem followsAxes_of_loops
    (each : ∀ i < planes, ∀ h < oh, ∀ w < ow,
      move i h w = axesMove planes ih iw oh ow rows columns i h w) :
    FollowsAxes planes ih iw oh ow rows columns ((List.range planes).flatMap fun i =>
      (List.range oh).flatMap fun h => (List.range ow).map fun w => move i h w) := by
  have loops : ((List.range planes).flatMap fun i => (List.range oh).flatMap fun h =>
      (List.range ow).map fun w => move i h w) =
        (indices [planes, oh, ow]).map fun index =>
          axesMove planes ih iw oh ow rows columns (index.getD 0 0) (index.getD 1 0)
            (index.getD 2 0) := by
    simp only [map_indices_cons, indices_nil, List.map_cons, List.map_nil, flatMap_singleton_range,
      List.getD_cons_zero, List.getD_cons_succ]
    refine List.flatMap_congr fun i hi => List.flatMap_congr fun h hh =>
      List.map_congr_left fun w hw => ?_
    exact each i (List.mem_range.mp hi) h (List.mem_range.mp hh) w (List.mem_range.mp hw)
  rw [loops]
  refine ⟨List.Perm.of_eq map_axesMove_fst, fun m member => ?_⟩
  obtain ⟨index, inLoops, rfl⟩ := List.mem_map.mp member
  have inside := mem_indices.mp inLoops
  exact ⟨_, inside.2 0 (by simp), _, inside.2 1 (by simp), _, inside.2 2 (by simp), rfl⟩

/-- The loops over rows, columns and planes. -/
theorem followsAxes_of_inner_planes
    (each : ∀ i < planes, ∀ h < oh, ∀ w < ow,
      move i h w = axesMove planes ih iw oh ow rows columns i h w) :
    FollowsAxes planes ih iw oh ow rows columns ((List.range oh).flatMap fun h =>
      (List.range ow).flatMap fun w => (List.range planes).map fun i => move i h w) := by
  have moved : ∀ m ∈ (List.range oh).flatMap fun h =>
      (List.range ow).flatMap fun w => (List.range planes).map fun i => move i h w,
      ∃ i < planes, ∃ h < oh, ∃ w < ow, m = axesMove planes ih iw oh ow rows columns i h w := by
    intro m member
    obtain ⟨h, hh, member⟩ := List.mem_flatMap.mp member
    obtain ⟨w, hw, member⟩ := List.mem_flatMap.mp member
    obtain ⟨i, hi, rfl⟩ := List.mem_map.mp member
    exact ⟨i, List.mem_range.mp hi, h, List.mem_range.mp hh, w, List.mem_range.mp hw,
      each i (List.mem_range.mp hi) h (List.mem_range.mp hh) w (List.mem_range.mp hw)⟩
  refine ⟨?_, moved⟩
  -- the places, as natural numbers
  have places : ((List.range oh).flatMap fun h =>
      (List.range ow).flatMap fun w => (List.range planes).map fun i => move i h w).map Prod.fst =
      ((indices [oh, ow, planes]).map fun index => flat [planes, oh, ow]
        [index.getD 2 0, index.getD 0 0, index.getD 1 0]).map Nat.cast := by
    simp only [map_indices_cons, indices_nil, List.map_cons, List.map_nil, flatMap_singleton_range,
      List.getD_cons_zero, List.getD_cons_succ, List.map_flatMap, List.map_map]
    refine List.flatMap_congr fun h hh => List.flatMap_congr fun w hw =>
      List.map_congr_left fun i hi => ?_
    exact congrArg Prod.fst
      (each i (List.mem_range.mp hi) h (List.mem_range.mp hh) w (List.mem_range.mp hw))
  rw [places]
  refine List.Perm.map _ (perm_range_of_onto ?_ fun q less => ?_)
  · simp only [List.length_map, length_indices, List.prod_cons, List.prod_nil]
    exact le_of_eq (by ring)
  · obtain ⟨index, inside, rfl⟩ := exists_index less
    obtain ⟨i, h, w, rfl⟩ := List.length_eq_three.mp inside.1
    simp only [inside_cons] at inside
    obtain ⟨hi, hh, hw, -⟩ := inside
    refine List.mem_map.mpr ⟨[h, w, i], ?_, rfl⟩
    rw [mem_indices]
    exact inside_triple.mpr ⟨hh, hw, hi⟩

/-- Samples inside the axes are samples of the crop. -/
theorem FollowsAxes.interpolates (follows : FollowsAxes planes ih iw oh ow rows columns moves)
    (inRows : ∀ h < oh, InAxis top bottom (rows h))
    (inColumns : ∀ w < ow, InAxis left right (columns w)) :
    Interpolates planes ih iw oh ow top bottom left right moves := by
  refine ⟨follows.writes, fun m member => ?_⟩
  obtain ⟨i, hi, h, hh, w, hw, rfl⟩ := follows.moved m member
  have row := inRows h hh
  have column := inColumns w hw
  refine ⟨i, hi, h, hh, w, hw, rfl, (row.toConvex.cross column.toConvex).relocate, ?_⟩
  intro t inTaps
  obtain ⟨t', inCross, rfl⟩ := List.mem_map.mp inTaps
  obtain ⟨y, inYs, x, inXs, rfl⟩ := mem_cross inCross
  obtain ⟨low, high⟩ := row.inside y inYs
  obtain ⟨low', high'⟩ := column.inside x inXs
  exact ⟨y.1, x.1, low, high, low', high', rfl⟩

/-! ## What the output holds -/

theorem Interpolates.nodup
    (samples : Interpolates planes ih iw oh ow top bottom left right moves) :
    (moves.map Prod.fst).Nodup :=
  samples.writes.nodup_iff.mpr (List.nodup_range.map Nat.cast_injective)

/-- Each place of the output holds the sample of one move. -/
theorem Interpolates.exists_move
    (samples : Interpolates planes ih iw oh ow top bottom left right moves) {p : Nat}
    (less : p < [planes, oh, ow].prod) :
    ∃ taps, ((p : Int), taps) ∈ moves ∧
      ∀ input out, filled moves input out p = combine input taps := by
  have listed : (p : Int) ∈ moves.map Prod.fst := by
    rw [samples.writes.mem_iff]
    exact List.mem_map_of_mem (List.mem_range.mpr less)
  obtain ⟨⟨place, taps⟩, member, rfl⟩ := List.mem_map.mp listed
  exact ⟨taps, member, fun input out => scatter_of_mem samples.nodup member⟩

/-- No pixel leaves the range of the crop of its plane. -/
theorem Interpolates.bounds
    (samples : Interpolates planes ih iw oh ow top bottom left right moves) {i h w : Nat}
    (hi : i < planes) (hh : h < oh) (hw : w < ow) (input out : Int → ℚ) (low high : ℚ)
    (inRange : ∀ y x, top ≤ y → y < bottom → left ≤ x → x < right →
      low ≤ input (planePixel ih iw i (y, x)) ∧ input (planePixel ih iw i (y, x)) ≤ high) :
    low ≤ filled moves input out (flat [planes, oh, ow] [i, h, w] : Nat) ∧
      filled moves input out (flat [planes, oh, ow] [i, h, w] : Nat) ≤ high := by
  have inside : Inside [planes, oh, ow] [i, h, w] :=
    inside_triple.mpr ⟨hi, hh, hw⟩
  obtain ⟨taps, member, value⟩ := samples.exists_move (flat_lt inside)
  obtain ⟨i', hi', h', hh', w', hw', place, convex, reads⟩ := samples.sampled _ member
  have same : i' = i := by
    have places := Int.ofNat_inj.mp place
    simp only [flat, List.prod_cons, List.prod_nil, Nat.mul_one, Nat.add_zero] at places
    calc i' = (i' * (oh * ow) + (h' * ow + w')) / (oh * ow) :=
          (place_div (place_lt hh' hw')).symm
      _ = i := by rw [← places, place_div (place_lt hh hw)]
  rw [value]
  refine ⟨convex.le_combine fun t inTaps => ?_, convex.combine_le fun t inTaps => ?_⟩
  · obtain ⟨y, x, yLow, yHigh, xLow, xHigh, at_⟩ := reads t inTaps
    rw [at_, same]
    exact (inRange y x yLow yHigh xLow xHigh).1
  · obtain ⟨y, x, yLow, yHigh, xLow, xHigh, at_⟩ := reads t inTaps
    rw [at_, same]
    exact (inRange y x yLow yHigh xLow xHigh).2

/-- Axes that put all weight on the pixel itself leave the image as it is. -/
theorem FollowsAxes.identity (follows : FollowsAxes planes ih iw ih iw rows columns moves)
    (inRows : ∀ h < ih, InAxis top bottom (rows h))
    (inColumns : ∀ w < iw, InAxis left right (columns w))
    (ownRow : ∀ h < ih, ∀ t ∈ rows h, t.2 ≠ 0 → t.1 = h)
    (ownColumn : ∀ w < iw, ∀ t ∈ columns w, t.2 ≠ 0 → t.1 = w) (input out : Int → ℚ) {p : Nat}
    (less : p < [planes, ih, iw].prod) : filled moves input out p = input p := by
  have samples := follows.interpolates inRows inColumns
  obtain ⟨taps, member, value⟩ := samples.exists_move less
  obtain ⟨i, -, h, hh, w, hw, moved⟩ := follows.moved _ member
  obtain ⟨place, rfl⟩ := Prod.mk.inj moved
  rw [value, combine_relocate,
    ((inRows h hh).toConvex.cross (inColumns w hw).toConvex).combine_of_single
      (i := ((h : Int), (w : Int)))]
  · rw [place]
    simp [planePixel, flat]
  · intro t inCross weight
    obtain ⟨y, inYs, x, inXs, rfl⟩ := mem_cross inCross
    obtain ⟨xWeight, yWeight⟩ := mul_ne_zero_iff.mp weight
    exact Prod.ext (ownRow h hh y inYs yWeight) (ownColumn w hw x inXs xWeight)

end

/-! ## Rows and columns of each mode -/

section

variable {n m o : Nat} {x : ℚ}

/-- The two neighbours with their weights, each the distance of the other. -/
def neighbourTaps (n : Nat) (x : ℚ) : List (Int × ℚ) :=
  [((neighbours n x).first, (neighbours n x).d2), ((neighbours n x).second, (neighbours n x).d1)]

/-- A coordinate on the last place, or one between a place and the next. -/
theorem neighbourTaps_cases (low : 0 ≤ x) (high : x ≤ n - 1) :
    (⌊x⌋ = (n : Int) - 1 ∧ neighbourTaps n x = [(⌊x⌋, 1 / 2), (⌊x⌋, 1 / 2)]) ∨
      (⌊x⌋ < (n : Int) - 1 ∧ neighbourTaps n x = [(⌊x⌋, ⌊x⌋ + 1 - x), (⌊x⌋ + 1, x - ⌊x⌋)]) := by
  have below : ⌊x⌋ ≤ (n : Int) - 1 := by
    have : ((⌊x⌋ : Int) : ℚ) ≤ ((n : Int) - 1 : Int) := by
      push_cast
      exact (Int.floor_le x).trans high
    exact_mod_cast this
  have first : min (toInt x) ((n : Int) - 1) = ⌊x⌋ := by
    rw [toInt_of_nonneg low, min_eq_left below]
  unfold neighbourTaps neighbours
  simp only [first]
  cases below.eq_or_lt with
  | inl last =>
    left
    rw [min_eq_right (by omega), if_pos last, ← last]
    exact ⟨rfl, rfl⟩
  | inr before =>
    right
    have left_ := Int.floor_le x
    have right_ := (Int.lt_floor_add_one x).le
    have near : |x - ⌊x⌋| = x - ⌊x⌋ := abs_of_nonneg (by linarith)
    have far : |x - (⌊x⌋ + 1)| = ⌊x⌋ + 1 - x := by
      rw [abs_of_nonpos (by linarith), neg_sub]
    rw [min_eq_left (by omega), if_neg (by omega)]
    refine ⟨before, ?_⟩
    dsimp only
    push_cast
    rw [near, far]

theorem inAxis_neighbourTaps (low : 0 ≤ x) (high : x ≤ n - 1) :
    InAxis 0 n (neighbourTaps n x) := by
  have natural : 0 ≤ ⌊x⌋ := Int.floor_nonneg.mpr low
  have left_ := Int.floor_le x
  have right_ := (Int.lt_floor_add_one x).le
  rcases neighbourTaps_cases low high with ⟨last, taps⟩ | ⟨before, taps⟩
  · rw [taps]
    refine ⟨convex_pair (by norm_num) (by norm_num) (by norm_num), fun t member => ?_⟩
    rcases List.mem_pair.mp member with rfl | rfl
    · exact ⟨natural, by omega⟩
    · exact ⟨natural, by omega⟩
  · rw [taps]
    refine ⟨convex_pair (by linarith) (by linarith) (by ring), fun t member => ?_⟩
    rcases List.mem_pair.mp member with rfl | rfl
    · exact ⟨natural, by omega⟩
    · exact ⟨by omega, by omega⟩

/-- At a place of the axis the other neighbour has no weight. -/
theorem neighbourTaps_own (less : o < n) : ∀ t ∈ neighbourTaps n o, t.2 ≠ 0 → t.1 = o := by
  have high : (o : ℚ) ≤ n - 1 := by
    have : (o : ℚ) + 1 ≤ n := by exact_mod_cast less
    linarith
  intro t member weight
  rcases neighbourTaps_cases (Nat.cast_nonneg o) high with ⟨-, taps⟩ | ⟨-, taps⟩
  · rw [taps] at member
    rcases List.mem_pair.mp member with rfl | rfl
    · exact Int.floor_natCast o
    · exact Int.floor_natCast o
  · rw [taps] at member
    rcases List.mem_pair.mp member with rfl | rfl
    · exact Int.floor_natCast o
    · simp at weight

theorem inCoordinate_bounds (positive : 1 ≤ n) (scale : ℚ) (outputLength : Int) (pytorch : Bool)
    (y : Nat) :
    0 ≤ inCoordinate n scale outputLength pytorch y ∧
      inCoordinate n scale outputLength pytorch y ≤ n - 1 := by
  have last : (0 : ℚ) ≤ n - 1 := by
    have : (1 : ℚ) ≤ n := by exact_mod_cast positive
    linarith
  exact ⟨le_max_left _ _, max_le last (min_le_right _ _)⟩

/-- With equal sizes the coordinate is the place itself. -/
theorem inCoordinate_one (less : o < n) (outputLength : Int) (pytorch : Bool) :
    inCoordinate n 1 outputLength pytorch o = o := by
  have high : (o : ℚ) ≤ n - 1 := by
    have : (o : ℚ) + 1 ≤ n := by exact_mod_cast less
    linarith
  rw [inCoordinate, if_pos rfl, min_eq_left high, max_eq_right (Nat.cast_nonneg o)]

/-! ### Nearest -/

def nearestTaps (halfPixel : Bool) (n m o : Nat) : List (Int × ℚ) :=
  [(nearestResized halfPixel (n / m) o, 1)]

/-- The centre of a pixel of the output lies inside the input. -/
theorem scaled_lt (less : o < m) (n : Nat) (positive : 1 ≤ n) :
    0 ≤ (o : ℚ) * (n / m) ∧ (o : ℚ) * (n / m) < n := by
  have mPos : (0 : ℚ) < m := by exact_mod_cast Nat.zero_lt_of_lt less
  have nPos : (0 : ℚ) < n := by exact_mod_cast positive
  refine ⟨by positivity, ?_⟩
  rw [mul_div_assoc', div_lt_iff₀ mPos, mul_comm]
  exact mul_lt_mul_of_pos_left (by exact_mod_cast less) nPos

theorem nearestResized_bounds (halfPixel : Bool) (positive : 1 ≤ n) (less : o < m) :
    0 ≤ nearestResized halfPixel (n / m) o ∧ nearestResized halfPixel (n / m) o < n := by
  have mPos : (0 : ℚ) < m := by exact_mod_cast Nat.zero_lt_of_lt less
  have nPos : (0 : ℚ) < n := by exact_mod_cast positive
  cases halfPixel with
  | false =>
    obtain ⟨low, high⟩ := scaled_lt less n positive
    change 0 ≤ toInt ((o : ℚ) * (n / m)) ∧ toInt ((o : ℚ) * (n / m)) < n
    rw [toInt_of_nonneg low]
    exact ⟨Int.floor_nonneg.mpr low, Int.floor_lt.mpr (by exact_mod_cast high)⟩
  | true =>
    have centre : ((o : ℚ) + 1 / 2) * (n / m) ≤ n := by
      rw [mul_div_assoc', div_le_iff₀ mPos, mul_comm]
      refine mul_le_mul_of_nonneg_left ?_ nPos.le
      have : (o : ℚ) + 1 ≤ m := by exact_mod_cast less
      linarith
    have above : 0 < ((o : ℚ) + 1 / 2) * (n / m) := by positivity
    change 0 ≤ ⌈((o : ℚ) + 1 / 2) * (n / m) - 1⌉ ∧ ⌈((o : ℚ) + 1 / 2) * (n / m) - 1⌉ < n
    constructor
    · have : -1 < ⌈((o : ℚ) + 1 / 2) * (n / m) - 1⌉ := by
        rw [Int.lt_ceil]
        push_cast
        linarith
      omega
    · have : ⌈((o : ℚ) + 1 / 2) * (n / m) - 1⌉ ≤ (n : Int) - 1 := by
        rw [Int.ceil_le]
        push_cast
        linarith
      omega

theorem inAxis_nearestTaps (halfPixel : Bool) (positive : 1 ≤ n) (less : o < m) :
    InAxis 0 n (nearestTaps halfPixel n m o) := by
  refine ⟨convex_single _, fun t member => ?_⟩
  rw [List.mem_singleton.mp member]
  exact nearestResized_bounds halfPixel positive less

theorem nearestTaps_own (halfPixel : Bool) (less : o < n) :
    ∀ t ∈ nearestTaps halfPixel n n o, t.2 ≠ 0 → t.1 = o := by
  have nPos : (n : ℚ) ≠ 0 := by exact_mod_cast Nat.ne_of_gt (Nat.zero_lt_of_lt less)
  intro t member _
  rw [List.mem_singleton.mp member]
  cases halfPixel with
  | false =>
    change toInt ((o : ℚ) * (n / n)) = o
    rw [div_self nPos, mul_one, toInt_natCast]
  | true =>
    change ⌈((o : ℚ) + 1 / 2) * (n / n) - 1⌉ = o
    rw [div_self nPos, mul_one, Int.ceil_eq_iff]
    push_cast
    exact ⟨by linarith, by linarith⟩

/-! ### Asymmetric -/

/-- A coordinate on a place, or one between two. -/
def valueTaps (x : ℚ) : List (Int × ℚ) :=
  if ⌊x⌋ = x then [(⌊x⌋, 1)] else [(⌊x⌋, ⌈x⌉ - x), (⌈x⌉, x - ⌊x⌋)]

/-- The four cases of `value` are those of its row and its column. -/
theorem valueTerms_eq (ih iw i : Nat) (fh fw : ℚ) :
    valueTerms ((i : Int) * ih * iw) iw fh fw =
      relocate (planePixel ih iw i) (cross (valueTaps fh) (valueTaps fw)) := by
  have plane : ∀ y x : Int, (i : Int) * ih * iw + (y * iw + x) = planePixel ih iw i (y, x) := by
    intro y x
    rw [planePixel, mul_assoc]
  unfold valueTerms valueTaps
  by_cases row : (⌊fh⌋ : ℚ) = fh
  · by_cases column : (⌊fw⌋ : ℚ) = fw
    · simp [row, column, relocate, cross, plane]
    · simp [row, column, relocate, cross, plane]
  · by_cases column : (⌊fw⌋ : ℚ) = fw
    · simp [row, column, relocate, cross, plane]
    · simp [row, column, relocate, cross, plane]

theorem inAxis_valueTaps (low : 0 ≤ x) (high : x ≤ n - 1) : InAxis 0 n (valueTaps x) := by
  have natural : 0 ≤ ⌊x⌋ := Int.floor_nonneg.mpr low
  have above : ⌈x⌉ ≤ (n : Int) - 1 := by
    rw [Int.ceil_le]
    push_cast
    exact high
  have order := Int.floor_le_ceil x
  unfold valueTaps
  split
  · refine ⟨convex_single _, fun t member => ?_⟩
    rw [List.mem_singleton.mp member]
    exact ⟨natural, by omega⟩
  · next between =>
    have next : ⌈x⌉ = ⌊x⌋ + 1 := by
      apply Int.ceil_eq_floor_add_one_iff_notMem x |>.mpr
      rintro ⟨k, rfl⟩
      exact between (by rw [Int.floor_intCast])
    have left_ := Int.floor_le x
    have right_ := Int.le_ceil x
    refine ⟨convex_pair (by linarith) (by linarith) ?_, fun t member => ?_⟩
    · rw [next]
      push_cast
      ring
    · rcases List.mem_pair.mp member with rfl | rfl
      · exact ⟨natural, by omega⟩
      · exact ⟨by omega, by omega⟩

theorem asymmetricCoordinate_bounds (positive : 1 ≤ n) (o m : Nat) :
    0 ≤ asymmetricCoordinate n (n / m) o ∧ asymmetricCoordinate n (n / m) o ≤ n - 1 := by
  have last : (0 : ℚ) ≤ n - 1 := by
    have : (1 : ℚ) ≤ n := by exact_mod_cast positive
    linarith
  exact ⟨le_min (by positivity) last, min_le_right _ _⟩

theorem valueTaps_own (less : o < n) :
    ∀ t ∈ valueTaps (asymmetricCoordinate n (n / n) o), t.2 ≠ 0 → t.1 = o := by
  have nPos : (n : ℚ) ≠ 0 := by exact_mod_cast Nat.ne_of_gt (Nat.zero_lt_of_lt less)
  have high : (o : ℚ) ≤ n - 1 := by
    have : (o : ℚ) + 1 ≤ n := by exact_mod_cast less
    linarith
  have place : asymmetricCoordinate n (n / n) o = o := by
    rw [asymmetricCoordinate, div_self nPos, mul_one, min_eq_left high]
  intro t member _
  rw [place, valueTaps, Int.floor_natCast, if_pos (by simp)] at member
  rw [List.mem_singleton.mp member]

/-! ### Aligned corners -/

/-- A step between the corners, from a place of the crop on; in the special case a copy. -/
def alignedTaps (copied : Bool) (y height1 height2 : Int) (o : Nat) : List (Int × ℚ) :=
  if copied then [(y + o, 1)]
  else
    let step := alignedStep height1 height2 o
    [(y + step.h1, step.h0lambda), (y + step.h1 + step.h1p, step.h1lambda)]

theorem inAxis_alignedTaps {copied : Bool} {y height1 height2 : Int} (positive : 0 < height1)
    (less : (o : Int) < height2) (same : copied = true → height1 = height2) :
    InAxis y (y + height1) (alignedTaps copied y height1 height2 o) := by
  cases copied with
  | true =>
    have sizes := same rfl
    refine ⟨convex_single _, fun t member => ?_⟩
    rw [List.mem_singleton.mp member]
    exact ⟨by omega, by omega⟩
  | false =>
    have last : (0 : ℚ) ≤ (height1 - 1 : Int) := by exact_mod_cast Int.sub_nonneg_of_le positive
    -- the coordinate stays between the corners
    have bounds :
        0 ≤ (if 1 < height2 then ((height1 - 1 : Int) : ℚ) / (height2 - 1 : Int) else 0) * o ∧
        (if 1 < height2 then ((height1 - 1 : Int) : ℚ) / (height2 - 1 : Int) else 0) * o ≤
          (height1 - 1 : Int) := by
      split
      · next more =>
        have span : (0 : ℚ) < (height2 - 1 : Int) := by exact_mod_cast Int.sub_pos_of_lt more
        have inside : (o : ℚ) ≤ (height2 - 1 : Int) := by exact_mod_cast Int.le_sub_one_of_lt less
        refine ⟨mul_nonneg (div_nonneg last span.le) (Nat.cast_nonneg o), ?_⟩
        rw [div_mul_eq_mul_div, div_le_iff₀ span]
        exact mul_le_mul_of_nonneg_left inside last
      · rw [zero_mul]
        exact ⟨le_refl 0, last⟩
    change InAxis y (y + height1) [(y + (alignedStep height1 height2 o).h1, _),
      (y + (alignedStep height1 height2 o).h1 + (alignedStep height1 height2 o).h1p, _)]
    unfold alignedStep
    dsimp only
    generalize (if 1 < height2 then ((height1 - 1 : Int) : ℚ) / (height2 - 1 : Int) else 0) * o = x
      at bounds
    rw [toInt_of_nonneg bounds.1]
    have natural : 0 ≤ ⌊x⌋ := Int.floor_nonneg.mpr bounds.1
    have below : ⌊x⌋ ≤ height1 - 1 := by exact_mod_cast (Int.floor_le x).trans bounds.2
    have left_ := Int.floor_le x
    have right_ := Int.lt_floor_add_one x
    refine ⟨convex_pair (by linarith) (by linarith) (by ring), fun t member => ?_⟩
    rcases List.mem_pair.mp member with rfl | rfl
    · exact ⟨by omega, by omega⟩
    · dsimp only
      split
      · exact ⟨by omega, by omega⟩
      · exact ⟨by omega, by omega⟩

theorem alignedTaps_own {height : Int} : ∀ t ∈ alignedTaps true 0 height height o,
    t.2 ≠ 0 → t.1 = o := by
  intro t member _
  rw [List.mem_singleton.mp member, Int.zero_add]

end

/-! ## The kernels -/

section

variable {planes ih iw oh ow : Nat}

/-- The size of the output comes back from its scale. -/
theorem toInt_scaled {n : Nat} (positive : 1 ≤ n) (m : Nat) : toInt ((n : ℚ) * (m / n)) = m := by
  have nPos : (n : ℚ) ≠ 0 := by exact_mod_cast Nat.ne_of_gt positive
  rw [mul_div_cancel₀ _ nPos, toInt_natCast]

theorem followsAxes_upsampleBilinear (ihPos : 1 ≤ ih) (iwPos : 1 ≤ iw) (pytorch : Bool) :
    FollowsAxes planes ih iw oh ow
      (fun h => neighbourTaps ih (inCoordinate ih (oh / ih) oh pytorch h))
      (fun w => neighbourTaps iw (inCoordinate iw (ow / iw) ow pytorch w))
      (upsampleBilinear planes ih iw (oh / ih) (ow / iw) pytorch) := by
  unfold upsampleBilinear
  simp only [toInt_scaled ihPos, toInt_scaled iwPos, Int.toNat_natCast]
  refine followsAxes_of_loops fun i _ h _ w _ => Prod.ext ?_ ?_
  · simp only [axesMove, flat, List.prod_cons, List.prod_nil]
    push_cast
    ring
  · have plane : ∀ y x : Int, (i : Int) * (ih * iw) + (iw * y + x) = planePixel ih iw i (y, x) := by
      intro y x
      rw [planePixel, mul_comm (iw : Int) y]
    simp only [plane]
    rfl

theorem followsAxes_nearest (halfPixel : Bool) :
    FollowsAxes planes ih iw oh ow (nearestTaps halfPixel ih oh) (nearestTaps halfPixel iw ow)
      (interpNearestInner planes ih iw oh ow halfPixel) := by
  refine followsAxes_of_loops fun i _ h _ w _ => Prod.ext ?_ ?_
  · simp only [axesMove, flat, List.prod_cons, List.prod_nil]
    push_cast
    ring
  · have plane : ∀ y x : Int, (i : Int) * ih * iw + y * iw + x = planePixel ih iw i (y, x) := by
      intro y x
      unfold planePixel
      ring
    simp only [plane]
    simp [axesMove, nearestTaps, cross, relocate]

theorem followsAxes_asymmetric :
    FollowsAxes planes ih iw oh ow (fun h => valueTaps (asymmetricCoordinate ih (ih / oh) h))
      (fun w => valueTaps (asymmetricCoordinate iw (iw / ow) w))
      (interpAsymmetric planes ih iw oh ow) := by
  refine followsAxes_of_loops fun i _ h _ w _ => Prod.ext ?_ ?_
  · simp only [axesMove, flat, List.prod_cons, List.prod_nil]
    push_cast
    ring
  · exact valueTerms_eq ih iw i _ _

/-- The crop of a plane, and a whole output. -/
theorem followsAxes_myInterp (planes : Nat) {x1 y1 height1 width1 : Int}
    (valid : Region.Valid ⟨x1, y1, height1, width1, ih, iw⟩) (ohPos : 1 ≤ oh) (owPos : 1 ≤ ow) :
    ∃ moves, myInterp planes ⟨x1, y1, height1, width1, ih, iw⟩ ⟨0, 0, oh, ow, oh, ow⟩ =
        some moves ∧
      FollowsAxes planes ih iw oh ow
        (alignedTaps (decide (height1 = oh ∧ width1 = ow)) y1 height1 oh)
        (alignedTaps (decide (height1 = oh ∧ width1 = ow)) x1 width1 ow) moves := by
  have whole : Region.Valid ⟨0, 0, oh, ow, oh, ow⟩ := by
    refine ⟨le_refl 0, le_refl 0, ?_, ?_, ?_, ?_⟩
    · exact Int.natCast_pos.mpr ohPos
    · exact Int.natCast_pos.mpr owPos
    · exact le_of_eq (Int.add_zero _)
    · exact le_of_eq (Int.add_zero _)
  refine ⟨_, if_pos ⟨valid, whole⟩, ?_⟩
  simp only [Int.toNat_natCast]
  apply followsAxes_of_inner_planes
  intro i _ h _ w _
  by_cases copied : height1 = oh ∧ width1 = ow
  · rw [if_pos copied, decide_eq_true copied]
    refine Prod.ext ?_ ?_
    · simp only [axesMove, flat, List.prod_cons, List.prod_nil]
      push_cast
      ring
    · simp only [axesMove, alignedTaps, if_true, cross, relocate, planePixel, List.flatMap_cons,
        List.flatMap_nil, List.map_cons, List.map_nil, List.append_nil, mul_one]
      refine congrArg (fun place => [(place, (1 : ℚ))]) ?_
      ring
  · rw [if_neg copied, decide_eq_false copied]
    refine Prod.ext ?_ ?_
    · simp only [axesMove, flat, List.prod_cons, List.prod_nil]
      push_cast
      ring
    · have places : ∀ y x : Int, planePixel ih iw i (y, x) =
          y * iw + x + (i : Int) * (iw * ih) := by
        intro y x
        unfold planePixel
        ring
      simp only [axesMove, alignedTaps, Bool.false_eq_true, if_false, cross, relocate, places,
        List.flatMap_cons, List.flatMap_nil, List.map_cons, List.map_nil, List.append_nil,
        List.cons_append, List.nil_append]
      refine congrArg₂ List.cons (Prod.ext ?_ ?_) (congrArg₂ List.cons (Prod.ext ?_ ?_)
        (congrArg₂ List.cons (Prod.ext ?_ ?_) (congrArg₂ List.cons (Prod.ext ?_ ?_) rfl)))
      all_goals ring

end

/-! ## The modes -/

/-- The moves are samples of rows and columns of the crop; without a crop and with equal sizes all
    weight is on the pixel itself. -/
def SamplesAxes (d : Interpolation) (oh ow : Nat) (top bottom left right : Int)
    (moves : List (Int × List (Int × ℚ))) : Prop :=
  ∃ rows columns, FollowsAxes (d.num * d.channels) d.heightIn d.widthIn oh ow rows columns moves ∧
    (∀ h < oh, InAxis top bottom (rows h)) ∧ (∀ w < ow, InAxis left right (columns w)) ∧
    (oh = d.heightIn → ow = d.widthIn → top = 0 → bottom = d.heightIn → left = 0 →
      right = d.widthIn →
      (∀ h < oh, ∀ t ∈ rows h, t.2 ≠ 0 → t.1 = h) ∧
        ∀ w < ow, ∀ t ∈ columns w, t.2 ≠ 0 → t.1 = w)

section

variable {d : Interpolation} {oh ow : Nat}

theorem upsampleBilinear_samplesAxes (inHeight : 1 ≤ d.heightIn) (inWidth : 1 ≤ d.widthIn)
    (pytorch : Bool) :
    SamplesAxes d oh ow 0 d.heightIn 0 d.widthIn (upsampleBilinear (d.num * d.channels) d.heightIn
      d.widthIn (oh / d.heightIn) (ow / d.widthIn) pytorch) := by
  have axis : ∀ {n : Nat}, 1 ≤ n → ∀ (m o : Nat),
      InAxis 0 n (neighbourTaps n (inCoordinate n (m / n) m pytorch o)) := by
    intro n positive m o
    obtain ⟨low, high⟩ := inCoordinate_bounds positive ((m : ℚ) / n) m pytorch o
    exact inAxis_neighbourTaps low high
  have own : ∀ {n o : Nat}, o < n →
      ∀ t ∈ neighbourTaps n (inCoordinate n (n / n) n pytorch o), t.2 ≠ 0 → t.1 = o := by
    intro n o less
    have nPos : (n : ℚ) ≠ 0 := by exact_mod_cast Nat.ne_of_gt (Nat.zero_lt_of_lt less)
    rw [div_self nPos, inCoordinate_one less]
    exact neighbourTaps_own less
  refine ⟨_, _, followsAxes_upsampleBilinear inHeight inWidth pytorch,
    fun h _ => axis inHeight oh h, fun w _ => axis inWidth ow w, ?_⟩
  rintro rfl rfl - - - -
  exact ⟨fun h hh => own hh, fun w hw => own hw⟩

theorem nearest_samplesAxes (inHeight : 1 ≤ d.heightIn) (inWidth : 1 ≤ d.widthIn)
    (halfPixel : Bool) :
    SamplesAxes d oh ow 0 d.heightIn 0 d.widthIn
      (interpNearestInner (d.num * d.channels) d.heightIn d.widthIn oh ow halfPixel) := by
  refine ⟨_, _, followsAxes_nearest halfPixel, fun h hh => inAxis_nearestTaps halfPixel inHeight hh,
    fun w hw => inAxis_nearestTaps halfPixel inWidth hw, ?_⟩
  rintro rfl rfl - - - -
  exact ⟨fun h hh => nearestTaps_own halfPixel hh, fun w hw => nearestTaps_own halfPixel hw⟩

theorem asymmetric_samplesAxes (inHeight : 1 ≤ d.heightIn) (inWidth : 1 ≤ d.widthIn) :
    SamplesAxes d oh ow 0 d.heightIn 0 d.widthIn
      (interpAsymmetric (d.num * d.channels) d.heightIn d.widthIn oh ow) := by
  have axis : ∀ {n : Nat}, 1 ≤ n → ∀ (m o : Nat),
      InAxis 0 n (valueTaps (asymmetricCoordinate n (n / m) o)) := by
    intro n positive m o
    obtain ⟨low, high⟩ := asymmetricCoordinate_bounds positive o m
    exact inAxis_valueTaps low high
  refine ⟨_, _, followsAxes_asymmetric, fun h _ => axis inHeight oh h,
    fun w _ => axis inWidth ow w, ?_⟩
  rintro rfl rfl - - - -
  exact ⟨fun h hh => valueTaps_own hh, fun w hw => valueTaps_own hw⟩

theorem myInterp_samplesAxes {x1 y1 height1 width1 : Int}
    (valid : Region.Valid ⟨x1, y1, height1, width1, d.heightIn, d.widthIn⟩) (outHeight : 1 ≤ oh)
    (outWidth : 1 ≤ ow) :
    ∃ moves, myInterp (d.num * d.channels) ⟨x1, y1, height1, width1, d.heightIn, d.widthIn⟩
        ⟨0, 0, oh, ow, oh, ow⟩ = some moves ∧
      SamplesAxes d oh ow y1 (y1 + height1) x1 (x1 + width1) moves := by
  obtain ⟨moves, run, follows⟩ := followsAxes_myInterp (d.num * d.channels) valid
    outHeight outWidth
  refine ⟨moves, run, _, _, follows, fun h hh => ?_, fun w hw => ?_, ?_⟩
  · exact inAxis_alignedTaps valid.2.2.1 (Int.ofNat_lt.mpr hh) fun copied =>
      (of_decide_eq_true copied).1
  · exact inAxis_alignedTaps valid.2.2.2.1 (Int.ofNat_lt.mpr hw) fun copied =>
      (of_decide_eq_true copied).2
  · rintro sameHeight sameWidth rfl bottom rfl right
    obtain rfl : height1 = oh := by omega
    obtain rfl : width1 = ow := by omega
    rw [decide_eq_true ⟨rfl, rfl⟩]
    exact ⟨fun h _ => alignedTaps_own, fun w _ => alignedTaps_own⟩

end

/-- The modes of the function; every other text that begins with `nearest` is taken for it. -/
def KnownMode (mode : String) : Prop :=
  mode = "half_pixel" ∨ mode = "pytorch_half_pixel" ∨ mode = "asymmetric" ∨
    mode = "align_corners" ∨ "nearest".toList <+: mode.toList

/-- The crop of the input: its first row and column, and the ends of both. -/
def InterpolationParam.crop (p : InterpolationParam) (length : Nat) : Int × Int :=
  if p.coordinateTransformationMode = "align_corners" then (-p.padBeg, length + p.padEnd)
  else (0, length)

/-- The paddings take something away, but not everything. -/
def InterpolationParam.CropFits (p : InterpolationParam) (d : Interpolation) : Prop :=
  p.coordinateTransformationMode = "align_corners" →
    p.padBeg ≤ 0 ∧ p.padEnd ≤ 0 ∧ 0 < d.heightIn + p.padBeg + p.padEnd ∧
      0 < d.widthIn + p.padBeg + p.padEnd

section

variable {p : InterpolationParam} {bottomShape topShape : List Nat} {d : Interpolation}

theorem setup_mode (setup : interpolationSetup p bottomShape topShape = some d) :
    d.mode = p.coordinateTransformationMode := by
  unfold interpolationSetup at setup
  dsimp only at setup
  split at setup
  · obtain rfl := Option.some.inj setup
    rfl
  · obtain ⟨heightOut, -, rest⟩ := Option.bind_eq_some_iff.mp setup
    obtain ⟨widthOut, -, rfl⟩ := Option.map_eq_some_iff.mp rest
    rfl

/-- With aligned corners the sizes of the crop are set. -/
theorem setup_crop (setup : interpolationSetup p bottomShape topShape = some d)
    (aligned : p.coordinateTransformationMode = "align_corners") :
    d.padBeg = p.padBeg ∧ d.heightInEff = some (d.heightIn + p.padBeg + p.padEnd) ∧
      d.widthInEff = some (d.widthIn + p.padBeg + p.padEnd) := by
  unfold interpolationSetup at setup
  rw [if_neg (by simp [aligned])] at setup
  obtain ⟨heightOut, -, rest⟩ := Option.bind_eq_some_iff.mp setup
  obtain ⟨widthOut, -, rfl⟩ := Option.map_eq_some_iff.mp rest
  exact ⟨rfl, rfl, rfl⟩

/-- Every mode samples the rows and columns of its crop. -/
theorem run_samplesAxes (oh ow : Nat) (setup : interpolationSetup p bottomShape topShape = some d)
    (known : KnownMode p.coordinateTransformationMode) (inHeight : 1 ≤ d.heightIn)
    (inWidth : 1 ≤ d.widthIn) (height : d.heightOut = oh) (width : d.widthOut = ow)
    (outHeight : 1 ≤ oh) (outWidth : 1 ≤ ow) (fits : p.CropFits d) :
    ∃ moves, d.run = some moves ∧
      SamplesAxes d oh ow (p.crop d.heightIn).1 (p.crop d.heightIn).2 (p.crop d.widthIn).1
        (p.crop d.widthIn).2 moves := by
  have mode := setup_mode setup
  have whole : ∀ {text : String}, p.coordinateTransformationMode = text → text ≠ "align_corners" →
      ∀ n, p.crop n = (0, (n : Int)) := by
    intro text is other n
    exact if_neg (is ▸ other)
  unfold Interpolation.run
  simp only [height, width, Int.toNat_natCast, Int.cast_natCast]
  rcases known with is | is | is | is | begins
  · rw [mode, is, if_pos rfl, whole is (by decide), whole is (by decide)]
    exact ⟨_, rfl, upsampleBilinear_samplesAxes inHeight inWidth false⟩
  · rw [mode, is, if_neg (by decide), if_pos rfl, whole is (by decide), whole is (by decide)]
    exact ⟨_, rfl, upsampleBilinear_samplesAxes inHeight inWidth true⟩
  · rw [mode, is, if_neg (by decide), if_neg (by decide), if_neg (by decide), if_pos rfl,
      whole is (by decide), whole is (by decide)]
    exact ⟨_, rfl, asymmetric_samplesAxes inHeight inWidth⟩
  · obtain ⟨padBeg, heightInEff, widthInEff⟩ := setup_crop setup is
    obtain ⟨begins, ends, someRow, someColumn⟩ := fits is
    have crop : ∀ n : Nat, p.crop n = (-p.padBeg, n + p.padEnd) := fun n => if_pos is
    have valid : Region.Valid ⟨-p.padBeg, -p.padBeg, d.heightIn + p.padBeg + p.padEnd,
        d.widthIn + p.padBeg + p.padEnd, d.heightIn, d.widthIn⟩ := by
      refine ⟨?_, ?_, someRow, someColumn, ?_, ?_⟩
      · exact Int.neg_nonneg_of_nonpos begins
      · exact Int.neg_nonneg_of_nonpos begins
      · dsimp only
        omega
      · dsimp only
        omega
    obtain ⟨moves, run, samples⟩ := myInterp_samplesAxes valid outHeight outWidth
    rw [mode, is, if_neg (by decide), if_neg (by decide), if_neg (by decide), if_neg (by decide),
      heightInEff, widthInEff, padBeg, crop, crop]
    refine ⟨moves, run, ?_⟩
    have bottom : -p.padBeg + (d.heightIn + p.padBeg + p.padEnd) = d.heightIn + p.padEnd := by ring
    have right : -p.padBeg + (d.widthIn + p.padBeg + p.padEnd) = d.widthIn + p.padEnd := by ring
    rwa [bottom, right] at samples
  · have other : ∀ {text : String}, ¬"nearest".toList <+: text.toList →
        p.coordinateTransformationMode ≠ text := by
      intro text differs is
      exact differs (is ▸ begins)
    rw [mode, if_neg (other (by decide)), if_neg (other (by decide)), if_pos begins,
      whole rfl (other (by decide)), whole rfl (other (by decide))]
    exact ⟨_, rfl, nearest_samplesAxes inHeight inWidth _⟩

/-- The crop lies in the image. -/
theorem crop_inside (length : Nat)
    (fits : p.coordinateTransformationMode = "align_corners" → p.padBeg ≤ 0 ∧ p.padEnd ≤ 0) :
    0 ≤ (p.crop length).1 ∧ (p.crop length).2 ≤ length := by
  unfold InterpolationParam.crop
  split
  · next aligned =>
    obtain ⟨begins, ends⟩ := fits aligned
    dsimp only
    exact ⟨by omega, by omega⟩
  · exact ⟨le_refl 0, le_refl _⟩

end

/-- In every mode each place of the output is written once, with a sample of the crop of its plane:
    equal values stay what they are, no other value leaves their range, and an image of the same
    size comes out as it is. -/
theorem interpolation_samples (p : InterpolationParam) (bottomShape topShape : List Nat)
    (d : Interpolation) (setup : interpolationSetup p bottomShape topShape = some d)
    (known : KnownMode p.coordinateTransformationMode) (inHeight : 1 ≤ d.heightIn)
    (inWidth : 1 ≤ d.widthIn) (outHeight : 1 ≤ d.heightOut) (outWidth : 1 ≤ d.widthOut)
    (fits : p.CropFits d) :
    ∃ moves, d.run = some moves ∧
      Interpolates (d.num * d.channels) d.heightIn d.widthIn d.heightOut.toNat d.widthOut.toNat
        (p.crop d.heightIn).1 (p.crop d.heightIn).2 (p.crop d.widthIn).1 (p.crop d.widthIn).2
        moves ∧
      (0 ≤ (p.crop d.heightIn).1 ∧ (p.crop d.heightIn).2 ≤ d.heightIn) ∧
      (0 ≤ (p.crop d.widthIn).1 ∧ (p.crop d.widthIn).2 ≤ d.widthIn) ∧
      (∀ (input out : Int → ℚ) (low high : ℚ), ∀ i < d.num * d.channels,
        (∀ y x, (p.crop d.heightIn).1 ≤ y → y < (p.crop d.heightIn).2 →
          (p.crop d.widthIn).1 ≤ x → x < (p.crop d.widthIn).2 →
          low ≤ input (planePixel d.heightIn d.widthIn i (y, x)) ∧
            input (planePixel d.heightIn d.widthIn i (y, x)) ≤ high) →
        ∀ h < d.heightOut.toNat, ∀ w < d.widthOut.toNat,
          low ≤ filled moves input out (flat
            [d.num * d.channels, d.heightOut.toNat, d.widthOut.toNat] [i, h, w] : Nat) ∧
          filled moves input out (flat
            [d.num * d.channels, d.heightOut.toNat, d.widthOut.toNat] [i, h, w] : Nat) ≤ high) ∧
      (∀ (input out : Int → ℚ) (c : ℚ), (∀ q, input q = c) →
        ∀ q < [d.num * d.channels, d.heightOut.toNat, d.widthOut.toNat].prod,
          filled moves input out q = c) ∧
      (d.heightOut = d.heightIn → d.widthOut = d.widthIn →
        (p.coordinateTransformationMode = "align_corners" → p.padBeg = 0 ∧ p.padEnd = 0) →
        ∀ (input out : Int → ℚ), ∀ q < [d.num * d.channels, d.heightIn, d.widthIn].prod,
          filled moves input out q = input q) := by
  obtain ⟨moves, run, rows, columns, follows, inRows, inColumns, own⟩ :=
    run_samplesAxes d.heightOut.toNat d.widthOut.toNat setup known inHeight inWidth
      (Int.toNat_of_nonneg (by omega)).symm (Int.toNat_of_nonneg (by omega)).symm
      (by omega) (by omega) fits
  have samples := follows.interpolates inRows inColumns
  have inside := fun length => crop_inside (p := p) length fun aligned =>
    ⟨(fits aligned).1, (fits aligned).2.1⟩
  refine ⟨moves, run, samples, inside _, inside _, ?_, ?_, ?_⟩
  · intro input out low high i hi inRange h hh w hw
    exact samples.bounds hi hh hw input out low high inRange
  · intro input out c constant q less
    obtain ⟨taps, member, value⟩ := samples.exists_move less
    obtain ⟨-, -, -, -, -, -, -, convex, -⟩ := samples.sampled _ member
    have equal : input = fun _ => c := funext constant
    rw [value, equal, convex.combine_const]
  · intro sameHeight sameWidth noPads input out q less
    have uncropped : ∀ n : Nat, p.crop n = (0, (n : Int)) := by
      intro n
      unfold InterpolationParam.crop
      split
      · next aligned =>
        obtain ⟨begins, ends⟩ := noPads aligned
        rw [begins, ends, Int.neg_zero, Int.add_zero]
      · rfl
    have height : d.heightOut.toNat = d.heightIn := by omega
    have width : d.widthOut.toNat = d.widthIn := by omega
    obtain ⟨ownRow, ownColumn⟩ := own height width (by rw [uncropped]) (by rw [uncropped])
      (by rw [uncropped]) (by rw [uncropped])
    rw [height] at follows inRows ownRow
    rw [width] at follows inColumns ownColumn
    exact follows.identity inRows inColumns ownRow ownColumn input out less

/-- Two rows and two columns become three and three. -/
def twoToThree : InterpolationParam where
  shrinkFactor := 0
  zoomFactor := 0
  padBeg := 0
  padEnd := 0
  height := 3
  width := 3
  coordinateTransformationMode := "align_corners"

theorem interpolation_samples_twoToThree :
    ∃ moves, Interpolation.run ⟨1, 1, 2, 2, 0, some 2, some 2, 3, 3, "align_corners"⟩ =
        some moves ∧
      ∀ (input out : Int → ℚ) (c : ℚ), (∀ q, input q = c) →
        ∀ q < 9, filled moves input out (q : Nat) = c := by
  have setup : interpolationSetup twoToThree [1, 1, 2, 2] [1, 1, 3, 3] =
      some ⟨1, 1, 2, 2, 0, some 2, some 2, 3, 3, "align_corners"⟩ := rfl
  obtain ⟨moves, run, -, -, -, -, constant, -⟩ := interpolation_samples twoToThree [1, 1, 2, 2]
    [1, 1, 3, 3] _ setup (.inr (.inr (.inr (.inl rfl)))) (by decide) (by decide) (by decide)
    (by decide) fun _ => ⟨by decide, by decide, by decide, by decide⟩
  exact ⟨moves, run, constant⟩

end CviRuntime.CpuFunction
