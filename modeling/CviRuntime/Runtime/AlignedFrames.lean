import CviRuntime.Lib.Interval
import CviRuntime.Runtime.ChipTarget

/-!
# Aligned frames (`src/common/neuron.cpp`)

A tensor of images is filled frame by frame: `Neuron::preload` divides the size of the tensor by
the number of frames, rounds it up to `vpss_w_align` and copies rows of that width. The size of a
frame is a multiple of `vpss_w_align` in every format, so that the division is exact and the
rounding does nothing.
-/

namespace CviRuntime.Runtime

open CviRuntime.Interval

/-! ## Rounding up -/

section

variable {x n : Int}

theorem alignUp_eq (nonneg : 0 ≤ x) (pos : 0 < n) : alignUp x n = (x + n - 1) / n * n := by
  rw [alignUp, Int.tdiv_eq_ediv_of_nonneg (by omega)]

theorem le_alignUp (nonneg : 0 ≤ x) (pos : 0 < n) : x ≤ alignUp x n := by
  rw [alignUp_eq nonneg pos]
  have rest := Int.emod_lt_of_pos (x + n - 1) pos
  have split := Int.mul_ediv_add_emod (x + n - 1) n
  rw [Int.mul_comm] at split
  omega

theorem dvd_alignUp (x n : Int) : n ∣ alignUp x n := Dvd.intro_left _ rfl

theorem alignUp_of_dvd (nonneg : 0 ≤ x) (pos : 0 < n) (multiple : n ∣ x) : alignUp x n = x := by
  obtain ⟨k, rfl⟩ := multiple
  rw [alignUp_eq nonneg pos, Int.add_sub_assoc, Int.add_comm, Int.add_mul_ediv_left _ _ pos.ne',
    Int.ediv_eq_zero_of_lt (by omega) (by omega), Int.zero_add, Int.mul_comm]

end

/-! ## The size of a frame -/

/-- A frame of `c`, `h`, `w`, as the size formulas of `setPixelFormatAndSize` (`neuron.cpp:248-273`)
    have it, in exact arithmetic. -/
def frameBytes (align : PixelAlign) (format : PixelFormat) (c h w : Int) : Int :=
  match format with
  | .grayscale => c * h * alignUp w align.vpssWAlign
  | .bgrPlanar | .rgbPlanar | .rgbaPlanar =>
    c * alignUp (alignUp w align.vpssWAlign * h) align.vpssChannelAlign
  | .bgrPacked | .rgbPacked => h * alignUp (w * c) align.vpssWAlign
  | .yuv420Planar =>
    let yWAligned := alignUp w align.vpssYAlign
    let uvWAligned := alignUp (w.tdiv 2) align.vpssWAlign
    let u := alignUp (h * yWAligned) align.vpssChannelAlign
    let v := alignUp (u + h.tdiv 2 * uvWAligned) align.vpssChannelAlign
    alignUp (v + h.tdiv 2 * uvWAligned) align.vpssChannelAlign
  | .yuvNV12 | .yuvNV21 =>
    let yWAligned := alignUp w align.vpssYAlign
    let uvWAligned := alignUp w align.vpssWAlign
    let uv := alignUp (h * yWAligned) align.vpssChannelAlign
    alignUp (uv + h.tdiv 2 * uvWAligned) align.vpssChannelAlign
  | .tensor => 0

/-- The formats that `yuv_size` handles. -/
def PixelFormat.isYuv : PixelFormat → Bool
  | .yuvNV12 | .yuvNV21 | .yuv420Planar => true
  | _ => false

/-- What the alignments of both chips have in common. -/
structure PixelAlign.Valid (align : PixelAlign) : Prop where
  wPos : 0 < align.vpssWAlign
  yPos : 0 < align.vpssYAlign
  channelPos : 0 < align.vpssChannelAlign
  wDvd : align.vpssWAlign ∣ align.vpssChannelAlign
  wSmall : align.vpssWAlign < 2 ^ 31

theorem setPixelAlign_valid (chip : CString) (format : PixelFormat) :
    (setPixelAlign chip format).Valid := by
  unfold setPixelAlign
  split
  all_goals
    split
    all_goals exact ⟨by decide, by decide, by decide, by decide, by decide⟩

section

variable {align : PixelAlign} {format : PixelFormat} {c h w : Int}

/-- A frame consists of whole rows of `vpss_w_align` bytes. -/
theorem dvd_frameBytes (valid : align.Valid) :
    align.vpssWAlign ∣ frameBytes align format c h w := by
  cases format
  case grayscale => exact (dvd_alignUp w _).mul_left _
  case bgrPlanar | rgbPlanar | rgbaPlanar => exact (valid.wDvd.trans (dvd_alignUp _ _)).mul_left _
  case bgrPacked | rgbPacked => exact (dvd_alignUp _ _).mul_left _
  case yuvNV12 | yuvNV21 | yuv420Planar => exact valid.wDvd.trans (dvd_alignUp _ _)
  case tensor => exact Int.dvd_zero _

theorem frameBytes_pos (valid : align.Valid) (image : format ≠ .tensor) (cPos : 0 < c)
    (hPos : 0 < h) (wPos : 0 < w) : 0 < frameBytes align format c h w := by
  have up : ∀ {x n : Int}, 0 < x → 0 < n → 0 < alignUp x n := fun xPos nPos =>
    xPos.trans_le (le_alignUp xPos.le nPos)
  have half : ∀ {x : Int}, 0 < x → 0 ≤ x.tdiv 2 := fun xPos => Int.tdiv_nonneg xPos.le (by omega)
  have upNonneg : ∀ {x n : Int}, 0 ≤ x → 0 < n → 0 ≤ alignUp x n := fun xNonneg nPos =>
    xNonneg.trans (le_alignUp xNonneg nPos)
  cases format
  case grayscale => exact Int.mul_pos (Int.mul_pos cPos hPos) (up wPos valid.wPos)
  case bgrPlanar | rgbPlanar | rgbaPlanar =>
    exact Int.mul_pos cPos (up (Int.mul_pos (up wPos valid.wPos) hPos) valid.channelPos)
  case bgrPacked | rgbPacked => exact Int.mul_pos hPos (up (Int.mul_pos wPos cPos) valid.wPos)
  case yuvNV12 | yuvNV21 =>
    have luma := up (Int.mul_pos hPos (up wPos valid.yPos)) valid.channelPos
    have chroma := Int.mul_nonneg (half hPos) (up wPos valid.wPos).le
    exact up (by omega) valid.channelPos
  case yuv420Planar =>
    have luma := up (Int.mul_pos hPos (up wPos valid.yPos)) valid.channelPos
    have chroma := Int.mul_nonneg (half hPos) (upNonneg (half wPos) valid.wPos)
    have both := up (show 0 < _ by exact add_pos_of_pos_of_nonneg luma chroma) valid.channelPos
    exact up (add_pos_of_pos_of_nonneg both chroma) valid.channelPos
  case tensor => exact absurd rfl image

/-- The size the runtime computes for an aligned image tensor. -/
theorem setPixelFormatAndSize_aligned {chip : CString} {t : FbTensor}
    (parsed : parsePixelFormat t.pixelFormat = some format) (image : format ≠ .tensor)
    (aligned : t.aligned = true) (computed : t.size = 0)
    (three : format.isYuv = true → t.shape 1 = 3) :
    setPixelFormatAndSize chip t =
      some ⟨(setPixelAlign chip format).vpssYAlign, (setPixelAlign chip format).vpssWAlign,
        (setPixelAlign chip format).vpssChannelAlign,
        toU32 (t.shape 0 * frameBytes (setPixelAlign chip format) format
          (t.shape 1) (t.shape 2) (t.shape 3))⟩ := by
  have named : t.pixelFormat ≠ "" := by
    intro empty
    rw [empty] at parsed
    cases parsed
    exact image rfl
  rw [setPixelFormatAndSize, if_neg (fun both => named both.1), parsed, Option.bind_some]
  dsimp only
  rw [if_neg (by rw [aligned]; decide), if_neg (not_not.mpr computed)]
  cases format
  case tensor => exact absurd rfl image
  case yuvNV12 | yuvNV21 | yuv420Planar => simp [yuvSize, three rfl, frameBytes]
  all_goals simp [frameBytes, Int.mul_assoc]

end

/-! ## `Neuron::preload` -/

/-- Conversion of a `uint32_t` to `int`. -/
def toI32 (value : Nat) : Int := if value < 2 ^ 31 then value else value - 2 ^ 32

/-- `frame_size` of `Neuron::preload` (`neuron.cpp:372`); `batch` is `shape[0]`. -/
def preloadFrameSize (g : Geometry) (batch : Int) : Nat :=
  toU32 (alignUp (toI32 (g.size / toU32 batch)) g.vpssWAlign)

/-- The rows and the row length of its copy (`neuron.cpp:376`). -/
def preloadShape (g : Geometry) (batch : Int) : Nat × Nat :=
  (preloadFrameSize g batch / toU32 g.vpssWAlign, toU32 g.vpssWAlign)

/-- The bytes of the tensor that frame `frameIdx` is copied to (`neuron.cpp:384-386`), from the
    address of the tensor on: the product is a `uint32_t`. -/
def preloadRegion (g : Geometry) (batch frameIdx : Int) : Slot :=
  (toU32 frameIdx * preloadFrameSize g batch % 2 ^ 32, preloadFrameSize g batch)

theorem toU32_natCast {value : Nat} (small : value < 2 ^ 32) : toU32 value = value := by
  rw [toU32, Int.emod_eq_of_lt (by omega) (by omega), Int.toNat_natCast]

/-- A size that is the product of the number of frames and a multiple of `vpss_w_align`. -/
theorem preloadFrameSize_of_mul {g : Geometry} {batch frame : Nat} (batchPos : 0 < batch)
    (framePos : 0 < frame) (wPos : 0 < g.vpssWAlign) (rows : g.vpssWAlign ∣ frame)
    (whole : g.size = batch * frame) (small : batch * frame < 2 ^ 31) :
    preloadFrameSize g batch = frame := by
  have batchSmall : batch < 2 ^ 31 := (Nat.le_mul_of_pos_right batch framePos).trans_lt small
  have frameSmall : frame < 2 ^ 31 := (Nat.le_mul_of_pos_left frame batchPos).trans_lt small
  rw [preloadFrameSize, toU32_natCast (by omega), whole, Nat.mul_div_cancel_left _ batchPos,
    toI32, if_pos frameSmall, alignUp_of_dvd (by omega) wPos rows, toU32_natCast (by omega)]

/-- The places of the frames in such a tensor. -/
theorem preloadRegion_of_mul {g : Geometry} {batch frame idx : Nat} (framePos : 0 < frame)
    (size : preloadFrameSize g batch = frame) (small : batch * frame < 2 ^ 31)
    (below : idx < batch) :
    preloadRegion g batch idx = (idx * frame, frame) ∧ idx * frame + frame ≤ batch * frame := by
  have inside : (idx + 1) * frame ≤ batch * frame := Nat.mul_le_mul_right frame below
  rw [Nat.succ_mul] at inside
  have idxSmall : idx ≤ idx * frame := Nat.le_mul_of_pos_right idx framePos
  rw [preloadRegion, size, toU32_natCast (by omega), Nat.mod_eq_of_lt (by omega)]
  exact ⟨rfl, inside⟩

/-- Frames one behind the other are apart. -/
theorem apart_of_ne {frame i j : Nat} (ne : i ≠ j) :
    Slot.Apart (i * frame, frame) (j * frame, frame) := by
  have before : ∀ {i j : Nat}, i < j → i * frame + frame ≤ j * frame := by
    intro i j less
    have step := Nat.mul_le_mul_right frame less
    rwa [Nat.succ_mul] at step
  rcases Nat.lt_or_gt_of_ne ne with less | greater
  · exact .inl (before less)
  · exact .inr (before greater)

/-- The rows of a copy are the frame. -/
theorem preloadShape_of_dvd {g : Geometry} {batch frame : Nat}
    (size : preloadFrameSize g batch = frame) (wPos : 0 < g.vpssWAlign)
    (wSmall : g.vpssWAlign < 2 ^ 31) (rows : g.vpssWAlign ∣ frame) :
    (preloadShape g batch).1 * (preloadShape g batch).2 = frame := by
  obtain ⟨align, alignEq⟩ := Int.eq_ofNat_of_zero_le wPos.le
  rw [alignEq] at rows wSmall
  rw [preloadShape, size, alignEq, toU32_natCast (by omega)]
  exact Nat.div_mul_cancel (by exact_mod_cast rows)

/-- The frames written by `preload` lie one behind the other and fill the tensor, whatever the
    chip, the image format and the dimensions are: they are disjoint and inside the tensor, a
    frame times their number is the tensor, and the rows of a copy are the frame. -/
theorem preload_frames_fit (chip : CString) (t : FbTensor) (format : PixelFormat)
    (parsed : parsePixelFormat t.pixelFormat = some format) (image : format ≠ .tensor)
    (aligned : t.aligned = true) (computed : t.size = 0) (positive : ∀ i, 0 < t.shape i)
    (three : format.isYuv = true → t.shape 1 = 3)
    (inRange : t.shape 0 * frameBytes (setPixelAlign chip format) format
      (t.shape 1) (t.shape 2) (t.shape 3) < 2 ^ 31) :
    ∃ g, setPixelFormatAndSize chip t = some g ∧
      (∀ idx : Nat, idx < t.shape 0 →
        preloadRegion g (t.shape 0) idx =
          (idx * preloadFrameSize g (t.shape 0), preloadFrameSize g (t.shape 0)) ∧
        idx * preloadFrameSize g (t.shape 0) + preloadFrameSize g (t.shape 0) ≤ g.size) ∧
      (∀ i j : Nat, i < t.shape 0 → j < t.shape 0 → i ≠ j →
        (preloadRegion g (t.shape 0) i).Apart (preloadRegion g (t.shape 0) j)) ∧
      preloadFrameSize g (t.shape 0) * t.shape 0 = g.size ∧
      (preloadShape g (t.shape 0)).1 * (preloadShape g (t.shape 0)).2 =
        preloadFrameSize g (t.shape 0) := by
  have valid := setPixelAlign_valid chip format
  have pos := frameBytes_pos valid image (positive 1) (positive 2) (positive 3)
  have rows : (setPixelAlign chip format).vpssWAlign ∣ frameBytes _ format (t.shape 1) (t.shape 2)
    (t.shape 3) := dvd_frameBytes valid
  refine ⟨_, setPixelFormatAndSize_aligned parsed image aligned computed three, ?_⟩
  obtain ⟨frame, frameEq⟩ := Int.eq_ofNat_of_zero_le pos.le
  obtain ⟨batch, batchEq⟩ := Int.eq_ofNat_of_zero_le (positive 0).le
  have framePos : 0 < frame := by omega
  have batchPos : 0 < batch := by
    have first := positive 0
    omega
  rw [frameEq, batchEq] at inRange
  rw [frameEq] at rows
  rw [frameEq, batchEq]
  have small : batch * frame < 2 ^ 31 := by exact_mod_cast inRange
  have whole : toU32 ((batch : Int) * frame) = batch * frame := by
    have cast : (batch : Int) * frame = ((batch * frame : Nat) : Int) := by push_cast; rfl
    rw [cast, toU32_natCast (by omega)]
  rw [whole]
  generalize geometry : Geometry.mk _ _ _ (batch * frame) = g
  have sizeEq : g.size = batch * frame := by rw [← geometry]
  have wEq : g.vpssWAlign = (setPixelAlign chip format).vpssWAlign := by rw [← geometry]
  rw [← wEq] at rows
  have wPos : 0 < g.vpssWAlign := wEq ▸ valid.wPos
  have size := preloadFrameSize_of_mul batchPos framePos wPos rows sizeEq small
  rw [size, sizeEq]
  refine ⟨?_, ?_, ?_, preloadShape_of_dvd size wPos (wEq ▸ valid.wSmall) rows⟩
  · intro idx below
    exact preloadRegion_of_mul framePos size small (by exact_mod_cast below)
  · intro i j iBelow jBelow ne
    rw [(preloadRegion_of_mul framePos size small (by exact_mod_cast iBelow)).1,
      (preloadRegion_of_mul framePos size small (by exact_mod_cast jBelow)).1]
    exact apart_of_ne ne
  · push_cast
    exact Int.mul_comm _ _

/-- Four frames of 5 by 3 pixels for the cv183x. -/
def nv12Frames : FbTensor where
  dtype := .uint8
  shape := fun i => [4, 3, 5, 3].getD i 0
  aligned := true
  size := 0
  pixelFormat := "YUV_NV12"

theorem preload_frames_fit_nv12 : ∃ g, setPixelFormatAndSize cv183x nv12Frames = some g ∧
    preloadFrameSize g 4 * 4 = g.size := by
  obtain ⟨g, loaded, -, -, whole, -⟩ := preload_frames_fit cv183x nv12Frames .yuvNV12 rfl
    (by decide) rfl rfl (by decide) (fun _ => rfl) (by decide)
  have four : nv12Frames.shape 0 = 4 := rfl
  rw [four] at whole
  exact ⟨g, loaded, by exact_mod_cast whole⟩

end CviRuntime.Runtime
