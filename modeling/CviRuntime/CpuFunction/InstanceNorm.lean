import CviRuntime.Lib.Loop
import CviRuntime.Lib.RowMajor
import Mathlib.Algebra.Order.BigOperators.Group.List
import Mathlib.Analysis.SpecialFunctions.Sqrt

/-!
# Instance normalisation (`src/common/cpu_function/instancenorm.cpp`)

`my_in` keeps one mean and one variance for each channel and goes through all images before `my_bn`
uses them. They are then those of the last image, divided by the first scale.
-/

namespace CviRuntime.CpuFunction

open CviRuntime.Loop CviRuntime.RowMajor

/-- `num_`, `channels_`, `h_` and `w_`. -/
structure NormDims where
  n : Nat
  c : Nat
  h : Nat
  w : Nat

/-- The position of pixel `i`. -/
def NormDims.pixel (d : NormDims) (ni ci i : Nat) : Nat :=
  ni * d.c * d.h * d.w + ci * d.h * d.w + i

section

variable {α : Type*} [Field α]

/-- The vectors `mean` and `variance`. -/
structure NormStats (α : Type*) where
  mean : Nat → α
  variance : Nat → α

/-- The statistics (`instancenorm.cpp:53-77`). -/
def gatherStats (input : Nat → α) (d : NormDims) : NormStats α :=
  (List.range d.n).foldl (fun st ni =>
    (List.range d.c).foldl (fun st ci =>
      let m := (List.range (d.h * d.w)).foldl (fun m i => m + input (d.pixel ni ci i)) 0
      let mean := m / ((d.h * d.w : Nat) : α)
      let var := (List.range (d.h * d.w)).foldl
        (fun var i => var + (input (d.pixel ni ci i) - mean) ^ 2) 0
      { mean := Function.update st.mean ci mean
        variance := Function.update st.variance ci (var / ((d.h * d.w : Nat) : α)) }) st)
    ⟨fun _ => 0, fun _ => 0⟩

/-- The statistics that the pixels are normalised with (`instancenorm.cpp:15-19`). There are none
    when the first scale is 0. -/
def usedStats [DecidableEq α] (st : NormStats α) (scale : Nat → α) : Option (NormStats α) :=
  if scale 0 = 0 then none
  else
    let scaleFactor := 1 / scale 0
    some ⟨fun i => st.mean i * scaleFactor, fun i => st.variance i * scaleFactor⟩

/-- What a division of exact numbers leaves in a `float`. -/
inductive NormValue (α : Type*) where
  | number (x : α)
  | infinite (negative : Bool)
  | nan

/-- The value of a pixel (`instancenorm.cpp:27-29`). The tests behind it have no effect. -/
def normPixel [LinearOrder α] (sqrt : α → α) (input : Nat → α) (st : NormStats α)
    (varianceEpsilon : α) (bias : Nat → α) (d : NormDims) (ni ci i : Nat) : NormValue α :=
  let x := input (d.pixel ni ci i) - st.mean ci
  let v := st.variance ci + varianceEpsilon
  if v < 0 then .nan
  else if v = 0 then if x = 0 then .nan else .infinite (decide (x < 0))
  else .number (x / sqrt v + bias ci)

/-- `InstanceNormFunc::run`, as the value of each pixel. A scale factor `1 / 0` makes the mean and
    the variance infinite or no number, and every quotient of them is none. -/
def instanceNormRun [LinearOrder α] (sqrt : α → α) (input scale bias : Nat → α)
    (varianceEpsilon : α) (d : NormDims) (ni ci i : Nat) : NormValue α :=
  match usedStats (gatherStats input d) scale with
  | none => .nan
  | some st => normPixel sqrt input st varianceEpsilon bias d ni ci i

/-! ## What a pixel should be normalised with -/

/-- The mean of a channel of an image. -/
def channelMean (input : Nat → α) (d : NormDims) (ni ci : Nat) : α :=
  ((List.range (d.h * d.w)).map fun i => input (d.pixel ni ci i)).sum / ((d.h * d.w : Nat) : α)

/-- Its variance. -/
def channelVar (input : Nat → α) (d : NormDims) (ni ci : Nat) : α :=
  ((List.range (d.h * d.w)).map fun i =>
    (input (d.pixel ni ci i) - channelMean input d ni ci) ^ 2).sum / ((d.h * d.w : Nat) : α)

/-- Each pixel is normalised with the mean and the variance of its channel of its image. -/
def OwnStats [DecidableEq α] (input scale : Nat → α) (d : NormDims) : Prop :=
  ∀ ni < d.n, ∀ ci < d.c, ∀ i < d.h * d.w, ∃ st, usedStats (gatherStats input d) scale = some st ∧
    st.mean ci = channelMean input d ni ci ∧ st.variance ci = channelVar input d ni ci

/-- Two inputs that agree on an image give the same values there. -/
def ImagesIndependent [LinearOrder α] (sqrt : α → α) (scale bias : Nat → α) (varianceEpsilon : α)
    (d : NormDims) : Prop :=
  ∀ input input' : Nat → α, ∀ ni < d.n,
    (∀ ci < d.c, ∀ i < d.h * d.w, input (d.pixel ni ci i) = input' (d.pixel ni ci i)) →
    ∀ ci < d.c, ∀ i < d.h * d.w, instanceNormRun sqrt input scale bias varianceEpsilon d ni ci i =
      instanceNormRun sqrt input' scale bias varianceEpsilon d ni ci i

/-! ## The statistics of the last image -/

/-- The vectors hold what the last image wrote. -/
theorem gatherStats_eq (input : Nat → α) {d : NormDims} {ci : Nat} (inside : ci < d.c)
    (some_image : 0 < d.n) :
    (gatherStats input d).mean ci = channelMean input d (d.n - 1) ci ∧
      (gatherStats input d).variance ci = channelVar input d (d.n - 1) ci := by
  have sums : ∀ (f : Nat → α), (List.range (d.h * d.w)).foldl (fun m i => m + f i) 0 =
      ((List.range (d.h * d.w)).map f).sum := fun f => by
    rw [List.sum_eq_foldl, List.foldl_map]
  have columns := foldl_columns_look (fun (st : NormStats α) ci => (st.mean ci, st.variance ci))
    (fun st ni ci => ⟨Function.update st.mean ci (channelMean input d ni ci),
      Function.update st.variance ci (channelVar input d ni ci)⟩)
    (fun ni ci _ => (channelMean input d ni ci, channelVar input d ni ci))
    (fun st ni ci => by simp only [Function.update_self])
    (fun st ni ci ci' differ => by simp only [Function.update_of_ne (Ne.symm differ)])
    ⟨fun _ => 0, fun _ => 0⟩ d.n d.c ci inside
  have same : gatherStats input d = (List.range d.n).foldl (fun st ni =>
      (List.range d.c).foldl (fun st ci =>
        ⟨Function.update st.mean ci (channelMean input d ni ci),
          Function.update st.variance ci (channelVar input d ni ci)⟩) st)
      ⟨fun _ => 0, fun _ => 0⟩ := by
    unfold gatherStats channelVar channelMean
    simp only [sums]
  obtain ⟨last, count⟩ := Nat.exists_eq_succ_of_ne_zero some_image.ne'
  rw [← same, count, List.range_succ, List.foldl_append] at columns
  rw [count]
  exact Prod.mk.inj columns

end

/-! ## When they are the pixel's own -/

section

variable {α : Type*} [Field α] [LinearOrder α] [IsStrictOrderedRing α] {input scale : Nat → α}
  {d : NormDims}

/-- A channel without mean and variance is 0 everywhere. -/
theorem channel_zero {ni ci : Nat} (mean : channelMean input d ni ci = 0)
    (variance : channelVar input d ni ci = 0) :
    ∀ i < d.h * d.w, input (d.pixel ni ci i) = 0 := by
  intro i less
  have pixels : ((d.h * d.w : Nat) : α) ≠ 0 := Nat.cast_ne_zero.mpr (Nat.zero_lt_of_lt less).ne'
  rw [channelVar, mean, div_eq_zero_iff, or_iff_left pixels] at variance
  have nonneg : ∀ x ∈ (List.range (d.h * d.w)).map fun i => (input (d.pixel ni ci i) - 0) ^ 2,
      0 ≤ x := List.forall_mem_map.mpr fun i _ => sq_nonneg _
  have square := List.all_zero_of_le_zero_le_of_sum_eq_zero nonneg variance
    (List.mem_map_of_mem (List.mem_range.mpr less))
  rwa [sub_zero, sq_eq_zero_iff] at square

omit [LinearOrder α] [IsStrictOrderedRing α] in
theorem channel_of_zero {ni ci : Nat} (zero : ∀ i < d.h * d.w, input (d.pixel ni ci i) = 0) :
    channelMean input d ni ci = 0 ∧ channelVar input d ni ci = 0 := by
  have mean : channelMean input d ni ci = 0 := by
    rw [channelMean, List.map_congr_left fun i member => zero i (List.mem_range.mp member)]
    simp
  refine ⟨mean, ?_⟩
  rw [channelVar, mean, List.map_congr_left (g := fun _ => 0) fun i member => by
    rw [zero i (List.mem_range.mp member), sub_zero, zero_pow (by decide)]]
  simp

omit [IsStrictOrderedRing α] in
theorem usedStats_eq_some {st : NormStats α} (divides : scale 0 ≠ 0) :
    usedStats st scale = some ⟨fun i => st.mean i * (1 / scale 0),
      fun i => st.variance i * (1 / scale 0)⟩ := if_neg divides

omit [IsStrictOrderedRing α] in
/-- Dividing by a scale other than 1 only keeps 0. -/
theorem eq_zero_of_scaled {x : α} (divides : scale 0 ≠ 0) (other : scale 0 ≠ 1)
    (same : x * (1 / scale 0) = x) : x = 0 := by
  rw [mul_one_div, div_eq_iff divides] at same
  by_contra nonzero
  exact other (mul_left_cancel₀ nonzero (same.symm.trans (mul_one x).symm))

omit [IsStrictOrderedRing α] in
/-- Where the statistics are the pixel's own the scale has an inverse, and the scaled statistics of
    the last image are those of all images. -/
theorem OwnStats.scaled (own : OwnStats input scale d) (pixels : 0 < d.h * d.w) {ni ci : Nat}
    (image : ni < d.n) (channel : ci < d.c) :
    scale 0 ≠ 0 ∧ channelMean input d (d.n - 1) ci * (1 / scale 0) = channelMean input d ni ci ∧
      channelVar input d (d.n - 1) ci * (1 / scale 0) = channelVar input d ni ci := by
  obtain ⟨st, used, mean, variance⟩ := own ni image ci channel 0 pixels
  obtain ⟨gatheredMean, gatheredVar⟩ :=
    gatherStats_eq input channel (Nat.zero_lt_of_lt image)
  have divides : scale 0 ≠ 0 := fun zero => by
    rw [usedStats, if_pos zero] at used
    cases used
  rw [usedStats_eq_some divides] at used
  obtain rfl := Option.some.inj used
  rw [← gatheredMean, ← gatheredVar]
  exact ⟨divides, mean, variance⟩

omit [IsStrictOrderedRing α] in
/-- Statistics that do not change under the scale are the pixel's own where all images have those of
    the last one. -/
theorem ownStats_of_scaled (divides : scale 0 ≠ 0)
    (scaled : ∀ ni < d.n, ∀ ci < d.c,
      channelMean input d (d.n - 1) ci * (1 / scale 0) = channelMean input d ni ci ∧
        channelVar input d (d.n - 1) ci * (1 / scale 0) = channelVar input d ni ci) :
    OwnStats input scale d := by
  intro ni image ci channel i _
  obtain ⟨gatheredMean, gatheredVar⟩ :=
    gatherStats_eq input channel (Nat.zero_lt_of_lt image)
  have here := scaled ni image ci channel
  rw [← gatheredMean, ← gatheredVar] at here
  exact ⟨_, usedStats_eq_some divides, here⟩

/-- The statistics are the pixel's own exactly when the first scale is 1 and all images have those
    of the last one, or all pixels are 0 and the scale is not, or there are no pixels. -/
theorem ownStats_iff :
    OwnStats input scale d ↔
      d.n * d.c * (d.h * d.w) = 0 ∨
      (scale 0 = 1 ∧ ∀ ni < d.n, ∀ ci < d.c,
        channelMean input d ni ci = channelMean input d (d.n - 1) ci ∧
          channelVar input d ni ci = channelVar input d (d.n - 1) ci) ∨
      (scale 0 ≠ 0 ∧ ∀ ni < d.n, ∀ ci < d.c, ∀ i < d.h * d.w, input (d.pixel ni ci i) = 0) := by
  by_cases empty : d.n * d.c * (d.h * d.w) = 0
  · refine iff_of_true (fun ni image ci channel i pixel => ?_) (Or.inl empty)
    have some_pixel := Nat.mul_pos (Nat.mul_pos (Nat.zero_lt_of_lt image)
      (Nat.zero_lt_of_lt channel)) (Nat.zero_lt_of_lt pixel)
    exact absurd empty some_pixel.ne'
  have pixels : 0 < d.h * d.w := Nat.pos_of_ne_zero (right_ne_zero_of_mul empty)
  have images : 0 < d.n := Nat.pos_of_ne_zero (left_ne_zero_of_mul (left_ne_zero_of_mul empty))
  have channels : 0 < d.c := Nat.pos_of_ne_zero (right_ne_zero_of_mul (left_ne_zero_of_mul empty))
  have last : d.n - 1 < d.n := Nat.sub_one_lt images.ne'
  rw [or_iff_right empty]
  constructor
  · intro own
    obtain ⟨divides, -⟩ := own.scaled pixels images channels
    by_cases one : scale 0 = 1
    · refine Or.inl ⟨one, fun ni image ci channel => ?_⟩
      obtain ⟨-, mean, variance⟩ := own.scaled pixels image channel
      rw [one, div_one, mul_one] at mean variance
      exact ⟨mean.symm, variance.symm⟩
    · refine Or.inr ⟨divides, fun ni image ci channel => ?_⟩
      -- the statistics of the last image are 0, and with them all others
      obtain ⟨-, lastMean, lastVar⟩ := own.scaled pixels last channel
      obtain ⟨-, mean, variance⟩ := own.scaled pixels image channel
      rw [eq_zero_of_scaled divides one lastMean, zero_mul] at mean
      rw [eq_zero_of_scaled divides one lastVar, zero_mul] at variance
      exact channel_zero mean.symm variance.symm
  · rintro (⟨one, same⟩ | ⟨divides, zero⟩)
    · refine ownStats_of_scaled (one ▸ one_ne_zero) fun ni image ci channel => ?_
      rw [one, div_one, mul_one, mul_one]
      exact ⟨(same ni image ci channel).1.symm, (same ni image ci channel).2.symm⟩
    · refine ownStats_of_scaled divides fun ni image ci channel => ?_
      obtain ⟨mean, variance⟩ := channel_of_zero (zero ni image ci channel)
      obtain ⟨mean', variance'⟩ := channel_of_zero (zero _ last ci channel)
      rw [mean, mean', variance, variance', zero_mul]
      exact ⟨rfl, rfl⟩

end

/-! ## When images do not influence each other -/

section

variable {α : Type*} [Field α]

/-- The last image is `f`, the others are 0. -/
def lastImage (d : NormDims) (f : Nat → α) (p : Nat) : α :=
  if (d.n - 1) * d.c * d.h * d.w ≤ p then f (p - (d.n - 1) * d.c * d.h * d.w) else 0

theorem lastImage_last (d : NormDims) (f : Nat → α) (i : Nat) :
    lastImage d f (d.pixel (d.n - 1) 0 i) = f i := by
  have place : d.pixel (d.n - 1) 0 i = (d.n - 1) * d.c * d.h * d.w + i := by
    rw [NormDims.pixel, Nat.zero_mul, Nat.zero_mul, Nat.add_zero]
  rw [lastImage, place, if_pos (Nat.le_add_right _ _), Nat.add_sub_cancel_left]

theorem lastImage_first {d : NormDims} (f : Nat → α) (several : 2 ≤ d.n) {ci i : Nat}
    (channel : ci < d.c) (pixel : i < d.h * d.w) : lastImage d f (d.pixel 0 ci i) = 0 := by
  refine if_neg (Nat.not_le.mpr ?_)
  have images : 1 ≤ d.n - 1 := Nat.le_sub_one_of_lt several
  calc d.pixel 0 ci i = ci * (d.h * d.w) + i := by
        rw [NormDims.pixel, Nat.zero_mul, Nat.zero_mul, Nat.zero_mul, Nat.zero_add, Nat.mul_assoc]
    _ < ci * (d.h * d.w) + d.h * d.w := Nat.add_lt_add_left pixel _
    _ = (ci + 1) * (d.h * d.w) := (Nat.succ_mul _ _).symm
    _ ≤ d.c * (d.h * d.w) := Nat.mul_le_mul_right _ channel
    _ ≤ (d.n - 1) * (d.c * (d.h * d.w)) := Nat.le_mul_of_pos_left _ images
    _ = (d.n - 1) * d.c * d.h * d.w := by simp only [Nat.mul_assoc]

variable [LinearOrder α] (sqrt : α → α) (scale bias : Nat → α) (varianceEpsilon : α) (d : NormDims)

/-- What the first pixel becomes under the statistics of a last image `f`. -/
def firstPixel (f : Nat → α) : NormValue α :=
  let mean := ((List.range (d.h * d.w)).map f).sum / ((d.h * d.w : Nat) : α)
  let variance := ((List.range (d.h * d.w)).map fun i => (f i - mean) ^ 2).sum /
    ((d.h * d.w : Nat) : α)
  let x := 0 - mean * (1 / scale 0)
  let v := variance * (1 / scale 0) + varianceEpsilon
  if v < 0 then .nan
  else if v = 0 then if x = 0 then .nan else .infinite (decide (x < 0))
  else .number (x / sqrt v + bias 0)

variable {d}

theorem instanceNormRun_firstPixel (divides : scale 0 ≠ 0) (several : 2 ≤ d.n) (channels : 0 < d.c)
    (pixels : 0 < d.h * d.w) (f : Nat → α) :
    instanceNormRun sqrt (lastImage d f) scale bias varianceEpsilon d 0 0 0 =
      firstPixel sqrt scale bias varianceEpsilon d f := by
  obtain ⟨mean, variance⟩ := gatherStats_eq (lastImage d f) channels
    (Nat.zero_lt_of_lt several)
  unfold channelVar channelMean at variance
  unfold channelMean at mean
  simp only [lastImage_last] at mean variance
  simp only [instanceNormRun, usedStats_eq_some divides, normPixel, firstPixel, mean, variance,
    lastImage_first f several channels pixels]

/-- Where images are independent the last image does not matter to the first pixel. -/
theorem ImagesIndependent.firstPixel_eq
    (independent : ImagesIndependent sqrt scale bias varianceEpsilon d) (divides : scale 0 ≠ 0)
    (several : 2 ≤ d.n) (channels : 0 < d.c) (pixels : 0 < d.h * d.w) (f g : Nat → α) :
    firstPixel sqrt scale bias varianceEpsilon d f =
      firstPixel sqrt scale bias varianceEpsilon d g := by
  have agree : ∀ ci < d.c, ∀ i < d.h * d.w,
      lastImage d f (d.pixel 0 ci i) = lastImage d g (d.pixel 0 ci i) := fun ci channel i pixel =>
    (lastImage_first f several channel pixel).trans (lastImage_first g several channel pixel).symm
  have first := instanceNormRun_firstPixel sqrt scale bias varianceEpsilon divides several channels
    pixels
  rw [← first f, ← first g]
  exact independent _ _ 0 (Nat.zero_lt_of_lt several) agree 0 channels 0 pixels

end

section

variable {α : Type*} [Field α] [LinearOrder α] [IsStrictOrderedRing α] {sqrt : α → α}
  {scale bias : Nat → α} {varianceEpsilon : α} {d : NormDims}

/-- A last image that is the same everywhere has no variance. -/
theorem firstPixel_const (pixels : 0 < d.h * d.w) (x : α) :
    firstPixel sqrt scale bias varianceEpsilon d (fun _ => x) =
      if varianceEpsilon < 0 then .nan
      else if varianceEpsilon = 0 then
        if 0 - x * (1 / scale 0) = 0 then .nan
        else .infinite (decide (0 - x * (1 / scale 0) < 0))
      else .number ((0 - x * (1 / scale 0)) / sqrt varianceEpsilon + bias 0) := by
  have count : ((d.h * d.w : Nat) : α) ≠ 0 := Nat.cast_ne_zero.mpr pixels.ne'
  have mean : ((List.range (d.h * d.w)).map fun _ => x).sum / ((d.h * d.w : Nat) : α) = x := by
    rw [List.map_const', List.sum_replicate, List.length_range, nsmul_eq_mul,
      mul_div_cancel_left₀ _ count]
  have variance : ((List.range (d.h * d.w)).map fun _ => (x - x) ^ 2).sum = 0 := by
    rw [List.map_const', sub_self, zero_pow (by decide), List.sum_replicate, smul_zero]
  simp only [firstPixel, mean, variance, zero_div, zero_mul, zero_add]

/-- From two pixels on a last image can have any variance. -/
theorem exists_variance {m : Nat} (pixels : 2 ≤ m) (bound : α) :
    ∃ f : Nat → α, bound < ((List.range m).map fun i =>
      (f i - ((List.range m).map f).sum / (m : α)) ^ 2).sum / (m : α) := by
  have count : (0 : α) < m := Nat.cast_pos.mpr (Nat.zero_lt_of_lt pixels)
  -- the first pixel is `m * s`, so that the mean is `s` and every other pixel is `s` away from it
  let s : α := max 1 (bound * m + 1)
  let f : Nat → α := fun i => if i = 0 then m * s else 0
  have mean : ((List.range m).map f).sum / (m : α) = s := by
    obtain ⟨k, rfl⟩ := Nat.exists_eq_succ_of_ne_zero (Nat.zero_lt_of_lt pixels).ne'
    have others : ((List.range k).map (f ∘ Nat.succ)).sum = 0 := by
      have zero : f ∘ Nat.succ = fun _ => 0 := funext fun i => by
        simp only [f, Function.comp_apply, if_neg (Nat.succ_ne_zero i)]
      rw [zero, List.map_const', List.sum_replicate, smul_zero]
    rw [List.range_succ_eq_map, List.map_cons, List.map_map, List.sum_cons, others, add_zero]
    exact mul_div_cancel_left₀ s count.ne'
  have second : (f 1 - s) ^ 2 ≤ ((List.range m).map fun i => (f i - s) ^ 2).sum :=
    List.single_le_sum (List.forall_mem_map.mpr fun i _ => sq_nonneg _) _
      (List.mem_map_of_mem (List.mem_range.mpr pixels))
  have away : (f 1 - s) ^ 2 = s ^ 2 := by
    rw [show f 1 = 0 from if_neg one_ne_zero, zero_sub, neg_sq]
  refine ⟨f, ?_⟩
  rw [mean, lt_div_iff₀ count]
  calc bound * m < bound * m + 1 := lt_add_one _
    _ ≤ s := le_max_right _ _
    _ ≤ s ^ 2 := le_self_pow₀ (le_max_left _ _) two_ne_zero
    _ ≤ _ := away ▸ second

omit [IsStrictOrderedRing α] in
/-- A negative number under the root leaves no number. -/
theorem instanceNormRun_nan {input : Nat → α} {ni ci : Nat} (i : Nat) (channel : ci < d.c)
    (images : 0 < d.n)
    (negative : channelVar input d (d.n - 1) ci * (1 / scale 0) + varianceEpsilon < 0) :
    instanceNormRun sqrt input scale bias varianceEpsilon d ni ci i = .nan := by
  by_cases divides : scale 0 = 0
  · rw [instanceNormRun, usedStats, if_pos divides]
  · rw [← (gatherStats_eq _ channel images).2] at negative
    simp only [instanceNormRun, usedStats_eq_some divides, normPixel, if_pos negative]

theorem channelVar_nonneg (input : Nat → α) (d : NormDims) (ni ci : Nat) :
    0 ≤ channelVar input d ni ci :=
  div_nonneg (List.sum_nonneg (List.forall_mem_map.mpr fun _ _ => sq_nonneg _)) (Nat.cast_nonneg _)

omit [LinearOrder α] [IsStrictOrderedRing α] in
theorem channelVar_single (input : Nat → α) (single : d.h * d.w = 1) (ni ci : Nat) :
    channelVar input d ni ci = 0 := by
  simp [channelVar, channelMean, single]

omit [IsStrictOrderedRing α] in
/-- What a pixel becomes depends on the last image and the pixel. -/
theorem instanceNormRun_congr {input input' : Nat → α} {ni ci i : Nat} (channel : ci < d.c)
    (images : 0 < d.n) (here : input (d.pixel ni ci i) = input' (d.pixel ni ci i))
    (last : ∀ i < d.h * d.w,
      input (d.pixel (d.n - 1) ci i) = input' (d.pixel (d.n - 1) ci i)) :
    instanceNormRun sqrt input scale bias varianceEpsilon d ni ci i =
      instanceNormRun sqrt input' scale bias varianceEpsilon d ni ci i := by
  have mean : channelMean input d (d.n - 1) ci = channelMean input' d (d.n - 1) ci := by
    rw [channelMean, List.map_congr_left fun i member => last i (List.mem_range.mp member)]
    rfl
  have variance : channelVar input d (d.n - 1) ci = channelVar input' d (d.n - 1) ci := by
    rw [channelVar, mean, List.map_congr_left fun i member => by
      rw [last i (List.mem_range.mp member)]]
    rfl
  rw [← (gatherStats_eq _ channel images).1, ← (gatherStats_eq _ channel images).1] at mean
  rw [← (gatherStats_eq _ channel images).2, ← (gatherStats_eq _ channel images).2] at variance
  by_cases divides : scale 0 = 0
  · simp only [instanceNormRun, usedStats, if_pos divides]
  · simp only [instanceNormRun, usedStats_eq_some divides, normPixel, mean, variance, here]

/-- With several images and some pixels only negative numbers under the root hide the influence. -/
theorem ImagesIndependent.hidden (roots : ∀ v, 0 ≤ v → sqrt v * sqrt v = v)
    (independent : ImagesIndependent sqrt scale bias varianceEpsilon d) (several : 2 ≤ d.n)
    (channels : 0 < d.c) (pixels : 0 < d.h * d.w) (divides : scale 0 ≠ 0) :
    varianceEpsilon < 0 ∧ (d.h * d.w = 1 ∨ scale 0 < 0) := by
  have same := independent.firstPixel_eq sqrt scale bias varianceEpsilon divides several channels
    pixels
  obtain negative | nonneg := lt_or_ge varianceEpsilon 0
  · -- a last image of variance 0 makes every pixel nan, one of a large variance does not
    refine ⟨negative, or_iff_not_imp_left.mpr fun several_pixels => ?_⟩
    by_contra scale_nonneg
    have scale_pos : 0 < scale 0 := lt_of_le_of_ne (not_lt.mp scale_nonneg) (Ne.symm divides)
    obtain ⟨f, large⟩ := exists_variance
      (Nat.lt_of_le_of_ne pixels (Ne.symm several_pixels)) (-varianceEpsilon * scale 0)
    have root := (lt_div_iff₀ scale_pos).mpr large
    rw [← mul_one_div, neg_lt_iff_pos_add] at root
    have eq := same f fun _ => 0
    rw [firstPixel_const pixels, if_pos negative] at eq
    simp only [firstPixel, if_neg root.not_gt, if_neg root.ne'] at eq
    cases eq
  · -- the last image all 0 against all 1
    have inverse : 1 / scale 0 ≠ 0 := one_div_ne_zero divides
    have eq := same (fun _ => 0) fun _ => 1
    rw [firstPixel_const pixels, firstPixel_const pixels, if_neg nonneg.not_gt,
      if_neg nonneg.not_gt, zero_mul, one_mul, sub_zero, zero_sub] at eq
    obtain zero | positive := nonneg.eq_or_lt
    · rw [if_pos zero.symm, if_pos zero.symm, if_pos rfl, if_neg (neg_ne_zero.mpr inverse)] at eq
      cases eq
    · rw [if_neg positive.ne', if_neg positive.ne', NormValue.number.injEq, add_left_inj,
        zero_div, eq_comm, div_eq_zero_iff, neg_eq_zero, or_iff_right inverse] at eq
      have square := roots _ nonneg
      rw [eq, zero_mul] at square
      exact absurd square positive.ne

/-- Images do not influence each other exactly when there is at most one, when there is no pixel, or
    when all pixels are no numbers. -/
theorem imagesIndependent_iff (roots : ∀ v, 0 ≤ v → sqrt v * sqrt v = v) :
    ImagesIndependent sqrt scale bias varianceEpsilon d ↔
      d.n ≤ 1 ∨ d.c * (d.h * d.w) = 0 ∨ scale 0 = 0 ∨
        (varianceEpsilon < 0 ∧ (d.h * d.w = 1 ∨ scale 0 < 0)) := by
  constructor
  · intro independent
    refine or_iff_not_imp_left.mpr fun several => or_iff_not_imp_left.mpr fun some_pixel =>
      or_iff_not_imp_left.mpr fun divides => ?_
    exact independent.hidden roots (Nat.lt_of_not_le several)
      (Nat.pos_of_ne_zero (left_ne_zero_of_mul some_pixel))
      (Nat.pos_of_ne_zero (right_ne_zero_of_mul some_pixel)) divides
  · intro right input input' ni image agree ci channel i pixel
    have images : 0 < d.n := Nat.zero_lt_of_lt image
    obtain few | empty | zero | ⟨negative, single | scale_neg⟩ := right
    · obtain rfl : ni = d.n - 1 := by omega
      exact instanceNormRun_congr channel images (agree ci channel i pixel) (agree ci channel)
    · have some_pixel := Nat.mul_pos (Nat.zero_lt_of_lt channel) (Nat.zero_lt_of_lt pixel)
      exact absurd empty some_pixel.ne'
    · simp only [instanceNormRun, usedStats, if_pos zero]
    · rw [instanceNormRun_nan i channel images, instanceNormRun_nan i channel images] <;>
        rw [channelVar_single _ single, zero_mul, zero_add] <;> exact negative
    · have nan (input : Nat → α) :
          channelVar input d (d.n - 1) ci * (1 / scale 0) + varianceEpsilon < 0 :=
        add_neg_of_nonpos_of_neg (mul_nonpos_of_nonneg_of_nonpos (channelVar_nonneg input d _ ci)
          (one_div_neg.mpr scale_neg).le) negative
      rw [instanceNormRun_nan i channel images (nan input),
        instanceNormRun_nan i channel images (nan input')]

/-- Images are normalised by themselves under these conditions only: `my_in` leaves the statistics
    of the last image for all, and `my_bn` divides them by the first scale. -/
theorem instanceNorm_iff (sqrt : α → α) (roots : ∀ v, 0 ≤ v → sqrt v * sqrt v = v)
    (input scale bias : Nat → α) (varianceEpsilon : α) (d : NormDims) :
    (OwnStats input scale d ↔
      d.n * d.c * (d.h * d.w) = 0 ∨
      (scale 0 = 1 ∧ ∀ ni < d.n, ∀ ci < d.c,
        channelMean input d ni ci = channelMean input d (d.n - 1) ci ∧
          channelVar input d ni ci = channelVar input d (d.n - 1) ci) ∨
      (scale 0 ≠ 0 ∧ ∀ ni < d.n, ∀ ci < d.c, ∀ i < d.h * d.w, input (d.pixel ni ci i) = 0)) ∧
    (ImagesIndependent sqrt scale bias varianceEpsilon d ↔
      d.n ≤ 1 ∨ d.c * (d.h * d.w) = 0 ∨ scale 0 = 0 ∨
        (varianceEpsilon < 0 ∧ (d.h * d.w = 1 ∨ scale 0 < 0))) :=
  ⟨ownStats_iff, imagesIndependent_iff roots⟩

end

/-- In two images of two channels, all with the pixels 0 and 1, every channel gets its own mean and
    variance, but the second image still decides those of the first. -/
theorem instanceNorm_iff_twoImages :
    OwnStats (fun p => ((p % 2 : ℕ) : ℝ)) (fun _ => 1) ⟨2, 2, 1, 2⟩ ∧
      ¬ ImagesIndependent Real.sqrt (fun _ => 1) (fun _ => 0) (1 / 100000) ⟨2, 2, 1, 2⟩ := by
  obtain ⟨own, independent⟩ := instanceNorm_iff Real.sqrt (fun _ => Real.mul_self_sqrt)
    (fun p => ((p % 2 : ℕ) : ℝ)) (fun _ => 1) (fun _ => 0) (1 / 100000) ⟨2, 2, 1, 2⟩
  constructor
  · have same : ∀ ni ci i, (NormDims.pixel ⟨2, 2, 1, 2⟩ ni ci i) % 2 = i % 2 := by
      intro ni ci i
      simp only [NormDims.pixel]
      omega
    refine own.mpr (Or.inr (Or.inl ⟨rfl, fun ni _ ci _ => ?_⟩))
    constructor <;> simp only [channelMean, channelVar, same]
  · rw [independent]
    norm_num

/-- Two images of one pixel, 1 and 0: the mean of the first is taken to be 0. -/
theorem instanceNorm_twoImages :
    ¬ OwnStats (fun p => if p = 0 then (1 : ℝ) else 0) (fun _ => 1) ⟨2, 1, 1, 1⟩ ∧
      ¬ ImagesIndependent Real.sqrt (fun _ => 1) (fun _ => 0) (1 / 100000) ⟨2, 1, 1, 1⟩ := by
  constructor
  · intro own
    obtain ⟨st, used, mean, -⟩ := own 0 Nat.two_pos 0 Nat.one_pos 0 Nat.one_pos
    rw [usedStats_eq_some one_ne_zero] at used
    obtain rfl := Option.some.inj used
    simp [gatherStats, channelMean, NormDims.pixel, List.range_succ] at mean
  · rw [imagesIndependent_iff fun _ => Real.mul_self_sqrt]
    norm_num

end CviRuntime.CpuFunction
