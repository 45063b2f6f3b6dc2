import CviRuntime.Lib.MachineInt
import CviRuntime.Lib.Sampling
import CviRuntime.Lib.Scatter

/-!
# Sampling at a grid (`src/common/cpu_function/grid_sampler.cpp`)

Each output pixel reads the four neighbours of a point of the grid, or the nearest, in every
channel. A neighbour outside of the image counts as zero. With border and reflection padding the
points are moved into the image first. Coordinates are rational numbers here; what is made of them
as an `int` has to be in the range of one.
-/

namespace CviRuntime.CpuFunction

open CviRuntime.MachineInt CviRuntime.RowMajor CviRuntime.Sampling CviRuntime.Scatter

/-! ## Coordinates -/

/-- `clip_coordinates` (`grid_sampler.cpp:18-22`). -/
def clipCoordinates (x : ℚ) (clipLimit : Int) : ℚ := min ((clipLimit - 1 : Int) : ℚ) (max x 0)

/-- `std::fmod`: the rest has the sign of the first argument. -/
def fmod (x y : ℚ) : ℚ := x - toInt (x / y) * y

/-- `reflect_coordinates` (`grid_sampler.cpp:24-44`); `none` where `flips` is out of range. -/
def reflectCoordinates (x : ℚ) (twiceLow twiceHigh : Int) : Option ℚ :=
  if twiceLow = twiceHigh then some 0
  else do
    let low : ℚ := twiceLow / 2
    let span : ℚ := (twiceHigh - twiceLow : Int) / 2
    let x := |x - low|
    let extra := fmod x span
    let flips ← asInt ⌊x / span⌋
    return if flips % 2 = 0 then extra + low else span - extra + low

/-- From [-1, 1] to the index of a pixel (`grid_sampler.cpp:52-55`). -/
def unnormalize (coord : ℚ) (size : Nat) (alignCorners : Bool) : ℚ :=
  if alignCorners then (coord + 1) * (1 / 2) * ((size : ℚ) - 1)
  else ((coord + 1) * size - 1) * (1 / 2)

/-- `GridSamplerPaddingMode` (`grid_sampler.hpp:11-15`). -/
def gridSamplerZeros : Int := 0

def gridSamplerBorder : Int := 1

def gridSamplerReflection : Int := 2

/-- `computeIndex` (`grid_sampler.cpp:46-75`); `none` where the assertion fails, or an `int` is out
    of range. -/
def computeIndex (coord : ℚ) (size : Nat) (paddingMode : Int) (alignCorners : Bool) : Option ℚ :=
  let res := unnormalize coord size alignCorners
  if paddingMode = gridSamplerZeros then some res
  else if paddingMode = gridSamplerBorder then some (clipCoordinates res size)
  else if paddingMode = gridSamplerReflection then do
    let twiceHigh ← if alignCorners then asInt (2 * ((size : Int) - 1))
      else (asInt (2 * (size : Int))).map (· - 1)
    let res ← reflectCoordinates res (if alignCorners then 0 else -1) twiceHigh
    return clipCoordinates res size
  else none

/-! ## Pixels -/

/-- `txty`, `dxty`, `txdy` and `dxdy` (`grid_sampler.cpp:111-115`). -/
def cornerWeights (fx fy : ℚ) : List ℚ :=
  let dx := fx - ⌊fx⌋
  let dy := fy - ⌊fy⌋
  let tx := 1 - dx
  let ty := 1 - dy
  [tx * ty, dx * ty, tx * dy, dx * dy]

/-- The terms of `*oiter` in bilinear mode, for each plane (`grid_sampler.cpp:109-137`). `y * IW` is
    used for a `y` inside only. -/
def bilinearPixel (ih iw : Nat) (fx fy : ℚ) : Option (Int → List (Int × ℚ)) := do
  let x ← asInt ⌊fx⌋
  let y ← asInt ⌊fy⌋
  let weight (i : Nat) := (cornerWeights fx fy).getD i 0
  let yNext ← asInt (y + 1)
  let xNext ← asInt (x + 1)
  let yBound0 := 0 ≤ y ∧ y < ih
  let yBound1 := 0 ≤ yNext ∧ yNext < ih
  let xBound0 := 0 ≤ x ∧ x < iw
  let xBound1 := 0 ≤ xNext ∧ xNext < iw
  return fun input =>
    let iiter := input + (y * iw + x)
    (if yBound0 then
      (if xBound0 then [(iiter, weight 0)] else []) ++
        (if xBound1 then [(iiter + 1, weight 1)] else [])
    else []) ++
    (if yBound1 then
      (if xBound0 then [(iiter + iw, weight 2)] else []) ++
        (if xBound1 then [(iiter + (iw + 1), weight 3)] else [])
    else [])

/-- The term of `*oiter` in nearest mode, if any (`grid_sampler.cpp:159-166`). -/
def nearestPixel (ih iw : Nat) (fx fy : ℚ) : Option (Int → List (Int × ℚ)) := do
  let x ← asInt (stdRound fx)
  let y ← asInt (stdRound fy)
  return fun input =>
    if 0 ≤ y ∧ y < ih ∧ 0 ≤ x ∧ x < iw then [(input + (y * iw + x), 1)] else []

/-! ## The kernel -/

structure GridSampler where
  /-- 0 for bilinear and 1 for nearest -/
  mode : Int
  paddingMode : Int
  alignCorners : Bool
  inputShape : List Nat
  gridShape : List Nat

namespace GridSampler

variable (p : GridSampler)

def N : Nat := p.inputShape.getD 0 0

def C : Nat := p.inputShape.getD 1 0

def IH : Nat := p.inputShape.getD 2 0

def IW : Nat := p.inputShape.getD 3 0

def OH : Nat := p.gridShape.getD 1 0

def OW : Nat := p.gridShape.getD 2 0

/-- One pass over `h` and `w`, the `k`-th of an image: the coordinates, and for each channel the
    place in the output and the terms of the sum. Two values of the grid are taken in each pass, and
    the output advances by one. -/
def pass (grid : Nat → ℚ) (pixel : Nat → Nat → ℚ → ℚ → Option (Int → List (Int × ℚ))) (n k : Nat) :
    Option (List (Nat × List (Int × ℚ))) := do
  let fx ← computeIndex (grid (n * (2 * (p.OH * p.OW)) + 2 * k)) p.IW p.paddingMode p.alignCorners
  let fy ← computeIndex (grid (n * (2 * (p.OH * p.OW)) + 2 * k + 1)) p.IH p.paddingMode
    p.alignCorners
  let terms ← pixel p.IH p.IW fx fy
  return (List.range p.C).map fun (c : Nat) =>
    (n * (p.C * (p.OH * p.OW)) + k + c * (p.OH * p.OW),
      terms (n * (p.C * (p.IH * p.IW)) + c * (p.IH * p.IW)))

/-- The loops over the images and the pixels; `h` and `w` only count. -/
def loops (grid : Nat → ℚ) (pixel : Nat → Nat → ℚ → ℚ → Option (Int → List (Int × ℚ))) :
    Option (List (Nat × List (Int × ℚ))) := do
  let passes ← ((List.range p.N).flatMap fun n =>
    (List.range (p.OH * p.OW)).map fun k => (n, k)).mapM fun (n, k) => p.pass grid pixel n k
  return passes.flatten

/-- `GridSamplerFunc::run` (`grid_sampler.cpp:77-178`): for each place of the output the places that
    are read, with their weights; `none` where an assertion fails or an `int` is out of range. -/
def run (grid : Nat → ℚ) : Option (List (Nat × List (Int × ℚ))) := do
  guard ((p.gridShape.length = 4 ∧ p.gridShape.getD 3 0 = 2) ∨
    (p.gridShape.length = 5 ∧ p.gridShape.getD 4 0 = 3))
  if p.mode = 0 then p.loops grid bilinearPixel
  else if p.mode = 1 then p.loops grid nearestPixel
  else none

end GridSampler

/-! ## Reflection -/

/-- The spans between the bound and the coordinate can be counted in an `int`. -/
def Near (low high x : ℚ) : Prop := |x - low| / (high - low) < 2 ^ 31

/-- What reflecting between two bounds should do, for the coordinates that are near enough. -/
structure Reflects (f : ℚ → Option ℚ) (low high : ℚ) : Prop where
  inside : ∀ x, Near low high x → ∃ y, f x = some y ∧ low ≤ y ∧ y ≤ high
  identity : ∀ x, low ≤ x → x ≤ high → f x = some x
  even : ∀ t, f (low + t) = f (low - t)
  periodic : ∀ x, Near low high x → Near low high (x + 2 * (high - low)) →
    f (x + 2 * (high - low)) = f x

section

variable {x : ℚ} {twiceLow twiceHigh : Int}

theorem fmod_eq {y : ℚ} (natural : 0 ≤ x) (positive : 0 < y) : fmod x y = x - ⌊x / y⌋ * y := by
  rw [fmod, toInt_of_nonneg (div_nonneg natural positive.le)]

theorem span_pos (less : twiceLow < twiceHigh) : 0 < (twiceHigh : ℚ) / 2 - twiceLow / 2 := by
  have : (twiceLow : ℚ) < twiceHigh := by exact_mod_cast less
  linarith

/-- The number of flips is in range. -/
theorem Near.asInt_flips {low high : ℚ} (near : Near low high x) (less : low < high) :
    asInt ⌊|x - low| / (high - low)⌋ = some ⌊|x - low| / (high - low)⌋ := by
  apply asInt_of_fits
  have natural : 0 ≤ ⌊|x - low| / (high - low)⌋ :=
    Int.floor_nonneg.mpr (div_nonneg (abs_nonneg _) (sub_nonneg.mpr less.le))
  refine ⟨by omega, Int.floor_lt.mpr ?_⟩
  push_cast
  exact near

/-- The distance to the lower bound is folded into the span. -/
theorem reflectCoordinates_eq (less : twiceLow < twiceHigh)
    (near : Near (twiceLow / 2) (twiceHigh / 2) x) :
    reflectCoordinates x twiceLow twiceHigh =
      some (foldInto ((twiceHigh : ℚ) / 2 - twiceLow / 2) (x - twiceLow / 2) + twiceLow / 2) := by
  have span : ((twiceHigh - twiceLow : Int) : ℚ) / 2 = (twiceHigh : ℚ) / 2 - twiceLow / 2 := by
    push_cast
    ring
  have positive := span_pos less
  rw [← foldInto_abs positive, reflectCoordinates, if_neg less.ne]
  simp only [span, near.asInt_flips (sub_pos.mp positive), Option.bind_eq_bind, Option.bind_some,
    fmod_eq (abs_nonneg _) positive, foldInto]
  split
  · rfl
  · rfl

/-- Only the distance to the lower bound matters. -/
theorem reflectCoordinates_even (t : ℚ) :
    reflectCoordinates (twiceLow / 2 + t) twiceLow twiceHigh =
      reflectCoordinates (twiceLow / 2 - t) twiceLow twiceHigh := by
  have right : (twiceLow : ℚ) / 2 + t - twiceLow / 2 = t := by ring
  have left : (twiceLow : ℚ) / 2 - t - twiceLow / 2 = -t := by ring
  simp only [reflectCoordinates, right, left, abs_neg]

/-- Between the bounds there is at most one flip. -/
theorem near_of_mem {low high : ℚ} (above : low ≤ x) (below : x ≤ high) : Near low high x := by
  have inSpan : |x - low| ≤ high - low := by
    rw [abs_of_nonneg (sub_nonneg.mpr above)]
    linarith
  have one : |x - low| / (high - low) ≤ 1 :=
    div_le_one_of_le₀ inSpan (sub_nonneg.mpr (above.trans below))
  exact one.trans_lt (by norm_num)

theorem reflects_of_lt (less : twiceLow < twiceHigh) :
    Reflects (reflectCoordinates · twiceLow twiceHigh) (twiceLow / 2) (twiceHigh / 2) := by
  have positive := span_pos less
  refine ⟨fun x near => ?_, fun x above below => ?_, reflectCoordinates_even,
    fun x near near' => ?_⟩
  · obtain ⟨low, high⟩ := foldInto_bounds (t := x - twiceLow / 2) positive
    exact ⟨_, reflectCoordinates_eq less near, by linarith, by linarith⟩
  · rw [reflectCoordinates_eq less (near_of_mem above below),
      foldInto_of_mem positive (by linarith) (by linarith), sub_add_cancel]
  · have later : x + 2 * ((twiceHigh : ℚ) / 2 - twiceLow / 2) - twiceLow / 2 =
        x - twiceLow / 2 + (((twiceHigh : ℚ) / 2 - twiceLow / 2) +
          ((twiceHigh : ℚ) / 2 - twiceLow / 2)) := by
      ring
    rw [reflectCoordinates_eq less near', reflectCoordinates_eq less near, later,
      foldInto_add positive]

/-- Between equal bounds everything is 0, which is right where the bounds are. -/
theorem reflects_zero : Reflects (reflectCoordinates · 0 0) ((0 : Int) / 2) ((0 : Int) / 2) := by
  have zero : ∀ x, reflectCoordinates x 0 0 = some 0 := fun x => if_pos rfl
  refine ⟨fun x _ => ⟨0, zero x, ?_⟩, fun x above below => ?_, fun t => ?_, fun x _ _ => ?_⟩
  · simp
  · rw [zero]
    simp only [Int.cast_zero, zero_div] at above below
    rw [le_antisymm above below]
  · rw [zero, zero]
  · rw [zero, zero]

/-- The bounds of `computeIndex` (`grid_sampler.cpp:63-67`). -/
def reflectBounds (size : Nat) (alignCorners : Bool) : Int × Int :=
  if alignCorners then (0, 2 * ((size : Int) - 1)) else (-1, 2 * (size : Int) - 1)

theorem reflects_bounds {size : Nat} (alignCorners : Bool) (positive : 1 ≤ size) :
    Reflects (reflectCoordinates · (reflectBounds size alignCorners).1
        (reflectBounds size alignCorners).2)
      ((reflectBounds size alignCorners).1 / 2) ((reflectBounds size alignCorners).2 / 2) := by
  cases alignCorners with
  | false =>
    apply reflects_of_lt
    change (-1 : Int) < 2 * (size : Int) - 1
    omega
  | true =>
    cases Nat.eq_or_lt_of_le positive with
    | inl one =>
      subst one
      exact reflects_zero
    | inr more =>
      apply reflects_of_lt
      change (0 : Int) < 2 * ((size : Int) - 1)
      omega

end

/-! ## Coordinates inside the image -/

section

variable {x : ℚ} {size : Nat}

theorem clipCoordinates_bounds (positive : 1 ≤ size) :
    0 ≤ clipCoordinates x size ∧ clipCoordinates x size ≤ size - 1 := by
  have last : (0 : ℚ) ≤ size - 1 := by
    have : (1 : ℚ) ≤ size := by exact_mod_cast positive
    linarith
  unfold clipCoordinates
  push_cast
  exact ⟨le_min last (le_max_right _ _), min_le_left _ _⟩

theorem clipCoordinates_of_mem (low : 0 ≤ x) (high : x ≤ size - 1) :
    clipCoordinates x size = x := by
  unfold clipCoordinates
  push_cast
  rw [max_eq_left low, min_eq_right high]

/-- The conversions to `int` are defined for a coordinate of the grid: with zero padding the point
    is in the range of an `int`, with its neighbour, and with reflection the flips are. -/
structure Convertible (coord : ℚ) (size : Nat) (paddingMode : Int) (alignCorners : Bool) : Prop
    where
  zeros : paddingMode = gridSamplerZeros → -2 ^ 31 ≤ unnormalize coord size alignCorners ∧
    unnormalize coord size alignCorners < 2 ^ 31 - 1
  reflection : paddingMode = gridSamplerReflection →
    Near ((reflectBounds size alignCorners).1 / 2) ((reflectBounds size alignCorners).2 / 2)
      (unnormalize coord size alignCorners)

/-- The reflection of `computeIndex`, with bounds that are in range. -/
theorem computeIndex_reflection (coord : ℚ) (alignCorners : Bool) (positive : 1 ≤ size)
    (small : size < 2 ^ 30) :
    computeIndex coord size gridSamplerReflection alignCorners =
      (reflectCoordinates (unnormalize coord size alignCorners)
        (reflectBounds size alignCorners).1 (reflectBounds size alignCorners).2).map
          (clipCoordinates · size) := by
  have other : gridSamplerReflection ≠ gridSamplerZeros := by decide
  have other' : gridSamplerReflection ≠ gridSamplerBorder := by decide
  unfold computeIndex
  rw [if_neg other, if_neg other', if_pos rfl]
  cases alignCorners with
  | false =>
    have twice : asInt (2 * (size : Int)) = some (2 * (size : Int)) :=
      asInt_of_fits ⟨by omega, by omega⟩
    simp only [Bool.false_eq_true, if_false, twice, Option.map_some, Option.bind_eq_bind,
      Option.bind_some]
    exact Option.map_eq_bind.symm
  | true =>
    have twice : asInt (2 * ((size : Int) - 1)) = some (2 * ((size : Int) - 1)) :=
      asInt_of_fits ⟨by omega, by omega⟩
    simp only [if_true, twice, Option.bind_eq_bind, Option.bind_some]
    exact Option.map_eq_bind.symm

/-- With border and reflection padding the index is inside the image, and is the coordinate where
    that is. -/
theorem computeIndex_inside {coord : ℚ} {alignCorners : Bool} {paddingMode : Int}
    (positive : 1 ≤ size) (small : size < 2 ^ 30)
    (moved : paddingMode = gridSamplerBorder ∨ paddingMode = gridSamplerReflection)
    (convertible : Convertible coord size paddingMode alignCorners) :
    ∃ res, computeIndex coord size paddingMode alignCorners = some res ∧ 0 ≤ res ∧
      res ≤ size - 1 ∧
      (0 ≤ unnormalize coord size alignCorners → unnormalize coord size alignCorners ≤ size - 1 →
        res = unnormalize coord size alignCorners) := by
  cases moved with
  | inl border =>
    subst border
    obtain ⟨low, high⟩ := clipCoordinates_bounds
      (x := unnormalize coord size alignCorners) positive
    exact ⟨_, rfl, low, high, clipCoordinates_of_mem⟩
  | inr reflection =>
    subst reflection
    have reflects := reflects_bounds alignCorners positive
    obtain ⟨reflected, value, -, -⟩ := reflects.inside _ (convertible.reflection rfl)
    obtain ⟨low, high⟩ := clipCoordinates_bounds (x := reflected) positive
    refine ⟨clipCoordinates reflected size, ?_, low, high, fun above below => ?_⟩
    · rw [computeIndex_reflection coord alignCorners positive small, value]
      rfl
    · have kept := reflects.identity (unnormalize coord size alignCorners)
      have bounds : ((reflectBounds size alignCorners).1 : ℚ) / 2 ≤ 0 ∧
          (size : ℚ) - 1 ≤ (reflectBounds size alignCorners).2 / 2 := by
        cases alignCorners with
        | false =>
          simp only [reflectBounds]
          push_cast
          exact ⟨by norm_num, by linarith⟩
        | true =>
          simp only [reflectBounds, if_true]
          push_cast
          exact ⟨by norm_num, by linarith⟩
      have same := kept (bounds.1.trans above) (below.trans bounds.2)
      rw [Option.some.inj (value.symm.trans same), clipCoordinates_of_mem above below]

/-- The point and its neighbour are in the range of an `int`. -/
def InRange (x : ℚ) : Prop := -2 ^ 31 ≤ x ∧ x < 2 ^ 31 - 1

theorem exists_computeIndex {coord : ℚ} {alignCorners : Bool} {paddingMode : Int}
    (positive : 1 ≤ size) (small : size < 2 ^ 30)
    (known : paddingMode = gridSamplerZeros ∨ paddingMode = gridSamplerBorder ∨
      paddingMode = gridSamplerReflection)
    (convertible : Convertible coord size paddingMode alignCorners) :
    ∃ res, computeIndex coord size paddingMode alignCorners = some res ∧ InRange res := by
  rcases known with zeros | moved
  · subst zeros
    exact ⟨_, rfl, convertible.zeros rfl⟩
  · obtain ⟨res, index, low, high, -⟩ := computeIndex_inside positive small moved convertible
    have size_lt : (size : ℚ) < 2 ^ 30 := by exact_mod_cast small
    exact ⟨res, index, by linarith, by linarith⟩

end

/-! ## Reads -/

section

variable {ih iw : Nat} {fx fy : ℚ} {input : Int}

theorem InRange.floor {x : ℚ} (inRange : InRange x) :
    asInt ⌊x⌋ = some ⌊x⌋ ∧ asInt (⌊x⌋ + 1) = some (⌊x⌋ + 1) := by
  obtain ⟨low, high⟩ := inRange
  have above : -2 ^ 31 ≤ ⌊x⌋ := Int.le_floor.mpr (by push_cast; exact low)
  have below : ⌊x⌋ < 2 ^ 31 - 1 := Int.floor_lt.mpr (by push_cast; linarith)
  exact ⟨asInt_of_fits ⟨above, by omega⟩, asInt_of_fits ⟨by omega, by omega⟩⟩

theorem InRange.stdRound {x : ℚ} (inRange : InRange x) :
    asInt (stdRound x) = some (stdRound x) := by
  obtain ⟨low, high⟩ := inRange
  apply asInt_of_fits
  unfold Sampling.stdRound
  split
  · refine ⟨Int.le_floor.mpr ?_, Int.floor_lt.mpr ?_⟩
    · push_cast
      linarith
    · push_cast
      linarith
  · have above : (-2 ^ 31 - 1 : Int) < ⌈x - 1 / 2⌉ := Int.lt_ceil.mpr (by push_cast; linarith)
    have below : ⌈x - 1 / 2⌉ ≤ (2 ^ 31 - 1 : Int) := Int.ceil_le.mpr (by push_cast; linarith)
    exact ⟨by omega, by omega⟩

/-- The place of a pixel in the plane at `input`. -/
def planePlace (iw : Nat) (input : Int) (place : Int × Int) : Int :=
  input + (place.1 * iw + place.2)

/-- The four weights are those of the four neighbours. -/
theorem cornerWeights_eq (fx fy : ℚ) :
    cornerWeights fx fy = (bilinearTaps fy fx).map Prod.snd := rfl

/-- They are a sample. -/
theorem cornerWeights_convex (fx fy : ℚ) :
    (∀ weight ∈ cornerWeights fx fy, 0 ≤ weight) ∧ (cornerWeights fx fy).sum = 1 := by
  have convex := convex_bilinearTaps fy fx
  rw [cornerWeights_eq]
  refine ⟨fun weight member => ?_, convex.one⟩
  obtain ⟨t, inTaps, rfl⟩ := List.mem_map.mp member
  exact convex.nonneg t inTaps

/-- A check of the row around two checks of the column. -/
theorem row_checks {α : Type*} (y x x' : Prop) [Decidable y] [Decidable x] [Decidable x']
    (left right : List α) :
    (if y then (if x then left else []) ++ (if x' then right else []) else []) =
      (if y ∧ x then left else []) ++ (if y ∧ x' then right else []) := by
  by_cases row : y
  · simp only [row, true_and, if_true]
  · simp only [row, false_and, if_false, List.append_nil]

theorem relocate_filter_cons (place : Int × Int → Int) (t : (Int × Int) × ℚ)
    (taps : List ((Int × Int) × ℚ)) :
    relocate place ((t :: taps).filter fun t => inPlane ih iw t.1) =
      (if inPlane ih iw t.1 then [(place t.1, t.2)] else []) ++
        relocate place (taps.filter fun t => inPlane ih iw t.1) := by
  rw [List.filter_cons]
  split
  · rfl
  · rfl

/-- What a pixel reads: the corners around its point that are inside the image, where the others
    count as zero. -/
def inCorners (ih iw : Nat) (corners : List ((Int × Int) × ℚ)) (input : Int) : List (Int × ℚ) :=
  relocate (planePlace iw input) (corners.filter fun t => inPlane ih iw t.1)

theorem bilinearPixel_eq (x : InRange fx) (y : InRange fy) :
    bilinearPixel ih iw fx fy = some (inCorners ih iw (bilinearTaps fy fx)) := by
  have terms : bilinearPixel ih iw fx fy = some fun input =>
      (if 0 ≤ ⌊fy⌋ ∧ ⌊fy⌋ < ih then
        (if 0 ≤ ⌊fx⌋ ∧ ⌊fx⌋ < iw then
          [(input + (⌊fy⌋ * iw + ⌊fx⌋), (cornerWeights fx fy).getD 0 0)] else []) ++
          (if 0 ≤ ⌊fx⌋ + 1 ∧ ⌊fx⌋ + 1 < iw then
            [(input + (⌊fy⌋ * iw + ⌊fx⌋) + 1, (cornerWeights fx fy).getD 1 0)] else [])
      else []) ++
      (if 0 ≤ ⌊fy⌋ + 1 ∧ ⌊fy⌋ + 1 < ih then
        (if 0 ≤ ⌊fx⌋ ∧ ⌊fx⌋ < iw then
          [(input + (⌊fy⌋ * iw + ⌊fx⌋) + iw, (cornerWeights fx fy).getD 2 0)] else []) ++
          (if 0 ≤ ⌊fx⌋ + 1 ∧ ⌊fx⌋ + 1 < iw then
            [(input + (⌊fy⌋ * iw + ⌊fx⌋) + (iw + 1), (cornerWeights fx fy).getD 3 0)] else [])
      else []) := by
    unfold bilinearPixel
    rw [x.floor.1, y.floor.1]
    simp only [Option.bind_eq_bind, Option.bind_some, x.floor.2, y.floor.2]
    rfl
  rw [terms]
  refine congrArg some (funext fun input => ?_)
  have here : input + (⌊fy⌋ * iw + ⌊fx⌋) = planePlace iw input (⌊fy⌋, ⌊fx⌋) := rfl
  have right : planePlace iw input (⌊fy⌋, ⌊fx⌋) + 1 = planePlace iw input (⌊fy⌋, ⌊fx⌋ + 1) := by
    unfold planePlace
    ring
  have below : planePlace iw input (⌊fy⌋, ⌊fx⌋) + iw = planePlace iw input (⌊fy⌋ + 1, ⌊fx⌋) := by
    unfold planePlace
    ring
  have across : planePlace iw input (⌊fy⌋, ⌊fx⌋) + (iw + 1) =
      planePlace iw input (⌊fy⌋ + 1, ⌊fx⌋ + 1) := by
    unfold planePlace
    ring
  simp only [here, right, below, across]
  simp only [row_checks, List.append_assoc]
  simp only [inCorners, bilinearTaps, cross, linearTaps, List.flatMap_cons, List.flatMap_nil,
    List.map_cons, List.map_nil, List.append_nil, List.cons_append, List.nil_append,
    relocate_filter_cons]
  simp only [inPlane, decide_eq_true_eq, List.filter_nil]
  simp [relocate, cornerWeights]

theorem nearestPixel_eq (x : InRange fx) (y : InRange fy) :
    nearestPixel ih iw fx fy = some (inCorners ih iw [((stdRound fy, stdRound fx), 1)]) := by
  unfold nearestPixel
  rw [x.stdRound, y.stdRound]
  refine congrArg some (funext fun input => ?_)
  rw [inCorners, relocate_filter_cons]
  simp only [inPlane, decide_eq_true_eq, and_assoc]
  exact (List.append_nil _).symm

/-- All places that are read lie in the plane at `input`. -/
theorem mem_inCorners {corners : List ((Int × Int) × ℚ)} {t : Int × ℚ}
    (member : t ∈ inCorners ih iw corners input) :
    ∃ y < ih, ∃ x < iw, t.1 = input + ((y : Int) * iw + x) := by
  obtain ⟨⟨⟨y, x⟩, weight⟩, inFilter, rfl⟩ := List.mem_map.mp member
  obtain ⟨-, inside⟩ := List.mem_filter.mp inFilter
  obtain ⟨⟨yLow, yHigh⟩, xLow, xHigh⟩ :
    (0 ≤ y ∧ y < ih) ∧ (0 ≤ x ∧ x < iw) := of_decide_eq_true inside
  refine ⟨y.toNat, by omega, x.toNat, by omega, ?_⟩
  change planePlace iw input (y, x) = _
  rw [planePlace, Int.toNat_of_nonneg yLow, Int.toNat_of_nonneg xLow]

end

/-! ## All passes -/

namespace GridSampler

/-- The modes and shapes for which no assertion fails, and images with sizes that can be doubled in
    an `int`. -/
structure Accepted (p : GridSampler) : Prop where
  mode : p.mode = 0 ∨ p.mode = 1
  paddingMode : p.paddingMode = gridSamplerZeros ∨ p.paddingMode = gridSamplerBorder ∨
    p.paddingMode = gridSamplerReflection
  gridShape : (p.gridShape.length = 4 ∧ p.gridShape.getD 3 0 = 2) ∨
    (p.gridShape.length = 5 ∧ p.gridShape.getD 4 0 = 3)
  height : 1 ≤ p.IH ∧ p.IH < 2 ^ 30
  width : 1 ≤ p.IW ∧ p.IW < 2 ^ 30

/-- The value of the grid for a pixel: that of its column (`axis` 0) or of its row (`axis` 1). -/
def gridValue (p : GridSampler) (grid : Nat → ℚ) (n h w axis : Nat) : ℚ :=
  grid (flat [p.N, p.OH, p.OW, 2] [n, h, w, axis])

/-- The size of the image along an axis. -/
def axisSize (p : GridSampler) (axis : Nat) : Nat := if axis = 0 then p.IW else p.IH

/-- The conversions to `int` are defined for all values of the grid. -/
def Converts (p : GridSampler) (grid : Nat → ℚ) : Prop :=
  ∀ n < p.N, ∀ h < p.OH, ∀ w < p.OW, ∀ axis < 2,
    Convertible (p.gridValue grid n h w axis) (p.axisSize axis) p.paddingMode p.alignCorners

/-- The corners around a point, with their weights. -/
def corners (p : GridSampler) (fx fy : ℚ) : List ((Int × Int) × ℚ) :=
  if p.mode = 0 then bilinearTaps fy fx else [((stdRound fy, stdRound fx), 1)]

/-- What a pixel of a channel is: at the point that the grid names, a sample of corners with weights
    that are not negative and sum to one, of which those inside the image are read, in the plane of
    this image and channel. -/
def Samples (p : GridSampler) (grid : Nat → ℚ) (n c h w : Nat) (taps : List (Int × ℚ)) : Prop :=
  ∃ fx fy, computeIndex (p.gridValue grid n h w 0) p.IW p.paddingMode p.alignCorners = some fx ∧
    computeIndex (p.gridValue grid n h w 1) p.IH p.paddingMode p.alignCorners = some fy ∧
    Convex (p.corners fx fy) ∧
    taps = inCorners p.IH p.IW (p.corners fx fy) (flat [p.N, p.C, p.IH, p.IW] [n, c, 0, 0] : Nat) ∧
    ∀ t ∈ taps, ∃ y < p.IH, ∃ x < p.IW, t.1 = flat [p.N, p.C, p.IH, p.IW] [n, c, y, x]

/-- What a kernel writes: each place of the output once, with its sample. -/
structure SamplesPlanes (p : GridSampler) (grid : Nat → ℚ) (moves : List (Nat × List (Int × ℚ))) :
    Prop where
  writes : (moves.map Prod.fst).Perm (List.range [p.N, p.C, p.OH, p.OW].prod)
  samples : ∀ move ∈ moves, ∃ n < p.N, ∃ c < p.C, ∃ h < p.OH, ∃ w < p.OW,
    move.1 = flat [p.N, p.C, p.OH, p.OW] [n, c, h, w] ∧ p.Samples grid n c h w move.2

variable {p : GridSampler} {grid : Nat → ℚ}
  {pixel : Nat → Nat → ℚ → ℚ → Option (Int → List (Int × ℚ))} {n k c : Nat}

theorem convex_corners (p : GridSampler) (fx fy : ℚ) : Convex (p.corners fx fy) := by
  unfold corners
  split
  · exact convex_bilinearTaps fy fx
  · exact convex_single _

/-- The two coordinates of a pass. -/
def coordinate (p : GridSampler) (grid : Nat → ℚ) (n k axis : Nat) : ℚ :=
  (computeIndex (grid (n * (2 * (p.OH * p.OW)) + 2 * k + axis)) (p.axisSize axis) p.paddingMode
    p.alignCorners).getD 0

/-- The row and the column of the `k`-th pixel. -/
theorem row_lt (hk : k < p.OH * p.OW) : k / p.OW < p.OH ∧ k % p.OW < p.OW := by
  have width : 0 < p.OW := Nat.pos_of_ne_zero fun zero => by
    rw [zero, Nat.mul_zero] at hk
    exact Nat.not_lt_zero k hk
  exact ⟨Nat.div_lt_of_lt_mul (Nat.mul_comm p.OH p.OW ▸ hk), Nat.mod_lt k width⟩

/-- The place in the grid that a pass has come to. -/
theorem grid_place (grid : Nat → ℚ) (n k axis : Nat) :
    grid (n * (2 * (p.OH * p.OW)) + 2 * k + axis) =
      p.gridValue grid n (k / p.OW) (k % p.OW) axis := by
  have split := Nat.div_add_mod' k p.OW
  unfold gridValue
  congr 1
  simp only [flat, List.prod_cons, List.prod_nil]
  calc n * (2 * (p.OH * p.OW)) + 2 * k + axis
      = n * (2 * (p.OH * p.OW)) + 2 * (k / p.OW * p.OW + k % p.OW) + axis := by rw [split]
    _ = _ := by ring

theorem coordinate_eq (accepted : p.Accepted) (converts : p.Converts grid) (hn : n < p.N)
    (hk : k < p.OH * p.OW) {axis : Nat} (isAxis : axis < 2) :
    computeIndex (p.gridValue grid n (k / p.OW) (k % p.OW) axis) (p.axisSize axis) p.paddingMode
        p.alignCorners = some (p.coordinate grid n k axis) ∧
      InRange (p.coordinate grid n k axis) := by
  obtain ⟨row, column⟩ := row_lt hk
  have size : 1 ≤ p.axisSize axis ∧ p.axisSize axis < 2 ^ 30 := by
    unfold axisSize
    split
    · exact accepted.width
    · exact accepted.height
  obtain ⟨res, index, inRange⟩ := exists_computeIndex size.1 size.2 accepted.paddingMode
    (converts n hn _ row _ column axis isAxis)
  have value : p.coordinate grid n k axis = res := by
    rw [coordinate, grid_place grid n k axis, index, Option.getD_some]
  rw [value]
  exact ⟨index, inRange⟩

/-- The pixels of a mode are made of the corners of this mode. -/
def PixelOf (p : GridSampler) (pixel : Nat → Nat → ℚ → ℚ → Option (Int → List (Int × ℚ))) : Prop :=
  ∀ ih iw fx fy, InRange fx → InRange fy →
    pixel ih iw fx fy = some (inCorners ih iw (p.corners fx fy))

/-- What a pass makes of a channel. -/
def move (p : GridSampler) (grid : Nat → ℚ) (n k c : Nat) : Nat × List (Int × ℚ) :=
  (n * (p.C * (p.OH * p.OW)) + k + c * (p.OH * p.OW),
    inCorners p.IH p.IW (p.corners (p.coordinate grid n k 0) (p.coordinate grid n k 1))
      (n * (p.C * (p.IH * p.IW)) + c * (p.IH * p.IW)))

theorem pass_eq (accepted : p.Accepted) (converts : p.Converts grid) (pixelOf : p.PixelOf pixel)
    (hn : n < p.N) (hk : k < p.OH * p.OW) :
    p.pass grid pixel n k = some ((List.range p.C).map (p.move grid n k)) := by
  obtain ⟨atX, inX⟩ := coordinate_eq accepted converts hn hk Nat.zero_lt_two
  obtain ⟨atY, inY⟩ := coordinate_eq accepted converts hn hk Nat.one_lt_two
  have x : computeIndex (grid (n * (2 * (p.OH * p.OW)) + 2 * k)) p.IW p.paddingMode
      p.alignCorners = some (p.coordinate grid n k 0) := by
    rw [← atX, ← grid_place]
    rfl
  have y : computeIndex (grid (n * (2 * (p.OH * p.OW)) + 2 * k + 1)) p.IH p.paddingMode
      p.alignCorners = some (p.coordinate grid n k 1) := by
    rw [← atY, ← grid_place]
    rfl
  unfold pass
  rw [x, y]
  simp only [Option.bind_eq_bind, Option.bind_some, pixelOf _ _ _ _ inX inY]
  rfl

theorem mapM_eq_map {α β : Type} {f : α → Option β} {g : α → β} {xs : List α}
    (defined : ∀ x ∈ xs, f x = some (g x)) : xs.mapM f = some (xs.map g) := by
  induction xs with
  | nil => rfl
  | cons x xs ih =>
    obtain ⟨first, rest⟩ := List.forall_mem_cons.mp defined
    rw [List.mapM_cons, first, ih rest]
    rfl

/-- The passes for all indices: image, pixel and channel. -/
theorem loops_eq (accepted : p.Accepted) (converts : p.Converts grid)
    (pixelOf : p.PixelOf pixel) :
    p.loops grid pixel = some ((indices [p.N, p.OH * p.OW, p.C]).map fun index =>
      p.move grid (index.getD 0 0) (index.getD 1 0) (index.getD 2 0)) := by
  have passes : ((List.range p.N).flatMap fun n =>
      (List.range (p.OH * p.OW)).map fun k => (n, k)).mapM (fun (n, k) => p.pass grid pixel n k) =
        some (((List.range p.N).flatMap fun n => (List.range (p.OH * p.OW)).map fun k =>
          (n, k)).map fun (n, k) => (List.range p.C).map (p.move grid n k)) := by
    apply mapM_eq_map
    rintro ⟨n, k⟩ member
    simp only [List.mem_flatMap, List.mem_map, List.mem_range, Prod.mk.injEq] at member
    obtain ⟨n', hn, k', hk, rfl, rfl⟩ := member
    exact pass_eq accepted converts pixelOf hn hk
  unfold loops
  rw [passes]
  change some (List.flatten (List.map _ _)) = _
  rw [← List.flatMap_def]
  simp [flatMap_singleton_range, List.flatMap_map, List.flatMap_assoc]

/-- The place that a pass writes for a channel. -/
theorem output_place {n k c : Nat} :
    n * (p.C * (p.OH * p.OW)) + k + c * (p.OH * p.OW) =
      flat [p.N, p.C, p.OH * p.OW] [n, c, k] := by
  simp only [flat, List.prod_cons, List.prod_nil]
  ring

/-- The sample that a pass takes for a channel. -/
theorem samples_move (accepted : p.Accepted) (converts : p.Converts grid) (hn : n < p.N)
    (hk : k < p.OH * p.OW) :
    p.Samples grid n c (k / p.OW) (k % p.OW) (p.move grid n k c).2 := by
  have plane : ((n : Int) * (p.C * (p.IH * p.IW)) + c * (p.IH * p.IW)) =
      (flat [p.N, p.C, p.IH, p.IW] [n, c, 0, 0] : Nat) := by
    simp only [flat, List.prod_cons, List.prod_nil]
    push_cast
    ring
  refine ⟨_, _, (coordinate_eq accepted converts hn hk Nat.zero_lt_two).1,
    (coordinate_eq accepted converts hn hk Nat.one_lt_two).1, convex_corners p _ _, ?_,
    fun t inTaps => ?_⟩
  · rw [move, plane]
  · obtain ⟨y, hy, x, hx, place⟩ := mem_inCorners inTaps
    refine ⟨y, hy, x, hx, place.trans ?_⟩
    simp only [flat, List.prod_cons, List.prod_nil]
    push_cast
    ring

theorem loops_samplesPlanes (accepted : p.Accepted) (converts : p.Converts grid)
    (pixelOf : p.PixelOf pixel) :
    ∃ moves, p.loops grid pixel = some moves ∧ p.SamplesPlanes grid moves := by
  refine ⟨_, loops_eq accepted converts pixelOf, ?_, ?_⟩
  · refine perm_range_of_onto ?_ fun q less => ?_
    · simp only [List.length_map, length_indices, List.prod_cons, List.prod_nil]
      exact le_of_eq (by ring)
    · have same : [p.N, p.C, p.OH, p.OW].prod = [p.N, p.C, p.OH * p.OW].prod := by
        simp only [List.prod_cons, List.prod_nil]
        ring
      rw [same] at less
      obtain ⟨index, inside, rfl⟩ := exists_index less
      obtain ⟨n, c, k, rfl⟩ := List.length_eq_three.mp inside.1
      simp only [inside_cons] at inside
      obtain ⟨hn, hc, hk, -⟩ := inside
      rw [List.map_map]
      refine List.mem_map.mpr ⟨[n, k, c], ?_, output_place⟩
      rw [mem_indices]
      exact inside_triple.mpr ⟨hn, hk, hc⟩
  · intro move member
    obtain ⟨index, inLoops, rfl⟩ := List.mem_map.mp member
    have inside := mem_indices.mp inLoops
    obtain ⟨n, k, c, rfl⟩ := List.length_eq_three.mp inside.1
    simp only [inside_cons] at inside
    obtain ⟨hn, hk, hc, -⟩ := inside
    obtain ⟨row, column⟩ := row_lt hk
    refine ⟨n, hn, c, hc, k / p.OW, row, k % p.OW, column, ?_,
      samples_move accepted converts hn hk⟩
    have split := Nat.div_add_mod' k p.OW
    apply output_place.trans
    simp only [flat, List.prod_cons, List.prod_nil]
    calc n * (p.C * (p.OH * p.OW * 1)) + (c * (p.OH * p.OW * 1) + (k * 1 + 0))
        = n * (p.C * (p.OH * p.OW * 1)) +
            (c * (p.OH * p.OW * 1) + (k / p.OW * p.OW + k % p.OW)) := by rw [split]; ring
      _ = _ := by ring

theorem run_samplesPlanes (accepted : p.Accepted) (converts : p.Converts grid) :
    ∃ moves, p.run grid = some moves ∧ p.SamplesPlanes grid moves := by
  have started : p.run grid =
      if p.mode = 0 then p.loops grid bilinearPixel
      else if p.mode = 1 then p.loops grid nearestPixel
      else none := by
    unfold run
    rw [guard, if_pos accepted.gridShape]
    rfl
  rw [started]
  cases accepted.mode with
  | inl bilinear =>
    rw [if_pos bilinear]
    refine loops_samplesPlanes accepted converts fun ih iw fx fy inX inY => ?_
    rw [corners, if_pos bilinear, bilinearPixel_eq inX inY]
  | inr nearest =>
    have notBilinear : p.mode ≠ 0 := by omega
    rw [if_neg notBilinear, if_pos nearest]
    refine loops_samplesPlanes accepted converts fun ih iw fx fy inX inY => ?_
    rw [corners, if_neg notBilinear, nearestPixel_eq inX inY]

end GridSampler

open GridSampler

/-- The coordinates, the reads and the weights of grid sampling, as far as the conversions to `int`
    are defined. -/
theorem gridSampler_samples :
    (∀ size ≥ 1, ∀ alignCorners, Reflects
      (reflectCoordinates · (reflectBounds size alignCorners).1
        (reflectBounds size alignCorners).2)
      ((reflectBounds size alignCorners).1 / 2) ((reflectBounds size alignCorners).2 / 2)) ∧
    (∀ coord, ∀ size ≥ 1, size < 2 ^ 30 → ∀ alignCorners paddingMode,
      paddingMode = gridSamplerBorder ∨ paddingMode = gridSamplerReflection →
        Convertible coord size paddingMode alignCorners →
        ∃ res, computeIndex coord size paddingMode alignCorners = some res ∧ 0 ≤ res ∧
          res ≤ size - 1 ∧
          (0 ≤ unnormalize coord size alignCorners →
            unnormalize coord size alignCorners ≤ size - 1 →
            res = unnormalize coord size alignCorners)) ∧
    (∀ (p : GridSampler) (grid : Nat → ℚ), p.Accepted → p.Converts grid →
      ∃ moves, p.run grid = some moves ∧ p.SamplesPlanes grid moves) ∧
    ∀ fx fy, cornerWeights fx fy = (bilinearTaps fy fx).map Prod.snd ∧
      (∀ weight ∈ cornerWeights fx fy, 0 ≤ weight) ∧ (cornerWeights fx fy).sum = 1 :=
  ⟨fun _ positive alignCorners => reflects_bounds alignCorners positive,
    fun _ _ positive small _ _ moved convertible =>
      computeIndex_inside positive small moved convertible,
    fun _ _ accepted converts => run_samplesPlanes accepted converts,
    fun fx fy => ⟨cornerWeights_eq fx fy, cornerWeights_convex fx fy⟩⟩

/-- Two pixels of an image of 2 x 2, one at a corner and one outside of it. -/
def reflected : GridSampler := ⟨0, 2, false, [1, 1, 2, 2], [1, 1, 2, 2]⟩

theorem converts_reflected : reflected.Converts fun i => i := by
  intro n hn h hh w hw axis isAxis
  refine ⟨fun zeros => absurd zeros (by decide), fun _ => ?_⟩
  obtain rfl := Nat.lt_one_iff.mp hn
  obtain rfl := Nat.lt_one_iff.mp hh
  have column : w = 0 ∨ w = 1 := by
    change w < 2 at hw
    omega
  have isAxis : axis = 0 ∨ axis = 1 := by omega
  rcases column with rfl | rfl <;> rcases isAxis with rfl | rfl <;>
    norm_num [Near, reflectBounds, unnormalize, gridValue, axisSize, reflected, flat, N, OH, OW,
      IH, IW]

theorem gridSampler_samples_reflected :
    Reflects (reflectCoordinates · 0 0) ((0 : Int) / 2) ((0 : Int) / 2) ∧
    (∃ res, computeIndex 3 4 gridSamplerBorder false = some res ∧ 0 ≤ res ∧ res ≤ 4 - 1) ∧
    ∃ moves, reflected.run (fun i => i) = some moves ∧
      reflected.SamplesPlanes (fun i => i) moves := by
  obtain ⟨reflects, inside, runs, -⟩ := gridSampler_samples
  have border : Convertible 3 4 gridSamplerBorder false :=
    ⟨fun zeros => absurd zeros (by decide), fun reflection => absurd reflection (by decide)⟩
  obtain ⟨res, index, low, high, -⟩ :=
    inside 3 4 (by decide) (by decide) false gridSamplerBorder (.inl rfl) border
  refine ⟨reflects 1 (by decide) true, ⟨res, index, low, by simpa using high⟩, ?_⟩
  exact runs reflected (fun i => i)
    ⟨.inl rfl, .inr (.inr rfl), .inl ⟨rfl, rfl⟩, by decide, by decide⟩ converts_reflected

/-- A coordinate of 2^32: the point is further than 2^31 spans from the image, and with zero padding
    its index is out of range. -/
theorem gridSampler_far :
    reflectCoordinates (2 ^ 31) 0 2 = none ∧
      computeIndex (2 ^ 32) 2 gridSamplerReflection true = none ∧
      GridSampler.run ⟨0, 0, true, [1, 1, 2, 2], [1, 1, 1, 2]⟩ (fun _ => 2 ^ 32) = none := by
  refine ⟨?_, ?_, ?_⟩
  · decide +kernel
  · decide +kernel
  · decide +kernel

end CviRuntime.CpuFunction
