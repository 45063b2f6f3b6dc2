import Mathlib.Algebra.BigOperators.Ring.List
import Mathlib.Algebra.Order.BigOperators.Group.List
import Mathlib.Algebra.Order.Floor.Ring
import Mathlib.Algebra.Order.Floor.Semiring
import Mathlib.Data.Rat.Floor
import Mathlib.Tactic.FieldSimp
import Mathlib.Tactic.Linarith
import Mathlib.Tactic.Ring

/-!
# Sampling at fractional coordinates

A sample is a list of taps: places that are read, each with its weight. With weights that are not
negative and sum to one, the sample lies between the values at the places. Samples of a plane are
products of samples of its two axes.
-/

namespace CviRuntime.Sampling

/-! ## Coordinates as integers -/

section

variable {K : Type*} [Field K] [LinearOrder K] [FloorRing K]

/-- The conversion to `int`: towards zero. -/
def toInt (x : K) : Int := if 0 ≤ x then ⌊x⌋ else ⌈x⌉

theorem toInt_of_nonneg {x : K} (natural : 0 ≤ x) : toInt x = ⌊x⌋ := if_pos natural

variable [IsStrictOrderedRing K]

@[simp] theorem toInt_intCast (n : Int) : toInt (n : K) = n := by
  unfold toInt
  split
  · exact Int.floor_intCast n
  · exact Int.ceil_intCast n

@[simp] theorem toInt_natCast (n : Nat) : toInt (n : K) = n := by
  exact_mod_cast toInt_intCast (K := K) n

end

/-- `std::round`: halves away from zero. -/
def stdRound (x : ℚ) : Int := if 0 ≤ x then ⌊x + 1 / 2⌋ else ⌈x - 1 / 2⌉

/-! ## Taps -/

section

variable {ι κ K : Type*} [Field K]

/-- The sum of the values at the places, each times its weight. -/
def combine (f : ι → K) (taps : List (ι × K)) : K := (taps.map fun t => t.2 * f t.1).sum

/-- A place of a plane. -/
def inPlane (height width : Nat) (place : Int × Int) : Bool :=
  (0 ≤ place.1 ∧ place.1 < height) ∧ (0 ≤ place.2 ∧ place.2 < width)

/-- The taps, with the places of another type. -/
def relocate (place : ι → κ) (taps : List (ι × K)) : List (κ × K) :=
  taps.map fun t => (place t.1, t.2)

/-- A tap of the one axis with each tap of the other. -/
def cross (ys : List (ι × K)) (xs : List (κ × K)) : List ((ι × κ) × K) :=
  ys.flatMap fun y => xs.map fun x => ((y.1, x.1), x.2 * y.2)

variable {f : ι → K} {taps : List (ι × K)} {ys : List (ι × K)} {xs : List (κ × K)}

@[simp] theorem combine_nil : combine f [] = 0 := rfl

@[simp] theorem combine_cons (t : ι × K) :
    combine f (t :: taps) = t.2 * f t.1 + combine f taps := List.sum_cons

theorem combine_relocate {place : κ → ι} {taps : List (κ × K)} :
    combine f (relocate place taps) = combine (fun k => f (place k)) taps := by
  rw [combine, relocate, List.map_map]
  rfl

/-- Taps left out count as places that hold zero. -/
theorem combine_filter (p : ι → Bool) :
    combine f (taps.filter fun t => p t.1) = combine (fun i => if p i then f i else 0) taps := by
  induction taps with
  | nil => rfl
  | cons t taps ih =>
    rw [combine_cons, ← ih]
    by_cases inside : p t.1
    · rw [List.filter_cons_of_pos (p := fun t : ι × K => p t.1) inside, combine_cons, if_pos inside]
    · rw [List.filter_cons_of_neg (p := fun t : ι × K => p t.1) inside, if_neg inside, mul_zero,
        zero_add]

theorem combine_eq_zero (weightless : ∀ t ∈ taps, t.2 = 0) : combine f taps = 0 := by
  apply List.sum_eq_zero
  intro x member
  obtain ⟨t, inTaps, rfl⟩ := List.mem_map.mp member
  rw [weightless t inTaps, zero_mul]

theorem mem_cross {t : (ι × κ) × K} (member : t ∈ cross ys xs) :
    ∃ y ∈ ys, ∃ x ∈ xs, t = ((y.1, x.1), x.2 * y.2) := by
  obtain ⟨y, inYs, member⟩ := List.mem_flatMap.mp member
  obtain ⟨x, inXs, rfl⟩ := List.mem_map.mp member
  exact ⟨y, inYs, x, inXs, rfl⟩

theorem sum_cross : ((cross ys xs).map Prod.snd).sum =
    (xs.map Prod.snd).sum * (ys.map Prod.snd).sum := by
  induction ys with
  | nil => simp [cross]
  | cons y ys ih =>
    have row : ((xs.map fun x => ((y.1, x.1), x.2 * y.2)).map Prod.snd).sum =
        (xs.map Prod.snd).sum * y.2 := by
      rw [List.map_map, ← List.sum_map_mul_right]
      rfl
    rw [cross, List.flatMap_cons, List.map_append, List.sum_append, row, List.map_cons,
      List.sum_cons, mul_add, ← ih, cross]

theorem sum_weights_mul (taps : List (ι × K)) (c : K) :
    (taps.map Prod.snd).sum * c = combine (fun _ => c) taps := by
  rw [combine, ← List.sum_map_mul_right]

variable [LinearOrder K]

/-- Weights that are not negative and sum to one. -/
structure Convex (taps : List (ι × K)) : Prop where
  nonneg : ∀ t ∈ taps, 0 ≤ t.2
  one : (taps.map Prod.snd).sum = 1

/-- A sample of the places of an axis from `low` on, before `high`. -/
structure InAxis (low high : Int) (taps : List (Int × K)) : Prop extends Convex taps where
  inside : ∀ t ∈ taps, low ≤ t.1 ∧ t.1 < high

theorem Convex.relocate {place : ι → κ} (convex : Convex taps) :
    Convex (relocate place taps) := by
  refine ⟨fun t member => ?_, ?_⟩
  · obtain ⟨t', inTaps, rfl⟩ := List.mem_map.mp member
    exact convex.nonneg t' inTaps
  · rw [Sampling.relocate, List.map_map]
    exact convex.one

theorem convex_pair {i j : ι} {a b : K} (a_nonneg : 0 ≤ a) (b_nonneg : 0 ≤ b) (one : a + b = 1) :
    Convex [(i, a), (j, b)] := by
  refine ⟨fun t member => ?_, ?_⟩
  · cases List.mem_pair.mp member with
    | inl first => exact first ▸ a_nonneg
    | inr second => exact second ▸ b_nonneg
  · simpa using one

/-- A sample of equal values is this value. -/
theorem Convex.combine_const (convex : Convex taps) (c : K) : combine (fun _ => c) taps = c := by
  rw [← sum_weights_mul, convex.one, one_mul]

/-- A sample with all its weight at one place is the value there. -/
theorem Convex.combine_of_single {i : ι} (convex : Convex taps)
    (single : ∀ t ∈ taps, t.2 ≠ 0 → t.1 = i) : combine f taps = f i := by
  rw [← convex.combine_const (f i)]
  refine congrArg List.sum (List.map_congr_left fun t member => ?_)
  by_cases zero : t.2 = 0
  · rw [zero, zero_mul, zero_mul]
  · rw [single t member zero]

variable [IsStrictOrderedRing K]

/-- The value at the place of a single tap. -/
theorem convex_single (i : ι) : Convex [(i, (1 : K))] := by
  refine ⟨fun t member => ?_, List.sum_singleton⟩
  rw [List.mem_singleton.mp member]
  exact zero_le_one

theorem Convex.cross (rows : Convex ys) (columns : Convex xs) : Convex (cross ys xs) := by
  refine ⟨fun t member => ?_, ?_⟩
  · obtain ⟨y, inYs, x, inXs, rfl⟩ := mem_cross member
    exact mul_nonneg (columns.nonneg x inXs) (rows.nonneg y inYs)
  · rw [sum_cross, rows.one, columns.one, mul_one]

/-! ## Samples between bounds -/

theorem combine_le_combine {g : ι → K} (nonneg : ∀ t ∈ taps, 0 ≤ t.2)
    (le : ∀ t ∈ taps, f t.1 ≤ g t.1) : combine f taps ≤ combine g taps :=
  List.sum_le_sum fun t member => mul_le_mul_of_nonneg_left (le t member) (nonneg t member)

theorem Convex.le_combine {low : K} (convex : Convex taps) (above : ∀ t ∈ taps, low ≤ f t.1) :
    low ≤ combine f taps := by
  rw [← convex.combine_const low]
  exact combine_le_combine convex.nonneg above

theorem Convex.combine_le {high : K} (convex : Convex taps) (below : ∀ t ∈ taps, f t.1 ≤ high) :
    combine f taps ≤ high := by
  rw [← convex.combine_const high]
  exact combine_le_combine convex.nonneg below

/-! ## Linear interpolation -/

section

variable [FloorRing K]

/-- The two neighbours of a coordinate. -/
def linearTaps (x : K) : List (Int × K) := [(⌊x⌋, 1 - (x - ⌊x⌋)), (⌊x⌋ + 1, x - ⌊x⌋)]

/-- The four neighbours of a point. -/
def bilinearTaps (y x : K) : List ((Int × Int) × K) := cross (linearTaps y) (linearTaps x)

theorem convex_linearTaps (x : K) : Convex (linearTaps x) := by
  have low := Int.floor_le x
  have high := Int.lt_floor_add_one x
  refine convex_pair ?_ ?_ ?_
  · linarith
  · linarith
  · ring

/-- A neighbour with a weight lies less than one away. -/
theorem linearTaps_near {x : K} {t : Int × K} (member : t ∈ linearTaps x) (weight : t.2 ≠ 0) :
    (t.1 : K) - 1 < x ∧ x < t.1 + 1 := by
  have low := Int.floor_le x
  have high := Int.lt_floor_add_one x
  cases List.mem_pair.mp member with
  | inl first =>
    subst first
    exact ⟨by dsimp only; linarith, high⟩
  | inr second =>
    subst second
    have above : (⌊x⌋ : K) < x := lt_of_le_of_ne low fun same => weight (sub_eq_zero.mpr same.symm)
    dsimp only
    push_cast
    exact ⟨by linarith, by linarith⟩

/-- A sample of a plane with zeros around it. -/
def bilinear (height width : Nat) (plane : Int × Int → K) (y x : K) : K :=
  combine (fun q => if inPlane height width q then plane q else 0) (bilinearTaps y x)

omit [IsStrictOrderedRing K] in
/-- Only the neighbours in the plane count. -/
theorem bilinear_eq_filter (height width : Nat) (plane : Int × Int → K) (y x : K) :
    bilinear height width plane y x =
      combine plane ((bilinearTaps y x).filter fun t => inPlane height width t.1) :=
  (combine_filter _).symm

omit [IsStrictOrderedRing K] in
/-- Only the values in the plane count. -/
theorem bilinear_congr {height width : Nat} {plane plane' : Int × Int → K} (y x : K)
    (same : ∀ q, inPlane height width q → plane q = plane' q) :
    bilinear height width plane y x = bilinear height width plane' y x := by
  refine congrArg (combine · (bilinearTaps y x)) (funext fun q => ?_)
  by_cases inside : inPlane height width q
  · rw [if_pos inside, if_pos inside, same q inside]
  · rw [if_neg inside, if_neg inside]

/-- A point at least one away from the plane has no neighbour with a weight in it. -/
theorem bilinear_of_outside {height width : Nat} {plane : Int × Int → K} {y x : K}
    (outside : ¬(-1 < y ∧ -1 < x ∧ y < height ∧ x < width)) :
    bilinear height width plane y x = 0 := by
  rw [bilinear_eq_filter]
  apply combine_eq_zero
  intro t member
  obtain ⟨inTaps, inside⟩ := List.mem_filter.mp member
  obtain ⟨row, inRows, column, inColumns, rfl⟩ := mem_cross inTaps
  obtain ⟨⟨rowLow, rowHigh⟩, columnLow, columnHigh⟩ :
    (0 ≤ row.1 ∧ row.1 < height) ∧ (0 ≤ column.1 ∧ column.1 < width) := of_decide_eq_true inside
  refine by_contra fun weight => outside ?_
  obtain ⟨columnWeight, rowWeight⟩ := mul_ne_zero_iff.mp weight
  obtain ⟨above, below⟩ := linearTaps_near inRows rowWeight
  obtain ⟨above', below'⟩ := linearTaps_near inColumns columnWeight
  have rowLow : (0 : K) ≤ row.1 := by exact_mod_cast rowLow
  have columnLow : (0 : K) ≤ column.1 := by exact_mod_cast columnLow
  have rowHigh : (row.1 : K) + 1 ≤ height := by exact_mod_cast rowHigh
  have columnHigh : (column.1 : K) + 1 ≤ width := by exact_mod_cast columnHigh
  exact ⟨by linarith, by linarith, by linarith, by linarith⟩

theorem convex_bilinearTaps (y x : K) : Convex (bilinearTaps y x) :=
  (convex_linearTaps y).cross (convex_linearTaps x)

end

end

/-! ## Folding a coordinate into a span -/

section

variable {K : Type*} [Field K] [LinearOrder K] [FloorRing K] {s t : K}

/-- The wave that goes up and down between 0 and `s`. -/
def foldInto (s t : K) : K :=
  if ⌊t / s⌋ % 2 = 0 then t - ⌊t / s⌋ * s else s - (t - ⌊t / s⌋ * s)

variable [IsStrictOrderedRing K]

/-- What is left of a coordinate after whole spans. -/
theorem rest_bounds (positive : 0 < s) : 0 ≤ t - ⌊t / s⌋ * s ∧ t - ⌊t / s⌋ * s < s := by
  have low := mul_le_mul_of_nonneg_right (Int.floor_le (t / s)) positive.le
  have high := mul_lt_mul_of_pos_right (Int.lt_floor_add_one (t / s)) positive
  rw [div_mul_cancel₀ t positive.ne'] at low high
  exact ⟨by linarith, by linarith⟩

theorem foldInto_bounds (positive : 0 < s) : 0 ≤ foldInto s t ∧ foldInto s t ≤ s := by
  obtain ⟨low, high⟩ := rest_bounds (t := t) positive
  unfold foldInto
  split
  · exact ⟨low, high.le⟩
  · exact ⟨by linarith, by linarith⟩

/-- It does nothing inside the span. -/
theorem foldInto_of_mem (positive : 0 < s) (low : 0 ≤ t) (high : t ≤ s) : foldInto s t = t := by
  unfold foldInto
  cases high.lt_or_eq with
  | inl less =>
    have zero : ⌊t / s⌋ = 0 :=
      Int.floor_eq_zero_iff.mpr ⟨div_nonneg low positive.le, (div_lt_one positive).mpr less⟩
    simp [zero]
  | inr last =>
    have one : ⌊t / s⌋ = 1 := by rw [last, div_self positive.ne', Int.floor_one]
    rw [one, if_neg (by decide), last, Int.cast_one]
    ring

/-- Two spans later it is the same. -/
theorem foldInto_add (positive : 0 < s) : foldInto s (t + (s + s)) = foldInto s t := by
  have quotient : ⌊(t + (s + s)) / s⌋ = ⌊t / s⌋ + 2 := by
    have two : (t + (s + s)) / s = t / s + (2 : Int) := by
      push_cast
      field_simp
      ring
    rw [two, Int.floor_add_intCast]
  have parity : (⌊t / s⌋ + 2) % 2 = ⌊t / s⌋ % 2 := Int.add_emod_right _ _
  have rest : t + (s + s) - (⌊t / s⌋ + 2 : Int) * s = t - ⌊t / s⌋ * s := by
    push_cast
    ring
  unfold foldInto
  rw [quotient, parity, rest]

/-- It does not see the sign. -/
theorem foldInto_neg (positive : 0 < s) : foldInto s (-t) = foldInto s t := by
  obtain ⟨low, high⟩ := rest_bounds (t := t) positive
  have whole : t / s = ⌊t / s⌋ + (t - ⌊t / s⌋ * s) / s := by
    field_simp
    ring
  unfold foldInto
  cases low.eq_or_lt with
  | inl exact_ =>
    -- a whole number of spans
    have quotient : ⌊-t / s⌋ = -⌊t / s⌋ := by
      have negated : -t / s = (-⌊t / s⌋ : Int) := by
        rw [neg_div, whole, ← exact_]
        push_cast
        simp
      rw [negated, Int.floor_intCast]
    have parity : (-⌊t / s⌋) % 2 = 0 ↔ ⌊t / s⌋ % 2 = 0 := by omega
    have rest : -t - (-⌊t / s⌋ : Int) * s = -(t - ⌊t / s⌋ * s) := by
      push_cast
      ring
    rw [quotient, rest, ← exact_]
    simp only [parity, neg_zero]
  | inr inside =>
    -- the span before, from the other side
    have quotient : ⌊-t / s⌋ = -⌊t / s⌋ - 1 := by
      rw [Int.floor_eq_iff]
      have above : 0 < (t - ⌊t / s⌋ * s) / s := div_pos inside positive
      have below : (t - ⌊t / s⌋ * s) / s < 1 := (div_lt_one positive).mpr high
      rw [neg_div]
      push_cast
      exact ⟨by linarith, by linarith⟩
    have rest : -t - (-⌊t / s⌋ - 1 : Int) * s = s - (t - ⌊t / s⌋ * s) := by
      push_cast
      ring
    rw [quotient, rest]
    by_cases even : ⌊t / s⌋ % 2 = 0
    · rw [if_pos even, if_neg (by omega)]
      ring
    · rw [if_neg even, if_pos (by omega)]

theorem foldInto_abs (positive : 0 < s) : foldInto s |t| = foldInto s t := by
  cases abs_choice t with
  | inl same => rw [same]
  | inr negated => rw [negated, foldInto_neg positive]

end

end CviRuntime.Sampling
