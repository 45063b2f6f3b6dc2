import CviRuntime.Lib.Loop
import CviRuntime.Lib.RowMajor
import Mathlib.Algebra.BigOperators.Ring.List
import Mathlib.Algebra.Order.BigOperators.Group.List
import Mathlib.Algebra.Order.Field.Basic
import Mathlib.Analysis.SpecialFunctions.Exp

/-!
# Softmax (`src/common/cpu_function/softmax.cpp`)

For each outer index the maxima over the channels begin with the first values of the whole tensor.
These belong to the slices of outer index 0.
-/

namespace CviRuntime.CpuFunction

open CviRuntime.Loop CviRuntime.RowMajor

/-- The members that `setup` computes (`softmax.cpp:25-41`). -/
structure SoftmaxDims where
  n : Nat
  c : Nat
  innerDim : Nat

/-- `_dim` -/
def SoftmaxDims.dim (d : SoftmaxDims) : Nat := d.c * d.innerDim

def softmaxSetup (shape : List Nat) (axis : Nat) : SoftmaxDims :=
  let axis := axis % shape.length
  { n := (shape.take axis).prod
    c := shape.getD axis 0
    innerDim := (shape.drop (axis + 1)).prod }

section

variable {α : Type*}

/-- The maxima for an outer index (`softmax.cpp:51-60`). `memcpy` takes the first ones from the
    front of the tensor. -/
def softmaxMax [LinearOrder α] (bottom : Nat → α) (d : SoftmaxDims) (i : Nat) : Nat → α :=
  (List.range d.c).foldl (fun mx j =>
    (List.range d.innerDim).foldl (fun mx k =>
      let x := bottom (i * d.dim + j * d.innerDim + k)
      if mx k < x then Function.update mx k x else mx) mx) bottom

variable [Field α] [LinearOrder α]

/-- The exponentials and their sums (`softmax.cpp:62-69`): `top_data` and `_sum`. -/
def softmaxExp (exp : α → α) (bottom : Nat → α) (d : SoftmaxDims) (i : Nat) (mx top : Nat → α) :
    (Nat → α) × (Nat → α) :=
  (List.range d.c).foldl (fun st j =>
    (List.range d.innerDim).foldl (fun st k =>
      let p := i * d.dim + j * d.innerDim + k
      let e := exp (bottom p - mx k)
      (Function.update st.1 p e, Function.update st.2 k (st.2 k + e))) st) (top, fun _ => 0)

/-- The division by the sums (`softmax.cpp:71-76`). -/
def softmaxDivide (d : SoftmaxDims) (i : Nat) (sum top : Nat → α) : Nat → α :=
  (List.range d.c).foldl (fun top j =>
    (List.range d.innerDim).foldl (fun top k =>
      let p := i * d.dim + j * d.innerDim + k
      Function.update top p (top p / sum k)) top) top

/-- A round for an outer index. -/
def softmaxRound (exp : α → α) (bottom : Nat → α) (d : SoftmaxDims) (top : Nat → α) (i : Nat) :
    Nat → α :=
  let st := softmaxExp exp bottom d i (softmaxMax bottom d i) top
  softmaxDivide d i st.2 st.1

/-- `SoftmaxFunc::run` (`softmax.cpp:46-78`). -/
def softmaxRun (exp : α → α) (bottom : Nat → α) (d : SoftmaxDims) (top : Nat → α) : Nat → α :=
  (List.range d.n).foldl (softmaxRound exp bottom d) top

end

/-! ## The maxima -/

section

variable {α : Type*} [LinearOrder α] {bottom : Nat → α} {d : SoftmaxDims} {i k : Nat}

/-- The values of a slice. -/
def slice (bottom : Nat → α) (d : SoftmaxDims) (i k j : Nat) : α :=
  bottom (i * d.dim + j * d.innerDim + k)

/-- A maximum is that of the slice and of the value it began with. -/
theorem softmaxMax_eq (inner : k < d.innerDim) :
    softmaxMax bottom d i k =
      (List.range d.c).foldl (fun x j => max x (slice bottom d i k j)) (bottom k) := by
  refine foldl_columns_look (fun (mx : Nat → α) k => mx k) _
    (fun j k x => max x (slice bottom d i k j)) (fun mx j c => ?_) (fun mx j c k differ => ?_)
    bottom d.c d.innerDim k inner
  · change (if mx c < slice bottom d i c j then Function.update mx c (slice bottom d i c j)
      else mx) c = _
    split
    · next less => rw [Function.update_self, max_eq_right less.le]
    · next notLess => rw [max_eq_left (not_lt.mp notLess)]
  · change (if mx c < slice bottom d i c j then Function.update mx c (slice bottom d i c j)
      else mx) k = _
    split
    · rw [Function.update_of_ne (Ne.symm differ)]
    · rfl

theorem foldl_max (f : Nat → α) (x : α) (n : Nat) :
    (x ≤ (List.range n).foldl (fun x j => max x (f j)) x ∧
      ∀ j < n, f j ≤ (List.range n).foldl (fun x j => max x (f j)) x) ∧
    ((List.range n).foldl (fun x j => max x (f j)) x = x ∨
      ∃ j < n, f j = (List.range n).foldl (fun x j => max x (f j)) x) := by
  induction n with
  | zero => exact ⟨⟨le_rfl, fun j less => absurd less (Nat.not_lt_zero j)⟩, Or.inl rfl⟩
  | succ n ih =>
    obtain ⟨⟨first, each⟩, attained⟩ := ih
    rw [List.range_succ, List.foldl_append, List.foldl_cons, List.foldl_nil]
    refine ⟨⟨first.trans (le_max_left _ _), fun j less => ?_⟩, ?_⟩
    · obtain earlier | rfl := Nat.lt_succ_iff_lt_or_eq.mp less
      · exact (each j earlier).trans (le_max_left _ _)
      · exact le_max_right _ _
    · obtain before | last := max_choice ((List.range n).foldl (fun x j => max x (f j)) x) (f n)
      · rw [before]
        exact attained.imp_right fun ⟨j, less, same⟩ => ⟨j, Nat.lt_succ_of_lt less, same⟩
      · exact Or.inr ⟨n, Nat.lt_succ_self n, last.symm⟩

/-- The maximum is the slice's own exactly when the value it began with is not above the slice. -/
theorem softmaxMax_own_iff (inner : k < d.innerDim) :
    ((∃ j < d.c, slice bottom d i k j = softmaxMax bottom d i k) ∧
      ∀ j < d.c, slice bottom d i k j ≤ softmaxMax bottom d i k) ↔
      ∃ j < d.c, bottom k ≤ slice bottom d i k j := by
  rw [softmaxMax_eq inner]
  obtain ⟨⟨first, each⟩, attained⟩ := foldl_max (slice bottom d i k) (bottom k) d.c
  constructor
  · rintro ⟨⟨j, less, attains⟩, -⟩
    exact ⟨j, less, attains.symm ▸ first⟩
  · rintro ⟨j, less, above⟩
    refine ⟨attained.elim (fun same => ⟨j, less, ?_⟩) id, each⟩
    exact le_antisymm (each j less) (same.le.trans above)

end

/-! ## Exponentials and sums -/

/-- What is used of the exponential. -/
structure ExpLaws {α : Type*} [Field α] [LinearOrder α] (exp : α → α) : Prop where
  zero : exp 0 = 1
  nonneg : ∀ x, 0 ≤ exp x

section

variable {α : Type*} [Field α] {exp : α → α} {bottom mx top sum : Nat → α} {d : SoftmaxDims}
  {i k : Nat}

/-- The sum of a slice. -/
theorem softmaxExp_sum (inner : k < d.innerDim) :
    (softmaxExp exp bottom d i mx top).2 k =
      ((List.range d.c).map fun j => exp (slice bottom d i k j - mx k)).sum := by
  have columns := foldl_columns_look (fun (st : (Nat → α) × (Nat → α)) k => st.2 k)
    (fun st j k => (Function.update st.1 (i * d.dim + j * d.innerDim + k)
      (exp (slice bottom d i k j - mx k)),
      Function.update st.2 k (st.2 k + exp (slice bottom d i k j - mx k))))
    (fun j k x => x + exp (slice bottom d i k j - mx k))
    (fun st _ c => Function.update_self c _ st.2)
    (fun st _ _ _ differ => Function.update_of_ne (Ne.symm differ) _ st.2) (top, fun _ => 0) d.c
    d.innerDim k inner
  refine columns.trans ?_
  rw [List.sum_eq_foldl, List.foldl_map]

/-- The exponentials of a block are written to its cells. -/
theorem softmaxExp_top (p : Nat) :
    (softmaxExp exp bottom d i mx top).1 p =
      if i * d.dim ≤ p ∧ p < i * d.dim + d.dim then
        exp (bottom p - mx ((p - i * d.dim) % d.innerDim))
      else top p := by
  have place : ∀ m, i * d.dim + m / d.innerDim * d.innerDim + m % d.innerDim = i * d.dim + m :=
    fun m => by rw [Nat.add_assoc, Nat.div_add_mod']
  have cells := foldl_update (fun m _ => exp (bottom (i * d.dim + m) - mx (m % d.innerDim))) top
    (i * d.dim) d.dim p
  unfold softmaxExp
  rw [foldl_range_mul (fun (st : (Nat → α) × (Nat → α)) j k =>
      (Function.update st.1 (i * d.dim + j * d.innerDim + k)
        (exp (bottom (i * d.dim + j * d.innerDim + k) - mx k)),
      Function.update st.2 k (st.2 k + exp (bottom (i * d.dim + j * d.innerDim + k) - mx k)))),
    ← @List.foldl_hom _ _ _ Prod.fst _ (fun top m => Function.update top (i * d.dim + m)
      (exp (bottom (i * d.dim + m) - mx (m % d.innerDim)))) _ _ fun st m => by simp only [place]]
  refine cells.trans ?_
  split
  · next inBlock => rw [Nat.add_sub_cancel' inBlock.1]
  · rfl

theorem softmaxDivide_eq (p : Nat) :
    softmaxDivide d i sum top p =
      if i * d.dim ≤ p ∧ p < i * d.dim + d.dim then top p / sum ((p - i * d.dim) % d.innerDim)
      else top p := by
  have place : ∀ m, i * d.dim + m / d.innerDim * d.innerDim + m % d.innerDim = i * d.dim + m :=
    fun m => by rw [Nat.add_assoc, Nat.div_add_mod']
  have cells := foldl_update (fun m x => x / sum (m % d.innerDim)) top (i * d.dim) d.dim p
  refine (congrFun (foldl_range_mul (fun (top : Nat → α) j k =>
    Function.update top (i * d.dim + j * d.innerDim + k)
      (top (i * d.dim + j * d.innerDim + k) / sum k)) top d.c d.innerDim) p).trans ?_
  simp only [place]
  exact cells

end

section

variable {α : Type*} [Field α] [LinearOrder α] {exp : α → α} {bottom : Nat → α} {d : SoftmaxDims}
  {i k : Nat}

/-- The exponents of a slice are at most 0, one of them is 0, and the sum is at least 1. -/
structure SliceStable (exp : α → α) (bottom : Nat → α) (d : SoftmaxDims) (i k : Nat) : Prop where
  attained : ∃ j < d.c, slice bottom d i k j = softmaxMax bottom d i k
  greatest : ∀ j < d.c, slice bottom d i k j ≤ softmaxMax bottom d i k
  nonpos : ∀ j < d.c, slice bottom d i k j - softmaxMax bottom d i k ≤ 0
  zero : ∃ j < d.c, slice bottom d i k j - softmaxMax bottom d i k = 0
  sum : ∀ top, 1 ≤ (softmaxExp exp bottom d i (softmaxMax bottom d i) top).2 k

/-- A round replaces the cells of its block. -/
theorem softmaxRound_eq (top : Nat → α) (p : Nat) :
    softmaxRound exp bottom d top i p =
      if i * d.dim ≤ p ∧ p < i * d.dim + d.dim then
        exp (bottom p - softmaxMax bottom d i ((p - i * d.dim) % d.innerDim)) /
          (softmaxExp exp bottom d i (softmaxMax bottom d i) top).2 ((p - i * d.dim) % d.innerDim)
      else top p := by
  rw [softmaxRound, softmaxDivide_eq, softmaxExp_top]
  split <;> rfl

/-- What the run writes for an element of a slice. -/
theorem softmaxRun_eq (n : Nat) (top : Nat → α) {j : Nat} (less : i < n) (channel : j < d.c)
    (inner : k < d.innerDim) :
    (List.range n).foldl (softmaxRound exp bottom d) top (i * d.dim + j * d.innerDim + k) =
      exp (slice bottom d i k j - softmaxMax bottom d i k) /
        ((List.range d.c).map fun j =>
          exp (slice bottom d i k j - softmaxMax bottom d i k)).sum := by
  have inBlock : j * d.innerDim + k < d.dim := place_lt channel inner
  induction n with
  | zero => cases less
  | succ n ih =>
    rw [List.range_succ, List.foldl_append, List.foldl_cons, List.foldl_nil, softmaxRound_eq,
      Nat.add_assoc]
    obtain earlier | rfl := Nat.lt_succ_iff_lt_or_eq.mp less
    · have before := place_lt earlier inBlock
      rw [if_neg (by omega), ← Nat.add_assoc]
      exact ih earlier
    · rw [if_pos (by omega), Nat.add_sub_cancel_left, place_mod inner, softmaxExp_sum inner,
        ← Nat.add_assoc]
      rfl

variable [IsStrictOrderedRing α]

/-- From the slice's own maximum the rest follows. -/
theorem sliceStable_iff (laws : ExpLaws exp) (inner : k < d.innerDim) :
    SliceStable exp bottom d i k ↔ ∃ j < d.c, bottom k ≤ slice bottom d i k j := by
  rw [← softmaxMax_own_iff inner]
  refine ⟨fun stable => ⟨stable.attained, stable.greatest⟩, fun own => ?_⟩
  obtain ⟨⟨j, less, attains⟩, greatest⟩ := own
  refine ⟨⟨j, less, attains⟩, greatest, fun j less => sub_nonpos.mpr (greatest j less),
    ⟨j, less, sub_eq_zero.mpr attains⟩, fun top => ?_⟩
  rw [softmaxExp_sum inner]
  have term : exp (slice bottom d i k j - softmaxMax bottom d i k) = 1 := by
    rw [attains, sub_self, laws.zero]
  rw [← term]
  exact List.single_le_sum (List.forall_mem_map.mpr fun j _ => laws.nonneg _) _
    (List.mem_map_of_mem (List.mem_range.mpr less))

/-- The outputs of a slice that is scaled by its own maximum sum up to 1. -/
theorem softmaxRun_sum (stable : SliceStable exp bottom d i k) (top : Nat → α) (less : i < d.n)
    (inner : k < d.innerDim) :
    ((List.range d.c).map fun j =>
      softmaxRun exp bottom d top (i * d.dim + j * d.innerDim + k)).sum = 1 := by
  have positive := stable.sum top
  rw [softmaxExp_sum inner] at positive
  have each : ∀ j ∈ List.range d.c, softmaxRun exp bottom d top (i * d.dim + j * d.innerDim + k) =
      exp (slice bottom d i k j - softmaxMax bottom d i k) *
        (((List.range d.c).map fun j =>
          exp (slice bottom d i k j - softmaxMax bottom d i k)).sum)⁻¹ := fun j member => by
    rw [softmaxRun, softmaxRun_eq d.n top less (List.mem_range.mp member) inner, div_eq_mul_inv]
  rw [List.map_congr_left each, List.sum_map_mul_right]
  exact mul_inv_cancel₀ (one_pos.trans_le positive).ne'

/-- Each slice is scaled by its own maximum exactly when no first value of the tensor is above all
    values of a slice with the same inner index. -/
theorem softmax_ownMax_iff (exp : α → α) (laws : ExpLaws exp) (shape : List Nat) (axis : Nat)
    (bottom : Nat → α) :
    (∀ i < (softmaxSetup shape axis).n, ∀ k < (softmaxSetup shape axis).innerDim,
        SliceStable exp bottom (softmaxSetup shape axis) i k) ↔
      ∀ i < (softmaxSetup shape axis).n, ∀ k < (softmaxSetup shape axis).innerDim,
        ∃ j < (softmaxSetup shape axis).c,
          bottom k ≤ slice bottom (softmaxSetup shape axis) i k j :=
  forall_congr' fun _ => forall_congr' fun _ => forall_congr' fun _ => forall_congr' fun inner =>
    sliceStable_iff laws inner

/-- Two equal rows. -/
theorem softmax_ownMax_iff_equal :
    (∀ i < (softmaxSetup [2, 3] 1).n, ∀ k < (softmaxSetup [2, 3] 1).innerDim,
        SliceStable Real.exp (fun _ => 2) (softmaxSetup [2, 3] 1) i k) ↔
      ∀ i < (softmaxSetup [2, 3] 1).n, ∀ k < (softmaxSetup [2, 3] 1).innerDim,
        ∃ j < (softmaxSetup [2, 3] 1).c,
          (fun _ => (2 : ℝ)) k ≤ slice (fun _ => 2) (softmaxSetup [2, 3] 1) i k j :=
  softmax_ownMax_iff Real.exp ⟨Real.exp_zero, fun x => (Real.exp_pos x).le⟩ [2, 3] 1 _

/-- The second of two rows is scaled by the 1 at the front of the first. -/
theorem softmax_foreignMax :
    ¬ SliceStable Real.exp (fun p => if p = 0 then 1 else 0) (softmaxSetup [2, 1] 1) 1 0 := by
  intro stable
  obtain ⟨j, less, attains⟩ := stable.attained
  obtain rfl : j = 0 := Nat.lt_one_iff.mp less
  rw [softmaxMax_eq (by decide)] at attains
  simp [slice, softmaxSetup, SoftmaxDims.dim] at attains

end

end CviRuntime.CpuFunction
