import CviRuntime.Lib.Loop
import CviRuntime.Lib.RowMajor
import Mathlib.Algebra.BigOperators.Group.List.Basic
import Mathlib.Algebra.Ring.Int.Defs
import Mathlib.Logic.Function.Basic

/-!
# Sums along an axis (`src/common/cpu_function/cumsum.cpp`)

The loops go through the buffer from the front to the back. Each element adds the one written a
stride before, so the output may be the input.
-/

namespace CviRuntime.CpuFunction

open CviRuntime.Loop CviRuntime.RowMajor

section

variable {α : Type*} [AddCommMonoid α]

/-- The write at `start + s` (`cumsum.cpp:42-47`). `bottom` is `none` when it is the output. -/
def cumSumWrite (bottom : Option (Nat → α)) (stride l start s : Nat) (top : Nat → α) : Nat → α :=
  Function.update top (start + s)
    (if l = 0 then bottom.getD top (start + s)
    else bottom.getD top (start + s) + top (start + s - stride))

/-- The two inner loops (`cumsum.cpp:39-49`). -/
def cumSumBlock (bottom : Option (Nat → α)) (length stride curIndex : Nat) (top : Nat → α) :
    Nat → α :=
  (List.range length).foldl (fun top l =>
    (List.range stride).foldl (fun top s =>
      cumSumWrite bottom stride l (curIndex + l * stride) s top) top) top

/-- The outer loop (`cumsum.cpp:38-51`). -/
def cumSumLoop (bottom : Option (Nat → α)) (length stride numelement : Nat) :
    Nat → Nat → (Nat → α) → Option (Nat → α)
  | 0, _, _ => none
  | fuel + 1, curIndex, top =>
    if curIndex < numelement then
      cumSumLoop bottom length stride numelement fuel (curIndex + length * stride)
        (cumSumBlock bottom length stride curIndex top)
    else some top

/-- `CumSumFunc::run` (`cumsum.cpp:22-54`): the buffer of the output, from what it held before. -/
def cumSumRun (fuel : Nat) (shape : List Nat) (axis : Nat) (bottom : Option (Nat → α))
    (top : Nat → α) : Option (Nat → α) :=
  cumSumLoop bottom (shape.getD axis 0) (shape.drop (axis + 1)).prod shape.prod fuel 0 top

/-! ## The loops as one -/

/-- The step for the element at a position. -/
def cumSumStep (bottom : Option (Nat → α)) (length stride : Nat) (top : Nat → α) (p : Nat) :
    Nat → α :=
  cumSumWrite bottom stride (p / stride % length) p 0 top

/-- The buffer after the steps for the first elements. -/
def cumSumSteps (bottom : Option (Nat → α)) (length stride : Nat) (top : Nat → α) (n : Nat) :
    Nat → α :=
  (List.range n).foldl (cumSumStep bottom length stride) top

variable {bottom : Option (Nat → α)} {length stride : Nat} {top : Nat → α}

/-- A block is the steps for its elements. -/
theorem cumSumBlock_eq (b : Nat) :
    cumSumBlock bottom length stride (b * (length * stride))
        (cumSumSteps bottom length stride top (b * (length * stride))) =
      cumSumSteps bottom length stride top ((b + 1) * (length * stride)) := by
  rw [cumSumBlock, foldl_range_mul, Nat.succ_mul]
  unfold cumSumSteps
  rw [List.range_add, List.foldl_append, List.foldl_map]
  refine List.foldl_ext _ _ _ fun top j inside => ?_
  have less : j < length * stride := List.mem_range.mp inside
  have stridePos : 0 < stride := Nat.pos_of_ne_zero fun zero => by
    rw [zero, Nat.mul_zero] at less
    exact Nat.not_lt_zero j less
  have row : j / stride < length := Nat.div_lt_of_lt_mul (Nat.mul_comm length stride ▸ less)
  have place : b * (length * stride) + j / stride * stride + j % stride =
      b * (length * stride) + j := by
    rw [Nat.add_assoc, Nat.mul_comm (j / stride), Nat.div_add_mod]
  have number : (b * (length * stride) + j) / stride % length = j / stride := by
    rw [← Nat.mul_assoc, Nat.mul_comm, Nat.mul_add_div stridePos, place_mod row]
  rw [cumSumStep, number, cumSumWrite, cumSumWrite, place, Nat.add_zero]

/-- The outer loop ends after the steps for all elements. -/
theorem cumSumLoop_eq (bottom : Option (Nat → α)) (top : Nat → α) (outer : Nat)
    (positive : 0 < length * stride) :
    ∀ fuel b, b ≤ outer → outer - b < fuel →
      cumSumLoop bottom length stride (outer * (length * stride)) fuel (b * (length * stride))
          (cumSumSteps bottom length stride top (b * (length * stride))) =
        some (cumSumSteps bottom length stride top (outer * (length * stride))) := by
  intro fuel
  induction fuel with
  | zero => intro b _ enough; cases enough
  | succ fuel ih =>
    intro b le enough
    rw [cumSumLoop]
    by_cases more : b < outer
    · rw [if_pos (Nat.mul_lt_mul_of_pos_right more positive), cumSumBlock_eq, ← Nat.succ_mul]
      exact ih (b + 1) more (by omega)
    · obtain rfl : b = outer := Nat.le_antisymm le (Nat.not_lt.mp more)
      rw [if_neg (Nat.lt_irrefl _)]

/-! ## What the steps write -/

/-- The sum of the elements a multiple of the stride before, from the first of the axis on. -/
def partialSum (src : Nat → α) (length stride p : Nat) : α :=
  let l := p / stride % length
  ((List.range (l + 1)).map fun l' => src (p - (l - l') * stride)).sum

theorem partialSum_zero {src : Nat → α} {p : Nat} (first : p / stride % length = 0) :
    partialSum src length stride p = src p := by
  simp [partialSum, first]

theorem number_sub {p : Nat} (lengthPos : 0 < length) (later : p / stride % length ≠ 0) :
    (p - stride) / stride % length = p / stride % length - 1 := by
  have less : p / stride % length - 1 < length :=
    (Nat.sub_le _ 1).trans_lt (Nat.mod_lt _ lengthPos)
  have back : (p - stride) / stride = p / stride - 1 := by
    simpa using Nat.sub_mul_div p stride 1
  have whole := Nat.div_add_mod' (p / stride) length
  have before : p / stride - 1 = p / stride / length * length + (p / stride % length - 1) := by
    omega
  rw [back, before, place_mod less]

theorem partialSum_succ {src : Nat → α} {p : Nat} (lengthPos : 0 < length)
    (later : p / stride % length ≠ 0) :
    partialSum src length stride p = src p + partialSum src length stride (p - stride) := by
  obtain ⟨l, number⟩ := Nat.exists_eq_succ_of_ne_zero later
  have before : (p - stride) / stride % length = l := by
    rw [number_sub lengthPos later, number]
    rfl
  have each : ∀ l' ∈ List.range (l + 1),
      src (p - (l + 1 - l') * stride) = src (p - stride - (l - l') * stride) := by
    intro l' inside
    have below : l' < l + 1 := List.mem_range.mp inside
    rw [Nat.sub_sub, Nat.succ_sub (Nat.le_of_lt_succ below), Nat.succ_mul, Nat.add_comm]
  simp only [partialSum, number, before]
  rw [List.range_succ, List.map_append, List.sum_append, List.map_congr_left each,
    List.map_singleton, List.sum_singleton, Nat.sub_self, Nat.zero_mul, Nat.sub_zero, add_comm]

/-- The elements before the next one hold their sums, the others what they held at first. -/
theorem cumSumSteps_apply (n p : Nat) (lengthPos : 0 < length) (stridePos : 0 < stride) :
    cumSumSteps bottom length stride top n p =
      if p < n then partialSum (bottom.getD top) length stride p else top p := by
  induction n generalizing p with
  | zero => rw [if_neg (Nat.not_lt_zero p)]; rfl
  | succ n ih =>
    have steps : cumSumSteps bottom length stride top (n + 1) =
        cumSumStep bottom length stride (cumSumSteps bottom length stride top n) n := by
      rw [cumSumSteps, List.range_succ, List.foldl_append, List.foldl_cons, List.foldl_nil]
      rfl
    have unread : bottom.getD (cumSumSteps bottom length stride top n) n = bottom.getD top n := by
      cases bottom with
      | some input => rfl
      | none => exact (ih n).trans (if_neg (Nat.lt_irrefl n))
    rw [steps, cumSumStep, cumSumWrite, Nat.add_zero]
    by_cases last : p = n
    · subst last
      rw [Function.update_self, if_pos (Nat.lt_succ_self p), unread]
      by_cases first : p / stride % length = 0
      · rw [if_pos first, partialSum_zero first]
      · have stridePast : stride ≤ p := by
          by_contra less
          rw [Nat.div_eq_of_lt (Nat.not_le.mp less), Nat.zero_mod] at first
          exact first rfl
        rw [if_neg first, partialSum_succ lengthPos first, ih, if_pos (by omega)]
    · have next : p < n + 1 ↔ p < n := by omega
      rw [Function.update_of_ne last, ih]
      simp only [next]

/-! ## In terms of indices -/

/-- The elements with a smaller or equal index along the axis and the same other indices. -/
def upTo (shape : List Nat) (axis : Nat) (index : List Nat) : List (List Nat) :=
  (fiber shape [axis] index).filter fun i => i.getD axis 0 ≤ index.getD axis 0

theorem upTo_perm {shape index : List Nat} {axis : Nat} (inside : Inside shape index)
    (inRange : axis < shape.length) :
    (upTo shape axis index).Perm
      ((List.range (index.getD axis 0 + 1)).map fun l => index.set axis l) := by
  have inside' : Inside (shape.set axis (shape.getD axis 0)) index := by
    rwa [set_getD_self]
  have bound := inside.2 axis inRange
  have at_axis : ∀ l, (index.set axis l).getD axis 0 = l := fun l => by
    rw [getD_set, if_pos ⟨rfl, inside.1.symm ▸ inRange⟩]
  refine ((fiber_singleton inside' inRange).filter _).trans (List.Perm.of_eq ?_)
  obtain ⟨rest, split⟩ := Nat.exists_eq_add_of_le (Nat.succ_le_of_lt bound)
  rw [split, List.filter_map, List.range_add, List.filter_append, List.map_append]
  have kept : (List.range (index.getD axis 0).succ).filter
      ((fun i => decide (i.getD axis 0 ≤ index.getD axis 0)) ∘ fun l => index.set axis l) =
        List.range (index.getD axis 0).succ := by
    refine List.filter_eq_self.mpr fun l member => ?_
    have below := List.mem_range.mp member
    simp only [Function.comp_apply, at_axis, decide_eq_true_eq]
    omega
  have dropped : ((List.range rest).map ((index.getD axis 0).succ + ·)).filter
      ((fun i => decide (i.getD axis 0 ≤ index.getD axis 0)) ∘ fun l => index.set axis l) = [] := by
    refine List.filter_eq_nil_iff.mpr fun l member => ?_
    obtain ⟨k, -, rfl⟩ := List.mem_map.mp member
    simp only [Function.comp_apply, at_axis, decide_eq_true_eq]
    omega
  rw [kept, dropped, List.map_nil, List.append_nil]

/-- At the position of an element the partial sum is that of the elements up to it. -/
theorem partialSum_flat {src : Nat → α} {shape index : List Nat} {axis : Nat}
    (inside : Inside shape index) (inRange : axis < shape.length) :
    partialSum src (shape.getD axis 0) (innerSize shape axis) (flat shape index) =
      ((upTo shape axis index).map fun i => src (flat shape i)).sum := by
  obtain ⟨o, -, s, sLess, place⟩ := exists_place_self inside inRange
  have here := place (index.getD axis 0)
  have bound := inside.2 axis inRange
  rw [set_getD_self, ← Nat.mul_assoc, ← Nat.add_mul] at here
  have number : flat shape index / innerSize shape axis % shape.getD axis 0 =
      index.getD axis 0 := by
    rw [here, place_div sLess, place_mod bound]
  have each : ∀ l ∈ List.range (index.getD axis 0 + 1),
      src (flat shape index - (index.getD axis 0 - l) * innerSize shape axis) =
        src (flat shape (index.set axis l)) := by
    intro l inRange
    have below : l ≤ index.getD axis 0 := Nat.le_of_lt_succ (List.mem_range.mp inRange)
    obtain ⟨k, split⟩ := Nat.exists_eq_add_of_le below
    rw [here, place, split, Nat.add_sub_cancel_left]
    congr 1
    simp only [Nat.add_mul, Nat.mul_assoc]
    omega
  simp only [partialSum, number]
  rw [List.map_congr_left each, ((upTo_perm inside inRange).map _).sum_eq, List.map_map]
  rfl

/-- The run ends, and each element of the output is the sum of the input up to it, whether the
    input is another buffer or the output itself. -/
theorem cumSumRun_sums (shape : List Nat) (axis : Nat) (bottom : Option (Nat → α)) (top : Nat → α)
    (positive : ∀ d ∈ shape, 0 < d) (inRange : axis < shape.length) (fuel : Nat)
    (enough : shape.prod < fuel) :
    ∃ out, cumSumRun fuel shape axis bottom top = some out ∧
      ∀ index, Inside shape index →
        out (flat shape index) =
          ((upTo shape axis index).map fun i => (bottom.getD top) (flat shape i)).sum := by
  have lengthPos : 0 < shape.getD axis 0 := by
    rw [List.getD_eq_getElem?_getD, List.getElem?_eq_getElem inRange]
    exact positive _ (List.getElem_mem inRange)
  have stridePos : 0 < innerSize shape axis :=
    List.prod_pos_iff_forall_pos_nat.mpr fun d member => positive d (List.mem_of_mem_drop member)
  have blockPos := Nat.mul_pos lengthPos stridePos
  have outer : outerSize shape axis ≤ shape.prod := by
    rw [prod_eq inRange]
    exact Nat.le_mul_of_pos_right _ blockPos
  have ends := cumSumLoop_eq bottom top (outerSize shape axis) blockPos fuel 0 (Nat.zero_le _)
    (by omega)
  rw [Nat.zero_mul, ← prod_eq inRange] at ends
  refine ⟨_, ends, fun index inside => ?_⟩
  rw [cumSumSteps_apply _ _ lengthPos stridePos, if_pos (flat_lt inside),
    partialSum_flat inside inRange]

/-- Along the middle axis, in place. -/
theorem cumSumRun_sums_inPlace :
    ∃ out, cumSumRun 13 [2, 3, 2] 1 none (fun p => (p : Int)) = some out ∧
      ∀ index, Inside [2, 3, 2] index →
        out (flat [2, 3, 2] index) =
          ((upTo [2, 3, 2] 1 index).map fun i =>
            ((none : Option (Nat → Int)).getD fun p => (p : Int)) (flat [2, 3, 2] i)).sum :=
  cumSumRun_sums [2, 3, 2] 1 none _ (by decide) (by decide) 13 (by decide)

end

end CviRuntime.CpuFunction
