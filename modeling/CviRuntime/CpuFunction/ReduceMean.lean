import CviRuntime.CpuFunction.Reduce
import Mathlib.Algebra.Field.Rat
import Mathlib.Algebra.BigOperators.Ring.List

/-!
# The mean over several axes (`src/common/cpu_function/reducemean.cpp`)

In exact arithmetic the mean of means over one axis after the other is the mean over all of them.
-/

namespace CviRuntime.CpuFunction

open CviRuntime.RowMajor

/-- The mean in exact arithmetic. -/
def exactMean (α : Type*) [Field α] : MeanOps α where
  zero := 0
  add := (· + ·)
  divide sum len := sum / len

/-- The mean of the elements of a slice. -/
def sliceMean {α : Type*} [Field α] (input : Nat → α) (shape axes index : List Nat) : α :=
  ((fiber shape axes index).map fun i => input (flat shape i)).sum / (fiber shape axes index).length

section

variable {α : Type*} [Field α]

theorem foldl_add_eq_sum (f : Nat → α) (n : Nat) :
    (List.range n).foldl (fun sum l => sum + f l) 0 = ((List.range n).map f).sum := by
  rw [List.sum_eq_foldl, List.foldl_map]

/-- The mean over one axis more is the mean of the means. -/
theorem sliceMean_cons {input : Nat → α} {shape axes index : List Nat} {a : Nat}
    (distinct : (a :: axes).Nodup) (inRange : ∀ b ∈ a :: axes, b < shape.length)
    (inside : Inside (reducedShape shape (a :: axes)) index) :
    ((List.range (shape.getD a 0)).map fun l =>
        sliceMean input shape axes (index.set a l)).sum / (shape.getD a 0 : α) =
      sliceMean input shape (a :: axes) index := by
  have whole := length_fiber distinct inRange inside
  obtain ⟨fresh, distinct⟩ := List.nodup_cons.mp distinct
  obtain ⟨inShape, inRange⟩ := List.forall_mem_cons.mp inRange
  obtain ⟨length, put⟩ := inside.set_reduced fresh inShape
  have each : ∀ l ∈ List.range (shape.getD a 0), sliceMean input shape axes (index.set a l) =
      ((fiber shape axes (index.set a l)).map fun i => input (flat shape i)).sum *
        (((axes.map fun a => shape.getD a 0).prod : Nat) : α)⁻¹ := fun l member => by
    rw [sliceMean, length_fiber distinct inRange (put l member), div_eq_mul_inv]
  have slices : ((fiber shape (a :: axes) index).map fun i => input (flat shape i)).sum =
      ((List.range (shape.getD a 0)).map fun l =>
        ((fiber shape axes (index.set a l)).map fun i => input (flat shape i)).sum).sum := by
    rw [((fiber_cons fresh inShape length).map _).sum_eq, List.map_flatMap, List.flatMap_def,
      List.sum_flatten, List.map_map]
    rfl
  rw [List.map_congr_left each, List.sum_map_mul_right, ← slices, sliceMean, whole, List.map_cons,
    List.prod_cons, Nat.cast_mul, mul_comm (shape.getD a 0 : α), div_mul_eq_div_div,
    div_eq_mul_inv (List.sum _)]

/-- What the rounds have done after the axes `done`, the last one in front. -/
structure MeanDone (input : Nat → α) (shape done : List Nat) (st : MeanState α) : Prop where
  shape_eq : st.shape = reducedShape shape done
  mean : ∀ index, Inside (reducedShape shape done) index →
    (st.input.getD st.output) (flat (reducedShape shape done) index) =
      sliceMean input shape done index

theorem meanDone_init (input : Nat → α) (shape : List Nat) :
    MeanDone input shape [] ⟨shape, some input, fun _ => 0⟩ where
  shape_eq := reducedShape_nil.symm
  mean index inside := by
    rw [reducedShape_nil] at inside ⊢
    rw [sliceMean, fiber_nil inside, List.map_singleton, List.sum_singleton, List.length_singleton,
      Nat.cast_one, div_one]
    rfl

/-- A round takes the mean over one axis more. -/
theorem MeanDone.round {input : Nat → α} {shape done : List Nat} {st : MeanState α} {a : Nat}
    (means : MeanDone input shape done st) (positive : ∀ b < shape.length, 0 < shape.getD b 0)
    (distinct : (a :: done).Nodup) (inRange : ∀ b ∈ a :: done, b < shape.length) :
    ∃ output, meanRound (exactMean α) st a = some ⟨st.shape.set a 1, none, output⟩ ∧
      MeanDone input shape (a :: done) ⟨st.shape.set a 1, none, output⟩ := by
  have inShape : a < shape.length := inRange a List.mem_cons_self
  have fresh : a ∉ done := (List.nodup_cons.mp distinct).1
  have len : st.shape.getD a 0 = shape.getD a 0 := by
    rw [means.shape_eq, getD_reducedShape inShape, if_neg fresh]
  have inShape' : a < st.shape.length := by
    rw [means.shape_eq, length_reducedShape]
    exact inShape
  obtain ⟨output, runs, quotients⟩ := meanRound_eq (exactMean α) st inShape'
    (len ▸ positive a inShape)
  refine ⟨output, runs, ?_, fun index inside => ?_⟩
  · rw [reducedShape_cons, ← means.shape_eq]
  · have shapes : reducedShape shape (a :: done) = st.shape.set a 1 := by
      rw [reducedShape_cons, ← means.shape_eq]
    have slices : ∀ l ∈ List.range (shape.getD a 0),
        (st.input.getD st.output) (flat st.shape (index.set a l)) =
          sliceMean input shape done (index.set a l) := fun l member => by
      rw [means.shape_eq]
      exact means.mean _ ((inside.set_reduced fresh inShape).2 l member)
    have quotient := quotients index (shapes ▸ inside)
    rw [← sliceMean_cons distinct inRange inside, shapes]
    refine quotient.trans ?_
    rw [len]
    simp only [exactMean, foldl_add_eq_sum]
    rw [List.map_congr_left slices]

/-- All rounds. -/
theorem MeanDone.rounds {input : Nat → α} {shape done : List Nat} {st : MeanState α}
    (means : MeanDone input shape done st) (axes : List Nat)
    (positive : ∀ b < shape.length, 0 < shape.getD b 0) (distinct : (axes.reverse ++ done).Nodup)
    (inRange : ∀ b ∈ axes.reverse ++ done, b < shape.length) :
    ∃ st', axes.foldlM (meanRound (exactMean α)) st = some st' ∧
      MeanDone input shape (axes.reverse ++ done) st' ∧ (axes ≠ [] → st'.input = none) := by
  induction axes generalizing st done with
  | nil => exact ⟨st, rfl, means, fun nonempty => absurd rfl nonempty⟩
  | cons a axes ih =>
    rw [List.reverse_cons, List.append_assoc, List.singleton_append] at distinct inRange ⊢
    obtain ⟨output, runs, means'⟩ := means.round positive (List.Nodup.of_append_right distinct)
      fun b member => inRange b (List.mem_append_right _ member)
    obtain ⟨st', runs', means'', own⟩ := ih means' distinct inRange
    refine ⟨st', ?_, means'', fun _ => ?_⟩
    · rw [List.foldlM_cons, runs]
      exact runs'
    · cases axes with
      | nil =>
        obtain rfl := Option.some.inj runs'
        rfl
      | cons b axes => exact own (List.cons_ne_nil b axes)

/-- `my_reduce_mean` writes the mean over all axes to each element of the reduced tensor. -/
theorem myReduceMean_mean (input : Nat → α) (shape axes : List Nat)
    (positive : ∀ d ∈ shape, 0 < d) (nonempty : axes ≠ []) (distinct : axes.Nodup)
    (inRange : ∀ a ∈ axes, a < shape.length) :
    ∃ out, myReduceMean (exactMean α) input shape axes = some out ∧
      out.length = (reducedShape shape axes).prod ∧
      ∀ index, Inside (reducedShape shape axes) index →
        out[flat (reducedShape shape axes) index]? = some (sliceMean input shape axes index) := by
  have positive' : ∀ b < shape.length, 0 < shape.getD b 0 := fun b less => by
    rw [List.getD_eq_getElem?_getD, List.getElem?_eq_getElem less]
    exact positive _ (List.getElem_mem less)
  have same : ∀ a, a ∈ axes.reverse ++ [] ↔ a ∈ axes := fun a => by
    rw [List.append_nil, List.mem_reverse]
  obtain ⟨st, runs, means, own⟩ := (meanDone_init input shape).rounds axes positive'
    (by rwa [List.append_nil, List.nodup_reverse]) fun b member => inRange b ((same b).mp member)
  have shapes := means.shape_eq.trans (reducedShape_congr same)
  have all : count st.shape 0 st.shape.length = (reducedShape shape axes).prod := by
    rw [count_all, shapes]
  refine ⟨(List.range (reducedShape shape axes).prod).map st.output, ?_, ?_, ?_⟩
  · rw [myReduceMean, if_neg nonempty, ← all]
    exact congrArg (Option.map _) runs
  · rw [List.length_map, List.length_range]
  · intro index inside
    have mean := means.mean index ((reducedShape_congr same).symm ▸ inside)
    rw [own nonempty, Option.getD_none, reducedShape_congr same] at mean
    rw [List.getElem?_map, List.getElem?_range (flat_lt inside), Option.map_some, mean, sliceMean,
      sliceMean, fiber_congr same]

/-- Rows and columns of a matrix in the middle, the later axis first. -/
theorem myReduceMean_mean_twoAxes :
    ∃ out, myReduceMean (exactMean ℚ) (fun p => p) [2, 3, 2] [1, 0] = some out ∧
      out.length = (reducedShape [2, 3, 2] [1, 0]).prod ∧
      ∀ index, Inside (reducedShape [2, 3, 2] [1, 0]) index →
        out[flat (reducedShape [2, 3, 2] [1, 0]) index]? =
          some (sliceMean (fun p => (p : ℚ)) [2, 3, 2] [1, 0] index) :=
  myReduceMean_mean _ [2, 3, 2] [1, 0] (by decide) (by decide) (by decide) (by decide)

end

end CviRuntime.CpuFunction
