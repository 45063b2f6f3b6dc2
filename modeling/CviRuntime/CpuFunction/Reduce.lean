import CviRuntime.Lib.Loop
import CviRuntime.Lib.RowMajor
import Mathlib.Logic.Function.Basic

/-!
# Reduction by the mean (`src/common/cpu_function/reducemean.cpp`)

The mean is taken over one axis after the other, from the second on in place.
-/

namespace CviRuntime.CpuFunction

open CviRuntime.Loop CviRuntime.RowMajor

/-- `count` (`reducemean.cpp:11-17`, `reducemax.cpp:11-17`). -/
def count (shape : List Nat) (startAxis endAxis : Nat) : Nat :=
  ((shape.take endAxis).drop startAxis).prod

theorem count_outer (shape : List Nat) (axis : Nat) :
    count shape 0 axis = outerSize shape axis := by
  rw [count, List.drop_zero, outerSize]

theorem count_inner (shape : List Nat) (axis : Nat) :
    count shape (axis + 1) shape.length = innerSize shape axis := by
  rw [count, List.take_length, innerSize]

theorem count_all (shape : List Nat) : count shape 0 shape.length = shape.prod := by
  rw [count, List.take_length, List.drop_zero]

/-- What the mean does with its elements. -/
structure MeanOps (T : Type*) where
  zero : T
  /-- `+=` -/
  add : T → T → T
  /-- `inner_sum[j] / input_shape[axis]`, stored as an element -/
  divide : T → Nat → T

section

variable {T : Type*} (ops : MeanOps T)

/-- `inner_sum` (`reducemean.cpp:41-46`). -/
def innerSum (input : Nat → T) (inner nextInner len i : Nat) : Nat → T :=
  (List.range len).foldl (fun sum s =>
    (List.range inner).foldl (fun sum j =>
      Function.update sum j (ops.add (sum j) (input (i * nextInner + s * inner + j)))) sum)
    fun _ => ops.zero

/-- The writes for one outer index (`reducemean.cpp:40-51`). The input is `none` when it is the
    output. -/
def meanBlock (input : Option (Nat → T)) (inner nextInner len : Nat) (output : Nat → T) (i : Nat) :
    Nat → T :=
  let sum := innerSum ops (input.getD output) inner nextInner len i
  (List.range inner).foldl (fun output j =>
    Function.update output (i * inner + j) (ops.divide (sum j) len)) output

/-- The variables of the loop over the axes. -/
structure MeanState (T : Type*) where
  shape : List Nat
  input : Option (Nat → T)
  output : Nat → T

/-- A round (`reducemean.cpp:30-56`). It fails on an assertion or on a division by 0. -/
def meanRound (st : MeanState T) (axis : Nat) : Option (MeanState T) :=
  let len := st.shape.getD axis 0
  let inner := count st.shape (axis + 1) st.shape.length
  let nextInner := inner * len
  let outer := count st.shape 0 axis
  if axis < st.shape.length ∧ (len = 0 → outer * inner = 0) then
    some {
      shape := st.shape.set axis 1
      input := none
      output := (List.range outer).foldl (meanBlock ops st.input inner nextInner len) st.output }
  else none

/-- `my_reduce_mean` (`reducemean.cpp:20-63`): the elements written to the output. -/
def myReduceMean (input : Nat → T) (orgInputShape axes : List Nat) : Option (List T) :=
  if axes = [] then none
  else (axes.foldlM (meanRound ops) ⟨orgInputShape, some input, fun _ => ops.zero⟩).map fun st =>
    (List.range (count st.shape 0 st.shape.length)).map st.output

/-! ## A round -/

variable {ops}

/-- The sum of a column. -/
theorem innerSum_eq {input : Nat → T} {inner nextInner len i j : Nat} (less : j < inner) :
    innerSum ops input inner nextInner len i j =
      (List.range len).foldl (fun sum s => ops.add sum (input (i * nextInner + s * inner + j)))
        ops.zero :=
  foldl_columns_look (fun (sum : Nat → T) j => sum j) _
    (fun s j x => ops.add x (input (i * nextInner + s * inner + j)))
    (fun sum _ c => Function.update_self c _ sum)
    (fun sum _ _ _ differ => Function.update_of_ne (Ne.symm differ) _ sum) _ len inner j less

/-- The sums are of cells from the first of the block on. -/
theorem innerSum_congr {input input' : Nat → T} {inner len i j : Nat} (less : j < inner)
    (same : ∀ p, i * inner ≤ p → input p = input' p) :
    innerSum ops input inner (inner * len) len i j =
      innerSum ops input' inner (inner * len) len i j := by
  rw [innerSum_eq less, innerSum_eq less]
  refine List.foldl_ext _ _ _ fun sum s inside => ?_
  have positive : 0 < len := Nat.zero_lt_of_lt (List.mem_range.mp inside)
  have behind : i * inner ≤ i * (inner * len) :=
    Nat.mul_le_mul_left i (Nat.le_mul_of_pos_right inner positive)
  rw [same _ (by omega)]

theorem meanBlock_eq (src : Option (Nat → T)) (inner nextInner len : Nat) (output : Nat → T)
    (i p : Nat) :
    meanBlock ops src inner nextInner len output i p =
      if i * inner ≤ p ∧ p < i * inner + inner then
        ops.divide (innerSum ops (src.getD output) inner nextInner len i (p - i * inner)) len
      else output p :=
  foldl_update (fun j _ => ops.divide (innerSum ops (src.getD output) inner nextInner len i j) len)
    output (i * inner) inner p

/-- After a round each cell of the output is the quotient of a column of the input, also when the
    input is the output: a block lies before the cells that later ones still read. -/
theorem meanLoop_eq {src : Option (Nat → T)} {output : Nat → T} {len inner : Nat} (o p : Nat) :
    (List.range o).foldl (meanBlock ops src inner (inner * len) len) output p =
      if p < o * inner then
        ops.divide (innerSum ops (src.getD output) inner (inner * len) len (p / inner) (p % inner))
          len
      else output p := by
  induction o generalizing p with
  | zero => rw [Nat.zero_mul, if_neg (Nat.not_lt_zero p)]; rfl
  | succ o ih =>
    rw [List.range_succ, List.foldl_append, List.foldl_cons, List.foldl_nil, meanBlock_eq,
      Nat.succ_mul]
    by_cases before : p < o * inner
    · rw [if_neg (by omega), ih, if_pos before, if_pos (by omega)]
    · by_cases block : p < o * inner + inner
      · obtain ⟨j, less, rfl⟩ : ∃ j < inner, p = o * inner + j :=
          ⟨p - o * inner, by omega, by omega⟩
        rw [if_pos ⟨Nat.le_add_right _ _, block⟩, if_pos block, place_div less, place_mod less,
          Nat.add_sub_cancel_left]
        congr 1
        refine innerSum_congr less fun q later => ?_
        cases src with
        | some input => rfl
        | none => exact (ih q).trans (if_neg (Nat.not_lt.mpr later))
      · rw [if_neg (by omega), ih, if_neg before, if_neg block]

/-- A round reduces the axis: each element of the output is the quotient of a slice of the
    input. -/
theorem meanRound_eq (ops : MeanOps T) (st : MeanState T) {axis : Nat}
    (inShape : axis < st.shape.length) (positive : 0 < st.shape.getD axis 0) :
    ∃ output, meanRound ops st axis = some ⟨st.shape.set axis 1, none, output⟩ ∧
      ∀ index, Inside (st.shape.set axis 1) index →
        output (flat (st.shape.set axis 1) index) =
          ops.divide ((List.range (st.shape.getD axis 0)).foldl (fun sum l =>
            ops.add sum (st.input.getD st.output (flat st.shape (index.set axis l)))) ops.zero)
            (st.shape.getD axis 0) := by
  have allowed : axis < st.shape.length ∧ (st.shape.getD axis 0 = 0 → count st.shape 0 axis *
      count st.shape (axis + 1) st.shape.length = 0) :=
    ⟨inShape, fun zero => absurd zero positive.ne'⟩
  refine ⟨_, if_pos allowed, fun index inside => ?_⟩
  obtain ⟨o, oLess, s, sLess, place, slice⟩ := exists_place_reduced inside inShape
  rw [count_outer, count_inner, place, meanLoop_eq]
  rw [if_pos (place_lt oLess sLess), place_div sLess, place_mod sLess, innerSum_eq sLess]
  simp only [slice, Nat.mul_comm (innerSize st.shape axis)]

end

end CviRuntime.CpuFunction
