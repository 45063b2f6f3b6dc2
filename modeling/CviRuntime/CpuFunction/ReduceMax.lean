import CviRuntime.CpuFunction.Reduce

/-!
# Reduction by the maximum (`src/common/cpu_function/reducemax.cpp`)

The loops reduce the first of the listed axes. The others are left as they are, so that the output
has more elements than the reduced tensor.
-/

namespace CviRuntime.CpuFunction

open CviRuntime.Loop CviRuntime.RowMajor

section

variable {T : Type*} [LinearOrder T]

/-- The innermost body (`reducemax.cpp:33-37`). Cells of the output that the function has not yet
    written hold what they held before. -/
def maxWrite (input before : Nat → T) (c hw nidx innerIdx : Nat) (output : Nat → Option T)
    (cidx : Nat) : Nat → Option T :=
  let tmp := input (nidx * c * hw + cidx * hw + innerIdx)
  let p := nidx * hw + innerIdx
  let output := if cidx = 0 then Function.update output p (some tmp) else output
  Function.update output p (some (max tmp ((output p).getD (before p))))

/-- The loops (`reducemax.cpp:30-40`): what they write. -/
def maxLoops (input before : Nat → T) (n c hw : Nat) : Nat → Option T :=
  (List.range n).foldl (fun output nidx =>
    (List.range hw).foldl (fun output innerIdx =>
      (List.range c).foldl (maxWrite input before c hw nidx innerIdx) output) output) fun _ => none

/-- `my_reduce_max` (`reducemax.cpp:20-42`): what it writes. It fails on the assertion or on a
    division by 0. -/
def myReduceMax (input before : Nat → T) (inputShape : List Nat) :
    List Nat → Option (Nat → Option T)
  | [] => none
  | axis :: _ =>
    let total := count inputShape 0 inputShape.length
    let n := count inputShape 0 axis
    let c := inputShape.getD axis 0
    if n * c = 0 then none else some (maxLoops input before n c (total / (n * c)))

/-- The value is the maximum of a slice. -/
def SliceMax (input : Nat → T) (shape axes index : List Nat) (v : T) : Prop :=
  (∃ i ∈ fiber shape axes index, input (flat shape i) = v) ∧
    ∀ i ∈ fiber shape axes index, input (flat shape i) ≤ v

/-- Exactly the elements of the reduced tensor are written, each with the maximum of its slice. -/
def ReducesMax (input before : Nat → T) (shape axes : List Nat) : Prop :=
  ∃ output, myReduceMax input before shape axes = some output ∧
    (∀ p, (output p).isSome ↔ p < (reducedShape shape axes).prod) ∧
    ∀ index, Inside (reducedShape shape axes) index →
      ∃ v, output (flat (reducedShape shape axes) index) = some v ∧
        SliceMax input shape axes index v

/-! ## The loops -/

variable {input before : Nat → T}

/-- The maximum of a column. -/
def columnMax (input : Nat → T) (hw base c : Nat) : T :=
  (List.range c).foldl (fun m cidx => max (input (base + cidx * hw)) m) (input base)

theorem columnMax_succ (hw base c : Nat) :
    columnMax input hw base (c + 1) = max (input (base + c * hw)) (columnMax input hw base c) := by
  rw [columnMax, List.range_succ, List.foldl_append, List.foldl_cons, List.foldl_nil]
  rfl

theorem le_columnMax {hw base c l : Nat} (less : l < c) :
    input (base + l * hw) ≤ columnMax input hw base c := by
  induction c with
  | zero => cases less
  | succ c ih =>
    rw [columnMax_succ]
    obtain earlier | rfl := Nat.lt_succ_iff_lt_or_eq.mp less
    · exact (ih earlier).trans (le_max_right _ _)
    · exact le_max_left _ _

theorem exists_columnMax (input : Nat → T) (hw base : Nat) {c : Nat} (positive : 0 < c) :
    ∃ l < c, input (base + l * hw) = columnMax input hw base c := by
  induction c with
  | zero => cases positive
  | succ c ih =>
    rw [columnMax_succ]
    by_cases first : c = 0
    · subst first
      refine ⟨0, Nat.one_pos, ?_⟩
      rw [Nat.zero_mul, Nat.add_zero]
      exact (max_self _).symm
    · obtain ⟨l, less, attains⟩ := ih (Nat.pos_of_ne_zero first)
      obtain last | rest := max_choice (input (base + c * hw)) (columnMax input hw base c)
      · exact ⟨c, Nat.lt_succ_self c, last.symm⟩
      · exact ⟨l, Nat.lt_succ_of_lt less, attains.trans rest.symm⟩

/-- The inner loop writes the maximum of a column. -/
theorem maxColumn_eq {c c' hw nidx innerIdx : Nat} (output : Nat → Option T) :
    (List.range (c' + 1)).foldl (maxWrite input before c hw nidx innerIdx) output =
      Function.update output (nidx * hw + innerIdx)
        (some (columnMax input hw (nidx * c * hw + innerIdx) (c' + 1))) := by
  induction c' with
  | zero =>
    rw [List.range_succ, List.foldl_append, List.foldl_cons, List.foldl_nil]
    simp [maxWrite, columnMax]
  | succ c' ih =>
    rw [List.range_succ, List.foldl_append, ih, List.foldl_cons, List.foldl_nil,
      columnMax_succ _ _ (c' + 1)]
    simp [maxWrite, Nat.add_right_comm _ innerIdx]

/-- The loops write one cell for each column. -/
theorem maxLoops_eq {n c hw : Nat} (cPos : 0 < c) (p : Nat) :
    maxLoops input before n c hw p =
      if p < n * hw then some (columnMax input hw (p / hw * c * hw + p % hw) c) else none := by
  obtain ⟨c', rfl⟩ := Nat.exists_eq_succ_of_ne_zero cPos.ne'
  rw [maxLoops]
  simp only [maxColumn_eq]
  rw [foldl_range_mul]
  have cells := foldl_update (fun j _ =>
    some (columnMax input hw (j / hw * (c' + 1) * hw + j % hw) (c' + 1))) (fun _ => none) 0
    (n * hw) p
  simp only [Nat.zero_add, Nat.zero_le, true_and, Nat.sub_zero] at cells
  simpa only [Nat.div_add_mod'] using cells

/-! ## One axis -/

variable {shape : List Nat} {axis : Nat}

theorem sizes_ne_zero (inShape : axis < shape.length) :
    count shape 0 axis * shape.getD axis 0 = 0 ↔ ¬ 0 < (shape.take (axis + 1)).prod := by
  rw [count_outer, List.take_succ_eq_append_getElem inShape, List.prod_append, List.prod_singleton,
    List.getD_eq_getElem?_getD, List.getElem?_eq_getElem inShape, Option.getD_some,
    Nat.pos_iff_ne_zero, not_not]
  rfl

/-- What the function writes is the reduction over the first axis. -/
theorem myReduceMax_eq (input before : Nat → T) (axes : List Nat) (inShape : axis < shape.length)
    (positive : 0 < (shape.take (axis + 1)).prod) :
    ∃ output, myReduceMax input before shape (axis :: axes) = some output ∧
      (∀ p, (output p).isSome ↔ p < outerSize shape axis * innerSize shape axis) ∧
      ∀ index, Inside (shape.set axis 1) index →
        ∃ v, output (flat (shape.set axis 1) index) = some v ∧
          SliceMax input shape [axis] index v := by
  have some_sizes := (sizes_ne_zero inShape).not.mpr (not_not.mpr positive)
  have sizePos := Nat.pos_of_ne_zero some_sizes
  have cPos : 0 < shape.getD axis 0 := Nat.pos_of_mul_pos_left sizePos
  have hw : count shape 0 shape.length / (count shape 0 axis * shape.getD axis 0) =
      innerSize shape axis := by
    rw [count_all, prod_eq inShape, ← count_outer, ← Nat.mul_assoc,
      Nat.mul_div_cancel_left _ sizePos]
  refine ⟨_, if_neg some_sizes, fun p => ?_, fun index inside => ?_⟩
  · rw [hw, maxLoops_eq cPos, count_outer]
    split <;> simp_all
  · obtain ⟨o, oLess, s, sLess, place, slice⟩ := exists_place_reduced inside inShape
    have cells : ∀ l, o * shape.getD axis 0 * innerSize shape axis + s + l * innerSize shape axis =
        flat shape (index.set axis l) := fun l => by
      rw [slice, Nat.mul_assoc, Nat.add_right_comm]
    refine ⟨columnMax input (innerSize shape axis)
      (o * shape.getD axis 0 * innerSize shape axis + s) (shape.getD axis 0), ?_, ?_, ?_⟩
    · rw [hw, maxLoops_eq cPos, count_outer, place, if_pos (place_lt oLess sLess), place_div sLess,
        place_mod sLess]
    · obtain ⟨l, less, attains⟩ := exists_columnMax input (innerSize shape axis)
        (o * shape.getD axis 0 * innerSize shape axis + s) cPos
      exact ⟨_, (mem_fiber_singleton inside inShape).mpr ⟨l, less, rfl⟩, cells l ▸ attains⟩
    · intro i member
      obtain ⟨l, less, rfl⟩ := (mem_fiber_singleton inside inShape).mp member
      rw [← cells]
      exact le_columnMax less

theorem myReduceMax_none (axes : List Nat) (inShape : axis < shape.length)
    (empty : ¬ 0 < (shape.take (axis + 1)).prod) :
    myReduceMax input before shape (axis :: axes) = none :=
  if_pos ((sizes_ne_zero inShape).mpr empty)

/-! ## Several axes -/

/-- Axes of length 1 make no difference to a slice. -/
theorem fiber_unit_axes {axes index : List Nat} (unit : ∀ a ∈ axes, shape.getD a 0 = 1)
    (inside : Inside (reducedShape shape (axis :: axes)) index) :
    fiber shape (axis :: axes) index = fiber shape [axis] index := by
  refine List.filter_congr fun i member => decide_eq_decide.mpr ?_
  have insideI := mem_indices.mp member
  constructor
  · intro agree a less differ
    by_cases listed : a ∈ axes
    · have below := insideI.2 a less
      have below' := inside.2 a (length_reducedShape.symm ▸ less)
      rw [getD_reducedShape less, if_pos (List.mem_cons_of_mem axis listed)] at below'
      rw [unit a listed] at below
      omega
    · refine agree a less fun inCons => ?_
      obtain rfl | inAxes := List.mem_cons.mp inCons
      · exact differ (List.mem_singleton_self a)
      · exact listed inAxes
  · intro agree a less differ
    refine agree a less fun inSingle => ?_
    rw [List.mem_singleton.mp inSingle] at differ
    exact differ List.mem_cons_self

theorem reducedShape_unit_axes {axes : List Nat} (unit : ∀ a ∈ axes, shape.getD a 0 = 1) :
    reducedShape shape (axis :: axes) = shape.set axis 1 := by
  have same : reducedShape shape axes = shape := by
    refine List.ext_getElem length_reducedShape fun a less less' => ?_
    simp only [reducedShape, List.getElem_mapIdx]
    split
    · next listed =>
      have one := unit a listed
      rw [List.getD_eq_getElem?_getD, List.getElem?_eq_getElem less', Option.getD_some] at one
      exact one.symm
    · rfl
  rw [reducedShape_cons, same]

theorem prod_eq_one_iff {lengths : List Nat} : lengths.prod = 1 ↔ ∀ d ∈ lengths, d = 1 := by
  induction lengths with
  | nil => simp
  | cons d lengths ih =>
    rw [List.prod_cons, List.forall_mem_cons, ← ih]
    constructor
    · intro one
      exact ⟨Nat.eq_one_of_mul_eq_one_right one, Nat.eq_one_of_mul_eq_one_left one⟩
    · rintro ⟨one, rest⟩
      rw [one, rest]

/-- The lengths of the axes from `first` on. -/
theorem forall_mem_slice {first k : Nat} (inRange : first + k ≤ shape.length) :
    (∀ d ∈ (shape.drop first).take k, d = 1) ↔
      ∀ a, first ≤ a → a < first + k → shape.getD a 0 = 1 := by
  have at_index (j : Nat) (less : j < k) :
      ((shape.drop first).take k)[j]? = shape[first + j]? := by
    rw [List.getElem?_take, if_pos less, List.getElem?_drop]
  constructor
  · intro ones a from_first below
    have inShape : a < shape.length := by omega
    have here := at_index (a - first) (by omega)
    rw [Nat.add_sub_cancel' from_first, List.getElem?_eq_getElem inShape] at here
    rw [List.getD_eq_getElem?_getD, List.getElem?_eq_getElem inShape, Option.getD_some]
    exact ones _ (List.mem_of_getElem? here)
  · intro ones d member
    obtain ⟨j, here⟩ := List.mem_iff_getElem?.mp member
    have below : j < k := by
      have inSlice := (List.getElem?_eq_some_iff.mp here).1
      rw [List.length_take] at inSlice
      omega
    have one := ones (first + j) (Nat.le_add_right _ _) (by omega)
    rw [at_index j below] at here
    rwa [List.getD_eq_getElem?_getD, here, Option.getD_some] at one

/-- The size of a tensor that is reduced over the axis and `k` more behind it. -/
theorem prod_reducedShape_range' {k : Nat} (inRange : axis + (k + 1) ≤ shape.length) :
    (reducedShape shape (List.range' axis (k + 1))).prod =
      outerSize shape axis * (shape.drop (axis + (k + 1))).prod := by
  rw [reducedShape_range' inRange, List.prod_append, List.prod_append, List.prod_replicate_nat,
    Nat.one_pow, Nat.one_mul]
  rfl

/-- The elements behind the axis are those of the `k` more axes and of the rest. -/
theorem innerSize_split (shape : List Nat) (axis k : Nat) :
    innerSize shape axis =
      ((shape.drop (axis + 1)).take k).prod * (shape.drop (axis + (k + 1))).prod := by
  rw [innerSize, ← List.prod_take_mul_prod_drop _ k, List.drop_drop]
  congr 3
  omega

/-- The `k` more axes have length 1. -/
theorem prod_behind_eq_one_iff {k : Nat} (inRange : axis + (k + 1) ≤ shape.length) :
    ((shape.drop (axis + 1)).take k).prod = 1 ↔
      ∀ a, axis < a → a < axis + (k + 1) → shape.getD a 0 = 1 := by
  rw [prod_eq_one_iff, forall_mem_slice (by omega), show axis + 1 + k = axis + (k + 1) by omega]
  rfl

/-- The function reduces neighbouring axes exactly when all but the first have length 1, apart from
    tensors without elements. -/
theorem myReduceMax_iff (input before : Nat → T) (shape : List Nat) (axis k : Nat) (listed : 0 < k)
    (inRange : axis + k ≤ shape.length) :
    ReducesMax input before shape (List.range' axis k) ↔
      0 < (shape.take (axis + 1)).prod ∧
        ((∀ a, axis < a → a < axis + k → shape.getD a 0 = 1) ∨
          (shape.drop (axis + k)).prod = 0) := by
  obtain ⟨k, rfl⟩ := Nat.exists_eq_succ_of_ne_zero listed.ne'
  have inShape : axis < shape.length := by omega
  have elements := prod_reducedShape_range' inRange
  have ones := prod_behind_eq_one_iff inRange
  rw [← ones]
  by_cases positive : 0 < (shape.take (axis + 1)).prod
  · obtain ⟨output, runs, written, values⟩ := myReduceMax_eq input before
      (List.range' (axis + 1) k) inShape positive
    rw [innerSize_split shape axis k] at written
    have outerPos : 0 < outerSize shape axis := by
      rw [List.take_succ_eq_append_getElem inShape, List.prod_append] at positive
      exact Nat.pos_of_mul_pos_right positive
    constructor
    · rintro ⟨output', runs', written', -⟩
      obtain rfl := Option.some.inj (runs.symm.trans runs')
      refine ⟨positive, ?_⟩
      have same : ∀ p, p < outerSize shape axis * (((shape.drop (axis + 1)).take k).prod *
          (shape.drop (axis + (k + 1))).prod) ↔
          p < outerSize shape axis * (shape.drop (axis + (k + 1))).prod := fun p => by
        rw [← written, written', elements]
      have count := Nat.eq_of_mul_eq_mul_left outerPos (eq_of_forall_lt_iff same)
      exact (Nat.eq_zero_or_pos _).symm.imp_left fun behind =>
        Nat.eq_of_mul_eq_mul_right behind (count.trans (Nat.one_mul _).symm)
    · rintro ⟨-, unit | behind⟩
      · have unit' : ∀ a ∈ List.range' (axis + 1) k, shape.getD a 0 = 1 := fun a member => by
          have inRange := List.mem_range'_1.mp member
          exact ones.mp unit a (by omega) (by omega)
        refine ⟨output, runs, fun p => ?_, fun index inside => ?_⟩
        · rw [written, elements, unit, Nat.one_mul]
        · have slices := fiber_unit_axes unit' inside
          rw [List.range'_succ, reducedShape_unit_axes unit'] at inside ⊢
          obtain ⟨v, here, greatest⟩ := values index inside
          refine ⟨v, here, ?_⟩
          rw [SliceMax, slices]
          exact greatest
      · refine ⟨output, runs, fun p => ?_, fun index inside => ?_⟩
        · rw [written, elements, behind, Nat.mul_zero]
        · have below := flat_lt inside
          rw [elements, behind, Nat.mul_zero] at below
          exact absurd below (Nat.not_lt_zero _)
  · constructor
    · rintro ⟨output, runs, -⟩
      rw [List.range'_succ, myReduceMax_none _ inShape positive] at runs
      cases runs
    · rintro ⟨positive', -⟩
      exact absurd positive' positive

/-- The last axis has length 1. -/
theorem myReduceMax_iff_unit :
    ReducesMax (fun p => p) (fun _ => 0) [2, 3, 1] (List.range' 1 2) ↔
      0 < ([2, 3, 1].take (1 + 1)).prod ∧
        ((∀ a, 1 < a → a < 1 + 2 → [2, 3, 1].getD a 0 = 1) ∨ ([2, 3, 1].drop (1 + 2)).prod = 0) :=
  myReduceMax_iff _ _ [2, 3, 1] 1 2 (by decide) (by decide)

/-- A matrix over both axes: two elements are written instead of one. -/
theorem myReduceMax_twoAxes : ¬ ReducesMax (fun p => p) (fun _ => 0) [2, 2] (List.range' 0 2) := by
  rintro ⟨output, runs, written, -⟩
  obtain rfl := Option.some.inj runs
  exact absurd ((written 1).mp (by decide)) (by decide)

end

end CviRuntime.CpuFunction
