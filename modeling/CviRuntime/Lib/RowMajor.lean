import Mathlib.Algebra.BigOperators.Group.List.Basic
import Mathlib.Algebra.Order.Ring.Nat
import Mathlib.Data.List.Forall2
import Mathlib.Data.List.Nodup

/-!
# Tensors in row-major order

An element of a tensor has an index for each axis, and a position in the flat buffer. A slice over
some axes consists of the elements whose other indices agree with a given one.
-/

namespace CviRuntime.RowMajor

/-- The index is one of a tensor of this shape. -/
def Inside (shape index : List Nat) : Prop :=
  index.length = shape.length ∧ ∀ a < shape.length, index.getD a 0 < shape.getD a 0

instance (shape index : List Nat) : Decidable (Inside shape index) :=
  inferInstanceAs (Decidable (_ ∧ _))

/-- The position of an element. -/
def flat : List Nat → List Nat → Nat
  | _ :: shape, i :: index => i * shape.prod + flat shape index
  | _, _ => 0

/-- The indices in the order of the positions. -/
def indices : List Nat → List (List Nat)
  | [] => [[]]
  | d :: shape => (List.range d).flatMap fun i => (indices shape).map (i :: ·)

/-- The indices that agree with the given one outside of the axes. -/
def fiber (shape axes index : List Nat) : List (List Nat) :=
  (indices shape).filter fun i => ∀ a < shape.length, a ∉ axes → i.getD a 0 = index.getD a 0

/-- The shape after the axes have been reduced to a single element. -/
def reducedShape (shape axes : List Nat) : List Nat :=
  shape.mapIdx fun a d => if a ∈ axes then 1 else d

/-! ## Indices and positions -/

theorem place_lt {m n o s : Nat} (outer : o < m) (inner : s < n) : o * n + s < m * n :=
  calc o * n + s < (o + 1) * n := by
        rw [Nat.succ_mul]
        exact Nat.add_lt_add_left inner _
    _ ≤ m * n := Nat.mul_le_mul_right n outer

theorem place_div {n o s : Nat} (inner : s < n) : (o * n + s) / n = o := by
  rw [Nat.mul_comm, Nat.mul_add_div (Nat.zero_lt_of_lt inner), Nat.div_eq_of_lt inner, Nat.add_zero]

theorem place_mod {n o s : Nat} (inner : s < n) : (o * n + s) % n = s := by
  rw [Nat.mul_comm, Nat.mul_add_mod, Nat.mod_eq_of_lt inner]

theorem inside_nil {index : List Nat} : Inside [] index ↔ index = [] := by
  constructor
  · intro inside
    exact List.eq_nil_of_length_eq_zero inside.1
  · rintro rfl
    exact ⟨rfl, fun a less => absurd less (Nat.not_lt_zero a)⟩

theorem inside_cons {d i : Nat} {shape index : List Nat} :
    Inside (d :: shape) (i :: index) ↔ i < d ∧ Inside shape index := by
  constructor
  · intro inside
    refine ⟨inside.2 0 (Nat.succ_pos _), Nat.succ.inj inside.1, fun a less => ?_⟩
    exact inside.2 (a + 1) (Nat.succ_lt_succ less)
  · rintro ⟨less, length, rest⟩
    refine ⟨congrArg Nat.succ length, fun a inShape => ?_⟩
    cases a with
    | zero => exact less
    | succ a => exact rest a (Nat.lt_of_succ_lt_succ inShape)

theorem inside_pair {d e i j : Nat} : Inside [d, e] [i, j] ↔ i < d ∧ j < e := by
  rw [inside_cons, inside_cons, inside_nil, eq_self_iff_true, and_true]

theorem inside_triple {d e f i j k : Nat} :
    Inside [d, e, f] [i, j, k] ↔ i < d ∧ j < e ∧ k < f := by
  rw [inside_cons, inside_pair]

theorem inside_quadruple {d e f g i j k l : Nat} :
    Inside [d, e, f, g] [i, j, k, l] ↔ i < d ∧ j < e ∧ k < f ∧ l < g := by
  rw [inside_cons, inside_triple]

theorem mem_indices {shape index : List Nat} : index ∈ indices shape ↔ Inside shape index := by
  induction shape generalizing index with
  | nil => rw [indices, List.mem_singleton, inside_nil]
  | cons d shape ih =>
    rw [indices, List.mem_flatMap]
    constructor
    · rintro ⟨i, inRange, member⟩
      obtain ⟨rest, inRest, rfl⟩ := List.mem_map.mp member
      exact inside_cons.mpr ⟨List.mem_range.mp inRange, ih.mp inRest⟩
    · intro inside
      cases index with
      | nil => cases inside.1
      | cons i rest =>
        obtain ⟨less, inRest⟩ := inside_cons.mp inside
        exact ⟨i, List.mem_range.mpr less, List.mem_map_of_mem (ih.mpr inRest)⟩

theorem nodup_indices (shape : List Nat) : (indices shape).Nodup := by
  induction shape with
  | nil => exact List.nodup_singleton _
  | cons d shape ih =>
    refine List.nodup_flatMap.mpr ⟨fun i _ => ih.map (List.cons_injective (a := i)), ?_⟩
    refine List.nodup_range.imp fun {i j} differ => ?_
    intro index left right
    obtain ⟨_, -, rfl⟩ := List.mem_map.mp left
    obtain ⟨_, -, same⟩ := List.mem_map.mp right
    exact differ (List.cons.inj same).1.symm

/-- The positions of all indices, in order, are those of the buffer. -/
theorem map_flat_indices (shape : List Nat) :
    (indices shape).map (flat shape) = List.range shape.prod := by
  induction shape with
  | nil => rfl
  | cons d shape ih =>
    have row : ∀ i, ((indices shape).map (i :: ·)).map (flat (d :: shape)) =
        (List.range shape.prod).map (i * shape.prod + ·) := fun i => by
      rw [List.map_map, ← ih, List.map_map]
      rfl
    have rows : ∀ n, (List.range n).flatMap (fun i =>
        (List.range shape.prod).map (i * shape.prod + ·)) = List.range (n * shape.prod) := by
      intro n
      induction n with
      | zero => rw [Nat.zero_mul]; rfl
      | succ n ih =>
        rw [List.range_succ, List.flatMap_append, ih, Nat.succ_mul, List.range_add,
          List.flatMap_singleton]
    rw [indices, List.map_flatMap, List.prod_cons, ← rows d]
    simp only [row]

theorem flat_lt {shape index : List Nat} (inside : Inside shape index) :
    flat shape index < shape.prod := by
  have image := List.mem_map_of_mem (f := flat shape) (mem_indices.mpr inside)
  rw [map_flat_indices] at image
  exact List.mem_range.mp image

/-- Every position of the buffer is that of an index. -/
theorem exists_index {shape : List Nat} {p : Nat} (less : p < shape.prod) :
    ∃ index, Inside shape index ∧ flat shape index = p := by
  have image := List.mem_range.mpr less
  rw [← map_flat_indices] at image
  obtain ⟨index, member, place⟩ := List.mem_map.mp image
  exact ⟨index, mem_indices.mp member, place⟩

/-- The position of an element whose index consists of two parts. -/
theorem flat_append {shape shape' index index' : List Nat} (length : index.length = shape.length) :
    flat (shape ++ shape') (index ++ index') =
      flat shape index * shape'.prod + flat shape' index' := by
  induction shape generalizing index with
  | nil =>
    obtain rfl := List.eq_nil_of_length_eq_zero length
    simp [flat]
  | cons d shape ih =>
    cases index with
    | nil => cases length
    | cons i index =>
      rw [List.cons_append, List.cons_append, flat, flat, ih (Nat.succ.inj length),
        List.prod_append, Nat.add_mul, Nat.mul_assoc, Nat.add_assoc]

theorem inside_append {shape shape' index index' : List Nat}
    (inside : Inside shape index) (inside' : Inside shape' index') :
    Inside (shape ++ shape') (index ++ index') := by
  induction shape generalizing index with
  | nil =>
    obtain rfl := inside_nil.mp inside
    exact inside'
  | cons d shape ih =>
    cases index with
    | nil => cases inside.1
    | cons i index =>
      obtain ⟨less, inside⟩ := inside_cons.mp inside
      exact inside_cons.mpr ⟨less, ih inside⟩

/-! ## Slices -/

section

variable {shape axes index : List Nat} {axis : Nat}

theorem mem_fiber {i : List Nat} :
    i ∈ fiber shape axes index ↔
      Inside shape i ∧ ∀ a < shape.length, a ∉ axes → i.getD a 0 = index.getD a 0 := by
  rw [fiber, List.mem_filter, mem_indices, decide_eq_true_eq]

theorem nodup_fiber (shape axes index : List Nat) : (fiber shape axes index).Nodup :=
  (nodup_indices shape).filter _

theorem getD_set (xs : List Nat) (a b x : Nat) :
    (xs.set a x).getD b 0 = if b = a ∧ a < xs.length then x else xs.getD b 0 := by
  rw [List.getD_eq_getElem?_getD, List.getD_eq_getElem?_getD, List.getElem?_set]
  by_cases same : a = b
  · subst same
    by_cases inList : a < xs.length
    · simp [inList]
    · simp [inList]
  · rw [if_neg same, if_neg fun both => same both.1.symm]

theorem set_getD_self (xs : List Nat) (a : Nat) : xs.set a (xs.getD a 0) = xs := by
  refine List.ext_getElem? fun b => ?_
  rw [List.getElem?_set]
  by_cases same : a = b
  · subst same
    by_cases inList : a < xs.length
    · simp [inList]
    · simp [inList]
  · rw [if_neg same]

/-- A slice over one axis more is made of slices, one for each index of that axis. -/
theorem fiber_cons (fresh : axis ∉ axes) (inShape : axis < shape.length)
    (length : index.length = shape.length) :
    (fiber shape (axis :: axes) index).Perm
      ((List.range (shape.getD axis 0)).flatMap fun l => fiber shape axes (index.set axis l)) := by
  have at_axis : ∀ {l : Nat} {i : List Nat}, i ∈ fiber shape axes (index.set axis l) →
      i.getD axis 0 = l := fun {l i} member => by
    rw [(mem_fiber.mp member).2 axis inShape fresh, getD_set, if_pos ⟨rfl, length ▸ inShape⟩]
  have distinct : ((List.range (shape.getD axis 0)).flatMap fun l =>
      fiber shape axes (index.set axis l)).Nodup := by
    refine List.nodup_flatMap.mpr ⟨fun l _ => nodup_fiber _ _ _, ?_⟩
    refine List.nodup_range.imp fun {l l'} differ i left right => ?_
    exact differ ((at_axis left).symm.trans (at_axis right))
  refine (List.perm_ext_iff_of_nodup (nodup_fiber _ _ _) distinct).mpr fun i => ?_
  rw [List.mem_flatMap, mem_fiber]
  constructor
  · rintro ⟨inside, agree⟩
    refine ⟨i.getD axis 0, List.mem_range.mpr (inside.2 axis inShape), mem_fiber.mpr ⟨inside, ?_⟩⟩
    intro a less notIn
    rw [getD_set]
    split
    · next same => rw [same.1]
    · next other =>
      have differ : a ≠ axis := fun same => other ⟨same, length ▸ inShape⟩
      exact agree a less (List.not_mem_cons_of_ne_of_not_mem differ notIn)
  · rintro ⟨l, -, member⟩
    obtain ⟨inside, agree⟩ := mem_fiber.mp member
    refine ⟨inside, fun a less notIn => ?_⟩
    obtain ⟨differ, notIn⟩ := List.ne_and_not_mem_of_not_mem_cons notIn
    rw [agree a less notIn, getD_set, if_neg fun same => differ same.1]

/-- A slice over no axis is a single element. -/
theorem fiber_nil (inside : Inside shape index) : fiber shape [] index = [index] := by
  have single : ∀ i, i ∈ fiber shape [] index ↔ i = index := fun i => by
    rw [mem_fiber]
    constructor
    · rintro ⟨insideI, agree⟩
      refine List.ext_getElem (insideI.1.trans inside.1.symm) fun a less less' => ?_
      have same := agree a (insideI.1 ▸ less) List.not_mem_nil
      simpa [List.getD_eq_getElem?_getD, less, less'] using same
    · rintro rfl
      exact ⟨inside, fun _ _ _ => rfl⟩
  refine List.perm_singleton.mp ?_
  refine (List.perm_ext_iff_of_nodup (nodup_fiber _ _ _) (List.nodup_singleton _)).mpr fun i => ?_
  rw [single, List.mem_singleton]

theorem fiber_congr {axes' : List Nat} (same : ∀ a, a ∈ axes ↔ a ∈ axes') :
    fiber shape axes index = fiber shape axes' index := by
  simp only [fiber, same]

theorem reducedShape_congr {axes' : List Nat} (same : ∀ a, a ∈ axes ↔ a ∈ axes') :
    reducedShape shape axes = reducedShape shape axes' := by
  simp only [reducedShape, same]

theorem length_reducedShape : (reducedShape shape axes).length = shape.length := by
  rw [reducedShape, List.length_mapIdx]

theorem getD_reducedShape {a : Nat} (inShape : a < shape.length) :
    (reducedShape shape axes).getD a 0 = if a ∈ axes then 1 else shape.getD a 0 := by
  simp [reducedShape, List.getD_eq_getElem?_getD, inShape]

theorem reducedShape_nil : reducedShape shape [] = shape := by
  refine List.ext_getElem? fun a => ?_
  simp [reducedShape, List.getElem?_mapIdx]

theorem reducedShape_cons :
    reducedShape shape (axis :: axes) = (reducedShape shape axes).set axis 1 := by
  refine List.ext_getElem? fun a => ?_
  rw [List.getElem?_set, length_reducedShape]
  by_cases same : axis = a
  · subst same
    by_cases inShape : axis < shape.length
    · simp [reducedShape, inShape]
    · simp [reducedShape, inShape]
  · simp [reducedShape, List.getElem?_mapIdx, same, Ne.symm same]

/-- After the reduction of neighbouring axes. -/
theorem reducedShape_range' {k : Nat} (inShape : axis + k ≤ shape.length) :
    reducedShape shape (List.range' axis k) =
      shape.take axis ++ (List.replicate k 1 ++ shape.drop (axis + k)) := by
  refine List.ext_getElem? fun a => ?_
  rw [reducedShape, List.getElem?_mapIdx]
  simp only [List.mem_range'_1]
  by_cases before : a < axis
  · rw [List.getElem?_append_left (by rw [List.length_take]; omega), List.getElem?_take,
      if_pos before]
    simp only [if_neg (show ¬ (axis ≤ a ∧ a < axis + k) by omega), Option.map_id']
  · rw [List.getElem?_append_right (by rw [List.length_take]; omega), List.length_take,
      Nat.min_eq_left (by omega)]
    by_cases listed : a < axis + k
    · rw [List.getElem?_append_left (by rw [List.length_replicate]; omega),
        List.getElem?_replicate, if_pos (by omega), List.getElem?_eq_getElem (by omega),
        Option.map_some, if_pos (by omega)]
    · rw [List.getElem?_append_right (by rw [List.length_replicate]; omega), List.length_replicate,
        List.getElem?_drop, show axis + k + (a - axis - k) = a by omega]
      simp only [if_neg (show ¬ (axis ≤ a ∧ a < axis + k) by omega), Option.map_id']

/-- An index of the reduced tensor, with any index put in at the reduced axis. -/
theorem Inside.of_set {d l : Nat} (inside : Inside (shape.set axis d) index)
    (less : l < shape.getD axis 0) :
    Inside shape (index.set axis l) := by
  have length : index.length = shape.length := inside.1.trans List.length_set
  refine ⟨List.length_set.trans length, fun a inShape' => ?_⟩
  have below := inside.2 a (List.length_set.symm ▸ inShape')
  rw [getD_set] at below ⊢
  rw [length]
  by_cases same : a = axis ∧ axis < shape.length
  · rw [if_pos same, same.1]
    exact less
  · rw [if_neg same] at below ⊢
    exact below

/-- A slice over one axis. -/
theorem fiber_singleton {d : Nat} (inside : Inside (shape.set axis d) index)
    (inShape : axis < shape.length) :
    (fiber shape [axis] index).Perm
      ((List.range (shape.getD axis 0)).map fun l => index.set axis l) := by
  refine (fiber_cons List.not_mem_nil inShape (inside.1.trans List.length_set)).trans ?_
  have single : ∀ l ∈ List.range (shape.getD axis 0),
      fiber shape [] (index.set axis l) = [index.set axis l] := fun l member =>
    fiber_nil (inside.of_set (List.mem_range.mp member))
  rw [List.flatMap_congr single, List.map_eq_flatMap]

theorem mem_fiber_singleton {d : Nat} (inside : Inside (shape.set axis d) index)
    (inShape : axis < shape.length) {i : List Nat} :
    i ∈ fiber shape [axis] index ↔ ∃ l < shape.getD axis 0, i = index.set axis l := by
  rw [(fiber_singleton inside inShape).mem_iff, List.mem_map]
  constructor
  · rintro ⟨l, less, rfl⟩
    exact ⟨l, List.mem_range.mp less, rfl⟩
  · rintro ⟨l, less, rfl⟩
    exact ⟨l, List.mem_range.mpr less, rfl⟩

/-- An index along an axis that is reduced last is put in at this axis. -/
theorem Inside.set_reduced {a : Nat} (fresh : a ∉ axes) (inShape : a < shape.length)
    (inside : Inside (reducedShape shape (a :: axes)) index) :
    index.length = shape.length ∧
      ∀ l ∈ List.range (shape.getD a 0), Inside (reducedShape shape axes) (index.set a l) := by
  rw [reducedShape_cons] at inside
  have inReduced : (reducedShape shape axes).getD a 0 = shape.getD a 0 := by
    rw [getD_reducedShape inShape, if_neg fresh]
  exact ⟨inside.1.trans (List.length_set.trans length_reducedShape),
    fun l member => inside.of_set (inReduced ▸ List.mem_range.mp member)⟩

/-- Slices have one element for each index of the reduced axes. -/
theorem length_fiber (distinct : axes.Nodup)
    (inRange : ∀ a ∈ axes, a < shape.length) (inside : Inside (reducedShape shape axes) index) :
    (fiber shape axes index).length = (axes.map fun a => shape.getD a 0).prod := by
  induction axes generalizing index with
  | nil =>
    rw [reducedShape_nil] at inside
    rw [fiber_nil inside]
    rfl
  | cons a axes ih =>
    obtain ⟨fresh, distinct⟩ := List.nodup_cons.mp distinct
    obtain ⟨inShape, inRange⟩ := List.forall_mem_cons.mp inRange
    obtain ⟨length, put⟩ := inside.set_reduced fresh inShape
    have each : ∀ l ∈ List.range (shape.getD a 0), (fiber shape axes (index.set a l)).length =
        (axes.map fun a => shape.getD a 0).prod := fun l member =>
      ih distinct inRange (put l member)
    rw [(fiber_cons fresh inShape length).length_eq, List.length_flatMap, List.map_congr_left each,
      List.map_cons, List.prod_cons, List.map_const', List.sum_replicate_nat, List.length_range]

end

/-! ## One axis -/

/-- The number of elements of the axes before the axis, and of those behind it. -/
def outerSize (shape : List Nat) (axis : Nat) : Nat := (shape.take axis).prod

def innerSize (shape : List Nat) (axis : Nat) : Nat := (shape.drop (axis + 1)).prod

section

variable {shape axes index : List Nat} {axis : Nat}

theorem prod_eq (inShape : axis < shape.length) :
    shape.prod = outerSize shape axis * (shape.getD axis 0 * innerSize shape axis) := by
  have split := List.prod_take_mul_prod_drop shape axis
  rw [List.drop_eq_getElem_cons inShape, List.prod_cons] at split
  simp only [outerSize, innerSize, List.getD_eq_getElem?_getD, List.getElem?_eq_getElem inShape,
    Option.getD_some]
  exact split.symm

theorem prod_set (d : Nat) (inShape : axis < shape.length) :
    (shape.set axis d).prod = outerSize shape axis * (d * innerSize shape axis) := by
  rw [List.prod_set, if_pos inShape, Nat.mul_assoc]
  rfl

/-- The parts of an index before and behind the axis tell where all elements of the slice are,
    whatever the length of the axis. -/
theorem exists_place (inside : Inside shape index) (inShape : axis < shape.length) :
    ∃ o < outerSize shape axis, ∃ s < innerSize shape axis, ∀ d l,
      flat (shape.set axis d) (index.set axis l) =
        o * (d * innerSize shape axis) + l * innerSize shape axis + s := by
  induction shape generalizing index axis with
  | nil => cases inShape
  | cons d₀ shape ih =>
    cases index with
    | nil => cases inside.1
    | cons i index =>
      obtain ⟨less, inside⟩ := inside_cons.mp inside
      cases axis with
      | zero =>
        refine ⟨0, Nat.one_pos, flat shape index, flat_lt inside, fun d l => ?_⟩
        rw [Nat.zero_mul, Nat.zero_add]
        rfl
      | succ axis =>
        have inShape : axis < shape.length := Nat.lt_of_succ_lt_succ inShape
        obtain ⟨o, oLess, s, sLess, place⟩ := ih inside inShape
        have outer : outerSize (d₀ :: shape) (axis + 1) = d₀ * outerSize shape axis :=
          List.prod_cons
        refine ⟨i * outerSize shape axis + o, ?_, s, sLess, fun d l => ?_⟩
        · rw [outer]
          exact place_lt less oLess
        · have inner : innerSize (d₀ :: shape) (axis + 1) = innerSize shape axis := rfl
          rw [List.set_cons_succ, List.set_cons_succ, flat, place, prod_set d inShape, inner,
            Nat.add_mul, Nat.mul_assoc, Nat.add_assoc, Nat.add_assoc, Nat.add_assoc]

/-- The places of a slice, for an index of the tensor. -/
theorem exists_place_self (inside : Inside shape index) (inShape : axis < shape.length) :
    ∃ o < outerSize shape axis, ∃ s < innerSize shape axis, ∀ l,
      flat shape (index.set axis l) =
        o * (shape.getD axis 0 * innerSize shape axis) + l * innerSize shape axis + s := by
  obtain ⟨o, oLess, s, sLess, place⟩ := exists_place inside inShape
  refine ⟨o, oLess, s, sLess, fun l => ?_⟩
  rw [← place, set_getD_self]

/-- The place of an element of the reduced tensor, and those of its slice. -/
theorem exists_place_reduced (inside : Inside (shape.set axis 1) index)
    (inShape : axis < shape.length) :
    ∃ o < outerSize shape axis, ∃ s < innerSize shape axis,
      flat (shape.set axis 1) index = o * innerSize shape axis + s ∧
      ∀ l, flat shape (index.set axis l) =
        o * (shape.getD axis 0 * innerSize shape axis) + l * innerSize shape axis + s := by
  have inShape' : axis < (shape.set axis 1).length := List.length_set.symm ▸ inShape
  obtain ⟨o, oLess, s, sLess, place⟩ := exists_place inside inShape'
  have outer : outerSize (shape.set axis 1) axis = outerSize shape axis := by
    rw [outerSize, outerSize, List.take_set_of_le (Nat.le_refl axis)]
  have inner : innerSize (shape.set axis 1) axis = innerSize shape axis := by
    rw [innerSize, innerSize, List.drop_set_of_lt (Nat.lt_succ_self axis)]
  rw [outer] at oLess
  rw [inner] at sLess place
  simp only [List.set_set] at place
  refine ⟨o, oLess, s, sLess, ?_, fun l => ?_⟩
  · have zero : index.getD axis 0 = 0 := by
      have less := inside.2 axis inShape'
      rw [getD_set, if_pos ⟨rfl, inShape⟩] at less
      exact Nat.lt_one_iff.mp less
    have whole := place 1 0
    rw [← zero, set_getD_self, zero, Nat.one_mul, Nat.zero_mul, Nat.add_zero] at whole
    exact whole
  · have whole := place (shape.getD axis 0) l
    rwa [set_getD_self] at whole

end

end CviRuntime.RowMajor
