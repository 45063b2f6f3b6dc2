import CviRuntime.Lib.Scatter
import Mathlib.Tactic.Ring

/-!
# Gathering elements (`src/common/cpu_function/gatherelements_pt.cpp`)

The kernels differ in the rank and in the axis. Each is the loops over an index tensor and a formula
for the place to read, in the value of the index tensor at the current element. The formula is the
position, in the input, of the current index with this value put in at the axis.
-/

namespace CviRuntime.CpuFunction

open CviRuntime.RowMajor CviRuntime.Scatter

/-! ## The kernels -/

section

variable (shape orgShape : List Nat)

/-- `gather_dim1_0` (`gatherelements_pt.cpp:22-29`): for each pass, the place in `src` as a function
    of `*idx`. -/
def gatherDim1_0 : List (Int → Int) :=
  (List.range (shape.getD 0 0)).map fun _ idx => idx

/-- `gather_dim2_0` (`:31-40`). -/
def gatherDim2_0 : List (Int → Int) :=
  (List.range (shape.getD 0 0)).flatMap fun _ =>
    (List.range (shape.getD 1 0)).map fun (j : Nat) idx => idx * orgShape.getD 1 0 + j

/-- `gather_dim2_1` (`:42-52`). -/
def gatherDim2_1 : List (Int → Int) :=
  (List.range (shape.getD 0 0)).flatMap fun i =>
    let idxI := i * orgShape.getD 1 0
    (List.range (shape.getD 1 0)).map fun _ idx => idxI + idx

/-- `gather_dim3_0` (`:54-67`). -/
def gatherDim3_0 : List (Int → Int) :=
  let shape12 := orgShape.getD 1 0 * orgShape.getD 2 0
  (List.range (shape.getD 0 0)).flatMap fun _ =>
    (List.range (shape.getD 1 0)).flatMap fun j =>
      let idxJ := j * orgShape.getD 2 0
      (List.range (shape.getD 2 0)).map fun (k : Nat) idx => idx * shape12 + idxJ + k

/-- `gather_dim3_1` (`:69-82`). -/
def gatherDim3_1 : List (Int → Int) :=
  let shape12 := orgShape.getD 1 0 * orgShape.getD 2 0
  (List.range (shape.getD 0 0)).flatMap fun i =>
    let idxI := i * shape12
    (List.range (shape.getD 1 0)).flatMap fun _ =>
      (List.range (shape.getD 2 0)).map fun (k : Nat) idx => idxI + idx * orgShape.getD 2 0 + k

/-- `gather_dim3_2` (`:84-98`). -/
def gatherDim3_2 : List (Int → Int) :=
  let shape12 := orgShape.getD 1 0 * orgShape.getD 2 0
  (List.range (shape.getD 0 0)).flatMap fun i =>
    let idxI := i * shape12
    (List.range (shape.getD 1 0)).flatMap fun j =>
      let idxJ := idxI + j * orgShape.getD 2 0
      (List.range (shape.getD 2 0)).map fun _ idx => idxJ + idx

/-- `gather_dim4_0` (`:100-117`). -/
def gatherDim4_0 : List (Int → Int) :=
  let shape123 := orgShape.getD 1 0 * orgShape.getD 2 0 * orgShape.getD 3 0
  let shape23 := orgShape.getD 2 0 * orgShape.getD 3 0
  (List.range (shape.getD 0 0)).flatMap fun _ =>
    (List.range (shape.getD 1 0)).flatMap fun j =>
      let idxJ := j * shape23
      (List.range (shape.getD 2 0)).flatMap fun k =>
        let idxK := idxJ + k * orgShape.getD 3 0
        (List.range (shape.getD 3 0)).map fun (g : Nat) idx => idx * shape123 + idxK + g

/-- `gather_dim4_1` (`:119-136`). -/
def gatherDim4_1 : List (Int → Int) :=
  let shape123 := orgShape.getD 1 0 * orgShape.getD 2 0 * orgShape.getD 3 0
  let shape23 := orgShape.getD 2 0 * orgShape.getD 3 0
  (List.range (shape.getD 0 0)).flatMap fun i =>
    let idxI := i * shape123
    (List.range (shape.getD 1 0)).flatMap fun _ =>
      (List.range (shape.getD 2 0)).flatMap fun k =>
        let idxK := k * orgShape.getD 3 0
        (List.range (shape.getD 3 0)).map fun (g : Nat) idx => idxI + idx * shape23 + idxK + g

/-- `gather_dim4_2` (`:137-154`). -/
def gatherDim4_2 : List (Int → Int) :=
  let shape123 := orgShape.getD 1 0 * orgShape.getD 2 0 * orgShape.getD 3 0
  let shape23 := orgShape.getD 2 0 * orgShape.getD 3 0
  (List.range (shape.getD 0 0)).flatMap fun i =>
    let idxI := i * shape123
    (List.range (shape.getD 1 0)).flatMap fun j =>
      let idxJ := idxI + j * shape23
      (List.range (shape.getD 2 0)).flatMap fun _ =>
        (List.range (shape.getD 3 0)).map fun (g : Nat) idx => idxJ + idx * orgShape.getD 3 0 + g

/-- `gather_dim4_3` (`:155-173`). -/
def gatherDim4_3 : List (Int → Int) :=
  let shape123 := orgShape.getD 1 0 * orgShape.getD 2 0 * orgShape.getD 3 0
  let shape23 := orgShape.getD 2 0 * orgShape.getD 3 0
  (List.range (shape.getD 0 0)).flatMap fun i =>
    let idxI := i * shape123
    (List.range (shape.getD 1 0)).flatMap fun j =>
      let idxJ := idxI + j * shape23
      (List.range (shape.getD 2 0)).flatMap fun k =>
        let idxK := idxJ + k * orgShape.getD 3 0
        (List.range (shape.getD 3 0)).map fun _ idx => idxK + idx

end

/-- The switch of `GatherElementsPtFunc::run` (`gatherelements_pt.cpp:185-218`); `none` where it
    exits. -/
def gatherElementsPtKernel (axis : Int) (inputShape indicesShape : List Nat) :
    Option (List (Int → Int)) :=
  match inputShape.length with
  | 1 => some (gatherDim1_0 indicesShape)
  | 2 =>
    if axis = 0 then some (gatherDim2_0 indicesShape inputShape)
    else if axis = 1 then some (gatherDim2_1 indicesShape inputShape)
    else some []
  | 3 =>
    if axis = 0 then some (gatherDim3_0 indicesShape inputShape)
    else if axis = 1 then some (gatherDim3_1 indicesShape inputShape)
    else if axis = 2 then some (gatherDim3_2 indicesShape inputShape)
    else some []
  | 4 =>
    if axis = 0 then some (gatherDim4_0 indicesShape inputShape)
    else if axis = 1 then some (gatherDim4_1 indicesShape inputShape)
    else if axis = 2 then some (gatherDim4_2 indicesShape inputShape)
    else if axis = 3 then some (gatherDim4_3 indicesShape inputShape)
    else some []
  | _ => none

/-- The passes of a kernel: `dst` and `idx` both advance in each, so the `p`-th pass writes place
    `p`, from the place that index `p` leads to. -/
def gatherMoves (kernel : List (Int → Int)) (indicesData : Nat → Int) : List (Nat × Int) :=
  kernel.zipIdx.map fun (place, p) => (p, place (indicesData p))

/-- `GatherElementsPtFunc::run` (`gatherelements_pt.cpp:175-219`): the moves, and the output after
    them. -/
def gatherElementsPtRun {α : Type*} (axis : Int) (inputShape indicesShape : List Nat)
    (indicesData : Nat → Int) (src : Int → α) (dst : Nat → α) :
    Option (List (Nat × Int) × (Nat → α)) :=
  (gatherElementsPtKernel axis inputShape indicesShape).map fun kernel =>
    let moves := gatherMoves kernel indicesData
    (moves, scatter src moves dst)

/-! ## One gather for all -/

/-- The element of each index is the one whose index has the value of the index tensor put in at the
    axis. -/
def gather (axis : Nat) (inputShape indicesShape : List Nat) (indicesData : Nat → Int) :
    List (Nat × Int) :=
  (indices indicesShape).map fun index =>
    let p := flat indicesShape index
    (p, flat inputShape (index.set axis (indicesData p).toNat))

/-- The kernel gathers along the axis. -/
def Gathers (axis : Nat) (orgShape shape : List Nat) (kernel : List (Int → Int)) : Prop :=
  ∃ place : List Nat → Int → Int, kernel = (indices shape).map place ∧
    ∀ index, Inside shape index → ∀ idx : Nat,
      place index idx = flat orgShape (index.set axis idx)

theorem Gathers.moves_eq {axis : Nat} {orgShape shape : List Nat} {kernel : List (Int → Int)}
    {indicesData : Nat → Int} (gathers : Gathers axis orgShape shape kernel)
    (natural : ∀ p < shape.prod, 0 ≤ indicesData p) :
    gatherMoves kernel indicesData = gather axis orgShape shape indicesData := by
  obtain ⟨place, rfl, eq⟩ := gathers
  rw [gatherMoves, zipIdx_map_indices, List.map_map, gather]
  apply List.map_congr_left
  intro index member
  have inside := mem_indices.mp member
  have value := Int.toNat_of_nonneg (natural _ (flat_lt inside))
  refine Prod.ext rfl ?_
  change place index (indicesData (flat shape index)) = _
  rw [← value, eq index inside]

section

variable (d₀ d₁ d₂ d₃ s₀ s₁ s₂ s₃ : Nat)

theorem gathers_dim1_0 : Gathers 0 [d₀] [s₀] (gatherDim1_0 [s₀]) := by
  refine ⟨fun _ idx => idx, ?_, ?_⟩
  · simp [gatherDim1_0]
  · intro index inside idx
    obtain ⟨i, rfl⟩ := List.length_eq_one_iff.mp inside.1
    simp [flat]

theorem gathers_dim2_0 : Gathers 0 [d₀, d₁] [s₀, s₁] (gatherDim2_0 [s₀, s₁] [d₀, d₁]) := by
  refine ⟨fun index idx => idx * d₁ + index.getD 1 0, ?_, ?_⟩
  · simp [gatherDim2_0, flatMap_singleton_range]
  · intro index inside idx
    obtain ⟨i, j, rfl⟩ := List.length_eq_two.mp inside.1
    simp [flat]

theorem gathers_dim2_1 : Gathers 1 [d₀, d₁] [s₀, s₁] (gatherDim2_1 [s₀, s₁] [d₀, d₁]) := by
  refine ⟨fun index idx => index.getD 0 0 * d₁ + idx, ?_, ?_⟩
  · simp [gatherDim2_1]
  · intro index inside idx
    obtain ⟨i, j, rfl⟩ := List.length_eq_two.mp inside.1
    simp [flat]

theorem gathers_dim3_0 :
    Gathers 0 [d₀, d₁, d₂] [s₀, s₁, s₂] (gatherDim3_0 [s₀, s₁, s₂] [d₀, d₁, d₂]) := by
  refine ⟨fun index idx => idx * (d₁ * d₂) + index.getD 1 0 * d₂ + index.getD 2 0, ?_, ?_⟩
  · simp [gatherDim3_0, flatMap_singleton_range]
  · intro index inside idx
    obtain ⟨i, j, k, rfl⟩ := List.length_eq_three.mp inside.1
    simp [flat, add_assoc]

theorem gathers_dim3_1 :
    Gathers 1 [d₀, d₁, d₂] [s₀, s₁, s₂] (gatherDim3_1 [s₀, s₁, s₂] [d₀, d₁, d₂]) := by
  refine ⟨fun index idx => index.getD 0 0 * (d₁ * d₂) + idx * d₂ + index.getD 2 0, ?_, ?_⟩
  · simp [gatherDim3_1, flatMap_singleton_range]
  · intro index inside idx
    obtain ⟨i, j, k, rfl⟩ := List.length_eq_three.mp inside.1
    simp [flat, add_assoc]

theorem gathers_dim3_2 :
    Gathers 2 [d₀, d₁, d₂] [s₀, s₁, s₂] (gatherDim3_2 [s₀, s₁, s₂] [d₀, d₁, d₂]) := by
  refine ⟨fun index idx => index.getD 0 0 * (d₁ * d₂) + index.getD 1 0 * d₂ + idx, ?_, ?_⟩
  · simp [gatherDim3_2]
  · intro index inside idx
    obtain ⟨i, j, k, rfl⟩ := List.length_eq_three.mp inside.1
    simp [flat, add_assoc]

theorem gathers_dim4_0 : Gathers 0 [d₀, d₁, d₂, d₃] [s₀, s₁, s₂, s₃]
    (gatherDim4_0 [s₀, s₁, s₂, s₃] [d₀, d₁, d₂, d₃]) := by
  refine ⟨fun index idx => idx * (d₁ * d₂ * d₃) +
    (index.getD 1 0 * (d₂ * d₃) + index.getD 2 0 * d₃) + index.getD 3 0, ?_, ?_⟩
  · simp [gatherDim4_0, flatMap_singleton_range]
  · intro index inside idx
    obtain ⟨i, j, k, g, rfl⟩ := List.length_eq_four.mp inside.1
    simp [flat, add_assoc, mul_assoc]

theorem gathers_dim4_1 : Gathers 1 [d₀, d₁, d₂, d₃] [s₀, s₁, s₂, s₃]
    (gatherDim4_1 [s₀, s₁, s₂, s₃] [d₀, d₁, d₂, d₃]) := by
  refine ⟨fun index idx => index.getD 0 0 * (d₁ * d₂ * d₃) + idx * (d₂ * d₃) +
    index.getD 2 0 * d₃ + index.getD 3 0, ?_, ?_⟩
  · simp [gatherDim4_1, flatMap_singleton_range]
  · intro index inside idx
    obtain ⟨i, j, k, g, rfl⟩ := List.length_eq_four.mp inside.1
    simp [flat, add_assoc, mul_assoc]

theorem gathers_dim4_2 : Gathers 2 [d₀, d₁, d₂, d₃] [s₀, s₁, s₂, s₃]
    (gatherDim4_2 [s₀, s₁, s₂, s₃] [d₀, d₁, d₂, d₃]) := by
  refine ⟨fun index idx => index.getD 0 0 * (d₁ * d₂ * d₃) + index.getD 1 0 * (d₂ * d₃) +
    idx * d₃ + index.getD 3 0, ?_, ?_⟩
  · simp [gatherDim4_2, flatMap_singleton_range]
  · intro index inside idx
    obtain ⟨i, j, k, g, rfl⟩ := List.length_eq_four.mp inside.1
    simp [flat, add_assoc, mul_assoc]

theorem gathers_dim4_3 : Gathers 3 [d₀, d₁, d₂, d₃] [s₀, s₁, s₂, s₃]
    (gatherDim4_3 [s₀, s₁, s₂, s₃] [d₀, d₁, d₂, d₃]) := by
  refine ⟨fun index idx => index.getD 0 0 * (d₁ * d₂ * d₃) + index.getD 1 0 * (d₂ * d₃) +
    index.getD 2 0 * d₃ + idx, ?_, ?_⟩
  · simp [gatherDim4_3]
  · intro index inside idx
    obtain ⟨i, j, k, g, rfl⟩ := List.length_eq_four.mp inside.1
    simp [flat, add_assoc, mul_assoc]

end

/-- The switch finds the kernel of the rank and the axis. -/
theorem exists_kernel {axis : Nat} {inputShape indicesShape : List Nat}
    (high : inputShape.length ≤ 4) (axisLess : axis < inputShape.length)
    (rank : indicesShape.length = inputShape.length) :
    ∃ kernel, gatherElementsPtKernel axis inputShape indicesShape = some kernel ∧
      Gathers axis inputShape indicesShape kernel := by
  match inputShape, indicesShape, high, axisLess, rank with
  | [d₀], [s₀], _, axisLess, _ =>
    match axis, axisLess with
    | 0, _ => exact ⟨_, rfl, gathers_dim1_0 d₀ s₀⟩
  | [d₀, d₁], [s₀, s₁], _, axisLess, _ =>
    match axis, axisLess with
    | 0, _ => exact ⟨_, rfl, gathers_dim2_0 d₀ d₁ s₀ s₁⟩
    | 1, _ => exact ⟨_, rfl, gathers_dim2_1 d₀ d₁ s₀ s₁⟩
  | [d₀, d₁, d₂], [s₀, s₁, s₂], _, axisLess, _ =>
    match axis, axisLess with
    | 0, _ => exact ⟨_, rfl, gathers_dim3_0 d₀ d₁ d₂ s₀ s₁ s₂⟩
    | 1, _ => exact ⟨_, rfl, gathers_dim3_1 d₀ d₁ d₂ s₀ s₁ s₂⟩
    | 2, _ => exact ⟨_, rfl, gathers_dim3_2 d₀ d₁ d₂ s₀ s₁ s₂⟩
  | [d₀, d₁, d₂, d₃], [s₀, s₁, s₂, s₃], _, axisLess, _ =>
    match axis, axisLess with
    | 0, _ => exact ⟨_, rfl, gathers_dim4_0 d₀ d₁ d₂ d₃ s₀ s₁ s₂ s₃⟩
    | 1, _ => exact ⟨_, rfl, gathers_dim4_1 d₀ d₁ d₂ d₃ s₀ s₁ s₂ s₃⟩
    | 2, _ => exact ⟨_, rfl, gathers_dim4_2 d₀ d₁ d₂ d₃ s₀ s₁ s₂ s₃⟩
    | 3, _ => exact ⟨_, rfl, gathers_dim4_3 d₀ d₁ d₂ d₃ s₀ s₁ s₂ s₃⟩

/-! ## What the gather does -/

section

variable {axis : Nat} {inputShape indicesShape : List Nat} {indicesData : Nat → Int}

/-- It writes the places in the order of the buffer. -/
theorem gather_writes :
    (gather axis inputShape indicesShape indicesData).map Prod.fst =
      List.range indicesShape.prod := by
  rw [gather, List.map_map, ← map_flat_indices]
  rfl

/-- An index that is put in at the axis lies in the input. -/
theorem inside_input {index : List Nat} {idx : Nat}
    (rank : indicesShape.length = inputShape.length)
    (fits : ∀ a < inputShape.length, a ≠ axis → indicesShape.getD a 0 ≤ inputShape.getD a 0)
    (axisLess : axis < inputShape.length) (idxLess : idx < inputShape.getD axis 0)
    (inside : Inside indicesShape index) : Inside inputShape (index.set axis idx) := by
  have length : index.length = inputShape.length := inside.1.trans rank
  refine ⟨List.length_set.trans length, fun a less => ?_⟩
  rw [getD_set, length]
  by_cases same : a = axis
  · rw [if_pos ⟨same, axisLess⟩, same]
    exact idxLess
  · rw [if_neg fun both => same both.1]
    exact (inside.2 a (rank.symm ▸ less)).trans_le (fits a less same)

theorem gather_reads (rank : indicesShape.length = inputShape.length)
    (fits : ∀ a < inputShape.length, a ≠ axis → indicesShape.getD a 0 ≤ inputShape.getD a 0)
    (axisLess : axis < inputShape.length)
    (inRange : ∀ p < indicesShape.prod,
      0 ≤ indicesData p ∧ indicesData p < inputShape.getD axis 0) :
    ∀ move ∈ gather axis inputShape indicesShape indicesData,
      0 ≤ move.2 ∧ move.2 < inputShape.prod := by
  intro move member
  obtain ⟨index, inTensor, rfl⟩ := List.mem_map.mp member
  have inside := mem_indices.mp inTensor
  have range := inRange _ (flat_lt inside)
  refine ⟨Int.natCast_nonneg _, Int.ofNat_lt.mpr (flat_lt ?_)⟩
  exact inside_input rank fits axisLess (by omega) inside

theorem gather_value {α : Type*} {src : Int → α} {dst : Nat → α} {index : List Nat}
    (inside : Inside indicesShape index) :
    scatter src (gather axis inputShape indicesShape indicesData) dst (flat indicesShape index) =
      src (flat inputShape
        (index.set axis (indicesData (flat indicesShape index)).toNat)) := by
  refine scatter_of_mem ?_ ?_
  · rw [gather_writes]
    exact List.nodup_range
  · exact List.mem_map_of_mem (mem_indices.mpr inside)

/-- All kernels are the one gather: for ranks up to 4 every index reads the element of the input
    that the index tensor names, and none outside. -/
theorem gatherElementsPtRun_eq {α : Type*} (axis : Nat) (inputShape indicesShape : List Nat)
    (indicesData : Nat → Int) (src : Int → α) (dst : Nat → α)
    (high : inputShape.length ≤ 4) (axisLess : axis < inputShape.length)
    (rank : indicesShape.length = inputShape.length)
    (fits : ∀ a < inputShape.length, a ≠ axis → indicesShape.getD a 0 ≤ inputShape.getD a 0)
    (inRange : ∀ p < indicesShape.prod,
      0 ≤ indicesData p ∧ indicesData p < inputShape.getD axis 0) :
    ∃ moves out,
      gatherElementsPtRun axis inputShape indicesShape indicesData src dst = some (moves, out) ∧
      moves = gather axis inputShape indicesShape indicesData ∧
      moves.map Prod.fst = List.range indicesShape.prod ∧
      (∀ move ∈ moves, 0 ≤ move.2 ∧ move.2 < inputShape.prod) ∧
      ∀ index, Inside indicesShape index →
        out (flat indicesShape index) =
          src (flat inputShape
            (index.set axis (indicesData (flat indicesShape index)).toNat)) := by
  obtain ⟨kernel, run, gathers⟩ := exists_kernel high axisLess rank
  have moves := gathers.moves_eq fun p less => (inRange p less).1
  refine ⟨_, _, by rw [gatherElementsPtRun, run]; rfl, ?_⟩
  rw [moves]
  exact ⟨rfl, gather_writes, gather_reads rank fits axisLess inRange,
    fun index inside => gather_value inside⟩

theorem gatherElementsPtRun_eq_rows :
    ∃ moves out,
      gatherElementsPtRun 0 [3, 2] [1, 2] (fun _ => 2) id (fun _ => 0) = some (moves, out) ∧
      moves = gather 0 [3, 2] [1, 2] (fun _ => 2) ∧
      moves.map Prod.fst = List.range [1, 2].prod ∧
      (∀ move ∈ moves, 0 ≤ move.2 ∧ move.2 < [3, 2].prod) ∧
      ∀ index, Inside [1, 2] index →
        out (flat [1, 2] index) = id (flat [3, 2] (index.set 0 (2 : Int).toNat)) :=
  gatherElementsPtRun_eq 0 [3, 2] [1, 2] (fun _ => 2) id (fun _ => 0) (by decide)
    (by decide) rfl (by decide) (fun _ _ => ⟨by decide, by decide⟩)

end

end CviRuntime.CpuFunction
