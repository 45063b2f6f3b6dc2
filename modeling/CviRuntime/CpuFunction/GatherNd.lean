import CviRuntime.Lib.MachineInt
import CviRuntime.Lib.Scatter
import Mathlib.Algebra.Order.BigOperators.GroupWithZero.List

/-!
# Gathering slices (`src/common/cpu_function/gathernd.cpp`)

The batch dimensions are made one, whose number is put in front of each tuple of indices; the place
of the slice is the position of this tuple, times the elements of a slice. The sizes come out of
divisions, so an empty dimension among the indices stops the kernel. The bytes of a slice are
counted in an `int`.
-/

namespace CviRuntime.CpuFunction

open CviRuntime.MachineInt CviRuntime.RowMajor CviRuntime.Scatter

/-! ## The kernel -/

/-- The loop of `gather_offset` (`gathernd.cpp:19-29`): `offset` and `gap`, from the last index to
    the first. -/
def gatherOffsetLoop (inputShape : List Nat) (gatherIndex : List Int) : Int × Nat :=
  (List.range gatherIndex.length).reverse.foldl (fun (offset, gap) i =>
    (offset + gatherIndex.getD i 0 * gap, gap * inputShape.getD i 0)) (0, 1)

def gatherOffset (inputShape : List Nat) (gatherIndex : List Int) : Int :=
  (gatherOffsetLoop inputShape gatherIndex).1

/-- A division of integers; `none` by zero. -/
def quotient (n d : Nat) : Option Nat := if d = 0 then none else some (n / d)

/-- The elements of the index tensor that are read, and the elements of the input that are copied:
    where to, and where from. -/
structure GatherNdAccesses where
  indexReads : List Nat
  moves : List (Nat × Int)
  deriving DecidableEq

/-- `int gather_eltment_size = gather_eltment * sizeof(float)` (`gathernd.cpp:66`). -/
def gatherEltmentSize (gatherEltment : Nat) : Int := int32 (gatherEltment * 4 : Nat)

/-- The two loops over `b` and `c` (`gathernd.cpp:64-80`), for `channel`, `q` indices in a tuple,
    `gather_eltment` and the `copied` elements that `memcpy` is given. -/
def gatherNdLoops (inputNewShape : List Nat) (batchDimsSize channel q gatherEltment copied : Nat)
    (indicesData : Nat → Int) : GatherNdAccesses :=
  let passes := (List.range batchDimsSize).flatMap fun b =>
    let index1 := b * channel * q
    let index2 := b * channel
    (List.range channel).map fun c =>
      let reads := (List.range q).map fun j => index1 + c * q + j
      let gatherIndex := (b : Int) :: reads.map indicesData
      let offset := gatherOffset inputNewShape gatherIndex
      (reads, (List.range copied).map fun (e : Nat) =>
        ((index2 + c) * gatherEltment + e, offset * gatherEltment + e))
  ⟨passes.flatMap Prod.fst, passes.flatMap Prod.snd⟩

/-- `GatherNDFunc::run` (`gathernd.cpp:31-81`), with the shape of the output for its `count`;
    `none` where it divides by zero, an assertion fails or `memcpy` is given a negative size, which
    it takes for nearly `2^64`. -/
def gatherNdAccesses (batchDims indiceDims : Nat) (inputShape indicesShape topShape : List Nat)
    (indicesData : Nat → Int) : Option GatherNdAccesses := do
  let batchDimsSize := (List.range batchDims).foldl (fun n i => n * indicesShape.getD i 0) 1
  let q := indicesShape.getD (indiceDims - 1) 0
  let channel ← quotient (← quotient indicesShape.prod batchDimsSize) q
  guard (channel * q * batchDimsSize = indicesShape.prod)
  let inputNewShape := batchDimsSize :: inputShape.drop batchDims
  let gatherEltment ← quotient topShape.prod (batchDimsSize * channel)
  guard (gatherEltment * batchDimsSize * channel = topShape.prod)
  let size := gatherEltmentSize gatherEltment
  guard (0 ≤ size)
  return gatherNdLoops inputNewShape batchDimsSize channel q gatherEltment (size.toNat / 4)
    indicesData

/-- The output, from what its buffer held. -/
def gatherNdRun {α : Type*} (batchDims indiceDims : Nat)
    (inputShape indicesShape topShape : List Nat) (indicesData : Nat → Int) (input : Int → α)
    (out : Nat → α) : Option (Nat → α) :=
  (gatherNdAccesses batchDims indiceDims inputShape indicesShape topShape indicesData).map
    fun accesses => scatter input accesses.moves out

/-! ## The offset of a tuple -/

/-- The loop for a tuple is that for the tail, and one pass more. -/
theorem gatherOffsetLoop_cons (d : Nat) (shape : List Nat) (i : Int) (index : List Int) :
    gatherOffsetLoop (d :: shape) (i :: index) =
      ((gatherOffsetLoop shape index).1 + i * (gatherOffsetLoop shape index).2,
        (gatherOffsetLoop shape index).2 * d) := by
  unfold gatherOffsetLoop
  rw [List.length_cons, List.range_succ_eq_map, List.reverse_cons, List.foldl_append,
    ← List.map_reverse, List.foldl_map]
  rfl

theorem gatherOffsetLoop_eq (shape index : List Nat) (fits : index.length ≤ shape.length) :
    gatherOffsetLoop shape (index.map Nat.cast) =
      (((flat (shape.take index.length) index : Nat) : Int),
        (shape.take index.length).prod) := by
  induction index generalizing shape with
  | nil => simp [gatherOffsetLoop, flat]
  | cons i index ih =>
    cases shape with
    | nil => cases fits
    | cons d shape =>
      rw [List.map_cons, gatherOffsetLoop_cons, ih shape (Nat.le_of_succ_le_succ fits),
        List.length_cons, List.take_succ_cons, List.prod_cons, flat]
      refine Prod.ext ?_ (Nat.mul_comm _ _)
      push_cast
      exact Int.add_comm _ _

/-- The offset of the slice is the position of the tuple in the dimensions it indexes. -/
theorem gatherOffset_eq {shape index : List Nat} (fits : index.length ≤ shape.length) :
    gatherOffset shape (index.map Nat.cast) = (flat (shape.take index.length) index : Nat) := by
  rw [gatherOffset, gatherOffsetLoop_eq shape index fits]

/-! ## The loops -/

section

/-- The bytes of a slice of less than `2^29` elements are counted right. -/
theorem gatherEltmentSize_eq {n : Nat} (small : n < 2 ^ 29) : gatherEltmentSize n = (n * 4 : Nat) :=
  int32_natCast (by omega)

variable {shape : List Nat} {batchDimsSize channel q gatherEltment copied : Nat}
  {indicesData : Nat → Int}

/-- The indices that the pass for `b` and `c` puts together. -/
def gatherTuple (batchDimsSize channel q : Nat) (indicesData : Nat → Int) (b c : Nat) : List Int :=
  (b : Int) :: (List.range q).map fun j => indicesData (flat [batchDimsSize, channel, q] [b, c, j])

theorem gatherNdLoops_moves :
    (gatherNdLoops shape batchDimsSize channel q gatherEltment gatherEltment indicesData).moves =
      (indices [batchDimsSize, channel, gatherEltment]).map fun index =>
        (flat [batchDimsSize, channel, gatherEltment] index,
          gatherOffset shape (gatherTuple batchDimsSize channel q indicesData (index.getD 0 0)
            (index.getD 1 0)) * gatherEltment + index.getD 2 0) := by
  simp [gatherNdLoops, gatherTuple, flat, List.flatMap_assoc, List.flatMap_map,
    flatMap_singleton_range, Nat.add_mul, Nat.mul_assoc, Nat.add_assoc, Function.comp_def]

/-- The tuples are read one after the other. -/
theorem gatherNdLoops_indexReads :
    (gatherNdLoops shape batchDimsSize channel q gatherEltment copied indicesData).indexReads =
      List.range [batchDimsSize, channel, q].prod := by
  rw [← map_flat_indices]
  simp [gatherNdLoops, flat, List.flatMap_assoc, List.flatMap_map, flatMap_singleton_range,
    Nat.mul_assoc, Nat.add_assoc]

end

/-! ## The sizes -/

theorem foldl_range_prod (shape more : List Nat) :
    (List.range shape.length).foldl (fun n i => n * (shape ++ more).getD i 0) 1 = shape.prod := by
  have values : (List.range shape.length).map (fun i => (shape ++ more).getD i 0) = shape := by
    apply List.ext_getElem (by simp)
    intro i less less'
    simp [List.getElem?_append_left less', less']
  rw [← List.foldl_map (f := fun i => (shape ++ more).getD i 0) (g := fun n d => n * d), values,
    List.prod_eq_foldl]

theorem quotient_mul {n d : Nat} (positive : 0 < d) : quotient (n * d) d = some n := by
  rw [quotient, if_neg (Nat.ne_of_gt positive), Nat.mul_div_cancel n positive]

section

variable {batch mid rest : List Nat} {q pad : Nat} {indicesData : Nat → Int}

/-- The number of indices; at run time shapes are filled up with ones (`neuron.cpp:58-65`). -/
theorem prod_indicesShape :
    (batch ++ mid ++ [q] ++ List.replicate pad 1).prod = mid.prod * q * batch.prod := by
  rw [List.prod_append, List.prod_append, List.prod_append, List.prod_singleton,
    List.prod_replicate, Nat.one_pow, Nat.mul_one, Nat.mul_assoc, Nat.mul_comm]

/-- With no empty dimension among the indices the divisions give the sizes back. -/
theorem gatherNdAccesses_eq (rest : List Nat) (pad : Nat) (indicesData : Nat → Int)
    (batchPos : 0 < batch.prod) (midPos : 0 < mid.prod) (qPos : 0 < q)
    (small : (rest.drop q).prod < 2 ^ 29) :
    gatherNdAccesses batch.length (batch.length + mid.length + 1) (batch ++ rest)
        (batch ++ mid ++ [q] ++ List.replicate pad 1) (batch ++ mid ++ rest.drop q) indicesData =
      some (gatherNdLoops (batch.prod :: rest) batch.prod mid.prod q (rest.drop q).prod
        (rest.drop q).prod indicesData) := by
  have last : (batch ++ mid ++ [q] ++ List.replicate pad 1).getD
      (batch.length + mid.length + 1 - 1) 0 = q := by
    simp
  have leading := foldl_range_prod batch (mid ++ [q] ++ List.replicate pad 1)
  rw [← List.append_assoc, ← List.append_assoc] at leading
  have slices : (batch ++ mid ++ rest.drop q).prod =
      (rest.drop q).prod * (batch.prod * mid.prod) := by
    rw [List.prod_append, List.prod_append, Nat.mul_comm]
  have product : (rest.drop q).prod * batch.prod * mid.prod =
      (rest.drop q).prod * (batch.prod * mid.prod) := Nat.mul_assoc _ _ _
  have bytes := gatherEltmentSize_eq small
  have counted : (0 : Int) ≤ ((rest.drop q).prod * 4 : Nat) := Int.natCast_nonneg _
  have elements : (rest.drop q).prod * 4 / 4 = (rest.drop q).prod :=
    Nat.mul_div_cancel _ (by decide)
  unfold gatherNdAccesses
  simp only [leading, last, prod_indicesShape, slices, quotient_mul batchPos, quotient_mul qPos,
    quotient_mul (Nat.mul_pos batchPos midPos), List.drop_left, Option.bind_eq_bind,
    Option.bind_some, product, guard_true, bytes, counted, Int.toNat_natCast, elements]
  rfl

end

/-! ## The slices -/

section

variable {batch mid rest : List Nat} {q pad : Nat} {indicesData : Nat → Int}

/-- The indices at a position of the batch and of the tuples. -/
def tupleAt (batch mid : List Nat) (q : Nat) (indicesData : Nat → Int) (b c : List Nat) :
    List Nat :=
  (List.range q).map fun j => (indicesData (flat (batch ++ mid ++ [q]) (b ++ c ++ [j]))).toNat

/-- All indices lie in the dimensions they index. -/
def IndicesInRange (batch mid rest : List Nat) (q : Nat) (indicesData : Nat → Int) : Prop :=
  ∀ b c, Inside batch b → Inside mid c → ∀ j < q,
    0 ≤ indicesData (flat (batch ++ mid ++ [q]) (b ++ c ++ [j])) ∧
      indicesData (flat (batch ++ mid ++ [q]) (b ++ c ++ [j])) < rest.getD j 0

/-- The run ends, writes each element of the output once and reads nothing outside of its input, and
    the slice at each position is the one its tuple names. -/
def GathersSlices {α : Type*} (batch mid rest : List Nat) (q pad : Nat) (indicesData : Nat → Int)
    (input : Int → α) (out : Nat → α) : Prop :=
  ∃ accesses filled,
    gatherNdAccesses batch.length (batch.length + mid.length + 1) (batch ++ rest)
        (batch ++ mid ++ [q] ++ List.replicate pad 1) (batch ++ mid ++ rest.drop q) indicesData =
      some accesses ∧
    gatherNdRun batch.length (batch.length + mid.length + 1) (batch ++ rest)
        (batch ++ mid ++ [q] ++ List.replicate pad 1) (batch ++ mid ++ rest.drop q) indicesData
        input out = some filled ∧
    accesses.moves.map Prod.fst = List.range (batch ++ mid ++ rest.drop q).prod ∧
    (∀ r ∈ accesses.indexReads, r < (batch ++ mid ++ [q]).prod) ∧
    (∀ move ∈ accesses.moves, 0 ≤ move.2 ∧ move.2 < (batch ++ rest).prod) ∧
    ∀ b c s, Inside batch b → Inside mid c → Inside (rest.drop q) s →
      filled (flat (batch ++ mid ++ rest.drop q) (b ++ c ++ s)) =
        input (flat (batch ++ rest) (b ++ tupleAt batch mid q indicesData b c ++ s))

theorem gatherTuple_eq {b c : List Nat} (inRange : IndicesInRange batch mid rest q indicesData)
    (insideB : Inside batch b) (insideC : Inside mid c) :
    gatherTuple batch.prod mid.prod q indicesData (flat batch b) (flat mid c) =
      (flat batch b :: tupleAt batch mid q indicesData b c).map Nat.cast := by
  rw [gatherTuple, tupleAt, List.map_cons, List.map_map]
  refine congrArg _ (List.map_congr_left fun j member => ?_)
  have less : j < q := List.mem_range.mp member
  have place : flat [batch.prod, mid.prod, q] [flat batch b, flat mid c, j] =
      flat (batch ++ mid ++ [q]) (b ++ c ++ [j]) := by
    rw [List.append_assoc, List.append_assoc, flat_append insideB.1, flat_append insideC.1]
    simp [flat]
  rw [place]
  exact (Int.toNat_of_nonneg (inRange b c insideB insideC j less).1).symm

theorem inside_tupleAt {b c : List Nat} (fits : q ≤ rest.length)
    (inRange : IndicesInRange batch mid rest q indicesData)
    (insideB : Inside batch b) (insideC : Inside mid c) :
    Inside (rest.take q) (tupleAt batch mid q indicesData b c) := by
  refine ⟨by simp [tupleAt, fits], fun j inShape => ?_⟩
  have less : j < q := by
    rw [List.length_take] at inShape
    omega
  have range := inRange b c insideB insideC j less
  have value : (tupleAt batch mid q indicesData b c).getD j 0 =
      (indicesData (flat (batch ++ mid ++ [q]) (b ++ c ++ [j]))).toNat := by
    simp [tupleAt, less]
  have bound : (rest.take q).getD j 0 = rest.getD j 0 := by
    simp [List.getD_eq_getElem?_getD, less]
  rw [value, bound]
  omega

/-- The element a pass copies to a place of its slice. -/
theorem slice_place {b c s : List Nat} (fits : q ≤ rest.length)
    (inRange : IndicesInRange batch mid rest q indicesData)
    (insideB : Inside batch b) (insideC : Inside mid c) :
    gatherOffset (batch.prod :: rest)
        (gatherTuple batch.prod mid.prod q indicesData (flat batch b) (flat mid c)) *
          (rest.drop q).prod + flat (rest.drop q) s =
      (flat (batch ++ rest) (b ++ tupleAt batch mid q indicesData b c ++ s) : Nat) := by
  have inside := inside_tupleAt fits inRange insideB insideC
  have length : (tupleAt batch mid q indicesData b c).length = q := by simp [tupleAt]
  have split : batch ++ rest = batch ++ (rest.take q ++ rest.drop q) := by
    rw [List.take_append_drop]
  rw [gatherTuple_eq inRange insideB insideC, gatherOffset_eq (by simpa [length] using fits), split,
    List.append_assoc, flat_append insideB.1, flat_append inside.1, List.length_cons, length,
    List.take_succ_cons, flat, List.prod_append]
  push_cast
  rw [Int.add_mul, Int.mul_assoc, Int.add_assoc]

/-- With no empty dimension among the indices the kernel gathers the slices, if they are smaller
    than 2 GiB. -/
theorem gatherNdRun_eq {α : Type*} (batch mid rest : List Nat) (q pad : Nat)
    (indicesData : Nat → Int) (input : Int → α) (out : Nat → α) (fits : q ≤ rest.length)
    (inRange : IndicesInRange batch mid rest q indicesData)
    (batchPos : ∀ d ∈ batch, 0 < d) (midPos : ∀ d ∈ mid, 0 < d) (qPos : 0 < q)
    (small : (rest.drop q).prod < 2 ^ 29) :
    GathersSlices batch mid rest q pad indicesData input out := by
  have run := gatherNdAccesses_eq rest pad indicesData
    (List.prod_pos batchPos) (List.prod_pos midPos) qPos small
  have writes : ∀ {shape : List Nat}, (gatherNdLoops shape batch.prod mid.prod q
      (rest.drop q).prod (rest.drop q).prod indicesData).moves.map Prod.fst =
        List.range (batch ++ mid ++ rest.drop q).prod := by
    intro shape
    have size : [batch.prod, mid.prod, (rest.drop q).prod].prod =
        (batch ++ mid ++ rest.drop q).prod := by
      simp
    rw [gatherNdLoops_moves, List.map_map, ← size, ← map_flat_indices]
    rfl
  refine ⟨_, _, run, by rw [gatherNdRun, run]; rfl, writes, ?_, ?_, ?_⟩
  · intro r member
    rw [gatherNdLoops_indexReads, List.mem_range] at member
    simpa [Nat.mul_assoc] using member
  · intro move member
    rw [gatherNdLoops_moves] at member
    obtain ⟨index, inLoops, rfl⟩ := List.mem_map.mp member
    obtain ⟨i, j, e, rfl⟩ := List.length_eq_three.mp (mem_indices.mp inLoops).1
    have inside := mem_indices.mp inLoops
    simp only [inside_cons] at inside
    obtain ⟨iLess, jLess, eLess, -⟩ := inside
    obtain ⟨b, insideB, rfl⟩ := exists_index iLess
    obtain ⟨c, insideC, rfl⟩ := exists_index jLess
    obtain ⟨s, insideS, rfl⟩ := exists_index eLess
    have insideTuple := inside_tupleAt fits inRange insideB insideC
    have inInput := inside_append insideB (inside_append insideTuple insideS)
    rw [List.take_append_drop, ← List.append_assoc] at inInput
    simp only [List.getD_cons_zero, List.getD_cons_succ]
    rw [slice_place fits inRange insideB insideC]
    exact ⟨Int.natCast_nonneg _, Int.ofNat_lt.mpr (flat_lt inInput)⟩
  · intro b c s insideB insideC insideS
    refine scatter_of_mem ?_ ?_
    · rw [writes]
      exact List.nodup_range
    · rw [gatherNdLoops_moves]
      have inLoops : [flat batch b, flat mid c, flat (rest.drop q) s] ∈
          indices [batch.prod, mid.prod, (rest.drop q).prod] := by
        rw [mem_indices]
        exact inside_triple.mpr ⟨flat_lt insideB, flat_lt insideC, flat_lt insideS⟩
      refine List.mem_map.mpr ⟨_, inLoops, Prod.ext ?_ ?_⟩
      · change flat [batch.prod, mid.prod, (rest.drop q).prod] _ = _
        rw [List.append_assoc, List.append_assoc, flat_append insideB.1, flat_append insideC.1]
        simp [flat]
      · simp only [List.getD_cons_zero, List.getD_cons_succ]
        exact slice_place fits inRange insideB insideC

/-- Two batches of two rows of three, from each of which the tuples take both rows in turn. -/
theorem gatherNdRun_eq_rows :
    GathersSlices [2] [2] [2, 3] 1 1 (fun i => (i + 1) % 2) id (fun _ => 0) :=
  gatherNdRun_eq [2] [2] [2, 3] 1 1 (fun i => (i + 1) % 2) id (fun _ => 0) (by decide)
    (fun b c insideB insideC j less => by
      obtain rfl : j = 0 := by omega
      exact ⟨Int.emod_nonneg _ (by decide), Int.emod_lt_of_pos _ (by decide)⟩)
    (by decide) (by decide) (by decide) (by decide)

/-- Tuples of no index, or no tuples: the kernel divides by zero. Slices of 2 GiB: their size is
    negative. -/
theorem gatherNdRun_empty :
    ¬GathersSlices [] [1] [2] 0 0 (fun _ => 0) id (fun _ => 0) ∧
      ¬GathersSlices [] [0] [2] 1 0 (fun _ => 0) id (fun _ => 0) ∧
      ¬GathersSlices [] [1] [1, 2 ^ 29] 1 0 (fun _ => 0) id (fun _ => 0) := by
  refine ⟨?_, ?_, ?_⟩
  · rintro ⟨accesses, -, run, -⟩
    exact Option.some_ne_none accesses (run.symm.trans (by decide))
  · rintro ⟨accesses, -, run, -⟩
    exact Option.some_ne_none accesses (run.symm.trans (by decide))
  · rintro ⟨accesses, -, run, -⟩
    exact Option.some_ne_none accesses (run.symm.trans (by decide))

end

end CviRuntime.CpuFunction
