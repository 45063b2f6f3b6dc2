import CviRuntime.Lib.RowMajor
import Mathlib.Algebra.BigOperators.Group.Finset.Basic
import Mathlib.Data.List.Perm.Subperm
import Mathlib.Logic.Function.Basic

/-!
# Kernels as lists of moves

A kernel that fills a buffer from others does one move after the other: it takes something from a
source and writes it to a place, or changes what the place holds. Where no place has two moves the
buffer holds at each place what its move has brought. The loops of such kernels go through the
indices of a tensor, and a counter that they advance in each pass is the position of the index.
-/

namespace CviRuntime.Scatter

open CviRuntime.RowMajor

/-! ## Moves -/

section

variable {ι κ α : Type*} [DecidableEq ι]

/-- The buffer after steps that each change what one place holds. -/
def accumulate (step : κ → α → α) (moves : List (ι × κ)) (buffer : ι → α) : ι → α :=
  moves.foldl (fun buffer move =>
    Function.update buffer move.1 (step move.2 (buffer move.1))) buffer

/-- The buffer after the moves, each a place and what is fetched for it. -/
def scatter (fetch : κ → α) (moves : List (ι × κ)) (buffer : ι → α) : ι → α :=
  accumulate (fun k _ => fetch k) moves buffer

variable {step : κ → α → α} {fetch : κ → α} {moves : List (ι × κ)} {buffer : ι → α}

theorem accumulate_cons (move : ι × κ) :
    accumulate step (move :: moves) buffer =
      accumulate step moves
        (Function.update buffer move.1 (step move.2 (buffer move.1))) := rfl

/-- A place no step goes to keeps what it holds. -/
theorem accumulate_of_notMem {i : ι} (untouched : i ∉ moves.map Prod.fst) :
    accumulate step moves buffer i = buffer i := by
  induction moves generalizing buffer with
  | nil => rfl
  | cons move moves ih =>
    rw [List.map_cons, List.mem_cons, not_or] at untouched
    rw [accumulate_cons, ih untouched.2, Function.update_of_ne untouched.1]

/-- A place of a single step is changed by this step alone. -/
theorem accumulate_of_mem {i : ι} {k : κ} (distinct : (moves.map Prod.fst).Nodup)
    (member : (i, k) ∈ moves) : accumulate step moves buffer i = step k (buffer i) := by
  induction moves generalizing buffer with
  | nil => cases member
  | cons move moves ih =>
    rw [List.map_cons, List.nodup_cons] at distinct
    rw [accumulate_cons]
    cases List.mem_cons.mp member with
    | inl head =>
      subst head
      rw [accumulate_of_notMem distinct.1, Function.update_self]
    | inr tail =>
      have differ : i ≠ move.1 := fun same =>
        distinct.1 (same ▸ List.mem_map_of_mem (f := Prod.fst) tail)
      rw [ih distinct.2 tail, Function.update_of_ne differ]

/-- A place of a single move holds what the move brings. -/
theorem scatter_of_mem {i : ι} {k : κ} (distinct : (moves.map Prod.fst).Nodup)
    (member : (i, k) ∈ moves) : scatter fetch moves buffer i = fetch k :=
  accumulate_of_mem distinct member

end

/-- A list that reaches all places of a buffer, and is no longer than it, has each of them once. -/
theorem perm_range_of_onto {places : List Nat} {n : Nat} (short : places.length ≤ n)
    (onto : ∀ p < n, p ∈ places) : places.Perm (List.range n) := by
  have inside : List.range n ⊆ places := fun p member => onto p (List.mem_range.mp member)
  have sub : (List.range n).Subperm places := List.nodup_range.subperm inside
  exact (sub.perm_of_length_le (by rwa [List.length_range])).symm

theorem nodup_of_perm_range {places : List Nat} {n : Nat} (once : places.Perm (List.range n)) :
    places.Nodup :=
  once.nodup_iff.mpr List.nodup_range

/-! ## Loops over the indices of a tensor -/

section

variable {α : Type*} {shape : List Nat}

@[simp] theorem indices_nil : indices [] = [[]] := rfl

/-- The loop over the first index, and in it those over the others. -/
@[simp] theorem map_indices_cons (d : Nat) (shape : List Nat) (f : List Nat → α) :
    (indices (d :: shape)).map f =
      (List.range d).flatMap fun i => (indices shape).map fun index => f (i :: index) := by
  rw [indices, List.map_flatMap]
  simp only [List.map_map]
  rfl

/-- A loop with a single value in each pass. -/
theorem flatMap_singleton_range (n : Nat) (f : Nat → α) :
    ((List.range n).flatMap fun i => [f i]) = (List.range n).map f :=
  List.flatMap_pure_eq_map f _

@[simp] theorem length_indices (shape : List Nat) : (indices shape).length = shape.prod := by
  have length := congrArg List.length (map_flat_indices shape)
  rwa [List.length_map, List.length_range] at length

/-- What a counter of the passes is in each of them. -/
theorem zipIdx_map_indices (f : List Nat → α) :
    ((indices shape).map f).zipIdx =
      (indices shape).map fun index => (f index, flat shape index) := by
  have counted : ((indices shape).map f).zipIdx =
      ((indices shape).map f).zip ((indices shape).map (flat shape)) := by
    rw [map_flat_indices, List.zipIdx_eq_zip_range', List.length_map, length_indices,
      List.range_eq_range']
  rw [counted, List.zip_map']

end

/-! ## Sums over the indices of a tensor -/

section

variable {α : Type*} [AddCommMonoid α]

theorem sum_indices_cons (d : Nat) (shape : List Nat) (f : List Nat → α) :
    ((indices (d :: shape)).map f).sum =
      ∑ i ∈ Finset.range d, ((indices shape).map fun index => f (i :: index)).sum := by
  rw [map_indices_cons, List.flatMap_def, List.sum_flatten, List.map_map]
  rfl

/-- A sum over the positions goes over the indices. -/
theorem sum_range_prod (shape : List Nat) (f : Nat → α) :
    ∑ place ∈ Finset.range shape.prod, f place =
      ((indices shape).map fun index => f (flat shape index)).sum := by
  have positions := congrArg (fun places => (places.map f).sum) (map_flat_indices shape)
  simp only [List.map_map] at positions
  exact positions.symm

end

end CviRuntime.Scatter
