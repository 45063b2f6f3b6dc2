import Mathlib.Algebra.Order.Ring.Nat
import Mathlib.Algebra.BigOperators.Group.List.Basic

/-!
# Pieces packed one after the other

A table over a packed buffer records for each piece where it starts. `position` is that place,
`slice` reads a piece back.
-/

namespace CviRuntime.Packed

variable {α : Type*}

/-- The `n` elements from `start` on. -/
def slice (l : List α) (start n : Nat) : List α := (l.drop start).take n

/-- Where piece `k` starts in the concatenation of the pieces. -/
def position (pieces : List (List α)) (k : Nat) : Nat := ((pieces.take k).map List.length).sum

section Slice

variable {l m : List α} {start n : Nat}

theorem length_slice (inside : start + n ≤ l.length) : (slice l start n).length = n := by
  unfold slice
  rw [List.length_take, List.length_drop]
  omega

theorem slice_append_left (inside : start + n ≤ l.length) :
    slice (l ++ m) start n = slice l start n := by
  unfold slice
  rw [List.drop_append_of_le_length (by omega), List.take_append_of_le_length]
  rw [List.length_drop]
  omega

theorem slice_append_right : slice (l ++ m) (l.length + start) n = slice m start n := by
  unfold slice
  rw [← List.drop_drop, List.drop_left]

/-- A list and a longer one it begins have the same slices. -/
theorem slice_of_prefix (prefixed : l <+: m) (inside : start + n ≤ l.length) :
    slice m start n = slice l start n := by
  obtain ⟨rest, rfl⟩ := prefixed
  exact slice_append_left inside

theorem slice_slice {from_ k : Nat} (inside : start + n ≤ k) :
    slice (slice l from_ k) start n = slice l (from_ + start) n := by
  unfold slice
  rw [List.drop_take, List.drop_drop, List.take_take, Nat.min_eq_left (by omega)]

end Slice

section Position

variable {pieces : List (List α)} {piece : List α} {k : Nat}

theorem position_length : position pieces pieces.length = pieces.flatten.length := by
  unfold position
  rw [List.take_length, List.length_flatten]

/-- A piece starts where the ones before it end, whatever follows. -/
theorem position_append_left {more : List (List α)} (le : k ≤ pieces.length) :
    position (pieces ++ more) k = position pieces k := by
  unfold position
  rw [List.take_append_of_le_length le]

/-- The buffer is what lies before the piece, the piece, and what follows. -/
theorem flatten_eq (entry : pieces[k]? = some piece) :
    ∃ before after, pieces.flatten = before ++ piece ++ after ∧
      before.length = position pieces k := by
  obtain ⟨lt, rfl⟩ := List.getElem?_eq_some_iff.mp entry
  refine ⟨(pieces.take k).flatten, (pieces.drop (k + 1)).flatten, ?_, ?_⟩
  · conv_lhs => rw [← List.take_append_drop k pieces, ← List.getElem_cons_drop lt]
    rw [List.flatten_append, List.flatten_cons, List.append_assoc]
  · rw [List.length_flatten]
    rfl

theorem position_add_length_le (entry : pieces[k]? = some piece) :
    position pieces k + piece.length ≤ pieces.flatten.length := by
  obtain ⟨before, after, whole, start⟩ := flatten_eq entry
  rw [whole, List.length_append, List.length_append, start]
  omega

/-- The piece is read back at its position. -/
theorem slice_flatten (entry : pieces[k]? = some piece) :
    slice pieces.flatten (position pieces k) piece.length = piece := by
  obtain ⟨before, after, whole, start⟩ := flatten_eq entry
  rw [whole, ← start, List.append_assoc, ← Nat.add_zero before.length, slice_append_right,
    slice_append_left (by omega)]
  exact List.take_length

end Position

end CviRuntime.Packed
