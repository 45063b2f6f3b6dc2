import Mathlib.Data.Int.ModEq
import Mathlib.Data.List.Basic

/-!
# Cells of a circular buffer

`window cells head n` reads `n` cells from `head` on, round the end of the buffer.
Writing the cell after the window appends to it; moving `head` drops its first cell.
-/

namespace CviRuntime.Ring

variable {α : Type*}

/-- The `n` cells from `head` on, round the end of the buffer. -/
def window (cells : List α) (head n : Nat) : List (Option α) :=
  (List.range n).map fun k => cells[(head + k) % cells.length]?

/-- Two places of a window that fits in the buffer are different cells. -/
theorem index_ne {size head k n : Nat} (before : k < n) (fits : n < size) :
    (head + k) % size ≠ (head + n) % size := by
  intro same
  have equal : k % size = n % size := Nat.ModEq.add_left_cancel' head same
  rw [Nat.mod_eq_of_lt (by omega), Nat.mod_eq_of_lt fits] at equal
  omega

theorem window_set_fresh {cells : List α} {head n : Nat} {x : α} (fits : n < cells.length) :
    window (cells.set ((head + n) % cells.length) x) head n = window cells head n := by
  refine List.map_congr_left fun k member => ?_
  have before : k < n := List.mem_range.mp member
  rw [List.length_set, List.getElem?_set_ne (index_ne before fits).symm]

/-- Writing the cell after the window appends it to the window. -/
theorem window_push {cells : List α} {n : Nat} (head : Nat) (x : α) (fits : n < cells.length) :
    window (cells.set ((head + n) % cells.length) x) head (n + 1) =
      window cells head n ++ [some x] := by
  have inside : (head + n) % cells.length < cells.length := Nat.mod_lt _ (by omega)
  have last : (cells.set ((head + n) % cells.length) x)[(head + n) % cells.length]? = some x :=
    List.getElem?_set_self inside
  have split : window (cells.set ((head + n) % cells.length) x) head (n + 1) =
      window (cells.set ((head + n) % cells.length) x) head n ++
        [(cells.set ((head + n) % cells.length) x)[(head + n) % cells.length]?] := by
    simp [window, List.range_succ]
  rw [split, window_set_fresh fits, last]

/-- Moving `head` by one drops the first cell of the window. -/
theorem window_pop (cells : List α) (head n : Nat) :
    window cells head (n + 1) =
      cells[head % cells.length]? :: window cells ((head + 1) % cells.length) n := by
  have shift : ∀ k, (head + (k + 1)) % cells.length =
      ((head + 1) % cells.length + k) % cells.length := by
    intro k
    rw [Nat.mod_add_mod]
    congr 1
    omega
  simp only [window, List.range_succ_eq_map, List.map_cons, List.map_map, Nat.add_zero]
  congr 1
  refine List.map_congr_left fun k _ => ?_
  rw [Function.comp_apply, Nat.succ_eq_add_one, shift]

end CviRuntime.Ring
