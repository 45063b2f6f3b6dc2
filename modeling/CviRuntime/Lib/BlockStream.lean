import Mathlib.Algebra.Order.Ring.Nat
import Mathlib.Data.List.Basic

/-!
# Streams taken in by blocks

A fold over the whole blocks of a list of `n` elements each. The elements after the last whole
block are the residue; to go on with a longer list it is enough to know the state and the residue.
-/

namespace CviRuntime.BlockStream

variable {α σ : Type*}

/-- The first `k` blocks. -/
def blocks (compress : σ → List α → σ) (n : Nat) : Nat → σ → List α → σ
  | 0, s, _ => s
  | k + 1, s, l => blocks compress n k (compress s (l.take n)) (l.drop n)

/-- All whole blocks. -/
def absorb (compress : σ → List α → σ) (n : Nat) (s : σ) (l : List α) : σ :=
  blocks compress n (l.length / n) s l

/-- What follows the last whole block. -/
def residue (n : Nat) (l : List α) : List α := l.drop (n * (l.length / n))

variable {compress : σ → List α → σ} {n k j : Nat} {s : σ} {l m block : List α}

theorem blocks_add : blocks compress n (j + k) s l =
    blocks compress n k (blocks compress n j s l) (l.drop (n * j)) := by
  induction j generalizing s l with
  | zero => rw [Nat.zero_add, Nat.mul_zero, List.drop_zero, blocks]
  | succ j ih =>
    rw [Nat.succ_add, blocks, blocks, ih, List.drop_drop]
    congr 2
    rw [Nat.mul_succ, Nat.add_comm]

theorem blocks_append (le : n * k ≤ l.length) :
    blocks compress n k s (l ++ m) = blocks compress n k s l := by
  induction k generalizing s l with
  | zero => rfl
  | succ k ih =>
    rw [Nat.mul_succ] at le
    have first : n ≤ l.length := by omega
    rw [blocks, blocks, List.take_append_of_le_length first, List.drop_append_of_le_length first]
    apply ih
    rw [List.length_drop]
    omega

theorem length_residue : (residue n l).length = l.length % n := by
  have whole := Nat.div_add_mod l.length n
  rw [residue, List.length_drop]
  omega

/-- What is left of a longer list depends on what is left of its beginning. -/
theorem blocks_residue : n * (l.length / n) + (residue n l ++ m).length = (l ++ m).length := by
  have whole := Nat.div_add_mod l.length n
  rw [List.length_append, List.length_append, length_residue]
  omega

theorem drop_blocks :
    (l ++ m).drop (n * (l.length / n)) = residue n l ++ m :=
  List.drop_append_of_le_length (Nat.mul_div_le _ _)

theorem div_append (pos : 0 < n) : (l ++ m).length / n =
    l.length / n + (residue n l ++ m).length / n := by
  rw [← blocks_residue (n := n), Nat.mul_add_div pos]

/-- Going on with more elements. -/
theorem absorb_append (pos : 0 < n) : absorb compress n s (l ++ m) =
    absorb compress n (absorb compress n s l) (residue n l ++ m) := by
  rw [absorb, div_append pos, blocks_add, drop_blocks, blocks_append (Nat.mul_div_le _ _)]
  rfl

theorem residue_append (pos : 0 < n) : residue n (l ++ m) = residue n (residue n l ++ m) := by
  rw [residue, residue, div_append pos, Nat.mul_add, ← List.drop_drop, drop_blocks]

theorem absorb_short (less : l.length < n) : absorb compress n s l = s := by
  rw [absorb, Nat.div_eq_of_lt less, blocks]

theorem residue_short (less : l.length < n) : residue n l = l := by
  rw [residue, Nat.div_eq_of_lt less, Nat.mul_zero, List.drop_zero]

/-- A whole block in front. -/
theorem absorb_block_append (pos : 0 < n) (full : block.length = n) :
    absorb compress n s (block ++ m) = absorb compress n (compress s block) m := by
  have one : absorb compress n s block = compress s block := by
    rw [absorb, full, Nat.div_self pos, blocks, blocks, ← full, List.take_length]
  have none : residue n block = [] := by
    apply List.eq_nil_of_length_eq_zero
    rw [length_residue, full, Nat.mod_self]
  rw [absorb_append pos, one, none, List.nil_append]

theorem residue_block_append (pos : 0 < n) (full : block.length = n) :
    residue n (block ++ m) = residue n m := by
  have none : residue n block = [] := by
    apply List.eq_nil_of_length_eq_zero
    rw [length_residue, full, Nat.mod_self]
  rw [residue_append pos, none, List.nil_append]

end CviRuntime.BlockStream
