import Mathlib.Algebra.Order.Ring.Nat
import Mathlib.Data.List.Basic

/-!
# Counting the elements of a list that meet a test

A list of threads changes one element at a time; a count over it moves by what the old and the
new element count for.
-/

namespace CviRuntime.Count

variable {γ : Type*}

/-- Replacing one element moves a count by what the old and the new element count for. -/
theorem countP_set {p : γ → Bool} {x y : γ} :
    ∀ {xs : List γ} {i : Nat}, xs[i]? = some x →
      (xs.set i y).countP p + (if p x then 1 else 0) = xs.countP p + (if p y then 1 else 0) := by
  intro xs
  induction xs with
  | nil =>
    intro i found
    simp at found
  | cons first rest ih =>
    intro i found
    cases i with
    | zero =>
      obtain rfl : first = x := by simpa using found
      simp only [List.set_cons_zero, List.countP_cons]
      omega
    | succ i =>
      have tail := ih (i := i) (by simpa using found)
      simp only [List.set_cons_succ, List.countP_cons]
      omega

/-- An element may be replaced by one that counts the same. -/
theorem countP_set_of_eq {p : γ → Bool} {x y : γ} {xs : List γ} {i : Nat}
    (found : xs[i]? = some x) (same : p y = p x) : (xs.set i y).countP p = xs.countP p := by
  have moved := countP_set (p := p) (y := y) found
  rw [same] at moved
  exact Nat.add_right_cancel moved

theorem count_set [DecidableEq γ] {a x y : γ} {xs : List γ} {i : Nat} (found : xs[i]? = some x) :
    (xs.set i y).count a + (if x = a then 1 else 0) = xs.count a + (if y = a then 1 else 0) := by
  simpa [List.count] using countP_set (p := (· == a)) (y := y) found

/-- Neither the old nor the new element is the one counted. -/
theorem count_set_of_ne [DecidableEq γ] {a x y : γ} {xs : List γ} {i : Nat}
    (found : xs[i]? = some x) (old : x ≠ a) (new : y ≠ a) : (xs.set i y).count a = xs.count a := by
  have moved := count_set (a := a) (y := y) found
  rw [if_neg old, if_neg new] at moved
  exact moved

/-- Replacing one element moves a sum over the list by the old and the new summand. -/
theorem sum_map_set {f : γ → Nat} {x y : γ} :
    ∀ {xs : List γ} {i : Nat}, xs[i]? = some x →
      ((xs.set i y).map f).sum + f x = (xs.map f).sum + f y := by
  intro xs
  induction xs with
  | nil =>
    intro i found
    simp at found
  | cons first rest ih =>
    intro i found
    cases i with
    | zero =>
      obtain rfl : first = x := by simpa using found
      simp only [List.set_cons_zero, List.map_cons, List.sum_cons]
      omega
    | succ i =>
      have tail := ih (i := i) (by simpa using found)
      simp only [List.set_cons_succ, List.map_cons, List.sum_cons]
      omega

/-- Some element of a list that meets the test is found by its index. -/
theorem exists_getElem?_of_countP_pos {p : γ → Bool} {xs : List γ} (positive : 0 < xs.countP p) :
    ∃ (i : Nat) (x : γ), xs[i]? = some x ∧ p x = true := by
  obtain ⟨x, member, holds⟩ := List.countP_pos_iff.mp positive
  obtain ⟨i, found⟩ := List.getElem?_of_mem member
  exact ⟨i, x, found, holds⟩

theorem countP_pos_of_getElem? {p : γ → Bool} {xs : List γ} {i : Nat} {x : γ}
    (found : xs[i]? = some x) (holds : p x = true) : 0 < xs.countP p :=
  List.countP_pos_iff.mpr ⟨x, List.mem_of_getElem? found, holds⟩

end CviRuntime.Count
