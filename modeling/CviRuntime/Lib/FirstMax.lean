import CviRuntime.Lib.Loop
import Mathlib.Order.Lattice

/-!
# The first of the greatest

A scan that replaces the best value only by a greater one finds the first place of the maximum. So
does a scan over the maxima of blocks followed by a search in the first block that has the greatest
of them.
-/

namespace CviRuntime.FirstMax

open CviRuntime.Loop

variable {α : Type*} [LinearOrder α]

/-- The first place below the bound at which the value is greatest. -/
structure IsFirstMax (f : Nat → α) (n k : Nat) : Prop where
  less : k < n
  greatest : ∀ j < n, f j ≤ f k
  first : ∀ j < k, f j < f k

/-- The value is the greatest in block `b` of the places below `n`, cut into blocks of `w`. -/
structure IsBlockMax (f : Nat → α) (w n b : Nat) (x : α) : Prop where
  attained : ∃ k < n, k / w = b ∧ f k = x
  greatest : ∀ k < n, k / w = b → f k ≤ x

/-- A scan over some places, from the best value so far and its place. -/
def scan (f : Nat → α) (best : α × Nat) (places : List Nat) : α × Nat :=
  places.foldl (fun best j => if f j > best.1 then (f j, j) else best) best

variable {f m : Nat → α} {n k : Nat}

theorem IsFirstMax.unique {k' : Nat} (left : IsFirstMax f n k) (right : IsFirstMax f n k') :
    k = k' := by
  obtain less | same | more := Nat.lt_trichotomy k k'
  · exact absurd (right.first k less) (not_lt.mpr (left.greatest k' right.less))
  · exact same
  · exact absurd (left.first k' more) (not_lt.mpr (right.greatest k left.less))

/-- The scan behind the first place. -/
theorem scan_spec (n : Nat) :
    ∃ k, scan f (f 0, 0) (List.range' 1 n) = (f k, k) ∧ IsFirstMax f (n + 1) k := by
  induction n with
  | zero =>
    refine ⟨0, rfl, Nat.one_pos, fun j less => ?_, fun j less => absurd less (Nat.not_lt_zero j)⟩
    rw [Nat.lt_one_iff.mp less]
  | succ n ih =>
    obtain ⟨k, found, best⟩ := ih
    have last : scan f (f 0, 0) (List.range' 1 (n + 1)) =
        if f (n + 1) > f k then (f (n + 1), n + 1) else (f k, k) := by
      rw [List.range'_concat, Nat.one_mul, Nat.add_comm 1 n]
      unfold scan at found ⊢
      rw [List.foldl_append, found]
      rfl
    rw [last]
    by_cases more : f (n + 1) > f k
    · refine ⟨n + 1, if_pos more, Nat.lt_succ_self _, fun j less => ?_, fun j less => ?_⟩
      · obtain earlier | rfl := Nat.lt_succ_iff_lt_or_eq.mp less
        · exact (best.greatest j earlier).trans more.le
        · exact le_rfl
      · exact (best.greatest j less).trans_lt more
    · refine ⟨k, if_neg more, Nat.lt_succ_of_lt best.less, fun j less => ?_, best.first⟩
      obtain earlier | rfl := Nat.lt_succ_iff_lt_or_eq.mp less
      · exact best.greatest j earlier
      · exact not_lt.mp more

/-! ## Blocks -/

section

variable {w b : Nat}

theorem div_lt_rounds (positive : 0 < w) (less : k < n) : k / w < rounds n w :=
  (lt_rounds_iff positive _).mpr ((Nat.div_mul_le_self k w).trans_lt less)

/-- The first place of the greatest value in the first block with the greatest maximum is the first
    place of all. -/
theorem IsFirstMax.of_blocks (positive : 0 < w)
    (blocks : ∀ b < rounds n w, IsBlockMax f w n b (m b)) (outer : IsFirstMax m (rounds n w) b)
    (less : k < n) (inBlock : k / w = b) (attains : f k = m b)
    (least : ∀ j < k, j / w = b → f j ≠ m b) : IsFirstMax f n k where
  less := less
  greatest j below := by
    rw [attains]
    exact ((blocks _ (div_lt_rounds positive below)).greatest j below rfl).trans
      (outer.greatest _ (div_lt_rounds positive below))
  first j before := by
    have below := before.trans less
    have atMost := (blocks _ (div_lt_rounds positive below)).greatest j below rfl
    rw [attains]
    obtain earlier | same := (Nat.div_le_div_right (c := w) before.le).lt_or_eq
    · exact atMost.trans_lt (outer.first _ (inBlock ▸ earlier))
    · have inSame : j / w = b := same.trans inBlock
      exact lt_of_le_of_ne (inSame ▸ atMost) (least j before inSame)

/-- The search in a block of `len` places from `start` on: 0 when nothing is found. -/
def search (f : Nat → α) (start len : Nat) (x : α) : Nat :=
  ((List.range len).find? fun j => f (start + j) = x).getD 0

theorem search_of_none {start len : Nat} {x : α} (absent : ∀ j < len, f (start + j) ≠ x) :
    search f start len x = 0 := by
  have none : (List.range len).find? (fun j => decide (f (start + j) = x)) = none :=
    List.find?_eq_none.mpr fun j member =>
      decide_eq_true_iff.not.mpr (absent j (List.mem_range.mp member))
  rw [search, none]
  rfl

theorem search_of_exists {start len : Nat} {x : α} (present : ∃ j < len, f (start + j) = x) :
    search f start len x < len ∧ f (start + search f start len x) = x ∧
      ∀ j < search f start len x, f (start + j) ≠ x := by
  cases found : (List.range len).find? fun j => decide (f (start + j) = x) with
  | none =>
    obtain ⟨j, less, here⟩ := present
    exact absurd (decide_eq_true here) (List.find?_eq_none.mp found j (List.mem_range.mpr less))
  | some i =>
    have result : search f start len x = i := by
      rw [search, found]
      rfl
    obtain ⟨holds, member, before⟩ := List.find?_range_eq_some.mp found
    rw [result]
    refine ⟨List.mem_range.mp member, of_decide_eq_true holds, fun j less same => ?_⟩
    have not := before j less
    rw [decide_eq_true same] at not
    cases not

end

end CviRuntime.FirstMax
