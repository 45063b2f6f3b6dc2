import Mathlib.Data.List.Perm.Basic
import Mathlib.Data.List.Perm.Lattice

/-!
# Lists of half-open intervals

An interval is a pair `(start, size)` and stands for `[start, start + size)`.
A list of intervals is described by `cover`, the number of its intervals that
contain a point. Cutting an interval in two or gluing two neighbours together
changes the list but not its `cover`, and permutations do not change it either,
so "these intervals tile `[0, T)`" is an equation between counts that survives
in-place edits of the list. Disjointness and the exact union are read back from
the counts (`Tiles.pairwise`, `Tiles.mem_iff`).
-/

namespace CviRuntime.Interval

/-- `(start, size)`, standing for `[start, start + size)`. -/
abbrev Slot := Nat × Nat

/-- `point` lies in the slot. -/
def Slot.Contains (slot : Slot) (point : Nat) : Prop :=
  slot.1 ≤ point ∧ point < slot.1 + slot.2

instance (slot : Slot) (point : Nat) : Decidable (slot.Contains point) :=
  inferInstanceAs (Decidable (_ ∧ _))

/-- One slot ends before the other begins. -/
def Slot.Apart (a b : Slot) : Prop := a.1 + a.2 ≤ b.1 ∨ b.1 + b.2 ≤ a.1

theorem Slot.Apart.symm {a b : Slot} (h : a.Apart b) : b.Apart a := Or.symm h

/-- How many slots of the list contain `point`. -/
def cover (slots : List Slot) (point : Nat) : Nat :=
  slots.countP (fun slot => slot.Contains point)

@[simp] theorem cover_nil (point : Nat) : cover [] point = 0 := rfl

theorem cover_cons (slot : Slot) (slots : List Slot) (point : Nat) :
    cover (slot :: slots) point =
      (if slot.Contains point then 1 else 0) + cover slots point := by
  simp [cover, List.countP_cons, Nat.add_comm]

theorem cover_append (left right : List Slot) (point : Nat) :
    cover (left ++ right) point = cover left point + cover right point := by
  simp [cover, List.countP_append]

theorem cover_perm {left right : List Slot} (perm : left.Perm right) (point : Nat) :
    cover left point = cover right point :=
  perm.countP_eq _

/-- A slot cut at `size` is covered by its two parts. -/
theorem cover_cut (start size rest : Nat) (slots : List Slot) (point : Nat) :
    cover ((start, size + rest) :: slots) point =
      cover ((start, size) :: (start + size, rest) :: slots) point := by
  have whole : Slot.Contains (start, size + rest) point ↔
      Slot.Contains (start, size) point ∨ Slot.Contains (start + size, rest) point := by
    simp only [Slot.Contains]
    omega
  have parts : ¬ (Slot.Contains (start, size) point ∧
      Slot.Contains (start + size, rest) point) := by
    simp only [Slot.Contains]
    omega
  simp only [cover_cons]
  grind

theorem cover_pos {slots : List Slot} {slot : Slot} {point : Nat} (member : slot ∈ slots)
    (inside : slot.Contains point) : 0 < cover slots point :=
  List.countP_pos_iff.mpr ⟨slot, member, by simpa using inside⟩

theorem exists_of_cover_pos {slots : List Slot} {point : Nat} (pos : 0 < cover slots point) :
    ∃ slot ∈ slots, slot.Contains point := by
  obtain ⟨slot, member, inside⟩ := List.countP_pos_iff.mp pos
  exact ⟨slot, member, by simpa using inside⟩

/-- Two non-empty slots that no point has in common are apart. -/
theorem apart_of_cover_le {a b : Slot} {slots : List Slot} (ha : 0 < a.2) (hb : 0 < b.2)
    (once : ∀ point, cover (a :: b :: slots) point ≤ 1) : a.Apart b := by
  by_contra overlap
  have shared := once (max a.1 b.1)
  simp only [Slot.Apart, not_or, Nat.not_le] at overlap
  have inA : a.Contains (max a.1 b.1) := by simp only [Slot.Contains]; omega
  have inB : b.Contains (max a.1 b.1) := by simp only [Slot.Contains]; omega
  simp only [cover_cons, inA, inB, if_true] at shared
  omega

/-- The slots are non-empty and every point below `total`, and no other, lies in exactly one. -/
structure Tiles (total : Nat) (slots : List Slot) : Prop where
  nonempty : ∀ slot ∈ slots, 0 < slot.2
  once : ∀ point, cover slots point = if point < total then 1 else 0

namespace Tiles

variable {total : Nat} {slots : List Slot}

theorem perm {slots' : List Slot} (tiles : Tiles total slots) (perm : slots.Perm slots') :
    Tiles total slots' where
  nonempty slot member := tiles.nonempty slot (perm.mem_iff.mpr member)
  once point := by rw [← cover_perm perm, tiles.once]

theorem cover_le_one (tiles : Tiles total slots) (point : Nat) : cover slots point ≤ 1 := by
  rw [tiles.once]
  split <;> omega

/-- Two entries of a tiling, at whatever positions, are apart. -/
theorem apart {a b : Slot} {rest : List Slot} (tiles : Tiles total slots)
    (perm : slots.Perm (a :: b :: rest)) : a.Apart b := by
  have tiles' := tiles.perm perm
  exact apart_of_cover_le (tiles'.nonempty a (by simp)) (tiles'.nonempty b (by simp))
    tiles'.cover_le_one

theorem le_total (tiles : Tiles total slots) {slot : Slot} (member : slot ∈ slots) :
    slot.1 + slot.2 ≤ total := by
  have size := tiles.nonempty slot member
  have inside : slot.Contains (slot.1 + slot.2 - 1) := by
    simp only [Slot.Contains]
    omega
  have last := cover_pos member inside
  rw [tiles.once] at last
  split at last <;> omega

/-- The slots are pairwise disjoint. -/
theorem pairwise (tiles : Tiles total slots) : slots.Pairwise Slot.Apart := by
  have once := tiles.cover_le_one
  have nonempty := tiles.nonempty
  clear tiles
  induction slots with
  | nil => exact List.Pairwise.nil
  | cons head tail ih =>
    refine List.Pairwise.cons ?_ (ih ?_ ?_)
    · intro slot member
      have perm : (head :: tail).Perm (head :: slot :: tail.erase slot) :=
        (List.perm_cons_erase member).cons head
      have onceBoth : ∀ point, cover (head :: slot :: tail.erase slot) point ≤ 1 := by
        intro point
        rw [← cover_perm perm]
        exact once point
      exact apart_of_cover_le (nonempty head (by simp)) (nonempty slot (by simp [member])) onceBoth
    · intro point
      have := once point
      rw [cover_cons] at this
      omega
    · intro slot member
      exact nonempty slot (by simp [member])

/-- The union of the slots is exactly `[0, total)`. -/
theorem mem_iff (tiles : Tiles total slots) (point : Nat) :
    (∃ slot ∈ slots, slot.Contains point) ↔ point < total := by
  constructor
  · rintro ⟨slot, member, inside⟩
    have pos := cover_pos member inside
    rw [tiles.once] at pos
    split at pos
    · assumption
    · omega
  · intro below
    apply exists_of_cover_pos
    rw [tiles.once, if_pos below]
    exact Nat.one_pos

/-- A tiling of a non-empty range with no two adjacent slots is one slot. -/
theorem eq_singleton (tiles : Tiles total slots) (pos : 0 < total)
    (separate : ∀ a ∈ slots, ∀ b ∈ slots, a.1 + a.2 ≠ b.1) : slots = [(0, total)] := by
  obtain ⟨first, member, inside⟩ := (tiles.mem_iff 0).mpr pos
  have start : first.1 = 0 := Nat.le_zero.mp inside.1
  have perm := List.perm_cons_erase member
  have inTotal := tiles.le_total member
  have whole : first.2 = total := by
    by_contra short
    obtain ⟨next, nextMember, nextInside⟩ := (tiles.mem_iff first.2).mpr (by omega)
    have different : next ≠ first := by
      rintro rfl
      have := nextInside.2
      omega
    have nextRest : next ∈ slots.erase first := (List.mem_erase_of_ne different).mpr nextMember
    have both : slots.Perm (first :: next :: (slots.erase first).erase next) :=
      perm.trans ((List.perm_cons_erase nextRest).cons first)
    have adjacent := separate first member next nextMember
    have apartNext := tiles.apart both
    simp only [Slot.Apart, Slot.Contains] at apartNext nextInside
    omega
  have empty : slots.erase first = [] := by
    rw [List.eq_nil_iff_forall_not_mem]
    intro other otherMember
    have both : slots.Perm (first :: other :: (slots.erase first).erase other) :=
      perm.trans ((List.perm_cons_erase otherMember).cons first)
    have otherIn : other ∈ slots := List.mem_of_mem_erase otherMember
    have size := tiles.nonempty other otherIn
    have bound := tiles.le_total otherIn
    have apartOther := tiles.apart both
    simp only [Slot.Apart] at apartOther
    omega
  rw [empty] at perm
  rw [List.perm_singleton.mp perm]
  exact congrArg (fun slot => [slot]) (Prod.ext start whole)

end Tiles

/-! ## In-place edits of the list -/

section Edit

variable {α : Type*} [DecidableEq α]

omit [DecidableEq α] in
theorem perm_cons_eraseIdx {l : List α} {i : Nat} {x : α} (entry : l[i]? = some x) :
    l.Perm (x :: l.eraseIdx i) := by
  obtain ⟨bound, rfl⟩ := List.getElem?_eq_some_iff.mp entry
  exact (List.getElem_cons_eraseIdx_perm bound).symm

omit [DecidableEq α] in
theorem set_perm_cons_eraseIdx {l : List α} {i : Nat} {x : α} (entry : l[i]? = some x) (y : α) :
    (l.set i y).Perm (y :: l.eraseIdx i) := by
  obtain ⟨bound, -⟩ := List.getElem?_eq_some_iff.mp entry
  exact List.set_perm_cons_eraseIdx bound y

/-- Overwriting entry `i` and deleting entry `j` exchanges both entries for the new value. -/
theorem set_eraseIdx_perm {l : List α} {i j : Nat} {x y : α} (z : α) (distinct : i ≠ j)
    (entryI : l[i]? = some x) (entryJ : l[j]? = some y) :
    ∃ rest, l.Perm (x :: y :: rest) ∧ ((l.set i z).eraseIdx j).Perm (z :: rest) := by
  have entryJ' : (l.set i z)[j]? = some y := by
    rw [List.getElem?_set_ne distinct]
    exact entryJ
  have boundI := (List.getElem?_eq_some_iff.mp entryI).1
  have kept : z ∈ (l.set i z).eraseIdx j :=
    List.mem_eraseIdx_iff_getElem?.mpr ⟨i, distinct, by simp [boundI]⟩
  have deleted := perm_cons_eraseIdx entryJ'
  have replaced := set_perm_cons_eraseIdx entryI z
  have split := List.perm_cons_erase kept
  refine ⟨((l.set i z).eraseIdx j).erase z, ?_, split⟩
  have swap : (z :: l.eraseIdx i).Perm (z :: y :: ((l.set i z).eraseIdx j).erase z) :=
    replaced.symm.trans (deleted.trans ((split.cons y).trans (List.Perm.swap _ _ _)))
  exact (perm_cons_eraseIdx entryI).trans ((List.perm_cons z).mp swap |>.cons x)

end Edit

end CviRuntime.Interval
