import Mathlib.Logic.Function.Basic

/-!
# A heap of blocks known by the number of their allocation

Every allocation gets a number that was never given out before, so a freed block stays apart
from all later ones. What no allocation has reached yet holds no block.
-/

namespace CviRuntime

/-- Blocks by the number of their allocation. -/
structure Heap (β : Type*) where
  next : Nat
  cell : Nat → Option β
  fresh : ∀ h, next ≤ h → cell h = none

namespace Heap

variable {β : Type*}

def empty : Heap β := ⟨0, fun _ => none, fun _ _ => rfl⟩

def Live (heap : Heap β) (h : Nat) : Prop := (heap.cell h).isSome

instance (heap : Heap β) (h : Nat) : Decidable (heap.Live h) :=
  inferInstanceAs (Decidable ((heap.cell h).isSome = true))

/-- The heap with one more block, whose number is `heap.next`. -/
def alloc (heap : Heap β) (block : β) : Heap β where
  next := heap.next + 1
  cell := Function.update heap.cell heap.next (some block)
  fresh := by
    intro h above
    rw [Function.update_of_ne (by omega)]
    exact heap.fresh h (by omega)

def free (heap : Heap β) (h : Nat) : Heap β where
  next := heap.next
  cell := Function.update heap.cell h none
  fresh := by
    intro k above
    by_cases same : k = h
    · rw [same, Function.update_self]
    · rw [Function.update_of_ne same]
      exact heap.fresh k above

/-- Change the block `h`, if there is one. -/
def modify (heap : Heap β) (h : Nat) (f : β → β) : Heap β where
  next := heap.next
  cell := Function.update heap.cell h ((heap.cell h).map f)
  fresh := by
    intro k above
    by_cases same : k = h
    · rw [same, Function.update_self, heap.fresh h (same ▸ above), Option.map_none]
    · rw [Function.update_of_ne same]
      exact heap.fresh k above

variable {heap : Heap β} {h k : Nat} {block : β} {f : β → β}

@[simp] theorem empty_cell : (empty : Heap β).cell h = none := rfl
@[simp] theorem modify_next : (heap.modify h f).next = heap.next := rfl

@[simp] theorem alloc_cell_self : (heap.alloc block).cell heap.next = some block :=
  Function.update_self _ _ _

theorem alloc_cell_of_ne (other : h ≠ heap.next) : (heap.alloc block).cell h = heap.cell h :=
  Function.update_of_ne other _ _

@[simp] theorem free_cell_self : (heap.free h).cell h = none := Function.update_self _ _ _

theorem free_cell_of_ne (other : k ≠ h) : (heap.free h).cell k = heap.cell k :=
  Function.update_of_ne other _ _

theorem modify_cell_self : (heap.modify h f).cell h = (heap.cell h).map f :=
  Function.update_self _ _ _

theorem modify_cell_of_ne (other : k ≠ h) : (heap.modify h f).cell k = heap.cell k :=
  Function.update_of_ne other _ _

theorem live_iff : heap.Live h ↔ ∃ block, heap.cell h = some block := Option.isSome_iff_exists

/-- A live block was allocated. -/
theorem Live.lt_next (live : heap.Live h) : h < heap.next := by
  by_contra above
  have none := heap.fresh h (by omega)
  rw [Live, none] at live
  cases live

@[simp] theorem live_modify : (heap.modify h f).Live k ↔ heap.Live k := by
  by_cases same : k = h
  · subst same
    rw [Live, Live, modify_cell_self, Option.isSome_map]
  · rw [Live, Live, modify_cell_of_ne same]

theorem live_alloc : (heap.alloc block).Live h ↔ heap.Live h ∨ h = heap.next := by
  by_cases same : h = heap.next
  · subst same
    simp [Live]
  · rw [Live, Live, alloc_cell_of_ne same]
    simp [same]

theorem live_free : (heap.free h).Live k ↔ heap.Live k ∧ k ≠ h := by
  by_cases same : k = h
  · subst same
    simp [Live]
  · rw [Live, Live, free_cell_of_ne same]
    simp [same]

/-- The next number is not in use. -/
theorem not_live_next : ¬ heap.Live heap.next := fun live => Nat.lt_irrefl _ live.lt_next

end Heap

end CviRuntime
