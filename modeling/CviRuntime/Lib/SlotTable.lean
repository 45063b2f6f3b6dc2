import Mathlib.Data.List.Basic
import Mathlib.Data.List.Perm.Basic

/-!
# Tables of slots searched from the front

A fixed array is searched for the first entry that meets a condition, and that entry is
overwritten: how a program takes a free slot, and how it clears the slot of a key. What
the table holds afterwards is said up to order.
-/

namespace CviRuntime.SlotTable

variable {α : Type*} {p : α → Bool} {x : α} {table : List α}

/-- Overwrite the first entry that meets `p`; without one nothing changes. -/
def overwriteFirst (p : α → Bool) (x : α) (table : List α) : List α :=
  table.replaceF fun entry => if p entry then some x else none

@[simp] theorem length_overwriteFirst : (overwriteFirst p x table).length = table.length :=
  List.length_replaceF

theorem overwriteFirst_of_none (absent : ∀ entry ∈ table, p entry = false) :
    overwriteFirst p x table = table := by
  apply List.replaceF_of_forall_none
  intro entry member
  simp [absent entry member]

/-- One entry that meets `p` is exchanged for `x`. -/
theorem overwriteFirst_perm (present : ∃ entry ∈ table, p entry = true) :
    ∃ found rest, p found = true ∧ table.find? p = some found ∧ table.Perm (found :: rest) ∧
      (overwriteFirst p x table).Perm (x :: rest) := by
  obtain ⟨entry, member, meets⟩ := present
  obtain ⟨found, new, before, after, skipped, hit, whole, result⟩ :=
    List.exists_of_replaceF (p := fun entry => if p entry then some x else none) member
      (if_pos meets)
  have holds : p found = true := by
    by_contra misses
    simp [misses] at hit
  have same : x = new := by simpa [holds] using hit
  refine ⟨found, before ++ after, holds, ?_, ?_, ?_⟩
  · rw [whole, List.find?_append, List.find?_cons_of_pos holds,
      List.find?_eq_none.mpr fun b inside => by simpa using skipped b inside]
    rfl
  · rw [whole]
    exact List.perm_middle
  · rw [overwriteFirst, result, ← same]
    exact List.perm_middle

/-- A condition on all entries survives when the new entry meets it. -/
theorem forall_overwriteFirst {Q : α → Prop} (new : Q x) (old : ∀ entry ∈ table, Q entry) :
    ∀ entry ∈ overwriteFirst p x table, Q entry := by
  by_cases present : ∃ entry ∈ table, p entry = true
  · obtain ⟨found, rest, -, -, perm, perm'⟩ := overwriteFirst_perm (x := x) present
    intro entry member
    rcases List.mem_cons.mp (perm'.mem_iff.mp member) with rfl | kept
    · exact new
    · exact old entry (perm.mem_iff.mpr (List.mem_cons_of_mem _ kept))
  · rw [overwriteFirst_of_none fun entry member => by
      simpa using fun meets => present ⟨entry, member, meets⟩]
    exact old

end CviRuntime.SlotTable
