import Mathlib.Data.List.Perm.Basic
import CviRuntime.Memory.Device

/-!
# Who frees a handle

A part of the library holds some handles, and an operation of it turns those into others. What
the rest of the library holds is not touched. Operations compose, so that what a long function
does to the handles follows from what its calls do.
-/

namespace CviRuntime.Memory.Device

/-- The handles are live, and no two holders share one. -/
structure Owns (device : Device) (handles : List Nat) : Prop where
  nodup : handles.Nodup
  live : ∀ h ∈ handles, device.heap.Live h

/-- The holder of the handles `before` turns them into `after` and touches no others. -/
structure Moves (device device' : Device) (before after : List Nat) : Prop where
  next : device.heap.next ≤ device'.heap.next
  cells : ∀ h < device.heap.next, h ∉ before → device'.heap.cell h = device.heap.cell h
  fresh : ∀ h ∈ after, h ∈ before ∨ device.heap.next ≤ h
  owns : device.Owns before → device'.Owns after
  steps : device.Owns before → Steps device device'

section moves

variable {device device' device'' : Device} {before between after rest : List Nat}

theorem Owns.nil : device.Owns [] := ⟨.nil, by simp⟩

theorem Owns.perm (owns : device.Owns before) (perm : before.Perm after) : device.Owns after :=
  ⟨perm.nodup_iff.mp owns.nodup, fun h member => owns.live h (perm.mem_iff.mpr member)⟩

theorem Owns.sublist (owns : device.Owns before) (fewer : after.Sublist before) :
    device.Owns after :=
  ⟨owns.nodup.sublist fewer, fun h member => owns.live h (fewer.subset member)⟩

theorem Moves.refl : Moves device device before before where
  next := Nat.le_refl _
  cells := fun _ _ _ => rfl
  fresh := fun _ member => .inl member
  owns := id
  steps := fun _ => .refl

/-- Handles may be forgotten or listed in another order. -/
theorem Moves.weaken (moves : Moves device device' before between)
    (fewer : after.Subperm between) : Moves device device' before after where
  next := moves.next
  cells := moves.cells
  fresh := fun h member => moves.fresh h (fewer.subset member)
  owns := by
    intro owns
    obtain ⟨sub, perm, sublist⟩ := fewer
    exact ((moves.owns owns).sublist sublist).perm perm
  steps := moves.steps

/-- One operation after the other. -/
theorem Moves.trans (first : Moves device device' before between)
    (second : Moves device' device'' between after) : Moves device device'' before after where
  next := first.next.trans second.next
  cells := by
    intro h below other
    have kept : h ∉ between := fun member =>
      (first.fresh h member).elim other (Nat.not_le.mpr below)
    rw [second.cells h (below.trans_le first.next) kept, first.cells h below other]
  fresh := by
    intro h member
    rcases second.fresh h member with member | above
    · exact first.fresh h member
    · exact .inr (first.next.trans above)
  owns := fun owns => second.owns (first.owns owns)
  steps := fun owns => (first.steps owns).trans (second.steps (first.owns owns))

/-- What the others hold is not touched. -/
theorem Moves.frame (moves : Moves device device' before after) (rest : List Nat) :
    Moves device device' (before ++ rest) (after ++ rest) where
  next := moves.next
  cells := fun h below other => moves.cells h below fun member =>
    other (List.mem_append_left _ member)
  fresh := by
    intro h member
    rcases List.mem_append.mp member with member | member
    · exact (moves.fresh h member).imp_left (List.mem_append_left _)
    · exact .inl (List.mem_append_right _ member)
  owns := by
    intro owns
    obtain ⟨nodup, live⟩ := owns
    obtain ⟨mine, theirs, apart⟩ := List.nodup_append.mp nodup
    have own := moves.owns ⟨mine, fun h member => live h (List.mem_append_left _ member)⟩
    refine ⟨List.nodup_append.mpr ⟨own.nodup, theirs, ?_⟩, fun h member => ?_⟩
    · rintro h member k other rfl
      rcases moves.fresh h member with old | new
      · exact apart h old h other rfl
      · exact Nat.not_le.mpr (live h (List.mem_append_right _ other)).lt_next new
    · rcases List.mem_append.mp member with member | other
      · exact own.live h member
      · have alive := live h (List.mem_append_right _ other)
        rw [Heap.Live, moves.cells h alive.lt_next fun member => apart h member h other rfl]
        exact alive
  steps := fun owns => moves.steps
    ⟨(List.nodup_append.mp owns.nodup).1, fun h member => owns.live h (List.mem_append_left _ member)⟩

/-- What makes blocks and frees only those leaves its holder the rest. -/
theorem Grows.moves {kept : List Nat} (grows : Grows device device' kept) (nodup : kept.Nodup)
    (above : ∀ h ∈ kept, device.heap.next ≤ h) : Moves device device' [] kept where
  next := grows.next
  cells := fun h below _ => grows.cells h below
  fresh := fun h member => .inr (above h member)
  owns := fun _ => ⟨nodup, fun h member => (grows.live h (above h member)).mpr member⟩
  steps := fun _ => grows.steps

theorem Moves.make {size : Nat} {origin : Origin} {content : List UInt8}
    (own : ∀ pair, origin = .callback pair → pair = device.pair) :
    Moves device (device.make size origin content).2 [] [device.heap.next] :=
  ((Grows.refl device).make size origin content own).moves (by simp) (by simp)

theorem Moves.free (device : Device) (h : Nat) : Moves device (device.cviMemFree h) [h] [] where
  next := Nat.le_refl _
  cells := fun k _ other => Heap.free_cell_of_ne fun same => other (by simp [same])
  fresh := by simp
  owns := fun _ => .nil
  steps := fun owns => Steps.refl.free (owns.live h List.mem_cons_self)

/-- A list of handles freed one after the other. -/
def freeAll (device : Device) (handles : List Nat) : Device := handles.foldl cviMemFree device

theorem Moves.freeAll : ∀ (handles : List Nat) (device : Device),
    Moves device (device.freeAll handles) handles [] := by
  intro handles
  induction handles with
  | nil =>
    intro device
    exact .refl
  | cons h handles ih =>
    intro device
    exact ((Moves.free device h).frame handles).trans (ih (device.cviMemFree h))

end moves

end CviRuntime.Memory.Device
