import Mathlib.Data.Option.Basic
import Mathlib.Algebra.Order.Ring.Nat

/-!
# Separate buffers laid out in one memory

Some buffers exist, each with a size, and each has a place in one memory where no other buffer
lies. What is known of a buffer is a partial function: nothing is known of a new one. A memory
shows the buffers when it holds at their places all that is known of them. Writing to one buffer
changes what is known of this one and of no other.
-/

namespace CviRuntime.Placement

variable {ι β : Type*}

/-- Two buffers that exist lie apart; `size` is `none` for those that do not. -/
def Apart (size : ι → Option Nat) (place : ι → Nat) : Prop :=
  ∀ ⦃r r' n n'⦄, r ≠ r' → size r = some n → size r' = some n' →
    place r + n ≤ place r' ∨ place r' + n' ≤ place r

/-- The memory holds what is known of the buffers. -/
def Shows (size : ι → Option Nat) (place : ι → Nat) (known : ι → Nat → Option β)
    (memory : Nat → β) : Prop :=
  ∀ ⦃r n i b⦄, size r = some n → i < n → known r i = some b → memory (place r + i) = b

/-- What is known after `len` cells of a buffer were written. -/
def overwrite [DecidableEq ι] (known : ι → Nat → Option β) (r : ι) (off len : Nat)
    (src : Nat → Option β) : ι → Nat → Option β := fun q i =>
  if q = r ∧ off ≤ i ∧ i < off + len then src (i - off) else known q i

section

variable {size size' : ι → Option Nat} {place place' : ι → Nat} {known known' : ι → Nat → Option β}
  {memory memory' : Nat → β} {r : ι} {off len n i : Nat} {src : Nat → Option β}

theorem overwrite_inside [DecidableEq ι] (low : off ≤ i) (high : i < off + len) :
    overwrite known r off len src r i = src (i - off) :=
  if_pos ⟨rfl, low, high⟩

/-- Fewer or the same buffers lie apart when all did. -/
theorem Apart.mono (apart : Apart size place)
    (old : ∀ r n, size' r = some n → size r = some n ∧ place' r = place r) :
    Apart size' place' := by
  intro r r' n n' other live live'
  obtain ⟨live, same⟩ := old r n live
  obtain ⟨live', same'⟩ := old r' n' live'
  rw [same, same']
  exact apart other live live'

/-- One more buffer, apart from those that were there. -/
theorem Apart.add (apart : Apart size place)
    (old : ∀ q n, q ≠ r → size' q = some n → size q = some n ∧ place' q = place q)
    (new : ∀ q n n', size q = some n → size' r = some n' →
      place q + n ≤ place' r ∨ place' r + n' ≤ place q) : Apart size' place' := by
  intro p q m n other liveP liveQ
  by_cases pNew : p = r
  · subst pNew
    obtain ⟨liveQ, same⟩ := old q n (Ne.symm other) liveQ
    rw [same]
    exact Or.symm (new q n m liveQ liveP)
  · obtain ⟨liveP, same⟩ := old p m pNew liveP
    by_cases qNew : q = r
    · subst qNew
      rw [same]
      exact new p m n liveP liveQ
    · obtain ⟨liveQ, same'⟩ := old q n qNew liveQ
      rw [same, same']
      exact apart other liveP liveQ

/-- A memory that still holds what is still known. -/
theorem Shows.mono (shown : Shows size place known memory)
    (old : ∀ r n i b, size' r = some n → i < n → known' r i = some b →
      size r = some n ∧ known r i = some b ∧ memory' (place' r + i) = memory (place r + i)) :
    Shows size' place' known' memory' := by
  intro r n i b live inside holds
  obtain ⟨live, holds, same⟩ := old r n i b live inside holds
  rw [same]
  exact shown live inside holds

/-- Writing inside one buffer. -/
theorem Shows.overwrite [DecidableEq ι] (shown : Shows size place known memory)
    (apart : Apart size place) (live : size r = some n) (room : off + len ≤ n)
    (written : ∀ i b, i < len → src i = some b → memory' (place r + (off + i)) = b)
    (kept : ∀ a, a < place r + off ∨ place r + off + len ≤ a → memory' a = memory a) :
    Shows size place (overwrite known r off len src) memory' := by
  intro q m i b liveQ inside holds
  unfold Placement.overwrite at holds
  split at holds
  · rename_i here
    obtain ⟨rfl, low, high⟩ := here
    have cell := written (i - off) b (by omega) holds
    rw [← cell]
    congr 2
    omega
  · rename_i away
    rw [kept]
    · exact shown liveQ inside holds
    · by_cases same : q = r
      · subst same
        have outside : ¬(off ≤ i ∧ i < off + len) := fun range => away ⟨rfl, range⟩
        omega
      · rcases apart same liveQ live with before | behind
        · exact Or.inl (by omega)
        · exact Or.inr (by omega)

end

end CviRuntime.Placement
