import Mathlib.Order.Basic

/-!
# Filling a region block by block

Blocks of one size are put one behind the other. What is put into a block depends on the memory
before, but not on the region: then the blocks that were put first do not matter, and at the end
the whole region is as if every block had been taken from the memory at the beginning.
-/

namespace CviRuntime.BlockFill

variable {β : Type*}

/-- Two memories agree outside of `[dst, dst + size)`. -/
def AgreeOutside (dst size : Nat) (m m' : Nat → β) : Prop :=
  ∀ a, a < dst ∨ dst + size ≤ a → m' a = m a

/-- `[dst, dst + size)` gets the values, and nothing else changes. -/
structure Puts (dst size : Nat) (value : (Nat → β) → Nat → β) (before after : Nat → β) : Prop where
  inside : ∀ o, o < size → after (dst + o) = value before o
  outside : AgreeOutside dst size before after

/-- The first `count` blocks from `dst` on: those that were put have their values, the others and
    everything else are unchanged. -/
structure Filled (dst size : Nat) (value : Nat → (Nat → β) → Nat → β) (isPut : Nat → Prop)
    (count : Nat) (before after : Nat → β) : Prop where
  inside : ∀ i o, i < count → isPut i → o < size → after (dst + i * size + o) = value i before o
  skipped : ∀ i o, i < count → ¬ isPut i → o < size →
    after (dst + i * size + o) = before (dst + i * size + o)
  outside : AgreeOutside dst (count * size) before after

/-- The value of a block does not depend on the region. -/
def Reads (dst size blockSize : Nat) (value : (Nat → β) → Nat → β) : Prop :=
  ∀ m m', AgreeOutside dst size m m' → ∀ o, o < blockSize → value m' o = value m o

section

variable {dst size count total : Nat} {value : Nat → (Nat → β) → Nat → β} {isPut : Nat → Prop}
  {before mid after : Nat → β}

theorem AgreeOutside.refl (dst size : Nat) (m : Nat → β) : AgreeOutside dst size m m :=
  fun _ _ => rfl

theorem AgreeOutside.mono {dst' size' : Nat} (agree : AgreeOutside dst' size' before after)
    (low : dst ≤ dst') (high : dst' + size' ≤ dst + size) : AgreeOutside dst size before after :=
  fun a outside => agree a (by omega)

theorem AgreeOutside.trans (first : AgreeOutside dst size before mid)
    (second : AgreeOutside dst size mid after) : AgreeOutside dst size before after :=
  fun a outside => (second a outside).trans (first a outside)

/-- What was in the region before does not matter. -/
theorem Puts.of_agree {value : (Nat → β) → Nat → β} (puts : Puts dst size value mid after)
    (agree : AgreeOutside dst size before mid) (reads : Reads dst size size value) :
    Puts dst size value before after where
  inside o less := (puts.inside o less).trans (reads before mid agree o less)
  outside := agree.trans puts.outside

theorem Filled.zero (dst size : Nat) (value : Nat → (Nat → β) → Nat → β) (isPut : Nat → Prop)
    (m : Nat → β) : Filled dst size value isPut 0 m m where
  inside _ _ none _ _ := absurd none (Nat.not_lt_zero _)
  skipped _ _ none _ _ := absurd none (Nat.not_lt_zero _)
  outside := AgreeOutside.refl _ _ m

/-- The blocks in front of the next one are not touched by it. -/
theorem Filled.kept {i o : Nat} (puts : AgreeOutside (dst + count * size) size mid after)
    (earlier : i < count) (inBlock : o < size) :
    after (dst + i * size + o) = mid (dst + i * size + o) := by
  have step := Nat.mul_le_mul_right size earlier
  rw [Nat.succ_mul] at step
  exact puts _ (Or.inl (by omega))

/-- One more block that is put. -/
theorem Filled.put (filled : Filled dst size value isPut count before mid)
    (puts : Puts (dst + count * size) size (value count) mid after) (done : isPut count)
    (more : count < total) (reads : Reads dst (total * size) size (value count)) :
    Filled dst size value isPut (count + 1) before after where
  inside := by
    intro i o less isDone inBlock
    rcases Nat.lt_succ_iff_lt_or_eq.mp less with earlier | rfl
    · rw [Filled.kept puts.outside earlier inBlock]
      exact filled.inside i o earlier isDone inBlock
    · have step := Nat.mul_le_mul_right size (Nat.le_of_lt more)
      rw [puts.inside o inBlock]
      exact reads before mid (filled.outside.mono (Nat.le_refl _) (by omega)) o inBlock
  skipped := by
    intro i o less notDone inBlock
    rcases Nat.lt_succ_iff_lt_or_eq.mp less with earlier | rfl
    · rw [Filled.kept puts.outside earlier inBlock]
      exact filled.skipped i o earlier notDone inBlock
    · exact absurd done notDone
  outside := by
    intro a outside
    rw [Nat.succ_mul] at outside
    rw [puts.outside a (by omega)]
    exact filled.outside a (by omega)

/-- One more block that is left as it was. -/
theorem Filled.skip (filled : Filled dst size value isPut count before mid)
    (notDone : ¬ isPut count) : Filled dst size value isPut (count + 1) before mid where
  inside := by
    intro i o less isDone inBlock
    rcases Nat.lt_succ_iff_lt_or_eq.mp less with earlier | rfl
    · exact filled.inside i o earlier isDone inBlock
    · exact absurd isDone notDone
  skipped := by
    intro i o less notDone inBlock
    rcases Nat.lt_succ_iff_lt_or_eq.mp less with earlier | rfl
    · exact filled.skipped i o earlier notDone inBlock
    · exact filled.outside _ (Or.inr (by omega))
  outside := by
    intro a outside
    rw [Nat.succ_mul] at outside
    exact filled.outside a (by omega)

end

end CviRuntime.BlockFill
