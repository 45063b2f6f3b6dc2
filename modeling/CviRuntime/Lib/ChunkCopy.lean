import Mathlib.Algebra.Order.Ring.Nat

/-!
# Copies in chunks

`do { copy a chunk; d += w; s += w; } while (d < e)`: the loop of a copy that moves whole chunks
and so may go past its end. The last chunk starts before the end or is the first one, which bounds
how far it goes. Each chunk may fail.
-/

namespace CviRuntime.ChunkCopy

variable {σ : Type*}

/-- The loop with fuel; `d` and `s` are where the next chunk goes and comes from. -/
def copyRounds (chunk : σ → Nat → Nat → Option σ) (w e : Nat) : Nat → σ → Nat → Nat → Option σ
  | 0, _, _, _ => none
  | fuel + 1, m, d, s => do
    let m ← chunk m d s
    if d + w < e then copyRounds chunk w e fuel m (d + w) (s + w) else some m

/-- What every chunk keeps holds after the loop, at a place between `e` and `bound`. -/
theorem copyRounds_spec (chunk : σ → Nat → Nat → Option σ) (P : Nat → Nat → σ → Prop)
    {w e bound : Nat}
    (step : ∀ d s m, P d s m → d + w ≤ bound → ∃ m', chunk m d s = some m' ∧ P (d + w) (s + w) m')
    (slack : e + w ≤ bound + 1) {fuel d s : Nat} {m : σ} (start : P d s m) (first : d + w ≤ bound)
    (enough : e ≤ d + fuel * w) (fueled : 0 < fuel) :
    ∃ m' d' s', copyRounds chunk w e fuel m d s = some m' ∧ P d' s' m' ∧ e ≤ d' ∧ d' ≤ bound ∧
      d + w ≤ d' := by
  induction fuel generalizing d s m with
  | zero => omega
  | succ fuel ih =>
    obtain ⟨m', copied, kept⟩ := step d s m start first
    rw [copyRounds, copied]
    by_cases more : d + w < e
    · rw [Nat.succ_mul] at enough
      have left : 0 < fuel := by
        apply Nat.pos_of_ne_zero
        rintro rfl
        omega
      obtain ⟨last, d', s', run, keeps, past, within, later⟩ :=
        ih kept (by omega) (by omega) left
      refine ⟨last, d', s', ?_, keeps, past, within, by omega⟩
      rw [Option.bind_eq_bind, Option.bind_some, if_pos more, run]
    · refine ⟨m', d + w, s + w, ?_, kept, by omega, first, Nat.le_refl _⟩
      rw [Option.bind_eq_bind, Option.bind_some, if_neg more]

end CviRuntime.ChunkCopy
