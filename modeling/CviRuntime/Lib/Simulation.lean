import Mathlib.Logic.Basic

/-!
# Simulation of one stateful program by another

Two programs with states and errors of their own. `Simulates R P x y` says that every successful
run of `x` is matched by a successful run of `y` with the same value, which satisfies `P`, and
that the states stay related by `R`. Nothing is said about runs of `x` that fail.
-/

namespace CviRuntime.Simulation

/-- Every successful run of `x` has a successful run of `y` at its side. -/
def Simulates {ε δ σ τ α : Type} (R : σ → τ → Prop) (P : α → Prop) (x : EStateM ε σ α)
    (y : EStateM δ τ α) : Prop :=
  ∀ s t a s', R s t → x s = .ok a s' → ∃ t', y t = .ok a t' ∧ R s' t' ∧ P a

section

variable {ε δ σ τ α β : Type} {R : σ → τ → Prop} {P Q : α → Prop} {x : EStateM ε σ α}
  {y : EStateM δ τ α}

theorem bind_ok {f : α → EStateM ε σ β} {s s' : σ} {b : β} (runs : (x >>= f) s = .ok b s') :
    ∃ a s₁, x s = .ok a s₁ ∧ f a s₁ = .ok b s' := by
  cases first : x s with
  | ok a s₁ =>
    refine ⟨a, s₁, rfl, ?_⟩
    simpa only [bind, EStateM.bind, first] using runs
  | error e s₁ => simp [bind, EStateM.bind, first] at runs

theorem bind_eq_of_ok {f : α → EStateM ε σ β} {s s₁ : σ} {a : α} (first : x s = .ok a s₁) :
    (x >>= f) s = f a s₁ := by
  simp only [bind, EStateM.bind, first]

theorem Simulates.weaken (sim : Simulates R P x y) (weaker : ∀ a, P a → Q a) :
    Simulates R Q x y := by
  intro s t a s' related runs
  obtain ⟨t', matched, related', holds⟩ := sim s t a s' related runs
  exact ⟨t', matched, related', weaker a holds⟩

theorem simulates_pure {a : α} (holds : P a) :
    Simulates R P (pure a : EStateM ε σ α) (pure a : EStateM δ τ α) := by
  rintro s t a' s' related ⟨⟩
  exact ⟨t, rfl, related, holds⟩

theorem simulates_throw {e : ε} : Simulates R P (throw e : EStateM ε σ α) y := by
  rintro s t a s' _ ⟨⟩

theorem Simulates.bind {P : β → Prop} {x : EStateM ε σ β} {y : EStateM δ τ β}
    {f : β → EStateM ε σ α} {g : β → EStateM δ τ α} (first : Simulates R P x y)
    (second : ∀ b, P b → Simulates R Q (f b) (g b)) : Simulates R Q (x >>= f) (y >>= g) := by
  intro s t a s' related runs
  obtain ⟨b, s₁, runsFirst, runsSecond⟩ := bind_ok runs
  obtain ⟨t₁, matched, related₁, holds⟩ := first s t b s₁ related runsFirst
  obtain ⟨t', matched', related', holds'⟩ := second b holds s₁ t₁ a s' related₁ runsSecond
  exact ⟨t', (bind_eq_of_ok matched).trans matched', related', holds'⟩

/-- A step that only the first program makes: it gives `b` and keeps the relation. -/
theorem simulates_bind_left {x : EStateM ε σ β} {b : β} {f : β → EStateM ε σ α}
    (step : ∀ s, ∃ s', x s = .ok b s' ∧ ∀ t, R s t → R s' t) (rest : Simulates R P (f b) y) :
    Simulates R P (x >>= f) y := by
  intro s t a s' related runs
  obtain ⟨s₁, runsFirst, keeps⟩ := step s
  rw [bind_eq_of_ok runsFirst] at runs
  exact rest s₁ t a s' (keeps t related) runs

/-- Branches on the same condition. -/
theorem simulates_ite {c : Prop} [Decidable c] {x' : EStateM ε σ α} {y' : EStateM δ τ α}
    (yes : c → Simulates R P x y) (no : ¬c → Simulates R P x' y') :
    Simulates R P (if c then x else x') (if c then y else y') := by
  by_cases holds : c
  · rw [if_pos holds, if_pos holds]
    exact yes holds
  · rw [if_neg holds, if_neg holds]
    exact no holds

/-- A step that both programs make on the same condition before they go on. -/
theorem simulates_when {c : Prop} [Decidable c] {x : EStateM ε σ β} {y : EStateM δ τ β}
    {z : EStateM ε σ α} {w : EStateM δ τ α} (step : Simulates R (fun _ => True) x y)
    (rest : Simulates R P z w) :
    Simulates R P (if c then x >>= fun _ => z else z) (if c then y >>= fun _ => w else w) :=
  simulates_ite (fun _ => step.bind fun _ _ => rest) fun _ => rest

end

end CviRuntime.Simulation
