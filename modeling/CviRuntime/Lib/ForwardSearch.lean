import Mathlib.Data.List.Range

/-!
# Searching forward by an id

Values are looked for one after the other among `n` places, each from behind the one found before
it and by its id only. `FoundFrom` says that the search comes across the values themselves.
-/

namespace CviRuntime.ForwardSearch

variable {α ι : Type} {idOf : α → ι} {place : Nat → α} {n c : Nat} {xs : List α}

/-- The first place from `c` on with an id. -/
structure Hit (idOf : α → ι) (place : Nat → α) (c : Nat) (id : ι) (i : Nat) : Prop where
  behind : c ≤ i
  here : idOf (place i) = id
  skipped : ∀ j, c ≤ j → j < i → idOf (place j) ≠ id

/-- The search from `c` on finds these values. -/
inductive FoundFrom (idOf : α → ι) (place : Nat → α) (n : Nat) : Nat → List α → Prop
  | nil (c : Nat) : FoundFrom idOf place n c []
  | cons {c i : Nat} {xs : List α} (inside : i < n) (hit : Hit idOf place c (idOf (place i)) i)
    (rest : FoundFrom idOf place n (i + 1) xs) : FoundFrom idOf place n c (place i :: xs)

theorem Hit.unique {id : ι} {i j : Nat} (first : Hit idOf place c id i)
    (second : Hit idOf place c id j) : i = j := by
  obtain before | same | after := Nat.lt_trichotomy i j
  · exact absurd first.here (second.skipped i first.behind before)
  · exact same
  · exact absurd second.here (first.skipped j second.behind after)

theorem FoundFrom.length_le (found : FoundFrom idOf place n c xs) (low : c ≤ n) :
    c + xs.length ≤ n := by
  induction found with
  | nil c => exact low
  | cons inside hit rest ih =>
    have bound := ih inside
    have behind := hit.behind
    rw [List.length_cons]
    omega

/-- All places from `c` on, in their order, are found. -/
theorem foundFrom_range (c : Nat) (low : c ≤ n) :
    FoundFrom idOf place n c ((List.range' c (n - c)).map place) := by
  induction left : n - c generalizing c with
  | zero => exact FoundFrom.nil c
  | succ left ih =>
    rw [List.range'_succ, List.map_cons]
    refine FoundFrom.cons (by omega) ⟨Nat.le_refl c, rfl, ?_⟩ (ih (c + 1) (by omega) (by omega))
    intro j behind before
    exact absurd before (Nat.not_lt_of_le behind)

theorem foundFrom_cons {x : α} : FoundFrom idOf place n c (x :: xs) ↔
    ∃ i < n, place i = x ∧ Hit idOf place c (idOf x) i ∧ FoundFrom idOf place n (i + 1) xs := by
  constructor
  · intro found
    cases found with
    | cons inside hit rest => exact ⟨_, inside, rfl, hit, rest⟩
  · rintro ⟨i, inside, rfl, hit, rest⟩
    exact FoundFrom.cons inside hit rest

theorem FoundFrom.congr {place' : Nat → α} (found : FoundFrom idOf place n c xs)
    (same : ∀ i < n, place' i = place i) : FoundFrom idOf place' n c xs := by
  induction found with
  | nil c => exact FoundFrom.nil c
  | @cons c i xs inside hit rest ih =>
    rw [← same i inside] at hit ⊢
    refine FoundFrom.cons inside ⟨hit.behind, rfl, ?_⟩ ih
    intro j behind before
    rw [same j (Nat.lt_trans before inside)]
    exact hit.skipped j behind before

end CviRuntime.ForwardSearch
