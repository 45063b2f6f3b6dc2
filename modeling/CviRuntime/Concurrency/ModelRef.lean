import Mathlib.Algebra.Order.Ring.Int
import CviRuntime.Lib.Count
import CviRuntime.Lib.Run

/-!
# The reference count of a model (`src/common/model.cpp`, `src/common/runtime.cpp`)

Every `ModelInstance` holds a reference to its `CviModel`. `CviModel::release` decrements `ref`,
and reads it again to decide whether to delete the model: other instances take steps between
the two. Cleaning up an instance is not under the global lock.
-/

namespace CviRuntime.Concurrency

open Run

/-- How far `~ModelInstance` of an instance has come. -/
inductive Phase where
  /-- the instance is in use, or is deleting its program -/
  | holding
  /-- between `--ref` and `ref == 0` -/
  | decremented
  | finished
  deriving Repr, DecidableEq

/-- A model and its instances. `deletes` and `touched` are not in the code: how often the model
    was deleted, and whether a step touched it after that. -/
structure ModelRef where
  ref : Int
  instances : List Phase
  deletes : Nat
  touched : Bool
  deriving Repr, DecidableEq

namespace ModelRef

/-- A registered model (`model.cpp:51-52`). -/
def registered : ModelRef := ⟨1, [.holding], 0, false⟩

inductive Action where
  /-- an instance that holds a reference uses the model -/
  | use (i : Nat)
  /-- `CVI_NN_CloneModel` (`runtime.cpp:172-184`) of instance `i` -/
  | clone (i : Nat)
  /-- `--ref` of `CviModel::release` (`model.cpp:527`) by `~ModelInstance` -/
  | decrement (i : Nat)
  /-- `if (ref == 0) delete this` (`model.cpp:528-530`) -/
  | test (i : Nat)
  deriving Repr, DecidableEq

/-- A step reads or writes the model. -/
def touch (s : ModelRef) : ModelRef := { s with touched := s.touched || decide (0 < s.deletes) }

def step (s : ModelRef) : Action → Option ModelRef
  | .use i => if s.instances[i]? = some .holding then some s.touch else none
  | .clone i =>
    if s.instances[i]? = some .holding then
      some { s.touch with ref := s.ref + 1, instances := s.instances ++ [.holding] }
    else none
  | .decrement i =>
    if s.instances[i]? = some .holding then
      some { s.touch with ref := s.ref - 1, instances := s.instances.set i .decremented }
    else none
  | .test i =>
    if s.instances[i]? = some .decremented then
      some { s.touch with
        instances := s.instances.set i .finished
        deletes := if s.ref = 0 then s.deletes + 1 else s.deletes }
    else none

def holding (s : ModelRef) : Nat := s.instances.countP (· = .holding)

/-- The number of instances between the two halves of `release`. -/
def between (s : ModelRef) : Nat := s.instances.countP (· = .decremented)

/-- Deleted at most once, after every release and touched by nothing since; deleted when every
    instance is gone. -/
def DeletedOnce (s : ModelRef) : Prop :=
  s.deletes ≤ 1 ∧ s.touched = false ∧ (0 < s.deletes → s.holding = 0) ∧
    (s.holding = 0 → s.between = 0 → s.deletes = 1)

/-- The decrement to zero is made while no other instance is between the two halves. -/
def LastAlone (s : ModelRef) : Action → Prop
  | .decrement _ => s.ref = 1 → s.between = 0
  | _ => True

/-- What a step does to the numbers of instances in each phase. -/
theorem step_cases {s s' : ModelRef} {action : Action} (stepped : s.step action = some s') :
    (0 < s.holding ∧ s'.ref = s.ref ∧ s'.holding = s.holding ∧ s'.between = s.between ∧
      s'.deletes = s.deletes ∧ s'.touched = s.touch.touched ∧ ∃ i, action = .use i) ∨
    (0 < s.holding ∧ s'.ref = s.ref + 1 ∧ s'.holding = s.holding + 1 ∧ s'.between = s.between ∧
      s'.deletes = s.deletes ∧ s'.touched = s.touch.touched ∧ ∃ i, action = .clone i) ∨
    (s'.ref = s.ref - 1 ∧ s'.holding + 1 = s.holding ∧ s'.between = s.between + 1 ∧
      s'.deletes = s.deletes ∧ s'.touched = s.touch.touched ∧ ∃ i, action = .decrement i) ∨
    (s'.ref = s.ref ∧ s'.holding = s.holding ∧ s'.between + 1 = s.between ∧
      s'.deletes = (if s.ref = 0 then s.deletes + 1 else s.deletes) ∧
      s'.touched = s.touch.touched ∧ ∃ i, action = .test i) := by
  cases action with
  | use i =>
    simp only [step, Option.ite_none_right_eq_some, Option.some.injEq] at stepped
    obtain ⟨found, rfl⟩ := stepped
    exact .inl ⟨Count.countP_pos_of_getElem? found rfl, rfl, rfl, rfl, rfl, rfl, i, rfl⟩
  | clone i =>
    simp only [step, Option.ite_none_right_eq_some, Option.some.injEq] at stepped
    obtain ⟨found, rfl⟩ := stepped
    refine .inr (.inl ⟨Count.countP_pos_of_getElem? found rfl, rfl, ?_, ?_, rfl, rfl, i, rfl⟩)
    · simp [holding]
    · simp [between]
  | decrement i =>
    simp only [step, Option.ite_none_right_eq_some, Option.some.injEq] at stepped
    obtain ⟨found, rfl⟩ := stepped
    refine .inr (.inr (.inl ⟨rfl, ?_, ?_, rfl, rfl, i, rfl⟩))
    · simpa [holding] using Count.countP_set (p := (· = .holding)) (y := .decremented) found
    · simpa [between] using Count.countP_set (p := (· = .decremented)) (y := .decremented) found
  | test i =>
    simp only [step, Option.ite_none_right_eq_some, Option.some.injEq] at stepped
    obtain ⟨found, rfl⟩ := stepped
    refine .inr (.inr (.inr ⟨rfl, ?_, ?_, rfl, rfl, i, rfl⟩))
    · simpa [holding] using Count.countP_set (p := (· = .holding)) (y := .finished) found
    · simpa [between] using Count.countP_set (p := (· = .decremented)) (y := .finished) found

/-- The states reached while every decrement to zero is made alone: the model is in use, one
    instance is about to delete it, or it is deleted and everyone is gone. -/
def Sound (s : ModelRef) : Prop :=
  s.ref = s.holding ∧ s.touched = false ∧
    ((0 < s.holding ∧ s.deletes = 0) ∨ (s.holding = 0 ∧ s.between = 1 ∧ s.deletes = 0) ∨
      (s.holding = 0 ∧ s.between = 0 ∧ s.deletes = 1))

/-- The states from which the model is touched after its deletion once everyone is gone. -/
def Doomed (s : ModelRef) : Prop :=
  s.ref = 0 ∧ s.holding = 0 ∧
    ((2 ≤ s.between ∧ s.deletes = 0) ∨ (1 ≤ s.between ∧ 1 ≤ s.deletes) ∨ s.touched = true)

theorem Sound.registered : registered.Sound := by
  refine ⟨rfl, rfl, .inl ⟨?_, rfl⟩⟩
  decide

theorem touched_of_alive {s : ModelRef} (none : s.deletes = 0) : s.touch.touched = s.touched := by
  simp [touch, none]

theorem touched_of_deleted {s : ModelRef} (some : 1 ≤ s.deletes) : s.touch.touched = true := by
  have positive : 0 < s.deletes := some
  simp [touch, positive]

theorem touched_mono {s : ModelRef} (already : s.touched = true) : s.touch.touched = true := by
  simp [touch, already]

theorem Sound.deletedOnce {s : ModelRef} (sound : s.Sound) : s.DeletedOnce := by
  obtain ⟨-, untouched, phase⟩ := sound
  refine ⟨?_, untouched, ?_, ?_⟩
  · omega
  · intro deleted
    omega
  · intro none gone
    omega

/-- A step that meets the condition keeps the state sound. -/
theorem Sound.step {s s' : ModelRef} {action : Action} (sound : s.Sound)
    (alone : s.LastAlone action) (stepped : s.step action = some s') : s'.Sound := by
  obtain ⟨counted, untouched, phase⟩ := sound
  rcases step_cases stepped with ⟨some, ref, hold, mid, deletes, touched, -⟩ |
    ⟨some, ref, hold, mid, deletes, touched, -⟩ | ⟨ref, hold, mid, deletes, touched, i, rfl⟩ |
    ⟨ref, hold, mid, deletes, touched, -⟩
  · have alive : s.deletes = 0 := by omega
    rw [touched_of_alive alive, untouched] at touched
    exact ⟨by omega, touched, .inl ⟨by omega, by omega⟩⟩
  · have alive : s.deletes = 0 := by omega
    rw [touched_of_alive alive, untouched] at touched
    exact ⟨by omega, touched, .inl ⟨by omega, by omega⟩⟩
  · have alive : s.deletes = 0 := by omega
    rw [touched_of_alive alive, untouched] at touched
    refine ⟨by omega, touched, ?_⟩
    by_cases last : s.ref = 1
    · have nobody := alone last
      exact .inr (.inl ⟨by omega, by omega, by omega⟩)
    · exact .inl ⟨by omega, by omega⟩
  · have alive : s.deletes = 0 := by omega
    rw [touched_of_alive alive, untouched] at touched
    refine ⟨by omega, touched, ?_⟩
    -- `ref == 0` holds exactly when no instance holds a reference
    by_cases last : s.ref = 0
    · rw [if_pos last] at deletes
      exact .inr (.inr ⟨by omega, by omega, by omega⟩)
    · rw [if_neg last] at deletes
      exact .inl ⟨by omega, by omega⟩

/-- A decrement to zero beside another release dooms the model. -/
theorem Sound.doomed {s s' : ModelRef} {action : Action} (sound : s.Sound)
    (crowd : ¬ s.LastAlone action) (stepped : s.step action = some s') : s'.Doomed := by
  obtain ⟨counted, -, phase⟩ := sound
  rcases step_cases stepped with ⟨-, -, -, -, -, -, i, rfl⟩ | ⟨-, -, -, -, -, -, i, rfl⟩ |
    ⟨ref, hold, mid, deletes, -, i, rfl⟩ | ⟨-, -, -, -, -, i, rfl⟩
  · exact absurd trivial crowd
  · exact absurd trivial crowd
  · simp only [LastAlone, Classical.not_imp] at crowd
    exact ⟨by omega, by omega, .inl ⟨by omega, by omega⟩⟩
  · exact absurd trivial crowd

theorem Doomed.step {s s' : ModelRef} {action : Action} (doomed : s.Doomed)
    (stepped : s.step action = some s') : s'.Doomed := by
  obtain ⟨zero, nobody, phase⟩ := doomed
  rcases step_cases stepped with ⟨some, -⟩ | ⟨some, -⟩ | ⟨-, hold, -⟩ |
    ⟨ref, hold, mid, deletes, touched, -⟩
  · omega
  · omega
  · omega
  · rw [if_pos zero] at deletes
    refine ⟨by omega, by omega, ?_⟩
    rcases phase with ⟨two, -⟩ | ⟨-, deleted⟩ | already
    · exact .inr (.inl ⟨by omega, by omega⟩)
    · exact .inr (.inr (touched.trans (touched_of_deleted deleted)))
    · exact .inr (.inr (touched.trans (touched_mono already)))

/-- A run is sound as long as its steps meet the condition, and doomed from the first that does
    not. -/
theorem run_sound_or_doomed :
    ∀ {actions : List Action} {s t : ModelRef}, s.Sound → run step s actions = some t →
      (Admits step LastAlone s actions ∧ t.Sound) ∨
        (¬ Admits step LastAlone s actions ∧ t.Doomed) := by
  intro actions
  induction actions with
  | nil =>
    intro s t sound done
    cases done
    exact .inl ⟨trivial, sound⟩
  | cons action actions ih =>
    intro s t sound done
    obtain ⟨s', first, rest⟩ := run_cons.mp done
    by_cases alone : s.LastAlone action
    · rcases ih (sound.step alone first) rest with ⟨admits, after⟩ | ⟨refuses, after⟩
      · refine .inl ⟨⟨alone, fun u stepped => ?_⟩, after⟩
        rw [first] at stepped
        cases stepped
        exact admits
      · exact .inr ⟨fun admits => refuses (admits.2 s' first), after⟩
    · have after := run_preserves (fun u other u' => Doomed.step) (sound.doomed alone first) rest
      exact .inr ⟨fun admits => alone admits.1, after⟩

/-- In a run whose decrements to zero are all made alone the model is deleted once and never
    touched afterwards; in a run after which every instance is gone, only then. -/
theorem run_deletedOnce {actions : List Action} {t : ModelRef}
    (done : run step registered actions = some t) :
    (Admits step LastAlone registered actions → t.DeletedOnce) ∧
      (t.holding = 0 → t.between = 0 →
        (t.DeletedOnce ↔ Admits step LastAlone registered actions)) := by
  rcases run_sound_or_doomed .registered done with ⟨admits, sound⟩ | ⟨refuses, -, -, doomed⟩
  · exact ⟨fun _ => sound.deletedOnce, fun _ _ => ⟨fun _ => admits, fun _ => sound.deletedOnce⟩⟩
  · refine ⟨fun admits => absurd admits refuses, fun _ gone => ⟨fun once => ?_, fun admits =>
      absurd admits refuses⟩⟩
    have touched : t.touched = true := by
      rcases doomed with ⟨two, -⟩ | ⟨some, -⟩ | touched
      · omega
      · omega
      · exact touched
    exact absurd touched (by simp [once.2.1])

theorem run_deletedOnce_two_instances :
    Admits step LastAlone registered
        [.clone 0, .decrement 0, .test 0, .use 1, .decrement 1, .test 1] ∧
      DeletedOnce ⟨0, [.finished, .finished], 1, false⟩ := by
  have done : run step registered [.clone 0, .decrement 0, .test 0, .use 1, .decrement 1, .test 1] =
      some ⟨0, [.finished, .finished], 1, false⟩ := by decide
  have once : DeletedOnce ⟨0, [.finished, .finished], 1, false⟩ := by
    unfold DeletedOnce
    decide
  exact ⟨((run_deletedOnce done).2 (by decide) (by decide)).mp once, once⟩

/-- Two clones released side by side: both read 0, and both delete the model. -/
theorem deleted_twice :
    run step registered [.clone 0, .decrement 0, .decrement 1, .test 0, .test 1] =
      some ⟨0, [.finished, .finished], 2, true⟩ ∧
    ¬ DeletedOnce ⟨0, [.finished, .finished], 2, true⟩ :=
  ⟨by decide, fun once => absurd once.1 (by decide)⟩

end ModelRef

end CviRuntime.Concurrency
