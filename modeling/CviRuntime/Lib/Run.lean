import Mathlib.Tactic.Push

/-!
# Runs of a state machine whose steps may stop the program

`run step s actions` performs the actions from left to right and is `none` as
soon as one step is. An invariant of the steps is an invariant of the runs.
-/

namespace CviRuntime.Run

variable {σ α : Type*}

/-- Perform the actions one after the other. -/
def run (step : σ → α → Option σ) : σ → List α → Option σ
  | s, [] => some s
  | s, action :: actions => (step s action).bind fun s' => run step s' actions

variable {step : σ → α → Option σ}

@[simp] theorem run_nil (s : σ) : run step s [] = some s := rfl

theorem run_cons {s t : σ} {action : α} {actions : List α} :
    run step s (action :: actions) = some t ↔
      ∃ s', step s action = some s' ∧ run step s' actions = some t := by
  simp [run, Option.bind_eq_some_iff]

theorem run_append {t : σ} :
    ∀ {before : List α} {s : σ} {after : List α},
      run step s (before ++ after) = some t ↔
        ∃ u, run step s before = some u ∧ run step u after = some t := by
  intro before
  induction before with
  | nil =>
    intro s after
    simp
  | cons action before ih =>
    intro s after
    rw [List.cons_append, run_cons]
    constructor
    · rintro ⟨s', first, rest⟩
      obtain ⟨u, reached, done⟩ := ih.mp rest
      exact ⟨u, run_cons.mpr ⟨s', first, reached⟩, done⟩
    · rintro ⟨u, reached, done⟩
      obtain ⟨s', first, rest⟩ := run_cons.mp reached
      exact ⟨s', first, ih.mpr ⟨u, rest, done⟩⟩

/-- A run over renamed actions. -/
theorem run_map {β : Type*} (f : β → α) :
    ∀ (actions : List β) (s : σ),
      run step s (actions.map f) = run (fun s action => step s (f action)) s actions := by
  intro actions
  induction actions with
  | nil =>
    intro s
    rfl
  | cons action actions ih =>
    intro s
    simp only [List.map_cons, run]
    congr 1
    funext s'
    exact ih s'

/-- Every step of the run meets the condition `ok` in the state it is taken from. -/
def Admits (step : σ → α → Option σ) (ok : σ → α → Prop) : σ → List α → Prop
  | _, [] => True
  | s, action :: actions =>
    ok s action ∧ ∀ s', step s action = some s' → Admits step ok s' actions

theorem Admits.of_forall {ok : σ → α → Prop} {good : α → Prop}
    (weaken : ∀ s action, good action → ok s action) :
    ∀ {actions : List α} {s : σ}, (∀ action ∈ actions, good action) →
      Admits step ok s actions := by
  intro actions
  induction actions with
  | nil =>
    intro s _
    trivial
  | cons action actions ih =>
    intro s all
    exact ⟨weaken s action (all action (by simp)),
      fun s' _ => ih (fun a member => all a (List.mem_cons_of_mem _ member))⟩

theorem Admits.and {ok ok' : σ → α → Prop} :
    ∀ {actions : List α} {s : σ}, Admits step ok s actions → Admits step ok' s actions →
      Admits step (fun s action => ok s action ∧ ok' s action) s actions := by
  intro actions
  induction actions with
  | nil =>
    intro s _ _
    trivial
  | cons action actions ih =>
    intro s left right
    exact ⟨⟨left.1, right.1⟩, fun s' first => ih (left.2 s' first) (right.2 s' first)⟩

/-- The steps of a beginning of the run meet the condition too. -/
theorem Admits.of_append {ok : σ → α → Prop} :
    ∀ {before after : List α} {s : σ}, Admits step ok s (before ++ after) →
      Admits step ok s before := by
  intro before
  induction before with
  | nil =>
    intro after s _
    trivial
  | cons action before ih =>
    intro after s all
    exact ⟨all.1, fun s' first => ih (all.2 s' first)⟩

/-- The steps after a beginning of the run meet the condition too. -/
theorem Admits.of_reached {ok : σ → α → Prop} :
    ∀ {before after : List α} {s u : σ}, Admits step ok s (before ++ after) →
      run step s before = some u → Admits step ok u after := by
  intro before
  induction before with
  | nil =>
    intro after s u all reached
    cases reached
    exact all
  | cons action before ih =>
    intro after s u all reached
    obtain ⟨s', first, rest⟩ := run_cons.mp reached
    exact ih (all.2 s' first) rest

/-- What every admissible step preserves, every run of admissible steps preserves. -/
theorem run_invariant {P : σ → Prop} {ok : σ → α → Prop}
    (preserve : ∀ s action s', P s → ok s action → step s action = some s' → P s') :
    ∀ {actions : List α} {s t : σ}, P s → Admits step ok s actions →
      run step s actions = some t → P t := by
  intro actions
  induction actions with
  | nil =>
    intro s t init _ done
    cases done
    exact init
  | cons action actions ih =>
    intro s t init admissible done
    obtain ⟨s', first, rest⟩ := run_cons.mp done
    exact ih (preserve s action s' init admissible.1 first) (admissible.2 s' first) rest

/-- If the good steps keep an invariant that implies `Q`, and every other step breaks `Q`, then
    `Q` holds in all states of a run exactly when all its steps are good. -/
theorem forall_reached_iff {P Q : σ → Prop} {ok : σ → α → Prop} (holds : ∀ s, P s → Q s)
    (preserve : ∀ s action s', P s → ok s action → step s action = some s' → P s')
    (breaks : ∀ s action s', P s → ¬ ok s action → step s action = some s' → ¬ Q s') :
    ∀ {actions : List α} {s t : σ}, P s → run step s actions = some t →
      ((∀ before after u, before ++ after = actions → run step s before = some u → Q u) ↔
        Admits step ok s actions) := by
  intro actions
  induction actions with
  | nil =>
    intro s t init _
    refine ⟨fun _ => trivial, fun _ before after u whole reached => ?_⟩
    rw [(List.append_eq_nil_iff.mp whole).1] at reached
    cases reached
    exact holds s init
  | cons action actions ih =>
    intro s t init done
    obtain ⟨s', first, rest⟩ := run_cons.mp done
    constructor
    · intro all
      have good : ok s action := by
        refine Classical.byContradiction fun bad => ?_
        exact breaks s action s' init bad first
          (all [action] actions s' rfl (run_cons.mpr ⟨s', first, rfl⟩))
      refine ⟨good, fun s'' again => ?_⟩
      cases first.symm.trans again
      refine (ih (preserve s action s' init good first) rest).mp ?_
      intro before after u whole reached
      exact all (action :: before) after u (congrArg (action :: ·) whole)
        (run_cons.mpr ⟨s', first, reached⟩)
    · rintro ⟨good, later⟩ before after u whole reached
      cases before with
      | nil =>
        cases reached
        exact holds s init
      | cons other before =>
        rw [List.cons_append, List.cons.injEq] at whole
        obtain ⟨rfl, whole⟩ := whole
        obtain ⟨s'', again, reached⟩ := run_cons.mp reached
        cases first.symm.trans again
        exact (ih (preserve s other s' init good first) rest).mpr (later s' first)
          before after u whole reached

/-- If a step does what it should exactly when the state and the action meet `ok`, then all steps
    of a run do exactly when all meet `ok`. -/
theorem forall_steps_iff {P : σ → Prop} {R ok : σ → α → Prop}
    (exact : ∀ s action, P s → (R s action ↔ ok s action))
    (preserve : ∀ s action s', P s → ok s action → step s action = some s' → P s') :
    ∀ {actions : List α} {s : σ}, P s →
      ((∀ before action after u, before ++ action :: after = actions →
        run step s before = some u → R u action) ↔ Admits step ok s actions) := by
  intro actions
  induction actions with
  | nil =>
    intro s _
    refine ⟨fun _ => trivial, fun _ before action after u whole _ => ?_⟩
    exact absurd whole (List.append_ne_nil_of_right_ne_nil before (List.cons_ne_nil action after))
  | cons first rest ih =>
    intro s init
    constructor
    · intro all
      have good : ok s first := (exact s first init).mp (all [] first rest s rfl rfl)
      refine ⟨good, fun s' stepped => (ih (preserve s first s' init good stepped)).mp ?_⟩
      intro before action after u whole reached
      exact all (first :: before) action after u (congrArg (first :: ·) whole)
        (run_cons.mpr ⟨s', stepped, reached⟩)
    · rintro ⟨good, later⟩ before action after u whole reached
      cases before with
      | nil =>
        cases reached
        rw [List.nil_append, List.cons.injEq] at whole
        rw [whole.1]
        exact (exact s first init).mpr good
      | cons other before =>
        rw [List.cons_append, List.cons.injEq] at whole
        obtain ⟨rfl, whole⟩ := whole
        obtain ⟨s', stepped, reached⟩ := run_cons.mp reached
        exact (ih (preserve s other s' init good stepped)).mpr (later s' stepped)
          before action after u whole reached

/-- What every step preserves, every run preserves. -/
theorem run_preserves {P : σ → Prop}
    (preserve : ∀ s action s', P s → step s action = some s' → P s') {actions : List α} {s t : σ}
    (init : P s) (done : run step s actions = some t) : P t := by
  have always : ∀ {actions : List α} {s : σ}, Admits step (fun _ _ => True) s actions := by
    intro actions
    induction actions with
    | nil =>
      intro s
      trivial
    | cons action actions ih =>
      intro s
      exact ⟨trivial, fun _ _ => ih⟩
  exact run_invariant (fun s action s' inv _ => preserve s action s' inv) init always done

/-- What each action establishes and no later action undoes, holds of every action at the end. -/
theorem run_establishes {Q : α → σ → Prop}
    (establish : ∀ s action s', step s action = some s' → Q action s')
    (keep : ∀ s action s' other, Q other s → step s action = some s' → Q other s') :
    ∀ {actions : List α} {s t : σ}, run step s actions = some t →
      ∀ action ∈ actions, Q action t := by
  intro actions
  induction actions with
  | nil =>
    intro s t _ action member
    cases member
  | cons first rest ih =>
    intro s t done action member
    obtain ⟨s', stepped, later⟩ := run_cons.mp done
    rcases List.mem_cons.mp member with rfl | member
    · exact run_preserves (fun u other u' => keep u other u' action)
        (establish s action s' stepped) later
    · exact ih later action member

/-- What the steps of a run put out, in order; `out` is given the state a step is taken from. -/
def collect {β : Type*} (step : σ → α → Option σ) (out : σ → α → Option β) :
    σ → List α → List β
  | _, [] => []
  | s, action :: actions =>
    (out s action).toList ++ (step s action).elim [] fun s' => collect step out s' actions

/-- A log to which every step appends what it puts out has the outputs of the run appended. -/
theorem run_collect {β : Type*} {out : σ → α → Option β} {log : σ → List β}
    (append : ∀ s action s', step s action = some s' → log s' = log s ++ (out s action).toList) :
    ∀ {actions : List α} {s t : σ}, run step s actions = some t →
      log t = log s ++ collect step out s actions := by
  intro actions
  induction actions with
  | nil =>
    intro s t done
    cases done
    exact (List.append_nil _).symm
  | cons action actions ih =>
    intro s t done
    obtain ⟨s', first, rest⟩ := run_cons.mp done
    rw [ih rest, append s action s' first, collect, first, Option.elim_some, List.append_assoc]

/-- If every good step lowers a measure, a run of good steps is no longer than the measure. -/
theorem run_length_le {P : σ → Prop} {good : α → Prop} {measure : σ → Nat}
    (preserve : ∀ s action s', P s → good action → step s action = some s' → P s')
    (lower : ∀ s action s', P s → good action → step s action = some s' → measure s' < measure s) :
    ∀ {actions : List α} {s t : σ}, P s → (∀ action ∈ actions, good action) →
      run step s actions = some t → actions.length + measure t ≤ measure s := by
  intro actions
  induction actions with
  | nil =>
    intro s t _ _ done
    cases done
    simp
  | cons action actions ih =>
    intro s t init all done
    obtain ⟨s', first, rest⟩ := run_cons.mp done
    have good := all action (by simp)
    have tail := ih (preserve s action s' init good first)
      (fun a member => all a (List.mem_cons_of_mem _ member)) rest
    have head := lower s action s' init good first
    simp only [List.length_cons]
    omega

/-- If every good step lowers a measure, good steps lead to a state where none is possible. -/
theorem exists_run_stuck {P : σ → Prop} {good : α → Prop} {measure : σ → Nat}
    (preserve : ∀ s action s', P s → good action → step s action = some s' → P s')
    (lower : ∀ s action s', P s → good action → step s action = some s' → measure s' < measure s)
    {s : σ} (init : P s) :
    ∃ actions t, (∀ action ∈ actions, good action) ∧ run step s actions = some t ∧ P t ∧
      ∀ action, good action → step t action = none := by
  induction bound : measure s using Nat.strongRecOn generalizing s with
  | _ n ih =>
    by_cases stuck : ∀ action, good action → step s action = none
    · exact ⟨[], s, by simp, rfl, init, stuck⟩
    · push Not at stuck
      obtain ⟨action, good, possible⟩ := stuck
      obtain ⟨s', first⟩ := Option.ne_none_iff_exists'.mp possible
      have smaller := lower s action s' init good first
      obtain ⟨actions, t, all, done, final, stuck⟩ :=
        ih _ (bound ▸ smaller) (preserve s action s' init good first) rfl
      refine ⟨action :: actions, t, ?_, run_cons.mpr ⟨s', first, done⟩, final, stuck⟩
      intro a member
      rcases List.mem_cons.mp member with rfl | member
      · exact good
      · exact all a member

end CviRuntime.Run
