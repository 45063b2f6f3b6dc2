import CviRuntime.Concurrency.RingQueue

/-!
# Wake-ups of the queue's threads

`put` notifies a consumer each time, so a sleeping consumer always has a notified one for each
task. `get` notifies a producer only when the queue was full: after two `get` calls on a full
queue two places are free and one producer was notified.
-/

namespace CviRuntime.Concurrency.System

open CondVar Run

variable {α : Type*} {sys sys' : System α} {waiting : List α} {i wake : Nat}

/-- No thread sleeps, with no notified thread on its condition, while it could go on. -/
def NoLostWakeup (sys : System α) : Prop :=
  (1 < sys.ring.room → 0 < sleepers sys.producers → 0 < pending sys.producers) ∧
    (0 < sys.ring.length → 0 < sleepers sys.consumers → 0 < pending sys.consumers)

/-- While a consumer sleeps, each task in the queue has a notified consumer. -/
def ConsumersCovered (sys : System α) : Prop :=
  0 < sleepers sys.consumers → sys.ring.length ≤ pending sys.consumers

/-- While a producer sleeps, the queue is full, or it has one place and a notified producer. -/
def ProducersCovered (sys : System α) : Prop :=
  0 < sleepers sys.producers →
    sys.ring.room ≤ 1 ∨ (sys.ring.capacity ≤ 2 ∧ 0 < pending sys.producers)

section waiters

variable {β : Type*} {threads : List (Waiter β)} {before : Waiter β} {arg : β}

/-- Counts when a thread that is not asleep goes on and does not wait. -/
theorem sleepers_set_idle (found : threads[i]? = some before)
    (awake : before = .idle ∨ before = .woken arg) :
    sleepers (threads.set i .idle) = sleepers threads ∧
      pending (threads.set i .idle) ≤ pending threads ∧
      pending threads ≤ pending (threads.set i .idle) + 1 := by
  have asleep := sleepers_set .idle found
  have woken := pending_set .idle found
  rcases awake with rfl | rfl
  · simp at asleep woken
    omega
  · simp at asleep woken
    omega

/-- Counts when a sleeping thread wakes up. -/
theorem sleepers_set_woken (found : threads[i]? = some (.asleep arg)) :
    sleepers (threads.set i (.woken arg)) ≤ sleepers threads ∧
      pending (threads.set i (.woken arg)) = pending threads + 1 := by
  have asleep := sleepers_set (.woken arg) found
  have woken := pending_set (.woken arg) found
  simp at asleep woken
  omega

end waiters

theorem ConsumersCovered.put {task : α} {ok : Bool} (fifo : sys.Fifo waiting)
    (covered : sys.ConsumersCovered) (ran : sys.put i task wake = some (ok, sys')) :
    sys'.ConsumersCovered := by
  rcases put_cases ran with ⟨-, -, rfl⟩ | ⟨-, free, threads, notified, rfl⟩
  · exact covered
  · intro asleep
    have longer := fifo.ring.store_length free task
    rcases notifyOne_counts notified with ⟨fewer, more⟩ | ⟨none, rfl⟩
    · have before := covered (by omega)
      simp only [longer, more]
      omega
    · simp only [none, Nat.lt_irrefl] at asleep

theorem ConsumersCovered.get {got : Option α} {before : Waiter Unit} (fifo : sys.Fifo waiting)
    (found : sys.consumers[i]? = some before) (awake : before = .idle ∨ before = .woken ())
    (covered : sys.ConsumersCovered) (ran : sys.get i wake = some (got, sys')) :
    sys'.ConsumersCovered := by
  rcases get_cases ran with ⟨-, empty, rfl⟩ | ⟨task, ring, threads, -, some, taken, -, rfl⟩
  · intro _
    simp only [empty]
    exact Nat.zero_le _
  · obtain ⟨_, _, -, took, shorter, -⟩ := fifo.ring.take some
    rw [taken] at took
    cases took
    intro asleep
    obtain ⟨same, -, most⟩ := sleepers_set_idle found awake
    have before := covered (same ▸ asleep)
    simp only
    omega

theorem ConsumersCovered.spurious {arg : Unit} (found : sys.consumers[i]? = some (.asleep arg))
    (covered : sys.ConsumersCovered) :
    ConsumersCovered { sys with consumers := sys.consumers.set i (.woken arg) } := by
  intro _
  obtain ⟨-, more⟩ := sleepers_set_woken found
  have before := covered (sleepers_pos_of_getElem? found)
  simp only [more]
  omega

theorem ConsumersCovered.step {action : Action α} (fifo : sys.Fifo waiting)
    (covered : sys.ConsumersCovered) (stepped : sys.step action = some sys') :
    sys'.ConsumersCovered := by
  rcases step_cases stepped with ⟨_, _, _, _, _, -, -, ran⟩ | ⟨_, _, _, _, found, awake, ran⟩ |
    ⟨-, _, _, -, rfl⟩ | ⟨-, _, found, rfl⟩
  · exact covered.put fifo ran
  · exact covered.get fifo found awake ran
  · exact covered
  · exact covered.spurious found

/-- A producer that goes on finds the others asleep only if the one place is now taken. -/
theorem ProducersCovered.put {task : α} {ok : Bool} {before : Waiter α} (fifo : sys.Fifo waiting)
    (found : sys.producers[i]? = some before) (awake : before = .idle ∨ before = .woken task)
    (covered : sys.ProducersCovered) (ran : sys.put i task wake = some (ok, sys')) :
    sys'.ProducersCovered := by
  rcases put_cases ran with ⟨-, full, rfl⟩ | ⟨-, free, threads, -, rfl⟩
  · exact fun _ => .inl full
  · intro asleep
    obtain ⟨same, -, -⟩ := sleepers_set_idle found awake
    have after := fifo.ring.room_store free task
    have most : sys.ring.room ≤ sys.ring.capacity := by
      rw [fifo.ring.room_eq]
      exact Nat.sub_le _ _
    rcases covered (same ▸ asleep) with full | ⟨small, -⟩
    · exact absurd free (Nat.not_lt_of_le full)
    · left
      simp only
      omega

/-- The notification of `get` is enough with one place, and with one producer. -/
theorem ProducersCovered.get {got : Option α} (fifo : sys.Fifo waiting)
    (few : sys.ring.capacity ≤ 2 ∨ sys.producers.length ≤ 1)
    (covered : sys.ProducersCovered) (ran : sys.get i wake = some (got, sys')) :
    sys'.ProducersCovered := by
  rcases get_cases ran with ⟨-, -, rfl⟩ | ⟨task, ring, threads, -, some, taken, notified, rfl⟩
  · exact covered
  · have room := fifo.ring.room_pos some
    intro asleep
    simp only [take_capacity taken] at asleep ⊢
    rcases notified with ⟨full, notified⟩ | ⟨free, rfl⟩
    · rcases notifyOne_counts notified with ⟨fewer, more⟩ | ⟨none, rfl⟩
      · rcases few with small | single
        · exact .inr ⟨small, by omega⟩
        · have most := sleepers_le_length sys.producers
          omega
      · omega
    · rcases covered asleep with full | pending
      · omega
      · exact .inr pending

theorem ProducersCovered.step {action : Action α} (fifo : sys.Fifo waiting)
    (few : sys.ring.capacity ≤ 2 ∨ sys.producers.length ≤ 1 ∨ sys.consumers.length = 0)
    (covered : sys.ProducersCovered) (stepped : sys.step action = some sys') :
    sys'.ProducersCovered := by
  rcases step_cases stepped with ⟨_, _, _, _, _, found, awake, ran⟩ | ⟨_, _, _, _, found, -, ran⟩ |
    ⟨-, _, _, found, rfl⟩ | ⟨-, _, -, rfl⟩
  · exact covered.put fifo found awake ran
  · rcases few with small | single | none
    · exact covered.get fifo (.inl small) ran
    · exact covered.get fifo (.inr single) ran
    · rw [List.length_eq_zero_iff.mp none] at found
      simp at found
  · intro _
    obtain ⟨-, more⟩ := sleepers_set_woken found
    rcases covered (sleepers_pos_of_getElem? found) with full | ⟨small, -⟩
    · exact .inl full
    · exact .inr ⟨small, by simp only [more]; omega⟩
  · exact covered

theorem NoLostWakeup.of_covered (producers : sys.ProducersCovered)
    (consumers : sys.ConsumersCovered) : sys.NoLostWakeup := by
  refine ⟨fun free asleep => ?_, fun some asleep => Nat.lt_of_lt_of_le some (consumers asleep)⟩
  rcases producers asleep with full | ⟨-, pending⟩
  · exact absurd free (Nat.not_lt_of_le full)
  · exact pending

theorem run_noLostWakeup (null : α) {capacity producers consumers : Nat} (fits : capacity < 2 ^ 32)
    (few : capacity ≤ 2 ∨ producers ≤ 1 ∨ consumers = 0) {actions : List (Action α)}
    {t : System α}
    (done : run step (System.new null capacity producers consumers) actions = some t) :
    t.NoLostWakeup := by
  have preserved := run_preserves
    (P := fun sys => Sized capacity producers consumers sys ∧ (∃ waiting, sys.Fifo waiting) ∧
      sys.ProducersCovered ∧ sys.ConsumersCovered)
    (by
      rintro s action s' ⟨sized, ⟨waiting, fifo⟩, byProducers, byConsumers⟩ stepped
      have few : s.ring.capacity ≤ 2 ∨ s.producers.length ≤ 1 ∨ s.consumers.length = 0 := by
        rw [sized.capacity, sized.producers, sized.consumers]
        exact few
      exact ⟨sized.step stepped, fifo.step stepped, byProducers.step fifo few stepped,
        byConsumers.step fifo stepped⟩)
    ⟨.new null, ⟨[], .new null fits producers consumers⟩,
      fun asleep => absurd asleep (by simp [System.new, sleepers_replicate]),
      fun asleep => absurd asleep (by simp [System.new, sleepers_replicate])⟩ done
  exact .of_covered preserved.2.2.1 preserved.2.2.2

/-! ## Two producers asleep -/

/-- One producer alone can fill the queue. -/
theorem run_fill (null : α) {capacity : Nat} (fits : capacity < 2 ^ 32) (producers consumers : Nat) :
    ∀ n, n < capacity → ∃ t waiting,
      run step (System.new null capacity (producers + 1) consumers)
        (List.replicate n (.put 0 null 0)) = some t ∧
      t.Fifo waiting ∧ t.ring.length = n ∧ t.ring.capacity = capacity ∧
      t.producers = List.replicate (producers + 1) .idle ∧
      t.consumers = List.replicate consumers .idle := by
  intro n
  induction n with
  | zero =>
    intro _
    exact ⟨_, [], rfl, .new null fits _ _, rfl, rfl, rfl, rfl⟩
  | succ n ih =>
    intro bound
    obtain ⟨t, waiting, done, fifo, length, size, idle, resting⟩ := ih (by omega)
    have free : 1 < t.ring.room := by
      rw [fifo.ring.room_eq, size, length]
      omega
    have notified : notifyOne t.consumers 0 = some t.consumers := by
      rw [resting]
      cases consumers <;> simp [notifyOne, List.replicate_succ, sleepers, List.countP_replicate]
    have ran := put_eq 0 null free notified
    refine ⟨_, waiting ++ [null], ?_, fifo.put ran, ?_, size, ?_, resting⟩
    · rw [List.replicate_succ']
      refine run_append.mpr ⟨t, done, run_cons.mpr ⟨_, ?_, rfl⟩⟩
      have first : t.producers[0]? = some .idle := by simp [idle]
      simp only [step, first, ran, Option.map_some]
    · exact (fifo.ring.store_length free null).trans (by rw [length])
    · simp [idle, List.replicate_succ]

theorem step_put_full (i wake : Nat) (task : α) (fifo : sys.Fifo waiting)
    (found : sys.producers[i]? = some .idle) (full : sys.ring.room ≤ 1) :
    ∃ sys', sys.step (.put i task wake) = some sys' ∧ sys'.Fifo waiting ∧
      sys'.ring = sys.ring ∧ sys'.producers = sys.producers.set i (.asleep task) ∧
      sys'.consumers = sys.consumers := by
  refine ⟨{ sys with producers := sys.producers.set i (.asleep task) }, ?_,
    ⟨fifo.ring, fifo.stored⟩, rfl, rfl, rfl⟩
  simp only [step, found, put_full i task full, Option.map_some]

theorem step_get_some (i wake : Nat) {producers : List (Waiter α)} (fifo : sys.Fifo waiting)
    (found : sys.consumers[i]? = some .idle) (some : sys.ring.length ≠ 0)
    (notified : (if sys.ring.room = 1 then notifyOne sys.producers wake
      else .some sys.producers) = .some producers) :
    ∃ sys', sys.step (.get i wake) = .some sys' ∧ sys'.Fifo waiting.tail ∧
      sys'.ring.length + 1 = sys.ring.length ∧ sys'.ring.room = sys.ring.room + 1 ∧
      sys'.producers = producers ∧ sys'.consumers = sys.consumers.set i .idle := by
  obtain ⟨task, rest, rfl, ran⟩ := fifo.get_eq i wake some notified
  obtain ⟨-, after, -⟩ := fifo.get ran
  obtain ⟨_, _, -, -, shorter, -⟩ := fifo.ring.take some
  refine ⟨_, ?_, after, shorter, fifo.ring.room_dropHead some, rfl, rfl⟩
  simp only [step, found, ran, Option.map_some]

theorem step_resumePut_free {task : α} (fifo : sys.Fifo waiting)
    (found : sys.producers[i]? = some (.woken task)) (free : 1 < sys.ring.room)
    (none : sleepers sys.consumers = 0) :
    ∃ sys', sys.step (.resumePut i sys.consumers.length) = some sys' ∧
      sys'.ring.room + 1 = sys.ring.room ∧ sys'.producers = sys.producers.set i .idle := by
  have notified : notifyOne sys.consumers sys.consumers.length = some sys.consumers := by
    simp [notifyOne, none]
  refine ⟨{ sys with
    ring := sys.ring.store task
    producers := sys.producers.set i .idle
    stored := sys.stored ++ [task] }, ?_, fifo.ring.room_store free task, rfl⟩
  simp only [step, found, put_eq i task free notified, Option.map_some]

/-- Two `get` calls on a full queue wake one of two sleeping producers; once it has stored its
    task the other sleeps on beside a free place. -/
theorem lostWakeup_of_full {s : System α} (task : α) (fifo : s.Fifo waiting)
    (full : s.ring.room = 1) (two : 2 ≤ s.ring.length) {producers : List (Waiter α)}
    (idle : s.producers = .idle :: .idle :: producers) (woken : pending producers = 0)
    {consumers : List (Waiter Unit)} (resting : s.consumers = .idle :: consumers)
    (none : sleepers consumers = 0) :
    ∃ t, run step s [.put 0 task 0, .put 1 task 0, .get 0 0, .get 0 0,
      .resumePut 0 s.consumers.length] = some t ∧ ¬ t.NoLostWakeup := by
  -- both producers call `put` and fall asleep
  obtain ⟨s₁, first, fifo₁, ring₁, producers₁, consumers₁⟩ :=
    step_put_full 0 0 task fifo (by simp [idle]) (Nat.le_of_eq full)
  obtain ⟨s₂, second, fifo₂, ring₂, producers₂, consumers₂⟩ :=
    step_put_full 1 0 task fifo₁ (by simp [producers₁, idle])
      (Nat.le_of_eq (ring₁ ▸ full))
  rw [consumers₁] at consumers₂
  rw [ring₁] at ring₂
  -- the first `get` notifies producer 0, the second one nobody
  obtain ⟨s₃, third, fifo₃, length₃, room₃, producers₃, consumers₃⟩ :=
    step_get_some 0 0 fifo₂ (by simp [consumers₂, resting])
      (by rw [ring₂]; omega)
      (by rw [ring₂, if_pos full, producers₂, producers₁, idle]; rfl)
  rw [ring₂] at length₃ room₃
  obtain ⟨s₄, fourth, fifo₄, length₄, room₄, producers₄, consumers₄⟩ :=
    step_get_some 0 0 fifo₃ (by simp [consumers₃, consumers₂, resting])
      (by omega) (by rw [if_neg (by omega)])
  have same : s₄.consumers = s.consumers := by
    simp [consumers₄, consumers₃, consumers₂, resting]
  obtain ⟨t, fifth, room₅, producers₅⟩ :=
    step_resumePut_free (i := 0) fifo₄ (by simp [producers₄, producers₃]; rfl) (by omega)
      (by simpa [same, resting, sleepers, List.countP_cons] using none)
  rw [same] at fifth
  refine ⟨t, ?_, fun covered => ?_⟩
  · exact run_cons.mpr ⟨s₁, first, run_cons.mpr ⟨s₂, second, run_cons.mpr ⟨s₃, third,
      run_cons.mpr ⟨s₄, fourth, run_cons.mpr ⟨t, fifth, rfl⟩⟩⟩⟩⟩
  · have left := covered.1 (by omega)
    rw [producers₅, producers₄, producers₃] at left
    simp [sleepers, pending, List.countP_cons] at left woken
    obtain ⟨thread, member, pending⟩ := left
    exact absurd pending (by simp [woken thread member])

/-- The queue never loses a wake-up exactly when it has at most one usable cell, when a single
    producer uses it, or when nobody takes from it. -/
theorem noLostWakeup_iff (null : α) {capacity producers consumers : Nat}
    (fits : capacity < 2 ^ 32) :
    (∀ actions t, (∀ action ∈ actions, action.notified = true) →
      run step (System.new null capacity producers consumers) actions = some t →
      t.NoLostWakeup) ↔ capacity ≤ 2 ∨ producers ≤ 1 ∨ consumers = 0 := by
  constructor
  · intro never
    by_contra many
    obtain ⟨large, several, taken⟩ : 3 ≤ capacity ∧ 2 ≤ producers ∧ 1 ≤ consumers := by omega
    obtain ⟨p, rfl⟩ := Nat.exists_eq_add_of_le' several
    obtain ⟨c, rfl⟩ := Nat.exists_eq_add_of_le' taken
    obtain ⟨s, waiting, filled, fifo, length, size, idle, resting⟩ :=
      run_fill null fits (p + 1) (c + 1) (capacity - 1) (by omega)
    have full : s.ring.room = 1 := by
      rw [fifo.ring.room_eq, size, length]
      omega
    obtain ⟨t, lost, missed⟩ := lostWakeup_of_full null fifo full (by omega)
      (by rw [idle]; rfl) (pending_replicate p) (by rw [resting]; rfl) (sleepers_replicate c)
    refine missed (never _ t ?_ (run_append.mpr ⟨s, filled, lost⟩))
    intro action member
    rcases List.mem_append.mp member with member | member
    · rw [List.eq_of_mem_replicate member]
      rfl
    · simp only [List.mem_cons, List.not_mem_nil, or_false] at member
      rcases member with rfl | rfl | rfl | rfl | rfl <;> rfl
  · intro few actions t _ done
    exact run_noLostWakeup null fits few done

theorem noLostWakeup_iff_pool_of_one :
    (∀ actions t, (∀ action ∈ actions, action.notified = true) →
      run step (System.new (none : Option Nat) 4 1 1) actions = some t → t.NoLostWakeup) ↔
      4 ≤ 2 ∨ 1 ≤ 1 ∨ 1 = 0 :=
  noLostWakeup_iff none (by decide)

/-- Capacity 3: producer 1 sleeps beside a free place and no producer is notified. -/
theorem lostWakeup_three_cells :
    ∃ actions t, (∀ action ∈ actions, action.notified = true) ∧
      run step (System.new 0 3 2 1) actions = some t ∧ t.producers[1]? = some (.asleep 4) ∧
      1 < t.ring.room ∧ pending t.producers = 0 ∧ ¬ t.NoLostWakeup := by
  refine ⟨[.put 0 1 0, .put 0 2 0, .put 0 3 0, .put 1 4 0, .get 0 0, .get 0 0, .resumePut 0 0],
    ⟨⟨3, 2, 0, 1, [1, 2, 3]⟩, [.idle, .asleep 4], [.idle], [1, 2, 3], [1, 2]⟩,
    by decide, by decide +kernel, rfl, by decide +kernel, rfl, ?_⟩
  intro covered
  exact absurd (covered.1 (by decide +kernel) (by decide)) (by decide)

end CviRuntime.Concurrency.System
