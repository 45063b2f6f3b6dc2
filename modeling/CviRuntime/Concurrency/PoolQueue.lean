import CviRuntime.Concurrency.WorkerPool

/-!
# The queue inside the task pool

Whatever the threads of the pool do, its queue stays a queue: the tasks in it are in order, a
sleeping worker has a notified one for each task, and only workers in `get` wait on
`_cond_busy`.
-/

namespace CviRuntime.Concurrency.Pool

open CondVar

/-- The queue of the pool, and which threads may be waiting on it. -/
structure Queued (s : Pool) : Prop where
  fifo : ∃ waiting, s.sys.Fifo waiting
  covered : s.sys.ConsumersCovered
  sized : s.sys.Sized (s.size * 4) (s.clients.length + 1) s.workers.length
  parked : ∀ (w : Nat) (thread : Waiter Unit), s.sys.consumers[w]? = some thread →
    thread ≠ .idle → s.workers[w]? = some .getting
  marker : s.sys.producers[0]? = some .idle ∨ ∃ left, s.destructor = .putting (left + 1)

theorem Queued.new {size : Nat} (fits : size * 4 < 2 ^ 32) (clients : Nat) :
    (Pool.new size clients).Queued where
  fifo := ⟨[], .new none fits _ _⟩
  covered := fun asleep => absurd asleep (by simp [Pool.new, System.new, sleepers])
  sized := by
    refine ⟨rfl, ?_, ?_⟩
    · simp [Pool.new, System.new]
    · simp [Pool.new, System.new]
  parked := by
    intro w thread found
    simp [Pool.new, System.new] at found
  marker := .inl (by simp [Pool.new, System.new])

section queued

variable {s s' : Pool}

/-- A worker that is not in `get` moves on. -/
theorem Queued.parked_move {w : Nat} {before after : Worker} (queued : s.Queued)
    (found : s.workers[w]? = some before) (outside : before ≠ .getting) :
    ∀ (v : Nat) (thread : Waiter Unit), s.sys.consumers[v]? = some thread →
      thread ≠ .idle → (s.workers.set w after)[v]? = some .getting := by
  intro v thread slot busy
  have parked := queued.parked v thread slot busy
  have different : w ≠ v := by
    rintro rfl
    rw [found] at parked
    cases parked
    exact outside rfl
  rwa [List.getElem?_set_ne different]

/-- A section of `put` by any producer. -/
theorem Queued.put {i wake : Nat} {task : Option Nat} {stored : Bool} {sys : System (Option Nat)}
    (queued : s.Queued) (ran : s.sys.put i task wake = some (stored, sys)) :
    (∃ waiting, sys.Fifo waiting) ∧ sys.ConsumersCovered ∧
      sys.Sized (s.size * 4) (s.clients.length + 1) s.workers.length ∧
      ∀ (w : Nat) (thread : Waiter Unit), sys.consumers[w]? = some thread →
        thread ≠ .idle → s.workers[w]? = some .getting := by
  obtain ⟨waiting, fifo⟩ := queued.fifo
  refine ⟨⟨_, fifo.put ran⟩, queued.covered.put fifo ran, queued.sized.put ran, ?_⟩
  intro w thread slot busy
  rcases System.put_cases ran with ⟨-, -, rfl⟩ | ⟨-, -, consumers, notified, rfl⟩
  · exact queued.parked w thread slot busy
  · rcases notifyOne_getElem? notified w with same | ⟨arg, before, -⟩
    · exact queued.parked w thread (same ▸ slot) busy
    · exact queued.parked w _ before (by simp)

theorem Queued.get {w wake : Nat} {thread : Waiter Unit} {got : Option (Option Nat)}
    {sys : System (Option Nat)} (queued : s.Queued) (found : s.workers[w]? = some .getting)
    (slot : s.sys.consumers[w]? = some thread) (awake : thread.isAsleep = false)
    (ran : s.sys.get w wake = some (got, sys)) :
    Queued { s with sys := sys, workers := s.workers.set w (afterGet got) } := by
  obtain ⟨waiting, fifo⟩ := queued.fifo
  have ready : thread = .idle ∨ thread = .woken () := by
    rcases Waiter.isAsleep_eq_false_iff.mp awake with idle | ⟨⟨⟩, woken⟩
    · exact .inl idle
    · exact .inr woken
  refine ⟨⟨_, (fifo.get ran).2.1⟩, queued.covered.get fifo slot ready ran, ?_, ?_, ?_⟩
  · simpa using queued.sized.get ran
  · -- worker `w` waits exactly when it stays in `get`
    intro v other found' busy
    simp only at found' ⊢
    rcases System.get_cases ran with ⟨rfl, -, rfl⟩ | ⟨task, ring, producers, rfl, -, -, -, rfl⟩
    · by_cases same : w = v
      · subst same
        rw [afterGet, List.getElem?_set_self (List.getElem?_eq_some_iff.mp found).1]
      · rw [List.getElem?_set_ne same] at found' ⊢
        exact queued.parked v other found' busy
    · by_cases same : w = v
      · subst same
        rw [List.getElem?_set_self (List.getElem?_eq_some_iff.mp slot).1] at found'
        cases found'
        exact absurd rfl busy
      · rw [List.getElem?_set_ne same] at found' ⊢
        exact queued.parked v other found' busy
  · rcases queued.marker with idle | putting
    · left
      rcases System.get_cases ran with ⟨-, -, rfl⟩ | ⟨_, _, producers, -, -, -, notified, rfl⟩
      · exact idle
      · rcases notified with ⟨-, notified⟩ | ⟨-, rfl⟩
        · rcases notifyOne_getElem? notified 0 with same | ⟨arg, before, -⟩
          · exact same.trans idle
          · rw [idle] at before
            cases before
        · exact idle
    · exact .inr putting

/-- A section of `put` changes the place of its producer only. -/
theorem put_producers_ne {sys sys' : System (Option Nat)} {i j wake : Nat} {task : Option Nat}
    {stored : Bool} (ran : sys.put i task wake = some (stored, sys')) (different : i ≠ j) :
    sys'.producers[j]? = sys.producers[j]? := by
  rcases System.put_cases ran with ⟨-, -, rfl⟩ | ⟨-, -, _, -, rfl⟩ <;>
    exact List.getElem?_set_ne different

theorem Queued.step {action : Action} (queued : s.Queued) (stepped : Step s action s') :
    s'.Queued := by
  have clients : ∀ c (client : Client), s.sys.Sized (s.size * 4)
      ((s.clients.set c client).length + 1) s.workers.length := by
    intro c client
    simpa using queued.sized
  have workers : ∀ w (worker : Worker), s.sys.Sized (s.size * 4)
      (s.clients.length + 1) (s.workers.set w worker).length := by
    intro w worker
    simpa using queued.sized
  cases stepped with
  | call | testTrue | testFalse | lock | spawned | spin | create | wait | sleep | waited
  | spuriousWait =>
    exact ⟨queued.fifo, queued.covered, clients _ _, queued.parked, queued.marker⟩
  | start found | poll found | leave found | forward found | ret found | publish found =>
    exact ⟨queued.fifo, queued.covered, workers _ _, queued.parked_move found (by simp),
      queued.marker⟩
  | notify found =>
    refine ⟨queued.fifo, queued.covered, ?_, queued.parked_move found (by simp), queued.marker⟩
    simpa using queued.sized
  | get found slot awake ran => exact queued.get found slot awake ran
  | destroy alive =>
    refine ⟨queued.fifo, queued.covered, queued.sized, queued.parked, .inl ?_⟩
    exact queued.marker.resolve_right (by simp [alive])
  | testStarted found | testUnstarted found | setDone found | terminated found | join found
  | joined found =>
    refine ⟨queued.fifo, queued.covered, queued.sized, queued.parked, .inl ?_⟩
    exact queued.marker.resolve_right (by simp [found])
  | spawn found =>
    obtain ⟨waiting, fifo⟩ := queued.fifo
    refine ⟨⟨waiting, fifo.ring, fifo.stored⟩, ?_, ?_, ?_, queued.marker⟩
    · simpa [System.ConsumersCovered, sleepers, pending] using queued.covered
    · exact ⟨queued.sized.capacity, by simpa using queued.sized.producers,
        by simpa using queued.sized.consumers⟩
    · intro w thread slot busy
      have inside : w < s.sys.consumers.length := by
        by_contra outside
        obtain ⟨lt, rfl⟩ := List.getElem?_eq_some_iff.mp slot
        simp only [List.length_append, List.length_singleton] at lt
        have last : w = s.sys.consumers.length := by omega
        subst last
        simp at busy
      rw [List.getElem?_append_left inside] at slot
      have parked := queued.parked w thread slot busy
      rwa [List.getElem?_append_left (List.getElem?_eq_some_iff.mp parked).1]
  | add found slot awake ran =>
    obtain ⟨fifo, covered, sized, parked⟩ := queued.put ran
    refine ⟨fifo, covered, by simpa using sized, parked, ?_⟩
    simp only [put_producers_ne ran (Nat.succ_ne_zero _)]
    exact queued.marker
  | @terminate wake left thread stored sys found slot awake ran =>
    obtain ⟨fifo, covered, sized, parked⟩ := queued.put ran
    refine ⟨fifo, covered, sized, parked, ?_⟩
    rcases System.put_cases ran with ⟨rfl, -, rfl⟩ | ⟨rfl, -, _, -, rfl⟩
    · exact .inr ⟨left, by simp⟩
    · left
      simp only
      exact List.getElem?_set_self (List.getElem?_eq_some_iff.mp slot).1
  | @spuriousAdd i task found =>
    obtain ⟨waiting, fifo⟩ := queued.fifo
    refine ⟨⟨waiting, fifo.ring, fifo.stored⟩, queued.covered, ?_, queued.parked, ?_⟩
    · exact ⟨queued.sized.capacity, by simpa using queued.sized.producers,
        queued.sized.consumers⟩
    · rcases queued.marker with idle | putting
      · left
        have different : i ≠ 0 := by
          rintro rfl
          rw [found] at idle
          cases idle
        simp only [List.getElem?_set_ne different]
        exact idle
      · exact .inr putting
  | @spuriousGet w found =>
    obtain ⟨waiting, fifo⟩ := queued.fifo
    refine ⟨⟨waiting, fifo.ring, fifo.stored⟩, queued.covered.spurious found, ?_, ?_,
      queued.marker⟩
    · exact ⟨queued.sized.capacity, queued.sized.producers,
        by simpa using queued.sized.consumers⟩
    · intro v thread slot busy
      by_cases same : w = v
      · subst same
        exact queued.parked w _ found (by simp)
      · simp only [List.getElem?_set_ne same] at slot
        exact queued.parked v thread slot busy

end queued

end CviRuntime.Concurrency.Pool
