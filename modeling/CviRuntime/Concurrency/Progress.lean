import CviRuntime.Concurrency.Lifecycle

/-!
# The pool comes to rest

Left to themselves, the threads inside `startPool`, `workFunc` and `~TaskPool` stop after
finitely many steps: each step is paid for by a task in the queue, a thread still to be created,
a marker still to be put, or a thread's way to its next wait. What such a state looks like
decides what the pool has done.
-/

namespace CviRuntime.Concurrency.Pool

open CondVar Run

/-- No thread inside the pool's functions can take a step; the clients make no new calls. -/
def Quiet (s : Pool) : Prop := ∀ action, action.internal = true → s.step action = none

/-- No worker can take a step. -/
def Resting (s : Pool) : Prop := ∀ action, action.byWorker = true → s.step action = none

section quiet

variable {s : Pool}

theorem Quiet.resting (quiet : s.Quiet) : s.Resting :=
  fun action worker => quiet action (Action.internal_of_byWorker worker)

theorem quiet_holder (quiet : s.Quiet) (life : s.Lifecycle) (started : s.started = true) :
    s.holder = none := by
  by_contra held
  obtain ⟨c, holder⟩ := Option.ne_none_iff_exists'.mp held
  obtain ⟨client, found, holds⟩ := life.holder c holder
  cases client with
  | spawning left =>
    have stuck := quiet (.spawn c) rfl
    cases left <;> simp [step, found] at stuck
  | spinning =>
    have stuck := quiet (.spin c) rfl
    simp [step, found, started] at stuck
  | _ => simp [Client.holds] at holds

/-- A resting worker has left, or sleeps in `get`. -/
theorem resting_worker {w : Nat} {worker : Worker} (resting : s.Resting) (queued : s.Queued)
    (free : s.holder = none) (found : s.workers[w]? = some worker) :
    worker = .exited ∨ (worker = .getting ∧ s.sys.consumers[w]? = some (.asleep ())) := by
  cases worker with
  | fresh =>
    have stuck := resting (.start w) rfl
    simp [step, found] at stuck
  | polling =>
    have stuck := resting (.poll w) rfl
    simp [step, found] at stuck
  | getting =>
    right
    refine ⟨rfl, ?_⟩
    have inside : w < s.sys.consumers.length := by
      rw [queued.sized.consumers]
      exact (List.getElem?_eq_some_iff.mp found).1
    have slot := List.getElem?_eq_getElem inside
    cases asleep : (s.sys.consumers[w]).isAsleep with
    | true =>
      obtain ⟨⟨⟩, same⟩ := Waiter.isAsleep_iff.mp asleep
      rw [slot, same]
    | false =>
      obtain ⟨waiting, fifo⟩ := queued.fifo
      obtain ⟨wake, got, sys, ran⟩ := fifo.exists_get w
      have stuck := resting (.get w wake) rfl
      simp [step, found, slot, asleep, ran] at stuck
  | took task =>
    have stuck := resting (.forward w) rfl
    simp [step, found] at stuck
  | running task =>
    have stuck := resting (.ret w true) rfl
    simp [step, found] at stuck
  | returned task value =>
    have stuck := resting (.publish w) rfl
    simp [step, found] at stuck
  | notifying =>
    have stuck := resting (.notify w) rfl
    simp [step, found, free] at stuck
  | exited => exact .inl rfl

/-- While the workers rest none of them has been notified. -/
theorem resting_pending (resting : s.Resting) (queued : s.Queued) (free : s.holder = none) :
    pending s.sys.consumers = 0 := by
  by_contra some
  obtain ⟨w, thread, slot, woken⟩ := Count.exists_getElem?_of_countP_pos (Nat.pos_of_ne_zero some)
  have busy : thread ≠ .idle := by
    rintro rfl
    simp at woken
  have found := queued.parked w thread slot busy
  rcases resting_worker resting queued free found with same | ⟨-, asleep⟩
  · cases same
  · rw [slot] at asleep
    cases asleep
    simp at woken

/-- While the workers rest and one of them sleeps, the queue is empty. -/
theorem resting_empty {w : Nat} (resting : s.Resting) (queued : s.Queued) (free : s.holder = none)
    (found : s.workers[w]? = some .getting) : s.sys.ring.length = 0 := by
  rcases resting_worker resting queued free found with same | ⟨-, asleep⟩
  · cases same
  · have covered := queued.covered (sleepers_pos_of_getElem? asleep)
    rw [resting_pending resting queued free] at covered
    exact Nat.eq_zero_of_le_zero covered

end quiet

/-! ## The measure -/

def workerCost : Worker → Nat
  | .fresh => 2
  | .polling => 1
  | .getting => 0
  | .took _ => 5
  | .running _ => 4
  | .returned _ _ => 3
  | .notifying => 2
  | .exited => 0

/-- A thread to be created costs its own start and the step that creates it. -/
def clientCost (size : Nat) : Client → Nat
  | .testing => 4 * size + 4
  | .locking => 4 * size + 3
  | .spawning left => 4 * left + 2
  | .spinning => 1
  | _ => 0

/-- A marker to be put costs its place in the queue and the worker it wakes. -/
def destructorCost (size threads : Nat) : Destructor → Nat
  | .absent => 0
  | .begun => 9 * size + threads + 6
  | .settingDone => 9 * size + threads + 5
  | .putting left => 9 * left + threads + 4
  | .joining thread => threads - thread + 1
  | .finished => 0

def cost (s : Pool) : Nat :=
  7 * s.sys.ring.length + awake s.sys.consumers + awake s.sys.producers +
    (s.workers.map workerCost).sum + (s.clients.map (clientCost s.size)).sum +
    destructorCost s.size s.workers.length s.destructor

section sections

variable {sys sys' : System (Option Nat)} {waiting : List (Option Nat)} {i wake : Nat}

/-- What a section of `put` costs: its producer sleeps, or the queue grows and one consumer may
    wake up. -/
theorem put_cost {task : Option Nat} {stored : Bool} {thread : Waiter (Option Nat)}
    (fifo : sys.Fifo waiting) (slot : sys.producers[i]? = some thread)
    (ready : thread.isAsleep = false) (ran : sys.put i task wake = some (stored, sys')) :
    (stored = false ∧ sys'.ring.length = sys.ring.length ∧
      awake sys'.consumers = awake sys.consumers ∧
      awake sys'.producers + 1 = awake sys.producers) ∨
    (stored = true ∧ sys'.ring.length = sys.ring.length + 1 ∧
      awake sys'.consumers ≤ awake sys.consumers + 1 ∧
      awake sys'.producers = awake sys.producers) := by
  rcases System.put_cases ran with ⟨rfl, -, rfl⟩ | ⟨rfl, free, consumers, notified, rfl⟩
  · have moved := awake_set (.asleep task) slot
    simp only [ready, Waiter.isAsleep_asleep, Bool.false_eq_true, if_false, if_true,
      Nat.add_zero] at moved
    exact .inl ⟨rfl, rfl, rfl, moved⟩
  · have moved := awake_set .idle slot
    simp only [ready, Waiter.isAsleep_idle, Bool.false_eq_true, if_false] at moved
    exact .inr ⟨rfl, fifo.ring.store_length free task, notifyOne_awake notified,
      Nat.add_right_cancel moved⟩

/-- What a section of `get` costs: its consumer sleeps, or the queue shrinks and one producer may
    wake up. -/
theorem get_cost {got : Option (Option Nat)} {thread : Waiter Unit} (fifo : sys.Fifo waiting)
    (slot : sys.consumers[i]? = some thread) (ready : thread.isAsleep = false)
    (ran : sys.get i wake = some (got, sys')) :
    (got = none ∧ sys'.ring.length = sys.ring.length ∧
      awake sys'.consumers + 1 = awake sys.consumers ∧
      awake sys'.producers = awake sys.producers) ∨
    (got ≠ none ∧ sys'.ring.length + 1 = sys.ring.length ∧
      awake sys'.consumers = awake sys.consumers ∧
      awake sys'.producers ≤ awake sys.producers + 1) := by
  rcases System.get_cases ran with ⟨rfl, -, rfl⟩ |
    ⟨task, ring, producers, rfl, some, taken, notified, rfl⟩
  · have moved := awake_set (.asleep ()) slot
    simp only [ready, Waiter.isAsleep_asleep, Bool.false_eq_true, if_false, if_true,
      Nat.add_zero] at moved
    exact .inl ⟨rfl, rfl, moved, rfl⟩
  · have moved := awake_set .idle slot
    simp only [ready, Waiter.isAsleep_idle, Bool.false_eq_true, if_false] at moved
    obtain ⟨_, _, -, took, shorter, -⟩ := fifo.ring.take some
    rw [taken] at took
    cases took
    refine .inr ⟨by simp, shorter, Nat.add_right_cancel moved, ?_⟩
    rcases notified with ⟨-, notified⟩ | ⟨-, rfl⟩
    · exact notifyOne_awake notified
    · exact Nat.le_succ _

end sections

theorem sum_map_wake (size : Nat) (clients : List Client) :
    ((clients.map Client.wake).map (clientCost size)).sum =
      (clients.map (clientCost size)).sum := by
  rw [List.map_map]
  congr 1
  refine List.map_congr_left fun client _ => ?_
  cases client <;> rfl

/-- Every step inside the pool's functions lowers the cost. -/
theorem cost_lt {s s' : Pool} {action : Action} (queued : s.Queued) (life : s.Lifecycle)
    (internal : action.internal = true) (stepped : Step s action s') : s'.cost < s.cost := by
  have client : ∀ {c : Nat} {before : Client} (after : Client), s.clients[c]? = some before →
      ((s.clients.set c after).map (clientCost s.size)).sum + clientCost s.size before =
        (s.clients.map (clientCost s.size)).sum + clientCost s.size after :=
    fun after found => Count.sum_map_set found
  have worker : ∀ {w : Nat} {before : Worker} (after : Worker), s.workers[w]? = some before →
      ((s.workers.set w after).map workerCost).sum + workerCost before =
        (s.workers.map workerCost).sum + workerCost after :=
    fun after found => Count.sum_map_set found
  unfold cost
  cases stepped with
  | call | create | add | wait | sleep | waited | destroy | spuriousAdd | spuriousGet
  | spuriousWait => simp [Action.internal] at internal
  | testTrue found =>
    have moved := client .submitting found
    simp only [clientCost] at moved ⊢
    omega
  | testFalse found =>
    have moved := client .locking found
    simp only [clientCost] at moved ⊢
    omega
  | lock found =>
    have moved := client (.spawning s.size) found
    simp only [clientCost] at moved ⊢
    omega
  | @spawn c left found =>
    have moved := client (.spawning left) found
    have absent := life.alive found (by simp)
    simp only [clientCost] at moved
    simp only [awake, List.countP_append, List.countP_cons, List.countP_nil, List.map_append,
      List.map_cons, List.map_nil, List.sum_append, List.sum_cons, List.sum_nil, absent,
      destructorCost, workerCost, Waiter.isAsleep_idle, Bool.not_false, if_true]
    omega
  | spawned found =>
    have moved := client .spinning found
    simp only [clientCost] at moved ⊢
    omega
  | spin found =>
    have moved := client .submitting found
    simp only [clientCost] at moved ⊢
    omega
  | start found =>
    have moved := worker .polling found
    simp only [workerCost, List.length_set] at moved ⊢
    omega
  | poll found =>
    have moved := worker .getting found
    simp only [workerCost, List.length_set] at moved ⊢
    omega
  | leave found =>
    have moved := worker .exited found
    simp only [workerCost, List.length_set] at moved ⊢
    omega
  | @get w wake thread got sys found slot ready ran =>
    have moved := worker (afterGet got) found
    obtain ⟨waiting, fifo⟩ := queued.fifo
    simp only [List.length_set] at moved ⊢
    rcases get_cost fifo slot ready ran with ⟨rfl, same, fewer, others⟩ |
      ⟨some, shorter, same, more⟩
    · simp only [afterGet, workerCost] at moved
      simp only [same, others, afterGet]
      omega
    · have small : workerCost (afterGet got) ≤ 5 := by
        rcases got with _ | _ | t <;> simp [afterGet, workerCost]
      rw [show workerCost .getting = 0 from rfl] at moved
      omega
  | @forward w task found =>
    have moved := worker (.running task) found
    simp only [workerCost, List.length_set] at moved ⊢
    omega
  | @ret w task value found =>
    have moved := worker (.returned task value) found
    simp only [workerCost, List.length_set] at moved ⊢
    omega
  | publish found =>
    have moved := worker .notifying found
    simp only [workerCost, List.length_set] at moved ⊢
    omega
  | notify found =>
    have moved := worker .polling found
    simp only [workerCost, List.length_set, sum_map_wake] at moved ⊢
    omega
  | testStarted found | testUnstarted found | setDone found | terminated found | joined found =>
    simp only [found, destructorCost]
    omega
  | terminate found slot ready ran =>
    obtain ⟨waiting, fifo⟩ := queued.fifo
    rcases put_cost fifo slot ready ran with ⟨rfl, same, others, fewer⟩ |
      ⟨rfl, longer, more, same⟩
    · simp only [found, destructorCost, Bool.false_eq_true, if_false]
      omega
    · simp only [found, destructorCost, if_true]
      omega
  | @join thread found exited =>
    have inside := (List.getElem?_eq_some_iff.mp exited).1
    simp only [found, destructorCost]
    omega

/-! ## Every reachable state -/

/-- What holds in every reachable state of the pool. -/
structure Invariant (s : Pool) : Prop where
  queued : s.Queued
  tracked : s.Tracked
  notified : s.Notified
  life : s.Lifecycle

theorem Invariant.new {size : Nat} (fits : size * 4 < 2 ^ 32) (clients : Nat) :
    (Pool.new size clients).Invariant :=
  ⟨.new fits clients, .new size clients, .new size clients, .new size clients⟩

theorem Invariant.step {s s' : Pool} {action : Action} (inv : s.Invariant)
    (stepped : s.step action = some s') : s'.Invariant := by
  have taken := step_sound stepped
  exact ⟨inv.queued.step taken, inv.tracked.step inv.queued taken,
    inv.notified.step inv.tracked inv.queued taken, inv.life.step taken⟩

theorem run_inv {size clients : Nat} (fits : size * 4 < 2 ^ 32) {actions : List Action} {t : Pool}
    (done : run step (Pool.new size clients) actions = some t) : t.Invariant :=
  run_preserves (fun _ _ _ inv stepped => inv.step stepped) (.new fits clients) done

theorem Invariant.lower {s s' : Pool} {action : Action} (inv : s.Invariant)
    (internal : action.internal = true) (stepped : s.step action = some s') : s'.cost < s.cost :=
  cost_lt inv.queued inv.life internal (step_sound stepped)

/-- A run inside the pool's functions is no longer than the cost of its first state. -/
theorem Invariant.run_length {s t : Pool} {actions : List Action} (inv : s.Invariant)
    (all : ∀ action ∈ actions, action.internal = true) (done : run Pool.step s actions = some t) :
    actions.length + t.cost ≤ s.cost := by
  have keep : ∀ (s : Pool) (action : Action) (s' : Pool), s.Invariant → action.internal = true →
      s.step action = some s' → s'.Invariant := fun _ _ _ held _ stepped => held.step stepped
  exact run_length_le keep (fun _ _ _ held internal stepped => held.lower internal stepped)
    inv all done

/-- Steps inside the pool's functions lead to a state at rest. -/
theorem Invariant.exists_quiet {s : Pool} (inv : s.Invariant) :
    ∃ actions t, (∀ action ∈ actions, action.internal = true) ∧
      run Pool.step s actions = some t ∧ t.Invariant ∧ t.Quiet := by
  have keep : ∀ (s : Pool) (action : Action) (s' : Pool), s.Invariant → action.internal = true →
      s.step action = some s' → s'.Invariant := fun _ _ _ held _ stepped => held.step stepped
  exact exists_run_stuck keep (fun _ _ _ held internal stepped => held.lower internal stepped) inv

/-- A step accepts the task whose `addTask` returns in it, and no other. -/
theorem step_submitted {s s' : Pool} {action : Action} (stepped : s.step action = some s') :
    s'.submitted = s.submitted ++ (s.taskAdded action).toList := by
  have same {u : Pool} (stored : u.sys.stored = s.sys.stored) :
      u.submitted = s.submitted ++ (none : Option Nat).toList := by
    rw [submitted, submitted, stored]
    exact (List.append_nil _).symm
  cases step_sound stepped with
  | @add c wake task thread stored sys found slot awake ran =>
    obtain ⟨inside, -⟩ := List.getElem?_eq_some_iff.mp found
    simp only [taskAdded, found, stepped, Option.bind_some, List.getElem?_set_self inside]
    simp only [submitted, (System.put_stored ran).1, List.reduceOption_append]
    cases stored with
    | true => rfl
    | false => rfl
  | terminate _ _ _ ran =>
    simp only [submitted, (System.put_stored ran).1, List.reduceOption_append]
    split
    · rfl
    · rfl
  | get _ _ _ ran => exact same (System.get_returned ran).2
  | _ => exact same rfl

/-- The destructor does not begin by itself. -/
theorem step_absent {s s' : Pool} {action : Action} (absent : s.destructor = .absent)
    (internal : action.internal = true) (stepped : s.step action = some s') :
    s'.destructor = .absent := by
  cases step_sound stepped with
  | destroy => simp [Action.internal] at internal
  | testStarted found | testUnstarted found | setDone found | terminate found | terminated found
  | join found | joined found => simp [absent] at found
  | _ => exact absent

/-- Once no worker carries a task, an accepted task that is not in the queue was run. -/
theorem Invariant.task_done {s : Pool} {waiting : List (Option Nat)} {task : Nat}
    (inv : s.Invariant) (fifo : s.sys.Fifo waiting)
    (free : ∀ worker ∈ s.workers, worker = .getting ∨ worker = .exited)
    (accepted : some task ∈ s.sys.stored) (gone : some task ∉ waiting) :
    s.sys.returned.count (some task) = 1 ∧ s.called.count task = 1 ∧
      s.finished.count task = 1 ∧ published s.retCodes task = true := by
  have absent : ∀ worker : Worker, worker ≠ .getting → worker ≠ .exited →
      s.workers.count worker = 0 := by
    intro worker notGetting notExited
    refine List.count_eq_zero.mpr fun member => ?_
    rcases free worker member with same | same
    · exact notGetting same
    · exact notExited same
  have carried : s.workers.countP (isReturned task) = 0 := by
    refine List.countP_eq_zero.mpr fun worker member => ?_
    rcases free worker member with rfl | rfl <;> simp [isReturned]
  have same : s.sys.stored.count (some task) = s.sys.returned.count (some task) := by
    rw [fifo.stored, List.count_append, List.count_eq_zero.mpr gone, Nat.add_zero]
  have once : s.sys.stored.count (some task) = 1 := by
    have most := (inv.tracked.at_most_once inv.queued task).2.2.2
    have positive := List.count_pos_iff.mpr accepted
    split at most <;> omega
  have taken := inv.tracked.taken task
  have called := inv.tracked.called task
  have finished := inv.tracked.finished task
  rw [absent _ (by simp) (by simp)] at taken called
  rw [carried] at finished
  refine ⟨by omega, by omega, by omega, ?_⟩
  by_contra unset
  rw [if_neg unset] at finished
  omega

/-- A pool at rest that is not being destroyed has run every task it accepted. -/
theorem Invariant.quiet_done {s : Pool} (inv : s.Invariant) (quiet : s.Quiet)
    (alive : s.destructor = .absent) {task : Nat} (accepted : some task ∈ s.sys.stored) :
    s.sys.returned.count (some task) = 1 ∧ s.called.count task = 1 ∧
      s.finished.count task = 1 ∧ published s.retCodes task = true := by
  have started : s.started = true := by
    by_contra off
    rw [(inv.life.unstarted (Bool.eq_false_of_not_eq_true off)).1] at accepted
    cases accepted
  have unlocked := quiet_holder quiet inv.life started
  have free : ∀ worker ∈ s.workers, worker = .getting := by
    intro worker member
    obtain ⟨w, found⟩ := List.getElem?_of_mem member
    rcases resting_worker quiet.resting inv.queued unlocked found with rfl | ⟨same, -⟩
    · have late := inv.life.ending (inv.life.exited member)
      simp [alive, Destructor.ending] at late
    · exact same
  obtain ⟨waiting, fifo⟩ := inv.queued.fifo
  obtain ⟨first, rest, crew⟩ := List.exists_cons_of_ne_nil (inv.life.manned started)
  have empty : s.sys.ring.length = 0 := by
    have member : first ∈ s.workers := by simp [crew]
    obtain ⟨w, found⟩ := List.getElem?_of_mem member
    rw [free first member] at found
    exact resting_empty quiet.resting inv.queued unlocked found
  have none : waiting = [] := List.eq_nil_of_length_eq_zero (fifo.ring.count.trans empty)
  exact inv.task_done fifo (fun worker member => .inl (free worker member)) accepted
    (by simp [none])

theorem count_reduceOption (tasks : List (Option Nat)) (task : Nat) :
    tasks.reduceOption.count task = tasks.count (some task) := by
  induction tasks with
  | nil => rfl
  | cons first rest ih =>
    cases first with
    | none => simp [List.reduceOption_cons_of_none, ih]
    | some t => simp [List.reduceOption_cons_of_some, List.count_cons, ih]

/-- In every run of any number of clients and workers: the tasks accepted are those whose `addTask`
    returned, in the order of these calls, tasks are taken in that order, no task is taken, called
    or finished twice, `waitTask` returns after the task was finished and published, and a client
    sleeps on a published task only while a worker is about to notify. While the pool is not being
    destroyed the threads inside it come to rest, and by then every accepted task was taken and
    called once. -/
theorem run_completes {size clients : Nat} (fits : size * 4 < 2 ^ 32) {actions : List Action}
    {t : Pool} (done : run step (Pool.new size clients) actions = some t) :
    t.submitted = collect step taskAdded (Pool.new size clients) actions ∧
    t.taken <+: t.submitted ∧
    (∀ task, t.finished.count task ≤ t.called.count task ∧
      t.called.count task ≤ t.taken.count task ∧ t.taken.count task ≤ t.submitted.count task ∧
      t.submitted.count task ≤ 1) ∧
    (∀ task ∈ t.waited, task ∈ t.finished ∧ published t.retCodes task = true) ∧
    (∀ task, .asleep task ∈ t.clients → published t.retCodes task = true →
      .notifying ∈ t.workers) ∧
    (t.destructor = .absent → ∀ rest u, (∀ action ∈ rest, action.internal = true) →
      run step t rest = some u → rest.length ≤ t.cost ∧ t.submitted <+: u.submitted ∧
      (u.Quiet → ∀ task ∈ u.submitted, u.taken.count task = 1 ∧ u.called.count task = 1 ∧
        u.finished.count task = 1 ∧ published u.retCodes task = true)) := by
  have inv := run_inv fits done
  obtain ⟨waiting, fifo⟩ := inv.queued.fifo
  refine ⟨?_, ?_, fun task => ?_, fun task member => ?_, inv.notified.asleep, ?_⟩
  · exact run_collect (fun _ _ _ stepped => step_submitted stepped) done
  · refine ⟨waiting.reduceOption, ?_⟩
    rw [submitted, taken, fifo.stored, List.reduceOption_append]
  · obtain ⟨first, second, third, fourth⟩ := inv.tracked.at_most_once inv.queued task
    rw [taken, submitted, count_reduceOption, count_reduceOption]
    refine ⟨first, second, third, fourth.trans ?_⟩
    split
    · exact Nat.le_refl 1
    · exact Nat.zero_le 1
  · have ready := inv.notified.waited task member
    have finished := inv.tracked.finished task
    rw [if_pos ready] at finished
    exact ⟨List.count_pos_iff.mp (by omega), ready⟩
  · intro absent rest u all later
    have after := run_preserves (P := fun s => s.Invariant ∧ t.submitted <+: s.submitted)
      (fun s action s' held stepped =>
        ⟨held.1.step stepped, held.2.trans ⟨_, (step_submitted stepped).symm⟩⟩)
      ⟨inv, List.prefix_refl _⟩ later
    have bounded := inv.run_length all later
    have still : u.destructor = .absent := run_invariant
      (fun s action s' held internal stepped => step_absent held internal stepped) absent
      (Admits.of_forall (fun _ _ internal => internal) all) later
    refine ⟨by omega, after.2, fun quiet task member => ?_⟩
    have accepted : some task ∈ u.sys.stored := List.reduceOption_mem_iff.mp member
    obtain ⟨taken, rest⟩ := after.1.quiet_done quiet still accepted
    exact ⟨(count_reduceOption _ _).trans taken, rest⟩

/-- Two clients of a pool with one worker: the first creates the thread, both wait for their
    tasks, and the second falls asleep on its task. -/
def twoClients : List Action :=
  [.call 0, .test 0, .lock 0, .spawn 0, .start 0, .spawn 0, .spin 0, .create 0, .poll 0, .get 0 0,
    .add 0 0, .call 1, .test 1, .create 1, .add 1 0, .wait 0 0, .wait 1 1, .check 1, .get 0 0,
    .forward 0, .ret 0 true, .publish 0, .notify 0, .check 0, .poll 0, .get 0 0, .forward 0,
    .ret 0 false, .publish 0, .notify 0, .check 1]

theorem run_completes_twoClients :
    ∃ t, run step (Pool.new 1 2) twoClients = some t ∧ t.submitted = [0, 1] ∧ t.waited = [0, 1] ∧
      t.taken <+: t.submitted ∧
      ∀ task ∈ t.waited, task ∈ t.finished ∧ published t.retCodes task = true := by
  obtain ⟨t, done, waited⟩ : ∃ t, run step (Pool.new 1 2) twoClients = some t ∧
      t.waited = [0, 1] := by
    refine ⟨_, rfl, rfl⟩
  obtain ⟨submitted, taken, -, finished, -⟩ := run_completes (by decide) done
  have added : collect step taskAdded (Pool.new 1 2) twoClients = [0, 1] := rfl
  exact ⟨t, done, submitted.trans added, waited, taken, finished⟩

end CviRuntime.Concurrency.Pool
