import CviRuntime.Concurrency.Start

/-!
# Tasks and terminate markers

`~TaskPool` sets `_done`, puts one terminate marker for each of `_pool_size` workers and joins
the threads. A worker tests `_done` once a round, so from then on a worker that is already in
`get` takes one more element of the queue and leaves, and any other worker leaves at once: the
tasks in the queue are run only as far as workers were in `get`, and a worker in `get` comes out
only if the tasks and the markers suffice for all of them.
-/

namespace CviRuntime.Concurrency

/-- The number of markers the destructor has not put yet. -/
def Destructor.markers (size : Nat) : Destructor → Nat
  | absent | begun | settingDone => size
  | putting left => left
  | joining _ | finished => 0

namespace Pool

open CondVar Run

/-- The number of workers in `get`. -/
def committed (s : Pool) : Nat := s.workers.count .getting

/-- The queue holds `tasks` tasks and behind them `markers` terminate markers. -/
def Holding (s : Pool) (tasks markers : Nat) : Prop :=
  ∃ numbers : List Nat, numbers.length = tasks ∧
    s.sys.Fifo (numbers.map some ++ List.replicate markers none)

section holding

variable {s s' : Pool} {tasks markers : Nat}

theorem Holding.length (holding : s.Holding tasks markers) :
    s.sys.ring.length = tasks + markers := by
  obtain ⟨numbers, rfl, fifo⟩ := holding
  rw [← fifo.ring.count]
  simp

/-- A section of `put` while the queue holds tasks and markers. -/
theorem Holding.put {sys : System (Option Nat)} {i wake : Nat} {stored : Bool}
    {numbers : List Nat} (fifo : s.sys.Fifo (numbers.map some ++ List.replicate markers none))
    (ran : s.sys.put i none wake = some (stored, sys)) :
    sys.Fifo (numbers.map some ++
      List.replicate (if stored then markers + 1 else markers) none) := by
  have after := fifo.put ran
  cases stored
  · exact after
  · simp only [if_true] at after ⊢
    rwa [List.append_assoc, ← List.replicate_succ'] at after

/-- A section of `get` takes a task while there is one, then a marker. -/
theorem Holding.get {sys : System (Option Nat)} {w wake : Nat} {got : Option (Option Nat)}
    {numbers : List Nat} (fifo : s.sys.Fifo (numbers.map some ++ List.replicate markers none))
    (ran : s.sys.get w wake = some (got, sys)) :
    (got = none ∧ sys.Fifo (numbers.map some ++ List.replicate markers none)) ∨
    (∃ task rest, got = some (some task) ∧ numbers = task :: rest ∧
      sys.Fifo (rest.map some ++ List.replicate markers none)) ∨
    (∃ left, got = some none ∧ numbers = [] ∧ markers = left + 1 ∧
      sys.Fifo (List.replicate left none)) := by
  obtain ⟨split, after, -⟩ := fifo.get ran
  rcases got with _ | first
  · exact .inl ⟨rfl, after⟩
  · simp only [Option.toList_some, List.length_singleton] at split after
    cases numbers with
    | cons task rest =>
      simp only [List.map_cons, List.cons_append, List.drop_succ_cons, List.drop_zero] at split after
      cases List.head_eq_of_cons_eq split
      exact .inr (.inl ⟨task, rest, rfl, rfl, after⟩)
    | nil =>
      cases markers with
      | zero => simp at split
      | succ left =>
        simp only [List.map_nil, List.nil_append, List.replicate_succ, List.drop_succ_cons,
          List.drop_zero] at split after
        cases List.head_eq_of_cons_eq split
        exact .inr (.inr ⟨left, rfl, rfl, rfl, after⟩)

theorem committed_set {w : Nat} {before : Worker} (after : Worker)
    (found : s.workers[w]? = some before) :
    (s.workers.set w after).count .getting + (if before = .getting then 1 else 0) =
      s.committed + (if after = .getting then 1 else 0) :=
  Count.count_set found

/-- What a step does to the queue, to the workers in `get` and to the markers still to be put:
    nothing, a worker enters `get`, takes a task or takes a marker, the destructor puts a marker
    or finds the pool unstarted, a client adds a task. -/
inductive Drain (s s' : Pool) (tasks markers : Nat) : Nat → Nat → Prop
  | same (workers : s'.committed = s.committed)
      (left : s'.destructor.markers s.size = s.destructor.markers s.size) :
    Drain s s' tasks markers tasks markers
  | enter (going : s.done = false) (workers : s'.committed = s.committed + 1)
      (same : s'.destructor = s.destructor) : Drain s s' tasks markers tasks markers
  | takeTask {rest} (first : tasks = rest + 1) (workers : s'.committed + 1 = s.committed)
      (same : s'.destructor = s.destructor) : Drain s s' tasks markers rest markers
  | takeMarker {rest} (none : tasks = 0) (first : markers = rest + 1)
      (workers : s'.committed + 1 = s.committed) (same : s'.destructor = s.destructor) :
    Drain s s' tasks markers tasks rest
  | putMarker (workers : s'.committed = s.committed)
      (left : s'.destructor.markers s.size + 1 = s.destructor.markers s.size) :
    Drain s s' tasks markers tasks (markers + 1)
  | unstarted (off : s.started = false) (workers : s'.committed = s.committed)
      (finished : s'.destructor = .finished) : Drain s s' tasks markers tasks markers
  | add (alive : s.destructor = .absent) (workers : s'.committed = s.committed)
      (same : s'.destructor = s.destructor) : Drain s s' tasks markers (tasks + 1) markers

theorem Holding.step {action : Action} (holding : s.Holding tasks markers) (life : s.Lifecycle)
    (unmarked : s.destructor = .absent → markers = 0) (stepped : Step s action s') :
    ∃ tasks' markers', s'.Holding tasks' markers' ∧ Drain s s' tasks markers tasks' markers' := by
  have quiet : ∀ {w : Nat} {before : Worker} (after : Worker), s.workers[w]? = some before →
      before ≠ .getting → after ≠ .getting →
      (s.workers.set w after).count .getting = s.committed :=
    fun after found old new => Count.count_set_of_ne found old new
  obtain ⟨numbers, size, fifo⟩ := holding
  cases stepped with
  | call | testTrue | testFalse | lock | spawned | spin | create | wait | sleep | waited
  | spuriousWait => exact ⟨tasks, markers, ⟨numbers, size, fifo⟩, .same rfl rfl⟩
  | spuriousAdd | spuriousGet =>
    exact ⟨tasks, markers, ⟨numbers, size, fifo.ring, fifo.stored⟩, .same rfl rfl⟩
  | destroy found =>
    refine ⟨tasks, markers, ⟨numbers, size, fifo⟩, .same rfl ?_⟩
    simp [found, Destructor.markers]
  | testStarted found | setDone found | terminated found | join found | joined found =>
    refine ⟨tasks, markers, ⟨numbers, size, fifo⟩, .same rfl ?_⟩
    simp [found, Destructor.markers]
  | testUnstarted found off =>
    exact ⟨tasks, markers, ⟨numbers, size, fifo⟩, .unstarted off rfl rfl⟩
  | spawn found =>
    refine ⟨tasks, markers, ⟨numbers, size, fifo.ring, fifo.stored⟩, .same ?_ rfl⟩
    simp [committed]
  | start found | leave found | forward found | ret found | publish found | notify found =>
    exact ⟨tasks, markers, ⟨numbers, size, fifo⟩, .same (quiet _ found (by simp) (by simp)) rfl⟩
  | poll found going =>
    have moved := committed_set .getting found
    simp only [reduceCtorEq, if_false, if_true, Nat.add_zero] at moved
    exact ⟨tasks, markers, ⟨numbers, size, fifo⟩, .enter going moved rfl⟩
  | @add c wake task thread stored sys found slot awake ran =>
    have alive := life.alive found (by simp)
    have after := fifo.put ran
    cases stored
    · exact ⟨tasks, markers, ⟨numbers, size, after⟩, .same rfl rfl⟩
    · refine ⟨tasks + 1, markers, ⟨numbers ++ [task], by simp [size], ?_⟩, .add alive rfl rfl⟩
      rw [unmarked alive] at after ⊢
      simpa using after
  | @terminate wake left thread stored sys found slot awake ran =>
    have after := Holding.put fifo ran
    cases stored
    · refine ⟨tasks, markers, ⟨numbers, size, after⟩, .same rfl ?_⟩
      simp [found, Destructor.markers]
    · refine ⟨tasks, markers + 1, ⟨numbers, size, after⟩, .putMarker rfl ?_⟩
      simp [found, Destructor.markers]
  | @get w wake thread got sys found slot awake ran =>
    have moved := committed_set (afterGet got) found
    simp only [if_true] at moved
    rcases Holding.get fifo ran with ⟨rfl, after⟩ | ⟨task, rest, rfl, rfl, after⟩ |
      ⟨left, rfl, rfl, rfl, after⟩
    · simp only [afterGet, if_true] at moved
      exact ⟨tasks, markers, ⟨numbers, size, after⟩, .same (Nat.add_right_cancel moved) rfl⟩
    · simp only [afterGet, reduceCtorEq, if_false, Nat.add_zero] at moved
      exact ⟨rest.length, markers, ⟨rest, rfl, after⟩, .takeTask size.symm moved rfl⟩
    · simp only [afterGet, reduceCtorEq, if_false, Nat.add_zero] at moved
      exact ⟨tasks, left, ⟨[], size, after⟩, .takeMarker size.symm rfl moved rfl⟩

end holding

/-! ## What stays as it is while the pool is destroyed -/

section constants

variable {s s' : Pool} {action : Action}

theorem step_size (stepped : Step s action s') : s'.size = s.size := by
  cases stepped <;> rfl

theorem step_done (stepped : Step s action s') (done : s.done = true) : s'.done = true := by
  cases stepped <;> first | exact done | rfl

theorem step_finished (stepped : Step s action s') (finished : s.destructor = .finished) :
    s'.destructor = .finished := by
  cases stepped with
  | destroy found | testStarted found | testUnstarted found | setDone found | terminate found
  | terminated found | join found | joined found => simp [finished] at found
  | _ => exact finished

/-- While the pool is destroyed no thread is created and no task accepted. -/
theorem Lifecycle.begun_step (life : s.Lifecycle) (begun : s.destructor ≠ .absent)
    (stepped : Step s action s') :
    s'.destructor ≠ .absent ∧ s'.workers.length = s.workers.length ∧
      s'.submitted = s.submitted := by
  have outside : ∀ {c : Nat} {client : Client}, s.clients[c]? = some client →
      client ≠ .idle → False := fun found inside => begun (life.alive found inside)
  cases stepped with
  | call _ alive | wait _ alive => exact absurd alive begun
  | spawn found | add found => exact (outside found (by simp)).elim
  | get _ _ _ ran =>
    refine ⟨begun, List.length_set, ?_⟩
    simp only [submitted, (System.get_returned ran).2]
  | @terminate wake left thread stored sys found slot awake ran =>
    refine ⟨by simp, rfl, ?_⟩
    simp only [submitted, (System.put_stored ran).1, List.reduceOption_append]
    cases stored <;> simp [List.reduceOption]
  | testTrue | testFalse | lock | spawned | spin | create | sleep | waited | spuriousAdd
  | spuriousGet | spuriousWait => exact ⟨begun, rfl, rfl⟩
  | start | poll | leave | forward | ret | publish | notify =>
    exact ⟨begun, List.length_set, rfl⟩
  | destroy | testStarted | testUnstarted | setDone | terminated | join | joined =>
    exact ⟨by simp, rfl, rfl⟩

/-- While the pool is destroyed nobody holds `_mutex` between two steps. -/
theorem Lifecycle.unlocked (life : s.Lifecycle) (begun : s.destructor ≠ .absent) :
    s.holder = none := by
  by_contra held
  obtain ⟨c, holder⟩ := Option.ne_none_iff_exists'.mp held
  obtain ⟨client, found, holds⟩ := life.holder c holder
  rw [life.idle begun client (List.mem_of_getElem? found)] at holds
  cases holds

end constants

/-- The queue holds tasks and then markers, and no more markers than have been put. -/
def Stocked (s : Pool) : Prop :=
  ∃ tasks markers, s.Holding tasks markers ∧ markers + s.destructor.markers s.size ≤ s.size

/-- The threads joined so far have left. -/
def Joined (s : Pool) : Prop :=
  ∀ thread, s.destructor = .joining thread → ∀ w < thread, s.workers[w]? = some .exited

section reachable

variable {s s' : Pool} {action : Action}

theorem Stocked.new {size : Nat} (fits : size * 4 < 2 ^ 32) (clients : Nat) :
    (Pool.new size clients).Stocked :=
  ⟨0, 0, ⟨[], rfl, .new none fits _ _⟩, by simp [Pool.new, Destructor.markers]⟩

theorem Stocked.unmarked {markers : Nat}
    (few : markers + s.destructor.markers s.size ≤ s.size) :
    s.destructor = .absent → markers = 0 := by
  intro absent
  rw [absent, Destructor.markers] at few
  omega

theorem Stocked.step (stocked : s.Stocked) (life : s.Lifecycle) (stepped : Step s action s') :
    s'.Stocked := by
  obtain ⟨tasks, markers, holding, few⟩ := stocked
  obtain ⟨tasks', markers', after, drain⟩ := holding.step life (Stocked.unmarked few) stepped
  refine ⟨tasks', markers', after, ?_⟩
  rw [step_size stepped]
  cases drain with
  | same _ left => omega
  | enter _ _ same => rwa [same]
  | takeTask _ _ same => rwa [same]
  | takeMarker _ first _ same =>
    rw [same]
    omega
  | putMarker _ left => omega
  | unstarted _ _ finished =>
    simp only [finished, Destructor.markers]
    omega
  | add _ _ same => rwa [same]

theorem Joined.new (size clients : Nat) : (Pool.new size clients).Joined := by
  simp [Joined, Pool.new]

/-- A worker that has left stays where it is. -/
theorem Joined.worker_move {w : Nat} {before after : Worker} (joined : s.Joined)
    (found : s.workers[w]? = some before) (inside : before ≠ .exited) :
    ∀ thread, s.destructor = .joining thread → ∀ v < thread,
      (s.workers.set w after)[v]? = some .exited := by
  intro thread joining v earlier
  have left := joined thread joining v earlier
  have different : w ≠ v := by
    rintro rfl
    rw [found] at left
    exact inside (Option.some.inj left)
  rwa [List.getElem?_set_ne different]

theorem Joined.step (joined : s.Joined) (stepped : Step s action s') : s'.Joined := by
  cases stepped with
  | spawn =>
    intro thread joining w earlier
    have left := joined thread joining w earlier
    rwa [List.getElem?_append_left (List.getElem?_eq_some_iff.mp left).1]
  | start found | poll found | leave found | get found | forward found | ret found
  | publish found | notify found => exact joined.worker_move found (by simp)
  | @join thread found exited =>
    intro other joining w earlier
    cases joining
    rcases Nat.lt_succ_iff_lt_or_eq.mp earlier with before | rfl
    · exact joined thread found w before
    · exact exited
  | terminated =>
    intro thread joining w earlier
    cases joining
    exact absurd earlier (Nat.not_lt_zero w)
  | destroy | testStarted | testUnstarted | setDone | terminate | joined =>
    intro thread joining
    cases joining
  | _ => exact joined

end reachable

/-- What holds in every reachable state, with the accounts of threads and markers. -/
structure Account (s : Pool) : Prop where
  inv : s.Invariant
  counted : s.Counted
  stocked : s.Stocked
  joined : s.Joined

theorem Account.new {size : Nat} (fits : size * 4 < 2 ^ 32) (clients : Nat) :
    (Pool.new size clients).Account :=
  ⟨.new fits clients, .new size clients, .new fits clients, .new size clients⟩

theorem Account.step {s s' : Pool} {action : Action} (account : s.Account)
    (stepped : s.step action = some s') : s'.Account := by
  have taken := step_sound stepped
  exact ⟨account.inv.step stepped, account.counted.step taken,
    account.stocked.step account.inv.life taken, account.joined.step taken⟩

theorem run_account {size clients : Nat} (fits : size * 4 < 2 ^ 32) {actions : List Action}
    {t : Pool} (done : run step (Pool.new size clients) actions = some t) : t.Account :=
  run_preserves (fun _ _ _ account stepped => account.step stepped) (.new fits clients) done

/-- Every worker in `get` has an element in the queue or a marker still to come. -/
def Supplied (s : Pool) : Prop :=
  s.destructor ≠ .finished → s.committed ≤ s.sys.ring.length + s.destructor.markers s.size

section supplied

variable {s s' : Pool} {action : Action}

theorem committed_le (s : Pool) : s.committed ≤ s.workers.length := List.count_le_length

/-- With at most `_pool_size` workers the markers suffice. -/
theorem Supplied.step (supplied : s.Supplied) (account : s.Account)
    (few : s'.workers.length ≤ s.size) (stepped : Step s action s') : s'.Supplied := by
  intro unfinished
  have before := supplied fun finished => unfinished (step_finished stepped finished)
  obtain ⟨tasks, markers, holding, bound⟩ := account.stocked
  obtain ⟨tasks', markers', after, drain⟩ :=
    holding.step account.inv.life (Stocked.unmarked bound) stepped
  have length := holding.length
  have length' := after.length
  rw [step_size stepped]
  cases drain with
  | same workers left => omega
  | enter going workers same =>
    -- before `_done` is set every marker is still to come
    have all : s'.destructor.markers s.size = s.size := by
      have late := account.inv.life.ended
      rw [same] at unfinished ⊢
      cases phase : s.destructor with
      | putting _ | joining _ => simp [phase, Destructor.ending, going] at late
      | finished => exact absurd phase unfinished
      | _ => rfl
    have most := committed_le s'
    omega
  | takeTask first workers same =>
    rw [same]
    omega
  | takeMarker none first workers same =>
    rw [same]
    omega
  | putMarker workers left => omega
  | unstarted _ _ finished => exact absurd finished unfinished
  | add alive workers same =>
    rw [same]
    omega

/-- The destructor of a pool with enough markers is not stuck in `join`. -/
theorem Supplied.not_joining {thread : Nat} (supplied : s.Supplied) (account : s.Account)
    (quiet : s.Quiet) : s.destructor ≠ .joining thread := by
  intro joining
  have unlocked := account.inv.life.unlocked (by simp [joining])
  have stuck := quiet .join rfl
  cases found : s.workers[thread]? with
  | none => simp [Pool.step, joining, found] at stuck
  | some worker =>
    rcases resting_worker quiet.resting account.inv.queued unlocked found with rfl | ⟨rfl, -⟩
    · simp [Pool.step, joining, found] at stuck
    · have empty := resting_empty quiet.resting account.inv.queued unlocked found
      have enough := supplied (by simp [joining])
      have some : 0 < s.committed := List.count_pos_iff.mpr (List.mem_of_getElem? found)
      rw [empty, joining, Destructor.markers] at enough
      omega

end supplied

end Pool

end CviRuntime.Concurrency
