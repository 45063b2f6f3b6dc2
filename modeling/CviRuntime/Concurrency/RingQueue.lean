import Mathlib.Algebra.Order.Ring.Nat
import CviRuntime.Lib.CondVar
import CviRuntime.Lib.Ring
import CviRuntime.Lib.Run

/-!
# The queue of the task pool (`include/runtime/taskpool.hpp`)

`RingQueue` keeps its tasks in a circular buffer and is guarded by one mutex. A producer in
`put` sleeps on `_cond_idel` while one place is left, a consumer in `get` sleeps on
`_cond_busy` while the queue is empty; each section under the mutex is one step, and a step
that notifies says which sleeping thread is the one woken. The counters are `uint32_t`.
-/

namespace CviRuntime.Concurrency

open CondVar Run

variable {α : Type*}

/-- `RingQueue` (`taskpool.hpp:37-83`) without the mutex and the condition variables. -/
structure RingQueue (α : Type*) where
  capacity : Nat
  head : Nat
  tail : Nat
  length : Nat
  queue : List α
  deriving Repr, DecidableEq

namespace RingQueue

/-- The constructor; `resize` fills the cells with null pointers. -/
def new (null : α) (capacity : Nat) : RingQueue α :=
  ⟨capacity, 0, 0, 0, List.replicate capacity null⟩

/-- `_capacity - _length`. -/
def room (ring : RingQueue α) : Nat := (ring.capacity + 2 ^ 32 - ring.length) % 2 ^ 32

/-- `move` (`taskpool.hpp:68-72`). -/
def move (ring : RingQueue α) (index : Nat) : Nat := (index + 1) % 2 ^ 32 % ring.capacity

/-- What `put` does once there is room (`taskpool.hpp:48-50`). -/
def store (ring : RingQueue α) (task : α) : RingQueue α :=
  { ring with
    queue := ring.queue.set ring.tail task
    tail := ring.move ring.tail
    length := (ring.length + 1) % 2 ^ 32 }

/-- `move(_head)` and `_length--`. -/
def dropHead (ring : RingQueue α) : RingQueue α :=
  { ring with
    head := ring.move ring.head
    length := (ring.length + 2 ^ 32 - 1) % 2 ^ 32 }

/-- What `get` does once there is a task (`taskpool.hpp:62-65`); reading outside the vector is
    `none`. -/
def take (ring : RingQueue α) : Option (α × RingQueue α) :=
  (ring.queue[ring.head]?).map fun task => (task, ring.dropHead)

@[simp] theorem store_capacity (ring : RingQueue α) (task : α) :
    (ring.store task).capacity = ring.capacity := rfl

@[simp] theorem dropHead_capacity (ring : RingQueue α) :
    ring.dropHead.capacity = ring.capacity := rfl

/-- The cells of the queue hold the tasks `waiting`, in order from `_head`. -/
structure Holds (ring : RingQueue α) (waiting : List α) : Prop where
  fits : ring.capacity < 2 ^ 32
  cells : ring.queue.length = ring.capacity
  count : waiting.length = ring.length
  bound : ring.length ≤ ring.capacity - 1
  wrapped : ring.head % ring.capacity = ring.head
  tail : ring.tail = (ring.head + ring.length) % ring.capacity
  window : Ring.window ring.queue ring.head ring.length = waiting.map some

theorem Holds.new (null : α) {capacity : Nat} (fits : capacity < 2 ^ 32) :
    (RingQueue.new null capacity).Holds [] where
  fits := fits
  cells := by simp [RingQueue.new]
  count := rfl
  bound := Nat.zero_le _
  wrapped := Nat.zero_mod _
  tail := by simp [RingQueue.new]
  window := rfl

section holds

variable {ring : RingQueue α} {waiting : List α}

theorem Holds.room_eq (holds : ring.Holds waiting) : ring.room = ring.capacity - ring.length := by
  have fits := holds.fits
  have bound := holds.bound
  have shift : ring.capacity + 2 ^ 32 - ring.length = ring.capacity - ring.length + 2 ^ 32 := by
    omega
  rw [room, shift, Nat.add_mod_right, Nat.mod_eq_of_lt (by omega)]

theorem Holds.move_eq (holds : ring.Holds waiting) {index : Nat} (inside : index < ring.capacity) :
    ring.move index = (index + 1) % ring.capacity := by
  have fits := holds.fits
  rw [move, Nat.mod_eq_of_lt (show index + 1 < 2 ^ 32 by omega)]

theorem Holds.head_lt (holds : ring.Holds waiting) (some : 0 < ring.capacity) :
    ring.head < ring.capacity := by
  rw [← holds.wrapped]
  exact Nat.mod_lt _ some

/-- Storing a task while there is room appends it. -/
theorem Holds.store (holds : ring.Holds waiting) (free : 1 < ring.room) (task : α) :
    (ring.store task).Holds (waiting ++ [task]) := by
  rw [holds.room_eq] at free
  have fits := holds.fits
  have tailIn : ring.tail < ring.capacity := by
    rw [holds.tail]
    exact Nat.mod_lt _ (by omega)
  have longer : (ring.length + 1) % 2 ^ 32 = ring.length + 1 := Nat.mod_eq_of_lt (by omega)
  refine ⟨fits, ?_, ?_, ?_, holds.wrapped, ?_, ?_⟩
  · simp [RingQueue.store, holds.cells]
  · simp only [RingQueue.store, longer, List.length_append, List.length_singleton, holds.count]
  · simp only [RingQueue.store, longer]
    omega
  · simp only [RingQueue.store, longer]
    rw [holds.move_eq tailIn, holds.tail, Nat.mod_add_mod, Nat.add_assoc]
  · simp only [RingQueue.store, longer]
    have room : ring.length < ring.queue.length := by
      rw [holds.cells]
      omega
    have pushed := Ring.window_push ring.head task room
    rw [holds.cells, ← holds.tail] at pushed
    rw [pushed, holds.window, List.map_append, List.map_singleton]

/-- Taking from a queue that is not empty gives its first task. -/
theorem Holds.take (holds : ring.Holds waiting) (some : ring.length ≠ 0) :
    ∃ task rest, waiting = task :: rest ∧ ring.take = .some (task, ring.dropHead) ∧
      ring.dropHead.length + 1 = ring.length ∧ ring.dropHead.Holds rest := by
  obtain ⟨n, size⟩ : ∃ n, ring.length = n + 1 := ⟨ring.length - 1, by omega⟩
  have fits := holds.fits
  have bound := holds.bound
  have headIn := holds.head_lt (by omega)
  have popped := Ring.window_pop ring.queue ring.head n
  rw [← size, holds.window, holds.cells, holds.wrapped] at popped
  have shorter : ring.dropHead.length = n := by
    simp only [dropHead]
    rw [size, show n + 1 + 2 ^ 32 - 1 = n + 2 ^ 32 by omega, Nat.add_mod_right,
      Nat.mod_eq_of_lt (by omega)]
  have moved : ring.dropHead.head = (ring.head + 1) % ring.capacity := holds.move_eq headIn
  cases waiting with
  | nil => simp at popped
  | cons task rest =>
    simp only [List.map_cons, List.cons.injEq] at popped
    obtain ⟨first, remaining⟩ := popped
    have count : rest.length + 1 = n + 1 := holds.count.trans size
    refine ⟨task, rest, rfl, by rw [RingQueue.take, ← first]; rfl, by rw [shorter, size], fits,
      holds.cells, ?_, ?_, ?_, ?_, ?_⟩
    · rw [shorter]
      exact Nat.add_right_cancel count
    · rw [shorter, dropHead_capacity]
      omega
    · rw [moved, dropHead_capacity, Nat.mod_mod]
    · rw [moved, shorter, dropHead_capacity, Nat.mod_add_mod]
      refine holds.tail.trans ?_
      rw [size, Nat.add_assoc, Nat.add_comm 1 n]
    · rw [moved, shorter]
      exact remaining.symm

theorem Holds.store_length (holds : ring.Holds waiting) (free : 1 < ring.room) (task : α) :
    (ring.store task).length = ring.length + 1 := by
  rw [holds.room_eq] at free
  have fits := holds.fits
  exact Nat.mod_eq_of_lt (by omega)

theorem Holds.room_store (holds : ring.Holds waiting) (free : 1 < ring.room) (task : α) :
    (ring.store task).room + 1 = ring.room := by
  rw [(holds.store free task).room_eq, holds.store_length free, store_capacity, holds.room_eq]
  rw [holds.room_eq] at free
  omega

theorem Holds.room_dropHead (holds : ring.Holds waiting) (some : ring.length ≠ 0) :
    ring.dropHead.room = ring.room + 1 := by
  obtain ⟨_, _, -, -, shorter, after⟩ := holds.take some
  have bound := holds.bound
  rw [after.room_eq, dropHead_capacity, holds.room_eq]
  omega

/-- A queue with a task in it has at least one free cell. -/
theorem Holds.room_pos (holds : ring.Holds waiting) (some : ring.length ≠ 0) :
    1 ≤ ring.room := by
  have bound := holds.bound
  rw [holds.room_eq]
  omega

end holds

end RingQueue

/-- A queue with the threads that use it: the producers sleep on `_cond_idel` with the task they
    are to store, the consumers on `_cond_busy`. `stored` and `returned` are not in the code: the
    tasks of all completed `put` and `get` calls, in the order of their sections. -/
structure System (α : Type*) where
  ring : RingQueue α
  producers : List (Waiter α)
  consumers : List (Waiter Unit)
  stored : List α
  returned : List α
  deriving Repr, DecidableEq

namespace System

/-- A new queue that no thread is using yet. -/
def new (null : α) (capacity producers consumers : Nat) : System α :=
  ⟨RingQueue.new null capacity, List.replicate producers .idle, List.replicate consumers .idle,
    [], []⟩

/-- The section of `put` (`taskpool.hpp:43-52`) by producer `i`, from taking the mutex to
    releasing it: the producer falls asleep (`false`), or stores and notifies (`true`). -/
def put (sys : System α) (i : Nat) (task : α) (wake : Nat) : Option (Bool × System α) :=
  if sys.ring.room ≤ 1 then
    some (false, { sys with producers := sys.producers.set i (.asleep task) })
  else
    (notifyOne sys.consumers wake).map fun consumers =>
      (true, { sys with
        ring := sys.ring.store task
        producers := sys.producers.set i .idle
        consumers := consumers
        stored := sys.stored ++ [task] })

/-- The section of `get` (`taskpool.hpp:54-66`) by consumer `i`: it falls asleep, or returns a
    task; `_cond_idel` is notified only when one place is left. -/
def get (sys : System α) (i : Nat) (wake : Nat) : Option (Option α × System α) :=
  if sys.ring.length = 0 then
    some (none, { sys with consumers := sys.consumers.set i (.asleep ()) })
  else
    (if sys.ring.room = 1 then notifyOne sys.producers wake else some sys.producers).bind
      fun producers => sys.ring.take.map fun (task, ring) =>
        (some task, { sys with
          ring := ring
          producers := producers
          consumers := sys.consumers.set i .idle
          returned := sys.returned ++ [task] })

inductive Action (α : Type*) where
  /-- producer `i` calls `put` -/
  | put (i : Nat) (task : α) (wake : Nat)
  /-- producer `i` returns from `_cond_idel.wait` and tests the room again -/
  | resumePut (i : Nat) (wake : Nat)
  /-- consumer `i` calls `get` -/
  | get (i : Nat) (wake : Nat)
  /-- consumer `i` returns from `_cond_busy.wait` and tests the length again -/
  | resumeGet (i : Nat) (wake : Nat)
  /-- a sleeping producer wakes up unnotified -/
  | spuriousPut (i : Nat)
  /-- a sleeping consumer wakes up unnotified -/
  | spuriousGet (i : Nat)

/-- The action is not a spurious wake-up. -/
def Action.notified : Action α → Bool
  | spuriousPut _ => false
  | spuriousGet _ => false
  | _ => true

def step (sys : System α) : Action α → Option (System α)
  | .put i task wake =>
    match sys.producers[i]? with
    | some .idle => (sys.put i task wake).map Prod.snd
    | _ => none
  | .resumePut i wake =>
    match sys.producers[i]? with
    | some (.woken task) => (sys.put i task wake).map Prod.snd
    | _ => none
  | .get i wake =>
    match sys.consumers[i]? with
    | some .idle => (sys.get i wake).map Prod.snd
    | _ => none
  | .resumeGet i wake =>
    match sys.consumers[i]? with
    | some (.woken _) => (sys.get i wake).map Prod.snd
    | _ => none
  | .spuriousPut i =>
    match sys.producers[i]? with
    | some (.asleep task) => some { sys with producers := sys.producers.set i (.woken task) }
    | _ => none
  | .spuriousGet i =>
    match sys.consumers[i]? with
    | some (.asleep arg) => some { sys with consumers := sys.consumers.set i (.woken arg) }
    | _ => none

/-- The task of the `put` that goes through in a step. -/
def taskPut (sys : System α) : Action α → Option α
  | .put i task wake => (sys.put i task wake).bind fun ran => if ran.1 then some task else none
  | .resumePut i wake =>
    match sys.producers[i]? with
    | some (.woken task) =>
      (sys.put i task wake).bind fun ran => if ran.1 then some task else none
    | _ => none
  | _ => none

/-- The task that the `get` of a step returns. -/
def taskGot (sys : System α) : Action α → Option α
  | .get i wake => (sys.get i wake).bind Prod.fst
  | .resumeGet i wake => (sys.get i wake).bind Prod.fst
  | _ => none

section sections

variable {sys sys' : System α} {i wake : Nat}

/-- Everything the section of `put` can do. -/
theorem put_cases {task : α} {ok : Bool} (ran : sys.put i task wake = some (ok, sys')) :
    (ok = false ∧ sys.ring.room ≤ 1 ∧
      sys' = { sys with producers := sys.producers.set i (.asleep task) }) ∨
    (ok = true ∧ 1 < sys.ring.room ∧ ∃ consumers, notifyOne sys.consumers wake = some consumers ∧
      sys' = { sys with
        ring := sys.ring.store task
        producers := sys.producers.set i .idle
        consumers := consumers
        stored := sys.stored ++ [task] }) := by
  unfold put at ran
  split at ran
  case isTrue full =>
    cases ran
    exact .inl ⟨rfl, full, rfl⟩
  case isFalse free =>
    obtain ⟨consumers, notified, result⟩ := Option.map_eq_some_iff.mp ran
    cases result
    exact .inr ⟨rfl, Nat.lt_of_not_le free, consumers, notified, rfl⟩

/-- Everything the section of `get` can do. -/
theorem get_cases {got : Option α} (ran : sys.get i wake = some (got, sys')) :
    (got = none ∧ sys.ring.length = 0 ∧
      sys' = { sys with consumers := sys.consumers.set i (.asleep ()) }) ∨
    (∃ task ring producers, got = some task ∧ sys.ring.length ≠ 0 ∧
      sys.ring.take = some (task, ring) ∧
      ((sys.ring.room = 1 ∧ notifyOne sys.producers wake = some producers) ∨
        (sys.ring.room ≠ 1 ∧ producers = sys.producers)) ∧
      sys' = { sys with
        ring := ring
        producers := producers
        consumers := sys.consumers.set i .idle
        returned := sys.returned ++ [task] }) := by
  unfold get at ran
  split at ran
  case isTrue empty =>
    cases ran
    exact .inl ⟨rfl, empty, rfl⟩
  case isFalse some =>
    obtain ⟨producers, notified, rest⟩ := Option.bind_eq_some_iff.mp ran
    obtain ⟨⟨task, ring⟩, taken, result⟩ := Option.map_eq_some_iff.mp rest
    cases result
    refine .inr ⟨task, ring, producers, rfl, some, taken, ?_, rfl⟩
    split at notified
    case isTrue full => exact .inl ⟨full, notified⟩
    case isFalse free =>
      cases notified
      exact .inr ⟨free, rfl⟩

/-- Every step is a section of `put` or `get` by a thread outside a wait, or wakes a thread. -/
theorem step_cases {action : Action α} (stepped : sys.step action = some sys') :
    (∃ i task wake before ok, sys.producers[i]? = some before ∧
      (before = .idle ∨ before = .woken task) ∧ sys.put i task wake = some (ok, sys')) ∨
    (∃ i wake before got, sys.consumers[i]? = some before ∧
      (before = .idle ∨ before = .woken ()) ∧ sys.get i wake = some (got, sys')) ∨
    (action.notified = false ∧ ∃ i task, sys.producers[i]? = some (.asleep task) ∧
      sys' = { sys with producers := sys.producers.set i (.woken task) }) ∨
    (action.notified = false ∧ ∃ i, sys.consumers[i]? = some (.asleep ()) ∧
      sys' = { sys with consumers := sys.consumers.set i (.woken ()) }) := by
  cases action with
  | put i task wake =>
    simp only [step] at stepped
    split at stepped
    case h_1 found =>
      obtain ⟨⟨ok, _⟩, ran, rfl⟩ := Option.map_eq_some_iff.mp stepped
      exact .inl ⟨i, task, wake, _, ok, found, .inl rfl, ran⟩
    case h_2 => cases stepped
  | resumePut i wake =>
    simp only [step] at stepped
    split at stepped
    case h_1 task found =>
      obtain ⟨⟨ok, _⟩, ran, rfl⟩ := Option.map_eq_some_iff.mp stepped
      exact .inl ⟨i, task, wake, _, ok, found, .inr rfl, ran⟩
    case h_2 => cases stepped
  | get i wake =>
    simp only [step] at stepped
    split at stepped
    case h_1 found =>
      obtain ⟨⟨got, _⟩, ran, rfl⟩ := Option.map_eq_some_iff.mp stepped
      exact .inr (.inl ⟨i, wake, _, got, found, .inl rfl, ran⟩)
    case h_2 => cases stepped
  | resumeGet i wake =>
    simp only [step] at stepped
    split at stepped
    case h_1 found =>
      obtain ⟨⟨got, _⟩, ran, rfl⟩ := Option.map_eq_some_iff.mp stepped
      exact .inr (.inl ⟨i, wake, _, got, found, .inr rfl, ran⟩)
    case h_2 => cases stepped
  | spuriousPut i =>
    simp only [step] at stepped
    split at stepped
    case h_1 task found =>
      cases stepped
      exact .inr (.inr (.inl ⟨rfl, i, task, found, rfl⟩))
    case h_2 => cases stepped
  | spuriousGet i =>
    simp only [step] at stepped
    split at stepped
    case h_1 found =>
      cases stepped
      exact .inr (.inr (.inr ⟨rfl, i, found, rfl⟩))
    case h_2 => cases stepped

/-- The section of `put` appends its task to `stored` when it goes through. -/
theorem put_stored {task : α} {ok : Bool} (ran : sys.put i task wake = some (ok, sys')) :
    sys'.stored = sys.stored ++ (if ok then [task] else []) ∧ sys'.returned = sys.returned := by
  rcases put_cases ran with ⟨rfl, -, rfl⟩ | ⟨rfl, -, _, -, rfl⟩
  · exact ⟨(List.append_nil _).symm, rfl⟩
  · exact ⟨rfl, rfl⟩

/-- The section of `get` appends what it returns to `returned`. -/
theorem get_returned {got : Option α} (ran : sys.get i wake = some (got, sys')) :
    sys'.returned = sys.returned ++ got.toList ∧ sys'.stored = sys.stored := by
  rcases get_cases ran with ⟨rfl, -, rfl⟩ | ⟨_, _, _, rfl, -, -, -, rfl⟩
  · exact ⟨(List.append_nil _).symm, rfl⟩
  · exact ⟨rfl, rfl⟩

theorem put_log {task : α} {ok : Bool} (ran : sys.put i task wake = some (ok, sys')) :
    sys'.stored = sys.stored ++
        ((sys.put i task wake).bind fun ran => if ran.1 then some task else none).toList ∧
      sys'.returned = sys.returned ++ (none : Option α).toList := by
  obtain ⟨stored, returned⟩ := put_stored ran
  rw [ran, Option.bind_some]
  refine ⟨stored.trans ?_, returned.trans (List.append_nil _).symm⟩
  cases ok with
  | true => rfl
  | false => rfl

theorem get_log {got : Option α} (ran : sys.get i wake = some (got, sys')) :
    sys'.stored = sys.stored ++ (none : Option α).toList ∧
      sys'.returned = sys.returned ++ ((sys.get i wake).bind Prod.fst).toList := by
  obtain ⟨returned, stored⟩ := get_returned ran
  rw [ran]
  exact ⟨stored.trans (List.append_nil _).symm, returned⟩

/-- What a step adds to the two logs is what its `put` stores and what its `get` returns. -/
theorem step_log {action : Action α} (stepped : sys.step action = some sys') :
    sys'.stored = sys.stored ++ (sys.taskPut action).toList ∧
      sys'.returned = sys.returned ++ (sys.taskGot action).toList := by
  cases action with
  | put i task wake =>
    simp only [step] at stepped
    split at stepped
    case h_1 =>
      obtain ⟨⟨_, _⟩, ran, rfl⟩ := Option.map_eq_some_iff.mp stepped
      exact put_log ran
    case h_2 => cases stepped
  | resumePut i wake =>
    simp only [step] at stepped
    split at stepped
    case h_1 task found =>
      obtain ⟨⟨_, _⟩, ran, rfl⟩ := Option.map_eq_some_iff.mp stepped
      simp only [taskPut, found]
      exact put_log ran
    case h_2 => cases stepped
  | get i wake =>
    simp only [step] at stepped
    split at stepped
    case h_1 =>
      obtain ⟨⟨_, _⟩, ran, rfl⟩ := Option.map_eq_some_iff.mp stepped
      exact get_log ran
    case h_2 => cases stepped
  | resumeGet i wake =>
    simp only [step] at stepped
    split at stepped
    case h_1 =>
      obtain ⟨⟨_, _⟩, ran, rfl⟩ := Option.map_eq_some_iff.mp stepped
      exact get_log ran
    case h_2 => cases stepped
  | spuriousPut i =>
    simp only [step] at stepped
    split at stepped
    case h_1 =>
      cases stepped
      exact ⟨(List.append_nil _).symm, (List.append_nil _).symm⟩
    case h_2 => cases stepped
  | spuriousGet i =>
    simp only [step] at stepped
    split at stepped
    case h_1 =>
      cases stepped
      exact ⟨(List.append_nil _).symm, (List.append_nil _).symm⟩
    case h_2 => cases stepped

end sections

/-- The queue holds the tasks `waiting`: those stored and not yet returned. -/
structure Fifo (sys : System α) (waiting : List α) : Prop where
  ring : sys.ring.Holds waiting
  stored : sys.stored = sys.returned ++ waiting

theorem Fifo.new (null : α) {capacity : Nat} (fits : capacity < 2 ^ 32) (producers consumers : Nat) :
    (System.new null capacity producers consumers).Fifo [] :=
  ⟨.new null fits, rfl⟩

section fifo

variable {sys sys' : System α} {waiting : List α} {i wake : Nat}

/-- The section of `put` appends its task or changes nothing in the queue. -/
theorem Fifo.put {task : α} {ok : Bool} (fifo : sys.Fifo waiting)
    (ran : sys.put i task wake = some (ok, sys')) :
    sys'.Fifo (if ok then waiting ++ [task] else waiting) := by
  rcases put_cases ran with ⟨rfl, -, rfl⟩ | ⟨rfl, free, consumers, -, rfl⟩
  · exact ⟨fifo.ring, fifo.stored⟩
  · refine ⟨fifo.ring.store free task, ?_⟩
    simp only [fifo.stored, List.append_assoc, if_true]

/-- The section of `get` returns the first task, or finds the queue empty. -/
theorem Fifo.get {got : Option α} (fifo : sys.Fifo waiting)
    (ran : sys.get i wake = some (got, sys')) :
    waiting = got.toList ++ waiting.drop got.toList.length ∧
      sys'.Fifo (waiting.drop got.toList.length) ∧ (got = none → waiting = []) := by
  rcases get_cases ran with ⟨rfl, empty, rfl⟩ |
    ⟨task, ring, producers, rfl, some, taken, -, rfl⟩
  · have none : waiting = [] := List.eq_nil_of_length_eq_zero (fifo.ring.count.trans empty)
    exact ⟨rfl, ⟨fifo.ring, fifo.stored⟩, fun _ => none⟩
  · obtain ⟨first, rest, rfl, took, -, holds⟩ := fifo.ring.take some
    rw [taken] at took
    cases took
    refine ⟨rfl, ⟨holds, ?_⟩, fun absurd => nomatch absurd⟩
    simp only [fifo.stored, List.append_assoc]
    rfl

/-- `put` waits while there is no room. -/
theorem put_full (i : Nat) (task : α) (full : sys.ring.room ≤ 1) :
    sys.put i task wake =
      some (false, { sys with producers := sys.producers.set i (.asleep task) }) := by
  rw [System.put, if_pos full]

/-- `put` goes through when there is room. -/
theorem put_eq (i : Nat) (task : α) {consumers : List (Waiter Unit)} (free : 1 < sys.ring.room)
    (notified : notifyOne sys.consumers wake = some consumers) :
    sys.put i task wake = some (true, { sys with
      ring := sys.ring.store task
      producers := sys.producers.set i .idle
      consumers := consumers
      stored := sys.stored ++ [task] }) := by
  rw [System.put, if_neg (Nat.not_le_of_lt free), notified]
  rfl

/-- `get` goes through when there is a task. -/
theorem Fifo.get_eq (i wake : Nat) {producers : List (Waiter α)} (fifo : sys.Fifo waiting)
    (some : sys.ring.length ≠ 0)
    (notified : (if sys.ring.room = 1 then notifyOne sys.producers wake
      else .some sys.producers) = .some producers) :
    ∃ task rest, waiting = task :: rest ∧ sys.get i wake = .some (.some task, { sys with
      ring := sys.ring.dropHead
      producers := producers
      consumers := sys.consumers.set i .idle
      returned := sys.returned ++ [task] }) := by
  obtain ⟨task, rest, first, took, -, -⟩ := fifo.ring.take some
  refine ⟨task, rest, first, ?_⟩
  rw [System.get, if_neg some, notified, took]
  rfl

/-- Whoever is chosen to be woken, some section of `put` is possible. -/
theorem exists_put (sys : System α) (i : Nat) (task : α) :
    ∃ wake ok sys', sys.put i task wake = some (ok, sys') := by
  by_cases full : sys.ring.room ≤ 1
  · exact ⟨0, _, _, put_full i task full⟩
  · obtain ⟨wake, consumers, notified⟩ := exists_notifyOne sys.consumers
    exact ⟨wake, _, _, put_eq i task (Nat.lt_of_not_le full) notified⟩

theorem Fifo.exists_get (fifo : sys.Fifo waiting) (i : Nat) :
    ∃ wake got sys', sys.get i wake = some (got, sys') := by
  by_cases empty : sys.ring.length = 0
  · exact ⟨0, none, _, by rw [System.get, if_pos empty]⟩
  · obtain ⟨wake, producers, notified⟩ := exists_notifyOne sys.producers
    by_cases full : sys.ring.room = 1
    · obtain ⟨task, -, -, ran⟩ :=
        fifo.get_eq i wake empty (by rw [if_pos full]; exact notified)
      exact ⟨wake, some task, _, ran⟩
    · obtain ⟨task, -, -, ran⟩ := fifo.get_eq i 0 empty (by rw [if_neg full])
      exact ⟨0, some task, _, ran⟩

/-- One step keeps the queue's contents in order. -/
theorem Fifo.step {action : Action α} (fifo : sys.Fifo waiting)
    (stepped : sys.step action = some sys') : ∃ waiting', sys'.Fifo waiting' := by
  rcases step_cases stepped with ⟨_, _, _, _, _, -, -, ran⟩ | ⟨_, _, _, _, -, -, ran⟩ |
    ⟨-, _, _, -, rfl⟩ | ⟨-, _, -, rfl⟩
  · exact ⟨_, fifo.put ran⟩
  · exact ⟨_, (fifo.get ran).2.1⟩
  · exact ⟨waiting, fifo.ring, fifo.stored⟩
  · exact ⟨waiting, fifo.ring, fifo.stored⟩

end fifo

/-- What no step changes: the capacity and the numbers of threads. -/
structure Sized (capacity producers consumers : Nat) (sys : System α) : Prop where
  capacity : sys.ring.capacity = capacity
  producers : sys.producers.length = producers
  consumers : sys.consumers.length = consumers

section sized

variable {sys sys' : System α} {capacity producers consumers i wake : Nat}

theorem Sized.new (null : α) :
    Sized capacity producers consumers (System.new null capacity producers consumers) :=
  ⟨rfl, List.length_replicate, List.length_replicate⟩

theorem Sized.put {task : α} {ok : Bool} (sized : Sized capacity producers consumers sys)
    (ran : sys.put i task wake = some (ok, sys')) : Sized capacity producers consumers sys' := by
  rcases put_cases ran with ⟨-, -, rfl⟩ | ⟨-, -, threads, notified, rfl⟩
  · exact ⟨sized.capacity, List.length_set.trans sized.producers, sized.consumers⟩
  · exact ⟨sized.capacity, List.length_set.trans sized.producers,
      (notifyOne_length notified).trans sized.consumers⟩

theorem take_capacity {ring ring' : RingQueue α} {task : α}
    (taken : ring.take = some (task, ring')) : ring'.capacity = ring.capacity := by
  obtain ⟨_, -, result⟩ := Option.map_eq_some_iff.mp taken
  cases result
  rfl

theorem Sized.get {got : Option α} (sized : Sized capacity producers consumers sys)
    (ran : sys.get i wake = some (got, sys')) : Sized capacity producers consumers sys' := by
  rcases get_cases ran with ⟨-, -, rfl⟩ | ⟨task, ring, threads, -, -, taken, notified, rfl⟩
  · exact ⟨sized.capacity, sized.producers, List.length_set.trans sized.consumers⟩
  · have same : threads.length = sys.producers.length := by
      rcases notified with ⟨-, notified⟩ | ⟨-, rfl⟩
      · exact notifyOne_length notified
      · rfl
    exact ⟨(take_capacity taken).trans sized.capacity, same.trans sized.producers,
      List.length_set.trans sized.consumers⟩

theorem Sized.step {action : Action α} (sized : Sized capacity producers consumers sys)
    (stepped : sys.step action = some sys') : Sized capacity producers consumers sys' := by
  rcases step_cases stepped with ⟨_, _, _, _, _, -, -, ran⟩ | ⟨_, _, _, _, -, -, ran⟩ |
    ⟨-, _, _, -, rfl⟩ | ⟨-, _, -, rfl⟩
  · exact sized.put ran
  · exact sized.get ran
  · exact ⟨sized.capacity, List.length_set.trans sized.producers, sized.consumers⟩
  · exact ⟨sized.capacity, sized.producers, List.length_set.trans sized.consumers⟩

end sized

/-- Whatever the interleaving, and spurious wake-ups included, `stored` and `returned` are the tasks
    of the calls of `put` and `get` that went through, the tasks returned are the beginning of the
    tasks stored, and the cells from `_head` hold the others in order. -/
theorem run_fifo (null : α) {capacity producers consumers : Nat} (fits : capacity < 2 ^ 32)
    {actions : List (Action α)} {t : System α}
    (done : run step (System.new null capacity producers consumers) actions = some t) :
    t.stored = collect step taskPut (System.new null capacity producers consumers) actions ∧
      t.returned = collect step taskGot (System.new null capacity producers consumers) actions ∧
      t.returned <+: t.stored ∧ t.ring.length ≤ capacity - 1 ∧
      t.ring.tail = (t.ring.head + t.ring.length) % capacity ∧
      ∃ waiting, t.stored = t.returned ++ waiting ∧
        Ring.window t.ring.queue t.ring.head t.ring.length = waiting.map some := by
  have preserved := run_preserves
    (P := fun sys => Sized capacity producers consumers sys ∧ ∃ waiting, sys.Fifo waiting)
    (fun s action s' inv stepped =>
      ⟨inv.1.step stepped, inv.2.elim fun _ fifo => fifo.step stepped⟩)
    ⟨.new null, [], .new null fits producers consumers⟩ done
  obtain ⟨sized, waiting, fifo⟩ := preserved
  have stored := run_collect (fun _ _ _ stepped => (step_log stepped).1) done
  have returned := run_collect (fun _ _ _ stepped => (step_log stepped).2) done
  have bound := fifo.ring.bound
  have tail := fifo.ring.tail
  rw [sized.capacity] at bound tail
  exact ⟨stored, returned, ⟨waiting, fifo.stored.symm⟩, bound, tail, waiting, fifo.stored,
    fifo.ring.window⟩

/-- Two producers and two consumers of three cells. The first producer finds the queue full, is
    woken by a `get` and stores after all, and the last task goes into the first cell again. -/
def crowded : List (Action Nat) :=
  [.put 0 7 0, .put 1 8 0, .put 0 9 0, .get 0 0, .resumePut 0 0, .get 1 0, .put 1 10 0, .get 0 0]

theorem run_fifo_crowded :
    ∃ t, run step (System.new 0 3 2 2) crowded = some t ∧
      t.stored = [7, 8, 9, 10] ∧ t.returned = [7, 8, 9] ∧
      t.returned <+: t.stored ∧ t.ring.length ≤ 3 - 1 ∧
      t.ring.tail = (t.ring.head + t.ring.length) % 3 ∧
      ∃ waiting, t.stored = t.returned ++ waiting ∧
        Ring.window t.ring.queue t.ring.head t.ring.length = waiting.map some := by
  obtain ⟨t, done⟩ : ∃ t, run step (System.new 0 3 2 2) crowded = some t :=
    Option.isSome_iff_exists.mp (by decide +kernel)
  obtain ⟨stored, returned, rest⟩ := run_fifo 0 (by decide) done
  have puts : collect step taskPut (System.new 0 3 2 2) crowded = [7, 8, 9, 10] := by
    decide +kernel
  have gets : collect step taskGot (System.new 0 3 2 2) crowded = [7, 8, 9] := by decide +kernel
  exact ⟨t, done, stored.trans puts, returned.trans gets, rest⟩

end System

end CviRuntime.Concurrency
