import CviRuntime.Concurrency.Wakeup
import CviRuntime.Runtime.TaskPool

/-!
# The threads of the task pool (`src/common/taskpool.cpp`)

The pool with every thread that uses it: the clients in `startPool`, `addTask` and `waitTask`,
the workers in `workFunc` and the thread in `~TaskPool`. A thread's program counter names the
statement it is about to execute; a step executes one statement, or one section under a mutex.
Tasks are known by number, and the null pointer that ends a worker's wait is `none`.
-/

namespace CviRuntime.Concurrency

open CondVar Run CviRuntime.Runtime

/-- A worker in `TaskPool::workFunc` (`taskpool.cpp:45-57`). -/
inductive Worker where
  /-- created, about to set `_started` -/
  | fresh
  /-- about to test `_done` -/
  | polling
  /-- in `_queue.get()` -/
  | getting
  /-- about to call `forward` -/
  | took (task : Nat)
  | running (task : Nat)
  /-- `forward` has returned, `retCode` is still to be set -/
  | returned (task : Nat) (value : Bool)
  /-- `retCode` is set, `notify_all` still to be called -/
  | notifying
  | exited
  deriving Repr, DecidableEq

/-- A client of the pool: `Program::forwardAsync` calls `startPool` and `addTask`,
    `Program::forwardWait` calls `waitTask` (`program.cpp:320-330`). -/
inductive Client where
  | idle
  /-- `startPool`: about to test `_started` -/
  | testing
  /-- found `_started` false, about to take `_mutex` -/
  | locking
  /-- holds `_mutex`, with this many threads still to create -/
  | spawning (left : Nat)
  /-- `while (!_started)` -/
  | spinning
  /-- about to make the `Task` -/
  | submitting
  /-- in `addTask` with the task -/
  | adding (task : Nat)
  /-- in `waitTask`, about to take `_mutex` and test `retCode` -/
  | waiting (task : Nat)
  /-- asleep on `_cond_feedback` -/
  | asleep (task : Nat)
  deriving Repr, DecidableEq

/-- What `_cond_feedback.notify_all()` makes of a client. -/
def Client.wake : Client → Client
  | asleep task => waiting task
  | other => other

/-- The thread in `~TaskPool` (`taskpool.cpp:18-30`). -/
inductive Destructor where
  | absent
  /-- about to test `_started` -/
  | begun
  /-- about to set `_done` -/
  | settingDone
  /-- with this many terminate markers still to put -/
  | putting (left : Nat)
  /-- about to join this thread -/
  | joining (thread : Nat)
  | finished
  deriving Repr, DecidableEq

/-- `TaskPool` (`taskpool.hpp:85-108`) and its threads. `sys` is the queue: producer 0 is the
    destructor, producer `c + 1` client `c`, consumer `w` worker `w`. `holder` is the client that
    holds `_mutex` in `startPool`; the other sections under `_mutex` are single steps. The last
    four fields are not in the code: the tasks whose `forward` was called and has returned, the
    tasks `waitTask` returned for, and how often `startPool` found `_started` false. -/
structure Pool where
  size : Nat
  started : Bool
  done : Bool
  holder : Option Nat
  sys : System (Option Nat)
  retCodes : List Int
  workers : List Worker
  clients : List Client
  destructor : Destructor
  called : List Nat
  finished : List Nat
  waited : List Nat
  passed : Nat
  deriving Repr, DecidableEq

namespace Pool

/-- The constructor (`taskpool.hpp:87-89`), before any of the clients calls the pool. -/
def new (size clients : Nat) : Pool where
  size := size
  started := false
  done := false
  holder := none
  sys := System.new none (size * 4) (clients + 1) 0
  retCodes := []
  workers := []
  clients := List.replicate clients .idle
  destructor := .absent
  called := []
  finished := []
  waited := []
  passed := 0

inductive Action where
  /-- client `c` calls `forwardAsync` -/
  | call (c : Nat)
  /-- `if (_started) return` -/
  | test (c : Nat)
  | lock (c : Nat)
  /-- one round of the loop that creates the threads, or its end -/
  | spawn (c : Nat)
  /-- the end of `while (!_started)` -/
  | spin (c : Nat)
  /-- `new Task` -/
  | create (c : Nat)
  /-- the section of `put` in `addTask` -/
  | add (c wake : Nat)
  /-- client `c` calls `waitTask` -/
  | wait (c task : Nat)
  /-- the section of `waitTask` up to its end or to the wait -/
  | check (c : Nat)
  /-- `_started = true` -/
  | start (w : Nat)
  /-- `while (!_done)` -/
  | poll (w : Nat)
  /-- the section of `get` -/
  | get (w wake : Nat)
  | forward (w : Nat)
  /-- `forward` returns `value` -/
  | ret (w : Nat) (value : Bool)
  /-- `task->retCode = ...` -/
  | publish (w : Nat)
  /-- `notify_all` under `_mutex` -/
  | notify (w : Nat)
  /-- `~TaskPool` begins -/
  | destroy
  /-- `if (_started)` of `~TaskPool` -/
  | testStarted
  | setDone
  /-- one `addTerminateTask`, or the end of the loop -/
  | terminate (wake : Nat)
  /-- one `join`, or the end of the loop -/
  | join
  /-- producer `i` of the queue wakes up unnotified -/
  | spuriousAdd (i : Nat)
  /-- worker `w` wakes up unnotified -/
  | spuriousGet (w : Nat)
  /-- client `c` wakes up unnotified in `waitTask` -/
  | spuriousWait (c : Nat)
  deriving Repr, DecidableEq

/-- Steps inside `startPool`, `workFunc` and `~TaskPool`: not the clients' calls, and not the
    spurious wake-ups. -/
def Action.internal : Action → Bool
  | test _ | lock _ | spawn _ | spin _ => true
  | start _ | poll _ | get _ _ | forward _ | ret _ _ | publish _ | notify _ => true
  | testStarted | setDone | terminate _ | join => true
  | _ => false

/-- Steps of the workers. -/
def Action.byWorker : Action → Bool
  | start _ | poll _ | get _ _ | forward _ | ret _ _ | publish _ | notify _ => true
  | _ => false

theorem Action.internal_of_byWorker {action : Action} (worker : action.byWorker = true) :
    action.internal = true := by
  cases action <;> first | rfl | simp [byWorker] at worker

/-- Where a worker goes with what `get` returned; it stays in `get` while it sleeps. -/
def afterGet : Option (Option Nat) → Worker
  | none => .getting
  | some none => .polling
  | some (some task) => .took task

def step (s : Pool) : Action → Option Pool
  | .call c =>
    if s.clients[c]? = some .idle ∧ s.destructor = .absent then
      some { s with clients := s.clients.set c .testing }
    else none
  | .test c =>
    if s.clients[c]? = some .testing then
      if s.started then some { s with clients := s.clients.set c .submitting }
      else some { s with clients := s.clients.set c .locking, passed := s.passed + 1 }
    else none
  | .lock c =>
    if s.clients[c]? = some .locking ∧ s.holder = none then
      some { s with clients := s.clients.set c (.spawning s.size), holder := some c }
    else none
  | .spawn c =>
    match s.clients[c]? with
    | some (.spawning (left + 1)) => some { s with
        clients := s.clients.set c (.spawning left)
        workers := s.workers ++ [.fresh]
        sys := { s.sys with consumers := s.sys.consumers ++ [.idle] } }
    | some (.spawning 0) => some { s with clients := s.clients.set c .spinning }
    | _ => none
  | .spin c =>
    if s.clients[c]? = some .spinning ∧ s.started = true then
      some { s with clients := s.clients.set c .submitting, holder := none }
    else none
  | .create c =>
    if s.clients[c]? = some .submitting then
      some { s with
        clients := s.clients.set c (.adding s.retCodes.length)
        retCodes := s.retCodes ++ [cviRcUninit] }
    else none
  | .add c wake =>
    match s.clients[c]?, s.sys.producers[c + 1]? with
    | some (.adding task), some thread =>
      if thread.isAsleep then none else
      (s.sys.put (c + 1) (some task) wake).map fun (stored, sys) =>
        { s with sys := sys, clients := s.clients.set c (if stored then .idle else .adding task) }
    | _, _ => none
  | .wait c task =>
    if s.clients[c]? = some .idle ∧ s.destructor = .absent ∧ task < s.retCodes.length then
      some { s with clients := s.clients.set c (.waiting task) }
    else none
  | .check c =>
    match s.clients[c]?, s.holder with
    | some (.waiting task), none =>
      if s.retCodes[task]? = some cviRcUninit then
        some { s with clients := s.clients.set c (.asleep task) }
      else some { s with clients := s.clients.set c .idle, waited := s.waited ++ [task] }
    | _, _ => none
  | .start w =>
    if s.workers[w]? = some .fresh then
      some { s with workers := s.workers.set w .polling, started := true }
    else none
  | .poll w =>
    if s.workers[w]? = some .polling then
      some { s with workers := s.workers.set w (if s.done then .exited else .getting) }
    else none
  | .get w wake =>
    match s.workers[w]?, s.sys.consumers[w]? with
    | some .getting, some thread =>
      if thread.isAsleep then none else
      (s.sys.get w wake).map fun (got, sys) =>
        { s with sys := sys, workers := s.workers.set w (afterGet got) }
    | _, _ => none
  | .forward w =>
    match s.workers[w]? with
    | some (.took task) => some { s with
        workers := s.workers.set w (.running task), called := s.called ++ [task] }
    | _ => none
  | .ret w value =>
    match s.workers[w]? with
    | some (.running task) => some { s with
        workers := s.workers.set w (.returned task value), finished := s.finished ++ [task] }
    | _ => none
  | .publish w =>
    match s.workers[w]? with
    | some (.returned task value) => some { s with
        workers := s.workers.set w .notifying
        retCodes := s.retCodes.set task (TaskPool.rcOfBool value) }
    | _ => none
  | .notify w =>
    if s.workers[w]? = some .notifying ∧ s.holder = none then
      some { s with workers := s.workers.set w .polling, clients := s.clients.map Client.wake }
    else none
  | .destroy =>
    if s.destructor = .absent ∧ ∀ client ∈ s.clients, client = .idle then
      some { s with destructor := .begun }
    else none
  | .testStarted =>
    if s.destructor = .begun then
      some { s with destructor := if s.started then .settingDone else .finished }
    else none
  | .setDone =>
    if s.destructor = .settingDone then
      some { s with done := true, destructor := .putting s.size }
    else none
  | .terminate wake =>
    match s.destructor, s.sys.producers[0]? with
    | .putting (left + 1), some thread =>
      if thread.isAsleep then none else
      (s.sys.put 0 none wake).map fun (stored, sys) =>
        { s with sys := sys, destructor := .putting (if stored then left else left + 1) }
    | .putting 0, _ => some { s with destructor := .joining 0 }
    | _, _ => none
  | .join =>
    match s.destructor with
    | .joining thread =>
      match s.workers[thread]? with
      | some .exited => some { s with destructor := .joining (thread + 1) }
      | some _ => none
      | none => some { s with destructor := .finished }
    | _ => none
  | .spuriousAdd i =>
    match s.sys.producers[i]? with
    | some (.asleep task) => some { s with
        sys := { s.sys with producers := s.sys.producers.set i (.woken task) } }
    | _ => none
  | .spuriousGet w =>
    match s.sys.consumers[w]? with
    | some (.asleep arg) => some { s with
        sys := { s.sys with consumers := s.sys.consumers.set w (.woken arg) } }
    | _ => none
  | .spuriousWait c =>
    match s.clients[c]? with
    | some (.asleep task) => some { s with clients := s.clients.set c (.waiting task) }
    | _ => none

/-- Everything a step can do, one constructor for each way through a statement. -/
inductive Step (s : Pool) : Action → Pool → Prop
  | call {c} (found : s.clients[c]? = some .idle) (alive : s.destructor = .absent) :
    Step s (.call c) { s with clients := s.clients.set c .testing }
  | testTrue {c} (found : s.clients[c]? = some .testing) (started : s.started = true) :
    Step s (.test c) { s with clients := s.clients.set c .submitting }
  | testFalse {c} (found : s.clients[c]? = some .testing) (started : s.started = false) :
    Step s (.test c) { s with clients := s.clients.set c .locking, passed := s.passed + 1 }
  | lock {c} (found : s.clients[c]? = some .locking) (free : s.holder = none) :
    Step s (.lock c) { s with clients := s.clients.set c (.spawning s.size), holder := some c }
  | spawn {c left} (found : s.clients[c]? = some (.spawning (left + 1))) :
    Step s (.spawn c) { s with
      clients := s.clients.set c (.spawning left)
      workers := s.workers ++ [.fresh]
      sys := { s.sys with consumers := s.sys.consumers ++ [.idle] } }
  | spawned {c} (found : s.clients[c]? = some (.spawning 0)) :
    Step s (.spawn c) { s with clients := s.clients.set c .spinning }
  | spin {c} (found : s.clients[c]? = some .spinning) (started : s.started = true) :
    Step s (.spin c) { s with clients := s.clients.set c .submitting, holder := none }
  | create {c} (found : s.clients[c]? = some .submitting) :
    Step s (.create c) { s with
      clients := s.clients.set c (.adding s.retCodes.length)
      retCodes := s.retCodes ++ [cviRcUninit] }
  | add {c wake task thread stored sys} (found : s.clients[c]? = some (.adding task))
      (slot : s.sys.producers[c + 1]? = some thread) (awake : thread.isAsleep = false)
      (ran : s.sys.put (c + 1) (some task) wake = some (stored, sys)) :
    Step s (.add c wake) { s with
      sys := sys, clients := s.clients.set c (if stored then .idle else .adding task) }
  | wait {c task} (found : s.clients[c]? = some .idle) (alive : s.destructor = .absent)
      (known : task < s.retCodes.length) :
    Step s (.wait c task) { s with clients := s.clients.set c (.waiting task) }
  | sleep {c task} (found : s.clients[c]? = some (.waiting task)) (free : s.holder = none)
      (unset : s.retCodes[task]? = some cviRcUninit) :
    Step s (.check c) { s with clients := s.clients.set c (.asleep task) }
  | waited {c task} (found : s.clients[c]? = some (.waiting task)) (free : s.holder = none)
      (set : s.retCodes[task]? ≠ some cviRcUninit) :
    Step s (.check c) { s with clients := s.clients.set c .idle, waited := s.waited ++ [task] }
  | start {w} (found : s.workers[w]? = some .fresh) :
    Step s (.start w) { s with workers := s.workers.set w .polling, started := true }
  | poll {w} (found : s.workers[w]? = some .polling) (going : s.done = false) :
    Step s (.poll w) { s with workers := s.workers.set w .getting }
  | leave {w} (found : s.workers[w]? = some .polling) (done : s.done = true) :
    Step s (.poll w) { s with workers := s.workers.set w .exited }
  | get {w wake thread got sys} (found : s.workers[w]? = some .getting)
      (slot : s.sys.consumers[w]? = some thread) (awake : thread.isAsleep = false)
      (ran : s.sys.get w wake = some (got, sys)) :
    Step s (.get w wake) { s with sys := sys, workers := s.workers.set w (afterGet got) }
  | forward {w task} (found : s.workers[w]? = some (.took task)) :
    Step s (.forward w) { s with
      workers := s.workers.set w (.running task), called := s.called ++ [task] }
  | ret {w task value} (found : s.workers[w]? = some (.running task)) :
    Step s (.ret w value) { s with
      workers := s.workers.set w (.returned task value), finished := s.finished ++ [task] }
  | publish {w task value} (found : s.workers[w]? = some (.returned task value)) :
    Step s (.publish w) { s with
      workers := s.workers.set w .notifying
      retCodes := s.retCodes.set task (TaskPool.rcOfBool value) }
  | notify {w} (found : s.workers[w]? = some .notifying) (free : s.holder = none) :
    Step s (.notify w) { s with
      workers := s.workers.set w .polling, clients := s.clients.map Client.wake }
  | destroy (alive : s.destructor = .absent) (idle : ∀ client ∈ s.clients, client = .idle) :
    Step s .destroy { s with destructor := .begun }
  | testStarted (found : s.destructor = .begun) (started : s.started = true) :
    Step s .testStarted { s with destructor := .settingDone }
  | testUnstarted (found : s.destructor = .begun) (started : s.started = false) :
    Step s .testStarted { s with destructor := .finished }
  | setDone (found : s.destructor = .settingDone) :
    Step s .setDone { s with done := true, destructor := .putting s.size }
  | terminate {wake left thread stored sys} (found : s.destructor = .putting (left + 1))
      (slot : s.sys.producers[0]? = some thread) (awake : thread.isAsleep = false)
      (ran : s.sys.put 0 none wake = some (stored, sys)) :
    Step s (.terminate wake) { s with
      sys := sys, destructor := .putting (if stored then left else left + 1) }
  | terminated {wake} (found : s.destructor = .putting 0) :
    Step s (.terminate wake) { s with destructor := .joining 0 }
  | join {thread} (found : s.destructor = .joining thread)
      (exited : s.workers[thread]? = some .exited) :
    Step s .join { s with destructor := .joining (thread + 1) }
  | joined {thread} (found : s.destructor = .joining thread) (none : s.workers[thread]? = none) :
    Step s .join { s with destructor := .finished }
  | spuriousAdd {i task} (found : s.sys.producers[i]? = some (.asleep task)) :
    Step s (.spuriousAdd i) { s with
      sys := { s.sys with producers := s.sys.producers.set i (.woken task) } }
  | spuriousGet {w} (found : s.sys.consumers[w]? = some (.asleep ())) :
    Step s (.spuriousGet w) { s with
      sys := { s.sys with consumers := s.sys.consumers.set w (.woken ()) } }
  | spuriousWait {c task} (found : s.clients[c]? = some (.asleep task)) :
    Step s (.spuriousWait c) { s with clients := s.clients.set c (.waiting task) }

theorem step_sound {s s' : Pool} {action : Action} (stepped : s.step action = some s') :
    Step s action s' := by
  cases action <;> simp only [step] at stepped
  case call c =>
    split at stepped <;> cases stepped
    exact .call ‹_ ∧ _›.1 ‹_ ∧ _›.2
  case test c =>
    split at stepped
    · split at stepped <;> cases stepped
      · exact .testTrue ‹_› ‹_›
      · exact .testFalse ‹_› (Bool.eq_false_of_not_eq_true ‹_›)
    · cases stepped
  case lock c =>
    split at stepped <;> cases stepped
    exact .lock ‹_ ∧ _›.1 ‹_ ∧ _›.2
  case spawn c =>
    split at stepped <;> cases stepped
    · exact .spawn ‹_›
    · exact .spawned ‹_›
  case spin c =>
    split at stepped <;> cases stepped
    exact .spin ‹_ ∧ _›.1 ‹_ ∧ _›.2
  case create c =>
    split at stepped <;> cases stepped
    exact .create ‹_›
  case add c wake =>
    split at stepped
    · split at stepped
      · cases stepped
      · obtain ⟨⟨stored, sys⟩, ran, rfl⟩ := Option.map_eq_some_iff.mp stepped
        exact .add ‹_› ‹_› (Bool.eq_false_of_not_eq_true ‹_›) ran
    · cases stepped
  case wait c task =>
    split at stepped <;> cases stepped
    exact .wait ‹_ ∧ _ ∧ _›.1 ‹_ ∧ _ ∧ _›.2.1 ‹_ ∧ _ ∧ _›.2.2
  case check c =>
    split at stepped
    · split at stepped <;> cases stepped
      · exact .sleep ‹_› ‹_› ‹_›
      · exact .waited ‹_› ‹_› ‹_›
    · cases stepped
  case start w =>
    split at stepped <;> cases stepped
    exact .start ‹_›
  case poll w =>
    split at stepped
    · cases stepped
      by_cases done : s.done = true
      · rw [if_pos done]
        exact .leave ‹_› done
      · rw [if_neg done]
        exact .poll ‹_› (Bool.eq_false_of_not_eq_true done)
    · cases stepped
  case get w wake =>
    split at stepped
    · split at stepped
      · cases stepped
      · obtain ⟨⟨got, sys⟩, ran, rfl⟩ := Option.map_eq_some_iff.mp stepped
        exact .get ‹_› ‹_› (Bool.eq_false_of_not_eq_true ‹_›) ran
    · cases stepped
  case forward w =>
    split at stepped <;> cases stepped
    exact .forward ‹_›
  case ret w value =>
    split at stepped <;> cases stepped
    exact .ret ‹_›
  case publish w =>
    split at stepped <;> cases stepped
    exact .publish ‹_›
  case notify w =>
    split at stepped <;> cases stepped
    exact .notify ‹_ ∧ _›.1 ‹_ ∧ _›.2
  case destroy =>
    split at stepped <;> cases stepped
    exact .destroy ‹_ ∧ _›.1 ‹_ ∧ _›.2
  case testStarted =>
    split at stepped
    · cases stepped
      by_cases started : s.started = true
      · rw [if_pos started]
        exact .testStarted ‹_› started
      · rw [if_neg started]
        exact .testUnstarted ‹_› (Bool.eq_false_of_not_eq_true started)
    · cases stepped
  case setDone =>
    split at stepped <;> cases stepped
    exact .setDone ‹_›
  case terminate wake =>
    split at stepped
    · split at stepped
      · cases stepped
      · obtain ⟨⟨stored, sys⟩, ran, rfl⟩ := Option.map_eq_some_iff.mp stepped
        exact .terminate ‹_› ‹_› (Bool.eq_false_of_not_eq_true ‹_›) ran
    · cases stepped
      exact .terminated ‹_›
    · cases stepped
  case join =>
    split at stepped
    · split at stepped <;> cases stepped
      · exact .join ‹_› ‹_›
      · exact .joined ‹_› ‹_›
    · cases stepped
  case spuriousAdd i =>
    split at stepped <;> cases stepped
    exact .spuriousAdd ‹_›
  case spuriousGet w =>
    split at stepped <;> cases stepped
    exact .spuriousGet ‹_›
  case spuriousWait c =>
    split at stepped <;> cases stepped
    exact .spuriousWait ‹_›

end Pool

end CviRuntime.Concurrency
