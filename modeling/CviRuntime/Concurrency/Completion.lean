import Mathlib.Data.List.ReduceOption
import CviRuntime.Concurrency.PoolQueue

/-!
# Tasks on their way through the pool

A task is made and put once, returned by `get` once, run once and published once. At each point
of its way it is with exactly one thread, so the numbers of tasks at each stage and the numbers
of threads between the stages add up.
-/

namespace CviRuntime.Concurrency.Pool

open CondVar CviRuntime.Runtime

/-- The tasks accepted by `addTask`, in the order of its sections. -/
def submitted (s : Pool) : List Nat := s.sys.stored.reduceOption

/-- The task whose `addTask` returns in a step. -/
def taskAdded (s : Pool) : Action → Option Nat
  | .add c wake =>
    match s.clients[c]?, (s.step (.add c wake)).bind (·.clients[c]?) with
    | some (.adding task), some .idle => some task
    | _, _ => none
  | _ => none

/-- The tasks `get` has returned to the workers, in order. -/
def taken (s : Pool) : List Nat := s.sys.returned.reduceOption

/-- The task's `retCode` differs from `CVI_RC_UNINIT`. -/
def published (retCodes : List Int) (task : Nat) : Bool :=
  (retCodes[task]?).any (· ≠ cviRcUninit)

/-- The worker has the result of `task` and is about to publish it. -/
def isReturned (task : Nat) : Worker → Bool
  | .returned t _ => t = task
  | _ => false

/-- Every task is at one place of its way: with the client that adds it or in the queue's
    history, with the worker that took it or called, with the worker that runs it or finished,
    with the worker that publishes it or published. -/
structure Tracked (s : Pool) : Prop where
  created : ∀ task, s.sys.stored.count (some task) + s.clients.count (.adding task) =
    if task < s.retCodes.length then 1 else 0
  taken : ∀ task, s.sys.returned.count (some task) =
    s.workers.count (.took task) + s.called.count task
  called : ∀ task, s.called.count task =
    s.workers.count (.running task) + s.finished.count task
  finished : ∀ task, s.finished.count task =
    s.workers.countP (isReturned task) + if published s.retCodes task then 1 else 0

theorem Tracked.new (size clients : Nat) : (Pool.new size clients).Tracked where
  created := by simp [Pool.new, System.new, List.count_replicate]
  taken := by simp [Pool.new, System.new]
  called := by simp [Pool.new]
  finished := by simp [Pool.new, published]

theorem count_map_wake (clients : List Client) (task : Nat) :
    (clients.map Client.wake).count (.adding task) = clients.count (.adding task) := by
  induction clients with
  | nil => rfl
  | cons client clients ih =>
    simp only [List.map_cons, List.count_cons, ih]
    cases client <;> simp [Client.wake]

theorem published_append (retCodes : List Int) (task : Nat) :
    published (retCodes ++ [cviRcUninit]) task = published retCodes task := by
  unfold published
  rcases Nat.lt_trichotomy task retCodes.length with before | rfl | after
  · rw [List.getElem?_append_left before]
  · simp
  · simp [List.getElem?_eq_none_iff.mpr (Nat.le_of_lt after),
      List.getElem?_eq_none_iff.mpr (show (retCodes ++ [cviRcUninit]).length ≤ task by simp; omega)]

theorem rcOfBool_ne_uninit (value : Bool) : TaskPool.rcOfBool value ≠ cviRcUninit := by
  cases value <;> decide

/-- Setting the `retCode` of a known task publishes that task and no other. -/
theorem published_set {retCodes : List Int} {task : Nat} (known : task < retCodes.length)
    (value : Bool) (other : Nat) :
    published (retCodes.set task (TaskPool.rcOfBool value)) other =
      (decide (other = task) || published retCodes other) := by
  unfold published
  by_cases same : other = task
  · subst same
    simp [List.getElem?_set_self known, rcOfBool_ne_uninit]
  · simp [List.getElem?_set_ne (Ne.symm same), same]

section tracked

variable {s s' : Pool}

/-- A task is stored, taken, called and finished at most once, and is known when stored. -/
theorem Tracked.at_most_once (tracked : s.Tracked) (queued : s.Queued) (task : Nat) :
    s.finished.count task ≤ s.called.count task ∧
      s.called.count task ≤ s.sys.returned.count (some task) ∧
      s.sys.returned.count (some task) ≤ s.sys.stored.count (some task) ∧
      s.sys.stored.count (some task) ≤ if task < s.retCodes.length then 1 else 0 := by
  obtain ⟨waiting, fifo⟩ := queued.fifo
  have created := tracked.created task
  have taken := tracked.taken task
  have called := tracked.called task
  refine ⟨by omega, by omega, ?_, by omega⟩
  rw [fifo.stored, List.count_append]
  exact Nat.le_add_right _ _

/-- A client that is not adding a task moves on. -/
theorem Tracked.client_move {c : Nat} {before after : Client} (tracked : s.Tracked)
    (found : s.clients[c]? = some before) (old : ∀ task, before ≠ .adding task)
    (new : ∀ task, after ≠ .adding task) (task : Nat) :
    s.sys.stored.count (some task) + (s.clients.set c after).count (.adding task) =
      if task < s.retCodes.length then 1 else 0 := by
  rw [Count.count_set_of_ne found (old task) (new task)]
  exact tracked.created task

/-- A worker that carries no task moves on. -/
theorem Tracked.worker_move {w : Nat} {before : Worker} (after : Worker) (tracked : s.Tracked)
    (found : s.workers[w]? = some before)
    (old : before = .fresh ∨ before = .polling ∨ before = .getting ∨ before = .notifying)
    (new : after = .polling ∨ after = .getting ∨ after = .exited) :
    (∀ task, s.sys.returned.count (some task) =
      (s.workers.set w after).count (.took task) + s.called.count task) ∧
    (∀ task, s.called.count task =
      (s.workers.set w after).count (.running task) + s.finished.count task) ∧
    (∀ task, s.finished.count task =
      (s.workers.set w after).countP (isReturned task) +
        if published s.retCodes task then 1 else 0) := by
  refine ⟨fun task => ?_, fun task => ?_, fun task => ?_⟩
  · rw [Count.count_set_of_ne found (by rintro rfl; simp at old) (by rintro rfl; simp at new)]
    exact tracked.taken task
  · rw [Count.count_set_of_ne found (by rintro rfl; simp at old) (by rintro rfl; simp at new)]
    exact tracked.called task
  · have same : isReturned task after = isReturned task before := by
      rcases old with rfl | rfl | rfl | rfl <;> rcases new with rfl | rfl | rfl <;> rfl
    rw [Count.countP_set_of_eq found same]
    exact tracked.finished task

/-- The task a worker is about to publish is known and not yet published. -/
theorem Tracked.unpublished {w task : Nat} {value : Bool} (tracked : s.Tracked)
    (queued : s.Queued) (found : s.workers[w]? = some (.returned task value)) :
    task < s.retCodes.length ∧ published s.retCodes task = false := by
  have carried : 0 < s.workers.countP (isReturned task) :=
    Count.countP_pos_of_getElem? found (by simp [isReturned])
  obtain ⟨first, second, third, fourth⟩ := tracked.at_most_once queued task
  have before := tracked.finished task
  have known : task < s.retCodes.length := by
    by_contra unknown
    rw [if_neg unknown] at fourth
    omega
  rw [if_pos known] at fourth
  refine ⟨known, ?_⟩
  by_contra already
  rw [if_pos (by simpa using already)] at before
  omega

/-- The task is known before it is added. -/
theorem Tracked.create {c : Nat} (tracked : s.Tracked)
    (found : s.clients[c]? = some .submitting) :
    Tracked { s with
      clients := s.clients.set c (.adding s.retCodes.length)
      retCodes := s.retCodes ++ [cviRcUninit] } := by
  refine ⟨fun task => ?_, tracked.taken, tracked.called, fun task => ?_⟩
  · have created := tracked.created task
    have moved := Count.count_set (a := .adding task) (y := .adding s.retCodes.length) found
    simp only [List.length_append, List.length_singleton]
    simp only [reduceCtorEq, if_false, Nat.add_zero, Client.adding.injEq] at moved
    rw [moved]
    split <;> split at created <;> split <;> omega
  · simp only [published_append]
    exact tracked.finished task

theorem Tracked.add {c wake task : Nat} {stored : Bool} {sys : System (Option Nat)}
    (tracked : s.Tracked) (found : s.clients[c]? = some (.adding task))
    (ran : s.sys.put (c + 1) (some task) wake = some (stored, sys)) :
    Tracked { s with
      sys := sys, clients := s.clients.set c (if stored then .idle else .adding task) } := by
  obtain ⟨puts, gets⟩ := System.put_stored ran
  refine ⟨fun other => ?_, fun other => ?_, tracked.called, tracked.finished⟩
  · have created := tracked.created other
    have moved := Count.count_set (a := .adding other)
      (y := if stored then Client.idle else .adding task) found
    simp only [puts, List.count_append]
    cases stored
    · simp at moved ⊢
      omega
    · simp [List.count_singleton] at moved ⊢
      split at moved <;> simp_all
      omega
  · simp only [gets]
    exact tracked.taken other

theorem Tracked.get {w wake : Nat} {got : Option (Option Nat)} {sys : System (Option Nat)}
    (tracked : s.Tracked) (found : s.workers[w]? = some .getting)
    (ran : s.sys.get w wake = some (got, sys)) :
    Tracked { s with sys := sys, workers := s.workers.set w (afterGet got) } := by
  obtain ⟨gets, puts⟩ := System.get_returned ran
  have quiet : ∀ task, isReturned task (afterGet got) = isReturned task .getting := by
    intro task
    rcases got with _ | _ | t <;> rfl
  refine ⟨fun other => ?_, fun other => ?_, fun other => ?_, fun other => ?_⟩
  · simp only [puts]
    exact tracked.created other
  · have taken := tracked.taken other
    have moved := Count.count_set (a := .took other) (y := afterGet got) found
    simp only [gets, List.count_append]
    rcases got with _ | _ | t
    · simp [afterGet] at moved ⊢
      omega
    · simp [afterGet] at moved ⊢
      omega
    · simp [afterGet, List.count_singleton] at moved ⊢
      omega
  · rw [Count.count_set_of_ne found (by simp) (by rcases got with _ | _ | t <;> simp [afterGet])]
    exact tracked.called other
  · simp only [Count.countP_set_of_eq found (quiet other)]
    exact tracked.finished other

theorem Tracked.forward {w task : Nat} (tracked : s.Tracked)
    (found : s.workers[w]? = some (.took task)) :
    Tracked { s with
      workers := s.workers.set w (.running task), called := s.called ++ [task] } := by
  refine ⟨tracked.created, fun other => ?_, fun other => ?_, fun other => ?_⟩
  · have taken := tracked.taken other
    have moved := Count.count_set (a := .took other) (y := .running task) found
    simp [List.count_append, List.count_singleton] at moved ⊢
    omega
  · have called := tracked.called other
    have moved := Count.count_set (a := .running other) (y := .running task) found
    simp [List.count_append, List.count_singleton] at moved ⊢
    omega
  · simp only [Count.countP_set_of_eq (p := isReturned other) (y := .running task) found rfl]
    exact tracked.finished other

theorem Tracked.ret {w task : Nat} {value : Bool} (tracked : s.Tracked)
    (found : s.workers[w]? = some (.running task)) :
    Tracked { s with
      workers := s.workers.set w (.returned task value), finished := s.finished ++ [task] } := by
  refine ⟨tracked.created, fun other => ?_, fun other => ?_, fun other => ?_⟩
  · rw [Count.count_set_of_ne found (by simp) (by simp)]
    exact tracked.taken other
  · have called := tracked.called other
    have moved := Count.count_set (a := .running other) (y := .returned task value) found
    simp [List.count_append, List.count_singleton] at moved ⊢
    omega
  · have finished := tracked.finished other
    have moved := Count.countP_set (p := isReturned other) (y := .returned task value) found
    simp [isReturned, List.count_append, List.count_singleton] at moved ⊢
    omega

/-- The task was not published before. -/
theorem Tracked.publish {w task : Nat} {value : Bool} (tracked : s.Tracked) (queued : s.Queued)
    (found : s.workers[w]? = some (.returned task value)) :
    Tracked { s with
      workers := s.workers.set w .notifying
      retCodes := s.retCodes.set task (TaskPool.rcOfBool value) } := by
  refine ⟨?_, fun other => ?_, fun other => ?_, fun other => ?_⟩
  · simpa using tracked.created
  · rw [Count.count_set_of_ne found (by simp) (by simp)]
    exact tracked.taken other
  · rw [Count.count_set_of_ne found (by simp) (by simp)]
    exact tracked.called other
  · obtain ⟨known, unpublished⟩ := tracked.unpublished queued found
    have finished := tracked.finished other
    have moved := Count.countP_set (p := isReturned other) (y := .notifying) found
    simp only [published_set known]
    simp only [isReturned, decide_eq_true_eq, Bool.false_eq_true, if_false, Nat.add_zero]
      at moved
    by_cases same : task = other
    · subst same
      simp [unpublished] at finished moved ⊢
      omega
    · have different : ¬ other = task := fun equal => same equal.symm
      simp [same, different] at finished moved ⊢
      omega

theorem Tracked.step {action : Action} (tracked : s.Tracked) (queued : s.Queued)
    (stepped : Step s action s') : s'.Tracked := by
  cases stepped with
  | call found | testTrue found | testFalse found | lock found | spawned found | spin found
  | wait found | sleep found | waited found | spuriousWait found =>
    exact ⟨tracked.client_move found (by simp) (by simp), tracked.taken, tracked.called,
      tracked.finished⟩
  | start found =>
    obtain ⟨taken, called, finished⟩ := tracked.worker_move .polling found (by simp) (by simp)
    exact ⟨tracked.created, taken, called, finished⟩
  | poll found =>
    obtain ⟨taken, called, finished⟩ := tracked.worker_move .getting found (by simp) (by simp)
    exact ⟨tracked.created, taken, called, finished⟩
  | leave found =>
    obtain ⟨taken, called, finished⟩ := tracked.worker_move .exited found (by simp) (by simp)
    exact ⟨tracked.created, taken, called, finished⟩
  | destroy | testStarted | testUnstarted | setDone | terminated | join | joined | spuriousAdd
  | spuriousGet => exact ⟨tracked.created, tracked.taken, tracked.called, tracked.finished⟩
  | notify found =>
    obtain ⟨taken, called, finished⟩ := tracked.worker_move .polling found (by simp) (by simp)
    refine ⟨fun task => ?_, taken, called, finished⟩
    simp only [count_map_wake]
    exact tracked.created task
  | spawn found =>
    refine ⟨tracked.client_move found (by simp) (by simp), fun task => ?_, fun task => ?_,
      fun task => ?_⟩
    · simpa using tracked.taken task
    · simpa using tracked.called task
    · simpa [isReturned] using tracked.finished task
  | create found => exact tracked.create found
  | add found _ _ ran => exact tracked.add found ran
  | get found _ _ ran => exact tracked.get found ran
  | forward found => exact tracked.forward found
  | ret found => exact tracked.ret found
  | publish found => exact tracked.publish queued found
  | terminate found slot awake ran =>
    obtain ⟨puts, gets⟩ := System.put_stored ran
    refine ⟨fun task => ?_, fun task => ?_, tracked.called, tracked.finished⟩
    · have created := tracked.created task
      simp only [puts, List.count_append]
      split <;> simpa using created
    · simp only [gets]
      exact tracked.taken task

end tracked

/-- The client waits for this task. -/
def Client.awaits (task : Nat) (client : Client) : Prop :=
  client = .waiting task ∨ client = .asleep task

/-- A client that was woken waits for what it waited for before. -/
theorem Client.awaits_of_wake {task : Nat} {client : Client}
    (awaits : Client.awaits task client.wake) : Client.awaits task client := by
  cases client with
  | asleep other =>
    rcases awaits with same | same
    · cases same
      exact .inr rfl
    · cases same
  | _ => exact awaits

/-- The clients in `waitTask`: they wait for known tasks, none sleeps on a published task unless
    a worker is about to notify, and those that returned did so after the task was published. -/
structure Notified (s : Pool) : Prop where
  known : ∀ client ∈ s.clients, ∀ task, Client.awaits task client → task < s.retCodes.length
  asleep : ∀ task, .asleep task ∈ s.clients → published s.retCodes task = true →
    .notifying ∈ s.workers
  waited : ∀ task ∈ s.waited, published s.retCodes task = true

theorem Notified.new (size clients : Nat) : (Pool.new size clients).Notified where
  known := by
    intro client member task awaits
    rw [List.eq_of_mem_replicate member] at awaits
    simp [Client.awaits] at awaits
  asleep := by
    intro task member
    exact absurd (List.eq_of_mem_replicate member) (by simp)
  waited := by simp [Pool.new]

/-- An element stays in a list when another one is replaced. -/
theorem mem_set_of_ne {γ : Type*} {xs : List γ} {i : Nat} {x y a : γ} (member : a ∈ xs)
    (found : xs[i]? = some x) (different : x ≠ a) : a ∈ xs.set i y := by
  obtain ⟨j, place⟩ := List.getElem?_of_mem member
  have apart : i ≠ j := by
    rintro rfl
    rw [found] at place
    exact different (Option.some.inj place)
  exact List.mem_of_getElem? ((List.getElem?_set_ne apart).trans place)

section notified

variable {s s' : Pool}

theorem Notified.known_move {c : Nat} {after : Client} (notified : s.Notified)
    (fits : ∀ task, Client.awaits task after → task < s.retCodes.length) :
    ∀ client ∈ s.clients.set c after, ∀ task, Client.awaits task client →
      task < s.retCodes.length := by
  intro client member task awaits
  rcases List.mem_or_eq_of_mem_set member with old | rfl
  · exact notified.known client old task awaits
  · exact fits task awaits

/-- A client moves on without falling asleep on a published task. -/
theorem Notified.asleep_move {c : Nat} {after : Client} (notified : s.Notified)
    (unready : ∀ task, after = .asleep task → published s.retCodes task = false) :
    ∀ task, .asleep task ∈ s.clients.set c after → published s.retCodes task = true →
      .notifying ∈ s.workers := by
  intro task member ready
  rcases List.mem_or_eq_of_mem_set member with old | same
  · exact notified.asleep task old ready
  · rw [unready task same.symm] at ready
    cases ready

theorem published_mono {retCodes : List Int} {task other : Nat} {value : Bool}
    (known : task < retCodes.length) (already : published retCodes other = true) :
    published (retCodes.set task (TaskPool.rcOfBool value)) other = true := by
  rw [published_set known, already, Bool.or_true]

theorem Notified.step {action : Action} (notified : s.Notified) (tracked : s.Tracked)
    (queued : s.Queued) (stepped : Step s action s') : s'.Notified := by
  have workers : ∀ {w : Nat} {before after : Worker}, s.workers[w]? = some before →
      before ≠ .notifying → ∀ task, .asleep task ∈ s.clients →
      published s.retCodes task = true → .notifying ∈ s.workers.set w after :=
    fun found different task member ready =>
      mem_set_of_ne (notified.asleep task member ready) found different
  cases stepped with
  | call | testTrue | testFalse | lock | spawned | spin =>
    exact ⟨notified.known_move (by simp [Client.awaits]), notified.asleep_move (by simp),
      notified.waited⟩
  | start found | poll found | leave found | get found | forward found | ret found =>
    exact ⟨notified.known, workers found (by simp), notified.waited⟩
  | destroy | testStarted | testUnstarted | setDone | terminate | terminated | join | joined
  | spuriousAdd | spuriousGet => exact ⟨notified.known, notified.asleep, notified.waited⟩
  | spawn =>
    refine ⟨notified.known_move (by simp [Client.awaits]), fun task member ready => ?_,
      notified.waited⟩
    exact List.mem_append_left _ (notified.asleep_move (by simp) task member ready)
  | create =>
    refine ⟨fun client member task awaits => ?_, fun task member ready => ?_,
      fun task member => ?_⟩
    · simp only [List.length_append, List.length_singleton]
      exact Nat.lt_succ_of_lt
        (notified.known_move (by simp [Client.awaits]) client member task awaits)
    · rw [published_append] at ready
      exact notified.asleep_move (by simp) task member ready
    · rw [published_append]
      exact notified.waited task member
  | @add c wake task thread stored sys =>
    refine ⟨notified.known_move ?_, notified.asleep_move ?_, notified.waited⟩
    · cases stored <;> simp [Client.awaits]
    · cases stored <;> simp
  | @wait c task found alive known =>
    refine ⟨notified.known_move ?_, notified.asleep_move (by simp), notified.waited⟩
    rintro other (same | same) <;> cases same
    exact known
  | @sleep c task found free unset =>
    refine ⟨notified.known_move ?_, notified.asleep_move ?_, notified.waited⟩
    · rintro other (same | same) <;> cases same
      exact notified.known _ (List.mem_of_getElem? found) task (.inl rfl)
    · rintro other same
      cases same
      simp [published, unset]
  | @waited c task found free set =>
    refine ⟨notified.known_move (by simp [Client.awaits]), notified.asleep_move (by simp), ?_⟩
    intro other member
    rcases List.mem_append.mp member with old | new
    · exact notified.waited other old
    · obtain rfl := List.mem_singleton.mp new
      have known := notified.known _ (List.mem_of_getElem? found) other (.inl rfl)
      rw [List.getElem?_eq_getElem known] at set
      simp only [published, List.getElem?_eq_getElem known]
      simpa using set
  | @publish w task value found =>
    have known := (tracked.unpublished queued found).1
    refine ⟨?_, fun other _ _ => ?_, fun other member => ?_⟩
    · simpa using notified.known
    · exact List.mem_of_getElem?
        (List.getElem?_set_self (List.getElem?_eq_some_iff.mp found).1)
    · exact published_mono known (notified.waited other member)
  | notify found =>
    refine ⟨fun client member task awaits => ?_, fun task member => ?_, notified.waited⟩
    · obtain ⟨before, old, rfl⟩ := List.mem_map.mp member
      exact notified.known before old task (Client.awaits_of_wake awaits)
    · obtain ⟨before, -, awake⟩ := List.mem_map.mp member
      cases before <;> simp [Client.wake] at awake
  | spuriousWait found =>
    refine ⟨notified.known_move ?_, notified.asleep_move (by simp), notified.waited⟩
    rintro other (same | same) <;> cases same
    exact notified.known _ (List.mem_of_getElem? found) _ (.inr rfl)

end notified

end CviRuntime.Concurrency.Pool
