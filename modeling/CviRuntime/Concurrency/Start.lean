import CviRuntime.Concurrency.Progress

/-!
# How many workers a pool has

`startPool` tests `_started` before it takes `_mutex`, and the workers, not the starter, set
`_started`. Every caller that finds it false creates `_pool_size` threads of its own, also when
it had to wait for `_mutex` behind another one.
-/

namespace CviRuntime.Concurrency

/-- The client found `_started` false and is still inside `startPool`. -/
def Client.inside : Client → Bool
  | locking | spawning _ | spinning => true
  | _ => false

/-- The number of threads the client is still going to create. -/
def Client.due (size : Nat) : Client → Nat
  | locking => size
  | spawning left => left
  | _ => 0

namespace Pool

open Run

/-- The number of callers past their test inside `startPool`. -/
def starters (clients : List Client) : Nat := clients.countP Client.inside

/-- The number of threads still to be created. -/
def due (size : Nat) (clients : List Client) : Nat := (clients.map (Client.due size)).sum

/-- Each caller that found `_started` false creates `_pool_size` threads, and none of them is out
    of `startPool` before a worker has run. -/
structure Counted (s : Pool) : Prop where
  created : s.workers.length + due s.size s.clients = s.size * s.passed
  unstarted : s.started = false → s.passed = starters s.clients

theorem Counted.new (size clients : Nat) : (Pool.new size clients).Counted where
  created := by simp [Pool.new, due, Client.due]
  unstarted := by simp [Pool.new, starters, Client.inside, List.countP_replicate]

section counted

variable {s s' : Pool} {c : Nat} {before : Client}

theorem starters_set {clients : List Client} (after : Client)
    (found : clients[c]? = some before) :
    starters (clients.set c after) + (if before.inside then 1 else 0) =
      starters clients + (if after.inside then 1 else 0) :=
  Count.countP_set found

theorem due_set (size : Nat) {clients : List Client} (after : Client)
    (found : clients[c]? = some before) :
    due size (clients.set c after) + before.due size = due size clients + after.due size :=
  Count.sum_map_set found

theorem Counted.created_move {after : Client} (counted : s.Counted)
    (found : s.clients[c]? = some before) (same : after.due s.size = before.due s.size) :
    s.workers.length + due s.size (s.clients.set c after) = s.size * s.passed := by
  have moved := due_set s.size after found
  rw [same] at moved
  rw [Nat.add_right_cancel moved]
  exact counted.created

theorem Counted.unstarted_move {after : Client} (counted : s.Counted)
    (found : s.clients[c]? = some before) (same : after.inside = before.inside) :
    s.started = false → s.passed = starters (s.clients.set c after) := by
  rw [starters, Count.countP_set_of_eq found same]
  exact counted.unstarted

theorem map_wake_counts (size : Nat) (clients : List Client) :
    due size (clients.map Client.wake) = due size clients ∧
      starters (clients.map Client.wake) = starters clients := by
  induction clients with
  | nil => exact ⟨rfl, rfl⟩
  | cons client clients ih =>
    simp only [due, starters, List.map_cons, List.sum_cons, List.countP_cons] at ih ⊢
    rw [ih.1, ih.2]
    cases client <;> exact ⟨rfl, rfl⟩

theorem Counted.step {action : Action} (counted : s.Counted) (stepped : Step s action s') :
    s'.Counted := by
  have created := counted.created
  cases stepped with
  | call found | testTrue found | create found | wait found | sleep found | waited found
  | spuriousWait found =>
    exact ⟨counted.created_move found rfl, counted.unstarted_move found rfl⟩
  | lock found | spawned found =>
    exact ⟨counted.created_move found rfl, counted.unstarted_move found rfl⟩
  | @add c wake task thread stored sys found slot awake ran =>
    refine ⟨counted.created_move found ?_, counted.unstarted_move found ?_⟩
    · cases stored <;> rfl
    · cases stored <;> rfl
  | testFalse found off =>
    have moved := due_set s.size .locking found
    have inside := starters_set .locking found
    have before := counted.unstarted off
    simp only [Client.due, Client.inside, Bool.false_eq_true, if_false, if_true, Nat.add_zero]
      at moved inside
    refine ⟨?_, fun _ => ?_⟩
    · simp only [moved, Nat.mul_add, Nat.mul_one]
      omega
    · simp only [inside, before]
  | @spawn c left found =>
    have moved := due_set s.size (.spawning left) found
    refine ⟨?_, counted.unstarted_move found rfl⟩
    simp only [Client.due] at moved
    simp only [List.length_append, List.length_singleton]
    omega
  | spin found started =>
    exact ⟨counted.created_move found rfl,
      fun off => Bool.noConfusion (started.symm.trans off)⟩
  | start found =>
    refine ⟨?_, by simp⟩
    simpa using created
  | poll found | leave found | forward found | ret found | publish found | get found =>
    refine ⟨?_, counted.unstarted⟩
    simpa using created
  | notify found =>
    obtain ⟨sum, count⟩ := map_wake_counts s.size s.clients
    refine ⟨?_, ?_⟩
    · simp only [sum, List.length_set]
      exact created
    · simp only [count]
      exact counted.unstarted
  | destroy | testStarted | testUnstarted | setDone | terminate | terminated | join | joined
  | spuriousAdd | spuriousGet => exact ⟨counted.created, counted.unstarted⟩

end counted

end Pool

end CviRuntime.Concurrency
