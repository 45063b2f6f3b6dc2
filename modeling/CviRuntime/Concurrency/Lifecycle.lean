import CviRuntime.Concurrency.Completion

/-!
# The life of the pool

The order in which a pool is started, used and destroyed: `_started` is false until a worker has
run and no task is accepted before that, the client that holds `_mutex` is inside `startPool`,
workers leave only once `_done` is set, and the destructor finds no client in the pool.
-/

namespace CviRuntime.Concurrency

/-- The client is outside the pool or inside `startPool`. -/
def Client.starting : Client → Bool
  | idle | testing | locking | spawning _ | spinning => true
  | _ => false

/-- The client holds `_mutex` in `startPool`. -/
def Client.holds : Client → Bool
  | spawning _ | spinning => true
  | _ => false

/-- The destructor is past `_done = true`. -/
def Destructor.ending : Destructor → Bool
  | putting _ | joining _ => true
  | _ => false

theorem Client.starting_wake {client : Client} (starting : client.starting = true) :
    client.wake.starting = true := by
  cases client <;> exact starting

theorem Client.holds_wake {client : Client} (holds : client.holds = true) :
    client.wake.holds = true := by
  cases client <;> exact holds

namespace Pool

structure Lifecycle (s : Pool) : Prop where
  unstarted : s.started = false →
    s.sys.stored = [] ∧ s.retCodes = [] ∧ ∀ client ∈ s.clients, client.starting = true
  manned : s.started = true → s.workers ≠ []
  holder : ∀ c, s.holder = some c → ∃ client, s.clients[c]? = some client ∧ client.holds = true
  exited : .exited ∈ s.workers → s.done = true
  ending : s.done = true → s.destructor.ending = true ∨ s.destructor = .finished
  ended : s.destructor.ending = true → s.done = true
  tested : s.destructor.ending = true ∨ s.destructor = .settingDone → s.started = true
  idle : s.destructor ≠ .absent → ∀ client ∈ s.clients, client = .idle

theorem Lifecycle.new (size clients : Nat) : (Pool.new size clients).Lifecycle where
  unstarted := by
    refine fun _ => ⟨rfl, rfl, fun client member => ?_⟩
    rw [List.eq_of_mem_replicate member]
    rfl
  manned := by simp [Pool.new]
  holder := by simp [Pool.new]
  exited := by simp [Pool.new]
  ending := by simp [Pool.new]
  ended := by simp [Pool.new, Destructor.ending]
  tested := by simp [Pool.new, Destructor.ending]
  idle := by simp [Pool.new]

section lifecycle

variable {s s' : Pool}

/-- With a client inside the pool the destructor has not begun. -/
theorem Lifecycle.alive {c : Nat} {client : Client} (life : s.Lifecycle)
    (found : s.clients[c]? = some client) (inside : client ≠ .idle) : s.destructor = .absent := by
  by_contra begun
  exact inside (life.idle begun client (List.mem_of_getElem? found))

/-- The lock stays with its holder when another client moves. -/
theorem Lifecycle.holder_move {c : Nat} {before after : Client} (life : s.Lifecycle)
    (found : s.clients[c]? = some before) (keeps : before.holds = true → after.holds = true) :
    ∀ d, s.holder = some d →
      ∃ client, (s.clients.set c after)[d]? = some client ∧ client.holds = true := by
  intro d held
  obtain ⟨client, place, holds⟩ := life.holder d held
  by_cases same : c = d
  · subst same
    rw [found] at place
    cases place
    exact ⟨after, List.getElem?_set_self (List.getElem?_eq_some_iff.mp found).1, keeps holds⟩
  · exact ⟨client, (List.getElem?_set_ne same).trans place, holds⟩

theorem Lifecycle.unstarted_move {c : Nat} {after : Client} (life : s.Lifecycle)
    (starting : after.starting = true) : s.started = false →
      s.sys.stored = [] ∧ s.retCodes = [] ∧
        ∀ client ∈ s.clients.set c after, client.starting = true := by
  intro off
  obtain ⟨none, unknown, all⟩ := life.unstarted off
  refine ⟨none, unknown, fun client member => ?_⟩
  rcases List.mem_or_eq_of_mem_set member with old | rfl
  · exact all client old
  · exact starting

theorem Lifecycle.exited_move {w : Nat} {after : Worker} (life : s.Lifecycle)
    (stays : after ≠ .exited) : .exited ∈ s.workers.set w after → s.done = true := by
  intro member
  rcases List.mem_or_eq_of_mem_set member with old | same
  · exact life.exited old
  · exact absurd same.symm stays

theorem manned_set {w : Nat} {after : Worker} (some : s.workers ≠ []) :
    s.workers.set w after ≠ [] := by
  simpa [List.set_eq_nil_iff] using some

/-- Before the pool is started no client is past `startPool`. -/
theorem Lifecycle.started {c : Nat} {client : Client} (life : s.Lifecycle)
    (found : s.clients[c]? = some client) (past : client.starting = false) : s.started = true := by
  by_contra off
  have starting := (life.unstarted (Bool.eq_false_of_not_eq_true off)).2.2 client
    (List.mem_of_getElem? found)
  rw [past] at starting
  cases starting

theorem Lifecycle.step {action : Action} (life : s.Lifecycle) (stepped : Step s action s') :
    s'.Lifecycle := by
  have busy : ∀ {c : Nat} {before after : Client}, s.clients[c]? = some before →
      before ≠ .idle → s.destructor ≠ .absent → ∀ client ∈ s.clients.set c after,
      client = .idle :=
    fun found inside begun => absurd (life.alive found inside) begun
  cases stepped with
  | call found alive =>
    exact ⟨life.unstarted_move rfl, life.manned, life.holder_move found (by simp [Client.holds]),
      life.exited, life.ending, life.ended, life.tested, fun begun => absurd alive begun⟩
  | testTrue found started =>
    exact ⟨fun off => Bool.noConfusion (started.symm.trans off), life.manned,
      life.holder_move found (by simp [Client.holds]), life.exited, life.ending, life.ended,
      life.tested, busy found (by simp)⟩
  | testFalse found =>
    exact ⟨life.unstarted_move rfl, life.manned, life.holder_move found (by simp [Client.holds]),
      life.exited, life.ending, life.ended, life.tested, busy found (by simp)⟩
  | lock found =>
    refine ⟨life.unstarted_move rfl, life.manned, fun d held => ?_, life.exited, life.ending,
      life.ended, life.tested, busy found (by simp)⟩
    cases held
    exact ⟨_, List.getElem?_set_self (List.getElem?_eq_some_iff.mp found).1, rfl⟩
  | spawn found =>
    refine ⟨life.unstarted_move rfl, fun _ => by simp, life.holder_move found (fun _ => rfl),
      fun member => ?_, life.ending, life.ended, life.tested, busy found (by simp)⟩
    exact life.exited (by simpa using member)
  | spawned found =>
    exact ⟨life.unstarted_move rfl, life.manned, life.holder_move found (fun _ => rfl),
      life.exited, life.ending, life.ended, life.tested, busy found (by simp)⟩
  | spin found started =>
    exact ⟨fun off => Bool.noConfusion (started.symm.trans off), life.manned, by simp, life.exited,
      life.ending, life.ended, life.tested, busy found (by simp)⟩
  | @wait c task found alive known =>
    refine ⟨fun off => ?_, life.manned, life.holder_move found (by simp [Client.holds]),
      life.exited, life.ending, life.ended, life.tested, fun begun => absurd alive begun⟩
    have none := (life.unstarted off).2.1
    simp [none] at known
  | create found | add found | sleep found | waited found | spuriousWait found =>
    have started := life.started found rfl
    exact ⟨fun off => Bool.noConfusion (started.symm.trans off), life.manned,
      life.holder_move found (by simp [Client.holds]), life.exited, life.ending, life.ended,
      life.tested, busy found (by simp)⟩
  | start found =>
    refine ⟨by simp, fun _ => ?_, life.holder, life.exited_move (by simp), life.ending,
      life.ended, fun _ => rfl, life.idle⟩
    exact manned_set (List.ne_nil_of_mem (List.mem_of_getElem? found))
  | publish found =>
    refine ⟨fun off => ?_, fun on => manned_set (life.manned on), life.holder,
      life.exited_move (by simp), life.ending, life.ended, life.tested, life.idle⟩
    simpa using life.unstarted off
  | poll | forward | ret =>
    exact ⟨life.unstarted, fun on => manned_set (life.manned on), life.holder,
      life.exited_move (by simp), life.ending, life.ended, life.tested, life.idle⟩
  | leave found done =>
    exact ⟨life.unstarted, fun on => manned_set (life.manned on), life.holder, fun _ => done,
      life.ending, life.ended, life.tested, life.idle⟩
  | @get w wake thread got sys found slot awake ran =>
    refine ⟨fun off => ?_, fun on => manned_set (life.manned on), life.holder,
      life.exited_move ?_, life.ending, life.ended, life.tested, life.idle⟩
    · simp only [(System.get_returned ran).2]
      exact life.unstarted off
    · rcases got with _ | _ | t <;> simp [afterGet]
  | notify found =>
    refine ⟨fun off => ?_, fun on => manned_set (life.manned on), fun c held => ?_,
      life.exited_move (by simp), life.ending, life.ended, life.tested, fun begun client member => ?_⟩
    · obtain ⟨none, unknown, all⟩ := life.unstarted off
      refine ⟨none, unknown, fun client member => ?_⟩
      obtain ⟨before, old, rfl⟩ := List.mem_map.mp member
      exact Client.starting_wake (all before old)
    · obtain ⟨client, place, holds⟩ := life.holder c held
      exact ⟨client.wake, by simp [place], Client.holds_wake holds⟩
    · obtain ⟨before, old, rfl⟩ := List.mem_map.mp member
      rw [life.idle begun before old]
      rfl
  | destroy alive idle =>
    refine ⟨life.unstarted, life.manned, life.holder, life.exited, fun done => ?_,
      by simp [Destructor.ending], by simp [Destructor.ending], fun _ => idle⟩
    have late := life.ending done
    simp [alive, Destructor.ending] at late
  | testStarted found started =>
    refine ⟨life.unstarted, life.manned, life.holder, life.exited, fun done => ?_,
      by simp [Destructor.ending], fun _ => started, fun _ => life.idle (by simp [found])⟩
    have late := life.ending done
    simp [found, Destructor.ending] at late
  | testUnstarted found started =>
    exact ⟨life.unstarted, life.manned, life.holder, life.exited, fun _ => .inr rfl,
      by simp [Destructor.ending], by simp [Destructor.ending],
      fun _ => life.idle (by simp [found])⟩
  | setDone found =>
    exact ⟨life.unstarted, life.manned, life.holder, fun _ => rfl, fun _ => .inl rfl,
      fun _ => rfl, fun _ => life.tested (.inr found), fun _ => life.idle (by simp [found])⟩
  | terminate found slot awake ran =>
    have started := life.tested (.inl (by rw [found]; rfl))
    exact ⟨fun off => Bool.noConfusion (started.symm.trans off), life.manned, life.holder,
      life.exited, fun _ => .inl rfl, fun _ => life.ended (by rw [found]; rfl), fun _ => started,
      fun _ => life.idle (by simp [found])⟩
  | terminated found | join found =>
    exact ⟨life.unstarted, life.manned, life.holder, life.exited, fun _ => .inl rfl,
      fun _ => life.ended (by rw [found]; rfl), fun _ => life.tested (.inl (by rw [found]; rfl)),
      fun _ => life.idle (by simp [found])⟩
  | joined found =>
    exact ⟨life.unstarted, life.manned, life.holder, life.exited, fun _ => .inr rfl,
      by simp [Destructor.ending], by simp [Destructor.ending],
      fun _ => life.idle (by simp [found])⟩
  | spuriousAdd | spuriousGet =>
    exact ⟨life.unstarted, life.manned, life.holder, life.exited, life.ending, life.ended,
      life.tested, life.idle⟩

end lifecycle

end Pool

end CviRuntime.Concurrency
