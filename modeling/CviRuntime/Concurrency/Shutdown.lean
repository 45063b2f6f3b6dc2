import CviRuntime.Concurrency.Markers

/-!
# Starting the pool once and shutting it down

The destructor puts `_pool_size` markers: it hangs in `join` when callers that raced in
`startPool` made more workers than that, and it drops the tasks no worker was already waiting
for when `_done` was set.
-/

namespace CviRuntime.Concurrency.Pool

open CondVar Run

/-! ## The pool starts once -/

theorem run_size {size clients : Nat} {actions : List Action} {t : Pool}
    (done : run step (Pool.new size clients) actions = some t) : t.size = size :=
  run_preserves (P := fun s => s.size = size)
    (fun _ _ _ same stepped => (step_size (step_sound stepped)).trans same) rfl done

/-- From here on every interleaving ends with the destructor finished and the accepted tasks
    run. -/
def ShutsDown (s : Pool) : Prop :=
  ∀ rest t, run step s rest = some t → t.Quiet →
    t.destructor = .finished ∧ ∀ task ∈ s.submitted, task ∈ t.finished

/-- The state of a pool being destroyed with a worker in `get` for each task in the queue. -/
structure Draining (s : Pool) : Prop where
  begun : s.destructor ≠ .absent
  few : s.workers.length ≤ s.size
  supplied : s.Supplied
  covered : ∃ tasks markers, s.Holding tasks markers ∧
    markers + s.destructor.markers s.size ≤ s.size ∧ tasks ≤ s.committed
  slot : s.sys.producers[0]? = some .idle

section draining

variable {s s' : Pool} {action : Action}

/-- The destructor's place among the producers stays idle unless it finds the queue full. -/
theorem slot_step (slot : s.sys.producers[0]? = some .idle) (stepped : Step s action s') :
    s'.sys.producers[0]? = some .idle ∨
      (s.sys.ring.room ≤ 1 ∧ ∃ left, s.destructor = .putting (left + 1)) := by
  cases stepped with
  | add _ _ _ ran =>
    left
    exact (put_producers_ne ran (Nat.succ_ne_zero _)).trans slot
  | @terminate wake left thread stored sys found place awake ran =>
    rcases System.put_cases ran with ⟨-, full, rfl⟩ | ⟨-, -, _, -, rfl⟩
    · exact .inr ⟨full, left, found⟩
    · exact .inl (List.getElem?_set_self (List.getElem?_eq_some_iff.mp slot).1)
  | get _ _ _ ran =>
    left
    rcases System.get_cases ran with ⟨-, -, rfl⟩ | ⟨_, _, producers, -, -, -, notified, rfl⟩
    · exact slot
    · rcases notified with ⟨-, notified⟩ | ⟨-, rfl⟩
      · rcases notifyOne_getElem? notified 0 with same | ⟨arg, asleep, -⟩
        · exact same.trans slot
        · rw [slot] at asleep
          cases asleep
      · exact slot
  | @spuriousAdd i task found =>
    left
    have different : i ≠ 0 := by
      rintro rfl
      rw [slot] at found
      cases found
    exact (List.getElem?_set_ne different).trans slot
  | _ => exact .inl slot

/-- While each task has its worker the markers find room. -/
theorem Draining.room (draining : s.Draining) (account : s.Account) {left : Nat}
    (putting : s.destructor = .putting (left + 1)) : 1 < s.sys.ring.room := by
  obtain ⟨tasks, markers, holding, bound, covered⟩ := draining.covered
  obtain ⟨waiting, fifo⟩ := account.inv.queued.fifo
  have few := draining.few
  have most := committed_le s
  rw [putting, Destructor.markers] at bound
  rw [fifo.ring.room_eq, account.inv.queued.sized.capacity, holding.length]
  omega

theorem Draining.step (draining : s.Draining) (account : s.Account)
    (stepped : Step s action s') : s'.Draining := by
  obtain ⟨begun, crew, -⟩ := account.inv.life.begun_step draining.begun stepped
  have size := step_size stepped
  have few := draining.few
  obtain ⟨tasks, markers, holding, bound, covered⟩ := draining.covered
  obtain ⟨tasks', markers', after, drain⟩ :=
    holding.step account.inv.life (Stocked.unmarked bound) stepped
  refine ⟨begun, by omega, draining.supplied.step account (by omega) stepped,
    ⟨tasks', markers', after, ?_⟩, ?_⟩
  · rw [size]
    cases drain with
    | same workers left => omega
    | enter going workers same =>
      rw [same]
      omega
    | takeTask first workers same =>
      rw [same]
      omega
    | takeMarker none first workers same =>
      rw [same]
      omega
    | putMarker workers left => omega
    | unstarted _ workers finished =>
      rw [finished, Destructor.markers]
      omega
    | add alive => exact absurd alive draining.begun
  · rcases slot_step draining.slot stepped with slot | ⟨full, left, putting⟩
    · exact slot
    · exact absurd (draining.room account putting) (Nat.not_lt_of_le full)

/-- A draining pool comes to rest only when its destructor has finished. -/
theorem Draining.quiet_finished (draining : s.Draining) (account : s.Account) (quiet : s.Quiet) :
    s.destructor = .finished := by
  cases phase : s.destructor with
  | absent => exact absurd phase draining.begun
  | begun =>
    have stuck := quiet .testStarted rfl
    simp [Pool.step, phase] at stuck
  | settingDone =>
    have stuck := quiet .setDone rfl
    simp [Pool.step, phase] at stuck
  | putting left =>
    cases left with
    | zero =>
      have stuck := quiet (.terminate 0) rfl
      simp [Pool.step, phase] at stuck
    | succ left =>
      obtain ⟨wake, stored, sys, ran⟩ := System.exists_put s.sys 0 none
      have stuck := quiet (.terminate wake) rfl
      simp [Pool.step, phase, draining.slot, ran] at stuck
  | joining thread => exact absurd phase (draining.supplied.not_joining account quiet)
  | finished => rfl

/-- By then every accepted task was run. -/
theorem Draining.quiet_done (draining : s.Draining) (account : s.Account) (quiet : s.Quiet)
    {task : Nat} (accepted : task ∈ s.submitted) : task ∈ s.finished := by
  have inv := account.inv
  have unlocked := inv.life.unlocked draining.begun
  obtain ⟨tasks, markers, ⟨numbers, size, fifo⟩, -, covered⟩ := draining.covered
  have free : ∀ worker ∈ s.workers, worker = .getting ∨ worker = .exited := by
    intro worker member
    obtain ⟨w, found⟩ := List.getElem?_of_mem member
    rcases resting_worker quiet.resting inv.queued unlocked found with left | ⟨waits, -⟩
    · exact .inr left
    · exact .inl waits
  -- a task left in the queue would have a worker asleep in `get`
  have none : numbers = [] := by
    by_contra some
    have positive : 0 < s.committed := by
      have more := List.length_pos_iff.mpr some
      omega
    obtain ⟨w, found⟩ := List.getElem?_of_mem (List.count_pos_iff.mp positive)
    have empty := resting_empty quiet.resting inv.queued unlocked found
    rw [← fifo.ring.count, List.length_append, List.length_map] at empty
    have more := List.length_pos_iff.mpr some
    omega
  have finished := inv.task_done fifo free (List.reduceOption_mem_iff.mp accepted)
    (by simp [none])
  exact List.count_pos_iff.mp (by rw [finished.2.2.1]; exact Nat.one_pos)

end draining

/-! ## Dropped tasks and stranded workers -/

/-- `_done` is set and the queue holds more tasks than workers are in `get`. -/
def Backlog (s : Pool) : Prop :=
  s.done = true ∧ ∃ tasks markers, s.Holding tasks markers ∧
    markers + s.destructor.markers s.size ≤ s.size ∧ s.committed < tasks

/-- `_done` is set and more workers are in `get` than elements will ever come. -/
def Starved (s : Pool) : Prop :=
  s.done = true ∧ s.destructor ≠ .finished ∧
    s.sys.ring.length + s.destructor.markers s.size < s.committed

section failing

variable {s s' : Pool} {action : Action}

/-- Once `_done` is set the pool is being destroyed. -/
theorem Lifecycle.begun_of_done (life : s.Lifecycle) (done : s.done = true) :
    s.destructor ≠ .absent := by
  intro absent
  have late := life.ending done
  simp [absent, Destructor.ending] at late

theorem Backlog.step (backlog : s.Backlog) (life : s.Lifecycle) (stepped : Step s action s') :
    s'.Backlog := by
  obtain ⟨done, tasks, markers, holding, bound, many⟩ := backlog
  obtain ⟨tasks', markers', after, drain⟩ := holding.step life (Stocked.unmarked bound) stepped
  refine ⟨step_done stepped done, tasks', markers', after, ?_⟩
  rw [step_size stepped]
  cases drain with
  | same workers left => omega
  | enter going => exact Bool.noConfusion (done.symm.trans going)
  | takeTask first workers same =>
    rw [same]
    omega
  | takeMarker none => omega
  | putMarker workers left => omega
  | unstarted _ workers finished =>
    rw [finished, Destructor.markers]
    omega
  | add alive => exact absurd alive (life.begun_of_done done)

/-- A task in the queue has not been run. -/
theorem Backlog.unfinished (backlog : s.Backlog) (inv : s.Invariant) :
    ∃ task ∈ s.submitted, task ∉ s.finished := by
  obtain ⟨-, tasks, markers, ⟨numbers, size, fifo⟩, -, many⟩ := backlog
  obtain ⟨task, rest, first⟩ := List.exists_cons_of_length_pos (show 0 < numbers.length by omega)
  have queued : some task ∈ numbers.map some ++ List.replicate markers none := by simp [first]
  have accepted : some task ∈ s.sys.stored := by
    rw [fifo.stored]
    exact List.mem_append_right _ queued
  refine ⟨task, List.reduceOption_mem_iff.mpr accepted, fun finished => ?_⟩
  obtain ⟨called, taken, -, once⟩ := inv.tracked.at_most_once inv.queued task
  have again := List.count_pos_iff.mpr queued
  have some := List.count_pos_iff.mpr finished
  rw [fifo.stored, List.count_append] at once
  split at once <;> omega

theorem Starved.step (starved : s.Starved) (account : s.Account) (stepped : Step s action s') :
    s'.Starved := by
  obtain ⟨done, unfinished, few⟩ := starved
  have life := account.inv.life
  have ending := (life.ending done).resolve_right unfinished
  have unfinished' : s'.destructor ≠ .finished := by
    intro finished
    cases stepped with
    | testUnstarted found => simp [found, Destructor.ending] at ending
    | @joined thread found none =>
      -- every worker has been joined, so none of them is in `get`
      have positive : 0 < s.committed := by omega
      obtain ⟨w, getting⟩ := List.getElem?_of_mem (List.count_pos_iff.mp positive)
      have inside := (List.getElem?_eq_some_iff.mp getting).1
      have outside := List.getElem?_eq_none_iff.mp none
      have left := account.joined thread found w (by omega)
      rw [getting] at left
      cases left
    | destroy | testStarted | setDone | terminate | terminated | join => cases finished
    | _ => exact unfinished finished
  obtain ⟨tasks, markers, holding, bound⟩ := account.stocked
  obtain ⟨tasks', markers', after, drain⟩ := holding.step life (Stocked.unmarked bound) stepped
  have length := holding.length
  have length' := after.length
  refine ⟨step_done stepped done, unfinished', ?_⟩
  rw [step_size stepped]
  cases drain with
  | same workers left => omega
  | enter going => exact Bool.noConfusion (done.symm.trans going)
  | takeTask first workers same =>
    rw [same]
    omega
  | takeMarker none first workers same =>
    rw [same]
    omega
  | putMarker workers left => omega
  | unstarted _ _ finished => exact absurd finished unfinished'
  | add alive => exact absurd alive (life.begun_of_done done)

/-- The first two steps of the destructor of a started pool. -/
theorem run_setDone (begun : s.destructor = .begun) (started : s.started = true) :
    run step s [.testStarted, .setDone] =
      some { s with done := true, destructor := .putting s.size } := by
  simp [run, Pool.step, begun, started]

/-- Letting the workers run until each of them sleeps. -/
theorem Account.exists_resting (account : s.Account) (begun : s.destructor = .begun) :
    ∃ actions t, run Pool.step s actions = some t ∧ t.Account ∧ t.destructor = .begun ∧
      t.workers.length = s.workers.length ∧ t.size = s.size ∧ t.submitted = s.submitted ∧
      t.Resting := by
  have keep : ∀ (u : Pool) (action : Action) (u' : Pool), (u.Account ∧ u.destructor = .begun ∧
      u.workers.length = s.workers.length ∧ u.size = s.size ∧ u.submitted = s.submitted) →
      action.byWorker = true → u.step action = some u' → (u'.Account ∧ u'.destructor = .begun ∧
      u'.workers.length = s.workers.length ∧ u'.size = s.size ∧
      u'.submitted = s.submitted) := by
    rintro u action u' ⟨held, begun, crew, size, accepted⟩ worker stepped
    have taken := step_sound stepped
    obtain ⟨-, crew', accepted'⟩ := held.inv.life.begun_step (by simp [begun]) taken
    refine ⟨held.step stepped, ?_, crew'.trans crew, (step_size taken).trans size,
      accepted'.trans accepted⟩
    cases taken <;> first | exact begun | simp [Action.byWorker] at worker
  obtain ⟨actions, t, -, done, held, resting⟩ := exists_run_stuck keep
    (fun u action u' held worker stepped =>
      held.1.inv.lower (Action.internal_of_byWorker worker) stepped)
    ⟨account, begun, rfl, rfl, rfl⟩
  exact ⟨actions, t, done, held.1, held.2.1, held.2.2.1, held.2.2.2.1, held.2.2.2.2, resting⟩

/-- With fewer workers in `get` than tasks in the queue some interleaving drops a task. -/
theorem not_shutsDown_of_backlog (account : s.Account) (begun : s.destructor = .begun)
    (many : s.committed < s.sys.ring.length) : ¬ s.ShutsDown := by
  intro ends
  obtain ⟨tasks, markers, holding, bound⟩ := account.stocked
  have length := holding.length
  have started : s.started = true := by
    by_contra off
    have none := (account.inv.life.unstarted (Bool.eq_false_of_not_eq_true off)).1
    obtain ⟨waiting, fifo⟩ := account.inv.queued.fifo
    have empty := fifo.stored
    rw [none, eq_comm, List.append_eq_nil_iff] at empty
    have count := fifo.ring.count
    rw [empty.2, List.length_nil] at count
    omega
  have first := run_setDone begun started
  have backlog : Backlog { s with done := true, destructor := .putting s.size } := by
    refine ⟨rfl, tasks, markers, holding, ?_, ?_⟩
    · rw [begun] at bound
      exact bound
    · rw [begun, Destructor.markers] at bound
      exact Nat.lt_of_lt_of_le many (by omega)
  have accepted : s.submitted =
      submitted { s with done := true, destructor := .putting s.size } := rfl
  have held := run_preserves (fun _ _ _ held stepped => Account.step held stepped) account first
  obtain ⟨actions, t, -, done, inv, quiet⟩ := held.inv.exists_quiet
  have after := run_preserves
    (P := fun u => u.Invariant ∧ u.Backlog ∧ u.submitted = s.submitted)
    (fun u action u' held stepped => by
      obtain ⟨inv, backlog, same⟩ := held
      have taken := step_sound stepped
      exact ⟨inv.step stepped, backlog.step inv.life taken,
        (inv.life.begun_step (inv.life.begun_of_done backlog.1) taken).2.2.trans same⟩)
    ⟨held.inv, backlog, accepted.symm⟩ done
  obtain ⟨task, member, dropped⟩ := after.2.1.unfinished inv
  rw [after.2.2] at member
  exact dropped ((ends _ t (run_append.mpr ⟨_, first, done⟩) quiet).2 task member)

/-- With more than `_pool_size` workers some interleaving leaves one of them in `get` forever. -/
theorem not_shutsDown_of_crowd (account : s.Account) (begun : s.destructor = .begun)
    (many : s.size < s.workers.length) : ¬ s.ShutsDown := by
  intro ends
  obtain ⟨before, v, reached, held, begun', crew, size, -, resting⟩ :=
    account.exists_resting begun
  have life := held.inv.life
  have started : v.started = true := by
    by_contra off
    have passed := held.counted.unstarted (Bool.eq_false_of_not_eq_true off)
    have none : starters v.clients = 0 := by
      refine List.countP_eq_zero.mpr fun client member => ?_
      rw [life.idle (by simp [begun']) client member]
      simp [Client.inside]
    have created := held.counted.created
    rw [passed, none] at created
    omega
  have unlocked := life.unlocked (by simp [begun'])
  have waiting : ∀ worker ∈ v.workers, worker = .getting := by
    intro worker member
    obtain ⟨w, found⟩ := List.getElem?_of_mem member
    rcases resting_worker resting held.inv.queued unlocked found with rfl | ⟨same, -⟩
    · have late := life.ending (life.exited member)
      simp [begun', Destructor.ending] at late
    · exact same
  have all : v.committed = v.workers.length :=
    List.count_eq_length.mpr fun worker member => (waiting worker member).symm
  have empty : v.sys.ring.length = 0 := by
    obtain ⟨first, rest, some⟩ :=
      List.exists_cons_of_length_pos (show 0 < v.workers.length by omega)
    have member : first ∈ v.workers := by simp [some]
    obtain ⟨w, found⟩ := List.getElem?_of_mem member
    rw [waiting first member] at found
    exact resting_empty resting held.inv.queued unlocked found
  have first := run_setDone begun' started
  have starved : Starved { v with done := true, destructor := .putting v.size } := by
    refine ⟨rfl, by simp, ?_⟩
    change v.sys.ring.length + v.size < v.committed
    omega
  have account' := run_preserves (fun _ _ _ held stepped => Account.step held stepped) held first
  obtain ⟨actions, t, -, done, -, quiet⟩ := account'.inv.exists_quiet
  have after := run_preserves (P := fun u => u.Account ∧ u.Starved)
    (fun u action u' held stepped =>
      ⟨held.1.step stepped, held.2.step held.1 (step_sound stepped)⟩)
    ⟨account', starved⟩ done
  refine after.2.2.1 (ends (before ++ ([.testStarted, .setDone] ++ actions)) t ?_ quiet).1
  exact run_append.mpr ⟨v, reached, run_append.mpr ⟨_, first, done⟩⟩

/-- With a worker in `get` for each task and no more than `_pool_size` workers, every
    interleaving runs every task. -/
theorem shutsDown_of_covered (account : s.Account) (begun : s.destructor = .begun)
    (few : s.workers.length ≤ s.size) (covered : s.sys.ring.length ≤ s.committed) :
    s.ShutsDown := by
  intro rest t done quiet
  obtain ⟨tasks, markers, holding, bound⟩ := account.stocked
  have length := holding.length
  have most := committed_le s
  have draining : s.Draining := by
    refine ⟨by simp [begun], few, fun _ => ?_, ⟨tasks, markers, holding, bound, by omega⟩, ?_⟩
    · rw [begun, Destructor.markers]
      omega
    · exact account.inv.queued.marker.resolve_right (by simp [begun])
  have after := run_preserves
    (P := fun u => u.Account ∧ u.Draining ∧ u.submitted = s.submitted)
    (fun u action u' held stepped => by
      obtain ⟨account, draining, same⟩ := held
      have taken := step_sound stepped
      exact ⟨account.step stepped, draining.step account taken,
        (account.inv.life.begun_step draining.begun taken).2.2.trans same⟩)
    ⟨account, draining, rfl⟩ done
  refine ⟨after.2.1.quiet_finished after.1 quiet, fun task member => ?_⟩
  exact after.2.1.quiet_done after.1 quiet (after.2.2 ▸ member)

end failing

/-- Every interleaving of the destructor with the workers is finite, and each of them runs every
    accepted task and finishes the destructor exactly when, as `~TaskPool` begins, there are at
    most `_pool_size` workers and at least one of them in `get` for each task in the queue. -/
theorem shutsDown_iff {size clients : Nat} (fits : size * 4 < 2 ^ 32) {actions : List Action}
    {s : Pool} (reached : run step (Pool.new size clients) actions = some s)
    (begun : s.destructor = .begun) :
    (∀ rest t, (∀ action ∈ rest, action.internal = true) → run step s rest = some t →
      rest.length ≤ s.cost) ∧
    (s.ShutsDown ↔ s.workers.length ≤ size ∧ s.sys.ring.length ≤ s.committed) := by
  have account := run_account fits reached
  have same := run_size reached
  refine ⟨fun rest t all done => ?_, fun ends => ⟨?_, ?_⟩, fun ⟨few, covered⟩ => ?_⟩
  · have bounded := account.inv.run_length all done
    omega
  · by_contra many
    exact not_shutsDown_of_crowd account begun (by omega) ends
  · by_contra many
    exact not_shutsDown_of_backlog account begun (by omega) ends
  · exact shutsDown_of_covered account begun (by omega) covered

theorem shutsDown_iff_idle_worker :
    ∃ s, run step (Pool.new 1 1) [.call 0, .test 0, .lock 0, .spawn 0, .start 0, .spawn 0, .spin 0,
        .create 0, .poll 0, .get 0 0, .add 0 0, .destroy] = some s ∧
      s.sys.ring.length = 1 ∧ s.ShutsDown := by
  obtain ⟨s, reached, begun, one, length, ready⟩ : ∃ s, run step (Pool.new 1 1) [.call 0, .test 0,
      .lock 0, .spawn 0, .start 0, .spawn 0, .spin 0, .create 0, .poll 0, .get 0 0, .add 0 0,
      .destroy] = some s ∧ s.destructor = .begun ∧ s.workers.length = 1 ∧
      s.sys.ring.length = 1 ∧ s.committed = 1 := ⟨_, rfl, rfl, rfl, rfl, rfl⟩
  exact ⟨s, reached, length, ((shutsDown_iff (by decide) reached begun).2).mpr ⟨by omega, by omega⟩⟩

/-- A pool of one worker that is destroyed while it runs task 0 and task 1 waits in the queue:
    the worker leaves after task 0, and the destructor finishes with task 1 not run. -/
theorem dropped_task :
    ∃ s, run step (Pool.new 1 1) [.call 0, .test 0, .lock 0, .spawn 0, .start 0, .spawn 0, .spin 0,
        .create 0, .add 0 0, .poll 0, .get 0 0, .forward 0, .call 0, .test 0, .create 0, .add 0 0,
        .destroy] = some s ∧ s.submitted = [0, 1] ∧ s.workers = [.running 0] ∧
      (run step s [.testStarted, .setDone, .terminate 0, .terminate 0, .ret 0 true, .publish 0,
        .notify 0, .poll 0, .join, .join]).map (fun t => (t.destructor, t.finished)) =
          some (.finished, [0]) ∧
      ¬ s.ShutsDown := by
  obtain ⟨s, reached, accepted, busy, final, begun, length, nobody⟩ : ∃ s,
      run step (Pool.new 1 1) [.call 0, .test 0, .lock 0, .spawn 0, .start 0, .spawn 0, .spin 0,
        .create 0, .add 0 0, .poll 0, .get 0 0, .forward 0, .call 0, .test 0, .create 0, .add 0 0,
        .destroy] = some s ∧ s.submitted = [0, 1] ∧ s.workers = [.running 0] ∧
      (run step s [.testStarted, .setDone, .terminate 0, .terminate 0, .ret 0 true, .publish 0,
        .notify 0, .poll 0, .join, .join]).map (fun t => (t.destructor, t.finished)) =
          some (.finished, [0]) ∧
      s.destructor = .begun ∧ s.sys.ring.length = 1 ∧ s.committed = 0 :=
    ⟨_, rfl, rfl, rfl, rfl, rfl, rfl, rfl⟩
  refine ⟨s, reached, accepted, busy, final, ?_⟩
  exact not_shutsDown_of_backlog (run_account (by decide) reached) begun (by omega)

end CviRuntime.Concurrency.Pool
