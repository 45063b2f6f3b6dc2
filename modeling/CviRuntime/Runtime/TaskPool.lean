import CviRuntime.Lib.Run
import CviRuntime.Runtime.Program

/-!
# Asynchronous inference (`src/common/taskpool.cpp`)

`CVI_NN_ForwardAsync` makes a `Task` whose `retCode` is `CVI_RC_UNINIT` and queues it;
a worker thread takes it, calls `Program::forward` and stores the result in `retCode`;
`CVI_NN_ForwardWait` returns `retCode` once it has changed. The steps of the clients and
of the workers interleave freely; the programs sharing the pool are known by number.
-/

namespace CviRuntime.Runtime

open Program (Call)

/-- `Task` (`taskpool.hpp:23-35`). `ranOn` is not in the code: the machine on which a worker
    called `forward`. -/
structure Task where
  program : Nat
  call : Call
  hw : Nat → Outcome
  retCode : Int
  ranOn : Option Machine

/-- `TaskPool` (`taskpool.hpp:83-110`) with the programs' machines. `queue` holds the numbers
    of the tasks put and not yet taken, `workers` the task each worker is running. -/
structure TaskPool where
  tasks : List Task
  queue : List Nat
  workers : List (Option Nat)
  machines : Nat → Machine

inductive PoolAction where
  /-- `CVI_NN_ForwardAsync` -/
  | forwardAsync (program : Nat) (call : Call) (hw : Nat → Outcome)
  /-- a worker takes a task from the queue -/
  | get (worker : Nat)
  /-- a worker runs `forward` and sets `retCode` -/
  | work (worker : Nat)

namespace TaskPool

/-- `(CVI_RC)` of a `bool`. -/
def rcOfBool (value : Bool) : Int := if value then 1 else 0

/-- The capacity of the queue of a pool of `workers` (`taskpool.hpp:86`). -/
def capacity (pool : TaskPool) : Nat := pool.workers.length * 4

/-- `Program::forwardAsync` and the constructor of `Task` (`program.cpp:320-324`,
    `taskpool.cpp:11-17`); `RingQueue::put` blocks while one place is left. -/
def forwardAsync (pool : TaskPool) (program : Nat) (call : Call) (hw : Nat → Outcome) :
    Option TaskPool :=
  if pool.capacity - pool.queue.length ≤ 1 then none else
  some { pool with
    tasks := pool.tasks ++ [⟨program, call, hw, cviRcUninit, none⟩]
    queue := pool.queue ++ [pool.tasks.length] }

/-- `RingQueue::get` by an idle worker. -/
def get (pool : TaskPool) (worker : Nat) : Option TaskPool :=
  match pool.workers[worker]?, pool.queue with
  | some none, task :: rest => some { pool with
      queue := rest, workers := pool.workers.set worker (some task) }
  | _, _ => none

/-- The body of the loop of `TaskPool::workFunc` after `get` (`taskpool.cpp:49-55`). -/
def work (programs : Nat → Program) (pool : TaskPool) (worker : Nat) : Option TaskPool :=
  match pool.workers[worker]? with
  | some (some number) =>
    (pool.tasks[number]?).bind fun task =>
      ((programs task.program).forward task.call task.hw (pool.machines task.program)).map
        fun result =>
          { pool with
            tasks := pool.tasks.set number { task with
              retCode := rcOfBool result.value, ranOn := some (pool.machines task.program) }
            workers := pool.workers.set worker none
            machines := fun k =>
              if k = task.program then result.machine else pool.machines k }
  | _ => none

/-- One step of a client or of a worker; `none` when it blocks or ends the program. -/
def step (programs : Nat → Program) (pool : TaskPool) : PoolAction → Option TaskPool
  | .forwardAsync program call hw => pool.forwardAsync program call hw
  | .get worker => pool.get worker
  | .work worker => pool.work programs worker

/-- `CVI_NN_ForwardWait`, i.e. `Program::forwardWait` and `TaskPool::waitTask`
    (`program.cpp:326-330`, `taskpool.cpp:59-63`): `none` while it waits. -/
def forwardWait (pool : TaskPool) (number : Nat) : Option Int :=
  (pool.tasks[number]?).bind fun task =>
    if task.retCode = cviRcUninit then none else some task.retCode

/-- A started pool with nothing submitted. -/
def initial (workers : Nat) (machines : Nat → Machine) : TaskPool where
  tasks := []
  queue := []
  workers := List.replicate workers none
  machines := machines

/-- The task has not run, or its code is the result of `forward` as an integer. -/
def Task.Honest (programs : Nat → Program) (task : Task) : Prop :=
  (task.retCode = cviRcUninit ∧ task.ranOn = none) ∨
    ∃ m result, task.ranOn = some m ∧
      (programs task.program).forward task.call task.hw m = some result ∧
      task.retCode = rcOfBool result.value

def Inv (programs : Nat → Program) (pool : TaskPool) : Prop :=
  ∀ task ∈ pool.tasks, Task.Honest programs task

theorem inv_step (programs : Nat → Program) (pool : TaskPool) (action : PoolAction)
    (pool' : TaskPool) (inv : Inv programs pool)
    (stepped : step programs pool action = some pool') :
    Inv programs pool' := by
  cases action with
  | forwardAsync program call hw =>
    simp only [step, forwardAsync] at stepped
    split at stepped
    · cases stepped
    · cases stepped
      intro task member
      rcases List.mem_append.mp member with old | new
      · exact inv task old
      · rw [List.mem_singleton] at new
        subst new
        exact Or.inl ⟨rfl, rfl⟩
  | get worker =>
    simp only [step, get] at stepped
    split at stepped
    · cases stepped
      exact inv
    · cases stepped
  | work worker =>
    simp only [step, work] at stepped
    split at stepped
    · obtain ⟨task, -, ran⟩ := Option.bind_eq_some_iff.mp stepped
      obtain ⟨result, done, rfl⟩ := Option.map_eq_some_iff.mp ran
      intro other member
      rcases List.mem_or_eq_of_mem_set member with old | rfl
      · exact inv other old
      · exact Or.inr ⟨_, result, rfl, done, rfl⟩
    · cases stepped

theorem run_inv {programs : Nat → Program} {workers : Nat} {machines : Nat → Machine}
    {actions : List PoolAction} {pool : TaskPool}
    (reached : Run.run (step programs) (initial workers machines) actions = some pool) :
    Inv programs pool := by
  have start : Inv programs (initial workers machines) := by
    intro task member
    cases member
  exact Run.run_preserves (inv_step programs) start reached

/-- The code of the synchronous call on a machine where `forward` returns. -/
theorem cviNNForward_value {p : Program} {call : Call} {hw : Nat → Outcome} {m : Machine}
    {result : Program.Result Bool} (done : p.forward call hw m = some result) :
    p.cviNNForward call hw m = some
      ⟨if result.value then cviRcSuccess else cviRcFailure, result.ran, result.machine⟩ := by
  rw [Program.cviNNForward, done]
  rfl

/-- As an integer, neither result is the code of the synchronous call, nor `CVI_RC_UNINIT`. -/
theorem rcOfBool_ne (value : Bool) :
    rcOfBool value ≠ (if value then cviRcSuccess else cviRcFailure) ∧
      rcOfBool value ≠ cviRcUninit := by
  cases value <;> decide

/-- A task that is alone in the pool: submitted, taken by the first worker, run. -/
theorem run_single_task (programs : Nat → Program) (others : Nat) (machines : Nat → Machine)
    (program : Nat) (call : Call) (hw : Nat → Outcome) (result : Program.Result Bool)
    (done : (programs program).forward call hw (machines program) = some result) :
    Run.run (step programs) (initial (others + 1) machines)
      [.forwardAsync program call hw, .get 0, .work 0] = some
        { tasks := [⟨program, call, hw, rcOfBool result.value, some (machines program)⟩]
          queue := []
          workers := List.replicate (others + 1) none
          machines := fun k => if k = program then result.machine else machines k } := by
  have room : ¬ (initial (others + 1) machines).capacity -
      (initial (others + 1) machines).queue.length ≤ 1 := by
    simp only [capacity, initial, List.length_replicate, List.length_nil]
    omega
  rw [Run.run_cons]
  refine ⟨_, if_neg room, ?_⟩
  rw [Run.run_cons]
  refine ⟨_, rfl, ?_⟩
  rw [Run.run_cons]
  refine ⟨_, ?_, Run.run_nil _⟩
  simp only [step, work, initial, List.replicate_succ, List.set_cons_zero,
    List.getElem?_cons_zero, List.nil_append, List.length_nil, Option.bind_some, done]
  rfl

/-- In every run of the pool, the code `CVI_NN_ForwardWait` returns for a task differs from
    the code `CVI_NN_Forward` returns for the same call on the same machine, and it is not
    `CVI_RC_UNINIT`. Every call whose `forward` returns does get such a code. -/
theorem forwardWait_ne_forward (programs : Nat → Program) (workers : Nat)
    (machines : Nat → Machine) :
    (∀ actions pool number code,
      Run.run (step programs) (initial workers machines) actions = some pool →
      pool.forwardWait number = some code →
      ∃ task m sync, pool.tasks[number]? = some task ∧ task.ranOn = some m ∧
        (programs task.program).cviNNForward task.call task.hw m = some sync ∧
        code ≠ sync.value ∧ code ≠ cviRcUninit) ∧
    (0 < workers → ∀ program call hw result,
      (programs program).forward call hw (machines program) = some result →
      ∃ pool, Run.run (step programs) (initial workers machines)
          [.forwardAsync program call hw, .get 0, .work 0] = some pool ∧
        pool.forwardWait 0 = some (rcOfBool result.value)) := by
  constructor
  · intro actions pool number code reached returned
    obtain ⟨task, found, ready⟩ := Option.bind_eq_some_iff.mp returned
    split at ready
    · cases ready
    · rename_i changed
      cases ready
      rcases run_inv reached task (List.mem_of_getElem? found) with waiting | ran
      · exact absurd waiting.1 changed
      · obtain ⟨m, result, ranOn, done, code⟩ := ran
        refine ⟨task, m, _, found, ranOn, cviNNForward_value done, ?_, changed⟩
        rw [code]
        exact (rcOfBool_ne result.value).1
  · intro some_worker program call hw result done
    obtain ⟨others, rfl⟩ : ∃ others, workers = others + 1 := ⟨workers - 1, by omega⟩
    refine ⟨_, run_single_task programs others machines program call hw result done, ?_⟩
    simp only [forwardWait, List.getElem?_cons_zero, Option.bind_some]
    exact if_neg (rcOfBool_ne result.value).2

/-- One task in a pool of one worker: `CVI_NN_ForwardWait` returns 1 where `CVI_NN_Forward`
    returns `CVI_RC_SUCCESS`. -/
theorem forwardWait_ne_forward_one_task :
    ∃ pool, Run.run (step fun _ => Program.twoRoutines) (initial 1 fun _ => Program.zeroed)
        [.forwardAsync 0 Program.oneTensor fun _ => ⟨0, fun _ _ => none⟩, .get 0, .work 0] =
          some pool ∧
      pool.forwardWait 0 = some 1 ∧
      ∃ task m sync, pool.tasks[0]? = some task ∧ task.ranOn = some m ∧
        Program.twoRoutines.cviNNForward task.call task.hw m = some sync ∧
        1 ≠ sync.value ∧ (1 : Int) ≠ cviRcUninit := by
  obtain ⟨m, done⟩ := Program.forward_twoRoutines fun _ => ⟨0, fun _ _ => none⟩
  have both := forwardWait_ne_forward (fun _ => Program.twoRoutines) 1 fun _ => Program.zeroed
  obtain ⟨pool, reached, waited⟩ := both.2 (by decide) 0 Program.oneTensor _ _ done
  exact ⟨pool, reached, waited, both.1 _ pool 0 1 reached waited⟩

/-- The two codes side by side, on an inference that succeeds. -/
theorem forwardWait_returns_one :
    (∃ pool, Run.run (step fun _ => Program.twoRoutines) (initial 1 fun _ => Program.zeroed)
        [.forwardAsync 0 Program.oneTensor fun _ => ⟨0, fun _ _ => none⟩, .get 0, .work 0] =
          some pool ∧ pool.forwardWait 0 = some 1) ∧
      ∃ sync, Program.twoRoutines.cviNNForward Program.oneTensor
        (fun _ => ⟨0, fun _ _ => none⟩) Program.zeroed = some sync ∧ sync.value = cviRcSuccess ∧
        (1 : Int) ≠ cviRcSuccess := by
  obtain ⟨m, done⟩ := Program.forward_twoRoutines fun _ => ⟨0, fun _ _ => none⟩
  refine ⟨⟨_, run_single_task (fun _ => Program.twoRoutines) 0 (fun _ => Program.zeroed) 0
    Program.oneTensor _ _ done, rfl⟩, ?_⟩
  exact ⟨_, cviNNForward_value done, rfl, by decide⟩

end TaskPool

end CviRuntime.Runtime
