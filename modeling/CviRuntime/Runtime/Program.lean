import CviRuntime.Lib.Run
import CviRuntime.Runtime.Basic
import CviRuntime.Runtime.Neuron

/-!
# Inference (`src/common/program.cpp`, `src/common/runtime.cpp`)

A program runs its routines over its neurons. What the hardware or a CPU function does
in one routine is an `Outcome`: the return code of the hardware call and the bytes
written. Failed asserts and null dereferences end the program (`none`).
-/

namespace CviRuntime.Runtime

inductive RoutineKind where
  | tpu
  | cpu
  deriving DecidableEq, Repr

/-- `Routine` (`program.hpp:100-117`); inputs and outputs are indices of neurons. -/
structure Routine where
  kind : RoutineKind
  inputs : List Nat
  outputs : List Nat
  deriving DecidableEq, Repr

/-- `Program` (`program.hpp:27-98`). The neurons are listed in the order of `neuron_map`. -/
structure Program where
  neurons : List Neuron
  inTensors : List Nat
  outTensors : List Nat
  exportAllTensors : Bool
  routines : List Routine
  deriving DecidableEq, Repr

/-- What one run of a routine brings: the result of `CVI_RT_RunCmdbufEx` or
    `CVI_RT_RunCmdbufTee` (unused for a CPU routine), and the bytes written to each output
    neuron by offset. -/
structure Outcome where
  ret : Int
  writes : Nat → Nat → Option UInt8

/-- The TPU writes an output neuron in device memory. -/
def Neuron.tpuWrite (n : Neuron) (k : Nat) (data : Nat → Option UInt8) (m : Machine) : Machine :=
  match n.backing with
  | .device _ _ =>
    (m.setMemory (m.memory.devWrite (n.place n.size data))).noteWritten k n.size data
  | _ => m

/-- A CPU function reads an input: `cpu_data` (`neuron.hpp:42-46`) marks it, then its bytes
    are read. -/
def Neuron.cpuFuncRead (n : Neuron) (k : Nat) (m : Machine) : Option Machine :=
  (n.readSysMem k (m.setState k .cpuMem)).map Prod.snd

/-- A CPU function writes an output through `cpu_data`. -/
def Neuron.cpuFuncWrite (n : Neuron) (k : Nat) (data : Nat → Option UInt8) (m : Machine) :
    Option Machine :=
  n.writeSysMem k data (m.setState k .cpuMem)

namespace Program

/-- Apply an operation to the neuron `k`. -/
def onNeuron (p : Program) (f : Neuron → Nat → Machine → Option Machine) (m : Machine) (k : Nat) :
    Option Machine :=
  (p.neurons[k]?).bind fun n => f n k m

/-- Apply an operation to each of the neurons `ks` in turn. -/
def eachNeuron (p : Program) (f : Neuron → Nat → Machine → Option Machine) (ks : List Nat)
    (m : Machine) : Option Machine :=
  Run.run (p.onNeuron f) m ks

/-- The state a routine of each kind resets its outputs to. -/
def resetTo : RoutineKind → NeuronState
  | .tpu => .tpuMem
  | .cpu => .cpuMem

/-- `TpuRoutine::reset` and `CpuRoutine::reset` (`program.cpp:343-347,451-455`). -/
def resetRoutine (p : Program) (m : Machine) (r : Routine) : Option Machine :=
  p.eachNeuron (fun _ k m => some (m.setState k (resetTo r.kind))) r.outputs m

/-- The first loop of `Program::run` (`program.cpp:333-336`). -/
def reset (p : Program) (m : Machine) : Option Machine :=
  Run.run p.resetRoutine m p.routines

/-- `TpuRoutine::run` (`program.cpp:395-449`). -/
def tpuRoutineRun (p : Program) (r : Routine) (outcome : Outcome) (m : Machine) :
    Option (Int × Machine) :=
  (p.eachNeuron Neuron.toTpu r.inputs m).bind fun m =>
    (p.eachNeuron (fun n k m => some (n.tpuWrite k (outcome.writes k) m)) r.outputs m).map fun m =>
      (if outcome.ret ≠ 0 then cviRcFailure else cviRcSuccess, m)

/-- `CpuRoutine::run` (`program.cpp:573-600`). -/
def cpuRoutineRun (p : Program) (r : Routine) (outcome : Outcome) (m : Machine) :
    Option (Int × Machine) :=
  (p.eachNeuron Neuron.toCpu r.inputs m).bind fun m =>
    (p.eachNeuron Neuron.cpuFuncRead r.inputs m).bind fun m =>
      (p.eachNeuron (fun n k m => n.cpuFuncWrite k (outcome.writes k) m) r.outputs m).map fun m =>
        (cviRcSuccess, m)

/-- `Routine::run`. -/
def runRoutine (p : Program) (r : Routine) (outcome : Outcome) (m : Machine) :
    Option (Int × Machine) :=
  match r.kind with
  | .tpu => p.tpuRoutineRun r outcome m
  | .cpu => p.cpuRoutineRun r outcome m

/-- The second loop of `Program::run` (`program.cpp:337-339`), which drops what `r->run()`
    returns. The list holds the routines run, with the code each returned. -/
def runLoop (p : Program) (hw : Nat → Outcome) :
    Nat → List Routine → Machine → Option (List (Nat × Int) × Machine)
  | _, [], m => some ([], m)
  | index, r :: rest, m =>
    (p.runRoutine r (hw index) m).bind fun (rc, m) =>
      (p.runLoop hw (index + 1) rest m).map fun (ran, m) => ((index, rc) :: ran, m)

/-- What a call returns, the routines that ran, the machine after it. -/
structure Result (α : Type) where
  value : α
  ran : List (Nat × Int)
  machine : Machine

/-- `Program::run` (`program.cpp:332-341`). -/
def run (p : Program) (hw : Nat → Outcome) (m : Machine) : Option (Result Bool) :=
  (p.reset m).bind fun m =>
    (p.runLoop hw 0 p.routines m).map fun (ran, m) => ⟨true, ran, m⟩

/-- Load the input tensors (`program.cpp:270-273`). -/
def loadAll (p : Program) (tensors : List (Nat × InputTensor)) (m : Machine) : Option Machine :=
  Run.run (fun m (k, tensor) => p.onNeuron (fun n k m => n.load k tensor m) m k) m tensors

/-- Store the output tensors (`program.cpp:292-308`). -/
def storeAll (p : Program) :
    List (Nat × OutputTensor) → Machine → Option (List (Nat → Option UInt8) × Machine)
  | [], m => some ([], m)
  | (k, tensor) :: rest, m =>
    ((p.neurons[k]?).bind fun n => n.store k tensor m).bind fun (bytes, m) =>
      (p.storeAll rest m).map fun (more, m) => (bytes :: more, m)

/-- The neurons stored at the end of an inference: the outputs, or with
    `_export_all_tensors` every neuron of the map that is not overwritten. -/
def stored (p : Program) : List Nat :=
  if p.exportAllTensors then
    (List.range p.neurons.length).filter fun k =>
      match p.neurons[k]? with
      | some n => !n.overwrote
      | none => false
  else p.outTensors

/-- The arguments of an inference. -/
structure Call where
  inputs : List InputTensor
  outputs : List OutputTensor

/-- `Program::forward` (`program.cpp:261-318`). The asserts compare the numbers of tensors. -/
def forward (p : Program) (call : Call) (hw : Nat → Outcome) (m : Machine) :
    Option (Result Bool) :=
  if call.inputs.length ≠ p.inTensors.length then none else
  (p.loadAll (p.inTensors.zip call.inputs) m).bind fun m =>
    (p.run hw m).bind fun result =>
      if ¬ result.value then some { result with value := false }
      else if call.outputs.length ≠ p.stored.length then none
      else (p.storeAll (p.stored.zip call.outputs) result.machine).map fun (_, m) =>
        { value := true, ran := result.ran, machine := m }

/-- `CVI_NN_Forward` (`runtime.cpp:271-277`). -/
def cviNNForward (p : Program) (call : Call) (hw : Nat → Outcome) (m : Machine) :
    Option (Result Int) :=
  (p.forward call hw m).map fun result =>
    { value := if result.value then cviRcSuccess else cviRcFailure, ran := result.ran,
      machine := result.machine }

/-! ## Failures of a routine -/

/-- What the source expects of a failing routine: an inference in which a routine's `run`
    returned another code than success reports failure at every layer, and that routine is
    the last one that ran. -/
structure FailurePropagates (p : Program) (call : Call) (hw : Nat → Outcome) (m : Machine) :
    Prop where
  run : ∀ m', p.loadAll (p.inTensors.zip call.inputs) m = some m' →
    ∀ result, p.run hw m' = some result →
      (∃ entry ∈ result.ran, entry.2 ≠ cviRcSuccess) → result.value = false
  forward : ∀ result, p.forward call hw m = some result →
    (∃ entry ∈ result.ran, entry.2 ≠ cviRcSuccess) → result.value = false
  cviNNForward : ∀ result, p.cviNNForward call hw m = some result →
    (∃ entry ∈ result.ran, entry.2 ≠ cviRcSuccess) → result.value = cviRcFailure
  stops : ∀ result, p.forward call hw m = some result →
    ∀ before entry after, result.ran = before ++ entry :: after → entry.2 ≠ cviRcSuccess →
      after = []

/-- Every hardware call of the program's TPU routines succeeds. -/
def HardwareOk (p : Program) (hw : Nat → Outcome) : Prop :=
  ∀ index r, p.routines[index]? = some r → r.kind = .tpu → (hw index).ret = 0

/-- The code `Routine::run` returns: only the hardware call can make it fail. -/
def code (r : Routine) (outcome : Outcome) : Int :=
  match r.kind with
  | .tpu => if outcome.ret ≠ 0 then cviRcFailure else cviRcSuccess
  | .cpu => cviRcSuccess

theorem code_ne_success_iff {r : Routine} {outcome : Outcome} :
    code r outcome ≠ cviRcSuccess ↔ r.kind = .tpu ∧ outcome.ret ≠ 0 := by
  cases kind : r.kind with
  | tpu =>
    by_cases failed : outcome.ret = 0 <;> simp [code, kind, failed, cviRcSuccess, cviRcFailure]
  | cpu => simp [code, kind]

theorem runRoutine_code {p : Program} {r : Routine} {outcome : Outcome} {m m' : Machine} {rc : Int}
    (done : p.runRoutine r outcome m = some (rc, m')) : rc = code r outcome := by
  unfold runRoutine at done
  cases kind : r.kind with
  | tpu =>
    simp only [kind, tpuRoutineRun, Option.bind_eq_some_iff, Option.map_eq_some_iff] at done
    obtain ⟨_, _, _, _, same⟩ := done
    rw [code, kind]
    exact (congrArg Prod.fst same).symm
  | cpu =>
    simp only [kind, cpuRoutineRun, Option.bind_eq_some_iff, Option.map_eq_some_iff] at done
    obtain ⟨_, _, _, _, _, _, same⟩ := done
    rw [code, kind]
    exact (congrArg Prod.fst same).symm

/-- The loop runs every routine, whatever the others returned. -/
theorem mem_runLoop_iff {p : Program} {hw : Nat → Outcome} :
    ∀ {rs : List Routine} {index : Nat} {m m' : Machine} {ran : List (Nat × Int)},
      p.runLoop hw index rs m = some (ran, m') → ∀ entry : Nat × Int,
      (entry ∈ ran ↔
        ∃ i r, rs[i]? = some r ∧ entry = (index + i, code r (hw (index + i)))) := by
  intro rs
  induction rs with
  | nil =>
    intro index m m' ran done entry
    cases done
    simp
  | cons r rest ih =>
    intro index m m' ran done entry
    simp only [runLoop, Option.bind_eq_some_iff, Option.map_eq_some_iff] at done
    obtain ⟨⟨rc, m₁⟩, first, ⟨more, m₂⟩, later, same⟩ := done
    cases same
    rw [List.mem_cons, ih later entry, runRoutine_code first]
    constructor
    · rintro (rfl | ⟨i, r', found, rfl⟩)
      · exact ⟨0, r, rfl, rfl⟩
      · refine ⟨i + 1, r', by simpa using found, ?_⟩
        rw [Nat.add_right_comm, Nat.add_assoc]
    · rintro ⟨i, r', found, rfl⟩
      cases i with
      | zero =>
        left
        cases Option.some.inj found
        rfl
      | succ i =>
        right
        refine ⟨i, r', by simpa using found, ?_⟩
        rw [Nat.add_right_comm, Nat.add_assoc]

/-- `Program::run` returns true, and some routine failed exactly when a hardware call did. -/
theorem run_spec {p : Program} {hw : Nat → Outcome} {m : Machine} {result : Result Bool}
    (done : p.run hw m = some result) :
    result.value = true ∧
      ((∃ entry ∈ result.ran, entry.2 ≠ cviRcSuccess) ↔ ¬ HardwareOk p hw) := by
  simp only [run, Option.bind_eq_some_iff, Option.map_eq_some_iff] at done
  obtain ⟨m₁, -, ⟨ran, m₂⟩, loop, rfl⟩ := done
  refine ⟨rfl, ?_⟩
  constructor
  · rintro ⟨entry, member, failed⟩ ok
    obtain ⟨i, r, found, rfl⟩ := (mem_runLoop_iff loop entry).mp member
    rw [Nat.zero_add] at failed
    obtain ⟨tpu, wrong⟩ := code_ne_success_iff.mp failed
    exact wrong (ok i r found tpu)
  · intro bad
    simp only [HardwareOk, not_forall] at bad
    obtain ⟨i, r, found, tpu, wrong⟩ := bad
    refine ⟨(0 + i, code r (hw (0 + i))), (mem_runLoop_iff loop _).mpr ⟨i, r, found, rfl⟩, ?_⟩
    rw [Nat.zero_add]
    exact code_ne_success_iff.mpr ⟨tpu, wrong⟩

theorem forward_spec {p : Program} {call : Call} {hw : Nat → Outcome} {m : Machine}
    {result : Result Bool} (done : p.forward call hw m = some result) :
    result.value = true ∧
      ((∃ entry ∈ result.ran, entry.2 ≠ cviRcSuccess) ↔ ¬ HardwareOk p hw) := by
  unfold forward at done
  split at done
  · cases done
  · simp only [Option.bind_eq_some_iff] at done
    obtain ⟨m₁, -, ran, loop, rest⟩ := done
    obtain ⟨succeeded, failures⟩ := run_spec loop
    rw [if_neg (by simp [succeeded])] at rest
    split at rest
    · cases rest
    · obtain ⟨⟨bytes, m₂⟩, -, rfl⟩ := Option.map_eq_some_iff.mp rest
      exact ⟨rfl, failures⟩

/-- A failing routine is reported and stops the inference exactly when there is none:
    `Program::run` ignores the codes its routines return. -/
theorem failurePropagates_iff_hardwareOk (p : Program) (call : Call) (hw : Nat → Outcome)
    (m : Machine) (result : Result Bool) (returns : p.forward call hw m = some result) :
    FailurePropagates p call hw m ↔ HardwareOk p hw := by
  constructor
  · intro propagates
    by_contra bad
    obtain ⟨succeeded, failures⟩ := forward_spec returns
    have reported := propagates.forward result returns (failures.mpr bad)
    rw [succeeded] at reported
    cases reported
  · intro ok
    refine ⟨?_, ?_, ?_, ?_⟩
    · intro m' _ ran done failed
      exact absurd ok ((run_spec done).2.mp failed)
    · intro ran done failed
      exact absurd ok ((forward_spec done).2.mp failed)
    · intro ran done failed
      obtain ⟨inner, done', rfl⟩ := Option.map_eq_some_iff.mp done
      exact absurd ok ((forward_spec done').2.mp failed)
    · intro ran done before entry after split failed
      exact absurd ok ((forward_spec done).2.mp ⟨entry, by simp [split], failed⟩)

/-- Two TPU routines over one neuron, of which the first one's hardware call may fail. -/
def twoRoutines : Program where
  neurons := [⟨4, 1, 4, 4, false, .device 0 (0, 4)⟩]
  inTensors := [0]
  outTensors := [0]
  exportAllTensors := false
  routines := [⟨.tpu, [0], [0]⟩, ⟨.tpu, [0], [0]⟩]

/-- A machine with zeroed memory, fresh from `Program::load`. -/
def zeroed : Machine where
  memory := ⟨fun _ => 0, fun _ => none⟩
  state := fun _ => .tpuMem
  cpuMem := fun _ _ => 0
  last := fun _ _ => 0

def oneTensor : Call where
  inputs := [.system fun _ => 1]
  outputs := [.system]

theorem forward_twoRoutines (hw : Nat → Outcome) :
    ∃ m, twoRoutines.forward oneTensor hw zeroed =
      some ⟨true, [(0, code ⟨.tpu, [0], [0]⟩ (hw 0)), (1, code ⟨.tpu, [0], [0]⟩ (hw 1))], m⟩ :=
  ⟨_, rfl⟩

theorem failurePropagates_twoRoutines :
    FailurePropagates twoRoutines oneTensor (fun _ => ⟨0, fun _ _ => none⟩) zeroed := by
  obtain ⟨m, returns⟩ := forward_twoRoutines fun _ => ⟨0, fun _ _ => none⟩
  exact (failurePropagates_iff_hardwareOk twoRoutines oneTensor _ zeroed _ returns).mpr
    fun _ _ _ _ => rfl

/-- The first hardware call returns -1: the second routine runs all the same and
    `CVI_NN_Forward` reports success. -/
theorem cviNNForward_ignores_failure :
    (∃ m, twoRoutines.cviNNForward oneTensor (fun i => ⟨if i = 0 then -1 else 0, fun _ _ => none⟩)
        zeroed = some ⟨cviRcSuccess, [(0, cviRcFailure), (1, cviRcSuccess)], m⟩) ∧
      ¬ FailurePropagates twoRoutines oneTensor
        (fun i => ⟨if i = 0 then -1 else 0, fun _ _ => none⟩) zeroed := by
  refine ⟨⟨_, rfl⟩, ?_⟩
  intro propagates
  obtain ⟨m, returns⟩ := forward_twoRoutines fun i => ⟨if i = 0 then -1 else 0, fun _ _ => none⟩
  have reported := propagates.forward _ returns ⟨_, List.mem_cons_self, by decide⟩
  cases reported

end Program

end CviRuntime.Runtime
