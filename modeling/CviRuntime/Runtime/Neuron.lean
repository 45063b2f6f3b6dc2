import CviRuntime.Lib.Interval
import CviRuntime.Lib.WriteBackCache

/-!
# Neurons (`src/common/neuron.cpp`)

A neuron's bytes live in a part `_gmem` of a device block `_base_mem`, which the
processor reaches through its cache and the TPU directly, or, when the model gives
the neuron no device memory, in a heap buffer `_cpu_mem`. `_state` says on which
side the current bytes are. A null `_gmem` or `_cpu_mem` that is used ends the
program: the operations return `none`.
-/

namespace CviRuntime.Runtime

open CviRuntime.Interval (Slot)

/-- `Neuron::NeuronState` (`neuron.hpp:19-22`). -/
inductive NeuronState where
  | tpuMem
  | cpuMem
  deriving DecidableEq, Repr

/-- Where the bytes of a neuron are: `reserveIonMem` (`neuron.cpp:486-514`) places it at
    an address inside a base block unless its offset is -1; `reserveSysMem`
    (`neuron.cpp:516-538`) gives the others a heap buffer if a CPU routine uses them. -/
inductive Backing where
  | device (paddr : Nat) (baseMem : Slot)
  | heap
  | unbacked
  deriving DecidableEq, Repr

/-- The fixed part of a neuron. A TDMA copy of its shape moves `copyWidth` bytes of each of
    `copyRows` rows that begin `copyStride` bytes apart: less than `_size` for an aligned neuron,
    and only the first part of each row where elements are wider than a byte. -/
structure Neuron where
  size : Nat
  copyRows : Nat
  copyWidth : Nat
  copyStride : Nat
  overwrote : Bool
  backing : Backing
  deriving DecidableEq, Repr

namespace Neuron

/-- `_paddr`, 0 for a neuron without device memory. -/
def paddr (n : Neuron) : Nat :=
  match n.backing with
  | .device paddr _ => paddr
  | _ => 0

/-- The addresses of `_gmem`. -/
def gmem (n : Neuron) (a : Nat) : Bool :=
  match n.backing with
  | .device paddr _ => paddr ≤ a && a < paddr + n.size
  | _ => false

/-- The addresses of `_base_mem`. -/
def baseMem (n : Neuron) (a : Nat) : Bool :=
  match n.backing with
  | .device _ base => base.1 ≤ a && a < base.1 + base.2
  | _ => false

/-- Bytes given by offset, as a write to device addresses. -/
def place (n : Neuron) (limit : Nat) (data : Nat → Option UInt8) (a : Nat) : Option UInt8 :=
  if n.paddr ≤ a ∧ a < n.paddr + limit then data (a - n.paddr) else none

/-- Where the rows of a TDMA copy end. -/
def copySize (n : Neuron) : Nat := n.copyRows * n.copyStride

/-- The offsets that a TDMA copy moves. -/
def copied (n : Neuron) (i : Nat) : Bool := i < n.copySize && i % n.copyStride < n.copyWidth

/-- What a TDMA copy moves of the given bytes. -/
def copyData (n : Neuron) (data : Nat → UInt8) (i : Nat) : Option UInt8 :=
  if n.copied i then some (data i) else none

end Neuron

/-- What the neurons of a program are at a moment. `last` is not in the code: the byte
    last written at each offset of each neuron. -/
structure Machine where
  memory : WriteBackCache Nat UInt8
  state : Nat → NeuronState
  cpuMem : Nat → Nat → UInt8
  last : Nat → Nat → UInt8

namespace Machine

def setState (m : Machine) (k : Nat) (state : NeuronState) : Machine :=
  { m with state := fun j => if j = k then state else m.state j }

def setMemory (m : Machine) (memory : WriteBackCache Nat UInt8) : Machine :=
  { m with memory := memory }

/-- The bytes below `limit` that are given become the last written ones of neuron `k`. -/
def noteWritten (m : Machine) (k limit : Nat) (data : Nat → Option UInt8) : Machine :=
  { m with last := fun j i =>
      if j = k ∧ i < limit then (data i).getD (m.last j i) else m.last j i }

@[simp] theorem memory_setState (m : Machine) (k : Nat) (s : NeuronState) :
    (m.setState k s).memory = m.memory := rfl

@[simp] theorem last_setState (m : Machine) (k : Nat) (s : NeuronState) :
    (m.setState k s).last = m.last := rfl

@[simp] theorem state_setState_self (m : Machine) (k : Nat) (s : NeuronState) :
    (m.setState k s).state k = s := by simp [setState]

theorem state_setState_of_ne (m : Machine) {j k : Nat} (s : NeuronState) (other : j ≠ k) :
    (m.setState k s).state j = m.state j := by simp [setState, other]

@[simp] theorem memory_setMemory (m : Machine) (memory : WriteBackCache Nat UInt8) :
    (m.setMemory memory).memory = memory := rfl

@[simp] theorem state_setMemory (m : Machine) (memory : WriteBackCache Nat UInt8) :
    (m.setMemory memory).state = m.state := rfl

@[simp] theorem last_setMemory (m : Machine) (memory : WriteBackCache Nat UInt8) :
    (m.setMemory memory).last = m.last := rfl

@[simp] theorem setMemory_setMemory (m : Machine) (memory memory' : WriteBackCache Nat UInt8) :
    (m.setMemory memory).setMemory memory' = m.setMemory memory' := rfl

@[simp] theorem memory_noteWritten (m : Machine) (k limit : Nat) (data : Nat → Option UInt8) :
    (m.noteWritten k limit data).memory = m.memory := rfl

@[simp] theorem state_noteWritten (m : Machine) (k limit : Nat) (data : Nat → Option UInt8) :
    (m.noteWritten k limit data).state = m.state := rfl

theorem last_noteWritten_of_ne (m : Machine) {j k : Nat} (limit : Nat)
    (data : Nat → Option UInt8) (other : j ≠ k) (i : Nat) :
    (m.noteWritten k limit data).last j i = m.last j i := by simp [noteWritten, other]

theorem last_noteWritten_self (m : Machine) (k : Nat) {limit i : Nat}
    (data : Nat → Option UInt8) (inside : i < limit) :
    (m.noteWritten k limit data).last k i = (data i).getD (m.last k i) := by
  simp [noteWritten, inside]

theorem last_noteWritten_of_le (m : Machine) (k : Nat) {limit i : Nat}
    (data : Nat → Option UInt8) (outside : limit ≤ i) :
    (m.noteWritten k limit data).last k i = m.last k i := by
  simp [noteWritten, Nat.not_lt.mpr outside]

end Machine

/-- The tensor a client passes to `Neuron::load`. A tensor in place is the neuron's own
    memory (`_vaddr == tensor.sys_mem`, or `tensor.paddr == _paddr`): its bytes were put
    there by the client, through the processor or by another device. -/
inductive InputTensor where
  | system (data : Nat → UInt8)
  | systemInPlace (data : Nat → UInt8)
  | device (data : Nat → UInt8)
  | deviceInPlace (data : Nat → UInt8)

/-- The tensor a client passes to `Neuron::store`. -/
inductive OutputTensor where
  | system
  | systemInPlace
  | device
  | deviceInPlace
  deriving DecidableEq, Repr

namespace Neuron

/-- The processor writes the neuron through `sys_mem()` (`neuron.hpp:65-67`). -/
def writeSysMem (n : Neuron) (k : Nat) (data : Nat → Option UInt8) (m : Machine) :
    Option Machine :=
  match n.backing with
  | .device _ _ =>
    some ((m.setMemory (m.memory.cpuWrite (n.place n.size data))).noteWritten k n.size data)
  | .heap => some
    ({ m with cpuMem := fun j i =>
        if j = k ∧ i < n.size then (data i).getD (m.cpuMem j i) else m.cpuMem j i }.noteWritten
      k n.size data)
  | .unbacked => none

/-- The bytes the processor reads through `sys_mem()`, and the machine after the reads. -/
def readSysMem (n : Neuron) (k : Nat) (m : Machine) : Option ((Nat → UInt8) × Machine) :=
  match n.backing with
  | .device paddr _ =>
    some (fun i => m.memory.view (paddr + i), m.setMemory (m.memory.fill n.gmem))
  | .heap => some (m.cpuMem k, m)
  | .unbacked => none

/-- `CVI_RT_MemFlush(_ctx, _gmem)`. -/
def memFlush (n : Neuron) (m : Machine) : Option Machine :=
  match n.backing with
  | .device _ _ => some (m.setMemory (m.memory.flush n.gmem))
  | _ => none

/-- `CVI_RT_MemInvld(_ctx, _gmem)`. -/
def memInvld (n : Neuron) (m : Machine) : Option Machine :=
  match n.backing with
  | .device _ _ => some (m.setMemory (m.memory.invld n.gmem))
  | _ => none

/-- `Neuron::load` (`neuron.cpp:398-431`). A neuron with no memory at all is exported with a
    null `sys_mem`, which counts as in place: nothing is copied. -/
def load (n : Neuron) (k : Nat) (tensor : InputTensor) (m : Machine) : Option Machine :=
  match tensor with
  | .system data =>
    match n.backing with
    | .device _ _ =>
      (n.writeSysMem k (fun i => some (data i)) m).bind fun m =>
        (n.memFlush m).map (·.setState k .tpuMem)
    | _ => (n.writeSysMem k (fun i => some (data i)) m).map (·.setState k .cpuMem)
  | .systemInPlace data =>
    match n.backing with
    | .device _ _ =>
      (n.writeSysMem k (fun i => some (data i)) m).bind fun m =>
        (n.memFlush m).map (·.setState k .tpuMem)
    | .heap => (n.writeSysMem k (fun i => some (data i)) m).map (·.setState k .cpuMem)
    | .unbacked => some (m.setState k .cpuMem)
  | .device data =>
    match n.backing with
    | .device _ _ => some
      (((m.setMemory (m.memory.devWrite (n.place n.copySize (n.copyData data)))).noteWritten
        k n.copySize (n.copyData data)).setState k .tpuMem)
    | _ => none
  | .deviceInPlace data =>
    match n.backing with
    | .device _ _ => some
      (((m.setMemory (m.memory.devWrite (n.place n.size fun i => some (data i)))).noteWritten
        k n.size fun i => some (data i)).setState k .tpuMem)
    | _ => none

/-- `Neuron::store` (`neuron.cpp:433-458`): the bytes delivered, by offset. -/
def store (n : Neuron) (k : Nat) (tensor : OutputTensor) (m : Machine) :
    Option ((Nat → Option UInt8) × Machine) :=
  match tensor with
  | .system =>
    (if m.state k = .cpuMem then some m else n.memInvld m).bind fun m =>
      (n.readSysMem k m).map fun (bytes, m) =>
        (fun i => if i < n.size then some (bytes i) else none, m)
  | .systemInPlace =>
    (if m.state k = .cpuMem then some m else n.memInvld m).map fun m =>
      (fun i => if i < n.size then (n.readSysMem k m).map fun (bytes, _) => bytes i else none, m)
  | .device =>
    some (n.copyData fun i => m.memory.dram (n.paddr + i), m)
  | .deviceInPlace =>
    some (fun i => if i < n.size then some (m.memory.dram (n.paddr + i)) else none, m)

/-- `Neuron::toCpu` (`neuron.cpp:460-469`). With a heap buffer, `CVI_RT_MemCopyD2S` reads
    the null `_gmem`. -/
def toCpu (n : Neuron) (k : Nat) (m : Machine) : Option Machine :=
  if m.state k ≠ .cpuMem then
    match n.backing with
    | .heap => none
    | _ => (n.memInvld m).map (·.setState k .cpuMem)
  else some m

/-- `Neuron::toTpu` (`neuron.cpp:471-484`): flush the neuron, then invalidate the whole
    base block it lies in. -/
def toTpu (n : Neuron) (k : Nat) (m : Machine) : Option Machine :=
  if m.state k ≠ .tpuMem then
    match n.backing with
    | .heap => none
    | _ => (n.memFlush m).map fun m =>
        (m.setMemory (m.memory.invld n.baseMem)).setState k .tpuMem
  else some m

end Neuron

end CviRuntime.Runtime
