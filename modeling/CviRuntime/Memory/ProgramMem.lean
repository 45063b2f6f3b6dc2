import CviRuntime.Lib.Run
import CviRuntime.Memory.NeuronMem

/-!
# The neurons of a program and the tensors of its client (`src/common/program.cpp`,
`src/common/runtime.cpp`)

While the program is loaded its neurons reserve their memory; of two with one name the second
replaces the first, which gives its memory back. After that the client changes the exported
tensors, and each forward loads, moves and stores neurons.
-/

namespace CviRuntime.Memory

open Run
open CviRuntime.Runtime (NeuronState)

namespace Device

/-- A live block that is not a window. -/
def Root (device : Device) (b : Nat) : Prop :=
  ∃ block, device.heap.cell b = some block ∧ ∀ root offset, block.origin ≠ .memPreAlloc root offset

variable {device : Device} {b : Nat}

theorem Root.live (root : device.Root b) : device.heap.Live b := by
  obtain ⟨block, found, -⟩ := root
  exact Heap.live_iff.mpr ⟨block, found⟩

theorem Root.congr {device' : Device} (root : device.Root b)
    (same : device'.heap.cell b = device.heap.cell b) : device'.Root b := by
  rw [Root, same]
  exact root

theorem Root.make (root : device.Root b) (size : Nat) (origin : Origin) (content : List UInt8) :
    (device.make size origin content).2.Root b :=
  root.congr (make_cell_of_ne root.live.lt_next.ne)

/-- A root lies in its own memory. -/
theorem Root.memGetVAddr (root : device.Root b) : device.memGetVAddr b = (b, 0) := by
  obtain ⟨block, found, notWindow⟩ := root
  rw [Device.memGetVAddr, found, Option.map_some]
  split
  · next r o is => exact absurd (Option.some.inj is) (notWindow r o)
  · rfl

@[simp] theorem memGetVAddr_make_window {size root offset : Nat} {content : List UInt8} :
    (device.make size (.memPreAlloc root offset) content).2.memGetVAddr device.heap.next =
      (root, offset) := by
  simp [Device.memGetVAddr, Device.make]

theorem Root.free {w : Nat} (root : device.Root b) (window : ¬ device.Root w) :
    (device.cviMemFree w).Root b :=
  root.congr (Heap.free_cell_of_ne fun same => window (same ▸ root))

theorem memGetVAddr_congr {device' : Device} {g : Nat}
    (same : device'.heap.cell g = device.heap.cell g) :
    device'.memGetVAddr g = device.memGetVAddr g := by
  rw [Device.memGetVAddr, Device.memGetVAddr, same]

end Device

/-- Whether `Program::load` is under way, done, or has failed. -/
inductive LoadPhase where
  | loading
  | loaded
  | failed
  deriving Repr, DecidableEq

/-- The memory of a program. `names` and `neurons` are the keys and the values of `neuron_map`.
    `fault` is not in the code: a neuron with a base index from 3 on was used through a null handle
    or freed memory. -/
structure ProgramMem where
  device : Device
  base : BaseArrays
  names : List String
  neurons : List NeuronMem
  tensors : List Tensor
  phase : LoadPhase
  fault : Bool

/-- What `createNeuronSpace` (`program.cpp:66-103`) leaves: blocks for the base indices below 3. -/
structure NeuronSpace where
  device : Device
  base : BaseArrays
  rooted : ∀ i b, base.mem i = some b → i < 3 ∧ device.Root b

namespace ProgramMem

def start (space : NeuronSpace) : ProgramMem :=
  ⟨space.device, space.base, [], [], [], .loading, false⟩

inductive Action where
  /-- a turn of the loop of `createNeuronMap` (`program.cpp:108-115`) -/
  | reserveIonMem (name : String) (size offset : Nat) (ok : Bool)
  /-- `CpuRoutine::initialize` for a neuron it uses -/
  | reserveSysMem (k : Nat) (ok : Bool)
  /-- `Program::load` returns -/
  | loaded
  /-- `exportTensorInfo` (`program.cpp:177-200`) of neuron `k` -/
  | exportTensor (k : Nat)
  /-- `CVI_NN_SetTensorPtr` (`runtime.cpp:373-378`) -/
  | setTensorPtr (j : Nat) (mem : Pointer)
  /-- `CVI_NN_SetTensorPhysicalAddr` (`runtime.cpp:380-400`) -/
  | setTensorPhysicalAddr (j : Nat) (paddr : Nat)
  /-- `load` and `store` of tensor `j` by `Program::forward` (`program.cpp:258-300`) -/
  | load (j : Nat)
  | store (j : Nat)
  /-- by the routines -/
  | toCpu (k : Nat)
  | toTpu (k : Nat)
  deriving Repr, DecidableEq

/-- Neuron `k` becomes `n'` by an operation on `n` with these uses. -/
def perform (s : ProgramMem) (k : Nat) (n n' : NeuronMem) (uses : List Use) : ProgramMem :=
  { s with
    neurons := s.neurons.set k n'
    fault := s.fault || decide (3 ≤ n.baseAddrIndex ∧ ¬ ∀ use ∈ uses, use.Fine s.device) }

/-- Pointers a client has: its own, and what `CVI_NN_TensorPtr` returned. -/
def Known (s : ProgramMem) : Pointer → Prop
  | .null => False
  | .client _ => True
  | mem => ∃ tensor ∈ s.tensors, tensor.sysMem = mem

instance (s : ProgramMem) : DecidablePred s.Known
  | .null => .isFalse id
  | .client _ => .isTrue trivial
  | .device b o => inferInstanceAs (Decidable (∃ tensor ∈ s.tensors, tensor.sysMem = .device b o))
  | .cpuMem k => inferInstanceAs (Decidable (∃ tensor ∈ s.tensors, tensor.sysMem = .cpuMem k))

/-- Where the neuron of a name is. -/
def find (s : ProgramMem) (name : String) : Option Nat := s.names.findIdx? (· = name)

/-- `neuron_map[name] = n` (`program.cpp:114`): an earlier neuron of the name is destroyed
    (`neuron.cpp:200-212`). -/
def assign (s : ProgramMem) (name : String) (n : NeuronMem) : ProgramMem :=
  match s.find name with
  | some k =>
    { s with
      device := match (s.neurons[k]?).bind NeuronMem.gmem with
        | some gmem => s.device.cviMemFree gmem
        | none => s.device
      neurons := s.neurons.set k n }
  | none => { s with names := s.names ++ [name], neurons := s.neurons ++ [n] }

/-- What the program does while it loads. -/
def loadStep (physical : Nat → Nat) (s : ProgramMem) : Action → Option ProgramMem
  | .reserveIonMem name size offset ok => do
    let (done, n, base, device) ←
      (NeuronMem.new size).reserveIonMem physical s.device s.base offset ok
    if done then return { s with device := device, base := base }.assign name n
    else return { s with device := device, base := base, phase := .failed }
  | .reserveSysMem k ok => do
    let n ← s.neurons[k]?
    let (done, n) := n.reserveSysMem k ok
    return { s with neurons := s.neurons.set k n, phase := if done then .loading else .failed }
  | .loaded => some { s with phase := .loaded }
  | _ => none

/-- What a client and its forwards do to the loaded program. -/
def useStep (s : ProgramMem) : Action → Option ProgramMem
  | .exportTensor k => do
    let n ← s.neurons[k]?
    return { s with tensors := s.tensors ++ [⟨k, .system, n.sysMem, n.paddr⟩] }
  | .setTensorPtr j mem => do
    let tensor ← s.tensors[j]?
    if s.Known mem then
      return { s with
        tensors := s.tensors.set j { tensor with sysMem := mem, memType := .system } }
    else none
  | .setTensorPhysicalAddr j paddr => do
    let tensor ← s.tensors[j]?
    let n ← s.neurons[tensor.neuron]?
    let (n, base, device) := n.updateBaseAddr s.device s.base paddr
    return { s with
      device := device
      base := base
      neurons := s.neurons.set tensor.neuron n
      tensors := s.tensors.set j { tensor with paddr := paddr, memType := .device } }
  | .load j => do
    let tensor ← s.tensors[j]?
    let n ← s.neurons[tensor.neuron]?
    let (uses, n') ← n.load tensor
    return s.perform tensor.neuron n n' uses
  | .store j => do
    let tensor ← s.tensors[j]?
    let n ← s.neurons[tensor.neuron]?
    return s.perform tensor.neuron n n (n.store tensor)
  | .toCpu k => do
    let n ← s.neurons[k]?
    return s.perform k n n.toCpu.2 n.toCpu.1
  | .toTpu k => do
    let n ← s.neurons[k]?
    return s.perform k n n.toTpu.2 n.toTpu.1
  | _ => none

/-- `physical` gives the address of each block. -/
def step (physical : Nat → Nat) (s : ProgramMem) (action : Action) : Option ProgramMem :=
  match s.phase with
  | .loading => s.loadStep physical action
  | .loaded => s.useStep action
  | .failed => none

/-- What a neuron with a base index from 3 on may rely on. -/
def MemoryLive (s : ProgramMem) (n : NeuronMem) : Prop :=
  (n.vaddr ≠ .null → Use.Fine s.device (.pointer n.vaddr)) ∧
    (∀ b, s.base.mem n.baseAddrIndex = some b → s.device.heap.Live b) ∧
    ∀ b, n.baseMem = some b → s.device.heap.Live b

/-- Such neurons have live memory, as have the entries of the base array from 3 on, and none was
    used through a null handle or freed memory. -/
def Sound (s : ProgramMem) : Prop :=
  s.fault = false ∧ (∀ i b, 3 ≤ i → s.base.mem i = some b → s.device.heap.Live b) ∧
    ∀ n ∈ s.neurons, 3 ≤ n.baseAddrIndex → s.MemoryLive n

/-- A neuron is replaced and an address is set only where the neuron has no block of its own, and
    after that its tensor stays a device tensor and its memory is not moved. -/
def Safe (s : ProgramMem) (action : Action) : Prop :=
  ∀ k n, s.neurons[k]? = some n → 3 ≤ n.baseAddrIndex →
    match action with
    | .reserveIonMem name _ offset ok =>
      s.find name = some k → NeuronMem.Reserves s.base offset ok →
        n.gmem = none ∨ n.gmem ≠ n.baseMem
    | .setTensorPhysicalAddr j _ =>
      ∀ tensor, s.tensors[j]? = some tensor → tensor.neuron = k → n.gmem = none ∨ n.gmem ≠ n.baseMem
    | .load j =>
      ∀ tensor, s.tensors[j]? = some tensor → tensor.neuron = k →
        tensor.memType = .system → n.gmem ≠ none
    | .store j =>
      ∀ tensor, s.tensors[j]? = some tensor → tensor.neuron = k →
        tensor.memType = .system → n.gmem ≠ none ∨ n.state = .cpuMem
    | .toCpu k' => k' = k → n.gmem ≠ none ∨ n.state = .cpuMem
    | .toTpu k' => k' = k → n.gmem ≠ none ∨ n.state = .tpuMem
    | _ => True

/-- Where the memory of a neuron can be while the blocks of the base array are kept. -/
structure Placed (device : Device) (n : NeuronMem) : Prop where
  vaddr : ∀ b o, n.vaddr = .device b o → device.Root b
  baseMem : ∀ b, n.baseMem = some b → device.Root b
  gmem : ∀ g, n.gmem = some g →
    device.heap.Live g ∧ device.Root (device.memGetVAddr g).1 ∧
      (device.Root g → 3 ≤ n.baseAddrIndex ∧ n.baseMem = some g)
  cpuMem : ∀ b o, n.cpuMem ≠ .device b o
  mapped : 3 ≤ n.baseAddrIndex → n.baseMem ≠ none ∧ ∃ b o, n.vaddr = .device b o

/-- The pointer of a tensor is usable if its neuron needs one. -/
structure Attached (s : ProgramMem) (tensor : Tensor) : Prop where
  root : ∀ b o, tensor.sysMem = .device b o → s.device.Root b
  nonNull : ∃ n, s.neurons[tensor.neuron]? = some n ∧
    (3 ≤ n.baseAddrIndex → tensor.sysMem ≠ .null)

/-- The states reached by safe steps. -/
structure Inv (s : ProgramMem) : Prop where
  fault : s.fault = false
  base : ∀ i b, s.base.mem i = some b → s.device.Root b
  placed : ∀ (k : Nat) n, s.neurons[k]? = some n → Placed s.device n
  entry : ∀ (k : Nat) n b, s.neurons[k]? = some n → n.baseMem = some b →
    s.base.mem n.baseAddrIndex = some b
  apart : ∀ (k l : Nat) n m g, k ≠ l → s.neurons[k]? = some n → s.neurons[l]? = some m →
    n.gmem = some g → m.gmem ≠ some g
  attached : ∀ tensor ∈ s.tensors, s.Attached tensor

theorem Inv.start (space : NeuronSpace) : (start space).Inv where
  fault := rfl
  base := fun i b entry => (space.rooted i b entry).2
  placed := by simp [ProgramMem.start]
  entry := by simp [ProgramMem.start]
  apart := by simp [ProgramMem.start]
  attached := by simp [ProgramMem.start]

theorem Inv.sound {s : ProgramMem} (inv : s.Inv) : s.Sound := by
  refine ⟨inv.fault, fun i b _ is => (inv.base i b is).live, fun n member _ => ?_⟩
  obtain ⟨k, found⟩ := List.getElem?_of_mem member
  have placed := inv.placed k n found
  refine ⟨?_, fun b entry => (inv.base _ b entry).live, fun b is => (placed.baseMem b is).live⟩
  intro nonNull
  cases pointer : n.vaddr with
  | null => exact absurd pointer nonNull
  | device b o => exact (placed.vaddr b o pointer).live
  | cpuMem k => trivial
  | client buffer => trivial

section uses

variable {device : Device} {n : NeuronMem} {tensor : Tensor}

/-- The handle of a neuron that has one. -/
theorem Placed.gmem_fine (placed : Placed device n) (has : n.gmem ≠ none) :
    Use.Fine device (.handle n.gmem) := by
  obtain ⟨g, is⟩ := Option.ne_none_iff_exists'.mp has
  obtain ⟨live, root, -⟩ := placed.gmem g is
  rw [is]
  exact ⟨live, root.live⟩

theorem Placed.vaddr_fine (placed : Placed device n) (own : 3 ≤ n.baseAddrIndex) :
    Use.Fine device (.pointer n.vaddr) := by
  obtain ⟨-, b, o, is⟩ := placed.mapped own
  rw [is]
  exact (placed.vaddr b o is).live

theorem Placed.baseMem_fine (placed : Placed device n) (own : 3 ≤ n.baseAddrIndex) :
    Use.Fine device (.handle n.baseMem) := by
  obtain ⟨b, is⟩ := Option.ne_none_iff_exists'.mp (placed.mapped own).1
  have root := placed.baseMem b is
  rw [is]
  exact ⟨root.live, by rw [root.memGetVAddr]; exact root.live⟩

theorem Placed.cpuMem_fine (placed : Placed device n) (has : n.cpuMem ≠ .null) :
    Use.Fine device (.pointer n.cpuMem) := by
  cases pointer : n.cpuMem with
  | null => exact absurd pointer has
  | device b o => exact absurd pointer (placed.cpuMem b o)
  | cpuMem k => trivial
  | client buffer => trivial

/-- For such a neuron `sys_mem()` is `_vaddr`. -/
theorem Placed.sysMem_eq (placed : Placed device n) (own : 3 ≤ n.baseAddrIndex) :
    n.sysMem = n.vaddr := by
  obtain ⟨-, b, o, is⟩ := placed.mapped own
  rw [NeuronMem.sysMem, if_neg]
  simp [is]

theorem not_fine_none : ¬ Use.Fine device (.handle none) := id

theorem copy_fine {target source : Pointer} (fine : Use.Fine device (.pointer target))
    (fine' : Use.Fine device (.pointer source)) :
    ∀ use ∈ NeuronMem.copy target source, use.Fine device := by
  intro use member
  rw [NeuronMem.copy] at member
  split at member
  · rcases List.mem_pair.mp member with rfl | rfl
    · exact fine
    · exact fine'
  · cases member

/-- A use of `_gmem` among uses that are fine otherwise. -/
theorem Placed.fine_iff (placed : Placed device n) {uses : List Use}
    (among : .handle n.gmem ∈ uses)
    (others : ∀ use ∈ uses, use = .handle n.gmem ∨ use.Fine device) :
    (∀ use ∈ uses, use.Fine device) ↔ n.gmem ≠ none := by
  constructor
  · intro fine null
    exact not_fine_none (null ▸ fine _ among)
  · intro has use member
    rcases others use member with rfl | fine
    · exact placed.gmem_fine has
    · exact fine

/-- TDMA uses `_gmem` only when there is one. -/
theorem Placed.tdma_fine (placed : Placed device n) :
    ∀ use ∈ n.gmem.toList.map fun gmem => Use.handle (some gmem), use.Fine device := by
  intro use member
  obtain ⟨g, inside, rfl⟩ := List.mem_map.mp member
  have is : n.gmem = some g := Option.mem_toList.mp inside
  rw [← is]
  exact placed.gmem_fine (by simp [is])

theorem Placed.load_fine_iff (placed : Placed device n) (own : 3 ≤ n.baseAddrIndex)
    (pointer : Use.Fine device (.pointer tensor.sysMem)) {uses : List Use} {n' : NeuronMem}
    (loaded : n.load tensor = some (uses, n')) :
    (∀ use ∈ uses, use.Fine device) ↔ (tensor.memType = .system → n.gmem ≠ none) := by
  rw [NeuronMem.load] at loaded
  cases type : tensor.memType with
  | system =>
    simp only [type] at loaded
    obtain ⟨-, b, o, mapped⟩ := placed.mapped own
    rw [if_pos (by simp [mapped])] at loaded
    cases loaded
    simp only [true_implies]
    refine placed.fine_iff (by simp) fun use member => ?_
    rcases List.mem_append.mp member with member | member
    · exact .inr (copy_fine (placed.vaddr_fine own) pointer use member)
    · exact .inl (List.mem_singleton.mp member)
  | device =>
    simp only [type] at loaded
    refine iff_of_true ?_ (fun is => by cases is)
    split at loaded
    · cases loaded
    · split at loaded
      · cases loaded
        exact placed.tdma_fine
      · cases loaded
        simp

theorem Placed.store_fine_iff (placed : Placed device n) (own : 3 ≤ n.baseAddrIndex)
    (pointer : Use.Fine device (.pointer tensor.sysMem)) :
    (∀ use ∈ n.store tensor, use.Fine device) ↔
      (tensor.memType = .system → n.gmem ≠ none ∨ n.state = .cpuMem) := by
  rw [NeuronMem.store]
  cases type : tensor.memType with
  | system =>
    simp only [true_implies]
    split
    · next state =>
      refine iff_of_true ?_ (.inr state)
      rw [placed.sysMem_eq own]
      exact copy_fine pointer (placed.vaddr_fine own)
    · next state =>
      rw [or_iff_left state]
      refine placed.fine_iff List.mem_cons_self fun use member => ?_
      rcases List.mem_cons.mp member with member | member
      · exact .inl member
      · exact .inr (copy_fine pointer (placed.vaddr_fine own) use member)
  | device =>
    refine iff_of_true ?_ (fun is => by cases is)
    simp only
    split
    · exact placed.tdma_fine
    · simp

theorem Placed.toCpu_fine_iff (placed : Placed device n) :
    (∀ use ∈ n.toCpu.1, use.Fine device) ↔ n.gmem ≠ none ∨ n.state = .cpuMem := by
  rw [NeuronMem.toCpu]
  split
  · next moves =>
    rw [or_iff_left moves]
    simp only
    split
    · next has =>
      refine placed.fine_iff (by simp) fun use member => ?_
      rcases List.mem_pair.mp member with rfl | rfl
      · exact .inr (placed.cpuMem_fine has)
      · exact .inl rfl
    · exact placed.fine_iff (by simp) fun use member => .inl (List.mem_singleton.mp member)
  · next stays => exact iff_of_true (by simp) (.inr (not_not.mp stays))

theorem Placed.toTpu_fine_iff (placed : Placed device n) (own : 3 ≤ n.baseAddrIndex) :
    (∀ use ∈ n.toTpu.1, use.Fine device) ↔ n.gmem ≠ none ∨ n.state = .tpuMem := by
  rw [NeuronMem.toTpu]
  split
  · next moves =>
    rw [or_iff_left moves]
    simp only
    split
    · next has =>
      refine placed.fine_iff (by simp) fun use member => ?_
      rcases List.mem_pair.mp member with rfl | rfl
      · exact .inl rfl
      · exact .inr (placed.cpuMem_fine has)
    · refine placed.fine_iff (by simp) fun use member => ?_
      rcases List.mem_pair.mp member with rfl | rfl
      · exact .inl rfl
      · exact .inr (placed.baseMem_fine own)
  · next stays => exact iff_of_true (by simp) (.inr (not_not.mp stays))

end uses

section frame

variable {device device' : Device} {n : NeuronMem}

/-- What keeps the roots and the neuron's own handle keeps the neuron's memory in place. -/
theorem Placed.congr (placed : Placed device n) (roots : ∀ b, device.Root b → device'.Root b)
    (same : ∀ g, n.gmem = some g → device'.heap.cell g = device.heap.cell g) :
    Placed device' n where
  vaddr := fun b o is => roots b (placed.vaddr b o is)
  baseMem := fun b is => roots b (placed.baseMem b is)
  gmem := by
    intro g is
    obtain ⟨live, root, own⟩ := placed.gmem g is
    refine ⟨?_, ?_, fun root' => own (root'.congr (same g is).symm)⟩
    · rw [Heap.Live, same g is]
      exact live
    · rw [Device.memGetVAddr_congr (same g is)]
      exact roots _ root
  cpuMem := placed.cpuMem
  mapped := placed.mapped

theorem Placed.make (placed : Placed device n) (size : Nat) (origin : Origin)
    (content : List UInt8) : Placed (device.make size origin content).2 n :=
  placed.congr (fun _ root => root.make size origin content) fun g is =>
    Device.make_cell_of_ne (placed.gmem g is).1.lt_next.ne

theorem Placed.free {w : Nat} (placed : Placed device n) (window : ¬ device.Root w)
    (other : n.gmem ≠ some w) : Placed (device.cviMemFree w) n :=
  placed.congr (fun _ root => root.free window) fun _ is =>
    Heap.free_cell_of_ne fun same => other (same ▸ is)

theorem Placed.new (size : Nat) : Placed device (.new size) where
  vaddr := by simp [NeuronMem.new]
  baseMem := by simp [NeuronMem.new]
  gmem := by simp [NeuronMem.new]
  cpuMem := by simp [NeuronMem.new]
  mapped := by simp [NeuronMem.new]

/-- A neuron whose handle was just made. -/
theorem Placed.settle {physical : Nat → Nat} {base : BaseArrays} {gmem : Nat}
    (live : device.heap.Live gmem) (root : device.Root (device.memGetVAddr gmem).1)
    (own : device.Root gmem → 3 ≤ n.baseAddrIndex ∧ base.mem n.baseAddrIndex = some gmem)
    (rooted : ∀ b, base.mem n.baseAddrIndex = some b → device.Root b)
    (has : base.mem n.baseAddrIndex ≠ none) (cpuMem : ∀ b o, n.cpuMem ≠ .device b o) :
    Placed device (n.settle physical device base gmem) where
  vaddr := by
    intro b o is
    cases is
    exact root
  baseMem := rooted
  gmem := by
    intro g is
    cases is
    exact ⟨live, root, own⟩
  cpuMem := cpuMem
  mapped := fun _ => ⟨has, _, _, rfl⟩

end frame

theorem getElem?_set_some {α : Type*} {l : List α} {k i : Nat} {x y : α}
    (is : (l.set k x)[i]? = some y) : (i = k ∧ y = x) ∨ (i ≠ k ∧ l[i]? = some y) := by
  by_cases same : i = k
  · subst same
    rw [List.getElem?_set_self'] at is
    obtain ⟨_, _, same⟩ := Option.map_eq_some_iff.mp is
    exact .inl ⟨rfl, same.symm⟩
  · rw [List.getElem?_set_ne (Ne.symm same)] at is
    exact .inr ⟨same, is⟩

theorem getElem?_append_some {α : Type*} {l : List α} {i : Nat} {x y : α}
    (is : (l ++ [x])[i]? = some y) : l[i]? = some y ∨ (i = l.length ∧ y = x) := by
  rcases Nat.lt_trichotomy i l.length with below | same | above
  · rw [List.getElem?_append_left below] at is
    exact .inl is
  · subst same
    rw [List.getElem?_concat_length] at is
    exact .inr ⟨rfl, (Option.some.inj is).symm⟩
  · rw [List.getElem?_eq_none (by simp; omega)] at is
    cases is

variable {physical : Nat → Nat} {s s' : ProgramMem}

/-- Neuron `k` changes but keeps its index and gets no new handle. -/
theorem Inv.replace (inv : s.Inv) {k : Nat} {n n' : NeuronMem} {device' : Device}
    {base' : BaseArrays} {tensors' : List Tensor} {phase' : LoadPhase} {fault' : Bool}
    (calm : fault' = false) (found : s.neurons[k]? = some n)
    (index : n'.baseAddrIndex = n.baseAddrIndex) (block : n'.baseMem = n.baseMem)
    (handle : ∀ g, n'.gmem = some g → n.gmem = some g) (mem : base'.mem = s.base.mem)
    (roots : ∀ b, s.device.Root b → device'.Root b) (placed : Placed device' n')
    (others : ∀ (l : Nat) m, l ≠ k → s.neurons[l]? = some m → Placed device' m)
    (attached : ∀ tensor ∈ tensors', s.Attached tensor) :
    Inv ⟨device', base', s.names, s.neurons.set k n', tensors', phase', fault'⟩ where
  fault := calm
  base := fun i b entry => roots b (inv.base i b (by rw [← mem]; exact entry))
  placed := by
    intro l m is
    rcases getElem?_set_some is with ⟨rfl, rfl⟩ | ⟨other, is⟩
    · exact placed
    · exact others l m other is
  entry := by
    intro l m b is named
    rw [mem]
    rcases getElem?_set_some is with ⟨rfl, rfl⟩ | ⟨-, was⟩
    · rw [index]
      exact inv.entry l n b found (block ▸ named)
    · exact inv.entry l m b was named
  apart := by
    intro l l' m m' g different is is' handleM
    rcases getElem?_set_some is with ⟨rfl, rfl⟩ | ⟨-, was⟩
    · rcases getElem?_set_some is' with ⟨rfl, -⟩ | ⟨-, was'⟩
      · exact absurd rfl different
      · exact inv.apart l l' n m' g different found was' (handle g handleM)
    · rcases getElem?_set_some is' with ⟨rfl, rfl⟩ | ⟨-, was'⟩
      · intro handleN
        exact inv.apart l l' m n g different was found handleM (handle g handleN)
      · exact inv.apart l l' m m' g different was was' handleM
  attached := by
    intro tensor member
    obtain ⟨root, m, is, nonNull⟩ := attached tensor member
    refine ⟨fun b o pointer => roots b (root b o pointer), ?_⟩
    by_cases same : tensor.neuron = k
    · rw [same] at is ⊢
      cases found.symm.trans is
      refine ⟨n', ?_, ?_⟩
      · rw [List.getElem?_set_self', found]
        rfl
      · rw [index]
        exact nonNull
    · refine ⟨m, ?_, nonNull⟩
      rw [List.getElem?_set_ne (Ne.symm same)]
      exact is

/-- A new neuron, whose handle is no other neuron's. -/
theorem Inv.append (inv : s.Inv) {name : String} {n : NeuronMem} {device' : Device}
    {base' : BaseArrays} (rooted : ∀ i b, base'.mem i = some b → device'.Root b)
    (grown : ∀ i b, s.base.mem i = some b → base'.mem i = some b)
    (roots : ∀ b, s.device.Root b → device'.Root b)
    (others : ∀ (l : Nat) m, s.neurons[l]? = some m → Placed device' m)
    (placed : Placed device' n) (own : ∀ b, n.baseMem = some b → base'.mem n.baseAddrIndex = some b)
    (handle : ∀ (l : Nat) m g, s.neurons[l]? = some m → m.gmem = some g → n.gmem ≠ some g) :
    Inv { s with
      device := device', base := base', names := s.names ++ [name],
      neurons := s.neurons ++ [n] } where
  fault := inv.fault
  base := rooted
  placed := by
    intro l m is
    rcases getElem?_append_some is with is | ⟨-, rfl⟩
    · exact others l m is
    · exact placed
  entry := by
    intro l m b is named
    rcases getElem?_append_some is with is | ⟨-, rfl⟩
    · exact grown _ b (inv.entry l m b is named)
    · exact own b named
  apart := by
    intro l l' m m' g different is is' handleM
    rcases getElem?_append_some is with was | ⟨last, rfl⟩
    · rcases getElem?_append_some is' with was' | ⟨-, rfl⟩
      · exact inv.apart l l' m m' g different was was' handleM
      · exact handle l m g was handleM
    · rcases getElem?_append_some is' with was' | ⟨last', rfl⟩
      · exact fun handleM' => handle l' m' g was' handleM' handleM
      · exact absurd (last.trans last'.symm) different
  attached := by
    intro tensor member
    obtain ⟨root, m, is, nonNull⟩ := inv.attached tensor member
    refine ⟨fun b o pointer => roots b (root b o pointer), m, ?_, nonNull⟩
    simp only [List.getElem?_append_left (List.getElem?_eq_some_iff.mp is).1]
    exact is

/-- The destructor of a neuron whose handle is a window keeps the roots and the other neurons. -/
theorem freed_keeps {device device' : Device} {old : Option Nat}
    (freed : device' = match old with
      | some gmem => device.cviMemFree gmem
      | none => device)
    (shut : ∀ g, old = some g → ¬ device.Root g) :
    (∀ b, device.Root b → device'.Root b) ∧
      ∀ m, Placed device m → (∀ g, old = some g → m.gmem ≠ some g) → Placed device' m := by
  subst freed
  cases old with
  | none => exact ⟨fun _ root => root, fun _ placed _ => placed⟩
  | some g =>
    have window := shut g rfl
    exact ⟨fun _ root => root.free window, fun _ placed apart => placed.free window (apart g rfl)⟩

/-- A new neuron in place of one whose handle is a window. -/
theorem Inv.assign (inv : s.Inv) {name : String} {n : NeuronMem} {device' : Device}
    {base' : BaseArrays} (unexported : s.tensors = [])
    (rooted : ∀ i b, base'.mem i = some b → device'.Root b)
    (grown : ∀ i b, s.base.mem i = some b → base'.mem i = some b)
    (roots : ∀ b, s.device.Root b → device'.Root b)
    (others : ∀ (l : Nat) m, s.neurons[l]? = some m → Placed device' m)
    (placed : Placed device' n) (own : ∀ b, n.baseMem = some b → base'.mem n.baseAddrIndex = some b)
    (handle : ∀ (l : Nat) m g, s.neurons[l]? = some m → m.gmem = some g → n.gmem ≠ some g)
    (window : ∀ (k : Nat) m g, s.find name = some k → s.neurons[k]? = some m → m.gmem = some g →
      ¬ device'.Root g) :
    ({ s with device := device', base := base' }.assign name n).Inv := by
  rw [ProgramMem.assign]
  cases place : s.find name with
  | none =>
    simp only [ProgramMem.find] at place ⊢
    rw [place]
    exact inv.append rooted grown roots others placed own handle
  | some k =>
    have replaced : ∀ g, (s.neurons[k]?).bind NeuronMem.gmem = some g →
        ∃ m, s.neurons[k]? = some m ∧ m.gmem = some g := fun g is => Option.bind_eq_some_iff.mp is
    simp only [ProgramMem.find] at place ⊢
    simp only [place]
    have shut : ∀ g, (s.neurons[k]?).bind NeuronMem.gmem = some g → ¬ device'.Root g := by
      intro g is
      obtain ⟨m, found, handle⟩ := replaced g is
      exact window k m g place found handle
    obtain ⟨roots', kept⟩ := freed_keeps rfl shut
    refine ⟨inv.fault, fun i b is => roots' b (rooted i b is), ?_, ?_, ?_, ?_⟩
    · intro l m is
      rcases getElem?_set_some is with ⟨-, rfl⟩ | ⟨other, was⟩
      · refine kept m placed fun g is => ?_
        obtain ⟨m', found, is'⟩ := replaced g is
        exact handle k m' g found is'
      · refine kept m (others l m was) fun g is same => ?_
        obtain ⟨m', found, is'⟩ := replaced g is
        exact inv.apart l k m m' g other was found same is'
    · intro l m b is named
      rcases getElem?_set_some is with ⟨-, rfl⟩ | ⟨-, was⟩
      · exact own b named
      · exact grown _ b (inv.entry l m b was named)
    · intro l l' m m' g different is is' handleM
      rcases getElem?_set_some is with ⟨rfl, rfl⟩ | ⟨-, was⟩
      · rcases getElem?_set_some is' with ⟨rfl, -⟩ | ⟨-, was'⟩
        · exact absurd rfl different
        · exact fun handleM' => handle l' m' g was' handleM' handleM
      · rcases getElem?_set_some is' with ⟨-, rfl⟩ | ⟨-, was'⟩
        · exact handle l m g was handleM
        · exact inv.apart l l' m m' g different was was' handleM
    · simp [unexported]

/-- The neuron of a turn that went well, with a handle just made, in place of one whose handle is
a window. -/
theorem Inv.assign_settled (inv : s.Inv) (unexported : s.tensors = []) {name : String}
    {n : NeuronMem} {device' : Device} {base' : BaseArrays} {size : Nat} {origin : Origin}
    {content : List UInt8} (made : device' = (s.device.make size origin content).2)
    (rooted : ∀ i b, base'.mem i = some b → device'.Root b)
    (grown : ∀ i b, s.base.mem i = some b → base'.mem i = some b)
    (inside : device'.Root (device'.memGetVAddr s.device.heap.next).1)
    (own : device'.Root s.device.heap.next →
      3 ≤ n.baseAddrIndex ∧ base'.mem n.baseAddrIndex = some s.device.heap.next)
    (has : base'.mem n.baseAddrIndex ≠ none) (cpuMem : ∀ b o, n.cpuMem ≠ .device b o)
    (window : ∀ (k : Nat) m g, s.find name = some k → s.neurons[k]? = some m → m.gmem = some g →
      ¬ s.device.Root g) :
    ({ s with device := device', base := base' }.assign name
      (n.settle physical device' base' s.device.heap.next)).Inv := by
  have used : ∀ (l : Nat) m g, s.neurons[l]? = some m → m.gmem = some g →
      g ≠ s.device.heap.next := fun l m g is handle =>
    ((inv.placed l m is).gmem g handle).1.lt_next.ne
  have live : device'.heap.Live s.device.heap.next := by
    rw [made]
    exact Heap.live_alloc.mpr (.inr rfl)
  refine inv.assign unexported rooted grown ?_ ?_ ?_ (fun _ is => is) ?_ ?_
  · intro b root
    rw [made]
    exact root.make _ _ _
  · intro l m is
    rw [made]
    exact (inv.placed l m is).make _ _ _
  · exact Placed.settle live inside own (rooted _) has cpuMem
  · intro l m g is handle same
    cases same
    exact used l m _ is handle rfl
  · intro k m g place found is root
    rw [made] at root
    exact window k m g place found is
      (root.congr (Device.make_cell_of_ne (used k m g found is)).symm)

/-- The handle of the neuron that a safe turn replaces is a window: a root would be its own block. -/
theorem Inv.replaced_window (inv : s.Inv) {name : String} {size offset : Nat} {ok : Bool}
    (safe : s.Safe (.reserveIonMem name size offset ok))
    (possible : NeuronMem.Reserves s.base offset ok) {k g : Nat} {m : NeuronMem}
    (place : s.find name = some k) (found : s.neurons[k]? = some m) (is : m.gmem = some g) :
    ¬ s.device.Root g := by
  intro root
  obtain ⟨high, block⟩ := ((inv.placed k m found).gmem g is).2.2 root
  rcases safe k m found high place possible with none | other
  · rw [is] at none
    cases none
  · exact other (is.trans block.symm)

theorem Inv.reserveIonMem (inv : s.Inv) (unexported : s.tensors = []) {name : String}
    {size offset : Nat} {ok : Bool} (safe : s.Safe (.reserveIonMem name size offset ok))
    (stepped : s.loadStep physical (.reserveIonMem name size offset ok) = some s') : s'.Inv := by
  obtain ⟨⟨done, n, base', device'⟩, reserved, outcome⟩ := Option.bind_eq_some_iff.mp stepped
  have grown : ∀ i b, s.base.mem i = some b → base'.mem i = some b := fun _ _ =>
    NeuronMem.reserveIonMem_grown reserved
  have window : done = true → ∀ (k : Nat) m g, s.find name = some k → s.neurons[k]? = some m →
      m.gmem = some g → ¬ s.device.Root g := fun ended _ _ _ place found is =>
    inv.replaced_window safe ((NeuronMem.reserveIonMem_done reserved).mp ended) place found is
  rcases NeuronMem.reserveIonMem_cases reserved with ⟨rfl, rfl, rfl, rfl⟩ | ⟨rfl, rfl, rfl⟩ |
    ⟨index, b, shift, entry, rfl, rfl, made, rfl⟩ | ⟨index, high, free, rfl, entries, made, rfl⟩
  · cases outcome
    exact inv.assign unexported inv.base grown (fun _ root => root) inv.placed (Placed.new size)
      (by simp [NeuronMem.new]) (fun _ _ _ _ _ => by simp [NeuronMem.new])
      (window rfl)
  · cases outcome
    exact ⟨inv.fault, inv.base, inv.placed, inv.entry, inv.apart, fun tensor member =>
      ⟨(inv.attached tensor member).root, (inv.attached tensor member).nonNull⟩⟩
  -- a window into the block of the base index
  · cases outcome
    have root := inv.base index b entry
    have inside : device'.memGetVAddr s.device.heap.next = (b, 0 + shift) := by
      rw [made, Device.memGetVAddr_make_window, root.memGetVAddr]
    have roots : ∀ b, s.device.Root b → device'.Root b := by
      intro b root
      rw [made]
      exact root.make _ _ _
    refine inv.assign_settled unexported made (fun i b entry => roots b (inv.base i b entry)) grown
      ?_ ?_ ?_ ?_ (window rfl)
    · rw [inside]
      exact roots b root
    · intro root'
      rw [root'.memGetVAddr, Prod.mk.injEq] at inside
      exact absurd inside.1.symm root.live.lt_next.ne
    · simp [entry]
    · simp [NeuronMem.new]
  -- a block of its own
  · cases outcome
    have root : device'.Root s.device.heap.next := by
      rw [made]
      exact ⟨_, Heap.alloc_cell_self, by simp⟩
    have rooted : ∀ i b, base'.mem i = some b → device'.Root b := by
      intro i b entry
      rw [entries] at entry
      by_cases same : i = index
      · rw [same, Function.update_self] at entry
        cases entry
        exact root
      · rw [Function.update_of_ne same] at entry
        rw [made]
        exact (inv.base i b entry).make _ _ _
    have own : base'.mem index = some s.device.heap.next := by
      rw [entries, Function.update_self]
    refine inv.assign_settled unexported made rooted grown ?_ (fun _ => ⟨high, own⟩) ?_ ?_
      (window rfl)
    · rw [root.memGetVAddr]
      exact root
    · simp [own]
    · simp [NeuronMem.new]

theorem Inv.reserveSysMem (inv : s.Inv) {k : Nat} {ok : Bool}
    (stepped : s.loadStep physical (.reserveSysMem k ok) = some s') : s'.Inv := by
  obtain ⟨n, found, outcome⟩ := Option.bind_eq_some_iff.mp stepped
  cases outcome
  have placed := inv.placed k n found
  have cases : (n.reserveSysMem k ok).2 = n ∨
      (n.reserveSysMem k ok).2 = { n with cpuMem := .cpuMem k } := by
    rw [NeuronMem.reserveSysMem]
    split_ifs
    · exact .inl rfl
    · exact .inl rfl
    · exact .inr rfl
    · exact .inl rfl
  have frame : ∀ n', n' = n ∨ n' = { n with cpuMem := .cpuMem k } → Placed s.device n' ∧
      n'.baseAddrIndex = n.baseAddrIndex ∧ n'.baseMem = n.baseMem ∧ n'.gmem = n.gmem := by
    rintro n' (rfl | rfl)
    · exact ⟨placed, rfl, rfl, rfl⟩
    · exact ⟨⟨placed.vaddr, placed.baseMem, placed.gmem, by simp, placed.mapped⟩, rfl, rfl, rfl⟩
  obtain ⟨placed', index, block, handle⟩ := frame _ cases
  exact inv.replace inv.fault found index block (fun g is => handle ▸ is) rfl (fun _ root => root)
    placed' (fun l m _ is => inv.placed l m is) inv.attached

theorem Inv.loadStep (inv : s.Inv) (unexported : s.tensors = []) {action : Action}
    (safe : s.Safe action) (stepped : s.loadStep physical action = some s') : s'.Inv := by
  cases action with
  | reserveIonMem name size offset ok => exact inv.reserveIonMem unexported safe stepped
  | reserveSysMem k ok => exact inv.reserveSysMem stepped
  | loaded =>
    cases stepped
    exact ⟨inv.fault, inv.base, inv.placed, inv.entry, inv.apart, fun tensor member =>
      ⟨(inv.attached tensor member).root, (inv.attached tensor member).nonNull⟩⟩
  | exportTensor _ | setTensorPtr _ _ | setTensorPhysicalAddr _ _ | load _ | store _ | toCpu _
  | toTpu _ => cases stepped

/-- A tensor changes. -/
theorem Inv.setTensors (inv : s.Inv) {tensors : List Tensor}
    (attached : ∀ tensor ∈ tensors, s.Attached tensor) : Inv { s with tensors := tensors } :=
  ⟨inv.fault, inv.base, inv.placed, inv.entry, inv.apart, fun tensor member =>
    ⟨(attached tensor member).root, (attached tensor member).nonNull⟩⟩

theorem Attached.fine {tensor : Tensor} {n : NeuronMem} (attached : s.Attached tensor)
    (found : s.neurons[tensor.neuron]? = some n) (own : 3 ≤ n.baseAddrIndex) :
    Use.Fine s.device (.pointer tensor.sysMem) := by
  obtain ⟨m, is, nonNull⟩ := attached.nonNull
  cases found.symm.trans is
  cases pointer : tensor.sysMem with
  | null => exact absurd pointer (nonNull own)
  | device b o => exact (attached.root b o pointer).live
  | cpuMem k => trivial
  | client buffer => trivial

/-- A pointer the client has is as good as the tensor it comes from. -/
theorem Inv.known (inv : s.Inv) {mem : Pointer} (known : s.Known mem) :
    mem ≠ .null ∧ ∀ b o, mem = .device b o → s.device.Root b := by
  cases mem with
  | null => exact known.elim
  | client buffer => exact ⟨by simp, by simp⟩
  | cpuMem k => exact ⟨by simp, by simp⟩
  | device block offset =>
    refine ⟨by simp, ?_⟩
    rintro b o ⟨⟩
    obtain ⟨tensor, member, is⟩ := known
    exact (inv.attached tensor member).root block offset is

theorem Inv.exportTensor (inv : s.Inv) {k : Nat} (stepped : s.useStep (.exportTensor k) = some s') :
    s'.Inv := by
  obtain ⟨n, found, outcome⟩ := Option.bind_eq_some_iff.mp stepped
  cases outcome
  have placed := inv.placed k n found
  refine inv.setTensors fun tensor member => ?_
  rcases List.mem_append.mp member with member | member
  · exact inv.attached tensor member
  · rw [List.mem_singleton] at member
    subst member
    refine ⟨fun b o is => ?_, n, found, fun own => ?_⟩
    · rw [NeuronMem.sysMem] at is
      split at is
      · exact absurd is (placed.cpuMem b o)
      · exact placed.vaddr b o is
    · obtain ⟨-, b, o, is⟩ := placed.mapped own
      simp only [placed.sysMem_eq own, is]
      simp

theorem Inv.setTensorPtr (inv : s.Inv) {j : Nat} {mem : Pointer}
    (stepped : s.useStep (.setTensorPtr j mem) = some s') : s'.Inv := by
  obtain ⟨tensor, found, outcome⟩ := Option.bind_eq_some_iff.mp stepped
  split at outcome
  · next known =>
    cases outcome
    obtain ⟨nonNull, root⟩ := inv.known known
    refine inv.setTensors fun other member => ?_
    rcases List.mem_or_eq_of_mem_set member with member | rfl
    · exact inv.attached other member
    · obtain ⟨-, n, is, -⟩ := inv.attached tensor (List.mem_of_getElem? found)
      exact ⟨root, n, is, fun _ => nonNull⟩
  · cases outcome

theorem Inv.setTensorPhysicalAddr (inv : s.Inv) {j paddr : Nat}
    (safe : s.Safe (.setTensorPhysicalAddr j paddr))
    (stepped : s.useStep (.setTensorPhysicalAddr j paddr) = some s') : s'.Inv := by
  obtain ⟨tensor, foundTensor, rest⟩ := Option.bind_eq_some_iff.mp stepped
  obtain ⟨n, found, outcome⟩ := Option.bind_eq_some_iff.mp rest
  have placed := inv.placed _ n found
  have attached : ∀ other ∈ s.tensors.set j { tensor with paddr := paddr, memType := .device },
      s.Attached other := by
    intro other member
    rcases List.mem_or_eq_of_mem_set member with member | rfl
    · exact inv.attached other member
    · obtain ⟨root, nonNull⟩ := inv.attached tensor (List.mem_of_getElem? foundTensor)
      exact ⟨root, nonNull⟩
  rcases n.updateBaseAddr_cases s.device s.base paddr with ⟨-, updated⟩ | ⟨-, null, updated⟩ |
    ⟨w, own, handle, updated⟩
  · rw [updated] at outcome
    cases outcome
    exact inv.replace inv.fault found rfl rfl (fun _ is => is) rfl (fun _ root => root) placed
      (fun l m _ is => inv.placed l m is) attached
  · rw [updated] at outcome
    cases outcome
    exact inv.replace inv.fault found rfl rfl (fun _ is => is) rfl (fun _ root => root)
      ⟨placed.vaddr, placed.baseMem, placed.gmem, placed.cpuMem, placed.mapped⟩
      (fun l m _ is => inv.placed l m is) attached
  · rw [updated] at outcome
    cases outcome
    -- the freed handle is a window: a root would be the neuron's own block
    have window : ¬ s.device.Root w := by
      intro root
      rcases safe _ n found own tensor foundTensor rfl with none | other
      · rw [handle] at none
        cases none
      · exact other (handle.trans ((placed.gmem w handle).2.2 root).2.symm)
    have roots : ∀ b, s.device.Root b → (s.device.cviMemFree w).Root b :=
      fun b root => root.free window
    refine inv.replace inv.fault found rfl rfl (by simp) rfl roots ?_ ?_ attached
    · exact ⟨fun b o is => roots b (placed.vaddr b o is),
        fun b is => roots b (placed.baseMem b is), by simp, placed.cpuMem, placed.mapped⟩
    · intro l m other is
      exact (inv.placed l m is).free window
        (inv.apart _ l n m w (Ne.symm other) found is handle)

/-- An address set for a neuron that has its own block leaves its base entries dangling. -/
theorem not_sound_of_own {j paddr : Nat}
    (careless : ¬ s.Safe (.setTensorPhysicalAddr j paddr))
    (stepped : s.useStep (.setTensorPhysicalAddr j paddr) = some s') : ¬ s'.Sound := by
  obtain ⟨tensor, foundTensor, rest⟩ := Option.bind_eq_some_iff.mp stepped
  obtain ⟨n, found, outcome⟩ := Option.bind_eq_some_iff.mp rest
  have bad : 3 ≤ n.baseAddrIndex ∧ n.gmem ≠ none ∧ n.gmem = n.baseMem := by
    refine Classical.byContradiction fun fine => careless ?_
    intro k m is own other isTensor same
    cases foundTensor.symm.trans isTensor
    subst same
    cases found.symm.trans is
    refine Classical.byContradiction fun both => fine ⟨own, ?_⟩
    rwa [not_or, not_not] at both
  obtain ⟨high, has, own⟩ := bad
  rcases n.updateBaseAddr_cases s.device s.base paddr with ⟨low, -⟩ | ⟨-, null, -⟩ |
    ⟨w, -, handle, updated⟩
  · exact absurd high (Nat.not_le.mpr low)
  · exact absurd null has
  · rw [updated] at outcome
    cases outcome
    rintro ⟨-, -, live⟩
    have member : { n with paddr := paddr, gmem := none } ∈
        s.neurons.set tensor.neuron { n with paddr := paddr, gmem := none } := by
      refine List.mem_of_getElem? (i := tensor.neuron) ?_
      rw [List.getElem?_set_self', found]
      rfl
    have freed := (live _ member high).2.2 w (own ▸ handle)
    exact (Heap.live_free.mp freed).2 rfl

/-- The operations that use a neuron's memory, and when all their uses are fine. -/
theorem useStep_phase {action : Action} (stepped : s.useStep action = some s') :
    s'.phase = s.phase := by
  cases action with
  | exportTensor k =>
    obtain ⟨n, -, outcome⟩ := Option.bind_eq_some_iff.mp stepped
    cases outcome
    rfl
  | setTensorPtr j mem =>
    obtain ⟨tensor, -, outcome⟩ := Option.bind_eq_some_iff.mp stepped
    split at outcome
    · cases outcome
      rfl
    · cases outcome
  | setTensorPhysicalAddr j paddr =>
    obtain ⟨tensor, -, rest⟩ := Option.bind_eq_some_iff.mp stepped
    obtain ⟨n, -, outcome⟩ := Option.bind_eq_some_iff.mp rest
    cases outcome
    rfl
  | load j =>
    obtain ⟨tensor, -, rest⟩ := Option.bind_eq_some_iff.mp stepped
    obtain ⟨n, -, rest⟩ := Option.bind_eq_some_iff.mp rest
    obtain ⟨_, -, outcome⟩ := Option.bind_eq_some_iff.mp rest
    cases outcome
    rfl
  | store j =>
    obtain ⟨tensor, -, rest⟩ := Option.bind_eq_some_iff.mp stepped
    obtain ⟨n, -, outcome⟩ := Option.bind_eq_some_iff.mp rest
    cases outcome
    rfl
  | toCpu k | toTpu k =>
    obtain ⟨n, -, outcome⟩ := Option.bind_eq_some_iff.mp stepped
    cases outcome
    rfl
  | reserveIonMem _ _ _ _ | reserveSysMem _ _ | loaded => cases stepped

theorem Inv.useStep_cases (inv : s.Inv) {action : Action}
    (stepped : s.useStep action = some s') :
    (s'.Inv ∧ s.Safe action) ∨ (∃ j paddr, action = .setTensorPhysicalAddr j paddr) ∨
    ∃ k n state uses, s.neurons[k]? = some n ∧
      s' = s.perform k n { n with state := state } uses ∧
      (s.Safe action ↔ (3 ≤ n.baseAddrIndex → ∀ use ∈ uses, use.Fine s.device)) := by
  cases action with
  | exportTensor k => exact .inl ⟨inv.exportTensor stepped, fun _ _ _ _ => trivial⟩
  | setTensorPtr j mem => exact .inl ⟨inv.setTensorPtr stepped, fun _ _ _ _ => trivial⟩
  | setTensorPhysicalAddr j paddr => exact .inr (.inl ⟨j, paddr, rfl⟩)
  | load j =>
    obtain ⟨tensor, foundTensor, rest⟩ := Option.bind_eq_some_iff.mp stepped
    obtain ⟨n, found, rest⟩ := Option.bind_eq_some_iff.mp rest
    obtain ⟨⟨uses, n'⟩, loaded, outcome⟩ := Option.bind_eq_some_iff.mp rest
    cases outcome
    refine .inr (.inr ⟨tensor.neuron, n, n'.state, uses, found, ?_, ?_⟩)
    · rw [← NeuronMem.load_frame loaded]
    have placed := inv.placed _ n found
    have attached := inv.attached tensor (List.mem_of_getElem? foundTensor)
    constructor
    · intro safe own
      rw [placed.load_fine_iff own (attached.fine found own) loaded]
      exact safe _ n found own tensor foundTensor rfl
    · intro fine k m is own other isTensor same
      cases foundTensor.symm.trans isTensor
      subst same
      cases found.symm.trans is
      exact (placed.load_fine_iff own (attached.fine found own) loaded).mp (fine own)
  | store j =>
    obtain ⟨tensor, foundTensor, rest⟩ := Option.bind_eq_some_iff.mp stepped
    obtain ⟨n, found, outcome⟩ := Option.bind_eq_some_iff.mp rest
    cases outcome
    refine .inr (.inr ⟨tensor.neuron, n, n.state, _, found, rfl, ?_⟩)
    have placed := inv.placed _ n found
    have attached := inv.attached tensor (List.mem_of_getElem? foundTensor)
    constructor
    · intro safe own
      rw [placed.store_fine_iff own (attached.fine found own)]
      exact safe _ n found own tensor foundTensor rfl
    · intro fine k m is own other isTensor same
      cases foundTensor.symm.trans isTensor
      subst same
      cases found.symm.trans is
      exact (placed.store_fine_iff own (attached.fine found own)).mp (fine own)
  | toCpu k =>
    obtain ⟨n, found, outcome⟩ := Option.bind_eq_some_iff.mp stepped
    cases outcome
    refine .inr (.inr ⟨k, n, n.toCpu.2.state, n.toCpu.1, found, ?_, ?_⟩)
    · rw [← NeuronMem.toCpu_frame]
    constructor
    · intro safe own
      exact (inv.placed k n found).toCpu_fine_iff.mpr (safe k n found own rfl)
    · intro fine k' m is own same
      subst same
      cases found.symm.trans is
      exact (inv.placed k n found).toCpu_fine_iff.mp (fine own)
  | toTpu k =>
    obtain ⟨n, found, outcome⟩ := Option.bind_eq_some_iff.mp stepped
    cases outcome
    refine .inr (.inr ⟨k, n, n.toTpu.2.state, n.toTpu.1, found, ?_, ?_⟩)
    · rw [← NeuronMem.toTpu_frame]
    constructor
    · intro safe own
      exact ((inv.placed k n found).toTpu_fine_iff own).mpr (safe k n found own rfl)
    · intro fine k' m is own same
      subst same
      cases found.symm.trans is
      exact ((inv.placed k n found).toTpu_fine_iff own).mp (fine own)
  | reserveIonMem _ _ _ _ | reserveSysMem _ _ | loaded => cases stepped

/-- A neuron that has its own block and is replaced leaves its base entry dangling. -/
theorem Inv.not_sound_of_replaced (inv : s.Inv) {name : String} {size offset : Nat} {ok : Bool}
    (careless : ¬ s.Safe (.reserveIonMem name size offset ok))
    (stepped : s.loadStep physical (.reserveIonMem name size offset ok) = some s') :
    ¬ s'.Sound := by
  obtain ⟨⟨done, n, base', device'⟩, reserved, outcome⟩ := Option.bind_eq_some_iff.mp stepped
  rw [Safe] at careless
  push Not at careless
  obtain ⟨k, m, found, high, place, reserves, has, block⟩ := careless
  obtain ⟨g, is⟩ := Option.ne_none_iff_exists'.mp has
  rw [(NeuronMem.reserveIonMem_done reserved).mpr reserves] at outcome
  cases outcome
  have entry := NeuronMem.reserveIonMem_grown reserved
    (inv.entry k m g found (block.symm.trans is))
  rintro ⟨-, live, -⟩
  rw [ProgramMem.assign] at live
  simp only [ProgramMem.find] at place live
  simp only [place, found, Option.bind_some, is] at live
  exact (Heap.live_free.mp (live _ g high entry)).2 rfl

theorem Inv.loadStep_cases (inv : s.Inv) {action : Action}
    (stepped : s.loadStep physical action = some s') : s.Safe action ∨ ¬ s'.Sound := by
  cases action with
  | reserveIonMem name size offset ok =>
    by_cases safe : s.Safe (.reserveIonMem name size offset ok)
    · exact .inl safe
    · exact .inr (inv.not_sound_of_replaced safe stepped)
  | reserveSysMem _ _ | loaded => exact .inl fun _ _ _ _ => trivial
  | exportTensor _ | setTensorPtr _ _ | setTensorPhysicalAddr _ _ | load _ | store _ | toCpu _
  | toTpu _ => cases stepped

theorem Inv.perform (inv : s.Inv) {k : Nat} {n : NeuronMem} {state : NeuronState}
    {uses : List Use} (found : s.neurons[k]? = some n)
    (fine : 3 ≤ n.baseAddrIndex → ∀ use ∈ uses, use.Fine s.device) :
    (s.perform k n { n with state := state } uses).Inv := by
  have placed := inv.placed k n found
  refine inv.replace ?_ found rfl rfl (fun _ is => is) rfl (fun _ root => root)
    ⟨placed.vaddr, placed.baseMem, placed.gmem, placed.cpuMem, placed.mapped⟩
    (fun l m _ is => inv.placed l m is) inv.attached
  rw [inv.fault, Bool.false_or, decide_eq_false_iff_not]
  rintro ⟨own, bad⟩
  exact bad (fine own)

/-- Nothing is exported before the program is loaded. -/
def Unexported (s : ProgramMem) : Prop := s.phase = .loading → s.tensors = []

theorem Unexported.step (unexported : s.Unexported) {action : Action}
    (stepped : s.step physical action = some s') : s'.Unexported := by
  intro loading'
  rw [ProgramMem.step] at stepped
  split at stepped
  · next loading =>
    have same : s'.tensors = s.tensors := by
      cases action with
      | reserveIonMem name size offset ok =>
        obtain ⟨⟨done, n, base, device⟩, -, outcome⟩ := Option.bind_eq_some_iff.mp stepped
        cases done with
        | false => cases outcome; rfl
        | true =>
          cases outcome
          rw [ProgramMem.assign]
          split <;> rfl
      | reserveSysMem k ok =>
        obtain ⟨n, -, outcome⟩ := Option.bind_eq_some_iff.mp stepped
        cases outcome
        rfl
      | loaded => cases stepped; rfl
      | exportTensor _ | setTensorPtr _ _ | setTensorPhysicalAddr _ _ | load _ | store _ | toCpu _
      | toTpu _ => cases stepped
    exact same.trans (unexported loading)
  · next loaded =>
    have same : s'.phase = s.phase := useStep_phase stepped
    rw [same, loaded] at loading'
    cases loading'
  · cases stepped

theorem Inv.step (inv : s.Inv) (unexported : s.Unexported) {action : Action}
    (safe : s.Safe action) (stepped : s.step physical action = some s') : s'.Inv := by
  rw [ProgramMem.step] at stepped
  split at stepped
  · next loading => exact inv.loadStep (unexported loading) safe stepped
  · rcases inv.useStep_cases stepped with ⟨inv', -⟩ | ⟨j, paddr, rfl⟩ |
      ⟨k, n, state, uses, found, rfl, iff⟩
    · exact inv'
    · exact inv.setTensorPhysicalAddr safe stepped
    · exact inv.perform found (iff.mp safe)
  · cases stepped

theorem Inv.breaks (inv : s.Inv) {action : Action} (careless : ¬ s.Safe action)
    (stepped : s.step physical action = some s') : ¬ s'.Sound := by
  rw [ProgramMem.step] at stepped
  split at stepped
  · exact (inv.loadStep_cases stepped).resolve_left careless
  · rcases inv.useStep_cases stepped with ⟨-, safe⟩ | ⟨j, paddr, rfl⟩ |
      ⟨k, n, state, uses, found, rfl, iff⟩
    · exact absurd safe careless
    · exact not_sound_of_own careless stepped
    · rintro ⟨calm, -⟩
      rw [iff, Classical.not_imp] at careless
      simp only [ProgramMem.perform, careless, not_false_eq_true, and_self, decide_true,
        Bool.or_true] at calm
      cases calm
  · cases stepped

/-- The memory of the neurons with their own base stays sound through a run exactly when no
    neuron that owns its block is replaced by one of the same name or gets an address, and a
    neuron whose address was set is neither loaded nor stored as a system tensor nor moved. -/
theorem run_sound_iff {space : NeuronSpace} (actions : List Action) {t : ProgramMem}
    (ran : run (ProgramMem.step physical) (start space) actions = some t) :
    (∀ before after s, before ++ after = actions →
      run (ProgramMem.step physical) (start space) before = some s → s.Sound) ↔
      Admits (ProgramMem.step physical) Safe (start space) actions :=
  forall_reached_iff (P := fun s => s.Inv ∧ s.Unexported) (fun _ inv => inv.1.sound)
    (fun _ _ _ inv safe stepped => ⟨inv.1.step inv.2 safe stepped, inv.2.step stepped⟩)
    (fun _ _ _ inv careless stepped => inv.1.breaks careless stepped)
    ⟨Inv.start space, fun _ => rfl⟩ ran

/-- A program that needs no blocks below index 3. -/
def noSpace : NeuronSpace := ⟨.new, ⟨fun _ => none, fun _ => 0⟩, by simp⟩

/-- Two neurons in the block of index 3; the second replaces one of its name, and gets an address
    of the client. -/
def windowMoved : List Action :=
  [.reserveIonMem "data" 128 (3 * 2 ^ 40) true,
    .reserveIonMem "prob" 16 (3 * 2 ^ 40 + 32) true,
    .reserveIonMem "prob" 32 (3 * 2 ^ 40 + 64) true, .loaded, .exportTensor 0, .exportTensor 1,
    .setTensorPhysicalAddr 1 0x8000, .load 0, .load 1, .store 1, .toCpu 0]

theorem run_sound_iff_window_moved :
    (∃ t, run (ProgramMem.step fun b => 0x1000 * (b + 1)) (start noSpace) windowMoved = some t) ∧
      ∀ before after s, before ++ after = windowMoved →
        run (ProgramMem.step fun b => 0x1000 * (b + 1)) (start noSpace) before = some s →
          s.Sound := by
  refine ⟨⟨_, rfl⟩, (run_sound_iff windowMoved rfl).mpr ?_⟩
  -- "data" and the first "prob" are new
  iterate 2
    refine ⟨?_, ?_⟩
    · rintro k n is own place -
      cases place
    rintro _ ⟨⟩
  -- the second "prob" finds a window at 1
  refine ⟨?_, ?_⟩
  · rintro k n is own place -
    cases (place : some 1 = some k)
    cases is
    exact .inr (by decide)
  rintro _ ⟨⟩
  iterate 3
    refine ⟨fun _ _ _ _ => trivial, ?_⟩
    rintro _ ⟨⟩
  refine ⟨?_, ?_⟩
  · rintro k n is own tensor ⟨⟩ ⟨⟩
    cases is
    exact .inr (by decide)
  rintro _ ⟨⟩
  iterate 3
    refine ⟨?_, ?_⟩
    · rintro k n is own tensor ⟨⟩ ⟨⟩
      cases is
      decide
    rintro _ ⟨⟩
  refine ⟨?_, ?_⟩
  · rintro k n is own ⟨⟩
    cases is
    decide
  rintro _ ⟨⟩
  trivial

/-- One neuron with its own block, whose address is set once and which then gets a system
    tensor: the bytes are copied into the freed block and the null handle is flushed. -/
theorem freed_block_used :
    ∃ s, run (ProgramMem.step fun b => 0x1000 * (b + 1)) (start noSpace)
      [.reserveIonMem "data" 64 (3 * 2 ^ 40) true, .loaded, .exportTensor 0,
        .setTensorPhysicalAddr 0 0x8000, .setTensorPtr 0 (.client 0), .load 0] = some s ∧
      ¬ s.Sound ∧ s.fault = true ∧ s.base.mem 3 = some 0 ∧ ¬ s.device.heap.Live 0 := by
  refine ⟨_, rfl, ?_, by decide, by decide, by decide⟩
  rintro ⟨calm, -⟩
  exact absurd calm (by decide)

end ProgramMem

end CviRuntime.Memory
