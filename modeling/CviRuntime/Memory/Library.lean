import CviRuntime.Lib.Run
import CviRuntime.Memory.ModelParse
import CviRuntime.Memory.NeuronMem
import CviRuntime.Memory.Ownership
import CviRuntime.Memory.SharedMem

/-!
# The device memory of the whole library (`src/common/runtime.cpp`)

Models own their weight, their buffers and the windows of their weights; the program of an
instance owns its private memory and the memory of its neurons, and has a share in the pool of
shared memory. All of it goes to the free callback that is installed when it is given up.
-/

namespace CviRuntime.Memory

open CviRuntime.Runtime

/-- A tensor of a flatbuffer program; `ok` says whether an allocation for it would find memory. -/
structure FbTensorMem where
  name : String
  size : Nat
  offset : Nat
  ok : Bool
  deriving Repr, DecidableEq

/-- What `Program::load` reads of a flatbuffer program, and how its calls end: the allocations of
    shared and private memory, and `createRoutines` with the preparations. `maxSharedMemSize` is
    the greatest `shared_gmem` of the programs of the model. -/
structure FbProgram where
  neuronSize : Nat
  sharedGmem : Nat
  privateGmem : Nat
  maxSharedMemSize : Nat
  tensors : List FbTensorMem
  sharedOk : Bool
  privateOk : Bool
  routinesOk : Bool

/-- The fields of a `Program` that say what memory it has (`program.hpp:54-68`). -/
structure Program where
  sharedMem : Option Nat
  privateMem : Option Nat
  base : BaseArrays
  neuronMap : List (String × NeuronMem)

/-- The fields of a `CviModel` that hold device memory, its reference count and the instances
    that refer to it, each with its program once it is loaded. -/
structure CviModel where
  ref : Int
  weightMem : Option Nat
  dmabufMap : List (String × Nat)
  weightMap : List (String × Nat)
  instances : List (Option Program)

/-- The pool of shared memory with the device, and the models. -/
structure Library where
  mem : SharedMem
  models : List CviModel

namespace Program

/-- `Program::Program` (`program.cpp:22-45`). -/
def new (physical : Nat → Nat) (device : Device) (weightMem : Option Nat) : Program where
  sharedMem := none
  privateMem := none
  base :=
    { mem := fun i => if i = 1 then weightMem else none
      addr := fun i =>
        if i = 1 then (weightMem.map (NeuronMem.paddrOf physical device)).getD 0 else 0 }
  neuronMap := []

/-- What `~Program` and the destructors of its neurons free, besides the shared memory. -/
def handles (p : Program) : List Nat :=
  p.privateMem.toList ++ p.neuronMap.flatMap fun entry => entry.2.gmem.toList

/-- `baseMemArray[i] = mem; baseAddrArray[i] = CVI_RT_MemGetPAddr(mem)`. -/
def setBase (physical : Nat → Nat) (device : Device) (base : BaseArrays) (i mem : Nat) :
    BaseArrays where
  mem := Function.update base.mem i (some mem)
  addr := Function.update base.addr i (NeuronMem.paddrOf physical device mem)

/-- The part of `createNeuronSpace` for private memory (`program.cpp:69-78,92-101`), which serves
    the base indices `indices`. -/
def allocPrivate (physical : Nat → Nat) (p : Program) (mem : SharedMem) (size : Nat) (ok : Bool)
    (indices : List Nat) : Bool × Program × SharedMem :=
  match mem.device.cviMemAlloc size ok with
  | (none, device) => (false, p, { mem with device := device })
  | (some handle, device) =>
    (true,
      { p with
        privateMem := some handle
        base := indices.foldl (fun base i => setBase physical device base i handle) p.base },
      { mem with device := device })

/-- `Program::createNeuronSpace` (`program.cpp:64-103`). -/
def createNeuronSpace (physical : Nat → Nat) (p : Program) (mem : SharedMem) (fb : FbProgram) :
    Bool × Program × SharedMem :=
  if fb.neuronSize ≠ 0 then p.allocPrivate physical mem fb.neuronSize fb.privateOk [0, 2]
  else
    let (ok, p, mem) :=
      if fb.sharedGmem ≠ 0 then
        match mem.allocateSharedMemory fb.maxSharedMemSize fb.sharedOk with
        | (none, mem) => (false, p, mem)
        | (some handle, mem) =>
          (true,
            { p with sharedMem := some handle, base := setBase physical mem.device p.base 0 handle },
            mem)
      else (true, p, mem)
    if ok && fb.privateGmem ≠ 0 then p.allocPrivate physical mem fb.privateGmem fb.privateOk [2]
    else (ok, p, mem)

/-- A turn of the loop of `createNeuronMap` (`program.cpp:108-115`): a neuron of the same name is
    destroyed. -/
def addNeuron (physical : Nat → Nat) (p : Program) (device : Device) (t : FbTensorMem) :
    Option (Bool × Program × Device) := do
  let (done, n, base, device) ←
    (NeuronMem.new t.size).reserveIonMem physical device p.base t.offset t.ok
  if done then
    let old := ((p.neuronMap.lookup t.name).bind NeuronMem.gmem).toList
    return (true, { p with base := base, neuronMap := assign p.neuronMap t.name n },
      device.freeAll old)
  else return (false, { p with base := base }, device)

/-- `Program::createNeuronMap` (`program.cpp:105-126`). -/
def createNeuronMap (physical : Nat → Nat) (p : Program) (device : Device) :
    List FbTensorMem → Option (Bool × Program × Device)
  | [] => some (true, p, device)
  | t :: ts => do
    let (done, p, device) ← p.addNeuron physical device t
    if done then createNeuronMap physical p device ts else return (false, p, device)

/-- `~Program` (`program.cpp:47-57`), and the destructors of the neurons. -/
def destroy (p : Program) (mem : SharedMem) : SharedMem :=
  let mem := match p.sharedMem with
    | some handle => mem.deallocateSharedMemory handle
    | none => mem
  { mem with device := mem.device.freeAll p.handles }

/-- `CviModel::loadProgram` (`model.cpp:444-471`): a program that does not load is destroyed. -/
def loadProgram (physical : Nat → Nat) (weightMem : Option Nat) (mem : SharedMem)
    (fb : FbProgram) : Option (Option Program × SharedMem) :=
  match (new physical mem.device weightMem).createNeuronSpace physical mem fb with
  | (false, p, mem) => some (none, p.destroy mem)
  | (true, p, mem) => do
    let (done, p, device) ← p.createNeuronMap physical mem.device fb.tensors
    let mem := { mem with device := device }
    if done && fb.routinesOk then return (some p, mem) else return (none, p.destroy mem)

end Program

namespace CviModel

/-- What `~CviModel` frees (`model.cpp:95-115`): the weight, the buffers, and the windows with the
    weight neurons. -/
def owned (m : CviModel) : List Nat :=
  m.weightMem.toList ++ m.dmabufMap.map Prod.snd ++ m.weightMap.map Prod.snd

def programs (m : CviModel) : List Program := m.instances.filterMap id

/-- What the model and its programs free. -/
def handles (m : CviModel) : List Nat := m.owned ++ m.programs.flatMap Program.handles

/-- The shares in the pool. -/
def shares (m : CviModel) : List Nat := m.programs.flatMap fun p => p.sharedMem.toList

/-- A model after `parse`, with the first instance. -/
def ofParse (m : ModelMem) : CviModel := ⟨1, m.weightMem, m.dmabufMap, m.weightMap, [none]⟩

end CviModel

namespace Library

def new : Library := ⟨.new, []⟩

inductive Action where
  /-- one of the `CVI_NN_RegisterModel` functions (`runtime.cpp:80-168`) -/
  | registerModel (b : Build) (g : Globals) (a : Attempt) (fb : FbModel)
  /-- `CVI_NN_CloneModel` (`runtime.cpp:172-184`) -/
  | cloneModel (i : Nat)
  /-- the first `CVI_NN_GetInputOutputTensors` of an instance (`runtime.cpp:235-249`) -/
  | loadProgram (i j : Nat) (fb : FbProgram)
  | setTensorPhysicalAddr (i j : Nat) (name : String) (paddr : Nat)
  /-- `CVI_NN_CleanupModel` (`runtime.cpp:291-303`) -/
  | cleanupModel (i j : Nat)
  /-- `CVI_RT_Global_SetMemAllocCallback`; `none` is a null callback -/
  | setMemAllocCallback (pair : Option Nat)
  | resetMemAllocCallback
  | setSharedMemSize (size : Nat)

/-- Another device in the pool. -/
def withDevice (s : Library) (device : Device) : Library :=
  { s with mem := { s.mem with device := device } }

/-- `CviModel::release` (`model.cpp:526-531`) by instance `j` of model `i`. -/
def release (s : Library) (i j : Nat) (m : CviModel) : Library :=
  let m := { m with ref := m.ref - 1, instances := m.instances.eraseIdx j }
  if m.ref = 0 then
    { s.withDevice (s.mem.device.freeAll m.owned) with models := s.models.eraseIdx i }
  else { s with models := s.models.set i m }

def step (physical : Nat → Nat) (s : Library) : Action → Option Library
  | .registerModel b g a fb => do
    let (rc, _, m) ← ModelMem.parse b g a fb s.mem.device
    if rc ≠ cviRcSuccess then
      return s.withDevice (m.device.freeAll (CviModel.ofParse m).owned)
    return { s.withDevice m.device with models := s.models ++ [.ofParse m] }
  | .cloneModel i => do
    let m ← s.models[i]?
    return { s with
      models := s.models.set i { m with ref := m.ref + 1, instances := m.instances ++ [none] } }
  | .loadProgram i j fb => do
    let m ← s.models[i]?
    match m.instances[j]? with
    | some none =>
      let (p, mem) ← Program.loadProgram physical m.weightMem s.mem fb
      return ⟨mem, s.models.set i { m with instances := m.instances.set j p }⟩
    | _ => none
  | .setTensorPhysicalAddr i j name paddr => do
    let m ← s.models[i]?
    match m.instances[j]? with
    | some (some p) =>
      let n ← p.neuronMap.lookup name
      let (n, base, device) := n.updateBaseAddr s.mem.device p.base paddr
      let p := { p with base := base, neuronMap := assign p.neuronMap name n }
      return { s.withDevice device with
        models := s.models.set i { m with instances := m.instances.set j (some p) } }
    | _ => none
  | .cleanupModel i j => do
    let m ← s.models[i]?
    let program ← m.instances[j]?
    let mem := match program with
      | some p => p.destroy s.mem
      | none => s.mem
    return { s with mem := mem }.release i j m
  | .setMemAllocCallback pair => some (s.withDevice (s.mem.device.cviSetMemCallback pair))
  | .resetMemAllocCallback => some (s.withDevice s.mem.device.cviResetMemCallback)
  | .setSharedMemSize size => some { s with mem := s.mem.setSharedMemSize size }

end Library

end CviRuntime.Memory
