import CviRuntime.Memory.Device
import CviRuntime.Runtime.Registry

/-!
# Parsing a model (`src/common/model.cpp`)

`CviModel::parse` checks the header and the version and then loads the sections of the file: the
weight and the DMA buffers in file order, the command buffers last. What the flatbuffer says and
how each allocation and each load by the device ends is given; a failed assertion ends the
program (`none`).
-/

namespace CviRuntime.Memory

open CviRuntime.Runtime

/-- `cvi::model::SectionType`; `func` is the type of CPU functions for the processor of the
    build. -/
inductive SectionType where
  | weight
  | cmdbuf
  | dmabuf
  | func
  | other
  deriving Repr, DecidableEq

structure Section where
  type : SectionType
  name : String
  offset : Nat
  size : Nat
  encrypt : Bool
  compress : Bool
  decompressedSize : Nat
  deriving Repr, DecidableEq

/-- A return code other than `CVI_RC_SUCCESS`. -/
abbrev ErrorCode : Type := { rc : Int // rc ≠ cviRcSuccess }

/-- How the calls made for a section end: `alloc` and `tmpAlloc` of `cviMemAlloc`, `dmabuf` of
    `CVI_RT_LoadDmabuf` (`ok none` is the handle it was given, else a new block of a size),
    `cmdbuf` of `CVI_RT_LoadCmdbuf` or `CVI_RT_LoadCmdbufTee`, `custom` of
    `CustomSection::load`. -/
structure Outcome where
  alloc : Bool
  tmpAlloc : Bool
  dmabuf : Except ErrorCode (Option Nat)
  cmdbuf : Except ErrorCode Nat
  custom : Bool

/-- A section and how loading it ends. -/
structure Job extends Section, Outcome

/-- An entry of `weight_map` of the flatbuffer: `shape` is null or not, `size` is that of the
    neuron. -/
structure FbWeight where
  name : String
  shape : Bool
  offset : Nat
  size : Nat
  deriving Repr, DecidableEq

/-- The flatbuffer. -/
structure FbModel where
  major : Int
  minor : Int
  sections : List Job
  weightMap : List FbWeight

/-- `ENABLE_COMPRESS_CMDBUF`, `isprotect` (`TPU_ENABLE_PROTECT`), `getpagesize()`, the version of
    the runtime, and `LZ4_decompress_safe` on bytes that do not fail. -/
structure Build where
  compressCmdbuf : Bool
  isprotect : Bool
  pageSize : Nat
  majorVersion : Int
  minorVersion : Int
  lz4 : List UInt8 → Nat → Option (List UInt8)

/-- The fields of a `CviModel` that hold device memory. `uninitUsed` is not in the code: a handle
    was used that no call had set. -/
structure ModelMem where
  device : Device
  weightMem : Option Nat
  dmabufMap : List (String × Nat)
  weightMap : List (String × Nat)
  uninitUsed : Bool

/-- `BaseStream::read` (`stream.cpp:31-36`). -/
def streamRead (stream : List UInt8) (offset size : Nat) : Option (List UInt8) :=
  if offset + size ≤ stream.length then some ((stream.drop offset).take size) else none

/-- `map[name] = value`. -/
def assign {β : Type*} (map : List (String × β)) (name : String) (value : β) :
    List (String × β) :=
  map.filter (·.1 ≠ name) ++ [(name, value)]

namespace Build

/-- `LZ4_decompress_safe` and the assertion on its result (`model.cpp:270-273,341-344`). -/
def decompress (b : Build) (bytes : List UInt8) (size : Nat) : Option (List UInt8) := do
  let out ← b.lz4 bytes size
  if out.length = size then some out else none

/-- `CviModel::showAndCheckVersion` (`model.cpp:170-199`). -/
def showAndCheckVersion (b : Build) (fb : FbModel) : Int :=
  if b.majorVersion > fb.major then cviRcSuccess
  else if b.minorVersion < fb.minor then cviRcInvalidArg
  else cviRcSuccess

end Build

namespace ModelMem

/-- A `CviModel` before `parse`. -/
def new (device : Device) : ModelMem := ⟨device, none, [], [], false⟩

/-- `dmabuf_map.emplace`: an entry that is there stays. -/
def emplace (map : List (String × Nat)) (name : String) (handle : Nat) : List (String × Nat) :=
  if name ∈ map.map Prod.fst then map else map ++ [(name, handle)]

/-- The end of `loadDmabuf` (`model.cpp:292-304`). -/
def finishDmabuf (m : ModelMem) (device : Device) (buf : Nat) (content : List UInt8) (job : Job) :
    Int × ModelMem :=
  match job.dmabuf with
  | .error rc => (rc, { m with device := device.cviMemFree buf })
  | .ok none =>
    (cviRcSuccess, { m with device := device, dmabufMap := emplace m.dmabufMap job.name buf })
  | .ok (some size) =>
    let (handle, device) := device.make size .loadDmabuf content
    (cviRcSuccess, { m with
      device := device.cviMemFree buf
      dmabufMap := emplace m.dmabufMap job.name handle })

/-- `CviModel::loadDmabuf` (`model.cpp:251-305`). The exit after a failed second allocation
    returns `false`, which is `CVI_RC_SUCCESS`. -/
def loadDmabuf (b : Build) (stream : List UInt8) (binOffset : Nat) (m : ModelMem) (job : Job) :
    Option (Int × ModelMem) :=
  if job.encrypt then none
  else
    match m.device.cviMemAlloc job.size job.alloc with
    | (none, device) => some (cviRcNomem, { m with device := device })
    | (some buf, device) => do
      let bytes ← streamRead stream (job.offset + binOffset) job.size
      let device := device.fill buf bytes
      if job.compress ∧ 0 < job.decompressedSize then
        if b.compressCmdbuf then
          match device.cviMemAlloc job.decompressedSize job.tmpAlloc with
          | (none, device) => return (cviRcSuccess, { m with device := device.cviMemFree buf })
          | (some tmpBuf, device) =>
            let out ← b.decompress bytes job.decompressedSize
            return m.finishDmabuf ((device.fill tmpBuf out).cviMemFree buf) tmpBuf out job
        else return (cviRcUnsupport, { m with device := device })
      else return m.finishDmabuf device buf bytes job

/-- The end of `loadCmdbuf` (`model.cpp:329-367`): a failed load leaves `cmdbuf_mem` unset, and
    it is protected all the same. -/
def finishCmdbuf (b : Build) (m : ModelMem) (content : List UInt8) (job : Job) : Int × ModelMem :=
  match job.cmdbuf with
  | .ok size =>
    let (handle, device) := m.device.make size .loadCmdbuf content
    (cviRcSuccess, { m with
      device := device
      dmabufMap := emplace m.dmabufMap job.name handle })
  | .error rc => (rc, { m with uninitUsed := m.uninitUsed || b.isprotect })

/-- `CviModel::loadCmdbuf` (`model.cpp:307-368`). -/
def loadCmdbuf (b : Build) (stream : List UInt8) (binOffset : Nat) (m : ModelMem) (job : Job) :
    Option (Int × ModelMem) :=
  if job.size = 0 then some (cviRcSuccess, m)
  else do
    let bytes ← streamRead stream (job.offset + binOffset) job.size
    if job.encrypt then return finishCmdbuf b m bytes job
    else if job.compress ∧ job.decompressedSize ≠ 0 then
      if b.compressCmdbuf then
        let out ← b.decompress bytes job.decompressedSize
        return finishCmdbuf b m out job
      else return (cviRcUnsupport, m)
    else return finishCmdbuf b m bytes job

/-- `CviModel::loadWeight` (`model.cpp:370-391`). -/
def loadWeight (b : Build) (stream : List UInt8) (binOffset : Nat) (m : ModelMem) (job : Job) :
    Option (Int × ModelMem) :=
  if job.size = 0 then some (cviRcSuccess, m)
  else
    let allocSize :=
      if b.isprotect then (job.size + b.pageSize - 1) / b.pageSize * b.pageSize else job.size
    match m.device.cviMemAlloc allocSize job.alloc with
    | (none, device) => some (cviRcNomem, { m with device := device, weightMem := none })
    | (some mem, device) => do
      let bytes ← streamRead stream (job.offset + binOffset) job.size
      return (cviRcSuccess, { m with device := device.fill mem bytes, weightMem := some mem })

/-- A turn of the first loop of `extractSections` (`model.cpp:218-241`). -/
def loadSection (b : Build) (stream : List UInt8) (binOffset : Nat) (m : ModelMem) (job : Job) :
    Option (Int × ModelMem) :=
  match job.type with
  | .func =>
    if job.size = 0 then some (cviRcSuccess, m)
    else if job.custom then some (cviRcSuccess, m)
    else some (cviRcFailure, m)
  | .weight => loadWeight b stream binOffset m job
  | .dmabuf => loadDmabuf b stream binOffset m job
  | .cmdbuf | .other => some (cviRcSuccess, m)

/-- A loop that returns the first error. -/
def loadEach (load : ModelMem → Job → Option (Int × ModelMem)) (m : ModelMem) :
    List Job → Option (Int × ModelMem)
  | [] => some (cviRcSuccess, m)
  | job :: jobs => do
    let (rc, m) ← load m job
    if rc ≠ cviRcSuccess then return (rc, m)
    loadEach load m jobs

/-- `CviModel::extractSections` (`model.cpp:214-249`). -/
def extractSections (b : Build) (stream : List UInt8) (binOffset : Nat) (m : ModelMem)
    (sections : List Job) : Option (Int × ModelMem) := do
  let (rc, m) ← loadEach (loadSection b stream binOffset) m sections
  if rc ≠ cviRcSuccess then return (rc, m)
  loadEach (loadCmdbuf b stream binOffset) m (sections.filter (·.type = .cmdbuf))

/-- A weight neuron takes the place of an older one of its name, which frees its window
    (`neuron.cpp:139,200-202`). -/
def addWeight (m : ModelMem) (weight : FbWeight) : Option ModelMem :=
  if weight.shape then do
    let (gmem, device) ← m.device.memPreAlloc m.weightMem (weight.offset % 2 ^ 40) weight.size
    let weightMap := assign m.weightMap weight.name gmem
    match m.weightMap.lookup weight.name with
    | some old => return { m with device := device.cviMemFree old, weightMap := weightMap }
    | none => return { m with device := device, weightMap := weightMap }
  else some m

/-- `CviModel::createCpuWeightMap` (`model.cpp:393-405`). -/
def createCpuWeightMap (m : ModelMem) (weights : List FbWeight) : Option ModelMem :=
  weights.foldlM addWeight m

/-- `body_size` of the header. -/
def payloadSize (a : Attempt) : Nat :=
  ((List.range 4).map fun i => (a.headerByte (8 + i)).toNat * 256 ^ i).sum

/-- `header_sz` (`model.cpp:150-155`). -/
def headerSize (a : Attempt) : Nat :=
  if a.headerByte 12 = 1 ∧ a.headerByte 13 = 0 then 0x20 else sizeofModelHeader

/-- `CviModel::parse` (`model.cpp:407-442`) after the header. -/
def parseBody (b : Build) (a : Attempt) (fb : FbModel) (m : ModelMem) : Option (Int × ModelMem) := do
  let _ ← streamRead a.stream (headerSize a) (payloadSize a)
  let rc := b.showAndCheckVersion fb
  if rc ≠ cviRcSuccess then return (rc, m)
  let (rc, m) ← extractSections b a.stream (headerSize a + payloadSize a) m fb.sections
  if rc ≠ cviRcSuccess then return (rc, m)
  let m ← m.createCpuWeightMap fb.weightMap
  return (cviRcSuccess, m)

/-- `CviModel::parse` (`model.cpp:407-442`). -/
def parse (b : Build) (g : Globals) (a : Attempt) (fb : FbModel) (device : Device) :
    Option (Int × Globals × ModelMem) :=
  match parseModelHeader g a with
  | (rc, g) =>
    if rc ≠ cviRcSuccess then some (rc, g, new device)
    else do
      let (rc, m) ← parseBody b a fb (new device)
      return (rc, g, m)

end ModelMem

end CviRuntime.Memory
