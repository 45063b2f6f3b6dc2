import CviRuntime.CModel.Cmdbuf
import CviRuntime.Lib.Heap
import CviRuntime.MemPool.Model

/-!
# The simulator's device memory (`src/cmodel/runtime_cmodel_main.cpp`)

The memory of the software model is one row of bytes. Its beginning is kept for the descriptors
that are run, a pool gives out the rest. A `bm_memory_t` is a block of the pool or, made by
`CVI_RT_MemPreAlloc`, a window into another one; freeing a window leaves the block in the pool.
A command buffer is sent at once, or loaded into a block and run from there as often as one likes.

The software model is not part of the sources: what the descriptors do to its memory is a
parameter. Addresses are `unsigned long long`s and are reduced by `u64`. A failed assertion, the
use of a freed `bm_memory_t` and an access outside the memory of the model end the program.
-/

namespace CviRuntime.CModel

open ByteMem Dmabuf MemPool

/-- A simulated chip, opened (`cmodel_cmdbuf_180x.cpp:40-53`). -/
structure Chip where
  c : CModelCmdbuf
  /-- `cvk_chip_info.gmem_size` -/
  gmemSize : UInt64
  /-- `bm_cmodel_run_gmem_cmdbuf`: base registers, memory, then address and size of the TIU and
      of the TDMA descriptors -/
  runGmemCmdbuf : (Nat → UInt64) → (Nat → UInt8) → Nat → Nat → Nat → Nat → Nat → UInt8

/-- `g_gmem_reserved_size` -/
def Chip.gmemReservedSize (chip : Chip) : Nat :=
  (chip.c.tiuCmdbufReservedSize + chip.c.tdmaCmdbufReservedSize).toNat

/-- `pool_size` of `rt_device_open`. -/
def Chip.poolSize (chip : Chip) : Nat := chip.gmemSize.toNat - chip.gmemReservedSize

/-- `bm_memory_t` (`runtime_cmodel_internal.h:72-78`). `vAddr` counts from the address that
    `bm_cmodel_get_chipGmem` gives. -/
structure BmMemory where
  isPrealloc : Bool
  pAddr : Nat
  vAddr : Nat
  size : Nat
  deriving DecidableEq, Repr

/-- `bm_device_t` with the memory and the base registers of its model, the `bm_memory_t`s that
    were made, and `seq_no` of the one context. -/
structure Device where
  pool : Pool
  gmem : Nat → UInt8
  baseReg : Nat → UInt64
  seqNo : UInt16
  mems : Heap BmMemory

variable (chip : Chip)

/-- `rt_device_open` (`cmodel_cmdbuf_180x.cpp:21-65`); the contents of memory and registers are
    those that `bm_cmodel_init` leaves. -/
def rtDeviceOpen (gmem : Nat → UInt8) (baseReg : Nat → UInt64) : Option Device :=
  if chip.gmemReservedSize < chip.gmemSize.toNat then
    some ⟨memPoolCreate chip.poolSize, gmem, baseReg, 0, Heap.empty⟩
  else none

/-- `bm_device_close` of the last user: the assertions of `mem_pool_destroy`
    (`runtime_cmodel_main.cpp:103-116`). -/
def bmDeviceClose (dev : Device) : Bool := memPoolDestroy dev.pool

/-! ## Blocks and windows -/

/-- `ALIGN(size, 16)` on a `size_t`. -/
def alignAxi (size : Nat) : Nat := u64 (size + 15) / 16 * 16

/-- `rt_device_alloc_raw` (`cmodel_cmdbuf.cpp:299-317`). The new `bm_memory_t` has the number
    `dev.mems.next`. -/
def rtDeviceAllocRaw (dev : Device) (size : Nat) : Option Device := do
  let (addr, pool) ← memPoolAlloc dev.pool (alignAxi size)
  let addr := u64 (addr + chip.gmemReservedSize)
  return { dev with pool := pool, mems := dev.mems.alloc ⟨false, addr, addr, size⟩ }

/-- `rt_device_free` (`cmodel_cmdbuf.cpp:319-331`). -/
def rtDeviceFree (dev : Device) (h : Nat) : Option Device := do
  let mem ← dev.mems.cell h
  let pool ← (if mem.isPrealloc then some dev.pool
    else memPoolFree dev.pool (u64 (mem.pAddr + 2 ^ 64 - chip.gmemReservedSize)))
  return { dev with pool := pool, mems := dev.mems.free h }

/-- `CVI_RT_MemPreAlloc` (`runtime_cmodel_main.cpp:675-687`). -/
def memPreAlloc (dev : Device) (h offset size : Nat) : Option Device := do
  let mem ← dev.mems.cell h
  if mem.size < u64 (size + offset) then none
  else return { dev with
    mems := dev.mems.alloc ⟨true, u64 (mem.pAddr + offset), u64 (mem.vAddr + offset), size⟩ }

/-! ## Copies -/

/-- `bm_cmodel_write_gmem`. -/
def writeGmem (dev : Device) (gaddr n : Nat) (src : Nat → UInt8) : Option Device :=
  if gaddr + n ≤ chip.gmemSize.toNat then
    some { dev with gmem := writeBytes dev.gmem gaddr (readBytes src 0 n) }
  else none

/-- `CVI_RT_MemCopyS2D` and `bm_memcpy_s2d` (`runtime_cmodel_main.cpp:242-246,761-767`). -/
def memCopyS2D (dev : Device) (dst : Nat) (src : Nat → UInt8) : Option Device := do
  let mem ← dev.mems.cell dst
  writeGmem chip dev mem.pAddr mem.size src

/-- `CVI_RT_MemCopyS2DEx` (`runtime_cmodel_main.cpp:769-776`). -/
def memCopyS2DEx (dev : Device) (dst offset len : Nat) (src : Nat → UInt8) : Option Device := do
  let mem ← dev.mems.cell dst
  if mem.size < u64 (offset + len) then none
  else writeGmem chip dev (u64 (mem.pAddr + offset)) len src

/-- What a caller does with the pointer of `CVI_RT_MemGetVAddr`: a `memcpy` to an offset. -/
def memWriteVAddr (dev : Device) (dst offset len : Nat) (src : Nat → UInt8) : Option Device := do
  let mem ← dev.mems.cell dst
  writeGmem chip dev (u64 (mem.vAddr + offset)) len src

/-- `CVI_RT_MemCopyD2S` and `bm_memcpy_d2s` (`runtime_cmodel_main.cpp:255-259,778-784`). -/
def memCopyD2S (dev : Device) (src : Nat) : Option (List UInt8) := do
  let mem ← dev.mems.cell src
  if mem.pAddr + mem.size ≤ chip.gmemSize.toNat then
    return readBytes dev.gmem mem.pAddr mem.size
  else none

/-! ## Command buffers -/

/-- An `int` passed as a `size_t`. -/
def sizeT (size : Int) : Nat := (size % 2 ^ 64).toNat

/-- The descriptors run and the run is counted (`*seq_no = ctx->seq_no++`). -/
def launch (dev : Device) (tiuSz tdmaSz : Nat) : Device :=
  { dev with
    gmem := chip.runGmemCmdbuf dev.baseReg dev.gmem chip.c.tiuCmdbufGaddr.toNat tiuSz
      chip.c.tdmaCmdbufGaddr.toNat tdmaSz
    seqNo := dev.seqNo + 1 }

/-- What `rt_send_cmdbuf` and `rt_load_cmdbuf` do to the device. A write without an address goes
    to the block that was allocated before. -/
def perform (dev : Device) : Event → Option Device
  | .extracted _ _ => some dev
  | .alloc size => rtDeviceAllocRaw chip dev (sizeT size)
  | .writeGmem (some gaddr) bytes size => writeGmem chip dev gaddr.toNat (sizeT size) bytes
  | .writeGmem none bytes _ => memCopyS2D chip dev (dev.mems.next - 1) bytes
  | .run tiuSz tdmaSz => some (launch chip dev (sizeT tiuSz) (sizeT tdmaSz))

/-- The events of a call that came to its end. -/
def performAll (dev : Device) (r : Result) : Option Device :=
  if r.code = some .success then r.trace.foldlM (perform chip) dev else none

/-- `bm_device_set_base_reg`. -/
def setBaseReg (dev : Device) (inx : Nat) (addr : UInt64) : Device :=
  { dev with baseReg := Function.update dev.baseReg inx addr }

def setBaseRegs (dev : Device) (bases : List (Nat × UInt64)) : Device :=
  bases.foldl (fun dev base => setBaseReg dev base.1 base.2) dev

def read64 (m : Nat → UInt8) (off : Nat) : UInt64 := UInt64.ofNat (leNat (readBytes m off 8))

/-- The common part of the calls that run a loaded buffer, up to the launch: the registers are
    set, `bases` of the two addresses in the header, and the descriptors are copied to where they
    run. The sizes in the header are not compared with the reserved ones. -/
def startCmdbuf (bases : UInt64 → UInt64 → List (Nat × UInt64)) (dev : Device) (h : Nat) :
    Option (Device × Nat × Nat) := do
  let mem ← dev.mems.cell h
  if chip.gmemSize.toNat < mem.pAddr + mem.size then none
  else
    let cmdbuf := fun i => dev.gmem (mem.pAddr + i)
    let tiuSz := read32 cmdbuf 16
    let tdmaSz := read32 cmdbuf 20
    if mem.size < sizeofCmdbufHeader + tiuSz + tdmaSz then none
    else
      let dev := setBaseRegs dev (bases (read64 cmdbuf 0) (read64 cmdbuf 8))
      let dev ← writeGmem chip dev chip.c.tiuCmdbufGaddr.toNat tiuSz
        fun i => cmdbuf (sizeofCmdbufHeader + i)
      let dev ← writeGmem chip dev chip.c.tdmaCmdbufGaddr.toNat tdmaSz
        fun i => cmdbuf (sizeofCmdbufHeader + tiuSz + i)
      return (dev, tiuSz, tdmaSz)

def runLoaded (bases : UInt64 → UInt64 → List (Nat × UInt64)) (dev : Device) (h : Nat) :
    Option Device := do
  let (dev, tiuSz, tdmaSz) ← startCmdbuf chip bases dev h
  return launch chip dev tiuSz tdmaSz

/-- `rt_run_cmdbuf` (`cmodel_cmdbuf.cpp:213-237`). -/
def rtRunCmdbuf : Device → Nat → Option Device :=
  runLoaded chip fun neuron weight => [(0, neuron), (1, weight)]

/-- `rt_run_cmdbuf_ex` (`cmodel_cmdbuf.cpp:239-265`). -/
def rtRunCmdbufEx (inputBase outputBase : UInt64) : Device → Nat → Option Device :=
  runLoaded chip fun neuron weight =>
    [(0, neuron), (1, weight), (2, inputBase), (3, outputBase)]

/-- `rt_run_cmdbuf_ex2` (`cmodel_cmdbuf.cpp:267-297`); the base addresses of the header are not
    used. -/
def rtRunCmdbufEx2 (base0 base1 base2 base3 base4 base5 base6 base7 : UInt64) :
    Device → Nat → Option Device :=
  runLoaded chip fun _ _ =>
    [(0, base0), (1, base1), (2, base2), (3, base3), (4, base4), (5, base5), (6, base6),
      (7, base7)]

/-! ## Runs of a client -/

/-- The calls of a client. `writes` names the `bm_memory_t`s that the descriptors of a run write
    to; the client knows them, the device does not look at them. -/
inductive DeviceOp where
  | memAlloc (size : Nat)
  | memPreAlloc (mem offset size : Nat)
  | memFree (mem : Nat)
  | memCopyS2D (dst : Nat) (src : Nat → UInt8)
  | memCopyS2DEx (dst offset len : Nat) (src : Nat → UInt8)
  | memWriteVAddr (dst offset len : Nat) (src : Nat → UInt8)
  | setBaseReg (inx : Nat) (addr : UInt64)
  | loadCmdbuf (fresh cmdbuf : Nat → UInt8) (sz : Nat) (neuronGaddr weightGaddr : UInt64)
      (enablePmu : Bool) (fuel : Nat)
  | loadDmabuf (fresh : Nat → UInt8) (dmabuf sz : Nat) (neuronGaddr weightGaddr : UInt64)
      (enablePmu : Bool)
  | runCmdbuf (bases : UInt64 → UInt64 → List (Nat × UInt64)) (mem : Nat) (writes : List Nat)
  | submit (fresh cmdbuf : Nat → UInt8) (sz fuel : Nat) (writes : List Nat)

variable (k : KernelHeaders) (regs : RegFields)

/-- `bm_send_cmdbuf` (`runtime_cmodel_main.cpp:290-294`). -/
def sendCmdbuf (dev : Device) (fresh cmdbuf : Nat → UInt8) (sz fuel : Nat) : Option Device := do
  let r ← rtSendCmdbuf k regs chip.c fresh cmdbuf sz fuel
  performAll chip dev r

/-- `bm_load_cmdbuf` (`runtime_cmodel_main.cpp:302-312`). -/
def loadCmdbuf (dev : Device) (fresh cmdbuf : Nat → UInt8) (sz : Nat)
    (neuronGaddr weightGaddr : UInt64) (enablePmu : Bool) (fuel : Nat) : Option Device := do
  let r ← rtLoadCmdbuf k regs chip.c fresh cmdbuf sz neuronGaddr weightGaddr enablePmu fuel
  performAll chip dev r

/-- `bm_load_dmabuf` (`runtime_cmodel_main.cpp:314-324`): the encoded buffer is read through its
    `v_addr`. -/
def loadDmabuf (dev : Device) (fresh : Nat → UInt8) (dmabuf sz : Nat)
    (neuronGaddr weightGaddr : UInt64) (enablePmu : Bool) : Option Device := do
  let mem ← dev.mems.cell dmabuf
  performAll chip dev (rtLoadDmabuf k chip.c fresh (fun i => dev.gmem (mem.vAddr + i)) sz
    neuronGaddr weightGaddr enablePmu)

def deviceStep (dev : Device) : DeviceOp → Option Device
  | .memAlloc size => rtDeviceAllocRaw chip dev size
  | .memPreAlloc mem offset size => memPreAlloc dev mem offset size
  | .memFree mem => rtDeviceFree chip dev mem
  | .memCopyS2D dst src => memCopyS2D chip dev dst src
  | .memCopyS2DEx dst offset len src => memCopyS2DEx chip dev dst offset len src
  | .memWriteVAddr dst offset len src => memWriteVAddr chip dev dst offset len src
  | .setBaseReg inx addr => some (setBaseReg dev inx addr)
  | .loadCmdbuf fresh cmdbuf sz neuronGaddr weightGaddr enablePmu fuel =>
      loadCmdbuf chip k regs dev fresh cmdbuf sz neuronGaddr weightGaddr enablePmu fuel
  | .loadDmabuf fresh dmabuf sz neuronGaddr weightGaddr enablePmu =>
      loadDmabuf chip k dev fresh dmabuf sz neuronGaddr weightGaddr enablePmu
  | .runCmdbuf bases mem _ => runLoaded chip bases dev mem
  | .submit fresh cmdbuf sz fuel _ => sendCmdbuf chip k regs dev fresh cmdbuf sz fuel

end CviRuntime.CModel
