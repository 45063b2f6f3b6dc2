import CviRuntime.Dmabuf.Layout

/-!
# The simulator's command buffers (`src/cmodel/cmodel_cmdbuf.cpp`)

`CModelCmdbuf` runs command buffers on a software model of the chip. A command buffer is copied
and adjusted in place, the TIU and the TDMA descriptors are picked out of it, and the two rows
of descriptors are given to the model, at once or from a device buffer that keeps them. An
encoded buffer has its descriptors picked out through its segment table.

The loops over the records count with 32 bits and take the length of a record from the buffer as
it is after the body of the loop. A loop that does not come to an end has no result for any
number of rounds. What a call does to the outside is put into a trace, in order.
-/

namespace CviRuntime.CModel

open ByteMem Dmabuf

/-- What the simulator takes from `bmkernel` beyond `KernelHeaders`: the size of a descriptor in
    `reg_tiu.h`, and parsing the registers, setting one field and emitting them again. -/
structure RegFields where
  /-- `TIU_DESC_REG_BYTES` is this many lines of 16 bytes -/
  tiuDescLines : Nat
  /-- `reg.cmd_end = 1`, `reg.cmd_intr_en = 1` of `tiu_reg_t` -/
  tiuCmdEnd : List UInt8 → List UInt8
  tiuCmdIntrEn : List UInt8 → List UInt8
  /-- `reg.eod = 1` of `tdma_reg_t` -/
  tdmaEod : List UInt8 → List UInt8
  tiuCmdEnd_length : ∀ bytes, (tiuCmdEnd bytes).length = bytes.length
  tiuCmdIntrEn_length : ∀ bytes, (tiuCmdIntrEn bytes).length = bytes.length
  tdmaEod_length : ∀ bytes, (tdmaEod bytes).length = bytes.length

/-- `TIU_DESC_REG_BYTES`. -/
def RegFields.tiuDescRegBytes (regs : RegFields) : Nat := 16 * regs.tiuDescLines

/-- The members of `CModelCmdbuf` that the functions read (`cmodel_cmdbuf.h:102-110`). -/
structure CModelCmdbuf where
  tiuCmdbufGaddr : UInt64
  tdmaCmdbufGaddr : UInt64
  tiuCmdbufReservedSize : UInt64
  tdmaCmdbufReservedSize : UInt64
  cmdbufHdrMagic : Nat
  dmabufHdrMagic : UInt32

/-- `CModelCmdbuf180x` (`cmodel_cmdbuf_180x.cpp:6-15`), opened. -/
def cmodelCmdbuf180x (k : KernelHeaders) (tiuGaddr tdmaGaddr tiuSize tdmaSize : UInt64) :
    CModelCmdbuf where
  tiuCmdbufGaddr := tiuGaddr
  tdmaCmdbufGaddr := tdmaGaddr
  tiuCmdbufReservedSize := tiuSize
  tdmaCmdbufReservedSize := tdmaSize
  cmdbufHdrMagic := k.magic180X
  dmabufHdrMagic := 0x182203

/-- `CModelCmdbuf183x` (`cmodel_cmdbuf_183x.cpp:7-16`), opened; `k` has the magic number of its
    chip, `CMDBUF_HDR_MAGIC_1880v2`. Its `set_eod` and `enable_interrupt` are the ones below. -/
def cmodelCmdbuf183x (k : KernelHeaders) (tiuGaddr tdmaGaddr tiuSize tdmaSize : UInt64) :
    CModelCmdbuf where
  tiuCmdbufGaddr := tiuGaddr
  tdmaCmdbufGaddr := tdmaGaddr
  tiuCmdbufReservedSize := tiuSize
  tdmaCmdbufReservedSize := tdmaSize
  cmdbufHdrMagic := k.magic180X
  dmabufHdrMagic := 0x1835

/-- The engines whose descriptors are picked out. -/
inductive Engine where
  | tiu
  | tdma
  deriving DecidableEq, Repr

/-! ## Loops over the records -/

/-- How the body of a loop ends: with the next round, by leaving the function, or never. -/
inductive Flow (σ : Type) where
  | next (st : σ)
  | leave (st : σ)
  | forever

/-- `for (uint32_t i = 0; i < sz; i += sizeof(*hdr) + hdr->len)`; `memory` is the buffer in the
    state. -/
def eachRecord {σ : Type} (k : KernelHeaders) (sz : Nat) (memory : σ → Nat → UInt8)
    (body : Nat → σ → Flow σ) : Nat → Nat → σ → Option σ
  | 0, _, _ => none
  | fuel + 1, i, st =>
    if i < sz then
      match body i st with
      | .next st' =>
        eachRecord k sz memory body fuel ((recAt k (memory st') i).next k % 2 ^ 32) st'
      | .leave st' => some st'
      | .forever => none
    else some st

section

variable (k : KernelHeaders)

/-- Registers changed in place. -/
def edit (m : Nat → UInt8) (off n : Nat) (change : List UInt8 → List UInt8) : Nat → UInt8 :=
  writeBytes m off (change (readBytes m off n))

/-- `last_tiu` and `last_tdma`. -/
structure Lasts where
  tiu : Option Nat
  tdma : Option Nat
  deriving DecidableEq, Repr

/-- The loop of `set_eod` (`cmodel_cmdbuf_180x.cpp:96-110`): an unknown engine is not left. -/
def eodBody (m : Nat → UInt8) (i : Nat) (lasts : Lasts) : Flow Lasts :=
  let engine := (recAt k m i).engine
  if engine = k.tdma then .next { lasts with tdma := some i }
  else if engine = k.tiu then .next { lasts with tiu := some i }
  else if engine = k.cpu then .next lasts
  else .forever

/-- The loop of `enable_interrupt` (`cmodel_cmdbuf_180x.cpp:71-77`). -/
def interruptBody (m : Nat → UInt8) (i : Nat) (lasts : Lasts) : Flow Lasts :=
  let engine := (recAt k m i).engine
  if engine = k.tdma then .next { lasts with tdma := some i }
  else if engine = k.tiu then .next { lasts with tiu := some i }
  else .next lasts

/-- The end of both: the last TIU and the last TDMA record changed. -/
def editLasts (m : Nat → UInt8) (lasts : Lasts) (tiuChange : List UInt8 → List UInt8)
    (tdmaBytes : Nat) (tdmaChange : List UInt8 → List UInt8) : Nat → UInt8 :=
  let m := lasts.tiu.elim m fun off => edit m (off + k.hdrBytes) k.bdRegBytes tiuChange
  lasts.tdma.elim m fun off => edit m (off + k.hdrBytes) tdmaBytes tdmaChange

variable (regs : RegFields)

/-- `CModelCmdbuf180x::set_eod` (`cmodel_cmdbuf_180x.cpp:90-124`). -/
def setEod (m : Nat → UInt8) (sz fuel : Nat) : Option (Nat → UInt8) := do
  let lasts ← eachRecord k sz (fun _ => m) (eodBody k m) fuel 0 ⟨none, none⟩
  return editLasts k m lasts regs.tiuCmdEnd k.tdmaRegBytes regs.tdmaEod

/-- `CModelCmdbuf180x::enable_interrupt` (`cmodel_cmdbuf_180x.cpp:69-88`). -/
def enableInterrupt (m : Nat → UInt8) (sz fuel : Nat) : Option (Nat → UInt8) := do
  let lasts ← eachRecord k sz (fun _ => m) (interruptBody k m) fuel 0 ⟨none, none⟩
  return editLasts k m lasts regs.tiuCmdIntrEn 4 (orBit · 3)

/-- The loops that change the registers of every record for an engine. -/
def editBody (engine n : Nat) (change : List UInt8 → List UInt8) (i : Nat) (m : Nat → UInt8) :
    Flow (Nat → UInt8) :=
  if (recAt k m i).engine = engine then .next (edit m (i + k.hdrBytes) n change) else .next m

/-- `enable_tdma_cmdbuf_barrier` (`cmodel_cmdbuf.cpp:28-37`). -/
def enableTdmaCmdbufBarrier (m : Nat → UInt8) (sz fuel : Nat) : Option (Nat → UInt8) :=
  eachRecord k sz id (editBody k k.tdma 4 (orBit · 4)) fuel 0 m

/-- `reorder_tiu_cmdbuf_reg` (`cmodel_cmdbuf.cpp:6-17`), over `TIU_DESC_REG_BYTES`. -/
def reorderTiuCmdbufReg (bytes : List UInt8) : List UInt8 :=
  let tagged := bytes.mapIdx fun i byte =>
    if i % 16 = 15 then byte ||| UInt8.ofNat (i / 16 * 16) else byte
  let last := regs.tiuDescRegBytes - 16
  tagged.mapIdx fun i byte =>
    if i < 16 then tagged.getD (last + i) 0
    else if last ≤ i then tagged.getD (i - last) 0
    else byte

/-- `reorder_tiu_cmdbuf` (`cmodel_cmdbuf.cpp:19-26`). -/
def reorderTiuCmdbuf (m : Nat → UInt8) (sz fuel : Nat) : Option (Nat → UInt8) :=
  eachRecord k sz id (editBody k k.tiu regs.tiuDescRegBytes (reorderTiuCmdbufReg regs)) fuel 0 m

/-- `adjust_cmdbuf` (`cmodel_cmdbuf.cpp:39-49`). -/
def adjustCmdbuf (m : Nat → UInt8) (sz fuel : Nat) : Option (Nat → UInt8) := do
  let m ← setEod k regs m sz fuel
  let m ← enableInterrupt k regs m sz fuel
  let m ← enableTdmaCmdbufBarrier k m sz fuel
  reorderTiuCmdbuf k regs m sz fuel

/-! ## Picking out the descriptors -/

/-- A value kept in an `int`. -/
def int32 (x : Int) : Int := x.bmod (2 ^ 32)

/-- `found_sz` and the buffer found descriptors are copied to. -/
structure Found where
  size : Int
  out : Nat → UInt8

/-- `memcpy(&found[found_sz], ..)`, then `found_sz += ..`. -/
def Found.append (found : Found) (base : Int) (bytes : List UInt8) : Found where
  size := int32 (found.size + bytes.length)
  out := writeBytes found.out (base + found.size).toNat bytes

def Engine.id : Engine → Nat
  | .tiu => k.tiu
  | .tdma => k.tdma

def extractBody (hdrMagic : Nat) (engine : Engine) (m : Nat → UInt8) (base : Int) (i : Nat)
    (found : Found) : Flow Found :=
  if magicAt k m i ≠ hdrMagic then .leave { found with size := -1 }
  else if (recAt k m i).engine = engine.id k then
    .next (found.append base ((recAt k m i).body k m))
  else .next found

/-- `extract_cmdbuf` (`cmodel_cmdbuf.cpp:51-69`), into a buffer at `base`. -/
def extractCmdbuf (hdrMagic : Nat) (engine : Engine) (m : Nat → UInt8) (sz : Nat) (base : Int)
    (out : Nat → UInt8) (fuel : Nat) : Option Found :=
  eachRecord k sz (fun _ => m) (extractBody k hdrMagic engine m base) fuel 0 ⟨0, out⟩

/-- `engine_num`, `engine_offset` and `engine_step` of `extract_dmabuf`. -/
def Engine.slots (engine : Engine) (m : Nat → UInt8) (i : Nat) : Nat × Nat × Nat :=
  match engine with
  | .tiu => (read32 m (armAt k i + 4) % 65536, read32 m (armAt k i + 12), k.bdRegBytes)
  | .tdma => (read32 m (armAt k i + 8) % 65536,
      alignUp (read32 m (armAt k i + 16)) k.tdmaAlignedBit, k.gdmaDescAlignSize)

/-- The loop of `extract_dmabuf` over the segments left. -/
def extractSegments (engine : Engine) (m : Nat → UInt8) (base : Int) : Nat → Nat → Found → Found
  | 0, _, found => found
  | left + 1, i, found =>
    let (num, offset, step) := engine.slots k m i
    extractSegments engine m base left (i + 1)
      (found.append base (readBytes m offset (num * step)))

/-- `extract_dmabuf` (`cmodel_cmdbuf.cpp:71-113`). `dmabuf_magic_s` has 16 bits,
    `dmabuf_hdr_magic` 32. -/
def extractDmabuf (hdrMagic : UInt32) (engine : Engine) (m : Nat → UInt8) (base : Int)
    (out : Nat → UInt8) : Found :=
  if read32 m 0 / 65536 ≠ hdrMagic.toNat then ⟨-1, out⟩
  else extractSegments k engine m base (read32 m 8) 0 ⟨0, out⟩

/-! ## The calls -/

/-- `BM_SUCCESS`, or an error code. -/
inductive Code where
  | success
  | error
  deriving DecidableEq, Repr

/-- What a call does outside itself, and what its calls to the extraction returned. -/
inductive Event where
  | extracted (engine : Engine) (size : Int)
  | alloc (size : Int)
  | writeGmem (gaddr : Option UInt64) (bytes : Nat → UInt8) (size : Int)
  | run (tiuSize tdmaSize : Int)

/-- The end of a call: its code, or nothing when an assertion failed or `new` threw. -/
structure Result where
  code : Option Code
  trace : List Event

variable (c : CModelCmdbuf)

/-- `rt_send_cmdbuf` (`cmodel_cmdbuf.cpp:115-143`); `fresh` is what `new` leaves in the buffers
    for the descriptors. -/
def rtSendCmdbuf (fresh cmdbuf : Nat → UInt8) (sz fuel : Nat) : Option Result := do
  let cmdbuf2 ← adjustCmdbuf k regs cmdbuf sz fuel
  let tiu ← extractCmdbuf k c.cmdbufHdrMagic .tiu cmdbuf2 sz 0 fresh fuel
  if ¬tiu.size ≤ int32 c.tiuCmdbufReservedSize.toNat then
    return ⟨none, [.extracted .tiu tiu.size]⟩
  let tdma ← extractCmdbuf k c.cmdbufHdrMagic .tdma cmdbuf2 sz 0 fresh fuel
  if ¬tdma.size ≤ int32 c.tdmaCmdbufReservedSize.toNat then
    return ⟨none, [.extracted .tiu tiu.size, .extracted .tdma tdma.size]⟩
  return ⟨some .success, [.extracted .tiu tiu.size, .extracted .tdma tdma.size,
    .writeGmem (some c.tiuCmdbufGaddr) tiu.out tiu.size,
    .writeGmem (some c.tdmaCmdbufGaddr) tdma.out tdma.size, .run tiu.size tdma.size]⟩

/-- `sizeof(CMDBUF_HEADER_T)` (`cmodel_cmdbuf.h:16-21`). -/
def sizeofCmdbufHeader : Nat := 24

/-- `cmdbuf3_sz` and `dmabuf2_sz`: `int`s, so that `new` throws on the negative ones. -/
def loadSize (sz : Nat) : Int := int32 (sizeofCmdbufHeader + sz)

def le64 (value : UInt64) : List UInt8 :=
  le32 value.toNat ++ le32 (value.toNat / 2 ^ 32)

/-- The fields of `CMDBUF_HEADER_T`. -/
def writeCmdbufHeader (buf : Nat → UInt8) (neuronGaddr weightGaddr : UInt64)
    (tiuSize tdmaSize : Int) : Nat → UInt8 :=
  writeBytes (writeBytes (writeBytes (writeBytes buf 0 (le64 neuronGaddr)) 8 (le64 weightGaddr)) 16
    (le32 (tiuSize % 2 ^ 32).toNat)) 20 (le32 (tdmaSize % 2 ^ 32).toNat)

/-- The end of `rt_load_cmdbuf` and `rt_load_dmabuf`, from the first extraction on; the second
    one depends on the size that the first one returned. -/
def loadExtracted (sz : Nat) (neuronGaddr weightGaddr : UInt64) (tiu : Found) (tdma : Found) :
    Result :=
  if ¬(tdma.size + tiu.size ≤ int32 sz ∧ tdma.size ≤ int32 c.tdmaCmdbufReservedSize.toNat) then
    ⟨none, [.extracted .tiu tiu.size, .extracted .tdma tdma.size]⟩
  else
    ⟨some .success, [.extracted .tiu tiu.size, .extracted .tdma tdma.size,
      .alloc (loadSize sz),
      .writeGmem none (writeCmdbufHeader tdma.out neuronGaddr weightGaddr tiu.size tdma.size)
        (loadSize sz)]⟩

/-- `rt_load_cmdbuf` (`cmodel_cmdbuf.cpp:151-182`). -/
def rtLoadCmdbuf (fresh cmdbuf : Nat → UInt8) (sz : Nat) (neuronGaddr weightGaddr : UInt64)
    (enablePmu : Bool) (fuel : Nat) : Option Result :=
  if enablePmu then return ⟨none, []⟩ else do
  let cmdbuf2 ← adjustCmdbuf k regs cmdbuf sz fuel
  if loadSize sz < 0 then return ⟨none, []⟩
  let tiu ← extractCmdbuf k c.cmdbufHdrMagic .tiu cmdbuf2 sz sizeofCmdbufHeader fresh fuel
  if ¬(tiu.size ≤ int32 sz ∧ tiu.size ≤ int32 c.tiuCmdbufReservedSize.toNat) then
    return ⟨none, [.extracted .tiu tiu.size]⟩
  let tdma ← extractCmdbuf k c.cmdbufHdrMagic .tdma cmdbuf2 sz (sizeofCmdbufHeader + tiu.size)
    tiu.out fuel
  return loadExtracted c sz neuronGaddr weightGaddr tiu tdma

/-- `rt_load_dmabuf` (`cmodel_cmdbuf.cpp:184-211`). -/
def rtLoadDmabuf (fresh dmabuf : Nat → UInt8) (sz : Nat) (neuronGaddr weightGaddr : UInt64)
    (enablePmu : Bool) : Result :=
  if enablePmu ∨ loadSize sz < 0 then ⟨none, []⟩ else
  let tiu := extractDmabuf k c.dmabufHdrMagic .tiu dmabuf sizeofCmdbufHeader fresh
  if ¬(tiu.size ≤ int32 sz ∧ tiu.size ≤ int32 c.tiuCmdbufReservedSize.toNat) then
    ⟨none, [.extracted .tiu tiu.size]⟩
  else
    let tdma := extractDmabuf k c.dmabufHdrMagic .tdma dmabuf (sizeofCmdbufHeader + tiu.size)
      tiu.out
    loadExtracted c sz neuronGaddr weightGaddr tiu tdma

end

end CviRuntime.CModel
