import CviRuntime.Lib.ByteMem

/-!
# The 180x command encoder (`src/soc/180x/bm_dmabuf.c`)

A command buffer is a row of records, a header `cmd_hdr_t` followed by a body of
`hdr.len` bytes. `cvi180x_dmabuf_size` computes the size of the encoded buffer,
`cvi180x_dmabuf_convert` writes it: a header, a table of segments (`cvi_cpu_desc_t`),
the TIU descriptors and the TDMA descriptors.

The record header, the registers and the sizes come from the kernel headers, which are
not part of the repository: `KernelHeaders` collects what the encoder takes from them.
The memory beyond the buffers is ordinary memory here; every access is put into a log,
so that which bytes are touched can be stated. Following a null `desc` stops the program.
-/

namespace CviRuntime.Dmabuf

open ByteMem

/-- What the encoder takes from `bmkernel`. A field of `cmd_hdr_t` is given by its offset
    and width in bytes and by the value its bytes stand for. -/
structure KernelHeaders where
  /-- `sizeof(cmd_hdr_t)` -/
  hdrBytes : Nat
  magicField : Nat × Nat
  engineField : Nat × Nat
  lenField : Nat × Nat
  magicOf : List UInt8 → Nat
  engineOf : List UInt8 → Nat
  lenOf : List UInt8 → Nat
  /-- `CMDBUF_HDR_MAGIC_180X` -/
  magic180X : Nat
  /-- `BMK1822_ENGINE_NUM`, `BMK1822_TIU`, `BMK1822_TDMA`, `BMK1822_CPU` -/
  engineNum : Nat
  tiu : Nat
  tdma : Nat
  cpu : Nat
  /-- `BD_REG_BYTES` is this many lines of 16 bytes -/
  bdLines : Nat
  /-- the bytes `parse_tdma_reg` reads -/
  tdmaRegBytes : Nat
  /-- `BDC_ENGINE_CMD_ALIGNED_BIT`, `TDMA_DESCRIPTOR_ALIGNED_BIT` -/
  bdcAlignedBit : Nat
  tdmaAlignedBit : Nat
  /-- `CPU_ENGINE_STR_LIMIT_BYTE`, `CPU_OP_SYNC` -/
  cpuStrLimit : Nat
  cpuOpSync : Nat
  /-- `TDMA_ACCPI0_EOD_BIT`, `TDMA_ACCPI0_INTERRUPT_BIT`, `TDMA_ACCPI0_BARRIER_ENABLE_BIT` -/
  tdmaEodBit : Nat
  tdmaInterruptBit : Nat
  tdmaBarrierEnableBit : Nat
  /-- `cmd_id_tpu` of `parse_tiu_reg`, `cmd_id` of `parse_tdma_reg` -/
  tiuCmdId : List UInt8 → Nat
  tdmaCmdId : List UInt8 → Nat
  /-- `parse_tiu_reg`, set `cmd_end` and `cmd_intr_en`, `emit_tiu_reg` -/
  tiuSetEnd : List UInt8 → List UInt8
  hdr_pos : 0 < hdrBytes
  magic_inside : magicField.1 + magicField.2 ≤ hdrBytes
  engine_inside : engineField.1 + engineField.2 ≤ hdrBytes
  len_inside : lenField.1 + lenField.2 ≤ hdrBytes
  tiu_lt : tiu < engineNum
  tdma_lt : tdma < engineNum
  cpu_lt : cpu < engineNum
  tiu_ne_tdma : tiu ≠ tdma
  tiu_ne_cpu : tiu ≠ cpu
  tdma_ne_cpu : tdma ≠ cpu
  bdLines_pos : 0 < bdLines
  tdmaAlignedBit_two : 2 ≤ tdmaAlignedBit
  tdmaEodBit_lt : tdmaEodBit < 32
  tdmaInterruptBit_lt : tdmaInterruptBit < 32
  tdmaBarrierEnableBit_lt : tdmaBarrierEnableBit < 32
  tiuSetEnd_length : ∀ bytes, (tiuSetEnd bytes).length = bytes.length

namespace KernelHeaders

variable (k : KernelHeaders)

/-- `BD_REG_BYTES`. -/
def bdRegBytes : Nat := 16 * k.bdLines

/-- `GDMA_DESC_ALIGN_SIZE` (`bm_dmabuf.c:23`). -/
def gdmaDescAlignSize : Nat := 2 ^ k.tdmaAlignedBit

/-- `sizeof(cvi_cpu_desc_t)` (`bm_types.h:114-123`), which is `CPU_ENGINE_BYTES`. -/
def armBytes : Nat := 28 + k.cpuStrLimit

end KernelHeaders

/-- `sizeof(dma_hdr_t)` (`bm_types.h:83-111`). -/
def sizeofDmaHdr : Nat := 128

/-- `BD_EOD_PADDING_BYTES` (`bm_dmabuf.c:24`). -/
def bdEodPaddingBytes : Nat := 128

/-- An access of the encoder: a read of the command buffer, an index into one of the arrays
    over the engines, a write to the encoded buffer. -/
inductive Access where
  | read (off n : Nat)
  | index (engine : Nat)
  | write (off n : Nat)
  deriving DecidableEq, Repr

/-- Ways to leave a function early: `BM_ERR_DATA`, a null `desc`, or a loop cut short. -/
inductive Stop where
  | errData
  | nullDesc
  | outOfFuel
  deriving DecidableEq, Repr

/-- The encoded buffer and the log of accesses, latest first. -/
structure Buffers where
  dmabuf : Nat → UInt8
  log : List Access

abbrev M := EStateM Stop Buffers

/-- Put an access into the log. -/
def touch (access : Access) : M Unit := fun s => .ok () { s with log := access :: s.log }

def writeDma (off : Nat) (bytes : List UInt8) : M Unit := fun s =>
  .ok () ⟨writeBytes s.dmabuf off bytes, .write off bytes.length :: s.log⟩

def readDma (off n : Nat) : M (List UInt8) := fun s => .ok (readBytes s.dmabuf off n) s

def readDma32 (off : Nat) : M Nat := fun s => .ok (read32 s.dmabuf off) s

section

variable (k : KernelHeaders) (cmdbuf : Nat → UInt8) (sz : Nat)

def readCmd (off n : Nat) : M (List UInt8) := do
  touch (.read off n)
  pure (readBytes cmdbuf off n)

def hdrMagic (off : Nat) : M Nat := do
  return k.magicOf (← readCmd cmdbuf (off + k.magicField.1) k.magicField.2)

def hdrEngine (off : Nat) : M Nat := do
  return k.engineOf (← readCmd cmdbuf (off + k.engineField.1) k.engineField.2)

/-- `hdr.len`, also what `cmd_hdr_len` returns. -/
def hdrLen (off : Nat) : M Nat := do
  return k.lenOf (← readCmd cmdbuf (off + k.lenField.1) k.lenField.2)

/-- `traverse_start` (`bm_dmabuf.c:31-44`). -/
def traverseStart : M Nat := do
  if (← hdrMagic k cmdbuf 0) ≠ k.magic180X then throw .errData
  return 0

/-- `traverse_next` (`bm_dmabuf.c:46-58`). -/
def traverseNext (desc : Nat) : M (Option Nat) := do
  let next := desc + (← hdrLen k cmdbuf desc) + k.hdrBytes
  if sz ≤ next then return none
  if (← hdrMagic k cmdbuf next) ≠ k.magic180X then throw .errData
  return some next

/-- `is_last_desc` (`bm_dmabuf.c:60-69`). -/
def isLastDesc (desc : Nat) : M Bool := do
  return (← traverseNext k cmdbuf sz desc).isNone

/-- `desc_sync_id` (`bm_dmabuf.c:142-160`). -/
def descSyncId (desc : Nat) : M Nat := do
  let engine ← hdrEngine k cmdbuf desc
  if engine = k.tiu then
    return k.tiuCmdId (← readCmd cmdbuf (desc + k.hdrBytes) k.bdRegBytes)
  else if engine = k.tdma then
    return k.tdmaCmdId (← readCmd cmdbuf (desc + k.hdrBytes) k.tdmaRegBytes)
  else throw .errData

/-- The loops over the records: `while (desc != NULL) { body; traverse_next }`. Every round
    moves on by a header at least, so `sz + 1` rounds are enough. -/
def walk {σ : Type} (body : Nat → σ → M σ) : Nat → Option Nat → σ → M σ
  | _, none, st => pure st
  | 0, some _, _ => throw .outOfFuel
  | fuel + 1, some desc, st => do
    let st ← body desc st
    let next ← traverseNext k cmdbuf sz desc
    walk body fuel next st

/-- The entries of the arrays over the engines that are used. -/
@[ext] structure Counters where
  tiu : Nat
  tdma : Nat
  cpu : Nat
  deriving DecidableEq, Repr

/-- `counters[engine_id]++`. -/
def Counters.bump (c : Counters) (engine : Nat) : Counters :=
  if engine = k.tiu then { c with tiu := c.tiu + 1 }
  else if engine = k.tdma then { c with tdma := c.tdma + 1 }
  else if engine = k.cpu then { c with cpu := c.cpu + 1 }
  else c

/-- The TIU part of the buffer grown by a segment of `count` TIU descriptors
    (`bm_dmabuf.c:208-212,222-226,413-416,427-430`). -/
def growTiu (size count : Nat) : Nat :=
  if count ≠ 0 then alignUp (size + count * k.bdRegBytes + bdEodPaddingBytes) k.bdcAlignedBit
  else size

/-! ## `cvi180x_dmabuf_size` -/

structure SizeState where
  counters : Counters
  tdmaDescNum : Nat
  bdSize : Nat
  tiuCnt : Nat
  tdmaCnt : Nat
  deriving DecidableEq, Repr

/-- The end of a segment (`bm_dmabuf.c:412-420,426-434`). -/
def SizeState.close (st : SizeState) : SizeState where
  counters := { st.counters with tiu := 0, tdma := 0 }
  tdmaDescNum := st.tdmaDescNum + st.counters.tdma
  bdSize := growTiu k st.bdSize st.counters.tiu
  tiuCnt := (st.tiuCnt + st.counters.tiu % 65536) % 2 ^ 32
  tdmaCnt := (st.tdmaCnt + st.counters.tdma % 65536) % 2 ^ 32

def sizeBody (desc : Nat) (st : SizeState) : M SizeState := do
  let engine ← hdrEngine k cmdbuf desc
  touch (.index engine)
  let st := { st with counters := st.counters.bump k engine }
  if engine ≠ k.cpu then
    let syncId ← descSyncId k cmdbuf desc
    let isLast ← isLastDesc k cmdbuf sz desc
    if syncId = 0xFFFF ∨ isLast then
      return { st with counters := { st.counters with cpu := st.counters.cpu + 1 } }.close k
    else return st
  else return st.close k

/-- `dma hdr + arm descs + bd descs + tdma descs` (`bm_dmabuf.c:441-444`). -/
def layoutSize (cpuNum bdSize tdmaNum : Nat) : Nat :=
  alignUp (alignUp (sizeofDmaHdr + cpuNum * k.armBytes) k.bdcAlignedBit + bdSize)
    k.tdmaAlignedBit + tdmaNum * k.gdmaDescAlignSize

/-- `ALIGN((tiu_cnt + tdma_cnt) * PER_DES_SIZE + PADDING_SIZE, 0x1000)` in `uint32_t`. -/
def pmuSize (tiuCnt tdmaCnt : Nat) : Nat :=
  (((tiuCnt + tdmaCnt) * 16 + 1024 * 1024 + 0xFFF) % 2 ^ 32) >>> 12 <<< 12

/-- `cvi180x_dmabuf_size` (`bm_dmabuf.c:384-450`): `*psize` and `*pmu_size`. -/
def dmabufSize : M (Nat × Nat) := do
  let desc ← traverseStart k cmdbuf
  let st ← walk k cmdbuf sz (sizeBody k cmdbuf sz) (sz + 1) (some desc) ⟨⟨0, 0, 0⟩, 0, 0, 0, 0⟩
  return (layoutSize k st.counters.cpu st.bdSize st.tdmaDescNum, pmuSize st.tiuCnt st.tdmaCnt)

/-! ## `fill_header_and_arm` -/

/-- The address of an entry of the segment table. -/
def armAt (i : Nat) : Nat := sizeofDmaHdr + i * k.armBytes

/-- `strncpy(arm->str, "layer_end", sizeof(arm->str) - 1)`. -/
def layerEnd : List UInt8 :=
  let text : List UInt8 := [0x6c, 0x61, 0x79, 0x65, 0x72, 0x5f, 0x65, 0x6e, 0x64]
  (text ++ List.replicate k.cpuStrLimit 0).take (k.cpuStrLimit - 1)

structure ArmState where
  counters : Counters
  descNums : Counters
  descSizeTiu : Nat
  deriving DecidableEq, Repr

def ArmState.close (st : ArmState) : ArmState where
  counters := { st.counters with tiu := 0, tdma := 0 }
  descNums := st.descNums
  descSizeTiu := growTiu k st.descSizeTiu st.counters.tiu

/-- The body of the loop of `fill_header_and_arm` (`bm_dmabuf.c:185-236`). -/
def armBody (desc : Nat) (st : ArmState) : M ArmState := do
  let engine ← hdrEngine k cmdbuf desc
  touch (.index engine)
  touch (.index engine)
  let st := { st with
    counters := st.counters.bump k engine, descNums := st.descNums.bump k engine }
  if engine ≠ k.cpu then
    let syncId ← descSyncId k cmdbuf desc
    let isLast ← isLastDesc k cmdbuf sz desc
    if syncId = 0xFFFF ∨ isLast then
      let st := { st with descNums := { st.descNums with cpu := st.descNums.cpu + 1 } }
      let arm := armAt k (st.descNums.cpu - 1)
      writeDma arm (List.replicate k.armBytes 0)
      writeDma arm (le32 k.cpuOpSync)
      writeDma (arm + 4) (le32 st.counters.tiu)
      writeDma (arm + 8) (le32 st.counters.tdma)
      writeDma (arm + 28) (layerEnd k)
      return st.close k
    else return st
  else
    let arm := armAt k (st.descNums.cpu - 1)
    writeDma arm (← readCmd cmdbuf (desc + k.hdrBytes) k.armBytes)
    writeDma (arm + 4) (le32 st.counters.tiu)
    writeDma (arm + 8) (le32 st.counters.tdma)
    return st.close k

/-- The `dma_hdr_t` written, all further fields zero; `TPU_DMABUF_HEADER_M` is `0xB5B5`. -/
def headerBytes (size cpuNum tiuNum tdmaNum : Nat) : List UInt8 :=
  [0xB5, 0xB5, 0x22, 0x18] ++ le32 size ++ le32 cpuNum ++ le32 tiuNum ++ le32 tdmaNum ++
    List.replicate 108 0

/-- `fill_header_and_arm` (`bm_dmabuf.c:162-258`): `*tiu_offset` and `*tdma_offset`. -/
def fillHeaderAndArm : M (Nat × Nat) := do
  let desc ← traverseStart k cmdbuf
  let st ← walk k cmdbuf sz (armBody k cmdbuf sz) (sz + 1) (some desc)
    ⟨⟨0, 0, 0⟩, ⟨0, 0, 0⟩, 0⟩
  let tiuOffset := alignUp (sizeofDmaHdr + st.descNums.cpu * k.armBytes) k.bdcAlignedBit
  let tdmaOffset := alignUp (tiuOffset + st.descSizeTiu) k.tdmaAlignedBit
  writeDma 0 (headerBytes (tdmaOffset + st.descNums.tdma * k.gdmaDescAlignSize) st.descNums.cpu
    st.descNums.tiu st.descNums.tdma)
  return (tiuOffset, tdmaOffset)

/-! ## `fill_bd_and_tdma` -/

/-- `reorder_bd_cmdbuf_reg` (`bm_dmabuf.c:71-84`): tag the last byte of each line of 16 bytes
    with the number of the line, then exchange the first and the last line. -/
def reorderBdCmdbufReg (bytes : List UInt8) : List UInt8 :=
  let tagged := bytes.mapIdx fun i byte =>
    if i % 16 = 15 then byte ||| UInt8.ofNat (i / 16 * 16) else byte
  let last := k.bdRegBytes - 16
  tagged.mapIdx fun i byte =>
    if i < 16 then tagged.getD (last + i) 0
    else if last ≤ i then tagged.getD (i - last) 0
    else byte

/-- `adjust_desc_bd` (`bm_dmabuf.c:95-105`). -/
def adjustDescBd (bytes : List UInt8) (eod : Bool) : List UInt8 :=
  reorderBdCmdbufReg k (if eod then k.tiuSetEnd bytes else bytes)

/-- `body[0] |= 1 << bit`: little-endian, so the bit lies in byte `bit / 8`. -/
def orBit (bytes : List UInt8) (bit : Nat) : List UInt8 :=
  bytes.mapIdx fun i byte => if i = bit / 8 then byte ||| UInt8.ofNat (2 ^ (bit % 8)) else byte

/-- `adjust_desc_tdma` (`bm_dmabuf.c:86-93`). -/
def adjustDescTdma (bytes : List UInt8) (eod : Bool) : List UInt8 :=
  let bytes := if eod then orBit (orBit bytes k.tdmaEodBit) k.tdmaInterruptBit else bytes
  orBit bytes k.tdmaBarrierEnableBit

/-- `x--` on a `uint32_t`. -/
def dec32 (x : Nat) : Nat := (x + (2 ^ 32 - 1)) % 2 ^ 32

/-- `desc`, `tiu_offset` and `tdma_offset` of `fill_bd_and_tdma`. -/
structure Cursor where
  desc : Option Nat
  tiuOffset : Nat
  tdmaOffset : Nat
  deriving DecidableEq, Repr

/-- The switch of `fill_bd_and_tdma` (`bm_dmabuf.c:295-345`); the counters are `tiu_num` and
    `tdma_num`. -/
def copyDesc (desc tiuNum tdmaNum : Nat) (c : Cursor) : M (Nat × Nat × Cursor) := do
  let engine ← hdrEngine k cmdbuf desc
  if engine = k.tiu then
    let tiuNum := dec32 tiuNum
    let len ← hdrLen k cmdbuf desc
    writeDma c.tiuOffset (← readCmd cmdbuf (desc + k.hdrBytes) len)
    let slot ← readDma c.tiuOffset k.bdRegBytes
    writeDma c.tiuOffset (adjustDescBd k slot (tiuNum = 0))
    return (tiuNum, tdmaNum, { c with tiuOffset := c.tiuOffset + k.bdRegBytes })
  else if engine = k.tdma then
    let tdmaNum := dec32 tdmaNum
    let tdmaOffset := alignUp c.tdmaOffset k.tdmaAlignedBit
    let len ← hdrLen k cmdbuf desc
    writeDma tdmaOffset (← readCmd cmdbuf (desc + k.hdrBytes) len)
    let word ← readDma tdmaOffset 4
    writeDma tdmaOffset (adjustDescTdma k word (tdmaNum = 0))
    return (tiuNum, tdmaNum, { c with tdmaOffset := tdmaOffset + k.gdmaDescAlignSize })
  else return (tiuNum, tdmaNum, c)

/-- `while (tiu_num || tdma_num)` (`bm_dmabuf.c:291-351`). -/
def copyLoop : Nat → Nat → Nat → Cursor → M Cursor
  | 0, _, _, _ => throw .outOfFuel
  | fuel + 1, tiuNum, tdmaNum, c =>
    if tiuNum = 0 ∧ tdmaNum = 0 then pure c else
    match c.desc with
    | none => throw .nullDesc
    | some desc => do
      let (tiuNum, tdmaNum, c) ← copyDesc k cmdbuf desc tiuNum tdmaNum c
      let next ← traverseNext k cmdbuf sz desc
      copyLoop fuel tiuNum tdmaNum { c with desc := next }

/-- One round of the loop over the segments (`bm_dmabuf.c:274-360`). -/
def fillSegment (i : Nat) (c : Cursor) : M Cursor := do
  let arm := armAt k i
  let tiuNum := (← readDma32 (arm + 4)) % 65536
  let tdmaNum := (← readDma32 (arm + 8)) % 65536
  let tiuOffset := if tiuNum ≠ 0 then alignUp c.tiuOffset k.bdcAlignedBit else c.tiuOffset
  if tiuNum ≠ 0 then writeDma (arm + 12) (le32 tiuOffset)
  let tdmaOffset := if tdmaNum ≠ 0 then alignUp c.tdmaOffset k.tdmaAlignedBit else c.tdmaOffset
  if tdmaNum ≠ 0 then writeDma (arm + 16) (le32 tdmaOffset)
  let c ← copyLoop k cmdbuf sz (sz + 2) tiuNum tdmaNum ⟨c.desc, tiuOffset, tdmaOffset⟩
  if (← readDma32 (arm + 4)) % 65536 ≠ 0 then
    writeDma c.tiuOffset (List.replicate bdEodPaddingBytes 0)
    return { c with tiuOffset := c.tiuOffset + bdEodPaddingBytes }
  else return c

/-- `for (uint32_t i = 0; i < p_header->cpu_desc_count; i++)`. -/
def fillLoop : Nat → Nat → Cursor → M Unit
  | 0, _, _ => throw .outOfFuel
  | fuel + 1, i, c => do
    if i < (← readDma32 8) then
      let c ← fillSegment k cmdbuf sz i c
      fillLoop fuel (i + 1) c
    else return ()

/-- `fill_bd_and_tdma` (`bm_dmabuf.c:260-362`). -/
def fillBdAndTdma (tiuOffset tdmaOffset : Nat) : M Unit := do
  let desc ← traverseStart k cmdbuf
  fillLoop k cmdbuf sz (2 ^ 32) 0 ⟨some desc, tiuOffset, tdmaOffset⟩

/-- `cvi180x_dmabuf_convert` (`bm_dmabuf.c:364-381`). -/
def dmabufConvert : M Unit := do
  let (tiuOffset, tdmaOffset) ← fillHeaderAndArm k cmdbuf sz
  fillBdAndTdma k cmdbuf sz tiuOffset tdmaOffset

end

end CviRuntime.Dmabuf
