import CviRuntime.CModel.DeviceRun
import CviRuntime.CModel.Reject

/-!
# A loaded command buffer is run as if it were sent

`rt_load_cmdbuf` keeps the adjusted descriptors with a header in a block of the device memory,
`rt_run_cmdbuf` and its variants copy them from there to where they run. Between the two a client
may do what it likes with other buffers: as long as nothing writes to the block, a run of it does
what `rt_send_cmdbuf` does at that moment with the command buffer that was loaded, once the base
registers are set.
-/

namespace CviRuntime.CModel

open ByteMem Dmabuf MemPool Placement

section

variable {k : KernelHeaders} {regs : RegFields} {c : CModelCmdbuf} {cmdbuf m : Nat → UInt8}
  {sz fuel hdrMagic : Nat} {offs : List Nat}

/-- What the extraction copies when the buffer is short enough for an `int`. -/
theorem Span.extractCmdbuf_stream (span : Span k m sz 0 offs) (small : sz < 2 ^ 31)
    (good : AllMagic k hdrMagic m offs) (engine : Engine) (base : Nat) (out : Nat → UInt8)
    (enough : offs.length < fuel) :
    extractCmdbuf k hdrMagic engine m sz base out fuel =
      some ⟨(stream k m engine offs).length, writeBytes out base (stream k m engine offs)⟩ := by
  have inside := span.stream_length engine
  have runs : runBody (extractBody k hdrMagic engine m base) offs ⟨(0 : Nat), out⟩ =
      .next ⟨(0 + (stream k m engine offs).length : Nat),
        writeBytes out (base + 0) (stream k m engine offs)⟩ :=
    runBody_extract good (by omega)
  rw [Nat.zero_add, Nat.add_zero, Int.natCast_zero] at runs
  rw [extractCmdbuf, eachRecord_span span (by omega) (local_const k m _) enough, runs,
    Flow.result_next]

/-- The bodies for the two engines fit the buffer together. -/
theorem Span.streams_length (distinct : k.tiu ≠ k.tdma) {start : Nat}
    (span : Span k m sz start offs) :
    (stream k m .tiu offs).length + (stream k m .tdma offs).length ≤ sz - start := by
  induction span with
  | nil => simp [stream, positions]
  | @cons off offs _ rest ih =>
    have before := rest.le
    rw [recAt_next] at before ih
    by_cases tiu : (recAt k m off).engine = Engine.tiu.id k
    · have tdma : ¬(recAt k m off).engine = Engine.tdma.id k :=
        fun same => distinct (tiu.symm.trans same)
      rw [stream_cons_self tiu, stream_cons_other tdma, List.length_append, bodyAt_eq,
        length_readBytes]
      omega
    · rw [stream_cons_other tiu]
      by_cases tdma : (recAt k m off).engine = Engine.tdma.id k
      · rw [stream_cons_self tdma, List.length_append, bodyAt_eq, length_readBytes]
        omega
      · rw [stream_cons_other tdma]
        omega

theorem loadSize_of_small (small : sizeofCmdbufHeader + sz < 2 ^ 31) :
    loadSize sz = (sizeofCmdbufHeader + sz : Nat) := by
  rw [loadSize, ← Int.natCast_add, int32_of_small small]

theorem not_loadSize_neg (small : sizeofCmdbufHeader + sz < 2 ^ 31) : ¬loadSize sz < 0 := by
  rw [loadSize_of_small small]
  omega

/-- The two streams behind the header. -/
def loadedImage (fresh : Nat → UInt8) (tiu tdma : List UInt8) : Nat → UInt8 :=
  writeBytes (writeBytes fresh sizeofCmdbufHeader tiu) (sizeofCmdbufHeader + tiu.length) tdma

/-- What loading two streams does, `out` being the buffer with the streams. -/
def loadEvents (out : Nat → UInt8) (tiu tdma : List UInt8) (sz : Nat)
    (neuronGaddr weightGaddr : UInt64) : List Event :=
  [.extracted .tiu tiu.length, .extracted .tdma tdma.length,
    .alloc (sizeofCmdbufHeader + sz : Nat),
    .writeGmem none (writeCmdbufHeader out neuronGaddr weightGaddr tiu.length tdma.length)
      (sizeofCmdbufHeader + sz : Nat)]

/-- What sending two streams does. -/
def sendEvents (c : CModelCmdbuf) (fresh : Nat → UInt8) (tiu tdma : List UInt8) : List Event :=
  [.extracted .tiu tiu.length, .extracted .tdma tdma.length,
    .writeGmem (some c.tiuCmdbufGaddr) (writeBytes fresh 0 tiu) tiu.length,
    .writeGmem (some c.tdmaCmdbufGaddr) (writeBytes fresh 0 tdma) tdma.length,
    .run tiu.length tdma.length]

/-- What a load that came to its end has done with the descriptors it extracted. -/
theorem loadExtracted_success {tiu tdma : List UInt8} {tiuOut tdmaOut : Nat → UInt8}
    {neuronGaddr weightGaddr : UInt64} (small : sizeofCmdbufHeader + sz < 2 ^ 31)
    (success : (loadExtracted c sz neuronGaddr weightGaddr ⟨tiu.length, tiuOut⟩
      ⟨tdma.length, tdmaOut⟩).code = some .success) :
    tiu.length + tdma.length ≤ sz ∧ (tdma.length : Int) ≤ int32 c.tdmaCmdbufReservedSize.toNat ∧
      (loadExtracted c sz neuronGaddr weightGaddr ⟨tiu.length, tiuOut⟩
        ⟨tdma.length, tdmaOut⟩).trace =
          loadEvents tdmaOut tiu tdma sz neuronGaddr weightGaddr := by
  have short : int32 sz = sz := int32_of_small (by omega)
  unfold loadExtracted at success ⊢
  split at success
  · simp at success
  · rename_i fits
    rw [if_neg fits, loadSize_of_small small]
    simp only [not_not, short] at fits
    exact ⟨by omega, fits.2, rfl⟩

/-- A buffer whose descriptors fit the areas is sent. -/
theorem rtSendCmdbuf_sent {m' : Nat → UInt8} {tiu tdma : List UInt8}
    (adjusts : adjustCmdbuf k regs cmdbuf sz fuel = some m') (fresh : Nat → UInt8)
    (tiuSent : extractCmdbuf k c.cmdbufHdrMagic .tiu m' sz (0 : Nat) fresh fuel =
      some ⟨tiu.length, writeBytes fresh 0 tiu⟩)
    (tdmaSent : extractCmdbuf k c.cmdbufHdrMagic .tdma m' sz (0 : Nat) fresh fuel =
      some ⟨tdma.length, writeBytes fresh 0 tdma⟩)
    (tiuFits : (tiu.length : Int) ≤ int32 c.tiuCmdbufReservedSize.toNat)
    (tdmaFits : (tdma.length : Int) ≤ int32 c.tdmaCmdbufReservedSize.toNat) :
    rtSendCmdbuf k regs c fresh cmdbuf sz fuel =
      some ⟨some .success, sendEvents c fresh tiu tdma⟩ := by
  rw [rtSendCmdbuf, adjusts, Option.bind_eq_bind, Option.bind_some, ← Int.natCast_zero, tiuSent,
    Option.bind_eq_bind, Option.bind_some, if_neg (not_not.mpr tiuFits), tdmaSent,
    Option.bind_some, if_neg (not_not.mpr tdmaFits)]
  rfl

/-- What `rt_load_cmdbuf` does with a buffer that its loops get through. -/
theorem Span.load_result (span : Span k cmdbuf sz 0 offs) (countable : Countable k cmdbuf sz offs)
    (desc : regs.tiuDescRegBytes = k.bdRegBytes)
    (good : AllMagic k c.cmdbufHdrMagic cmdbuf offs) (small : sizeofCmdbufHeader + sz < 2 ^ 31)
    (enough : offs.length < fuel) {fresh : Nat → UInt8} {neuronGaddr weightGaddr : UInt64}
    {r : Result} (loads : rtLoadCmdbuf k regs c fresh cmdbuf sz neuronGaddr weightGaddr false fuel =
      some r) (success : r.code = some .success) :
    ∃ tiu tdma : List UInt8, tiu.length + tdma.length ≤ sz ∧
      (tiu.length : Int) ≤ int32 c.tiuCmdbufReservedSize.toNat ∧
      (tdma.length : Int) ≤ int32 c.tdmaCmdbufReservedSize.toNat ∧
      r.trace = loadEvents (loadedImage fresh tiu tdma) tiu tdma sz neuronGaddr weightGaddr ∧
      ∀ fresh' fuel', offs.length < fuel' →
        rtSendCmdbuf k regs c fresh' cmdbuf sz fuel' =
          some ⟨some .success, sendEvents c fresh' tiu tdma⟩ := by
  obtain ⟨m', adjusts, rewritten⟩ := span.adjustCmdbuf_rewritten desc countable.1 countable.2
  have span' := span.congr rewritten.heads
  have good' : AllMagic k c.cmdbufHdrMagic m' offs := rewritten.heads.allMagic.mpr good
  have extracts (engine : Engine) (base : Nat) (out : Nat → UInt8) {fuel' : Nat}
      (enough' : offs.length < fuel') := span'.extractCmdbuf_stream (by omega) good' engine base out
        enough'
  obtain ⟨tiu, tiuIs⟩ : ∃ tiu, tiu = stream k m' .tiu offs := ⟨_, rfl⟩
  obtain ⟨tdma, tdmaIs⟩ : ∃ tdma, tdma = stream k m' .tdma offs := ⟨_, rfl⟩
  have loadTiu := extracts .tiu sizeofCmdbufHeader fresh enough
  have loadTdma := extracts .tdma (sizeofCmdbufHeader + tiu.length)
    (writeBytes fresh sizeofCmdbufHeader tiu) enough
  rw [← tiuIs] at loadTiu
  rw [← tdmaIs, Int.natCast_add] at loadTdma
  rw [rtLoadCmdbuf, if_neg Bool.false_ne_true, adjusts _ enough, Option.bind_eq_bind,
    Option.bind_some, if_neg (not_loadSize_neg small), loadTiu, Option.bind_eq_bind,
    Option.bind_some] at loads
  split at loads
  · rw [← Option.some.inj loads] at success
    simp at success
  · rename_i tiuFits
    rw [loadTdma, Option.bind_some] at loads
    obtain rfl := Option.some.inj loads
    obtain ⟨fits, tdmaFits, trace⟩ := loadExtracted_success small success
    refine ⟨tiu, tdma, fits, (not_not.mp tiuFits).2, tdmaFits, trace, ?_⟩
    intro fresh' fuel' enough'
    have sendTiu := extracts .tiu 0 fresh' enough'
    have sendTdma := extracts .tdma 0 fresh' enough'
    rw [← tiuIs] at sendTiu
    rw [← tdmaIs] at sendTdma
    exact rtSendCmdbuf_sent (adjusts _ enough') fresh' sendTiu sendTdma (not_not.mp tiuFits).2
      tdmaFits

/-- A buffer that is no larger than either area is loaded. -/
theorem Span.load_succeeds (span : Span k cmdbuf sz 0 offs) (countable : Countable k cmdbuf sz offs)
    (desc : regs.tiuDescRegBytes = k.bdRegBytes)
    (good : AllMagic k c.cmdbufHdrMagic cmdbuf offs) (small : sizeofCmdbufHeader + sz < 2 ^ 31)
    (enough : offs.length < fuel) (distinct : k.tiu ≠ k.tdma)
    (tiuRoom : (sz : Int) ≤ int32 c.tiuCmdbufReservedSize.toNat)
    (tdmaRoom : (sz : Int) ≤ int32 c.tdmaCmdbufReservedSize.toNat) (fresh : Nat → UInt8)
    (neuronGaddr weightGaddr : UInt64) :
    ∃ r, rtLoadCmdbuf k regs c fresh cmdbuf sz neuronGaddr weightGaddr false fuel = some r ∧
      r.code = some .success := by
  obtain ⟨m', adjusts, rewritten⟩ := span.adjustCmdbuf_rewritten desc countable.1 countable.2
  have span' := span.congr rewritten.heads
  have good' : AllMagic k c.cmdbufHdrMagic m' offs := rewritten.heads.allMagic.mpr good
  have short : int32 sz = sz := int32_of_small (by omega)
  have lengths := span'.streams_length distinct
  have loadTiu := span'.extractCmdbuf_stream (by omega) good' .tiu sizeofCmdbufHeader fresh enough
  obtain ⟨tiu, tiuIs⟩ : ∃ tiu, tiu = stream k m' .tiu offs := ⟨_, rfl⟩
  rw [← tiuIs] at loadTiu lengths
  have loadTdma := span'.extractCmdbuf_stream (by omega) good' .tdma
    (sizeofCmdbufHeader + tiu.length) (writeBytes fresh sizeofCmdbufHeader tiu) enough
  rw [Int.natCast_add] at loadTdma
  have runs : rtLoadCmdbuf k regs c fresh cmdbuf sz neuronGaddr weightGaddr false fuel =
      some (loadExtracted c sz neuronGaddr weightGaddr
        ⟨tiu.length, writeBytes fresh sizeofCmdbufHeader tiu⟩
        ⟨(stream k m' .tdma offs).length, writeBytes (writeBytes fresh sizeofCmdbufHeader tiu)
          (sizeofCmdbufHeader + tiu.length) (stream k m' .tdma offs)⟩) := by
    rw [rtLoadCmdbuf, if_neg Bool.false_ne_true, adjusts _ enough, Option.bind_eq_bind,
      Option.bind_some, if_neg (not_loadSize_neg small), loadTiu, Option.bind_eq_bind,
      Option.bind_some, if_neg (by rw [short]; simp only; omega), loadTdma, Option.bind_some]
    rfl
  refine ⟨_, runs, ?_⟩
  rw [loadExtracted, if_neg (by rw [short]; simp only; omega)]

end

/-! ## The header -/

section

variable {m : Nat → UInt8} {a b off : Nat}

@[simp] theorem length_le64 (value : UInt64) : (le64 value).length = 8 := rfl

theorem leNat_append (xs ys : List UInt8) :
    leNat (xs ++ ys) = leNat xs + 256 ^ xs.length * leNat ys := by
  induction xs with
  | nil => simp [leNat]
  | cons x xs ih =>
    rw [List.cons_append, leNat, leNat, ih, List.length_cons, Nat.pow_succ, Nat.mul_add,
      ← Nat.add_assoc, Nat.mul_comm (256 ^ xs.length) 256, Nat.mul_assoc]

theorem leNat_le64 (value : UInt64) : leNat (le64 value) = value.toNat := by
  have range := value.toNat_lt
  rw [le64, leNat_append, leNat_le32, leNat_le32, length_le32]
  omega

theorem read64_congr {m' : Nat → UInt8} (same : ∀ i, i < 8 → m' (off + i) = m (off + i)) :
    read64 m' off = read64 m off := by
  rw [read64, read64, readBytes_congr same]

theorem read64_writeBytes_le64 (value : UInt64) : read64 (writeBytes m off (le64 value)) off =
    value := by
  have eight : readBytes (writeBytes m off (le64 value)) off (le64 value).length = le64 value :=
    readBytes_writeBytes
  rw [length_le64] at eight
  rw [read64, eight, leNat_le64, UInt64.ofNat_toNat]

theorem read64_writeBytes_outside {off' : Nat} {bytes : List UInt8}
    (outside : off + 8 ≤ off' ∨ off' + bytes.length ≤ off) :
    read64 (writeBytes m off' bytes) off = read64 m off := by
  rw [read64, read64, readBytes_writeBytes_outside outside]

/-- The fields of the header and what lies behind it. -/
theorem writeCmdbufHeader_spec (buf : Nat → UInt8) (neuronGaddr weightGaddr : UInt64)
    (smallA : a < 2 ^ 32) (smallB : b < 2 ^ 32) :
    read64 (writeCmdbufHeader buf neuronGaddr weightGaddr a b) 0 = neuronGaddr ∧
      read64 (writeCmdbufHeader buf neuronGaddr weightGaddr a b) 8 = weightGaddr ∧
      read32 (writeCmdbufHeader buf neuronGaddr weightGaddr a b) 16 = a ∧
      read32 (writeCmdbufHeader buf neuronGaddr weightGaddr a b) 20 = b ∧
      ∀ off n, sizeofCmdbufHeader ≤ off →
        readBytes (writeCmdbufHeader buf neuronGaddr weightGaddr a b) off n =
          readBytes buf off n := by
  have castA : ((a : Int) % 2 ^ 32).toNat = a := by omega
  have castB : ((b : Int) % 2 ^ 32).toNat = b := by omega
  unfold writeCmdbufHeader
  rw [castA, castB]
  refine ⟨?_, ?_, ?_, ?_, ?_⟩
  · rw [read64_writeBytes_outside (by simp), read64_writeBytes_outside (by simp),
      read64_writeBytes_outside (by simp), read64_writeBytes_le64]
  · rw [read64_writeBytes_outside (by simp), read64_writeBytes_outside (by simp),
      read64_writeBytes_le64]
  · rw [read32_writeBytes_outside (by simp), read32_writeBytes_le32, Nat.mod_eq_of_lt smallA]
  · rw [read32_writeBytes_le32, Nat.mod_eq_of_lt smallB]
  · intro off n behind
    simp only [sizeofCmdbufHeader] at behind
    rw [readBytes_writeBytes_outside (Or.inr (by simp; omega)),
      readBytes_writeBytes_outside (Or.inr (by simp; omega)),
      readBytes_writeBytes_outside (Or.inr (by simp; omega)),
      readBytes_writeBytes_outside (Or.inr (by simp; omega))]

end

/-! ## On the device -/

section

variable {chip : Chip} {k : KernelHeaders} {regs : RegFields} {place : Nat → Nat}
  {dev dev' : Device} {st st' : Store} {h : Nat} {v : View} {tiu tdma : List UInt8}

/-- The descriptors of the engines are put where they run, and run. -/
def launchStreams (chip : Chip) (dev : Device) (tiu tdma : List UInt8) : Device :=
  launch chip { dev with
    gmem := writeBytes (writeBytes dev.gmem chip.c.tiuCmdbufGaddr.toNat tiu)
      chip.c.tdmaCmdbufGaddr.toNat tdma } tiu.length tdma.length

theorem sizeT_natCast {n : Nat} (small : n < 2 ^ 64) : sizeT n = n := by
  unfold sizeT
  omega

theorem writeGmem_of_readBytes {gaddr : Nat} {src : Nat → UInt8} {bytes : List UInt8}
    (room : gaddr + bytes.length ≤ chip.gmemSize.toNat)
    (holds : readBytes src 0 bytes.length = bytes) :
    writeGmem chip dev gaddr bytes.length src =
      some { dev with gmem := writeBytes dev.gmem gaddr bytes } := by
  rw [writeGmem, if_pos room, holds]

/-- The events of a buffer that is sent. -/
theorem performAll_sent (tiuRoom : chip.c.tiuCmdbufGaddr.toNat + tiu.length ≤ chip.gmemSize.toNat)
    (tdmaRoom : chip.c.tdmaCmdbufGaddr.toNat + tdma.length ≤ chip.gmemSize.toNat)
    (fresh : Nat → UInt8) :
    performAll chip dev ⟨some .success, sendEvents chip.c fresh tiu tdma⟩ =
      some (launchStreams chip dev tiu tdma) := by
  have range := chip.gmemSize.toNat_lt
  have tiuSize : sizeT tiu.length = tiu.length := sizeT_natCast (by omega)
  have tdmaSize : sizeT tdma.length = tdma.length := sizeT_natCast (by omega)
  rw [performAll_eq_some]
  refine ⟨rfl, ?_⟩
  simp only [sendEvents, List.foldlM_cons, List.foldlM_nil, perform, Option.bind_eq_bind,
    Option.bind_some, tiuSize, tdmaSize]
  rw [writeGmem_of_readBytes tiuRoom readBytes_writeBytes, Option.bind_some,
    writeGmem_of_readBytes tdmaRoom readBytes_writeBytes]
  rfl

theorem readBytes_shift (m : Nat → UInt8) (off n : Nat) :
    readBytes (fun i => m (off + i)) 0 n = readBytes m off n := by
  simp [readBytes]

/-- A block that holds the image of a loaded buffer is run. -/
theorem runLoaded_image {mem : BmMemory} {image : Nat → UInt8} {sz : Nat}
    {neuronGaddr weightGaddr : UInt64} (cell : dev.mems.cell h = some mem)
    (size : mem.size = sizeofCmdbufHeader + sz)
    (inside : mem.pAddr + mem.size ≤ chip.gmemSize.toNat)
    (holds : ∀ i, i < sizeofCmdbufHeader + sz → dev.gmem (mem.pAddr + i) = image i)
    (fits : tiu.length + tdma.length ≤ sz)
    (tiuRoom : chip.c.tiuCmdbufGaddr.toNat + tiu.length ≤ chip.gmemSize.toNat)
    (tdmaRoom : chip.c.tdmaCmdbufGaddr.toNat + tdma.length ≤ chip.gmemSize.toNat)
    (neuron : read64 image 0 = neuronGaddr) (weight : read64 image 8 = weightGaddr)
    (tiuSz : read32 image 16 = tiu.length) (tdmaSz : read32 image 20 = tdma.length)
    (tiuBytes : readBytes image sizeofCmdbufHeader tiu.length = tiu)
    (tdmaBytes : readBytes image (sizeofCmdbufHeader + tiu.length) tdma.length = tdma)
    (bases : UInt64 → UInt64 → List (Nat × UInt64)) :
    runLoaded chip bases dev h =
      some (launchStreams chip (setBaseRegs dev (bases neuronGaddr weightGaddr)) tiu tdma) := by
  simp only [sizeofCmdbufHeader] at size holds
  have neuron' : read64 (fun i => dev.gmem (mem.pAddr + i)) 0 = neuronGaddr := by
    rw [← neuron]
    exact read64_congr fun i less => holds _ (by omega)
  have weight' : read64 (fun i => dev.gmem (mem.pAddr + i)) 8 = weightGaddr := by
    rw [← weight]
    exact read64_congr fun i less => holds _ (by omega)
  have tiuSz' : read32 (fun i => dev.gmem (mem.pAddr + i)) 16 = tiu.length := by
    rw [← tiuSz]
    exact read32_congr fun i less => holds _ (by omega)
  have tdmaSz' : read32 (fun i => dev.gmem (mem.pAddr + i)) 20 = tdma.length := by
    rw [← tdmaSz]
    exact read32_congr fun i less => holds _ (by omega)
  have tiuBytes' : readBytes (fun i => dev.gmem (mem.pAddr + (sizeofCmdbufHeader + i))) 0
      tiu.length = tiu := by
    rw [readBytes_shift (fun i => dev.gmem (mem.pAddr + i)), ← tiuBytes, length_readBytes]
    exact readBytes_congr fun i less => holds _ (by simp only [sizeofCmdbufHeader]; omega)
  have tdmaBytes' : readBytes (fun i => dev.gmem (mem.pAddr +
      (sizeofCmdbufHeader + tiu.length + i))) 0 tdma.length = tdma := by
    rw [readBytes_shift (fun i => dev.gmem (mem.pAddr + i))]
    conv_rhs => rw [← tdmaBytes]
    exact readBytes_congr fun i less => holds _ (by simp only [sizeofCmdbufHeader]; omega)
  have starts : startCmdbuf chip bases dev h = some ({
      setBaseRegs dev (bases neuronGaddr weightGaddr) with
      gmem := writeBytes (writeBytes (setBaseRegs dev (bases neuronGaddr weightGaddr)).gmem
        chip.c.tiuCmdbufGaddr.toNat tiu) chip.c.tdmaCmdbufGaddr.toNat tdma },
      tiu.length, tdma.length) := by
    unfold startCmdbuf
    rw [cell, Option.bind_eq_bind, Option.bind_some, if_neg (by omega)]
    simp only [tiuSz', tdmaSz', neuron', weight']
    rw [if_neg (by simp only [sizeofCmdbufHeader]; omega),
      writeGmem_of_readBytes tiuRoom tiuBytes', Option.bind_eq_bind, Option.bind_some,
      writeGmem_of_readBytes tdmaRoom tdmaBytes']
    rfl
  rw [runLoaded, starts]
  rfl

/-- The store after a buffer was loaded. -/
theorem Store.load_known {size : Nat} {image : Nat → UInt8} {tiuSz tdmaSz : Int}
    (small : size < 2 ^ 64)
    (means : [Event.extracted .tiu tiuSz, .extracted .tdma tdmaSz, .alloc size,
      .writeGmem none image size].foldlM Store.perform st = some st') :
    st'.views.cell st.views.next = some ⟨st.views.next, 0, size⟩ ∧
      ∀ i, i < size → st'.bytes st.views.next i = some (image i) := by
  simp only [List.foldlM_cons, List.foldlM_nil, Store.perform, Option.bind_eq_bind,
    Option.bind_some, Option.bind_eq_some_iff, sizeT_natCast small, Option.pure_def] at means
  obtain ⟨st₁, allocated, st₂, filled, result⟩ := means
  cases result
  unfold Store.alloc at allocated
  split at allocated
  · cases allocated
    obtain ⟨v, found, written⟩ := Option.bind_eq_some_iff.mp filled
    cases written
    have cell : (st.addBuffer size).views.cell st.views.next = some ⟨st.views.next, 0, size⟩ :=
      Heap.alloc_cell_self
    have last : (st.addBuffer size).views.next - 1 = st.views.next := Nat.add_sub_cancel _ 1
    rw [last, find_eq_some, cell] at found
    cases found.1
    refine ⟨cell, ?_⟩
    intro i less
    exact overwrite_inside (Nat.zero_le i) (by simpa using less)
  · cases allocated

/-- A stream that was compared with its reserved size fits the memory. -/
theorem stream_room {gaddr : Nat} {reserved : UInt64} {bytes : List UInt8}
    (area : gaddr + reserved.toNat ≤ chip.gmemReservedSize)
    (below : chip.gmemReservedSize ≤ chip.gmemSize.toNat) (small : bytes.length < 2 ^ 31)
    (fits : (bytes.length : Int) ≤ int32 reserved.toNat) :
    gaddr + bytes.length ≤ chip.gmemSize.toNat := by
  have size : sizeT bytes.length = bytes.length := sizeT_natCast (by omega)
  have inside := sizeT_le (by omega) fits (by omega)
  omega

/-- A block that still shows what was loaded into it is run. -/
theorem Refines.run_image {place : Nat → Nat} {st₁ st₂ : Store} {fresh : Nat → UInt8} {sz : Nat}
    {neuronGaddr weightGaddr : UInt64} (refines : Refines chip place dev st)
    (layout : chip.Layout) (small : sizeofCmdbufHeader + sz < 2 ^ 31)
    (fits : tiu.length + tdma.length ≤ sz)
    (tiuFits : (tiu.length : Int) ≤ int32 chip.c.tiuCmdbufReservedSize.toNat)
    (tdmaFits : (tdma.length : Int) ≤ int32 chip.c.tdmaCmdbufReservedSize.toNat)
    (means : (loadEvents (loadedImage fresh tiu tdma) tiu tdma sz neuronGaddr
      weightGaddr).foldlM Store.perform st₁ = some st₂)
    (kept : st.views.cell st₁.views.next = st₂.views.cell st₁.views.next)
    (same : st.bytes st₁.views.next = st₂.bytes st₁.views.next)
    (bases : UInt64 → UInt64 → List (Nat × UInt64)) :
    runLoaded chip bases dev st₁.views.next =
        some (launchStreams chip (setBaseRegs dev (bases neuronGaddr weightGaddr)) tiu tdma) ∧
      chip.c.tiuCmdbufGaddr.toNat + tiu.length ≤ chip.gmemSize.toNat ∧
      chip.c.tdmaCmdbufGaddr.toNat + tdma.length ≤ chip.gmemSize.toNat := by
  obtain ⟨cell₂, known₂⟩ := Store.load_known (by omega) means
  rw [cell₂] at kept
  have found : st.find st₁.views.next = some ⟨st₁.views.next, 0, sizeofCmdbufHeader + sz⟩ :=
    Store.find_eq_some.mpr ⟨kept, _, kept⟩
  obtain ⟨cell, low, high⟩ := refines.view_bounds found
  have holds : ∀ i, i < sizeofCmdbufHeader + sz → dev.gmem (place st₁.views.next + 0 + i) =
      writeCmdbufHeader (loadedImage fresh tiu tdma) neuronGaddr weightGaddr tiu.length
        tdma.length i :=
    fun i less => refines.byte found less (by rw [same, Nat.zero_add]; exact known₂ i less)
  obtain ⟨neuron, weight, tiuSz, tdmaSz, behind⟩ :=
    writeCmdbufHeader_spec (a := tiu.length) (b := tdma.length) (loadedImage fresh tiu tdma)
      neuronGaddr weightGaddr (by omega) (by omega)
  have below : chip.gmemReservedSize ≤ chip.gmemSize.toNat := by
    simp only at low high
    omega
  have tiuRoom := stream_room layout.tiu below (by omega) tiuFits
  have tdmaRoom := stream_room layout.tdma below (by omega) tdmaFits
  refine ⟨runLoaded_image cell rfl high holds fits tiuRoom tdmaRoom neuron weight tiuSz tdmaSz
    ?_ ?_ bases, tiuRoom, tdmaRoom⟩
  · rw [behind _ _ (Nat.le_refl _), loadedImage,
      readBytes_writeBytes_outside (Or.inl (Nat.le_refl _)), readBytes_writeBytes]
  · rw [behind _ _ (Nat.le_add_right _ _), loadedImage, readBytes_writeBytes]

end

/-! ## Loading now, running later -/

section

variable {chip : Chip} {k : KernelHeaders} {regs : RegFields} {cmdbuf fresh gmem : Nat → UInt8}
  {baseReg : Nat → UInt64} {dev₀ dev₁ dev₂ dev₃ : Device} {st₁ st₂ st₃ : Store}
  {ops₁ ops₂ : List DeviceOp} {sz fuel : Nat} {offs : List Nat}
  {neuronGaddr weightGaddr : UInt64}

/-- A run in which a call loads two streams and the store still knows the loaded block at the
    end. -/
theorem runLoaded_after_load (layout : chip.Layout)
    (opened : rtDeviceOpen chip gmem baseReg = some dev₀) {op : DeviceOp} {tiu tdma : List UInt8}
    (before : Run.run (deviceStep chip k regs) dev₀ ops₁ = some dev₁)
    (before' : Run.run (Store.step k regs chip.c) Store.empty ops₁ = some st₁)
    (loaded : deviceStep chip k regs dev₁ op = some dev₂)
    (loaded' : st₁.step k regs chip.c op = some st₂)
    (after : Run.run (deviceStep chip k regs) dev₂ ops₂ = some dev₃)
    (after' : Run.run (Store.step k regs chip.c) st₂ ops₂ = some st₃)
    (confined : Run.Admits (deviceStep chip k regs) (Confined chip k regs) dev₀
      (ops₁ ++ op :: ops₂))
    (small : sizeofCmdbufHeader + sz < 2 ^ 31) (fits : tiu.length + tdma.length ≤ sz)
    (tiuFits : (tiu.length : Int) ≤ int32 chip.c.tiuCmdbufReservedSize.toNat)
    (tdmaFits : (tdma.length : Int) ≤ int32 chip.c.tdmaCmdbufReservedSize.toNat)
    (means : (loadEvents (loadedImage fresh tiu tdma) tiu tdma sz neuronGaddr
      weightGaddr).foldlM Store.perform st₁ = some st₂)
    (kept : st₃.views.cell dev₁.mems.next = st₂.views.cell dev₁.mems.next)
    (same : st₃.bytes dev₁.mems.next = st₂.bytes dev₁.mems.next)
    (bases : UInt64 → UInt64 → List (Nat × UInt64)) :
    runLoaded chip bases dev₃ dev₁.mems.next =
        some (launchStreams chip (setBaseRegs dev₃ (bases neuronGaddr weightGaddr)) tiu tdma) ∧
      chip.c.tiuCmdbufGaddr.toNat + tiu.length ≤ chip.gmemSize.toNat ∧
      chip.c.tdmaCmdbufGaddr.toNat + tdma.length ≤ chip.gmemSize.toNat := by
  obtain ⟨place₁, refines₁⟩ := refines_run layout (refines_open opened fun _ => 0) before before'
    confined.of_append
  have confined' := confined.of_reached before
  obtain ⟨place₂, refines₂⟩ := refines₁.step layout confined'.1 loaded loaded'
  obtain ⟨place₃, refines₃⟩ := refines_run layout refines₂ after after' (confined'.2 dev₂ loaded)
  rw [refines₁.next] at kept same ⊢
  exact refines₃.run_image layout small fits tiuFits tdmaFits means kept same bases

/-- A client that keeps to its buffers loads a command buffer, and does then what it likes as long
    as the store still knows the loaded block as it was. Then any of the calls that run the block
    does the same to the device as sending the command buffer now, after setting the registers. -/
theorem run_loaded_eq_send (layout : chip.Layout)
    (opened : rtDeviceOpen chip gmem baseReg = some dev₀)
    (desc : regs.tiuDescRegBytes = k.bdRegBytes) (span : Span k cmdbuf sz 0 offs)
    (countable : Countable k cmdbuf sz offs) (good : AllMagic k chip.c.cmdbufHdrMagic cmdbuf offs)
    (small : sizeofCmdbufHeader + sz < 2 ^ 31) (enough : offs.length < fuel)
    (before : Run.run (deviceStep chip k regs) dev₀ ops₁ = some dev₁)
    (before' : Run.run (Store.step k regs chip.c) Store.empty ops₁ = some st₁)
    (loaded : deviceStep chip k regs dev₁
      (.loadCmdbuf fresh cmdbuf sz neuronGaddr weightGaddr false fuel) = some dev₂)
    (loaded' : st₁.step k regs chip.c
      (.loadCmdbuf fresh cmdbuf sz neuronGaddr weightGaddr false fuel) = some st₂)
    (after : Run.run (deviceStep chip k regs) dev₂ ops₂ = some dev₃)
    (after' : Run.run (Store.step k regs chip.c) st₂ ops₂ = some st₃)
    (confined : Run.Admits (deviceStep chip k regs) (Confined chip k regs) dev₀
      (ops₁ ++ .loadCmdbuf fresh cmdbuf sz neuronGaddr weightGaddr false fuel :: ops₂))
    (kept : st₃.views.cell dev₁.mems.next = st₂.views.cell dev₁.mems.next)
    (same : st₃.bytes dev₁.mems.next = st₂.bytes dev₁.mems.next)
    (bases : UInt64 → UInt64 → List (Nat × UInt64)) (fresh' : Nat → UInt8) {fuel' : Nat}
    (enough' : offs.length < fuel') :
    ∃ dev', runLoaded chip bases dev₃ dev₁.mems.next = some dev' ∧
      sendCmdbuf chip k regs (setBaseRegs dev₃ (bases neuronGaddr weightGaddr)) fresh' cmdbuf sz
        fuel' = some dev' := by
  obtain ⟨r, loads, performed⟩ := Option.bind_eq_some_iff.mp loaded
  obtain ⟨r', loads', means⟩ := Option.bind_eq_some_iff.mp loaded'
  cases loads.symm.trans loads'
  obtain ⟨success, -⟩ := performAll_eq_some.mp performed
  obtain ⟨tiu, tdma, fits, tiuFits, tdmaFits, trace, sends⟩ :=
    span.load_result countable desc good small enough loads success
  rw [trace] at means
  obtain ⟨runs, tiuRoom, tdmaRoom⟩ := runLoaded_after_load layout opened before before' loaded
    loaded' after after' confined small fits tiuFits tdmaFits means kept same bases
  refine ⟨_, runs, ?_⟩
  rw [sendCmdbuf, sends fresh' fuel' enough', Option.bind_eq_bind, Option.bind_some]
  exact performAll_sent tiuRoom tdmaRoom fresh'

/-- `smallChip`, opened. -/
def smallDevice : Device :=
  ⟨memPoolCreate 57344, fun _ => 0, fun _ => 0, 0, Heap.empty⟩

/-- A block of 308 bytes is made and written. -/
def smallLoaded (image : Nat → UInt8) : Device :=
  ⟨⟨57344, 1, [(4096, 53248)], [(0, 4096)]⟩, writeBytes (fun _ => 0) 8192 (readBytes image 0 308),
    fun _ => 0, 0, Heap.empty.alloc ⟨false, 8192, 8192, 308⟩⟩

theorem smallLoaded_eq (image : Nat → UInt8) (tiuSz tdmaSz : Int) :
    [Event.extracted .tiu tiuSz, .extracted .tdma tdmaSz, .alloc (308 : Nat),
      .writeGmem none image (308 : Nat)].foldlM (perform smallChip) smallDevice =
        some (smallLoaded image) := rfl

/-- A TIU, a TDMA and a CPU record are loaded into the first block; another one is made and written
    before they run. -/
theorem run_loaded_eq_send_mixed : ∃ image dev₃ dev',
    deviceStep smallChip kernel1822 regs1822 smallDevice
      (.loadCmdbuf (fun _ => 0) (mixed 0xA8) 284 4096 8192 false 4) = some (smallLoaded image) ∧
    Run.run (deviceStep smallChip kernel1822 regs1822) (smallLoaded image)
      [.memAlloc 64, .memCopyS2D 1 fun _ => 5] = some dev₃ ∧
    rtRunCmdbufEx smallChip 3 4 dev₃ 0 = some dev' ∧
    sendCmdbuf smallChip kernel1822 regs1822
      (setBaseRegs dev₃ [(0, 4096), (1, 8192), (2, 3), (3, 4)]) (fun _ => 0) (mixed 0xA8) 284 4 =
        some dev' := by
  have wf : WellFormed kernel1822 (mixed 0xA8) 284 (mixedRecords 0xA8 3) := wellFormed_mixed_first
  have span := span_of_row wf.row room_mixed_first
  have countable : Countable kernel1822 (mixed 0xA8) 284 _ := ⟨by decide, row_known wf.row⟩
  have good : AllMagic kernel1822 smallChip.c.cmdbufHdrMagic (mixed 0xA8) _ := row_magic wf.row
  have opened : rtDeviceOpen smallChip (fun _ => 0) (fun _ => 0) = some smallDevice := rfl
  have enough : ((mixedRecords 0xA8 3).map Rec.off).length < 4 := by decide
  obtain ⟨r, loads, success⟩ : ∃ r, rtLoadCmdbuf kernel1822 regs1822 smallChip.c (fun _ => 0)
      (mixed 0xA8) 284 4096 8192 false 4 = some r ∧ r.code = some .success :=
    span.load_succeeds countable rfl good (by decide) enough (by decide) (by decide) (by decide)
      (fun _ => 0) 4096 8192
  obtain ⟨tiu, tdma, -, -, -, trace, -⟩ :=
    span.load_result countable rfl good (by decide) enough loads success
  obtain ⟨image, imageIs⟩ : ∃ image, image = writeCmdbufHeader
      (loadedImage (fun _ => 0) tiu tdma) 4096 8192 tiu.length tdma.length := ⟨_, rfl⟩
  rw [loadEvents, ← imageIs] at trace
  have loaded : deviceStep smallChip kernel1822 regs1822 smallDevice
      (.loadCmdbuf (fun _ => 0) (mixed 0xA8) 284 4096 8192 false 4) = some (smallLoaded image) := by
    rw [deviceStep, loadCmdbuf, loads, Option.bind_eq_bind, Option.bind_some, performAll,
      if_pos success, trace]
    exact smallLoaded_eq image _ _
  have loaded' : Store.empty.step kernel1822 regs1822 smallChip.c
      (.loadCmdbuf (fun _ => 0) (mixed 0xA8) 284 4096 8192 false 4) =
        some ((Store.empty.addBuffer 308).write ⟨0, 0, 308⟩ 0 308 image) := by
    rw [Store.step, Store.load, loads, Option.bind_eq_bind, Option.bind_some, trace]
    rfl
  have confined : Run.Admits (deviceStep smallChip kernel1822 regs1822)
      (Confined smallChip kernel1822 regs1822) smallDevice
      ([] ++ .loadCmdbuf (fun _ => 0) (mixed 0xA8) 284 4096 8192 false 4 ::
        [.memAlloc 64, .memCopyS2D 1 fun _ => 5]) := by
    apply admits_confined
    simp [Confined]
  have writes : ∃ dev₃, Run.run (deviceStep smallChip kernel1822 regs1822) (smallLoaded image)
      [.memAlloc 64, .memCopyS2D 1 fun _ => 5] = some dev₃ := ⟨_, rfl⟩
  have writes' : Run.run (Store.step kernel1822 regs1822 smallChip.c)
      ((Store.empty.addBuffer 308).write ⟨0, 0, 308⟩ 0 308 image)
      [.memAlloc 64, .memCopyS2D 1 fun _ => 5] =
        some ((((Store.empty.addBuffer 308).write ⟨0, 0, 308⟩ 0 308 image).addBuffer 64).write
          ⟨1, 0, 64⟩ 0 64 fun _ => 5) := rfl
  obtain ⟨dev₃, writes⟩ := writes
  obtain ⟨dev', runs, sends⟩ := run_loaded_eq_send smallChip_layout opened rfl span countable good
    (by decide) enough rfl rfl loaded loaded' writes writes' confined rfl rfl
    (fun neuron weight => [(0, neuron), (1, weight), (2, 3), (3, 4)]) (fun _ => 0) enough
  exact ⟨image, dev₃, dev', loaded, writes, runs, sends⟩

end

end CviRuntime.CModel
