import CviRuntime.CModel.Deferred
import CviRuntime.CModel.Streams

/-!
# A loaded encoded buffer is run as if its command buffer were sent

On a 183x chip a client may encode the command buffer, copy the encoded one to the device,
load it and run what was loaded. With one segment, whose TDMA bodies fill their slots, the device
then does what `rt_send_cmdbuf` does with the command buffer itself.
-/

namespace CviRuntime.CModel

open ByteMem Dmabuf MemPool Placement

section

variable {k : KernelHeaders} {regs : RegFields} {c : CModelCmdbuf} {cmdbuf m dmabuf : Nat → UInt8}
  {sz dmabufSz n : Nat} {recs : List Rec} {tiuGaddr tdmaGaddr tiuSize tdmaSize : UInt64}

/-- There is nothing to fill up in bodies that are as long as their slots. -/
theorem slotsSent_full (engine : Engine) (wf : WellFormed k cmdbuf sz recs)
    (one : (segments k recs).length = 1)
    (full : ∀ r ∈ recs, r.engine = k.tdma → r.len = k.gdmaDescAlignSize) :
    engine.slotsSent k cmdbuf (segments k recs) = engine.sent k cmdbuf recs := by
  rw [slotsSent_one one]
  cases engine with
  | tiu => exact map_padTo_sent_tiu wf.fits
  | tdma =>
    apply (List.map_congr_left _).trans (List.map_id _)
    intro bytes member
    obtain ⟨r, inEngine, eod, rfl⟩ := mem_marked member
    obtain ⟨inRecs, tdma⟩ := mem_ofEngine.mp inEngine
    apply padTo_of_length
    rw [Engine.adjust, adjustDescTdma_length, length_body, full r inRecs tdma]
    rfl

/-- The encoded buffer as a function of the records. -/
theorem encodes_wellFormed (wf : WellFormed k cmdbuf sz recs) :
    cvi183xDmabufConvert k cmdbuf sz k.magic180X (fun _ => 0) =
      .ok () (patch 0x1835 (encodeMem k cmdbuf recs fun _ => 0)) := by
  obtain ⟨s₂, converts, memory⟩ := dmabufConvert_mem ⟨fun _ => 0, []⟩ wf.magic wf.met wf.small
  rw [← memory]
  exact wf.agree_self.dmabufConvert_run 0x1835 converts

/-- What `rt_load_dmabuf` does with an encoded buffer, of which it sees what its segments name. -/
theorem load_encoded_result (facts : HeaderFacts k regs) (wf : WellFormed k cmdbuf sz recs)
    (one : (segments k recs).length = 1)
    (full : ∀ r ∈ recs, r.engine = k.tdma → r.len = k.gdmaDescAlignSize)
    (tdmaRegs : k.tdmaRegBytes ≤ k.gdmaDescAlignSize) (word : sz < 2 ^ 32)
    (size : encodedSize k recs < 2 ^ 31)
    (chip183x : c = cmodelCmdbuf183x k tiuGaddr tdmaGaddr tiuSize tdmaSize)
    (encodes : cvi183xDmabufConvert k cmdbuf sz k.magic180X (fun _ => 0) = .ok () dmabuf)
    (tiuInside : Engine.tiu.SegmentsInside k m n) (tdmaInside : Engine.tdma.SegmentsInside k m n)
    (shows : ∀ a, a < n → dmabuf a = m a) (small : sizeofCmdbufHeader + dmabufSz < 2 ^ 31)
    {fresh : Nat → UInt8} {neuronGaddr weightGaddr : UInt64}
    (success : (rtLoadDmabuf k c fresh m dmabufSz neuronGaddr weightGaddr false).code =
      some .success) :
    ∃ tiu tdma : List UInt8, tiu.length + tdma.length ≤ dmabufSz ∧
      (tiu.length : Int) ≤ int32 c.tiuCmdbufReservedSize.toNat ∧
      (tdma.length : Int) ≤ int32 c.tdmaCmdbufReservedSize.toNat ∧
      (rtLoadDmabuf k c fresh m dmabufSz neuronGaddr weightGaddr false).trace =
        loadEvents (loadedImage fresh tiu tdma) tiu tdma dmabufSz neuronGaddr weightGaddr ∧
      ∀ fresh' fuel', recs.length < fuel' →
        rtSendCmdbuf k regs c fresh' cmdbuf sz fuel' =
          some ⟨some .success, sendEvents c fresh' tiu tdma⟩ := by
  have regsInside : ∀ r ∈ recs, r.engine = k.tdma → k.tdmaRegBytes ≤ r.len := by
    intro r member tdma
    rw [full r member tdma]
    exact tdmaRegs
  have tdmaWord : ∀ r ∈ recs, r.engine = k.tdma → 4 ≤ r.len := fun r member tdma =>
    Nat.le_trans facts.word (regsInside r member tdma)
  have short (engine : Engine) : (engine.sent k cmdbuf recs).flatten.length < 2 ^ 31 := by
    have slots := slots_le_encodedSize k recs
    have length : (engine.sent k cmdbuf recs).flatten.length ≤
        countOf (engine.id k) recs * engine.stride k := length_flatten_sent_le wf.fits
    cases engine <;> simp only [Engine.id, Engine.stride] at length <;> omega
  have encoded : dmabuf = patch 0x1835 (encodeMem k cmdbuf recs fun _ => 0) := by
    rw [encodes_wellFormed wf] at encodes
    cases encodes
    rfl
  have extracts (engine : Engine) (inside : engine.SegmentsInside k m n) (base : Nat)
      (out : Nat → UInt8) : extractDmabuf k c.dmabufHdrMagic engine m base out =
        ⟨(engine.sent k cmdbuf recs).flatten.length,
          writeBytes out base (engine.sent k cmdbuf recs).flatten⟩ := by
    have bytes := extract_encoded wf (by omega) tdmaWord encoded engine
      (by rw [slotsSent_full engine wf one full]; exact short engine) base out
    rw [slotsSent_full engine wf one full] at bytes
    rw [chip183x, ← bytes]
    exact (inside.extract_congr shows _ base out).symm
  obtain ⟨tiu, tiuIs⟩ : ∃ tiu, tiu = (Engine.tiu.sent k cmdbuf recs).flatten := ⟨_, rfl⟩
  obtain ⟨tdma, tdmaIs⟩ : ∃ tdma, tdma = (Engine.tdma.sent k cmdbuf recs).flatten := ⟨_, rfl⟩
  have loadTiu := extracts .tiu tiuInside sizeofCmdbufHeader fresh
  have loadTdma := extracts .tdma tdmaInside (sizeofCmdbufHeader + tiu.length)
    (writeBytes fresh sizeofCmdbufHeader tiu)
  rw [← tiuIs] at loadTiu
  rw [← tdmaIs, Int.natCast_add] at loadTdma
  have early : ¬(false = true ∨ loadSize dmabufSz < 0) := by
    rintro (pmu | negative)
    · cases pmu
    · exact not_loadSize_neg small negative
  unfold rtLoadDmabuf at success ⊢
  rw [if_neg early] at success ⊢
  simp only [loadTiu] at success ⊢
  by_cases tiuFits : (tiu.length : Int) ≤ int32 dmabufSz ∧
      (tiu.length : Int) ≤ int32 c.tiuCmdbufReservedSize.toNat
  · rw [if_neg (not_not.mpr tiuFits)] at success ⊢
    simp only [loadTdma] at success ⊢
    obtain ⟨fits, tdmaFits, trace⟩ := loadExtracted_success small success
    refine ⟨tiu, tdma, fits, tiuFits.2, tdmaFits, trace, ?_⟩
    intro fresh' fuel' enough'
    obtain ⟨m', adjusts, sent⟩ := extract_adjusted facts wf regsInside word
    have sendTiu := sent .tiu (short .tiu) 0 fresh' fuel' enough'
    have sendTdma := sent .tdma (short .tdma) 0 fresh' fuel' enough'
    rw [← tiuIs] at sendTiu
    rw [← tdmaIs] at sendTdma
    subst chip183x
    exact rtSendCmdbuf_sent (adjusts fuel' enough') fresh' sendTiu sendTdma tiuFits.2 tdmaFits
  · rw [if_pos tiuFits] at success
    cases success

end

section

variable {chip : Chip} {k : KernelHeaders} {regs : RegFields}
  {cmdbuf fresh gmem dmabuf : Nat → UInt8} {baseReg : Nat → UInt64}
  {dev₀ dev₁ dev₂ dev₃ : Device} {st₁ st₂ st₃ : Store} {ops₁ ops₂ : List DeviceOp}
  {sz dmabufSz h : Nat} {v : View} {recs : List Rec}
  {tiuGaddr tdmaGaddr tiuSize tdmaSize neuronGaddr weightGaddr : UInt64}

/-- The client holds an encoded command buffer of one segment in the device memory, loads it, and
    does then what it likes, freeing the encoded buffer included, as long as the store still knows
    the loaded block as it was. Then running the block does the same to the device as sending the
    command buffer that was encoded. -/
theorem run_encoded_eq_send (layout : chip.Layout)
    (opened : rtDeviceOpen chip gmem baseReg = some dev₀)
    (chip183x : chip.c = cmodelCmdbuf183x k tiuGaddr tdmaGaddr tiuSize tdmaSize)
    (facts : HeaderFacts k regs) (wf : WellFormed k cmdbuf sz recs)
    (one : (segments k recs).length = 1)
    (full : ∀ r ∈ recs, r.engine = k.tdma → r.len = k.gdmaDescAlignSize)
    (tdmaRegs : k.tdmaRegBytes ≤ k.gdmaDescAlignSize) (word : sz < 2 ^ 32)
    (size : encodedSize k recs < 2 ^ 31)
    (encodes : cvi183xDmabufConvert k cmdbuf sz k.magic180X (fun _ => 0) = .ok () dmabuf)
    (small : sizeofCmdbufHeader + dmabufSz < 2 ^ 31)
    (before : Run.run (deviceStep chip k regs) dev₀ ops₁ = some dev₁)
    (before' : Run.run (Store.step k regs chip.c) Store.empty ops₁ = some st₁)
    (found : st₁.find h = some v)
    (holds : ∀ i, i < v.size → st₁.bytes v.root (v.offset + i) = some (dmabuf i))
    (loaded : deviceStep chip k regs dev₁
      (.loadDmabuf fresh h dmabufSz neuronGaddr weightGaddr false) = some dev₂)
    (loaded' : st₁.step k regs chip.c
      (.loadDmabuf fresh h dmabufSz neuronGaddr weightGaddr false) = some st₂)
    (after : Run.run (deviceStep chip k regs) dev₂ ops₂ = some dev₃)
    (after' : Run.run (Store.step k regs chip.c) st₂ ops₂ = some st₃)
    (confined : Run.Admits (deviceStep chip k regs) (Confined chip k regs) dev₀
      (ops₁ ++ .loadDmabuf fresh h dmabufSz neuronGaddr weightGaddr false :: ops₂))
    (kept : st₃.views.cell dev₁.mems.next = st₂.views.cell dev₁.mems.next)
    (same : st₃.bytes dev₁.mems.next = st₂.bytes dev₁.mems.next)
    (bases : UInt64 → UInt64 → List (Nat × UInt64)) (fresh' : Nat → UInt8) {fuel' : Nat}
    (enough' : recs.length < fuel') :
    ∃ dev', runLoaded chip bases dev₃ dev₁.mems.next = some dev' ∧
      sendCmdbuf chip k regs (setBaseRegs dev₃ (bases neuronGaddr weightGaddr)) fresh' cmdbuf sz
        fuel' = some dev' := by
  have shows : ∀ i, i < v.size → dmabuf i = st₁.shown v i := by
    intro i less
    rw [Store.shown, holds i less, Option.getD_some]
  obtain ⟨place₁, refines₁⟩ := refines_run layout (refines_open opened fun _ => 0) before before'
    confined.of_append
  obtain ⟨v', found', tiuInside, tdmaInside, bytes, means⟩ := refines₁.loadEncoded loaded'
  cases found.symm.trans found'
  have cell := (refines₁.view_bounds found).1
  have performed := loaded
  rw [deviceStep, loadDmabuf, cell, Option.bind_eq_bind, Option.bind_some, View.memory,
    bytes] at performed
  obtain ⟨success, -⟩ := performAll_eq_some.mp performed
  obtain ⟨tiu, tdma, fits, tiuFits, tdmaFits, trace, sends⟩ :=
    load_encoded_result facts wf one full tdmaRegs word size chip183x encodes tiuInside tdmaInside
      shows small success
  rw [trace] at means
  obtain ⟨runs, tiuRoom, tdmaRoom⟩ := runLoaded_after_load layout opened before before' loaded
    loaded' after after' confined small fits tiuFits tdmaFits means kept same bases
  refine ⟨_, runs, ?_⟩
  rw [sendCmdbuf, sends fresh' fuel' enough', Option.bind_eq_bind, Option.bind_some]
  exact performAll_sent tiuRoom tdmaRoom fresh'

/-- A chip of the 183x kind with 4096 bytes for either engine. -/
def small183x : Chip where
  c := cmodelCmdbuf183x kernel1822 0 4096 4096 4096
  gmemSize := 65536
  runGmemCmdbuf _ gmem _ _ _ _ := gmem

/-- The first segment of `mixed`, encoded. -/
def encodedMixed : Nat → UInt8 :=
  patch 0x1835 (encodeMem kernel1822 (mixed 0xA8) (mixedRecords 0xA8 3) fun _ => 0)

/-- The first buffer of a client, written at once. -/
theorem run_first_buffer {c : CModelCmdbuf} {size : Nat} (pos : 0 < size)
    (small : size + 15 + (minSlotSize - 1) < 2 ^ 64) (src : Nat → UInt8) :
    Run.run (Store.step k regs c) Store.empty [.memAlloc size, .memCopyS2D 0 src] =
      some ((Store.empty.addBuffer size).write ⟨0, 0, size⟩ 0 size src) := by
  apply Run.run_cons.mpr
  refine ⟨Store.empty.addBuffer size, if_pos ⟨pos, small⟩, ?_⟩
  rfl

/-- The encoded buffer is copied to the device, loaded and freed; then the loaded block runs. -/
theorem run_encoded_eq_send_mixed : ∃ dev₃ dev',
    ((rtDeviceOpen small183x (fun _ => 0) (fun _ => 0)).bind fun dev₀ =>
      Run.run (deviceStep small183x kernel1822 regs1822) dev₀ ([.memAlloc 576,
        .memCopyS2D 0 encodedMixed] ++ [.loadDmabuf (fun _ => 0) 0 576 4096 8192 false,
        .memFree 0])) = some dev₃ ∧
    rtRunCmdbufEx small183x 3 4 dev₃ 1 = some dev' ∧
    sendCmdbuf small183x kernel1822 regs1822
      (setBaseRegs dev₃ [(0, 4096), (1, 8192), (2, 3), (3, 4)]) (fun _ => 0) (mixed 0xA8) 284 4 =
        some dev' := by
  have wf : WellFormed kernel1822 (mixed 0xA8) 284 (mixedRecords 0xA8 3) := wellFormed_mixed_first
  have one : (segments kernel1822 (mixedRecords 0xA8 3)).length = 1 :=
    segments_mixed_first
  have size : encodedSize kernel1822 (mixedRecords 0xA8 3) < 2 ^ 31 := by
    rw [encodedSize_mixed_first]
    decide
  have layout : small183x.Layout := ⟨by decide, by decide, by decide⟩
  have runs : ((rtDeviceOpen small183x (fun _ => 0) (fun _ => 0)).bind fun dev₀ =>
      Run.run (deviceStep small183x kernel1822 regs1822) dev₀ ([.memAlloc 576,
        .memCopyS2D 0 encodedMixed] ++ [.loadDmabuf (fun _ => 0) 0 576 4096 8192 false,
        .memFree 0])).isSome = true := by
    decide +kernel
  have runs' : (Run.run (Store.step kernel1822 regs1822 small183x.c) Store.empty
      ([.memAlloc 576, .memCopyS2D 0 encodedMixed] ++
        [.loadDmabuf (fun _ => 0) 0 576 4096 8192 false, .memFree 0])).isSome = true := by
    decide +kernel
  obtain ⟨dev₃, whole⟩ := Option.isSome_iff_exists.mp runs
  obtain ⟨dev₀, opened, done⟩ := Option.bind_eq_some_iff.mp whole
  obtain ⟨dev₁, writes, done⟩ := Run.run_append.mp done
  obtain ⟨dev₂, loaded, freed⟩ := Run.run_cons.mp done
  obtain ⟨st₃, means⟩ := Option.isSome_iff_exists.mp runs'
  obtain ⟨st₁, writes', means⟩ := Run.run_append.mp means
  obtain ⟨st₂, loaded', freed'⟩ := Run.run_cons.mp means
  have first : st₁ = (Store.empty.addBuffer 576).write ⟨0, 0, 576⟩ 0 576 encodedMixed :=
    Option.some.inj (writes'.symm.trans (run_first_buffer (by decide) (by decide) _))
  have found : st₁.find 0 = some ⟨0, 0, 576⟩ := by
    rw [first]
    rfl
  have holds : ∀ i, i < 576 → st₁.bytes 0 (0 + i) = some (encodedMixed i) := by
    intro i less
    rw [first, Nat.zero_add]
    exact overwrite_inside (Nat.zero_le i) (by simpa using less)
  have last : st₃ = st₂.removeView 0 := by
    obtain ⟨st₃', frees, rest⟩ := Run.run_cons.mp freed'
    cases rest
    obtain ⟨v, -, result⟩ := Option.map_eq_some_iff.mp frees
    exact result.symm
  have confined : Run.Admits (deviceStep small183x kernel1822 regs1822)
      (Confined small183x kernel1822 regs1822) dev₀ ([.memAlloc 576,
        .memCopyS2D 0 encodedMixed] ++ .loadDmabuf (fun _ => 0) 0 576 4096 8192 false ::
        [.memFree 0]) := by
    apply admits_confined
    simp [Confined]
  have next : dev₁.mems.next = 1 := by
    obtain ⟨place, refines⟩ := refines_run layout (refines_open opened fun _ => 0) writes writes'
      confined.of_append
    rw [refines.next, first]
    rfl
  have kept : st₃.views.cell dev₁.mems.next = st₂.views.cell dev₁.mems.next := by
    rw [next, last]
    exact Heap.free_cell_of_ne (by decide)
  have same : st₃.bytes dev₁.mems.next = st₂.bytes dev₁.mems.next := by
    rw [last]
    rfl
  have enough : (mixedRecords 0xA8 3).length < 4 := by decide
  obtain ⟨dev', runs, sends⟩ := run_encoded_eq_send layout opened rfl headerFacts_1822 wf one
    (by decide) (by decide) (by decide) size (encodes_wellFormed wf) (by decide) writes writes'
    found holds loaded loaded' freed freed' confined kept same
    (fun neuron weight => [(0, neuron), (1, weight), (2, 3), (3, 4)]) (fun _ => 0) enough
  rw [next] at runs
  exact ⟨dev₃, dev', whole, runs, sends⟩

end

end CviRuntime.CModel
