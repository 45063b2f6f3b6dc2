import CviRuntime.Dmabuf.Preservation

/-!
# The encoded buffer as a function of the records

`cvi180x_dmabuf_convert` run on a command buffer whose walk ends well leaves `encodeMem` of its
records in memory, whatever was there before and however many segments there are: the loop over
the segments goes by the count in the header, which has 32 bits. Nothing else of the command
buffer than the records and their bodies enters.
-/

namespace CviRuntime.Dmabuf

open ByteMem

section

variable (k : KernelHeaders) (cmdbuf : Nat → UInt8)

/-- The memory after a round of the loop over the segments. -/
def fillMem (i : Nat) (recs : List Rec) (tiuOffset tdmaOffset : Nat) (m : Nat → UInt8) :
    Nat → UInt8 :=
  (fillSeg k cmdbuf 0 i recs tiuOffset tdmaOffset ⟨m, []⟩).dmabuf

/-- The memory after the rounds for some segments. -/
def fillMems : List (List Rec) → Nat → Nat → Nat → (Nat → UInt8) → Nat → UInt8
  | [], _, _, _, m => m
  | seg :: segs, i, tiuOffset, tdmaOffset, m =>
    fillMems segs (i + 1) (tiuAfter k (countOf k.tiu seg) tiuOffset)
      (tdmaOffset + countOf k.tdma seg * k.gdmaDescAlignSize)
      (fillMem k cmdbuf i seg tiuOffset tdmaOffset m)

/-- The memory with the entry of a segment. -/
def armMem (i : Nat) (seg : List Rec) (m : Nat → UInt8) : Nat → UInt8 :=
  seg.getLast?.elim m fun r =>
    armEntry k cmdbuf r (armAt k i) (countOf k.tiu seg) (countOf k.tdma seg) m

def armMems : List (List Rec) → Nat → (Nat → UInt8) → Nat → UInt8
  | [], _, m => m
  | seg :: segs, i, m => armMems segs (i + 1) (armMem k cmdbuf i seg m)

/-- The memory after `fill_header_and_arm`. -/
def headMem (recs : List Rec) (m : Nat → UInt8) : Nat → UInt8 :=
  writeBytes (armMems k cmdbuf (segments k recs) 0 m) 0
    (headerBytes (encodedSize k recs) (segments k recs).length (countOf k.tiu recs)
      (countOf k.tdma recs))

/-- The segments that `fill_bd_and_tdma` goes over: as many as `cpu_desc_count` says. -/
def countedSegments (recs : List Rec) : List (List Rec) :=
  (segments k recs).take ((segments k recs).length % 2 ^ 32)

/-- The memory after `cvi180x_dmabuf_convert`. -/
def encodeMem (recs : List Rec) (m : Nat → UInt8) : Nat → UInt8 :=
  fillMems k cmdbuf (countedSegments k recs) 0 (tiuStart k (segments k recs))
    (tdmaStart k (segments k recs)) (headMem k cmdbuf recs m)

end

/-! ## The log and the CPU records do not enter -/

section

variable {k : KernelHeaders} {cmdbuf : Nat → UInt8} {sz sz' i tiuOffset tdmaOffset : Nat}
  {recs idle left busy seg : List Rec} {s s' : Buffers}

theorem setOffsets_dmabuf_congr {arm tiuNum tdmaNum : Nat} (same : s.dmabuf = s'.dmabuf) :
    (s.setOffsets arm tiuNum tdmaNum tiuOffset tdmaOffset).dmabuf =
      (s'.setOffsets arm tiuNum tdmaNum tiuOffset tdmaOffset).dmabuf := by
  unfold Buffers.setOffsets
  split_ifs <;> simp only [write_dmabuf, same]

theorem pad_dmabuf_congr {tiuNum off : Nat} (same : s.dmabuf = s'.dmabuf) :
    (s.pad tiuNum off).dmabuf = (s'.pad tiuNum off).dmabuf := by
  unfold Buffers.pad
  split_ifs <;> simp only [write_dmabuf, same]

theorem copyRecs_dmabuf_congr (same : s.dmabuf = s'.dmabuf) :
    (copyRecs k cmdbuf sz recs tiuOffset tdmaOffset s).dmabuf =
      (copyRecs k cmdbuf sz' recs tiuOffset tdmaOffset s').dmabuf := by
  induction recs generalizing tiuOffset tdmaOffset s s' with
  | nil => exact same
  | cons r rest ih =>
    unfold copyRecs
    split_ifs
    · apply ih
      simp only [push_dmabuf, Buffers.copyTiu, Buffers.copyBody, write_dmabuf, same]
    · apply ih
      simp only [push_dmabuf, Buffers.copyTdma, Buffers.copyBody, write_dmabuf, same]
    · apply ih
      simp only [push_dmabuf, same]

theorem copyRecs_cpu_append (idleCpu : ∀ r ∈ idle, r.engine = k.cpu) :
    (copyRecs k cmdbuf sz (idle ++ recs) tiuOffset tdmaOffset s).dmabuf =
      (copyRecs k cmdbuf sz recs tiuOffset tdmaOffset s).dmabuf := by
  induction idle generalizing s with
  | nil => rfl
  | cons r idle ih =>
    obtain ⟨cpu, idleRest⟩ := List.forall_mem_cons.mp idleCpu
    have notTiu : r.engine ≠ k.tiu := fun tiu => k.tiu_ne_cpu (tiu.symm.trans cpu)
    have notTdma : r.engine ≠ k.tdma := fun tdma => k.tdma_ne_cpu (tdma.symm.trans cpu)
    rw [List.cons_append, copyRecs, if_neg notTiu, if_neg notTdma, ih idleRest]
    exact copyRecs_dmabuf_congr push_dmabuf

theorem countOf_append_cpu {engine : Nat} (other : engine ≠ k.cpu)
    (leftCpu : ∀ r ∈ left, r.engine = k.cpu) :
    countOf engine (recs ++ left) = countOf engine recs := by
  have none : countOf engine left = 0 := by
    apply countOf_eq_zero
    intro r member isEngine
    exact other (isEngine.symm.trans (leftCpu r member))
  rw [countOf_append, none, Nat.add_zero]

theorem copyRecs_append_cpu (leftCpu : ∀ r ∈ left, r.engine = k.cpu) :
    (copyRecs k cmdbuf sz (recs ++ left) tiuOffset tdmaOffset s).dmabuf =
      (copyRecs k cmdbuf sz recs tiuOffset tdmaOffset s).dmabuf := by
  induction recs generalizing tiuOffset tdmaOffset s with
  | nil =>
    have none : (copyRecs k cmdbuf sz (left ++ []) tiuOffset tdmaOffset s).dmabuf = s.dmabuf :=
      copyRecs_cpu_append leftCpu
    rwa [List.append_nil] at none
  | cons r recs ih =>
    rw [List.cons_append, copyRecs, copyRecs, countOf_append_cpu k.tiu_ne_cpu leftCpu,
      countOf_append_cpu k.tdma_ne_cpu leftCpu]
    split_ifs <;> exact ih

/-- A round that goes over other CPU records than those of its segment. -/
theorem fillSeg_dmabuf (split : idle ++ seg = busy ++ left)
    (idleCpu : ∀ r ∈ idle, r.engine = k.cpu) (leftCpu : ∀ r ∈ left, r.engine = k.cpu)
    (sameTiu : ofEngine k.tiu busy = ofEngine k.tiu seg)
    (sameTdma : ofEngine k.tdma busy = ofEngine k.tdma seg) :
    (fillSeg k cmdbuf sz i busy tiuOffset tdmaOffset s).dmabuf =
      fillMem k cmdbuf i seg tiuOffset tdmaOffset s.dmabuf := by
  unfold fillMem fillSeg
  rw [countOf_congr sameTiu, countOf_congr sameTdma]
  apply pad_dmabuf_congr
  rw [← copyRecs_append_cpu leftCpu, ← split, copyRecs_cpu_append idleCpu]
  apply copyRecs_dmabuf_congr
  exact setOffsets_dmabuf_congr rfl

end

/-! ## The loops -/

section

variable {k : KernelHeaders} {cmdbuf : Nat → UInt8} {sz i tiuOffset tdmaOffset : Nat}
  {recs pend idle rest : List Rec} {segs : List (List Rec)}

/-- The loop of `fill_header_and_arm` writes the entries of the segments. -/
theorem armLoop_mem {desc : Option Nat} (met : Met k cmdbuf sz desc recs true) (st : ArmState)
    (s : Buffers) (fuel : Nat) (enough : recs.length ≤ fuel) (holds : st.counters.Holds k pend) :
    ∃ s', walk k cmdbuf sz (armBody k cmdbuf sz) fuel desc st s = .ok (armRun k recs st) s' ∧
      s'.dmabuf = armMems k cmdbuf (segmentsFrom k pend recs) st.descNums.cpu s.dmabuf := by
  induction recs generalizing desc pend st s fuel with
  | nil =>
    obtain rfl : desc = none := met.next_none_iff.mpr rfl
    refine ⟨s, ?_, rfl⟩
    cases fuel <;> rfl
  | cons r rest ih =>
    obtain ⟨off, next, rfl, rfl, known, found, metRest⟩ := met.uncons
    obtain ⟨fuel, rfl⟩ : ∃ fuel', fuel = fuel' + 1 := ⟨fuel - 1, by simp at enough; omega⟩
    have enoughRest : rest.length ≤ fuel := by simpa using enough
    by_cases closes : (recAt k cmdbuf off).Closes k rest
    · obtain ⟨s₁, entry, -, runs⟩ :=
        armRound_entry (s := s) st known found metRest.next_none_iff closes
      have start : (armStep k (recAt k cmdbuf off) rest st).counters.Holds k [] := by
        rw [armStep_closes closes]
        exact ⟨rfl, rfl⟩
      obtain ⟨s', runsRest, memory⟩ := ih metRest _ s₁ fuel enoughRest start
      obtain ⟨tiu, tdma⟩ := holds.bump (r := recAt k cmdbuf off)
      refine ⟨s', by rw [runs fuel, runsRest, armRun], ?_⟩
      rw [memory, entry, tiu, tdma, armStep_closes closes, segmentsFrom_closes closes, armMems,
        armMem, List.getLast?_concat]
      rfl
    · obtain ⟨accesses, -, runs⟩ :=
        armRound_open (s := s) st known found metRest.next_none_iff closes
      obtain ⟨s', runsRest, memory⟩ :=
        ih metRest (armStep k (recAt k cmdbuf off) rest st) (s.push accesses) fuel enoughRest
          (by rw [armStep_open closes]; exact holds.bump)
      have work : ¬(recAt k cmdbuf off).engine = k.cpu := fun isCpu => closes (Or.inl isCpu)
      have entry : (armStep k (recAt k cmdbuf off) rest st).descNums.cpu = st.descNums.cpu := by
        rw [armStep_open closes]
        simp [work]
      refine ⟨s', by rw [runs fuel, runsRest, armRun], ?_⟩
      rw [memory, entry, segmentsFrom_open closes, push_dmabuf]

theorem fillHeaderAndArm_mem (magic : magicAt k cmdbuf 0 = k.magic180X)
    (met : Met k cmdbuf sz (some 0) recs true) (s : Buffers) :
    ∃ s', fillHeaderAndArm k cmdbuf sz s =
        .ok (tiuStart k (segments k recs), tdmaStart k (segments k recs)) s' ∧
      s'.dmabuf = headMem k cmdbuf recs s.dmabuf := by
  have short := met.length_le
  have start : Counters.Holds k ⟨0, 0, 0⟩ [] := ⟨rfl, rfl⟩
  obtain ⟨s₁, runs, memory⟩ := armLoop_mem met ⟨⟨0, 0, 0⟩, ⟨0, 0, 0⟩, 0⟩
    (s.push [magicAccess k 0]) (sz + 1) (by omega) start
  obtain ⟨cpu, tiu, tdma, extent⟩ := armRun_spec recs ⟨⟨0, 0, 0⟩, ⟨0, 0, 0⟩, 0⟩ start
  simp only [Nat.zero_add] at cpu tiu tdma extent
  rw [← segments] at cpu extent memory
  refine ⟨s₁.write 0 (headerBytes (encodedSize k recs) (segments k recs).length
    (countOf k.tiu recs) (countOf k.tdma recs)), ?_, ?_⟩
  · simp only [fillHeaderAndArm, bind_apply, traverseStart_apply, magic, if_true, runs,
      writeDma_apply, pure_apply, cpu, tiu, tdma, extent]
    rfl
  · rw [write_dmabuf, memory, push_dmabuf, headMem]

theorem fillLoop_mem {s : Buffers} {desc : Option Nat} {fuel : Nat}
    (ready : FillReady k segs i tiuOffset tdmaOffset s.dmabuf)
    (met : Met k cmdbuf sz desc (idle ++ segs.flatten ++ rest) true)
    (idleCpu : ∀ r ∈ idle, r.engine = k.cpu) (enough : segs.length < fuel) :
    ∃ s', fillLoop k cmdbuf sz fuel i ⟨desc, tiuOffset, tdmaOffset⟩ s = .ok () s' ∧
      s'.dmabuf = fillMems k cmdbuf segs i tiuOffset tdmaOffset s.dmabuf := by
  obtain ⟨fuel, rfl⟩ : ∃ fuel', fuel = fuel' + 1 := ⟨fuel - 1, by omega⟩
  induction segs generalizing desc idle i tiuOffset tdmaOffset s fuel with
  | nil =>
    refine ⟨s, ?_, rfl⟩
    simp [fillLoop, bind_apply, readDma32_apply, ready.number, pure_apply]
  | cons seg segs ih =>
    obtain ⟨fuel, rfl⟩ : ∃ fuel', fuel = fuel' + 1 := ⟨fuel - 1, by simp at enough; omega⟩
    obtain ⟨busy, left, desc', split, leftCpu, sameTiu, sameTdma, metRest, runs⟩ :=
      fillLoop_round ready met idleCpu
    obtain ⟨s', runsRest, memory⟩ :=
      ih (ready.step sameTiu) metRest leftCpu fuel (by simpa using enough)
    refine ⟨s', by rw [runs, runsRest], ?_⟩
    rw [memory, fillSeg_dmabuf split idleCpu leftCpu sameTiu sameTdma, countOf_congr sameTiu,
      countOf_congr sameTdma]
    rfl

end

/-! ## The whole encoder -/

section

variable {k : KernelHeaders} {cmdbuf m : Nat → UInt8} {sz : Nat} {recs : List Rec}
  {segs later : List (List Rec)}

theorem tiuExtent_append (size : Nat) :
    tiuExtent k size (segs ++ later) = tiuExtent k (tiuExtent k size segs) later := by
  simp [tiuExtent]

theorem tiuExtent_take_le (size n : Nat) :
    tiuExtent k size (segs.take n) ≤ tiuExtent k size segs := by
  conv_rhs => rw [← List.take_append_drop n segs]
  rw [tiuExtent_append]
  exact le_tiuExtent k _ _

theorem ArmsHold.take {base : Nat} (holds : ArmsHold k m base segs) (n : Nat) :
    ArmsHold k m base (segs.take n) := by
  intro i seg found
  apply holds i seg
  rw [List.getElem?_take] at found
  split at found
  · exact found
  · simp at found

/-- The table and the header that `fill_header_and_arm` leaves. -/
theorem headMem_spec (magic : magicAt k cmdbuf 0 = k.magic180X)
    (met : Met k cmdbuf sz (some 0) recs true) (m : Nat → UInt8) :
    ArmsHold k (headMem k cmdbuf recs m) 0 (segments k recs) ∧
      read32 (headMem k cmdbuf recs m) 8 = (segments k recs).length % 2 ^ 32 := by
  obtain ⟨s₁, runs, memory⟩ := fillHeaderAndArm_mem magic met ⟨m, []⟩
  obtain ⟨s₂, runs', table, -, number, -⟩ := fillHeaderAndArm_apply magic met ⟨m, []⟩
  obtain rfl : s₁ = s₂ := by
    rw [runs] at runs'
    exact (EStateM.Result.ok.inj runs').2
  rw [← memory]
  exact ⟨table, number⟩

theorem length_countedSegments :
    (countedSegments k recs).length = (segments k recs).length % 2 ^ 32 := by
  rw [countedSegments, List.length_take]
  exact Nat.min_eq_left (Nat.mod_le _ _)

theorem countedSegments_eq (few : (segments k recs).length < 2 ^ 32) :
    countedSegments k recs = segments k recs := by
  rw [countedSegments, Nat.mod_eq_of_lt few, List.take_length]

/-- After `fill_header_and_arm` the loop over the segments is ready. -/
theorem fillReady_headMem (magic : magicAt k cmdbuf 0 = k.magic180X)
    (met : Met k cmdbuf sz (some 0) recs true) (small : ∀ seg ∈ segments k recs, Small k seg)
    (m : Nat → UInt8) :
    FillReady k (countedSegments k recs) 0 (tiuStart k (segments k recs))
      (tdmaStart k (segments k recs)) (headMem k cmdbuf recs m) := by
  obtain ⟨table, number⟩ := headMem_spec magic met m
  have entries : armAt k (0 + (countedSegments k recs).length) ≤
      armAt k (segments k recs).length := by
    apply armAt_mono
    rw [Nat.zero_add, length_countedSegments]
    exact Nat.mod_le _ _
  refine ⟨?_, table.take _, ?_, ?_, alignUp_dvd, ?_⟩
  · intro seg member
    exact small seg (List.mem_of_mem_take member)
  · rw [number, length_countedSegments, Nat.zero_add]
  · exact Nat.le_trans entries (armAt_le_tiuStart _)
  · rw [alignUp_tiuStart]
    exact Nat.le_trans (tiuExtent_take_le _ _) (tiuExtent_tiuStart _)

/-- What `cvi180x_dmabuf_convert` leaves in memory. -/
theorem dmabufConvert_mem (s : Buffers) (magic : magicAt k cmdbuf 0 = k.magic180X)
    (met : Met k cmdbuf sz (some 0) recs true) (small : ∀ seg ∈ segments k recs, Small k seg) :
    ∃ s', dmabufConvert k cmdbuf sz s = .ok () s' ∧
      s'.dmabuf = encodeMem k cmdbuf recs s.dmabuf := by
  obtain ⟨s₁, runsHead, memoryHead⟩ := fillHeaderAndArm_mem magic met s
  have ready := fillReady_headMem magic met small s.dmabuf
  rw [← memoryHead] at ready
  have whole : Met k cmdbuf sz (some 0) ([] ++ (countedSegments k recs).flatten ++
      ((segments k recs).drop ((segments k recs).length % 2 ^ 32)).flatten) true := by
    rw [List.nil_append, countedSegments, ← List.flatten_append, List.take_append_drop,
      segments_flatten]
    exact met
  obtain ⟨s', runs, memory⟩ := fillLoop_mem (s := s₁.push [magicAccess k 0]) ready whole
    (by simp) (by rw [length_countedSegments]; exact Nat.mod_lt _ (Nat.two_pow_pos 32))
  refine ⟨s', ?_, ?_⟩
  · simp only [dmabufConvert, bind_apply, runsHead, fillBdAndTdma, traverseStart_apply, magic,
      if_true, runs]
  · rw [memory, push_dmabuf, memoryHead, encodeMem]

end

end CviRuntime.Dmabuf
