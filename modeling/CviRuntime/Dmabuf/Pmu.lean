import CviRuntime.Dmabuf.Layout

/-!
# The size of the PMU buffer

The size of the buffer for PMU events is computed twice: by `cvi180x_dmabuf_size` from the
records of a command buffer, and by `cvi180x_get_pmusize` from the table of an encoded one. The
reader of the events, `tpu_pmu_get_des_cnt`, counts two of them for every TDMA descriptor. The
three loops see the same numbers as long as the header can count the segments.
-/

namespace CviRuntime.Dmabuf

open ByteMem

section

variable (k : KernelHeaders)

/-- The loop over the segments that `cvi180x_get_pmusize` and `tpu_pmu_get_des_cnt` make:
    `tiu_cnt` and `tdma_cnt`, 32 bits wide. -/
def countDescs : Nat → Nat → Nat → Nat → M (Nat × Nat)
  | 0, _, _, _ => throw .outOfFuel
  | fuel + 1, i, tiuCnt, tdmaCnt => do
    if i < (← readDma32 8) then
      let tiuNum := (← readDma32 (armAt k i + 4)) % 65536
      let tdmaNum := (← readDma32 (armAt k i + 8)) % 65536
      countDescs fuel (i + 1) ((tiuCnt + tiuNum) % 2 ^ 32) ((tdmaCnt + tdmaNum) % 2 ^ 32)
    else return (tiuCnt, tdmaCnt)

/-- `cvi180x_get_pmusize` (`bm_dmabuf.c:479-505`): `*pmu_size`. -/
def getPmusize : M Nat := do
  if (← readDma32 0) % 65536 ≠ 0xB5B5 then throw .errData
  let (tiuCnt, tdmaCnt) ← countDescs k (2 ^ 32) 0 0 0
  return pmuSize tiuCnt tdmaCnt

/-- `tpu_pmu_get_des_cnt` (`tpu_pmu.cpp:841-854`). -/
def tpuPmuGetDesCnt : M Nat := do
  let (tiuCnt, tdmaCnt) ← countDescs k (2 ^ 32) 0 0 0
  return (tiuCnt + tdmaCnt + tdmaCnt) % 2 ^ 32

end

/-! ## Counting over the table -/

section

variable {k : KernelHeaders} {i : Nat} {segs : List (List Rec)} {s : Buffers}

theorem countDescs_apply {fuel tiuCnt tdmaCnt : Nat} (small : ∀ seg ∈ segs, Small k seg)
    (table : ArmsHold k s.dmabuf i segs) (number : read32 s.dmabuf 8 = i + segs.length)
    (tiuWord : tiuCnt < 2 ^ 32) (tdmaWord : tdmaCnt < 2 ^ 32) (enough : segs.length < fuel) :
    countDescs k fuel i tiuCnt tdmaCnt s =
      .ok ((tiuCnt + countOf k.tiu segs.flatten) % 2 ^ 32,
        (tdmaCnt + countOf k.tdma segs.flatten) % 2 ^ 32) s := by
  obtain ⟨fuel, rfl⟩ : ∃ fuel', fuel = fuel' + 1 := ⟨fuel - 1, by omega⟩
  induction segs generalizing i fuel tiuCnt tdmaCnt with
  | nil =>
    simp [countDescs, bind_apply, readDma32_apply, number, pure_apply]
    omega
  | cons seg segs ih =>
    obtain ⟨fuel, rfl⟩ : ∃ fuel', fuel = fuel' + 1 := ⟨fuel - 1, by simp at enough; omega⟩
    obtain ⟨⟨fewTiu, fewTdma⟩, smallRest⟩ := List.forall_mem_cons.mp small
    obtain ⟨⟨tiuField, tdmaField⟩, tableRest⟩ := armsHold_cons.mp table
    rw [List.length_cons] at number enough
    have tiuNum : countOf k.tiu seg % 2 ^ 32 % 65536 = countOf k.tiu seg := by omega
    have tdmaNum : countOf k.tdma seg % 2 ^ 32 % 65536 = countOf k.tdma seg := by omega
    rw [countDescs, bind_apply, readDma32_apply]
    simp only [number]
    rw [if_pos (by omega)]
    simp only [bind_apply, readDma32_apply, tiuField, tdmaField, tiuNum, tdmaNum]
    rw [ih smallRest tableRest (by omega) (Nat.mod_lt _ (Nat.two_pow_pos 32))
      (Nat.mod_lt _ (Nat.two_pow_pos 32)) fuel (by omega)]
    simp only [List.flatten_cons, countOf_append, Nat.mod_add_mod, Nat.add_assoc]

end

/-! ## Counting over the records -/

section

variable {k : KernelHeaders} {cmdbuf : Nat → UInt8} {sz : Nat} {r : Rec} {rest recs pend : List Rec}

theorem sizeStep_counts {st : SizeState} (holds : st.counters.Holds k pend)
    (closes : r.Closes k rest) :
    (sizeStep k r rest st).tiuCnt =
        (st.tiuCnt + countOf k.tiu (pend ++ [r]) % 65536) % 2 ^ 32 ∧
      (sizeStep k r rest st).tdmaCnt =
        (st.tdmaCnt + countOf k.tdma (pend ++ [r]) % 65536) % 2 ^ 32 := by
  obtain ⟨tiu, tdma⟩ := holds.bump (r := r)
  rw [← tiu, ← tdma]
  unfold sizeStep
  by_cases cpu : r.engine = k.cpu
  · simp only [cpu, if_true, SizeState.close]
    exact ⟨trivial, trivial⟩
  · have ends := closes.resolve_left cpu
    simp only [cpu, ends, if_true, if_false, SizeState.close]
    exact ⟨trivial, trivial⟩

/-- The counts of the sizing loop, when no segment has more records than fit into 16 bits. -/
theorem sizeRun_counts (recs : List Rec) (st : SizeState) (holds : st.counters.Holds k pend)
    (small : ∀ seg ∈ segmentsFrom k pend recs, Small k seg) (tiuWord : st.tiuCnt < 2 ^ 32)
    (tdmaWord : st.tdmaCnt < 2 ^ 32) :
    (sizeRun k recs st).tiuCnt =
        (st.tiuCnt + countOf k.tiu (segmentsFrom k pend recs).flatten) % 2 ^ 32 ∧
      (sizeRun k recs st).tdmaCnt =
        (st.tdmaCnt + countOf k.tdma (segmentsFrom k pend recs).flatten) % 2 ^ 32 := by
  induction recs generalizing pend st with
  | nil =>
    simp [sizeRun, segmentsFrom]
    omega
  | cons r rest ih =>
    rw [sizeRun]
    by_cases closes : r.Closes k rest
    · obtain ⟨counters, -, -⟩ := sizeStep_closes holds closes
      obtain ⟨tiuCnt, tdmaCnt⟩ := sizeStep_counts holds closes
      have start : (sizeStep k r rest st).counters.Holds k [] := by
        rw [counters]
        exact ⟨rfl, rfl⟩
      rw [segmentsFrom_closes closes, List.forall_mem_cons] at small
      obtain ⟨⟨fewTiu, fewTdma⟩, smallRest⟩ := small
      rw [Nat.mod_eq_of_lt fewTiu] at tiuCnt
      rw [Nat.mod_eq_of_lt fewTdma] at tdmaCnt
      obtain ⟨tiu, tdma⟩ := ih (sizeStep k r rest st) start smallRest
        (by rw [tiuCnt]; exact Nat.mod_lt _ (Nat.two_pow_pos 32))
        (by rw [tdmaCnt]; exact Nat.mod_lt _ (Nat.two_pow_pos 32))
      rw [segmentsFrom_closes closes, tiu, tdma, tiuCnt, tdmaCnt]
      simp only [List.flatten_cons, countOf_append, Nat.mod_add_mod, Nat.add_assoc]
      exact ⟨trivial, trivial⟩
    · rw [segmentsFrom_open closes] at small ⊢
      rw [sizeStep_open closes]
      exact ih { st with counters := st.counters.bump k r.engine } (holds.bump (r := r)) small
        tiuWord tdmaWord

/-- Both sizes that `cvi180x_dmabuf_size` returns. -/
theorem dmabufSize_pmu (magic : magicAt k cmdbuf 0 = k.magic180X)
    (met : Met k cmdbuf sz (some 0) recs true) (small : ∀ seg ∈ segments k recs, Small k seg)
    (s : Buffers) :
    ∃ accesses, dmabufSize k cmdbuf sz s =
      .ok (encodedSize k recs, pmuSize (countOf k.tiu recs % 2 ^ 32) (countOf k.tdma recs % 2 ^ 32))
        (s.push accesses) := by
  have short := met.length_le
  obtain ⟨accesses, -, runs⟩ := sizeLoop_apply met ⟨⟨0, 0, 0⟩, 0, 0, 0, 0⟩
    (s.push [magicAccess k 0]) (sz + 1) (by omega)
  have start : Counters.Holds k ⟨0, 0, 0⟩ [] := ⟨rfl, rfl⟩
  obtain ⟨cpu, extent, total⟩ := sizeRun_spec recs ⟨⟨0, 0, 0⟩, 0, 0, 0, 0⟩ start
  obtain ⟨tiuCnt, tdmaCnt⟩ := sizeRun_counts recs ⟨⟨0, 0, 0⟩, 0, 0, 0, 0⟩ start small
    (Nat.two_pow_pos 32) (Nat.two_pow_pos 32)
  rw [← segments, segments_flatten, Nat.zero_add] at tiuCnt tdmaCnt
  refine ⟨accesses ++ [magicAccess k 0], ?_⟩
  simp only [dmabufSize, bind_apply, traverseStart_apply, magic, if_true, runs, push_push,
    pure_apply, cpu, extent, total, tiuCnt, tdmaCnt]
  rw [← segments, segments_flatten]
  simp [encodedSize]

end

/-! ## The three counts -/

section

variable {k : KernelHeaders} {cmdbuf : Nat → UInt8} {sz : Nat} {recs : List Rec}

/-- The loop over the table of an encoded buffer. -/
theorem countDescs_encoded (wf : WellFormed k cmdbuf sz recs) {s : Buffers} {m : Nat → UInt8}
    (memory : s.dmabuf = encodeMem k cmdbuf recs m) :
    countDescs k (2 ^ 32) 0 0 0 s =
      .ok (countOf k.tiu (countedSegments k recs).flatten % 2 ^ 32,
        countOf k.tdma (countedSegments k recs).flatten % 2 ^ 32) s := by
  have small : ∀ seg ∈ countedSegments k recs, Small k seg := fun seg member =>
    wf.small seg (List.mem_of_mem_take member)
  have table : ArmsHold k s.dmabuf 0 (countedSegments k recs) := by
    rw [memory]
    exact encodeMem_numbers wf m
  have number : read32 s.dmabuf 8 = 0 + (countedSegments k recs).length := by
    rw [memory, encodeMem_number wf m, length_countedSegments, Nat.zero_add]
  have enough : (countedSegments k recs).length < 2 ^ 32 := by
    rw [length_countedSegments]
    exact Nat.mod_lt _ (Nat.two_pow_pos 32)
  have runs := countDescs_apply small table number (Nat.two_pow_pos 32) (Nat.two_pow_pos 32) enough
  rwa [Nat.zero_add, Nat.zero_add] at runs

theorem getPmusize_encoded (wf : WellFormed k cmdbuf sz recs) {s : Buffers} {m : Nat → UInt8}
    (memory : s.dmabuf = encodeMem k cmdbuf recs m) :
    getPmusize k s = .ok (pmuSize (countOf k.tiu (countedSegments k recs).flatten % 2 ^ 32)
      (countOf k.tdma (countedSegments k recs).flatten % 2 ^ 32)) s := by
  have magic : read32 s.dmabuf 0 % 65536 = 0xB5B5 := by
    rw [memory, encodeMem_magic wf]
  simp only [getPmusize, bind_apply, readDma32_apply, magic, ne_eq, not_true_eq_false, if_false,
    countDescs_encoded wf memory, pure_apply]

/-- There is room for an event per TIU descriptor, two per TDMA descriptor and the word that
    ends them. The padding of a megabyte is what the second events are taken from. -/
theorem pmuSize_suffices {tiu tdma : Nat} (few : tdma ≤ 65535)
    (word : 16 * (tiu + tdma) + 2 ^ 20 + 4095 < 2 ^ 32) :
    (tiu + 2 * tdma) * 16 + 4 ≤ pmuSize (tiu % 2 ^ 32) (tdma % 2 ^ 32) := by
  rw [pmuSize, Nat.mod_eq_of_lt (show tiu < 2 ^ 32 by omega),
    Nat.mod_eq_of_lt (show tdma < 2 ^ 32 by omega), Nat.shiftLeft_eq, Nat.shiftRight_eq_div_pow]
  omega

/-- When the header can count the segments, both ways of loading compute the same size for the
    PMU buffer, in 32 bits; and when it does not wrap and there are at most 65535 TDMA records it
    holds all events that the reader of the PMU goes over, with the word at their end. -/
theorem pmuSize_agrees (wf : WellFormed k cmdbuf sz recs) (few : (segments k recs).length < 2 ^ 32)
    (s : Buffers) :
    ∃ n pmu s₁ s₂, dmabufSize k cmdbuf sz s = .ok (n, pmu) s₁ ∧
      dmabufConvert k cmdbuf sz s = .ok () s₂ ∧ getPmusize k s₂ = .ok pmu s₂ ∧
      (countOf k.tdma recs ≤ 65535 →
        16 * (countOf k.tiu recs + countOf k.tdma recs) + 2 ^ 20 + 4095 < 2 ^ 32 →
        ∃ cnt, tpuPmuGetDesCnt k s₂ = .ok cnt s₂ ∧
          cnt = countOf k.tiu recs + 2 * countOf k.tdma recs ∧ cnt * 16 + 4 ≤ pmu) := by
  obtain ⟨accesses, sized⟩ := dmabufSize_pmu wf.magic wf.met wf.small s
  obtain ⟨s₂, converts, memory⟩ := dmabufConvert_mem s wf.magic wf.met wf.small
  have sizes := getPmusize_encoded wf memory
  have counts := countDescs_encoded wf memory
  rw [countedSegments_eq few, segments_flatten] at sizes counts
  refine ⟨_, _, _, s₂, sized, converts, sizes, ?_⟩
  intro fewTdma word
  refine ⟨countOf k.tiu recs + 2 * countOf k.tdma recs, ?_, rfl, pmuSize_suffices fewTdma word⟩
  simp only [tpuPmuGetDesCnt, bind_apply, counts, pure_apply]
  congr 1
  omega

theorem pmuSize_agrees_mixed :
    WellFormed kernel1822 (mixed 0xA8) 476 (mixedRecords 0xA8 5) ∧
    ∃ n pmu s₁ s₂,
      dmabufSize kernel1822 (mixed 0xA8) 476 ⟨fun _ => 0, []⟩ = .ok (n, pmu) s₁ ∧
      dmabufConvert kernel1822 (mixed 0xA8) 476 ⟨fun _ => 0, []⟩ = .ok () s₂ ∧
      getPmusize kernel1822 s₂ = .ok pmu s₂ ∧
      tpuPmuGetDesCnt kernel1822 s₂ = .ok 6 s₂ ∧ 6 * 16 + 4 ≤ pmu := by
  have few : (segments kernel1822 (mixedRecords 0xA8 5)).length < 2 ^ 32 := by
    rw [segments_mixed]
    decide
  obtain ⟨n, pmu, s₁, s₂, sized, converts, sizes, enough⟩ :=
    pmuSize_agrees wellFormed_mixed few ⟨fun _ => 0, []⟩
  obtain ⟨cnt, counts, is, room⟩ := enough (by decide) (by decide)
  have six : cnt = 6 := is.trans (by decide)
  subst six
  exact ⟨wellFormed_mixed, n, pmu, s₁, s₂, sized, converts, sizes, counts, room⟩

/-- With `2 ^ 32` segments the count in the header is 0, and the size computed from the encoded
    buffer misses the TIU record that the size computed from the records has. -/
theorem pmuSize_differs :
    WellFormed kernel1822 tiuThenCpu (120 + 92 * 2 ^ 32) (tiuThenCpuRecords (2 ^ 32)) ∧
    ∃ n pmu pmu' s₁ s₂,
      dmabufSize kernel1822 tiuThenCpu (120 + 92 * 2 ^ 32) ⟨fun _ => 0, []⟩ = .ok (n, pmu) s₁ ∧
      dmabufConvert kernel1822 tiuThenCpu (120 + 92 * 2 ^ 32) ⟨fun _ => 0, []⟩ = .ok () s₂ ∧
      getPmusize kernel1822 s₂ = .ok pmu' s₂ ∧ pmu' < pmu := by
  have wf := wellFormed_tiuThenCpu (2 ^ 32)
  obtain ⟨accesses, sized⟩ := dmabufSize_pmu wf.magic wf.met wf.small ⟨fun _ => 0, []⟩
  obtain ⟨s₂, converts, memory⟩ := dmabufConvert_mem ⟨fun _ => 0, []⟩ wf.magic wf.met wf.small
  have sizes := getPmusize_encoded wf memory
  have none : countedSegments kernel1822 (tiuThenCpuRecords (2 ^ 32)) = [] := by
    rw [countedSegments, segments_tiuThenCpu _ (by decide), Nat.mod_self, List.take_zero]
  rw [none] at sizes
  obtain ⟨oneTiu, noTdma⟩ := countOf_tiuThenCpu (2 ^ 32)
  rw [oneTiu, noTdma] at sized
  exact ⟨wf, _, _, _, _, s₂, sized, converts, sizes, by decide⟩

end

end CviRuntime.Dmabuf
