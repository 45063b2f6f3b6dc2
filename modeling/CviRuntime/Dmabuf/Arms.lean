import CviRuntime.Dmabuf.Sizing

/-!
# The segment table

`fill_header_and_arm` walks over the records like the sizing pass does. When it ends a
segment it writes the next entry of the table. `ArmsHold` says what the table then holds: the
numbers of TIU and TDMA records of every segment, cut off at 32 bits.
-/

namespace CviRuntime.Dmabuf

open ByteMem

/-- The buffers after a write. -/
def Buffers.write (s : Buffers) (off : Nat) (bytes : List UInt8) : Buffers :=
  ⟨writeBytes s.dmabuf off bytes, .write off bytes.length :: s.log⟩

section

variable {s : Buffers} {off : Nat} {bytes : List UInt8} {good : Access → Prop}

@[simp] theorem write_dmabuf : (s.write off bytes).dmabuf = writeBytes s.dmabuf off bytes := rfl

theorem all_write :
    (s.write off bytes).All good ↔ good (.write off bytes.length) ∧ s.All good :=
  List.forall_mem_cons

theorem writeDma_apply : writeDma off bytes s = .ok () (s.write off bytes) := rfl

end

section

variable (k : KernelHeaders)

/-- A memory got an entry of the segment table, and nothing else. -/
structure ArmSet (m m' : Nat → UInt8) (arm tiuNum tdmaNum : Nat) : Prop where
  tiu : read32 m' (arm + 4) = tiuNum % 2 ^ 32
  tdma : read32 m' (arm + 8) = tdmaNum % 2 ^ 32
  frame : ∀ a, a < arm ∨ arm + k.armBytes ≤ a → m' a = m a

/-- The entry made for a segment that ends at a TIU or TDMA record. -/
def Buffers.syncArm (s : Buffers) (arm tiuNum tdmaNum : Nat) : Buffers :=
  ((((s.write arm (List.replicate k.armBytes 0)).write arm (le32 k.cpuOpSync)).write (arm + 4)
    (le32 tiuNum)).write (arm + 8) (le32 tdmaNum)).write (arm + 28) (layerEnd k)

/-- The entry copied from a CPU record. -/
def Buffers.cpuArm (s : Buffers) (arm tiuNum tdmaNum : Nat) (bytes : List UInt8) : Buffers :=
  ((s.write arm bytes).write (arm + 4) (le32 tiuNum)).write (arm + 8) (le32 tdmaNum)

end

section

variable {k : KernelHeaders} {s : Buffers} {arm tiuNum tdmaNum : Nat} {bytes : List UInt8}
  {good : Access → Prop}

theorem layerEnd_length : (layerEnd k).length = k.cpuStrLimit - 1 := by
  simp [layerEnd]
  omega

theorem armBytes_eq : k.armBytes = 28 + k.cpuStrLimit := rfl

theorem syncArm_set :
    ArmSet k s.dmabuf (s.syncArm k arm tiuNum tdmaNum).dmabuf arm tiuNum tdmaNum := by
  have short := layerEnd_length (k := k)
  have size := armBytes_eq (k := k)
  simp only [Buffers.syncArm, write_dmabuf]
  constructor
  · rw [read32_writeBytes_outside (by omega), read32_writeBytes_outside (by simp),
      read32_writeBytes_le32]
  · rw [read32_writeBytes_outside (by omega), read32_writeBytes_le32]
  · intro a outside
    rw [writeBytes_outside (by omega), writeBytes_outside (by simp; omega),
      writeBytes_outside (by simp; omega), writeBytes_outside (by simp; omega),
      writeBytes_outside (by simp; omega)]

theorem cpuArm_set (full : bytes.length = k.armBytes) :
    ArmSet k s.dmabuf (s.cpuArm arm tiuNum tdmaNum bytes).dmabuf arm tiuNum tdmaNum := by
  have size := armBytes_eq (k := k)
  simp only [Buffers.cpuArm, write_dmabuf]
  constructor
  · rw [read32_writeBytes_outside (by simp), read32_writeBytes_le32]
  · rw [read32_writeBytes_le32]
  · intro a outside
    rw [writeBytes_outside (by simp; omega), writeBytes_outside (by simp; omega),
      writeBytes_outside (by omega)]

/-- The entry for a segment that ends with `r`, written into a memory. -/
def armEntry (k : KernelHeaders) (cmdbuf : Nat → UInt8) (r : Rec) (arm tiuNum tdmaNum : Nat)
    (m : Nat → UInt8) : Nat → UInt8 :=
  if r.engine = k.cpu then
    (Buffers.cpuArm ⟨m, []⟩ arm tiuNum tdmaNum
      (readBytes cmdbuf (r.off + k.hdrBytes) k.armBytes)).dmabuf
  else (Buffers.syncArm k ⟨m, []⟩ arm tiuNum tdmaNum).dmabuf

theorem armEntry_set {cmdbuf m : Nat → UInt8} {r : Rec} :
    ArmSet k m (armEntry k cmdbuf r arm tiuNum tdmaNum m) arm tiuNum tdmaNum := by
  unfold armEntry
  split_ifs
  · exact cpuArm_set (s := ⟨m, []⟩) length_readBytes
  · exact syncArm_set (s := ⟨m, []⟩)

theorem syncArm_all
    (inside : ∀ off n, arm ≤ off → off + n ≤ arm + k.armBytes → good (.write off n)) :
    (s.syncArm k arm tiuNum tdmaNum).All good ↔ s.All good := by
  have short := layerEnd_length (k := k)
  have size := armBytes_eq (k := k)
  simp only [Buffers.syncArm, all_write, length_le32, List.length_replicate]
  have whole := inside arm k.armBytes (by omega) (by omega)
  have opType := inside arm 4 (by omega) (by omega)
  have numTiu := inside (arm + 4) 4 (by omega) (by omega)
  have numTdma := inside (arm + 8) 4 (by omega) (by omega)
  have str := inside (arm + 28) (layerEnd k).length (by omega) (by omega)
  simp only [whole, opType, numTiu, numTdma, str, true_and]

theorem cpuArm_all (full : bytes.length = k.armBytes)
    (inside : ∀ off n, arm ≤ off → off + n ≤ arm + k.armBytes → good (.write off n)) :
    (s.cpuArm arm tiuNum tdmaNum bytes).All good ↔ s.All good := by
  have size := armBytes_eq (k := k)
  simp only [Buffers.cpuArm, all_write, length_le32, full]
  have whole := inside arm k.armBytes (by omega) (by omega)
  have numTiu := inside (arm + 4) 4 (by omega) (by omega)
  have numTdma := inside (arm + 8) 4 (by omega) (by omega)
  simp only [whole, numTiu, numTdma, true_and]

end

/-! ## One round -/

section

variable (k : KernelHeaders)

/-- `armBody` without its accesses. -/
def armStep (r : Rec) (rest : List Rec) (st : ArmState) : ArmState :=
  let st := { st with
    counters := st.counters.bump k r.engine, descNums := st.descNums.bump k r.engine }
  if r.engine = k.cpu then st.close k
  else if r.sync = 0xFFFF ∨ rest = [] then
    { st with descNums := { st.descNums with cpu := st.descNums.cpu + 1 } }.close k
  else st

def armRun : List Rec → ArmState → ArmState
  | [], st => st
  | r :: rest, st => armRun rest (armStep k r rest st)

/-- What a round of `fill_header_and_arm` touches in the command buffer is permitted. -/
def Rec.ArmGood (sz : Nat) (good : Access → Prop) (r : Rec) : Prop :=
  r.HeaderGood k sz good ∧ (r.engine = k.cpu → good (.read (r.off + k.hdrBytes) k.armBytes))

end

section

variable {k : KernelHeaders} {cmdbuf : Nat → UInt8} {sz : Nat} {off : Nat} {s : Buffers}
  {rest : List Rec} {next : Option Nat}

/-- A round that leaves the segment open only reads. -/
theorem armRound_open (st : ArmState) (known : (recAt k cmdbuf off).Known k)
    (found : follow k cmdbuf sz (recAt k cmdbuf off) = some next) (last : next = none ↔ rest = [])
    (stays : ¬(recAt k cmdbuf off).Closes k rest) :
    ∃ accesses,
      (∀ good, (∀ access ∈ accesses, good access) ↔ (recAt k cmdbuf off).ArmGood k sz good) ∧
      ∀ fuel, walk k cmdbuf sz (armBody k cmdbuf sz) (fuel + 1) (some off) st s =
        walk k cmdbuf sz (armBody k cmdbuf sz) fuel next (armStep k (recAt k cmdbuf off) rest st)
          (s.push accesses) := by
  have cpu : ¬(recAt k cmdbuf off).engine = k.cpu := fun isCpu => stays (Or.inl isCpu)
  have ends : ¬((recAt k cmdbuf off).sync = 0xFFFF ∨ rest = []) := fun isEnd => stays (Or.inr isEnd)
  have isLast : next.isNone = true ↔ rest = [] := Option.isNone_iff_eq_none.trans last
  refine ⟨(recAt k cmdbuf off).nextAccesses k sz ++ (recAt k cmdbuf off).nextAccesses k sz ++
    (recAt k cmdbuf off).syncAccesses k ++ [.index (recAt k cmdbuf off).engine,
      .index (recAt k cmdbuf off).engine, (recAt k cmdbuf off).engineAccess k], ?_, ?_⟩
  · intro good
    rw [Rec.ArmGood, headerGood_of_known known]
    simp only [List.forall_mem_append, List.forall_mem_cons, List.not_mem_nil, cpu]
    tauto
  · intro fuel
    simp only [walk, armBody, bind_apply, hdrEngine_apply, touch_apply, cpu, armStep,
      descSyncId_apply cpu, known, isLastDesc_apply, found, isLast, ne_eq, not_false_eq_true,
      if_true, if_false, ends]
    simp [pure_apply, traverseNext_apply, found]

/-- A round that ends a segment writes the next entry of the table. -/
theorem armRound_entry (st : ArmState) (known : (recAt k cmdbuf off).Known k)
    (found : follow k cmdbuf sz (recAt k cmdbuf off) = some next) (last : next = none ↔ rest = [])
    (closes : (recAt k cmdbuf off).Closes k rest) :
    ∃ s', s'.dmabuf = armEntry k cmdbuf (recAt k cmdbuf off) (armAt k st.descNums.cpu)
        (st.counters.bump k (recAt k cmdbuf off).engine).tiu
        (st.counters.bump k (recAt k cmdbuf off).engine).tdma s.dmabuf ∧
      (∀ good, (∀ off n, armAt k st.descNums.cpu ≤ off →
          off + n ≤ armAt k st.descNums.cpu + k.armBytes → good (.write off n)) →
        (s'.All good ↔ (recAt k cmdbuf off).ArmGood k sz good ∧ s.All good)) ∧
      ∀ fuel, walk k cmdbuf sz (armBody k cmdbuf sz) (fuel + 1) (some off) st s =
        walk k cmdbuf sz (armBody k cmdbuf sz) fuel next
          (armStep k (recAt k cmdbuf off) rest st) s' := by
  by_cases cpu : (recAt k cmdbuf off).engine = k.cpu
  · refine ⟨((s.push ([.read (off + k.hdrBytes) k.armBytes, .index (recAt k cmdbuf off).engine,
      .index (recAt k cmdbuf off).engine, (recAt k cmdbuf off).engineAccess k])).cpuArm
        (armAt k st.descNums.cpu) (st.counters.bump k (recAt k cmdbuf off).engine).tiu
        (st.counters.bump k (recAt k cmdbuf off).engine).tdma
        (readBytes cmdbuf (off + k.hdrBytes) k.armBytes)).push
        ((recAt k cmdbuf off).nextAccesses k sz), ?_, ?_, ?_⟩
    · rw [armEntry, if_pos cpu]
      rfl
    · intro good inside
      rw [all_push, cpuArm_all length_readBytes inside, all_push, Rec.ArmGood,
        headerGood_of_cpu cpu]
      simp only [List.forall_mem_cons, List.not_mem_nil, cpu]
      have position : (recAt k cmdbuf off).off = off := rfl
      rw [position]
      tauto
    · intro fuel
      simp only [walk, armBody, bind_apply, hdrEngine_apply, touch_apply, cpu, armStep, ne_eq,
        not_true_eq_false, if_true, if_false, readCmd_apply, writeDma_apply, pure_apply,
        traverseNext_apply, found]
      simp [Buffers.cpuArm]
  · have ends : (recAt k cmdbuf off).sync = 0xFFFF ∨ rest = [] := closes.resolve_left cpu
    have isLast : next.isNone = true ↔ rest = [] := Option.isNone_iff_eq_none.trans last
    refine ⟨((s.push ((recAt k cmdbuf off).nextAccesses k sz ++
      (recAt k cmdbuf off).syncAccesses k ++
      [.index (recAt k cmdbuf off).engine, .index (recAt k cmdbuf off).engine,
        (recAt k cmdbuf off).engineAccess k])).syncArm k (armAt k st.descNums.cpu)
        (st.counters.bump k (recAt k cmdbuf off).engine).tiu
        (st.counters.bump k (recAt k cmdbuf off).engine).tdma).push
        ((recAt k cmdbuf off).nextAccesses k sz), ?_, ?_, ?_⟩
    · rw [armEntry, if_neg cpu]
      rfl
    · intro good inside
      rw [all_push, syncArm_all inside, all_push, Rec.ArmGood, headerGood_of_known known]
      simp only [List.forall_mem_append, List.forall_mem_cons, List.not_mem_nil, cpu]
      tauto
    · intro fuel
      simp only [walk, armBody, bind_apply, hdrEngine_apply, touch_apply, cpu, armStep,
        descSyncId_apply cpu, known, isLastDesc_apply, found, isLast, ne_eq, not_false_eq_true,
        if_true, if_false, ends, writeDma_apply, pure_apply, traverseNext_apply]
      simp [Buffers.syncArm, cpu]

/-- A round that ends a segment sets the next entry of the table. -/
theorem armRound_closes (st : ArmState) (known : (recAt k cmdbuf off).Known k)
    (found : follow k cmdbuf sz (recAt k cmdbuf off) = some next) (last : next = none ↔ rest = [])
    (closes : (recAt k cmdbuf off).Closes k rest) :
    ∃ s', ArmSet k s.dmabuf s'.dmabuf (armAt k st.descNums.cpu)
        (st.counters.bump k (recAt k cmdbuf off).engine).tiu
        (st.counters.bump k (recAt k cmdbuf off).engine).tdma ∧
      (∀ good, (∀ off n, armAt k st.descNums.cpu ≤ off →
          off + n ≤ armAt k st.descNums.cpu + k.armBytes → good (.write off n)) →
        (s'.All good ↔ (recAt k cmdbuf off).ArmGood k sz good ∧ s.All good)) ∧
      ∀ fuel, walk k cmdbuf sz (armBody k cmdbuf sz) (fuel + 1) (some off) st s =
        walk k cmdbuf sz (armBody k cmdbuf sz) fuel next
          (armStep k (recAt k cmdbuf off) rest st) s' := by
  obtain ⟨s', entry, allowed, runs⟩ := armRound_entry (s := s) st known found last closes
  refine ⟨s', ?_, allowed, runs⟩
  rw [entry]
  exact armEntry_set

end

/-! ## The whole table -/

section

variable (k : KernelHeaders)

/-- The table holds the numbers of these segments from entry `base` on. -/
def ArmsHold (m : Nat → UInt8) (base : Nat) (segs : List (List Rec)) : Prop :=
  ∀ i seg, segs[i]? = some seg →
    read32 m (armAt k (base + i) + 4) = countOf k.tiu seg % 2 ^ 32 ∧
    read32 m (armAt k (base + i) + 8) = countOf k.tdma seg % 2 ^ 32

end

section

variable {k : KernelHeaders} {cmdbuf : Nat → UInt8} {sz : Nat} {m m' : Nat → UInt8} {base : Nat}
  {seg : List Rec} {segs : List (List Rec)} {r : Rec} {rest recs pend : List Rec}

theorem armAt_succ (k : KernelHeaders) (i : Nat) : armAt k (i + 1) = armAt k i + k.armBytes := by
  unfold armAt
  rw [Nat.add_mul, Nat.one_mul, Nat.add_assoc]

theorem armAt_mono {i j : Nat} (le : i ≤ j) : armAt k i ≤ armAt k j :=
  Nat.add_le_add_left (Nat.mul_le_mul_right _ le) _

theorem armsHold_cons : ArmsHold k m base (seg :: segs) ↔
    (read32 m (armAt k base + 4) = countOf k.tiu seg % 2 ^ 32 ∧
      read32 m (armAt k base + 8) = countOf k.tdma seg % 2 ^ 32) ∧
        ArmsHold k m (base + 1) segs := by
  constructor
  · intro holds
    refine ⟨holds 0 seg rfl, ?_⟩
    intro i seg' found
    have := holds (i + 1) seg' found
    rwa [show base + (i + 1) = base + 1 + i by omega] at this
  · rintro ⟨head, tail⟩ i seg' found
    cases i with
    | zero =>
      obtain rfl : seg = seg' := by simpa using found
      exact head
    | succ i =>
      have := tail i seg' (by simpa using found)
      rwa [show base + 1 + i = base + (i + 1) by omega] at this

theorem armStep_closes {st : ArmState} (closes : r.Closes k rest) :
    armStep k r rest st = { counters := { st.counters.bump k r.engine with tiu := 0, tdma := 0 }
                            descNums :=
                              { st.descNums.bump k r.engine with cpu := st.descNums.cpu + 1 }
                            descSizeTiu :=
                              growTiu k st.descSizeTiu (st.counters.bump k r.engine).tiu } := by
  unfold armStep
  by_cases cpu : r.engine = k.cpu
  · simp [cpu, ArmState.close, Counters.ext_iff]
  · simp [cpu, closes.resolve_left cpu, ArmState.close]

theorem armStep_open {st : ArmState} (stays : ¬r.Closes k rest) :
    armStep k r rest st = { st with
      counters := st.counters.bump k r.engine, descNums := st.descNums.bump k r.engine } := by
  have cpu : ¬r.engine = k.cpu := fun isCpu => stays (Or.inl isCpu)
  have ends : ¬(r.sync = 0xFFFF ∨ rest = []) := fun isEnd => stays (Or.inr isEnd)
  simp only [armStep, cpu, ends, if_false]

/-- The arm loop counts by segments, and in total. -/
theorem armRun_spec (recs : List Rec) (st : ArmState) (holds : st.counters.Holds k pend) :
    (armRun k recs st).descNums.cpu = st.descNums.cpu + (segmentsFrom k pend recs).length ∧
      (armRun k recs st).descNums.tiu = st.descNums.tiu + countOf k.tiu recs ∧
      (armRun k recs st).descNums.tdma = st.descNums.tdma + countOf k.tdma recs ∧
      (armRun k recs st).descSizeTiu = tiuExtent k st.descSizeTiu (segmentsFrom k pend recs) := by
  induction recs generalizing pend st with
  | nil => simp [armRun, segmentsFrom, tiuExtent]
  | cons r rest ih =>
    rw [armRun]
    by_cases closes : r.Closes k rest
    · have start : (armStep k r rest st).counters.Holds k [] := by
        rw [armStep_closes closes]
        exact ⟨rfl, rfl⟩
      obtain ⟨cpu, tiu, tdma, extent⟩ := ih (armStep k r rest st) start
      rw [segmentsFrom_closes closes, cpu, tiu, tdma, extent, armStep_closes closes]
      refine ⟨?_, ?_, ?_, ?_⟩
      · simp only [List.length_cons]
        omega
      · simp only [bump_tiu, countOf_cons]
        omega
      · simp only [bump_tdma, countOf_cons]
        omega
      · have grown := (holds.bump (r := r)).1
        simp only [tiuExtent, List.foldl_cons, grown]
    · obtain ⟨cpu, tiu, tdma, extent⟩ := ih (armStep k r rest st)
        (by rw [armStep_open closes]; exact holds.bump)
      rw [segmentsFrom_open closes, cpu, tiu, tdma, extent, armStep_open closes]
      have work : ¬r.engine = k.cpu := fun isCpu => closes (Or.inl isCpu)
      refine ⟨?_, ?_, ?_, rfl⟩
      · simp [work]
      · simp only [bump_tiu, countOf_cons]
        omega
      · simp only [bump_tdma, countOf_cons]
        omega

theorem ArmsHold.frame (holds : ArmsHold k m base segs)
    (same : ∀ a, armAt k base ≤ a → a < armAt k (base + segs.length) → m' a = m a) :
    ArmsHold k m' base segs := by
  intro i seg found
  have bound : i < segs.length := (List.getElem?_eq_some_iff.mp found).1
  have low : armAt k base ≤ armAt k (base + i) := armAt_mono (by omega)
  have high : armAt k (base + i + 1) ≤ armAt k (base + segs.length) := armAt_mono (by omega)
  have size := armBytes_eq (k := k)
  rw [armAt_succ] at high
  obtain ⟨tiu, tdma⟩ := holds i seg found
  rw [← tiu, ← tdma]
  constructor
  · apply read32_congr
    intro j small
    exact same _ (by omega) (by omega)
  · apply read32_congr
    intro j small
    exact same _ (by omega) (by omega)

/-- The loop of `fill_header_and_arm` when the walk ends well. -/
theorem armLoop_apply {desc : Option Nat} (met : Met k cmdbuf sz desc recs true) (st : ArmState)
    (s : Buffers) (fuel : Nat) (enough : recs.length ≤ fuel) (holds : st.counters.Holds k pend) :
    ∃ s', walk k cmdbuf sz (armBody k cmdbuf sz) fuel desc st s = .ok (armRun k recs st) s' ∧
      ArmsHold k s'.dmabuf st.descNums.cpu (segmentsFrom k pend recs) ∧
      (∀ a, a < armAt k st.descNums.cpu ∨
        armAt k (st.descNums.cpu + (segmentsFrom k pend recs).length) ≤ a →
          s'.dmabuf a = s.dmabuf a) ∧
      ∀ good, (∀ off n, armAt k st.descNums.cpu ≤ off →
          off + n ≤ armAt k (st.descNums.cpu + (segmentsFrom k pend recs).length) →
          good (.write off n)) →
        (s'.All good ↔ (∀ r ∈ recs, r.ArmGood k sz good) ∧ s.All good) := by
  induction recs generalizing desc pend st s fuel with
  | nil =>
    obtain rfl : desc = none := met.next_none_iff.mpr rfl
    refine ⟨s, ?_, ?_, fun _ _ => rfl, ?_⟩
    · cases fuel <;> rfl
    · intro i seg found
      simp [segmentsFrom] at found
    · intro good _
      simp
  | cons r rest ih =>
    obtain ⟨off, next, rfl, rfl, known, found, metRest⟩ := met.uncons
    obtain ⟨fuel, rfl⟩ : ∃ fuel', fuel = fuel' + 1 := ⟨fuel - 1, by simp at enough; omega⟩
    have enoughRest : rest.length ≤ fuel := by simpa using enough
    by_cases closes : (recAt k cmdbuf off).Closes k rest
    · obtain ⟨s₁, set, allowed, runs⟩ :=
        armRound_closes (s := s) st known found metRest.next_none_iff closes
      have start : (armStep k (recAt k cmdbuf off) rest st).counters.Holds k [] := by
        rw [armStep_closes closes]
        exact ⟨rfl, rfl⟩
      obtain ⟨s', runsRest, table, frame, allowedRest⟩ :=
        ih metRest (armStep k (recAt k cmdbuf off) rest st) s₁ fuel enoughRest start
      have entry : (armStep k (recAt k cmdbuf off) rest st).descNums.cpu = st.descNums.cpu + 1 := by
        rw [armStep_closes closes]
      rw [entry] at table frame allowedRest
      have step := armAt_succ k st.descNums.cpu
      have size := armBytes_eq (k := k)
      have length : st.descNums.cpu + 1 + (segmentsFrom k [] rest).length =
          st.descNums.cpu + (segmentsFrom k pend (recAt k cmdbuf off :: rest)).length := by
        rw [segmentsFrom_closes closes, List.length_cons]
        omega
      have above : armAt k (st.descNums.cpu + 1) ≤
          armAt k (st.descNums.cpu + 1 + (segmentsFrom k [] rest).length) := armAt_mono (by omega)
      rw [length] at frame allowedRest above
      obtain ⟨tiu, tdma⟩ := holds.bump (r := recAt k cmdbuf off)
      refine ⟨s', ?_, ?_, ?_, ?_⟩
      · rw [runs fuel, runsRest, armRun]
      · rw [segmentsFrom_closes closes, armsHold_cons, ← tiu, ← tdma, ← set.tiu, ← set.tdma]
        refine ⟨⟨read32_congr ?_, read32_congr ?_⟩, table⟩
        · intro i small
          exact frame _ (by omega)
        · intro i small
          exact frame _ (by omega)
      · intro a outside
        rw [frame a (by omega), set.frame a (by omega)]
      · intro good inside
        rw [allowedRest good fun off n low high => inside off n (by omega) high,
          allowed good fun off n low high => inside off n low (by omega), List.forall_mem_cons]
        tauto
    · obtain ⟨accesses, allowed, runs⟩ :=
        armRound_open (s := s) st known found metRest.next_none_iff closes
      obtain ⟨s', runsRest, table, frame, allowedRest⟩ :=
        ih metRest (armStep k (recAt k cmdbuf off) rest st) (s.push accesses) fuel enoughRest
          (by rw [armStep_open closes]; exact holds.bump)
      have work : ¬(recAt k cmdbuf off).engine = k.cpu := fun isCpu => closes (Or.inl isCpu)
      have entry : (armStep k (recAt k cmdbuf off) rest st).descNums.cpu = st.descNums.cpu := by
        rw [armStep_open closes]
        simp [work]
      rw [entry] at table frame allowedRest
      rw [segmentsFrom_open closes]
      refine ⟨s', ?_, table, ?_, ?_⟩
      · rw [runs fuel, runsRest, armRun]
      · intro a outside
        exact frame a outside
      · intro good inside
        rw [allowedRest good inside, all_push, allowed good, List.forall_mem_cons]
        tauto

end

/-! ## The header -/

section

variable (k : KernelHeaders)

/-- `*tiu_offset` of `fill_header_and_arm`. -/
def tiuStart (segs : List (List Rec)) : Nat :=
  alignUp (sizeofDmaHdr + segs.length * k.armBytes) k.bdcAlignedBit

/-- `*tdma_offset` of `fill_header_and_arm`. -/
def tdmaStart (segs : List (List Rec)) : Nat :=
  alignUp (tiuStart k segs + tiuExtent k 0 segs) k.tdmaAlignedBit

end

section

variable {k : KernelHeaders} {cmdbuf : Nat → UInt8} {sz : Nat} {recs : List Rec}

theorem headerBytes_length (size cpuNum tiuNum tdmaNum : Nat) :
    (headerBytes size cpuNum tiuNum tdmaNum).length = sizeofDmaHdr := by
  simp [headerBytes, sizeofDmaHdr]

theorem read32_header_size (m : Nat → UInt8) (size cpuNum tiuNum tdmaNum : Nat) :
    read32 (writeBytes m 0 (headerBytes size cpuNum tiuNum tdmaNum)) 4 = size % 2 ^ 32 := by
  have field : ((headerBytes size cpuNum tiuNum tdmaNum).drop 4).take 4 = le32 size := rfl
  rw [← leNat_le32, ← field]
  apply ByteMem.read32_writeBytes_inside (k := 4)
  rw [headerBytes_length]
  decide

theorem read32_header_cpu (m : Nat → UInt8) (size cpuNum tiuNum tdmaNum : Nat) :
    read32 (writeBytes m 0 (headerBytes size cpuNum tiuNum tdmaNum)) 8 = cpuNum % 2 ^ 32 := by
  have field : ((headerBytes size cpuNum tiuNum tdmaNum).drop 8).take 4 = le32 cpuNum := rfl
  rw [← leNat_le32, ← field]
  apply ByteMem.read32_writeBytes_inside (k := 8)
  rw [headerBytes_length]
  decide

theorem encodedSize_eq (k : KernelHeaders) (recs : List Rec) : encodedSize k recs =
    tdmaStart k (segments k recs) + countOf k.tdma recs * k.gdmaDescAlignSize := rfl

theorem armAt_le_tiuStart (segs : List (List Rec)) : armAt k segs.length ≤ tiuStart k segs :=
  le_alignUp

theorem tiuStart_le_tdmaStart (segs : List (List Rec)) :
    tiuStart k segs + tiuExtent k 0 segs ≤ tdmaStart k segs := le_alignUp

/-- `fill_header_and_arm` when the walk over the records ends well. -/
theorem fillHeaderAndArm_apply (magic : magicAt k cmdbuf 0 = k.magic180X)
    (met : Met k cmdbuf sz (some 0) recs true) (s : Buffers) :
    ∃ s', fillHeaderAndArm k cmdbuf sz s =
        .ok (tiuStart k (segments k recs), tdmaStart k (segments k recs)) s' ∧
      ArmsHold k s'.dmabuf 0 (segments k recs) ∧
      read32 s'.dmabuf 4 = encodedSize k recs % 2 ^ 32 ∧
      read32 s'.dmabuf 8 = (segments k recs).length % 2 ^ 32 ∧
      ∀ good, (∀ off n, off + n ≤ armAt k (segments k recs).length → good (.write off n)) →
        (s'.All good ↔
          (good (magicAccess k 0) ∧ ∀ r ∈ recs, r.ArmGood k sz good) ∧ s.All good) := by
  have short := met.length_le
  have start : Counters.Holds k ⟨0, 0, 0⟩ [] := ⟨rfl, rfl⟩
  obtain ⟨s₁, runs, table, -, allowed⟩ := armLoop_apply met ⟨⟨0, 0, 0⟩, ⟨0, 0, 0⟩, 0⟩
    (s.push [magicAccess k 0]) (sz + 1) (by omega) start
  obtain ⟨cpu, tiu, tdma, extent⟩ := armRun_spec recs ⟨⟨0, 0, 0⟩, ⟨0, 0, 0⟩, 0⟩ start
  simp only [Nat.zero_add] at cpu tiu tdma extent table allowed
  rw [← segments] at cpu extent table allowed
  have first : armAt k 0 = 128 := by simp [armAt, sizeofDmaHdr]
  have above : armAt k 0 ≤ armAt k (segments k recs).length := armAt_mono (by omega)
  refine ⟨s₁.write 0 (headerBytes (encodedSize k recs) (segments k recs).length (countOf k.tiu recs)
    (countOf k.tdma recs)), ?_, ?_, ?_, ?_, ?_⟩
  · simp only [fillHeaderAndArm, bind_apply, traverseStart_apply, magic, if_true, runs,
      writeDma_apply, pure_apply, cpu, tiu, tdma, extent]
    rfl
  · apply table.frame
    intro a low _
    apply writeBytes_outside
    rw [headerBytes_length, sizeofDmaHdr]
    omega
  · exact read32_header_size ..
  · exact read32_header_cpu ..
  · intro good inside
    have header := inside 0 sizeofDmaHdr (by rw [sizeofDmaHdr]; omega)
    rw [all_write, allowed good fun off n _ high => inside off n high, all_push, headerBytes_length,
      List.forall_mem_singleton]
    tauto

end

end CviRuntime.Dmabuf
