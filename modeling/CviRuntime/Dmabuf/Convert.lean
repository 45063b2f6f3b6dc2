import CviRuntime.Dmabuf.Placement

/-!
# `cvi180x_dmabuf_convert`

The loop over the segments, by induction over the segments left, and the whole encoder. A
well-formed command buffer below 4 GiB is encoded without loss: the segments of the output
hold the descriptors of the segments of the input, the size in the header is the one the
sizing pass returns, and every write lies below it.
-/

namespace CviRuntime.Dmabuf

open ByteMem

section

variable (k : KernelHeaders)

/-- Copying the bodies of these segments to their slots is permitted. -/
def SegsGood (good : Access → Prop) : Nat → Nat → List (List Rec) → Prop
  | _, _, [] => True
  | tiuOffset, tdmaOffset, seg :: segs =>
    (StrideGood k good k.bdRegBytes tiuOffset (ofEngine k.tiu seg) ∧
      StrideGood k good k.gdmaDescAlignSize tdmaOffset (ofEngine k.tdma seg)) ∧
    SegsGood good (growTiu k tiuOffset (countOf k.tiu seg))
      (tdmaOffset + countOf k.tdma seg * k.gdmaDescAlignSize) segs

/-- A segment small enough for its numbers to be kept in 16 bits. -/
def Small (seg : List Rec) : Prop := countOf k.tiu seg < 65536 ∧ countOf k.tdma seg < 65536

end

section

variable {k : KernelHeaders} {cmdbuf m m' : Nat → UInt8} {sz i tiuOffset tdmaOffset : Nat}
  {recs seg idle : List Rec} {segs : List (List Rec)}

theorem countOf_congr {engine : Nat} (same : ofEngine engine recs = ofEngine engine seg) :
    countOf engine recs = countOf engine seg := by
  rw [← length_ofEngine, same, length_ofEngine]

/-- What an entry and its slots say depends on the TIU and the TDMA records only. -/
theorem SegmentHolds.congr (holds : SegmentHolds k cmdbuf m i recs)
    (tiu : ofEngine k.tiu recs = ofEngine k.tiu seg)
    (tdma : ofEngine k.tdma recs = ofEngine k.tdma seg) :
    SegmentHolds k cmdbuf m i seg := by
  obtain ⟨numTiu, numTdma, sentTiu', sentTdma'⟩ := holds
  unfold sentTiu at sentTiu'
  unfold sentTdma at sentTdma'
  rw [tiu] at sentTiu'
  rw [tdma] at sentTdma'
  rw [countOf_congr tiu] at numTiu
  rw [countOf_congr tdma] at numTdma
  exact ⟨numTiu, numTdma, sentTiu', sentTdma'⟩

theorem SegmentHolds.frame (holds : SegmentHolds k cmdbuf m i seg)
    (offsets : OffsetsAre k m i seg tiuOffset tdmaOffset)
    (entry : ∀ a, armAt k i ≤ a → a < armAt k (i + 1) → m' a = m a)
    (tiuSame : ∀ a, tiuOffset ≤ a → a < tiuOffset + countOf k.tiu seg * k.bdRegBytes → m' a = m a)
    (tdmaSame : ∀ a, tdmaOffset ≤ a → a < tdmaOffset + countOf k.tdma seg * k.gdmaDescAlignSize →
      m' a = m a) : SegmentHolds k cmdbuf m' i seg := by
  have size := armBytes_eq (k := k)
  rw [armAt_succ] at entry
  have field {d : Nat} (inside : d + 4 ≤ 20) :
      read32 m' (armAt k i + d) = read32 m (armAt k i + d) :=
    read32_congr fun j small => entry _ (by omega) (by omega)
  obtain ⟨numTiu, numTdma, tiu, tdma⟩ := holds
  unfold walkTiu at tiu
  unfold walkTdma at tdma
  refine ⟨?_, ?_, ?_, ?_⟩
  · rw [field (by omega), numTiu]
  · rw [field (by omega), numTdma]
  · rw [walkTiu, field (by omega), field (by omega), ← tiu, numTiu]
    by_cases none : countOf k.tiu seg = 0
    · rw [none]
      rfl
    · rw [offsets.1 none]
      exact readSlots_congr tiuSame
  · rw [walkTdma, field (by omega), field (by omega)]
    rw [numTdma] at tdma ⊢
    by_cases none : countOf k.tdma seg = 0
    · rw [none] at tdma ⊢
      exact tdma
    · rw [offsets.2 none] at tdma ⊢
      rw [readSlots_congr tdmaSame]
      exact tdma

/-- The records a round goes over, and the CPU records it leaves. -/
theorem exists_round (idleCpu : ∀ r ∈ idle, r.engine = k.cpu) (seg : List Rec) :
    ∃ busy left, idle ++ seg = busy ++ left ∧ (∀ r ∈ left, r.engine = k.cpu) ∧
      (∀ r, busy.getLast? = some r → r.engine ≠ k.cpu) ∧
      ofEngine k.tiu busy = ofEngine k.tiu seg ∧ ofEngine k.tdma busy = ofEngine k.tdma seg := by
  obtain ⟨busy, left, split, leftCpu, last⟩ := exists_idle_end k (idle ++ seg)
  have same {engine : Nat} (other : engine ≠ k.cpu) :
      ofEngine engine busy = ofEngine engine seg := by
    have whole := congrArg (ofEngine engine) split
    have noIdle : ofEngine engine idle = [] := ofEngine_eq_nil fun r member isEngine =>
      other (isEngine.symm.trans (idleCpu r member))
    have noLeft : ofEngine engine left = [] := ofEngine_eq_nil fun r member isEngine =>
      other (isEngine.symm.trans (leftCpu r member))
    rw [ofEngine_append, ofEngine_append, noIdle, noLeft, List.nil_append, List.append_nil] at whole
    exact whole.symm
  exact ⟨busy, left, split, leftCpu, last, same k.tiu_ne_cpu, same k.tdma_ne_cpu⟩

theorem Rec.fits_of_cpu {r : Rec} (cpu : r.engine = k.cpu) : r.Fits k := by
  constructor
  · intro tiu
    exact absurd (tiu.symm.trans cpu) k.tiu_ne_cpu
  · intro tdma
    exact absurd (tdma.symm.trans cpu) k.tdma_ne_cpu

section

variable {s : Buffers}
  (fits : growTiu k (alignUp tiuOffset k.bdcAlignedBit) (countOf k.tiu recs) ≤ tdmaOffset)

include fits

/-- A round leaves the entries of the later segments as they are. -/
theorem fillSeg_table (room : armAt k (i + 1 + segs.length) ≤ tiuOffset)
    (table : ArmsHold k s.dmabuf (i + 1) segs) :
    ArmsHold k (fillSeg k cmdbuf sz i recs tiuOffset tdmaOffset s).dmabuf (i + 1) segs := by
  have size := armBytes_eq (k := k)
  have step := armAt_succ k i
  apply table.frame
  intro a low high
  exact fillSeg_below fits (by omega) (by omega)

/-- A round leaves the header as it is. -/
theorem fillSeg_header {d : Nat} (room : armAt k i ≤ tiuOffset) (inside : d + 4 ≤ 128) :
    read32 (fillSeg k cmdbuf sz i recs tiuOffset tdmaOffset s).dmabuf d = read32 s.dmabuf d := by
  have first : 128 ≤ armAt k i := Nat.le_add_right _ _
  exact read32_congr fun j small => fillSeg_below fits (by omega) (by omega)

end

/-- The records of a round fit their slots when those of its segment do. -/
theorem fits_of_round {busy left : List Rec} (idleCpu : ∀ r ∈ idle, r.engine = k.cpu)
    (split : idle ++ seg = busy ++ left) (segFits : ∀ r ∈ seg, r.Fits k) :
    ∀ r ∈ busy, r.Fits k := by
  intro r member
  have whole : r ∈ idle ++ seg := by
    rw [split]
    exact List.mem_append_left left member
  rcases List.mem_append.mp whole with isIdle | inSeg
  · exact Rec.fits_of_cpu (idleCpu r isIdle)
  · exact segFits r inSeg

/-- The later rounds change nothing in the entries before theirs, in the TIU slots before
    theirs and in the TDMA slots before theirs, so a segment stays as it was filled. -/
theorem SegmentHolds.kept {entries extent : Nat} (holds : SegmentHolds k cmdbuf m i seg)
    (offsets : OffsetsAre k m i seg (alignUp tiuOffset k.bdcAlignedBit) tdmaOffset)
    (room : entries ≤ tiuOffset) (ordered : extent ≤ tdmaOffset)
    (outside : ∀ a, a < armAt k (i + 1) ∨
      entries ≤ a ∧ a < tiuAfter k (countOf k.tiu seg) tiuOffset ∨
      extent ≤ a ∧ a < tdmaOffset + countOf k.tdma seg * k.gdmaDescAlignSize → m' a = m a) :
    SegmentHolds k cmdbuf m' i seg := by
  apply holds.frame offsets
  · intro a _ high
    exact outside a (Or.inl high)
  · intro a low high
    have start : tiuOffset ≤ alignUp tiuOffset k.bdcAlignedBit := le_alignUp
    exact outside a (Or.inr (Or.inl ⟨by omega, slot_lt_tiuAfter low high⟩))
  · intro a low high
    exact outside a (Or.inr (Or.inr ⟨by omega, high⟩))

/-- What the rounds for the segments `segs`, after the CPU records `idle`, make of the buffers:
    the bytes before their entries stay, the copies are the only accesses in question, and when
    every record fits its slot nothing else changes and the segments are in place. -/
structure Filled (k : KernelHeaders) (cmdbuf : Nat → UInt8) (sz : Nat) (idle : List Rec)
    (segs : List (List Rec)) (i tiuOffset tdmaOffset : Nat) (s s' : Buffers) : Prop where
  header : ∀ a, a < armAt k i → s'.dmabuf a = s.dmabuf a
  allowed : ∀ good limit, (∀ r ∈ idle ++ segs.flatten, r.HeaderGood k sz good) →
    (∀ off n, off + n ≤ limit → good (.write off n)) →
    tdmaOffset + countOf k.tdma segs.flatten * k.gdmaDescAlignSize ≤ limit →
    (s'.All good ↔
      SegsGood k good (alignUp tiuOffset k.bdcAlignedBit) tdmaOffset segs ∧ s.All good)
  outside : (∀ r ∈ segs.flatten, r.Fits k) →
    tdmaOffset + countOf k.tdma segs.flatten * k.gdmaDescAlignSize < 2 ^ 32 →
    ∀ a, a < armAt k i ∨ armAt k (i + segs.length) ≤ a ∧ a < tiuOffset ∨
      tiuExtent k (alignUp tiuOffset k.bdcAlignedBit) segs ≤ a ∧ a < tdmaOffset →
      s'.dmabuf a = s.dmabuf a
  holds : (∀ r ∈ segs.flatten, r.Fits k) →
    tdmaOffset + countOf k.tdma segs.flatten * k.gdmaDescAlignSize < 2 ^ 32 →
    ∀ j seg, segs[j]? = some seg → SegmentHolds k cmdbuf s'.dmabuf (i + j) seg

theorem Filled.nil {s : Buffers} : Filled k cmdbuf sz idle [] i tiuOffset tdmaOffset s s where
  header _ _ := rfl
  allowed := by simp [SegsGood]
  outside _ _ _ _ := rfl
  holds := by simp

section

variable {busy left : List Rec} {s s' : Buffers} (split : idle ++ seg = busy ++ left)
  (sameTiu : ofEngine k.tiu busy = ofEngine k.tiu seg)
  (sameTdma : ofEngine k.tdma busy = ofEngine k.tdma seg)
  (room : armAt k (i + (segs.length + 1)) ≤ tiuOffset)
  (ordered : tiuExtent k (alignUp tiuOffset k.bdcAlignedBit) (seg :: segs) ≤ tdmaOffset)
  (filled : Filled k cmdbuf sz left segs (i + 1) (tiuAfter k (countOf k.tiu busy) tiuOffset)
    (tdmaOffset + countOf k.tdma busy * k.gdmaDescAlignSize)
    (fillSeg k cmdbuf sz i busy tiuOffset tdmaOffset s) s')

include sameTdma in
theorem tdmaEnd_cons : tdmaOffset + countOf k.tdma (seg :: segs).flatten * k.gdmaDescAlignSize =
    tdmaOffset + countOf k.tdma busy * k.gdmaDescAlignSize +
      countOf k.tdma segs.flatten * k.gdmaDescAlignSize := by
  rw [List.flatten_cons, countOf_append, countOf_congr sameTdma, Nat.add_mul, Nat.add_assoc]

include sameTiu ordered in
/-- The TIU slots of this round and of the rounds to come end before the TDMA slots. -/
theorem ordered_cons :
    tiuOffset ≤ growTiu k (alignUp tiuOffset k.bdcAlignedBit) (countOf k.tiu busy) ∧
    growTiu k (alignUp tiuOffset k.bdcAlignedBit) (countOf k.tiu busy) ≤ tdmaOffset ∧
    tiuExtent k (growTiu k (alignUp tiuOffset k.bdcAlignedBit) (countOf k.tiu busy)) segs ≤
      tdmaOffset := by
  have start : tiuOffset ≤ alignUp tiuOffset k.bdcAlignedBit := le_alignUp
  have grown := le_growTiu k (alignUp tiuOffset k.bdcAlignedBit) (countOf k.tiu busy)
  rw [tiuExtent_cons, ← countOf_congr sameTiu] at ordered
  exact ⟨by omega, Nat.le_trans (le_tiuExtent k _ segs) ordered, ordered⟩

include split sameTiu sameTdma room ordered filled

theorem Filled.allowed_cons {good : Access → Prop} {limit : Nat}
    (known : ∀ r ∈ busy, r.Known k)
    (headers : ∀ r ∈ idle ++ (seg :: segs).flatten, r.HeaderGood k sz good)
    (inside : ∀ off n, off + n ≤ limit → good (.write off n))
    (within : tdmaOffset + countOf k.tdma (seg :: segs).flatten * k.gdmaDescAlignSize ≤ limit) :
    s'.All good ↔
      SegsGood k good (alignUp tiuOffset k.bdcAlignedBit) tdmaOffset (seg :: segs) ∧
        s.All good := by
  obtain ⟨start, fits, -⟩ := ordered_cons sameTiu ordered
  have entries : armAt k (i + 1) ≤ armAt k (i + (segs.length + 1)) := armAt_mono (by omega)
  have size := armBytes_eq (k := k)
  have step := armAt_succ k i
  have all : idle ++ (seg :: segs).flatten = busy ++ (left ++ segs.flatten) := by
    rw [List.flatten_cons, ← List.append_assoc, split, List.append_assoc]
  rw [all, List.forall_mem_append] at headers
  rw [tdmaEnd_cons sameTdma] at within
  rw [filled.allowed good limit headers.2 inside within, alignUp_tiuAfter,
    fillSeg_all known headers.1 inside (by omega) (by omega) (by omega), SegsGood, ← sameTiu,
    ← sameTdma, ← countOf_congr sameTiu, ← countOf_congr sameTdma]
  constructor
  · rintro ⟨slotsRest, slots, before⟩
    exact ⟨⟨slots, slotsRest⟩, before⟩
  · rintro ⟨⟨slots, slotsRest⟩, before⟩
    exact ⟨slotsRest, slots, before⟩

theorem Filled.outside_cons (idleCpu : ∀ r ∈ idle, r.engine = k.cpu)
    (allFit : ∀ r ∈ (seg :: segs).flatten, r.Fits k)
    (word : tdmaOffset + countOf k.tdma (seg :: segs).flatten * k.gdmaDescAlignSize < 2 ^ 32)
    {a : Nat} (apart : a < armAt k i ∨ armAt k (i + (segs.length + 1)) ≤ a ∧ a < tiuOffset ∨
      tiuExtent k (alignUp tiuOffset k.bdcAlignedBit) (seg :: segs) ≤ a ∧ a < tdmaOffset) :
    s'.dmabuf a = s.dmabuf a := by
  obtain ⟨start, fits, -⟩ := ordered_cons sameTiu ordered
  have grown := le_tiuExtent k
    (growTiu k (alignUp tiuOffset k.bdcAlignedBit) (countOf k.tiu busy)) segs
  have size := armBytes_eq (k := k)
  have step := armAt_succ k i
  have entries : armAt k (i + 1) ≤ armAt k (i + (segs.length + 1)) := armAt_mono (by omega)
  have after := le_tiuAfter k (countOf k.tiu busy) tiuOffset
  rw [List.flatten_cons, List.forall_mem_append] at allFit
  rw [tdmaEnd_cons sameTdma] at word
  rw [tiuExtent_cons, ← countOf_congr sameTiu] at apart
  have later := filled.outside allFit.2 word a
  rw [alignUp_tiuAfter, show i + 1 + segs.length = i + (segs.length + 1) by omega] at later
  rw [later (by omega)]
  exact fillSeg_outside (fits_of_round idleCpu split allFit.1) (by omega) (by omega) (by omega)

theorem Filled.holds_cons (idleCpu : ∀ r ∈ idle, r.engine = k.cpu)
    (tiuField : read32 s.dmabuf (armAt k i + 4) = countOf k.tiu busy)
    (tdmaField : read32 s.dmabuf (armAt k i + 8) = countOf k.tdma busy)
    (allFit : ∀ r ∈ (seg :: segs).flatten, r.Fits k)
    (word : tdmaOffset + countOf k.tdma (seg :: segs).flatten * k.gdmaDescAlignSize < 2 ^ 32)
    {j : Nat} {seg' : List Rec} (found : (seg :: segs)[j]? = some seg') :
    SegmentHolds k cmdbuf s'.dmabuf (i + j) seg' := by
  obtain ⟨-, fits, orderedRest⟩ := ordered_cons sameTiu ordered
  have size := armBytes_eq (k := k)
  have step := armAt_succ k i
  have entries : armAt k (i + 1) ≤ armAt k (i + (segs.length + 1)) := armAt_mono (by omega)
  rw [List.flatten_cons, List.forall_mem_append] at allFit
  rw [tdmaEnd_cons sameTdma] at word
  cases j with
  | zero =>
    obtain rfl : seg = seg' := by simpa using found
    have within : tdmaOffset + countOf k.tdma busy * k.gdmaDescAlignSize ≤
        tdmaOffset + countOf k.tdma busy * k.gdmaDescAlignSize +
          countOf k.tdma segs.flatten * k.gdmaDescAlignSize := Nat.le_add_right _ _
    have holds :
        SegmentHolds k cmdbuf (fillSeg k cmdbuf sz i busy tiuOffset tdmaOffset s).dmabuf i busy :=
      fillSeg_holds (fits_of_round idleCpu split allFit.1) fits (by omega) word within tiuField
        tdmaField
    have offsets : OffsetsAre k (fillSeg k cmdbuf sz i busy tiuOffset tdmaOffset s).dmabuf i busy
        (alignUp tiuOffset k.bdcAlignedBit) tdmaOffset :=
      fillSeg_offsets fits (by omega) word within
    have later := filled.outside allFit.2 word
    rw [alignUp_tiuAfter, show i + 1 + segs.length = i + (segs.length + 1) by omega] at later
    exact (holds.kept offsets room orderedRest later).congr sameTiu sameTdma
  | succ j =>
    have later := filled.holds allFit.2 word j seg' (by simpa using found)
    rwa [show i + 1 + j = i + (j + 1) by omega] at later

end

/-- The loop over the segments is ready for the segments left: their numbers are small and
    stand in the table, and the slots ahead lie behind the table in the order of the parts. -/
structure FillReady (k : KernelHeaders) (segs : List (List Rec)) (i tiuOffset tdmaOffset : Nat)
    (m : Nat → UInt8) : Prop where
  small : ∀ seg ∈ segs, Small k seg
  table : ArmsHold k m i segs
  number : read32 m 8 = i + segs.length
  room : armAt k (i + segs.length) ≤ tiuOffset
  aligned : 2 ^ k.tdmaAlignedBit ∣ tdmaOffset
  ordered : tiuExtent k (alignUp tiuOffset k.bdcAlignedBit) segs ≤ tdmaOffset

section

variable {busy : List Rec} {s : Buffers}
  (ready : FillReady k (seg :: segs) i tiuOffset tdmaOffset s.dmabuf)
  (sameTiu : ofEngine k.tiu busy = ofEngine k.tiu seg)
  (sameTdma : ofEngine k.tdma busy = ofEngine k.tdma seg)

include ready

include sameTiu sameTdma in
theorem FillReady.fields : read32 s.dmabuf (armAt k i + 4) = countOf k.tiu busy ∧
    read32 s.dmabuf (armAt k i + 8) = countOf k.tdma busy := by
  obtain ⟨⟨tiuField, tdmaField⟩, -⟩ := armsHold_cons.mp ready.table
  obtain ⟨fewTiu, fewTdma⟩ := ready.small seg List.mem_cons_self
  rw [tiuField, tdmaField, countOf_congr sameTiu, countOf_congr sameTdma]
  exact ⟨Nat.mod_eq_of_lt (by omega), Nat.mod_eq_of_lt (by omega)⟩

include sameTiu in
/-- A round leaves the loop ready for the later segments. -/
theorem FillReady.step : FillReady k segs (i + 1) (tiuAfter k (countOf k.tiu busy) tiuOffset)
    (tdmaOffset + countOf k.tdma busy * k.gdmaDescAlignSize)
    (fillSeg k cmdbuf sz i busy tiuOffset tdmaOffset s).dmabuf := by
  obtain ⟨small, table, number, room, aligned, ordered⟩ := ready
  obtain ⟨-, tableRest⟩ := armsHold_cons.mp table
  obtain ⟨-, fits, orderedRest⟩ := ordered_cons sameTiu ordered
  rw [List.length_cons] at number room
  have length : i + 1 + segs.length = i + (segs.length + 1) := by omega
  have entries : armAt k (i + 1) ≤ armAt k (i + (segs.length + 1)) := armAt_mono (by omega)
  have step := armAt_succ k i
  have after := le_tiuAfter k (countOf k.tiu busy) tiuOffset
  refine ⟨(List.forall_mem_cons.mp small).2, ?_, ?_, ?_, ?_, ?_⟩
  · exact fillSeg_table fits (by rw [length]; omega) tableRest
  · rw [fillSeg_header fits (by omega) (by omega), number, length]
  · rw [length]
    omega
  · exact Nat.dvd_add aligned (Nat.dvd_mul_left _ _)
  · rw [alignUp_tiuAfter]
    omega

end

/-- One round of the loop over the segments; the records `rest` are beyond the segments that
    the loop goes over. -/
theorem fillLoop_round {rest : List Rec} {s : Buffers} {desc : Option Nat}
    (ready : FillReady k (seg :: segs) i tiuOffset tdmaOffset s.dmabuf)
    (met : Met k cmdbuf sz desc (idle ++ (seg :: segs).flatten ++ rest) true)
    (idleCpu : ∀ r ∈ idle, r.engine = k.cpu) :
    ∃ busy left desc', idle ++ seg = busy ++ left ∧ (∀ r ∈ left, r.engine = k.cpu) ∧
      ofEngine k.tiu busy = ofEngine k.tiu seg ∧ ofEngine k.tdma busy = ofEngine k.tdma seg ∧
      Met k cmdbuf sz desc' (left ++ segs.flatten ++ rest) true ∧
      ∀ fuel, fillLoop k cmdbuf sz (fuel + 1) i ⟨desc, tiuOffset, tdmaOffset⟩ s =
        fillLoop k cmdbuf sz fuel (i + 1) ⟨desc', tiuAfter k (countOf k.tiu busy) tiuOffset,
          tdmaOffset + countOf k.tdma busy * k.gdmaDescAlignSize⟩
          (fillSeg k cmdbuf sz i busy tiuOffset tdmaOffset s) := by
  obtain ⟨busy, left, split, leftCpu, last, sameTiu, sameTdma⟩ := exists_round idleCpu seg
  obtain ⟨fewTiu, fewTdma⟩ := ready.small seg List.mem_cons_self
  obtain ⟨tiuField, tdmaField⟩ := ready.fields sameTiu sameTdma
  rw [← countOf_congr sameTiu] at fewTiu
  rw [← countOf_congr sameTdma] at fewTdma
  have whole : idle ++ (seg :: segs).flatten ++ rest = busy ++ (left ++ segs.flatten ++ rest) := by
    rw [List.flatten_cons, ← List.append_assoc, split, List.append_assoc, List.append_assoc,
      List.append_assoc]
  rw [whole] at met
  obtain ⟨-, fits, -⟩ := ordered_cons sameTiu ready.ordered
  have entries : armAt k (i + 1) ≤ armAt k (i + (segs.length + 1)) := armAt_mono (by omega)
  have room := ready.room
  have number := ready.number
  rw [List.length_cons] at room number
  obtain ⟨desc', metRest, runs⟩ :=
    fillSegment_apply tiuOffset tdmaOffset s met last fewTiu fewTdma tiuField tdmaField
      ready.aligned (by omega) fits
  refine ⟨busy, left, desc', split, leftCpu, sameTiu, sameTdma, metRest, ?_⟩
  intro fuel
  simp only [fillLoop, bind_apply, readDma32_apply, number]
  rw [if_pos (by omega), bind_apply, runs]

/-- The loop over the segments. -/
theorem fillLoop_apply (tiuOffset tdmaOffset : Nat) (s : Buffers) {desc : Option Nat} {fuel : Nat}
    (met : Met k cmdbuf sz desc (idle ++ segs.flatten) true)
    (idleCpu : ∀ r ∈ idle, r.engine = k.cpu)
    (small : ∀ seg ∈ segs, Small k seg) (table : ArmsHold k s.dmabuf i segs)
    (number : read32 s.dmabuf 8 = i + segs.length) (room : armAt k (i + segs.length) ≤ tiuOffset)
    (aligned : 2 ^ k.tdmaAlignedBit ∣ tdmaOffset)
    (ordered : tiuExtent k (alignUp tiuOffset k.bdcAlignedBit) segs ≤ tdmaOffset)
    (enough : segs.length < fuel) :
    ∃ s', fillLoop k cmdbuf sz fuel i ⟨desc, tiuOffset, tdmaOffset⟩ s = .ok () s' ∧
      Filled k cmdbuf sz idle segs i tiuOffset tdmaOffset s s' := by
  have ready : FillReady k segs i tiuOffset tdmaOffset s.dmabuf :=
    ⟨small, table, number, room, aligned, ordered⟩
  clear small table number room aligned ordered
  obtain ⟨fuel, rfl⟩ : ∃ fuel', fuel = fuel' + 1 := ⟨fuel - 1, by omega⟩
  induction segs generalizing desc idle i tiuOffset tdmaOffset s fuel with
  | nil =>
    refine ⟨s, ?_, .nil⟩
    simp [fillLoop, bind_apply, readDma32_apply, ready.number, pure_apply]
  | cons seg segs ih =>
    obtain ⟨fuel, rfl⟩ : ∃ fuel', fuel = fuel' + 1 := ⟨fuel - 1, by simp at enough; omega⟩
    have metAll : Met k cmdbuf sz desc (idle ++ (seg :: segs).flatten ++ []) true := by
      rwa [List.append_nil]
    obtain ⟨busy, left, desc', split, leftCpu, sameTiu, sameTdma, metRest, runs⟩ :=
      fillLoop_round ready metAll idleCpu
    rw [List.append_nil] at metRest
    obtain ⟨tiuField, tdmaField⟩ := ready.fields sameTiu sameTdma
    obtain ⟨s', runsRest, filled⟩ := ih _ _ _ metRest leftCpu
      (ready.step sameTiu) fuel (by simpa using enough)
    have room : armAt k (i + (segs.length + 1)) ≤ tiuOffset := ready.room
    have ordered := ready.ordered
    obtain ⟨start, fits, -⟩ := ordered_cons sameTiu ordered
    have entries : armAt k (i + 1) ≤ armAt k (i + (segs.length + 1)) := armAt_mono (by omega)
    have step := armAt_succ k i
    refine ⟨s', ?_, ?_, ?_, ?_, ?_⟩
    · rw [runs, runsRest]
    · intro a low
      rw [filled.header a (by omega), fillSeg_below fits (by omega) (by omega)]
    · intro good limit
      refine filled.allowed_cons split sameTiu sameTdma room ordered fun r member => ?_
      apply met.known r
      rw [List.flatten_cons, ← List.append_assoc, split]
      exact List.mem_append_left _ (List.mem_append_left _ member)
    · intro allFit word a
      exact filled.outside_cons split sameTiu sameTdma room ordered idleCpu allFit word
    · intro allFit word j seg'
      exact filled.holds_cons split sameTiu sameTdma room ordered idleCpu tiuField tdmaField
        allFit word

end

/-! ## The whole encoder -/

section

variable {k : KernelHeaders} {cmdbuf : Nat → UInt8} {sz : Nat} {recs : List Rec}

theorem alignUp_tiuStart (segs : List (List Rec)) :
    alignUp (tiuStart k segs) k.bdcAlignedBit = tiuStart k segs := alignUp_of_dvd alignUp_dvd

theorem tiuExtent_tiuStart (segs : List (List Rec)) :
    tiuExtent k (tiuStart k segs) segs ≤ tdmaStart k segs := by
  calc tiuExtent k (tiuStart k segs) segs
      = tiuStart k segs + tiuExtent k 0 segs := tiuExtent_add alignUp_dvd 0 segs
    _ ≤ tdmaStart k segs := tiuStart_le_tdmaStart segs

theorem armAt_le_encodedSize (k : KernelHeaders) (recs : List Rec) :
    armAt k (segments k recs).length ≤ encodedSize k recs := by
  have table := armAt_le_tiuStart (k := k) (segments k recs)
  have tiu := tiuStart_le_tdmaStart (k := k) (segments k recs)
  rw [encodedSize_eq]
  omega

theorem segments_length_lt (k : KernelHeaders) (recs : List Rec) :
    (segments k recs).length < encodedSize k recs := by
  have table := armAt_le_encodedSize k recs
  have size := armBytes_eq (k := k)
  have long : (segments k recs).length * 1 ≤ (segments k recs).length * k.armBytes :=
    Nat.mul_le_mul_left _ (by omega)
  unfold armAt sizeofDmaHdr at table
  omega

/-- `cvi180x_dmabuf_convert` when the walk over the records ends well and the numbers of
    records and segments are within their fields. -/
theorem dmabufConvert_apply (s : Buffers) (magic : magicAt k cmdbuf 0 = k.magic180X)
    (met : Met k cmdbuf sz (some 0) recs true) (small : ∀ seg ∈ segments k recs, Small k seg)
    (few : (segments k recs).length < 2 ^ 32) :
    ∃ s', dmabufConvert k cmdbuf sz s = .ok () s' ∧
      read32 s'.dmabuf 4 = encodedSize k recs % 2 ^ 32 ∧
      read32 s'.dmabuf 8 = (segments k recs).length ∧
      (∀ good, (∀ off n, off + n ≤ encodedSize k recs → good (.write off n)) →
        good (magicAccess k 0) → (∀ r ∈ recs, r.HeaderGood k sz good) →
        (s'.All good ↔
          ((∀ r ∈ recs, r.engine = k.cpu → good (.read (r.off + k.hdrBytes) k.armBytes)) ∧
            SegsGood k good (tiuStart k (segments k recs)) (tdmaStart k (segments k recs))
              (segments k recs)) ∧ s.All good)) ∧
      ((∀ r ∈ recs, r.Fits k) → encodedSize k recs < 2 ^ 32 →
        ∀ i seg, (segments k recs)[i]? = some seg → SegmentHolds k cmdbuf s'.dmabuf i seg) := by
  have first : 128 ≤ armAt k 0 := Nat.le_add_right _ _
  obtain ⟨s₁, runsHead, table, size, number, allowedHead⟩ := fillHeaderAndArm_apply magic met s
  rw [Nat.mod_eq_of_lt few] at number
  have whole : Met k cmdbuf sz (some 0) ([] ++ (segments k recs).flatten) true := by
    rw [segments_flatten]
    exact met
  obtain ⟨s', runs, header, allowed, -, holds⟩ := fillLoop_apply (tiuStart k (segments k recs))
    (tdmaStart k (segments k recs)) (s₁.push [magicAccess k 0]) whole (by simp) small table
    (by rw [push_dmabuf, number, Nat.zero_add]) (by rw [Nat.zero_add]; exact armAt_le_tiuStart _)
    alignUp_dvd (by rw [alignUp_tiuStart]; exact tiuExtent_tiuStart _) few
  rw [alignUp_tiuStart, List.nil_append, segments_flatten] at allowed
  rw [segments_flatten] at holds
  refine ⟨s', ?_, ?_, ?_, ?_, ?_⟩
  · simp only [dmabufConvert, bind_apply, runsHead, fillBdAndTdma, traverseStart_apply, magic,
      if_true, runs]
  · rw [read32_congr fun j small => header _ (by omega), push_dmabuf, size]
  · rw [read32_congr fun j small => header _ (by omega), push_dmabuf, number]
  · intro good inside magicGood headers
    have tableInside := armAt_le_encodedSize k recs
    rw [allowed good (encodedSize k recs) headers inside
        (Nat.le_of_eq (encodedSize_eq k recs).symm), all_push,
      allowedHead good fun off n high => inside off n (by omega), List.forall_mem_singleton]
    unfold Rec.ArmGood
    constructor
    · rintro ⟨slots, -, ⟨-, arms⟩, before⟩
      exact ⟨⟨fun r member => (arms r member).2, slots⟩, before⟩
    · rintro ⟨⟨bodies, slots⟩, before⟩
      exact ⟨slots, magicGood, ⟨magicGood, fun r member => ⟨headers r member, bodies r member⟩⟩,
        before⟩
  · intro fits word i seg found
    have held := holds fits word i seg found
    rwa [Nat.zero_add] at held

end

end CviRuntime.Dmabuf
