import Mathlib.Data.List.Forall2
import CviRuntime.Dmabuf.Convert

/-!
# Encoding well-formed command buffers

A well-formed command buffer is a row of records that ends where the buffer ends, with bodies
of the sizes the slots have. Its encoding has the descriptors of every segment in order, as
long as the sizes fit into the 32-bit fields of the header and the segment table; the size
written is the size computed beforehand.
-/

namespace CviRuntime.Dmabuf

open ByteMem

section

variable (k : KernelHeaders) (cmdbuf : Nat → UInt8) (sz : Nat)

/-- A row of records from a position up to the end of the buffer. -/
inductive Row : Nat → List Rec → Prop
  | nil : Row sz []
  | cons {off : Nat} {recs : List Rec} (magic : magicAt k cmdbuf off = k.magic180X)
      (known : (recAt k cmdbuf off).Known k) (rest : Row ((recAt k cmdbuf off).next k) recs) :
      Row off (recAt k cmdbuf off :: recs)

structure WellFormed (recs : List Rec) : Prop where
  nonempty : recs ≠ []
  row : Row k cmdbuf sz 0 recs
  tiuLen : ∀ r ∈ recs, r.engine = k.tiu → r.len = k.bdRegBytes
  tdmaLen : ∀ r ∈ recs, r.engine = k.tdma → r.len ≤ k.gdmaDescAlignSize
  cpuLen : ∀ r ∈ recs, r.engine = k.cpu → r.len = k.armBytes
  small : ∀ seg ∈ segments k recs, Small k seg

/-- A write below a bound. -/
def Access.Below (n : Nat) : Access → Prop
  | .write off count => off + count ≤ n
  | _ => True

/-- The segments of an encoded buffer, walked in order, hold the descriptors of the segments
    of the records. -/
structure Preserved (recs : List Rec) (m : Nat → UInt8) : Prop where
  tiu : (List.range (read32 m 8)).map (walkTiu k m) = (segments k recs).map (sentTiu k cmdbuf)
  tdma : List.Forall₂ (List.Forall₂ (· <+: ·)) ((segments k recs).map (sentTdma k cmdbuf))
    ((List.range (read32 m 8)).map (walkTdma k m))

end

section

variable {k : KernelHeaders} {cmdbuf m : Nat → UInt8} {sz off : Nat} {recs : List Rec}

theorem Row.le (row : Row k cmdbuf sz off recs) : off ≤ sz := by
  induction row with
  | nil => exact Nat.le_refl _
  | @cons off recs _ _ _ ih =>
    have ahead := Rec.lt_next (k := k) (r := recAt k cmdbuf off)
    have position : (recAt k cmdbuf off).off = off := rfl
    omega

theorem Row.head {r : Rec} (row : Row k cmdbuf sz off (r :: recs)) :
    off < sz ∧ magicAt k cmdbuf off = k.magic180X := by
  cases row with
  | cons magic _ rest =>
    have ahead := Rec.lt_next (k := k) (r := recAt k cmdbuf off)
    exact ⟨Nat.lt_of_lt_of_le ahead rest.le, magic⟩

/-- The encoder meets the records of a row. -/
theorem Row.met (row : Row k cmdbuf sz off recs) (nonempty : recs ≠ []) :
    Met k cmdbuf sz (some off) recs true := by
  induction row with
  | nil => exact absurd rfl nonempty
  | @cons off recs _ known rest ih =>
    cases recs with
    | nil =>
      generalize position : (recAt k cmdbuf off).next k = next at rest
      cases rest
      exact .step known (follow_none_of_le (Nat.le_of_eq position.symm)) .done
    | cons r recs =>
      obtain ⟨before, magicNext⟩ := rest.head
      have found : follow k cmdbuf sz (recAt k cmdbuf off) =
          some (some ((recAt k cmdbuf off).next k)) := by
        rw [follow, if_neg (by omega), if_pos magicNext]
      exact .step known found (ih (List.cons_ne_nil _ _))

theorem WellFormed.magic (wf : WellFormed k cmdbuf sz recs) : magicAt k cmdbuf 0 = k.magic180X := by
  obtain ⟨nonempty, row, -⟩ := wf
  cases row with
  | nil => exact absurd rfl nonempty
  | cons magic _ _ => exact magic

theorem WellFormed.met (wf : WellFormed k cmdbuf sz recs) : Met k cmdbuf sz (some 0) recs true :=
  wf.row.met wf.nonempty

theorem WellFormed.fits (wf : WellFormed k cmdbuf sz recs) : ∀ r ∈ recs, r.Fits k :=
  fun r member => ⟨wf.tiuLen r member, wf.tdmaLen r member⟩

theorem preserved_of_holds (number : read32 m 8 = (segments k recs).length)
    (holds : ∀ i seg, (segments k recs)[i]? = some seg → SegmentHolds k cmdbuf m i seg) :
    Preserved k cmdbuf recs m := by
  constructor
  · apply List.ext_getElem
    · simp [number]
    · intro i _ small
      have inside : i < (segments k recs).length := by simpa using small
      simpa using (holds i _ (List.getElem?_eq_getElem inside)).tiu
  · rw [List.forall₂_iff_get]
    refine ⟨by simp [number], ?_⟩
    intro i small _
    have inside : i < (segments k recs).length := by simpa using small
    simpa using (holds i _ (List.getElem?_eq_getElem inside)).tdma

section

variable {good : Access → Prop} {limit stride : Nat}

/-- Bodies no longer than their slots are copied within the slots. -/
theorem strideGood_of_len (inside : ∀ off n, off + n ≤ limit → good (.write off n))
    (bodies : ∀ r ∈ recs, good (.read (r.off + k.hdrBytes) r.len))
    (short : ∀ r ∈ recs, r.len ≤ stride)
    (room : off + recs.length * stride ≤ limit) : StrideGood k good stride off recs := by
  induction recs generalizing off with
  | nil => trivial
  | cons r recs ih =>
    obtain ⟨body, bodiesRest⟩ := List.forall_mem_cons.mp bodies
    obtain ⟨shortHead, shortRest⟩ := List.forall_mem_cons.mp short
    rw [List.length_cons, Nat.succ_mul] at room
    exact ⟨body, inside _ _ (by omega), ih bodiesRest shortRest (by omega)⟩

theorem mem_ofEngine {engine : Nat} {r : Rec} :
    r ∈ ofEngine engine recs ↔ r ∈ recs ∧ r.engine = engine := by
  simp [ofEngine]

theorem segsGood_of_len {segs : List (List Rec)} {tiuOffset tdmaOffset : Nat}
    (inside : ∀ off n, off + n ≤ limit → good (.write off n))
    (bodies : ∀ r ∈ segs.flatten, r.engine ≠ k.cpu → good (.read (r.off + k.hdrBytes) r.len))
    (tiuShort : ∀ r ∈ segs.flatten, r.engine = k.tiu → r.len ≤ k.bdRegBytes)
    (tdmaShort : ∀ r ∈ segs.flatten, r.engine = k.tdma → r.len ≤ k.gdmaDescAlignSize)
    (tiuRoom : tiuExtent k tiuOffset segs ≤ limit)
    (tdmaRoom : tdmaOffset + countOf k.tdma segs.flatten * k.gdmaDescAlignSize ≤ limit) :
    SegsGood k good tiuOffset tdmaOffset segs := by
  induction segs generalizing tiuOffset tdmaOffset with
  | nil => trivial
  | cons seg segs ih =>
    rw [List.flatten_cons, List.forall_mem_append] at bodies tiuShort tdmaShort
    rw [List.flatten_cons, countOf_append, Nat.add_mul] at tdmaRoom
    rw [tiuExtent_cons] at tiuRoom
    have grown := le_growTiu k tiuOffset (countOf k.tiu seg)
    have rest := le_tiuExtent k (growTiu k tiuOffset (countOf k.tiu seg)) segs
    refine ⟨⟨?_, ?_⟩, ih bodies.2 tiuShort.2 tdmaShort.2 tiuRoom (by omega)⟩
    · apply strideGood_of_len inside
      · intro r member
        obtain ⟨inSeg, tiu⟩ := mem_ofEngine.mp member
        exact bodies.1 r inSeg (by rw [tiu]; exact k.tiu_ne_cpu)
      · intro r member
        obtain ⟨inSeg, tiu⟩ := mem_ofEngine.mp member
        exact tiuShort.1 r inSeg tiu
      · rw [length_ofEngine]
        omega
    · apply strideGood_of_len inside
      · intro r member
        obtain ⟨inSeg, tdma⟩ := mem_ofEngine.mp member
        exact bodies.1 r inSeg (by rw [tdma]; exact k.tdma_ne_cpu)
      · intro r member
        obtain ⟨inSeg, tdma⟩ := mem_ofEngine.mp member
        exact tdmaShort.1 r inSeg tdma
      · rw [length_ofEngine]
        omega

/-- The slots of all records lie below the size of the encoded buffer. -/
theorem slotsGood_of_len (inside : ∀ off n, off + n ≤ encodedSize k recs → good (.write off n))
    (bodies : ∀ r ∈ recs, r.engine ≠ k.cpu → good (.read (r.off + k.hdrBytes) r.len))
    (tiuShort : ∀ r ∈ recs, r.engine = k.tiu → r.len ≤ k.bdRegBytes)
    (tdmaShort : ∀ r ∈ recs, r.engine = k.tdma → r.len ≤ k.gdmaDescAlignSize) :
    SegsGood k good (tiuStart k (segments k recs)) (tdmaStart k (segments k recs))
      (segments k recs) := by
  have extent := tiuExtent_tiuStart (k := k) (segments k recs)
  have total := encodedSize_eq k recs
  rw [← segments_flatten k recs] at bodies tiuShort tdmaShort
  apply segsGood_of_len inside bodies tiuShort tdmaShort
  · omega
  · rw [segments_flatten, total]

end

end

/-! ## A buffer of CPU records -/

/-- One setting of the kernel headers: a header of 8 bytes with the magic number, the length
    and the engine id in its first three bytes. -/
def kernel1822 : KernelHeaders where
  hdrBytes := 8
  magicField := (0, 1)
  lenField := (1, 1)
  engineField := (2, 1)
  magicOf := leNat
  engineOf bytes := leNat bytes % 16
  lenOf := leNat
  magic180X := 0xA8
  engineNum := 3
  tiu := 0
  tdma := 1
  cpu := 2
  bdLines := 7
  tdmaRegBytes := 64
  bdcAlignedBit := 8
  tdmaAlignedBit := 6
  cpuStrLimit := 56
  cpuOpSync := 0
  tdmaEodBit := 2
  tdmaInterruptBit := 3
  tdmaBarrierEnableBit := 4
  tiuCmdId bytes := leNat (bytes.take 4) / 8 % 65536
  tdmaCmdId bytes := leNat (bytes.take 4) / 65536
  tiuSetEnd bytes := orBit (orBit bytes 1) 35
  hdr_pos := by decide
  magic_inside := by decide
  engine_inside := by decide
  len_inside := by decide
  tiu_lt := by decide
  tdma_lt := by decide
  cpu_lt := by decide
  tiu_ne_tdma := by decide
  tiu_ne_cpu := by decide
  tdma_ne_cpu := by decide
  bdLines_pos := by decide
  tdmaAlignedBit_two := by decide
  tdmaEodBit_lt := by decide
  tdmaInterruptBit_lt := by decide
  tdmaBarrierEnableBit_lt := by decide
  tiuSetEnd_length := by simp [orBit]

/-- A TIU record, and from then on CPU records. -/
def tiuThenCpu (a : Nat) : UInt8 :=
  if a < 120 then if a = 0 then 0xA8 else if a = 1 then 112 else 0
  else
    let i := (a - 120) % 92
    if i = 0 then 0xA8 else if i = 1 then 84 else if i = 2 then 2 else 0

/-- The first CPU records of `tiuThenCpu`, from number `first` on. -/
def cpuRecords (first n : Nat) : List Rec :=
  (List.range' first n).map fun i => recAt kernel1822 tiuThenCpu (120 + 92 * i)

theorem tiuThenCpu_cpu (i d : Nat) (small : d < 92) : tiuThenCpu (120 + 92 * i + d) =
    if d = 0 then 0xA8 else if d = 1 then 84 else if d = 2 then 2 else 0 := by
  have behind : ¬120 + 92 * i + d < 120 := by omega
  have place : (120 + 92 * i + d - 120) % 92 = d := by omega
  simp only [tiuThenCpu, behind, if_false, place]

theorem magicAt_cpu (i : Nat) :
    magicAt kernel1822 tiuThenCpu (120 + 92 * i) = kernel1822.magic180X := by
  show leNat [tiuThenCpu (120 + 92 * i + 0)] = 0xA8
  rw [tiuThenCpu_cpu i 0 (by decide)]
  rfl

theorem recAt_cpu_engine (i : Nat) :
    (recAt kernel1822 tiuThenCpu (120 + 92 * i)).engine = kernel1822.cpu := by
  show leNat [tiuThenCpu (120 + 92 * i + 2)] % 16 = 2
  rw [tiuThenCpu_cpu i 2 (by decide)]
  rfl

theorem recAt_cpu_len (i : Nat) : (recAt kernel1822 tiuThenCpu (120 + 92 * i)).len = 84 := by
  show leNat [tiuThenCpu (120 + 92 * i + 1)] = 84
  rw [tiuThenCpu_cpu i 1 (by decide)]
  rfl

theorem recAt_cpu_next (i : Nat) :
    (recAt kernel1822 tiuThenCpu (120 + 92 * i)).next kernel1822 = 120 + 92 * (i + 1) := by
  rw [Rec.next, recAt_cpu_len]
  show 120 + 92 * i + 84 + 8 = _
  omega

theorem cpuRecords_succ (first n : Nat) : cpuRecords first (n + 1) =
    recAt kernel1822 tiuThenCpu (120 + 92 * first) :: cpuRecords (first + 1) n := by
  simp [cpuRecords, List.range'_succ]

theorem cpuRecords_engine {first n : Nat} :
    ∀ r ∈ cpuRecords first n, r.engine = kernel1822.cpu := by
  intro r member
  obtain ⟨i, -, rfl⟩ := List.mem_map.mp member
  exact recAt_cpu_engine i

theorem cpuRecords_len {first n : Nat} : ∀ r ∈ cpuRecords first n, r.len = 84 := by
  intro r member
  obtain ⟨i, -, rfl⟩ := List.mem_map.mp member
  exact recAt_cpu_len i

theorem row_cpuRecords (first n : Nat) :
    Row kernel1822 tiuThenCpu (120 + 92 * (first + n)) (120 + 92 * first) (cpuRecords first n) := by
  induction n generalizing first with
  | zero => exact .nil
  | succ n ih =>
    rw [cpuRecords_succ]
    refine .cons (magicAt_cpu first) (Or.inr (Or.inr (recAt_cpu_engine first))) ?_
    rw [recAt_cpu_next, show first + (n + 1) = first + 1 + n by omega]
    exact ih (first + 1)

/-- CPU records are a segment each. -/
theorem segmentsFrom_length_of_cpu {k : KernelHeaders} {pend recs : List Rec}
    (cpu : ∀ r ∈ recs, r.engine = k.cpu) : (segmentsFrom k pend recs).length = recs.length := by
  induction recs generalizing pend with
  | nil => rfl
  | cons r recs ih =>
    obtain ⟨isCpu, rest⟩ := List.forall_mem_cons.mp cpu
    rw [segmentsFrom_closes (Or.inl isCpu), List.length_cons, List.length_cons, ih rest]

/-- The records of a TIU record followed by `n` CPU records. -/
def tiuThenCpuRecords (n : Nat) : List Rec := recAt kernel1822 tiuThenCpu 0 :: cpuRecords 0 n

theorem countOf_le_flatten (engine : Nat) {seg : List Rec} {segs : List (List Rec)}
    (member : seg ∈ segs) :
    countOf engine seg ≤ countOf engine segs.flatten :=
  List.Sublist.countP_le (List.sublist_flatten_of_mem member)

theorem countOf_eq_zero {engine : Nat} {recs : List Rec} (none : ∀ r ∈ recs, r.engine ≠ engine) :
    countOf engine recs = 0 := by
  rw [← length_ofEngine, ofEngine_eq_nil none]
  rfl

theorem countOf_tiuThenCpu (n : Nat) : countOf kernel1822.tiu (tiuThenCpuRecords n) = 1 ∧
    countOf kernel1822.tdma (tiuThenCpuRecords n) = 0 := by
  have engine : (recAt kernel1822 tiuThenCpu 0).engine = kernel1822.tiu := by decide
  have none {e : Nat} (other : kernel1822.cpu ≠ e) : countOf e (cpuRecords 0 n) = 0 := by
    apply countOf_eq_zero
    intro r member
    rwa [cpuRecords_engine r member]
  constructor
  · rw [tiuThenCpuRecords, countOf_cons, none (by decide), engine, if_pos rfl]
  · rw [tiuThenCpuRecords, countOf_cons, none (by decide), engine, if_neg (by decide)]

theorem wellFormed_tiuThenCpu (n : Nat) :
    WellFormed kernel1822 tiuThenCpu (120 + 92 * n) (tiuThenCpuRecords n) := by
  have engine : (recAt kernel1822 tiuThenCpu 0).engine = kernel1822.tiu := by decide
  have length : (recAt kernel1822 tiuThenCpu 0).len = 112 := by decide
  obtain ⟨oneTiu, noTdma⟩ := countOf_tiuThenCpu n
  refine ⟨List.cons_ne_nil _ _, ?_, ?_, ?_, ?_, ?_⟩
  · refine .cons (by decide) (Or.inl engine) ?_
    have next : (recAt kernel1822 tiuThenCpu 0).next kernel1822 = 120 + 92 * 0 := by decide
    rw [next, show 120 + 92 * n = 120 + 92 * (0 + n) by omega]
    exact row_cpuRecords 0 n
  · intro r member tiu
    rcases List.mem_cons.mp member with rfl | later
    · exact length
    · rw [cpuRecords_engine r later] at tiu
      exact absurd tiu.symm kernel1822.tiu_ne_cpu
  · intro r member tdma
    rcases List.mem_cons.mp member with rfl | later
    · rw [engine] at tdma
      exact absurd tdma kernel1822.tiu_ne_tdma
    · rw [cpuRecords_engine r later] at tdma
      exact absurd tdma.symm kernel1822.tdma_ne_cpu
  · intro r member cpu
    rcases List.mem_cons.mp member with rfl | later
    · rw [engine] at cpu
      exact absurd cpu kernel1822.tiu_ne_cpu
    · exact cpuRecords_len r later
  · intro seg member
    have tiu := countOf_le_flatten kernel1822.tiu member
    have tdma := countOf_le_flatten kernel1822.tdma member
    rw [segments_flatten] at tiu tdma
    constructor <;> omega

theorem segments_tiuThenCpu (n : Nat) (some : 0 < n) :
    (segments kernel1822 (tiuThenCpuRecords n)).length = n := by
  have stays : ¬(recAt kernel1822 tiuThenCpu 0).Closes kernel1822 (cpuRecords 0 n) := by
    rintro (cpu | sync | last)
    · exact absurd cpu (by decide)
    · exact absurd sync (by decide)
    · have length := congrArg List.length last
      simp [cpuRecords] at length
      omega
  rw [segments, tiuThenCpuRecords, segmentsFrom_open stays,
    segmentsFrom_length_of_cpu cpuRecords_engine]
  simp [cpuRecords]

/-- Few records make small segments. -/
theorem small_of_few {k : KernelHeaders} {recs : List Rec} (few : recs.length < 65536) :
    ∀ seg ∈ segments k recs, Small k seg := by
  intro seg member
  have count (engine : Nat) : countOf engine seg ≤ recs.length := by
    have inAll := countOf_le_flatten engine member
    rw [segments_flatten] at inAll
    exact Nat.le_trans inAll List.countP_le_length
  have tiu := count k.tiu
  have tdma := count k.tdma
  exact ⟨by omega, by omega⟩

/-- A TIU, a TDMA and a CPU record, which are a segment, and another TDMA and TIU record. -/
def mixed (magic : UInt8) (a : Nat) : UInt8 :=
  if a = 0 ∨ a = 120 ∨ a = 192 ∨ a = 284 ∨ a = 356 then magic
  else if a = 1 ∨ a = 357 then 112 else if a = 121 ∨ a = 285 then 64 else if a = 193 then 84
  else if a = 122 ∨ a = 286 ∨ a = 130 then 1 else if a = 194 ∨ a = 294 then 2
  else if a = 8 then 8 else if a = 364 then 16 else 0

/-- The first `n` of the records. -/
def mixedRecords (magic : UInt8) (n : Nat) : List Rec :=
  ([0, 120, 192, 284, 356].take n).map (recAt kernel1822 (mixed magic))

theorem wellFormed_mixed : WellFormed kernel1822 (mixed 0xA8) 476 (mixedRecords 0xA8 5) := by
  refine ⟨by decide, ?_, by decide, by decide, by decide, small_of_few (by decide)⟩
  exact .cons (by decide) (by decide) (.cons (by decide) (by decide) (.cons (by decide) (by decide)
    (.cons (by decide) (by decide) (.cons (by decide) (by decide) .nil))))

theorem wellFormed_mixed_first :
    WellFormed kernel1822 (mixed 0xA8) 284 (mixedRecords 0xA8 3) := by
  refine ⟨by decide, ?_, by decide, by decide, by decide, small_of_few (by decide)⟩
  exact .cons (by decide) (by decide) (.cons (by decide) (by decide)
    (.cons (by decide) (by decide) .nil))

theorem segments_mixed : (segments kernel1822 (mixedRecords 0xA8 5)).length = 2 := by decide

theorem segments_mixed_first : (segments kernel1822 (mixedRecords 0xA8 3)).length = 1 := by decide

theorem encodedSize_mixed : encodedSize kernel1822 (mixedRecords 0xA8 5) = 1152 := by decide

theorem encodedSize_mixed_first : encodedSize kernel1822 (mixedRecords 0xA8 3) = 576 := by decide

theorem fillLoop_done {k : KernelHeaders} {cmdbuf : Nat → UInt8} {sz fuel i : Nat} {c : Cursor}
    {s : Buffers} (done : read32 s.dmabuf 8 ≤ i) (enough : 0 < fuel) :
    fillLoop k cmdbuf sz fuel i c s = .ok () s := by
  obtain ⟨fuel, rfl⟩ : ∃ fuel', fuel = fuel' + 1 := ⟨fuel - 1, by omega⟩
  simp only [fillLoop, bind_apply, readDma32_apply]
  rw [if_neg (by omega), pure_apply]

/-- A multiple of `2 ^ 32` segments has the count zero in the header. -/
theorem not_preserved_of_wrap {n : Nat} (some : 0 < n) (wraps : n % 2 ^ 32 = 0) :
    ∃ s', dmabufConvert kernel1822 tiuThenCpu (120 + 92 * n) ⟨fun _ => 0, []⟩ = .ok () s' ∧
      ¬Preserved kernel1822 tiuThenCpu (tiuThenCpuRecords n) s'.dmabuf := by
  have wf := wellFormed_tiuThenCpu n
  obtain ⟨s₁, runsHead, -, -, number, -⟩ := fillHeaderAndArm_apply wf.magic wf.met ⟨fun _ => 0, []⟩
  rw [segments_tiuThenCpu n some, wraps] at number
  have none : read32 (s₁.push [magicAccess kernel1822 0]).dmabuf 8 ≤ 0 := Nat.le_of_eq number
  refine ⟨s₁.push [magicAccess kernel1822 0], ?_, ?_⟩
  · simp only [dmabufConvert, bind_apply, runsHead, fillBdAndTdma, traverseStart_apply, wf.magic,
      if_true, fillLoop_done none (Nat.two_pow_pos 32)]
  · intro preserved
    have walked := congrArg List.length preserved.tiu
    rw [List.length_map, List.length_map, push_dmabuf, number, List.length_range,
      segments_tiuThenCpu n some] at walked
    omega

/-! ## Preservation and size -/

section

variable {k : KernelHeaders} {cmdbuf : Nat → UInt8} {sz : Nat} {recs : List Rec}

/-- Encoding loses no descriptor, doubles none and moves none to another segment: the walk
    over the segments of the output gives the TIU and the TDMA records in order, their bodies
    adjusted by `adjust_desc_bd` and `adjust_desc_tdma` only. -/
theorem dmabufConvert_preserves (wf : WellFormed k cmdbuf sz recs)
    (word : encodedSize k recs < 2 ^ 32)
    (s : Buffers) :
    ∃ s', dmabufConvert k cmdbuf sz s = .ok () s' ∧ (segments k recs).flatten = recs ∧
      read32 s'.dmabuf 8 = (segments k recs).length ∧ Preserved k cmdbuf recs s'.dmabuf := by
  have few := segments_length_lt k recs
  obtain ⟨s', runs, -, number, -, holds⟩ :=
    dmabufConvert_apply s wf.magic wf.met wf.small (by omega)
  exact ⟨s', runs, segments_flatten k recs, number, preserved_of_holds number (holds wf.fits word)⟩

theorem dmabufConvert_preserves_mixed :
    WellFormed kernel1822 (mixed 0xA8) 476 (mixedRecords 0xA8 5) ∧
    ∃ s', dmabufConvert kernel1822 (mixed 0xA8) 476 ⟨fun _ => 0, []⟩ = .ok () s' ∧
      (segments kernel1822 (mixedRecords 0xA8 5)).flatten = mixedRecords 0xA8 5 ∧
      read32 s'.dmabuf 8 = 2 ∧ Preserved kernel1822 (mixed 0xA8) (mixedRecords 0xA8 5) s'.dmabuf := by
  have word : encodedSize kernel1822 (mixedRecords 0xA8 5) < 2 ^ 32 := by
    rw [encodedSize_mixed]
    decide
  refine ⟨wellFormed_mixed, ?_⟩
  rw [← segments_mixed]
  exact dmabufConvert_preserves wellFormed_mixed word ⟨fun _ => 0, []⟩

/-- With `2 ^ 32` segments the encoding succeeds, and its segments hold nothing of the TIU
    record. -/
theorem dmabufConvert_loses_tiu :
    WellFormed kernel1822 tiuThenCpu (120 + 92 * 2 ^ 32) (tiuThenCpuRecords (2 ^ 32)) ∧
      ∃ s', dmabufConvert kernel1822 tiuThenCpu (120 + 92 * 2 ^ 32) ⟨fun _ => 0, []⟩ = .ok () s' ∧
        ¬Preserved kernel1822 tiuThenCpu (tiuThenCpuRecords (2 ^ 32)) s'.dmabuf :=
  ⟨wellFormed_tiuThenCpu (2 ^ 32), not_preserved_of_wrap (Nat.two_pow_pos 32) (Nat.mod_self _)⟩

/-- The sizing pass and the encoding agree: the size is the one in the header, and nothing is
    written from there on. -/
theorem dmabufSize_agrees (wf : WellFormed k cmdbuf sz recs) (word : encodedSize k recs < 2 ^ 32)
    (s : Buffers) (dmabuf : Nat → UInt8) :
    ∃ n pmu s₁ s', n = encodedSize k recs ∧ dmabufSize k cmdbuf sz s = .ok (n, pmu) s₁ ∧
      dmabufConvert k cmdbuf sz ⟨dmabuf, []⟩ = .ok () s' ∧ read32 s'.dmabuf 4 = n ∧
      ∀ off count, .write off count ∈ s'.log → off + count ≤ n := by
  obtain ⟨accesses, pmu, -, sized⟩ := dmabufSize_apply s wf.met
  rw [if_pos ⟨wf.magic, rfl⟩] at sized
  have few := segments_length_lt k recs
  obtain ⟨s', runs, size, -, allowed, -⟩ :=
    dmabufConvert_apply ⟨dmabuf, []⟩ wf.magic wf.met wf.small (by omega)
  rw [Nat.mod_eq_of_lt word] at size
  have headers : ∀ r ∈ recs, r.HeaderGood k sz (Access.Below (encodedSize k recs)) := fun r _ =>
    ⟨trivial, trivial, fun _ => trivial, fun _ => trivial, fun _ => trivial, fun _ _ => trivial⟩
  have slots : SegsGood k (Access.Below (encodedSize k recs)) (tiuStart k (segments k recs))
      (tdmaStart k (segments k recs)) (segments k recs) :=
    slotsGood_of_len (fun _ _ le => le) (fun _ _ _ => trivial)
      (fun r member tiu => Nat.le_of_eq (wf.tiuLen r member tiu)) wf.tdmaLen
  have below := (allowed (Access.Below (encodedSize k recs)) (fun _ _ le => le) trivial headers).mpr
    ⟨⟨fun _ _ _ => trivial, slots⟩, all_nil dmabuf⟩
  refine ⟨encodedSize k recs, pmu, s.push accesses, s', rfl, sized, runs, size, ?_⟩
  intro off count written
  exact below _ written

theorem dmabufSize_agrees_mixed : WellFormed kernel1822 (mixed 0xA8) 476 (mixedRecords 0xA8 5) ∧
    ∃ n pmu s₁ s', n = 1152 ∧
      dmabufSize kernel1822 (mixed 0xA8) 476 ⟨fun _ => 0, []⟩ = .ok (n, pmu) s₁ ∧
      dmabufConvert kernel1822 (mixed 0xA8) 476 ⟨fun _ => 0, []⟩ = .ok () s' ∧
        read32 s'.dmabuf 4 = n ∧
      ∀ off count, .write off count ∈ s'.log → off + count ≤ n := by
  have word : encodedSize kernel1822 (mixedRecords 0xA8 5) < 2 ^ 32 := by
    rw [encodedSize_mixed]
    decide
  refine ⟨wellFormed_mixed, ?_⟩
  rw [← encodedSize_mixed]
  exact dmabufSize_agrees wellFormed_mixed word ⟨fun _ => 0, []⟩ fun _ => 0

end

end CviRuntime.Dmabuf
