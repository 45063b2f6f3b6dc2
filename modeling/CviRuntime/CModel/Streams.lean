import CviRuntime.CModel.Reject
import CviRuntime.Dmabuf.Chips
import CviRuntime.Dmabuf.Relocate

/-!
# The descriptors that the 183x simulator runs

The simulator gets at the descriptors in two ways: from a command buffer, by `adjust_cmdbuf` and
`extract_cmdbuf`, or from the buffer that `cvi183x_dmabuf_convert` has made of it, by
`extract_dmabuf`. Both give the bodies of the records with the same changes; what differs is
which records are marked as the end: the last one of every segment, or of the whole buffer.
-/

namespace CviRuntime.CModel

open ByteMem Dmabuf

/-- What the two ways rely on in the kernel headers: setting `cmd_end` and `cmd_intr_en` one after
    the other is setting both, `reg.eod` is bit 2 of the first word, the bits have the places that
    the simulator has written out, and `TIU_DESC_REG_BYTES` is `BD_REG_BYTES`. -/
structure HeaderFacts (k : KernelHeaders) (regs : RegFields) : Prop where
  tiuEnd : ∀ bytes, bytes.length = k.bdRegBytes →
    regs.tiuCmdIntrEn (regs.tiuCmdEnd bytes) = k.tiuSetEnd bytes
  tdmaEod : ∀ bytes, bytes.length = k.tdmaRegBytes → regs.tdmaEod bytes = orBit bytes 2
  eodBit : k.tdmaEodBit = 2
  interruptBit : k.tdmaInterruptBit = 3
  barrierBit : k.tdmaBarrierEnableBit = 4
  word : 4 ≤ k.tdmaRegBytes
  tiuDesc : regs.tiuDescRegBytes = k.bdRegBytes

/-- A body filled up with zeros. -/
def padTo (n : Nat) (bytes : List UInt8) : List UInt8 :=
  bytes ++ List.replicate (n - bytes.length) 0

section

variable (k : KernelHeaders) (cmdbuf : Nat → UInt8)

/-- What is done to a body, which is marked as the end or not. -/
def Engine.adjust : Engine → List UInt8 → Bool → List UInt8
  | .tiu => adjustDescBd k
  | .tdma => adjustDescTdma k

/-- The size of a slot. -/
def Engine.stride : Engine → Nat
  | .tiu => k.bdRegBytes
  | .tdma => k.gdmaDescAlignSize

/-- The descriptors for an engine that some records give, the last one marked as the end. -/
def Engine.sent (engine : Engine) (recs : List Rec) : List (List UInt8) :=
  marked k cmdbuf (engine.adjust k) (ofEngine (engine.id k) recs)

/-- The slots that the segments give, one after the other and each with its own end. -/
def Engine.slotsSent (engine : Engine) (segs : List (List Rec)) : List (List UInt8) :=
  (segs.flatMap (engine.sent k cmdbuf)).map (padTo (engine.stride k))

end

/-! ## Lengths -/

section

variable {k : KernelHeaders} {cmdbuf : Nat → UInt8} {engine : Engine} {recs : List Rec}
  {segs : List (List Rec)} {adjust : List UInt8 → Bool → List UInt8} {n : Nat}
  {bytes : List UInt8} {blocks : List (List UInt8)}

theorem length_flatten_le (short : ∀ bytes ∈ blocks, bytes.length ≤ n) :
    blocks.flatten.length ≤ blocks.length * n := by
  induction blocks with
  | nil => simp
  | cons bytes blocks ih =>
    obtain ⟨here, rest⟩ := List.forall_mem_cons.mp short
    have later := ih rest
    rw [List.flatten_cons, List.length_append, List.length_cons, Nat.succ_mul]
    omega

theorem length_flatten_padTo (short : ∀ bytes ∈ blocks, bytes.length ≤ n) :
    (blocks.map (padTo n)).flatten.length = blocks.length * n := by
  induction blocks with
  | nil => simp
  | cons bytes blocks ih =>
    obtain ⟨here, rest⟩ := List.forall_mem_cons.mp short
    rw [List.map_cons, List.flatten_cons, List.length_append, ih rest, List.length_cons,
      Nat.succ_mul, padTo, List.length_append, List.length_replicate]
    omega

theorem padTo_of_length (all : bytes.length = n) : padTo n bytes = bytes := by
  rw [padTo, all, Nat.sub_self]
  simp

theorem length_marked : (marked k cmdbuf adjust recs).length = recs.length := by
  induction recs with
  | nil => rfl
  | cons r rest ih => rw [marked, List.length_cons, ih, List.length_cons]

theorem mem_marked (member : bytes ∈ marked k cmdbuf adjust recs) :
    ∃ r ∈ recs, ∃ eod, bytes = adjust (r.body k cmdbuf) eod := by
  induction recs with
  | nil => simp [marked] at member
  | cons r rest ih =>
    rw [marked] at member
    rcases List.mem_cons.mp member with rfl | later
    · exact ⟨r, List.mem_cons_self, _, rfl⟩
    · obtain ⟨r', inRest, eod, is⟩ := ih later
      exact ⟨r', List.mem_cons_of_mem _ inRest, eod, is⟩

/-- Descriptors fit their slots, and those for the TIU fill them. -/
theorem length_of_mem_sent (fits : ∀ r ∈ recs, r.Fits k)
    (member : bytes ∈ engine.sent k cmdbuf recs) :
    bytes.length ≤ engine.stride k ∧ (engine = .tiu → bytes.length = engine.stride k) := by
  obtain ⟨r, inEngine, eod, rfl⟩ := mem_marked member
  obtain ⟨inRecs, isEngine⟩ := mem_ofEngine.mp inEngine
  cases engine with
  | tiu =>
    have length : (Engine.tiu.adjust k (r.body k cmdbuf) eod).length = k.bdRegBytes := by
      rw [Engine.adjust, adjustDescBd_length, length_body]
      exact (fits r inRecs).1 isEngine
    exact ⟨Nat.le_of_eq length, fun _ => length⟩
  | tdma =>
    refine ⟨?_, by simp⟩
    rw [Engine.adjust, adjustDescTdma_length, length_body]
    exact (fits r inRecs).2 isEngine

/-- There is nothing to fill up in descriptors for the TIU. -/
theorem map_padTo_sent_tiu (fits : ∀ r ∈ recs, r.Fits k) :
    (Engine.tiu.sent k cmdbuf recs).map (padTo (Engine.tiu.stride k)) =
      Engine.tiu.sent k cmdbuf recs := by
  apply (List.map_congr_left _).trans (List.map_id _)
  intro bytes member
  exact padTo_of_length ((length_of_mem_sent fits member).2 rfl)

theorem length_sent : (engine.sent k cmdbuf recs).length = countOf (engine.id k) recs := by
  rw [Engine.sent, length_marked, length_ofEngine]

theorem length_flatten_sent_le (fits : ∀ r ∈ recs, r.Fits k) :
    (engine.sent k cmdbuf recs).flatten.length ≤ countOf (engine.id k) recs * engine.stride k := by
  rw [← length_sent]
  exact length_flatten_le fun bytes member => (length_of_mem_sent fits member).1

theorem length_sent_segments :
    (segs.flatMap (engine.sent k cmdbuf)).length = countOf (engine.id k) segs.flatten := by
  induction segs with
  | nil => simp
  | cons seg segs ih =>
    rw [List.flatMap_cons, List.length_append, ih, length_sent, List.flatten_cons, countOf_append]

/-- The bytes of all slots. -/
theorem length_slotsSent (fits : ∀ r ∈ segs.flatten, r.Fits k) :
    (engine.slotsSent k cmdbuf segs).flatten.length =
      countOf (engine.id k) segs.flatten * engine.stride k := by
  rw [Engine.slotsSent, length_flatten_padTo, length_sent_segments]
  intro bytes member
  obtain ⟨seg, inSegs, inSent⟩ := List.mem_flatMap.mp member
  refine (length_of_mem_sent ?_ inSent).1
  exact fun r inSeg => fits r (List.mem_flatten_of_mem inSegs inSeg)

/-- The slots of both engines and the table before them make up the encoded buffer. -/
theorem slots_le_encodedSize (k : KernelHeaders) (recs : List Rec) :
    countOf k.tiu recs * k.bdRegBytes + countOf k.tdma recs * k.gdmaDescAlignSize ≤
      encodedSize k recs := by
  have grows (size : Nat) (segs : List (List Rec)) :
      size + countOf k.tiu segs.flatten * k.bdRegBytes ≤ tiuExtent k size segs := by
    induction segs generalizing size with
    | nil => simp [tiuExtent]
    | cons seg segs ih =>
      have here := le_growTiu k size (countOf k.tiu seg)
      have rest := ih (growTiu k size (countOf k.tiu seg))
      rw [tiuExtent_cons, List.flatten_cons, countOf_append, Nat.add_mul]
      omega
  have tiu := grows (tiuStart k (segments k recs)) (segments k recs)
  have extent := tiuExtent_tiuStart (k := k) (segments k recs)
  rw [segments_flatten] at tiu
  rw [encodedSize_eq]
  omega

end

/-! ## From the command buffer -/

section

variable {k : KernelHeaders} {regs : RegFields} {cmdbuf : Nat → UInt8} {sz off n bit : Nat}
  {bytes : List UInt8} {recs : List Rec} {offs : List Nat}

theorem front_all {change : List UInt8 → List UInt8} (all : bytes.length = n) :
    front n change bytes = change bytes := by
  rw [front, ← all, List.take_length, List.drop_length, List.append_nil]

/-- A bit of the first bytes. -/
theorem front_orBit (inside : bit / 8 < n) : front n (orBit · bit) bytes = orBit bytes bit := by
  conv_rhs => rw [← List.take_append_drop n bytes]
  unfold front orBit
  rw [List.mapIdx_append]
  congr 1
  rcases Nat.lt_or_ge bytes.length n with short | long
  · rw [List.drop_eq_nil_of_le (Nat.le_of_lt short)]
    rfl
  · have behind (i : Nat) : ¬i + n = bit / 8 := by omega
    rw [List.length_take, Nat.min_eq_left long]
    simp only [behind, if_false]
    apply List.ext_getElem <;> simp

theorem adjustedBody_tiu (facts : HeaderFacts k regs) (tiu : (recAt k cmdbuf off).engine = k.tiu)
    (all : bytes.length = k.bdRegBytes) :
    adjustedBody k regs cmdbuf offs off bytes =
      adjustDescBd k bytes (decide ((positions k cmdbuf k.tiu offs).getLast? = some off)) := by
  unfold adjustedBody adjustDescBd
  rw [if_pos tiu, facts.tiuDesc]
  by_cases last : (positions k cmdbuf k.tiu offs).getLast? = some off
  · have ended : (regs.tiuCmdEnd bytes).length = k.bdRegBytes := by
      rw [regs.tiuCmdEnd_length, all]
    have marked : (k.tiuSetEnd bytes).length = k.bdRegBytes := by
      rw [k.tiuSetEnd_length, all]
    simp only [last, decide_true, if_true]
    rw [front_all all, front_all ended, facts.tiuEnd bytes all, front_all marked,
      reorderTiuCmdbufReg_eq facts.tiuDesc]
  · simp only [last, decide_false, if_false, Bool.false_eq_true]
    rw [front_all all, reorderTiuCmdbufReg_eq facts.tiuDesc]

theorem adjustedBody_tdma (facts : HeaderFacts k regs)
    (tdma : (recAt k cmdbuf off).engine = k.tdma) (holds : k.tdmaRegBytes ≤ bytes.length) :
    adjustedBody k regs cmdbuf offs off bytes =
      adjustDescTdma k bytes (decide ((positions k cmdbuf k.tdma offs).getLast? = some off)) := by
  have notTiu : ¬(recAt k cmdbuf off).engine = k.tiu := by
    rw [tdma]
    exact k.tiu_ne_tdma.symm
  have word := facts.word
  have regsOnly : regs.tdmaEod (bytes.take k.tdmaRegBytes) =
      orBit (bytes.take k.tdmaRegBytes) 2 := by
    apply facts.tdmaEod
    rw [List.length_take, Nat.min_eq_left holds]
  have eod : front k.tdmaRegBytes regs.tdmaEod bytes = orBit bytes 2 := by
    have bit : front k.tdmaRegBytes (orBit · 2) bytes = orBit bytes 2 := front_orBit (by omega)
    rw [← bit, front, regsOnly, front]
  unfold adjustedBody adjustDescTdma
  rw [if_neg notTiu, if_pos tdma, facts.eodBit, facts.interruptBit, facts.barrierBit]
  by_cases last : (positions k cmdbuf k.tdma offs).getLast? = some off
  · simp only [last, decide_true, if_true]
    rw [eod, front_orBit (by decide), front_orBit (by decide)]
  · simp only [last, decide_false, if_false, Bool.false_eq_true]
    rw [front_orBit (by decide)]

/-- Marking the last record is marking the one that has nothing behind it. -/
theorem marked_eq (adjust : List UInt8 → Bool → List UInt8) (once : (recs.map Rec.off).Nodup) :
    recs.map (fun r => adjust (r.body k cmdbuf)
        (decide ((recs.map Rec.off).getLast? = some r.off))) =
      marked k cmdbuf adjust recs := by
  induction recs with
  | nil => rfl
  | cons r rest ih =>
    obtain ⟨fresh, onceRest⟩ := List.nodup_cons.mp once
    rw [List.map_cons, marked, ← ih onceRest]
    cases rest with
    | nil => simp
    | cons r' rest =>
      have last : ((r :: r' :: rest).map Rec.off).getLast? =
          ((r' :: rest).map Rec.off).getLast? := by
        rw [List.map_cons, List.map_cons, List.getLast?_cons_cons]
      have notLast : ¬((r' :: rest).map Rec.off).getLast? = some r.off := by
        intro isLast
        exact fresh (List.mem_of_getLast? isLast)
      simp only [last, notLast, decide_false, List.isEmpty_cons]

/-- The positions of the records for an engine. -/
theorem positions_row (row : Row k cmdbuf sz off recs) (engine : Nat) :
    positions k cmdbuf engine (recs.map Rec.off) = (ofEngine engine recs).map Rec.off := by
  have found := row_recAt row
  unfold positions ofEngine
  rw [List.filter_map]
  congr 1
  apply List.filter_congr
  intro r member
  simp only [Function.comp_apply, found r member]

/-- A stream of the adjusted buffer, from what becomes of each body. -/
theorem stream_adjusted {m' : Nat → UInt8} {engine : Engine}
    {adjust : List UInt8 → Bool → List UInt8} (row : Row k cmdbuf sz 0 recs)
    (once : (recs.map Rec.off).Nodup)
    (rewritten : Rewritten k cmdbuf m' (recs.map Rec.off)
      (adjustedBody k regs cmdbuf (recs.map Rec.off)))
    (becomes : ∀ r ∈ ofEngine (engine.id k) recs,
      adjustedBody k regs cmdbuf (recs.map Rec.off) r.off (r.body k cmdbuf) =
        adjust (r.body k cmdbuf) (decide
          ((positions k cmdbuf (engine.id k) (recs.map Rec.off)).getLast? = some r.off))) :
    stream k m' engine (recs.map Rec.off) =
      (marked k cmdbuf adjust (ofEngine (engine.id k) recs)).flatten := by
  have onceEngine : ((ofEngine (engine.id k) recs).map Rec.off).Nodup :=
    once.sublist ((List.filter_sublist).map Rec.off)
  rw [stream, positions_congr rewritten.heads, positions_row row, ← marked_eq adjust onceEngine,
    List.flatMap_def, List.map_map]
  congr 1
  apply List.map_congr_left
  intro r member
  have inRecs := (mem_ofEngine.mp member).1
  have body : bodyAt k cmdbuf r.off = r.body k cmdbuf := by
    rw [bodyAt, row_recAt row r inRecs]
  rw [Function.comp_apply, rewritten.bodies r.off (List.mem_map_of_mem inRecs), body,
    becomes r member, positions_row row]

/-- The registers that the simulator changes are those of well-formed records. -/
theorem room_of_wellFormed (facts : HeaderFacts k regs) (wf : WellFormed k cmdbuf sz recs)
    (tdmaRegs : ∀ r ∈ recs, r.engine = k.tdma → k.tdmaRegBytes ≤ r.len) :
    ∀ r ∈ recs, Room k r := by
  intro r member
  refine ⟨?_, ?_⟩
  · intro tiu
    exact Nat.le_of_eq (wf.tiuLen r member tiu).symm
  · intro tdma
    have holds := tdmaRegs r member tdma
    exact ⟨holds, Nat.le_trans facts.word holds⟩

/-- What `adjust_cmdbuf` and `extract_cmdbuf` give for a well-formed command buffer. -/
theorem extract_adjusted (facts : HeaderFacts k regs) (wf : WellFormed k cmdbuf sz recs)
    (tdmaRegs : ∀ r ∈ recs, r.engine = k.tdma → k.tdmaRegBytes ≤ r.len) (word : sz < 2 ^ 32) :
    ∃ m', (∀ fuel, recs.length < fuel → adjustCmdbuf k regs cmdbuf sz fuel = some m') ∧
      ∀ engine : Engine, (engine.sent k cmdbuf recs).flatten.length < 2 ^ 31 →
      ∀ (base : Nat) (out : Nat → UInt8) (fuel : Nat), recs.length < fuel →
        extractCmdbuf k k.magic180X engine m' sz base out fuel =
          some ⟨(engine.sent k cmdbuf recs).flatten.length,
            writeBytes out base (engine.sent k cmdbuf recs).flatten⟩ := by
  have span := span_of_row wf.row (room_of_wellFormed facts wf tdmaRegs)
  obtain ⟨m', adjusts, rewritten⟩ := span.adjustCmdbuf_rewritten facts.tiuDesc word (row_known wf.row)
  refine ⟨m', by simpa using adjusts, ?_⟩
  intro engine small base out fuel enough
  have good : ∀ off ∈ recs.map Rec.off, magicAt k m' off = k.magic180X := by
    intro off member
    rw [rewritten.heads.magic member]
    exact row_magic wf.row off member
  have streams : stream k m' engine (recs.map Rec.off) =
      (engine.sent k cmdbuf recs).flatten := by
    cases engine with
    | tiu =>
      apply stream_adjusted wf.row span.nodup rewritten
      intro r member
      obtain ⟨inRecs, tiu⟩ := mem_ofEngine.mp member
      refine adjustedBody_tiu facts ?_ ?_
      · rw [row_recAt wf.row r inRecs]
        exact tiu
      · rw [length_body]
        exact wf.tiuLen r inRecs tiu
    | tdma =>
      apply stream_adjusted wf.row span.nodup rewritten
      intro r member
      obtain ⟨inRecs, tdma⟩ := mem_ofEngine.mp member
      refine adjustedBody_tdma facts ?_ ?_
      · rw [row_recAt wf.row r inRecs]
        exact tdma
      · rw [length_body]
        exact tdmaRegs r inRecs tdma
  have runs : runBody (extractBody k k.magic180X engine m' base) (recs.map Rec.off)
      ⟨(0 : Nat), out⟩ =
      .next ⟨(0 + (stream k m' engine (recs.map Rec.off)).length : Nat),
        writeBytes out (base + 0) (stream k m' engine (recs.map Rec.off))⟩ :=
    runBody_extract good (by rw [streams]; omega)
  rw [streams, Nat.zero_add, Nat.add_zero, Int.natCast_zero] at runs
  rw [extractCmdbuf, eachRecord_span (span.congr rewritten.heads) word (local_const k m' _)
    (by simpa using enough), runs, Flow.result_next]

end

/-! ## From the encoded buffer -/

section

variable {k : KernelHeaders} {cmdbuf m out : Nat → UInt8} {sz off i n at' : Nat} {engine : Engine}
  {recs seg : List Rec} {segs : List (List Rec)} {eod : Bool}

theorem flatten_readSlots (stride n : Nat) :
    (readSlots m stride off n).flatten = readBytes m off (n * stride) := by
  induction n generalizing off with
  | zero => simp [readSlots, readBytes]
  | succ n ih =>
    rw [readSlots, List.flatten_cons, ih, Nat.succ_mul, Nat.add_comm (n * stride), readBytes_add]

/-- `adjust_desc_tdma` leaves what is behind the first word. -/
theorem adjustDescTdma_append {bytes rest : List UInt8} (word : 4 ≤ bytes.length) :
    adjustDescTdma k (bytes ++ rest) eod = adjustDescTdma k bytes eod ++ rest := by
  obtain ⟨f, is, rear⟩ := adjustDescTdma_eq k eod
  rw [is, is, List.mapIdx_append]
  congr 1
  have kept (i : Nat) (byte : UInt8) : f (i + bytes.length) byte = byte :=
    rear _ byte (by omega)
  apply List.ext_getElem
  · simp
  · intro i _ _
    simp [kept]

/-- In a buffer of zeros the slots are the bodies filled up. -/
theorem tdmaSlots_zero (zero : ∀ a, off ≤ a → m a = 0)
    (fits : ∀ r ∈ recs, r.len ≤ k.gdmaDescAlignSize) (word : ∀ r ∈ recs, 4 ≤ r.len) :
    tdmaSlots k cmdbuf m off recs =
      (marked k cmdbuf (adjustDescTdma k) recs).map (padTo k.gdmaDescAlignSize) := by
  induction recs generalizing off with
  | nil => rfl
  | cons r rest ih =>
    obtain ⟨_, fitsRest⟩ := List.forall_mem_cons.mp fits
    obtain ⟨wordHere, wordRest⟩ := List.forall_mem_cons.mp word
    have zeros : readBytes m (off + r.len) (k.gdmaDescAlignSize - r.len) =
        List.replicate (k.gdmaDescAlignSize - r.len) 0 := by
      apply List.ext_getElem
      · simp
      · intro i _ _
        simp [readBytes, zero (off + r.len + i) (by omega)]
    rw [tdmaSlots, marked, List.map_cons, zeros, adjustDescTdma_append (by rwa [length_body]),
      padTo, adjustDescTdma_length, length_body,
      ih (fun a low => zero a (by omega)) fitsRest wordRest]

theorem extractSegments_succ {base : Int} {left : Nat} {found : Found} :
    extractSegments k engine m base (left + 1) i found =
      extractSegments k engine m base left (i + 1)
        (found.append base (readBytes m (engine.slots k m i).2.1
          ((engine.slots k m i).1 * (engine.slots k m i).2.2))) := rfl

/-- The loop of `extract_dmabuf`, from what it copies for each segment. -/
theorem extractSegments_run (chunk : List Rec → List UInt8)
    (parts : ∀ j seg, segs[j]? = some seg →
      readBytes m (engine.slots k m (i + j)).2.1
        ((engine.slots k m (i + j)).1 * (engine.slots k m (i + j)).2.2) = chunk seg)
    (small : n + (segs.flatMap chunk).length < 2 ^ 31) :
    extractSegments k engine m at' segs.length i ⟨n, out⟩ =
      ⟨(n + (segs.flatMap chunk).length : Nat),
        writeBytes out (at' + n) (segs.flatMap chunk)⟩ := by
  induction segs generalizing i n out with
  | nil =>
    have none : writeBytes out (at' + n) [] = out := by
      funext a
      exact writeBytes_outside (by simp; omega)
    simp [extractSegments, none]
  | cons seg segs ih =>
    have first := parts 0 seg rfl
    rw [List.flatMap_cons, List.length_append, ← Nat.add_assoc] at small
    rw [Nat.add_zero] at first
    rw [List.length_cons, List.flatMap_cons, List.length_append, ← Nat.add_assoc,
      extractSegments_succ, first, Found.append_small (by omega), ih _ small, ← Nat.add_assoc,
      writeBytes_append]
    intro j seg' found
    rw [show i + 1 + j = i + (j + 1) by omega]
    exact parts (j + 1) seg' found

theorem readBytes_patch {magicS : Nat} (behind : 4 ≤ off) :
    readBytes (patch magicS m) off n = readBytes m off n :=
  readBytes_congr fun _ _ => patch_outside (by omega)

theorem read32_patch {magicS : Nat} (behind : 4 ≤ off) :
    read32 (patch magicS m) off = read32 m off :=
  read32_congr fun _ _ => patch_outside (by omega)

theorem fits_of_segment (wf : WellFormed k cmdbuf sz recs) {j : Nat}
    (found : (segments k recs)[j]? = some seg) : ∀ r ∈ seg, r.Fits k := by
  intro r member
  apply wf.fits
  rw [← segments_flatten k recs]
  exact List.mem_flatten_of_mem (List.mem_of_getElem? found) member

section

variable (wf : WellFormed k cmdbuf sz recs) (size : encodedSize k recs < 2 ^ 32) {j : Nat}
  (found : (segments k recs)[j]? = some seg)

include wf size found

theorem placed_encoded : Placed k cmdbuf (headMem k cmdbuf recs fun _ => 0)
    (encodeMem k cmdbuf recs fun _ => 0) j seg (tiuPlace k (segments k recs) j)
    (tdmaPlace k (segments k recs) j) := by
  have few := Nat.lt_trans (segments_length_lt k recs) size
  apply encodeMem_placed wf
  rw [countedSegments_eq few]
  exact found

variable {dmabuf : Nat → UInt8} {magicS : Nat}
  (encoded : dmabuf = patch magicS (encodeMem k cmdbuf recs fun _ => 0))

include encoded

/-- The numbers that the simulator finds in the table. -/
theorem numbers_encoded : read32 dmabuf (armAt k j + 4) % 65536 = countOf k.tiu seg ∧
    read32 dmabuf (armAt k j + 8) % 65536 = countOf k.tdma seg := by
  have few := Nat.lt_trans (segments_length_lt k recs) size
  have table := encodeMem_numbers wf fun _ => 0
  rw [countedSegments_eq few] at table
  obtain ⟨tiu, tdma⟩ := table j seg found
  rw [Nat.zero_add] at tiu tdma
  obtain ⟨fewTiu, fewTdma⟩ := wf.small seg (List.mem_of_getElem? found)
  rw [encoded, read32_patch (by omega), read32_patch (by omega), tiu, tdma]
  omega

theorem tiu_part : readBytes dmabuf (Engine.slots k .tiu dmabuf j).2.1
    ((Engine.slots k .tiu dmabuf j).1 * (Engine.slots k .tiu dmabuf j).2.2) =
      (sentTiu k cmdbuf seg).flatten := by
  have placed := placed_encoded wf size found
  have place : tiuPlace k (segments k recs) j < 2 ^ 32 :=
    Nat.lt_of_le_of_lt (tiuPlace_le k recs j) size
  show readBytes dmabuf (read32 dmabuf (armAt k j + 12))
    (read32 dmabuf (armAt k j + 4) % 65536 * k.bdRegBytes) = _
  rw [(numbers_encoded wf size found encoded).1, ← placed.tiu, flatten_readSlots]
  by_cases none : countOf k.tiu seg = 0
  · rw [none, Nat.zero_mul]
    rfl
  · have offset := placed.offsets.1 none
    have behind : 4 ≤ tiuPlace k (segments k recs) j := by
      have start := armAt_le_tiuStart (k := k) (segments k recs)
      have grown := le_tiuExtent k (tiuStart k (segments k recs)) ((segments k recs).take j)
      rw [armAt, sizeofDmaHdr] at start
      unfold tiuPlace
      omega
    rw [encoded, read32_patch (by omega), offset, Nat.mod_eq_of_lt place, readBytes_patch behind]

theorem tdma_part (tdmaWord : ∀ r ∈ recs, r.engine = k.tdma → 4 ≤ r.len) :
    readBytes dmabuf (Engine.slots k .tdma dmabuf j).2.1
    ((Engine.slots k .tdma dmabuf j).1 * (Engine.slots k .tdma dmabuf j).2.2) =
      ((sentTdma k cmdbuf seg).map (padTo k.gdmaDescAlignSize)).flatten := by
  have placed := placed_encoded wf size found
  have place : tdmaPlace k (segments k recs) j < 2 ^ 32 :=
    Nat.lt_of_le_of_lt (tdmaPlace_le k recs j) size
  have table := armAt_le_tiuStart (k := k) (segments k recs)
  have start : armAt k (segments k recs).length ≤ tdmaPlace k (segments k recs) j := by
    have tiu := tiuStart_le_tdmaStart (k := k) (segments k recs)
    unfold tdmaPlace
    omega
  have inRecs : ∀ r ∈ seg, r ∈ recs := by
    intro r member
    rw [← segments_flatten k recs]
    exact List.mem_flatten_of_mem (List.mem_of_getElem? found) member
  have slots : tdmaSlots k cmdbuf (headMem k cmdbuf recs fun _ => 0)
      (tdmaPlace k (segments k recs) j) (ofEngine k.tdma seg) =
        (sentTdma k cmdbuf seg).map (padTo k.gdmaDescAlignSize) := by
    apply tdmaSlots_zero
    · intro a low
      exact headMem_outside _ (Nat.le_trans start low)
    · exact fits_ofEngine (fits_of_segment wf found)
    · intro r member
      obtain ⟨inSeg, tdma⟩ := mem_ofEngine.mp member
      exact tdmaWord r (inRecs r inSeg) tdma
  show readBytes dmabuf (alignUp (read32 dmabuf (armAt k j + 16)) k.tdmaAlignedBit)
    (read32 dmabuf (armAt k j + 8) % 65536 * k.gdmaDescAlignSize) = _
  rw [(numbers_encoded wf size found encoded).2, ← slots, ← placed.tdma, flatten_readSlots]
  by_cases none : countOf k.tdma seg = 0
  · rw [none, Nat.zero_mul]
    rfl
  · have offset := placed.offsets.2 none
    have behind : 4 ≤ tdmaPlace k (segments k recs) j := by
      rw [armAt, sizeofDmaHdr] at start
      omega
    rw [encoded, read32_patch (by omega), offset, Nat.mod_eq_of_lt place,
      alignUp_of_dvd (tdmaPlace_dvd _ _), readBytes_patch behind]

/-- What the simulator copies for a segment. -/
theorem part_encoded (tdmaWord : ∀ r ∈ recs, r.engine = k.tdma → 4 ≤ r.len) (engine : Engine) :
    readBytes dmabuf (engine.slots k dmabuf j).2.1
        ((engine.slots k dmabuf j).1 * (engine.slots k dmabuf j).2.2) =
      ((engine.sent k cmdbuf seg).map (padTo (engine.stride k))).flatten := by
  cases engine with
  | tiu =>
    rw [tiu_part wf size found encoded, map_padTo_sent_tiu (fits_of_segment wf found)]
    rfl
  | tdma => exact tdma_part wf size found encoded tdmaWord

end

theorem read32_patch_magic (magicS : Nat) (m : Nat → UInt8) :
    read32 (patch magicS m) 0 / 65536 = magicS % 65536 := by
  have first := (patch magicS m 0).toNat_lt
  have second := (patch magicS m 1).toNat_lt
  show leNat [patch magicS m 0, patch magicS m 1, UInt8.ofNat magicS,
    UInt8.ofNat (magicS / 256)] / 65536 = _
  simp only [leNat, UInt8.toNat_ofNat']
  omega

theorem slotsSent_flatten : (engine.slotsSent k cmdbuf segs).flatten =
    segs.flatMap fun seg => ((engine.sent k cmdbuf seg).map (padTo (engine.stride k))).flatten := by
  unfold Engine.slotsSent
  induction segs with
  | nil => rfl
  | cons seg segs ih =>
    rw [List.flatMap_cons, List.map_append, List.flatten_append, ih, List.flatMap_cons]

/-- What `extract_dmabuf` gives for the output of the 183x encoder. -/
theorem extract_encoded (wf : WellFormed k cmdbuf sz recs) (size : encodedSize k recs < 2 ^ 32)
    (tdmaWord : ∀ r ∈ recs, r.engine = k.tdma → 4 ≤ r.len) {dmabuf : Nat → UInt8}
    (encoded : dmabuf = patch 0x1835 (encodeMem k cmdbuf recs fun _ => 0)) (engine : Engine)
    (small : (engine.slotsSent k cmdbuf (segments k recs)).flatten.length < 2 ^ 31) (base : Nat)
    (out : Nat → UInt8) :
    extractDmabuf k 0x1835 engine dmabuf base out =
      ⟨(engine.slotsSent k cmdbuf (segments k recs)).flatten.length,
        writeBytes out base (engine.slotsSent k cmdbuf (segments k recs)).flatten⟩ := by
  have few := Nat.lt_trans (segments_length_lt k recs) size
  have magic : ¬read32 dmabuf 0 / 65536 ≠ (0x1835 : UInt32).toNat := by
    rw [encoded, read32_patch_magic]
    decide
  have number : read32 dmabuf 8 = (segments k recs).length := by
    rw [encoded, read32_patch (by decide), encodeMem_number wf, Nat.mod_eq_of_lt few]
  rw [slotsSent_flatten] at small ⊢
  have runs : extractSegments k engine dmabuf base (segments k recs).length 0 ⟨(0 : Nat), out⟩ =
      ⟨(0 + ((segments k recs).flatMap fun seg =>
          ((engine.sent k cmdbuf seg).map (padTo (engine.stride k))).flatten).length : Nat),
        writeBytes out (base + 0) ((segments k recs).flatMap fun seg =>
          ((engine.sent k cmdbuf seg).map (padTo (engine.stride k))).flatten)⟩ := by
    apply extractSegments_run
    · intro j seg found
      rw [Nat.zero_add]
      exact part_encoded wf size found encoded tdmaWord engine
    · rwa [Nat.zero_add]
  rw [Nat.zero_add, Nat.add_zero, Int.natCast_zero] at runs
  rw [extractDmabuf, if_neg magic, number, runs]

end

/-! ## Both ways -/

section

variable {k : KernelHeaders} {regs : RegFields} {cmdbuf : Nat → UInt8} {sz : Nat}
  {recs : List Rec}

/-- The segments have the records for an engine in the order of the buffer. -/
theorem ofEngine_segments {engine : Nat} (recs : List Rec) :
    (segments k recs).flatMap (ofEngine engine) = ofEngine engine recs := by
  conv_rhs => rw [← segments_flatten k recs]
  unfold ofEngine
  rw [List.filter_flatten, List.flatMap_def]

theorem slotsSent_tiu (fits : ∀ r ∈ recs, r.Fits k) :
    Engine.tiu.slotsSent k cmdbuf (segments k recs) =
      (segments k recs).flatMap (Engine.tiu.sent k cmdbuf) := by
  rw [Engine.slotsSent, List.map_flatMap]
  apply List.flatMap_congr
  intro seg member
  apply map_padTo_sent_tiu
  intro r inSeg
  apply fits
  rw [← segments_flatten k recs]
  exact List.mem_flatten_of_mem member inSeg

theorem slotsSent_one {engine : Engine} (one : (segments k recs).length = 1) :
    engine.slotsSent k cmdbuf (segments k recs) =
      (engine.sent k cmdbuf recs).map (padTo (engine.stride k)) := by
  obtain ⟨seg, single⟩ := List.length_eq_one_iff.mp one
  have whole := segments_flatten k recs
  rw [single, List.flatten_singleton] at whole
  rw [single, whole, Engine.slotsSent, List.flatMap_singleton]

/-- The 183x simulator gets the same descriptors from a well-formed command buffer as from what
    the 183x encoder has made of it in a buffer of zeros: the bodies of the records in order,
    tagged and reordered, a TDMA body filled up to its slot. From the encoded buffer the last
    record of every segment is marked as the end, from the command buffer the last of all; with
    one segment the descriptors are equal. The slots have room in the encoded buffer. -/
theorem streams_agree (facts : HeaderFacts k regs) (wf : WellFormed k cmdbuf sz recs)
    (tdmaRegs : ∀ r ∈ recs, r.engine = k.tdma → k.tdmaRegBytes ≤ r.len) (word : sz < 2 ^ 32)
    (size : encodedSize k recs < 2 ^ 32) (tiuInt : countOf k.tiu recs * k.bdRegBytes < 2 ^ 31)
    (tdmaInt : countOf k.tdma recs * k.gdmaDescAlignSize < 2 ^ 31)
    (tiuGaddr tdmaGaddr tiuSize tdmaSize : UInt64) :
    ∃ dmabuf cmdbuf2,
      cvi183xDmabufConvert k cmdbuf sz k.magic180X (fun _ => 0) = .ok () dmabuf ∧
      (∀ fuel, recs.length < fuel → adjustCmdbuf k regs cmdbuf sz fuel = some cmdbuf2) ∧
      (∀ (engine : Engine) (base : Nat) (out : Nat → UInt8),
        extractDmabuf k (cmodelCmdbuf183x k tiuGaddr tdmaGaddr tiuSize tdmaSize).dmabufHdrMagic
            engine dmabuf base out =
          ⟨(engine.slotsSent k cmdbuf (segments k recs)).flatten.length,
            writeBytes out base (engine.slotsSent k cmdbuf (segments k recs)).flatten⟩ ∧
        ∀ fuel, recs.length < fuel →
          extractCmdbuf k (cmodelCmdbuf183x k tiuGaddr tdmaGaddr tiuSize tdmaSize).cmdbufHdrMagic
              engine cmdbuf2 sz base out fuel =
            some ⟨(engine.sent k cmdbuf recs).flatten.length,
              writeBytes out base (engine.sent k cmdbuf recs).flatten⟩) ∧
      (∀ engine : Engine,
        (segments k recs).flatMap (ofEngine (engine.id k)) = ofEngine (engine.id k) recs) ∧
      Engine.tiu.slotsSent k cmdbuf (segments k recs) =
        (segments k recs).flatMap (Engine.tiu.sent k cmdbuf) ∧
      (∀ engine : Engine, (segments k recs).length = 1 →
        engine.slotsSent k cmdbuf (segments k recs) =
          (engine.sent k cmdbuf recs).map (padTo (engine.stride k))) ∧
      (Engine.tiu.slotsSent k cmdbuf (segments k recs)).flatten.length +
        (Engine.tdma.slotsSent k cmdbuf (segments k recs)).flatten.length ≤
          encodedSize k recs := by
  have lengths (engine : Engine) : (engine.slotsSent k cmdbuf (segments k recs)).flatten.length =
      countOf (engine.id k) recs * engine.stride k := by
    rw [length_slotsSent, segments_flatten]
    rw [segments_flatten]
    exact wf.fits
  have bounded (engine : Engine) : countOf (engine.id k) recs * engine.stride k < 2 ^ 31 := by
    cases engine with
    | tiu => exact tiuInt
    | tdma => exact tdmaInt
  have short (engine : Engine) : (engine.sent k cmdbuf recs).flatten.length < 2 ^ 31 :=
    Nat.lt_of_le_of_lt (length_flatten_sent_le wf.fits) (bounded engine)
  have tdmaWord : ∀ r ∈ recs, r.engine = k.tdma → 4 ≤ r.len := fun r member tdma =>
    Nat.le_trans facts.word (tdmaRegs r member tdma)
  obtain ⟨s₂, converts, memory⟩ := dmabufConvert_mem ⟨fun _ => 0, []⟩ wf.magic wf.met wf.small
  have encodes := wf.agree_self.dmabufConvert_run 0x1835 converts
  obtain ⟨cmdbuf2, adjusts, fromCmdbuf⟩ := extract_adjusted facts wf tdmaRegs word
  refine ⟨patch 0x1835 s₂.dmabuf, cmdbuf2, encodes, adjusts, ?_, ?_, ?_, ?_, ?_⟩
  · intro engine base out
    refine ⟨?_, fromCmdbuf engine (short engine) base out⟩
    apply extract_encoded wf size tdmaWord (by rw [memory])
    rw [lengths]
    exact bounded engine
  · exact fun engine => ofEngine_segments recs
  · exact slotsSent_tiu wf.fits
  · exact fun engine one => slotsSent_one one
  · rw [lengths, lengths]
    exact slots_le_encodedSize k recs

theorem headerFacts_1822 : HeaderFacts kernel1822 regs1822 where
  tiuEnd _ _ := rfl
  tdmaEod _ _ := rfl
  eodBit := rfl
  interruptBit := rfl
  barrierBit := rfl
  word := by decide
  tiuDesc := rfl

theorem streams_agree_mixed :
    WellFormed kernel1822 (mixed 0xA8) 476 (mixedRecords 0xA8 5) ∧
    ∃ dmabuf cmdbuf2,
      cvi183xDmabufConvert kernel1822 (mixed 0xA8) 476 0xA8 (fun _ => 0) = .ok () dmabuf ∧
      adjustCmdbuf kernel1822 regs1822 (mixed 0xA8) 476 6 = some cmdbuf2 ∧
      ∀ (engine : Engine) (base : Nat) (out : Nat → UInt8),
        (extractDmabuf kernel1822 0x1835 engine dmabuf base out).out =
          writeBytes out base (engine.slotsSent kernel1822 (mixed 0xA8)
            (segments kernel1822 (mixedRecords 0xA8 5))).flatten ∧
        (extractCmdbuf kernel1822 0xA8 engine cmdbuf2 476 base out 6).map Found.out =
          some (writeBytes out base
            (engine.sent kernel1822 (mixed 0xA8) (mixedRecords 0xA8 5)).flatten) := by
  have wf := wellFormed_mixed
  have size : encodedSize kernel1822 (mixedRecords 0xA8 5) < 2 ^ 32 := by
    rw [encodedSize_mixed]
    decide
  obtain ⟨dmabuf, cmdbuf2, encodes, adjusts, streams, -⟩ :=
    streams_agree headerFacts_1822 wf (by decide) (by decide) size (by decide) (by decide) 0 0
      65536 65536
  refine ⟨wf, dmabuf, cmdbuf2, encodes, adjusts 6 (by decide), ?_⟩
  intro engine base out
  obtain ⟨fromDmabuf, fromCmdbuf⟩ := streams engine base out
  exact ⟨congrArg Found.out fromDmabuf, congrArg (Option.map Found.out) (fromCmdbuf 6 (by decide))⟩

/-- A TDMA record without a body and a CPU record. -/
def emptyTdma (a : Nat) : UInt8 :=
  if a = 0 ∨ a = 8 then 0xA8 else if a = 2 then 1 else if a = 9 then 84 else if a = 10 then 2 else 0

def emptyTdmaRecords : List Rec := [recAt kernel1822 emptyTdma 0, recAt kernel1822 emptyTdma 8]

theorem wellFormed_emptyTdma : WellFormed kernel1822 emptyTdma 100 emptyTdmaRecords := by
  refine ⟨by decide, ?_, by decide, by decide, by decide, small_of_few (by decide)⟩
  exact .cons (by decide) (by decide) (.cons (by decide) (by decide) .nil)

/-- With 2^26 CPU records the buffer is longer than the 32-bit counter of the loops can count, and
    `adjust_cmdbuf` never comes to its end. Where a TDMA record has no room for the registers, the
    bits are set in the next header, and the extraction fails on its magic number. -/
theorem adjustCmdbuf_loses_streams :
    HeaderFacts kernel1822 regs1822 ∧
    WellFormed kernel1822 tiuThenCpu (120 + 92 * 2 ^ 26) (tiuThenCpuRecords (2 ^ 26)) ∧
    (∀ fuel, adjustCmdbuf kernel1822 regs1822 tiuThenCpu (120 + 92 * 2 ^ 26) fuel = none) ∧
    WellFormed kernel1822 emptyTdma 100 emptyTdmaRecords ∧
    ∃ cmdbuf2, adjustCmdbuf kernel1822 regs1822 emptyTdma 100 3 = some cmdbuf2 ∧
      (extractCmdbuf kernel1822 0xA8 .tdma cmdbuf2 100 0 (fun _ => 0) 3).map Found.size =
        some (-1) := by
  have wf := wellFormed_tiuThenCpu (2 ^ 26)
  have span := span_of_row wf.row (room_tiuThenCpu (2 ^ 26))
  refine ⟨headerFacts_1822, wf, ?_, wellFormed_emptyTdma, _, rfl, by decide⟩
  intro fuel
  apply span.adjustCmdbuf_none
  intro countable
  exact absurd countable.1 (by decide)

end

end CviRuntime.CModel
