import CviRuntime.Dmabuf.Arms

/-!
# Descriptor slots

The inner loop of `fill_bd_and_tdma` copies the records of a segment to slots of fixed size,
the TIU records from one cursor on and the TDMA records from another. `copyRecs` is what it
does to the buffers; the loop stays in step with the records as long as the numbers it was
given are those of the records ahead.
-/

namespace CviRuntime.Dmabuf

open ByteMem

/-- The records for one engine, in order. -/
def ofEngine (engine : Nat) (recs : List Rec) : List Rec := recs.filter fun r => r.engine = engine

/-- The blocks of `stride` bytes from `off` on. -/
def readSlots (m : Nat → UInt8) (stride : Nat) : Nat → Nat → List (List UInt8)
  | _, 0 => []
  | off, n + 1 => readBytes m off stride :: readSlots m stride (off + stride) n

section

variable (k : KernelHeaders) (cmdbuf : Nat → UInt8)

/-- The bodies of the records as they are sent, the last one marked as the end. -/
def marked (adjust : List UInt8 → Bool → List UInt8) : List Rec → List (List UInt8)
  | [] => []
  | r :: rest => adjust (r.body k cmdbuf) rest.isEmpty :: marked adjust rest

/-- The TIU descriptors of a segment. -/
def sentTiu (seg : List Rec) : List (List UInt8) :=
  marked k cmdbuf (adjustDescBd k) (ofEngine k.tiu seg)

/-- The TDMA descriptors of a segment. -/
def sentTdma (seg : List Rec) : List (List UInt8) :=
  marked k cmdbuf (adjustDescTdma k) (ofEngine k.tdma seg)

/-- The TDMA slots for some records, in a memory that held `m`: a body may be shorter than its
    slot. -/
def tdmaSlots (m : Nat → UInt8) : Nat → List Rec → List (List UInt8)
  | _, [] => []
  | off, r :: rest =>
    adjustDescTdma k (r.body k cmdbuf ++
      readBytes m (off + r.len) (k.gdmaDescAlignSize - r.len)) rest.isEmpty ::
      tdmaSlots m (off + k.gdmaDescAlignSize) rest

/-- Copying the bodies of these records to slots from `off` on is permitted. -/
def StrideGood (good : Access → Prop) (stride : Nat) : Nat → List Rec → Prop
  | _, [] => True
  | off, r :: rest => good (.read (r.off + k.hdrBytes) r.len) ∧ good (.write off r.len) ∧
      StrideGood good stride (off + stride) rest

/-- The bodies fit into their slots. -/
def Rec.Fits (r : Rec) : Prop :=
  (r.engine = k.tiu → r.len = k.bdRegBytes) ∧ (r.engine = k.tdma → r.len ≤ k.gdmaDescAlignSize)

end

section

variable {engine : Nat} {r : Rec} {recs rest : List Rec} {m m' : Nat → UInt8} {off stride n : Nat}

theorem length_ofEngine : (ofEngine engine recs).length = countOf engine recs := by
  simp [ofEngine, countOf, List.countP_eq_length_filter]

@[simp] theorem ofEngine_append :
    ofEngine engine (recs ++ rest) = ofEngine engine recs ++ ofEngine engine rest := by
  simp [ofEngine]

theorem ofEngine_cons_self (same : r.engine = engine) :
    ofEngine engine (r :: recs) = r :: ofEngine engine recs := by
  simp [ofEngine, same]

theorem ofEngine_cons_of_ne (other : r.engine ≠ engine) :
    ofEngine engine (r :: recs) = ofEngine engine recs := by
  simp [ofEngine, other]

theorem ofEngine_eq_nil (other : ∀ r ∈ recs, r.engine ≠ engine) : ofEngine engine recs = [] := by
  simpa [ofEngine] using other

theorem isEmpty_ofEngine : (ofEngine engine recs).isEmpty = decide (countOf engine recs = 0) := by
  rw [← length_ofEngine]
  cases ofEngine engine recs <;> simp

theorem readSlots_congr (same : ∀ a, off ≤ a → a < off + n * stride → m' a = m a) :
    readSlots m' stride off n = readSlots m stride off n := by
  induction n generalizing off with
  | zero => rfl
  | succ n ih =>
    rw [Nat.succ_mul] at same
    rw [readSlots, readSlots, ih]
    · congr 1
      apply readBytes_congr
      intro i small
      exact same _ (by omega) (by omega)
    · intro a low high
      exact same a (by omega) (by omega)

end

/-! ## The adjustments -/

section

variable {k : KernelHeaders} {bytes : List UInt8} {eod : Bool}

theorem adjustDescBd_length : (adjustDescBd k bytes eod).length = bytes.length := by
  cases eod <;> simp [adjustDescBd, reorderBdCmdbufReg, k.tiuSetEnd_length]

theorem adjustDescTdma_length : (adjustDescTdma k bytes eod).length = bytes.length := by
  cases eod <;> simp [adjustDescTdma, orBit]

/-- `body[0] |= 1 << bit` leaves the bytes from the fifth on. -/
theorem orBit_mapIdx {bit : Nat} (small : bit < 32) (f : Nat → UInt8 → UInt8)
    (rear : ∀ i byte, 4 ≤ i → f i byte = byte) : ∃ g : Nat → UInt8 → UInt8,
    (∀ bytes : List UInt8, orBit (bytes.mapIdx f) bit = bytes.mapIdx g) ∧
      ∀ i byte, 4 ≤ i → g i byte = byte := by
  refine ⟨fun i byte =>
    if i = bit / 8 then f i byte ||| UInt8.ofNat (2 ^ (bit % 8)) else f i byte, ?_, ?_⟩
  · intro bytes
    simp only [orBit, List.mapIdx_mapIdx]
    rfl
  · intro i byte high
    have other : ¬i = bit / 8 := by omega
    simp only [other, if_false, rear i byte high]

/-- `adjust_desc_tdma` works on each byte by itself and changes the first four only. -/
theorem adjustDescTdma_eq (k : KernelHeaders) (eod : Bool) : ∃ f : Nat → UInt8 → UInt8,
    (∀ bytes, adjustDescTdma k bytes eod = bytes.mapIdx f) ∧ ∀ i byte, 4 ≤ i → f i byte = byte := by
  have same (bytes : List UInt8) : bytes.mapIdx (fun _ byte => byte) = bytes := by
    apply List.ext_getElem <;> simp
  cases eod with
  | false =>
    obtain ⟨f, is, rear⟩ := orBit_mapIdx k.tdmaBarrierEnableBit_lt (fun _ byte => byte) (by simp)
    refine ⟨f, ?_, rear⟩
    intro bytes
    rw [← is, same]
    rfl
  | true =>
    obtain ⟨f, isF, rearF⟩ := orBit_mapIdx k.tdmaEodBit_lt (fun _ byte => byte) (by simp)
    obtain ⟨g, isG, rearG⟩ := orBit_mapIdx k.tdmaInterruptBit_lt f rearF
    obtain ⟨h, isH, rearH⟩ := orBit_mapIdx k.tdmaBarrierEnableBit_lt g rearG
    refine ⟨h, ?_, rearH⟩
    intro bytes
    rw [← isH, ← isG, ← isF, same]
    rfl

end

/-! ## Copying one record -/

section

variable (k : KernelHeaders) (cmdbuf : Nat → UInt8) (sz : Nat)

/-- `memcpy` of the body to a slot. -/
def Buffers.copyBody (s : Buffers) (r : Rec) (slot : Nat) : Buffers :=
  (s.push [.read (r.off + k.hdrBytes) r.len, r.lenAccess k, r.engineAccess k]).write slot
    (r.body k cmdbuf)

def Buffers.copyTiu (s : Buffers) (r : Rec) (slot : Nat) (eod : Bool) : Buffers :=
  (s.copyBody k cmdbuf r slot).write slot
    (adjustDescBd k (readBytes (s.copyBody k cmdbuf r slot).dmabuf slot k.bdRegBytes) eod)

def Buffers.copyTdma (s : Buffers) (r : Rec) (slot : Nat) (eod : Bool) : Buffers :=
  (s.copyBody k cmdbuf r slot).write slot
    (adjustDescTdma k (readBytes (s.copyBody k cmdbuf r slot).dmabuf slot 4) eod)

/-- The records copied one after the other, the cursors on multiples of their strides. -/
def copyRecs : List Rec → Nat → Nat → Buffers → Buffers
  | [], _, _, s => s
  | r :: rest, tiuOffset, tdmaOffset, s =>
    if r.engine = k.tiu then
      copyRecs rest (tiuOffset + k.bdRegBytes) tdmaOffset
        ((s.copyTiu k cmdbuf r tiuOffset (countOf k.tiu rest = 0)).push (r.nextAccesses k sz))
    else if r.engine = k.tdma then
      copyRecs rest tiuOffset (tdmaOffset + k.gdmaDescAlignSize)
        ((s.copyTdma k cmdbuf r tdmaOffset (countOf k.tdma rest = 0)).push (r.nextAccesses k sz))
    else copyRecs rest tiuOffset tdmaOffset (s.push (r.nextAccesses k sz ++ [r.engineAccess k]))

end

section

variable {k : KernelHeaders} {cmdbuf : Nat → UInt8} {sz : Nat} {r : Rec} {s : Buffers}
  {slot : Nat} {eod : Bool} {good : Access → Prop}

theorem length_body : (r.body k cmdbuf).length = r.len := length_readBytes

theorem four_le_gdma : 4 ≤ k.gdmaDescAlignSize := by
  have := Nat.pow_le_pow_right (show 0 < 2 by decide) k.tdmaAlignedBit_two
  simpa [KernelHeaders.gdmaDescAlignSize] using this

theorem copyBody_all (header : r.HeaderGood k sz good) (known : r.Known k) :
    (s.copyBody k cmdbuf r slot).All good ↔
      (good (.read (r.off + k.hdrBytes) r.len) ∧ good (.write slot r.len)) ∧ s.All good := by
  have len := header.len known
  have engine := header.engine
  unfold Buffers.copyBody
  rw [all_write, all_push, length_body]
  simp only [List.forall_mem_cons, List.not_mem_nil]
  tauto

theorem copyTiu_all (header : r.HeaderGood k sz good) (known : r.Known k)
    (inside : good (.write slot k.bdRegBytes)) :
    (s.copyTiu k cmdbuf r slot eod).All good ↔
      (good (.read (r.off + k.hdrBytes) r.len) ∧ good (.write slot r.len)) ∧ s.All good := by
  unfold Buffers.copyTiu
  rw [all_write, copyBody_all header known, adjustDescBd_length, length_readBytes]
  simp only [inside, true_and]

theorem copyTdma_all (header : r.HeaderGood k sz good) (known : r.Known k)
    (inside : good (.write slot 4)) :
    (s.copyTdma k cmdbuf r slot eod).All good ↔
      (good (.read (r.off + k.hdrBytes) r.len) ∧ good (.write slot r.len)) ∧ s.All good := by
  unfold Buffers.copyTdma
  rw [all_write, copyBody_all header known, adjustDescTdma_length, length_readBytes]
  simp only [inside, true_and]

theorem copyTiu_outside {a : Nat}
    (outside : a < slot ∨ slot + r.len ≤ a ∧ slot + k.bdRegBytes ≤ a) :
    (s.copyTiu k cmdbuf r slot eod).dmabuf a = s.dmabuf a := by
  rw [Buffers.copyTiu, write_dmabuf, writeBytes_outside, Buffers.copyBody, write_dmabuf,
    writeBytes_outside]
  · rfl
  · rw [length_body]
    omega
  · rw [adjustDescBd_length, length_readBytes]
    omega

theorem copyTdma_outside {a : Nat} (outside : a < slot ∨ slot + r.len ≤ a ∧ slot + 4 ≤ a) :
    (s.copyTdma k cmdbuf r slot eod).dmabuf a = s.dmabuf a := by
  rw [Buffers.copyTdma, write_dmabuf, writeBytes_outside, Buffers.copyBody, write_dmabuf,
    writeBytes_outside]
  · rfl
  · rw [length_body]
    omega
  · rw [adjustDescTdma_length, length_readBytes]
    omega

/-- The slot of a TIU record. -/
theorem copyTiu_slot (slot : Nat) (full : r.len = k.bdRegBytes) :
    readBytes (s.copyTiu k cmdbuf r slot eod).dmabuf slot k.bdRegBytes =
      adjustDescBd k (r.body k cmdbuf) eod := by
  have copied : readBytes (s.copyBody k cmdbuf r slot).dmabuf slot k.bdRegBytes =
      r.body k cmdbuf := by
    rw [← full, ← length_body (k := k) (r := r)]
    exact readBytes_writeBytes
  rw [Buffers.copyTiu, copied, write_dmabuf]
  have length : (adjustDescBd k (r.body k cmdbuf) eod).length = k.bdRegBytes := by
    rw [adjustDescBd_length, length_body, full]
  rw [← length]
  exact readBytes_writeBytes

/-- The slot of a TDMA record: the adjusted body, and behind it what was there. -/
theorem copyTdma_slot (slot : Nat) (fits : r.len ≤ k.gdmaDescAlignSize) :
    readBytes (s.copyTdma k cmdbuf r slot eod).dmabuf slot k.gdmaDescAlignSize =
      adjustDescTdma k (r.body k cmdbuf ++
        readBytes s.dmabuf (slot + r.len) (k.gdmaDescAlignSize - r.len)) eod := by
  obtain ⟨f, is, rear⟩ := adjustDescTdma_eq k eod
  have copied : readBytes (s.copyBody k cmdbuf r slot).dmabuf slot k.gdmaDescAlignSize =
      r.body k cmdbuf ++ readBytes s.dmabuf (slot + r.len) (k.gdmaDescAlignSize - r.len) := by
    have body : readBytes (s.copyBody k cmdbuf r slot).dmabuf slot r.len = r.body k cmdbuf := by
      rw [← length_body (k := k) (r := r)]
      exact readBytes_writeBytes
    rw [← Nat.add_sub_cancel' fits, readBytes_add, body, Nat.add_sub_cancel']
    · congr 1
      exact readBytes_writeBytes_outside (by rw [length_body]; omega)
    · exact fits
  have split (m : Nat → UInt8) : readBytes m slot k.gdmaDescAlignSize =
      readBytes m slot 4 ++ readBytes m (slot + 4) (k.gdmaDescAlignSize - 4) := by
    rw [← readBytes_add, Nat.add_sub_cancel' four_le_gdma]
  have four : (adjustDescTdma k (readBytes (s.copyBody k cmdbuf r slot).dmabuf slot 4) eod).length =
      4 := by
    rw [adjustDescTdma_length, length_readBytes]
  have front : readBytes (s.copyTdma k cmdbuf r slot eod).dmabuf slot 4 =
      adjustDescTdma k (readBytes (s.copyBody k cmdbuf r slot).dmabuf slot 4) eod := by
    rw [Buffers.copyTdma, write_dmabuf]
    generalize adjustDescTdma k (readBytes (s.copyBody k cmdbuf r slot).dmabuf slot 4) eod =
      adjusted at four ⊢
    rw [← four]
    exact readBytes_writeBytes
  rw [← copied, split, split, front, is, is, List.mapIdx_append]
  congr 1
  rw [Buffers.copyTdma, write_dmabuf, readBytes_writeBytes_outside (by rw [four]; omega)]
  apply List.ext_getElem
  · simp
  · intro i _ _
    simp [rear]

end

/-! ## Copying a segment -/

section

variable {k : KernelHeaders} {cmdbuf : Nat → UInt8} {sz : Nat} {r : Rec} {recs : List Rec}
    {s : Buffers}
  {tiuOffset tdmaOffset : Nat} {good : Access → Prop}

theorem marked_ofEngine_cons {engine : Nat} {adjust : List UInt8 → Bool → List UInt8}
    (same : r.engine = engine) : marked k cmdbuf adjust (ofEngine engine (r :: recs)) =
      adjust (r.body k cmdbuf) (countOf engine recs = 0) ::
        marked k cmdbuf adjust (ofEngine engine recs) := by
  rw [ofEngine_cons_self same, marked, isEmpty_ofEngine]

/-- The cursors only move up, so that nothing below them is touched. -/
theorem copyRecs_below {a : Nat} (belowTiu : a < tiuOffset) (belowTdma : a < tdmaOffset) :
    (copyRecs k cmdbuf sz recs tiuOffset tdmaOffset s).dmabuf a = s.dmabuf a := by
  induction recs generalizing tiuOffset tdmaOffset s with
  | nil => rfl
  | cons r rest ih =>
    unfold copyRecs
    split_ifs with tiu tdma
    · rw [ih (by omega) belowTdma, push_dmabuf, copyTiu_outside (Or.inl belowTiu)]
    · rw [ih belowTiu (by omega), push_dmabuf, copyTdma_outside (Or.inl belowTdma)]
    · rw [ih belowTiu belowTdma, push_dmabuf]

/-- What copying touches beyond the headers. -/
theorem copyRecs_all (known : ∀ r ∈ recs, r.Known k) (headers : ∀ r ∈ recs, r.HeaderGood k sz good)
    (insideTiu : ∀ off n, off + n ≤ tiuOffset + countOf k.tiu recs * k.bdRegBytes →
      good (.write off n))
    (insideTdma : ∀ off n, off + n ≤ tdmaOffset + countOf k.tdma recs * k.gdmaDescAlignSize →
      good (.write off n)) :
    (copyRecs k cmdbuf sz recs tiuOffset tdmaOffset s).All good ↔
      (StrideGood k good k.bdRegBytes tiuOffset (ofEngine k.tiu recs) ∧
        StrideGood k good k.gdmaDescAlignSize tdmaOffset (ofEngine k.tdma recs)) ∧ s.All good := by
  induction recs generalizing tiuOffset tdmaOffset s with
  | nil => simp [copyRecs, ofEngine, StrideGood]
  | cons r rest ih =>
    obtain ⟨knownR, knownRest⟩ := List.forall_mem_cons.mp known
    obtain ⟨header, headersRest⟩ := List.forall_mem_cons.mp headers
    have nextGood : ∀ access ∈ r.nextAccesses k sz, good access :=
      ((headerGood_of_known knownR).mp header).2.2.2
    have apart := k.tiu_ne_tdma
    simp only [countOf_cons] at insideTiu insideTdma
    unfold copyRecs
    split_ifs with tiu tdma
    · have other : r.engine ≠ k.tdma := by rwa [tiu]
      simp only [tiu, apart, if_true, if_false, Nat.add_zero, Nat.add_mul,
        Nat.one_mul] at insideTiu insideTdma
      rw [ih knownRest headersRest (fun off n le => insideTiu off n (by omega)) insideTdma,
        all_push, copyTiu_all header knownR (insideTiu _ _ (by omega)), ofEngine_cons_self tiu,
        ofEngine_cons_of_ne other, StrideGood]
      tauto
    · simp only [tdma, apart.symm, if_true, if_false, Nat.add_zero, Nat.add_mul,
        Nat.one_mul] at insideTiu insideTdma
      have four := four_le_gdma (k := k)
      rw [ih knownRest headersRest insideTiu (fun off n le => insideTdma off n (by omega)),
        all_push, copyTdma_all header knownR (insideTdma _ _ (by omega)), ofEngine_cons_self tdma,
        ofEngine_cons_of_ne tiu, StrideGood]
      tauto
    · simp only [tiu, tdma, if_false, Nat.add_zero] at insideTiu insideTdma
      have engine := header.engine
      rw [ih knownRest headersRest insideTiu insideTdma, all_push, ofEngine_cons_of_ne tiu,
        ofEngine_cons_of_ne tdma, List.forall_mem_append, List.forall_mem_singleton]
      tauto

/-- Bodies that fit stay within their slots. -/
theorem copyRecs_outside (fits : ∀ r ∈ recs, r.Fits k) {a : Nat}
    (outsideTiu : a < tiuOffset ∨ tiuOffset + countOf k.tiu recs * k.bdRegBytes ≤ a)
    (outsideTdma : a < tdmaOffset ∨ tdmaOffset + countOf k.tdma recs * k.gdmaDescAlignSize ≤ a) :
    (copyRecs k cmdbuf sz recs tiuOffset tdmaOffset s).dmabuf a = s.dmabuf a := by
  induction recs generalizing tiuOffset tdmaOffset s with
  | nil => rfl
  | cons r rest ih =>
    obtain ⟨⟨fitsTiu, fitsTdma⟩, fitsRest⟩ := List.forall_mem_cons.mp fits
    have apart := k.tiu_ne_tdma
    simp only [countOf_cons] at outsideTiu outsideTdma
    unfold copyRecs
    split_ifs with tiu tdma
    · have full := fitsTiu tiu
      simp only [tiu, apart, if_true, if_false, Nat.add_zero, Nat.add_mul,
        Nat.one_mul] at outsideTiu outsideTdma
      rw [ih fitsRest (by omega) outsideTdma, push_dmabuf, copyTiu_outside (by omega)]
    · have full := fitsTdma tdma
      have four := four_le_gdma (k := k)
      simp only [tdma, apart.symm, if_true, if_false, Nat.add_zero, Nat.add_mul, Nat.one_mul]
        at outsideTiu outsideTdma
      rw [ih fitsRest outsideTiu (by omega), push_dmabuf, copyTdma_outside (by omega)]
    · simp only [tiu, tdma, if_false, Nat.add_zero] at outsideTiu outsideTdma
      rw [ih fitsRest outsideTiu outsideTdma, push_dmabuf]

/-- The slots hold the TIU records in order. -/
theorem copyRecs_tiu (fits : ∀ r ∈ recs, r.Fits k)
    (apart : tiuOffset + countOf k.tiu recs * k.bdRegBytes ≤ tdmaOffset) :
    readSlots (copyRecs k cmdbuf sz recs tiuOffset tdmaOffset s).dmabuf k.bdRegBytes tiuOffset
      (countOf k.tiu recs) = sentTiu k cmdbuf recs := by
  induction recs generalizing tiuOffset tdmaOffset s with
  | nil => rfl
  | cons r rest ih =>
    obtain ⟨⟨fitsTiu, -⟩, fitsRest⟩ := List.forall_mem_cons.mp fits
    unfold copyRecs
    split_ifs with tiu tdma
    · simp only [countOf_cons, tiu, if_true, Nat.add_mul, Nat.one_mul] at apart
      have count : countOf k.tiu (r :: rest) = countOf k.tiu rest + 1 := by simp [countOf_cons, tiu]
      rw [count, readSlots, ih fitsRest (by omega)]
      unfold sentTiu
      rw [marked_ofEngine_cons tiu, ← copyTiu_slot (s := s) tiuOffset (fitsTiu tiu)]
      congr 1
      apply readBytes_congr
      intro i small
      exact copyRecs_below (by omega) (by omega)
    · have count : countOf k.tiu (r :: rest) = countOf k.tiu rest := by simp [countOf_cons, tiu]
      rw [count] at apart ⊢
      rw [ih fitsRest (by omega), sentTiu, sentTiu, ofEngine_cons_of_ne tiu]
    · have count : countOf k.tiu (r :: rest) = countOf k.tiu rest := by simp [countOf_cons, tiu]
      rw [count] at apart ⊢
      rw [ih fitsRest apart, sentTiu, sentTiu, ofEngine_cons_of_ne tiu]

theorem tdmaSlots_congr {m m' : Nat → UInt8} {off : Nat}
    (fits : ∀ r ∈ recs, r.len ≤ k.gdmaDescAlignSize)
    (same : ∀ a, off ≤ a → a < off + recs.length * k.gdmaDescAlignSize → m' a = m a) :
    tdmaSlots k cmdbuf m' off recs = tdmaSlots k cmdbuf m off recs := by
  induction recs generalizing off with
  | nil => rfl
  | cons r rest ih =>
    obtain ⟨short, fitsRest⟩ := List.forall_mem_cons.mp fits
    rw [List.length_cons, Nat.succ_mul] at same
    rw [tdmaSlots, tdmaSlots, ih fitsRest fun a low high => same a (by omega) (by omega)]
    congr 3
    apply readBytes_congr
    intro i small
    exact same _ (by omega) (by omega)

/-- The slots begin with the descriptors. -/
theorem prefix_tdmaSlots (m : Nat → UInt8) (off : Nat) :
    List.Forall₂ (· <+: ·) (marked k cmdbuf (adjustDescTdma k) recs)
      (tdmaSlots k cmdbuf m off recs) := by
  induction recs generalizing off with
  | nil => exact .nil
  | cons r rest ih =>
    refine .cons ?_ (ih _)
    obtain ⟨f, is, -⟩ := adjustDescTdma_eq k rest.isEmpty
    rw [is, is, List.mapIdx_append]
    exact List.prefix_append _ _

theorem fits_ofEngine (fits : ∀ r ∈ recs, r.Fits k) :
    ∀ r ∈ ofEngine k.tdma recs, r.len ≤ k.gdmaDescAlignSize := by
  intro r member
  obtain ⟨inRecs, tdma⟩ := List.mem_filter.mp member
  exact (fits r inRecs).2 (by simpa using tdma)

/-- The slots hold the TDMA records in order. -/
theorem copyRecs_tdma (fits : ∀ r ∈ recs, r.Fits k)
    (apart : tiuOffset + countOf k.tiu recs * k.bdRegBytes ≤ tdmaOffset) :
    readSlots (copyRecs k cmdbuf sz recs tiuOffset tdmaOffset s).dmabuf k.gdmaDescAlignSize
        tdmaOffset (countOf k.tdma recs) =
      tdmaSlots k cmdbuf s.dmabuf tdmaOffset (ofEngine k.tdma recs) := by
  induction recs generalizing tiuOffset tdmaOffset s with
  | nil => rfl
  | cons r rest ih =>
    obtain ⟨⟨fitsTiu, fitsTdma⟩, fitsRest⟩ := List.forall_mem_cons.mp fits
    have four := four_le_gdma (k := k)
    unfold copyRecs
    split_ifs with tiu tdma
    · have other : r.engine ≠ k.tdma := by rw [tiu]; exact k.tiu_ne_tdma
      have full := fitsTiu tiu
      simp only [countOf_cons, tiu, if_true, Nat.add_mul, Nat.one_mul] at apart
      have count : countOf k.tdma (r :: rest) = countOf k.tdma rest := by simp [countOf_cons, other]
      rw [count, ofEngine_cons_of_ne other, ih fitsRest (by omega)]
      apply tdmaSlots_congr (fits_ofEngine fitsRest)
      intro a low _
      rw [push_dmabuf, copyTiu_outside (by omega)]
    · simp only [countOf_cons, tiu, if_false, Nat.add_zero] at apart
      have short := fitsTdma tdma
      have count : countOf k.tdma (r :: rest) = countOf k.tdma rest + 1 := by
        simp [countOf_cons, tdma]
      rw [count, readSlots, ofEngine_cons_self tdma, tdmaSlots, isEmpty_ofEngine,
        ih fitsRest (by omega)]
      congr 1
      · rw [← copyTdma_slot tdmaOffset short]
        apply readBytes_congr
        intro i small
        exact copyRecs_outside fitsRest (by omega) (by omega)
      · apply tdmaSlots_congr (fits_ofEngine fitsRest)
        intro a low _
        rw [push_dmabuf, copyTdma_outside (by omega)]
    · simp only [countOf_cons, tiu, if_false, Nat.add_zero] at apart
      have count : countOf k.tdma (r :: rest) = countOf k.tdma rest := by simp [countOf_cons, tdma]
      rw [count, ofEngine_cons_of_ne tdma, ih fitsRest apart, push_dmabuf]

end

/-! ## The loop -/

section

variable {k : KernelHeaders} {cmdbuf : Nat → UInt8} {sz : Nat} {recs rest : List Rec}
    {desc : Option Nat}
  {off tiuNum tdmaNum tiuOffset tdmaOffset : Nat} {s : Buffers}

theorem readDma_apply (n : Nat) : readDma off n s = .ok (readBytes s.dmabuf off n) s := rfl

theorem readDma32_apply : readDma32 off s = .ok (read32 s.dmabuf off) s := rfl

theorem dec32_succ {n : Nat} (small : n + 1 < 2 ^ 32) : dec32 (n + 1) = n := by
  unfold dec32
  omega

theorem copyDesc_tiu {c : Cursor} (tiu : (recAt k cmdbuf off).engine = k.tiu) :
    copyDesc k cmdbuf off tiuNum tdmaNum c s =
      .ok (dec32 tiuNum, tdmaNum, { c with tiuOffset := c.tiuOffset + k.bdRegBytes })
        (s.copyTiu k cmdbuf (recAt k cmdbuf off) c.tiuOffset (dec32 tiuNum = 0)) := by
  simp only [copyDesc, bind_apply, hdrEngine_apply, tiu, if_true, hdrLen_apply, readCmd_apply,
    writeDma_apply, readDma_apply, pure_apply]
  rfl

theorem copyDesc_tdma {c : Cursor} (tdma : (recAt k cmdbuf off).engine = k.tdma)
    (aligned : 2 ^ k.tdmaAlignedBit ∣ c.tdmaOffset) :
    copyDesc k cmdbuf off tiuNum tdmaNum c s =
      .ok (tiuNum, dec32 tdmaNum, { c with tdmaOffset := c.tdmaOffset + k.gdmaDescAlignSize })
        (s.copyTdma k cmdbuf (recAt k cmdbuf off) c.tdmaOffset (dec32 tdmaNum = 0)) := by
  have other := k.tiu_ne_tdma.symm
  simp only [copyDesc, bind_apply, hdrEngine_apply, tdma, other, if_true, if_false, hdrLen_apply,
    readCmd_apply, writeDma_apply, readDma_apply, pure_apply, alignUp_of_dvd aligned]
  rfl

theorem copyDesc_other {c : Cursor} (tiu : (recAt k cmdbuf off).engine ≠ k.tiu)
    (tdma : (recAt k cmdbuf off).engine ≠ k.tdma) :
    copyDesc k cmdbuf off tiuNum tdmaNum c s =
      .ok (tiuNum, tdmaNum, c) (s.push [(recAt k cmdbuf off).engineAccess k]) := by
  simp only [copyDesc, bind_apply, hdrEngine_apply, tiu, tdma, if_false, pure_apply]

/-- Records that end with one to be copied leave something to count. -/
theorem count_pos (known : ∀ r ∈ recs, r.Known k) (nonempty : recs ≠ [])
    (work : ∀ r, recs.getLast? = some r → r.engine ≠ k.cpu) :
    ¬(countOf k.tiu recs = 0 ∧ countOf k.tdma recs = 0) := by
  rintro ⟨noTiu, noTdma⟩
  obtain ⟨r, last⟩ : ∃ r, recs.getLast? = some r := by
    rw [← Option.isSome_iff_exists, List.getLast?_isSome]
    exact nonempty
  have member : r ∈ recs := List.mem_of_getLast? last
  simp only [countOf, List.countP_eq_zero, decide_eq_true_eq] at noTiu noTdma
  rcases known r member with tiu | tdma | cpu
  · exact noTiu r member tiu
  · exact noTdma r member tdma
  · exact work r last cpu

/-- The loop copies the records up to the last one it was told to count. -/
theorem copyLoop_apply (tiuOffset : Nat) (met : Met k cmdbuf sz desc (recs ++ rest) true)
    (work : ∀ r, recs.getLast? = some r → r.engine ≠ k.cpu)
    (fewTiu : countOf k.tiu recs < 65536) (fewTdma : countOf k.tdma recs < 65536)
    (aligned : 2 ^ k.tdmaAlignedBit ∣ tdmaOffset) {fuel : Nat} (enough : recs.length < fuel) :
    ∃ desc', Met k cmdbuf sz desc' rest true ∧
      copyLoop k cmdbuf sz fuel (countOf k.tiu recs) (countOf k.tdma recs)
          ⟨desc, tiuOffset, tdmaOffset⟩ s =
        .ok ⟨desc', tiuOffset + countOf k.tiu recs * k.bdRegBytes,
          tdmaOffset + countOf k.tdma recs * k.gdmaDescAlignSize⟩
          (copyRecs k cmdbuf sz recs tiuOffset tdmaOffset s) := by
  obtain ⟨fuel, rfl⟩ : ∃ fuel', fuel = fuel' + 1 := ⟨fuel - 1, by omega⟩
  induction recs generalizing desc tiuOffset tdmaOffset s fuel with
  | nil => exact ⟨desc, met, by simp [copyLoop, pure_apply, copyRecs]⟩
  | cons r recs ih =>
    have allKnown : ∀ r' ∈ r :: recs, r'.Known k := fun r' member =>
      met.known r' (List.mem_append_left rest member)
    obtain ⟨off, next, rfl, rfl, -, found, metRest⟩ := met.uncons
    have busy := count_pos allKnown (List.cons_ne_nil _ _) work
    have workRest : ∀ r, recs.getLast? = some r → r.engine ≠ k.cpu := by
      intro r last
      apply work r
      rw [List.getLast?_cons, last]
      rfl
    simp only [List.length_cons] at enough
    obtain ⟨fuel, rfl⟩ : ∃ fuel', fuel = fuel' + 1 := ⟨fuel - 1, by omega⟩
    have tiuLe : countOf k.tiu recs ≤ countOf k.tiu (recAt k cmdbuf off :: recs) := by
      rw [countOf_cons]
      omega
    have tdmaLe : countOf k.tdma recs ≤ countOf k.tdma (recAt k cmdbuf off :: recs) := by
      rw [countOf_cons]
      omega
    have apart := k.tiu_ne_tdma
    rw [copyLoop, if_neg busy, copyRecs]
    by_cases tiu : (recAt k cmdbuf off).engine = k.tiu
    · have countTiu : countOf k.tiu (recAt k cmdbuf off :: recs) = countOf k.tiu recs + 1 := by
        simp [countOf_cons, tiu]
      have countTdma : countOf k.tdma (recAt k cmdbuf off :: recs) = countOf k.tdma recs := by
        simp [countOf_cons, tiu, apart]
      obtain ⟨desc', metEnd, runs⟩ :=
        ih _ metRest workRest (by omega) (by omega) aligned fuel (by omega)
      refine ⟨desc', metEnd, ?_⟩
      simp only [bind_apply, copyDesc_tiu tiu, countTiu, countTdma, traverseNext_apply, found,
        if_true, tiu, dec32_succ (show countOf k.tiu recs + 1 < 2 ^ 32 by omega)]
      rw [runs, Nat.add_mul, Nat.one_mul, Nat.add_assoc, Nat.add_comm k.bdRegBytes]
    · by_cases tdma : (recAt k cmdbuf off).engine = k.tdma
      · have countTiu : countOf k.tiu (recAt k cmdbuf off :: recs) = countOf k.tiu recs := by
          simp [countOf_cons, tiu]
        have countTdma : countOf k.tdma (recAt k cmdbuf off :: recs) = countOf k.tdma recs + 1 := by
          simp [countOf_cons, tdma]
        have alignedRest : 2 ^ k.tdmaAlignedBit ∣ tdmaOffset + k.gdmaDescAlignSize :=
          Nat.dvd_add aligned (Nat.dvd_refl _)
        obtain ⟨desc', metEnd, runs⟩ :=
          ih _ metRest workRest (by omega) (by omega) alignedRest fuel (by omega)
        refine ⟨desc', metEnd, ?_⟩
        rw [if_neg tiu]
        simp only [bind_apply, copyDesc_tdma (c := ⟨some off, tiuOffset, tdmaOffset⟩) tdma aligned,
          countTiu, countTdma, traverseNext_apply, found,
          if_true, tdma, dec32_succ (show countOf k.tdma recs + 1 < 2 ^ 32 by omega)]
        rw [runs, Nat.add_mul, Nat.one_mul, Nat.add_assoc, Nat.add_comm k.gdmaDescAlignSize]
      · have countTiu : countOf k.tiu (recAt k cmdbuf off :: recs) = countOf k.tiu recs := by
          simp [countOf_cons, tiu]
        have countTdma : countOf k.tdma (recAt k cmdbuf off :: recs) = countOf k.tdma recs := by
          simp [countOf_cons, tdma]
        obtain ⟨desc', metEnd, runs⟩ :=
          ih _ metRest workRest (by omega) (by omega) aligned fuel (by omega)
        refine ⟨desc', metEnd, ?_⟩
        simp only [bind_apply, copyDesc_other tiu tdma, countTiu, countTdma, traverseNext_apply,
          found, if_false, tiu, tdma, push_push]
        rw [runs]

end

end CviRuntime.Dmabuf
