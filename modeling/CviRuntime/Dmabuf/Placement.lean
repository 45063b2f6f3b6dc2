import CviRuntime.Dmabuf.Slots

/-!
# Placing the segments

One round of the outer loop of `fill_bd_and_tdma` sets the offsets of a segment, copies its
records and pads the TIU slots. The cursor into the TIU part is behind the padding; rounded
up it is the size that `fill_header_and_arm` had computed for the segments before, which is
why the parts of the buffer do not collide.
-/

namespace CviRuntime.Dmabuf

open ByteMem

/-! ## The growth of the TIU part -/

section

variable {k : KernelHeaders} {base size count : Nat} {seg : List Rec} {segs : List (List Rec)}

theorem growTiu_zero : growTiu k size 0 = size := by simp [growTiu]

theorem le_growTiu_of_ne (size : Nat) (some : count ≠ 0) :
    size + count * k.bdRegBytes + bdEodPaddingBytes ≤ growTiu k size count := by
  rw [growTiu, if_pos some]
  exact le_alignUp

theorem le_growTiu (k : KernelHeaders) (size count : Nat) :
    size + count * k.bdRegBytes ≤ growTiu k size count := by
  by_cases some : count = 0
  · rw [some, growTiu_zero, Nat.zero_mul, Nat.add_zero]
  · have := le_growTiu_of_ne (k := k) size some
    omega

theorem growTiu_add (aligned : 2 ^ k.bdcAlignedBit ∣ base) :
    growTiu k (base + size) count = base + growTiu k size count := by
  unfold growTiu
  split_ifs
  · rw [Nat.add_assoc base, Nat.add_assoc base, alignUp_add aligned]
  · rfl

theorem tiuExtent_cons :
    tiuExtent k size (seg :: segs) = tiuExtent k (growTiu k size (countOf k.tiu seg)) segs := rfl

theorem le_tiuExtent (k : KernelHeaders) (size : Nat) (segs : List (List Rec)) :
    size ≤ tiuExtent k size segs := by
  induction segs generalizing size with
  | nil => exact Nat.le_refl size
  | cons seg segs ih =>
    have grown := le_growTiu k size (countOf k.tiu seg)
    have rest := ih (growTiu k size (countOf k.tiu seg))
    rw [tiuExtent_cons]
    omega

theorem tiuExtent_add (aligned : 2 ^ k.bdcAlignedBit ∣ base) (size : Nat) (segs : List (List Rec)) :
    tiuExtent k (base + size) segs = base + tiuExtent k size segs := by
  induction segs generalizing size with
  | nil => rfl
  | cons seg segs ih => rw [tiuExtent_cons, growTiu_add aligned, ih, tiuExtent_cons]

end

/-! ## One segment -/

section

variable (k : KernelHeaders) (cmdbuf : Nat → UInt8) (sz : Nat)

/-- `offset_tiu` and `offset_tdma` of an entry set, if there is something at them. -/
def Buffers.setOffsets (s : Buffers) (arm tiuNum tdmaNum tiuOffset tdmaOffset : Nat) : Buffers :=
  let s := if tiuNum ≠ 0 then s.write (arm + 12) (le32 tiuOffset) else s
  if tdmaNum ≠ 0 then s.write (arm + 16) (le32 tdmaOffset) else s

/-- The padding behind the TIU slots. -/
def Buffers.pad (s : Buffers) (tiuNum off : Nat) : Buffers :=
  if tiuNum ≠ 0 then s.write off (List.replicate bdEodPaddingBytes 0) else s

/-- Where a round puts the TIU slots of a segment. -/
def tiuBegin (tiuNum tiuOffset : Nat) : Nat :=
  if tiuNum ≠ 0 then alignUp tiuOffset k.bdcAlignedBit else tiuOffset

/-- The TIU cursor after a round. -/
def tiuAfter (tiuNum tiuOffset : Nat) : Nat :=
  if tiuNum ≠ 0 then tiuBegin k tiuNum tiuOffset + tiuNum * k.bdRegBytes + bdEodPaddingBytes
  else tiuOffset

/-- The buffers after a round that goes over `recs`. -/
def fillSeg (i : Nat) (recs : List Rec) (tiuOffset tdmaOffset : Nat) (s : Buffers) : Buffers :=
  let tiuNum := countOf k.tiu recs
  let slots := tiuBegin k tiuNum tiuOffset
  (copyRecs k cmdbuf sz recs slots tdmaOffset
    (s.setOffsets (armAt k i) tiuNum (countOf k.tdma recs) slots tdmaOffset)).pad tiuNum
    (slots + tiuNum * k.bdRegBytes)

end

section

variable {k : KernelHeaders} {s : Buffers} {arm tiuNum tdmaNum tiuOffset tdmaOffset off a : Nat}
  {good : Access → Prop}

theorem setOffsets_outside (outside : a < arm + 12 ∨ arm + 20 ≤ a) :
    (s.setOffsets arm tiuNum tdmaNum tiuOffset tdmaOffset).dmabuf a = s.dmabuf a := by
  unfold Buffers.setOffsets
  split_ifs <;> simp only [write_dmabuf]
  · rw [writeBytes_outside (by simp; omega), writeBytes_outside (by simp; omega)]
  · rw [writeBytes_outside (by simp; omega)]
  · rw [writeBytes_outside (by simp; omega)]

theorem setOffsets_tiu (some : tiuNum ≠ 0) :
    read32 (s.setOffsets arm tiuNum tdmaNum tiuOffset tdmaOffset).dmabuf (arm + 12) =
      tiuOffset % 2 ^ 32 := by
  unfold Buffers.setOffsets
  rw [if_pos some]
  split_ifs
  · rw [write_dmabuf, read32_writeBytes_outside (by omega), write_dmabuf, read32_writeBytes_le32]
  · rw [write_dmabuf, read32_writeBytes_le32]

theorem setOffsets_tdma (some : tdmaNum ≠ 0) :
    read32 (s.setOffsets arm tiuNum tdmaNum tiuOffset tdmaOffset).dmabuf (arm + 16) =
      tdmaOffset % 2 ^ 32 := by
  unfold Buffers.setOffsets
  rw [if_pos some, write_dmabuf, read32_writeBytes_le32]

theorem setOffsets_all (inside : ∀ off n, off + n ≤ arm + 20 → good (.write off n)) :
    (s.setOffsets arm tiuNum tdmaNum tiuOffset tdmaOffset).All good ↔ s.All good := by
  have tiu := inside (arm + 12) 4 (by omega)
  have tdma := inside (arm + 16) 4 (by omega)
  unfold Buffers.setOffsets
  split_ifs <;> simp only [all_write, length_le32, tiu, tdma, true_and]

theorem pad_outside (outside : tiuNum ≠ 0 → a < off ∨ off + bdEodPaddingBytes ≤ a) :
    (s.pad tiuNum off).dmabuf a = s.dmabuf a := by
  unfold Buffers.pad
  split_ifs with some
  · rw [write_dmabuf]
    exact writeBytes_outside (by rw [List.length_replicate]; exact outside some)
  · rfl

theorem pad_all (inside : tiuNum ≠ 0 → good (.write off bdEodPaddingBytes)) :
    (s.pad tiuNum off).All good ↔ s.All good := by
  unfold Buffers.pad
  split_ifs with some
  · simp only [all_write, List.length_replicate, inside some, true_and]
  · exact Iff.rfl

theorem le_tiuBegin (k : KernelHeaders) (tiuNum tiuOffset : Nat) :
    tiuOffset ≤ tiuBegin k tiuNum tiuOffset := by
  unfold tiuBegin
  split_ifs
  · exact le_alignUp
  · exact Nat.le_refl _

theorem tiuBegin_le (k : KernelHeaders) (tiuNum tiuOffset : Nat) :
    tiuBegin k tiuNum tiuOffset ≤ alignUp tiuOffset k.bdcAlignedBit := by
  unfold tiuBegin
  split_ifs
  · exact Nat.le_refl _
  · exact le_alignUp

theorem le_tiuAfter (k : KernelHeaders) (tiuNum tiuOffset : Nat) :
    tiuOffset ≤ tiuAfter k tiuNum tiuOffset := by
  have := le_tiuBegin k tiuNum tiuOffset
  unfold tiuAfter
  split_ifs <;> omega

/-- After a round the cursor is behind the slots. -/
theorem slot_lt_tiuAfter {k : KernelHeaders} {tiuNum tiuOffset a : Nat}
    (low : alignUp tiuOffset k.bdcAlignedBit ≤ a)
    (high : a < alignUp tiuOffset k.bdcAlignedBit + tiuNum * k.bdRegBytes) :
    a < tiuAfter k tiuNum tiuOffset := by
  have some : tiuNum ≠ 0 := by
    rintro rfl
    rw [Nat.zero_mul] at high
    omega
  rw [tiuAfter, tiuBegin, if_pos some, if_pos some]
  omega

/-- Rounded up, the cursor follows the sizes computed before. -/
theorem alignUp_tiuAfter (k : KernelHeaders) (tiuNum tiuOffset : Nat) :
    alignUp (tiuAfter k tiuNum tiuOffset) k.bdcAlignedBit =
    growTiu k (alignUp tiuOffset k.bdcAlignedBit) tiuNum := by
  unfold tiuAfter growTiu
  split_ifs with some
  · rw [tiuBegin, if_pos some]
  · rfl

end

section

variable (k : KernelHeaders)

/-- The TIU slots of a segment, found through its entry of the table. -/
def walkTiu (m : Nat → UInt8) (i : Nat) : List (List UInt8) :=
  readSlots m k.bdRegBytes (read32 m (armAt k i + 12)) (read32 m (armAt k i + 4))

/-- The TDMA slots of a segment. -/
def walkTdma (m : Nat → UInt8) (i : Nat) : List (List UInt8) :=
  readSlots m k.gdmaDescAlignSize (read32 m (armAt k i + 16)) (read32 m (armAt k i + 8))

/-- The encoded buffer has a segment at entry `i`: the numbers, and behind the offsets the
    descriptors. A TDMA body may be shorter than its slot. -/
structure SegmentHolds (cmdbuf m : Nat → UInt8) (i : Nat) (seg : List Rec) : Prop where
  numTiu : read32 m (armAt k i + 4) = countOf k.tiu seg
  numTdma : read32 m (armAt k i + 8) = countOf k.tdma seg
  tiu : walkTiu k m i = sentTiu k cmdbuf seg
  tdma : List.Forall₂ (· <+: ·) (sentTdma k cmdbuf seg) (walkTdma k m i)

end

section

variable {k : KernelHeaders} {cmdbuf : Nat → UInt8} {sz : Nat} {recs : List Rec} {s : Buffers}
  {i tiuOffset tdmaOffset a : Nat} {good : Access → Prop}

/-- Below the cursor a round changes the offsets only. -/
theorem fillSeg_low
    (ordered : growTiu k (alignUp tiuOffset k.bdcAlignedBit) (countOf k.tiu recs) ≤ tdmaOffset)
    (below : a < tiuOffset) : (fillSeg k cmdbuf sz i recs tiuOffset tdmaOffset s).dmabuf a =
      (s.setOffsets (armAt k i) (countOf k.tiu recs) (countOf k.tdma recs)
        (tiuBegin k (countOf k.tiu recs) tiuOffset) tdmaOffset).dmabuf a := by
  have low := le_tiuBegin k (countOf k.tiu recs) tiuOffset
  have high := tiuBegin_le k (countOf k.tiu recs) tiuOffset
  have grown := le_growTiu k (alignUp tiuOffset k.bdcAlignedBit) (countOf k.tiu recs)
  rw [fillSeg, pad_outside fun _ => Or.inl (by omega), copyRecs_below (by omega) (by omega)]

theorem fillSeg_below
    (ordered : growTiu k (alignUp tiuOffset k.bdcAlignedBit) (countOf k.tiu recs) ≤ tdmaOffset)
    (below : a < tiuOffset) (outside : a < armAt k i + 12 ∨ armAt k i + 20 ≤ a) :
    (fillSeg k cmdbuf sz i recs tiuOffset tdmaOffset s).dmabuf a = s.dmabuf a := by
  rw [fillSeg_low ordered below, setOffsets_outside outside]

theorem fillSeg_outside (fits : ∀ r ∈ recs, r.Fits k)
    (outside : a < armAt k i + 12 ∨ armAt k i + 20 ≤ a)
    (outsideTiu : a < tiuOffset ∨
      growTiu k (alignUp tiuOffset k.bdcAlignedBit) (countOf k.tiu recs) ≤ a)
    (outsideTdma : a < tdmaOffset ∨ tdmaOffset + countOf k.tdma recs * k.gdmaDescAlignSize ≤ a) :
    (fillSeg k cmdbuf sz i recs tiuOffset tdmaOffset s).dmabuf a = s.dmabuf a := by
  have low := le_tiuBegin k (countOf k.tiu recs) tiuOffset
  have high := tiuBegin_le k (countOf k.tiu recs) tiuOffset
  have grown := le_growTiu k (alignUp tiuOffset k.bdcAlignedBit) (countOf k.tiu recs)
  rw [fillSeg, pad_outside, copyRecs_outside fits (by omega) outsideTdma,
    setOffsets_outside outside]
  intro some
  have padded := le_growTiu_of_ne (k := k) (alignUp tiuOffset k.bdcAlignedBit) some
  omega

theorem fillSeg_all {limit : Nat} (known : ∀ r ∈ recs, r.Known k)
    (headers : ∀ r ∈ recs, r.HeaderGood k sz good)
    (inside : ∀ off n, off + n ≤ limit → good (.write off n)) (table : armAt k i + 20 ≤ limit)
    (tiuFits : growTiu k (alignUp tiuOffset k.bdcAlignedBit) (countOf k.tiu recs) ≤ limit)
    (tdmaFits : tdmaOffset + countOf k.tdma recs * k.gdmaDescAlignSize ≤ limit) :
    (fillSeg k cmdbuf sz i recs tiuOffset tdmaOffset s).All good ↔
      (StrideGood k good k.bdRegBytes (alignUp tiuOffset k.bdcAlignedBit) (ofEngine k.tiu recs) ∧
        StrideGood k good k.gdmaDescAlignSize tdmaOffset (ofEngine k.tdma recs)) ∧ s.All good := by
  have high := tiuBegin_le k (countOf k.tiu recs) tiuOffset
  have grown := le_growTiu k (alignUp tiuOffset k.bdcAlignedBit) (countOf k.tiu recs)
  have slots : StrideGood k good k.bdRegBytes (tiuBegin k (countOf k.tiu recs) tiuOffset)
      (ofEngine k.tiu recs) ↔ StrideGood k good k.bdRegBytes (alignUp tiuOffset k.bdcAlignedBit)
      (ofEngine k.tiu recs) := by
    by_cases some : countOf k.tiu recs = 0
    · rw [List.eq_nil_of_length_eq_zero (length_ofEngine.trans some)]
      exact Iff.rfl
    · rw [tiuBegin, if_pos some]
  rw [fillSeg, pad_all, copyRecs_all known headers (fun off n le => inside off n (by omega))
    (fun off n le => inside off n (by omega)),
    setOffsets_all fun off n le => inside off n (by omega), slots]
  intro some
  have padded := le_growTiu_of_ne (k := k) (alignUp tiuOffset k.bdcAlignedBit) some
  exact inside _ _ (by omega)

theorem fillSeg_tiu (fits : ∀ r ∈ recs, r.Fits k)
    (ordered : growTiu k (alignUp tiuOffset k.bdcAlignedBit) (countOf k.tiu recs) ≤ tdmaOffset)
    (some : countOf k.tiu recs ≠ 0) :
    readSlots (fillSeg k cmdbuf sz i recs tiuOffset tdmaOffset s).dmabuf k.bdRegBytes
      (alignUp tiuOffset k.bdcAlignedBit) (countOf k.tiu recs) = sentTiu k cmdbuf recs := by
  have begins : tiuBegin k (countOf k.tiu recs) tiuOffset = alignUp tiuOffset k.bdcAlignedBit :=
    if_pos some
  have grown := le_growTiu k (alignUp tiuOffset k.bdcAlignedBit) (countOf k.tiu recs)
  rw [fillSeg, begins, readSlots_congr fun a low high => pad_outside fun _ => Or.inl high]
  apply copyRecs_tiu fits
  omega

theorem fillSeg_tdma (fits : ∀ r ∈ recs, r.Fits k) (table : armAt k (i + 1) ≤ tiuOffset)
    (ordered : growTiu k (alignUp tiuOffset k.bdcAlignedBit) (countOf k.tiu recs) ≤ tdmaOffset) :
    readSlots (fillSeg k cmdbuf sz i recs tiuOffset tdmaOffset s).dmabuf k.gdmaDescAlignSize
        tdmaOffset (countOf k.tdma recs) =
      tdmaSlots k cmdbuf s.dmabuf tdmaOffset (ofEngine k.tdma recs) := by
  have start : tiuOffset ≤ alignUp tiuOffset k.bdcAlignedBit := le_alignUp
  have high := tiuBegin_le k (countOf k.tiu recs) tiuOffset
  have grown := le_growTiu k (alignUp tiuOffset k.bdcAlignedBit) (countOf k.tiu recs)
  have padded (some : countOf k.tiu recs ≠ 0) :=
    le_growTiu_of_ne (k := k) (alignUp tiuOffset k.bdcAlignedBit) some
  have size := armBytes_eq (k := k)
  have step := armAt_succ k i
  rw [fillSeg, readSlots_congr fun a low high => pad_outside fun some => Or.inr ?_]
  · rw [copyRecs_tdma fits (by omega)]
    apply tdmaSlots_congr (fits_ofEngine fits)
    intro a low _
    exact setOffsets_outside (by omega)
  · have := padded some
    omega

/-- The offsets in an entry whose segment has slots. -/
def OffsetsAre (k : KernelHeaders) (m : Nat → UInt8) (i : Nat) (seg : List Rec)
    (tiuOffset tdmaOffset : Nat) :
    Prop :=
  (countOf k.tiu seg ≠ 0 → read32 m (armAt k i + 12) = tiuOffset) ∧
    (countOf k.tdma seg ≠ 0 → read32 m (armAt k i + 16) = tdmaOffset)

/-- The offsets are kept in 32 bits. -/
theorem fillSeg_offsets_mod
    (ordered : growTiu k (alignUp tiuOffset k.bdcAlignedBit) (countOf k.tiu recs) ≤ tdmaOffset)
    (table : armAt k (i + 1) ≤ tiuOffset) :
    OffsetsAre k (fillSeg k cmdbuf sz i recs tiuOffset tdmaOffset s).dmabuf i recs
      (alignUp tiuOffset k.bdcAlignedBit % 2 ^ 32) (tdmaOffset % 2 ^ 32) := by
  have size := armBytes_eq (k := k)
  rw [armAt_succ] at table
  constructor
  · intro some
    have begins : tiuBegin k (countOf k.tiu recs) tiuOffset = alignUp tiuOffset k.bdcAlignedBit :=
      if_pos some
    rw [read32_congr fun j small => fillSeg_low ordered (by omega), setOffsets_tiu some, begins]
  · intro some
    rw [read32_congr fun j small => fillSeg_low ordered (by omega), setOffsets_tdma some]

theorem fillSeg_offsets {limit : Nat}
    (ordered : growTiu k (alignUp tiuOffset k.bdcAlignedBit) (countOf k.tiu recs) ≤ tdmaOffset)
    (table : armAt k (i + 1) ≤ tiuOffset) (word : limit < 2 ^ 32)
    (last : tdmaOffset + countOf k.tdma recs * k.gdmaDescAlignSize ≤ limit) :
    OffsetsAre k (fillSeg k cmdbuf sz i recs tiuOffset tdmaOffset s).dmabuf i recs
      (alignUp tiuOffset k.bdcAlignedBit) tdmaOffset := by
  have grown := le_growTiu k (alignUp tiuOffset k.bdcAlignedBit) (countOf k.tiu recs)
  have offsets : OffsetsAre k (fillSeg k cmdbuf sz i recs tiuOffset tdmaOffset s).dmabuf i recs
      (alignUp tiuOffset k.bdcAlignedBit % 2 ^ 32) (tdmaOffset % 2 ^ 32) :=
    fillSeg_offsets_mod ordered table
  rwa [Nat.mod_eq_of_lt (by omega), Nat.mod_eq_of_lt (by omega)] at offsets

theorem fillSeg_holds {limit : Nat} (fits : ∀ r ∈ recs, r.Fits k)
    (ordered : growTiu k (alignUp tiuOffset k.bdcAlignedBit) (countOf k.tiu recs) ≤ tdmaOffset)
    (table : armAt k (i + 1) ≤ tiuOffset) (word : limit < 2 ^ 32)
    (last : tdmaOffset + countOf k.tdma recs * k.gdmaDescAlignSize ≤ limit)
    (tiuField : read32 s.dmabuf (armAt k i + 4) = countOf k.tiu recs)
    (tdmaField : read32 s.dmabuf (armAt k i + 8) = countOf k.tdma recs) :
    SegmentHolds k cmdbuf (fillSeg k cmdbuf sz i recs tiuOffset tdmaOffset s).dmabuf i recs := by
  obtain ⟨tiuAt, tdmaAt⟩ :
      OffsetsAre k (fillSeg k cmdbuf sz i recs tiuOffset tdmaOffset s).dmabuf i recs
      (alignUp tiuOffset k.bdcAlignedBit) tdmaOffset := fillSeg_offsets ordered table word last
  have size := armBytes_eq (k := k)
  rw [armAt_succ] at table
  have numTiu : read32 (fillSeg k cmdbuf sz i recs tiuOffset tdmaOffset s).dmabuf (armAt k i + 4) =
      countOf k.tiu recs := by
    rw [← tiuField]
    exact read32_congr fun j small => fillSeg_below ordered (by omega) (by omega)
  have numTdma : read32 (fillSeg k cmdbuf sz i recs tiuOffset tdmaOffset s).dmabuf (armAt k i + 8) =
      countOf k.tdma recs := by
    rw [← tdmaField]
    exact read32_congr fun j small => fillSeg_below ordered (by omega) (by omega)
  refine ⟨numTiu, numTdma, ?_, ?_⟩
  · rw [walkTiu, numTiu]
    by_cases none : countOf k.tiu recs = 0
    · rw [none, sentTiu, List.eq_nil_of_length_eq_zero (length_ofEngine.trans none)]
      rfl
    · rw [tiuAt none, fillSeg_tiu fits ordered none]
  · rw [walkTdma, numTdma]
    by_cases none : countOf k.tdma recs = 0
    · rw [none, sentTdma, List.eq_nil_of_length_eq_zero (length_ofEngine.trans none)]
      exact .nil
    · rw [tdmaAt none]
      rw [fillSeg_tdma fits (by rw [armAt_succ]; exact table) ordered]
      exact prefix_tdmaSlots _ _

/-- The part of a round before the copying. -/
theorem fillSegment_eq {desc : Option Nat} {tiuNum tdmaNum : Nat}
    (tiuField : read32 s.dmabuf (armAt k i + 4) = tiuNum)
    (tdmaField : read32 s.dmabuf (armAt k i + 8) = tdmaNum)
    (fewTiu : tiuNum < 65536) (fewTdma : tdmaNum < 65536)
    (aligned : 2 ^ k.tdmaAlignedBit ∣ tdmaOffset) :
    fillSegment k cmdbuf sz i ⟨desc, tiuOffset, tdmaOffset⟩ s =
      (copyLoop k cmdbuf sz (sz + 2) tiuNum tdmaNum ⟨desc, tiuBegin k tiuNum tiuOffset,
        tdmaOffset⟩ >>=
        fun c => do
          if (← readDma32 (armAt k i + 4)) % 65536 ≠ 0 then
            writeDma c.tiuOffset (List.replicate bdEodPaddingBytes 0)
            return { c with tiuOffset := c.tiuOffset + bdEodPaddingBytes }
          else return c)
        (s.setOffsets (armAt k i) tiuNum tdmaNum (tiuBegin k tiuNum tiuOffset) tdmaOffset) := by
  simp only [fillSegment, bind_apply, readDma32_apply, tiuField, tdmaField, Nat.mod_eq_of_lt fewTiu,
    Nat.mod_eq_of_lt fewTdma, alignUp_of_dvd aligned, ite_self]
  by_cases tiu : tiuNum = 0
  · by_cases tdma : tdmaNum = 0
    · simp [tiu, tdma, Buffers.setOffsets, tiuBegin, bind_apply, readDma32_apply]
    · simp [tiu, tdma, Buffers.setOffsets, tiuBegin, bind_apply, readDma32_apply, writeDma_apply]
  · by_cases tdma : tdmaNum = 0
    · simp [tiu, tdma, Buffers.setOffsets, tiuBegin, bind_apply, readDma32_apply, writeDma_apply]
    · simp [tiu, tdma, Buffers.setOffsets, tiuBegin, bind_apply, readDma32_apply, writeDma_apply]

/-- A round of the loop over the segments. It goes over the records up to the last one to be
    copied; CPU records after that are left for later rounds. -/
theorem fillSegment_apply (tiuOffset tdmaOffset : Nat) (s : Buffers) {desc : Option Nat}
    {rest : List Rec}
    (met : Met k cmdbuf sz desc (recs ++ rest) true)
    (work : ∀ r, recs.getLast? = some r → r.engine ≠ k.cpu)
    (fewTiu : countOf k.tiu recs < 65536) (fewTdma : countOf k.tdma recs < 65536)
    (tiuField : read32 s.dmabuf (armAt k i + 4) = countOf k.tiu recs)
    (tdmaField : read32 s.dmabuf (armAt k i + 8) = countOf k.tdma recs)
    (aligned : 2 ^ k.tdmaAlignedBit ∣ tdmaOffset) (table : armAt k (i + 1) ≤ tiuOffset)
    (ordered : growTiu k (alignUp tiuOffset k.bdcAlignedBit) (countOf k.tiu recs) ≤ tdmaOffset) :
    ∃ desc', Met k cmdbuf sz desc' rest true ∧
      fillSegment k cmdbuf sz i ⟨desc, tiuOffset, tdmaOffset⟩ s =
        .ok ⟨desc', tiuAfter k (countOf k.tiu recs) tiuOffset,
          tdmaOffset + countOf k.tdma recs * k.gdmaDescAlignSize⟩
          (fillSeg k cmdbuf sz i recs tiuOffset tdmaOffset s) := by
  have enough : recs.length < sz + 2 := by
    cases desc with
    | none =>
      have empty : recs ++ rest = [] := met.next_none_iff.mp rfl
      rw [(List.append_eq_nil_iff.mp empty).1]
      simp
    | some off =>
      have short := met.length_le
      rw [List.length_append] at short
      omega
  have size := armBytes_eq (k := k)
  have step := armAt_succ k i
  have low := le_tiuBegin k (countOf k.tiu recs) tiuOffset
  have high := tiuBegin_le k (countOf k.tiu recs) tiuOffset
  have grown := le_growTiu k (alignUp tiuOffset k.bdcAlignedBit) (countOf k.tiu recs)
  obtain ⟨desc', metRest, runs⟩ :=
      copyLoop_apply (s := s.setOffsets (armAt k i) (countOf k.tiu recs)
    (countOf k.tdma recs) (tiuBegin k (countOf k.tiu recs) tiuOffset) tdmaOffset)
    (tiuBegin k (countOf k.tiu recs) tiuOffset) met work fewTiu fewTdma aligned enough
  have field : read32 (copyRecs k cmdbuf sz recs
      (tiuBegin k (countOf k.tiu recs) tiuOffset) tdmaOffset
      (s.setOffsets (armAt k i) (countOf k.tiu recs) (countOf k.tdma recs)
        (tiuBegin k (countOf k.tiu recs) tiuOffset) tdmaOffset)).dmabuf (armAt k i + 4) =
      countOf k.tiu recs := by
    rw [read32_congr fun j small => copyRecs_below (by omega) (by omega),
      read32_congr fun j small => setOffsets_outside (by omega), tiuField]
  refine ⟨desc', metRest, ?_⟩
  rw [fillSegment_eq tiuField tdmaField fewTiu fewTdma aligned, bind_apply, runs]
  simp only [bind_apply, readDma32_apply, field, Nat.mod_eq_of_lt fewTiu, fillSeg, Buffers.pad,
    tiuAfter]
  by_cases none : countOf k.tiu recs = 0
  · simp [none, pure_apply, tiuBegin]
  · simp [none, pure_apply, bind_apply, writeDma_apply]

end

end CviRuntime.Dmabuf
