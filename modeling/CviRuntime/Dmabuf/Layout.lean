import CviRuntime.Dmabuf.Image

/-!
# Where the encoded buffer has what

The segments of an encoded buffer have their slots one after the other, a segment without TIU
or TDMA records none. `Placed` says where they are and what they hold, also for buffers that
have grown beyond 4 GiB: the slots are then at their places, and only the offsets kept in the
table lose their upper bits.
-/

namespace CviRuntime.Dmabuf

open ByteMem

section

variable (k : KernelHeaders)

/-- The place of the TIU slots of segment `j`, when there are any. -/
def tiuPlace (segs : List (List Rec)) (j : Nat) : Nat :=
  tiuExtent k (tiuStart k segs) (segs.take j)

/-- The place of the TDMA slots of segment `j`. -/
def tdmaPlace (segs : List (List Rec)) (j : Nat) : Nat :=
  tdmaStart k segs + countOf k.tdma (segs.take j).flatten * k.gdmaDescAlignSize

/-- In a memory that was `m` before, entry `i` has the offsets of a segment, and there are its
    descriptors. -/
structure Placed (cmdbuf m m' : Nat → UInt8) (i : Nat) (seg : List Rec) (tiuAt tdmaAt : Nat) :
    Prop where
  offsets : OffsetsAre k m' i seg (tiuAt % 2 ^ 32) (tdmaAt % 2 ^ 32)
  tiu : readSlots m' k.bdRegBytes tiuAt (countOf k.tiu seg) = sentTiu k cmdbuf seg
  tdma : readSlots m' k.gdmaDescAlignSize tdmaAt (countOf k.tdma seg) =
    tdmaSlots k cmdbuf m tdmaAt (ofEngine k.tdma seg)

end

section

variable {k : KernelHeaders} {cmdbuf m m' m₀ : Nat → UInt8} {i tiuOffset tdmaOffset a : Nat}
  {seg : List Rec} {segs : List (List Rec)}

theorem Placed.frame {tiuAt tdmaAt : Nat} (placed : Placed k cmdbuf m₀ m i seg tiuAt tdmaAt)
    (entry : ∀ a, armAt k i ≤ a → a < armAt k (i + 1) → m' a = m a)
    (tiuSame : ∀ a, tiuAt ≤ a → a < tiuAt + countOf k.tiu seg * k.bdRegBytes → m' a = m a)
    (tdmaSame : ∀ a, tdmaAt ≤ a → a < tdmaAt + countOf k.tdma seg * k.gdmaDescAlignSize →
      m' a = m a) : Placed k cmdbuf m₀ m' i seg tiuAt tdmaAt := by
  have size := armBytes_eq (k := k)
  rw [armAt_succ] at entry
  have field {d : Nat} (inside : d + 4 ≤ 20) :
      read32 m' (armAt k i + d) = read32 m (armAt k i + d) :=
    read32_congr fun j small => entry _ (by omega) (by omega)
  obtain ⟨⟨tiuField, tdmaField⟩, tiu, tdma⟩ := placed
  refine ⟨⟨?_, ?_⟩, ?_, ?_⟩
  · rw [field (by omega)]
    exact tiuField
  · rw [field (by omega)]
    exact tdmaField
  · rw [readSlots_congr tiuSame, tiu]
  · rw [readSlots_congr tdmaSame, tdma]

section

variable (table : armAt k (i + 1) ≤ tiuOffset)
  (ordered : growTiu k (alignUp tiuOffset k.bdcAlignedBit) (countOf k.tiu seg) ≤ tdmaOffset)
  (fits : ∀ r ∈ seg, r.Fits k)

include table ordered fits

/-- A round places its segment. -/
theorem fillMem_placed : Placed k cmdbuf m (fillMem k cmdbuf i seg tiuOffset tdmaOffset m) i seg
    (alignUp tiuOffset k.bdcAlignedBit) tdmaOffset := by
  refine ⟨fillSeg_offsets_mod ordered table, ?_, fillSeg_tdma fits table ordered⟩
  by_cases none : countOf k.tiu seg = 0
  · rw [none, sentTiu, List.eq_nil_of_length_eq_zero (length_ofEngine.trans none)]
    rfl
  · exact fillSeg_tiu fits ordered none

end

theorem fillMems_cons : fillMems k cmdbuf (seg :: segs) i tiuOffset tdmaOffset m =
    fillMems k cmdbuf segs (i + 1) (tiuAfter k (countOf k.tiu seg) tiuOffset)
      (tdmaOffset + countOf k.tdma seg * k.gdmaDescAlignSize)
      (fillMem k cmdbuf i seg tiuOffset tdmaOffset m) := rfl

theorem room_cons (room : armAt k (i + (seg :: segs).length) ≤ tiuOffset) :
    armAt k (i + 1) ≤ tiuOffset ∧ armAt k (i + 1 + segs.length) ≤ tiuOffset ∧
      armAt k (i + 1 + segs.length) ≤ tiuAfter k (countOf k.tiu seg) tiuOffset := by
  have after := le_tiuAfter k (countOf k.tiu seg) tiuOffset
  rw [List.length_cons] at room
  have first : armAt k (i + 1) ≤ armAt k (i + (segs.length + 1)) := armAt_mono (by omega)
  rw [show i + 1 + segs.length = i + (segs.length + 1) by omega]
  omega

/-- Below the cursor the rounds change the offsets in the table only. -/
theorem fillMems_low (room : armAt k (i + segs.length) ≤ tiuOffset)
    (ordered : tiuExtent k (alignUp tiuOffset k.bdcAlignedBit) segs ≤ tdmaOffset)
    (below : a < tiuOffset)
    (outside : ∀ j, j < segs.length → a < armAt k (i + j) + 12 ∨ armAt k (i + j) + 20 ≤ a) :
    fillMems k cmdbuf segs i tiuOffset tdmaOffset m a = m a := by
  induction segs generalizing i tiuOffset tdmaOffset m with
  | nil => rfl
  | cons seg segs ih =>
    obtain ⟨-, -, roomRest⟩ := room_cons room
    obtain ⟨-, fitsHere, orderedRest⟩ := ordered_cons rfl ordered
    have after := le_tiuAfter k (countOf k.tiu seg) tiuOffset
    rw [fillMems_cons, ih roomRest (by rw [alignUp_tiuAfter]; omega) (by omega)]
    · exact fillSeg_below fitsHere below (outside 0 (by simp))
    · intro j small
      have later := outside (j + 1) (by simpa using small)
      rwa [show i + (j + 1) = i + 1 + j by omega] at later

/-- What lies before the entries, between the parts or behind them stays. -/
theorem fillMems_outside (room : armAt k (i + segs.length) ≤ tiuOffset)
    (ordered : tiuExtent k (alignUp tiuOffset k.bdcAlignedBit) segs ≤ tdmaOffset)
    (fits : ∀ r ∈ segs.flatten, r.Fits k)
    (table : a < armAt k i ∨ armAt k (i + segs.length) ≤ a)
    (tiu : a < tiuOffset ∨ tiuExtent k (alignUp tiuOffset k.bdcAlignedBit) segs ≤ a)
    (tdma : a < tdmaOffset ∨
      tdmaOffset + countOf k.tdma segs.flatten * k.gdmaDescAlignSize ≤ a) :
    fillMems k cmdbuf segs i tiuOffset tdmaOffset m a = m a := by
  induction segs generalizing i tiuOffset tdmaOffset m with
  | nil => rfl
  | cons seg segs ih =>
    obtain ⟨-, -, roomRest⟩ := room_cons room
    obtain ⟨-, fitsHere, orderedRest⟩ := ordered_cons rfl ordered
    have after := le_tiuAfter k (countOf k.tiu seg) tiuOffset
    have size := armBytes_eq (k := k)
    have step := armAt_succ k i
    have entries : armAt k (i + 1) ≤ armAt k (i + (segs.length + 1)) := armAt_mono (by omega)
    have grown := le_tiuExtent k
      (growTiu k (alignUp tiuOffset k.bdcAlignedBit) (countOf k.tiu seg)) segs
    rw [List.flatten_cons, List.forall_mem_append] at fits
    rw [List.length_cons] at table
    rw [tiuExtent_cons] at tiu
    rw [tdmaEnd_cons rfl] at tdma
    have length : i + 1 + segs.length = i + (segs.length + 1) := by omega
    rw [fillMems_cons, ih roomRest (by rw [alignUp_tiuAfter]; omega) fits.2
      (by rw [length]; omega) (by rw [alignUp_tiuAfter]; omega) (by omega)]
    exact fillSeg_outside fits.1 (by omega) (by omega) (by omega)

/-- Every segment is placed, and later rounds leave it alone. -/
theorem fillMems_placed (room : armAt k (i + segs.length) ≤ tiuOffset)
    (ordered : tiuExtent k (alignUp tiuOffset k.bdcAlignedBit) segs ≤ tdmaOffset)
    (fits : ∀ r ∈ segs.flatten, r.Fits k) (m : Nat → UInt8) {j : Nat}
    (found : segs[j]? = some seg) :
    Placed k cmdbuf m (fillMems k cmdbuf segs i tiuOffset tdmaOffset m) (i + j) seg
      (tiuExtent k (alignUp tiuOffset k.bdcAlignedBit) (segs.take j))
      (tdmaOffset + countOf k.tdma (segs.take j).flatten * k.gdmaDescAlignSize) := by
  induction segs generalizing i tiuOffset tdmaOffset m j with
  | nil => simp at found
  | cons seg' segs ih =>
    obtain ⟨table, behind, roomRest⟩ := room_cons room
    obtain ⟨-, fitsHere, orderedRest⟩ := ordered_cons rfl ordered
    have start : tiuOffset ≤ alignUp tiuOffset k.bdcAlignedBit := le_alignUp
    have size := armBytes_eq (k := k)
    have step := armAt_succ k i
    have after := le_tiuAfter k (countOf k.tiu seg') tiuOffset
    have grown := le_growTiu k (alignUp tiuOffset k.bdcAlignedBit) (countOf k.tiu seg')
    have orderedNext : tiuExtent k
        (alignUp (tiuAfter k (countOf k.tiu seg') tiuOffset) k.bdcAlignedBit) segs ≤
          tdmaOffset + countOf k.tdma seg' * k.gdmaDescAlignSize := by
      rw [alignUp_tiuAfter]
      omega
    rw [List.flatten_cons, List.forall_mem_append] at fits
    rw [fillMems_cons]
    cases j with
    | zero =>
      obtain rfl : seg' = seg := by simpa using found
      have placed : Placed k cmdbuf m (fillMem k cmdbuf i seg' tiuOffset tdmaOffset m) i seg'
          (alignUp tiuOffset k.bdcAlignedBit) tdmaOffset := fillMem_placed table fitsHere fits.1
      have entries : armAt k (i + 1) ≤ armAt k (i + 1 + segs.length) := armAt_mono (by omega)
      rw [List.take_zero, List.flatten_nil, countOf_nil, Nat.zero_mul, Nat.add_zero]
      apply placed.frame
      · intro a _ high
        exact fillMems_outside roomRest orderedNext fits.2 (by omega) (by omega) (by omega)
      · intro a low high
        have before := slot_lt_tiuAfter low high
        exact fillMems_outside roomRest orderedNext fits.2 (by omega) (by omega) (by omega)
      · intro a low high
        rw [alignUp_tiuAfter] at orderedNext
        exact fillMems_outside roomRest (by rw [alignUp_tiuAfter]; exact orderedNext) fits.2
          (by omega) (by rw [alignUp_tiuAfter]; omega) (by omega)
    | succ j =>
      rw [List.getElem?_cons_succ] at found
      have short : ∀ r ∈ ofEngine k.tdma seg, r.len ≤ k.gdmaDescAlignSize := by
        apply fits_ofEngine
        intro r member
        exact fits.2 r (List.mem_flatten_of_mem (List.mem_of_getElem? found) member)
      have placed := ih roomRest orderedNext fits.2 (fillMem k cmdbuf i seg' tiuOffset tdmaOffset m)
        found
      rw [alignUp_tiuAfter, ← tiuExtent_cons, show i + 1 + j = i + (j + 1) by omega,
        ← tdmaEnd_cons rfl] at placed
      rw [List.take_succ_cons]
      refine ⟨placed.offsets, placed.tiu, placed.tdma.trans (tdmaSlots_congr short ?_)⟩
      intro a low _
      rw [tdmaEnd_cons rfl] at low
      exact fillSeg_outside fits.1 (by omega) (by omega) (by omega)

end

/-! ## The whole buffer -/

section

variable {k : KernelHeaders} {cmdbuf : Nat → UInt8} {sz i a : Nat} {recs seg : List Rec}
  {segs : List (List Rec)}

theorem armMems_outside {m : Nat → UInt8} (outside : armAt k (i + segs.length) ≤ a) :
    armMems k cmdbuf segs i m a = m a := by
  induction segs generalizing i m with
  | nil => rfl
  | cons seg segs ih =>
    have entries : armAt k (i + 1) ≤ armAt k (i + (segs.length + 1)) := armAt_mono (by omega)
    rw [List.length_cons] at outside
    rw [armMems, ih (by rwa [show i + 1 + segs.length = i + (segs.length + 1) by omega]), armMem]
    cases seg.getLast? with
    | none => rfl
    | some r =>
      apply armEntry_set.frame
      rw [armAt_succ] at entries
      omega

theorem headMem_outside (m : Nat → UInt8) (outside : armAt k (segments k recs).length ≤ a) :
    headMem k cmdbuf recs m a = m a := by
  have first : 128 ≤ armAt k (segments k recs).length := Nat.le_add_right _ _
  rw [headMem, writeBytes_outside, armMems_outside (by rwa [Nat.zero_add])]
  rw [headerBytes_length, sizeofDmaHdr]
  omega

theorem headMem_header (m : Nat → UInt8) (inside : a < 128) : headMem k cmdbuf recs m a =
    (headerBytes (encodedSize k recs) (segments k recs).length (countOf k.tiu recs)
      (countOf k.tdma recs)).getD a 0 := by
  rw [headMem, writeBytes_inside (Nat.zero_le a)]
  · rfl
  · rw [headerBytes_length, sizeofDmaHdr]
    omega

variable (wf : WellFormed k cmdbuf sz recs) (m : Nat → UInt8)

include wf

/-- The header is the one that `fill_header_and_arm` wrote. -/
theorem encodeMem_header (inside : a < 128) : encodeMem k cmdbuf recs m a =
    (headerBytes (encodedSize k recs) (segments k recs).length (countOf k.tiu recs)
      (countOf k.tdma recs)).getD a 0 := by
  have ready := fillReady_headMem wf.magic wf.met wf.small m
  have above := ready.room
  have first (i : Nat) : 128 ≤ armAt k i := Nat.le_add_right _ _
  have start := first (0 + (countedSegments k recs).length)
  rw [encodeMem, fillMems_low ready.room ready.ordered (by omega), headMem_header m inside]
  intro j _
  have := first (0 + j)
  omega

/-- `dmabuf_magic_m` and `dmabuf_magic_s`. -/
theorem encodeMem_magic : read32 (encodeMem k cmdbuf recs m) 0 = 0x1822B5B5 := by
  show leNat [encodeMem k cmdbuf recs m 0, encodeMem k cmdbuf recs m 1,
    encodeMem k cmdbuf recs m 2, encodeMem k cmdbuf recs m 3] = 0x1822B5B5
  rw [encodeMem_header wf m (by decide), encodeMem_header wf m (by decide),
    encodeMem_header wf m (by decide), encodeMem_header wf m (by decide)]
  simp only [headerBytes, List.cons_append, List.getD_cons_zero, List.getD_cons_succ]
  decide

theorem encodeMem_number :
    read32 (encodeMem k cmdbuf recs m) 8 = (segments k recs).length % 2 ^ 32 := by
  rw [← (headMem_spec wf.magic wf.met m).2]
  apply read32_congr
  intro j small
  rw [encodeMem_header wf m (by omega), headMem_header m (by omega)]

/-- The numbers in the table are those of the segments. -/
theorem encodeMem_numbers : ArmsHold k (encodeMem k cmdbuf recs m) 0 (countedSegments k recs) := by
  have ready := fillReady_headMem wf.magic wf.met wf.small m
  have size := armBytes_eq (k := k)
  intro i seg found
  have bound : i < (countedSegments k recs).length := (List.getElem?_eq_some_iff.mp found).1
  have last : armAt k (0 + i + 1) ≤ armAt k (0 + (countedSegments k recs).length) :=
    armAt_mono (by omega)
  have room := ready.room
  have field {d : Nat} (inside : d + 4 ≤ 12) :
      read32 (encodeMem k cmdbuf recs m) (armAt k (0 + i) + d) =
        read32 (headMem k cmdbuf recs m) (armAt k (0 + i) + d) := by
    apply read32_congr
    intro byte small
    rw [armAt_succ] at last
    apply fillMems_low ready.room ready.ordered (by omega)
    intro j _
    rcases Nat.lt_or_ge j i with before | after
    · have := armAt_mono (k := k) (show 0 + j + 1 ≤ 0 + i by omega)
      have := armAt_succ k (0 + j)
      omega
    · have := armAt_mono (k := k) (show 0 + i ≤ 0 + j by omega)
      omega
  rw [field (by omega), field (by omega)]
  exact ready.table i seg found

/-- Every segment that the count in the header reaches is placed. -/
theorem encodeMem_placed {j : Nat} (found : (countedSegments k recs)[j]? = some seg) :
    Placed k cmdbuf (headMem k cmdbuf recs m) (encodeMem k cmdbuf recs m) j seg
      (tiuPlace k (segments k recs) j) (tdmaPlace k (segments k recs) j) := by
  have ready := fillReady_headMem wf.magic wf.met wf.small m
  have fits : ∀ r ∈ (countedSegments k recs).flatten, r.Fits k := by
    intro r member
    obtain ⟨seg', inTake, inSeg⟩ := List.mem_flatten.mp member
    apply wf.fits r
    rw [← segments_flatten k recs]
    exact List.mem_flatten_of_mem (List.mem_of_mem_take inTake) inSeg
  have bound : j < (segments k recs).length % 2 ^ 32 := by
    rw [← length_countedSegments]
    exact (List.getElem?_eq_some_iff.mp found).1
  have taken : (countedSegments k recs).take j = (segments k recs).take j := by
    rw [countedSegments, List.take_take, Nat.min_eq_left (Nat.le_of_lt bound)]
  have placed : Placed k cmdbuf (headMem k cmdbuf recs m) (encodeMem k cmdbuf recs m) (0 + j) seg
      (tiuExtent k (alignUp (tiuStart k (segments k recs)) k.bdcAlignedBit)
        ((countedSegments k recs).take j))
      (tdmaStart k (segments k recs) +
        countOf k.tdma ((countedSegments k recs).take j).flatten * k.gdmaDescAlignSize) :=
    fillMems_placed ready.room ready.ordered fits (headMem k cmdbuf recs m) found
  rwa [Nat.zero_add, alignUp_tiuStart, taken] at placed

end

end CviRuntime.Dmabuf
