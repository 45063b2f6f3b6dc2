import CviRuntime.Dmabuf.Relocate

/-!
# The slots of a relocated buffer

The table of a buffer says how many descriptors a segment has and where they are. Relocating the
buffer for the hardware keeps the offsets in two further words of an entry, where the PMU reader
looks for them.
-/

namespace CviRuntime.Pmu

open ByteMem Dmabuf

/-- Where a descriptor is: its segment, and its place there. -/
structure Slot where
  seg : Nat
  index : Nat
  deriving DecidableEq, Repr

section

variable (k : KernelHeaders) (m : Nat → UInt8)

/-- The numbers of descriptors of a segment. -/
def tiuNum (i : Nat) : Nat := read32 m (armAt k i + 4) % 65536

def tdmaNum (i : Nat) : Nat := read32 m (armAt k i + 8) % 65536

/-- The offsets of the slots, in a buffer that is not relocated. -/
def tiuSlotAt (slot : Slot) : Nat := read32 m (armAt k slot.seg + 12) + k.bdRegBytes * slot.index

def tdmaSlotAt (slot : Slot) : Nat :=
  read32 m (armAt k slot.seg + 16) + 2 ^ k.tdmaAlignedBit * slot.index

/-- All slots of segments with these numbers of descriptors. -/
def slotsOf (num : Nat → Nat) (count : Nat) : List Slot :=
  (List.range count).flatMap fun i => (List.range (num i)).map (Slot.mk i)

def tiuSlots : List Slot := slotsOf (tiuNum k m) (read32 m 8)

def tdmaSlots : List Slot := slotsOf (tdmaNum k m) (read32 m 8)

/-- What a relocation keeps of the table. -/
structure OffsetsKept (m' : Nat → UInt8) : Prop where
  number : read32 m' 8 = read32 m 8
  words : ∀ i < read32 m 8, read32 m' (armAt k i + 4) = read32 m (armAt k i + 4) ∧
    read32 m' (armAt k i + 8) = read32 m (armAt k i + 8)
  tiu : ∀ i < read32 m 8, tiuNum k m i ≠ 0 →
    read32 m' (armAt k i + 20) = read32 m (armAt k i + 12)
  tdma : ∀ i < read32 m 8, tdmaNum k m i ≠ 0 →
    read32 m' (armAt k i + 24) = read32 m (armAt k i + 16)

end

/-- Records in the numbers of any table. -/
theorem exists_numbersHold (k : KernelHeaders) (m : Nat → UInt8) (n : Nat) :
    ∃ segs, segs.length = n ∧ NumbersHold k m 0 segs := by
  refine ⟨(List.range n).map fun i => List.replicate (tiuNum k m i) ⟨0, k.tiu, 0, 0⟩ ++
    List.replicate (tdmaNum k m i) ⟨0, k.tdma, 0, 0⟩, by simp, ?_⟩
  intro i seg found
  have inside : i < n := by simpa using (List.getElem?_eq_some_iff.mp found).1
  rw [List.getElem?_map, List.getElem?_range inside, Option.map_some] at found
  obtain rfl := Option.some_inj.mp found
  have engines := k.tiu_ne_tdma
  simp [countOf, tiuNum, tdmaNum, List.countP_replicate, engines, engines.symm]

theorem offsetsKept_moveSegs {k : KernelHeaders} {m : Nat → UInt8} {segs : List (List Rec)}
    (A originalSize pmubufSize : Nat) (holds : NumbersHold k m 0 segs)
    (number : read32 m 8 = segs.length) :
    OffsetsKept k m (moveSegs k A originalSize pmubufSize segs 0 m) := by
  have size := armBytes_eq (k := k)
  have stays {i d : Nat} (inside : d + 4 ≤ 12) :
      read32 (moveSegs k A originalSize pmubufSize segs 0 m) (armAt k i + d) =
        read32 m (armAt k i + d) := by
    apply read32_congr
    intro byte small
    have first : 128 ≤ armAt k i := Nat.le_add_right _ _
    apply moveSegs_outside (by omega)
    intro j seg _
    by_cases same : 0 + j = i
    · rw [same]
      unfold MovedByte
      omega
    · have step := armAt_succ k i
      exact not_movedByte_of_entry (Ne.symm same) (by omega) (by omega)
  have segAt {i : Nat} (inside : i < read32 m 8) : ∃ seg, segs[i]? = some seg := by
    have bound : i < segs.length := number ▸ inside
    exact ⟨segs[i], List.getElem?_eq_getElem bound⟩
  refine ⟨?_, fun i _ => ⟨stays (by omega), stays (by omega)⟩, ?_, ?_⟩
  · apply read32_congr
    intro byte small
    apply moveSegs_outside (by omega)
    intro j seg _
    have first : 128 ≤ armAt k (0 + j) := Nat.le_add_right _ _
    unfold MovedByte
    omega
  · intro i inside busy
    obtain ⟨seg, found⟩ := segAt inside
    have kept := (moveSegs_moved k m A originalSize pmubufSize 0 found).tiuKept
    have counted := (holds i seg found).1
    rw [Nat.zero_add] at kept counted
    exact kept (counted ▸ busy)
  · intro i inside busy
    obtain ⟨seg, found⟩ := segAt inside
    have kept := (moveSegs_moved k m A originalSize pmubufSize 0 found).tdmaKept
    have counted := (holds i seg found).2
    rw [Nat.zero_add] at kept counted
    exact kept (counted ▸ busy)

theorem dmabufRelocate_kept {k : KernelHeaders} {devaddr : UInt64}
    {originalSize pmubufSize : UInt32} {s s' : Buffers}
    (relocates : dmabufRelocate k devaddr originalSize pmubufSize s = .ok () s') :
    OffsetsKept k s.dmabuf s'.dmabuf := by
  obtain ⟨segs, length, holds⟩ := exists_numbersHold k s.dmabuf (read32 s.dmabuf 8)
  obtain ⟨s'', runs, memory⟩ : ∃ s'', relocateLoop k devaddr originalSize pmubufSize (2 ^ 32) 0 s =
      .ok () s'' ∧ s''.dmabuf =
        moveSegs k devaddr.toNat originalSize.toNat pmubufSize.toNat segs 0 s.dmabuf :=
    relocateLoop_masked holds (by rw [length, Nat.zero_add]) (length ▸ read32_lt _ _)
  simp only [dmabufRelocate, bind_apply, readDma32_apply] at relocates
  by_cases magic : read32 s.dmabuf 0 % 65536 = 0xB5B5
  · simp only [magic, ne_eq, not_true_eq_false, if_false, runs] at relocates
    obtain rfl : s'' = s' := by simpa using relocates
    rw [memory]
    exact offsetsKept_moveSegs _ _ _ holds length.symm
  · simp only [magic, ne_eq, not_false_eq_true, if_true] at relocates
    cases relocates

/-! ## Slots and their numbers -/

section

variable {num : Nat → Nat} {count : Nat}

theorem slotsOf_succ (num : Nat → Nat) (count : Nat) : slotsOf num (count + 1) =
    (List.range (num 0)).map (Slot.mk 0) ++
      (List.range count).flatMap fun i => (List.range (num (i + 1))).map (Slot.mk (i + 1)) := by
  rw [slotsOf, List.range_succ_eq_map, List.flatMap_cons, List.flatMap_map]

theorem mem_slotsOf {slot : Slot} :
    slot ∈ slotsOf num count ↔ slot.seg < count ∧ slot.index < num slot.seg := by
  simp only [slotsOf, List.mem_flatMap, List.mem_range, List.mem_map]
  constructor
  · rintro ⟨i, inside, j, small, rfl⟩
    exact ⟨inside, small⟩
  · rintro ⟨inside, small⟩
    exact ⟨slot.seg, inside, slot.index, small, rfl⟩

theorem slotsOf_first (some : 0 < count) (later : ∀ i, 0 < i → i < count → num i = 0) :
    slotsOf num count = (List.range (num 0)).map (Slot.mk 0) := by
  obtain ⟨count, rfl⟩ := Nat.exists_eq_succ_of_ne_zero (Nat.ne_zero_of_lt some)
  rw [Nat.succ_eq_add_one, slotsOf_succ]
  have none : ((List.range count).flatMap fun i =>
      (List.range (num (i + 1))).map (Slot.mk (i + 1))) = [] := by
    rw [List.flatMap_eq_nil_iff]
    intro i inside
    rw [later (i + 1) (Nat.succ_pos i) (Nat.succ_lt_succ (List.mem_range.mp inside))]
    rfl
  rw [none, List.append_nil]

theorem later_of_slotsOf_length (few : (slotsOf num count).length ≤ num 0) (i : Nat)
    (later : 0 < i) (inside : i < count) : num i = 0 := by
  obtain ⟨count, rfl⟩ := Nat.exists_eq_succ_of_ne_zero (Nat.ne_zero_of_lt inside)
  obtain ⟨i, rfl⟩ := Nat.exists_eq_succ_of_ne_zero (Nat.ne_zero_of_lt later)
  rw [Nat.succ_eq_add_one, slotsOf_succ, List.length_append, List.length_map,
    List.length_range] at few
  have none : ((List.range count).flatMap fun i =>
      (List.range (num (i + 1))).map (Slot.mk (i + 1))) = [] :=
    List.eq_nil_of_length_eq_zero (by omega)
  have here := List.flatMap_eq_nil_iff.mp none i
    (List.mem_range.mpr (Nat.lt_of_succ_lt_succ inside))
  exact List.range_eq_nil.mp (List.map_eq_nil_iff.mp here)

end

end CviRuntime.Pmu
