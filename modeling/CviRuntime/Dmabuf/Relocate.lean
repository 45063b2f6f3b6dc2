import CviRuntime.Dmabuf.Layout

/-!
# Relocation

`cvi180x_dmabuf_relocate` turns the offsets of an encoded buffer into device addresses, in units
of the alignment of their engine, and keeps the offsets beside them. `Relocated` says what it
changes; everything else stays. `load_cmdbuf` encodes a command buffer into device memory and
relocates it there: as long as the buffer is smaller than 4 GiB the addresses are those of the
slots.
-/

namespace CviRuntime.Dmabuf

open ByteMem

section

variable (k : KernelHeaders)

/-- One round of the loop of `cvi180x_dmabuf_relocate` (`bm_dmabuf.c:117-137`). -/
def relocateSegment (devaddr : UInt64) (originalSize pmubufSize : UInt32) (i : Nat) : M Unit := do
  let arm := armAt k i
  let tiuNum := (← readDma32 (arm + 4)) % 65536
  let tdmaNum := (← readDma32 (arm + 8)) % 65536
  if tiuNum ≠ 0 then
    let offset ← readDma32 (arm + 12)
    let tmpAddress := (devaddr.toNat + offset) % 2 ^ 64
    writeDma (arm + 20) (le32 offset)
    writeDma (arm + 12) (le32 (tmpAddress >>> k.bdcAlignedBit))
  if tdmaNum ≠ 0 then
    let offset ← readDma32 (arm + 16)
    let tmpAddress := (devaddr.toNat + offset) % 2 ^ 64
    writeDma (arm + 24) (le32 offset)
    writeDma (arm + 16) (le32 (tmpAddress >>> k.tdmaAlignedBit))
  -- `pmubuf_size` and `pmubuf_offset` of the header
  writeDma 24 (le32 pmubufSize.toNat)
  writeDma 28 (le32 originalSize.toNat)

def relocateLoop (devaddr : UInt64) (originalSize pmubufSize : UInt32) : Nat → Nat → M Unit
  | 0, _ => throw .outOfFuel
  | fuel + 1, i => do
    if i < (← readDma32 8) then
      relocateSegment k devaddr originalSize pmubufSize i
      relocateLoop devaddr originalSize pmubufSize fuel (i + 1)
    else return ()

/-- `cvi180x_dmabuf_relocate` (`bm_dmabuf.c:106-140`). -/
def dmabufRelocate (devaddr : UInt64) (originalSize pmubufSize : UInt32) : M Unit := do
  if (← readDma32 0) % 65536 ≠ 0xB5B5 then throw .errData
  relocateLoop k devaddr originalSize pmubufSize (2 ^ 32) 0

/-- `cvi180x_arraybase_set` (`bm_dmabuf.c:461-477`). -/
def arraybaseSet (arraybase0L arraybase1L arraybase0H arraybase1H : UInt32) : M Unit := do
  if (← readDma32 0) % 65536 ≠ 0xB5B5 then throw .errData
  writeDma 32 (le32 arraybase0L.toNat)
  writeDma 40 (le32 arraybase1L.toNat)
  writeDma 36 (le32 arraybase0H.toNat)
  writeDma 44 (le32 arraybase1H.toNat)

/-- `Cvi180xDeviceMem::load_cmdbuf` (`cvi180x_device_mem.cpp:91-155`) on the memory of the
    buffer that it allocates at `devaddr`. -/
def loadCmdbuf (cmdbuf : Nat → UInt8) (sz : Nat) (devaddr neuronGaddr weightGaddr : UInt64)
    (enablePmu : Bool) : M Unit := do
  let (dmabufSize, pmubufSize) ← dmabufSize k cmdbuf sz
  let pmubufSize := if enablePmu then pmubufSize else 0
  dmabufConvert k cmdbuf sz
  arraybaseSet neuronGaddr.toUInt32 weightGaddr.toUInt32 0 0
  dmabufRelocate k devaddr (UInt32.ofNat dmabufSize) (UInt32.ofNat pmubufSize)

end

/-! ## What one round changes -/

section

variable (k : KernelHeaders)

/-- An offset kept at `bk` and replaced by the device address in units of `2 ^ bit`. -/
def moveWord (devaddr bit off bk : Nat) (m : Nat → UInt8) : Nat → UInt8 :=
  writeBytes (writeBytes m bk (le32 (read32 m off))) off
    (le32 (((devaddr + read32 m off) % 2 ^ 64) >>> bit))

/-- The memory after the entry of a segment was relocated. -/
def moveSeg (devaddr i : Nat) (seg : List Rec) (m : Nat → UInt8) : Nat → UInt8 :=
  let m := if countOf k.tiu seg ≠ 0 then
    moveWord devaddr k.bdcAlignedBit (armAt k i + 12) (armAt k i + 20) m else m
  if countOf k.tdma seg ≠ 0 then
    moveWord devaddr k.tdmaAlignedBit (armAt k i + 16) (armAt k i + 24) m else m

/-- The memory after the entries of some segments were relocated. -/
def moveSegs (devaddr originalSize pmubufSize : Nat) :
    List (List Rec) → Nat → (Nat → UInt8) → Nat → UInt8
  | [], _, m => m
  | seg :: segs, i, m =>
    moveSegs devaddr originalSize pmubufSize segs (i + 1)
      (writeBytes (writeBytes (moveSeg k devaddr i seg m) 24 (le32 pmubufSize)) 28
        (le32 originalSize))

/-- The bytes of entry `i` that a relocation rewrites. -/
def MovedByte (i : Nat) (seg : List Rec) (a : Nat) : Prop :=
  (countOf k.tiu seg ≠ 0 ∧ (armAt k i + 12 ≤ a ∧ a < armAt k i + 16 ∨
    armAt k i + 20 ≤ a ∧ a < armAt k i + 24)) ∨
  (countOf k.tdma seg ≠ 0 ∧ (armAt k i + 16 ≤ a ∧ a < armAt k i + 20 ∨
    armAt k i + 24 ≤ a ∧ a < armAt k i + 28))

/-- Entry `i` before and after. -/
structure SegMoved (devaddr i : Nat) (seg : List Rec) (m m' : Nat → UInt8) : Prop where
  tiu : countOf k.tiu seg ≠ 0 → read32 m' (armAt k i + 12) =
    ((devaddr + read32 m (armAt k i + 12)) % 2 ^ 64) >>> k.bdcAlignedBit % 2 ^ 32
  tiuKept : countOf k.tiu seg ≠ 0 → read32 m' (armAt k i + 20) = read32 m (armAt k i + 12)
  tdma : countOf k.tdma seg ≠ 0 → read32 m' (armAt k i + 16) =
    ((devaddr + read32 m (armAt k i + 16)) % 2 ^ 64) >>> k.tdmaAlignedBit % 2 ^ 32
  tdmaKept : countOf k.tdma seg ≠ 0 → read32 m' (armAt k i + 24) = read32 m (armAt k i + 16)

end

section

variable {k : KernelHeaders} {m m' : Nat → UInt8} {devaddr bit off bk i a : Nat} {seg : List Rec}

theorem moveWord_outside (outside : (a < off ∨ off + 4 ≤ a) ∧ (a < bk ∨ bk + 4 ≤ a)) :
    moveWord devaddr bit off bk m a = m a := by
  rw [moveWord, writeBytes_outside (by rw [length_le32]; omega),
    writeBytes_outside (by rw [length_le32]; omega)]

theorem moveWord_off :
    read32 (moveWord devaddr bit off bk m) off =
      ((devaddr + read32 m off) % 2 ^ 64) >>> bit % 2 ^ 32 :=
  read32_writeBytes_le32 _

theorem moveWord_kept (apart : off + 4 ≤ bk) :
    read32 (moveWord devaddr bit off bk m) bk = read32 m off := by
  rw [moveWord, read32_writeBytes_outside (by rw [length_le32]; omega), read32_writeBytes_le32,
    Nat.mod_eq_of_lt (read32_lt m off)]

theorem moveWord_field {d : Nat} (apart : d + 4 ≤ off ∨ off + 4 ≤ d)
    (apartKept : d + 4 ≤ bk ∨ bk + 4 ≤ d) :
    read32 (moveWord devaddr bit off bk m) d = read32 m d :=
  read32_congr fun _ _ => moveWord_outside (by omega)

theorem moveSeg_outside (outside : ¬MovedByte k i seg a) : moveSeg k devaddr i seg m a = m a := by
  unfold moveSeg
  unfold MovedByte at outside
  split_ifs with tiu tdma tdma
  · rw [moveWord_outside (by omega), moveWord_outside (by omega)]
  · rw [moveWord_outside (by omega)]
  · rw [moveWord_outside (by omega)]
  · rfl

theorem moveSeg_moved : SegMoved k devaddr i seg m (moveSeg k devaddr i seg m) := by
  unfold moveSeg
  constructor
  · intro some
    rw [if_pos some]
    split_ifs
    · rw [moveWord_field (by omega) (by omega), moveWord_off]
    · rw [moveWord_off]
  · intro some
    rw [if_pos some]
    split_ifs
    · rw [moveWord_field (by omega) (by omega), moveWord_kept (by omega)]
    · rw [moveWord_kept (by omega)]
  · intro some
    rw [if_pos some, moveWord_off]
    split_ifs
    · rw [moveWord_field (by omega) (by omega)]
    · rfl
  · intro some
    rw [if_pos some, moveWord_kept (by omega)]
    split_ifs
    · rw [moveWord_field (by omega) (by omega)]
    · rfl

theorem SegMoved.congr {m₁ m₁' : Nat → UInt8} (moved : SegMoved k devaddr i seg m m')
    (before : ∀ a, armAt k i ≤ a → a < armAt k (i + 1) → m₁ a = m a)
    (after : ∀ a, armAt k i ≤ a → a < armAt k (i + 1) → m₁' a = m' a) :
    SegMoved k devaddr i seg m₁ m₁' := by
  have size := armBytes_eq (k := k)
  rw [armAt_succ] at before after
  have same {d : Nat} (inside : d + 4 ≤ 28) :
      read32 m₁ (armAt k i + d) = read32 m (armAt k i + d) ∧
        read32 m₁' (armAt k i + d) = read32 m' (armAt k i + d) :=
    ⟨read32_congr fun _ _ => before _ (by omega) (by omega),
      read32_congr fun _ _ => after _ (by omega) (by omega)⟩
  have offTiu := same (show 12 + 4 ≤ 28 by omega)
  have offTdma := same (show 16 + 4 ≤ 28 by omega)
  refine ⟨?_, ?_, ?_, ?_⟩
  · rw [offTiu.1, offTiu.2]
    exact moved.tiu
  · rw [offTiu.1, (same (show 20 + 4 ≤ 28 by omega)).2]
    exact moved.tiuKept
  · rw [offTdma.1, offTdma.2]
    exact moved.tdma
  · rw [offTdma.1, (same (show 24 + 4 ≤ 28 by omega)).2]
    exact moved.tdmaKept

end

/-! ## The loop -/

section

variable {k : KernelHeaders} {m : Nat → UInt8} {A originalSize pmubufSize i a : Nat}
  {seg : List Rec} {segs : List (List Rec)}

/-- One round, with the two fields of the header. -/
def moveRound (k : KernelHeaders) (A originalSize pmubufSize i : Nat) (seg : List Rec)
    (m : Nat → UInt8) : Nat → UInt8 :=
  writeBytes (writeBytes (moveSeg k A i seg m) 24 (le32 pmubufSize)) 28 (le32 originalSize)

theorem moveSegs_cons : moveSegs k A originalSize pmubufSize (seg :: segs) i m =
    moveSegs k A originalSize pmubufSize segs (i + 1)
      (moveRound k A originalSize pmubufSize i seg m) := rfl

theorem moveRound_above (above : 32 ≤ a) :
    moveRound k A originalSize pmubufSize i seg m a = moveSeg k A i seg m a := by
  rw [moveRound, writeBytes_outside (by rw [length_le32]; omega),
    writeBytes_outside (by rw [length_le32]; omega)]

theorem moveRound_outside (header : a < 24 ∨ 32 ≤ a) (outside : ¬MovedByte k i seg a) :
    moveRound k A originalSize pmubufSize i seg m a = m a := by
  rw [moveRound, writeBytes_outside (by rw [length_le32]; omega),
    writeBytes_outside (by rw [length_le32]; omega), moveSeg_outside outside]

/-- A round stays in its entry. -/
theorem not_movedByte_of_entry {j : Nat} (other : j ≠ i) (low : armAt k j ≤ a)
    (high : a < armAt k (j + 1)) : ¬MovedByte k i seg a := by
  have size := armBytes_eq (k := k)
  have step := armAt_succ k i
  unfold MovedByte
  rcases Nat.lt_or_gt_of_ne other with before | after
  · have := armAt_mono (k := k) (show j + 1 ≤ i by omega)
    omega
  · have := armAt_mono (k := k) (show i + 1 ≤ j by omega)
    omega

theorem moveRound_entry {j : Nat} (other : j ≠ i) (low : armAt k j ≤ a)
    (high : a < armAt k (j + 1)) :
    moveRound k A originalSize pmubufSize i seg m a = m a := by
  have first : 128 ≤ armAt k j := Nat.le_add_right _ _
  exact moveRound_outside (by omega) (not_movedByte_of_entry other low high)

theorem moveSegs_outside (header : a < 24 ∨ 32 ≤ a)
    (outside : ∀ j seg, segs[j]? = some seg → ¬MovedByte k (i + j) seg a) :
    moveSegs k A originalSize pmubufSize segs i m a = m a := by
  induction segs generalizing i m with
  | nil => rfl
  | cons seg segs ih =>
    have here : ¬MovedByte k i seg a := outside 0 seg rfl
    rw [moveSegs_cons, ih, moveRound_outside header here]
    intro j seg' found
    have later := outside (j + 1) seg' found
    rwa [show i + (j + 1) = i + 1 + j by omega] at later

theorem moveSegs_moved (k : KernelHeaders) (m : Nat → UInt8) (A originalSize pmubufSize i : Nat)
    {j : Nat} (found : segs[j]? = some seg) :
    SegMoved k A (i + j) seg m (moveSegs k A originalSize pmubufSize segs i m) := by
  induction segs generalizing i m j with
  | nil => simp at found
  | cons seg' segs ih =>
    rw [moveSegs_cons]
    cases j with
    | zero =>
      obtain rfl : seg' = seg := by simpa using found
      rw [Nat.add_zero]
      apply moveSeg_moved.congr
      · intro a _ _
        rfl
      · intro a low high
        have first : 128 ≤ armAt k i := Nat.le_add_right _ _
        rw [moveSegs_outside (by omega), moveRound_above (by omega)]
        intro j seg' _
        exact not_movedByte_of_entry (by omega) low high
    | succ j =>
      rw [List.getElem?_cons_succ] at found
      have moved : SegMoved k A (i + 1 + j) seg (moveRound k A originalSize pmubufSize i seg' m)
          (moveSegs k A originalSize pmubufSize segs (i + 1)
            (moveRound k A originalSize pmubufSize i seg' m)) := ih _ _ found
      rw [show i + 1 + j = i + (j + 1) by omega] at moved
      apply moved.congr
      · intro a low high
        exact (moveRound_entry (by omega) low high).symm
      · intro a _ _
        rfl

theorem moveSegs_header (k : KernelHeaders) (m : Nat → UInt8) (A originalSize pmubufSize i : Nat)
    (some : segs ≠ []) :
    read32 (moveSegs k A originalSize pmubufSize segs i m) 24 = pmubufSize % 2 ^ 32 ∧
      read32 (moveSegs k A originalSize pmubufSize segs i m) 28 = originalSize % 2 ^ 32 := by
  induction segs generalizing i m with
  | nil => exact absurd rfl some
  | cons seg segs ih =>
    rw [moveSegs_cons]
    by_cases last : segs = []
    · rw [last, moveSegs, moveRound]
      refine ⟨?_, read32_writeBytes_le32 _⟩
      rw [read32_writeBytes_outside (by omega), read32_writeBytes_le32]
    · exact ih _ _ last

end

/-! ## Running it -/

/-- The lower halves of the table's numbers are those of these segments. -/
def NumbersHold (k : KernelHeaders) (m : Nat → UInt8) (base : Nat) (segs : List (List Rec)) :
    Prop :=
  ∀ i seg, segs[i]? = some seg →
    read32 m (armAt k (base + i) + 4) % 65536 = countOf k.tiu seg ∧
    read32 m (armAt k (base + i) + 8) % 65536 = countOf k.tdma seg

section

variable {k : KernelHeaders} {devaddr : UInt64} {originalSize pmubufSize : UInt32} {i : Nat}
  {seg : List Rec} {segs : List (List Rec)} {s : Buffers}

theorem relocateSegment_apply
    (tiu : read32 s.dmabuf (armAt k i + 4) % 65536 = countOf k.tiu seg)
    (tdma : read32 s.dmabuf (armAt k i + 8) % 65536 = countOf k.tdma seg) :
    ∃ s', relocateSegment k devaddr originalSize pmubufSize i s = .ok () s' ∧
      s'.dmabuf = moveRound k devaddr.toNat originalSize.toNat pmubufSize.toNat i seg s.dmabuf := by
  unfold relocateSegment moveRound moveSeg
  simp only [bind_apply, readDma32_apply, tiu, tdma]
  by_cases noTiu : countOf k.tiu seg = 0
  · by_cases noTdma : countOf k.tdma seg = 0
    · simp [noTiu, noTdma, bind_apply, writeDma_apply]
    · simp [noTiu, noTdma, bind_apply, writeDma_apply, readDma32_apply, moveWord]
  · by_cases noTdma : countOf k.tdma seg = 0
    · simp [noTiu, noTdma, bind_apply, writeDma_apply, readDma32_apply, moveWord]
    · simp [noTiu, noTdma, bind_apply, writeDma_apply, readDma32_apply, moveWord]

theorem NumbersHold.frame {m m' : Nat → UInt8} {base : Nat} (holds : NumbersHold k m base segs)
    (same : ∀ a, armAt k base ≤ a → m' a = m a) : NumbersHold k m' base segs := by
  intro i seg found
  have low : armAt k base ≤ armAt k (base + i) := armAt_mono (by omega)
  have sameField {d : Nat} :
      read32 m' (armAt k (base + i) + d) = read32 m (armAt k (base + i) + d) :=
    read32_congr fun _ _ => same _ (by omega)
  rw [sameField, sameField]
  exact holds i seg found

theorem relocateLoop_masked {fuel : Nat} (table : NumbersHold k s.dmabuf i segs)
    (number : read32 s.dmabuf 8 = i + segs.length) (enough : segs.length < fuel) :
    ∃ s', relocateLoop k devaddr originalSize pmubufSize fuel i s = .ok () s' ∧
      s'.dmabuf =
        moveSegs k devaddr.toNat originalSize.toNat pmubufSize.toNat segs i s.dmabuf := by
  obtain ⟨fuel, rfl⟩ : ∃ fuel', fuel = fuel' + 1 := ⟨fuel - 1, by omega⟩
  induction segs generalizing i s fuel with
  | nil =>
    refine ⟨s, ?_, rfl⟩
    simp [relocateLoop, bind_apply, readDma32_apply, number, pure_apply]
  | cons seg segs ih =>
    obtain ⟨fuel, rfl⟩ : ∃ fuel', fuel = fuel' + 1 := ⟨fuel - 1, by simp at enough; omega⟩
    obtain ⟨tiuField, tdmaField⟩ := table 0 seg rfl
    rw [List.length_cons] at number
    obtain ⟨s₁, runs, memory⟩ : ∃ s₁, relocateSegment k devaddr originalSize pmubufSize i s =
        .ok () s₁ ∧ s₁.dmabuf = moveRound k devaddr.toNat originalSize.toNat pmubufSize.toNat i seg
          s.dmabuf :=
      relocateSegment_apply tiuField tdmaField
    have first : 128 ≤ armAt k i := Nat.le_add_right _ _
    have numberNext : read32 s₁.dmabuf 8 = i + 1 + segs.length := by
      rw [memory, show i + 1 + segs.length = i + (segs.length + 1) by omega, ← number]
      apply read32_congr
      intro j inside
      apply moveRound_outside (by omega)
      unfold MovedByte
      omega
    have tableRest : NumbersHold k s.dmabuf (i + 1) segs := by
      intro j seg' found
      have later := table (j + 1) seg' found
      rwa [show i + (j + 1) = i + 1 + j by omega] at later
    have tableNext : NumbersHold k s₁.dmabuf (i + 1) segs := by
      rw [memory]
      apply tableRest.frame
      intro a low
      have size := armBytes_eq (k := k)
      rw [armAt_succ] at low
      apply moveRound_outside (by omega)
      unfold MovedByte
      omega
    obtain ⟨s', runsRest, memoryRest⟩ := ih tableNext numberNext fuel (by simpa using enough)
    refine ⟨s', ?_, ?_⟩
    · rw [relocateLoop, bind_apply, readDma32_apply]
      simp only [number]
      rw [if_pos (by omega), bind_apply, runs]
      exact runsRest
    · rw [memoryRest, memory, moveSegs_cons]

theorem relocateLoop_apply {fuel : Nat} (small : ∀ seg ∈ segs, Small k seg)
    (table : ArmsHold k s.dmabuf i segs) (number : read32 s.dmabuf 8 = i + segs.length)
    (enough : segs.length < fuel) :
    ∃ s', relocateLoop k devaddr originalSize pmubufSize fuel i s = .ok () s' ∧
      s'.dmabuf =
        moveSegs k devaddr.toNat originalSize.toNat pmubufSize.toNat segs i s.dmabuf := by
  apply relocateLoop_masked _ number enough
  intro j seg found
  obtain ⟨tiuField, tdmaField⟩ := table j seg found
  obtain ⟨fewTiu, fewTdma⟩ := small seg (List.mem_of_getElem? found)
  omega

theorem dmabufRelocate_apply (magic : read32 s.dmabuf 0 % 65536 = 0xB5B5)
    (small : ∀ seg ∈ segs, Small k seg) (table : ArmsHold k s.dmabuf 0 segs)
    (number : read32 s.dmabuf 8 = segs.length) :
    ∃ s', dmabufRelocate k devaddr originalSize pmubufSize s = .ok () s' ∧
      s'.dmabuf =
        moveSegs k devaddr.toNat originalSize.toNat pmubufSize.toNat segs 0 s.dmabuf := by
  have few : segs.length < 2 ^ 32 := by
    rw [← number]
    exact read32_lt _ _
  obtain ⟨s', runs, memory⟩ : ∃ s', relocateLoop k devaddr originalSize pmubufSize (2 ^ 32) 0 s =
      .ok () s' ∧ s'.dmabuf =
        moveSegs k devaddr.toNat originalSize.toNat pmubufSize.toNat segs 0 s.dmabuf :=
    relocateLoop_apply small table (by rw [number, Nat.zero_add]) few
  refine ⟨s', ?_, memory⟩
  simp only [dmabufRelocate, bind_apply, readDma32_apply, magic, ne_eq, not_true_eq_false, if_false]
  exact runs

/-- The four fields that `cvi180x_arraybase_set` writes. -/
def basesSet (base0L base1L base0H base1H : UInt32) (m : Nat → UInt8) : Nat → UInt8 :=
  writeBytes (writeBytes (writeBytes (writeBytes m 32 (le32 base0L.toNat)) 40 (le32 base1L.toNat))
    36 (le32 base0H.toNat)) 44 (le32 base1H.toNat)

theorem basesSet_outside {base0L base1L base0H base1H : UInt32} {m : Nat → UInt8} {a : Nat}
    (outside : a < 32 ∨ 48 ≤ a) : basesSet base0L base1L base0H base1H m a = m a := by
  rw [basesSet, writeBytes_outside (by rw [length_le32]; omega),
    writeBytes_outside (by rw [length_le32]; omega),
    writeBytes_outside (by rw [length_le32]; omega),
    writeBytes_outside (by rw [length_le32]; omega)]

theorem arraybaseSet_apply (base0L base1L base0H base1H : UInt32)
    (magic : read32 s.dmabuf 0 % 65536 = 0xB5B5) :
    ∃ s', arraybaseSet base0L base1L base0H base1H s = .ok () s' ∧
      s'.dmabuf = basesSet base0L base1L base0H base1H s.dmabuf := by
  simp [arraybaseSet, bind_apply, readDma32_apply, magic, writeDma_apply, basesSet]

end

/-! ## Relocating an encoded buffer -/

section

variable (k : KernelHeaders)

/-- What a relocation to the address `A` makes of an encoded buffer with these segments. -/
structure Relocated (A : Nat) (originalSize pmubufSize : UInt32) (segs : List (List Rec))
    (m m' : Nat → UInt8) : Prop where
  tiu : ∀ j seg, segs[j]? = some seg → countOf k.tiu seg ≠ 0 →
    read32 m' (armAt k j + 12) <<< k.bdcAlignedBit = A + read32 m (armAt k j + 12) ∧
      read32 m' (armAt k j + 20) = read32 m (armAt k j + 12)
  tdma : ∀ j seg, segs[j]? = some seg → countOf k.tdma seg ≠ 0 →
    read32 m' (armAt k j + 16) <<< k.tdmaAlignedBit = A + read32 m (armAt k j + 16) ∧
      read32 m' (armAt k j + 24) = read32 m (armAt k j + 16)
  pmubufSize : read32 m' 24 = pmubufSize.toNat
  pmubufOffset : read32 m' 28 = originalSize.toNat
  frame : ∀ a, a < 24 ∨ 32 ≤ a → (∀ j seg, segs[j]? = some seg → ¬MovedByte k j seg a) →
    m' a = m a

/-- A buffer at the address `A`, as the engines see it. -/
def mappedAt (A : Nat) (m : Nat → UInt8) : Nat → UInt8 := fun address => m (address - A)

/-- The addresses in the table of a buffer at `A` are those of the slots of the segments, and
    the descriptors are found there. -/
def HardwareSlots (cmdbuf : Nat → UInt8) (A : Nat) (recs : List Rec) (m : Nat → UInt8) : Prop :=
  ∀ j seg, (segments k recs)[j]? = some seg →
    (countOf k.tiu seg ≠ 0 →
      read32 m (armAt k j + 12) <<< k.bdcAlignedBit = A + tiuPlace k (segments k recs) j ∧
      readSlots (mappedAt A m) k.bdRegBytes (A + tiuPlace k (segments k recs) j)
        (countOf k.tiu seg) = sentTiu k cmdbuf seg) ∧
    (countOf k.tdma seg ≠ 0 →
      read32 m (armAt k j + 16) <<< k.tdmaAlignedBit = A + tdmaPlace k (segments k recs) j ∧
      List.Forall₂ (· <+: ·) (sentTdma k cmdbuf seg)
        (readSlots (mappedAt A m) k.gdmaDescAlignSize (A + tdmaPlace k (segments k recs) j)
          (countOf k.tdma seg)))

end

section

variable {k : KernelHeaders} {cmdbuf : Nat → UInt8} {sz A : Nat} {recs : List Rec}

theorem dvd_mod_word {b x : Nat} (multiple : 2 ^ b ∣ x) : 2 ^ b ∣ x % 2 ^ 32 := by
  by_cases small : b ≤ 32
  · exact (Nat.dvd_mod_iff (Nat.pow_dvd_pow 2 small)).mpr multiple
  · have whole : 2 ^ 32 ∣ x := Nat.dvd_trans (Nat.pow_dvd_pow 2 (by omega)) multiple
    rw [Nat.mod_eq_zero_of_dvd whole]
    exact Nat.dvd_zero _

/-- An aligned address below `2 ^ 32` units fits into the field. -/
theorem shifted_word {b off : Nat} (alignedA : 2 ^ b ∣ A) (aligned : 2 ^ b ∣ off)
    (fits : A + off < 2 ^ 32 * 2 ^ b) (word : A + off < 2 ^ 64) :
    (((A + off) % 2 ^ 64) >>> b % 2 ^ 32) <<< b = A + off := by
  have units : (A + off) / 2 ^ b < 2 ^ 32 := Nat.div_lt_of_lt_mul (by rwa [Nat.mul_comm])
  rw [Nat.mod_eq_of_lt word, Nat.shiftRight_eq_div_pow, Nat.mod_eq_of_lt units,
    Nat.shiftLeft_eq, Nat.div_mul_cancel (Nat.dvd_add alignedA aligned)]

theorem tiuExtent_dvd {size : Nat} {segs : List (List Rec)} (aligned : 2 ^ k.bdcAlignedBit ∣ size) :
    2 ^ k.bdcAlignedBit ∣ tiuExtent k size segs := by
  induction segs generalizing size with
  | nil => exact aligned
  | cons seg segs ih =>
    rw [tiuExtent_cons]
    apply ih
    unfold growTiu
    split_ifs
    · exact alignUp_dvd
    · exact aligned

theorem tiuPlace_dvd (segs : List (List Rec)) (j : Nat) :
    2 ^ k.bdcAlignedBit ∣ tiuPlace k segs j := tiuExtent_dvd alignUp_dvd

theorem tdmaPlace_dvd (segs : List (List Rec)) (j : Nat) :
    2 ^ k.tdmaAlignedBit ∣ tdmaPlace k segs j :=
  Nat.dvd_add alignUp_dvd (Nat.dvd_mul_left _ _)

theorem tdmaPlace_le (k : KernelHeaders) (recs : List Rec) (j : Nat) :
    tdmaPlace k (segments k recs) j ≤ encodedSize k recs := by
  rw [encodedSize_eq, tdmaPlace]
  apply Nat.add_le_add_left
  apply Nat.mul_le_mul_right
  conv_rhs => rw [← segments_flatten k recs]
  rw [← List.take_append_drop j (segments k recs), List.flatten_append, countOf_append,
    List.take_append_drop]
  exact Nat.le_add_right _ _

theorem tiuPlace_le (k : KernelHeaders) (recs : List Rec) (j : Nat) :
    tiuPlace k (segments k recs) j ≤ encodedSize k recs := by
  have total := encodedSize_eq k recs
  have extent := tiuExtent_tiuStart (k := k) (segments k recs)
  have taken : tiuExtent k (tiuStart k (segments k recs)) ((segments k recs).take j) ≤
      tiuExtent k (tiuStart k (segments k recs)) (segments k recs) := tiuExtent_take_le _ j
  unfold tiuPlace
  omega

theorem readSlots_mappedAt {m : Nat → UInt8} {stride off n : Nat} :
    readSlots (mappedAt A m) stride (A + off) n = readSlots m stride off n := by
  induction n generalizing off with
  | zero => rfl
  | succ n ih =>
    rw [readSlots, readSlots, Nat.add_assoc, ih]
    congr 1
    unfold readBytes
    apply List.map_congr_left
    intro i _
    show m (A + off + i - A) = m (off + i)
    rw [Nat.add_assoc, Nat.add_sub_cancel_left]

theorem moveSegs_above {m : Nat → UInt8} {originalSize pmubufSize i a : Nat}
    {segs : List (List Rec)} (above : armAt k (i + segs.length) ≤ a) :
    moveSegs k A originalSize pmubufSize segs i m a = m a := by
  have first : 128 ≤ armAt k (i + segs.length) := Nat.le_add_right _ _
  apply moveSegs_outside (by omega)
  intro j seg found
  have bound : j < segs.length := (List.getElem?_eq_some_iff.mp found).1
  have entry : armAt k (i + j + 1) ≤ armAt k (i + segs.length) := armAt_mono (by omega)
  have size := armBytes_eq (k := k)
  rw [armAt_succ] at entry
  unfold MovedByte
  omega

section

variable (wf : WellFormed k cmdbuf sz recs) (few : (segments k recs).length < 2 ^ 32)

include wf few

/-- The offsets that the encoder wrote: aligned, and within the buffer. -/
theorem encodeMem_offsets (m : Nat → UInt8) {j : Nat} {seg : List Rec}
    (found : (segments k recs)[j]? = some seg) :
    OffsetsAre k (encodeMem k cmdbuf recs m) j seg (tiuPlace k (segments k recs) j % 2 ^ 32)
      (tdmaPlace k (segments k recs) j % 2 ^ 32) := by
  rw [← countedSegments_eq few] at found
  exact (encodeMem_placed wf m found).offsets

/-- Relocating what the encoder left, with or without the array bases set. -/
theorem dmabufRelocate_mem {s : Buffers} {m : Nat → UInt8} (devaddr : UInt64)
    (originalSize pmubufSize : UInt32)
    (same : ∀ a, a < 32 ∨ 48 ≤ a → s.dmabuf a = encodeMem k cmdbuf recs m a) :
    ∃ s', dmabufRelocate k devaddr originalSize pmubufSize s = .ok () s' ∧
      s'.dmabuf = moveSegs k devaddr.toNat originalSize.toNat pmubufSize.toNat (segments k recs) 0
        s.dmabuf := by
  apply dmabufRelocate_apply _ wf.small
  · have table := encodeMem_numbers wf m
    rw [countedSegments_eq few] at table
    apply table.frame
    intro a low _
    have first : 128 ≤ armAt k 0 := Nat.le_add_right _ _
    exact same a (by omega)
  · rw [read32_congr fun j small => same (8 + j) (by omega), encodeMem_number wf m,
      Nat.mod_eq_of_lt few]
  · rw [read32_congr fun j small => same (0 + j) (by omega), encodeMem_magic wf m]

/-- What `load_cmdbuf` leaves in memory. -/
theorem loadCmdbuf_mem (s : Buffers) (devaddr neuronGaddr weightGaddr : UInt64)
    (enablePmu : Bool) :
    ∃ s' originalSize pmubufSize m,
      loadCmdbuf k cmdbuf sz devaddr neuronGaddr weightGaddr enablePmu s = .ok () s' ∧
      s'.dmabuf = moveSegs k devaddr.toNat originalSize pmubufSize (segments k recs) 0 m ∧
      ∀ a, a < 32 ∨ 48 ≤ a → m a = encodeMem k cmdbuf recs s.dmabuf a := by
  obtain ⟨accesses, pmu, -, sized⟩ := dmabufSize_apply s wf.met
  rw [if_pos ⟨wf.magic, rfl⟩] at sized
  obtain ⟨s₁, converts, memory⟩ := dmabufConvert_mem (s.push accesses) wf.magic wf.met wf.small
  rw [push_dmabuf] at memory
  have magic : read32 s₁.dmabuf 0 % 65536 = 0xB5B5 := by
    rw [memory, encodeMem_magic wf]
  obtain ⟨s₂, sets, bases⟩ :=
    arraybaseSet_apply neuronGaddr.toUInt32 weightGaddr.toUInt32 0 0 magic
  have same : ∀ a, a < 32 ∨ 48 ≤ a → s₂.dmabuf a = encodeMem k cmdbuf recs s.dmabuf a := by
    intro a outside
    rw [bases, basesSet_outside outside, memory]
  obtain ⟨s', relocates, moved⟩ := dmabufRelocate_mem wf few devaddr
    (UInt32.ofNat (encodedSize k recs)) (UInt32.ofNat (if enablePmu then pmu else 0)) same
  refine ⟨s', _, _, s₂.dmabuf, ?_, moved, same⟩
  simp only [loadCmdbuf, bind_apply, sized, converts, sets, relocates]

end

end

/-- An address for a buffer of `size` bytes: aligned for both engines, and so low that the
    addresses in the buffer fit into the fields. -/
structure Addressable (k : KernelHeaders) (A size : Nat) : Prop where
  tiu : 2 ^ k.bdcAlignedBit ∣ A
  tdma : 2 ^ k.tdmaAlignedBit ∣ A
  fits : A + size < 2 ^ 32 <<< min k.bdcAlignedBit k.tdmaAlignedBit

section

variable {k : KernelHeaders} {cmdbuf : Nat → UInt8} {sz A size : Nat} {recs : List Rec}

theorem Addressable.below (address : Addressable k A size) {b off : Nat} (inside : off ≤ size)
    (least : min k.bdcAlignedBit k.tdmaAlignedBit ≤ b) : A + off < 2 ^ 32 * 2 ^ b := by
  have fits := address.fits
  have shifted : 2 ^ min k.bdcAlignedBit k.tdmaAlignedBit ≤ 2 ^ b :=
    Nat.pow_le_pow_right (by decide) least
  rw [Nat.shiftLeft_eq] at fits
  have grown := Nat.mul_le_mul_left (2 ^ 32) shifted
  omega

theorem Addressable.word (address : Addressable k A size)
    (bits : min k.bdcAlignedBit k.tdmaAlignedBit ≤ 32) {off : Nat} (inside : off ≤ size) :
    A + off < 2 ^ 64 := by
  have below := address.below inside bits
  omega

/-- An address written for an offset of the buffer leads back to it. -/
theorem Addressable.shifted {b off : Nat} (address : Addressable k A size)
    (bits : min k.bdcAlignedBit k.tdmaAlignedBit ≤ 32)
    (least : min k.bdcAlignedBit k.tdmaAlignedBit ≤ b) (alignedA : 2 ^ b ∣ A)
    (aligned : 2 ^ b ∣ off) (inside : off ≤ size) :
    (((A + off) % 2 ^ 64) >>> b % 2 ^ 32) <<< b = A + off :=
  shifted_word alignedA aligned (address.below inside least) (address.word bits inside)

section

variable {m m' : Nat → UInt8} {j : Nat} {seg : List Rec}
  (address : Addressable k A (encodedSize k recs))
  (bits : min k.bdcAlignedBit k.tdmaAlignedBit ≤ 32)
  (offsets : OffsetsAre k m j seg (tiuPlace k (segments k recs) j % 2 ^ 32)
    (tdmaPlace k (segments k recs) j % 2 ^ 32))
  (moved : SegMoved k A j seg m m')

include address bits offsets moved

theorem SegMoved.tiu_address (some : countOf k.tiu seg ≠ 0) :
    read32 m' (armAt k j + 12) <<< k.bdcAlignedBit = A + read32 m (armAt k j + 12) := by
  have inside := Nat.le_trans (Nat.mod_le _ (2 ^ 32)) (tiuPlace_le k recs j)
  rw [moved.tiu some, offsets.1 some]
  exact address.shifted bits (Nat.min_le_left _ _) address.tiu (dvd_mod_word (tiuPlace_dvd _ _))
    inside

theorem SegMoved.tdma_address (some : countOf k.tdma seg ≠ 0) :
    read32 m' (armAt k j + 16) <<< k.tdmaAlignedBit = A + read32 m (armAt k j + 16) := by
  have inside := Nat.le_trans (Nat.mod_le _ (2 ^ 32)) (tdmaPlace_le k recs j)
  rw [moved.tdma some, offsets.2 some]
  exact address.shifted bits (Nat.min_le_right _ _) address.tdma
    (dvd_mod_word (tdmaPlace_dvd _ _)) inside

end

section

variable (wf : WellFormed k cmdbuf sz recs) (few : (segments k recs).length < 2 ^ 32)
  (bits : min k.bdcAlignedBit k.tdmaAlignedBit ≤ 32)

include wf few bits

theorem relocated_encodeMem (address : Addressable k A (encodedSize k recs))
    (originalSize pmubufSize : UInt32) (m : Nat → UInt8) :
    Relocated k A originalSize pmubufSize (segments k recs) (encodeMem k cmdbuf recs m)
      (moveSegs k A originalSize.toNat pmubufSize.toNat (segments k recs) 0
        (encodeMem k cmdbuf recs m)) := by
  have some : segments k recs ≠ [] := by
    intro none
    have whole := segments_flatten k recs
    rw [none] at whole
    exact wf.nonempty whole.symm
  obtain ⟨pmu, original⟩ := moveSegs_header k (encodeMem k cmdbuf recs m) A originalSize.toNat
    pmubufSize.toNat 0 some
  have moved {j : Nat} {seg : List Rec} (found : (segments k recs)[j]? = .some seg) :
      SegMoved k A j seg (encodeMem k cmdbuf recs m)
        (moveSegs k A originalSize.toNat pmubufSize.toNat (segments k recs) 0
          (encodeMem k cmdbuf recs m)) := by
    have here := moveSegs_moved k (encodeMem k cmdbuf recs m) A originalSize.toNat
      pmubufSize.toNat 0 found
    rwa [Nat.zero_add] at here
  refine ⟨?_, ?_, ?_, ?_, ?_⟩
  · intro j seg found busy
    have offsets := encodeMem_offsets wf few m found
    exact ⟨(moved found).tiu_address address bits offsets busy, (moved found).tiuKept busy⟩
  · intro j seg found busy
    have offsets := encodeMem_offsets wf few m found
    exact ⟨(moved found).tdma_address address bits offsets busy, (moved found).tdmaKept busy⟩
  · rw [pmu, Nat.mod_eq_of_lt pmubufSize.toNat_lt]
  · rw [original, Nat.mod_eq_of_lt originalSize.toNat_lt]
  · intro a header outside
    apply moveSegs_outside header
    intro j seg found
    rw [Nat.zero_add]
    exact outside j seg found

/-- Below 4 GiB the addresses are those of the slots. -/
theorem hardwareSlots_loadCmdbuf (address : Addressable k A (encodedSize k recs))
    (word : encodedSize k recs < 2 ^ 32) {m m₀ : Nat → UInt8} (originalSize pmubufSize : Nat)
    (same : ∀ a, a < 32 ∨ 48 ≤ a → m a = encodeMem k cmdbuf recs m₀ a) :
    HardwareSlots k cmdbuf A recs (moveSegs k A originalSize pmubufSize (segments k recs) 0 m) := by
  intro j seg found
  have counted : (countedSegments k recs)[j]? = .some seg := by rwa [countedSegments_eq few]
  obtain ⟨⟨offTiu, offTdma⟩, tiu, tdma⟩ := encodeMem_placed wf m₀ counted
  have first : 128 ≤ armAt k j := Nat.le_add_right _ _
  have field (d : Nat) : read32 m (armAt k j + d) =
      read32 (encodeMem k cmdbuf recs m₀) (armAt k j + d) :=
    read32_congr fun _ _ => same _ (by omega)
  have offsets : OffsetsAre k m j seg (tiuPlace k (segments k recs) j % 2 ^ 32)
      (tdmaPlace k (segments k recs) j % 2 ^ 32) := by
    unfold OffsetsAre
    rw [field, field]
    exact ⟨offTiu, offTdma⟩
  have moved := moveSegs_moved k m A originalSize pmubufSize 0 found
  rw [Nat.zero_add] at moved
  have start := armAt_le_tiuStart (k := k) (segments k recs)
  have above {a : Nat} (high : tiuStart k (segments k recs) ≤ a) :
      moveSegs k A originalSize pmubufSize (segments k recs) 0 m a =
        encodeMem k cmdbuf recs m₀ a := by
    have table : 128 ≤ armAt k (segments k recs).length := Nat.le_add_right _ _
    rw [moveSegs_above (by rw [Nat.zero_add]; omega), same a (by omega)]
  have tiuLow : tiuStart k (segments k recs) ≤ tiuPlace k (segments k recs) j :=
    le_tiuExtent k _ _
  have tdmaLow : tiuStart k (segments k recs) ≤ tdmaPlace k (segments k recs) j := by
    have extent := tiuStart_le_tdmaStart (k := k) (segments k recs)
    unfold tdmaPlace
    omega
  have tiuBelow := tiuPlace_le k recs j
  have tdmaBelow := tdmaPlace_le k recs j
  constructor
  · intro busy
    refine ⟨?_, ?_⟩
    · rw [moved.tiu_address address bits offsets busy, offsets.1 busy, Nat.mod_eq_of_lt (by omega)]
    · rw [readSlots_mappedAt, readSlots_congr fun a low _ => above (by omega), tiu]
  · intro busy
    refine ⟨?_, ?_⟩
    · rw [moved.tdma_address address bits offsets busy, offsets.2 busy,
        Nat.mod_eq_of_lt (by omega)]
    · rw [readSlots_mappedAt, readSlots_congr fun a low _ => above (by omega), tdma]
      exact prefix_tdmaSlots _ _

end

/-- Relocation is exact and touches nothing else, for every encoded buffer whose segments the
    header can count; and when the buffer is smaller than 4 GiB the addresses in a loaded command
    buffer, with and without room for the PMU, are those of the slots that the encoder filled. -/
theorem dmabufRelocate_exact (wf : WellFormed k cmdbuf sz recs)
    (few : (segments k recs).length < 2 ^ 32)
    (bits : min k.bdcAlignedBit k.tdmaAlignedBit ≤ 32) (devaddr : UInt64)
    (address : Addressable k devaddr.toNat (encodedSize k recs)) (s : Buffers) :
    (∀ originalSize pmubufSize, ∃ s₁ s₂, dmabufConvert k cmdbuf sz s = .ok () s₁ ∧
      dmabufRelocate k devaddr originalSize pmubufSize s₁ = .ok () s₂ ∧
      Relocated k devaddr.toNat originalSize pmubufSize (segments k recs) s₁.dmabuf s₂.dmabuf) ∧
    (encodedSize k recs < 2 ^ 32 → ∀ neuronGaddr weightGaddr enablePmu, ∃ s',
      loadCmdbuf k cmdbuf sz devaddr neuronGaddr weightGaddr enablePmu s = .ok () s' ∧
      HardwareSlots k cmdbuf devaddr.toNat recs s'.dmabuf) := by
  constructor
  · intro originalSize pmubufSize
    obtain ⟨s₁, converts, memory⟩ := dmabufConvert_mem s wf.magic wf.met wf.small
    obtain ⟨s₂, relocates, moved⟩ := dmabufRelocate_mem wf few devaddr originalSize pmubufSize
      (s := s₁) (m := s.dmabuf) fun a _ => by rw [memory]
    refine ⟨s₁, s₂, converts, relocates, ?_⟩
    rw [moved, memory]
    exact relocated_encodeMem wf few bits address originalSize pmubufSize s.dmabuf
  · intro word neuronGaddr weightGaddr enablePmu
    obtain ⟨s', originalSize, pmubufSize, m, loads, memory, same⟩ :=
      loadCmdbuf_mem wf few s devaddr neuronGaddr weightGaddr enablePmu
    refine ⟨s', loads, ?_⟩
    rw [memory]
    exact hardwareSlots_loadCmdbuf wf few bits address word originalSize pmubufSize same

end

/-! ## Small and large buffers -/

theorem dmabufRelocate_exact_mixed :
    WellFormed kernel1822 (mixed 0xA8) 476 (mixedRecords 0xA8 5) ∧
    Addressable kernel1822 4096 (encodedSize kernel1822 (mixedRecords 0xA8 5)) ∧
    (∀ originalSize pmubufSize, ∃ s₁ s₂,
      dmabufConvert kernel1822 (mixed 0xA8) 476 ⟨fun _ => 0, []⟩ = .ok () s₁ ∧
      dmabufRelocate kernel1822 4096 originalSize pmubufSize s₁ = .ok () s₂ ∧
      Relocated kernel1822 4096 originalSize pmubufSize
        (segments kernel1822 (mixedRecords 0xA8 5)) s₁.dmabuf s₂.dmabuf) ∧
    ∀ neuronGaddr weightGaddr enablePmu, ∃ s',
      loadCmdbuf kernel1822 (mixed 0xA8) 476 4096 neuronGaddr weightGaddr enablePmu
        ⟨fun _ => 0, []⟩ = .ok () s' ∧
      HardwareSlots kernel1822 (mixed 0xA8) 4096 (mixedRecords 0xA8 5) s'.dmabuf := by
  have size := encodedSize_mixed
  have address : Addressable kernel1822 4096 (encodedSize kernel1822 (mixedRecords 0xA8 5)) := by
    rw [size]
    exact ⟨by decide, by decide, by decide⟩
  have few : (segments kernel1822 (mixedRecords 0xA8 5)).length < 2 ^ 32 := by
    rw [segments_mixed]
    decide
  obtain ⟨relocates, loads⟩ := dmabufRelocate_exact wellFormed_mixed few (by decide) 4096 address
    ⟨fun _ => 0, []⟩
  exact ⟨wellFormed_mixed, address, relocates, loads (by rw [size]; decide)⟩

/-- CPU records with no open segment before them are the segments. -/
theorem segmentsFrom_nil_of_cpu {k : KernelHeaders} {recs : List Rec}
    (cpu : ∀ r ∈ recs, r.engine = k.cpu) : segmentsFrom k [] recs = recs.map fun r => [r] := by
  induction recs with
  | nil => rfl
  | cons r recs ih =>
    obtain ⟨isCpu, rest⟩ := List.forall_mem_cons.mp cpu
    rw [segmentsFrom_closes (Or.inl isCpu), List.map_cons, ih rest]
    rfl

theorem segments_tiuThenCpu_eq (n : Nat) : segments kernel1822 (tiuThenCpuRecords (n + 1)) =
    [recAt kernel1822 tiuThenCpu 0, recAt kernel1822 tiuThenCpu 120] ::
      (cpuRecords 1 n).map fun r => [r] := by
  have stays : ¬(recAt kernel1822 tiuThenCpu 0).Closes kernel1822 (cpuRecords 0 (n + 1)) := by
    rintro (cpu | sync | last)
    · exact absurd cpu (by decide)
    · exact absurd sync (by decide)
    · rw [cpuRecords_succ] at last
      exact absurd last (List.cons_ne_nil _ _)
  rw [segments, tiuThenCpuRecords, segmentsFrom_open stays, cpuRecords_succ,
    segmentsFrom_closes (Or.inl (recAt_cpu_engine 0)), segmentsFrom_nil_of_cpu cpuRecords_engine]
  rfl

/-- Segments without TIU records take no room. -/
theorem tiuExtent_of_none {k : KernelHeaders} {segs : List (List Rec)} (size : Nat)
    (none : ∀ seg ∈ segs, countOf k.tiu seg = 0) : tiuExtent k size segs = size := by
  induction segs generalizing size with
  | nil => rfl
  | cons seg segs ih =>
    obtain ⟨head, rest⟩ := List.forall_mem_cons.mp none
    rw [tiuExtent_cons, head, growTiu_zero, ih size rest]

theorem encodedSize_tiuThenCpu (n : Nat) : encodedSize kernel1822 (tiuThenCpuRecords (n + 1)) =
    alignUp (alignUp (128 + (n + 1) * 84) 8 + 256) 6 := by
  have segs := segments_tiuThenCpu_eq n
  have extent : tiuExtent kernel1822 0 (segments kernel1822 (tiuThenCpuRecords (n + 1))) = 256 := by
    rw [segs, tiuExtent_cons, tiuExtent_of_none]
    · decide
    · intro seg member
      obtain ⟨r, isCpu, rfl⟩ := List.mem_map.mp member
      apply countOf_eq_zero
      intro r' inSeg
      rw [List.mem_singleton.mp inSeg, cpuRecords_engine r isCpu]
      decide
  have noTdma := (countOf_tiuThenCpu (n + 1)).2
  rw [encodedSize_eq, tdmaStart, tiuStart, extent, noTdma, segments_tiuThenCpu _ (by omega)]
  rfl

/-- Beyond 4 GiB the address in the table of a loaded command buffer is not that of the slot
    that the encoder filled: the upper bits of the offset are lost before the relocation. -/
theorem loadCmdbuf_misses_slot :
    WellFormed kernel1822 tiuThenCpu (120 + 92 * 2 ^ 26) (tiuThenCpuRecords (2 ^ 26)) ∧
    Addressable kernel1822 4096 (encodedSize kernel1822 (tiuThenCpuRecords (2 ^ 26))) ∧
    ∃ s', loadCmdbuf kernel1822 tiuThenCpu (120 + 92 * 2 ^ 26) 4096 0 0 false
        ⟨fun _ => 0, []⟩ = .ok () s' ∧
      ¬HardwareSlots kernel1822 tiuThenCpu 4096 (tiuThenCpuRecords (2 ^ 26)) s'.dmabuf := by
  have wf := wellFormed_tiuThenCpu (2 ^ 26)
  have segs := segments_tiuThenCpu_eq (2 ^ 26 - 1)
  rw [show 2 ^ 26 - 1 + 1 = 2 ^ 26 by omega] at segs
  have length := segments_tiuThenCpu (2 ^ 26) (by decide)
  have few : (segments kernel1822 (tiuThenCpuRecords (2 ^ 26))).length < 2 ^ 32 := by
    rw [length]
    decide
  have size := encodedSize_tiuThenCpu (2 ^ 26 - 1)
  rw [show 2 ^ 26 - 1 + 1 = 2 ^ 26 by omega] at size
  have address : Addressable kernel1822 4096
      (encodedSize kernel1822 (tiuThenCpuRecords (2 ^ 26))) := by
    rw [size]
    exact ⟨by decide, by decide, by decide⟩
  obtain ⟨s', originalSize, pmubufSize, m, loads, memory, same⟩ :=
    loadCmdbuf_mem wf few ⟨fun _ => 0, []⟩ 4096 0 0 false
  have found : (segments kernel1822 (tiuThenCpuRecords (2 ^ 26)))[0]? =
      some [recAt kernel1822 tiuThenCpu 0, recAt kernel1822 tiuThenCpu 120] := by
    rw [segs]
    rfl
  have busy : countOf kernel1822.tiu
      [recAt kernel1822 tiuThenCpu 0, recAt kernel1822 tiuThenCpu 120] ≠ 0 := by decide
  have place : tiuPlace kernel1822 (segments kernel1822 (tiuThenCpuRecords (2 ^ 26))) 0 =
      5637144832 := by
    rw [tiuPlace, List.take_zero, tiuStart, length]
    decide
  have offset : read32 m (armAt kernel1822 0 + 12) = 5637144832 % 2 ^ 32 := by
    rw [read32_congr fun j small => same (armAt kernel1822 0 + 12 + j) (Or.inr (by
      have first : 128 ≤ armAt kernel1822 0 := Nat.le_add_right _ _
      omega)), (encodeMem_offsets wf few _ found).1 busy, place]
  have written := (moveSegs_moved kernel1822 m 4096 originalSize pmubufSize 0 found).tiu busy
  rw [Nat.zero_add, offset] at written
  refine ⟨wf, address, s', loads, ?_⟩
  intro slots
  have named := ((slots 0 _ found).1 busy).1
  rw [memory, place] at named
  have shifted : (((4096 + 5637144832 % 2 ^ 32) % 2 ^ 64) >>> 8 % 2 ^ 32) <<< 8 ≠
      4096 + 5637144832 := by decide
  apply shifted
  rw [← named]
  exact congrArg (· <<< 8) written.symm

end CviRuntime.Dmabuf
