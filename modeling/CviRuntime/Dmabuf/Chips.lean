import CviRuntime.Lib.Simulation
import CviRuntime.Dmabuf.Pmu

/-!
# The encoders of the 181x and the 183x (`src/soc/181x/bm_dmabuf.c`, `src/soc/183x/bm_dmabuf.c`)

The two files are copies of one another except for the magic numbers, and older than the 180x
encoder: where that returns `BM_ERR_DATA` they assert, and the test for the end of a segment is a
short-circuit `||`. What is the same text in all three files (the arithmetic on the counters,
`adjust_desc_tdma`, `adjust_desc_bd`) is used from the 180x model. The pointers `cmdbuf` and
`dmabuf` are not null.

The 180x encoder, run on a command buffer with its own magic number, is simulated by these
encoders on a buffer with theirs, as long as both buffers have the same engines and bodies.
-/

namespace CviRuntime.Dmabuf

open ByteMem Simulation

/-- Ways not to return: `TPU_ASSERT`, a null `desc`, or a loop cut short. -/
inductive Halt where
  | assertion
  | nullDesc
  | outOfFuel
  deriving DecidableEq, Repr

abbrev A := EStateM Halt (Nat → UInt8)

namespace Asserting

def store (off : Nat) (bytes : List UInt8) : A Unit := fun m => .ok () (writeBytes m off bytes)

def load (off n : Nat) : A (List UInt8) := fun m => .ok (readBytes m off n) m

def load32 (off : Nat) : A Nat := fun m => .ok (read32 m off) m

def tpuAssert (holds : Prop) [Decidable holds] : A Unit :=
  if holds then pure () else throw .assertion

section

variable (k : KernelHeaders) (magic : Nat) (cmdbuf : Nat → UInt8) (sz : Nat)

/-- `traverse_start` (`181x/bm_dmabuf.c:31-37`); `magic` is the one of the chip. -/
def traverseStart : A Nat := do
  tpuAssert (magicAt k cmdbuf 0 = magic)
  return 0

/-- `traverse_next` (`181x/bm_dmabuf.c:39-46`). -/
def traverseNext (desc : Nat) : A (Option Nat) := do
  let next := desc + (recAt k cmdbuf desc).len + k.hdrBytes
  if sz ≤ next then return none
  tpuAssert (magicAt k cmdbuf next = magic)
  return some next

/-- `is_last_desc` (`181x/bm_dmabuf.c:48-52`). -/
def isLastDesc (desc : Nat) : A Bool := do
  return (← traverseNext k magic cmdbuf sz desc).isNone

/-- `desc_sync_id` (`181x/bm_dmabuf.c:122-139`). -/
def descSyncId (desc : Nat) : A Nat :=
  let engine := (recAt k cmdbuf desc).engine
  if engine = k.tiu then
    return k.tiuCmdId (readBytes cmdbuf (desc + k.hdrBytes) k.bdRegBytes)
  else if engine = k.tdma then
    return k.tdmaCmdId (readBytes cmdbuf (desc + k.hdrBytes) k.tdmaRegBytes)
  else throw .assertion

/-- `desc_sync_id(desc) == 0xFFFF || is_last_desc(desc, cmdbuf, sz)`. -/
def endsSegment (desc : Nat) : A Bool := do
  if (← descSyncId k cmdbuf desc) = 0xFFFF then return true
  else isLastDesc k magic cmdbuf sz desc

/-- `while (desc != NULL) { body; traverse_next }`. -/
def walk {σ : Type} (body : Nat → σ → A σ) : Nat → Option Nat → σ → A σ
  | _, none, st => pure st
  | 0, some _, _ => throw .outOfFuel
  | fuel + 1, some desc, st => do
    let st ← body desc st
    let next ← traverseNext k magic cmdbuf sz desc
    walk body fuel next st

/-! ## `cvi181x_dmabuf_size`, `cvi183x_dmabuf_size` -/

def sizeBody (desc : Nat) (st : SizeState) : A SizeState := do
  let engine := (recAt k cmdbuf desc).engine
  let st := { st with counters := st.counters.bump k engine }
  if engine ≠ k.cpu then
    if (← endsSegment k magic cmdbuf sz desc) then
      return { st with counters := { st.counters with cpu := st.counters.cpu + 1 } }.close k
    else return st
  else return st.close k

/-- `cvi181x_dmabuf_size` (`181x/bm_dmabuf.c:320-372`): `*psize` and `*pmu_size`. -/
def dmabufSize : A (Nat × Nat) := do
  let desc ← traverseStart k magic cmdbuf
  let st ← walk k magic cmdbuf sz (sizeBody k magic cmdbuf sz) (sz + 1) (some desc)
    ⟨⟨0, 0, 0⟩, 0, 0, 0, 0⟩
  return (layoutSize k st.counters.cpu st.bdSize st.tdmaDescNum, pmuSize st.tiuCnt st.tdmaCnt)

/-! ## `fill_header_and_arm` -/

/-- The body of the loop of `fill_header_and_arm` (`181x/bm_dmabuf.c:157-193`). -/
def armBody (desc : Nat) (st : ArmState) : A ArmState := do
  let engine := (recAt k cmdbuf desc).engine
  let st := { st with
    counters := st.counters.bump k engine, descNums := st.descNums.bump k engine }
  if engine ≠ k.cpu then
    if (← endsSegment k magic cmdbuf sz desc) then
      let st := { st with descNums := { st.descNums with cpu := st.descNums.cpu + 1 } }
      let arm := armAt k (st.descNums.cpu - 1)
      store arm (List.replicate k.armBytes 0)
      store arm (le32 k.cpuOpSync)
      store (arm + 4) (le32 st.counters.tiu)
      store (arm + 8) (le32 st.counters.tdma)
      store (arm + 28) (layerEnd k)
      return st.close k
    else return st
  else
    let arm := armAt k (st.descNums.cpu - 1)
    store arm (readBytes cmdbuf (desc + k.hdrBytes) k.armBytes)
    store (arm + 4) (le32 st.counters.tiu)
    store (arm + 8) (le32 st.counters.tdma)
    return st.close k

/-- The `dma_hdr_t` written; `magicS` is the `dmabuf_magic_s` of the chip. -/
def headerBytes (magicS : Nat) (size cpuNum tiuNum tdmaNum : Nat) : List UInt8 :=
  [0xB5, 0xB5, UInt8.ofNat magicS, UInt8.ofNat (magicS / 256)] ++ le32 size ++ le32 cpuNum ++
    le32 tiuNum ++ le32 tdmaNum ++ List.replicate 108 0

/-- `fill_header_and_arm` (`181x/bm_dmabuf.c:141-212`): `*tiu_offset` and `*tdma_offset`. -/
def fillHeaderAndArm (magicS : Nat) : A (Nat × Nat) := do
  let desc ← traverseStart k magic cmdbuf
  let st ← walk k magic cmdbuf sz (armBody k magic cmdbuf sz) (sz + 1) (some desc)
    ⟨⟨0, 0, 0⟩, ⟨0, 0, 0⟩, 0⟩
  let tiuOffset := alignUp (sizeofDmaHdr + st.descNums.cpu * k.armBytes) k.bdcAlignedBit
  let tdmaOffset := alignUp (tiuOffset + st.descSizeTiu) k.tdmaAlignedBit
  store 0 (headerBytes magicS (tdmaOffset + st.descNums.tdma * k.gdmaDescAlignSize)
    st.descNums.cpu st.descNums.tiu st.descNums.tdma)
  return (tiuOffset, tdmaOffset)

/-! ## `fill_bd_and_tdma` -/

/-- The switch of `fill_bd_and_tdma` (`181x/bm_dmabuf.c:244-293`). -/
def copyDesc (desc tiuNum tdmaNum : Nat) (c : Cursor) : A (Nat × Nat × Cursor) := do
  let engine := (recAt k cmdbuf desc).engine
  let len := (recAt k cmdbuf desc).len
  if engine = k.tiu then
    let tiuNum := dec32 tiuNum
    store c.tiuOffset (readBytes cmdbuf (desc + k.hdrBytes) len)
    let slot ← load c.tiuOffset k.bdRegBytes
    store c.tiuOffset (adjustDescBd k slot (tiuNum = 0))
    return (tiuNum, tdmaNum, { c with tiuOffset := c.tiuOffset + k.bdRegBytes })
  else if engine = k.tdma then
    let tdmaNum := dec32 tdmaNum
    let tdmaOffset := alignUp c.tdmaOffset k.tdmaAlignedBit
    store tdmaOffset (readBytes cmdbuf (desc + k.hdrBytes) len)
    let word ← load tdmaOffset 4
    store tdmaOffset (adjustDescTdma k word (tdmaNum = 0))
    return (tiuNum, tdmaNum, { c with tdmaOffset := tdmaOffset + k.gdmaDescAlignSize })
  else return (tiuNum, tdmaNum, c)

/-- `while (tiu_num || tdma_num)` (`181x/bm_dmabuf.c:240-295`). -/
def copyLoop : Nat → Nat → Nat → Cursor → A Cursor
  | 0, _, _, _ => throw .outOfFuel
  | fuel + 1, tiuNum, tdmaNum, c =>
    if tiuNum = 0 ∧ tdmaNum = 0 then pure c else
    match c.desc with
    | none => throw .nullDesc
    | some desc => do
      let (tiuNum, tdmaNum, c) ← copyDesc k cmdbuf desc tiuNum tdmaNum c
      let next ← traverseNext k magic cmdbuf sz desc
      copyLoop fuel tiuNum tdmaNum { c with desc := next }

/-- One round of the loop over the segments (`181x/bm_dmabuf.c:221-304`). -/
def fillSegment (i : Nat) (c : Cursor) : A Cursor := do
  let arm := armAt k i
  let tiuNum := (← load32 (arm + 4)) % 65536
  let tdmaNum := (← load32 (arm + 8)) % 65536
  let tiuOffset := if tiuNum ≠ 0 then alignUp c.tiuOffset k.bdcAlignedBit else c.tiuOffset
  if tiuNum ≠ 0 then store (arm + 12) (le32 tiuOffset)
  let tdmaOffset := if tdmaNum ≠ 0 then alignUp c.tdmaOffset k.tdmaAlignedBit else c.tdmaOffset
  if tdmaNum ≠ 0 then store (arm + 16) (le32 tdmaOffset)
  let c ← copyLoop k magic cmdbuf sz (sz + 2) tiuNum tdmaNum ⟨c.desc, tiuOffset, tdmaOffset⟩
  if (← load32 (arm + 4)) % 65536 ≠ 0 then
    store c.tiuOffset (List.replicate bdEodPaddingBytes 0)
    return { c with tiuOffset := c.tiuOffset + bdEodPaddingBytes }
  else return c

/-- `for (uint32_t i = 0; i < p_header->cpu_desc_count; i++)`. -/
def fillLoop : Nat → Nat → Cursor → A Unit
  | 0, _, _ => throw .outOfFuel
  | fuel + 1, i, c => do
    if i < (← load32 8) then
      let c ← fillSegment k magic cmdbuf sz i c
      fillLoop fuel (i + 1) c
    else return ()

/-- `fill_bd_and_tdma` (`181x/bm_dmabuf.c:214-307`). -/
def fillBdAndTdma (tiuOffset tdmaOffset : Nat) : A Unit := do
  let desc ← traverseStart k magic cmdbuf
  fillLoop k magic cmdbuf sz (2 ^ 32) 0 ⟨some desc, tiuOffset, tdmaOffset⟩

/-- `cvi181x_dmabuf_convert` (`181x/bm_dmabuf.c:309-316`). -/
def dmabufConvert (magicS : Nat) : A Unit := do
  let (tiuOffset, tdmaOffset) ← fillHeaderAndArm k magic cmdbuf sz magicS
  fillBdAndTdma k magic cmdbuf sz tiuOffset tdmaOffset

end

end Asserting

section

variable (k : KernelHeaders) (cmdbuf : Nat → UInt8) (sz : Nat)

/-- The encoders of the chips; `magic` is `CMDBUF_HDR_MAGIC_181X`. -/
def cvi181xDmabufSize (magic : Nat) : A (Nat × Nat) := Asserting.dmabufSize k magic cmdbuf sz

def cvi181xDmabufConvert (magic : Nat) : A Unit := Asserting.dmabufConvert k magic cmdbuf sz 0x1822

/-- `magic` is `CMDBUF_HDR_MAGIC_1880v2`. -/
def cvi183xDmabufSize (magic : Nat) : A (Nat × Nat) := Asserting.dmabufSize k magic cmdbuf sz

def cvi183xDmabufConvert (magic : Nat) : A Unit := Asserting.dmabufConvert k magic cmdbuf sz 0x1835

end

/-! ## Two buffers with the same records -/

section

variable (k : KernelHeaders)

/-- The kernel headers with the magic number of another chip. -/
def KernelHeaders.withMagic (magic : Nat) : KernelHeaders := { k with magic180X := magic }

/-- The same engines and bodies, and so the same lengths. -/
def SameRecords (cmdbuf : Nat → UInt8) (recs : List Rec) (cmdbuf' : Nat → UInt8)
    (recs' : List Rec) : Prop :=
  recs'.map (fun r => (r.engine, r.body k cmdbuf')) = recs.map fun r => (r.engine, r.body k cmdbuf)

/-- What the encoders look at is the same in both buffers at these positions, and from each of
    them they get to another one or to the end. -/
structure Agree (magic : Nat) (cmdbuf cmdbuf' : Nat → UInt8) (sz : Nat) (offs : List Nat) :
    Prop where
  start : 0 ∈ offs
  next : ∀ off ∈ offs, (recAt k cmdbuf off).next k < sz → (recAt k cmdbuf off).next k ∈ offs
  magic : ∀ off ∈ offs, magicAt k cmdbuf' off = magic
  engine : ∀ off ∈ offs, (recAt k cmdbuf' off).engine = (recAt k cmdbuf off).engine
  len : ∀ off ∈ offs, (recAt k cmdbuf' off).len = (recAt k cmdbuf off).len
  body : ∀ off ∈ offs, ∀ n,
    n ≤ (recAt k cmdbuf off).len ∨ (recAt k cmdbuf off).engine = k.tiu ∧ n = k.bdRegBytes ∨
      (recAt k cmdbuf off).engine = k.tdma ∧ n = k.tdmaRegBytes ∨
      (recAt k cmdbuf off).engine = k.cpu ∧ n = k.armBytes →
    readBytes cmdbuf' (off + k.hdrBytes) n = readBytes cmdbuf (off + k.hdrBytes) n

/-- The memory of the one encoder, looked at through `φ`, is that of the other. -/
def Via (φ : (Nat → UInt8) → Nat → UInt8) (s : Buffers) (m : Nat → UInt8) : Prop := m = φ s.dmabuf

end

section

variable {k : KernelHeaders} {magic : Nat} {cmdbuf cmdbuf' : Nat → UInt8} {sz off : Nat}
  {offs : List Nat} {φ : (Nat → UInt8) → Nat → UInt8}

/-- A step of the 180x encoder that only goes into the log. -/
theorem via_of_push {β : Type} {x : M β} {b : β} (runs : ∀ s, ∃ acc, x s = .ok b (s.push acc)) :
    ∀ s, ∃ s', x s = .ok b s' ∧ ∀ t, Via φ s t → Via φ s' t := by
  intro s
  obtain ⟨acc, run⟩ := runs s
  refine ⟨s.push acc, run, ?_⟩
  intro t related
  rw [Via, push_dmabuf]
  exact related

theorem asserting_traverseNext (desc : Nat) (m : Nat → UInt8) :
    Asserting.traverseNext k magic cmdbuf sz desc m =
      if sz ≤ (recAt k cmdbuf desc).next k then .ok none m
      else if magicAt k cmdbuf ((recAt k cmdbuf desc).next k) = magic then
        .ok (some ((recAt k cmdbuf desc).next k)) m
      else .error .assertion m := by
  have position : desc + (recAt k cmdbuf desc).len + k.hdrBytes = (recAt k cmdbuf desc).next k :=
    rfl
  simp only [Asserting.traverseNext, position, Asserting.tpuAssert]
  split_ifs <;> rfl

theorem Agree.traverseStart_sim (agree : Agree k magic cmdbuf cmdbuf' sz offs) :
    Simulates (Via φ) (fun desc => desc ∈ offs) (traverseStart k cmdbuf)
      (Asserting.traverseStart k magic cmdbuf') := by
  intro s t desc s' related runs
  rw [traverseStart_apply] at runs
  split_ifs at runs
  obtain ⟨rfl, rfl⟩ := EStateM.Result.ok.inj runs
  refine ⟨t, ?_, ?_, agree.start⟩
  · have held : Asserting.tpuAssert (magicAt k cmdbuf' 0 = magic) = pure () :=
      if_pos (agree.magic 0 agree.start)
    rw [Asserting.traverseStart, held]
    rfl
  · rw [Via, push_dmabuf]
    exact related

theorem Agree.traverseNext_sim (agree : Agree k magic cmdbuf cmdbuf' sz offs)
    (member : off ∈ offs) :
    Simulates (Via φ) (fun next => ∀ p, next = some p → p ∈ offs) (traverseNext k cmdbuf sz off)
      (Asserting.traverseNext k magic cmdbuf' sz off) := by
  intro s t next s' related runs
  have place : (recAt k cmdbuf' off).next k = (recAt k cmdbuf off).next k := by
    simp only [Rec.next, agree.len off member]
    rfl
  rw [traverseNext_apply] at runs
  rw [asserting_traverseNext, place]
  unfold follow at runs
  by_cases last : sz ≤ (recAt k cmdbuf off).next k
  · simp only [last, if_true] at runs ⊢
    obtain ⟨rfl, rfl⟩ := EStateM.Result.ok.inj runs
    refine ⟨t, rfl, ?_, by simp⟩
    rw [Via, push_dmabuf]
    exact related
  · have inside := agree.next off member (by omega)
    simp only [last, if_false, agree.magic _ inside, if_true] at runs ⊢
    split_ifs at runs
    simp only at runs
    obtain ⟨rfl, rfl⟩ := EStateM.Result.ok.inj runs
    refine ⟨t, rfl, ?_, ?_⟩
    · rw [Via, push_dmabuf]
      exact related
    · rintro p ⟨⟩
      exact inside

theorem Agree.isLastDesc_sim (agree : Agree k magic cmdbuf cmdbuf' sz offs)
    (member : off ∈ offs) :
    Simulates (Via φ) (fun _ => True) (isLastDesc k cmdbuf sz off)
      (Asserting.isLastDesc k magic cmdbuf' sz off) :=
  (agree.traverseNext_sim member).bind fun _ _ => simulates_pure trivial

theorem Agree.descSyncId_sim (agree : Agree k magic cmdbuf cmdbuf' sz offs)
    (member : off ∈ offs) :
    Simulates (Via φ) (fun _ => True) (descSyncId k cmdbuf off)
      (Asserting.descSyncId k cmdbuf' off) := by
  unfold descSyncId Asserting.descSyncId
  apply simulates_bind_left (via_of_push fun s => ⟨_, hdrEngine_apply⟩)
  simp only [agree.engine off member]
  apply simulates_ite
  · intro tiu
    apply simulates_bind_left (via_of_push fun s => ⟨_, readCmd_apply _⟩)
    rw [agree.body off member _ (Or.inr (Or.inl ⟨tiu, rfl⟩))]
    exact simulates_pure trivial
  · intro _
    apply simulates_ite
    · intro tdma
      apply simulates_bind_left (via_of_push fun s => ⟨_, readCmd_apply _⟩)
      rw [agree.body off member _ (Or.inr (Or.inr (Or.inl ⟨tdma, rfl⟩)))]
      exact simulates_pure trivial
    · intro _
      exact simulates_throw

/-- The 180x encoder asks for the sync id and for the last record, the others stop at the first
    answer that is enough. -/
theorem Agree.ends_sim {α : Type} {P : α → Prop} (agree : Agree k magic cmdbuf cmdbuf' sz offs)
    (member : off ∈ offs) {yes no : M α} {yes' no' : A α}
    (first : Simulates (Via φ) P yes yes') (second : Simulates (Via φ) P no no') :
    Simulates (Via φ) P
      (do
        let syncId ← descSyncId k cmdbuf off
        let isLast ← isLastDesc k cmdbuf sz off
        if syncId = 0xFFFF ∨ isLast = true then yes else no)
      (do
        if (← Asserting.endsSegment k magic cmdbuf' sz off) = true then yes' else no') := by
  intro s t a s' related runs
  obtain ⟨syncId, s₁, runsSync, runsRest⟩ := bind_ok runs
  obtain ⟨isLast, s₂, runsLast, runsEnd⟩ := bind_ok runsRest
  obtain ⟨t₁, syncRuns, related₁, -⟩ := agree.descSyncId_sim member s t syncId s₁ related runsSync
  obtain ⟨t₂, lastRuns, related₂, -⟩ :=
    agree.isLastDesc_sim member s₁ t₁ isLast s₂ related₁ runsLast
  have log : s₂.dmabuf = s₁.dmabuf := by
    rw [isLastDesc_apply] at runsLast
    split at runsLast
    · obtain ⟨-, rfl⟩ := EStateM.Result.ok.inj runsLast
      exact push_dmabuf
    · simp at runsLast
  by_cases sync : syncId = 0xFFFF
  · have ends : Asserting.endsSegment k magic cmdbuf' sz off t = .ok true t₁ := by
      rw [Asserting.endsSegment, bind_eq_of_ok syncRuns, if_pos sync]
      rfl
    rw [if_pos (Or.inl sync)] at runsEnd
    rw [bind_eq_of_ok ends, if_pos rfl]
    exact first s₂ t₁ a s' (by rw [Via, log]; exact related₁) runsEnd
  · have ends : Asserting.endsSegment k magic cmdbuf' sz off t = .ok isLast t₂ := by
      rw [Asserting.endsSegment, bind_eq_of_ok syncRuns, if_neg sync, lastRuns]
    rw [bind_eq_of_ok ends]
    by_cases last : isLast = true
    · rw [if_pos (Or.inr last)] at runsEnd
      rw [if_pos last]
      exact first s₂ t₂ a s' related₂ runsEnd
    · rw [if_neg (not_or.mpr ⟨sync, last⟩)] at runsEnd
      rw [if_neg last]
      exact second s₂ t₂ a s' related₂ runsEnd

/-- The loops over the records. -/
theorem Agree.walk_sim {σ : Type} (agree : Agree k magic cmdbuf cmdbuf' sz offs)
    {body : Nat → σ → M σ} {body' : Nat → σ → A σ}
    (round : ∀ off ∈ offs, ∀ st, Simulates (Via φ) (fun _ => True) (body off st) (body' off st))
    (fuel : Nat) (desc : Option Nat) (st : σ) (member : ∀ p, desc = some p → p ∈ offs) :
    Simulates (Via φ) (fun _ => True) (walk k cmdbuf sz body fuel desc st)
      (Asserting.walk k magic cmdbuf' sz body' fuel desc st) := by
  induction fuel generalizing desc st with
  | zero =>
    cases desc with
    | none => exact simulates_pure trivial
    | some off => exact simulates_throw
  | succ fuel ih =>
    cases desc with
    | none => exact simulates_pure trivial
    | some off =>
      apply (round off (member off rfl) st).bind
      intro st' _
      apply (agree.traverseNext_sim (member off rfl)).bind
      intro next inside
      exact ih next st' inside

theorem Agree.sizeBody_sim (agree : Agree k magic cmdbuf cmdbuf' sz offs) (member : off ∈ offs)
    (st : SizeState) :
    Simulates (Via φ) (fun _ => True) (sizeBody k cmdbuf sz off st)
      (Asserting.sizeBody k magic cmdbuf' sz off st) := by
  unfold sizeBody Asserting.sizeBody
  apply simulates_bind_left (via_of_push fun s => ⟨_, hdrEngine_apply⟩)
  apply simulates_bind_left (via_of_push fun s => ⟨_, touch_apply _ _⟩)
  simp only [agree.engine off member]
  apply simulates_ite
  · intro _
    exact agree.ends_sim member (simulates_pure trivial) (simulates_pure trivial)
  · intro _
    exact simulates_pure trivial

/-- Both sizes are the same. -/
theorem Agree.dmabufSize_sim (agree : Agree k magic cmdbuf cmdbuf' sz offs) :
    Simulates (Via φ) (fun _ => True) (dmabufSize k cmdbuf sz)
      (Asserting.dmabufSize k magic cmdbuf' sz) := by
  apply agree.traverseStart_sim.bind
  intro desc inside
  refine (agree.walk_sim (fun off member st => agree.sizeBody_sim member st) _ _ _ ?_).bind ?_
  · rintro p ⟨⟩
    exact inside
  · intro st _
    exact simulates_pure trivial

end

/-! ## The table -/

section

variable {k : KernelHeaders} {magic magicS : Nat} {cmdbuf cmdbuf' : Nat → UInt8} {sz off : Nat}
  {offs : List Nat} {bytes : List UInt8}

/-- A write that `φ` does not see. -/
theorem writeDma_sim {φ : (Nat → UInt8) → Nat → UInt8}
    (commutes : ∀ m, φ (writeBytes m off bytes) = writeBytes (φ m) off bytes) :
    Simulates (Via φ) (fun _ => True) (writeDma off bytes) (Asserting.store off bytes) := by
  rintro s t _ s' related ⟨⟩
  refine ⟨writeBytes t off bytes, rfl, ?_, trivial⟩
  rw [Via] at related ⊢
  rw [related, commutes]

theorem Agree.armBody_sim (agree : Agree k magic cmdbuf cmdbuf' sz offs) (member : off ∈ offs)
    (st : ArmState) :
    Simulates (Via id) (fun _ => True) (armBody k cmdbuf sz off st)
      (Asserting.armBody k magic cmdbuf' sz off st) := by
  have write (at' : Nat) (bytes : List UInt8) :
      Simulates (Via id) (fun _ => True) (writeDma at' bytes) (Asserting.store at' bytes) :=
    writeDma_sim fun _ => rfl
  unfold armBody Asserting.armBody
  apply simulates_bind_left (via_of_push fun s => ⟨_, hdrEngine_apply⟩)
  apply simulates_bind_left (via_of_push fun s => ⟨_, touch_apply _ _⟩)
  apply simulates_bind_left (via_of_push fun s => ⟨_, touch_apply _ _⟩)
  simp only [agree.engine off member]
  apply simulates_ite
  · intro _
    refine agree.ends_sim member ?_ (simulates_pure trivial)
    exact (write _ _).bind fun _ _ => (write _ _).bind fun _ _ => (write _ _).bind fun _ _ =>
      (write _ _).bind fun _ _ => (write _ _).bind fun _ _ => simulates_pure trivial
  · intro work
    have cpu : (recAt k cmdbuf off).engine = k.cpu := not_not.mp work
    apply simulates_bind_left (via_of_push fun s => ⟨_, readCmd_apply _⟩)
    rw [agree.body off member _ (Or.inr (Or.inr (Or.inr ⟨cpu, rfl⟩)))]
    exact (write _ _).bind fun _ _ => (write _ _).bind fun _ _ => (write _ _).bind fun _ _ =>
      simulates_pure trivial

/-- The memory with another `dmabuf_magic_s`. -/
def patch (magicS : Nat) (m : Nat → UInt8) : Nat → UInt8 :=
  writeBytes m 2 [UInt8.ofNat magicS, UInt8.ofNat (magicS / 256)]

theorem patch_outside {m : Nat → UInt8} {a : Nat} (outside : a < 2 ∨ 4 ≤ a) :
    patch magicS m a = m a :=
  writeBytes_outside outside

theorem patch_writeBytes {m : Nat → UInt8} (behind : 4 ≤ off) :
    patch magicS (writeBytes m off bytes) = writeBytes (patch magicS m) off bytes := by
  funext a
  by_cases inside : off ≤ a ∧ a < off + bytes.length
  · rw [patch_outside (by omega), writeBytes_inside inside.1 inside.2,
      writeBytes_inside inside.1 inside.2]
  · have outside : a < off ∨ off + bytes.length ≤ a := by omega
    rw [writeBytes_outside outside, patch, patch]
    simp only [writeBytes, if_neg inside]

theorem patch_header {m : Nat → UInt8} (size cpuNum tiuNum tdmaNum : Nat) :
    patch magicS (writeBytes m 0 (headerBytes size cpuNum tiuNum tdmaNum)) =
      writeBytes m 0 (Asserting.headerBytes magicS size cpuNum tiuNum tdmaNum) := by
  funext a
  have length : (headerBytes size cpuNum tiuNum tdmaNum).length = 128 := headerBytes_length ..
  have length' : (Asserting.headerBytes magicS size cpuNum tiuNum tdmaNum).length = 128 := by
    simp [Asserting.headerBytes]
  by_cases small : a < 128
  · rw [writeBytes_inside (Nat.zero_le a) (by omega)]
    rcases (by omega : a < 2 ∨ a = 2 ∨ a = 3 ∨ 4 ≤ a) with low | rfl | rfl | high
    · rw [patch_outside (Or.inl low), writeBytes_inside (Nat.zero_le a) (by omega)]
      rcases (by omega : a = 0 ∨ a = 1) with rfl | rfl <;> rfl
    · rw [patch, writeBytes_inside (by omega) (by simp)]
      rfl
    · rw [patch, writeBytes_inside (by omega) (by simp)]
      rfl
    · obtain ⟨b, rfl⟩ := Nat.exists_eq_add_of_le' high
      rw [patch_outside (Or.inr high), writeBytes_inside (Nat.zero_le _) (by omega)]
      rfl
  · rw [patch_outside (by omega), writeBytes_outside (by omega), writeBytes_outside (by omega)]

/-- The table and the header, with the `dmabuf_magic_s` of the chip. -/
theorem Agree.fillHeaderAndArm_run (agree : Agree k magic cmdbuf cmdbuf' sz offs) (magicS : Nat)
    {s s' : Buffers} {offsets : Nat × Nat}
    (runs : fillHeaderAndArm k cmdbuf sz s = .ok offsets s') :
    Asserting.fillHeaderAndArm k magic cmdbuf' sz magicS s.dmabuf =
        .ok offsets (patch magicS s'.dmabuf) ∧ 4 ≤ offsets.1 ∧ 4 ≤ offsets.2 := by
  unfold fillHeaderAndArm at runs
  obtain ⟨desc, s₁, runsStart, runs⟩ := bind_ok runs
  obtain ⟨st, s₂, runsWalk, runs⟩ := bind_ok runs
  obtain ⟨t₁, start, related₁, inside⟩ :=
    agree.traverseStart_sim (φ := id) s s.dmabuf desc s₁ rfl runsStart
  have member : ∀ p, some desc = some p → p ∈ offs := by
    rintro p ⟨⟩
    exact inside
  obtain ⟨t₂, table, related₂, -⟩ :=
    agree.walk_sim (fun off member st => agree.armBody_sim member st) _ _ _ member
      s₁ t₁ st s₂ related₁ runsWalk
  obtain rfl : t₂ = s₂.dmabuf := related₂
  obtain ⟨rfl, rfl⟩ := EStateM.Result.ok.inj runs
  have first : 4 ≤ alignUp (sizeofDmaHdr + st.descNums.cpu * k.armBytes) k.bdcAlignedBit := by
    apply Nat.le_trans _ le_alignUp
    rw [sizeofDmaHdr]
    omega
  refine ⟨?_, first, Nat.le_trans (Nat.le_trans first (Nat.le_add_right _ _)) le_alignUp⟩
  rw [Asserting.fillHeaderAndArm, bind_eq_of_ok start, bind_eq_of_ok table]
  show EStateM.Result.ok _ _ = _
  rw [← patch_header]

end

/-! ## The slots -/

section

variable {k : KernelHeaders} {magic magicS : Nat} {cmdbuf cmdbuf' : Nat → UInt8} {sz off : Nat}
  {offs : List Nat} {bytes : List UInt8} {c : Cursor}

theorem readDma_sim (n : Nat) (behind : 4 ≤ off) :
    Simulates (Via (patch magicS)) (fun _ => True) (readDma off n) (Asserting.load off n) := by
  rintro s t _ s' related ⟨⟩
  refine ⟨t, ?_, related, trivial⟩
  have same : readBytes t off n = readBytes s.dmabuf off n := by
    rw [Via] at related
    rw [related]
    exact readBytes_congr fun i _ => patch_outside (by omega)
  rw [← same]
  rfl

theorem readDma32_sim (behind : 4 ≤ off) :
    Simulates (Via (patch magicS)) (fun _ => True) (readDma32 off) (Asserting.load32 off) := by
  rintro s t _ s' related ⟨⟩
  refine ⟨t, ?_, related, trivial⟩
  have same : read32 t off = read32 s.dmabuf off := by
    rw [Via] at related
    rw [related]
    exact read32_congr fun i _ => patch_outside (by omega)
  rw [← same]
  rfl

theorem writeDma_patch_sim (behind : 4 ≤ off) (bytes : List UInt8) :
    Simulates (Via (patch magicS)) (fun _ => True) (writeDma off bytes)
      (Asserting.store off bytes) :=
  writeDma_sim fun _ => patch_writeBytes behind

/-- The cursors are behind the magic numbers. -/
def Cursor.Behind (c : Cursor) : Prop := 4 ≤ c.tiuOffset ∧ 4 ≤ c.tdmaOffset

theorem Agree.copyDesc_sim (agree : Agree k magic cmdbuf cmdbuf' sz offs) (member : off ∈ offs)
    (tiuNum tdmaNum : Nat) (behind : c.Behind) :
    Simulates (Via (patch magicS)) (fun out => out.2.2.Behind)
      (copyDesc k cmdbuf off tiuNum tdmaNum c)
      (Asserting.copyDesc k cmdbuf' off tiuNum tdmaNum c) := by
  unfold copyDesc Asserting.copyDesc
  apply simulates_bind_left (via_of_push fun s => ⟨_, hdrEngine_apply⟩)
  simp only [agree.engine off member, agree.len off member,
    agree.body off member _ (Or.inl (Nat.le_refl _))]
  apply simulates_ite
  · intro _
    apply simulates_bind_left (via_of_push fun s => ⟨_, hdrLen_apply⟩)
    apply simulates_bind_left (via_of_push fun s => ⟨_, readCmd_apply _⟩)
    apply (writeDma_patch_sim behind.1 _).bind
    intro _ _
    apply (readDma_sim _ behind.1).bind
    intro slot _
    apply (writeDma_patch_sim behind.1 _).bind
    intro _ _
    exact simulates_pure ⟨Nat.le_trans behind.1 (Nat.le_add_right _ _), behind.2⟩
  · intro _
    apply simulates_ite
    · intro _
      have aligned : 4 ≤ alignUp c.tdmaOffset k.tdmaAlignedBit := Nat.le_trans behind.2 le_alignUp
      apply simulates_bind_left (via_of_push fun s => ⟨_, hdrLen_apply⟩)
      apply simulates_bind_left (via_of_push fun s => ⟨_, readCmd_apply _⟩)
      apply (writeDma_patch_sim aligned _).bind
      intro _ _
      apply (readDma_sim _ aligned).bind
      intro word _
      apply (writeDma_patch_sim aligned _).bind
      intro _ _
      exact simulates_pure ⟨behind.1, Nat.le_trans aligned (Nat.le_add_right _ _)⟩
    · intro _
      exact simulates_pure behind

theorem Agree.copyLoop_sim (agree : Agree k magic cmdbuf cmdbuf' sz offs) (fuel : Nat)
    (tiuNum tdmaNum : Nat) (behind : c.Behind) (member : ∀ p, c.desc = some p → p ∈ offs) :
    Simulates (Via (patch magicS)) (fun c => c.Behind ∧ ∀ p, c.desc = some p → p ∈ offs)
      (copyLoop k cmdbuf sz fuel tiuNum tdmaNum c)
      (Asserting.copyLoop k magic cmdbuf' sz fuel tiuNum tdmaNum c) := by
  induction fuel generalizing tiuNum tdmaNum c with
  | zero => exact simulates_throw
  | succ fuel ih =>
    unfold copyLoop Asserting.copyLoop
    apply simulates_ite
    · intro _
      exact simulates_pure ⟨behind, member⟩
    · intro _
      cases at' : c.desc with
      | none => exact simulates_throw
      | some off =>
        apply (agree.copyDesc_sim (member off at') tiuNum tdmaNum behind).bind
        rintro ⟨tiuNum', tdmaNum', c'⟩ behind'
        apply (agree.traverseNext_sim (member off at')).bind
        intro next inside
        exact ih tiuNum' tdmaNum' behind' inside

/-- The end of a round: the slots of the segment and the zeros behind those of the TIU. -/
theorem Agree.copySegment_sim (agree : Agree k magic cmdbuf cmdbuf' sz offs) {arm : Nat}
    (entry : 4 ≤ arm) (tiuNum tdmaNum : Nat) (behind : c.Behind)
    (member : ∀ p, c.desc = some p → p ∈ offs) :
    Simulates (Via (patch magicS)) (fun c => c.Behind ∧ ∀ p, c.desc = some p → p ∈ offs)
      (do
        let c ← copyLoop k cmdbuf sz (sz + 2) tiuNum tdmaNum c
        if (← readDma32 (arm + 4)) % 65536 ≠ 0 then
          writeDma c.tiuOffset (List.replicate bdEodPaddingBytes 0)
          return { c with tiuOffset := c.tiuOffset + bdEodPaddingBytes }
        else return c)
      (do
        let c ← Asserting.copyLoop k magic cmdbuf' sz (sz + 2) tiuNum tdmaNum c
        if (← Asserting.load32 (arm + 4)) % 65536 ≠ 0 then
          Asserting.store c.tiuOffset (List.replicate bdEodPaddingBytes 0)
          return { c with tiuOffset := c.tiuOffset + bdEodPaddingBytes }
        else return c) := by
  apply (agree.copyLoop_sim _ _ _ behind member).bind
  rintro c' ⟨behind', member'⟩
  apply (readDma32_sim (by omega)).bind
  intro _ _
  apply simulates_ite
  · intro _
    apply (writeDma_patch_sim behind'.1 _).bind
    intro _ _
    exact simulates_pure ⟨⟨Nat.le_trans behind'.1 (Nat.le_add_right _ _), behind'.2⟩, member'⟩
  · intro _
    exact simulates_pure ⟨behind', member'⟩

theorem Agree.fillSegment_sim (agree : Agree k magic cmdbuf cmdbuf' sz offs) (i : Nat)
    (behind : c.Behind) (member : ∀ p, c.desc = some p → p ∈ offs) :
    Simulates (Via (patch magicS)) (fun c => c.Behind ∧ ∀ p, c.desc = some p → p ∈ offs)
      (fillSegment k cmdbuf sz i c) (Asserting.fillSegment k magic cmdbuf' sz i c) := by
  have entry : 4 ≤ armAt k i := by
    rw [armAt, sizeofDmaHdr]
    omega
  have aligned {x bit : Nat} {c : Prop} [Decidable c] (low : 4 ≤ x) :
      4 ≤ if c then alignUp x bit else x := by
    split_ifs
    · exact Nat.le_trans low le_alignUp
    · exact low
  unfold fillSegment Asserting.fillSegment
  apply (readDma32_sim (by omega)).bind
  intro tiuNum _
  apply (readDma32_sim (by omega)).bind
  intro tdmaNum _
  -- the two offsets of the table, each written only when there are slots
  apply simulates_when (writeDma_patch_sim (by omega) _)
  apply simulates_when (writeDma_patch_sim (by omega) _)
  apply agree.copySegment_sim entry
  · exact ⟨aligned behind.1, aligned behind.2⟩
  · exact member

theorem Agree.fillLoop_sim (agree : Agree k magic cmdbuf cmdbuf' sz offs) (fuel i : Nat)
    (behind : c.Behind) (member : ∀ p, c.desc = some p → p ∈ offs) :
    Simulates (Via (patch magicS)) (fun _ => True) (fillLoop k cmdbuf sz fuel i c)
      (Asserting.fillLoop k magic cmdbuf' sz fuel i c) := by
  induction fuel generalizing i c with
  | zero => exact simulates_throw
  | succ fuel ih =>
    unfold fillLoop Asserting.fillLoop
    apply (readDma32_sim (by omega)).bind
    intro count _
    apply simulates_ite
    · intro _
      apply (agree.fillSegment_sim i behind member).bind
      rintro c' ⟨behind', member'⟩
      exact ih (i + 1) behind' member'
    · intro _
      exact simulates_pure trivial

/-- The whole buffer, with the `dmabuf_magic_s` of the chip. -/
theorem Agree.dmabufConvert_run (agree : Agree k magic cmdbuf cmdbuf' sz offs) (magicS : Nat)
    {s s' : Buffers} (runs : dmabufConvert k cmdbuf sz s = .ok () s') :
    Asserting.dmabufConvert k magic cmdbuf' sz magicS s.dmabuf =
      .ok () (patch magicS s'.dmabuf) := by
  unfold dmabufConvert at runs
  obtain ⟨offsets, s₁, runsHead, runsFill⟩ := bind_ok runs
  obtain ⟨head, tiuBehind, tdmaBehind⟩ := agree.fillHeaderAndArm_run magicS runsHead
  have fill : Simulates (Via (patch magicS)) (fun _ => True)
      (fillBdAndTdma k cmdbuf sz offsets.1 offsets.2)
      (Asserting.fillBdAndTdma k magic cmdbuf' sz offsets.1 offsets.2) := by
    apply agree.traverseStart_sim.bind
    intro desc inside
    apply agree.fillLoop_sim
    · exact ⟨tiuBehind, tdmaBehind⟩
    · rintro p ⟨⟩
      exact inside
  obtain ⟨t', matched, related, -⟩ := fill s₁ _ () s' rfl runsFill
  rw [Asserting.dmabufConvert, bind_eq_of_ok head]
  rw [Via] at related
  rw [← related]
  exact matched

end

/-! ## The three encoders -/

section

variable {k : KernelHeaders} {magic : Nat} {cmdbuf cmdbuf' : Nat → UInt8} {sz sz' off : Nat}
  {recs recs' : List Rec}

/-- Rows with the same engines and bodies have their records at the same places. -/
theorem Row.same_places (row : Row k cmdbuf sz off recs)
    (row' : Row (k.withMagic magic) cmdbuf' sz' off recs')
    (same : SameRecords k cmdbuf recs cmdbuf' recs') :
    sz' = sz ∧ recs'.map (fun r => (r.off, r.engine, r.body k cmdbuf')) =
      recs.map fun r => (r.off, r.engine, r.body k cmdbuf) := by
  induction row generalizing recs' with
  | nil =>
    obtain rfl : recs' = [] := by simpa [SameRecords] using same
    cases row' with
    | nil => exact ⟨rfl, rfl⟩
  | @cons off recs _ _ rest ih =>
    cases row' with
    | nil => simp [SameRecords] at same
    | @cons _ recs' _ _ rest' =>
      obtain ⟨head, tail⟩ := List.cons.inj same
      obtain ⟨engine, body⟩ := Prod.mk.inj head
      have len : (recAt k cmdbuf' off).len = (recAt k cmdbuf off).len := by
        have lengths := congrArg List.length body
        simp only [Rec.body, length_readBytes] at lengths
        exact lengths
      have next : (recAt (k.withMagic magic) cmdbuf' off).next (k.withMagic magic) =
          (recAt k cmdbuf off).next k := by
        show off + (recAt k cmdbuf' off).len + k.hdrBytes =
          off + (recAt k cmdbuf off).len + k.hdrBytes
        rw [len]
      rw [next] at rest'
      obtain ⟨size, places⟩ := ih rest' tail
      refine ⟨size, ?_⟩
      rw [List.map_cons, List.map_cons, places, engine, body]
      rfl

/-- A record is found at its place, has the magic number, and is followed by another one or by
    the end of the buffer. -/
theorem Row.at_place (row : Row k cmdbuf sz off recs) : ∀ r ∈ recs,
    recAt k cmdbuf r.off = r ∧ magicAt k cmdbuf r.off = k.magic180X ∧
      (r.next k < sz → r.next k ∈ recs.map Rec.off) := by
  induction row with
  | nil => simp
  | @cons off recs magic _ rest ih =>
    rw [List.forall_mem_cons]
    refine ⟨⟨rfl, magic, ?_⟩, ?_⟩
    · intro before
      cases rest with
      | nil => exact absurd before (Nat.lt_irrefl _)
      | cons => simp only [List.map_cons, List.mem_cons]; exact Or.inr (Or.inl rfl)
    · intro r member
      obtain ⟨found, magic', next⟩ := ih r member
      exact ⟨found, magic', fun before => List.mem_cons_of_mem _ (next before)⟩

/-- The records of a well-formed buffer and of its counterpart for another chip. -/
theorem WellFormed.agree (wf : WellFormed k cmdbuf sz recs)
    (wf' : WellFormed (k.withMagic magic) cmdbuf' sz recs')
    (same : SameRecords k cmdbuf recs cmdbuf' recs')
    (tdmaRegs : ∀ r ∈ recs, r.engine = k.tdma → k.tdmaRegBytes ≤ r.len) :
    Agree k magic cmdbuf cmdbuf' sz (recs.map Rec.off) := by
  obtain ⟨-, places⟩ := wf.row.same_places wf'.row same
  -- every record has a counterpart at its place
  have counterpart : ∀ r ∈ recs, recAt k cmdbuf r.off = r ∧ magicAt k cmdbuf' r.off = magic ∧
      (recAt k cmdbuf' r.off).engine = r.engine ∧
      (recAt k cmdbuf' r.off).body k cmdbuf' = r.body k cmdbuf := by
    intro r member
    have paired : (r.off, r.engine, r.body k cmdbuf) ∈
        recs'.map fun r => (r.off, r.engine, r.body k cmdbuf') := by
      rw [places]
      exact List.mem_map_of_mem member
    obtain ⟨r', member', pair⟩ := List.mem_map.mp paired
    obtain ⟨place, engine, body⟩ : r'.off = r.off ∧ r'.engine = r.engine ∧
        r'.body k cmdbuf' = r.body k cmdbuf := by simpa using pair
    obtain ⟨found', magic', -⟩ := wf'.row.at_place r' member'
    have at' : recAt k cmdbuf' r'.off = r' := found'
    rw [place] at at' magic'
    refine ⟨(wf.row.at_place r member).1, magic', ?_, ?_⟩
    · rw [at', engine]
    · rw [at', body]
  have lengths : ∀ r ∈ recs, (recAt k cmdbuf' r.off).len = r.len := by
    intro r member
    have body := congrArg List.length (counterpart r member).2.2.2
    simpa only [Rec.body, length_readBytes] using body
  refine ⟨?_, ?_, ?_, ?_, ?_, ?_⟩
  · obtain ⟨r, recs, rfl⟩ := List.exists_cons_of_ne_nil wf.nonempty
    cases wf.row
    exact List.mem_cons_self
  all_goals
    intro off member
    obtain ⟨r, inRecs, rfl⟩ := List.mem_map.mp member
    obtain ⟨found, magicThere, engine, body⟩ := counterpart r inRecs
  · rw [found]
    exact (wf.row.at_place r inRecs).2.2
  · exact magicThere
  · rw [engine, found]
  · rw [lengths r inRecs, found]
  · intro n inside
    rw [found] at inside
    have short : n ≤ r.len := by
      rcases inside with short | ⟨tiu, rfl⟩ | ⟨tdma, rfl⟩ | ⟨cpu, rfl⟩
      · exact short
      · exact Nat.le_of_eq (wf.tiuLen r inRecs tiu).symm
      · exact tdmaRegs r inRecs tdma
      · exact Nat.le_of_eq (wf.cpuLen r inRecs cpu).symm
    have whole : readBytes cmdbuf' (r.off + k.hdrBytes) r.len =
        readBytes cmdbuf (r.off + k.hdrBytes) r.len := by
      rw [Rec.body, lengths r inRecs] at body
      exact body
    rw [← readBytes_take short, whole, readBytes_take short]

/-- A buffer agrees with itself, whatever the lengths of its records. -/
theorem WellFormed.agree_self (wf : WellFormed k cmdbuf sz recs) :
    Agree k k.magic180X cmdbuf cmdbuf sz (recs.map Rec.off) := by
  refine ⟨?_, ?_, ?_, fun _ _ => rfl, fun _ _ => rfl, fun _ _ _ _ => rfl⟩
  · obtain ⟨r, recs, rfl⟩ := List.exists_cons_of_ne_nil wf.nonempty
    cases wf.row
    exact List.mem_cons_self
  all_goals
    intro off member
    obtain ⟨r, inRecs, rfl⟩ := List.mem_map.mp member
    obtain ⟨found, magic, next⟩ := wf.row.at_place r inRecs
  · rw [found]
    exact next
  · exact magic

/-- An encoder that asserts gives what the 180x encoder gives, up to `dmabuf_magic_s`. -/
theorem WellFormed.asserting_agrees (wf : WellFormed k cmdbuf sz recs)
    (wf' : WellFormed (k.withMagic magic) cmdbuf' sz' recs')
    (same : SameRecords k cmdbuf recs cmdbuf' recs')
    (tdmaRegs : ∀ r ∈ recs, r.engine = k.tdma → k.tdmaRegBytes ≤ r.len) (magicS : Nat)
    {m : Nat → UInt8} {sizes : Nat × Nat} {s₁ s₂ : Buffers}
    (sized : dmabufSize k cmdbuf sz ⟨m, []⟩ = .ok sizes s₁)
    (converts : dmabufConvert k cmdbuf sz ⟨m, []⟩ = .ok () s₂) :
    Asserting.dmabufSize k magic cmdbuf' sz' m = .ok sizes m ∧
      ∃ m', Asserting.dmabufConvert k magic cmdbuf' sz' magicS m = .ok () m' ∧
        ∀ a, a ≠ 2 → a ≠ 3 → m' a = s₂.dmabuf a := by
  obtain ⟨rfl, -⟩ := wf.row.same_places wf'.row same
  have agree := wf.agree wf' same tdmaRegs
  obtain ⟨t, matched, related, -⟩ := agree.dmabufSize_sim (φ := id) ⟨m, []⟩ m sizes s₁ rfl sized
  obtain ⟨accesses, sized'⟩ := dmabufSize_pmu wf.magic wf.met wf.small ⟨m, []⟩
  have kept : s₁.dmabuf = m := by
    rw [sized'] at sized
    obtain ⟨-, rfl⟩ := EStateM.Result.ok.inj sized
    exact push_dmabuf
  obtain rfl : t = m := related.trans kept
  refine ⟨matched, patch magicS s₂.dmabuf, agree.dmabufConvert_run magicS converts, ?_⟩
  intro a notLow notHigh
  exact patch_outside (by omega)

/-- On one list of records, each chip's buffer with its own magic number, the three encoders
    compute the same two sizes and write the same bytes except `dmabuf_magic_s`; the 180x encoder
    returns no error and no assertion of the others fails. -/
theorem encoders_agree {magic181X magic1880v2 : Nat} {cmdbuf181x cmdbuf183x : Nat → UInt8}
    {sz181x sz183x : Nat} {recs181x recs183x : List Rec}
    (wf : WellFormed k cmdbuf sz recs)
    (wf181x : WellFormed (k.withMagic magic181X) cmdbuf181x sz181x recs181x)
    (wf183x : WellFormed (k.withMagic magic1880v2) cmdbuf183x sz183x recs183x)
    (same181x : SameRecords k cmdbuf recs cmdbuf181x recs181x)
    (same183x : SameRecords k cmdbuf recs cmdbuf183x recs183x)
    (tdmaRegs : ∀ r ∈ recs, r.engine = k.tdma → k.tdmaRegBytes ≤ r.len) (m : Nat → UInt8) :
    ∃ psize pmuSize s₁ s₂ m181x m183x,
      dmabufSize k cmdbuf sz ⟨m, []⟩ = .ok (psize, pmuSize) s₁ ∧
      cvi181xDmabufSize k cmdbuf181x sz181x magic181X m = .ok (psize, pmuSize) m ∧
      cvi183xDmabufSize k cmdbuf183x sz183x magic1880v2 m = .ok (psize, pmuSize) m ∧
      dmabufConvert k cmdbuf sz ⟨m, []⟩ = .ok () s₂ ∧
      cvi181xDmabufConvert k cmdbuf181x sz181x magic181X m = .ok () m181x ∧
      cvi183xDmabufConvert k cmdbuf183x sz183x magic1880v2 m = .ok () m183x ∧
      ∀ a, a ≠ 2 → a ≠ 3 → m181x a = s₂.dmabuf a ∧ m183x a = s₂.dmabuf a := by
  obtain ⟨accesses, sized⟩ := dmabufSize_pmu wf.magic wf.met wf.small ⟨m, []⟩
  obtain ⟨s₂, converts, -⟩ := dmabufConvert_mem ⟨m, []⟩ wf.magic wf.met wf.small
  obtain ⟨sized181x, m181x, converts181x, bytes181x⟩ :=
    wf.asserting_agrees wf181x same181x tdmaRegs 0x1822 sized converts
  obtain ⟨sized183x, m183x, converts183x, bytes183x⟩ :=
    wf.asserting_agrees wf183x same183x tdmaRegs 0x1835 sized converts
  refine ⟨_, _, _, s₂, m181x, m183x, sized, sized181x, sized183x, converts, converts181x,
    converts183x, ?_⟩
  intro a notLow notHigh
  exact ⟨bytes181x a notLow notHigh, bytes183x a notLow notHigh⟩

theorem encoders_agree_mixed :
    WellFormed kernel1822 (mixed 0xA8) 476 (mixedRecords 0xA8 5) ∧
    ∃ psize pmuSize m181x m183x,
      cvi181xDmabufSize kernel1822 (mixed 0xA9) 476 0xA9 (fun _ => 0) =
        .ok (psize, pmuSize) (fun _ => 0) ∧
      cvi181xDmabufConvert kernel1822 (mixed 0xA9) 476 0xA9 (fun _ => 0) = .ok () m181x ∧
      cvi183xDmabufConvert kernel1822 (mixed 0xA7) 476 0xA7 (fun _ => 0) = .ok () m183x ∧
      ∀ a, a ≠ 2 → a ≠ 3 → m183x a = m181x a := by
  have wf181x : WellFormed (kernel1822.withMagic 0xA9) (mixed 0xA9) 476 (mixedRecords 0xA9 5) :=
    ⟨by decide, .cons (by decide) (by decide) (.cons (by decide) (by decide)
      (.cons (by decide) (by decide) (.cons (by decide) (by decide)
        (.cons (by decide) (by decide) .nil)))), by decide, by decide, by decide,
      small_of_few (by decide)⟩
  have wf183x : WellFormed (kernel1822.withMagic 0xA7) (mixed 0xA7) 476 (mixedRecords 0xA7 5) :=
    ⟨by decide, .cons (by decide) (by decide) (.cons (by decide) (by decide)
      (.cons (by decide) (by decide) (.cons (by decide) (by decide)
        (.cons (by decide) (by decide) .nil)))), by decide, by decide, by decide,
      small_of_few (by decide)⟩
  have same181x : SameRecords kernel1822 (mixed 0xA8) (mixedRecords 0xA8 5) (mixed 0xA9)
      (mixedRecords 0xA9 5) := by
    show List.map _ _ = List.map _ _
    decide
  have same183x : SameRecords kernel1822 (mixed 0xA8) (mixedRecords 0xA8 5) (mixed 0xA7)
      (mixedRecords 0xA7 5) := by
    show List.map _ _ = List.map _ _
    decide
  obtain ⟨psize, pmuSize, s₁, s₂, m181x, m183x, -, sized, -, -, converts181x, converts183x,
    bytes⟩ := encoders_agree wellFormed_mixed wf181x wf183x same181x same183x (by decide)
      (fun _ => 0)
  refine ⟨wellFormed_mixed, psize, pmuSize, m181x, m183x, sized, converts181x, converts183x, ?_⟩
  intro a notLow notHigh
  rw [(bytes a notLow notHigh).1, (bytes a notLow notHigh).2]

/-- A TDMA record of three bytes, too short for its registers, and a CPU record. -/
def shortTdma (magic : UInt8) (a : Nat) : UInt8 :=
  if a = 0 ∨ a = 11 then magic else if a = 1 then 3 else if a = 2 then 1
  else if a = 10 then 0xFF else if a = 12 then 84 else if a = 13 then 2 else 0

def shortTdmaRecords (magic : UInt8) : List Rec :=
  [recAt kernel1822 (shortTdma magic) 0, recAt kernel1822 (shortTdma magic) 11]

theorem wellFormed_shortTdma :
    WellFormed kernel1822 (shortTdma 0xA8) 103 (shortTdmaRecords 0xA8) := by
  refine ⟨by decide, ?_, by decide, by decide, by decide, small_of_few (by decide)⟩
  exact .cons (by decide) (by decide) (.cons (by decide) (by decide) .nil)

theorem wellFormed_shortTdmaOf :
    WellFormed (kernel1822.withMagic 0xFF) (shortTdma 0xFF) 103 (shortTdmaRecords 0xFF) := by
  refine ⟨by decide, ?_, by decide, by decide, by decide, small_of_few (by decide)⟩
  exact .cons (by decide) (by decide) (.cons (by decide) (by decide) .nil)

/-- Behind a TDMA body that is shorter than the registers `parse_tdma_reg` reads the next header:
    with the magic number 0xFF the record is taken for the end of a segment, with 0xA8 it is not. -/
theorem encoders_differ_shortTdma :
    WellFormed kernel1822 (shortTdma 0xA8) 103 (shortTdmaRecords 0xA8) ∧
    WellFormed (kernel1822.withMagic 0xFF) (shortTdma 0xFF) 103 (shortTdmaRecords 0xFF) ∧
    SameRecords kernel1822 (shortTdma 0xA8) (shortTdmaRecords 0xA8) (shortTdma 0xFF)
      (shortTdmaRecords 0xFF) ∧
    ∃ pmuSize s,
      dmabufSize kernel1822 (shortTdma 0xA8) 103 ⟨fun _ => 0, []⟩ = .ok (320, pmuSize) s ∧
      cvi181xDmabufSize kernel1822 (shortTdma 0xFF) 103 0xFF (fun _ => 0) =
        .ok (576, pmuSize) (fun _ => 0) := by
  refine ⟨wellFormed_shortTdma, wellFormed_shortTdmaOf, ?_, 0x101000, _, rfl, rfl⟩
  show List.map _ _ = List.map _ _
  decide

end

end CviRuntime.Dmabuf
