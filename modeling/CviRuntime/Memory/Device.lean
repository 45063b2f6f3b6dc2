import Mathlib.Algebra.Order.Ring.Nat
import CviRuntime.Lib.Heap

/-!
# Device memory and the allocation callbacks (`src/common/alloc.cpp`)

A `CVI_RT_MEM` is a handle of a block of device memory, or of a window into one. The runtime
allocates and frees through a pair of callbacks that the application may replace; other handles
are made by the device layer itself.
-/

namespace CviRuntime.Memory

/-- Which call made a handle. -/
inductive Origin where
  /-- the alloc callback of this pair; pair 0 is `cvi_def_mem_alloc` and `CVI_RT_MemFree` -/
  | callback (pair : Nat)
  /-- `CVI_RT_MemPreAlloc`, a window at an offset of the block `root` -/
  | memPreAlloc (root offset : Nat)
  | loadCmdbuf
  | loadDmabuf
  deriving Repr, DecidableEq

/-- A block or window as the device layer keeps it. `origin` is not in the code; `content` is
    what the block was filled from. -/
structure Block where
  size : Nat
  userRefCnt : Int
  origin : Origin
  content : List UInt8
  deriving Repr, DecidableEq

/-- A handle that was passed to the free callback of a pair, and what it stood for then. -/
structure Release where
  handle : Nat
  pair : Nat
  block : Option Block
  deriving Repr, DecidableEq

/-- The device memory and the installed pair of callbacks (`alloc.cpp:18-20`). `released` is not
    in the code: the calls of the free callbacks. -/
structure Device where
  heap : Heap Block
  pair : Nat
  released : List Release

namespace Device

def new : Device := ⟨.empty, 0, []⟩

/-- A handle made by `origin`. -/
def make (device : Device) (size : Nat) (origin : Origin) (content : List UInt8) : Nat × Device :=
  (device.heap.next, { device with heap := device.heap.alloc ⟨size, 0, origin, content⟩ })

/-- `cviMemAlloc` (`alloc.cpp:23-25`); `ok` says whether the callback finds memory. -/
def cviMemAlloc (device : Device) (size : Nat) (ok : Bool) : Option Nat × Device :=
  if ok then
    let (handle, device) := device.make size (.callback device.pair) []
    (some handle, device)
  else (none, device)

/-- `cviMemFree` (`alloc.cpp:27-29`). -/
def cviMemFree (device : Device) (handle : Nat) : Device :=
  { device with
    heap := device.heap.free handle
    released := device.released ++ [⟨handle, device.pair, device.heap.cell handle⟩] }

/-- `cviSetMemCallback` (`alloc.cpp:31-43`): a pair with a null callback is refused. -/
def cviSetMemCallback (device : Device) (pair : Option Nat) : Device :=
  match pair with
  | some pair => { device with pair := pair }
  | none => device

/-- `cviResetMemCallback` (`alloc.cpp:45-49`). -/
def cviResetMemCallback (device : Device) : Device := { device with pair := 0 }

/-- `CVI_RT_MemGetSize`. -/
def memGetSize (device : Device) (handle : Nat) : Nat :=
  ((device.heap.cell handle).map Block.size).getD 0

/-- The block and offset that `CVI_RT_MemGetVAddr` of a handle points to. -/
def memGetVAddr (device : Device) (handle : Nat) : Nat × Nat :=
  match (device.heap.cell handle).map Block.origin with
  | some (.memPreAlloc root offset) => (root, offset)
  | _ => (handle, 0)

/-- `CVI_RT_MemPreAlloc` (`cvi_rt_base.cpp:237-250`): a null or too small block ends the
    program. -/
def memPreAlloc (device : Device) (mem : Option Nat) (offset size : Nat) :
    Option (Nat × Device) := do
  let mem ← mem
  if size + offset ≤ device.memGetSize mem then
    let (root, shift) := device.memGetVAddr mem
    some (device.make size (.memPreAlloc root (shift + offset)) [])
  else none

/-- `CVI_RT_MemIncRef` and `CVI_RT_MemDecRef` (`cvi_device_mem.cpp:585-595`). -/
def addRef (device : Device) (handle : Nat) (change : Int) : Int × Device :=
  let device := { device with
    heap := device.heap.modify handle fun block =>
      { block with userRefCnt := block.userRefCnt + change } }
  (((device.heap.cell handle).map Block.userRefCnt).getD 0, device)

/-- Write to the mapping of a block. -/
def fill (device : Device) (handle : Nat) (content : List UInt8) : Device :=
  { device with heap := device.heap.modify handle fun block => { block with content := content } }

section make

variable {device : Device} {size : Nat} {origin : Origin} {content : List UInt8} {other : Nat}

theorem make_cell_of_ne (apart : other ≠ device.heap.next) :
    (device.make size origin content).2.heap.cell other = device.heap.cell other :=
  Heap.alloc_cell_of_ne apart

theorem memGetSize_make_of_ne (apart : other ≠ device.heap.next) :
    (device.make size origin content).2.memGetSize other = device.memGetSize other := by
  rw [memGetSize, memGetSize, make_cell_of_ne apart]

@[simp] theorem memGetSize_make :
    (device.make size origin content).2.memGetSize device.heap.next = size := by
  simp [memGetSize, make]

end make

/-- What a window is made from. -/
theorem memPreAlloc_cases {device device' : Device} {mem : Option Nat} {offset size gmem : Nat}
    (window : device.memPreAlloc mem offset size = some (gmem, device')) :
    ∃ b, mem = some b ∧ gmem = device.heap.next ∧ device' = (device.make size
      (.memPreAlloc (device.memGetVAddr b).1 ((device.memGetVAddr b).2 + offset)) []).2 := by
  obtain ⟨b, is, inside⟩ := Option.bind_eq_some_iff.mp window
  split at inside
  · cases inside
    exact ⟨b, is, rfl, rfl⟩
  · cases inside

section addRef

variable {device : Device} {handle other : Nat} {change : Int}

theorem addRef_cell_of_ne (apart : other ≠ handle) :
    (device.addRef handle change).2.heap.cell other = device.heap.cell other :=
  Heap.modify_cell_of_ne apart

theorem addRef_cell {block : Block} (found : device.heap.cell handle = some block) :
    (device.addRef handle change).2.heap.cell handle =
      some { block with userRefCnt := block.userRefCnt + change } := by
  simp only [addRef, Heap.modify_cell_self, found, Option.map_some]

theorem addRef_count {block : Block} (found : device.heap.cell handle = some block) :
    (device.addRef handle change).1 = block.userRefCnt + change := by
  simp only [addRef, Heap.modify_cell_self, found, Option.map_some, Option.getD_some]

@[simp] theorem addRef_live :
    (device.addRef handle change).2.heap.Live other ↔ device.heap.Live other :=
  Heap.live_modify

/-- Counting references does not change sizes. -/
@[simp] theorem memGetSize_addRef :
    (device.addRef handle change).2.memGetSize other = device.memGetSize other := by
  by_cases same : other = handle
  · subst same
    cases found : device.heap.cell other with
    | none => simp [memGetSize, addRef, Heap.modify_cell_self, found]
    | some block => simp [memGetSize, addRef_cell found, found]
  · rw [memGetSize, memGetSize, addRef_cell_of_ne same]

end addRef

theorem released_cviMemFree (device : Device) (handle : Nat) :
    (device.cviMemFree handle).released.map Release.handle =
      device.released.map Release.handle ++ [handle] := by
  simp [cviMemFree]

/-- Every handle a free callback got was live then, and none got there twice. -/
structure Tidy (device : Device) : Prop where
  once : (device.released.map Release.handle).Nodup
  gone : ∀ handle ∈ device.released.map Release.handle,
    handle < device.heap.next ∧ ¬ device.heap.Live handle
  held : ∀ release ∈ device.released, release.block ≠ none

/-- What a free callback got from the alloc callbacks came from that of its own pair, and so will
    what is live now while the pair stays installed. -/
structure Paired (device : Device) : Prop where
  live : ∀ handle block pair, device.heap.cell handle = some block →
    block.origin = .callback pair → pair = device.pair
  past : ∀ release ∈ device.released, ∀ block pair, release.block = some block →
    block.origin = .callback pair → pair = release.pair

/-- What the library does to the device while the callbacks stay: it frees live handles only. -/
inductive Steps (device : Device) : Device → Prop where
  | refl : Steps device device
  | make {device' : Device} (steps : Steps device device') (size : Nat) (origin : Origin)
      (content : List UInt8) (own : ∀ pair, origin = .callback pair → pair = device'.pair) :
      Steps device (device'.make size origin content).2
  | fill {device' : Device} (steps : Steps device device') (handle : Nat)
      (content : List UInt8) : Steps device (device'.fill handle content)
  | addRef {device' : Device} (steps : Steps device device') (handle : Nat) (change : Int) :
      Steps device (device'.addRef handle change).2
  | free {device' : Device} (steps : Steps device device') {handle : Nat}
      (live : device'.heap.Live handle) : Steps device (device'.cviMemFree handle)

/-- `device'` comes from `device` by steps that make blocks and free only those; the ones in
    `kept` are left. -/
structure Grows (device device' : Device) (kept : List Nat) : Prop where
  cells : ∀ handle < device.heap.next, device'.heap.cell handle = device.heap.cell handle
  next : device.heap.next ≤ device'.heap.next
  live : ∀ handle, device.heap.next ≤ handle → (device'.heap.Live handle ↔ handle ∈ kept)
  steps : Steps device device'

section tidy

variable {device device' : Device} {handle : Nat} {kept : List Nat}

theorem Tidy.new : Device.new.Tidy :=
  ⟨by simp [Device.new], by simp [Device.new], by simp [Device.new]⟩

theorem Tidy.make (tidy : device.Tidy) (size : Nat) (origin : Origin) (content : List UInt8) :
    (device.make size origin content).2.Tidy where
  once := tidy.once
  gone := by
    intro h released
    obtain ⟨below, dead⟩ := tidy.gone h released
    refine ⟨Nat.lt_succ_of_lt below, fun live => ?_⟩
    exact (Heap.live_alloc.mp live).elim dead below.ne
  held := tidy.held

theorem Tidy.of_live (tidy : device.Tidy) (released : device'.released = device.released)
    (next : device'.heap.next = device.heap.next)
    (live : ∀ h, device'.heap.Live h ↔ device.heap.Live h) : device'.Tidy := by
  refine ⟨released ▸ tidy.once, fun h member => ?_, released ▸ tidy.held⟩
  rw [next, live]
  exact tidy.gone h (released ▸ member)

theorem Tidy.free (tidy : device.Tidy) (live : device.heap.Live handle) :
    (device.cviMemFree handle).Tidy where
  once := by
    rw [released_cviMemFree, List.nodup_append]
    refine ⟨tidy.once, by simp, ?_⟩
    intro h released last isLast
    rw [List.mem_singleton] at isLast
    rintro rfl
    exact (tidy.gone h released).2 (isLast ▸ live)
  gone := by
    intro h member
    rw [released_cviMemFree, List.mem_append, List.mem_singleton] at member
    rcases member with released | rfl
    · obtain ⟨below, dead⟩ := tidy.gone h released
      exact ⟨below, fun alive => dead (Heap.live_free.mp alive).1⟩
    · exact ⟨live.lt_next, fun alive => (Heap.live_free.mp alive).2 rfl⟩
  held := by
    intro release member
    rcases List.mem_append.mp member with member | member
    · exact tidy.held release member
    · rw [List.mem_singleton.mp member]
      exact Option.isSome_iff_ne_none.mp live

theorem Tidy.steps (tidy : device.Tidy) (steps : Steps device device') : device'.Tidy := by
  induction steps with
  | refl => exact tidy
  | make _ size origin content _ ih => exact ih.make size origin content
  | fill _ handle content ih => exact ih.of_live rfl rfl fun _ => Heap.live_modify
  | addRef _ handle change ih => exact ih.of_live rfl rfl fun _ => addRef_live
  | free _ live ih => exact ih.free live

theorem Steps.trans {device'' : Device} (first : Steps device device')
    (second : Steps device' device'') : Steps device device'' := by
  induction second with
  | refl => exact first
  | make _ size origin content own ih => exact ih.make size origin content own
  | fill _ handle content ih => exact ih.fill handle content
  | addRef _ handle change ih => exact ih.addRef handle change
  | free _ live ih => exact ih.free live

theorem Steps.pair (steps : Steps device device') : device'.pair = device.pair := by
  induction steps with
  | refl => rfl
  | make _ _ _ _ _ ih | fill _ _ _ ih | addRef _ _ _ ih | free _ _ ih => exact ih

theorem Paired.new : Device.new.Paired :=
  ⟨by simp [Device.new], by simp [Device.new]⟩

/-- A block keeps its origin when it is changed. -/
theorem Paired.modify (paired : device.Paired) (handle : Nat) (f : Block → Block)
    (same : ∀ block, (f block).origin = block.origin) :
    Paired { device with heap := device.heap.modify handle f } where
  live := by
    intro h block pair found origin
    by_cases this : h = handle
    · subst this
      rw [Heap.modify_cell_self] at found
      obtain ⟨before, was, rfl⟩ := Option.map_eq_some_iff.mp found
      exact paired.live h before pair was (same before ▸ origin)
    · rw [Heap.modify_cell_of_ne this] at found
      exact paired.live h block pair found origin
  past := paired.past

theorem Paired.make (paired : device.Paired) {size : Nat} {origin : Origin}
    {content : List UInt8} (own : ∀ pair, origin = .callback pair → pair = device.pair) :
    (device.make size origin content).2.Paired where
  live := by
    intro h block pair found is
    by_cases this : h = device.heap.next
    · subst this
      cases Heap.alloc_cell_self.symm.trans found
      exact own pair is
    · rw [make_cell_of_ne this] at found
      exact paired.live h block pair found is
  past := paired.past

theorem Paired.free (paired : device.Paired) (handle : Nat) :
    (device.cviMemFree handle).Paired where
  live := by
    intro h block pair found is
    have other : h ≠ handle := by
      rintro rfl
      cases Heap.free_cell_self.symm.trans found
    exact paired.live h block pair ((Heap.free_cell_of_ne other).symm.trans found) is
  past := by
    intro release member block pair found is
    rcases List.mem_append.mp member with member | member
    · exact paired.past release member block pair found is
    · rw [List.mem_singleton.mp member] at found ⊢
      exact paired.live handle block pair found is

theorem Paired.steps (paired : device.Paired) (steps : Steps device device') :
    device'.Paired := by
  induction steps with
  | refl => exact paired
  | make _ size origin content own ih => exact ih.make own
  | fill _ handle content ih => exact ih.modify handle _ fun _ => rfl
  | addRef _ handle change ih => exact ih.modify handle _ fun _ => rfl
  | free _ live ih => exact ih.free _

theorem Grows.refl (device : Device) : Grows device device [] where
  cells := fun _ _ => rfl
  next := Nat.le_refl _
  live := by
    intro h above
    simp only [List.not_mem_nil, iff_false]
    exact fun live => Nat.not_lt.mpr above live.lt_next
  steps := .refl

theorem Grows.make (grows : Grows device device' kept) (size : Nat) (origin : Origin)
    (content : List UInt8) (own : ∀ pair, origin = .callback pair → pair = device'.pair) :
    Grows device (device'.make size origin content).2 (device'.heap.next :: kept) where
  cells := by
    intro h below
    rw [make_cell_of_ne (below.trans_le grows.next).ne]
    exact grows.cells h below
  next := Nat.le_succ_of_le grows.next
  live := by
    intro h above
    rw [List.mem_cons, ← grows.live h above, or_comm]
    exact Heap.live_alloc
  steps := grows.steps.make size origin content own

theorem Grows.fill (grows : Grows device device' kept) (above : device.heap.next ≤ handle)
    (content : List UInt8) : Grows device (device'.fill handle content) kept where
  cells := by
    intro h below
    rw [Device.fill, Heap.modify_cell_of_ne (below.trans_le above).ne]
    exact grows.cells h below
  next := grows.next
  live := fun h above => Heap.live_modify.trans (grows.live h above)
  steps := grows.steps.fill handle content

theorem Grows.free (grows : Grows device device' kept) (above : device.heap.next ≤ handle)
    (member : handle ∈ kept) {rest : List Nat} (split : ∀ h, h ∈ rest ↔ h ∈ kept ∧ h ≠ handle) :
    Grows device (device'.cviMemFree handle) rest where
  cells := by
    intro h below
    rw [cviMemFree, Heap.free_cell_of_ne (below.trans_le above).ne]
    exact grows.cells h below
  next := grows.next
  live := by
    intro h new
    rw [cviMemFree, Heap.live_free, grows.live h new, split]
  steps := grows.steps.free ((grows.live handle above).mpr member)

theorem Grows.live_iff (grows : Grows device device' kept)
    (above : ∀ h ∈ kept, device.heap.next ≤ h) (h : Nat) :
    device'.heap.Live h ↔ device.heap.Live h ∨ h ∈ kept := by
  rcases Nat.lt_or_ge h device.heap.next with below | new
  · rw [Heap.Live, grows.cells h below,
      or_iff_left fun member => Nat.not_le.mpr below (above h member)]
    rfl
  · rw [grows.live h new, or_iff_right fun live => Nat.not_lt.mpr new live.lt_next]

/-- A new block holds what it was filled with. -/
theorem make_fill_cell (device : Device) (size : Nat) (origin : Origin)
    (content : List UInt8) :
    ∃ block, ((device.make size origin []).2.fill device.heap.next content).heap.cell
      device.heap.next = some block ∧ block.content = content := by
  refine ⟨⟨size, 0, origin, content⟩, ?_, rfl⟩
  rw [fill, Heap.modify_cell_self]
  simp only [make, Heap.alloc_cell_self, Option.map_some]

end tidy

end Device

end CviRuntime.Memory
