import CviRuntime.CModel.Device
import CviRuntime.Lib.Placement

/-!
# What the device memory is for: a store of separate buffers

A client of the device works with buffers that do not touch. A view is a buffer or a window into
one, and a byte of a buffer is known from the last write to it, through whatever view; of a new
buffer and of what descriptors have written nothing is known. A call that does not respect the
buffers has no meaning here: a freed view or one whose buffer is freed, a range that leaves the
view, a loaded command buffer whose header is not known to name sizes with room.
-/

namespace CviRuntime.CModel

open ByteMem Dmabuf MemPool

/-- A window into the buffer that `root` names; a buffer is the window into all of itself. -/
structure View where
  root : Nat
  offset : Nat
  size : Nat
  deriving DecidableEq, Repr

structure Store where
  views : Heap View
  /-- what is known of the bytes of a buffer -/
  bytes : Nat → Nat → Option UInt8
  root_le : ∀ {h v}, views.cell h = some v → v.root ≤ h
  inside : ∀ {h v o}, views.cell h = some v → views.cell v.root = some o →
    o.root = v.root ∧ o.offset = 0 ∧ v.offset + v.size ≤ o.size

/-- The header, the segment table and what its entries name for an engine lie in `size` bytes. -/
def Engine.SegmentsInside (k : KernelHeaders) (engine : Engine) (m : Nat → UInt8) (size : Nat) :
    Prop :=
  12 ≤ size ∧ ∀ i < read32 m 8, armAt k i + 20 ≤ size ∧
    (engine.slots k m i).2.1 + (engine.slots k m i).1 * (engine.slots k m i).2.2 ≤ size

instance (k : KernelHeaders) (engine : Engine) (m : Nat → UInt8) (size : Nat) :
    Decidable (engine.SegmentsInside k m size) := by
  unfold Engine.SegmentsInside
  infer_instance

namespace Store

def empty : Store where
  views := Heap.empty
  bytes := fun _ _ => none
  root_le := by simp
  inside := by simp

/-- The view `h`, when its buffer is still there. -/
def find (st : Store) (h : Nat) : Option View :=
  (st.views.cell h).filter fun v => (st.views.cell v.root).isSome

/-- The size of a buffer, if `r` is one. -/
def size (st : Store) (r : Nat) : Option Nat :=
  ((st.views.cell r).filter fun v => v.root = r).map View.size

section

variable {st st' : Store} {h r n : Nat} {v o : View}

theorem find_eq_some : st.find h = some v ↔
    st.views.cell h = some v ∧ ∃ o, st.views.cell v.root = some o := by
  rw [find, Option.filter_eq_some_iff, Option.isSome_iff_exists]

theorem size_eq_some : st.size r = some n ↔
    ∃ v, st.views.cell r = some v ∧ v.root = r ∧ v.size = n := by
  simp only [size, Option.map_eq_some_iff, Option.filter_eq_some_iff, decide_eq_true_eq, and_assoc]

/-- A view that can be used lies in its buffer. -/
theorem find_inside (found : st.find h = some v) :
    ∃ n, st.size v.root = some n ∧ v.offset + v.size ≤ n := by
  obtain ⟨cell, o, root⟩ := find_eq_some.mp found
  obtain ⟨same, -, fits⟩ := st.inside cell root
  exact ⟨o.size, size_eq_some.mpr ⟨o, root, same, rfl⟩, fits⟩

theorem lt_next (cell : st.views.cell h = some v) : h < st.views.next :=
  Heap.Live.lt_next (Heap.live_iff.mpr ⟨v, cell⟩)

theorem root_lt_next (cell : st.views.cell h = some v) : v.root < st.views.next :=
  Nat.lt_of_le_of_lt (st.root_le cell) (lt_next cell)

end

/-! ## Making and freeing views -/

/-- A new buffer of which nothing is known. -/
def addBuffer (st : Store) (size : Nat) : Store where
  views := st.views.alloc ⟨st.views.next, 0, size⟩
  bytes := Function.update st.bytes st.views.next fun _ => none
  root_le := by
    intro h v cell
    by_cases new : h = st.views.next
    · rw [new, Heap.alloc_cell_self] at cell
      cases cell
      exact Nat.le_of_eq new.symm
    · rw [Heap.alloc_cell_of_ne new] at cell
      exact st.root_le cell
  inside := by
    intro h v o cell root
    by_cases new : h = st.views.next
    · rw [new, Heap.alloc_cell_self] at cell
      cases cell
      rw [Heap.alloc_cell_self] at root
      cases root
      simp
    · rw [Heap.alloc_cell_of_ne new] at cell
      rw [Heap.alloc_cell_of_ne (Nat.ne_of_lt (root_lt_next cell))] at root
      exact st.inside cell root

/-- A window into a view. -/
def addWindow (st : Store) {h : Nat} {v : View} (found : st.find h = some v) (offset size : Nat)
    (room : offset + size ≤ v.size) : Store where
  views := st.views.alloc ⟨v.root, v.offset + offset, size⟩
  bytes := st.bytes
  root_le := by
    intro g w cell
    by_cases new : g = st.views.next
    · rw [new, Heap.alloc_cell_self] at cell
      cases cell
      have below := root_lt_next (find_eq_some.mp found).1
      exact Nat.le_of_lt (new ▸ below)
    · rw [Heap.alloc_cell_of_ne new] at cell
      exact st.root_le cell
  inside := by
    have here := (find_eq_some.mp found).1
    intro g w o cell root
    by_cases new : g = st.views.next
    · rw [new, Heap.alloc_cell_self] at cell
      cases cell
      rw [Heap.alloc_cell_of_ne (Nat.ne_of_lt (root_lt_next here))] at root
      obtain ⟨same, start, fits⟩ := st.inside here root
      exact ⟨same, start, by simp only; omega⟩
    · rw [Heap.alloc_cell_of_ne new] at cell
      rw [Heap.alloc_cell_of_ne (Nat.ne_of_lt (root_lt_next cell))] at root
      exact st.inside cell root

/-- The view is gone; if it was a buffer, its windows can no longer be used. -/
def removeView (st : Store) (h : Nat) : Store where
  views := st.views.free h
  bytes := st.bytes
  root_le := by
    intro g w cell
    by_cases gone : g = h
    · rw [gone, Heap.free_cell_self] at cell
      cases cell
    · rw [Heap.free_cell_of_ne gone] at cell
      exact st.root_le cell
  inside := by
    intro g w o cell root
    by_cases gone : g = h
    · rw [gone, Heap.free_cell_self] at cell
      cases cell
    · rw [Heap.free_cell_of_ne gone] at cell
      by_cases rootGone : w.root = h
      · rw [rootGone, Heap.free_cell_self] at root
        cases root
      · rw [Heap.free_cell_of_ne rootGone] at root
        exact st.inside cell root

/-! ## Bytes -/

/-- The bytes `[offset, offset + len)` of a view are written. -/
def write (st : Store) (v : View) (offset len : Nat) (src : Nat → UInt8) : Store :=
  { st with bytes := Placement.overwrite st.bytes v.root (v.offset + offset) len (some ∘ src) }

/-- Does the view `h` show byte `i` of the buffer `r`? -/
def covers (st : Store) (r i h : Nat) : Bool :=
  match st.find h with
  | some v => v.root = r && v.offset ≤ i && i < v.offset + v.size
  | none => false

/-- Nothing more is known of what these views show. -/
def forget (st : Store) (hs : List Nat) : Store :=
  { st with bytes := fun r i => if hs.any (st.covers r i) then none else st.bytes r i }

/-- Descriptors have written through these views, all of which can be used. -/
def ran (st : Store) (hs : List Nat) : Option Store :=
  if hs.all fun h => (st.find h).isSome then some (st.forget hs) else none

/-- The word at `off` of a view, when it is known. -/
def word (st : Store) (v : View) (off : Nat) : Option Nat := do
  let b0 ← st.bytes v.root (v.offset + off)
  let b1 ← st.bytes v.root (v.offset + (off + 1))
  let b2 ← st.bytes v.root (v.offset + (off + 2))
  let b3 ← st.bytes v.root (v.offset + (off + 3))
  return leNat [b0, b1, b2, b3]

/-! ## The calls -/

/-- A buffer of this size: more than nothing, and a size that can be rounded up. -/
def alloc (st : Store) (size : Nat) : Option Store :=
  if 0 < size ∧ size + 15 + (minSlotSize - 1) < 2 ^ 64 then some (st.addBuffer size) else none

def window (st : Store) (h offset size : Nat) : Option Store :=
  match found : st.find h with
  | some v => if room : offset + size ≤ v.size then some (st.addWindow found offset size room)
    else none
  | none => none

def free (st : Store) (h : Nat) : Option Store :=
  (st.views.cell h).map fun _ => st.removeView h

def put (st : Store) (h offset len : Nat) (src : Nat → UInt8) : Option Store := do
  let v ← st.find h
  if offset + len ≤ v.size then return st.write v offset len src else none

/-- A whole view is written. -/
def fill (st : Store) (h : Nat) (src : Nat → UInt8) : Option Store := do
  let v ← st.find h
  return st.write v 0 v.size src

/-- What a call leaves of its events: the command area and the descriptors that run are not
    buffers. -/
def perform (st : Store) : Event → Option Store
  | .alloc size => st.alloc (sizeT size)
  | .writeGmem none bytes _ => st.fill (st.views.next - 1) bytes
  | _ => some st

variable (k : KernelHeaders) (regs : RegFields) (c : CModelCmdbuf)

def load (st : Store) (fresh cmdbuf : Nat → UInt8) (sz : Nat) (neuronGaddr weightGaddr : UInt64)
    (enablePmu : Bool) (fuel : Nat) : Option Store := do
  let r ← rtLoadCmdbuf k regs c fresh cmdbuf sz neuronGaddr weightGaddr enablePmu fuel
  r.trace.foldlM perform st

/-- The bytes of a view, zero where they are not known. -/
def shown (st : Store) (v : View) : Nat → UInt8 := fun i =>
  (st.bytes v.root (v.offset + i)).getD 0

/-- All of an encoded buffer is known, and its segments lie inside. -/
def loadEncoded (st : Store) (fresh : Nat → UInt8) (h sz : Nat) (neuronGaddr weightGaddr : UInt64)
    (enablePmu : Bool) : Option Store := do
  let v ← st.find h
  if (∀ i < v.size, (st.bytes v.root (v.offset + i)).isSome) ∧
      Engine.tiu.SegmentsInside k (st.shown v) v.size ∧
      Engine.tdma.SegmentsInside k (st.shown v) v.size then
    (rtLoadDmabuf k c fresh (st.shown v) sz neuronGaddr weightGaddr enablePmu).trace.foldlM
      perform st
  else none

/-- The header of a loaded buffer is known, and its descriptors have room where they run. -/
def run (st : Store) (h : Nat) (writes : List Nat) : Option Store := do
  let v ← st.find h
  let tiuSz ← st.word v 16
  let tdmaSz ← st.word v 20
  if tiuSz ≤ c.tiuCmdbufReservedSize.toNat ∧ tdmaSz ≤ c.tdmaCmdbufReservedSize.toNat ∧
      sizeofCmdbufHeader + tiuSz + tdmaSz ≤ v.size then
    st.ran writes
  else none

def step (st : Store) : DeviceOp → Option Store
  | .memAlloc size => st.alloc size
  | .memPreAlloc mem offset size => st.window mem offset size
  | .memFree mem => st.free mem
  | .memCopyS2D dst src => st.fill dst src
  | .memCopyS2DEx dst offset len src => st.put dst offset len src
  | .memWriteVAddr dst offset len src => st.put dst offset len src
  | .setBaseReg _ _ => some st
  | .loadCmdbuf fresh cmdbuf sz neuronGaddr weightGaddr enablePmu fuel =>
      st.load k regs c fresh cmdbuf sz neuronGaddr weightGaddr enablePmu fuel
  | .loadDmabuf fresh dmabuf sz neuronGaddr weightGaddr enablePmu =>
      st.loadEncoded k c fresh dmabuf sz neuronGaddr weightGaddr enablePmu
  | .runCmdbuf _ mem writes => st.run c mem writes
  | .submit _ _ _ _ writes => st.ran writes

end Store

end CviRuntime.CModel
