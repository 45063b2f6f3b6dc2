import CviRuntime.CModel.Store
import CviRuntime.MemPool.Session
import CviRuntime.MemPool.Sizes

/-!
# The device memory is a store of separate buffers

Every buffer of the store has a place in the memory of the device that stays the same for as long
as the buffer exists; a view lies at an offset from the place of its buffer. The block of the pool
behind a buffer is at least as large, so buffers lie apart and behind the command area. A call of
the device that has a meaning in the store changes the device as the store says.
-/

namespace CviRuntime.CModel

open ByteMem Dmabuf MemPool Placement CviRuntime.Interval

/-- What the addresses of a chip have to do with each other (`cvikernel`'s `tpu_cfg.h`): the
    descriptors run inside the reserved area, and the memory is not larger than half of the
    addresses. -/
structure Chip.Layout (chip : Chip) : Prop where
  tiu : chip.c.tiuCmdbufGaddr.toNat + chip.c.tiuCmdbufReservedSize.toNat ≤ chip.gmemReservedSize
  tdma : chip.c.tdmaCmdbufGaddr.toNat + chip.c.tdmaCmdbufReservedSize.toNat ≤ chip.gmemReservedSize
  gmem : chip.gmemSize.toNat < 2 ^ 63

/-- The `bm_memory_t` of a view. -/
def View.memory (place : Nat → Nat) (h : Nat) (v : View) : BmMemory where
  isPrealloc := v.root ≠ h
  pAddr := place v.root + v.offset
  vAddr := place v.root + v.offset
  size := v.size

structure Refines (chip : Chip) (place : Nat → Nat) (dev : Device) (st : Store) : Prop where
  total : dev.pool.totalSize = chip.poolSize
  pool : Inv chip.poolSize dev.pool.pool
  next : dev.mems.next = st.views.next
  mem : ∀ h, dev.mems.cell h = (st.views.cell h).map (View.memory place h)
  pos : ∀ r n, st.size r = some n → 0 < n
  block : ∀ r n, st.size r = some n → ∃ slot ∈ dev.pool.pool.slotInUse,
    place r = chip.gmemReservedSize + slot.1 ∧ n ≤ slot.2
  owned : ∀ slot ∈ dev.pool.pool.slotInUse, ∃ r n, st.size r = some n ∧
    place r = chip.gmemReservedSize + slot.1
  apart : Apart st.size place
  shown : Shows st.size place st.bytes dev.gmem

section

variable {chip : Chip} {place : Nat → Nat} {dev dev' : Device} {st st' : Store} {h r n : Nat}
  {v : View}

theorem Store.size_congr (same : st'.views = st.views) : st'.size = st.size := by
  funext r
  rw [Store.size, Store.size, same]

/-- A buffer lies between the command area and the end of the memory. -/
theorem Refines.bounds (refines : Refines chip place dev st) (live : st.size r = some n) :
    chip.gmemReservedSize ≤ place r ∧ place r + n ≤ chip.gmemSize.toNat := by
  obtain ⟨slot, used, here, fits⟩ := refines.block r n live
  have below := refines.pool.tiles.le_total (List.mem_append_right _ used)
  have pos := refines.pos r n live
  unfold Chip.poolSize at below
  omega

/-- Where a view that can be used lies. -/
theorem Refines.view_bounds (refines : Refines chip place dev st) (found : st.find h = some v) :
    dev.mems.cell h = some (v.memory place h) ∧
      chip.gmemReservedSize ≤ place v.root + v.offset ∧
      place v.root + v.offset + v.size ≤ chip.gmemSize.toNat := by
  obtain ⟨n, live, inside⟩ := Store.find_inside found
  have bounds := refines.bounds live
  refine ⟨?_, by omega, by omega⟩
  rw [refines.mem, (Store.find_eq_some.mp found).1, Option.map_some]

/-- A change of the contents only. -/
theorem Refines.contents (refines : Refines chip place dev st) (pool : dev'.pool = dev.pool)
    (mems : dev'.mems = dev.mems) (views : st'.views = st.views)
    (shown : Shows st.size place st'.bytes dev'.gmem) : Refines chip place dev' st' := by
  have sizes := Store.size_congr views
  refine ⟨by rw [pool, refines.total], by rw [pool]; exact refines.pool, ?_, ?_, ?_, ?_, ?_, ?_, ?_⟩
  · rw [mems, views, refines.next]
  · rw [mems, views]
    exact refines.mem
  · rw [sizes]
    exact refines.pos
  · rw [sizes, pool]
    exact refines.block
  · rw [sizes, pool]
    exact refines.owned
  · rw [sizes]
    exact refines.apart
  · rw [sizes]
    exact shown

/-! ## Opening the device -/

theorem refines_open {gmem : Nat → UInt8} {baseReg : Nat → UInt64}
    (opened : rtDeviceOpen chip gmem baseReg = some dev) (place : Nat → Nat) :
    Refines chip place dev Store.empty := by
  unfold rtDeviceOpen at opened
  split at opened
  · rename_i room
    cases opened
    have none_ : ∀ r n, Store.empty.size r ≠ some n := by
      intro r n live
      obtain ⟨v, cell, -⟩ := Store.size_eq_some.mp live
      cases cell
    have pos : 0 < chip.poolSize := by
      unfold Chip.poolSize
      omega
    exact {
      total := rfl
      pool := inv_create pos
      next := rfl
      mem := fun h => rfl
      pos := fun r n live => absurd live (none_ r n)
      block := fun r n live => absurd live (none_ r n)
      owned := by
        intro slot used
        cases used
      apart := fun r _ n _ _ live => absurd live (none_ r n)
      shown := fun r n _ _ live => absurd live (none_ r n) }
  · cases opened

/-! ## Making and freeing -/

/-- The new buffer is a buffer, the others stay. -/
theorem Store.size_addBuffer {size : Nat} : (st.addBuffer size).size r =
    if r = st.views.next then some size else st.size r := by
  by_cases new : r = st.views.next
  · subst new
    rw [if_pos rfl, Store.size_eq_some]
    exact ⟨_, Heap.alloc_cell_self, rfl, rfl⟩
  · rw [if_neg new, Store.size, Store.size]
    congr 2
    exact Heap.alloc_cell_of_ne new

/-- A window is no buffer. -/
theorem Store.size_addWindow (found : st.find h = some v) {offset size : Nat}
    (room : offset + size ≤ v.size) : (st.addWindow found offset size room).size = st.size := by
  funext r
  by_cases new : r = st.views.next
  · have below := Store.root_lt_next (Store.find_eq_some.mp found).1
    have fresh : st.views.cell r = none := st.views.fresh r (Nat.le_of_eq new.symm)
    rw [Store.size, Store.size, fresh, new]
    show ((((st.views.alloc _).cell st.views.next).filter _).map _ : Option Nat) = none
    rw [Heap.alloc_cell_self, Option.filter_some, if_neg (by simp only [decide_eq_true_eq]; omega)]
    rfl
  · rw [Store.size, Store.size]
    congr 2
    exact Heap.alloc_cell_of_ne new

theorem Store.size_removeView : (st.removeView h).size r = if r = h then none else st.size r := by
  by_cases gone : r = h
  · subst gone
    rw [if_pos rfl, Store.size]
    show (((st.views.free r).cell r).filter _).map _ = (none : Option Nat)
    rw [Heap.free_cell_self]
    rfl
  · rw [if_neg gone, Store.size, Store.size]
    congr 2
    exact Heap.free_cell_of_ne gone

theorem Chip.poolSize_lt (chip : Chip) : chip.poolSize < 2 ^ 64 := by
  have range := chip.gmemSize.toNat_lt
  unfold Chip.poolSize
  omega

theorem alignAxi_spec {size : Nat} (pos : 0 < size)
    (noWrap : size + 15 + (minSlotSize - 1) < 2 ^ 64) :
    0 < alignAxi size ∧ size ≤ alignAxi size ∧ alignAxi size + (minSlotSize - 1) < 2 ^ 64 := by
  unfold alignAxi
  rw [u64_of_lt (by omega)]
  omega

/-- A new place does not move the views that were there. -/
theorem View.memory_update {addr : Nat} (cell : st.views.cell h = some v) :
    v.memory (Function.update place st.views.next addr) h = v.memory place h := by
  have below := Store.root_lt_next cell
  simp only [View.memory, Function.update_of_ne (Nat.ne_of_lt below)]

/-- The views after one more was made. -/
theorem Refines.mem_alloc {place' : Nat → Nat} {views : Heap View} {mems : Heap BmMemory}
    (refines : Refines chip place dev st) {w : View} (views_ : views = st.views.alloc w)
    (mems_ : mems = dev.mems.alloc (w.memory place' st.views.next))
    (old : ∀ h v, st.views.cell h = some v → v.memory place' h = v.memory place h) (h : Nat) :
    mems.cell h = (views.cell h).map (View.memory place' h) := by
  subst views_ mems_
  by_cases new : h = st.views.next
  · subst new
    rw [Heap.alloc_cell_self, ← refines.next, Heap.alloc_cell_self, refines.next]
    rfl
  · rw [Heap.alloc_cell_of_ne new, Heap.alloc_cell_of_ne (refines.next ▸ new), refines.mem]
    cases cell : st.views.cell h with
    | none => rfl
    | some v => rw [Option.map_some, Option.map_some, old h v cell]

/-- `rt_device_alloc_raw` takes a block that no other one touches. -/
theorem Refines.allocRaw (refines : Refines chip place dev st) {size : Nat}
    (sizeOk : 0 < size ∧ size + 15 + (minSlotSize - 1) < 2 ^ 64)
    (done : rtDeviceAllocRaw chip dev size = some dev') :
    ∃ addr len pool, size ≤ len ∧ pool.totalSize = chip.poolSize ∧ Inv chip.poolSize pool.pool ∧
      pool.pool.slotInUse = (addr, len) :: dev.pool.pool.slotInUse ∧
      (∀ slot ∈ dev.pool.pool.slotInUse, Slot.Apart (addr, len) slot) ∧
      dev' = { dev with
        pool := pool
        mems := dev.mems.alloc
          ⟨false, chip.gmemReservedSize + addr, chip.gmemReservedSize + addr, size⟩ } := by
  obtain ⟨⟨addr, pool⟩, taken, result⟩ := Option.bind_eq_some_iff.mp done
  cases result
  obtain ⟨pos, large, noWrap⟩ := alignAxi_spec sizeOk.1 sizeOk.2
  obtain ⟨total, inv, inUse⟩ := allocWith_spec refines.pool
    (fun _ _ => findSlot_carve refines.pool chip.poolSize_lt) pos noWrap taken
  have rounded := (sizeToAlloc_spec pos noWrap).2
  have range := chip.gmemSize.toNat_lt
  have below := inv.tiles.le_total (List.mem_append_right _ (inUse ▸ List.mem_cons_self))
  have pairwise := (List.pairwise_append.mp inv.tiles.pairwise).2.1
  rw [inUse] at pairwise
  refine ⟨addr, _, pool, Nat.le_trans large rounded, total.trans refines.total, inv, inUse,
    fun slot used => List.rel_of_pairwise_cons pairwise used, ?_⟩
  have address : u64 (addr + chip.gmemReservedSize) = chip.gmemReservedSize + addr := by
    unfold Chip.poolSize at below
    rw [Nat.add_comm, u64_of_lt (by omega)]
  rw [address]

/-- `rt_device_alloc_raw` makes a new buffer in a block of its own. -/
theorem Refines.alloc (refines : Refines chip place dev st) {size : Nat}
    (done : rtDeviceAllocRaw chip dev size = some dev') (means : st.alloc size = some st') :
    ∃ place', Refines chip place' dev' st' ∧ dev'.gmem = dev.gmem := by
  unfold Store.alloc at means
  split at means
  · rename_i sizeOk
    cases means
    obtain ⟨addr, len, pool, large, total, inv, inUse, away, rfl⟩ := refines.allocRaw sizeOk done
    refine ⟨Function.update place st.views.next (chip.gmemReservedSize + addr), ?_, rfl⟩
    have placeNew : Function.update place st.views.next (chip.gmemReservedSize + addr)
        st.views.next = chip.gmemReservedSize + addr := Function.update_self _ _ _
    have placeOld : ∀ q, q ≠ st.views.next → Function.update place st.views.next
        (chip.gmemReservedSize + addr) q = place q := fun q old => Function.update_of_ne old _ _
    have sizeNew : (st.addBuffer size).size st.views.next = some size := by
      rw [Store.size_addBuffer, if_pos rfl]
    have sizeOld : ∀ q m, q ≠ st.views.next → (st.addBuffer size).size q = some m →
        st.size q = some m := by
      intro q m old live
      rwa [Store.size_addBuffer, if_neg old] at live
    have sizeKept : ∀ q m, st.size q = some m → q ≠ st.views.next ∧
        (st.addBuffer size).size q = some m := by
      intro q m live
      obtain ⟨v, cell, -⟩ := Store.size_eq_some.mp live
      have old := Nat.ne_of_lt (Store.lt_next cell)
      exact ⟨old, by rw [Store.size_addBuffer, if_neg old, live]⟩
    exact {
      total := total
      pool := inv
      next := congrArg Nat.succ refines.next
      mem := by
        apply refines.mem_alloc (w := ⟨st.views.next, 0, size⟩) rfl
        · simp [View.memory]
        · exact fun h v cell => View.memory_update cell
      pos := by
        intro q m live
        by_cases new : q = st.views.next
        · subst new
          rw [sizeNew] at live
          cases live
          exact sizeOk.1
        · exact refines.pos q m (sizeOld q m new live)
      block := by
        intro q m live
        by_cases new : q = st.views.next
        · subst new
          rw [sizeNew] at live
          cases live
          exact ⟨(addr, len), by simp [inUse], placeNew, large⟩
        · obtain ⟨slot, used, here, fits⟩ := refines.block q m (sizeOld q m new live)
          exact ⟨slot, by simp [inUse, used], by rw [placeOld q new, here], fits⟩
      owned := by
        intro slot used
        simp only [inUse, List.mem_cons] at used
        rcases used with rfl | old
        · exact ⟨st.views.next, size, sizeNew, placeNew⟩
        · obtain ⟨q, m, live, here⟩ := refines.owned slot old
          obtain ⟨other, kept⟩ := sizeKept q m live
          exact ⟨q, m, kept, by rw [placeOld q other, here]⟩
      apart := by
        apply refines.apart.add (r := st.views.next)
        · exact fun q m old live => ⟨sizeOld q m old live, placeOld q old⟩
        · intro q m m' live live'
          rw [sizeNew] at live'
          cases live'
          obtain ⟨slot, used, here, fits⟩ := refines.block q m live
          have apart := away slot used
          simp only [Slot.Apart] at apart
          rw [here, placeNew]
          omega
      shown := by
        apply refines.shown.mono
        intro q m i b live _ holds
        by_cases new : q = st.views.next
        · subst new
          simp [Store.addBuffer] at holds
        · refine ⟨sizeOld q m new live, ?_, by rw [placeOld q new]⟩
          simpa [Store.addBuffer, Function.update_of_ne new] using holds }
  · cases means

/-- `CVI_RT_MemPreAlloc` makes a window. -/
theorem Refines.preAlloc (refines : Refines chip place dev st) {offset size : Nat}
    (done : memPreAlloc dev h offset size = some dev')
    (means : st.window h offset size = some st') : Refines chip place dev' st' := by
  unfold Store.window at means
  split at means
  · rename_i v found
    split at means
    · rename_i room
      cases means
      obtain ⟨here, -, high⟩ := refines.view_bounds found
      have range := chip.gmemSize.toNat_lt
      have sum : u64 (size + offset) = size + offset := u64_of_lt (by omega)
      have addr : u64 (place v.root + v.offset + offset) = place v.root + v.offset + offset :=
        u64_of_lt (by omega)
      unfold memPreAlloc at done
      rw [here, Option.bind_eq_bind, Option.bind_some] at done
      simp only [View.memory, sum, addr] at done
      rw [if_neg (by omega)] at done
      cases done
      have sizes := Store.size_addWindow found room
      have notNext : v.root ≠ st.views.next :=
        Nat.ne_of_lt (Store.root_lt_next (Store.find_eq_some.mp found).1)
      exact {
        total := refines.total
        pool := refines.pool
        next := congrArg Nat.succ refines.next
        mem := by
          apply refines.mem_alloc (w := ⟨v.root, v.offset + offset, size⟩) rfl
          · simp [View.memory, notNext, Nat.add_assoc]
          · exact fun _ _ _ => rfl
        pos := by
          rw [sizes]
          exact refines.pos
        block := by
          rw [sizes]
          exact refines.block
        owned := by
          rw [sizes]
          exact refines.owned
        apart := by
          rw [sizes]
          exact refines.apart
        shown := by
          rw [sizes]
          exact refines.shown }
    · cases means
  · cases means

theorem Refines.mem_free (refines : Refines chip place dev st) (g : Nat) :
    (dev.mems.free h).cell g = ((st.removeView h).views.cell g).map (View.memory place g) := by
  by_cases gone : g = h
  · rw [gone, Heap.free_cell_self]
    show none = ((st.views.free h).cell h).map _
    rw [Heap.free_cell_self, Option.map_none]
  · rw [Heap.free_cell_of_ne gone, refines.mem]
    show _ = ((st.views.free h).cell g).map _
    rw [Heap.free_cell_of_ne gone]

/-- Two buffers are not in the same place. -/
theorem Refines.place_ne (refines : Refines chip place dev st) {r' n' : Nat} (other : r ≠ r')
    (live : st.size r = some n) (live' : st.size r' = some n') : place r ≠ place r' := by
  have pos := refines.pos r n live
  have pos' := refines.pos r' n' live'
  have apart := refines.apart other live live'
  omega

/-- Freeing a window leaves all buffers. -/
theorem Refines.freeWindow (refines : Refines chip place dev st)
    (cell : st.views.cell h = some v) (window : v.root ≠ h) :
    Refines chip place { dev with mems := dev.mems.free h } (st.removeView h) := by
  have sizes : (st.removeView h).size = st.size := by
    funext r
    rw [Store.size_removeView]
    split
    · rename_i same
      rw [same, Store.size, cell, Option.filter_some, if_neg (by simpa using window)]
      rfl
    · rfl
  exact {
    total := refines.total
    pool := refines.pool
    next := refines.next
    mem := refines.mem_free
    pos := by
      rw [sizes]
      exact refines.pos
    block := by
      rw [sizes]
      exact refines.block
    owned := by
      rw [sizes]
      exact refines.owned
    apart := by
      rw [sizes]
      exact refines.apart
    shown := by
      rw [sizes]
      exact refines.shown }

/-- Freeing a buffer gives its block back. -/
theorem Refines.freeBlock (refines : Refines chip place dev st) (live : st.size h = some n)
    {a : Nat} (here : place h = chip.gmemReservedSize + a) {pool : Pool}
    (freed : memPoolFree dev.pool a = some pool) :
    Refines chip place { dev with pool := pool, mems := dev.mems.free h } (st.removeView h) := by
  obtain ⟨total, inv, inUse, -⟩ := memPoolFree_spec refines.pool chip.poolSize_lt freed
  have old : ∀ q m, (st.removeView h).size q = some m → q ≠ h ∧ st.size q = some m := by
    intro q m liveQ
    rw [Store.size_removeView] at liveQ
    split at liveQ
    · cases liveQ
    · exact ⟨by assumption, liveQ⟩
  exact {
    total := total.trans refines.total
    pool := inv
    next := refines.next
    mem := refines.mem_free
    pos := fun q m liveQ => refines.pos q m (old q m liveQ).2
    block := by
      intro q m liveQ
      obtain ⟨other, liveQ⟩ := old q m liveQ
      obtain ⟨slot, used, there, fits⟩ := refines.block q m liveQ
      have apart := refines.place_ne other liveQ live
      refine ⟨slot, ?_, there, fits⟩
      simp only [inUse, mapErase, List.mem_filter, used, true_and, decide_eq_true_eq]
      omega
    owned := by
      intro slot used
      simp only [inUse, mapErase, List.mem_filter, decide_eq_true_eq] at used
      obtain ⟨q, m, liveQ, there⟩ := refines.owned slot used.1
      have other : q ≠ h := by
        rintro rfl
        omega
      exact ⟨q, m, by rw [Store.size_removeView, if_neg other, liveQ], there⟩
    apart := refines.apart.mono fun q m liveQ => ⟨(old q m liveQ).2, rfl⟩
    shown := refines.shown.mono fun q m i b liveQ _ holds => ⟨(old q m liveQ).2, holds, rfl⟩ }

/-- A buffer is not a window, and it begins at its place. -/
theorem Store.root_cell (cell : st.views.cell h = some v) (block : v.root = h) :
    st.size h = some v.size ∧ v.offset = 0 :=
  ⟨Store.size_eq_some.mpr ⟨v, cell, block, rfl⟩, (st.inside cell (by rwa [block])).2.1⟩

/-- The address that `rt_device_free` gives to the pool. -/
theorem Refines.free_addr (refines : Refines chip place dev st)
    (cell : st.views.cell h = some v) (block : v.root = h) :
    ∃ slot ∈ dev.pool.pool.slotInUse, place h = chip.gmemReservedSize + slot.1 ∧
      u64 ((v.memory place h).pAddr + 2 ^ 64 - chip.gmemReservedSize) = slot.1 := by
  obtain ⟨live, start⟩ := Store.root_cell cell block
  obtain ⟨slot, used, here, -⟩ := refines.block h v.size live
  have bounds := refines.bounds live
  have range := chip.gmemSize.toNat_lt
  refine ⟨slot, used, here, ?_⟩
  have sum : (v.memory place h).pAddr + 2 ^ 64 - chip.gmemReservedSize = slot.1 + 2 ^ 64 := by
    rw [View.memory, block, start]
    simp only
    omega
  rw [sum, u64, Nat.add_mod_right, Nat.mod_eq_of_lt (by omega)]

/-- `rt_device_free` -/
theorem Refines.free (refines : Refines chip place dev st)
    (done : rtDeviceFree chip dev h = some dev') (means : st.free h = some st') :
    Refines chip place dev' st' ∧ dev'.gmem = dev.gmem := by
  obtain ⟨v, cell, rfl⟩ := Option.map_eq_some_iff.mp means
  obtain ⟨mem, held, rest⟩ := Option.bind_eq_some_iff.mp done
  obtain ⟨pool, given, result⟩ := Option.bind_eq_some_iff.mp rest
  cases result
  rw [refines.mem, cell, Option.map_some] at held
  cases held
  by_cases block : v.root = h
  · obtain ⟨slot, -, here, addr⟩ := refines.free_addr cell block
    rw [addr, if_neg (by simp [View.memory, block])] at given
    exact ⟨refines.freeBlock (Store.root_cell cell block).1 here given, rfl⟩
  · rw [if_pos (by simp [View.memory, block])] at given
    cases given
    exact ⟨refines.freeWindow cell block, rfl⟩

/-! ## Writing -/

theorem writeBytes_copied {m src : Nat → UInt8} {off len i : Nat} (less : i < len) :
    writeBytes m off (readBytes src 0 len) (off + i) = src i := by
  rw [writeBytes_inside (by omega) (by rw [length_readBytes]; omega), Nat.add_sub_cancel_left]
  simp [readBytes, less]

/-- A write through a view changes what is known of the bytes that it names. -/
theorem Refines.write (refines : Refines chip place dev st) (found : st.find h = some v)
    {offset len gaddr : Nat} {src : Nat → UInt8} (room : offset + len ≤ v.size)
    (addr : gaddr = place v.root + v.offset + offset)
    (done : writeGmem chip dev gaddr len src = some dev') :
    Refines chip place dev' (st.write v offset len src) := by
  subst addr
  unfold writeGmem at done
  split at done
  · cases done
    obtain ⟨n, live, inside⟩ := Store.find_inside found
    refine refines.contents rfl rfl rfl ?_
    apply refines.shown.overwrite refines.apart live (by omega)
    · intro i b less holds
      cases holds
      have index : place v.root + (v.offset + offset + i) =
          place v.root + v.offset + offset + i := by omega
      rw [index]
      exact writeBytes_copied less
    · intro a outside
      apply writeBytes_outside
      rw [length_readBytes]
      omega
  · cases done

/-- A write to the command area changes nothing in the store. -/
theorem Refines.writeReserved (refines : Refines chip place dev st) {gaddr len : Nat}
    {src : Nat → UInt8} (low : gaddr + len ≤ chip.gmemReservedSize)
    (done : writeGmem chip dev gaddr len src = some dev') : Refines chip place dev' st := by
  unfold writeGmem at done
  split at done
  · cases done
    refine refines.contents rfl rfl rfl ?_
    apply refines.shown.mono
    intro r n i b live _ holds
    have bounds := refines.bounds live
    refine ⟨live, holds, writeBytes_outside (Or.inr ?_)⟩
    rw [length_readBytes]
    omega
  · cases done

/-! ## Reading -/

/-- A byte that is known is in the memory. -/
theorem Refines.byte (refines : Refines chip place dev st) (found : st.find h = some v) {i : Nat}
    {b : UInt8} (inside : i < v.size) (known : st.bytes v.root (v.offset + i) = some b) :
    dev.gmem (place v.root + v.offset + i) = b := by
  obtain ⟨n, live, fits⟩ := Store.find_inside found
  rw [Nat.add_assoc]
  exact refines.shown live (by omega) known

theorem Refines.word (refines : Refines chip place dev st) (found : st.find h = some v)
    {off w : Nat} (inside : off + 4 ≤ v.size) (known : st.word v off = some w) :
    read32 (fun i => dev.gmem (place v.root + v.offset + i)) off = w := by
  unfold Store.word at known
  simp only [Option.bind_eq_bind, Option.bind_eq_some_iff] at known
  obtain ⟨b0, known0, b1, known1, b2, known2, b3, known3, whole⟩ := known
  have byte0 := refines.byte found (by omega) known0
  have byte1 := refines.byte found (by omega) known1
  have byte2 := refines.byte found (by omega) known2
  have byte3 := refines.byte found (by omega) known3
  cases whole
  show leNat [dev.gmem (place v.root + v.offset + off),
    dev.gmem (place v.root + v.offset + (off + 1)), dev.gmem (place v.root + v.offset + (off + 2)),
    dev.gmem (place v.root + v.offset + (off + 3))] = _
  rw [byte0, byte1, byte2, byte3]

/-- `CVI_RT_MemCopyD2S` reads what is known. -/
theorem Refines.read (refines : Refines chip place dev st) (found : st.find h = some v) :
    ∃ bytes, memCopyD2S chip dev h = some bytes ∧ bytes.length = v.size ∧
      ∀ i b, i < v.size → st.bytes v.root (v.offset + i) = some b → bytes[i]? = some b := by
  obtain ⟨cell, -, high⟩ := refines.view_bounds found
  refine ⟨readBytes dev.gmem (place v.root + v.offset) v.size, ?_, length_readBytes, ?_⟩
  · rw [memCopyD2S, cell]
    exact if_pos high
  · intro i b inside known
    rw [← refines.byte found inside known]
    simp [readBytes, inside]

/-! ## Descriptors that run -/

/-- The memory differs behind the command area only where these `bm_memory_t`s lie. -/
def Keeps (chip : Chip) (dev : Device) (writes : List Nat) (gmem gmem' : Nat → UInt8) : Prop :=
  ∀ a, chip.gmemReservedSize ≤ a → (∀ h ∈ writes, ∀ mem, dev.mems.cell h = some mem →
    a < mem.pAddr ∨ mem.pAddr + mem.size ≤ a) → gmem' a = gmem a

/-- What the descriptors do when they write through the views that are named. -/
theorem Refines.ran (refines : Refines chip place dev st) {writes : List Nat} {tiuSz tdmaSz : Nat}
    (keeps : Keeps chip dev writes dev.gmem (launch chip dev tiuSz tdmaSz).gmem)
    (means : st.ran writes = some st') :
    Refines chip place (launch chip dev tiuSz tdmaSz) st' := by
  unfold Store.ran at means
  split at means
  · rename_i all
    cases means
    refine refines.contents rfl rfl rfl (refines.shown.mono ?_)
    intro r n i b live inside known
    simp only [Store.forget] at known
    split at known
    · cases known
    · rename_i uncovered
      refine ⟨live, known, keeps _ ?_ ?_⟩
      · have bounds := refines.bounds live
        omega
      · intro h member mem cell
        obtain ⟨v, found⟩ := Option.isSome_iff_exists.mp (List.all_eq_true.mp all h member)
        obtain ⟨cell', -, -⟩ := refines.view_bounds found
        rw [cell'] at cell
        cases cell
        obtain ⟨n', live', fits⟩ := Store.find_inside found
        have away : ¬(v.root = r ∧ v.offset ≤ i ∧ i < v.offset + v.size) := by
          rintro ⟨root, low, high⟩
          apply uncovered
          rw [List.any_eq_true]
          refine ⟨h, member, ?_⟩
          rw [Store.covers, found]
          simp [root, low, high]
        simp only [View.memory]
        by_cases same : v.root = r
        · subst same
          have outside : ¬(v.offset ≤ i ∧ i < v.offset + v.size) := fun range => away ⟨rfl, range⟩
          omega
        · have apart := refines.apart same live' live
          omega
  · cases means

end

end CviRuntime.CModel
