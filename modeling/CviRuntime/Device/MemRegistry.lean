import CviRuntime.Lib.Heap
import CviRuntime.Lib.Run
import CviRuntime.Lib.SlotTable

/-!
# The registry of device memory (`src/soc/common/cvi_device_mem.cpp`)

Every context keeps the blocks it has allocated in `root_mem_array`, by physical
address. A slot counts as empty when its address is 0, and `mem_free_ex` finds a block
by its address alone. Blocks are numbers of a `Heap`, so that a freed block is never
mistaken for a later one.
-/

namespace CviRuntime.MemRegistry

open CviRuntime.SlotTable (overwriteFirst overwriteFirst_perm overwriteFirst_of_none
  forall_overwriteFirst)

/-- `MEMARRAY_MAX_CNT` (`bm_types.h:15`). -/
def memArrayMaxCnt : Nat := 1000

/-- The fields of `bm_memory_t` that the calls below read. -/
structure DeviceMem where
  isPrealloc : Bool
  pAddr : UInt64
  size : UInt64
  deriving DecidableEq, Repr

/-- `cvi_mem_pair` (`bm_types.h:17-20`). -/
structure MemPair where
  pAddr : UInt64
  mem : Option Nat
  deriving DecidableEq, Repr

/-- What the calls do to blocks: `mem_free` of a block that is live or not, and a read
    through the null `mem` of an empty slot. -/
inductive Event where
  | memFree (mem : Nat) (live : Bool)
  | nullMem
  deriving DecidableEq, Repr

/-- One context. `log` is not in the code: the events, latest first. -/
structure State where
  heap : Heap DeviceMem
  rootMemArray : List MemPair
  log : List Event

/-- A context fresh from `context_create` (`cvi_device_mem.cpp:647-672`). -/
def init : State where
  heap := Heap.empty
  rootMemArray := List.replicate memArrayMaxCnt ⟨0, none⟩
  log := []

/-- The block is live and not a window into another one. -/
def IsBlock (heap : Heap DeviceMem) (h : Nat) : Prop :=
  ∃ block, heap.cell h = some block ∧ block.isPrealloc = false

def isBlock (heap : Heap DeviceMem) (h : Nat) : Bool :=
  match heap.cell h with
  | none => false
  | some block => !block.isPrealloc

/-- The live blocks that were not preallocated. -/
def blocks (heap : Heap DeviceMem) : List Nat := (List.range heap.next).filter (isBlock heap)

/-- The common body of `mem_alloc_raw` and `mem_alloc_pagesize` (`cvi_device_mem.cpp:435-511`),
    for a driver that answers with the address `pAddr`: the block goes to the first slot
    whose address is 0, or to none. -/
def memAlloc (s : State) (size pAddr : UInt64) : Nat × State :=
  (s.heap.next, { s with
    heap := s.heap.alloc ⟨false, pAddr, size⟩
    rootMemArray := overwriteFirst (fun pair => pair.pAddr = 0) ⟨pAddr, some s.heap.next⟩
      s.rootMemArray })

/-- `mem_alloc_raw` (`cvi_device_mem.cpp:435-470`). -/
def memAllocRaw (s : State) (size pAddr : UInt64) : Nat × State := memAlloc s size pAddr

/-- `mem_alloc_pagesize` (`cvi_device_mem.cpp:472-511`), where `alignSize` is what `align_up`
    of the kernel headers makes of the size. -/
def memAllocPagesize (s : State) (alignSize pAddr : UInt64) : Nat × State :=
  memAlloc s alignSize pAddr

/-- `mem_prealloc_raw` (`cvi_device_mem.cpp:513-531`): an assert refuses a window that is larger
    than the block. -/
def memPreallocRaw (s : State) (mem : Nat) (offset size : UInt64) : Option (Nat × State) := do
  let block ← s.heap.cell mem
  if size + offset ≤ block.size then
    some (s.heap.next, { s with heap := s.heap.alloc ⟨true, block.pAddr + offset, size⟩ })
  else none

/-- The part of `mem_free_raw` that concerns a block (`cvi180x_device_mem.cpp:71-83`). -/
def freeBlock (s : State) (mem : Nat) (block : DeviceMem) : State :=
  { s with
    rootMemArray := overwriteFirst (fun pair => pair.pAddr = block.pAddr) ⟨0, none⟩
      s.rootMemArray
    log := .memFree mem true :: s.log }

/-- `mem_free_raw` (`cvi180x_device_mem.cpp:66-89`) of a live block or window. -/
def memFreeRaw (s : State) (mem : Nat) : Option State := do
  let block ← s.heap.cell mem
  let s := if block.isPrealloc then s else freeBlock s mem block
  some { s with heap := s.heap.free mem }

/-- `mem_free_ex` (`cvi_device_mem.cpp:534-560`), on the slots of one context. -/
def memFreeEx (s : State) (pAddr : UInt64) : State :=
  match s.rootMemArray.find? (fun pair => pair.pAddr = pAddr) with
  | none => s
  | some pair =>
    match pair.mem with
    | none => { s with log := .nullMem :: s.log }
    | some mem =>
      { heap := s.heap.free mem
        rootMemArray := overwriteFirst (fun pair => pair.pAddr = pAddr) ⟨0, none⟩ s.rootMemArray
        log := .memFree mem (isBlock s.heap mem) :: s.log }

/-- The calls on the context, with the address that the ION driver answers. -/
inductive Op where
  | memAllocRaw (size pAddr : UInt64)
  | memAllocPagesize (alignSize pAddr : UInt64)
  | memPreallocRaw (mem : Nat) (offset size : UInt64)
  | memFreeRaw (mem : Nat)
  | memFreeEx (pAddr : UInt64)
  deriving DecidableEq, Repr

/-- One call; the read through a null pointer ends the program. -/
def step (s : State) (op : Op) : Option State :=
  if .nullMem ∈ s.log then none else
  match op with
  | .memAllocRaw size pAddr => some (memAllocRaw s size pAddr).2
  | .memAllocPagesize alignSize pAddr => some (memAllocPagesize s alignSize pAddr).2
  | .memPreallocRaw mem offset size => (memPreallocRaw s mem offset size).map Prod.snd
  | .memFreeRaw mem => memFreeRaw s mem
  | .memFreeEx pAddr => some (memFreeEx s pAddr)

/-! ## The blocks of the heap -/

section Blocks

variable {heap : Heap DeviceMem} {h : Nat} {block : DeviceMem}

theorem isBlock_iff : isBlock heap h = true ↔ IsBlock heap h := by
  unfold isBlock IsBlock
  cases heap.cell h with
  | none => simp
  | some block => simp

theorem mem_blocks : h ∈ blocks heap ↔ IsBlock heap h := by
  rw [blocks, List.mem_filter, isBlock_iff, List.mem_range, and_iff_right_iff_imp]
  rintro ⟨block, here, -⟩
  exact (Heap.live_iff.mpr ⟨block, here⟩).lt_next

theorem nodup_blocks : (blocks heap).Nodup := List.nodup_range.filter _

theorem isBlock_alloc (other : h ≠ heap.next) : IsBlock (heap.alloc block) h ↔ IsBlock heap h := by
  rw [IsBlock, IsBlock, Heap.alloc_cell_of_ne other]

theorem isBlock_alloc_self :
    IsBlock (heap.alloc block) heap.next ↔ block.isPrealloc = false := by
  simp [IsBlock]

theorem not_isBlock_next : ¬ IsBlock heap heap.next := by
  rintro ⟨block, here, -⟩
  rw [heap.fresh heap.next (Nat.le_refl _)] at here
  cases here

theorem isBlock_free {k : Nat} : IsBlock (heap.free h) k ↔ IsBlock heap k ∧ k ≠ h := by
  by_cases same : k = h
  · subst same
    simp [IsBlock]
  · rw [IsBlock, IsBlock, Heap.free_cell_of_ne same]
    simp [same]

theorem blocks_alloc (owned : block.isPrealloc = false) :
    (blocks (heap.alloc block)).Perm (heap.next :: blocks heap) := by
  have fresh : heap.next ∉ blocks heap := fun member => not_isBlock_next (mem_blocks.mp member)
  rw [List.perm_ext_iff_of_nodup nodup_blocks (List.nodup_cons.mpr ⟨fresh, nodup_blocks⟩)]
  intro h
  rw [List.mem_cons, mem_blocks, mem_blocks]
  by_cases same : h = heap.next
  · simp [same, isBlock_alloc_self, owned]
  · simp [same, isBlock_alloc same]

/-- A window is no block. -/
theorem blocks_alloc_window (window : block.isPrealloc = true) :
    (blocks (heap.alloc block)).Perm (blocks heap) := by
  rw [List.perm_ext_iff_of_nodup nodup_blocks nodup_blocks]
  intro h
  rw [mem_blocks, mem_blocks]
  by_cases same : h = heap.next
  · simp [same, isBlock_alloc_self, window, not_isBlock_next]
  · simp [isBlock_alloc same]

theorem blocks_free (owned : IsBlock heap h) :
    (blocks heap).Perm (h :: blocks (heap.free h)) := by
  have gone : h ∉ blocks (heap.free h) := by
    rw [mem_blocks, isBlock_free]
    exact fun both => both.2 rfl
  rw [List.perm_ext_iff_of_nodup nodup_blocks (List.nodup_cons.mpr ⟨gone, nodup_blocks⟩)]
  intro k
  rw [List.mem_cons, mem_blocks, mem_blocks, isBlock_free]
  by_cases same : k = h
  · simp [same, owned]
  · simp [same]

theorem blocks_free_window (window : ¬ IsBlock heap h) :
    (blocks heap).Perm (blocks (heap.free h)) := by
  rw [List.perm_ext_iff_of_nodup nodup_blocks nodup_blocks]
  intro k
  rw [mem_blocks, mem_blocks, isBlock_free]
  by_cases same : k = h
  · simp [same, window]
  · simp [same]

end Blocks

/-! ## What the registry promises -/

/-- A block that was freed was live, and no null slot was read. -/
def Event.Good : Event → Prop
  | .memFree _ live => live = true
  | .nullMem => False

/-- The slots with a non-null `mem` are the live blocks, each once and with its own address. -/
structure Registered (s : State) : Prop where
  entries : (s.rootMemArray.filterMap MemPair.mem).Perm (blocks s.heap)
  own : ∀ pair ∈ s.rootMemArray, ∀ h, pair.mem = some h →
    ∃ block, s.heap.cell h = some block ∧ block.pAddr = pair.pAddr
  events : ∀ event ∈ s.log, event.Good

/-- `s'` is `s` after the block at `pAddr`, if there is one, was freed, and nothing else. -/
def FreesAt (s : State) (pAddr : UInt64) (s' : State) : Prop :=
  (∀ h block, s.heap.cell h = some block → block.isPrealloc = false → block.pAddr = pAddr →
    s'.heap = s.heap.free h ∧ s'.log = .memFree h true :: s.log) ∧
  ((∀ h block, s.heap.cell h = some block → block.isPrealloc = false → block.pAddr ≠ pAddr) →
    s' = s)

/-- What the driver and the callers promise: live blocks have different addresses and are at
    most `MEMARRAY_MAX_CNT`, and only what is live is freed or cut a window from. -/
def Assumed (s : State) : Op → Prop
  | .memAllocRaw _ pAddr | .memAllocPagesize _ pAddr =>
    (blocks s.heap).length < memArrayMaxCnt ∧
      ∀ h block, s.heap.cell h = some block → block.isPrealloc = false → block.pAddr ≠ pAddr
  | .memPreallocRaw mem _ _ => s.heap.Live mem
  | .memFreeRaw mem => s.heap.Live mem
  | .memFreeEx _ => True

/-- The call keeps away from the address that marks an empty slot: no block gets it, and
    `mem_free_ex` is not asked for it while a slot is empty. -/
def AvoidsZero (s : State) : Op → Prop
  | .memAllocRaw _ pAddr | .memAllocPagesize _ pAddr => pAddr ≠ 0
  | .memFreeEx pAddr => pAddr ≠ 0 ∨ ∀ pair ∈ s.rootMemArray, pair.pAddr ≠ 0
  | .memPreallocRaw _ _ _ | .memFreeRaw _ => True

structure Inv (s : State) : Prop where
  length : s.rootMemArray.length = memArrayMaxCnt
  registered : Registered s
  empty : ∀ pair ∈ s.rootMemArray, pair.mem = none ↔ pair.pAddr = 0
  distinct : ∀ h h' b b', s.heap.cell h = some b → s.heap.cell h' = some b' →
    b.isPrealloc = false → b'.isPrealloc = false → b.pAddr = b'.pAddr → h = h'

theorem inv_init : Inv init where
  length := List.length_replicate
  registered := {
    entries := by
      have noBlocks : blocks init.heap = [] := rfl
      rw [noBlocks, List.perm_nil, List.filterMap_eq_nil_iff]
      intro pair member
      rw [List.eq_of_mem_replicate member]
    own := by
      intro pair member h here
      rw [List.eq_of_mem_replicate member] at here
      cases here
    events := by
      intro event member
      cases member }
  empty := by
    intro pair member
    rw [List.eq_of_mem_replicate member]
    simp
  distinct := by
    intro h h' b b' here
    cases here

section Steps

variable {s : State} {h : Nat} {block : DeviceMem}

theorem Inv.isBlock_of_mem (inv : Inv s) {pair : MemPair} (member : pair ∈ s.rootMemArray)
    (here : pair.mem = some h) : IsBlock s.heap h := by
  rw [← mem_blocks, ← inv.registered.entries.mem_iff, List.mem_filterMap]
  exact ⟨pair, member, here⟩

/-- Every block has its slot. -/
theorem Inv.slot_of_block (inv : Inv s) (here : s.heap.cell h = some block)
    (owned : block.isPrealloc = false) :
    ∃ pair ∈ s.rootMemArray, pair.mem = some h ∧ pair.pAddr = block.pAddr := by
  have member : h ∈ s.rootMemArray.filterMap MemPair.mem := by
    rw [inv.registered.entries.mem_iff, mem_blocks]
    exact ⟨block, here, owned⟩
  obtain ⟨pair, inside, recorded⟩ := List.mem_filterMap.mp member
  obtain ⟨block', here', same⟩ := inv.registered.own pair inside h recorded
  rw [here, Option.some.injEq] at here'
  exact ⟨pair, inside, recorded, here' ▸ same.symm⟩

/-- The slot that has the address of a block is the slot of that block. -/
theorem Inv.mem_of_pAddr (inv : Inv s) (here : s.heap.cell h = some block)
    (owned : block.isPrealloc = false) {pair : MemPair} (member : pair ∈ s.rootMemArray)
    (same : pair.pAddr = block.pAddr) : pair.mem = some h := by
  obtain ⟨slot, inside, recorded, address⟩ := inv.slot_of_block here owned
  have nonzero : pair.pAddr ≠ 0 := by
    rw [same, ← address, ne_eq, ← inv.empty slot inside, recorded]
    exact Option.some_ne_none h
  obtain ⟨h', recorded'⟩ := Option.ne_none_iff_exists'.mp
    (fun none => nonzero ((inv.empty pair member).mp none))
  obtain ⟨block', here', address'⟩ := inv.registered.own pair member h' recorded'
  obtain ⟨again, here'', owned'⟩ := inv.isBlock_of_mem member recorded'
  rw [here', Option.some.injEq] at here''
  have equal : h' = h := inv.distinct h' h block' block here' here (here'' ▸ owned') owned
    (address'.trans same)
  rw [recorded', equal]

/-- With fewer blocks than slots, some slot is empty. -/
theorem Inv.exists_empty (inv : Inv s) (room : (blocks s.heap).length < memArrayMaxCnt) :
    ∃ pair ∈ s.rootMemArray, pair.pAddr = 0 := by
  by_contra full
  have used : ∀ pair ∈ s.rootMemArray, pair.mem.isSome = true := by
    intro pair member
    rw [Option.isSome_iff_ne_none]
    exact fun none => full ⟨pair, member, (inv.empty pair member).mp none⟩
  have all : (s.rootMemArray.filterMap MemPair.mem).length = s.rootMemArray.length := by
    rw [List.length_filterMap_eq_countP, List.countP_eq_length]
    exact used
  rw [inv.registered.entries.length_eq, inv.length] at all
  omega

/-- A block at a new address leaves the live blocks at different addresses. -/
theorem distinct_alloc (inv : Inv s) {block : DeviceMem}
    (fresh : ∀ h b, s.heap.cell h = some b → b.isPrealloc = false → b.pAddr ≠ block.pAddr) :
    ∀ h h' b b', (s.heap.alloc block).cell h = some b → (s.heap.alloc block).cell h' = some b' →
      b.isPrealloc = false → b'.isPrealloc = false → b.pAddr = b'.pAddr → h = h' := by
  intro h h' b b' here here' owned owned' same
  -- at most one of the two is the new block
  by_cases new : h = s.heap.next <;> by_cases new' : h' = s.heap.next
  · rw [new, new']
  · subst new
    rw [Heap.alloc_cell_self, Option.some.injEq] at here
    rw [Heap.alloc_cell_of_ne new'] at here'
    rw [← here] at same
    exact absurd same.symm (fresh h' b' here' owned')
  · subst new'
    rw [Heap.alloc_cell_self, Option.some.injEq] at here'
    rw [Heap.alloc_cell_of_ne new] at here
    rw [← here'] at same
    exact absurd same (fresh h b here owned)
  · rw [Heap.alloc_cell_of_ne new] at here
    rw [Heap.alloc_cell_of_ne new'] at here'
    exact inv.distinct h h' b b' here here' owned owned' same

theorem inv_memAlloc (inv : Inv s) {size pAddr : UInt64}
    (room : (blocks s.heap).length < memArrayMaxCnt)
    (fresh : ∀ h block, s.heap.cell h = some block → block.isPrealloc = false →
      block.pAddr ≠ pAddr)
    (nonzero : pAddr ≠ 0) : Inv (memAlloc s size pAddr).2 := by
  have present : ∃ pair ∈ s.rootMemArray, decide (pair.pAddr = 0) = true := by
    simpa using inv.exists_empty room
  obtain ⟨found, rest, empty, -, perm, perm'⟩ :=
    overwriteFirst_perm (x := (⟨pAddr, some s.heap.next⟩ : MemPair)) present
  have foundMember : found ∈ s.rootMemArray := perm.mem_iff.mpr List.mem_cons_self
  have unused : found.mem = none := (inv.empty found foundMember).mpr (of_decide_eq_true empty)
  have keep : ∀ {h : Nat} {b : DeviceMem}, s.heap.cell h = some b →
      (s.heap.alloc ⟨false, pAddr, size⟩).cell h = some b := by
    intro h b here
    have below := (Heap.live_iff.mpr ⟨b, here⟩).lt_next
    rw [Heap.alloc_cell_of_ne (Nat.ne_of_lt below), here]
  refine ⟨?_, ⟨?_, ?_, inv.registered.events⟩, ?_, ?_⟩
  · exact SlotTable.length_overwriteFirst.trans inv.length
  · have before := inv.registered.entries
    rw [(perm.filterMap MemPair.mem).congr_left, List.filterMap_cons_none unused] at before
    refine (perm'.filterMap MemPair.mem).trans ?_
    show (s.heap.next :: rest.filterMap MemPair.mem).Perm _
    exact (before.cons _).trans (blocks_alloc rfl).symm
  · apply forall_overwriteFirst
    · intro h recorded
      cases recorded
      exact ⟨_, Heap.alloc_cell_self, rfl⟩
    · intro pair member h recorded
      obtain ⟨block, here, address⟩ := inv.registered.own pair member h recorded
      exact ⟨block, keep here, address⟩
  · apply forall_overwriteFirst
    · simp [nonzero]
    · exact inv.empty
  · exact distinct_alloc inv fresh

/-- A smaller heap keeps live blocks at different addresses. -/
theorem distinct_free (inv : Inv s) (freed : Nat) :
    ∀ h h' b b', (s.heap.free freed).cell h = some b → (s.heap.free freed).cell h' = some b' →
      b.isPrealloc = false → b'.isPrealloc = false → b.pAddr = b'.pAddr → h = h' := by
  have before : ∀ {h : Nat} {b : DeviceMem}, (s.heap.free freed).cell h = some b →
      s.heap.cell h = some b := by
    intro h b here
    by_cases same : h = freed
    · rw [same, Heap.free_cell_self] at here
      cases here
    · rwa [Heap.free_cell_of_ne same] at here
  intro h h' b b' here here'
  exact inv.distinct h h' b b' (before here) (before here')

/-- Clearing the slot of a block and freeing the block belong together. -/
theorem inv_clear (inv : Inv s) (here : s.heap.cell h = some block)
    (owned : block.isPrealloc = false) :
    Inv { heap := s.heap.free h
          rootMemArray := overwriteFirst (fun pair => pair.pAddr = block.pAddr) ⟨0, none⟩
            s.rootMemArray
          log := .memFree h true :: s.log } := by
  obtain ⟨slot, inside, recorded, address⟩ := inv.slot_of_block here owned
  obtain ⟨found, rest, hit, -, perm, perm'⟩ :=
    overwriteFirst_perm (p := fun pair => decide (pair.pAddr = block.pAddr))
      (x := (⟨0, none⟩ : MemPair)) ⟨slot, inside, decide_eq_true address⟩
  have foundMember : found ∈ s.rootMemArray := perm.mem_iff.mpr List.mem_cons_self
  have foundMem := inv.mem_of_pAddr here owned foundMember (of_decide_eq_true hit)
  have entries : (rest.filterMap MemPair.mem).Perm (blocks (s.heap.free h)) := by
    have before := (perm.filterMap MemPair.mem).symm.trans
      (inv.registered.entries.trans (blocks_free ⟨block, here, owned⟩))
    rw [List.filterMap_cons_some foundMem] at before
    exact before.cons_inv
  refine ⟨SlotTable.length_overwriteFirst.trans inv.length, ⟨?_, ?_, ?_⟩, ?_, distinct_free inv h⟩
  · refine (perm'.filterMap MemPair.mem).trans ?_
    rw [List.filterMap_cons_none rfl]
    exact entries
  · intro pair member k holds
    rcases List.mem_cons.mp (perm'.mem_iff.mp member) with rfl | kept
    · cases holds
    · have other : k ≠ h := by
        rintro rfl
        have still : k ∈ blocks (s.heap.free k) :=
          entries.mem_iff.mp (List.mem_filterMap.mpr ⟨pair, kept, holds⟩)
        rw [mem_blocks, isBlock_free] at still
        exact still.2 rfl
      rw [Heap.free_cell_of_ne other]
      exact inv.registered.own pair (perm.mem_iff.mpr (List.mem_cons_of_mem _ kept)) k holds
  · intro event member
    rcases List.mem_cons.mp member with rfl | earlier
    · rfl
    · exact inv.registered.events event earlier
  · apply forall_overwriteFirst
    · simp
    · exact inv.empty

/-- A window has no slot. -/
theorem inv_free_window (inv : Inv s) (here : s.heap.cell h = some block)
    (window : block.isPrealloc = true) : Inv { s with heap := s.heap.free h } := by
  have notBlock : ¬ IsBlock s.heap h := by
    rintro ⟨block', here', owned⟩
    rw [here, Option.some.injEq] at here'
    rw [here', owned] at window
    cases window
  refine ⟨inv.length, ⟨?_, ?_, inv.registered.events⟩, inv.empty, distinct_free inv h⟩
  · exact inv.registered.entries.trans (blocks_free_window notBlock)
  · intro pair member k recorded
    have other : k ≠ h := by
      rintro rfl
      exact notBlock (inv.isBlock_of_mem member recorded)
    rw [Heap.free_cell_of_ne other]
    exact inv.registered.own pair member k recorded

theorem memFreeRaw_cases {s' : State} (freed : memFreeRaw s h = some s') :
    ∃ block, s.heap.cell h = some block ∧
      ((block.isPrealloc = true ∧ s' = { s with heap := s.heap.free h }) ∨
        (block.isPrealloc = false ∧
          s' = { freeBlock s h block with heap := s.heap.free h })) := by
  obtain ⟨block, here, rest⟩ := Option.bind_eq_some_iff.mp freed
  refine ⟨block, here, ?_⟩
  cases owned : block.isPrealloc with
  | true =>
    simp only [owned, if_true, Option.some.injEq] at rest
    exact Or.inl ⟨rfl, rest.symm⟩
  | false =>
    simp only [owned, Bool.false_eq_true, if_false, Option.some.injEq] at rest
    exact Or.inr ⟨rfl, rest.symm⟩

theorem inv_memFreeRaw (inv : Inv s) {s' : State} (freed : memFreeRaw s h = some s') : Inv s' := by
  obtain ⟨block, here, ⟨window, rfl⟩ | ⟨owned, rfl⟩⟩ := memFreeRaw_cases freed
  · exact inv_free_window inv here window
  · exact inv_clear inv here owned

/-- A window leaves the registry alone. -/
theorem inv_memPreallocRaw (inv : Inv s) {mem gmem : Nat} {offset size : UInt64} {s' : State}
    (made : memPreallocRaw s mem offset size = some (gmem, s')) : Inv s' := by
  obtain ⟨base, -, rest⟩ := Option.bind_eq_some_iff.mp made
  split at rest
  · cases rest
    have keep : ∀ {h : Nat} {b : DeviceMem}, s.heap.cell h = some b →
        (s.heap.alloc ⟨true, base.pAddr + offset, size⟩).cell h = some b := by
      intro h b here
      have below := (Heap.live_iff.mpr ⟨b, here⟩).lt_next
      rw [Heap.alloc_cell_of_ne (Nat.ne_of_lt below), here]
    have before : ∀ {h : Nat} {b : DeviceMem}, b.isPrealloc = false →
        (s.heap.alloc ⟨true, base.pAddr + offset, size⟩).cell h = some b →
        s.heap.cell h = some b := by
      intro h b owned here
      by_cases new : h = s.heap.next
      · rw [new, Heap.alloc_cell_self, Option.some.injEq] at here
        rw [← here] at owned
        cases owned
      · rwa [Heap.alloc_cell_of_ne new] at here
    refine ⟨inv.length, ⟨?_, ?_, inv.registered.events⟩, inv.empty, ?_⟩
    · exact inv.registered.entries.trans (blocks_alloc_window rfl).symm
    · intro pair member h recorded
      obtain ⟨block, here, address⟩ := inv.registered.own pair member h recorded
      exact ⟨block, keep here, address⟩
    · intro h h' b b' here here' owned owned'
      exact inv.distinct h h' b b' (before owned here) (before owned' here') owned owned'
  · cases rest

/-- With the marker of empty slots out of the way, `mem_free_ex` frees the block at the
    address, or nothing. -/
theorem memFreeEx_spec (inv : Inv s) {pAddr : UInt64}
    (avoids : pAddr ≠ 0 ∨ ∀ pair ∈ s.rootMemArray, pair.pAddr ≠ 0) :
    Inv (memFreeEx s pAddr) ∧ FreesAt s pAddr (memFreeEx s pAddr) := by
  unfold memFreeEx
  split
  · rename_i missed
    have absent : ∀ h block, s.heap.cell h = some block → block.isPrealloc = false →
        block.pAddr ≠ pAddr := by
      intro h block here owned same
      obtain ⟨pair, member, -, address⟩ := inv.slot_of_block here owned
      exact List.find?_eq_none.mp missed pair member (decide_eq_true (address.trans same))
    exact ⟨inv, fun h block here owned same => absurd same (absent h block here owned),
      fun _ => rfl⟩
  · rename_i pair found
    have member := List.mem_of_find?_eq_some found
    have address : pair.pAddr = pAddr := by simpa using List.find?_some found
    have nonzero : pair.pAddr ≠ 0 := by
      rcases avoids with other | used
      · rwa [address]
      · exact used pair member
    split
    · rename_i null
      exact absurd ((inv.empty pair member).mp null) nonzero
    · rename_i mem recorded
      obtain ⟨block, here, same⟩ := inv.registered.own pair member mem recorded
      obtain ⟨block', here', owned⟩ := inv.isBlock_of_mem member recorded
      obtain rfl : block = block' := Option.some.inj (here.symm.trans here')
      have live : isBlock s.heap mem = true := isBlock_iff.mpr ⟨block, here, owned⟩
      rw [live, ← address, ← same]
      refine ⟨inv_clear inv here owned, ?_, ?_⟩
      · intro h other hereOther ownedOther sameOther
        obtain rfl : h = mem := inv.distinct h mem other block hereOther here ownedOther owned
          sameOther
        exact ⟨rfl, rfl⟩
      · intro absent
        exact absurd rfl (absent mem block here owned)

end Steps

/-- Every call that the driver and the callers stand for, and that avoids address 0, keeps the
    registry. -/
theorem inv_step (s : State) (op : Op) (s' : State) (inv : Inv s)
    (ok : Assumed s op ∧ AvoidsZero s op) (stepped : step s op = some s') : Inv s' := by
  obtain ⟨assumed, avoids⟩ := ok
  unfold step at stepped
  split at stepped
  · cases stepped
  · cases op with
    | memAllocRaw size pAddr =>
      cases stepped
      exact inv_memAlloc inv assumed.1 assumed.2 avoids
    | memAllocPagesize alignSize pAddr =>
      cases stepped
      exact inv_memAlloc inv assumed.1 assumed.2 avoids
    | memPreallocRaw mem offset size =>
      obtain ⟨⟨gmem, t⟩, made, rfl⟩ := Option.map_eq_some_iff.mp stepped
      exact inv_memPreallocRaw inv made
    | memFreeRaw mem => exact inv_memFreeRaw inv stepped
    | memFreeEx pAddr =>
      cases stepped
      exact (memFreeEx_spec inv avoids).1

/-- In every run in which no block gets address 0 and `mem_free_ex` is not asked for address 0
    while a slot is empty, the slots in use are the live blocks, only live blocks are freed,
    and `mem_free_ex` of any such address frees the block there and nothing else. -/
theorem memRegistry_exact (ops : List Op)
    (ok : Run.Admits step (fun s op => Assumed s op ∧ AvoidsZero s op) init ops) (s : State)
    (done : Run.run step init ops = some s) :
    Registered s ∧ ∀ pAddr, AvoidsZero s (.memFreeEx pAddr) →
      FreesAt s pAddr (memFreeEx s pAddr) := by
  have inv := Run.run_invariant inv_step inv_init ok done
  exact ⟨inv.registered, fun pAddr avoids => (memFreeEx_spec inv avoids).2⟩

/-- A block and a window into it, the block freed by its address. -/
theorem memRegistry_exact_block :
    ∃ s, Run.run step init [.memAllocRaw 64 4096, .memPreallocRaw 0 16 16, .memFreeEx 4096] =
        some s ∧ s.log = [.memFree 0 true] ∧ Registered s := by
  refine ⟨_, rfl, rfl, (memRegistry_exact
    [.memAllocRaw 64 4096, .memPreallocRaw 0 16 16, .memFreeEx 4096] ?_ _ rfl).1⟩
  have nonzero : (4096 : UInt64) ≠ 0 := by decide
  refine ⟨⟨⟨by decide, fun h block here => ?_⟩, nonzero⟩, ?_⟩
  · cases here
  · intro s first
    cases first
    have live : (memAllocRaw init 64 4096).2.heap.Live 0 := by decide
    refine ⟨⟨live, trivial⟩, ?_⟩
    intro s first
    cases first
    exact ⟨⟨trivial, Or.inl nonzero⟩, fun _ _ => trivial⟩

/-- On a fresh context `mem_free_ex(0)` reads through the null pointer of the first slot. -/
theorem memFreeEx_zero_reads_null :
    ∃ s, Run.run step init [.memFreeEx 0] = some s ∧ Assumed init (.memFreeEx 0) ∧
      .nullMem ∈ s.log ∧ ¬ Registered s := by
  refine ⟨{ init with log := [.nullMem] }, rfl, trivial, List.mem_cons_self, ?_⟩
  intro registered
  exact registered.events _ List.mem_cons_self

end CviRuntime.MemRegistry
