import Mathlib.Algebra.Order.Ring.Nat
import CviRuntime.Lib.Interval
import CviRuntime.Lib.Run

/-!
# The memory pool (`src/common/mmpool.cpp`)

The allocator selected by `MEM_POOL_NAIVE_PLUS` (`mmpool.h:27`, `mmpool.cpp:668-917`).
`pool_addr_t` and `pool_size_t` are `u64`; additions that could leave that range
are reduced by `u64`. `slot_avail` is the vector of free slots, edited at an
index; `slot_in_use` is the `std::map` from address to size, kept here as an
association list (`find`, `insert` and `erase` by key are all the code uses).
A failed `assert` ends the program: the operations return `none`.
-/

namespace CviRuntime.MemPool

open CviRuntime.Interval (Slot)

/-- Reduction to the range of `u64`. -/
def u64 (value : Nat) : Nat := value % 2 ^ 64

/-- `MEM_POOL_ADDR_INVALID`, i.e. `GLOBAL_MEM_ADDR_NULL` (`mmpool.h:21,29`). -/
def addrInvalid : Nat := 0xffffffffff

/-- `MEM_POOL_SLOT_NUM` (`mmpool.h:30`). -/
def slotNum : Int := 2048 * 8

/-- `BANK_SIZE` (`mmpool.h:31`). -/
def bankSize : Nat := 0x80000000

/-- `MIN_SLOT_SIZE` (`mmpool.h:64`). -/
def minSlotSize : Nat := 4 * 1024

/-- `struct pool_struct` (`mmpool.h:103-107`). -/
structure PoolStruct where
  numSlotsInUse : Int
  slotAvail : List Slot
  slotInUse : List Slot
  deriving DecidableEq, Repr

/-- `mem_pool_t` (`mmpool.h:112-148`), with the one pool of `_mem_pool_list` that is used. -/
structure Pool where
  totalSize : Nat
  pool : PoolStruct
  deriving DecidableEq, Repr

/-- `std::map::insert`: no effect when the key is present. -/
def mapInsert (entries : List Slot) (entry : Slot) : List Slot :=
  if entries.any (fun e => e.1 = entry.1) then entries else entry :: entries

/-- `std::map::find`. -/
def mapFind (entries : List Slot) (addr : Nat) : Option Nat :=
  (entries.find? (fun e => e.1 = addr)).map Prod.snd

/-- `std::map::erase` by key. -/
def mapErase (entries : List Slot) (addr : Nat) : List Slot :=
  entries.filter (fun e => e.1 ≠ addr)

/-- `mem_pool_create` and `mem_pool_init` (`mmpool.cpp:669-675,791-807`). -/
def memPoolCreate (totalSize : Nat) : Pool where
  totalSize := totalSize
  pool := { numSlotsInUse := 0, slotAvail := [(0, totalSize)], slotInUse := [] }

/-- The loop of `find_slot` (`mmpool.cpp:683-690`): `itMin` is the index of the
    smallest sufficient slot seen so far and `minSize` is
    `min_size_among_sufficient`, where 0 means none yet. -/
def findSlotLoop (size : Nat) : List Slot → Nat → Option Nat → Nat → Option Nat
  | [], _, itMin, _ => itMin
  | slot :: rest, index, itMin, minSize =>
    if size ≤ slot.2 ∧ (minSize = 0 ∨ slot.2 < minSize) then
      findSlotLoop size rest (index + 1) (some index) slot.2
    else
      findSlotLoop size rest (index + 1) itMin minSize

/-- `find_slot` (`mmpool.cpp:678-708`). -/
def findSlot (P : PoolStruct) (size : Nat) : Option (Nat × PoolStruct) :=
  if size % minSlotSize ≠ 0 then none else
  match findSlotLoop size P.slotAvail 0 none 0 with
  | none => some (addrInvalid, P)
  | some index =>
    match P.slotAvail[index]? with
    | none => none
    | some (addr, slotSize) =>
      if slotSize = 0 then some (addrInvalid, P) else
      let avail :=
        if slotSize = size then P.slotAvail.eraseIdx index
        else P.slotAvail.set index (u64 (addr + size), slotSize - size)
      some (addr, { P with slotAvail := avail, slotInUse := mapInsert P.slotInUse (addr, size) })

/-- `slot_in_bank` (`mmpool.cpp:826-830`). -/
def slotInBank (addr size : Nat) : Bool := u64 (addr % bankSize + size) ≤ bankSize

/-- `find_case` of `find_slot_in_bank`: where in the slot the block is cut. -/
inductive FindCase where
  | head
  | tail
  deriving DecidableEq, Repr

/-- The loop of `find_slot_in_bank` (`mmpool.cpp:838-852`): the first slot that is
    large enough and in which the block fits one bank at the head or at the tail. -/
def findSlotInBankLoop (size : Nat) : List Slot → Nat → Option (Nat × FindCase)
  | [], _ => none
  | slot :: rest, index =>
    if size ≤ slot.2 ∧ slotInBank slot.1 size then some (index, .head)
    else if size ≤ slot.2 ∧ slotInBank (u64 (slot.1 + slot.2 - size)) size then
      some (index, .tail)
    else findSlotInBankLoop size rest (index + 1)

/-- `find_slot_in_bank` (`mmpool.cpp:832-880`). -/
def findSlotInBank (P : PoolStruct) (size : Nat) : Option (Nat × PoolStruct) :=
  if size % minSlotSize ≠ 0 then none else
  match findSlotInBankLoop size P.slotAvail 0 with
  | none => some (addrInvalid, P)
  | some (index, findCase) =>
    match P.slotAvail[index]? with
    | none => none
    | some (slotAddr, slotSize) =>
      let addr := match findCase with
        | .head => slotAddr
        | .tail => u64 (slotAddr + slotSize - size)
      let avail :=
        if slotSize = size then P.slotAvail.eraseIdx index
        else match findCase with
          | .head => P.slotAvail.set index (u64 (slotAddr + size), slotSize - size)
          | .tail => P.slotAvail.set index (slotAddr, slotSize - size)
      some (addr, { P with slotAvail := avail, slotInUse := mapInsert P.slotInUse (addr, size) })

/-- `(size + MIN_SLOT_SIZE - 1) / MIN_SLOT_SIZE * MIN_SLOT_SIZE` in `u64`. -/
def sizeToAlloc (size : Nat) : Nat := u64 (size + minSlotSize - 1) / minSlotSize * minSlotSize

/-- The common body of `mem_pool_alloc` (`mmpool.cpp:710-743`) and
    `mem_pool_alloc_in_bank` (`mmpool.cpp:882-915`), which differ in the finder. -/
def allocWith (find : PoolStruct → Nat → Option (Nat × PoolStruct)) (pool : Pool) (size : Nat) :
    Option (Nat × Pool) :=
  if ¬ pool.pool.numSlotsInUse < slotNum then none else
  match find pool.pool (sizeToAlloc size) with
  | none => none
  | some (addr, P) =>
    if addr = addrInvalid then none
    else if pool.totalSize < u64 (addr + sizeToAlloc size) then none
    else some (addr, { pool with pool := { P with numSlotsInUse := P.numSlotsInUse + 1 } })

/-- `mem_pool_alloc` (`mmpool.cpp:710-743`). -/
def memPoolAlloc (pool : Pool) (size : Nat) : Option (Nat × Pool) := allocWith findSlot pool size

/-- `mem_pool_alloc_in_bank` (`mmpool.cpp:882-915`). -/
def memPoolAllocInBank (pool : Pool) (size : Nat) : Option (Nat × Pool) :=
  allocWith findSlotInBank pool size

/-- `offset_prev_finder` (`mmpool.h:83-91`). -/
def offsetPrevFinder (offsetPrev : Nat) (slot : Slot) : Bool := u64 (slot.1 + slot.2) = offsetPrev

/-- `offset_next_finder` (`mmpool.h:93-101`). -/
def offsetNextFinder (offsetNext : Nat) (slot : Slot) : Bool := slot.1 = offsetNext

/-- The four-way merge of `mem_pool_free` (`mmpool.cpp:757-781`). -/
def mergeSlot (avail : List Slot) (addr size : Nat) : List Slot :=
  let itPrev := avail.findIdx? (offsetPrevFinder addr)
  let itNext := avail.findIdx? (offsetNextFinder (u64 (addr + size)))
  match itPrev, itNext with
  | none, none => avail ++ [(addr, size)]
  | none, some next =>
    match avail[next]? with
    | none => avail
    | some slot => avail.set next (addr, u64 (slot.2 + size))
  | some prev, none =>
    match avail[prev]? with
    | none => avail
    | some slot => avail.set prev (slot.1, u64 (slot.2 + size))
  | some prev, some next =>
    match avail[prev]?, avail[next]? with
    | some slotPrev, some slotNext =>
      (avail.set prev (slotPrev.1, u64 (slotPrev.2 + (size + slotNext.2)))).eraseIdx next
    | _, _ => avail

/-- `mem_pool_free` (`mmpool.cpp:745-789`). -/
def memPoolFree (pool : Pool) (addrToFree : Nat) : Option Pool :=
  match mapFind pool.pool.slotInUse addrToFree with
  | none => none
  | some sizeToFree =>
    if sizeToFree % minSlotSize ≠ 0 then none else
    some { pool with pool := {
      numSlotsInUse := pool.pool.numSlotsInUse - 1
      slotAvail := mergeSlot pool.pool.slotAvail addrToFree sizeToFree
      slotInUse := mapErase pool.pool.slotInUse addrToFree } }

/-- The four asserts of `mem_pool_destroy` (`mmpool.cpp:815-818`). -/
def memPoolDestroy (pool : Pool) : Bool :=
  match pool.pool.slotAvail[0]? with
  | none => false
  | some slot =>
    slot.1 = 0 && slot.2 = pool.totalSize && pool.pool.slotInUse.isEmpty &&
      pool.pool.numSlotsInUse = 0

/-! ## Runs -/

/-- The calls a client makes on a pool. -/
inductive PoolOp where
  | alloc (size : Nat)
  | allocInBank (size : Nat)
  | free (addr : Nat)
  deriving DecidableEq, Repr

/-- A pool together with what its client knows: the address and the requested
    size of every allocation not yet freed. -/
structure Session where
  pool : Pool
  live : List (Nat × Nat)
  deriving DecidableEq, Repr

/-- One call. -/
def step (s : Session) : PoolOp → Option Session
  | .alloc size => (memPoolAlloc s.pool size).map fun (addr, pool) =>
      { pool := pool, live := (addr, size) :: s.live }
  | .allocInBank size => (memPoolAllocInBank s.pool size).map fun (addr, pool) =>
      { pool := pool, live := (addr, size) :: s.live }
  | .free addr => (memPoolFree s.pool addr).map fun pool =>
      { pool := pool, live := s.live.filter (fun entry => entry.1 ≠ addr) }

/-- A run of calls; `none` when one of them hits an assert. -/
def run (s : Session) (ops : List PoolOp) : Option Session := Run.run step s ops

/-- The client's view of a fresh pool. -/
def create (totalSize : Nat) : Session where
  pool := memPoolCreate totalSize
  live := []

/-- The request is rounded up to a positive size without leaving `u64`. -/
def PoolOp.SizeOk : PoolOp → Prop
  | .alloc size => 0 < size ∧ size + (minSlotSize - 1) < 2 ^ 64
  | .allocInBank size => 0 < size ∧ size + (minSlotSize - 1) < 2 ^ 64
  | .free _ => True

end CviRuntime.MemPool
