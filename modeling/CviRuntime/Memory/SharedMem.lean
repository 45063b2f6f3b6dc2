import CviRuntime.Lib.Run
import CviRuntime.Memory.Device

/-!
# The pool of shared memory (`src/common/shared_mem.cpp`)

The programs of all models share their scratch memory. A request takes the first block of
`gSharedMemList` that is big enough, else a new block is allocated and inserted before the first
smaller one; a block is freed when its last user has released it.
-/

namespace CviRuntime.Memory

open Run

/-- The globals of `shared_mem.cpp` and the device. -/
structure SharedMem where
  device : Device
  maxSize : Nat
  list : List Nat

namespace SharedMem

def new : SharedMem := ⟨.new, 0, []⟩

/-- `setSharedMemSize` (`shared_mem.cpp:18-24`). `~mask` is a 32-bit value, so rounding also cuts
    the size to 32 bits. -/
def setSharedMemSize (mem : SharedMem) (size : Nat) : SharedMem :=
  { mem with maxSize := max mem.maxSize ((size + 4095) % 2 ^ 64 &&& 0xFFFFF000) }

/-- The insertion loop (`shared_mem.cpp:49-56`): before the first block that is smaller. -/
def insertBefore (smaller : Nat → Bool) (handle : Nat) : List Nat → List Nat
  | [] => []
  | first :: rest =>
    if smaller first then handle :: first :: rest
    else first :: insertBefore smaller handle rest

/-- `allocateSharedMemory` (`shared_mem.cpp:26-59`). -/
def allocateSharedMemory (mem : SharedMem) (size : Nat) (ok : Bool) : Option Nat × SharedMem :=
  let size := max mem.maxSize size
  match mem.list.find? fun handle => size ≤ mem.device.memGetSize handle with
  | some handle => (some handle, { mem with device := (mem.device.addRef handle 1).2 })
  | none =>
    match mem.device.cviMemAlloc size ok with
    | (none, device) => (none, { mem with device := device })
    | (some handle, device) =>
      let device := (device.addRef handle 1).2
      (some handle, { mem with
        device := device
        list := if mem.list.isEmpty then [handle]
          else insertBefore (fun other => device.memGetSize other < size) handle mem.list })

/-- `deallocateSharedMemory` (`shared_mem.cpp:61-76`). -/
def deallocateSharedMemory (mem : SharedMem) (handle : Nat) : SharedMem :=
  if handle ∈ mem.list then
    let (count, device) := mem.device.addRef handle (-1)
    if count = 0 then
      { mem with device := device.cviMemFree handle, list := mem.list.filter (· ≠ handle) }
    else { mem with device := device }
  else { mem with device := mem.device.cviMemFree handle }

/-- Before a list of smaller blocks. -/
theorem insertBefore_of_forall {smaller : Nat → Bool} {handle first : Nat} {rest : List Nat}
    (all : ∀ other ∈ first :: rest, smaller other = true) :
    insertBefore smaller handle (first :: rest) = handle :: first :: rest := by
  rw [insertBefore, if_pos (all first List.mem_cons_self)]

/-- The device after a new block was allocated and counted. -/
def withNew (mem : SharedMem) (size : Nat) : Device :=
  ((mem.device.make size (.callback mem.device.pair) []).2.addRef mem.device.heap.next 1).2

/-- What a request can do: share a listed block, fail, or put a block bigger than all others in
    front of the list. -/
theorem allocateSharedMemory_cases {mem : SharedMem} (size : Nat) (ok : Bool)
    (live : ∀ handle ∈ mem.list, mem.device.heap.Live handle) :
    (∃ handle ∈ mem.list, mem.allocateSharedMemory size ok =
      (some handle, { mem with device := (mem.device.addRef handle 1).2 })) ∨
    mem.allocateSharedMemory size ok = (none, mem) ∨
    ∃ size', (∀ handle ∈ mem.list, mem.device.memGetSize handle < size') ∧
      mem.allocateSharedMemory size ok = (some mem.device.heap.next,
        { mem with
          device := mem.withNew size'
          list := mem.device.heap.next :: mem.list }) := by
  rw [allocateSharedMemory]
  cases search : mem.list.find? fun handle =>
      decide (max mem.maxSize size ≤ mem.device.memGetSize handle) with
  | some handle => exact .inl ⟨handle, List.mem_of_find?_eq_some search, rfl⟩
  | none =>
    have bigger : ∀ handle ∈ mem.list, mem.device.memGetSize handle < max mem.maxSize size := by
      intro handle listed
      have notFound := List.find?_eq_none.mp search handle listed
      exact Nat.lt_of_not_le fun enough => notFound (decide_eq_true enough)
    cases ok with
    | false => exact .inr (.inl (by simp [Device.cviMemAlloc]))
    | true =>
      refine .inr (.inr ⟨max mem.maxSize size, bigger, ?_⟩)
      have sameSize : ∀ handle ∈ mem.list,
          (mem.withNew (max mem.maxSize size)).memGetSize handle =
            mem.device.memGetSize handle := by
        intro handle listed
        have apart : handle ≠ mem.device.heap.next := (live handle listed).lt_next.ne
        rw [withNew, Device.memGetSize_addRef, Device.memGetSize_make_of_ne apart]
      simp only [Device.cviMemAlloc, if_true]
      congr 2
      cases whole : mem.list with
      | nil => rfl
      | cons first rest =>
        rw [List.isEmpty_cons, if_neg Bool.false_ne_true]
        refine insertBefore_of_forall fun other listed => decide_eq_true ?_
        rw [← whole] at listed
        exact (sameSize other listed).trans_lt (bigger other listed)

end SharedMem

/-- The pool and its users: how many of the handles returned are still held. -/
structure SharedUse where
  mem : SharedMem
  outstanding : Nat → Nat

namespace SharedUse

inductive Call where
  | setSharedMemSize (size : Nat)
  | allocateSharedMemory (size : Nat) (ok : Bool)
  | deallocateSharedMemory (handle : Nat)
  deriving Repr, DecidableEq

def new : SharedUse := ⟨.new, fun _ => 0⟩

def step (s : SharedUse) : Call → Option SharedUse
  | .setSharedMemSize size => some { s with mem := s.mem.setSharedMemSize size }
  | .allocateSharedMemory size ok =>
    match s.mem.allocateSharedMemory size ok with
    | (some handle, mem) =>
      some ⟨mem, Function.update s.outstanding handle (s.outstanding handle + 1)⟩
    | (none, mem) => some { s with mem := mem }
  | .deallocateSharedMemory handle =>
    some ⟨s.mem.deallocateSharedMemory handle,
      Function.update s.outstanding handle (s.outstanding handle - 1)⟩

/-- A handle is released only as often as it was returned. -/
def Held (s : SharedUse) : Call → Prop
  | .deallocateSharedMemory handle => 0 < s.outstanding handle
  | _ => True

instance (s : SharedUse) : DecidablePred s.Held
  | .setSharedMemSize _ => .isTrue trivial
  | .allocateSharedMemory _ _ => .isTrue trivial
  | .deallocateSharedMemory handle => inferInstanceAs (Decidable (0 < s.outstanding handle))

/-- The pool after any number of calls. -/
structure Kept (s : SharedUse) : Prop where
  sorted : s.mem.list.Pairwise fun a b =>
    s.mem.device.memGetSize b < s.mem.device.memGetSize a
  listed : ∀ handle, s.mem.device.heap.Live handle ↔ handle ∈ s.mem.list
  counted : ∀ handle block, s.mem.device.heap.cell handle = some block →
    block.userRefCnt = s.outstanding handle ∧ 0 < s.outstanding handle
  idle : ∀ handle, ¬ s.mem.device.heap.Live handle → s.outstanding handle = 0
  freed : ∀ handle, handle ∈ s.mem.device.released.map Release.handle ↔
    handle < s.mem.device.heap.next ∧ ¬ s.mem.device.heap.Live handle
  once : (s.mem.device.released.map Release.handle).Nodup

theorem Kept.new : SharedUse.new.Kept where
  sorted := .nil
  listed := by simp [SharedUse.new, SharedMem.new, Device.new, Heap.Live]
  counted := by simp [SharedUse.new, SharedMem.new, Device.new]
  idle := by simp [SharedUse.new]
  freed := by simp [SharedUse.new, SharedMem.new, Device.new, Heap.empty]
  once := by simp [SharedUse.new, SharedMem.new, Device.new]

variable {s s' : SharedUse} {handle : Nat}

/-- One user more, or one user less of a block that keeps a user. -/
theorem Kept.count (kept : s.Kept) (listed : handle ∈ s.mem.list) {change : Int} {users : Nat}
    (positive : 0 < users) (counts : (s.outstanding handle : Int) + change = users) :
    Kept ⟨{ s.mem with device := (s.mem.device.addRef handle change).2 },
      Function.update s.outstanding handle users⟩ where
  sorted := by simpa using kept.sorted
  listed := by simpa using kept.listed
  counted := by
    intro other block found
    by_cases same : other = handle
    · subst same
      obtain ⟨before, was⟩ := Heap.live_iff.mp ((kept.listed other).mpr listed)
      rw [Device.addRef_cell was, Option.some.injEq] at found
      subst found
      simp only [Function.update_self]
      refine ⟨?_, positive⟩
      rw [← counts, ← (kept.counted other before was).1]
    · rw [Device.addRef_cell_of_ne same] at found
      simp only [Function.update_of_ne same]
      exact kept.counted other block found
  idle := by
    intro other dead
    simp only [Device.addRef_live] at dead
    have apart : other ≠ handle := by
      rintro rfl
      exact dead ((kept.listed other).mpr listed)
    simp only [Function.update_of_ne apart]
    exact kept.idle other dead
  freed := by simpa [Device.addRef] using kept.freed
  once := kept.once

/-- A new block that is bigger than all listed ones. -/
theorem Kept.create (kept : s.Kept) {size : Nat}
    (biggest : ∀ other ∈ s.mem.list, s.mem.device.memGetSize other < size) :
    Kept ⟨{ s.mem with
        device := s.mem.withNew size
        list := s.mem.device.heap.next :: s.mem.list },
      Function.update s.outstanding s.mem.device.heap.next
        (s.outstanding s.mem.device.heap.next + 1)⟩ := by
  have unused : s.outstanding s.mem.device.heap.next = 0 := kept.idle _ Heap.not_live_next
  have apart : ∀ other ∈ s.mem.list, other ≠ s.mem.device.heap.next := fun other listed =>
    ((kept.listed other).mpr listed).lt_next.ne
  have sameSize : ∀ other ∈ s.mem.list,
      (s.mem.withNew size).memGetSize other = s.mem.device.memGetSize other := by
    intro other listed
    rw [SharedMem.withNew, Device.memGetSize_addRef,
      Device.memGetSize_make_of_ne (apart other listed)]
  have live : ∀ other, (s.mem.withNew size).heap.Live other ↔
      s.mem.device.heap.Live other ∨ other = s.mem.device.heap.next := by
    intro other
    rw [SharedMem.withNew, Device.addRef_live]
    exact Heap.live_alloc
  refine ⟨?_, ?_, ?_, ?_, ?_, kept.once⟩
  · refine List.pairwise_cons.mpr ⟨?_, ?_⟩
    · intro other listed
      rw [sameSize other listed, SharedMem.withNew, Device.memGetSize_addRef,
        Device.memGetSize_make]
      exact biggest other listed
    · refine kept.sorted.imp_of_mem ?_
      intro a b inA inB smaller
      rwa [sameSize a inA, sameSize b inB]
  · intro other
    rw [live, kept.listed, List.mem_cons, or_comm]
  · intro other block found
    by_cases same : other = s.mem.device.heap.next
    · subst same
      rw [SharedMem.withNew, Device.addRef_cell Heap.alloc_cell_self, Option.some.injEq] at found
      subst found
      simp [unused]
    · rw [SharedMem.withNew, Device.addRef_cell_of_ne same, Device.make_cell_of_ne same] at found
      simp only [Function.update_of_ne same]
      exact kept.counted other block found
  · intro other dead
    rw [live, not_or] at dead
    simp only [Function.update_of_ne dead.2]
    exact kept.idle other dead.1
  · intro other
    rw [live]
    refine (kept.freed other).trans ?_
    change _ ↔ other < s.mem.device.heap.next + 1 ∧ _
    constructor
    · rintro ⟨below, dead⟩
      exact ⟨by omega, fun alive => alive.elim dead below.ne⟩
    · rintro ⟨below, dead⟩
      rw [not_or] at dead
      exact ⟨by omega, dead.1⟩

/-- The last user of a block releases it. -/
theorem Kept.release (kept : s.Kept) (listed : handle ∈ s.mem.list)
    (last : s.outstanding handle = 1) :
    Kept ⟨{ s.mem with
        device := (s.mem.device.addRef handle (-1)).2.cviMemFree handle
        list := s.mem.list.filter (· ≠ handle) },
      Function.update s.outstanding handle 0⟩ := by
  have alive : s.mem.device.heap.Live handle := (kept.listed handle).mpr listed
  have live : ∀ other, ((s.mem.device.addRef handle (-1)).2.cviMemFree handle).heap.Live other ↔
      s.mem.device.heap.Live other ∧ other ≠ handle := by
    intro other
    rw [Device.cviMemFree, Heap.live_free, Device.addRef_live]
  have cell : ∀ other, other ≠ handle →
      ((s.mem.device.addRef handle (-1)).2.cviMemFree handle).heap.cell other =
        s.mem.device.heap.cell other := by
    intro other apart
    rw [Device.cviMemFree, Heap.free_cell_of_ne apart, Device.addRef_cell_of_ne apart]
  have size : ∀ other, other ≠ handle →
      ((s.mem.device.addRef handle (-1)).2.cviMemFree handle).memGetSize other =
        s.mem.device.memGetSize other := by
    intro other apart
    rw [Device.memGetSize, Device.memGetSize, cell other apart]
  have mem : ∀ other, other ∈ s.mem.list.filter (· ≠ handle) ↔
      other ∈ s.mem.list ∧ other ≠ handle := by simp
  refine ⟨?_, ?_, ?_, ?_, ?_, ?_⟩
  · refine (kept.sorted.sublist List.filter_sublist).imp_of_mem ?_
    intro a b inA inB smaller
    rw [← size a ((mem a).mp inA).2, ← size b ((mem b).mp inB).2] at smaller
    exact smaller
  · intro other
    rw [live, mem, kept.listed]
  · intro other block found
    have apart : other ≠ handle := by
      rintro rfl
      rw [Device.cviMemFree, Heap.free_cell_self] at found
      cases found
    rw [cell other apart] at found
    simp only [Function.update_of_ne apart]
    exact kept.counted other block found
  · intro other dead
    by_cases same : other = handle
    · simp only [same, Function.update_self]
    · rw [live, not_and_or, not_not] at dead
      simp only [Function.update_of_ne same]
      exact kept.idle other (dead.resolve_right same)
  · intro other
    rw [live, not_and_or, not_not]
    rw [Device.released_cviMemFree, List.mem_append, List.mem_singleton]
    change other ∈ s.mem.device.released.map Release.handle ∨ _ ↔ _
    rw [kept.freed]
    constructor
    · rintro (⟨below, dead⟩ | rfl)
      · exact ⟨below, .inl dead⟩
      · exact ⟨alive.lt_next, .inr rfl⟩
    · rintro ⟨below, dead | rfl⟩
      · exact .inl ⟨below, dead⟩
      · exact .inr rfl
  · rw [Device.released_cviMemFree, List.nodup_append]
    refine ⟨kept.once, by simp, ?_⟩
    intro other isFreed last isLast
    rw [List.mem_singleton] at isLast
    rintro rfl
    exact ((kept.freed other).mp isFreed).2 (isLast ▸ alive)

theorem Kept.step (kept : s.Kept) {call : Call} (held : s.Held call)
    (stepped : s.step call = some s') : s'.Kept := by
  cases call with
  | setSharedMemSize size =>
    cases stepped
    exact ⟨kept.sorted, kept.listed, kept.counted, kept.idle, kept.freed, kept.once⟩
  | allocateSharedMemory size ok =>
    rw [SharedUse.step] at stepped
    rcases SharedMem.allocateSharedMemory_cases size ok
      (fun handle listed => (kept.listed handle).mpr listed) with
      ⟨handle, listed, outcome⟩ | outcome | ⟨size', biggest, outcome⟩
    · rw [outcome] at stepped
      cases stepped
      exact kept.count listed (Nat.succ_pos _) (by push_cast; rfl)
    · rw [outcome] at stepped
      cases stepped
      exact kept
    · rw [outcome] at stepped
      cases stepped
      exact kept.create biggest
  | deallocateSharedMemory handle =>
    cases stepped
    have alive : s.mem.device.heap.Live handle := by
      by_contra dead
      exact held.ne' (kept.idle handle dead)
    have listed : handle ∈ s.mem.list := (kept.listed handle).mp alive
    obtain ⟨block, found⟩ := Heap.live_iff.mp alive
    have counted := (kept.counted handle block found).1
    rw [SharedMem.deallocateSharedMemory, if_pos listed]
    simp only [Device.addRef_count found, counted]
    have positive : 0 < s.outstanding handle := held
    by_cases last : s.outstanding handle = 1
    · rw [if_pos (by omega), last]
      exact kept.release listed last
    · rw [if_neg (by omega)]
      exact kept.count listed (by omega) (by omega)

/-- Strictly decreasing sizes list no block twice. -/
theorem Kept.nodup (kept : s.Kept) : s.mem.list.Nodup :=
  kept.sorted.imp fun smaller same => (same ▸ smaller).false

/-- After any calls in which no handle is released more often than it was returned: the list is
    strictly decreasing in size and has every block created and not freed exactly once, with as
    many references as it has users; a block is freed when it has no users left, once. -/
theorem run_kept (calls : List Call) {s : SharedUse}
    (held : Admits SharedUse.step Held SharedUse.new calls)
    (ran : run SharedUse.step SharedUse.new calls = some s) :
    (s.mem.list.Pairwise fun a b => s.mem.device.memGetSize b < s.mem.device.memGetSize a) ∧
    (s.mem.list.Nodup ∧ ∀ handle, handle ∈ s.mem.list ↔
      handle < s.mem.device.heap.next ∧ handle ∉ s.mem.device.released.map Release.handle) ∧
    (∀ handle ∈ s.mem.list, ∃ block, s.mem.device.heap.cell handle = some block ∧
      block.userRefCnt = s.outstanding handle ∧ 1 ≤ s.outstanding handle) ∧
    (∀ handle, handle ∈ s.mem.device.released.map Release.handle ↔
      handle < s.mem.device.heap.next ∧ s.outstanding handle = 0) ∧
    (s.mem.device.released.map Release.handle).Nodup := by
  have kept : s.Kept :=
    run_invariant (fun _ _ _ kept held stepped => kept.step held stepped) Kept.new held ran
  refine ⟨kept.sorted, ⟨kept.nodup, ?_⟩, ?_, ?_, kept.once⟩
  · intro handle
    rw [← kept.listed, kept.freed, not_and, not_not]
    exact ⟨fun live => ⟨live.lt_next, fun _ => live⟩, fun ⟨below, live⟩ => live below⟩
  · intro handle listed
    obtain ⟨block, found⟩ := Heap.live_iff.mp ((kept.listed handle).mpr listed)
    exact ⟨block, found, kept.counted handle block found⟩
  · intro handle
    rw [kept.freed]
    refine and_congr_right fun _ => ⟨kept.idle handle, fun unused live => ?_⟩
    obtain ⟨block, found⟩ := Heap.live_iff.mp live
    exact (kept.counted handle block found).2.ne' unused

/-- A big request, a small one that shares its block, a bigger one, and the three releases. -/
def threeUsers : List Call :=
  [.setSharedMemSize 5000, .allocateSharedMemory 9000 true, .allocateSharedMemory 100 true,
    .allocateSharedMemory 10000 true, .deallocateSharedMemory 0, .deallocateSharedMemory 1,
    .deallocateSharedMemory 0]

theorem run_kept_three_users : ∃ s, run SharedUse.step SharedUse.new threeUsers = some s ∧
    s.mem.device.released.map Release.handle = [1, 0] ∧
    (s.mem.device.released.map Release.handle).Nodup := by
  refine ⟨_, rfl, rfl, ?_⟩
  refine (run_kept threeUsers ?_ rfl).2.2.2.2
  repeat
    refine ⟨by decide, ?_⟩
    rintro _ ⟨⟩
  trivial

end SharedUse

end CviRuntime.Memory
