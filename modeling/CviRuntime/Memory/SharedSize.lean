import CviRuntime.Memory.SharedMem

/-!
# How big the blocks of shared memory are (`src/common/shared_mem.cpp`)

`setSharedMemSize` rounds the size up to a page and masks it with a 32-bit constant. Up to
`2 ^ 32 - 4096` the rounded size is at least the size that was asked for, above it never is.
-/

namespace CviRuntime.Memory

open Run

namespace SharedMem

/-- A mask that keeps the bits 12 to 31. -/
theorem and_page_mask (n : Nat) : n &&& 0xFFFFF000 = n % 2 ^ 32 / 4096 * 4096 := by
  have shifted : n % 2 ^ 32 / 4096 * 4096 = ((n % 2 ^ 32) >>> 12) <<< 12 := by
    rw [Nat.shiftRight_eq_div_pow, Nat.shiftLeft_eq]
  rw [shifted]
  refine Nat.eq_of_testBit_eq fun i => ?_
  have mask : (0xFFFFF000 : Nat) = (2 ^ 20 - 1) <<< 12 := rfl
  rw [Nat.testBit_and, mask, Nat.testBit_shiftLeft, Nat.testBit_shiftLeft, Nat.testBit_shiftRight,
    Nat.testBit_mod_two_pow, Nat.testBit_two_pow_sub_one]
  by_cases low : i < 12
  · simp [Nat.not_le.mpr low]
  · have back : 12 + (i - 12) = i := by omega
    rw [back]
    by_cases high : i < 32
    · have inMask : i - 12 < 20 := by omega
      simp [high, inMask, Nat.le_of_not_lt low]
    · have offMask : ¬ i - 12 < 20 := by omega
      simp [high, offMask]

/-- The page rounding keeps a size exactly when the page fits the 32-bit mask. -/
theorem le_rounded_iff {size : Nat} (small : size + 4096 ≤ 2 ^ 64) :
    size ≤ ((size + 4095) % 2 ^ 64 &&& 0xFFFFF000) ↔ size ≤ 2 ^ 32 - 4096 := by
  rw [and_page_mask, Nat.mod_eq_of_lt (show size + 4095 < 2 ^ 64 by omega)]
  omega

/-- A size that was set stays a lower bound. -/
theorem le_maxSize_setSharedMemSize {mem : SharedMem} {size : Nat} (small : size ≤ 2 ^ 32 - 4096) :
    size ≤ (mem.setSharedMemSize size).maxSize :=
  ((le_rounded_iff (by omega)).mpr small).trans (Nat.le_max_right _ _)

theorem maxSize_le_setSharedMemSize (mem : SharedMem) (size : Nat) :
    mem.maxSize ≤ (mem.setSharedMemSize size).maxSize :=
  Nat.le_max_left _ _

@[simp] theorem allocateSharedMemory_maxSize (mem : SharedMem) (size : Nat) (ok : Bool) :
    (mem.allocateSharedMemory size ok).2.maxSize = mem.maxSize := by
  rw [allocateSharedMemory]
  split
  · rfl
  · split <;> rfl

@[simp] theorem deallocateSharedMemory_maxSize (mem : SharedMem) (handle : Nat) :
    (mem.deallocateSharedMemory handle).maxSize = mem.maxSize := by
  rw [deallocateSharedMemory]
  split
  · dsimp only
    split <;> rfl
  · rfl

/-- A block that is returned, shared or new, has the maximum that was set and the size asked for. -/
theorem allocateSharedMemory_size {mem mem' : SharedMem} {size handle : Nat} {ok : Bool}
    (returned : mem.allocateSharedMemory size ok = (some handle, mem')) :
    max mem.maxSize size ≤ mem'.device.memGetSize handle := by
  rw [allocateSharedMemory] at returned
  cases search : mem.list.find? fun handle =>
      decide (max mem.maxSize size ≤ mem.device.memGetSize handle) with
  | some found =>
    simp only [search, Prod.mk.injEq, Option.some.injEq] at returned
    obtain ⟨rfl, rfl⟩ := returned
    have enough := List.find?_some search
    rw [Device.memGetSize_addRef]
    exact of_decide_eq_true enough
  | none =>
    cases ok with
    | false =>
      simp only [search, Device.cviMemAlloc] at returned
      cases returned
    | true =>
      simp only [search, Device.cviMemAlloc, if_true, Prod.mk.injEq, Option.some.injEq] at returned
      obtain ⟨rfl, rfl⟩ := returned
      change _ ≤ Device.memGetSize _ mem.device.heap.next
      rw [Device.memGetSize_addRef, Device.memGetSize_make]

end SharedMem

namespace SharedUse

/-- The sizes that a call sets. -/
def Call.sets : Call → List Nat
  | .setSharedMemSize size => [size]
  | _ => []

/-- No call lowers the maximum, and a size below the last page of 32 bits is counted. -/
theorem maxSize_step {s s' : SharedUse} {call : Call} (stepped : s.step call = some s') :
    s.mem.maxSize ≤ s'.mem.maxSize ∧
      ∀ size ∈ call.sets, size ≤ 2 ^ 32 - 4096 → size ≤ s'.mem.maxSize := by
  cases call with
  | setSharedMemSize size =>
    cases stepped
    refine ⟨SharedMem.maxSize_le_setSharedMemSize s.mem size, ?_⟩
    intro other isSize small
    rw [List.mem_singleton.mp isSize] at small ⊢
    exact SharedMem.le_maxSize_setSharedMemSize small
  | allocateSharedMemory size ok =>
    have kept := SharedMem.allocateSharedMemory_maxSize s.mem size ok
    rw [SharedUse.step] at stepped
    split at stepped
    all_goals
      rename_i outcome
      cases stepped
      rw [outcome] at kept
      exact ⟨kept.ge, fun _ none => absurd none List.not_mem_nil⟩
  | deallocateSharedMemory handle =>
    cases stepped
    exact ⟨(SharedMem.deallocateSharedMemory_maxSize s.mem handle).ge,
      fun _ none => absurd none List.not_mem_nil⟩

/-- After any calls, the maximum is at least every size set that is below the last page of 32
    bits. -/
theorem le_maxSize_of_run {calls : List Call} {s : SharedUse}
    (ran : run SharedUse.step SharedUse.new calls = some s) {size : Nat}
    (isSet : size ∈ calls.flatMap Call.sets) (small : size ≤ 2 ^ 32 - 4096) :
    size ≤ s.mem.maxSize := by
  obtain ⟨call, member, sets⟩ := List.mem_flatMap.mp isSet
  have all := run_establishes
    (Q := fun call s => ∀ size ∈ call.sets, size ≤ 2 ^ 32 - 4096 → size ≤ s.mem.maxSize)
    (fun _ _ _ stepped => (maxSize_step stepped).2)
    (fun _ _ _ _ before stepped size sets small =>
      (before size sets small).trans (maxSize_step stepped).1) ran
  exact all call member size sets small

/-- In every run whose sizes set are at most `2 ^ 32 - 4096`, each block returned has the size
    asked for and every size set before. -/
theorem shared_block_size {calls : List Call} {s : SharedUse}
    (ran : run SharedUse.step SharedUse.new calls = some s)
    (small : ∀ size ∈ calls.flatMap Call.sets, size ≤ 2 ^ 32 - 4096)
    {size handle : Nat} {ok : Bool} {mem : SharedMem}
    (returned : s.mem.allocateSharedMemory size ok = (some handle, mem)) :
    size ≤ mem.device.memGetSize handle ∧
      ∀ size ∈ calls.flatMap Call.sets, size ≤ mem.device.memGetSize handle := by
  have enough := SharedMem.allocateSharedMemory_size returned
  refine ⟨(Nat.le_max_right _ _).trans enough, ?_⟩
  intro other isSet
  calc other ≤ s.mem.maxSize := le_maxSize_of_run ran isSet (small other isSet)
    _ ≤ max s.mem.maxSize size := Nat.le_max_left _ _
    _ ≤ mem.device.memGetSize handle := enough

/-- Two models and a request that shares the block of the bigger one. -/
theorem shared_block_size_two_models :
    ∃ s mem, run SharedUse.step SharedUse.new
        [.setSharedMemSize 5000, .allocateSharedMemory 100 true, .setSharedMemSize 300] = some s ∧
      s.mem.allocateSharedMemory 8000 true = (some 0, mem) ∧ 5000 ≤ mem.device.memGetSize 0 := by
  refine ⟨_, _, rfl, rfl, ?_⟩
  refine (@shared_block_size
    [.setSharedMemSize 5000, .allocateSharedMemory 100 true, .setSharedMemSize 300]
    _ rfl ?_ 8000 0 true _ rfl).2 5000 ?_
  · simp [Call.sets]
  · simp [Call.sets]

/-- 4 GiB round to nothing. -/
theorem shared_block_size_four_gib :
    ∃ s mem, run SharedUse.step SharedUse.new [.setSharedMemSize (2 ^ 32)] = some s ∧
      s.mem.allocateSharedMemory 4096 true = (some 0, mem) ∧
      ¬ 2 ^ 32 ≤ mem.device.memGetSize 0 := by
  refine ⟨_, _, rfl, rfl, ?_⟩
  decide

end SharedUse

end CviRuntime.Memory
