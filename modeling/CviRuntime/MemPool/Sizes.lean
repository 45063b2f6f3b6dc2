import CviRuntime.MemPool.Session

/-!
# Request sizes of the memory pool

`mem_pool_alloc` takes any `pool_size_t`. The rounding to `MIN_SLOT_SIZE` gives 0
for a request of 0, and wraps to 0 for a request within 4095 of `2^64`: the record
is then empty and shares its address with the next block. Requests in between are
honoured: the region is large enough, is nobody else's, and comes back whole.
-/

namespace CviRuntime.MemPool

open CviRuntime.Interval

/-- The request is a `pool_size_t`. -/
def PoolOp.InRange : PoolOp → Prop
  | .alloc size => size < 2 ^ 64
  | .allocInBank size => size < 2 ^ 64
  | .free _ => True

instance : (op : PoolOp) → Decidable op.InRange
  | .alloc size => inferInstanceAs (Decidable (size < 2 ^ 64))
  | .allocInBank size => inferInstanceAs (Decidable (size < 2 ^ 64))
  | .free _ => inferInstanceAs (Decidable True)

theorem PoolOp.SizeOk.inRange {op : PoolOp} (ok : op.SizeOk) : op.InRange := by
  cases op with
  | alloc size => exact Nat.lt_of_le_of_lt (Nat.le_add_right size _) ok.2
  | allocInBank size => exact Nat.lt_of_le_of_lt (Nat.le_add_right size _) ok.2
  | free addr => trivial

/-- `mem_pool_free` of `addr` succeeds, takes the record `(addr, region)` and no other
    out of `slot_in_use`, gives the region and nothing else back to `slot_avail`, and
    leaves the counter equal to the size of the map. -/
structure FreesExactly (P : Pool) (addr region : Nat) (P' : Pool) : Prop where
  freed : memPoolFree P addr = some P'
  record : P.pool.slotInUse.Perm ((addr, region) :: P'.pool.slotInUse)
  returned : ∀ point, cover P'.pool.slotAvail point =
    cover ((addr, region) :: P.pool.slotAvail) point
  count : P'.pool.numSlotsInUse = P'.pool.slotInUse.length

/-- The call that returned `addr` for a request of `size`, leaving `pool`, is honoured,
    whatever calls admitted by `ok` come between it and the free of `addr`. -/
structure Honoured (ok : PoolOp → Prop) (s : Session) (size addr : Nat) (pool : Pool) : Prop where
  distinct : addr ∉ s.live.map Prod.fst
  region : ∃ region, size ≤ region ∧ (addr, region) ∈ pool.pool.slotInUse ∧
    ∀ (more : List PoolOp) (t : Session), (∀ op ∈ more, ok op) → PoolOp.free addr ∉ more →
      run { pool := pool, live := (addr, size) :: s.live } more = some t →
      ∃ P', FreesExactly t.pool addr region P'

/-- In every state that calls admitted by `ok` reach, the counter is right and every
    admitted allocation that returns is honoured. -/
def SizesHonoured (ok : PoolOp → Prop) (T : Nat) : Prop :=
  ∀ (ops : List PoolOp) (s : Session), (∀ op ∈ ops, ok op) → run (create T) ops = some s →
    s.pool.pool.numSlotsInUse = s.pool.pool.slotInUse.length ∧
    ∀ size addr pool,
      (ok (.alloc size) → memPoolAlloc s.pool size = some (addr, pool) →
        Honoured ok s size addr pool) ∧
      (ok (.allocInBank size) → memPoolAllocInBank s.pool size = some (addr, pool) →
        Honoured ok s size addr pool)

/-- The record of a live block is found by its address. -/
theorem Inv.mapFind_eq {T : Nat} {P : PoolStruct} (inv : Inv T P) {addr region : Nat}
    (member : (addr, region) ∈ P.slotInUse) : mapFind P.slotInUse addr = some region := by
  have perm := inv.inUse_perm member
  cases found : mapFind P.slotInUse addr with
  | none =>
    simp only [mapFind, Option.map_eq_none_iff, List.find?_eq_none] at found
    exact absurd (found _ member) (by simp)
  | some other =>
    rcases List.mem_cons.mp (perm.mem_iff.mp (mapFind_mem found)) with same | erased
    · exact congrArg some (congrArg Prod.snd same)
    · simp [mapErase] at erased

/-- A recorded block can be freed, and the free is exact. -/
theorem freesExactly_of_record {T : Nat} (bound : T < 2 ^ 64) {P : Pool} (inv : Inv T P.pool)
    {addr region : Nat} (member : (addr, region) ∈ P.pool.slotInUse) :
    ∃ P', FreesExactly P addr region P' := by
  have found := inv.mapFind_eq member
  have rounded := inv.rounded _ member
  obtain ⟨P', done⟩ : ∃ P', memPoolFree P addr = some P' := by
    unfold memPoolFree
    rw [found]
    simp only [rounded, ne_eq, not_true_eq_false, if_false]
    exact ⟨_, rfl⟩
  obtain ⟨-, after, inUse, -⟩ := memPoolFree_spec inv bound done
  have perm : P.pool.slotInUse.Perm ((addr, region) :: P'.pool.slotInUse) := by
    rw [inUse]
    exact inv.inUse_perm member
  refine ⟨P', done, perm, ?_, after.count⟩
  intro point
  -- both pools tile `[0, T)`, so what leaves the map is what enters the free list
  have tiledBefore := inv.tiles.once point
  have tiledAfter := after.tiles.once point
  rw [cover_append, cover_perm perm, cover_cons] at tiledBefore
  rw [cover_append] at tiledAfter
  rw [cover_cons]
  omega

/-- The session after an allocation keeps the invariant and records the block. -/
theorem honoured_of_alloc {find : PoolStruct → Nat → Option (Nat × PoolStruct)}
    {T size addr : Nat} (bound : T < 2 ^ 64) {s : Session} {pool : Pool} (inv : SessionInv T s)
    (finds : ∀ P' a, find s.pool.pool (sizeToAlloc size) = some (a, P') → a ≠ addrInvalid →
      sizeToAlloc size % minSlotSize = 0 ∧ Carve s.pool.pool (sizeToAlloc size) a P')
    (sizeOk : 0 < size ∧ size + (minSlotSize - 1) < 2 ^ 64)
    (ok : allocWith find s.pool size = some (addr, pool)) :
    Honoured PoolOp.SizeOk s size addr pool := by
  have after := (sessionInv_alloc inv finds sizeOk ok).1
  obtain ⟨-, -, inUse⟩ := allocWith_spec inv.inv finds sizeOk.1 sizeOk.2 ok
  have member : (addr, sizeToAlloc size) ∈ pool.pool.slotInUse := by
    rw [inUse]
    exact List.mem_cons_self
  constructor
  · have exclusive := (after.tiling bound).exclusive
    rw [List.map_cons] at exclusive
    exact (List.nodup_cons.mp exclusive).1
  · refine ⟨sizeToAlloc size, (sizeToAlloc_spec sizeOk.1 sizeOk.2).2, member, ?_⟩
    intro more t sizes kept done
    have later := run_inv bound after sizes done
    exact freesExactly_of_record bound later.inv (run_keeps bound after sizes member kept done)

/-- A finder that reports no slot ends the call. -/
theorem allocWith_of_invalid {find : PoolStruct → Nat → Option (Nat × PoolStruct)} {pool : Pool}
    {P : PoolStruct} {size : Nat}
    (missing : find pool.pool (sizeToAlloc size) = some (addrInvalid, P)) :
    allocWith find pool size = none := by
  unfold allocWith
  split
  · rfl
  · rw [missing]
    simp only [if_true]

/-- A pool of size 0 serves no request: the one free slot is empty. -/
theorem step_create_zero {op : PoolOp} (sizeOk : op.SizeOk) : step (create 0) op = none := by
  have rounded : ∀ size, sizeToAlloc size % minSlotSize = 0 := fun size => Nat.mul_mod_left _ _
  have tooSmall : ∀ {size : Nat}, 0 < size ∧ size + (minSlotSize - 1) < 2 ^ 64 →
      ¬ sizeToAlloc size ≤ 0 :=
    fun ok => Nat.not_le.mpr (sizeToAlloc_spec ok.1 ok.2).1
  cases op with
  | alloc size =>
    have missing : findSlot (memPoolCreate 0).pool (sizeToAlloc size) =
        some (addrInvalid, (memPoolCreate 0).pool) := by
      simp only [findSlot, findSlotLoop, memPoolCreate, rounded, tooSmall sizeOk, false_and,
        if_false, ne_eq, not_true_eq_false]
    exact congrArg (Option.map _) (allocWith_of_invalid missing)
  | allocInBank size =>
    have missing : findSlotInBank (memPoolCreate 0).pool (sizeToAlloc size) =
        some (addrInvalid, (memPoolCreate 0).pool) := by
      simp only [findSlotInBank, findSlotInBankLoop, memPoolCreate, rounded, tooSmall sizeOk,
        false_and, if_false, ne_eq, not_true_eq_false]
    exact congrArg (Option.map _) (allocWith_of_invalid missing)
  | free addr => rfl

/-- The requests that a run of a pool of size 0 admits are none. -/
theorem run_create_zero {ops : List PoolOp} {s : Session} (sizes : ∀ op ∈ ops, op.SizeOk)
    (done : run (create 0) ops = some s) : s = create 0 := by
  cases ops with
  | nil => exact (Option.some.inj done).symm
  | cons op rest =>
    obtain ⟨s', first, -⟩ := Run.run_cons.mp done
    rw [step_create_zero (sizes op List.mem_cons_self)] at first
    cases first

theorem sizesHonoured_zero : SizesHonoured PoolOp.SizeOk 0 := by
  intro ops s sizes done
  rw [run_create_zero sizes done]
  refine ⟨rfl, ?_⟩
  intro size addr pool
  constructor
  · intro sizeOk returned
    have refused := step_create_zero sizeOk
    simp only [step, returned, Option.map_some] at refused
    cases refused
  · intro sizeOk returned
    have refused := step_create_zero sizeOk
    simp only [step, returned, Option.map_some] at refused
    cases refused

theorem sizesHonoured_sizeOk {T : Nat} (range : T < 2 ^ 64) : SizesHonoured PoolOp.SizeOk T := by
  rcases Nat.eq_zero_or_pos T with rfl | pos
  · exact sizesHonoured_zero
  · intro ops s sizes done
    have inv := run_inv range (sessionInv_create pos) sizes done
    refine ⟨inv.inv.count, ?_⟩
    intro size addr pool
    constructor
    · intro sizeOk returned
      exact honoured_of_alloc range inv (fun P' a => findSlot_carve inv.inv range) sizeOk returned
    · intro sizeOk returned
      exact honoured_of_alloc range inv (fun P' a => findSlotInBank_carve inv.inv range) sizeOk
        returned

/-- Fewer calls admitted, fewer promises. -/
theorem SizesHonoured.mono {ok ok' : PoolOp → Prop} {T : Nat} (weaker : ∀ op, ok' op → ok op)
    (honoured : SizesHonoured ok T) : SizesHonoured ok' T := by
  have keep : ∀ {s : Session} {size addr : Nat} {pool : Pool},
      Honoured ok s size addr pool → Honoured ok' s size addr pool := by
    intro s size addr pool call
    obtain ⟨region, large, member, frees⟩ := call.region
    refine ⟨call.distinct, region, large, member, ?_⟩
    intro more t admitted
    exact frees more t (fun op h => weaker op (admitted op h))
  intro ops s admitted done
  obtain ⟨count, calls⟩ := honoured ops s (fun op h => weaker op (admitted op h)) done
  refine ⟨count, fun size addr pool => ⟨?_, ?_⟩⟩
  · intro sizeOk returned
    exact keep ((calls size addr pool).1 (weaker _ sizeOk) returned)
  · intro sizeOk returned
    exact keep ((calls size addr pool).2 (weaker _ sizeOk) returned)

/-- Every other request is rounded to 0. -/
theorem sizeToAlloc_of_bad {size : Nat} (range : size < 2 ^ 64)
    (bad : ¬ (0 < size ∧ size + (minSlotSize - 1) < 2 ^ 64)) : sizeToAlloc size = 0 := by
  simp only [sizeToAlloc, u64, minSlotSize] at bad ⊢
  omega

/-- The pool after `n` requests that were rounded to 0 (for `0 < n`): the free slot is still
    whole, and the map has one empty record. -/
def afterEmpty (T : Nat) (n : Int) : Pool where
  totalSize := T
  pool := { numSlotsInUse := n, slotAvail := [(0, T)], slotInUse := [(0, 0)] }

section Empty

variable {T size : Nat}

theorem findSlot_empty (pos : 0 < T) {n : Int} {inUse : List Slot} :
    findSlot { numSlotsInUse := n, slotAvail := [(0, T)], slotInUse := inUse } 0 =
      some (0, ⟨n, [(0, T)], mapInsert inUse (0, 0)⟩) := by
  have some_room : T ≠ 0 := by omega
  simp [findSlot, findSlotLoop, some_room, u64]

theorem findSlotInBank_empty (pos : 0 < T) {n : Int} {inUse : List Slot} :
    findSlotInBank { numSlotsInUse := n, slotAvail := [(0, T)], slotInUse := inUse } 0 =
      some (0, ⟨n, [(0, T)], mapInsert inUse (0, 0)⟩) := by
  have some_room : T ≠ 0 := by omega
  simp [findSlotInBank, findSlotInBankLoop, slotInBank, some_room, u64]

/-- Twice the same address: the first two requests of a fresh pool, both rounded to 0. -/
theorem allocWith_empty {find : PoolStruct → Nat → Option (Nat × PoolStruct)}
    (finds : ∀ n inUse, find { numSlotsInUse := n, slotAvail := [(0, T)], slotInUse := inUse } 0 =
      some (0, { numSlotsInUse := n, slotAvail := [(0, T)], slotInUse := mapInsert inUse (0, 0) }))
    (rounded : sizeToAlloc size = 0) :
    allocWith find (create T).pool size = some (0, afterEmpty T 1) ∧
      allocWith find (afterEmpty T 1) size = some (0, afterEmpty T 2) := by
  constructor
  · simp [allocWith, create, memPoolCreate, rounded, finds, addrInvalid, u64, slotNum, afterEmpty,
      mapInsert]
  · simp [allocWith, rounded, finds, addrInvalid, u64, slotNum, afterEmpty, mapInsert]

end Empty

/-- A pool whose requests are all honoured is only asked for sizes from 1 to `2^64 - 4096`:
    any other size, asked for twice, gets one address for two blocks. -/
theorem SizesHonoured.sizeOk {ok : PoolOp → Prop} {T : Nat} (pos : 0 < T)
    (honoured : SizesHonoured ok T) (inRange : ∀ op, ok op → op.InRange) :
    ∀ op, ok op → op.SizeOk := by
  intro op admitted
  have reaches : ∀ {size : Nat},
      step (create T) op = some { pool := afterEmpty T 1, live := [(0, size)] } →
      run (create T) [op] = some { pool := afterEmpty T 1, live := [(0, size)] } :=
    fun first => Run.run_cons.mpr ⟨_, first, rfl⟩
  have alone : ∀ other ∈ [op], ok other := by
    intro other member
    rw [List.mem_singleton.mp member]
    exact admitted
  cases op with
  | alloc size =>
    by_contra bad
    have rounded := sizeToAlloc_of_bad (inRange _ admitted) bad
    obtain ⟨first, second⟩ := allocWith_empty (T := T) (fun _ _ => findSlot_empty pos) rounded
    have reached := reaches (congrArg (Option.map _) first)
    have call := ((honoured _ _ alone reached).2 size 0 _).1 admitted second
    exact call.distinct (by simp)
  | allocInBank size =>
    by_contra bad
    have rounded := sizeToAlloc_of_bad (inRange _ admitted) bad
    obtain ⟨first, second⟩ := allocWith_empty (T := T) (fun _ _ => findSlotInBank_empty pos) rounded
    have reached := reaches (congrArg (Option.map _) first)
    have call := ((honoured _ _ alone reached).2 size 0 _).2 admitted second
    exact call.distinct (by simp)
  | free addr => trivial

/-- The requests that are honoured in every state they reach are those from 1 to
    `2^64 - 4096`. -/
theorem memPool_sizes_honoured_iff (T : Nat) (range : T < 2 ^ 64) (ok : PoolOp → Prop)
    (inRange : ∀ op, ok op → op.InRange) :
    ((∀ op, ok op → op.SizeOk) → SizesHonoured ok T) ∧
      (0 < T → SizesHonoured ok T → ∀ op, ok op → op.SizeOk) :=
  ⟨fun sizes => (sizesHonoured_sizeOk range).mono sizes,
    fun pos honoured => honoured.sizeOk pos inRange⟩

/-- A second block beside a live one: 4096 bytes on, and its own. -/
theorem memPool_sizes_honoured_second_block :
    ∃ s pool, run (create 65536) [.alloc 1] = some s ∧
      memPoolAllocInBank s.pool 5000 = some (4096, pool) ∧
      Honoured PoolOp.SizeOk s 5000 4096 pool := by
  refine ⟨⟨⟨65536, ⟨1, [(4096, 61440)], [(0, 4096)]⟩⟩, [(0, 1)]⟩,
    ⟨65536, ⟨2, [(12288, 53248)], [(4096, 8192), (0, 4096)]⟩⟩, by decide, by decide, ?_⟩
  have honoured := (memPool_sizes_honoured_iff 65536 (by decide) PoolOp.SizeOk
    (fun op ok => ok.inRange)).1 (fun _ ok => ok)
  refine ((honoured [.alloc 1] _ ?_ (by decide)).2 5000 4096 _).2 ⟨by decide, by decide⟩
    (by decide)
  intro op member
  rw [List.mem_singleton.mp member]
  exact ⟨by decide, by decide⟩

/-- A request of 0 leaves an empty record at the address of the next block, and
    `map::insert` then drops the record of that block. -/
theorem memPool_size_zero_shares_address : ¬ SizesHonoured PoolOp.InRange 65536 := by
  intro honoured
  have second := ((honoured [.alloc 0] ⟨afterEmpty 65536 1, [(0, 0)]⟩
    (by
      intro op member
      rw [List.mem_singleton.mp member]
      decide)
    (by decide)).2 4096 0 ⟨65536, ⟨2, [(4096, 61440)], [(0, 0)]⟩⟩).1 (by decide) (by decide)
  exact second.distinct (by decide)

end CviRuntime.MemPool
