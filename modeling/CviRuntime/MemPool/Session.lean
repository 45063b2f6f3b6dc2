import CviRuntime.MemPool.Tiling

/-!
# Whole runs of the memory pool

`SessionInv` adds the client's view to the invariant of the pool: every
allocation the client has not freed is an entry of `slot_in_use` that is at least
as large as the request. It holds of every run from `mem_pool_create`, whatever
the order of the calls.
-/

namespace CviRuntime.MemPool

open CviRuntime.Interval

/-- A live allocation (address and requested size) and the entry of `slot_in_use` that backs it. -/
def Backs (entry : Nat × Nat) (slot : Slot) : Prop := entry.1 = slot.1 ∧ entry.2 ≤ slot.2

structure SessionInv (T : Nat) (s : Session) : Prop where
  total : s.pool.totalSize = T
  inv : Inv T s.pool.pool
  live : List.Forall₂ Backs s.live s.pool.pool.slotInUse

theorem sessionInv_create {T : Nat} (pos : 0 < T) : SessionInv T (create T) where
  total := rfl
  inv := inv_create pos
  live := List.Forall₂.nil

theorem forall₂_erase {live : List (Nat × Nat)} {inUse : List Slot} (addr : Nat)
    (backed : List.Forall₂ Backs live inUse) :
    List.Forall₂ Backs (live.filter (fun entry => entry.1 ≠ addr)) (mapErase inUse addr) := by
  unfold mapErase
  induction backed with
  | nil => exact List.Forall₂.nil
  | cons backs _ ih =>
    rename_i entry slot _ _ _
    by_cases same : slot.1 = addr
    · rw [List.filter_cons_of_neg (by simp [backs.1, same]),
        List.filter_cons_of_neg (by simp [same])]
      exact ih
    · rw [List.filter_cons_of_pos (by simpa [backs.1] using same),
        List.filter_cons_of_pos (by simpa using same)]
      exact List.Forall₂.cons backs ih

/-- The step shared by both allocation calls. -/
theorem sessionInv_alloc {find : PoolStruct → Nat → Option (Nat × PoolStruct)} {T size addr : Nat}
    {s : Session} {pool : Pool} (inv : SessionInv T s)
    (finds : ∀ P' a, find s.pool.pool (sizeToAlloc size) = some (a, P') → a ≠ addrInvalid →
      sizeToAlloc size % minSlotSize = 0 ∧ Carve s.pool.pool (sizeToAlloc size) a P')
    (sizeOk : 0 < size ∧ size + (minSlotSize - 1) < 2 ^ 64)
    (ok : allocWith find s.pool size = some (addr, pool)) :
    SessionInv T { pool := pool, live := (addr, size) :: s.live } ∧
      ∀ slot ∈ s.pool.pool.slotInUse, slot ∈ pool.pool.slotInUse := by
  obtain ⟨total, poolInv, inUse⟩ := allocWith_spec inv.inv finds sizeOk.1 sizeOk.2 ok
  refine ⟨⟨total.trans inv.total, poolInv, ?_⟩, ?_⟩
  · simp only [inUse]
    exact List.Forall₂.cons ⟨rfl, (sizeToAlloc_spec sizeOk.1 sizeOk.2).2⟩ inv.live
  · intro slot member
    rw [inUse]
    exact List.mem_cons_of_mem _ member

/-- One call keeps the invariant, and keeps every used slot except the one it frees. -/
theorem step_spec {T : Nat} (bound : T < 2 ^ 64) {s s' : Session} {op : PoolOp}
    (inv : SessionInv T s) (sizeOk : op.SizeOk) (ok : step s op = some s') :
    SessionInv T s' ∧
      ∀ slot ∈ s.pool.pool.slotInUse, op ≠ .free slot.1 → slot ∈ s'.pool.pool.slotInUse := by
  cases op with
  | alloc size =>
    obtain ⟨⟨addr, pool⟩, done, rfl⟩ := Option.map_eq_some_iff.mp ok
    have spec := sessionInv_alloc inv (fun P' a => findSlot_carve inv.inv bound) sizeOk done
    exact ⟨spec.1, fun slot member _ => spec.2 slot member⟩
  | allocInBank size =>
    obtain ⟨⟨addr, pool⟩, done, rfl⟩ := Option.map_eq_some_iff.mp ok
    have spec := sessionInv_alloc inv (fun P' a => findSlotInBank_carve inv.inv bound) sizeOk done
    exact ⟨spec.1, fun slot member _ => spec.2 slot member⟩
  | free addr =>
    obtain ⟨pool, done, rfl⟩ := Option.map_eq_some_iff.mp ok
    obtain ⟨total, poolInv, inUse, -⟩ := memPoolFree_spec inv.inv bound done
    refine ⟨⟨total.trans inv.total, poolInv, ?_⟩, ?_⟩
    · simp only [inUse]
      exact forall₂_erase addr inv.live
    · intro slot member other
      simp only [inUse, mapErase, List.mem_filter, member, true_and, decide_eq_true_eq]
      rintro rfl
      exact other rfl

theorem run_inv {T : Nat} (bound : T < 2 ^ 64) {s t : Session} {ops : List PoolOp}
    (inv : SessionInv T s) (sizes : ∀ op ∈ ops, op.SizeOk) (done : run s ops = some t) :
    SessionInv T t :=
  Run.run_invariant (fun _ _ _ before ok stepped => (step_spec bound before ok stepped).1)
    inv (Run.Admits.of_forall (fun _ _ ok => ok) sizes) done

/-- A used slot stays recorded through every run that does not free it. -/
theorem run_keeps {T : Nat} (bound : T < 2 ^ 64) {s t : Session} {ops : List PoolOp} {slot : Slot}
    (inv : SessionInv T s) (sizes : ∀ op ∈ ops, op.SizeOk) (member : slot ∈ s.pool.pool.slotInUse)
    (kept : PoolOp.free slot.1 ∉ ops) (done : run s ops = some t) :
    slot ∈ t.pool.pool.slotInUse := by
  have both : SessionInv T t ∧ slot ∈ t.pool.pool.slotInUse := by
    have preserve : ∀ (u : Session) (op : PoolOp) (u' : Session),
        (SessionInv T u ∧ slot ∈ u.pool.pool.slotInUse) → (op.SizeOk ∧ op ≠ .free slot.1) →
        step u op = some u' → SessionInv T u' ∧ slot ∈ u'.pool.pool.slotInUse := by
      intro u op u' before ok stepped
      have spec := step_spec bound before.1 ok.1 stepped
      exact ⟨spec.1, spec.2 slot before.2 ok.2⟩
    have admissible : ∀ op ∈ ops, op.SizeOk ∧ op ≠ .free slot.1 :=
      fun op h => ⟨sizes op h, fun same => kept (same ▸ h)⟩
    exact Run.run_invariant preserve ⟨inv, member⟩
      (Run.Admits.of_forall (fun _ _ ok => ok) admissible) done
  exact both.2

/-- The tiling of the pool, spelled out for its client. -/
structure Tiling (T : Nat) (s : Session) : Prop where
  /-- every interval is non-empty -/
  nonempty : ∀ slot ∈ s.pool.pool.slotAvail ++ s.pool.pool.slotInUse, 0 < slot.2
  /-- the intervals are pairwise disjoint -/
  disjoint : (s.pool.pool.slotAvail ++ s.pool.pool.slotInUse).Pairwise Slot.Apart
  /-- their union is `[0, T)` -/
  union : ∀ point, (∃ slot ∈ s.pool.pool.slotAvail ++ s.pool.pool.slotInUse,
    slot.Contains point) ↔ point < T
  /-- no two free intervals are adjacent -/
  separate : ∀ a ∈ s.pool.pool.slotAvail, ∀ b ∈ s.pool.pool.slotAvail, a.1 + a.2 ≠ b.1
  /-- so the finders of `mem_pool_free` have at most one match each -/
  prevUnique : ∀ addr, s.pool.pool.slotAvail.countP (offsetPrevFinder addr) ≤ 1
  nextUnique : ∀ addr, s.pool.pool.slotAvail.countP (offsetNextFinder addr) ≤ 1
  /-- the counter is the size of the map -/
  count : s.pool.pool.numSlotsInUse = s.pool.pool.slotInUse.length
  /-- a live allocation owns a recorded region of at least the requested size inside `[0, T)` -/
  owned : ∀ entry ∈ s.live, ∃ slot ∈ s.pool.pool.slotInUse,
    slot.1 = entry.1 ∧ entry.2 ≤ slot.2 ∧ slot.1 + slot.2 ≤ T
  /-- no two live allocations share an address -/
  exclusive : (s.live.map Prod.fst).Nodup

theorem forall₂_mem_left {live : List (Nat × Nat)} {inUse : List Slot}
    (backed : List.Forall₂ Backs live inUse) {entry : Nat × Nat} (member : entry ∈ live) :
    ∃ slot ∈ inUse, Backs entry slot := by
  induction backed with
  | nil => cases member
  | cons backs _ ih =>
    rcases List.mem_cons.mp member with rfl | later
    · exact ⟨_, List.mem_cons_self, backs⟩
    · obtain ⟨slot, inside, holds⟩ := ih later
      exact ⟨slot, List.mem_cons_of_mem _ inside, holds⟩

theorem forall₂_map_fst {live : List (Nat × Nat)} {inUse : List Slot}
    (backed : List.Forall₂ Backs live inUse) : live.map Prod.fst = inUse.map Prod.fst := by
  induction backed with
  | nil => rfl
  | cons backs _ ih => rw [List.map_cons, List.map_cons, ih, backs.1]

/-- A property that excludes itself along a pairwise relation holds at most once. -/
theorem countP_le_one {R : Slot → Slot → Prop} {p : Slot → Bool} {slots : List Slot}
    (pairwise : slots.Pairwise R)
    (excludes : ∀ a ∈ slots, ∀ b ∈ slots, R a b → p a = true → p b = false) :
    slots.countP p ≤ 1 := by
  induction pairwise with
  | nil => simp
  | @cons head tail related _ ih =>
    by_cases hit : p head = true
    · have others : tail.countP p = 0 := by
        rw [List.countP_eq_zero]
        intro other member
        simp [excludes head (by simp) other (by simp [member]) (related other member) hit]
      simp [List.countP_cons_of_pos hit, others]
    · rw [List.countP_cons_of_neg hit]
      exact ih (fun a memberA b memberB => excludes a (List.mem_cons_of_mem _ memberA) b
        (List.mem_cons_of_mem _ memberB))

theorem SessionInv.tiling {T : Nat} {s : Session} (inv : SessionInv T s) (bound : T < 2 ^ 64) :
    Tiling T s where
  nonempty := inv.inv.tiles.nonempty
  disjoint := inv.inv.tiles.pairwise
  union := inv.inv.tiles.mem_iff
  separate := inv.inv.separate
  prevUnique := by
    intro addr
    refine countP_le_one (List.pairwise_append.mp inv.inv.tiles.pairwise).1 ?_
    intro a memberA b memberB apart hit
    have insideA := inv.inv.tiles.le_total (List.mem_append_left _ memberA)
    have insideB := inv.inv.tiles.le_total (List.mem_append_left _ memberB)
    have sizeA := inv.inv.nonempty_avail memberA
    have sizeB := inv.inv.nonempty_avail memberB
    rw [offsetPrevFinder_iff bound insideA] at hit
    rw [← Bool.not_eq_true, offsetPrevFinder_iff bound insideB]
    simp only [Slot.Apart] at apart
    omega
  nextUnique := by
    intro addr
    refine countP_le_one (List.pairwise_append.mp inv.inv.tiles.pairwise).1 ?_
    intro a memberA b memberB apart hit
    have sizeA := inv.inv.nonempty_avail memberA
    have sizeB := inv.inv.nonempty_avail memberB
    simp only [offsetNextFinder, decide_eq_true_eq, decide_eq_false_iff_not] at hit ⊢
    simp only [Slot.Apart] at apart
    omega
  count := inv.inv.count
  exclusive := by
    rw [forall₂_map_fst inv.live, List.Nodup, List.pairwise_map]
    refine (List.pairwise_append.mp inv.inv.tiles.pairwise).2.1.imp_of_mem ?_
    intro a b memberA memberB apart
    have sizeA := inv.inv.nonempty_inUse memberA
    have sizeB := inv.inv.nonempty_inUse memberB
    simp only [Slot.Apart] at apart
    omega
  owned := by
    intro entry member
    obtain ⟨slot, backed, same, large⟩ := forall₂_mem_left inv.live member
    exact ⟨slot, backed, same.symm, large, inv.inv.tiles.le_total (List.mem_append_right _ backed)⟩

/-- With nothing live the pool is back in one piece. -/
theorem SessionInv.drained {T : Nat} {s : Session} (inv : SessionInv T s) (pos : 0 < T)
    (drained : s.live = []) :
    s.pool.pool.slotAvail = [(0, T)] ∧ memPoolDestroy s.pool = true := by
  have noneUsed : s.pool.pool.slotInUse = [] := by
    have live := inv.live
    rw [drained, List.forall₂_nil_left_iff] at live
    exact live
  have tiles := inv.inv.tiles
  rw [noneUsed, List.append_nil] at tiles
  have whole := tiles.eq_singleton pos inv.inv.separate
  have count := inv.inv.count
  rw [noneUsed] at count
  refine ⟨whole, ?_⟩
  simp [memPoolDestroy, whole, noneUsed, count, inv.total]

/-- Every run from `mem_pool_create` that hits no assert leaves the pool tiled, a
    live region stays its owner's through every longer run that does not free it,
    and once everything is freed the pool is whole again and may be destroyed. -/
theorem memPool_run_tiling (T : Nat) (pos : 0 < T) (bound : T < addrInvalid) (ops : List PoolOp)
    (sizes : ∀ op ∈ ops, op.SizeOk) (s : Session) (done : run (create T) ops = some s) :
    Tiling T s ∧
      (∀ slot ∈ s.pool.pool.slotInUse, ∀ (more : List PoolOp) (t : Session),
        (∀ op ∈ more, op.SizeOk) → PoolOp.free slot.1 ∉ more → run s more = some t →
        slot ∈ t.pool.pool.slotInUse) ∧
      (s.live = [] → s.pool.pool.slotAvail = [(0, T)] ∧ memPoolDestroy s.pool = true) := by
  have range : T < 2 ^ 64 := by
    simp only [addrInvalid] at bound
    omega
  have inv := run_inv range (sessionInv_create pos) sizes done
  refine ⟨inv.tiling range, ?_, inv.drained pos⟩
  intro slot member more t moreSizes kept longer
  exact run_keeps range inv moreSizes member kept longer

/-- Two blocks, the first freed first: after the second is freed too, one slot is left. -/
theorem memPool_run_tiling_two_blocks :
    ∃ s, run (create 65536) [.alloc 1, .allocInBank 5000, .free 0, .free 4096] = some s ∧
      s.live = [] ∧ s.pool.pool.slotAvail = [(0, 65536)] ∧ memPoolDestroy s.pool = true := by
  refine ⟨{ pool := { totalSize := 65536, pool := ⟨0, [(0, 65536)], []⟩ }, live := [] },
    by decide, rfl, ?_⟩
  refine (memPool_run_tiling 65536 (by decide) (by decide)
    [.alloc 1, .allocInBank 5000, .free 0, .free 4096] ?_ _ (by decide)).2.2 rfl
  intro op member
  simp only [List.mem_cons, List.not_mem_nil, or_false] at member
  rcases member with rfl | rfl | rfl | rfl
  · exact ⟨by decide, by decide⟩
  · exact ⟨by decide, by decide⟩
  · trivial
  · trivial

end CviRuntime.MemPool
