import CviRuntime.MemPool.Model

/-!
# The pool's slots tile the pool

`Inv` is the invariant of the pool between calls, in terms of counts
(`Interval.Tiles`). Both allocators take one free slot out and put back what is
left of it (`Carve`); `mem_pool_free` glues the block to its free neighbours.
-/

namespace CviRuntime.MemPool

open CviRuntime.Interval

theorem u64_of_lt {value : Nat} (h : value < 2 ^ 64) : u64 value = value := Nat.mod_eq_of_lt h

/-- The pool between two calls: free and used slots together tile `[0, T)`, free
    slots never touch, and the counter counts. -/
structure Inv (T : Nat) (P : PoolStruct) : Prop where
  tiles : Tiles T (P.slotAvail ++ P.slotInUse)
  separate : ∀ a ∈ P.slotAvail, ∀ b ∈ P.slotAvail, a.1 + a.2 ≠ b.1
  rounded : ∀ slot ∈ P.slotInUse, slot.2 % minSlotSize = 0
  count : P.numSlotsInUse = P.slotInUse.length

theorem inv_create {T : Nat} (pos : 0 < T) : Inv T (memPoolCreate T).pool where
  tiles := {
    nonempty := by
      intro slot member
      simp only [memPoolCreate, List.append_nil, List.mem_singleton] at member
      rw [member]
      exact pos
    once := by
      intro point
      simp only [memPoolCreate, List.append_nil, cover_cons, cover_nil, Slot.Contains]
      simp }
  separate := by
    intro a memberA b memberB
    simp only [memPoolCreate, List.mem_singleton] at memberA memberB
    subst memberA memberB
    simp only [ne_eq]
    omega
  rounded := by simp [memPoolCreate]
  count := by simp [memPoolCreate]

/-! ## The finders -/

theorem findSlotLoop_mem (size : Nat) :
    ∀ (slots : List Slot) (index : Nat) (itMin : Option Nat) (minSize found : Nat),
      findSlotLoop size slots index itMin minSize = some found →
      itMin = some found ∨
        ∃ slot, index ≤ found ∧ slots[found - index]? = some slot ∧ size ≤ slot.2 := by
  intro slots
  induction slots with
  | nil =>
    intro index itMin minSize found h
    exact Or.inl h
  | cons slot rest ih =>
    intro index itMin minSize found h
    have later : ∀ (it : Option Nat) (m : Nat),
        findSlotLoop size rest (index + 1) it m = some found →
        it = some found ∨ ∃ s, index ≤ found ∧ (slot :: rest)[found - index]? = some s ∧
          size ≤ s.2 := by
      intro it m hit
      rcases ih (index + 1) it m found hit with same | ⟨s, le, entry, fits⟩
      · exact Or.inl same
      · refine Or.inr ⟨s, by omega, ?_, fits⟩
        rw [show found - index = found - (index + 1) + 1 by omega, List.getElem?_cons_succ]
        exact entry
    unfold findSlotLoop at h
    split at h
    · rename_i enough
      rcases later _ _ h with same | right
      · obtain rfl := Option.some.inj same
        exact Or.inr ⟨slot, Nat.le_refl _, by simp, enough.1⟩
      · exact Or.inr right
    · exact later _ _ h

theorem findSlotInBankLoop_mem (size : Nat) :
    ∀ (slots : List Slot) (index found : Nat) (findCase : FindCase),
      findSlotInBankLoop size slots index = some (found, findCase) →
      ∃ slot, index ≤ found ∧ slots[found - index]? = some slot ∧ size ≤ slot.2 := by
  intro slots
  induction slots with
  | nil =>
    intro index found findCase h
    simp [findSlotInBankLoop] at h
  | cons slot rest ih =>
    intro index found findCase h
    unfold findSlotInBankLoop at h
    split at h
    · rename_i enough
      cases h
      exact ⟨slot, Nat.le_refl _, by simp, enough.1⟩
    · split at h
      · rename_i enough
        cases h
        exact ⟨slot, Nat.le_refl _, by simp, enough.1⟩
      · obtain ⟨s, le, entry, fits⟩ := ih (index + 1) found findCase h
        refine ⟨s, by omega, ?_, fits⟩
        rw [show found - index = found - (index + 1) + 1 by omega, List.getElem?_cons_succ]
        exact entry

/-! ## Carving a block out of a free slot -/

/-- `[addr, addr + size)` is cut off one end of the free slot `slot`; `left` is what stays free. -/
inductive Cut (slot : Slot) (size : Nat) : Nat → List Slot → Prop
  | whole : slot.2 = size → Cut slot size slot.1 []
  | head : size < slot.2 → Cut slot size slot.1 [(slot.1 + size, slot.2 - size)]
  | tail : size < slot.2 → Cut slot size (slot.1 + slot.2 - size) [(slot.1, slot.2 - size)]

/-- What both finders do to the pool when they find a slot. -/
structure Carve (P : PoolStruct) (size addr : Nat) (P' : PoolStruct) : Prop where
  num : P'.numSlotsInUse = P.numSlotsInUse
  inUse : P'.slotInUse = mapInsert P.slotInUse (addr, size)
  avail : ∃ slot left rest, P.slotAvail.Perm (slot :: rest) ∧ Cut slot size addr left ∧
    P'.slotAvail.Perm (left ++ rest)

/-- A cut of entry `index` of the free list, by erasing it or by overwriting it. -/
theorem carve_of_edit {P : PoolStruct} {T size index addr : Nat} {slot : Slot} {cut : Slot}
    (inv : Inv T P) (bound : T < 2 ^ 64) (entry : P.slotAvail[index]? = some slot)
    (fits : size ≤ slot.2)
    (piece : size < slot.2 → (addr = slot.1 ∧ cut = (u64 (slot.1 + size), slot.2 - size)) ∨
      (addr = u64 (slot.1 + slot.2 - size) ∧ cut = (slot.1, slot.2 - size)))
    (all : slot.2 = size → addr = slot.1) :
    Carve P size addr { P with
      slotAvail := if slot.2 = size then P.slotAvail.eraseIdx index else P.slotAvail.set index cut
      slotInUse := mapInsert P.slotInUse (addr, size) } := by
  have inside : slot.1 + slot.2 ≤ T := inv.tiles.le_total
    (List.mem_append_left _ (List.mem_of_getElem? entry))
  refine ⟨rfl, rfl, ?_⟩
  by_cases exact : slot.2 = size
  · refine ⟨slot, [], P.slotAvail.eraseIdx index, perm_cons_eraseIdx entry, ?_, ?_⟩
    · rw [all exact]
      exact Cut.whole exact
    · simp [exact]
  · have smaller : size < slot.2 := by omega
    refine ⟨slot, [cut], P.slotAvail.eraseIdx index, perm_cons_eraseIdx entry, ?_, ?_⟩
    · rcases piece smaller with ⟨rfl, rfl⟩ | ⟨rfl, rfl⟩
      · rw [u64_of_lt (by omega)]
        exact Cut.head smaller
      · rw [u64_of_lt (by omega)]
        exact Cut.tail smaller
    · simpa [exact] using set_perm_cons_eraseIdx entry cut

theorem findSlot_carve {P P' : PoolStruct} {T size addr : Nat} (inv : Inv T P)
    (bound : T < 2 ^ 64) (found : findSlot P size = some (addr, P')) (valid : addr ≠ addrInvalid) :
    size % minSlotSize = 0 ∧ Carve P size addr P' := by
  unfold findSlot at found
  split at found
  · cases found
  · rename_i rounded
    refine ⟨by simpa using rounded, ?_⟩
    split at found
    · cases found
      exact absurd rfl valid
    · rename_i index hit
      split at found
      · cases found
      · rename_i slotAddr slotSize entry
        split at found
        · cases found
          exact absurd rfl valid
        · cases found
          rcases findSlotLoop_mem size _ _ _ _ _ hit with absurdHit | ⟨slot, -, entry', fits⟩
          · cases absurdHit
          · rw [Nat.sub_zero, entry] at entry'
            cases entry'
            exact carve_of_edit inv bound entry fits (fun _ => Or.inl ⟨rfl, rfl⟩) (fun _ => rfl)

theorem findSlotInBank_carve {P P' : PoolStruct} {T size addr : Nat} (inv : Inv T P)
    (bound : T < 2 ^ 64) (found : findSlotInBank P size = some (addr, P'))
    (valid : addr ≠ addrInvalid) : size % minSlotSize = 0 ∧ Carve P size addr P' := by
  unfold findSlotInBank at found
  split at found
  · cases found
  · rename_i rounded
    refine ⟨by simpa using rounded, ?_⟩
    split at found
    · cases found
      exact absurd rfl valid
    · rename_i index findCase hit
      split at found
      · cases found
      · rename_i slotAddr slotSize entry
        obtain ⟨slot, -, entry', fits⟩ := findSlotInBankLoop_mem size _ _ _ _ hit
        rw [Nat.sub_zero, entry] at entry'
        cases entry'
        have inside : slotAddr + slotSize ≤ T := inv.tiles.le_total
          (List.mem_append_left _ (List.mem_of_getElem? entry))
        cases findCase with
        | head =>
          cases found
          exact carve_of_edit inv bound entry fits (fun _ => Or.inl ⟨rfl, rfl⟩) (fun _ => rfl)
        | tail =>
          cases found
          refine carve_of_edit inv bound entry fits (fun _ => Or.inr ⟨rfl, rfl⟩) ?_
          rintro rfl
          rw [u64_of_lt (by simp only at inside ⊢; omega)]
          simp

/-! ## Allocation -/

/-- What a cut leaves free together with the block covers what the slot covered. -/
theorem Cut.cover_eq {slot : Slot} {size addr : Nat} {left : List Slot}
    (cut : Cut slot size addr left) (rest : List Slot) (point : Nat) :
    cover (slot :: rest) point = cover ((addr, size) :: (left ++ rest)) point := by
  cases cut with
  | whole same =>
    subst same
    rfl
  | head smaller =>
    have glued := cover_cut slot.1 size (slot.2 - size) rest point
    rw [Nat.add_sub_cancel' (Nat.le_of_lt smaller)] at glued
    exact glued
  | tail smaller =>
    have glued := cover_cut slot.1 (slot.2 - size) size rest point
    rw [Nat.sub_add_cancel (Nat.le_of_lt smaller)] at glued
    rw [show slot.1 + slot.2 - size = slot.1 + (slot.2 - size) by omega]
    exact glued.trans (cover_perm (List.Perm.swap _ _ _) point)

theorem Cut.left_sub {slot piece : Slot} {size addr : Nat} {left : List Slot}
    (cut : Cut slot size addr left) (pos : 0 < size) (member : piece ∈ left) :
    0 < piece.2 ∧ slot.1 ≤ piece.1 ∧ piece.1 + piece.2 ≤ slot.1 + slot.2 ∧
      (piece.1 = slot.1 ∨ piece.1 + piece.2 = slot.1 + slot.2) := by
  cases cut with
  | whole same => cases member
  | head smaller =>
    rw [List.mem_singleton.mp member]
    simp only
    omega
  | tail smaller =>
    rw [List.mem_singleton.mp member]
    refine ⟨?_, Nat.le_refl _, ?_, Or.inl rfl⟩ <;> simp only <;> omega

theorem Cut.left_unique {slot a b : Slot} {size addr : Nat} {left : List Slot}
    (cut : Cut slot size addr left) (memberA : a ∈ left) (memberB : b ∈ left) : a = b := by
  cases cut with
  | whole same => cases memberA
  | head smaller => rw [List.mem_singleton.mp memberA, List.mem_singleton.mp memberB]
  | tail smaller => rw [List.mem_singleton.mp memberA, List.mem_singleton.mp memberB]

/-- No entry of the map has the address of a slot that a free slot starts or ends with. -/
theorem mapInsert_of_fresh {entries : List Slot} {entry : Slot}
    (fresh : ∀ e ∈ entries, e.1 ≠ entry.1) : mapInsert entries entry = entry :: entries := by
  have absent : entries.any (fun e => e.1 = entry.1) = false := by
    rw [List.any_eq_false]
    intro e member
    simpa using fresh e member
  unfold mapInsert
  rw [absent]
  rfl

theorem Cut.addr_inside {slot : Slot} {size addr : Nat} {left : List Slot}
    (cut : Cut slot size addr left) :
    slot.1 ≤ addr ∧ addr + size ≤ slot.1 + slot.2 := by
  cases cut with
  | whole same => omega
  | head smaller => omega
  | tail smaller => omega

/-- Free and used slots tile, so a used slot never starts inside a free one. -/
theorem Inv.apart_avail_inUse {T : Nat} {P : PoolStruct} (inv : Inv T P) {slot used : Slot}
    {rest : List Slot} (perm : P.slotAvail.Perm (slot :: rest)) (member : used ∈ P.slotInUse) :
    slot.Apart used := by
  have perm' : (P.slotAvail ++ P.slotInUse).Perm
      (slot :: used :: (rest ++ P.slotInUse.erase used)) := by
    refine (perm.append (List.perm_cons_erase member)).trans ?_
    simp only [List.cons_append]
    exact List.perm_middle.cons slot
  exact inv.tiles.apart perm'

/-- Two free slots at different places are apart. -/
theorem Inv.apart_avail {T : Nat} {P : PoolStruct} (inv : Inv T P) {slot other : Slot}
    {rest : List Slot} (perm : P.slotAvail.Perm (slot :: rest)) (member : other ∈ rest) :
    slot.Apart other := by
  have perm' : (P.slotAvail ++ P.slotInUse).Perm
      (slot :: other :: (rest.erase other ++ P.slotInUse)) :=
    (perm.trans ((List.perm_cons_erase member).cons slot)).append_right _
  exact inv.tiles.apart perm'

theorem Inv.nonempty_avail {T : Nat} {P : PoolStruct} (inv : Inv T P) {slot : Slot}
    (member : slot ∈ P.slotAvail) : 0 < slot.2 :=
  inv.tiles.nonempty slot (List.mem_append_left _ member)

theorem Inv.nonempty_inUse {T : Nat} {P : PoolStruct} (inv : Inv T P) {slot : Slot}
    (member : slot ∈ P.slotInUse) : 0 < slot.2 :=
  inv.tiles.nonempty slot (List.mem_append_right _ member)

/-- The block that is carved out is new to the map. -/
theorem Carve.inUse_eq {T size addr : Nat} {P P' : PoolStruct} (inv : Inv T P)
    (carve : Carve P size addr P') (pos : 0 < size) :
    P'.slotInUse = (addr, size) :: P.slotInUse := by
  obtain ⟨slot, left, rest, perm, cut, -⟩ := carve.avail
  rw [carve.inUse]
  apply mapInsert_of_fresh
  intro used member
  have apart := inv.apart_avail_inUse perm member
  have inside := cut.addr_inside
  have nonempty := inv.nonempty_inUse member
  simp only [Slot.Apart] at apart
  simp only [ne_eq]
  omega

theorem Carve.inv {T size addr : Nat} {P P' : PoolStruct} (inv : Inv T P)
    (carve : Carve P size addr P') (pos : 0 < size) (rounded : size % minSlotSize = 0) :
    Inv T { P' with numSlotsInUse := P'.numSlotsInUse + 1 } := by
  have inUse := carve.inUse_eq inv pos
  obtain ⟨slot, left, rest, perm, cut, perm'⟩ := carve.avail
  have slotMember : slot ∈ P.slotAvail := perm.mem_iff.mpr (by simp)
  have restMember : ∀ other ∈ rest, other ∈ P.slotAvail :=
    fun other member => perm.mem_iff.mpr (List.mem_cons_of_mem _ member)
  have availMember : ∀ other ∈ P'.slotAvail, other ∈ left ∨ other ∈ rest :=
    fun other member => List.mem_append.mp (perm'.mem_iff.mp member)
  refine ⟨⟨?_, ?_⟩, ?_, ?_, ?_⟩
  · intro other member
    rcases List.mem_append.mp member with free | used
    · rcases availMember other free with piece | old
      · exact (cut.left_sub pos piece).1
      · exact inv.nonempty_avail (restMember other old)
    · simp only [inUse, List.mem_cons] at used
      rcases used with rfl | old
      · exact pos
      · exact inv.nonempty_inUse old
  · intro point
    have before := inv.tiles.once point
    rw [cover_append, cover_perm perm, cut.cover_eq rest point] at before
    simp only [inUse]
    rw [cover_append, cover_perm perm', ← before, cover_cons, cover_cons]
    omega
  · intro a memberA b memberB
    simp only at memberA memberB
    rcases availMember a memberA with pieceA | restA <;>
      rcases availMember b memberB with pieceB | restB
    · have := cut.left_sub pos pieceA
      rw [cut.left_unique pieceA pieceB] at this ⊢
      omega
    · -- a piece of the cut slot in front of an old slot
      have sub := cut.left_sub pos pieceA
      have apart := inv.apart_avail perm restB
      have far := inv.separate slot slotMember b (restMember b restB)
      have nonempty := inv.nonempty_avail (restMember b restB)
      simp only [Slot.Apart] at apart
      omega
    · -- an old slot in front of a piece of the cut slot
      have sub := cut.left_sub pos pieceB
      have apart := inv.apart_avail perm restA
      have far := inv.separate a (restMember a restA) slot slotMember
      have nonempty := inv.nonempty_avail (restMember a restA)
      simp only [Slot.Apart] at apart
      omega
    · exact inv.separate a (restMember a restA) b (restMember b restB)
  · intro used member
    simp only [inUse, List.mem_cons] at member
    rcases member with rfl | old
    · exact rounded
    · exact inv.rounded used old
  · simp only [inUse, carve.num, inv.count, List.length_cons]
    omega

/-- The rounded size of an admissible request is positive and large enough. -/
theorem sizeToAlloc_spec {size : Nat} (pos : 0 < size)
    (noWrap : size + (minSlotSize - 1) < 2 ^ 64) :
    0 < sizeToAlloc size ∧ size ≤ sizeToAlloc size := by
  unfold sizeToAlloc
  simp only [minSlotSize] at noWrap ⊢
  rw [u64_of_lt (by omega)]
  omega

/-- What a successful allocation does, for either finder. -/
theorem allocWith_spec {find : PoolStruct → Nat → Option (Nat × PoolStruct)} {T size addr : Nat}
    {pool pool' : Pool} (inv : Inv T pool.pool)
    (finds : ∀ P' a, find pool.pool (sizeToAlloc size) = some (a, P') → a ≠ addrInvalid →
      sizeToAlloc size % minSlotSize = 0 ∧ Carve pool.pool (sizeToAlloc size) a P')
    (pos : 0 < size) (noWrap : size + (minSlotSize - 1) < 2 ^ 64)
    (ok : allocWith find pool size = some (addr, pool')) :
    pool'.totalSize = pool.totalSize ∧ Inv T pool'.pool ∧
      pool'.pool.slotInUse = (addr, sizeToAlloc size) :: pool.pool.slotInUse := by
  have positive := (sizeToAlloc_spec pos noWrap).1
  unfold allocWith at ok
  split at ok
  · cases ok
  · split at ok
    · cases ok
    · rename_i a P' hit
      split at ok
      · cases ok
      · rename_i valid
        split at ok
        · cases ok
        · cases ok
          obtain ⟨rounded, carve⟩ := finds P' addr hit valid
          have inUse := carve.inUse_eq inv positive
          exact ⟨rfl, carve.inv inv positive rounded, inUse⟩

/-! ## Freeing -/

theorem mapFind_mem {entries : List Slot} {addr size : Nat}
    (found : mapFind entries addr = some size) : (addr, size) ∈ entries := by
  unfold mapFind at found
  obtain ⟨entry, hit, rfl⟩ := Option.map_eq_some_iff.mp found
  have key := List.find?_some hit
  simp only [decide_eq_true_eq] at key
  rw [← key]
  exact List.mem_of_find?_eq_some hit

/-- Used slots have different addresses, so erasing a key removes one entry. -/
theorem Inv.inUse_perm {T : Nat} {P : PoolStruct} (inv : Inv T P) {addr size : Nat}
    (member : (addr, size) ∈ P.slotInUse) :
    P.slotInUse.Perm ((addr, size) :: mapErase P.slotInUse addr) := by
  have perm := List.perm_cons_erase member
  refine perm.trans (List.Perm.cons _ ?_)
  have others : ∀ other ∈ P.slotInUse.erase (addr, size), other.1 ≠ addr := by
    intro other rest same
    have both : (P.slotAvail ++ P.slotInUse).Perm ((addr, size) :: other ::
        ((P.slotInUse.erase (addr, size)).erase other ++ P.slotAvail)) :=
      List.perm_append_comm.trans
        ((perm.trans ((List.perm_cons_erase rest).cons _)).append_right _)
    have apart := inv.tiles.apart both
    have sizeA := inv.nonempty_inUse member
    have sizeB := inv.nonempty_inUse (List.mem_of_mem_erase rest)
    simp only [Slot.Apart] at apart
    simp only at sizeA
    omega
  have filtered := perm.filter (fun e => decide (e.1 ≠ addr))
  have keep : (P.slotInUse.erase (addr, size)).filter (fun e => decide (e.1 ≠ addr)) =
      P.slotInUse.erase (addr, size) := by
    rw [List.filter_eq_self]
    intro other rest
    simpa using others other rest
  unfold mapErase
  rw [List.filter_cons_of_neg (by simp), keep] at filtered
  exact filtered.symm

/-- The block `[addr, addr + size)` given back to the free list `avail`, maximally glued. -/
structure Glued (avail : List Slot) (addr size : Nat) (avail' : List Slot) : Prop where
  cover_eq : ∀ point, cover avail' point = cover ((addr, size) :: avail) point
  nonempty : ∀ slot ∈ avail', 0 < slot.2
  separate : ∀ a ∈ avail', ∀ b ∈ avail', a.1 + a.2 ≠ b.1

/-- The facts about the free list that the merge relies on: the block lies apart from the
    free slots, and everything lies below `T`. -/
structure Mergeable (T : Nat) (avail : List Slot) (addr size : Nat) : Prop where
  bound : T < 2 ^ 64
  pos : 0 < size
  below : addr + size ≤ T
  apart : ∀ slot ∈ avail, slot.Apart (addr, size)
  nonempty : ∀ slot ∈ avail, 0 < slot.2
  inside : ∀ slot ∈ avail, slot.1 + slot.2 ≤ T
  separate : ∀ a ∈ avail, ∀ b ∈ avail, a.1 + a.2 ≠ b.1

theorem findIdx?_spec {p : Slot → Bool} {slots : List Slot} {index : Nat}
    (found : slots.findIdx? p = some index) :
    ∃ slot, slots[index]? = some slot ∧ p slot = true := by
  obtain ⟨lt, holds, -⟩ := List.findIdx?_eq_some_iff_getElem.mp found
  exact ⟨slots[index], List.getElem?_eq_getElem lt, holds⟩

theorem offsetPrevFinder_iff {T addr : Nat} {slot : Slot} (bound : T < 2 ^ 64)
    (inside : slot.1 + slot.2 ≤ T) :
    offsetPrevFinder addr slot = true ↔ slot.1 + slot.2 = addr := by
  unfold offsetPrevFinder
  rw [u64_of_lt (by omega), decide_eq_true_eq]

section Merge

variable {T addr size : Nat} {avail : List Slot}

theorem Mergeable.no_prev (m : Mergeable T avail addr size)
    (missed : avail.findIdx? (offsetPrevFinder addr) = none) :
    ∀ slot ∈ avail, slot.1 + slot.2 ≠ addr := by
  intro slot member touch
  have miss := List.findIdx?_eq_none_iff.mp missed slot member
  rw [(offsetPrevFinder_iff m.bound (m.inside slot member)).mpr touch] at miss
  cases miss

theorem Mergeable.no_next (m : Mergeable T avail addr size)
    (missed : avail.findIdx? (offsetNextFinder (u64 (addr + size))) = none) :
    ∀ slot ∈ avail, addr + size ≠ slot.1 := by
  intro slot member touch
  have miss := List.findIdx?_eq_none_iff.mp missed slot member
  have := m.bound
  have := m.below
  rw [u64_of_lt (by omega)] at miss
  simp [offsetNextFinder, touch] at miss

theorem Mergeable.prev (m : Mergeable T avail addr size) {index : Nat}
    (found : avail.findIdx? (offsetPrevFinder addr) = some index) :
    ∃ slot, avail[index]? = some slot ∧ slot ∈ avail ∧ slot.1 + slot.2 = addr := by
  obtain ⟨slot, entry, holds⟩ := findIdx?_spec found
  have member := List.mem_of_getElem? entry
  exact ⟨slot, entry, member, (offsetPrevFinder_iff m.bound (m.inside slot member)).mp holds⟩

theorem Mergeable.next (m : Mergeable T avail addr size) {index : Nat}
    (found : avail.findIdx? (offsetNextFinder (u64 (addr + size))) = some index) :
    ∃ slot, avail[index]? = some slot ∧ slot ∈ avail ∧ slot.1 = addr + size := by
  obtain ⟨slot, entry, holds⟩ := findIdx?_spec found
  have := m.bound
  have := m.below
  rw [u64_of_lt (by omega)] at holds
  exact ⟨slot, entry, List.mem_of_getElem? entry, by simpa [offsetNextFinder] using holds⟩

/-- The glued slot `glued` replaces the free slots `used`; it keeps away from the remaining
    ones when its ends do. -/
theorem Mergeable.glue (m : Mergeable T avail addr size) {glued : Slot} {rest avail' : List Slot}
    (used : List Slot)
    (perm : avail.Perm (used ++ rest)) (perm' : avail'.Perm (glued :: rest))
    (covers : ∀ point, cover [glued] point = cover ((addr, size) :: used) point)
    (pos : 0 < glued.2)
    (front : ∀ slot ∈ rest, slot.1 + slot.2 ≠ glued.1)
    (back : ∀ slot ∈ rest, glued.1 + glued.2 ≠ slot.1) : Glued avail addr size avail' := by
  have restMember : ∀ slot ∈ rest, slot ∈ avail :=
    fun slot member => perm.mem_iff.mpr (List.mem_append_right _ member)
  have member' : ∀ slot ∈ avail', slot = glued ∨ slot ∈ rest :=
    fun slot member => List.mem_cons.mp (perm'.mem_iff.mp member)
  refine ⟨?_, ?_, ?_⟩
  · intro point
    have split := covers point
    rw [cover_perm perm', cover_cons, cover_perm (perm.cons _), ← List.cons_append, cover_append,
      ← split, cover_cons, cover_nil]
    omega
  · intro slot member
    rcases member' slot member with rfl | old
    · exact pos
    · exact m.nonempty slot (restMember slot old)
  · intro a memberA b memberB
    rcases member' a memberA with rfl | oldA <;> rcases member' b memberB with rfl | oldB
    · omega
    · exact back b oldB
    · exact front a oldA
    · exact m.separate a (restMember a oldA) b (restMember b oldB)

/-- The four-way merge of `mem_pool_free` gives the block back maximally glued. -/
theorem mergeSlot_glued (m : Mergeable T avail addr size) :
    Glued avail addr size (mergeSlot avail addr size) := by
  have bound := m.bound
  have below := m.below
  unfold mergeSlot
  cases prevAt : avail.findIdx? (offsetPrevFinder addr) with
  | none =>
    have noPrev := m.no_prev prevAt
    cases nextAt : avail.findIdx? (offsetNextFinder (u64 (addr + size))) with
    | none =>
      have noNext := m.no_next nextAt
      exact m.glue [] (List.Perm.refl avail) (List.perm_append_singleton _ _) (fun _ => rfl) m.pos
        noPrev noNext
    | some next =>
      obtain ⟨slot, entry, member, start⟩ := m.next nextAt
      have inside := m.inside slot member
      have perm := perm_cons_eraseIdx entry
      simp only [entry]
      rw [u64_of_lt (by omega), Nat.add_comm slot.2 size]
      refine m.glue [slot] perm (set_perm_cons_eraseIdx entry _) ?_ (Nat.add_pos_left m.pos _) ?_ ?_
      · intro point
        rw [cover_cut, ← start]
      · intro other rest
        exact noPrev other (perm.mem_iff.mpr (List.mem_cons_of_mem _ rest))
      · intro other rest
        have far := m.separate slot member other (perm.mem_iff.mpr (List.mem_cons_of_mem _ rest))
        simp only
        omega
  | some prev =>
    obtain ⟨slot, entry, member, stop⟩ := m.prev prevAt
    have inside := m.inside slot member
    cases nextAt : avail.findIdx? (offsetNextFinder (u64 (addr + size))) with
    | none =>
      have noNext := m.no_next nextAt
      have perm := perm_cons_eraseIdx entry
      simp only [entry]
      rw [u64_of_lt (by omega)]
      refine m.glue [slot] perm (set_perm_cons_eraseIdx entry _) ?_
        (Nat.add_pos_right _ m.pos) ?_ ?_
      · intro point
        rw [cover_cut, stop]
        exact cover_perm (List.Perm.swap _ _ _) point
      · intro other rest
        exact m.separate other (perm.mem_iff.mpr (List.mem_cons_of_mem _ rest)) slot member
      · intro other rest
        have far := noNext other (perm.mem_iff.mpr (List.mem_cons_of_mem _ rest))
        simp only
        omega
    | some next =>
      obtain ⟨slotN, entryN, memberN, startN⟩ := m.next nextAt
      have insideN := m.inside slotN memberN
      have distinct : prev ≠ next := by
        rintro rfl
        rw [entry] at entryN
        cases entryN
        have := m.pos
        omega
      simp only [entry, entryN]
      rw [u64_of_lt (by omega)]
      obtain ⟨rest, perm, perm'⟩ := set_eraseIdx_perm (slot.1, slot.2 + (size + slotN.2)) distinct
        entry entryN
      have restMember : ∀ other ∈ rest, other ∈ avail := fun other h =>
        perm.mem_iff.mpr (List.mem_cons_of_mem _ (List.mem_cons_of_mem _ h))
      refine m.glue [slot, slotN] perm perm' ?_ ?_ ?_ ?_
      · intro point
        rw [cover_cut, stop, cover_perm (List.Perm.swap _ _ _), cover_cut, ← startN]
        simp only [cover_cons, Prod.eta]
        omega
      · have := m.pos
        simp only
        omega
      · intro other h
        exact m.separate other (restMember other h) slot member
      · intro other h
        have far := m.separate slotN memberN other (restMember other h)
        simp only
        omega

end Merge

/-- What a successful free does. -/
theorem memPoolFree_spec {T addr : Nat} {pool pool' : Pool} (inv : Inv T pool.pool)
    (bound : T < 2 ^ 64) (ok : memPoolFree pool addr = some pool') :
    pool'.totalSize = pool.totalSize ∧ Inv T pool'.pool ∧
      pool'.pool.slotInUse = mapErase pool.pool.slotInUse addr ∧
      addr ∈ pool.pool.slotInUse.map Prod.fst := by
  unfold memPoolFree at ok
  split at ok
  · cases ok
  · rename_i size found
    have member := mapFind_mem found
    have perm := inv.inUse_perm member
    split at ok
    · cases ok
    · cases ok
      have mergeable : Mergeable T pool.pool.slotAvail addr size := {
        bound := bound
        pos := inv.nonempty_inUse member
        below := inv.tiles.le_total (List.mem_append_right _ member)
        apart := fun slot free =>
          inv.apart_avail_inUse (List.perm_cons_erase free) member
        nonempty := fun slot free => inv.nonempty_avail free
        inside := fun slot free => inv.tiles.le_total (List.mem_append_left _ free)
        separate := inv.separate }
      have glued := mergeSlot_glued mergeable
      refine ⟨rfl, ⟨⟨?_, ?_⟩, glued.separate, ?_, ?_⟩, rfl,
        List.mem_map.mpr ⟨_, member, rfl⟩⟩
      · intro slot inList
        rcases List.mem_append.mp inList with free | used
        · exact glued.nonempty slot free
        · exact inv.nonempty_inUse (perm.mem_iff.mpr (List.mem_cons_of_mem _ used))
      · intro point
        have before := inv.tiles.once point
        rw [cover_append, cover_perm perm, cover_cons] at before
        simp only
        rw [cover_append, glued.cover_eq, cover_cons, ← before]
        omega
      · intro slot used
        exact inv.rounded slot (perm.mem_iff.mpr (List.mem_cons_of_mem _ used))
      · have length := perm.length_eq
        have count := inv.count
        simp only [List.length_cons] at length
        simp only
        omega

end CviRuntime.MemPool
