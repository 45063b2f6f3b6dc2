import CviRuntime.MemPool.Tiling

/-!
# What the two finders choose

`find_slot` (`mmpool.cpp:678-708`) is best fit and `find_slot_in_bank`
(`mmpool.cpp:832-880`) is first fit among the heads and the tails of the free
slots. Both are described here exactly, for the choice and for the pool they
leave. `MEM_POOL_ADDR_INVALID` is an ordinary number: a free slot that starts
there is cut and reported as exhaustion.
-/

namespace CviRuntime.MemPool

open CviRuntime.Interval

/-! ## `find_slot` -/

/-- Entry `index` is the first of the smallest slots that have `size` bytes. -/
structure BestFit (slots : List Slot) (size index : Nat) (slot : Slot) : Prop where
  entry : slots[index]? = some slot
  fits : size ≤ slot.2
  least : ∀ other ∈ slots, size ≤ other.2 → slot.2 ≤ other.2
  first : ∀ i other, i < index → slots[i]? = some other → size ≤ other.2 → slot.2 < other.2

/-- What `it_min` and `min_size_among_sufficient` say about the slots already seen. -/
inductive Running (seen : List Slot) (size : Nat) : Option Nat → Nat → Prop
  | unset : (∀ slot ∈ seen, slot.2 < size) → Running seen size none 0
  | best (index : Nat) (slot : Slot) :
      BestFit seen size index slot → Running seen size (some index) slot.2

/-- A slot that is too small, or not smaller than the best one, leaves the best one in place. -/
theorem BestFit.skip {seen : List Slot} {size index : Nat} {slot next : Slot}
    (best : BestFit seen size index slot) (worse : size ≤ next.2 → slot.2 ≤ next.2) :
    BestFit (seen ++ [next]) size index slot where
  entry := by
    rw [List.getElem?_append_left (List.getElem?_eq_some_iff.mp best.entry).1]
    exact best.entry
  fits := best.fits
  least := by
    intro other member enough
    rcases List.mem_append.mp member with old | new
    · exact best.least other old enough
    · rw [List.mem_singleton.mp new] at enough ⊢
      exact worse enough
  first := by
    intro i other before entry
    have inSeen : index < seen.length := (List.getElem?_eq_some_iff.mp best.entry).1
    rw [List.getElem?_append_left (by omega)] at entry
    exact best.first i other before entry

/-- A sufficient slot smaller than all sufficient ones before it becomes the best one. -/
theorem BestFit.take {seen : List Slot} {size : Nat} {next : Slot} (fits : size ≤ next.2)
    (smaller : ∀ other ∈ seen, size ≤ other.2 → next.2 < other.2) :
    BestFit (seen ++ [next]) size seen.length next where
  entry := by simp
  fits := fits
  least := by
    intro other member enough
    rcases List.mem_append.mp member with old | new
    · exact Nat.le_of_lt (smaller other old enough)
    · rw [List.mem_singleton.mp new]
  first := by
    intro i other before entry
    rw [List.getElem?_append_left before] at entry
    exact smaller other (List.mem_of_getElem? entry)

/-- The loop keeps `Running`; with a positive size the value 0 of
    `min_size_among_sufficient` never stands for a slot. -/
theorem findSlotLoop_running {size : Nat} (pos : 0 < size) :
    ∀ (rest seen : List Slot) (itMin : Option Nat) (minSize : Nat),
      Running seen size itMin minSize →
      ∃ minSize', Running (seen ++ rest) size (findSlotLoop size rest seen.length itMin minSize)
        minSize' := by
  intro rest
  induction rest with
  | nil =>
    intro seen itMin minSize running
    rw [List.append_nil]
    exact ⟨minSize, running⟩
  | cons slot rest ih =>
    intro seen itMin minSize running
    have next : ∀ it m, Running (seen ++ [slot]) size it m →
        ∃ minSize', Running (seen ++ slot :: rest) size
          (findSlotLoop size rest (seen.length + 1) it m) minSize' := by
      intro it m running'
      have later := ih (seen ++ [slot]) it m running'
      rwa [List.append_assoc, List.singleton_append, List.length_append,
        List.length_singleton] at later
    unfold findSlotLoop
    cases running with
    | unset small =>
      by_cases enough : size ≤ slot.2
      · rw [if_pos ⟨enough, Or.inl rfl⟩]
        refine next _ _ (Running.best _ slot (BestFit.take enough ?_))
        intro other member fits
        have := small other member
        omega
      · rw [if_neg (fun both => enough both.1)]
        refine next _ _ (Running.unset ?_)
        intro other member
        rcases List.mem_append.mp member with old | new
        · exact small other old
        · rw [List.mem_singleton.mp new]
          omega
    | best index current best =>
      have fits := best.fits
      by_cases smaller : size ≤ slot.2 ∧ slot.2 < current.2
      · rw [if_pos ⟨smaller.1, Or.inr smaller.2⟩]
        refine next _ _ (Running.best _ slot (BestFit.take smaller.1 ?_))
        intro other member enough
        have := best.least other member enough
        omega
      · rw [if_neg (by omega)]
        exact next _ _ (Running.best index current (best.skip (by omega)))

/-- The whole loop: nothing when every slot is too small, else the best fit. -/
theorem findSlotLoop_spec {size : Nat} (pos : 0 < size) (slots : List Slot) :
    (findSlotLoop size slots 0 none 0 = none ∧ ∀ slot ∈ slots, slot.2 < size) ∨
      ∃ index slot, findSlotLoop size slots 0 none 0 = some index ∧
        BestFit slots size index slot := by
  obtain ⟨minSize', running⟩ := findSlotLoop_running pos slots [] none 0
    (Running.unset (by simp))
  simp only [List.nil_append, List.length_nil] at running
  cases loop : findSlotLoop size slots 0 none 0 with
  | none =>
    rw [loop] at running
    cases running with
    | unset small => exact Or.inl ⟨rfl, small⟩
  | some index =>
    rw [loop] at running
    cases running with
    | best _ slot best => exact Or.inr ⟨index, slot, rfl, best⟩

/-- What `find_slot` does with the slot it chooses. -/
structure CutsHead (P : PoolStruct) (size index : Nat) (slot : Slot) (P' : PoolStruct) : Prop where
  num : P'.numSlotsInUse = P.numSlotsInUse
  inUse : P'.slotInUse = mapInsert P.slotInUse (slot.1, size)
  whole : slot.2 = size → P'.slotAvail = P.slotAvail.eraseIdx index
  rest : slot.2 ≠ size →
    P'.slotAvail = P.slotAvail.set index (u64 (slot.1 + size), slot.2 - size)

/-- `find_slot` on every pool: exhausted without an effect, or a cut of the best fit. -/
theorem findSlot_spec {P : PoolStruct} {size : Nat} (pos : 0 < size)
    (rounded : size % minSlotSize = 0) :
    (findSlot P size = some (addrInvalid, P) ∧ ∀ slot ∈ P.slotAvail, slot.2 < size) ∨
      ∃ index slot P', findSlot P size = some (slot.1, P') ∧
        BestFit P.slotAvail size index slot ∧ CutsHead P size index slot P' := by
  unfold findSlot
  rw [if_neg (not_not.mpr rounded)]
  rcases findSlotLoop_spec pos P.slotAvail with ⟨loop, small⟩ | ⟨index, slot, loop, best⟩
  · rw [loop]
    exact Or.inl ⟨rfl, small⟩
  · have fits := best.fits
    refine Or.inr ⟨index, slot, { P with
      slotAvail := if slot.2 = size then P.slotAvail.eraseIdx index
        else P.slotAvail.set index (u64 (slot.1 + size), slot.2 - size)
      slotInUse := mapInsert P.slotInUse (slot.1, size) }, ?_, best, ?_⟩
    · simp only [loop, best.entry]
      rw [if_neg (by omega)]
    · exact ⟨rfl, rfl, fun same => if_pos same, fun other => if_neg other⟩

/-- `find_slot` is best fit. No free slot starts at `MEM_POOL_ADDR_INVALID`, which the code
    uses as its answer for exhaustion, and none at the address of a used slot. -/
theorem findSlot_best_fit (P : PoolStruct) (size : Nat) (pos : 0 < size)
    (rounded : size % minSlotSize = 0)
    (sentinel : ∀ slot ∈ P.slotAvail, slot.1 ≠ addrInvalid)
    (fresh : ∀ slot ∈ P.slotAvail, ∀ used ∈ P.slotInUse, used.1 ≠ slot.1) :
    ∃ addr P', findSlot P size = some (addr, P') ∧
      (addr ≠ addrInvalid ↔ ∃ slot ∈ P.slotAvail, size ≤ slot.2) ∧
      (addr = addrInvalid → P' = P) ∧
      (addr ≠ addrInvalid → ∃ index slot, BestFit P.slotAvail size index slot ∧
        addr = slot.1 ∧
        P'.numSlotsInUse = P.numSlotsInUse ∧
        P'.slotInUse = (addr, size) :: P.slotInUse ∧
        (slot.2 = size → P'.slotAvail = P.slotAvail.eraseIdx index) ∧
        (slot.2 ≠ size →
          P'.slotAvail = P.slotAvail.set index (u64 (slot.1 + size), slot.2 - size)) ∧
        (slot.1 + slot.2 ≤ 2 ^ 64 → slot.2 ≠ size → u64 (slot.1 + size) = slot.1 + size)) := by
  rcases findSlot_spec (P := P) pos rounded with
    ⟨exhausted, small⟩ | ⟨index, slot, P', found, best, cuts⟩
  · refine ⟨addrInvalid, P, exhausted, ⟨fun valid => absurd rfl valid, ?_⟩, fun _ => rfl,
      fun valid => absurd rfl valid⟩
    rintro ⟨slot, member, enough⟩
    have := small slot member
    omega
  · have member : slot ∈ P.slotAvail := List.mem_of_getElem? best.entry
    have valid := sentinel slot member
    refine ⟨slot.1, P', found, ⟨fun _ => ⟨slot, member, best.fits⟩, fun _ => valid⟩,
      fun invalid => absurd invalid valid, fun _ => ⟨index, slot, best, rfl, cuts.num, ?_,
        cuts.whole, cuts.rest, ?_⟩⟩
    · rw [cuts.inUse]
      exact mapInsert_of_fresh (fresh slot member)
    · intro below other
      have fits := best.fits
      exact u64_of_lt (by omega)

theorem findSlot_best_fit_two_slots :
    ∃ addr P', findSlot ⟨0, [(0, 16384), (20480, 8192)], []⟩ 4096 = some (addr, P') ∧
      addr ≠ addrInvalid ∧ P'.slotInUse = [(addr, 4096)] := by
  obtain ⟨addr, P', found, finds, -, cut⟩ :=
    findSlot_best_fit ⟨0, [(0, 16384), (20480, 8192)], []⟩ 4096 (by decide) (by decide)
      (by decide) (by decide)
  have valid := finds.mpr ⟨(0, 16384), by decide, by decide⟩
  obtain ⟨index, slot, -, -, -, inUse, -⟩ := cut valid
  exact ⟨addr, P', found, valid, inUse⟩

/-- A free slot at `MEM_POOL_ADDR_INVALID` is cut and the answer still reads exhaustion; a
    free slot at the address of a used one is cut without a new entry. -/
theorem findSlot_sentinel_and_key :
    (∃ P', findSlot ⟨0, [(addrInvalid, 4096)], []⟩ 4096 = some (addrInvalid, P') ∧
        P' ≠ ⟨0, [(addrInvalid, 4096)], []⟩) ∧
      ∃ P', findSlot ⟨1, [(0, 8192)], [(0, 4096)]⟩ 4096 = some (0, P') ∧
        P'.slotInUse = [(0, 4096)] :=
  ⟨⟨_, rfl, by decide⟩, ⟨_, rfl, by decide⟩⟩

/-! ## Every slot ends inside the pool

Unlike `Inv` this holds after calls with any sizes, also those that round to 0. -/

/-- No slot, free or used, reaches beyond `T`. -/
def EndsBelow (T : Nat) (P : PoolStruct) : Prop :=
  (∀ slot ∈ P.slotAvail, slot.1 + slot.2 ≤ T) ∧ ∀ slot ∈ P.slotInUse, slot.1 + slot.2 ≤ T

theorem mem_mapInsert {entries : List Slot} {entry slot : Slot}
    (member : slot ∈ mapInsert entries entry) : slot = entry ∨ slot ∈ entries := by
  unfold mapInsert at member
  split at member
  · exact Or.inr member
  · exact List.mem_cons.mp member

/-- Entry `index` is erased or overwritten and a block is recorded. -/
theorem EndsBelow.edit {T size index addr : Nat} {P : PoolStruct} {cut : Slot}
    (below : EndsBelow T P) (slot : Slot) (piece : slot.2 ≠ size → cut.1 + cut.2 ≤ T)
    (block : addr + size ≤ T) :
    EndsBelow T { P with
      slotAvail := if slot.2 = size then P.slotAvail.eraseIdx index else P.slotAvail.set index cut
      slotInUse := mapInsert P.slotInUse (addr, size) } := by
  constructor
  · intro other member
    by_cases same : slot.2 = size
    · simp only [same, if_true] at member
      exact below.1 other (List.mem_of_mem_eraseIdx member)
    · simp only [same, if_false] at member
      rcases List.mem_or_eq_of_mem_set member with old | rfl
      · exact below.1 other old
      · exact piece same
  · intro other member
    rcases mem_mapInsert member with rfl | old
    · exact block
    · exact below.2 other old

theorem EndsBelow.findSlot {T size addr : Nat} {P P' : PoolStruct} (below : EndsBelow T P)
    (bound : T < 2 ^ 64) (found : findSlot P size = some (addr, P')) : EndsBelow T P' := by
  unfold MemPool.findSlot at found
  split at found
  · cases found
  · split at found
    · cases found
      exact below
    · rename_i index hit
      split at found
      · cases found
      · rename_i slotAddr slotSize entry
        split at found
        · cases found
          exact below
        · cases found
          rcases findSlotLoop_mem size _ _ _ _ _ hit with absurdHit | ⟨slot, -, entry', fits⟩
          · cases absurdHit
          · rw [Nat.sub_zero, entry] at entry'
            cases entry'
            have inside := below.1 _ (List.mem_of_getElem? entry)
            simp only at inside fits
            refine below.edit (addr, slotSize) ?_ (by omega)
            intro other
            rw [u64_of_lt (by omega)]
            simp only
            omega

theorem EndsBelow.findSlotInBank {T size addr : Nat} {P P' : PoolStruct} (below : EndsBelow T P)
    (bound : T < 2 ^ 64) (found : findSlotInBank P size = some (addr, P')) : EndsBelow T P' := by
  unfold MemPool.findSlotInBank at found
  split at found
  · cases found
  · split at found
    · cases found
      exact below
    · rename_i index findCase hit
      split at found
      · cases found
      · rename_i slotAddr slotSize entry
        obtain ⟨slot, -, entry', fits⟩ := findSlotInBankLoop_mem size _ _ _ _ hit
        rw [Nat.sub_zero, entry] at entry'
        cases entry'
        have inside := below.1 _ (List.mem_of_getElem? entry)
        simp only at inside fits
        cases findCase with
        | head =>
          cases found
          refine below.edit (slotAddr, slotSize) ?_ (by simp only; omega)
          intro other
          simp only
          rw [u64_of_lt (by omega)]
          omega
        | tail =>
          cases found
          refine below.edit (slotAddr, slotSize) ?_ ?_
          · intro other
            simp only
            omega
          · simp only
            rw [u64_of_lt (by omega)]
            omega

theorem mergeSlot_ends {T addr size : Nat} {avail : List Slot} (bound : T < 2 ^ 64)
    (below : ∀ slot ∈ avail, slot.1 + slot.2 ≤ T) (block : addr + size ≤ T) :
    ∀ slot ∈ mergeSlot avail addr size, slot.1 + slot.2 ≤ T := by
  intro slot member
  unfold mergeSlot at member
  cases prevAt : avail.findIdx? (offsetPrevFinder addr) with
  | none =>
    cases nextAt : avail.findIdx? (offsetNextFinder (u64 (addr + size))) with
    | none =>
      simp only [prevAt, nextAt, List.mem_append, List.mem_singleton] at member
      rcases member with old | rfl
      · exact below slot old
      · exact block
    | some next =>
      obtain ⟨slotN, entryN, startN⟩ := findIdx?_spec nextAt
      have insideN := below slotN (List.mem_of_getElem? entryN)
      simp only [offsetNextFinder, decide_eq_true_eq] at startN
      rw [u64_of_lt (by omega)] at startN
      simp only [prevAt, nextAt, entryN] at member
      rcases List.mem_or_eq_of_mem_set member with old | rfl
      · exact below slot old
      · rw [u64_of_lt (by omega)]
        simp only
        omega
  | some prev =>
    obtain ⟨slotP, entryP, stopP⟩ := findIdx?_spec prevAt
    have insideP := below slotP (List.mem_of_getElem? entryP)
    rw [offsetPrevFinder_iff bound insideP] at stopP
    cases nextAt : avail.findIdx? (offsetNextFinder (u64 (addr + size))) with
    | none =>
      simp only [prevAt, nextAt, entryP] at member
      rcases List.mem_or_eq_of_mem_set member with old | rfl
      · exact below slot old
      · rw [u64_of_lt (by omega)]
        simp only
        omega
    | some next =>
      obtain ⟨slotN, entryN, startN⟩ := findIdx?_spec nextAt
      have insideN := below slotN (List.mem_of_getElem? entryN)
      simp only [offsetNextFinder, decide_eq_true_eq] at startN
      rw [u64_of_lt (by omega)] at startN
      simp only [prevAt, nextAt, entryP, entryN] at member
      rcases List.mem_or_eq_of_mem_set (List.mem_of_mem_eraseIdx member) with old | rfl
      · exact below slot old
      · rw [u64_of_lt (by omega)]
        simp only
        omega

theorem endsBelow_allocWith {find : PoolStruct → Nat → Option (Nat × PoolStruct)}
    {T size addr : Nat} {pool pool' : Pool}
    (finds : ∀ {size addr P'}, find pool.pool size = some (addr, P') → EndsBelow T P')
    (ok : allocWith find pool size = some (addr, pool')) : EndsBelow T pool'.pool := by
  unfold allocWith at ok
  split at ok
  · cases ok
  · split at ok
    · cases ok
    · rename_i a P' hit
      split at ok
      · cases ok
      · split at ok
        · cases ok
        · cases ok
          have after : EndsBelow T P' := finds hit
          exact ⟨after.1, after.2⟩

theorem EndsBelow.step {T : Nat} (bound : T < 2 ^ 64) (s : Session) (op : PoolOp) (s' : Session)
    (below : EndsBelow T s.pool.pool) (ok : step s op = some s') :
    EndsBelow T s'.pool.pool := by
  cases op with
  | alloc size =>
    obtain ⟨⟨addr, pool⟩, done, rfl⟩ := Option.map_eq_some_iff.mp ok
    exact endsBelow_allocWith (below.findSlot bound) done
  | allocInBank size =>
    obtain ⟨⟨addr, pool⟩, done, rfl⟩ := Option.map_eq_some_iff.mp ok
    exact endsBelow_allocWith (below.findSlotInBank bound) done
  | free addr =>
    obtain ⟨pool, done, rfl⟩ := Option.map_eq_some_iff.mp ok
    unfold memPoolFree at done
    split at done
    · cases done
    · rename_i size found
      split at done
      · cases done
      · cases done
        refine ⟨mergeSlot_ends bound below.1 (below.2 _ (mapFind_mem found)), ?_⟩
        intro slot member
        exact below.2 slot (List.mem_of_mem_filter member)

theorem endsBelow_of_run {T : Nat} (bound : T < 2 ^ 64) {ops : List PoolOp} {s : Session}
    (reached : run (create T) ops = some s) : EndsBelow T s.pool.pool :=
  Run.run_preserves (P := fun s => EndsBelow T s.pool.pool) (EndsBelow.step bound)
    (by simp [EndsBelow, create, memPoolCreate]) reached

/-! ## `find_slot_in_bank` -/

/-- `[addr, addr + size)` has a multiple of `BANK_SIZE` inside. -/
def CrossesBank (addr size : Nat) : Prop :=
  ∃ bank, addr < bank * bankSize ∧ bank * bankSize < addr + size

/-- Two neighbouring multiples of `BANK_SIZE` lie inside the slot. -/
def SpansBank (slot : Slot) : Prop :=
  ∃ bank, slot.1 < bank * bankSize ∧ (bank + 1) * bankSize < slot.1 + slot.2

theorem slotInBank_iff {addr size : Nat} (le : size ≤ bankSize) :
    slotInBank addr size = true ↔ ¬ CrossesBank addr size := by
  have offset : addr % bankSize < bankSize := Nat.mod_lt _ (by decide)
  have split := Nat.div_add_mod addr bankSize
  unfold slotInBank
  rw [decide_eq_true_eq]
  simp only [CrossesBank]
  simp only [bankSize] at le offset split ⊢
  rw [u64_of_lt (by omega)]
  constructor
  · rintro fits ⟨bank, after, before⟩
    omega
  · intro uncrossed
    by_contra long
    have low : addr < (addr / 0x80000000 + 1) * 0x80000000 := by omega
    have high : (addr / 0x80000000 + 1) * 0x80000000 < addr + size := by omega
    exact uncrossed ⟨addr / 0x80000000 + 1, low, high⟩

/-- A slot with at most one bank boundary inside offers no more than its two ends do. -/
theorem crossesBank_of_ends {slot : Slot} {size start : Nat} (single : ¬ SpansBank slot)
    (head : CrossesBank slot.1 size) (tail : CrossesBank (slot.1 + slot.2 - size) size)
    (fits : size ≤ slot.2) (after : slot.1 ≤ start) (before : start + size ≤ slot.1 + slot.2) :
    CrossesBank start size := by
  obtain ⟨bankHead, headAfter, headBefore⟩ := head
  obtain ⟨bankTail, tailAfter, tailBefore⟩ := tail
  have same : bankHead = bankTail := by
    by_contra distinct
    rcases Nat.lt_or_gt_of_ne distinct with less | more
    · have next : (bankHead + 1) * bankSize ≤ bankTail * bankSize := Nat.mul_le_mul_right _ less
      exact single ⟨bankHead, headAfter, by omega⟩
    · have next : (bankTail + 1) * bankSize ≤ bankHead * bankSize := Nat.mul_le_mul_right _ more
      exact single ⟨bankTail, by omega, by omega⟩
  subst same
  exact ⟨bankHead, by omega, by omega⟩

/-- Where the block is cut. -/
def FindCase.addr (slot : Slot) (size : Nat) : FindCase → Nat
  | .head => slot.1
  | .tail => u64 (slot.1 + slot.2 - size)

/-- The loop misses only slots that fit at neither end, and its hit fits. -/
theorem findSlotInBankLoop_spec (size : Nat) :
    ∀ (slots : List Slot) (index : Nat),
      (findSlotInBankLoop size slots index = none ∧ ∀ slot ∈ slots, size ≤ slot.2 →
        ∀ findCase : FindCase, slotInBank (findCase.addr slot size) size = false) ∨
      ∃ found findCase slot, findSlotInBankLoop size slots index = some (index + found, findCase) ∧
        slots[found]? = some slot ∧ size ≤ slot.2 ∧
        slotInBank (findCase.addr slot size) size = true := by
  intro slots
  induction slots with
  | nil =>
    intro index
    exact Or.inl ⟨rfl, by simp⟩
  | cons slot rest ih =>
    intro index
    unfold findSlotInBankLoop
    by_cases head : size ≤ slot.2 ∧ slotInBank slot.1 size
    · rw [if_pos head]
      exact Or.inr ⟨0, .head, slot, rfl, rfl, head.1, head.2⟩
    rw [if_neg head]
    by_cases tail : size ≤ slot.2 ∧ slotInBank (u64 (slot.1 + slot.2 - size)) size
    · rw [if_pos tail]
      exact Or.inr ⟨0, .tail, slot, rfl, rfl, tail.1, tail.2⟩
    rw [if_neg tail]
    rcases ih (index + 1) with ⟨loop, missed⟩ | ⟨found, findCase, s, loop, entry, fits, inBank⟩
    · refine Or.inl ⟨loop, ?_⟩
      intro other member enough findCase
      rcases List.mem_cons.mp member with rfl | old
      · rw [Bool.eq_false_iff]
        cases findCase with
        | head => exact fun inBank => head ⟨enough, inBank⟩
        | tail => exact fun inBank => tail ⟨enough, inBank⟩
      · exact missed other old enough findCase
    · refine Or.inr ⟨found + 1, findCase, s, ?_, entry, fits, inBank⟩
      rw [loop, Nat.add_right_comm, Nat.add_assoc]

/-- `find_slot_in_bank` on every pool: exhausted without an effect, or a block at an end of a
    free slot that fits one bank. -/
theorem findSlotInBank_spec (P : PoolStruct) {size : Nat} (rounded : size % minSlotSize = 0) :
    (findSlotInBank P size = some (addrInvalid, P) ∧
      ∀ slot ∈ P.slotAvail, size ≤ slot.2 →
        ∀ findCase : FindCase, slotInBank (findCase.addr slot size) size = false) ∨
    ∃ findCase slot P', findSlotInBank P size = some (FindCase.addr slot size findCase, P') ∧
      slot ∈ P.slotAvail ∧ size ≤ slot.2 ∧
      slotInBank (FindCase.addr slot size findCase) size = true := by
  unfold findSlotInBank
  rw [if_neg (not_not.mpr rounded)]
  rcases findSlotInBankLoop_spec size P.slotAvail 0 with
    ⟨loop, missed⟩ | ⟨found, findCase, slot, loop, entry, fits, inBank⟩
  · rw [loop]
    exact Or.inl ⟨rfl, missed⟩
  · refine Or.inr ⟨findCase, slot, ?_⟩
    rw [Nat.zero_add] at loop
    simp only [loop, entry]
    cases findCase with
    | head => exact ⟨_, rfl, List.mem_of_getElem? entry, fits, inBank⟩
    | tail => exact ⟨_, rfl, List.mem_of_getElem? entry, fits, inBank⟩

/-- The block of a hit never has the address that stands for exhaustion. -/
theorem addr_ne_invalid {addr size : Nat} (rounded : size % minSlotSize = 0) (pos : 0 < size)
    (le : size ≤ bankSize) (inBank : slotInBank addr size = true) : addr ≠ addrInvalid := by
  rintro rfl
  have fits := of_decide_eq_true inBank
  simp only [addrInvalid, bankSize, minSlotSize] at fits rounded le
  rw [u64_of_lt (by omega)] at fits
  omega

theorem sizeToAlloc_rounded (size : Nat) : sizeToAlloc size % minSlotSize = 0 :=
  Nat.mul_mod_left _ _

theorem FindCase.addr_eq {T : Nat} {slot : Slot} (bound : T < 2 ^ 64)
    (inside : slot.1 + slot.2 ≤ T) (size : Nat) (findCase : FindCase) :
    findCase.addr slot size = slot.1 ∨ findCase.addr slot size = slot.1 + slot.2 - size := by
  cases findCase with
  | head => exact Or.inl rfl
  | tail => exact Or.inr (u64_of_lt (by omega))

/-- A successful allocation in a bank is a hit of the finder. -/
theorem memPoolAllocInBank_found {pool pool' : Pool} {size addr : Nat}
    (ok : memPoolAllocInBank pool size = some (addr, pool')) :
    ∃ P', findSlotInBank pool.pool (sizeToAlloc size) = some (addr, P') ∧
      addr ≠ addrInvalid := by
  unfold memPoolAllocInBank allocWith at ok
  split at ok
  · cases ok
  · split at ok
    · cases ok
    · rename_i a P' hit
      split at ok
      · cases ok
      · rename_i valid
        split at ok
        · cases ok
        · cases ok
          exact ⟨P', hit, valid⟩

/-- In every reachable pool a block allocated in a bank lies in one free slot and in one bank,
    and `find_slot_in_bank` reports exhaustion only when no sufficient slot has such a block at
    its head or at its tail; a slot with at most one bank boundary then has none anywhere. -/
theorem findSlotInBank_sound_exhausted (T : Nat) (bound : T < 2 ^ 64) (ops : List PoolOp)
    (s : Session) (reached : run (create T) ops = some s) (size : Nat)
    (pos : 0 < sizeToAlloc size) (le : sizeToAlloc size ≤ bankSize) :
    (∀ addr pool, memPoolAllocInBank s.pool size = some (addr, pool) →
      ∃ slot ∈ s.pool.pool.slotAvail, slot.1 ≤ addr ∧
        addr + sizeToAlloc size ≤ slot.1 + slot.2 ∧ ¬ CrossesBank addr (sizeToAlloc size)) ∧
    ∃ addr P', findSlotInBank s.pool.pool (sizeToAlloc size) = some (addr, P') ∧
      (addr = addrInvalid → P' = s.pool.pool ∧
        ∀ slot ∈ s.pool.pool.slotAvail, sizeToAlloc size ≤ slot.2 →
          CrossesBank slot.1 (sizeToAlloc size) ∧
          CrossesBank (slot.1 + slot.2 - sizeToAlloc size) (sizeToAlloc size) ∧
          (¬ SpansBank slot → ∀ start, slot.1 ≤ start →
            start + sizeToAlloc size ≤ slot.1 + slot.2 →
            CrossesBank start (sizeToAlloc size))) := by
  have below := (endsBelow_of_run bound reached).1
  have rounded := sizeToAlloc_rounded size
  rcases findSlotInBank_spec s.pool.pool rounded with
    ⟨exhausted, missed⟩ | ⟨findCase, slot, P', hit, member, fits, inBank⟩
  · refine ⟨?_, addrInvalid, s.pool.pool, exhausted, ?_⟩
    · intro addr pool done
      obtain ⟨P', hit, valid⟩ := memPoolAllocInBank_found done
      rw [exhausted] at hit
      cases hit
      exact absurd rfl valid
    · intro _
      refine ⟨rfl, fun slot member enough => ?_⟩
      have crosses : ∀ findCase : FindCase,
          CrossesBank (findCase.addr slot (sizeToAlloc size)) (sizeToAlloc size) := by
        intro findCase
        by_contra uncrossed
        have inBank := (slotInBank_iff le).mpr uncrossed
        rw [missed slot member enough findCase] at inBank
        cases inBank
      have head := crosses .head
      have tail := crosses .tail
      have inside := below slot member
      simp only [FindCase.addr] at head tail
      rw [u64_of_lt (by omega)] at tail
      exact ⟨head, tail, fun single start after before =>
        crossesBank_of_ends single head tail enough after before⟩
  · have valid := addr_ne_invalid rounded pos le inBank
    refine ⟨?_, _, P', hit, fun invalid => absurd invalid valid⟩
    intro addr pool done
    obtain ⟨P'', hit', -⟩ := memPoolAllocInBank_found done
    rw [hit] at hit'
    cases hit'
    have place := FindCase.addr_eq bound (below slot member) (sizeToAlloc size) findCase
    exact ⟨slot, member, by omega, by omega, (slotInBank_iff le).mp inBank⟩

theorem findSlotInBank_sound_exhausted_one_block :
    ∃ s, run (create 65536) [.alloc 100] = some s ∧
      ∃ slot ∈ s.pool.pool.slotAvail, slot.1 ≤ 4096 ∧
        4096 + sizeToAlloc 8192 ≤ slot.1 + slot.2 ∧ ¬ CrossesBank 4096 (sizeToAlloc 8192) :=
  ⟨_, rfl, (findSlotInBank_sound_exhausted 65536 (by decide) [.alloc 100] _ rfl 8192
    (by decide) (by decide)).1 4096 _ rfl⟩

/-- The pool of `2^32 + 4096` bytes after one block of 4096 bytes has one free slot from 4096 to
    the end. It contains the bank from `2^31` to `2^32`, and a request for a whole bank is
    reported as exhaustion. -/
theorem findSlotInBank_misses_inner_bank :
    ∃ s, run (create (2 ^ 32 + 4096)) [.alloc 4096] = some s ∧
      findSlotInBank s.pool.pool (sizeToAlloc (2 ^ 31)) = some (addrInvalid, s.pool.pool) ∧
      ∃ slot ∈ s.pool.pool.slotAvail, ∃ k,
        k * minSlotSize + sizeToAlloc (2 ^ 31) ≤ slot.2 ∧
        ¬ CrossesBank (slot.1 + k * minSlotSize) (sizeToAlloc (2 ^ 31)) := by
  refine ⟨_, rfl, rfl, (4096, 2 ^ 32), by decide, 524287, by decide, ?_⟩
  exact (slotInBank_iff (by decide)).mp (by decide)

end CviRuntime.MemPool
