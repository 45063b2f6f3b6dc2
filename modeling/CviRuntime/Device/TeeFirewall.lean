import CviRuntime.Device.MemRegistry

/-!
# The firewall table of secure loads (`src/soc/183x/cvi183x_device_mem.cpp`)

`load_cmdbuf_tee` notes the address of the weight in `root_tee_firewall_info`, and
`mem_free_raw` of the 183x takes it out again and tells the driver. An entry is empty
when its address is 0. The block that the load has allocated by then is not given back
when the table turns out to be full.
-/

namespace CviRuntime.TeeFirewall

open CviRuntime.SlotTable (overwriteFirst overwriteFirst_perm overwriteFirst_of_none)

/-- `TEE_FIREWALL_MAX` (`cvi_device_mem.h:21`). -/
def teeFirewallMax : Nat := 6

/-- `BM_SUCCESS` and `BM_ERR_FAILURE`. -/
inductive Err where
  | success
  | failure
  deriving DecidableEq, Repr

/-- The memory of the context and `root_tee_firewall_info`. -/
structure Device where
  mem : MemRegistry.State
  firewall : List UInt64

/-- The two searches of `load_cmdbuf_tee` (`cvi183x_device_mem.cpp:201-217`): `none` when the
    address is new and the table is full. -/
def record (firewall : List UInt64) (weightGaddr : UInt64) : Option (List UInt64) :=
  if weightGaddr ∈ firewall then some firewall
  else if 0 ∈ firewall then some (overwriteFirst (· = 0) weightGaddr firewall)
  else none

/-- `load_cmdbuf_tee` (`cvi183x_device_mem.cpp:176-229`), for a driver that answers with the
    address `pAddr`. The block has `size` bytes: twice those of the command buffer, rounded up
    to pages when memory is protected. A `load_tee` that fails ends the program. -/
def loadCmdbufTee (d : Device) (size weightGaddr pAddr : UInt64) : Err × Device :=
  let d := { d with mem := (MemRegistry.memAlloc d.mem size pAddr).2 }
  match record d.firewall weightGaddr with
  | none => (.failure, d)
  | some firewall => (.success, { d with firewall := firewall })

/-- `mem_free_raw` of the 183x (`cvi183x_device_mem.cpp:66-98`), and whether it calls
    `unload_tee`. What follows the search is as in the 180x. -/
def memFreeRaw (d : Device) (mem : Nat) : Option (Bool × Device) := do
  let block ← d.mem.heap.cell mem
  let after ← MemRegistry.memFreeRaw d.mem mem
  if block.isPrealloc then some (false, { d with mem := after })
  else some (decide (block.pAddr ∈ d.firewall),
    { mem := after, firewall := overwriteFirst (· = block.pAddr) 0 d.firewall })

/-- What a call reports or leaves behind. -/
inductive Event where
  /-- `mem_free_raw` of a block: whether `unload_tee` was called, and whether the address of
      the block was in the table -/
  | freed (unloaded inTable : Bool)
  /-- an error of `load_cmdbuf_tee`: whether the table was changed, and whether the block it
      had allocated is still there -/
  | loadFailed (changed kept : Bool)
  deriving DecidableEq, Repr

/-- `held` and `log` are not in the code: the weight addresses of the successful loads whose
    block has not been freed since, and the events, both latest first. -/
structure State where
  device : Device
  held : List UInt64
  log : List Event

def init : State where
  device := { mem := MemRegistry.init, firewall := List.replicate teeFirewallMax 0 }
  held := []
  log := []

/-- The entries of the table that are not empty. -/
def entries (firewall : List UInt64) : List UInt64 := firewall.filter (· ≠ 0)

/-- The calls on the context; the two allocations are those of other users of the device. -/
inductive Op where
  | loadCmdbufTee (size weightGaddr pAddr : UInt64)
  | memFreeRaw (mem : Nat)
  | memAllocRaw (size pAddr : UInt64)
  | memPreallocRaw (mem : Nat) (offset size : UInt64)
  deriving DecidableEq, Repr

/-- What the client of `load_cmdbuf_tee` sees of it. -/
def afterLoad (s : State) (weightGaddr : UInt64) : Err × Device → State
  | (.success, device) =>
    { s with
      device := device
      held := if weightGaddr ∈ s.held then s.held else weightGaddr :: s.held }
  | (.failure, device) =>
    { s with
      device := device
      log := .loadFailed (decide (device.firewall ≠ s.device.firewall))
        (decide (device.mem.heap.Live s.device.mem.heap.next)) :: s.log }

/-- What the client of `mem_free_raw` sees of it. -/
def afterFree (s : State) (block : MemRegistry.DeviceMem) : Bool × Device → State
  | (unloaded, device) =>
    if block.isPrealloc then { s with device := device } else
    { device := device
      held := s.held.filter (· ≠ block.pAddr)
      log := .freed unloaded (decide (block.pAddr ∈ entries s.device.firewall)) :: s.log }

/-- One call; `none` where an assert ends the program, and for a free of what is not live. -/
def step (s : State) : Op → Option State
  | .loadCmdbufTee size weightGaddr pAddr =>
    some (afterLoad s weightGaddr (loadCmdbufTee s.device size weightGaddr pAddr))
  | .memFreeRaw mem => do
    let block ← s.device.mem.heap.cell mem
    let result ← memFreeRaw s.device mem
    some (afterFree s block result)
  | .memAllocRaw size pAddr =>
    some { s with
      device := { s.device with mem := (MemRegistry.memAllocRaw s.device.mem size pAddr).2 } }
  | .memPreallocRaw mem offset size => do
    let (_, mem) ← MemRegistry.memPreallocRaw s.device.mem mem offset size
    some { s with device := { s.device with mem := mem } }

/-! ## Exactness of the table -/

/-- `unload_tee` is called for the addresses in the table, and a failed load leaves nothing. -/
def Event.Good : Event → Prop
  | .freed unloaded inTable => unloaded = inTable
  | .loadFailed changed kept => changed = false ∧ kept = false

/-- The table holds the addresses it should, each once. -/
structure Exact (s : State) : Prop where
  table : (entries s.device.firewall).Perm s.held
  once : s.held.Nodup
  events : ∀ event ∈ s.log, event.Good

/-- The call keeps away from the address that marks an empty entry, and a load of a new
    address finds an empty entry. -/
def Regular (s : State) : Op → Prop
  | .loadCmdbufTee _ weightGaddr _ =>
    weightGaddr ≠ 0 ∧ (weightGaddr ∈ s.device.firewall ∨ 0 ∈ s.device.firewall)
  | .memFreeRaw mem => ∀ block, s.device.mem.heap.cell mem = some block →
    block.isPrealloc = false → block.pAddr ≠ 0 ∨ 0 ∉ s.device.firewall
  | .memAllocRaw _ _ | .memPreallocRaw _ _ _ => True

theorem mem_entries {firewall : List UInt64} {address : UInt64} :
    address ∈ entries firewall ↔ address ∈ firewall ∧ address ≠ 0 := by
  simp [entries]

/-- What `mem_free_raw` does, to a window and to a block. -/
theorem step_memFreeRaw_cases {s s' : State} {mem : Nat}
    (stepped : step s (.memFreeRaw mem) = some s') :
    ∃ block after, s.device.mem.heap.cell mem = some block ∧
      ((block.isPrealloc = true ∧ s' = { s with device := { s.device with mem := after } }) ∨
        (block.isPrealloc = false ∧ s' =
          { device :=
              { mem := after
                firewall := overwriteFirst (· = block.pAddr) 0 s.device.firewall }
            held := s.held.filter (· ≠ block.pAddr)
            log := .freed (decide (block.pAddr ∈ s.device.firewall))
              (decide (block.pAddr ∈ entries s.device.firewall)) :: s.log })) := by
  obtain ⟨block, here, rest⟩ := Option.bind_eq_some_iff.mp stepped
  obtain ⟨result, freed, rest⟩ := Option.bind_eq_some_iff.mp rest
  obtain ⟨block', here', freed⟩ := Option.bind_eq_some_iff.mp freed
  obtain ⟨after, -, freed⟩ := Option.bind_eq_some_iff.mp freed
  obtain rfl : block = block' := Option.some.inj (here.symm.trans here')
  refine ⟨block, after, here, ?_⟩
  cases owned : block.isPrealloc with
  | true =>
    simp only [owned, if_true, Option.some.injEq] at freed
    subst freed
    simp only [afterFree, owned, if_true, Option.some.injEq] at rest
    exact Or.inl ⟨rfl, rest.symm⟩
  | false =>
    simp only [owned, Bool.false_eq_true, if_false, Option.some.injEq] at freed
    subst freed
    simp only [afterFree, owned, Bool.false_eq_true, if_false, Option.some.injEq] at rest
    exact Or.inr ⟨rfl, rest.symm⟩

/-- Recording a new address takes an empty entry. -/
theorem entries_overwrite_empty {firewall : List UInt64} {address : UInt64} (nonzero : address ≠ 0)
    (empty : 0 ∈ firewall) :
    (entries (overwriteFirst (· = 0) address firewall)).Perm (address :: entries firewall) := by
  obtain ⟨found, rest, hit, -, perm, perm'⟩ :=
    overwriteFirst_perm (p := fun entry => decide (entry = 0)) (x := address) ⟨0, empty, rfl⟩
  obtain rfl : found = 0 := of_decide_eq_true hit
  have before : (entries firewall).Perm (entries rest) := by
    refine (perm.filter _).trans ?_
    rw [List.filter_cons_of_neg (by simp)]
    exact List.Perm.refl _
  refine (perm'.filter _).trans ?_
  rw [List.filter_cons_of_pos (by simpa using nonzero)]
  exact before.symm.cons address

/-- Clearing an address that the table holds leaves the others. -/
theorem entries_overwrite_used {firewall : List UInt64} {address : UInt64} (nonzero : address ≠ 0)
    (used : address ∈ firewall) :
    (entries firewall).Perm
      (address :: entries (overwriteFirst (· = address) 0 firewall)) := by
  obtain ⟨found, rest, hit, -, perm, perm'⟩ :=
    overwriteFirst_perm (p := fun entry => decide (entry = address)) (x := (0 : UInt64))
      ⟨address, used, decide_eq_true rfl⟩
  obtain rfl : found = address := of_decide_eq_true hit
  have after : (entries (overwriteFirst (· = found) 0 firewall)).Perm (entries rest) := by
    refine (perm'.filter _).trans ?_
    rw [List.filter_cons_of_neg (by simp)]
    exact List.Perm.refl _
  refine (perm.filter _).trans ?_
  rw [List.filter_cons_of_pos (by simpa using nonzero)]
  exact after.symm.cons found

section Steps

variable {s : State}

theorem exact_load (sound : Exact s) {size weightGaddr pAddr : UInt64} (nonzero : weightGaddr ≠ 0)
    (room : weightGaddr ∈ s.device.firewall ∨ 0 ∈ s.device.firewall) :
    Exact (afterLoad s weightGaddr (loadCmdbufTee s.device size weightGaddr pAddr)) := by
  have heldIff : weightGaddr ∈ s.held ↔ weightGaddr ∈ s.device.firewall := by
    rw [← sound.table.mem_iff, mem_entries]
    simp [nonzero]
  by_cases known : weightGaddr ∈ s.device.firewall
  · simp only [loadCmdbufTee, record, if_pos known, afterLoad, if_pos (heldIff.mpr known)]
    exact ⟨sound.table, sound.once, sound.events⟩
  · have empty := room.resolve_left known
    have new : weightGaddr ∉ s.held := fun held => known (heldIff.mp held)
    simp only [loadCmdbufTee, record, if_neg known, if_pos empty, afterLoad, if_neg new]
    refine ⟨?_, List.nodup_cons.mpr ⟨new, sound.once⟩, sound.events⟩
    exact (entries_overwrite_empty nonzero empty).trans (sound.table.cons weightGaddr)

/-- Taking a freed address out of the table. -/
theorem table_free (sound : Exact s) {address : UInt64}
    (regular : address ≠ 0 ∨ 0 ∉ s.device.firewall) :
    (entries (overwriteFirst (· = address) 0 s.device.firewall)).Perm
        (s.held.filter (· ≠ address)) ∧
      (address ∈ s.device.firewall ↔ address ∈ entries s.device.firewall) := by
  by_cases used : address ∈ s.device.firewall
  · have nonzero : address ≠ 0 := by
      rcases regular with other | full
      · exact other
      · rintro rfl
        exact full used
    have perm := entries_overwrite_used nonzero used
    have heldPerm := sound.table.symm.trans perm
    have gone := (List.nodup_cons.mp (heldPerm.nodup_iff.mp sound.once)).1
    refine ⟨?_, by simp [mem_entries, nonzero]⟩
    refine List.Perm.symm ((heldPerm.filter _).trans ?_)
    rw [List.filter_cons_of_neg (by simp), List.filter_eq_self.mpr]
    intro other member
    simp only [decide_eq_true_eq]
    rintro rfl
    exact gone member
  · have absent : address ∉ s.held := by
      rw [← sound.table.mem_iff, mem_entries]
      exact fun both => used both.1
    refine ⟨?_, by simp [mem_entries, used]⟩
    rw [overwriteFirst_of_none, List.filter_eq_self.mpr]
    · exact sound.table
    · intro other member
      simp only [decide_eq_true_eq]
      rintro rfl
      exact absent member
    · intro other member
      simp only [decide_eq_false_iff_not]
      rintro rfl
      exact used member

/-- A regular call keeps the table exact. -/
theorem exact_step (s : State) (op : Op) (s' : State) (sound : Exact s) (regular : Regular s op)
    (stepped : step s op = some s') : Exact s' := by
  cases op with
  | loadCmdbufTee size weightGaddr pAddr =>
    cases stepped
    exact exact_load sound regular.1 regular.2
  | memFreeRaw mem =>
    obtain ⟨block, after, here, ⟨-, rfl⟩ | ⟨owned, rfl⟩⟩ := step_memFreeRaw_cases stepped
    · exact ⟨sound.table, sound.once, sound.events⟩
    · obtain ⟨table, same⟩ := table_free sound (regular block here owned)
      refine ⟨table, sound.once.filter _, ?_⟩
      intro event member
      rcases List.mem_cons.mp member with rfl | earlier
      · exact decide_eq_decide.mpr same
      · exact sound.events event earlier
  | memAllocRaw size pAddr =>
    cases stepped
    exact ⟨sound.table, sound.once, sound.events⟩
  | memPreallocRaw mem offset size =>
    obtain ⟨result, -, made⟩ := Option.bind_eq_some_iff.mp stepped
    cases made
    exact ⟨sound.table, sound.once, sound.events⟩

/-- A load of address 0 is recorded nowhere, and a load that finds no entry keeps its block. -/
theorem load_breaks {size weightGaddr pAddr : UInt64}
    (irregular : ¬ (weightGaddr ≠ 0 ∧ (weightGaddr ∈ s.device.firewall ∨ 0 ∈ s.device.firewall))) :
    ¬ Exact (afterLoad s weightGaddr (loadCmdbufTee s.device size weightGaddr pAddr)) := by
  intro sound
  by_cases room : weightGaddr ∈ s.device.firewall ∨ 0 ∈ s.device.firewall
  · obtain rfl : weightGaddr = 0 := by
      by_contra nonzero
      exact irregular ⟨nonzero, room⟩
    have marked : (0 : UInt64) ∈ s.device.firewall := room.elim id id
    simp only [loadCmdbufTee, record, if_pos marked, afterLoad] at sound
    have held : (0 : UInt64) ∈ if 0 ∈ s.held then s.held else 0 :: s.held := by
      split
      · assumption
      · exact List.mem_cons_self
    exact (mem_entries.mp (sound.table.mem_iff.mpr held)).2 rfl
  · obtain ⟨new, full⟩ := not_or.mp room
    simp only [loadCmdbufTee, record, if_neg new, if_neg full, afterLoad] at sound
    have good := (sound.events _ List.mem_cons_self).2
    simp [MemRegistry.memAlloc, Heap.live_alloc] at good

/-- Any other call shows in the table or in the log. -/
theorem step_breaks (s : State) (op : Op) (s' : State) (irregular : ¬ Regular s op)
    (stepped : step s op = some s') : ¬ Exact s' := by
  cases op with
  | loadCmdbufTee size weightGaddr pAddr =>
    cases stepped
    exact load_breaks irregular
  | memFreeRaw mem =>
    simp only [Regular, not_forall, not_or, not_not] at irregular
    obtain ⟨block, here, owned, zero, marked⟩ := irregular
    obtain ⟨block', after, here', ⟨window, -⟩ | ⟨-, rfl⟩⟩ := step_memFreeRaw_cases stepped
    · obtain rfl : block = block' := Option.some.inj (here.symm.trans here')
      rw [owned] at window
      cases window
    · obtain rfl : block = block' := Option.some.inj (here.symm.trans here')
      intro sound
      have good := sound.events _ List.mem_cons_self
      simp [Event.Good, zero, marked, mem_entries] at good
  | memAllocRaw size pAddr => exact absurd trivial irregular
  | memPreallocRaw mem offset size => exact absurd trivial irregular

end Steps

theorem exact_init : Exact init where
  table := by
    have none : entries init.device.firewall = [] := by decide
    rw [none]
    exact List.Perm.nil
  once := List.nodup_nil
  events := by
    intro event member
    cases member

/-- The table is exact in all states of a run exactly when no load has the weight address 0, no
    block at address 0 is freed while an entry is empty, and every load of a new address finds
    an empty entry. -/
theorem teeFirewall_exact_iff (ops : List Op) (t : State) (done : Run.run step init ops = some t) :
    (∀ before after u, before ++ after = ops → Run.run step init before = some u → Exact u) ↔
      Run.Admits step Regular init ops :=
  Run.forall_reached_iff (fun _ sound => sound) exact_step
    (fun s op s' _ irregular stepped => step_breaks s op s' irregular stepped) exact_init done

/-- A weight block, a load that names it, and the free of the weight. -/
theorem teeFirewall_exact_weight :
    ∃ t, Run.run step init [.memAllocRaw 4096 8192, .loadCmdbufTee 64 8192 16384, .memFreeRaw 0] =
        some t ∧ t.log = [.freed true true] ∧ Exact t := by
  refine ⟨_, rfl, rfl, (teeFirewall_exact_iff
    [.memAllocRaw 4096 8192, .loadCmdbufTee 64 8192 16384, .memFreeRaw 0] _ rfl).mpr ?_ _ [] _
    (List.append_nil _) rfl⟩
  refine ⟨trivial, ?_⟩
  intro s first
  cases first
  refine ⟨⟨by decide, Or.inr (by decide)⟩, ?_⟩
  intro s first
  cases first
  refine ⟨?_, fun _ _ => trivial⟩
  intro block here _
  cases here
  exact Or.inl (by decide)

/-- `CviModel::loadCmdbuf` passes the weight address 0: the load succeeds and is not recorded. -/
theorem teeFirewall_zero_not_recorded :
    ∃ t, Run.run step init [.loadCmdbufTee 64 0 4096] = some t ∧ t.held = [0] ∧
      entries t.device.firewall = [] ∧ ¬ Exact t := by
  refine ⟨_, rfl, rfl, by decide, fun sound => ?_⟩
  have member := sound.table.mem_iff.mpr List.mem_cons_self
  exact (mem_entries.mp member).2 rfl

end CviRuntime.TeeFirewall
