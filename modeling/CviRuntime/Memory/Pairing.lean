import CviRuntime.Memory.Custody

/-!
# What reaches the free callbacks

Whatever the application calls, and whenever it replaces the callbacks, a free callback only ever
gets handles that are live and that none got before. What the device layer made reaches it as well
as what an alloc callback returned.
-/

namespace CviRuntime.Memory

open Run
open CviRuntime.Runtime

section perm

variable {α β : Type*} {list : List α} {i : Nat} {a b : α}

theorem flatMap_perm_eraseIdx (f : α → List β) (found : list[i]? = some a) :
    (list.flatMap f).Perm (f a ++ (list.eraseIdx i).flatMap f) := by
  obtain ⟨bound, rfl⟩ := List.getElem?_eq_some_iff.mp found
  exact (List.getElem_cons_eraseIdx_perm bound).symm.flatMap_right f

theorem flatMap_set_perm (f : α → List β) (found : list[i]? = some a) :
    ((list.set i b).flatMap f).Perm (f b ++ (list.eraseIdx i).flatMap f) := by
  obtain ⟨bound, -⟩ := List.getElem?_eq_some_iff.mp found
  have set := flatMap_perm_eraseIdx f (List.getElem?_set_self (a := b) bound)
  rwa [List.eraseIdx_set_eq] at set

theorem flatMap_filterMap_id (f : α → List β) (list : List (Option α)) :
    (list.filterMap id).flatMap f = list.flatMap fun x => x.toList.flatMap f := by
  induction list with
  | nil => rfl
  | cons x list ih =>
    cases x with
    | none => simpa using ih
    | some a => simpa using ih

end perm

namespace CviModel

open Program (handlesOf sharesOf)

theorem handles_eq (m : CviModel) : m.handles = m.owned ++ m.instances.flatMap handlesOf := by
  rw [handles, programs, flatMap_filterMap_id]
  rfl

theorem shares_eq (m : CviModel) : m.shares = m.instances.flatMap sharesOf := by
  rw [shares, programs, flatMap_filterMap_id]
  rfl

variable {m : CviModel} {j : Nat} {before after : Option Program} {mem mem' : SharedMem}

/-- What an instance holds, apart from the rest of its model. -/
theorem handles_perm (found : m.instances[j]? = some before) :
    m.handles.Perm (handlesOf before ++ { m with instances := m.instances.eraseIdx j }.handles) := by
  simp only [handles_eq]
  refine List.Perm.trans ?_ (List.perm_append_comm_assoc m.owned _ _)
  exact (flatMap_perm_eraseIdx handlesOf found).append_left m.owned

theorem shares_perm (found : m.instances[j]? = some before) :
    m.shares.Perm (sharesOf before ++ { m with instances := m.instances.eraseIdx j }.shares) := by
  simp only [shares_eq]
  exact flatMap_perm_eraseIdx sharesOf found

/-- What an instance does, seen from its model. -/
theorem turns_set (found : m.instances[j]? = some before)
    (turns : Turns mem mem' (handlesOf before) (sharesOf before) (handlesOf after)
      (sharesOf after)) :
    Turns mem mem' m.handles m.shares { m with instances := m.instances.set j after }.handles
      { m with instances := m.instances.set j after }.shares := by
  obtain ⟨bound, -⟩ := List.getElem?_eq_some_iff.mp found
  have there : { m with instances := m.instances.set j after }.instances[j]? = some after :=
    List.getElem?_set_self bound
  have handles := handles_perm there
  have shares := shares_perm there
  simp only [List.eraseIdx_set_eq] at handles shares
  exact (turns.frame _ _).perm (handles_perm found) (shares_perm found) handles.symm shares.symm

theorem turns_erase (found : m.instances[j]? = some before)
    (turns : Turns mem mem' (handlesOf before) (sharesOf before) [] []) :
    Turns mem mem' m.handles m.shares { m with instances := m.instances.eraseIdx j }.handles
      { m with instances := m.instances.eraseIdx j }.shares :=
  (turns.frame _ _).perm (handles_perm found) (shares_perm found) (.refl _) (.refl _)

end CviModel

/-- No block of an alloc callback is live. -/
def Device.Idle (device : Device) : Prop :=
  ∀ handle block pair, device.heap.cell handle = some block → block.origin ≠ .callback pair

namespace Library

/-- Another pair of callbacks is installed only while no block of an alloc callback is live. -/
def Quiet (s : Library) : Action → Prop
  | .setMemAllocCallback (some pair) => pair = s.mem.device.pair ∨ s.mem.device.Idle
  | .resetMemAllocCallback => 0 = s.mem.device.pair ∨ s.mem.device.Idle
  | _ => True

/-- No handle has two holders, and a model counts its instances. -/
structure Inv (s : Library) : Prop where
  world : World s.mem (s.models.flatMap CviModel.handles) (s.models.flatMap CviModel.shares)
  counted : ∀ m ∈ s.models, m.ref = m.instances.length

theorem Inv.new : Library.new.Inv where
  world := ⟨.nil, by simp [Library.new, SharedMem.new], by simp [Library.new, SharedMem.new]⟩
  counted := by simp [Library.new]

section inv

variable {s : Library} {i : Nat} {m m' : CviModel} {mem : SharedMem}

theorem Inv.set (inv : s.Inv) (found : s.models[i]? = some m)
    (turns : Turns s.mem mem m.handles m.shares m'.handles m'.shares)
    (count : m'.ref = m'.instances.length) :
    Inv ⟨mem, s.models.set i m'⟩ ∧ s.mem.device.Steps mem.device := by
  obtain ⟨world, steps⟩ := turns _ _ (inv.world.perm (flatMap_perm_eraseIdx _ found)
    (flatMap_perm_eraseIdx _ found))
  refine ⟨⟨world.perm (flatMap_set_perm _ found).symm (flatMap_set_perm _ found).symm, ?_⟩, steps⟩
  intro other member
  rcases List.mem_or_eq_of_mem_set member with member | rfl
  · exact inv.counted other member
  · exact count

theorem Inv.erase (inv : s.Inv) (found : s.models[i]? = some m)
    (turns : Turns s.mem mem m.handles m.shares [] []) :
    Inv ⟨mem, s.models.eraseIdx i⟩ ∧ s.mem.device.Steps mem.device := by
  obtain ⟨world, steps⟩ := turns _ _ (inv.world.perm (flatMap_perm_eraseIdx _ found)
    (flatMap_perm_eraseIdx _ found))
  exact ⟨⟨world, fun other member => inv.counted other (List.mem_of_mem_eraseIdx member)⟩, steps⟩

theorem Inv.add (inv : s.Inv) (turns : Turns s.mem mem [] [] m.handles m.shares)
    (count : m.ref = m.instances.length) :
    Inv ⟨mem, s.models ++ [m]⟩ ∧ s.mem.device.Steps mem.device := by
  obtain ⟨world, steps⟩ := turns _ _ inv.world
  refine ⟨⟨?_, ?_⟩, steps⟩
  · simp only [List.flatMap_append, List.flatMap_singleton]
    exact world.perm List.perm_append_comm List.perm_append_comm
  · intro other member
    rcases List.mem_append.mp member with member | member
    · exact inv.counted other member
    · rw [List.mem_singleton.mp member]
      exact count

end inv

section step

open Program (handlesOf sharesOf)

variable {physical : Nat → Nat} {s s' : Library} {i j : Nat}

theorem step_registerModel {b : Build} {g : Globals} {a : Attempt} {fb : FbModel} (inv : s.Inv)
    (stepped : s.step physical (.registerModel b g a fb) = some s') :
    s'.Inv ∧ s.mem.device.Steps s'.mem.device := by
  obtain ⟨⟨rc, g', m⟩, parsed, rest⟩ := Option.bind_eq_some_iff.mp stepped
  have moves := ModelMem.parse_moves parsed
  dsimp only at rest
  split at rest
  · cases rest
    have nothing : Turns s.mem { s.mem with
        device := m.device.freeAll (CviModel.ofParse m).owned } [] [] [] [] :=
      .of_moves (moves.trans (.freeAll _ _))
    obtain ⟨world, steps⟩ := nothing _ _ inv.world
    exact ⟨⟨world, inv.counted⟩, steps⟩
  · cases rest
    have handles : (CviModel.ofParse m).handles = m.owned := by
      simp [CviModel.handles, CviModel.programs, ModelMem.owned, CviModel.ofParse]
    refine inv.add ?_ rfl
    rw [handles]
    exact .of_moves moves

theorem step_cloneModel (inv : s.Inv) (stepped : s.step physical (.cloneModel i) = some s') :
    s'.Inv ∧ s.mem.device.Steps s'.mem.device := by
  obtain ⟨m, found, rest⟩ := Option.bind_eq_some_iff.mp stepped
  cases rest
  refine inv.set found ?_ ?_
  · simp only [CviModel.handles_eq, CviModel.shares_eq, List.flatMap_append, List.flatMap_singleton]
    simp only [handlesOf, sharesOf, Option.toList_none, List.flatMap_nil, List.append_nil]
    exact .refl
  · simp [inv.counted m (List.mem_of_getElem? found)]

theorem step_loadProgram {fb : FbProgram} (inv : s.Inv)
    (stepped : s.step physical (.loadProgram i j fb) = some s') :
    s'.Inv ∧ s.mem.device.Steps s'.mem.device := by
  obtain ⟨m, found, rest⟩ := Option.bind_eq_some_iff.mp stepped
  split at rest
  · next waiting =>
    obtain ⟨⟨p, mem⟩, loaded, rest⟩ := Option.bind_eq_some_iff.mp rest
    cases rest
    refine inv.set found (CviModel.turns_set waiting (Program.loadProgram_turns loaded)) ?_
    simp [inv.counted m (List.mem_of_getElem? found)]
  · cases rest

theorem step_setTensorPhysicalAddr {name : String} {paddr : Nat} (inv : s.Inv)
    (stepped : s.step physical (.setTensorPhysicalAddr i j name paddr) = some s') :
    s'.Inv ∧ s.mem.device.Steps s'.mem.device := by
  obtain ⟨m, found, rest⟩ := Option.bind_eq_some_iff.mp stepped
  split at rest
  · next p running =>
    obtain ⟨n, entry, rest⟩ := Option.bind_eq_some_iff.mp rest
    rcases updated : n.updateBaseAddr s.mem.device p.base paddr with ⟨n', base, device⟩
    rw [updated] at rest
    cases rest
    refine inv.set found (CviModel.turns_set running ?_) ?_
    · have moves := p.assign_moves entry (NeuronMem.updateBaseAddr_moves updated)
      have turns := (Turns.of_moves moves).frame [] p.sharedMem.toList
      simp only [handlesOf, sharesOf, Option.toList_some, List.flatMap_singleton]
      simp only [List.append_nil, List.nil_append] at turns
      exact turns
    · simp [inv.counted m (List.mem_of_getElem? found)]
  · cases rest

/-- The last instance takes its model with it. -/
theorem Inv.release {m : CviModel} {program : Option Program} {mem : SharedMem} (inv : s.Inv)
    (found : s.models[i]? = some m) (there : m.instances[j]? = some program)
    (gone : Turns s.mem mem (handlesOf program) (sharesOf program) [] []) :
    (Library.release { s with mem := mem } i j m).Inv ∧
      s.mem.device.Steps (Library.release { s with mem := mem } i j m).mem.device := by
  obtain ⟨bound, -⟩ := List.getElem?_eq_some_iff.mp there
  have count := inv.counted m (List.mem_of_getElem? found)
  have turns := CviModel.turns_erase there gone
  rw [Library.release]
  dsimp only
  split
  · next last =>
    have none : m.instances.eraseIdx j = [] := by
      rw [← List.length_eq_zero_iff, List.length_eraseIdx_of_lt bound]
      omega
    rw [none, CviModel.handles_eq { m with instances := [] },
      CviModel.shares_eq { m with instances := [] }] at turns
    simp only [List.flatMap_nil, List.append_nil] at turns
    exact inv.erase found (turns.trans (.of_moves (.freeAll m.owned _)))
  · refine inv.set found ?_ ?_
    · exact turns
    · simp only [List.length_eraseIdx_of_lt bound, count]
      omega

theorem step_cleanupModel (inv : s.Inv)
    (stepped : s.step physical (.cleanupModel i j) = some s') :
    s'.Inv ∧ s.mem.device.Steps s'.mem.device := by
  obtain ⟨m, found, rest⟩ := Option.bind_eq_some_iff.mp stepped
  obtain ⟨program, there, rest⟩ := Option.bind_eq_some_iff.mp rest
  cases program with
  | none =>
    cases rest
    exact inv.release found there .refl
  | some p =>
    cases rest
    refine inv.release found there ?_
    simpa [handlesOf, sharesOf] using p.destroy_turns s.mem

/-- What an action can do to the device: steps that free live handles only, or another pair. -/
theorem step_effect {action : Action} (inv : s.Inv) (stepped : s.step physical action = some s') :
    s'.Inv ∧ (s.mem.device.Steps s'.mem.device ∨
      ∃ pair, s'.mem.device = { s.mem.device with pair := pair } ∧
        (s.Quiet action → pair = s.mem.device.pair ∨ s.mem.device.Idle)) := by
  have installed : ∀ pair, Inv (s.withDevice { s.mem.device with pair := pair }) := fun pair =>
    ⟨⟨⟨inv.world.owns.nodup, inv.world.owns.live⟩, inv.world.shared, inv.world.counted⟩,
      inv.counted⟩
  cases action with
  | registerModel b g a fb => exact (step_registerModel inv stepped).imp_right .inl
  | cloneModel i => exact (step_cloneModel inv stepped).imp_right .inl
  | loadProgram i j fb => exact (step_loadProgram inv stepped).imp_right .inl
  | setTensorPhysicalAddr i j name paddr =>
    exact (step_setTensorPhysicalAddr inv stepped).imp_right .inl
  | cleanupModel i j => exact (step_cleanupModel inv stepped).imp_right .inl
  | setMemAllocCallback pair =>
    cases pair with
    | none =>
      cases stepped
      exact ⟨inv, .inl .refl⟩
    | some pair =>
      cases stepped
      exact ⟨installed pair, .inr ⟨pair, rfl, id⟩⟩
  | resetMemAllocCallback =>
    cases stepped
    exact ⟨installed 0, .inr ⟨0, rfl, id⟩⟩
  | setSharedMemSize size =>
    cases stepped
    exact ⟨⟨⟨inv.world.owns, inv.world.shared, inv.world.counted⟩, inv.counted⟩, .inl .refl⟩

theorem step_tidy {action : Action} (inv : s.Inv) (tidy : s.mem.device.Tidy)
    (stepped : s.step physical action = some s') : s'.Inv ∧ s'.mem.device.Tidy := by
  obtain ⟨inv', steps | ⟨pair, same, -⟩⟩ := step_effect inv stepped
  · exact ⟨inv', tidy.steps steps⟩
  · rw [same]
    exact ⟨inv', tidy.of_live rfl rfl fun _ => Iff.rfl⟩

/-- Without blocks of alloc callbacks, any pair may be installed. -/
theorem step_paired {action : Action} (inv : s.Inv) (paired : s.mem.device.Paired)
    (quiet : s.Quiet action) (stepped : s.step physical action = some s') :
    s'.Inv ∧ s'.mem.device.Paired := by
  obtain ⟨inv', steps | ⟨pair, same, allowed⟩⟩ := step_effect inv stepped
  · exact ⟨inv', paired.steps steps⟩
  · rw [same]
    refine ⟨inv', fun handle block origin found is => ?_, paired.past⟩
    rcases allowed quiet with rfl | idle
    · exact paired.live handle block origin found is
    · exact absurd is (idle handle block origin found)

end step

/-- After any calls: no handle was passed to a free callback twice, and each was live then,
    whether an alloc callback or the device layer had made it. Blocks of alloc callbacks went to
    the free callback of their own pair if no other pair was installed while one was live. -/
theorem run_released (physical : Nat → Nat) (actions : List Action) {s : Library}
    (ran : run (step physical) Library.new actions = some s) :
    (s.mem.device.released.map Release.handle).Nodup ∧
    (∀ release ∈ s.mem.device.released, release.block ≠ none) ∧
    (Admits (step physical) Quiet Library.new actions →
      ∀ release ∈ s.mem.device.released, ∀ block pair, release.block = some block →
        block.origin = .callback pair → pair = release.pair) := by
  have tidy : s.Inv ∧ s.mem.device.Tidy :=
    run_preserves (fun _ _ _ holds stepped => step_tidy holds.1 holds.2 stepped)
      ⟨Inv.new, Device.Tidy.new⟩ ran
  refine ⟨tidy.2.once, tidy.2.held, fun quiet => ?_⟩
  have paired : s.Inv ∧ s.mem.device.Paired :=
    run_invariant (fun _ _ _ holds quiet stepped => step_paired holds.1 holds.2 quiet stepped)
      ⟨Inv.new, Device.Paired.new⟩ quiet ran
  exact paired.2.past

/-- The calls of the free callbacks: the pair, and what had made the handle. -/
def frees (s : Library) : List (Nat × Option Origin) :=
  s.mem.device.released.map fun release => (release.pair, release.block.map Block.origin)

/-- A model with a weight, a window for it, a DMA buffer that is loaded to another block and a
    command buffer. -/
def fourOrigins : FbModel :=
  ⟨1, 0,
    [⟨⟨.weight, "weight", 5, 4, false, false, 0⟩, ⟨true, true, .ok none, .ok 0, true⟩⟩,
      ⟨⟨.cmdbuf, "cmd", 3, 2, false, false, 0⟩, ⟨true, true, .ok none, .ok 64, true⟩⟩,
      ⟨⟨.dmabuf, "dma", 0, 3, false, false, 0⟩, ⟨true, true, .ok (some 8), .ok 0, true⟩⟩],
    [⟨"filter", true, 0, 4⟩]⟩

/-- `CVI_NN_RegisterModel` of that model. -/
def registerFourOrigins : Action :=
  .registerModel ModelMem.zeros (Globals.initial (.soc cv183x) []) cv183xAttempt fourOrigins

/-- The pair is installed before the model is registered. -/
def onePair : List Action :=
  [.setMemAllocCallback (some 1), registerFourOrigins, .cleanupModel 0 0]

theorem run_released_one_pair : ∃ s, run (step id) Library.new onePair = some s ∧
    s.frees = [(1, some (.callback 1)), (1, some (.callback 1)), (1, some .loadDmabuf),
      (1, some .loadCmdbuf), (1, some (.memPreAlloc 0 0))] ∧
    (s.mem.device.released.map Release.handle).Nodup ∧
    ∀ release ∈ s.mem.device.released, ∀ block pair, release.block = some block →
      block.origin = .callback pair → pair = release.pair := by
  have frees : (run (step id) Library.new onePair).map frees = some _ := rfl
  obtain ⟨s, ran, frees⟩ := Option.map_eq_some_iff.mp frees
  obtain ⟨once, -, paired⟩ := run_released id onePair ran
  refine ⟨s, ran, frees, once, paired ⟨.inr ?_, ?_⟩⟩
  · intro handle block pair found
    cases found
  · exact fun _ _ => ⟨trivial, fun _ _ => ⟨trivial, fun _ _ => trivial⟩⟩

/-- Registered under one pair and given up under another, and once more under that one. -/
def twoPairs : List Action :=
  [registerFourOrigins, .setMemAllocCallback (some 1), .cleanupModel 0 0, registerFourOrigins,
    .cleanupModel 0 0]

/-- The free callback of pair 1 gets a block that the alloc callback of pair 0 returned, and what
    the device layer made under either pair. -/
theorem freed_by_other_pair : ∃ s, run (step id) Library.new twoPairs = some s ∧
    s.frees = [(0, some (.callback 0)), (1, some (.callback 0)), (1, some .loadDmabuf),
      (1, some .loadCmdbuf), (1, some (.memPreAlloc 0 0)), (1, some (.callback 1)),
      (1, some (.callback 1)), (1, some .loadDmabuf), (1, some .loadCmdbuf),
      (1, some (.memPreAlloc 5 0))] ∧
    ¬ ∀ free ∈ s.frees, free.2 = some (.callback free.1) := by
  have frees : (run (step id) Library.new twoPairs).map frees = some _ := rfl
  obtain ⟨s, ran, frees⟩ := Option.map_eq_some_iff.mp frees
  refine ⟨s, ran, frees, fun all => ?_⟩
  rw [frees] at all
  exact absurd (all (1, some .loadDmabuf) (by decide)) (by decide)

end Library

end CviRuntime.Memory
