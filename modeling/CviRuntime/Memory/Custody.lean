import Mathlib.Data.List.Flatten
import CviRuntime.Memory.Library
import CviRuntime.Memory.ParsePromise

/-!
# The handles of the parts of the library

Parsing a model, loading a program and giving either up turn the handles that the part holds into
others. A part gives up each of its handles once, and no part gives up those of another; the
blocks of the pool go with the last share in them.
-/

namespace CviRuntime.Memory

open Run
open CviRuntime.Runtime

/-- What an entry gives up and what the other names hold was held before. -/
theorem subperm_of_lookup {β : Type*} (f : β → List Nat) {name : String} {old : β} :
    ∀ {map : List (String × β)}, map.lookup name = some old →
      (f old ++ (map.filter (·.1 ≠ name)).flatMap fun entry => f entry.2).Subperm
        (map.flatMap fun entry => f entry.2) := by
  intro map
  induction map with
  | nil =>
    intro found
    cases found
  | cons entry map ih =>
    intro found
    by_cases same : entry.1 = name
    · have is : old = entry.2 := by
        rw [List.lookup_cons, same, beq_self_eq_true] at found
        exact (Option.some.inj found).symm
      rw [List.filter_cons_of_neg (by simp [same]), List.flatMap_cons, is]
      refine List.Sublist.subperm (List.Sublist.append_left ?_ _)
      exact List.filter_sublist.flatMap _
    · have later : map.lookup name = some old := by
        rwa [List.lookup_cons, beq_eq_false_iff_ne.mpr (Ne.symm same)] at found
      rw [List.filter_cons_of_pos (by simp [same]), List.flatMap_cons, List.flatMap_cons]
      have shuffle : (f old ++ (f entry.2 ++ (map.filter (·.1 ≠ name)).flatMap fun e => f e.2)).Perm
          (f entry.2 ++ (f old ++ (map.filter (·.1 ≠ name)).flatMap fun e => f e.2)) :=
        List.perm_append_comm_assoc _ _ _
      exact shuffle.subperm.trans ((List.subperm_append_left _).mpr (ih later))

/-- Names without an entry hold nothing. -/
theorem filter_of_lookup_none {β : Type*} {name : String} {map : List (String × β)}
    (absent : map.lookup name = none) : map.filter (·.1 ≠ name) = map := by
  rw [List.filter_eq_self]
  intro entry member
  have other := List.lookup_eq_none_iff.mp absent entry member
  rw [bne_iff_ne] at other
  simpa using Ne.symm other

namespace ModelMem

/-- What `~CviModel` will free. -/
def owned (m : ModelMem) : List Nat := (CviModel.ofParse m).owned

variable {b : Build} {stream : List UInt8} {binOffset : Nat} {m m' : ModelMem} {job : Job} {rc : Int}

theorem Effect.moves (effect : Effect b stream binOffset m job rc m') :
    m.device.Moves m'.device m.owned m'.owned := by
  have windows := effect.weightMap
  cases effect.change with
  | loaded h block loads grows above cell content map weight weighs leaks =>
    have moves := (grows.moves (by simp) (by simpa using above)).frame m.owned
    refine moves.weaken ?_
    simp only [owned, CviModel.owned, CviModel.ofParse, weight, windows, map]
    rw [emplace]
    split
    · exact (List.sublist_cons_self _ _).subperm
    · rw [List.map_append, List.map_singleton]
      refine List.Perm.subperm ?_
      rw [← List.append_assoc, List.append_assoc _ [h]]
      exact List.perm_append_comm_assoc _ [h] _
  | weighed mem weighs grows above map weight done loads leaks =>
    have moves := (grows.moves (by cases mem <;> simp) (by simpa using above)).frame m.owned
    refine moves.weaken ?_
    simp only [owned, CviModel.owned, CviModel.ofParse, weight, windows, map]
    rw [List.append_assoc, List.append_assoc]
    exact ((List.sublist_append_right _ _).append_left _).subperm
  | leaked h leaks grows above map weight loads weighs =>
    have moves := (grows.moves (by simp) (by simpa using above)).frame m.owned
    refine moves.weaken ?_
    simp only [owned, CviModel.owned, CviModel.ofParse, weight, windows, map]
    exact (List.sublist_cons_self _ _).subperm
  | untouched grows map weight loads weighs leaks =>
    have moves := (grows.moves (by simp) (by simp)).frame m.owned
    refine moves.weaken ?_
    simp only [owned, CviModel.owned, CviModel.ofParse, weight, windows, map]
    exact List.Subperm.refl _

theorem loadEach_moves : ∀ {jobs : List Job} {m : ModelMem},
    loadEach (loadJob b stream binOffset) m jobs = some (rc, m') →
      m.device.Moves m'.device m.owned m'.owned := by
  intro jobs
  induction jobs with
  | nil =>
    intro m done
    cases done
    exact .refl
  | cons job jobs ih =>
    intro m done
    rcases loadEach_cons done with ⟨only, -⟩ | ⟨between, loaded, rest⟩
    · exact (loadJob_effect only).moves
    · exact (loadJob_effect loaded).moves.trans (ih rest)

/-- The window of a weight takes the place of the older one of its name. -/
theorem addWeight_moves {weight : FbWeight} (added : m.addWeight weight = some m') :
    m.device.Moves m'.device m.owned m'.owned := by
  rw [addWeight] at added
  split at added
  · obtain ⟨⟨gmem, device⟩, window, outcome⟩ := Option.bind_eq_some_iff.mp added
    obtain ⟨root, -, rfl, made⟩ := Device.memPreAlloc_cases window
    have opened : m.device.Moves device m.owned (m.device.heap.next :: m.owned) := by
      rw [made]
      exact (Device.Moves.make (by simp)).frame m.owned
    dsimp only at outcome
    split at outcome
    · next old found =>
      cases outcome
      have replaced : (old :: (m.device.heap.next :: (m.weightMem.toList ++
          m.dmabufMap.map Prod.snd ++
          (m.weightMap.filter (·.1 ≠ weight.name)).map Prod.snd))).Subperm
          (m.device.heap.next :: m.owned) := by
        refine (List.Perm.swap _ _ _).subperm.trans ((List.subperm_cons _).mpr ?_)
        refine List.perm_middle.symm.subperm.trans ((List.subperm_append_left _).mpr ?_)
        have entry := subperm_of_lookup (fun h => [h]) found
        simp only [← List.map_eq_flatMap] at entry
        exact entry
      refine (opened.weaken replaced).trans ?_
      refine ((Device.Moves.free device old).frame _).weaken ?_
      simp only [owned, CviModel.owned, CviModel.ofParse, assign, List.map_append,
        List.map_singleton, List.nil_append, ← List.append_assoc]
      exact List.perm_append_singleton _ _ |>.subperm
    · next absent =>
      cases outcome
      refine opened.weaken ?_
      simp only [owned, CviModel.owned, CviModel.ofParse, assign, filter_of_lookup_none absent,
        List.map_append, List.map_singleton, ← List.append_assoc]
      exact List.perm_append_singleton _ _ |>.subperm
  · cases added
    exact .refl

theorem createCpuWeightMap_moves : ∀ {weights : List FbWeight} {m : ModelMem},
    m.createCpuWeightMap weights = some m' → m.device.Moves m'.device m.owned m'.owned := by
  intro weights
  induction weights with
  | nil =>
    intro m done
    cases done
    exact .refl
  | cons weight weights ih =>
    intro m done
    obtain ⟨between, added, rest⟩ := Option.bind_eq_some_iff.mp done
    exact (addWeight_moves added).trans (ih rest)

/-- Parsing makes blocks for the model, and frees no others. -/
theorem parse_moves {g g' : Globals} {a : Attempt} {fb : FbModel} {device : Device}
    (parsed : parse b g a fb device = some (rc, g', m)) :
    device.Moves m.device [] m.owned := by
  rw [parse] at parsed
  split at parsed
  split at parsed
  · cases parsed
    exact .refl
  · obtain ⟨⟨rc', m'⟩, body, same⟩ := Option.bind_eq_some_iff.mp parsed
    cases same
    obtain ⟨bytes, -, rest⟩ := Option.bind_eq_some_iff.mp body
    dsimp only at rest
    split at rest
    · cases rest
      exact .refl
    · obtain ⟨⟨rc'', m''⟩, sections, rest⟩ := Option.bind_eq_some_iff.mp rest
      rw [extractSections_eq] at sections
      have moves := loadEach_moves sections
      dsimp only at rest
      split at rest
      · cases rest
        exact moves
      · obtain ⟨last, windows, same⟩ := Option.bind_eq_some_iff.mp rest
        cases same
        exact moves.trans (createCpuWeightMap_moves windows)

end ModelMem

/-- A neuron gets a window or a block of its own, or nothing. -/
theorem NeuronMem.reserveIonMem_moves {physical : Nat → Nat} {device device' : Device}
    {base base' : BaseArrays} {size offset : Nat} {n : NeuronMem} {ok done : Bool}
    (reserved : (NeuronMem.new size).reserveIonMem physical device base offset ok =
      some (done, n, base', device')) :
    device.Moves device' [] (if done then n.gmem.toList else []) := by
  rcases reserveIonMem_cases reserved with ⟨rfl, rfl, -, rfl⟩ | ⟨rfl, -, rfl⟩ |
    ⟨index, root, shift, -, rfl, -, rfl, rfl⟩ | ⟨index, -, -, rfl, -, rfl, rfl⟩
  · exact .refl
  · exact .refl
  · exact .make (by simp)
  · exact .make (by simp)

theorem NeuronMem.updateBaseAddr_moves {device device' : Device} {base base' : BaseArrays}
    {n n' : NeuronMem} {paddr : Nat}
    (updated : n.updateBaseAddr device base paddr = (n', base', device')) :
    device.Moves device' n.gmem.toList n'.gmem.toList := by
  rcases updateBaseAddr_cases device base n paddr with ⟨-, is⟩ | ⟨-, none, is⟩ | ⟨gmem, -, own, is⟩
  · cases is.symm.trans updated
    exact .refl
  · cases is.symm.trans updated
    rw [none]
    exact .refl
  · cases is.symm.trans updated
    rw [own]
    exact .free device gmem

namespace Program

/-- What the neurons hold. -/
def windows (neuronMap : List (String × NeuronMem)) : List Nat :=
  neuronMap.flatMap fun entry => entry.2.gmem.toList

theorem windows_assign (neuronMap : List (String × NeuronMem)) (name : String) (n : NeuronMem) :
    windows (assign neuronMap name n) =
      windows (neuronMap.filter (·.1 ≠ name)) ++ n.gmem.toList := by
  simp [windows, assign, List.flatMap_append]

/-- What a name gives up and what the others hold was held before. -/
theorem subperm_windows (neuronMap : List (String × NeuronMem)) (name : String) :
    (((neuronMap.lookup name).bind NeuronMem.gmem).toList ++
      windows (neuronMap.filter (·.1 ≠ name))).Subperm (windows neuronMap) := by
  cases found : neuronMap.lookup name with
  | none =>
    rw [filter_of_lookup_none found]
    exact .refl _
  | some old => exact subperm_of_lookup (fun n => n.gmem.toList) found

variable {physical : Nat → Nat} {p p' : Program} {device device' : Device} {done : Bool}

theorem addNeuron_moves {t : FbTensorMem}
    (added : p.addNeuron physical device t = some (done, p', device')) :
    device.Moves device' (windows p.neuronMap) (windows p'.neuronMap) ∧
      p'.privateMem = p.privateMem ∧ p'.sharedMem = p.sharedMem := by
  obtain ⟨⟨reserves, n, base, between⟩, reserved, rest⟩ := Option.bind_eq_some_iff.mp added
  have moves := (NeuronMem.reserveIonMem_moves reserved).frame (windows p.neuronMap)
  cases reserves with
  | false =>
    cases rest
    exact ⟨moves, rfl, rfl⟩
  | true =>
    cases rest
    refine ⟨?_, rfl, rfl⟩
    have split : (((p.neuronMap.lookup t.name).bind NeuronMem.gmem).toList ++
        (n.gmem.toList ++ windows (p.neuronMap.filter (·.1 ≠ t.name)))).Subperm
        (n.gmem.toList ++ windows p.neuronMap) :=
      (List.perm_append_comm_assoc _ _ _).subperm.trans
        ((List.subperm_append_left _).mpr (subperm_windows p.neuronMap t.name))
    refine (moves.weaken split).trans ?_
    refine ((Device.Moves.freeAll _ between).frame _).weaken ?_
    rw [windows_assign, List.nil_append]
    exact List.perm_append_comm.subperm

/-- A neuron that is there changes what it holds. -/
theorem assign_moves {name : String} {n n' : NeuronMem} (p : Program)
    (entry : p.neuronMap.lookup name = some n)
    (moves : device.Moves device' n.gmem.toList n'.gmem.toList) :
    device.Moves device' p.handles
      { p with neuronMap := assign p.neuronMap name n' }.handles := by
  have split : (n.gmem.toList ++ (p.privateMem.toList ++
      windows (p.neuronMap.filter (·.1 ≠ name)))).Subperm p.handles :=
    (List.perm_append_comm_assoc _ _ _).subperm.trans
      ((List.subperm_append_left _).mpr (subperm_of_lookup (fun n => n.gmem.toList) entry))
  refine ((Device.Moves.refl.weaken split).trans (moves.frame _)).weaken ?_
  refine List.Perm.subperm ?_
  rw [handles]
  change (_ ++ windows (assign p.neuronMap name n')).Perm _
  rw [windows_assign, ← List.append_assoc]
  exact List.perm_append_comm

theorem createNeuronMap_moves : ∀ {tensors : List FbTensorMem} {p : Program} {device : Device},
    p.createNeuronMap physical device tensors = some (done, p', device') →
      device.Moves device' (windows p.neuronMap) (windows p'.neuronMap) ∧
        p'.privateMem = p.privateMem ∧ p'.sharedMem = p.sharedMem := by
  intro tensors
  induction tensors with
  | nil =>
    intro p device created
    cases created
    exact ⟨.refl, rfl, rfl⟩
  | cons t tensors ih =>
    intro p device created
    obtain ⟨⟨added, between, device''⟩, one, rest⟩ := Option.bind_eq_some_iff.mp created
    obtain ⟨moves, privateMem, sharedMem⟩ := addNeuron_moves one
    cases added with
    | false =>
      cases rest
      exact ⟨moves, privateMem, sharedMem⟩
    | true =>
      obtain ⟨moves', privateMem', sharedMem'⟩ := ih rest
      exact ⟨moves.trans moves', privateMem'.trans privateMem, sharedMem'.trans sharedMem⟩

end Program

/-- The pool and the handles `mine` are all the library can free, and each block of the pool has
    as many references as there are shares in it. -/
structure World (mem : SharedMem) (mine shares : List Nat) : Prop where
  owns : mem.device.Owns (mine ++ mem.list)
  shared : ∀ h, h ∈ mem.list ↔ h ∈ shares
  counted : ∀ h ∈ mem.list, ∃ block, mem.device.heap.cell h = some block ∧
    block.userRefCnt = shares.count h

/-- Some part of the library turns its handles and its shares into others, whatever the rest of
    the library holds, and frees live handles only. -/
def Turns (mem mem' : SharedMem) (mine shares mine' shares' : List Nat) : Prop :=
  ∀ rest others, World mem (mine ++ rest) (shares ++ others) →
    World mem' (mine' ++ rest) (shares' ++ others) ∧ mem.device.Steps mem'.device

section turns

variable {mem mem' mem'' : SharedMem} {mine mine' mine'' shares shares' shares'' : List Nat}

theorem World.perm (world : World mem mine shares) (handles : mine.Perm mine')
    (users : shares.Perm shares') : World mem mine' shares' where
  owns := world.owns.perm (handles.append_right _)
  shared := fun h => (world.shared h).trans users.mem_iff
  counted := by
    intro h listed
    rw [← users.count_eq]
    exact world.counted h listed

theorem Turns.refl : Turns mem mem mine shares mine shares := fun _ _ world => ⟨world, .refl⟩

theorem Turns.trans (first : Turns mem mem' mine shares mine' shares')
    (second : Turns mem' mem'' mine' shares' mine'' shares'') :
    Turns mem mem'' mine shares mine'' shares'' := by
  intro rest others world
  obtain ⟨between, steps⟩ := first rest others world
  obtain ⟨last, steps'⟩ := second rest others between
  exact ⟨last, steps.trans steps'⟩

theorem Turns.frame (turns : Turns mem mem' mine shares mine' shares') (rest others : List Nat) :
    Turns mem mem' (mine ++ rest) (shares ++ others) (mine' ++ rest) (shares' ++ others) := by
  intro rest' others' world
  rw [List.append_assoc, List.append_assoc] at world ⊢
  exact turns _ _ world

theorem Turns.perm {mine₀ shares₀ mine₁ shares₁ : List Nat}
    (turns : Turns mem mem' mine shares mine' shares') (before : mine₀.Perm mine)
    (users : shares₀.Perm shares) (after : mine'.Perm mine₁) (users' : shares'.Perm shares₁) :
    Turns mem mem' mine₀ shares₀ mine₁ shares₁ := by
  intro rest others world
  obtain ⟨last, steps⟩ := turns rest others
    (world.perm (before.append_right rest) (users.append_right others))
  exact ⟨last.perm (after.append_right rest) (users'.append_right others), steps⟩

/-- What a holder does to its own handles leaves the pool as it is. -/
theorem Turns.of_moves {device : Device} (moves : mem.device.Moves device mine mine') :
    Turns mem { mem with device := device } mine [] mine' [] := by
  intro rest others world
  have all := world.owns
  rw [List.append_assoc] at all
  have own := (moves.frame (rest ++ mem.list)).owns all
  refine ⟨⟨by rwa [List.append_assoc], world.shared, fun h listed => ?_⟩,
    (moves.frame (rest ++ mem.list)).steps all⟩
  have alive := all.live h (List.mem_append_right _ (List.mem_append_right _ listed))
  have other : h ∉ mine := fun member =>
    (List.nodup_append.mp all.nodup).2.2 h member h (List.mem_append_right _ listed) rfl
  rw [moves.cells h alive.lt_next other]
  exact world.counted h listed

/-- One share more or one less in a block of the pool. -/
theorem World.count {h : Nat} {change : Int} (world : World mem mine shares) (listed : h ∈ mem.list)
    (users : ∀ k, k ∈ mem.list ↔ k ∈ shares')
    (counts : (shares.count h : Int) + change = shares'.count h)
    (others : ∀ k, k ≠ h → shares'.count k = shares.count k) :
    World { mem with device := (mem.device.addRef h change).2 } mine shares' where
  owns := ⟨world.owns.nodup, fun k member => Device.addRef_live.mpr (world.owns.live k member)⟩
  shared := users
  counted := by
    intro k member
    by_cases same : k = h
    · subst same
      obtain ⟨block, found, count⟩ := world.counted k listed
      exact ⟨_, Device.addRef_cell found, by rw [← counts, ← count]⟩
    · obtain ⟨block, found, count⟩ := world.counted k member
      exact ⟨block, (Device.addRef_cell_of_ne same).trans found, by rw [others k same, count]⟩

theorem World.live (world : World mem mine shares) {h : Nat} (listed : h ∈ mem.list) :
    mem.device.heap.Live h := world.owns.live h (List.mem_append_right _ listed)

/-- A new block of the pool. -/
theorem World.create (world : World mem mine shares) (size : Nat) :
    World { mem with
      device := mem.withNew size
      list := mem.device.heap.next :: mem.list } mine (mem.device.heap.next :: shares) := by
  have fresh : ∀ h ∈ mine ++ mem.list, h ≠ mem.device.heap.next := fun h member =>
    (world.owns.live h member).lt_next.ne
  have unused : mem.device.heap.next ∉ shares := by
    rw [← world.shared]
    exact fun listed => fresh _ (List.mem_append_right _ listed) rfl
  refine ⟨?_, ?_, ?_⟩
  · have made : mem.device.Moves (mem.device.make size (.callback mem.device.pair) []).2 []
        [mem.device.heap.next] := .make fun pair same => (Origin.callback.inj same).symm
    have own := (made.frame (mine ++ mem.list)).owns world.owns
    have counted : (mem.withNew size).Owns ([mem.device.heap.next] ++ (mine ++ mem.list)) :=
      ⟨own.nodup, fun h member => Device.addRef_live.mpr (own.live h member)⟩
    exact counted.perm (List.perm_append_comm_assoc _ mine mem.list)
  · intro h
    rw [List.mem_cons, List.mem_cons, world.shared]
  · intro h listed
    by_cases new : h = mem.device.heap.next
    · subst new
      refine ⟨_, Device.addRef_cell Heap.alloc_cell_self, ?_⟩
      rw [List.count_cons_self, List.count_eq_zero.mpr unused]
      rfl
    · obtain ⟨block, found, count⟩ :=
        world.counted h ((List.mem_cons.mp listed).resolve_left new)
      refine ⟨block, ?_, by rw [List.count_cons_of_ne (Ne.symm new), count]⟩
      rw [SharedMem.withNew, Device.addRef_cell_of_ne new, Device.make_cell_of_ne new, found]

/-- A request gives a share in the pool, or nothing. -/
theorem Turns.allocate {size : Nat} {ok : Bool} {result : Option Nat}
    (allocated : mem.allocateSharedMemory size ok = (result, mem')) :
    Turns mem mem' [] [] [] result.toList := by
  intro rest others world
  rcases SharedMem.allocateSharedMemory_cases size ok (fun h listed => world.live listed) with
    ⟨h, listed, outcome⟩ | outcome | ⟨size', -, outcome⟩
  · cases outcome.symm.trans allocated
    refine ⟨world.count listed ?_ ?_ ?_, Device.Steps.refl.addRef h 1⟩
    · intro k
      have shared := world.shared k
      have used := (world.shared h).mp listed
      grind
    · simp
    · intro k other
      simp [List.count_cons_of_ne (Ne.symm other)]
  · cases outcome.symm.trans allocated
    exact ⟨world, .refl⟩
  · cases outcome.symm.trans allocated
    refine ⟨world.create size', ?_⟩
    refine (Device.Steps.refl.make size' _ [] ?_).addRef _ 1
    exact fun pair same => (Origin.callback.inj same).symm

/-- The last share in a block is given up with it. -/
theorem World.release {h : Nat} (world : World mem mine (h :: shares)) (last : h ∉ shares) :
    World { mem with
      device := (mem.device.addRef h (-1)).2.cviMemFree h
      list := mem.list.filter (· ≠ h) } mine shares := by
  have listed : h ∈ mem.list := (world.shared h).mpr List.mem_cons_self
  have kept : ∀ k, k ∈ mine ++ mem.list.filter (· ≠ h) → k ∈ mine ++ mem.list ∧ k ≠ h := by
    intro k member
    rcases List.mem_append.mp member with member | member
    · refine ⟨List.mem_append_left _ member, ?_⟩
      exact (List.nodup_append.mp world.owns.nodup).2.2 k member h listed
    · obtain ⟨inside, other⟩ := List.mem_filter.mp member
      exact ⟨List.mem_append_right _ inside, of_decide_eq_true other⟩
  refine ⟨⟨?_, ?_⟩, ?_, ?_⟩
  · exact world.owns.nodup.sublist (List.filter_sublist.append_left mine)
  · intro k member
    obtain ⟨before, other⟩ := kept k member
    exact Heap.live_free.mpr ⟨Device.addRef_live.mpr (world.owns.live k before), other⟩
  · intro k
    rw [List.mem_filter, world.shared, List.mem_cons, decide_eq_true_eq]
    constructor
    · rintro ⟨same | member, other⟩
      · exact absurd same other
      · exact member
    · intro member
      exact ⟨.inr member, fun same => last (same ▸ member)⟩
  · intro k member
    obtain ⟨inside, other⟩ := List.mem_filter.mp member
    have apart : k ≠ h := of_decide_eq_true other
    obtain ⟨block, found, count⟩ := world.counted k inside
    refine ⟨block, ?_, by rw [count, List.count_cons_of_ne (Ne.symm apart)]⟩
    rw [Device.cviMemFree, Heap.free_cell_of_ne apart, Device.addRef_cell_of_ne apart, found]

theorem Turns.deallocate (mem : SharedMem) (h : Nat) :
    Turns mem (mem.deallocateSharedMemory h) [] [h] [] [] := by
  intro rest others world
  have listed : h ∈ mem.list := (world.shared h).mpr (by simp)
  obtain ⟨block, found, count⟩ := world.counted h listed
  have left : block.userRefCnt + -1 = others.count h := by
    rw [count]
    simp
  rw [SharedMem.deallocateSharedMemory, if_pos listed]
  simp only [Device.addRef_count found, left]
  have steps : mem.device.Steps (mem.device.addRef h (-1)).2 := Device.Steps.refl.addRef h (-1)
  split
  · next none =>
    have last : h ∉ others := List.count_eq_zero.mp (Int.natCast_eq_zero.mp none)
    exact ⟨world.release last, steps.free (Device.addRef_live.mpr (world.live listed))⟩
  · next some =>
    have used : h ∈ others := by
      rw [← List.count_pos_iff, Nat.pos_iff_ne_zero]
      exact fun zero => some (by rw [zero]; rfl)
    refine ⟨world.count listed ?_ ?_ ?_, steps⟩
    · intro k
      have shared := world.shared k
      grind
    · simp
    · intro k other
      simp [List.count_cons_of_ne (Ne.symm other)]

end turns

namespace Program

variable {physical : Nat → Nat} {p p' : Program} {mem mem' : SharedMem} {done : Bool}

theorem allocPrivate_turns {size : Nat} {ok : Bool} {indices : List Nat}
    (fresh : p.privateMem = none)
    (allocated : p.allocPrivate physical mem size ok indices = (done, p', mem')) :
    Turns mem mem' [] [] p'.privateMem.toList [] ∧
      p'.sharedMem = p.sharedMem ∧ p'.neuronMap = p.neuronMap := by
  rw [allocPrivate] at allocated
  cases ok with
  | false =>
    cases allocated
    rw [fresh]
    exact ⟨.refl, rfl, rfl⟩
  | true =>
    cases allocated
    refine ⟨.of_moves (.make ?_), rfl, rfl⟩
    exact fun pair same => (Origin.callback.inj same).symm

theorem createNeuronSpace_turns {fb : FbProgram} (fresh : p.privateMem = none)
    (alone : p.sharedMem = none)
    (created : p.createNeuronSpace physical mem fb = (done, p', mem')) :
    Turns mem mem' [] [] p'.privateMem.toList p'.sharedMem.toList ∧
      p'.neuronMap = p.neuronMap := by
  rw [createNeuronSpace] at created
  split at created
  · obtain ⟨turns, shared, neurons⟩ := allocPrivate_turns fresh created
    rw [shared, alone]
    exact ⟨turns, neurons⟩
  · generalize first : (if fb.sharedGmem ≠ 0 then _ else _ : Bool × Program × SharedMem) = result
      at created
    obtain ⟨ok, between, mem''⟩ := result
    have shares : Turns mem mem'' [] [] [] between.sharedMem.toList ∧
        between.privateMem = none ∧ between.neuronMap = p.neuronMap := by
      split at first
      · split at first
        · next allocated =>
          cases first
          rw [alone]
          exact ⟨.allocate allocated, fresh, rfl⟩
        · next allocated =>
          cases first
          exact ⟨.allocate allocated, fresh, rfl⟩
      · cases first
        rw [alone]
        exact ⟨.refl, fresh, rfl⟩
    obtain ⟨turns, fresh', neurons⟩ := shares
    dsimp only at created
    split at created
    · obtain ⟨turns', shared', neurons'⟩ := allocPrivate_turns fresh' created
      rw [shared', neurons', neurons]
      have framed := turns'.frame [] between.sharedMem.toList
      rw [List.append_nil, List.append_nil] at framed
      exact ⟨turns.trans framed, rfl⟩
    · cases created
      rw [fresh']
      exact ⟨turns, neurons⟩

/-- A program gives up all it has. -/
theorem destroy_turns (p : Program) (mem : SharedMem) :
    Turns mem (p.destroy mem) p.handles p.sharedMem.toList [] [] := by
  rw [destroy]
  cases p.sharedMem with
  | none => exact .of_moves (.freeAll p.handles _)
  | some handle =>
    have framed := (Turns.deallocate mem handle).frame p.handles []
    exact framed.trans (.of_moves (.freeAll p.handles _))

/-- What a program that may not be there frees, and its shares in the pool. -/
def handlesOf (program : Option Program) : List Nat := program.toList.flatMap handles

def sharesOf (program : Option Program) : List Nat :=
  program.toList.flatMap fun p => p.sharedMem.toList

/-- A program that does not load gives up what it got until then. -/
theorem loadProgram_turns {weightMem : Option Nat} {fb : FbProgram} {result : Option Program}
    (loaded : loadProgram physical weightMem mem fb = some (result, mem')) :
    Turns mem mem' [] [] (handlesOf result) (sharesOf result) := by
  rw [loadProgram] at loaded
  split at loaded
  · next between mem'' created =>
    cases loaded
    obtain ⟨turns, neurons⟩ := createNeuronSpace_turns rfl rfl created
    have all : between.handles = between.privateMem.toList := by
      rw [handles, neurons]
      simp [new]
    rw [← all] at turns
    exact turns.trans (between.destroy_turns mem'')
  · next between mem'' created =>
    obtain ⟨turns, neurons⟩ := createNeuronSpace_turns rfl rfl created
    obtain ⟨⟨mapped, last, device⟩, neuronMap, rest⟩ := Option.bind_eq_some_iff.mp loaded
    obtain ⟨moves, privateMem, sharedMem⟩ := createNeuronMap_moves neuronMap
    have none : windows between.neuronMap = [] := by
      rw [neurons]
      rfl
    rw [none] at moves
    have framed := (Turns.of_moves moves).frame between.privateMem.toList between.sharedMem.toList
    rw [← privateMem, ← sharedMem] at turns framed
    have all : Turns mem { mem'' with device := device } [] [] last.handles last.sharedMem.toList :=
      turns.trans (framed.perm (.refl _) (.refl _) List.perm_append_comm (.refl _))
    dsimp only at rest
    split at rest
    · cases rest
      simpa [handlesOf, sharesOf] using all
    · cases rest
      exact all.trans (last.destroy_turns _)

end Program

end CviRuntime.Memory
