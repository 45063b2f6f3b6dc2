import CviRuntime.Tool.Resolve

/-!
# The weights of CPU routines after a merge

The runtime enters the weights of a table in a map by name (`CviModel::createCpuWeightMap`,
`model.cpp:393-405`), where a later entry replaces an earlier one, and a CPU routine looks up
its inputs among the neurons and then in that map (`CpuRoutine::initialize`,
`program.cpp:505-525`). The merge joins the tables and leaves out what repeats a name, an offset
and a size.
-/

namespace CviRuntime.Tool

open CviRuntime.Memory CviRuntime.Packed

/-! ## The lookup -/

/-- `CviModel::createCpuWeightMap`. -/
def createCpuWeightMap (weights : List Weight) : List (String × Weight) :=
  weights.foldl (fun map w => if w.shape.isSome then assign map w.name w else map) []

/-- The names that a routine looks up in `neuron_map` with `operator[]`, which enters those it
    does not find. -/
def neurons (r : Routine) : List String :=
  match r.body with
  | .tpu _ => r.inTensors ++ r.outTensors
  | .cpu _ => r.outTensors

/-- The names that `Program::createNeuronMap` and the routines before routine `k` put in
    `neuron_map`. -/
def neuronMap (p : Program) (k : Nat) : List String :=
  (p.tensorMap.map fun t => t.name) ++ p.inputTensors ++ p.outputTensors ++
    (p.routines.take k).flatMap neurons

/-- What an input of a CPU routine is. -/
inductive CpuInput where
  | neuron
  | weight (w : Weight)
  deriving DecidableEq, Repr

/-- The lookup of an input of routine `k` in `CpuRoutine::initialize`; a name that is not found
    is an error. -/
def cpuInput (p : Program) (k : Nat) (weights : List Weight) (name : String) : Option CpuInput :=
  if name ∈ neuronMap p k then some .neuron
  else ((createCpuWeightMap weights).lookup name).map .weight

/-- The last entry of a name that has a shape. -/
def lastNamed (weights : List Weight) (name : String) : Option Weight :=
  (weights.filter fun w => w.name = name && w.shape.isSome).getLast?

/-- The runtime finds the last entry of the name. -/
theorem lookup_createCpuWeightMap (weights : List Weight) (name : String) :
    (createCpuWeightMap weights).lookup name = lastNamed weights name := by
  unfold createCpuWeightMap lastNamed
  induction weights using List.reverseRecOn with
  | nil => rfl
  | append_singleton weights w ih =>
    rw [List.foldl_append, List.foldl_cons, List.foldl_nil, List.filter_append]
    cases shape : w.shape.isSome with
    | false =>
      rw [if_neg (by simp), ih, List.filter_cons_of_neg (by simp [shape]), List.filter_nil,
        List.append_nil]
    | true =>
      rw [if_pos rfl, lookup_assign, ih]
      by_cases same : name = w.name
      · rw [if_pos same, List.filter_cons_of_pos (by simp [shape, same]), List.filter_nil,
          List.getLast?_append]
        rfl
      · rw [if_neg same,
          List.filter_cons_of_neg (by simpa [shape] using fun equal => same equal.symm),
          List.filter_nil, List.append_nil]

/-! ## The joined table -/

/-- `w` is the last entry of its name whose key neither `seen` nor an earlier entry has. -/
structure LastNew (seen : List WeightKey) (weights : List Weight) (before : List Weight)
    (w : Weight) (after : List Weight) : Prop where
  split : weights = before ++ w :: after
  new : w.key ∉ seen ∧ w.key ∉ before.map Weight.key
  last : ∀ pre v post, after = pre ++ v :: post → v.name = w.name →
    v.key ∈ seen ∨ v.key ∈ (before ++ w :: pre).map Weight.key

theorem cloneWeights_shape :
    ∀ {weights : List Weight} {seen : List WeightKey} {joined : List Weight},
      cloneWeights seen weights = some joined → ∀ w ∈ joined, w.shape.isSome := by
  intro weights
  induction weights with
  | nil =>
    intro seen joined done
    cases done
    simp
  | cons first rest ih =>
    intro seen joined done
    unfold cloneWeights at done
    split at done
    · exact ih done
    · split at done
      · cases done
      · rename_i dims shape
        obtain ⟨later, cloned, rfl⟩ := Option.map_eq_some_iff.mp done
        rw [List.forall_mem_cons]
        exact ⟨by rw [shape]; rfl, ih cloned⟩

/-- An entry is in the joined table when its key is new where it stands. -/
theorem mem_cloneWeights :
    ∀ {weights : List Weight} {seen : List WeightKey} {joined : List Weight} {v : Weight},
      cloneWeights seen weights = some joined → (v ∈ joined ↔ IsNew seen weights v) := by
  intro weights
  induction weights with
  | nil =>
    intro seen joined v done
    cases done
    simp [IsNew]
  | cons first rest ih =>
    intro seen joined v done
    unfold cloneWeights at done
    split at done
    · rename_i repeated
      rw [ih done, isNew_cons_seen repeated]
    · rename_i fresh
      split at done
      · cases done
      · obtain ⟨later, cloned, rfl⟩ := Option.map_eq_some_iff.mp done
        rw [List.mem_cons, ih cloned, isNew_cons fresh]

theorem lastNamed_cons {first : Weight} {weights : List Weight} {name : String}
    (shape : first.shape.isSome = true) :
    lastNamed (first :: weights) name =
      (lastNamed weights name).or (if first.name = name then some first else none) := by
  unfold lastNamed
  by_cases same : first.name = name
  · rw [List.filter_cons_of_pos (by simp [same, shape]), if_pos same, List.getLast?_cons]
    cases (weights.filter fun w => w.name = name && w.shape.isSome).getLast? with
    | none => rfl
    | some last => rfl
  · rw [List.filter_cons_of_neg (by simp [same]), if_neg same, Option.or_none]

theorem lastNamed_eq_none {weights : List Weight} {name : String}
    (shapes : ∀ w ∈ weights, w.shape.isSome) :
    lastNamed weights name = none ↔ ∀ w ∈ weights, w.name ≠ name := by
  unfold lastNamed
  rw [List.getLast?_eq_none_iff, List.filter_eq_nil_iff]
  constructor
  · intro nothing w member same
    exact nothing w member (by simp [same, shapes w member])
  · intro others w member meets
    simp only [Bool.and_eq_true, decide_eq_true_eq] at meets
    exact others w member meets.1

section LastNew

variable {seen : List WeightKey} {first w : Weight} {rest before after : List Weight}

/-- An entry whose key was seen makes no difference. -/
theorem lastNew_cons_seen (repeated : first.key ∈ seen) :
    (∃ before after, LastNew seen (first :: rest) before w after) ↔
      ∃ before after, LastNew seen rest before w after := by
  constructor
  · rintro ⟨before, after, split, ⟨new, newBefore⟩, last⟩
    cases before with
    | nil =>
      cases split
      exact absurd repeated new
    | cons other before =>
      obtain ⟨rfl, tail⟩ := List.cons.inj split
      rw [List.map_cons, List.mem_cons, not_or] at newBefore
      refine ⟨before, after, tail, ⟨new, newBefore.2⟩, ?_⟩
      intro pre v post tail' name
      rcases last pre v post tail' name with old | earlier
      · exact Or.inl old
      · rw [List.cons_append, List.map_cons, List.mem_cons] at earlier
        rcases earlier with same | earlier
        · exact Or.inl (same ▸ repeated)
        · exact Or.inr earlier
  · rintro ⟨before, after, split, ⟨new, newBefore⟩, last⟩
    refine ⟨first :: before, after, congrArg (first :: ·) split, ⟨new, ?_⟩, ?_⟩
    · rw [List.map_cons, List.mem_cons, not_or]
      exact ⟨fun same => new (same ▸ repeated), newBefore⟩
    · intro pre v post tail name
      exact (last pre v post tail name).imp_right (List.mem_cons_of_mem _)

/-- An entry in front of the last one counts as seen. -/
theorem lastNew_cons : LastNew seen (first :: rest) (first :: before) w after ↔
    LastNew (seen ++ [first.key]) rest before w after := by
  constructor
  · rintro ⟨split, ⟨new, newBefore⟩, last⟩
    rw [List.map_cons, List.mem_cons, not_or] at newBefore
    refine ⟨(List.cons.inj split).2, ⟨?_, newBefore.2⟩, ?_⟩
    · rw [List.mem_append, List.mem_singleton, not_or]
      exact ⟨new, newBefore.1⟩
    · intro pre v post tail name
      have cases := last pre v post tail name
      rw [List.cons_append, List.map_cons, List.mem_cons] at cases
      rwa [List.mem_append, List.mem_singleton, or_assoc]
  · rintro ⟨split, ⟨new, newBefore⟩, last⟩
    rw [List.mem_append, List.mem_singleton, not_or] at new
    refine ⟨congrArg (first :: ·) split, ⟨new.1, ?_⟩, ?_⟩
    · rw [List.map_cons, List.mem_cons, not_or]
      exact ⟨new.2, newBefore⟩
    · intro pre v post tail name
      have cases := last pre v post tail name
      rw [List.mem_append, List.mem_singleton, or_assoc] at cases
      rwa [List.cons_append, List.map_cons, List.mem_cons]

/-- The first entry is the last new one of its name when the rest of the joined table has none of
    that name. -/
theorem lastNew_nil {later : List Weight} (fresh : first.key ∉ seen)
    (cloned : cloneWeights (seen ++ [first.key]) rest = some later) :
    LastNew seen (first :: rest) [] first rest ↔ ∀ v ∈ later, v.name ≠ first.name := by
  constructor
  · intro new v member name
    obtain ⟨pre, post, tail, newV, newPre⟩ := (mem_cloneWeights cloned).mp member
    rw [List.mem_append, List.mem_singleton, not_or] at newV
    rcases new.last pre v post tail name with old | earlier
    · exact newV.1 old
    · rw [List.nil_append, List.map_cons, List.mem_cons] at earlier
      exact earlier.elim newV.2 newPre
  · intro others
    refine ⟨rfl, ⟨fresh, by simp⟩, ?_⟩
    intro pre v post tail name
    by_contra missed
    rw [not_or, List.nil_append, List.map_cons, List.mem_cons, not_or] at missed
    refine others v ((mem_cloneWeights cloned).mpr ⟨pre, post, tail, ?_, missed.2.2⟩) name
    rw [List.mem_append, List.mem_singleton, not_or]
    exact ⟨missed.1, missed.2.1⟩

end LastNew

/-- What the runtime finds in the joined table. -/
theorem lastNamed_cloneWeights_iff :
    ∀ {weights : List Weight} {seen : List WeightKey} {joined : List Weight} {w : Weight},
      cloneWeights seen weights = some joined →
      (lastNamed joined w.name = some w ↔ ∃ before after, LastNew seen weights before w after) := by
  intro weights
  induction weights with
  | nil =>
    intro seen joined w done
    cases done
    constructor
    · intro impossible
      cases impossible
    · rintro ⟨before, after, split, -, -⟩
      simp at split
  | cons first rest ih =>
    intro seen joined w done
    unfold cloneWeights at done
    split at done
    · rename_i repeated
      rw [ih done, lastNew_cons_seen repeated]
    · rename_i fresh
      split at done
      · cases done
      · rename_i dims shape
        obtain ⟨later, cloned, rfl⟩ := Option.map_eq_some_iff.mp done
        have shapes := cloneWeights_shape cloned
        rw [lastNamed_cons (by rw [shape]; rfl)]
        constructor
        · intro found
          cases inLater : lastNamed later w.name with
          | some w' =>
            rw [inLater] at found
            obtain rfl := Option.some.inj found
            obtain ⟨before, after, new⟩ := (ih cloned).mp inLater
            exact ⟨first :: before, after, lastNew_cons.mpr new⟩
          | none =>
            rw [inLater, Option.none_or] at found
            split at found
            · obtain rfl := Option.some.inj found
              exact ⟨[], rest, (lastNew_nil fresh cloned).mpr
                ((lastNamed_eq_none shapes).mp inLater)⟩
            · cases found
        · rintro ⟨before, after, new⟩
          cases before with
          | nil =>
            obtain ⟨rfl, rfl⟩ := List.cons.inj new.split
            rw [(lastNamed_eq_none shapes).mpr ((lastNew_nil fresh cloned).mp new), if_pos rfl]
            rfl
          | cons other before =>
            obtain rfl := (List.cons.inj new.split).1
            rw [(ih cloned).mpr ⟨before, after, lastNew_cons.mp new⟩]
            rfl

/-! ## The routines -/

/-- Routine `k` is a CPU routine with an input of this name, and finds the weight `w` for it. -/
def Finds (p : Program) (k : Nat) (weights : List Weight) (name : String) (w : Weight) : Prop :=
  (∃ r c, p.routines[k]? = some r ∧ r.body = .cpu c ∧ name ∈ r.inTensors) ∧
    cpuInput p k weights name = some (.weight w)

/-- What a routine reads of a weight. -/
structure SameWeight (w w' : Weight) : Prop where
  offset : w'.offset = w.offset
  size : w'.size = w.size
  shape : w'.shape = w.shape
  type : w'.type = w.type

/-- Routine `k` of the `a`-th program finds `w` under its name before the merge. -/
def FindsBefore (models : List Model) (a k : Nat) (name : String) (w : Weight) : Prop :=
  ∃ i p m, (allPrograms models)[a]? = some (i, p) ∧ models[i]? = some m ∧
    Finds p k m.weightMap name w

/-- After the merge it finds a weight that reads the same. -/
def FindsAfter (out : ModelData) (a k : Nat) (name : String) (w : Weight) : Prop :=
  ∃ p' w', out.programs[a]? = some p' ∧ Finds p' k out.weightMap name w' ∧ SameWeight w w'

/-- Some entry of the tables, taken together in order, has the name, offset and size of `w` for
    the first time; it has the shape and type of `w` too, and all later entries of the name have
    a name, offset and size that came before them. -/
def KeepsWeight (models : List Model) (w : Weight) : Prop :=
  ∃ before first after, LastNew [] (models.flatMap fun m => m.weightMap) before first after ∧
    first.key = w.key ∧ first.shape = w.shape ∧ first.type = w.type

/-- No tensor of the `a`-th program gets the name when its own is cut at a NUL. -/
def NoTensorCut (models : List Model) (a : Nat) (name : String) : Prop :=
  ∀ i p, (allPrograms models)[a]? = some (i, p) → ∀ t ∈ p.tensorMap, cStr t.name ≠ name

theorem forall₂_getElem? {α β : Type} {R : α → β → Prop} {l : List α} {l' : List β}
    (all : List.Forall₂ R l l') :
    ∀ {k : Nat} {x : α}, l[k]? = some x → ∃ y, l'[k]? = some y ∧ R x y := by
  induction all with
  | nil =>
    intro k x entry
    simp at entry
  | cons one _ ih =>
    intro k x entry
    cases k with
    | zero =>
      cases entry
      exact ⟨_, rfl, one⟩
    | succ k => exact ih entry

theorem cloneTensor_name (t : Tensor) : (cloneTensor t).name = cStr t.name := by
  unfold cloneTensor
  cases t.quant <;> rfl

/-- The routines of a copy add the same names to the neuron map. -/
theorem flatMap_neurons {i : Nat} {routines routines' : List Routine}
    (copies : List.Forall₂ (ClonedRoutine i) routines routines') :
    routines'.flatMap neurons = routines.flatMap neurons := by
  induction copies with
  | nil => rfl
  | @cons r r' rest rest' one _ ih =>
    rw [List.flatMap_cons, List.flatMap_cons, ih]
    congr 1
    unfold neurons
    cases body : r.body with
    | cpu c =>
      rw [one.cpu c body]
      exact one.outTensors
    | tpu t =>
      obtain ⟨t', body', -⟩ := one.tpu t body
      rw [body', one.inTensors, one.outTensors]

/-- A name that the original does not have is in the neuron map of the copy when a tensor gets
    it. -/
theorem ClonedProgram.mem_neuronMap {i : Nat} {p p' : Program} (copy : ClonedProgram i p p')
    {k : Nat} {name : String} (absent : name ∉ neuronMap p k) :
    name ∈ neuronMap p' k ↔ ∃ t ∈ p.tensorMap, cStr t.name = name := by
  unfold neuronMap at absent ⊢
  rw [flatMap_neurons (List.forall₂_take k copy.routines), copy.inputTensors,
    copy.outputTensors, copy.tensorMap]
  simp only [List.mem_append, not_or] at absent
  simp only [List.mem_append, absent.2, absent.1.2, absent.1.1.2, or_false]
  simp [cloneTensorMap, cloneTensor_name]

theorem cpuInput_eq_weight {p : Program} {k : Nat} {weights : List Weight} {name : String}
    {w : Weight} : cpuInput p k weights name = some (.weight w) ↔
      name ∉ neuronMap p k ∧ lastNamed weights name = some w := by
  unfold cpuInput
  rw [lookup_createCpuWeightMap]
  by_cases neuron : name ∈ neuronMap p k
  · simp [neuron]
  · simp [neuron]

theorem lastNamed_name {weights : List Weight} {name : String} {w : Weight}
    (found : lastNamed weights name = some w) : w.name = name := by
  have member := List.mem_of_getLast? found
  rw [List.mem_filter, Bool.and_eq_true, decide_eq_true_eq] at member
  exact member.2.1

/-- A CPU routine finds its weight again exactly when the joined table has it as the last new
    entry of the name and no tensor takes the name. -/
theorem cpu_weight_kept_iff (env : MergeEnv) (models : List Model) (out : ModelData)
    (done : merge env models = some out) (a k : Nat) (name : String) (w : Weight)
    (before : FindsBefore models a k name w) :
    FindsAfter out a k name w ↔ KeepsWeight models w ∧ NoTensorCut models a name := by
  obtain ⟨i, p, m, atA, -, ⟨r, c, atK, body, member⟩, found⟩ := before
  obtain ⟨weights, cloned, -⟩ := merge_eq_some done
  obtain ⟨p', atA', copy⟩ := forall₂_getElem? (clonePrograms_spec cloned) atA
  obtain ⟨r', atK', one⟩ := forall₂_getElem? copy.routines atK
  obtain ⟨absent, named⟩ := cpuInput_eq_weight.mp found
  have same := lastNamed_name named
  have cut : NoTensorCut models a name ↔ name ∉ neuronMap p' k := by
    rw [copy.mem_neuronMap absent]
    unfold NoTensorCut
    constructor
    · rintro none ⟨t, inMap, equal⟩
      exact none i p atA t inMap equal
    · rintro none i' p'' atA'' t inMap equal
      rw [atA] at atA''
      cases atA''
      exact none ⟨t, inMap, equal⟩
  rw [cut]
  constructor
  · rintro ⟨p'', w', atA'', ⟨-, found'⟩, reads⟩
    rw [atA'] at atA''
    cases atA''
    obtain ⟨absent', named'⟩ := cpuInput_eq_weight.mp found'
    have same' := lastNamed_name named'
    rw [← same'] at named'
    obtain ⟨pre, post, new⟩ := (lastNamed_cloneWeights_iff weights).mp named'
    refine ⟨⟨pre, w', post, new, ?_, reads.shape, reads.type⟩, absent'⟩
    rw [Weight.key, Weight.key, reads.offset, reads.size, same', same]
  · rintro ⟨⟨pre, first, post, new, key, shape, type⟩, absent'⟩
    unfold Weight.key at key
    obtain ⟨sameName, sameKey⟩ := Prod.mk.inj key
    obtain ⟨offset, size⟩ := Prod.mk.inj sameKey
    have named' := (lastNamed_cloneWeights_iff weights).mpr ⟨pre, post, new⟩
    rw [sameName, same] at named'
    exact ⟨p', first, atA', ⟨⟨r', c, atK', one.cpu c body, by rwa [one.inTensors]⟩,
      cpuInput_eq_weight.mpr ⟨absent', named'⟩⟩, ⟨offset, size, shape, type⟩⟩

/-- A model with four bytes of weights, an entry of the weight table at `offset` and a CPU
    routine that takes it. -/
def cpuModel (offset : Int) : Model where
  programs := [⟨1, 0, [], [], [], [⟨["w"], ["y"], .cpu ⟨"f", []⟩⟩], 0, 0⟩]
  weightMap := [⟨"w", offset, 2, some [2], .int8⟩]
  sections := [⟨.weight, "weight", 0, 4, false, false, 0⟩]
  binary := [1, 2, 3, 4]
  inside := by simp
  sizeLt := by simp

/-- A model with two weights and a CPU routine for each; the second takes both. -/
def twoWeights : Model where
  programs := [⟨1, 0, ["x"], ["z"], [], [⟨["w"], ["y"], .cpu ⟨"f", []⟩⟩,
    ⟨["w", "v"], ["z"], .cpu ⟨"g", []⟩⟩], 0, 0⟩]
  weightMap := [⟨"w", 0, 2, some [2], .int8⟩, ⟨"v", 2, 2, some [2], .int8⟩]
  sections := [⟨.weight, "weight", 0, 4, false, false, 0⟩]
  binary := [1, 2, 3, 4]
  inside := by simp
  sizeLt := by simp

/-- The last of three models has the two weights of the first. -/
theorem cpu_weight_kept_iff_two_weights :
    ∃ out, merge exactHash [twoWeights, cpuModel 0, twoWeights] = some out ∧
      FindsAfter out 2 1 "v" ⟨"v", 2, 2, some [2], .int8⟩ := by
  have before : FindsBefore [twoWeights, cpuModel 0, twoWeights] 2 1 "v"
      ⟨"v", 2, 2, some [2], .int8⟩ :=
    ⟨2, _, twoWeights, rfl, rfl, ⟨_, _, rfl, rfl, .tail _ (.head _)⟩, rfl⟩
  refine ⟨_, rfl, (cpu_weight_kept_iff exactHash _ _ rfl 2 1 "v" _ before).mpr ⟨?_, ?_⟩⟩
  · refine ⟨[⟨"w", 0, 2, some [2], .int8⟩], _, _, ⟨rfl, by decide, ?_⟩, rfl, rfl, rfl⟩
    intro pre v post split name
    have member : v ∈ pre ++ v :: post := List.mem_append_right _ List.mem_cons_self
    rw [← split] at member
    have same : v = ⟨"v", 2, 2, some [2], .int8⟩ := by
      rcases List.mem_cons.mp member with rfl | member
      · exact absurd name (by decide)
      rcases List.mem_pair.mp member with rfl | rfl
      · exact absurd name (by decide)
      · rfl
    rw [same]
    exact .inr (by simp)
  · rintro i p ⟨⟩ t ⟨⟩

/-- Two models with the same weights that name different places in them alike: the routine of
    the first reads the place of the second. -/
theorem cpu_weight_other_offset :
    ∃ out, compareWeights exactHash [cpuModel 0, cpuModel 2] = some 1 ∧
      merge exactHash [cpuModel 0, cpuModel 2] = some out ∧
      FindsBefore [cpuModel 0, cpuModel 2] 0 0 "w" ⟨"w", 0, 2, some [2], .int8⟩ ∧
      ¬ FindsAfter out 0 0 "w" ⟨"w", 0, 2, some [2], .int8⟩ ∧
      FindsAfter out 0 0 "w" ⟨"w", 2, 2, some [2], .int8⟩ := by
  refine ⟨_, rfl, rfl, ⟨0, _, cpuModel 0, rfl, rfl, ⟨_, _, rfl, rfl, by simp⟩, rfl⟩, ?_, ?_⟩
  · rintro ⟨p', w', atA, ⟨-, found⟩, reads⟩
    cases atA
    cases found
    cases reads.offset
  · exact ⟨_, ⟨"w", 2, 2, some [2], .int8⟩, rfl, ⟨⟨_, _, rfl, rfl, by simp⟩, rfl⟩,
      rfl, rfl, rfl, rfl⟩

end CviRuntime.Tool
