import CviRuntime.Tool.Names

/-!
# What a merged model resolves to

A merge is right when it completes, its programs are those of the models in order, every TPU
routine finds its own buffer under the new name, and sections of different models have
different names. Here is exactly when that is so.
-/

namespace CviRuntime.Tool

open CviRuntime.Runtime CviRuntime.Memory CviRuntime.Packed

/-! ## Models that can be merged, and what is asked of the output -/

/-- The lists of models the tool is meant for: the TPU routines name buffers of their model, the
    names in a model are different, the buffers are of one kind and the comparison of the
    weights passes. -/
structure MergeInput (env : MergeEnv) (models : List Model) (candidate : Nat) : Prop where
  named : ∀ m ∈ models, ∀ p ∈ m.programs, ∀ r ∈ p.routines, ∀ t, r.body = .tpu t →
    ∃ s ∈ m.sections, isBuffer s = true ∧ t.sectionName = some s.name
  unique : ∀ m ∈ models, (m.sections.map fun s => s.name).Nodup
  uniform : mixedBuffers models = false
  passed : compareWeights env models = some candidate

/-- A routine of model `index` with the buffer renamed. -/
structure ClonedRoutine (index : Nat) (r r' : Routine) : Prop where
  inTensors : r'.inTensors = r.inTensors
  outTensors : r'.outTensors = r.outTensors
  cpu : ∀ c, r.body = .cpu c → r'.body = .cpu c
  tpu : ∀ t, r.body = .tpu t → ∃ t', r'.body = .tpu t' ∧
    t'.sectionName = t.sectionName.map fun name => newName name index

/-- A program of model `index` with its routines renamed. -/
structure ClonedProgram (index : Nat) (p p' : Program) : Prop where
  batchNum : p'.batchNum = p.batchNum
  neuronSize : p'.neuronSize = p.neuronSize
  inputTensors : p'.inputTensors = p.inputTensors
  outputTensors : p'.outputTensors = p.outputTensors
  tensorMap : p'.tensorMap = cloneTensorMap p.tensorMap
  routines : List.Forall₂ (ClonedRoutine index) p.routines p'.routines
  sharedGmem : p'.sharedGmem = p.sharedGmem
  privateGmem : p'.privateGmem = p.privateGmem

/-- The section `t` of the output is the section `s` of model `m`. -/
structure SameSection (m : Model) (s : Section) (out : ModelData) (t : Section) : Prop where
  bytes : out.sectionBytes t = m.sectionBytes s
  encrypt : t.encrypt = s.encrypt
  compress : t.compress = s.compress
  decompressedSize : t.decompressedSize = s.decompressedSize

/-- The buffers of the output that have a name; the runtime finds the first of them. -/
def resolve (out : ModelData) (name : String) : List Section :=
  out.sections.filter fun t => isBuffer t && t.name = name

/-- Every TPU routine finds its buffer, and nothing else, under the new name. -/
def RoutinesResolve (models : List Model) (out : ModelData) : Prop :=
  ∀ (i : Nat) (m : Model), models[i]? = some m → ∀ p ∈ m.programs, ∀ r ∈ p.routines,
    ∀ s ∈ m.sections, isBuffer s = true → r.sectionName = some s.name →
      ∃ t, resolve out (newName s.name i) = [t] ∧ SameSection m s out t

/-- The copies of kept sections of different models have different names. -/
def NamesApart (kept : List (Nat × Section)) (sections : List Section) : Prop :=
  ∀ (a b : Nat) (i j : Nat) (s s' t t' : Section), kept[a]? = some (i, s) →
    kept[b]? = some (j, s') → i ≠ j → sections[a]? = some t → sections[b]? = some t' →
    t.name ≠ t'.name

/-- The merge is right. -/
def MergeRight (env : MergeEnv) (models : List Model) (candidate : Nat) : Prop :=
  ∃ out, merge env models = some out ∧
    List.Forall₂ (fun entry p' => ClonedProgram entry.1 entry.2 p') (allPrograms models)
      out.programs ∧
    RoutinesResolve models out ∧ NamesApart (keptSections models candidate) out.sections

/-- The name a section is meant to get. -/
def meantName (i : Nat) (s : Section) : String :=
  if isBuffer s then newName s.name i else s.name

/-- The `i`-th program is one of model `i`, if that has buffers, and names them all. -/
def Owned (models : List Model) : Prop :=
  ∀ (i : Nat) (m : Model), models[i]? = some m → ∀ s ∈ m.sections, isBuffer s = true →
    ∃ p, (allPrograms models)[i]? = some (i, p) ∧ s.name ∈ p.routines.filterMap Routine.sectionName

/-- When the merge is right. -/
structure MergeOk (models : List Model) (candidate : Nat) : Prop where
  /-- a weight that no earlier entry of the tables repeats has a shape -/
  shapes : ∀ before w after, models.flatMap (fun m => m.weightMap) = before ++ w :: after →
    w.key ∉ before.map Weight.key → w.shape.isSome
  /-- there are as many programs as models -/
  count : (allPrograms models).length = models.length
  owned : Owned models
  /-- the size of an uncompressed section is an `int` -/
  sizes : ∀ m ∈ models, ∀ s ∈ m.sections, s.compress = false → s.size < 2 ^ 31
  /-- a buffer is copied to below 4 GiB, or has the bytes that lie there modulo 4 GiB -/
  offsets : ∀ k i s, (keptSections models candidate)[k]? = some (i, s) → isBuffer s = true →
    position (keptBytes models candidate) k < 2 ^ 32 ∨
      slice (keptBytes models candidate).flatten (u32 (position (keptBytes models candidate) k))
        s.size = bytesOf models i s
  /-- a section that keeps its name shares it with no section of another model -/
  names : ∀ (i : Nat) (s : Section) (j : Nat) (s' : Section),
    (i, s) ∈ keptSections models candidate →
    (j, s') ∈ keptSections models candidate → i ≠ j → isBuffer s = false →
    meantName i s ≠ meantName j s'

/-! ## Lists -/

theorem nodup_tagged {β : Type} {items : Model → List β} :
    ∀ {models : List Model} {index : Nat}, (∀ m ∈ models, (items m).Nodup) →
      (tagged items models index).Nodup := by
  intro models
  induction models with
  | nil =>
    intro index _
    exact List.nodup_nil
  | cons m models ih =>
    intro index each
    refine List.nodup_append'.mpr ⟨?_, ?_, ?_⟩
    · exact (each m (by simp)).map (Prod.mk_right_injective index)
    · exact ih fun m' member => each m' (List.mem_cons_of_mem _ member)
    · rintro ⟨i, item⟩ here later
      obtain ⟨_, -, same⟩ := List.mem_map.mp here
      cases same
      have le := (mem_tagged.mp later).1
      omega

/-- A list in which one place only meets the condition. -/
theorem filter_eq_singleton {α : Type} {p : α → Bool} {x : α} :
    ∀ {l : List α} {k : Nat}, l[k]? = some x → p x = true →
      (∀ j y, l[j]? = some y → p y = true → j = k) → l.filter p = [x] := by
  intro l
  induction l with
  | nil =>
    intro k entry
    simp at entry
  | cons first rest ih =>
    intro k entry holds only
    cases k with
    | zero =>
      cases entry
      rw [List.filter_cons_of_pos holds]
      congr 1
      rw [List.filter_eq_nil_iff]
      intro y member meets
      obtain ⟨j, atJ⟩ := List.mem_iff_getElem?.mp member
      have := only (j + 1) y atJ meets
      omega
    | succ k =>
      have skip : ¬ p first = true := fun meets => by
        have := only 0 first rfl meets
        omega
      rw [List.filter_cons_of_neg skip]
      refine ih entry holds fun j y atJ meets => ?_
      have := only (j + 1) y atJ meets
      omega

theorem forall₂_of_mapM {α β : Type} {f : α → Option β} :
    ∀ {l : List α} {l' : List β}, l.mapM f = some l' →
      List.Forall₂ (fun a b => f a = some b) l l' := by
  intro l
  induction l with
  | nil =>
    intro l' done
    cases done
    exact List.Forall₂.nil
  | cons a l ih =>
    intro l' done
    simp only [List.mapM_cons, Option.bind_eq_bind, Option.bind_eq_some_iff, Option.pure_def,
      Option.some.injEq] at done
    obtain ⟨b, first, rest, later, rfl⟩ := done
    exact List.Forall₂.cons first (ih later)

theorem mapM_isSome {α β : Type} {f : α → Option β} :
    ∀ {l : List α}, (∀ a ∈ l, (f a).isSome) → ∃ l', l.mapM f = some l' := by
  intro l
  induction l with
  | nil =>
    intro _
    exact ⟨[], rfl⟩
  | cons a l ih =>
    intro each
    obtain ⟨b, first⟩ := Option.isSome_iff_exists.mp (each a (by simp))
    obtain ⟨l', later⟩ := ih fun a' member => each a' (List.mem_cons_of_mem _ member)
    exact ⟨b :: l', by simp [List.mapM_cons, first, later]⟩

/-! ## The parts of a merge -/

/-- An entry that neither `seen` nor an earlier entry repeats. -/
def IsNew (seen : List WeightKey) (weights : List Weight) (w : Weight) : Prop :=
  ∃ before after, weights = before ++ w :: after ∧ w.key ∉ seen ∧ w.key ∉ before.map Weight.key

section IsNew

variable {seen : List WeightKey} {first w : Weight} {rest : List Weight}

/-- An entry whose key was seen makes no difference. -/
theorem isNew_cons_seen (repeated : first.key ∈ seen) :
    IsNew seen (first :: rest) w ↔ IsNew seen rest w := by
  constructor
  · rintro ⟨before, after, split, new, newBefore⟩
    cases before with
    | nil =>
      cases split
      exact absurd repeated new
    | cons other before =>
      obtain ⟨rfl, tail⟩ := List.cons.inj split
      rw [List.map_cons, List.mem_cons, not_or] at newBefore
      exact ⟨before, after, tail, new, newBefore.2⟩
  · rintro ⟨before, after, rfl, new, newBefore⟩
    refine ⟨first :: before, after, rfl, new, ?_⟩
    rw [List.map_cons, List.mem_cons, not_or]
    exact ⟨fun same => new (same ▸ repeated), newBefore⟩

/-- A new entry counts as seen from then on. -/
theorem isNew_cons (fresh : first.key ∉ seen) :
    IsNew seen (first :: rest) w ↔ w = first ∨ IsNew (seen ++ [first.key]) rest w := by
  constructor
  · rintro ⟨before, after, split, new, newBefore⟩
    cases before with
    | nil =>
      cases split
      exact Or.inl rfl
    | cons other before =>
      obtain ⟨rfl, tail⟩ := List.cons.inj split
      rw [List.map_cons, List.mem_cons, not_or] at newBefore
      refine Or.inr ⟨before, after, tail, ?_, newBefore.2⟩
      rw [List.mem_append, List.mem_singleton, not_or]
      exact ⟨new, newBefore.1⟩
  · rintro (rfl | ⟨before, after, rfl, new, newBefore⟩)
    · exact ⟨[], rest, rfl, fresh, by simp⟩
    · rw [List.mem_append, List.mem_singleton, not_or] at new
      refine ⟨first :: before, after, rfl, new.1, ?_⟩
      rw [List.map_cons, List.mem_cons, not_or]
      exact ⟨new.2, newBefore⟩

end IsNew

theorem cloneWeights_isSome_iff :
    ∀ (weights : List Weight) (seen : List WeightKey),
      (cloneWeights seen weights).isSome ↔ ∀ w, IsNew seen weights w → w.shape.isSome := by
  intro weights
  induction weights with
  | nil =>
    intro seen
    simp [cloneWeights, IsNew]
  | cons first rest ih =>
    intro seen
    unfold cloneWeights
    by_cases repeated : first.key ∈ seen
    · rw [if_pos repeated, ih]
      simp only [isNew_cons_seen repeated]
    · rw [if_neg repeated]
      simp only [isNew_cons repeated, or_imp, forall_and, forall_eq]
      cases shape : first.shape with
      | none => simp
      | some dims => simp [ih]

theorem cloneRoutine_spec {index : Nat} {r r' : Routine} (done : cloneRoutine index r = some r') :
    ClonedRoutine index r r' := by
  unfold cloneRoutine at done
  cases body : r.body with
  | cpu c =>
    rw [body] at done
    cases done
    refine ⟨rfl, rfl, fun c' same => ?_, fun t same => ?_⟩
    · rw [body] at same
      cases same
      rfl
    · rw [body] at same
      cases same
  | tpu t =>
    obtain ⟨cmdbuf, dmabuf⟩ := t
    rw [body] at done
    refine ⟨?_, ?_, fun c' same => ?_, fun t same => ?_⟩
    · cases cmdbuf <;> cases dmabuf <;> cases done <;> rfl
    · cases cmdbuf <;> cases dmabuf <;> cases done <;> rfl
    · rw [body] at same
      cases same
    · rw [body] at same
      cases same
      cases cmdbuf <;> cases dmabuf <;> cases done <;> exact ⟨_, rfl, rfl⟩

theorem cloneProgram_spec {index : Nat} {p p' : Program} (done : cloneProgram index p = some p') :
    ClonedProgram index p p' := by
  unfold cloneProgram at done
  obtain ⟨routines, cloned, rfl⟩ := Option.map_eq_some_iff.mp done
  exact ⟨rfl, rfl, rfl, rfl, rfl,
    (forall₂_of_mapM cloned).imp fun _ _ one => cloneRoutine_spec one, rfl, rfl⟩

theorem clonePrograms_spec {models : List Model} {programs : List Program}
    (done : clonePrograms models = some programs) :
    List.Forall₂ (fun entry p' => ClonedProgram entry.1 entry.2 p') (allPrograms models)
      programs :=
  (forall₂_of_mapM done).imp fun _ _ one => cloneProgram_spec one

section Input

variable {env : MergeEnv} {models : List Model} {candidate : Nat}

/-- Every TPU routine has a buffer to rename. -/
theorem MergeInput.clonePrograms_isSome (input : MergeInput env models candidate) :
    ∃ programs, clonePrograms models = some programs := by
  apply mapM_isSome
  rintro ⟨i, p⟩ member
  obtain ⟨m, entry, inModel⟩ := mem_tagged_zero.mp member
  have routines : ∀ r ∈ p.routines, (cloneRoutine i r).isSome := by
    intro r inProgram
    unfold cloneRoutine
    cases body : r.body with
    | cpu c => rfl
    | tpu t =>
      obtain ⟨s, -, -, named⟩ := input.named m (List.mem_of_getElem? entry) p inModel r inProgram
        t body
      obtain ⟨cmdbuf, dmabuf⟩ := t
      cases cmdbuf with
      | some name => rfl
      | none =>
        cases dmabuf with
        | some name => rfl
        | none => cases named
  obtain ⟨cloned, done⟩ := mapM_isSome routines
  simp [cloneProgram, done]

theorem MergeInput.selectWeight_eq (input : MergeInput env models candidate)
    (count : (allPrograms models).length = models.length) :
    selectWeight env models (routineNameMaps models) = some candidate := by
  unfold selectWeight routineNameMaps
  rw [List.length_map, count, if_neg (by simp), input.uniform, if_neg (by simp)]
  exact input.passed

theorem mem_kept_of_buffer (candidate : Nat) {i : Nat} {m : Model} {s : Section}
    (entry : models[i]? = some m) (member : s ∈ m.sections) (buffer : isBuffer s = true) :
    (i, s) ∈ keptSections models candidate := by
  refine mem_keptSections.mpr ⟨⟨m, entry, member⟩, fun weight => ?_⟩
  rw [isBuffer, weight] at buffer
  cases buffer

/-- A kept buffer named by a program of model `owner`: that model has a buffer of that name. -/
theorem MergeInput.owner_has (input : MergeInput env models candidate) {i owner : Nat} {p : Program}
    {name : String} (entry : (allPrograms models)[i]? = some (owner, p))
    (named : name ∈ p.routines.filterMap Routine.sectionName) :
    ∃ m s, models[owner]? = some m ∧ s ∈ m.sections ∧ isBuffer s = true ∧ s.name = name := by
  obtain ⟨m, atOwner, inModel⟩ := mem_tagged_zero.mp (List.mem_of_getElem? entry)
  obtain ⟨r, inProgram, gives⟩ := List.mem_filterMap.mp named
  unfold Routine.sectionName at gives
  cases body : r.body with
  | cpu c =>
    rw [body] at gives
    cases gives
  | tpu t =>
    rw [body] at gives
    obtain ⟨s, inSections, buffer, same⟩ := input.named m (List.mem_of_getElem? atOwner) p inModel
      r inProgram t body
    have both : some name = some s.name := gives.symm.trans same
    exact ⟨m, s, atOwner, inSections, buffer, (Option.some.inj both).symm⟩

end Input

/-! ## The copies -/

theorem merge_eq_some {env : MergeEnv} {models : List Model} {out : ModelData}
    (done : merge env models = some out) :
    cloneWeightMap models = some out.weightMap ∧ clonePrograms models = some out.programs ∧
      cloneSections env models (routineNameMaps models) = some (out.sections, out.binary) := by
  simp only [merge, Option.bind_eq_bind, Option.bind_eq_some_iff, Option.pure_def,
    Option.some.injEq] at done
  obtain ⟨weightMap, weights, programs, cloned, ⟨sections, binary⟩, copied, rfl⟩ := done
  exact ⟨weights, cloned, copied⟩

section Copies

variable {env : MergeEnv} {models : List Model} {candidate : Nat}
  {maps : List (List (String × String))} {sections : List Section} {binary : List UInt8}

theorem Copied.exists_copy (copied : Copied models maps candidate sections binary) {k : Nat}
    {entry : Nat × Section} (atK : (keptSections models candidate)[k]? = some entry) :
    ∃ t, sections[k]? = some t ∧ CopiedAs models maps candidate k entry t := by
  have lt : k < sections.length := by
    rw [copied.length]
    exact (List.getElem?_eq_some_iff.mp atK).1
  have found := List.getElem?_eq_getElem lt
  exact ⟨_, found, copied.copied k entry _ atK found⟩

theorem Copied.exists_source (copied : Copied models maps candidate sections binary) {k : Nat}
    {t : Section} (atK : sections[k]? = some t) :
    ∃ entry, (keptSections models candidate)[k]? = some entry ∧
      CopiedAs models maps candidate k entry t := by
  have lt : k < (keptSections models candidate).length := by
    rw [← copied.length]
    exact (List.getElem?_eq_some_iff.mp atK).1
  have found := List.getElem?_eq_getElem lt
  exact ⟨_, found, copied.copied k _ t found atK⟩

theorem CopiedAs.isBuffer_eq {k : Nat} {entry : Nat × Section} {t : Section}
    (as : CopiedAs models maps candidate k entry t) : isBuffer t = isBuffer entry.2 := by
  rw [as.fields]
  rfl

/-- What the output has at the place of a section. -/
theorem CopiedAs.bytes {k i : Nat} {s t : Section}
    (as : CopiedAs models maps candidate k (i, s) t) (out : ModelData) :
    out.sectionBytes t =
      slice out.binary (u32 (position (keptBytes models candidate) k)) s.size := by
  rw [as.fields]
  rfl

end Copies

/-! ## The owners of the programs -/

/-- A monotone map that moves nothing of `Has` to a fixed point moves nothing of `Has`. -/
theorem eq_of_monotone_of_apart (n : Nat) (Has : Nat → Prop) {owner : Nat → Nat}
    (range : ∀ i, Has i → i < n)
    (mono : ∀ i j, Has i → Has j → i ≤ j → owner i ≤ owner j)
    (closed : ∀ i, Has i → Has (owner i))
    (apart : ∀ i, Has i → owner i ≠ i → owner (owner i) ≠ owner i) {i : Nat} (has : Has i) :
    owner i = i := by
  have notUp : ∀ left i, n - i ≤ left → Has i → ¬ i < owner i := by
    intro left
    induction left with
    | zero =>
      intro i small has
      have := range i has
      omega
    | succ left ih =>
      intro i small has up
      have next := closed i has
      have above := mono i (owner i) has next (by omega)
      have moved := apart i has (by omega)
      have below := range i has
      exact ih (owner i) (by omega) next (by omega)
  have notDown : ∀ i, Has i → ¬ owner i < i := by
    intro i
    induction i using Nat.strongRecOn with
    | ind i ih =>
      intro has down
      have next := closed i has
      have below := mono (owner i) i next has (by omega)
      have moved := apart i has (by omega)
      exact ih (owner i) down next (by omega)
  have up := notUp n i (Nat.sub_le n i) has
  have down := notDown i has
  omega

/-- The index of the model that has the `i`-th program. -/
def programOwner (models : List Model) (i : Nat) : Nat :=
  match (allPrograms models)[i]? with
  | none => i
  | some entry => entry.1

theorem programOwner_mono {models : List Model} {i j : Nat} (lt : j < (allPrograms models).length)
    (le : i ≤ j) : programOwner models i ≤ programOwner models j := by
  unfold programOwner
  rw [List.getElem?_eq_getElem lt, List.getElem?_eq_getElem (Nat.lt_of_le_of_lt le lt)]
  rcases Nat.lt_or_eq_of_le le with less | rfl
  · exact (List.pairwise_iff_getElem.mp (tagged_sorted _ models 0)) i j _ lt less
  · exact Nat.le_refl _

/-- If the copies of sections of different models have different names, the `i`-th program
    belongs to model `i`, as far as model `i` has buffers, and names them. -/
theorem owned_of_namesApart {env : MergeEnv} {models : List Model} {candidate : Nat}
    {sections : List Section} {binary : List UInt8} (input : MergeInput env models candidate)
    (copied : Copied models (routineNameMaps models) candidate sections binary)
    (apart : NamesApart (keptSections models candidate) sections) {i : Nat} {m : Model}
    {s : Section} (entry : models[i]? = some m) (member : s ∈ m.sections)
    (buffer : isBuffer s = true) :
    ∃ p, (allPrograms models)[i]? = some (i, p) ∧
      s.name ∈ p.routines.filterMap Routine.sectionName := by
  -- every buffer of this name got the number of the owner of the program at its model's index
  have given : ∀ (j : Nat) (m' : Model) (s' : Section), models[j]? = some m' → s' ∈ m'.sections →
      isBuffer s' = true → ∃ (k : Nat) (t : Section) (p : Program),
        (keptSections models candidate)[k]? = some (j, s') ∧ sections[k]? = some t ∧
        (allPrograms models)[j]? = some (programOwner models j, p) ∧
        s'.name ∈ p.routines.filterMap Routine.sectionName ∧
        t.name = newName s'.name (programOwner models j) := by
    intro j m' s' entry' member' buffer'
    obtain ⟨k, atK⟩ := List.mem_iff_getElem?.mp
      (mem_kept_of_buffer candidate entry' member' buffer')
    obtain ⟨t, atT, as⟩ := copied.exists_copy atK
    obtain ⟨owner, p, atJ, named, name⟩ := (sectionName_buffer buffer').mp as.name
    have same : programOwner models j = owner := by
      unfold programOwner
      rw [atJ]
    rw [same]
    exact ⟨k, t, p, atK, atT, atJ, named, name⟩
  have fixed : programOwner models i = i := by
    refine eq_of_monotone_of_apart (allPrograms models).length (fun j => ∃ m' s',
        models[j]? = some m' ∧ s' ∈ m'.sections ∧ isBuffer s' = true ∧ s'.name = s.name) ?_ ?_ ?_ ?_
      ⟨m, s, entry, member, buffer, rfl⟩
    · rintro j ⟨m', s', entry', member', buffer', -⟩
      obtain ⟨_, _, _, -, -, atJ, -, -⟩ := given j m' s' entry' member' buffer'
      exact (List.getElem?_eq_some_iff.mp atJ).1
    · rintro j j' - ⟨m', s', entry', member', buffer', -⟩ le
      obtain ⟨_, _, _, -, -, atJ, -, -⟩ := given j' m' s' entry' member' buffer'
      exact programOwner_mono (List.getElem?_eq_some_iff.mp atJ).1 le
    · rintro j ⟨m', s', entry', member', buffer', same⟩
      obtain ⟨_, _, p, -, -, atJ, named, -⟩ := given j m' s' entry' member' buffer'
      rw [same] at named
      exact input.owner_has atJ named
    · rintro j ⟨m', s', entry', member', buffer', same⟩ moved back
      obtain ⟨k, t, p, atK, atT, atJ, named, name⟩ := given j m' s' entry' member' buffer'
      rw [same] at named
      obtain ⟨m'', s'', entry'', member'', buffer'', same'⟩ := input.owner_has atJ named
      obtain ⟨k', t', p', atK', atT', -, -, name'⟩ := given _ m'' s'' entry'' member'' buffer''
      refine apart k k' j _ s' s'' t t' atK atK' (fun equal => moved equal.symm) atT atT' ?_
      rw [name, name', same, same', back]
  obtain ⟨_, _, p, -, -, atI, named, -⟩ := given i m s entry member buffer
  rw [fixed] at atI
  exact ⟨p, atI, named⟩

/-! ## The merge is right exactly when … -/

section Exactly

variable {env : MergeEnv} {models : List Model} {candidate : Nat}

/-- Then every section finds the name meant for it. -/
theorem Owned.sectionName_eq (owned : Owned models) {i : Nat} {m : Model} {s : Section}
    (entry : models[i]? = some m) (member : s ∈ m.sections) :
    sectionName (routineNameMaps models) i s = some (meantName i s) := by
  unfold meantName
  by_cases buffer : isBuffer s = true
  · obtain ⟨p, atI, gives⟩ := owned i m entry s member buffer
    rw [if_pos buffer]
    exact (sectionName_buffer buffer).mpr ⟨i, p, atI, gives, rfl⟩
  · unfold sectionName
    rw [if_neg buffer, if_neg buffer]

theorem Owned.name_eq (owned : Owned models) {k i : Nat} {s t : Section}
    (atK : (keptSections models candidate)[k]? = some (i, s))
    (as : CopiedAs models (routineNameMaps models) candidate k (i, s) t) :
    t.name = meantName i s := by
  obtain ⟨⟨m, entry, member⟩, -⟩ := mem_keptSections.mp (List.mem_of_getElem? atK)
  have name := as.name
  rw [owned.sectionName_eq entry member] at name
  exact (Option.some.inj name).symm

theorem shapes_iff : (cloneWeightMap models).isSome ↔
    ∀ before w after, models.flatMap (fun m => m.weightMap) = before ++ w :: after →
      w.key ∉ before.map Weight.key → w.shape.isSome := by
  unfold cloneWeightMap
  rw [cloneWeights_isSome_iff]
  constructor
  · intro all before w after split new
    exact all w ⟨before, after, split, List.not_mem_nil, new⟩
  · rintro all w ⟨before, after, split, -, new⟩
    exact all before w after split new

theorem mergeOk_of_right (input : MergeInput env models candidate)
    (right : MergeRight env models candidate) : MergeOk models candidate := by
  obtain ⟨out, done, -, resolves, apart⟩ := right
  obtain ⟨weights, -, cloned⟩ := merge_eq_some done
  obtain ⟨candidate', selected, hashes, copied⟩ := cloneSections_spec cloned
  have count : (allPrograms models).length = models.length := by
    unfold selectWeight at selected
    split at selected
    · cases selected
    · rename_i same
      rw [routineNameMaps, List.length_map] at same
      omega
  rw [input.selectWeight_eq count] at selected
  cases selected
  have owned : Owned models := fun i m entry s member buffer =>
    owned_of_namesApart input copied apart entry member buffer
  refine ⟨shapes_iff.mp (by rw [weights]; rfl), count, owned, ?_, ?_, ?_⟩
  · intro m member s inModel
    obtain ⟨i, entry⟩ := List.mem_iff_getElem?.mp member
    exact (hashOk_iff entry inModel).mp (hashes _ (mem_tagged_zero.mpr ⟨m, entry, inModel⟩))
  · intro k i s atK buffer
    obtain ⟨⟨m, entry, member⟩, -⟩ := mem_keptSections.mp (List.mem_of_getElem? atK)
    obtain ⟨p, atI, named⟩ := owned i m entry s member buffer
    obtain ⟨r, inProgram, gives⟩ := List.mem_filterMap.mp named
    obtain ⟨m', entry', inModel⟩ := mem_tagged_zero.mp (List.mem_of_getElem? atI)
    rw [entry] at entry'
    cases entry'
    obtain ⟨t, single, same⟩ := resolves i m entry p inModel r inProgram s member buffer gives
    obtain ⟨t', atT, as⟩ := copied.exists_copy atK
    have name := owned.name_eq atK as
    have found : t' ∈ resolve out (newName s.name i) := by
      refine List.mem_filter.mpr ⟨List.mem_of_getElem? atT, ?_⟩
      rw [as.isBuffer_eq, buffer, name, meantName, if_pos buffer]
      simp
    rw [single] at found
    obtain rfl := List.mem_singleton.mp found
    have bytes := same.bytes
    rw [as.bytes, copied.binary] at bytes
    rw [bytesOf_eq entry]
    exact Or.inr bytes
  · intro i s j s' member member' other buffer
    obtain ⟨a, atA⟩ := List.mem_iff_getElem?.mp member
    obtain ⟨b, atB⟩ := List.mem_iff_getElem?.mp member'
    obtain ⟨t, atT, as⟩ := copied.exists_copy atA
    obtain ⟨t', atT', as'⟩ := copied.exists_copy atB
    rw [← owned.name_eq atA as, ← owned.name_eq atB as']
    exact apart a b i j s s' t t' atA atB other atT atT'

/-- The copies of the buffers of one name: there is one for each model. -/
theorem index_eq_of_name (input : MergeInput env models candidate) {k k' i j : Nat} {m : Model}
    {s s' : Section} (entry : models[i]? = some m)
    (atK : (keptSections models candidate)[k]? = some (i, s))
    (atK' : (keptSections models candidate)[k']? = some (j, s'))
    (same : newName s'.name j = newName s.name i) : k' = k := by
  obtain ⟨sameName, rfl⟩ := newName_inj same
  obtain ⟨⟨m₁, entry₁, member⟩, -⟩ := mem_keptSections.mp (List.mem_of_getElem? atK)
  obtain ⟨⟨m₂, entry₂, member'⟩, -⟩ := mem_keptSections.mp (List.mem_of_getElem? atK')
  rw [entry] at entry₁ entry₂
  cases entry₁
  cases entry₂
  have sameSection : s' = s := List.inj_on_of_nodup_map
    (input.unique m (List.mem_of_getElem? entry)) member' member sameName
  subst sameSection
  have nodup : (keptSections models candidate).Nodup :=
    List.Nodup.filter _ (nodup_tagged fun m' inList => (input.unique m' inList).of_map _)
  obtain ⟨lt, value⟩ := List.getElem?_eq_some_iff.mp atK
  obtain ⟨lt', value'⟩ := List.getElem?_eq_some_iff.mp atK'
  exact (List.Nodup.getElem_inj_iff nodup).mp (value'.trans value.symm)

/-- With all names to be found, the merge completes and copies the kept sections. -/
theorem merge_of_mergeOk (input : MergeInput env models candidate)
    (ok : MergeOk models candidate) :
    ∃ out, merge env models = some out ∧
      Copied models (routineNameMaps models) candidate out.sections out.binary := by
  obtain ⟨weightMap, weights⟩ := Option.isSome_iff_exists.mp (shapes_iff.mpr ok.shapes)
  obtain ⟨programs, cloned⟩ := input.clonePrograms_isSome
  have selected := input.selectWeight_eq ok.count
  obtain ⟨es, wrote⟩ : ∃ es, (keptSections models candidate).mapM
      (entryOf models (routineNameMaps models)) = some es := by
    apply mapM_isSome
    rintro ⟨i, s⟩ member
    obtain ⟨⟨m, entry, inModel⟩, -⟩ := mem_keptSections.mp member
    simp [entryOf, entry, ok.owned.sectionName_eq entry inModel]
  have hashes : ∀ entry ∈ allSections models, HashOk env models entry := by
    rintro ⟨i, s⟩ member
    obtain ⟨m, entry, inModel⟩ := mem_tagged_zero.mp member
    exact (hashOk_iff entry inModel).mpr (ok.sizes m (List.mem_of_getElem? entry) s inModel)
  have looped : copyLoop env models (routineNameMaps models) candidate (allSections models) .new =
      some (es.foldl (fun w e => w.add e.1 e.2) .new) :=
    copyLoop_eq_some_iff.mpr ⟨hashes, es, forall₂_of_mapM wrote, rfl⟩
  have merged : ∃ out, merge env models = some out := by
    simp [merge, weights, cloned, cloneSections, selected, looped]
  obtain ⟨out, merged⟩ := merged
  obtain ⟨-, -, sections⟩ := merge_eq_some merged
  obtain ⟨candidate', selected', -, copied⟩ := cloneSections_spec sections
  rw [selected] at selected'
  cases selected'
  exact ⟨out, merged, copied⟩

theorem right_of_mergeOk (input : MergeInput env models candidate)
    (ok : MergeOk models candidate) : MergeRight env models candidate := by
  obtain ⟨out, merged, copied⟩ := merge_of_mergeOk input ok
  refine ⟨out, merged, clonePrograms_spec (merge_eq_some merged).2.1, ?_, ?_⟩
  · intro i m entry p _ r _ s member buffer _
    obtain ⟨k, atK⟩ := List.mem_iff_getElem?.mp
      (mem_kept_of_buffer candidate entry member buffer)
    obtain ⟨t, atT, as⟩ := copied.exists_copy atK
    have single : resolve out (newName s.name i) = [t] := by
      refine filter_eq_singleton atT ?_ ?_
      · rw [as.isBuffer_eq, buffer, ok.owned.name_eq atK as, meantName, if_pos buffer]
        simp
      · intro k' t' atT' meets
        obtain ⟨⟨j, s'⟩, atK', as'⟩ := copied.exists_source atT'
        simp only [Bool.and_eq_true, decide_eq_true_eq] at meets
        obtain ⟨buffer', name⟩ := meets
        rw [as'.isBuffer_eq] at buffer'
        rw [ok.owned.name_eq atK' as', meantName, if_pos buffer'] at name
        exact index_eq_of_name input entry atK atK' name
    have bytes : out.sectionBytes t = m.sectionBytes s := by
      rw [as.bytes]
      rcases ok.offsets k i s atK buffer with below | wrapped
      · exact copied.slice_binary atK entry member below
      · rw [copied.binary, wrapped, bytesOf_eq entry]
    exact ⟨t, single, bytes, by rw [as.fields], by rw [as.fields], by rw [as.fields]⟩
  · intro a b i j s s' t t' atA atB other atT atT'
    have member := List.mem_of_getElem? atA
    have member' := List.mem_of_getElem? atB
    rw [ok.owned.name_eq atA (copied.copied a _ t atA atT),
      ok.owned.name_eq atB (copied.copied b _ t' atB atT')]
    cases buffer : isBuffer s with
    | false => exact ok.names i s j s' member member' other buffer
    | true =>
      cases buffer' : isBuffer s' with
      | false =>
        intro same
        exact ok.names j s' i s member' member (fun equal => other equal.symm) buffer' same.symm
      | true =>
        unfold meantName
        rw [if_pos buffer, if_pos buffer']
        intro same
        exact other (newName_inj same).2

/-- For models the tool is meant for, a merge is right exactly when the weights have shapes,
    there is one program for each model and it names all its buffers, uncompressed sections are
    below `2^31` bytes, the buffers are copied to below 4 GiB, and names that are kept are not
    shared. -/
theorem merge_right_iff (env : MergeEnv) (models : List Model) (candidate : Nat)
    (input : MergeInput env models candidate) :
    MergeRight env models candidate ↔ MergeOk models candidate :=
  ⟨mergeOk_of_right input, right_of_mergeOk input⟩

end Exactly

/-- A model with `smallModel`'s sections and `count` programs that all run its buffer. -/
def programsModel (count : Nat) : Model :=
  { idleModel with
    programs :=
      List.replicate count ⟨1, 0, [], [], [], [⟨[], [], .tpu ⟨some "main", none⟩⟩], 0, 0⟩ }

theorem mergeInput_programsModel (i j : Nat) (candidate : Nat)
    (passed : compareWeights exactHash [programsModel i, programsModel j] = some candidate) :
    MergeInput exactHash [programsModel i, programsModel j] candidate where
  named := by
    simp [programsModel, idleModel, smallModel, isBuffer, TpuRoutine.sectionName]
  unique := by
    simp [programsModel, idleModel, smallModel]
  uniform := rfl
  passed := passed

theorem mergeOk_programsModel : MergeOk [programsModel 1, programsModel 1] 1 where
  shapes := by simp [programsModel, idleModel, smallModel]
  count := rfl
  owned := by
    intro i m entry s member buffer
    have name : s.name = "main" := by
      obtain rfl : m = programsModel 1 := by
        have listed := List.mem_of_getElem? entry
        simpa using listed
      rcases List.mem_cons.mp member with rfl | rest
      · cases buffer
      · rw [List.mem_singleton.mp rest]
    rw [name]
    rcases i with _ | _ | i
    · exact ⟨_, rfl, by decide⟩
    · exact ⟨_, rfl, by decide⟩
    · cases entry
  sizes := by simp [programsModel, idleModel, smallModel]
  offsets := by
    intro k i s atK _
    have room := position_add_length_le (keptBytes_entry atK)
    have length : (keptBytes [programsModel 1, programsModel 1] 1).flatten.length = 6 := rfl
    exact Or.inl (by omega)
  names := by
    intro i s j s' member member' other buffer
    have listed : keptSections [programsModel 1, programsModel 1] 1 =
        [(0, ⟨.cmdbuf, "main", 0, 2, false, false, 0⟩),
          (1, ⟨.weight, "weight", 2, 2, false, false, 0⟩),
          (1, ⟨.cmdbuf, "main", 0, 2, false, false, 0⟩)] := rfl
    rw [listed] at member member'
    simp only [List.mem_cons, Prod.mk.injEq, List.not_mem_nil, or_false] at member member'
    rcases member with ⟨rfl, rfl⟩ | ⟨rfl, rfl⟩ | ⟨rfl, rfl⟩
    · cases buffer
    · rcases member' with ⟨rfl, rfl⟩ | ⟨rfl, rfl⟩ | ⟨rfl, rfl⟩
      · decide
      · exact absurd rfl other
      · exact absurd rfl other
    · cases buffer

theorem merge_right_iff_one_program_each :
    MergeRight exactHash [programsModel 1, programsModel 1] 1 :=
  (merge_right_iff exactHash _ 1 (mergeInput_programsModel 1 1 1 rfl)).mpr mergeOk_programsModel

/-- With two programs in the first model an assertion fails. -/
theorem merge_two_programs_fails :
    MergeInput exactHash [programsModel 2, programsModel 1] 1 ∧
      merge exactHash [programsModel 2, programsModel 1] = none ∧
      ¬ MergeRight exactHash [programsModel 2, programsModel 1] 1 := by
  have fails : merge exactHash [programsModel 2, programsModel 1] = none := rfl
  refine ⟨mergeInput_programsModel 2 1 1 rfl, fails, ?_⟩
  rintro ⟨out, done, -⟩
  rw [fails] at done
  cases done

end CviRuntime.Tool
