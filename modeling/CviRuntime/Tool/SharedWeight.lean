import Mathlib.Data.List.Chain
import Mathlib.Data.List.Sort
import CviRuntime.Tool.Merge

/-!
# The weight a merge keeps

The comparison along the sorted weights passes exactly when each weight begins the next. Then
every weight begins the last one, which is the one that is kept.
-/

namespace CviRuntime.Tool

open CviRuntime.Memory CviRuntime.Packed

/-- The bytes of a section of model `i`. -/
def bytesOf (models : List Model) (i : Nat) (s : Section) : List UInt8 :=
  match models[i]? with
  | none => []
  | some m => m.sectionBytes s

theorem bytesOf_eq {models : List Model} {i : Nat} {m : Model} (entry : models[i]? = some m)
    (s : Section) : bytesOf models i s = m.sectionBytes s := by
  unfold bytesOf
  rw [entry]

/-- The bytes of a weight. -/
def weightBytes (models : List Model) (ws : WeightSection) : List UInt8 :=
  bytesOf models ws.id ws.sec

/-- The weights are uncompressed and smaller than `2^31` bytes. -/
def PlainWeights (models : List Model) : Prop :=
  ∀ m ∈ models, ∀ s ∈ m.sections, s.type = .weight → s.compress = false ∧ s.size < 2 ^ 31

/-! ## The hash of a beginning -/

theorem calcSectionMD5_begin {env : MergeEnv} {m : Model} {s : Section} {size : Nat}
    (member : s ∈ m.sections) (plain : s.compress = false) (le : size ≤ s.size)
    (small : size < 2 ^ 31) :
    calcSectionMD5 env m s size = some (env.md5 ((m.sectionBytes s).take size)) := by
  have inside := m.inside s member
  have bytes : (m.sectionBytes s).take size = (m.binary.drop s.offset).take size := by
    unfold ModelData.sectionBytes slice
    rw [List.take_take, Nat.min_eq_left le]
  unfold calcSectionMD5 streamRead
  rw [plain, bytes, if_neg (by simp), if_neg (by omega), if_pos (by omega)]
  rfl

/-- What is known of each weight in the list. -/
structure IsWeight (models : List Model) (ws : WeightSection) (m : Model) : Prop where
  entry : models[ws.id]? = some m
  member : ws.sec ∈ m.sections
  type : ws.sec.type = .weight
  size : ws.size = ws.sec.size

theorem IsWeight.length_bytes {models : List Model} {ws : WeightSection} {m : Model}
    (is : IsWeight models ws m) : (weightBytes models ws).length = ws.size := by
  unfold weightBytes
  rw [bytesOf_eq is.entry, is.size]
  exact m.length_sectionBytes is.member

theorem mem_weightSections {models : List Model} {ws : WeightSection} :
    ws ∈ weightSections models ↔ ∃ m, IsWeight models ws m := by
  unfold weightSections
  rw [List.mem_map]
  constructor
  · rintro ⟨entry, member, rfl⟩
    obtain ⟨inAll, isWeight⟩ := List.mem_filter.mp member
    obtain ⟨m, found, inModel⟩ := mem_tagged_zero.mp inAll
    exact ⟨m, found, inModel, by simpa using isWeight, rfl⟩
  · rintro ⟨m, is⟩
    refine ⟨(ws.id, ws.sec), List.mem_filter.mpr ⟨?_, by simpa using is.type⟩, ?_⟩
    · exact mem_tagged_zero.mpr ⟨m, is.entry, is.member⟩
    · rw [← is.size]

theorem isWeight_of_sorted {env : MergeEnv} {models : List Model} {ws : WeightSection}
    (member : ws ∈ sortedWeights env models) : ∃ m, IsWeight models ws m :=
  mem_weightSections.mp ((env.sort.perm _).mem_iff.mp member)

/-- The hash of the first `size` bytes of a weight. -/
theorem IsWeight.md5 {env : MergeEnv} {models : List Model} {ws : WeightSection} {m : Model}
    (is : IsWeight models ws m) (plain : PlainWeights models) {size : Nat} (le : size ≤ ws.size) :
    calcSectionMD5 env m ws.sec size = some (env.md5 ((weightBytes models ws).take size)) := by
  have uncompressed := plain m (List.mem_of_getElem? is.entry) ws.sec is.member is.type
  have weightSize := is.size
  rw [calcSectionMD5_begin is.member uncompressed.1 (by omega) (by omega)]
  unfold weightBytes
  rw [bytesOf_eq is.entry]

/-! ## The chain of comparisons -/

section Chain

variable {env : MergeEnv} {models : List Model}

/-- After a weight `last` the loop passes when each weight begins the next. -/
theorem compareLoop_isSome_iff (injective : Function.Injective env.md5)
    (digits : ∀ bytes, env.md5 bytes ≠ "") (plain : PlainWeights models) :
    ∀ (weights : List WeightSection) (last : WeightSection),
      (∀ ws ∈ last :: weights, ∃ m, IsWeight models ws m) →
      (last :: weights).Pairwise (fun a b => a.size ≤ b.size) →
      ((compareLoop env models (env.md5 (weightBytes models last))
          (weights.zip (last.size :: weights.map fun ws => ws.size).dropLast)).isSome ↔
        List.IsChain (· <+: ·) ((last :: weights).map (weightBytes models))) := by
  intro weights
  induction weights with
  | nil =>
    intro last _ _
    simp [compareLoop]
  | cons ws weights ih =>
    intro last are sorted
    obtain ⟨mLast, isLast⟩ := are last (by simp)
    obtain ⟨m, is⟩ := are ws (by simp)
    have le : last.size ≤ ws.size := (List.pairwise_cons.mp sorted).1 ws (by simp)
    have rest := ih ws (fun w member => are w (List.mem_cons_of_mem _ member))
      (List.pairwise_cons.mp sorted).2
    have lastLength := isLast.length_bytes
    have length := is.length_bytes
    have begins : weightBytes models last <+: weightBytes models ws ↔
        env.md5 (weightBytes models last) = env.md5 ((weightBytes models ws).take last.size) := by
      rw [List.prefix_iff_eq_take, lastLength]
      exact injective.eq_iff.symm
    have whole : (weightBytes models ws).take ws.sec.size = weightBytes models ws := by
      rw [← is.size, ← length, List.take_length]
    have zipped : (ws :: weights).zip
          (last.size :: (ws :: weights).map fun ws => ws.size).dropLast =
        (ws, last.size) ::
          weights.zip (ws.size :: weights.map fun ws => ws.size).dropLast := by
      simp
    rw [zipped]
    simp only [List.map_cons, List.isChain_cons_cons] at rest ⊢
    unfold compareLoop
    simp only [is.entry, is.md5 plain le, is.md5 plain (Nat.le_of_eq is.size.symm), whole,
      Option.bind_eq_bind, Option.bind_some, if_neg (digits _)]
    rw [begins]
    by_cases same : env.md5 (weightBytes models last) =
        env.md5 ((weightBytes models ws).take last.size)
    · rw [if_neg (not_not.mpr same), rest]
      exact ⟨fun chain => ⟨same, chain⟩, fun both => both.2⟩
    · rw [if_pos same]
      constructor
      · intro passed
        cases passed
      · intro both
        exact absurd both.1 same

/-- The comparison passes exactly when there are weights and each one begins the next. -/
theorem compareWeights_isSome_iff (injective : Function.Injective env.md5)
    (digits : ∀ bytes, env.md5 bytes ≠ "") (plain : PlainWeights models)
    (some_weight : sortedWeights env models ≠ []) :
    (compareWeights env models).isSome ↔
      List.IsChain (· <+: ·) ((sortedWeights env models).map (weightBytes models)) := by
  have are : ∀ ws ∈ sortedWeights env models, ∃ m, IsWeight models ws m :=
    fun ws member => isWeight_of_sorted member
  have sorted : (sortedWeights env models).Pairwise (fun a b => a.size ≤ b.size) :=
    env.sort.sorted _
  unfold compareWeights
  cases list : sortedWeights env models with
  | nil => exact absurd list some_weight
  | cons first weights =>
    rw [list] at are sorted
    obtain ⟨m, is⟩ := are first (by simp)
    have whole : (weightBytes models first).take first.size = weightBytes models first := by
      rw [← is.length_bytes, List.take_length]
    have loop := compareLoop_isSome_iff injective digits plain weights first are sorted
    rw [← loop]
    obtain ⟨last, isLast⟩ : ∃ last, (first :: weights).getLast? = some last :=
      ⟨_, List.getLast?_eq_some_getLast (by simp)⟩
    simp only [isLast, Option.bind_eq_bind, Option.bind_some, List.map_cons, shiftSizes,
      List.zip_cons_cons, compareLoop, is.entry, is.md5 plain (Nat.le_refl _), whole, if_true]
    cases compareLoop env models (env.md5 (weightBytes models first))
      (weights.zip (first.size :: weights.map fun ws => ws.size).dropLast) with
    | none => simp
    | some done => simp

/-- The candidate is the model of the last weight. -/
theorem compareWeights_eq {candidate : Nat} (passed : compareWeights env models = some candidate) :
    ∃ last, (sortedWeights env models).getLast? = some last ∧ last.id = candidate := by
  unfold compareWeights at passed
  simp only [Option.bind_eq_bind, Option.bind_eq_some_iff, Option.pure_def,
    Option.some.injEq] at passed
  obtain ⟨last, isLast, -, -, rfl⟩ := passed
  exact ⟨last, isLast, rfl⟩

end Chain

/-- In a chain in which each list begins the next, all begin the last. -/
theorem prefix_getLast_of_isChain {α : Type} :
    ∀ {lists : List (List α)} {last list : List α}, List.IsChain (· <+: ·) lists →
      lists.getLast? = some last → list ∈ lists → list <+: last := by
  intro lists
  induction lists with
  | nil =>
    intro last list _ isLast _
    cases isLast
  | cons first rest ih =>
    intro last list chain isLast member
    cases rest with
    | nil =>
      obtain rfl : first = last := by simpa using isLast
      obtain rfl := List.mem_singleton.mp member
      exact List.prefix_rfl
    | cons second rest =>
      rw [List.getLast?_cons_cons] at isLast
      rw [List.isChain_cons_cons] at chain
      rcases List.mem_cons.mp member with rfl | later
      · exact chain.1.trans (ih chain.2 isLast (by simp))
      · exact ih chain.2 isLast later

/-! ## The kept weight in the output -/

/-- What is written for a section that is kept. -/
def entryOf (models : List Model) (maps : List (List (String × String))) (entry : Nat × Section) :
    Option (Section × List UInt8) := do
  let m ← models[entry.1]?
  let name ← sectionName maps entry.1 entry.2
  return ({ entry.2 with name := name }, m.sectionBytes entry.2)

/-- The hash that is printed for the section can be computed. -/
def HashOk (env : MergeEnv) (models : List Model) (entry : Nat × Section) : Prop :=
  ∃ m, models[entry.1]? = some m ∧ (calcSectionMD5 env m entry.2 entry.2.size).isSome

theorem hashOk_iff {env : MergeEnv} {models : List Model} {i : Nat} {m : Model} {s : Section}
    (entry : models[i]? = some m) (member : s ∈ m.sections) :
    HashOk env models (i, s) ↔ (s.compress = false → s.size < 2 ^ 31) := by
  have inside := m.inside s member
  have hash : (calcSectionMD5 env m s s.size).isSome ↔ (s.compress = false → s.size < 2 ^ 31) := by
    unfold calcSectionMD5
    cases compress : s.compress with
    | true =>
      rw [if_pos rfl]
      split <;> simp
    | false =>
      rw [if_neg (by simp)]
      by_cases big : 2 ^ 31 ≤ s.size
      · rw [if_pos big]
        simp only [Option.isSome_none, Bool.false_eq_true, forall_const, false_iff, not_lt]
        exact big
      · rw [if_neg big, streamRead, if_pos inside]
        simp only [Option.map_some, Option.isSome_some, forall_const, true_iff]
        omega
  constructor
  · rintro ⟨m', entry', hashed⟩
    rw [entry] at entry'
    cases entry'
    exact hash.mp hashed
  · intro small
    exact ⟨m, entry, hash.mpr small⟩

theorem entryOf_eq_some {models : List Model} {maps : List (List (String × String))}
    {entry : Nat × Section} {e : Section × List UInt8}
    (wrote : entryOf models maps entry = some e) :
    ∃ m name, models[entry.1]? = some m ∧ sectionName maps entry.1 entry.2 = some name ∧
      e = ({ entry.2 with name := name }, m.sectionBytes entry.2) := by
  simp only [entryOf, Option.bind_eq_bind, Option.bind_eq_some_iff, Option.pure_def,
    Option.some.injEq] at wrote
  obtain ⟨m, found, name, named, rfl⟩ := wrote
  exact ⟨m, name, found, named, rfl⟩

/-- The copying loop writes the kept sections in order, when every hash can be computed and
    every name found. -/
theorem copyLoop_eq_some_iff {env : MergeEnv} {models : List Model}
    {maps : List (List (String × String))} {candidate : Nat} :
    ∀ {entries : List (Nat × Section)} {w w' : SectionWriter},
      copyLoop env models maps candidate entries w = some w' ↔
        (∀ entry ∈ entries, HashOk env models entry) ∧
        ∃ es, List.Forall₂ (fun entry e => entryOf models maps entry = some e)
            (entries.filter (isKept candidate)) es ∧
          w' = es.foldl (fun w e => w.add e.1 e.2) w := by
  intro entries
  induction entries with
  | nil =>
    intro w w'
    constructor
    · intro done
      cases done
      exact ⟨by simp, [], List.Forall₂.nil, rfl⟩
    · rintro ⟨-, es, all, rfl⟩
      cases all
      rfl
  | cons entry entries ih =>
    intro w w'
    obtain ⟨i, s⟩ := entry
    unfold copyLoop
    simp only [Option.bind_eq_bind, Option.bind_eq_some_iff]
    constructor
    · rintro ⟨m, found, md5, hashed, done⟩
      have hash : HashOk env models (i, s) := ⟨m, found, by rw [hashed]; rfl⟩
      by_cases kept : isKept candidate (i, s) = true
      · rw [if_pos kept, Option.bind_eq_some_iff] at done
        obtain ⟨name, named, done⟩ := done
        obtain ⟨hashes, es, all, rfl⟩ := ih.mp done
        refine ⟨List.forall_mem_cons.mpr ⟨hash, hashes⟩,
          ({ s with name := name }, m.sectionBytes s) :: es, ?_, rfl⟩
        rw [List.filter_cons_of_pos kept]
        refine List.Forall₂.cons ?_ all
        simp only [entryOf, found, named, Option.bind_eq_bind, Option.bind_some, Option.pure_def]
      · rw [if_neg kept] at done
        obtain ⟨hashes, es, all, rfl⟩ := ih.mp done
        refine ⟨List.forall_mem_cons.mpr ⟨hash, hashes⟩, es, ?_, rfl⟩
        rwa [List.filter_cons_of_neg kept]
    · rintro ⟨hashes, es, all, rfl⟩
      obtain ⟨hash, hashes⟩ := List.forall_mem_cons.mp hashes
      obtain ⟨m, found, hashed⟩ := hash
      obtain ⟨md5, hashed⟩ := Option.isSome_iff_exists.mp hashed
      refine ⟨m, found, md5, hashed, ?_⟩
      by_cases kept : isKept candidate (i, s) = true
      · rw [List.filter_cons_of_pos kept] at all
        obtain ⟨e, es, wrote, later, rfl⟩ := List.forall₂_cons_left_iff.mp all
        obtain ⟨m', name, found', named, rfl⟩ := entryOf_eq_some wrote
        rw [found] at found'
        cases found'
        rw [if_pos kept, Option.bind_eq_some_iff]
        exact ⟨name, named, ih.mpr ⟨hashes, es, later, rfl⟩⟩
      · rw [List.filter_cons_of_neg kept] at all
        rw [if_neg kept]
        exact ih.mpr ⟨hashes, es, all, rfl⟩

/-- The sections that are copied, with the index of their model. -/
def keptSections (models : List Model) (candidate : Nat) : List (Nat × Section) :=
  (allSections models).filter (isKept candidate)

/-- The bytes of the sections that are copied. -/
def keptBytes (models : List Model) (candidate : Nat) : List (List UInt8) :=
  (keptSections models candidate).map fun entry => bytesOf models entry.1 entry.2

theorem mem_keptSections {models : List Model} {candidate i : Nat} {s : Section} :
    (i, s) ∈ keptSections models candidate ↔
      (∃ m, models[i]? = some m ∧ s ∈ m.sections) ∧ (s.type = .weight → i = candidate) := by
  unfold keptSections allSections
  rw [List.mem_filter, mem_tagged_zero]
  simp [isKept, Decidable.imp_iff_not_or]

/-- What the copy makes of section `k` of the kept ones. -/
structure CopiedAs (models : List Model) (maps : List (List (String × String))) (candidate k : Nat)
    (entry : Nat × Section) (t : Section) : Prop where
  name : sectionName maps entry.1 entry.2 = some t.name
  fields : t = { entry.2 with
    name := t.name
    offset := u32 (position (keptBytes models candidate) k) }

/-- `Model::cloneSections` writes the kept sections, one after the other. -/
structure Copied (models : List Model) (maps : List (List (String × String))) (candidate : Nat)
    (sections : List Section) (binary : List UInt8) : Prop where
  length : sections.length = (keptSections models candidate).length
  copied : ∀ k entry t, (keptSections models candidate)[k]? = some entry →
    sections[k]? = some t → CopiedAs models maps candidate k entry t
  binary : binary = (keptBytes models candidate).flatten

section Copy

variable {env : MergeEnv} {models : List Model} {maps : List (List (String × String))}
  {candidate : Nat} {sections : List Section} {binary : List UInt8}

theorem forall₂_entryOf {entries : List (Nat × Section)} {es : List (Section × List UInt8)}
    (all : List.Forall₂ (fun entry e => entryOf models maps entry = some e) entries es) :
    es.map Prod.snd = entries.map (fun entry => bytesOf models entry.1 entry.2) ∧
      es.length = entries.length ∧
      ∀ (k : Nat) entry e, entries[k]? = some entry → es[k]? = some e →
        entryOf models maps entry = some e := by
  induction all with
  | nil => simp
  | cons wrote _ ih =>
    obtain ⟨bytes, length, get⟩ := ih
    obtain ⟨m, name, found, -, rfl⟩ := entryOf_eq_some wrote
    refine ⟨?_, ?_, ?_⟩
    · simp only [List.map_cons, bytes, bytesOf_eq found]
    · simp only [List.length_cons, length]
    · intro k entry e atK atK'
      cases k with
      | zero =>
        cases atK
        cases atK'
        exact wrote
      | succ k => exact get k entry e atK atK'

theorem cloneSections_spec
    (done : cloneSections env models maps = some (sections, binary)) :
    ∃ candidate, selectWeight env models maps = some candidate ∧
      (∀ entry ∈ allSections models, HashOk env models entry) ∧
      Copied models maps candidate sections binary := by
  unfold cloneSections at done
  simp only [Option.bind_eq_bind, Option.bind_eq_some_iff, Option.pure_def,
    Option.some.injEq] at done
  obtain ⟨candidate, selected, w, copied, same⟩ := done
  obtain ⟨hashes, es, all, rfl⟩ := copyLoop_eq_some_iff.mp copied
  obtain ⟨bytes, length, get⟩ := forall₂_entryOf all
  have written := SectionWriter.addAll_eq es
  unfold SectionWriter.addAll at written
  rw [written] at same
  cases same
  refine ⟨candidate, selected, hashes, ?_, ?_, ?_⟩
  · simp only [SectionWriter.laidOut, List.length_mapIdx, length]
    rfl
  · intro k entry t atK atK'
    simp only [SectionWriter.laidOut, List.getElem?_mapIdx, Option.map_eq_some_iff] at atK'
    obtain ⟨e, atE, rfl⟩ := atK'
    obtain ⟨m, name, -, named, rfl⟩ := entryOf_eq_some (get k entry e atK atE)
    refine ⟨named, ?_⟩
    simp only [bytes]
    rfl
  · rw [bytes]
    rfl

end Copy

/-- The sections of type `WEIGHT`. -/
def weightsOf (sections : List Section) : List Section :=
  sections.filter fun s => s.type = .weight

/-- Of the weights only those of the candidate are kept. -/
theorem filter_keptSections {models : List Model} {candidate : Nat} {m : Model}
    (entry : models[candidate]? = some m) :
    (keptSections models candidate).filter (fun entry => entry.2.type = .weight) =
      (weightsOf m.sections).map (Prod.mk candidate) := by
  have own : (allSections models).filter (fun entry => entry.1 = candidate) =
      m.sections.map (Prod.mk candidate) := filter_tagged (Nat.zero_le _) entry
  have both : (keptSections models candidate).filter (fun entry => entry.2.type = .weight) =
      ((allSections models).filter (fun entry => entry.1 = candidate)).filter
        (fun entry => entry.2.type = .weight) := by
    unfold keptSections
    rw [List.filter_filter, List.filter_filter]
    apply List.filter_congr
    intro e _
    by_cases weight : e.2.type = .weight
    · simp [isKept, weight]
    · simp [weight]
  rw [both, own, List.filter_map]
  rfl

/-- The copies have the types of the kept sections. -/
theorem Copied.types {models : List Model} {maps : List (List (String × String))} {candidate : Nat}
    {sections : List Section} {binary : List UInt8}
    (copied : Copied models maps candidate sections binary) :
    sections.map (fun s => s.type) =
      (keptSections models candidate).map (fun entry => entry.2.type) := by
  apply List.ext_getElem
  · simp [copied.length]
  · intro k lt lt'
    rw [List.getElem_map, List.getElem_map]
    simp only [List.length_map] at lt lt'
    have same := (copied.copied k _ _ (List.getElem?_eq_getElem lt')
      (List.getElem?_eq_getElem lt)).fields
    rw [same]

/-- The output has one weight when the candidate has one, and it is that one. -/
theorem Copied.weight {models : List Model} {maps : List (List (String × String))}
    {candidate : Nat} {sections : List Section} {binary : List UInt8} {m : Model} {s : Section}
    (copied : Copied models maps candidate sections binary)
    (entry : models[candidate]? = some m) (one : weightsOf m.sections = [s]) :
    ∃ k t, weightsOf sections = [t] ∧
      (keptSections models candidate)[k]? = some (candidate, s) ∧ t = { s with
        offset := u32 (position (keptBytes models candidate) k) } := by
  have kept := filter_keptSections entry
  rw [one] at kept
  have count : (weightsOf sections).length = 1 := by
    have types := congrArg (List.countP fun type => type = SectionType.weight) copied.types
    rw [List.countP_map, List.countP_map] at types
    unfold weightsOf
    rw [← List.countP_eq_length_filter]
    refine types.trans ?_
    rw [List.countP_eq_length_filter]
    exact congrArg List.length kept
  obtain ⟨t, single⟩ := List.length_eq_one_iff.mp count
  have found : t ∈ weightsOf sections := by rw [single]; exact List.mem_singleton_self t
  obtain ⟨inSections, isWeight⟩ := List.mem_filter.mp found
  obtain ⟨k, atK⟩ := List.mem_iff_getElem?.mp inSections
  have lt : k < (keptSections models candidate).length := by
    rw [← copied.length]
    exact (List.getElem?_eq_some_iff.mp atK).1
  have as := copied.copied k _ t (List.getElem?_eq_getElem lt) atK
  have source : (keptSections models candidate)[k] = (candidate, s) := by
    have weight : (keptSections models candidate)[k] ∈
        (keptSections models candidate).filter (fun entry => entry.2.type = .weight) := by
      refine List.mem_filter.mpr ⟨List.getElem_mem lt, ?_⟩
      rw [as.fields] at isWeight
      exact isWeight
    rw [kept] at weight
    exact List.mem_singleton.mp weight
  rw [source] at as
  have type : s.type = .weight := by
    have member : s ∈ weightsOf m.sections := by rw [one]; exact List.mem_singleton_self s
    simpa using (List.mem_filter.mp member).2
  have name : s.name = t.name := by
    have named := as.name
    simp only [sectionName, isBuffer, type] at named
    simpa using named
  refine ⟨k, t, single, ?_, ?_⟩
  · rw [List.getElem?_eq_getElem lt, source]
  · rw [as.fields, ← name]

/-- The one weight of each model is the weight the comparison sees. -/
theorem exists_sorted (env : MergeEnv) {models : List Model} {m : Model} {s : Section}
    (member : m ∈ models) (inModel : s ∈ m.sections) (type : s.type = .weight) :
    ∃ ws ∈ sortedWeights env models, IsWeight models ws m ∧ ws.sec = s := by
  obtain ⟨i, entry⟩ := List.mem_iff_getElem?.mp member
  have is : IsWeight models ⟨i, s, s.size⟩ m := ⟨entry, inModel, type, rfl⟩
  exact ⟨_, (env.sort.perm _).mem_iff.mpr (mem_weightSections.mpr ⟨m, is⟩), is, rfl⟩

theorem sortedWeights_ne_nil (env : MergeEnv) {models : List Model} (nonempty : models ≠ [])
    (one : ∀ m ∈ models, ∃ s, weightsOf m.sections = [s]) : sortedWeights env models ≠ [] := by
  obtain ⟨m, member⟩ := List.exists_mem_of_ne_nil models nonempty
  obtain ⟨s, single⟩ := one m member
  have found : s ∈ weightsOf m.sections := by rw [single]; exact List.mem_singleton_self s
  obtain ⟨inModel, type⟩ := List.mem_filter.mp found
  obtain ⟨ws, inSorted, -⟩ := exists_sorted env member inModel (by simpa using type)
  exact List.ne_nil_of_mem inSorted

theorem keptBytes_entry {models : List Model} {candidate k i : Nat} {s : Section}
    (atK : (keptSections models candidate)[k]? = some (i, s)) :
    (keptBytes models candidate)[k]? = some (bytesOf models i s) := by
  unfold keptBytes
  rw [List.getElem?_map, atK]
  rfl

/-- Below 4 GiB a copy has the bytes of the section. -/
theorem Copied.slice_binary {models : List Model} {maps : List (List (String × String))}
    {candidate : Nat} {sections : List Section} {binary : List UInt8} {m : Model} {i k : Nat}
    {s : Section} (copied : Copied models maps candidate sections binary)
    (atK : (keptSections models candidate)[k]? = some (i, s)) (entry : models[i]? = some m)
    (member : s ∈ m.sections) (below : position (keptBytes models candidate) k < 2 ^ 32) :
    slice binary (u32 (position (keptBytes models candidate) k)) s.size = m.sectionBytes s := by
  have read := slice_flatten (keptBytes_entry atK)
  rw [bytesOf_eq entry, m.length_sectionBytes member] at read
  rwa [u32_of_lt below, copied.binary]

/-- When the models have one weight each, the comparison is reached and passes exactly when the
    weights, sorted by size, begin one another. In the output there is then one weight, a
    largest one, and at every offset inside the weight of a model it has the bytes of that
    weight, as long as the new binary part is below 4 GiB. -/
theorem shared_weight_chain (env : MergeEnv) (injective : Function.Injective env.md5)
    (digits : ∀ bytes, env.md5 bytes ≠ "") (models : List Model) (nonempty : models ≠ [])
    (one : ∀ m ∈ models, ∃ s, weightsOf m.sections = [s]) (plain : PlainWeights models)
    (maps : List (List (String × String))) (count : models.length = maps.length)
    (uniform : mixedBuffers models = false) :
    ((selectWeight env models maps).isSome ↔
      List.IsChain (· <+: ·) ((sortedWeights env models).map (weightBytes models))) ∧
    ∀ sections binary, cloneSections env models maps = some (sections, binary) →
      ∃ w, weightsOf sections = [w] ∧
        (∃ m ∈ models, ∃ s ∈ m.sections, w = { s with offset := w.offset }) ∧
        ∀ m ∈ models, ∀ s ∈ m.sections, s.type = .weight → s.size ≤ w.size ∧
          (binary.length < 2 ^ 32 → ∀ offset n, offset + n ≤ s.size →
            slice binary (w.offset + offset) n = slice m.binary (s.offset + offset) n) := by
  have select : selectWeight env models maps = compareWeights env models := by
    unfold selectWeight
    rw [if_neg (not_not.mpr count), uniform, if_neg (by simp)]
  have passes := compareWeights_isSome_iff injective digits plain
    (sortedWeights_ne_nil env nonempty one)
  refine ⟨by rw [select]; exact passes, ?_⟩
  intro sections binary done
  obtain ⟨candidate, selected, -, copied⟩ := cloneSections_spec done
  rw [select] at selected
  have chain := passes.mp (by rw [selected]; rfl)
  obtain ⟨last, isLast, rfl⟩ := compareWeights_eq selected
  obtain ⟨mLast, weightLast⟩ := isWeight_of_sorted (List.mem_of_getLast? isLast)
  obtain ⟨sLast, single⟩ := one mLast (List.mem_of_getElem? weightLast.entry)
  have lastIs : last.sec = sLast := by
    have found : last.sec ∈ weightsOf mLast.sections :=
      List.mem_filter.mpr ⟨weightLast.member, by simpa using weightLast.type⟩
    rw [single] at found
    exact List.mem_singleton.mp found
  subst lastIs
  obtain ⟨k, w, only, atK, fields⟩ := copied.weight weightLast.entry single
  refine ⟨w, only, ⟨mLast, List.mem_of_getElem? weightLast.entry, last.sec, weightLast.member, ?_⟩,
    ?_⟩
  · rw [fields]
  intro m member s inModel type
  obtain ⟨ws, inSorted, is, rfl⟩ := exists_sorted env member inModel type
  have begins : weightBytes models ws <+: weightBytes models last :=
    prefix_getLast_of_isChain chain (by rw [List.getLast?_map, isLast]; rfl)
      (List.mem_map.mpr ⟨ws, inSorted, rfl⟩)
  have size : ws.sec.size ≤ last.sec.size := by
    have lengths := begins.length_le
    rwa [is.length_bytes, weightLast.length_bytes, is.size, weightLast.size] at lengths
  refine ⟨by rw [fields]; exact size, ?_⟩
  intro below offset n within
  have whole : slice binary w.offset last.sec.size = mLast.sectionBytes last.sec := by
    have room := position_add_length_le (keptBytes_entry atK)
    rw [← copied.binary] at room
    rw [fields]
    exact copied.slice_binary atK weightLast.entry weightLast.member (by omega)
  have beginsBytes : m.sectionBytes ws.sec <+: mLast.sectionBytes last.sec := by
    unfold weightBytes at begins
    rwa [bytesOf_eq is.entry, bytesOf_eq weightLast.entry] at begins
  calc slice binary (w.offset + offset) n
      = slice (slice binary w.offset last.sec.size) offset n :=
        (slice_slice (by omega)).symm
    _ = slice (mLast.sectionBytes last.sec) offset n := by rw [whole]
    _ = slice (m.sectionBytes ws.sec) offset n :=
        slice_of_prefix beginsBytes (by rw [m.length_sectionBytes is.member]; exact within)
    _ = slice m.binary (ws.sec.offset + offset) n := slice_slice within

/-- A stable sort. -/
def stableSort : SortBySize where
  sort := List.insertionSort fun a b => a.size ≤ b.size
  perm := List.perm_insertionSort _
  sorted l := by
    have : Std.Total (fun a b : WeightSection => a.size ≤ b.size) := ⟨fun a b => Nat.le_total _ _⟩
    have : IsTrans WeightSection (fun a b => a.size ≤ b.size) := ⟨fun _ _ _ => Nat.le_trans⟩
    exact List.pairwise_insertionSort _ l

/-- A hash that tells all contents apart, and a decompressor that always fails. -/
def exactHash : MergeEnv where
  md5 bytes := String.ofList ('-' :: bytes.map fun byte => Char.ofNat byte.toNat)
  decompress _ _ := none
  sort := stableSort

theorem exactHash_injective : Function.Injective exactHash.md5 := by
  intro a b same
  have lists := (List.cons.inj (String.ofList_injective same)).2
  refine List.map_injective_iff.mpr ?_ lists
  intro x y equal
  have values := congrArg Char.toNat equal
  have small : ∀ byte : UInt8, (Char.ofNat byte.toNat).toNat = byte.toNat := by
    intro byte
    have lt := byte.toNat_lt
    unfold Char.ofNat
    rw [dif_pos (Or.inl (by omega))]
    rfl
  rw [small, small] at values
  exact UInt8.toNat_inj.mp values

theorem exactHash_ne_empty (bytes : List UInt8) : exactHash.md5 bytes ≠ "" := by
  intro same
  have lists := congrArg String.toList same
  simp [exactHash] at lists

theorem smallModel_inside (bufferType : SectionType) {weight : List UInt8} (s : Section)
    (member : s ∈ [(⟨.weight, "weight", 2, weight.length, false, false, 0⟩ : Section),
      ⟨bufferType, "main", 0, 2, false, false, 0⟩]) :
    s.offset + s.size ≤ ([7, 8] ++ weight).length := by
  rw [List.length_append]
  rcases List.mem_cons.mp member with rfl | buffer
  · exact Nat.le_refl _
  · rw [List.mem_singleton.mp buffer]
    exact Nat.le_add_right 2 _

theorem smallModel_sizeLt (bufferType : SectionType) {weight : List UInt8}
    (small : weight.length < 1000) (s : Section)
    (member : s ∈ [(⟨.weight, "weight", 2, weight.length, false, false, 0⟩ : Section),
      ⟨bufferType, "main", 0, 2, false, false, 0⟩]) : s.size < 2 ^ 32 := by
  rcases List.mem_cons.mp member with rfl | buffer
  · exact Nat.lt_trans small (by omega)
  · rw [List.mem_singleton.mp buffer]
    exact Nat.lt_of_lt_of_le (by omega : 2 < 1000) (by omega)

/-- A model with one program that runs the buffer, one buffer and a weight. -/
def smallModel (bufferType : SectionType) (weight : List UInt8) (small : weight.length < 1000) :
    Model where
  programs := [⟨1, 0, [], [], [], [⟨[], [], .tpu ⟨some "main", none⟩⟩], 0, 0⟩]
  weightMap := []
  sections := [⟨.weight, "weight", 2, weight.length, false, false, 0⟩,
    ⟨bufferType, "main", 0, 2, false, false, 0⟩]
  binary := [7, 8] ++ weight
  inside := smallModel_inside bufferType
  sizeLt := smallModel_sizeLt bufferType small

theorem shared_weight_chain_two_models :
    ∃ w, (cloneSections exactHash
        [smallModel .cmdbuf [1, 2, 3] (by decide), smallModel .cmdbuf [1, 2] (by decide)]
        [[("main", "main_0")], [("main", "main_1")]]).map (fun out => weightsOf out.1) = some [w] ∧
      w.size = 3 := by
  obtain ⟨passes, kept⟩ := shared_weight_chain exactHash exactHash_injective exactHash_ne_empty
    [smallModel .cmdbuf [1, 2, 3] (by decide), smallModel .cmdbuf [1, 2] (by decide)] (by simp)
    (by simp [weightsOf, smallModel]) (by simp [PlainWeights, smallModel])
    [[("main", "main_0")], [("main", "main_1")]] rfl rfl
  obtain ⟨w, only, -⟩ := kept _ _ rfl
  exact ⟨w, congrArg some only, by cases only; rfl⟩

/-- A section of type `FUNC` over the first `n` bytes. -/
def funcSection (n : Nat) (name : String) : Section := ⟨.func, name, 0, n, false, false, 0⟩

/-- The sections of `wideModel`. -/
def wideSections (n : Nat) : List Section :=
  [funcSection n "a", funcSection n "b", funcSection n "c",
    ⟨.weight, "weight", n, 1, false, false, 0⟩]

theorem wideSections_bounds {n : Nat} (positive : 0 < n) {s : Section}
    (member : s ∈ wideSections n) :
    s.offset + s.size ≤ n + 1 ∧ s.size ≤ n ∧ s.compress = false := by
  simp only [wideSections, List.mem_cons, List.not_mem_nil, or_false] at member
  rcases member with rfl | rfl | rfl | rfl
  · exact ⟨by simp [funcSection], Nat.le_refl _, rfl⟩
  · exact ⟨by simp [funcSection], Nat.le_refl _, rfl⟩
  · exact ⟨by simp [funcSection], Nat.le_refl _, rfl⟩
  · exact ⟨Nat.le_refl _, positive, rfl⟩

theorem wideModel_inside {n : Nat} (positive : 0 < n) (s : Section) (member : s ∈ wideSections n) :
    s.offset + s.size ≤ (List.replicate n (0 : UInt8) ++ [1]).length := by
  rw [List.length_append, List.length_replicate, List.length_singleton]
  exact (wideSections_bounds positive member).1

theorem wideModel_sizeLt {n : Nat} (positive : 0 < n) (small : n < 2 ^ 31) (s : Section)
    (member : s ∈ wideSections n) : s.size < 2 ^ 32 := by
  have bounds := wideSections_bounds positive member
  omega

/-- A model in which three sections share `n` zeros, with a weight of one byte behind them. -/
def wideModel (n : Nat) (positive : 0 < n) (small : n < 2 ^ 31) : Model where
  programs := [⟨1, 0, [], [], [], [], 0, 0⟩]
  weightMap := []
  sections := wideSections n
  binary := List.replicate n 0 ++ [1]
  inside := wideModel_inside positive
  sizeLt := wideModel_sizeLt positive small

section Wide

variable {n : Nat} (positive : 0 < n) (small : n < 2 ^ 31)

theorem slice_zeros {start : Nat} (inside : start < n) :
    slice (List.replicate n (0 : UInt8)) start 1 = [0] := by
  unfold slice
  rw [List.drop_replicate, List.take_replicate, Nat.min_eq_left (by omega)]
  rfl

theorem wideModel_funcBytes (name : String) :
    (wideModel n positive small).sectionBytes (funcSection n name) = List.replicate n 0 := by
  have all : slice (List.replicate n (0 : UInt8) ++ [1]) 0 n =
      slice (List.replicate n (0 : UInt8)) 0 n := slice_append_left (by simp)
  refine all.trans ?_
  unfold slice
  rw [List.drop_zero, List.take_of_length_le (by simp)]

/-- The only weight is the candidate. -/
theorem wideModel_selected : selectWeight exactHash [wideModel n positive small]
    (routineNameMaps [wideModel n positive small]) = some 0 := by
  have weights : sortedWeights exactHash [wideModel n positive small] =
      [⟨0, ⟨.weight, "weight", n, 1, false, false, 0⟩, 1⟩] := rfl
  have plain : PlainWeights [wideModel n positive small] := by
    intro m member s inModel _
    obtain rfl := List.mem_singleton.mp member
    have bounds := wideSections_bounds positive inModel
    exact ⟨bounds.2.2, by omega⟩
  have passed : (compareWeights exactHash [wideModel n positive small]).isSome := by
    rw [compareWeights_isSome_iff exactHash_injective exactHash_ne_empty plain (by simp [weights]),
      weights]
    exact List.isChain_singleton _
  obtain ⟨candidate, compared⟩ := Option.isSome_iff_exists.mp passed
  obtain ⟨last, isLast, rfl⟩ := compareWeights_eq compared
  rw [weights] at isLast
  cases isLast
  exact compared

/-- What is written for the sections. -/
def wideEntries : List (Section × List UInt8) :=
  (wideSections n).map fun s => (s, (wideModel n positive small).sectionBytes s)

theorem wideModel_copied : cloneSections exactHash [wideModel n positive small]
    (routineNameMaps [wideModel n positive small]) =
      some (SectionWriter.laidOut (wideEntries positive small),
        ((wideEntries positive small).map Prod.snd).flatten) := by
  have hashes : ∀ entry ∈ allSections [wideModel n positive small],
      HashOk exactHash [wideModel n positive small] entry := by
    rintro ⟨i, s⟩ member
    obtain ⟨m, entry, inModel⟩ := mem_tagged_zero.mp member
    obtain rfl := List.mem_singleton.mp (List.mem_of_getElem? entry)
    have bounds := wideSections_bounds positive inModel
    exact (hashOk_iff entry inModel).mpr fun _ => by omega
  have kept : (allSections [wideModel n positive small]).filter (isKept 0) =
      (wideSections n).map (Prod.mk 0) := rfl
  have entries : List.Forall₂
      (fun entry e => entryOf [wideModel n positive small]
        (routineNameMaps [wideModel n positive small]) entry = some e)
      ((allSections [wideModel n positive small]).filter (isKept 0))
      (wideEntries positive small) := by
    rw [kept]
    exact List.Forall₂.cons rfl (List.Forall₂.cons rfl
      (List.Forall₂.cons rfl (List.Forall₂.cons rfl List.Forall₂.nil)))
  have looped := copyLoop_eq_some_iff (w := .new).mpr ⟨hashes, _, entries, rfl⟩
  have written := SectionWriter.addAll_eq (wideEntries positive small)
  unfold SectionWriter.addAll at written
  rw [written] at looped
  simp only [cloneSections, wideModel_selected, looped, Option.bind_eq_bind, Option.bind_some,
    Option.pure_def]

/-- Three times `n` zeros are copied, and the weight behind them gets the offset `3 * n` modulo
    `2^32`, where a zero lies. -/
theorem wideModel_wraps (wide : 2 ^ 32 ≤ 3 * n) :
    ∃ sections binary w,
      cloneSections exactHash [wideModel n positive small]
        (routineNameMaps [wideModel n positive small]) = some (sections, binary) ∧
      weightsOf sections = [w] ∧ slice binary w.offset 1 = [0] ∧
      slice (wideModel n positive small).binary n 1 = [1] := by
  have start : position ((wideEntries positive small).map Prod.snd) 3 = 3 * n := by
    simp only [position, wideEntries, wideSections, List.map_cons, List.map_nil,
      List.take_succ_cons, List.take_zero, wideModel_funcBytes, List.length_replicate,
      List.sum_cons, List.sum_nil]
    omega
  have wrapped : u32 (3 * n) < n := by
    unfold u32
    rw [Nat.mod_eq_sub_mod wide, Nat.mod_eq_of_lt (by omega)]
    omega
  refine ⟨_, _, { (⟨.weight, "weight", n, 1, false, false, 0⟩ : Section) with
    offset := u32 (3 * n) }, wideModel_copied positive small, ?_, ?_, ?_⟩
  · rw [← start]
    rfl
  · simp only [wideEntries, wideSections, List.map_cons, List.map_nil, wideModel_funcBytes,
      List.flatten_cons]
    rw [slice_append_left (by rw [List.length_replicate]; omega), slice_zeros wrapped]
  · have behind : slice (List.replicate n (0 : UInt8) ++ [1])
        ((List.replicate n (0 : UInt8)).length + 0) 1 = slice [1] 0 1 := slice_append_right
    rw [List.length_replicate] at behind
    exact behind

end Wide

/-- Two models with the same weight, one with a command buffer and one with a DMA buffer. -/
def mixedModels : List Model :=
  [smallModel .cmdbuf [1, 2] (by decide), smallModel .dmabuf [1, 2] (by decide)]

/-- A model without programs. -/
def idleModel : Model := { smallModel .cmdbuf [1, 2] (by decide) with programs := [] }

/-- Weights that begin one another are not enough. Before they are compared the program ends for
    models with buffers of both kinds, for a model without programs and for no models; and a
    weight behind `3 * (2^31 - 1)` copied bytes is not found at its new offset. -/
theorem shared_weight_exceptions :
    (List.IsChain (· <+: ·) ((sortedWeights exactHash mixedModels).map
        (weightBytes mixedModels)) ∧
      selectWeight exactHash mixedModels (routineNameMaps mixedModels) = none) ∧
    (List.IsChain (· <+: ·) ((sortedWeights exactHash [idleModel]).map
        (weightBytes [idleModel])) ∧
      selectWeight exactHash [idleModel] (routineNameMaps [idleModel]) = none) ∧
    (List.IsChain (· <+: ·) ((sortedWeights exactHash []).map (weightBytes [])) ∧
      selectWeight exactHash [] (routineNameMaps []) = none) ∧
    ∃ positive small sections binary w,
      cloneSections exactHash [wideModel 2147483647 positive small]
        (routineNameMaps [wideModel 2147483647 positive small]) = some (sections, binary) ∧
      weightsOf sections = [w] ∧ slice binary w.offset 1 = [0] ∧
      slice (wideModel 2147483647 positive small).binary 2147483647 1 = [1] := by
  refine ⟨⟨?_, rfl⟩, ⟨?_, rfl⟩, ⟨?_, rfl⟩, by omega, by omega, ?_⟩
  · exact List.isChain_pair.mpr List.prefix_rfl
  · exact List.isChain_singleton _
  · exact List.isChain_nil
  · exact wideModel_wraps _ _ (by omega)

end CviRuntime.Tool
