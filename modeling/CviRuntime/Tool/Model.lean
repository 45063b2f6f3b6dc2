import Mathlib.Data.List.Induction
import CviRuntime.Lib.Packed
import CviRuntime.Memory.ModelParse
import CviRuntime.Tool.Tensors

/-!
# Models as the tool sees them (`tool/cvimodel_tool.cpp`)

A model file is a flatbuffer and, behind it, the binary part in which its sections lie. The
tool writes new files: a flatbuffer that it builds anew and a buffer to which it appends the
bytes of one section after the other. Names are C strings without a NUL. What the generated
readers dereference is there, except where a null pointer is named; using one ends the program
(`none`).
-/

namespace CviRuntime.Tool

open CviRuntime.Runtime CviRuntime.Memory CviRuntime.Packed

/-- An entry of `weight_map`; the shape may be null. -/
structure Weight where
  name : String
  offset : Int
  size : Nat
  shape : Option (List Int)
  type : DType
  deriving DecidableEq, Repr

structure TpuRoutine where
  cmdbufSection : Option String
  dmabufSection : Option String
  deriving DecidableEq, Repr

structure CpuRoutine where
  functionSection : String
  functionArgs : List UInt8
  deriving DecidableEq, Repr

/-- What a routine runs; a type other than `RoutineType_TPU` has a CPU routine. -/
inductive RoutineBody where
  | tpu (routine : TpuRoutine)
  | cpu (routine : CpuRoutine)
  deriving DecidableEq, Repr

structure Routine where
  inTensors : List String
  outTensors : List String
  body : RoutineBody
  deriving DecidableEq, Repr

structure Program where
  batchNum : Int
  neuronSize : Nat
  inputTensors : List String
  outputTensors : List String
  tensorMap : List Tensor
  routines : List Routine
  sharedGmem : Nat
  privateGmem : Nat
  deriving DecidableEq, Repr

/-- What is in a model file: the tables of the flatbuffer and the binary part. -/
structure ModelData where
  programs : List Program
  weightMap : List Weight
  sections : List Section
  binary : List UInt8
  deriving DecidableEq, Repr

/-- A model that can be read: its sections lie in the binary part, and their sizes are
    `uint32_t`. -/
structure Model extends ModelData where
  inside : ∀ s ∈ sections, s.offset + s.size ≤ binary.length
  sizeLt : ∀ s ∈ sections, s.size < 2 ^ 32

/-- The bytes a section selects. -/
def ModelData.sectionBytes (d : ModelData) (s : Section) : List UInt8 :=
  slice d.binary s.offset s.size

theorem Model.length_sectionBytes (m : Model) {s : Section} (member : s ∈ m.sections) :
    (m.sectionBytes s).length = s.size :=
  length_slice (m.inside s member)

/-- The sections that the runtime enters in `dmabuf_map` (`model.cpp:307-368,251-305`). -/
def isBuffer (s : Section) : Bool := s.type = .cmdbuf || s.type = .dmabuf

/-- The section a TPU routine names: the command buffer goes first, for the tool
    (`cvimodel_tool.cpp:694-708`) and the runtime (`program.cpp:382-390`). -/
def TpuRoutine.sectionName (r : TpuRoutine) : Option String := r.cmdbufSection <|> r.dmabufSection

def Routine.sectionName (r : Routine) : Option String :=
  match r.body with
  | .tpu tpu => tpu.sectionName
  | .cpu _ => none

/-! ## Maps by name -/

section Lookup

variable {β : Type} {map : List (String × β)} {name key : String} {value : β}

theorem lookup_append : (map ++ [(key, value)]).lookup name =
    (map.lookup name).or (if name = key then some value else none) := by
  induction map with
  | nil =>
    simp only [List.nil_append, List.lookup_cons, List.lookup_nil, Option.none_or]
    by_cases same : name = key
    · simp [same]
    · rw [beq_false_of_ne same, if_neg same]
  | cons entry map ih =>
    rw [List.cons_append, List.lookup_cons, List.lookup_cons]
    cases name == entry.1 with
    | true => rfl
    | false => exact ih

/-- A map from which a name is removed. -/
theorem lookup_filter_ne : (map.filter fun entry => entry.1 ≠ key).lookup name =
    if name = key then none else map.lookup name := by
  induction map with
  | nil => simp
  | cons entry map ih =>
    by_cases here : entry.1 = key
    · rw [List.filter_cons_of_neg (by simpa using here), ih]
      by_cases same : name = key
      · rw [if_pos same, if_pos same]
      · rw [if_neg same, if_neg same, List.lookup_cons,
          beq_false_of_ne (fun equal => same (equal.trans here))]
    · rw [List.filter_cons_of_pos (by simpa using here), List.lookup_cons, List.lookup_cons, ih]
      by_cases same : name = key
      · rw [if_pos same, if_pos same, beq_false_of_ne (fun equal => here (equal.symm.trans same))]
      · rw [if_neg same, if_neg same]

theorem lookup_assign : (assign map key value).lookup name =
    if name = key then some value else map.lookup name := by
  unfold assign
  rw [lookup_append, lookup_filter_ne]
  by_cases same : name = key
  · rw [if_pos same, if_pos same, if_pos same, Option.none_or]
  · rw [if_neg same, if_neg same, if_neg same, Option.or_none]

end Lookup

/-! ## What the models have, with the index of the model -/

/-- The items of the models in order, each with the index of its model, counted from `index`. -/
def tagged {β : Type} (items : Model → List β) : List Model → Nat → List (Nat × β)
  | [], _ => []
  | m :: models, index => (items m).map (Prod.mk index) ++ tagged items models (index + 1)

theorem mem_tagged {β : Type} {items : Model → List β} {i : Nat} {item : β} :
    ∀ {models : List Model} {index : Nat}, (i, item) ∈ tagged items models index ↔
      index ≤ i ∧ ∃ m, models[i - index]? = some m ∧ item ∈ items m := by
  intro models
  induction models with
  | nil =>
    intro index
    simp [tagged]
  | cons m models ih =>
    intro index
    rw [tagged, List.mem_append, ih]
    constructor
    · rintro (here | ⟨le, m', entry, member⟩)
      · obtain ⟨item', member, same⟩ := List.mem_map.mp here
        cases same
        exact ⟨Nat.le_refl _, m, by simp, member⟩
      · refine ⟨by omega, m', ?_, member⟩
        rw [show i - index = i - (index + 1) + 1 by omega, List.getElem?_cons_succ]
        exact entry
    · rintro ⟨le, m', entry, member⟩
      by_cases here : i = index
      · subst here
        rw [Nat.sub_self, List.getElem?_cons_zero] at entry
        cases entry
        exact Or.inl (List.mem_map.mpr ⟨item, member, rfl⟩)
      · refine Or.inr ⟨by omega, m', ?_, member⟩
        rwa [show i - index = i - (index + 1) + 1 by omega, List.getElem?_cons_succ] at entry

theorem mem_tagged_zero {β : Type} {items : Model → List β} {models : List Model} {i : Nat}
    {item : β} : (i, item) ∈ tagged items models 0 ↔
      ∃ m, models[i]? = some m ∧ item ∈ items m := by
  rw [mem_tagged]
  simp

/-- The indices do not decrease. -/
theorem tagged_sorted {β : Type} (items : Model → List β) :
    ∀ (models : List Model) (index : Nat),
      (tagged items models index).Pairwise (fun a b => a.1 ≤ b.1) := by
  intro models
  induction models with
  | nil =>
    intro index
    exact List.Pairwise.nil
  | cons m models ih =>
    intro index
    refine List.pairwise_append.mpr ⟨?_, ih (index + 1), ?_⟩
    · rw [List.pairwise_map]
      exact List.pairwise_of_forall (fun _ _ => Nat.le_refl _)
    · rintro ⟨i, a⟩ memberA ⟨j, b⟩ memberB
      obtain ⟨_, -, same⟩ := List.mem_map.mp memberA
      cases same
      have later := (mem_tagged.mp memberB).1
      simp only
      omega

/-- The items with index `i` are those of model `i`. -/
theorem filter_tagged {β : Type} {items : Model → List β} {i : Nat} {m : Model} :
    ∀ {models : List Model} {index : Nat}, index ≤ i → models[i - index]? = some m →
      (tagged items models index).filter (fun entry => entry.1 = i) =
        (items m).map (Prod.mk i) := by
  intro models
  induction models with
  | nil =>
    intro index _ entry
    simp at entry
  | cons m' models ih =>
    intro index le entry
    rw [tagged, List.filter_append]
    by_cases here : i = index
    · subst here
      rw [Nat.sub_self, List.getElem?_cons_zero] at entry
      cases entry
      have own : ((items m).map (Prod.mk i)).filter (fun entry => entry.1 = i) =
          (items m).map (Prod.mk i) := by
        rw [List.filter_eq_self]
        intro entry member
        obtain ⟨item, -, rfl⟩ := List.mem_map.mp member
        simp
      have others : (tagged items models (i + 1)).filter (fun entry => entry.1 = i) = [] := by
        rw [List.filter_eq_nil_iff]
        rintro ⟨j, item⟩ member
        have later := (mem_tagged.mp member).1
        simp only [decide_eq_true_eq]
        omega
      rw [own, others, List.append_nil]
    · have own : ((items m').map (Prod.mk index)).filter (fun entry => entry.1 = i) = [] := by
        rw [List.filter_eq_nil_iff]
        intro entry member
        obtain ⟨item, -, rfl⟩ := List.mem_map.mp member
        simpa using fun same => here same.symm
      rw [show i - index = i - (index + 1) + 1 by omega, List.getElem?_cons_succ] at entry
      rw [own, List.nil_append, ih (by omega) entry]

/-! ## Writing sections -/

/-- Reduction to the range of `uint32_t`. -/
def u32 (value : Nat) : Nat := value % 2 ^ 32

theorem u32_of_lt {value : Nat} (lt : value < 2 ^ 32) : u32 value = value := Nat.mod_eq_of_lt lt

/-- The loops that write sections keep a running `uint32_t` offset, the sections of the new
    flatbuffer and the new binary part. -/
structure SectionWriter where
  offset : Nat
  sectionVec : List Section
  buf : List UInt8
  deriving DecidableEq, Repr

namespace SectionWriter

def new : SectionWriter := ⟨0, [], []⟩

/-- `CreateSectionDirect` at the running offset, and the bytes appended. -/
def add (w : SectionWriter) (s : Section) (bytes : List UInt8) : SectionWriter where
  offset := u32 (w.offset + bytes.length)
  sectionVec := w.sectionVec ++ [{ s with offset := w.offset }]
  buf := w.buf ++ bytes

/-- The sections written for a list of sections with their bytes. -/
def laidOut (entries : List (Section × List UInt8)) : List Section :=
  entries.mapIdx fun k entry => { entry.1 with
    offset := u32 (position (entries.map Prod.snd) k) }

def addAll (entries : List (Section × List UInt8)) : SectionWriter :=
  entries.foldl (fun w entry => w.add entry.1 entry.2) new

theorem addAll_concat (entries : List (Section × List UInt8)) (entry : Section × List UInt8) :
    addAll (entries ++ [entry]) = (addAll entries).add entry.1 entry.2 := by
  simp [addAll]

/-- Every section is written where its bytes go, as far as 32 bits say. -/
theorem addAll_eq (entries : List (Section × List UInt8)) :
    addAll entries = ⟨u32 (entries.map Prod.snd).flatten.length, laidOut entries,
      (entries.map Prod.snd).flatten⟩ := by
  induction entries using List.reverseRecOn with
  | nil => rfl
  | append_singleton entries entry ih =>
    rw [addAll_concat, ih]
    unfold add
    congr 1
    · simp [u32]
    · unfold laidOut
      have length : (entries.map Prod.snd).length = entries.length := List.length_map _
      rw [List.mapIdx_concat, List.map_append, ← length]
      congr 1
      · apply List.ext_getElem?
        intro k
        rw [List.getElem?_mapIdx, List.getElem?_mapIdx]
        cases found : entries[k]? with
        | none => rfl
        | some e =>
          have lt : k < entries.length := (List.getElem?_eq_some_iff.mp found).1
          simp only [Option.map_some]
          rw [position_append_left (by simpa using Nat.le_of_lt lt)]
      · rw [position_append_left (Nat.le_refl _), position_length]
    · simp

end SectionWriter

end CviRuntime.Tool
