import CviRuntime.Tool.Model

/-!
# Merging models (`Model::merge`, `tool/cvimodel_tool.cpp:599-915`)

The models keep their programs; the TPU routines of model `i` and the buffers they name get the
suffix `_i`. Of the weights one is kept. Before that the weights are sorted by size and each is
compared, by MD5, with the beginning of the next.
-/

namespace CviRuntime.Tool

open CviRuntime.Runtime CviRuntime.Memory CviRuntime.Packed

/-! ## Weight table and programs -/

/-- An entry of `weight_tensors` is the name, the offset and the size of a weight. -/
abbrev WeightKey : Type := String × Int × Nat

def Weight.key (w : Weight) : WeightKey := (w.name, w.offset, w.size)

/-- The loops of `Model::cloneWeightMap` (`cvimodel_tool.cpp:599-626`) over the entries of all
    models: an entry whose key is in `weightTensors` is left out; the shape of the others is
    dereferenced. -/
def cloneWeights (weightTensors : List WeightKey) : List Weight → Option (List Weight)
  | [] => some []
  | w :: rest =>
    if w.key ∈ weightTensors then cloneWeights weightTensors rest
    else
      match w.shape with
      | none => none
      | some _ => (cloneWeights (weightTensors ++ [w.key]) rest).map (w :: ·)

def cloneWeightMap (models : List Model) : Option (List Weight) :=
  cloneWeights [] (models.flatMap fun m => m.weightMap)

/-- `new_name << name << "_" << index`. -/
def newName (name : String) (index : Nat) : String := name ++ "_" ++ toString index

/-- `std::map::emplace`: an entry that is there stays. -/
def emplace (map : List (String × String)) (name value : String) : List (String × String) :=
  if name ∈ map.map Prod.fst then map else map ++ [(name, value)]

/-- `map[name]`, which is empty for an absent key. -/
def lookupName (map : List (String × String)) (name : String) : String :=
  (map.lookup name).getD ""

/-- A routine renamed by `Model::cloneRoutines` (`cvimodel_tool.cpp:674-728`). -/
def cloneRoutine (index : Nat) (r : Routine) : Option Routine :=
  match r.body with
  | .cpu cpu => some ⟨r.inTensors, r.outTensors, .cpu cpu⟩
  | .tpu tpu =>
    match tpu.cmdbufSection, tpu.dmabufSection with
    | some name, _ => some ⟨r.inTensors, r.outTensors, .tpu ⟨some (newName name index), none⟩⟩
    | none, some name =>
      some ⟨r.inTensors, r.outTensors, .tpu ⟨none, some (newName name index)⟩⟩
    | none, none => none

/-- `routine_name_map` after the routines. -/
def routineNameMap (index : Nat) (routines : List Routine) : List (String × String) :=
  (routines.filterMap Routine.sectionName).foldl
    (fun map name => emplace map name (newName name index)) []

/-- The body of the loop of `Model::clonePrograms` (`cvimodel_tool.cpp:730-766`). -/
def cloneProgram (index : Nat) (p : Program) : Option Program :=
  (p.routines.mapM (cloneRoutine index)).map fun routines => {
    batchNum := p.batchNum
    neuronSize := p.neuronSize
    inputTensors := p.inputTensors
    outputTensors := p.outputTensors
    tensorMap := cloneTensorMap p.tensorMap
    routines := routines
    sharedGmem := p.sharedGmem
    privateGmem := p.privateGmem }

/-- The programs of all models, with the index of the model. -/
def allPrograms (models : List Model) : List (Nat × Program) :=
  tagged (fun m => m.programs) models 0

/-- `Model::clonePrograms`. -/
def clonePrograms (models : List Model) : Option (List Program) :=
  (allPrograms models).mapM fun entry => cloneProgram entry.1 entry.2

/-- `routine_name_maps`: one map for each program. -/
def routineNameMaps (models : List Model) : List (List (String × String)) :=
  (allPrograms models).map fun entry => routineNameMap entry.1 entry.2.routines

/-! ## The weights -/

/-- `weight_section_t` (`cvimodel_tool.cpp:768-772`). -/
structure WeightSection where
  id : Nat
  sec : Section
  size : Nat
  deriving DecidableEq, Repr

/-- `std::sort` by size: sections of one size come in any order. -/
structure SortBySize where
  sort : List WeightSection → List WeightSection
  perm : ∀ l, (sort l).Perm l
  sorted : ∀ l, (sort l).Pairwise (fun a b => a.size ≤ b.size)

/-- MD5 in hexadecimal digits, `LZ4_decompress_safe` with the check of the size it returns, and
    `std::sort`. -/
structure MergeEnv where
  md5 : List UInt8 → String
  decompress : List UInt8 → Nat → Option (List UInt8)
  sort : SortBySize

/-- The sections of all models, with the index of the model. -/
def allSections (models : List Model) : List (Nat × Section) :=
  tagged (fun m => m.sections) models 0

/-- `Model::calcSectionMD5` (`cvimodel_tool.cpp:265-287`) of the first `size` bytes, read in
    blocks of 1024 bytes; a size from `2^31` on is a negative `int`. A compressed section is
    decompressed whole; the MD5 of one that fails to is the empty string. -/
def calcSectionMD5 (env : MergeEnv) (m : Model) (s : Section) (size : Nat) : Option String :=
  if s.compress then
    match env.decompress (m.sectionBytes s) s.decompressedSize with
    | none => some ""
    | some out => some (env.md5 out)
  else if 2 ^ 31 ≤ size then none
  else (streamRead m.binary s.offset size).map env.md5

/-- `weight_sections` before it is sorted (`cvimodel_tool.cpp:784-799`). -/
def weightSections (models : List Model) : List WeightSection :=
  ((allSections models).filter fun entry => entry.2.type = .weight).map fun entry =>
    ⟨entry.1, entry.2, entry.2.size⟩

/-- `bit_buf_type == 0x11` (`cvimodel_tool.cpp:794-804`). -/
def mixedBuffers (models : List Model) : Bool :=
  (allSections models).any (fun entry => entry.2.type = .cmdbuf) &&
    (allSections models).any (fun entry => entry.2.type = .dmabuf)

/-- The loop that moves every size one place on (`cvimodel_tool.cpp:818-820`). -/
def shiftSizes : List Nat → List Nat
  | [] => []
  | size :: rest => size :: (size :: rest).dropLast

/-- The comparison (`cvimodel_tool.cpp:824-841`): `weightMd5` is the hash of the last weight,
    empty before the first. A difference ends the program. -/
def compareLoop (env : MergeEnv) (models : List Model) :
    String → List (WeightSection × Nat) → Option Unit
  | _, [] => some ()
  | weightMd5, (ws, compareSize) :: rest => do
    let m ← models[ws.id]?
    let md5 ← calcSectionMD5 env m ws.sec compareSize
    if weightMd5 = "" then compareLoop env models md5 rest
    else if weightMd5 ≠ md5 then none
    else do
      let weightMd5 ← calcSectionMD5 env m ws.sec ws.sec.size
      compareLoop env models weightMd5 rest

/-- The weights in the order of comparison. -/
def sortedWeights (env : MergeEnv) (models : List Model) : List WeightSection :=
  env.sort.sort (weightSections models)

/-- From the sort to the message that the comparison passed: the `candidate_index`. Without a
    weight the index is read outside the vector. -/
def compareWeights (env : MergeEnv) (models : List Model) : Option Nat := do
  let weights := sortedWeights env models
  let last ← weights.getLast?
  compareLoop env models "" (weights.zip (shiftSizes (weights.map fun ws => ws.size)))
  return last.id

/-- The first half of `Model::cloneSections` (`cvimodel_tool.cpp:774-843`). -/
def selectWeight (env : MergeEnv) (models : List Model) (maps : List (List (String × String))) :
    Option Nat :=
  if models.length ≠ maps.length then none
  else if mixedBuffers models then none
  else compareWeights env models

/-! ## The sections -/

/-- The sections that are copied: of the weights only those of the candidate. -/
def isKept (candidate : Nat) (entry : Nat × Section) : Bool :=
  entry.2.type ≠ .weight || entry.1 = candidate

/-- The name a section gets; an empty one fails an assertion. -/
def sectionName (maps : List (List (String × String))) (i : Nat) (s : Section) : Option String :=
  if isBuffer s then
    let name := lookupName (maps.getD i []) s.name
    if name = "" then none else some name
  else some s.name

/-- The second half of `Model::cloneSections` (`cvimodel_tool.cpp:845-874`). -/
def copyLoop (env : MergeEnv) (models : List Model) (maps : List (List (String × String)))
    (candidate : Nat) : List (Nat × Section) → SectionWriter → Option SectionWriter
  | [], w => some w
  | (i, s) :: rest, w => do
    let m ← models[i]?
    let _ ← calcSectionMD5 env m s s.size
    if isKept candidate (i, s) then do
      let name ← sectionName maps i s
      copyLoop env models maps candidate rest (w.add { s with name := name } (m.sectionBytes s))
    else copyLoop env models maps candidate rest w

/-- `Model::cloneSections`: the sections and the new binary part. -/
def cloneSections (env : MergeEnv) (models : List Model) (maps : List (List (String × String))) :
    Option (List Section × List UInt8) := do
  let candidate ← selectWeight env models maps
  let w ← copyLoop env models maps candidate (allSections models) .new
  return (w.sectionVec, w.buf)

/-- `Model::merge`. -/
def merge (env : MergeEnv) (models : List Model) : Option ModelData := do
  let weightMap ← cloneWeightMap models
  let programs ← clonePrograms models
  let (sections, binary) ← cloneSections env models (routineNameMaps models)
  return ⟨programs, weightMap, sections, binary⟩

end CviRuntime.Tool
