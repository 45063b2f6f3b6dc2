import CviRuntime.Tool.Model

/-!
# Rewriting a model (`Model::compress_inst` and `Model::encrypt`, `tool/cvimodel_tool.cpp`)

Both put the sections they replace in files of a new directory and build the sections again:
the replaced ones from the files, the others from the model. What they keep apart are three
places: where a section is (its offset), where the others are read (the sum of the sizes so
far) and where it goes (the sum of the new sizes). The tool is built with
`ENABLE_COMPRESS_CMDBUF`.
-/

namespace CviRuntime.Tool

open CviRuntime.Runtime CviRuntime.Memory CviRuntime.Packed

/-- `LZ4_compress_default` into a buffer of `LZ4_compressBound` bytes, which fails with a result
    below one, and `LZ4_decompress_safe` with the check of the size it returns. -/
structure Lz4 where
  compress : List UInt8 → Option (List UInt8)
  decompress : List UInt8 → Nat → Option (List UInt8)
  undoes : ∀ bytes out, compress bytes = some out → decompress out bytes.length = some bytes

/-- What `encrypt` leaves to the processes it starts: the files it stored, the files of the
    command buffers and that of the last weight. Files are named by their section. -/
structure EncryptJob where
  stored : List (String × List UInt8)
  cmdbufNames : List String
  weightName : Option String
  deriving DecidableEq, Repr

/-- LZ4, whether a file can be created for a name in the new directory, and the `.enc` files
    that the processes leave. -/
structure RewriteEnv where
  lz4 : Lz4
  creates : String → Bool
  encrypter : EncryptJob → List (String × List UInt8)

/-- A file written for a section; nothing says that it could not be created. -/
def RewriteEnv.store (env : RewriteEnv) (files : List (String × List UInt8)) (name : String)
    (bytes : List UInt8) : List (String × List UInt8) :=
  if env.creates name then assign files name bytes else files

/-- `if (s->name()->str() == name) { …; break; }` over the sections. -/
def firstNamed (sections : List Section) (name : String) : Option Section :=
  sections.find? fun s => s.name = name

/-! ## The tables -/

/-- `Model::rebuildWeightMap` (`cvimodel_tool.cpp:917-931`); the shapes are dereferenced. -/
def rebuildWeightMap (m : Model) : Option (List Weight) :=
  m.weightMap.mapM fun w => w.shape.map fun _ => w

/-- `Model::rebuildPrograms` (`cvimodel_tool.cpp:933-954`); routines are not renamed. -/
def rebuildPrograms (m : Model) : List Program :=
  m.programs.map fun p => { p with tensorMap := cloneTensorMap p.tensorMap }

/-! ## Compression -/

/-- `Model::compressSectionToFile` (`cvimodel_tool.cpp:1146-1191`): the bytes of the file. A
    section that is compressed already or does not shrink, as an `int`, ends the program. -/
def compressSectionToFile (lz4 : Lz4) (m : Model) (s : Section) : Option (List UInt8) := do
  let inBuf ← streamRead m.binary s.offset s.size
  if s.compress then none
  else do
    let out ← lz4.compress inBuf
    if 2 ^ 31 ≤ s.size ∨ s.size < out.length then none else some out

/-- The files and `cmdbuf_compr_info`. -/
structure Compressed where
  files : List (String × List UInt8)
  comprInfo : List (String × Nat)
  deriving DecidableEq, Repr

/-- The loops of `Model::compress_inst` over the routines (`cvimodel_tool.cpp:1262-1290`). -/
def compressLoop (env : RewriteEnv) (m : Model) : List Routine → Compressed → Option Compressed
  | [], c => some c
  | r :: rest, c =>
    match r.body with
    | .cpu _ => compressLoop env m rest c
    | .tpu tpu =>
      match tpu.sectionName with
      | none => none
      | some name =>
        match firstNamed m.sections name with
        | none => compressLoop env m rest c
        | some s => do
          let out ← compressSectionToFile env.lz4 m s
          compressLoop env m rest ⟨env.store c.files name out, assign c.comprInfo name s.size⟩

/-- The loop of `Model::rebuildSections` (`cvimodel_tool.cpp:1193-1245`). A buffer comes from its
    file, which is removed; the size of a missing one is `SIZE_MAX`, which `new` refuses. The
    others are read at `offset`, the sum of the sizes so far. -/
def rebuildCompressed (m : Model) (comprInfo : List (String × Nat)) :
    List Section → Nat → List (String × List UInt8) → SectionWriter → Option SectionWriter
  | [], _, _, w => some w
  | s :: rest, offset, files, w =>
    if isBuffer s then do
      let buf ← files.lookup s.name
      rebuildCompressed m comprInfo rest (u32 (offset + s.size))
        (files.filter fun file => file.1 ≠ s.name)
        (w.add { s with
          size := u32 buf.length
          encrypt := false
          compress := true
          decompressedSize := u32 ((comprInfo.lookup s.name).getD 0) } buf)
    else do
      let buf ← streamRead m.binary offset s.size
      rebuildCompressed m comprInfo rest (u32 (offset + s.size)) files
        (w.add { s with encrypt := false, compress := false, decompressedSize := 0 } buf)

/-- `Model::compress_inst`. -/
def compressInst (env : RewriteEnv) (m : Model) : Option ModelData := do
  let c ← compressLoop env m (m.programs.flatMap fun p => p.routines) ⟨[], []⟩
  let weightMap ← rebuildWeightMap m
  let w ← rebuildCompressed m c.comprInfo m.sections 0 c.files .new
  return ⟨rebuildPrograms m, weightMap, w.sectionVec, w.buf⟩

/-! ## Encryption -/

/-- The loop that copies a section in blocks of 1024 bytes (`cvimodel_tool.cpp:251-258`). -/
def storeBlocks (m : Model) (offset size : Nat) : Option (List UInt8) := do
  let len := min size 1024
  let buf ← streamRead m.binary offset len
  if size - len = 0 then some buf
  else do
    let rest ← storeBlocks m (u32 (offset + len)) (size - len)
    some (buf ++ rest)
termination_by size
decreasing_by omega

/-- `Model::storeSectionToFile` (`cvimodel_tool.cpp:238-262`): the bytes of the file. It stays
    empty when a compressed section cannot be decompressed. -/
def storeSectionToFile (lz4 : Lz4) (m : Model) (s : Section) : Option (List UInt8) :=
  if s.compress then do
    let inBuf ← streamRead m.binary s.offset s.size
    some ((lz4.decompress inBuf s.decompressedSize).getD [])
  else storeBlocks m s.offset s.size

/-- The loops of `Model::encrypt` over the routines (`cvimodel_tool.cpp:1023-1052`); a routine
    with a DMA buffer only fails an assertion. -/
def storeCmdbufs (env : RewriteEnv) (m : Model) : List Routine → EncryptJob → Option EncryptJob
  | [], job => some job
  | r :: rest, job =>
    match r.body with
    | .cpu _ => storeCmdbufs env m rest job
    | .tpu tpu =>
      match tpu.cmdbufSection with
      | none => none
      | some name =>
        match firstNamed m.sections name with
        | none => storeCmdbufs env m rest job
        | some s => do
          let bytes ← storeSectionToFile env.lz4 m s
          storeCmdbufs env m rest { job with
            stored := env.store job.stored name bytes
            cmdbufNames := job.cmdbufNames ++ [name] }

/-- The loop over the weights (`cvimodel_tool.cpp:1054-1059`). -/
def storeWeights (env : RewriteEnv) (m : Model) : List Section → EncryptJob → Option EncryptJob
  | [], job => some job
  | s :: rest, job =>
    if s.type = .weight then do
      let bytes ← storeSectionToFile env.lz4 m s
      storeWeights env m rest { job with
        stored := env.store job.stored s.name bytes
        weightName := some s.name }
    else storeWeights env m rest job

/-- `SectionType_WEIGHT`, `SectionType_CMDBUF` or `SectionType_DMABUF`. -/
def isEncrypted (s : Section) : Bool := s.type = .weight || isBuffer s

/-- The loop of `Model::rebuildSections` (`cvimodel_tool.cpp:956-1005`). -/
def rebuildEncrypted (m : Model) (encFiles : List (String × List UInt8)) :
    List Section → Nat → SectionWriter → Option SectionWriter
  | [], _, w => some w
  | s :: rest, offset, w =>
    if isEncrypted s then do
      let buf ← encFiles.lookup s.name
      rebuildEncrypted m encFiles rest (u32 (offset + s.size))
        (w.add { s with
          size := u32 buf.length
          encrypt := true
          compress := false
          decompressedSize := 0 } buf)
    else do
      let buf ← streamRead m.binary offset s.size
      rebuildEncrypted m encFiles rest (u32 (offset + s.size))
        (w.add { s with encrypt := false, compress := false, decompressedSize := 0 } buf)

/-- What `Model::encrypt` hands to the processes. -/
def encryptJob (env : RewriteEnv) (m : Model) : Option EncryptJob := do
  let job ← storeCmdbufs env m (m.programs.flatMap fun p => p.routines) ⟨[], [], none⟩
  storeWeights env m m.sections job

/-- `Model::encrypt`. -/
def encrypt (env : RewriteEnv) (m : Model) : Option ModelData := do
  let job ← encryptJob env m
  let weightMap ← rebuildWeightMap m
  let w ← rebuildEncrypted m (env.encrypter job) m.sections 0 .new
  return ⟨rebuildPrograms m, weightMap, w.sectionVec, w.buf⟩

end CviRuntime.Tool
