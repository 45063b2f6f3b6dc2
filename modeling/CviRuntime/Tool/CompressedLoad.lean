import CviRuntime.Lz4Block.RoundTrip
import CviRuntime.Memory.LoadAlike
import CviRuntime.Tool.Rewrite

/-!
# Loading a compressed model

The action `compress` of the tool replaces the buffers of a model by LZ4 blocks, the runtime
decompresses them when it loads the file. Both use the same codec, in builds of their own.
-/

namespace CviRuntime.Tool

open CviRuntime.Runtime CviRuntime.Memory CviRuntime.Packed CviRuntime.ByteMem

/-! ## The codec -/

/-- `LZ4_compress_default` into `LZ4_compressBound` bytes; a result below one is a failure
    (`cvimodel_tool.cpp:1167-1176`). -/
def lz4Compress (bytes : List UInt8) : Option (List UInt8) := do
  let (rc, out) ←
    Lz4Block.compressDefault bytes ⟨Lz4Block.compressBound bytes.length, fun _ => 0⟩
  if rc < 1 then none else some (readBytes out.mem 0 rc.toNat)

/-- `LZ4_decompress_safe` into a buffer of `size` bytes and the check of its result
    (`model.cpp:269-273,340-344`, `cvimodel_tool.cpp:227-232`). Both sizes are passed as `int`s. -/
def lz4Decompress (fastDecLoop : Bool) (initial : Nat → UInt8) (bytes : List UInt8) (size : Nat) :
    Option (List UInt8) :=
  if 2 ^ 31 ≤ bytes.length ∨ 2 ^ 31 ≤ size then none
  else do
    let (rc, out) ← Lz4Block.decompressSafe fastDecLoop bytes ⟨size, initial⟩
    if rc = size then some (readBytes out.mem 0 size) else none

section Codec

variable {bytes out whole : List UInt8} {size : Nat}

/-- Whatever the build and whatever was in the buffer. -/
theorem lz4Decompress_eq (fastDecLoop : Bool) (initial : Nat → UInt8) (bytes : List UInt8)
    (size : Nat) : lz4Decompress fastDecLoop initial bytes size =
      if 2 ^ 31 ≤ bytes.length ∨ 2 ^ 31 ≤ size then none
      else (Lz4Block.decodeBlock size bytes).filter fun whole => whole.length = size := by
  unfold lz4Decompress
  by_cases large : 2 ^ 31 ≤ bytes.length ∨ 2 ^ 31 ≤ size
  · rw [if_pos large, if_pos large]
  · rw [if_neg large, if_neg large]
    have returns := Lz4Block.decompressSafe_returns fastDecLoop bytes ⟨size, initial⟩
    cases plain : Lz4Block.decodeBlock size bytes with
    | none =>
      rw [plain] at returns
      obtain ⟨rc, out, run, -, -, negative⟩ := returns
      have wrong : ¬rc = size := by omega
      rw [run]
      exact if_neg wrong
    | some whole =>
      rw [plain] at returns
      obtain ⟨out, run, -, contents, -⟩ := returns
      rw [run]
      by_cases full : whole.length = size
      · have fits : ((whole.length : Nat) : Int) = size := by omega
        rw [Option.filter_some, if_pos (decide_eq_true full)]
        refine (if_pos fits).trans ?_
        rw [← full, contents]
      · have wrong : ¬((whole.length : Nat) : Int) = size := by omega
        rw [Option.filter_some, if_neg (by simpa using full)]
        exact if_neg wrong

/-- What the tool writes. -/
theorem lz4Compress_spec (done : lz4Compress bytes = some out) :
    0 < out.length ∧ out.length < 2 ^ 31 ∧ bytes.length < 2 ^ 31 ∧
      Lz4Block.decodeBlock bytes.length out = some bytes := by
  obtain ⟨⟨rc, buffer⟩, compressed, kept⟩ := Option.bind_eq_some_iff.mp done
  dsimp only at kept
  by_cases failed : rc < 1
  · rw [if_pos failed] at kept
    cases kept
  · rw [if_neg failed] at kept
    cases kept
    have block := Lz4Block.decodeBlock_of_compressed compressed (by omega) (Nat.le_refl _)
    obtain ⟨rc', buffer', run, -, ⟨zero, -⟩ | ⟨sequences, last, value, fits, -, -, -, short⟩⟩ :=
      Lz4Block.compressFast_spec bytes ⟨Lz4Block.compressBound bytes.length, fun _ => 0⟩ 1
    · cases compressed.symm.trans run
      omega
    · cases compressed.symm.trans run
      have bound : Lz4Block.compressBound bytes.length = bytes.length + bytes.length / 255 + 16 :=
        if_neg (Nat.not_lt.mpr short)
      rw [bound] at fits
      replace fits : _ ≤ bytes.length + bytes.length / 255 + 16 := fits
      rw [length_readBytes]
      exact ⟨by omega, by omega, by omega, block⟩

theorem lz4Decompress_lz4Compress (fastDecLoop : Bool) (initial : Nat → UInt8)
    (done : lz4Compress bytes = some out) :
    lz4Decompress fastDecLoop initial out bytes.length = some bytes := by
  obtain ⟨-, small, short, block⟩ := lz4Compress_spec done
  rw [lz4Decompress_eq, if_neg (by omega), block, Option.filter_some, if_pos (by simp)]

end Codec

/-- The codec of the tool; the buffer is a vector of zeros. -/
def codec (fastDecLoop : Bool) : Lz4 where
  compress := lz4Compress
  decompress := lz4Decompress fastDecLoop fun _ => 0
  undoes := fun _ _ done => lz4Decompress_lz4Compress fastDecLoop _ done

/-! ## The compressed file -/

section File

variable {env : RewriteEnv} {lz4 : Lz4} {m : Model} {out : ModelData} {k : Nat} {s t : Section}

/-- The loop gets past a buffer only if its block is no longer than the first section of its
    name. -/
theorem rebuildCompressed_fits {c : Compressed} (right : FilesRight lz4 m c) :
    ∀ {rest : List Section} {offset : Nat} {files : List (String × List UInt8)}
      {w w' : SectionWriter},
      (∀ name out, files.lookup name = some out → c.files.lookup name = some out) →
      rebuildCompressed m c.comprInfo rest offset files w = some w' →
      ∀ s ∈ rest, isBuffer s = true → ∃ first, firstNamed m.sections s.name = some first ∧
        (compressedAs lz4 m s).length ≤ first.size := by
  intro rest
  induction rest with
  | nil =>
    intro offset files w w' _ _ s member
    cases member
  | cons s rest ih =>
    intro offset files w w' sub done
    unfold rebuildCompressed at done
    by_cases buffer : isBuffer s = true
    · rw [if_pos buffer] at done
      obtain ⟨buf, file, done⟩ := Option.bind_eq_some_iff.mp done
      obtain ⟨first, found, packed, -⟩ := right s.name buf (sub s.name buf file)
      obtain ⟨compressed, fits⟩ := compressSectionToFile_eq_some packed
      have isBuf : compressedAs lz4 m s = buf := by
        rw [compressedAs, found, Option.bind_some, compressed, Option.getD_some]
      have rest := ih (fun name out found => sub name out (by
        rw [lookup_filter_ne] at found
        split at found
        · cases found
        · exact found)) done
      exact List.forall_mem_cons.mpr ⟨fun _ => ⟨first, found, isBuf ▸ fits⟩, rest⟩
    · rw [if_neg buffer] at done
      obtain ⟨buf, -, done⟩ := Option.bind_eq_some_iff.mp done
      exact List.forall_mem_cons.mpr ⟨fun isBuf => absurd isBuf buffer, ih sub done⟩

theorem compressInst_fits (done : compressInst env m = some out) (member : s ∈ m.sections)
    (buffer : isBuffer s = true) : ∃ first, firstNamed m.sections s.name = some first ∧
      (compressedAs env.lz4 m s).length ≤ first.size := by
  simp only [compressInst, Option.bind_eq_bind, Option.bind_eq_some_iff] at done
  obtain ⟨c, stored, weightMap, -, w, rebuilt, -⟩ := done
  have right : FilesRight env.lz4 m c :=
    compressLoop_right (fun name out found => by cases found) stored
  exact rebuildCompressed_fits right (fun _ _ found => found) rebuilt s member buffer

/-- The sections of the compressed file lie in its binary part. -/
theorem compressInst_inside (done : compressInst env m = some out)
    (atK : m.sections[k]? = some s) (atK' : out.sections[k]? = some t) :
    t.offset + t.size ≤ out.binary.length := by
  obtain ⟨written, sized, -⟩ := compressInst_written done
  have header := written.header atK atK'
  have size := sized _ (entry_mem_running atK)
  have inside := position_add_length_le (written.piece atK)
  have offset : t.offset = u32 (position (compressPieces env.lz4 m) k) := by rw [header]
  have length : t.size =
      (compressEntry env.lz4 m (u32 (runningSum m.sections k)) s).2.length := by
    rw [header]
    exact size
  have wraps : u32 (position (compressPieces env.lz4 m) k) ≤
      position (compressPieces env.lz4 m) k := Nat.mod_le _ _
  rw [written.binary, offset, length]
  omega

/-- A block is not empty, nor is what it was made from. -/
theorem buffer_nonempty {fastDecLoop : Bool} (real : env.lz4 = codec fastDecLoop)
    (done : compressInst env m = some out) (atK : m.sections[k]? = some s)
    (atK' : out.sections[k]? = some t) (buffer : isBuffer s = true) :
    0 < t.size ∧ 0 < t.decompressedSize := by
  obtain ⟨written, -, packed⟩ := compressInst_written done
  have member := List.mem_of_getElem? atK
  obtain ⟨first, found, compressed⟩ := packed s member buffer
  obtain ⟨first', found', fits⟩ := compressInst_fits done member buffer
  cases found.symm.trans found'
  rw [real] at compressed
  have positive := (lz4Compress_spec compressed).1
  rw [← real] at positive
  have header := written.header atK atK'
  rw [compressEntry, if_pos buffer, found] at header
  have size : t.size = (compressedAs env.lz4 m s).length := by rw [header]
  have decompressed : t.decompressedSize = first.size := by rw [header]; rfl
  omega

end File

theorem length_running {entry : Nat → Section → Section × List UInt8} :
    ∀ {sections : List Section} {offset : Nat},
      (running entry offset sections).length = sections.length := by
  intro sections
  induction sections with
  | nil =>
    intro offset
    rfl
  | cons s rest ih =>
    intro offset
    rw [running, List.length_cons, List.length_cons, ih]

/-! ## Loading it -/

/-- What is read at a section behind the flatbuffer. -/
theorem streamRead_behind (before : List UInt8) {binary : List UInt8} {offset size : Nat}
    (inside : offset + size ≤ binary.length) :
    streamRead (before ++ binary) (offset + before.length) size =
      some (slice binary offset size) := by
  rw [Nat.add_comm offset, ← slice_append_right (l := before)]
  apply streamRead_eq_some.mpr
  rw [List.length_append]
  exact ⟨by omega, rfl⟩

/-- The sections of a file; `outcome` says for each how the calls made for it end. -/
def jobs (outcome : Nat → Memory.Outcome) (sections : List Section) : List Job :=
  sections.mapIdx fun k s => ⟨s, outcome k⟩

section Load

variable {b : Build} {fastDecLoop fastDecLoop' : Bool} {initial : Nat → UInt8}
  {env : RewriteEnv} {m : Model} {out : ModelData}

/-- Section `k` in both files. -/
theorem sameLoad_compressed (real : env.lz4 = codec fastDecLoop)
    (runtime : b.lz4 = lz4Decompress fastDecLoop' initial) (able : b.compressCmdbuf = true)
    (done : compressInst env m = some out) (ok : CompressOk env.lz4 m) {k : Nat} {s t : Section}
    {outcome : Memory.Outcome} (plain : s.encrypt = false ∧ s.compress = false)
    (room : outcome.tmpAlloc = true) (atK : m.sections[k]? = some s)
    (atK' : out.sections[k]? = some t) (before before' : List UInt8) :
    Job.SameLoad b (before ++ m.binary) (before' ++ out.binary) before.length before'.length
      ⟨s, outcome⟩ ⟨t, outcome⟩ := by
  obtain ⟨written, sized, -⟩ := compressInst_written done
  have keeps := (compressKeeps_iff done).mpr ok
  have header := written.header atK atK'
  have flag := compress_eq_isBuffer written atK atK'
  have member := List.mem_of_getElem? atK
  have type : t.type = s.type := by
    rw [header, compressEntry]
    split <;> rfl
  have name : t.name = s.name := by
    rw [header, compressEntry]
    split <;> rfl
  have encrypt : t.encrypt = false := by
    rw [header, compressEntry]
    split <;> rfl
  have unsqueezed : (⟨s, outcome⟩ : Job).squeezed = false := by simp [Job.squeezed, plain.2]
  have supported : ∀ job : Job, job.unsupported b = false := by simp [Job.unsupported, able]
  have read : (⟨s, outcome⟩ : Job).Readable b (before ++ m.binary) before.length
      (m.sectionBytes s) := by
    refine ⟨plain.1, supported _, ?_⟩
    rw [Job.decoded, unsqueezed, streamRead_behind before (m.inside s member)]
    rfl
  have bytes := streamRead_behind before' (compressInst_inside done atK atK')
  cases buffer : isBuffer s with
  | false =>
    rw [buffer] at flag
    have unsqueezed' : (⟨t, outcome⟩ : Job).squeezed = false := by simp [Job.squeezed, flag]
    have size : t.size = s.size := by
      rw [header, compressEntry_plain buffer]
    refine ⟨type, name, rfl, by rw [size], room, fun _ => ⟨unsqueezed, unsqueezed'⟩,
      m.sectionBytes s, read, encrypt, supported _, ?_⟩
    rw [Job.decoded, unsqueezed', bytes, ← keeps.plain k s t atK atK' flag]
    rfl
  | true =>
    rw [buffer] at flag
    obtain ⟨some_bytes, some_size⟩ := buffer_nonempty real done atK atK' buffer
    obtain ⟨unpacks, length⟩ := keeps.compressed k s t atK atK' flag
    have size := m.length_sectionBytes member
    have squeezed : (⟨t, outcome⟩ : Job).squeezed = true := by
      simp [Job.squeezed, flag, some_size, encrypt]
    refine ⟨type, name, rfl, ?_, room, ?_, m.sectionBytes s, read, encrypt, supported _, ?_⟩
    · show t.size = 0 ↔ s.size = 0
      omega
    · intro weight
      have none : isBuffer s = false := by simp [isBuffer, show s.type = .weight from weight]
      rw [none] at buffer
      cases buffer
    · rw [real] at unpacks
      have inflated : b.lz4 (out.sectionBytes t) t.decompressedSize = some (m.sectionBytes s) := by
        rw [runtime, lz4Decompress_eq, ← lz4Decompress_eq fastDecLoop fun _ => 0]
        exact unpacks
      have unpacked : b.decompress (out.sectionBytes t) t.decompressedSize =
          some (m.sectionBytes s) := by
        rw [Build.decompress, inflated, Option.bind_eq_bind, Option.bind_some,
          if_pos length.symm]
      rw [Job.decoded, squeezed, bytes]
      exact unpacked

/-- Loading a compressed model gives the buffers and the weight of the model, for every build of
    the codec, every outcome of the calls of the device and every device. -/
theorem load_compressed (real : env.lz4 = codec fastDecLoop)
    (runtime : b.lz4 = lz4Decompress fastDecLoop' initial) (able : b.compressCmdbuf = true)
    (done : compressInst env m = some out) (ok : CompressOk env.lz4 m)
    (plain : ∀ s ∈ m.sections, s.encrypt = false ∧ s.compress = false)
    (outcome : Nat → Memory.Outcome)
    (room : ∀ k, (outcome k).tmpAlloc = true) (before before' : List UInt8)
    (device device' : Device) :
    ∃ rc n rc' n',
      ModelMem.extractSections b (before ++ m.binary) before.length (.new device)
        (jobs outcome m.sections) = some (rc, n) ∧
      ModelMem.extractSections b (before' ++ out.binary) before'.length (.new device')
        (jobs outcome out.sections) = some (rc', n') ∧
      (rc' = cviRcSuccess ↔ rc = cviRcSuccess) ∧
      (∀ name, n'.contentAt name = n.contentAt name) ∧ n'.weightBytes = n.weightBytes := by
  obtain ⟨written, -⟩ := compressInst_written done
  have length : out.sections.length = m.sections.length := by
    rw [written.sections, SectionWriter.laidOut, List.length_mapIdx]
    exact length_running
  have same : List.Forall₂ (Job.SameLoad b (before ++ m.binary) (before' ++ out.binary)
      before.length before'.length) (jobs outcome m.sections) (jobs outcome out.sections) := by
    apply List.forall₂_of_length_eq_of_get
    · rw [jobs, jobs, List.length_mapIdx, List.length_mapIdx, length]
    · intro k less less'
      simp only [jobs, List.length_mapIdx] at less less'
      simp only [jobs, List.get_eq_getElem, List.getElem_mapIdx]
      exact sameLoad_compressed real runtime able done ok (plain _ (List.getElem_mem less)) (room k)
        (List.getElem?_eq_getElem less) (List.getElem?_eq_getElem less') before before'
  obtain ⟨rc, n, rc', n', loaded, loaded', code, alike⟩ :=
    ModelMem.extractSections_alike same device device'
  exact ⟨rc, n, rc', n', loaded, loaded', code, alike.buffers, alike.weight⟩

/-- The tool with its codec. -/
def codecEnv : RewriteEnv where
  lz4 := codec true
  creates _ := true
  encrypter job := job.stored

/-- A runtime that decompresses without the fast loop. -/
def codecBuild : Build := ⟨true, false, 4096, 1, 4, lz4Decompress false fun _ => 0xA5⟩

theorem gapModel_compressed : ∃ out, compressInst codecEnv (gapModel []) = some out ∧
    out.binary.length ≤ 34 ∧ CompressOk codecEnv.lz4 (gapModel []) := by
  have packs : ((compressInst codecEnv (gapModel [])).map
      fun out => decide (out.binary.length ≤ 34)) = some true := by
    decide +kernel
  obtain ⟨out, done, short⟩ := Option.map_eq_some_iff.mp packs
  have below : position (compressPieces codecEnv.lz4 (gapModel [])) 0 < 2 ^ 32 ∧
      position (compressPieces codecEnv.lz4 (gapModel [])) 1 < 2 ^ 32 := by
    decide +kernel
  refine ⟨out, done, of_decide_eq_true short, ?_, ?_⟩
  · intro k s atK plain
    match k with
    | 0 =>
      cases atK
      cases plain
    | 1 =>
      cases atK
      exact ⟨fun _ => by decide, fun above => absurd below.2 (Nat.not_lt.mpr above)⟩
    | k + 2 => cases atK
  · intro k s first atK buffer found
    match k with
    | 0 =>
      cases atK
      cases found
      exact ⟨fun _ => rfl, fun above => absurd below.1 (Nat.not_lt.mpr above)⟩
    | 1 =>
      cases atK
      cases buffer
    | k + 2 => cases atK

theorem load_compressed_no_gap :
    ∃ out rc n rc' n', compressInst codecEnv (gapModel []) = some out ∧
      ModelMem.extractSections codecBuild ([7] ++ (gapModel []).binary) 1 (.new .new)
        (jobs (fun _ => ⟨true, true, .ok none, .ok 64, true⟩) (gapModel []).sections) =
          some (rc, n) ∧
      ModelMem.extractSections codecBuild ([8, 9] ++ out.binary) 2 (.new .new)
        (jobs (fun _ => ⟨true, true, .ok none, .ok 64, true⟩) out.sections) = some (rc', n') ∧
      (rc' = cviRcSuccess ↔ rc = cviRcSuccess) ∧
      (∀ name, n'.contentAt name = n.contentAt name) ∧ n'.weightBytes = n.weightBytes := by
  obtain ⟨out, done, -, ok⟩ := gapModel_compressed
  have real : codecEnv.lz4 = codec true := rfl
  have runtime : codecBuild.lz4 = lz4Decompress false fun _ => 0xA5 := rfl
  have able : codecBuild.compressCmdbuf = true := rfl
  obtain ⟨rc, n, rc', n', result⟩ := load_compressed real runtime able done ok
    (by simp [gapModel]) (fun _ => ⟨true, true, .ok none, .ok 64, true⟩) (fun _ => rfl) [7] [8, 9]
    .new .new
  exact ⟨out, rc, n, rc', n', done, result⟩

end Load

end CviRuntime.Tool
