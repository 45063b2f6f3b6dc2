import Mathlib.Data.List.Forall2
import CviRuntime.Memory.ParsePromise

/-!
# Files that load alike

Two files give a model the same buffers and the same weight when their sections have, one by one,
the same types, names and outcomes and the same bytes once these are decompressed. Where the
sections lie and which of them are compressed does not matter.
-/

namespace CviRuntime.Memory

open CviRuntime.Runtime

namespace Job

/-- A section that the build can load; its bytes are `bytes`. -/
structure Readable (b : Build) (stream : List UInt8) (binOffset : Nat) (job : Job)
    (bytes : List UInt8) : Prop where
  plain : job.encrypt = false
  supported : job.unsupported b = false
  decoded : job.decoded b stream binOffset = some bytes

/-- The same section in two files. -/
structure SameLoad (b : Build) (stream stream' : List UInt8) (binOffset binOffset' : Nat)
    (job job' : Job) : Prop where
  type : job'.type = job.type
  name : job'.name = job.name
  outcome : job'.toOutcome = job.toOutcome
  empty : job'.size = 0 ↔ job.size = 0
  room : job.tmpAlloc = true
  weight : job.type = .weight → job.squeezed = false ∧ job'.squeezed = false
  readable : ∃ bytes, job.Readable b stream binOffset bytes ∧
    job'.Readable b stream' binOffset' bytes

variable {b : Build} {stream stream' bytes : List UInt8} {binOffset binOffset' : Nat}
  {job job' : Job}

/-- What is read from the file, and what becomes of it. -/
theorem Readable.read (readable : job.Readable b stream binOffset bytes) :
    ∃ raw, streamRead stream (job.offset + binOffset) job.size = some raw ∧
      (job.squeezed = true → b.compressCmdbuf = true ∧
        b.decompress raw job.decompressedSize = some bytes) ∧
      (job.squeezed = false → raw = bytes) := by
  obtain ⟨raw, read, rest⟩ := Option.bind_eq_some_iff.mp readable.decoded
  refine ⟨raw, read, ?_, ?_⟩
  · intro squeezed
    have supported := readable.supported
    rw [squeezed, if_pos rfl] at rest
    rw [unsupported, squeezed, Bool.true_and, Bool.not_eq_false'] at supported
    exact ⟨supported, rest⟩
  · intro plain
    rw [plain, if_neg Bool.false_ne_true] at rest
    exact Option.some.inj rest

section SameLoad

variable (same : SameLoad b stream stream' binOffset binOffset' job job')

include same

theorem SameLoad.fails : job'.fails b = job.fails b := by
  obtain ⟨bytes, readable, readable'⟩ := same.readable
  have outcome := same.outcome
  simp only [Job.fails, same.type, outcome, readable.supported, readable'.supported, same.room,
    Bool.or_true, Bool.true_and, ne_eq, same.empty]

theorem SameLoad.loads : job'.loads b = job.loads b := by
  obtain ⟨bytes, readable, readable'⟩ := same.readable
  have outcome := same.outcome
  simp only [Job.loads, same.type, outcome, readable.supported, readable'.supported, same.room,
    Bool.or_true, ne_eq, same.empty]

theorem SameLoad.weighs : job'.weighs = job.weighs := by
  simp only [Job.weighs, same.type, ne_eq, same.empty]

theorem SameLoad.decoded : job'.decoded b stream' binOffset' = job.decoded b stream binOffset := by
  obtain ⟨bytes, readable, readable'⟩ := same.readable
  rw [readable.decoded, readable'.decoded]

end SameLoad

end Job

namespace ModelMem

variable {b : Build} {stream stream' bytes : List UInt8} {binOffset binOffset' first first' : Nat}
  {m m' n n' : ModelMem} {job job' : Job} {rc rc' : Int}

/-! ## No assertion fails -/

theorem loadDmabuf_returns (readable : job.Readable b stream binOffset bytes)
    (type : job.type = .dmabuf) (m : ModelMem) :
    ∃ rc m', loadDmabuf b stream binOffset m job = some (rc, m') := by
  obtain ⟨raw, read, inflates, -⟩ := readable.read
  have notEncrypted : ¬job.encrypt = true := by simp [readable.plain]
  rw [loadDmabuf, if_neg notEncrypted]
  cases alloc : job.alloc with
  | false => exact ⟨_, _, rfl⟩
  | true =>
    simp only [Device.cviMemAlloc, if_pos, read, Option.bind_eq_bind, Option.bind_some]
    by_cases compressed : job.compress = true ∧ 0 < job.decompressedSize
    · have squeezed : job.squeezed = true := by
        simp [Job.squeezed, type, compressed.1, compressed.2]
      obtain ⟨able, inflated⟩ := inflates squeezed
      rw [if_pos compressed, if_pos able]
      cases tmp : job.tmpAlloc with
      | false => exact ⟨_, _, rfl⟩
      | true =>
        simp only [if_pos, inflated, Option.bind_some]
        exact ⟨_, _, rfl⟩
    · rw [if_neg compressed]
      exact ⟨_, _, rfl⟩

theorem loadCmdbuf_returns (readable : job.Readable b stream binOffset bytes) (m : ModelMem) :
    ∃ rc m', loadCmdbuf b stream binOffset m job = some (rc, m') := by
  obtain ⟨raw, read, inflates, -⟩ := readable.read
  have notEncrypted : ¬job.encrypt = true := by simp [readable.plain]
  unfold loadCmdbuf
  by_cases empty : job.size = 0
  · rw [if_pos empty]
    exact ⟨_, _, rfl⟩
  · rw [if_neg empty, read, Option.bind_eq_bind, Option.bind_some, if_neg notEncrypted]
    by_cases compressed : job.compress = true ∧ job.decompressedSize ≠ 0
    · have squeezed : job.squeezed = true := by
        simp [Job.squeezed, readable.plain, compressed.1, Nat.pos_of_ne_zero compressed.2]
      obtain ⟨able, inflated⟩ := inflates squeezed
      rw [if_pos compressed, if_pos able, inflated]
      exact ⟨_, _, rfl⟩
    · rw [if_neg compressed]
      exact ⟨_, _, rfl⟩

theorem loadWeight_returns (readable : job.Readable b stream binOffset bytes) (m : ModelMem) :
    ∃ rc m', loadWeight b stream binOffset m job = some (rc, m') := by
  obtain ⟨raw, read, -, -⟩ := readable.read
  unfold loadWeight
  by_cases empty : job.size = 0
  · rw [if_pos empty]
    exact ⟨_, _, rfl⟩
  · rw [if_neg empty]
    cases alloc : job.alloc with
    | false => exact ⟨_, _, rfl⟩
    | true =>
      simp only [Device.cviMemAlloc, if_pos, read, Option.bind_eq_bind, Option.bind_some]
      exact ⟨_, _, rfl⟩

theorem loadJob_returns (readable : job.Readable b stream binOffset bytes) (m : ModelMem) :
    ∃ rc m', loadJob b stream binOffset m job = some (rc, m') := by
  unfold loadJob loadSection
  cases type : job.type with
  | cmdbuf => exact loadCmdbuf_returns readable m
  | weight => exact loadWeight_returns readable m
  | dmabuf => exact loadDmabuf_returns readable type m
  | func =>
    by_cases empty : job.size = 0
    · exact ⟨_, _, if_pos empty⟩
    · by_cases custom : job.custom = true
      · exact ⟨cviRcSuccess, m, by simp [empty, custom]⟩
      · exact ⟨cviRcFailure, m, by simp [empty, custom]⟩
  | other => exact ⟨_, _, rfl⟩

/-! ## The weight -/

/-- The bytes in the block of the weight. -/
def weightBytes (m : ModelMem) : Option (List UInt8) :=
  m.weightMem.bind fun h => (m.device.heap.cell h).map Block.content

theorem loadWeight_weightBytes (readable : job.Readable b stream binOffset bytes)
    (plain : job.squeezed = false) (done : loadWeight b stream binOffset m job = some (rc, m')) :
    m'.weightBytes = if job.size = 0 then m.weightBytes
      else if job.alloc then some bytes else none := by
  obtain ⟨raw, read, -, same⟩ := readable.read
  rw [loadWeight] at done
  by_cases empty : job.size = 0
  · rw [if_pos empty] at done ⊢
    cases done
    rfl
  · rw [if_neg empty] at done ⊢
    cases alloc : job.alloc with
    | false =>
      simp only [Device.cviMemAlloc, alloc, Bool.false_eq_true, if_false] at done
      cases done
      rfl
    | true =>
      simp only [Device.cviMemAlloc, alloc, if_true, read, Option.bind_eq_bind,
        Option.bind_some] at done
      cases done
      obtain ⟨block, cell, content⟩ := m.device.make_fill_cell
        (if b.isprotect then (job.size + b.pageSize - 1) / b.pageSize * b.pageSize else job.size)
        (.callback m.device.pair) raw
      rw [if_pos rfl, ← same plain]
      refine (congrArg (Option.map Block.content) cell).trans ?_
      rw [Option.map_some, content]

/-- A section that is no weight leaves the weight as it is. -/
theorem Change.weightBytes (change : Change b stream binOffset m job m') (sound : Sound first m)
    (other : job.weighs = false) : m'.weightBytes = m.weightBytes := by
  have kept : m'.weightMem = m.weightMem ∧ ∃ kept, m.device.Grows m'.device kept := by
    cases change with
    | loaded h block loads grows above cell content map weight weighs leaks =>
      exact ⟨weight, _, grows⟩
    | weighed mem weighs =>
      rw [other] at weighs
      cases weighs
    | leaked h leaks grows above map weight => exact ⟨weight, _, grows⟩
    | untouched grows map weight => exact ⟨weight, _, grows⟩
  obtain ⟨weight, kept, grows⟩ := kept
  rw [ModelMem.weightBytes, ModelMem.weightBytes, weight]
  cases mem : m.weightMem with
  | none => rfl
  | some w =>
    rw [Option.bind_some, Option.bind_some, grows.cells w (sound.weight w mem).2.1.lt_next]

/-! ## Two files -/

/-- The same buffers and the same weight. -/
structure Alike (m m' : ModelMem) : Prop where
  buffers : ∀ name, m'.contentAt name = m.contentAt name
  weight : m'.weightBytes = m.weightBytes

theorem Alike.new (device device' : Device) : Alike (new device) (new device') :=
  ⟨fun _ => rfl, rfl⟩

/-- One section. -/
theorem loadJob_alike (same : Job.SameLoad b stream stream' binOffset binOffset' job job')
    (sound : Sound first m) (sound' : Sound first' m') (alike : Alike m m') :
    ∃ rc n rc' n', loadJob b stream binOffset m job = some (rc, n) ∧
      loadJob b stream' binOffset' m' job' = some (rc', n') ∧
      (rc' = cviRcSuccess ↔ rc = cviRcSuccess) ∧ Sound first n ∧ Sound first' n' ∧
      Alike n n' := by
  obtain ⟨bytes, readable, readable'⟩ := same.readable
  obtain ⟨rc, n, done⟩ := loadJob_returns readable m
  obtain ⟨rc', n', done'⟩ := loadJob_returns readable' m'
  have effect := loadJob_effect done
  have effect' := loadJob_effect done'
  refine ⟨rc, n, rc', n', done, done', ?_, effect.change.sound sound,
    effect'.change.sound sound', ?_, ?_⟩
  · rw [← not_iff_not]
    exact effect'.rc.trans (same.fails ▸ effect.rc.symm)
  · intro name
    rw [effect'.change.contentAt sound', effect.change.contentAt sound, alike.buffers, same.loads,
      same.name, same.decoded]
  · cases type : job.type with
    | weight =>
      obtain ⟨plain, plain'⟩ := same.weight type
      have type' := same.type.trans type
      have alloc : job'.alloc = job.alloc := congrArg Outcome.alloc same.outcome
      simp only [loadJob, loadSection, type, type', reduceCtorEq, if_false] at done done'
      rw [loadWeight_weightBytes readable' plain' done',
        loadWeight_weightBytes readable plain done, alike.weight, alloc]
      by_cases empty : job.size = 0
      · rw [if_pos empty, if_pos (same.empty.mpr empty)]
      · rw [if_neg empty, if_neg fun none => empty (same.empty.mp none)]
    | cmdbuf | dmabuf | func | other =>
      have weighs : job.weighs = false := by simp [Job.weighs, type]
      rw [effect'.change.weightBytes sound' (same.weighs.trans weighs),
        effect.change.weightBytes sound weighs, alike.weight]

/-- All sections. -/
theorem loadEach_alike {jobs jobs' : List Job}
    (same : List.Forall₂ (Job.SameLoad b stream stream' binOffset binOffset') jobs jobs') :
    ∀ {m m' : ModelMem}, Sound first m → Sound first' m' → Alike m m' →
      ∃ rc n rc' n', loadEach (loadJob b stream binOffset) m jobs = some (rc, n) ∧
        loadEach (loadJob b stream' binOffset') m' jobs' = some (rc', n') ∧
        (rc' = cviRcSuccess ↔ rc = cviRcSuccess) ∧ Alike n n' := by
  induction same with
  | nil =>
    intro m m' _ _ alike
    exact ⟨_, m, _, m', rfl, rfl, Iff.rfl, alike⟩
  | cons first rest ih =>
    intro m m' sound sound' alike
    obtain ⟨rc, n, rc', n', done, done', code, sound, sound', alike⟩ :=
      loadJob_alike first sound sound' alike
    rw [loadEach, loadEach, done, done']
    by_cases success : rc = cviRcSuccess
    · obtain ⟨rc₂, n₂, rc₂', n₂', done, done', code', alike⟩ := ih sound sound' alike
      refine ⟨rc₂, n₂, rc₂', n₂', ?_, ?_, code', alike⟩
      · simpa [success] using done
      · simpa [code.mpr success] using done'
    · have failed : rc' ≠ cviRcSuccess := fun fine => success (code.mp fine)
      exact ⟨rc, n, rc', n', by simp [success], by simp [failed], code, alike⟩

/-- The sections of two files, in the order in which they are loaded. -/
theorem extractSections_alike {jobs jobs' : List Job}
    (same : List.Forall₂ (Job.SameLoad b stream stream' binOffset binOffset') jobs jobs')
    (device device' : Device) :
    ∃ rc n rc' n', extractSections b stream binOffset (new device) jobs = some (rc, n) ∧
      extractSections b stream' binOffset' (new device') jobs' = some (rc', n') ∧
      (rc' = cviRcSuccess ↔ rc = cviRcSuccess) ∧ Alike n n' := by
  have types : ∀ ⦃job job' : Job⦄, Job.SameLoad b stream stream' binOffset binOffset' job job' →
      ((decide (job.type ≠ .cmdbuf) : Bool) = true ↔ decide (job'.type ≠ .cmdbuf) = true) := by
    intro job job' same
    rw [same.type]
  have types' : ∀ ⦃job job' : Job⦄, Job.SameLoad b stream stream' binOffset binOffset' job job' →
      ((decide (job.type = .cmdbuf) : Bool) = true ↔ decide (job'.type = .cmdbuf) = true) := by
    intro job job' same
    rw [same.type]
  have order := List.rel_append (List.rel_filter types same) (List.rel_filter types' same)
  rw [extractSections_eq, extractSections_eq]
  exact loadEach_alike order (Sound.new device) (Sound.new device') (Alike.new device device')

end ModelMem

end CviRuntime.Memory
