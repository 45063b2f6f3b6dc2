import CviRuntime.Memory.SectionLoad

/-!
# When parsing a model keeps its promises

Success promises that the chip and the version fit and that every buffer of the file is mapped
to a block with its bytes; an error promises that no block is left behind that `~CviModel` does
not free and that no unset handle was used. The code keeps this on most files and outcomes, and
`Kept` says exactly on which.
-/

namespace CviRuntime.Memory

open CviRuntime.Runtime

namespace Job

/-- The sections up to the first that fails. -/
def processed (b : Build) : List Job → List Job
  | [] => []
  | job :: jobs => if job.fails b then [job] else job :: processed b jobs

/-- The order in which `extractSections` loads: the command buffers last. -/
def order (sections : List Job) : List Job :=
  sections.filter (·.type ≠ .cmdbuf) ++ sections.filter (·.type = .cmdbuf)

/-- The buffers that a program can ask for. -/
def Needed (job : Job) : Prop := job.type = .dmabuf ∨ job.type = .cmdbuf ∧ job.size ≠ 0

/-- The bytes of the first section that is loaded under a name. -/
def firstLoaded (b : Build) (stream : List UInt8) (binOffset : Nat) (jobs : List Job)
    (name : String) : Option (List UInt8) :=
  (jobs.find? fun job => job.loads b && job.name = name).bind (decoded b stream binOffset)

/-- These sections take no name and no weight twice, leave no block behind and use no unset
    handle. `taken` and `weighed` say what is there before. -/
structure NothingLost (b : Build) (taken : String → Prop) (weighed : Bool) (jobs : List Job) :
    Prop where
  names : ((jobs.filter (loads b)).map (·.name)).Nodup
  free : ∀ job ∈ jobs, job.loads b = true → ¬ taken job.name
  weights : jobs.countP weighs + weighed.toNat ≤ 1
  held : ∀ job ∈ jobs, job.leaks b = false ∧ job.touches b = false

variable {b : Build} {taken : String → Prop} {weighed : Bool} {job : Job} {jobs : List Job}

theorem NothingLost.nil : NothingLost b taken weighed [] where
  names := by simp
  free := by simp
  weights := by simpa using weighed.toNat_le
  held := by simp

theorem NothingLost.congr {taken' : String → Prop} {weighed' : Bool}
    (same : ∀ name, taken name ↔ taken' name) (equal : weighed = weighed') :
    NothingLost b taken weighed jobs ↔ NothingLost b taken' weighed' jobs := by
  rw [equal, funext fun name => propext (same name)]

end Job

namespace ModelMem

variable {b : Build} {stream : List UInt8} {binOffset first : Nat} {m m' : ModelMem} {rc : Int}

theorem loadEach_cons {load : ModelMem → Job → Option (Int × ModelMem)} {job : Job}
    {jobs : List Job} (done : loadEach load m (job :: jobs) = some (rc, m')) :
    (load m job = some (rc, m') ∧ rc ≠ cviRcSuccess) ∨
      ∃ between, load m job = some (cviRcSuccess, between) ∧
        loadEach load between jobs = some (rc, m') := by
  obtain ⟨⟨rc', between⟩, first, rest⟩ := Option.bind_eq_some_iff.mp done
  by_cases failed : rc' ≠ cviRcSuccess
  · dsimp only at rest
    rw [if_pos failed] at rest
    cases rest
    exact .inl ⟨first, failed⟩
  · dsimp only at rest
    rw [if_neg failed] at rest
    rw [not_not] at failed
    subst failed
    exact .inr ⟨between, first, rest⟩

theorem loadEach_append {load : ModelMem → Job → Option (Int × ModelMem)} {after : List Job} :
    ∀ {before : List Job} {m : ModelMem}, loadEach load m (before ++ after) =
      (loadEach load m before).bind fun result =>
        if result.1 ≠ cviRcSuccess then some result else loadEach load result.2 after := by
  intro before
  induction before with
  | nil =>
    intro m
    simp [loadEach]
  | cons job before ih =>
    intro m
    rw [List.cons_append, loadEach, loadEach]
    cases load m job with
    | none => rfl
    | some result =>
      by_cases failed : result.1 ≠ cviRcSuccess
      · simp [failed]
      · rw [not_not] at failed
        simp [failed, ih]

/-- The first loop passes over the command buffers. -/
theorem loadEach_loadSection : ∀ {jobs : List Job} {m : ModelMem},
    loadEach (loadSection b stream binOffset) m jobs =
      loadEach (loadJob b stream binOffset) m (jobs.filter (·.type ≠ .cmdbuf)) := by
  intro jobs
  induction jobs with
  | nil =>
    intro m
    rfl
  | cons job jobs ih =>
    intro m
    by_cases type : job.type = .cmdbuf
    · rw [List.filter_cons_of_neg (by simp [type]), ← ih, loadEach, loadSection]
      simp [type]
    · rw [List.filter_cons_of_pos (by simp [type]), loadEach, loadEach, loadJob, if_neg type]
      simp [ih]

theorem loadEach_loadCmdbuf : ∀ {jobs : List Job} {m : ModelMem},
    (∀ job ∈ jobs, job.type = .cmdbuf) → loadEach (loadCmdbuf b stream binOffset) m jobs =
      loadEach (loadJob b stream binOffset) m jobs := by
  intro jobs
  induction jobs with
  | nil =>
    intro m _
    rfl
  | cons job jobs ih =>
    intro m all
    rw [loadEach, loadEach, loadJob, if_pos (all job List.mem_cons_self)]
    simp [ih fun other member => all other (List.mem_cons_of_mem _ member)]

theorem extractSections_eq (sections : List Job) :
    extractSections b stream binOffset m sections =
      loadEach (loadJob b stream binOffset) m (Job.order sections) := by
  rw [extractSections, Job.order, loadEach_append, loadEach_loadSection]
  cases loadEach (loadJob b stream binOffset) m (sections.filter (·.type ≠ .cmdbuf)) with
  | none => rfl
  | some result =>
    have second : loadEach (loadCmdbuf b stream binOffset) result.2
        (sections.filter (·.type = .cmdbuf)) = loadEach (loadJob b stream binOffset) result.2
          (sections.filter (·.type = .cmdbuf)) := loadEach_loadCmdbuf (by simp)
    simp [second]

/-- The windows of the weights are all newer than the blocks below `bound`, which stay. -/
structure WeightsAbove (bound : Nat) (m m' : ModelMem) : Prop where
  dmabufMap : m'.dmabufMap = m.dmabufMap
  cells : ∀ h < bound, m'.device.heap.cell h = m.device.heap.cell h
  next : bound ≤ m'.device.heap.next
  windows : ∀ w ∈ m'.weightMap.map Prod.snd, bound ≤ w

theorem WeightsAbove.addWeight {bound : Nat} {m₀ : ModelMem} (above : WeightsAbove bound m₀ m)
    {weight : FbWeight} (added : m.addWeight weight = some m') : WeightsAbove bound m₀ m' := by
  rw [ModelMem.addWeight] at added
  split at added
  · obtain ⟨⟨gmem, device⟩, window, outcome⟩ := Option.bind_eq_some_iff.mp added
    obtain ⟨b, -, rfl, made⟩ := Device.memPreAlloc_cases window
    have cells : ∀ h < bound, device.heap.cell h = m₀.device.heap.cell h := by
      intro h below
      rw [made, Device.make_cell_of_ne (below.trans_le above.next).ne]
      exact above.cells h below
    have next : bound ≤ device.heap.next := by
      rw [made]
      exact Nat.le_succ_of_le above.next
    have windows : ∀ w ∈ (assign m.weightMap weight.name m.device.heap.next).map Prod.snd,
        bound ≤ w := by
      intro w member
      rw [assign, List.map_append, List.mem_append] at member
      rcases member with member | member
      · exact above.windows w ((List.filter_sublist.map Prod.snd).subset member)
      · rw [List.map_singleton, List.mem_singleton] at member
        exact member ▸ above.next
    dsimp only at outcome
    split at outcome
    · next old found =>
      cases outcome
      have newer := above.windows old (mem_handles_of_lookup found)
      refine ⟨above.dmabufMap, fun h below => ?_, next, windows⟩
      exact (Heap.free_cell_of_ne (below.trans_le newer).ne).trans (cells h below)
    · cases outcome
      exact ⟨above.dmabufMap, cells, next, windows⟩
  · cases added
    exact above

theorem WeightsAbove.createCpuWeightMap {bound : Nat} {m₀ : ModelMem} :
    ∀ {weights : List FbWeight} {m : ModelMem}, WeightsAbove bound m₀ m →
      m.createCpuWeightMap weights = some m' → WeightsAbove bound m₀ m' := by
  intro weights
  induction weights with
  | nil =>
    intro m above done
    cases done
    exact above
  | cons weight weights ih =>
    intro m above done
    rw [ModelMem.createCpuWeightMap, List.foldlM_cons] at done
    obtain ⟨between, added, rest⟩ := Option.bind_eq_some_iff.mp done
    exact ih (above.addWeight added) rest

/-- The version of the model is not greater than that of the runtime. -/
def VersionFits (b : Build) (fb : FbModel) : Prop :=
  fb.major < b.majorVersion ∨ fb.major = b.majorVersion ∧ fb.minor ≤ b.minorVersion

/-- If no section fails: the version fits, and every buffer has the bytes of the first one that
    is loaded under its name. If one fails: the sections up to it lose nothing. -/
def Kept (b : Build) (a : Attempt) (fb : FbModel) : Prop :=
  ((∀ job ∈ Job.order fb.sections, job.fails b = false) →
    VersionFits b fb ∧ ∀ job ∈ fb.sections, job.Needed →
      ∃ bytes, job.decoded b a.stream (headerSize a + payloadSize a) = some bytes ∧
        Job.firstLoaded b a.stream (headerSize a + payloadSize a) (Job.order fb.sections) job.name =
          some bytes) ∧
  ((∃ job ∈ Job.order fb.sections, job.fails b = true) →
    Job.NothingLost b (fun _ => False) false (Job.processed b (Job.order fb.sections)))

theorem AllOwned.new (device : Device) : AllOwned device.heap.next (new device) :=
  fun _ above live => absurd live.lt_next (Nat.not_lt.mpr above)

/-- A build with a decompressor that writes zeros. -/
def zeros : Build := ⟨true, false, 4096, 1, 4, fun _ size => some (List.replicate size 0)⟩

end ModelMem

end CviRuntime.Memory
