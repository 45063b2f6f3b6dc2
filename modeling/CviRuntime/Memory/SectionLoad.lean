import CviRuntime.Memory.ModelParse

/-!
# What loading one section does

The type, the flags and the outcomes of a section say whether loading it fails, which block it
leaves under its name or as the weight, and what it leaves behind.
-/

namespace CviRuntime.Memory

open CviRuntime.Runtime

namespace Job

/-- The section is decompressed before it is loaded. -/
def squeezed (job : Job) : Bool :=
  job.compress && decide (0 < job.decompressedSize) && !(job.type = .cmdbuf && job.encrypt)

/-- The bytes of the section, decompressed if need be. -/
def decoded (b : Build) (stream : List UInt8) (binOffset : Nat) (job : Job) :
    Option (List UInt8) := do
  let bytes ← streamRead stream (job.offset + binOffset) job.size
  if job.squeezed then b.decompress bytes job.decompressedSize else some bytes

/-- The section needs a decompressor that the build does not have. -/
def unsupported (b : Build) (job : Job) : Bool := job.squeezed && !b.compressCmdbuf

/-- Loading the section puts a block under its name. -/
def loads (b : Build) (job : Job) : Bool :=
  match job.type with
  | .dmabuf =>
    job.alloc && !job.unsupported b && (!job.squeezed || job.tmpAlloc) && job.dmabuf.isOk
  | .cmdbuf => decide (job.size ≠ 0) && !job.unsupported b && job.cmdbuf.isOk
  | _ => false

/-- Loading the section ends with an error code. -/
def fails (b : Build) (job : Job) : Bool :=
  match job.type with
  | .func => decide (job.size ≠ 0) && !job.custom
  | .weight => decide (job.size ≠ 0) && !job.alloc
  | .dmabuf =>
    !job.alloc || job.unsupported b || (!job.squeezed || job.tmpAlloc) && !job.dmabuf.isOk
  | .cmdbuf => decide (job.size ≠ 0) && (job.unsupported b || !job.cmdbuf.isOk)
  | .other => false

/-- The section gives the model its weight. -/
def weighs (job : Job) : Bool := job.type = .weight && decide (job.size ≠ 0)

/-- A compressed DMA buffer in a build that cannot decompress it. -/
def leaks (b : Build) (job : Job) : Bool :=
  job.type = .dmabuf && job.alloc && job.unsupported b

/-- A command buffer that the device does not load while memory is protected. -/
def touches (b : Build) (job : Job) : Bool :=
  job.type = .cmdbuf && decide (job.size ≠ 0) && !job.unsupported b && !job.cmdbuf.isOk &&
    b.isprotect

end Job

namespace ModelMem

/-- A turn of either loop of `extractSections`. -/
def loadJob (b : Build) (stream : List UInt8) (binOffset : Nat) (m : ModelMem) (job : Job) :
    Option (Int × ModelMem) :=
  if job.type = .cmdbuf then loadCmdbuf b stream binOffset m job
  else loadSection b stream binOffset m job

/-- What loading a section can do to the memory of the model. -/
inductive Change (b : Build) (stream : List UInt8) (binOffset : Nat) (m : ModelMem) (job : Job)
    (m' : ModelMem) : Prop where
  | loaded (h : Nat) (block : Block) (loads : job.loads b = true)
      (grows : m.device.Grows m'.device [h]) (above : m.device.heap.next ≤ h)
      (cell : m'.device.heap.cell h = some block)
      (content : job.decoded b stream binOffset = some block.content)
      (map : m'.dmabufMap = emplace m.dmabufMap job.name h) (weight : m'.weightMem = m.weightMem)
      (weighs : job.weighs = false) (leaks : job.leaks b = false)
  | weighed (mem : Option Nat) (weighs : job.weighs = true)
      (grows : m.device.Grows m'.device mem.toList)
      (above : ∀ h, mem = some h → m.device.heap.next ≤ h)
      (map : m'.dmabufMap = m.dmabufMap) (weight : m'.weightMem = mem)
      (done : mem = none → job.fails b = true)
      (loads : job.loads b = false) (leaks : job.leaks b = false)
  | leaked (h : Nat) (leaks : job.leaks b = true) (grows : m.device.Grows m'.device [h])
      (above : m.device.heap.next ≤ h) (map : m'.dmabufMap = m.dmabufMap)
      (weight : m'.weightMem = m.weightMem) (loads : job.loads b = false)
      (weighs : job.weighs = false)
  | untouched (grows : m.device.Grows m'.device []) (map : m'.dmabufMap = m.dmabufMap)
      (weight : m'.weightMem = m.weightMem) (loads : job.loads b = false)
      (weighs : job.weighs = false) (leaks : job.leaks b = false)

/-- What loading a section does. -/
structure Effect (b : Build) (stream : List UInt8) (binOffset : Nat) (m : ModelMem) (job : Job)
    (rc : Int) (m' : ModelMem) : Prop where
  rc : rc ≠ cviRcSuccess ↔ job.fails b = true
  uninit : m'.uninitUsed = (m.uninitUsed || job.touches b)
  weightMap : m'.weightMap = m.weightMap
  change : Change b stream binOffset m job m'

variable {b : Build} {stream : List UInt8} {binOffset : Nat} {m m' : ModelMem} {job : Job} {rc : Int}

theorem loadWeight_effect (type : job.type = .weight)
    (done : loadWeight b stream binOffset m job = some (rc, m')) :
    Effect b stream binOffset m job rc m' := by
  rw [loadWeight] at done
  split at done
  · next empty =>
    cases done
    exact ⟨by simp [Job.fails, type, empty], by simp [Job.touches, type], rfl,
      .untouched (.refl _) rfl rfl (by simp [Job.loads, type]) (by simp [Job.weighs, empty])
        (by simp [Job.leaks, type])⟩
  · next nonEmpty =>
    have weighs : job.weighs = true := by simp [Job.weighs, type, nonEmpty]
    cases alloc : job.alloc with
    | false =>
      simp only [Device.cviMemAlloc, alloc, Bool.false_eq_true, if_false] at done
      cases done
      have fails : job.fails b = true := by simp [Job.fails, type, nonEmpty, alloc]
      exact ⟨by simp [fails]; decide, by simp [Job.touches, type], rfl,
        .weighed none weighs (.refl _) (by simp) rfl rfl (fun _ => fails)
          (by simp [Job.loads, type]) (by simp [Job.leaks, type])⟩
    | true =>
      simp only [Device.cviMemAlloc, alloc, if_true] at done
      obtain ⟨bytes, -, outcome⟩ := Option.bind_eq_some_iff.mp done
      cases outcome
      exact ⟨by simp [Job.fails, type, alloc], by simp [Job.touches, type], rfl,
        .weighed (some m.device.heap.next) weighs
          (((Device.Grows.refl _).make _ _ _ (by simp)).fill (Nat.le_refl _) _) (by simp) rfl rfl
          (by simp) (by simp [Job.loads, type]) (by simp [Job.leaks, type])⟩

/-- A command buffer that reaches the device. -/
theorem finishCmdbuf_effect (type : job.type = .cmdbuf) (nonEmpty : job.size ≠ 0)
    (supported : job.unsupported b = false) {content : List UInt8}
    (decoded : job.decoded b stream binOffset = some content)
    (done : finishCmdbuf b m content job = (rc, m')) : Effect b stream binOffset m job rc m' := by
  have weighs : job.weighs = false := by simp [Job.weighs, type]
  have leaks : job.leaks b = false := by simp [Job.leaks, type]
  cases result : job.cmdbuf with
  | ok size =>
    simp only [finishCmdbuf, result] at done
    cases done
    refine ⟨?_, ?_, rfl, .loaded m.device.heap.next ⟨size, 0, .loadCmdbuf, content⟩ ?_
      ((Device.Grows.refl _).make _ _ _ (by simp)) (Nat.le_refl _) Heap.alloc_cell_self decoded rfl rfl
      weighs leaks⟩
    · simp [Job.fails, type, supported, result, Except.isOk, Except.toBool]
    · simp [Job.touches, type, result, Except.isOk, Except.toBool]
    · simp [Job.loads, type, nonEmpty, supported, result, Except.isOk, Except.toBool]
  | error rc' =>
    simp only [finishCmdbuf, result] at done
    cases done
    refine ⟨?_, ?_, rfl, .untouched (.refl _) rfl rfl ?_ weighs leaks⟩
    · simp [Job.fails, type, nonEmpty, result, Except.isOk, Except.toBool, rc'.2]
    · simp [Job.touches, type, nonEmpty, supported, result, Except.isOk, Except.toBool]
    · simp [Job.loads, type, result, Except.isOk, Except.toBool]

theorem loadCmdbuf_effect (type : job.type = .cmdbuf)
    (done : loadCmdbuf b stream binOffset m job = some (rc, m')) :
    Effect b stream binOffset m job rc m' := by
  have weighs : job.weighs = false := by simp [Job.weighs, type]
  have leaks : job.leaks b = false := by simp [Job.leaks, type]
  rw [loadCmdbuf] at done
  split at done
  · next empty =>
    cases done
    refine ⟨?_, ?_, rfl, .untouched (.refl _) rfl rfl ?_ weighs leaks⟩
    · simp [Job.fails, type, empty]
    · simp [Job.touches, empty]
    · simp [Job.loads, type, empty]
  · next nonEmpty =>
    obtain ⟨bytes, read, outcome⟩ := Option.bind_eq_some_iff.mp done
    split at outcome
    · next encrypted =>
      have plain : job.squeezed = false := by simp [Job.squeezed, type, encrypted]
      exact finishCmdbuf_effect type nonEmpty (by simp [Job.unsupported, plain])
        (by simp [Job.decoded, read, plain]) (Option.some.inj outcome)
    · next plainText =>
      split at outcome
      · next compressed =>
        have squeezed : job.squeezed = true := by
          simp [Job.squeezed, plainText, compressed.1, Nat.pos_of_ne_zero compressed.2]
        split at outcome
        · next able =>
          obtain ⟨out, inflated, outcome⟩ := Option.bind_eq_some_iff.mp outcome
          exact finishCmdbuf_effect type nonEmpty (by simp [Job.unsupported, able])
            (by simp [Job.decoded, read, squeezed, inflated]) (Option.some.inj outcome)
        · next unable =>
          have unsupported : job.unsupported b = true := by
            simp [Job.unsupported, squeezed, unable]
          cases outcome
          refine ⟨?_, ?_, rfl, .untouched (.refl _) rfl rfl ?_ weighs leaks⟩
          · simp [Job.fails, type, nonEmpty, unsupported]
            decide
          · simp [Job.touches, unsupported]
          · simp [Job.loads, type, unsupported]
      · next uncompressed =>
        have plain : job.squeezed = false := by
          rw [Job.squeezed, Bool.and_eq_false_iff]
          left
          rw [Bool.and_eq_false_iff, decide_eq_false_iff_not, Nat.not_lt, Nat.le_zero]
          by_cases compress : job.compress = true
          · exact .inr (by_contra fun size => uncompressed ⟨compress, size⟩)
          · exact .inl (Bool.not_eq_true _ ▸ compress)
        exact finishCmdbuf_effect type nonEmpty (by simp [Job.unsupported, plain])
          (by simp [Job.decoded, read, plain]) (Option.some.inj outcome)

/-- A DMA buffer that reaches the device, in a block of its own. -/
theorem finishDmabuf_effect (type : job.type = .dmabuf) (alloc : job.alloc = true)
    (supported : job.unsupported b = false) (room : (!job.squeezed || job.tmpAlloc) = true)
    {device : Device} {buf : Nat} {content : List UInt8}
    (decoded : job.decoded b stream binOffset = some content)
    (grows : m.device.Grows device [buf]) (above : m.device.heap.next ≤ buf)
    (filled : ∃ block, device.heap.cell buf = some block ∧ block.content = content)
    (done : m.finishDmabuf device buf content job = (rc, m')) :
    Effect b stream binOffset m job rc m' := by
  have weighs : job.weighs = false := by simp [Job.weighs, type]
  have leaks : job.leaks b = false := by simp [Job.leaks, supported]
  have touches : job.touches b = false := by simp [Job.touches, type]
  have live : device.heap.Live buf := (grows.live buf above).mpr List.mem_cons_self
  cases result : job.dmabuf with
  | error rc' =>
    simp only [finishDmabuf, result] at done
    cases done
    refine ⟨?_, by simp [touches], rfl,
      .untouched (grows.free above List.mem_cons_self (by simp)) rfl rfl ?_ weighs leaks⟩
    · simp only [Job.fails, type, alloc, supported, room, result, Except.isOk, Except.toBool]
      simp [rc'.2]
    · simp [Job.loads, type, result, Except.isOk, Except.toBool]
  | ok target =>
    have loads : job.loads b = true := by
      simp only [Job.loads, type, alloc, supported, room, result, Except.isOk, Except.toBool]
      rfl
    have fine : job.fails b = false := by
      simp [Job.fails, type, alloc, supported, result, Except.isOk, Except.toBool]
    cases target with
    | none =>
      simp only [finishDmabuf, result] at done
      cases done
      obtain ⟨block, cell, rfl⟩ := filled
      exact ⟨by simp [fine], by simp [touches], rfl,
        .loaded buf block loads grows above cell decoded rfl rfl weighs leaks⟩
    | some size =>
      simp only [finishDmabuf, result] at done
      cases done
      have apart : device.heap.next ≠ buf := live.lt_next.ne'
      refine ⟨by simp [fine], by simp [touches], rfl,
        .loaded device.heap.next ⟨size, 0, .loadDmabuf, content⟩ loads ?_ grows.next ?_ decoded
          rfl rfl weighs leaks⟩
      · refine (grows.make _ _ _ (by simp)).free above (by simp) ?_
        intro h
        simp only [List.mem_cons, List.not_mem_nil, or_false]
        constructor
        · rintro rfl
          exact ⟨.inl rfl, apart⟩
        · rintro ⟨same | same, other⟩
          · exact same
          · exact absurd same other
      · change ((device.make _ _ _).2.cviMemFree buf).heap.cell device.heap.next = _
        rw [Device.cviMemFree, Heap.free_cell_of_ne apart]
        exact Heap.alloc_cell_self

theorem loadDmabuf_effect (type : job.type = .dmabuf)
    (done : loadDmabuf b stream binOffset m job = some (rc, m')) :
    Effect b stream binOffset m job rc m' := by
  have weighs : job.weighs = false := by simp [Job.weighs, type]
  have touches : job.touches b = false := by simp [Job.touches, type]
  rw [loadDmabuf] at done
  split at done
  · cases done
  cases alloc : job.alloc with
  | false =>
    simp only [Device.cviMemAlloc, alloc, Bool.false_eq_true, if_false] at done
    cases done
    refine ⟨?_, by simp [touches], rfl,
      .untouched (.refl _) rfl rfl (by simp [Job.loads, type, alloc]) weighs
        (by simp [Job.leaks, alloc])⟩
    simp [Job.fails, type, alloc]
    decide
  | true =>
    simp only [Device.cviMemAlloc, alloc, if_true] at done
    obtain ⟨bytes, read, outcome⟩ := Option.bind_eq_some_iff.mp done
    -- the block `buf`, holding the bytes of the section
    have grows : m.device.Grows ((m.device.make job.size (.callback m.device.pair) []).2.fill
        m.device.heap.next bytes) [m.device.heap.next] :=
      ((Device.Grows.refl _).make _ _ _ (by simp)).fill (Nat.le_refl _) _
    have filled := m.device.make_fill_cell job.size (.callback m.device.pair) bytes
    split at outcome
    · next compressed =>
      have squeezed : job.squeezed = true := by
        simp [Job.squeezed, type, compressed.1, compressed.2]
      split at outcome
      · next able =>
        have supported : job.unsupported b = false := by simp [Job.unsupported, able]
        cases tmp : job.tmpAlloc with
        | false =>
          simp only [tmp, Bool.false_eq_true, if_false] at outcome
          cases outcome
          refine ⟨?_, by simp [touches], rfl,
            .untouched (grows.free (Nat.le_refl _) List.mem_cons_self (by simp)) rfl rfl ?_ weighs ?_⟩
          · simp [Job.fails, type, alloc, supported, squeezed, tmp]
          · simp [Job.loads, type, squeezed, tmp]
          · simp [Job.leaks, supported]
        | true =>
          simp only [tmp, if_true] at outcome
          obtain ⟨out, inflated, outcome⟩ := Option.bind_eq_some_iff.mp outcome
          have both := (grows.make job.decompressedSize (.callback m.device.pair) []
            (by rintro _ ⟨⟩; rfl)).fill grows.next out
          refine finishDmabuf_effect type alloc supported (by simp [tmp])
            (by simp [Job.decoded, read, squeezed, inflated]) (both.free (Nat.le_refl _) (by simp) ?_)
            grows.next ?_ (Option.some.inj outcome)
          · intro h
            change h ∈ [m.device.heap.next + 1] ↔ h ∈ [m.device.heap.next + 1, m.device.heap.next] ∧ _
            simp only [List.mem_cons, List.not_mem_nil, or_false]
            omega
          · obtain ⟨block, cell, content⟩ := Device.make_fill_cell
              ((m.device.make job.size (.callback m.device.pair) []).2.fill m.device.heap.next bytes)
              job.decompressedSize (.callback m.device.pair) out
            refine ⟨block, ?_, content⟩
            rw [← cell]
            exact Heap.free_cell_of_ne (Nat.succ_ne_self _)
      · next unable =>
        have unsupported : job.unsupported b = true := by simp [Job.unsupported, squeezed, unable]
        cases outcome
        refine ⟨?_, by simp [touches], rfl,
          .leaked m.device.heap.next (by simp [Job.leaks, type, alloc, unsupported]) grows
            (Nat.le_refl _) rfl rfl (by simp [Job.loads, type, unsupported]) weighs⟩
        simp [Job.fails, type, alloc, unsupported]
        decide
    · next uncompressed =>
      have plain : job.squeezed = false := by
        rw [Job.squeezed, Bool.and_eq_false_iff]
        left
        rw [← Bool.not_eq_true, Bool.and_eq_true, decide_eq_true_eq]
        exact uncompressed
      exact finishDmabuf_effect type alloc (by simp [Job.unsupported, plain]) (by simp [plain])
        (by simp [Job.decoded, read, plain]) grows (Nat.le_refl _) filled (Option.some.inj outcome)

/-- Every section has the effect that its type, flags and outcomes say. -/
theorem loadJob_effect (done : loadJob b stream binOffset m job = some (rc, m')) :
    Effect b stream binOffset m job rc m' := by
  rw [loadJob] at done
  split at done
  · next type => exact loadCmdbuf_effect type done
  · next notCmdbuf =>
    rw [loadSection] at done
    split at done
    · next type =>
      have quiet : ∀ rc', (rc' ≠ cviRcSuccess ↔ job.fails b = true) →
          Effect b stream binOffset m job rc' m := fun rc' code =>
        ⟨code, by simp [Job.touches, type], rfl, .untouched (.refl _) rfl rfl (by simp [Job.loads, type])
          (by simp [Job.weighs, type]) (by simp [Job.leaks, type])⟩
      split at done
      · next empty =>
        cases done
        exact quiet _ (by simp [Job.fails, type, empty])
      · next nonEmpty =>
        split at done
        · next custom =>
          cases done
          exact quiet _ (by simp [Job.fails, type, custom])
        · next refused =>
          cases done
          refine quiet _ ?_
          simp [Job.fails, type, nonEmpty, refused]
          decide
    · next type => exact loadWeight_effect type done
    · next type => exact loadDmabuf_effect type done
    · next type => exact absurd type notCmdbuf
    · next type =>
      cases done
      exact ⟨by simp [Job.fails, type], by simp [Job.touches, type], rfl, .untouched (.refl _) rfl rfl
        (by simp [Job.loads, type]) (by simp [Job.weighs, type]) (by simp [Job.leaks, type])⟩

/-- `~CviModel` frees the block (`model.cpp:95-115`). -/
def Owned (m : ModelMem) (h : Nat) : Prop :=
  m.weightMem = some h ∨ h ∈ m.dmabufMap.map Prod.snd

/-- So does it with every block from number `first` on. -/
def AllOwned (first : Nat) (m : ModelMem) : Prop :=
  ∀ h, first ≤ h → m.device.heap.Live h → m.Owned h

/-- The fields hold live blocks, each once. -/
structure Sound (first : Nat) (m : ModelMem) : Prop where
  next : first ≤ m.device.heap.next
  weight : ∀ w, m.weightMem = some w →
    first ≤ w ∧ m.device.heap.Live w ∧ w ∉ m.dmabufMap.map Prod.snd
  map : ∀ h ∈ m.dmabufMap.map Prod.snd, m.device.heap.Live h

theorem Sound.new (device : Device) : Sound device.heap.next (new device) where
  next := Nat.le_refl _
  weight := by simp [ModelMem.new]
  map := by simp [ModelMem.new]

section change

variable {first : Nat}

theorem mem_emplace_handles {map : List (String × Nat)} {name : String} {h k : Nat} :
    k ∈ (emplace map name h).map Prod.snd ↔
      k ∈ map.map Prod.snd ∨ name ∉ map.map Prod.fst ∧ k = h := by
  rw [emplace]
  split
  · next taken => simp [taken]
  · next free => simp [free]

theorem mem_emplace_names {map : List (String × Nat)} {name other : String} {h : Nat} :
    other ∈ (emplace map name h).map Prod.fst ↔ other ∈ map.map Prod.fst ∨ other = name := by
  rw [emplace]
  split
  · next taken =>
    refine ⟨.inl, ?_⟩
    rintro (known | rfl)
    · exact known
    · exact taken
  · simp

/-- New blocks do not disturb what the fields hold. -/
theorem Sound.grow (sound : Sound first m) {kept : List Nat}
    (grows : m.device.Grows m'.device kept) (above : ∀ h ∈ kept, m.device.heap.next ≤ h)
    (weight : m'.weightMem = m.weightMem) (map : m'.dmabufMap = m.dmabufMap) : Sound first m' := by
  have live := grows.live_iff above
  refine ⟨sound.next.trans grows.next, ?_, ?_⟩
  · intro w is
    obtain ⟨new, alive, apart⟩ := sound.weight w (weight ▸ is)
    exact ⟨new, (live w).mpr (.inl alive), map ▸ apart⟩
  · intro k member
    exact (live k).mpr (.inl (sound.map k (map ▸ member)))

theorem Change.sound (change : Change b stream binOffset m job m') (sound : Sound first m) :
    Sound first m' := by
  cases change with
  | loaded h block loads grows above cell content map weight weighs leaks =>
    have live := grows.live_iff (by simpa using above)
    refine ⟨sound.next.trans grows.next, ?_, ?_⟩
    · intro w is
      rw [weight] at is
      obtain ⟨new, alive, apart⟩ := sound.weight w is
      refine ⟨new, (live w).mpr (.inl alive), ?_⟩
      rw [map, mem_emplace_handles, not_or, not_and]
      exact ⟨apart, fun _ same => Nat.not_lt.mpr above (same ▸ alive.lt_next)⟩
    · intro k member
      rw [map, mem_emplace_handles] at member
      rcases member with member | ⟨-, rfl⟩
      · exact (live k).mpr (.inl (sound.map k member))
      · exact (live k).mpr (.inr List.mem_cons_self)
  | weighed mem weighs grows above map weight done loads leaks =>
    have live := grows.live_iff (by simpa using above)
    refine ⟨sound.next.trans grows.next, ?_, ?_⟩
    · intro w is
      rw [weight] at is
      refine ⟨sound.next.trans (above w is), (live w).mpr (.inr (by simp [is])), ?_⟩
      rw [map]
      exact fun member => Nat.not_lt.mpr (above w is) (sound.map w member).lt_next
    · intro k member
      rw [map] at member
      exact (live k).mpr (.inl (sound.map k member))
  | leaked h leaks grows above map weight loads weighs =>
    exact sound.grow grows (by simpa using above) weight map
  | untouched grows map weight loads weighs leaks => exact sound.grow grows (by simp) weight map

theorem Change.taken (change : Change b stream binOffset m job m') (name : String) :
    name ∈ m'.dmabufMap.map Prod.fst ↔
      name ∈ m.dmabufMap.map Prod.fst ∨ job.loads b = true ∧ name = job.name := by
  cases change with
  | loaded h block loads grows above cell content map weight weighs leaks =>
    rw [map, mem_emplace_names]
    simp [loads]
  | weighed mem weighs grows above map weight done loads leaks => simp [map, loads]
  | leaked h leaks grows above map weight loads weighs => simp [map, loads]
  | untouched grows map weight loads weighs leaks => simp [map, loads]

/-- The bytes in the block under a name. -/
def contentAt (m : ModelMem) (name : String) : Option (List UInt8) :=
  (m.dmabufMap.lookup name).bind fun h => (m.device.heap.cell h).map Block.content

theorem mem_handles_of_lookup {map : List (String × Nat)} {name : String} {h : Nat}
    (found : map.lookup name = some h) : h ∈ map.map Prod.snd := by
  obtain ⟨before, after, rfl, -⟩ := List.lookup_eq_some_iff.mp found
  simp

/-- Blocks under a name stay as they are when the device only grows. -/
theorem contentAt_congr (sound : Sound first m) {kept : List Nat}
    (grows : m.device.Grows m'.device kept) {name : String}
    (same : m'.dmabufMap.lookup name = m.dmabufMap.lookup name) :
    m'.contentAt name = m.contentAt name := by
  rw [contentAt, contentAt, same]
  cases found : m.dmabufMap.lookup name with
  | none => rfl
  | some h =>
    have live := sound.map h (mem_handles_of_lookup found)
    rw [Option.bind_some, Option.bind_some, grows.cells h live.lt_next]

theorem lookup_eq_none_iff_not_mem {map : List (String × Nat)} {name : String} :
    map.lookup name = none ↔ name ∉ map.map Prod.fst := by
  simp only [List.lookup_eq_none_iff, bne_iff_ne, List.mem_map, not_exists, not_and]
  exact forall_congr' fun entry => forall_congr' fun _ => ne_comm

/-- A section that loads gives its bytes to its name, unless the name is taken. -/
theorem Change.contentAt (change : Change b stream binOffset m job m') (sound : Sound first m)
    (name : String) : m'.contentAt name = (m.contentAt name).or
      (if job.loads b = true ∧ job.name = name then job.decoded b stream binOffset else none) := by
  cases change with
  | loaded h block loads grows above cell content map weight weighs leaks =>
    by_cases taken : job.name ∈ m.dmabufMap.map Prod.fst
    · have same : m'.dmabufMap = m.dmabufMap := by rw [map, emplace, if_pos taken]
      rw [contentAt_congr sound grows (by rw [same])]
      split
      · next this =>
        obtain ⟨-, rfl⟩ := this
        have present : (m.contentAt job.name).isSome := by
          cases found : m.dmabufMap.lookup job.name with
          | none => exact absurd taken (lookup_eq_none_iff_not_mem.mp found)
          | some k =>
            obtain ⟨block, is⟩ :=
              Heap.live_iff.mp (sound.map k (mem_handles_of_lookup found))
            simp [ModelMem.contentAt, found, is]
        rw [Option.or_of_isSome present]
      · rw [Option.or_none]
    · have added : m'.dmabufMap = m.dmabufMap ++ [(job.name, h)] := by
        rw [map, emplace, if_neg taken]
      by_cases same : job.name = name
      · subst same
        have fresh : m.contentAt job.name = none := by
          rw [ModelMem.contentAt, lookup_eq_none_iff_not_mem.mpr taken, Option.bind_none]
        have found : m'.dmabufMap.lookup job.name = some h := by
          rw [added, List.lookup_append, lookup_eq_none_iff_not_mem.mpr taken]
          simp
        rw [fresh, Option.none_or, if_pos ⟨loads, rfl⟩, ModelMem.contentAt, found,
          Option.bind_some, cell, content, Option.map_some]
      · have other : m'.dmabufMap.lookup name = m.dmabufMap.lookup name := by
          rw [added, List.lookup_append]
          simp [List.lookup_cons, beq_eq_false_iff_ne.mpr (Ne.symm same)]
        rw [contentAt_congr sound grows other, if_neg fun this => same this.2, Option.or_none]
  | weighed mem weighs grows above map weight done loads leaks =>
    rw [contentAt_congr sound grows (by rw [map])]
    simp [loads]
  | leaked h leaks grows above map weight loads weighs =>
    rw [contentAt_congr sound grows (by rw [map])]
    simp [loads]
  | untouched grows map weight loads weighs leaks =>
    rw [contentAt_congr sound grows (by rw [map])]
    simp [loads]

end change

end ModelMem

end CviRuntime.Memory
