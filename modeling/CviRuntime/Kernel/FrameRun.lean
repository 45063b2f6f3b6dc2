import CviRuntime.Kernel.FrameRows

/-!
# A tensor that is fed again and again

The commands are generated once and kept, on whatever call comes first. Over every run of calls
they stay those of the tensor, so that a call that returns success has taken all its frames to
their places, from the first frame on that there was a command for.
-/

namespace CviRuntime.Kernel

open CviRuntime.BlockFill
open CviRuntime.Runtime (Platform toU32 cviRcSuccess preloadFrameSize preloadShape)

/-! ## What a preload leaves as it is -/

namespace FrameNeuron

/-- Two neurons of the same images. -/
structure Like (n n' : FrameNeuron) : Prop where
  shape : n'.shape = n.shape
  fmt : n'.fmt = n.fmt
  geometry : n'.geometry = n.geometry
  aligned : n'.aligned = n.aligned
  packed : n'.isPacked.2 = n.isPacked.2

/-- The commands that are kept are those of the neuron. -/
structure Cached (ops : CopyOps) (n : FrameNeuron) : Prop where
  channel : OnlyCaches (n.channelCopy ops) n.channelPreloadCmdbuf
  frame : OnlyCaches (if n.aligned then n.wholeCopy ops else n.frameCopy ops)
    n.framePreloadCmdbuf

section

variable {n n' n'' : FrameNeuron} {ops : CopyOps}

theorem Like.refl (n : FrameNeuron) : n.Like n := ⟨rfl, rfl, rfl, rfl, rfl⟩

theorem Like.trans (first : n.Like n') (second : n'.Like n'') : n.Like n'' :=
  ⟨second.shape.trans first.shape, second.fmt.trans first.fmt,
    second.geometry.trans first.geometry, second.aligned.trans first.aligned,
    second.packed.trans first.packed⟩

/-- The pixel format is decided once. -/
theorem isPacked_isPacked (n : FrameNeuron) : n.isPacked.1.isPacked.2 = n.isPacked.2 := by
  by_cases tensor : n.pixelFormat = .named .tensor
  · by_cases three : n.shape.w = 3
    · simp [isPacked, tensor, three]
    · simp [isPacked, tensor, three]
  · simp [isPacked, tensor]

theorem isPacked_like (n : FrameNeuron) : n.Like n.isPacked.1 :=
  ⟨rfl, rfl, rfl, rfl, isPacked_isPacked n⟩

theorem Like.planes_eq (like : n.Like n') : n'.planes = n.planes := by
  rw [planes, planes, like.packed, like.shape]

theorem Like.rows_eq (like : n.Like n') : n'.rows = n.rows := by
  rw [rows, rows, like.packed, like.shape]

theorem Like.width_eq (like : n.Like n') : n'.width = n.width := by
  rw [width, width, like.packed, like.shape]

theorem Like.hstride_eq (like : n.Like n') : n'.hstride = n.hstride := by
  rw [hstride, hstride, like.width_eq, like.geometry]

theorem Like.channelCopy_eq (like : n.Like n') (ops : CopyOps) :
    n'.channelCopy ops = n.channelCopy ops := by
  rw [channelCopy, channelCopy, like.fmt, like.rows_eq, like.width_eq, like.hstride_eq]

theorem Like.frameCopy_eq (like : n.Like n') (ops : CopyOps) :
    n'.frameCopy ops = n.frameCopy ops := by
  rw [frameCopy, frameCopy, like.fmt, like.planes_eq, like.rows_eq, like.width_eq,
    like.hstride_eq]

theorem Like.wholeCopy_eq (like : n.Like n') (ops : CopyOps) :
    n'.wholeCopy ops = n.wholeCopy ops := by
  rw [wholeCopy, wholeCopy, like.geometry, like.shape]

/-- The commands of a neuron of the same images. -/
theorem Like.cached_iff (like : n.Like n') : n'.Cached ops ↔
    OnlyCaches (n.channelCopy ops) n'.channelPreloadCmdbuf ∧
      OnlyCaches (if n.aligned then n.wholeCopy ops else n.frameCopy ops)
        n'.framePreloadCmdbuf := by
  constructor
  · rintro ⟨channel, frame⟩
    rw [like.channelCopy_eq] at channel
    rw [like.aligned, like.wholeCopy_eq, like.frameCopy_eq] at frame
    exact ⟨channel, frame⟩
  · rintro ⟨channel, frame⟩
    constructor
    · rw [like.channelCopy_eq]
      exact channel
    · rw [like.aligned, like.wholeCopy_eq, like.frameCopy_eq]
      exact frame

end

end FrameNeuron

/-! ## One frame of a call -/

/-- What one preload of a call does, given what the neuron keeps and which command it uses. -/
structure PreloadStep (keeps : FrameNeuron → Prop) (cache : FrameNeuron → Option CopyCmdbuf)
    (dst size : Nat) (value : Mem → Nat → UInt8) (rounds : Fin 3 → Round)
    (state : FrameNeuron × Mem) (ended : Int × FrameNeuron × Mem) : Prop where
  keeps : keeps ended.2.1
  outside : AgreeOutside dst size state.2 ended.2.2
  put : ended.1 = cviRcSuccess → (cache state.1 ≠ none ∨ ∃ k, (rounds k).jit = true) →
    cache ended.2.1 ≠ none ∧ Puts dst size value state.2 ended.2.2
  skip : cache state.1 = none → (∀ k, (rounds k).jit = false) →
    cache ended.2.1 = none ∧ ended.2.2 = state.2

/-- There is a command for frame `i`: one from before, or one that was generated for this frame or
    one in front of it. -/
def Ready (cmdbuf : Option CopyCmdbuf) (rounds : Nat → Fin 3 → Round) (i : Nat) : Prop :=
  cmdbuf ≠ none ∨ ∃ j, j ≤ i ∧ ∃ k, (rounds j k).jit = true

section

variable {keeps : FrameNeuron → Prop} {cache : FrameNeuron → Option CopyCmdbuf} {dst size : Nat}
  {value : Nat → Mem → Nat → UInt8} {rounds : Nat → Fin 3 → Round}
  {preload : Nat → Nat → FrameNeuron × Mem → Int × FrameNeuron × Mem} {sources : List Nat}
  {start : FrameNeuron × Mem}

/-- Frame `i` is the next one of the loop: the frames in front of it are done. -/
structure InLoop (keeps : FrameNeuron → Prop) (cache : FrameNeuron → Option CopyCmdbuf)
    (dst size : Nat) (value : Nat → Mem → Nat → UInt8) (rounds : Nat → Fin 3 → Round)
    (sources : List Nat) (start : FrameNeuron × Mem) (i : Nat) (state : FrameNeuron × Mem) :
    Prop where
  kept : keeps state.1
  known : cache state.1 ≠ none ↔
    cache start.1 ≠ none ∨ ∃ j, j < i ∧ ∃ k, (rounds j k).jit = true
  filled : Filled dst size (fun i => value (sources.getD i 0)) (Ready (cache start.1) rounds) i
    start.2 state.2

theorem InLoop.first (kept : keeps start.1) :
    InLoop keeps cache dst size value rounds sources start 0 start where
  kept := kept
  known := by
    refine ⟨Or.inl, ?_⟩
    rintro (before | ⟨j, none, -⟩)
    · exact before
    · exact absurd none (Nat.not_lt_zero j)
  filled := Filled.zero _ _ _ _ _

/-- A preload that succeeds. -/
theorem InLoop.next {i src : Nat} {state : FrameNeuron × Mem} {ended : Int × FrameNeuron × Mem}
    (inLoop : InLoop keeps cache dst size value rounds sources start i state)
    (here : sources[i]? = some src)
    (step : PreloadStep keeps cache (dst + i * size) size (value src) (rounds i) state ended)
    (success : ended.1 = cviRcSuccess)
    (reads : Reads dst (sources.length * size) size (value src)) :
    InLoop keeps cache dst size value rounds sources start (i + 1) ended.2 := by
  obtain ⟨-, known, filled⟩ := inLoop
  have source : sources.getD i 0 = src := by rw [List.getD_eq_getElem?_getD, here]; rfl
  by_cases ready : Ready (cache start.1) rounds i
  · have hasCommand : cache state.1 ≠ none ∨ ∃ k, (rounds i k).jit = true := by
      rcases ready with before | ⟨j, less, jit⟩
      · exact .inl (known.mpr (.inl before))
      · rcases Nat.lt_or_eq_of_le less with earlier | rfl
        · exact .inl (known.mpr (.inr ⟨j, earlier, jit⟩))
        · exact .inr jit
    obtain ⟨caches, puts⟩ := step.put success hasCommand
    rw [← source] at puts reads
    refine ⟨step.keeps, ⟨fun _ => ready.imp_right ?_, fun _ => caches⟩,
      filled.put puts ready (List.getElem?_eq_some_iff.mp here).1 reads⟩
    rintro ⟨j, less, jit⟩
    exact ⟨j, Nat.lt_succ_of_le less, jit⟩
  · -- Without a command there was none before, and none is generated.
    have noCommand : cache state.1 = none := by
      by_contra some
      rcases known.mp some with before | ⟨j, less, jit⟩
      · exact ready (.inl before)
      · exact ready (.inr ⟨j, Nat.le_of_lt less, jit⟩)
    have idle : ∀ k, (rounds i k).jit = false := by
      intro k
      by_contra jit
      exact ready (.inr ⟨i, Nat.le_refl i, k, Bool.eq_true_of_not_eq_false jit⟩)
    obtain ⟨none, same⟩ := step.skip noCommand idle
    refine ⟨step.keeps, ⟨fun some => absurd none some, fun command => ?_⟩, ?_⟩
    · rcases command with before | ⟨j, less, jit⟩
      · exact absurd (.inl before) ready
      · exact absurd (.inr ⟨j, Nat.le_of_lt_succ less, jit⟩) ready
    · rw [same]
      exact filled.skip ready

/-- The first frame of what is left of a list. -/
theorem getElem?_of_drop {sources rest : List Nat} {i src : Nat}
    (suffix : sources.drop i = src :: rest) :
    sources[i]? = some src ∧ sources.drop (i + 1) = rest := by
  constructor
  · have first := congrArg List.head? suffix
    rwa [List.head?_drop, List.head?_cons] at first
  · have tail := congrArg List.tail suffix
    rwa [List.tail_drop, List.tail_cons] at tail

/-- The loop of a call from frame `i` on. -/
theorem feedEach_from
    (steps : ∀ i src state, sources[i]? = some src → keeps state.1 →
      PreloadStep keeps cache (dst + i * size) size (value src) (rounds i) state
        (preload i src state))
    (reads : ∀ src ∈ sources, Reads dst (sources.length * size) size (value src))
    (rest : List Nat) (i : Nat) (suffix : sources.drop i = rest) (state : FrameNeuron × Mem)
    (inLoop : InLoop keeps cache dst size value rounds sources start i state)
    (small : i ≤ sources.length)
    (success : (feedEach preload rest i state).1 = cviRcSuccess) :
    Filled dst size (fun i => value (sources.getD i 0)) (Ready (cache start.1) rounds)
      sources.length start.2 (feedEach preload rest i state).2.2 := by
  induction rest generalizing i state with
  | nil =>
    have all := List.drop_eq_nil_iff.mp suffix
    rw [Nat.le_antisymm all small]
    exact inLoop.filled
  | cons src rest ih =>
    obtain ⟨here, later⟩ := getElem?_of_drop suffix
    have step := steps i src state here inLoop.kept
    simp only [feedEach] at success ⊢
    split
    · rename_i failed
      rw [if_pos failed] at success
      exact absurd success failed
    · rename_i ran
      rw [if_neg ran] at success
      rw [ne_eq, not_not] at ran
      have next := inLoop.next here step ran (reads src (List.mem_of_getElem? here))
      exact ih (i + 1) later _ next (List.getElem?_eq_some_iff.mp here).1 success

/-- A call that returns success has taken the frames to their places, from the first one on that
    there was a command for; those in front of it are left out. -/
theorem feedEach_filled
    (steps : ∀ i src state, sources[i]? = some src → keeps state.1 →
      PreloadStep keeps cache (dst + i * size) size (value src) (rounds i) state
        (preload i src state))
    (reads : ∀ src ∈ sources, Reads dst (sources.length * size) size (value src))
    (kept : keeps start.1) (success : (feedEach preload sources 0 start).1 = cviRcSuccess) :
    Filled dst size (fun i => value (sources.getD i 0)) (Ready (cache start.1) rounds)
      sources.length start.2 (feedEach preload sources 0 start).2.2 := by
  exact feedEach_from steps reads sources 0 rfl start (InLoop.first kept) (Nat.zero_le _) success

/-- What every preload keeps, a call keeps. -/
theorem feedEach_keeps
    (step : ∀ i src state, keeps state.1 → keeps (preload i src state).2.1) (paddrs : List Nat)
    (i : Nat) (state : FrameNeuron × Mem) (kept : keeps state.1) :
    keeps (feedEach preload paddrs i state).2.1 := by
  induction paddrs generalizing i state with
  | nil => exact kept
  | cons src paddrs ih =>
    have next := step i src state kept
    simp only [feedEach]
    split
    · exact next
    · exact ih (i + 1) _ next

/-- Whatever a call returns, only the places of its frames change. -/
theorem feedEach_outside
    (steps : ∀ i src state, sources[i]? = some src → keeps state.1 →
      PreloadStep keeps cache (dst + i * size) size (value src) (rounds i) state
        (preload i src state))
    (rest : List Nat) (i : Nat) (suffix : sources.drop i = rest) (state : FrameNeuron × Mem)
    (kept : keeps state.1) :
    AgreeOutside dst (sources.length * size) state.2 (feedEach preload rest i state).2.2 := by
  induction rest generalizing i state with
  | nil => exact AgreeOutside.refl _ _ _
  | cons src rest ih =>
    obtain ⟨here, later⟩ := getElem?_of_drop suffix
    have inside := Nat.mul_le_mul_right size (List.getElem?_eq_some_iff.mp here).1
    rw [Nat.succ_mul] at inside
    have step := steps i src state here kept
    have agree : AgreeOutside dst (sources.length * size) state.2 (preload i src state).2.2 :=
      step.outside.mono (Nat.le_add_right dst _) (by omega)
    simp only [feedEach]
    split
    · exact agree
    · exact agree.trans (ih (i + 1) later _ step.keeps)

end

/-! ## The preloads of a neuron -/

/-- What a call that preloads frames to `dst` is relied on for: the addresses reach the engine in
    full, and the frames lie apart from the places they are taken to. -/
structure Supplied (platform : Platform) (p : PaddedRows) (dst : Nat) (sources : List Nat) : Prop
    where
  reached : platform = .cmodel ∨
    dst + sources.length * p.bytes ≤ 2 ^ 32 ∧ ∀ src ∈ sources, src < 2 ^ 32
  apart : ∀ src ∈ sources, src + p.padded ≤ dst ∨ dst + sources.length * p.bytes ≤ src

/-- Runs that fail write nothing but the place of the frame. -/
def Confined (p : PaddedRows) (dst : Nat) (rounds : Nat → Fin 3 → Round) : Prop :=
  ∀ i k, (rounds i k).Confined (dst + i * p.bytes) p.bytes

section

variable {ops : CopyOps} {platform : Platform} {p : PaddedRows} {make : CopyCmdbuf}
  {keeps : FrameNeuron → Prop} {cache : FrameNeuron → Option CopyCmdbuf} {dst i src : Nat}
  {sources : List Nat} {rounds : Nat → Fin 3 → Round} {state : FrameNeuron × Mem}

theorem Supplied.reads (supplied : Supplied platform p dst sources) (wide : p.Wide) :
    ∀ src ∈ sources, Reads dst (sources.length * p.bytes) p.bytes (p.value src) := by
  intro src isSource
  exact PaddedRows.reads wide (supplied.apart src isSource)

theorem Supplied.at (supplied : Supplied platform p dst sources) (positive : 0 < p.bytes)
    (here : sources[i]? = some src) :
    (platform = .cmodel ∨ src < 2 ^ 32 ∧ dst + i * p.bytes < 2 ^ 32) ∧
      (src + p.padded ≤ dst + i * p.bytes ∨ dst + i * p.bytes + p.bytes ≤ src) := by
  have isSource := List.mem_of_getElem? here
  have inside := Nat.mul_le_mul_right p.bytes (List.getElem?_eq_some_iff.mp here).1
  rw [Nat.succ_mul] at inside
  constructor
  · rcases supplied.reached with simulator | ⟨whole, small⟩
    · exact .inl simulator
    · exact .inr ⟨small src isSource, by omega⟩
  · rcases supplied.apart src isSource with before | behind
    · exact .inl (by omega)
    · exact .inr (by omega)

/-- A preload is the loop on the command that the neuron keeps. -/
theorem preloadStep_of_loop (lawful : ops.Lawful) (encodes : p.Encodes make) (wide : p.Wide)
    (positive : 0 < p.bytes) (supplied : Supplied platform p dst sources)
    (confined : Confined p dst rounds) (here : sources[i]? = some src)
    (cached : OnlyCaches make (cache state.1)) {set : Option CopyCmdbuf → FrameNeuron}
    (holds : ∀ cmdbuf, cache (set cmdbuf) = cmdbuf)
    (kept : ∀ cmdbuf, OnlyCaches make cmdbuf → keeps (set cmdbuf))
    {ended : Int × Option CopyCmdbuf × Mem}
    (loop : preloadLoop ops platform make src (dst + i * p.bytes) (List.ofFn (rounds i))
      cviRcSuccess (cache state.1) state.2 = ended) :
    PreloadStep keeps cache (dst + i * p.bytes) p.bytes (p.value src) (rounds i) state
      (ended.1, set ended.2.1, ended.2.2) := by
  obtain ⟨reached, apart⟩ := supplied.at positive here
  have inRounds : ∀ round ∈ List.ofFn (rounds i), ∃ k, rounds i k = round :=
    fun round isRound => List.mem_ofFn.mp isRound
  have ends : LoopEnds (dst + i * p.bytes) p.bytes (p.value src) (List.ofFn (rounds i))
      cviRcSuccess (cache state.1) state.2 ended := by
    rw [← loop]
    apply preloadLoop_ends encodes lawful wide reached apart
    · intro round isRound
      obtain ⟨k, rfl⟩ := inRounds round isRound
      exact confined i k
    · exact cached
  have only : OnlyCaches make ended.2.1 := by
    rw [← loop]
    exact preloadLoop_caches _ cached _
  refine ⟨kept _ only, ends.outside, ?_, ?_⟩
  · intro success command
    rw [holds]
    apply ends.success success
    rcases command with before | ⟨k, jit⟩
    · exact .inr (.inl ⟨before, by simp⟩)
    · exact .inr (.inr ⟨rounds i k, List.mem_ofFn.mpr ⟨k, rfl⟩, jit⟩)
  · intro none idle
    rw [holds]
    rw [none, preloadLoop_idle] at loop
    · rw [← loop]
      exact ⟨rfl, rfl⟩
    · intro round isRound
      obtain ⟨k, rfl⟩ := inRounds round isRound
      exact idle k

/-- A neuron that calls have used: the same images at the same place, with commands of its own. -/
structure Fed (ops : CopyOps) (n n' : FrameNeuron) : Prop where
  like : n.Like n'
  cached : n'.Cached ops
  paddr : n'.paddr = n.paddr

variable {n n' : FrameNeuron}

/-- Another command for channels. -/
theorem Fed.setChannel (fed : Fed ops n n') {cmdbuf : Option CopyCmdbuf}
    (only : OnlyCaches (n.channelCopy ops) cmdbuf) :
    Fed ops n { n' with channelPreloadCmdbuf := cmdbuf } := by
  obtain ⟨like, cached, paddr⟩ := fed
  have like' : n.Like { n' with channelPreloadCmdbuf := cmdbuf } :=
    ⟨like.shape, like.fmt, like.geometry, like.aligned, like.packed⟩
  exact ⟨like', like'.cached_iff.mpr ⟨only, (like.cached_iff.mp cached).2⟩, paddr⟩

/-- Another command for frames. -/
theorem Fed.setFrame (fed : Fed ops n n') {cmdbuf : Option CopyCmdbuf}
    (only : OnlyCaches (if n.aligned then n.wholeCopy ops else n.frameCopy ops) cmdbuf) :
    Fed ops n { n' with framePreloadCmdbuf := cmdbuf } := by
  obtain ⟨like, cached, paddr⟩ := fed
  have like' : n.Like { n' with framePreloadCmdbuf := cmdbuf } :=
    ⟨like.shape, like.fmt, like.geometry, like.aligned, like.packed⟩
  exact ⟨like', like'.cached_iff.mpr ⟨(like.cached_iff.mp cached).1, only⟩, paddr⟩

theorem Fed.isPacked (fed : Fed ops n n') : Fed ops n n'.isPacked.1 := by
  obtain ⟨like, cached, paddr⟩ := fed
  have like' := like.trans (FrameNeuron.isPacked_like n')
  exact ⟨like', like'.cached_iff.mpr (like.cached_iff.mp cached), paddr⟩

/-- Every preload keeps the neuron, whatever happens. -/
theorem Fed.preloadChannel (fed : Fed ops n state.1) (rounds : Fin 3 → Round) (i src : Nat) :
    Fed ops n (FrameNeuron.preloadChannelAndCompact ops platform rounds i src state).2.1 := by
  have packed := fed.isPacked
  have only (dst : Nat) : OnlyCaches (n.channelCopy ops)
      (preloadLoop ops platform (state.1.isPacked.1.channelCopy ops) src dst (List.ofFn rounds)
        cviRcSuccess state.1.isPacked.1.channelPreloadCmdbuf state.2).2.1 := by
    rw [packed.like.channelCopy_eq]
    exact preloadLoop_caches _ (packed.like.cached_iff.mp packed.cached).1 _
  exact packed.setChannel (only _)

theorem Fed.preloadFrame (fed : Fed ops n state.1) (unaligned : n.aligned = false)
    (rounds : Fin 3 → Round) (i src : Nat) :
    Fed ops n (FrameNeuron.preloadFrameAndCompact ops platform rounds i src state).2.1 := by
  have packed := fed.isPacked
  have cached := (packed.like.cached_iff.mp packed.cached).2
  have only (dst : Nat) :
      OnlyCaches (if n.aligned then n.wholeCopy ops else n.frameCopy ops)
        (preloadLoop ops platform (state.1.isPacked.1.frameCopy ops) src dst (List.ofFn rounds)
          cviRcSuccess state.1.isPacked.1.framePreloadCmdbuf state.2).2.1 := by
    rw [unaligned] at cached ⊢
    rw [packed.like.frameCopy_eq]
    exact preloadLoop_caches _ cached _
  exact packed.setFrame (only _)

theorem Fed.preload (fed : Fed ops n state.1) (aligned : n.aligned = true)
    (rounds : Fin 3 → Round) (i src : Nat) :
    Fed ops n (FrameNeuron.preload ops platform rounds i src state).2.1 := by
  have cached := (fed.like.cached_iff.mp fed.cached).2
  have only (dst : Nat) :
      OnlyCaches (if n.aligned then n.wholeCopy ops else n.frameCopy ops)
        (preloadLoop ops platform (state.1.wholeCopy ops) src dst (List.ofFn rounds)
          cviRcSuccess state.1.framePreloadCmdbuf state.2).2.1 := by
    rw [aligned] at cached ⊢
    rw [fed.like.wholeCopy_eq]
    exact preloadLoop_caches _ cached _
  exact fed.setFrame (only _)

theorem channelRows_bytes_pos (valid : n.Valid) : 0 < n.channelRows.bytes :=
  Nat.mul_pos (Nat.mul_pos Nat.one_pos (FrameNeuron.rows_pos valid)) (FrameNeuron.width_pos valid)

theorem imageRows_bytes_pos (valid : n.Valid) : 0 < n.imageRows.bytes :=
  Nat.mul_pos (Nat.mul_pos (FrameNeuron.planes_pos valid) (FrameNeuron.rows_pos valid))
    (FrameNeuron.width_pos valid)

/-- The place of channel `i`: the product is a `uint32_t`. -/
theorem channel_place (valid : n.Valid) (fed : Fed ops n n') (less : i < n.planes) :
    n'.paddr + i * n'.rows * n'.width % 2 ^ 32 = n.paddr + i * n.channelRows.bytes := by
  have bytes : n.channelRows.bytes = n.rows * n.width := by
    rw [PaddedRows.bytes, FrameNeuron.channelRows, Nat.one_mul]
  have inside := Nat.mul_le_mul_right n.channelRows.bytes (Nat.le_of_lt less)
  rw [FrameNeuron.planes_channelRows_bytes valid] at inside
  have small := FrameNeuron.imageBytes_lt valid
  rw [fed.paddr, fed.like.rows_eq, fed.like.width_eq, Nat.mul_assoc, ← bytes,
    Nat.mod_eq_of_lt (by omega)]

/-- The place of image `i`. -/
theorem image_place (valid : n.Valid) (fed : Fed ops n n') (less : i < n.shape.n) :
    n'.paddr + i * n'.planes * n'.rows * n'.width % 2 ^ 32 = n.paddr + i * n.imageRows.bytes := by
  have bytes : n.imageRows.bytes = n.planes * (n.rows * n.width) := Nat.mul_assoc _ _ _
  have inside := Nat.mul_le_mul_right n.imageRows.bytes (Nat.le_of_lt less)
  have small : n.shape.n * n.imageRows.bytes < 2 ^ 31 := by
    rw [FrameNeuron.imageRows_bytes valid]
    exact valid.inRange
  rw [fed.paddr, fed.like.planes_eq, fed.like.rows_eq, fed.like.width_eq, Nat.mul_assoc,
    Nat.mul_assoc, ← bytes, Nat.mod_eq_of_lt (by omega)]

theorem preloadChannelAndCompact_step (lawful : ops.Lawful) (valid : n.Valid)
    (supplied : Supplied platform n.channelRows n.paddr sources)
    (confined : Confined n.channelRows n.paddr rounds) (here : sources[i]? = some src)
    (less : i < n.planes) (fed : Fed ops n state.1) :
    PreloadStep (Fed ops n) FrameNeuron.channelPreloadCmdbuf
      (n.paddr + i * n.channelRows.bytes) n.channelRows.bytes (n.channelRows.value src) (rounds i)
      state (FrameNeuron.preloadChannelAndCompact ops platform (rounds i) i src state) := by
  have packed := fed.isPacked
  have loop : preloadLoop ops platform (n.channelCopy ops) src
      (n.paddr + i * n.channelRows.bytes) (List.ofFn (rounds i)) cviRcSuccess
      state.1.channelPreloadCmdbuf state.2 =
      preloadLoop ops platform (state.1.isPacked.1.channelCopy ops) src
        (state.1.isPacked.1.paddr + i * state.1.isPacked.1.rows * state.1.isPacked.1.width % 2 ^ 32)
        (List.ofFn (rounds i)) cviRcSuccess state.1.isPacked.1.channelPreloadCmdbuf state.2 := by
    rw [packed.like.channelCopy_eq, channel_place valid packed less]
    rfl
  have set {cmdbuf : Option CopyCmdbuf} (only : OnlyCaches (n.channelCopy ops) cmdbuf) :=
    packed.setChannel only
  exact preloadStep_of_loop lawful (FrameNeuron.channelCopy_encodes ops n)
    (FrameNeuron.channelRows_wide valid) (channelRows_bytes_pos valid) supplied confined here
    (fed.like.cached_iff.mp fed.cached).1 (fun _ => rfl) (fun _ => set) loop

theorem preloadFrameAndCompact_step (lawful : ops.Lawful) (valid : n.Valid)
    (unaligned : n.aligned = false) (supplied : Supplied platform n.imageRows n.paddr sources)
    (confined : Confined n.imageRows n.paddr rounds) (here : sources[i]? = some src)
    (less : i < n.shape.n) (fed : Fed ops n state.1) :
    PreloadStep (Fed ops n) FrameNeuron.framePreloadCmdbuf
      (n.paddr + i * n.imageRows.bytes) n.imageRows.bytes (n.imageRows.value src) (rounds i)
      state (FrameNeuron.preloadFrameAndCompact ops platform (rounds i) i src state) := by
  have packed := fed.isPacked
  have loop : preloadLoop ops platform (n.frameCopy ops) src
      (n.paddr + i * n.imageRows.bytes) (List.ofFn (rounds i)) cviRcSuccess
      state.1.framePreloadCmdbuf state.2 =
      preloadLoop ops platform (state.1.isPacked.1.frameCopy ops) src
        (state.1.isPacked.1.paddr + i * state.1.isPacked.1.planes * state.1.isPacked.1.rows *
          state.1.isPacked.1.width % 2 ^ 32)
        (List.ofFn (rounds i)) cviRcSuccess state.1.isPacked.1.framePreloadCmdbuf state.2 := by
    rw [packed.like.frameCopy_eq, image_place valid packed less]
    rfl
  have only := (fed.like.cached_iff.mp fed.cached).2
  rw [unaligned] at only
  have set {cmdbuf : Option CopyCmdbuf} (only : OnlyCaches (n.frameCopy ops) cmdbuf) :
      Fed ops n { state.1.isPacked.1 with framePreloadCmdbuf := cmdbuf } := by
    apply packed.setFrame
    rw [unaligned]
    exact only
  exact preloadStep_of_loop lawful (FrameNeuron.frameCopy_encodes ops valid)
    (FrameNeuron.imageRows_wide valid) (imageRows_bytes_pos valid) supplied confined here
    only (fun _ => rfl) (fun _ => set) loop

end

end CviRuntime.Kernel
