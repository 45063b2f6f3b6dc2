import CviRuntime.Kernel.FrameRun
import CviRuntime.Lib.Run

/-!
# The calls that feed a tensor

A client feeds a tensor with whatever calls it likes, and some of them fail. The tensor keeps its
commands, so that the next call that returns success has taken its frames to their places.
-/

namespace CviRuntime.Kernel

open CviRuntime.BlockFill
open CviRuntime.Runtime (Platform toU32 cviRcSuccess cviRcDataErr preloadFrameSize
  preloadShape)

/-- The channels of a call. -/
def feedChannels (ops : CopyOps) (platform : Platform) (rounds : Nat → Fin 3 → Round)
    (paddrs : List Nat) (s : Feeding) : Int × FrameNeuron × Mem :=
  feedEach (fun i => FrameNeuron.preloadChannelAndCompact ops platform (rounds i) i) paddrs 0
    (s.neuron.isPacked.1, s.mem)

/-- The images of a call. -/
def feedImages (ops : CopyOps) (platform : Platform) (rounds : Nat → Fin 3 → Round)
    (paddrs : List Nat) (s : Feeding) : Int × FrameNeuron × Mem :=
  feedEach (fun i => FrameNeuron.preloadFrameAndCompact ops platform (rounds i) i) paddrs 0
    (s.neuron, s.mem)

/-- The frames of a call on an aligned tensor. -/
def feedWhole (ops : CopyOps) (platform : Platform) (rounds : Nat → Fin 3 → Round)
    (paddrs : List Nat) (s : Feeding) : Int × FrameNeuron × Mem :=
  feedEach (fun i => FrameNeuron.preload ops platform (rounds i) i) paddrs 0 (s.neuron, s.mem)

/-- The state after such a loop. -/
def Feeding.after (s : Feeding) (ended : Int × FrameNeuron × Mem) : Feeding :=
  ⟨ended.2.1, { s.tensor with device := true }, ended.2.2⟩

section

variable {ops : CopyOps} {platform : Platform} {s s' : Feeding}
  {rounds : Nat → Fin 3 → Round} {rc : Int}

/-- What `CVI_NN_SetTensorWithAlignedFrames` may do. -/
theorem alignedFrames_cases {framePaddrs : List Nat} {pixelFormat : NnPixel}
    (ran : cviNNSetTensorWithAlignedFrames ops platform rounds framePaddrs pixelFormat s =
      some (rc, s')) :
    framePaddrs.length ≤ s.tensor.shape.n ∧
      (s.tensor.aligned = false ∧ rc = (feedImages ops platform rounds framePaddrs s).1 ∧
        s' = s.after (feedImages ops platform rounds framePaddrs s) ∨
      s.tensor.aligned = true ∧ (∃ paddr, framePaddrs = [paddr] ∧ s.tensor.shape.n = 1 ∧
        rc = cviRcSuccess ∧ s' = cviNNSetTensorPhysicalAddr paddr s) ∨
      s.tensor.aligned = true ∧ (framePaddrs.length ≠ 1 ∨ s.tensor.shape.n ≠ 1) ∧
        rc = (feedWhole ops platform rounds framePaddrs s).1 ∧
        s' = s.after (feedWhole ops platform rounds framePaddrs s)) := by
  unfold cviNNSetTensorWithAlignedFrames at ran
  split at ran
  · cases ran
  · rename_i few
    refine ⟨Nat.le_of_not_lt few, ?_⟩
    dsimp only at ran
    split at ran
    · rename_i unaligned
      cases ran
      exact .inl ⟨unaligned, rfl, rfl⟩
    · rename_i aligned
      refine .inr ?_
      have aligned := Bool.eq_true_of_not_eq_false aligned
      split at ran
      · cases ran
      · split at ran
        · rename_i paddr
          split at ran
          · rename_i one
            cases ran
            exact .inl ⟨aligned, paddr, rfl, one, rfl, rfl⟩
          · rename_i more
            cases ran
            exact .inr ⟨aligned, .inr more, rfl, rfl⟩
        · rename_i other
          cases ran
          refine .inr ⟨aligned, .inl ?_, rfl, rfl⟩
          intro one
          obtain ⟨paddr, rfl⟩ := List.length_eq_one_iff.mp one
          exact other paddr rfl

/-- What `CVI_NN_SetTensorWithVideoFrame` may do. -/
theorem videoFrame_cases {frame : VideoFrame}
    (ran : cviNNSetTensorWithVideoFrame ops platform rounds frame s = some (rc, s')) :
    rc = cviRcDataErr ∧ s' = s ∨
      s.tensor.shape.n = 1 ∧ s.tensor.aligned = false ∧
        (∃ c, c = (if s.neuron.isPacked.2 then 1 else s.tensor.shape.c) ∧
          rc = (feedChannels ops platform rounds ((List.range c).map frame.pyaddr) s).1 ∧
          s' = s.after (feedChannels ops platform rounds ((List.range c).map frame.pyaddr) s)) ∨
      s.tensor.aligned = true ∧
        ∃ ret, cviNNSetTensorWithAlignedFrames ops platform rounds [frame.pyaddr 0] frame.type
          { s with tensor := { s.tensor with device := true } } = some (ret, s') := by
  unfold cviNNSetTensorWithVideoFrame at ran
  split at ran
  · cases ran
    exact .inl ⟨rfl, rfl⟩
  · refine .inr ?_
    split at ran
    · cases ran
    · rename_i one
      dsimp only at ran
      split at ran
      · rename_i unaligned
        refine .inl ⟨not_not.mp one, unaligned, ?_⟩
        generalize channels : (if s.neuron.isPacked.2 then 1 else s.tensor.shape.c) = c at ran ⊢
        split at ran
        · cases ran
        · cases ran
          exact ⟨c, rfl, rfl, rfl⟩
      · rename_i aligned
        obtain ⟨⟨ret, after⟩, called, same⟩ := Option.bind_eq_some_iff.mp ran
        cases same
        exact .inr ⟨Bool.eq_true_of_not_eq_false aligned, ret, called⟩

/-- What `CVI_NN_FeedTensorWithFrames` may do. -/
theorem frames_cases {type : NnPixel} {channelPaddrs : List Nat} {height width : Nat}
    (ran : cviNNFeedTensorWithFrames ops platform rounds type channelPaddrs height width s =
      some (rc, s')) :
    rc = cviRcDataErr ∧ s' = { s with neuron := s.neuron.isPacked.1 } ∨
      s.tensor.shape.n = 1 ∧ s.tensor.aligned = false ∧
        channelPaddrs.length ≤ (if s.neuron.isPacked.2 then 1 else s.tensor.shape.c) ∧
        (rc = cviRcSuccess → (feedChannels ops platform rounds channelPaddrs s).1 = cviRcSuccess) ∧
        s' = s.after (feedChannels ops platform rounds channelPaddrs s) ∨
      s.tensor.aligned = true ∧
        ∃ paddr ret, cviNNSetTensorWithAlignedFrames ops platform rounds [paddr] type
          { s with neuron := s.neuron.isPacked.1, tensor := { s.tensor with device := true } } =
            some (ret, s') := by
  unfold cviNNFeedTensorWithFrames at ran
  dsimp only at ran
  generalize (if s.neuron.isPacked.2 = true then (s.tensor.shape.c, s.tensor.shape.h)
    else (s.tensor.shape.h, s.tensor.shape.w)) = size at ran
  split at ran
  · cases ran
    exact .inl ⟨rfl, rfl⟩
  · refine .inr ?_
    split at ran
    · cases ran
    · rename_i one
      split at ran
      · rename_i unaligned
        generalize (if s.neuron.isPacked.2 then 1 else s.tensor.shape.c) = c at ran ⊢
        split at ran
        · cases ran
        · rename_i few
          refine .inl ⟨not_not.mp one, unaligned, Nat.le_of_not_lt few, ?_, ?_⟩
          · cases ran
            intro success
            by_contra failed
            rw [feedChannels] at failed
            rw [if_pos failed] at success
            exact absurd success (by decide)
          · cases ran
            rfl
      · rename_i aligned
        obtain ⟨paddr, -, ran⟩ := Option.bind_eq_some_iff.mp ran
        obtain ⟨⟨ret, after⟩, called, same⟩ := Option.bind_eq_some_iff.mp ran
        cases same
        exact .inr ⟨Bool.eq_true_of_not_eq_false aligned, paddr, ret, called⟩

end

/-- What the calls keep of the tensor `n` that was exported. -/
structure FedTensor (ops : CopyOps) (n : FrameNeuron) (s : Feeding) : Prop where
  like : n.Like s.neuron
  cached : s.neuron.Cached ops
  shape : s.tensor.shape = n.shape
  aligned : s.tensor.aligned = n.aligned

section

variable {ops : CopyOps} {platform : Platform} {n : FrameNeuron} {s s' : Feeding}
  {rounds : Nat → Fin 3 → Round} {rc : Int}

theorem FedTensor.fed (fed : FedTensor ops n s) : Fed ops s.neuron s.neuron :=
  ⟨FrameNeuron.Like.refl _, fed.cached, rfl⟩

/-- A call keeps the tensor when it keeps the neuron. -/
theorem FedTensor.of_fed (fed : FedTensor ops n s) {neuron : FrameNeuron} {tensor : FrameTensor}
    {mem : Mem} (kept : Fed ops s.neuron neuron) (shape : tensor.shape = s.tensor.shape)
    (aligned : tensor.aligned = s.tensor.aligned) : FedTensor ops n ⟨neuron, tensor, mem⟩ :=
  ⟨fed.like.trans kept.like, kept.cached, shape.trans fed.shape, aligned.trans fed.aligned⟩

theorem FedTensor.new (ops : CopyOps) (n : FrameNeuron) (mem : Mem)
    (fresh : n.channelPreloadCmdbuf = none ∧ n.framePreloadCmdbuf = none) :
    FedTensor ops n ⟨n, exportTensorInfo n, mem⟩ where
  like := FrameNeuron.Like.refl n
  cached := by
    refine ⟨?_, ?_⟩
    · rw [fresh.1]
      exact onlyCaches_none _
    · rw [fresh.2]
      exact onlyCaches_none _
  shape := rfl
  aligned := rfl

theorem FedTensor.physicalAddr (fed : FedTensor ops n s) (paddr : Nat) :
    FedTensor ops n (cviNNSetTensorPhysicalAddr paddr s) := by
  have like : s.neuron.Like (s.neuron.updateBaseAddr paddr) := by
    unfold FrameNeuron.updateBaseAddr
    split
    · exact FrameNeuron.Like.refl _
    · exact ⟨rfl, rfl, rfl, rfl, rfl⟩
  have cached : (s.neuron.updateBaseAddr paddr).Cached ops := by
    rw [like.cached_iff]
    have same := (FrameNeuron.Like.refl s.neuron).cached_iff.mp fed.cached
    unfold FrameNeuron.updateBaseAddr
    split
    · exact same
    · exact same
  exact ⟨fed.like.trans like, cached, fed.shape, fed.aligned⟩

theorem FedTensor.after (fed : FedTensor ops n s) {ended : Int × FrameNeuron × Mem}
    (kept : Fed ops s.neuron ended.2.1) : FedTensor ops n (s.after ended) :=
  fed.of_fed kept rfl rfl

theorem FedTensor.channels (fed : FedTensor ops n s) (paddrs : List Nat) :
    Fed ops s.neuron (feedChannels ops platform rounds paddrs s).2.1 := by
  apply feedEach_keeps
  · intro i src state kept
    exact kept.preloadChannel (rounds i) i src
  · exact fed.fed.isPacked

theorem FedTensor.images (fed : FedTensor ops n s) (unaligned : s.tensor.aligned = false)
    (paddrs : List Nat) : Fed ops s.neuron (feedImages ops platform rounds paddrs s).2.1 := by
  have same : s.tensor.aligned = s.neuron.aligned := fed.aligned.trans fed.like.aligned.symm
  apply feedEach_keeps
  · intro i src state kept
    exact kept.preloadFrame (same.symm.trans unaligned) (rounds i) i src
  · exact fed.fed

theorem FedTensor.whole (fed : FedTensor ops n s) (aligned : s.tensor.aligned = true)
    (paddrs : List Nat) : Fed ops s.neuron (feedWhole ops platform rounds paddrs s).2.1 := by
  have same : s.tensor.aligned = s.neuron.aligned := fed.aligned.trans fed.like.aligned.symm
  apply feedEach_keeps
  · intro i src state kept
    exact kept.preload (same.symm.trans aligned) (rounds i) i src
  · exact fed.fed

theorem FedTensor.alignedFrames (fed : FedTensor ops n s) {framePaddrs : List Nat}
    {pixelFormat : NnPixel}
    (ran : cviNNSetTensorWithAlignedFrames ops platform rounds framePaddrs pixelFormat s =
      some (rc, s')) : FedTensor ops n s' := by
  obtain ⟨-, ⟨unaligned, -, rfl⟩ | ⟨-, paddr, -, -, -, rfl⟩ | ⟨aligned, -, -, rfl⟩⟩ :=
    alignedFrames_cases ran
  · exact fed.after (fed.images unaligned _)
  · exact fed.physicalAddr paddr
  · exact fed.after (fed.whole aligned _)

theorem FedTensor.device (fed : FedTensor ops n s) :
    FedTensor ops n { s with tensor := { s.tensor with device := true } } :=
  ⟨fed.like, fed.cached, fed.shape, fed.aligned⟩

theorem FedTensor.isPacked (fed : FedTensor ops n s) :
    FedTensor ops n { s with neuron := s.neuron.isPacked.1 } :=
  fed.of_fed fed.fed.isPacked rfl rfl

theorem FedTensor.videoFrame (fed : FedTensor ops n s) {frame : VideoFrame}
    (ran : cviNNSetTensorWithVideoFrame ops platform rounds frame s = some (rc, s')) :
    FedTensor ops n s' := by
  obtain ⟨-, rfl⟩ | ⟨-, -, c, -, -, rfl⟩ | ⟨-, ret, called⟩ := videoFrame_cases ran
  · exact fed
  · exact fed.after (fed.channels _)
  · exact fed.device.alignedFrames called

theorem FedTensor.frames (fed : FedTensor ops n s) {type : NnPixel} {channelPaddrs : List Nat}
    {height width : Nat}
    (ran : cviNNFeedTensorWithFrames ops platform rounds type channelPaddrs height width s =
      some (rc, s')) : FedTensor ops n s' := by
  obtain ⟨-, rfl⟩ | ⟨-, -, -, -, rfl⟩ | ⟨-, paddr, ret, called⟩ := frames_cases ran
  · exact fed.isPacked
  · exact fed.after (fed.channels _)
  · exact fed.isPacked.device.alignedFrames called

/-- Every call keeps the tensor, whatever it returns. -/
theorem feedStep_keeps {call : (Nat → Fin 3 → Round) × Feed} (fed : FedTensor ops n s)
    (step : feedStep ops platform s call = some s') : FedTensor ops n s' := by
  obtain ⟨⟨rc, after⟩, ran, rfl⟩ := Option.map_eq_some_iff.mp step
  obtain ⟨rounds, feed⟩ := call
  cases feed with
  | physicalAddr paddr =>
    cases ran
    exact fed.physicalAddr paddr
  | alignedFrames framePaddrs pixelFormat => exact fed.alignedFrames ran
  | videoFrame frame => exact fed.videoFrame ran
  | frames type channelPaddrs height width => exact fed.frames ran

/-- And so does every run of calls on a tensor that was exported. -/
theorem run_keeps {calls : List ((Nat → Fin 3 → Round) × Feed)} {mem : Mem}
    (fresh : n.channelPreloadCmdbuf = none ∧ n.framePreloadCmdbuf = none)
    (ran : Run.run (feedStep ops platform) ⟨n, exportTensorInfo n, mem⟩ calls = some s) :
    FedTensor ops n s :=
  Run.run_preserves (fun _ _ _ fed step => feedStep_keeps fed step)
    (FedTensor.new ops n mem fresh) ran

/-! ## What a call does to the memory -/

theorem FrameNeuron.Like.valid {n' : FrameNeuron} (like : n.Like n') (valid : n.Valid) :
    n'.Valid where
  nPos := by rw [like.shape]; exact valid.nPos
  cPos := by rw [like.shape]; exact valid.cPos
  hPos := by rw [like.shape]; exact valid.hPos
  wPos := by rw [like.shape]; exact valid.wPos
  inRange := by rw [like.shape]; exact valid.inRange
  alignPos := by rw [like.geometry]; exact valid.alignPos
  padded := by
    rw [like.planes_eq, like.rows_eq, like.width_eq, like.geometry]
    exact valid.padded

theorem FrameNeuron.Like.channelRows_eq {n' : FrameNeuron} (like : n.Like n') :
    n'.channelRows = n.channelRows := by
  rw [FrameNeuron.channelRows, FrameNeuron.channelRows, like.rows_eq, like.width_eq,
    like.hstride_eq]

theorem FrameNeuron.Like.imageRows_eq {n' : FrameNeuron} (like : n.Like n') :
    n'.imageRows = n.imageRows := by
  rw [FrameNeuron.imageRows, FrameNeuron.imageRows, like.planes_eq, like.rows_eq, like.width_eq,
    like.hstride_eq]

/-- A loop of a call: it changes only the places of its frames, and with success they have been
    filled. -/
structure LoopFills (p : PaddedRows) (dst : Nat) (cmdbuf : Option CopyCmdbuf)
    (rounds : Nat → Fin 3 → Round) (sources : List Nat) (mem : Mem)
    (ended : Int × FrameNeuron × Mem) : Prop where
  outside : AgreeOutside dst (sources.length * p.bytes) mem ended.2.2
  filled : ended.1 = cviRcSuccess →
    Filled dst p.bytes (fun i => p.value (sources.getD i 0)) (Ready cmdbuf rounds) sources.length
      mem ended.2.2

/-- What one preload does, a call does for all its frames. -/
theorem loopFills_of_steps {keeps : FrameNeuron → Prop} {cache : FrameNeuron → Option CopyCmdbuf}
    {p : PaddedRows} {dst : Nat} {sources : List Nat}
    {preload : Nat → Nat → FrameNeuron × Mem → Int × FrameNeuron × Mem}
    (steps : ∀ i src state, sources[i]? = some src → keeps state.1 →
      PreloadStep keeps cache (dst + i * p.bytes) p.bytes (p.value src) (rounds i) state
        (preload i src state))
    (supplied : Supplied platform p dst sources) (wide : p.Wide) (start : FrameNeuron × Mem)
    (kept : keeps start.1) :
    LoopFills p dst (cache start.1) rounds sources start.2 (feedEach preload sources 0 start) where
  outside := feedEach_outside steps sources 0 rfl start kept
  filled success := feedEach_filled steps (supplied.reads wide) kept success

theorem FedTensor.fill_channels (fed : FedTensor ops n s) (lawful : ops.Lawful)
    (valid : n.Valid) {paddrs : List Nat} (few : paddrs.length ≤ n.planes)
    (supplied : Supplied platform n.channelRows s.neuron.paddr paddrs)
    (confined : Confined n.channelRows s.neuron.paddr rounds) :
    LoopFills n.channelRows s.neuron.paddr s.neuron.channelPreloadCmdbuf rounds paddrs
      s.mem (feedChannels ops platform rounds paddrs s) := by
  have validNow := fed.like.valid valid
  rw [← fed.like.channelRows_eq] at supplied confined ⊢
  rw [← fed.like.planes_eq] at few
  have steps : ∀ i src (state : FrameNeuron × Mem), paddrs[i]? = some src →
      Fed ops s.neuron state.1 → PreloadStep (Fed ops s.neuron) FrameNeuron.channelPreloadCmdbuf
        (s.neuron.paddr + i * s.neuron.channelRows.bytes) s.neuron.channelRows.bytes
        (s.neuron.channelRows.value src) (rounds i) state
        (FrameNeuron.preloadChannelAndCompact ops platform (rounds i) i src state) := by
    intro i src state here kept
    have less := (List.getElem?_eq_some_iff.mp here).1
    exact preloadChannelAndCompact_step lawful validNow supplied confined here
      (Nat.lt_of_lt_of_le less few) kept
  exact loopFills_of_steps steps supplied (FrameNeuron.channelRows_wide validNow)
    (s.neuron.isPacked.1, s.mem) fed.fed.isPacked

theorem FedTensor.fill_images (fed : FedTensor ops n s) (lawful : ops.Lawful)
    (valid : n.Valid) (unaligned : s.tensor.aligned = false) {paddrs : List Nat}
    (few : paddrs.length ≤ n.shape.n)
    (supplied : Supplied platform n.imageRows s.neuron.paddr paddrs)
    (confined : Confined n.imageRows s.neuron.paddr rounds) :
    LoopFills n.imageRows s.neuron.paddr s.neuron.framePreloadCmdbuf rounds paddrs
      s.mem (feedImages ops platform rounds paddrs s) := by
  have same : s.tensor.aligned = s.neuron.aligned := fed.aligned.trans fed.like.aligned.symm
  have validNow := fed.like.valid valid
  rw [← fed.like.imageRows_eq] at supplied confined ⊢
  rw [← fed.like.shape] at few
  have steps : ∀ i src (state : FrameNeuron × Mem), paddrs[i]? = some src →
      Fed ops s.neuron state.1 → PreloadStep (Fed ops s.neuron) FrameNeuron.framePreloadCmdbuf
        (s.neuron.paddr + i * s.neuron.imageRows.bytes) s.neuron.imageRows.bytes
        (s.neuron.imageRows.value src) (rounds i) state
        (FrameNeuron.preloadFrameAndCompact ops platform (rounds i) i src state) := by
    intro i src state here kept
    have less := (List.getElem?_eq_some_iff.mp here).1
    exact preloadFrameAndCompact_step lawful validNow (same.symm.trans unaligned) supplied confined
      here (Nat.lt_of_lt_of_le less few) kept
  exact loopFills_of_steps steps supplied (FrameNeuron.imageRows_wide validNow)
    (s.neuron, s.mem) fed.fed

/-- The channels of a call are in the first image. -/
theorem channels_inside (valid : n.Valid) {paddrs : List Nat} (few : paddrs.length ≤ n.planes) :
    paddrs.length * n.channelRows.bytes ≤ n.shape.n * n.imageBytes := by
  have inside := Nat.mul_le_mul_right n.channelRows.bytes few
  rw [FrameNeuron.planes_channelRows_bytes valid] at inside
  exact inside.trans (Nat.le_mul_of_pos_left _ valid.nPos)

theorem images_inside (valid : n.Valid) {paddrs : List Nat} (few : paddrs.length ≤ n.shape.n) :
    paddrs.length * n.imageRows.bytes ≤ n.shape.n * n.imageBytes := by
  rw [FrameNeuron.imageRows_bytes valid]
  exact Nat.mul_le_mul_right _ few

/-- Such a loop changes no byte outside of the tensor. -/
theorem LoopFills.fits {p : PaddedRows} {dst total : Nat} {cmdbuf : Option CopyCmdbuf}
    {sources : List Nat} {mem : Mem} {ended : Int × FrameNeuron × Mem}
    (fills : LoopFills p dst cmdbuf rounds sources mem ended)
    (inside : sources.length * p.bytes ≤ total) : AgreeOutside dst total mem ended.2.2 :=
  fills.outside.mono (Nat.le_refl dst) (Nat.add_le_add_left inside dst)

end

/-- The addresses that a call takes its data from, for the tensor `n`. -/
def Feed.sources (n : FrameNeuron) : Feed → List Nat
  | .physicalAddr _ => []
  | .alignedFrames framePaddrs _ => framePaddrs
  | .videoFrame frame => (List.range n.planes).map frame.pyaddr
  | .frames _ channelPaddrs _ _ => channelPaddrs

/-- What it takes from each: an image, or one of its channels. -/
def Feed.rows (n : FrameNeuron) : Feed → PaddedRows
  | .alignedFrames _ _ => n.imageRows
  | _ => n.channelRows

/-- The command that it uses. -/
def Feed.cache (n : FrameNeuron) : Feed → Option CopyCmdbuf
  | .alignedFrames _ _ => n.framePreloadCmdbuf
  | _ => n.channelPreloadCmdbuf

section

variable {ops : CopyOps} {platform : Platform} {n : FrameNeuron} {s s' : Feeding}
  {rounds : Nat → Fin 3 → Round} {rc : Int}

theorem FedTensor.planes_eq (fed : FedTensor ops n s) :
    (if s.neuron.isPacked.2 then 1 else s.tensor.shape.c) = s.neuron.planes := by
  rw [FrameNeuron.planes, fed.shape, fed.like.shape]

/-- Nothing is filled, and nothing happens. -/
theorem fills_of_same {p : PaddedRows} {dst total : Nat} {cmdbuf : Option CopyCmdbuf}
    {sources : List Nat} {mem : Mem} (failed : rc ≠ cviRcSuccess ∨ sources = []) :
    AgreeOutside dst total mem mem ∧ (rc = cviRcSuccess →
      Filled dst p.bytes (fun i => p.value (sources.getD i 0)) (Ready cmdbuf rounds)
        sources.length mem mem) := by
  refine ⟨AgreeOutside.refl _ _ _, ?_⟩
  intro success
  rcases failed with failed | rfl
  · exact absurd success failed
  · exact Filled.zero _ _ _ _ _

/-- A client feeds an unaligned tensor with whatever calls it likes, then with one more. Whatever
    this call returns, it changes no byte outside of the tensor; and if it returns success, then
    every frame that there was a command for is in its place without the padding of its rows, and
    everything else is as it was. -/
theorem feed_fills (lawful : ops.Lawful) (valid : n.Valid) (unaligned : n.aligned = false)
    (fresh : n.channelPreloadCmdbuf = none ∧ n.framePreloadCmdbuf = none)
    {calls : List ((Nat → Fin 3 → Round) × Feed)} {mem : Mem}
    (ran : Run.run (feedStep ops platform) ⟨n, exportTensorInfo n, mem⟩ calls = some s)
    {feed : Feed} (call : feed.run ops platform rounds s = some (rc, s'))
    (supplied : Supplied platform (feed.rows n) s.neuron.paddr (feed.sources n))
    (confined : Confined (feed.rows n) s.neuron.paddr rounds) :
    AgreeOutside s.neuron.paddr (n.shape.n * n.imageBytes) s.mem s'.mem ∧
      (rc = cviRcSuccess →
        Filled s.neuron.paddr (feed.rows n).bytes
          (fun i => (feed.rows n).value ((feed.sources n).getD i 0))
          (Ready (feed.cache s.neuron) rounds) (feed.sources n).length s.mem s'.mem) := by
  have fed := run_keeps fresh ran
  have like := fed.like
  have tensorUnaligned : s.tensor.aligned = false := fed.aligned.trans unaligned
  have notAligned : s.tensor.aligned ≠ true := by
    rw [tensorUnaligned]
    decide
  cases feed with
  | physicalAddr paddr =>
    cases call
    exact fills_of_same (.inr rfl)
  | alignedFrames framePaddrs pixelFormat =>
    obtain ⟨few, ⟨-, rfl, rfl⟩ | ⟨aligned, -⟩ | ⟨aligned, -⟩⟩ := alignedFrames_cases call
    · rw [fed.shape] at few
      have fills := fed.fill_images lawful valid tensorUnaligned few supplied confined
      exact ⟨fills.fits (images_inside valid few), fills.filled⟩
    · exact absurd aligned notAligned
    · exact absurd aligned notAligned
  | videoFrame frame =>
    obtain ⟨rfl, rfl⟩ | ⟨-, -, c, cEq, rfl, rfl⟩ | ⟨aligned, -⟩ := videoFrame_cases call
    · exact fills_of_same (.inl (by decide))
    · rw [fed.planes_eq, like.planes_eq] at cEq
      subst cEq
      have few : ((List.range n.planes).map frame.pyaddr).length ≤ n.planes := by
        rw [List.length_map, List.length_range]
      have fills := fed.fill_channels lawful valid few supplied confined
      exact ⟨fills.fits (channels_inside valid few), fills.filled⟩
    · exact absurd aligned notAligned
  | frames type channelPaddrs height width =>
    obtain ⟨rfl, rfl⟩ | ⟨-, -, few, success, rfl⟩ | ⟨aligned, -⟩ := frames_cases call
    · exact fills_of_same (.inl (by decide))
    · rw [fed.planes_eq, like.planes_eq] at few
      have fills := fed.fill_channels lawful valid few supplied confined
      exact ⟨fills.fits (channels_inside valid few), fun ok => fills.filled (success ok)⟩
    · exact absurd aligned notAligned

/-- Two by two pixels of three channels; the rows of a frame have 32 bytes. -/
def planarNeuron : FrameNeuron where
  shape := ⟨1, 3, 2, 2⟩
  fmt := .uint8
  pixelFormat := .named .rgbPlanar
  aligned := false
  geometry := ⟨32, 32, 64, 12⟩
  baseAddrIndex := 3
  paddr := 4096
  channelPreloadCmdbuf := none
  framePreloadCmdbuf := none

theorem planarNeuron_valid : planarNeuron.Valid where
  nPos := Nat.one_pos
  cPos := Nat.succ_pos 2
  hPos := Nat.two_pos
  wPos := Nat.two_pos
  inRange := by decide
  alignPos := by decide
  padded := by decide

/-- Every run succeeds. -/
def goodRounds : Nat → Fin 3 → Round := fun _ _ => ⟨true, 0, id⟩

theorem goodRounds_confined (p : PaddedRows) (dst : Nat) : Confined p dst goodRounds :=
  fun _ _ mem => AgreeOutside.refl _ _ mem

def planarFrame : VideoFrame := ⟨.planar, ⟨1, 3, 2, 2⟩, fun i => 512 + 64 * i⟩

/-- The tensor is moved and fed, and fed again. -/
theorem feed_fills_planar :
    ∃ s s', Run.run (feedStep copyOps .cmodel)
        ⟨planarNeuron, exportTensorInfo planarNeuron, fun a => UInt8.ofNat a⟩
        [(goodRounds, .physicalAddr 8192), (goodRounds, .videoFrame planarFrame)] = some s ∧
      Feed.run copyOps .cmodel goodRounds s (.videoFrame planarFrame) = some (cviRcSuccess, s') ∧
      Filled 8192 4
        (fun i => planarNeuron.channelRows.value
          (((List.range 3).map planarFrame.pyaddr).getD i 0))
        (Ready s.neuron.channelPreloadCmdbuf goodRounds) 3 s.mem s'.mem :=
  ⟨_, _, rfl, rfl,
    (@feed_fills copyOps .cmodel planarNeuron _ _ goodRounds _ copyOps_lawful planarNeuron_valid
      rfl ⟨rfl, rfl⟩ [(goodRounds, .physicalAddr 8192), (goodRounds, .videoFrame planarFrame)]
      (fun a => UInt8.ofNat a) rfl (.videoFrame planarFrame) rfl ⟨.inl rfl, by decide⟩
      (goodRounds_confined _ _)).2 rfl⟩

end

/-! ## Aligned tensors -/

/-- The size of an aligned tensor is that of its frames, which consist of whole rows. -/
structure FrameNeuron.Framed (n : FrameNeuron) (frame : Nat) : Prop where
  nPos : 0 < n.shape.n
  framePos : 0 < frame
  alignPos : 0 < n.geometry.vpssWAlign
  alignSmall : n.geometry.vpssWAlign < 2 ^ 31
  rows : n.geometry.vpssWAlign ∣ frame
  whole : n.geometry.size = n.shape.n * frame
  small : n.shape.n * frame < 2 ^ 31

section

variable {ops : CopyOps} {platform : Platform} {n n' : FrameNeuron} {frame i src : Nat}
  {sources : List Nat} {s s' : Feeding} {rounds : Nat → Fin 3 → Round} {rc : Int}
  {state : FrameNeuron × Mem}

theorem FrameNeuron.Like.framed (like : n.Like n') (framed : n.Framed frame) :
    n'.Framed frame := by
  obtain ⟨nPos, framePos, alignPos, alignSmall, rows, whole, small⟩ := framed
  rw [← like.shape] at nPos whole small
  rw [← like.geometry] at alignPos alignSmall rows whole
  exact ⟨nPos, framePos, alignPos, alignSmall, rows, whole, small⟩

theorem FrameNeuron.Like.frameRows_eq (like : n.Like n') : n'.frameRows = n.frameRows := by
  rw [FrameNeuron.frameRows, FrameNeuron.frameRows, like.geometry, like.shape]

theorem preloadFrameSize_eq (framed : n.Framed frame) :
    preloadFrameSize n.geometry n.shape.n = frame :=
  Runtime.preloadFrameSize_of_mul framed.nPos framed.framePos framed.alignPos framed.rows
    framed.whole framed.small

theorem frameRows_bytes (framed : n.Framed frame) : n.frameRows.bytes = frame := by
  rw [PaddedRows.bytes, FrameNeuron.frameRows, Nat.one_mul]
  exact Runtime.preloadShape_of_dvd (preloadFrameSize_eq framed) framed.alignPos
    framed.alignSmall framed.rows

theorem frameRows_wide (framed : n.Framed frame) : n.frameRows.Wide := by
  have pos := framed.alignPos
  have small := framed.alignSmall
  refine ⟨?_, Nat.le_refl _⟩
  rw [FrameNeuron.frameRows, preloadShape, toU32]
  dsimp only
  omega

/-- The rows of a frame are one behind the other already. -/
theorem frameRows_value (n : FrameNeuron) (src : Nat) :
    n.frameRows.value src = fun mem o => mem (src + o) := by
  funext mem o
  rw [PaddedRows.value, FrameNeuron.frameRows, Nat.add_assoc, Nat.div_add_mod']

theorem preload_step (lawful : ops.Lawful) (framed : n.Framed frame) (aligned : n.aligned = true)
    (supplied : Supplied platform n.frameRows n.paddr sources)
    (confined : Confined n.frameRows n.paddr rounds) (here : sources[i]? = some src)
    (less : i < n.shape.n) (fed : Fed ops n state.1) :
    PreloadStep (Fed ops n) FrameNeuron.framePreloadCmdbuf
      (n.paddr + i * n.frameRows.bytes) n.frameRows.bytes (n.frameRows.value src) (rounds i)
      state (FrameNeuron.preload ops platform (rounds i) i src state) := by
  have place : state.1.paddr + i * preloadFrameSize state.1.geometry state.1.shape.n % 2 ^ 32 =
      n.paddr + i * n.frameRows.bytes := by
    have inside := Nat.mul_le_mul_right frame (Nat.le_of_lt less)
    have small := framed.small
    rw [frameRows_bytes framed, preloadFrameSize_eq (fed.like.framed framed), fed.paddr,
      Nat.mod_eq_of_lt (by omega)]
  have loop : preloadLoop ops platform (n.wholeCopy ops) src
      (n.paddr + i * n.frameRows.bytes) (List.ofFn (rounds i)) cviRcSuccess
      state.1.framePreloadCmdbuf state.2 =
      preloadLoop ops platform (state.1.wholeCopy ops) src
        (state.1.paddr + i * preloadFrameSize state.1.geometry state.1.shape.n % 2 ^ 32)
        (List.ofFn (rounds i)) cviRcSuccess state.1.framePreloadCmdbuf state.2 := by
    rw [fed.like.wholeCopy_eq, place]
  have positive : 0 < n.frameRows.bytes := by
    rw [frameRows_bytes framed]
    exact framed.framePos
  have only := (fed.like.cached_iff.mp fed.cached).2
  rw [aligned] at only
  have set {cmdbuf : Option CopyCmdbuf} (only : OnlyCaches (n.wholeCopy ops) cmdbuf) :
      Fed ops n { state.1 with framePreloadCmdbuf := cmdbuf } := by
    apply fed.setFrame
    rw [aligned]
    exact only
  exact preloadStep_of_loop lawful (FrameNeuron.wholeCopy_encodes lawful n)
    (frameRows_wide framed) positive supplied confined here only (fun _ => rfl) (fun _ => set) loop

theorem FedTensor.fill_whole (fed : FedTensor ops n s) (lawful : ops.Lawful)
    (framed : n.Framed frame) (aligned : s.tensor.aligned = true) {paddrs : List Nat}
    (few : paddrs.length ≤ n.shape.n)
    (supplied : Supplied platform n.frameRows s.neuron.paddr paddrs)
    (confined : Confined n.frameRows s.neuron.paddr rounds) :
    LoopFills n.frameRows s.neuron.paddr s.neuron.framePreloadCmdbuf rounds paddrs
      s.mem (feedWhole ops platform rounds paddrs s) := by
  have same : s.tensor.aligned = s.neuron.aligned := fed.aligned.trans fed.like.aligned.symm
  have framedNow := fed.like.framed framed
  rw [← fed.like.frameRows_eq] at supplied confined ⊢
  rw [← fed.like.shape] at few
  have steps : ∀ i src (state : FrameNeuron × Mem), paddrs[i]? = some src →
      Fed ops s.neuron state.1 → PreloadStep (Fed ops s.neuron) FrameNeuron.framePreloadCmdbuf
        (s.neuron.paddr + i * s.neuron.frameRows.bytes) s.neuron.frameRows.bytes
        (s.neuron.frameRows.value src) (rounds i) state
        (FrameNeuron.preload ops platform (rounds i) i src state) := by
    intro i src state here kept
    have less := (List.getElem?_eq_some_iff.mp here).1
    exact preload_step lawful framedNow (same.symm.trans aligned) supplied confined here
      (Nat.lt_of_lt_of_le less few) kept
  exact loopFills_of_steps steps supplied (frameRows_wide framedNow) (s.neuron, s.mem) fed.fed

/-- A client feeds an aligned tensor of several frames with whatever calls it likes, then with
    frames. Whatever this call returns, it changes no byte outside of the tensor; and if it returns
    success, then every frame that there was a command for is in its place, padding included. -/
theorem alignedFrames_fill (lawful : ops.Lawful) (framed : n.Framed frame)
    (aligned : n.aligned = true) (batch : n.shape.n ≠ 1)
    (fresh : n.channelPreloadCmdbuf = none ∧ n.framePreloadCmdbuf = none)
    {calls : List ((Nat → Fin 3 → Round) × Feed)} {mem : Mem}
    (ran : Run.run (feedStep ops platform) ⟨n, exportTensorInfo n, mem⟩ calls = some s)
    {framePaddrs : List Nat} {pixelFormat : NnPixel}
    (call : cviNNSetTensorWithAlignedFrames ops platform rounds framePaddrs pixelFormat s =
      some (rc, s'))
    (supplied : Supplied platform n.frameRows s.neuron.paddr framePaddrs)
    (confined : Confined n.frameRows s.neuron.paddr rounds) :
    AgreeOutside s.neuron.paddr (n.shape.n * frame) s.mem s'.mem ∧
      (rc = cviRcSuccess →
        Filled s.neuron.paddr frame (fun i mem o => mem (framePaddrs.getD i 0 + o))
          (Ready s.neuron.framePreloadCmdbuf rounds) framePaddrs.length s.mem s'.mem) := by
  have fed := run_keeps fresh ran
  have tensorAligned : s.tensor.aligned = true := fed.aligned.trans aligned
  obtain ⟨few, ⟨unaligned, -⟩ | ⟨-, paddr, -, one, -⟩ | ⟨-, -, rfl, rfl⟩⟩ :=
    alignedFrames_cases call
  · exact absurd unaligned (by rw [tensorAligned]; decide)
  · rw [fed.shape] at one
    exact absurd one batch
  · rw [fed.shape] at few
    have fills := fed.fill_whole lawful framed tensorAligned few supplied confined
    have bytes := frameRows_bytes framed
    have inside : framePaddrs.length * n.frameRows.bytes ≤ n.shape.n * frame := by
      rw [bytes]
      exact Nat.mul_le_mul_right frame few
    refine ⟨fills.fits inside, fun success => ?_⟩
    have filled := fills.filled success
    simp only [bytes, frameRows_value] at filled
    exact filled

/-- Two gray frames of one row. -/
def grayNeuron : FrameNeuron where
  shape := ⟨2, 1, 1, 32⟩
  fmt := .uint8
  pixelFormat := .named .grayscale
  aligned := true
  geometry := ⟨32, 32, 64, 64⟩
  baseAddrIndex := 3
  paddr := 4096
  channelPreloadCmdbuf := none
  framePreloadCmdbuf := none

theorem grayNeuron_framed : grayNeuron.Framed 32 where
  nPos := Nat.two_pos
  framePos := Nat.succ_pos 31
  alignPos := by decide
  alignSmall := by decide
  rows := Int.dvd_refl 32
  whole := rfl
  small := by decide

theorem alignedFrames_fill_gray :
    ∃ s s', Run.run (feedStep copyOps .cmodel)
        ⟨grayNeuron, exportTensorInfo grayNeuron, fun a => UInt8.ofNat a⟩
        [(goodRounds, .alignedFrames [256] (.named .grayscale))] = some s ∧
      cviNNSetTensorWithAlignedFrames copyOps .cmodel goodRounds [512, 1024] (.named .grayscale) s =
        some (cviRcSuccess, s') ∧
      Filled 4096 32 (fun i mem o => mem ([512, 1024].getD i 0 + o))
        (Ready s.neuron.framePreloadCmdbuf goodRounds) 2 s.mem s'.mem :=
  ⟨_, _, rfl, rfl,
    (@alignedFrames_fill copyOps .cmodel grayNeuron 32 _ _ goodRounds _ copyOps_lawful
      grayNeuron_framed rfl (by decide) ⟨rfl, rfl⟩
      [(goodRounds, .alignedFrames [256] (.named .grayscale))] (fun a => UInt8.ofNat a) rfl
      [512, 1024] (.named .grayscale) rfl ⟨.inl rfl, by decide⟩ (goodRounds_confined _ _)).2 rfl⟩

end

end CviRuntime.Kernel
