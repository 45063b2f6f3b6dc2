import CviRuntime.Kernel.StrideCopy
import CviRuntime.Runtime.AlignedFrames
import CviRuntime.Runtime.Basic

/-!
# Feeding frames into a tensor (`src/common/neuron.cpp`, `src/common/runtime.cpp`)

The rows of a video frame are padded to `vpss_w_align` bytes. For a tensor without padding the
TDMA engine takes them out, channel by channel or frame by frame; for an aligned tensor it copies
whole frames, or the tensor is moved to the address of the frame. The commands have no addresses
and are kept, one for channels and one for frames of either kind.
-/

namespace CviRuntime.Kernel

open CviRuntime.Runtime (Geometry PixelFormat Platform toU32 cviRcSuccess cviRcFailure
  cviRcDataErr preloadFrameSize preloadShape)

/-- `CVI_NN_PIXEL_FORMAT_E` (`cviruntime.h:41-57`) with the two values that `isPacked` decides
    on. -/
inductive NnPixel where
  | named (format : PixelFormat)
  | planar
  | packed
  deriving DecidableEq, Repr

/-- A neuron as it is fed (`neuron.hpp:102-142`). -/
structure FrameNeuron where
  shape : TgShape
  fmt : CviFmt
  pixelFormat : NnPixel
  aligned : Bool
  geometry : Geometry
  baseAddrIndex : Nat
  paddr : Nat
  channelPreloadCmdbuf : Option CopyCmdbuf
  framePreloadCmdbuf : Option CopyCmdbuf
  deriving DecidableEq, Repr

/-- One round of a retry loop: whether a command is generated if there is none, what running it
    returns, and what it leaves of the memory if it fails. -/
structure Round where
  jit : Bool
  run : Int
  left : Mem → Mem

variable (ops : CopyOps) (platform : Platform)

/-- The loop of the preload functions (`neuron.cpp:301-324,342-365,374-395`). A command that fails
    is freed; without a command the round is skipped, and `ret` stays. -/
def preloadLoop (make : CopyCmdbuf) (src dst : Nat) :
    List Round → Int → Option CopyCmdbuf → Mem → Int × Option CopyCmdbuf × Mem
  | [], ret, cmdbuf, mem => (ret, cmdbuf, mem)
  | round :: rounds, ret, cmdbuf, mem =>
    match cmdbuf <|> if round.jit then some make else none with
    | none => preloadLoop make src dst rounds ret none mem
    | some codeBuf =>
      if round.run ≠ cviRcSuccess then
        preloadLoop make src dst rounds round.run none (round.left mem)
      else
        (cviRcSuccess, some codeBuf,
          runtimeExecuteKernelFunction ops platform codeBuf src dst mem)

namespace FrameNeuron

variable (n : FrameNeuron)

/-- `Neuron::isPacked` (`neuron.cpp:276-287`). -/
def isPacked : FrameNeuron × Bool :=
  let pixelFormat :=
    if n.pixelFormat = .named .tensor then if n.shape.w = 3 then .packed else .planar
    else n.pixelFormat
  ({ n with pixelFormat := pixelFormat }, pixelFormat = .named .bgrPacked ∨
    pixelFormat = .named .rgbPacked ∨ pixelFormat = .packed)

/-- `c`, `h` and `w` of the preload functions. -/
def planes : Nat := if n.isPacked.2 then 1 else n.shape.c

def rows : Nat := if n.isPacked.2 then n.shape.c else n.shape.h

def width : Nat := if n.isPacked.2 then n.shape.h * n.shape.w % 2 ^ 32 else n.shape.w

/-- `hstride`. -/
def hstride : Nat := toU32 (Runtime.alignUp n.width n.geometry.vpssWAlign)

/-- The command that `preloadChannelAndCompact` generates. -/
def channelCopy : CopyCmdbuf :=
  runtimeJitTdmaStrideCopy ops n.fmt ⟨1, 1, n.rows, n.width⟩ (some ⟨1, 1, n.width⟩)
    ⟨1, 1, n.rows, n.width⟩ (some ⟨1, 1, n.hstride⟩)

/-- The command that `preloadFrameAndCompact` generates. -/
def frameCopy : CopyCmdbuf :=
  runtimeJitTdmaStrideCopy ops n.fmt ⟨1, n.planes, n.rows, n.width⟩
    (some ⟨1, n.rows * n.width % 2 ^ 32, n.width⟩) ⟨1, n.planes, n.rows, n.width⟩
    (some ⟨1, n.rows * n.hstride % 2 ^ 32, n.hstride⟩)

/-- The command that `preload` generates. -/
def wholeCopy : CopyCmdbuf :=
  let (rows, width) := preloadShape n.geometry n.shape.n
  runtimeJitTdmaStrideCopy ops .int8 ⟨1, 1, rows, width⟩ none ⟨1, 1, rows, width⟩ none

/-- `Neuron::preloadChannelAndCompact` (`neuron.cpp:291-326`). -/
def preloadChannelAndCompact (rounds : Fin 3 → Round) (channelIdx srcPaddr : Nat)
    (state : FrameNeuron × Mem) : Int × FrameNeuron × Mem :=
  let n := state.1.isPacked.1
  let (ret, cmdbuf, mem) := preloadLoop ops platform (n.channelCopy ops) srcPaddr
    (n.paddr + channelIdx * n.rows * n.width % 2 ^ 32) (List.ofFn rounds) cviRcSuccess
    n.channelPreloadCmdbuf state.2
  (ret, { n with channelPreloadCmdbuf := cmdbuf }, mem)

/-- `Neuron::preloadFrameAndCompact` (`neuron.cpp:330-367`). -/
def preloadFrameAndCompact (rounds : Fin 3 → Round) (frameIdx srcPaddr : Nat)
    (state : FrameNeuron × Mem) : Int × FrameNeuron × Mem :=
  let n := state.1.isPacked.1
  let (ret, cmdbuf, mem) := preloadLoop ops platform (n.frameCopy ops) srcPaddr
    (n.paddr + frameIdx * n.planes * n.rows * n.width % 2 ^ 32) (List.ofFn rounds) cviRcSuccess
    n.framePreloadCmdbuf state.2
  (ret, { n with framePreloadCmdbuf := cmdbuf }, mem)

/-- `Neuron::preload` (`neuron.cpp:371-397`). -/
def preload (rounds : Fin 3 → Round) (frameIdx srcPaddr : Nat) (state : FrameNeuron × Mem) :
    Int × FrameNeuron × Mem :=
  let n := state.1
  let (ret, cmdbuf, mem) := preloadLoop ops platform (n.wholeCopy ops) srcPaddr
    (n.paddr + frameIdx * preloadFrameSize n.geometry n.shape.n % 2 ^ 32) (List.ofFn rounds)
    cviRcSuccess n.framePreloadCmdbuf state.2
  (ret, { n with framePreloadCmdbuf := cmdbuf }, mem)

/-- `Neuron::updateBaseAddr` (`neuron.cpp:539-548`). -/
def updateBaseAddr (paddr : Nat) : FrameNeuron :=
  if n.baseAddrIndex < 3 then n else { n with paddr := paddr }

end FrameNeuron

/-! ## The calls of a client -/

/-- `CVI_TENSOR` (`cviruntime.h:93-109`); `device` says that `mem_type` is `CVI_MEM_DEVICE`. -/
structure FrameTensor where
  shape : TgShape
  aligned : Bool
  pixelFormat : NnPixel
  paddr : Nat
  device : Bool
  deriving DecidableEq, Repr

/-- `exportTensorInfo` (`program.cpp:177-202`). -/
def exportTensorInfo (n : FrameNeuron) : FrameTensor where
  shape := n.shape
  aligned := n.aligned
  pixelFormat := n.pixelFormat
  paddr := n.paddr
  device := false

/-- A tensor of the client, the input it was exported from, which `findTargetInput`
    (`runtime.cpp:402-411`) finds by its name, and the memory of the device. -/
structure Feeding where
  neuron : FrameNeuron
  tensor : FrameTensor
  mem : Mem

/-- `CVI_VIDEO_FRAME_INFO` (`cviruntime.h:115-121`). -/
structure VideoFrame where
  type : NnPixel
  shape : TgShape
  pyaddr : Nat → Nat

/-- `for (i ..) { ret = preload(i, addr[i]); if (ret != CVI_RC_SUCCESS) return ret; }` -/
def feedEach (preload : Nat → Nat → FrameNeuron × Mem → Int × FrameNeuron × Mem) :
    List Nat → Nat → FrameNeuron × Mem → Int × FrameNeuron × Mem
  | [], _, state => (cviRcSuccess, state)
  | paddr :: paddrs, i, state =>
    let (ret, state) := preload i paddr state
    if ret ≠ cviRcSuccess then (ret, state) else feedEach preload paddrs (i + 1) state

variable (rounds : Nat → Fin 3 → Round)

/-- `CVI_NN_SetTensorPhysicalAddr` (`runtime.cpp:380-400`). -/
def cviNNSetTensorPhysicalAddr (paddr : Nat) (s : Feeding) : Feeding :=
  { s with
    neuron := s.neuron.updateBaseAddr paddr
    tensor := { s.tensor with paddr := paddr, device := true } }

/-- `CVI_NN_SetTensorWithAlignedFrames` (`runtime.cpp:470-508`); `none` where an assertion
    fails. -/
def cviNNSetTensorWithAlignedFrames (framePaddrs : List Nat) (pixelFormat : NnPixel)
    (s : Feeding) : Option (Int × Feeding) :=
  if s.tensor.shape.n < framePaddrs.length then none
  else
    let tensor := { s.tensor with device := true }
    if tensor.aligned = false then
      let (ret, neuron, mem) := feedEach
        (fun i => FrameNeuron.preloadFrameAndCompact ops platform (rounds i) i) framePaddrs 0
        (s.neuron, s.mem)
      some (ret, ⟨neuron, tensor, mem⟩)
    else if pixelFormat ≠ tensor.pixelFormat then none
    else match framePaddrs with
      | [paddr] =>
        if tensor.shape.n = 1 then
          some (cviRcSuccess, cviNNSetTensorPhysicalAddr paddr { s with tensor := tensor })
        else
          let (ret, neuron, mem) := feedEach
            (fun i => FrameNeuron.preload ops platform (rounds i) i) [paddr] 0 (s.neuron, s.mem)
          some (ret, ⟨neuron, tensor, mem⟩)
      | framePaddrs =>
        let (ret, neuron, mem) := feedEach
          (fun i => FrameNeuron.preload ops platform (rounds i) i) framePaddrs 0 (s.neuron, s.mem)
        some (ret, ⟨neuron, tensor, mem⟩)

/-- `CVI_NN_SetTensorWithVideoFrame` (`runtime.cpp:413-468`). What
    `CVI_NN_SetTensorWithAlignedFrames` returns is not looked at. -/
def cviNNSetTensorWithVideoFrame (frame : VideoFrame) (s : Feeding) : Option (Int × Feeding) :=
  if s.tensor.shape.c ≠ frame.shape.c ∨ s.tensor.shape.h ≠ frame.shape.h ∨
      s.tensor.shape.w ≠ frame.shape.w then
    some (cviRcDataErr, s)
  else if s.tensor.shape.n ≠ 1 then none
  else
    let tensor := { s.tensor with device := true }
    if tensor.aligned = false then
      let (neuron, packed) := s.neuron.isPacked
      let c := if packed then 1 else tensor.shape.c
      if 3 < c then none
      else
        let (ret, neuron, mem) := feedEach
          (fun i => FrameNeuron.preloadChannelAndCompact ops platform (rounds i) i)
          ((List.range c).map frame.pyaddr) 0 (neuron, s.mem)
        some (ret, ⟨neuron, tensor, mem⟩)
    else do
      let (_, s) ← cviNNSetTensorWithAlignedFrames ops platform rounds [frame.pyaddr 0] frame.type
        { s with tensor := tensor }
      return (cviRcSuccess, s)

/-- `CVI_NN_FeedTensorWithFrames` (`runtime.cpp:510-572`). A preload that fails is
    `CVI_RC_FAILURE`. -/
def cviNNFeedTensorWithFrames (type : NnPixel) (channelPaddrs : List Nat) (height width : Nat)
    (s : Feeding) : Option (Int × Feeding) :=
  let (neuron, packed) := s.neuron.isPacked
  let (h, w) := if packed then (s.tensor.shape.c, s.tensor.shape.h)
    else (s.tensor.shape.h, s.tensor.shape.w)
  if h ≠ height ∨ w ≠ width then some (cviRcDataErr, { s with neuron := neuron })
  else if s.tensor.shape.n ≠ 1 then none
  else
    let tensor := { s.tensor with device := true }
    if tensor.aligned = false then
      let c := if packed then 1 else tensor.shape.c
      if c < channelPaddrs.length then none
      else
        let (ret, neuron, mem) := feedEach
          (fun i => FrameNeuron.preloadChannelAndCompact ops platform (rounds i) i) channelPaddrs 0
          (neuron, s.mem)
        some (if ret ≠ cviRcSuccess then cviRcFailure else cviRcSuccess, ⟨neuron, tensor, mem⟩)
    else do
      let paddr ← channelPaddrs.head?
      let (_, s) ← cviNNSetTensorWithAlignedFrames ops platform rounds [paddr] type
        { s with neuron := neuron, tensor := tensor }
      return (cviRcSuccess, s)

/-- The calls that give a tensor its input in device memory. -/
inductive Feed where
  | physicalAddr (paddr : Nat)
  | alignedFrames (framePaddrs : List Nat) (pixelFormat : NnPixel)
  | videoFrame (frame : VideoFrame)
  | frames (type : NnPixel) (channelPaddrs : List Nat) (height width : Nat)

def Feed.run (s : Feeding) : Feed → Option (Int × Feeding)
  | .physicalAddr paddr => some (cviRcSuccess, cviNNSetTensorPhysicalAddr paddr s)
  | .alignedFrames framePaddrs pixelFormat =>
    cviNNSetTensorWithAlignedFrames ops platform rounds framePaddrs pixelFormat s
  | .videoFrame frame => cviNNSetTensorWithVideoFrame ops platform rounds frame s
  | .frames type channelPaddrs height width =>
    cviNNFeedTensorWithFrames ops platform rounds type channelPaddrs height width s

/-- A call with what happens in its retry loops, whatever it returns. -/
def feedStep (s : Feeding) (call : (Nat → Fin 3 → Round) × Feed) : Option Feeding :=
  (call.2.run ops platform call.1 s).map Prod.snd

end CviRuntime.Kernel
