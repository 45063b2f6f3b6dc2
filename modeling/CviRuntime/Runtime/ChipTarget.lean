import CviRuntime.Runtime.Registry

/-!
# The chip type and the geometry of neurons (`src/common/neuron.cpp`)

`Neuron::setPixelAlign` reads the static `CviModel::targetChipType` when a program is
loaded, which is when its tensors are first asked for. A registration that fails after
reading a header has already overwritten that string for the models that are live.
-/

namespace CviRuntime.Runtime

/-- `CVI_NN_PIXEL_FORMAT_E` (`cviruntime.h:41-57`), the formats a tensor can name. -/
inductive PixelFormat where
  | rgbPacked | bgrPacked | rgbPlanar | bgrPlanar
  | yuvNV12 | yuvNV21 | yuv420Planar
  | grayscale | tensor | rgbaPlanar
  deriving DecidableEq, Repr

/-- The size of an element (`neuron.cpp:18-55`); an unknown type is only logged. -/
def DType.dsize : DType → Int
  | .bf16 | .int16 | .uint16 => 2
  | .int8 | .uint8 => 1
  | .fp32 | .int32 | .uint32 => 4
  | .other _ => 0

/-- Conversion to `uint32_t`. -/
def toU32 (value : Int) : Nat := (value % 2 ^ 32).toNat

/-- `align_up` (`neuron.cpp:67-69`); C division rounds towards zero. -/
def alignUp (x n : Int) : Int := (x + n - 1).tdiv n * n

/-- The alignments `Neuron::setPixelAlign` (`neuron.cpp:71-87`) sets. -/
structure PixelAlign where
  vpssYAlign : Int
  vpssWAlign : Int
  vpssChannelAlign : Int
  deriving DecidableEq, Repr

def setPixelAlign (targetChipType : CString) (format : PixelFormat) : PixelAlign :=
  if targetChipType = cv183x then
    if format = .yuv420Planar then ⟨32 * 2, 32, 0x1000⟩ else ⟨32, 32, 0x1000⟩
  else
    if format = .yuv420Planar then ⟨64 * 2, 64, 64⟩ else ⟨64, 64, 64⟩

/-- `Neuron::yuv_size` (`neuron.cpp:89-114`); the formats are those its caller passes. -/
def yuvSize (align : PixelAlign) (n c h w : Int) (format : PixelFormat) : Option Nat :=
  if c ≠ 3 then none else
  match format with
  | .yuv420Planar =>
    let yWAligned := alignUp w align.vpssYAlign
    let uvWAligned := alignUp (w.tdiv 2) align.vpssWAlign
    let u := alignUp (h * yWAligned) align.vpssChannelAlign
    let v := alignUp (u + h.tdiv 2 * uvWAligned) align.vpssChannelAlign
    let nStride := alignUp (v + h.tdiv 2 * uvWAligned) align.vpssChannelAlign
    some (toU32 (n * nStride))
  | _ =>
    let yWAligned := alignUp w align.vpssYAlign
    let uvWAligned := alignUp w align.vpssWAlign
    let uv := alignUp (h * yWAligned) align.vpssChannelAlign
    let nStride := alignUp (uv + h.tdiv 2 * uvWAligned) align.vpssChannelAlign
    some (toU32 (n * nStride))

/-- The format a tensor names; an unknown name leaves the field uninitialised (`none`). -/
def parsePixelFormat (name : String) : Option PixelFormat :=
  match name with
  | "" => some .tensor
  | "BGR_PLANAR" => some .bgrPlanar
  | "BGR_PACKED" => some .bgrPacked
  | "RGB_PLANAR" => some .rgbPlanar
  | "RGB_PACKED" => some .rgbPacked
  | "GRAYSCALE" => some .grayscale
  | "YUV_NV12" => some .yuvNV12
  | "YUV_NV21" => some .yuvNV21
  | "YUV420_PLANAR" => some .yuv420Planar
  | "RGBA_PLANAR" => some .rgbaPlanar
  | _ => none

/-- `Neuron::setPixelFormatAndSize` (`neuron.cpp:213-274`) for a tensor; a failed assert is
    `none`. -/
def setPixelFormatAndSize (targetChipType : CString) (t : FbTensor) : Option Geometry :=
  if t.pixelFormat = "" ∧ t.aligned = true then none else
  (parsePixelFormat t.pixelFormat).bind fun format =>
    let align := setPixelAlign targetChipType format
    let count := toU32 (t.shape 0 * t.shape 1 * t.shape 2 * t.shape 3)
    let size : Option Nat :=
      if t.aligned = false then some (toU32 (count * t.dtype.dsize))
      else if t.size ≠ 0 then some t.size
      else match format with
        | .grayscale =>
          some (toU32 (t.shape 0 * t.shape 1 * t.shape 2 * alignUp (t.shape 3) align.vpssWAlign))
        | .bgrPlanar | .rgbPlanar | .rgbaPlanar =>
          let alignW := alignUp (t.shape 3) align.vpssWAlign
          let alignC := alignUp (alignW * t.shape 2) align.vpssChannelAlign
          some (toU32 (t.shape 0 * t.shape 1 * alignC))
        | .bgrPacked | .rgbPacked =>
          some (toU32 (t.shape 0 * t.shape 2 * alignUp (t.shape 3 * t.shape 1) align.vpssWAlign))
        | .yuvNV12 | .yuvNV21 | .yuv420Planar =>
          yuvSize align (t.shape 0) (t.shape 1) (t.shape 2) (t.shape 3) format
        | .tensor => none
    size.map fun size => ⟨align.vpssYAlign, align.vpssWAlign, align.vpssChannelAlign, size⟩

/-- `CviModel::loadProgram` and `Program::createNeuronMap` (`model.cpp:444-468`,
    `program.cpp:105-127`): one neuron for each tensor of the program. -/
def loadProgram (targetChipType : CString) (inst : ModelInstance) : Option (List Geometry) :=
  (inst.programs[inst.programId]?).bind fun tensors =>
    tensors.mapM (setPixelFormatAndSize targetChipType)

/-- `CVI_NN_GetModelTarget` (`runtime.cpp:194-197`): every model reports the static string. -/
def cviNNGetModelTarget (g : Globals) (handle : Nat) : Option CString :=
  (g.instances.lookup handle).map fun _ => g.targetChipType

/-- `CVI_NN_GetInputOutputTensors` (`runtime.cpp:231-269`): the code and the neurons of the
    handle's program after the call. `loadRc` is what the parts of `Program::load` that
    depend on the device return. -/
def cviNNGetInputOutputTensors (g : Globals) (handle : Nat) (loadRc : Int) :
    Option (Int × Option (List Geometry)) :=
  (g.instances.lookup handle).bind fun inst =>
    match inst.program with
    | some neurons => some (cviRcSuccess, some neurons)
    | none => (loadProgram g.targetChipType inst).map fun neurons =>
        if loadRc ≠ cviRcSuccess then (loadRc, none) else (cviRcSuccess, some neurons)

/-- No live model notices that `g` became `g'`: it reports the same target, and its tensors
    are the same when asked for now. -/
def Undisturbed (g g' : Globals) : Prop :=
  ∀ handle, (g.instances.lookup handle).isSome →
    cviNNGetModelTarget g' handle = cviNNGetModelTarget g handle ∧
      ∀ loadRc, cviNNGetInputOutputTensors g' handle loadRc =
        cviNNGetInputOutputTensors g handle loadRc

/-- The registration calls of the interface. -/
inductive RegisterCall where
  | registerModel (modelFile : String)
  | registerModelFromBuffer
  | registerModelFromFd

def register (g : Globals) (call : RegisterCall) (a : Attempt) :
    Option (Int × Option Nat × Globals) :=
  match call with
  | .registerModel modelFile => cviNNRegisterModel g modelFile a
  | .registerModelFromBuffer => cviNNRegisterModelFromBuffer g a
  | .registerModelFromFd => cviNNRegisterModelFromFd g a

theorem register_spec {g g' : Globals} {call : RegisterCall} {a : Attempt} {rc : Int}
    {handle : Option Nat} (done : register g call a = some (rc, handle, g')) :
    registerModelWith g a = some (rc, handle, g') := by
  cases call with
  | registerModel modelFile =>
    simp only [register, cviNNRegisterModel] at done
    split at done
    · cases done
    · exact done
  | registerModelFromBuffer => exact done
  | registerModelFromFd => exact done

/-- With the same string and the same instances, the models see the same. -/
theorem undisturbed_of_same {g g' : Globals} (instances : g'.instances = g.instances)
    (target : g'.targetChipType = g.targetChipType) : Undisturbed g g' := by
  intro handle _
  refine ⟨?_, ?_⟩
  · unfold cviNNGetModelTarget
    rw [instances, target]
  · intro loadRc
    unfold cviNNGetInputOutputTensors
    rw [instances, target]

/-- A registration that fails leaves the live models alone exactly when there is none, or its
    stream is too short for a header, or the header names the chip already there. -/
theorem failed_register_undisturbed_iff (g g' : Globals) (call : RegisterCall) (a : Attempt)
    (rc : Int) (handle : Option Nat) (done : register g call a = some (rc, handle, g'))
    (failed : rc ≠ cviRcSuccess) :
    Undisturbed g g' ↔
      g.instances = [] ∨ a.stream.length ≤ sizeofModelHeader ∨
        a.targetChip = g.targetChipType := by
  obtain ⟨-, target, change⟩ := registerModelWith_spec (register_spec done)
  have instances : g'.instances = g.instances := by
    rcases change with ⟨-, -, same⟩ | ⟨succeeded, -, -⟩
    · exact same
    · exact absurd succeeded failed
  constructor
  · intro undisturbed
    by_cases short : a.stream.length ≤ sizeofModelHeader
    · exact Or.inr (Or.inl short)
    · rw [if_pos (by simpa [Attempt.headerRead] using short)] at target
      cases list : g.instances with
      | nil => exact Or.inl rfl
      | cons entry rest =>
        have live : (g.instances.lookup entry.1).isSome := by
          rw [list, List.lookup_isSome_iff]
          exact ⟨entry, List.mem_cons_self, BEq.rfl⟩
        have same := (undisturbed entry.1 live).1
        obtain ⟨inst, found⟩ := Option.isSome_iff_exists.mp live
        simp only [cviNNGetModelTarget, instances, found, Option.map_some,
          Option.some.injEq] at same
        exact Or.inr (Or.inr (target.symm.trans same))
  · rintro (none | short | same)
    · intro handle live
      rw [none] at live
      cases live
    · refine undisturbed_of_same instances ?_
      rw [target, if_neg (by simpa [Attempt.headerRead] using short)]
    · refine undisturbed_of_same instances ?_
      rw [target]
      split
      · exact same
      · rfl

/-- `"cv181x"`. -/
def cv181x : CString := [0x63, 0x76, 0x31, 0x38, 0x31, 0x78]

/-- A stream of version 1.4 for a chip, with one byte after the header. -/
def streamFor (chip : CString) : List UInt8 :=
  List.replicate 12 0 ++ [1, 4] ++ List.replicate 16 0 ++ chip ++
    List.replicate (18 - chip.length) 0 ++
    [0]

/-- A gray image of 2 by 3 pixels, aligned. -/
def grayTensor : FbTensor where
  dtype := .uint8
  shape := fun i => [1, 1, 2, 3].getD i 0
  aligned := true
  size := 0
  pixelFormat := "GRAYSCALE"

/-- A cv181x device with one model registered and not yet loaded. -/
def oneModel : Globals where
  platform := .soc cv181x
  gCtx := true
  gCtxRefCount := 1
  gModelCount := 1
  targetChipType := cv181x
  setChipName := []
  instances := [(0, ⟨[[grayTensor]], 0, none⟩)]
  nextHandle := 1

-- The state the registration itself leaves: what follows starts in a reachable state.
example : ∃ rc handle, cviNNRegisterModelFromBuffer (Globals.initial (.soc cv181x) [])
    ⟨streamFor cv181x, [], 0, [[grayTensor]]⟩ = some (rc, handle, oneModel) :=
  ⟨_, _, rfl⟩

/-- A second model for the same chip is refused when there is no memory for it. -/
theorem same_chip_undisturbed :
    ∃ rc handle g', register oneModel .registerModelFromBuffer
        ⟨streamFor cv181x, [], cviRcNomem, [[grayTensor]]⟩ = some (rc, handle, g') ∧
      rc = cviRcNomem ∧ Undisturbed oneModel g' := by
  refine ⟨_, _, _, rfl, rfl, ?_⟩
  exact (failed_register_undisturbed_iff oneModel _ .registerModelFromBuffer
    ⟨streamFor cv181x, [], cviRcNomem, [[grayTensor]]⟩ _ _ rfl (by decide)).mpr
    (Or.inr (Or.inr rfl))

/-- A model for the cv183x is refused on a cv181x, but from then on the model registered
    before reports cv183x, and its gray image gets 64 bytes with rows aligned to 32 instead
    of 128 bytes with rows aligned to 64. -/
theorem wrong_chip_disturbs :
    ∃ rc handle g', register oneModel .registerModelFromBuffer ⟨streamFor cv183x, [], 0, []⟩ =
        some (rc, handle, g') ∧ rc ≠ cviRcSuccess ∧ ¬ Undisturbed oneModel g' ∧
      cviNNGetModelTarget oneModel 0 = some cv181x ∧ cviNNGetModelTarget g' 0 = some cv183x ∧
      cviNNGetInputOutputTensors oneModel 0 0 = some (0, some [⟨64, 64, 64, 128⟩]) ∧
      cviNNGetInputOutputTensors g' 0 0 = some (0, some [⟨32, 32, 0x1000, 64⟩]) := by
  refine ⟨_, _, _, rfl, by decide, ?_, rfl, rfl, rfl, rfl⟩
  intro undisturbed
  have same := (undisturbed 0 rfl).1
  exact absurd same (by decide)

end CviRuntime.Runtime
