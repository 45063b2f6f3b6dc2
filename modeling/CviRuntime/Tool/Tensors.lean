import CviRuntime.Runtime.ChipTarget

/-!
# Tensors that the tool copies (`tool/cvimodel_tool.cpp`, `src/common/neuron.cpp`)

`merge`, `encrypt` and `compress` write the tensors of a program anew
(`Model::cloneTensorMap`). A tensor with quantisation data is copied with all its fields; one
without is copied by a call that names the first ones only. What a copy is worth is what the
runtime builds from it: a neuron.
-/

namespace CviRuntime.Tool

open CviRuntime.Runtime

/-- What `c_str()` shows of a string: the characters before the first NUL. -/
def cStr (s : String) : String := String.ofList (s.toList.takeWhile (· ≠ '\x00'))

/-- `QuantInfo`, as far as the tool copies it. Floats are bit patterns. -/
structure QuantInfo where
  type : Nat
  zeroPoint : Int
  qscale : UInt32
  deriving DecidableEq, Repr

/-- A tensor of the flatbuffer. The name and the shape are there: tool and runtime
    dereference both. -/
structure Tensor where
  tensorId : Nat
  name : String
  offset : Int
  dtype : DType
  shape : List Int
  quant : Option QuantInfo
  overwrote : Int
  scale : Option (List UInt32)
  mean : Option (List UInt32)
  pixelFormat : Option String
  aligned : Bool
  size : Nat
  deriving DecidableEq, Repr

/-! ## The copy -/

/-- A vector that is stored when it has elements. -/
def vectorOrNull (values : List UInt32) : Option (List UInt32) :=
  if 0 < values.length then some values else none

/-- A string that is stored when it is not empty. -/
def stringOrNull (s : String) : Option String :=
  if s ≠ "" then some (cStr s) else none

/-- The body of the loop of `Model::cloneTensorMap` (`cvimodel_tool.cpp:628-672`): the fields
    that `CreateTensorDirect` is not given have their defaults. -/
def cloneTensor (t : Tensor) : Tensor :=
  match t.quant with
  | none => {
      tensorId := t.tensorId
      name := cStr t.name
      offset := t.offset
      dtype := t.dtype
      shape := t.shape
      quant := none
      overwrote := t.overwrote
      scale := none
      mean := none
      pixelFormat := none
      aligned := false
      size := 0 }
  | some quant => {
      tensorId := t.tensorId
      name := cStr t.name
      offset := t.offset
      dtype := t.dtype
      shape := t.shape
      quant := some ⟨quant.type, quant.zeroPoint, quant.qscale⟩
      overwrote := t.overwrote
      scale := vectorOrNull (t.scale.getD [])
      mean := vectorOrNull (t.mean.getD [])
      pixelFormat := stringOrNull (t.pixelFormat.getD "")
      aligned := t.aligned
      size := t.size }

/-- `Model::cloneTensorMap`. -/
def cloneTensorMap (tensorMap : List Tensor) : List Tensor := tensorMap.map cloneTensor

/-! ## The neuron -/

/-- `CVI_FMT`, the values a tensor can have. -/
inductive Fmt where
  | bf16 | int8 | uint8 | fp32 | int16 | uint16 | int32 | uint32
  deriving DecidableEq, Repr

/-- `fbDtypeToCVIFMTandSize` (`neuron.cpp:18-55`): an unknown type leaves the initial value. -/
def DType.fmt : DType → Fmt
  | .bf16 => .bf16
  | .int8 => .int8
  | .uint8 => .uint8
  | .fp32 => .fp32
  | .int16 => .int16
  | .uint16 => .uint16
  | .int32 => .int32
  | .uint32 => .uint32
  | .other _ => .fp32

/-- Conversion to `int`. -/
def toInt (value : Int) : Int := value.bmod (2 ^ 32)

/-- The fields `Neuron::Neuron` sets from a tensor and that are read later. `_tensor_size` is
    read only while the size is computed. -/
structure TensorNeuron where
  id : Nat
  name : String
  shape : List Int
  count : Nat
  fmt : Fmt
  pixelFormat : PixelFormat
  geometry : Geometry
  aligned : Bool
  overwrote : Bool
  scale : List UInt32
  mean : List UInt32
  qscale : UInt32
  zeroPoint : Int
  deriving DecidableEq, Repr

/-- What `setPixelFormatAndSize` reads. -/
def Tensor.toFb (t : Tensor) : FbTensor where
  dtype := t.dtype
  shape := fun i => toInt (t.shape.getD i 0)
  aligned := t.aligned
  size := t.size
  pixelFormat := t.pixelFormat.getD ""

/-- `Neuron::Neuron` for a tensor (`neuron.cpp:145-198`). The shape is read at four places. A
    failed assertion and a format name that leaves `pixel_format` without a value give `none`. -/
def buildNeuron (targetChipType : CString) (t : Tensor) : Option TensorNeuron :=
  if t.shape.length < 4 then none else
  match parsePixelFormat (t.pixelFormat.getD ""), setPixelFormatAndSize targetChipType t.toFb with
  | some format, some geometry => some {
      id := t.tensorId
      name := t.name
      shape := (t.shape.take 4).map toInt
      count := toU32 (toInt (t.shape.getD 0 0) * toInt (t.shape.getD 1 0) *
        toInt (t.shape.getD 2 0) * toInt (t.shape.getD 3 0))
      fmt := DType.fmt t.dtype
      pixelFormat := format
      geometry := geometry
      aligned := t.aligned
      overwrote := t.overwrote ≠ 0
      scale := t.scale.getD []
      mean := t.mean.getD []
      qscale := match t.quant with
        | none => 0x3f800000
        | some quant => quant.qscale
      zeroPoint := match t.quant with
        | none => 0
        | some quant => quant.zeroPoint }
  | _, _ => none

/-! ## When the copy is as good as the original -/

/-- The copy of the tensor loses nothing a neuron is built from. -/
def KeepsFields (t : Tensor) : Prop :=
  cStr t.name = t.name ∧
    (t.quant.isSome ∨
      t.scale.getD [] = [] ∧ t.mean.getD [] = [] ∧ t.pixelFormat.getD "" = "" ∧ t.aligned = false)

theorem vectorOrNull_getD (values : List UInt32) : (vectorOrNull values).getD [] = values := by
  unfold vectorOrNull
  cases values with
  | nil => rfl
  | cons value rest => rfl

/-- The names of formats hold no NUL, so a copied name of a format is the same name. -/
theorem stringOrNull_getD {name : String} {format : PixelFormat}
    (known : parsePixelFormat name = some format) : (stringOrNull name).getD "" = name := by
  unfold parsePixelFormat at known
  split at known <;> first | rfl | cases known

/-- Only the empty name stands for a plain tensor. -/
theorem parsePixelFormat_eq_tensor {name : String} (plain : parsePixelFormat name = some .tensor) :
    name = "" := by
  unfold parsePixelFormat at plain
  split at plain <;> first | rfl | cases plain

theorem buildNeuron_spec {chip : CString} {t : Tensor} {n : TensorNeuron}
    (built : buildNeuron chip t = some n) :
    parsePixelFormat (t.pixelFormat.getD "") = some n.pixelFormat ∧ n.name = t.name ∧
      n.aligned = t.aligned ∧ n.scale = t.scale.getD [] ∧ n.mean = t.mean.getD [] := by
  unfold buildNeuron at built
  split at built
  · cases built
  · split at built
    · rename_i format geometry known _
      cases built
      exact ⟨known, rfl, rfl, rfl, rfl⟩
    · cases built

/-- What a neuron is built from. -/
theorem buildNeuron_congr {chip : CString} {t t' : Tensor}
    (id : t'.tensorId = t.tensorId) (name : t'.name = t.name) (dtype : t'.dtype = t.dtype)
    (shape : t'.shape = t.shape) (overwrote : t'.overwrote = t.overwrote)
    (quant : t'.quant = t.quant) (scale : t'.scale.getD [] = t.scale.getD [])
    (mean : t'.mean.getD [] = t.mean.getD [])
    (format : t'.pixelFormat.getD "" = t.pixelFormat.getD "") (aligned : t'.aligned = t.aligned)
    (geometry : setPixelFormatAndSize chip t'.toFb = setPixelFormatAndSize chip t.toFb) :
    buildNeuron chip t' = buildNeuron chip t := by
  unfold buildNeuron
  rw [id, name, dtype, shape, overwrote, quant, scale, mean, format, aligned, geometry]

/-- A tensor that is not aligned does not use its size. -/
theorem setPixelFormatAndSize_unaligned {chip : CString} {t t' : FbTensor}
    (dtype : t'.dtype = t.dtype) (shape : t'.shape = t.shape)
    (format : t'.pixelFormat = t.pixelFormat) (aligned : t.aligned = false)
    (aligned' : t'.aligned = false) :
    setPixelFormatAndSize chip t' = setPixelFormatAndSize chip t := by
  unfold setPixelFormatAndSize
  simp only [dtype, shape, format, aligned, aligned', if_true]

theorem buildNeuron_cloneTensor {chip : CString} {t : Tensor} {n : TensorNeuron}
    (built : buildNeuron chip t = some n) (keeps : KeepsFields t) :
    buildNeuron chip (cloneTensor t) = some n := by
  obtain ⟨known, -⟩ := buildNeuron_spec built
  obtain ⟨name, fields⟩ := keeps
  rw [← built]
  cases quant : t.quant with
  | some q =>
    have format : (stringOrNull (t.pixelFormat.getD "")).getD "" = t.pixelFormat.getD "" :=
      stringOrNull_getD known
    have clone : (cloneTensor t).toFb = t.toFb := by
      simp only [cloneTensor, quant, Tensor.toFb, format]
    refine buildNeuron_congr ?_ ?_ ?_ ?_ ?_ ?_ ?_ ?_ ?_ ?_ (by rw [clone])
    all_goals simp only [cloneTensor, quant]
    · exact name
    · exact vectorOrNull_getD _
    · exact vectorOrNull_getD _
    · exact format
  | none =>
    rw [quant] at fields
    rcases fields with present | ⟨scale, mean, format, aligned⟩
    · cases present
    · have geometry : setPixelFormatAndSize chip (cloneTensor t).toFb =
          setPixelFormatAndSize chip t.toFb := by
        apply setPixelFormatAndSize_unaligned
        all_goals simp only [cloneTensor, quant, Tensor.toFb]
        · exact format.symm
        · exact aligned
      refine buildNeuron_congr ?_ ?_ ?_ ?_ ?_ ?_ ?_ ?_ ?_ ?_ geometry
      all_goals simp only [cloneTensor, quant]
      · exact name
      · exact scale.symm
      · exact mean.symm
      · exact format.symm
      · exact aligned.symm

theorem keepsFields_of_buildNeuron {chip : CString} {t : Tensor} {n : TensorNeuron}
    (built : buildNeuron chip t = some n) (same : buildNeuron chip (cloneTensor t) = some n) :
    KeepsFields t := by
  obtain ⟨known, name, aligned, scale, mean⟩ := buildNeuron_spec built
  obtain ⟨known', name', aligned', scale', mean'⟩ := buildNeuron_spec same
  cases quant : t.quant with
  | some q =>
    simp only [cloneTensor, quant] at name'
    exact ⟨name'.symm.trans name, Or.inl (by rw [quant]; rfl)⟩
  | none =>
    simp only [cloneTensor, quant] at known' name' aligned' scale' mean'
    refine ⟨name'.symm.trans name, Or.inr ⟨?_, ?_, ?_, ?_⟩⟩
    · exact scale.symm.trans scale'
    · exact mean.symm.trans mean'
    · exact parsePixelFormat_eq_tensor (known.trans known'.symm)
    · exact aligned.symm.trans aligned'

/-- The copy of a tensor builds the neuron of the original exactly when the tensor has
    quantisation data, or none of the fields that are then not copied; and its name holds no
    NUL. -/
theorem cloneTensorMap_neuron_iff (chip : CString) (tensorMap : List Tensor) (i : Nat) (t : Tensor)
    (n : TensorNeuron) (entry : tensorMap[i]? = some t) (built : buildNeuron chip t = some n) :
    ∃ t', (cloneTensorMap tensorMap)[i]? = some t' ∧
      (buildNeuron chip t' = some n ↔ KeepsFields t) := by
  refine ⟨cloneTensor t, ?_, ?_⟩
  · unfold cloneTensorMap
    rw [List.getElem?_map, entry]
    rfl
  · exact ⟨keepsFields_of_buildNeuron built, buildNeuron_cloneTensor built⟩

/-- A frame of 2 by 3 pixels, aligned, with scales and means. -/
def imageTensor (quant : Option QuantInfo) : Tensor where
  tensorId := 0
  name := "data"
  offset := -1
  dtype := .uint8
  shape := [1, 3, 2, 3]
  quant := quant
  overwrote := 0
  scale := some [0x3f800000, 0x3f800000, 0x3f800000]
  mean := some [0x42f60000, 0x42f60000, 0x42f60000]
  pixelFormat := some "RGB_PLANAR"
  aligned := true
  size := 0

theorem cloneTensorMap_neuron_iff_image :
    ∃ n t', (cloneTensorMap [imageTensor (some ⟨0, 0, 0x3f000000⟩)])[0]? = some t' ∧
      buildNeuron cv181x (imageTensor (some ⟨0, 0, 0x3f000000⟩)) = some n ∧
      buildNeuron cv181x t' = some n := by
  obtain ⟨t', entry, same⟩ := cloneTensorMap_neuron_iff cv181x
    [imageTensor (some ⟨0, 0, 0x3f000000⟩)] 0 (imageTensor (some ⟨0, 0, 0x3f000000⟩)) _ rfl rfl
  exact ⟨_, t', entry, rfl, same.mpr ⟨by decide, Or.inl rfl⟩⟩

/-- Without quantisation data the copy of the frame is a plain tensor of 18 bytes. -/
theorem cloneTensorMap_drops_fields :
    ∃ n t' n', (cloneTensorMap [imageTensor none])[0]? = some t' ∧
      buildNeuron cv181x (imageTensor none) = some n ∧ buildNeuron cv181x t' = some n' ∧
      n.geometry.size = 384 ∧ n'.geometry.size = 18 ∧ n.pixelFormat = .rgbPlanar ∧
      n'.pixelFormat = .tensor ∧ n.aligned = true ∧ n'.aligned = false ∧ n.scale ≠ n'.scale ∧
      n.mean ≠ n'.mean :=
  ⟨_, _, _, rfl, rfl, rfl, rfl, rfl, rfl, rfl, rfl, rfl, by decide, by decide⟩

end CviRuntime.Tool
