import Mathlib.Algebra.Order.Ring.Nat
import Mathlib.Tactic.Ring

/-!
# Tensors of the kernel library

The kernel library is not part of the repository: its functions are parameters of the modules
that follow. Here are the records it exchanges with the runtime and the places of the elements of
a tensor in global memory.
-/

namespace CviRuntime.Kernel

/-- The bytes of the global memory of the device. -/
abbrev Mem := Nat → UInt8

/-- The formats of `cvk_fmt_t` that the runtime names. -/
inductive CvkFmt where
  | i8 | u8 | bf16
  deriving DecidableEq, Repr

/-- The size of an element. -/
def CvkFmt.bytes : CvkFmt → Nat
  | .i8 | .u8 => 1
  | .bf16 => 2

/-- `cvk_tg_shape_t`, and `cvk_tl_shape_t`, which has the same fields. -/
structure TgShape where
  n : Nat
  c : Nat
  h : Nat
  w : Nat
  deriving DecidableEq, Repr

/-- `cvk_tg_stride_t`, in bytes. -/
structure TgStride where
  n : Nat
  c : Nat
  h : Nat
  deriving DecidableEq, Repr

/-- `cvk_tg_t`. -/
structure Tg where
  baseRegIndex : Nat
  startAddress : Nat
  fmt : CvkFmt
  shape : TgShape
  stride : TgStride
  deriving DecidableEq, Repr

/-- Byte `x` of row `k` of plane `j` of image `i`. -/
structure TgIndex where
  i : Nat
  j : Nat
  k : Nat
  x : Nat
  deriving DecidableEq, Repr

/-- The byte belongs to a tensor of the shape and the format. -/
def TgIndex.In (index : TgIndex) (shape : TgShape) (fmt : CvkFmt) : Prop :=
  index.i < shape.n ∧ index.j < shape.c ∧ index.k < shape.h ∧ index.x < shape.w * fmt.bytes

def TgStride.offset (stride : TgStride) (index : TgIndex) : Nat :=
  index.i * stride.n + index.j * stride.c + index.k * stride.h + index.x

/-- Where the byte lies, given the base registers. -/
def Tg.address (tg : Tg) (base : Nat → Nat) (index : TgIndex) : Nat :=
  base tg.baseRegIndex + tg.startAddress + tg.stride.offset index

/-- The stride without gaps. -/
def denseStride (shape : TgShape) (fmt : CvkFmt) : TgStride where
  n := shape.c * shape.h * shape.w * fmt.bytes
  c := shape.h * shape.w * fmt.bytes
  h := shape.w * fmt.bytes

/-- What `tg_default_stride` is relied on for. -/
def IsDense (tgDefaultStride : TgShape → CvkFmt → TgStride) : Prop :=
  ∀ shape fmt, tgDefaultStride shape fmt = denseStride shape fmt

/-- What `tdma_g2g_tensor_copy` is relied on for: every byte of the destination tensor gets the
    byte that was at the same index of the source tensor, all other bytes stay. -/
def CopiesTensor (tdmaG2gTensorCopy : Tg → Tg → (Nat → Nat) → Mem → Mem) : Prop :=
  ∀ src dst base mem a,
    (∃ index : TgIndex, index.In dst.shape dst.fmt ∧ a = dst.address base index ∧
      tdmaG2gTensorCopy src dst base mem a = mem (src.address base index)) ∨
    (∀ index : TgIndex, index.In dst.shape dst.fmt → a ≠ dst.address base index) ∧
      tdmaG2gTensorCopy src dst base mem a = mem a

/-- `cvk_tl_t`, a tensor in local memory. -/
structure Tl where
  startAddress : Nat
  fmt : CvkFmt
  shape : TgShape
  deriving DecidableEq, Repr

/-- The buffers that a kernel function is run on, by base register. -/
abbrev Buffers := Nat → Nat → UInt8

/-- What `tdma_g2l_tensor_copy` is relied on for: the local tensor gets the bytes of the global
    one. -/
def LoadsTensor (tdmaG2lTensorCopy : Tg → Tl → Buffers → TgIndex → UInt8) : Prop :=
  ∀ src dst buf index, src.shape = dst.shape → index.In src.shape src.fmt →
    tdmaG2lTensorCopy src dst buf index =
      buf src.baseRegIndex (src.startAddress + src.stride.offset index)

/-- What `tdma_l2g_tensor_copy` is relied on for: the global tensor gets the bytes of the local
    one, all other bytes stay. -/
def StoresTensor (tdmaL2gTensorCopy : Tl → Tg → (TgIndex → UInt8) → Buffers → Buffers) : Prop :=
  ∀ src dst value buf reg a, src.shape = dst.shape →
    (reg = dst.baseRegIndex ∧ ∃ index : TgIndex, index.In dst.shape dst.fmt ∧
      a = dst.startAddress + dst.stride.offset index ∧
      tdmaL2gTensorCopy src dst value buf reg a = value index) ∨
    (¬ (reg = dst.baseRegIndex ∧ ∃ index : TgIndex, index.In dst.shape dst.fmt ∧
      a = dst.startAddress + dst.stride.offset index) ∧
      tdmaL2gTensorCopy src dst value buf reg a = buf reg a)

/-- `align_up` of the kernel functions, on `uint64_t` (`matrixMul.cpp:15-17`,
    `grayImageLight.cpp:17-19`). -/
def alignUp (x n : Nat) : Nat := (x + n - 1) / n * n

theorem dvd_alignUp (x n : Nat) : n ∣ alignUp x n := Nat.dvd_mul_left n _

theorem le_alignUp (x : Nat) {n : Nat} (positive : 0 < n) : x ≤ alignUp x n := by
  have := Nat.lt_div_mul_add (a := x + n - 1) positive
  rw [alignUp]
  omega

theorem alignUp_lt (x : Nat) {n : Nat} (positive : 0 < n) : alignUp x n < x + n := by
  have := Nat.div_mul_le_self (x + n - 1) n
  rw [alignUp]
  omega

/-- Only a multiple is not rounded up. -/
theorem alignUp_eq_iff (x : Nat) {n : Nat} (positive : 0 < n) : alignUp x n = x ↔ n ∣ x := by
  constructor
  · intro same
    rw [← same]
    exact dvd_alignUp x n
  · intro divides
    have below := (Nat.dvd_sub (dvd_alignUp x n) divides)
    have small := alignUp_lt x positive
    have above := le_alignUp x positive
    have zero := Nat.eq_zero_of_dvd_of_lt below (by omega)
    omega

/-! ## Values of `int` -/

def InInt32 (x : Int) : Prop := -2 ^ 31 ≤ x ∧ x < 2 ^ 31

instance (x : Int) : Decidable (InInt32 x) := inferInstanceAs (Decidable (_ ∧ _))

/-- A value that the operations with the given results lead to; `none` where one of them
    overflows. -/
def checked {α : Type*} (results : List Int) (value : α) : Option α :=
  if ∀ x ∈ results, InInt32 x then some value else none

theorem checked_eq_some {α : Type*} {results : List Int} {value value' : α} :
    checked results value = some value' ↔ (∀ x ∈ results, InInt32 x) ∧ value = value' := by
  rw [checked, Option.ite_none_right_eq_some, Option.some_inj]

theorem checked_of_inInt32 {α : Type*} {results : List Int} {value : α}
    (inRange : ∀ x ∈ results, InInt32 x) : checked results value = some value := if_pos inRange

theorem forall_mem_ite {P : Int → Prop} {c : Prop} [Decidable c] {x : Int} :
    (∀ y ∈ if c then [x] else [], P y) ↔ (c → P x) := by
  split <;> simp_all

theorem checked_isSome {α : Type*} {results : List Int} {value : α} :
    (checked results value).isSome ↔ ∀ x ∈ results, InInt32 x := by
  rw [checked]
  split <;> simp_all

/-! ## Rows without gaps -/

/-- The number of the row that the byte lies in. -/
def TgIndex.row (index : TgIndex) (shape : TgShape) : Nat :=
  (index.i * shape.c + index.j) * shape.h + index.k

section

variable {index : TgIndex} {shape : TgShape} {fmt : CvkFmt}

/-- The rows of a dense stride follow each other. -/
theorem offset_denseStride (index : TgIndex) (shape : TgShape) (fmt : CvkFmt) :
    (denseStride shape fmt).offset index = index.row shape * (shape.w * fmt.bytes) + index.x := by
  simp only [TgStride.offset, denseStride, TgIndex.row]
  ring

theorem mul_add_lt {a b m n : Nat} (ha : a < m) (hb : b < n) : a * n + b < m * n := by
  calc a * n + b < a * n + n := Nat.add_lt_add_left hb _
    _ = (a + 1) * n := (Nat.succ_mul a n).symm
    _ ≤ m * n := Nat.mul_le_mul_right n ha

theorem TgIndex.In.row_lt (inside : index.In shape fmt) :
    index.row shape < shape.n * shape.c * shape.h :=
  mul_add_lt (mul_add_lt inside.1 inside.2.1) inside.2.2.1

/-- Every row and every byte of it has an index. -/
theorem exists_index {row x : Nat} (rowLt : row < shape.n * shape.c * shape.h)
    (xLt : x < shape.w * fmt.bytes) :
    ∃ index : TgIndex, index.In shape fmt ∧ index.row shape = row ∧ index.x = x := by
  have hPos : 0 < shape.h := Nat.pos_of_mul_pos_left (Nat.zero_lt_of_lt rowLt)
  have planeLt : row / shape.h < shape.n * shape.c := Nat.div_lt_of_lt_mul (by
    rwa [Nat.mul_comm shape.h])
  have cPos : 0 < shape.c := Nat.pos_of_mul_pos_left (Nat.zero_lt_of_lt planeLt)
  refine ⟨⟨row / shape.h / shape.c, row / shape.h % shape.c, row % shape.h, x⟩,
    ⟨?_, Nat.mod_lt _ cPos, Nat.mod_lt _ hPos, xLt⟩, ?_, rfl⟩
  · exact Nat.div_lt_of_lt_mul (by rwa [Nat.mul_comm shape.c])
  · rw [TgIndex.row, Nat.div_add_mod', Nat.div_add_mod']

/-- The bytes of a tensor whose rows have the stride of a format that may be wider than its own:
    the beginning of each row. -/
theorem exists_offset_iff {strideFmt : CvkFmt} (rows : 0 < shape.w)
    (narrow : fmt.bytes ≤ strideFmt.bytes) (off : Nat) :
    (∃ index : TgIndex, index.In shape fmt ∧ (denseStride shape strideFmt).offset index = off) ↔
      off / (shape.w * strideFmt.bytes) < shape.n * shape.c * shape.h ∧
        off % (shape.w * strideFmt.bytes) < shape.w * fmt.bytes := by
  have fits : shape.w * fmt.bytes ≤ shape.w * strideFmt.bytes := Nat.mul_le_mul_left _ narrow
  have stridePos : 0 < shape.w * strideFmt.bytes :=
    Nat.mul_pos rows (by cases strideFmt <;> decide)
  constructor
  · rintro ⟨index, inside, rfl⟩
    have xLt : index.x < shape.w * strideFmt.bytes := inside.2.2.2.trans_le fits
    rw [offset_denseStride, Nat.mul_comm, Nat.mul_add_div stridePos, Nat.mul_add_mod,
      Nat.div_eq_of_lt xLt, Nat.mod_eq_of_lt xLt]
    exact ⟨inside.row_lt, inside.2.2.2⟩
  · rintro ⟨rowLt, xLt⟩
    obtain ⟨index, inside, row, x⟩ := exists_index rowLt xLt
    refine ⟨index, inside, ?_⟩
    rw [offset_denseStride, row, x, Nat.div_add_mod']

end

/-! ## A copy of a tensor -/

/-- All bytes of a tensor. -/
def indices (shape : TgShape) (fmt : CvkFmt) : List TgIndex :=
  (List.range shape.n).flatMap fun i => (List.range shape.c).flatMap fun j =>
    (List.range shape.h).flatMap fun k => (List.range (shape.w * fmt.bytes)).map fun x =>
      ⟨i, j, k, x⟩

theorem mem_indices {index : TgIndex} {shape : TgShape} {fmt : CvkFmt} :
    index ∈ indices shape fmt ↔ index.In shape fmt := by
  obtain ⟨i, j, k, x⟩ := index
  simp [indices, TgIndex.In]

/-- A function that copies as `CopiesTensor` says. -/
def tensorCopy (src dst : Tg) (base : Nat → Nat) (mem : Mem) (a : Nat) : UInt8 :=
  match (indices dst.shape dst.fmt).find? fun index => a = dst.address base index with
  | some index => mem (src.address base index)
  | none => mem a

/-- Functions that load and store as `LoadsTensor` and `StoresTensor` say. -/
def tensorLoad (src : Tg) (_dst : Tl) (buf : Buffers) (index : TgIndex) : UInt8 :=
  buf src.baseRegIndex (src.startAddress + src.stride.offset index)

def tensorStore (_src : Tl) (dst : Tg) (value : TgIndex → UInt8) (buf : Buffers) (reg a : Nat) :
    UInt8 :=
  match (indices dst.shape dst.fmt).find? fun index =>
    reg = dst.baseRegIndex ∧ a = dst.startAddress + dst.stride.offset index with
  | some index => value index
  | none => buf reg a

theorem loadsTensor_tensorLoad : LoadsTensor tensorLoad := fun _ _ _ _ _ _ => rfl

theorem storesTensor_tensorStore : StoresTensor tensorStore := by
  intro src dst value buf reg a _
  rw [tensorStore]
  cases search : (indices dst.shape dst.fmt).find? fun index =>
      decide (reg = dst.baseRegIndex ∧ a = dst.startAddress + dst.stride.offset index) with
  | some index =>
    have found := List.find?_some search
    have place := of_decide_eq_true found
    exact .inl ⟨place.1, index, mem_indices.mp (List.mem_of_find?_eq_some search), place.2, rfl⟩
  | none =>
    refine .inr ⟨?_, rfl⟩
    rintro ⟨register, index, inside, place⟩
    exact List.find?_eq_none.mp search index (mem_indices.mpr inside)
      (decide_eq_true ⟨register, place⟩)

theorem copiesTensor_tensorCopy : CopiesTensor tensorCopy := by
  intro src dst base mem a
  rw [tensorCopy]
  cases search : (indices dst.shape dst.fmt).find? fun index =>
      decide (a = dst.address base index) with
  | some index =>
    have place := List.find?_some search
    exact .inl ⟨index, mem_indices.mp (List.mem_of_find?_eq_some search),
      of_decide_eq_true place, rfl⟩
  | none =>
    refine .inr ⟨fun index inside place => ?_, rfl⟩
    exact List.find?_eq_none.mp search index (mem_indices.mpr inside) (decide_eq_true place)

end CviRuntime.Kernel
