import CviRuntime.Kernel.Cvk
import CviRuntime.Runtime.ChipTarget
import CviRuntime.Runtime.Neuron

/-!
# Loading and storing tensors of device memory (`src/common/neuron.cpp`)

Where the client's tensor is in device memory, `Neuron::load` and `Neuron::store` let the TDMA
engine copy it. The command is generated once, with the default stride of the neuron's format, but
its descriptors always say that an element has one byte: of the rows of wider elements only the
beginning is copied.
-/

namespace CviRuntime.Kernel

open CviRuntime.Interval (Slot)
open CviRuntime.Runtime (DType Neuron Platform)

/-- `CVI_FMT` (`cviruntime.h:22-32`). -/
inductive CviFmt where
  | fp32 | int32 | uint32 | bf16 | int16 | uint16 | int8 | uint8
  deriving DecidableEq, Repr

/-- `fbDtypeToCVIFMTandSize` (`neuron.cpp:18-55`); an unknown type is `none`. -/
def fbDtypeToCVIFMTandSize : DType → Option (CviFmt × Nat)
  | .bf16 => some (.bf16, 2)
  | .int8 => some (.int8, 1)
  | .uint8 => some (.uint8, 1)
  | .fp32 => some (.fp32, 4)
  | .int16 => some (.int16, 2)
  | .uint16 => some (.uint16, 2)
  | .int32 => some (.int32, 4)
  | .uint32 => some (.uint32, 4)
  | .other _ => none

/-- The format that `runtimeJitTdmaStrideCopy` takes the default strides for
    (`tdmaCopy.cpp:43-50`). -/
def cvkFmt : CviFmt → CvkFmt
  | .int8 => .i8
  | .uint8 => .u8
  | _ => .bf16

/-- A command: the descriptors of the source and the destination. -/
structure CopyCmdbuf where
  src : Tg
  dst : Tg
  deriving DecidableEq, Repr

/-- The two functions of the kernel library that a copy uses. -/
structure CopyOps where
  tgDefaultStride : TgShape → CvkFmt → TgStride
  tdmaG2gTensorCopy : Tg → Tg → (Nat → Nat) → Mem → Mem

/-- What they are relied on for. -/
structure CopyOps.Lawful (ops : CopyOps) : Prop where
  dense : IsDense ops.tgDefaultStride
  copies : CopiesTensor ops.tdmaG2gTensorCopy

/-- `runtimeJitTdmaStrideCopy` (`tdmaCopy.cpp:36-82`). The format of both descriptors is
    `CVK_FMT_I8`. -/
def runtimeJitTdmaStrideCopy (ops : CopyOps) (fmt : CviFmt) (shapeDst : TgShape)
    (strideDst : Option TgStride) (shapeSrc : TgShape) (strideSrc : Option TgStride) :
    CopyCmdbuf where
  src := {
    baseRegIndex := 2
    startAddress := 0
    fmt := .i8
    shape := shapeSrc
    stride := strideSrc.getD (ops.tgDefaultStride shapeSrc (cvkFmt fmt)) }
  dst := {
    baseRegIndex := 3
    startAddress := 0
    fmt := .i8
    shape := shapeDst
    stride := strideDst.getD (ops.tgDefaultStride shapeDst (cvkFmt fmt)) }

/-- What a base register holds for an address: `run_cmdbuf_ex` of a board stores the low word and
    clears the high one (`cvi_device_mem.cpp:857-860`), the simulator sets the whole address
    (`cmodel_cmdbuf.cpp:254-255`). -/
def baseRegister : Platform → Nat → Nat
  | .soc _, address => address % 2 ^ 32
  | .cmodel, address => address

/-- `runtimeExecuteKernelFunction` (`tdmaCopy.cpp:26-34`). -/
def runtimeExecuteKernelFunction (ops : CopyOps) (platform : Platform) (codeBuf : CopyCmdbuf)
    (gaddrSrc gaddrDst : Nat) (mem : Mem) : Mem :=
  ops.tdmaG2gTensorCopy codeBuf.src codeBuf.dst
    (fun register => if register = 2 then baseRegister platform gaddrSrc
      else if register = 3 then baseRegister platform gaddrDst else 0) mem

/-- An unaligned neuron: its dimensions are positive and their product, an `int`, does not
    overflow. -/
structure CopyNeuron where
  shape : TgShape
  fmt : CviFmt
  dsize : Nat
  paddr : Nat
  streamCopyCmdbuf : Option CopyCmdbuf
  nPos : 0 < shape.n
  cPos : 0 < shape.c
  hPos : 0 < shape.h
  wPos : 0 < shape.w
  inRange : shape.n * shape.c * shape.h * shape.w < 2 ^ 31

namespace CopyNeuron

variable (n : CopyNeuron)

/-- `_count` and `_size` (`neuron.cpp:160`, `neuron.cpp:242`); the second is a `uint32_t`. -/
def count : Nat := n.shape.n * n.shape.c * n.shape.h * n.shape.w

def size : Nat := n.count * n.dsize % 2 ^ 32

/-- The format and the element size belong together. -/
def Typed : Prop := ∃ dtype, fbDtypeToCVIFMTandSize dtype = some (n.fmt, n.dsize)

/-- The command that a load or store uses, generated if there is none yet. -/
def codeBuf (ops : CopyOps) : CopyCmdbuf :=
  n.streamCopyCmdbuf.getD (runtimeJitTdmaStrideCopy ops n.fmt n.shape none n.shape none)

/-- `Neuron::load` (`neuron.cpp:412-430`) of a tensor in device memory. -/
def load (ops : CopyOps) (platform : Platform) (tensorPaddr : Nat) (mem : Mem) :
    CopyNeuron × Mem :=
  if tensorPaddr ≠ n.paddr then
    ({ n with streamCopyCmdbuf := some (n.codeBuf ops) },
      runtimeExecuteKernelFunction ops platform (n.codeBuf ops) tensorPaddr n.paddr mem)
  else (n, mem)

/-- `Neuron::store` (`neuron.cpp:443-457`) to a tensor in device memory. -/
def store (ops : CopyOps) (platform : Platform) (tensorPaddr : Nat) (mem : Mem) :
    CopyNeuron × Mem :=
  if tensorPaddr ≠ n.paddr then
    ({ n with streamCopyCmdbuf := some (n.codeBuf ops) },
      runtimeExecuteKernelFunction ops platform (n.codeBuf ops) n.paddr tensorPaddr mem)
  else (n, mem)

/-- No command has been generated yet, or one by a load or store of this neuron. -/
def Cached (ops : CopyOps) : Prop :=
  ∀ codeBuf, n.streamCopyCmdbuf = some codeBuf →
    codeBuf = runtimeJitTdmaStrideCopy ops n.fmt n.shape none n.shape none

end CopyNeuron

/-- The bytes of `[src, src + size)` are copied to `dst`, as `memcpy` does it. -/
def CopiesBytes (copy : Mem → Mem) (src dst size : Nat) : Prop :=
  ∀ mem off, off < size → copy mem (dst + off) = mem (src + off)

section

variable {n : CopyNeuron} {ops : CopyOps} {platform : Platform} {tensorPaddr : Nat}

theorem codeBuf_of_cached (cached : n.Cached ops) :
    n.codeBuf ops = runtimeJitTdmaStrideCopy ops n.fmt n.shape none n.shape none := by
  unfold CopyNeuron.codeBuf
  cases before : n.streamCopyCmdbuf with
  | none => rfl
  | some codeBuf => exact cached codeBuf before

/-- The offset lies in the part of a row that is copied. -/
def CopyNeuron.Copied (n : CopyNeuron) (off : Nat) : Prop :=
  off / (n.shape.w * (cvkFmt n.fmt).bytes) < n.shape.n * n.shape.c * n.shape.h ∧
    off % (n.shape.w * (cvkFmt n.fmt).bytes) < n.shape.w

/-- What the TDMA engine does for a neuron: the bytes at the copied offsets from the destination
    are those at the same offsets from the source, and no other byte changes. -/
theorem execute_spec (lawful : ops.Lawful) (n : CopyNeuron) (src dst : Nat) (mem : Mem) (a : Nat) :
    (∃ off, n.Copied off ∧ a = baseRegister platform dst + off ∧
      runtimeExecuteKernelFunction ops platform
        (runtimeJitTdmaStrideCopy ops n.fmt n.shape none n.shape none) src dst mem a =
        mem (baseRegister platform src + off)) ∨
    (∀ off, n.Copied off → a ≠ baseRegister platform dst + off) ∧
      runtimeExecuteKernelFunction ops platform
        (runtimeJitTdmaStrideCopy ops n.fmt n.shape none n.shape none) src dst mem a = mem a := by
  have narrow : CvkFmt.bytes .i8 ≤ (cvkFmt n.fmt).bytes := by cases n.fmt <;> decide
  have places := fun off => exists_offset_iff n.wPos narrow off
  rw [runtimeExecuteKernelFunction, runtimeJitTdmaStrideCopy]
  simp only [Option.getD_none, lawful.dense n.shape (cvkFmt n.fmt)]
  simp only [CvkFmt.bytes, Nat.mul_one] at places
  rcases lawful.copies
    ⟨2, 0, .i8, n.shape, denseStride n.shape (cvkFmt n.fmt)⟩
    ⟨3, 0, .i8, n.shape, denseStride n.shape (cvkFmt n.fmt)⟩
    (fun register => if register = 2 then baseRegister platform src
      else if register = 3 then baseRegister platform dst else 0) mem a with
    ⟨index, inside, place, copied⟩ | ⟨outside, kept⟩
  · exact .inl ⟨_, (places _).mp ⟨index, inside, rfl⟩, place, copied⟩
  · refine .inr ⟨?_, kept⟩
    rintro off copied rfl
    obtain ⟨index, inside, rfl⟩ := (places off).mpr copied
    exact outside index inside rfl

/-- The element size of the strides: 1 for the 8-bit types and 2 for all others. -/
theorem cvkFmt_bytes (typed : n.Typed) : (cvkFmt n.fmt).bytes = if n.dsize = 1 then 1 else 2 := by
  obtain ⟨dtype, known⟩ := typed
  cases dtype
  case other => cases known
  all_goals
    simp only [fbDtypeToCVIFMTandSize, Option.some.injEq, Prod.mk.injEq] at known
    rw [← known.1, ← known.2]
    rfl

theorem rows_pos (n : CopyNeuron) : 0 < n.shape.n * n.shape.c * n.shape.h :=
  Nat.mul_pos (Nat.mul_pos n.nPos n.cPos) n.hPos

/-- No copied offset has more than 32 bits. -/
theorem CopyNeuron.Copied.lt {off : Nat} (copied : n.Copied off) : off < 2 ^ 32 := by
  have wide : (cvkFmt n.fmt).bytes ≤ 2 := by cases n.fmt <;> decide
  have stridePos : 0 < n.shape.w * (cvkFmt n.fmt).bytes :=
    Nat.mul_pos n.wPos (by cases n.fmt <;> decide)
  have below := (Nat.div_lt_iff_lt_mul stridePos).mp copied.1
  calc off < n.shape.n * n.shape.c * n.shape.h * (n.shape.w * (cvkFmt n.fmt).bytes) := below
    _ = n.count * (cvkFmt n.fmt).bytes := (Nat.mul_assoc _ _ _).symm
    _ ≤ n.count * 2 := Nat.mul_le_mul_left _ wide
    _ ≤ 2 ^ 32 := by
      have bound : n.count < 2 ^ 31 := n.inRange
      omega

/-- All bytes of the neuron are copied exactly when its elements have one byte, or it is no
    longer than the beginning of the first row. -/
theorem forall_copied_iff (typed : n.Typed) :
    (∀ off < n.size, n.Copied off) ↔ n.dsize = 1 ∨ n.size ≤ n.shape.w := by
  have bytes := cvkFmt_bytes typed
  have wPos := n.wPos
  have rows := rows_pos n
  constructor
  · intro all
    by_contra neither
    rw [not_or, Nat.not_le] at neither
    rw [if_neg neither.1] at bytes
    have second := (all n.shape.w neither.2).2
    rw [bytes, Nat.mod_eq_of_lt (by omega)] at second
    exact second.false
  · rintro (one | short) off below
    · rw [if_pos one] at bytes
      have small : off < n.count := by
        rw [CopyNeuron.size, one, Nat.mul_one] at below
        exact below.trans_le (Nat.mod_le _ _)
      refine ⟨?_, ?_⟩
      · rw [bytes, Nat.mul_one]
        exact (Nat.div_lt_iff_lt_mul wPos).mpr small
      · rw [bytes, Nat.mul_one]
        exact Nat.mod_lt _ wPos
    · have inRow : off < n.shape.w * (cvkFmt n.fmt).bytes := by
        have atLeast : 1 ≤ (cvkFmt n.fmt).bytes := by cases n.fmt <;> decide
        have wider := Nat.mul_le_mul_left n.shape.w atLeast
        omega
      refine ⟨?_, ?_⟩
      · rw [Nat.div_eq_of_lt inRow]
        exact rows
      · rw [Nat.mod_eq_of_lt inRow]
        omega

/-- A base register holds the whole address on the simulator, and below 4 GiB. -/
theorem baseRegister_eq_iff (address : Nat) :
    baseRegister platform address = address ↔ platform = .cmodel ∨ address < 2 ^ 32 := by
  cases platform with
  | soc chip =>
    rw [baseRegister]
    simp only [reduceCtorEq, false_or]
    omega
  | cmodel => simp [baseRegister]

/-- An offset of 32 bits does not make up for what the base register lost. -/
theorem eq_zero_of_baseRegister_add {address off : Nat} (small : off < 2 ^ 32)
    (same : address = baseRegister platform address + off) : off = 0 := by
  cases platform with
  | soc chip =>
    rw [baseRegister] at same
    omega
  | cmodel =>
    rw [baseRegister] at same
    omega

/-- Given the addresses in full, the engine copies the bytes at the copied offsets. -/
theorem execute_of_copied (lawful : ops.Lawful) {src dst off : Nat}
    (reached : platform = .cmodel ∨ src < 2 ^ 32 ∧ dst < 2 ^ 32) (copied : n.Copied off)
    (mem : Mem) :
    runtimeExecuteKernelFunction ops platform
      (runtimeJitTdmaStrideCopy ops n.fmt n.shape none n.shape none) src dst mem (dst + off) =
      mem (src + off) := by
  have srcFull : baseRegister platform src = src :=
    (baseRegister_eq_iff src).mpr (reached.imp_right And.left)
  have dstFull : baseRegister platform dst = dst :=
    (baseRegister_eq_iff dst).mpr (reached.imp_right And.right)
  rcases @execute_spec ops platform lawful n src dst mem (dst + off) with
    ⟨off', -, place, value⟩ | ⟨outside, -⟩
  · rw [dstFull] at place
    rw [value, srcFull, Nat.add_left_cancel place]
  · exact absurd (by rw [dstFull]) (outside off copied)

theorem execute_of_not_copied (lawful : ops.Lawful) {src dst a : Nat}
    (reached : platform = .cmodel ∨ dst < 2 ^ 32) (outside : ∀ off, n.Copied off → a ≠ dst + off)
    (mem : Mem) :
    runtimeExecuteKernelFunction ops platform
      (runtimeJitTdmaStrideCopy ops n.fmt n.shape none n.shape none) src dst mem a = mem a := by
  have dstFull : baseRegister platform dst = dst := (baseRegister_eq_iff dst).mpr reached
  rcases @execute_spec ops platform lawful n src dst mem a with
    ⟨off, copied, place, -⟩ | ⟨-, kept⟩
  · rw [dstFull] at place
    exact absurd place (outside off copied)
  · exact kept

/-- The TDMA engine copies the bytes of a neuron as `memcpy` would exactly when there are none,
    or when it is given the addresses in full and all offsets are copied. -/
theorem execute_copies_iff (lawful : ops.Lawful) (typed : n.Typed) {src dst : Nat}
    (other : src ≠ dst) :
    CopiesBytes (runtimeExecuteKernelFunction ops platform
      (runtimeJitTdmaStrideCopy ops n.fmt n.shape none n.shape none) src dst) src dst n.size ↔
      n.size = 0 ∨ (platform = .cmodel ∨ src < 2 ^ 32 ∧ dst < 2 ^ 32) ∧
        (n.dsize = 1 ∨ n.size ≤ n.shape.w) := by
  constructor
  · intro copies
    by_cases empty : n.size = 0
    · exact .inl empty
    -- A memory with one marked byte tells which byte arrived at `dst + off`.
    have arrived : ∀ off < n.size, ∃ off', n.Copied off' ∧
        dst + off = baseRegister platform dst + off' ∧
        baseRegister platform src + off' = src + off := by
      intro off below
      have marked := copies (fun a => if a = src + off then 1 else 0) off below
      rcases @execute_spec ops platform lawful n src dst
        (fun a => if a = src + off then 1 else 0) (dst + off) with
        ⟨off', copied, place, value⟩ | ⟨-, kept⟩
      · refine ⟨off', copied, place, ?_⟩
        rw [value, if_pos rfl] at marked
        by_contra wrong
        rw [if_neg wrong] at marked
        exact absurd marked (by decide)
      · rw [kept, if_pos rfl, if_neg (by omega)] at marked
        exact absurd marked (by decide)
    obtain ⟨first, copied, place, value⟩ := arrived 0 (Nat.pos_of_ne_zero empty)
    have zero : first = 0 := eq_zero_of_baseRegister_add copied.lt (by simpa using place)
    subst zero
    have dstFull : baseRegister platform dst = dst := by omega
    have srcFull : baseRegister platform src = src := by omega
    refine .inr ⟨?_, ?_⟩
    · have dstReached := (baseRegister_eq_iff dst).mp dstFull
      have srcReached := (baseRegister_eq_iff src).mp srcFull
      rcases dstReached with simulator | dstSmall
      · exact .inl simulator
      · exact srcReached.imp_right fun srcSmall => ⟨srcSmall, dstSmall⟩
    · refine (forall_copied_iff typed).mp fun off below => ?_
      obtain ⟨off', copied, place, -⟩ := arrived off below
      rw [dstFull] at place
      rwa [Nat.add_left_cancel place]
  · rintro (empty | ⟨reached, covered⟩) mem off below
    · rw [empty] at below
      exact absurd below (Nat.not_lt_zero off)
    · exact execute_of_copied lawful reached ((forall_copied_iff typed).mpr covered off below) mem

theorem load_eq (cached : n.Cached ops) (other : tensorPaddr ≠ n.paddr) (mem : Mem) :
    (n.load ops platform tensorPaddr mem).2 = runtimeExecuteKernelFunction ops platform
      (runtimeJitTdmaStrideCopy ops n.fmt n.shape none n.shape none) tensorPaddr n.paddr mem := by
  rw [CopyNeuron.load, if_pos other, codeBuf_of_cached cached]

theorem store_eq (cached : n.Cached ops) (other : tensorPaddr ≠ n.paddr) (mem : Mem) :
    (n.store ops platform tensorPaddr mem).2 = runtimeExecuteKernelFunction ops platform
      (runtimeJitTdmaStrideCopy ops n.fmt n.shape none n.shape none) n.paddr tensorPaddr mem := by
  rw [CopyNeuron.store, if_pos other, codeBuf_of_cached cached]

theorem load_copies_iff (lawful : ops.Lawful) (typed : n.Typed) (cached : n.Cached ops)
    (other : tensorPaddr ≠ n.paddr) :
    CopiesBytes (fun mem => (n.load ops platform tensorPaddr mem).2) tensorPaddr n.paddr n.size ↔
      n.size = 0 ∨ (platform = .cmodel ∨ tensorPaddr < 2 ^ 32 ∧ n.paddr < 2 ^ 32) ∧
        (n.dsize = 1 ∨ n.size ≤ n.shape.w) := by
  have loads : (fun mem => (n.load ops platform tensorPaddr mem).2) =
      runtimeExecuteKernelFunction ops platform
        (runtimeJitTdmaStrideCopy ops n.fmt n.shape none n.shape none) tensorPaddr n.paddr := by
    funext mem
    exact load_eq cached other mem
  rw [loads]
  exact execute_copies_iff lawful typed other

theorem store_copies_iff (lawful : ops.Lawful) (typed : n.Typed) (cached : n.Cached ops)
    (other : tensorPaddr ≠ n.paddr) :
    CopiesBytes (fun mem => (n.store ops platform tensorPaddr mem).2) n.paddr tensorPaddr n.size ↔
      n.size = 0 ∨ (platform = .cmodel ∨ n.paddr < 2 ^ 32 ∧ tensorPaddr < 2 ^ 32) ∧
        (n.dsize = 1 ∨ n.size ≤ n.shape.w) := by
  have stores : (fun mem => (n.store ops platform tensorPaddr mem).2) =
      runtimeExecuteKernelFunction ops platform
        (runtimeJitTdmaStrideCopy ops n.fmt n.shape none n.shape none) n.paddr tensorPaddr := by
    funext mem
    exact store_eq cached other mem
  rw [stores]
  exact execute_copies_iff lawful typed other.symm

/-! ## The copy in the model of the neurons -/

/-- The neuron with its memory in the given base block, as inferences see it. -/
def CopyNeuron.toNeuron (n : CopyNeuron) (overwrote : Bool) (baseMem : Slot) : Neuron where
  size := n.size
  copyRows := n.shape.n * n.shape.c * n.shape.h
  copyWidth := n.shape.w
  copyStride := n.shape.w * (cvkFmt n.fmt).bytes
  overwrote := overwrote
  backing := .device n.paddr baseMem

theorem copied_toNeuron (overwrote : Bool) (baseMem : Slot) (off : Nat) :
    (n.toNeuron overwrote baseMem).copied off = true ↔ n.Copied off := by
  have stridePos : 0 < n.shape.w * (cvkFmt n.fmt).bytes :=
    Nat.mul_pos n.wPos (by cases n.fmt <;> decide)
  rw [Neuron.copied, Neuron.copySize, Bool.and_eq_true_iff, decide_eq_true_iff, decide_eq_true_iff]
  exact and_congr_left fun _ => (Nat.div_lt_iff_lt_mul stridePos).symm

/-- Given the addresses in full, the TDMA engine moves just the copied bytes. -/
theorem execute_apply (lawful : ops.Lawful) {src dst : Nat}
    (reached : platform = .cmodel ∨ src < 2 ^ 32 ∧ dst < 2 ^ 32) (overwrote : Bool)
    (baseMem : Slot) (mem : Mem) (off : Nat) :
    runtimeExecuteKernelFunction ops platform
        (runtimeJitTdmaStrideCopy ops n.fmt n.shape none n.shape none) src dst mem (dst + off) =
      ((n.toNeuron overwrote baseMem).copyData (fun i => mem (src + i)) off).getD
        (mem (dst + off)) := by
  rw [Neuron.copyData]
  by_cases copied : n.Copied off
  · rw [execute_of_copied lawful reached copied,
      if_pos ((copied_toNeuron overwrote baseMem off).mpr copied)]
    rfl
  · rw [execute_of_not_copied lawful (reached.imp_right And.right),
      if_neg (mt (copied_toNeuron overwrote baseMem off).mp copied)]
    · rfl
    · rintro off' inside same
      rw [Nat.add_left_cancel same] at copied
      exact copied inside

/-- A load from device memory is the device write of `Neuron.load`. -/
theorem load_refines (lawful : ops.Lawful) (cached : n.Cached ops) (other : tensorPaddr ≠ n.paddr)
    (reached : platform = .cmodel ∨ tensorPaddr < 2 ^ 32 ∧ n.paddr < 2 ^ 32) (overwrote : Bool)
    (baseMem : Slot) (mem : Mem) (a : Nat) :
    (n.load ops platform tensorPaddr mem).2 a =
      ((n.toNeuron overwrote baseMem).place (n.toNeuron overwrote baseMem).copySize
        ((n.toNeuron overwrote baseMem).copyData fun i => mem (tensorPaddr + i)) a).getD
        (mem a) := by
  have paddr : (n.toNeuron overwrote baseMem).paddr = n.paddr := rfl
  rw [load_eq cached other, Neuron.place, paddr]
  by_cases behind : n.paddr ≤ a
  · obtain ⟨off, rfl⟩ := Nat.exists_eq_add_of_le behind
    rw [execute_apply lawful reached overwrote baseMem, Nat.add_sub_cancel_left]
    by_cases inRows : off < (n.toNeuron overwrote baseMem).copySize
    · rw [if_pos ⟨behind, Nat.add_lt_add_left inRows _⟩]
    · rw [if_neg (by omega), Neuron.copyData, if_neg]
      intro copied
      exact inRows (of_decide_eq_true (Bool.and_eq_true_iff.mp copied).1)
  · rw [if_neg fun inside => behind inside.1]
    exact execute_of_not_copied lawful (reached.imp_right And.right) (fun off _ => by omega) mem

/-- A store to device memory delivers the bytes that `Neuron.store` does. -/
theorem store_refines (lawful : ops.Lawful) (cached : n.Cached ops) (other : tensorPaddr ≠ n.paddr)
    (reached : platform = .cmodel ∨ n.paddr < 2 ^ 32 ∧ tensorPaddr < 2 ^ 32) (overwrote : Bool)
    (baseMem : Slot) (mem : Mem) (i : Nat) :
    (n.store ops platform tensorPaddr mem).2 (tensorPaddr + i) =
      ((n.toNeuron overwrote baseMem).copyData (fun i => mem (n.paddr + i)) i).getD
        (mem (tensorPaddr + i)) := by
  rw [store_eq cached other, execute_apply lawful reached overwrote baseMem]

/-! ## Runs of transfers -/

/-- A load from, or a store to, device memory at an address. -/
inductive Transfer where
  | load (tensorPaddr : Nat)
  | store (tensorPaddr : Nat)
  deriving DecidableEq, Repr

def CopyNeuron.transfer (ops : CopyOps) (platform : Platform) (state : CopyNeuron × Mem) :
    Transfer → CopyNeuron × Mem
  | .load tensorPaddr => state.1.load ops platform tensorPaddr state.2
  | .store tensorPaddr => state.1.store ops platform tensorPaddr state.2

/-- A transfer changes nothing of the neuron but the command, which is then the one for it. -/
theorem transfer_cached (platform : Platform) (cached : n.Cached ops) (mem : Mem)
    (transfer : Transfer) :
    ∃ cmdbuf mem', CopyNeuron.transfer ops platform (n, mem) transfer =
        ({ n with streamCopyCmdbuf := cmdbuf }, mem') ∧
      CopyNeuron.Cached { n with streamCopyCmdbuf := cmdbuf } ops := by
  have kept : CopyNeuron.Cached { n with streamCopyCmdbuf := some (n.codeBuf ops) } ops := by
    intro codeBuf same
    cases same
    exact codeBuf_of_cached cached
  cases transfer with
  | load tensorPaddr =>
    rw [CopyNeuron.transfer, CopyNeuron.load]
    split
    · exact ⟨_, _, rfl, kept⟩
    · exact ⟨n.streamCopyCmdbuf, mem, rfl, cached⟩
  | store tensorPaddr =>
    rw [CopyNeuron.transfer, CopyNeuron.store]
    split
    · exact ⟨_, _, rfl, kept⟩
    · exact ⟨n.streamCopyCmdbuf, mem, rfl, cached⟩

theorem transfers_cached (platform : Platform) (cached : n.Cached ops) (transfers : List Transfer)
    (mem : Mem) :
    ∃ cmdbuf mem', transfers.foldl (CopyNeuron.transfer ops platform) (n, mem) =
        ({ n with streamCopyCmdbuf := cmdbuf }, mem') ∧
      CopyNeuron.Cached { n with streamCopyCmdbuf := cmdbuf } ops := by
  induction transfers generalizing n mem with
  | nil => exact ⟨n.streamCopyCmdbuf, mem, rfl, cached⟩
  | cons transfer transfers ih =>
    obtain ⟨cmdbuf, mem', step, cached⟩ := transfer_cached platform cached mem transfer
    rw [List.foldl_cons, step]
    exact ih cached mem'

/-- The same holds after every run of loads and stores of a neuron without a command. -/
theorem copies_iff_after_transfers (lawful : ops.Lawful) (typed : n.Typed)
    (fresh : n.streamCopyCmdbuf = none) (other : tensorPaddr ≠ n.paddr) (transfers : List Transfer)
    (mem : Mem) :
    let n' := (transfers.foldl (CopyNeuron.transfer ops platform) (n, mem)).1
    (CopiesBytes (fun mem => (n'.load ops platform tensorPaddr mem).2) tensorPaddr n.paddr n.size ↔
      n.size = 0 ∨ (platform = .cmodel ∨ tensorPaddr < 2 ^ 32 ∧ n.paddr < 2 ^ 32) ∧
        (n.dsize = 1 ∨ n.size ≤ n.shape.w)) ∧
    (CopiesBytes (fun mem => (n'.store ops platform tensorPaddr mem).2) n.paddr tensorPaddr n.size ↔
      n.size = 0 ∨ (platform = .cmodel ∨ n.paddr < 2 ^ 32 ∧ tensorPaddr < 2 ^ 32) ∧
        (n.dsize = 1 ∨ n.size ≤ n.shape.w)) := by
  have cached : n.Cached ops := fun codeBuf same => absurd (fresh.symm.trans same) (by simp)
  obtain ⟨cmdbuf, mem', reached, cached⟩ := transfers_cached platform cached transfers mem
  rw [reached]
  exact ⟨load_copies_iff lawful typed cached other, store_copies_iff lawful typed cached other⟩

/-- Loading from and storing to device memory at another address copies the bytes that the path
    through system memory copies exactly for empty neurons, and for those with 8-bit elements (or
    a size that wrapped to less than a row), at addresses that reach the engine in full. -/
theorem device_copy_iff (ops : CopyOps) (lawful : ops.Lawful) (platform : Platform)
    (n : CopyNeuron) (typed : n.Typed) (cached : n.Cached ops) (tensorPaddr : Nat)
    (other : tensorPaddr ≠ n.paddr) :
    (CopiesBytes (fun mem => (n.load ops platform tensorPaddr mem).2) tensorPaddr n.paddr n.size ↔
      n.size = 0 ∨ (platform = .cmodel ∨ tensorPaddr < 2 ^ 32 ∧ n.paddr < 2 ^ 32) ∧
        (n.dsize = 1 ∨ n.size ≤ n.shape.w)) ∧
    (CopiesBytes (fun mem => (n.store ops platform tensorPaddr mem).2) n.paddr tensorPaddr n.size ↔
      n.size = 0 ∨ (platform = .cmodel ∨ n.paddr < 2 ^ 32 ∧ tensorPaddr < 2 ^ 32) ∧
        (n.dsize = 1 ∨ n.size ≤ n.shape.w)) := by
  exact ⟨load_copies_iff lawful typed cached other, store_copies_iff lawful typed cached other⟩

end

/-- A library that does what is relied on. -/
def copyOps : CopyOps := ⟨denseStride, tensorCopy⟩

theorem copyOps_lawful : copyOps.Lawful := ⟨fun _ _ => rfl, copiesTensor_tensorCopy⟩

theorem twelve_lt : 2 * 1 * 2 * 3 < 2 ^ 31 := by decide

/-- Two images of 1 by 2 by 3 bytes. -/
def byteNeuron : CopyNeuron where
  shape := ⟨2, 1, 2, 3⟩
  fmt := .int8
  dsize := 1
  paddr := 200
  streamCopyCmdbuf := none
  nPos := Nat.two_pos
  cPos := Nat.one_pos
  hPos := Nat.two_pos
  wPos := Nat.succ_pos 2
  inRange := twelve_lt

theorem device_copy_iff_bytes :
    CopiesBytes (fun mem => (byteNeuron.load copyOps (.soc Runtime.cv183x) 100 mem).2) 100 200 12 :=
  (device_copy_iff copyOps copyOps_lawful (.soc Runtime.cv183x) byteNeuron ⟨.int8, rfl⟩
    (fun _ cached => nomatch cached) 100 (by decide)).1.mpr
    (.inr ⟨.inr ⟨by decide, by decide⟩, .inl rfl⟩)

theorem four_lt : 1 * 1 * 2 * 2 < 2 ^ 31 := by decide

/-- Two rows of two elements of 16 bits. -/
def wideNeuron : CopyNeuron where
  shape := ⟨1, 1, 2, 2⟩
  fmt := .bf16
  dsize := 2
  paddr := 200
  streamCopyCmdbuf := none
  nPos := Nat.one_pos
  cPos := Nat.one_pos
  hPos := Nat.two_pos
  wPos := Nat.two_pos
  inRange := four_lt

/-- The second element of the first row is not copied. -/
theorem device_copy_bf16 :
    ¬ CopiesBytes (fun mem => (wideNeuron.load copyOps .cmodel 100 mem).2) 100 200 8 := by
  intro copies
  have second := copies (fun a => if a = 102 then 1 else 0) 2 (by decide)
  exact absurd second (by decide)

end CviRuntime.Kernel
