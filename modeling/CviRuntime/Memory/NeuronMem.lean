import CviRuntime.Memory.Device
import CviRuntime.Runtime.Neuron

/-!
# The memory of a neuron (`src/common/neuron.cpp`)

A neuron keeps four copies of what it got from `reserveIonMem`: its handle `_gmem`, the pointer
`_vaddr`, the block `_base_mem` and the entry of its base index in the `_baseMemArray` of its
program, which the neurons of that program share. The operations tell which blocks they use;
`none` is the end of the program at an assertion.
-/

namespace CviRuntime.Memory

open CviRuntime.Runtime (NeuronState)

/-- A pointer the processor can follow. -/
inductive Pointer where
  | null
  /-- into the mapping of a block of device memory -/
  | device (block offset : Nat)
  /-- the buffer that `reserveSysMem` gave a neuron -/
  | cpuMem (neuron : Nat)
  | client (buffer : Nat)
  deriving Repr, DecidableEq

/-- The fields of a `Neuron` that say where its memory is (`neuron.hpp:113-137`). -/
structure NeuronMem where
  size : Nat
  gmem : Option Nat
  vaddr : Pointer
  paddr : Nat
  baseMem : Option Nat
  cpuMem : Pointer
  state : NeuronState
  baseAddrIndex : Nat
  deriving Repr, DecidableEq

/-- `baseMemArray` and `baseAddrArray` of a program (`program.hpp:67-68`). -/
structure BaseArrays where
  mem : Nat → Option Nat
  addr : Nat → Nat

/-- `CVI_TENSOR::mem_type`. -/
inductive MemType where
  | system
  | device
  deriving Repr, DecidableEq

/-- What `load` and `store` read of a `CVI_TENSOR`, and the neuron of its name. -/
structure Tensor where
  neuron : Nat
  memType : MemType
  sysMem : Pointer
  paddr : Nat
  deriving Repr, DecidableEq

/-- What an operation reads, writes, flushes or invalidates: through a handle, which may be
    null, or through a pointer. -/
inductive Use where
  | handle (mem : Option Nat)
  | pointer (p : Pointer)
  deriving Repr, DecidableEq

/-- The handle or pointer leads to memory that was not freed. -/
def Use.Fine (device : Device) : Use → Prop
  | .handle none | .pointer .null => False
  | .handle (some mem) => device.heap.Live mem ∧ device.heap.Live (device.memGetVAddr mem).1
  | .pointer (.device block _) => device.heap.Live block
  | .pointer (.cpuMem _) | .pointer (.client _) => True

instance (device : Device) : DecidablePred (Use.Fine device)
  | .handle none | .pointer .null => .isFalse id
  | .handle (some mem) => inferInstanceAs
      (Decidable (device.heap.Live mem ∧ device.heap.Live (device.memGetVAddr mem).1))
  | .pointer (.device block _) => inferInstanceAs (Decidable (device.heap.Live block))
  | .pointer (.cpuMem _) | .pointer (.client _) => .isTrue trivial

namespace NeuronMem

/-- A neuron before `reserveIonMem` (`neuron.cpp:145-153`, `neuron.hpp:113-137`). -/
def new (size : Nat) : NeuronMem := ⟨size, none, .null, 0, none, .null, .tpuMem, 1⟩

/-- `Neuron::sys_mem` (`neuron.hpp:64-66`). -/
def sysMem (n : NeuronMem) : Pointer := if n.vaddr = .null then n.cpuMem else n.vaddr

/-- `CVI_RT_MemGetVAddr` as a pointer. -/
def vaddrOf (device : Device) (mem : Nat) : Pointer :=
  let (block, offset) := device.memGetVAddr mem
  .device block offset

/-- `CVI_RT_MemGetPAddr`; `physical` gives the address of each block. -/
def paddrOf (physical : Nat → Nat) (device : Device) (mem : Nat) : Nat :=
  let (block, offset) := device.memGetVAddr mem
  physical block + offset

/-- `Neuron::updateBaseAddr(CVI_RT_MEM)` (`neuron.cpp:549-554`). -/
def updateBaseMem (physical : Nat → Nat) (device : Device) (base : BaseArrays) (n : NeuronMem)
    (mem : Nat) : BaseArrays :=
  if n.baseAddrIndex < 3 then base
  else
    { mem := Function.update base.mem n.baseAddrIndex (some mem)
      addr := Function.update base.addr n.baseAddrIndex (paddrOf physical device mem) }

/-- The end of `reserveIonMem` (`neuron.cpp:510-512`). -/
def settle (physical : Nat → Nat) (device : Device) (base : BaseArrays) (n : NeuronMem)
    (gmem : Nat) : NeuronMem :=
  { n with
    gmem := some gmem
    baseMem := base.mem n.baseAddrIndex
    vaddr := vaddrOf device gmem
    paddr := paddrOf physical device gmem }

/-- `Neuron::reserveIonMem` (`neuron.cpp:486-514`). `offset` is the bit pattern of an `int64_t`;
    `ok` says whether an allocation would find memory, and the result whether it was needed in
    vain (`CVI_RC_NOMEM`). -/
def reserveIonMem (physical : Nat → Nat) (device : Device) (base : BaseArrays) (n : NeuronMem)
    (offset : Nat) (ok : Bool) : Option (Bool × NeuronMem × BaseArrays × Device) := do
  if offset = 2 ^ 64 - 1 then return (true, n, base, device)
  let index := offset / 2 ^ 40 % 8
  let shift := offset % 2 ^ 40
  let n := { n with baseAddrIndex := index }
  if index = 1 then none
  else if index < 3 ∨ base.mem index ≠ none then
    let (gmem, device) ← device.memPreAlloc (base.mem index) shift n.size
    return (true, n.settle physical device base gmem, base, device)
  else if shift ≠ 0 then none
  else
    match device.cviMemAlloc n.size ok with
    | (none, device) => return (false, n, base, device)
    | (some gmem, device) =>
      let base := n.updateBaseMem physical device
        { base with mem := Function.update base.mem index (some gmem) } gmem
      return (true, n.settle physical device base gmem, base, device)

/-- What `reserveIonMem` can do: nothing, fail, open a window into the block of the index, or
    allocate that block. -/
theorem reserveIonMem_cases {physical : Nat → Nat} {device device' : Device}
    {base base' : BaseArrays} {n n' : NeuronMem} {offset : Nat} {ok done : Bool}
    (reserved : n.reserveIonMem physical device base offset ok = some (done, n', base', device')) :
    (done = true ∧ n' = n ∧ base' = base ∧ device' = device) ∨
    (done = false ∧ base' = base ∧ device' = device) ∨
    (∃ index b shift, base.mem index = some b ∧ done = true ∧ base' = base ∧
      device' = (device.make n.size
        (.memPreAlloc (device.memGetVAddr b).1 ((device.memGetVAddr b).2 + shift)) []).2 ∧
      n' = settle physical device' base' { n with baseAddrIndex := index } device.heap.next) ∨
    (∃ index, 3 ≤ index ∧ base.mem index = none ∧ done = true ∧
      base'.mem = Function.update base.mem index (some device.heap.next) ∧
      device' = (device.make n.size (.callback device.pair) []).2 ∧
      n' = settle physical device' base' { n with baseAddrIndex := index } device.heap.next) := by
  rw [reserveIonMem] at reserved
  split at reserved
  · cases reserved
    exact .inl ⟨rfl, rfl, rfl, rfl⟩
  generalize offset / 2 ^ 40 % 8 = index at reserved
  generalize offset % 2 ^ 40 = shift at reserved
  simp only at reserved
  split at reserved
  · cases reserved
  · split at reserved
    · obtain ⟨⟨gmem, device''⟩, window, settled⟩ := Option.bind_eq_some_iff.mp reserved
      cases settled
      obtain ⟨b, is, rfl, made⟩ := Device.memPreAlloc_cases window
      exact .inr (.inr (.inl ⟨index, b, shift, is, rfl, rfl, made, rfl⟩))
    · next low =>
      rw [not_or, not_not] at low
      split at reserved
      · cases reserved
      · cases ok with
        | false =>
          cases reserved
          exact .inr (.inl ⟨rfl, rfl, rfl⟩)
        | true =>
          simp only [Device.cviMemAlloc, if_true] at reserved
          cases reserved
          refine .inr (.inr (.inr ⟨index, Nat.not_lt.mp low.1, low.2, rfl, ?_, rfl, rfl⟩))
          simp [updateBaseMem, low.1, Device.make]

/-- When `reserveIonMem` needs no memory, or finds it. -/
def Reserves (base : BaseArrays) (offset : Nat) (ok : Bool) : Prop :=
  offset = 2 ^ 64 - 1 ∨ offset / 2 ^ 40 % 8 < 3 ∨ base.mem (offset / 2 ^ 40 % 8) ≠ none ∨ ok = true

theorem reserveIonMem_done {physical : Nat → Nat} {device device' : Device}
    {base base' : BaseArrays} {n n' : NeuronMem} {offset : Nat} {ok done : Bool}
    (reserved : n.reserveIonMem physical device base offset ok = some (done, n', base', device')) :
    done = true ↔ Reserves base offset ok := by
  rw [reserveIonMem] at reserved
  rw [Reserves]
  split at reserved
  · next none =>
    cases reserved
    exact iff_of_true rfl (.inl none)
  rename_i given
  generalize offset / 2 ^ 40 % 8 = index at reserved ⊢
  generalize offset % 2 ^ 40 = shift at reserved
  simp only at reserved
  split at reserved
  · cases reserved
  · split at reserved
    · next shared =>
      obtain ⟨window, -, settled⟩ := Option.bind_eq_some_iff.mp reserved
      cases settled
      exact iff_of_true rfl (.inr (or_assoc.mp (.inl shared)))
    · next low =>
      rw [not_or] at low
      split at reserved
      · cases reserved
      · cases ok with
        | false =>
          cases reserved
          refine iff_of_false Bool.false_ne_true ?_
          rintro (is | is | is | is)
          · exact given is
          · exact low.1 is
          · exact low.2 is
          · exact Bool.false_ne_true is
        | true =>
          cases reserved
          exact iff_of_true rfl (.inr (.inr (.inr rfl)))

/-- No entry of the base array is overwritten. -/
theorem reserveIonMem_grown {physical : Nat → Nat} {device device' : Device}
    {base base' : BaseArrays} {n n' : NeuronMem} {offset : Nat} {ok done : Bool}
    (reserved : n.reserveIonMem physical device base offset ok = some (done, n', base', device'))
    {i b : Nat} (entry : base.mem i = some b) : base'.mem i = some b := by
  rcases reserveIonMem_cases reserved with ⟨-, -, rfl, -⟩ | ⟨-, rfl, -⟩ | ⟨-, -, -, -, -, rfl, -⟩ |
    ⟨index, -, free, -, entries, -⟩
  · exact entry
  · exact entry
  · exact entry
  · have other : i ≠ index := by
      rintro rfl
      rw [free] at entry
      cases entry
    rw [entries, Function.update_of_ne other]
    exact entry

/-- `Neuron::reserveSysMem` (`neuron.cpp:516-538`) for neuron `k` of its program. -/
def reserveSysMem (n : NeuronMem) (k : Nat) (ok : Bool) : Bool × NeuronMem :=
  if n.gmem ≠ none then (true, n)
  else if n.cpuMem ≠ .null then (true, n)
  else if ok then (true, { n with cpuMem := .cpuMem k })
  else (false, n)

/-- `Neuron::updateBaseAddr(uint64_t)` (`neuron.cpp:540-547`). -/
def updateBaseAddr (device : Device) (base : BaseArrays) (n : NeuronMem) (paddr : Nat) :
    NeuronMem × BaseArrays × Device :=
  if n.baseAddrIndex < 3 then (n, base, device)
  else
    let base := { base with addr := Function.update base.addr n.baseAddrIndex paddr }
    match n.gmem with
    | some gmem => ({ n with paddr := paddr, gmem := none }, base, device.cviMemFree gmem)
    | none => ({ n with paddr := paddr }, base, device)

theorem updateBaseAddr_cases (device : Device) (base : BaseArrays) (n : NeuronMem) (paddr : Nat) :
    (n.baseAddrIndex < 3 ∧ n.updateBaseAddr device base paddr = (n, base, device)) ∨
    (3 ≤ n.baseAddrIndex ∧ n.gmem = none ∧ n.updateBaseAddr device base paddr =
      ({ n with paddr := paddr },
        { base with addr := Function.update base.addr n.baseAddrIndex paddr }, device)) ∨
    ∃ gmem, 3 ≤ n.baseAddrIndex ∧ n.gmem = some gmem ∧ n.updateBaseAddr device base paddr =
      ({ n with paddr := paddr, gmem := none },
        { base with addr := Function.update base.addr n.baseAddrIndex paddr },
        device.cviMemFree gmem) := by
  rw [updateBaseAddr]
  split
  · next low => exact .inl ⟨low, rfl⟩
  · next high =>
    have own : 3 ≤ n.baseAddrIndex := Nat.not_lt.mp high
    cases handle : n.gmem with
    | none => exact .inr (.inl ⟨own, rfl, rfl⟩)
    | some gmem => exact .inr (.inr ⟨gmem, own, rfl, rfl⟩)

/-- `memcpy` of `_size` bytes unless the two are the same. -/
def copy (target source : Pointer) : List Use :=
  if target ≠ source then [.pointer target, .pointer source] else []

/-- `Neuron::load` (`neuron.cpp:398-431`). A copy by TDMA goes from `tensor.paddr` to `_paddr`,
    which is in `_gmem` unless that was given up for the client's address. -/
def load (n : NeuronMem) (tensor : Tensor) : Option (List Use × NeuronMem) :=
  match tensor.memType with
  | .system =>
    if n.vaddr ≠ .null then
      some (copy n.vaddr tensor.sysMem ++ [.handle n.gmem], { n with state := .tpuMem })
    else some (copy n.cpuMem tensor.sysMem, { n with state := .cpuMem })
  | .device =>
    if n.gmem = none ∧ n.paddr = 0 then none
    else if tensor.paddr ≠ n.paddr then
      some (n.gmem.toList.map fun gmem => .handle (some gmem), { n with state := .tpuMem })
    else some ([], { n with state := .tpuMem })

/-- `Neuron::store` (`neuron.cpp:433-457`). -/
def store (n : NeuronMem) (tensor : Tensor) : List Use :=
  match tensor.memType with
  | .system =>
    if n.state = .cpuMem then copy tensor.sysMem n.sysMem
    else .handle n.gmem :: copy tensor.sysMem n.vaddr
  | .device =>
    if tensor.paddr ≠ n.paddr then n.gmem.toList.map fun gmem => .handle (some gmem) else []

/-- `Neuron::toCpu` (`neuron.cpp:459-468`). -/
def toCpu (n : NeuronMem) : List Use × NeuronMem :=
  if n.state ≠ .cpuMem then
    (if n.cpuMem ≠ .null then [.pointer n.cpuMem, .handle n.gmem] else [.handle n.gmem],
      { n with state := .cpuMem })
  else ([], n)

/-- `Neuron::toTpu` (`neuron.cpp:470-484`). -/
def toTpu (n : NeuronMem) : List Use × NeuronMem :=
  if n.state ≠ .tpuMem then
    (if n.cpuMem ≠ .null then [.handle n.gmem, .pointer n.cpuMem]
      else [.handle n.gmem, .handle n.baseMem],
      { n with state := .tpuMem })
  else ([], n)

/-- The three operations that move the bytes change only `_state`. -/
theorem load_frame {n n' : NeuronMem} {tensor : Tensor} {uses : List Use}
    (loaded : n.load tensor = some (uses, n')) : n' = { n with state := n'.state } := by
  rw [load] at loaded
  split at loaded <;> split at loaded <;> try cases loaded <;> rfl
  split at loaded <;> cases loaded <;> rfl

theorem toCpu_frame (n : NeuronMem) : n.toCpu.2 = { n with state := n.toCpu.2.state } := by
  rw [toCpu]
  split <;> rfl

theorem toTpu_frame (n : NeuronMem) : n.toTpu.2 = { n with state := n.toTpu.2.state } := by
  rw [toTpu]
  split <;> rfl

end NeuronMem

end CviRuntime.Memory
