import CviRuntime.Pmu.Events
import CviRuntime.Dmabuf.Model

/-!
# The registers of the events (`src/soc/180x/tpu_pmu.cpp`)

`tpu_pmu_fill_cmdbuf` looks for the descriptor of every event in `p_element`, from behind the one
found last for the engine, and keeps its registers beside the event. The registers themselves come
from the kernel headers. An access outside of `p_element` ends the run without a result.
-/

namespace CviRuntime.Pmu

open ByteMem Dmabuf

/-- What the reports take from `tiu_reg_t`. -/
structure TiuReg where
  cmdIdTpu : Nat
  layerInfo : Nat
  deriving DecidableEq, Repr

/-- What the reports take from `tdma_reg_t`. -/
structure TdmaReg where
  cmdId : Nat
  layerID : Nat
  compressEn : Nat
  sysDtype : Nat
  srcBaseRegSel : Nat
  srcBaseAddrHigh : Nat
  srcBaseAddrLow : Nat
  dstBaseAddrHigh : Nat
  dstBaseAddrLow : Nat
  transFmt : Nat
  transposeMd : Nat
  waitIdTpu : Nat
  dstHStride : Nat
  dstCStrideLow : Nat
  dstNStride : Nat
  srcHStride : Nat
  srcCStrideLow : Nat
  srcNStride : Nat
  dstC : Nat
  srcC : Nat
  dstW : Nat
  dstH : Nat
  srcW : Nat
  srcH : Nat
  srcN : Nat
  deriving DecidableEq, Repr

/-- What the PMU takes from `bmkernel` besides the sizes. -/
structure RegHeaders where
  k : KernelHeaders
  /-- `sizeof(TPU_DES_ELEMENT)` -/
  sizeofDesElement : Nat
  parseTiuReg : List UInt8 → TiuReg
  parseTdmaReg : List UInt8 → TdmaReg
  /-- the text that `switch (tmpTIU_Reg.tsk_typ)` copies (`tpu_pmu.cpp:187-458`), if any -/
  tiuTypeStr : List UInt8 → Option String
  tiu_id : ∀ bytes, (parseTiuReg bytes).cmdIdTpu = k.tiuCmdId bytes
  tdma_id : ∀ bytes, (parseTdmaReg bytes).cmdId = k.tdmaCmdId bytes

/-- `TPU_DES_ELEMENT` (`tpu_pmu.cpp:38-43`). -/
structure DesElement where
  pmuEvent : PmuEvent
  tiuReg : TiuReg
  tdmaReg : TdmaReg
  typeStr : String
  deriving DecidableEq, Repr

/-- `tdma_des_fill_str` (`tpu_pmu.cpp:97-125`). -/
def tdmaDesFillStr (type : BitVec 4) (reg : TdmaReg) : String :=
  let tmpStr :=
    if type = typeTdmaLoad then "Load"
    else if type = typeTdmaStore then "Store"
    else if type = typeTdmaMove then "Move"
    else ""
  let str1 := if reg.compressEn ≠ 0 then tmpStr ++ " " ++ "Compression" else tmpStr
  (if reg.sysDtype ≠ 0 then "TDMA Matrix" else "TDMA Tensor") ++ " " ++ str1

/-- `reorder_back_tiu_cmdbuf_reg` (`tpu_pmu.cpp:86-97`): swap the first and the last 16 bytes. -/
def reorderBackTiuCmdbufReg (k : KernelHeaders) (bytes : List UInt8) : List UInt8 :=
  let last := k.bdRegBytes - 16
  bytes.mapIdx fun i byte =>
    if i < 16 then bytes.getD (last + i) 0
    else if last ≤ i then bytes.getD (i - last) 0
    else byte

/-- `start_index_tdma`, `start_index_tiu`, the key of the last TDMA event with a descriptor, and
    the reads of descriptors, as offset and length. -/
structure Cursors where
  startIndexTdma : Nat := 0
  startIndexTiu : Nat := 0
  tdmaPrevious : EventKey := ⟨0, 0, 0⟩
  reads : List (Nat × Nat) := []
  deriving DecidableEq, Repr

/-- The loops over the descriptors, from `i` on: the first with the id, and the offsets that were
    read. -/
def scanSlots (offsetOf idAt : Nat → Nat) (desID : Nat) : Nat → Nat → Option Nat × List Nat
  | 0, _ => (none, [])
  | left + 1, i =>
    if idAt (offsetOf i) = desID then (some i, [offsetOf i])
    else
      let (hit, offsets) := scanSlots offsetOf idAt desID left (i + 1)
      (hit, offsetOf i :: offsets)

section

variable (h : RegHeaders) (m : Nat → UInt8)

/-- The words of the first `cvi_cpu_desc_t`, the only one that is looked at
    (`tpu_pmu.cpp:129,141-147`). -/
def tiuCntOf : Nat := read32 m (armAt h.k 0 + 4)

def tdmaCntOf : Nat := read32 m (armAt h.k 0 + 8)

def tiuOffsetOf (i : Nat) : Nat := (read32 m (armAt h.k 0 + 20) + h.k.bdRegBytes * i) % 2 ^ 32

def tdmaOffsetOf (i : Nat) : Nat :=
  (read32 m (armAt h.k 0 + 24) + 2 ^ h.k.tdmaAlignedBit * i) % 2 ^ 32

/-- The bytes of a TIU descriptor in the order of the registers. -/
def tiuBytesAt (offset : Nat) : List UInt8 :=
  reorderBackTiuCmdbufReg h.k (readBytes m offset h.k.bdRegBytes)

def tiuRegAt (offset : Nat) : TiuReg := h.parseTiuReg (tiuBytesAt h m offset)

def tdmaRegAt (offset : Nat) : TdmaReg := h.parseTdmaReg (readBytes m offset h.k.tdmaRegBytes)

/-- The branch for a TIU event (`tpu_pmu.cpp:175-465`). -/
def fillTiu (cur : Cursors) (element : DesElement) : DesElement × Cursors :=
  let (hit, offsets) := scanSlots (tiuOffsetOf h m) (fun offset => (tiuRegAt h m offset).cmdIdTpu)
    element.pmuEvent.desID.toNat (tiuCntOf h m - cur.startIndexTiu) cur.startIndexTiu
  let cur := { cur with reads := cur.reads ++ offsets.map (·, h.k.bdRegBytes) }
  match hit with
  | none => (element, cur)
  | some i =>
    ({ element with
        tiuReg := tiuRegAt h m (tiuOffsetOf h m i)
        typeStr := (h.tiuTypeStr (tiuBytesAt h m (tiuOffsetOf h m i))).getD element.typeStr },
      { cur with startIndexTiu := i + 1 })

/-- The branch for a TDMA event (`tpu_pmu.cpp:151-174`), where `before` is the `tdmaReg` of the
    element in front. -/
def fillTdma (before : Option TdmaReg) (cur : Cursors) (element : DesElement) :
    Option (DesElement × Cursors) := do
  if element.pmuEvent.key ≠ cur.tdmaPrevious then
    let (hit, offsets) := scanSlots (tdmaOffsetOf h m) (fun offset => (tdmaRegAt h m offset).cmdId)
      element.pmuEvent.desID.toNat (tdmaCntOf h m - cur.startIndexTdma) cur.startIndexTdma
    let cur := { cur with reads := cur.reads ++ offsets.map (·, h.k.tdmaRegBytes) }
    match hit with
    | none => return (element, cur)
    | some i =>
      let tdmaReg := tdmaRegAt h m (tdmaOffsetOf h m i)
      let typeStr := tdmaDesFillStr element.pmuEvent.type tdmaReg
      return ({ element with tdmaReg, typeStr },
        { cur with startIndexTdma := i + 1, tdmaPrevious := element.pmuEvent.key })
  else
    -- a g2g pair: the second event takes the registers of the element in front
    let tdmaReg ← before
    let typeStr := tdmaDesFillStr element.pmuEvent.type tdmaReg
    return ({ element with tdmaReg, typeStr }, cur)

def fillElement (before : Option TdmaReg) (cur : Cursors) (element : DesElement) :
    Option (DesElement × Cursors) :=
  if element.pmuEvent.type ≠ typeTiu then fillTdma h m before cur element
  else some (fillTiu h m cur element)

def fillLoop : Nat → Nat → List DesElement → Cursors → Option (List DesElement × Cursors)
  | 0, _, _, _ => none
  | fuel + 1, index, pElement, cur => do
    let element ← pElement[index]?
    if element.pmuEvent.type = 0 then return (pElement, cur)
    let before := if index = 0 then none else pElement[index - 1]?.map DesElement.tdmaReg
    let (element, cur) ← fillElement h m before cur element
    fillLoop fuel (index + 1) (pElement.set index element) cur

/-- `tpu_pmu_fill_cmdbuf` (`tpu_pmu.cpp:127-470`). -/
def tpuPmuFillCmdbuf (fuel : Nat) (pElement : List DesElement) :
    Option (List DesElement × Cursors) :=
  fillLoop h m fuel 0 pElement {}

/-- The same over the elements up to the one without a type. -/
def fillList : Option TdmaReg → Cursors → List DesElement → Option (List DesElement × Cursors)
  | _, cur, [] => some ([], cur)
  | before, cur, element :: elements => do
    let (element, cur) ← fillElement h m before cur element
    let (elements, cur) ← fillList (some element.tdmaReg) cur elements
    return (element :: elements, cur)

variable {h m}

theorem fillLoop_eq {zero : DesElement} {tail : List DesElement} (ends : zero.pmuEvent.type = 0)
    (fuel : Nat) (front todo : List DesElement) (cur : Cursors)
    (typed : ∀ element ∈ todo, element.pmuEvent.type ≠ 0) (enough : todo.length < fuel) :
    fillLoop h m fuel front.length (front ++ (todo ++ zero :: tail)) cur =
      (fillList h m (front.getLast?.map DesElement.tdmaReg) cur todo).map fun out =>
        (front ++ (out.1 ++ zero :: tail), out.2) := by
  induction todo generalizing fuel front cur with
  | nil =>
    obtain ⟨fuel, rfl⟩ := Nat.exists_eq_succ_of_ne_zero (Nat.ne_zero_of_lt enough)
    simp [fillLoop, fillList, ends]
  | cons element todo ih =>
    obtain ⟨fuel, rfl⟩ := Nat.exists_eq_succ_of_ne_zero (Nat.ne_zero_of_lt enough)
    have here : (front ++ (element :: todo ++ zero :: tail))[front.length]? = some element := by
      simp
    have before : (if front.length = 0 then none else
        (front ++ (element :: todo ++ zero :: tail))[front.length - 1]?.map DesElement.tdmaReg) =
        front.getLast?.map DesElement.tdmaReg := by
      obtain rfl | ⟨init, last, rfl⟩ := List.eq_nil_or_concat front
      · rfl
      · simp
    have typedHere : element.pmuEvent.type ≠ 0 := typed element List.mem_cons_self
    rw [Nat.succ_eq_add_one, fillLoop, here]
    simp only [Option.bind_eq_bind, Option.bind_some, if_neg typedHere, before, fillList]
    cases filled : fillElement h m (front.getLast?.map DesElement.tdmaReg) cur element with
    | none => rfl
    | some out =>
      obtain ⟨element', cur'⟩ := out
      have set : (front ++ (element :: todo ++ zero :: tail)).set front.length element' =
          (front ++ [element']) ++ (todo ++ zero :: tail) := by
        simp
      have rest := ih fuel (front ++ [element']) cur'
        (fun e at' => typed e (List.mem_cons_of_mem element at')) (Nat.lt_of_succ_lt_succ enough)
      rw [List.length_append, List.length_singleton] at rest
      simp only [Option.bind_some, set, rest, List.getLast?_concat, Option.map_some]
      cases fillList h m (some element'.tdmaReg) cur' todo with
      | none => rfl
      | some out => simp

end

end CviRuntime.Pmu
