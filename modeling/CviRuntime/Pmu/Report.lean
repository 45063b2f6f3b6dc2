import CviRuntime.Pmu.Fill
import CviRuntime.Pmu.Ticks
import CviRuntime.Dmabuf.Pmu
import CviRuntime.Pmu.Matching

/-!
# The reports of the PMU (`src/soc/180x/tpu_pmu.cpp`)

`tpu_pmu_dump_main` allocates two arrays, one for the descriptors of the events and one for the
layers, fills them and writes them out. `malloc` does not clear them, and the loops run up to the
first zero they come across: what the reports say depends on what was in the memory.

The columns that are floating-point quotients of the others are left out.
-/

namespace CviRuntime.Pmu

open ByteMem Dmabuf

/-! ## The descriptors -/

/-- A line of the descriptor report; `tdma` has the columns that only a TDMA event has. -/
structure DesRow where
  type : BitVec 4
  desID : BitVec 16
  eventCnt0 : BitVec 22
  eventCnt1 : BitVec 22
  excelType : Nat
  startTime : BitVec 32
  duration : BitVec 32
  endTime : BitVec 32
  layerID : BitVec 32
  typeStr : String
  tdma : List Nat
  deriving DecidableEq, Repr

/-- The layer of an event, by its registers. -/
def DesElement.layerID (element : DesElement) : BitVec 32 :=
  BitVec.ofNat 32
    (if element.pmuEvent.type = typeTiu then element.tiuReg.layerInfo else element.tdmaReg.layerID)

/-- `excelType`, which stays as it was for a type that the PMU does not have. -/
def excelTypeOf (type : BitVec 4) (excelType : Nat) : Nat :=
  if type = typeTdmaLoad then 1
  else if type = typeTdmaStore ∨ type = typeTdmaMove then 2
  else if type = typeTiu then 3
  else excelType

def TdmaReg.columns (reg : TdmaReg) : List Nat :=
  [reg.srcBaseAddrHigh % 2 ^ 32 * 2 ^ 32 + reg.srcBaseAddrLow % 2 ^ 32,
    reg.dstBaseAddrHigh % 2 ^ 32 * 2 ^ 32 + reg.dstBaseAddrLow % 2 ^ 32,
    reg.transFmt, reg.transposeMd, reg.cmdId, reg.waitIdTpu, reg.dstHStride, reg.dstCStrideLow,
    reg.dstNStride, reg.srcHStride, reg.srcCStrideLow, reg.srcNStride, reg.dstC, reg.srcC, reg.dstW,
    reg.dstH, reg.srcW, reg.srcH, reg.srcN]

def desRow (excelType : Nat) (element : DesElement) : DesRow :=
  let event := element.pmuEvent
  { type := event.type
    desID := event.desID
    eventCnt0 := event.eventCnt0
    eventCnt1 := event.eventCnt1
    excelType
    startTime := event.startTime
    duration := event.endTime - event.startTime
    endTime := event.endTime
    layerID := element.layerID
    typeStr := element.typeStr
    tdma := if event.type = typeTiu then [] else element.tdmaReg.columns }

def fwriteDesLoop (pElement : List DesElement) : Nat → Nat → Nat → Option (List DesRow)
  | 0, _, _ => none
  | fuel + 1, index, excelType => do
    let element ← pElement[index]?
    if element.pmuEvent.type = 0 then return []
    let excelType := excelTypeOf element.pmuEvent.type excelType
    let rows ← fwriteDesLoop pElement fuel (index + 1) excelType
    return desRow excelType element :: rows

/-- `tpu_pmu_fwrite_des` (`tpu_pmu.cpp:476-565`). -/
def tpuPmuFwriteDes (pElement : List DesElement) (fuel : Nat) : Option (List DesRow) :=
  fwriteDesLoop pElement fuel 0 0

/-! ## The layers -/

/-- `TPU_LAYERID_ELEMENT` (`tpu_pmu.cpp:45-69`) without its floating-point fields. -/
structure LayerElement where
  layerID : BitVec 32
  lastDesType : BitVec 32
  lastMappingDesID : BitVec 32
  endTime : BitVec 32
  startTime : BitVec 32
  u32StartAddr : BitVec 32
  u32OutputLen : BitVec 32
  u32LoadNueronTime : BitVec 32
  u32LoadWeightTime : BitVec 32
  u32StoreNueronTime : BitVec 32
  u32TIUTime : BitVec 32
  u32TDMATime : BitVec 32
  u32byteCnt : BitVec 32
  deriving DecidableEq, Repr

def sizeofLayerElement : Nat := 112

/-- The first event of a layer (`tpu_pmu.cpp:575-585,597-606`). -/
def LayerElement.start (layer : LayerElement) (element : DesElement) : LayerElement :=
  { layer with
    lastDesType := element.pmuEvent.type.setWidth 32
    layerID := element.layerID
    endTime := element.pmuEvent.endTime
    startTime := element.pmuEvent.startTime
    lastMappingDesID := element.pmuEvent.desID.setWidth 32 }

/-- A further event of a layer (`tpu_pmu.cpp:588-595`). -/
def LayerElement.extend (layer : LayerElement) (element : DesElement) : LayerElement :=
  { layer with
    endTime :=
      if element.pmuEvent.endTime > layer.endTime then element.pmuEvent.endTime else layer.endTime
    lastMappingDesID := element.pmuEvent.desID.setWidth 32 }

/-- The sums of a layer (`tpu_pmu.cpp:609-635`). -/
def LayerElement.accumulate (layer : LayerElement) (element : DesElement) : LayerElement :=
  let event := element.pmuEvent
  let u32SingleDuration := event.endTime - event.startTime
  let layer :=
    if event.type = typeTiu then { layer with u32TIUTime := layer.u32TIUTime + u32SingleDuration }
    else if event.type = typeTdmaLoad then
      { layer with
        u32LoadNueronTime := if element.tdmaReg.srcBaseRegSel = 0 then
            layer.u32LoadNueronTime + u32SingleDuration else layer.u32LoadNueronTime
        u32LoadWeightTime := if element.tdmaReg.srcBaseRegSel = 1 then
            layer.u32LoadWeightTime + u32SingleDuration else layer.u32LoadWeightTime
        u32TDMATime := layer.u32TDMATime + u32SingleDuration }
    else if event.type = typeTdmaStore then
      { layer with
        u32StoreNueronTime := if element.tdmaReg.srcBaseRegSel = 0 then
            layer.u32StoreNueronTime + u32SingleDuration else layer.u32StoreNueronTime
        u32TDMATime := layer.u32TDMATime + u32SingleDuration }
    else layer
  { layer with u32byteCnt := layer.u32byteCnt + event.eventCnt1.setWidth 32 * 16 }

def getlayerInfoLoop (pElement : List DesElement) :
    Nat → Nat → Nat → BitVec 32 → List LayerElement → Option (List LayerElement)
  | 0, _, _, _, _ => none
  | fuel + 1, index, layIDIndex, curLayID, pLayer => do
    let element ← pElement[index]?
    if element.pmuEvent.type = 0 then return pLayer
    -- a layer 0 is no layer: the next event starts the same entry again
    let first := curLayID = 0
    let same := curLayID = element.layerID
    let layIDIndex := if first ∨ same then layIDIndex else layIDIndex + 1
    let layer ← pLayer[layIDIndex]?
    let layer := if ¬first ∧ same then layer.extend element else layer.start element
    getlayerInfoLoop pElement fuel (index + 1) layIDIndex element.layerID
      (pLayer.set layIDIndex (layer.accumulate element))

/-- `tpu_pmu_getlayerInfo` (`tpu_pmu.cpp:567-638`). -/
def tpuPmuGetlayerInfo (pElement : List DesElement) (pLayer : List LayerElement) (fuel : Nat) :
    Option (List LayerElement) :=
  getlayerInfoLoop pElement fuel 0 0 0 pLayer

/-- A line of the layer report: the columns, and what the percentages and the throughput are
    computed from. -/
structure LayerRow where
  layerID : BitVec 32
  startTime : BitVec 32
  duration : BitVec 32
  endTime : BitVec 32
  lastMappingDesID : BitVec 32
  u32StartAddr : BitVec 32
  u32OutputLen : BitVec 32
  u32TIUTime : BitVec 32
  u32LoadNueronTime : BitVec 32
  u32LoadWeightTime : BitVec 32
  u32StoreNueronTime : BitVec 32
  u32TDMATime : BitVec 32
  u32byteCnt : BitVec 32
  u64totalDuration : BitVec 64
  tpuClock : BitVec 64
  deriving DecidableEq, Repr

/-- The entries of `p_layer` up to the one without a layer. -/
def layersOf (pLayer : List LayerElement) : Nat → Nat → Option (List LayerElement)
  | 0, _ => none
  | fuel + 1, index => do
    let layer ← pLayer[index]?
    if layer.layerID = 0 then return []
    let layers ← layersOf pLayer fuel (index + 1)
    return layer :: layers

/-- `tpu_pmu_fwrite_layer` (`tpu_pmu.cpp:640-708`): its three loops go over the same entries. -/
def tpuPmuFwriteLayer (tpuClock : BitVec 64) (pLayer : List LayerElement) (fuel : Nat) :
    Option (List LayerRow) := do
  let layers ← layersOf pLayer fuel 0
  let u64totalDuration := (layers.map fun layer =>
    (layer.endTime - layer.startTime).setWidth 64).foldl (· + ·) 0
  return layers.map fun layer =>
    { layerID := layer.layerID
      startTime := layer.startTime
      duration := layer.endTime - layer.startTime
      endTime := layer.endTime
      lastMappingDesID := layer.lastMappingDesID
      u32StartAddr := layer.u32StartAddr
      u32OutputLen := layer.u32OutputLen
      u32TIUTime := layer.u32TIUTime
      u32LoadNueronTime := layer.u32LoadNueronTime
      u32LoadWeightTime := layer.u32LoadWeightTime
      u32StoreNueronTime := layer.u32StoreNueronTime
      u32TDMATime := layer.u32TDMATime
      u32byteCnt := layer.u32byteCnt
      u64totalDuration, tpuClock }

/-! ## The dump -/

/-- The two files, each with its name and its lines. -/
structure Report where
  desFile : String
  des : List DesRow
  layerFile : String
  layers : List LayerRow
  deriving DecidableEq, Repr

inductive DumpRc where
  | success
  | failure
  deriving DecidableEq, Repr

structure DumpResult where
  rc : DumpRc
  report : Option Report
  deriving DecidableEq, Repr

/-- The copies of the events into `p_element` (`tpu_pmu.cpp:740-741`). -/
def writeEvents : List (Nat × PmuEvent) → List DesElement → Option (List DesElement)
  | [], pElement => some pElement
  | (index, pmuEvent) :: copies, pElement => do
    let element ← pElement[index]?
    writeEvents copies (pElement.set index { element with pmuEvent })

section

variable (h : RegHeaders) (m : Nat → UInt8)

def desCnt : Nat :=
  match tpuPmuGetDesCnt h.k ⟨m, []⟩ with
  | .ok count _ => count
  | .error _ _ => 0

/-- The lengths of the arrays, with `TPU_PMU_MALLOC_PADDING`. -/
def elementRoom : Nat := (desCnt h m * h.sizeofDesElement + 1024) / h.sizeofDesElement

def layerRoom : Nat := (desCnt h m * sizeofLayerElement + 1024) / sizeofLayerElement

/-- What `tpu_pmu_time` does at its end (`tpu_pmu.cpp:829-834`), and the reports. -/
def writeReports (file : String) (pElement : List DesElement) (pLayer : List LayerElement)
    (fuel : Nat) : Option Report := do
  let totals ← tpuPmuTime m true fuel
  let pElement ← writeEvents totals.copies pElement
  let (pElement, _) ← tpuPmuFillCmdbuf h m fuel pElement
  let des ← tpuPmuFwriteDes pElement fuel
  let pLayer ← tpuPmuGetlayerInfo pElement pLayer fuel
  let tpuClkRate := if read32 m 20 = 0 then 750000000 else read32 m 20
  let layers ← tpuPmuFwriteLayer (BitVec.ofNat 64 tpuClkRate) pLayer fuel
  return { desFile := file ++ "_des.csv", des, layerFile := file ++ "_layer.csv", layers }

/-- `tpu_pmu_dump_main` (`tpu_pmu.cpp:857-902`), where `env` is `TPU_PMUBUF_OUTPUT_FILE` and the
    arrays are what `malloc` returns. -/
def tpuPmuDumpMain (env : Option String) (pElement : Option (List DesElement))
    (pLayer : Option (List LayerElement)) (fuel : Nat) : Option DumpResult :=
  if read32 m 0 % 65536 ≠ 0xB5B5 then some ⟨.failure, none⟩
  else
    match env, pElement, pLayer with
    | none, _, _ => do
      let _ ← tpuPmuTime m false fuel
      return ⟨.success, none⟩
    | some file, some pElement, some pLayer => do
      let report ← writeReports h m file pElement pLayer fuel
      return ⟨.success, some report⟩
    | some _, _, _ => some ⟨.failure, none⟩

/-- Whatever is in the arrays, the dump ends with the same result; a report has a line for every
    event, and one for every run of events of one layer. -/
def OneReport (env : Option String) (events : List PmuEvent) : Prop :=
  ∃ result, (∀ pElement pLayer, pElement.length = elementRoom h m →
      pLayer.length = layerRoom h m → ∃ enough, ∀ fuel > enough,
        tpuPmuDumpMain h m env (some pElement) (some pLayer) fuel = some result) ∧
    ∀ report ∈ result.report, report.des.length = events.length ∧
      report.layers.map LayerRow.layerID = (report.des.map DesRow.layerID).destutter (· ≠ ·)

/-- A report is asked for. -/
def Asked (env : Option String) : Prop := read32 m 0 % 65536 = 0xB5B5 ∧ env ≠ none

end

/-! ## Arrays without an end -/

/-- No element ends the loops. -/
def Busy (pElement : List DesElement) : Prop :=
  ∀ element ∈ pElement, element.pmuEvent.type ≠ 0

section

variable {h : RegHeaders} {m : Nat → UInt8} {pElement : List DesElement}

theorem Busy.set (busy : Busy pElement) {element : DesElement} (index : Nat)
    (typed : element.pmuEvent.type ≠ 0) : Busy (pElement.set index element) := by
  intro other at'
  obtain old | rfl := List.mem_or_eq_of_mem_set at'
  · exact busy other old
  · exact typed

theorem fillElement_event {before : Option TdmaReg} {cur : Cursors} {element : DesElement}
    {out : DesElement × Cursors} (filled : fillElement h m before cur element = some out) :
    out.1.pmuEvent = element.pmuEvent := by
  unfold fillElement at filled
  split at filled
  · unfold fillTdma at filled
    split at filled
    · generalize scanSlots _ _ _ _ _ = result at filled
      obtain ⟨hit, offsets⟩ := result
      cases hit with
      | none | some i =>
        obtain rfl := Option.some_inj.mp filled
        rfl
    · obtain ⟨tdmaReg, -, filled⟩ := Option.bind_eq_some_iff.mp filled
      obtain rfl := Option.some_inj.mp filled
      rfl
  · obtain rfl := Option.some_inj.mp filled
    unfold fillTiu
    generalize scanSlots _ _ _ _ _ = result
    obtain ⟨hit, offsets⟩ := result
    cases hit <;> rfl

/-- The loop leaves the array. -/
theorem fillLoop_busy (fuel index : Nat) (cur : Cursors) (busy : Busy pElement) :
    fillLoop h m fuel index pElement cur = none := by
  induction fuel generalizing index pElement cur with
  | zero => rfl
  | succ fuel ih =>
    rw [fillLoop]
    cases here : pElement[index]? with
    | none => rfl
    | some element =>
      have typed := busy element (List.mem_of_getElem? here)
      simp only [Option.bind_eq_bind, Option.bind_some, if_neg typed]
      cases filled : fillElement h m (if index = 0 then none else
          pElement[index - 1]?.map DesElement.tdmaReg) cur element with
      | none => rfl
      | some out =>
        have event := fillElement_event filled
        exact ih (index + 1) out.2 (busy.set index (event ▸ typed))

theorem writeEvents_busy {copies : List (Nat × PmuEvent)} {pElement' : List DesElement}
    (busy : Busy pElement) (typed : ∀ copy ∈ copies, copy.2.WellTyped)
    (written : writeEvents copies pElement = some pElement') : Busy pElement' := by
  induction copies generalizing pElement with
  | nil =>
    obtain rfl := Option.some_inj.mp written
    exact busy
  | cons copy copies ih =>
    obtain ⟨element, -, rest⟩ := Option.bind_eq_some_iff.mp written
    obtain ⟨here, others⟩ := List.forall_mem_cons.mp typed
    apply ih (busy.set copy.1 _) others rest
    intro none
    exact absurd (none ▸ here.1) (by decide)

theorem timeStep_copies {allInfo : Bool} {st : Totals} {e : PmuEvent}
    (typed : ∀ copy ∈ st.copies, copy.2.WellTyped) :
    ∀ copy ∈ (timeStep allInfo st e).copies, copy.2.WellTyped := by
  by_cases here : e.WellTyped
  · have copies : (timeStep allInfo st e).copies =
        if allInfo then st.copies ++ [(st.index.toNat, e)] else st.copies := by
      simp only [timeStep, if_pos here, tiuStep, tdmaStep]
      split
      · rfl
      · split <;> rfl
    rw [copies]
    split
    · exact List.forall_mem_append.mpr ⟨typed, List.forall_mem_singleton.mpr here⟩
    · exact typed
  · rw [timeStep, if_neg here]
    exact typed

theorem timeLoop_copies {allInfo : Bool} (fuel pCurrent : Nat) {st totals : Totals}
    (typed : ∀ copy ∈ st.copies, copy.2.WellTyped)
    (ends : timeLoop m allInfo fuel pCurrent st = some totals) :
    ∀ copy ∈ totals.copies, copy.2.WellTyped := by
  induction fuel generalizing pCurrent st with
  | zero => cases ends
  | succ fuel ih =>
    rw [timeLoop] at ends
    split at ends
    · obtain rfl := Option.some_inj.mp ends
      exact typed
    · exact ih (pCurrent + 16) (timeStep_copies typed) ends

/-- With an array that nothing ends there is no report. -/
theorem writeReports_busy (file : String) (pLayer : List LayerElement) (fuel : Nat)
    (busy : Busy pElement) : writeReports h m file pElement pLayer fuel = none := by
  unfold writeReports
  cases ends : tpuPmuTime m true fuel with
  | none => rfl
  | some totals =>
    have typed := timeLoop_copies fuel _ (List.forall_mem_nil _) ends
    cases written : writeEvents totals.copies pElement with
    | none => simp only [Option.bind_eq_bind, Option.bind_some, written, Option.bind_none]
    | some pElement' =>
      have none := fillLoop_busy (h := h) (m := m) fuel 0 {} (writeEvents_busy busy typed written)
      simp only [Option.bind_eq_bind, Option.bind_some, written, tpuPmuFillCmdbuf, none,
        Option.bind_none]

theorem not_oneReport {env : Option String} {events : List PmuEvent} (asked : Asked m env) :
    ¬OneReport h m env events := by
  rintro ⟨result, same, -⟩
  obtain ⟨magic, some⟩ := asked
  obtain ⟨file, rfl⟩ := Option.ne_none_iff_exists'.mp some
  obtain ⟨enough, ends⟩ := same
    (List.replicate (elementRoom h m) ⟨⟨typeTiu, 0, 0, 0, 0, 0⟩, ⟨0, 0⟩, h.parseTdmaReg [], ""⟩)
    (List.replicate (layerRoom h m) ⟨0, 0, 0, 0, 0, 0, 0, 0, 0, 0, 0, 0, 0⟩)
    List.length_replicate List.length_replicate
  have busy : Busy (List.replicate (elementRoom h m)
      ⟨⟨typeTiu, 0, 0, 0, 0, 0⟩, ⟨0, 0⟩, h.parseTdmaReg [], ""⟩) := by
    intro element at'
    rw [List.eq_of_mem_replicate at']
    exact (by decide : typeTiu ≠ 0)
  have dumped := ends (enough + 1) (Nat.lt_succ_self enough)
  simp only [tpuPmuDumpMain, magic, ne_eq, not_true_eq_false, if_false,
    writeReports_busy file _ _ busy, Option.bind_eq_bind, Option.bind_none] at dumped
  cases dumped

/-- The dump depends on the dmabuf alone only when no report is asked for: the arrays come from
    `malloc`, and what was in them decides where a report ends, or that none is written. -/
theorem tpuPmuDumpMain_oneReport_iff {env : Option String} {events : List PmuEvent}
    (held : EventsAt m (read32 m 28) events) : OneReport h m env events ↔ ¬Asked m env := by
  constructor
  · exact fun one asked => not_oneReport asked one
  · intro notAsked
    by_cases magic : read32 m 0 % 65536 = 0xB5B5
    · have none : env = none := by
        by_contra some
        exact notAsked ⟨magic, some⟩
      subst none
      refine ⟨⟨.success, none⟩, fun pElement pLayer _ _ => ⟨events.length, ?_⟩, fun report none =>
        absurd none (Option.not_mem_none report)⟩
      intro fuel enough
      have ends : tpuPmuTime m false fuel = _ := timeLoop_eq fuel _ {} held enough
      simp only [tpuPmuDumpMain, magic, ne_eq, not_true_eq_false, if_false, ends,
        Option.bind_eq_bind, Option.bind_some, Option.pure_def]
    · exact ⟨⟨.failure, none⟩, fun pElement pLayer _ _ => ⟨0, fun fuel _ => if_pos magic⟩,
        fun report none => absurd none (Option.not_mem_none report)⟩

end

/-! ## One event, and what may be behind it -/

/-- A buffer with one TIU descriptor at 512, and its event from 7 to 12 at 2048. -/
def leakBuffer (i : Nat) : UInt8 :=
  if i = 0 ∨ i = 1 then 0xB5 else if i = 8 ∨ i = 132 then 1
  else if i = 24 then 64 else if i = 29 then 8 else if i = 149 then 2
  else if i = 2048 then 4 else if i = 2056 then 12 else if i = 2060 then 7 else 0

def staleElement (type : BitVec 4) : DesElement :=
  ⟨⟨type, 0, 0, 0, 0, 0⟩, ⟨0, 0⟩, regs1822.parseTdmaReg [], ""⟩

def clearLayers : List LayerElement := List.replicate 10 ⟨0, 0, 0, 0, 0, 0, 0, 0, 0, 0, 0, 0, 0⟩

/-- The numbers of lines of the two reports on `leakBuffer`. -/
def leakLines (pElement : List DesElement) : Option (Nat × Nat) := do
  let result ← tpuPmuDumpMain regs1822 leakBuffer (some "pmu") (some pElement) (some clearLayers) 5
  let report ← result.report
  return (report.des.length, report.layers.length)

theorem tpuPmuDumpMain_oneReport_iff_leak :
    OneReport regs1822 leakBuffer (some "pmu") [⟨4, 0, 0, 0, 12, 7⟩] ↔
      ¬Asked leakBuffer (some "pmu") :=
  tpuPmuDumpMain_oneReport_iff ⟨by decide, rfl, rfl⟩

/-- The stale element behind the event is a second line of the report; the event's layer, 0, has
    none. -/
theorem tpuPmuDumpMain_leaks : EventsAt leakBuffer (read32 leakBuffer 28) [⟨4, 0, 0, 0, 12, 7⟩] ∧
    elementRoom regs1822 leakBuffer = 3 ∧ layerRoom regs1822 leakBuffer = 10 ∧
    leakLines [staleElement 0, staleElement 0, staleElement 0] = some (1, 0) ∧
    leakLines [staleElement 0, staleElement 4, staleElement 0] = some (2, 0) ∧
    ¬OneReport regs1822 leakBuffer (some "pmu") [⟨4, 0, 0, 0, 12, 7⟩] :=
  ⟨⟨by decide, rfl, rfl⟩, by decide +kernel, by decide +kernel, by decide +kernel,
    by decide +kernel, not_oneReport ⟨by decide, by decide⟩⟩

end CviRuntime.Pmu
