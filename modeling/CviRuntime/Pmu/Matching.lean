import CviRuntime.Lib.ForwardSearch
import CviRuntime.Pmu.Fill
import CviRuntime.Pmu.Slots
import CviRuntime.Dmabuf.Preservation

/-!
# The descriptors of the events

The events come from the descriptors of all segments; `tpu_pmu_fill_cmdbuf` looks for them in the
first segment only, and takes an event with the id and the times of the one before for the second
event of the same descriptor. This says for which buffers and events that is enough.
-/

namespace CviRuntime.Pmu

open ByteMem Dmabuf ForwardSearch

/-! ## Events and their descriptors -/

/-- An event with the slot of its descriptor. -/
abbrev Row := PmuEvent × Slot

def Row.isTiu (row : Row) : Bool := row.1.type = typeTiu

def tdmaRows (rows : List Row) : List Row := rows.filter fun row => !row.isTiu

/-- One event for each slot, or two with the same id and times. -/
inductive Served : List Slot → List Row → Prop
  | nil : Served [] []
  | one {slot : Slot} {slots : List Slot} {row : Row} {rows : List Row} (own : row.2 = slot)
    (rest : Served slots rows) : Served (slot :: slots) (row :: rows)
  | two {slot : Slot} {slots : List Slot} {row row' : Row} {rows : List Row} (own : row.2 = slot)
    (own' : row'.2 = slot) (same : row.1.key = row'.1.key) (rest : Served slots rows) :
    Served (slot :: slots) (row :: row' :: rows)

section

variable (h : RegHeaders) (m₀ m : Nat → UInt8)

/-- The registers of the descriptor of an event; `m₀` is the buffer before its relocation. -/
def ownTiu (row : Row) : TiuReg := tiuRegAt h m (tiuSlotAt h.k m₀ row.2)

def ownTdma (row : Row) : TdmaReg := tdmaRegAt h m (tdmaSlotAt h.k m₀ row.2)

def ownId (row : Row) : Nat :=
  if row.isTiu then (ownTiu h m₀ m row).cmdIdTpu else (ownTdma h m₀ m row).cmdId

/-- The events of a run: those of the TIU and those of the TDMA each in the order of the
    descriptors, segment after segment. -/
structure Traced (rows : List Row) : Prop where
  typed : ∀ row ∈ rows, row.1.WellTyped
  segments : (rows.map fun row => row.2.seg).Pairwise (· ≤ ·)
  tiu : (rows.filter Row.isTiu).map Prod.snd = tiuSlots h.k m₀
  tdma : Served (tdmaSlots h.k m₀) (tdmaRows rows)
  ids : ∀ row ∈ rows, row.1.desID.toNat = ownId h m₀ m row

/-- Every slot lies in the first 4 GiB. -/
structure SlotsFit : Prop where
  tiu : ∀ slot ∈ tiuSlots h.k m₀, tiuSlotAt h.k m₀ slot < 2 ^ 32
  tdma : ∀ slot ∈ tdmaSlots h.k m₀, tdmaSlotAt h.k m₀ slot < 2 ^ 32

/-- A read of a descriptor. -/
def IsSlot (read : Nat × Nat) : Prop :=
  (∃ slot ∈ tiuSlots h.k m₀, read = (tiuSlotAt h.k m₀ slot, h.k.bdRegBytes)) ∨
    ∃ slot ∈ tdmaSlots h.k m₀, read = (tdmaSlotAt h.k m₀ slot, h.k.tdmaRegBytes)

/-- The element has the event, and the registers of its descriptor. -/
def Right (row : Row) (element : DesElement) : Prop :=
  element.pmuEvent = row.1 ∧
    if row.isTiu then element.tiuReg = ownTiu h m₀ m row
    else element.tdmaReg = ownTdma h m₀ m row

/-- `p_element` holds the events, and an element without a type behind them. -/
def HoldsRows (rows : List Row) (elements : List DesElement) (pElement : List DesElement) : Prop :=
  elements.map DesElement.pmuEvent = rows.map Prod.fst ∧
    ∃ zero tail, pElement = elements ++ zero :: tail ∧ zero.pmuEvent.type = 0

/-- Whatever registers were in `p_element`, every event gets those of its descriptor, and only
    descriptors are read. -/
def Matched (rows : List Row) : Prop :=
  ∀ elements pElement, HoldsRows rows elements pElement →
    ∃ elements' pElement' cur, HoldsRows rows elements' pElement' ∧
      (∀ fuel > rows.length, tpuPmuFillCmdbuf h m fuel pElement = some (pElement', cur)) ∧
      List.Forall₂ (Right h m₀ m) rows elements' ∧ ∀ read ∈ cur.reads, IsSlot h m₀ read

/-- The registers of the TDMA events that differ from the one before, which is `prev` at first. -/
def firsts : EventKey → List Row → List TdmaReg
  | _, [] => []
  | prev, row :: rows =>
    if row.isTiu then firsts prev rows
    else if row.1.key ≠ prev then ownTdma h m₀ m row :: firsts row.1.key rows
    else firsts prev rows

/-- The key of the last TDMA event. -/
def lastKey (rows : List Row) : EventKey :=
  ((tdmaRows rows).getLast?.map fun row => row.1.key).getD ⟨0, 0, 0⟩

/-- Only the first segment has TIU descriptors; a TDMA event like the one before comes right
    behind it and has the same registers; the others are found by their ids in the first segment. -/
structure Matchable (rows : List Row) : Prop where
  tiu : ∀ i, 0 < i → i < read32 m₀ 8 → tiuNum h.k m₀ i = 0
  repeats : ∀ front row back, rows = front ++ row :: back → row.isTiu = false →
    row.1.key = lastKey front → ∃ init before, front = init ++ [before] ∧
      before.isTiu = false ∧ ownTdma h m₀ m before = ownTdma h m₀ m row
  tdma : FoundFrom TdmaReg.cmdId (fun i => tdmaRegAt h m (tdmaSlotAt h.k m₀ ⟨0, i⟩))
    (tdmaNum h.k m₀ 0) 0 (firsts h m₀ m ⟨0, 0, 0⟩ rows)

end

/-! ## One search -/

section

variable {offsetOf idAt : Nat → Nat} {desID : Nat}

theorem scanSlots_hit (offsetOf idAt : Nat → Nat) {i j : Nat} (left : Nat) (inside : j < i + left)
    (hit : Hit idAt offsetOf i desID j) :
    scanSlots offsetOf idAt desID left i =
      (some j, (List.range' i (j + 1 - i)).map offsetOf) := by
  induction left generalizing i with
  | zero => exact absurd hit.behind (Nat.not_le_of_lt inside)
  | succ left ih =>
    rw [scanSlots]
    by_cases here : idAt (offsetOf i) = desID
    · obtain rfl := hit.unique ⟨Nat.le_refl i, here, fun x low high =>
        absurd low (Nat.not_le_of_lt high)⟩
      rw [if_pos here, Nat.add_sub_cancel_left]
      rfl
    · have behind : i < j := by
        obtain before | same := Nat.lt_or_eq_of_le hit.behind
        · exact before
        · exact absurd (same ▸ hit.here) here
      rw [if_neg here, ih (by omega) ⟨behind, hit.here, fun x low high =>
        hit.skipped x (Nat.le_of_succ_le low) high⟩, show j + 1 - i = j + 1 - (i + 1) + 1 by omega,
        List.range'_succ, List.map_cons]

theorem hit_of_scanSlots {i j : Nat} (left : Nat)
    (found : (scanSlots offsetOf idAt desID left i).1 = some j) :
    j < i + left ∧ Hit idAt offsetOf i desID j := by
  induction left generalizing i with
  | zero => cases found
  | succ left ih =>
    rw [scanSlots] at found
    by_cases here : idAt (offsetOf i) = desID
    · rw [if_pos here] at found
      obtain rfl := Option.some_inj.mp found
      exact ⟨by omega, Nat.le_refl i, here, fun x low high => absurd low (Nat.not_le_of_lt high)⟩
    · rw [if_neg here] at found
      obtain ⟨inside, behind, there, skipped⟩ := ih found
      refine ⟨by omega, by omega, there, ?_⟩
      intro x low high
      obtain before | rfl := Nat.lt_or_eq_of_le low
      · exact skipped x before high
      · exact here

end

/-! ## One event -/

section

variable (h : RegHeaders) (m : Nat → UInt8)

/-- The descriptors that are looked through. -/
def tiuPlace (i : Nat) : TiuReg := tiuRegAt h m (tiuOffsetOf h m i)

def tdmaPlace (i : Nat) : TdmaReg := tdmaRegAt h m (tdmaOffsetOf h m i)

/-- The cursors when descriptor `i` was found. -/
def Cursors.pastTiu (cur : Cursors) (i : Nat) : Cursors :=
  { cur with
    startIndexTiu := i + 1
    reads := cur.reads ++ ((List.range' cur.startIndexTiu (i + 1 - cur.startIndexTiu)).map
      (tiuOffsetOf h m)).map (·, h.k.bdRegBytes) }

def Cursors.pastTdma (cur : Cursors) (key : EventKey) (i : Nat) : Cursors :=
  { cur with
    startIndexTdma := i + 1
    tdmaPrevious := key
    reads := cur.reads ++ ((List.range' cur.startIndexTdma (i + 1 - cur.startIndexTdma)).map
      (tdmaOffsetOf h m)).map (·, h.k.tdmaRegBytes) }

variable {h m} {cur : Cursors} {element : DesElement} {i : Nat}

theorem fillTiu_hit (element : DesElement) (inside : i < tiuCntOf h m)
    (hit : Hit TiuReg.cmdIdTpu (tiuPlace h m) cur.startIndexTiu element.pmuEvent.desID.toNat i) :
    ∃ typeStr, fillTiu h m cur element =
      ({ element with tiuReg := tiuPlace h m i, typeStr }, cur.pastTiu h m i) := by
  have behind := hit.behind
  have scan := scanSlots_hit (tiuOffsetOf h m) (fun offset => (tiuRegAt h m offset).cmdIdTpu)
    (tiuCntOf h m - cur.startIndexTiu) (by omega) ⟨behind, hit.here, hit.skipped⟩
  unfold fillTiu
  rw [scan]
  exact ⟨_, rfl⟩

theorem fillTiu_cases (h : RegHeaders) (m : Nat → UInt8) (cur : Cursors) (element : DesElement) :
    (fillTiu h m cur element).1 = element ∨
      ∃ i < tiuCntOf h m, Hit TiuReg.cmdIdTpu (tiuPlace h m) cur.startIndexTiu
        element.pmuEvent.desID.toNat i := by
  unfold fillTiu
  generalize scan : scanSlots _ _ _ _ _ = result
  obtain ⟨found, offsets⟩ := result
  cases found with
  | none => exact Or.inl rfl
  | some i =>
    obtain ⟨inside, hit⟩ := hit_of_scanSlots _ (congrArg Prod.fst scan)
    have behind := hit.behind
    exact Or.inr ⟨i, by omega, behind, hit.here, hit.skipped⟩

theorem fillTdma_hit (before : Option TdmaReg) (element : DesElement)
    (fresh : element.pmuEvent.key ≠ cur.tdmaPrevious)
    (inside : i < tdmaCntOf h m) (hit : Hit TdmaReg.cmdId (tdmaPlace h m) cur.startIndexTdma
      element.pmuEvent.desID.toNat i) :
    ∃ typeStr, fillTdma h m before cur element = some
      ({ element with tdmaReg := tdmaPlace h m i, typeStr },
        cur.pastTdma h m element.pmuEvent.key i) := by
  have behind := hit.behind
  have scan := scanSlots_hit (tdmaOffsetOf h m) (fun offset => (tdmaRegAt h m offset).cmdId)
    (tdmaCntOf h m - cur.startIndexTdma) (by omega) ⟨behind, hit.here, hit.skipped⟩
  unfold fillTdma
  rw [if_pos fresh, scan]
  exact ⟨_, rfl⟩

theorem fillTdma_cases (h : RegHeaders) (m : Nat → UInt8) (before : Option TdmaReg)
    (cur : Cursors) (element : DesElement) (fresh : element.pmuEvent.key ≠ cur.tdmaPrevious) :
    (∃ cur', fillTdma h m before cur element = some (element, cur')) ∨
      ∃ i < tdmaCntOf h m, Hit TdmaReg.cmdId (tdmaPlace h m) cur.startIndexTdma
        element.pmuEvent.desID.toNat i := by
  unfold fillTdma
  rw [if_pos fresh]
  generalize scan : scanSlots _ _ _ _ _ = result
  obtain ⟨found, offsets⟩ := result
  cases found with
  | none => exact Or.inl ⟨_, rfl⟩
  | some i =>
    obtain ⟨inside, hit⟩ := hit_of_scanSlots _ (congrArg Prod.fst scan)
    have behind := hit.behind
    exact Or.inr ⟨i, by omega, behind, hit.here, hit.skipped⟩

theorem fillTdma_repeat (h : RegHeaders) (m : Nat → UInt8) (cur : Cursors)
    (element : DesElement) (same : element.pmuEvent.key = cur.tdmaPrevious)
    (reg : TdmaReg) : ∃ typeStr, fillTdma h m (some reg) cur element =
      some ({ element with tdmaReg := reg, typeStr }, cur) := by
  unfold fillTdma
  rw [if_neg (not_not_intro same)]
  exact ⟨_, rfl⟩

theorem fillTdma_repeat_none (same : element.pmuEvent.key = cur.tdmaPrevious) :
    fillTdma h m none cur element = none := by
  unfold fillTdma
  rw [if_neg (not_not_intro same)]
  rfl

end

/-! ## All events -/

/-- A TDMA event like the one before takes the right registers from the element in front, when `B`
    holds of what is in its `tdmaReg`. -/
def Repeats (own : Row → TdmaReg) : (Option TdmaReg → Prop) → EventKey → List Row → Prop
  | _, _, [] => True
  | B, prev, row :: rows =>
    if row.isTiu then Repeats own (· ≠ none) prev rows
    else (row.1.key = prev → ∀ b, B b → b = some (own row)) ∧
      Repeats own (· = some (own row)) row.1.key rows

/-- The searches find the registers of all events among the first descriptors. -/
structure Findable (h : RegHeaders) (m₀ m : Nat → UInt8) (nTiu nTdma : Nat)
    (B : Option TdmaReg → Prop) (cur : Cursors) (rows : List Row) : Prop where
  tiu : FoundFrom TiuReg.cmdIdTpu (tiuPlace h m) nTiu cur.startIndexTiu
    ((rows.filter Row.isTiu).map (ownTiu h m₀ m))
  tdma : FoundFrom TdmaReg.cmdId (tdmaPlace h m) nTdma cur.startIndexTdma
    (firsts h m₀ m cur.tdmaPrevious rows)
  repeats : Repeats (ownTdma h m₀ m) B cur.tdmaPrevious rows

/-- A read of one of the first descriptors. -/
def FirstSlot (h : RegHeaders) (m : Nat → UInt8) (nTiu nTdma : Nat) (read : Nat × Nat) : Prop :=
  (∃ i < nTiu, read = (tiuOffsetOf h m i, h.k.bdRegBytes)) ∨
    ∃ i < nTdma, read = (tdmaOffsetOf h m i, h.k.tdmaRegBytes)

section

variable {h : RegHeaders} {m₀ m : Nat → UInt8} {nTiu nTdma : Nat} {B : Option TdmaReg → Prop}
  {cur : Cursors} {row : Row} {rows : List Row} {element : DesElement} {b : Option TdmaReg}

theorem firstSlot_of_range {c i : Nat} {size : Nat} {offset : Nat → Nat} {read : Nat × Nat}
    {n : Nat} (inside : i < n)
    (at' : read ∈ ((List.range' c (i + 1 - c)).map offset).map (·, size)) :
    ∃ j < n, read = (offset j, size) := by
  simp only [List.mem_map, List.mem_range'_1] at at'
  obtain ⟨_, ⟨j, range, rfl⟩, rfl⟩ := at'
  exact ⟨j, by omega, rfl⟩

theorem fillElement_tiu (enough : nTiu ≤ tiuCntOf h m) (tiu : row.isTiu = true)
    (ids : row.1.desID.toNat = ownId h m₀ m row) (event : element.pmuEvent = row.1)
    (findable : Findable h m₀ m nTiu nTdma B cur (row :: rows)) :
    ∃ element' cur', fillElement h m b cur element = some (element', cur') ∧
      Right h m₀ m row element' ∧
      (∀ read ∈ cur'.reads, read ∈ cur.reads ∨ FirstSlot h m nTiu nTdma read) ∧
      Findable h m₀ m nTiu nTdma (· ≠ none) cur' rows := by
  have isTiu : element.pmuEvent.type = typeTiu := by
    rw [event]
    exact of_decide_eq_true tiu
  have found := findable.tiu
  rw [List.filter_cons_of_pos tiu, List.map_cons, foundFrom_cons] at found
  obtain ⟨i, inside, place, hit, found⟩ := found
  rw [ownId, if_pos tiu] at ids
  obtain ⟨typeStr, filled⟩ := fillTiu_hit element (Nat.lt_of_lt_of_le inside enough)
    (by rw [event, ids]; exact hit)
  have runs : fillElement h m b cur element = some (fillTiu h m cur element) :=
    if_neg (not_not_intro isTiu)
  refine ⟨_, _, runs.trans (congrArg some filled), ?_, ?_, found, ?_, ?_⟩
  · rw [Right, if_pos tiu]
    exact ⟨event, place⟩
  · intro read at'
    obtain before | here := List.mem_append.mp at'
    · exact Or.inl before
    · exact Or.inr (Or.inl (firstSlot_of_range inside here))
  · have firsts := findable.tdma
    rwa [Pmu.firsts, if_pos tiu] at firsts
  · have repeats := findable.repeats
    rwa [Repeats, if_pos tiu] at repeats

theorem fillElement_tdma (enough : nTdma ≤ tdmaCntOf h m) (tdma : row.isTiu = false)
    (ids : row.1.desID.toNat = ownId h m₀ m row)
    (event : element.pmuEvent = row.1) (possible : B b)
    (findable : Findable h m₀ m nTiu nTdma B cur (row :: rows)) :
    ∃ element' cur', fillElement h m b cur element = some (element', cur') ∧
      Right h m₀ m row element' ∧
      (∀ read ∈ cur'.reads, read ∈ cur.reads ∨ FirstSlot h m nTiu nTdma read) ∧
      Findable h m₀ m nTiu nTdma (· = some element'.tdmaReg) cur' rows := by
  have notTiu : ¬ row.isTiu = true := Bool.eq_false_iff.mp tdma
  have isTdma : element.pmuEvent.type ≠ typeTiu := by
    rw [event]
    exact of_decide_eq_false tdma
  have runs : fillElement h m b cur element = fillTdma h m b cur element := if_pos isTdma
  have tiu := findable.tiu
  rw [List.filter_cons_of_neg notTiu] at tiu
  have firsts := findable.tdma
  rw [Pmu.firsts, if_neg notTiu] at firsts
  have repeats := findable.repeats
  rw [Repeats, if_neg notTiu] at repeats
  rw [ownId, if_neg notTiu] at ids
  by_cases same : row.1.key = cur.tdmaPrevious
  · obtain rfl := repeats.1 same b possible
    obtain ⟨typeStr, filled⟩ := fillTdma_repeat h m cur element
      (event ▸ same : element.pmuEvent.key = cur.tdmaPrevious) (ownTdma h m₀ m row)
    rw [if_neg (not_not_intro same)] at firsts
    refine ⟨_, _, runs.trans filled, ?_, fun read at' => Or.inl at', tiu, firsts, same ▸ repeats.2⟩
    rw [Right, if_neg notTiu]
    exact ⟨event, rfl⟩
  · rw [if_pos same, foundFrom_cons] at firsts
    obtain ⟨i, inside, place, hit, firsts⟩ := firsts
    obtain ⟨typeStr, filled⟩ := fillTdma_hit b element
      (event ▸ same : element.pmuEvent.key ≠ cur.tdmaPrevious)
      (Nat.lt_of_lt_of_le inside enough) (by rw [event, ids]; exact hit)
    refine ⟨_, _, runs.trans filled, ?_, ?_, tiu, ?_, ?_⟩
    · rw [Right, if_neg notTiu]
      exact ⟨event, place⟩
    · intro read at'
      obtain before | here := List.mem_append.mp at'
      · exact Or.inl before
      · exact Or.inr (Or.inr (firstSlot_of_range inside here))
    · rw [event]
      exact firsts
    · rw [event, place]
      exact repeats.2

/-- When the searches find the registers, every event gets its own. -/
theorem fillList_right (enoughTiu : nTiu ≤ tiuCntOf h m) (enoughTdma : nTdma ≤ tdmaCntOf h m)
    (ids : ∀ row ∈ rows, row.1.desID.toNat = ownId h m₀ m row) (cur : Cursors) (possible : B b)
    (elements : List DesElement)
    (events : elements.map DesElement.pmuEvent = rows.map Prod.fst)
    (findable : Findable h m₀ m nTiu nTdma B cur rows) :
    ∃ elements' cur', fillList h m b cur elements = some (elements', cur') ∧
      List.Forall₂ (Right h m₀ m) rows elements' ∧
      ∀ read ∈ cur'.reads, read ∈ cur.reads ∨ FirstSlot h m nTiu nTdma read := by
  induction rows generalizing B b cur elements with
  | nil =>
    obtain rfl := List.map_eq_nil_iff.mp events
    exact ⟨[], cur, rfl, List.Forall₂.nil, fun read at' => Or.inl at'⟩
  | cons row rows ih =>
    obtain ⟨element, elements, rfl, event, events⟩ := List.map_eq_cons_iff.mp events
    have idsHere := ids row List.mem_cons_self
    obtain ⟨element', cur', runs, right, reads, B', possible', rest⟩ : ∃ element' cur',
        fillElement h m b cur element = some (element', cur') ∧ Right h m₀ m row element' ∧
        (∀ read ∈ cur'.reads, read ∈ cur.reads ∨ FirstSlot h m nTiu nTdma read) ∧
        ∃ B' : Option TdmaReg → Prop, B' (some element'.tdmaReg) ∧
          Findable h m₀ m nTiu nTdma B' cur' rows := by
      cases kind : row.isTiu with
      | true =>
        obtain ⟨element', cur', runs, right, reads, rest⟩ :=
          fillElement_tiu (b := b) enoughTiu kind idsHere event findable
        exact ⟨element', cur', runs, right, reads, _, Option.some_ne_none _, rest⟩
      | false =>
        obtain ⟨element', cur', runs, right, reads, rest⟩ :=
          fillElement_tdma enoughTdma kind idsHere event possible findable
        exact ⟨element', cur', runs, right, reads, (· = some element'.tdmaReg), rfl, rest⟩
    obtain ⟨elements', cur'', runsRest, rights, readsRest⟩ :=
      ih (fun row' at' => ids row' (List.mem_cons_of_mem row at')) cur' possible' elements events
        rest
    refine ⟨element' :: elements', cur'', ?_, List.Forall₂.cons right rights, ?_⟩
    · simp only [fillList, runs, runsRest, Option.bind_eq_bind, Option.bind_some, Option.pure_def]
    · intro read at'
      obtain before | here := readsRest read at'
      · exact reads read before
      · exact Or.inr here

theorem fillList_cons {elements : List DesElement} {out : List DesElement × Cursors}
    (runs : fillList h m b cur (element :: elements) = some out) :
    ∃ element' cur' out', fillElement h m b cur element = some (element', cur') ∧
      fillList h m (some element'.tdmaReg) cur' elements = some out' ∧
      out = (element' :: out'.1, out'.2) := by
  simp only [fillList, Option.bind_eq_bind, Option.bind_eq_some_iff, Option.pure_def,
    Option.some.injEq] at runs
  obtain ⟨⟨element', cur'⟩, here, out', rest, rfl⟩ := runs
  exact ⟨element', cur', out', here, rest, rfl⟩

/-- What is left of the events when the first is done: a run that is right on all is right there. -/
def RunsRight (h : RegHeaders) (m₀ m : Nat → UInt8) (B : Option TdmaReg → Prop) (cur : Cursors)
    (rows : List Row) : Prop :=
  ∀ b elements, B b → elements.map DesElement.pmuEvent = rows.map Prod.fst →
    ∃ out, fillList h m b cur elements = some out ∧ List.Forall₂ (Right h m₀ m) rows out.1

theorem RunsRight.here (runs : RunsRight h m₀ m B cur (row :: rows)) (possible : B b)
    (element : DesElement) (event : element.pmuEvent = row.1) :
    ∃ out, fillElement h m b cur element = some out ∧ Right h m₀ m row out.1 := by
  have events : (element :: rows.map fun row => ⟨row.1, ⟨0, 0⟩, element.tdmaReg, ""⟩).map
      DesElement.pmuEvent = (row :: rows).map Prod.fst := by
    rw [List.map_cons, List.map_cons, event, List.map_map]
    rfl
  obtain ⟨out, filled, right⟩ := runs b _ possible events
  obtain ⟨element', cur', out', here, -, rfl⟩ := fillList_cons filled
  exact ⟨_, here, (List.forall₂_cons.mp right).1⟩

theorem RunsRight.rest {element' : DesElement} {cur' : Cursors}
    (runs : RunsRight h m₀ m B cur (row :: rows)) (possible : B b)
    (event : element.pmuEvent = row.1)
    (here : fillElement h m b cur element = some (element', cur')) {elements : List DesElement}
    (events : elements.map DesElement.pmuEvent = rows.map Prod.fst) :
    ∃ out, fillList h m (some element'.tdmaReg) cur' elements = some out ∧
      List.Forall₂ (Right h m₀ m) rows out.1 := by
  have events : (element :: elements).map DesElement.pmuEvent = (row :: rows).map Prod.fst := by
    rw [List.map_cons, List.map_cons, event, events]
  obtain ⟨out, filled, right⟩ := runs b _ possible events
  obtain ⟨_, _, out', here', rest, rfl⟩ := fillList_cons filled
  obtain ⟨rfl, rfl⟩ := Prod.mk.inj (Option.some_inj.mp (here'.symm.trans here))
  exact ⟨out', rest, (List.forall₂_cons.mp right).2⟩

theorem exists_other_tiu (reg : TiuReg) : ∃ other : TiuReg, other ≠ reg :=
  ⟨{ reg with layerInfo := reg.layerInfo + 1 }, fun same =>
    absurd (congrArg TiuReg.layerInfo same) (Nat.succ_ne_self _)⟩

theorem exists_other_tdma (reg : TdmaReg) : ∃ other : TdmaReg, other ≠ reg :=
  ⟨{ reg with layerID := reg.layerID + 1 }, fun same =>
    absurd (congrArg TdmaReg.layerID same) (Nat.succ_ne_self _)⟩

/-- An event that is given its registers was found: the other registers that may be in its element
    would stay there. -/
theorem RunsRight.tiu (runs : RunsRight h m₀ m B cur (row :: rows)) (tiu : row.isTiu = true)
    (ids : row.1.desID.toNat = ownId h m₀ m row) (possible : B b) :
    ∃ i < tiuCntOf h m, tiuPlace h m i = ownTiu h m₀ m row ∧
      Hit TiuReg.cmdIdTpu (tiuPlace h m) cur.startIndexTiu (ownTiu h m₀ m row).cmdIdTpu i ∧
      RunsRight h m₀ m (· ≠ none) (cur.pastTiu h m i) rows := by
  have isTiu : row.1.type = typeTiu := of_decide_eq_true tiu
  have branch {tiuReg tdmaReg} : fillElement h m b cur ⟨row.1, tiuReg, tdmaReg, ""⟩ =
      some (fillTiu h m cur ⟨row.1, tiuReg, tdmaReg, ""⟩) := if_neg (not_not_intro isTiu)
  rw [ownId, if_pos tiu] at ids
  obtain ⟨other, differs⟩ := exists_other_tiu (ownTiu h m₀ m row)
  have blank : TdmaReg := h.parseTdmaReg []
  obtain ⟨out, filled, right⟩ := runs.here possible ⟨row.1, other, blank, ""⟩ rfl
  obtain rfl := Option.some_inj.mp (branch.symm.trans filled)
  rw [Right, if_pos tiu] at right
  obtain kept | ⟨i, inside, hit⟩ := fillTiu_cases h m cur ⟨row.1, other, blank, ""⟩
  · rw [kept] at right
    exact absurd right.2 differs
  obtain ⟨typeStr, found⟩ := fillTiu_hit _ inside hit
  rw [found] at right
  refine ⟨i, inside, right.2, ids ▸ hit, ?_⟩
  intro b' elements some events
  obtain ⟨tdmaReg, rfl⟩ := Option.ne_none_iff_exists'.mp some
  obtain ⟨typeStr, found⟩ := fillTiu_hit ⟨row.1, other, tdmaReg, ""⟩ inside hit
  exact runs.rest possible rfl (branch.trans (congrArg Option.some found)) events

theorem RunsRight.fresh (runs : RunsRight h m₀ m B cur (row :: rows)) (tdma : row.isTiu = false)
    (ids : row.1.desID.toNat = ownId h m₀ m row) (possible : B b)
    (fresh : row.1.key ≠ cur.tdmaPrevious) :
    ∃ i < tdmaCntOf h m, tdmaPlace h m i = ownTdma h m₀ m row ∧
      Hit TdmaReg.cmdId (tdmaPlace h m) cur.startIndexTdma (ownTdma h m₀ m row).cmdId i ∧
      RunsRight h m₀ m (· = some (ownTdma h m₀ m row)) (cur.pastTdma h m row.1.key i) rows := by
  have notTiu : ¬ row.isTiu = true := Bool.eq_false_iff.mp tdma
  have isTdma : row.1.type ≠ typeTiu := of_decide_eq_false tdma
  obtain ⟨other, differs⟩ := exists_other_tdma (ownTdma h m₀ m row)
  have branch : fillElement h m b cur ⟨row.1, ⟨0, 0⟩, other, ""⟩ =
      fillTdma h m b cur ⟨row.1, ⟨0, 0⟩, other, ""⟩ := if_pos isTdma
  rw [ownId, if_neg notTiu] at ids
  obtain ⟨out, filled, right⟩ := runs.here possible ⟨row.1, ⟨0, 0⟩, other, ""⟩ rfl
  rw [branch] at filled
  rw [Right, if_neg notTiu] at right
  obtain ⟨cur', kept⟩ | ⟨i, inside, hit⟩ :=
    fillTdma_cases h m b cur ⟨row.1, ⟨0, 0⟩, other, ""⟩ fresh
  · obtain rfl := Option.some_inj.mp (kept.symm.trans filled)
    exact absurd right.2 differs
  obtain ⟨typeStr, found⟩ := fillTdma_hit b _ fresh inside hit
  obtain rfl := Option.some_inj.mp (found.symm.trans filled)
  refine ⟨i, inside, right.2, ids ▸ hit, ?_⟩
  rintro b' elements rfl events
  have rest := runs.rest possible rfl (branch.trans found) events
  rwa [right.2] at rest

theorem RunsRight.again (runs : RunsRight h m₀ m B cur (row :: rows)) (tdma : row.isTiu = false)
    (possible : B b) (same : row.1.key = cur.tdmaPrevious) :
    (∀ b, B b → b = some (ownTdma h m₀ m row)) ∧
      RunsRight h m₀ m (· = some (ownTdma h m₀ m row)) cur rows := by
  have notTiu : ¬ row.isTiu = true := Bool.eq_false_iff.mp tdma
  have isTdma : row.1.type ≠ typeTiu := of_decide_eq_false tdma
  have only (b : Option TdmaReg) (possible : B b) : b = some (ownTdma h m₀ m row) := by
    obtain ⟨out, filled, right⟩ :=
      runs.here possible ⟨row.1, ⟨0, 0⟩, h.parseTdmaReg [], ""⟩ rfl
    rw [fillElement, if_pos isTdma] at filled
    rw [Right, if_neg notTiu] at right
    cases b with
    | none =>
      rw [fillTdma_repeat_none same] at filled
      cases filled
    | some reg =>
      obtain ⟨typeStr, copied⟩ := fillTdma_repeat h m cur
        ⟨row.1, ⟨0, 0⟩, h.parseTdmaReg [], ""⟩ same reg
      obtain rfl := Option.some_inj.mp (copied.symm.trans filled)
      exact congrArg some right.2
  refine ⟨only, ?_⟩
  rintro b' elements rfl events
  obtain rfl := only b possible
  have branch : fillElement h m (some (ownTdma h m₀ m row)) cur
      ⟨row.1, ⟨0, 0⟩, h.parseTdmaReg [], ""⟩ = fillTdma h m (some (ownTdma h m₀ m row)) cur
      ⟨row.1, ⟨0, 0⟩, h.parseTdmaReg [], ""⟩ := if_pos isTdma
  obtain ⟨typeStr, copied⟩ := fillTdma_repeat h m cur
    ⟨row.1, ⟨0, 0⟩, h.parseTdmaReg [], ""⟩ same (ownTdma h m₀ m row)
  exact runs.rest possible rfl (branch.trans copied) events

/-- When every event gets its registers, the searches find them. -/
theorem findable_of_runsRight (ids : ∀ row ∈ rows, row.1.desID.toNat = ownId h m₀ m row)
    (cur : Cursors)
    (runs : RunsRight h m₀ m B cur rows) (possible : B b) :
    Findable h m₀ m (tiuCntOf h m) (tdmaCntOf h m) B cur rows := by
  induction rows generalizing B b cur with
  | nil => exact ⟨FoundFrom.nil _, FoundFrom.nil _, trivial⟩
  | cons row rows ih =>
    have idsHere := ids row List.mem_cons_self
    replace ih {B b} (cur : Cursors) :=
      @ih B b (fun row' at' => ids row' (List.mem_cons_of_mem row at')) cur
    cases kind : row.isTiu with
    | true =>
      obtain ⟨i, inside, place, hit, rest⟩ := runs.tiu kind idsHere possible
      obtain ⟨tiu, tdma, repeats⟩ := ih _ rest (Option.some_ne_none (h.parseTdmaReg []))
      refine ⟨?_, ?_, ?_⟩
      · rw [List.filter_cons_of_pos kind, List.map_cons, foundFrom_cons]
        exact ⟨i, inside, place, hit, tiu⟩
      · rw [firsts, if_pos kind]
        exact tdma
      · rw [Repeats, if_pos kind]
        exact repeats
    | false =>
      have notTiu : ¬ row.isTiu = true := Bool.eq_false_iff.mp kind
      by_cases same : row.1.key = cur.tdmaPrevious
      · obtain ⟨only, rest⟩ := runs.again kind possible same
        obtain ⟨tiu, tdma, repeats⟩ := ih _ rest rfl
        refine ⟨?_, ?_, ?_⟩
        · rw [List.filter_cons_of_neg notTiu]
          exact tiu
        · rw [firsts, if_neg notTiu, if_neg (not_not_intro same)]
          exact tdma
        · rw [Repeats, if_neg notTiu]
          exact ⟨fun _ => only, same ▸ repeats⟩
      · obtain ⟨i, inside, place, hit, rest⟩ :=
          runs.fresh kind idsHere possible same
        obtain ⟨tiu, tdma, repeats⟩ := ih _ rest rfl
        refine ⟨?_, ?_, ?_⟩
        · rw [List.filter_cons_of_neg notTiu]
          exact tiu
        · rw [firsts, if_neg notTiu, if_pos same, foundFrom_cons]
          exact ⟨i, inside, place, hit, tdma⟩
        · rw [Repeats, if_neg notTiu]
          exact ⟨fun same' => absurd same' same, repeats⟩

end

/-! ## Which events are found -/

/-- What the element in front of an event has in its `tdmaReg`, when the events up to there are
    right. -/
def Before (own : Row → TdmaReg) (front : List Row) (b : Option TdmaReg) : Prop :=
  (front = [] → b = none) ∧ ∀ row ∈ front.getLast?,
    if row.isTiu then b ≠ none else b = some (own row)

section

variable {own : Row → TdmaReg} {front rows : List Row} {row : Row}

theorem before_nil (own : Row → TdmaReg) : Before own [] none :=
  ⟨fun _ => rfl, fun _ none => absurd none (Option.not_mem_none _)⟩

theorem before_append_tiu (tiu : row.isTiu = true) :
    Before own (front ++ [row]) = (· ≠ none) := by
  funext b
  simp [Before, tiu]

theorem before_append_tdma (tdma : row.isTiu = false) :
    Before own (front ++ [row]) = (· = some (own row)) := by
  funext b
  simp [Before, tdma]

theorem before_only (row : Row) : (∀ b, Before own front b → b = some (own row)) ↔
    ∃ init before, front = init ++ [before] ∧ before.isTiu = false ∧ own before = own row := by
  obtain rfl | ⟨init, before, rfl⟩ := List.eq_nil_or_concat front
  · refine iff_of_false (fun only => ?_) ?_
    · cases only none (before_nil own)
    · rintro ⟨init, before, empty, -⟩
      exact absurd empty.symm (List.append_ne_nil_of_right_ne_nil _ (List.cons_ne_nil _ _))
  · rw [List.concat_eq_append]
    cases kind : before.isTiu with
    | true =>
      rw [before_append_tiu kind]
      refine iff_of_false (fun only => ?_) ?_
      · obtain ⟨other, differs⟩ := exists_other_tdma (own row)
        exact differs (Option.some_inj.mp (only (some other) (Option.some_ne_none other)))
      · rintro ⟨init', before', same, tdma, -⟩
        obtain ⟨-, same⟩ := List.append_inj' same rfl
        rw [List.singleton_inj.mp same, tdma] at kind
        cases kind
    | false =>
      rw [before_append_tdma kind]
      constructor
      · intro only
        exact ⟨init, before, rfl, kind, Option.some_inj.mp (only _ rfl)⟩
      · rintro ⟨init', before', same, -, equal⟩ b rfl
        obtain ⟨-, same⟩ := List.append_inj' same rfl
        rw [List.singleton_inj.mp same, equal]

theorem lastKey_append_tiu (tiu : row.isTiu = true) : lastKey (front ++ [row]) = lastKey front := by
  simp [lastKey, tdmaRows, tiu]

theorem lastKey_append_tdma (tdma : row.isTiu = false) :
    lastKey (front ++ [row]) = row.1.key := by
  simp [lastKey, tdmaRows, tdma]

theorem repeats_iff (own : Row → TdmaReg) (front rows : List Row) :
    Repeats own (Before own front) (lastKey front) rows ↔
      ∀ mid row back, rows = mid ++ row :: back → row.isTiu = false →
        row.1.key = lastKey (front ++ mid) → ∃ init before, front ++ mid = init ++ [before] ∧
          before.isTiu = false ∧ own before = own row := by
  induction rows generalizing front with
  | nil =>
    refine iff_of_true trivial ?_
    intro mid row back split
    exact absurd split.symm (List.append_ne_nil_of_right_ne_nil _ (List.cons_ne_nil _ _))
  | cons row rows ih =>
    -- a split of the rows is in front of the first, or one of the rest
    have splits : (∀ mid row' back, row :: rows = mid ++ row' :: back → row'.isTiu = false →
        row'.1.key = lastKey (front ++ mid) → ∃ init before, front ++ mid = init ++ [before] ∧
          before.isTiu = false ∧ own before = own row') ↔
        (row.isTiu = false → row.1.key = lastKey front → ∃ init before, front = init ++ [before] ∧
          before.isTiu = false ∧ own before = own row) ∧
        Repeats own (Before own (front ++ [row])) (lastKey (front ++ [row])) rows := by
      rw [ih]
      constructor
      · intro all
        refine ⟨?_, ?_⟩
        · have first := all [] row rows rfl
          rwa [List.append_nil] at first
        · rintro mid row' back rfl
          have later := all (row :: mid) row' back rfl
          rwa [List.append_cons] at later
      · rintro ⟨first, later⟩ mid row' back split
        cases mid with
        | nil =>
          obtain ⟨rfl, rfl⟩ := List.cons.inj split
          rwa [List.append_nil]
        | cons row'' mid =>
          obtain ⟨rfl, rfl⟩ := List.cons.inj split
          rw [List.append_cons]
          exact later mid row' back rfl
    rw [splits, Repeats]
    cases kind : row.isTiu with
    | true =>
      rw [if_pos rfl, before_append_tiu kind, lastKey_append_tiu kind]
      exact (and_iff_right fun tdma => Bool.noConfusion tdma).symm
    | false =>
      rw [if_neg Bool.false_ne_true, before_append_tdma kind, lastKey_append_tdma kind, before_only]
      exact and_congr_left' ⟨fun here _ => here, fun here => here rfl⟩

end

/-! ## The first segment -/

section

variable {h : RegHeaders} {m₀ m : Nat → UInt8} {rows : List Row}

theorem tiuOffsetOf_eq (kept : OffsetsKept h.k m₀ m) (fits : SlotsFit h m₀)
    (some : 0 < read32 m₀ 8) {i : Nat} (inside : i < tiuNum h.k m₀ 0) :
    tiuOffsetOf h m i = tiuSlotAt h.k m₀ ⟨0, i⟩ := by
  have small := fits.tiu ⟨0, i⟩ (mem_slotsOf.mpr ⟨some, inside⟩)
  have offset := kept.tiu 0 some (Nat.ne_zero_of_lt inside)
  rw [tiuOffsetOf, offset]
  exact Nat.mod_eq_of_lt small

theorem tdmaOffsetOf_eq (kept : OffsetsKept h.k m₀ m) (fits : SlotsFit h m₀)
    (some : 0 < read32 m₀ 8) {i : Nat} (inside : i < tdmaNum h.k m₀ 0) :
    tdmaOffsetOf h m i = tdmaSlotAt h.k m₀ ⟨0, i⟩ := by
  have small := fits.tdma ⟨0, i⟩ (mem_slotsOf.mpr ⟨some, inside⟩)
  have offset := kept.tdma 0 some (Nat.ne_zero_of_lt inside)
  rw [tdmaOffsetOf, offset]
  exact Nat.mod_eq_of_lt small

theorem FirstSlot.isSlot (kept : OffsetsKept h.k m₀ m) (fits : SlotsFit h m₀)
    (some : 0 < read32 m₀ 8) {read : Nat × Nat}
    (first : FirstSlot h m (tiuNum h.k m₀ 0) (tdmaNum h.k m₀ 0) read) : IsSlot h m₀ read := by
  obtain ⟨i, inside, rfl⟩ | ⟨i, inside, rfl⟩ := first
  · rw [tiuOffsetOf_eq kept fits some inside]
    exact Or.inl ⟨⟨0, i⟩, mem_slotsOf.mpr ⟨some, inside⟩, rfl⟩
  · rw [tdmaOffsetOf_eq kept fits some inside]
    exact Or.inr ⟨⟨0, i⟩, mem_slotsOf.mpr ⟨some, inside⟩, rfl⟩

/-- Without segments there are no events. -/
theorem Traced.eq_nil (traced : Traced h m₀ m rows) (none : read32 m₀ 8 = 0) : rows = [] := by
  have noTiu : rows.filter Row.isTiu = [] := by
    have slots := traced.tiu
    rw [tiuSlots, none] at slots
    exact List.map_eq_nil_iff.mp slots
  have noTdma : tdmaRows rows = [] := by
    have served := traced.tdma
    rw [tdmaSlots, none] at served
    generalize tdmaRows rows = served at *
    cases served
    rfl
  rw [List.eq_nil_iff_forall_not_mem]
  intro row at'
  rw [List.filter_eq_nil_iff] at noTiu
  rw [tdmaRows, List.filter_eq_nil_iff] at noTdma
  exact noTdma row at' (by simpa using noTiu row at')

/-- What is found among the descriptors of the first segment. -/
theorem matchable_iff (kept : OffsetsKept h.k m₀ m) (fits : SlotsFit h m₀)
    (some : 0 < read32 m₀ 8) (traced : Traced h m₀ m rows) : Matchable h m₀ m rows ↔
      Findable h m₀ m (tiuNum h.k m₀ 0) (tdmaNum h.k m₀ 0) (Before (ownTdma h m₀ m) []) {}
        rows := by
  have tdmaSame (i : Nat) (inside : i < tdmaNum h.k m₀ 0) :
      tdmaPlace h m i = tdmaRegAt h m (tdmaSlotAt h.k m₀ ⟨0, i⟩) := by
    rw [tdmaPlace, tdmaOffsetOf_eq kept fits some inside]
  have owns : (rows.filter Row.isTiu).map (ownTiu h m₀ m) =
      (tiuSlots h.k m₀).map fun slot => tiuRegAt h m (tiuSlotAt h.k m₀ slot) := by
    rw [← traced.tiu, List.map_map]
    rfl
  have order := repeats_iff (ownTdma h m₀ m) [] rows
  constructor
  · intro matchable
    refine ⟨?_, matchable.tdma.congr tdmaSame, order.mpr matchable.repeats⟩
    have all : (rows.filter Row.isTiu).map (ownTiu h m₀ m) =
        (List.range' 0 (tiuNum h.k m₀ 0 - 0)).map (tiuPlace h m) := by
      rw [owns, tiuSlots, slotsOf_first some matchable.tiu, List.map_map, Nat.sub_zero,
        ← List.range_eq_range']
      apply List.map_congr_left
      intro i inside
      rw [tiuPlace, tiuOffsetOf_eq kept fits some (List.mem_range.mp inside)]
      rfl
    rw [all]
    exact foundFrom_range 0 (Nat.zero_le _)
  · intro findable
    refine ⟨?_, order.mp findable.repeats, findable.tdma.congr fun i inside =>
      (tdmaSame i inside).symm⟩
    have few := findable.tiu.length_le (Nat.zero_le _)
    rw [owns, List.length_map, Nat.zero_add] at few
    exact later_of_slotsOf_length few

/-- The numbers of the first segment have nothing in their upper halves. -/
def CountsOnly (k : KernelHeaders) (m : Nat → UInt8) : Prop :=
  read32 m (armAt k 0 + 4) < 65536 ∧ read32 m (armAt k 0 + 8) < 65536

theorem fillList_length {elements : List DesElement} {out : List DesElement × Cursors}
    {b : Option TdmaReg} {cur : Cursors} (runs : fillList h m b cur elements = some out) :
    out.1.length = elements.length := by
  induction elements generalizing b cur out with
  | nil =>
    obtain rfl := Option.some_inj.mp runs
    rfl
  | cons element elements ih =>
    obtain ⟨element', cur', out', -, rest, rfl⟩ := fillList_cons runs
    rw [List.length_cons, List.length_cons, ih rest]

/-- The loop goes through the events and ends at the element behind them. -/
theorem tpuPmuFillCmdbuf_eq {elements tail : List DesElement} {zero : DesElement}
    (typed : ∀ row ∈ rows, row.1.WellTyped)
    (events : elements.map DesElement.pmuEvent = rows.map Prod.fst)
    (ends : zero.pmuEvent.type = 0) {fuel : Nat} (enough : rows.length < fuel) :
    tpuPmuFillCmdbuf h m fuel (elements ++ zero :: tail) =
      (fillList h m none {} elements).map fun out => (out.1 ++ zero :: tail, out.2) := by
  have length : elements.length = rows.length := by
    simpa using congrArg List.length events
  refine fillLoop_eq ends fuel [] elements {} ?_ (length ▸ enough)
  intro element at' none
  have at' := List.mem_map_of_mem (f := DesElement.pmuEvent) at'
  rw [events] at at'
  obtain ⟨row, at', event⟩ := List.mem_map.mp at'
  have typed := (typed row at').1
  rw [event, none] at typed
  exact absurd typed (by decide)

theorem runsRight_of_matched (typed : ∀ row ∈ rows, row.1.WellTyped)
    (matched : Matched h m₀ m rows) :
    RunsRight h m₀ m (Before (ownTdma h m₀ m) []) {} rows := by
  intro b elements start events
  obtain rfl := start.1 rfl
  obtain ⟨elements', pElement', cur, ⟨events', zero', tail', rfl, -⟩, runs, right, -⟩ :=
    matched elements
      (elements ++ [⟨⟨0, 0, 0, 0, 0, 0⟩, ⟨0, 0⟩, h.parseTdmaReg [], ""⟩]) ⟨events, _, [], rfl, rfl⟩
  have filled := runs (rows.length + 1) (Nat.lt_succ_self _)
  rw [tpuPmuFillCmdbuf_eq typed events rfl (Nat.lt_succ_self _), Option.map_eq_some_iff] at filled
  obtain ⟨out, filled, same⟩ := filled
  have lengths : out.1.length = elements'.length := by
    rw [fillList_length filled]
    simpa using congrArg List.length (events.trans events'.symm)
  obtain ⟨rfl, -⟩ := List.append_inj (congrArg Prod.fst same) lengths
  exact ⟨out, filled, right⟩

theorem matched_of_findable (kept : OffsetsKept h.k m₀ m)
    (traced : Traced h m₀ m rows) (reads : ∀ read,
      FirstSlot h m (tiuNum h.k m₀ 0) (tdmaNum h.k m₀ 0) read → IsSlot h m₀ read)
    (some : 0 < read32 m₀ 8) (findable : Findable h m₀ m (tiuNum h.k m₀ 0) (tdmaNum h.k m₀ 0)
      (Before (ownTdma h m₀ m) []) {} rows) : Matched h m₀ m rows := by
  obtain ⟨tiuWord, tdmaWord⟩ := kept.words 0 some
  have enoughTiu : tiuNum h.k m₀ 0 ≤ tiuCntOf h m := by
    rw [tiuCntOf, tiuWord]
    exact Nat.mod_le _ _
  have enoughTdma : tdmaNum h.k m₀ 0 ≤ tdmaCntOf h m := by
    rw [tdmaCntOf, tdmaWord]
    exact Nat.mod_le _ _
  rintro elements pElement ⟨events, zero, tail, rfl, ends⟩
  obtain ⟨elements', cur', runs, right, firstReads⟩ := fillList_right enoughTiu enoughTdma
    traced.ids {} (b := none) (before_nil _) elements events findable
  refine ⟨elements', elements' ++ zero :: tail, cur', ⟨?_, zero, tail, rfl, ends⟩, ?_, right, ?_⟩
  · rw [← List.forall₂_eq_eq_eq, List.forall₂_map_left_iff, List.forall₂_map_right_iff]
    exact right.flip.imp fun _ _ here => here.1
  · intro fuel enough
    rw [tpuPmuFillCmdbuf_eq traced.typed events ends enough, runs]
    rfl
  · intro read at'
    exact reads read ((firstReads read at').resolve_left List.not_mem_nil)

theorem matchable_nil (none : read32 m₀ 8 = 0) : Matchable h m₀ m [] := by
  refine ⟨fun i later inside => ?_, ?_, FoundFrom.nil 0⟩
  · rw [none] at inside
    exact absurd inside (Nat.not_lt_zero i)
  · intro front row back split
    exact absurd split.symm (List.append_ne_nil_of_right_ne_nil _ (List.cons_ne_nil _ _))

theorem matched_nil (h : RegHeaders) (m₀ m : Nat → UInt8) : Matched h m₀ m [] := by
  rintro elements pElement ⟨events, zero, tail, rfl, ends⟩
  obtain rfl := List.map_eq_nil_iff.mp events
  refine ⟨[], zero :: tail, {}, ⟨rfl, zero, tail, rfl, ends⟩, ?_, List.Forall₂.nil,
    List.forall_mem_nil _⟩
  intro fuel enough
  exact tpuPmuFillCmdbuf_eq (List.forall_mem_nil _) events ends enough

/-- `tpu_pmu_fill_cmdbuf` gives every event the registers of its descriptor when only the first
    segment has descriptors for the events and the two events of a descriptor are next to each
    other; and, when the numbers of the first segment are not above 65535, only then. -/
theorem tpuPmuFillCmdbuf_matched {devaddr : UInt64} {originalSize pmubufSize : UInt32}
    {s s' : Buffers} (relocates : dmabufRelocate h.k devaddr originalSize pmubufSize s = .ok () s')
    (fits : SlotsFit h s.dmabuf) (traced : Traced h s.dmabuf s'.dmabuf rows) :
    (Matchable h s.dmabuf s'.dmabuf rows → Matched h s.dmabuf s'.dmabuf rows) ∧
      (CountsOnly h.k s.dmabuf → Matched h s.dmabuf s'.dmabuf rows →
        Matchable h s.dmabuf s'.dmabuf rows) := by
  have kept := dmabufRelocate_kept relocates
  obtain none | some := Nat.eq_zero_or_pos (read32 s.dmabuf 8)
  · obtain rfl := traced.eq_nil none
    exact ⟨fun _ => matched_nil h _ _, fun _ _ => matchable_nil none⟩
  · rw [matchable_iff kept fits some traced]
    refine ⟨matched_of_findable kept traced (fun read first => first.isSlot kept fits some)
      some, ?_⟩
    intro counts matched
    obtain ⟨tiuWord, tdmaWord⟩ := kept.words 0 some
    have found := findable_of_runsRight traced.ids {}
      (runsRight_of_matched traced.typed matched) (b := none) (before_nil _)
    rwa [tiuCntOf, tiuWord, ← Nat.mod_eq_of_lt counts.1, tdmaCntOf, tdmaWord,
      ← Nat.mod_eq_of_lt counts.2] at found

end

/-! ## Two buffers -/

/-- The register layout of the 1822, as far as the ids go. -/
def regs1822 : RegHeaders where
  k := kernel1822
  sizeofDesElement := 408
  parseTiuReg bytes := ⟨kernel1822.tiuCmdId bytes, 0⟩
  parseTdmaReg bytes := ⟨kernel1822.tdmaCmdId bytes, 0, 0, 0, 0, 0, 0, 0, 0, 0, 0, 0, 0, 0, 0, 0, 0,
    0, 0, 0, 0, 0, 0, 0, 0⟩
  tiuTypeStr _ := none
  tiu_id _ := rfl
  tdma_id _ := rfl

/-- One segment with TIU descriptors at 512 and 624 and TDMA descriptors at 1024 and 1088; the
    second of each has the id 1, which a TIU descriptor has in its last line. -/
def twoPairsBuffer (i : Nat) : UInt8 :=
  if i = 0 ∨ i = 1 then 0xB5 else if i = 8 then 1 else if i = 132 ∨ i = 136 then 2
  else if i = 141 then 2 else if i = 145 then 4 else if i = 720 then 8 else if i = 1090 then 1 else 0

def twoPairsSegments : List (List Rec) :=
  [[⟨0, 0, 0, 0⟩, ⟨0, 1, 0, 0⟩, ⟨0, 0, 0, 1⟩, ⟨0, 1, 0, 1⟩]]

def twoPairsRelocated : Nat → UInt8 :=
  moveSegs kernel1822 4096 2048 64 twoPairsSegments 0 twoPairsBuffer

theorem twoPairsBuffer_relocates :
    ∃ s', dmabufRelocate kernel1822 4096 2048 64 ⟨twoPairsBuffer, []⟩ = .ok () s' ∧
      s'.dmabuf = twoPairsRelocated := by
  apply dmabufRelocate_apply (by decide) _ _ (by decide)
  · intro seg at'
    obtain rfl := List.mem_singleton.mp at'
    exact ⟨by decide, by decide⟩
  · intro i seg found
    cases i with
    | zero =>
      obtain rfl := Option.some_inj.mp found
      exact ⟨by decide, by decide⟩
    | succ i => cases found

theorem twoPairsBuffer_fits : SlotsFit regs1822 twoPairsBuffer := by
  constructor <;> decide

/-- A load and a store of the first TDMA descriptor, a load of the second, and two TIU events. -/
def twoPairsRows : List Row :=
  [(⟨1, 0, 0, 0, 9, 5⟩, ⟨0, 0⟩), (⟨2, 0, 0, 0, 9, 5⟩, ⟨0, 0⟩), (⟨4, 0, 0, 0, 12, 7⟩, ⟨0, 0⟩),
    (⟨1, 1, 0, 0, 20, 15⟩, ⟨0, 1⟩), (⟨4, 1, 0, 0, 25, 21⟩, ⟨0, 1⟩)]

theorem twoPairsRows_traced : Traced regs1822 twoPairsBuffer twoPairsRelocated twoPairsRows where
  typed := by decide
  segments := by decide
  tiu := by decide
  tdma := Served.two rfl rfl rfl (Served.one rfl Served.nil)
  ids := by decide

theorem twoPairsRows_matchable :
    Matchable regs1822 twoPairsBuffer twoPairsRelocated twoPairsRows where
  tiu := by
    intro i later inside
    have one : read32 twoPairsBuffer 8 = 1 := by decide
    omega
  repeats := by
    intro front row back split tdma repeated
    rcases front with _ | ⟨a, _ | ⟨b, _ | ⟨c, _ | ⟨d, _ | ⟨e, front⟩⟩⟩⟩⟩
    · cases split
      exact absurd repeated (by decide)
    · cases split
      exact ⟨[], _, rfl, rfl, rfl⟩
    · cases split
      exact absurd tdma (by decide)
    · cases split
      exact absurd repeated (by decide)
    · cases split
      exact absurd tdma (by decide)
    · simp [twoPairsRows] at split
  tdma := by
    refine FoundFrom.cons (i := 0) (by decide) ⟨Nat.le_refl 0, rfl, ?_⟩
      (FoundFrom.cons (i := 1) (by decide) ⟨Nat.le_refl 1, rfl, ?_⟩ (.nil 2))
    · intro j a b
      omega
    · intro j a b
      omega

theorem tpuPmuFillCmdbuf_matched_twoPairs : ∃ s' : Buffers, s'.dmabuf = twoPairsRelocated ∧
    Matched regs1822 twoPairsBuffer s'.dmabuf twoPairsRows := by
  obtain ⟨s', relocates, memory⟩ := twoPairsBuffer_relocates
  refine ⟨s', memory, ?_⟩
  refine (tpuPmuFillCmdbuf_matched (h := regs1822) relocates twoPairsBuffer_fits
    (memory ▸ twoPairsRows_traced)).1 ?_
  rw [memory]
  exact twoPairsRows_matchable

/-- One segment with a TIU descriptor at 512 and a TDMA descriptor at 1024. -/
def pairBuffer (i : Nat) : UInt8 :=
  if i = 0 ∨ i = 1 then 0xB5 else if i = 8 ∨ i = 132 ∨ i = 136 then 1
  else if i = 141 then 2 else if i = 145 then 4 else 0

def pairSegments : List (List Rec) := [[⟨0, 0, 0, 0⟩, ⟨0, 1, 0, 0⟩]]

def pairRelocated : Nat → UInt8 := moveSegs kernel1822 4096 2048 64 pairSegments 0 pairBuffer

theorem pairBuffer_relocates : ∃ s', dmabufRelocate kernel1822 4096 2048 64 ⟨pairBuffer, []⟩ =
    .ok () s' ∧ s'.dmabuf = pairRelocated := by
  apply dmabufRelocate_apply (by decide) _ _ (by decide)
  · intro seg at'
    obtain rfl := List.mem_singleton.mp at'
    exact ⟨by decide, by decide⟩
  · intro i seg found
    cases i with
    | zero =>
      obtain rfl := Option.some_inj.mp found
      exact ⟨by decide, by decide⟩
    | succ i => cases found

theorem pairBuffer_fits : SlotsFit regs1822 pairBuffer := by
  constructor <;> decide

/-- A load and a store of the TDMA descriptor, and the TIU event between them. -/
def betweenRows : List Row :=
  [(⟨1, 0, 0, 0, 9, 5⟩, ⟨0, 0⟩), (⟨4, 0, 0, 0, 12, 7⟩, ⟨0, 0⟩), (⟨2, 0, 0, 0, 9, 5⟩, ⟨0, 0⟩)]

theorem betweenRows_traced : Traced regs1822 pairBuffer pairRelocated betweenRows where
  typed := by decide
  segments := by decide
  tiu := by decide
  tdma := Served.two rfl rfl rfl Served.nil
  ids := by decide

/-- The store copies the registers that the element of the TIU event happens to hold. -/
theorem tpuPmuFillCmdbuf_not_matched : ∃ s',
    dmabufRelocate kernel1822 4096 2048 64 ⟨pairBuffer, []⟩ = .ok () s' ∧
      SlotsFit regs1822 pairBuffer ∧ Traced regs1822 pairBuffer s'.dmabuf betweenRows ∧
      ¬ Matched regs1822 pairBuffer s'.dmabuf betweenRows := by
  obtain ⟨s', relocates, memory⟩ := pairBuffer_relocates
  refine ⟨s', relocates, pairBuffer_fits, memory ▸ betweenRows_traced, ?_⟩
  rw [memory]
  intro matched
  have findable := findable_of_runsRight betweenRows_traced.ids {}
    (runsRight_of_matched betweenRows_traced.typed matched) (b := none) (before_nil _)
  have only := findable.repeats.2.1 rfl
  obtain ⟨other, differs⟩ := exists_other_tdma _
  exact differs (Option.some_inj.mp (only (some other) (Option.some_ne_none other)))

end CviRuntime.Pmu
