import CviRuntime.Lib.ByteMem

/-!
# The event buffer of the PMU (`src/soc/180x/tpu_pmu.cpp`)

The PMU leaves its events behind the descriptors of a buffer; a zero word ends them.
`tpu_pmu_time` adds up what they took and guesses from their times how often the clock wrapped.
-/

namespace CviRuntime.Pmu

open ByteMem

/-- `TPU_PMU_DOUBLEEVENT` (`tpu_pmu.cpp:14-21`). -/
structure PmuEvent where
  type : BitVec 4
  desID : BitVec 16
  eventCnt0 : BitVec 22
  eventCnt1 : BitVec 22
  endTime : BitVec 32
  startTime : BitVec 32
  deriving DecidableEq, Repr

/-- `TPU_PMUTYPE` (`tpu_pmu.cpp:31-36`). -/
def typeTdmaLoad : BitVec 4 := 1
def typeTdmaStore : BitVec 4 := 2
def typeTdmaMove : BitVec 4 := 3
def typeTiu : BitVec 4 := 4

/-- The three fields by which a second g2g event is told from the first. -/
structure EventKey where
  desID : BitVec 16
  startTime : BitVec 32
  endTime : BitVec 32
  deriving DecidableEq, Repr

def PmuEvent.key (e : PmuEvent) : EventKey := ⟨e.desID, e.startTime, e.endTime⟩

/-- The event at an offset: the bit fields of a 64-bit word, and two words. -/
def readEvent (m : Nat → UInt8) (off : Nat) : PmuEvent :=
  let word := read32 m off + 2 ^ 32 * read32 m (off + 4)
  { type := BitVec.ofNat 4 word
    desID := BitVec.ofNat 16 (word / 2 ^ 4)
    eventCnt0 := BitVec.ofNat 22 (word / 2 ^ 20)
    eventCnt1 := BitVec.ofNat 22 (word / 2 ^ 42)
    endTime := BitVec.ofNat 32 (read32 m (off + 8))
    startTime := BitVec.ofNat 32 (read32 m (off + 12)) }

/-- The events from an offset on, up to the zero word. -/
def EventsAt (m : Nat → UInt8) : Nat → List PmuEvent → Prop
  | off, [] => read32 m off = 0
  | off, e :: events =>
    read32 m off ≠ 0 ∧ readEvent m off = e ∧ EventsAt m (off + 16) events

/-- The types that the PMU has. -/
def PmuEvent.WellTyped (e : PmuEvent) : Prop := typeTdmaLoad ≤ e.type ∧ e.type ≤ typeTiu

instance (e : PmuEvent) : Decidable e.WellTyped := inferInstanceAs (Decidable (_ ∧ _))

/-! ## The loop over the events -/

/-- The variables of `tpu_pmu_time` (`tpu_pmu.cpp:715-726`), and the copies it makes into
    `p_element`, latest last. -/
structure Totals where
  u64TDMATotal : BitVec 64 := 0
  u64TIUTotal : BitVec 64 := 0
  u64DesStart : BitVec 64 := 0
  u64DesEnd : BitVec 64 := 0
  u32TDMACnt : BitVec 32 := 0
  u32TIUCnt : BitVec 32 := 0
  index : BitVec 32 := 0
  wrapCnt : BitVec 32 := 0
  u64LoadBytes : BitVec 64 := 0
  u64StoreBytes : BitVec 64 := 0
  tdmaPrevious : EventKey := ⟨0, 0, 0⟩
  copies : List (Nat × PmuEvent) := []
  deriving DecidableEq, Repr

/-- `TPU_WRAP_LIMIT` (`tpu_pmu.cpp:77`). -/
def tpuWrapLimit : BitVec 32 := 0xFFFFFFFF

/-- `diff` (`tpu_pmu.cpp:750-755,768-773`). -/
def EventKey.diff (k : EventKey) : BitVec 32 :=
  if k.endTime > k.startTime then k.endTime - k.startTime
  else tpuWrapLimit - k.startTime + k.endTime

/-- What an event adds to `wrap_cnt`. -/
def EventKey.wrapped (k : EventKey) : BitVec 32 := if k.endTime > k.startTime then 0 else 1

/-- `TPU_BURST_SIZE * eventCnt1`. -/
def PmuEvent.burstBytes (e : PmuEvent) : BitVec 64 := 16 * e.eventCnt1.setWidth 64

/-- What a TDMA event adds (`tpu_pmu.cpp:761-788`). -/
def tdmaStep (st : Totals) (e : PmuEvent) : Totals :=
  let st := if e.key ≠ st.tdmaPrevious then
      { st with
        u64TDMATotal := st.u64TDMATotal + e.key.diff.setWidth 64
        wrapCnt := st.wrapCnt + e.key.wrapped
        u32TDMACnt := st.u32TDMACnt + 1 }
    else st
  { st with
    u64LoadBytes :=
      if e.type = typeTdmaLoad then st.u64LoadBytes + e.burstBytes else st.u64LoadBytes
    u64StoreBytes :=
      if e.type = typeTdmaStore then st.u64StoreBytes + e.burstBytes else st.u64StoreBytes
    tdmaPrevious := e.key }

/-- What a TIU event adds (`tpu_pmu.cpp:749-759`). -/
def tiuStep (st : Totals) (e : PmuEvent) : Totals :=
  { st with
    u64TIUTotal := st.u64TIUTotal + e.key.diff.setWidth 64
    wrapCnt := st.wrapCnt + e.key.wrapped
    u32TIUCnt := st.u32TIUCnt + 1 }

/-- One round of the loop of `tpu_pmu_time` (`tpu_pmu.cpp:731-792`). -/
def timeStep (allInfo : Bool) (st : Totals) (e : PmuEvent) : Totals :=
  if e.WellTyped then
    let st := { st with
      u64DesStart := if st.index = 0 then e.startTime.setWidth 64 else st.u64DesStart
      u64DesEnd := e.endTime.setWidth 64
      copies := if allInfo then st.copies ++ [(st.index.toNat, e)] else st.copies }
    let st := if e.type = typeTiu then tiuStep st e else tdmaStep st e
    { st with index := st.index + 1 }
  else { st with index := st.index + 1 }

def timeLoop (m : Nat → UInt8) (allInfo : Bool) : Nat → Nat → Totals → Option Totals
  | 0, _, _ => none
  | fuel + 1, pCurrent, st =>
    if read32 m pCurrent = 0 then some st
    else timeLoop m allInfo fuel (pCurrent + 16) (timeStep allInfo st (readEvent m pCurrent))

/-- `bmnet_p_duration` (`tpu_pmu.cpp:795-798`); the product and the sum in front are 32 bits
    wide. -/
def Totals.bmnetPDuration (st : Totals) : BitVec 64 :=
  if st.wrapCnt ≠ 0 then
    (tpuWrapLimit * (st.wrapCnt - 1) + tpuWrapLimit).setWidth 64 - st.u64DesStart + st.u64DesEnd
  else st.u64DesEnd - st.u64DesStart

/-- `tpu_pmu_time` (`tpu_pmu.cpp:710-798`) up to the percentages; `none` when the fuel runs out. -/
def tpuPmuTime (m : Nat → UInt8) (allInfo : Bool) (fuel : Nat) : Option Totals :=
  timeLoop m allInfo fuel (read32 m 28) {}

theorem timeLoop_eq {m : Nat → UInt8} {allInfo : Bool} {events : List PmuEvent}
    (fuel pCurrent : Nat) (st : Totals) (held : EventsAt m pCurrent events)
    (enough : events.length < fuel) :
    timeLoop m allInfo fuel pCurrent st = some (events.foldl (timeStep allInfo) st) := by
  induction events generalizing fuel pCurrent st with
  | nil =>
    obtain ⟨fuel, rfl⟩ := Nat.exists_eq_succ_of_ne_zero (Nat.ne_zero_of_lt enough)
    have ends : read32 m pCurrent = 0 := held
    rw [Nat.succ_eq_add_one, timeLoop, if_pos ends, List.foldl_nil]
  | cons e events ih =>
    obtain ⟨fuel, rfl⟩ := Nat.exists_eq_succ_of_ne_zero (Nat.ne_zero_of_lt enough)
    obtain ⟨more, here, rest⟩ := held
    rw [Nat.succ_eq_add_one, timeLoop, if_neg more, here, List.foldl_cons]
    exact ih fuel _ _ rest (Nat.lt_of_succ_lt_succ enough)

end CviRuntime.Pmu
