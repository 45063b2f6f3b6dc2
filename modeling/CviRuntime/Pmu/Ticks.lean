import CviRuntime.Pmu.Events
import Mathlib.Data.List.Destutter
import Mathlib.Algebra.BigOperators.Group.List.Basic

/-!
# The totals of the PMU

An event that ends before it starts, because the clock wrapped in between, is taken for one tick
less than it lasted, and one that takes no time for `2 ^ 32 - 1` ticks; both count as a wrap of the
clock. The totals are exact when there are none of these.
-/

namespace CviRuntime.Pmu

open ByteMem

/-! ## What the totals should be -/

/-- The ticks between the start and the end of an event, on a clock of 32 bits. -/
def EventKey.duration (k : EventKey) : Nat := (k.endTime - k.startTime).toNat

/-- The TIU events, and the TDMA events, of a buffer. -/
def tiuKeys (events : List PmuEvent) : List EventKey :=
  (events.filter fun e => e.type = typeTiu).map PmuEvent.key

def tdmaKeys (events : List PmuEvent) : List EventKey :=
  (events.filter fun e => e.type ≠ typeTiu).map PmuEvent.key

/-- The TDMA events that differ from the one before: of a g2g pair only the first. -/
def distinctTdma (events : List PmuEvent) : List EventKey := (tdmaKeys events).destutter (· ≠ ·)

/-- Starts and ends on a clock that does not wrap, from which the events were read: in the order of
    their ends, fewer than `2 ^ 32` ticks apart, and none of them longer. -/
structure Clocked (events : List PmuEvent) (history : List (Nat × Nat)) : Prop where
  read : List.Forall₂ (fun e h => h.1 ≤ h.2 ∧ h.2 - h.1 < 2 ^ 32 ∧
    e.startTime.toNat = h.1 % 2 ^ 32 ∧ e.endTime.toNat = h.2 % 2 ^ 32) events history
  inOrder : history.IsChain fun h h' => h.2 ≤ h'.2 ∧ h'.2 - h.2 < 2 ^ 32

/-- The totals are the sums of the durations, and the overall duration is the time from the first
    start to the last end. -/
structure Exact (events : List PmuEvent) (totals : Totals) : Prop where
  tiu : totals.u64TIUTotal.toNat = ((tiuKeys events).map EventKey.duration).sum
  tdma : totals.u64TDMATotal.toNat = ((distinctTdma events).map EventKey.duration).sum
  elapsed : ∀ history, Clocked events history → ∀ first ∈ history.head?,
    ∀ last ∈ history.getLast?, totals.bmnetPDuration.toNat = last.2 - first.1

/-- No event wraps or takes no time, but for TDMA events at the beginning whose fields are all 0,
    and the clock does not wrap from one end to the next. -/
structure Forward (events : List PmuEvent) : Prop where
  tiu : ∀ k ∈ tiuKeys events, k.startTime < k.endTime
  tdma : ∀ k ∈ (tdmaKeys events).dropWhile (· = ⟨0, 0, 0⟩), k.startTime < k.endTime
  ends : (events.map PmuEvent.endTime).IsChain (· ≤ ·)

/-! ## Sums -/

def sumDiff (keys : List EventKey) : Nat := (keys.map fun k => k.diff.toNat).sum

def sumDuration (keys : List EventKey) : Nat := (keys.map EventKey.duration).sum

/-- What the events add to `wrap_cnt`. -/
def wraps (keys : List EventKey) : Nat := keys.countP fun k => ¬ k.startTime < k.endTime

theorem EventKey.diff_toNat (k : EventKey) :
    k.diff.toNat + (if k.endTime < k.startTime then 1 else 0) =
      k.duration + if k.startTime = k.endTime then 2 ^ 32 - 1 else 0 := by
  unfold EventKey.diff EventKey.duration tpuWrapLimit
  split <;> split <;> split <;> bv_omega

theorem EventKey.diff_lt (k : EventKey) : k.diff.toNat < 2 ^ 32 := k.diff.isLt

/-- Each wrap is a tick too few, and each event without time `2 ^ 32 - 1` too many. -/
theorem sumDiff_add (keys : List EventKey) :
    sumDiff keys + keys.countP (fun k => k.endTime < k.startTime) =
      sumDuration keys + (2 ^ 32 - 1) * keys.countP fun k => k.startTime = k.endTime := by
  induction keys with
  | nil => rfl
  | cons k keys ih =>
    have here := k.diff_toNat
    simp only [sumDiff, sumDuration, List.map_cons, List.sum_cons, List.countP_cons,
      decide_eq_true_eq, Nat.mul_add] at ih ⊢
    by_cases same : k.startTime = k.endTime
    · rw [if_pos same] at here ⊢
      omega
    · rw [if_neg same] at here ⊢
      omega

theorem countP_wraps (keys : List EventKey) :
    keys.countP (fun k => k.endTime < k.startTime) +
      keys.countP (fun k => k.startTime = k.endTime) = wraps keys := by
  induction keys with
  | nil => rfl
  | cons k keys ih =>
    simp only [wraps, List.countP_cons, decide_eq_true_eq] at ih ⊢
    have cases : (if k.endTime < k.startTime then 1 else 0) +
        (if k.startTime = k.endTime then 1 else 0) =
        if ¬ k.startTime < k.endTime then 1 else 0 := by
      split <;> split <;> split <;> bv_omega
    omega

theorem wraps_eq_zero {keys : List EventKey} :
    wraps keys = 0 ↔ ∀ k ∈ keys, k.startTime < k.endTime := by
  simp [wraps, List.countP_eq_zero]

theorem sumDiff_lt (keys : List EventKey) : sumDiff keys ≤ 2 ^ 32 * keys.length := by
  induction keys with
  | nil => exact Nat.le_refl 0
  | cons k keys ih =>
    have here := k.diff_lt
    simp only [sumDiff, List.map_cons, List.sum_cons, List.length_cons] at ih ⊢
    omega

/-- Errors do not cancel: there are too few events. -/
theorem sumDiff_eq_iff {keys : List EventKey} (few : keys.length < 2 ^ 28) :
    sumDiff keys = sumDuration keys ↔ ∀ k ∈ keys, k.startTime < k.endTime := by
  have balance := sumDiff_add keys
  have split := countP_wraps keys
  have bound : wraps keys ≤ keys.length := List.countP_le_length
  rw [← wraps_eq_zero]
  omega

/-! ## The TDMA events that are counted -/

/-- The TDMA events that differ from the one before, where `prev` is before the first. -/
def counted : EventKey → List EventKey → List EventKey
  | _, [] => []
  | prev, k :: keys => if k ≠ prev then k :: counted k keys else counted k keys

theorem destutter'_eq_counted (prev : EventKey) (keys : List EventKey) :
    keys.destutter' (· ≠ ·) prev = prev :: counted prev keys := by
  induction keys generalizing prev with
  | nil => rfl
  | cons k keys ih =>
    by_cases same : k = prev
    · subst same
      rw [List.destutter'_cons_neg _ (not_not_intro rfl), counted, if_neg (not_not_intro rfl)]
      exact ih k
    · rw [List.destutter'_cons_pos _ (Ne.symm same), counted, if_pos same, ih k]

/-- An event at the beginning that is not counted, because its fields are 0, takes no time. -/
theorem sumDuration_counted (keys : List EventKey) :
    sumDuration (counted ⟨0, 0, 0⟩ keys) = sumDuration (keys.destutter (· ≠ ·)) := by
  cases keys with
  | nil => rfl
  | cons k keys =>
    rw [List.destutter_cons', destutter'_eq_counted, counted]
    by_cases zero : k = ⟨0, 0, 0⟩
    · subst zero
      rw [if_neg (not_not_intro rfl)]
      exact (Nat.zero_add _).symm
    · rw [if_pos zero]

theorem forall_dropWhile_eq {P : EventKey → Prop} {prev : EventKey} (holds : P prev)
    (keys : List EventKey) : (∀ k ∈ keys.dropWhile (· = prev), P k) ↔ ∀ k ∈ keys, P k := by
  induction keys with
  | nil => exact Iff.rfl
  | cons k keys ih =>
    by_cases same : k = prev
    · rw [List.dropWhile_cons, if_pos (decide_eq_true same), ih, List.forall_mem_cons]
      exact (and_iff_right (same ▸ holds)).symm
    · rw [List.dropWhile_cons, if_neg (by simp [same])]

theorem forall_counted {P : EventKey → Prop} (prev : EventKey) (keys : List EventKey) :
    (∀ k ∈ counted prev keys, P k) ↔ ∀ k ∈ keys.dropWhile (· = prev), P k := by
  induction keys generalizing prev with
  | nil => exact Iff.rfl
  | cons k keys ih =>
    by_cases same : k = prev
    · subst same
      rw [counted, if_neg (not_not_intro rfl), List.dropWhile_cons, if_pos (decide_eq_true rfl)]
      exact ih k
    · rw [counted, if_pos same, List.dropWhile_cons, if_neg (by simp [same]),
        List.forall_mem_cons, List.forall_mem_cons, ih]
      exact and_congr_right fun here => forall_dropWhile_eq here keys

theorem counted_length_le (prev : EventKey) (keys : List EventKey) :
    (counted prev keys).length ≤ keys.length := by
  induction keys generalizing prev with
  | nil => exact Nat.le_refl 0
  | cons k keys ih =>
    rw [counted, List.length_cons]
    split
    · exact Nat.succ_le_succ (ih k)
    · exact Nat.le_succ_of_le (ih k)

/-! ## The totals after the loop -/

theorem tiuKeys_length_add (events : List PmuEvent) :
    (tiuKeys events).length + (tdmaKeys events).length = events.length := by
  rw [tiuKeys, tdmaKeys, List.length_map, List.length_map, ← List.countP_eq_length_filter,
    ← List.countP_eq_length_filter, List.length_eq_countP_add_countP (fun e => e.type = typeTiu)]
  simp

theorem tiuKeys_cons (e : PmuEvent) (events : List PmuEvent) :
    tiuKeys (e :: events) = if e.type = typeTiu then e.key :: tiuKeys events
      else tiuKeys events := by
  by_cases tiu : e.type = typeTiu <;> simp [tiuKeys, tiu]

theorem tdmaKeys_cons (e : PmuEvent) (events : List PmuEvent) :
    tdmaKeys (e :: events) = if e.type = typeTiu then tdmaKeys events
      else e.key :: tdmaKeys events := by
  by_cases tiu : e.type = typeTiu <;> simp [tdmaKeys, tiu]

/-- The events that the totals of `tpu_pmu_time` are made of. -/
structure Summed (events : List PmuEvent) (before after : Totals) : Prop where
  tiu : after.u64TIUTotal = before.u64TIUTotal + BitVec.ofNat 64 (sumDiff (tiuKeys events))
  tdma : after.u64TDMATotal = before.u64TDMATotal +
    BitVec.ofNat 64 (sumDiff (counted before.tdmaPrevious (tdmaKeys events)))
  wraps : after.wrapCnt = before.wrapCnt + BitVec.ofNat 32
    (wraps (tiuKeys events) + wraps (counted before.tdmaPrevious (tdmaKeys events)))

theorem EventKey.wrapped_eq (k : EventKey) :
    k.wrapped = BitVec.ofNat 32 (if k.startTime < k.endTime then 0 else 1) := by
  by_cases later : k.startTime < k.endTime
  · rw [EventKey.wrapped, if_pos later, if_pos later]
    rfl
  · rw [EventKey.wrapped, if_neg later, if_neg later]
    rfl

theorem EventKey.diff_setWidth (k : EventKey) :
    k.diff.setWidth 64 = BitVec.ofNat 64 k.diff.toNat := by
  bv_omega

theorem sumDiff_cons (k : EventKey) (keys : List EventKey) :
    sumDiff (k :: keys) = k.diff.toNat + sumDiff keys := rfl

theorem wraps_cons (k : EventKey) (keys : List EventKey) :
    wraps (k :: keys) = (if k.startTime < k.endTime then 0 else 1) + wraps keys := by
  by_cases later : k.startTime < k.endTime
  · rw [if_pos later, Nat.zero_add]
    exact List.countP_cons_of_neg (by simp [later])
  · rw [if_neg later, Nat.add_comm]
    exact List.countP_cons_of_pos (by simp [later])

theorem Summed.refl (before : Totals) : Summed [] before before where
  tiu := (BitVec.add_zero _).symm
  tdma := (BitVec.add_zero _).symm
  wraps := (BitVec.add_zero _).symm

theorem Summed.cons_tiu {e : PmuEvent} {events : List PmuEvent} {before after : Totals}
    {allInfo : Bool} (typed : e.WellTyped) (tiu : e.type = typeTiu)
    (rest : Summed events (timeStep allInfo before e) after) :
    Summed (e :: events) before after := by
  have step : (timeStep allInfo before e).u64TIUTotal =
        before.u64TIUTotal + BitVec.ofNat 64 e.key.diff.toNat ∧
      (timeStep allInfo before e).u64TDMATotal = before.u64TDMATotal ∧
      (timeStep allInfo before e).tdmaPrevious = before.tdmaPrevious ∧
      (timeStep allInfo before e).wrapCnt = before.wrapCnt +
        BitVec.ofNat 32 (if e.key.startTime < e.key.endTime then 0 else 1) := by
    simp only [timeStep, if_pos typed, if_pos tiu, tiuStep, ← EventKey.diff_setWidth,
      ← EventKey.wrapped_eq, and_self]
  obtain ⟨atTiu, atTdma, atPrevious, atWraps⟩ := step
  refine ⟨?_, ?_, ?_⟩
  · rw [rest.tiu, atTiu, tiuKeys_cons, if_pos tiu, sumDiff_cons, BitVec.ofNat_add,
      BitVec.add_assoc]
  · rw [rest.tdma, atTdma, atPrevious, tdmaKeys_cons, if_pos tiu]
  · rw [rest.wraps, atWraps, atPrevious, tiuKeys_cons, if_pos tiu, tdmaKeys_cons, if_pos tiu,
      wraps_cons, Nat.add_assoc, BitVec.ofNat_add (ite _ _ _), BitVec.add_assoc]

theorem Summed.cons_tdma {e : PmuEvent} {events : List PmuEvent} {before after : Totals}
    {allInfo : Bool} (typed : e.WellTyped) (tdma : e.type ≠ typeTiu)
    (rest : Summed events (timeStep allInfo before e) after) :
    Summed (e :: events) before after := by
  have step : (timeStep allInfo before e).u64TIUTotal = before.u64TIUTotal ∧
      (timeStep allInfo before e).tdmaPrevious = e.key ∧
      (timeStep allInfo before e).u64TDMATotal = (if e.key ≠ before.tdmaPrevious then
        before.u64TDMATotal + BitVec.ofNat 64 e.key.diff.toNat else before.u64TDMATotal) ∧
      (timeStep allInfo before e).wrapCnt = (if e.key ≠ before.tdmaPrevious then before.wrapCnt +
        BitVec.ofNat 32 (if e.key.startTime < e.key.endTime then 0 else 1)
        else before.wrapCnt) := by
    simp only [timeStep, if_pos typed, if_neg tdma, tdmaStep, ← EventKey.diff_setWidth,
      ← EventKey.wrapped_eq]
    split <;> exact ⟨rfl, trivial, rfl, rfl⟩
  obtain ⟨atTiu, atPrevious, atTdma, atWraps⟩ := step
  refine ⟨?_, ?_, ?_⟩
  · rw [rest.tiu, atTiu, tiuKeys_cons, if_neg tdma]
  · rw [rest.tdma, atTdma, atPrevious, tdmaKeys_cons, if_neg tdma, counted]
    split
    · rw [sumDiff_cons, BitVec.ofNat_add, BitVec.add_assoc]
    · rfl
  · rw [rest.wraps, atWraps, atPrevious, tiuKeys_cons, if_neg tdma, tdmaKeys_cons, if_neg tdma,
      counted]
    split
    · rw [wraps_cons, Nat.add_left_comm, BitVec.ofNat_add (ite _ _ _), BitVec.add_assoc]
    · rfl

theorem foldl_summed (allInfo : Bool) (events : List PmuEvent) (before : Totals)
    (typed : ∀ e ∈ events, e.WellTyped) :
    Summed events before (events.foldl (timeStep allInfo) before) := by
  induction events generalizing before with
  | nil => exact Summed.refl before
  | cons e events ih =>
    have here := typed e List.mem_cons_self
    have rest := ih (timeStep allInfo before e) fun e' at' => typed e' (List.mem_cons_of_mem e at')
    by_cases tiu : e.type = typeTiu
    · exact Summed.cons_tiu here tiu rest
    · exact Summed.cons_tdma here tiu rest

theorem timeStep_ends (allInfo : Bool) (st : Totals) {e : PmuEvent} (typed : e.WellTyped) :
    (timeStep allInfo st e).u64DesEnd = e.endTime.setWidth 64 ∧
      (timeStep allInfo st e).index = st.index + 1 ∧
      (timeStep allInfo st e).u64DesStart =
        if st.index = 0 then e.startTime.setWidth 64 else st.u64DesStart := by
  simp only [timeStep, if_pos typed, tiuStep, tdmaStep]
  split
  · exact ⟨rfl, rfl, rfl⟩
  · split <;> exact ⟨rfl, rfl, rfl⟩

theorem foldl_desStart (allInfo : Bool) (events : List PmuEvent) (st : Totals)
    (typed : ∀ e ∈ events, e.WellTyped) (started : 0 < st.index.toNat)
    (fits : st.index.toNat + events.length < 2 ^ 32) :
    (events.foldl (timeStep allInfo) st).u64DesStart = st.u64DesStart := by
  induction events generalizing st with
  | nil => rfl
  | cons e events ih =>
    rw [List.length_cons] at fits
    obtain ⟨-, index, start⟩ := timeStep_ends allInfo st (typed e List.mem_cons_self)
    have next : (timeStep allInfo st e).index.toNat = st.index.toNat + 1 := by
      rw [index]
      bv_omega
    rw [List.foldl_cons, ih _ (fun e' at' => typed e' (List.mem_cons_of_mem e at')) (by omega)
      (by omega), start, if_neg (by bv_omega)]

theorem foldl_ends (allInfo : Bool) (first : PmuEvent) (events : List PmuEvent)
    (typed : ∀ e ∈ first :: events, e.WellTyped) (fits : events.length + 1 < 2 ^ 32) :
    ((first :: events).foldl (timeStep allInfo) {}).u64DesStart = first.startTime.setWidth 64 ∧
      ((first :: events).foldl (timeStep allInfo) {}).u64DesEnd =
        (events.getLastD first).endTime.setWidth 64 := by
  constructor
  · obtain ⟨-, index, start⟩ := timeStep_ends allInfo {} (typed first List.mem_cons_self)
    rw [List.foldl_cons, foldl_desStart allInfo events _
      (fun e at' => typed e (List.mem_cons_of_mem first at')) (by rw [index]; decide)
      (by rw [index]; exact Nat.add_comm 1 _ ▸ fits), start]
    rfl
  · obtain none | ⟨init, last, rfl⟩ := List.eq_nil_or_concat events
    · subst none
      exact (timeStep_ends allInfo {} (typed first List.mem_cons_self)).1
    · rw [List.concat_eq_append, ← List.cons_append, List.foldl_append]
      rw [List.getLastD_concat]
      exact (timeStep_ends allInfo _ (typed last (by simp))).1

/-! ## The time between two ends -/

/-- How often the clock wraps from one end to the next. -/
def laps : BitVec 32 → List PmuEvent → Nat
  | _, [] => 0
  | prev, e :: events => (if prev ≤ e.endTime then 0 else 1) + laps e.endTime events

theorem laps_le (prev : BitVec 32) (events : List PmuEvent) : laps prev events ≤ events.length := by
  induction events generalizing prev with
  | nil => exact Nat.le_refl 0
  | cons e events ih =>
    have rest := ih e.endTime
    rw [laps, List.length_cons]
    split <;> omega

theorem laps_eq_zero (prev : BitVec 32) (events : List PmuEvent) :
    laps prev events = 0 ↔ (prev :: events.map PmuEvent.endTime).IsChain (· ≤ ·) := by
  induction events generalizing prev with
  | nil => exact iff_of_true rfl (List.isChain_singleton prev)
  | cons e events ih =>
    rw [List.map_cons, List.isChain_cons_cons, ← ih, laps]
    split <;> rename_i order
    · rw [Nat.zero_add]
      exact (and_iff_right order).symm
    · exact iff_of_false (by omega) fun both => order both.1

/-- The rounds of the clock at the last end: those at the first, and those since. -/
theorem Clocked.rounds {e : PmuEvent} {events : List PmuEvent} {h : Nat × Nat}
    {history : List (Nat × Nat)} (clocked : Clocked (e :: events) (h :: history)) :
    h.2 ≤ (history.getLastD h).2 ∧ (history.getLastD h).2 =
      2 ^ 32 * (h.2 / 2 ^ 32 + laps e.endTime events) + (events.getLastD e).endTime.toNat := by
  induction events generalizing e h history with
  | nil =>
    obtain ⟨⟨-, -, -, readEnd⟩, none⟩ := List.forall₂_cons.mp clocked.read
    rw [List.forall₂_nil_left_iff] at none
    subst none
    simp only [List.getLastD_nil, laps]
    exact ⟨Nat.le_refl h.2, by omega⟩
  | cons e' events ih =>
    obtain ⟨⟨-, -, -, readEnd⟩, others⟩ := List.forall₂_cons.mp clocked.read
    obtain ⟨h', history, ⟨-, -, -, readEnd'⟩, rest, rfl⟩ := List.forall₂_cons_left_iff.mp others
    obtain ⟨⟨later, near⟩, chain⟩ := List.isChain_cons_cons.mp clocked.inOrder
    obtain ⟨after, rounds⟩ := ih ⟨others, chain⟩
    rw [List.getLastD_cons, List.getLastD_cons, laps]
    have step : h'.2 / 2 ^ 32 = h.2 / 2 ^ 32 + if e.endTime ≤ e'.endTime then 0 else 1 := by
      split <;> rename_i order
      · have order : e.endTime.toNat ≤ e'.endTime.toNat := order
        omega
      · have order : e'.endTime.toNat < e.endTime.toNat := Nat.lt_of_not_le order
        omega
    exact ⟨Nat.le_trans later after, by omega⟩

/-- A history of the events, from the time of the first end on. -/
def clockFrom : Nat → List PmuEvent → List (Nat × Nat)
  | _, [] => []
  | time, e :: events =>
    let ends := time + (e.endTime - BitVec.ofNat 32 time).toNat
    (ends - e.key.duration, ends) :: clockFrom ends events

/-- Every buffer can come from such a clock. -/
theorem clocked_clockFrom (time : Nat) (late : 2 ^ 32 ≤ time) (events : List PmuEvent) :
    Clocked events (clockFrom time events) ∧
      ∀ h ∈ (clockFrom time events).head?, time ≤ h.2 ∧ h.2 - time < 2 ^ 32 := by
  induction events generalizing time with
  | nil => exact ⟨⟨List.Forall₂.nil, List.isChain_nil⟩, by simp [clockFrom]⟩
  | cons e events ih =>
    obtain ⟨⟨read, inOrder⟩, next⟩ :=
      ih (time + (e.endTime - BitVec.ofNat 32 time).toNat) (by omega)
    have gap : (e.endTime - BitVec.ofNat 32 time).toNat < 2 ^ 32 := BitVec.isLt _
    have long : e.key.duration < 2 ^ 32 := BitVec.isLt _
    have atEnd : e.endTime.toNat =
        (time + (e.endTime - BitVec.ofNat 32 time).toNat) % 2 ^ 32 := by
      bv_omega
    refine ⟨⟨List.Forall₂.cons ⟨by omega, by omega, ?_, atEnd⟩ read, ?_⟩, ?_⟩
    · simp only [EventKey.duration, PmuEvent.key] at long ⊢
      bv_omega
    · exact List.IsChain.cons inOrder fun h head => next h head
    · intro h head
      obtain rfl := Option.some_inj.mp head
      exact ⟨Nat.le_add_right _ _, by simpa using gap⟩

theorem Clocked.elapsed {first : PmuEvent} {events : List PmuEvent} {h : Nat × Nat}
    {history : List (Nat × Nat)} (clocked : Clocked (first :: events) (h :: history))
    (order : first.startTime ≤ first.endTime) :
    (history.getLastD h).2 - h.1 + first.startTime.toNat =
      2 ^ 32 * laps first.endTime events + (events.getLastD first).endTime.toNat := by
  obtain ⟨after, rounds⟩ := clocked.rounds
  obtain ⟨⟨before, short, readStart, readEnd⟩, -⟩ := List.forall₂_cons.mp clocked.read
  have order : first.startTime.toNat ≤ first.endTime.toNat := order
  omega

/-! ## When the totals are exact -/

theorem forward_iff (events : List PmuEvent) :
    Forward events ↔ (∀ k ∈ tiuKeys events, k.startTime < k.endTime) ∧
      (∀ k ∈ counted ⟨0, 0, 0⟩ (tdmaKeys events), k.startTime < k.endTime) ∧
      (events.map PmuEvent.endTime).IsChain (· ≤ ·) := by
  rw [forall_counted]
  constructor
  · intro forward
    exact ⟨forward.tiu, forward.tdma, forward.ends⟩
  · rintro ⟨tiu, tdma, ends⟩
    exact ⟨tiu, tdma, ends⟩

/-- The first event does not wrap when the counted ones do not: it is counted, or all 0. -/
theorem first_ordered {first : PmuEvent} {events : List PmuEvent}
    (tiu : ∀ k ∈ tiuKeys (first :: events), k.startTime < k.endTime)
    (tdma : ∀ k ∈ counted ⟨0, 0, 0⟩ (tdmaKeys (first :: events)), k.startTime < k.endTime) :
    first.startTime ≤ first.endTime := by
  by_cases isTiu : first.type = typeTiu
  · rw [tiuKeys_cons, if_pos isTiu] at tiu
    exact BitVec.le_of_lt (tiu first.key List.mem_cons_self)
  · rw [tdmaKeys_cons, if_neg isTiu, counted] at tdma
    by_cases zero : first.key = ⟨0, 0, 0⟩
    · have atStart : first.startTime = 0 := congrArg EventKey.startTime zero
      rw [atStart]
      exact BitVec.le_def.mpr (Nat.zero_le _)
    · rw [if_pos zero] at tdma
      exact BitVec.le_of_lt (tdma first.key List.mem_cons_self)

/-- Without a wrap the overall duration is exact when the clock does not wrap from one end to the
    next. -/
theorem elapsed_iff {totals : Totals} {first : PmuEvent} {events : List PmuEvent}
    (few : events.length < 2 ^ 28) (noWrap : totals.wrapCnt = 0)
    (atStart : totals.u64DesStart = first.startTime.setWidth 64)
    (atEnd : totals.u64DesEnd = (events.getLastD first).endTime.setWidth 64)
    (order : first.startTime ≤ first.endTime) {h : Nat × Nat} {history : List (Nat × Nat)}
    (clocked : Clocked (first :: events) (h :: history)) :
    totals.bmnetPDuration.toNat = (history.getLastD h).2 - h.1 ↔
      laps first.endTime events = 0 := by
  have elapsed := clocked.elapsed order
  have bound := laps_le first.endTime events
  have later : h.1 ≤ (history.getLastD h).2 := by
    obtain ⟨⟨before, -⟩, -⟩ := List.forall₂_cons.mp clocked.read
    exact Nat.le_trans before clocked.rounds.1
  rw [Totals.bmnetPDuration, if_neg (not_not_intro noWrap), atStart, atEnd, BitVec.toNat_sub,
    BitVec.toNat_setWidth, BitVec.toNat_setWidth]
  omega

theorem Summed.tiu_exact_iff {events : List PmuEvent} {totals : Totals}
    (summed : Summed events {} totals) (few : events.length < 2 ^ 28) :
    totals.u64TIUTotal.toNat = ((tiuKeys events).map EventKey.duration).sum ↔
      ∀ k ∈ tiuKeys events, k.startTime < k.endTime := by
  have lengths := tiuKeys_length_add events
  have small := sumDiff_lt (tiuKeys events)
  rw [summed.tiu.trans (BitVec.zero_add _), BitVec.toNat_ofNat, Nat.mod_eq_of_lt (by omega)]
  exact sumDiff_eq_iff (by omega)

theorem Summed.tdma_exact_iff {events : List PmuEvent} {totals : Totals}
    (summed : Summed events {} totals) (few : events.length < 2 ^ 28) :
    totals.u64TDMATotal.toNat = ((distinctTdma events).map EventKey.duration).sum ↔
      ∀ k ∈ counted ⟨0, 0, 0⟩ (tdmaKeys events), k.startTime < k.endTime := by
  have lengths := tiuKeys_length_add events
  have countedFew := counted_length_le ⟨0, 0, 0⟩ (tdmaKeys events)
  have small := sumDiff_lt (counted ⟨0, 0, 0⟩ (tdmaKeys events))
  rw [summed.tdma.trans (BitVec.zero_add _), BitVec.toNat_ofNat,
    Nat.mod_eq_of_lt (Nat.lt_of_le_of_lt small (by omega)), ← sumDiff_eq_iff (by omega),
    sumDuration_counted]
  rfl

/-- Exact sums leave no event that could count as a wrap. -/
theorem Summed.wrapCnt_eq_zero {events : List PmuEvent} {totals : Totals}
    (summed : Summed events {} totals) (tiu : ∀ k ∈ tiuKeys events, k.startTime < k.endTime)
    (tdma : ∀ k ∈ counted ⟨0, 0, 0⟩ (tdmaKeys events), k.startTime < k.endTime) :
    totals.wrapCnt = 0 := by
  rw [summed.wraps, wraps_eq_zero.mpr tiu, wraps_eq_zero.mpr tdma]
  rfl

theorem exact_iff {events : List PmuEvent} {totals : Totals} (few : events.length < 2 ^ 28)
    (summed : Summed events {} totals) (ends : ∀ first rest, events = first :: rest →
      totals.u64DesStart = first.startTime.setWidth 64 ∧
        totals.u64DesEnd = (rest.getLastD first).endTime.setWidth 64) :
    Exact events totals ↔ Forward events := by
  rw [forward_iff]
  constructor
  · intro exact
    have tiu := (summed.tiu_exact_iff few).mp exact.tiu
    have tdma := (summed.tdma_exact_iff few).mp exact.tdma
    refine ⟨tiu, tdma, ?_⟩
    cases events with
    | nil => exact List.isChain_nil
    | cons first rest =>
      obtain ⟨atStart, atEnd⟩ := ends first rest rfl
      have clocked := (clocked_clockFrom (2 ^ 32) (Nat.le_refl _) (first :: rest)).1
      have true := exact.elapsed _ clocked _ rfl _ List.getLast?_cons
      rw [← List.getLastD_eq_getLast?] at true
      exact (laps_eq_zero _ _).mp ((elapsed_iff (Nat.lt_of_succ_lt few)
        (summed.wrapCnt_eq_zero tiu tdma) atStart atEnd (first_ordered tiu tdma) clocked).mp true)
  · rintro ⟨tiu, tdma, chain⟩
    refine ⟨(summed.tiu_exact_iff few).mpr tiu, (summed.tdma_exact_iff few).mpr tdma, ?_⟩
    intro history clocked h head last atLast
    cases events with
    | nil =>
      rw [List.forall₂_nil_left_iff.mp clocked.read] at head
      exact absurd head (Option.not_mem_none h)
    | cons first rest =>
      obtain ⟨h', history, -, -, rfl⟩ := List.forall₂_cons_left_iff.mp clocked.read
      obtain rfl := Option.some_inj.mp head
      rw [List.getLast?_cons, ← List.getLastD_eq_getLast?] at atLast
      obtain rfl := Option.some_inj.mp atLast
      obtain ⟨atStart, atEnd⟩ := ends first rest rfl
      exact (elapsed_iff (Nat.lt_of_succ_lt few) (summed.wrapCnt_eq_zero tiu tdma) atStart atEnd
        (first_ordered tiu tdma) clocked).mpr ((laps_eq_zero _ _).mpr chain)

/-- `tpu_pmu_time` is exact only for events that move forward: one that wraps is a tick short, one
    that takes no time is `2 ^ 32 - 1` ticks long, and a wrap is looked for inside the events only
    and in each of them. -/
theorem tpuPmuTime_exact_iff {m : Nat → UInt8} {events : List PmuEvent} (allInfo : Bool)
    (held : EventsAt m (read32 m 28) events) (typed : ∀ e ∈ events, e.WellTyped)
    (fits : 16 * events.length + 4 ≤ read32 m 24) :
    ∃ totals, (∀ fuel > events.length, tpuPmuTime m allInfo fuel = some totals) ∧
      (Exact events totals ↔ Forward events) := by
  have few : events.length < 2 ^ 28 := by
    have size := read32_lt m 24
    omega
  refine ⟨events.foldl (timeStep allInfo) {},
    fun fuel enough => timeLoop_eq fuel _ _ held enough,
    exact_iff few (foldl_summed allInfo events {} typed) ?_⟩
  rintro first rest rfl
  exact foldl_ends allInfo first rest typed (Nat.lt_trans few (by decide))

/-- A buffer with its header, whose `pmubuf` of 64 bytes is right behind it. -/
def eventBuffer (events : List UInt8) (i : Nat) : UInt8 :=
  (List.replicate 24 0 ++ [64, 0, 0, 0, 32, 0, 0, 0] ++ events).getD i 0

/-- A TIU event from 5 to 9, and a load from 7 to 10. -/
def forwardBytes : List UInt8 :=
  [0x14, 0, 0, 0, 0, 0, 0, 0, 9, 0, 0, 0, 5, 0, 0, 0,
    0x11, 0, 0, 0, 0, 0, 0, 0, 10, 0, 0, 0, 7, 0, 0, 0]

theorem tpuPmuTime_exact_iff_forward :
    ∃ totals, (∀ fuel > 2, tpuPmuTime (eventBuffer forwardBytes) false fuel = some totals) ∧
      (Exact [⟨4, 1, 0, 0, 9, 5⟩, ⟨1, 1, 0, 0, 10, 7⟩] totals ↔
        Forward [⟨4, 1, 0, 0, 9, 5⟩, ⟨1, 1, 0, 0, 10, 7⟩]) :=
  @tpuPmuTime_exact_iff (eventBuffer forwardBytes) [_, _] false
    ⟨by decide, rfl, by decide, rfl, rfl⟩ (by decide) (by decide)

/-- A TIU event that starts two ticks before the clock wraps, and ends one after. -/
def wrapBytes : List UInt8 := [0x14, 0, 0, 0, 0, 0, 0, 0, 1, 0, 0, 0, 0xFE, 0xFF, 0xFF, 0xFF]

theorem tpuPmuTime_not_exact :
    EventsAt (eventBuffer wrapBytes) (read32 (eventBuffer wrapBytes) 28)
        [⟨4, 1, 0, 0, 1, 0xFFFFFFFE⟩] ∧
      (∃ totals, tpuPmuTime (eventBuffer wrapBytes) false 2 = some totals ∧
        totals.u64TIUTotal = 2 ∧ ¬ Exact [⟨4, 1, 0, 0, 1, 0xFFFFFFFE⟩] totals) := by
  refine ⟨⟨by decide, rfl, rfl⟩, _, rfl, by decide, ?_⟩
  intro exact
  exact absurd exact.tiu (by decide)

end CviRuntime.Pmu
