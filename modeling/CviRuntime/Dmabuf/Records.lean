import Mathlib.Data.List.Induction
import CviRuntime.Dmabuf.Model

/-!
# Records and segments of a command buffer

`Met` says which records the loops of the encoder meet from a position on, and whether they
come to the end of the buffer. `segments` is the division of the records that the encoder
makes: a segment ends at a CPU record, at a TIU or TDMA record with the sync id `0xFFFF`,
and at the last record.
-/

namespace CviRuntime.Dmabuf

open ByteMem

/-- A record: its position and what the encoder takes from its header and registers. -/
structure Rec where
  off : Nat
  engine : Nat
  len : Nat
  sync : Nat
  deriving DecidableEq, Repr

section

variable (k : KernelHeaders) (cmdbuf : Nat → UInt8) (sz : Nat)

def magicAt (off : Nat) : Nat :=
  k.magicOf (readBytes cmdbuf (off + k.magicField.1) k.magicField.2)

/-- The record at a position. -/
def recAt (off : Nat) : Rec :=
  let engine := k.engineOf (readBytes cmdbuf (off + k.engineField.1) k.engineField.2)
  { off, engine
    len := k.lenOf (readBytes cmdbuf (off + k.lenField.1) k.lenField.2)
    sync :=
      if engine = k.tiu then k.tiuCmdId (readBytes cmdbuf (off + k.hdrBytes) k.bdRegBytes)
      else k.tdmaCmdId (readBytes cmdbuf (off + k.hdrBytes) k.tdmaRegBytes) }

def Rec.next (r : Rec) : Nat := r.off + r.len + k.hdrBytes

def Rec.body (r : Rec) : List UInt8 := readBytes cmdbuf (r.off + k.hdrBytes) r.len

/-- The engine is one of those that `desc_sync_id` or the CPU branch knows. -/
def Rec.Known (r : Rec) : Prop := r.engine = k.tiu ∨ r.engine = k.tdma ∨ r.engine = k.cpu

instance (r : Rec) : Decidable (r.Known k) :=
  inferInstanceAs (Decidable (r.engine = k.tiu ∨ r.engine = k.tdma ∨ r.engine = k.cpu))

/-- What `traverse_next` finds: nothing on a wrong magic number, else the next position. -/
def follow (r : Rec) : Option (Option Nat) :=
  if sz ≤ r.next k then some none
  else if magicAt k cmdbuf (r.next k) = k.magic180X then some (some (r.next k))
  else none

/-- The records met from a position on; the flag tells whether the walk ends well. -/
inductive Met : Option Nat → List Rec → Bool → Prop
  | done : Met none [] true
  | stop {off : Nat} (bad : ¬(recAt k cmdbuf off).Known k ∨
      follow k cmdbuf sz (recAt k cmdbuf off) = none) :
      Met (some off) [recAt k cmdbuf off] false
  | step {off : Nat} {next : Option Nat} {recs : List Rec} {ok : Bool}
      (known : (recAt k cmdbuf off).Known k)
      (found : follow k cmdbuf sz (recAt k cmdbuf off) = some next)
      (rest : Met next recs ok) : Met (some off) (recAt k cmdbuf off :: recs) ok

/-- `Met`, computed. -/
def scan : Nat → Option Nat → List Rec × Bool
  | _, none => ([], true)
  | 0, some _ => ([], false)
  | fuel + 1, some off =>
    let r := recAt k cmdbuf off
    if r.Known k then
      match follow k cmdbuf sz r with
      | none => ([r], false)
      | some next => (r :: (scan fuel next).1, (scan fuel next).2)
    else ([r], false)

/-- The records of the whole buffer. -/
def records : List Rec × Bool := scan k cmdbuf sz (sz + 1) (some 0)

end

section

variable {k : KernelHeaders} {cmdbuf : Nat → UInt8} {sz : Nat} {desc : Option Nat} {off : Nat}
  {r : Rec} {recs : List Rec} {ok : Bool}

theorem follow_none_of_le (past : sz ≤ r.next k) : follow k cmdbuf sz r = some none := if_pos past

/-- A next record lies before the end and behind this one. -/
theorem follow_some {next : Nat} (found : follow k cmdbuf sz r = some (some next)) :
    next = r.next k ∧ next < sz ∧ magicAt k cmdbuf next = k.magic180X := by
  unfold follow at found
  split at found
  · simp at found
  · split at found
    · obtain rfl : r.next k = next := by simpa using found
      refine ⟨rfl, ?_, ?_⟩
      · omega
      · assumption
    · simp at found

theorem Rec.lt_next : r.off < r.next k := by
  have := k.hdr_pos
  unfold Rec.next
  omega

/-- The walk gets along with one round for each byte left. -/
theorem met_scan {fuel : Nat} (enough : ∀ off, desc = some off → sz - off < fuel) :
    Met k cmdbuf sz desc (scan k cmdbuf sz fuel desc).1 (scan k cmdbuf sz fuel desc).2 := by
  induction fuel generalizing desc with
  | zero =>
    cases desc with
    | none => exact .done
    | some off => exact absurd (enough off rfl) (Nat.not_lt_zero _)
  | succ fuel ih =>
    cases desc with
    | none => exact .done
    | some off =>
      by_cases known : (recAt k cmdbuf off).Known k
      · cases found : follow k cmdbuf sz (recAt k cmdbuf off) with
        | none =>
          simp only [scan, known, found, if_true]
          exact .stop (.inr found)
        | some next =>
          simp only [scan, known, found, if_true]
          apply Met.step known found
          apply ih
          rintro next' rfl
          obtain ⟨rfl, before, -⟩ := follow_some found
          have ahead : off < (recAt k cmdbuf off).next k := Rec.lt_next (r := recAt k cmdbuf off)
          have := enough off rfl
          omega
      · simp only [scan, known, if_false]
        exact .stop (.inl known)

theorem met_records (k : KernelHeaders) (cmdbuf : Nat → UInt8) (sz : Nat) :
    Met k cmdbuf sz (some 0) (records k cmdbuf sz).1 (records k cmdbuf sz).2 := by
  apply met_scan
  rintro off ⟨⟩
  omega

/-- The walk is a function of the position. -/
theorem Met.unique {recs' : List Rec} {ok' : Bool} (met : Met k cmdbuf sz desc recs ok)
    (met' : Met k cmdbuf sz desc recs' ok') : recs' = recs ∧ ok' = ok := by
  induction met generalizing recs' ok' with
  | done =>
    cases met'
    exact ⟨rfl, rfl⟩
  | stop bad =>
    cases met' with
    | stop _ => exact ⟨rfl, rfl⟩
    | step known found _ =>
      rcases bad with unknown | wrong
      · exact absurd known unknown
      · simp [wrong] at found
  | step known found _ ih =>
    cases met' with
    | stop bad =>
      rcases bad with unknown | wrong
      · exact absurd known unknown
      · simp [wrong] at found
    | step _ found' rest' =>
      obtain rfl : _ = _ := Option.some.inj (found.symm.trans found')
      obtain ⟨rfl, rfl⟩ := ih rest'
      exact ⟨rfl, rfl⟩

theorem Met.records_eq (met : Met k cmdbuf sz (some 0) recs ok) :
    records k cmdbuf sz = (recs, ok) := by
  obtain ⟨same, same'⟩ := met.unique (met_records k cmdbuf sz)
  exact Prod.ext same same'

/-- A walk that ends well: the shape of its first step. -/
theorem Met.uncons (met : Met k cmdbuf sz desc (r :: recs) true) :
    ∃ off next, desc = some off ∧ r = recAt k cmdbuf off ∧ r.Known k ∧
      follow k cmdbuf sz r = some next ∧ Met k cmdbuf sz next recs true := by
  cases met with
  | step known found rest => exact ⟨_, _, rfl, rfl, known, found, rest⟩

theorem Met.next_none_iff (met : Met k cmdbuf sz desc recs ok) : desc = none ↔ recs = [] := by
  cases met <;> simp

theorem Met.known (met : Met k cmdbuf sz desc recs true) : ∀ r ∈ recs, r.Known k := by
  induction recs generalizing desc with
  | nil => simp
  | cons r recs ih =>
    obtain ⟨_, _, _, _, known, _, rest⟩ := met.uncons
    exact List.forall_mem_cons.mpr ⟨known, ih rest⟩

/-- There are at most as many records as bytes. -/
theorem Met.length_le (met : Met k cmdbuf sz (some off) recs ok) : recs.length ≤ sz - off + 1 := by
  generalize start : some off = desc at met
  induction met generalizing off with
  | done => simp at start
  | stop bad => simp
  | @step off' next recs ok known found rest ih =>
    obtain rfl : off = off' := Option.some.inj start
    cases next with
    | none =>
      cases rest
      simp
    | some next =>
      have short := ih rfl
      obtain ⟨rfl, before, -⟩ := follow_some found
      have ahead : off < (recAt k cmdbuf off).next k := Rec.lt_next (r := recAt k cmdbuf off)
      simp only [List.length_cons]
      omega

end

/-! ## Segments -/

/-- The number of records for an engine. -/
def countOf (engine : Nat) (recs : List Rec) : Nat := recs.countP fun r => r.engine = engine

section

variable (k : KernelHeaders)

/-- A segment ends with this record. -/
def Rec.Closes (r : Rec) (rest : List Rec) : Prop :=
  r.engine = k.cpu ∨ r.sync = 0xFFFF ∨ rest = []

instance (r : Rec) (rest : List Rec) : Decidable (r.Closes k rest) :=
  inferInstanceAs (Decidable (r.engine = k.cpu ∨ r.sync = 0xFFFF ∨ rest = []))

/-- The segments of the records after the open segment `pend`. -/
def segmentsFrom : List Rec → List Rec → List (List Rec)
  | _, [] => []
  | pend, r :: rest =>
    if r.Closes k rest then (pend ++ [r]) :: segmentsFrom [] rest
    else segmentsFrom (pend ++ [r]) rest

def segments (recs : List Rec) : List (List Rec) := segmentsFrom k [] recs

end

section

variable {k : KernelHeaders} {r : Rec} {pend recs rest seg : List Rec} {engine : Nat}

@[simp] theorem countOf_nil : countOf engine [] = 0 := rfl

theorem countOf_cons :
    countOf engine (r :: recs) = countOf engine recs + if r.engine = engine then 1 else 0 := by
  simp [countOf, List.countP_cons]

@[simp] theorem countOf_append :
    countOf engine (pend ++ recs) = countOf engine pend + countOf engine recs := by
  simp [countOf]

theorem segmentsFrom_closes (closes : r.Closes k rest) :
    segmentsFrom k pend (r :: rest) = (pend ++ [r]) :: segmentsFrom k [] rest := by
  simp [segmentsFrom, closes]

theorem segmentsFrom_open (stays : ¬r.Closes k rest) :
    segmentsFrom k pend (r :: rest) = segmentsFrom k (pend ++ [r]) rest := by
  simp [segmentsFrom, stays]

/-- No record is lost or moved, since the last record ends a segment. -/
theorem segmentsFrom_flatten (last : recs = [] → pend = []) :
    (segmentsFrom k pend recs).flatten = pend ++ recs := by
  induction recs generalizing pend with
  | nil => simp [segmentsFrom, last rfl]
  | cons r rest ih =>
    by_cases closes : r.Closes k rest
    · rw [segmentsFrom_closes closes, List.flatten_cons, ih fun _ => rfl]
      simp
    · rw [segmentsFrom_open closes, ih]
      · simp
      · intro empty
        exact absurd (Or.inr (Or.inr empty)) closes

theorem segments_flatten (k : KernelHeaders) (recs : List Rec) :
    (segments k recs).flatten = recs := by
  unfold segments
  rw [segmentsFrom_flatten fun _ => rfl, List.nil_append]

/-- Records cut before the CPU records at their end. -/
theorem exists_idle_end (k : KernelHeaders) (recs : List Rec) : ∃ busy idle, recs = busy ++ idle ∧
    (∀ r ∈ idle, r.engine = k.cpu) ∧ ∀ r, busy.getLast? = some r → r.engine ≠ k.cpu := by
  induction recs using List.reverseRecOn with
  | nil => exact ⟨[], [], rfl, by simp, by simp⟩
  | append_singleton recs r ih =>
    by_cases cpu : r.engine = k.cpu
    · obtain ⟨busy, idle, rfl, allCpu, last⟩ := ih
      refine ⟨busy, idle ++ [r], by simp, ?_, last⟩
      rw [List.forall_mem_append, List.forall_mem_singleton]
      exact ⟨allCpu, cpu⟩
    · refine ⟨recs ++ [r], [], by simp, by simp, ?_⟩
      intro r' last
      obtain rfl : r = r' := by simpa using last
      exact cpu

end

end CviRuntime.Dmabuf
