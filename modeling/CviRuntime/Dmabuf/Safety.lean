import CviRuntime.Dmabuf.Preservation

/-!
# Malformed command buffers

The encoder takes the lengths and engine ids of the records as they come. `SafelyRejects` is
what a careful encoder would do on every buffer: stay inside the command buffer, the arrays
over the engines and the encoded buffer, and end. For this one it takes that the records met
lie inside the buffer with all that is read of them (`HeadersInside`, `BodiesInside`), that
their engines have an entry, and that their bodies end before the encoded buffer does.
-/

namespace CviRuntime.Dmabuf

open ByteMem

section

variable (k : KernelHeaders)

/-- The access stays below `sz` in the command buffer, inside the arrays over the engines,
    and below `n` in the encoded buffer. -/
def Access.Inside (sz n : Nat) : Access → Prop
  | .read off count => ∀ i, i < count → off + i < sz
  | .index engine => engine < k.engineNum
  | .write off count => ∀ i, i < count → off + i < n

/-- A run that ended with success or an error code, all its accesses permitted. -/
def Guarded {α : Type} (good : Access → Prop) : EStateM.Result Stop Buffers α → Prop
  | .ok _ s => s.All good
  | .error .errData s => s.All good
  | .error _ _ => False

variable (cmdbuf : Nat → UInt8) (sz : Nat)

/-- Sizing the buffer, and encoding it into a buffer of the size found, ends and stays inside. -/
def SafelyRejects : Prop :=
  ∀ dmabuf, Guarded (Access.Inside k sz 0) (dmabufSize k cmdbuf sz ⟨dmabuf, []⟩) ∧
    ∀ n pmu s, dmabufSize k cmdbuf sz ⟨dmabuf, []⟩ = .ok (n, pmu) s →
      Guarded (Access.Inside k sz n) (dmabufConvert k cmdbuf sz ⟨dmabuf, []⟩)

/-- What the walk looks at lies inside the buffer: the first magic number, and of every record
    met the header, the registers and the magic number of the next record; and the engine ids
    have an entry. -/
structure HeadersInside : Prop where
  start : Access.Inside k sz 0 (magicAccess k 0)
  headers : magicAt k cmdbuf 0 = k.magic180X →
    ∀ r ∈ (records k cmdbuf sz).1, r.HeaderGood k sz (Access.Inside k sz 0)

/-- When the walk ends well, the bodies lie inside the buffer, a CPU body with the size of an
    entry of the table, and put into their slots they end before the encoded buffer does. -/
def BodiesInside : Prop :=
  magicAt k cmdbuf 0 = k.magic180X → (records k cmdbuf sz).2 = true →
    (∀ r ∈ (records k cmdbuf sz).1, r.engine = k.cpu →
      Access.Inside k sz 0 (.read (r.off + k.hdrBytes) k.armBytes)) ∧
    SegsGood k (Access.Inside k sz (encodedSize k (records k cmdbuf sz).1))
      (tiuStart k (segments k (records k cmdbuf sz).1))
      (tdmaStart k (segments k (records k cmdbuf sz).1))
      (segments k (records k cmdbuf sz).1)

/-- The numbers of records of a segment fit into 16 bits, the number of segments into 32. -/
def WithinLimits : Prop :=
  magicAt k cmdbuf 0 = k.magic180X → (records k cmdbuf sz).2 = true →
    (∀ seg ∈ segments k (records k cmdbuf sz).1, Small k seg) ∧
    (segments k (records k cmdbuf sz).1).length < 2 ^ 32

end

section

variable {k : KernelHeaders} {cmdbuf : Nat → UInt8} {sz : Nat} {good : Access → Prop}

theorem inside_write {n off count : Nat} (le : off + count ≤ n) :
    Access.Inside k sz n (.write off count) := by
  intro i small
  omega

/-- The headers are only read, so the size of the encoded buffer does not matter. -/
theorem headerGood_inside {r : Rec} (n : Nat) (header : r.HeaderGood k sz (Access.Inside k sz 0)) :
    r.HeaderGood k sz (Access.Inside k sz n) :=
  ⟨header.engine, header.index, header.tiu, header.tdma, header.len, header.next⟩

/-- The sizing pass is guarded exactly when the headers are. -/
theorem guarded_dmabufSize (dmabuf : Nat → UInt8) :
    Guarded good (dmabufSize k cmdbuf sz ⟨dmabuf, []⟩) ↔ good (magicAccess k 0) ∧
      (magicAt k cmdbuf 0 = k.magic180X →
        ∀ r ∈ (records k cmdbuf sz).1, r.HeaderGood k sz good) := by
  obtain ⟨accesses, pmu, allowed, runs⟩ := dmabufSize_apply ⟨dmabuf, []⟩ (met_records k cmdbuf sz)
  have all : (Buffers.push ⟨dmabuf, []⟩ accesses).All good ↔ ∀ access ∈ accesses, good access := by
    rw [all_push, and_iff_left (all_nil dmabuf)]
  rw [runs, ← allowed good, ← all]
  split_ifs <;> exact Iff.rfl

/-- So is the encoding of a buffer that was sized, given the headers. -/
theorem guarded_dmabufConvert (dmabuf : Nat → UInt8) (magic : magicAt k cmdbuf 0 = k.magic180X)
    (ends : (records k cmdbuf sz).2 = true)
    (small : ∀ seg ∈ segments k (records k cmdbuf sz).1, Small k seg)
    (few : (segments k (records k cmdbuf sz).1).length < 2 ^ 32)
    (start : Access.Inside k sz 0 (magicAccess k 0))
    (headers : ∀ r ∈ (records k cmdbuf sz).1, r.HeaderGood k sz (Access.Inside k sz 0)) :
    Guarded (Access.Inside k sz (encodedSize k (records k cmdbuf sz).1))
        (dmabufConvert k cmdbuf sz ⟨dmabuf, []⟩) ↔
      (∀ r ∈ (records k cmdbuf sz).1, r.engine = k.cpu →
        Access.Inside k sz 0 (.read (r.off + k.hdrBytes) k.armBytes)) ∧
      SegsGood k (Access.Inside k sz (encodedSize k (records k cmdbuf sz).1))
        (tiuStart k (segments k (records k cmdbuf sz).1))
        (tdmaStart k (segments k (records k cmdbuf sz).1))
        (segments k (records k cmdbuf sz).1) := by
  have met := met_records k cmdbuf sz
  rw [ends] at met
  obtain ⟨s', runs, -, -, allowed, -⟩ := dmabufConvert_apply ⟨dmabuf, []⟩ magic met small few
  rw [runs]
  refine (allowed _ (fun _ _ le => inside_write le) start fun r member =>
    headerGood_inside _ (headers r member)).trans ?_
  rw [and_iff_left (all_nil dmabuf)]
  exact Iff.rfl

/-- The records of a row lie inside the buffer, each with the header of the next one. -/
theorem Row.inside {off : Nat} {recs : List Rec} (row : Row k cmdbuf sz off recs) :
    ∀ r ∈ recs, r.next k ≤ sz ∧ (r.next k < sz → r.next k + k.hdrBytes ≤ sz) := by
  induction row with
  | nil => simp
  | @cons off recs _ _ rest ih =>
    rw [List.forall_mem_cons]
    refine ⟨⟨rest.le, ?_⟩, ih⟩
    intro before
    generalize (recAt k cmdbuf off).next k = next at rest before ⊢
    cases rest with
    | nil => omega
    | cons _ _ rest' =>
      have := rest'.le
      unfold Rec.next at this
      have position : (recAt k cmdbuf next).off = next := rfl
      omega

theorem WellFormed.first_mem {recs : List Rec} (wf : WellFormed k cmdbuf sz recs) :
    recAt k cmdbuf 0 ∈ recs := by
  obtain ⟨nonempty, row, -⟩ := wf
  cases row with
  | nil => exact absurd rfl nonempty
  | cons _ _ _ => exact List.mem_cons_self

/-- A well-formed buffer is such a buffer, if its TDMA bodies hold the registers. -/
theorem WellFormed.inside {recs : List Rec} (wf : WellFormed k cmdbuf sz recs)
    (registers : ∀ r ∈ recs, r.engine = k.tdma → k.tdmaRegBytes ≤ r.len)
    (few : (segments k recs).length < 2 ^ 32) :
    HeadersInside k cmdbuf sz ∧ BodiesInside k cmdbuf sz ∧ WithinLimits k cmdbuf sz := by
  have met := wf.met.records_eq
  have ended {r : Rec} (member : r ∈ recs) : r.off + k.hdrBytes + r.len ≤ sz := by
    have := (wf.row.inside r member).1
    unfold Rec.next at this
    omega
  have magicInside := k.magic_inside
  have engineInside := k.engine_inside
  have lenInside := k.len_inside
  refine ⟨⟨?_, ?_⟩, ?_, ?_⟩
  · intro i small
    have whole := ended wf.first_mem
    have position : (recAt k cmdbuf 0).off = 0 := rfl
    omega
  · intro _ r member
    rw [met] at member
    have whole := ended member
    obtain ⟨-, nextInside⟩ := wf.row.inside r member
    refine ⟨?_, ?_, ?_, ?_, ?_, ?_⟩
    · intro i small
      omega
    · rcases wf.met.known r member with tiu | tdma | cpu
      · rw [tiu]
        exact k.tiu_lt
      · rw [tdma]
        exact k.tdma_lt
      · rw [cpu]
        exact k.cpu_lt
    · intro tiu i small
      have := wf.tiuLen r member tiu
      omega
    · intro tdma i small
      have := registers r member tdma
      omega
    · intro _ i small
      omega
    · intro _ before i small
      have := nextInside before
      omega
  · intro _ _
    rw [met]
    refine ⟨?_, ?_⟩
    · intro r member cpu i small
      have := wf.cpuLen r member cpu
      have := ended member
      omega
    · apply slotsGood_of_len fun _ _ le => inside_write le
      · intro r member _ i small
        have := ended member
        omega
      · intro r member tiu
        exact Nat.le_of_eq (wf.tiuLen r member tiu)
      · exact wf.tdmaLen
  · intro _ _
    rw [met]
    exact ⟨wf.small, few⟩

/-- The encoder stays inside and ends when the headers and the bodies lie inside and its
    counters do not overflow. That the headers lie inside is necessary, and so is it for the
    bodies as long as no counter overflows. -/
theorem safelyRejects_of_inside (k : KernelHeaders) (cmdbuf : Nat → UInt8) (sz : Nat) :
    (HeadersInside k cmdbuf sz ∧ BodiesInside k cmdbuf sz ∧ WithinLimits k cmdbuf sz →
        SafelyRejects k cmdbuf sz) ∧
      (SafelyRejects k cmdbuf sz →
        HeadersInside k cmdbuf sz ∧ (WithinLimits k cmdbuf sz → BodiesInside k cmdbuf sz)) := by
  constructor
  · rintro ⟨⟨start, headers⟩, bodies, limits⟩ dmabuf
    refine ⟨(guarded_dmabufSize dmabuf).mpr ⟨start, headers⟩, ?_⟩
    intro n pmu s sized
    obtain ⟨accesses, pmu', -, runs⟩ := dmabufSize_apply ⟨dmabuf, []⟩ (met_records k cmdbuf sz)
    by_cases succeeds : magicAt k cmdbuf 0 = k.magic180X ∧ (records k cmdbuf sz).2 = true
    · obtain ⟨magic, ends⟩ := succeeds
      obtain ⟨small, few⟩ := limits magic ends
      rw [if_pos ⟨magic, ends⟩, sized] at runs
      obtain rfl : n = encodedSize k (records k cmdbuf sz).1 := by
        injection runs with result _
        exact congrArg Prod.fst result
      apply (guarded_dmabufConvert dmabuf magic ends small few start (headers magic)).mpr
      exact bodies magic ends
    · rw [if_neg succeeds, sized] at runs
      cases runs
  · intro safe
    obtain ⟨start, headers⟩ := (guarded_dmabufSize fun _ => 0).mp (safe fun _ => 0).1
    refine ⟨⟨start, headers⟩, ?_⟩
    intro limits magic ends
    obtain ⟨small, few⟩ := limits magic ends
    obtain ⟨accesses, pmu, -, runs⟩ := dmabufSize_apply ⟨fun _ => 0, []⟩ (met_records k cmdbuf sz)
    rw [if_pos ⟨magic, ends⟩] at runs
    apply (guarded_dmabufConvert _ magic ends small few start (headers magic)).mp
    exact (safe fun _ => 0).2 _ _ _ runs

theorem safelyRejects_of_inside_mixed : HeadersInside kernel1822 (mixed 0xA8) 476 ∧
    BodiesInside kernel1822 (mixed 0xA8) 476 ∧ WithinLimits kernel1822 (mixed 0xA8) 476 ∧
    SafelyRejects kernel1822 (mixed 0xA8) 476 := by
  have registers : ∀ r ∈ mixedRecords 0xA8 5, r.engine = kernel1822.tdma →
      kernel1822.tdmaRegBytes ≤ r.len := by
    decide
  obtain ⟨headers, bodies, limits⟩ := wellFormed_mixed.inside registers (by decide)
  exact ⟨headers, bodies, limits,
    (safelyRejects_of_inside kernel1822 (mixed 0xA8) 476).1 ⟨headers, bodies, limits⟩⟩

end

/-- A record with the engine id 15. -/
def strangeEngine (a : Nat) : UInt8 := if a = 0 then 0xA8 else if a = 2 then 15 else 0

/-- The sizing pass counts the record in an array of three entries. -/
theorem strangeEngine_not_rejected : ¬SafelyRejects kernel1822 strangeEngine 8 := by
  intro safe
  obtain ⟨-, headers⟩ := (guarded_dmabufSize fun _ => 0).mp (safe fun _ => 0).1
  have header := headers (by decide) (recAt kernel1822 strangeEngine 0) (by decide)
  have outside : ¬15 < 3 := by decide
  exact outside header.index

end CviRuntime.Dmabuf
