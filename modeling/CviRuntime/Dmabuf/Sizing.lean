import CviRuntime.Dmabuf.Records

/-!
# The sizing pass

The functions on a single record in closed form, with the accesses they make, and from
them `cvi180x_dmabuf_size` on every buffer: it terminates, it succeeds when the walk over the
records ends well, and the size is that of the layout of the segments. `HeaderGood` collects
the accesses that a round of the loop makes; what counts as a permitted access is a parameter.
-/

namespace CviRuntime.Dmabuf

open ByteMem

/-! ## Accesses -/

/-- The buffers after further accesses, latest first. -/
def Buffers.push (s : Buffers) (accesses : List Access) : Buffers :=
  { s with log := accesses ++ s.log }

/-- Every access so far is permitted. -/
def Buffers.All (good : Access → Prop) (s : Buffers) : Prop := ∀ access ∈ s.log, good access

section

variable {s : Buffers} {accesses : List Access} {good : Access → Prop}

@[simp] theorem push_push (later : List Access) :
    (s.push accesses).push later = s.push (later ++ accesses) := by
  simp [Buffers.push]

@[simp] theorem push_dmabuf : (s.push accesses).dmabuf = s.dmabuf := rfl

theorem all_nil (dmabuf : Nat → UInt8) : Buffers.All good ⟨dmabuf, []⟩ := by
  simp [Buffers.All]

theorem all_push :
    (s.push accesses).All good ↔ (∀ access ∈ accesses, good access) ∧ s.All good := by
  simp [Buffers.All, Buffers.push, or_imp, forall_and]

end

section

variable (k : KernelHeaders) (sz : Nat)

def Rec.engineAccess (r : Rec) : Access := .read (r.off + k.engineField.1) k.engineField.2

def Rec.lenAccess (r : Rec) : Access := .read (r.off + k.lenField.1) k.lenField.2

def magicAccess (off : Nat) : Access := .read (off + k.magicField.1) k.magicField.2

/-- The accesses of `traverse_next`. -/
def Rec.nextAccesses (r : Rec) : List Access :=
  if sz ≤ r.next k then [r.lenAccess k] else [magicAccess k (r.next k), r.lenAccess k]

/-- The accesses of `desc_sync_id`. -/
def Rec.syncAccesses (r : Rec) : List Access :=
  if r.engine = k.tiu then [.read (r.off + k.hdrBytes) k.bdRegBytes, r.engineAccess k]
  else if r.engine = k.tdma then [.read (r.off + k.hdrBytes) k.tdmaRegBytes, r.engineAccess k]
  else [r.engineAccess k]

/-- The accesses to the header and the registers of a record, and to the magic number of the
    next one, are permitted. -/
structure Rec.HeaderGood (good : Access → Prop) (r : Rec) : Prop where
  engine : good (r.engineAccess k)
  index : good (.index r.engine)
  tiu : r.engine = k.tiu → good (.read (r.off + k.hdrBytes) k.bdRegBytes)
  tdma : r.engine = k.tdma → good (.read (r.off + k.hdrBytes) k.tdmaRegBytes)
  len : r.Known k → good (r.lenAccess k)
  next : r.Known k → r.next k < sz → good (magicAccess k (r.next k))

end

/-! ## Running the functions on one record -/

section

variable {α β : Type}

theorem bind_apply (x : M α) (f : α → M β) (s : Buffers) :
    (x >>= f) s = match x s with
      | .ok a s' => f a s'
      | .error e s' => .error e s' := by
  show EStateM.bind x f s = _
  unfold EStateM.bind
  cases x s <;> rfl

theorem pure_apply (a : α) (s : Buffers) : (pure a : M α) s = .ok a s := rfl

theorem throw_apply (e : Stop) (s : Buffers) : (throw e : M α) s = .error e s := rfl

theorem touch_apply (access : Access) (s : Buffers) : touch access s = .ok () (s.push [access]) :=
  rfl

end

section

variable {k : KernelHeaders} {cmdbuf : Nat → UInt8} {sz : Nat} {off : Nat} {s : Buffers}

theorem readCmd_apply (n : Nat) :
    readCmd cmdbuf off n s = .ok (readBytes cmdbuf off n) (s.push [.read off n]) := rfl

theorem hdrMagic_apply :
    hdrMagic k cmdbuf off s = .ok (magicAt k cmdbuf off) (s.push [magicAccess k off]) := rfl

theorem hdrEngine_apply : hdrEngine k cmdbuf off s =
    .ok (recAt k cmdbuf off).engine (s.push [(recAt k cmdbuf off).engineAccess k]) := rfl

theorem hdrLen_apply : hdrLen k cmdbuf off s =
    .ok (recAt k cmdbuf off).len (s.push [(recAt k cmdbuf off).lenAccess k]) := rfl

theorem traverseStart_apply : traverseStart k cmdbuf s =
    if magicAt k cmdbuf 0 = k.magic180X then .ok 0 (s.push [magicAccess k 0])
    else .error .errData (s.push [magicAccess k 0]) := by
  simp only [traverseStart, bind_apply, hdrMagic_apply]
  by_cases magic : magicAt k cmdbuf 0 = k.magic180X
  · simp only [magic, ne_eq, not_true_eq_false, if_false, if_true, pure_apply]
  · simp only [magic, ne_eq, not_false_eq_true, if_false, if_true, bind_apply, throw_apply]

theorem traverseNext_apply :
    traverseNext k cmdbuf sz off s =
      match follow k cmdbuf sz (recAt k cmdbuf off) with
      | some next => .ok next (s.push ((recAt k cmdbuf off).nextAccesses k sz))
      | none => .error .errData (s.push ((recAt k cmdbuf off).nextAccesses k sz)) := by
  have position : off + (recAt k cmdbuf off).len + k.hdrBytes = (recAt k cmdbuf off).next k := rfl
  simp only [traverseNext, bind_apply, hdrLen_apply, position, follow, Rec.nextAccesses]
  by_cases past : sz ≤ (recAt k cmdbuf off).next k
  · simp only [past, if_true, pure_apply]
  · simp only [past, if_false, bind_apply, hdrMagic_apply, push_push, List.singleton_append]
    by_cases magic : magicAt k cmdbuf ((recAt k cmdbuf off).next k) = k.magic180X
    · simp only [magic, ne_eq, not_true_eq_false, if_false, if_true, pure_apply]
    · simp only [magic, ne_eq, not_false_eq_true, if_false, if_true, bind_apply, throw_apply]

theorem isLastDesc_apply :
    isLastDesc k cmdbuf sz off s =
      match follow k cmdbuf sz (recAt k cmdbuf off) with
      | some next => .ok next.isNone (s.push ((recAt k cmdbuf off).nextAccesses k sz))
      | none => .error .errData (s.push ((recAt k cmdbuf off).nextAccesses k sz)) := by
  simp only [isLastDesc, bind_apply, traverseNext_apply]
  cases follow k cmdbuf sz (recAt k cmdbuf off) <;> simp only [pure_apply]

theorem descSyncId_apply (work : (recAt k cmdbuf off).engine ≠ k.cpu) :
    descSyncId k cmdbuf off s =
      if (recAt k cmdbuf off).Known k then
        .ok (recAt k cmdbuf off).sync (s.push ((recAt k cmdbuf off).syncAccesses k))
      else .error .errData (s.push ((recAt k cmdbuf off).syncAccesses k)) := by
  simp only [descSyncId, bind_apply, hdrEngine_apply, Rec.syncAccesses]
  by_cases tiu : (recAt k cmdbuf off).engine = k.tiu
  · have known : (recAt k cmdbuf off).Known k := Or.inl tiu
    have sync : (recAt k cmdbuf off).sync =
        k.tiuCmdId (readBytes cmdbuf (off + k.hdrBytes) k.bdRegBytes) :=
      if_pos tiu
    simp only [tiu, if_true, bind_apply, readCmd_apply, pure_apply, known, push_push,
      List.singleton_append, sync]
    rfl
  · by_cases tdma : (recAt k cmdbuf off).engine = k.tdma
    · have known : (recAt k cmdbuf off).Known k := Or.inr (Or.inl tdma)
      have sync : (recAt k cmdbuf off).sync =
          k.tdmaCmdId (readBytes cmdbuf (off + k.hdrBytes) k.tdmaRegBytes) := if_neg tiu
      simp only [tiu, if_false]
      simp only [tdma, if_true, bind_apply, readCmd_apply, pure_apply, known, push_push,
        List.singleton_append, sync]
      rfl
    · have unknown : ¬(recAt k cmdbuf off).Known k := by
        rintro (isTiu | isTdma | isCpu)
        · exact tiu isTiu
        · exact tdma isTdma
        · exact work isCpu
      simp only [tiu, tdma, if_false, throw_apply, unknown]

end

/-! ## One round of the sizing loop -/

section

variable (k : KernelHeaders)

/-- `sizeBody` without its accesses; the record is the last one when nothing follows. -/
def sizeStep (r : Rec) (rest : List Rec) (st : SizeState) : SizeState :=
  let st := { st with counters := st.counters.bump k r.engine }
  if r.engine = k.cpu then st.close k
  else if r.sync = 0xFFFF ∨ rest = [] then
    { st with counters := { st.counters with cpu := st.counters.cpu + 1 } }.close k
  else st

def sizeRun : List Rec → SizeState → SizeState
  | [], st => st
  | r :: rest, st => sizeRun rest (sizeStep k r rest st)

end

section

variable {k : KernelHeaders} {cmdbuf : Nat → UInt8} {sz : Nat} {off : Nat} {s : Buffers}
  {good : Access → Prop} {r : Rec} {recs : List Rec} {ok : Bool}

theorem nextAccesses_good : (∀ access ∈ r.nextAccesses k sz, good access) ↔
    good (r.lenAccess k) ∧ (r.next k < sz → good (magicAccess k (r.next k))) := by
  unfold Rec.nextAccesses
  by_cases past : sz ≤ r.next k
  · have stays : ¬r.next k < sz := by omega
    simp [past, stays]
  · have ahead : r.next k < sz := by omega
    simp [past, ahead, and_comm]

theorem syncAccesses_good : (∀ access ∈ r.syncAccesses k, good access) ↔
    good (r.engineAccess k) ∧
      (r.engine = k.tiu → good (.read (r.off + k.hdrBytes) k.bdRegBytes)) ∧
      (r.engine = k.tdma → good (.read (r.off + k.hdrBytes) k.tdmaRegBytes)) := by
  have apart := k.tiu_ne_tdma
  unfold Rec.syncAccesses
  by_cases tiu : r.engine = k.tiu
  · simp [tiu, apart, and_comm]
  · by_cases tdma : r.engine = k.tdma
    · simp [tdma, apart.symm, and_comm]
    · simp [tiu, tdma]

theorem headerGood_of_unknown (unknown : ¬r.Known k) : r.HeaderGood k sz good ↔
    (∀ access ∈ r.syncAccesses k, good access) ∧ good (.index r.engine) := by
  rw [syncAccesses_good]
  constructor
  · intro h
    exact ⟨⟨h.engine, h.tiu, h.tdma⟩, h.index⟩
  · rintro ⟨⟨engine, tiu, tdma⟩, index⟩
    exact ⟨engine, index, tiu, tdma, (absurd · unknown), (absurd · unknown)⟩

theorem headerGood_of_cpu (cpu : r.engine = k.cpu) : r.HeaderGood k sz good ↔
    good (r.engineAccess k) ∧ good (.index r.engine) ∧
      ∀ access ∈ r.nextAccesses k sz, good access := by
  have known : r.Known k := Or.inr (Or.inr cpu)
  rw [nextAccesses_good]
  constructor
  · intro h
    exact ⟨h.engine, h.index, h.len known, h.next known⟩
  · rintro ⟨engine, index, len, next⟩
    refine ⟨engine, index, ?_, ?_, fun _ => len, fun _ => next⟩
    · intro tiu
      exact absurd (tiu.symm.trans cpu) k.tiu_ne_cpu
    · intro tdma
      exact absurd (tdma.symm.trans cpu) k.tdma_ne_cpu

theorem headerGood_of_known (known : r.Known k) : r.HeaderGood k sz good ↔
    good (r.engineAccess k) ∧ good (.index r.engine) ∧
      (∀ access ∈ r.syncAccesses k, good access) ∧ ∀ access ∈ r.nextAccesses k sz, good access := by
  rw [nextAccesses_good, syncAccesses_good]
  constructor
  · intro h
    exact ⟨h.engine, h.index, ⟨h.engine, h.tiu, h.tdma⟩, h.len known, h.next known⟩
  · rintro ⟨engine, index, ⟨-, tiu, tdma⟩, len, next⟩
    exact ⟨engine, index, tiu, tdma, fun _ => len, fun _ => next⟩

/-- What a round on a CPU record accesses is what its header needs. -/
theorem cpuAccesses_good (cpu : r.engine = k.cpu) :
    (∀ access ∈ r.nextAccesses k sz ++ [.index r.engine, r.engineAccess k], good access) ↔
      r.HeaderGood k sz good := by
  rw [headerGood_of_cpu cpu]
  simp only [List.forall_mem_append, List.forall_mem_cons, List.not_mem_nil]
  tauto

/-- A round on a record that the walk passes. -/
theorem sizeRound_apply (st : SizeState) {next : Option Nat} {rest : List Rec}
    (known : (recAt k cmdbuf off).Known k)
    (found : follow k cmdbuf sz (recAt k cmdbuf off) = some next) (last : next = none ↔ rest = []) :
    ∃ accesses,
      (∀ good, (∀ access ∈ accesses, good access) ↔ (recAt k cmdbuf off).HeaderGood k sz good) ∧
      ∀ fuel, walk k cmdbuf sz (sizeBody k cmdbuf sz) (fuel + 1) (some off) st s =
        walk k cmdbuf sz (sizeBody k cmdbuf sz) fuel next (sizeStep k (recAt k cmdbuf off) rest st)
          (s.push accesses) := by
  by_cases cpu : (recAt k cmdbuf off).engine = k.cpu
  · refine ⟨_, fun good => cpuAccesses_good cpu, fun fuel => ?_⟩
    simp only [walk, sizeBody, bind_apply, hdrEngine_apply, touch_apply, cpu, sizeStep]
    simp [pure_apply, traverseNext_apply, found]
  · refine ⟨(recAt k cmdbuf off).nextAccesses k sz ++ (recAt k cmdbuf off).nextAccesses k sz ++
      (recAt k cmdbuf off).syncAccesses k ++
      [.index (recAt k cmdbuf off).engine, (recAt k cmdbuf off).engineAccess k], ?_, ?_⟩
    · intro good
      rw [headerGood_of_known known]
      simp only [List.forall_mem_append, List.forall_mem_cons, List.not_mem_nil]
      tauto
    · intro fuel
      have isLast : next.isNone = true ↔ rest = [] := Option.isNone_iff_eq_none.trans last
      simp only [walk, sizeBody, bind_apply, hdrEngine_apply, touch_apply, cpu, sizeStep,
        descSyncId_apply cpu, known, isLastDesc_apply, found, isLast, ne_eq, not_false_eq_true,
        if_true, if_false]
      by_cases ends : (recAt k cmdbuf off).sync = 0xFFFF ∨ rest = []
      · simp [ends, pure_apply, traverseNext_apply, found]
      · simp [ends, pure_apply, traverseNext_apply, found]

/-- The round in which the walk fails. -/
theorem sizeRound_stop (st : SizeState)
    (bad : ¬(recAt k cmdbuf off).Known k ∨ follow k cmdbuf sz (recAt k cmdbuf off) = none) :
    ∃ accesses,
      (∀ good, (∀ access ∈ accesses, good access) ↔ (recAt k cmdbuf off).HeaderGood k sz good) ∧
      ∀ fuel, walk k cmdbuf sz (sizeBody k cmdbuf sz) (fuel + 1) (some off) st s =
        .error .errData (s.push accesses) := by
  by_cases known : (recAt k cmdbuf off).Known k
  · have wrong := bad.resolve_left (not_not_intro known)
    by_cases cpu : (recAt k cmdbuf off).engine = k.cpu
    · refine ⟨_, fun good => cpuAccesses_good cpu, fun fuel => ?_⟩
      simp only [walk, sizeBody, bind_apply, hdrEngine_apply, touch_apply, cpu]
      simp [pure_apply, traverseNext_apply, wrong]
    · refine ⟨(recAt k cmdbuf off).nextAccesses k sz ++ (recAt k cmdbuf off).syncAccesses k ++
        [.index (recAt k cmdbuf off).engine, (recAt k cmdbuf off).engineAccess k], ?_, ?_⟩
      · intro good
        rw [headerGood_of_known known]
        simp only [List.forall_mem_append, List.forall_mem_cons, List.not_mem_nil]
        tauto
      · intro fuel
        simp [walk, sizeBody, bind_apply, hdrEngine_apply, touch_apply, cpu, descSyncId_apply cpu,
          known, isLastDesc_apply, wrong]
  · have cpu : (recAt k cmdbuf off).engine ≠ k.cpu := fun isCpu => known (Or.inr (Or.inr isCpu))
    refine ⟨(recAt k cmdbuf off).syncAccesses k ++
      [.index (recAt k cmdbuf off).engine, (recAt k cmdbuf off).engineAccess k], ?_, ?_⟩
    · intro good
      rw [headerGood_of_unknown known]
      simp only [List.forall_mem_append, List.forall_mem_cons, List.not_mem_nil, syncAccesses_good]
      tauto
    · intro fuel
      simp [walk, sizeBody, bind_apply, hdrEngine_apply, touch_apply, cpu, descSyncId_apply cpu,
        known]

/-- The sizing loop on every walk. -/
theorem sizeLoop_apply {desc : Option Nat} (met : Met k cmdbuf sz desc recs ok) :
    ∀ (st : SizeState) (s : Buffers) (fuel : Nat), recs.length ≤ fuel → ∃ accesses,
      (∀ good, (∀ access ∈ accesses, good access) ↔ ∀ r ∈ recs, r.HeaderGood k sz good) ∧
      walk k cmdbuf sz (sizeBody k cmdbuf sz) fuel desc st s =
        if ok then .ok (sizeRun k recs st) (s.push accesses)
        else .error .errData (s.push accesses) := by
  induction met with
  | done =>
    intro st s fuel enough
    refine ⟨[], by simp, ?_⟩
    cases fuel <;> rfl
  | stop bad =>
    intro st s fuel enough
    obtain ⟨fuel, rfl⟩ : ∃ fuel', fuel = fuel' + 1 := ⟨fuel - 1, by simp at enough; omega⟩
    obtain ⟨accesses, allowed, runs⟩ := sizeRound_stop (s := s) st bad
    refine ⟨accesses, ?_, ?_⟩
    · intro good
      rw [allowed good, List.forall_mem_singleton]
    · simpa using runs fuel
  | @step off next recs ok known found rest ih =>
    intro st s fuel enough
    obtain ⟨fuel, rfl⟩ : ∃ fuel', fuel = fuel' + 1 := ⟨fuel - 1, by simp at enough; omega⟩
    obtain ⟨first, allowed, runs⟩ := sizeRound_apply (s := s) st known found rest.next_none_iff
    obtain ⟨later, allowedLater, runsLater⟩ := ih (sizeStep k (recAt k cmdbuf off) recs st)
      (s.push first) fuel (by simpa using enough)
    refine ⟨later ++ first, ?_, ?_⟩
    · intro good
      rw [List.forall_mem_append, allowed good, allowedLater good, List.forall_mem_cons, and_comm]
    · rw [runs fuel, runsLater, push_push]
      rfl

end

/-! ## The size -/

section

variable (k : KernelHeaders)

/-- The TIU part grown by some segments. -/
def tiuExtent (size : Nat) (segs : List (List Rec)) : Nat :=
  segs.foldl (fun size seg => growTiu k size (countOf k.tiu seg)) size

/-- The size of the encoded buffer for some records. -/
def encodedSize (recs : List Rec) : Nat :=
  layoutSize k (segments k recs).length (tiuExtent k 0 (segments k recs)) (countOf k.tdma recs)

end

section

variable {k : KernelHeaders} {cmdbuf : Nat → UInt8} {sz : Nat} {r : Rec} {rest recs pend : List Rec}
  {c : Counters} {engine : Nat}

@[simp] theorem bump_tiu : (c.bump k engine).tiu = c.tiu + if engine = k.tiu then 1 else 0 := by
  unfold Counters.bump
  split_ifs <;> simp

@[simp] theorem bump_tdma : (c.bump k engine).tdma = c.tdma + if engine = k.tdma then 1 else 0 := by
  have := k.tiu_ne_tdma
  unfold Counters.bump
  split_ifs <;> simp_all

@[simp] theorem bump_cpu : (c.bump k engine).cpu = c.cpu + if engine = k.cpu then 1 else 0 := by
  have := k.tiu_ne_cpu
  have := k.tdma_ne_cpu
  unfold Counters.bump
  split_ifs <;> simp_all

theorem countOf_snoc :
    countOf engine (pend ++ [r]) = countOf engine pend + if r.engine = engine then 1 else 0 := by
  simp [countOf_cons]

/-- The counters hold the records of the open segment. -/
def Counters.Holds (k : KernelHeaders) (c : Counters) (pend : List Rec) : Prop :=
  c.tiu = countOf k.tiu pend ∧ c.tdma = countOf k.tdma pend

theorem Counters.Holds.bump (holds : c.Holds k pend) :
    (c.bump k r.engine).Holds k (pend ++ [r]) := by
  unfold Counters.Holds
  rw [bump_tiu, bump_tdma, countOf_snoc, countOf_snoc, holds.1, holds.2]
  exact ⟨rfl, rfl⟩

theorem sizeStep_closes {st : SizeState} (holds : st.counters.Holds k pend)
    (closes : r.Closes k rest) :
    (sizeStep k r rest st).counters = ⟨0, 0, st.counters.cpu + 1⟩ ∧
      (sizeStep k r rest st).bdSize = growTiu k st.bdSize (countOf k.tiu (pend ++ [r])) ∧
      (sizeStep k r rest st).tdmaDescNum = st.tdmaDescNum + countOf k.tdma (pend ++ [r]) := by
  obtain ⟨tiu, tdma⟩ := holds.bump (r := r)
  rw [← tiu, ← tdma]
  unfold sizeStep
  by_cases cpu : r.engine = k.cpu
  · simp only [cpu, if_true, SizeState.close, bump_cpu]
    exact ⟨trivial, trivial, trivial⟩
  · have ends := closes.resolve_left cpu
    simp only [cpu, ends, if_true, if_false, SizeState.close, bump_cpu]
    exact ⟨trivial, trivial, trivial⟩

theorem sizeStep_open {st : SizeState} (stays : ¬r.Closes k rest) :
    sizeStep k r rest st = { st with counters := st.counters.bump k r.engine } := by
  have cpu : ¬r.engine = k.cpu := fun isCpu => stays (Or.inl isCpu)
  have ends : ¬(r.sync = 0xFFFF ∨ rest = []) := fun isEnd => stays (Or.inr isEnd)
  simp only [sizeStep, cpu, ends, if_false]

/-- The sizing loop counts by segments. -/
theorem sizeRun_spec (recs : List Rec) (st : SizeState) (holds : st.counters.Holds k pend) :
    (sizeRun k recs st).counters.cpu = st.counters.cpu + (segmentsFrom k pend recs).length ∧
      (sizeRun k recs st).bdSize = tiuExtent k st.bdSize (segmentsFrom k pend recs) ∧
      (sizeRun k recs st).tdmaDescNum =
        st.tdmaDescNum + countOf k.tdma (segmentsFrom k pend recs).flatten := by
  induction recs generalizing pend st with
  | nil => simp [sizeRun, segmentsFrom, tiuExtent]
  | cons r rest ih =>
    rw [sizeRun]
    by_cases closes : r.Closes k rest
    · obtain ⟨counters, bdSize, tdmaDescNum⟩ := sizeStep_closes holds closes
      have start : (sizeStep k r rest st).counters.Holds k [] := by
        rw [counters]
        exact ⟨rfl, rfl⟩
      obtain ⟨cpu, extent, total⟩ := ih (sizeStep k r rest st) start
      rw [segmentsFrom_closes closes, cpu, extent, total, counters, bdSize, tdmaDescNum]
      refine ⟨?_, rfl, ?_⟩
      · simp only [List.length_cons]
        omega
      · simp only [List.flatten_cons, countOf_append]
        omega
    · rw [segmentsFrom_open closes, sizeStep_open closes]
      obtain ⟨cpu, extent, total⟩ :=
        ih { st with counters := st.counters.bump k r.engine } (holds.bump (r := r))
      refine ⟨?_, extent, total⟩
      have work : ¬r.engine = k.cpu := fun isCpu => closes (Or.inl isCpu)
      simpa [work] using cpu

/-- `cvi180x_dmabuf_size` on every buffer. -/
theorem dmabufSize_apply {ok : Bool} (s : Buffers) (met : Met k cmdbuf sz (some 0) recs ok) :
    ∃ accesses pmu,
      (∀ good, (∀ access ∈ accesses, good access) ↔ good (magicAccess k 0) ∧
        (magicAt k cmdbuf 0 = k.magic180X → ∀ r ∈ recs, r.HeaderGood k sz good)) ∧
      dmabufSize k cmdbuf sz s =
        if magicAt k cmdbuf 0 = k.magic180X ∧ ok then
          .ok (encodedSize k recs, pmu) (s.push accesses)
        else .error .errData (s.push accesses) := by
  have short := met.length_le
  obtain ⟨later, allowed, runs⟩ :=
    sizeLoop_apply met ⟨⟨0, 0, 0⟩, 0, 0, 0, 0⟩ (s.push [magicAccess k 0])
    (sz + 1) (by omega)
  by_cases magic : magicAt k cmdbuf 0 = k.magic180X
  · have start : Counters.Holds k ⟨0, 0, 0⟩ [] := ⟨rfl, rfl⟩
    obtain ⟨cpu, extent, total⟩ := sizeRun_spec recs ⟨⟨0, 0, 0⟩, 0, 0, 0, 0⟩ start
    refine ⟨later ++ [magicAccess k 0], pmuSize (sizeRun k recs ⟨⟨0, 0, 0⟩, 0, 0, 0, 0⟩).tiuCnt
      (sizeRun k recs ⟨⟨0, 0, 0⟩, 0, 0, 0, 0⟩).tdmaCnt, ?_, ?_⟩
    · intro good
      rw [List.forall_mem_append, allowed good, List.forall_mem_singleton, and_comm]
      simp [magic]
    · simp only [dmabufSize, bind_apply, traverseStart_apply, magic, if_true, runs, push_push,
        true_and]
      cases ok with
      | false => simp
      | true =>
        simp only [if_true, pure_apply, cpu, extent, total]
        rw [← segments, segments_flatten]
        simp [encodedSize]
  · refine ⟨[magicAccess k 0], 0, ?_, ?_⟩
    · intro good
      simp [magic]
    · simp only [dmabufSize, bind_apply, traverseStart_apply, magic, if_false, false_and]

end

end CviRuntime.Dmabuf
