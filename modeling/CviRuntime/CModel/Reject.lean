import CviRuntime.CModel.Adjust

/-!
# What the 180x simulator does with buffers it should refuse

`extract_cmdbuf` and `extract_dmabuf` return -1 for a wrong magic number, as an `int` next to the
sizes. The calls compare it with upper bounds only and go on, and `set_eod` loops on an unknown
engine before any magic number is looked at. The member `dmabuf_hdr_magic` of the 180x simulator
has 24 bits where `dmabuf_magic_s` has 16, so that it refuses every encoded buffer, those of
the 180x encoder included.
-/

namespace CviRuntime.CModel

open ByteMem Dmabuf

section

variable (k : KernelHeaders)

/-- A load has taken an encoded buffer: both extractions went well, and behind the header, which
    has the sizes, are the TIU and the TDMA slots. -/
structure StoresSlots (cmdbuf : Nat → UInt8) (recs : List Rec) (dmabuf : Nat → UInt8) (r : Result) :
    Prop where
  passes : ∀ engine, .extracted engine (-1) ∉ r.trace
  stores : ∃ bytes size, .writeGmem none bytes size ∈ r.trace ∧
    read32 bytes 16 = k.bdRegBytes * countOf k.tiu recs ∧
    read32 bytes 20 = k.gdmaDescAlignSize * countOf k.tdma recs ∧
    readBytes bytes sizeofCmdbufHeader (k.bdRegBytes * countOf k.tiu recs) =
      ((segments k recs).flatMap (sentTiu k cmdbuf)).flatten ∧
    readBytes bytes (sizeofCmdbufHeader + k.bdRegBytes * countOf k.tiu recs)
        (k.gdmaDescAlignSize * countOf k.tdma recs) =
      (readSlots dmabuf k.gdmaDescAlignSize (tdmaStart k (segments k recs))
        (countOf k.tdma recs)).flatten

/-- The calls of the simulator that are given a buffer. -/
inductive Call where
  | sendCmdbuf (cmdbuf : Nat → UInt8) (sz : Nat)
  | loadCmdbuf (cmdbuf : Nat → UInt8) (sz : Nat) (neuronGaddr weightGaddr : UInt64)
      (enablePmu : Bool)
  | loadDmabuf (dmabuf : Nat → UInt8) (sz : Nat) (neuronGaddr weightGaddr : UInt64)
      (enablePmu : Bool)

def Call.run (regs : RegFields) (c : CModelCmdbuf) (fresh : Nat → UInt8) (fuel : Nat) :
    Call → Option Result
  | .sendCmdbuf cmdbuf sz => rtSendCmdbuf k regs c fresh cmdbuf sz fuel
  | .loadCmdbuf cmdbuf sz neuronGaddr weightGaddr enablePmu =>
    rtLoadCmdbuf k regs c fresh cmdbuf sz neuronGaddr weightGaddr enablePmu fuel
  | .loadDmabuf dmabuf sz neuronGaddr weightGaddr enablePmu =>
    some (rtLoadDmabuf k c fresh dmabuf sz neuronGaddr weightGaddr enablePmu)

/-- The records of a command buffer lie inside it. Of an encoded buffer nothing is needed: its
    table is not looked at before the check. -/
def Call.Inside : Call → Prop
  | .sendCmdbuf cmdbuf sz => ∃ offs, Span k cmdbuf sz 0 offs
  | .loadCmdbuf cmdbuf sz .. => ∃ offs, Span k cmdbuf sz 0 offs
  | .loadDmabuf .. => True

/-- When an extraction has failed, the call returns an error and has done nothing else. -/
def Result.Rejects (r : Result) : Prop :=
  (∃ engine, .extracted engine (-1) ∈ r.trace) →
    r.code = some .error ∧ ∀ event ∈ r.trace, ∃ engine size, event = .extracted engine size

/-- A call ends, and refuses what it finds to be bad. -/
structure Safe (run : Nat → Option Result) : Prop where
  ends : ∃ fuel r, run fuel = some r
  rejects : ∀ fuel r, run fuel = some r → r.Rejects

/-- The loops of `adjust_cmdbuf` come to their end. -/
def Countable (cmdbuf : Nat → UInt8) (sz : Nat) (offs : List Nat) : Prop :=
  sz < 2 ^ 32 ∧ ∀ off ∈ offs, (recAt k cmdbuf off).Known k

def AllMagic (hdrMagic : Nat) (cmdbuf : Nat → UInt8) (offs : List Nat) : Prop :=
  ∀ off ∈ offs, magicAt k cmdbuf off = hdrMagic

/-- The buffers with which a call does as it should: the loops end and no extraction fails, or
    the call is left before the extraction. -/
def Call.Sound : Call → Prop
  | .sendCmdbuf cmdbuf sz => ∀ offs, Span k cmdbuf sz 0 offs →
      Countable k cmdbuf sz offs ∧ AllMagic k k.magic180X cmdbuf offs
  | .loadCmdbuf cmdbuf sz _ _ enablePmu => enablePmu = true ∨ ∀ offs, Span k cmdbuf sz 0 offs →
      Countable k cmdbuf sz offs ∧ (AllMagic k k.magic180X cmdbuf offs ∨ loadSize sz < 0)
  | .loadDmabuf _ sz _ _ enablePmu => enablePmu = true ∨ loadSize sz < 0

end

/-! ## The loops end or not -/

section

variable {k : KernelHeaders} {regs : RegFields} {c : CModelCmdbuf} {m fresh out : Nat → UInt8}
  {sz fuel fuel' hdrMagic : Nat} {offs : List Nat} {engine : Engine} {base : Int}

theorem Span.unique {off : Nat} {offs' : List Nat} (span : Span k m sz off offs)
    (span' : Span k m sz off offs') : offs' = offs := by
  induction span generalizing offs' with
  | nil => exact span'.nil_iff.mpr rfl
  | @cons off offs room rest ih =>
    cases span' with
    | nil =>
      have before := rest.le
      have := k.hdr_pos
      rw [recAt_next] at before
      omega
    | cons _ rest' => rw [ih rest']

/-- An option that stays when the other has a value. -/
theorem bind_mono {α β : Type} {x y : Option α} {f g : α → Option β} {result : β}
    (first : ∀ a, x = some a → y = some a) (second : ∀ a, f a = some result → g a = some result)
    (runs : x.bind f = some result) : y.bind g = some result := by
  obtain ⟨a, found, rest⟩ := Option.bind_eq_some_iff.mp runs
  rw [first a found]
  exact second a rest

theorem adjustCmdbuf_mono {m' : Nat → UInt8} (more : fuel ≤ fuel')
    (runs : adjustCmdbuf k regs m sz fuel = some m') :
    adjustCmdbuf k regs m sz fuel' = some m' := by
  unfold adjustCmdbuf setEod enableInterrupt at runs ⊢
  revert runs
  apply bind_mono
  · intro a
    apply bind_mono
    · exact fun lasts runs => eachRecord_mono runs more
    · exact fun _ runs => runs
  intro m₁
  apply bind_mono
  · intro a
    apply bind_mono
    · exact fun lasts runs => eachRecord_mono runs more
    · exact fun _ runs => runs
  intro m₂
  apply bind_mono
  · exact fun m₃ runs => eachRecord_mono runs more
  · exact fun m₃ runs => eachRecord_mono runs more

/-- A buffer that the loops do not get through. -/
theorem Span.adjustCmdbuf_none (span : Span k m sz 0 offs) (bad : ¬Countable k m sz offs) :
    adjustCmdbuf k regs m sz fuel = none := by
  have stuck : eachRecord k sz (fun _ => m) (eodBody k m) fuel 0 ⟨none, none⟩ = none := by
    rcases Nat.lt_or_ge sz (2 ^ 32) with word | long
    · have unknown : ∃ off ∈ offs, ¬(recAt k m off).Known k := by
        by_contra all
        push Not at all
        exact bad ⟨word, all⟩
      by_contra ended
      obtain ⟨result, runs⟩ := Option.ne_none_iff_exists'.mp ended
      have longer := eachRecord_mono runs (Nat.le_add_right fuel (offs.length + 1))
      rw [eachRecord_span span word (local_const k m _) (by omega),
        runBody_eod_unknown unknown] at longer
      simp [Flow.result] at longer
    · apply eachRecord_long long (Nat.two_pow_pos 32)
      intro i lasts lasts'
      dsimp only [eodBody]
      split_ifs <;> simp
  simp only [adjustCmdbuf, setEod, stuck, Option.bind_eq_bind, Option.bind_none]

/-- An extraction over records with the right magic number counts up to a size. -/
theorem Span.extractCmdbuf_good (span : Span k m sz 0 offs) (word : sz < 2 ^ 32)
    (good : AllMagic k hdrMagic m offs) (engine : Engine) (base : Int) (out : Nat → UInt8) :
    ∃ found, (∀ fuel, offs.length < fuel →
        extractCmdbuf k hdrMagic engine m sz base out fuel = some found) ∧
      found.size ≠ -1 := by
  have start : Found.size ⟨0, out⟩ = int32 (0 : Nat) := rfl
  obtain ⟨out', runs⟩ : ∃ out', runBody (extractBody k hdrMagic engine m base) offs ⟨0, out⟩ =
      .next ⟨int32 (0 + (stream k m engine offs).length : Nat), out'⟩ :=
    runBody_extract_size good start
  refine ⟨⟨int32 (0 + (stream k m engine offs).length : Nat), out'⟩, ?_, ?_⟩
  · intro fuel enough
    rw [extractCmdbuf, eachRecord_span span word (local_const k m _) enough, runs, Flow.result_next]
  · have inside := span.stream_length engine
    have header := k.hdr_pos
    have small : 0 + (stream k m engine offs).length + 1 < 2 ^ 32 := by
      cases offs with
      | nil => simp [stream, positions]
      | cons off offs =>
        rw [List.length_cons, Nat.succ_mul] at inside
        omega
    simp only [ne_eq]
    exact int32_ne_neg_one small

/-- A wrong magic number among the records, and the extraction fails for either engine. -/
theorem Span.extractCmdbuf_bad (span : Span k m sz 0 offs) (word : sz < 2 ^ 32)
    (bad : ¬AllMagic k hdrMagic m offs) (engine : Engine) (base : Int) (out : Nat → UInt8) :
    ∃ found, (∀ fuel, offs.length < fuel →
        extractCmdbuf k hdrMagic engine m sz base out fuel = some found) ∧
      found.size = -1 := by
  have wrong : ∃ off ∈ offs, magicAt k m off ≠ hdrMagic := by
    by_contra all
    push Not at all
    exact bad all
  obtain ⟨out', runs⟩ : ∃ out', runBody (extractBody k hdrMagic engine m base) offs ⟨0, out⟩ =
      .leave ⟨-1, out'⟩ := runBody_extract_bad wrong
  refine ⟨⟨-1, out'⟩, ?_, rfl⟩
  intro fuel enough
  rw [extractCmdbuf, eachRecord_span span word (local_const k m _) enough, runs, Flow.result_leave]

theorem SameHeads.allMagic {m' : Nat → UInt8} (same : SameHeads k m m' offs) :
    AllMagic k hdrMagic m' offs ↔ AllMagic k hdrMagic m offs := by
  constructor
  · intro good off member
    rw [← same.magic member]
    exact good off member
  · intro good off member
    rw [same.magic member]
    exact good off member

/-- A call whose number of rounds only cuts it off is safe when its one result is. -/
theorem safe_iff {run : Nat → Option Result} {r : Result}
    (mono : ∀ fuel fuel' r, fuel ≤ fuel' → run fuel = some r → run fuel' = some r)
    (runs : run fuel = some r) : Safe run ↔ r.Rejects := by
  constructor
  · exact fun safe => safe.rejects fuel r runs
  · intro rejects
    refine ⟨⟨fuel, r, runs⟩, ?_⟩
    intro other r' runs'
    have first := mono _ _ _ (Nat.le_add_right fuel other) runs
    have second := mono _ _ _ (Nat.le_add_left other fuel) runs'
    obtain rfl : r = r' := Option.some.inj (first.symm.trans second)
    exact rejects

theorem not_safe_of_none {run : Nat → Option Result} (stuck : ∀ fuel, run fuel = none) :
    ¬Safe run := by
  intro safe
  obtain ⟨fuel, r, runs⟩ := safe.ends
  rw [stuck fuel] at runs
  simp at runs

end

/-! ## The calls -/

section

variable {k : KernelHeaders} {regs : RegFields} {c : CModelCmdbuf} {m fresh : Nat → UInt8}
  {sz : Nat} {offs : List Nat}

theorem rtSendCmdbuf_mono (fuel fuel' : Nat) (r : Result) (more : fuel ≤ fuel') :
    rtSendCmdbuf k regs c fresh m sz fuel = some r →
      rtSendCmdbuf k regs c fresh m sz fuel' = some r := by
  unfold rtSendCmdbuf
  apply bind_mono
  · exact fun m' runs => adjustCmdbuf_mono more runs
  intro m'
  apply bind_mono
  · exact fun tiu runs => eachRecord_mono runs more
  intro tiu
  split_ifs
  · apply bind_mono
    · exact fun tdma runs => eachRecord_mono runs more
    · exact fun tdma runs => runs
  · exact id

theorem rtLoadCmdbuf_mono {neuronGaddr weightGaddr : UInt64} {enablePmu : Bool}
    (fuel fuel' : Nat) (r : Result) (more : fuel ≤ fuel') :
    rtLoadCmdbuf k regs c fresh m sz neuronGaddr weightGaddr enablePmu fuel = some r →
      rtLoadCmdbuf k regs c fresh m sz neuronGaddr weightGaddr enablePmu fuel' = some r := by
  unfold rtLoadCmdbuf
  split_ifs
  · exact id
  · apply bind_mono
    · exact fun m' runs => adjustCmdbuf_mono more runs
    · exact fun m' runs => runs
  · apply bind_mono
    · exact fun m' runs => adjustCmdbuf_mono more runs
    intro m'
    apply bind_mono
    · exact fun tiu runs => eachRecord_mono runs more
    intro tiu
    split_ifs
    · apply bind_mono
      · exact fun tdma runs => eachRecord_mono runs more
      · exact fun tdma runs => runs
    · exact id

/-- What all calls that come to their extractions have in common: they never return an error, and
    report the sizes they got. -/
structure Reports (r : Result) (tiuSize tdmaSize : Int) : Prop where
  noError : r.code ≠ some .error
  first : .extracted .tiu tiuSize ∈ r.trace
  only : ∀ engine size, .extracted engine size ∈ r.trace → size = tiuSize ∨ size = tdmaSize

theorem Reports.rejects {r : Result} {tiuSize tdmaSize : Int} (reports : Reports r tiuSize tdmaSize)
    (tiu : tiuSize ≠ -1) (tdma : tdmaSize ≠ -1) : r.Rejects := by
  rintro ⟨engine, member⟩
  rcases reports.only engine (-1) member with same | same
  · exact absurd same.symm tiu
  · exact absurd same.symm tdma

theorem Reports.not_rejects {r : Result} {tdmaSize : Int} (reports : Reports r (-1) tdmaSize) :
    ¬r.Rejects :=
  fun rejects => reports.noError (rejects ⟨.tiu, reports.first⟩).1

theorem reports_of_trace {code : Option Code} {rest : List Event} {tiuSize tdmaSize : Int}
    (noError : code ≠ some .error)
    (only : ∀ engine size, .extracted engine size ∈ rest → size = tdmaSize) :
    Reports ⟨code, .extracted .tiu tiuSize :: rest⟩ tiuSize tdmaSize := by
  refine ⟨noError, List.mem_cons_self, ?_⟩
  intro engine size member
  rcases List.mem_cons.mp member with same | later
  · exact Or.inl (Event.extracted.inj same).2
  · exact Or.inr (only engine size later)

theorem loadExtracted_reports {neuronGaddr weightGaddr : UInt64} (tiu tdma : Found) :
    Reports (loadExtracted c sz neuronGaddr weightGaddr tiu tdma) tiu.size tdma.size := by
  unfold loadExtracted
  split_ifs
  · exact reports_of_trace (by simp) (by simp)
  · exact reports_of_trace (by simp) (by simp)

theorem rtSendCmdbuf_reports {m' : Nat → UInt8} {fuel : Nat} {tiu tdma : Found}
    (adjusts : adjustCmdbuf k regs m sz fuel = some m')
    (tiuRuns : extractCmdbuf k c.cmdbufHdrMagic .tiu m' sz 0 fresh fuel = some tiu)
    (tdmaRuns : extractCmdbuf k c.cmdbufHdrMagic .tdma m' sz 0 fresh fuel = some tdma) :
    ∃ r, rtSendCmdbuf k regs c fresh m sz fuel = some r ∧ Reports r tiu.size tdma.size := by
  rw [rtSendCmdbuf, adjusts, Option.bind_eq_bind, Option.bind_some, tiuRuns, Option.bind_eq_bind,
    Option.bind_some, tdmaRuns, Option.bind_some]
  split_ifs
  all_goals exact ⟨_, rfl, reports_of_trace (by simp) (by simp)⟩

theorem rtLoadCmdbuf_reports {m' : Nat → UInt8} {fuel : Nat} {tiu tdma : Found}
    {neuronGaddr weightGaddr : UInt64} (room : ¬loadSize sz < 0)
    (adjusts : adjustCmdbuf k regs m sz fuel = some m')
    (tiuRuns : extractCmdbuf k c.cmdbufHdrMagic .tiu m' sz sizeofCmdbufHeader fresh fuel = some tiu)
    (tdmaRuns : extractCmdbuf k c.cmdbufHdrMagic .tdma m' sz (sizeofCmdbufHeader + tiu.size) tiu.out
      fuel = some tdma) :
    ∃ r, rtLoadCmdbuf k regs c fresh m sz neuronGaddr weightGaddr false fuel = some r ∧
      Reports r tiu.size tdma.size := by
  rw [rtLoadCmdbuf, if_neg Bool.false_ne_true, adjusts, Option.bind_eq_bind, Option.bind_some,
    if_neg room, tiuRuns, Option.bind_eq_bind, Option.bind_some, tdmaRuns, Option.bind_some]
  split_ifs
  · exact ⟨_, rfl, loadExtracted_reports tiu tdma⟩
  · exact ⟨_, rfl, reports_of_trace (by simp) (by simp)⟩

/-- `rt_send_cmdbuf` on a buffer that its loops get through. -/
theorem Span.safe_sendCmdbuf_iff (span : Span k m sz 0 offs) (countable : Countable k m sz offs)
    (desc : regs.tiuDescRegBytes = k.bdRegBytes) :
    Safe (rtSendCmdbuf k regs c fresh m sz) ↔ AllMagic k c.cmdbufHdrMagic m offs := by
  obtain ⟨m', adjusts, rewritten⟩ := span.adjustCmdbuf_rewritten desc countable.1 countable.2
  have span' := span.congr rewritten.heads
  have enough : offs.length < offs.length + 1 := Nat.lt_succ_self _
  rw [← rewritten.heads.allMagic]
  by_cases good : AllMagic k c.cmdbufHdrMagic m' offs
  · obtain ⟨tiu, tiuRuns, tiuSize⟩ := span'.extractCmdbuf_good countable.1 good .tiu 0 fresh
    obtain ⟨tdma, tdmaRuns, tdmaSize⟩ := span'.extractCmdbuf_good countable.1 good .tdma 0 fresh
    obtain ⟨r, runs, reports⟩ :=
      rtSendCmdbuf_reports (adjusts _ enough) (tiuRuns _ enough) (tdmaRuns _ enough)
    rw [safe_iff rtSendCmdbuf_mono runs]
    exact iff_of_true (reports.rejects tiuSize tdmaSize) good
  · obtain ⟨tiu, tiuRuns, tiuSize⟩ := span'.extractCmdbuf_bad countable.1 good .tiu 0 fresh
    obtain ⟨tdma, tdmaRuns, -⟩ := span'.extractCmdbuf_bad countable.1 good .tdma 0 fresh
    obtain ⟨r, runs, reports⟩ :=
      rtSendCmdbuf_reports (adjusts _ enough) (tiuRuns _ enough) (tdmaRuns _ enough)
    rw [tiuSize] at reports
    rw [safe_iff rtSendCmdbuf_mono runs]
    exact iff_of_false reports.not_rejects good

/-- `rt_load_cmdbuf` on a buffer that its loops get through. -/
theorem Span.safe_loadCmdbuf_iff (span : Span k m sz 0 offs) (countable : Countable k m sz offs)
    (desc : regs.tiuDescRegBytes = k.bdRegBytes) {neuronGaddr weightGaddr : UInt64} :
    Safe (rtLoadCmdbuf k regs c fresh m sz neuronGaddr weightGaddr false) ↔
      AllMagic k c.cmdbufHdrMagic m offs ∨ loadSize sz < 0 := by
  obtain ⟨m', adjusts, rewritten⟩ := span.adjustCmdbuf_rewritten desc countable.1 countable.2
  have span' := span.congr rewritten.heads
  have enough : offs.length < offs.length + 1 := Nat.lt_succ_self _
  rw [← rewritten.heads.allMagic]
  by_cases room : loadSize sz < 0
  · have runs : rtLoadCmdbuf k regs c fresh m sz neuronGaddr weightGaddr false (offs.length + 1) =
        some ⟨none, []⟩ := by
      rw [rtLoadCmdbuf, if_neg Bool.false_ne_true, adjusts _ enough, Option.bind_eq_bind,
        Option.bind_some, if_pos room]
      rfl
    rw [safe_iff rtLoadCmdbuf_mono runs]
    refine iff_of_true ?_ (Or.inr room)
    rintro ⟨engine, member⟩
    simp at member
  · simp only [room, or_false]
    by_cases good : AllMagic k c.cmdbufHdrMagic m' offs
    · obtain ⟨tiu, tiuRuns, tiuSize⟩ :=
        span'.extractCmdbuf_good countable.1 good .tiu sizeofCmdbufHeader fresh
      obtain ⟨tdma, tdmaRuns, tdmaSize⟩ :=
        span'.extractCmdbuf_good countable.1 good .tdma (sizeofCmdbufHeader + tiu.size) tiu.out
      obtain ⟨r, runs, reports⟩ :=
        rtLoadCmdbuf_reports room (adjusts _ enough) (tiuRuns _ enough) (tdmaRuns _ enough)
      rw [safe_iff rtLoadCmdbuf_mono runs]
      exact iff_of_true (reports.rejects tiuSize tdmaSize) good
    · obtain ⟨tiu, tiuRuns, tiuSize⟩ :=
        span'.extractCmdbuf_bad countable.1 good .tiu sizeofCmdbufHeader fresh
      obtain ⟨tdma, tdmaRuns, -⟩ :=
        span'.extractCmdbuf_bad countable.1 good .tdma (sizeofCmdbufHeader + tiu.size) tiu.out
      obtain ⟨r, runs, reports⟩ :=
        rtLoadCmdbuf_reports room (adjusts _ enough) (tiuRuns _ enough) (tdmaRuns _ enough)
      rw [tiuSize] at reports
      rw [safe_iff rtLoadCmdbuf_mono runs]
      exact iff_of_false reports.not_rejects good

/-- A `dmabuf_hdr_magic` of more than 16 bits is never found. -/
theorem extractDmabuf_wide {hdrMagic : UInt32} (wide : 65536 ≤ hdrMagic.toNat) (engine : Engine)
    (m : Nat → UInt8) (base : Int) (out : Nat → UInt8) :
    extractDmabuf k hdrMagic engine m base out = ⟨-1, out⟩ := by
  have word := read32_lt m 0
  unfold extractDmabuf
  rw [if_pos (by omega)]

theorem rtLoadDmabuf_wide (wide : 65536 ≤ c.dmabufHdrMagic.toNat) (room : ¬loadSize sz < 0)
    (dmabuf : Nat → UInt8) (neuronGaddr weightGaddr : UInt64) :
    Reports (rtLoadDmabuf k c fresh dmabuf sz neuronGaddr weightGaddr false) (-1) (-1) := by
  simp only [rtLoadDmabuf, Bool.false_eq_true, room, or_self, if_false, extractDmabuf_wide wide]
  split_ifs
  · exact loadExtracted_reports ⟨-1, fresh⟩ ⟨-1, fresh⟩
  · exact reports_of_trace (by simp) (by simp)

/-- A load with such a member stores nothing. -/
theorem not_storesSlots_wide {cmdbuf dmabuf : Nat → UInt8} {recs : List Rec}
    {neuronGaddr weightGaddr : UInt64} {enablePmu : Bool}
    (wide : 65536 ≤ c.dmabufHdrMagic.toNat) :
    ¬StoresSlots k cmdbuf recs dmabuf
      (rtLoadDmabuf k c fresh dmabuf sz neuronGaddr weightGaddr enablePmu) := by
  intro stores
  by_cases early : enablePmu = true ∨ loadSize sz < 0
  · obtain ⟨bytes, size, member, -⟩ := stores.stores
    rw [rtLoadDmabuf, if_pos early] at member
    simp at member
  · rw [not_or, Bool.not_eq_true] at early
    obtain ⟨rfl, room⟩ := early
    exact stores.passes .tiu (rtLoadDmabuf_wide wide room dmabuf neuronGaddr weightGaddr).first

end

/-! ## The 180x simulator -/

section

variable {k : KernelHeaders} {cmdbuf : Nat → UInt8} {sz : Nat} {recs : List Rec}

theorem wide_180x (k : KernelHeaders) (tiuGaddr tdmaGaddr tiuSize tdmaSize : UInt64) :
    65536 ≤ (cmodelCmdbuf180x k tiuGaddr tdmaGaddr tiuSize tdmaSize).dmabufHdrMagic.toNat := by
  show 65536 ≤ (0x182203 : UInt32).toNat
  decide

/-- Whatever the 180x encoder has made of a well-formed command buffer, the 180x simulator finds
    the magic number `0x1822` where it looks for `0x182203`, and takes no slot of it. -/
theorem rtLoadDmabuf_never_stores (wf : WellFormed k cmdbuf sz recs) (s : Buffers)
    (tiuGaddr tdmaGaddr tiuSize tdmaSize : UInt64) (fresh : Nat → UInt8) (loadSz : Nat)
    (neuronGaddr weightGaddr : UInt64) (enablePmu : Bool) :
    ∃ s', dmabufConvert k cmdbuf sz s = .ok () s' ∧ read32 s'.dmabuf 0 / 65536 = 0x1822 ∧
      (∀ engine base out, (extractDmabuf k
        (cmodelCmdbuf180x k tiuGaddr tdmaGaddr tiuSize tdmaSize).dmabufHdrMagic engine s'.dmabuf
        base out).size = -1) ∧
      ¬StoresSlots k cmdbuf recs s'.dmabuf
        (rtLoadDmabuf k (cmodelCmdbuf180x k tiuGaddr tdmaGaddr tiuSize tdmaSize) fresh s'.dmabuf
          loadSz neuronGaddr weightGaddr enablePmu) := by
  obtain ⟨s', converts, memory⟩ := dmabufConvert_mem s wf.magic wf.met wf.small
  have wide := wide_180x k tiuGaddr tdmaGaddr tiuSize tdmaSize
  refine ⟨s', converts, ?_, ?_, not_storesSlots_wide wide⟩
  · rw [memory, encodeMem_magic wf]
  · intro engine base out
    rw [extractDmabuf_wide wide]

theorem rtLoadDmabuf_never_stores_mixed :
    WellFormed kernel1822 (mixed 0xA8) 476 (mixedRecords 0xA8 5) ∧
    ∃ s', dmabufConvert kernel1822 (mixed 0xA8) 476 ⟨fun _ => 0, []⟩ = .ok () s' ∧
      read32 s'.dmabuf 0 / 65536 = 0x1822 ∧
      ∀ engine base out, (extractDmabuf kernel1822 0x182203 engine s'.dmabuf base out).size =
        -1 := by
  obtain ⟨s', converts, magic, fails, -⟩ := rtLoadDmabuf_never_stores wellFormed_mixed
    ⟨fun _ => 0, []⟩ 0 0 65536 65536 (fun _ => 0) 1152 0 0 false
  exact ⟨wellFormed_mixed, s', converts, magic, fails⟩

/-- A TIU record and a CPU record, encoded and given to the simulator. -/
theorem rtLoadDmabuf_misses_tiuThenCpu :
    WellFormed kernel1822 tiuThenCpu 212 (tiuThenCpuRecords 1) ∧
    ∃ s', dmabufConvert kernel1822 tiuThenCpu 212 ⟨fun _ => 0, []⟩ = .ok () s' ∧
      ¬StoresSlots kernel1822 tiuThenCpu (tiuThenCpuRecords 1) s'.dmabuf
        (rtLoadDmabuf kernel1822 (cmodelCmdbuf180x kernel1822 0 0 65536 65536) (fun _ => 0)
          s'.dmabuf (encodedSize kernel1822 (tiuThenCpuRecords 1)) 0 0 false) := by
  have wf : WellFormed kernel1822 tiuThenCpu 212 (tiuThenCpuRecords 1) := wellFormed_tiuThenCpu 1
  obtain ⟨s', converts, -⟩ := dmabufConvert_mem ⟨fun _ => 0, []⟩ wf.magic wf.met wf.small
  exact ⟨wf, s', converts, not_storesSlots_wide (wide_180x ..)⟩

section

variable {regs : RegFields} {c : CModelCmdbuf} {fresh : Nat → UInt8}

theorem sendCmdbuf_safe_iff {offs : List Nat} (span : Span k cmdbuf sz 0 offs)
    (desc : regs.tiuDescRegBytes = k.bdRegBytes) (same : c.cmdbufHdrMagic = k.magic180X) :
    Safe (rtSendCmdbuf k regs c fresh cmdbuf sz) ↔ (Call.sendCmdbuf cmdbuf sz).Sound k := by
  by_cases countable : Countable k cmdbuf sz offs
  · rw [span.safe_sendCmdbuf_iff countable desc, same]
    constructor
    · intro good offs' span'
      obtain rfl := span.unique span'
      exact ⟨countable, good⟩
    · exact fun sound => (sound offs span).2
  · refine iff_of_false (not_safe_of_none ?_) fun sound => countable (sound offs span).1
    intro fuel
    simp only [rtSendCmdbuf, span.adjustCmdbuf_none countable, Option.bind_eq_bind,
      Option.bind_none]

theorem loadCmdbuf_safe_iff {offs : List Nat} (span : Span k cmdbuf sz 0 offs)
    (desc : regs.tiuDescRegBytes = k.bdRegBytes) (same : c.cmdbufHdrMagic = k.magic180X)
    (neuronGaddr weightGaddr : UInt64)
    (enablePmu : Bool) :
    Safe (rtLoadCmdbuf k regs c fresh cmdbuf sz neuronGaddr weightGaddr enablePmu) ↔
      (Call.loadCmdbuf cmdbuf sz neuronGaddr weightGaddr enablePmu).Sound k := by
  cases enablePmu with
  | true =>
    refine iff_of_true ⟨⟨0, ⟨none, []⟩, rfl⟩, ?_⟩ (Or.inl rfl)
    rintro fuel r ⟨⟩ ⟨engine, member⟩
    simp at member
  | false =>
    by_cases countable : Countable k cmdbuf sz offs
    · rw [span.safe_loadCmdbuf_iff countable desc, same]
      constructor
      · intro good
        refine Or.inr ?_
        intro offs' span'
        obtain rfl := span.unique span'
        exact ⟨countable, good⟩
      · rintro (pmu | sound)
        · exact absurd pmu Bool.false_ne_true
        · exact (sound offs span).2
    · refine iff_of_false (not_safe_of_none ?_) ?_
      · intro fuel
        rw [rtLoadCmdbuf, if_neg Bool.false_ne_true, span.adjustCmdbuf_none countable]
        rfl
      · rintro (pmu | sound)
        · exact absurd pmu Bool.false_ne_true
        · exact countable (sound offs span).1

theorem loadDmabuf_safe_iff (wide : 65536 ≤ c.dmabufHdrMagic.toNat) (dmabuf : Nat → UInt8)
    (neuronGaddr weightGaddr : UInt64) (enablePmu : Bool) :
    Safe (fun _ => some (rtLoadDmabuf k c fresh dmabuf sz neuronGaddr weightGaddr enablePmu)) ↔
      (Call.loadDmabuf dmabuf sz neuronGaddr weightGaddr enablePmu).Sound k := by
  by_cases early : enablePmu = true ∨ loadSize sz < 0
  · refine iff_of_true ⟨⟨0, ⟨none, []⟩, ?_⟩, ?_⟩ early
    · simp only [rtLoadDmabuf, if_pos early]
    · intro fuel r runs
      simp only [rtLoadDmabuf, if_pos early, Option.some.injEq] at runs
      obtain rfl := runs
      rintro ⟨engine, member⟩
      simp at member
  · refine iff_of_false ?_ early
    rw [not_or, Bool.not_eq_true] at early
    obtain ⟨rfl, room⟩ := early
    intro safe
    exact (rtLoadDmabuf_wide wide room dmabuf neuronGaddr weightGaddr).not_rejects
      (safe.rejects 0 _ rfl)

end

/-- For any buffer whose records lie inside it, a call ends and refuses what its extractions find
    to be bad exactly when its loops can end and no extraction fails, or when it is left before the
    first extraction. A failed extraction is never turned into an error code. -/
theorem call_safe_iff (regs : RegFields) (tiuGaddr tdmaGaddr tiuSize tdmaSize : UInt64)
    (fresh : Nat → UInt8) (call : Call) (desc : regs.tiuDescRegBytes = k.bdRegBytes)
    (inside : call.Inside k) :
    Safe (fun fuel => call.run k regs
        (cmodelCmdbuf180x k tiuGaddr tdmaGaddr tiuSize tdmaSize) fresh fuel) ↔ call.Sound k := by
  cases call with
  | sendCmdbuf cmdbuf sz =>
    obtain ⟨offs, span⟩ := inside
    exact sendCmdbuf_safe_iff span desc rfl
  | loadCmdbuf cmdbuf sz neuronGaddr weightGaddr enablePmu =>
    obtain ⟨offs, span⟩ := inside
    exact loadCmdbuf_safe_iff span desc rfl neuronGaddr weightGaddr enablePmu
  | loadDmabuf dmabuf sz neuronGaddr weightGaddr enablePmu =>
    have wide := wide_180x k tiuGaddr tdmaGaddr tiuSize tdmaSize
    exact loadDmabuf_safe_iff wide dmabuf neuronGaddr weightGaddr enablePmu

theorem room_tiuThenCpu (n : Nat) : ∀ r ∈ tiuThenCpuRecords n, Room kernel1822 r := by
  intro r member
  rcases List.mem_cons.mp member with rfl | cpu
  · decide
  · have engine := cpuRecords_engine r cpu
    refine ⟨?_, ?_⟩
    · rw [engine]
      exact fun other => absurd other (by decide)
    · rw [engine]
      exact fun other => absurd other (by decide)

theorem room_mixed : ∀ r ∈ mixedRecords 0xA8 5, Room kernel1822 r := by decide

theorem room_mixed_first : ∀ r ∈ mixedRecords 0xA8 3, Room kernel1822 r := by decide

theorem call_safe_iff_mixed :
    (Call.sendCmdbuf (mixed 0xA8) 476).Inside kernel1822 ∧
    Safe (fun fuel => (Call.sendCmdbuf (mixed 0xA8) 476).run kernel1822 regs1822
      (cmodelCmdbuf180x kernel1822 0 0 65536 65536) (fun _ => 0) fuel) := by
  have wf := wellFormed_mixed
  have span := span_of_row wf.row room_mixed
  have inside : (Call.sendCmdbuf (mixed 0xA8) 476).Inside kernel1822 := ⟨_, span⟩
  refine ⟨inside, (call_safe_iff regs1822 0 0 65536 65536 _ _ rfl inside).mpr ?_⟩
  intro offs' span'
  obtain rfl := span.unique span'
  exact ⟨⟨by decide, row_known wf.row⟩, row_magic wf.row⟩

/-- One TIU record with the magic number of another chip. -/
def wrongChip (a : Nat) : UInt8 := if a = 0 then 0xA9 else if a = 1 then 112 else 0

/-- The record lies inside the buffer, the extraction fails, and `rt_send_cmdbuf` does not return
    an error. -/
theorem sendCmdbuf_wrongChip_not_safe :
    (Call.sendCmdbuf wrongChip 120).Inside kernel1822 ∧
    ¬Safe (fun fuel => (Call.sendCmdbuf wrongChip 120).run kernel1822 regs1822
      (cmodelCmdbuf180x kernel1822 0 0 65536 65536) (fun _ => 0) fuel) := by
  have span : Span kernel1822 wrongChip 120 0 [0] := .cons (by decide) .nil
  have countable : Countable kernel1822 wrongChip 120 [0] := by
    refine ⟨by decide, ?_⟩
    intro off member
    obtain rfl := List.mem_singleton.mp member
    decide
  refine ⟨⟨_, span⟩, ?_⟩
  intro safe
  have good := (span.safe_sendCmdbuf_iff countable rfl).mp safe
  exact absurd (good 0 List.mem_cons_self) (by decide)

end

end CviRuntime.CModel
