import CviRuntime.CModel.DeviceRefines
import CviRuntime.CModel.Reject

/-!
# Whole runs of the device

`Refines.step` puts the calls together: whatever call of the device has a meaning in the store
keeps the two related, if the descriptors that run write only through the views the client named.
The runs follow by induction. Reading gives what is known, the calls that need no new memory do
not fail, and the device can be closed exactly when the client has freed every buffer.
-/

namespace CviRuntime.CModel

open ByteMem Dmabuf MemPool Placement

section

variable {k : KernelHeaders} {regs : RegFields} {c : CModelCmdbuf} {m fresh : Nat → UInt8}
  {sz fuel i : Nat}

/-! ## Sizes that a loop counts in an `int` -/

theorem eachRecord_invariant {σ : Type} {memory : σ → Nat → UInt8} {body : Nat → σ → Flow σ}
    {P : σ → Prop}
    (keep : ∀ i st st', P st → body i st = .next st' ∨ body i st = .leave st' → P st')
    {st result : σ} (init : P st) (runs : eachRecord k sz memory body fuel i st = some result) :
    P result := by
  induction fuel generalizing i st with
  | zero => cases runs
  | succ fuel ih =>
    rw [eachRecord] at runs
    split at runs
    · cases step : body i st with
      | next later =>
        rw [step] at runs
        exact ih (keep i st later init (Or.inl step)) runs
      | leave last =>
        rw [step] at runs
        cases runs
        exact keep i st result init (Or.inr step)
      | forever =>
        rw [step] at runs
        cases runs
    · cases runs
      exact init

theorem int32_range (x : Int) : -2 ^ 31 ≤ int32 x ∧ int32 x < 2 ^ 31 := by
  have low := Int.le_bmod (x := x) (m := 2 ^ 32) (by decide)
  have high := Int.bmod_lt (x := x) (m := 2 ^ 32) (by decide)
  unfold int32
  omega

/-- The size that an extraction returns is an `int`. -/
theorem extractCmdbuf_range {hdrMagic : Nat} {engine : Engine} {base : Int} {out : Nat → UInt8}
    {found : Found} (runs : extractCmdbuf k hdrMagic engine m sz base out fuel = some found) :
    -2 ^ 31 ≤ found.size := by
  refine eachRecord_invariant (P := fun found => -2 ^ 31 ≤ found.size) ?_ (by simp) runs
  intro i found found' range step
  unfold extractBody at step
  split at step
  · rcases step with step | step
    · cases step
    · cases step
      simp
  · split at step
    · rcases step with step | step
      · cases step
        exact (int32_range _).1
      · cases step
    · rcases step with step | step
      · cases step
        exact range
      · cases step

/-! ## What the calls do to the device -/

/-- The events of a call that loads. -/
def LoadEvent : Event → Prop
  | .extracted _ _ => True
  | .alloc _ => True
  | .writeGmem none _ _ => True
  | _ => False

def Result.Loads (r : Result) : Prop := ∀ event ∈ r.trace, LoadEvent event

theorem loadExtracted_loads {neuronGaddr weightGaddr : UInt64} {tiu tdma : Found} :
    (loadExtracted c sz neuronGaddr weightGaddr tiu tdma).Loads := by
  unfold loadExtracted
  split
  · simp [Result.Loads, LoadEvent]
  · simp [Result.Loads, LoadEvent]

theorem rtLoadCmdbuf_loads {cmdbuf : Nat → UInt8} {neuronGaddr weightGaddr : UInt64}
    {enablePmu : Bool} {r : Result}
    (loads : rtLoadCmdbuf k regs c fresh cmdbuf sz neuronGaddr weightGaddr enablePmu fuel =
      some r) : r.Loads := by
  unfold rtLoadCmdbuf at loads
  split at loads
  · cases loads
    simp [Result.Loads]
  · obtain ⟨m', -, loads⟩ := Option.bind_eq_some_iff.mp loads
    split at loads
    · cases loads
      simp [Result.Loads]
    · obtain ⟨tiu, -, loads⟩ := Option.bind_eq_some_iff.mp loads
      split at loads
      · cases loads
        simp [Result.Loads, LoadEvent]
      · obtain ⟨tdma, -, loads⟩ := Option.bind_eq_some_iff.mp loads
        rw [← Option.some.inj loads]
        exact loadExtracted_loads

theorem rtLoadDmabuf_loads {dmabuf : Nat → UInt8} {neuronGaddr weightGaddr : UInt64}
    {enablePmu : Bool} :
    (rtLoadDmabuf k c fresh dmabuf sz neuronGaddr weightGaddr enablePmu).Loads := by
  unfold rtLoadDmabuf
  refine iteInduction (motive := Result.Loads) ?_ ?_
  · simp [Result.Loads]
  · intro _
    refine iteInduction (motive := Result.Loads) ?_ ?_
    · simp [Result.Loads, LoadEvent]
    · exact fun _ => loadExtracted_loads

/-- A buffer that is sent: its sizes were compared with the reserved ones. -/
theorem rtSendCmdbuf_events {cmdbuf : Nat → UInt8} {r : Result}
    (sends : rtSendCmdbuf k regs c fresh cmdbuf sz fuel = some r) (good : r.code = some .success) :
    ∃ tiu tdma : Found, -2 ^ 31 ≤ tiu.size ∧ -2 ^ 31 ≤ tdma.size ∧
      tiu.size ≤ int32 c.tiuCmdbufReservedSize.toNat ∧
      tdma.size ≤ int32 c.tdmaCmdbufReservedSize.toNat ∧
      r.trace = [.extracted .tiu tiu.size, .extracted .tdma tdma.size,
        .writeGmem (some c.tiuCmdbufGaddr) tiu.out tiu.size,
        .writeGmem (some c.tdmaCmdbufGaddr) tdma.out tdma.size, .run tiu.size tdma.size] := by
  unfold rtSendCmdbuf at sends
  obtain ⟨m', -, sends⟩ := Option.bind_eq_some_iff.mp sends
  obtain ⟨tiu, tiuRuns, sends⟩ := Option.bind_eq_some_iff.mp sends
  split at sends
  · cases sends
    cases good
  · rename_i tiuFits
    obtain ⟨tdma, tdmaRuns, sends⟩ := Option.bind_eq_some_iff.mp sends
    split at sends
    · cases sends
      cases good
    · rename_i tdmaFits
      cases sends
      exact ⟨tiu, tdma, extractCmdbuf_range tiuRuns, extractCmdbuf_range tdmaRuns,
        not_not.mp tiuFits, not_not.mp tdmaFits, rfl⟩

/-! ## An encoded buffer in a larger memory -/

theorem Engine.slots_congr {engine : Engine} {m m' : Nat → UInt8} {size : Nat}
    (same : ∀ a, a < size → m' a = m a) (inside : armAt k i + 20 ≤ size) :
    engine.slots k m' i = engine.slots k m i := by
  have word (off : Nat) (low : off + 4 ≤ 20) :
      read32 m' (armAt k i + off) = read32 m (armAt k i + off) :=
    read32_congr fun j less => same _ (by omega)
  cases engine with
  | tiu =>
    rw [slots, slots, word 4 (by decide), word 12 (by decide)]
  | tdma =>
    rw [slots, slots, word 8 (by decide), word 16 (by decide)]

theorem extractSegments_congr {engine : Engine} {m m' : Nat → UInt8} {base : Int} {size : Nat}
    (same : ∀ a, a < size → m' a = m a) :
    ∀ {left i : Nat} {found : Found}, (∀ j, i ≤ j → j < i + left → armAt k j + 20 ≤ size ∧
      (engine.slots k m j).2.1 + (engine.slots k m j).1 * (engine.slots k m j).2.2 ≤ size) →
      extractSegments k engine m' base left i found =
        extractSegments k engine m base left i found := by
  intro left
  induction left with
  | zero =>
    intro i found _
    rfl
  | succ left ih =>
    intro i found inside
    obtain ⟨arm, slots⟩ := inside i (Nat.le_refl i) (by omega)
    have bytes : readBytes m' (engine.slots k m i).2.1
        ((engine.slots k m i).1 * (engine.slots k m i).2.2) =
          readBytes m (engine.slots k m i).2.1
            ((engine.slots k m i).1 * (engine.slots k m i).2.2) :=
      readBytes_congr fun j less => same _ (by omega)
    rw [extractSegments, extractSegments, Engine.slots_congr same arm]
    simp only [bytes]
    exact ih fun j low high => inside j (by omega) (by omega)

/-- The extraction reads only where the segments lie. -/
theorem Engine.SegmentsInside.extract_congr {engine : Engine} {m m' : Nat → UInt8} {size : Nat}
    (inside : engine.SegmentsInside k m size) (same : ∀ a, a < size → m' a = m a)
    (hdrMagic : UInt32) (base : Int) (out : Nat → UInt8) :
    extractDmabuf k hdrMagic engine m' base out = extractDmabuf k hdrMagic engine m base out := by
  obtain ⟨header, segments⟩ := inside
  have magic : read32 m' 0 = read32 m 0 := read32_congr fun j less => same _ (by omega)
  have count : read32 m' 8 = read32 m 8 := read32_congr fun j less => same _ (by omega)
  rw [extractDmabuf, extractDmabuf, magic, count, extractSegments_congr same]
  exact fun j _ less => segments j (by omega)

/-- An `int` that was compared with a reserved size, and with which as a `size_t` a write ended. -/
theorem sizeT_le {size : Int} {reserved : UInt64} (low : -2 ^ 31 ≤ size)
    (fits : size ≤ int32 reserved.toNat) (written : sizeT size < 2 ^ 63) :
    sizeT size ≤ reserved.toNat := by
  have range := reserved.toNat_lt
  have high : int32 reserved.toNat ≤ reserved.toNat := by
    unfold int32
    have low := Int.le_bmod (x := (reserved.toNat : Int)) (m := 2 ^ 32) (by decide)
    rw [Int.bmod_def]
    split <;> omega
  unfold sizeT at written ⊢
  omega

end

section

variable {chip : Chip} {k : KernelHeaders} {regs : RegFields} {place : Nat → Nat}
  {dev dev' : Device} {st st' : Store} {h : Nat} {v : View}

/-- A copy to a whole view. -/
theorem Refines.fill (refines : Refines chip place dev st) {src : Nat → UInt8}
    (done : memCopyS2D chip dev h src = some dev') (means : st.fill h src = some st') :
    Refines chip place dev' st' := by
  obtain ⟨v, found, result⟩ := Option.bind_eq_some_iff.mp means
  cases result
  obtain ⟨cell, -, -⟩ := refines.view_bounds found
  rw [memCopyS2D, cell] at done
  exact refines.write found (by omega) rfl done

/-- A copy to an offset, by a call or through the pointer. -/
theorem Refines.put (refines : Refines chip place dev st) {offset len : Nat}
    {src : Nat → UInt8} (means : st.put h offset len src = some st') :
    ∃ mem, dev.mems.cell h = some mem ∧ u64 (offset + len) ≤ mem.size ∧
      u64 (mem.vAddr + offset) = u64 (mem.pAddr + offset) ∧
      u64 (mem.pAddr + offset) + len ≤ chip.gmemSize.toNat ∧
      ∀ dev', writeGmem chip dev (u64 (mem.pAddr + offset)) len src = some dev' →
        Refines chip place dev' st' := by
  obtain ⟨v, found, result⟩ := Option.bind_eq_some_iff.mp means
  split at result
  · rename_i room
    cases result
    obtain ⟨cell, low, high⟩ := refines.view_bounds found
    have range := chip.gmemSize.toNat_lt
    have addr : u64 ((v.memory place h).pAddr + offset) = place v.root + v.offset + offset :=
      u64_of_lt (by simp only [View.memory]; omega)
    refine ⟨_, cell, ?_, rfl, ?_, fun dev' done => refines.write found room addr done⟩
    · rw [u64_of_lt (by omega)]
      exact room
    · rw [addr]
      omega
  · cases result

/-- One event of a call that loads. -/
theorem Refines.performLoad (refines : Refines chip place dev st) {event : Event}
    (loads : LoadEvent event) (done : perform chip dev event = some dev')
    (means : st.perform event = some st') : ∃ place', Refines chip place' dev' st' := by
  match event with
  | .extracted _ _ =>
    cases done
    cases means
    exact ⟨place, refines⟩
  | .alloc size =>
    obtain ⟨place', later, -⟩ := refines.alloc done means
    exact ⟨place', later⟩
  | .writeGmem none bytes size =>
    refine ⟨place, refines.fill (h := dev.mems.next - 1) done ?_⟩
    rw [refines.next]
    exact means
  | .writeGmem (some gaddr) bytes size => exact loads.elim
  | .run tiuSz tdmaSz => exact loads.elim

theorem Refines.performLoads {events : List Event} (loads : ∀ event ∈ events, LoadEvent event)
    (refines : Refines chip place dev st) (done : events.foldlM (perform chip) dev = some dev')
    (means : events.foldlM Store.perform st = some st') :
    ∃ place', Refines chip place' dev' st' := by
  induction events generalizing dev st place with
  | nil =>
    cases done
    cases means
    exact ⟨place, refines⟩
  | cons event events ih =>
    obtain ⟨loadsHere, loadsRest⟩ := List.forall_mem_cons.mp loads
    rw [List.foldlM_cons] at done means
    obtain ⟨dev₁, first, done⟩ := Option.bind_eq_some_iff.mp done
    obtain ⟨st₁, first', means⟩ := Option.bind_eq_some_iff.mp means
    obtain ⟨place₁, refines₁⟩ := refines.performLoad loadsHere first first'
    exact ih loadsRest refines₁ done means

theorem performAll_eq_some {r : Result} : performAll chip dev r = some dev' ↔
    r.code = some .success ∧ r.trace.foldlM (perform chip) dev = some dev' := by
  unfold performAll
  split
  · rename_i good
    exact ⟨fun done => ⟨good, done⟩, fun both => both.2⟩
  · rename_i bad
    exact ⟨fun done => (Option.some_ne_none dev' done.symm).elim, fun both => (bad both.1).elim⟩

theorem writeGmem_eq_some {gaddr n : Nat} {src : Nat → UInt8} :
    writeGmem chip dev gaddr n src = some dev' ↔ gaddr + n ≤ chip.gmemSize.toNat ∧
      dev' = { dev with gmem := writeBytes dev.gmem gaddr (readBytes src 0 n) } := by
  unfold writeGmem
  split
  · rename_i room
    rw [Option.some.injEq, eq_comm]
    exact ⟨fun done => ⟨room, done⟩, fun both => both.2⟩
  · rename_i outside
    exact ⟨fun done => (Option.some_ne_none dev' done.symm).elim,
      fun both => (outside both.1).elim⟩

/-! ## Descriptors that run -/

/-- The descriptors of a call write only through the views that the client named. -/
def Confined (chip : Chip) (k : KernelHeaders) (regs : RegFields) (dev : Device) :
    DeviceOp → Prop
  | .runCmdbuf bases mem writes => ∀ dev₁ tiuSz tdmaSz,
      startCmdbuf chip bases dev mem = some (dev₁, tiuSz, tdmaSz) →
      Keeps chip dev writes dev₁.gmem (launch chip dev₁ tiuSz tdmaSz).gmem
  | .submit fresh cmdbuf sz fuel writes => ∀ r events tiuSz tdmaSz dev₁,
      rtSendCmdbuf k regs chip.c fresh cmdbuf sz fuel = some r →
      r.trace = events ++ [.run tiuSz tdmaSz] → events.foldlM (perform chip) dev = some dev₁ →
      Keeps chip dev writes dev₁.gmem (launch chip dev₁ (sizeT tiuSz) (sizeT tdmaSz)).gmem
  | _ => True

theorem setBaseRegs_other (dev : Device) (bases : List (Nat × UInt64)) :
    (setBaseRegs dev bases).pool = dev.pool ∧ (setBaseRegs dev bases).mems = dev.mems ∧
      (setBaseRegs dev bases).gmem = dev.gmem ∧ (setBaseRegs dev bases).seqNo = dev.seqNo := by
  unfold setBaseRegs
  induction bases generalizing dev with
  | nil => exact ⟨rfl, rfl, rfl, rfl⟩
  | cons base bases ih => exact ih (setBaseReg dev base.1 base.2)

/-- The base registers are not part of the store. -/
theorem Refines.withBaseRegs (refines : Refines chip place dev st)
    (bases : List (Nat × UInt64)) : Refines chip place (setBaseRegs dev bases) st := by
  obtain ⟨pool, mems, gmem, -⟩ := setBaseRegs_other dev bases
  refine refines.contents pool mems rfl ?_
  rw [gmem]
  exact refines.shown

/-- A buffer whose header is known is started, and the store does not change. -/
theorem Refines.start (refines : Refines chip place dev st) (layout : chip.Layout)
    {writes : List Nat} (means : st.run chip.c h writes = some st')
    (bases : UInt64 → UInt64 → List (Nat × UInt64)) :
    ∃ dev₁ tiuSz tdmaSz, startCmdbuf chip bases dev h = some (dev₁, tiuSz, tdmaSz) ∧
      dev₁.mems = dev.mems ∧ Refines chip place dev₁ st ∧ st.ran writes = some st' := by
  obtain ⟨v, found, means⟩ := Option.bind_eq_some_iff.mp means
  obtain ⟨tiuSz, tiuKnown, means⟩ := Option.bind_eq_some_iff.mp means
  obtain ⟨tdmaSz, tdmaKnown, means⟩ := Option.bind_eq_some_iff.mp means
  split at means
  · rename_i fits
    obtain ⟨tiuFits, tdmaFits, inside⟩ := fits
    obtain ⟨cell, low, high⟩ := refines.view_bounds found
    simp only [sizeofCmdbufHeader] at inside
    have tiuWord := refines.word found (by omega) tiuKnown
    have tdmaWord := refines.word found (by omega) tdmaKnown
    have tiuArea := layout.tiu
    have tdmaArea := layout.tdma
    obtain ⟨dev₁, set⟩ : ∃ dev₁, dev₁ = setBaseRegs dev
        (bases (read64 (fun i => dev.gmem (place v.root + v.offset + i)) 0)
          (read64 (fun i => dev.gmem (place v.root + v.offset + i)) 8)) := ⟨_, rfl⟩
    have refines₁ : Refines chip place dev₁ st := by
      rw [set]
      exact refines.withBaseRegs _
    have mems₁ : dev₁.mems = dev.mems := by
      rw [set]
      exact (setBaseRegs_other _ _).2.1
    obtain ⟨dev₂, tiuWrite⟩ : ∃ dev₂, writeGmem chip dev₁ chip.c.tiuCmdbufGaddr.toNat tiuSz
        (fun i => dev.gmem (place v.root + v.offset + (sizeofCmdbufHeader + i))) = some dev₂ :=
      ⟨_, writeGmem_eq_some.mpr ⟨by omega, rfl⟩⟩
    obtain ⟨dev₃, tdmaWrite⟩ : ∃ dev₃, writeGmem chip dev₂ chip.c.tdmaCmdbufGaddr.toNat tdmaSz
        (fun i => dev.gmem (place v.root + v.offset + (sizeofCmdbufHeader + tiuSz + i))) =
          some dev₃ :=
      ⟨_, writeGmem_eq_some.mpr ⟨by omega, rfl⟩⟩
    have refines₂ := refines₁.writeReserved (by omega) tiuWrite
    have refines₃ := refines₂.writeReserved (by omega) tdmaWrite
    refine ⟨dev₃, tiuSz, tdmaSz, ?_, ?_, refines₃, means⟩
    · unfold startCmdbuf
      rw [cell, Option.bind_eq_bind, Option.bind_some]
      simp only [View.memory, tiuWord, tdmaWord, ← set]
      rw [if_neg (by omega), if_neg (by simp only [sizeofCmdbufHeader]; omega), tiuWrite,
        Option.bind_eq_bind, Option.bind_some, tdmaWrite]
      rfl
    · rw [(writeGmem_eq_some.mp tdmaWrite).2, (writeGmem_eq_some.mp tiuWrite).2]
      exact mems₁
  · cases means

/-- Running a loaded buffer. -/
theorem Refines.run (refines : Refines chip place dev st) (layout : chip.Layout)
    {writes : List Nat} {bases : UInt64 → UInt64 → List (Nat × UInt64)}
    (confined : Confined chip k regs dev (.runCmdbuf bases h writes))
    (means : st.run chip.c h writes = some st') :
    ∃ dev', runLoaded chip bases dev h = some dev' ∧ Refines chip place dev' st' := by
  obtain ⟨dev₁, tiuSz, tdmaSz, starts, mems, refines₁, means⟩ := refines.start layout means bases
  have keeps := confined dev₁ tiuSz tdmaSz starts
  refine ⟨_, ?_, refines₁.ran (by rwa [Keeps, mems]) means⟩
  rw [runLoaded, starts]
  rfl

/-- Sending a buffer. -/
theorem Refines.send (refines : Refines chip place dev st) (layout : chip.Layout)
    {fresh cmdbuf : Nat → UInt8} {sz fuel : Nat} {writes : List Nat}
    (confined : Confined chip k regs dev (.submit fresh cmdbuf sz fuel writes))
    (done : sendCmdbuf chip k regs dev fresh cmdbuf sz fuel = some dev')
    (means : st.ran writes = some st') : Refines chip place dev' st' := by
  obtain ⟨r, sends, done⟩ := Option.bind_eq_some_iff.mp done
  obtain ⟨good, done⟩ := performAll_eq_some.mp done
  obtain ⟨tiu, tdma, tiuLow, tdmaLow, tiuFits, tdmaFits, trace⟩ := rtSendCmdbuf_events sends good
  have confined' := confined r
    [.extracted .tiu tiu.size, .extracted .tdma tdma.size,
      .writeGmem (some chip.c.tiuCmdbufGaddr) tiu.out tiu.size,
      .writeGmem (some chip.c.tdmaCmdbufGaddr) tdma.out tdma.size] tiu.size tdma.size
  rw [trace] at done confined'
  simp only [List.foldlM_cons, List.foldlM_nil, perform, Option.bind_eq_bind, Option.bind_some,
    Option.bind_eq_some_iff, Option.pure_def] at done
  obtain ⟨dev₁, tiuWrite, dev₂, tdmaWrite, result⟩ := done
  cases result
  have tiuRoom := (writeGmem_eq_some.mp tiuWrite).1
  have tdmaRoom := (writeGmem_eq_some.mp tdmaWrite).1
  have size := layout.gmem
  have tiuArea := layout.tiu
  have tdmaArea := layout.tdma
  have tiuSize := sizeT_le tiuLow tiuFits (by omega)
  have tdmaSize := sizeT_le tdmaLow tdmaFits (by omega)
  have refines₁ := refines.writeReserved (by omega) tiuWrite
  have refines₂ := refines₁.writeReserved (by omega) tdmaWrite
  have mems : dev₂.mems = dev.mems := by
    rw [(writeGmem_eq_some.mp tdmaWrite).2, (writeGmem_eq_some.mp tiuWrite).2]
  have keeps := confined' dev₂ sends rfl (by simp [perform, tiuWrite, tdmaWrite])
  exact refines₂.ran (by rwa [Keeps, mems]) means

/-- What is loaded of an encoded buffer whose bytes are known. -/
theorem Refines.loadEncoded (refines : Refines chip place dev st) {fresh : Nat → UInt8}
    {sz : Nat} {neuronGaddr weightGaddr : UInt64} {enablePmu : Bool}
    (means : st.loadEncoded k chip.c fresh h sz neuronGaddr weightGaddr enablePmu = some st') :
    ∃ v, st.find h = some v ∧ Engine.tiu.SegmentsInside k (st.shown v) v.size ∧
      Engine.tdma.SegmentsInside k (st.shown v) v.size ∧
      rtLoadDmabuf k chip.c fresh (fun i => dev.gmem (place v.root + v.offset + i)) sz neuronGaddr
          weightGaddr enablePmu =
        rtLoadDmabuf k chip.c fresh (st.shown v) sz neuronGaddr weightGaddr enablePmu ∧
      (rtLoadDmabuf k chip.c fresh (st.shown v) sz neuronGaddr weightGaddr
        enablePmu).trace.foldlM Store.perform st = some st' := by
  obtain ⟨v, found, means⟩ := Option.bind_eq_some_iff.mp means
  split at means
  · rename_i both
    obtain ⟨all, tiu, tdma⟩ := both
    refine ⟨v, found, tiu, tdma, ?_, means⟩
    have same : ∀ i, i < v.size → dev.gmem (place v.root + v.offset + i) = st.shown v i := by
      intro i less
      obtain ⟨b, known⟩ := Option.isSome_iff_exists.mp (all i less)
      rw [refines.byte found less known, Store.shown, known, Option.getD_some]
    simp only [rtLoadDmabuf, tiu.extract_congr same, tdma.extract_congr same]
  · cases means

/-! ## Runs -/

/-- Every call that has a meaning in the store. -/
theorem Refines.step (refines : Refines chip place dev st) (layout : chip.Layout) {op : DeviceOp}
    (confined : Confined chip k regs dev op) (done : deviceStep chip k regs dev op = some dev')
    (means : st.step k regs chip.c op = some st') : ∃ place', Refines chip place' dev' st' := by
  cases op with
  | memAlloc size =>
    obtain ⟨place', later, -⟩ := refines.alloc done means
    exact ⟨place', later⟩
  | memPreAlloc mem offset size => exact ⟨place, refines.preAlloc done means⟩
  | memFree mem => exact ⟨place, (refines.free done means).1⟩
  | memCopyS2D dst src => exact ⟨place, refines.fill done means⟩
  | memCopyS2DEx dst offset len src =>
    obtain ⟨mem, cell, room, -, -, written⟩ := refines.put means
    rw [deviceStep, memCopyS2DEx, cell, Option.bind_eq_bind, Option.bind_some,
      if_neg (by omega)] at done
    exact ⟨place, written dev' done⟩
  | memWriteVAddr dst offset len src =>
    obtain ⟨mem, cell, -, same, -, written⟩ := refines.put means
    rw [deviceStep, memWriteVAddr, cell, Option.bind_eq_bind, Option.bind_some, same] at done
    exact ⟨place, written dev' done⟩
  | setBaseReg inx addr =>
    cases done
    cases means
    exact ⟨place, refines.withBaseRegs [(inx, addr)]⟩
  | loadCmdbuf fresh cmdbuf sz neuronGaddr weightGaddr enablePmu fuel =>
    obtain ⟨r, loads, done⟩ := Option.bind_eq_some_iff.mp done
    obtain ⟨r', loads', means⟩ := Option.bind_eq_some_iff.mp means
    cases loads.symm.trans loads'
    exact refines.performLoads (rtLoadCmdbuf_loads loads) (performAll_eq_some.mp done).2 means
  | loadDmabuf fresh dmabuf sz neuronGaddr weightGaddr enablePmu =>
    obtain ⟨mem, cell, done⟩ := Option.bind_eq_some_iff.mp done
    obtain ⟨v, found, -, -, same, means⟩ := refines.loadEncoded means
    cases (refines.view_bounds found).1.symm.trans cell
    rw [View.memory, same] at done
    exact refines.performLoads rtLoadDmabuf_loads (performAll_eq_some.mp done).2 means
  | runCmdbuf bases mem writes =>
    obtain ⟨dev₁, runs, later⟩ := refines.run layout confined means
    cases runs.symm.trans done
    exact ⟨place, later⟩
  | submit fresh cmdbuf sz fuel writes => exact ⟨place, refines.send layout confined done means⟩

theorem refines_run (layout : chip.Layout) {ops : List DeviceOp}
    (refines : Refines chip place dev st)
    (done : Run.run (deviceStep chip k regs) dev ops = some dev')
    (means : Run.run (Store.step k regs chip.c) st ops = some st')
    (confined : Run.Admits (deviceStep chip k regs) (Confined chip k regs) dev ops) :
    ∃ place', Refines chip place' dev' st' := by
  induction ops generalizing dev st place with
  | nil =>
    cases done
    cases means
    exact ⟨place, refines⟩
  | cons op ops ih =>
    obtain ⟨dev₁, first, done⟩ := Run.run_cons.mp done
    obtain ⟨st₁, first', means⟩ := Run.run_cons.mp means
    obtain ⟨place₁, refines₁⟩ := refines.step layout confined.1 first first'
    exact ih refines₁ done means (confined.2 dev₁ first)

/-- Calls that are confined in every state. -/
theorem admits_confined {ops : List DeviceOp}
    (all : ∀ op ∈ ops, ∀ dev, Confined chip k regs dev op) (dev : Device) :
    Run.Admits (deviceStep chip k regs) (Confined chip k regs) dev ops :=
  Run.Admits.of_forall (fun dev _ holds => holds dev) all

/-- The calls that need no new memory and check no command buffer. -/
def DeviceOp.InPlace : DeviceOp → Prop
  | .memAlloc _ => False
  | .loadCmdbuf _ _ _ _ _ _ _ => False
  | .loadDmabuf _ _ _ _ _ _ => False
  | .submit _ _ _ _ _ => False
  | _ => True

/-- No assertion fails and no address is out of range where the store gives a call a meaning. -/
theorem Refines.succeeds (refines : Refines chip place dev st) (layout : chip.Layout)
    {op : DeviceOp} (inPlace : op.InPlace) (means : st.step k regs chip.c op = some st') :
    ∃ dev', deviceStep chip k regs dev op = some dev' := by
  cases op with
  | memAlloc size => exact inPlace.elim
  | memPreAlloc mem offset size =>
    simp only [Store.step, Store.window] at means
    split at means
    · rename_i v found
      split at means
      · rename_i room
        obtain ⟨cell, -, high⟩ := refines.view_bounds found
        have range := chip.gmemSize.toNat_lt
        have sum : u64 (size + offset) = size + offset := u64_of_lt (by omega)
        rw [deviceStep, memPreAlloc, cell, Option.bind_eq_bind, Option.bind_some,
          if_neg (by simp only [View.memory, sum]; omega)]
        exact ⟨_, rfl⟩
      · cases means
    · cases means
  | memFree mem =>
    obtain ⟨v, cell, -⟩ := Option.map_eq_some_iff.mp means
    have held : dev.mems.cell mem = some (v.memory place mem) := by
      rw [refines.mem, cell, Option.map_some]
    rw [deviceStep, rtDeviceFree, held, Option.bind_eq_bind, Option.bind_some]
    by_cases block : v.root = mem
    · obtain ⟨slot, used, -, addr⟩ := refines.free_addr cell block
      have recorded := refines.pool.mapFind_eq used
      have rounded := refines.pool.rounded slot used
      rw [addr, if_neg (by simp [View.memory, block]), memPoolFree, recorded]
      simp [rounded]
    · rw [if_pos (by simp [View.memory, block])]
      exact ⟨_, rfl⟩
  | memCopyS2D dst src =>
    obtain ⟨v, found, -⟩ := Option.bind_eq_some_iff.mp means
    obtain ⟨cell, -, high⟩ := refines.view_bounds found
    rw [deviceStep, memCopyS2D, cell, Option.bind_eq_bind, Option.bind_some]
    exact ⟨_, writeGmem_eq_some.mpr ⟨high, rfl⟩⟩
  | memCopyS2DEx dst offset len src =>
    obtain ⟨mem, cell, room, -, inside, -⟩ := refines.put means
    rw [deviceStep, memCopyS2DEx, cell, Option.bind_eq_bind, Option.bind_some, if_neg (by omega)]
    exact ⟨_, writeGmem_eq_some.mpr ⟨inside, rfl⟩⟩
  | memWriteVAddr dst offset len src =>
    obtain ⟨mem, cell, -, same, inside, -⟩ := refines.put means
    rw [deviceStep, memWriteVAddr, cell, Option.bind_eq_bind, Option.bind_some, same]
    exact ⟨_, writeGmem_eq_some.mpr ⟨inside, rfl⟩⟩
  | setBaseReg inx addr => exact ⟨_, rfl⟩
  | loadCmdbuf fresh cmdbuf sz neuronGaddr weightGaddr enablePmu fuel => exact inPlace.elim
  | loadDmabuf fresh dmabuf sz neuronGaddr weightGaddr enablePmu => exact inPlace.elim
  | runCmdbuf bases mem writes =>
    obtain ⟨dev₁, tiuSz, tdmaSz, starts, -⟩ := refines.start layout means bases
    rw [deviceStep, runLoaded, starts]
    exact ⟨_, rfl⟩
  | submit fresh cmdbuf sz fuel writes => exact inPlace.elim

/-- The pool is in one piece when no buffer is left, and only then. -/
theorem Refines.close_iff (refines : Refines chip place dev st) (pos : 0 < chip.poolSize) :
    bmDeviceClose dev = true ↔ ∀ r, st.size r = none := by
  constructor
  · intro closes r
    cases live : st.size r with
    | none => rfl
    | some n =>
      obtain ⟨slot, used, -⟩ := refines.block r n live
      rw [bmDeviceClose, memPoolDestroy] at closes
      split at closes
      · cases closes
      · simp only [Bool.and_eq_true, List.isEmpty_iff] at closes
        rw [closes.1.2] at used
        cases used
  · intro none_
    have unused : dev.pool.pool.slotInUse = [] := by
      apply List.eq_nil_iff_forall_not_mem.mpr
      intro slot used
      obtain ⟨r, n, live, -⟩ := refines.owned slot used
      rw [none_ r] at live
      cases live
    have drained : SessionInv chip.poolSize ⟨dev.pool, []⟩ := {
      total := refines.total
      inv := refines.pool
      live := by
        rw [unused]
        exact List.Forall₂.nil }
    exact (drained.drained pos rfl).2

end

/-! ## A small chip -/

/-- A chip with 4096 bytes for either engine, whose descriptors leave the memory. -/
def smallChip : Chip where
  c := cmodelCmdbuf180x kernel1822 0 4096 4096 4096
  gmemSize := 65536
  runGmemCmdbuf _ gmem _ _ _ _ := gmem

theorem smallChip_layout : smallChip.Layout := ⟨by decide, by decide, by decide⟩

/-- Two buffers, a window into the first, writes to all three; the second is freed. -/
def windowOps : List DeviceOp :=
  [.memAlloc 100, .memAlloc 50, .memCopyS2D 0 fun _ => 1, .memPreAlloc 0 10 20,
    .memCopyS2DEx 2 4 3 fun i => UInt8.ofNat (i + 7), .memWriteVAddr 1 0 50 fun _ => 9, .memFree 1]

theorem confined_windowOps (dev : Device) : Run.Admits (deviceStep smallChip kernel1822 regs1822)
    (Confined smallChip kernel1822 regs1822) dev windowOps := by
  apply admits_confined
  simp [windowOps, Confined]

theorem windowOps_runs : ∃ dev₀ dev st,
    rtDeviceOpen smallChip (fun _ => 0) (fun _ => 0) = some dev₀ ∧
    Run.run (deviceStep smallChip kernel1822 regs1822) dev₀ windowOps = some dev ∧
    Run.run (Store.step kernel1822 regs1822 smallChip.c) Store.empty windowOps = some st ∧
    st.find 0 = some ⟨0, 0, 100⟩ ∧ st.bytes 0 15 = some 8 ∧ st.size 0 = some 100 := by
  obtain ⟨dev₀, opened⟩ : ∃ dev₀, rtDeviceOpen smallChip (fun _ => 0) (fun _ => 0) = some dev₀ :=
    ⟨_, if_pos (by decide)⟩
  have runs : ((rtDeviceOpen smallChip (fun _ => 0) (fun _ => 0)).bind fun dev₀ =>
      Run.run (deviceStep smallChip kernel1822 regs1822) dev₀ windowOps).isSome = true := by
    decide +kernel
  rw [opened, Option.bind_some] at runs
  obtain ⟨dev, done⟩ := Option.isSome_iff_exists.mp runs
  have known : (Run.run (Store.step kernel1822 regs1822 smallChip.c) Store.empty windowOps).map
      (fun st => (st.find 0, st.bytes 0 15, st.size 0)) =
        some (some ⟨0, 0, 100⟩, some 8, some 100) := by
    decide +kernel
  obtain ⟨st, means, both⟩ := Option.map_eq_some_iff.mp known
  simp only [Prod.mk.injEq] at both
  exact ⟨dev₀, dev, st, opened, done, means, both.1, both.2.1, both.2.2⟩

/-! ## From the opened device on -/

section

variable {chip : Chip} {k : KernelHeaders} {regs : RegFields} {gmem : Nat → UInt8}
  {baseReg : Nat → UInt64} {dev₀ dev : Device} {st st' : Store} {ops : List DeviceOp}

/-- Whatever a client that keeps to its buffers has done: a view that it can use lies behind the
    command area and inside the memory, and reading it gives all that the store knows of it. -/
theorem device_run_reads (layout : chip.Layout)
    (opened : rtDeviceOpen chip gmem baseReg = some dev₀)
    (done : Run.run (deviceStep chip k regs) dev₀ ops = some dev)
    (means : Run.run (Store.step k regs chip.c) Store.empty ops = some st)
    (confined : Run.Admits (deviceStep chip k regs) (Confined chip k regs) dev₀ ops)
    {h : Nat} {v : View} (found : st.find h = some v) :
    ∃ mem bytes, dev.mems.cell h = some mem ∧ mem.size = v.size ∧
      chip.gmemReservedSize ≤ mem.pAddr ∧ mem.pAddr + mem.size ≤ chip.gmemSize.toNat ∧
      memCopyD2S chip dev h = some bytes ∧ bytes.length = v.size ∧
      ∀ i b, i < v.size → st.bytes v.root (v.offset + i) = some b → bytes[i]? = some b := by
  obtain ⟨place, refines⟩ :=
    refines_run layout (refines_open opened fun _ => 0) done means confined
  obtain ⟨cell, low, high⟩ := refines.view_bounds found
  obtain ⟨bytes, reads, length, known⟩ := refines.read found
  exact ⟨_, bytes, cell, rfl, low, high, reads, length, known⟩

theorem device_run_reads_window : ∃ dev bytes,
    ((rtDeviceOpen smallChip (fun _ => 0) (fun _ => 0)).bind fun dev₀ =>
      Run.run (deviceStep smallChip kernel1822 regs1822) dev₀ windowOps) = some dev ∧
    memCopyD2S smallChip dev 0 = some bytes ∧ bytes[15]? = some 8 := by
  obtain ⟨dev₀, dev, st, opened, done, means, found, known, -⟩ := windowOps_runs
  obtain ⟨mem, bytes, -, -, -, -, reads, -, shows⟩ :=
    device_run_reads smallChip_layout opened done means (confined_windowOps dev₀) found
  refine ⟨dev, bytes, ?_, reads, shows 15 8 (by decide) known⟩
  rw [opened, Option.bind_some, done]

/-- And what it does next to its buffers, the device does without a failed assertion. -/
theorem device_run_succeeds (layout : chip.Layout)
    (opened : rtDeviceOpen chip gmem baseReg = some dev₀)
    (done : Run.run (deviceStep chip k regs) dev₀ ops = some dev)
    (means : Run.run (Store.step k regs chip.c) Store.empty ops = some st)
    (confined : Run.Admits (deviceStep chip k regs) (Confined chip k regs) dev₀ ops)
    {op : DeviceOp} (inPlace : op.InPlace) (next : st.step k regs chip.c op = some st') :
    ∃ dev', deviceStep chip k regs dev op = some dev' := by
  obtain ⟨place, refines⟩ :=
    refines_run layout (refines_open opened fun _ => 0) done means confined
  exact refines.succeeds layout inPlace next

theorem device_run_succeeds_window : ∃ dev dev',
    ((rtDeviceOpen smallChip (fun _ => 0) (fun _ => 0)).bind fun dev₀ =>
      Run.run (deviceStep smallChip kernel1822 regs1822) dev₀ windowOps) = some dev ∧
    deviceStep smallChip kernel1822 regs1822 dev (.memPreAlloc 0 96 4) = some dev' := by
  obtain ⟨dev₀, dev, st, opened, done, means, found, -, -⟩ := windowOps_runs
  obtain ⟨st', next⟩ : ∃ st', st.step kernel1822 regs1822 smallChip.c (.memPreAlloc 0 96 4) =
      some st' := by
    simp only [Store.step, Store.window]
    split
    · rename_i v here
      cases found.symm.trans here
      exact ⟨_, dif_pos (by decide)⟩
    · rename_i none_
      rw [found] at none_
      cases none_
  have inPlace : DeviceOp.InPlace (.memPreAlloc 0 96 4) := trivial
  obtain ⟨dev', works⟩ := device_run_succeeds smallChip_layout opened done means
    (confined_windowOps dev₀) inPlace next
  refine ⟨dev, dev', ?_, works⟩
  rw [opened, Option.bind_some, done]

/-- The device can be closed exactly when the client has freed all its buffers, in whatever
    order, and whatever windows it still holds. -/
theorem device_close_iff (layout : chip.Layout)
    (opened : rtDeviceOpen chip gmem baseReg = some dev₀)
    (done : Run.run (deviceStep chip k regs) dev₀ ops = some dev)
    (means : Run.run (Store.step k regs chip.c) Store.empty ops = some st)
    (confined : Run.Admits (deviceStep chip k regs) (Confined chip k regs) dev₀ ops) :
    bmDeviceClose dev = true ↔ ∀ r, st.size r = none := by
  obtain ⟨place, refines⟩ :=
    refines_run layout (refines_open opened fun _ => 0) done means confined
  apply refines.close_iff
  unfold rtDeviceOpen at opened
  split at opened
  · unfold Chip.poolSize
    omega
  · cases opened

theorem device_close_iff_window : ∃ dev,
    ((rtDeviceOpen smallChip (fun _ => 0) (fun _ => 0)).bind fun dev₀ =>
      Run.run (deviceStep smallChip kernel1822 regs1822) dev₀ windowOps) = some dev ∧
    ¬bmDeviceClose dev = true := by
  obtain ⟨dev₀, dev, st, opened, done, means, -, -, live⟩ := windowOps_runs
  refine ⟨dev, by rw [opened, Option.bind_some, done], ?_⟩
  rw [device_close_iff smallChip_layout opened done means (confined_windowOps dev₀)]
  intro freed
  rw [freed 0] at live
  cases live

end

end CviRuntime.CModel
