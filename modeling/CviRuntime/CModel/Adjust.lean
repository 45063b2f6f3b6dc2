import CviRuntime.CModel.Walk

/-!
# Adjusting a command buffer and picking out its descriptors

`adjust_cmdbuf` rewrites the bodies of the records and leaves their headers, so that the loops
after it meet the records that the loops before it met. `adjustedBody` is what becomes of a body.
-/

namespace CviRuntime.CModel

open ByteMem Dmabuf

section

variable (k : KernelHeaders)

/-- The body of the record at a position. -/
def bodyAt (m : Nat → UInt8) (off : Nat) : List UInt8 := (recAt k m off).body k m

/-- The first `n` bytes changed. -/
def front (n : Nat) (change : List UInt8 → List UInt8) (bytes : List UInt8) : List UInt8 :=
  change (bytes.take n) ++ bytes.drop n

/-- The records at these positions have their headers as before, and new bodies. -/
structure Rewritten (m m' : Nat → UInt8) (offs : List Nat) (f : Nat → List UInt8 → List UInt8) :
    Prop where
  heads : SameHeads k m m' offs
  bodies : ∀ off ∈ offs, bodyAt k m' off = f off (bodyAt k m off)

/-- The positions of the records for an engine. -/
def positions (m : Nat → UInt8) (engine : Nat) (offs : List Nat) : List Nat :=
  offs.filter fun off => (recAt k m off).engine = engine

/-- What `adjust_cmdbuf` makes of a body. -/
def adjustedBody (regs : RegFields) (m : Nat → UInt8) (offs : List Nat) (off : Nat)
    (bytes : List UInt8) : List UInt8 :=
  if (recAt k m off).engine = k.tiu then
    front regs.tiuDescRegBytes (reorderTiuCmdbufReg regs)
      (if (positions k m k.tiu offs).getLast? = some off then
        front k.bdRegBytes regs.tiuCmdIntrEn (front k.bdRegBytes regs.tiuCmdEnd bytes)
      else bytes)
  else if (recAt k m off).engine = k.tdma then
    front 4 (orBit · 4)
      (if (positions k m k.tdma offs).getLast? = some off then
        front 4 (orBit · 3) (front k.tdmaRegBytes regs.tdmaEod bytes)
      else bytes)
  else bytes

end

/-! ## One body -/

section

variable {k : KernelHeaders} {m m' m'' : Nat → UInt8} {sz start off p n : Nat} {offs : List Nat}
  {f g : Nat → List UInt8 → List UInt8} {change : List UInt8 → List UInt8}

theorem bodyAt_eq : bodyAt k m off = readBytes m (off + k.hdrBytes) (recAt k m off).len := rfl

theorem Rewritten.refl : Rewritten k m m offs fun _ bytes => bytes :=
  ⟨.refl, fun _ _ => rfl⟩

theorem Rewritten.trans (first : Rewritten k m m' offs f) (second : Rewritten k m' m'' offs g) :
    Rewritten k m m'' offs fun off bytes => g off (f off bytes) := by
  refine ⟨first.heads.trans second.heads, ?_⟩
  intro off member
  rw [second.bodies off member, first.bodies off member]

theorem Rewritten.congr (rewritten : Rewritten k m m' offs f)
    (same : ∀ off ∈ offs, ∀ bytes, f off bytes = g off bytes) : Rewritten k m m' offs g := by
  refine ⟨rewritten.heads, ?_⟩
  intro off member
  rw [rewritten.bodies off member, same off member]

theorem edit_outside (length : ∀ bytes, (change bytes).length = bytes.length) {a : Nat}
    (outside : a < off ∨ off + n ≤ a) : edit m off n change a = m a := by
  apply writeBytes_outside
  rw [length, length_readBytes]
  exact outside

/-- A block of which the first bytes have been changed. -/
theorem readBytes_edit (length : ∀ bytes, (change bytes).length = bytes.length) {total : Nat}
    (small : n ≤ total) :
    readBytes (edit m off n change) off total = front n change (readBytes m off total) := by
  obtain ⟨rest, rfl⟩ := Nat.exists_eq_add_of_le small
  have changed : readBytes (edit m off n change) off n = change (readBytes m off n) := by
    have block : (change (readBytes m off n)).length = n := by rw [length, length_readBytes]
    have written : readBytes (edit m off n change) off (change (readBytes m off n)).length =
        change (readBytes m off n) := readBytes_writeBytes
    rwa [block] at written
  have kept : readBytes (edit m off n change) (off + n) rest = readBytes m (off + n) rest := by
    apply readBytes_congr
    intro i _
    exact edit_outside length (by omega)
  rw [readBytes_add, readBytes_add, changed, kept, front,
    List.take_left' length_readBytes, List.drop_left' length_readBytes]

/-- Registers changed in the body of one record. -/
theorem Span.edit_rewritten (span : Span k m sz start offs) (member : p ∈ offs)
    (small : n ≤ (recAt k m p).len) (length : ∀ bytes, (change bytes).length = bytes.length) :
    Rewritten k m (edit m (p + k.hdrBytes) n change) offs fun off bytes =>
      if off = p then front n change bytes else bytes := by
  have heads : SameHeads k m (edit m (p + k.hdrBytes) n change) offs := by
    intro off member' a low high
    apply edit_outside length
    rcases Nat.lt_trichotomy off p with before | rfl | behind
    · have := span.apart member' member before
      rw [recAt_next] at this
      omega
    · omega
    · have := span.apart member member' behind
      rw [recAt_next] at this
      omega
  refine ⟨heads, ?_⟩
  intro off member'
  rw [bodyAt_eq, heads.len member', bodyAt_eq]
  rcases Nat.lt_trichotomy off p with before | rfl | behind
  · have := span.apart member' member before
    rw [recAt_next] at this
    rw [if_neg (by omega)]
    apply readBytes_congr
    intro i inside
    exact edit_outside length (by omega)
  · rw [if_pos rfl]
    exact readBytes_edit length small
  · have := span.apart member member' behind
    rw [recAt_next] at this
    rw [if_neg (by omega)]
    apply readBytes_congr
    intro i inside
    exact edit_outside length (by omega)

end

/-! ## The loops of `adjust_cmdbuf` -/

section

variable {k : KernelHeaders} {m m' : Nat → UInt8} {sz start off engine n : Nat}
  {offs todo : List Nat} {change : List UInt8 → List UInt8}

theorem positions_congr (same : SameHeads k m m' offs) :
    positions k m' engine offs = positions k m engine offs := by
  apply List.filter_congr
  intro off member
  rw [same.engine member]

theorem mem_positions :
    off ∈ positions k m engine offs ↔ off ∈ offs ∧ (recAt k m off).engine = engine := by
  simp [positions]

/-- The last record for an engine after one more. -/
theorem positions_cons_getLast? (old : Option Nat) :
    (positions k m engine offs).getLast?.or
        (if (recAt k m off).engine = engine then some off else old) =
      (positions k m engine (off :: offs)).getLast?.or old := by
  unfold positions
  by_cases same : (recAt k m off).engine = engine
  · rw [List.filter_cons_of_pos (by simpa using same), if_pos same, List.getLast?_cons]
    cases (List.filter _ offs).getLast? <;> rfl
  · rw [List.filter_cons_of_neg (by simpa using same), if_neg same]

theorem runBody_interrupt (lasts : Lasts) : runBody (interruptBody k m) offs lasts =
    .next ⟨(positions k m k.tiu offs).getLast?.or lasts.tiu,
      (positions k m k.tdma offs).getLast?.or lasts.tdma⟩ := by
  induction offs generalizing lasts with
  | nil => rfl
  | cons off offs ih =>
    rw [← positions_cons_getLast?, ← positions_cons_getLast?, runBody]
    have distinct := k.tiu_ne_tdma
    unfold interruptBody
    by_cases tdma : (recAt k m off).engine = k.tdma
    · simp only [tdma, distinct.symm, if_true, if_false]
      exact ih _
    · by_cases tiu : (recAt k m off).engine = k.tiu
      · simp only [tiu, distinct, if_true, if_false]
        exact ih _
      · simp only [tdma, tiu, if_false]
        exact ih _

/-- The loop of `set_eod` over known engines does what the one of `enable_interrupt` does. -/
theorem runBody_eod (known : ∀ off ∈ offs, (recAt k m off).Known k) (lasts : Lasts) :
    runBody (eodBody k m) offs lasts = runBody (interruptBody k m) offs lasts := by
  induction offs generalizing lasts with
  | nil => rfl
  | cons off offs ih =>
    obtain ⟨knownHere, knownRest⟩ := List.forall_mem_cons.mp known
    unfold runBody
    have same : eodBody k m off lasts = interruptBody k m off lasts := by
      unfold eodBody interruptBody
      rcases knownHere with tiu | tdma | cpu
      · simp only [tiu, k.tiu_ne_tdma, if_true, if_false]
      · simp only [tdma, if_true]
      · simp only [cpu, k.tdma_ne_cpu.symm, k.tiu_ne_cpu.symm, if_true, if_false]
    rw [same]
    cases interruptBody k m off lasts with
    | next lasts' => exact ih knownRest lasts'
    | leave lasts' => rfl
    | forever => rfl

/-- An engine that is not known holds the loop of `set_eod`. -/
theorem runBody_eod_unknown (unknown : ∃ off ∈ offs, ¬(recAt k m off).Known k) (lasts : Lasts) :
    runBody (eodBody k m) offs lasts = .forever := by
  induction offs generalizing lasts with
  | nil => simp at unknown
  | cons off offs ih =>
    unfold runBody
    by_cases known : (recAt k m off).Known k
    · have later : ∃ off ∈ offs, ¬(recAt k m off).Known k := by
        obtain ⟨p, member, bad⟩ := unknown
        rcases List.mem_cons.mp member with rfl | inRest
        · exact absurd known bad
        · exact ⟨p, inRest, bad⟩
      unfold eodBody
      rcases known with tiu | tdma | cpu
      · simp only [tiu, k.tiu_ne_tdma, if_true, if_false]
        exact ih later _
      · simp only [tdma, if_true]
        exact ih later _
      · simp only [cpu, k.tdma_ne_cpu.symm, k.tiu_ne_cpu.symm, if_true, if_false]
        exact ih later _
    · have stuck : eodBody k m off lasts = .forever := by
        unfold eodBody
        rw [Rec.Known, not_or, not_or] at known
        simp only [known.1, known.2.1, known.2.2, if_false]
      rw [stuck]

/-- The registers of the last record for an engine changed, when there is one. -/
theorem Span.editLast_rewritten (span : Span k m sz start offs) (engine n : Nat)
    (small : ∀ off ∈ offs, (recAt k m off).engine = engine → n ≤ (recAt k m off).len)
    (length : ∀ bytes, (change bytes).length = bytes.length) :
    Rewritten k m
      ((positions k m engine offs).getLast?.elim m fun off => edit m (off + k.hdrBytes) n change)
      offs fun off bytes =>
        if (positions k m engine offs).getLast? = some off then front n change bytes
        else bytes := by
  cases last : (positions k m engine offs).getLast? with
  | none => exact Rewritten.refl.congr (by simp)
  | some p =>
    obtain ⟨member, isEngine⟩ := mem_positions.mp (List.mem_of_getLast? last)
    refine (span.edit_rewritten member (small p member isEngine) length).congr ?_
    intro off _ bytes
    simp only [Option.some.injEq, eq_comm]

theorem local_editBody (small : ∀ r, Room k r → r.engine = engine → n ≤ r.len)
    (length : ∀ bytes, (change bytes).length = bytes.length) :
    Local k id (editBody k engine n change) := by
  intro off m m' room runs a outside
  unfold editBody at runs
  split_ifs at runs with isEngine
  · obtain rfl := Flow.next.inj runs
    have inside := small _ room isEngine
    apply edit_outside length
    rw [recAt_next] at outside
    simp only [id] at outside inside
    omega
  · obtain rfl := Flow.next.inj runs
    rfl

theorem runBody_edit (span : Span k m sz start offs) (part : ∀ off ∈ todo, off ∈ offs)
    (once : todo.Nodup) (small : ∀ r, Room k r → r.engine = engine → n ≤ r.len)
    (length : ∀ bytes, (change bytes).length = bytes.length) :
    ∃ m', runBody (editBody k engine n change) todo m = .next m' ∧
      Rewritten k m m' offs fun off bytes =>
        if off ∈ todo ∧ (recAt k m off).engine = engine then front n change bytes
        else bytes := by
  induction todo generalizing m with
  | nil => exact ⟨m, rfl, Rewritten.refl.congr (by simp)⟩
  | cons p todo ih =>
    obtain ⟨member, partRest⟩ := List.forall_mem_cons.mp part
    obtain ⟨fresh, onceRest⟩ := List.nodup_cons.mp once
    unfold runBody editBody
    by_cases isEngine : (recAt k m p).engine = engine
    · have first : Rewritten k m (edit m (p + k.hdrBytes) n change) offs fun off bytes =>
          if off = p then front n change bytes else bytes :=
        span.edit_rewritten member (small _ (span.room p member) isEngine) length
      obtain ⟨m', runs, rest⟩ := ih (span.congr first.heads) partRest onceRest
      refine ⟨m', by simp only [isEngine, if_true]; exact runs, (first.trans rest).congr ?_⟩
      intro off inOffs bytes
      rw [first.heads.engine inOffs]
      by_cases here : off = p
      · subst here
        simp [fresh, isEngine]
      · simp [here]
    · obtain ⟨m', runs, rest⟩ := ih span partRest onceRest
      refine ⟨m', by simp only [isEngine, if_false]; exact runs, rest.congr ?_⟩
      intro off _ bytes
      by_cases here : off = p
      · subst here
        simp [isEngine]
      · simp [here]

/-- The registers of every record for an engine changed. -/
theorem Span.editEach_rewritten (span : Span k m sz 0 offs) (word : sz < 2 ^ 32) (engine n : Nat)
    (small : ∀ r, Room k r → r.engine = engine → n ≤ r.len)
    (length : ∀ bytes, (change bytes).length = bytes.length) :
    ∃ m', (∀ fuel, offs.length < fuel →
        eachRecord k sz id (editBody k engine n change) fuel 0 m = some m') ∧
      Rewritten k m m' offs fun off bytes =>
        if (recAt k m off).engine = engine then front n change bytes else bytes := by
  obtain ⟨m', runs, rewritten⟩ := runBody_edit span (fun _ member => member) span.nodup small length
  refine ⟨m', ?_, rewritten.congr ?_⟩
  · intro fuel enough
    rw [eachRecord_span span word (local_editBody small length) enough, runs]
    rfl
  · intro off member bytes
    simp only [member, true_and]

/-- `set_eod` and `enable_interrupt` change the last records. -/
theorem Span.editLasts_rewritten {tiuChange tdmaChange : List UInt8 → List UInt8} {tdmaBytes : Nat}
    (span : Span k m sz start offs)
    (small : ∀ r, Room k r → r.engine = k.tdma → tdmaBytes ≤ r.len)
    (tiuLength : ∀ bytes, (tiuChange bytes).length = bytes.length)
    (tdmaLength : ∀ bytes, (tdmaChange bytes).length = bytes.length) :
    Rewritten k m (editLasts k m ⟨(positions k m k.tiu offs).getLast?,
        (positions k m k.tdma offs).getLast?⟩ tiuChange tdmaBytes tdmaChange) offs
      fun off bytes =>
        if (positions k m k.tdma offs).getLast? = some off then front tdmaBytes tdmaChange bytes
        else if (positions k m k.tiu offs).getLast? = some off then
          front k.bdRegBytes tiuChange bytes
        else bytes := by
  have first := span.editLast_rewritten k.tiu k.bdRegBytes
    (fun off member => (span.room off member).1) tiuLength
  have spanNext := span.congr first.heads
  have second := spanNext.editLast_rewritten k.tdma tdmaBytes
    (fun off member => small _ (spanNext.room off member)) tdmaLength
  rw [positions_congr first.heads] at second
  refine (first.trans second).congr ?_
  intro off _ bytes
  -- a record is not the last one of both engines
  by_cases tdma : (positions k m k.tdma offs).getLast? = some off
  · have notTiu : ¬(positions k m k.tiu offs).getLast? = some off := by
      intro tiu
      apply k.tiu_ne_tdma
      rw [← (mem_positions.mp (List.mem_of_getLast? tiu)).2,
        (mem_positions.mp (List.mem_of_getLast? tdma)).2]
    simp only [tdma, notTiu, if_true, if_false]
  · simp only [tdma, if_false]

theorem length_orBit (bytes : List UInt8) (bit : Nat) :
    (orBit bytes bit).length = bytes.length := by
  simp [orBit]

theorem length_reorderTiuCmdbufReg (regs : RegFields) (bytes : List UInt8) :
    (reorderTiuCmdbufReg regs bytes).length = bytes.length := by
  simp [reorderTiuCmdbufReg]

/-- The simulator and the driver reorder alike when their headers agree on the size of a TIU
    descriptor. -/
theorem reorderTiuCmdbufReg_eq {regs : RegFields} (desc : regs.tiuDescRegBytes = k.bdRegBytes)
    (bytes : List UInt8) : reorderTiuCmdbufReg regs bytes = reorderBdCmdbufReg k bytes := by
  rw [reorderTiuCmdbufReg, reorderBdCmdbufReg, desc]

/-- The fields of the registers in the setting of `kernel1822`. -/
def regs1822 : RegFields where
  tiuDescLines := 7
  tiuCmdEnd bytes := orBit bytes 1
  tiuCmdIntrEn bytes := orBit bytes 35
  tdmaEod bytes := orBit bytes 2
  tiuCmdEnd_length := by simp [orBit]
  tiuCmdIntrEn_length := by simp [orBit]
  tdmaEod_length := by simp [orBit]

theorem Span.setEod_rewritten (span : Span k m sz 0 offs) (regs : RegFields)
    (word : sz < 2 ^ 32) (known : ∀ off ∈ offs, (recAt k m off).Known k) :
    ∃ m', (∀ fuel, offs.length < fuel → setEod k regs m sz fuel = some m') ∧
      Rewritten k m m' offs fun off bytes =>
        if (positions k m k.tdma offs).getLast? = some off then
          front k.tdmaRegBytes regs.tdmaEod bytes
        else if (positions k m k.tiu offs).getLast? = some off then
          front k.bdRegBytes regs.tiuCmdEnd bytes
        else bytes := by
  refine ⟨_, ?_, span.editLasts_rewritten (fun r room tdma => (room.2 tdma).1)
    regs.tiuCmdEnd_length regs.tdmaEod_length⟩
  intro fuel enough
  rw [setEod, eachRecord_span span word (local_const k m _) enough, runBody_eod known,
    runBody_interrupt, Option.or_none, Option.or_none]
  rfl

theorem Span.enableInterrupt_rewritten (span : Span k m sz 0 offs) (regs : RegFields)
    (word : sz < 2 ^ 32) :
    ∃ m', (∀ fuel, offs.length < fuel → enableInterrupt k regs m sz fuel = some m') ∧
      Rewritten k m m' offs fun off bytes =>
        if (positions k m k.tdma offs).getLast? = some off then front 4 (orBit · 3) bytes
        else if (positions k m k.tiu offs).getLast? = some off then
          front k.bdRegBytes regs.tiuCmdIntrEn bytes
        else bytes := by
  refine ⟨_, ?_, span.editLasts_rewritten (fun r room tdma => (room.2 tdma).2)
    regs.tiuCmdIntrEn_length (length_orBit · 3)⟩
  intro fuel enough
  rw [enableInterrupt, eachRecord_span span word (local_const k m _) enough, runBody_interrupt,
    Option.or_none, Option.or_none]
  rfl

/-- What `adjust_cmdbuf` does to a buffer of known engines that 32 bits can count. -/
theorem Span.adjustCmdbuf_rewritten (span : Span k m sz 0 offs) {regs : RegFields}
    (desc : regs.tiuDescRegBytes = k.bdRegBytes) (word : sz < 2 ^ 32)
    (known : ∀ off ∈ offs, (recAt k m off).Known k) :
    ∃ m', (∀ fuel, offs.length < fuel → adjustCmdbuf k regs m sz fuel = some m') ∧
      Rewritten k m m' offs (adjustedBody k regs m offs) := by
  obtain ⟨m₁, eod, rewritten₁⟩ := span.setEod_rewritten regs word known
  have span₁ := span.congr rewritten₁.heads
  obtain ⟨m₂, interrupt, rewritten₂⟩ := span₁.enableInterrupt_rewritten regs word
  have heads₂ := rewritten₁.heads.trans rewritten₂.heads
  obtain ⟨m₃, barrier, rewritten₃⟩ := (span.congr heads₂).editEach_rewritten word k.tdma 4
    (fun r room tdma => (room.2 tdma).2) (length_orBit · 4)
  have heads₃ := heads₂.trans rewritten₃.heads
  obtain ⟨m₄, reorder, rewritten₄⟩ := (span.congr heads₃).editEach_rewritten word k.tiu
    regs.tiuDescRegBytes (fun r room tiu => desc ▸ room.1 tiu) (length_reorderTiuCmdbufReg regs)
  refine ⟨m₄, ?_, (((rewritten₁.trans rewritten₂).trans rewritten₃).trans rewritten₄).congr ?_⟩
  · intro fuel enough
    simp only [adjustCmdbuf, eod fuel enough, interrupt fuel enough, enableTdmaCmdbufBarrier,
      barrier fuel enough, Option.bind_eq_bind, Option.bind_some]
    exact reorder fuel enough
  · intro off member bytes
    rw [positions_congr rewritten₁.heads, positions_congr rewritten₁.heads, heads₂.engine member,
      heads₃.engine member]
    unfold adjustedBody
    have lastEngine {e : Nat} (last : (positions k m e offs).getLast? = some off) :
        (recAt k m off).engine = e := (mem_positions.mp (List.mem_of_getLast? last)).2
    by_cases tiu : (recAt k m off).engine = k.tiu
    · have notTdma : ¬(positions k m k.tdma offs).getLast? = some off := fun last =>
        k.tiu_ne_tdma (tiu.symm.trans (lastEngine last))
      simp only [tiu, k.tiu_ne_tdma, notTdma, if_true, if_false]
      split_ifs <;> rfl
    · have notTiu : ¬(positions k m k.tiu offs).getLast? = some off := fun last =>
        tiu (lastEngine last)
      by_cases tdma : (recAt k m off).engine = k.tdma
      · simp only [tdma, notTiu, k.tiu_ne_tdma.symm, if_true, if_false]
        split_ifs <;> rfl
      · have notTdma : ¬(positions k m k.tdma offs).getLast? = some off := fun last =>
          tdma (lastEngine last)
        simp only [tiu, tdma, notTiu, notTdma, if_false]

end

/-! ## The extraction -/

section

variable {k : KernelHeaders} {m out : Nat → UInt8} {hdrMagic : Nat} {engine : Engine} {base : Int}
  {offs : List Nat} {found : Found}

/-- The bodies of the records for an engine, one after the other. -/
def stream (k : KernelHeaders) (m : Nat → UInt8) (engine : Engine) (offs : List Nat) :
    List UInt8 :=
  (positions k m (engine.id k) offs).flatMap (bodyAt k m)

theorem int32_of_small {n : Nat} (small : n < 2 ^ 31) : int32 n = n := by
  unfold int32
  apply Int.bmod_eq_of_le <;> omega

theorem int32_int32_add (x y : Int) : int32 (int32 x + y) = int32 (x + y) :=
  Int.bmod_add_bmod

/-- A size short of 4 GiB by a byte is not taken for a failure. -/
theorem int32_ne_neg_one {n : Nat} (small : n + 1 < 2 ^ 32) : int32 n ≠ -1 := by
  unfold int32
  rw [Int.bmod_def]
  split_ifs <;> omega

theorem stream_cons_self {off : Nat} (same : (recAt k m off).engine = engine.id k) :
    stream k m engine (off :: offs) = bodyAt k m off ++ stream k m engine offs := by
  unfold stream positions
  rw [List.filter_cons_of_pos (by simpa using same), List.flatMap_cons]

theorem stream_cons_other {off : Nat} (other : ¬(recAt k m off).engine = engine.id k) :
    stream k m engine (off :: offs) = stream k m engine offs := by
  unfold stream positions
  rw [List.filter_cons_of_neg (by simpa using other)]

/-- The bodies and the headers lie inside the buffer. -/
theorem Span.stream_length {sz start : Nat} (span : Span k m sz start offs) (engine : Engine) :
    (stream k m engine offs).length + offs.length * k.hdrBytes ≤ sz - start := by
  induction span with
  | nil => simp [stream, positions]
  | @cons off offs _ rest ih =>
    have before := rest.le
    rw [recAt_next] at before ih
    rw [List.length_cons, Nat.succ_mul]
    by_cases same : (recAt k m off).engine = engine.id k
    · rw [stream_cons_self same, List.length_append, bodyAt_eq, length_readBytes]
      omega
    · rw [stream_cons_other same]
      omega

theorem Found.append_small {n at' : Nat} {bytes : List UInt8}
    (small : n + bytes.length < 2 ^ 31) :
    Found.append ⟨n, out⟩ at' bytes =
      ⟨(n + bytes.length : Nat), writeBytes out (at' + n) bytes⟩ := by
  rw [Found.append, ← Int.natCast_add, ← Int.natCast_add, int32_of_small small, Int.toNat_natCast]

theorem extractBody_self {off : Nat} (good : magicAt k m off = hdrMagic)
    (same : (recAt k m off).engine = engine.id k) :
    extractBody k hdrMagic engine m base off found =
      .next (found.append base (bodyAt k m off)) := by
  rw [extractBody, if_neg (not_not.mpr good), if_pos same]
  rfl

theorem extractBody_other {off : Nat} (good : magicAt k m off = hdrMagic)
    (other : ¬(recAt k m off).engine = engine.id k) :
    extractBody k hdrMagic engine m base off found = .next found := by
  rw [extractBody, if_neg (not_not.mpr good), if_neg other]

/-- The size that the extraction counts, in an `int`. -/
theorem runBody_extract_size (good : ∀ off ∈ offs, magicAt k m off = hdrMagic) {n : Nat}
    (size : found.size = int32 n) :
    ∃ out, runBody (extractBody k hdrMagic engine m base) offs found =
      .next ⟨int32 (n + (stream k m engine offs).length : Nat), out⟩ := by
  induction offs generalizing found n with
  | nil => exact ⟨found.out, by rw [runBody]; simp [stream, positions, ← size]⟩
  | cons off offs ih =>
    obtain ⟨goodHere, goodRest⟩ := List.forall_mem_cons.mp good
    rw [runBody]
    by_cases same : (recAt k m off).engine = engine.id k
    · rw [extractBody_self goodHere same, stream_cons_self same, List.length_append,
        ← Nat.add_assoc]
      apply ih goodRest
      rw [Found.append, size, int32_int32_add, Int.natCast_add]
    · rw [extractBody_other goodHere same, stream_cons_other same]
      exact ih goodRest size

/-- What the extraction copies, when an `int` holds its size. -/
theorem runBody_extract (good : ∀ off ∈ offs, magicAt k m off = hdrMagic) {at' n : Nat}
    (small : n + (stream k m engine offs).length < 2 ^ 31) :
    runBody (extractBody k hdrMagic engine m at') offs ⟨n, out⟩ =
      .next ⟨(n + (stream k m engine offs).length : Nat),
        writeBytes out (at' + n) (stream k m engine offs)⟩ := by
  induction offs generalizing n out with
  | nil =>
    have none : writeBytes out (at' + n) [] = out := by
      funext a
      exact writeBytes_outside (by simp; omega)
    rw [runBody]
    simp [stream, positions, none]
  | cons off offs ih =>
    obtain ⟨goodHere, goodRest⟩ := List.forall_mem_cons.mp good
    rw [runBody]
    by_cases same : (recAt k m off).engine = engine.id k
    · rw [stream_cons_self same, List.length_append, ← Nat.add_assoc] at small ⊢
      rw [extractBody_self goodHere same, Found.append_small (by omega)]
      simp only
      rw [ih goodRest small, ← Nat.add_assoc, writeBytes_append]
    · rw [stream_cons_other same] at small ⊢
      rw [extractBody_other goodHere same]
      exact ih goodRest small

/-- A wrong magic number ends the extraction, for either engine. -/
theorem runBody_extract_bad (bad : ∃ off ∈ offs, magicAt k m off ≠ hdrMagic) :
    ∃ out, runBody (extractBody k hdrMagic engine m base) offs found = .leave ⟨-1, out⟩ := by
  induction offs generalizing found with
  | nil => simp at bad
  | cons off offs ih =>
    rw [runBody]
    by_cases wrong : magicAt k m off ≠ hdrMagic
    · rw [extractBody, if_pos wrong]
      exact ⟨found.out, rfl⟩
    · have later : ∃ off ∈ offs, magicAt k m off ≠ hdrMagic := by
        obtain ⟨p, member, badHere⟩ := bad
        rcases List.mem_cons.mp member with rfl | inRest
        · exact absurd badHere wrong
        · exact ⟨p, inRest, badHere⟩
      by_cases same : (recAt k m off).engine = engine.id k
      · rw [extractBody_self (not_not.mp wrong) same]
        exact ih later
      · rw [extractBody_other (not_not.mp wrong) same]
        exact ih later

end

end CviRuntime.CModel
