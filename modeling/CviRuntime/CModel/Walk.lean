import CviRuntime.CModel.Cmdbuf

/-!
# The simulator's loops over the records

`Span` says that the records of a buffer lie one after the other up to its end, whatever their
magic numbers and engines. A loop over such a buffer runs its body once for each record, as long
as the body changes nothing but the record it is at, and as long as the counter of 32 bits can
reach the end; in a longer buffer no loop ends.
-/

namespace CviRuntime.CModel

open ByteMem Dmabuf

section

variable (k : KernelHeaders)

/-- A record for an engine holds its registers. -/
def Room (r : Rec) : Prop :=
  (r.engine = k.tiu → k.bdRegBytes ≤ r.len) ∧
    (r.engine = k.tdma → k.tdmaRegBytes ≤ r.len ∧ 4 ≤ r.len)

instance (r : Rec) : Decidable (Room k r) :=
  inferInstanceAs (Decidable ((r.engine = k.tiu → k.bdRegBytes ≤ r.len) ∧
    (r.engine = k.tdma → k.tdmaRegBytes ≤ r.len ∧ 4 ≤ r.len)))

/-- The positions of the records from `off` up to the end of the buffer. -/
inductive Span (m : Nat → UInt8) (sz : Nat) : Nat → List Nat → Prop
  | nil : Span m sz sz []
  | cons {off : Nat} {offs : List Nat} (room : Room k (recAt k m off))
      (rest : Span m sz ((recAt k m off).next k) offs) : Span m sz off (off :: offs)

/-- The headers of the records are the same in both memories. -/
def SameHeads (m m' : Nat → UInt8) (offs : List Nat) : Prop :=
  ∀ off ∈ offs, ∀ a, off ≤ a → a < off + k.hdrBytes → m' a = m a

/-- The bodies of a loop run for these positions. -/
def runBody {σ : Type} (body : Nat → σ → Flow σ) : List Nat → σ → Flow σ
  | [], st => .next st
  | off :: offs, st =>
    match body off st with
    | .next st' => runBody body offs st'
    | .leave st' => .leave st'
    | .forever => .forever

/-- What a loop has for its result when its bodies ended so. -/
def Flow.result {σ : Type} : Flow σ → Option σ
  | .next st => some st
  | .leave st => some st
  | .forever => none

@[simp] theorem Flow.result_next {σ : Type} (st : σ) : (Flow.next st).result = some st := rfl

@[simp] theorem Flow.result_leave {σ : Type} (st : σ) : (Flow.leave st).result = some st := rfl

end

section

variable {k : KernelHeaders} {m m' : Nat → UInt8} {sz off a : Nat} {offs : List Nat}

theorem recAt_next : (recAt k m off).next k = off + (recAt k m off).len + k.hdrBytes := rfl

theorem Span.le (span : Span k m sz off offs) : off ≤ sz := by
  induction span with
  | nil => exact Nat.le_refl _
  | @cons off offs _ _ ih =>
    rw [recAt_next] at ih
    omega

/-- The records that follow a position lie behind it. -/
theorem Span.mem_le (span : Span k m sz off offs) : ∀ p ∈ offs, off ≤ p := by
  induction span with
  | nil => simp
  | @cons off offs _ _ ih =>
    rw [List.forall_mem_cons]
    refine ⟨Nat.le_refl off, ?_⟩
    intro p member
    have later := ih p member
    rw [recAt_next] at later
    omega

theorem Span.nil_iff (span : Span k m sz off offs) : offs = [] ↔ off = sz := by
  cases span with
  | nil => simp
  | cons _ rest =>
    have before := rest.le
    have := k.hdr_pos
    rw [recAt_next] at before
    simp only [reduceCtorEq, false_iff]
    omega

theorem Span.length_le (span : Span k m sz off offs) : offs.length ≤ sz - off := by
  induction span with
  | nil => simp
  | @cons off offs _ rest ih =>
    have before := rest.le
    have := k.hdr_pos
    rw [recAt_next] at before ih
    rw [List.length_cons]
    omega

/-- Of two records one lies behind the other. -/
theorem Span.apart (span : Span k m sz off offs) {p q : Nat} (memberP : p ∈ offs)
    (memberQ : q ∈ offs) (before : p < q) : (recAt k m p).next k ≤ q := by
  induction span with
  | nil => simp at memberP
  | @cons off offs _ rest ih =>
    rcases List.mem_cons.mp memberQ with rfl | laterQ
    · rcases List.mem_cons.mp memberP with rfl | laterP
      · omega
      · have := rest.mem_le p laterP
        rw [recAt_next] at this
        omega
    · rcases List.mem_cons.mp memberP with rfl | laterP
      · exact rest.mem_le q laterQ
      · exact ih laterP laterQ

theorem Span.nodup (span : Span k m sz off offs) : offs.Nodup := by
  induction span with
  | nil => exact List.nodup_nil
  | @cons off offs _ rest ih =>
    refine List.nodup_cons.mpr ⟨?_, ih⟩
    intro member
    have later := rest.mem_le off member
    have := k.hdr_pos
    rw [recAt_next] at later
    omega

theorem Span.room (span : Span k m sz off offs) : ∀ p ∈ offs, Room k (recAt k m p) := by
  induction span with
  | nil => simp
  | cons room _ ih => exact List.forall_mem_cons.mpr ⟨room, ih⟩

theorem SameHeads.refl : SameHeads k m m offs := fun _ _ _ _ _ => rfl

theorem SameHeads.trans {m'' : Nat → UInt8} (first : SameHeads k m m' offs)
    (second : SameHeads k m' m'' offs) : SameHeads k m m'' offs := by
  intro off member a low high
  rw [second off member a low high, first off member a low high]

theorem SameHeads.tail (same : SameHeads k m m' (off :: offs)) : SameHeads k m m' offs :=
  fun p member => same p (List.mem_cons_of_mem _ member)

/-- A field of a header that is the same. -/
theorem SameHeads.field (same : SameHeads k m m' offs) (member : off ∈ offs) {p n : Nat}
    (inside : p + n ≤ k.hdrBytes) : readBytes m' (off + p) n = readBytes m (off + p) n := by
  apply readBytes_congr
  intro i small
  exact same off member _ (by omega) (by omega)

theorem SameHeads.magic (same : SameHeads k m m' offs) (member : off ∈ offs) :
    magicAt k m' off = magicAt k m off := by
  unfold magicAt
  rw [same.field member k.magic_inside]

theorem SameHeads.engine (same : SameHeads k m m' offs) (member : off ∈ offs) :
    (recAt k m' off).engine = (recAt k m off).engine := by
  simp only [recAt]
  rw [same.field member k.engine_inside]

theorem SameHeads.len (same : SameHeads k m m' offs) (member : off ∈ offs) :
    (recAt k m' off).len = (recAt k m off).len := by
  simp only [recAt]
  rw [same.field member k.len_inside]

theorem SameHeads.next (same : SameHeads k m m' offs) (member : off ∈ offs) :
    (recAt k m' off).next k = (recAt k m off).next k := by
  rw [recAt_next, recAt_next, same.len member]

theorem Span.congr (span : Span k m sz off offs) (same : SameHeads k m m' offs) :
    Span k m' sz off offs := by
  induction span with
  | nil => exact .nil
  | @cons off offs room rest ih =>
    have member : off ∈ off :: offs := List.mem_cons_self
    refine .cons ?_ ?_
    · unfold Room
      rw [same.engine member, same.len member]
      exact room
    · rw [same.next member]
      exact ih same.tail

/-- A change inside the body of the record at hand leaves the headers. -/
theorem Span.sameHeads_of_body (span : Span k m sz off (off :: offs))
    (inside : ∀ a, a < off + k.hdrBytes ∨ (recAt k m off).next k ≤ a → m' a = m a) :
    SameHeads k m m' (off :: offs) := by
  cases span with
  | cons _ rest =>
    intro p member a low high
    apply inside
    rcases List.mem_cons.mp member with rfl | later
    · exact Or.inl high
    · have := rest.mem_le p later
      omega

end

/-! ## Loops -/

section

variable {σ : Type} {k : KernelHeaders} {m : Nat → UInt8} {sz off fuel : Nat} {offs : List Nat}
  {memory : σ → Nat → UInt8} {body : Nat → σ → Flow σ} {st : σ}

/-- A loop that has ended has ended for any larger number of rounds. -/
theorem eachRecord_mono {fuel' : Nat} {result : σ}
    (runs : eachRecord k sz memory body fuel off st = some result) (more : fuel ≤ fuel') :
    eachRecord k sz memory body fuel' off st = some result := by
  induction fuel generalizing fuel' off st with
  | zero => simp [eachRecord] at runs
  | succ fuel ih =>
    obtain ⟨fuel', rfl⟩ : ∃ n, fuel' = n + 1 := ⟨fuel' - 1, by omega⟩
    unfold eachRecord at runs ⊢
    split_ifs at runs ⊢
    · cases ends : body off st with
      | next st' =>
        simp only [ends] at runs ⊢
        exact ih runs (by omega)
      | leave st' =>
        simp only [ends] at runs ⊢
        exact runs
      | forever => simp [ends] at runs
    · exact runs

/-- In a buffer of 4 GiB or more the counter stays below the end, and a loop that goes through
    all records does not end. -/
theorem eachRecord_long (long : 2 ^ 32 ≤ sz) (start : off < 2 ^ 32)
    (stays : ∀ i st st', body i st ≠ .leave st') :
    eachRecord k sz memory body fuel off st = none := by
  induction fuel generalizing off st with
  | zero => rfl
  | succ fuel ih =>
    unfold eachRecord
    rw [if_pos (by omega)]
    cases ends : body off st with
    | next st' => exact ih (Nat.mod_lt _ (Nat.two_pow_pos 32))
    | leave st' => exact absurd ends (stays off st st')
    | forever => rfl

/-- The body of a loop changes the record that it is at, and of that the body only. -/
def Local (k : KernelHeaders) (memory : σ → Nat → UInt8) (body : Nat → σ → Flow σ) : Prop :=
  ∀ off st st', Room k (recAt k (memory st) off) → body off st = .next st' →
    ∀ a, a < off + k.hdrBytes ∨ (recAt k (memory st) off).next k ≤ a →
      memory st' a = memory st a

theorem local_const (k : KernelHeaders) (m : Nat → UInt8) (body : Nat → σ → Flow σ) :
    Local k (fun _ => m) body := fun _ _ _ _ _ _ _ => rfl

/-- A loop runs its body for each record. -/
theorem eachRecord_span (span : Span k (memory st) sz off offs) (word : sz < 2 ^ 32)
    (stays : Local k memory body) (enough : offs.length < fuel) :
    eachRecord k sz memory body fuel off st = (runBody body offs st).result := by
  induction offs generalizing off st fuel with
  | nil =>
    obtain ⟨fuel, rfl⟩ : ∃ n, fuel = n + 1 := ⟨fuel - 1, by omega⟩
    have ended := span.nil_iff.mp rfl
    unfold eachRecord
    rw [if_neg (by omega)]
    rfl
  | cons p offs ih =>
    rw [List.length_cons] at enough
    obtain ⟨fuel, rfl⟩ : ∃ n, fuel = n + 1 := ⟨fuel - 1, by omega⟩
    have whole := span
    cases span with
    | cons room rest =>
      have before := rest.le
      have := k.hdr_pos
      unfold eachRecord runBody
      rw [if_pos (by rw [recAt_next] at before; omega)]
      cases ends : body p st with
      | next st' =>
        have same := whole.sameHeads_of_body (stays p st st' room ends)
        have next := same.next List.mem_cons_self
        simp only
        rw [next, Nat.mod_eq_of_lt (by omega)]
        exact ih (rest.congr same.tail) (by omega)
      | leave st' => rfl
      | forever => rfl


end

/-! ## The rows of the encoder -/

section

variable {k : KernelHeaders} {cmdbuf : Nat → UInt8} {sz off : Nat} {recs : List Rec}

/-- The records that the encoder takes are met by the simulator as well. -/
theorem span_of_row (row : Row k cmdbuf sz off recs) (room : ∀ r ∈ recs, Room k r) :
    Span k cmdbuf sz off (recs.map Rec.off) := by
  induction row with
  | nil => exact .nil
  | cons _ _ _ ih =>
    obtain ⟨roomHere, roomRest⟩ := List.forall_mem_cons.mp room
    exact .cons roomHere (ih roomRest)

theorem row_recAt (row : Row k cmdbuf sz off recs) : ∀ r ∈ recs, recAt k cmdbuf r.off = r := by
  induction row with
  | nil => simp
  | cons _ _ _ ih => exact List.forall_mem_cons.mpr ⟨rfl, ih⟩

theorem row_known (row : Row k cmdbuf sz off recs) :
    ∀ p ∈ recs.map Rec.off, (recAt k cmdbuf p).Known k := by
  induction row with
  | nil => simp
  | cons _ known _ ih =>
    rw [List.map_cons, List.forall_mem_cons]
    exact ⟨known, ih⟩

theorem row_magic (row : Row k cmdbuf sz off recs) :
    ∀ p ∈ recs.map Rec.off, magicAt k cmdbuf p = k.magic180X := by
  induction row with
  | nil => simp
  | cons magic _ _ ih =>
    rw [List.map_cons, List.forall_mem_cons]
    exact ⟨magic, ih⟩

end

end CviRuntime.CModel
