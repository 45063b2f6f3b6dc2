import CviRuntime.Runtime.Program

/-!
# Coherence of an inference

The processor and the TPU share the neurons through a write-back cache. The invariant
ties `_state` to the memory: in `TPU_MEM` the DRAM holds the last written bytes of a
neuron, in `CPU_MEM` the processor sees them and its clean lines agree with the DRAM.
`Safe` lists the steps that keep it; `Neuron::toTpu` invalidates the whole base block,
so it is safe only when no other neuron of the block has bytes that are not written
back.
-/

namespace CviRuntime.Runtime

open WriteBackCache

/-! ## Addresses of a neuron -/

namespace Neuron

variable {n : Neuron} {i limit : Nat} {data : Nat → Option UInt8} {a : Nat}

/-- The neuron is carved out of its base block. -/
def Carved (n : Neuron) : Prop :=
  ∃ paddr base, n.backing = .device paddr base ∧ base.1 ≤ paddr ∧
    paddr + n.size ≤ base.1 + base.2

theorem Carved.gmem_iff (carved : n.Carved) :
    n.gmem a = true ↔ ∃ i, i < n.size ∧ a = n.paddr + i := by
  obtain ⟨paddr, base, backing, -, -⟩ := carved
  simp only [gmem, backing, Neuron.paddr, Bool.and_eq_true, decide_eq_true_eq]
  constructor
  · rintro ⟨low, high⟩
    exact ⟨a - paddr, by omega, by omega⟩
  · rintro ⟨i, small, rfl⟩
    omega

theorem Carved.gmem_add (carved : n.Carved) (small : i < n.size) :
    n.gmem (n.paddr + i) = true :=
  carved.gmem_iff.mpr ⟨i, small, rfl⟩

theorem place_add (small : i < limit) : n.place limit data (n.paddr + i) = data i := by
  rw [place, if_pos (by omega), Nat.add_sub_cancel_left]

theorem place_add_of_le (large : limit ≤ i) : n.place limit data (n.paddr + i) = none := by
  rw [place, if_neg (by omega)]

theorem not_copied {bytes : Nat → UInt8} (missed : i < n.copySize → n.copyData bytes i = none) :
    n.copied i = false := by
  by_contra moved
  have copied : n.copied i = true := Bool.eq_true_of_not_eq_false moved
  have inRows : i < n.copySize := of_decide_eq_true (Bool.and_eq_true_iff.mp copied).1
  have none := missed inRows
  rw [copyData, if_pos copied] at none
  cases none

theorem Carved.place_outside (carved : n.Carved) (fits : limit ≤ n.size)
    (outside : n.gmem a = false) : n.place limit data a = none := by
  rw [place, if_neg]
  rintro ⟨low, high⟩
  have inside : n.gmem a = true := carved.gmem_iff.mpr ⟨a - n.paddr, by omega, by omega⟩
  rw [outside] at inside
  cases inside

end Neuron

/-! ## The invariant of a neuron -/

/-- The bytes of neuron `k` are where its state says. -/
def NeuronInv (m : Machine) (n : Neuron) (k : Nat) : Prop :=
  match m.state k with
  | .tpuMem => ∀ i, i < n.size → m.memory.dram (n.paddr + i) = m.last k i
  | .cpuMem => ∀ i, i < n.size →
      m.memory.view (n.paddr + i) = m.last k i ∧ m.memory.CleanAgrees (n.paddr + i)

theorem neuronInv_tpu {m : Machine} {n : Neuron} {k : Nat} (state : m.state k = .tpuMem) :
    NeuronInv m n k ↔ ∀ i, i < n.size → m.memory.dram (n.paddr + i) = m.last k i := by
  unfold NeuronInv
  rw [state]

theorem neuronInv_cpu {m : Machine} {n : Neuron} {k : Nat} (state : m.state k = .cpuMem) :
    NeuronInv m n k ↔ ∀ i, i < n.size →
      m.memory.view (n.paddr + i) = m.last k i ∧ m.memory.CleanAgrees (n.paddr + i) := by
  unfold NeuronInv
  rw [state]

/-- The address holds the same in DRAM and in the cache. -/
def Untouched (m m' : WriteBackCache Nat UInt8) (a : Nat) : Prop :=
  m'.dram a = m.dram a ∧ m'.cached a = m.cached a

theorem Untouched.view {m m' : WriteBackCache Nat UInt8} {a : Nat} (same : Untouched m m' a) :
    m'.view a = m.view a := by
  unfold WriteBackCache.view
  rw [same.1, same.2]

theorem Untouched.cleanAgrees {m m' : WriteBackCache Nat UInt8} {a : Nat}
    (same : Untouched m m' a) (agrees : m.CleanAgrees a) : m'.CleanAgrees a := by
  intro line here clean
  rw [same.1]
  rw [same.2] at here
  exact agrees line here clean

/-- A neuron nobody touched stays as it is. -/
theorem NeuronInv.frame {m m' : Machine} {n : Neuron} {k : Nat} (inv : NeuronInv m n k)
    (state : m'.state k = m.state k) (last : ∀ i, i < n.size → m'.last k i = m.last k i)
    (same : ∀ i, i < n.size → Untouched m.memory m'.memory (n.paddr + i)) :
    NeuronInv m' n k := by
  cases here : m.state k with
  | tpuMem =>
    rw [neuronInv_tpu here] at inv
    rw [neuronInv_tpu (state.trans here)]
    intro i small
    rw [(same i small).1, last i small]
    exact inv i small
  | cpuMem =>
    rw [neuronInv_cpu here] at inv
    rw [neuronInv_cpu (state.trans here)]
    intro i small
    rw [(same i small).view, last i small]
    exact ⟨(inv i small).1, (same i small).cleanAgrees (inv i small).2⟩

/-! ## The invariant of a program -/

/-- The neurons are carved out of their base blocks, at pairwise disjoint ranges. -/
structure Program.Layout (p : Program) : Prop where
  carved : ∀ (k : Nat) (n : Neuron), p.neurons[k]? = some n → n.Carved
  apart : ∀ (j k : Nat) (nj nk : Neuron), p.neurons[j]? = some nj → p.neurons[k]? = some nk →
    j ≠ k →
    ∀ a, nj.gmem a = true → nk.gmem a = false

def Program.Inv (p : Program) (m : Machine) : Prop :=
  ∀ (k : Nat) (n : Neuron), p.neurons[k]? = some n → NeuronInv m n k

variable {p : Program} {m m' : Machine} {n : Neuron} {k : Nat}

/-- An operation on neuron `k` that leaves every address outside `_gmem` alone keeps the
    invariant if it keeps that of `k`. -/
theorem Program.Inv.update (layout : p.Layout) (inv : p.Inv m) (found : p.neurons[k]? = some n)
    (state : ∀ j, j ≠ k → m'.state j = m.state j)
    (last : ∀ j, j ≠ k → ∀ i, m'.last j i = m.last j i)
    (same : ∀ a, n.gmem a = false → Untouched m.memory m'.memory a)
    (kept : NeuronInv m' n k) : p.Inv m' := by
  intro j nj foundJ
  by_cases here : j = k
  · subst here
    rw [found] at foundJ
    cases foundJ
    exact kept
  · refine (inv j nj foundJ).frame (state j here) (fun i _ => last j here i) ?_
    intro i small
    exact same _ (layout.apart j k nj n foundJ found here _
      ((layout.carved j nj foundJ).gmem_add small))

/-! ## One operation on one neuron -/

theorem untouched_invld {memory : WriteBackCache Nat UInt8} {q : Nat → Bool} {a : Nat}
    (outside : q a = false) : Untouched memory (memory.invld q) a :=
  ⟨rfl, cached_invld_of_not_mem outside⟩

theorem untouched_flush {memory : WriteBackCache Nat UInt8} {q : Nat → Bool} {a : Nat}
    (outside : q a = false) : Untouched memory (memory.flush q) a :=
  ⟨dram_flush_of_not_mem outside, by simp [flush, outside]⟩

theorem untouched_fill {memory : WriteBackCache Nat UInt8} {q : Nat → Bool} {a : Nat}
    (outside : q a = false) : Untouched memory (memory.fill q) a :=
  ⟨rfl, by simp [fill, outside]⟩

theorem untouched_cpuWrite {memory : WriteBackCache Nat UInt8} {w : Nat → Option UInt8} {a : Nat}
    (outside : w a = none) : Untouched memory (memory.cpuWrite w) a :=
  ⟨rfl, by simp [cpuWrite, outside]⟩

theorem untouched_devWrite {memory : WriteBackCache Nat UInt8} {w : Nat → Option UInt8} {a : Nat}
    (outside : w a = none) : Untouched memory (memory.devWrite w) a :=
  ⟨by rw [dram_devWrite, outside]; rfl, rfl⟩

theorem NeuronState.eq_cpuMem {state : NeuronState} (other : state ≠ .tpuMem) :
    state = .cpuMem := by
  cases state with
  | tpuMem => exact absurd rfl other
  | cpuMem => rfl

theorem NeuronState.eq_tpuMem {state : NeuronState} (other : state ≠ .cpuMem) :
    state = .tpuMem := by
  cases state with
  | tpuMem => rfl
  | cpuMem => exact absurd rfl other

theorem toCpu_inv (layout : p.Layout) (inv : p.Inv m) (found : p.neurons[k]? = some n)
    (done : n.toCpu k m = some m') : p.Inv m' := by
  have carved := layout.carved k n found
  obtain ⟨paddr, base, backing, -, -⟩ := layout.carved k n found
  unfold Neuron.toCpu at done
  by_cases state : m.state k = .cpuMem
  · rw [if_neg (not_not.mpr state)] at done
    cases done
    exact inv
  · rw [if_pos state] at done
    simp only [backing, Neuron.memInvld, Option.map_some, Option.some.injEq] at done
    subst done
    refine inv.update layout found (fun j other => ?_) (fun j _ i => rfl) ?_ ?_
    · rw [Machine.state_setState_of_ne _ _ other]
      rfl
    · intro a outside
      exact untouched_invld outside
    · rw [neuronInv_cpu (by simp)]
      intro i small
      have inside := carved.gmem_add small
      refine ⟨?_, cleanAgrees_of_uncached (cached_invld inside)⟩
      rw [Machine.memory_setState, Machine.memory_setMemory, view_invld inside]
      exact (neuronInv_tpu (NeuronState.eq_tpuMem state)).mp (inv k n found) i small

/-- No other neuron in the base block of `k` has bytes that are not written back. -/
def Program.ToTpuSafe (p : Program) (m : Machine) (k : Nat) : Prop :=
  m.state k = .cpuMem → ∀ n, p.neurons[k]? = some n →
    ∀ (j : Nat) (nj : Neuron), p.neurons[j]? = some nj → j ≠ k → m.state j = .cpuMem →
      ∀ i, i < nj.size → n.baseMem (nj.paddr + i) = true → m.memory.Synced (nj.paddr + i)

/-- `toTpu` on a neuron in `CPU_MEM`. -/
theorem toTpu_eq (carved : n.Carved) (state : m.state k = .cpuMem) :
    n.toTpu k m = some
      ((m.setMemory ((m.memory.flush n.gmem).invld n.baseMem)).setState k .tpuMem) := by
  obtain ⟨paddr, base, backing, -, -⟩ := carved
  have taken : m.state k ≠ .tpuMem := by
    rw [state]
    decide
  simp [Neuron.toTpu, taken, backing, Neuron.memFlush]

/-- Flushing one range and invalidating another keeps a neuron that lies outside the first
    and is written back on the second, or whose bytes are in DRAM anyway. -/
theorem NeuronInv.flush_invld {q q' : Nat → Bool} (inv : NeuronInv m n k)
    (apart : ∀ i, i < n.size → q (n.paddr + i) = false)
    (synced : m.state k = .cpuMem → ∀ i, i < n.size → q' (n.paddr + i) = true →
      m.memory.Synced (n.paddr + i)) :
    NeuronInv (m.setMemory ((m.memory.flush q).invld q')) n k := by
  cases state : m.state k with
  | tpuMem =>
    rw [neuronInv_tpu state] at inv
    rw [neuronInv_tpu (by simp [state])]
    intro i small
    exact (untouched_flush (apart i small)).1.trans (inv i small)
  | cpuMem =>
    rw [neuronInv_cpu state] at inv
    rw [neuronInv_cpu (by simp [state])]
    intro i small
    obtain ⟨seen, agrees⟩ := inv i small
    have flushed : Untouched m.memory (m.memory.flush q) (n.paddr + i) :=
      untouched_flush (apart i small)
    refine ⟨?_, cleanAgrees_invld (flushed.cleanAgrees agrees)⟩
    rw [Machine.last_setMemory, ← seen, Machine.memory_setMemory]
    cases covered : q' (n.paddr + i) with
    | true =>
      rw [view_invld covered, flushed.1]
      exact (synced state i small covered).symm
    | false => rw [view_invld_of_not_mem covered, flushed.view]

theorem toTpu_inv (layout : p.Layout) (inv : p.Inv m) (found : p.neurons[k]? = some n)
    (safe : p.ToTpuSafe m k) (done : n.toTpu k m = some m') : p.Inv m' := by
  have carved := layout.carved k n found
  by_cases state : m.state k = .tpuMem
  · rw [Neuron.toTpu, if_neg (not_not.mpr state)] at done
    cases done
    exact inv
  · have inCpu := NeuronState.eq_cpuMem state
    rw [toTpu_eq carved inCpu] at done
    cases done
    intro j nj foundJ
    by_cases here : j = k
    · subst here
      rw [found] at foundJ
      cases foundJ
      rw [neuronInv_tpu (by simp)]
      intro i small
      obtain ⟨seen, agrees⟩ := (neuronInv_cpu inCpu).mp (inv j n found) i small
      exact (dram_flush (carved.gmem_add small) agrees).trans seen
    · have passed : NeuronInv (m.setMemory ((m.memory.flush n.gmem).invld n.baseMem)) nj j := by
        apply (inv j nj foundJ).flush_invld
        · intro i small
          exact layout.apart j k nj n foundJ found here _
            ((layout.carved j nj foundJ).gmem_add small)
        · intro stateJ i small covered
          exact safe inCpu n found j nj foundJ here stateJ i small covered
      exact passed.frame (Machine.state_setState_of_ne _ _ here) (fun _ _ => rfl)
        (fun _ _ => ⟨rfl, rfl⟩)

/-- Moving one neuron to a state leaves those that are in it where they are. -/
theorem setState_state {state : NeuronState}
    (shape : ∃ m₁ : Machine, m₁.state = m.state ∧ m' = m₁.setState k state) :
    m'.state k = state ∧ ∀ j, m.state j = state → m'.state j = state := by
  obtain ⟨m₁, same, rfl⟩ := shape
  refine ⟨by simp, ?_⟩
  intro j stateJ
  by_cases here : j = k
  · subst here
    simp
  · rw [Machine.state_setState_of_ne _ _ here, same]
    exact stateJ

theorem toTpu_state (done : n.toTpu k m = some m') :
    m'.state k = .tpuMem ∧ ∀ j, m.state j = .tpuMem → m'.state j = .tpuMem := by
  unfold Neuron.toTpu at done
  split at done
  · have shape : ∃ m₁ : Machine, m₁.state = m.state ∧ m' = m₁.setState k .tpuMem := by
      cases backing : n.backing with
      | device paddr base =>
        simp only [backing, Neuron.memFlush, Option.map_some, Option.some.injEq] at done
        refine ⟨_, ?_, done.symm⟩
        rfl
      | heap => simp [backing] at done
      | unbacked => simp [backing, Neuron.memFlush] at done
    exact setState_state shape
  · rename_i state
    cases done
    exact ⟨not_not.mp state, fun _ h => h⟩

theorem toCpu_state (done : n.toCpu k m = some m') :
    m'.state k = .cpuMem ∧ ∀ j, m.state j = .cpuMem → m'.state j = .cpuMem := by
  unfold Neuron.toCpu at done
  split at done
  · have shape : ∃ m₁ : Machine, m₁.state = m.state ∧ m' = m₁.setState k .cpuMem := by
      cases backing : n.backing with
      | device paddr base =>
        simp only [backing, Neuron.memInvld, Option.map_some, Option.some.injEq] at done
        refine ⟨_, ?_, done.symm⟩
        rfl
      | heap => simp [backing] at done
      | unbacked => simp [backing, Neuron.memInvld] at done
    exact setState_state shape
  · rename_i state
    cases done
    exact ⟨not_not.mp state, fun _ h => h⟩

/-- A TPU write meets no line of the neuron that it would make stale. -/
def Program.TpuWriteSafe (p : Program) (outcome : Outcome) (m : Machine) (k : Nat) : Prop :=
  ∀ n, p.neurons[k]? = some n → m.state k = .tpuMem ∨
    ∀ i, i < n.size → (outcome.writes k i).isSome → m.memory.cached (n.paddr + i) = none

theorem tpuWrite_inv {outcome : Outcome} (layout : p.Layout) (inv : p.Inv m)
    (found : p.neurons[k]? = some n) (safe : p.TpuWriteSafe outcome m k) :
    p.Inv (n.tpuWrite k (outcome.writes k) m) := by
  have carved := layout.carved k n found
  obtain ⟨paddr, base, backing, -, -⟩ := layout.carved k n found
  simp only [Neuron.tpuWrite, backing]
  refine inv.update layout found (fun j _ => rfl)
    (fun j other i => Machine.last_noteWritten_of_ne _ _ _ other i) ?_ ?_
  · intro a outside
    exact untouched_devWrite (carved.place_outside (Nat.le_refl _) outside)
  · cases state : m.state k with
    | tpuMem =>
      rw [neuronInv_tpu (by simp [state])]
      intro i small
      rw [Machine.last_noteWritten_self _ _ _ small, Machine.memory_noteWritten,
        Machine.memory_setMemory, dram_devWrite, Neuron.place_add small]
      rw [(neuronInv_tpu state).mp (inv k n found) i small, Machine.last_setMemory]
    | cpuMem =>
      rw [neuronInv_cpu (by simp [state])]
      intro i small
      obtain ⟨seen, agrees⟩ := (neuronInv_cpu state).mp (inv k n found) i small
      rw [Machine.last_noteWritten_self _ _ _ small, Machine.memory_noteWritten,
        Machine.memory_setMemory, Machine.last_setMemory]
      cases written : outcome.writes k i with
      | none =>
        have missed : n.place n.size (outcome.writes k) (n.paddr + i) = none := by
          rw [Neuron.place_add small, written]
        exact ⟨(view_devWrite missed).trans seen, cleanAgrees_devWrite missed agrees⟩
      | some value =>
        have uncached : m.memory.cached (n.paddr + i) = none := by
          rcases safe n found with inTpu | uncached
          · rw [state] at inTpu
            cases inTpu
          · exact uncached i small (by simp [written])
        refine ⟨?_, cleanAgrees_of_uncached uncached⟩
        rw [view_devWrite_of_uncached uncached, Neuron.place_add small, written]
        rfl

/-- Reading a neuron keeps the invariant. -/
theorem fill_inv (layout : p.Layout) (inv : p.Inv m) (found : p.neurons[k]? = some n) :
    p.Inv (m.setMemory (m.memory.fill n.gmem)) := by
  refine inv.update layout found (fun _ _ => rfl) (fun _ _ _ => rfl)
    (fun a outside => untouched_fill outside) ?_
  cases state : m.state k with
  | tpuMem =>
    rw [neuronInv_tpu (by simp [state])]
    exact (neuronInv_tpu state).mp (inv k n found)
  | cpuMem =>
    rw [neuronInv_cpu (by simp [state])]
    intro i small
    obtain ⟨seen, agrees⟩ := (neuronInv_cpu state).mp (inv k n found) i small
    exact ⟨view_fill.trans seen, cleanAgrees_fill agrees⟩

theorem cpuFuncRead_inv (layout : p.Layout) (inv : p.Inv m) (found : p.neurons[k]? = some n)
    (state : m.state k = .cpuMem) (done : n.cpuFuncRead k m = some m') :
    p.Inv m' ∧ m'.state = m.state := by
  have unmarked : m.setState k .cpuMem = m := by
    have same : (m.setState k .cpuMem).state = m.state := by
      funext j
      by_cases here : j = k
      · subst here
        rw [Machine.state_setState_self, state]
      · exact Machine.state_setState_of_ne _ _ here
    cases m
    simpa [Machine.setState] using same
  obtain ⟨paddr, base, backing, -, -⟩ := layout.carved k n found
  simp only [Neuron.cpuFuncRead, unmarked, Neuron.readSysMem, backing, Option.map_some,
    Option.some.injEq] at done
  subst done
  exact ⟨fill_inv layout inv found, rfl⟩

/-- A CPU function that writes a neuron not in `CPU_MEM` leaves no stale byte behind. -/
def Program.CpuWriteSafe (p : Program) (outcome : Outcome) (m : Machine) (k : Nat) : Prop :=
  ∀ n, p.neurons[k]? = some n → m.state k = .cpuMem ∨
    ∀ i, i < n.size → outcome.writes k i = none → m.memory.Synced (n.paddr + i)

theorem cpuFuncWrite_inv {outcome : Outcome} (layout : p.Layout) (inv : p.Inv m)
    (found : p.neurons[k]? = some n) (safe : p.CpuWriteSafe outcome m k)
    (done : n.cpuFuncWrite k (outcome.writes k) m = some m') : p.Inv m' := by
  have carved := layout.carved k n found
  obtain ⟨paddr, base, backing, -, -⟩ := layout.carved k n found
  simp only [Neuron.cpuFuncWrite, Neuron.writeSysMem, backing, Option.some.injEq] at done
  subst done
  refine inv.update layout found (fun j other => Machine.state_setState_of_ne _ _ other)
    (fun j other i => Machine.last_noteWritten_of_ne _ _ _ other i) ?_ ?_
  · intro a outside
    exact untouched_cpuWrite (carved.place_outside (Nat.le_refl _) outside)
  · rw [neuronInv_cpu (by simp)]
    intro i small
    rw [Machine.last_noteWritten_self _ _ _ small, Machine.memory_noteWritten,
      Machine.memory_setMemory, Machine.last_setMemory, Machine.memory_setState,
      Machine.last_setState, view_cpuWrite, Neuron.place_add small]
    cases written : outcome.writes k i with
    | some value =>
      refine ⟨rfl, ?_⟩
      intro line here clean
      simp only [cpuWrite, Neuron.place_add small, written, Option.some.injEq] at here
      subst here
      cases clean
    | none =>
      -- the byte stays: it is the last written one, and a clean line of it is current
      have kept : m.memory.view (n.paddr + i) = m.last k i ∧
          m.memory.CleanAgrees (n.paddr + i) := by
        cases state : m.state k with
        | cpuMem => exact (neuronInv_cpu state).mp (inv k n found) i small
        | tpuMem =>
          rcases safe n found with inCpu | synced
          · rw [state] at inCpu
            cases inCpu
          · have here := synced i small written
            exact ⟨here.trans ((neuronInv_tpu state).mp (inv k n found) i small),
              here.cleanAgrees⟩
      exact ⟨kept.1, cleanAgrees_cpuWrite kept.2⟩

/-- A device tensor is copied inside the neuron, and what the copy does not reach is
    written back. -/
def Program.LoadSafe (p : Program) (m : Machine) (k : Nat) : InputTensor → Prop
  | .device _ => ∀ n, p.neurons[k]? = some n → n.copySize ≤ n.size ∧
      (m.state k = .tpuMem ∨
        ∀ i, n.copied i = false → i < n.size → m.memory.Synced (n.paddr + i))
  | _ => True

/-- The processor writes a whole neuron, which is then flushed. -/
theorem loadSystem_inv {data : Nat → UInt8} (layout : p.Layout) (inv : p.Inv m)
    (found : p.neurons[k]? = some n)
    (done : ((n.writeSysMem k (fun i => some (data i)) m).bind fun m =>
      (n.memFlush m).map (·.setState k .tpuMem)) = some m') : p.Inv m' := by
  have carved := layout.carved k n found
  obtain ⟨paddr, base, backing, -, -⟩ := layout.carved k n found
  simp only [Neuron.writeSysMem, backing, Neuron.memFlush, Option.bind_some, Option.map_some,
    Option.some.injEq] at done
  subst done
  refine inv.update layout found (fun j other => Machine.state_setState_of_ne _ _ other) ?_ ?_ ?_
  · intro j other i
    rw [Machine.last_setState, Machine.last_setMemory, Machine.last_noteWritten_of_ne _ _ _ other,
      Machine.last_setMemory]
  · intro a outside
    have written : Untouched m.memory
        (m.memory.cpuWrite (n.place n.size fun i => some (data i))) a :=
      untouched_cpuWrite (carved.place_outside (Nat.le_refl _) outside)
    have flushed : Untouched (m.memory.cpuWrite (n.place n.size fun i => some (data i)))
        ((m.memory.cpuWrite (n.place n.size fun i => some (data i))).flush n.gmem) a :=
      untouched_flush outside
    exact ⟨flushed.1.trans written.1, flushed.2.trans written.2⟩
  · rw [neuronInv_tpu (by simp)]
    intro i small
    have line : (m.memory.cpuWrite (n.place n.size fun i => some (data i))).cached
        (n.paddr + i) = some ⟨data i, true⟩ := by
      simp [cpuWrite, Neuron.place_add small]
    rw [Machine.last_setState, Machine.last_setMemory, Machine.last_noteWritten_self _ _ _ small]
    exact dram_flush_of_dirty (carved.gmem_add small) line rfl

/-- The device writes some of the first `limit` bytes of a neuron. -/
theorem loadDevice_inv {data : Nat → Option UInt8} {limit : Nat} (layout : p.Layout)
    (inv : p.Inv m) (found : p.neurons[k]? = some n) (fits : limit ≤ n.size)
    (rest : m.state k = .tpuMem ∨ ∀ i, (i < limit → data i = none) → i < n.size →
      m.memory.Synced (n.paddr + i)) :
    p.Inv (((m.setMemory (m.memory.devWrite (n.place limit data))).noteWritten
      k limit data).setState k .tpuMem) := by
  have carved := layout.carved k n found
  refine inv.update layout found (fun j other => Machine.state_setState_of_ne _ _ other) ?_ ?_ ?_
  · intro j other i
    rw [Machine.last_setState, Machine.last_noteWritten_of_ne _ _ _ other, Machine.last_setMemory]
  · intro a outside
    exact untouched_devWrite (carved.place_outside fits outside)
  · rw [neuronInv_tpu (by simp)]
    intro i small
    -- a byte that is not written stays the last written one
    have kept : (i < limit → data i = none) → m.memory.dram (n.paddr + i) = m.last k i := by
      intro missed
      cases state : m.state k with
      | tpuMem => exact (neuronInv_tpu state).mp (inv k n found) i small
      | cpuMem =>
        rcases rest with inTpu | synced
        · rw [state] at inTpu
          cases inTpu
        · have seen := ((neuronInv_cpu state).mp (inv k n found) i small).1
          rw [← seen]
          exact (synced i missed small).symm
    rw [Machine.memory_setState, Machine.memory_noteWritten, Machine.memory_setMemory,
      dram_devWrite, Machine.last_setState]
    by_cases reached : i < limit
    · rw [Neuron.place_add reached, Machine.last_noteWritten_self _ _ _ reached,
        Machine.last_setMemory]
      cases written : data i with
      | none => exact kept fun _ => written
      | some byte => rfl
    · rw [Neuron.place_add_of_le (Nat.le_of_not_lt reached),
        Machine.last_noteWritten_of_le _ _ _ (Nat.le_of_not_lt reached), Machine.last_setMemory]
      exact kept fun below => absurd below reached

theorem load_inv {tensor : InputTensor} (layout : p.Layout) (inv : p.Inv m)
    (found : p.neurons[k]? = some n) (safe : p.LoadSafe m k tensor)
    (done : n.load k tensor m = some m') : p.Inv m' := by
  obtain ⟨paddr, base, backing, -, -⟩ := layout.carved k n found
  cases tensor with
  | system data =>
    simp only [Neuron.load, backing] at done
    exact loadSystem_inv layout inv found done
  | systemInPlace data =>
    simp only [Neuron.load, backing] at done
    exact loadSystem_inv layout inv found done
  | device data =>
    simp only [Neuron.load, backing, Option.some.injEq] at done
    subst done
    obtain ⟨fits, rest⟩ := safe n found
    refine loadDevice_inv layout inv found fits (rest.imp_right ?_)
    intro synced i missed small
    exact synced i (Neuron.not_copied missed) small
  | deviceInPlace data =>
    simp only [Neuron.load, backing, Option.some.injEq] at done
    subst done
    refine loadDevice_inv layout inv found (Nat.le_refl _) (Or.inr ?_)
    intro i missed small
    cases missed small

/-- The offsets a store delivers. -/
def Neuron.Delivers (n : Neuron) : OutputTensor → Nat → Prop
  | .device, i => n.copied i = true
  | _, i => i < n.size

/-- A device tensor is read from DRAM, so the neuron must be written back. -/
def Program.StoreSafe (p : Program) (m : Machine) (k : Nat) (tensor : OutputTensor) : Prop :=
  tensor = .device ∨ tensor = .deviceInPlace → ∀ n, p.neurons[k]? = some n →
    (∀ i, n.Delivers tensor i → i < n.size) ∧ (m.state k = .tpuMem ∨
      ∀ i, n.Delivers tensor i → m.memory.Synced (n.paddr + i))

/-- The first part of a store to system memory: unless the neuron is in `CPU_MEM`, its lines
    are dropped. Then the processor sees the last written bytes. -/
theorem store_settles {m₁ : Machine} (layout : p.Layout) (inv : p.Inv m)
    (found : p.neurons[k]? = some n)
    (done : (if m.state k = .cpuMem then some m else n.memInvld m) = some m₁) :
    p.Inv m₁ ∧ ∀ i, i < n.size → m₁.memory.view (n.paddr + i) = m.last k i := by
  have carved := layout.carved k n found
  obtain ⟨paddr, base, backing, -, -⟩ := layout.carved k n found
  by_cases state : m.state k = .cpuMem
  · rw [if_pos state] at done
    cases done
    exact ⟨inv, fun i small => ((neuronInv_cpu state).mp (inv k n found) i small).1⟩
  · have inTpu := NeuronState.eq_tpuMem state
    have inDram := (neuronInv_tpu inTpu).mp (inv k n found)
    simp only [if_neg state, Neuron.memInvld, backing, Option.some.injEq] at done
    subst done
    refine ⟨inv.update layout found (fun _ _ => rfl) (fun _ _ _ => rfl)
      (fun a outside => untouched_invld outside) ?_, ?_⟩
    · rw [neuronInv_tpu (by simp [inTpu])]
      exact inDram
    · intro i small
      rw [Machine.memory_setMemory, view_invld (carved.gmem_add small)]
      exact inDram i small

theorem store_inv {tensor : OutputTensor} {bytes : Nat → Option UInt8} (layout : p.Layout)
    (inv : p.Inv m) (found : p.neurons[k]? = some n)
    (done : n.store k tensor m = some (bytes, m')) : p.Inv m' := by
  obtain ⟨paddr, base, backing, -, -⟩ := layout.carved k n found
  cases tensor with
  | system =>
    obtain ⟨m₁, settled, rest⟩ := Option.bind_eq_some_iff.mp done
    simp only [Neuron.readSysMem, backing, Option.map_some, Option.some.injEq,
      Prod.mk.injEq] at rest
    obtain ⟨-, rfl⟩ := rest
    exact fill_inv layout (store_settles layout inv found settled).1 found
  | systemInPlace =>
    obtain ⟨m₁, settled, rest⟩ := Option.map_eq_some_iff.mp done
    cases rest
    exact (store_settles layout inv found settled).1
  | device =>
    cases done
    exact inv
  | deviceInPlace =>
    cases done
    exact inv

theorem store_delivers {tensor : OutputTensor} {bytes : Nat → Option UInt8} (layout : p.Layout)
    (inv : p.Inv m) (found : p.neurons[k]? = some n) (safe : p.StoreSafe m k tensor)
    (done : n.store k tensor m = some (bytes, m')) :
    ∀ i, n.Delivers tensor i → bytes i = some (m.last k i) := by
  -- what DRAM holds, for a neuron that is written back
  have inDram : ∀ i, n.Delivers tensor i → (∀ i, n.Delivers tensor i → i < n.size) →
      (m.state k = .tpuMem ∨ ∀ i, n.Delivers tensor i → m.memory.Synced (n.paddr + i)) →
      m.memory.dram (n.paddr + i) = m.last k i := by
    intro i reached fits written
    have small : i < n.size := fits i reached
    cases state : m.state k with
    | tpuMem => exact (neuronInv_tpu state).mp (inv k n found) i small
    | cpuMem =>
      rcases written with inTpu | synced
      · rw [state] at inTpu
        cases inTpu
      · rw [← ((neuronInv_cpu state).mp (inv k n found) i small).1]
        exact (synced i reached).symm
  obtain ⟨paddr, base, backing, -, -⟩ := layout.carved k n found
  have address : n.paddr = paddr := by simp [Neuron.paddr, backing]
  intro i reached
  cases tensor with
  | system =>
    obtain ⟨m₁, settled, rest⟩ := Option.bind_eq_some_iff.mp done
    simp only [Neuron.readSysMem, backing, Option.map_some, Option.some.injEq,
      Prod.mk.injEq] at rest
    obtain ⟨rfl, -⟩ := rest
    refine (if_pos reached).trans ?_
    rw [← address, (store_settles layout inv found settled).2 i reached]
  | systemInPlace =>
    obtain ⟨m₁, settled, rest⟩ := Option.map_eq_some_iff.mp done
    cases rest
    simp only [Neuron.readSysMem, backing, Option.map_some]
    refine (if_pos reached).trans ?_
    rw [← address, (store_settles layout inv found settled).2 i reached]
  | device =>
    cases done
    have written := safe (Or.inl rfl) n found
    refine (if_pos reached).trans ?_
    exact congrArg some (inDram i reached written.1 written.2)
  | deviceInPlace =>
    cases done
    have written := safe (Or.inr rfl) n found
    refine (if_pos reached).trans ?_
    rw [inDram i reached written.1 written.2]

/-! ## Reset -/

/-- The states after the reset of some routines: the last routine that outputs a neuron
    decides. -/
def Program.resetState (routines : List Routine) (state : Nat → NeuronState) :
    Nat → NeuronState :=
  routines.foldl (fun state r k => if k ∈ r.outputs then resetTo r.kind else state k) state

/-- A neuron whose state the reset changes is written back and holds no stale line. -/
def Program.ResetSafe (p : Program) (m : Machine) : Prop :=
  ∀ (k : Nat) (n : Neuron), p.neurons[k]? = some n →
    Program.resetState p.routines m.state k ≠ m.state k →
    ∀ i, i < n.size → m.memory.Synced (n.paddr + i)

theorem eachNeuron_setState {state : NeuronState} :
    ∀ {ks : List Nat} {m m' : Machine},
      p.eachNeuron (fun _ k m => some (m.setState k state)) ks m = some m' →
      m'.memory = m.memory ∧ m'.last = m.last ∧
        m'.state = fun j => if j ∈ ks then state else m.state j := by
  intro ks
  induction ks with
  | nil =>
    intro m m' done
    cases done
    refine ⟨rfl, rfl, ?_⟩
    funext j
    simp
  | cons k ks ih =>
    intro m m' done
    obtain ⟨m₁, first, rest⟩ := Run.run_cons.mp done
    obtain ⟨n, -, same⟩ := Option.bind_eq_some_iff.mp first
    cases same
    obtain ⟨memory, last, states⟩ := ih rest
    refine ⟨memory, last, ?_⟩
    rw [states]
    funext j
    by_cases later : j ∈ ks
    · simp [later]
    · by_cases here : j = k
      · simp [here]
      · simp [later, here, Machine.state_setState_of_ne _ _ here]

theorem reset_spec :
    ∀ {routines : List Routine} {m m' : Machine}, Run.run p.resetRoutine m routines = some m' →
      m'.memory = m.memory ∧ m'.last = m.last ∧
        m'.state = Program.resetState routines m.state := by
  intro routines
  induction routines with
  | nil =>
    intro m m' done
    cases done
    exact ⟨rfl, rfl, rfl⟩
  | cons r routines ih =>
    intro m m' done
    obtain ⟨m₁, first, rest⟩ := Run.run_cons.mp done
    obtain ⟨memory₁, last₁, states₁⟩ := eachNeuron_setState first
    obtain ⟨memory, last, states⟩ := ih rest
    refine ⟨memory.trans memory₁, last.trans last₁, ?_⟩
    rw [states, states₁]
    rfl

theorem reset_inv (inv : p.Inv m) (safe : p.ResetSafe m) (done : p.reset m = some m') :
    p.Inv m' := by
  obtain ⟨memory, last, states⟩ := reset_spec done
  intro k n found
  by_cases same : Program.resetState p.routines m.state k = m.state k
  · refine (inv k n found).frame (by rw [states, same]) (fun i _ => by rw [last]) ?_
    intro i small
    rw [memory]
    exact ⟨rfl, rfl⟩
  · have synced := safe k n found same
    cases state : m.state k with
    | tpuMem =>
      have moved : m'.state k = .cpuMem := by
        rw [states]
        rw [state] at same
        exact NeuronState.eq_cpuMem same
      rw [neuronInv_cpu moved, memory, last]
      intro i small
      exact ⟨(synced i small).trans ((neuronInv_tpu state).mp (inv k n found) i small),
        (synced i small).cleanAgrees⟩
    | cpuMem =>
      have moved : m'.state k = .tpuMem := by
        rw [states]
        rw [state] at same
        exact NeuronState.eq_tpuMem same
      rw [neuronInv_tpu moved, memory, last]
      intro i small
      rw [← ((neuronInv_cpu state).mp (inv k n found) i small).1]
      exact (synced i small).symm

/-! ## Whole inferences -/

/-- The steps of an inference. -/
inductive Action where
  | load (k : Nat) (tensor : InputTensor)
  | reset
  | routine (index : Nat) (outcome : Outcome)
  | store (k : Nat) (tensor : OutputTensor)

namespace Program

def step (p : Program) (m : Machine) : Action → Option Machine
  | .load k tensor => p.onNeuron (fun n k m => n.load k tensor m) m k
  | .reset => p.reset m
  | .routine index outcome =>
    (p.routines[index]?).bind fun r => (p.runRoutine r outcome m).map Prod.snd
  | .store k tensor => p.onNeuron (fun n k m => (n.store k tensor m).map Prod.snd) m k

/-- The steps of `Program::forward`. -/
def actions (p : Program) (call : Call) (hw : Nat → Outcome) : List Action :=
  (p.inTensors.zip call.inputs).map (fun (k, tensor) => .load k tensor) ++
    (.reset :: (List.range' 0 p.routines.length).map (fun i => .routine i (hw i))) ++
    (p.stored.zip call.outputs).map (fun (k, tensor) => .store k tensor)

theorem runLoop_run {p : Program} {hw : Nat → Outcome} :
    ∀ {rs : List Routine} {index : Nat} {m m' : Machine} {ran : List (Nat × Int)},
      rs = p.routines.drop index → p.runLoop hw index rs m = some (ran, m') →
      Run.run p.step m ((List.range' index rs.length).map fun i => .routine i (hw i)) =
        some m' := by
  intro rs
  induction rs with
  | nil =>
    intro index m m' ran _ done
    cases done
    rfl
  | cons r rs ih =>
    intro index m m' ran rest done
    simp only [runLoop, Option.bind_eq_some_iff, Option.map_eq_some_iff] at done
    obtain ⟨⟨rc, m₁⟩, first, ⟨more, m₂⟩, later, same⟩ := done
    cases same
    have here : p.routines[index]? = some r := by
      have head : (p.routines.drop index)[0]? = some r := by rw [← rest]; rfl
      simpa using head
    have next : rs = p.routines.drop (index + 1) := by
      rw [← List.tail_drop, ← rest]
      rfl
    rw [List.length_cons, List.range'_succ, List.map_cons, Run.run_cons]
    refine ⟨m₁, ?_, ih next later⟩
    simp [step, here, first]

theorem storeAll_run {p : Program} :
    ∀ {tensors : List (Nat × OutputTensor)} {m m' : Machine} {bytes : List (Nat → Option UInt8)},
      p.storeAll tensors m = some (bytes, m') →
      Run.run p.step m (tensors.map fun (k, tensor) => .store k tensor) = some m' := by
  intro tensors
  induction tensors with
  | nil =>
    intro m m' bytes done
    cases done
    rfl
  | cons tensor tensors ih =>
    intro m m' bytes done
    simp only [storeAll, Option.bind_eq_some_iff, Option.map_eq_some_iff] at done
    obtain ⟨⟨first, m₁⟩, ⟨n, found, stored⟩, ⟨more, m₂⟩, later, same⟩ := done
    cases same
    rw [List.map_cons, Run.run_cons]
    refine ⟨m₁, ?_, ih later⟩
    simp [step, onNeuron, found, stored]

/-- An inference that returns takes these steps. -/
theorem forward_run {p : Program} {call : Call} {hw : Nat → Outcome} {m : Machine}
    {result : Result Bool} (done : p.forward call hw m = some result) :
    Run.run p.step m (p.actions call hw) = some result.machine := by
  unfold forward at done
  split at done
  · cases done
  · simp only [Option.bind_eq_some_iff] at done
    obtain ⟨m₁, loaded, inner, ran, rest⟩ := done
    rw [if_neg (by simp [(run_spec ran).1])] at rest
    split at rest
    · cases rest
    · obtain ⟨⟨bytes, m₃⟩, stored, rfl⟩ := Option.map_eq_some_iff.mp rest
      simp only [run, Option.bind_eq_some_iff, Option.map_eq_some_iff] at ran
      obtain ⟨m₂, resetted, ⟨codes, m₂'⟩, looped, rfl⟩ := ran
      unfold actions
      refine Run.run_append.mpr ⟨m₂', ?_, storeAll_run stored⟩
      refine Run.run_append.mpr ⟨m₁, ?_, ?_⟩
      · rw [Run.run_map]
        exact loaded
      · exact Run.run_cons.mpr ⟨m₂, resetted, runLoop_run rfl looped⟩

/-- The conditions on the state a routine meets. -/
def RoutineSafe (p : Program) (r : Routine) (outcome : Outcome) (m : Machine) : Prop :=
  match r.kind with
  | .tpu => Run.Admits (p.onNeuron Neuron.toTpu) p.ToTpuSafe m r.inputs ∧
      ∀ m₁, p.eachNeuron Neuron.toTpu r.inputs m = some m₁ →
        Run.Admits (p.onNeuron fun n k m => some (n.tpuWrite k (outcome.writes k) m))
          (p.TpuWriteSafe outcome) m₁ r.outputs
  | .cpu => ∀ m₁ m₂, p.eachNeuron Neuron.toCpu r.inputs m = some m₁ →
      p.eachNeuron Neuron.cpuFuncRead r.inputs m₁ = some m₂ →
      Run.Admits (p.onNeuron fun n k m => n.cpuFuncWrite k (outcome.writes k) m)
        (p.CpuWriteSafe outcome) m₂ r.outputs

/-- The conditions on the state a step is taken from. -/
def Safe (p : Program) (m : Machine) : Action → Prop
  | .load k tensor => p.LoadSafe m k tensor
  | .reset => p.ResetSafe m
  | .routine index outcome => ∀ r, p.routines[index]? = some r → p.RoutineSafe r outcome m
  | .store k tensor => p.StoreSafe m k tensor

/-- A routine that starts finds the last written bytes of its inputs: a TPU routine in DRAM,
    a CPU routine through the processor. -/
def RoutineCoherent (p : Program) (r : Routine) (m : Machine) : Prop :=
  match r.kind with
  | .tpu => ∀ m₁, p.eachNeuron Neuron.toTpu r.inputs m = some m₁ →
      ∀ k ∈ r.inputs, ∀ n, p.neurons[k]? = some n → ∀ i, i < n.size →
        m₁.memory.dram (n.paddr + i) = m₁.last k i
  | .cpu => ∀ m₁, p.eachNeuron Neuron.toCpu r.inputs m = some m₁ →
      ∀ k ∈ r.inputs, ∀ n, p.neurons[k]? = some n →
        ∀ bytes m₂, n.readSysMem k m₁ = some (bytes, m₂) → ∀ i, i < n.size →
          bytes i = m₁.last k i

/-- What a step must see: its routine's inputs, or the bytes it delivers, are the last
    written ones. -/
def Coherent (p : Program) (m : Machine) : Action → Prop
  | .routine index _ => ∀ r, p.routines[index]? = some r → p.RoutineCoherent r m
  | .store k tensor => ∀ n, p.neurons[k]? = some n → ∀ bytes m',
      n.store k tensor m = some (bytes, m') → ∀ i, n.Delivers tensor i →
        bytes i = some (m.last k i)
  | _ => True

/-- Nothing is cached and the memory is taken as last written, as after `Program::load`. -/
def Fresh (p : Program) (m : Machine) : Prop :=
  ∀ (k : Nat) (n : Neuron), p.neurons[k]? = some n → ∀ i, i < n.size →
    m.memory.cached (n.paddr + i) = none ∧ m.memory.dram (n.paddr + i) = m.last k i

variable {p : Program} {m m' : Machine} {r : Routine} {outcome : Outcome}

/-- After the `toTpu` of its inputs a TPU routine finds them in DRAM. -/
theorem eachNeuron_toTpu (layout : p.Layout) (inv : p.Inv m)
    (safe : Run.Admits (p.onNeuron Neuron.toTpu) p.ToTpuSafe m r.inputs)
    (done : p.eachNeuron Neuron.toTpu r.inputs m = some m') :
    p.Inv m' ∧ ∀ k ∈ r.inputs, m'.state k = .tpuMem := by
  constructor
  · refine Run.run_invariant ?_ inv safe done
    intro m₁ k m₂ inv₁ safe₁ stepped
    obtain ⟨n, found, moved⟩ := Option.bind_eq_some_iff.mp stepped
    exact toTpu_inv layout inv₁ found safe₁ moved
  · refine Run.run_establishes (Q := fun k (m : Machine) => m.state k = .tpuMem) ?_ ?_ done
    · intro m₁ k m₂ stepped
      obtain ⟨n, -, moved⟩ := Option.bind_eq_some_iff.mp stepped
      exact (toTpu_state moved).1
    · intro m₁ k m₂ j before stepped
      obtain ⟨n, -, moved⟩ := Option.bind_eq_some_iff.mp stepped
      exact (toTpu_state moved).2 j before

/-- After the `toCpu` of its inputs a CPU routine finds them through the processor. -/
theorem eachNeuron_toCpu (layout : p.Layout) (inv : p.Inv m)
    (done : p.eachNeuron Neuron.toCpu r.inputs m = some m') :
    p.Inv m' ∧ ∀ k ∈ r.inputs, m'.state k = .cpuMem := by
  constructor
  · refine Run.run_preserves ?_ inv done
    intro m₁ k m₂ inv₁ stepped
    obtain ⟨n, found, moved⟩ := Option.bind_eq_some_iff.mp stepped
    exact toCpu_inv layout inv₁ found moved
  · refine Run.run_establishes (Q := fun k (m : Machine) => m.state k = .cpuMem) ?_ ?_ done
    · intro m₁ k m₂ stepped
      obtain ⟨n, -, moved⟩ := Option.bind_eq_some_iff.mp stepped
      exact (toCpu_state moved).1
    · intro m₁ k m₂ j before stepped
      obtain ⟨n, -, moved⟩ := Option.bind_eq_some_iff.mp stepped
      exact (toCpu_state moved).2 j before

theorem eachNeuron_cpuFuncRead (layout : p.Layout) (inv : p.Inv m)
    (state : ∀ k ∈ r.inputs, m.state k = .cpuMem)
    (done : p.eachNeuron Neuron.cpuFuncRead r.inputs m = some m') : p.Inv m' := by
  have members : Run.Admits (p.onNeuron Neuron.cpuFuncRead) (fun _ k => k ∈ r.inputs) m r.inputs :=
    Run.Admits.of_forall (fun _ _ member => member) (fun _ member => member)
  have preserve : ∀ (m₁ : Machine) (k : Nat) (m₂ : Machine),
      (p.Inv m₁ ∧ ∀ j ∈ r.inputs, m₁.state j = .cpuMem) → k ∈ r.inputs →
      p.onNeuron Neuron.cpuFuncRead m₁ k = some m₂ →
      p.Inv m₂ ∧ ∀ j ∈ r.inputs, m₂.state j = .cpuMem := by
    intro m₁ k m₂ before member stepped
    obtain ⟨n, found, moved⟩ := Option.bind_eq_some_iff.mp stepped
    obtain ⟨inv₂, same⟩ := cpuFuncRead_inv layout before.1 found (before.2 k member) moved
    refine ⟨inv₂, ?_⟩
    rw [same]
    exact before.2
  exact (Run.run_invariant preserve ⟨inv, state⟩ members done).1

/-- A routine that meets its conditions keeps the invariant. -/
theorem runRoutine_inv {rc : Int} (layout : p.Layout) (inv : p.Inv m)
    (safe : p.RoutineSafe r outcome m) (done : p.runRoutine r outcome m = some (rc, m')) :
    p.Inv m' := by
  unfold runRoutine at done
  unfold RoutineSafe at safe
  cases kind : r.kind with
  | tpu =>
    simp only [kind] at safe
    simp only [kind, tpuRoutineRun, Option.bind_eq_some_iff, Option.map_eq_some_iff] at done
    obtain ⟨m₁, moved, m₂, written, same⟩ := done
    cases same
    refine Run.run_invariant ?_ (eachNeuron_toTpu layout inv safe.1 moved).1 (safe.2 m₁ moved)
      written
    intro u k u' before admissible stepped
    obtain ⟨n, found, same⟩ := Option.bind_eq_some_iff.mp stepped
    cases same
    exact tpuWrite_inv layout before found admissible
  | cpu =>
    simp only [kind] at safe
    simp only [kind, cpuRoutineRun, Option.bind_eq_some_iff, Option.map_eq_some_iff] at done
    obtain ⟨m₁, moved, m₂, read, m₃, written, same⟩ := done
    cases same
    obtain ⟨inv₁, state₁⟩ := eachNeuron_toCpu layout inv moved
    refine Run.run_invariant ?_ (eachNeuron_cpuFuncRead layout inv₁ state₁ read)
      (safe m₁ m₂ moved read) written
    intro u k u' before admissible stepped
    obtain ⟨n, found, stored⟩ := Option.bind_eq_some_iff.mp stepped
    exact cpuFuncWrite_inv layout before found admissible stored

theorem runRoutine_coherent (layout : p.Layout) (inv : p.Inv m)
    (safe : p.RoutineSafe r outcome m) : p.RoutineCoherent r m := by
  unfold RoutineSafe at safe
  unfold RoutineCoherent
  cases kind : r.kind with
  | tpu =>
    simp only [kind] at safe
    intro m₁ moved k member n found
    obtain ⟨inv₁, state₁⟩ := eachNeuron_toTpu layout inv safe.1 moved
    exact (neuronInv_tpu (state₁ k member)).mp (inv₁ k n found)
  | cpu =>
    intro m₁ moved k member n found bytes m₂ read i small
    obtain ⟨inv₁, state₁⟩ := eachNeuron_toCpu layout inv moved
    obtain ⟨paddr, base, backing, -, -⟩ := layout.carved k n found
    simp only [Neuron.readSysMem, backing, Option.some.injEq, Prod.mk.injEq] at read
    obtain ⟨rfl, -⟩ := read
    have seen := ((neuronInv_cpu (state₁ k member)).mp (inv₁ k n found) i small).1
    simpa [Neuron.paddr, backing] using seen

theorem step_inv (layout : p.Layout) (m : Machine) (action : Action) (m' : Machine)
    (inv : p.Inv m) (safe : p.Safe m action) (stepped : p.step m action = some m') :
    p.Inv m' := by
  cases action with
  | load k tensor =>
    obtain ⟨n, found, loaded⟩ := Option.bind_eq_some_iff.mp stepped
    exact load_inv layout inv found safe loaded
  | reset => exact reset_inv inv safe stepped
  | routine index outcome =>
    obtain ⟨r, found, ran⟩ := Option.bind_eq_some_iff.mp stepped
    obtain ⟨⟨rc, m₁⟩, done, rfl⟩ := Option.map_eq_some_iff.mp ran
    exact runRoutine_inv layout inv (safe r found) done
  | store k tensor =>
    obtain ⟨n, found, stored⟩ := Option.bind_eq_some_iff.mp stepped
    obtain ⟨⟨bytes, m₁⟩, done, rfl⟩ := Option.map_eq_some_iff.mp stored
    exact store_inv layout inv found done

theorem step_coherent (layout : p.Layout) (action : Action) (inv : p.Inv m)
    (safe : p.Safe m action) : p.Coherent m action := by
  cases action with
  | load k tensor => trivial
  | reset => trivial
  | routine index outcome =>
    intro r found
    exact runRoutine_coherent layout inv (safe r found)
  | store k tensor =>
    intro n found bytes m' done
    exact store_delivers layout inv found safe done

theorem Fresh.inv (fresh : p.Fresh m) : p.Inv m := by
  intro k n found
  cases state : m.state k with
  | tpuMem =>
    rw [neuronInv_tpu state]
    intro i small
    exact (fresh k n found i small).2
  | cpuMem =>
    rw [neuronInv_cpu state]
    intro i small
    obtain ⟨uncached, written⟩ := fresh k n found i small
    refine ⟨?_, cleanAgrees_of_uncached uncached⟩
    simpa [view, uncached] using written

/-- Inferences one after the other. -/
def inferences (p : Program) (m : Machine) (calls : List (Call × (Nat → Outcome))) :
    Option Machine :=
  Run.run (fun m (call, hw) => (p.forward call hw m).map Result.machine) m calls

/-- The steps of some inferences. -/
def allActions (p : Program) (calls : List (Call × (Nat → Outcome))) : List Action :=
  calls.flatMap fun (call, hw) => p.actions call hw

theorem inferences_run :
    ∀ {calls : List (Call × (Nat → Outcome))} {m m' : Machine},
      p.inferences m calls = some m' → Run.run p.step m (p.allActions calls) = some m' := by
  intro calls
  induction calls with
  | nil =>
    intro m m' done
    exact done
  | cons call calls ih =>
    intro m m' done
    obtain ⟨m₁, first, rest⟩ := Run.run_cons.mp done
    obtain ⟨result, returned, rfl⟩ := Option.map_eq_some_iff.mp first
    exact Run.run_append.mpr ⟨_, forward_run returned, ih rest⟩

/-- In every run of inferences whose steps all meet `Safe`, each TPU routine finds the last
    written bytes of its inputs in DRAM, each CPU routine reads those of its inputs, and each
    store delivers those of its neuron. -/
theorem inference_coherent (p : Program) (layout : p.Layout) (m : Machine) (fresh : p.Fresh m)
    (calls : List (Call × (Nat → Outcome)))
    (safe : Run.Admits p.step p.Safe m (p.allActions calls)) :
    (∀ before action after u, p.allActions calls = before ++ action :: after →
      Run.run p.step m before = some u → p.Coherent u action) ∧
    ∀ m', p.inferences m calls = some m' →
      Run.run p.step m (p.allActions calls) = some m' := by
  refine ⟨?_, fun m' done => inferences_run done⟩
  intro before action after u split reached
  rw [split] at safe
  have inv := Run.run_invariant (step_inv layout) fresh.inv safe.of_append reached
  exact step_coherent layout action inv (safe.of_reached reached).1

/-! ## Two neurons of one base block -/

/-- Two neurons of 64 bytes in a base block of 128. -/
def pairNeurons : List Neuron :=
  [⟨64, 1, 64, 64, false, .device 0 (0, 128)⟩, ⟨64, 1, 64, 64, false, .device 64 (0, 128)⟩]

theorem mem_pairNeurons {k : Nat} {n : Neuron} (found : pairNeurons[k]? = some n) :
    (k = 0 ∧ n = ⟨64, 1, 64, 64, false, .device 0 (0, 128)⟩) ∨
      (k = 1 ∧ n = ⟨64, 1, 64, 64, false, .device 64 (0, 128)⟩) := by
  match k, found with
  | 0, found => exact Or.inl ⟨rfl, (Option.some.inj found).symm⟩
  | 1, found => exact Or.inr ⟨rfl, (Option.some.inj found).symm⟩

theorem layout_pairNeurons {p : Program} (neurons : p.neurons = pairNeurons) : p.Layout := by
  constructor
  · intro k n found
    rw [neurons] at found
    rcases mem_pairNeurons found with ⟨-, rfl⟩ | ⟨-, rfl⟩
    · exact ⟨0, (0, 128), rfl, by decide, by decide⟩
    · exact ⟨64, (0, 128), rfl, by decide, by decide⟩
  · intro j k nj nk foundJ foundK other a inside
    rw [neurons] at foundJ foundK
    simp only [Neuron.gmem] at inside ⊢
    rcases mem_pairNeurons foundJ with ⟨rfl, rfl⟩ | ⟨rfl, rfl⟩ <;>
      rcases mem_pairNeurons foundK with ⟨rfl, rfl⟩ | ⟨rfl, rfl⟩
    · exact absurd rfl other
    · simp only [Bool.and_eq_true, decide_eq_true_eq, Bool.and_eq_false_iff,
        decide_eq_false_iff_not] at inside ⊢
      omega
    · simp only [Bool.and_eq_true, decide_eq_true_eq, Bool.and_eq_false_iff,
        decide_eq_false_iff_not] at inside ⊢
      omega
    · exact absurd rfl other

theorem fresh_zeroed (p : Program) : p.Fresh zeroed := fun _ _ _ _ _ => ⟨rfl, rfl⟩

/-- A TPU routine from one of the neurons to the other. -/
def tpuCopy : Program where
  neurons := pairNeurons
  inTensors := [0]
  outTensors := [1]
  exportAllTensors := false
  routines := [⟨.tpu, [0], [1]⟩]

/-- With every neuron in `TPU_MEM`, `tpuCopy` meets the conditions of all its steps. -/
theorem tpuCopy_safe (hw : Nat → Outcome) :
    Run.Admits tpuCopy.step tpuCopy.Safe zeroed (tpuCopy.allActions [(oneTensor, hw)]) := by
  refine ⟨trivial, ?_⟩
  intro m₁ loaded
  obtain rfl := Option.some.inj loaded
  refine ⟨?_, ?_⟩
  · intro k n found changed
    rcases mem_pairNeurons found with ⟨rfl, -⟩ | ⟨rfl, -⟩
    · exact absurd rfl changed
    · exact absurd rfl changed
  · intro m₂ resetted
    obtain rfl := Option.some.inj resetted
    refine ⟨?_, ?_⟩
    · intro r found
      obtain rfl := Option.some.inj found
      refine ⟨⟨?_, fun _ _ => trivial⟩, ?_⟩
      · intro inCpu
        cases inCpu
      · intro m₃ moved
        obtain rfl := Option.some.inj moved
        exact ⟨fun n _ => Or.inl rfl, fun _ _ => trivial⟩
    · intro m₃ ran
      refine ⟨?_, fun _ _ => trivial⟩
      rintro (device | device) <;> cases device

/-- The input of `tpuCopy` is in DRAM when its routine starts. -/
theorem inference_coherent_tpuCopy :
    ∃ u, Run.run tpuCopy.step zeroed [.load 0 (.system fun _ => 1), .reset] = some u ∧
      tpuCopy.Coherent u (.routine 0 ⟨0, fun _ _ => some 9⟩) := by
  refine ⟨_, rfl, ?_⟩
  exact (inference_coherent tpuCopy (layout_pairNeurons rfl) zeroed (fresh_zeroed tpuCopy)
    [(oneTensor, fun _ => ⟨0, fun _ _ => some 9⟩)] (tpuCopy_safe _)).1
      [.load 0 (.system fun _ => 1), .reset] _ [.store 1 .system] _ rfl rfl

/-- A CPU routine writes both neurons, and a TPU routine reads them. -/
def cpuPair : Program where
  neurons := pairNeurons
  inTensors := []
  outTensors := []
  exportAllTensors := false
  routines := [⟨.cpu, [], [0, 1]⟩, ⟨.tpu, [0, 1], []⟩]

/-- `toTpu` of the first neuron flushes it and invalidates the block of both: what the CPU
    routine wrote to the second is lost before the TPU reads it. -/
theorem cpuPair_not_coherent :
    cpuPair.Layout ∧ cpuPair.Fresh zeroed ∧
      ∃ u, Run.run cpuPair.step zeroed [.reset, .routine 0 ⟨0, fun _ _ => some 1⟩] = some u ∧
        cpuPair.allActions [(⟨[], []⟩, fun _ => ⟨0, fun _ _ => some 1⟩)] =
          [.reset, .routine 0 ⟨0, fun _ _ => some 1⟩, .routine 1 ⟨0, fun _ _ => some 1⟩] ∧
        ¬ cpuPair.Coherent u (.routine 1 ⟨0, fun _ _ => some 1⟩) := by
  refine ⟨layout_pairNeurons rfl, fresh_zeroed cpuPair, _, rfl, rfl, ?_⟩
  intro coherent
  have stale := coherent _ rfl _ rfl 1 (by decide) _ rfl 0 (by decide)
  exact absurd stale (by decide)

end Program

end CviRuntime.Runtime
