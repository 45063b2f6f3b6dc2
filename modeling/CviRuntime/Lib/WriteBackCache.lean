import Mathlib.Logic.Basic

/-!
# A memory behind a write-back cache

A device reads and writes `dram`; a processor reads and writes through `cached`,
whose lines are as wide as one value. The processor's writes stay in the cache
until `flush` writes them back, and `invld` drops lines, written back or not.
-/

namespace CviRuntime

/-- A cached value, and whether it still has to be written back. -/
structure Line (β : Type*) where
  value : β
  dirty : Bool
  deriving DecidableEq, Repr

structure WriteBackCache (α β : Type*) where
  dram : α → β
  cached : α → Option (Line β)

namespace WriteBackCache

variable {α β : Type*}

/-- What the processor reads at an address. -/
def view (m : WriteBackCache α β) (a : α) : β :=
  match m.cached a with
  | some line => line.value
  | none => m.dram a

/-- The processor reads the addresses of `p`: missing lines are fetched. -/
def fill (m : WriteBackCache α β) (p : α → Bool) : WriteBackCache α β where
  dram := m.dram
  cached := fun a => if p a && (m.cached a).isNone then some ⟨m.dram a, false⟩ else m.cached a

/-- The processor writes the addresses where `w` has a value. -/
def cpuWrite (m : WriteBackCache α β) (w : α → Option β) : WriteBackCache α β where
  dram := m.dram
  cached := fun a =>
    match w a with
    | some value => some ⟨value, true⟩
    | none => m.cached a

/-- The device writes the addresses where `w` has a value. -/
def devWrite (m : WriteBackCache α β) (w : α → Option β) : WriteBackCache α β :=
  { m with dram := fun a => (w a).getD (m.dram a) }

/-- Write the dirty lines of `p` back; they stay cached. -/
def flush (m : WriteBackCache α β) (p : α → Bool) : WriteBackCache α β where
  dram := fun a =>
    match m.cached a with
    | some line => if p a && line.dirty then line.value else m.dram a
    | none => m.dram a
  cached := fun a =>
    if p a then (m.cached a).map fun line => { line with dirty := false } else m.cached a

/-- Drop the lines of `p`. -/
def invld (m : WriteBackCache α β) (p : α → Bool) : WriteBackCache α β :=
  { m with cached := fun a => if p a then none else m.cached a }

/-- A line that is not dirty holds what the memory holds. -/
def CleanAgrees (m : WriteBackCache α β) (a : α) : Prop :=
  ∀ line, m.cached a = some line → line.dirty = false → line.value = m.dram a

/-- Processor and device see the same value. -/
def Synced (m : WriteBackCache α β) (a : α) : Prop := m.view a = m.dram a

instance [DecidableEq β] (m : WriteBackCache α β) (a : α) : Decidable (Synced m a) :=
  inferInstanceAs (Decidable (_ = _))

variable {m : WriteBackCache α β} {p : α → Bool} {w : α → Option β} {a : α}

theorem Synced.cleanAgrees (synced : m.Synced a) : m.CleanAgrees a := by
  intro line here _
  simpa [Synced, view, here] using synced

/-- Reading does not change what is read. -/
@[simp] theorem view_fill : (m.fill p).view a = m.view a := by
  unfold view fill
  cases here : m.cached a with
  | none => by_cases inside : p a <;> simp [here, inside]
  | some line => simp [here]

theorem cleanAgrees_fill (agrees : m.CleanAgrees a) : (m.fill p).CleanAgrees a := by
  intro line here clean
  simp only [fill] at here
  split at here
  · cases here
    rfl
  · exact agrees line here clean

theorem view_cpuWrite : (m.cpuWrite w).view a = (w a).getD (m.view a) := by
  cases written : w a with
  | none => simp [view, cpuWrite, written]
  | some value => simp [view, cpuWrite, written]

theorem cleanAgrees_cpuWrite (agrees : m.CleanAgrees a) : (m.cpuWrite w).CleanAgrees a := by
  intro line here clean
  simp only [cpuWrite] at here
  split at here
  · cases here
    cases clean
  · exact agrees line here clean

theorem dram_devWrite : (m.devWrite w).dram a = (w a).getD (m.dram a) := rfl

/-- The device's writes pass the processor by where nothing is written. -/
theorem view_devWrite (untouched : w a = none) : (m.devWrite w).view a = m.view a := by
  simp [view, devWrite, untouched]

theorem view_devWrite_of_uncached (uncached : m.cached a = none) :
    (m.devWrite w).view a = (w a).getD (m.view a) := by
  simp [view, devWrite, uncached]

theorem cleanAgrees_devWrite (untouched : w a = none) (agrees : m.CleanAgrees a) :
    (m.devWrite w).CleanAgrees a := by
  intro line here clean
  rw [dram_devWrite, untouched]
  exact agrees line here clean

theorem cleanAgrees_of_uncached (uncached : m.cached a = none) : m.CleanAgrees a := by
  intro line here
  rw [uncached] at here
  cases here

/-- A flush brings to the memory what the processor sees, unless a clean line is stale. -/
theorem dram_flush (inside : p a = true) (agrees : m.CleanAgrees a) :
    (m.flush p).dram a = m.view a := by
  cases here : m.cached a with
  | none => simp [flush, view, here]
  | some line =>
    cases dirty : line.dirty with
    | true => simp [flush, view, here, inside, dirty]
    | false => simp [flush, view, here, dirty, agrees line here dirty]

theorem dram_flush_of_dirty {line : Line β} (inside : p a = true) (here : m.cached a = some line)
    (dirty : line.dirty = true) : (m.flush p).dram a = line.value := by
  simp [flush, here, inside, dirty]

theorem dram_flush_of_not_mem (outside : p a = false) : (m.flush p).dram a = m.dram a := by
  cases here : m.cached a <;> simp [flush, here, outside]

@[simp] theorem view_flush : (m.flush p).view a = m.view a := by
  cases here : m.cached a with
  | none => simp [view, flush, here]
  | some line => by_cases inside : p a <;> simp [view, flush, here, inside]

theorem cached_invld (inside : p a = true) : (m.invld p).cached a = none := by
  simp [invld, inside]

theorem cached_invld_of_not_mem (outside : p a = false) : (m.invld p).cached a = m.cached a := by
  simp [invld, outside]

/-- After an invalidation the processor sees the memory. -/
theorem view_invld (inside : p a = true) : (m.invld p).view a = m.dram a := by
  simp [view, invld, inside]

theorem view_invld_of_not_mem (outside : p a = false) : (m.invld p).view a = m.view a := by
  simp [view, invld, outside]

theorem cleanAgrees_invld (agrees : m.CleanAgrees a) : (m.invld p).CleanAgrees a := by
  intro line here clean
  simp only [invld] at here
  split at here
  · cases here
  · exact agrees line here clean

end WriteBackCache

end CviRuntime
