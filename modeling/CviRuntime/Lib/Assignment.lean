import Mathlib.Algebra.BigOperators.Group.List.Basic
import Mathlib.Data.List.Nodup
import Mathlib.Logic.Function.Basic

/-!
# Kernels as lists of assignments

An assignment computes a value from cells of a memory and writes it to a cell. The computation reads
one cell after the other, and what it has read can decide which one comes next; no other cell can
change its value. Where no assignment of a list reads what another one writes, each computes its
value in the memory that the list starts from.
-/

namespace CviRuntime.Assignment

universe u v w

/-! ## Computations that read -/

/-- A computation that reads cells. -/
inductive Reading (ι : Type u) (α : Type v) (β : Type w) where
  | result (value : β)
  | read (cell : ι) (next : α → Reading ι α β)

namespace Reading

section

variable {ι : Type u} {α : Type v} {β γ : Type w}

/-- What is computed in a memory. -/
def value (memory : ι → α) : Reading ι α β → β
  | .result b => b
  | .read cell next => (next (memory cell)).value memory

/-- The cells in the order in which they are read. -/
def reads (memory : ι → α) : Reading ι α β → List ι
  | .result _ => []
  | .read cell next => cell :: (next (memory cell)).reads memory

protected def bind : Reading ι α β → (β → Reading ι α γ) → Reading ι α γ
  | .result b, f => f b
  | .read cell next, f => .read cell fun a => (next a).bind f

instance : Monad (Reading ι α) where
  pure := .result
  bind := Reading.bind

variable {memory memory' : ι → α}

@[simp] theorem value_pure (b : β) : value memory (pure b : Reading ι α β) = b := rfl

@[simp] theorem reads_pure (b : β) : reads memory (pure b : Reading ι α β) = [] := rfl

@[simp] theorem value_bind (reading : Reading ι α β) (f : β → Reading ι α γ) :
    value memory (reading >>= f) = value memory (f (value memory reading)) := by
  induction reading with
  | result b => rfl
  | read cell next ih => exact ih (memory cell)

@[simp] theorem reads_bind (reading : Reading ι α β) (f : β → Reading ι α γ) :
    reads memory (reading >>= f) =
      reads memory reading ++ reads memory (f (value memory reading)) := by
  induction reading with
  | result b => rfl
  | read cell next ih => exact congrArg (cell :: ·) (ih (memory cell))

/-- Only the cells that are read matter. -/
theorem value_congr {reading : Reading ι α β}
    (agree : ∀ cell ∈ reads memory reading, memory' cell = memory cell) :
    value memory' reading = value memory reading := by
  induction reading with
  | result b => rfl
  | read cell next ih =>
    have first : memory' cell = memory cell := agree cell List.mem_cons_self
    rw [value, value, first]
    exact ih _ fun cell' member => agree cell' (List.mem_cons_of_mem _ member)

theorem reads_congr {reading : Reading ι α β}
    (agree : ∀ cell ∈ reads memory reading, memory' cell = memory cell) :
    reads memory' reading = reads memory reading := by
  induction reading with
  | result b => rfl
  | read cell next ih =>
    have first : memory' cell = memory cell := agree cell List.mem_cons_self
    rw [reads, reads, first]
    exact congrArg (cell :: ·)
      (ih _ fun cell' member => agree cell' (List.mem_cons_of_mem _ member))

/-! ## Loops that accumulate -/

variable {δ : Type*} {f : β → δ → Reading ι α β}

theorem value_foldlM {g : β → δ → β} (step : ∀ b d, value memory (f b d) = g b d)
    (ds : List δ) (b : β) : value memory (ds.foldlM f b) = ds.foldl g b := by
  induction ds generalizing b with
  | nil => rfl
  | cons d ds ih => rw [List.foldlM_cons, value_bind, step, ih, List.foldl_cons]

/-- A loop that adds up. -/
theorem value_sum {ε : Type w} [AddMonoid ε] {f : ε → δ → Reading ι α ε} {term : δ → ε}
    (step : ∀ e d, value memory (f e d) = e + term d) (ds : List δ) :
    value memory (ds.foldlM f 0) = (ds.map term).sum := by
  rw [value_foldlM step, List.sum_eq_foldl, List.foldl_map]

theorem reads_foldlM {cells : δ → List ι} (step : ∀ b d, reads memory (f b d) = cells d)
    (ds : List δ) (b : β) : reads memory (ds.foldlM f b) = ds.flatMap cells := by
  induction ds generalizing b with
  | nil => rfl
  | cons d ds ih => rw [List.foldlM_cons, reads_bind, step, ih, List.flatMap_cons]

end

/-! ## Reading a cell -/

section

variable {ι : Type u} {α : Type v} {memory : ι → α}

def load (cell : ι) : Reading ι α α := .read cell .result

@[simp] theorem value_load (cell : ι) : value memory (load cell) = memory cell := rfl

@[simp] theorem reads_load (cell : ι) : reads memory (load cell : Reading ι α α) = [cell] := rfl

/-- What a cell holds, or 0 without reading it. -/
def loadIf [Zero α] (guard : Prop) [Decidable guard] (cell : ι) : Reading ι α α :=
  if guard then load cell else pure 0

variable [Zero α] {guard : Prop} [Decidable guard]

theorem value_loadIf (cell : ι) :
    value memory (loadIf guard cell) = if guard then memory cell else 0 := by
  unfold loadIf
  split
  · rfl
  · rfl

theorem mem_reads_loadIf {cell cell' : ι} :
    cell' ∈ reads memory (loadIf guard cell : Reading ι α α) ↔ guard ∧ cell' = cell := by
  unfold loadIf
  split
  · next holds => simp [holds]
  · next fails => simp [fails]

end

end Reading

/-! ## Assignments -/

section

variable {ι : Type u} {α : Type v} [DecidableEq ι]

structure Assign (ι : Type u) (α : Type v) where
  target : ι
  source : Reading ι α α

inductive Access (ι : Type u) where
  | read (cell : ι)
  | write (cell : ι)

def Access.cell : Access ι → ι
  | .read cell => cell
  | .write cell => cell

/-- The memory after the assignments, one after the other. -/
def perform (program : List (Assign ι α)) (memory : ι → α) : ι → α :=
  program.foldl (fun memory a => Function.update memory a.target (a.source.value memory)) memory

/-- What an assignment reads and writes. -/
def accesses (memory : ι → α) (a : Assign ι α) : List (Access ι) :=
  (a.source.reads memory).map .read ++ [.write a.target]

/-- What the assignments read and write, in order. -/
def trace : List (Assign ι α) → (ι → α) → List (Access ι)
  | [], _ => []
  | a :: program, memory =>
    accesses memory a ++
      trace program (Function.update memory a.target (a.source.value memory))

/-- The accesses of programs that run one after the other, apart for each of them. -/
def traces : List (List (Assign ι α)) → (ι → α) → List (List (Access ι))
  | [], _ => []
  | program :: programs, memory => trace program memory :: traces programs (perform program memory)

variable {program : List (Assign ι α)} {memory : ι → α} {a : Assign ι α}

theorem perform_cons : perform (a :: program) memory =
    perform program (Function.update memory a.target (a.source.value memory)) := rfl

theorem perform_append (more : List (Assign ι α)) :
    perform (program ++ more) memory = perform more (perform program memory) :=
  List.foldl_append

theorem trace_append (more : List (Assign ι α)) :
    trace (program ++ more) memory =
      trace program memory ++ trace more (perform program memory) := by
  induction program generalizing memory with
  | nil => rfl
  | cons a program ih => rw [List.cons_append, trace, trace, ih, List.append_assoc, perform_cons]

theorem length_traces (programs : List (List (Assign ι α))) (memory : ι → α) :
    (traces programs memory).length = programs.length := by
  induction programs generalizing memory with
  | nil => rfl
  | cons program programs ih => exact congrArg (· + 1) (ih _)

/-- A cell that is not assigned to keeps what it holds. -/
theorem perform_of_notMem {cell : ι} (untouched : cell ∉ program.map Assign.target) :
    perform program memory cell = memory cell := by
  induction program generalizing memory with
  | nil => rfl
  | cons a program ih =>
    rw [List.map_cons, List.mem_cons, not_or] at untouched
    rw [perform_cons, ih untouched.2, Function.update_of_ne untouched.1]

/-- No cell is assigned to twice, and no assignment reads what another one writes. -/
structure Apart (program : List (Assign ι α)) (memory : ι → α) : Prop where
  once : (program.map Assign.target).Nodup
  own : ∀ a ∈ program, ∀ cell ∈ a.source.reads memory,
    cell ∈ program.map Assign.target → cell = a.target

/-- The first assignment does not change what the others read. -/
theorem Apart.agree (apart : Apart (a :: program) memory) {a' : Assign ι α}
    (member : a' ∈ program) (x : α) :
    ∀ cell ∈ a'.source.reads memory, Function.update memory a.target x cell = memory cell := by
  intro cell inReads
  obtain ⟨fresh, -⟩ := List.nodup_cons.mp apart.once
  refine Function.update_of_ne (fun same => fresh ?_) x memory
  have own := apart.own a' (List.mem_cons_of_mem _ member) cell inReads
    (same ▸ List.mem_cons_self)
  rw [← same, own]
  exact List.mem_map_of_mem member

theorem Apart.tail (apart : Apart (a :: program) memory) (x : α) :
    Apart program (Function.update memory a.target x) := by
  refine ⟨(List.nodup_cons.mp apart.once).2, fun a' member cell inReads isTarget => ?_⟩
  rw [Reading.reads_congr (apart.agree member x)] at inReads
  exact apart.own a' (List.mem_cons_of_mem _ member) cell inReads (List.mem_cons_of_mem _ isTarget)

/-- A cell holds what its assignment computes in the memory before. -/
theorem Apart.perform_of_mem (apart : Apart program memory) (member : a ∈ program) :
    perform program memory a.target = a.source.value memory := by
  induction program generalizing memory with
  | nil => cases member
  | cons a₀ program ih =>
    rw [perform_cons]
    cases List.mem_cons.mp member with
    | inl head =>
      subst head
      rw [perform_of_notMem (List.nodup_cons.mp apart.once).1, Function.update_self]
    | inr tail =>
      rw [ih (apart.tail _) tail, Reading.value_congr (apart.agree tail _)]

theorem Apart.trace_eq (apart : Apart program memory) :
    trace program memory = program.flatMap (accesses memory) := by
  induction program generalizing memory with
  | nil => rfl
  | cons a program ih =>
    have same : ∀ a' ∈ program,
        accesses (Function.update memory a.target (a.source.value memory)) a' =
          accesses memory a' := fun a' member => by
      rw [accesses, Reading.reads_congr (apart.agree member _), accesses]
    rw [trace, ih (apart.tail _), List.flatMap_cons, List.flatMap_congr same]

end

/-! ## Accesses -/

section

variable {ι : Type u} {α : Type v} {program : List (Assign ι α)} {memory : ι → α}
  {a : Assign ι α} {cell : ι} {front accessList back : List (Access ι)}

theorem read_mem_accesses :
    Access.read cell ∈ program.flatMap (accesses memory) ↔
      ∃ a ∈ program, cell ∈ a.source.reads memory := by
  simp [accesses]

theorem write_mem_accesses :
    Access.write cell ∈ program.flatMap (accesses memory) ↔
      cell ∈ program.map Assign.target := by
  simp [accesses, eq_comm]

/-- What holds of all cells that are read or written holds of the accesses. -/
theorem forall_accesses {P : ι → Prop} (targets : ∀ a ∈ program, P a.target)
    (sources : ∀ a ∈ program, ∀ cell ∈ a.source.reads memory, P cell) :
    ∀ access ∈ program.flatMap (accesses memory), P access.cell := by
  intro access member
  cases access with
  | read cell =>
    obtain ⟨a, inProgram, inReads⟩ := read_mem_accesses.mp member
    exact sources a inProgram cell inReads
  | write cell =>
    obtain ⟨a, inProgram, rfl⟩ := List.mem_map.mp (write_mem_accesses.mp member)
    exact targets a inProgram

/-- The cell is written exactly once, and not read before. -/
def WrittenFirst (cell : ι) (accessList : List (Access ι)) : Prop :=
  ∃ before after, accessList = before ++ Access.write cell :: after ∧
    Access.read cell ∉ before ∧ Access.write cell ∉ before ∧ Access.write cell ∉ after

theorem WrittenFirst.append_left (written : WrittenFirst cell accessList)
    (unread : Access.read cell ∉ front) (unwritten : Access.write cell ∉ front) :
    WrittenFirst cell (front ++ accessList) := by
  obtain ⟨before, after, rfl, noRead, noWrite, last⟩ := written
  refine ⟨front ++ before, after, (List.append_assoc _ _ _).symm, ?_, ?_, last⟩
  · exact List.mem_append.not.mpr (not_or.mpr ⟨unread, noRead⟩)
  · exact List.mem_append.not.mpr (not_or.mpr ⟨unwritten, noWrite⟩)

theorem WrittenFirst.append_right (written : WrittenFirst cell accessList)
    (unwritten : Access.write cell ∉ back) : WrittenFirst cell (accessList ++ back) := by
  obtain ⟨before, after, rfl, noRead, noWrite, last⟩ := written
  refine ⟨before, after ++ back, by simp, noRead, noWrite, ?_⟩
  exact List.mem_append.not.mpr (not_or.mpr ⟨last, unwritten⟩)

/-- Assignments that read none of their targets write each of them first. -/
theorem writtenFirst_of_mem (once : (program.map Assign.target).Nodup) (member : a ∈ program)
    (unread : ∀ a' ∈ program, a.target ∉ a'.source.reads memory) :
    WrittenFirst a.target (program.flatMap (accesses memory)) := by
  obtain ⟨before, after, rfl⟩ := List.append_of_mem member
  rw [List.map_append, List.map_cons, List.nodup_middle, List.nodup_cons, List.mem_append,
    not_or] at once
  have own : WrittenFirst a.target (accesses memory a) := by
    refine ⟨_, [], rfl, fun isRead => ?_, by simp, List.not_mem_nil⟩
    obtain ⟨cell, inReads, same⟩ := List.mem_map.mp isRead
    exact unread a member (Access.read.inj same ▸ inReads)
  rw [List.flatMap_append, List.flatMap_cons]
  refine (own.append_right ?_).append_left ?_ ?_
  · rw [write_mem_accesses]
    exact once.1.2
  · rw [read_mem_accesses]
    rintro ⟨a', inBefore, inReads⟩
    exact unread a' (List.mem_append_left _ inBefore) inReads
  · rw [write_mem_accesses]
    exact once.1.1

end

end CviRuntime.Assignment
