import Mathlib.Algebra.Order.Ring.Nat
import Mathlib.Data.List.Basic

/-!
# LZ77 sequences

A sequence is a run of literals and a match, which repeats what was written some distance back.
A match may be longer than its distance; it then repeats what it has just written.
-/

namespace CviRuntime.Lz77

variable {α : Type*}

/-- The value `offset` back from the end, `d` where there is none. -/
def back (d : α) (offset : Nat) (out : List α) : α := out[out.length - offset]?.getD d

/-- `n` values copied one after the other from `offset` back. -/
def copyBack (d : α) (offset : Nat) : Nat → List α → List α
  | 0, out => out
  | n + 1, out => copyBack d offset n (out ++ [back d offset out])

structure Sequence (α : Type*) where
  literals : List α
  offset : Nat
  matchLength : Nat
  deriving DecidableEq, Repr

/-- What a sequence adds. -/
def Sequence.run (d : α) (out : List α) (s : Sequence α) : List α :=
  copyBack d s.offset s.matchLength (out ++ s.literals)

/-- What sequences add, one after the other. -/
def expand (d : α) (out : List α) (sequences : List (Sequence α)) : List α :=
  sequences.foldl (Sequence.run d) out

section

variable {d : α} {offset n m i : Nat} {out : List α}

@[simp] theorem length_copyBack : (copyBack d offset n out).length = out.length + n := by
  induction n generalizing out with
  | zero => rfl
  | succ n ih =>
    rw [copyBack, ih, List.length_append, List.length_singleton]
    omega

theorem copyBack_add :
    copyBack d offset (n + m) out = copyBack d offset m (copyBack d offset n out) := by
  induction n generalizing out with
  | zero => rw [Nat.zero_add, copyBack]
  | succ n ih => rw [Nat.succ_add, copyBack, copyBack, ih]

/-- A copy leaves what is there. -/
theorem getElem?_copyBack_left (old : i < out.length) :
    (copyBack d offset n out)[i]? = out[i]? := by
  induction n generalizing out with
  | zero => rfl
  | succ n ih =>
    have longer : i < (out ++ [back d offset out]).length := by
      rw [List.length_append]
      omega
    rw [copyBack, ih longer, List.getElem?_append_left old]

/-- A longer copy begins like a shorter one. -/
theorem getElem?_copyBack_le (less : n ≤ m) (inside : i < out.length + n) :
    (copyBack d offset m out)[i]? = (copyBack d offset n out)[i]? := by
  obtain ⟨rest, rfl⟩ := Nat.exists_eq_add_of_le less
  rw [copyBack_add, getElem?_copyBack_left]
  rwa [length_copyBack]

/-- Each value copied is the one `offset` before it. -/
theorem getElem?_copyBack (positive : 0 < offset) (reaches : offset ≤ out.length)
    (new : out.length ≤ i) (inside : i < out.length + n) :
    (copyBack d offset n out)[i]? = (copyBack d offset n out)[i - offset]? := by
  induction n generalizing out with
  | zero => omega
  | succ n ih =>
    have longer : (out ++ [back d offset out]).length = out.length + 1 := by simp
    by_cases first : i = out.length
    · subst first
      rw [copyBack, getElem?_copyBack_left (by omega), getElem?_copyBack_left (by omega),
        List.getElem?_append_right (Nat.le_refl _), List.getElem?_append_left (by omega)]
      have there : out.length - offset < out.length := by omega
      simp [back, there]
    · rw [copyBack]
      exact ih (by omega) (by omega) (by omega)

/-- With nothing to copy from, the default is repeated. -/
theorem getElem?_copyBack_zero (new : out.length ≤ i) :
    ((copyBack d 0 n out)[i]?).getD d = d := by
  induction n generalizing out with
  | zero =>
    have none : out[i]? = none := List.getElem?_eq_none new
    simp [copyBack, none]
  | succ n ih =>
    have longer : (out ++ [back d 0 out]).length = out.length + 1 := by simp
    by_cases first : i = out.length
    · subst first
      rw [copyBack, getElem?_copyBack_left (by omega), List.getElem?_append_right (Nat.le_refl _)]
      simp [back]
    · rw [copyBack]
      exact ih (by omega)

/-- A copy repeats itself at every multiple of its distance. -/
theorem getElem?_copyBack_sub (k : Nat) (positive : 0 < offset) (reaches : offset ≤ out.length)
    (new : out.length + k * offset ≤ i + offset) (inside : i < out.length + n) :
    (copyBack d offset n out)[i - k * offset]? = (copyBack d offset n out)[i]? := by
  induction k with
  | zero => rw [Nat.zero_mul, Nat.sub_zero]
  | succ k ih =>
    rw [Nat.succ_mul] at new ⊢
    have last := getElem?_copyBack (d := d) (i := i - k * offset) (n := n) positive reaches
      (by omega) (by omega)
    rw [← Nat.sub_sub, ← last]
    exact ih (by omega)

/-- A copy of values that were compared gives what they were compared with. -/
theorem copyBack_take {whole : List α} {pos : Nat} (positive : 0 < offset)
    (reaches : offset ≤ pos) (fits : pos + n ≤ whole.length)
    (same : ∀ k, k < n → whole[pos + k - offset]? = whole[pos + k]?) :
    copyBack d offset n (whole.take pos) = whole.take (pos + n) := by
  induction n generalizing pos with
  | zero => rfl
  | succ n ih =>
    have shorter : (whole.take pos).length = pos := List.length_take_of_le (by omega)
    have there : pos < whole.length := by omega
    have value : back d offset (whole.take pos) = whole[pos] := by
      have first := same 0 (Nat.succ_pos n)
      rw [back, shorter, List.getElem?_take_of_lt (by omega)]
      rw [Nat.add_zero] at first
      rw [first, List.getElem?_eq_getElem there, Option.getD_some]
    rw [copyBack, value, ← List.take_succ_eq_append_getElem there, ih (by omega) (by omega),
      Nat.add_right_comm, Nat.add_assoc]
    intro k below
    have later := same (k + 1) (Nat.succ_lt_succ below)
    rwa [← Nat.add_assoc, Nat.add_right_comm] at later

@[simp] theorem length_run (s : Sequence α) :
    (s.run d out).length = out.length + s.literals.length + s.matchLength := by
  rw [Sequence.run, length_copyBack, List.length_append]

theorem expand_append (first second : List (Sequence α)) :
    expand d out (first ++ second) = expand d (expand d out first) second :=
  List.foldl_append

end

end CviRuntime.Lz77
