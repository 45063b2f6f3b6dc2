import CviRuntime.Lib.ByteMem
import CviRuntime.Lib.ChunkCopy

/-!
# Buffers of the LZ4 codec (`src/lz4/lz4_all.c`)

The output is a buffer of fixed size, its initial bytes are arbitrary. What is left of the input is
a list, so that `iend - ip` is its length. A read or a write outside of the two buffers and a
`memcpy` between places that overlap have no result.
-/

namespace CviRuntime.Lz4Block

open CviRuntime.ByteMem CviRuntime.ChunkCopy

/-- The destination; positions are relative to `dst`. -/
structure Output where
  size : Nat
  mem : Nat → UInt8

namespace Output

/-- Bytes written at `d`. -/
def put (out : Output) (d : Nat) (bytes : List UInt8) : Option Output :=
  if d + bytes.length ≤ out.size then some { out with mem := writeBytes out.mem d bytes } else none

/-- `*d = *s`. -/
def move (out : Output) (d s : Nat) : Option Output :=
  if s < out.size then out.put d [out.mem s] else none

/-- `n` bytes read at `s`. -/
def fetch (out : Output) (s n : Nat) : Option (List UInt8) :=
  if s + n ≤ out.size then some (readBytes out.mem s n) else none

/-- `LZ4_memcpy(d, s, n)` inside the output. -/
def memcpy (out : Output) (d s n : Nat) : Option Output :=
  if s + n ≤ out.size ∧ (s + n ≤ d ∨ d + n ≤ s) then out.put d (readBytes out.mem s n) else none

/-- `LZ4_memcpy(d, s, n)` from a list of bytes. -/
def load (out : Output) (input : List UInt8) (d s n : Nat) : Option Output :=
  if s + n ≤ input.length then out.put d ((input.drop s).take n) else none

end Output

/-- `LZ4_wildCopy8` (`lz4_all.c:408-416`); `copy` says where the bytes come from. -/
def wildCopy8 (copy : Output → Nat → Nat → Nat → Option Output) (out : Output) (d s e : Nat) :
    Option Output :=
  copyRounds (fun out d s => copy out d s 8) 8 e (e - d + 1) out d s

/-- `LZ4_wildCopy32` (`lz4_all.c:461-469`). -/
def wildCopy32 (copy : Output → Nat → Nat → Nat → Option Output) (out : Output) (d s e : Nat) :
    Option Output :=
  copyRounds (fun out d s => do
    let out ← copy out d s 16
    copy out (d + 16) (s + 16) 16) 32 e (e - d + 1) out d s

/-! ## What is known of the output -/

/-- The bytes of the output below `d` are those of `whole`. -/
def Holds (whole : List UInt8) (d : Nat) (out : Output) : Prop :=
  ∀ i, i < d → out.mem i = whole[i]?.getD 0

/-- A step that succeeds and leaves the bytes of `whole` below `d`. -/
def Yields (size : Nat) (whole : List UInt8) (d : Nat) (r : Option Output) : Prop :=
  ∃ out, r = some out ∧ out.size = size ∧ Holds whole d out

section

variable {size d e s n : Nat} {whole whole' : List UInt8} {out : Output}

theorem Holds.mono (holds : Holds whole d out) (less : e ≤ d) : Holds whole e out :=
  fun i below => holds i (by omega)

theorem Holds.congr (holds : Holds whole d out)
    (same : ∀ i, i < d → whole'[i]? = whole[i]?) : Holds whole' d out := by
  intro i below
  rw [same i below]
  exact holds i below

theorem Yields.bind {r : Option Output} {f : Output → Option Output}
    (yields : Yields size whole d r)
    (next : ∀ out, out.size = size → Holds whole d out → Yields size whole' e (f out)) :
    Yields size whole' e (r.bind f) := by
  obtain ⟨out, rfl, sameSize, holds⟩ := yields
  exact next out sameSize holds

/-- Writing the bytes that come next. -/
theorem Output.put_yields (bytes : List UInt8) (sameSize : out.size = size)
    (holds : Holds whole d out) (fits : d + bytes.length ≤ size)
    (right : ∀ i, i < bytes.length → bytes[i]?.getD 0 = whole[d + i]?.getD 0) :
    Yields size whole (d + bytes.length) (out.put d bytes) := by
  subst sameSize
  refine ⟨_, if_pos fits, rfl, ?_⟩
  intro i below
  by_cases old : i < d
  · exact (writeBytes_outside (Or.inl old)).trans (holds i old)
  · have inside := writeBytes_inside (m := out.mem) (Nat.le_of_not_lt old) below
    refine inside.trans ?_
    have byte := right (i - d) (by omega)
    rwa [show d + (i - d) = i by omega, ← List.getD_eq_getElem?_getD] at byte

theorem Output.move_yields (sameSize : out.size = size) (holds : Holds whole d out)
    (fits : d < size) (earlier : s < d) (same : whole[d]?.getD 0 = whole[s]?.getD 0) :
    Yields size whole (d + 1) (out.move d s) := by
  have read : s < out.size := by omega
  rw [Output.move, if_pos read]
  apply Output.put_yields [out.mem s] sameSize holds fits
  intro i below
  have zero : i = 0 := by simpa using below
  subst zero
  exact (holds s earlier).trans same.symm

/-- Copying bytes that are there to where they come again. -/
theorem Output.memcpy_yields (sameSize : out.size = size) (holds : Holds whole d out)
    (fits : d + n ≤ size) (apart : s + n ≤ d)
    (same : ∀ i, i < n → whole[d + i]?.getD 0 = whole[s + i]?.getD 0) :
    Yields size whole (d + n) (out.memcpy d s n) := by
  have copies : s + n ≤ out.size ∧ (s + n ≤ d ∨ d + n ≤ s) := ⟨by omega, Or.inl apart⟩
  rw [Output.memcpy, if_pos copies]
  have put := Output.put_yields (readBytes out.mem s n) sameSize holds (by simpa using fits)
  rw [length_readBytes] at put
  apply put
  intro i below
  rw [same i below, ← holds (s + i) (by omega)]
  simp [readBytes, below]

/-- Copying literals. -/
theorem Output.load_yields {input : List UInt8} (sameSize : out.size = size)
    (holds : Holds whole d out) (fits : d + n ≤ size) (there : s + n ≤ input.length)
    (same : ∀ i, i < n → whole[d + i]?.getD 0 = input[s + i]?.getD 0) :
    Yields size whole (d + n) (out.load input d s n) := by
  rw [Output.load, if_pos there]
  have length : ((input.drop s).take n).length = n := by
    rw [List.length_take, List.length_drop]
    omega
  have put := Output.put_yields ((input.drop s).take n) sameSize holds (by omega)
  rw [length] at put
  apply put
  intro i below
  rw [same i below, List.getElem?_take_of_lt below, List.getElem?_drop]

end

/-! ## Wild copies -/

section

variable {copy : Output → Nat → Nat → Nat → Option Output} {whole : List UInt8} {out : Output}
  {size d s e : Nat}

/-- A copy that is right wherever a row of chunks asks it to copy up to `bound`. -/
def CopiesRight (copy : Output → Nat → Nat → Nat → Option Output) (whole : List UInt8)
    (size low shift bound chunk : Nat) : Prop :=
  ∀ out k, out.size = size → chunk ∣ k → Holds whole (low + k) out → low + k + chunk ≤ bound →
    Yields size whole (low + k + chunk) (copy out (low + k) (shift + k) chunk)

theorem wildCopy8_yields {bound : Nat} (sameSize : out.size = size)
    (right : CopiesRight copy whole size d s bound 8) (holds : Holds whole d out)
    (first : d + 8 ≤ bound) (slack : e + 7 ≤ bound) :
    Yields size whole (max e (d + 8)) (wildCopy8 copy out d s e) := by
  have past : e + 8 ≤ bound + 1 := by omega
  have enough : e ≤ d + (e - d + 1) * 8 := by omega
  obtain ⟨m, d', s', run, ⟨k, _, rfl, rfl, size', kept⟩, _, _, _⟩ :=
    copyRounds_spec (fun out d s => copy out d s 8)
      (fun d' s' m => ∃ k, 8 ∣ k ∧ d' = d + k ∧ s' = s + k ∧ m.size = size ∧ Holds whole d' m)
      (by
        rintro d' s' m ⟨k, whole8, rfl, rfl, size', kept⟩ fits
        obtain ⟨m', copied, size'', kept'⟩ := right m k size' whole8 kept fits
        exact ⟨m', copied, k + 8, by omega, by omega, by omega, size'', kept'⟩)
      past ⟨0, Nat.dvd_zero 8, rfl, rfl, sameSize, holds⟩ first enough (Nat.succ_pos (e - d))
  exact ⟨m, run, size', kept.mono (by omega)⟩

theorem wildCopy32_yields {bound : Nat} (sameSize : out.size = size)
    (right : CopiesRight copy whole size d s bound 16) (holds : Holds whole d out)
    (first : d + 32 ≤ bound) (slack : e + 31 ≤ bound) :
    Yields size whole (max e (d + 32)) (wildCopy32 copy out d s e) := by
  have past : e + 32 ≤ bound + 1 := by omega
  have enough : e ≤ d + (e - d + 1) * 32 := by omega
  obtain ⟨m, d', s', run, ⟨k, _, rfl, rfl, size', kept⟩, _, _, _⟩ :=
    copyRounds_spec (fun out d s => do
        let out ← copy out d s 16
        copy out (d + 16) (s + 16) 16)
      (fun d' s' m => ∃ k, 32 ∣ k ∧ d' = d + k ∧ s' = s + k ∧ m.size = size ∧ Holds whole d' m)
      (by
        rintro d' s' m ⟨k, whole32, rfl, rfl, size', kept⟩ fits
        obtain ⟨m', copied, size'', kept'⟩ := right m k size' (by omega) kept (by omega)
        have second := right m' (k + 16) size'' (by omega) (by rwa [← Nat.add_assoc]) (by omega)
        rw [← Nat.add_assoc, ← Nat.add_assoc] at second
        obtain ⟨m'', copied', size3, kept''⟩ := second
        refine ⟨m'', ?_, k + 32, by omega, by omega, by omega, size3, kept''.mono (by omega)⟩
        rw [copied]
        exact copied')
      past ⟨0, Nat.dvd_zero 32, rfl, rfl, sameSize, holds⟩ first enough (Nat.succ_pos (e - d))
  exact ⟨m, run, size', kept.mono (by omega)⟩

end

/-! ## Literals -/

section

variable {size bound n : Nat} {l rest : List UInt8} {out : Output}

/-- The literals that come next, and all of the input behind them. -/
theorem load_copiesRight (input : List UInt8) (shift chunk : Nat)
    (there : bound + shift ≤ l.length + input.length) (fits : bound ≤ size) :
    CopiesRight (fun out => out.load input) (l ++ input.drop shift) size l.length shift bound
      chunk := by
  intro o k sameSize _ holds inside
  apply Output.load_yields sameSize holds (by omega) (by omega)
  intro i _
  rw [List.getElem?_append_right (by omega), List.getElem?_drop]
  congr 2
  omega

theorem holds_append (rest : List UInt8) (holds : Holds l l.length out) :
    Holds (l ++ rest) l.length out :=
  holds.congr fun _ below => List.getElem?_append_left below

theorem Yields.literals {r : Option Output} {d : Nat} (yields : Yields size (l ++ rest) d r)
    (reached : l.length + n ≤ d) :
    Yields size (l ++ rest.take n) (l.length + n) r := by
  obtain ⟨out, eq, sameSize, holds⟩ := yields
  refine ⟨out, eq, sameSize, (holds.mono reached).congr ?_⟩
  intro i below
  by_cases old : i < l.length
  · rw [List.getElem?_append_left old, List.getElem?_append_left old]
  · rw [List.getElem?_append_right (by omega), List.getElem?_append_right (by omega),
      List.getElem?_take_of_lt (by omega)]

theorem load_literals (input : List UInt8) (shift c : Nat) (sameSize : out.size = size)
    (holds : Holds l l.length out) (there : shift + c ≤ input.length)
    (fits : l.length + c ≤ size) (less : n ≤ c) :
    Yields size (l ++ (input.drop shift).take n) (l.length + n)
      (out.load input l.length shift c) := by
  have yields := load_copiesRight input shift c (by omega) fits out 0 sameSize (Nat.dvd_zero c)
    (holds_append (input.drop shift) holds) (Nat.le_refl _)
  exact yields.literals (by omega)

/-- Literals at the front of what is left. -/
theorem load_front_right (rest : List UInt8) (chunk : Nat)
    (there : bound ≤ l.length + rest.length) (fits : bound ≤ size) :
    CopiesRight (fun out => out.load rest) (l ++ rest) size l.length 0 bound chunk :=
  load_copiesRight rest 0 chunk there fits

theorem load_front (rest : List UInt8) (c : Nat) (sameSize : out.size = size)
    (holds : Holds l l.length out) (there : c ≤ rest.length) (fits : l.length + c ≤ size)
    (less : n ≤ c) :
    Yields size (l ++ rest.take n) (l.length + n) (out.load rest l.length 0 c) :=
  load_literals rest 0 c sameSize holds (by omega) fits less

theorem length_literals (l : List UInt8) (there : n ≤ rest.length) :
    (l ++ rest.take n).length = l.length + n := by
  rw [List.length_append, List.length_take_of_le there]

end

end CviRuntime.Lz4Block
