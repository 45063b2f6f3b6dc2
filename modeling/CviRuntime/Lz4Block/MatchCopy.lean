import CviRuntime.Lz4Block.Decompress
import Mathlib.Tactic.IntervalCases
import Mathlib.Tactic.Ring

/-!
# Copies of matches

Every way in which the decoder copies a match writes the bytes that copying one byte after the
other writes, whatever the offset and however far the copy goes past its end. The first eight
bytes bring `match` to a distance that is a multiple of the offset and at least eight.
-/

namespace CviRuntime.Lz4Block

open CviRuntime.ByteMem CviRuntime.ChunkCopy CviRuntime.Lz77

/-- From `low` up to `bound` each byte is the one `D` before it. -/
def Repeats (whole : List UInt8) (low bound D : Nat) : Prop :=
  ∀ i, low ≤ i → i < bound → whole[i]?.getD 0 = whole[i - D]?.getD 0

section

variable {whole : List UInt8} {size low low' bound D offset k : Nat} {out : Output} {l : List UInt8}

theorem Repeats.mono {bound' : Nat} (repeats : Repeats whole low bound D) (less : low ≤ low')
    (shorter : bound' ≤ bound) : Repeats whole low' bound' D :=
  fun i start below => repeats i (by omega) (by omega)

theorem repeats_of_multiple (size k : Nat) (positive : 0 < offset) (reaches : offset ≤ l.length) :
    Repeats (copyBack 0 offset size l) (l.length + k * offset - offset) size (k * offset) := by
  intro i start below
  rw [getElem?_copyBack_sub k positive reaches (by omega) (by omega)]

theorem repeats_of_offset (size : Nat) (positive : 0 < offset) (reaches : offset ≤ l.length) :
    Repeats (copyBack 0 offset size l) l.length size offset := by
  have repeats := repeats_of_multiple size 1 positive reaches
  rwa [Nat.one_mul, Nat.add_sub_cancel] at repeats

theorem repeats_zero (low D : Nat) (far : l.length + D ≤ low) :
    Repeats (copyBack 0 0 size l) low bound D := by
  intro i start below
  rw [getElem?_copyBack_zero (by omega), getElem?_copyBack_zero (by omega)]

/-- `memcpy` from a place at which what comes repeats itself. -/
theorem memcpy_copiesRight (shift chunk : Nat) (repeats : Repeats whole low bound (low - shift))
    (earlier : shift + chunk ≤ low) (fits : bound ≤ size) :
    CopiesRight Output.memcpy whole size low shift bound chunk := by
  intro out k sameSize _ holds inside
  apply Output.memcpy_yields sameSize holds (by omega) (by omega)
  intro i below
  have same := repeats (low + k + i) (by omega) (by omega)
  rwa [show low + k + i - (low - shift) = shift + k + i by omega] at same

/-- What is there is the beginning of what will be there. -/
theorem holds_copyBack (offset size : Nat) (holds : Holds l l.length out) :
    Holds (copyBack 0 offset size l) l.length out :=
  holds.congr fun _ below => getElem?_copyBack_left below

/-- A copy that went at least to the end of the match. -/
theorem Yields.shorten {n : Nat} {r : Option Output} {d : Nat}
    (yields : Yields size (copyBack 0 offset size l) d r) (less : n ≤ size)
    (reached : l.length + n ≤ d) :
    Yields size (copyBack 0 offset n l) (l.length + n) r := by
  obtain ⟨out', eq, sameSize, holds⟩ := yields
  refine ⟨out', eq, sameSize, (holds.mono reached).congr ?_⟩
  intro i below
  exact (getElem?_copyBack_le less below).symm

end

/-! ## The first eight bytes -/

/-- What `copyFirst` leads to: the first bytes are there, what comes repeats itself from `match`
    on, and `match` is at least eight bytes behind. -/
def CopiedFirst (whole : List UInt8) (size op : Nat) (r : Option (Output × Nat)) : Prop :=
  ∃ out m, r = some (out, m) ∧ out.size = size ∧ Holds whole (op + 8) out ∧ m ≤ op ∧
    Repeats whole (op + 8) size (op + 8 - m)

section

variable {size offset op m : Nat} {out : Output} {l whole : List UInt8}

/-- The tables: how far `match` is behind after four and after eight bytes. -/
theorem tables (small : offset < 8) (positive : 0 < offset) :
    ∃ j k, inc32table.getD offset 0 + j * offset = offset + 4 ∧ 4 ≤ j * offset ∧
      (offset : Int) + 8 + dec64table.getD offset 0 - inc32table.getD offset 0 =
        (k * offset : Nat) ∧
      8 ≤ k * offset ∧ k * offset ≤ 8 + offset := by
  interval_cases offset
  · exact ⟨4, 8, by decide⟩
  · exact ⟨2, 4, by decide⟩
  · exact ⟨2, 3, by decide⟩
  · exact ⟨2, 2, by decide⟩
  · exact ⟨1, 2, by decide⟩
  · exact ⟨1, 2, by decide⟩
  · exact ⟨1, 2, by decide⟩

/-- Four single bytes. -/
theorem moveFour_yields (sameSize : out.size = size) (holds : Holds whole op out)
    (fits : op + 4 ≤ size) (earlier : m < op) (repeats : Repeats whole op size (op - m)) :
    Yields size whole (op + 4) (moveFour out op m) := by
  have one (o : Output) (k : Nat) (size' : o.size = size) (kept : Holds whole (op + k) o)
      (less : k < 4) : Yields size whole (op + k + 1) (o.move (op + k) (m + k)) := by
    apply Output.move_yields size' kept (by omega) (by omega)
    have same := repeats (op + k) (by omega) (by omega)
    rwa [show op + k - (op - m) = m + k by omega] at same
  apply (one out 0 sameSize holds (by omega)).bind
  intro o1 size1 kept1
  apply (one o1 1 size1 kept1 (by omega)).bind
  intro o2 size2 kept2
  apply (one o2 2 size2 kept2 (by omega)).bind
  intro o3 size3 kept3
  exact one o3 3 size3 kept3 (by omega)

/-- With the offset zero the four bytes are moved onto themselves. -/
theorem moveFour_self (sameSize : out.size = size) (holds : Holds whole (op + 4) out)
    (fits : op + 4 ≤ size) : Yields size whole (op + 4) (moveFour out op op) := by
  have one (o : Output) (k : Nat) (size' : o.size = size) (kept : Holds whole (op + 4) o)
      (less : k < 4) : Yields size whole (op + 4) (o.move (op + k) (op + k)) := by
    have read : op + k < o.size := by omega
    have inside : op + k + [o.mem (op + k)].length ≤ o.size := read
    rw [Output.move, if_pos read, Output.put, if_pos inside]
    refine ⟨_, rfl, size', ?_⟩
    intro i below
    rw [← kept i below]
    by_cases here : i = op + k
    · subst here
      exact (writeBytes_inside (Nat.le_refl _) (Nat.lt_succ_self _)).trans (by simp)
    · exact writeBytes_outside (by simp only [List.length_singleton]; omega)
  apply (one out 0 sameSize holds (by omega)).bind
  intro o1 size1 kept1
  apply (one o1 1 size1 kept1 (by omega)).bind
  intro o2 size2 kept2
  apply (one o2 2 size2 kept2 (by omega)).bind
  intro o3 size3 kept3
  exact one o3 3 size3 kept3 (by omega)

/-- Zeros written over what is not part of the output yet. -/
theorem put_zeros (sameSize : out.size = size) (holds : Holds whole op out)
    (fits : op + 4 ≤ size) :
    ∃ o, out.put op [0, 0, 0, 0] = some o ∧ o.size = size ∧ Holds whole op o ∧
      ((∀ i, op ≤ i → i < op + 4 → whole[i]?.getD 0 = 0) → Holds whole (op + 4) o) := by
  have inside : op + [(0 : UInt8), 0, 0, 0].length ≤ out.size := by simpa [sameSize] using fits
  have written : Output.put out op [0, 0, 0, 0] =
      some { out with mem := writeBytes out.mem op [0, 0, 0, 0] } := if_pos inside
  refine ⟨_, written, sameSize, ?_, ?_⟩
  · intro i below
    exact (writeBytes_outside (Or.inl below)).trans (holds i below)
  · intro zeros
    have yields := Output.put_yields [0, 0, 0, 0] sameSize holds fits (by
      intro i below
      have small : i < 4 := below
      rw [zeros (op + i) (by omega) (by omega)]
      interval_cases i <;> rfl)
    obtain ⟨o, eq, _, kept⟩ := yields
    rw [written] at eq
    cases eq
    exact kept

/-- The first eight bytes of a match with an offset of at least eight. -/
theorem copyFirst_far (sameSize : out.size = size) (holds : Holds l l.length out)
    (fits : l.length + 8 ≤ size) (reaches : offset ≤ l.length) (far : 8 ≤ offset) :
    CopiedFirst (copyBack 0 offset size l) size l.length
      (copyFirst out l.length (l.length - offset) offset) := by
  have repeats := repeats_of_offset size (by omega) reaches
  have copied := Output.memcpy_yields (s := l.length - offset) (n := 8) sameSize
    (holds_copyBack offset size holds) fits (by omega) (by
      intro i below
      have same := repeats (l.length + i) (by omega) (by omega)
      rwa [show l.length + i - offset = l.length - offset + i by omega] at same)
  obtain ⟨o, eq, size', kept⟩ := copied
  refine ⟨o, l.length - offset + 8, ?_, size', kept, by omega, ?_⟩
  · rw [copyFirst, if_neg (by omega), eq]
    rfl
  · rw [show l.length + 8 - (l.length - offset + 8) = offset by omega]
    exact repeats.mono (Nat.le_add_right _ _) (Nat.le_refl _)

/-- The first eight bytes of a match with a smaller offset, zero apart. -/
theorem copyFirst_near (sameSize : out.size = size) (holds : Holds l l.length out)
    (fits : l.length + 8 ≤ size) (reaches : offset ≤ l.length) (near : offset < 8)
    (positive : 0 < offset) :
    CopiedFirst (copyBack 0 offset size l) size l.length
      (copyFirst out l.length (l.length - offset) offset) := by
  obtain ⟨j, k, four, apart, eight, far, notFar⟩ := tables near positive
  have byOne := repeats_of_offset size positive reaches
  have byFour := repeats_of_multiple size j positive reaches
  have byEight := repeats_of_multiple size k positive reaches
  obtain ⟨o1, put, size1, kept1, _⟩ :=
    put_zeros sameSize (holds_copyBack offset size holds) (by omega)
  have moved := moveFour_yields (m := l.length - offset) size1 kept1 (by omega) (by omega) (by
    rwa [show l.length - (l.length - offset) = offset by omega])
  obtain ⟨o2, move, size2, kept2⟩ := moved
  have copied := Output.memcpy_yields (s := l.length - offset + inc32table.getD offset 0) (n := 4)
    size2 kept2 (by omega) (by omega) (by
      intro i below
      have same := byFour (l.length + 4 + i) (by omega) (by omega)
      rwa [show l.length + 4 + i - j * offset =
        l.length - offset + inc32table.getD offset 0 + i by omega] at same)
  obtain ⟨o3, copy, size3, kept3⟩ := copied
  refine ⟨o3, l.length + 8 - k * offset, ?_, size3, kept3, by omega, ?_⟩
  · have behind : ((l.length - offset + inc32table.getD offset 0 : Nat) : Int) -
        dec64table.getD offset 0 = ((l.length + 8 - k * offset : Nat) : Int) := by omega
    simp only [copyFirst, if_pos near, put, move, copy, Option.bind_eq_bind, Option.bind_some,
      Option.pure_def, behind, Int.toNat_natCast]
  · rw [show l.length + 8 - (l.length + 8 - k * offset) = k * offset by omega]
    exact byEight.mono (by omega) (Nat.le_refl _)

/-- With the offset zero, eight zeros. -/
theorem copyFirst_zero (sameSize : out.size = size) (holds : Holds l l.length out)
    (fits : l.length + 8 ≤ size) :
    CopiedFirst (copyBack 0 0 size l) size l.length (copyFirst out l.length (l.length - 0) 0) := by
  have zeros (i : Nat) (new : l.length ≤ i) :
      (copyBack 0 0 size l)[i]?.getD 0 = (0 : UInt8) := getElem?_copyBack_zero new
  obtain ⟨o1, put, size1, _, kept1⟩ :=
    put_zeros sameSize (holds_copyBack 0 size holds) (by omega)
  have moved := moveFour_self size1 (kept1 fun i new _ => zeros i new) (by omega)
  obtain ⟨o2, move, size2, kept2⟩ := moved
  have copied := Output.memcpy_yields (s := l.length) (n := 4) size2 kept2 (by omega) (by omega)
    (by
      intro i below
      rw [zeros _ (by omega), zeros _ (by omega)])
  obtain ⟨o3, copy, size3, kept3⟩ := copied
  refine ⟨o3, l.length, ?_, size3, kept3, Nat.le_refl _, ?_⟩
  · have first : inc32table.getD 0 0 = 0 := rfl
    have second : dec64table.getD 0 0 = 0 := rfl
    have near : 0 < 8 := by decide
    simp only [copyFirst, if_pos near, put, Nat.sub_zero, move, first, second, Nat.add_zero, copy,
      Option.bind_eq_bind, Option.bind_some, Option.pure_def, Int.sub_zero, Int.toNat_natCast]
  · exact repeats_zero _ _ (by omega)

/-- The first eight bytes of a match. -/
theorem copyFirst_spec (sameSize : out.size = size) (holds : Holds l l.length out)
    (fits : l.length + 8 ≤ size) (reaches : offset ≤ l.length) :
    CopiedFirst (copyBack 0 offset size l) size l.length
      (copyFirst out l.length (l.length - offset) offset) := by
  rcases Nat.eq_zero_or_pos offset with rfl | positive
  · exact copyFirst_zero sameSize holds fits
  · rcases Nat.lt_or_ge offset 8 with near | far
    · exact copyFirst_near sameSize holds fits reaches near positive
    · exact copyFirst_far sameSize holds fits reaches far

end

/-! ## Whole matches -/

section

variable {size offset n op m : Nat} {out : Output} {l whole v : List UInt8}

theorem memcpyUsingOffsetBase_yields (sameSize : out.size = size) (holds : Holds l l.length out)
    (reaches : offset ≤ l.length) (first : l.length + 16 ≤ size)
    (slack : l.length + n + 7 ≤ size) :
    Yields size (copyBack 0 offset n l) (l.length + n)
      (memcpyUsingOffsetBase out l.length (l.length - offset) (l.length + n) offset) := by
  obtain ⟨o, m, copied, size', kept, behind, repeats⟩ :=
    copyFirst_spec sameSize holds (by omega) reaches
  have right := memcpy_copiesRight m 8 repeats (by omega) (Nat.le_refl _)
  have rest := wildCopy8_yields size' right kept (by omega) slack
  rw [memcpyUsingOffsetBase, copied, Option.bind_eq_bind, Option.bind_some]
  exact rest.shorten (by omega) (Nat.le_max_left _ _)

/-- A byte of a match, by its place in what is repeated. -/
theorem getD_copyBack_mod {t : Nat} (positive : 0 < offset) (reaches : offset ≤ l.length)
    (inside : t < n) :
    (copyBack 0 offset n l)[l.length + t]?.getD 0 =
      l[l.length - offset + t % offset]?.getD (0 : UInt8) := by
  have split : offset * (t / offset) + t % offset = t := Nat.div_add_mod t offset
  have small : t % offset < offset := Nat.mod_lt t positive
  have multiple : (t / offset + 1) * offset = offset * (t / offset) + offset := by ring
  rw [← getElem?_copyBack_sub (t / offset + 1) positive reaches (by omega) (by omega),
    show l.length + t - (t / offset + 1) * offset = l.length - offset + t % offset by omega,
    getElem?_copyBack_left (by omega)]

/-- Writing eight bytes again and again, when the offset divides eight. -/
theorem putRounds_yields (sameSize : out.size = size) (holds : Holds l l.length out)
    (reaches : offset ≤ l.length) (divides : offset ∣ 8) (eight : v.length = 8)
    (right : ∀ i, i < 8 → v[i]?.getD 0 = l[l.length - offset + i % offset]?.getD 0)
    (first : l.length + 8 ≤ size) (slack : l.length + n + 7 ≤ size) :
    Yields size (copyBack 0 offset n l) (l.length + n)
      (putRounds v out l.length (l.length + n)) := by
  have positive : 0 < offset := Nat.pos_of_dvd_of_pos divides (by decide)
  have puts : CopiesRight (fun out d _ _ => out.put d v) (copyBack 0 offset size l) size
      l.length 0 size 8 := by
    intro o k size' rounds kept fits
    rw [← eight]
    apply Output.put_yields v size' kept (by omega)
    intro i below
    have place : l.length + k + i = l.length + (k + i) := Nat.add_assoc _ _ _
    rw [place, getD_copyBack_mod positive reaches (by omega), right i (by omega)]
    have same : (k + i) % offset = i % offset := by
      rw [Nat.add_mod, Nat.mod_eq_zero_of_dvd (divides.trans rounds), Nat.zero_add, Nat.mod_mod]
    rw [same]
  have rest := wildCopy8_yields sameSize puts (holds_copyBack offset size holds) first slack
  exact rest.shorten (by omega) (Nat.le_max_left _ _)

theorem fetch_eq (sameSize : out.size = size) (holds : Holds l l.length out)
    (reaches : offset ≤ l.length) (fits : l.length ≤ size) :
    ∃ v, out.fetch (l.length - offset) offset = some v ∧ v.length = offset ∧
      ∀ i, i < offset → v[i]?.getD 0 = l[l.length - offset + i]?.getD 0 := by
  have inside : l.length - offset + offset ≤ out.size := by omega
  refine ⟨_, if_pos inside, length_readBytes, ?_⟩
  intro i below
  rw [← holds _ (by omega)]
  simp [readBytes, below]

/-- A match with an offset below sixteen. -/
theorem memcpyUsingOffset_yields (sameSize : out.size = size) (holds : Holds l l.length out)
    (reaches : offset ≤ l.length) (first : l.length + 16 ≤ size)
    (slack : l.length + n + 7 ≤ size) :
    Yields size (copyBack 0 offset n l) (l.length + n)
      (memcpyUsingOffset out l.length (l.length - offset) (l.length + n) offset) := by
  obtain ⟨v, fetched, length, bytes⟩ := fetch_eq sameSize holds reaches (by omega)
  unfold memcpyUsingOffset
  split
  case h_1 =>
    obtain ⟨b, rfl⟩ := List.length_eq_one_iff.mp length
    rw [fetched]
    apply putRounds_yields sameSize holds reaches (by decide) rfl _ (by omega) slack
    intro i below
    have byte := bytes (i % 1) (Nat.mod_lt i (by decide))
    rw [← byte]
    interval_cases i <;> rfl
  case h_2 =>
    obtain ⟨b, c, rfl⟩ := List.length_eq_two.mp length
    rw [fetched]
    apply putRounds_yields sameSize holds reaches (by decide) rfl _ (by omega) slack
    intro i below
    have byte := bytes (i % 2) (Nat.mod_lt i (by decide))
    rw [← byte]
    interval_cases i <;> rfl
  case h_3 =>
    obtain ⟨b, c, d, e, rfl⟩ : ∃ b c d e, v = [b, c, d, e] := by
      match v, length with
      | [b, c, d, e], _ => exact ⟨b, c, d, e, rfl⟩
    rw [fetched]
    apply putRounds_yields sameSize holds reaches (by decide) rfl _ (by omega) slack
    intro i below
    have byte := bytes (i % 4) (Nat.mod_lt i (by decide))
    rw [← byte]
    interval_cases i <;> rfl
  case h_4 => exact memcpyUsingOffsetBase_yields sameSize holds reaches first slack

/-- A match of at most eighteen bytes. -/
theorem copyShort_yields (sameSize : out.size = size) (holds : Holds l l.length out)
    (reaches : offset ≤ l.length) (far : 8 ≤ offset) (fits : l.length + 18 ≤ size)
    (short : n ≤ 18) :
    Yields size (copyBack 0 offset n l) (l.length + n)
      (copyShort out l.length (l.length - offset)) := by
  have repeats := repeats_of_offset size (by omega) reaches
  have one (o : Output) (k c : Nat) (size' : o.size = size) (small : c ≤ 8)
      (kept : Holds (copyBack 0 offset size l) (l.length + k) o) (inside : k + c ≤ 18) :
      Yields size (copyBack 0 offset size l) (l.length + k + c)
        (o.memcpy (l.length + k) (l.length - offset + k) c) := by
    apply Output.memcpy_yields size' kept (by omega) (by omega)
    intro i below
    have same := repeats (l.length + k + i) (by omega) (by omega)
    rwa [show l.length + k + i - offset = l.length - offset + k + i by omega] at same
  have all : Yields size (copyBack 0 offset size l) (l.length + 16 + 2)
      (copyShort out l.length (l.length - offset)) := by
    apply (one out 0 8 sameSize (by decide) (holds_copyBack offset size holds) (by decide)).bind
    intro o1 size1 kept1
    apply (one o1 8 8 size1 (by decide) kept1 (by decide)).bind
    intro o2 size2 kept2
    exact one o2 16 2 size2 (by decide) kept2 (by decide)
  exact all.shorten (by omega) (by omega)

theorem wildCopy32_match (sameSize : out.size = size) (holds : Holds l l.length out)
    (reaches : offset ≤ l.length) (far : 16 ≤ offset) (first : l.length + 32 ≤ size)
    (slack : l.length + n + 31 ≤ size) :
    Yields size (copyBack 0 offset n l) (l.length + n)
      (wildCopy32 Output.memcpy out l.length (l.length - offset) (l.length + n)) := by
  have repeats := repeats_of_offset size (by omega) reaches
  have distance : l.length - (l.length - offset) = offset := by omega
  have right := memcpy_copiesRight (l.length - offset) 16 (by rwa [distance]) (by omega)
    (Nat.le_refl size)
  have rest := wildCopy32_yields sameSize right (holds_copyBack offset size holds) first slack
  exact rest.shorten (by omega) (Nat.le_max_left _ _)

/-- Copying byte by byte. -/
theorem copyBytes_yields (k : Nat) (sameSize : out.size = size) (holds : Holds whole op out)
    (earlier : m < op) (repeats : Repeats whole op size (op - m)) (fits : op + k ≤ size) :
    Yields size whole (op + k) (copyBytes out op m k) := by
  induction k generalizing out op m with
  | zero => exact ⟨out, rfl, sameSize, holds⟩
  | succ k ih =>
    have moved := Output.move_yields sameSize holds (by omega) earlier (by
      have same := repeats op (Nat.le_refl _) (by omega)
      rwa [show op - (op - m) = m by omega] at same)
    rw [copyBytes, Option.bind_eq_bind, ← Nat.add_assoc, Nat.add_right_comm]
    apply moved.bind
    intro o size' kept
    apply ih size' kept (by omega) _ (by omega)
    rw [show op + 1 - (m + 1) = op - m by omega]
    exact repeats.mono (Nat.le_succ _) (Nat.le_refl _)

end

end CviRuntime.Lz4Block
