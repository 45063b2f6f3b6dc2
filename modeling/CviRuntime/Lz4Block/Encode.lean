import CviRuntime.Lz4Block.Plain

/-!
# Encoded blocks

How sequences are laid out in a block, and that the plain decoder reads back what was laid out.
The decoder relies on the parsing restrictions: the last match starts at least twelve bytes before
the end and the last five bytes are literals.
-/

namespace CviRuntime.Lz4Block

open CviRuntime.Lz77

/-- The bytes of a length that does not fit into the token. -/
def lengthBytes (n : Nat) : List UInt8 :=
  if n < 15 then [] else List.replicate ((n - 15) / 255) 255 ++ [UInt8.ofNat ((n - 15) % 255)]

/-- Both lengths, that of the literals in the high bits. -/
def tokenByte (litLength matchCode : Nat) : UInt8 :=
  UInt8.ofNat (min litLength 15 * 16 + min matchCode 15)

def offsetBytes (offset : Nat) : List UInt8 := [UInt8.ofNat offset, UInt8.ofNat (offset / 256)]

def encodeSequence (s : Sequence UInt8) : List UInt8 :=
  tokenByte s.literals.length (s.matchLength - 4) :: (lengthBytes s.literals.length ++ s.literals ++
    offsetBytes s.offset ++ lengthBytes (s.matchLength - 4))

/-- The last literals. -/
def encodeLast (last : List UInt8) : List UInt8 :=
  tokenByte last.length 0 :: (lengthBytes last.length ++ last)

def encodeSequences (sequences : List (Sequence UInt8)) : List UInt8 :=
  sequences.flatMap encodeSequence

def encodeBlock (sequences : List (Sequence UInt8)) (last : List UInt8) : List UInt8 :=
  encodeSequences sequences ++ encodeLast last

/-- A sequence at `pos` of a block of `n` bytes keeps to the restrictions of the format. -/
structure Restricted (n pos : Nat) (s : Sequence UInt8) : Prop where
  positive : 0 < s.offset
  offset_lt : s.offset < 65536
  reaches : s.offset ≤ pos + s.literals.length
  least : 4 ≤ s.matchLength
  start : pos + s.literals.length + 12 ≤ n
  stop : pos + s.literals.length + s.matchLength + 5 ≤ n

/-- All sequences from `pos` on do. -/
def AllRestricted (n : Nat) : Nat → List (Sequence UInt8) → Prop
  | _, [] => True
  | pos, s :: rest =>
    Restricted n pos s ∧ AllRestricted n (pos + s.literals.length + s.matchLength) rest

section

variable {n pos size slack k : Nat} {s : Sequence UInt8} {out rest last more : List UInt8}
  {sequences : List (Sequence UInt8)}

/-! ## Lengths -/

theorem toNat_tokenByte (litLength matchCode : Nat) :
    (tokenByte litLength matchCode).toNat = min litLength 15 * 16 + min matchCode 15 := by
  rw [tokenByte, UInt8.toNat_ofNat']
  omega

theorem length_lengthBytes (n : Nat) :
    (lengthBytes n).length = if n < 15 then 0 else (n - 15) / 255 + 1 := by
  unfold lengthBytes
  split_ifs <;> simp

/-- Reading bytes of 255 and a smaller one behind them. -/
theorem readLengthBytes_eq (last : UInt8) (start : UInt32) (small : last ≠ 255)
    (enough : slack ≤ more.length) (bound : start.toNat + 255 * k + last.toNat < 2 ^ 32) :
    ∃ length, length.toNat = start.toNat + 255 * k + last.toNat ∧
      readLengthBytes slack (List.replicate k 255 ++ last :: more) start =
        some (length, more, if more.length ≤ slack then .loopError else .ok) := by
  induction k generalizing start with
  | zero =>
    refine ⟨start + last.toUInt32, ?_, ?_⟩
    · rw [UInt32.toNat_add, UInt8.toNat_toUInt32]
      omega
    · rw [List.replicate_zero, List.nil_append, readLengthBytes]
      split_ifs <;> rfl
  | succ k ih =>
    have step : (start + (255 : UInt8).toUInt32).toNat = start.toNat + 255 := by
      rw [UInt32.toNat_add]
      have value : ((255 : UInt8).toUInt32).toNat = 255 := rfl
      rw [value]
      omega
    have long : ¬(List.replicate k (255 : UInt8) ++ last :: more).length ≤ slack := by
      rw [List.length_append, List.length_cons]
      omega
    obtain ⟨length, value, read⟩ := ih (start + (255 : UInt8).toUInt32) (by omega)
    refine ⟨length, by omega, ?_⟩
    rw [List.replicate_succ, List.cons_append, readLengthBytes]
    simp only [if_neg long, if_true]
    exact read

/-- A length that was written is read back. -/
theorem readLengthBytes_lengthBytes (slack : Nat) (long : 15 ≤ n) (small : n < 2 ^ 32)
    (enough : slack ≤ more.length) :
    ∃ length, 15 + length.toNat = n ∧ readLengthBytes slack (lengthBytes n ++ more) 0 =
      some (length, more, if more.length ≤ slack then .loopError else .ok) := by
  have byte : (UInt8.ofNat ((n - 15) % 255)).toNat = (n - 15) % 255 := by
    rw [UInt8.toNat_ofNat']
    omega
  have notFull : UInt8.ofNat ((n - 15) % 255) ≠ 255 := by
    intro full
    rw [full] at byte
    have value : (255 : UInt8).toNat = 255 := rfl
    omega
  have zero : (0 : UInt32).toNat = 0 := rfl
  obtain ⟨length, value, read⟩ := readLengthBytes_eq (k := (n - 15) / 255)
    (UInt8.ofNat ((n - 15) % 255)) 0 notFull enough (by omega)
  refine ⟨length, by omega, ?_⟩
  rw [lengthBytes, if_neg (by omega), List.append_assoc]
  exact read

/-- The number of literals is read back, when no fewer bytes follow. -/
theorem literalLength_eq (matchCode : Nat) (more : List UInt8) (small : n < 2 ^ 32)
    (enough : n ≤ more.length) :
    literalLength (tokenByte n matchCode) (lengthBytes n ++ more) = some (n, more) := by
  have high : (tokenByte n matchCode).toNat / 16 = min n 15 := by
    rw [toNat_tokenByte]
    omega
  unfold literalLength
  rw [high]
  by_cases long : 15 ≤ n
  · obtain ⟨length, value, read⟩ := readLengthBytes_lengthBytes 15 long small
      (show 15 ≤ more.length by omega)
    have written := length_lengthBytes n
    rw [if_neg (by omega)] at written
    have left : ¬(lengthBytes n ++ more).length ≤ 15 := by
      rw [List.length_append]
      omega
    rw [if_pos (Nat.min_eq_right long), readVariableLength, if_neg (by simpa using left), read]
    by_cases few : more.length ≤ 15
    · simp only [if_pos few, value]
    · simp only [if_neg few, value]
  · have none : lengthBytes n = [] := if_pos (by omega)
    rw [if_neg (by omega), none, List.nil_append, Nat.min_eq_left (by omega)]

/-- The length of a match is read back, when more than four bytes follow. -/
theorem matchLength_eq (litLength : Nat) (small : n < 2 ^ 32) (enough : 4 < more.length) :
    matchLength (tokenByte litLength n) (lengthBytes n ++ more) = some (n + 4, more) := by
  have low : (tokenByte litLength n).toNat % 16 = min n 15 := by
    rw [toNat_tokenByte]
    omega
  unfold matchLength
  rw [low]
  by_cases long : 15 ≤ n
  · obtain ⟨length, value, read⟩ := readLengthBytes_lengthBytes 4 long small
      (Nat.le_of_lt enough)
    rw [if_pos (Nat.min_eq_right long), readVariableLength, if_neg (by simp), read,
      if_neg (by omega)]
    simp only [value]
  · have none : lengthBytes n = [] := if_pos (by omega)
    rw [if_neg (by omega), none, List.nil_append, Nat.min_eq_left (by omega)]

theorem readLE16_offsetBytes {offset : Nat} (small : offset < 65536) :
    readLE16 (offsetBytes offset ++ more) = some (offset, more) := by
  have value : (UInt8.ofNat offset).toNat + 256 * (UInt8.ofNat (offset / 256)).toNat = offset := by
    rw [UInt8.toNat_ofNat', UInt8.toNat_ofNat']
    omega
  rw [offsetBytes, List.cons_append, List.cons_append, List.nil_append, readLE16, value]

/-! ## Sequences -/

/-- A sequence that keeps to the restrictions is decoded, if the output has room for the block. -/
theorem decodeSequence_encodeSequence (kept : Restricted n out.length s) (fits : n ≤ size)
    (small : n < 2 ^ 32) (enough : 6 ≤ more.length) :
    decodeSequence size (encodeSequence s ++ more) out = some (.next more (s.run 0 out)) := by
  obtain ⟨positive, offset_lt, reaches, least, start, stop⟩ := kept
  have split : encodeSequence s ++ more =
      tokenByte s.literals.length (s.matchLength - 4) :: (lengthBytes s.literals.length ++
        (s.literals ++ (offsetBytes s.offset ++ (lengthBytes (s.matchLength - 4) ++ more)))) := by
    simp only [encodeSequence, List.cons_append, List.append_assoc]
  have two : (offsetBytes s.offset).length = 2 := rfl
  have behind : s.literals.length + 8 ≤ (s.literals ++ (offsetBytes s.offset ++
      (lengthBytes (s.matchLength - 4) ++ more))).length := by
    simp only [List.length_append]
    omega
  have literals := literalLength_eq (s.matchLength - 4)
    (s.literals ++ (offsetBytes s.offset ++ (lengthBytes (s.matchLength - 4) ++ more)))
    (show s.literals.length < 2 ^ 32 by omega) (by omega)
  have lengths := matchLength_eq s.literals.length (n := s.matchLength - 4) (by omega)
    (show 4 < more.length by omega)
  rw [split, decodeSequence, literals, Option.bind_eq_bind, Option.bind_some]
  simp only
  rw [if_neg (by rintro ⟨_, last⟩; omega), List.drop_left, List.take_left, decodeMatch,
    readLE16_offsetBytes offset_lt, Option.bind_eq_bind, Option.bind_some]
  simp only [lengths, Option.bind_some]
  have sum : (out ++ s.literals).length = out.length + s.literals.length := List.length_append
  rw [if_neg (by omega), if_pos (Or.inl (by omega)), Nat.sub_add_cancel least]
  rfl

/-- The last literals are decoded. -/
theorem decodeSequence_encodeLast (fits : out.length + last.length ≤ size)
    (small : last.length < 2 ^ 32) :
    decodeSequence size (encodeLast last) out = some (.last (out ++ last)) := by
  have literals := literalLength_eq 0 last small (Nat.le_refl last.length)
  have notRoomy : ¬Roomy size (tokenByte last.length 0) (lengthBytes last.length ++ last) out := by
    rintro ⟨few, many, _⟩
    rw [toNat_tokenByte] at few
    have none : lengthBytes last.length = [] := if_pos (by omega)
    rw [none, List.nil_append] at many
    omega
  rw [encodeLast, decodeSequence, literals, Option.bind_eq_bind, Option.bind_some]
  simp only
  rw [if_pos ⟨notRoomy, Or.inr (by omega)⟩, if_pos ⟨trivial, fits⟩]

theorem six_le_length_encodeBlock (out last : List UInt8) (kept : AllRestricted n pos sequences)
    (total : (expand 0 out sequences).length + last.length = n) (stop : out.length + 5 ≤ n)
    (place : out.length = pos) : 6 ≤ (encodeBlock sequences last).length := by
  induction sequences generalizing pos out with
  | nil =>
    have length : out.length + last.length = n := total
    simp only [encodeBlock, encodeSequences, List.flatMap_nil, List.nil_append, encodeLast,
      List.length_cons, List.length_append]
    omega
  | cons s rest ih =>
    obtain ⟨first, others⟩ := kept
    have longer : (s.run 0 out).length = pos + s.literals.length + s.matchLength := by
      rw [length_run, place]
    have tail := ih (s.run 0 out) others total (by have := first.stop; omega) longer
    have split : encodeBlock (s :: rest) last = encodeSequence s ++ encodeBlock rest last := by
      simp [encodeBlock, encodeSequences]
    rw [split, List.length_append]
    omega

theorem decodeSequences_encodeBlock {fuel : Nat} (kept : AllRestricted n out.length sequences)
    (total : (expand 0 out sequences).length + last.length = n) (fits : n ≤ size)
    (small : n < 2 ^ 32) (enough : sequences.length < fuel) :
    decodeSequences size fuel (encodeBlock sequences last) out =
      some (expand 0 out sequences ++ last) := by
  induction sequences generalizing out fuel with
  | nil =>
    obtain ⟨fuel, rfl⟩ := Nat.exists_eq_succ_of_ne_zero (Nat.ne_of_gt enough)
    have length : out.length + last.length = n := total
    have bytes : encodeBlock [] last = encodeLast last := rfl
    rw [bytes, decodeSequences, decodeSequence_encodeLast (by omega) (by omega)]
    rfl
  | cons s rest ih =>
    cases fuel with
    | zero => exact absurd enough (Nat.not_lt_zero _)
    | succ fuel =>
      obtain ⟨first, others⟩ := kept
      have longer : (s.run 0 out).length = out.length + s.literals.length + s.matchLength :=
        length_run s
      have six : 6 ≤ (encodeBlock rest last).length :=
        six_le_length_encodeBlock (s.run 0 out) last others total
          (by have := first.stop; omega) longer
      have split : encodeBlock (s :: rest) last = encodeSequence s ++ encodeBlock rest last := by
        simp [encodeBlock, encodeSequences]
      rw [split, decodeSequences, decodeSequence_encodeSequence first fits small six]
      rw [← longer] at others
      exact ih others total (Nat.lt_of_succ_lt_succ enough)

theorem length_le_encodeBlock : sequences.length < (encodeBlock sequences last).length := by
  induction sequences with
  | nil => exact Nat.succ_pos _
  | cons s rest ih =>
    have split : encodeBlock (s :: rest) last = encodeSequence s ++ encodeBlock rest last := by
      simp [encodeBlock, encodeSequences]
    rw [split, List.length_append, List.length_cons, encodeSequence, List.length_cons]
    omega

/-- A block that keeps to the restrictions decodes to its bytes, in any buffer that holds them. -/
theorem decodeBlock_encodeBlock (kept : AllRestricted n 0 sequences)
    (total : (expand 0 [] sequences).length + last.length = n) (fits : n ≤ size)
    (small : n < 2 ^ 32) :
    decodeBlock size (encodeBlock sequences last) = some (expand 0 [] sequences ++ last) := by
  unfold decodeBlock
  by_cases empty : size = 0
  · cases sequences with
    | nil =>
      have none : last = [] := List.eq_nil_of_length_eq_zero (by
        have length : ([] : List UInt8).length + last.length = n := total
        omega)
      rw [if_pos empty, none]
      rfl
    | cons s rest =>
      have start := kept.1.start
      omega
  · rw [if_neg empty]
    exact decodeSequences_encodeBlock kept total fits small length_le_encodeBlock

end

end CviRuntime.Lz4Block
