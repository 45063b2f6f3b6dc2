import CviRuntime.Lib.Lz77

/-!
# LZ4 blocks, decoded byte by byte

A block is a row of sequences: a token with both lengths, more bytes of the literal length, the
literals, the offset, more bytes of the match length. The last one stops after its literals.
`decodeBlock` decodes a block by this rule alone. It accepts what `LZ4_decompress_safe` accepts:
the last literals and the space behind a match are checked as the code does.
-/

namespace CviRuntime.Lz4Block

open CviRuntime.Lz77

/-- `variable_length_error` (`lz4_all.c:1706`). -/
inductive VariableLengthError
  | ok
  | loopError
  | initialError
  deriving DecidableEq, Repr

/-- The loop of `read_variable_length`; reading past the input has no result. -/
def readLengthBytes (slack : Nat) :
    List UInt8 → UInt32 → Option (UInt32 × List UInt8 × VariableLengthError)
  | [], _ => none
  | s :: rest, length =>
    let length := length + s.toUInt32
    if rest.length ≤ slack then some (length, rest, .loopError)
    else if s = 255 then readLengthBytes slack rest length
    else some (length, rest, .ok)

/-- `read_variable_length` (`lz4_all.c:1707-1731`) with `lencheck` at `iend - slack` and
    `loop_check`: the length, an `unsigned` that may overflow, and what follows. -/
def readVariableLength (rest : List UInt8) (slack : Nat) (initialCheck : Bool) :
    Option (UInt32 × List UInt8 × VariableLengthError) :=
  if initialCheck ∧ rest.length ≤ slack then some (0, rest, .initialError)
  else readLengthBytes slack rest 0

/-- `LZ4_readLE16(ip); ip += 2` (`lz4_all.c:385-393`). -/
def readLE16 : List UInt8 → Option (Nat × List UInt8)
  | low :: high :: rest => some (low.toNat + 256 * high.toNat, rest)
  | _ => none

/-! ## Sequences -/

/-- The number of literals and what follows it. -/
def literalLength (token : UInt8) (rest : List UInt8) : Option (Nat × List UInt8) :=
  if token.toNat / 16 = 15 then
    match readVariableLength rest 15 true with
    | none => none
    | some (_, _, .initialError) => none
    | some (more, rest, _) => some (15 + more.toNat, rest)
  else some (token.toNat / 16, rest)

/-- The length of the match and what follows it. -/
def matchLength (token : UInt8) (rest : List UInt8) : Option (Nat × List UInt8) :=
  if token.toNat % 16 = 15 then
    match readVariableLength rest 4 false with
    | some (more, rest, .ok) => some (15 + more.toNat + 4, rest)
    | _ => none
  else some (token.toNat % 16 + 4, rest)

/-- Few literals far from both ends, for which the code checks neither end. -/
def Roomy (size : Nat) (token : UInt8) (rest out : List UInt8) : Prop :=
  token.toNat / 16 ≠ 15 ∧ 16 < rest.length ∧ out.length + 32 ≤ size

instance (size : Nat) (token : UInt8) (rest out : List UInt8) :
    Decidable (Roomy size token rest out) :=
  inferInstanceAs (Decidable (_ ∧ _ ∧ _))

/-- What a sequence that is accepted leads to. -/
inductive Decoded
  | next (rest out : List UInt8)
  | last (out : List UInt8)
  deriving DecidableEq, Repr

/-- The match of a sequence. Behind it there must be five bytes, except for a short match of a
    roomy sequence that does not reach into its first eight bytes. -/
def decodeMatch (size : Nat) (roomy : Prop) [Decidable roomy] (token : UInt8)
    (rest out : List UInt8) : Option Decoded := do
  let (offset, rest) ← readLE16 rest
  let (length, rest) ← matchLength token rest
  if out.length < offset then none
  else if out.length + length + 5 ≤ size ∨ roomy ∧ token.toNat % 16 ≠ 15 ∧ 8 ≤ offset then
    some (.next rest (copyBack 0 offset length out))
  else none

/-- One sequence. -/
def decodeSequence (size : Nat) : List UInt8 → List UInt8 → Option Decoded
  | [], _ => none
  | token :: input, out => do
    let (length, rest) ← literalLength token input
    if ¬Roomy size token input out ∧
        (size < out.length + length + 12 ∨ rest.length < length + 8) then
      if rest.length = length ∧ out.length + length ≤ size then some (.last (out ++ rest))
      else none
    else
      decodeMatch size (Roomy size token input out) token (rest.drop length)
        (out ++ rest.take length)

/-- The sequences up to the last one, with fuel. -/
def decodeSequences (size : Nat) : Nat → List UInt8 → List UInt8 → Option (List UInt8)
  | 0, _, _ => none
  | fuel + 1, rest, out =>
    match decodeSequence size rest out with
    | none => none
    | some (.last out) => some out
    | some (.next rest out) => decodeSequences size fuel rest out

/-- The bytes of a block that fit into `size` bytes. -/
def decodeBlock (size : Nat) (block : List UInt8) : Option (List UInt8) :=
  if size = 0 then if block = [0] then some [] else none
  else decodeSequences size block.length block []

/-! ## What is read -/

section

variable {slack : Nat} {rest rest' : List UInt8} {length length' : UInt32}
  {error : VariableLengthError} {offset : Nat}

/-- Reading a length takes at least a byte; without an error, more than `slack` bytes are left. -/
theorem readLengthBytes_rest
    (read : readLengthBytes slack rest length = some (length', rest', error)) :
    rest'.length < rest.length ∧ (error = .ok → slack < rest'.length) := by
  induction rest generalizing length with
  | nil => cases read
  | cons s rest ih =>
    rw [readLengthBytes] at read
    split_ifs at read with short more
    · cases read
      exact ⟨Nat.lt_succ_self _, fun ok => nomatch ok⟩
    · obtain ⟨less, left⟩ := ih read
      exact ⟨by rw [List.length_cons]; omega, left⟩
    · cases read
      exact ⟨Nat.lt_succ_self _, fun _ => Nat.lt_of_not_le short⟩

theorem readLengthBytes_error
    (read : readLengthBytes slack rest length = some (length', rest', error)) :
    error ≠ .initialError := by
  induction rest generalizing length with
  | nil => cases read
  | cons s rest ih =>
    rw [readLengthBytes] at read
    split_ifs at read with short more
    · cases read
      decide
    · exact ih read
    · cases read
      decide

/-- With a byte to read, reading a length has a result. -/
theorem readLengthBytes_isSome (slack : Nat) (there : rest ≠ []) (length : UInt32) :
    ∃ length' rest' error, readLengthBytes slack rest length = some (length', rest', error) := by
  induction rest generalizing length with
  | nil => exact absurd rfl there
  | cons s rest ih =>
    rw [readLengthBytes]
    split_ifs with short more
    · exact ⟨_, _, _, rfl⟩
    · apply ih
      rintro rfl
      exact short (Nat.zero_le _)
    · exact ⟨_, _, _, rfl⟩

theorem readLE16_eq (rest : List UInt8) (enough : 2 ≤ rest.length) :
    ∃ offset, readLE16 rest = some (offset, rest.drop 2) := by
  obtain ⟨low, high, rest, rfl⟩ : ∃ low high tail, rest = low :: high :: tail := by
    cases rest with
    | nil => cases enough
    | cons low rest =>
      cases rest with
      | nil => simp at enough
      | cons high rest => exact ⟨low, high, rest, rfl⟩
  exact ⟨_, rfl⟩

end

end CviRuntime.Lz4Block
