import CviRuntime.Lib.BitStream

/-!
# Streams and the header of compressed data (`test/1822/bm_vlc_compress.h`)

A stream is a buffer and a position in it, counted in bits in an `int`. What the C code does
outside of a buffer, and past the range of the position, is a failure (`none`).
-/

namespace CviRuntime.Vlc

open CviRuntime.BitStream

structure StreamBuffer where
  stream : List UInt8
  bitPos : Nat
  deriving DecidableEq, Repr

/-- `init_stream` of a buffer that is written: it is cleared. Its size is an `int`. -/
def initStream (bufSize : Nat) : Option StreamBuffer :=
  if bufSize < 2 ^ 31 then some ⟨List.replicate bufSize 0, 0⟩ else none

/-- `init_stream` of a buffer that is read. -/
def openStream (buf : List UInt8) : StreamBuffer := ⟨buf, 0⟩

/-- `write_stream`. -/
def writeStream (bs : StreamBuffer) (src : List UInt8) (bitLen : Nat) : Option StreamBuffer :=
  if bitLen ≤ 8 * src.length ∧ bs.bitPos + bitLen ≤ 8 * bs.stream.length ∧
      bs.bitPos + bitLen < 2 ^ 31 then
    some ⟨setBits bs.stream bs.bitPos src bitLen, bs.bitPos + bitLen⟩
  else none

def moveStreamPtr (bs : StreamBuffer) (bitLen : Nat) : StreamBuffer :=
  { bs with bitPos := bs.bitPos + bitLen }

/-- `parse_stream` into `n` bytes, which are zero or cleared. -/
def parseStream (bs : StreamBuffer) (n bitLen : Nat) : Option (StreamBuffer × List UInt8) :=
  if bitLen ≤ 8 * n ∧ bs.bitPos + bitLen ≤ 8 * bs.stream.length ∧
      bs.bitPos + bitLen < 2 ^ 31 then
    some (⟨bs.stream, bs.bitPos + bitLen⟩, getBits bs.stream bs.bitPos n bitLen)
  else none

/-! ## What was written and what lies ahead -/

/-- The stream has been given these bits. -/
structure Wrote (bs : StreamBuffer) (bits : List Bool) : Prop where
  holds : Holds bs.stream bits
  pos : bs.bitPos = bits.length

/-- The stream is about to give these bits. -/
structure Gives (bs : StreamBuffer) (bits : List Bool) : Prop where
  ahead : Ahead bs.stream bs.bitPos bits
  range : bs.bitPos + bits.length < 2 ^ 31

section Write

variable {bs : StreamBuffer} {bits : List Bool}

theorem initStream_wrote {bufSize : Nat} (size : bufSize < 2 ^ 31) :
    ∃ bs, initStream bufSize = some bs ∧ Wrote bs [] ∧ bs.stream.length = bufSize :=
  ⟨_, if_pos size, ⟨holds_nil bufSize, rfl⟩, List.length_replicate⟩

theorem Wrote.writeStream (wrote : Wrote bs bits) (src : List UInt8) (len : Nat)
    (inSrc : len ≤ 8 * src.length) (fits : bits.length + len ≤ 8 * bs.stream.length)
    (range : bits.length + len < 2 ^ 31) :
    ∃ bs', writeStream bs src len = some bs' ∧ Wrote bs' (bits ++ bitsOf src len) ∧
      bs'.stream.length = bs.stream.length := by
  rw [← wrote.pos] at fits range
  refine ⟨_, if_pos ⟨inSrc, fits, range⟩, ⟨?_, ?_⟩, length_setBits _ _ _ _⟩
  · rw [wrote.pos] at fits ⊢
    exact wrote.holds.setBits fits
  · rw [List.length_append, length_bitsOf, wrote.pos]

theorem Wrote.moveStreamPtr (wrote : Wrote bs bits) (len : Nat)
    (fits : bits.length + len ≤ 8 * bs.stream.length) :
    Wrote (moveStreamPtr bs len) (bits ++ List.replicate len false) :=
  ⟨wrote.holds.skip fits, by simp [Vlc.moveStreamPtr, wrote.pos]⟩

/-- A stream that is read from the beginning gives what was written. -/
theorem Wrote.gives (wrote : Wrote bs bits) (range : bits.length < 2 ^ 31) :
    Gives (openStream bs.stream) bits :=
  ⟨wrote.holds.ahead, by simpa [openStream] using range⟩

end Write

section Read

variable {bs : StreamBuffer} {bits rest : List Bool}

/-- The bits that are read are those ahead, and the rest is ahead then. -/
theorem Gives.parseStream (gives : Gives bs (bits ++ rest)) {n : Nat}
    (room : bits.length ≤ 8 * n) : ∃ bs',
    parseStream bs n bits.length = some (bs', getBits bs.stream bs.bitPos n bits.length) ∧
      bs'.stream = bs.stream ∧ Gives bs' rest := by
  obtain ⟨first, later⟩ := ahead_append.mp gives.ahead
  have range := gives.range
  rw [List.length_append] at range
  refine ⟨_, if_pos ⟨room, first.inside, by omega⟩, rfl, later, ?_⟩
  simp only
  omega

theorem Gives.first (gives : Gives bs (bits ++ rest)) : Ahead bs.stream bs.bitPos bits :=
  (ahead_append.mp gives.ahead).1

/-- Bytes that were written are read. -/
theorem Gives.parseStream_bitsOf {src : List UInt8} {len : Nat}
    (gives : Gives bs (bitsOf src len ++ rest)) (room : len ≤ 8 * src.length)
    (high : ∀ j, len ≤ j → bitAt src j = false) : ∃ bs',
    Vlc.parseStream bs src.length len = some (bs', src) ∧ bs'.stream = bs.stream ∧
      Gives bs' rest := by
  obtain ⟨bs', read, same, later⟩ := gives.parseStream (n := src.length) (by simpa using room)
  rw [length_bitsOf, gives.first.getBits_bitsOf room high] at read
  exact ⟨bs', read, same, later⟩

theorem Gives.moveStreamPtr (gives : Gives bs (bits ++ rest)) :
    Gives (moveStreamPtr bs bits.length) rest := by
  have range := gives.range
  rw [List.length_append] at range
  refine ⟨(ahead_append.mp gives.ahead).2, ?_⟩
  simp only [Vlc.moveStreamPtr]
  omega

end Read

/-! ## The header -/

structure CommandInfo where
  signedness : Bool
  isBfloat16 : Bool
  bias0 : UInt8
  bias1 : UInt8
  zeroGuardEn : Bool
  deriving DecidableEq, Repr

/-- A `bool` in memory. -/
def boolByte (b : Bool) : UInt8 := if b then 1 else 0

/-- A `size_t` in memory. -/
def sizeBytes (size : Nat) : List UInt8 :=
  (List.range 8).map fun i => UInt8.ofNat (size >>> (8 * i))

/-- `vlc_enc_header`. -/
def vlcEncHeader (bs : StreamBuffer) (cmd : CommandInfo) (blkBsSize : Nat) :
    Option StreamBuffer := do
  let bs ← writeStream bs (sizeBytes blkBsSize) 24
  let bs := moveStreamPtr bs 4
  let bs ← writeStream bs [boolByte cmd.signedness] 1
  let bs ← writeStream bs [boolByte cmd.isBfloat16] 1
  let bs := moveStreamPtr bs 2
  let bs ← writeStream bs [cmd.bias0] 8
  let bs ← writeStream bs [cmd.bias1] 7
  writeStream bs [boolByte cmd.zeroGuardEn] 1

/-- `vlc_dec_header`. -/
def vlcDecHeader (bs : StreamBuffer) : Option CommandInfo := do
  let bs := moveStreamPtr bs 28
  let (bs, signedness) ← parseStream bs 1 1
  let (bs, isBfloat16) ← parseStream bs 1 1
  let bs := moveStreamPtr bs 2
  let (bs, bias0) ← parseStream bs 1 8
  let (bs, bias1) ← parseStream bs 1 7
  let (_, zeroGuardEn) ← parseStream bs 1 1
  return {
    signedness := signedness ≠ [0]
    isBfloat16 := isBfloat16 ≠ [0]
    bias0 := bias0.getD 0 0
    bias1 := bias1.getD 0 0
    zeroGuardEn := zeroGuardEn ≠ [0] }

/-- The bits of a header. -/
def headerBits (cmd : CommandInfo) (blkBsSize : Nat) : List Bool :=
  bitsOf (sizeBytes blkBsSize) 24 ++ List.replicate 4 false ++ bitsOf [boolByte cmd.signedness] 1 ++
    bitsOf [boolByte cmd.isBfloat16] 1 ++ List.replicate 2 false ++ bitsOf [cmd.bias0] 8 ++
    bitsOf [cmd.bias1] 7 ++ bitsOf [boolByte cmd.zeroGuardEn] 1

theorem boolByte_lt (b : Bool) : (boolByte b).toNat < 2 ^ 1 := by
  cases b <;> decide

theorem boolByte_ne_zero (b : Bool) : decide ([boolByte b] ≠ [0]) = b := by
  cases b <;> rfl

theorem vlcEncHeader_wrote (cmd : CommandInfo) (blkBsSize : Nat) :
    ∃ start bs, initStream 16 = some start ∧ vlcEncHeader start cmd blkBsSize = some bs ∧
      Wrote bs (headerBits cmd blkBsSize) ∧ bs.stream.length = 16 := by
  obtain ⟨bs₀, init, start, length⟩ := initStream_wrote (by decide : 16 < 2 ^ 31)
  obtain ⟨bs₁, write₁, wrote₁, length₁⟩ := start.writeStream (sizeBytes blkBsSize) 24
    (by simp [sizeBytes]) (by simp [length]) (by simp)
  have wrote₂ := wrote₁.moveStreamPtr 4 (by simp [length₁, length])
  have length₂ : (moveStreamPtr bs₁ 4).stream.length = 16 := by rw [← length, ← length₁]; rfl
  obtain ⟨bs₃, write₃, wrote₃, length₃⟩ := wrote₂.writeStream [boolByte cmd.signedness] 1
    (by simp) (by simp [length₂]) (by simp)
  obtain ⟨bs₄, write₄, wrote₄, length₄⟩ := wrote₃.writeStream [boolByte cmd.isBfloat16] 1
    (by simp) (by simp [length₃, length₂]) (by simp)
  have wrote₅ := wrote₄.moveStreamPtr 2 (by simp [length₄, length₃, length₂])
  have length₅ : (moveStreamPtr bs₄ 2).stream.length = 16 := by
    rw [← length₂, ← length₃, ← length₄]; rfl
  obtain ⟨bs₆, write₆, wrote₆, length₆⟩ := wrote₅.writeStream [cmd.bias0] 8
    (by simp) (by simp [length₅]) (by simp)
  obtain ⟨bs₇, write₇, wrote₇, length₇⟩ := wrote₆.writeStream [cmd.bias1] 7
    (by simp) (by simp [length₆, length₅]) (by simp)
  obtain ⟨bs₈, write₈, wrote₈, length₈⟩ := wrote₇.writeStream [boolByte cmd.zeroGuardEn] 1
    (by simp) (by simp [length₇, length₆, length₅]) (by simp)
  refine ⟨bs₀, bs₈, init, ?_, ?_, by rw [length₈, length₇, length₆, length₅]⟩
  · simp [vlcEncHeader, write₁, write₃, write₄, write₆, write₇, write₈]
  · exact wrote₈

/-- The seven bits of `bias1` that the header has. -/
def CommandInfo.sevenBits (cmd : CommandInfo) : CommandInfo :=
  { cmd with bias1 := UInt8.ofNat (cmd.bias1.toNat % 2 ^ 7) }

theorem CommandInfo.sevenBits_eq {cmd : CommandInfo} (bias1 : cmd.bias1.toNat ≤ 127) :
    cmd.sevenBits = cmd := by
  unfold CommandInfo.sevenBits
  rw [Nat.mod_eq_of_lt (by omega), UInt8.ofNat_toNat]

theorem bitsOf_low (byte : UInt8) :
    bitsOf [byte] 7 = bitsOf [UInt8.ofNat (byte.toNat % 2 ^ 7)] 7 := by
  have lt := byte.toNat_lt
  refine List.map_congr_left fun j member => ?_
  have small := List.mem_range.mp member
  unfold bitAt
  rw [show j / 8 = 0 by omega, show j % 8 = j by omega]
  simp only [List.getD_cons_zero]
  rw [UInt8.toNat_ofNat', Nat.mod_eq_of_lt (by omega : byte.toNat % 2 ^ 7 < 2 ^ 8),
    Nat.testBit_mod_two_pow, decide_eq_true small, Bool.true_and]

/-- The header gives the command info back, as far as it has it. -/
theorem vlcDecHeader_eq {buf : List UInt8} {cmd : CommandInfo} {blkBsSize : Nat}
    (gives : Gives (openStream buf) (headerBits cmd blkBsSize)) :
    vlcDecHeader (openStream buf) = some cmd.sevenBits := by
  have low : (UInt8.ofNat (cmd.bias1.toNat % 2 ^ 7)).toNat < 2 ^ 7 := by
    rw [UInt8.toNat_ofNat']
    omega
  have order : headerBits cmd blkBsSize =
      (bitsOf (sizeBytes blkBsSize) 24 ++ List.replicate 4 false) ++
        (bitsOf [boolByte cmd.signedness] 1 ++ (bitsOf [boolByte cmd.isBfloat16] 1 ++
          (List.replicate 2 false ++ (bitsOf [cmd.bias0] 8 ++
            (bitsOf [UInt8.ofNat (cmd.bias1.toNat % 2 ^ 7)] 7 ++
              (bitsOf [boolByte cmd.zeroGuardEn] 1 ++ [])))))) := by
    simp [headerBits, bitsOf_low cmd.bias1]
  rw [order] at gives
  have gives₁ := gives.moveStreamPtr
  obtain ⟨bs₂, read₂, -, gives₂⟩ := gives₁.parseStream_bitsOf (by simp)
    fun j ge => bitAt_singleton_of_lt (boolByte_lt _) ge
  obtain ⟨bs₃, read₃, -, gives₃⟩ := gives₂.parseStream_bitsOf (by simp)
    fun j ge => bitAt_singleton_of_lt (boolByte_lt _) ge
  have gives₄ := gives₃.moveStreamPtr
  obtain ⟨bs₅, read₅, -, gives₅⟩ := gives₄.parseStream_bitsOf (by simp)
    fun j ge => bitAt_singleton_of_lt (UInt8.toNat_lt _) ge
  obtain ⟨bs₆, read₆, -, gives₆⟩ := gives₅.parseStream_bitsOf (by simp)
    fun j ge => bitAt_singleton_of_lt low ge
  obtain ⟨bs₇, read₇, -, -⟩ := gives₆.parseStream_bitsOf (by simp)
    fun j ge => bitAt_singleton_of_lt (boolByte_lt _) ge
  rw [List.length_append, length_bitsOf, List.length_replicate] at read₂
  rw [List.length_replicate] at read₅
  simp only [List.length_singleton] at read₂ read₃ read₅ read₆ read₇
  simp only [vlcDecHeader, read₂, read₃, read₅, read₆, read₇, Option.bind_eq_bind,
    Option.bind_some, Option.pure_def, boolByte_ne_zero]
  rfl

end CviRuntime.Vlc
