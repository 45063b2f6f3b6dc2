import CviRuntime.Lib.BlockStream
import CviRuntime.Lib.ByteMem

/-!
# The MD5 of the tool (`tool/md5.hpp`, `tool/md5.cpp`)

An object is fed with bytes by `update`, in pieces of any size, and gives its digest after
`finalize`. A `memcpy` outside of the buffer or a read outside of the bytes that are passed has no
result. Words of the state are `uint32_t`; the counter is kept in two numbers below `2^32`.
-/

namespace CviRuntime.Md5

open CviRuntime.ByteMem

/-- `state`. -/
structure State where
  a : UInt32
  b : UInt32
  c : UInt32
  d : UInt32
  deriving DecidableEq, Repr

/-- The object. `digest` is not read before it is set. -/
structure MD5 where
  finalized : Bool
  buffer : Nat → UInt8
  countLo : Nat
  countHi : Nat
  state : State
  digest : List UInt8

/-! ## A block -/

def F (x y z : UInt32) : UInt32 := (x &&& y) ||| (~~~x &&& z)
def G (x y z : UInt32) : UInt32 := (x &&& z) ||| (y &&& ~~~z)
def H (x y z : UInt32) : UInt32 := x ^^^ y ^^^ z
def I (x y z : UInt32) : UInt32 := y ^^^ (x ||| ~~~z)

def rotateLeft (x n : UInt32) : UInt32 := (x <<< n) ||| (x >>> (32 - n))

/-- `FF`, `GG`, `HH` and `II` (`md5.cpp:81-99`) for the function of the round. -/
def rotated (f : UInt32 → UInt32 → UInt32 → UInt32) (a b c d x s ac : UInt32) : UInt32 :=
  rotateLeft (a + f b c d + x + ac) s + b

/-- Four lines of `transform`, which set `a`, `d`, `c` and `b`; each has an index of `x` and a
    constant. -/
def quarter (f : UInt32 → UInt32 → UInt32 → UInt32) (s1 s2 s3 s4 : UInt32) (x : Nat → UInt32)
    (r : State) (k1 : Nat × UInt32) (k2 : Nat × UInt32) (k3 : Nat × UInt32) (k4 : Nat × UInt32) :
    State :=
  let a := rotated f r.a r.b r.c r.d (x k1.1) s1 k1.2
  let d := rotated f r.d a r.b r.c (x k2.1) s2 k2.2
  let c := rotated f r.c d a r.b (x k3.1) s3 k3.2
  let b := rotated f r.b c d a (x k4.1) s4 k4.2
  ⟨a, b, c, d⟩

def FF := quarter F 7 12 17 22
def GG := quarter G 5 9 14 20
def HH := quarter H 4 11 16 23
def II := quarter I 6 10 15 21

/-- `decode` (`md5.cpp:123-127`): the words of a block. -/
def decode (block : List UInt8) (i : Nat) : UInt32 :=
  (block.getD (4 * i) 0).toUInt32 ||| ((block.getD (4 * i + 1) 0).toUInt32 <<< 8) |||
    ((block.getD (4 * i + 2) 0).toUInt32 <<< 16) ||| ((block.getD (4 * i + 3) 0).toUInt32 <<< 24)

/-- `encode` (`md5.cpp:133-140`). -/
def encode (words : List Nat) : List UInt8 := words.flatMap le32

def State.words (s : State) : List Nat := [s.a.toNat, s.b.toNat, s.c.toNat, s.d.toNat]

/-- `transform` (`md5.cpp:145-228`). -/
def transform (state : State) (block : List UInt8) : State :=
  let x := decode block
  -- round 1
  let r := FF x state (0, 0xd76aa478) (1, 0xe8c7b756) (2, 0x242070db) (3, 0xc1bdceee)
  let r := FF x r (4, 0xf57c0faf) (5, 0x4787c62a) (6, 0xa8304613) (7, 0xfd469501)
  let r := FF x r (8, 0x698098d8) (9, 0x8b44f7af) (10, 0xffff5bb1) (11, 0x895cd7be)
  let r := FF x r (12, 0x6b901122) (13, 0xfd987193) (14, 0xa679438e) (15, 0x49b40821)
  -- round 2
  let r := GG x r (1, 0xf61e2562) (6, 0xc040b340) (11, 0x265e5a51) (0, 0xe9b6c7aa)
  let r := GG x r (5, 0xd62f105d) (10, 0x2441453) (15, 0xd8a1e681) (4, 0xe7d3fbc8)
  let r := GG x r (9, 0x21e1cde6) (14, 0xc33707d6) (3, 0xf4d50d87) (8, 0x455a14ed)
  let r := GG x r (13, 0xa9e3e905) (2, 0xfcefa3f8) (7, 0x676f02d9) (12, 0x8d2a4c8a)
  -- round 3
  let r := HH x r (5, 0xfffa3942) (8, 0x8771f681) (11, 0x6d9d6122) (14, 0xfde5380c)
  let r := HH x r (1, 0xa4beea44) (4, 0x4bdecfa9) (7, 0xf6bb4b60) (10, 0xbebfbc70)
  let r := HH x r (13, 0x289b7ec6) (0, 0xeaa127fa) (3, 0xd4ef3085) (6, 0x4881d05)
  let r := HH x r (9, 0xd9d4d039) (12, 0xe6db99e5) (15, 0x1fa27cf8) (2, 0xc4ac5665)
  -- round 4
  let r := II x r (0, 0xf4292244) (7, 0x432aff97) (14, 0xab9423a7) (5, 0xfc93a039)
  let r := II x r (12, 0x655b59c3) (3, 0x8f0ccc92) (10, 0xffeff47d) (1, 0x85845dd1)
  let r := II x r (8, 0x6fa87e4f) (15, 0xfe2ce6e0) (6, 0xa3014314) (13, 0x4e0811a1)
  let r := II x r (4, 0xf7537e82) (11, 0xbd3af235) (2, 0x2ad7d2bb) (9, 0xeb86d391)
  ⟨state.a + r.a, state.b + r.b, state.c + r.c, state.d + r.d⟩

/-! ## The object -/

def initialState : State := ⟨0x67452301, 0xefcdab89, 0x98badcfe, 0x10325476⟩

/-- `MD5::MD5` (`md5.cpp:104-118`); `initial` is what was in the buffer. -/
def new (initial : Nat → UInt8) : MD5 :=
  ⟨false, writeBytes initial 0 [0], 0, 0, initialState, []⟩

/-- `memcpy(&buffer[index], &input[i], n)`. -/
def memcpy (buffer : Nat → UInt8) (index : Nat) (input : List UInt8) (i n : Nat) :
    Option (Nat → UInt8) :=
  if index + n ≤ 64 ∧ i + n ≤ input.length then
    some (writeBytes buffer index ((input.drop i).take n))
  else none

/-- `for (…; i + blocksize <= length; i += blocksize) transform(&input[i])`, where the sum is a
    `uint32_t`: the last `i` and the state. -/
def transformLoop (input : List UInt8) (length : Nat) : Nat → Nat → State → Option (Nat × State)
  | 0, _, _ => none
  | fuel + 1, i, state =>
    if (i + 64) % 2 ^ 32 ≤ length then
      if i + 64 ≤ input.length then
        transformLoop input length fuel ((i + 64) % 2 ^ 32)
          (transform state ((input.drop i).take 64))
      else none
    else some (i, state)

/-- `MD5::update` (`md5.cpp:234-264`). -/
def update (m : MD5) (input : List UInt8) (length : Nat) : Option MD5 :=
  let index := m.countLo / 8 % 64
  let added := length * 8 % 2 ^ 32
  let countLo := (m.countLo + added) % 2 ^ 32
  let countHi := if countLo < added then (m.countHi + 1) % 2 ^ 32 else m.countHi
  let countHi := (countHi + length / 2 ^ 29) % 2 ^ 32
  let firstpart := 64 - index
  if firstpart ≤ length then do
    let buffer ← memcpy m.buffer index input 0 firstpart
    let (i, state) ←
      transformLoop input length (length + 1) firstpart (transform m.state (readBytes buffer 0 64))
    let buffer ← memcpy buffer 0 input i (length - i)
    return { m with buffer := buffer, countLo := countLo, countHi := countHi, state := state }
  else do
    let buffer ← memcpy m.buffer index input 0 length
    return { m with buffer := buffer, countLo := countLo, countHi := countHi }

def padding : List UInt8 := 0x80 :: List.replicate 63 0

/-- `MD5::finalize` (`md5.cpp:268-298`). -/
def finalize (m : MD5) : Option MD5 :=
  if m.finalized then some m
  else do
    let bits := encode [m.countLo, m.countHi]
    let index := m.countLo / 8 % 64
    let padLen := if index < 56 then 56 - index else 120 - index
    let m ← update m padding padLen
    let m ← update m bits 8
    return { m with
      finalized := true
      buffer := writeBytes m.buffer 0 (List.replicate 64 0)
      countLo := 0
      countHi := 0
      digest := encode m.state.words }

def hexDigit (n : Nat) : Char := ("0123456789abcdef".toList).getD n '0'

/-- `sprintf` with `%02x` for each byte. -/
def hex (bytes : List UInt8) : String :=
  String.ofList (bytes.flatMap fun byte => [hexDigit (byte.toNat / 16), hexDigit (byte.toNat % 16)])

/-- `MD5::hexdigest` (`md5.cpp:303-313`). -/
def hexdigest (m : MD5) : String := if m.finalized then hex m.digest else ""

/-! ## The digest of a message -/

/-- The message with the bit that ends it, zeros up to eight bytes before the end of a block and
    its length in bits. -/
def pad (l : List UInt8) : List UInt8 :=
  l ++ (0x80 :: List.replicate ((119 - l.length % 64) % 64) 0 ++
    encode [8 * l.length % 2 ^ 32, 8 * l.length / 2 ^ 32 % 2 ^ 32])

/-- The digest of the whole message. -/
def md5 (l : List UInt8) : List UInt8 :=
  encode (BlockStream.absorb transform 64 initialState (pad l)).words

example : hex (md5 "abc".toUTF8.toList) = "900150983cd24fb0d6963f7d28e17f72" := by decide +kernel

end CviRuntime.Md5
