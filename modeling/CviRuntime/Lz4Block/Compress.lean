import CviRuntime.Lib.CommonPrefix
import CviRuntime.Lz4Block.Buffer

/-!
# `LZ4_compress_default` (`src/lz4/lz4_all.c`, `include/lz4/lz4.h`)

`LZ4_compress_generic_validated` with `noDict` and `noDictIssue` on a fresh state, with
`notLimited` or `limitedOutput`, on a 64-bit little-endian target: small inputs use 16-bit indexes
(`byU16`) and hashes of four bytes, the others 32-bit indexes (`byU32`) and hashes of five. Since
`currentOffset` is zero, `base` is the source and indexes are positions. A read outside of the
source, a write outside of the destination and a hash outside of the table have no result.
-/

namespace CviRuntime.Lz4Block

open CviRuntime.ByteMem CviRuntime.CommonPrefix

/-- `tableType_t`; `clearedTable` and `byPtr` are not used here. -/
inductive TableType
  | byU32
  | byU16
  deriving DecidableEq, Repr

/-- What a compression is asked for; `limited` is `limitedOutput`, and `olimit` is then the
    capacity of the destination. -/
structure Job where
  source : List UInt8
  limited : Bool
  olimit : Nat
  tableType : TableType
  acceleration : Nat

/-- `hashTable`: a position for each hash. -/
abbrev HashTable := Nat → Nat

namespace Job

variable (job : Job)

/-- `k` bytes of the source as a number, lowest first: `LZ4_read16`, `LZ4_read32` and
    `LZ4_read_ARCH`. -/
def read (p k : Nat) : Option Nat :=
  if p + k ≤ job.source.length then some (leNat ((job.source.drop p).take k)) else none

/-! ## The hash table -/

/-- `LZ4_HASHLOG`, one more for the table of 16-bit indexes. -/
def hashLog : Nat :=
  match job.tableType with
  | .byU32 => 12
  | .byU16 => 13

/-- `LZ4_hash4` (`lz4_all.c:697-703`). -/
def hash4 (sequence : Nat) : Nat := sequence * 2654435761 % 2 ^ 32 / 2 ^ (32 - job.hashLog)

/-- `LZ4_hash5` (`lz4_all.c:705-715`). -/
def hash5 (sequence : Nat) : Nat :=
  sequence * 2 ^ 24 % 2 ^ 64 * 889523592379 % 2 ^ 64 / 2 ^ (64 - job.hashLog)

/-- `LZ4_hashPosition` (`lz4_all.c:717-721`). -/
def hashPosition (p : Nat) : Option Nat :=
  match job.tableType with
  | .byU32 => (job.read p 8).map job.hash5
  | .byU16 => (job.read p 4).map job.hash4

/-- `LZ4_getIndexOnHash` (`lz4_all.c:772-788`). -/
def getIndexOnHash (table : HashTable) (h : Nat) : Option Nat :=
  if h < 2 ^ job.hashLog then some (table h) else none

/-- `LZ4_putIndexOnHash` (`lz4_all.c:735-745`) and `LZ4_putPositionOnHash`. -/
def putIndexOnHash (table : HashTable) (idx h : Nat) : Option HashTable :=
  if h < 2 ^ job.hashLog then
    some fun k => if k = h then
      match job.tableType with
      | .byU32 => idx % 2 ^ 32
      | .byU16 => idx % 2 ^ 16
    else table k
  else none

/-- `LZ4_putPosition` (`lz4_all.c:760-764`). -/
def putPosition (table : HashTable) (p : Nat) : Option HashTable := do
  let h ← job.hashPosition p
  job.putIndexOnHash table p h

/-! ## Comparing -/

/-- `LZ4_NbCommonBytes` (`lz4_all.c:529-545`), with `__builtin_ctzll`. -/
def nbCommonBytes (val : Nat) : Nat := trailingZeros 64 val / 8

/-- The loops of `LZ4_count` over words, of which the first is one round of the second: where
    they stop, and whether at a difference. -/
def countWords (pInLimit : Nat) : Nat → Nat → Nat → Option (Nat × Nat × Bool)
  | 0, _, _ => none
  | fuel + 1, pIn, pMatch =>
    if pIn + 7 < pInLimit then do
      let a ← job.read pMatch 8
      let b ← job.read pIn 8
      let diff := a ^^^ b
      if diff = 0 then countWords pInLimit fuel (pIn + 8) (pMatch + 8)
      else some (pIn + nbCommonBytes diff, pMatch, true)
    else some (pIn, pMatch, false)

/-- A step behind the loops: `k` bytes more when they are the same. -/
def countMore (pInLimit k : Nat) (pIn pMatch : Nat) : Option (Nat × Nat) :=
  if pIn + (k - 1) < pInLimit then do
    let a ← job.read pMatch k
    let b ← job.read pIn k
    if a = b then some (pIn + k, pMatch + k) else some (pIn, pMatch)
  else some (pIn, pMatch)

/-- `LZ4_count` (`lz4_all.c:602-625`). -/
def count (pIn pMatch pInLimit : Nat) : Option Nat := do
  let (stop, pMatch, differs) ← job.countWords pInLimit (job.source.length + 1) pIn pMatch
  if differs then some (stop - pIn)
  else do
    let (stop, pMatch) ← job.countMore pInLimit 4 stop pMatch
    let (stop, pMatch) ← job.countMore pInLimit 2 stop pMatch
    let (stop, _) ← job.countMore pInLimit 1 stop pMatch
    some (stop - pIn)

/-! ## Finding a match -/

/-- How the search ends: with a match at `ip` or at the end of the input. -/
inductive Found
  | found (ip m : Nat) (table : HashTable)
  | lastLiterals

/-- The loop under `Find a match` (`lz4_all.c:957-1014`), with fuel. -/
def findMatch : Nat → HashTable → Nat → Nat → Nat → Nat → Option Found
  | 0, _, _, _, _, _ => none
  | fuel + 1, table, forwardIp, forwardH, step, searchMatchNb => do
    let h := forwardH
    let current := forwardIp
    let matchIndex ← job.getIndexOnHash table h
    let ip := forwardIp
    let forwardIp := forwardIp + step
    let step := searchMatchNb / 64
    let searchMatchNb := searchMatchNb + 1
    if job.source.length < forwardIp + 11 then some .lastLiterals
    else do
      let forwardH ← job.hashPosition forwardIp
      let table ← job.putIndexOnHash table current h
      if job.tableType ≠ .byU16 ∧ matchIndex + 65535 < current then
        findMatch fuel table forwardIp forwardH step searchMatchNb
      else do
        let a ← job.read matchIndex 4
        let b ← job.read ip 4
        if a = b then some (.found ip matchIndex table)
        else findMatch fuel table forwardIp forwardH step searchMatchNb

/-- `Catch up` (`lz4_all.c:1017-1019`). -/
def catchUp (anchor : Nat) : Nat → Nat → Nat × Nat
  | ip + 1, m + 1 =>
    if anchor < ip + 1 ∧ job.source[ip]? = job.source[m]? then catchUp anchor ip m
    else (ip + 1, m + 1)
  | ip, m => (ip, m)

end Job

/-! ## Writing -/

/-- `for(; len >= 255; len -= 255) *op++ = 255; *op++ = len;`, with fuel. -/
def putLength (out : Output) (op : Nat) : Nat → Nat → Option (Output × Nat)
  | 0, _ => none
  | fuel + 1, len =>
    if 255 ≤ len then do
      let out ← out.put op [255]
      putLength out (op + 1) fuel (len - 255)
    else do
      let out ← out.put op [UInt8.ofNat len]
      some (out, op + 1)

/-- The length of a run of literals at `token`, and where `op` is behind it. -/
def putRun (out : Output) (token length : Nat) : Option (Output × Nat) :=
  if 15 ≤ length then do
    let out ← out.put token [UInt8.ofNat (15 * 16)]
    putLength out (token + 1) (length - 15 + 1) (length - 15)
  else do
    let out ← out.put token [UInt8.ofNat (length * 16)]
    some (out, token + 1)

/-- `while (matchCode >= 4*255) { op += 4; LZ4_write32(op, 0xFFFFFFFF); .. }`, with fuel. -/
def putWords (out : Output) (op : Nat) : Nat → Nat → Option (Output × Nat × Nat)
  | 0, _ => none
  | fuel + 1, matchCode =>
    if 4 * 255 ≤ matchCode then do
      let out ← out.put (op + 4) [255, 255, 255, 255]
      putWords out (op + 4) fuel (matchCode - 4 * 255)
    else some (out, op, matchCode)

/-- `*token += x`. -/
def addToken (out : Output) (token x : Nat) : Option Output :=
  if token < out.size then out.put token [out.mem token + UInt8.ofNat x] else none

/-- The length of a match (`lz4_all.c:1119-1131`), and where `op` is behind it. -/
def putMatchCode (out : Output) (op token matchCode : Nat) : Option (Output × Nat) :=
  if 15 ≤ matchCode then do
    let out ← addToken out token 15
    let matchCode := matchCode - 15
    let out ← out.put op [255, 255, 255, 255]
    let (out, op, matchCode) ← putWords out op (matchCode + 1) matchCode
    let op := op + matchCode / 255
    let out ← out.put op [UInt8.ofNat (matchCode % 255)]
    some (out, op + 1)
  else do
    let out ← addToken out token matchCode
    some (out, op)

namespace Job

variable (job : Job)

/-! ## The main loop -/

/-- Where the main loop is: before a search, or at `_next_match`. -/
inductive Phase
  | search (ip forwardH : Nat)
  | nextMatch (ip m token : Nat)

structure State where
  anchor : Nat
  op : Nat
  out : Output
  table : HashTable
  phase : Phase

/-- How a step of the main loop ends: the loop goes on, `_last_literals`, `return 0`. -/
inductive Next
  | go (s : State)
  | lastLiterals (anchor op : Nat) (out : Output)
  | full (out : Output)

/-- A search and the literals before its match (`lz4_all.c:954-1045`). -/
def searchStep (s : State) (ip forwardH : Nat) : Option Next := do
  match ← job.findMatch (job.source.length + 1) s.table ip forwardH 1 (job.acceleration * 64) with
  | .lastLiterals => some (.lastLiterals s.anchor s.op s.out)
  | .found ip m table =>
    let (ip, m) := job.catchUp s.anchor ip m
    let litLength := ip - s.anchor
    let token := s.op
    let op := s.op + 1
    if job.limited ∧ job.olimit < op + litLength + (2 + 1 + 5) + litLength / 255 then
      some (.full s.out)
    else do
      let (out, op) ← putRun s.out token litLength
      let out ← wildCopy8 (fun out => out.load job.source) out op s.anchor (op + litLength)
      some (.go ⟨s.anchor, op + litLength, out, table, .nextMatch ip m token⟩)

/-- The condition under `Test next position`: near enough, and four bytes agree. -/
def isMatch (matchIndex current : Nat) : Option Bool :=
  if job.tableType = .byU16 ∨ current ≤ matchIndex + 65535 then do
    let a ← job.read matchIndex 4
    let b ← job.read current 4
    some (decide (a = b))
  else some false

/-- `Test next position` (`lz4_all.c:1140-1204`). -/
def testNext (anchor op : Nat) (out : Output) (table : HashTable) : Option Next := do
  let ip := anchor
  let table ← job.putPosition table (ip - 2)
  let h ← job.hashPosition ip
  let current := ip
  let matchIndex ← job.getIndexOnHash table h
  let table ← job.putIndexOnHash table current h
  if ← job.isMatch matchIndex current then do
    let token := op
    let out ← out.put token [0]
    some (.go ⟨anchor, op + 1, out, table, .nextMatch ip matchIndex token⟩)
  else do
    let forwardH ← job.hashPosition (ip + 1)
    some (.go ⟨anchor, op, out, table, .search (ip + 1) forwardH⟩)

/-- A match (`lz4_all.c:1047-1204`). -/
def matchStep (s : State) (ip m token : Nat) : Option Next := do
  let out ← s.out.put s.op [UInt8.ofNat (ip - m), UInt8.ofNat ((ip - m) / 256)]
  let op := s.op + 2
  let matchCode ← job.count (ip + 4) (m + 4) (job.source.length - 5)
  let ip := ip + matchCode + 4
  if job.limited ∧ job.olimit < op + (1 + 5) + (matchCode + 240) / 255 then some (.full out)
  else do
    let (out, op) ← putMatchCode out op token matchCode
    let anchor := ip
    if job.source.length ≤ ip + 11 then some (.lastLiterals anchor op out)
    else job.testNext anchor op out s.table

/-- A step of the main loop. -/
def step (s : State) : Option Next :=
  match s.phase with
  | .search ip forwardH => job.searchStep s ip forwardH
  | .nextMatch ip m token => job.matchStep s ip m token

/-- `_last_literals` (`lz4_all.c:1206-1238`): the size of the result. -/
def lastLiterals (anchor op : Nat) (out : Output) : Option (Int × Output) :=
  let lastRun := job.source.length - anchor
  if job.limited ∧ job.olimit < op + lastRun + 1 + (lastRun + 240) / 255 then some (0, out)
  else do
    let (out, op) ← putRun out op lastRun
    let out ← out.load job.source op anchor lastRun
    some (((op + lastRun : Nat) : Int), out)

/-- The main loop, with fuel. -/
def mainLoop : Nat → State → Option (Int × Output)
  | 0, _ => none
  | fuel + 1, s => do
    match ← job.step s with
    | .go s => mainLoop fuel s
    | .lastLiterals anchor op out => job.lastLiterals anchor op out
    | .full out => some (0, out)

/-- `LZ4_compress_generic_validated` (`lz4_all.c:850-1245`). -/
def compressGenericValidated (dst : Output) : Option (Int × Output) :=
  if job.tableType = .byU16 ∧ 65536 + 11 ≤ job.source.length then some (0, dst)
  else if job.source.length < 13 then job.lastLiterals 0 0 dst
  else do
    let table ← job.putPosition (fun _ => 0) 0
    let forwardH ← job.hashPosition 1
    job.mainLoop (2 * job.source.length + 2) ⟨0, 0, dst, table, .search 1 forwardH⟩

/-- `LZ4_compress_generic` (`lz4_all.c:1247-1280`). -/
def compressGeneric (dst : Output) : Option (Int × Output) :=
  if 0x7E000000 < job.source.length then some (0, dst)
  else if job.source.length = 0 then
    if job.limited ∧ job.olimit ≤ 0 then some (0, dst)
    else do
      let out ← dst.put 0 [0]
      some (1, out)
  else job.compressGenericValidated dst

end Job

/-- `LZ4_compressBound` (`lz4.h:171`). -/
def compressBound (isize : Nat) : Nat :=
  if 0x7E000000 < isize then 0 else isize + isize / 255 + 16

/-- `LZ4_compress_fast` (`lz4_all.c:1283-1305,1357-1374`). -/
def compressFast (source : List UInt8) (dst : Output) (acceleration : Int) :
    Option (Int × Output) :=
  let acceleration := if acceleration < 1 then 1 else acceleration
  let acceleration := if acceleration > 65537 then 65537 else acceleration
  let tableType := if source.length < 65536 + 11 then .byU16 else .byU32
  if compressBound source.length ≤ dst.size then
    Job.compressGeneric ⟨source, false, 0, tableType, acceleration.toNat⟩ dst
  else Job.compressGeneric ⟨source, true, dst.size, tableType, acceleration.toNat⟩ dst

/-- `LZ4_compress_default` (`lz4_all.c:1377-1380`). -/
def compressDefault (source : List UInt8) (dst : Output) : Option (Int × Output) :=
  compressFast source dst 1

end CviRuntime.Lz4Block
