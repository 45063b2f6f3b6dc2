import CviRuntime.Lz4Block.Buffer
import CviRuntime.Lz4Block.Plain

/-!
# `LZ4_decompress_safe` (`src/lz4/lz4_all.c`)

`LZ4_decompress_generic` with `endOnInputSize`, `decode_full_block` and `noDict`, for a buffer of
its own (`lowPrefix` is `dst`). The labels that are jumped to are functions. `match` is before the
output when the offset is larger than `op`; it is used after the check only, so the offset is kept.
Addresses do not wrap around, which leaves out the overflow checks of `op + length` and
`ip + length`.
-/

namespace CviRuntime.Lz4Block

open CviRuntime.ChunkCopy

/-- `inc32table` and `dec64table` (`lz4_all.c:418-419`). -/
def inc32table : List Nat := [0, 1, 2, 1, 0, 4, 4, 4]

def dec64table : List Int := [0, 0, 0, -1, -4, 1, 2, 3]

/-- How an iteration of the safe loop ends: the next one, the end of the block, `_output_error`.
    The input is what is left of it. -/
inductive Step
  | next (rest : List UInt8) (op : Nat) (out : Output)
  | done (op : Nat) (out : Output)
  | error (rest : List UInt8) (out : Output)

/-- How an iteration of the fast loop ends; `leave` when it jumps into the safe loop, with what
    the rest of that iteration does. -/
inductive FastStep
  | stay (rest : List UInt8) (op : Nat) (out : Output)
  | leave (step : Step)

/-! ## Copies of matches -/

/-- `op[0] = match[0];` to `op[3] = match[3];`. -/
def moveFour (out : Output) (op m : Nat) : Option Output := do
  let out ← out.move op m
  let out ← out.move (op + 1) (m + 1)
  let out ← out.move (op + 2) (m + 2)
  out.move (op + 3) (m + 3)

/-- The first eight bytes of a match (`lz4_all.c:2146-2159`, the same in
    `LZ4_memcpy_using_offset_base`) and `match` behind them. -/
def copyFirst (out : Output) (op m offset : Nat) : Option (Output × Nat) :=
  if offset < 8 then do
    let out ← out.put op [0, 0, 0, 0]
    let out ← moveFour out op m
    let m := m + inc32table.getD offset 0
    let out ← out.memcpy (op + 4) m 4
    return (out, ((m : Int) - dec64table.getD offset 0).toNat)
  else do
    let out ← out.memcpy op m 8
    return (out, m + 8)

/-- `LZ4_memcpy_using_offset_base` (`lz4_all.c:437-459`). -/
def memcpyUsingOffsetBase (out : Output) (op m cpy offset : Nat) : Option Output := do
  let (out, m) ← copyFirst out op m offset
  wildCopy8 Output.memcpy out (op + 8) m cpy

/-- The loop of `LZ4_memcpy_using_offset` that writes the eight bytes `v`. -/
def putRounds (v : List UInt8) (out : Output) (op cpy : Nat) : Option Output :=
  copyRounds (fun out d _ => out.put d v) 8 cpy (cpy - op + 1) out op 0

/-- `LZ4_memcpy_using_offset` (`lz4_all.c:474-510`). -/
def memcpyUsingOffset (out : Output) (op m cpy offset : Nat) : Option Output :=
  match offset with
  | 1 => do
    let v ← out.fetch m 1
    putRounds (v ++ v ++ v ++ v ++ v ++ v ++ v ++ v) out op cpy
  | 2 => do
    let v ← out.fetch m 2
    putRounds (v ++ v ++ v ++ v) out op cpy
  | 4 => do
    let v ← out.fetch m 4
    putRounds (v ++ v) out op cpy
  | offset => memcpyUsingOffsetBase out op m cpy offset

/-- Eighteen bytes for a short match that does not reach into its first eight. -/
def copyShort (out : Output) (op m : Nat) : Option Output := do
  let out ← out.memcpy op m 8
  let out ← out.memcpy (op + 8) (m + 8) 8
  out.memcpy (op + 16) (m + 16) 2

/-- `while (op < cpy) { *op++ = *match++; }`. -/
def copyBytes (out : Output) (op m : Nat) : Nat → Option Output
  | 0 => some out
  | n + 1 => do
    let out ← out.move op m
    copyBytes out (op + 1) (m + 1) n

/-! ## The safe loop -/

/-- `safe_match_copy:` to the end of the loop (`lz4_all.c:2086-2181`); `length` is that of the
    match. -/
def safeMatchCopy (out : Output) (rest : List UInt8) (op offset length : Nat) : Option Step :=
  if op < offset then some (.error rest out)
  else do
    let cpy := op + length
    let (out, m) ← copyFirst out op (op - offset) offset
    let op := op + 8
    if out.size < cpy + 12 then
      if out.size < cpy + 5 then some (.error rest out)
      else if op + 7 < out.size then do
        let oCopyLimit := out.size - 7
        let out ← wildCopy8 Output.memcpy out op m oCopyLimit
        let out ← copyBytes out oCopyLimit (m + (oCopyLimit - op)) (cpy - oCopyLimit)
        some (.next rest cpy out)
      else do
        let out ← copyBytes out op m (cpy - op)
        some (.next rest cpy out)
    else do
      let out ← out.memcpy op m 8
      if 16 < length then do
        let out ← wildCopy8 Output.memcpy out (op + 8) (m + 8) cpy
        some (.next rest cpy out)
      else some (.next rest cpy out)

/-- `_copy_match:` (`lz4_all.c:2075-2083`). -/
def copyMatch (out : Output) (rest : List UInt8) (op offset : Nat) (token : UInt8) : Option Step :=
  if token.toNat % 16 = 15 then do
    let (more, rest, error) ← readVariableLength rest 4 false
    if error ≠ .ok then some (.error rest out)
    else safeMatchCopy out rest op offset (15 + more.toNat + 4)
  else safeMatchCopy out rest op offset (token.toNat % 16 + 4)

/-- `safe_literal_copy:` (`lz4_all.c:1986-2072`); `length` is the number of literals. -/
def safeLiteralCopy (out : Output) (rest : List UInt8) (op : Nat) (token : UInt8) (length : Nat) :
    Option Step :=
  let cpy := op + length
  if out.size < cpy + 12 ∨ rest.length < length + 8 then
    if rest.length ≠ length ∨ out.size < cpy then some (.error rest out)
    else do
      let out ← out.load rest op 0 length
      some (.done cpy out)
  else do
    let out ← wildCopy8 (fun out => out.load rest) out op 0 cpy
    let (offset, rest) ← readLE16 (rest.drop length)
    copyMatch out rest cpy offset token

/-- The shortcut of the safe loop (`lz4_all.c:1944-1973`). -/
def shortcut (out : Output) (rest : List UInt8) (op : Nat) (token : UInt8) : Option Step := do
  let length := token.toNat / 16
  let out ← out.load rest op 0 16
  let op := op + length
  let (offset, rest) ← readLE16 (rest.drop length)
  if token.toNat % 16 ≠ 15 ∧ 8 ≤ offset ∧ offset ≤ op then do
    let out ← copyShort out op (op - offset)
    some (.next rest (op + token.toNat % 16 + 4) out)
  else copyMatch out rest op offset token

/-- An iteration of the safe loop (`lz4_all.c:1928-2181`). -/
def safeIteration (out : Output) (rest : List UInt8) (op : Nat) : Option Step :=
  match rest with
  | [] => none
  | token :: rest =>
    if token.toNat / 16 ≠ 15 ∧ 16 < rest.length ∧ op + 32 ≤ out.size then
      shortcut out rest op token
    else if token.toNat / 16 = 15 then do
      let (more, rest, error) ← readVariableLength rest 15 true
      if error = .initialError then some (.error rest out)
      else safeLiteralCopy out rest op token (15 + more.toNat)
    else safeLiteralCopy out rest op token (token.toNat / 16)

/-! ## The fast loop -/

/-- `copy match within block` (`lz4_all.c:1911-1918`). -/
def copyWithin (out : Output) (op m cpy offset : Nat) : Option Output :=
  if offset < 16 then memcpyUsingOffset out op m cpy offset
  else wildCopy32 Output.memcpy out op m cpy

/-- The copy at the end of the fast loop (`lz4_all.c:1881-1921`). -/
def fastCopy (out : Output) (rest : List UInt8) (op offset length : Nat) : Option FastStep :=
  if op < offset then some (.leave (.error rest out))
  else do
    let cpy := op + length
    let out ← copyWithin out op (op - offset) cpy offset
    some (.stay rest cpy out)

/-- The match of an iteration of the fast loop (`lz4_all.c:1845-1921`). -/
def fastMatch (out : Output) (rest : List UInt8) (op : Nat) (token : UInt8) :
    Option FastStep := do
  let (offset, rest) ← readLE16 rest
  if token.toNat % 16 = 15 then
    if op < offset then some (.leave (.error rest out))
    else do
      let (more, rest, error) ← readVariableLength rest 4 false
      if error ≠ .ok then some (.leave (.error rest out))
      else
        let length := 15 + more.toNat + 4
        if out.size ≤ op + length + 64 then
          (safeMatchCopy out rest op offset length).map FastStep.leave
        else fastCopy out rest op offset length
  else
    let length := token.toNat % 16 + 4
    if out.size ≤ op + length + 64 then
      (safeMatchCopy out rest op offset length).map FastStep.leave
    else if offset ≤ op ∧ 8 ≤ offset then do
      let out ← copyShort out op (op - offset)
      some (.stay rest (op + length) out)
    else fastCopy out rest op offset length

/-- An iteration of the fast loop (`lz4_all.c:1795-1921`). -/
def fastIteration (out : Output) (rest : List UInt8) (op : Nat) : Option FastStep :=
  match rest with
  | [] => none
  | token :: rest =>
    if token.toNat / 16 = 15 then do
      let (more, rest, error) ← readVariableLength rest 15 true
      if error = .initialError then some (.leave (.error rest out))
      else
        let length := 15 + more.toNat
        if out.size < op + length + 32 ∨ rest.length < length + 32 then
          (safeLiteralCopy out rest op token length).map FastStep.leave
        else do
          let out ← wildCopy32 (fun out => out.load rest) out op 0 (op + length)
          fastMatch out (rest.drop length) (op + length) token
    else if rest.length < 17 then
      (safeLiteralCopy out rest op token (token.toNat / 16)).map FastStep.leave
    else do
      let out ← out.load rest op 0 16
      fastMatch out (rest.drop (token.toNat / 16)) (op + token.toNat / 16) token

/-! ## The whole -/

/-- What `LZ4_decompress_generic` returns and the output it leaves. The size of the result or,
    at `_output_error`, `-(ip - src) - 1`. -/
def finish (srcSize : Nat) : Step → Option (Int × Output)
  | .next _ _ _ => none
  | .done op out => some (op, out)
  | .error rest out => some (-((srcSize : Int) - rest.length) - 1, out)

/-- The safe loop, with fuel. -/
def safeLoop (srcSize : Nat) : Nat → Step → Option (Int × Output)
  | 0, step => finish srcSize step
  | fuel + 1, .next rest op out => do
    let step ← safeIteration out rest op
    safeLoop srcSize fuel step
  | _ + 1, step => finish srcSize step

/-- The fast loop and what follows it, with fuel. -/
def fastLoop (srcSize : Nat) : Nat → List UInt8 → Nat → Output → Option (Int × Output)
  | 0, _, _, _ => none
  | fuel + 1, rest, op, out => do
    match ← fastIteration out rest op with
    | .stay rest op out => fastLoop srcSize fuel rest op out
    | .leave step => safeLoop srcSize fuel step

/-- `LZ4_decompress_generic` (`lz4_all.c:1739-2198`); `fastDecLoop` is `LZ4_FAST_DEC_LOOP`. -/
def decompressGeneric (fastDecLoop : Bool) (src : List UInt8) (dst : Output) :
    Option (Int × Output) :=
  if dst.size = 0 then some (if src = [0] then 0 else -1, dst)
  else if src.length = 0 then some (-1, dst)
  else if fastDecLoop ∧ 64 ≤ dst.size then fastLoop src.length src.length src 0 dst
  else safeLoop src.length src.length (.next src 0 dst)

/-- `LZ4_decompress_safe` (`lz4_all.c:2204-2209`). -/
def decompressSafe (fastDecLoop : Bool) (src : List UInt8) (dst : Output) : Option (Int × Output) :=
  decompressGeneric fastDecLoop src dst

end CviRuntime.Lz4Block
