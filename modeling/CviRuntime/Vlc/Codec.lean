import CviRuntime.Vlc.BlockCode

/-!
# Compressed buffers (`test/1822/bm_vlc_compress.h:423-592`)

A compressed buffer is a header, the map of the blocks (a byte each) and their codes. Encoder and
decoder go through the blocks with two streams. What the streams hold after any number of blocks,
and that a decoder finds it again, is the same for bytes and for bfloat16 values.
-/

namespace CviRuntime.Vlc

open CviRuntime.BitStream

/-- `ceiling_func` is exact. -/
def ExactCeiling (ceilingFunc : Nat → Nat → Nat) : Prop :=
  ∀ numerator denominator, 0 < denominator →
    ceilingFunc numerator denominator = (numerator + denominator - 1) / denominator

/-- `bs_kmap` and `bs_data`. -/
structure Streams where
  kmap : StreamBuffer
  data : StreamBuffer
  deriving DecidableEq, Repr

/-- `k_info` of a block. -/
def kInfo (orderK : Option Nat) (ulen : Nat) : UInt8 :=
  match orderK with
  | none => 0xE0
  | some k => UInt8.ofNat (k <<< 5 + ulen)

/-- The order in `k_info`. -/
def orderOf (info : UInt8) : Option Nat :=
  if info.toNat >>> 5 = 7 then none else some (info.toNat >>> 5)

/-- `blk_bs_size` of a block. -/
def blkBsSizeOf (info : UInt8) (bf16ZvcEn : Bool) : Nat :=
  match orderOf info with
  | none => 128
  | some k => k <<< 4 + info.toNat % 32 + 16 + znumBit bf16ZvcEn k

/-! ## The end of an encoder -/

/-- The header is written and header, map and codes are copied out: `osz` bytes. -/
def finishEnc (ceilingFunc : Nat → Nat → Nat) (cmd : CommandInfo) (kmapSize : Nat) (bs : Streams) :
    Option (List UInt8) :=
  if 2 ^ 31 ≤ bs.data.bitPos + 7 then none
  else do
    let blkBsSize := ceilingFunc ((bs.data.bitPos + 7) >>> 3) 16 <<< 4
    let osz := 16 + kmapSize + blkBsSize
    let header ← initStream 16
    let header ← vlcEncHeader header cmd blkBsSize
    let bsbuf := header.stream ++ bs.kmap.stream ++ bs.data.stream
    if osz ≤ bsbuf.length then some (bsbuf.take osz) else none

/-- The streams of a decoder and what it has put in `obuf`. -/
structure Decoding (α : Type) where
  kmap : StreamBuffer
  data : StreamBuffer
  obuf : List α

/-! ## Blocks of a buffer -/

/-- The number of blocks of 16 elements. -/
def blkNum (len : Nat) : Nat := (len + 15) >>> 4

/-- The length of a block: the last one may be shorter. -/
def blkLen (len blkNum blkIdx : Nat) : Nat := if blkIdx = blkNum - 1 then len - blkIdx <<< 4 else 16

/-- The elements of a block in an array of 16 zeros. -/
def blkData {α : Type} [OfNat α 0] (ibuf : List α) (blkIdx : Nat) : List α :=
  let inSize := blkLen ibuf.length (blkNum ibuf.length) blkIdx
  (ibuf.drop (blkIdx <<< 4)).take inSize ++ List.replicate (16 - inSize) 0

theorem blkLen_eq {len i : Nat} (lt : i < blkNum len) :
    blkLen len (blkNum len) i = min 16 (len - 16 * i) := by
  unfold blkNum at lt ⊢
  rw [Nat.shiftRight_eq_div_pow] at lt ⊢
  unfold blkLen
  rw [Nat.shiftLeft_eq]
  split <;> omega

section Blocks

variable {α : Type} [OfNat α 0] {ibuf : List α} {i : Nat}

/-- A block begins with elements of the buffer. -/
theorem blkData_eq (lt : i < blkNum ibuf.length) :
    blkData ibuf i = (ibuf.drop (16 * i)).take 16 ++
      List.replicate (16 - min 16 (ibuf.length - 16 * i)) 0 := by
  unfold blkData
  dsimp only
  rw [blkLen_eq lt, Nat.shiftLeft_eq, Nat.mul_comm i, ← List.length_drop]
  congr 1
  rw [List.take_eq_take_iff]
  simp

theorem length_blkData (lt : i < blkNum ibuf.length) : (blkData ibuf i).length = 16 := by
  rw [blkData_eq lt, List.length_append, List.length_take, List.length_drop,
    List.length_replicate]
  omega

theorem take_blkData (lt : i < blkNum ibuf.length) :
    (blkData ibuf i).take (blkLen ibuf.length (blkNum ibuf.length) i) =
      (ibuf.drop (16 * i)).take 16 := by
  rw [blkData_eq lt, blkLen_eq lt, List.take_append_of_le_length]
  · rw [List.take_take, ← List.length_drop, List.take_eq_take_iff]
    simp
  · rw [List.length_take, List.length_drop]

omit [OfNat α 0] in
/-- The blocks make up the buffer. -/
theorem flatMap_blocks (ibuf : List α) : ∀ (n start : Nat), ibuf.length ≤ 16 * (start + n) →
    ((List.range' start n).flatMap fun i => (ibuf.drop (16 * i)).take 16) =
      ibuf.drop (16 * start) := by
  intro n
  induction n with
  | zero =>
    intro start short
    rw [List.drop_eq_nil_of_le (by simpa using short)]
    rfl
  | succ n ih =>
    intro start short
    rw [List.range'_succ, List.flatMap_cons, ih (start + 1) (by omega),
      show 16 * (start + 1) = 16 * start + 16 by omega, ← List.drop_drop, List.take_append_drop]

omit [OfNat α 0] in
theorem flatMap_blkNum (ibuf : List α) :
    ((List.range' 0 (blkNum ibuf.length)).flatMap fun i => (ibuf.drop (16 * i)).take 16) =
      ibuf := by
  have blocks := flatMap_blocks ibuf (blkNum ibuf.length) 0 (by
    unfold blkNum
    rw [Nat.shiftRight_eq_div_pow]
    omega)
  rwa [Nat.mul_zero, List.drop_zero] at blocks

end Blocks

/-! ## The loops -/

/-- What a codec makes of its blocks: a byte of the map, the code and what is decoded. -/
structure BlockCodes (α : Type) where
  info : Nat → UInt8
  payload : Nat → List Bool
  out : Nat → List α

namespace BlockCodes

variable {α : Type} (c : BlockCodes α)

/-- The bits of the map for the blocks from `start` on. -/
def infos (start n : Nat) : List Bool := (List.range' start n).flatMap fun i => bitsOf [c.info i] 8

def payloads (start n : Nat) : List Bool := (List.range' start n).flatMap c.payload

def outs (start n : Nat) : List α := (List.range' start n).flatMap c.out

theorem infos_succ (start n : Nat) :
    c.infos start (n + 1) = bitsOf [c.info start] 8 ++ c.infos (start + 1) n := by
  rw [infos, List.range'_succ, List.flatMap_cons]
  rfl

theorem payloads_succ (start n : Nat) :
    c.payloads start (n + 1) = c.payload start ++ c.payloads (start + 1) n := by
  rw [payloads, List.range'_succ, List.flatMap_cons]
  rfl

theorem outs_succ (start n : Nat) : c.outs start (n + 1) = c.out start ++ c.outs (start + 1) n := by
  rw [outs, List.range'_succ, List.flatMap_cons]
  rfl

/-- The bits of the codes of so many blocks. -/
def codeBits (blocks : Nat) : Nat := (c.payloads 0 blocks).length

theorem length_infos (start n : Nat) : (c.infos start n).length = 8 * n := by
  unfold infos
  rw [List.length_flatMap]
  simp [Nat.mul_comm]

/-- A step of an encoder: it appends the byte of the block to the map and its code, which takes
    `room` bytes at most, to the data. -/
def Encodes (room : Nat) (step : Streams → Nat → Option Streams) (i : Nat) : Prop :=
  (c.payload i).length ≤ 8 * room ∧
    ∀ (bs : Streams) (kbits dbits : List Bool), Wrote bs.kmap kbits → Wrote bs.data dbits →
      kbits.length + 8 ≤ 8 * bs.kmap.stream.length → kbits.length + 8 < 2 ^ 31 →
      dbits.length + (c.payload i).length ≤ 8 * bs.data.stream.length →
      dbits.length + (c.payload i).length < 2 ^ 31 →
      ∃ bs', step bs i = some bs' ∧ Wrote bs'.kmap (kbits ++ bitsOf [c.info i] 8) ∧
        Wrote bs'.data (dbits ++ c.payload i) ∧
        bs'.kmap.stream.length = bs.kmap.stream.length ∧
        bs'.data.stream.length = bs.data.stream.length

/-- A step of a decoder. Behind the last block the streams do not matter. -/
def Decodes (blkNum : Nat) (step : Decoding α → Nat → Option (Decoding α)) (i : Nat) : Prop :=
  ∀ (d : Decoding α) (kRest dRest : List Bool),
    Gives d.kmap (bitsOf [c.info i] 8 ++ kRest) → Gives d.data (c.payload i ++ dRest) →
    ∃ d', step d i = some d' ∧ d'.obuf = d.obuf ++ c.out i ∧
      (i + 1 < blkNum → Gives d'.kmap kRest ∧ Gives d'.data dRest)

/-- The encoder's loop. -/
theorem foldlM_encodes {room : Nat} {step : Streams → Nat → Option Streams} :
    ∀ (n start : Nat) (bs : Streams) (kbits dbits : List Bool),
      (∀ i, start ≤ i → i < start + n → c.Encodes room step i) →
      Wrote bs.kmap kbits → Wrote bs.data dbits →
      kbits.length + 8 * n ≤ 8 * bs.kmap.stream.length → kbits.length + 8 * n < 2 ^ 31 →
      dbits.length + 8 * room * n ≤ 8 * bs.data.stream.length →
      dbits.length + (c.payloads start n).length < 2 ^ 31 →
      ∃ bs', (List.range' start n).foldlM step bs = some bs' ∧
        Wrote bs'.kmap (kbits ++ c.infos start n) ∧ Wrote bs'.data (dbits ++ c.payloads start n) ∧
        bs'.kmap.stream.length = bs.kmap.stream.length ∧
        bs'.data.stream.length = bs.data.stream.length := by
  intro n
  induction n with
  | zero =>
    intro start bs kbits dbits _ wroteK wroteD _ _ _ _
    exact ⟨bs, rfl, by simpa [infos] using wroteK, by simpa [payloads] using wroteD, rfl, rfl⟩
  | succ n ih =>
    intro start bs kbits dbits each wroteK wroteD fitsK rangeK fitsD rangeD
    rw [Nat.mul_succ] at fitsD
    rw [payloads_succ, List.length_append] at rangeD
    obtain ⟨small, step₁⟩ := each start (by omega) (by omega)
    obtain ⟨bs₁, done₁, wroteK₁, wroteD₁, lengthK₁, lengthD₁⟩ := step₁ bs kbits dbits wroteK wroteD
      (by omega) (by omega) (by omega) (by omega)
    obtain ⟨bs₂, done₂, wroteK₂, wroteD₂, lengthK₂, lengthD₂⟩ := ih (start + 1) bs₁ _ _
      (fun i ge lt => each i (by omega) (by omega)) wroteK₁ wroteD₁
      (by rw [List.length_append, length_bitsOf]; omega)
      (by rw [List.length_append, length_bitsOf]; omega)
      (by rw [List.length_append]; omega) (by rw [List.length_append]; omega)
    refine ⟨bs₂, ?_, ?_, ?_, by rw [lengthK₂, lengthK₁], by rw [lengthD₂, lengthD₁]⟩
    · rw [List.range'_succ, List.foldlM_cons, done₁]
      exact done₂
    · rw [infos_succ, ← List.append_assoc]
      exact wroteK₂
    · rw [payloads_succ, ← List.append_assoc]
      exact wroteD₂

/-- The decoder's loop. -/
theorem foldlM_decodes {blkNum : Nat} {step : Decoding α → Nat → Option (Decoding α)} :
    ∀ (n start : Nat) (d : Decoding α), start + n = blkNum →
      (∀ i, i < blkNum → c.Decodes blkNum step i) →
      (0 < n → Gives d.kmap (c.infos start n) ∧ Gives d.data (c.payloads start n)) →
      ∃ d', (List.range' start n).foldlM step d = some d' ∧
        d'.obuf = d.obuf ++ c.outs start n := by
  intro n
  induction n with
  | zero =>
    intro start d _ _ _
    exact ⟨d, rfl, by simp [outs]⟩
  | succ n ih =>
    intro start d total each gives
    obtain ⟨givesK, givesD⟩ := gives (by omega)
    rw [infos_succ] at givesK
    rw [payloads_succ] at givesD
    obtain ⟨d₁, done₁, out₁, later⟩ := each start (by omega) d _ _ givesK givesD
    obtain ⟨d₂, done₂, out₂⟩ := ih (start + 1) d₁ (by omega) each fun some => later (by omega)
    refine ⟨d₂, ?_, ?_⟩
    · rw [List.range'_succ, List.foldlM_cons, done₁]
      exact done₂
    · rw [out₂, out₁, outs_succ, List.append_assoc]

end BlockCodes

/-! ## One block -/

section Block

variable {blk : List UInt8} {orderK : Option Nat} {bf16ZvcEn : Bool}

theorem Codable.toNat_kInfo {k : Nat} (codable : Codable blk bf16ZvcEn (some k)) :
    (kInfo (some k) (blockUlen blk (some k))).toNat = 32 * k + (unaryLen blk k - 16) := by
  obtain ⟨small, short, -⟩ := codable.order k rfl
  unfold maxOrderK at small
  unfold maxUnaryFieldSize at short
  simp only [kInfo, blockUlen, UInt8.toNat_ofNat', Nat.shiftLeft_eq]
  omega

/-- The byte of the map has the order. -/
theorem Codable.orderOf_kInfo (codable : Codable blk bf16ZvcEn orderK) :
    orderOf (kInfo orderK (blockUlen blk orderK)) = orderK := by
  cases orderK with
  | none => simp [kInfo, orderOf]
  | some k =>
    obtain ⟨small, short, -⟩ := codable.order k rfl
    unfold maxOrderK at small
    unfold maxUnaryFieldSize at short
    unfold orderOf
    rw [codable.toNat_kInfo, Nat.shiftRight_eq_div_pow,
      show (32 * k + (unaryLen blk k - 16)) / 2 ^ 5 = k by omega, if_neg (by omega)]

/-- The byte of the map has the length of the code. -/
theorem Codable.blkBsSizeOf_kInfo (codable : Codable blk bf16ZvcEn orderK) :
    blkBsSizeOf (kInfo orderK (blockUlen blk orderK)) bf16ZvcEn =
      (blockBits blk orderK bf16ZvcEn).length := by
  unfold blkBsSizeOf
  rw [codable.orderOf_kInfo]
  cases orderK with
  | none => rw [length_blockBits_none]
  | some k =>
    have many := codable.le_unaryLen k
    have short := (codable.order k rfl).2.1
    unfold maxUnaryFieldSize at short
    rw [length_blockBits_some]
    dsimp only
    rw [codable.toNat_kInfo]
    omega

/-- A decoder reads the byte of the map. -/
theorem Gives.parseInfo {bs : StreamBuffer} {info : UInt8} {rest : List Bool}
    (gives : Gives bs (bitsOf [info] 8 ++ rest)) :
    ∃ bs', Vlc.parseStream bs 1 8 = some (bs', [info]) ∧ Gives bs' rest := by
  obtain ⟨bs', read, -, later⟩ := gives.parseStream_bitsOf (by simp)
    fun j ge => bitAt_outside (by simpa using ge)
  exact ⟨bs', read, later⟩

end Block

/-! ## The whole buffer -/

/-- A compressed buffer from which a decoder can read its three streams. -/
structure Compressed (obuf : List UInt8) (cmd : CommandInfo) (kmapSize : Nat)
    (kbits dbits : List Bool) : Prop where
  header : ∃ blkBsSize, Gives (openStream obuf) (headerBits cmd blkBsSize)
  kmap : Gives (openStream (obuf.drop 16)) kbits
  data : Gives (openStream (obuf.drop (16 + kmapSize))) dbits

/-- The encoder's end copies all that was written. -/
theorem finishEnc_compressed {ceilingFunc : Nat → Nat → Nat} (ceiling : ExactCeiling ceilingFunc)
    (cmd : CommandInfo) {bs : Streams} {kbits dbits : List Bool} {blocks : Nat}
    (wroteK : Wrote bs.kmap kbits) (wroteD : Wrote bs.data dbits)
    (dataLen : bs.data.stream.length = 16 * blocks) (rangeK : kbits.length < 2 ^ 31)
    (rangeD : dbits.length + 7 < 2 ^ 31) :
    ∃ obuf, finishEnc ceilingFunc cmd bs.kmap.stream.length bs = some obuf ∧
      Compressed obuf cmd bs.kmap.stream.length kbits dbits := by
  have fits := wroteD.holds.fits
  rw [dataLen] at fits
  have bytes : ceilingFunc ((bs.data.bitPos + 7) >>> 3) 16 <<< 4 =
      ((dbits.length + 7) / 8 + 15) / 16 * 16 := by
    rw [ceiling _ 16 (by omega), wroteD.pos, Nat.shiftLeft_eq, Nat.shiftRight_eq_div_pow]
    omega
  generalize size : ceilingFunc ((bs.data.bitPos + 7) >>> 3) 16 <<< 4 = blkBsSize at bytes
  obtain ⟨start, header, init, wrote, wroteH, headerLen⟩ := vlcEncHeader_wrote cmd blkBsSize
  have copied : (header.stream ++ bs.kmap.stream ++ bs.data.stream).take
      (16 + bs.kmap.stream.length + blkBsSize) =
      header.stream ++ (bs.kmap.stream ++ bs.data.stream.take blkBsSize) := by
    rw [← headerLen, ← List.length_append, List.take_length_add_append, List.append_assoc]
  have inside : 16 + bs.kmap.stream.length + blkBsSize ≤
      (header.stream ++ bs.kmap.stream ++ bs.data.stream).length := by
    rw [List.length_append, List.length_append, headerLen, bytes, dataLen]
    omega
  have done : finishEnc ceilingFunc cmd bs.kmap.stream.length bs =
      some (header.stream ++ (bs.kmap.stream ++ bs.data.stream.take blkBsSize)) := by
    unfold finishEnc
    rw [if_neg (by rw [wroteD.pos]; omega)]
    dsimp only
    rw [size, init, Option.bind_eq_bind, Option.bind_some, wrote, Option.bind_some,
      if_pos inside, copied]
  have headerRange : (headerBits cmd blkBsSize).length < 2 ^ 31 := by
    have headerFits := wroteH.holds.fits
    omega
  refine ⟨_, done, ⟨blkBsSize, ?_⟩, ?_, ?_⟩
  · exact ⟨wroteH.holds.ahead.append _, by simpa [openStream] using headerRange⟩
  · rw [← headerLen, List.drop_left]
    exact ⟨wroteK.holds.ahead.append _, by simpa [openStream] using rangeK⟩
  · rw [← headerLen, ← List.drop_drop, List.drop_left, List.drop_left]
    refine ⟨wroteD.holds.ahead.take ?_, by simp only [openStream]; omega⟩
    rw [List.length_take, bytes, dataLen]
    omega

/-- The streams of an encoder at first. -/
def initStreams (kmapSize dataSize : Nat) : Option Streams := do
  let kmap ← initStream kmapSize
  let data ← initStream dataSize
  return ⟨kmap, data⟩

/-- An encoder that codes every block writes a compressed buffer. -/
theorem BlockCodes.encode {α : Type} (c : BlockCodes α) {ceilingFunc : Nat → Nat → Nat}
    (ceiling : ExactCeiling ceilingFunc) (cmd : CommandInfo) {blocks r : Nat}
    {step : Streams → Nat → Option Streams} (positive : 1 ≤ r)
    (each : ∀ i, i < blocks → c.Encodes (16 * r) step i) (size : 16 * (r * blocks) < 2 ^ 31)
    (range : c.codeBits blocks + 7 < 2 ^ 31) :
    ∃ start bs obuf, initStreams (ceilingFunc blocks 16 <<< 4) (16 * (r * blocks)) = some start ∧
      (List.range blocks).foldlM step start = some bs ∧
      finishEnc ceilingFunc cmd (ceilingFunc blocks 16 <<< 4) bs = some obuf ∧
      Compressed obuf cmd (ceilingFunc blocks 16 <<< 4) (c.infos 0 blocks)
        (c.payloads 0 blocks) := by
  have fewer : blocks ≤ r * blocks := Nat.le_mul_of_pos_left blocks positive
  have kmapSize : ceilingFunc blocks 16 <<< 4 = (blocks + 15) / 16 * 16 := by
    rw [ceiling _ 16 (by omega), Nat.shiftLeft_eq]
    omega
  have room : 8 * (16 * r) * blocks = 128 * (r * blocks) := by
    rw [← Nat.mul_assoc 8, Nat.mul_assoc (8 * 16)]
  obtain ⟨kmap, initK, startK, lengthK₀⟩ := initStream_wrote
    (by omega : ceilingFunc blocks 16 <<< 4 < 2 ^ 31)
  obtain ⟨data, initD, startD, lengthD₀⟩ := initStream_wrote size
  obtain ⟨bs, done, wroteK, wroteD, lengthK, lengthD⟩ := c.foldlM_encodes blocks 0
    ⟨kmap, data⟩ [] [] (fun i _ lt => each i (by omega)) startK startD
    (by simp only [List.length_nil, lengthK₀]; omega) (by simp only [List.length_nil]; omega)
    (by simp only [List.length_nil, lengthD₀, room]; omega)
    (by unfold codeBits at range; simp only [List.length_nil]; omega)
  rw [lengthK₀] at lengthK
  rw [lengthD₀] at lengthD
  rw [List.nil_append] at wroteK wroteD
  obtain ⟨obuf, finished, compressed⟩ := finishEnc_compressed ceiling cmd wroteK wroteD lengthD
    (by rw [c.length_infos]; omega) range
  rw [lengthK] at finished compressed
  refine ⟨_, bs, obuf, ?_, by rw [List.range_eq_range']; exact done, finished, compressed⟩
  simp only [initStreams, initK, initD, Option.bind_eq_bind, Option.bind_some, Option.pure_def]

/-- The decoder's loop, on what the encoder's wrote, puts out all blocks. -/
theorem BlockCodes.roundTrip {α : Type} (c : BlockCodes α) {ceilingFunc : Nat → Nat → Nat}
    (ceiling : ExactCeiling ceilingFunc) (cmd : CommandInfo) {blocks r : Nat}
    {encStep : Streams → Nat → Option Streams} {decStep : Decoding α → Nat → Option (Decoding α)}
    (positive : 1 ≤ r) (encodes : ∀ i, i < blocks → c.Encodes (16 * r) encStep i)
    (decodes : ∀ i, i < blocks → c.Decodes blocks decStep i) (size : 16 * (r * blocks) < 2 ^ 31)
    (range : c.codeBits blocks + 7 < 2 ^ 31) :
    ∃ start bs obuf d, initStreams (ceilingFunc blocks 16 <<< 4) (16 * (r * blocks)) = some start ∧
      (List.range blocks).foldlM encStep start = some bs ∧
      finishEnc ceilingFunc cmd (ceilingFunc blocks 16 <<< 4) bs = some obuf ∧
      vlcDecHeader (openStream obuf) = some cmd.sevenBits ∧
      (List.range blocks).foldlM decStep ⟨openStream (obuf.drop 16),
        openStream (obuf.drop (16 + ceilingFunc blocks 16 <<< 4)), []⟩ = some d ∧
      d.obuf = c.outs 0 blocks := by
  obtain ⟨start, bs, obuf, init, looped, finished, compressed⟩ :=
    c.encode ceiling cmd positive encodes size range
  obtain ⟨blkBsSize, header⟩ := compressed.header
  obtain ⟨d, done, out⟩ := c.foldlM_decodes blocks 0 ⟨openStream (obuf.drop 16),
    openStream (obuf.drop (16 + ceilingFunc blocks 16 <<< 4)), []⟩ (by omega) decodes
    fun _ => ⟨compressed.kmap, compressed.data⟩
  rw [← List.range_eq_range'] at done
  exact ⟨start, bs, obuf, d, init, looped, finished, vlcDecHeader_eq header, done, out⟩

/-- Bounds on the code of a block bound all codes. -/
theorem BlockCodes.codeBits_bounds {α : Type} (c : BlockCodes α) {least most blocks : Nat}
    (each : ∀ i, i < blocks → least ≤ (c.payload i).length ∧ (c.payload i).length ≤ most) :
    least * blocks ≤ c.codeBits blocks ∧ c.codeBits blocks ≤ most * blocks := by
  have sum : ∀ n start, start + n = blocks →
      least * n ≤ (c.payloads start n).length ∧ (c.payloads start n).length ≤ most * n := by
    intro n
    induction n with
    | zero =>
      intro start _
      simp [payloads]
    | succ n ih =>
      intro start total
      have first := each start (by omega)
      have later := ih (start + 1) (by omega)
      rw [c.payloads_succ, List.length_append, Nat.mul_succ, Nat.mul_succ]
      omega
  exact sum blocks 0 (by omega)

end CviRuntime.Vlc
