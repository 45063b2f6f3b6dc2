import CviRuntime.Vlc.Codec

/-!
# The int8 codec (`bm_vlc_enc_int8`, `bm_vlc_dec_int8`)

Bytes are remapped and coded; the decoder returns them.
-/

namespace CviRuntime.Vlc

open CviRuntime.BitStream

/-- The body of the loop of `bm_vlc_enc_int8`. -/
def encBlockInt8 (ibuf : List UInt8) (cmd : CommandInfo) (bs : Streams) (blkIdx : Nat) :
    Option Streams := do
  let blkSrData := symbolRemapping (blkData ibuf blkIdx) cmd.bias0 cmd.bias1 cmd.signedness false
    false
  let k := vlcEstimateBlockOrder blkSrData false
  let (data, ulen) ← vlcGrEncBlockData blkSrData bs.data k false
  let kmap ← writeStream bs.kmap [kInfo k ulen] 8
  return ⟨kmap, data⟩

/-- `bm_vlc_enc_int8`: the bytes of `obuf`. -/
def encInt8 (ceilingFunc : Nat → Nat → Nat) (ibuf : List UInt8) (cmd : CommandInfo) :
    Option (List UInt8) := do
  let blkNum := blkNum ibuf.length
  let kmapSize := ceilingFunc blkNum 16 <<< 4
  let bs ← initStreams kmapSize (blkNum <<< 4)
  let bs ← (List.range blkNum).foldlM (encBlockInt8 ibuf cmd) bs
  finishEnc ceilingFunc cmd kmapSize bs

/-- The body of the loop of `bm_vlc_dec_int8`. -/
def decBlockInt8 (isz : Nat) (cmd : CommandInfo) (d : Decoding UInt8) (blkIdx : Nat) :
    Option (Decoding UInt8) := do
  let (kmap, info) ← parseStream d.kmap 1 8
  let info := info.getD 0 0
  let (data, blkData) ← vlcGrDecBlockData d.data (blkBsSizeOf info false) (orderOf info) false
  let blkSrData := invSymbolRemapping blkData cmd.bias0 cmd.bias1 cmd.signedness false false
  return ⟨kmap, data, d.obuf ++ blkSrData.take (blkLen isz (blkNum isz) blkIdx)⟩

/-- `bm_vlc_dec_int8`: the bytes of `obuf`. -/
def decInt8 (ceilingFunc : Nat → Nat → Nat) (ibuf : List UInt8) (isz : Nat) :
    Option (List UInt8) := do
  let kmapSize := ceilingFunc (blkNum isz) 16 <<< 4
  let cmd ← vlcDecHeader (openStream ibuf)
  let d ← (List.range (blkNum isz)).foldlM (decBlockInt8 isz cmd)
    ⟨openStream (ibuf.drop 16), openStream (ibuf.drop (16 + kmapSize)), []⟩
  return d.obuf

/-! ## The round trip -/

section RoundTrip

variable (ibuf : List UInt8) (cmd : CommandInfo)

/-- The symbols of a block. -/
def srData (i : Nat) : List UInt8 :=
  symbolRemapping (blkData ibuf i) cmd.bias0 cmd.bias1 cmd.signedness false false

/-- The order of a block. -/
def srOrder (i : Nat) : Option Nat := vlcEstimateBlockOrder (srData ibuf cmd i) false

/-- What the codec makes of the blocks. -/
def int8Codes : BlockCodes UInt8 where
  info i := kInfo (srOrder ibuf cmd i) (blockUlen (srData ibuf cmd i) (srOrder ibuf cmd i))
  payload i := blockBits (srData ibuf cmd i) (srOrder ibuf cmd i) false
  out i := (ibuf.drop (16 * i)).take 16

variable {ibuf cmd}

theorem int8Codes_info (i : Nat) : (int8Codes ibuf cmd).info i =
    kInfo (srOrder ibuf cmd i) (blockUlen (srData ibuf cmd i) (srOrder ibuf cmd i)) := by
  simp only [int8Codes]

theorem int8Codes_payload (i : Nat) : (int8Codes ibuf cmd).payload i =
    blockBits (srData ibuf cmd i) (srOrder ibuf cmd i) false := by
  simp only [int8Codes]

theorem srData_codable {i : Nat} (lt : i < blkNum ibuf.length) :
    Codable (srData ibuf cmd i) false (srOrder ibuf cmd i) :=
  vlcEstimateBlockOrder_codable false (by rw [srData, length_symbolRemapping, length_blkData lt])

theorem encBlockInt8_encodes {i : Nat} (lt : i < blkNum ibuf.length) :
    (int8Codes ibuf cmd).Encodes (16 * 1) (encBlockInt8 ibuf cmd) i := by
  have codable : Codable (srData ibuf cmd i) false (srOrder ibuf cmd i) := srData_codable lt
  refine ⟨by rw [int8Codes_payload]; exact codable.length_le, ?_⟩
  intro bs kbits dbits wroteK wroteD fitsK rangeK fitsD rangeD
  rw [int8Codes_payload] at fitsD rangeD ⊢
  obtain ⟨data, coded, wroteD', lengthD⟩ := vlcGrEncBlockData_wrote codable wroteD fitsD rangeD
  obtain ⟨kmap, noted, wroteK', lengthK⟩ := wroteK.writeStream
    [(int8Codes ibuf cmd).info i] 8 (by simp) fitsK rangeK
  refine ⟨⟨kmap, data⟩, ?_, wroteK', wroteD', lengthK, lengthD⟩
  unfold encBlockInt8
  dsimp only
  rw [← srData, ← srOrder, coded]
  rw [int8Codes_info] at noted
  simp only [noted, Option.bind_eq_bind, Option.bind_some, Option.pure_def]

theorem decBlockInt8_decodes (h₀ : cmd.bias0.toNat ≤ 127) (h₁ : cmd.bias1.toNat ≤ 127) {i : Nat}
    (lt : i < blkNum ibuf.length) :
    (int8Codes ibuf cmd).Decodes (blkNum ibuf.length) (decBlockInt8 ibuf.length cmd) i := by
  have codable : Codable (srData ibuf cmd i) false (srOrder ibuf cmd i) := srData_codable lt
  intro d kRest dRest givesK givesD
  rw [int8Codes_info] at givesK
  rw [int8Codes_payload] at givesD
  obtain ⟨kmap, read, laterK⟩ := givesK.parseInfo
  obtain ⟨data, decoded, -, laterD⟩ := vlcGrDecBlockData_eq codable givesD
  refine ⟨⟨kmap, data, d.obuf ++ (ibuf.drop (16 * i)).take 16⟩, ?_, rfl,
    fun _ => ⟨laterK, laterD⟩⟩
  have order := codable.orderOf_kInfo
  have size := codable.blkBsSizeOf_kInfo
  have undone := invSymbolRemapping_bytes (blkData ibuf i) cmd.signedness h₀ h₁
  simp only [decBlockInt8, read, List.getD_cons_zero, order, size, decoded,
    Option.bind_eq_bind, Option.bind_some, Option.pure_def]
  rw [srData, undone, take_blkData lt]

/-- Every block takes between 16 and 128 bits. -/
theorem int8Codes_codeBits (ibuf : List UInt8) (cmd : CommandInfo) : 16 * blkNum ibuf.length ≤
      (int8Codes ibuf cmd).codeBits (blkNum ibuf.length) ∧
    (int8Codes ibuf cmd).codeBits (blkNum ibuf.length) ≤ 128 * blkNum ibuf.length := by
  refine (int8Codes ibuf cmd).codeBits_bounds fun i lt => ?_
  rw [int8Codes_payload]
  exact ⟨(srData_codable lt).le_length, (srData_codable lt).length_le⟩

/-- The blocks make up the buffer. -/
theorem int8Codes_outs (ibuf : List UInt8) (cmd : CommandInfo) :
    (int8Codes ibuf cmd).outs 0 (blkNum ibuf.length) = ibuf :=
  flatMap_blkNum ibuf

end RoundTrip

/-- int8 compression is lossless, and no assertion fails, when the position in the data stream,
    rounded up to bytes, is an `int`. -/
theorem decInt8_encInt8 (ceilingFunc : Nat → Nat → Nat) (ceiling : ExactCeiling ceilingFunc)
    (ibuf : List UInt8) (cmd : CommandInfo) (h₀ : cmd.bias0.toNat ≤ 127)
    (h₁ : cmd.bias1.toNat ≤ 127)
    (range : (int8Codes ibuf cmd).codeBits (blkNum ibuf.length) + 7 < 2 ^ 31) :
    ∃ obuf, encInt8 ceilingFunc ibuf cmd = some obuf ∧
      decInt8 ceilingFunc obuf ibuf.length = some ibuf := by
  have bounds := int8Codes_codeBits ibuf cmd
  obtain ⟨start, bs, obuf, d, init, looped, finished, header, done, out⟩ :=
    (int8Codes ibuf cmd).roundTrip ceiling cmd (by omega : 1 ≤ 1)
      (fun i lt => encBlockInt8_encodes lt) (fun i lt => decBlockInt8_decodes h₀ h₁ lt) (by omega)
      range
  have capacity : 16 * (1 * blkNum ibuf.length) = blkNum ibuf.length <<< 4 := by
    rw [Nat.shiftLeft_eq]
    omega
  rw [capacity] at init
  rw [int8Codes_outs] at out
  refine ⟨obuf, ?_, ?_⟩
  · simp only [encInt8, init, looped, Option.bind_eq_bind, Option.bind_some, finished]
  · simp only [decInt8, header, CommandInfo.sevenBits_eq h₁, done, out, Option.bind_eq_bind,
      Option.bind_some, Option.pure_def]

/-- A full block of sixteen bytes and four more. -/
def twentyBytes : List UInt8 :=
  [0x80, 1, 0xFF, 0, 0, 0, 2, 0xFE, 17, 0, 0, 0x7F, 3, 3, 3, 0, 0x81, 0, 5, 0xFB]

theorem decInt8_encInt8_two_blocks :
    ∃ obuf, encInt8 (fun a b => (a + b - 1) / b) twentyBytes ⟨true, false, 3, 127, false⟩ =
        some obuf ∧
      decInt8 (fun a b => (a + b - 1) / b) obuf 20 = some twentyBytes := by
  refine decInt8_encInt8 _ (fun _ _ _ => rfl) twentyBytes ⟨true, false, 3, 127, false⟩
    (by decide) (by decide) ?_
  exact Nat.lt_of_le_of_lt (Nat.add_le_add_right (int8Codes_codeBits _ _).2 7) (by decide)

end CviRuntime.Vlc
