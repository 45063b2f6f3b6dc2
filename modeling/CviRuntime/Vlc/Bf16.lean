import CviRuntime.Vlc.Codec

/-!
# The bfloat16 codec (`bm_vlc_enc_bf16`, `bm_vlc_dec_bf16`)

The exponents of a block are remapped and coded; sign and fraction, a byte for each value, follow
in the same stream. With the zero guard a value whose exponent is zero has no such byte and is
decoded as zero.
-/

namespace CviRuntime.Vlc

open CviRuntime.BitStream

/-! ## The fields of a value -/

/-- `exp[i]` in `dispatch_bf16_data`. -/
def expOf (x : UInt16) : UInt8 := UInt8.ofNat ((x.toNat >>> 7) &&& 0xFF)

/-- `frac[i]` in `dispatch_bf16_data`: sign and fraction. -/
def fracOf (x : UInt16) : UInt8 :=
  UInt8.ofNat (((x.toNat >>> 15) <<< 7) ||| (x.toNat &&& 0x7F))

/-- `bf16_out[i]` in `merge_bf16_data`. -/
def mergeOf (frac exp : UInt8) : UInt16 :=
  UInt16.ofNat (((frac.toNat >>> 7) <<< 15) ||| (exp.toNat <<< 7) ||| (frac.toNat &&& 0x7F))

theorem toNat_expOf (x : UInt16) : (expOf x).toNat = x.toNat / 128 % 256 := by
  rw [expOf, UInt8.toNat_ofNat', show 0xFF = 2 ^ 8 - 1 from rfl, Nat.and_two_pow_sub_one_eq_mod,
    Nat.shiftRight_eq_div_pow, Nat.mod_mod]

theorem toNat_fracOf (x : UInt16) :
    (fracOf x).toNat = x.toNat / 32768 * 128 + x.toNat % 128 := by
  have lt := x.toNat_lt
  rw [fracOf, UInt8.toNat_ofNat', show 0x7F = 2 ^ 7 - 1 from rfl, Nat.and_two_pow_sub_one_eq_mod,
    ← Nat.shiftLeft_add_eq_or_of_lt (Nat.mod_lt _ (by decide)), Nat.shiftLeft_eq,
    Nat.shiftRight_eq_div_pow]
  omega

theorem toNat_mergeOf (frac exp : UInt8) : (mergeOf frac exp).toNat =
    frac.toNat / 128 * 32768 + exp.toNat * 128 + frac.toNat % 128 := by
  have ltF := frac.toNat_lt
  have ltE := exp.toNat_lt
  have low : frac.toNat % 2 ^ 7 < 2 ^ 7 := Nat.mod_lt _ (by decide)
  have mid : exp.toNat <<< 7 + frac.toNat % 2 ^ 7 < 2 ^ 15 := by
    rw [Nat.shiftLeft_eq]
    omega
  rw [mergeOf, UInt16.toNat_ofNat', show 0x7F = 2 ^ 7 - 1 from rfl,
    Nat.and_two_pow_sub_one_eq_mod, Nat.or_assoc, ← Nat.shiftLeft_add_eq_or_of_lt low,
    ← Nat.shiftLeft_add_eq_or_of_lt mid, Nat.shiftLeft_eq, Nat.shiftLeft_eq,
    Nat.shiftRight_eq_div_pow]
  omega

/-- The fields make up the value. -/
theorem mergeOf_fields (x : UInt16) : mergeOf (fracOf x) (expOf x) = x := by
  have lt := x.toNat_lt
  apply UInt16.toNat.inj
  rw [toNat_mergeOf, toNat_fracOf, toNat_expOf]
  omega

/-! ## The codec -/

/-- The number of blocks of 32 bytes. -/
def blkNumBf16 (isz : Nat) : Nat := (isz + 31) >>> 5

/-- The loop of `bm_vlc_enc_bf16` that writes the bytes `blk_data_frac`. -/
def writeFracs (zeroGuardEn : Bool) : List UInt16 → StreamBuffer → Option StreamBuffer
  | [], bs => some bs
  | x :: rest, bs =>
    if !zeroGuardEn ∨ expOf x ≠ 0 then do
      let bs ← writeStream bs [fracOf x] 8
      writeFracs zeroGuardEn rest bs
    else writeFracs zeroGuardEn rest bs

/-- The loop of `bm_vlc_dec_bf16` that reads them, given the exponents. -/
def parseFracs (zeroGuardEn : Bool) : List UInt8 → StreamBuffer →
    Option (StreamBuffer × List UInt8)
  | [], bs => some (bs, [])
  | exp :: rest, bs =>
    if !zeroGuardEn ∨ exp ≠ 0 then do
      let (bs, frac) ← parseStream bs 1 8
      let (bs, fracs) ← parseFracs zeroGuardEn rest bs
      return (bs, frac.getD 0 0 :: fracs)
    else do
      let (bs, fracs) ← parseFracs zeroGuardEn rest bs
      return (bs, 0 :: fracs)

/-- The body of the loop of `bm_vlc_enc_bf16`. The arrays that `dispatch_bf16_data` fills are zero
    behind a short block, like the fields of a zero. -/
def encBlockBf16 (ibuf : List UInt16) (cmd : CommandInfo) (bs : Streams) (blkIdx : Nat) :
    Option Streams := do
  let blk := blkData ibuf blkIdx
  let blkSrData := symbolRemapping (blk.map expOf) cmd.bias0 cmd.bias1 false true cmd.zeroGuardEn
  let k := vlcEstimateBlockOrder blkSrData cmd.zeroGuardEn
  let (data, ulen) ← vlcGrEncBlockData blkSrData bs.data k cmd.zeroGuardEn
  let kmap ← writeStream bs.kmap [kInfo k ulen] 8
  let data ← writeFracs cmd.zeroGuardEn blk data
  return ⟨kmap, data⟩

/-- `bm_vlc_enc_bf16` for a buffer of `isz` bytes, two for each value: the bytes of `obuf`. -/
def encBf16 (ceilingFunc : Nat → Nat → Nat) (ibuf : List UInt16) (cmd : CommandInfo) :
    Option (List UInt8) := do
  let blkNum := blkNumBf16 (2 * ibuf.length)
  let kmapSize := ceilingFunc blkNum 16 <<< 4
  let bs ← initStreams kmapSize (blkNum <<< 5)
  let bs ← (List.range blkNum).foldlM (encBlockBf16 ibuf cmd) bs
  finishEnc ceilingFunc cmd kmapSize bs

/-- The body of the loop of `bm_vlc_dec_bf16`. -/
def decBlockBf16 (isz : Nat) (cmd : CommandInfo) (d : Decoding UInt16) (blkIdx : Nat) :
    Option (Decoding UInt16) := do
  let (kmap, info) ← parseStream d.kmap 1 8
  let info := info.getD 0 0
  let (data, blkData) ← vlcGrDecBlockData d.data (blkBsSizeOf info cmd.zeroGuardEn) (orderOf info)
    cmd.zeroGuardEn
  let blkSrData := invSymbolRemapping blkData cmd.bias0 cmd.bias1 false true cmd.zeroGuardEn
  let exps := blkSrData.take (blkLen (isz >>> 1) (blkNumBf16 isz) blkIdx)
  let (data, fracs) ← parseFracs cmd.zeroGuardEn exps data
  return ⟨kmap, data, d.obuf ++ List.zipWith mergeOf fracs exps⟩

/-- `bm_vlc_dec_bf16`: the values of `obuf`. -/
def decBf16 (ceilingFunc : Nat → Nat → Nat) (ibuf : List UInt8) (isz : Nat) :
    Option (List UInt16) := do
  let kmapSize := ceilingFunc (blkNumBf16 isz) 16 <<< 4
  let cmd ← vlcDecHeader (openStream ibuf)
  let d ← (List.range (blkNumBf16 isz)).foldlM (decBlockBf16 isz cmd)
    ⟨openStream (ibuf.drop 16), openStream (ibuf.drop (16 + kmapSize)), []⟩
  return d.obuf

theorem blkNumBf16_two_mul (n : Nat) : blkNumBf16 (2 * n) = blkNum n := by
  unfold blkNumBf16 blkNum
  rw [Nat.shiftRight_eq_div_pow, Nat.shiftRight_eq_div_pow]
  omega

/-! ## Signs and fractions -/

/-- What is decoded of a value: with the zero guard a zero exponent makes it zero. -/
def kept (zeroGuardEn : Bool) (x : UInt16) : UInt16 :=
  if !zeroGuardEn ∨ expOf x ≠ 0 then x else 0

/-- The bits written for the signs and fractions. -/
def fracBits (zeroGuardEn : Bool) (xs : List UInt16) : List Bool :=
  xs.flatMap fun x => if !zeroGuardEn ∨ expOf x ≠ 0 then bitsOf [fracOf x] 8 else []

section Fracs

variable (zeroGuardEn : Bool)

theorem fracBits_cons (x : UInt16) (xs : List UInt16) : fracBits zeroGuardEn (x :: xs) =
    (if !zeroGuardEn ∨ expOf x ≠ 0 then bitsOf [fracOf x] 8 else []) ++
      fracBits zeroGuardEn xs := by
  rw [fracBits, List.flatMap_cons]
  rfl

theorem fracBits_append (xs ys : List UInt16) : fracBits zeroGuardEn (xs ++ ys) =
    fracBits zeroGuardEn xs ++ fracBits zeroGuardEn ys :=
  List.flatMap_append

theorem length_fracBits_le (xs : List UInt16) :
    (fracBits zeroGuardEn xs).length ≤ 8 * xs.length := by
  induction xs with
  | nil => simp [fracBits]
  | cons x xs ih =>
    rw [fracBits_cons, List.length_append, List.length_cons]
    split
    · rw [length_bitsOf]
      omega
    · rw [List.length_nil]
      omega

theorem writeFracs_wrote : ∀ (xs : List UInt16) {bs : StreamBuffer} {bits : List Bool},
    Wrote bs bits → bits.length + (fracBits zeroGuardEn xs).length ≤ 8 * bs.stream.length →
    bits.length + (fracBits zeroGuardEn xs).length < 2 ^ 31 →
    ∃ bs', writeFracs zeroGuardEn xs bs = some bs' ∧
      Wrote bs' (bits ++ fracBits zeroGuardEn xs) ∧ bs'.stream.length = bs.stream.length := by
  intro xs
  induction xs with
  | nil =>
    intro bs bits wrote _ _
    exact ⟨bs, rfl, by simpa [fracBits] using wrote, rfl⟩
  | cons x xs ih =>
    intro bs bits wrote fits range
    rw [fracBits_cons] at fits range ⊢
    unfold writeFracs
    by_cases written : !zeroGuardEn ∨ expOf x ≠ 0
    · rw [if_pos written] at fits range ⊢
      rw [if_pos written, ← List.append_assoc]
      rw [List.length_append, length_bitsOf] at fits range
      obtain ⟨bs₁, write, wrote₁, length₁⟩ := wrote.writeStream [fracOf x] 8 (by simp)
        (by omega) (by omega)
      obtain ⟨bs₂, rest, wrote₂, length₂⟩ := ih wrote₁
        (by rw [List.length_append, length_bitsOf]; omega)
        (by rw [List.length_append, length_bitsOf]; omega)
      exact ⟨bs₂, by rw [write]; exact rest, wrote₂, by rw [length₂, length₁]⟩
    · rw [if_neg written] at fits range ⊢
      rw [if_neg written, List.nil_append]
      exact ih wrote fits range

/-- The bytes are read for the exponents they were written for. -/
theorem parseFracs_eq : ∀ (xs : List UInt16) {bs : StreamBuffer} {rest : List Bool},
    Gives bs (fracBits zeroGuardEn xs ++ rest) →
    ∃ bs' fracs, parseFracs zeroGuardEn (xs.map expOf) bs = some (bs', fracs) ∧
      List.zipWith mergeOf fracs (xs.map expOf) = xs.map (kept zeroGuardEn) ∧ Gives bs' rest := by
  intro xs
  induction xs with
  | nil =>
    intro bs rest gives
    exact ⟨bs, [], rfl, rfl, gives⟩
  | cons x xs ih =>
    intro bs rest gives
    rw [fracBits_cons] at gives
    rw [List.map_cons, List.map_cons]
    unfold parseFracs kept
    by_cases written : !zeroGuardEn ∨ expOf x ≠ 0
    · rw [if_pos written, List.append_assoc] at gives
      obtain ⟨bs₁, read, later⟩ := gives.parseInfo
      obtain ⟨bs₂, fracs, reads, merged, later₂⟩ := ih later
      refine ⟨bs₂, fracOf x :: fracs, ?_, ?_, later₂⟩
      · rw [if_pos written, read]
        simp [reads]
      · rw [List.zipWith_cons_cons, mergeOf_fields, if_pos written, merged]
        rfl
    · rw [if_neg written, List.nil_append] at gives
      obtain ⟨bs₂, fracs, reads, merged, later₂⟩ := ih gives
      have zero : expOf x = 0 := by
        by_contra ne
        exact written (Or.inr ne)
      refine ⟨bs₂, 0 :: fracs, ?_, ?_, later₂⟩
      · rw [if_neg written, reads]
        rfl
      · rw [List.zipWith_cons_cons, if_neg written, merged, zero]
        rfl

end Fracs

/-! ## The round trip -/

section RoundTrip

variable (ibuf : List UInt16) (cmd : CommandInfo)

/-- The symbols of a block. -/
def expSrData (i : Nat) : List UInt8 :=
  symbolRemapping ((blkData ibuf i).map expOf) cmd.bias0 cmd.bias1 false true cmd.zeroGuardEn

/-- The order of a block. -/
def expOrder (i : Nat) : Option Nat :=
  vlcEstimateBlockOrder (expSrData ibuf cmd i) cmd.zeroGuardEn

/-- What the codec makes of the blocks. -/
def bf16Codes : BlockCodes UInt16 where
  info i := kInfo (expOrder ibuf cmd i) (blockUlen (expSrData ibuf cmd i) (expOrder ibuf cmd i))
  payload i := blockBits (expSrData ibuf cmd i) (expOrder ibuf cmd i) cmd.zeroGuardEn ++
    fracBits cmd.zeroGuardEn (blkData ibuf i)
  out i := ((ibuf.drop (16 * i)).take 16).map (kept cmd.zeroGuardEn)

theorem bf16Codes_info (i : Nat) : (bf16Codes ibuf cmd).info i =
    kInfo (expOrder ibuf cmd i) (blockUlen (expSrData ibuf cmd i) (expOrder ibuf cmd i)) := by
  simp only [bf16Codes]

theorem bf16Codes_payload (i : Nat) : (bf16Codes ibuf cmd).payload i =
    blockBits (expSrData ibuf cmd i) (expOrder ibuf cmd i) cmd.zeroGuardEn ++
      fracBits cmd.zeroGuardEn (blkData ibuf i) := by
  simp only [bf16Codes]

variable {ibuf cmd} {i : Nat}

theorem expSrData_codable (lt : i < blkNum ibuf.length) :
    Codable (expSrData ibuf cmd i) cmd.zeroGuardEn (expOrder ibuf cmd i) :=
  vlcEstimateBlockOrder_codable _
    (by rw [expSrData, length_symbolRemapping, List.length_map, length_blkData lt])

/-- Every block takes between 16 and 256 bits. -/
theorem length_payload_bf16 (lt : i < blkNum ibuf.length) :
    16 ≤ ((bf16Codes ibuf cmd).payload i).length ∧
      ((bf16Codes ibuf cmd).payload i).length ≤ 256 := by
  have codable : Codable (expSrData ibuf cmd i) cmd.zeroGuardEn (expOrder ibuf cmd i) :=
    expSrData_codable lt
  have fracs := length_fracBits_le cmd.zeroGuardEn (blkData ibuf i)
  have least := codable.le_length
  have most := codable.length_le
  rw [length_blkData lt] at fracs
  rw [bf16Codes_payload, List.length_append]
  omega

theorem encBlockBf16_encodes (lt : i < blkNum ibuf.length) :
    (bf16Codes ibuf cmd).Encodes (16 * 2) (encBlockBf16 ibuf cmd) i := by
  have codable : Codable (expSrData ibuf cmd i) cmd.zeroGuardEn (expOrder ibuf cmd i) :=
    expSrData_codable lt
  refine ⟨(length_payload_bf16 lt).2, ?_⟩
  intro bs kbits dbits wroteK wroteD fitsK rangeK fitsD rangeD
  rw [bf16Codes_payload, List.length_append] at fitsD rangeD
  rw [bf16Codes_payload]
  obtain ⟨data, coded, wroteD₁, lengthD₁⟩ := vlcGrEncBlockData_wrote codable wroteD (by omega)
    (by omega)
  obtain ⟨kmap, noted, wroteK', lengthK⟩ := wroteK.writeStream [(bf16Codes ibuf cmd).info i] 8
    (by simp) fitsK rangeK
  obtain ⟨data', fracs, wroteD₂, lengthD₂⟩ := writeFracs_wrote cmd.zeroGuardEn (blkData ibuf i)
    wroteD₁ (by rw [List.length_append]; omega) (by rw [List.length_append]; omega)
  refine ⟨⟨kmap, data'⟩, ?_, wroteK', by rw [← List.append_assoc]; exact wroteD₂, lengthK,
    by rw [lengthD₂, lengthD₁]⟩
  rw [bf16Codes_info] at noted
  unfold encBlockBf16
  dsimp only
  rw [← expSrData, ← expOrder, coded]
  simp only [noted, fracs, Option.bind_eq_bind, Option.bind_some, Option.pure_def]

theorem decBlockBf16_decodes (lt : i < blkNum ibuf.length) :
    (bf16Codes ibuf cmd).Decodes (blkNum ibuf.length)
      (decBlockBf16 (2 * ibuf.length) cmd.sevenBits) i := by
  have codable : Codable (expSrData ibuf cmd i) cmd.zeroGuardEn (expOrder ibuf cmd i) :=
    expSrData_codable lt
  intro d kRest dRest givesK givesD
  rw [bf16Codes_info] at givesK
  rw [bf16Codes_payload, blkData_eq lt, fracBits_append, List.append_assoc,
    List.append_assoc] at givesD
  obtain ⟨kmap, read, laterK⟩ := givesK.parseInfo
  obtain ⟨data, decoded, -, givesFracs⟩ := vlcGrDecBlockData_eq codable givesD
  obtain ⟨data', fracs, reads, merged, laterD⟩ := parseFracs_eq cmd.zeroGuardEn
    ((ibuf.drop (16 * i)).take 16) givesFracs
  refine ⟨⟨kmap, data', d.obuf ++ ((ibuf.drop (16 * i)).take 16).map (kept cmd.zeroGuardEn)⟩, ?_,
    rfl, fun inner => ⟨laterK, ?_⟩⟩
  · have order := codable.orderOf_kInfo
    have size := codable.blkBsSizeOf_kInfo
    have undone : invSymbolRemapping (expSrData ibuf cmd i) cmd.sevenBits.bias0
        cmd.sevenBits.bias1 false true cmd.sevenBits.zeroGuardEn = (blkData ibuf i).map expOf :=
      invSymbolRemapping_exp ((blkData ibuf i).map expOf) cmd.bias0 cmd.bias1 _ cmd.zeroGuardEn
    have guard : cmd.sevenBits.zeroGuardEn = cmd.zeroGuardEn := rfl
    have num : (2 * ibuf.length) >>> 1 = ibuf.length := by
      rw [Nat.shiftRight_eq_div_pow]
      omega
    simp only [decBlockBf16, read, List.getD_cons_zero, guard, order, size, decoded,
      Option.bind_eq_bind, Option.bind_some, Option.pure_def]
    rw [← guard, undone, guard, num, blkNumBf16_two_mul, ← List.map_take, take_blkData lt]
    simp only [reads, Option.bind_some, merged]
  · have whole : 16 - min 16 (ibuf.length - 16 * i) = 0 := by
      unfold blkNum at inner
      rw [Nat.shiftRight_eq_div_pow] at inner
      omega
    rw [whole, List.replicate_zero] at laterD
    exact laterD

/-- The blocks make up the values that are decoded. -/
theorem bf16Codes_outs :
    (bf16Codes ibuf cmd).outs 0 (blkNum ibuf.length) = ibuf.map (kept cmd.zeroGuardEn) := by
  have blocks := flatMap_blkNum ibuf
  rw [← congrArg (List.map (kept cmd.zeroGuardEn)) blocks, List.map_flatMap]
  rfl

/-- Every block takes between 16 and 256 bits. -/
theorem bf16Codes_codeBits (ibuf : List UInt16) (cmd : CommandInfo) : 16 * blkNum ibuf.length ≤
      (bf16Codes ibuf cmd).codeBits (blkNum ibuf.length) ∧
    (bf16Codes ibuf cmd).codeBits (blkNum ibuf.length) ≤ 256 * blkNum ibuf.length :=
  (bf16Codes ibuf cmd).codeBits_bounds fun _ lt => length_payload_bf16 lt

end RoundTrip

theorem kept_false (xs : List UInt16) : xs.map (kept false) = xs :=
  List.map_id'' (fun x => by simp [kept]) xs

theorem kept_true (x : UInt16) : kept true x = if expOf x = 0 then 0 else x := by
  unfold kept
  by_cases zero : expOf x = 0
  · simp [zero]
  · simp [zero]

/-- bfloat16 compression is lossless without the zero guard; with it a value whose exponent is
    zero becomes zero. No assertion fails, when the size of the data and the position in it,
    rounded up to bytes, are of type `int`. -/
theorem decBf16_encBf16 (ceilingFunc : Nat → Nat → Nat) (ceiling : ExactCeiling ceilingFunc)
    (ibuf : List UInt16) (cmd : CommandInfo) (size : 32 * blkNum ibuf.length < 2 ^ 31)
    (range : (bf16Codes ibuf cmd).codeBits (blkNum ibuf.length) + 7 < 2 ^ 31) :
    ∃ obuf, encBf16 ceilingFunc ibuf cmd = some obuf ∧
      (cmd.zeroGuardEn = false → decBf16 ceilingFunc obuf (2 * ibuf.length) = some ibuf) ∧
      (cmd.zeroGuardEn = true → decBf16 ceilingFunc obuf (2 * ibuf.length) =
        some (ibuf.map fun x => if expOf x = 0 then 0 else x)) := by
  obtain ⟨start, bs, obuf, d, init, looped, finished, header, done, out⟩ :=
    (bf16Codes ibuf cmd).roundTrip ceiling cmd (by omega : 1 ≤ 2)
      (fun i lt => encBlockBf16_encodes lt) (fun i lt => decBlockBf16_decodes lt) (by omega) range
  have capacity : 16 * (2 * blkNum ibuf.length) = blkNum ibuf.length <<< 5 := by
    rw [Nat.shiftLeft_eq]
    omega
  rw [capacity] at init
  rw [bf16Codes_outs] at out
  have decoded : decBf16 ceilingFunc obuf (2 * ibuf.length) =
      some (ibuf.map (kept cmd.zeroGuardEn)) := by
    simp only [decBf16, blkNumBf16_two_mul, header, done, out, Option.bind_eq_bind,
      Option.bind_some, Option.pure_def]
  refine ⟨obuf, ?_, fun off => ?_, fun guarded => ?_⟩
  · simp only [encBf16, blkNumBf16_two_mul, init, looped, Option.bind_eq_bind, Option.bind_some,
      finished]
  · rw [decoded, off, kept_false]
  · rw [decoded, guarded, List.map_congr_left fun x _ => kept_true x]

/-- A full block of sixteen halves and four more; 0x8001 and 0x0013 are subnormal. -/
def twentyHalves : List UInt16 :=
  [0x3F80, 0x8001, 0xC2F7, 0, 0, 0x4049, 0xBF00, 0x0013, 0x7F80, 0xFF80, 0x3C00, 0x3C01, 0, 0,
    0x4120, 0x0080, 0x3F81, 0, 0x8001, 0xC2F7]

theorem decBf16_encBf16_two_blocks :
    ∃ obuf, encBf16 (fun a b => (a + b - 1) / b) twentyHalves ⟨false, true, 200, 0, true⟩ =
        some obuf ∧
      decBf16 (fun a b => (a + b - 1) / b) obuf 40 = some [0x3F80, 0, 0xC2F7, 0, 0, 0x4049, 0xBF00,
        0, 0x7F80, 0xFF80, 0x3C00, 0x3C01, 0, 0, 0x4120, 0x0080, 0x3F81, 0, 0, 0xC2F7] := by
  have range : (bf16Codes twentyHalves ⟨false, true, 200, 0, true⟩).codeBits
      (blkNum twentyHalves.length) + 7 < 2 ^ 31 :=
    Nat.lt_of_le_of_lt (Nat.add_le_add_right (bf16Codes_codeBits _ _).2 7) (by decide)
  obtain ⟨obuf, coded, -, decoded⟩ := decBf16_encBf16 (fun a b => (a + b - 1) / b)
    (fun _ _ _ => rfl) twentyHalves ⟨false, true, 200, 0, true⟩ (by decide) range
  exact ⟨obuf, coded, decoded rfl⟩

end CviRuntime.Vlc
