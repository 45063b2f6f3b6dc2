import CviRuntime.Vlc.Int8
import CviRuntime.Vlc.Bf16

/-!
# The size of compressed buffers (`test/1822/bm_vlc_compress.h:16-21`)

The clients of the encoders allocate `get_out_bs_buf_size` bytes. No block takes more bits than
raw, so the encoder stays inside its own buffer, which has that size, and so does what it copies
out.
-/

namespace CviRuntime.Vlc

open CviRuntime.BitStream

/-- `get_out_bs_buf_size`; `dataType` is 0 for bytes and 1 for 16-bit values. -/
def getOutBsBufSize (ceilingFunc : Nat → Nat → Nat) (inSize dataType : Nat) : Nat :=
  let blkNum := if dataType ≠ 0 then (inSize + 31) >>> 5 else (inSize + 15) >>> 4
  let inSizePad := blkNum <<< (4 + dataType)
  inSizePad + (ceilingFunc blkNum 16 <<< 4) + 16

/-- The byte of the map for a block. -/
def Streams.sideByte (bs : Streams) (i : Nat) : UInt8 := bs.kmap.stream.getD i 0

/-- What coding block `i` with an order and `fracs` stored fractions does to the streams: the side
    byte tells how many bits the code has, 128 at most, and nothing is written behind the end of a
    stream; the side byte is 0xE0 for a raw block only, and otherwise made of the order and the
    length of the unary field. -/
structure BlockWritten (bf16ZvcEn : Bool) (orderK : Option Nat) (fracs i : Nat)
    (bs bs' : Streams) : Prop where
  bits : bs'.data.bitPos =
    bs.data.bitPos + blkBsSizeOf (bs'.sideByte i) bf16ZvcEn + 8 * fracs
  small : blkBsSizeOf (bs'.sideByte i) bf16ZvcEn ≤ 128
  dataInside : bs'.data.bitPos ≤ 8 * bs'.data.stream.length
  kmapInside : bs'.kmap.bitPos ≤ 8 * bs'.kmap.stream.length
  raw : bs'.sideByte i = 0xE0 ↔ orderK = none
  coded : ∀ k, orderK = some k → k ≤ 5 ∧ ∃ unaryFieldLen, 16 ≤ unaryFieldLen ∧
    unaryFieldLen ≤ 47 ∧ (bs'.sideByte i).toNat = 32 * k + (unaryFieldLen - 16)

/-- The streams of `bm_vlc_enc_int8` after `i` blocks. -/
def encInt8At (ceilingFunc : Nat → Nat → Nat) (ibuf : List UInt8) (cmd : CommandInfo) (i : Nat) :
    Option Streams := do
  let blkNum := blkNum ibuf.length
  let bs ← initStreams (ceilingFunc blkNum 16 <<< 4) (blkNum <<< 4)
  (List.range i).foldlM (encBlockInt8 ibuf cmd) bs

/-- The streams of `bm_vlc_enc_bf16` after `i` blocks. -/
def encBf16At (ceilingFunc : Nat → Nat → Nat) (ibuf : List UInt16) (cmd : CommandInfo) (i : Nat) :
    Option Streams := do
  let blkNum := blkNumBf16 (2 * ibuf.length)
  let bs ← initStreams (ceilingFunc blkNum 16 <<< 4) (blkNum <<< 5)
  (List.range i).foldlM (encBlockBf16 ibuf cmd) bs

/-- How many fractions of a block are stored. -/
def fracCount (zeroGuardEn : Bool) (xs : List UInt16) : Nat :=
  xs.countP fun x => !zeroGuardEn ∨ expOf x ≠ 0

/-! ## Side bytes -/

section

variable {blk : List UInt8} {bf16ZvcEn : Bool} {orderK : Option Nat}

/-- The reserved code does not collide with an order and a length. -/
theorem Codable.kInfo_eq_raw_iff (codable : Codable blk bf16ZvcEn orderK) :
    kInfo orderK (blockUlen blk orderK) = 0xE0 ↔ orderK = none := by
  cases orderK with
  | none => exact iff_of_true rfl rfl
  | some k =>
    refine iff_of_false (fun raw => ?_) (Option.some_ne_none k)
    have order := codable.orderOf_kInfo
    rw [raw] at order
    exact absurd order.symm (Option.some_ne_none k)

/-- Byte `i` of a buffer that begins with `i` bytes and this one. -/
theorem Holds.getD_byte {buf : List UInt8} {bits : List Bool} {info : UInt8} {i : Nat}
    (holds : Holds buf (bits ++ bitsOf [info] 8)) (before : bits.length = 8 * i) :
    buf.getD i 0 = info := by
  have same : [buf.getD i 0] = [info] := by
    refine ext_bitAt rfl fun j small => ?_
    have inByte : j < 8 := by simpa using small
    have bit := holds.bit (8 * i + j)
    rw [← before, List.getD_append_right _ _ _ _ (by omega), Nat.add_sub_cancel_left,
      List.getD_eq_getElem?_getD, getElem?_bitsOf inByte, Option.getD_some, before] at bit
    rw [← bit]
    unfold bitAt
    rw [show j / 8 = 0 by omega, show (8 * i + j) / 8 = i by omega,
      show (8 * i + j) % 8 = j % 8 by omega]
    rfl
  exact List.singleton_inj.mp same

end

/-! ## Blocks and buffers -/

section

variable {α : Type} (c : BlockCodes α)

theorem length_payloads_add (start m n : Nat) :
    (c.payloads start (m + n)).length =
      (c.payloads start m).length + (c.payloads (start + m) n).length := by
  unfold BlockCodes.payloads
  rw [← List.range'_append_1, List.flatMap_append, List.length_append]

/-- The streams of an encoder after any number of its blocks. -/
theorem BlockCodes.encode_init {ceilingFunc : Nat → Nat → Nat}
    (ceiling : ExactCeiling ceilingFunc) {blocks r : Nat}
    {step : Streams → Nat → Option Streams} (positive : 1 ≤ r)
    (each : ∀ i, i < blocks → c.Encodes (16 * r) step i) (size : 16 * (r * blocks) < 2 ^ 31)
    (range : c.codeBits blocks + 7 < 2 ^ 31) :
    ∃ start, initStreams (ceilingFunc blocks 16 <<< 4) (16 * (r * blocks)) = some start ∧
      ∀ i ≤ blocks, ∃ bs, (List.range i).foldlM step start = some bs ∧
        Wrote bs.kmap (c.infos 0 i) ∧ Wrote bs.data (c.payloads 0 i) ∧
        bs.kmap.stream.length = ceilingFunc blocks 16 <<< 4 ∧
        bs.data.stream.length = 16 * (r * blocks) := by
  have fewer : blocks ≤ r * blocks := Nat.le_mul_of_pos_left blocks positive
  have kmapSize : ceilingFunc blocks 16 <<< 4 = (blocks + 15) / 16 * 16 := by
    rw [ceiling _ 16 (by omega), Nat.shiftLeft_eq]
    omega
  obtain ⟨kmap, initK, startK, lengthK₀⟩ := initStream_wrote
    (by omega : ceilingFunc blocks 16 <<< 4 < 2 ^ 31)
  obtain ⟨data, initD, startD, lengthD₀⟩ := initStream_wrote size
  refine ⟨⟨kmap, data⟩, ?_, fun i below => ?_⟩
  · simp only [initStreams, initK, initD, Option.bind_eq_bind, Option.bind_some, Option.pure_def]
  · have room : 8 * (16 * r) * i ≤ 8 * (16 * (r * blocks)) := by
      have whole : 8 * (16 * (r * blocks)) = 8 * (16 * r) * blocks := by
        simp only [Nat.mul_assoc]
      rw [whole]
      exact Nat.mul_le_mul_left _ below
    have shorter := length_payloads_add c 0 i (blocks - i)
    rw [Nat.add_sub_cancel' below] at shorter
    unfold BlockCodes.codeBits at range
    obtain ⟨bs, done, wroteK, wroteD, lengthK, lengthD⟩ := c.foldlM_encodes i 0
      ⟨kmap, data⟩ [] [] (fun j _ lt => each j (by omega)) startK startD
      (by simp only [List.length_nil, lengthK₀]; omega) (by simp only [List.length_nil]; omega)
      (by simp only [List.length_nil, lengthD₀]; omega) (by simp only [List.length_nil]; omega)
    rw [List.nil_append] at wroteK wroteD
    rw [lengthK₀] at lengthK
    rw [lengthD₀] at lengthD
    exact ⟨bs, by rw [List.range_eq_range']; exact done, wroteK, wroteD, lengthK, lengthD⟩

/-- `osz` is inside the buffer that the encoder allocates. -/
theorem length_finishEnc {ceilingFunc : Nat → Nat → Nat} {cmd : CommandInfo} {kmapSize : Nat}
    {bs : Streams} {obuf : List UInt8} (done : finishEnc ceilingFunc cmd kmapSize bs = some obuf) :
    obuf.length ≤ 16 + bs.kmap.stream.length + bs.data.stream.length := by
  unfold finishEnc at done
  split at done
  · cases done
  · dsimp only at done
    obtain ⟨start, header, init, wrote, -, headerLen⟩ := vlcEncHeader_wrote cmd
      (ceilingFunc ((bs.data.bitPos + 7) >>> 3) 16 <<< 4)
    rw [init, Option.bind_eq_bind, Option.bind_some, wrote, Option.bind_some] at done
    split at done
    · cases done
      rw [List.length_take, List.length_append, List.length_append, headerLen]
      exact Nat.min_le_right _ _
    · cases done

/-- The length of the codes is counted by block. -/
theorem length_payloads_one (i : Nat) : (c.payloads i 1).length = (c.payload i).length := by
  simp [BlockCodes.payloads]

theorem infos_succ_last (i : Nat) : c.infos 0 (i + 1) = c.infos 0 i ++ bitsOf [c.info i] 8 := by
  unfold BlockCodes.infos
  rw [← List.range'_append_1, List.flatMap_append]
  simp

/-- The two streams after a block tell what the block has added. -/
theorem blockWritten_of_wrote {blk : List UInt8} {bf16ZvcEn : Bool} {orderK : Option Nat}
    {fracs i : Nat} {bs bs' : Streams} (codable : Codable blk bf16ZvcEn orderK)
    (info : c.info i = kInfo orderK (blockUlen blk orderK))
    (payload : (c.payload i).length = (blockBits blk orderK bf16ZvcEn).length + 8 * fracs)
    (wrote : Wrote bs.data (c.payloads 0 i)) (wroteK : Wrote bs'.kmap (c.infos 0 (i + 1)))
    (wroteD : Wrote bs'.data (c.payloads 0 (i + 1))) :
    BlockWritten bf16ZvcEn orderK fracs i bs bs' := by
  have dataFits := wroteD.holds.fits
  have kmapFits := wroteK.holds.fits
  rw [← wroteD.pos] at dataFits
  rw [← wroteK.pos] at kmapFits
  have side : bs'.sideByte i = kInfo orderK (blockUlen blk orderK) := by
    have holds := wroteK.holds
    rw [infos_succ_last, info] at holds
    exact Holds.getD_byte holds (c.length_infos 0 i)
  have size : blkBsSizeOf (bs'.sideByte i) bf16ZvcEn =
      (blockBits blk orderK bf16ZvcEn).length := by
    rw [side, codable.blkBsSizeOf_kInfo]
  refine ⟨?_, ?_, dataFits, kmapFits, ?_, ?_⟩
  · rw [wroteD.pos, wrote.pos, length_payloads_add, length_payloads_one, Nat.zero_add, payload,
      size, Nat.add_assoc]
  · rw [size]
    exact codable.length_le
  · rw [side]
    exact codable.kInfo_eq_raw_iff
  · rintro k rfl
    obtain ⟨small, short, -⟩ := codable.order k rfl
    refine ⟨small, unaryLen blk k, codable.le_unaryLen k, short, ?_⟩
    rw [side]
    exact codable.toNat_kInfo

end

/-! ## The two encoders -/

section

variable {ceilingFunc : Nat → Nat → Nat}

theorem length_fracBits (zeroGuardEn : Bool) (xs : List UInt16) :
    (fracBits zeroGuardEn xs).length = 8 * fracCount zeroGuardEn xs := by
  induction xs with
  | nil => rfl
  | cons x xs ih =>
    rw [fracBits_cons, List.length_append, ih, fracCount, fracCount, List.countP_cons]
    by_cases stored : (!zeroGuardEn) = true ∨ expOf x ≠ 0
    · rw [if_pos stored, if_pos (decide_eq_true stored), length_bitsOf]
      omega
    · rw [if_neg stored, if_neg (by simpa using stored), List.length_nil]
      omega

/-- `bm_vlc_enc_int8` stays inside its buffers. -/
theorem encInt8_bounds (ceiling : ExactCeiling ceilingFunc) (ibuf : List UInt8) (cmd : CommandInfo)
    (range : (int8Codes ibuf cmd).codeBits (blkNum ibuf.length) + 7 < 2 ^ 31) :
    (∃ obuf, encInt8 ceilingFunc ibuf cmd = some obuf ∧
      obuf.length ≤ getOutBsBufSize ceilingFunc ibuf.length 0) ∧
    ∀ i < blkNum ibuf.length, ∃ bs bs', encInt8At ceilingFunc ibuf cmd i = some bs ∧
      encInt8At ceilingFunc ibuf cmd (i + 1) = some bs' ∧
      BlockWritten false (srOrder ibuf cmd i) 0 i bs bs' := by
  have bounds := int8Codes_codeBits ibuf cmd
  have capacity : 16 * (1 * blkNum ibuf.length) = blkNum ibuf.length <<< 4 := by
    rw [Nat.shiftLeft_eq]
    omega
  obtain ⟨start, init, runs⟩ := (int8Codes ibuf cmd).encode_init ceiling (by omega : 1 ≤ 1)
    (fun i lt => encBlockInt8_encodes lt) (by omega) range
  obtain ⟨start', bs, obuf, init', looped, finished, -⟩ := (int8Codes ibuf cmd).encode ceiling cmd
    (by omega : 1 ≤ 1) (fun i lt => encBlockInt8_encodes lt) (by omega) range
  obtain rfl : start = start' := Option.some.inj (init.symm.trans init')
  rw [capacity] at init
  refine ⟨⟨obuf, ?_, ?_⟩, fun i lt => ?_⟩
  · simp only [encInt8, init, looped, Option.bind_eq_bind, Option.bind_some, finished]
  · obtain ⟨last, done, -, -, lengthK, lengthD⟩ := runs _ (Nat.le_refl _)
    obtain rfl : bs = last := Option.some.inj (looped.symm.trans done)
    have inside := length_finishEnc finished
    rw [lengthK, lengthD, capacity] at inside
    refine inside.trans ?_
    change 16 + ceilingFunc (blkNum ibuf.length) 16 <<< 4 + blkNum ibuf.length <<< 4 ≤
      blkNum ibuf.length <<< 4 + ceilingFunc (blkNum ibuf.length) 16 <<< 4 + 16
    omega
  · obtain ⟨before, done, -, wrote, -⟩ := runs i lt.le
    obtain ⟨after, done', wroteK, wroteD, -⟩ := runs (i + 1) lt
    refine ⟨before, after, ?_, ?_, ?_⟩
    · simp only [encInt8At, init, done, Option.bind_eq_bind, Option.bind_some]
    · simp only [encInt8At, init, done', Option.bind_eq_bind, Option.bind_some]
    · have payload : ((int8Codes ibuf cmd).payload i).length =
          (blockBits (srData ibuf cmd i) (srOrder ibuf cmd i) false).length + 8 * 0 := by
        rw [int8Codes_payload, Nat.mul_zero, Nat.add_zero]
      exact blockWritten_of_wrote (int8Codes ibuf cmd) (srData_codable lt) (int8Codes_info i)
        payload wrote wroteK wroteD

/-- `bm_vlc_enc_bf16` stays inside its buffers. -/
theorem encBf16_bounds (ceiling : ExactCeiling ceilingFunc) (ibuf : List UInt16)
    (cmd : CommandInfo) (size : 32 * blkNum ibuf.length < 2 ^ 31)
    (range : (bf16Codes ibuf cmd).codeBits (blkNum ibuf.length) + 7 < 2 ^ 31) :
    (∃ obuf, encBf16 ceilingFunc ibuf cmd = some obuf ∧
      obuf.length ≤ getOutBsBufSize ceilingFunc (2 * ibuf.length) 1) ∧
    ∀ i < blkNum ibuf.length, ∃ bs bs', encBf16At ceilingFunc ibuf cmd i = some bs ∧
      encBf16At ceilingFunc ibuf cmd (i + 1) = some bs' ∧
      BlockWritten cmd.zeroGuardEn (expOrder ibuf cmd i)
        (fracCount cmd.zeroGuardEn (blkData ibuf i)) i bs bs' := by
  have capacity : 16 * (2 * blkNum ibuf.length) = blkNum ibuf.length <<< 5 := by
    rw [Nat.shiftLeft_eq]
    omega
  obtain ⟨start, init, runs⟩ := (bf16Codes ibuf cmd).encode_init ceiling (by omega : 1 ≤ 2)
    (fun i lt => encBlockBf16_encodes lt) (by omega) range
  obtain ⟨start', bs, obuf, init', looped, finished, -⟩ := (bf16Codes ibuf cmd).encode ceiling cmd
    (by omega : 1 ≤ 2) (fun i lt => encBlockBf16_encodes lt) (by omega) range
  obtain rfl : start = start' := Option.some.inj (init.symm.trans init')
  rw [capacity] at init
  refine ⟨⟨obuf, ?_, ?_⟩, fun i lt => ?_⟩
  · simp only [encBf16, blkNumBf16_two_mul, init, looped, Option.bind_eq_bind, Option.bind_some,
      finished]
  · obtain ⟨last, done, -, -, lengthK, lengthD⟩ := runs _ (Nat.le_refl _)
    obtain rfl : bs = last := Option.some.inj (looped.symm.trans done)
    have inside := length_finishEnc finished
    have blocks : (2 * ibuf.length + 31) >>> 5 = blkNum ibuf.length :=
      blkNumBf16_two_mul ibuf.length
    rw [lengthK, lengthD, capacity] at inside
    refine inside.trans ?_
    rw [getOutBsBufSize, if_pos Nat.one_ne_zero, blocks]
    change 16 + ceilingFunc (blkNum ibuf.length) 16 <<< 4 + blkNum ibuf.length <<< 5 ≤
      blkNum ibuf.length <<< 5 + ceilingFunc (blkNum ibuf.length) 16 <<< 4 + 16
    omega
  · obtain ⟨before, done, -, wrote, -⟩ := runs i lt.le
    obtain ⟨after, done', wroteK, wroteD, -⟩ := runs (i + 1) lt
    refine ⟨before, after, ?_, ?_, ?_⟩
    · simp only [encBf16At, blkNumBf16_two_mul, init, done, Option.bind_eq_bind, Option.bind_some]
    · simp only [encBf16At, blkNumBf16_two_mul, init, done', Option.bind_eq_bind,
        Option.bind_some]
    · have payload : ((bf16Codes ibuf cmd).payload i).length =
          (blockBits (expSrData ibuf cmd i) (expOrder ibuf cmd i) cmd.zeroGuardEn).length +
            8 * fracCount cmd.zeroGuardEn (blkData ibuf i) := by
        rw [bf16Codes_payload, List.length_append, length_fracBits]
      exact blockWritten_of_wrote (bf16Codes ibuf cmd) (expSrData_codable lt)
        (bf16Codes_info ibuf cmd i) payload wrote wroteK wroteD

end

/-- What the encoders write is no longer than `get_out_bs_buf_size`, for every input of the two
    round trips; each block writes at most 128 bits, and 8 for every stored fraction, inside the
    buffers, and its side byte tells how many. -/
theorem vlc_size_bound {ceilingFunc : Nat → Nat → Nat} (ceiling : ExactCeiling ceilingFunc) :
    (∀ (ibuf : List UInt8) (cmd : CommandInfo),
      (int8Codes ibuf cmd).codeBits (blkNum ibuf.length) + 7 < 2 ^ 31 →
      (∃ obuf, encInt8 ceilingFunc ibuf cmd = some obuf ∧
        obuf.length ≤ getOutBsBufSize ceilingFunc ibuf.length 0) ∧
      ∀ i < blkNum ibuf.length, ∃ bs bs', encInt8At ceilingFunc ibuf cmd i = some bs ∧
        encInt8At ceilingFunc ibuf cmd (i + 1) = some bs' ∧
        BlockWritten false (srOrder ibuf cmd i) 0 i bs bs') ∧
    ∀ (ibuf : List UInt16) (cmd : CommandInfo), 32 * blkNum ibuf.length < 2 ^ 31 →
      (bf16Codes ibuf cmd).codeBits (blkNum ibuf.length) + 7 < 2 ^ 31 →
      (∃ obuf, encBf16 ceilingFunc ibuf cmd = some obuf ∧
        obuf.length ≤ getOutBsBufSize ceilingFunc (2 * ibuf.length) 1) ∧
      ∀ i < blkNum ibuf.length, ∃ bs bs', encBf16At ceilingFunc ibuf cmd i = some bs ∧
        encBf16At ceilingFunc ibuf cmd (i + 1) = some bs' ∧
        BlockWritten cmd.zeroGuardEn (expOrder ibuf cmd i)
          (fracCount cmd.zeroGuardEn (blkData ibuf i)) i bs bs' :=
  ⟨encInt8_bounds ceiling, encBf16_bounds ceiling⟩

theorem vlc_size_bound_two_blocks :
    (∃ obuf, encInt8 (fun a b => (a + b - 1) / b) twentyBytes ⟨true, false, 3, 127, false⟩ =
        some obuf ∧ obuf.length ≤ 64) ∧
      ∃ obuf, encBf16 (fun a b => (a + b - 1) / b) twentyHalves ⟨false, true, 200, 0, true⟩ =
        some obuf ∧ obuf.length ≤ 96 := by
  obtain ⟨bytes, halves⟩ :=
    @vlc_size_bound (fun a b => (a + b - 1) / b) (fun _ _ _ => rfl)
  refine ⟨(bytes _ _ ?_).1, (halves _ _ ?_ ?_).1⟩
  · exact (Nat.add_le_add_right (int8Codes_codeBits _ _).2 7).trans_lt (by decide)
  · decide
  · exact (Nat.add_le_add_right (bf16Codes_codeBits _ _).2 7).trans_lt (by decide)

end CviRuntime.Vlc
