import CviRuntime.CModel.Adjust
import CviRuntime.Dmabuf.Preservation
import CviRuntime.Pmu.Fill

/-!
# The lines of a TIU descriptor

The encoder and the simulator tag the lines of a TIU descriptor and exchange the first and the
last; the PMU exchanges them back. The statements of the three copies are run here one after the
other on the memory of the descriptor: the loop writes one tag, and each `memcpy` one line.
-/

namespace CviRuntime.Pmu

open ByteMem Dmabuf CModel

/-! ## The statements -/

/-- `cmdbuf[(i + 128 - 8) / 8] |= (i / 128) << 4` at the bit `i` of a line. -/
def tagLine (m : Nat → UInt8) (line : Nat) : Nat → UInt8 :=
  let i := 128 * line
  let a := (i + 128 - 8) / 8
  writeBytes m a [m a ||| UInt8.ofNat ((i / 128) <<< 4)]

/-- The loop over `i`, in steps of 128 bits up to `total_bits`. -/
def tagLines (k : KernelHeaders) (m : Nat → UInt8) : Nat → UInt8 :=
  (List.range k.bdLines).foldl tagLine m

/-- The three calls of `memcpy`. -/
def swapLines (k : KernelHeaders) (m : Nat → UInt8) : Nat → UInt8 :=
  let totalBits := k.bdRegBytes * 8
  let last := (totalBits - 128) / 8
  let tmp := readBytes m last 16
  let m := writeBytes m last (readBytes m 0 16)
  writeBytes m 0 tmp

variable {k : KernelHeaders} {m : Nat → UInt8} {bytes : List UInt8}

theorem tagLine_apply (line a : Nat) :
    tagLine m line a =
      if a = 16 * line + 15 then m a ||| UInt8.ofNat (line * 16) else m a := by
  have place : (128 * line + 128 - 8) / 8 = 16 * line + 15 := by omega
  have tag : (128 * line / 128) <<< 4 = line * 16 := by simp [Nat.shiftLeft_eq]
  unfold tagLine
  rw [place, tag]
  by_cases here : a = 16 * line + 15
  · subst here
    rw [if_pos rfl, writeBytes_inside (Nat.le_refl _) (by simp)]
    simp
  · rw [if_neg here, writeBytes_outside]
    simp only [List.length_cons, List.length_nil]
    omega

/-- After `n` passes the first `n` lines have their tag. -/
theorem tagLines_apply (n a : Nat) :
    (List.range n).foldl tagLine m a =
      if a % 16 = 15 ∧ a / 16 < n then m a ||| UInt8.ofNat (a / 16 * 16) else m a := by
  induction n with
  | zero => simp
  | succ n ih =>
    rw [List.range_succ, List.foldl_append, List.foldl_cons, List.foldl_nil, tagLine_apply, ih]
    by_cases here : a = 16 * n + 15
    · have line : a / 16 = n := by omega
      have before : ¬(a % 16 = 15 ∧ a / 16 < n) := by omega
      have after : a % 16 = 15 ∧ a / 16 < n + 1 := by omega
      rw [if_pos here, if_neg before, if_pos after, line]
    · rw [if_neg here]
      by_cases before : a % 16 = 15 ∧ a / 16 < n
      · rw [if_pos before, if_pos (by omega)]
      · rw [if_neg before, if_neg (by omega)]

theorem bdRegBytes_eq (k : KernelHeaders) : k.bdRegBytes = 16 * (k.bdLines - 1) + 16 := by
  have := k.bdLines_pos
  unfold KernelHeaders.bdRegBytes
  omega

/-- Where there is only one line, the last line is the first. -/
theorem last_line (k : KernelHeaders) :
    (k.bdRegBytes * 8 - 128) / 8 = 16 * (k.bdLines - 1) := by
  have := bdRegBytes_eq k
  omega

theorem readBytes_getD {off n i : Nat} (small : i < n) :
    (readBytes m off n).getD i 0 = m (off + i) := by
  simp [readBytes, small]

theorem swapLines_apply (a : Nat) :
    swapLines k m a =
      if a < 16 then m (16 * (k.bdLines - 1) + a)
      else if 16 * (k.bdLines - 1) ≤ a ∧ a < k.bdRegBytes then m (a - 16 * (k.bdLines - 1))
      else m a := by
  have whole := bdRegBytes_eq k
  unfold swapLines
  rw [last_line]
  by_cases first : a < 16
  · rw [if_pos first, writeBytes_inside (Nat.zero_le a) (by simpa using first), Nat.sub_zero,
      readBytes_getD first]
  · rw [if_neg first, writeBytes_outside (by simp only [length_readBytes]; omega)]
    by_cases final : 16 * (k.bdLines - 1) ≤ a ∧ a < k.bdRegBytes
    · have inside : a < 16 * (k.bdLines - 1) + (readBytes m 0 16).length := by
        rw [length_readBytes]
        omega
      have small : a - 16 * (k.bdLines - 1) < 16 := by omega
      rw [if_pos final, writeBytes_inside final.1 inside, readBytes_getD small, Nat.zero_add]
    · rw [if_neg final, writeBytes_outside]
      rw [length_readBytes]
      omega

/-- Exchanging the lines twice changes nothing, also where the two are one. -/
theorem swapLines_swapLines : swapLines k (swapLines k m) = m := by
  have whole := bdRegBytes_eq k
  funext a
  simp only [swapLines_apply]
  by_cases first : a < 16
  · rw [if_pos first]
    by_cases one : k.bdLines - 1 = 0
    · simp [one, first]
    · rw [if_neg (by omega), if_pos (by omega), Nat.add_sub_cancel_left]
  · rw [if_neg first]
    by_cases final : 16 * (k.bdLines - 1) ≤ a ∧ a < k.bdRegBytes
    · have back : 16 * (k.bdLines - 1) + (a - 16 * (k.bdLines - 1)) = a := by omega
      rw [if_pos final, if_pos (by omega), back]
    · rw [if_neg final, if_neg first, if_neg final]

/-! ## The functions are their statements -/

theorem reorderBackTiuCmdbufReg_readBytes :
    reorderBackTiuCmdbufReg k (readBytes m 0 k.bdRegBytes) =
      readBytes (swapLines k m) 0 k.bdRegBytes := by
  have whole := bdRegBytes_eq k
  apply List.ext_getElem
  · simp [reorderBackTiuCmdbufReg]
  · intro i _ inside
    have small : i < k.bdRegBytes := by simpa using inside
    have last : k.bdRegBytes - 16 = 16 * (k.bdLines - 1) := by omega
    simp only [reorderBackTiuCmdbufReg, List.getElem_mapIdx, last]
    have right : (readBytes (swapLines k m) 0 k.bdRegBytes)[i] = swapLines k m i := by
      simp [readBytes]
    rw [right, swapLines_apply]
    by_cases first : i < 16
    · rw [if_pos first, if_pos first, readBytes_getD (by omega), Nat.zero_add]
    · rw [if_neg first, if_neg first]
      by_cases final : 16 * (k.bdLines - 1) ≤ i
      · rw [if_pos final, if_pos ⟨final, small⟩, readBytes_getD (by omega), Nat.zero_add]
      · rw [if_neg final, if_neg (fun h => final h.1)]
        simp [readBytes]

/-- The tags, then the exchange of `reorder_back_tiu_cmdbuf_reg`: its text is the end of that of
    `reorder_bd_cmdbuf_reg`. -/
theorem reorderBdCmdbufReg_readBytes :
    reorderBdCmdbufReg k (readBytes m 0 k.bdRegBytes) =
      readBytes (swapLines k (tagLines k m)) 0 k.bdRegBytes := by
  have tagged : (readBytes m 0 k.bdRegBytes).mapIdx (fun i byte =>
      if i % 16 = 15 then byte ||| UInt8.ofNat (i / 16 * 16) else byte) =
      readBytes (tagLines k m) 0 k.bdRegBytes := by
    apply List.ext_getElem
    · simp
    · intro i _ inside
      have small : i / 16 < k.bdLines := by
        have : i < k.bdRegBytes := by simpa using inside
        unfold KernelHeaders.bdRegBytes at this
        omega
      simp [readBytes, tagLines, tagLines_apply, small]
  rw [← reorderBackTiuCmdbufReg_readBytes, ← tagged]
  rfl

/-! ## There and back -/

/-- The bytes of a descriptor, put into a memory. -/
theorem exists_readBytes (whole : bytes.length = k.bdRegBytes) :
    ∃ m, readBytes m 0 k.bdRegBytes = bytes :=
  ⟨writeBytes (fun _ => 0) 0 bytes, whole ▸ readBytes_writeBytes⟩

theorem reorderBack_reorderBd (whole : bytes.length = k.bdRegBytes) :
    ∃ m, readBytes m 0 k.bdRegBytes = bytes ∧
      reorderBackTiuCmdbufReg k (reorderBdCmdbufReg k bytes) =
        readBytes (tagLines k m) 0 k.bdRegBytes := by
  obtain ⟨m, rfl⟩ := exists_readBytes whole
  refine ⟨m, rfl, ?_⟩
  rw [reorderBdCmdbufReg_readBytes, reorderBackTiuCmdbufReg_readBytes, swapLines_swapLines]

/-- The body with the number of each line, four bits up, in the last byte of the line. -/
structure Numbered (k : KernelHeaders) (bytes back : List UInt8) : Prop where
  length : back.length = bytes.length
  last : ∀ line < k.bdLines, back.getD (16 * line + 15) 0 =
    bytes.getD (16 * line + 15) 0 ||| UInt8.ofNat ((line <<< 4) % 256)
  other : ∀ line < k.bdLines, ∀ j < 15,
    back.getD (16 * line + j) 0 = bytes.getD (16 * line + j) 0

theorem numbered_tagLines :
    Numbered k (readBytes m 0 k.bdRegBytes) (readBytes (tagLines k m) 0 k.bdRegBytes) where
  length := by simp
  last line small := by
    have inside : 16 * line + 15 < k.bdRegBytes := by
      unfold KernelHeaders.bdRegBytes
      omega
    have number : (16 * line + 15) / 16 = line := by omega
    have wrapped : UInt8.ofNat ((line <<< 4) % 256) = UInt8.ofNat (line * 16) := by
      rw [Nat.shiftLeft_eq]
      exact UInt8.toNat_inj.mp (by simp)
    rw [readBytes_getD inside, readBytes_getD inside, Nat.zero_add, tagLines, tagLines_apply,
      if_pos ⟨by omega, by omega⟩, number, wrapped]
  other line small j below := by
    have inside : 16 * line + j < k.bdRegBytes := by
      unfold KernelHeaders.bdRegBytes
      omega
    rw [readBytes_getD inside, readBytes_getD inside, Nat.zero_add, tagLines, tagLines_apply,
      if_neg (by omega)]

/-- The PMU reads every descriptor as it was, but for the numbers of the lines. The simulator's
    headers have to give a descriptor the size that the driver's give it. -/
theorem reorderBack_numbers (k : KernelHeaders) (regs : RegFields) (bytes : List UInt8)
    (desc : regs.tiuDescRegBytes = k.bdRegBytes) (whole : bytes.length = k.bdRegBytes) :
    Numbered k bytes (reorderBackTiuCmdbufReg k (reorderBdCmdbufReg k bytes)) ∧
      Numbered k bytes (reorderBackTiuCmdbufReg k (reorderTiuCmdbufReg regs bytes)) := by
  obtain ⟨m, rfl, back⟩ := reorderBack_reorderBd whole
  have bd : Numbered k (readBytes m 0 k.bdRegBytes)
      (reorderBackTiuCmdbufReg k (reorderBdCmdbufReg k (readBytes m 0 k.bdRegBytes))) := by
    rw [back]
    exact numbered_tagLines
  refine ⟨bd, ?_⟩
  rw [reorderTiuCmdbufReg_eq desc]
  exact bd

theorem reorderBack_numbers_zero :
    Numbered kernel1822 (List.replicate 112 0) (reorderBackTiuCmdbufReg kernel1822
        (reorderBdCmdbufReg kernel1822 (List.replicate 112 0))) ∧
      Numbered kernel1822 (List.replicate 112 0) (reorderBackTiuCmdbufReg kernel1822
        (reorderTiuCmdbufReg regs1822 (List.replicate 112 0))) :=
  reorderBack_numbers kernel1822 regs1822 (List.replicate 112 0) rfl rfl

end CviRuntime.Pmu
