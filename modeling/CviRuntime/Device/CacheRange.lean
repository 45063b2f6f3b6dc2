import Mathlib.Data.Nat.Bitwise

/-!
# Cache maintenance (`src/soc/common/cvi_device_mem.cpp`)

`mem_flush_ext` and `mem_invld_ext` round a range to lines of 64 bytes for the driver. Address and
size are rounded each for itself, and a range that does not begin on a line gets one line more. That
line is needed only when the odd bytes at the two ends do not fit into one line.
-/

namespace CviRuntime.CacheRange

/-- `bm_cache_op_arg` (`bm_npu_ioctl.h:17-21`). -/
structure BmCacheOpArg where
  paddr : UInt64
  size : UInt64
  dmaFd : Int32
  deriving DecidableEq, Repr

/-- `CVITPU_DMABUF_FLUSH` and `CVITPU_DMABUF_INVLD`. -/
inductive Request where
  | flush
  | invld
  deriving DecidableEq, Repr

/-- `ALIGN` (`cvi_device_mem.cpp:49-50`). -/
def align (x a : UInt64) : UInt64 := (x + (a - 1)) &&& ~~~(a - 1)

/-- The argument that both functions hand to the driver (`cvi_device_mem.cpp:55-69`, `:89-103`). -/
def cacheOpArg (globalMemStartAddr : UInt64) (dmaFd : Int32) (paddr size : UInt64) :
    BmCacheOpArg :=
  let arg : BmCacheOpArg := ⟨paddr + globalMemStartAddr, size, dmaFd⟩
  let addrNew := align arg.paddr 0x40
  let arg := { arg with size := align arg.size 0x40 }
  if addrNew ≠ arg.paddr then { arg with size := arg.size + 0x40, paddr := addrNew - 0x40 }
  else arg

/-- The loop of tries, with `left` of them left from the `i`-th on: the calls of `ioctl`, whose
    result is `ioctl i`, and whether the last returned 0. -/
def tries (request : Request) (arg : BmCacheOpArg) (ioctl : Nat → Int32) :
    Nat → Nat → List (Request × BmCacheOpArg) × Bool
  | 0, _ => ([], false)
  | left + 1, i =>
    if ioctl i ≠ 0 then
      let (calls, ok) := tries request arg ioctl left (i + 1)
      ((request, arg) :: calls, ok)
    else ([(request, arg)], true)

section

variable (globalMemStartAddr : UInt64) (ioctl : Nat → Int32) (dmaFd : Int32)
variable (paddr size : UInt64)

/-- `mem_flush_ext` (`cvi_device_mem.cpp:52-84`). -/
def memFlushExt : List (Request × BmCacheOpArg) × Bool :=
  tries .flush (cacheOpArg globalMemStartAddr dmaFd paddr size) ioctl 3 0

/-- `mem_invld_ext` (`cvi_device_mem.cpp:86-118`). -/
def memInvldExt : List (Request × BmCacheOpArg) × Bool :=
  tries .invld (cacheOpArg globalMemStartAddr dmaFd paddr size) ioctl 3 0

end

/-! ## The range the driver should get -/

/-- A byte in the range of a request. -/
def BmCacheOpArg.Touches (arg : BmCacheOpArg) (a : Nat) : Prop :=
  arg.paddr.toNat ≤ a ∧ a < arg.paddr.toNat + arg.size.toNat

/-- Whole lines, and among them those of the `size` bytes from `first` on. -/
structure Covers (first size : Nat) (arg : BmCacheOpArg) : Prop where
  startAligned : 64 ∣ arg.paddr.toNat
  endAligned : 64 ∣ arg.paddr.toNat + arg.size.toNat
  covers : ∀ a, first ≤ a → a < first + size → arg.Touches a

/-- No line without one of the bytes. -/
structure ExactLines (first size : Nat) (arg : BmCacheOpArg) : Prop
    extends Covers first size arg where
  needed : ∀ line, arg.Touches (64 * line) → ∃ a, first ≤ a ∧ a < first + size ∧ a / 64 = line

/-! ## Rounding -/

/-- Clearing the low six bits. -/
theorem toNat_clear (y : BitVec 64) : (y &&& ~~~63#64).toNat = y.toNat / 64 * 64 := by
  have parts : (y &&& 63#64) + (y &&& ~~~63#64) = y := by
    rw [BitVec.add_eq_or_of_and_eq_zero]
    · ext i
      simp only [BitVec.getElem_or, BitVec.getElem_and, BitVec.getElem_not]
      cases y[i] <;> simp
    · ext i
      simp only [BitVec.getElem_and, BitVec.getElem_not]
      cases y[i] <;> simp
  have low : (y &&& 63#64).toNat = y.toNat % 64 := by
    rw [BitVec.toNat_and]
    exact Nat.and_two_pow_sub_one_eq_mod y.toNat 6
  have sum := congrArg BitVec.toNat parts
  rw [BitVec.toNat_add, low] at sum
  have := y.isLt
  have := (y &&& ~~~63#64).isLt
  omega

theorem align_toNat {x : UInt64} (room : x.toNat + 63 < 2 ^ 64) :
    (align x 0x40).toNat = (x.toNat + 63) / 64 * 64 := by
  have sum : (x + 63).toNat = x.toNat + 63 := by
    rw [UInt64.toNat_add]
    exact Nat.mod_eq_of_lt room
  calc (align x 0x40).toNat = (x + 63).toNat / 64 * 64 := toNat_clear (x + 63).toBitVec
    _ = (x.toNat + 63) / 64 * 64 := by rw [sum]

section

variable {start paddr size : UInt64} {dmaFd : Int32} {first : Nat}

/-- The range begins with the line of the first byte. -/
theorem cacheOpArg_paddr (size : UInt64) (dmaFd : Int32)
    (begins : first = paddr.toNat + start.toNat) (room : first + 128 < 2 ^ 64) :
    (cacheOpArg start dmaFd paddr size).paddr.toNat = first / 64 * 64 := by
  have sum : (paddr + start).toNat = first := by
    rw [UInt64.toNat_add, ← begins]
    omega
  have up := align_toNat (x := paddr + start) (by omega)
  unfold cacheOpArg
  by_cases same : align (paddr + start) 0x40 = paddr + start
  · rw [if_neg (by simpa using same)]
    rw [same] at up
    dsimp only
    omega
  · have differ : (align (paddr + start) 0x40).toNat ≠ (paddr + start).toNat :=
      fun h => same (UInt64.toNat_inj.mp h)
    rw [if_pos same]
    dsimp only
    rw [UInt64.toNat_sub_of_le]
    · change (align (paddr + start) 0x40).toNat - 64 = _
      omega
    · rw [UInt64.le_iff_toNat_le]
      change 64 ≤ _
      omega

/-- One line more than the size fills, unless the first byte begins a line. -/
theorem cacheOpArg_size (dmaFd : Int32) (begins : first = paddr.toNat + start.toNat)
    (room : first + size.toNat + 128 < 2 ^ 64) :
    (cacheOpArg start dmaFd paddr size).size.toNat =
      (size.toNat + 63) / 64 * 64 + if first % 64 = 0 then 0 else 64 := by
  have sum : (paddr + start).toNat = first := by
    rw [UInt64.toNat_add, ← begins]
    omega
  have up := align_toNat (x := paddr + start) (by omega)
  have long := align_toNat (x := size) (by omega)
  unfold cacheOpArg
  by_cases same : align (paddr + start) 0x40 = paddr + start
  · have onLine : first % 64 = 0 := by
      rw [same] at up
      omega
    rw [if_neg (by simpa using same), if_pos onLine]
    exact long
  · have differ : (align (paddr + start) 0x40).toNat ≠ (paddr + start).toNat :=
      fun h => same (UInt64.toNat_inj.mp h)
    have inside : ¬first % 64 = 0 := by omega
    rw [if_pos same, if_neg inside]
    dsimp only
    rw [UInt64.toNat_add, long]
    change ((size.toNat + 63) / 64 * 64 + 64) % 2 ^ 64 = _
    omega

/-- What is flushed or invalidated is always enough. -/
theorem cacheOpArg_covers (begins : first = paddr.toNat + start.toNat)
    (room : first + size.toNat + 128 < 2 ^ 64) :
    Covers first size.toNat (cacheOpArg start dmaFd paddr size) := by
  have low := cacheOpArg_paddr size dmaFd begins (by omega)
  have len := cacheOpArg_size dmaFd begins room
  refine ⟨?_, ?_, ?_⟩
  · omega
  · rw [low, len]
    split <;> omega
  · intro a above below
    unfold BmCacheOpArg.Touches
    rw [low, len]
    split <;> omega

/-- The last line is needed when the bytes of the first line before the range, and those of the
    last line inside, are more than a line together. -/
theorem cacheOpArg_exact_iff (begins : first = paddr.toNat + start.toNat)
    (nonempty : 0 < size.toNat) (room : first + size.toNat + 128 < 2 ^ 64) :
    ExactLines first size.toNat (cacheOpArg start dmaFd paddr size) ↔
      first % 64 = 0 ∨ 64 < first % 64 + ((size.toNat - 1) % 64 + 1) := by
  have low := cacheOpArg_paddr size dmaFd begins (by omega)
  have len := cacheOpArg_size dmaFd begins room
  constructor
  · intro exact
    by_cases onLine : first % 64 = 0
    · exact .inl onLine
    · right
      -- the last line of the range
      have last := exact.needed (first / 64 + (size.toNat + 63) / 64) (by
        unfold BmCacheOpArg.Touches
        rw [low, len, if_neg onLine]
        omega)
      obtain ⟨a, above, below, onLine⟩ := last
      omega
  · intro fits
    refine ⟨cacheOpArg_covers begins room, ?_⟩
    intro line touched
    unfold BmCacheOpArg.Touches at touched
    rw [low, len] at touched
    by_cases early : 64 * line ≤ first
    · exact ⟨first, Nat.le_refl _, by omega, by omega⟩
    · refine ⟨64 * line, by omega, ?_, by omega⟩
      split at touched <;> omega

end

/-! ## The calls -/

variable {request : Request} {arg : BmCacheOpArg} {ioctl : Nat → Int32}

/-- Every try passes the same argument, and there is at least one. -/
theorem tries_calls (request : Request) (arg : BmCacheOpArg) (ioctl : Nat → Int32)
    (left i : Nat) :
    ∃ n, (tries request arg ioctl (left + 1) i).1 = List.replicate (n + 1) (request, arg) := by
  induction left generalizing i with
  | zero =>
    refine ⟨0, ?_⟩
    unfold tries
    split <;> rfl
  | succ left ih =>
    rw [tries]
    split
    · obtain ⟨n, calls⟩ := ih (i + 1)
      refine ⟨n + 1, ?_⟩
      rw [List.replicate_succ, ← calls]
    · exact ⟨0, rfl⟩

theorem forall_tries (P : BmCacheOpArg → Prop) (left i : Nat) :
    (∀ call ∈ (tries request arg ioctl (left + 1) i).1, P call.2) ↔ P arg := by
  obtain ⟨n, calls⟩ := tries_calls request arg ioctl left i
  rw [calls]
  simp

/-- Whatever the driver answers, the lines passed to it are those of the range, none more, exactly
    when the range begins on a line or its odd ends do not fit into one. -/
theorem memExt_exactLines_iff (globalMemStartAddr : UInt64) (ioctl : Nat → Int32) (dmaFd : Int32)
    (paddr size : UInt64) (nonempty : 1 ≤ size.toNat)
    (room : paddr.toNat + globalMemStartAddr.toNat + size.toNat + 128 < 2 ^ 64) :
    ((∀ call ∈ (memFlushExt globalMemStartAddr ioctl dmaFd paddr size).1,
        ExactLines (paddr.toNat + globalMemStartAddr.toNat) size.toNat call.2) ∧
      ∀ call ∈ (memInvldExt globalMemStartAddr ioctl dmaFd paddr size).1,
        ExactLines (paddr.toNat + globalMemStartAddr.toNat) size.toNat call.2) ↔
    ((paddr.toNat + globalMemStartAddr.toNat) % 64 = 0 ∨
      64 < (paddr.toNat + globalMemStartAddr.toNat) % 64 + ((size.toNat - 1) % 64 + 1)) := by
  unfold memFlushExt memInvldExt
  rw [forall_tries, forall_tries, and_self]
  exact cacheOpArg_exact_iff rfl nonempty room

theorem memExt_exactLines_iff_aligned :
    ((∀ call ∈ (memFlushExt 0 (fun _ => 0) 3 4096 100).1, ExactLines 4096 100 call.2) ∧
      ∀ call ∈ (memInvldExt 0 (fun _ => 0) 3 4096 100).1, ExactLines 4096 100 call.2) ↔
    (4096 % 64 = 0 ∨ 64 < 4096 % 64 + ((100 - 1) % 64 + 1)) :=
  memExt_exactLines_iff 0 (fun _ => 0) 3 4096 100 (by decide) (by decide)

/-- A single byte in the middle of a line: the line after it is invalidated too. -/
theorem memInvldExt_not_exact :
    ¬((∀ call ∈ (memFlushExt 0 (fun _ => 0) 3 4097 1).1, ExactLines 4097 1 call.2) ∧
      ∀ call ∈ (memInvldExt 0 (fun _ => 0) 3 4097 1).1, ExactLines 4097 1 call.2) := by
  intro both
  have request : (.invld, ⟨4096, 128, 3⟩) ∈ (memInvldExt 0 (fun _ => 0) 3 4097 1).1 := by decide
  obtain ⟨a, above, below, onLine⟩ := (both.2 _ request).needed 65 ⟨by decide, by decide⟩
  omega

end CviRuntime.CacheRange
