import CviRuntime.Kernel.FrameFeed
import CviRuntime.Lib.BlockFill

/-!
# What one preload does

The commands take rows out of a padded buffer and put them one behind the other. A preload that
returns success has done that, unless it never had a command to run: then it returns success too,
and nothing has happened.
-/

namespace CviRuntime.Kernel

open CviRuntime.BlockFill
open CviRuntime.Runtime (Platform toU32 cviRcSuccess preloadFrameSize preloadShape)

/-- Planes of rows of `width` bytes; in the source a row every `stride` bytes. -/
structure PaddedRows where
  planes : Nat
  rows : Nat
  width : Nat
  stride : Nat

namespace PaddedRows

variable (p : PaddedRows)

/-- The size without and with the padding. -/
def bytes : Nat := p.planes * p.rows * p.width

def padded : Nat := p.planes * p.rows * p.stride

/-- Byte `o` of the rows one behind the other. -/
def value (src : Nat) (mem : Mem) (o : Nat) : UInt8 :=
  mem (src + o / p.width * p.stride + o % p.width)

/-- The command copies these rows. -/
structure Encodes (cmdbuf : CopyCmdbuf) : Prop where
  srcReg : cmdbuf.src.baseRegIndex = 2
  srcStart : cmdbuf.src.startAddress = 0
  dstReg : cmdbuf.dst.baseRegIndex = 3
  dstStart : cmdbuf.dst.startAddress = 0
  shape : cmdbuf.dst.shape = ⟨1, p.planes, p.rows, p.width⟩
  byte : cmdbuf.dst.fmt.bytes = 1
  src : ∀ index : TgIndex, index.In cmdbuf.dst.shape cmdbuf.dst.fmt →
    cmdbuf.src.stride.offset index = (index.j * p.rows + index.k) * p.stride + index.x
  dst : ∀ index : TgIndex, index.In cmdbuf.dst.shape cmdbuf.dst.fmt →
    cmdbuf.dst.stride.offset index = (index.j * p.rows + index.k) * p.width + index.x

/-- A row is no longer than the step to the next one. -/
def Wide : Prop := 0 < p.width ∧ p.width ≤ p.stride

end PaddedRows

section

variable {ops : CopyOps} {platform : Platform} {p : PaddedRows} {cmdbuf : CopyCmdbuf}
  {src dst : Nat} {mem : Mem}

/-- The rows that `o` bytes reach lie in the padded buffer. -/
theorem PaddedRows.value_inside (wide : p.Wide) {o : Nat} (less : o < p.bytes) :
    o / p.width * p.stride + o % p.width < p.padded := by
  have row : o / p.width < p.planes * p.rows := (Nat.div_lt_iff_lt_mul wide.1).mpr less
  exact mul_add_lt row (Nat.lt_of_lt_of_le (Nat.mod_lt _ wide.1) wide.2)

theorem PaddedRows.Encodes.width_eq (encodes : p.Encodes cmdbuf) :
    cmdbuf.dst.shape.w * cmdbuf.dst.fmt.bytes = p.width := by
  rw [encodes.byte, Nat.mul_one, encodes.shape]

/-- The place of a byte in the destination says which row it belongs to. -/
theorem PaddedRows.Encodes.place (encodes : p.Encodes cmdbuf) (wide : p.Wide) {index : TgIndex}
    (inside : index.In cmdbuf.dst.shape cmdbuf.dst.fmt) :
    cmdbuf.dst.stride.offset index < p.bytes ∧
      cmdbuf.dst.stride.offset index / p.width = index.j * p.rows + index.k ∧
      cmdbuf.dst.stride.offset index % p.width = index.x := by
  rw [encodes.dst index inside]
  obtain ⟨-, plane, row, byte⟩ := inside
  rw [encodes.width_eq] at byte
  rw [encodes.shape] at plane row
  refine ⟨mul_add_lt (mul_add_lt plane row) byte, ?_, ?_⟩
  · rw [Nat.mul_comm, Nat.mul_add_div wide.1, Nat.div_eq_of_lt byte, Nat.add_zero]
  · rw [Nat.mul_comm, Nat.mul_add_mod, Nat.mod_eq_of_lt byte]

/-- Every byte of the rows has an index. -/
theorem PaddedRows.Encodes.find (encodes : p.Encodes cmdbuf) (wide : p.Wide) {o : Nat}
    (less : o < p.bytes) :
    ∃ index : TgIndex, index.In cmdbuf.dst.shape cmdbuf.dst.fmt ∧
      cmdbuf.dst.stride.offset index = o := by
  have row : o / p.width < cmdbuf.dst.shape.n * cmdbuf.dst.shape.c * cmdbuf.dst.shape.h := by
    rw [encodes.shape, Nat.one_mul]
    exact (Nat.div_lt_iff_lt_mul wide.1).mpr less
  have byte : o % p.width < cmdbuf.dst.shape.w * cmdbuf.dst.fmt.bytes := by
    rw [encodes.width_eq]
    exact Nat.mod_lt _ wide.1
  obtain ⟨index, inside, isRow, isByte⟩ := exists_index row byte
  refine ⟨index, inside, ?_⟩
  have first : index.i = 0 := by
    have below := inside.1
    rw [encodes.shape] at below
    exact Nat.lt_one_iff.mp below
  rw [TgIndex.row, first, encodes.shape, Nat.zero_mul, Nat.zero_add] at isRow
  rw [encodes.dst index inside, isRow, isByte, Nat.div_add_mod']

/-- The registers of a run. -/
theorem PaddedRows.Encodes.addresses (encodes : p.Encodes cmdbuf)
    (reached : platform = .cmodel ∨ src < 2 ^ 32 ∧ dst < 2 ^ 32) (index : TgIndex) :
    (cmdbuf.src.address (fun register => if register = 2 then baseRegister platform src
      else if register = 3 then baseRegister platform dst else 0) index =
        src + cmdbuf.src.stride.offset index) ∧
    cmdbuf.dst.address (fun register => if register = 2 then baseRegister platform src
      else if register = 3 then baseRegister platform dst else 0) index =
        dst + cmdbuf.dst.stride.offset index := by
  have srcFull : baseRegister platform src = src :=
    (baseRegister_eq_iff src).mpr (reached.imp_right And.left)
  have dstFull : baseRegister platform dst = dst :=
    (baseRegister_eq_iff dst).mpr (reached.imp_right And.right)
  constructor
  · rw [Tg.address, encodes.srcReg, encodes.srcStart, if_pos rfl, srcFull, Nat.add_zero]
  · rw [Tg.address, encodes.dstReg, encodes.dstStart, if_neg (by decide), if_pos rfl, dstFull,
      Nat.add_zero]

/-- What the engine does for such a command. -/
theorem PaddedRows.Encodes.execute (encodes : p.Encodes cmdbuf) (lawful : ops.Lawful)
    (wide : p.Wide) (reached : platform = .cmodel ∨ src < 2 ^ 32 ∧ dst < 2 ^ 32) (mem : Mem) :
    Puts dst p.bytes (p.value src) mem
      (runtimeExecuteKernelFunction ops platform cmdbuf src dst mem) := by
  have copies := lawful.copies cmdbuf.src cmdbuf.dst
    (fun register => if register = 2 then baseRegister platform src
      else if register = 3 then baseRegister platform dst else 0) mem
  constructor
  · intro o less
    rcases copies (dst + o) with ⟨index, inside, address, copied⟩ | ⟨outside, -⟩
    · rw [(encodes.addresses reached index).2] at address
      obtain ⟨-, row, byte⟩ := encodes.place wide inside
      rw [← Nat.add_left_cancel address] at row byte
      rw [runtimeExecuteKernelFunction, copied, (encodes.addresses reached index).1,
        encodes.src index inside, PaddedRows.value, row, byte, Nat.add_assoc]
    · obtain ⟨index, inside, rfl⟩ := encodes.find wide less
      exact absurd (encodes.addresses reached index).2.symm (outside index inside)
  · intro a outside
    rcases copies a with ⟨index, inside, address, -⟩ | ⟨-, kept⟩
    · have less := (encodes.place wide inside).1
      rw [(encodes.addresses reached index).2] at address
      omega
    · exact kept

/-- The rows of a source that is apart do not depend on what is in the region. -/
theorem PaddedRows.reads (wide : p.Wide) {region size : Nat}
    (apart : src + p.padded ≤ region ∨ region + size ≤ src) :
    Reads region size p.bytes (p.value src) := by
  intro m m' agree o less
  have inside := p.value_inside wide less
  exact agree _ (by omega)

/-! ## The retry loop -/

/-- A run that fails writes nothing but the bytes that it was to copy. -/
def Round.Confined (dst size : Nat) (round : Round) : Prop :=
  ∀ mem, AgreeOutside dst size mem (round.left mem)

/-- No command but `make` is kept. -/
def OnlyCaches (make : CopyCmdbuf) (cmdbuf : Option CopyCmdbuf) : Prop :=
  ∀ codeBuf, cmdbuf = some codeBuf → codeBuf = make

theorem onlyCaches_none (make : CopyCmdbuf) : OnlyCaches make none := fun _ none => nomatch none

section

variable {make codeBuf : CopyCmdbuf} {cmdbuf : Option CopyCmdbuf} {round : Round}

/-- The command of a round is the right one. -/
theorem OnlyCaches.found (cached : OnlyCaches make cmdbuf)
    (found : (cmdbuf <|> if round.jit then some make else none) = some codeBuf) :
    codeBuf = make := by
  cases known : cmdbuf with
  | some other =>
    rw [known] at found
    exact cached codeBuf (known.trans found)
  | none =>
    rw [known] at found
    cases jit : round.jit
    · rw [jit] at found
      exact nomatch found
    · rw [jit] at found
      exact (Option.some.inj found).symm

/-- A round has no command when there was none and none is generated. -/
theorem found_none_iff :
    (cmdbuf <|> if round.jit then some make else none) = none ↔
      cmdbuf = none ∧ round.jit = false := by
  cases cmdbuf <;> cases round.jit <;> simp

theorem preloadLoop_caches {ops : CopyOps} {platform : Platform} {src dst : Nat}
    (rounds : List Round) {ret : Int} {cmdbuf : Option CopyCmdbuf}
    (cached : OnlyCaches make cmdbuf) (mem : Mem) :
    OnlyCaches make (preloadLoop ops platform make src dst rounds ret cmdbuf mem).2.1 := by
  induction rounds generalizing ret cmdbuf mem with
  | nil => exact cached
  | cons round rounds ih =>
    cases found : cmdbuf <|> if round.jit then some make else none with
    | none =>
      simp only [preloadLoop, found]
      exact ih (onlyCaches_none make) mem
    | some codeBuf =>
      have same := cached.found found
      simp only [preloadLoop, found]
      split
      · exact ih (onlyCaches_none make) _
      · intro other isOther
        rw [← same]
        exact (Option.some.inj isOther).symm

end

/-- How the loop ends: only the region changes, and success after a failed run, with a command to
    begin with or with one that was generated means that a run has succeeded. -/
structure LoopEnds (dst size : Nat) (value : Mem → Nat → UInt8)
    (rounds : List Round) (ret : Int) (cmdbuf : Option CopyCmdbuf) (mem : Mem)
    (ended : Int × Option CopyCmdbuf × Mem) : Prop where
  outside : AgreeOutside dst size mem ended.2.2
  success : ended.1 = cviRcSuccess →
    (ret ≠ cviRcSuccess ∨ cmdbuf ≠ none ∧ rounds ≠ [] ∨ ∃ round ∈ rounds, round.jit = true) →
    ended.2.1 ≠ none ∧ Puts dst size value mem ended.2.2

theorem preloadLoop_ends {make : CopyCmdbuf} (encodes : p.Encodes make) (lawful : ops.Lawful)
    (wide : p.Wide) (reached : platform = .cmodel ∨ src < 2 ^ 32 ∧ dst < 2 ^ 32)
    (apart : src + p.padded ≤ dst ∨ dst + p.bytes ≤ src) {rounds : List Round}
    (confined : ∀ round ∈ rounds, round.Confined dst p.bytes) (ret : Int)
    {cmdbuf : Option CopyCmdbuf} (cached : OnlyCaches make cmdbuf) (mem : Mem) :
    LoopEnds dst p.bytes (p.value src) rounds ret cmdbuf mem
      (preloadLoop ops platform make src dst rounds ret cmdbuf mem) := by
  induction rounds generalizing ret cmdbuf mem with
  | nil =>
    refine ⟨AgreeOutside.refl _ _ _, ?_⟩
    rintro success (failed | ⟨-, some⟩ | ⟨round, none, -⟩)
    · exact absurd success failed
    · exact absurd rfl some
    · exact absurd none List.not_mem_nil
  | cons round rounds ih =>
    have later : ∀ round ∈ rounds, round.Confined dst p.bytes :=
      fun round mem => confined round (List.mem_cons_of_mem _ mem)
    cases found : cmdbuf <|> if round.jit then some make else none with
    | none =>
      -- A round without a command: `continue`.
      obtain ⟨rfl, idle⟩ := found_none_iff.mp found
      have ends := ih later ret (onlyCaches_none make) mem
      simp only [preloadLoop, found]
      refine ⟨ends.outside, ?_⟩
      rintro success (failed | ⟨none, -⟩ | ⟨other, isRound, jit⟩)
      · exact ends.success success (.inl failed)
      · exact absurd rfl none
      · rcases List.mem_cons.mp isRound with rfl | isLater
        · exact absurd jit (by rw [idle]; decide)
        · exact ends.success success (.inr (.inr ⟨other, isLater, jit⟩))
    | some codeBuf =>
      obtain rfl := cached.found found
      simp only [preloadLoop, found]
      split
      · -- The command is freed, and what the failed run has written will be written again.
        rename_i failed
        have ends := ih later round.run (onlyCaches_none _) (round.left mem)
        have agree := confined round List.mem_cons_self mem
        refine ⟨agree.trans ends.outside, ?_⟩
        intro success _
        obtain ⟨kept, puts⟩ := ends.success success (.inl failed)
        exact ⟨kept, puts.of_agree agree (PaddedRows.reads wide apart)⟩
      · have puts := encodes.execute lawful wide reached mem
        exact ⟨puts.outside, fun _ _ => ⟨Option.some_ne_none _, puts⟩⟩

/-- Without a command nothing happens, and `ret` stays. -/
theorem preloadLoop_idle {make : CopyCmdbuf} {rounds : List Round}
    (idle : ∀ round ∈ rounds, round.jit = false) (ret : Int) (mem : Mem) :
    preloadLoop ops platform make src dst rounds ret none mem = (ret, none, mem) := by
  induction rounds with
  | nil => rfl
  | cons round rounds ih =>
    have first := idle round List.mem_cons_self
    rw [preloadLoop, first]
    exact ih fun round mem => idle round (List.mem_cons_of_mem _ mem)

end

/-! ## The commands of a neuron -/

namespace FrameNeuron

/-- The dimensions are positive and their product, an `int`, does not overflow, and an image with
    padded rows has less than 4 GiB. -/
structure Valid (n : FrameNeuron) : Prop where
  nPos : 0 < n.shape.n
  cPos : 0 < n.shape.c
  hPos : 0 < n.shape.h
  wPos : 0 < n.shape.w
  inRange : n.shape.n * (n.shape.c * n.shape.h * n.shape.w) < 2 ^ 31
  alignPos : 0 < n.geometry.vpssWAlign
  padded : (n.planes * n.rows : Int) * Runtime.alignUp n.width n.geometry.vpssWAlign < 2 ^ 32

/-- The bytes of an image. -/
def imageBytes (n : FrameNeuron) : Nat := n.shape.c * n.shape.h * n.shape.w

/-- A channel, or an image with all its channels in one row. -/
def channelRows (n : FrameNeuron) : PaddedRows := ⟨1, n.rows, n.width, n.hstride⟩

def imageRows (n : FrameNeuron) : PaddedRows := ⟨n.planes, n.rows, n.width, n.hstride⟩

/-- A frame of an aligned tensor. -/
def frameRows (n : FrameNeuron) : PaddedRows :=
  ⟨1, (preloadShape n.geometry n.shape.n).1, (preloadShape n.geometry n.shape.n).2,
    (preloadShape n.geometry n.shape.n).2⟩

variable {n : FrameNeuron}

theorem imageBytes_lt (valid : n.Valid) : n.imageBytes < 2 ^ 31 :=
  (Nat.le_mul_of_pos_left _ valid.nPos).trans_lt valid.inRange

theorem packed_width_lt (valid : n.Valid) : n.shape.h * n.shape.w < 2 ^ 31 := by
  have image := imageBytes_lt valid
  rw [imageBytes, Nat.mul_assoc] at image
  exact (Nat.le_mul_of_pos_left _ valid.cPos).trans_lt image

/-- The rows are those of the image. -/
theorem planes_rows_width (valid : n.Valid) : n.planes * n.rows * n.width = n.imageBytes := by
  rw [planes, rows, width, imageBytes]
  split
  · have small := packed_width_lt valid
    rw [Nat.mod_eq_of_lt (by omega), Nat.one_mul, Nat.mul_assoc]
  · rfl

theorem planes_pos (valid : n.Valid) : 0 < n.planes := by
  rw [planes]
  split
  · exact Nat.one_pos
  · exact valid.cPos

theorem rows_pos (valid : n.Valid) : 0 < n.rows := by
  rw [rows]
  split
  · exact valid.cPos
  · exact valid.hPos

theorem width_pos (valid : n.Valid) : 0 < n.width := by
  rw [width]
  split
  · have small := packed_width_lt valid
    rw [Nat.mod_eq_of_lt (by omega)]
    exact Nat.mul_pos valid.hPos valid.wPos
  · exact valid.wPos

/-- `hstride` is the width rounded up. -/
theorem hstride_eq (valid : n.Valid) :
    (n.hstride : Int) = Runtime.alignUp n.width n.geometry.vpssWAlign := by
  have wide := Runtime.le_alignUp (Int.natCast_nonneg n.width) valid.alignPos
  have planesRows : (1 : Int) ≤ n.planes * n.rows := by
    exact_mod_cast Nat.mul_pos (planes_pos valid) (rows_pos valid)
  have small := (le_mul_of_one_le_left (Int.le_trans (Int.natCast_nonneg _) wide)
    planesRows).trans_lt valid.padded
  rw [hstride, toU32, Int.emod_eq_of_lt (by omega) small, Int.toNat_of_nonneg (by omega)]

theorem width_le_hstride (valid : n.Valid) : n.width ≤ n.hstride := by
  have wide := Runtime.le_alignUp (Int.natCast_nonneg n.width) valid.alignPos
  rw [← hstride_eq valid] at wide
  exact_mod_cast wide

theorem padded_lt (valid : n.Valid) : n.planes * n.rows * n.hstride < 2 ^ 32 := by
  have small := valid.padded
  rw [← hstride_eq valid] at small
  exact_mod_cast small

theorem rows_hstride_lt (valid : n.Valid) : n.rows * n.hstride < 2 ^ 32 := by
  have padded := padded_lt valid
  rw [Nat.mul_assoc] at padded
  exact (Nat.le_mul_of_pos_left _ (planes_pos valid)).trans_lt padded

theorem rows_width_lt (valid : n.Valid) : n.rows * n.width < 2 ^ 32 :=
  (Nat.mul_le_mul_left _ (width_le_hstride valid)).trans_lt (rows_hstride_lt valid)

theorem imageRows_wide (valid : n.Valid) : n.imageRows.Wide :=
  ⟨width_pos valid, width_le_hstride valid⟩

theorem channelRows_wide (valid : n.Valid) : n.channelRows.Wide :=
  ⟨width_pos valid, width_le_hstride valid⟩

theorem imageRows_bytes (valid : n.Valid) : n.imageRows.bytes = n.imageBytes :=
  planes_rows_width valid

theorem planes_channelRows_bytes (valid : n.Valid) :
    n.planes * n.channelRows.bytes = n.imageBytes := by
  rw [← planes_rows_width valid, PaddedRows.bytes, channelRows, Nat.one_mul, Nat.mul_assoc]

/-- There is only one plane, and one image. -/
theorem index_zero {index : TgIndex} {fmt : CvkFmt} {rows width : Nat}
    (inside : index.In ⟨1, 1, rows, width⟩ fmt) : index.i = 0 ∧ index.j = 0 :=
  ⟨Nat.lt_one_iff.mp inside.1, Nat.lt_one_iff.mp inside.2.1⟩

theorem channelCopy_encodes (ops : CopyOps) (n : FrameNeuron) :
    n.channelRows.Encodes (n.channelCopy ops) where
  srcReg := rfl
  srcStart := rfl
  dstReg := rfl
  dstStart := rfl
  shape := rfl
  byte := rfl
  src := by
    intro index inside
    obtain ⟨i, j⟩ := index_zero inside
    simp [channelCopy, runtimeJitTdmaStrideCopy, TgStride.offset, channelRows, i, j]
  dst := by
    intro index inside
    obtain ⟨i, j⟩ := index_zero inside
    simp [channelCopy, runtimeJitTdmaStrideCopy, TgStride.offset, channelRows, i, j]

theorem frameCopy_encodes (ops : CopyOps) (valid : n.Valid) :
    n.imageRows.Encodes (n.frameCopy ops) where
  srcReg := rfl
  srcStart := rfl
  dstReg := rfl
  dstStart := rfl
  shape := rfl
  byte := rfl
  src := by
    intro index inside
    have i : index.i = 0 := Nat.lt_one_iff.mp inside.1
    simp only [frameCopy, runtimeJitTdmaStrideCopy, Option.getD_some, TgStride.offset, imageRows,
      i, Nat.mod_eq_of_lt (rows_hstride_lt valid)]
    ring
  dst := by
    intro index inside
    have i : index.i = 0 := Nat.lt_one_iff.mp inside.1
    simp only [frameCopy, runtimeJitTdmaStrideCopy, Option.getD_some, TgStride.offset, imageRows,
      i, Nat.mod_eq_of_lt (rows_width_lt valid)]
    ring

theorem wholeCopy_encodes {ops : CopyOps} (lawful : ops.Lawful) (n : FrameNeuron) :
    n.frameRows.Encodes (n.wholeCopy ops) where
  srcReg := rfl
  srcStart := rfl
  dstReg := rfl
  dstStart := rfl
  shape := rfl
  byte := rfl
  src := by
    intro index inside
    obtain ⟨i, j⟩ := index_zero inside
    simp [wholeCopy, runtimeJitTdmaStrideCopy, TgStride.offset, frameRows, i, j,
      lawful.dense _ _, denseStride, cvkFmt, CvkFmt.bytes]
  dst := by
    intro index inside
    obtain ⟨i, j⟩ := index_zero inside
    simp [wholeCopy, runtimeJitTdmaStrideCopy, TgStride.offset, frameRows, i, j,
      lawful.dense _ _, denseStride, cvkFmt, CvkFmt.bytes]

end FrameNeuron

end CviRuntime.Kernel
