import CviRuntime.Kernel.MaxFilterSearch

/-!
# The second stage of the gray light (`src/common/kernel_function/grayImageLight.cpp`)

After the max filter the image is taken as a flat range of bytes, rounded up to whole rows of the
engine, and cut into full blocks, a block of the remaining channels and one of the remaining rows.
-/

namespace CviRuntime.Kernel

open CviRuntime.Interval CviRuntime.Strips
open CviRuntime.Runtime (toI32 toU32)

/-- The transfers of `compute`, and its tensors in local memory. -/
structure ComputeCmds where
  x : Tl
  bkg : Tl
  mask : Tl
  diff : Tl
  maskHigh : Tl
  diffHigh : Tl
  loadX : Tg
  loadBkg : Tg
  store : Tg
  deriving DecidableEq, Repr

/-- `compute` (`grayImageLight.cpp:141-237`); `none` where its assertion fails. -/
def compute (ops : PoolOps) (lmemSize : Nat) (offset ic ih iw : Int) : Option ComputeCmds :=
  let shape : TgShape := ⟨1, toU32 ic, toU32 ih, toU32 iw⟩
  let gaStride := ops.tgDefaultStride shape .u8
  let tlSize := ops.lmemTensorToSize shape .u8
  let ga := (offset % 2 ^ 64).toNat
  if 6 * tlSize % 2 ^ 32 < lmemSize then
    some {
      x := ⟨0, .u8, shape⟩
      bkg := ⟨tlSize % 2 ^ 32, .u8, shape⟩
      mask := ⟨2 * tlSize % 2 ^ 32, .u8, shape⟩
      diff := ⟨3 * tlSize % 2 ^ 32, .i8, shape⟩
      maskHigh := ⟨4 * tlSize % 2 ^ 32, .u8, shape⟩
      diffHigh := ⟨5 * tlSize % 2 ^ 32, .i8, shape⟩
      loadX := ⟨2, ga, .u8, shape, gaStride⟩
      loadBkg := ⟨3, ga, .u8, shape, gaStride⟩
      store := ⟨3, ga, .u8, shape, gaStride⟩ }
  else none

/-- The loop over the full blocks (`grayImageLight.cpp:258-261`): its commands, and the `uint32_t`
    offset after it. -/
def fullBlocks (ops : PoolOps) (lmemSize euNum npuNum maxH : Nat) :
    Nat → Nat → Option (List ComputeCmds × Nat)
  | 0, offset => some ([], offset)
  | loop + 1, offset =>
    (compute ops lmemSize (toI32 offset) npuNum maxH euNum).bind fun cmds =>
      (checked [(npuNum : Int) * maxH, (npuNum : Int) * maxH * euNum]
        (toU32 ((npuNum : Int) * maxH * euNum))).bind fun size =>
        (fullBlocks ops lmemSize euNum npuNum maxH loop ((offset + size) % 2 ^ 32)).map fun rest =>
          (cmds :: rest.1, rest.2)

/-- The block of the remaining channels (`grayImageLight.cpp:263-267`), with the offset after it. -/
def channelBlock (ops : PoolOps) (lmemSize euNum maxH offset : Nat) (curC : Int) :
    Option (List ComputeCmds × Nat) :=
  if curC = 0 then some ([], offset)
  else
    (compute ops lmemSize (toI32 offset) curC maxH euNum).bind fun cmds =>
      (checked [curC * maxH, curC * maxH * euNum] (toU32 (curC * maxH * euNum))).map fun size =>
        ([cmds], (offset + size) % 2 ^ 32)

/-- The block of the remaining rows (`grayImageLight.cpp:270-272`). -/
def rowBlock (ops : PoolOps) (lmemSize euNum offset remain : Nat) : Option (List ComputeCmds) :=
  if remain = 0 then some []
  else
    (checked [toI32 remain + euNum, toI32 remain + euNum - 1]
      ((toI32 remain + euNum - 1).tdiv euNum)).bind fun rows =>
      (compute ops lmemSize (toI32 offset) 1 rows euNum).map fun cmds => [cmds]

/-- What is left after the full blocks (`grayImageLight.cpp:262-273`). -/
def restBlocks (ops : PoolOps) (lmemSize euNum maxH offset remain : Nat) :
    Option (List ComputeCmds) :=
  if remain = 0 then some []
  else
    (checked [(euNum : Int) * maxH] (euNum * maxH)).bind fun channel =>
      (channelBlock ops lmemSize euNum maxH offset (toI32 (remain / channel))).bind fun channels =>
        (rowBlock ops lmemSize euNum channels.2 (remain % channel)).map (channels.1 ++ ·)

/-- The second stage for a given `max_h` (`grayImageLight.cpp:249-273`). -/
def computeCalls (ops : PoolOps) (lmemSize ih iw euNum npuNum maxH : Nat) :
    Option (List ComputeCmds) :=
  (checked [(ih : Int) * iw] (toU32 (toI32 (alignUp (ih * iw) euNum % 2 ^ 32)))).bind fun remain =>
    (checked [(npuNum : Int) * euNum, (npuNum : Int) * euNum * maxH]
      (npuNum * euNum * maxH)).bind fun block =>
      (fullBlocks ops lmemSize euNum npuNum maxH (toI32 (remain / block)).toNat 0).bind fun full =>
        (restBlocks ops lmemSize euNum maxH full.2 (remain % block)).map (full.1 ++ ·)

/-- `max_h` (`grayImageLight.cpp:252-254`); `none` where it is 0, which is asserted not to be. -/
def maxHeight (lmemSize euNum : Nat) : Option Nat :=
  (checked [(euNum : Int) * 6] (min (lmemSize / (euNum * 6)) 4064)).filter (0 < ·)

/-- `runtimeJitGrayImageLight` up to the loading of the command buffer. -/
def runtimeJitGrayImageLight (ops : PoolOps) (lmemSize euNum npuNum fuel ih iw kernelSz : Nat) :
    Option (List Tile × List ComputeCmds) :=
  (calcBackground ops lmemSize fuel ih iw ih iw kernelSz 1 ((kernelSz - 1) / 2)).bind fun tiles =>
    (maxHeight lmemSize euNum).bind fun maxH =>
      (computeCalls ops lmemSize ih iw euNum npuNum maxH).map fun calls => (tiles, calls)

/-- The byte of the output buffer is one that the call stores. -/
def ComputeCmds.Stores (cmds : ComputeCmds) (a : Nat) : Prop :=
  ∃ index : TgIndex, index.In cmds.store.shape cmds.store.fmt ∧
    a = cmds.store.startAddress + cmds.store.stride.offset index

/-- The calls store every byte of the image once and no other. -/
structure StoresImage (size : Nat) (calls : List ComputeCmds) : Prop where
  disjoint : calls.Pairwise fun first second => ∀ a, ¬ (first.Stores a ∧ second.Stores a)
  exact : ∀ a, (∃ cmds ∈ calls, cmds.Stores a) ↔ a < size

/-- The six tensors of a block pass the assertion of `compute`. -/
def ComputePasses (ops : PoolOps) (lmemSize euNum npuNum maxH : Nat) : Prop :=
  ∀ c h, c ≤ npuNum → h ≤ maxH →
    6 * ops.lmemTensorToSize ⟨1, c, h, euNum⟩ .u8 % 2 ^ 32 < lmemSize

/-! ## The bytes of a call -/

/-- The store of a call is of rows without gaps. -/
structure ComputeCmds.Dense (cmds : ComputeCmds) : Prop where
  fmt : cmds.store.fmt = .u8
  stride : cmds.store.stride = denseStride cmds.store.shape .u8
  plane : cmds.store.shape.n = 1
  nonempty : 0 < cmds.store.shape.w

/-- The range of bytes that it then stores. -/
def ComputeCmds.region (cmds : ComputeCmds) : Slot :=
  (cmds.store.startAddress, cmds.store.shape.c * cmds.store.shape.h * cmds.store.shape.w)

theorem ComputeCmds.Dense.stores_iff {cmds : ComputeCmds} (dense : cmds.Dense) (a : Nat) :
    cmds.Stores a ↔ cmds.region.Contains a := by
  have offsets : ∀ off, (∃ index : TgIndex, index.In cmds.store.shape .u8 ∧
      (denseStride cmds.store.shape .u8).offset index = off) ↔
        off < cmds.store.shape.c * cmds.store.shape.h * cmds.store.shape.w := by
    intro off
    rw [exists_offset_iff dense.nonempty (Nat.le_refl _), dense.plane, CvkFmt.bytes, Nat.mul_one,
      Nat.one_mul, Nat.div_lt_iff_lt_mul dense.nonempty]
    exact and_iff_left (Nat.mod_lt off dense.nonempty)
  rw [ComputeCmds.Stores, dense.fmt, dense.stride]
  constructor
  · rintro ⟨index, inside, rfl⟩
    have := (offsets _).mp ⟨index, inside, rfl⟩
    exact ⟨Nat.le_add_right _ _, Nat.add_lt_add_left this _⟩
  · rintro ⟨above, below⟩
    simp only [ComputeCmds.region] at above below
    obtain ⟨index, inside, place⟩ := (offsets (a - cmds.store.startAddress)).mpr (by omega)
    exact ⟨index, inside, by omega⟩

/-- Calls whose regions tile a range store exactly the bytes of that range. -/
theorem storesImage_iff {calls : List ComputeCmds} {total size : Nat}
    (dense : ∀ cmds ∈ calls, cmds.Dense)
    (tiles : Tiles total (calls.map ComputeCmds.region)) :
    StoresImage size calls ↔ total = size := by
  have stores : ∀ a, (∃ cmds ∈ calls, cmds.Stores a) ↔ a < total := by
    intro a
    rw [← tiles.mem_iff a]
    constructor
    · rintro ⟨cmds, member, stored⟩
      exact ⟨_, List.mem_map_of_mem member, ((dense cmds member).stores_iff a).mp stored⟩
    · rintro ⟨slot, member, inside⟩
      obtain ⟨cmds, inCalls, rfl⟩ := List.mem_map.mp member
      exact ⟨cmds, inCalls, ((dense cmds inCalls).stores_iff a).mpr inside⟩
  constructor
  · intro exact
    have same : ∀ a, a < total ↔ a < size := fun a => (stores a).symm.trans (exact.exact a)
    have below := same total
    have above := same size
    omega
  · rintro rfl
    refine ⟨?_, stores⟩
    refine (List.pairwise_map.mp tiles.pairwise).imp_of_mem fun first second apart a both => ?_
    have inFirst := ((dense _ first).stores_iff a).mp both.1
    have inSecond := ((dense _ second).stores_iff a).mp both.2
    simp only [Slot.Apart, Slot.Contains] at apart inFirst inSecond
    omega

/-! ## The calls -/

/-- The sizes of the regions, without those of blocks that are left out. -/
def nonzero (size : Nat) : List Nat := if size = 0 then [] else [size]

theorem sum_nonzero (size : Nat) : (nonzero size).sum = size := by
  rw [nonzero]
  split
  · next empty => rw [List.sum_nil, empty]
  · rw [List.sum_singleton]

theorem pos_of_mem_nonzero {size x : Nat} (member : x ∈ nonzero size) : 0 < x := by
  rw [nonzero] at member
  split at member
  · cases member
  · next nonempty =>
    rw [List.mem_singleton.mp member]
    exact Nat.pos_of_ne_zero nonempty

/-- The calls store the slots of the given sizes one after the other. -/
def StoresSizes (calls : List ComputeCmds) (start : Nat) (sizes : List Nat) : Prop :=
  calls.map ComputeCmds.region = consecutive start sizes ∧ ∀ cmds ∈ calls, cmds.Dense

theorem StoresSizes.nil (start : Nat) : StoresSizes [] start [] :=
  ⟨rfl, fun _ member => absurd member List.not_mem_nil⟩

theorem StoresSizes.append {first second : List ComputeCmds} {start : Nat} {sizes sizes' : List Nat}
    (one : StoresSizes first start sizes) (two : StoresSizes second (start + sizes.sum) sizes') :
    StoresSizes (first ++ second) start (sizes ++ sizes') := by
  refine ⟨by rw [List.map_append, one.1, two.1, consecutive_append], fun cmds member => ?_⟩
  rcases List.mem_append.mp member with inFirst | inSecond
  · exact one.2 cmds inFirst
  · exact two.2 cmds inSecond

section Calls

variable {ops : PoolOps} {lmemSize euNum npuNum maxH : Nat}

theorem compute_spec (dense : IsDense ops.tgDefaultStride)
    (passes : ComputePasses ops lmemSize euNum npuNum maxH) (euPos : 0 < euNum)
    (euSmall : euNum < 2 ^ 31) {offset c h : Nat} (offsetSmall : offset < 2 ^ 31) (cLe : c ≤ npuNum)
    (cSmall : c < 2 ^ 31) (hLe : h ≤ maxH) (hSmall : h < 2 ^ 31) :
    ∃ cmds, compute ops lmemSize (toI32 offset) c h euNum = some cmds ∧
      StoresSizes [cmds] offset [c * h * euNum] := by
  have signed : toI32 offset = offset := if_pos offsetSmall
  simp only [compute, toU32_natCast_of_lt cSmall, toU32_natCast_of_lt hSmall,
    toU32_natCast_of_lt euSmall, signed]
  rw [if_pos (passes c h cLe hLe)]
  refine ⟨_, rfl, ?_, fun cmds member => ?_⟩
  · simp only [List.map_singleton, ComputeCmds.region, consecutive]
    congr 2
    omega
  · rw [List.mem_singleton.mp member]
    exact ⟨rfl, dense _ _, rfl, euPos⟩

theorem fullBlocks_spec (dense : IsDense ops.tgDefaultStride)
    (passes : ComputePasses ops lmemSize euNum npuNum maxH) (euPos : 0 < euNum)
    (npuPos : 0 < npuNum) (hPos : 0 < maxH) (blockSmall : npuNum * maxH * euNum < 2 ^ 31) :
    ∀ loop offset, offset + loop * (npuNum * maxH * euNum) < 2 ^ 31 + npuNum * maxH * euNum →
      ∃ calls, fullBlocks ops lmemSize euNum npuNum maxH loop offset =
          some (calls, offset + loop * (npuNum * maxH * euNum)) ∧
        StoresSizes calls offset (List.replicate loop (npuNum * maxH * euNum)) := by
  have lane : npuNum * maxH ≤ npuNum * maxH * euNum := Nat.le_mul_of_pos_right _ euPos
  have npuLe : npuNum ≤ npuNum * maxH := Nat.le_mul_of_pos_right _ hPos
  have hLe : maxH ≤ npuNum * maxH := Nat.le_mul_of_pos_left _ npuPos
  have euLe : euNum ≤ npuNum * maxH * euNum := Nat.le_mul_of_pos_left _ (Nat.mul_pos npuPos hPos)
  intro loop
  induction loop with
  | zero =>
    intro offset _
    exact ⟨[], by rw [fullBlocks, Nat.zero_mul, Nat.add_zero], StoresSizes.nil offset⟩
  | succ loop ih =>
    intro offset inside
    rw [Nat.succ_mul] at inside
    obtain ⟨cmds, called, stores⟩ := compute_spec dense passes euPos (by omega)
      (by omega : offset < 2 ^ 31) (Nat.le_refl npuNum) (by omega) (Nat.le_refl maxH) (by omega)
    obtain ⟨calls, later, rest⟩ := ih (offset + npuNum * maxH * euNum) (by omega)
    have products : ∀ x ∈ [(npuNum : Int) * maxH, (npuNum : Int) * maxH * euNum], InInt32 x := by
      simp only [List.forall_mem_cons, InInt32, ← Nat.cast_mul]
      exact ⟨by omega, by omega, List.forall_mem_nil _⟩
    refine ⟨cmds :: calls, ?_, ?_⟩
    · rw [fullBlocks, called, Option.bind_some, checked_of_inInt32 products, Option.bind_some,
        ← Nat.cast_mul, ← Nat.cast_mul, toU32_natCast_of_lt blockSmall,
        Nat.mod_eq_of_lt (by omega), later, Option.map_some, Nat.succ_mul]
      congr 2
      omega
    · rw [List.replicate_succ]
      refine StoresSizes.append stores ?_
      rwa [List.sum_singleton]

theorem channelBlock_spec (dense : IsDense ops.tgDefaultStride)
    (passes : ComputePasses ops lmemSize euNum npuNum maxH) (euPos : 0 < euNum) (hPos : 0 < maxH)
    {offset c : Nat} (cLe : c ≤ npuNum) (offsetSmall : offset < 2 ^ 31)
    (small : c * maxH * euNum < 2 ^ 31) (laneSmall : euNum * maxH < 2 ^ 31) :
    ∃ calls, channelBlock ops lmemSize euNum maxH offset c =
        some (calls, offset + c * maxH * euNum) ∧
      StoresSizes calls offset (nonzero (c * maxH * euNum)) := by
  have euLe : euNum ≤ euNum * maxH := Nat.le_mul_of_pos_right _ hPos
  have hLe : maxH ≤ euNum * maxH := Nat.le_mul_of_pos_left _ euPos
  rw [channelBlock]
  by_cases none : c = 0
  · refine ⟨[], ?_, ?_⟩
    · rw [if_pos (by omega), none, Nat.zero_mul, Nat.zero_mul, Nat.add_zero]
    · rw [nonzero, if_pos (by rw [none, Nat.zero_mul, Nat.zero_mul])]
      exact StoresSizes.nil offset
  · have cPos : 0 < c := Nat.pos_of_ne_zero none
    have rows : c * maxH ≤ c * maxH * euNum := Nat.le_mul_of_pos_right _ euPos
    have cSmall : c ≤ c * maxH := Nat.le_mul_of_pos_right _ hPos
    have products : ∀ x ∈ [(c : Int) * maxH, (c : Int) * maxH * euNum], InInt32 x := by
      simp only [List.forall_mem_cons, InInt32, ← Nat.cast_mul]
      exact ⟨by omega, by omega, List.forall_mem_nil _⟩
    obtain ⟨cmds, called, stores⟩ := compute_spec dense passes euPos (by omega) offsetSmall cLe
      (by omega) (Nat.le_refl maxH) (by omega)
    refine ⟨[cmds], ?_, ?_⟩
    · rw [if_neg (by omega), called, Option.bind_some, checked_of_inInt32 products,
        Option.map_some, ← Nat.cast_mul, ← Nat.cast_mul, toU32_natCast_of_lt small,
        Nat.mod_eq_of_lt (by omega)]
    · rw [nonzero, if_neg (by omega)]
      exact stores

theorem rowBlock_spec (dense : IsDense ops.tgDefaultStride)
    (passes : ComputePasses ops lmemSize euNum npuNum maxH) (euPos : 0 < euNum)
    (npuPos : 0 < npuNum) {offset rows : Nat} (rowsLt : rows < maxH)
    (laneSmall : maxH * euNum < 2 ^ 31)
    (offsetSmall : 0 < rows → offset < 2 ^ 31) :
    ∃ calls, rowBlock ops lmemSize euNum offset (rows * euNum) = some calls ∧
      StoresSizes calls offset (nonzero (rows * euNum)) := by
  have room : (rows + 1) * euNum ≤ maxH * euNum := Nat.mul_le_mul_right _ rowsLt
  have euLe : euNum ≤ maxH * euNum := Nat.le_mul_of_pos_left _ (Nat.zero_lt_of_lt rowsLt)
  have rowsLe : rows ≤ rows * euNum := Nat.le_mul_of_pos_right _ euPos
  rw [Nat.succ_mul] at room
  rw [rowBlock, nonzero]
  by_cases none : rows = 0
  · refine ⟨[], ?_, ?_⟩
    · rw [if_pos (by rw [none, Nat.zero_mul])]
    · rw [if_pos (by rw [none, Nat.zero_mul])]
      exact StoresSizes.nil offset
  · have rowsPos : 0 < rows := Nat.pos_of_ne_zero none
    have signed : toI32 (rows * euNum) = (rows * euNum : Nat) := if_pos (by omega)
    have sums : ∀ x ∈ [toI32 (rows * euNum) + euNum, toI32 (rows * euNum) + euNum - 1],
        InInt32 x := by
      rw [signed]
      simp only [List.forall_mem_cons, InInt32]
      exact ⟨by omega, by omega, List.forall_mem_nil _⟩
    have height : (toI32 (rows * euNum) + euNum - 1).tdiv euNum = rows := by
      have sum : toI32 (rows * euNum) + euNum - 1 = (rows * euNum + (euNum - 1) : Nat) := by
        rw [signed]
        omega
      rw [sum, ← Int.ofNat_tdiv, Nat.mul_comm, Nat.mul_add_div euPos,
        Nat.div_eq_of_lt (by omega), Nat.add_zero]
    obtain ⟨cmds, called, stores⟩ := compute_spec dense passes euPos (by omega)
      (offsetSmall rowsPos) npuPos (by decide) (Nat.le_of_lt rowsLt) (by omega)
    refine ⟨[cmds], ?_, ?_⟩
    · rw [if_neg (by omega), checked_of_inInt32 sums, Option.bind_some, height]
      rw [Nat.cast_one] at called
      rw [called, Option.map_some]
    · rw [if_neg (by omega)]
      rwa [Nat.one_mul] at stores

theorem restBlocks_spec (dense : IsDense ops.tgDefaultStride)
    (passes : ComputePasses ops lmemSize euNum npuNum maxH) (euPos : 0 < euNum)
    (npuPos : 0 < npuNum) (hPos : 0 < maxH) (blockSmall : npuNum * maxH * euNum < 2 ^ 31)
    {offset remain : Nat}
    (whole : euNum ∣ remain) (part : remain < npuNum * maxH * euNum)
    (inside : offset + remain < 2 ^ 31 + euNum) :
    ∃ calls sizes, restBlocks ops lmemSize euNum maxH offset remain = some calls ∧
      StoresSizes calls offset sizes ∧ sizes.sum = remain ∧ ∀ size ∈ sizes, 0 < size := by
  rw [restBlocks]
  by_cases none : remain = 0
  · exact ⟨[], [], by rw [if_pos none], StoresSizes.nil offset, none.symm, List.forall_mem_nil _⟩
  · have npuLe : npuNum ≤ npuNum * maxH * euNum :=
      (Nat.le_mul_of_pos_right _ hPos).trans (Nat.le_mul_of_pos_right _ euPos)
    have laneLe : euNum * maxH ≤ npuNum * maxH * euNum := by
      rw [Nat.mul_assoc, Nat.mul_comm maxH]
      exact Nat.le_mul_of_pos_left _ npuPos
    have lanePos : 0 < euNum * maxH := Nat.mul_pos euPos hPos
    have euLe : euNum ≤ remain := Nat.le_of_dvd (Nat.pos_of_ne_zero none) whole
    have product : ∀ x ∈ [(euNum : Int) * maxH], InInt32 x := by
      simp only [List.forall_mem_cons, InInt32, ← Nat.cast_mul]
      exact ⟨by omega, List.forall_mem_nil _⟩
    have split := Nat.div_add_mod remain (euNum * maxH)
    have below := Nat.mod_lt remain lanePos
    have channels : remain / (euNum * maxH) < npuNum := by
      refine Nat.div_lt_of_lt_mul ?_
      rwa [Nat.mul_comm, Nat.mul_comm euNum, ← Nat.mul_assoc]
    have lanes : remain / (euNum * maxH) * maxH * euNum =
        euNum * maxH * (remain / (euNum * maxH)) := by ring
    obtain ⟨rows, rowsEq⟩ : euNum ∣ remain % (euNum * maxH) :=
      (Nat.dvd_mod_iff (Nat.dvd_mul_right euNum maxH)).mpr whole
    rw [Nat.mul_comm euNum rows] at rowsEq
    have rowsLt : rows < maxH := by
      rw [rowsEq, Nat.mul_comm euNum] at below
      exact Nat.lt_of_mul_lt_mul_right below
    have signed : toI32 (remain / (euNum * maxH)) = (remain / (euNum * maxH) : Nat) :=
      if_pos (by omega)
    obtain ⟨first, called, stores⟩ := channelBlock_spec dense passes euPos hPos
      (Nat.le_of_lt channels) (by omega : offset < 2 ^ 31) (by omega) (by omega)
    have start : 0 < rows → offset + remain / (euNum * maxH) * maxH * euNum < 2 ^ 31 := by
      intro rowsPos
      have := Nat.le_mul_of_pos_left euNum rowsPos
      omega
    obtain ⟨second, called', stores'⟩ := rowBlock_spec dense passes euPos npuPos rowsLt
      (by rw [Nat.mul_comm]; omega) start
    refine ⟨first ++ second, _, ?_, stores.append (by rwa [sum_nonzero]), ?_, ?_⟩
    · rw [if_neg none, checked_of_inInt32 product, Option.bind_some, signed, called,
        Option.bind_some, rowsEq, called', Option.map_some]
    · rw [List.sum_append, sum_nonzero, sum_nonzero]
      omega
    · intro size member
      rcases List.mem_append.mp member with inFirst | inSecond
      · exact pos_of_mem_nonzero inFirst
      · exact pos_of_mem_nonzero inSecond

/-- In range, the calls store the image rounded up to whole rows of the engine. -/
theorem computeCalls_spec {ih iw : Nat} (dense : IsDense ops.tgDefaultStride)
    (passes : ComputePasses ops lmemSize euNum npuNum maxH) (euPos : 0 < euNum)
    (npuPos : 0 < npuNum) (hPos : 0 < maxH) (pixels : ih * iw < 2 ^ 31)
    (blockSmall : npuNum * euNum * maxH < 2 ^ 31) :
    ∃ calls, computeCalls ops lmemSize ih iw euNum npuNum maxH = some calls ∧
      (∀ cmds ∈ calls, cmds.Dense) ∧
      Tiles (alignUp (ih * iw) euNum) (calls.map ComputeCmds.region) := by
  have block : npuNum * euNum * maxH = npuNum * maxH * euNum := Nat.mul_right_comm _ _ _
  have npuEu : npuNum * euNum ≤ npuNum * euNum * maxH := Nat.le_mul_of_pos_right _ hPos
  have euLe : euNum ≤ npuNum * maxH * euNum := Nat.le_mul_of_pos_left _ (Nat.mul_pos npuPos hPos)
  have blockPos : 0 < npuNum * maxH * euNum := euPos.trans_le euLe
  have total := alignUp_lt (ih * iw) euPos
  have whole := dvd_alignUp (ih * iw) euNum
  rw [computeCalls]
  generalize alignUp (ih * iw) euNum = size at total whole ⊢
  have product : ∀ x ∈ [(ih : Int) * iw], InInt32 x := by
    simp only [List.forall_mem_cons, InInt32, ← Nat.cast_mul]
    exact ⟨by omega, List.forall_mem_nil _⟩
  have products : ∀ x ∈ [(npuNum : Int) * euNum, (npuNum : Int) * euNum * maxH], InInt32 x := by
    simp only [List.forall_mem_cons, InInt32, ← Nat.cast_mul]
    exact ⟨by omega, by omega, List.forall_mem_nil _⟩
  have remain : toU32 (toI32 (size % 2 ^ 32)) = size := by
    rw [Nat.mod_eq_of_lt (by omega), toU32_toI32 (by omega)]
  have loops : size / (npuNum * maxH * euNum) < 2 ^ 31 := Nat.div_lt_of_lt_mul (by omega)
  have signed : (toI32 (size / (npuNum * maxH * euNum))).toNat =
      size / (npuNum * maxH * euNum) := by
    rw [toI32, if_pos loops, Int.toNat_natCast]
  have split := Nat.div_add_mod' size (npuNum * maxH * euNum)
  have below := Nat.mod_lt size blockPos
  obtain ⟨full, called, stores⟩ := fullBlocks_spec dense passes euPos npuPos hPos (by omega)
    (size / (npuNum * maxH * euNum)) 0 (by omega)
  have rest : euNum ∣ size % (npuNum * maxH * euNum) :=
    (Nat.dvd_mod_iff (Nat.dvd_mul_left euNum _)).mpr whole
  obtain ⟨last, sizes, called', stores', sum, positive⟩ := restBlocks_spec dense passes euPos npuPos
    hPos (by omega) rest below
    (by omega : 0 + size / (npuNum * maxH * euNum) * (npuNum * maxH * euNum) + _ < _)
  rw [← List.sum_replicate_nat] at stores'
  have all := stores.append stores'
  refine ⟨full ++ last, ?_, all.2, ?_⟩
  · rw [checked_of_inInt32 product, Option.bind_some, checked_of_inInt32 products,
      Option.bind_some, remain, block, signed, called, Option.bind_some, called', Option.map_some]
  · have positives : ∀ x ∈ List.replicate (size / (npuNum * maxH * euNum))
        (npuNum * maxH * euNum) ++ sizes, 0 < x := by
      intro x member
      rcases List.mem_append.mp member with inFull | inRest
      · rw [List.eq_of_mem_replicate inFull]
        exact blockPos
      · exact positive x inRest
    have tiles := tiles_consecutive positives
    rw [List.sum_append, List.sum_replicate_nat, sum, split] at tiles
    rwa [all.1]

/-- Nothing is stored when one of the products overflows. -/
theorem computeCalls_inRange {ih iw : Nat} {calls : List ComputeCmds}
    (ends : computeCalls ops lmemSize ih iw euNum npuNum maxH = some calls) :
    ih * iw < 2 ^ 31 ∧ npuNum * euNum * maxH < 2 ^ 31 := by
  obtain ⟨remain, product, ends⟩ := Option.bind_eq_some_iff.mp ends
  obtain ⟨block, products, -⟩ := Option.bind_eq_some_iff.mp ends
  have image := (checked_eq_some.mp product).1
  have blocks := (checked_eq_some.mp products).1
  simp only [List.forall_mem_cons, InInt32, ← Nat.cast_mul] at image blocks
  omega

/-- More local memory does not change the calls. -/
theorem compute_mono {lmemSize' : Nat} (le : lmemSize ≤ lmemSize') {offset ic ih iw : Int}
    {cmds : ComputeCmds} (called : compute ops lmemSize offset ic ih iw = some cmds) :
    compute ops lmemSize' offset ic ih iw = some cmds := by
  obtain ⟨fits, same⟩ := Option.ite_none_right_eq_some.mp called
  exact (if_pos (fits.trans_le le)).trans same

theorem fullBlocks_mono {lmemSize' : Nat} (le : lmemSize ≤ lmemSize') {loop offset : Nat}
    {result : List ComputeCmds × Nat}
    (called : fullBlocks ops lmemSize euNum npuNum maxH loop offset = some result) :
    fullBlocks ops lmemSize' euNum npuNum maxH loop offset = some result := by
  induction loop generalizing offset result with
  | zero => exact called
  | succ loop ih =>
    obtain ⟨cmds, first, called⟩ := Option.bind_eq_some_iff.mp called
    obtain ⟨size, product, called⟩ := Option.bind_eq_some_iff.mp called
    obtain ⟨rest, later, rfl⟩ := Option.map_eq_some_iff.mp called
    rw [fullBlocks, compute_mono le first, Option.bind_some, product, Option.bind_some, ih later,
      Option.map_some]

theorem channelBlock_mono {lmemSize' : Nat} (le : lmemSize ≤ lmemSize') {offset : Nat} {curC : Int}
    {result : List ComputeCmds × Nat}
    (called : channelBlock ops lmemSize euNum maxH offset curC = some result) :
    channelBlock ops lmemSize' euNum maxH offset curC = some result := by
  rw [channelBlock] at called ⊢
  split at called
  · next none => rwa [if_pos none]
  · next some =>
    obtain ⟨cmds, first, called⟩ := Option.bind_eq_some_iff.mp called
    rw [if_neg some, compute_mono le first, Option.bind_some, called]

theorem rowBlock_mono {lmemSize' : Nat} (le : lmemSize ≤ lmemSize') {offset remain : Nat}
    {calls : List ComputeCmds}
    (called : rowBlock ops lmemSize euNum offset remain = some calls) :
    rowBlock ops lmemSize' euNum offset remain = some calls := by
  rw [rowBlock] at called ⊢
  split at called
  · next none => rwa [if_pos none]
  · next some =>
    obtain ⟨rows, sums, called⟩ := Option.bind_eq_some_iff.mp called
    obtain ⟨cmds, first, rfl⟩ := Option.map_eq_some_iff.mp called
    rw [if_neg some, sums, Option.bind_some, compute_mono le first, Option.map_some]

theorem restBlocks_mono {lmemSize' : Nat} (le : lmemSize ≤ lmemSize') {offset remain : Nat}
    {calls : List ComputeCmds}
    (called : restBlocks ops lmemSize euNum maxH offset remain = some calls) :
    restBlocks ops lmemSize' euNum maxH offset remain = some calls := by
  rw [restBlocks] at called ⊢
  split at called
  · next none => rwa [if_pos none]
  · next some =>
    obtain ⟨channel, product, called⟩ := Option.bind_eq_some_iff.mp called
    obtain ⟨channels, first, called⟩ := Option.bind_eq_some_iff.mp called
    obtain ⟨rows, second, rfl⟩ := Option.map_eq_some_iff.mp called
    rw [if_neg some, product, Option.bind_some, channelBlock_mono le first, Option.bind_some,
      rowBlock_mono le second, Option.map_some]

theorem computeCalls_mono {lmemSize' ih iw : Nat} (le : lmemSize ≤ lmemSize')
    {calls : List ComputeCmds}
    (called : computeCalls ops lmemSize ih iw euNum npuNum maxH = some calls) :
    computeCalls ops lmemSize' ih iw euNum npuNum maxH = some calls := by
  obtain ⟨remain, product, called⟩ := Option.bind_eq_some_iff.mp called
  obtain ⟨block, products, called⟩ := Option.bind_eq_some_iff.mp called
  obtain ⟨full, first, called⟩ := Option.bind_eq_some_iff.mp called
  obtain ⟨rest, second, rfl⟩ := Option.map_eq_some_iff.mp called
  rw [computeCalls, product, Option.bind_some, products, Option.bind_some,
    fullBlocks_mono le first, Option.bind_some, restBlocks_mono le second, Option.map_some]

/-- Whenever the calls are made, they store the image rounded up to whole rows of the engine. -/
theorem computeCalls_stores {ih iw : Nat} {calls : List ComputeCmds}
    (dense : IsDense ops.tgDefaultStride) (euPos : 0 < euNum) (npuPos : 0 < npuNum)
    (hPos : 0 < maxH) (ends : computeCalls ops lmemSize ih iw euNum npuNum maxH = some calls) :
    (∀ cmds ∈ calls, cmds.Dense) ∧
      Tiles (alignUp (ih * iw) euNum) (calls.map ComputeCmds.region) := by
  obtain ⟨pixels, blocks⟩ := computeCalls_inRange ends
  -- With 4 GiB of local memory no block fails the assertion.
  have passes : ComputePasses ops (max lmemSize (2 ^ 32)) euNum npuNum maxH := fun c h _ _ =>
    (Nat.mod_lt _ (by decide)).trans_le (Nat.le_max_right _ _)
  obtain ⟨calls', ends', filled, tiles⟩ :=
    computeCalls_spec dense passes euPos npuPos hPos pixels blocks
  rw [computeCalls_mono (Nat.le_max_left _ _) ends] at ends'
  obtain rfl := Option.some.inj ends'
  exact ⟨filled, tiles⟩

end Calls

/-! ## The whole function -/

section Whole

variable {ops : PoolOps} {lmemSize ih iw k euNum npuNum fuel : Nat}

theorem maxHeight_pos {maxH : Nat} (height : maxHeight lmemSize euNum = some maxH) : 0 < maxH :=
  of_decide_eq_true (Option.filter_eq_some_iff.mp height).2

/-- Whenever the function ends, its tiles leave the max filter in the output buffer, and the calls
    of its second stage go through the image rounded up to whole rows of the engine. -/
theorem runtimeJitGrayImageLight_exact (lawful : ops.Lawful) (ihPos : 0 < ih) (ihSmall : ih < 2 ^ 31)
    (iwPos : 0 < iw) (iwSmall : iw < 2 ^ 31) (kPos : 0 < k) (kSmall : k < 2 ^ 31)
    (euPos : 0 < euNum) (npuPos : 0 < npuNum) {tiles : List Tile} {calls : List ComputeCmds}
    (ends : runtimeJitGrayImageLight ops lmemSize euNum npuNum fuel ih iw k =
      some (tiles, calls)) :
    (∃ stepOh stepOw xTlSz, TilesExact ops ih iw k stepOh stepOw xTlSz tiles) ∧
      (∀ cmds ∈ calls, cmds.Dense) ∧
      Tiles (alignUp (ih * iw) euNum) (calls.map ComputeCmds.region) := by
  obtain ⟨tiles', first, ends⟩ := Option.bind_eq_some_iff.mp ends
  obtain ⟨maxH, height, ends⟩ := Option.bind_eq_some_iff.mp ends
  obtain ⟨calls', second, same⟩ := Option.map_eq_some_iff.mp ends
  obtain ⟨rfl, rfl⟩ := Prod.mk.inj same
  exact ⟨calcBackground_exact lawful ihPos ihSmall iwPos iwSmall kPos kSmall first,
    computeCalls_stores lawful.dense euPos npuPos (maxHeight_pos height) second⟩

/-- It ends exactly when its first stage does and the sizes of the second are in range, provided
    that the blocks pass the assertion of `compute`. -/
theorem runtimeJitGrayImageLight_isSome (dense : IsDense ops.tgDefaultStride) (euPos : 0 < euNum)
    (npuPos : 0 < npuNum)
    (passes : ∀ maxH, maxHeight lmemSize euNum = some maxH →
      ComputePasses ops lmemSize euNum npuNum maxH) :
    (runtimeJitGrayImageLight ops lmemSize euNum npuNum fuel ih iw k).isSome ↔
      (calcBackground ops lmemSize fuel ih iw ih iw k 1 ((k - 1) / 2)).isSome ∧
        ih * iw < 2 ^ 31 ∧ ∃ maxH, maxHeight lmemSize euNum = some maxH ∧
          npuNum * euNum * maxH < 2 ^ 31 := by
  constructor
  · intro ends
    obtain ⟨both, ends⟩ := Option.isSome_iff_exists.mp ends
    obtain ⟨tiles, first, ends⟩ := Option.bind_eq_some_iff.mp ends
    obtain ⟨maxH, height, ends⟩ := Option.bind_eq_some_iff.mp ends
    obtain ⟨calls, second, -⟩ := Option.map_eq_some_iff.mp ends
    obtain ⟨pixels, blocks⟩ := computeCalls_inRange second
    exact ⟨Option.isSome_of_eq_some first, pixels, maxH, height, blocks⟩
  · rintro ⟨first, pixels, maxH, height, blocks⟩
    obtain ⟨tiles, first⟩ := Option.isSome_iff_exists.mp first
    obtain ⟨calls, second, -⟩ := computeCalls_spec dense (passes maxH height) euPos npuPos
      (maxHeight_pos height) pixels blocks
    rw [runtimeJitGrayImageLight, first, Option.bind_some, height, Option.bind_some, second]
    rfl

/-- When the function ends, and what it leaves then. -/
theorem runtimeJitGrayImageLight_spec (lawful : ops.Lawful) (ihPos : 0 < ih) (ihSmall : ih < 2 ^ 31)
    (iwPos : 0 < iw) (iwSmall : iw < 2 ^ 31) (kPos : 0 < k) (kSmall : k < 2 ^ 31)
    (euPos : 0 < euNum) (npuPos : 0 < npuNum) :
    ((∀ maxH, maxHeight lmemSize euNum = some maxH →
        ComputePasses ops lmemSize euNum npuNum maxH) →
      ((runtimeJitGrayImageLight ops lmemSize euNum npuNum fuel ih iw k).isSome ↔
        (calcBackground ops lmemSize fuel ih iw ih iw k 1 ((k - 1) / 2)).isSome ∧
          ih * iw < 2 ^ 31 ∧ ∃ maxH, maxHeight lmemSize euNum = some maxH ∧
            npuNum * euNum * maxH < 2 ^ 31)) ∧
    ∀ tiles calls,
      runtimeJitGrayImageLight ops lmemSize euNum npuNum fuel ih iw k = some (tiles, calls) →
        (∃ stepOh stepOw xTlSz, TilesExact ops ih iw k stepOh stepOw xTlSz tiles) ∧
          (∀ cmds ∈ calls, cmds.Dense) ∧
          Tiles (alignUp (ih * iw) euNum) (calls.map ComputeCmds.region) := by
  constructor
  · exact runtimeJitGrayImageLight_isSome lawful.dense euPos npuPos
  · intro tiles calls
    exact runtimeJitGrayImageLight_exact lawful ihPos ihSmall iwPos iwSmall kPos kSmall euPos npuPos

end Whole

/-- Whenever the calls of the second stage are made, they store the image and nothing else exactly
    when it fills whole rows of the engine. Where all blocks pass the assertion of `compute`, they
    are made exactly when no product overflows. -/
theorem compute_calls_iff (ops : PoolOps) (dense : IsDense ops.tgDefaultStride)
    (lmemSize ih iw euNum npuNum maxH : Nat) (euPos : 0 < euNum) (npuPos : 0 < npuNum)
    (hPos : 0 < maxH) :
    (∀ calls, computeCalls ops lmemSize ih iw euNum npuNum maxH = some calls →
      (StoresImage (ih * iw) calls ↔ euNum ∣ ih * iw)) ∧
    (ComputePasses ops lmemSize euNum npuNum maxH →
      ((∃ calls, computeCalls ops lmemSize ih iw euNum npuNum maxH = some calls ∧
        StoresImage (ih * iw) calls) ↔
        euNum ∣ ih * iw ∧ ih * iw < 2 ^ 31 ∧ npuNum * euNum * maxH < 2 ^ 31)) := by
  have stores : ∀ calls, computeCalls ops lmemSize ih iw euNum npuNum maxH = some calls →
      (StoresImage (ih * iw) calls ↔ euNum ∣ ih * iw) := by
    intro calls ends
    obtain ⟨filled, tiles⟩ := computeCalls_stores dense euPos npuPos hPos ends
    rw [storesImage_iff filled tiles, alignUp_eq_iff _ euPos]
  refine ⟨stores, fun passes => ?_⟩
  constructor
  · rintro ⟨calls, ends, image⟩
    exact ⟨(stores calls ends).mp image, computeCalls_inRange ends⟩
  · rintro ⟨whole, pixels, blocks⟩
    obtain ⟨calls, ends, -⟩ := computeCalls_spec dense passes euPos npuPos hPos pixels blocks
    exact ⟨calls, ends, (stores calls ends).mpr whole⟩

theorem poolOps_passes : ComputePasses poolOps 32768 16 32 4 := by
  intro c h cLe hLe
  have size := Nat.mul_le_mul cLe hLe
  refine (Nat.mod_le _ _).trans_lt ?_
  simp only [poolOps, Nat.one_mul]
  omega

/-- One full block, four channels and three rows that remain. -/
theorem compute_calls_iff_rows :
    ∃ calls, computeCalls poolOps 32768 49 48 16 32 4 = some calls ∧ StoresImage (49 * 48) calls :=
  ((compute_calls_iff poolOps poolOps_lawful.dense 32768 49 48 16 32 4 (by decide) (by decide)
    (by decide)).2 poolOps_passes).mpr ⟨by decide, by decide, by decide⟩

/-- For an image of 5 by 5 bytes 32 bytes are stored. -/
theorem compute_calls_small_image :
    ¬ ∃ calls, computeCalls poolOps 32768 5 5 16 32 4 = some calls ∧ StoresImage (5 * 5) calls := by
  rintro ⟨calls, ends, stores⟩
  obtain ⟨filled, tiles⟩ := computeCalls_stores poolOps_lawful.dense (by decide) (by decide)
    (by decide) ends
  exact absurd ((storesImage_iff filled tiles).mp stores) (by decide)

end CviRuntime.Kernel
