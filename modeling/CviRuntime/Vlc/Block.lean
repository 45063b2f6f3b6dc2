import Mathlib.Data.List.Sort
import CviRuntime.Vlc.Remap
import CviRuntime.Vlc.Stream

/-!
# Coding one block (`test/1822/bm_vlc_compress.h:273-420`)

Sixteen symbols are coded with an order `k`: their low `k` bits as planes, and what remains of
each as a run of zeros that a one ends. `vlc_estimate_block_order` chooses the order; a block that
does not get shorter is stored raw (order -1, here `none`).
-/

namespace CviRuntime.Vlc

open CviRuntime.BitStream

def maxUnaryFieldSize : Nat := 47

def maxOrderK : Nat := 5

/-! ## The order -/

/-- `group_idx` of the symbols. -/
def groups (blk : List UInt8) (k : Nat) : List Nat := blk.map fun symbol => symbol.toNat >>> k

def unaryLen (blk : List UInt8) (k : Nat) : Nat := ((groups blk k).map (· + 1)).sum

def znumBit (bf16ZvcEn : Bool) (k : Nat) : Nat := if bf16ZvcEn ∧ 0 < k then 4 else 0

/-- `blk_size`. -/
def blkSize (blk : List UInt8) (bf16ZvcEn : Bool) (k : Nat) : Nat :=
  if unaryLen blk k ≤ maxUnaryFieldSize then k <<< 4 + unaryLen blk k + znumBit bf16ZvcEn k
  else 255

/-- The loop over the orders: `best_k` and `best_bs_size`. -/
def bestOrder (blk : List UInt8) (bf16ZvcEn : Bool) (orders : Nat) : Nat × Nat :=
  (List.range orders).foldl
    (fun best k => if blkSize blk bf16ZvcEn k < best.2 then (k, blkSize blk bf16ZvcEn k) else best)
    (0, 0x7FFFFFFF)

/-- `vlc_estimate_block_order`. -/
def vlcEstimateBlockOrder (blk : List UInt8) (bf16ZvcEn : Bool) : Option Nat :=
  let best := bestOrder blk bf16ZvcEn (maxOrderK + 1)
  if best.2 > 128 then none else some best.1

/-! ## Encoding -/

/-- `get_bit_val`. -/
def getBitVal (buf : List UInt8) (byteIdx bitIdx : Nat) : Bool :=
  (buf.getD byteIdx 0).toNat.testBit bitIdx

/-- A byte given by its bits, as in `byte |= bit << i`. -/
def byteOf (n : Nat) (bit : Nat → Bool) : UInt8 :=
  ((List.range n).foldl (fun byte i => orBit byte i (bit i)) [0]).getD 0 0

/-- `remain_field`: the bytes `k << 1` and `(k << 1) + 1` are the bits `k` of the first and of the
    last eight symbols. -/
def remainField (blk : List UInt8) (orderK : Nat) : List UInt8 :=
  (List.range 16).map fun j =>
    if j / 2 < orderK then byteOf 8 fun i => getBitVal blk (8 * (j % 2) + i) (j / 2) else 0

/-- `zero_num`. -/
def zeroNum (blk : List UInt8) : Nat := blk.countP (· = 0)

/-- The values of `sym_end_pos_accum`, which is `start - 1` at first. -/
def symEnds : Nat → List Nat → List Nat
  | _, [] => []
  | start, group :: rest => (start + group) :: symEnds (start + group + 1) rest

/-- `unary_field`. -/
def unaryField (ends : List Nat) : List UInt8 :=
  ends.foldl (fun field pos => orBit field pos true) (List.replicate 8 0)

/-- The part of `vlc_gr_enc_block_data` for zero value compression. -/
def writeZeroNum (blk : List UInt8) (bs : StreamBuffer) (k : Nat) (bf16ZvcEn : Bool) :
    Option StreamBuffer :=
  if bf16ZvcEn ∧ 0 < k then
    if zeroNum blk < 16 then writeStream bs [UInt8.ofNat (zeroNum blk)] 4 else none
  else some bs

/-- `vlc_gr_enc_block_data`; it returns `ulen`, or 128 for a raw block. -/
def vlcGrEncBlockData (blk : List UInt8) (bs : StreamBuffer) (orderK : Option Nat)
    (bf16ZvcEn : Bool) : Option (StreamBuffer × Nat) :=
  match orderK with
  | none => do
    let bs ← writeStream bs blk 128
    return (bs, 128)
  | some k => do
    let bs ← writeStream bs (remainField blk k) (k <<< 4)
    let bs ← writeZeroNum blk bs k bf16ZvcEn
    let symEndPos := (symEnds 0 (groups blk k)).map (· % 256)
    if symEndPos.any fun pos => 64 ≤ pos then none
    else do
      let unaryFieldLen := (symEndPos.getLastD 0 + 1) % 256
      if unaryFieldLen ≤ maxUnaryFieldSize then do
        let bs ← writeStream bs (unaryField symEndPos) unaryFieldLen
        return (bs, (uint8 ((unaryFieldLen : Int) - 16)).toNat % 32)
      else none

/-! ## Decoding -/

/-- `remain_data`: bit `k` of a symbol is bit `i` of byte `k << 1` or `(k << 1) + 1`. -/
def remainData (remainBs : List UInt8) (orderK : Nat) : List UInt8 :=
  (List.range 16).map fun i => byteOf orderK fun k => getBitVal remainBs (2 * k + i / 8) (i % 8)

/-- `unary_sym`, from the end of the symbol before on. -/
def unarySyms : Int → List Nat → List UInt8
  | _, [] => []
  | prev, pos :: rest => uint8 (pos - prev - 1) :: unarySyms pos rest

/-- `vlc_gr_dec_block_data`. -/
def vlcGrDecBlockData (bs : StreamBuffer) (bsSize : Nat) (orderK : Option Nat) (bf16ZvcEn : Bool) :
    Option (StreamBuffer × List UInt8) :=
  if 128 < bsSize then none
  else
    match orderK with
    | none => parseStream bs 16 128
    | some k => do
      let (bs, remainBs) ← parseStream bs 16 (k <<< 4)
      let (bs, _) ← parseStream bs 1 (znumBit bf16ZvcEn k)
      let unaryFieldLen :=
        (uint8 ((bsSize : Int) - (k <<< 4 : Nat) - (znumBit bf16ZvcEn k : Nat))).toNat
      let (bs, unaryField) ← parseStream bs 8 unaryFieldLen
      let symEndPos := (List.range unaryFieldLen).filter (bitAt unaryField)
      if 16 < symEndPos.length then none
      else
        let unarySym := unarySyms (-1) (symEndPos ++ List.replicate (16 - symEndPos.length) 0)
        return (bs, List.zipWith (fun sym remain => uint8 (sym.toNat <<< k + remain.toNat)) unarySym
          (remainData remainBs k))

/-! ## What the order is good for -/

/-- A block that can be coded with an order: its fields have room, and with `bf16ZvcEn` the number
    of zeros has four bits. -/
structure Codable (blk : List UInt8) (bf16ZvcEn : Bool) (orderK : Option Nat) : Prop where
  length : blk.length = 16
  order : ∀ k, orderK = some k → k ≤ maxOrderK ∧ unaryLen blk k ≤ maxUnaryFieldSize ∧
    k <<< 4 + unaryLen blk k + znumBit bf16ZvcEn k ≤ 128
  zeros : ∀ k, orderK = some k → bf16ZvcEn = true ∧ 0 < k → zeroNum blk < 16

section Order

variable {blk : List UInt8} {bf16ZvcEn : Bool}

/-- The loop keeps the first of the smallest sizes. -/
theorem bestOrder_spec (blk : List UInt8) (bf16ZvcEn : Bool) : ∀ {orders : Nat}, 1 ≤ orders →
    (bestOrder blk bf16ZvcEn orders).1 < orders ∧
      (bestOrder blk bf16ZvcEn orders).2 =
        blkSize blk bf16ZvcEn (bestOrder blk bf16ZvcEn orders).1 ∧
      ∀ k, k < orders → (bestOrder blk bf16ZvcEn orders).2 ≤ blkSize blk bf16ZvcEn k := by
  intro orders some
  induction orders, some using Nat.le_induction with
  | base =>
    have small : blkSize blk bf16ZvcEn 0 < 0x7FFFFFFF := by
      unfold blkSize znumBit maxUnaryFieldSize
      split
      · split <;> omega
      · omega
    have first : bestOrder blk bf16ZvcEn 1 = (0, blkSize blk bf16ZvcEn 0) := by
      simp [bestOrder, small]
    rw [first]
    refine ⟨by simp, rfl, fun k lt => ?_⟩
    rw [show k = 0 by omega]
  | succ n _ ih =>
    obtain ⟨lt, size, least⟩ := ih
    have next : bestOrder blk bf16ZvcEn (n + 1) =
        if blkSize blk bf16ZvcEn n < (bestOrder blk bf16ZvcEn n).2 then
          (n, blkSize blk bf16ZvcEn n)
        else bestOrder blk bf16ZvcEn n := by
      unfold bestOrder
      rw [List.range_succ, List.foldl_append]
      rfl
    rw [next]
    split
    · rename_i smaller
      refine ⟨by simp, rfl, fun k lt' => ?_⟩
      rcases Nat.lt_or_ge k n with before | _
      · exact Nat.le_trans (Nat.le_of_lt smaller) (least k before)
      · rw [show k = n by omega]
    · rename_i notSmaller
      refine ⟨by omega, size, fun k lt' => ?_⟩
      rcases Nat.lt_or_ge k n with before | _
      · exact least k before
      · rw [show k = n by omega]
        omega

/-- With an order above 0 a block of zeros would be longer. -/
theorem blkSize_zeros (length : blk.length = 16) (zeros : 16 ≤ zeroNum blk) {k : Nat} :
    blkSize blk bf16ZvcEn k = k <<< 4 + 16 + znumBit bf16ZvcEn k := by
  have all : ∀ symbol ∈ blk, symbol = 0 := by
    have count : blk.countP (· = 0) = blk.length := by
      have le := List.countP_le_length (p := (· = 0)) (l := blk)
      unfold zeroNum at zeros
      omega
    simpa using List.countP_eq_length.mp count
  have replicated : blk = List.replicate 16 0 := by
    rw [List.eq_replicate_iff]
    exact ⟨length, all⟩
  have len : unaryLen blk k = 16 := by
    rw [replicated, unaryLen, groups]
    simp
  unfold blkSize
  rw [len, if_pos (by decide)]

theorem vlcEstimateBlockOrder_eq_some {k : Nat}
    (chosen : vlcEstimateBlockOrder blk bf16ZvcEn = some k) :
    (bestOrder blk bf16ZvcEn (maxOrderK + 1)).1 = k ∧
      (bestOrder blk bf16ZvcEn (maxOrderK + 1)).2 ≤ 128 := by
  unfold vlcEstimateBlockOrder at chosen
  dsimp only at chosen
  split at chosen
  · cases chosen
  · exact ⟨Option.some.inj chosen, by omega⟩

/-- The order that is chosen can be used. -/
theorem vlcEstimateBlockOrder_codable (bf16ZvcEn : Bool) (length : blk.length = 16) :
    Codable blk bf16ZvcEn (vlcEstimateBlockOrder blk bf16ZvcEn) := by
  obtain ⟨lt, size, least⟩ := bestOrder_spec blk bf16ZvcEn (by decide : 1 ≤ maxOrderK + 1)
  refine ⟨length, fun k chosen => ?_, fun k chosen ⟨_, positive⟩ => ?_⟩
  · obtain ⟨same, fits⟩ := vlcEstimateBlockOrder_eq_some chosen
    rw [size, same] at fits
    unfold blkSize at fits
    split at fits
    · rename_i short
      exact ⟨by omega, short, fits⟩
    · omega
  · obtain ⟨same, -⟩ := vlcEstimateBlockOrder_eq_some chosen
    by_contra many
    have longer := least 0 (by decide)
    rw [size, same, blkSize_zeros length (by omega), blkSize_zeros length (by omega),
      Nat.shiftLeft_eq] at longer
    simp only [znumBit, Nat.zero_shiftLeft, Nat.lt_irrefl, and_false, if_false] at longer
    omega

end Order

/-! ## Planes and ends -/

theorem testBit_byteOf {n : Nat} (le : n ≤ 8) (bit : Nat → Bool) (j : Nat) :
    (byteOf n bit).toNat.testBit j = (decide (j < n) && bit j) := by
  have length : ((List.range n).foldl (fun byte i => orBit byte i (bit i)) [0]).length = 1 := by
    rw [length_foldl_orBit (fun i => i)]
    rfl
  rcases Nat.lt_or_ge j 8 with lt | ge
  · have place := any_range_place n 0 j bit
    simp only [Nat.zero_add, Nat.zero_le, true_and, Nat.sub_zero] at place
    have read := bitAt_foldl_orBit (fun i => i) bit j (List.range n) [0]
    have zero : bitAt [0] j = false := bitAt_replicate_zero 1 j
    rw [place, zero, Bool.false_or, List.length_singleton,
      decide_eq_true (by omega : j / 8 < 1), Bool.true_and] at read
    rw [← read, bitAt, show j / 8 = 0 by omega, show j % 8 = j by omega]
    rfl
  · have power : 2 ^ 8 ≤ 2 ^ j := Nat.pow_le_pow_right (by omega) ge
    rw [Nat.testBit_lt_two_pow (Nat.lt_of_lt_of_le (UInt8.toNat_lt _) power),
      decide_eq_false (by omega), Bool.false_and]

theorem bitAt_remainField (blk : List UInt8) {k : Nat} (le : k ≤ 8) (j : Nat) :
    bitAt (remainField blk k) j =
      (decide (j / 16 < k) && getBitVal blk (8 * (j / 8 % 2) + j % 8) (j / 16)) := by
  unfold bitAt remainField
  rw [List.getD_eq_getElem?_getD, List.getElem?_map]
  rcases Nat.lt_or_ge (j / 8) 16 with lt | ge
  · rw [List.getElem?_range lt, Option.map_some, Option.getD_some,
      show j / 8 / 2 = j / 16 by omega]
    by_cases plane : j / 16 < k
    · rw [if_pos plane, testBit_byteOf (Nat.le_refl 8), decide_eq_true (by omega : j % 8 < 8),
        decide_eq_true plane]
    · rw [if_neg plane, decide_eq_false plane, Bool.false_and]
      exact Nat.zero_testBit _
  · rw [List.getElem?_eq_none (by simpa using ge), decide_eq_false (by omega), Bool.false_and]
    exact Nat.zero_testBit _

theorem getBitVal_eq_bitAt (buf : List UInt8) (byteIdx : Nat) {bitIdx : Nat} (lt : bitIdx < 8) :
    getBitVal buf byteIdx bitIdx = bitAt buf (8 * byteIdx + bitIdx) := by
  unfold getBitVal bitAt
  rw [show (8 * byteIdx + bitIdx) / 8 = byteIdx by omega,
    show (8 * byteIdx + bitIdx) % 8 = bitIdx by omega]

/-- The planes give the low bits of the symbols. -/
theorem remainData_remainField {blk : List UInt8} (length : blk.length = 16) {k : Nat}
    (le : k ≤ 8) :
    remainData (remainField blk k) k =
      blk.map fun symbol => UInt8.ofNat (symbol.toNat % 2 ^ k) := by
  unfold remainData
  apply List.ext_getElem
  · simp [length]
  · intro i lt lt'
    have small : i < 16 := by simpa using lt
    rw [List.getElem_map, List.getElem_map, List.getElem_range]
    apply UInt8.toNat.inj
    apply Nat.eq_of_testBit_eq
    intro j
    rw [testBit_byteOf le, UInt8.toNat_ofNat', Nat.testBit_mod_two_pow, Nat.testBit_mod_two_pow,
      getBitVal_eq_bitAt _ _ (Nat.mod_lt i (by omega)), bitAt_remainField blk le,
      show (8 * (2 * j + i / 8) + i % 8) / 16 = j by omega,
      show 8 * ((8 * (2 * j + i / 8) + i % 8) / 8 % 2) + (8 * (2 * j + i / 8) + i % 8) % 8 = i by
        omega]
    unfold getBitVal
    rw [List.getD_eq_getElem?_getD, List.getElem?_eq_getElem (by omega), Option.getD_some]
    by_cases low : j < k
    · simp [low, show j < 8 by omega]
    · simp [low]

theorem length_symEnds : ∀ (gs : List Nat) (start : Nat),
    (symEnds start gs).length = gs.length := by
  intro gs
  induction gs with
  | nil =>
    intro start
    rfl
  | cons g gs ih =>
    intro start
    rw [symEnds, List.length_cons, ih, List.length_cons]

/-- The ends lie in the field. -/
theorem symEnds_bounds : ∀ {gs : List Nat} {start pos : Nat}, pos ∈ symEnds start gs →
    start ≤ pos ∧ pos < start + (gs.map (· + 1)).sum := by
  intro gs
  induction gs with
  | nil =>
    intro start pos member
    cases member
  | cons g gs ih =>
    intro start pos member
    rw [List.map_cons, List.sum_cons]
    rcases List.mem_cons.mp member with rfl | later
    · omega
    · have bounds := ih later
      omega

/-- They increase. -/
theorem symEnds_pairwise : ∀ (gs : List Nat) (start : Nat),
    (symEnds start gs).Pairwise (· < ·) := by
  intro gs
  induction gs with
  | nil =>
    intro start
    exact List.Pairwise.nil
  | cons g gs ih =>
    intro start
    refine List.Pairwise.cons (fun pos later => ?_) (ih _)
    have bounds := symEnds_bounds later
    omega

/-- The last one ends the field. -/
theorem symEnds_last : ∀ {gs : List Nat} (start : Nat), gs ≠ [] →
    (symEnds start gs).getLastD 0 + 1 = start + (gs.map (· + 1)).sum := by
  intro gs
  induction gs with
  | nil =>
    intro start nonempty
    exact absurd rfl nonempty
  | cons g gs ih =>
    intro start _
    rw [symEnds, List.map_cons, List.sum_cons]
    cases gs with
    | nil => simp [symEnds, Nat.add_assoc]
    | cons g' gs =>
      have last := ih (start + g + 1) (by simp)
      rw [List.getLastD_cons]
      simp only [symEnds, List.getLastD_cons] at last ⊢
      omega

/-- From the ends the groups come back. -/
theorem unarySyms_symEnds : ∀ (gs : List Nat) (start : Nat),
    unarySyms ((start : Int) - 1) (symEnds start gs) = gs.map fun g : Nat => uint8 (g : Int) := by
  intro gs
  induction gs with
  | nil =>
    intro start
    rfl
  | cons g gs ih =>
    intro start
    have next := ih (start + g + 1)
    rw [show ((start + g + 1 : Nat) : Int) - 1 = ((start + g : Nat) : Int) by omega] at next
    rw [symEnds, unarySyms, next, List.map_cons,
      show ((start + g : Nat) : Int) - ((start : Int) - 1) - 1 = (g : Int) by omega]

theorem bitAt_unaryField {ends : List Nat} (inside : ∀ pos ∈ ends, pos < 64) (j : Nat) :
    bitAt (unaryField ends) j = decide (j ∈ ends) := by
  unfold unaryField
  rw [bitAt_foldl_orBit (fun pos => pos) fun _ => true, bitAt_replicate_zero, Bool.false_or,
    List.length_replicate, Bool.eq_iff_iff]
  simp only [Bool.and_true, Bool.and_eq_true, decide_eq_true_eq, List.any_eq_true]
  constructor
  · rintro ⟨-, pos, member, rfl⟩
    exact member
  · intro member
    have lt := inside j member
    exact ⟨by omega, j, member, rfl⟩

/-- The decoder finds the ends. -/
theorem filter_unaryField {ends : List Nat} {len : Nat} (sorted : ends.Pairwise (· < ·))
    (inside : ∀ pos ∈ ends, pos < len) (le : len ≤ 64) :
    (List.range len).filter (bitAt (unaryField ends)) = ends := by
  refine List.Pairwise.eq_of_mem_iff (List.pairwise_lt_range.filter _) sorted fun j => ?_
  rw [List.mem_filter, List.mem_range,
    bitAt_unaryField (fun pos member => Nat.lt_of_lt_of_le (inside pos member) le),
    decide_eq_true_eq]
  exact ⟨fun both => both.2, fun member => ⟨inside j member, member⟩⟩

end CviRuntime.Vlc
