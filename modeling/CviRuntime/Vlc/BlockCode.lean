import CviRuntime.Vlc.Block

/-!
# The code of a block

The encoder appends the planes, the number of zeros and the field of the ends; the decoder, told
how long the code is, gets the block back and stops behind it.
-/

namespace CviRuntime.Vlc

open CviRuntime.BitStream

/-- The code of a block. -/
def blockBits (blk : List UInt8) (orderK : Option Nat) (bf16ZvcEn : Bool) : List Bool :=
  match orderK with
  | none => bitsOf blk 128
  | some k =>
    bitsOf (remainField blk k) (k <<< 4) ++
      (bitsOf [UInt8.ofNat (zeroNum blk)] (znumBit bf16ZvcEn k) ++
        bitsOf (unaryField (symEnds 0 (groups blk k))) (unaryLen blk k))

/-- What the encoder returns with it. -/
def blockUlen (blk : List UInt8) (orderK : Option Nat) : Nat :=
  match orderK with
  | none => 128
  | some k => unaryLen blk k - 16

section Code

variable {blk : List UInt8} {orderK : Option Nat} {bf16ZvcEn : Bool} {bs : StreamBuffer}
  {bits rest : List Bool}

theorem length_blockBits_none : (blockBits blk none bf16ZvcEn).length = 128 := by
  simp [blockBits]

theorem length_blockBits_some (k : Nat) : (blockBits blk (some k) bf16ZvcEn).length =
    k <<< 4 + unaryLen blk k + znumBit bf16ZvcEn k := by
  simp only [blockBits, List.length_append, length_bitsOf]
  omega

theorem Codable.length_le (codable : Codable blk bf16ZvcEn orderK) :
    (blockBits blk orderK bf16ZvcEn).length ≤ 128 := by
  cases orderK with
  | none => rw [length_blockBits_none]
  | some k =>
    rw [length_blockBits_some]
    exact (codable.order k rfl).2.2

theorem Codable.groups_ne_nil (codable : Codable blk bf16ZvcEn orderK) (k : Nat) :
    groups blk k ≠ [] := by
  intro empty
  have length := congrArg List.length empty
  simp [groups, codable.length] at length

/-- Every symbol takes a bit of the field at least. -/
theorem Codable.le_unaryLen (codable : Codable blk bf16ZvcEn orderK) (k : Nat) :
    16 ≤ unaryLen blk k := by
  have sum : ∀ gs : List Nat, gs.length ≤ (gs.map (· + 1)).sum := by
    intro gs
    induction gs with
    | nil => simp
    | cons g gs ih =>
      rw [List.map_cons, List.sum_cons, List.length_cons]
      omega
  have count := sum (groups blk k)
  rwa [groups, List.length_map, codable.length] at count

theorem Codable.le_length (codable : Codable blk bf16ZvcEn orderK) :
    16 ≤ (blockBits blk orderK bf16ZvcEn).length := by
  cases orderK with
  | none =>
    rw [length_blockBits_none]
    omega
  | some k =>
    have many := codable.le_unaryLen k
    rw [length_blockBits_some]
    omega

/-- The ends lie in the first 47 bits. -/
theorem Codable.end_lt {k : Nat} (codable : Codable blk bf16ZvcEn (some k)) {pos : Nat}
    (member : pos ∈ symEnds 0 (groups blk k)) : pos < unaryLen blk k ∧ pos < 64 := by
  have bounds := (symEnds_bounds member).2
  have short := (codable.order k rfl).2.1
  unfold maxUnaryFieldSize at short
  unfold unaryLen at short ⊢
  omega

theorem Codable.symEndPos_eq {k : Nat} (codable : Codable blk bf16ZvcEn (some k)) :
    (symEnds 0 (groups blk k)).map (· % 256) = symEnds 0 (groups blk k) := by
  have same : ∀ pos ∈ symEnds 0 (groups blk k), pos % 256 = id pos := fun pos member =>
    Nat.mod_eq_of_lt (Nat.lt_trans (codable.end_lt member).2 (by decide))
  rw [List.map_congr_left same, List.map_id]

/-- The number of zeros, if it is written at all. -/
theorem writeZeroNum_wrote (codable : Codable blk bf16ZvcEn orderK) {k : Nat}
    (order : orderK = some k) (wrote : Wrote bs bits)
    (fits : bits.length + znumBit bf16ZvcEn k ≤ 8 * bs.stream.length)
    (range : bits.length + znumBit bf16ZvcEn k < 2 ^ 31) :
    ∃ bs', writeZeroNum blk bs k bf16ZvcEn = some bs' ∧
      Wrote bs' (bits ++ bitsOf [UInt8.ofNat (zeroNum blk)] (znumBit bf16ZvcEn k)) ∧
      bs'.stream.length = bs.stream.length := by
  unfold writeZeroNum
  by_cases counted : bf16ZvcEn = true ∧ 0 < k
  · rw [if_pos counted, if_pos (codable.zeros k order counted)]
    unfold znumBit at fits range ⊢
    rw [if_pos counted] at fits range ⊢
    exact wrote.writeStream [UInt8.ofNat (zeroNum blk)] 4 (by simp) fits range
  · rw [if_neg counted]
    refine ⟨bs, rfl, ?_, rfl⟩
    unfold znumBit
    rw [if_neg counted]
    simpa [bitsOf] using wrote

/-- The encoder appends the code. -/
theorem vlcGrEncBlockData_wrote (codable : Codable blk bf16ZvcEn orderK) (wrote : Wrote bs bits)
    (fits : bits.length + (blockBits blk orderK bf16ZvcEn).length ≤ 8 * bs.stream.length)
    (range : bits.length + (blockBits blk orderK bf16ZvcEn).length < 2 ^ 31) :
    ∃ bs', vlcGrEncBlockData blk bs orderK bf16ZvcEn = some (bs', blockUlen blk orderK) ∧
      Wrote bs' (bits ++ blockBits blk orderK bf16ZvcEn) ∧
      bs'.stream.length = bs.stream.length := by
  cases orderK with
  | none =>
    rw [length_blockBits_none] at fits range
    obtain ⟨bs', write, wrote', length⟩ := wrote.writeStream blk 128
      (by rw [codable.length]) fits range
    exact ⟨bs', by simp [vlcGrEncBlockData, write, blockUlen], wrote', length⟩
  | some k =>
    rw [length_blockBits_some] at fits range
    obtain ⟨small, short, -⟩ := codable.order k rfl
    unfold maxOrderK at small
    have planes : k <<< 4 ≤ 128 := by
      rw [Nat.shiftLeft_eq]
      omega
    obtain ⟨bs₁, write₁, wrote₁, length₁⟩ := wrote.writeStream (remainField blk k) (k <<< 4)
      (by simpa [remainField] using planes) (by omega) (by omega)
    obtain ⟨bs₂, write₂, wrote₂, length₂⟩ := writeZeroNum_wrote codable rfl wrote₁
      (by rw [List.length_append, length_bitsOf]; omega)
      (by rw [List.length_append, length_bitsOf]; omega)
    obtain ⟨bs₃, write₃, wrote₃, length₃⟩ := wrote₂.writeStream
      (unaryField (symEnds 0 (groups blk k))) (unaryLen blk k)
      (by
        rw [unaryField, length_foldl_orBit (fun pos => pos) fun _ => true, List.length_replicate]
        unfold maxUnaryFieldSize at short
        omega)
      (by simp only [List.length_append, length_bitsOf]; omega)
      (by simp only [List.length_append, length_bitsOf]; omega)
    have inField : ((symEnds 0 (groups blk k)).any fun pos => decide (64 ≤ pos)) = false := by
      rw [List.any_eq_false]
      intro pos member
      have lt := (codable.end_lt member).2
      simpa using lt
    have last : (symEnds 0 (groups blk k)).getLastD 0 + 1 = unaryLen blk k := by
      rw [symEnds_last 0 (codable.groups_ne_nil k), Nat.zero_add]
      rfl
    have many := codable.le_unaryLen k
    have ulen : (uint8 ((unaryLen blk k : Int) - 16)).toNat % 32 = unaryLen blk k - 16 := by
      have byte := toNat_uint8 ((unaryLen blk k : Int) - 16)
      unfold maxUnaryFieldSize at short
      omega
    refine ⟨bs₃, ?_, ?_, by rw [length₃, length₂, length₁]⟩
    · simp only [vlcGrEncBlockData, write₁, write₂, codable.symEndPos_eq, inField, last,
        Option.bind_eq_bind, Option.bind_some, Bool.false_eq_true, if_false]
      rw [Nat.mod_eq_of_lt (by unfold maxUnaryFieldSize at short; omega), if_pos short]
      simp [write₃, ulen, blockUlen]
    · simpa [blockBits, List.append_assoc] using wrote₃

/-- A symbol is its group and its low bits. -/
theorem zipWith_symbols (blk : List UInt8) (k : Nat) :
    List.zipWith (fun sym remain => uint8 (sym.toNat <<< k + remain.toNat))
      ((groups blk k).map fun g : Nat => uint8 (g : Int))
      (blk.map fun symbol => UInt8.ofNat (symbol.toNat % 2 ^ k)) = blk := by
  induction blk with
  | nil => rfl
  | cons symbol blk ih =>
    simp only [groups, List.map_cons, List.zipWith_cons_cons]
    congr 1
    have lt := symbol.toNat_lt
    have low : symbol.toNat % 2 ^ k ≤ symbol.toNat := Nat.mod_le _ _
    have high : symbol.toNat >>> k ≤ symbol.toNat := by
      rw [Nat.shiftRight_eq_div_pow]
      exact Nat.div_le_self _ _
    rw [toNat_uint8_of_lt (Nat.lt_of_le_of_lt high lt), UInt8.toNat_ofNat',
      Nat.mod_eq_of_lt (by omega), ← Int.natCast_add, Nat.shiftLeft_eq,
      Nat.shiftRight_eq_div_pow, Nat.mul_comm, Nat.div_add_mod, uint8_toNat]

/-- The decoder gets the block and stops behind its code. -/
theorem vlcGrDecBlockData_eq (codable : Codable blk bf16ZvcEn orderK)
    (gives : Gives bs (blockBits blk orderK bf16ZvcEn ++ rest)) :
    ∃ bs', vlcGrDecBlockData bs (blockBits blk orderK bf16ZvcEn).length orderK bf16ZvcEn =
        some (bs', blk) ∧ bs'.stream = bs.stream ∧ Gives bs' rest := by
  have within := codable.length_le
  cases orderK with
  | none =>
    obtain ⟨bs', read, same, later⟩ := gives.parseStream_bitsOf (by rw [codable.length])
      fun j ge => bitAt_outside (by rw [codable.length]; exact ge)
    rw [codable.length] at read
    exact ⟨bs', by simp only [vlcGrDecBlockData, if_neg (Nat.not_lt.mpr within), read], same, later⟩
  | some k =>
    obtain ⟨small, short, -⟩ := codable.order k rfl
    unfold maxOrderK at small
    unfold maxUnaryFieldSize at short
    rw [length_blockBits_some] at within ⊢
    have planes : k <<< 4 = 16 * k := by
      rw [Nat.shiftLeft_eq]
      omega
    have remainLength : (remainField blk k).length = 16 := by simp [remainField]
    have fieldLength : (unaryField (symEnds 0 (groups blk k))).length = 8 := by
      rw [unaryField, length_foldl_orBit (fun pos => pos) fun _ => true, List.length_replicate]
    have znumLe : znumBit bf16ZvcEn k ≤ 4 := by
      unfold znumBit
      split <;> omega
    simp only [blockBits, List.append_assoc] at gives
    obtain ⟨bs₁, read₁, same₁, gives₁⟩ := gives.parseStream_bitsOf
      (by rw [remainLength]; omega) fun j ge => by
        rw [bitAt_remainField blk (by omega), decide_eq_false (by omega), Bool.false_and]
    obtain ⟨bs₂, read₂, same₂, gives₂⟩ := gives₁.parseStream (n := 1)
      (by rw [length_bitsOf]; omega)
    obtain ⟨bs₃, read₃, same₃, gives₃⟩ := gives₂.parseStream_bitsOf
      (by rw [fieldLength]; omega) fun j ge => by
        rw [bitAt_unaryField fun pos member => (codable.end_lt member).2, decide_eq_false_iff_not]
        intro member
        have lt := (codable.end_lt member).1
        omega
    rw [remainLength] at read₁
    rw [length_bitsOf] at read₂
    rw [fieldLength] at read₃
    have difference : ((k <<< 4 + unaryLen blk k + znumBit bf16ZvcEn k : Nat) : Int) -
        (k <<< 4 : Nat) - (znumBit bf16ZvcEn k : Nat) = (unaryLen blk k : Nat) := by
      omega
    have fieldLen : (uint8 (((k <<< 4 + unaryLen blk k + znumBit bf16ZvcEn k : Nat) : Int) -
        (k <<< 4 : Nat) - (znumBit bf16ZvcEn k : Nat))).toNat = unaryLen blk k := by
      rw [difference, toNat_uint8_of_lt (by omega)]
    have found : (List.range (unaryLen blk k)).filter
        (bitAt (unaryField (symEnds 0 (groups blk k)))) = symEnds 0 (groups blk k) :=
      filter_unaryField (symEnds_pairwise _ _) (fun pos member => (codable.end_lt member).1)
        (by omega)
    have count : (symEnds 0 (groups blk k)).length = 16 := by
      rw [length_symEnds, groups, List.length_map, codable.length]
    have syms := unarySyms_symEnds (groups blk k) 0
    rw [show ((0 : Nat) : Int) - 1 = -1 from rfl] at syms
    refine ⟨bs₃, ?_, by rw [same₃, same₂, same₁], gives₃⟩
    simp only [vlcGrDecBlockData, if_neg (Nat.not_lt.mpr within), read₁, read₂, fieldLen, read₃,
      found, count, Option.bind_eq_bind, Option.bind_some, Nat.lt_irrefl, if_false,
      Nat.sub_self, List.replicate_zero, List.append_nil, syms,
      remainData_remainField codable.length (by omega : k ≤ 8)]
    rw [zipWith_symbols]
    rfl

end Code

end CviRuntime.Vlc
