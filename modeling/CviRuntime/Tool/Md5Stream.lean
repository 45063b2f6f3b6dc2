import CviRuntime.Tool.Md5

/-!
# Feeding the MD5 in pieces

After each `update` the object stands for everything it was fed with: the state for the whole
blocks, the buffer for what follows them and the counter for the length.
-/

namespace CviRuntime.Md5

open CviRuntime.ByteMem CviRuntime.BlockStream

/-- What the object was fed with. -/
structure Fed (m : MD5) (fed : List UInt8) : Prop where
  notFinalized : m.finalized = false
  countLo : m.countLo < 2 ^ 32
  countHi : m.countHi < 2 ^ 32
  count : m.countLo + 2 ^ 32 * m.countHi = 8 * fed.length % 2 ^ 64
  state : m.state = absorb transform 64 initialState fed
  buffer : readBytes m.buffer 0 (fed.length % 64) = residue 64 fed

variable {m : MD5} {fed input : List UInt8} {length : Nat}

theorem fed_new (initial : Nat → UInt8) : Fed (new initial) [] where
  notFinalized := rfl
  countLo := Nat.two_pow_pos 32
  countHi := Nat.two_pow_pos 32
  count := rfl
  state := rfl
  buffer := rfl

/-- The buffer is filled up to the length modulo 64. -/
theorem Fed.index (fits : Fed m fed) : m.countLo / 8 % 64 = fed.length % 64 := by
  have count := fits.count
  have lo := fits.countLo
  omega

/-! ## The counter -/

/-- The counter takes the carry. -/
theorem count_add (length : Nat) {lo hi total : Nat} (loLt : lo < 2 ^ 32)
    (count : lo + 2 ^ 32 * hi = 8 * total % 2 ^ 64) :
    (lo + length * 8 % 2 ^ 32) % 2 ^ 32 +
      2 ^ 32 * (((if (lo + length * 8 % 2 ^ 32) % 2 ^ 32 < length * 8 % 2 ^ 32
        then (hi + 1) % 2 ^ 32 else hi) + length / 2 ^ 29) % 2 ^ 32) =
      8 * (total + length) % 2 ^ 64 := by
  split_ifs <;> omega

/-! ## The blocks -/

/-- The loop takes in the whole blocks; `i` stays below the length. -/
theorem transformLoop_spec (small : length < 2 ^ 32 - 64) (inside : length ≤ input.length) :
    ∀ {fuel i : Nat} {state : State}, i ≤ length → length - i < fuel →
      transformLoop input length fuel i state =
        some (i + 64 * ((length - i) / 64),
          blocks transform 64 ((length - i) / 64) state (input.drop i)) := by
  intro fuel
  induction fuel with
  | zero =>
    intro i state _ enough
    omega
  | succ fuel ih =>
    intro i state le enough
    have sum : (i + 64) % 2 ^ 32 = i + 64 := Nat.mod_eq_of_lt (by omega)
    rw [transformLoop, sum]
    by_cases more : i + 64 ≤ length
    · have count : (length - i) / 64 = (length - (i + 64)) / 64 + 1 := by omega
      rw [if_pos more, if_pos (by omega), ih more (by omega), count, blocks, List.drop_drop]
      congr 2
      omega
    · have none : (length - i) / 64 = 0 := Nat.div_eq_of_lt (by omega)
      rw [if_neg more, none]
      rfl

/-! ## The buffer -/

theorem memcpy_eq {buffer : Nat → UInt8} {index i n : Nat} (room : index + n ≤ 64)
    (inside : i + n ≤ input.length) :
    memcpy buffer index input i n = some (writeBytes buffer index ((input.drop i).take n)) :=
  if_pos ⟨room, inside⟩

/-- The bytes that were in the buffer and those copied behind them. -/
theorem readBytes_memcpy (buffer : Nat → UInt8) (index : Nat) {n : Nat} {piece : List UInt8}
    (length : piece.length = n) :
    readBytes (writeBytes buffer index piece) 0 (index + n) =
      readBytes buffer 0 index ++ piece := by
  subst length
  have first : readBytes (writeBytes buffer index piece) 0 index = readBytes buffer 0 index :=
    readBytes_writeBytes_outside (Or.inl (by omega))
  have second : readBytes (writeBytes buffer index piece) index piece.length = piece :=
    readBytes_writeBytes
  calc readBytes (writeBytes buffer index piece) 0 (index + piece.length)
      = readBytes (writeBytes buffer index piece) 0 index ++
          readBytes (writeBytes buffer index piece) index piece.length := by
        rw [readBytes_add, Nat.zero_add]
    _ = readBytes buffer 0 index ++ piece := by rw [first, second]

/-- A block that is filled and whole blocks behind it. -/
theorem absorb_filled {first : Nat} {block : List UInt8} (le : first ≤ length)
    (inside : length ≤ input.length)
    (filled : residue 64 fed ++ input.take first = block) (full : block.length = 64) :
    absorb transform 64 initialState (fed ++ input.take length) =
        blocks transform 64 ((length - first) / 64)
          (transform (absorb transform 64 initialState fed) block) (input.drop first) ∧
      residue 64 (fed ++ input.take length) =
        (input.drop (first + 64 * ((length - first) / 64))).take
          (length - (first + 64 * ((length - first) / 64))) := by
  have cut : input.take length = input.take first ++ (input.drop first).take (length - first) := by
    rw [← List.take_add]
    congr 1
    omega
  have restLength : ((input.drop first).take (length - first)).length = length - first := by
    rw [List.length_take, List.length_drop]
    omega
  have rest : residue 64 fed ++ input.take length =
      block ++ (input.drop first).take (length - first) := by
    rw [cut, ← List.append_assoc, filled]
  constructor
  · have whole : blocks transform 64 ((length - first) / 64)
        (transform (absorb transform 64 initialState fed) block)
        ((input.drop first).take (length - first) ++ (input.drop first).drop (length - first)) =
        blocks transform 64 ((length - first) / 64)
        (transform (absorb transform 64 initialState fed) block)
        ((input.drop first).take (length - first)) :=
      blocks_append (by omega)
    rw [List.take_append_drop] at whole
    rw [absorb_append (by decide), rest, absorb_block_append (by decide) full, absorb, restLength,
      whole]
  · rw [residue_append (by decide), rest, residue_block_append (by decide) full, residue,
      restLength, List.drop_take, List.drop_drop]
    congr 1
    omega

/-- `update` takes in the bytes that are passed. -/
theorem update_spec (fits : Fed m fed) (small : length < 2 ^ 32 - 64)
    (inside : length ≤ input.length) :
    ∃ m', update m input length = some m' ∧ Fed m' (fed ++ input.take length) := by
  have index := fits.index
  have lengthTaken : (input.take length).length = length := by
    rw [List.length_take, Nat.min_eq_left inside]
  have total : (fed ++ input.take length).length = fed.length + length := by
    rw [List.length_append, lengthTaken]
  have count := count_add length fits.countLo fits.count
  rw [← total] at count
  unfold update
  simp only [index]
  by_cases fills : 64 - fed.length % 64 ≤ length
  · obtain ⟨first, firstIs⟩ : ∃ first, first = 64 - fed.length % 64 := ⟨_, rfl⟩
    rw [← firstIs] at fills ⊢
    have pieceLength : (input.take first).length = first := by
      rw [List.length_take]
      omega
    have filled := readBytes_memcpy m.buffer (fed.length % 64) pieceLength
    rw [show fed.length % 64 + first = 64 by omega, fits.buffer] at filled
    obtain ⟨state, rest⟩ := absorb_filled fills inside filled.symm length_readBytes
    have room : fed.length % 64 + first ≤ 64 := by omega
    have room' : 0 + (length - (first + 64 * ((length - first) / 64))) ≤ 64 := by omega
    have behind : first + 64 * ((length - first) / 64) +
        (length - (first + 64 * ((length - first) / 64))) ≤ input.length := by omega
    rw [if_pos fills, memcpy_eq room (by omega), List.drop_zero]
    simp only [Option.bind_eq_bind, Option.bind_some]
    rw [transformLoop_spec small inside fills (by omega)]
    simp only [Option.bind_some]
    rw [memcpy_eq room' behind]
    refine ⟨_, rfl, fits.notFinalized, Nat.mod_lt _ (by decide), Nat.mod_lt _ (by decide), count,
      ?_, ?_⟩
    · rw [state, fits.state]
    · have copied := readBytes_memcpy (writeBytes m.buffer (fed.length % 64) (input.take first)) 0
        (congrArg List.length rest).symm
      rw [length_residue, Nat.zero_add] at copied
      rw [rest]
      exact copied
  · have short : (residue 64 fed ++ input.take length).length < 64 := by
      rw [List.length_append, length_residue, lengthTaken]
      omega
    have copied := readBytes_memcpy m.buffer (fed.length % 64) lengthTaken
    rw [if_neg fills, memcpy_eq (by omega) (by omega), List.drop_zero]
    refine ⟨_, rfl, fits.notFinalized, Nat.mod_lt _ (by decide), Nat.mod_lt _ (by decide), count,
      ?_, ?_⟩
    · rw [absorb_append (by decide), absorb_short short, ← fits.state]
    · rw [residue_append (by decide), residue_short short, ← fits.buffer, ← copied, total]
      congr 1
      omega

/-- `update` for every piece. -/
def feed (m : MD5) (pieces : List (List UInt8)) : Option MD5 :=
  pieces.foldlM (fun m piece => update m piece piece.length) m

theorem feed_spec {pieces : List (List UInt8)}
    (small : ∀ piece ∈ pieces, piece.length < 2 ^ 32 - 64) :
    ∀ {m : MD5} {fed : List UInt8}, Fed m fed →
      ∃ m', feed m pieces = some m' ∧ Fed m' (fed ++ pieces.flatten) := by
  induction pieces with
  | nil =>
    intro m fed fits
    exact ⟨m, rfl, by rwa [List.flatten_nil, List.append_nil]⟩
  | cons piece pieces ih =>
    intro m fed fits
    obtain ⟨first, rest⟩ := List.forall_mem_cons.mp small
    obtain ⟨m₁, updated, fits₁⟩ := update_spec fits first (Nat.le_refl _)
    rw [List.take_length] at fits₁
    obtain ⟨m₂, fedAll, fits₂⟩ := ih rest fits₁
    refine ⟨m₂, ?_, ?_⟩
    · rw [feed, List.foldlM_cons, updated]
      exact fedAll
    · rwa [List.flatten_cons, ← List.append_assoc]

/-! ## The digest -/

@[simp] theorem length_encode_pair (lo hi : Nat) : (encode [lo, hi]).length = 8 := rfl

/-- What `finalize` feeds. -/
theorem pad_eq (fed : List UInt8) (lo hi : Nat)
    (count : lo + 2 ^ 32 * hi = 8 * fed.length % 2 ^ 64) (loLt : lo < 2 ^ 32) :
    fed ++ padding.take (if fed.length % 64 < 56 then 56 - fed.length % 64
      else 120 - fed.length % 64) ++ (encode [lo, hi]).take 8 = pad fed := by
  have below : fed.length % 64 < 64 := Nat.mod_lt _ (by decide)
  have lo_eq : lo = 8 * fed.length % 2 ^ 32 := by omega
  have hi_eq : hi = 8 * fed.length / 2 ^ 32 % 2 ^ 32 := by omega
  have zeros : padding.take (if fed.length % 64 < 56 then 56 - fed.length % 64
      else 120 - fed.length % 64) =
        0x80 :: List.replicate ((119 - fed.length % 64) % 64) 0 := by
    obtain ⟨n, is⟩ : ∃ n, (if fed.length % 64 < 56 then 56 - fed.length % 64
        else 120 - fed.length % 64) = n + 1 ∧ n = (119 - fed.length % 64) % 64 := by
      split_ifs
      · exact ⟨55 - fed.length % 64, by omega, by omega⟩
      · exact ⟨119 - fed.length % 64, by omega, by omega⟩
    rw [is.1, padding, List.take_succ_cons, List.take_replicate, is.2]
    congr 2
    omega
  have whole : (encode [lo, hi]).take 8 = encode [lo, hi] := List.take_of_length_le (by simp)
  rw [zeros, whole, List.append_assoc, pad, ← lo_eq, ← hi_eq]

/-- After `finalize` the object has the digest of what it was fed with. -/
theorem finalize_spec (fits : Fed m fed) :
    ∃ m', finalize m = some m' ∧ m'.finalized = true ∧ m'.digest = md5 fed := by
  have index := fits.index
  obtain ⟨padLen, padLenIs⟩ : ∃ padLen, padLen = if fed.length % 64 < 56
    then 56 - fed.length % 64 else 120 - fed.length % 64 := ⟨_, rfl⟩
  have most : padLen ≤ 64 := by
    rw [padLenIs]
    split_ifs <;> omega
  have inPadding : padLen ≤ padding.length := most
  have inBits : 8 ≤ (encode [m.countLo, m.countHi]).length := Nat.le_refl 8
  obtain ⟨m₁, padded, fits₁⟩ := update_spec fits (by omega) inPadding
  obtain ⟨m₂, counted, fits₂⟩ := update_spec fits₁ (by decide) inBits
  rw [padLenIs, pad_eq fed _ _ fits.count fits.countLo] at fits₂
  unfold finalize
  simp only [index, ← padLenIs, fits.notFinalized, Bool.false_eq_true, if_false, padded,
    Option.bind_eq_bind, Option.bind_some, counted]
  refine ⟨_, rfl, rfl, ?_⟩
  show encode m₂.state.words = md5 fed
  rw [fits₂.state, md5]

/-- However the bytes are split into pieces, the object gives the digest of all of them, and
    `finalize` again changes nothing. -/
theorem hexdigest_of_pieces (initial : Nat → UInt8) (pieces : List (List UInt8))
    (small : ∀ piece ∈ pieces, piece.length < 2 ^ 32 - 64) :
    ∃ m m', feed (new initial) pieces = some m ∧ finalize m = some m' ∧
      hexdigest m' = hex (md5 pieces.flatten) ∧ finalize m' = some m' := by
  obtain ⟨m, fedAll, fits⟩ := feed_spec small (fed_new initial)
  obtain ⟨m', done, finalized, digest⟩ := finalize_spec fits
  refine ⟨m, m', fedAll, done, ?_, if_pos finalized⟩
  rw [hexdigest, if_pos finalized, digest, List.nil_append]

theorem hexdigest_of_pieces_run :
    ∃ m m', feed (new fun _ => 0xA5) [[97], [], [98, 99]] = some m ∧ finalize m = some m' ∧
      hexdigest m' = "900150983cd24fb0d6963f7d28e17f72" ∧ finalize m' = some m' := by
  obtain ⟨m, m', fedAll, done, digest, again⟩ :=
    hexdigest_of_pieces (fun _ => 0xA5) [[97], [], [98, 99]] (by decide)
  have value : hex (md5 [97, 98, 99]) = "900150983cd24fb0d6963f7d28e17f72" := by decide +kernel
  exact ⟨m, m', fedAll, done, digest.trans value, again⟩

end CviRuntime.Md5
