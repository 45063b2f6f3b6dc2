import CviRuntime.Lz4Block.CompressRun
import CviRuntime.Lz4Block.FastLoop

/-!
# Compressing and decompressing

What `LZ4_compress_fast` returns is a block from which `LZ4_decompress_safe` restores the source,
whatever the hash table led it to. A block that is accepted is decoded to the same bytes with every
larger capacity.
-/

namespace CviRuntime.Lz4Block

open CviRuntime.ByteMem CviRuntime.Lz77

section

variable {job : Job} {size size' : Nat} {dst : Output}

/-! ## Compressing -/

theorem Job.emitted_nil (job : Job) (dst : Output) : Job.Emitted job dst.size 0 0 dst [] where
  expands := List.take_zero.symm
  inside := Nat.zero_le _
  kept := trivial
  sameSize := rfl
  length := rfl
  holds := fun i below => absurd below (Nat.not_lt_zero i)

/-- What is promised of the job of an input that can be compressed. -/
theorem Job.compressGeneric_spec (job : Job) (dst : Output) (capacity : job.Capacity dst.size)
    (short : job.source.length ≤ 0x7E000000)
    (near : job.tableType = .byU16 → job.source.length < 65536 + 11)
    (accelerated : 1 ≤ job.acceleration) :
    Job.Compressed job dst.size (job.compressGeneric dst) := by
  rw [Job.compressGeneric, if_neg (by omega)]
  by_cases empty : job.source.length = 0
  · rw [if_pos empty]
    have none : job.source = [] := List.eq_nil_of_length_eq_zero empty
    by_cases full : job.limited ∧ job.olimit ≤ 0
    · rw [if_pos full]
      exact ⟨0, dst, rfl, rfl, Or.inl ⟨rfl, full.1⟩⟩
    · have fits : 0 + 1 ≤ dst.size := by
        unfold Job.Capacity at capacity
        split_ifs at capacity with limited
        · have some_room : ¬job.olimit ≤ 0 := fun small => full ⟨limited, small⟩
          omega
        · omega
      obtain ⟨o, put, size', kept⟩ := put_append (l := []) [0] rfl
        (fun i below => absurd below (Nat.not_lt_zero i)) fits
      have written : dst.put 0 [0] = some o := put
      rw [if_neg full, written]
      refine ⟨1, o, rfl, size', Or.inr ⟨[], [], rfl, fits, kept, ?_, trivial⟩⟩
      rw [none]
      rfl
  · rw [if_neg empty, Job.compressGenericValidated, if_neg (by
      rintro ⟨kind, large⟩
      have := near kind
      omega)]
    by_cases few : job.source.length < 13
    · rw [if_pos few]
      exact Job.lastLiterals_spec capacity (Job.emitted_nil job dst)
    · have valid : job.Valid := ⟨by omega, short, near, accelerated⟩
      obtain ⟨h0, hash0, lt0⟩ := Job.hashPosition_spec (show 0 + 8 ≤ job.source.length by omega)
      obtain ⟨h1, hash1, lt1⟩ := Job.hashPosition_spec (show 1 + 8 ≤ job.source.length by omega)
      have empty : Job.Below (fun _ => 0) 1 := fun _ => Nat.one_pos
      obtain ⟨table, put, below⟩ := Job.putIndexOnHash_spec lt0 empty (show 0 < 1 by decide)
      have first : job.putPosition (fun _ => 0) 0 = some table := by
        rw [Job.putPosition, hash0]
        exact put
      rw [if_neg few, first, hash1]
      have inv : Job.Inv job dst.size ⟨0, 0, dst, table, .search 1 h1⟩ :=
        ⟨[], Job.emitted_nil job dst, Nat.zero_le 1, show 1 + 11 ≤ _ by omega, below, lt1⟩
      apply Job.mainLoop_spec valid capacity inv
      show 2 * (job.source.length - 0) + 1 < _
      omega

/-- A block is at most as long as `LZ4_compressBound` says. -/
theorem length_encodeBlock_le {n : Nat} {sequences : List (Sequence UInt8)} {last : List UInt8}
    (kept : AllRestricted n 0 sequences) :
    (encodeBlock sequences last).length ≤ (expand 0 [] sequences ++ last).length +
      (expand 0 [] sequences ++ last).length / 255 + 16 := by
  have bound := length_encodeSequences_le [] kept
  have written := length_lengthBytes last.length
  simp only [encodeBlock, encodeLast, List.length_append, List.length_cons, List.length_nil] at *
  split_ifs at written <;> omega

/-- What `LZ4_compress_fast` returns. -/
theorem compressFast_spec (source : List UInt8) (dst : Output) (acceleration : Int) :
    ∃ rc out, compressFast source dst acceleration = some (rc, out) ∧ out.size = dst.size ∧
      (rc = 0 ∧ (0x7E000000 < source.length ∨ dst.size < compressBound source.length) ∨
        ∃ sequences last, rc = ((encodeBlock sequences last).length : Nat) ∧
          (encodeBlock sequences last).length ≤ dst.size ∧
          Holds (encodeBlock sequences last) (encodeBlock sequences last).length out ∧
          expand 0 [] sequences ++ last = source ∧
          AllRestricted source.length 0 sequences ∧ source.length ≤ 0x7E000000) := by
  have accelerated : 1 ≤ (if (if acceleration < 1 then 1 else acceleration) > 65537 then 65537
      else if acceleration < 1 then 1 else acceleration : Int).toNat := by
    split_ifs <;> omega
  have near (small : (if source.length < 65536 + 11 then TableType.byU16 else .byU32) = .byU16) :
      source.length < 65536 + 11 := by
    by_contra large
    rw [if_neg large] at small
    cases small
  unfold compressFast
  simp only
  by_cases long : 0x7E000000 < source.length
  · have none : compressBound source.length = 0 := if_pos long
    rw [if_pos (by omega), Job.compressGeneric, if_pos long]
    exact ⟨0, dst, rfl, rfl, Or.inl ⟨rfl, Or.inl long⟩⟩
  · have bound : compressBound source.length = source.length + source.length / 255 + 16 :=
      if_neg long
    by_cases large : compressBound source.length ≤ dst.size
    · obtain ⟨rc, out, run, size', ⟨_, limited⟩ | ⟨sequences, last, result⟩⟩ :=
        Job.compressGeneric_spec ⟨source, false, 0, _, _⟩ dst
          (show source.length + source.length / 255 + 16 ≤ dst.size by omega)
          (Nat.le_of_not_lt long) near accelerated
      · cases limited
      · rw [if_pos large]
        exact ⟨rc, out, run, size', Or.inr ⟨sequences, last, by
          obtain ⟨value, fits, holds, expands, kept⟩ := result
          exact ⟨value, fits, holds, expands, kept, Nat.le_of_not_lt long⟩⟩⟩
    · obtain ⟨rc, out, run, size', ⟨zero, _⟩ | ⟨sequences, last, result⟩⟩ :=
        Job.compressGeneric_spec ⟨source, true, dst.size, _, _⟩ dst
          (show dst.size = dst.size from rfl) (Nat.le_of_not_lt long) near accelerated
      · rw [if_neg large]
        exact ⟨rc, out, run, size', Or.inl ⟨zero, Or.inr (Nat.lt_of_not_le large)⟩⟩
      · rw [if_neg large]
        exact ⟨rc, out, run, size', Or.inr ⟨sequences, last, by
          obtain ⟨value, fits, holds, expands, kept⟩ := result
          exact ⟨value, fits, holds, expands, kept, Nat.le_of_not_lt long⟩⟩⟩

/-! ## Capacities -/

/-- A sequence that is accepted is accepted with every larger capacity. -/
theorem decodeSequence_mono {rest l : List UInt8} {decoded : Decoded} (less : size ≤ size')
    (accepted : decodeSequence size rest l = some decoded) :
    decodeSequence size' rest l = some decoded := by
  cases rest with
  | nil => cases accepted
  | cons token input =>
    rw [decodeSequence] at accepted ⊢
    cases literals : literalLength token input with
    | none =>
      rw [literals] at accepted
      cases accepted
    | some pair =>
      obtain ⟨length, rest⟩ := pair
      rw [literals] at accepted
      simp only [Option.bind_eq_bind, Option.bind_some] at accepted ⊢
      by_cases last : ¬Roomy size token input l ∧
          (size < l.length + length + 12 ∨ rest.length < length + 8)
      · rw [if_pos last] at accepted
        by_cases ends : rest.length = length ∧ l.length + length ≤ size
        · rw [if_pos ends] at accepted
          have notRoomy : ¬Roomy size' token input l := by
            rintro ⟨few, many, _⟩
            have byte := token.toNat_lt
            rw [literalLength, if_neg few] at literals
            cases literals
            omega
          rw [if_pos ⟨notRoomy, Or.inr (by omega)⟩, if_pos ⟨ends.1, by omega⟩]
          exact accepted
        · rw [if_neg ends] at accepted
          cases accepted
      · rw [if_neg last] at accepted
        have larger : Roomy size token input l → Roomy size' token input l :=
          fun roomy => ⟨roomy.1, roomy.2.1, Nat.le_trans roomy.2.2 less⟩
        have notLast : ¬(¬Roomy size' token input l ∧
            (size' < l.length + length + 12 ∨ rest.length < length + 8)) := by
          rintro ⟨notRoomy, close⟩
          exact last ⟨fun roomy => notRoomy (larger roomy), by omega⟩
        rw [if_neg notLast]
        unfold decodeMatch at accepted ⊢
        cases read : readLE16 (rest.drop length) with
        | none =>
          rw [read] at accepted
          cases accepted
        | some pair =>
          obtain ⟨offset, rest'⟩ := pair
          rw [read] at accepted
          simp only [Option.bind_eq_bind, Option.bind_some] at accepted ⊢
          cases lengths : matchLength token rest' with
          | none =>
            rw [lengths] at accepted
            cases accepted
          | some pair =>
            obtain ⟨matchLength, rest''⟩ := pair
            rw [lengths] at accepted
            simp only [Option.bind_some] at accepted ⊢
            split_ifs at accepted with outside fits
            rw [if_neg outside, if_pos]
            · exact accepted
            · rcases fits with room | ⟨roomy, rest⟩
              · exact Or.inl (by omega)
              · exact Or.inr ⟨larger roomy, rest⟩

theorem decodeSequences_mono {fuel : Nat} {rest l whole : List UInt8} (less : size ≤ size')
    (accepted : decodeSequences size fuel rest l = some whole) :
    decodeSequences size' fuel rest l = some whole := by
  induction fuel generalizing rest l with
  | zero => cases accepted
  | succ fuel ih =>
    rw [decodeSequences_succ] at accepted ⊢
    cases decoded : decodeSequence size rest l with
    | none =>
      rw [decoded] at accepted
      cases accepted
    | some step =>
      rw [decodeSequence_mono less decoded]
      rw [decoded] at accepted
      cases step with
      | next rest l => exact ih accepted
      | last l => exact accepted

/-- A block that is accepted is decoded to the same bytes with every larger capacity. -/
theorem decodeBlock_mono {block whole : List UInt8} (less : size ≤ size')
    (accepted : decodeBlock size block = some whole) : decodeBlock size' block = some whole := by
  unfold decodeBlock at accepted ⊢
  by_cases empty : size = 0
  · rw [if_pos empty] at accepted
    split_ifs at accepted with zero
    cases accepted
    split_ifs with empty'
    · rfl
    · have bytes : block = encodeBlock [] [] := zero
      rw [bytes]
      exact decodeSequences_encodeBlock (n := 0) trivial rfl (Nat.zero_le _) (by decide)
        (by decide)
  · rw [if_neg empty] at accepted
    rw [if_neg (by omega)]
    exact decodeSequences_mono less accepted

/-! ## Results -/

/-- Whatever the source, the destination and the acceleration: no access outside of the buffers
    and the hash table, a size that fits, and no failure with `LZ4_compressBound` bytes. -/
theorem compressFast_safe (source : List UInt8) (dst : Output) (acceleration : Int) :
    ∃ rc out, compressFast source dst acceleration = some (rc, out) ∧ out.size = dst.size ∧
      0 ≤ rc ∧ rc ≤ dst.size ∧ rc ≤ compressBound source.length ∧
      (source.length ≤ 0x7E000000 → compressBound source.length ≤ dst.size → 0 < rc) := by
  obtain ⟨rc, out, run, sameSize, ⟨rfl, why⟩ | ⟨sequences, last, rfl, fits, _, expands, kept,
    short⟩⟩ := compressFast_spec source dst acceleration
  · refine ⟨0, out, run, sameSize, Int.le_refl 0, by omega, by omega, ?_⟩
    intro short large
    omega
  · have bound : (encodeBlock sequences last).length ≤ _ := length_encodeBlock_le kept
    rw [expands] at bound
    have value : compressBound source.length = source.length + source.length / 255 + 16 :=
      if_neg (Nat.not_lt.mpr short)
    have some_byte : 0 < (encodeBlock sequences last).length :=
      Nat.lt_of_le_of_lt (Nat.zero_le _) length_le_encodeBlock
    exact ⟨_, out, run, sameSize, by omega, by omega, by omega, fun _ _ => by omega⟩

/-- What was compressed is a block of the source. -/
theorem decodeBlock_of_compressed {source : List UInt8} {dst : Output} {acceleration rc : Int}
    {out : Output} (compressed : compressFast source dst acceleration = some (rc, out))
    (success : 0 < rc) (room : source.length ≤ size) :
    decodeBlock size (readBytes out.mem 0 rc.toNat) = some source := by
  obtain ⟨rc', out', run, _, ⟨zero, _⟩ | ⟨sequences, last, value, _, holds, expands, kept,
    short⟩⟩ := compressFast_spec source dst acceleration
  · rw [compressed] at run
    cases run
    omega
  · rw [compressed] at run
    cases run
    have total : (expand 0 [] sequences).length + last.length = source.length := by
      rw [← List.length_append, expands]
    rw [value, Int.toNat_natCast, readBytes_of_holds holds,
      decodeBlock_encodeBlock kept total room (by omega), expands]

/-- What was compressed is restored by every build of the decoder, in every buffer that is large
    enough. -/
theorem decompressSafe_compressFast {source : List UInt8} {dst : Output} {acceleration rc : Int}
    {out : Output} (compressed : compressFast source dst acceleration = some (rc, out))
    (success : 0 < rc) (fastDecLoop : Bool) {buffer : Output}
    (room : source.length ≤ buffer.size) :
    ∃ restored, decompressSafe fastDecLoop (readBytes out.mem 0 rc.toNat) buffer =
        some ((source.length : Int), restored) ∧
      readBytes restored.mem 0 source.length = source := by
  have returns := decompressSafe_returns fastDecLoop (readBytes out.mem 0 rc.toNat) buffer
  rw [decodeBlock_of_compressed compressed success room] at returns
  obtain ⟨restored, run, _, bytes, _⟩ := returns
  exact ⟨restored, run, bytes⟩

theorem decompressSafe_compressFast_run :
    ∃ out restored,
      compressFast (List.replicate 20 7) ⟨40, fun _ => 0⟩ 1 = some (10, out) ∧
      decompressSafe true (readBytes out.mem 0 10) ⟨80, fun _ => 1⟩ = some (20, restored) ∧
      readBytes restored.mem 0 20 = List.replicate 20 7 := by
  have returned :
      (compressFast (List.replicate 20 7) ⟨40, fun _ => 0⟩ 1).map Prod.fst = some 10 := by
    decide +kernel
  obtain ⟨⟨rc, out⟩, compressed, rfl⟩ := Option.map_eq_some_iff.mp returned
  have large : (List.replicate 20 (7 : UInt8)).length ≤ (⟨80, fun _ => 1⟩ : Output).size := by
    decide
  obtain ⟨restored, run, bytes⟩ := decompressSafe_compressFast compressed (by decide) true large
  exact ⟨out, restored, compressed, run, bytes⟩

/-- A buffer that is too small is noticed. -/
theorem decompressSafe_small_buffer {source : List UInt8} {dst : Output}
    {acceleration rc : Int} {out : Output}
    (compressed : compressFast source dst acceleration = some (rc, out))
    (success : 0 < rc) (fastDecLoop : Bool) {buffer : Output}
    (small : buffer.size < source.length) :
    ∃ rc' left, decompressSafe fastDecLoop (readBytes out.mem 0 rc.toNat) buffer =
      some (rc', left) ∧ rc' < 0 := by
  have returns := decompressSafe_returns fastDecLoop (readBytes out.mem 0 rc.toNat) buffer
  cases plain : decodeBlock buffer.size (readBytes out.mem 0 rc.toNat) with
  | none =>
    rw [plain] at returns
    obtain ⟨rc', left, run, _, _, negative⟩ := returns
    exact ⟨rc', left, run, negative⟩
  | some l =>
    rw [plain] at returns
    obtain ⟨_, _, _, _, fits⟩ := returns
    have larger := decodeBlock_mono (Nat.le_of_lt small) plain
    rw [decodeBlock_of_compressed compressed success (Nat.le_refl _)] at larger
    cases larger
    omega

theorem decompressSafe_small_buffer_run :
    ∃ out rc left,
      compressFast (List.replicate 20 7) ⟨40, fun _ => 0⟩ 1 = some (10, out) ∧
      decompressSafe false (readBytes out.mem 0 10) ⟨19, fun _ => 1⟩ = some (rc, left) ∧
      rc < 0 := by
  have returned :
      (compressFast (List.replicate 20 7) ⟨40, fun _ => 0⟩ 1).map Prod.fst = some 10 := by
    decide +kernel
  obtain ⟨⟨rc, out⟩, compressed, rfl⟩ := Option.map_eq_some_iff.mp returned
  obtain ⟨rc', left, run, negative⟩ := decompressSafe_small_buffer compressed (by decide) false
    (show (⟨19, fun _ => 1⟩ : Output).size < _ by decide)
  exact ⟨out, rc', left, compressed, run, negative⟩

/-- A capacity that is enough for a block may be any larger one. -/
theorem decompressSafe_mono (fastDecLoop fastDecLoop' : Bool) (src : List UInt8)
    {dst dst' out : Output} {rc : Int} (less : dst.size ≤ dst'.size) (success : 0 ≤ rc)
    (run : decompressSafe fastDecLoop src dst = some (rc, out)) :
    ∃ out', decompressSafe fastDecLoop' src dst' = some (rc, out') ∧
      readBytes out'.mem 0 rc.toNat = readBytes out.mem 0 rc.toNat := by
  have first := decompressSafe_returns fastDecLoop src dst
  have second := decompressSafe_returns fastDecLoop' src dst'
  cases plain : decodeBlock dst.size src with
  | none =>
    rw [plain, run] at first
    obtain ⟨rc', _, eq, _, _, negative⟩ := first
    cases eq
    omega
  | some l =>
    rw [plain, run] at first
    rw [decodeBlock_mono less plain] at second
    obtain ⟨_, eq, _, bytes, _⟩ := first
    obtain ⟨out', run', _, bytes', _⟩ := second
    cases eq
    exact ⟨out', run', by rw [Int.toNat_natCast, bytes, bytes']⟩

theorem decompressSafe_mono_run :
    ∃ out', decompressSafe true [0x30, 1, 2, 3] ⟨100, fun _ => 5⟩ = some (3, out') ∧
      readBytes out'.mem 0 3 = [1, 2, 3] := by
  have returned : (decompressSafe false [0x30, 1, 2, 3] ⟨3, fun _ => 9⟩).map
      (fun r => (r.1, readBytes r.2.mem 0 3)) = some (3, [1, 2, 3]) := by
    decide +kernel
  obtain ⟨⟨rc, out⟩, run, values⟩ := Option.map_eq_some_iff.mp returned
  obtain ⟨rfl, bytes⟩ : rc = 3 ∧ readBytes out.mem 0 3 = [1, 2, 3] := Prod.mk.inj values
  obtain ⟨out', run', same⟩ := decompressSafe_mono false true [0x30, 1, 2, 3]
    (show (⟨3, fun _ => 9⟩ : Output).size ≤ (⟨100, fun _ => 5⟩ : Output).size by decide)
    (by decide) run
  exact ⟨out', run', same.trans bytes⟩

end

end CviRuntime.Lz4Block
