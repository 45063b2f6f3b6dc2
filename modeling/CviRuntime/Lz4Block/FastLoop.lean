import CviRuntime.Lz4Block.SafeLoop

/-!
# The decoder

An iteration of the fast loop does what the plain decoder does as well, so that
`LZ4_decompress_safe` decodes a block as `decodeBlock` does, with the fast loop and without it.
-/

namespace CviRuntime.Lz4Block

open CviRuntime.ByteMem CviRuntime.ChunkCopy CviRuntime.Lz77

/-- An iteration of the fast loop does what the plain decoder does, and as long as it stays there
    is room for the next one. -/
def FastSimulates (size total : Nat) (plain : Option Decoded) (r : Option FastStep) : Prop :=
  (∃ step, r = some (.leave step) ∧ Simulates size total plain (some step)) ∨
    ∃ rest l out, r = some (.stay rest l.length out) ∧ plain = some (.next rest l) ∧
      out.size = size ∧ Holds l l.length out ∧ rest ≠ [] ∧ rest.length < total ∧
      l.length + 64 ≤ size

section

variable {size total offset length n : Nat} {out : Output} {l rest : List UInt8} {token : UInt8}

theorem Simulates.leave {plain : Option Decoded} {r : Option Step}
    (simulates : Simulates size total plain r) :
    FastSimulates size total plain (r.map FastStep.leave) := by
  apply Or.inl
  cases plain with
  | none =>
    obtain ⟨rest, out, rfl, kept⟩ := simulates
    exact ⟨_, rfl, rest, out, rfl, kept⟩
  | some decoded =>
    cases decoded with
    | next rest l =>
      obtain ⟨out, rfl, kept⟩ := simulates
      exact ⟨_, rfl, out, rfl, kept⟩
    | last l =>
      obtain ⟨out, rfl, kept⟩ := simulates
      exact ⟨_, rfl, out, rfl, kept⟩

theorem fastCopy_simulates (sameSize : out.size = size) (holds : Holds l l.length out)
    (room : l.length + length + 64 < size) (more : rest ≠ []) (short : rest.length < total) :
    FastSimulates size total (plainMatch size rest l offset length)
      (fastCopy out rest l.length offset length) := by
  unfold fastCopy plainMatch
  by_cases outside : l.length < offset
  · rw [if_pos outside, if_pos outside]
    exact Or.inl ⟨_, rfl, rest, out, rfl, sameSize, by omega⟩
  · have reaches : offset ≤ l.length := Nat.le_of_not_lt outside
    have copied : Yields size (copyBack 0 offset length l) (l.length + length)
        (copyWithin out l.length (l.length - offset) (l.length + length) offset) := by
      unfold copyWithin
      by_cases near : offset < 16
      · rw [if_pos near]
        exact memcpyUsingOffset_yields sameSize holds reaches (by omega) (by omega)
      · rw [if_neg near]
        exact wildCopy32_match sameSize holds reaches (by omega) (by omega) (by omega)
    obtain ⟨o, eq, size', kept⟩ := copied
    rw [if_neg outside, if_neg outside, if_pos (by omega)]
    refine Or.inr ⟨rest, copyBack 0 offset length l, o, ?_, rfl, size', ?_, more, short, ?_⟩
    · rw [length_copyBack]
      simp only [eq, Option.bind_eq_bind, Option.bind_some]
    · rwa [length_copyBack]
    · rw [length_copyBack]
      omega

/-- The match of an iteration of the fast loop, roomy or not. -/
theorem fastMatch_simulates (roomy : Prop) [Decidable roomy] (sameSize : out.size = size)
    (holds : Holds l l.length out) (room : l.length + 32 ≤ size) (there : 3 ≤ rest.length)
    (short : rest.length < total) (far : roomy → l.length + 50 ≤ size) :
    FastSimulates size total (decodeMatch size roomy token rest l)
      (fastMatch out rest l.length token) := by
  obtain ⟨offset, read⟩ := readLE16_eq rest (by omega)
  have left : (rest.drop 2).length = rest.length - 2 := List.length_drop
  have some_left : rest.drop 2 ≠ [] := List.ne_nil_of_length_pos (by omega)
  have byte : token.toNat < 256 := token.toNat_lt
  have regular : decodeMatch size roomy token rest l =
      plainCopy size (rest.drop 2) l offset token := by
    apply decodeMatch_eq roomy read
    intro isRoomy isShort _ _
    have space := far isRoomy
    omega
  simp only [regular, fastMatch, read, Option.bind_eq_bind, Option.bind_some, plainCopy,
    matchLength]
  by_cases long : token.toNat % 16 = 15
  · rw [if_pos long, if_pos long]
    obtain ⟨more, rest', error, length⟩ := readLengthBytes_isSome 4 some_left 0
    have reads : readVariableLength (rest.drop 2) 4 false = some (more, rest', error) := by
      rw [readVariableLength, if_neg (by simp), length]
    obtain ⟨less, enough⟩ := readLengthBytes_rest length
    rw [reads]
    by_cases outside : l.length < offset
    · rw [if_pos outside]
      apply Or.inl
      refine ⟨_, rfl, ?_⟩
      cases error with
      | ok =>
        simp only [Option.bind_some, plainMatch, if_pos outside]
        exact ⟨_, out, rfl, sameSize, by omega⟩
      | loopError => exact ⟨_, out, rfl, sameSize, by omega⟩
      | initialError => exact ⟨_, out, rfl, sameSize, by omega⟩
    · rw [if_neg outside]
      cases error with
      | loopError => exact Or.inl ⟨_, rfl, rest', out, rfl, sameSize, by omega⟩
      | initialError => exact Or.inl ⟨_, rfl, rest', out, rfl, sameSize, by omega⟩
      | ok =>
        have more_left : rest' ≠ [] := List.ne_nil_of_length_pos (by have := enough rfl; omega)
        simp only [Option.bind_some, ne_eq, not_true_eq_false, if_false, sameSize]
        by_cases close : size ≤ l.length + (15 + more.toNat + 4) + 64
        · rw [if_pos close]
          exact (safeMatchCopy_simulates sameSize holds (by omega) (by omega) more_left
            (by omega)).leave
        · rw [if_neg close]
          exact fastCopy_simulates sameSize holds (by omega) more_left (by omega)
  · simp only [if_neg long, Option.bind_some, sameSize]
    by_cases close : size ≤ l.length + (token.toNat % 16 + 4) + 64
    · rw [if_pos close]
      exact (safeMatchCopy_simulates sameSize holds (by omega) (by omega) some_left
        (by omega)).leave
    · rw [if_neg close]
      by_cases both : offset ≤ l.length ∧ 8 ≤ offset
      · obtain ⟨reaches, notNear⟩ := both
        obtain ⟨o, copied, size', kept⟩ :=
          copyShort_yields (n := token.toNat % 16 + 4) sameSize holds reaches notNear (by omega)
            (by omega)
        rw [if_pos ⟨reaches, notNear⟩, plainMatch, if_neg (by omega), if_pos (by omega), copied]
        refine Or.inr ⟨_, copyBack 0 offset (token.toNat % 16 + 4) l, o, ?_, rfl, size', ?_,
          some_left, by omega, ?_⟩
        · rw [length_copyBack]
          rfl
        · rwa [length_copyBack]
        · rw [length_copyBack]
          omega
      · rw [if_neg both]
        exact fastCopy_simulates sameSize holds (by omega) some_left (by omega)

/-- An iteration of the fast loop. -/
theorem fastIteration_simulates (sameSize : out.size = size) (holds : Holds l l.length out)
    (more : rest ≠ []) (room : l.length + 64 ≤ size) :
    FastSimulates size rest.length (decodeSequence size rest l)
      (fastIteration out rest l.length) := by
  cases rest with
  | nil => exact absurd rfl more
  | cons token rest =>
    have shorter : rest.length < (token :: rest).length := Nat.lt_succ_self _
    have byte : token.toNat < 256 := token.toNat_lt
    unfold fastIteration
    by_cases long : token.toNat / 16 = 15
    · have notRoomy : ¬Roomy size token rest l := fun roomy => roomy.1 long
      simp only [decodeSequence, literalLength, if_pos long]
      by_cases early : rest.length ≤ 15
      · have reads : readVariableLength rest 15 true = some (0, rest, .initialError) :=
          if_pos ⟨rfl, early⟩
        rw [reads]
        exact Or.inl ⟨_, rfl, rest, out, rfl, sameSize, shorter⟩
      · have there : rest ≠ [] := List.ne_nil_of_length_pos (by omega)
        obtain ⟨read, rest', error, length⟩ := readLengthBytes_isSome 15 there 0
        have reads : readVariableLength rest 15 true = some (read, rest', error) := by
          rw [readVariableLength, if_neg (by simpa using early), length]
        obtain ⟨less, _⟩ := readLengthBytes_rest length
        have literals := safeLiteralCopy_simulates token (15 + read.toNat) sameSize holds
          (Nat.lt_trans less shorter)
        have regular : error ≠ .initialError := readLengthBytes_error length
        have both : FastSimulates size (token :: rest).length
            (if size < l.length + (15 + read.toNat) + 12 ∨ rest'.length < 15 + read.toNat + 8 then
              if rest'.length = 15 + read.toNat ∧ l.length + (15 + read.toNat) ≤ size then
                some (.last (l ++ rest'))
              else none
            else decodeMatch size False token (rest'.drop (15 + read.toNat))
              (l ++ rest'.take (15 + read.toNat)))
            (if out.size < l.length + (15 + read.toNat) + 32 ∨
                rest'.length < 15 + read.toNat + 32 then
              (safeLiteralCopy out rest' l.length token (15 + read.toNat)).map FastStep.leave
            else do
              let out ← wildCopy32 (fun out => out.load rest') out l.length 0
                (l.length + (15 + read.toNat))
              fastMatch out (rest'.drop (15 + read.toNat)) (l.length + (15 + read.toNat))
                token) := by
          by_cases close : out.size < l.length + (15 + read.toNat) + 32 ∨
              rest'.length < 15 + read.toNat + 32
          · rw [if_pos close]
            exact literals.leave
          · have right := load_front_right rest' 16
              (Nat.min_le_right size (l.length + rest'.length)) (Nat.min_le_left size _)
            have copied := wildCopy32_yields sameSize right (holds_append rest' holds)
              (e := l.length + (15 + read.toNat)) (by omega) (by omega)
            obtain ⟨o, eq, size', kept⟩ := copied.literals (Nat.le_max_left _ _)
            have sum := length_literals l (show 15 + read.toNat ≤ rest'.length by omega)
            have left : (rest'.drop (15 + read.toNat)).length =
                rest'.length - (15 + read.toNat) := List.length_drop
            rw [if_neg close, if_neg (by omega), eq]
            rw [← sum] at kept ⊢
            exact fastMatch_simulates False size' kept (by omega) (by omega) (by omega)
              (fun impossible => impossible.elim)
        rw [reads]
        cases error with
        | initialError => exact absurd rfl regular
        | ok => simpa [notRoomy] using both
        | loopError => simpa [notRoomy] using both
    · simp only [decodeSequence, literalLength, if_neg long, Option.bind_eq_bind,
        Option.bind_some]
      by_cases few : rest.length < 17
      · have notRoomy : ¬Roomy size token rest l := by
          rintro ⟨_, there, _⟩
          omega
        have literals := safeLiteralCopy_simulates token (token.toNat / 16) sameSize holds shorter
        rw [if_pos few]
        simpa [notRoomy] using literals.leave
      · have roomy : Roomy size token rest l := ⟨long, by omega, by omega⟩
        obtain ⟨o, loaded, size', kept⟩ :=
          load_front rest 16 sameSize holds (by omega) (by omega)
            (show token.toNat / 16 ≤ 16 by omega)
        have sum := length_literals l (show token.toNat / 16 ≤ rest.length by omega)
        have left : (rest.drop (token.toNat / 16)).length = rest.length - token.toNat / 16 :=
          List.length_drop
        rw [if_neg few, loaded, if_neg (fun last => last.1 roomy), Option.bind_some]
        rw [← sum] at kept ⊢
        apply fastMatch_simulates (Roomy size token rest l) size' kept (by omega) (by omega)
          (by omega)
        intro _
        omega

/-! ## Runs -/

/-- What the decoder returns and leaves, for what the plain decoder yields. -/
def Returns (srcSize size : Nat) (plain : Option (List UInt8)) (r : Option (Int × Output)) :
    Prop :=
  match plain with
  | none => ∃ rc out, r = some (rc, out) ∧ out.size = size ∧ -(srcSize : Int) - 1 ≤ rc ∧ rc < 0
  | some l => ∃ out, r = some ((l.length : Int), out) ∧ out.size = size ∧
      readBytes out.mem 0 l.length = l ∧ l.length ≤ size

theorem readBytes_of_holds (holds : Holds l l.length out) : readBytes out.mem 0 l.length = l := by
  apply List.ext_getElem
  · simp
  · intro i small _
    have below : i < l.length := by simpa using small
    have byte := holds i below
    rw [List.getElem?_eq_getElem below, Option.getD_some] at byte
    simpa [readBytes] using byte

theorem finish_error {srcSize : Nat} (sameSize : out.size = size) (short : rest.length ≤ srcSize) :
    Returns srcSize size none (finish srcSize (.error rest out)) :=
  ⟨_, out, rfl, sameSize, by omega, by omega⟩

/-- What the plain decoder does after a sequence. -/
def plainRest (size fuel : Nat) : Option Decoded → Option (List UInt8)
  | none => none
  | some (.last out) => some out
  | some (.next rest out) => decodeSequences size fuel rest out

theorem decodeSequences_succ (size fuel : Nat) (rest l : List UInt8) :
    decodeSequences size (fuel + 1) rest l = plainRest size fuel (decodeSequence size rest l) := by
  rw [decodeSequences]
  rfl

/-- The safe loop after a step, with enough fuel. -/
theorem safeLoop_returns {srcSize fuel : Nat} {plain : Option Decoded} {step : Step}
    (simulates : Simulates size total plain (some step)) (enough : total ≤ fuel + 1)
    (short : total ≤ srcSize + 1) :
    Returns srcSize size (plainRest size fuel plain) (safeLoop srcSize fuel step) := by
  induction fuel generalizing plain step total with
  | zero =>
    cases plain with
    | none =>
      obtain ⟨rest', o, eq, size', left⟩ := simulates
      cases eq
      exact finish_error size' (by omega)
    | some decoded =>
      cases decoded with
      | next rest' l' =>
        obtain ⟨o, eq, size', kept, more, less⟩ := simulates
        have := List.length_pos_of_ne_nil more
        omega
      | last l' =>
        obtain ⟨o, eq, size', kept, fits⟩ := simulates
        cases eq
        exact ⟨o, rfl, size', readBytes_of_holds kept, fits⟩
  | succ fuel ih =>
    cases plain with
    | none =>
      obtain ⟨rest', o, eq, size', left⟩ := simulates
      cases eq
      exact ⟨_, o, rfl, size', by omega, by omega⟩
    | some decoded =>
      cases decoded with
      | next rest' l' =>
        obtain ⟨o, eq, size', kept, more, less⟩ := simulates
        cases eq
        have simulates' := safeIteration_simulates size' kept more
        obtain ⟨step', eq⟩ := simulates'.isSome
        rw [eq] at simulates'
        rw [plainRest, decodeSequences_succ, safeLoop, eq]
        exact ih simulates' (by omega) (by omega)
      | last l' =>
        obtain ⟨o, eq, size', kept, fits⟩ := simulates
        cases eq
        exact ⟨o, rfl, size', readBytes_of_holds kept, fits⟩

/-- The fast loop with enough fuel. -/
theorem fastLoop_returns {srcSize fuel : Nat} (sameSize : out.size = size)
    (holds : Holds l l.length out) (more : rest ≠ []) (enough : rest.length ≤ fuel)
    (short : rest.length ≤ srcSize) (room : l.length + 64 ≤ size) :
    Returns srcSize size (decodeSequences size fuel rest l)
      (fastLoop srcSize fuel rest l.length out) := by
  induction fuel generalizing rest l out with
  | zero =>
    have := List.length_pos_of_ne_nil more
    omega
  | succ fuel ih =>
    rcases fastIteration_simulates sameSize holds more room with
      ⟨step, eq, simulates⟩ | ⟨rest', l', o, eq, plain, size', kept, more', less, room'⟩
    · rw [decodeSequences_succ, fastLoop, eq]
      exact safeLoop_returns simulates enough (by omega)
    · rw [decodeSequences_succ, fastLoop, eq, plain]
      exact ih size' kept more' (by omega) (by omega) room'

/-- `LZ4_decompress_safe` on any input and any output: no access outside of the buffers, no
    `memcpy` that overlaps, and the result of the plain decoder. -/
theorem decompressSafe_returns (fastDecLoop : Bool) (src : List UInt8) (dst : Output) :
    Returns src.length dst.size (decodeBlock dst.size src)
      (decompressSafe fastDecLoop src dst) := by
  unfold decompressSafe decompressGeneric decodeBlock
  have start : Holds [] ([] : List UInt8).length dst :=
    fun i below => absurd below (Nat.not_lt_zero i)
  by_cases noOutput : dst.size = 0
  · rw [if_pos noOutput, if_pos noOutput]
    by_cases empty : src = [0]
    · rw [if_pos empty, if_pos empty]
      exact ⟨dst, rfl, rfl, rfl, Nat.zero_le _⟩
    · rw [if_neg empty, if_neg empty]
      exact ⟨-1, dst, rfl, rfl, by omega, by omega⟩
  · rw [if_neg noOutput, if_neg noOutput]
    by_cases noInput : src.length = 0
    · rw [if_pos noInput, noInput]
      exact ⟨-1, dst, rfl, rfl, by omega, by omega⟩
    · have more : src ≠ [] := fun empty => noInput (by rw [empty]; rfl)
      rw [if_neg noInput]
      by_cases fast : fastDecLoop = true ∧ 64 ≤ dst.size
      · rw [if_pos fast]
        exact fastLoop_returns rfl start more (Nat.le_refl _) (Nat.le_refl _) fast.2
      · rw [if_neg fast]
        have first : Simulates dst.size (src.length + 1) (some (.next src []))
            (some (.next src 0 dst)) := ⟨dst, rfl, rfl, start, more, Nat.lt_succ_self _⟩
        exact safeLoop_returns first (Nat.le_refl _) (Nat.le_refl _)

/-! ## Results -/

/-- Whatever the input and the output: no access outside of the buffers, no `memcpy` that overlaps,
    and a size that fits or a place in the input. -/
theorem decompressSafe_safe (fastDecLoop : Bool) (src : List UInt8) (dst : Output) :
    ∃ rc out, decompressSafe fastDecLoop src dst = some (rc, out) ∧ out.size = dst.size ∧
      -(src.length : Int) - 1 ≤ rc ∧ rc ≤ dst.size := by
  have returns := decompressSafe_returns fastDecLoop src dst
  cases plain : decodeBlock dst.size src with
  | none =>
    rw [plain] at returns
    obtain ⟨rc, out, run, sameSize, low, negative⟩ := returns
    exact ⟨rc, out, run, sameSize, low, by omega⟩
  | some l =>
    rw [plain] at returns
    obtain ⟨out, run, sameSize, _, fits⟩ := returns
    exact ⟨l.length, out, run, sameSize, by omega, by omega⟩

/-- The bytes it returns are those of the plain decoder, and it fails where that rejects. -/
theorem decompressSafe_iff_decodeBlock (fastDecLoop : Bool) (src : List UInt8) (dst : Output)
    (l : List UInt8) :
    decodeBlock dst.size src = some l ↔ ∃ out,
      decompressSafe fastDecLoop src dst = some ((l.length : Int), out) ∧
        readBytes out.mem 0 l.length = l := by
  have returns := decompressSafe_returns fastDecLoop src dst
  constructor
  · intro plain
    rw [plain] at returns
    obtain ⟨out, run, _, bytes, _⟩ := returns
    exact ⟨out, run, bytes⟩
  · rintro ⟨out, run, bytes⟩
    cases plain : decodeBlock dst.size src with
    | none =>
      rw [plain] at returns
      obtain ⟨rc, out', run', _, _, negative⟩ := returns
      rw [run] at run'
      cases run'
      omega
    | some l' =>
      rw [plain] at returns
      obtain ⟨out', run', _, bytes', _⟩ := returns
      rw [run, Option.some.injEq, Prod.mk.injEq] at run'
      obtain ⟨sameLength, rfl⟩ := run'
      have length : l.length = l'.length := by omega
      rw [← bytes, length, bytes']

/-- The fast loop and what the output held before change neither the success nor the bytes. -/
theorem decompressSafe_agree (fastDecLoop fastDecLoop' : Bool) (src : List UInt8)
    {dst dst' : Output} (sameSize : dst'.size = dst.size) :
    ∃ rc out rc' out', decompressSafe fastDecLoop src dst = some (rc, out) ∧
      decompressSafe fastDecLoop' src dst' = some (rc', out') ∧
      (rc < 0 ∧ rc' < 0 ∨ 0 ≤ rc ∧ rc' = rc ∧
        readBytes out'.mem 0 rc.toNat = readBytes out.mem 0 rc.toNat) := by
  have first := decompressSafe_returns fastDecLoop src dst
  have second := decompressSafe_returns fastDecLoop' src dst'
  rw [sameSize] at second
  cases plain : decodeBlock dst.size src with
  | none =>
    rw [plain] at first second
    obtain ⟨rc, out, run, _, _, negative⟩ := first
    obtain ⟨rc', out', run', _, _, negative'⟩ := second
    exact ⟨rc, out, rc', out', run, run', Or.inl ⟨negative, negative'⟩⟩
  | some l =>
    rw [plain] at first second
    obtain ⟨out, run, _, bytes, _⟩ := first
    obtain ⟨out', run', _, bytes', _⟩ := second
    refine ⟨l.length, out, l.length, out', run, run', Or.inr ⟨by omega, rfl, ?_⟩⟩
    rw [Int.toNat_natCast, bytes, bytes']

theorem decompressSafe_agree_run : ∃ rc out rc' out',
    decompressSafe true [0x30, 1, 2, 3] ⟨100, fun _ => 0⟩ = some (rc, out) ∧
    decompressSafe false [0x30, 1, 2, 3] ⟨100, fun _ => 5⟩ = some (rc', out') ∧
    (rc < 0 ∧ rc' < 0 ∨ 0 ≤ rc ∧ rc' = rc ∧
      readBytes out'.mem 0 rc.toNat = readBytes out.mem 0 rc.toNat) :=
  decompressSafe_agree true false _ rfl

end

end CviRuntime.Lz4Block
