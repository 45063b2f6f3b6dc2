import CviRuntime.Lz4Block.MatchCopy

/-!
# The safe loop decodes as the plain decoder

An iteration of the safe loop reads and writes inside the two buffers and does to the output what
`decodeSequence` does, its shortcut included. Where `decodeSequence` rejects, the iteration ends at
`_output_error`.
-/

namespace CviRuntime.Lz4Block

open CviRuntime.ByteMem CviRuntime.ChunkCopy CviRuntime.Lz77

/-- The step of the code does what the plain decoder does; `total` bounds what is left of the
    input. -/
def Simulates (size total : Nat) : Option Decoded → Option Step → Prop
  | none, r => ∃ rest out, r = some (.error rest out) ∧ out.size = size ∧ rest.length < total
  | some (.next rest l), r => ∃ out, r = some (.next rest l.length out) ∧ out.size = size ∧
      Holds l l.length out ∧ rest ≠ [] ∧ rest.length < total
  | some (.last l), r => ∃ out, r = some (.done l.length out) ∧ out.size = size ∧
      Holds l l.length out ∧ l.length ≤ size

/-- A match with the check that `safe_match_copy` makes. -/
def plainMatch (size : Nat) (rest l : List UInt8) (offset length : Nat) : Option Decoded :=
  if l.length < offset then none
  else if l.length + length + 5 ≤ size then some (.next rest (copyBack 0 offset length l))
  else none

section

variable {size total offset length n : Nat} {out : Output} {l rest : List UInt8} {token : UInt8}

theorem Simulates.isSome {plain : Option Decoded} {r : Option Step}
    (simulates : Simulates size total plain r) : ∃ step, r = some step := by
  cases plain with
  | none =>
    obtain ⟨rest, out, eq, _⟩ := simulates
    exact ⟨_, eq⟩
  | some decoded =>
    cases decoded with
    | next rest l =>
      obtain ⟨out, eq, _⟩ := simulates
      exact ⟨_, eq⟩
    | last l =>
      obtain ⟨out, eq, _⟩ := simulates
      exact ⟨_, eq⟩

/-! ## Matches -/

/-- The end of a match close to the end of the output. -/
theorem matchTail (rest : List UInt8) {m op cpy : Nat} {whole : List UInt8}
    (sameSize : out.size = size) (holds : Holds whole op out) (earlier : m + 8 ≤ op)
    (repeats : Repeats whole op size (op - m)) (start : op ≤ size)
    (close : size < cpy + 12) (fits : cpy + 5 ≤ size) :
    ∃ o, (if op + 7 < out.size then do
        let oCopyLimit := out.size - 7
        let out ← wildCopy8 Output.memcpy out op m oCopyLimit
        let out ← copyBytes out oCopyLimit (m + (oCopyLimit - op)) (cpy - oCopyLimit)
        some (.next rest cpy out)
      else do
        let out ← copyBytes out op m (cpy - op)
        some (.next rest cpy out) : Option Step) = some (.next rest cpy o) ∧ o.size = size ∧
      Holds whole cpy o := by
  by_cases near : op + 7 < out.size
  · have right := memcpy_copiesRight m 8 repeats earlier (Nat.le_refl _)
    have limit : out.size - 7 + 7 = size := by omega
    obtain ⟨o1, wild, size1, kept1⟩ :=
      wildCopy8_yields (e := out.size - 7) sameSize right holds (by omega) (by omega)
    have further :
        Repeats whole (out.size - 7) size (out.size - 7 - (m + (out.size - 7 - op))) := by
      rw [show out.size - 7 - (m + (out.size - 7 - op)) = op - m by omega]
      exact repeats.mono (by omega) (Nat.le_refl _)
    have bytes := copyBytes_yields (cpy - (out.size - 7)) size1
      (kept1.mono (Nat.le_max_left _ _)) (by omega) further (by omega)
    obtain ⟨o2, copied, size2, kept2⟩ := bytes
    refine ⟨o2, ?_, size2, kept2.mono (by omega)⟩
    simp only [if_pos near, wild, Option.bind_eq_bind, Option.bind_some, copied]
  · have bytes := copyBytes_yields (cpy - op) sameSize holds (by omega) repeats (by omega)
    obtain ⟨o, copied, size', kept⟩ := bytes
    refine ⟨o, ?_, size', kept.mono (by omega)⟩
    simp only [if_neg near, copied, Option.bind_eq_bind, Option.bind_some]

/-- The end of a match with room behind it. -/
theorem matchRest (rest : List UInt8) {m op : Nat} {whole : List UInt8}
    (sameSize : out.size = size) (holds : Holds whole (op + 8) out) (earlier : m ≤ op)
    (repeats : Repeats whole (op + 8) size (op + 8 - m)) (room : op + length + 12 ≤ size)
    (least : 4 ≤ length) :
    ∃ o, (do
      let out ← out.memcpy (op + 8) m 8
      if 16 < length then do
        let out ← wildCopy8 Output.memcpy out (op + 8 + 8) (m + 8) (op + length)
        some (.next rest (op + length) out)
      else some (.next rest (op + length) out) : Option Step) =
        some (.next rest (op + length) o) ∧ o.size = size ∧ Holds whole (op + length) o := by
  have right := memcpy_copiesRight m 8 repeats (by omega) (Nat.le_refl _)
  obtain ⟨o1, eight, size1, kept1⟩ := right out 0 sameSize (Nat.dvd_zero 8) holds (by omega)
  simp only [Nat.add_zero] at eight kept1
  by_cases long : 16 < length
  · have later : Repeats whole (op + 8 + 8) size (op + 8 + 8 - (m + 8)) := by
      rw [show op + 8 + 8 - (m + 8) = op + 8 - m by omega]
      exact repeats.mono (Nat.le_add_right _ _) (Nat.le_refl _)
    have further := memcpy_copiesRight (m + 8) 8 later (by omega) (Nat.le_refl _)
    obtain ⟨o2, wild, size2, kept2⟩ :=
      wildCopy8_yields (e := op + length) size1 further kept1 (by omega) (by omega)
    refine ⟨o2, ?_, size2, kept2.mono (Nat.le_max_left _ _)⟩
    simp only [eight, if_pos long, wild, Option.bind_eq_bind, Option.bind_some]
  · refine ⟨o1, ?_, size1, kept1.mono (by omega)⟩
    simp only [eight, if_neg long, Option.bind_eq_bind, Option.bind_some]

theorem safeMatchCopy_simulates (sameSize : out.size = size) (holds : Holds l l.length out)
    (room : l.length + 8 ≤ size) (least : 4 ≤ length) (more : rest ≠ [])
    (short : rest.length < total) :
    Simulates size total (plainMatch size rest l offset length)
      (safeMatchCopy out rest l.length offset length) := by
  unfold safeMatchCopy plainMatch
  by_cases outside : l.length < offset
  · rw [if_pos outside, if_pos outside]
    exact ⟨rest, out, rfl, sameSize, by omega⟩
  · obtain ⟨o1, m, first, size1, kept1, behind, repeats⟩ :=
      copyFirst_spec sameSize holds room (Nat.le_of_not_lt outside)
    simp only [if_neg outside, first, Option.bind_eq_bind, Option.bind_some]
    rw [size1]
    by_cases close : size < l.length + length + 12
    · rw [if_pos close]
      by_cases fits : l.length + length + 5 ≤ size
      · obtain ⟨o, tail, size', kept⟩ :=
          matchTail rest size1 kept1 (by omega) repeats room close fits
        have whole : Yields size (copyBack 0 offset size l) (l.length + length) (some o) :=
          ⟨o, rfl, size', kept⟩
        obtain ⟨o', eq, size'', kept'⟩ := whole.shorten (by omega) (Nat.le_refl _)
        cases eq
        rw [if_pos fits, if_neg (by omega)]
        rw [size1] at tail
        exact ⟨o, by rw [length_copyBack]; exact tail, size', by rwa [length_copyBack], more, short⟩
      · rw [if_neg fits, if_pos (by omega)]
        exact ⟨rest, o1, rfl, size1, by omega⟩
    · have fits : l.length + length + 5 ≤ size := by omega
      obtain ⟨o, tail, size', kept⟩ :=
        matchRest rest size1 kept1 behind repeats (by omega) least
      have whole : Yields size (copyBack 0 offset size l) (l.length + length) (some o) :=
        ⟨o, rfl, size', kept⟩
      obtain ⟨o', eq, size'', kept'⟩ := whole.shorten (by omega) (Nat.le_refl _)
      cases eq
      rw [if_neg close, if_pos fits]
      exact ⟨o, by rw [length_copyBack]; exact tail, size', by rwa [length_copyBack], more, short⟩

/-- What `decodeMatch` does with an offset that is read. -/
def plainCopy (size : Nat) (rest l : List UInt8) (offset : Nat) (token : UInt8) :
    Option Decoded := do
  let (length, rest) ← matchLength token rest
  plainMatch size rest l offset length

theorem copyMatch_simulates (sameSize : out.size = size) (holds : Holds l l.length out)
    (room : l.length + 8 ≤ size) (more : rest ≠ []) (short : rest.length < total) :
    Simulates size total (plainCopy size rest l offset token)
      (copyMatch out rest l.length offset token) := by
  unfold copyMatch plainCopy matchLength
  by_cases long : token.toNat % 16 = 15
  · rw [if_pos long, if_pos long]
    obtain ⟨read, rest', error, length⟩ := readLengthBytes_isSome 4 more 0
    have reads : readVariableLength rest 4 false = some (read, rest', error) := by
      rw [readVariableLength, if_neg (by simp), length]
    obtain ⟨less, left⟩ := readLengthBytes_rest length
    rw [reads]
    cases error with
    | ok =>
      have some_left : rest' ≠ [] := by
        rintro rfl
        exact absurd (left rfl) (by simp)
      exact safeMatchCopy_simulates sameSize holds room (by omega) some_left (by omega)
    | loopError => exact ⟨rest', out, rfl, sameSize, by omega⟩
    | initialError => exact ⟨rest', out, rfl, sameSize, by omega⟩
  · rw [if_neg long, if_neg long]
    exact safeMatchCopy_simulates sameSize holds room (by omega) more short

/-- A match is checked as `plainMatch` does, unless it is short and roomy and cannot come close to
    the end. -/
theorem decodeMatch_eq (roomy : Prop) [Decidable roomy] {rest' : List UInt8}
    (read : readLE16 rest = some (offset, rest'))
    (strict : roomy → token.toNat % 16 ≠ 15 → 8 ≤ offset → offset ≤ l.length →
      l.length + (token.toNat % 16 + 4) + 5 ≤ size) :
    decodeMatch size roomy token rest l = plainCopy size rest' l offset token := by
  simp only [decodeMatch, plainCopy, read, Option.bind_eq_bind, Option.bind_some]
  cases lengths : matchLength token rest' with
  | none => rfl
  | some pair =>
    obtain ⟨length, rest''⟩ := pair
    simp only [Option.bind_some, plainMatch]
    by_cases outside : l.length < offset
    · rw [if_pos outside, if_pos outside]
    · rw [if_neg outside, if_neg outside]
      refine if_congr ⟨?_, Or.inl⟩ rfl rfl
      intro accepted
      rcases accepted with fits | ⟨isRoomy, isShort, far⟩
      · exact fits
      · rw [matchLength, if_neg isShort] at lengths
        cases lengths
        exact strict isRoomy isShort far (by omega)

/-! ## Iterations -/

/-- `safe_literal_copy`, for literals that are not roomy. -/
theorem safeLiteralCopy_simulates (token : UInt8) (n : Nat) (sameSize : out.size = size)
    (holds : Holds l l.length out) (short : rest.length < total) :
    Simulates size total
      (if size < l.length + n + 12 ∨ rest.length < n + 8 then
        if rest.length = n ∧ l.length + n ≤ size then some (.last (l ++ rest)) else none
      else decodeMatch size False token (rest.drop n) (l ++ rest.take n))
      (safeLiteralCopy out rest l.length token n) := by
  unfold safeLiteralCopy
  rw [sameSize]
  by_cases last : size < l.length + n + 12 ∨ rest.length < n + 8
  · rw [if_pos last, if_pos last]
    by_cases ends : rest.length = n ∧ l.length + n ≤ size
    · obtain ⟨exact_length, fits⟩ := ends
      obtain ⟨o, eq, size', kept⟩ :=
        load_front rest n sameSize holds (by omega) fits (Nat.le_refl n)
      have all : l ++ rest.take n = l ++ rest := by rw [← exact_length, List.take_length]
      have length : (l ++ rest).length = l.length + n := by rw [List.length_append, exact_length]
      rw [if_pos ⟨exact_length, fits⟩, if_neg (by omega), eq]
      rw [all] at kept
      exact ⟨o, by rw [length]; rfl, size', by rwa [length], by rwa [length]⟩
    · rw [if_neg ends, if_pos (by omega)]
      exact ⟨rest, out, rfl, sameSize, by omega⟩
  · obtain ⟨room, there⟩ : l.length + n + 12 ≤ size ∧ n + 8 ≤ rest.length := by omega
    rw [if_neg last, if_neg last]
    have right := load_front_right rest 8 (Nat.min_le_right size (l.length + rest.length))
      (Nat.min_le_left size _)
    have copied := wildCopy8_yields sameSize right (holds_append rest holds) (e := l.length + n)
      (by omega) (by omega)
    obtain ⟨o, eq, size', kept⟩ := copied.literals (Nat.le_max_left _ _)
    have length := length_literals l (show n ≤ rest.length by omega)
    obtain ⟨offset, read⟩ := readLE16_eq (rest.drop n) (by rw [List.length_drop]; omega)
    have less : ((rest.drop n).drop 2).length < total := by
      rw [List.length_drop, List.length_drop]
      omega
    have some_left : (rest.drop n).drop 2 ≠ [] := by
      apply List.ne_nil_of_length_pos
      rw [List.length_drop, List.length_drop]
      omega
    rw [eq, decodeMatch_eq False read (fun impossible => impossible.elim)]
    simp only [Option.bind_eq_bind, Option.bind_some, read]
    rw [← length] at kept ⊢
    exact copyMatch_simulates size' kept (by omega) some_left less

/-- The shortcut. -/
theorem shortcut_simulates (sameSize : out.size = size) (holds : Holds l l.length out)
    (few : token.toNat / 16 ≠ 15) (there : 16 < rest.length) (room : l.length + 32 ≤ size)
    (short : rest.length < total) :
    Simulates size total
      (decodeMatch size True token (rest.drop (token.toNat / 16))
        (l ++ rest.take (token.toNat / 16)))
      (shortcut out rest l.length token) := by
  have byte : token.toNat < 256 := token.toNat_lt
  have few' : token.toNat / 16 ≤ 14 := by omega
  obtain ⟨o, loaded, size', kept⟩ :=
    load_front rest 16 sameSize holds (by omega) (by omega) (Nat.le_trans few' (by omega))
  have length := length_literals l (show token.toNat / 16 ≤ rest.length by omega)
  obtain ⟨offset, read⟩ :=
    readLE16_eq (rest.drop (token.toNat / 16)) (by rw [List.length_drop]; omega)
  have left : ((rest.drop (token.toNat / 16)).drop 2).length =
      rest.length - token.toNat / 16 - 2 := by
    rw [List.length_drop, List.length_drop]
  have some_left : (rest.drop (token.toNat / 16)).drop 2 ≠ [] := by
    apply List.ne_nil_of_length_pos
    omega
  simp only [shortcut, loaded, Option.bind_eq_bind, Option.bind_some, read]
  rw [← length] at kept ⊢
  by_cases both : token.toNat % 16 ≠ 15 ∧ 8 ≤ offset ∧
      offset ≤ (l ++ rest.take (token.toNat / 16)).length
  · obtain ⟨isShort, far, reaches⟩ := both
    obtain ⟨o', copied, size'', kept'⟩ :=
      copyShort_yields (n := token.toNat % 16 + 4) size' kept reaches far (by omega) (by omega)
    rw [if_pos ⟨isShort, far, reaches⟩, copied]
    have lengths : matchLength token ((rest.drop (token.toNat / 16)).drop 2) =
        some (token.toNat % 16 + 4, (rest.drop (token.toNat / 16)).drop 2) := if_neg isShort
    simp only [decodeMatch, read, lengths, Option.bind_eq_bind, Option.bind_some]
    rw [if_neg (by omega), if_pos (Or.inr ⟨trivial, isShort, far⟩)]
    refine ⟨o', ?_, size'', ?_, some_left, by omega⟩
    · rw [length_copyBack, Nat.add_assoc]
    · rwa [length_copyBack]
  · rw [if_neg both, decodeMatch_eq True read
      (fun _ isShort far reaches => absurd ⟨isShort, far, reaches⟩ both)]
    exact copyMatch_simulates size' kept (by omega) some_left (by omega)

/-- An iteration of the safe loop. -/
theorem safeIteration_simulates (sameSize : out.size = size) (holds : Holds l l.length out)
    (more : rest ≠ []) :
    Simulates size rest.length (decodeSequence size rest l) (safeIteration out rest l.length) := by
  cases rest with
  | nil => exact absurd rfl more
  | cons token rest =>
    have shorter : rest.length < (token :: rest).length := Nat.lt_succ_self _
    unfold safeIteration
    by_cases long : token.toNat / 16 = 15
    · have notRoomy : ¬Roomy size token rest l := fun roomy => roomy.1 long
      have notShort : ¬(token.toNat / 16 ≠ 15 ∧ 16 < rest.length ∧ l.length + 32 ≤ out.size) :=
        fun conditions => conditions.1 long
      simp only [decodeSequence, literalLength, if_pos long, if_neg notShort]
      by_cases early : rest.length ≤ 15
      · have reads : readVariableLength rest 15 true = some (0, rest, .initialError) :=
          if_pos ⟨rfl, early⟩
        rw [reads]
        exact ⟨rest, out, rfl, sameSize, shorter⟩
      · have there : rest ≠ [] := List.ne_nil_of_length_pos (by omega)
        obtain ⟨read, rest', error, length⟩ :=
          readLengthBytes_isSome 15 there 0
        have reads : readVariableLength rest 15 true = some (read, rest', error) := by
          rw [readVariableLength, if_neg (by simpa using early), length]
        obtain ⟨less, _⟩ := readLengthBytes_rest length
        have literals := safeLiteralCopy_simulates token (15 + read.toNat)
          sameSize holds (Nat.lt_trans less shorter)
        rw [reads]
        have regular : error ≠ .initialError := readLengthBytes_error length
        cases error with
        | initialError => exact absurd rfl regular
        | ok => simpa [notRoomy] using literals
        | loopError => simpa [notRoomy] using literals
    · simp only [decodeSequence, literalLength, if_neg long, Option.bind_eq_bind,
        Option.bind_some]
      by_cases roomy : Roomy size token rest l
      · obtain ⟨_, there, room⟩ := roomy
        have conditions : token.toNat / 16 ≠ 15 ∧ 16 < rest.length ∧ l.length + 32 ≤ out.size :=
          ⟨long, there, by omega⟩
        have short := shortcut_simulates sameSize holds long there room shorter
        rw [if_pos conditions]
        simpa [Roomy, long, there, room] using short
      · have conditions :
            ¬(token.toNat / 16 ≠ 15 ∧ 16 < rest.length ∧ l.length + 32 ≤ out.size) := by
          rw [sameSize]
          exact roomy
        have literals := safeLiteralCopy_simulates token (token.toNat / 16)
          sameSize holds shorter
        rw [if_neg conditions]
        simpa [roomy] using literals

end

end CviRuntime.Lz4Block
