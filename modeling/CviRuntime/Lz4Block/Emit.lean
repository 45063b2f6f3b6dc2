import CviRuntime.Lz4Block.Count
import CviRuntime.Lz4Block.Encode

/-!
# What the compressor writes

The tokens, the lengths and the literals that the compressor writes, some of them past their end,
are those of the encoded sequences; and how long encoded sequences are.
-/

namespace CviRuntime.Lz4Block

open CviRuntime.ByteMem CviRuntime.Lz77

/-- The output holds the bytes `l` and `op` is behind them. -/
def Wrote (size : Nat) (l : List UInt8) (r : Option (Output × Nat)) : Prop :=
  ∃ out, r = some (out, l.length) ∧ out.size = size ∧ Holds l l.length out

section

variable {size n : Nat} {out : Output} {l pre mid : List UInt8}

theorem put_append (bytes : List UInt8) (sameSize : out.size = size)
    (holds : Holds l l.length out) (fits : l.length + bytes.length ≤ size) :
    ∃ o, out.put l.length bytes = some o ∧ o.size = size ∧
      Holds (l ++ bytes) (l ++ bytes).length o := by
  have put := Output.put_yields bytes sameSize (holds_append bytes holds) fits (by
    intro i below
    rw [List.getElem?_append_right (Nat.le_add_right _ _), Nat.add_sub_cancel_left])
  obtain ⟨o, eq, size', kept⟩ := put
  exact ⟨o, eq, size', by rwa [List.length_append]⟩

/-- The bytes of 255 and what is left. -/
theorem putLength_wrote {fuel : Nat} (sameSize : out.size = size) (holds : Holds l l.length out)
    (fits : l.length + n / 255 + 1 ≤ size) (enough : n < fuel) :
    Wrote size (l ++ (List.replicate (n / 255) 255 ++ [UInt8.ofNat (n % 255)]))
      (putLength out l.length fuel n) := by
  induction fuel generalizing n l out with
  | zero => omega
  | succ fuel ih =>
    rw [putLength]
    by_cases long : 255 ≤ n
    · obtain ⟨o, put, size', kept⟩ := put_append [255] sameSize holds (by
        rw [List.length_singleton]
        omega)
      have sum : (l ++ [(255 : UInt8)]).length = l.length + 1 := by simp
      have quotient : n / 255 = (n - 255) / 255 + 1 := by omega
      have remainder : n % 255 = (n - 255) % 255 := by omega
      have rest := ih (n := n - 255) size' kept (by omega) (by omega)
      rw [if_pos long, put, quotient, remainder, List.replicate_succ]
      rw [sum] at rest
      simpa only [Option.bind_eq_bind, Option.bind_some, List.append_assoc, List.cons_append,
        List.nil_append] using rest
    · have none : n / 255 = 0 := by omega
      have all : n % 255 = n := by omega
      obtain ⟨o, put, size', kept⟩ := put_append [UInt8.ofNat n] sameSize holds (by
        rw [List.length_singleton]
        omega)
      rw [if_neg long, put, none, all, List.replicate_zero, List.nil_append]
      exact ⟨o, by rw [List.length_append]; rfl, size', kept⟩

/-- The token and the length of a run of literals. -/
theorem putRun_wrote (sameSize : out.size = size) (holds : Holds l l.length out)
    (fits : l.length + 1 + (lengthBytes n).length ≤ size) :
    Wrote size (l ++ tokenByte n 0 :: lengthBytes n) (putRun out l.length n) := by
  unfold putRun
  by_cases long : 15 ≤ n
  · have written := length_lengthBytes n
    rw [if_neg (by omega)] at written
    have token : tokenByte n 0 = UInt8.ofNat (15 * 16) := by
      rw [tokenByte, Nat.min_eq_right long, Nat.zero_min, Nat.add_zero]
    obtain ⟨o, put, size', kept⟩ := put_append [UInt8.ofNat (15 * 16)] sameSize holds (by
      rw [List.length_singleton]
      omega)
    have sum : (l ++ [UInt8.ofNat (15 * 16)]).length = l.length + 1 := by simp
    have rest := putLength_wrote (n := n - 15) size' kept (by omega) (Nat.lt_succ_self _)
    rw [sum] at rest
    rw [if_pos long, put, token, lengthBytes, if_neg (by omega)]
    simpa only [Option.bind_eq_bind, Option.bind_some, List.append_assoc, List.cons_append,
      List.nil_append] using rest
  · have none : lengthBytes n = [] := if_pos (by omega)
    have token : tokenByte n 0 = UInt8.ofNat (n * 16) := by
      rw [tokenByte, Nat.min_eq_left (by omega), Nat.zero_min, Nat.add_zero]
    obtain ⟨o, put, size', kept⟩ := put_append [UInt8.ofNat (n * 16)] sameSize holds (by
      rw [List.length_singleton]
      omega)
    rw [if_neg long, put, none, token]
    exact ⟨o, by rw [List.length_append]; rfl, size', kept⟩

/-- `*token +=` changes a byte in the middle of what is there. -/
theorem addToken_holds (token : UInt8) (x : Nat) (sameSize : out.size = size)
    (holds : Holds (pre ++ token :: mid) (pre ++ token :: mid).length out)
    (fits : (pre ++ token :: mid).length ≤ size) :
    ∃ o, addToken out pre.length x = some o ∧ o.size = size ∧
      Holds (pre ++ (token + UInt8.ofNat x) :: mid)
        (pre ++ (token + UInt8.ofNat x) :: mid).length o := by
  have sum (b : UInt8) : (pre ++ b :: mid).length = pre.length + mid.length + 1 := by
    rw [List.length_append, List.length_cons, Nat.add_assoc]
  rw [sum] at fits
  have inside : pre.length < out.size := by omega
  have byte := holds pre.length (by rw [sum]; omega)
  rw [List.getElem?_append_right (Nat.le_refl _), Nat.sub_self, List.getElem?_cons_zero,
    Option.getD_some] at byte
  have put : pre.length + [token + UInt8.ofNat x].length ≤ out.size := inside
  rw [addToken, if_pos inside, byte, Output.put, if_pos put]
  refine ⟨_, rfl, sameSize, ?_⟩
  intro i below
  rw [sum] at below
  by_cases here : i = pre.length
  · subst here
    refine (writeBytes_inside (Nat.le_refl _) (Nat.lt_succ_self _)).trans ?_
    rw [List.getElem?_append_right (Nat.le_refl _), Nat.sub_self]
    rfl
  · refine (writeBytes_outside (by rw [List.length_singleton]; omega)).trans ?_
    refine (holds i (by rw [sum]; omega)).trans ?_
    by_cases left : i < pre.length
    · rw [List.getElem?_append_left left, List.getElem?_append_left left]
    · obtain ⟨k, rfl⟩ : ∃ k, i = pre.length + (k + 1) := ⟨i - pre.length - 1, by omega⟩
      rw [List.getElem?_append_right (Nat.le_add_right _ _),
        List.getElem?_append_right (Nat.le_add_right _ _), Nat.add_sub_cancel_left,
        List.getElem?_cons_succ, List.getElem?_cons_succ]

/-- The words of four bytes of 255, one of them ahead. -/
theorem putWords_holds (fuel j : Nat) (sameSize : out.size = size)
    (holds : Holds (l ++ List.replicate (4 * j + 4) 255) (l.length + 4 * j + 4) out)
    (fits : l.length + 4 * j + n / 255 + 4 ≤ size) (enough : n < fuel) :
    ∃ o k, putWords out (l.length + 4 * j) fuel n =
        some (o, l.length + 4 * (j + k), n - 1020 * k) ∧
      1020 * k ≤ n ∧ n - 1020 * k < 1020 ∧ o.size = size ∧
      Holds (l ++ List.replicate (4 * (j + k) + 4) 255) (l.length + 4 * (j + k) + 4) o := by
  induction fuel generalizing n j out with
  | zero => omega
  | succ fuel ih =>
    rw [putWords]
    by_cases long : 4 * 255 ≤ n
    · have place : (l ++ List.replicate (4 * j + 4) (255 : UInt8)).length =
          l.length + 4 * j + 4 := by
        rw [List.length_append, List.length_replicate]
        omega
      have holds' : Holds (l ++ List.replicate (4 * j + 4) 255)
          (l ++ List.replicate (4 * j + 4) 255).length out := by rwa [place]
      obtain ⟨o, put, size', kept⟩ := put_append [255, 255, 255, 255] sameSize holds' (by
        rw [place]
        simp only [List.length_cons, List.length_nil]
        omega)
      rw [place] at put
      have words : l ++ List.replicate (4 * j + 4) (255 : UInt8) ++ [255, 255, 255, 255] =
          l ++ List.replicate (4 * (j + 1) + 4) 255 := by
        have four : [(255 : UInt8), 255, 255, 255] = List.replicate 4 255 := rfl
        rw [List.append_assoc, four, List.replicate_append_replicate]
        congr 2
      have length : (l ++ List.replicate (4 * (j + 1) + 4) (255 : UInt8)).length =
          l.length + 4 * (j + 1) + 4 := by
        rw [List.length_append, List.length_replicate]
        omega
      rw [words, length] at kept
      obtain ⟨o', k, run, less, short, size'', kept'⟩ :=
        ih (n := n - 4 * 255) (j + 1) size' kept (by omega) (by omega)
      have left : n - 4 * 255 - 1020 * k = n - 1020 * (k + 1) := by omega
      have next : l.length + 4 * (j + 1 + k) = l.length + 4 * (j + (k + 1)) := by omega
      refine ⟨o', k + 1, ?_, by omega, by omega, size'', ?_⟩
      · rw [if_pos long, put, Option.bind_eq_bind, Option.bind_some,
          show l.length + 4 * j + 4 = l.length + 4 * (j + 1) by omega, run, left, next]
      · rwa [show j + 1 + k = j + (k + 1) by omega] at kept'
    · rw [if_neg long]
      exact ⟨out, 0, rfl, Nat.zero_le _, by omega, sameSize, holds⟩

/-- The length of a match, added to its token and written behind. -/
theorem putMatchCode_wrote (litLength matchCode : Nat) (sameSize : out.size = size)
    (holds : Holds (pre ++ tokenByte litLength 0 :: mid)
      (pre ++ tokenByte litLength 0 :: mid).length out)
    (fits : (pre ++ tokenByte litLength 0 :: mid).length + (lengthBytes matchCode).length + 3 ≤
      size) :
    Wrote size (pre ++ tokenByte litLength matchCode :: (mid ++ lengthBytes matchCode))
      (putMatchCode out (pre ++ tokenByte litLength 0 :: mid).length pre.length matchCode) := by
  have token (x : Nat) (small : x ≤ 15) :
      tokenByte litLength 0 + UInt8.ofNat x = tokenByte litLength x := by
    rw [tokenByte, tokenByte, ← UInt8.ofNat_add, Nat.zero_min, Nat.add_zero,
      Nat.min_eq_left small]
  have length (a b : UInt8) : (pre ++ a :: mid).length = (pre ++ b :: mid).length := by
    rw [List.length_append, List.length_append, List.length_cons, List.length_cons]
  unfold putMatchCode
  by_cases long : 15 ≤ matchCode
  · have written := length_lengthBytes matchCode
    rw [if_neg (by omega)] at written
    have full : tokenByte litLength matchCode = tokenByte litLength 15 := by
      rw [tokenByte, tokenByte, Nat.min_eq_right long, Nat.min_self]
    obtain ⟨o1, add, size1, kept1⟩ :=
      addToken_holds (tokenByte litLength 0) 15 sameSize holds (by omega)
    rw [token 15 (Nat.le_refl _)] at kept1
    rw [length (tokenByte litLength 0) (tokenByte litLength 15)] at fits ⊢
    obtain ⟨o2, word, size2, kept2⟩ :=
      put_append [255, 255, 255, 255] size1 kept1 (by
        simp only [List.length_cons, List.length_nil] at fits ⊢
        omega)
    have four : [(255 : UInt8), 255, 255, 255] = List.replicate (4 * 0 + 4) 255 := rfl
    rw [four, List.length_append, List.length_replicate] at kept2
    obtain ⟨o3, k, words, less, short, size3, kept3⟩ :=
      putWords_holds (n := matchCode - 15) (matchCode - 15 + 1) 0 size2 kept2 (by omega)
        (Nat.lt_succ_self _)
    have count : (matchCode - 15) / 255 = 4 * (0 + k) + (matchCode - 15 - 1020 * k) / 255 := by
      omega
    have place : (pre ++ tokenByte litLength 15 :: mid ++
        List.replicate ((matchCode - 15) / 255) 255).length =
        (pre ++ tokenByte litLength 15 :: mid).length + 4 * (0 + k) +
          (matchCode - 15 - 1020 * k) / 255 := by
      rw [List.length_append, List.length_replicate, count]
      omega
    have kept4 : Holds (pre ++ tokenByte litLength 15 :: mid ++
        List.replicate ((matchCode - 15) / 255) 255) (pre ++ tokenByte litLength 15 :: mid ++
        List.replicate ((matchCode - 15) / 255) 255).length o3 := by
      apply (kept3.mono (by rw [place]; omega)).congr
      intro i below
      have split : 4 * (0 + k) + 4 = (matchCode - 15) / 255 +
          (4 * (0 + k) + 4 - (matchCode - 15) / 255) := by omega
      rw [split, ← List.replicate_append_replicate, ← List.append_assoc,
        List.getElem?_append_left below]
    obtain ⟨o5, last, size5, kept5⟩ :=
      put_append [UInt8.ofNat ((matchCode - 15) % 255)] size3 kept4 (by
        rw [place, List.length_singleton]
        omega)
    have remainder : (matchCode - 15 - 1020 * k) % 255 = (matchCode - 15) % 255 := by omega
    have whole : pre ++ tokenByte litLength matchCode :: (mid ++ lengthBytes matchCode) =
        pre ++ tokenByte litLength 15 :: mid ++ List.replicate ((matchCode - 15) / 255) 255 ++
          [UInt8.ofNat ((matchCode - 15) % 255)] := by
      rw [full, lengthBytes, if_neg (by omega)]
      simp only [List.append_assoc, List.cons_append]
    rw [if_pos long, add, whole]
    simp only [Option.bind_eq_bind, Option.bind_some, word]
    rw [Nat.mul_zero, Nat.add_zero] at words
    simp only [words, Option.bind_some, remainder]
    rw [place] at last
    simp only [last, Option.bind_some]
    refine ⟨o5, ?_, size5, kept5⟩
    have behind : (pre ++ tokenByte litLength 15 :: mid ++
        List.replicate ((matchCode - 15) / 255) 255 ++
        [UInt8.ofNat ((matchCode - 15) % 255)]).length =
        (pre ++ tokenByte litLength 15 :: mid).length + 4 * (0 + k) +
          (matchCode - 15 - 1020 * k) / 255 + 1 := by
      exact List.length_append.trans (congrArg (· + 1) place)
    rw [behind]
  · have none : lengthBytes matchCode = [] := if_pos (by omega)
    obtain ⟨o, add, size', kept⟩ :=
      addToken_holds (tokenByte litLength 0) matchCode sameSize holds (by omega)
    rw [token matchCode (by omega)] at kept
    rw [if_neg long, add, none, List.append_nil]
    refine ⟨o, ?_, size', kept⟩
    rw [length (tokenByte litLength 0) (tokenByte litLength matchCode)]
    rfl

end

/-! ## How long encoded sequences are -/

section

variable {n pos : Nat} {out : List UInt8} {s : Sequence UInt8}
  {sequences : List (Sequence UInt8)}

theorem length_encodeSequence (s : Sequence UInt8) :
    (encodeSequence s).length = 1 + (lengthBytes s.literals.length).length + s.literals.length +
      2 + (lengthBytes (s.matchLength - 4)).length := by
  have two : (offsetBytes s.offset).length = 2 := rfl
  simp only [encodeSequence, List.length_cons, List.length_append, two]
  omega

theorem encodeSequences_append (first : List (Sequence UInt8)) (s : Sequence UInt8) :
    encodeSequences (first ++ [s]) = encodeSequences first ++ encodeSequence s := by
  rw [encodeSequences, List.flatMap_append, List.flatMap_singleton]
  rfl

theorem allRestricted_append (out : List UInt8) (kept : AllRestricted n out.length sequences)
    (next : Restricted n (expand 0 out sequences).length s) :
    AllRestricted n out.length (sequences ++ [s]) := by
  induction sequences generalizing out with
  | nil => exact ⟨next, trivial⟩
  | cons first rest ih =>
    obtain ⟨now, later⟩ := kept
    rw [← length_run (d := 0)] at later
    have tail := ih (first.run 0 out) later next
    rw [length_run] at tail
    exact ⟨now, tail⟩

/-- Sequences are at most one byte in 255 longer than what they stand for. -/
theorem length_encodeSequences_le (out : List UInt8) (kept : AllRestricted n out.length sequences) :
    (encodeSequences sequences).length + out.length + out.length / 255 ≤
      (expand 0 out sequences).length + (expand 0 out sequences).length / 255 := by
  induction sequences generalizing out with
  | nil =>
    have none : (encodeSequences []).length = 0 := rfl
    rw [none, Nat.zero_add]
    exact Nat.le_refl _
  | cons s rest ih =>
    obtain ⟨now, later⟩ := kept
    rw [← length_run (d := 0)] at later
    have tail := ih (s.run 0 out) later
    have split : encodeSequences (s :: rest) = encodeSequence s ++ encodeSequences rest := rfl
    have longer : expand 0 out (s :: rest) = expand 0 (s.run 0 out) rest := rfl
    have least := now.least
    rw [length_run] at tail
    rw [split, List.length_append, longer, length_encodeSequence, length_lengthBytes,
      length_lengthBytes]
    split_ifs <;> omega

end

end CviRuntime.Lz4Block
