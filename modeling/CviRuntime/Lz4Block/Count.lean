import CviRuntime.Lib.CommonPrefix
import CviRuntime.Lz4Block.Compress

/-!
# `LZ4_count`

Comparing words, then four, two and one byte finds exactly how far two places agree.
-/

namespace CviRuntime.Lz4Block

open CviRuntime.ByteMem CviRuntime.CommonPrefix

section

variable {job : Job} {p q k limit D : Nat}

theorem Job.read_eq (fits : p + k ≤ job.source.length) :
    job.read p k = some (leNat ((job.source.drop p).take k)) :=
  if_pos fits

theorem length_block (fits : p + k ≤ job.source.length) :
    ((job.source.drop p).take k).length = k := by
  rw [List.length_take, List.length_drop]
  omega

theorem getElem?_block (below : D < k) : ((job.source.drop p).take k)[D]? = job.source[p + D]? := by
  rw [List.getElem?_take_of_lt below, List.getElem?_drop]

/-- Two blocks have the same value exactly if they have the same bytes. -/
theorem block_eq_iff (job : Job) (first : p + k ≤ job.source.length)
    (second : q + k ≤ job.source.length) :
    leNat ((job.source.drop p).take k) = leNat ((job.source.drop q).take k) ↔
      ∀ j, j < k → job.source[p + j]? = job.source[q + j]? := by
  have sameLength : ((job.source.drop p).take k).length = ((job.source.drop q).take k).length := by
    rw [length_block first, length_block second]
  constructor
  · intro same j below
    have blocks := leNat_inj sameLength same
    rw [← getElem?_block below, ← getElem?_block below, blocks]
  · intro agree
    have blocks : (job.source.drop p).take k = (job.source.drop q).take k := by
      apply List.ext_getElem?
      intro j
      by_cases below : j < k
      · rw [getElem?_block below, getElem?_block below, agree j below]
      · rw [List.getElem?_eq_none (by rw [length_block first]; omega),
          List.getElem?_eq_none (by rw [length_block second]; omega)]
    rw [blocks]

/-- The bytes in which two words of eight bytes agree. -/
theorem nbCommonBytes_eq (common : Common job.source limit p q D) (short : D < 8)
    (fits : p + 8 ≤ limit) (inside : limit ≤ job.source.length)
    (second : q + 8 ≤ job.source.length) :
    Job.nbCommonBytes (leNat ((job.source.drop q).take 8) ^^^ leNat ((job.source.drop p).take 8)) =
      D := by
  have first : p + 8 ≤ job.source.length := by omega
  have sameLength : ((job.source.drop q).take 8).length = ((job.source.drop p).take 8).length := by
    rw [length_block first, length_block second]
  have differs : ((job.source.drop q).take 8)[D]? ≠ ((job.source.drop p).take 8)[D]? := by
    rw [getElem?_block short, getElem?_block short]
    rcases common.ends with last | differs
    · omega
    · exact differs.symm
  have words := trailingZeros_xor sameLength fun same => differs (by rw [same])
  rw [length_block second] at words
  refine words.trans (agreeing_eq sameLength ?_ differs)
  intro j below
  rw [getElem?_block (by omega), getElem?_block (by omega)]
  exact (common.agree j below).symm

/-- The loops over words stop at the difference or less than eight bytes before the end. -/
theorem countWords_spec (fuel : Nat) (common : Common job.source limit p q D) (earlier : q ≤ p)
    (inside : limit ≤ job.source.length) (enough : limit < p + fuel) :
    ∃ stop m differs, job.countWords limit fuel p q = some (stop, m, differs) ∧
      if differs then stop = p + D
      else ∃ c, c ≤ D ∧ D - c < 8 ∧ stop = p + c ∧ m = q + c := by
  induction fuel generalizing p q D with
  | zero =>
    have := common.inside
    omega
  | succ fuel ih =>
    rw [Job.countWords]
    by_cases room : p + 7 < limit
    · have block := common.block (c := 8) room
      rw [if_pos room, Job.read_eq (show q + 8 ≤ job.source.length by omega),
        Job.read_eq (show p + 8 ≤ job.source.length by omega)]
      simp only [Option.bind_eq_bind, Option.bind_some]
      have equal := block_eq_iff job (k := 8) (p := q) (q := p) (by omega) (by omega)
      by_cases zero : leNat ((job.source.drop q).take 8) ^^^ leNat ((job.source.drop p).take 8) = 0
      · have eight : 8 ≤ D := block.mp fun j below => (equal.mp (xor_eq_zero.mp zero) j below).symm
        obtain ⟨stop, m, differs, run, result⟩ :=
          ih (common.drop eight) (by omega) (by omega)
        rw [if_pos zero]
        refine ⟨stop, m, differs, run, ?_⟩
        cases differs with
        | true =>
          have value : stop = p + 8 + (D - 8) := result
          show stop = p + D
          omega
        | false =>
          obtain ⟨c, less, short, rfl, rfl⟩ := result
          exact ⟨c + 8, by omega, by omega, by omega, by omega⟩
      · have short : D < 8 := by
          by_contra long
          apply zero
          apply xor_eq_zero.mpr
          exact equal.mpr fun j below => (block.mpr (Nat.le_of_not_lt long) j below).symm
        rw [if_neg zero, nbCommonBytes_eq common short room inside (by omega)]
        exact ⟨p + D, q, true, rfl, rfl⟩
    · rw [if_neg room]
      have stops := common.inside
      exact ⟨p, q, false, rfl, 0, Nat.zero_le _, by omega, rfl, rfl⟩

/-- A comparison of `k` bytes, when fewer than `2 * k` agree: fewer than `k` are left. -/
theorem countMore_spec (common : Common job.source limit p q D) (earlier : q ≤ p)
    (inside : limit ≤ job.source.length) (positive : 0 < k) (short : D < 2 * k) :
    ∃ c, job.countMore limit k p q = some (p + c, q + c) ∧ c ≤ D ∧ D - c < k := by
  unfold Job.countMore
  have stops := common.inside
  by_cases room : p + (k - 1) < limit
  · have fits : p + k ≤ limit := by omega
    have block := common.block fits
    have equal := block_eq_iff job (k := k) (p := q) (q := p) (by omega) (by omega)
    rw [if_pos room, Job.read_eq (show q + k ≤ job.source.length by omega),
      Job.read_eq (show p + k ≤ job.source.length by omega)]
    simp only [Option.bind_eq_bind, Option.bind_some]
    by_cases same : leNat ((job.source.drop q).take k) = leNat ((job.source.drop p).take k)
    · have long : k ≤ D := block.mp fun j below => (equal.mp same j below).symm
      rw [if_pos same]
      exact ⟨k, rfl, long, by omega⟩
    · have few : D < k := by
        by_contra long
        apply same
        exact equal.mpr fun j below => (block.mpr (Nat.le_of_not_lt long) j below).symm
      rw [if_neg same]
      exact ⟨0, rfl, Nat.zero_le _, few⟩
  · rw [if_neg room]
    exact ⟨0, rfl, Nat.zero_le _, by omega⟩

/-- `LZ4_count` is the number of bytes that agree before `pInLimit`. -/
theorem count_eq (common : Common job.source limit p q D) (earlier : q ≤ p)
    (inside : limit ≤ job.source.length) : job.count p q limit = some D := by
  obtain ⟨stop, m, differs, words, result⟩ :=
    countWords_spec (job.source.length + 1) common earlier inside (by omega)
  rw [Job.count, words, Option.bind_eq_bind, Option.bind_some]
  cases differs with
  | true =>
    have value : stop = p + D := result
    simp only [if_true, value, Nat.add_sub_cancel_left]
  | false =>
    obtain ⟨c, less, short, rfl, rfl⟩ := result
    have common1 := common.drop less
    obtain ⟨c1, four, less1, short1⟩ :=
      countMore_spec (k := 4) common1 (by omega) inside (by decide) short
    have common2 := common1.drop less1
    obtain ⟨c2, two, less2, short2⟩ :=
      countMore_spec (k := 2) common2 (by omega) inside (by decide) short1
    have common3 := common2.drop less2
    obtain ⟨c3, one, less3, short3⟩ :=
      countMore_spec (k := 1) common3 (by omega) inside (by decide) short2
    simp only [Bool.false_eq_true, if_false, four, two, one, Option.bind_eq_bind,
      Option.bind_some, Option.some.injEq]
    omega

/-- The comparison in words reads nothing behind `pInLimit`, which may be the end of the source,
    and its result is the one of a comparison byte by byte. -/
theorem count_longest (job : Job) (earlier : q ≤ p) (start : p ≤ limit)
    (inside : limit ≤ job.source.length) :
    ∃ D, job.count p q limit = some D ∧ p + D ≤ limit ∧
      (∀ k, k < D → job.source[p + k]? = job.source[q + k]?) ∧
      (p + D = limit ∨ job.source[p + D]? ≠ job.source[q + D]?) := by
  obtain ⟨D, common⟩ := exists_common (l := job.source) (q := q) start
  exact ⟨D, count_eq common earlier inside, common.inside, common.agree, common.ends⟩

/-- A source whose bytes agree with those two further on for twelve bytes. -/
def twelveAlike : Job :=
  ⟨[1, 2, 1, 2, 1, 2, 1, 2, 1, 2, 1, 2, 1, 2, 3, 2, 1, 2, 1, 2], false, 0, .byU16, 1⟩

theorem count_longest_run :
    twelveAlike.count 2 0 20 = some 12 ∧
      ∀ k, k < 12 → twelveAlike.source[2 + k]? = twelveAlike.source[0 + k]? := by
  obtain ⟨D, counts, -, agree, -⟩ := count_longest twelveAlike (by decide : 0 ≤ 2)
    (by decide : 2 ≤ 20) (by decide)
  have twelve : D = 12 := Option.some.inj (counts.symm.trans rfl)
  subst twelve
  exact ⟨counts, agree⟩

end

end CviRuntime.Lz4Block
