import CviRuntime.CpuFunction.ReduceMax
import CviRuntime.Kernel.StrideCopy
import Mathlib.Order.Fin.Basic

/-!
# Reductions of 8-bit tensors (`reducemean.cpp:77-83`, `reducemax.cpp:57-63`)

Signed and unsigned tensors are both reduced as `uint8_t`, with sums of 8 bits.
-/

namespace CviRuntime.CpuFunction

open CviRuntime.Kernel CviRuntime.RowMajor

/-- `uint8_t` -/
abbrev Byte := Fin 256

/-- The number that a byte stands for in a tensor of the format. -/
def asInt (fmt : CviFmt) (b : Byte) : Int :=
  if fmt = .int8 ∧ 128 ≤ b.val then (b.val : Int) - 256 else b.val

/-- The mean as `uint8_t`. The quotient is one of `int`s. -/
def byteMean : MeanOps Byte where
  zero := 0
  add := (· + ·)
  divide sum len := ⟨sum.val / len, (Nat.div_le_self _ _).trans_lt sum.isLt⟩

/-- `ReduceMeanFunc::run` on bytes (`reducemean.cpp:77-83`). -/
def reduceMeanRun (fmt : CviFmt) (input : Nat → Byte) (shape axes : List Nat) :
    Option (List Byte) :=
  if fmt = .int8 ∨ fmt = .uint8 then myReduceMean byteMean input shape axes else none

/-- `ReduceMaxFunc::run` on bytes (`reducemax.cpp:57-63`). -/
def reduceMaxRun (fmt : CviFmt) (input before : Nat → Byte) (shape axes : List Nat) :
    Option (Nat → Option Byte) :=
  if fmt = .int8 ∨ fmt = .uint8 then myReduceMax input before shape axes else none

/-- The numbers of a slice. -/
def sliceInts (fmt : CviFmt) (input : Nat → Byte) (shape axes index : List Nat) : List Int :=
  (fiber shape axes index).map fun i => asInt fmt (input (flat shape i))

/-- Over one axis the mean and the maximum are those of the numbers that the bytes stand for; the
    mean is rounded towards zero. -/
structure RespectsType (fmt : CviFmt) (input before : Nat → Byte) (shape : List Nat) (axis : Nat) :
    Prop where
  mean : ∃ out, reduceMeanRun fmt input shape [axis] = some out ∧
    ∀ index, Inside (reducedShape shape [axis]) index →
      ∃ b, out[flat (reducedShape shape [axis]) index]? = some b ∧
        asInt fmt b = (sliceInts fmt input shape [axis] index).sum.tdiv (shape.getD axis 0)
  max : ∃ output, reduceMaxRun fmt input before shape [axis] = some output ∧
    ∀ index, Inside (reducedShape shape [axis]) index →
      ∃ b, output (flat (reducedShape shape [axis]) index) = some b ∧
        asInt fmt b ∈ sliceInts fmt input shape [axis] index ∧
        ∀ x ∈ sliceInts fmt input shape [axis] index, x ≤ asInt fmt b

/-- What a sum loses in 8 bits does not reach the quotient. -/
def SumFits (xs : List Int) : Prop :=
  if 0 ≤ xs.sum then xs.sum - xs.sum % 256 ≤ xs.sum % xs.length
  else xs.length = 1 ∨ (-xs.sum < xs.length ∧ xs.sum % 256 < xs.length)

/-- The numbers have one sign. -/
def OneSign (xs : List Int) : Prop := (∀ x ∈ xs, 0 ≤ x) ∨ ∀ x ∈ xs, x < 0

/-! ## Sums -/

theorem asInt_emod (fmt : CviFmt) (b : Byte) : asInt fmt b % 256 = b.val := by
  have bound := b.isLt
  unfold asInt
  split <;> omega

theorem asInt_int8 (b : Byte) :
    (b.val < 128 ∧ asInt .int8 b = b.val) ∨
      (128 ≤ b.val ∧ asInt .int8 b = (b.val : Int) - 256) := by
  obtain less | more := Nat.lt_or_ge b.val 128
  · exact Or.inl ⟨less, if_neg fun both => Nat.not_le.mpr less both.2⟩
  · exact Or.inr ⟨more, if_pos ⟨rfl, more⟩⟩

theorem asInt_of_ne {fmt : CviFmt} (unsigned : fmt ≠ .int8) (b : Byte) : asInt fmt b = b.val :=
  if_neg fun both => unsigned both.1

/-- The sum of 8 bits. -/
theorem byteSum_eq (fmt : CviFmt) (f : Nat → Byte) (n : Nat) :
    (((List.range n).foldl (fun sum l => byteMean.add sum (f l)) byteMean.zero).val : Int) =
      ((List.range n).map fun l => asInt fmt (f l)).sum % 256 := by
  induction n with
  | zero => rfl
  | succ n ih =>
    have last := asInt_emod fmt (f n)
    rw [List.range_succ, List.foldl_append, List.map_append, List.sum_append, List.foldl_cons,
      List.foldl_nil, List.map_singleton, List.sum_singleton]
    have step : (byteMean.add ((List.range n).foldl (fun sum l => byteMean.add sum (f l))
        byteMean.zero) (f n)).val = (((List.range n).foldl (fun sum l => byteMean.add sum (f l))
        byteMean.zero).val + (f n).val) % 256 := rfl
    rw [step]
    omega

theorem sum_bounds {lo hi : Int} {xs : List Int} (bounds : ∀ x ∈ xs, lo ≤ x ∧ x ≤ hi) :
    lo * xs.length ≤ xs.sum ∧ xs.sum ≤ hi * xs.length := by
  induction xs with
  | nil => simp
  | cons x xs ih =>
    obtain ⟨first, rest⟩ := List.forall_mem_cons.mp bounds
    have sums := ih rest
    rw [List.sum_cons, List.length_cons, Nat.cast_succ, Int.mul_add, Int.mul_add, Int.mul_one,
      Int.mul_one]
    omega

/-- Taking something off a number does not change its quotient exactly when it is no more than the
    remainder. -/
theorem ediv_eq_iff_sub_le {r s n : Int} (positive : 0 < n) (less : r ≤ s) :
    r / n = s / n ↔ s - r ≤ s % n := by
  have splitS := Int.mul_ediv_add_emod s n
  have splitR := Int.mul_ediv_add_emod r n
  have remainder := Int.emod_nonneg r positive.ne'
  constructor
  · intro same
    rw [same] at splitR
    omega
  · intro small
    refine Int.le_antisymm (Int.ediv_le_ediv positive less) ?_
    rw [Int.le_ediv_iff_mul_le positive, Int.mul_comm]
    omega

/-- The quotient of what is left of a number in 8 bits is that of the number. The quotient of a
    negative number is not positive, that of its 8 bits is not negative. -/
theorem ediv_emod_eq_tdiv_iff {s n : Int} (positive : 0 < n) :
    s % 256 / n = s.tdiv n ↔
      if 0 ≤ s then s - s % 256 ≤ s % n else -s < n ∧ s % 256 < n := by
  by_cases nonneg : 0 ≤ s
  · rw [if_pos nonneg, Int.tdiv_eq_ediv_of_nonneg nonneg, ediv_eq_iff_sub_le positive (by omega)]
  · obtain ⟨r, rfl⟩ : ∃ r, s = -r := ⟨_, (Int.neg_neg _).symm⟩
    rw [if_neg nonneg, Int.neg_tdiv, Int.tdiv_eq_ediv_of_nonneg (by omega), Int.neg_neg]
    have left := Int.ediv_nonneg (Int.emod_nonneg (-r) (by decide : (256 : Int) ≠ 0)) positive.le
    have right := Int.ediv_nonneg (by omega : 0 ≤ r) positive.le
    have leftZero : -r % 256 / n < 1 ↔ -r % 256 < n := by
      rw [Int.ediv_lt_iff_lt_mul positive, Int.one_mul]
    have rightZero : r / n < 1 ↔ r < n := by
      rw [Int.ediv_lt_iff_lt_mul positive, Int.one_mul]
    rw [← leftZero, ← rightZero]
    omega

/-- The quotient of the sum of 8 bits is that of the sum itself. -/
theorem quotient_iff {bytes : List Byte} {fmt : CviFmt} {q : Byte} (nonempty : 0 < bytes.length)
    (quotient : (q.val : Int) = (bytes.map (asInt fmt)).sum % 256 / bytes.length) :
    asInt fmt q = (bytes.map (asInt fmt)).sum.tdiv bytes.length ↔
      SumFits (bytes.map (asInt fmt)) := by
  have lengthPos : 0 < (bytes.length : Int) := Int.natCast_pos.mpr nonempty
  have modulo : (bytes.map (asInt fmt)).sum % 256 ≤ 255 := by omega
  have quotient_small : 2 ≤ bytes.length → q.val ≤ 127 := fun several => by
    have half : (q.val : Int) < 128 := by
      rw [quotient, Int.ediv_lt_iff_lt_mul lengthPos]
      omega
    omega
  unfold SumFits
  rw [List.length_map]
  by_cases signed : fmt = .int8
  · subst signed
    have valueQ := asInt_int8 q
    have bounds : ∀ x ∈ bytes.map (asInt .int8), -128 ≤ x ∧ x ≤ 127 := fun x member => by
      obtain ⟨b, -, rfl⟩ := List.mem_map.mp member
      have bound := b.isLt
      have value := asInt_int8 b
      omega
    have sums := sum_bounds bounds
    rw [List.length_map] at sums
    by_cases single : bytes.length = 1
    · -- a single byte is stored as it is
      rw [single, Nat.cast_one, Int.ediv_one] at quotient
      rw [single, Nat.cast_one, Int.tdiv_one]
      rw [single] at sums
      have exact : asInt .int8 q = (bytes.map (asInt .int8)).sum := by omega
      refine iff_of_true exact ?_
      split
      · rw [Int.emod_one]
        omega
      · exact Or.inl rfl
    · have several : q.val ≤ 127 := quotient_small (by omega)
      have unsigned : asInt .int8 q = q.val := by omega
      rw [unsigned, quotient, ediv_emod_eq_tdiv_iff lengthPos, or_iff_right single]
  · have nonneg : 0 ≤ (bytes.map (asInt fmt)).sum := by
      have bounds : ∀ x ∈ bytes.map (asInt fmt), 0 ≤ x ∧ x ≤ 255 := fun x member => by
        obtain ⟨b, -, rfl⟩ := List.mem_map.mp member
        have bound := b.isLt
        rw [asInt_of_ne signed]
        omega
      have sums := (sum_bounds bounds).1
      rwa [Int.zero_mul] at sums
    rw [asInt_of_ne signed, quotient, ediv_emod_eq_tdiv_iff lengthPos, if_pos nonneg,
      if_pos nonneg]

/-! ## Maxima -/

/-- The largest byte stands for the largest number exactly when the numbers have one sign. -/
theorem largest_iff {fmt : CviFmt} {bytes : List Byte} {b : Byte} (member : b ∈ bytes)
    (largest : ∀ x ∈ bytes, x ≤ b) :
    (∀ x ∈ bytes.map (asInt fmt), x ≤ asInt fmt b) ↔ OneSign (bytes.map (asInt fmt)) := by
  simp only [OneSign, List.forall_mem_map]
  by_cases signed : fmt = .int8
  · subst signed
    have order : ∀ x ∈ bytes, x.val ≤ b.val := largest
    have valueB := asInt_int8 b
    have bound := b.isLt
    constructor
    · intro most
      by_cases negative : asInt .int8 b < 0
      · exact Or.inr fun x inBytes => (most x inBytes).trans_lt negative
      · refine Or.inl fun x inBytes => ?_
        have below := order x inBytes
        have valueX := asInt_int8 x
        omega
    · intro sign x inBytes
      have below := order x inBytes
      have valueX := asInt_int8 x
      have same : (0 ≤ asInt .int8 x ∧ 0 ≤ asInt .int8 b) ∨
          (asInt .int8 x < 0 ∧ asInt .int8 b < 0) :=
        sign.imp (fun nonneg => ⟨nonneg x inBytes, nonneg b member⟩)
          fun negative => ⟨negative x inBytes, negative b member⟩
      omega
  · simp only [asInt_of_ne signed]
    constructor
    · exact fun _ => Or.inl fun x _ => Int.natCast_nonneg _
    · exact fun _ x inBytes => Int.ofNat_le.mpr (largest x inBytes)

/-! ## The functions -/

section

variable {fmt : CviFmt} {input before : Nat → Byte} {shape index : List Nat} {axis : Nat}

/-- The bytes of a slice. -/
def sliceBytes (input : Nat → Byte) (shape axes index : List Nat) : List Byte :=
  (fiber shape axes index).map fun i => input (flat shape i)

theorem sliceInts_eq (axes : List Nat) :
    sliceInts fmt input shape axes index =
      (sliceBytes input shape axes index).map (asInt fmt) := by
  rw [sliceInts, sliceBytes, List.map_map]
  rfl

theorem reducedShape_singleton : reducedShape shape [axis] = shape.set axis 1 := by
  rw [reducedShape_cons, reducedShape_nil]

/-- What `ReduceMeanFunc::run` writes to an element. -/
theorem reduceMeanRun_eq (input : Nat → Byte) (bytes : fmt = .int8 ∨ fmt = .uint8)
    (inShape : axis < shape.length) (positive : 0 < shape.getD axis 0) :
    ∃ out, reduceMeanRun fmt input shape [axis] = some out ∧
      ∀ index, Inside (shape.set axis 1) index →
        ∃ q, out[flat (shape.set axis 1) index]? = some q ∧
          (q.val : Int) = (sliceInts fmt input shape [axis] index).sum % 256 /
            (shape.getD axis 0 : Nat) := by
  obtain ⟨output, runs, quotients⟩ := meanRound_eq byteMean
    ⟨shape, some input, fun _ => byteMean.zero⟩ inShape positive
  refine ⟨(List.range (shape.set axis 1).prod).map output, ?_, fun index inside => ?_⟩
  · rw [reduceMeanRun, if_pos bytes, myReduceMean, if_neg (List.cons_ne_nil axis []),
      List.foldlM_cons, runs]
    exact congrArg (fun size => some ((List.range size).map output)) (count_all _)
  · refine ⟨output (flat (shape.set axis 1) index), ?_, ?_⟩
    · rw [List.getElem?_map, List.getElem?_range (flat_lt inside), Option.map_some]
    · have sum := byteSum_eq fmt (fun l => input (flat shape (index.set axis l)))
        (shape.getD axis 0)
      have slice : (sliceInts fmt input shape [axis] index).sum =
          ((List.range (shape.getD axis 0)).map fun l =>
            asInt fmt (input (flat shape (index.set axis l)))).sum := by
        rw [sliceInts, ((fiber_singleton inside inShape).map _).sum_eq, List.map_map]
        rfl
      have here := quotients index inside
      rw [here, slice, ← sum, ← Int.natCast_ediv]
      rfl

/-- What `ReduceMaxFunc::run` writes to an element. -/
theorem reduceMaxRun_eq (input before : Nat → Byte) (bytes : fmt = .int8 ∨ fmt = .uint8)
    (inShape : axis < shape.length) (positive : 0 < (shape.take (axis + 1)).prod) :
    ∃ output, reduceMaxRun fmt input before shape [axis] = some output ∧
      ∀ index, Inside (shape.set axis 1) index →
        ∃ b, output (flat (shape.set axis 1) index) = some b ∧
          b ∈ sliceBytes input shape [axis] index ∧
          ∀ x ∈ sliceBytes input shape [axis] index, x ≤ b := by
  obtain ⟨output, runs, -, values⟩ := myReduceMax_eq input before [] inShape positive
  refine ⟨output, (if_pos bytes).trans runs, fun index inside => ?_⟩
  obtain ⟨b, here, ⟨i, member, attains⟩, greatest⟩ := values index inside
  exact ⟨b, here, List.mem_map.mpr ⟨i, member, attains⟩, List.forall_mem_map.mpr greatest⟩

theorem length_sliceBytes (input : Nat → Byte) (inShape : axis < shape.length)
    (inside : Inside (shape.set axis 1) index) :
    (sliceBytes input shape [axis] index).length = shape.getD axis 0 := by
  rw [sliceBytes, List.length_map, (fiber_singleton inside inShape).length_eq, List.length_map,
    List.length_range]

/-- The mean is right exactly where the sum of each slice survives in 8 bits. -/
theorem reduceMeanRun_iff (input : Nat → Byte) (bytes : fmt = .int8 ∨ fmt = .uint8)
    (inShape : axis < shape.length) (positive : 0 < shape.getD axis 0) :
    (∃ out, reduceMeanRun fmt input shape [axis] = some out ∧
      ∀ index, Inside (reducedShape shape [axis]) index →
        ∃ b, out[flat (reducedShape shape [axis]) index]? = some b ∧
          asInt fmt b = (sliceInts fmt input shape [axis] index).sum.tdiv (shape.getD axis 0)) ↔
      ∀ index, Inside (reducedShape shape [axis]) index →
        SumFits (sliceInts fmt input shape [axis] index) := by
  obtain ⟨out, runs, means⟩ := reduceMeanRun_eq input bytes inShape positive
  simp only [runs, Option.some.injEq, exists_eq_left', reducedShape_singleton]
  refine forall_congr' fun index => forall_congr' fun inside => ?_
  have length := length_sliceBytes input inShape inside
  obtain ⟨q, here, quotient⟩ := means index inside
  rw [sliceInts_eq] at quotient ⊢
  rw [← length] at quotient ⊢
  simp only [here, Option.some.injEq, exists_eq_left']
  exact quotient_iff (length ▸ positive) quotient

/-- The maximum is right exactly where the numbers of each slice have one sign. -/
theorem reduceMaxRun_iff (input before : Nat → Byte) (bytes : fmt = .int8 ∨ fmt = .uint8)
    (inShape : axis < shape.length) (positive : 0 < (shape.take (axis + 1)).prod) :
    (∃ output, reduceMaxRun fmt input before shape [axis] = some output ∧
      ∀ index, Inside (reducedShape shape [axis]) index →
        ∃ b, output (flat (reducedShape shape [axis]) index) = some b ∧
          asInt fmt b ∈ sliceInts fmt input shape [axis] index ∧
          ∀ x ∈ sliceInts fmt input shape [axis] index, x ≤ asInt fmt b) ↔
      ∀ index, Inside (reducedShape shape [axis]) index →
        OneSign (sliceInts fmt input shape [axis] index) := by
  obtain ⟨output, runs, maxima⟩ := reduceMaxRun_eq input before bytes inShape positive
  simp only [runs, Option.some.injEq, exists_eq_left', reducedShape_singleton]
  refine forall_congr' fun index => forall_congr' fun inside => ?_
  obtain ⟨b, here, member, largest⟩ := maxima index inside
  rw [sliceInts_eq]
  simp only [here, Option.some.injEq, exists_eq_left']
  rw [← largest_iff member largest]
  exact and_iff_right (List.mem_map_of_mem member)

/-- Both functions respect the type exactly where the sum of each slice survives in 8 bits and its
    numbers have one sign. -/
theorem respectsType_iff (fmt : CviFmt) (bytes : fmt = .int8 ∨ fmt = .uint8)
    (input before : Nat → Byte) (shape : List Nat) (axis : Nat) (inRange : axis < shape.length) :
    RespectsType fmt input before shape axis ↔
      0 < (shape.take (axis + 1)).prod ∧
        ∀ index, Inside (reducedShape shape [axis]) index →
          SumFits (sliceInts fmt input shape [axis] index) ∧
            OneSign (sliceInts fmt input shape [axis] index) := by
  by_cases positive : 0 < (shape.take (axis + 1)).prod
  · have lengthPos : 0 < shape.getD axis 0 := by
      have sizes := (sizes_ne_zero inRange).not.mpr (not_not.mpr positive)
      exact Nat.pos_of_mul_pos_left (Nat.pos_of_ne_zero sizes)
    have means := reduceMeanRun_iff input bytes inRange lengthPos
    have maxima := reduceMaxRun_iff input before bytes inRange positive
    constructor
    · intro respects
      exact ⟨positive, fun index inside =>
        ⟨means.mp respects.mean index inside, maxima.mp respects.max index inside⟩⟩
    · rintro ⟨-, fits⟩
      exact ⟨means.mpr fun index inside => (fits index inside).1,
        maxima.mpr fun index inside => (fits index inside).2⟩
  · refine iff_of_false (fun respects => ?_) fun both => positive both.1
    obtain ⟨output, runs, -⟩ := respects.max
    rw [reduceMaxRun, if_pos bytes, myReduceMax_none [] inRange positive] at runs
    cases runs

/-- Small numbers of one sign. -/
theorem respectsType_iff_small :
    RespectsType .uint8 (fun p => Fin.ofNat 256 p) (fun _ => 0) [2, 3] 1 ↔
      0 < ([2, 3].take (1 + 1)).prod ∧
        ∀ index, Inside (reducedShape [2, 3] [1]) index →
          SumFits (sliceInts .uint8 (fun p => Fin.ofNat 256 p) [2, 3] [1] index) ∧
            OneSign (sliceInts .uint8 (fun p => Fin.ofNat 256 p) [2, 3] [1] index) :=
  respectsType_iff .uint8 (Or.inr rfl) _ _ [2, 3] 1 (by decide)

/-- The mean of 200 and 100 is stored as 22. -/
theorem respectsType_overflow :
    ¬ RespectsType .uint8 (fun p => if p = 0 then 200 else 100) (fun _ => 0) [2] 0 := by
  intro respects
  obtain ⟨out, runs, mean⟩ := respects.mean
  obtain rfl := Option.some.inj runs
  obtain ⟨b, here, value⟩ := mean [0] (by decide)
  obtain rfl := Option.some.inj here
  exact absurd value (by decide)

end

end CviRuntime.CpuFunction
