import CviRuntime.Lib.Greedy
import Mathlib.Algebra.Field.Defs
import Mathlib.Order.Lattice

/-!
# Non-maximum suppression of the SSD layer (`src/common/cpu_function/ssd_detection.cpp`)

`ApplyNMSFast_opt` compares each candidate with the boxes kept before it. Its inner loop carries a
flag that a box which does not touch sets again; the loop is left before it could.
-/

namespace CviRuntime.CpuFunction

open CviRuntime.Greedy

variable {α σ : Type*} [Field α] [LinearOrder α]

/-- `BBox_l` (`ssd_detection.hpp:20-46`): the corners of a box, and its size. -/
structure BBoxL (α : Type*) where
  xmin : α
  ymin : α
  xmax : α
  ymax : α
  size : α
  deriving DecidableEq, Repr

/-- `keep`, after `b1` was compared with the kept box `b2` (`ssd_detection.cpp:676-694`). -/
def keepBeside (adaptiveThreshold : α) (b1 b2 : BBoxL α) : Bool :=
  if b2.xmin > b1.xmax ∨ b2.xmax < b1.xmin ∨ b2.ymin > b1.ymax ∨ b2.ymax < b1.ymin then true
  else
    let interXmin := max b1.xmin b2.xmin
    let interYmin := max b1.ymin b2.ymin
    let interXmax := min b1.xmax b2.xmax
    let interYmax := min b1.ymax b2.ymax
    let interWidth := interXmax - interXmin
    let interHeight := interYmax - interYmin
    let interSize := interWidth * interHeight
    let totalSize := b1.size + b2.size
    decide (interSize * (adaptiveThreshold + 1) ≤ totalSize * adaptiveThreshold)

/-- The loop over the boxes kept so far, with its flag (`ssd_detection.cpp:673-698`). -/
def keepLoop (bboxes : Nat → BBoxL α) (adaptiveThreshold : α) (b1 : BBoxL α) :
    List (σ × Nat) → Bool → Bool
  | [], keep => keep
  | kept :: rest, keep =>
    if keep then
      keepLoop bboxes adaptiveThreshold b1 rest
        (keepBeside adaptiveThreshold b1 (bboxes kept.2))
    else keep -- `break`

/-- 0.5: an adaptive threshold is lowered while it is above. -/
def half : α := 1 / (1 + 1)

/-- The loop over the candidates (`ssd_detection.cpp:671-707`). -/
def applyLoop (bboxes : Nat → BBoxL α) (eta : α) :
    List (σ × Nat) → α → List (σ × Nat) → List (σ × Nat)
  | [], _, indices => indices
  | pair :: rest, adaptiveThreshold, indices =>
    let keep := keepLoop bboxes adaptiveThreshold (bboxes pair.2) indices true
    applyLoop bboxes eta rest
      (if keep = true ∧ eta < 1 ∧ adaptiveThreshold > half then adaptiveThreshold * eta
        else adaptiveThreshold)
      (if keep then indices ++ [pair] else indices)

/-- `SSDDetectionFunc::ApplyNMSFast_opt` (`ssd_detection.cpp:664-709`). -/
def applyNMSFastOpt (bboxes : Nat → BBoxL α) (confScore : List (σ × Nat)) (nmsThreshold eta : α)
    (topK : Nat) (indices : List (σ × Nat)) : List (σ × Nat) :=
  let length := if topK < confScore.length then topK else confScore.length
  applyLoop bboxes eta (confScore.take length) nmsThreshold indices

/-! ## Conflicts of boxes -/

/-- Two boxes that have a point in common. -/
def BBoxL.Touches (a b : BBoxL α) : Prop :=
  a.xmin ≤ b.xmax ∧ b.xmin ≤ a.xmax ∧ a.ymin ≤ b.ymax ∧ b.ymin ≤ a.ymax

/-- The area of their intersection. -/
def BBoxL.inter (a b : BBoxL α) : α :=
  (min a.xmax b.xmax - max a.xmin b.xmin) * (min a.ymax b.ymax - max a.ymin b.ymin)

def BBoxL.Conflicts (t : α) (a b : BBoxL α) : Prop :=
  a.Touches b ∧ (a.size + b.size) * t < a.inter b * (t + 1)

instance (a b : BBoxL α) : Decidable (a.Touches b) := inferInstanceAs (Decidable (_ ∧ _))

instance (t : α) (a b : BBoxL α) : Decidable (a.Conflicts t b) :=
  inferInstanceAs (Decidable (_ ∧ _))

/-- The conflicts of candidates are those of their boxes. -/
def PairsConflict (bboxes : Nat → BBoxL α) (t : α) (kept pair : σ × Nat) : Prop :=
  (bboxes kept.2).Conflicts t (bboxes pair.2)

instance (bboxes : Nat → BBoxL α) (t : α) :
    DecidableRel (PairsConflict (σ := σ) bboxes t) :=
  fun kept pair => inferInstanceAs (Decidable ((bboxes kept.2).Conflicts t (bboxes pair.2)))

/-! ## The loops -/

section

variable {bboxes : Nat → BBoxL α} {t : α} {b1 b2 : BBoxL α}

theorem keepBeside_iff : keepBeside t b1 b2 = true ↔ ¬ b2.Conflicts t b1 := by
  unfold keepBeside
  by_cases apart : b2.xmin > b1.xmax ∨ b2.xmax < b1.xmin ∨ b2.ymin > b1.ymax ∨ b2.ymax < b1.ymin
  · have untouched : ¬ b2.Touches b1 := by
      rintro ⟨left, right, top, bottom⟩
      rcases apart with past | past | past | past
      · exact absurd left (not_le.mpr past)
      · exact absurd right (not_le.mpr past)
      · exact absurd top (not_le.mpr past)
      · exact absurd bottom (not_le.mpr past)
    rw [if_pos apart]
    exact ⟨fun _ conflict => untouched conflict.1, fun _ => rfl⟩
  · rw [if_neg apart]
    push Not at apart
    obtain ⟨left, right, top, bottom⟩ := apart
    have touches : b2.Touches b1 := ⟨left, right, top, bottom⟩
    have same : b2.inter b1 = (min b1.xmax b2.xmax - max b1.xmin b2.xmin) *
        (min b1.ymax b2.ymax - max b1.ymin b2.ymin) := by
      rw [BBoxL.inter, min_comm b2.xmax, max_comm b2.xmin, min_comm b2.ymax, max_comm b2.ymin]
    simp only [decide_eq_true_eq, BBoxL.Conflicts, touches, true_and, not_lt, same,
      add_comm b2.size]

/-- Once the flag is down it stays down: the next round leaves the loop. -/
theorem keepLoop_false (indices : List (σ × Nat)) :
    keepLoop bboxes t b1 indices false = false := by
  cases indices with
  | nil => rfl
  | cons kept rest => rfl

theorem keepLoop_iff (bboxes : Nat → BBoxL α) (t : α) (b1 : BBoxL α)
    (indices : List (σ × Nat)) :
    keepLoop bboxes t b1 indices true = true ↔
      ∀ kept ∈ indices, ¬ (bboxes kept.2).Conflicts t b1 := by
  induction indices with
  | nil => exact ⟨fun _ _ member => absurd member List.not_mem_nil, fun _ => rfl⟩
  | cons kept rest ih =>
    rw [keepLoop, if_pos rfl, List.forall_mem_cons, ← keepBeside_iff]
    cases beside : keepBeside t b1 (bboxes kept.2) with
    | false =>
      rw [keepLoop_false]
      exact ⟨fun up => absurd up Bool.false_ne_true, fun both => both.1⟩
    | true =>
      rw [ih]
      exact ⟨fun clear => ⟨rfl, clear⟩, fun both => both.2⟩

/-- Without an adaptive threshold the loop is the greedy scan. -/
theorem applyLoop_eq (pairs indices : List (σ × Nat)) :
    applyLoop bboxes 1 pairs t indices = greedyFrom (PairsConflict bboxes t) indices pairs := by
  induction pairs generalizing indices with
  | nil => rfl
  | cons pair rest ih =>
    have fixed : ¬ (keepLoop bboxes t (bboxes pair.2) indices true = true ∧ (1 : α) < 1 ∧
        t > half) := fun all => lt_irrefl _ all.2.1
    have flag := keepLoop_iff bboxes t (bboxes pair.2) indices
    rw [applyLoop, greedyFrom, if_neg fixed]
    by_cases free : ∀ kept ∈ indices, ¬ PairsConflict bboxes t kept pair
    · rw [if_pos (flag.mpr free), if_pos free, ih]
    · rw [if_neg (mt flag.mp free), if_neg free, ih]

theorem applyNMSFastOpt_eq (bboxes : Nat → BBoxL α) (confScore : List (σ × Nat)) (t : α)
    (topK : Nat) :
    applyNMSFastOpt bboxes confScore t 1 topK [] =
      greedy (PairsConflict bboxes t) (confScore.take (min topK confScore.length)) := by
  have length : (if topK < confScore.length then topK else confScore.length) =
      min topK confScore.length := by
    split <;> omega
  rw [applyNMSFastOpt, length, applyLoop_eq, greedy]

end

/-- `ApplyNMSFast_opt` keeps greedily among the first `top_k` candidates: one is kept exactly when
    its box conflicts with none of those kept before. -/
theorem applyNMSFastOpt_greedy (bboxes : Nat → BBoxL α) (confScore : List (σ × Nat)) (t : α)
    (topK : Nat) :
    let first := confScore.take (min topK confScore.length)
    let result := applyNMSFastOpt bboxes confScore t 1 topK []
    (∃ kept, Chosen (Clash (PairsConflict bboxes t) first) first.length kept ∧
      result = picked first kept ∧
      ∀ i < first.length, i ∉ kept →
        ∃ j ∈ kept, j < i ∧ Clash (PairsConflict bboxes t) first j i) ∧
    result.Sublist first ∧
    result.Pairwise fun earlier later =>
      ¬ (bboxes earlier.2).Conflicts t (bboxes later.2) := by
  intro first result
  have scan : result = greedy (PairsConflict bboxes t) first :=
    applyNMSFastOpt_eq bboxes confScore t topK
  obtain ⟨kept, chosen, scanned⟩ := greedy_chosen (PairsConflict bboxes t) first
  rw [scan, scanned]
  exact ⟨⟨kept, chosen, rfl, fun i => chosen.dropped⟩, chosen.picked_sublist, chosen.pairwise⟩

end CviRuntime.CpuFunction
