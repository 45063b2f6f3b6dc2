import Mathlib.Algebra.Order.Field.Basic
import Mathlib.Tactic.Linarith

/-!
# How detections overlap

`yolo_detection.cpp` has boxes with a centre and measures the intersection over the union.
`frcn_detection.cpp` and `proposal.cpp` have boxes with corners and count a pixel more into the
sides of a box, but not into those of an intersection.
-/

namespace CviRuntime.CpuFunction

variable {α : Type*} [Field α] [LinearOrder α]

/-! ## Boxes with a centre -/

/-- `box` (`yolo_detection.cpp:15-17`). -/
structure Box (α : Type*) where
  x : α
  y : α
  w : α
  h : α
  deriving DecidableEq, Repr

/-- `overlap` (`yolo_detection.cpp:158-166`). -/
def overlap (x1 w1 x2 w2 : α) : α :=
  let l1 := x1 - w1 / 2
  let l2 := x2 - w2 / 2
  let left := if l1 > l2 then l1 else l2
  let r1 := x1 + w1 / 2
  let r2 := x2 + w2 / 2
  let right := if r1 < r2 then r1 else r2
  right - left

/-- `box_intersection` (`yolo_detection.cpp:168-175`). -/
def boxIntersection (a b : Box α) : α :=
  let w := overlap a.x a.w b.x b.w
  let h := overlap a.y a.h b.y b.h
  if w < 0 ∨ h < 0 then 0 else w * h

/-- `box_union` (`yolo_detection.cpp:177-181`). -/
def boxUnion (a b : Box α) : α := a.w * a.h + b.w * b.h - boxIntersection a b

/-- `box_iou` (`yolo_detection.cpp:189-191`); `none` where the union is empty, and the quotient is
    no number. -/
def boxIou (a b : Box α) : Option α :=
  if boxUnion a b = 0 then none else some (boxIntersection a b / boxUnion a b)

/-- The assertion `iou <= 1.0f`, which no quotient without a value passes, and then
    `iou > nms_threshold` (`yolo_detection.cpp:208-210`). -/
def boxOver (t : α) (a b : Box α) : Option Bool :=
  (boxIou a b).bind fun iou => if iou ≤ 1 then some (decide (iou > t)) else none

/-! ## Boxes with corners -/

/-- `coord` (`frcn_detection.cpp:11-13`), and the four numbers of a box in `proposal.cpp`. -/
structure Coord (α : Type*) where
  x1 : α
  y1 : α
  x2 : α
  y2 : α
  deriving DecidableEq, Repr

/-- `s1` and `s2` (`frcn_detection.cpp:56,67`, `proposal.cpp:111,114`). -/
def Coord.area (a : Coord α) : α := (a.x2 - a.x1 + 1) * (a.y2 - a.y1 + 1)

/-- `width * height` of the intersection; 0 unless both are positive. -/
def Coord.inter (a b : Coord α) : α :=
  let width := min a.x2 b.x2 - max a.x1 b.x1
  let height := min a.y2 b.y2 - max a.y1 b.y1
  if width > 0 ∧ height > 0 then width * height else 0

/-- The comparison of two boxes (`proposal.cpp:116-126`). -/
def coordOver (t : α) (a b : Coord α) : Bool :=
  let x1 := max a.x1 b.x1
  let y1 := max a.y1 b.y1
  let x2 := min a.x2 b.x2
  let y2 := min a.y2 b.y2
  let width := x2 - x1
  let height := y2 - y1
  if width > 0 ∧ height > 0 then
    decide (width * height / (a.area + b.area - width * height) > t)
  else false

/-- The comparison with the assertion `iou <= 1.0f` (`frcn_detection.cpp:69-79`). -/
def frcnOver (t : α) (a b : Coord α) : Option Bool :=
  let x1 := max a.x1 b.x1
  let y1 := max a.y1 b.y1
  let x2 := min a.x2 b.x2
  let y2 := min a.y2 b.y2
  let width := x2 - x1
  let height := y2 - y1
  if width > 0 ∧ height > 0 then
    let iou := width * height / (a.area + b.area - width * height)
    if iou ≤ 1 then some (decide (iou > t)) else none
  else some false

/-! ## Both are symmetric -/

theorem overlap_eq (x1 w1 x2 w2 : α) :
    overlap x1 w1 x2 w2 =
      min (x1 + w1 / 2) (x2 + w2 / 2) - max (x1 - w1 / 2) (x2 - w2 / 2) := by
  have left : (if x1 - w1 / 2 > x2 - w2 / 2 then x1 - w1 / 2 else x2 - w2 / 2) =
      max (x1 - w1 / 2) (x2 - w2 / 2) := by
    split
    · next more => exact (max_eq_left more.le).symm
    · next less => exact (max_eq_right (not_lt.mp less)).symm
  have right : (if x1 + w1 / 2 < x2 + w2 / 2 then x1 + w1 / 2 else x2 + w2 / 2) =
      min (x1 + w1 / 2) (x2 + w2 / 2) := by
    split
    · next less => exact (min_eq_left less.le).symm
    · next more => exact (min_eq_right (not_lt.mp more)).symm
  simp only [overlap, left, right]

theorem overlap_comm (x1 w1 x2 w2 : α) : overlap x1 w1 x2 w2 = overlap x2 w2 x1 w1 := by
  rw [overlap_eq, overlap_eq, min_comm, max_comm]

theorem boxIntersection_comm (a b : Box α) : boxIntersection a b = boxIntersection b a := by
  rw [boxIntersection, boxIntersection, overlap_comm a.x, overlap_comm a.y]

theorem boxUnion_comm (a b : Box α) : boxUnion a b = boxUnion b a := by
  rw [boxUnion, boxUnion, boxIntersection_comm, add_comm]

theorem boxOver_comm (t : α) (a b : Box α) : boxOver t a b = boxOver t b a := by
  rw [boxOver, boxOver, boxIou, boxIou, boxUnion_comm, boxIntersection_comm]

theorem frcnOver_comm (t : α) (a b : Coord α) : frcnOver t a b = frcnOver t b a := by
  simp only [frcnOver, max_comm b.x1, max_comm b.y1, min_comm b.x2, min_comm b.y2,
    add_comm b.area]

theorem coordOver_comm (t : α) (a b : Coord α) : coordOver t a b = coordOver t b a := by
  simp only [coordOver, max_comm b.x1, max_comm b.y1, min_comm b.x2, min_comm b.y2,
    add_comm b.area]

/-! ## The quotients exist, and are at most 1 -/

section

variable [IsStrictOrderedRing α]

theorem overlap_le (x1 w1 x2 w2 : α) : overlap x1 w1 x2 w2 ≤ w1 := by
  have right := min_le_left (x1 + w1 / 2) (x2 + w2 / 2)
  have left := le_max_left (x1 - w1 / 2) (x2 - w2 / 2)
  rw [overlap_eq]
  linarith

theorem boxIntersection_nonneg (a b : Box α) : 0 ≤ boxIntersection a b := by
  simp only [boxIntersection]
  split
  · exact le_rfl
  · next inside =>
    push Not at inside
    exact mul_nonneg inside.1 inside.2

/-- An intersection that is not empty is no larger than either box. -/
theorem boxIntersection_le (a b : Box α) (meet : 0 < boxIntersection a b) :
    boxIntersection a b ≤ a.w * a.h := by
  simp only [boxIntersection] at meet ⊢
  split at meet
  · exact absurd meet (lt_irrefl 0)
  · next inside =>
    rw [if_neg inside]
    push Not at inside
    exact mul_le_mul (overlap_le _ _ _ _) (overlap_le _ _ _ _) inside.2
      (inside.1.trans (overlap_le _ _ _ _))

theorem boxIntersection_le_union (a b : Box α) (meet : 0 < boxIntersection a b) :
    boxIntersection a b ≤ boxUnion a b := by
  have left := boxIntersection_le a b meet
  have right := boxIntersection_le b a (by rwa [boxIntersection_comm])
  rw [boxIntersection_comm b a] at right
  rw [boxUnion]
  linarith

/-- Where the quotient has a value the assertion `iou <= 1.0f` holds. -/
theorem boxOver_eq (t : α) (a b : Box α) :
    boxOver t a b =
      if boxUnion a b = 0 then none
      else some (decide (boxIntersection a b / boxUnion a b > t)) := by
  have atMost : boxIntersection a b / boxUnion a b ≤ 1 := by
    rcases (boxIntersection_nonneg a b).eq_or_lt with none | meet
    · rw [← none, zero_div]
      exact zero_le_one
    · have below := boxIntersection_le_union a b meet
      exact div_le_one_of_le₀ below (meet.le.trans below)
  rw [boxOver, boxIou]
  split
  · rfl
  · exact if_pos atMost

/-- The assertion fails for an empty union only. -/
theorem boxOver_eq_none_iff {t : α} {a b : Box α} : boxOver t a b = none ↔ boxUnion a b = 0 := by
  rw [boxOver_eq]
  split
  · next empty => exact iff_of_true rfl empty
  · next filled => exact iff_of_false (Option.some_ne_none _) filled

theorem Coord.inter_lt_area {a b : Coord α}
    (meet : 0 < min a.x2 b.x2 - max a.x1 b.x1 ∧ 0 < min a.y2 b.y2 - max a.y1 b.y1) :
    0 < a.inter b ∧ a.inter b < a.area := by
  have right := min_le_left a.x2 b.x2
  have left := le_max_left a.x1 b.x1
  have bottom := min_le_left a.y2 b.y2
  have top := le_max_left a.y1 b.y1
  have wide : min a.x2 b.x2 - max a.x1 b.x1 < a.x2 - a.x1 + 1 := by linarith
  have high : min a.y2 b.y2 - max a.y1 b.y1 < a.y2 - a.y1 + 1 := by linarith
  rw [Coord.inter, if_pos meet, Coord.area]
  exact ⟨mul_pos meet.1 meet.2, mul_lt_mul'' wide high meet.1.le meet.2.le⟩

/-- Where the quotient of two boxes with corners is formed, the divisor is positive, and the
    assertion `iou <= 1.0f` (`frcn_detection.cpp:78`) holds. -/
theorem Coord.iou_le_one {a b : Coord α}
    (meet : 0 < min a.x2 b.x2 - max a.x1 b.x1 ∧ 0 < min a.y2 b.y2 - max a.y1 b.y1) :
    0 < a.area + b.area - a.inter b ∧ a.inter b / (a.area + b.area - a.inter b) ≤ 1 := by
  have meet' : 0 < min b.x2 a.x2 - max b.x1 a.x1 ∧ 0 < min b.y2 a.y2 - max b.y1 a.y1 := by
    rwa [min_comm b.x2, max_comm b.x1, min_comm b.y2, max_comm b.y1]
  have same : b.inter a = a.inter b := by
    simp only [Coord.inter, min_comm b.x2, max_comm b.x1, min_comm b.y2, max_comm b.y1]
  obtain ⟨positive, left⟩ := Coord.inter_lt_area meet
  obtain ⟨-, right⟩ := Coord.inter_lt_area meet'
  rw [same] at right
  have divisor : 0 < a.area + b.area - a.inter b := by linarith
  exact ⟨divisor, div_le_one_of_le₀ (by linarith) divisor.le⟩

/-- So the comparison always has a result. -/
theorem frcnOver_eq (t : α) (a b : Coord α) : frcnOver t a b = some (coordOver t a b) := by
  unfold frcnOver coordOver
  by_cases meet : min a.x2 b.x2 - max a.x1 b.x1 > 0 ∧ min a.y2 b.y2 - max a.y1 b.y1 > 0
  · obtain ⟨-, atMost⟩ := Coord.iou_le_one meet
    rw [Coord.inter, if_pos meet] at atMost
    simp only [if_pos meet, if_pos atMost]
  · simp only [if_neg meet]

end

end CviRuntime.CpuFunction
