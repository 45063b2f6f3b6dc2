import CviRuntime.CpuFunction.Suppress
import Mathlib.Tactic.Tauto

/-!
# Detections of Faster-RCNN (`src/common/cpu_function/frcn_detection.cpp`)

For each image of a batch `run` decodes the boxes of all classes and collects those with a score
above the threshold. Here is which places it touches on the way: it finds the part of an image
from sizes in bytes, and `dets` has a record for each ROI, not for each ROI and class. What becomes
of the detections is in `frcnNms` and `frcnRun`.
-/

namespace CviRuntime.CpuFunction

/-! ## The tensors -/

/-- `_bottoms`, in the order in which `run` takes them. -/
inductive FrcnTensor where
  | deltas
  | scores
  | rois

/-- `batch`, `num` and `class_num`. The shapes are `batch * num` by `4 * class_num`, `batch * num`
    by `class_num` and `batch` by 1 by `num` by 5. -/
structure FrcnDims where
  batch : Nat
  num : Nat
  classNum : Nat

/-- The floats of a tensor that belong to an image. -/
def FrcnDims.part (d : FrcnDims) : FrcnTensor → Nat
  | .deltas => d.num * (4 * d.classNum)
  | .scores => d.num * d.classNum
  | .rois => d.num * 5

/-- `count()`. -/
def FrcnDims.count (d : FrcnDims) (t : FrcnTensor) : Nat := d.batch * d.part t

/-- `size()`, in bytes. -/
def FrcnDims.size (d : FrcnDims) (t : FrcnTensor) : Nat := d.count t * 4

/-- `deltas_size` and `scores_size` (`frcn_detection.cpp:124-125`). -/
def FrcnDims.stride (d : FrcnDims) (t : FrcnTensor) : Nat := d.size t / d.batch

/-- Where `batch_bbox_deltas`, `batch_scores` and `batch_rois` begin
    (`frcn_detection.cpp:128-130`). -/
def FrcnDims.base (d : FrcnDims) (b : Nat) : FrcnTensor → Nat
  | .deltas => b * d.stride .deltas
  | .scores => b * d.stride .scores
  | .rois => ((b * 1 + 0) * d.num + 0) * 5 + 0

/-- A float that is read, or a record of `dets` that is written. -/
inductive FrcnAccess where
  | read (t : FrcnTensor) (place : Nat)
  | det (index : Nat)

/-! ## `FrcnDetectionFunc::run` -/

/-- The detections that are collected, and the places touched so far. -/
structure FrcnScan (α : Type*) where
  dets : List (Detection (Coord α) α)
  accesses : List FrcnAccess

section

variable {α : Type*} [Field α] [LinearOrder α]

/-- `bbox_transform_inv` (`frcn_detection.cpp:21-46`): the entry of `pred` for ROI `i` and class
    `j`. -/
def bboxTransformInv (exp : α → α) (boxes : Nat → Coord α) (deltas : Nat → α) (classNum i j : Nat) :
    Coord α :=
  let box := boxes i
  let two : α := 1 + 1
  let height := box.y2 - box.y1 + 1
  let width := box.x2 - box.x1 + 1
  let ctrX := box.x1 + width * (1 / two)
  let ctrY := box.y1 + height * (1 / two)
  let dx := deltas (i * classNum * 4 + j * 4 + 0)
  let dy := deltas (i * classNum * 4 + j * 4 + 1)
  let dw := deltas (i * classNum * 4 + j * 4 + 2)
  let dh := deltas (i * classNum * 4 + j * 4 + 3)
  let predCtrX := dx * width + ctrX
  let predCtrY := dy * height + ctrY
  let predW := exp dw * width
  let predH := exp dh * height
  { x1 := predCtrX - predW / two
    y1 := predCtrY - predH / two
    x2 := predCtrX + predW / two
    y2 := predCtrY + predH / two }

/-- A score and, above the threshold, the record behind those of `dets`
    (`frcn_detection.cpp:148-157`). -/
def frcnScore (objThreshold : α) (pred : Nat → Nat → Coord α) (scores : Nat → α) (base : Nat)
    (classNum : Nat) (scan : FrcnScan α) (i j : Nat) : FrcnScan α :=
  let place := base + (i * classNum + j)
  let accesses := scan.accesses ++ [.read .scores place]
  if scores place > objThreshold then
    -- `detNum` is `scan.dets.length`
    { dets := scan.dets ++ [⟨pred i j, j, scores place⟩]
      accesses := accesses ++ [.det scan.dets.length, .read .scores place] }
  else { scan with accesses }

/-- The entries of `boxes` for ROI `i`: without the first of its five floats
    (`frcn_detection.cpp:131-136`). -/
def frcnBox (batchRois : Nat → α) (i : Nat) : Coord α :=
  { x1 := batchRois (i * 5 + 0 + 1)
    y1 := batchRois (i * 5 + 1 + 1)
    x2 := batchRois (i * 5 + 2 + 1)
    y2 := batchRois (i * 5 + 3 + 1) }

/-- What is read for `boxes`, and for the vector `deltas`, a copy of `deltas_size` floats
    (`frcn_detection.cpp:131-140`). -/
def FrcnDims.inputReads (d : FrcnDims) (b : Nat) : List FrcnAccess :=
  ((List.range d.num).flatMap fun i =>
    (List.range 4).map fun j => .read .rois (d.base b .rois + (i * 5 + j + 1))) ++
  (List.range (d.stride .deltas)).map fun q => .read .deltas (d.base b .deltas + q)

/-- An image (`frcn_detection.cpp:127-158`). Behind the end of a tensor its function has what the
    memory holds there. -/
def frcnImage (exp : α → α) (objThreshold : α) (bboxDeltas scores rois : Nat → α) (d : FrcnDims)
    (b : Nat) : FrcnScan α :=
  let boxes := frcnBox fun q => rois (d.base b .rois + q)
  let deltas := fun q => bboxDeltas (d.base b .deltas + q)
  let pred := bboxTransformInv exp boxes deltas d.classNum
  (List.range d.num).foldl (fun scan i =>
    (List.range' 1 (d.classNum - 1)).foldl (fun scan j =>
      frcnScore objThreshold pred scores (d.base b .scores) d.classNum scan i j) scan)
    ⟨[], d.inputReads b⟩

/-- The images of a batch; none for a batch of 0, by which the sizes are divided. -/
def frcnImages (exp : α → α) (objThreshold : α) (bboxDeltas scores rois : Nat → α) (d : FrcnDims) :
    Option (List (FrcnScan α)) :=
  if d.batch = 0 then none
  else some ((List.range d.batch).map (frcnImage exp objThreshold bboxDeltas scores rois d))

/-! ## Where it should stay -/

/-- A record below `num`, or a float in the tensor and in the part of image `b`. -/
def FrcnAccess.Within (d : FrcnDims) (b : Nat) : FrcnAccess → Prop
  | .read t place => place < d.count t ∧ b * d.part t ≤ place ∧ place < (b + 1) * d.part t
  | .det index => index < d.num

/-- What is accessed; `none` is `dets`. -/
def FrcnAccess.target : FrcnAccess → Option FrcnTensor
  | .read t _ => some t
  | .det _ => none

/-- All accesses to some targets stay where they should, for every image. -/
def FrcnStays (targets : Option FrcnTensor → Prop) (d : FrcnDims)
    (images : Option (List (FrcnScan α))) : Prop :=
  ∃ scans, images = some scans ∧ ∀ (b : Nat) (scan : FrcnScan α), scans[b]? = some scan →
    ∀ access ∈ scan.accesses, targets access.target → access.Within d b

/-- The ROIs and classes that are looked at, in this order. -/
def frcnPairs (num classNum : Nat) : List (Nat × Nat) :=
  (List.range num).flatMap fun i => (List.range' 1 (classNum - 1)).map fun j => (i, j)

/-- The pairs of image `b` with a score above the threshold, from where `run` reads it. -/
def frcnConfident (objThreshold : α) (scores : Nat → α) (d : FrcnDims) (b : Nat) : Nat :=
  (frcnPairs d.num d.classNum).countP fun p =>
    decide (scores (d.base b .scores + (p.1 * d.classNum + p.2)) > objThreshold)

/-! ## The accesses of an image -/

theorem mem_frcnPairs {num classNum : Nat} {p : Nat × Nat} :
    p ∈ frcnPairs num classNum ↔ p.1 < num ∧ 1 ≤ p.2 ∧ p.2 < classNum := by
  simp only [frcnPairs, List.mem_flatMap, List.mem_range, List.mem_map, List.mem_range'_1]
  constructor
  · rintro ⟨i, inside, j, range, rfl⟩
    exact ⟨inside, range.1, by omega⟩
  · rintro ⟨inside, first, class_lt⟩
    exact ⟨p.1, inside, p.2, ⟨first, by omega⟩, rfl⟩

omit [Field α] in
/-- One score: a record is written exactly when it is above the threshold. -/
theorem mem_frcnScore (objThreshold : α) (pred : Nat → Nat → Coord α) (scores : Nat → α)
    (base classNum : Nat) (scan : FrcnScan α) (i j : Nat) :
    let after := frcnScore objThreshold pred scores base classNum scan i j
    (after.dets.length = scan.dets.length +
        if scores (base + (i * classNum + j)) > objThreshold then 1 else 0) ∧
      ∀ access, access ∈ after.accesses ↔ access ∈ scan.accesses ∨
        access = .read .scores (base + (i * classNum + j)) ∨
        (scores (base + (i * classNum + j)) > objThreshold ∧ access = .det scan.dets.length) := by
  by_cases above : scores (base + (i * classNum + j)) > objThreshold
  · simp only [frcnScore, if_pos above, List.length_append, List.length_singleton, List.mem_append,
      List.mem_cons, List.not_mem_nil, or_false, true_and]
    exact fun access => by tauto
  · simp only [frcnScore, if_neg above, List.mem_append, List.mem_singleton, Nat.add_zero, true_and]
    exact fun access => by tauto

omit [Field α] in
/-- What a scan of some pairs adds: the scores it reads, and records from `dets.length` on. -/
theorem frcnScore_foldl (objThreshold : α) (pred : Nat → Nat → Coord α) (scores : Nat → α)
    (base classNum : Nat) (pairs : List (Nat × Nat)) (scan : FrcnScan α) :
    let after := pairs.foldl (fun scan p =>
      frcnScore objThreshold pred scores base classNum scan p.1 p.2) scan
    after.dets.length = scan.dets.length + pairs.countP (fun p =>
        decide (scores (base + (p.1 * classNum + p.2)) > objThreshold)) ∧
      ∀ access, access ∈ after.accesses ↔ access ∈ scan.accesses ∨
        (∃ p ∈ pairs, access = .read .scores (base + (p.1 * classNum + p.2))) ∨
        ∃ index, scan.dets.length ≤ index ∧ index < after.dets.length ∧ access = .det index := by
  induction pairs generalizing scan with
  | nil =>
    refine ⟨rfl, fun access => ⟨Or.inl, ?_⟩⟩
    rintro (before | ⟨p, none, -⟩ | ⟨index, first, last, -⟩)
    · exact before
    · cases none
    · exact absurd last (Nat.not_lt.mpr first)
  | cons p pairs ih =>
    obtain ⟨length, mem⟩ := mem_frcnScore objThreshold pred scores base classNum scan p.1 p.2
    obtain ⟨length', mem'⟩ := ih (frcnScore objThreshold pred scores base classNum scan p.1 p.2)
    have grows : (frcnScore objThreshold pred scores base classNum scan p.1 p.2).dets.length ≤
        (pairs.foldl (fun scan p => frcnScore objThreshold pred scores base classNum scan p.1 p.2)
          (frcnScore objThreshold pred scores base classNum scan p.1 p.2)).dets.length :=
      length' ▸ Nat.le_add_right _ _
    refine ⟨?_, fun access => ?_⟩
    · rw [List.foldl_cons, length', length, List.countP_cons]
      simp only [decide_eq_true_eq]
      omega
    rw [List.foldl_cons, mem', mem]
    constructor
    · rintro ((before | here | ⟨above, here⟩) | ⟨q, member, eq⟩ | ⟨index, first, last, eq⟩)
      · exact Or.inl before
      · exact Or.inr (Or.inl ⟨p, List.mem_cons_self, here⟩)
      · rw [if_pos above] at length
        exact Or.inr (Or.inr ⟨_, le_rfl, by omega, here⟩)
      · exact Or.inr (Or.inl ⟨q, List.mem_cons_of_mem _ member, eq⟩)
      · exact Or.inr (Or.inr ⟨index, by omega, last, eq⟩)
    · rintro (before | ⟨q, member, eq⟩ | ⟨index, first, last, eq⟩)
      · exact Or.inl (Or.inl before)
      · obtain rfl | member := List.mem_cons.mp member
        · exact Or.inl (Or.inr (Or.inl eq))
        · exact Or.inr (Or.inl ⟨q, member, eq⟩)
      · -- the record is the one of this pair or one behind it
        by_cases above : scores (base + (p.1 * classNum + p.2)) > objThreshold
        · rw [if_pos above] at length
          obtain rfl | behind := first.eq_or_lt
          · exact Or.inl (Or.inr (Or.inr ⟨above, eq⟩))
          · exact Or.inr (Or.inr ⟨index, by omega, last, eq⟩)
        · rw [if_neg above] at length
          exact Or.inr (Or.inr ⟨index, by omega, last, eq⟩)

variable (exp : α → α) (objThreshold : α) (bboxDeltas scores rois : Nat → α) (d : FrcnDims)

/-- The places an image touches, all of them. -/
theorem mem_frcnImage (b : Nat) (access : FrcnAccess) :
    access ∈ (frcnImage exp objThreshold bboxDeltas scores rois d b).accesses ↔
      (∃ i < d.num, ∃ j < 4, access = .read .rois (d.base b .rois + (i * 5 + j + 1))) ∨
      (∃ q < d.stride .deltas, access = .read .deltas (d.base b .deltas + q)) ∨
      (∃ p ∈ frcnPairs d.num d.classNum,
        access = .read .scores (d.base b .scores + (p.1 * d.classNum + p.2))) ∨
      ∃ index < frcnConfident objThreshold scores d b, access = .det index := by
  have nested (f : FrcnScan α → Nat → Nat → FrcnScan α) (start : FrcnScan α) :
      (List.range d.num).foldl (fun scan i =>
        (List.range' 1 (d.classNum - 1)).foldl (fun scan j => f scan i j) scan) start =
      (frcnPairs d.num d.classNum).foldl (fun scan p => f scan p.1 p.2) start := by
    rw [frcnPairs, List.foldl_flatMap]
    simp only [List.foldl_map]
  unfold frcnImage
  rw [nested]
  obtain ⟨length, mem⟩ := frcnScore_foldl objThreshold (bboxTransformInv exp
    (frcnBox fun q => rois (d.base b .rois + q)) (fun q => bboxDeltas (d.base b .deltas + q))
    d.classNum) scores (d.base b .scores) d.classNum (frcnPairs d.num d.classNum)
    ⟨[], d.inputReads b⟩
  rw [mem, length]
  simp only [FrcnDims.inputReads, List.mem_append, List.mem_flatMap, List.mem_map, List.mem_range,
    List.length_nil, Nat.zero_add, Nat.zero_le, true_and, frcnConfident, or_assoc,
    eq_comm (b := access)]

/-! ## Which of them stay -/

theorem frcnStays_iff (targets : Option FrcnTensor → Prop) :
    FrcnStays targets d (frcnImages exp objThreshold bboxDeltas scores rois d) ↔
      d.batch ≠ 0 ∧ ∀ b < d.batch,
        ∀ access ∈ (frcnImage exp objThreshold bboxDeltas scores rois d b).accesses,
          targets access.target → access.Within d b := by
  by_cases zero : d.batch = 0
  · rw [frcnImages, if_pos zero]
    exact iff_of_false (fun ⟨_, images, _⟩ => by cases images) fun stays => stays.1 zero
  rw [frcnImages, if_neg zero]
  constructor
  · rintro ⟨scans, images, stays⟩
    obtain rfl := Option.some.inj images
    refine ⟨zero, fun b image => stays b _ ?_⟩
    rw [List.getElem?_map, List.getElem?_range image, Option.map_some]
  · rintro ⟨-, stays⟩
    refine ⟨_, rfl, fun b scan found => ?_⟩
    obtain ⟨image, found⟩ := List.getElem?_eq_some_iff.mp found
    rw [List.length_map, List.length_range] at image
    rw [List.getElem_map, List.getElem_range] at found
    exact found ▸ stays b image

variable {d}

/-- The strides are those of bytes. -/
theorem FrcnDims.stride_eq (images : d.batch ≠ 0) (t : FrcnTensor) : d.stride t = d.part t * 4 := by
  rw [stride, size, count, Nat.mul_assoc, Nat.mul_div_cancel_left _ (Nat.pos_of_ne_zero images)]

/-- A place of the part of an image is a place of the tensor. -/
theorem FrcnAccess.within_of_offset {b q : Nat} {t : FrcnTensor} (image : b < d.batch)
    (inside : q < d.part t) : (FrcnAccess.read t (b * d.part t + q)).Within d b := by
  have last : b * d.part t + q < (b + 1) * d.part t := by
    rw [Nat.succ_mul]
    exact Nat.add_lt_add_left inside _
  exact ⟨last.trans_le (Nat.mul_le_mul_right _ image), Nat.le_add_right _ _, last⟩

/-- The ROIs are read from their own part. -/
theorem frcnStays_rois (images : d.batch ≠ 0) :
    FrcnStays (· = some .rois) d (frcnImages exp objThreshold bboxDeltas scores rois d) := by
  refine (frcnStays_iff exp objThreshold bboxDeltas scores rois d _).mpr ⟨images, ?_⟩
  intro b image access member target
  obtain ⟨i, roi, j, entry, rfl⟩ | ⟨_, _, rfl⟩ | ⟨_, _, rfl⟩ | ⟨_, _, rfl⟩ :=
    (mem_frcnImage exp objThreshold bboxDeltas scores rois d b access).mp member
  · have base : d.base b .rois = b * d.part .rois := by
      simp only [FrcnDims.base, FrcnDims.part, Nat.mul_one, Nat.add_zero, Nat.mul_assoc]
    rw [base]
    refine FrcnAccess.within_of_offset image ?_
    change i * 5 + j + 1 < d.num * 5
    omega
  all_goals cases target

/-- The scores are as long as there is one image, or no score to read. -/
theorem frcnStays_scores (images : d.batch ≠ 0) :
    FrcnStays (· = some .scores) d (frcnImages exp objThreshold bboxDeltas scores rois d) ↔
      d.batch = 1 ∨ d.num = 0 ∨ d.classNum ≤ 1 := by
  have stride := FrcnDims.stride_eq images .scores
  rw [frcnStays_iff, and_iff_right images]
  constructor
  · intro stays
    by_contra other
    simp only [not_or, not_le] at other
    obtain ⟨several, some_roi, classes⟩ := other
    -- the second image begins behind its part
    have place := stays 1 (by omega) _ ((mem_frcnImage exp objThreshold bboxDeltas scores rois d 1
      _).mpr (Or.inr (Or.inr (Or.inl ⟨(0, 1), mem_frcnPairs.mpr
        ⟨Nat.pos_of_ne_zero some_roi, le_rfl, classes⟩, rfl⟩)))) rfl
    have part : 0 < d.part .scores :=
      Nat.mul_pos (Nat.pos_of_ne_zero some_roi) (Nat.zero_lt_of_lt classes)
    have last := place.2.2
    rw [FrcnDims.base, stride] at last
    omega
  · intro right b image access member target
    obtain ⟨_, _, _, _, rfl⟩ | ⟨_, _, rfl⟩ | ⟨⟨i, j⟩, pair, rfl⟩ | ⟨_, _, rfl⟩ :=
      (mem_frcnImage exp objThreshold bboxDeltas scores rois d b access).mp member
    case inr.inr.inl =>
      obtain ⟨roi, first, class_lt⟩ := mem_frcnPairs.mp pair
      simp only at roi first class_lt
      have zero : b = 0 := by omega
      have base : d.base b .scores = b * d.part .scores := by
        rw [zero, FrcnDims.base, Nat.zero_mul, Nat.zero_mul]
      rw [base]
      refine FrcnAccess.within_of_offset image ?_
      calc i * d.classNum + j < i * d.classNum + d.classNum := Nat.add_lt_add_left class_lt _
        _ = (i + 1) * d.classNum := (Nat.succ_mul _ _).symm
        _ ≤ d.num * d.classNum := Nat.mul_le_mul_right _ roi
    all_goals cases target

/-- The deltas never are: already the first image reads four times its part. -/
theorem frcnStays_deltas (images : d.batch ≠ 0) :
    FrcnStays (· = some .deltas) d (frcnImages exp objThreshold bboxDeltas scores rois d) ↔
      d.num * d.classNum = 0 := by
  have stride := FrcnDims.stride_eq images .deltas
  have part : d.part .deltas = d.num * d.classNum * 4 := by
    rw [FrcnDims.part, Nat.mul_comm 4, ← Nat.mul_assoc]
  rw [frcnStays_iff, and_iff_right images]
  constructor
  · intro stays
    by_contra some_pair
    have positive : 0 < d.part .deltas := by omega
    have place := stays 0 (Nat.pos_of_ne_zero images) _ ((mem_frcnImage exp objThreshold bboxDeltas
      scores rois d 0 _).mpr (Or.inr (Or.inl ⟨d.part .deltas, by omega, rfl⟩))) rfl
    have last := place.2.2
    rw [FrcnDims.base, Nat.zero_mul, Nat.zero_add, Nat.zero_add, Nat.one_mul] at last
    exact lt_irrefl _ last
  · intro no_pair b image access member target
    obtain ⟨_, _, _, _, rfl⟩ | ⟨q, inside, rfl⟩ | ⟨_, _, rfl⟩ | ⟨_, _, rfl⟩ :=
      (mem_frcnImage exp objThreshold bboxDeltas scores rois d b access).mp member
    case inr.inl =>
      rw [stride, part, no_pair] at inside
      exact absurd inside (Nat.not_lt_zero _)
    all_goals cases target

/-- The records fit exactly when no image has more confident pairs than ROIs. -/
theorem frcnStays_dets (images : d.batch ≠ 0) :
    FrcnStays (· = none) d (frcnImages exp objThreshold bboxDeltas scores rois d) ↔
      ∀ b < d.batch, frcnConfident objThreshold scores d b ≤ d.num := by
  rw [frcnStays_iff, and_iff_right images]
  refine forall₂_congr fun b image => ⟨fun stays => ?_, fun fits access member target => ?_⟩
  · by_contra more
    have within := stays (.det d.num) ((mem_frcnImage exp objThreshold bboxDeltas scores rois d b
      _).mpr (Or.inr (Or.inr (Or.inr ⟨d.num, Nat.lt_of_not_le more, rfl⟩)))) rfl
    exact lt_irrefl d.num within
  · obtain ⟨_, _, _, _, rfl⟩ | ⟨_, _, rfl⟩ | ⟨_, _, rfl⟩ | ⟨index, below, rfl⟩ :=
      (mem_frcnImage exp objThreshold bboxDeltas scores rois d b access).mp member
    case inr.inr.inr => exact Nat.lt_of_lt_of_le below fits
    all_goals cases target

/-- All of them stay together exactly when each does. -/
theorem frcnStays_all :
    FrcnStays (fun _ => True) d (frcnImages exp objThreshold bboxDeltas scores rois d) ↔
      FrcnStays (· = none) d (frcnImages exp objThreshold bboxDeltas scores rois d) ∧
        ∀ t, FrcnStays (· = some t) d (frcnImages exp objThreshold bboxDeltas scores rois d) := by
  simp only [frcnStays_iff]
  constructor
  · rintro ⟨images, stays⟩
    exact ⟨⟨images, fun b image access member _ => stays b image access member trivial⟩,
      fun t => ⟨images, fun b image access member _ => stays b image access member trivial⟩⟩
  · rintro ⟨⟨images, dets⟩, reads⟩
    refine ⟨images, fun b image access member _ => ?_⟩
    cases target : access.target with
    | none => exact dets b image access member target
    | some t => exact (reads t).2 b image access member target

/-- A batch of detections stays inside its buffers, image by image, only where nothing is to be
    detected; `dets` by itself is large enough as long as the confident pairs are not more than the
    ROIs. -/
theorem frcnImages_stays_iff :
    (FrcnStays (fun _ => True) d (frcnImages exp objThreshold bboxDeltas scores rois d) ↔
      d.batch ≠ 0 ∧ d.num * d.classNum = 0) ∧
    (FrcnStays (· = none) d (frcnImages exp objThreshold bboxDeltas scores rois d) ↔
      d.batch ≠ 0 ∧ ∀ b < d.batch, frcnConfident objThreshold scores d b ≤ d.num) := by
  by_cases images : d.batch = 0
  · simp only [frcnStays_iff, images, ne_eq, not_true_eq_false, false_and, and_self]
  rw [and_iff_right images, and_iff_right images]
  refine ⟨?_, frcnStays_dets exp objThreshold bboxDeltas scores rois images⟩
  rw [frcnStays_all]
  constructor
  · rintro ⟨-, reads⟩
    exact (frcnStays_deltas exp objThreshold bboxDeltas scores rois images).mp (reads .deltas)
  · intro no_pair
    have no_pairs : frcnPairs d.num d.classNum = [] := by
      refine List.eq_nil_iff_forall_not_mem.mpr fun p member => ?_
      obtain ⟨roi, -, class_lt⟩ := mem_frcnPairs.mp member
      have some_pair := Nat.mul_pos (Nat.zero_lt_of_lt roi) (Nat.zero_lt_of_lt class_lt)
      exact some_pair.ne' no_pair
    refine ⟨(frcnStays_dets exp objThreshold bboxDeltas scores rois images).mpr fun b _ => ?_, ?_⟩
    · rw [frcnConfident, no_pairs, List.countP_nil]
      exact Nat.zero_le _
    · rintro (_ | _ | _)
      · exact (frcnStays_deltas exp objThreshold bboxDeltas scores rois images).mpr no_pair
      · refine (frcnStays_scores exp objThreshold bboxDeltas scores rois images).mpr (Or.inr ?_)
        exact (Nat.mul_eq_zero.mp no_pair).imp_right fun classes =>
          classes.le.trans (Nat.zero_le 1)
      · exact frcnStays_rois exp objThreshold bboxDeltas scores rois images

end

/-- One ROI of three classes with both scores above the threshold: the second detection is written
    behind `dets`, and the deltas are read behind the end of their tensor. -/
theorem frcnImages_oneRoi :
    ¬ FrcnStays (fun _ => True) ⟨1, 1, 3⟩
        (frcnImages (fun _ => 1) (1 / 2 : ℚ) (fun _ => 0) (fun _ => 1) (fun _ => 0) ⟨1, 1, 3⟩) ∧
      ¬ FrcnStays (· = none) ⟨1, 1, 3⟩
        (frcnImages (fun _ => 1) (1 / 2 : ℚ) (fun _ => 0) (fun _ => 1) (fun _ => 0) ⟨1, 1, 3⟩) ∧
      ¬ FrcnStays (· = some .deltas) ⟨1, 1, 3⟩
        (frcnImages (fun _ => 1) (1 / 2 : ℚ) (fun _ => 0) (fun _ => 1) (fun _ => 0) ⟨1, 1, 3⟩) := by
  have deltas : ¬ FrcnStays (· = some .deltas) ⟨1, 1, 3⟩
      (frcnImages (fun _ => 1) (1 / 2 : ℚ) (fun _ => 0) (fun _ => 1) (fun _ => 0) ⟨1, 1, 3⟩) := by
    rw [frcnStays_deltas _ _ _ _ _ one_ne_zero]
    decide
  refine ⟨fun stays => deltas ((frcnStays_all _ _ _ _ _).mp stays |>.2 .deltas), ?_, deltas⟩
  rw [frcnStays_dets _ _ _ _ _ one_ne_zero]
  intro fits
  exact absurd (fits 0 Nat.one_pos) (by decide +kernel)

end CviRuntime.CpuFunction
