import CviRuntime.CpuFunction.Proposal
import CviRuntime.CpuFunction.Suppress

/-!
# Rows of the output (`yolo_detection.cpp`, `frcn_detection.cpp`, `proposal.cpp`)

After suppression each layer writes the first detections that are left, up to a limit, in the order
in which they were collected. They are the best ones only where that order has the best in front.
The arrays of detections have a fixed length.
-/

namespace CviRuntime.CpuFunction

/-- Of all detections, as many as the limit are written, and none that is not written is better
    than one that is. -/
def KeepsBest {ε α : Type*} [LinearOrder α] (score : ε → α) (keepTopk : Int)
    (all written : List ε) : Prop :=
  written.length = keepTopk ∧ ∃ omitted, (written ++ omitted).Perm all ∧
    ∀ w ∈ written, ∀ o ∈ omitted, score o ≤ score w

/-- No detection from the limit on is better than one before it. -/
def BestInFront {ε α : Type*} [LinearOrder α] (score : ε → α) (keepTopk : Int)
    (all : List ε) : Prop :=
  0 ≤ keepTopk ∧ ∀ (i j : Nat) (d e : ε), i < keepTopk → keepTopk ≤ j →
    all[i]? = some d → all[j]? = some e → score e ≤ score d

section

variable {ε α : Type*} [LinearOrder α] {score : ε → α} {keepTopk : Int} {all written : List ε}

/-- What is true of a layer that writes the front of the list. -/
theorem keepsBest_iff (more : keepTopk < all.length)
    (front : 0 ≤ keepTopk → written = all.take keepTopk.toNat) :
    KeepsBest score keepTopk all written ↔ BestInFront score keepTopk all := by
  constructor
  · rintro ⟨length, omitted, perm, best⟩
    have nonneg : 0 ≤ keepTopk := length ▸ Int.natCast_nonneg _
    refine ⟨nonneg, fun i j d e before behind here there => ?_⟩
    rw [front nonneg] at perm best
    have rest : omitted.Perm (all.drop keepTopk.toNat) := by
      refine (List.perm_append_left_iff (all.take keepTopk.toNat)).mp ?_
      rw [List.take_append_drop]
      exact perm
    have inFront : d ∈ all.take keepTopk.toNat := by
      refine List.mem_iff_getElem?.mpr ⟨i, ?_⟩
      rw [List.getElem?_take_of_lt (by omega), here]
    have inBack : e ∈ all.drop keepTopk.toNat := by
      refine List.mem_iff_getElem?.mpr ⟨j - keepTopk.toNat, ?_⟩
      rw [List.getElem?_drop, Nat.add_sub_cancel' (by omega), there]
    exact best d inFront e (rest.mem_iff.mpr inBack)
  · rintro ⟨nonneg, best⟩
    rw [front nonneg]
    refine ⟨?_, all.drop keepTopk.toNat, List.Perm.of_eq (List.take_append_drop _ _),
      fun w inFront o inBack => ?_⟩
    · rw [List.length_take]
      omega
    · obtain ⟨i, here⟩ := List.mem_iff_getElem?.mp inFront
      obtain ⟨j, there⟩ := List.mem_iff_getElem?.mp inBack
      rw [List.getElem?_take] at here
      obtain ⟨less, here⟩ := Option.ite_none_right_eq_some.mp here
      rw [List.getElem?_drop] at there
      exact best i (keepTopk.toNat + j) w o (by omega) (by omega) here there

/-- The best are in front of every limit exactly when the order is descending. -/
theorem forall_bestInFront_iff :
    (∀ keepTopk, 0 ≤ keepTopk → BestInFront score keepTopk all) ↔
      all.Pairwise fun d e => score e ≤ score d := by
  rw [List.pairwise_iff_getElem]
  constructor
  · intro best i j inside inside' less
    obtain ⟨-, at_i⟩ := best j (Int.natCast_nonneg j)
    exact at_i i j _ _ (by omega) le_rfl (List.getElem?_eq_getElem inside)
      (List.getElem?_eq_getElem inside')
  · intro descending keepTopk nonneg
    refine ⟨nonneg, fun i j d e before behind here there => ?_⟩
    obtain ⟨inside, rfl⟩ := List.getElem?_eq_some_iff.mp here
    obtain ⟨inside', rfl⟩ := List.getElem?_eq_some_iff.mp there
    exact descending i j inside inside' (by omega)

end

/-! ## The layers -/

section

variable {α : Type*} [Field α] [LinearOrder α]

/-- `MAX_DET` (`yolo_detection.cpp:12`), the length of `dets`; `det_raw` is longer. -/
def maxDet : Nat := 200

/-- The detections of an image that `YoloDetectionFunc::run` writes (`yolo_detection.cpp:321-343`),
    from those that `process_feature` collects; `none` where the assertion on their number fails
    (`yolo_detection.cpp:151`), or one in `nms`. -/
def yoloWritten (nmsThreshold : α) (keepTopk : Int) (detRaw : List (Detection (Box α) α)) :
    Option (List (Detection (Box α) α)) :=
  if detRaw.length ≤ maxDet then
    (yoloNms nmsThreshold detRaw).map fun detRaw =>
      let dets := survivors detRaw
      let keepTopk := if keepTopk > dets.length then (dets.length : Int) else keepTopk
      dets.take keepTopk.toNat
  else none

/-- The numbers of a row (`yolo_detection.cpp:344-349`). -/
def yoloRow (d : Detection (Box α) α) : List α :=
  [d.bbox.x, d.bbox.y, d.bbox.w, d.bbox.h, d.cls, d.score]

/-- The detections of an image that `FrcnDetectionFunc::run` writes
    (`frcn_detection.cpp:143-176`); `none` where more are collected than `dets[num]` holds. -/
def frcnWritten (nmsThreshold : α) (keepTopk : Int) (num : Nat)
    (dets : List (Detection (Coord α) α)) : Option (List (Detection (Coord α) α)) :=
  if dets.length ≤ num then
    (frcnNms nmsThreshold dets).map fun dets =>
      let detsNms := survivors dets
      let tmpTopk := if keepTopk > detsNms.length then (detsNms.length : Int) else keepTopk
      detsNms.take tmpTopk.toNat
  else none

/-- The numbers of a row (`frcn_detection.cpp:177-182`). -/
def frcnRow (d : Detection (Coord α) α) : List α :=
  [d.bbox.x1, d.bbox.y1, d.bbox.x2, d.bbox.y2, d.cls, d.score]

/-- The rows of a batch, each with its place in `top_data`: the rows of an image are one behind the
    other from its offset on. -/
def topRows {ε : Type*} (offset : Nat → Nat) (width : Nat) (row : Nat → ε → List α)
    (images : List (List ε)) : List (List (Nat × List α)) :=
  images.mapIdx fun b written => written.mapIdx fun i d => (offset b + width * i, row b d)

/-- `YoloDetectionFunc::run` (`yolo_detection.cpp:299-355`). -/
def yoloRun (nmsThreshold : α) (keepTopk : Int) (offset : Nat → Nat)
    (images : List (List (Detection (Box α) α))) : Option (List (List (Nat × List α))) := do
  let written ← images.mapM (yoloWritten nmsThreshold keepTopk)
  return topRows offset 6 (fun _ => yoloRow) written

/-- `FrcnDetectionFunc::run` (`frcn_detection.cpp:111-185`). -/
def frcnRun (nmsThreshold : α) (keepTopk : Int) (num : Nat) (offset : Nat → Nat)
    (images : List (List (Detection (Coord α) α))) : Option (List (List (Nat × List α))) := do
  let written ← images.mapM (frcnWritten nmsThreshold keepTopk num)
  return topRows offset 6 (fun _ => frcnRow) written

omit [Field α] [LinearOrder α] in
theorem topRows_getElem? {ε : Type*} (offset : Nat → Nat) (width : Nat) (row : Nat → ε → List α)
    {images : List (List ε)} {b : Nat} {written : List ε} (here : images[b]? = some written) :
    (topRows offset width row images)[b]? =
      some (written.mapIdx fun i d => (offset b + width * i, row b d)) := by
  rw [topRows, List.getElem?_mapIdx, here, Option.map_some]

/-- An image is written exactly where no array is too short and no assertion fails. -/
theorem yoloWritten_eq_some_iff {t : α} {keepTopk : Int}
    {detRaw written : List (Detection (Box α) α)} :
    yoloWritten t keepTopk detRaw = some written ↔
      detRaw.length ≤ maxDet ∧ ∃ det, yoloNms t detRaw = some det ∧
        written = (survivors det).take (min keepTopk (survivors det).length).toNat := by
  have limit : ∀ n : Nat, (if keepTopk > n then (n : Int) else keepTopk) = min keepTopk n := by
    intro n
    split <;> omega
  simp only [yoloWritten, limit]
  rw [Option.ite_none_right_eq_some, Option.map_eq_some_iff]
  simp only [eq_comm (b := written)]

theorem frcnWritten_eq_some_iff {t : α} {keepTopk : Int} {num : Nat}
    {dets written : List (Detection (Coord α) α)} :
    frcnWritten t keepTopk num dets = some written ↔
      dets.length ≤ num ∧ ∃ det, frcnNms t dets = some det ∧
        written = (survivors det).take (min keepTopk (survivors det).length).toNat := by
  have limit : ∀ n : Nat, (if keepTopk > n then (n : Int) else keepTopk) = min keepTopk n := by
    intro n
    split <;> omega
  simp only [frcnWritten, limit]
  rw [Option.ite_none_right_eq_some, Option.map_eq_some_iff]
  simp only [eq_comm (b := written)]

theorem mapM_some_iff {γ δ : Type*} {f : γ → Option δ} {images : List γ} {results : List δ} :
    images.mapM f = some results ↔ List.Forall₂ (fun x y => f x = some y) images results := by
  induction images generalizing results with
  | nil =>
    rw [List.mapM_nil, List.forall₂_nil_left_iff]
    exact Option.some_inj.trans eq_comm
  | cons image images ih =>
    rw [List.mapM_cons, List.forall₂_cons_left_iff]
    simp only [Option.bind_eq_bind, Option.bind_eq_some_iff, Option.pure_def, Option.some_inj, ih]
    constructor
    · rintro ⟨y, here, ys, rest, rfl⟩
      exact ⟨y, ys, here, rest, rfl⟩
    · rintro ⟨y, ys, here, rest, rfl⟩
      exact ⟨y, here, ys, rest, rfl⟩

theorem exists_forall₂ {γ δ : Type*} {R : γ → δ → Prop} {images : List γ}
    (each : ∀ image ∈ images, ∃ y, R image y) : ∃ results, List.Forall₂ R images results := by
  induction images with
  | nil => exact ⟨[], List.Forall₂.nil⟩
  | cons image images ih =>
    obtain ⟨⟨y, here⟩, others⟩ := List.forall_mem_cons.mp each
    obtain ⟨results, rest⟩ := ih others
    exact ⟨y :: results, List.Forall₂.cons here rest⟩

omit [Field α] [LinearOrder α] in
/-- All images are written as they should be exactly when each is. -/
theorem batch_iff {γ ε : Type*} (offset : Nat → Nat) (width : Nat) (row : Nat → ε → List α)
    (writes right : γ → List ε → Prop) (images : List γ) :
    (∃ rows, (∃ results, List.Forall₂ writes images results ∧
        topRows offset width row results = rows) ∧ ∀ (b : Nat) (image : γ),
      images[b]? = some image → ∃ written, writes image written ∧
        rows[b]? = some (written.mapIdx fun i d => (offset b + width * i, row b d)) ∧
        right image written) ↔
      (∀ image ∈ images, ∃ written, writes image written ∧ right image written) := by
  constructor
  · rintro ⟨_, -, each⟩ image member
    obtain ⟨b, here⟩ := List.mem_iff_getElem?.mp member
    obtain ⟨written, writes, -, holds⟩ := each b image here
    exact ⟨written, writes, holds⟩
  · intro each
    obtain ⟨results, pairs⟩ := exists_forall₂ each
    refine ⟨_, ⟨results, pairs.imp fun _ _ both => both.1, rfl⟩, fun b image here => ?_⟩
    obtain ⟨written, there, writes, holds⟩ := forall₂_getElem? pairs here
    exact ⟨written, writes, topRows_getElem? offset width row there, holds⟩

/-- What `YoloDetectionFunc::run` should do with a batch: for each image in which more detections
    are left than the limit, the rows are those of the best. -/
def YoloKeepsBest (t : α) (keepTopk : Int) (offset : Nat → Nat)
    (images : List (List (Detection (Box α) α))) : Prop :=
  ∃ rows, yoloRun t keepTopk offset images = some rows ∧
    ∀ (b : Nat) (detRaw : List (Detection (Box α) α)), images[b]? = some detRaw →
      ∃ written, yoloWritten t keepTopk detRaw = some written ∧
        rows[b]? = some (written.mapIdx fun i d => (offset b + 6 * i, yoloRow d)) ∧
        ∀ det, yoloNms t detRaw = some det → keepTopk < (survivors det).length →
          KeepsBest Detection.score keepTopk (survivors det) written

def FrcnKeepsBest (t : α) (keepTopk : Int) (num : Nat) (offset : Nat → Nat)
    (images : List (List (Detection (Coord α) α))) : Prop :=
  ∃ rows, frcnRun t keepTopk num offset images = some rows ∧
    ∀ (b : Nat) (dets : List (Detection (Coord α) α)), images[b]? = some dets →
      ∃ written, frcnWritten t keepTopk num dets = some written ∧
        rows[b]? = some (written.mapIdx fun i d => (offset b + 6 * i, frcnRow d)) ∧
        ∀ det, frcnNms t dets = some det → keepTopk < (survivors det).length →
          KeepsBest Detection.score keepTopk (survivors det) written

omit [Field α] in
/-- The limit does not matter to what is written of more detections. -/
theorem keepsBest_take_iff {ε : Type*} {score : ε → α} {keepTopk : Int} {all : List ε}
    (more : keepTopk < all.length) :
    KeepsBest score keepTopk all (all.take (min keepTopk all.length).toNat) ↔
      BestInFront score keepTopk all :=
  keepsBest_iff more fun _ => by rw [min_eq_left more.le]

theorem yoloKeepsBest_iff (t : α) (keepTopk : Int) (offset : Nat → Nat)
    (images : List (List (Detection (Box α) α))) :
    YoloKeepsBest t keepTopk offset images ↔ ∀ detRaw ∈ images, detRaw.length ≤ maxDet ∧
      ∃ det, yoloNms t detRaw = some det ∧ (keepTopk < (survivors det).length →
        BestInFront Detection.score keepTopk (survivors det)) := by
  have runs : ∀ rows, yoloRun t keepTopk offset images = some rows ↔
      ∃ results, List.Forall₂ (fun detRaw written => yoloWritten t keepTopk detRaw = some written)
        images results ∧ topRows offset 6 (fun _ => yoloRow) results = rows := by
    intro rows
    simp only [yoloRun, Option.bind_eq_bind, Option.bind_eq_some_iff, Option.pure_def,
      Option.some_inj, mapM_some_iff]
  unfold YoloKeepsBest
  simp only [runs]
  refine (batch_iff offset 6 (fun _ => yoloRow) _ (fun detRaw written => ∀ det,
    yoloNms t detRaw = some det → keepTopk < (survivors det).length →
      KeepsBest Detection.score keepTopk (survivors det) written) images).trans ?_
  refine forall₂_congr fun detRaw _ => ?_
  constructor
  · rintro ⟨written, writes, best⟩
    obtain ⟨few, det, ran, rfl⟩ := yoloWritten_eq_some_iff.mp writes
    exact ⟨few, det, ran, fun more => (keepsBest_take_iff more).mp (best det ran more)⟩
  · rintro ⟨few, det, ran, best⟩
    refine ⟨_, yoloWritten_eq_some_iff.mpr ⟨few, det, ran, rfl⟩, fun det' ran' more => ?_⟩
    obtain rfl := Option.some.inj (ran.symm.trans ran')
    exact (keepsBest_take_iff more).mpr (best more)

theorem frcnKeepsBest_iff (t : α) (keepTopk : Int) (num : Nat) (offset : Nat → Nat)
    (images : List (List (Detection (Coord α) α))) :
    FrcnKeepsBest t keepTopk num offset images ↔ ∀ dets ∈ images, dets.length ≤ num ∧
      ∃ det, frcnNms t dets = some det ∧ (keepTopk < (survivors det).length →
        BestInFront Detection.score keepTopk (survivors det)) := by
  have runs : ∀ rows, frcnRun t keepTopk num offset images = some rows ↔
      ∃ results, List.Forall₂ (fun dets written => frcnWritten t keepTopk num dets = some written)
        images results ∧ topRows offset 6 (fun _ => frcnRow) results = rows := by
    intro rows
    simp only [frcnRun, Option.bind_eq_bind, Option.bind_eq_some_iff, Option.pure_def,
      Option.some_inj, mapM_some_iff]
  unfold FrcnKeepsBest
  simp only [runs]
  refine (batch_iff offset 6 (fun _ => frcnRow) _ (fun dets written => ∀ det,
    frcnNms t dets = some det → keepTopk < (survivors det).length →
      KeepsBest Detection.score keepTopk (survivors det) written) images).trans ?_
  refine forall₂_congr fun dets _ => ?_
  constructor
  · rintro ⟨written, writes, best⟩
    obtain ⟨few, det, ran, rfl⟩ := frcnWritten_eq_some_iff.mp writes
    exact ⟨few, det, ran, fun more => (keepsBest_take_iff more).mp (best det ran more)⟩
  · rintro ⟨few, det, ran, best⟩
    refine ⟨_, frcnWritten_eq_some_iff.mpr ⟨few, det, ran, rfl⟩, fun det' ran' more => ?_⟩
    obtain rfl := Option.some.inj (ran.symm.trans ran')
    exact (keepsBest_take_iff more).mpr (best more)

omit [Field α] in
/-- Those that are left are in the order in which they were collected. -/
theorem survivors_sublist {β : Type*} [Zero α] {dets out : List (Detection β α)}
    (erasures : Erasures dets out) : (survivors out).Sublist dets := by
  induction erasures with
  | nil => exact List.Sublist.slnil
  | cons here _ ih =>
    rw [survivors, List.filter_cons]
    split
    · next positive =>
      rcases here with rfl | rfl
      · exact ih.cons_cons _
      · rw [decide_eq_true_eq, Detection.erase_score] at positive
        exact absurd positive (lt_irrefl 0)
    · exact ih.cons _

/-- Detections that are collected by descending score. -/
def Descending {β : Type*} (dets : List (Detection β α)) : Prop :=
  (∀ d ∈ dets, 0 < d.score) ∧ dets.Pairwise fun d e => e.score ≤ d.score

theorem Descending.bestInFront {β : Type*} {hits : β → β → Bool} {dets : List (Detection β α)}
    (descending : Descending dets) {keepTopk : Int} (nonneg : 0 ≤ keepTopk) :
    BestInFront Detection.score keepTopk (survivors (suppress hits dets)) := by
  have erasures : Erasures dets (suppress hits dets) :=
    suppressOuter_erasures _ dets fun d member => (descending.1 d member).le
  refine forall_bestInFront_iff.mpr ?_ keepTopk nonneg
  exact descending.2.sublist (survivors_sublist erasures)

/-- Both detection layers write the best of images whose detections are collected by descending
    score, as far as there is room for them and, for YOLO, no union is empty. -/
theorem keepsBest_of_descending [IsStrictOrderedRing α] (t : α) {keepTopk : Int}
    (nonneg : 0 ≤ keepTopk) (offset : Nat → Nat) :
    (∀ images : List (List (Detection (Box α) α)), (∀ detRaw ∈ images,
        detRaw.length ≤ maxDet ∧ UnionsFilled detRaw ∧ Descending detRaw) →
      YoloKeepsBest t keepTopk offset images) ∧
    (∀ (num : Nat) (images : List (List (Detection (Coord α) α))),
      (∀ dets ∈ images, dets.length ≤ num ∧ Descending dets) →
      FrcnKeepsBest t keepTopk num offset images) := by
  refine ⟨fun images each => ?_, fun num images each => ?_⟩
  · rw [yoloKeepsBest_iff]
    intro detRaw member
    obtain ⟨few, filled, descending⟩ := each detRaw member
    refine ⟨few, _, nmsInPlace_eq ((comparable_iff_unionsFilled t detRaw).mpr filled)
      fun d inside => (descending.1 d inside).le, fun _ => descending.bestInFront nonneg⟩
  · rw [frcnKeepsBest_iff]
    intro dets member
    obtain ⟨few, descending⟩ := each dets member
    refine ⟨few, _, nmsInPlace_eq (comparable_frcnOver t dets)
      fun d inside => (descending.1 d inside).le, fun _ => descending.bestInFront nonneg⟩

end

/-! ## Images with two detections and room for one -/

end CviRuntime.CpuFunction
