import CviRuntime.CpuFunction.SsdRun

/-!
# The SSD layer with NEON (`src/common/cpu_function/ssd_detection.cpp`)

`SSDDetectionFunc::neon_run` compares scores as integers, over one index for prior and class in
rounds of eight, keeps the detections of all classes in one list with pointers to their boxes, and
finds the row of a detection from a counter for each label.

A pointer to boxes is the label of the boxes; `none` is the null pointer.
-/

namespace CviRuntime.CpuFunction

open Std (ExtTreeMap)
open Binary32 (Bits)
open KeyedMap (push)

variable {α : Type*} [Field α] [LinearOrder α]

section

variable (p : Ssd α)

def Ssd.allClasses : Nat := p.numPriors * p.numClasses

/-- `SELECT_SCORE` (`ssd_detection.cpp:306-313`). -/
def selectScore (i : Nat) (labelScores : ExtTreeMap Nat (List Scored)) (j : Nat) :
    ExtTreeMap Nat (List Scored) :=
  let v := p.confData (p.confBase i + j)
  if v.toInt > p.objThreshold.toInt then
    let c := j % p.numClasses
    if (c : Int) - p.backgroundLabelId ≠ 0 ∨ p.shareLocation = false then
      push labelScores c (v, j)
    else labelScores
  else labelScores

/-- The rounds of eight (`ssd_detection.cpp:315-329`): the scores, and where the residue begins. -/
def selectRounds (i : Nat) :
    Nat → Nat → ExtTreeMap Nat (List Scored) → ExtTreeMap Nat (List Scored) × Nat
  | 0, j, labelScores => (labelScores, j)
  | fuel + 1, j, labelScores =>
    if (j : Int) < (p.allClasses : Int) - 8 then
      selectRounds i fuel (j + 8) ([0, 1, 2, 3, 4, 5, 6, 7].foldl (fun labelScores idx =>
        selectScore p i labelScores (j + idx)) labelScores)
    else (labelScores, j)

/-- `GetConfidenceScores` (`ssd_detection.cpp:257-339`). -/
def getConfidenceScores (i : Nat) : ExtTreeMap Nat (List Scored) :=
  let (labelScores, j) := selectRounds p i p.allClasses 0 ∅
  (List.range' j (p.allClasses - j)).foldl (selectScore p i) labelScores

/-- `is_background_cls`, and `is_share_loc_background_cls` when locations are shared. -/
def checkBackground (c : Nat) : Bool := !p.shareLocation && decide ((c : Int) = p.backgroundLabelId)

/-- The entry of a label in `GetLocBBox_opt` (`ssd_detection.cpp:129-156`): its scores sorted, the
    indices of the best divided, and the pointer. -/
def collectLabel (c : Nat) (scores : List Scored) : List Scored × Option Int :=
  if checkBackground p c then (scores, none)
  else
    let scores := p.sortTopK scores
    let length := p.lengthOf scores
    ((scores.take length).map (fun s => (s.1, s.2 / p.numClasses)) ++ scores.drop length, some (-1))

def collected (i : Nat) : ExtTreeMap Nat (List Scored × Option Int) :=
  (getConfidenceScores p i).map (collectLabel p)

/-- `decode_keep_index` of an image. -/
def neonKeepIndex (i : Nat) : List Nat :=
  (collected p i).toList.flatMap fun entry =>
    if checkBackground p entry.1 then []
    else (entry.2.1.take (p.lengthOf entry.2.1)).map Prod.snd

/-- `GetLocBBox_opt` (`ssd_detection.cpp:100-255`): the scores with the pointers, and the boxes. -/
def getLocBBoxOpt (undecoded : Nat → BBoxL α) (i : Nat) :
    ExtTreeMap Nat (List Scored × Option Int) × ExtTreeMap Int (Nat → BBoxL α) :=
  (List.range p.numLocClasses).foldl (fun st c =>
    let label := p.locLabel c
    let bboxes := fun k => if k ∈ neonKeepIndex p i then p.decode i label k else undecoded k
    if p.shareLocation then (st.1, st.2.insert label bboxes)
    else if label = p.backgroundLabelId then st
    else
      match st.1[c]? with
      | none => st
      | some entry => (st.1.insert c (entry.1, some label), st.2.insert label bboxes))
    (collected p i, ∅)

end

/-- A detection: score, label, prior and the pointer to its boxes. -/
abbrev Detected := Bits × Nat × Nat × Option Int

/-- The boxes behind a pointer. -/
def derefBoxes (undecoded : Nat → BBoxL α) (decodeBboxes : ExtTreeMap Int (Nat → BBoxL α))
    (pointer : Option Int) : Nat → BBoxL α :=
  (pointer.bind fun label => decodeBboxes[label]?).getD undecoded

/-- The loop of `ApplyNMSFast` (`ssd_detection.cpp:352-394`). -/
def applyFastLoop (bboxes : Nat → BBoxL α) (eta : α) (label : Nat) (pointer : Option Int)
    (offset : Nat) : List Scored → α → List Detected → Nat → List Detected × Nat
  | [], _, pairs, indicesSz => (pairs, indicesSz)
  | pair :: rest, adaptiveThreshold, pairs, indicesSz =>
    let kept := ((pairs.drop offset).take indicesSz).map fun d : Detected => (d.1, d.2.2.1)
    let keep := keepLoop bboxes adaptiveThreshold (bboxes pair.2) kept true
    applyFastLoop bboxes eta label pointer offset rest
      (if keep = true ∧ eta < 1 ∧ adaptiveThreshold > half then adaptiveThreshold * eta
        else adaptiveThreshold)
      (if keep then pairs ++ [(pair.1, label, pair.2, pointer)] else pairs)
      (if keep then indicesSz + 1 else indicesSz)

/-- `ApplyNMSFast` (`ssd_detection.cpp:341-396`): the detections with those of a label, and their
    number. -/
def applyNMSFast (bboxes : Nat → BBoxL α) (confScore : List Scored) (nmsThreshold eta : α)
    (topK label : Nat) (pointer : Option Int) (scoreIndexPairs : List Detected) :
    List Detected × Nat :=
  let length := if topK < confScore.length then topK else confScore.length
  applyFastLoop bboxes eta label pointer scoreIndexPairs.length (confScore.take length) nmsThreshold
    scoreIndexPairs 0

section

variable (p : Ssd α)

/-- The suppression of an image (`ssd_detection.cpp:441-454`): `score_index_pairs`, and
    `new_indices_cnt`. -/
def detect (undecoded : Nat → BBoxL α) (i : Nat) :
    List Detected × ExtTreeMap Nat (Nat × Nat) :=
  let (confScores, decodeBboxes) := getLocBBoxOpt p undecoded i
  confScores.toList.foldl (fun st entry =>
    if checkBackground p entry.1 then st
    else
      let (pairs, detNum) := applyNMSFast (derefBoxes undecoded decodeBboxes entry.2.2) entry.2.1
        p.nmsThreshold p.eta p.topK entry.1 entry.2.2 st.1
      (pairs, st.2.insert entry.1 (detNum, 0))) ([], ∅)

/-- `new_indices_cnt[label].first++`. -/
def countLabel (newIndicesCnt : ExtTreeMap Nat (Nat × Nat)) (d : Detected) :
    ExtTreeMap Nat (Nat × Nat) :=
  newIndicesCnt.alter d.2.1 fun entry => some ((entry.getD (0, 0)).1 + 1, (entry.getD (0, 0)).2)

/-- The best `keep_top_k` of an image (`ssd_detection.cpp:456-482`): the detections that are
    written, and the counters. -/
def keepBest (st : List Detected × ExtTreeMap Nat (Nat × Nat)) :
    List Detected × ExtTreeMap Nat (Nat × Nat) :=
  if p.keepTopk > -1 ∧ (st.1.length : Int) > p.keepTopk then
    let pairs := (permuted (p.sorting.sort (st.1.map Prod.fst)) st.1).take p.keepTopk.toNat
    (pairs, pairs.foldl countLabel (st.2.map fun _ entry => (0, entry.2)))
  else st

/-- The counters become the distances of the labels (`ssd_detection.cpp:484-495`). -/
def labelDistances (newIndicesCnt : ExtTreeMap Nat (Nat × Nat)) : ExtTreeMap Nat (Nat × Nat) :=
  (newIndicesCnt.toList.foldl (fun st entry =>
    (st.1.insert entry.1 (st.2, entry.2.2), st.2 + entry.2.1)) (newIndicesCnt, 0)).1

/-- The row of a detection (`ssd_detection.cpp:498-516`). -/
def writeDetected (undecoded : Nat → BBoxL α) (decodeBboxes : ExtTreeMap Int (Nat → BBoxL α))
    (i numShift : Nat) (st : (Nat → Cell α) × ExtTreeMap Nat (Nat × Nat)) (d : Detected) :
    (Nat → Cell α) × ExtTreeMap Nat (Nat × Nat) :=
  let entry := st.2[d.2.1]?.getD (0, 0)
  (writeCells st.1 ((entry.1 + entry.2 + numShift) * 7)
      (rowCells i d.2.1 d.1 (derefBoxes undecoded decodeBboxes d.2.2.2 d.2.2.1)),
    st.2.insert d.2.1 (entry.1, entry.2 + 1))

/-- An image, whose rows begin with row `num_shift` (`ssd_detection.cpp:426-519`). -/
def neonImage (undecoded : Nat → BBoxL α) (st : (Nat → Cell α) × Nat) (i : Nat) :
    (Nat → Cell α) × Nat :=
  let (pairs, newIndicesCnt) := keepBest p (detect p undecoded i)
  ((pairs.foldl (writeDetected undecoded (getLocBBoxOpt p undecoded i).2 i st.2)
      (st.1, labelDistances newIndicesCnt)).1, st.2 + pairs.length)

/-- `SSDDetectionFunc::neon_run` (`ssd_detection.cpp:400-528`). -/
def neonRun (undecoded : Nat → BBoxL α) (topData : Nat → Cell α) : Nat → Cell α :=
  let (topData, numShift) := (List.range p.num).foldl (neonImage p undecoded) (topData, 0)
  fun k => if numShift * 7 ≤ k ∧ k < p.outputSize then .int (-1) else topData k

end

end CviRuntime.CpuFunction
