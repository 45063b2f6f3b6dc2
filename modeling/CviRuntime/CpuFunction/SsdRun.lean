import CviRuntime.CpuFunction.SsdNms
import CviRuntime.Lib.Binary32
import CviRuntime.Lib.KeyedMap

/-!
# The SSD layer (`src/common/cpu_function/ssd_detection.cpp`)

`SSDDetectionFunc::run` without NEON: scores above the threshold by class, the best `top_k` of each
class, suppression class by class, the best `keep_top_k` of an image, and the rows of the output.
The scores are bits; the corners of a box are exact numbers, decoded by a function of the image, the
label and the prior.
-/

namespace CviRuntime.CpuFunction

open Std (ExtTreeMap)
open Binary32 (Bits gt)
open KeyedMap (push)

/-- `std::sort` and `std::partial_sort` by score: for each place of the result, the place in the
    input it comes from. -/
structure Sorting where
  sort : List Bits → List Nat
  partialSort : Nat → List Bits → List Nat
  sort_perm : ∀ scores, (sort scores).Perm (List.range scores.length)
  partialSort_perm : ∀ topK scores, (partialSort topK scores).Perm (List.range scores.length)

/-- The values in a new order. -/
def permuted {γ : Type*} (places : List Nat) (xs : List γ) : List γ :=
  places.filterMap fun place => xs[place]?

/-- A score, with a prior or an index. -/
abbrev Scored := Bits × Nat

/-- The layer's parameters and its inputs; the label of a box is -1 when locations are shared. -/
structure Ssd (α : Type*) where
  num : Nat
  numPriors : Nat
  numClasses : Nat
  confData : Nat → Bits
  decode : Nat → Int → Nat → BBoxL α
  objThreshold : Bits
  shareLocation : Bool
  backgroundLabelId : Int
  topK : Nat
  keepTopk : Int
  nmsThreshold : α
  eta : α
  sorting : Sorting

/-- A value of the output. -/
inductive Cell (α : Type*) where
  | int (z : Int)
  | score (s : Bits)
  | coord (x : α)
  deriving DecidableEq, Repr

variable {α : Type*}

/-- The seven values of a detection. -/
def rowCells (i : Nat) (label : Nat) (score : Bits) (bbox : BBoxL α) : List (Cell α) :=
  [.int i, .int label, .score score, .coord bbox.xmin, .coord bbox.ymin, .coord bbox.xmax,
    .coord bbox.ymax]

def writeCells (topData : Nat → Cell α) (off : Nat) (cells : List (Cell α)) (k : Nat) : Cell α :=
  if off ≤ k then (cells[k - off]?).getD (topData k) else topData k

section

variable [Field α] [LinearOrder α] (p : Ssd α)

/-- The `label` of the boxes of a class. -/
def Ssd.locLabel (c : Nat) : Int := if p.shareLocation then -1 else c

def Ssd.numLocClasses : Nat := if p.shareLocation then 1 else p.numClasses

/-- Where the scores of an image begin. -/
def Ssd.confBase (i : Nat) : Nat := i * (p.numPriors * p.numClasses)

/-- The sort by score, as far as `top_k`. -/
def Ssd.sortTopK (scores : List Scored) : List Scored :=
  permuted (if p.topK < scores.length then p.sorting.partialSort p.topK (scores.map Prod.fst)
    else p.sorting.sort (scores.map Prod.fst)) scores

/-- `min(top_k, scores.size())`. -/
def Ssd.lengthOf (scores : List Scored) : Nat :=
  if p.topK < scores.length then p.topK else scores.length

/-- `GetConfidenceScores_opt` (`ssd_detection.cpp:525-545`). -/
def getConfidenceScoresOpt (i : Nat) : ExtTreeMap Nat (List Scored) :=
  (List.range p.numPriors).foldl (fun labelScores prior =>
    (List.range p.numClasses).foldl (fun labelScores c =>
      let score := p.confData (p.confBase i + (prior * p.numClasses + c))
      if gt score p.objThreshold then push labelScores c (score, prior) else labelScores)
      labelScores) ∅

/-- The scores of an image after the sorts (`ssd_detection.cpp:809-825`). -/
def sortedScores (i : Nat) : ExtTreeMap Nat (List Scored) :=
  (List.range p.numClasses).foldl (fun labelScores c => labelScores.alter c
    (Option.map p.sortTopK)) (getConfidenceScoresOpt p i)

/-- Where the flags of a class begin in `decode_keep_index`. -/
def keepBase (i c : Nat) : Nat :=
  if p.shareLocation then p.numPriors * i else p.numPriors * p.numClasses * i + p.numPriors * c

/-- The places of `decode_keep_index` that are set (`ssd_detection.cpp:827-860`). -/
def decodeKeepIndex : List Nat :=
  (List.range p.num).flatMap fun i => (List.range p.numClasses).flatMap fun (c : Nat) =>
    if (c : Int) = p.backgroundLabelId then []
    else match (sortedScores p i)[c]? with
      | none => []
      | some scores => (scores.take (p.lengthOf scores)).map fun s => keepBase p i c + s.2

/-- `GetLocPredictions_opt` and `DecodeBBoxesAll_opt` (`ssd_detection.cpp:547-662`): the boxes by
    label, of which those that are not kept stay what they were. -/
def decodeBBoxesAllOpt (undecoded : Nat → BBoxL α) (i : Nat) : ExtTreeMap Int (Nat → BBoxL α) :=
  (List.range p.numLocClasses).foldl (fun decodeBboxes c =>
    let label := p.locLabel c
    if label = p.backgroundLabelId then decodeBboxes
    else decodeBboxes.insert label fun k =>
      if keepBase p i c + k ∈ decodeKeepIndex p then p.decode i label k else undecoded k) ∅

/-- The suppression of an image (`ssd_detection.cpp:877-901`): `indices` and `num_det`. -/
def suppressed (undecoded : Nat → BBoxL α) (i : Nat) : ExtTreeMap Nat (List Scored) × Nat :=
  (List.range p.numClasses).foldl (fun st (c : Nat) =>
    if (c : Int) = p.backgroundLabelId then st
    else match (sortedScores p i)[c]?, (decodeBBoxesAllOpt p undecoded i)[p.locLabel c]? with
      | some scores, some bboxes =>
        let kept := applyNMSFastOpt bboxes scores p.nmsThreshold p.eta p.topK (st.1[c]?.getD [])
        (st.1.insert c kept, st.2 + kept.length)
      | _, _ => st) (∅, 0)

/-- The detections of all classes, class after class (`ssd_detection.cpp:904-912`). -/
def scoreIndexPairs (indices : ExtTreeMap Nat (List Scored)) : List (Bits × Nat × Nat) :=
  indices.toList.flatMap fun entry => entry.2.map fun s => (s.1, entry.1, s.2)

/-- `all_indices` of an image and what it adds to `num_kept` (`ssd_detection.cpp:903-933`). -/
def allIndices (undecoded : Nat → BBoxL α) (i : Nat) : ExtTreeMap Nat (List Scored) × Nat :=
  let (indices, numDet) := suppressed p undecoded i
  if p.keepTopk > -1 ∧ (numDet : Int) > p.keepTopk then
    let pairs := scoreIndexPairs indices
    let pairs := (permuted (p.sorting.sort (pairs.map Prod.fst)) pairs).take p.keepTopk.toNat
    (pairs.foldl (fun newIndices pair => push newIndices pair.2.1 (pair.1, pair.2.2)) ∅,
      p.keepTopk.toNat)
  else (indices, numDet)

def numKept (undecoded : Nat → BBoxL α) : Nat :=
  ((List.range p.num).map fun i => (allIndices p undecoded i).2).sum

/-- The number of output values. -/
def Ssd.outputSize : Nat := p.num * p.keepTopk.toNat * 7

/-- The rows of the labels of an image, from row `count` on (`ssd_detection.cpp:951-973`). -/
def writeImage (undecoded : Nat → BBoxL α) (st : (Nat → Cell α) × Nat) (i : Nat) :
    (Nat → Cell α) × Nat :=
  (allIndices p undecoded i).1.toList.foldl (fun st entry =>
    match (decodeBBoxesAllOpt p undecoded i)[p.locLabel entry.1]? with
    | none => st
    | some bboxes => entry.2.foldl (fun st s =>
        (writeCells st.1 (st.2 * 7) (rowCells i entry.1 s.1 (bboxes s.2)), st.2 + 1)) st) st

/-- `SSDDetectionFunc::run` without NEON (`ssd_detection.cpp:788-977`). -/
def ssdRun (undecoded : Nat → BBoxL α) : Nat → Cell α :=
  let topData : Nat → Cell α := fun k => if k < p.outputSize then .int (-1) else .int 0
  if numKept p undecoded = 0 then
    (List.range p.num).foldl (fun topData i => writeCells topData (i * 7) [.int i]) topData
  else ((List.range p.num).foldl (writeImage p undecoded) (topData, 0)).1

end

end CviRuntime.CpuFunction
