import CviRuntime.CpuFunction.SsdNeon
import CviRuntime.Lib.Loop

/-!
# The candidates of the SSD layer

Both paths come to the same scores of a class, sort them and go on with the best `top_k`: the plain
path by prior and class, the other over one index that it divides back later, and with the bits of
the scores in place of the scores.
-/

namespace CviRuntime.CpuFunction

open Std (ExtTreeMap)
open Binary32 (gt isNaN gt_iff_toInt positive_of_gt)
open KeyedMap (Below push Holds holds_empty getElem?_foldl_alter)
open Loop (foldl_range_look foldl_range_mul)

/-! ## New orders -/

section

variable {γ δ : Type*}

theorem filterMap_range_getElem? (xs : List γ) :
    (List.range xs.length).filterMap (fun place => xs[place]?) = xs := by
  induction xs with
  | nil => rfl
  | cons x xs ih =>
    rw [List.length_cons, List.range_succ_eq_map, List.filterMap_cons, List.filterMap_map]
    exact congrArg (x :: ·) ih

theorem permuted_perm {places : List Nat} {xs : List γ}
    (perm : places.Perm (List.range xs.length)) : (permuted places xs).Perm xs := by
  have moved := perm.filterMap fun place => xs[place]?
  rwa [filterMap_range_getElem?] at moved

theorem permuted_map (places : List Nat) (f : γ → δ) (xs : List γ) :
    permuted places (xs.map f) = (permuted places xs).map f := by
  simp only [permuted, List.map_filterMap, List.getElem?_map]

end

variable {α : Type*} (p : Ssd α)

/-- A sort goes by the scores: what stands beside them moves along. -/
theorem Ssd.sortTopK_map (g : Nat → Nat) (scores : List Scored) :
    p.sortTopK (scores.map fun s => (s.1, g s.2)) =
      (p.sortTopK scores).map fun s => (s.1, g s.2) := by
  rw [Ssd.sortTopK, Ssd.sortTopK, ← permuted_map, List.length_map, List.map_map]
  rfl

theorem Ssd.sortTopK_perm (scores : List Scored) : (p.sortTopK scores).Perm scores := by
  have length : (scores.map Prod.fst).length = scores.length := List.length_map _
  apply permuted_perm
  split
  · exact length ▸ p.sorting.partialSort_perm p.topK (scores.map Prod.fst)
  · exact length ▸ p.sorting.sort_perm (scores.map Prod.fst)

theorem Ssd.lengthOf_congr {scores scores' : List Scored} (same : scores.length = scores'.length) :
    p.lengthOf scores = p.lengthOf scores' := by
  rw [Ssd.lengthOf, Ssd.lengthOf, same]

/-! ## The scores of a class -/

/-- The scores of a class above the threshold, with their places among all. -/
def Ssd.above (i c : Nat) : List Scored :=
  (((List.range p.allClasses).filter fun j =>
    gt (p.confData (p.confBase i + j)) p.objThreshold).filter fun j =>
      j % p.numClasses = c).map fun j => (p.confData (p.confBase i + j), j)

/-- The same scores, with their priors. -/
def Ssd.scoresOf (i c : Nat) : List Scored :=
  (p.above i c).map fun s => (s.1, s.2 / p.numClasses)

/-- The best `top_k` of them. -/
def Ssd.candidates (i c : Nat) : List Scored :=
  (p.sortTopK (p.scoresOf i c)).take (p.lengthOf (p.scoresOf i c))

theorem Ssd.above_eq_nil {i c : Nat} (high : p.numClasses ≤ c) : p.above i c = [] := by
  rw [Ssd.above, List.map_eq_nil_iff, List.filter_eq_nil_iff]
  intro j inside same
  have small := List.mem_range.mp (List.mem_of_mem_filter inside)
  have positive : 0 < p.numClasses := Nat.pos_of_mul_pos_left (Nat.zero_lt_of_lt small)
  have less := Nat.mod_lt j positive
  rw [of_decide_eq_true same] at less
  exact Nat.not_lt.mpr high less

theorem Ssd.scoresOf_eq_nil {i c : Nat} (high : p.numClasses ≤ c) : p.scoresOf i c = [] := by
  rw [Ssd.scoresOf, p.above_eq_nil high, List.map_nil]

theorem candidates_eq_nil {i c : Nat} (empty : p.above i c = []) : p.candidates i c = [] := by
  have none : p.scoresOf i c = [] := by rw [Ssd.scoresOf, empty, List.map_nil]
  rw [Ssd.candidates, none, (p.sortTopK_perm []).eq_nil, List.take_nil]

theorem candidates_eq_nil_of_le {i c : Nat} (high : p.numClasses ≤ c) : p.candidates i c = [] :=
  candidates_eq_nil p (p.above_eq_nil high)

/-! ## The plain path -/

theorem getConfidenceScoresOpt_holds (i : Nat) :
    Holds (getConfidenceScoresOpt p i) (p.scoresOf i) := by
  have flat := foldl_range_mul (fun labelScores prior c =>
    if gt (p.confData (p.confBase i + (prior * p.numClasses + c))) p.objThreshold then
      push labelScores c (p.confData (p.confBase i + (prior * p.numClasses + c)), prior)
    else labelScores) ∅ p.numPriors p.numClasses
  simp only [Nat.div_add_mod'] at flat
  have pushed := holds_empty.foldl_push_if
    (fun j => gt (p.confData (p.confBase i + j)) p.objThreshold) (· % p.numClasses)
    (fun j => (p.confData (p.confBase i + j), j / p.numClasses)) (List.range p.allClasses)
  intro c
  rw [getConfidenceScoresOpt]
  dsimp only
  rw [flat, Ssd.scoresOf, Ssd.above, List.map_map]
  exact pushed c

theorem sortedScores_getElem? (i c : Nat) : (sortedScores p i)[c]? =
    if p.scoresOf i c = [] then none else some (p.sortTopK (p.scoresOf i c)) := by
  rw [sortedScores, getElem?_foldl_alter, getConfidenceScoresOpt_holds p i c]
  by_cases inside : c < p.numClasses
  · rw [if_pos inside]
    split <;> rfl
  · rw [if_neg inside, p.scoresOf_eq_nil (Nat.not_lt.mp inside), if_pos rfl, if_pos rfl]

/-! ## The path with NEON -/

/-- The threshold is positive and no score is NaN, so that scores compare as their bits do. -/
structure Ssd.Numbers : Prop where
  positive : gt p.objThreshold 0 = true
  scores : ∀ i < p.num, ∀ j < p.allClasses, isNaN (p.confData (p.confBase i + j)) = false

/-- A class whose scores are left out because it is the background of shared locations. -/
def Ssd.leftOut (c : Nat) : Bool := p.shareLocation && decide ((c : Int) = p.backgroundLabelId)

/-- The rounds of eight and the residue go through all places. -/
theorem selectRounds_foldl (i : Nat) (fuel j : Nat) (labelScores : ExtTreeMap Nat (List Scored)) :
    let rounds := selectRounds p i fuel j labelScores
    (List.range' rounds.2 (p.allClasses - rounds.2)).foldl (selectScore p i) rounds.1 =
      (List.range' j (p.allClasses - j)).foldl (selectScore p i) labelScores := by
  induction fuel generalizing j labelScores with
  | zero => rfl
  | succ fuel ih =>
    rw [selectRounds]
    by_cases more : (j : Int) < (p.allClasses : Int) - 8
    · have rest := ih (j + 8) ([0, 1, 2, 3, 4, 5, 6, 7].foldl (fun labelScores idx =>
        selectScore p i labelScores (j + idx)) labelScores)
      have parts : p.allClasses - j = 8 + (p.allClasses - (j + 8)) := by omega
      rw [if_pos more]
      refine rest.trans ?_
      rw [parts, ← List.range'_append_1, List.foldl_append, @List.range'_eq_map_range j 8,
        List.foldl_map]
      rfl
    · rw [if_neg more]

theorem getConfidenceScores_eq (i : Nat) :
    getConfidenceScores p i = (List.range p.allClasses).foldl (selectScore p i) ∅ := by
  rw [List.range_eq_range']
  exact selectRounds_foldl p i p.allClasses 0 ∅

/-- With the bits compared as integers the test is that of the plain path. -/
theorem selectScore_eq (numbers : p.Numbers) {i j : Nat} (image : i < p.num)
    (inside : j < p.allClasses) (labelScores : ExtTreeMap Nat (List Scored)) :
    selectScore p i labelScores j =
      if (gt (p.confData (p.confBase i + j)) p.objThreshold && !p.leftOut (j % p.numClasses)) then
        push labelScores (j % p.numClasses) (p.confData (p.confBase i + j), j)
      else labelScores := by
  obtain ⟨number, above⟩ := positive_of_gt numbers.positive
  have bits := gt_iff_toInt (numbers.scores i image j inside) number above
  have included : (((j % p.numClasses : Nat) : Int) - p.backgroundLabelId ≠ 0 ∨
      p.shareLocation = false) ↔ p.leftOut (j % p.numClasses) = false := by
    rw [Ssd.leftOut, Bool.and_eq_false_iff, decide_eq_false_iff_not, sub_ne_zero, or_comm]
  rw [selectScore]
  simp only [← bits, included, Bool.and_eq_true, Bool.not_eq_true']
  split
  · rename_i more
    simp only [more, true_and]
  · rename_i less
    rw [if_neg (mt And.left less)]

theorem getConfidenceScores_holds (numbers : p.Numbers) {i : Nat} (image : i < p.num) :
    Holds (getConfidenceScores p i) fun c => if p.leftOut c then [] else p.above i c := by
  have tests := List.foldl_ext (selectScore p i) _ ∅ fun labelScores j inside =>
    selectScore_eq p numbers image (List.mem_range.mp inside) labelScores
  have pushed := holds_empty.foldl_push_if (fun j =>
      gt (p.confData (p.confBase i + j)) p.objThreshold && !p.leftOut (j % p.numClasses))
    (· % p.numClasses) (fun j => (p.confData (p.confBase i + j), j)) (List.range p.allClasses)
  rw [getConfidenceScores_eq, tests]
  have lists : (fun c => if p.leftOut c then [] else p.above i c) = fun c => [] ++
      ((((List.range p.allClasses).filter fun j =>
        gt (p.confData (p.confBase i + j)) p.objThreshold && !p.leftOut (j % p.numClasses)).filter
          (· % p.numClasses = c)).map fun j => (p.confData (p.confBase i + j), j)) := by
    funext c
    rw [List.nil_append, Ssd.above, List.filter_filter, List.filter_filter]
    cases left : p.leftOut c with
    | true =>
      rw [if_pos rfl, eq_comm, List.map_eq_nil_iff, List.filter_eq_nil_iff]
      intro j _ passes
      obtain ⟨same, -, kept⟩ : j % p.numClasses = c ∧ _ ∧ p.leftOut (j % p.numClasses) = false := by
        simpa only [Bool.and_eq_true, decide_eq_true_eq, Bool.not_eq_true'] using passes
      rw [same, left] at kept
      exact Bool.false_ne_true kept.symm
    | false =>
      rw [if_neg Bool.false_ne_true]
      refine congrArg _ (List.filter_congr ?_)
      intro j _
      by_cases same : j % p.numClasses = c
      · rw [same, left, Bool.not_false, Bool.and_true]
      · rw [decide_eq_false same, Bool.false_and, Bool.false_and]
  rw [lists]
  exact pushed

theorem collected_getElem? (numbers : p.Numbers) {i : Nat} (image : i < p.num) (c : Nat) :
    (collected p i)[c]? =
      if p.leftOut c = true ∨ p.above i c = [] then none
      else some (collectLabel p c (p.above i c)) := by
  have scores := getConfidenceScores_holds p numbers image c
  rw [collected, ExtTreeMap.getElem?_map, scores]
  cases left : p.leftOut c with
  | true =>
    simp only [left, if_true, true_or]
    rfl
  | false =>
    simp only [left, Bool.false_eq_true, if_false, false_or]
    by_cases empty : p.above i c = []
    · rw [if_pos empty, if_pos empty]
      rfl
    · rw [if_neg empty, if_neg empty]
      rfl

/-- The first `top_k` of an entry are the candidates, with their indices divided. -/
theorem collectLabel_take {c : Nat} (foreground : checkBackground p c = false) (i : Nat) :
    (collectLabel p c (p.above i c)).1.take
      (p.lengthOf (collectLabel p c (p.above i c)).1) = p.candidates i c := by
  have same : (p.sortTopK (p.above i c)).length = (p.above i c).length :=
    (p.sortTopK_perm _).length_eq
  have short : p.lengthOf (p.above i c) ≤ (p.above i c).length := by
    rw [Ssd.lengthOf]
    split <;> omega
  rw [collectLabel, if_neg (Bool.eq_false_iff.mp foreground)]
  dsimp only
  rw [p.lengthOf_congr same]
  have total : ((((p.sortTopK (p.above i c)).take (p.lengthOf (p.above i c))).map fun s =>
      (s.1, s.2 / p.numClasses)) ++
        (p.sortTopK (p.above i c)).drop (p.lengthOf (p.above i c))).length =
      (p.above i c).length := by
    rw [List.length_append, List.length_map, List.length_take, List.length_drop, same]
    omega
  rw [p.lengthOf_congr total, List.take_left' (by
    rw [List.length_map, List.length_take, same, Nat.min_eq_left short])]
  have scores : (p.scoresOf i c).length = (p.above i c).length := List.length_map _
  rw [Ssd.candidates, p.lengthOf_congr scores, Ssd.scoresOf,
    p.sortTopK_map (· / p.numClasses), List.map_take]

/-! ## The boxes -/

section

variable (undecoded : Nat → BBoxL α)

/-- The boxes of a class after `GetLocBBox_opt`. -/
def neonBoxes (i c : Nat) (k : Nat) : BBoxL α :=
  if k ∈ neonKeepIndex p i then p.decode i (p.locLabel c) k else undecoded k

/-- A round of `GetLocBBox_opt` when each class has locations of its own. -/
def locateClass (i : Nat)
    (st : ExtTreeMap Nat (List Scored × Option Int) × ExtTreeMap Int (Nat → BBoxL α)) (c : Nat) :
    ExtTreeMap Nat (List Scored × Option Int) × ExtTreeMap Int (Nat → BBoxL α) :=
  if (c : Int) = p.backgroundLabelId then st
  else st.1[c]?.elim st fun entry =>
    (st.1.insert c (entry.1, some (c : Int)), st.2.insert (c : Int) (neonBoxes p undecoded i c))

theorem getLocBBoxOpt_apart (apart : p.shareLocation = false) (i : Nat) :
    getLocBBoxOpt p undecoded i =
      (List.range p.numClasses).foldl (locateClass p undecoded i) (collected p i, ∅) := by
  simp only [getLocBBoxOpt, Ssd.numLocClasses, apart, Bool.false_eq_true, if_false]
  refine List.foldl_ext _ _ _ ?_
  intro st c _
  have label : p.locLabel c = c := by rw [Ssd.locLabel, apart]; rfl
  have boxes : neonBoxes p undecoded i c = fun k =>
      if k ∈ neonKeepIndex p i then p.decode i c k else undecoded k := by
    funext k
    rw [neonBoxes, label]
  rw [locateClass, boxes]
  by_cases background : (c : Int) = p.backgroundLabelId
  · simp only [label, if_pos background]
  · simp only [label, if_neg background]
    cases st.1[c]? <;> rfl

/-- What a class sees: its entry, and the boxes of its label. -/
def locatedOf (st : ExtTreeMap Nat (List Scored × Option Int) × ExtTreeMap Int (Nat → BBoxL α))
    (c : Nat) : Option (List Scored × Option Int) × Option (Nat → BBoxL α) :=
  (st.1[c]?, st.2[(c : Int)]?)

/-- How a round changes it. -/
def locateOwn (i c : Nat) (seen : Option (List Scored × Option Int) × Option (Nat → BBoxL α)) :
    Option (List Scored × Option Int) × Option (Nat → BBoxL α) :=
  if (c : Int) = p.backgroundLabelId then seen
  else seen.1.elim seen fun entry =>
    (some (entry.1, some (c : Int)), some (neonBoxes p undecoded i c))

theorem locatedOf_apart (apart : p.shareLocation = false) (i c : Nat) :
    locatedOf (getLocBBoxOpt p undecoded i) c =
      if c < p.numClasses then locateOwn p undecoded i c ((collected p i)[c]?, none)
      else ((collected p i)[c]?, none) := by
  rw [getLocBBoxOpt_apart p undecoded apart]
  have rounds := foldl_range_look locatedOf (locateClass p undecoded i) (locateOwn p undecoded i)
    (fun st c => ?_) (fun st c k other => ?_) (collected p i, ∅) p.numClasses c
  · exact rounds
  · rw [locateClass, locateOwn]
    by_cases background : (c : Int) = p.backgroundLabelId
    · rw [if_pos background, if_pos background]
    · rw [if_neg background, if_neg background, locatedOf, locatedOf]
      cases found : st.1[c]? with
      | none => rw [Option.elim_none, Option.elim_none, found]
      | some entry =>
        rw [Option.elim_some, Option.elim_some, ExtTreeMap.getElem?_insert_self,
          ExtTreeMap.getElem?_insert_self]
  · rw [locateClass]
    by_cases background : (c : Int) = p.backgroundLabelId
    · rw [if_pos background]
    · rw [if_neg background]
      cases found : st.1[c]? with
      | none => rfl
      | some entry =>
        rw [Option.elim_some, locatedOf, locatedOf, ExtTreeMap.getElem?_insert,
          ExtTreeMap.getElem?_insert,
          if_neg (mt compare_eq_iff_eq.mp other),
          if_neg (mt compare_eq_iff_eq.mp (Int.ofNat_inj.not.mpr other))]

theorem getLocBBoxOpt_shared (shared : p.shareLocation = true) (i c : Nat) :
    getLocBBoxOpt p undecoded i =
      (collected p i, (∅ : ExtTreeMap Int (Nat → BBoxL α)).insert (-1)
        (neonBoxes p undecoded i c)) := by
  have boxes : neonBoxes p undecoded i c = fun k =>
      if k ∈ neonKeepIndex p i then p.decode i (-1) k else undecoded k := by
    funext k
    rw [neonBoxes, Ssd.locLabel, if_pos shared]
  rw [getLocBBoxOpt, Ssd.numLocClasses, if_pos shared, boxes]
  simp only [Ssd.locLabel, shared, if_true]
  rfl

theorem leftOut_of_foreground {c : Nat} (foreground : (c : Int) ≠ p.backgroundLabelId) :
    p.leftOut c = false := by
  rw [Ssd.leftOut, decide_eq_false foreground, Bool.and_false]

theorem checkBackground_of_foreground {c : Nat} (foreground : (c : Int) ≠ p.backgroundLabelId) :
    checkBackground p c = false := by
  rw [checkBackground, decide_eq_false foreground, Bool.and_false]

variable {p} in
/-- The entry of a class that is not the background, and the boxes it points to. -/
theorem getLocBBoxOpt_foreground (numbers : p.Numbers) {i c : Nat} (image : i < p.num)
    (inside : c < p.numClasses) (foreground : (c : Int) ≠ p.backgroundLabelId) :
    (p.above i c = [] → (getLocBBoxOpt p undecoded i).1[c]? = none) ∧
    (p.above i c ≠ [] →
      (getLocBBoxOpt p undecoded i).1[c]? =
        some ((collectLabel p c (p.above i c)).1, some (p.locLabel c)) ∧
      (getLocBBoxOpt p undecoded i).2[p.locLabel c]? = some (neonBoxes p undecoded i c)) := by
  have entry := collected_getElem? p numbers image c
  rw [leftOut_of_foreground p foreground] at entry
  simp only [Bool.false_eq_true, false_or] at entry
  cases shared : p.shareLocation with
  | true =>
    have label : p.locLabel c = -1 := by rw [Ssd.locLabel, if_pos shared]
    rw [getLocBBoxOpt_shared p undecoded shared i c, label]
    refine ⟨fun empty => ?_, fun some => ⟨?_, ?_⟩⟩
    · rw [entry, if_pos empty]
    · rw [entry, if_neg some, collectLabel,
        if_neg (Bool.eq_false_iff.mp (checkBackground_of_foreground p foreground))]
    · exact ExtTreeMap.getElem?_insert_self
  | false =>
    have label : p.locLabel c = c := by rw [Ssd.locLabel, shared]; rfl
    have seen := locatedOf_apart p undecoded shared i c
    rw [locatedOf, if_pos inside, locateOwn, if_neg foreground, entry] at seen
    rw [label]
    refine ⟨fun empty => ?_, fun some => ?_⟩
    · rw [if_pos empty] at seen
      exact (Prod.mk.inj seen).1
    · rw [if_neg some] at seen
      exact Prod.mk.inj seen

theorem derefBoxes_foreground (numbers : p.Numbers) {i c : Nat} (image : i < p.num)
    (inside : c < p.numClasses) (foreground : (c : Int) ≠ p.backgroundLabelId)
    (scores : p.above i c ≠ []) :
    derefBoxes undecoded (getLocBBoxOpt p undecoded i).2 (some (p.locLabel c)) =
      neonBoxes p undecoded i c := by
  have located := getLocBBoxOpt_foreground undecoded numbers image inside foreground
  rw [derefBoxes, Option.bind_some, (located.2 scores).2, Option.getD_some]

/-- A class that is the background has no entry, or one that is passed over. -/
theorem getLocBBoxOpt_background (numbers : p.Numbers) {i c : Nat} (image : i < p.num)
    (background : (c : Int) = p.backgroundLabelId) :
    (getLocBBoxOpt p undecoded i).1[c]? = none ∨ checkBackground p c = true := by
  cases shared : p.shareLocation with
  | true =>
    left
    rw [getLocBBoxOpt_shared p undecoded shared i c, collected_getElem? p numbers image]
    exact if_pos (Or.inl (by rw [Ssd.leftOut, shared, decide_eq_true background]; rfl))
  | false =>
    right
    rw [checkBackground, shared, decide_eq_true background]
    rfl

theorem getLocBBoxOpt_below (numbers : p.Numbers) {i : Nat} (image : i < p.num) :
    Below (getLocBBoxOpt p undecoded i).1 p.numClasses := by
  intro c entry held
  by_contra high
  have none : (collected p i)[c]? = none := by
    rw [collected_getElem? p numbers image, if_pos (Or.inr (p.above_eq_nil (Nat.not_lt.mp high)))]
  cases shared : p.shareLocation with
  | true =>
    rw [getLocBBoxOpt_shared p undecoded shared i c, none] at held
    cases held
  | false =>
    have seen := locatedOf_apart p undecoded shared i c
    rw [locatedOf, if_neg high, none, held] at seen
    cases seen

theorem above_of_candidate {i c : Nat} {s : Scored} (member : s ∈ p.candidates i c) :
    p.above i c ≠ [] := by
  intro empty
  rw [candidates_eq_nil p empty] at member
  cases member

/-- The boxes of the candidates are decoded. -/
theorem neonBoxes_candidate (numbers : p.Numbers) {i c : Nat} (image : i < p.num)
    (foreground : (c : Int) ≠ p.backgroundLabelId) {s : Scored} (member : s ∈ p.candidates i c) :
    neonBoxes p undecoded i c s.2 = p.decode i (p.locLabel c) s.2 := by
  have scores := above_of_candidate p member
  have entry := collected_getElem? p numbers image c
  rw [leftOut_of_foreground p foreground, if_neg (by simp [scores])] at entry
  apply if_pos
  rw [neonKeepIndex, List.mem_flatMap]
  refine ⟨_, ExtTreeMap.mem_toList_iff_getElem?_eq_some.mpr entry, ?_⟩
  have passes := checkBackground_of_foreground p foreground
  rw [if_neg (Bool.eq_false_iff.mp passes), collectLabel_take p passes]
  exact List.mem_map_of_mem member

/-! ## The boxes of the plain path -/

/-- The boxes of a class after `DecodeBBoxesAll_opt`. -/
def plainBoxes (i c : Nat) (k : Nat) : BBoxL α :=
  if keepBase p i c + k ∈ decodeKeepIndex p then p.decode i (p.locLabel c) k else undecoded k

theorem decodeBBoxesAllOpt_foreground (shared : p.shareLocation = true → p.backgroundLabelId ≠ -1)
    (i : Nat) {c : Nat} (inside : c < p.numClasses) (foreground : (c : Int) ≠ p.backgroundLabelId) :
    (decodeBBoxesAllOpt p undecoded i)[p.locLabel c]? = some (plainBoxes p undecoded i c) := by
  cases share : p.shareLocation with
  | true =>
    have label (c : Nat) : p.locLabel c = -1 := by rw [Ssd.locLabel, if_pos share]
    have boxes : plainBoxes p undecoded i c = plainBoxes p undecoded i 0 := by
      funext k
      rw [plainBoxes, plainBoxes, keepBase, keepBase, if_pos share, if_pos share, label, label]
    rw [boxes, decodeBBoxesAllOpt, Ssd.numLocClasses, if_pos share, label]
    simp only [List.range_one, List.foldl_cons, List.foldl_nil, label]
    rw [if_neg (Ne.symm (shared share)), ExtTreeMap.getElem?_insert_self]
    refine congrArg some (funext fun k => ?_)
    rw [plainBoxes, label]
  | false =>
    have label (c : Nat) : p.locLabel c = c := by rw [Ssd.locLabel, share]; rfl
    have rounds := foldl_range_look
      (fun (decoded : ExtTreeMap Int (Nat → BBoxL α)) c => decoded[(c : Int)]?)
      (fun decoded c => if (c : Int) = p.backgroundLabelId then decoded
        else decoded.insert (c : Int) (plainBoxes p undecoded i c))
      (fun c seen => if (c : Int) = p.backgroundLabelId then seen
        else some (plainBoxes p undecoded i c))
      (fun decoded c => ?_) (fun decoded c k other => ?_) ∅ p.numClasses c
    · rw [if_pos inside, if_neg foreground] at rounds
      have same : decodeBBoxesAllOpt p undecoded i = (List.range p.numClasses).foldl
          (fun decoded (c : Nat) => if (c : Int) = p.backgroundLabelId then decoded
            else decoded.insert (c : Int) (plainBoxes p undecoded i c)) ∅ := by
        simp only [decodeBBoxesAllOpt, Ssd.numLocClasses, share, Bool.false_eq_true, if_false]
        refine List.foldl_ext _ _ _ fun decoded c _ => ?_
        have boxes : plainBoxes p undecoded i c = fun k =>
            if keepBase p i c + k ∈ decodeKeepIndex p then p.decode i c k else undecoded k := by
          funext k
          rw [plainBoxes, label]
        rw [boxes, label]
      rw [label, same]
      exact rounds
    · by_cases background : (c : Int) = p.backgroundLabelId
      · simp only [if_pos background]
      · simp only [if_neg background, ExtTreeMap.getElem?_insert_self]
    · by_cases background : (c : Int) = p.backgroundLabelId
      · simp only [if_pos background]
      · simp only [if_neg background, ExtTreeMap.getElem?_insert]
        rw [if_neg (mt compare_eq_iff_eq.mp (Int.ofNat_inj.not.mpr other))]

theorem plainBoxes_candidate {i c : Nat} (image : i < p.num) (inside : c < p.numClasses)
    (foreground : (c : Int) ≠ p.backgroundLabelId) {s : Scored} (member : s ∈ p.candidates i c) :
    plainBoxes p undecoded i c s.2 = p.decode i (p.locLabel c) s.2 := by
  have scores : p.scoresOf i c ≠ [] := mt List.map_eq_nil_iff.mp (above_of_candidate p member)
  have same : (p.sortTopK (p.scoresOf i c)).length = (p.scoresOf i c).length :=
    (p.sortTopK_perm _).length_eq
  apply if_pos
  rw [decodeKeepIndex, List.mem_flatMap]
  refine ⟨i, List.mem_range.mpr image, List.mem_flatMap.mpr ⟨c, List.mem_range.mpr inside, ?_⟩⟩
  rw [if_neg foreground, sortedScores_getElem?, if_neg scores]
  dsimp only
  rw [p.lengthOf_congr same]
  exact List.mem_map_of_mem member

end

end CviRuntime.CpuFunction
