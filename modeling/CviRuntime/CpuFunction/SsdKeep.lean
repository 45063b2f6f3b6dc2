import CviRuntime.CpuFunction.SsdSelect
import CviRuntime.Lib.StablePlacement

/-!
# The detections the SSD layer keeps

The suppression of a class sees only the boxes of its candidates, which both paths have decoded, so
both keep the same detections of an image and the same best `keep_top_k` of them. The plain path
keeps them in a map by label; the other keeps one list, with a counter for each label.
-/

namespace CviRuntime.CpuFunction

open Std (ExtTreeMap)
open Binary32 (Bits)
open KeyedMap (Below below_empty flatMap_toList foldl_toList holds_empty push)
open StablePlacement (filter_flatMap_range)

variable {α σ : Type*} [Field α] [LinearOrder α]

/-! ## The loops of a class -/

section

variable {bboxes bboxes' : Nat → BBoxL α} {t eta : α}

theorem keepLoop_congr {b1 : BBoxL α} (indices : List (σ × Nat))
    (same : ∀ kept ∈ indices, bboxes kept.2 = bboxes' kept.2) (keep : Bool) :
    keepLoop bboxes t b1 indices keep = keepLoop bboxes' t b1 indices keep := by
  induction indices generalizing keep with
  | nil => rfl
  | cons kept rest ih =>
    obtain ⟨first, later⟩ := List.forall_mem_cons.mp same
    rw [keepLoop, keepLoop, first, ih later]

/-- The loop sees the boxes of its candidates and of those it has kept. -/
theorem applyLoop_congr (t eta : α) (pairs : List (σ × Nat)) {indices : List (σ × Nat)}
    (same : ∀ pair ∈ pairs, bboxes pair.2 = bboxes' pair.2)
    (sameKept : ∀ kept ∈ indices, bboxes kept.2 = bboxes' kept.2) :
    applyLoop bboxes eta pairs t indices = applyLoop bboxes' eta pairs t indices := by
  induction pairs generalizing t indices with
  | nil => rfl
  | cons pair rest ih =>
    obtain ⟨first, later⟩ := List.forall_mem_cons.mp same
    rw [applyLoop, applyLoop, first, keepLoop_congr indices sameKept]
    apply ih _ later
    intro kept member
    split at member
    · obtain before | here := List.mem_append.mp member
      · exact sameKept kept before
      · rw [List.mem_singleton.mp here, first]
    · exact sameKept kept member

theorem applyLoop_subset {pairs indices : List (σ × Nat)} {s : σ × Nat}
    (member : s ∈ applyLoop bboxes eta pairs t indices) : s ∈ indices ∨ s ∈ pairs := by
  induction pairs generalizing t indices with
  | nil => exact Or.inl member
  | cons pair rest ih =>
    rw [applyLoop] at member
    obtain before | later := ih member
    · split at before
      · obtain before | here := List.mem_append.mp before
        · exact Or.inl before
        · exact Or.inr (List.mem_cons.mpr (Or.inl (List.mem_singleton.mp here)))
      · exact Or.inl before
    · exact Or.inr (List.mem_cons_of_mem pair later)

/-- `ApplyNMSFast` puts behind the detections of the labels before it what `ApplyNMSFast_opt` puts
    in a list of its own. -/
theorem applyFastLoop_eq (bboxes : Nat → BBoxL α) (t eta : α) (label : Nat)
    (pointer : Option Int) (pairs : List Detected) (confScore kept : List Scored) :
    applyFastLoop bboxes eta label pointer pairs.length confScore t
        (pairs ++ kept.map fun s => (s.1, label, s.2, pointer)) kept.length =
      (pairs ++ (applyLoop bboxes eta confScore t kept).map fun s => (s.1, label, s.2, pointer),
        (applyLoop bboxes eta confScore t kept).length) := by
  induction confScore generalizing t kept with
  | nil => rfl
  | cons pair rest ih =>
    have own : (((pairs ++ kept.map fun s => (s.1, label, s.2, pointer)).drop pairs.length).take
        kept.length).map (fun d : Detected => (d.1, d.2.2.1)) = kept := by
      rw [List.drop_left, List.take_of_length_le (Nat.le_of_eq (List.length_map _)), List.map_map]
      exact List.map_id kept
    rw [applyFastLoop, applyLoop]
    simp only [own]
    cases keep : keepLoop bboxes t (bboxes pair.2) kept true with
    | true =>
      have next := ih (if true = true ∧ eta < 1 ∧ t > half then t * eta else t) (kept ++ [pair])
      rw [List.length_append, List.length_singleton, List.map_append, ← List.append_assoc] at next
      exact next
    | false => exact ih _ kept

end

/-! ## What is kept of an image -/

/-- A detection, without what the paths keep beside it: score, label and prior. -/
abbrev Survivor := Bits × Nat × Nat

def Survivor.label (d : Survivor) : Nat := d.2.1

section

variable (p : Ssd α)

/-- What the suppression keeps of a class. -/
def Ssd.keptOf (i c : Nat) : List Scored :=
  if (c : Int) = p.backgroundLabelId then []
  else applyLoop (p.decode i (p.locLabel c)) p.eta (p.candidates i c) p.nmsThreshold []

/-- The detections of an image, class after class. -/
def Ssd.detections (i : Nat) : List Survivor :=
  (List.range p.numClasses).flatMap fun c => (p.keptOf i c).map fun s => (s.1, c, s.2)

/-- The best `keep_top_k` of them. -/
def Ssd.best (i : Nat) : List Survivor :=
  if p.keepTopk > -1 ∧ ((p.detections i).length : Int) > p.keepTopk then
    (permuted (p.sorting.sort ((p.detections i).map Prod.fst)) (p.detections i)).take
      p.keepTopk.toNat
  else p.detections i

variable {p} {i c : Nat}

theorem mem_keptOf {s : Scored} (member : s ∈ p.keptOf i c) :
    (c : Int) ≠ p.backgroundLabelId ∧ s ∈ p.candidates i c := by
  rw [Ssd.keptOf] at member
  split at member
  · cases member
  · rename_i foreground
    obtain none | candidate := applyLoop_subset member
    · cases none
    · exact ⟨foreground, candidate⟩

theorem keptOf_eq_nil (empty : p.candidates i c = []) : p.keptOf i c = [] := by
  rw [Ssd.keptOf, empty]
  split <;> rfl

theorem keptOf_of_skipped
    (skipped : (c : Int) = p.backgroundLabelId ∨ p.scoresOf i c = []) : p.keptOf i c = [] := by
  obtain background | empty := skipped
  · exact if_pos background
  · exact keptOf_eq_nil (candidates_eq_nil p (List.map_eq_nil_iff.mp empty))

theorem mem_detections {d : Survivor} (member : d ∈ p.detections i) :
    d.label < p.numClasses ∧ (d.label : Int) ≠ p.backgroundLabelId ∧
      (d.1, d.2.2) ∈ p.candidates i d.label := by
  obtain ⟨c, inside, kept⟩ := List.mem_flatMap.mp member
  obtain ⟨s, found, rfl⟩ := List.mem_map.mp kept
  exact ⟨List.mem_range.mp inside, mem_keptOf found⟩

theorem mem_best {d : Survivor} (member : d ∈ p.best i) : d ∈ p.detections i := by
  rw [Ssd.best] at member
  split at member
  · have sorted := p.sorting.sort_perm ((p.detections i).map Prod.fst)
    rw [List.length_map] at sorted
    exact (permuted_perm sorted).mem_iff.mp (List.mem_of_mem_take member)
  · exact member

/-- The detections of a label. -/
theorem filter_detections (i c : Nat) : (p.detections i).filter (·.label = c) =
    (p.keptOf i c).map fun s => (s.1, c, s.2) := by
  have found := filter_flatMap_range Survivor.label
    (fun c => (p.keptOf i c).map fun s => (s.1, c, s.2)) (fun c d member => ?_) p.numClasses c
  · rw [Ssd.detections, found]
    by_cases inside : c < p.numClasses
    · rw [if_pos inside]
    · rw [if_neg inside, keptOf_eq_nil (candidates_eq_nil_of_le p (Nat.not_lt.mp inside)),
        List.map_nil]
  · obtain ⟨s, -, rfl⟩ := List.mem_map.mp member
    rfl

theorem countP_detections (i c : Nat) :
    (p.detections i).countP (·.label = c) = (p.keptOf i c).length := by
  rw [List.countP_eq_length_filter, filter_detections, List.length_map]

end

/-! ## The plain path -/

section

variable (p : Ssd α) (undecoded : Nat → BBoxL α) (i : Nat)

/-- A round of the suppression. -/
def suppressClass (st : ExtTreeMap Nat (List Scored) × Nat) (c : Nat) :
    ExtTreeMap Nat (List Scored) × Nat :=
  if (c : Int) = p.backgroundLabelId then st
  else match (sortedScores p i)[c]?, (decodeBBoxesAllOpt p undecoded i)[p.locLabel c]? with
    | some scores, some bboxes =>
      let kept := applyNMSFastOpt bboxes scores p.nmsThreshold p.eta p.topK (st.1[c]?.getD [])
      (st.1.insert c kept, st.2 + kept.length)
    | _, _ => st

theorem suppressed_eq : suppressed p undecoded i =
    (List.range p.numClasses).foldl (suppressClass p undecoded i) (∅, 0) := rfl

variable {p undecoded i}

theorem suppressClass_eq (shared : p.shareLocation = true → p.backgroundLabelId ≠ -1)
    (image : i < p.num) {c : Nat} (inside : c < p.numClasses)
    {st : ExtTreeMap Nat (List Scored) × Nat} (fresh : st.1[c]? = none) :
    suppressClass p undecoded i st c =
      (if (c : Int) = p.backgroundLabelId ∨ p.scoresOf i c = [] then st.1
        else st.1.insert c (p.keptOf i c), st.2 + (p.keptOf i c).length) := by
  rw [suppressClass, Ssd.keptOf]
  by_cases background : (c : Int) = p.backgroundLabelId
  · rw [if_pos background, if_pos (Or.inl background), if_pos background]
    rfl
  · rw [if_neg background, if_neg background, sortedScores_getElem?,
      decodeBBoxesAllOpt_foreground p undecoded shared i inside background, fresh]
    by_cases empty : p.scoresOf i c = []
    · rw [if_pos empty, if_pos (Or.inr empty),
        candidates_eq_nil p (List.map_eq_nil_iff.mp empty)]
      rfl
    · have boxes := applyLoop_congr p.nmsThreshold p.eta (p.candidates i c)
        (fun s member => plainBoxes_candidate p undecoded image inside background member)
        (List.forall_mem_nil _)
      have same := p.lengthOf_congr (p.sortTopK_perm (p.scoresOf i c)).length_eq
      rw [if_neg empty, if_neg (by simp [background, empty]), ← boxes, Ssd.candidates, ← same]
      rfl

variable (undecoded) in
theorem suppressClass_foldl (shared : p.shareLocation = true → p.backgroundLabelId ≠ -1)
    (image : i < p.num) {n : Nat} (inside : n ≤ p.numClasses) :
    let st := (List.range n).foldl (suppressClass p undecoded i) (∅, 0)
    Below st.1 n ∧ (∀ c < n, st.1[c]?.getD [] = p.keptOf i c) ∧
      st.2 = ((List.range n).flatMap fun c =>
        (p.keptOf i c).map fun s => (s.1, c, s.2)).length := by
  induction n with
  | zero => exact ⟨below_empty 0, fun c less => absurd less (Nat.not_lt_zero c), rfl⟩
  | succ n ih =>
    obtain ⟨below, kept, count⟩ := ih (Nat.le_of_succ_le inside)
    intro st
    have step : st = suppressClass p undecoded i
        ((List.range n).foldl (suppressClass p undecoded i) (∅, 0)) n := by
      simp only [st, List.range_succ, List.foldl_append, List.foldl_cons, List.foldl_nil]
    have next := Nat.le_succ n
    have fresh := below.getElem?_eq_none (Nat.le_refl n)
    rw [step, suppressClass_eq shared image inside fresh, count,
      List.range_succ, List.flatMap_append, List.flatMap_singleton, List.length_append,
      List.length_map]
    refine ⟨?_, fun c less => ?_, rfl⟩
    · split
      · exact below.mono next
      · exact (below.mono next).insert (Nat.lt_succ_self n) _
    · obtain earlier | same := Nat.lt_succ_iff_lt_or_eq.mp less
      · split
        · exact kept c earlier
        · rw [ExtTreeMap.getElem?_insert,
            if_neg (mt compare_eq_iff_eq.mp (Nat.ne_of_gt earlier)), kept c earlier]
      · subst same
        split
        · rename_i skipped
          rw [fresh, keptOf_of_skipped skipped]
          rfl
        · rw [ExtTreeMap.getElem?_insert_self]
          rfl

variable (undecoded) in
theorem suppressed_spec (shared : p.shareLocation = true → p.backgroundLabelId ≠ -1)
    (image : i < p.num) :
    Below (suppressed p undecoded i).1 p.numClasses ∧
      (∀ c, (suppressed p undecoded i).1[c]?.getD [] = p.keptOf i c) ∧
      (suppressed p undecoded i).2 = (p.detections i).length := by
  obtain ⟨below, kept, count⟩ :=
    suppressClass_foldl undecoded shared image (Nat.le_refl p.numClasses)
  rw [← suppressed_eq] at below kept count
  refine ⟨below, fun c => ?_, count⟩
  by_cases inside : c < p.numClasses
  · exact kept c inside
  · have high := Nat.not_lt.mp inside
    rw [below.getElem?_eq_none high, keptOf_eq_nil (candidates_eq_nil_of_le p high)]
    rfl

theorem scoreIndexPairs_eq {indices : ExtTreeMap Nat (List Scored)}
    (below : Below indices p.numClasses) (kept : ∀ c, indices[c]?.getD [] = p.keptOf i c) :
    scoreIndexPairs indices = p.detections i := by
  rw [scoreIndexPairs, flatMap_toList below, Ssd.detections]
  refine congrArg (List.flatMap · _) (funext fun c => ?_)
  rw [← kept c]
  cases indices[c]? <;> rfl

theorem length_best (cut : p.keepTopk > -1 ∧ ((p.detections i).length : Int) > p.keepTopk) :
    (p.best i).length = p.keepTopk.toNat := by
  have sorted := p.sorting.sort_perm ((p.detections i).map Prod.fst)
  rw [List.length_map] at sorted
  rw [Ssd.best, if_pos cut, List.length_take, (permuted_perm sorted).length_eq]
  omega

variable (undecoded) in
/-- `all_indices` holds the detections that are kept, by label. -/
theorem allIndices_spec (shared : p.shareLocation = true → p.backgroundLabelId ≠ -1)
    (image : i < p.num) :
    Below (allIndices p undecoded i).1 p.numClasses ∧
      (∀ c, (allIndices p undecoded i).1[c]?.getD [] =
        ((p.best i).filter (·.label = c)).map fun d => (d.1, d.2.2)) ∧
      (allIndices p undecoded i).2 = (p.best i).length := by
  obtain ⟨below, kept, count⟩ := suppressed_spec undecoded shared image
  rw [allIndices]
  generalize suppressed p undecoded i = st at below kept count
  obtain ⟨indices, numDet⟩ := st
  dsimp only at below kept count ⊢
  rw [scoreIndexPairs_eq below kept, count]
  by_cases cut : p.keepTopk > -1 ∧ ((p.detections i).length : Int) > p.keepTopk
  · have length := length_best cut
    have labels : ∀ d ∈ p.best i, d.label < p.numClasses :=
      fun d member => (mem_detections (mem_best member)).1
    rw [if_pos cut]
    rw [Ssd.best, if_pos cut] at length labels ⊢
    have pushed := holds_empty.foldl_push Survivor.label (fun d : Survivor => (d.1, d.2.2))
      ((permuted (p.sorting.sort ((p.detections i).map Prod.fst)) (p.detections i)).take
        p.keepTopk.toNat)
    refine ⟨pushed.below fun k high => ?_, fun c => pushed.getD c, length.symm⟩
    rw [List.nil_append, List.map_eq_nil_iff, List.filter_eq_nil_iff]
    intro d member same
    exact Nat.not_lt.mpr high (of_decide_eq_true same ▸ labels d member)
  · rw [if_neg cut, Ssd.best, if_neg cut]
    refine ⟨below, fun c => ?_, rfl⟩
    rw [kept c, filter_detections, List.map_map]
    exact (List.map_id _).symm

end

/-! ## The path with NEON -/

section

variable (p : Ssd α) (undecoded : Nat → BBoxL α) (i : Nat)

/-- A detection with the pointer to its boxes. -/
def Ssd.pointed (d : Survivor) : Detected := (d.1, d.label, d.2.2, some (p.locLabel d.label))

/-- The suppression of a label. -/
def detectLabel (st : List Detected × ExtTreeMap Nat (Nat × Nat))
    (entry : Nat × List Scored × Option Int) : List Detected × ExtTreeMap Nat (Nat × Nat) :=
  if checkBackground p entry.1 then st
  else
    let (pairs, detNum) := applyNMSFast
      (derefBoxes undecoded (getLocBBoxOpt p undecoded i).2 entry.2.2) entry.2.1
      p.nmsThreshold p.eta p.topK entry.1 entry.2.2 st.1
    (pairs, st.2.insert entry.1 (detNum, 0))

/-- A label that may have no entry. -/
def detectClass (st : List Detected × ExtTreeMap Nat (Nat × Nat)) (c : Nat) :
    List Detected × ExtTreeMap Nat (Nat × Nat) :=
  (getLocBBoxOpt p undecoded i).1[c]?.elim st fun entry => detectLabel p undecoded i st (c, entry)

variable {p i}

/-- What a label adds to the detections and to the counters. -/
theorem detectClass_eq (numbers : p.Numbers) (image : i < p.num) {c : Nat}
    (inside : c < p.numClasses) (st : List Detected × ExtTreeMap Nat (Nat × Nat)) :
    ∃ counters, detectClass p undecoded i st c =
      (st.1 ++ (p.keptOf i c).map (fun s => p.pointed (s.1, c, s.2)), counters) ∧
      (counters = st.2 ∧ p.keptOf i c = [] ∨
        counters = st.2.insert c ((p.keptOf i c).length, 0)) := by
  rw [detectClass]
  by_cases background : (c : Int) = p.backgroundLabelId
  · have none : p.keptOf i c = [] := if_pos background
    refine ⟨st.2, ?_, Or.inl ⟨rfl, none⟩⟩
    rw [none, List.map_nil, List.append_nil]
    obtain missing | passed := getLocBBoxOpt_background p undecoded numbers image background
    · rw [missing, Option.elim_none]
    · cases (getLocBBoxOpt p undecoded i).1[c]? with
      | none => rfl
      | some entry => rw [Option.elim_some, detectLabel, if_pos passed]
  · obtain ⟨without, withScores⟩ :=
      getLocBBoxOpt_foreground undecoded numbers image inside background
    by_cases empty : p.above i c = []
    · have none : p.keptOf i c = [] := keptOf_eq_nil (candidates_eq_nil p empty)
      refine ⟨st.2, ?_, Or.inl ⟨rfl, none⟩⟩
      rw [none, List.map_nil, List.append_nil, without empty, Option.elim_none]
    · obtain ⟨entry, boxes⟩ := withScores empty
      refine ⟨_, ?_, Or.inr rfl⟩
      have passes := checkBackground_of_foreground p background
      have seen := applyLoop_congr p.nmsThreshold p.eta (p.candidates i c)
        (fun s member => neonBoxes_candidate p undecoded numbers image background member)
        (List.forall_mem_nil _)
      have loop := applyFastLoop_eq (neonBoxes p undecoded i c) p.nmsThreshold p.eta c
        (some (p.locLabel c)) st.1 (p.candidates i c) []
      rw [List.map_nil, List.append_nil, List.length_nil, seen] at loop
      have deref := derefBoxes_foreground p undecoded numbers image inside background empty
      have fast : applyNMSFast (neonBoxes p undecoded i c) (collectLabel p c (p.above i c)).1
          p.nmsThreshold p.eta p.topK c (some (p.locLabel c)) st.1 =
            (st.1 ++ (p.keptOf i c).map (fun s => p.pointed (s.1, c, s.2)),
              (p.keptOf i c).length) := by
        rw [Ssd.keptOf, if_neg background]
        rw [← collectLabel_take p passes i] at loop ⊢
        exact loop
      rw [entry, Option.elim_some, detectLabel, if_neg (Bool.eq_false_iff.mp passes)]
      simp only [deref, fast]

theorem detectClass_foldl (numbers : p.Numbers) (image : i < p.num) {n : Nat}
    (inside : n ≤ p.numClasses) :
    let st := (List.range n).foldl (detectClass p undecoded i) ([], ∅)
    st.1 = ((List.range n).flatMap fun c =>
        (p.keptOf i c).map fun s => (s.1, c, s.2)).map p.pointed ∧
      Below st.2 n ∧ ∀ c < n, st.2[c]?.getD (0, 0) = ((p.keptOf i c).length, 0) := by
  induction n with
  | zero => exact ⟨rfl, below_empty 0, fun c less => absurd less (Nat.not_lt_zero c)⟩
  | succ n ih =>
    obtain ⟨pairs, below, counts⟩ := ih (Nat.le_of_succ_le inside)
    intro st
    obtain ⟨counters, step, changed⟩ := detectClass_eq undecoded numbers image inside
      ((List.range n).foldl (detectClass p undecoded i) ([], ∅))
    have whole : st = detectClass p undecoded i
        ((List.range n).foldl (detectClass p undecoded i) ([], ∅)) n := by
      simp only [st, List.range_succ, List.foldl_append, List.foldl_cons, List.foldl_nil]
    have fresh := below.getElem?_eq_none (Nat.le_refl n)
    have next := Nat.le_succ n
    rw [whole, step, pairs, List.range_succ, List.flatMap_append, List.flatMap_singleton,
      List.map_append, List.map_map]
    obtain ⟨rfl, none⟩ | rfl := changed
    · refine ⟨rfl, below.mono next, fun c less => ?_⟩
      obtain earlier | rfl := Nat.lt_succ_iff_lt_or_eq.mp less
      · exact counts c earlier
      · rw [fresh, none]
        rfl
    · refine ⟨rfl, (below.mono next).insert (Nat.lt_succ_self n) _, fun c less => ?_⟩
      obtain earlier | rfl := Nat.lt_succ_iff_lt_or_eq.mp less
      · rw [ExtTreeMap.getElem?_insert, if_neg (mt compare_eq_iff_eq.mp (Nat.ne_of_gt earlier))]
        exact counts c earlier
      · rw [ExtTreeMap.getElem?_insert_self]
        rfl

theorem detect_eq (numbers : p.Numbers) (image : i < p.num) : detect p undecoded i =
    (List.range p.numClasses).foldl (detectClass p undecoded i) ([], ∅) :=
  foldl_toList (getLocBBoxOpt_below p undecoded numbers image) (detectLabel p undecoded i) ([], ∅)

/-- The detections of an image in one list, and their number by label. -/
theorem detect_spec (numbers : p.Numbers) (image : i < p.num) :
    (detect p undecoded i).1 = (p.detections i).map p.pointed ∧
      Below (detect p undecoded i).2 p.numClasses ∧
      ∀ c, (detect p undecoded i).2[c]?.getD (0, 0) =
        ((p.detections i).countP (·.label = c), 0) := by
  obtain ⟨pairs, below, counts⟩ :=
    detectClass_foldl undecoded numbers image (Nat.le_refl p.numClasses)
  rw [detect_eq undecoded numbers image]
  refine ⟨pairs, below, fun c => ?_⟩
  rw [countP_detections]
  by_cases inside : c < p.numClasses
  · exact counts c inside
  · have high := Nat.not_lt.mp inside
    rw [below.getElem?_eq_none high, keptOf_eq_nil (candidates_eq_nil_of_le p high)]
    rfl

omit [Field α] [LinearOrder α] in
theorem countLabel_foldl (ds : List Survivor) {counters : ExtTreeMap Nat (Nat × Nat)} {n : Nat}
    (below : Below counters n) (labels : ∀ d ∈ ds, d.label < n) (counts : Nat → Nat)
    (held : ∀ c, counters[c]?.getD (0, 0) = (counts c, 0)) :
    Below ((ds.map p.pointed).foldl countLabel counters) n ∧
      ∀ c, ((ds.map p.pointed).foldl countLabel counters)[c]?.getD (0, 0) =
        (counts c + ds.countP (·.label = c), 0) := by
  induction ds generalizing counters counts with
  | nil => exact ⟨below, held⟩
  | cons d ds ih =>
    obtain ⟨inside, others⟩ := List.forall_mem_cons.mp labels
    have step (c : Nat) : (countLabel counters (p.pointed d))[c]?.getD (0, 0) =
        (counts c + if d.label = c then 1 else 0, 0) := by
      have entry : (countLabel counters (p.pointed d))[c]? =
          if d.label = c then some ((counters[d.label]?.getD (0, 0)).1 + 1,
            (counters[d.label]?.getD (0, 0)).2) else counters[c]? := by
        rw [countLabel, ExtTreeMap.getElem?_alter]
        simp only [compare_eq_iff_eq]
        rfl
      rw [entry]
      by_cases same : d.label = c
      · rw [if_pos same, if_pos same, held, ← same]
        rfl
      · rw [if_neg same, if_neg same, held, Nat.add_zero]
    obtain ⟨inside', counted⟩ := ih (below.alter inside _) others _ step
    rw [List.map_cons, List.foldl_cons]
    refine ⟨inside', fun c => ?_⟩
    rw [List.countP_cons]
    simp only [decide_eq_true_eq]
    rw [Nat.add_comm (ds.countP _), ← Nat.add_assoc]
    exact counted c

/-- The detections of an image that are kept, and their number by label. -/
theorem keepBest_spec (numbers : p.Numbers) (image : i < p.num) :
    (keepBest p (detect p undecoded i)).1 = (p.best i).map p.pointed ∧
      Below (keepBest p (detect p undecoded i)).2 p.numClasses ∧
      ∀ c, (keepBest p (detect p undecoded i)).2[c]?.getD (0, 0) =
        ((p.best i).countP (·.label = c), 0) := by
  obtain ⟨pairs, below, counts⟩ := detect_spec undecoded numbers image
  have labels : ∀ d ∈ p.best i, d.label < p.numClasses :=
    fun d member => (mem_detections (mem_best member)).1
  have scores : ((p.detections i).map p.pointed).map Prod.fst = (p.detections i).map Prod.fst :=
    List.map_map
  rw [keepBest, pairs, List.length_map, scores]
  by_cases cut : p.keepTopk > -1 ∧ ((p.detections i).length : Int) > p.keepTopk
  · rw [if_pos cut]
    rw [Ssd.best, if_pos cut] at labels ⊢
    rw [permuted_map, ← List.map_take]
    have emptied : Below ((detect p undecoded i).2.map fun _ entry => (0, entry.2))
        p.numClasses := by
      intro c entry found
      rw [ExtTreeMap.getElem?_map] at found
      obtain ⟨entry', found', -⟩ := Option.map_eq_some_iff.mp found
      exact below c entry' found'
    have zero (c : Nat) :
        ((detect p undecoded i).2.map fun _ entry => (0, entry.2))[c]?.getD (0, 0) = (0, 0) := by
      have used := counts c
      rw [ExtTreeMap.getElem?_map]
      cases found : (detect p undecoded i).2[c]? with
      | none => rfl
      | some entry =>
        rw [found, Option.getD_some] at used
        rw [Option.map_some, Option.getD_some, used]
    obtain ⟨inside, counted⟩ := countLabel_foldl (p := p) _ emptied labels (fun _ => 0) zero
    refine ⟨rfl, inside, fun c => ?_⟩
    rw [counted, Nat.zero_add]
  · rw [if_neg cut, Ssd.best, if_neg cut]
    exact ⟨pairs, below, counts⟩

end

end CviRuntime.CpuFunction
