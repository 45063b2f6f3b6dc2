import CviRuntime.CpuFunction.SsdKeep
import Mathlib.Algebra.Order.Field.Rat

/-!
# The two paths of the SSD layer

The plain path writes the rows of an image one after the other, label by label; the other puts each
detection into the row that the counters of the labels give. In both the rows of an image come out
by label, and behind the last row stands -1.
-/

namespace CviRuntime.CpuFunction

open Std (ExtTreeMap)
open Binary32 (gt isNaN)
open KeyedMap (Below foldl_toList)
open StablePlacement (before grouped length_grouped_of_keys placeAll_eq placeStep writeFrom
  writeFrom_append writeFrom_cons writeFrom_inside writeFrom_nil writeFrom_past)

variable {α : Type*}

/-! ## Rows -/

/-- The output, as rows of seven values. -/
def cellsOf (rows : Nat → List (Cell α)) (k : Nat) : Cell α :=
  ((rows (k / 7))[k % 7]?).getD (.int 0)

theorem exists_rows (topData : Nat → Cell α) : ∃ rows, topData = cellsOf rows := by
  refine ⟨fun n => (List.range 7).map fun c => topData (7 * n + c), funext fun k => ?_⟩
  rw [cellsOf, List.getElem?_map, List.getElem?_range (Nat.mod_lt k (by decide)), Option.map_some,
    Option.getD_some, Nat.div_add_mod]

theorem writeCells_cellsOf (rows : Nat → List (Cell α)) (n : Nat) {cells : List (Cell α)}
    (width : cells.length = 7) :
    writeCells (cellsOf rows) (n * 7) cells = cellsOf (Function.update rows n cells) := by
  funext k
  rw [writeCells]
  by_cases row : k / 7 = n
  · have inside : k - n * 7 < cells.length := by omega
    have column : k % 7 = k - n * 7 := by omega
    rw [if_pos (by omega), cellsOf, cellsOf, row, Function.update_self, column,
      List.getElem?_eq_getElem inside]
    rfl
  · rw [cellsOf, cellsOf, Function.update_of_ne row]
    split
    · rw [List.getElem?_eq_none (by omega)]
      rfl
    · rfl

/-- Rounds that each write some rows, from the row on where the round before has stopped. -/
theorem writeRows_foldl (round : (Nat → Cell α) × Nat → Nat → (Nat → Cell α) × Nat)
    {pieces : Nat → List (List (Cell α))} {n : Nat}
    (step : ∀ k < n, ∀ rows shift, round (cellsOf rows, shift) k =
      (cellsOf (writeFrom rows shift (pieces k)), shift + (pieces k).length))
    (rows : Nat → List (Cell α)) (shift : Nat) :
    (List.range n).foldl round (cellsOf rows, shift) =
      (cellsOf (writeFrom rows shift ((List.range n).flatMap pieces)),
        shift + ((List.range n).flatMap pieces).length) := by
  induction n with
  | zero =>
    rw [List.range_zero, List.foldl_nil, List.flatMap_nil, writeFrom_nil]
    rfl
  | succ n ih =>
    rw [List.range_succ, List.foldl_append, ih fun k less => step k (Nat.lt_succ_of_lt less),
      List.foldl_cons, List.foldl_nil, step n (Nat.lt_succ_self n), List.flatMap_append,
      List.flatMap_singleton, writeFrom_append, List.length_append, Nat.add_assoc]

/-- One row after the other. -/
theorem writeRows_list {ρ : Type*} (rowOf : ρ → List (Cell α)) (xs : List ρ)
    (width : ∀ x ∈ xs, (rowOf x).length = 7) (rows : Nat → List (Cell α)) (shift : Nat) :
    xs.foldl (fun st x => (writeCells st.1 (st.2 * 7) (rowOf x), st.2 + 1)) (cellsOf rows, shift) =
      (cellsOf (writeFrom rows shift (xs.map rowOf)), shift + xs.length) := by
  induction xs generalizing rows shift with
  | nil => rw [List.map_nil, writeFrom_nil]; rfl
  | cons x xs ih =>
    obtain ⟨first, others⟩ := List.forall_mem_cons.mp width
    rw [List.foldl_cons, writeCells_cellsOf _ _ first, ih others, List.map_cons, writeFrom_cons,
      List.length_cons, Nat.add_assoc, Nat.add_comm 1]

variable [Field α] [LinearOrder α]

section

variable (p : Ssd α) (i : Nat)

/-- The row of a detection. -/
def Ssd.rowOf (d : Survivor) : List (Cell α) :=
  rowCells i d.label d.1 (p.decode i (p.locLabel d.label) d.2.2)

/-- The rows of an image, label after label. -/
def Ssd.rowsOf : List (List (Cell α)) :=
  (grouped p.numClasses Survivor.label (p.best i)).map (p.rowOf i)

end

variable {p : Ssd α} {i : Nat}

theorem length_rowsOf : (p.rowsOf i).length = (p.best i).length := by
  rw [Ssd.rowsOf, List.length_map]
  exact length_grouped_of_keys fun d member => (mem_detections (mem_best member)).1

/-! ## The plain path -/

/-- The rows of an image, from row `count` on. -/
theorem writeImage_eq (shared : p.shareLocation = true → p.backgroundLabelId ≠ -1)
    (undecoded : Nat → BBoxL α) (image : i < p.num) (rows : Nat → List (Cell α)) (shift : Nat) :
    writeImage p undecoded (cellsOf rows, shift) i =
      (cellsOf (writeFrom rows shift (p.rowsOf i)), shift + (p.rowsOf i).length) := by
  obtain ⟨below, held, -⟩ := allIndices_spec undecoded shared image
  have whole : p.rowsOf i = (List.range p.numClasses).flatMap fun c =>
      ((p.best i).filter (·.label = c)).map (p.rowOf i) := List.map_flatMap
  rw [writeImage, foldl_toList below, whole]
  refine writeRows_foldl _ (fun c inside rows shift => ?_) rows shift
  have kept := held c
  have written := writeRows_list (p.rowOf i) ((p.best i).filter (·.label = c)) (fun _ _ => rfl)
    rows shift
  rw [List.length_map, ← written]
  cases entry : (allIndices p undecoded i).1[c]? with
  | none =>
    rw [entry, Option.getD_none, eq_comm, List.map_eq_nil_iff] at kept
    rw [Option.elim_none, kept, List.foldl_nil]
  | some indices =>
    rw [entry, Option.getD_some] at kept
    rw [Option.elim_some, kept]
    dsimp only
    by_cases background : (c : Int) = p.backgroundLabelId
    · have none : (p.best i).filter (·.label = c) = [] := by
        rw [List.filter_eq_nil_iff]
        intro d member same
        have other := (mem_detections (mem_best member)).2.1
        rw [of_decide_eq_true same] at other
        exact other background
      rw [none, List.map_nil, List.foldl_nil]
      split <;> rfl
    · rw [decodeBBoxesAllOpt_foreground p undecoded shared i inside background]
      simp only [List.foldl_map]
      refine List.foldl_ext _ _ _ fun st d member => ?_
      obtain ⟨among, same⟩ := List.mem_filter.mp member
      obtain rfl : d.label = c := of_decide_eq_true same
      have candidate := (mem_detections (mem_best among)).2.2
      rw [plainBoxes_candidate p undecoded image inside background candidate, Ssd.rowOf]

/-! ## The path with NEON -/

/-- A round of the loop over the counters, for a label that may have none. -/
def distanceLabel (counters : ExtTreeMap Nat (Nat × Nat)) (st : ExtTreeMap Nat (Nat × Nat) × Nat)
    (c : Nat) : ExtTreeMap Nat (Nat × Nat) × Nat :=
  counters[c]?.elim st fun entry => (st.1.insert c (st.2, entry.2), st.2 + entry.1)

theorem distanceLabel_foldl {counters : ExtTreeMap Nat (Nat × Nat)} {counts : Nat → Nat}
    (held : ∀ c, counters[c]?.getD (0, 0) = (counts c, 0)) (n : Nat) :
    let st := (List.range n).foldl (distanceLabel counters) (counters, 0)
    st.2 = ((List.range n).map counts).sum ∧
      ∀ c < n, 0 < counts c → st.1[c]?.getD (0, 0) = (((List.range c).map counts).sum, 0) := by
  induction n with
  | zero => exact ⟨rfl, fun c less => absurd less (Nat.not_lt_zero c)⟩
  | succ n ih =>
    obtain ⟨sum, placed⟩ := ih
    intro st
    have step : st = distanceLabel counters
        ((List.range n).foldl (distanceLabel counters) (counters, 0)) n := by
      simp only [st, List.range_succ, List.foldl_append, List.foldl_cons, List.foldl_nil]
    have own := held n
    rw [step, distanceLabel, List.sum_range_succ]
    cases entry : counters[n]? with
    | none =>
      rw [entry, Option.getD_none] at own
      have zero : counts n = 0 := (Prod.mk.inj own).1.symm
      refine ⟨by rw [Option.elim_none, sum, zero, Nat.add_zero], fun c less positive => ?_⟩
      obtain earlier | rfl := Nat.lt_succ_iff_lt_or_eq.mp less
      · exact placed c earlier positive
      · exact absurd zero (Nat.ne_of_gt positive)
    | some pair =>
      rw [entry, Option.getD_some] at own
      rw [Option.elim_some, own, sum]
      refine ⟨rfl, fun c less positive => ?_⟩
      obtain earlier | rfl := Nat.lt_succ_iff_lt_or_eq.mp less
      · rw [ExtTreeMap.getElem?_insert, if_neg (mt compare_eq_iff_eq.mp (Nat.ne_of_gt earlier))]
        exact placed c earlier positive
      · rw [ExtTreeMap.getElem?_insert_self]
        rfl

/-- The counters become the number of rows of the labels before. -/
theorem labelDistances_getD {counters : ExtTreeMap Nat (Nat × Nat)} {n : Nat}
    (below : Below counters n) {counts : Nat → Nat}
    (held : ∀ c, counters[c]?.getD (0, 0) = (counts c, 0)) {c : Nat} (inside : c < n)
    (positive : 0 < counts c) :
    (labelDistances counters)[c]?.getD (0, 0) = (((List.range c).map counts).sum, 0) := by
  have loop := foldl_toList below (fun st entry =>
    (st.1.insert entry.1 (st.2, entry.2.2), st.2 + entry.2.1)) (counters, 0)
  rw [labelDistances, loop]
  exact (distanceLabel_foldl held n).2 c inside positive

omit [Field α] [LinearOrder α] in
/-- The rows that the detections are put into are the places of their labels. -/
theorem writeDetected_foldl {undecoded : Nat → BBoxL α}
    {decodeBboxes : ExtTreeMap Int (Nat → BBoxL α)} {counters : ExtTreeMap Nat (Nat × Nat)}
    (shift : Nat) (dist used : Nat → Nat) (ds : List Survivor) (rows : Nat → List (Cell α))
    (held : ∀ d ∈ ds, counters[d.label]?.getD (0, 0) = (dist d.label, used d.label))
    (boxes : ∀ d ∈ ds, derefBoxes undecoded decodeBboxes (some (p.locLabel d.label)) d.2.2 =
      p.decode i (p.locLabel d.label) d.2.2) :
    ((ds.map p.pointed).foldl (writeDetected undecoded decodeBboxes i shift)
        (cellsOf rows, counters)).1 =
      cellsOf (ds.foldl (placeStep Survivor.label (p.rowOf i) fun c => shift + dist c)
        (rows, used)).1 := by
  induction ds generalizing rows counters used with
  | nil => rfl
  | cons d ds ih =>
    obtain ⟨entry, others⟩ := List.forall_mem_cons.mp held
    obtain ⟨box, boxes⟩ := List.forall_mem_cons.mp boxes
    have step : writeDetected undecoded decodeBboxes i shift (cellsOf rows, counters)
        (p.pointed d) =
          (cellsOf (Function.update rows (shift + dist d.label + used d.label) (p.rowOf i d)),
            counters.insert d.label (dist d.label, used d.label + 1)) := by
      have place : dist d.label + used d.label + shift =
          shift + dist d.label + used d.label := by omega
      have width : (p.rowOf i d).length = 7 := rfl
      rw [← writeCells_cellsOf _ _ width, ← place, Ssd.rowOf, ← box]
      change (writeCells _ (((counters[d.label]?.getD (0, 0)).1 +
        (counters[d.label]?.getD (0, 0)).2 + shift) * 7) _, counters.insert d.label
          ((counters[d.label]?.getD (0, 0)).1, (counters[d.label]?.getD (0, 0)).2 + 1)) = _
      rw [entry]
      rfl
    rw [List.map_cons, List.foldl_cons, step, List.foldl_cons]
    refine ih _ _ (fun d' member => ?_) boxes
    rw [ExtTreeMap.getElem?_insert]
    by_cases same : d.label = d'.label
    · rw [if_pos (compare_eq_iff_eq.mpr same), ← same, Function.update_self]
      rfl
    · rw [if_neg (mt compare_eq_iff_eq.mp same), Function.update_of_ne (Ne.symm same)]
      exact others d' member

/-- The rows of an image, from row `num_shift` on. -/
theorem neonImage_eq (numbers : p.Numbers) (undecoded : Nat → BBoxL α) (image : i < p.num)
    (rows : Nat → List (Cell α)) (shift : Nat) :
    neonImage p undecoded (cellsOf rows, shift) i =
      (cellsOf (writeFrom rows shift (p.rowsOf i)), shift + (p.rowsOf i).length) := by
  obtain ⟨pairs, below, counts⟩ := keepBest_spec undecoded numbers image
  have labels : ∀ d ∈ p.best i, d.label < p.numClasses :=
    fun d member => (mem_detections (mem_best member)).1
  have placed : ∀ d ∈ p.best i,
      (labelDistances (keepBest p (detect p undecoded i)).2)[d.label]?.getD (0, 0) =
        (before Survivor.label (p.best i) d.label, 0) := by
    intro d member
    have counted : 0 < (p.best i).countP (·.label = d.label) :=
      List.countP_pos_iff.mpr ⟨d, member, decide_eq_true rfl⟩
    exact labelDistances_getD below counts (labels d member) counted
  have boxes : ∀ d ∈ p.best i, derefBoxes undecoded (getLocBBoxOpt p undecoded i).2
      (some (p.locLabel d.label)) d.2.2 = p.decode i (p.locLabel d.label) d.2.2 := by
    intro d member
    obtain ⟨inside, foreground, candidate⟩ := mem_detections (mem_best member)
    rw [derefBoxes_foreground p undecoded numbers image inside foreground
      (above_of_candidate p candidate)]
    exact neonBoxes_candidate p undecoded numbers image foreground candidate
  have written := writeDetected_foldl (i := i) shift (before Survivor.label (p.best i))
    (fun _ => 0) (p.best i) rows placed boxes
  rw [neonImage, length_rowsOf]
  generalize keepBest p (detect p undecoded i) = kept at pairs written
  obtain ⟨ds, counters⟩ := kept
  obtain rfl : ds = (p.best i).map p.pointed := pairs
  dsimp only at written ⊢
  rw [written, List.length_map, Ssd.rowsOf, ← placeAll_eq shift labels]
  rfl

/-! ## The output -/

/-- The rows of the whole batch. -/
def Ssd.allRows (p : Ssd α) : List (List (Cell α)) := (List.range p.num).flatMap p.rowsOf

theorem neonRun_rows (numbers : p.Numbers) (undecoded : Nat → BBoxL α)
    (rows : Nat → List (Cell α)) (k : Nat) :
    neonRun p undecoded (cellsOf rows) k =
      if p.allRows.length * 7 ≤ k ∧ k < p.outputSize then .int (-1)
      else cellsOf (writeFrom rows 0 p.allRows) k := by
  have images := writeRows_foldl (neonImage p undecoded)
    (fun i image rows shift => neonImage_eq numbers undecoded image rows shift) rows 0
  rw [neonRun, images, Nat.zero_add]
  rfl

/-- A detection that survives the suppression of its image is kept, or another in its place. -/
theorem best_pos (keep : 0 < p.keepTopk) (survives : 0 < (p.detections i).length) :
    0 < (p.best i).length := by
  by_cases cut : p.keepTopk > -1 ∧ ((p.detections i).length : Int) > p.keepTopk
  · rw [length_best cut]
    omega
  · rwa [Ssd.best, if_neg cut]

theorem numKept_ne_zero (shared : p.shareLocation = true → p.backgroundLabelId ≠ -1)
    (keep : 0 < p.keepTopk) {undecoded : Nat → BBoxL α} (image : i < p.num)
    (survives : 0 < (suppressed p undecoded i).2) : numKept p undecoded ≠ 0 := by
  rw [(suppressed_spec undecoded shared image).2.2] at survives
  have kept := best_pos keep survives
  rw [← (allIndices_spec undecoded shared image).2.2] at kept
  refine Nat.ne_of_gt (List.sum_pos_iff_exists_pos_nat.mpr ⟨_, ?_, kept⟩)
  exact List.mem_map_of_mem (List.mem_range.mpr image)

theorem ssdRun_rows (shared : p.shareLocation = true → p.backgroundLabelId ≠ -1)
    {undecoded : Nat → BBoxL α} (kept : numKept p undecoded ≠ 0) {rows : Nat → List (Cell α)}
    (initial : (fun k => if k < p.outputSize then .int (-1) else .int 0) = cellsOf rows) :
    ssdRun p undecoded = cellsOf (writeFrom rows 0 p.allRows) := by
  have images := writeRows_foldl (writeImage p undecoded)
    (fun i image rows shift => writeImage_eq shared undecoded image rows shift) rows 0
  rw [ssdRun, if_neg kept, initial, images]
  rfl

/-- The path with NEON writes the values that the plain one writes, whatever the output and the
    boxes that are not decoded hold before. -/
theorem neonRun_eq_ssdRun (p : Ssd α) (positive : gt p.objThreshold 0 = true)
    (scores : ∀ i < p.num, ∀ j < p.allClasses, isNaN (p.confData (p.confBase i + j)) = false)
    (shared : p.shareLocation = true → p.backgroundLabelId ≠ -1) (keep : 0 ≤ p.keepTopk)
    (undecoded undecoded' : Nat → BBoxL α) (topData : Nat → Cell α)
    (survives : ∃ i < p.num, 0 < (suppressed p undecoded i).2) :
    ∀ k < p.outputSize, neonRun p undecoded' topData k = ssdRun p undecoded k := by
  intro k inside
  have keepSome : 0 < p.keepTopk := by
    refine lt_of_le_of_ne keep fun zero => ?_
    rw [Ssd.outputSize, ← zero] at inside
    exact Nat.not_lt_zero k inside
  obtain ⟨i, image, survives⟩ := survives
  have kept := numKept_ne_zero shared keepSome image survives
  obtain ⟨rows, initial⟩ := exists_rows (α := α)
    fun k => if k < p.outputSize then .int (-1) else .int 0
  obtain ⟨rows', rfl⟩ := exists_rows topData
  rw [ssdRun_rows shared kept initial, neonRun_rows ⟨positive, scores⟩]
  by_cases past : p.allRows.length * 7 ≤ k
  · have after : 0 + p.allRows.length ≤ k / 7 := by omega
    rw [if_pos ⟨past, inside⟩, cellsOf, writeFrom_past after]
    exact (if_pos inside).symm.trans (congrFun initial k)
  · have within : k / 7 < 0 + p.allRows.length := by omega
    rw [if_neg fun both => past both.1, cellsOf, cellsOf,
      writeFrom_inside rows' rows (Nat.zero_le _) within]

/-- A sort by score that keeps the order of equal scores. -/
def scoreSort : Sorting where
  sort scores := (List.range scores.length).insertionSort fun a b =>
    Binary32.value (scores.getD b 0) ≤ Binary32.value (scores.getD a 0)
  partialSort _ scores := (List.range scores.length).insertionSort fun a b =>
    Binary32.value (scores.getD b 0) ≤ Binary32.value (scores.getD a 0)
  sort_perm _ := List.perm_insertionSort _ _
  partialSort_perm _ _ := List.perm_insertionSort _ _

/-- Two priors and the scores 0.9, 0.5, 0.1 and 0.75 by prior and class; with shared locations a
    prior has one box and class 0 is the background. -/
def twoPriors (shareLocation : Bool) : Ssd ℚ where
  num := 1
  numPriors := 2
  numClasses := 2
  confData j := [0x3F666666, 0x3F000000, 0x3DCCCCCD, 0x3F400000].getD j 0
  decode _ c k := { xmin := 4 * k + c, ymin := 0, xmax := 4 * k + c + 2, ymax := 2, size := 4 }
  objThreshold := 0x3E800000
  shareLocation := shareLocation
  backgroundLabelId := 0
  topK := 2
  keepTopk := 2
  nmsThreshold := 1 / 2
  eta := 1
  sorting := scoreSort

theorem neonRun_eq_ssdRun_twoPriors :
    (10 < (twoPriors true).outputSize ∧
      neonRun (twoPriors true) (fun _ => ⟨9, 9, 9, 9, 9⟩) (fun _ => .int 8) 10 =
        ssdRun (twoPriors true) (fun _ => ⟨0, 0, 0, 0, 0⟩) 10) ∧
    10 < (twoPriors false).outputSize ∧
      neonRun (twoPriors false) (fun _ => ⟨9, 9, 9, 9, 9⟩) (fun _ => .int 8) 10 =
        ssdRun (twoPriors false) (fun _ => ⟨0, 0, 0, 0, 0⟩) 10 := by
  refine ⟨⟨by decide, ?_⟩, by decide, ?_⟩
  · exact neonRun_eq_ssdRun (twoPriors true) (by decide) (by decide) (by decide) (by decide) _ _ _
      ⟨0, by decide, by decide +kernel⟩ 10 (by decide)
  · exact neonRun_eq_ssdRun (twoPriors false) (by decide) (by decide) (by decide) (by decide) _ _ _
      ⟨0, by decide, by decide +kernel⟩ 10 (by decide)

end CviRuntime.CpuFunction
