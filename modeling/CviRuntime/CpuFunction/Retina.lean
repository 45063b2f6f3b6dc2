import CviRuntime.Lib.Greedy
import Mathlib.Algebra.Order.Field.Basic
import Mathlib.Algebra.Order.Ring.Rat
import Mathlib.Tactic.Linarith

/-!
# Non-maximum suppression of the RetinaFace layer (`retinaface_detection.hpp`)

`nms` keeps the best face that is not masked and masks those behind it that overlap it. The cursor
`selected` has moved on when the intersections are formed, so that they are those of the next
face: `nmsLoop_eq` says what is computed, `retinaNms_iff` when it is the greedy choice all the same.
-/

namespace CviRuntime.CpuFunction

open CviRuntime.Greedy

/-- `FaceInfo` (`retinaface_detection.hpp:34-39`). -/
structure FaceInfo (α : Type*) where
  x1 : α
  y1 : α
  x2 : α
  y2 : α
  score : α
  x : Vector α 5
  y : Vector α 5
  deriving DecidableEq, Repr

/-- `std::sort` by descending score; what it does with equal scores is left open. -/
structure FaceSort (α : Type*) [LinearOrder α] where
  sort : List (FaceInfo α) → List (FaceInfo α)
  perm : ∀ infos, (sort infos).Perm infos
  descending : ∀ infos, (sort infos).Pairwise fun a b => b.score ≤ a.score

variable {α : Type*} [Field α] [LinearOrder α]

/-- `area1` and `area2` (`retinaface_detection.hpp:234-236,243-245`). -/
def FaceInfo.area (a : FaceInfo α) : α := (a.x2 - a.x1 + 1) * (a.y2 - a.y1 + 1)

/-- Whether a face is masked (`retinaface_detection.hpp:243-262`): `area1` is that of the face that
    was kept, `selected` the one at the cursor. -/
def masks (nmsThreshold area1 : α) (selected face : FaceInfo α) : Bool :=
  let area2 := face.area
  let interX1 := max selected.x1 face.x1
  let interY1 := max selected.y1 face.y1
  let interX2 := min selected.x2 face.x2
  let interY2 := min selected.y2 face.y2
  let w := interX2 - interX1 + 1
  let h := interY2 - interY1 + 1
  if w ≤ 0 ∨ h ≤ 0 then false
  else decide (w * h / (area1 + area2 - w * h) > nmsThreshold)

/-- The loop over the faces from the cursor on (`retinaface_detection.hpp:239-263`); `none` when it
    leaves the arrays. -/
def markLoop (infos : List (FaceInfo α)) (nmsThreshold area1 : α) (selected : Nat) :
    Nat → Nat → List Bool → Option (List Bool)
  | 0, _, mask => some mask
  | rounds + 1, i, mask =>
    mask[i]?.bind fun masked =>
      if masked then markLoop infos nmsThreshold area1 selected rounds (i + 1) mask
      else
        infos[i]?.bind fun face => infos[selected]?.bind fun next =>
          markLoop infos nmsThreshold area1 selected rounds (i + 1)
            (if masks nmsThreshold area1 next face then mask.set i true else mask)

/-- `while (selected < count && mask[selected] == 1) selected++`. -/
def skipMasked (mask : List Bool) (count : Nat) : Nat → Nat → Nat
  | 0, selected => selected
  | fuel + 1, selected =>
    if selected < count ∧ mask[selected]? = some true then
      skipMasked mask count fuel (selected + 1)
    else selected

/-- The outer loop (`retinaface_detection.hpp:220-264`); `none` also when the fuel runs out. -/
def nmsLoop (infos : List (FaceInfo α)) (nmsThreshold : α) :
    Nat → Nat → List Bool → List (FaceInfo α) → Option (List (FaceInfo α))
  | 0, _, _, _ => none
  | fuel + 1, selected, mask, infosNms =>
    let count := infos.length
    let selected := skipMasked mask count count selected
    if selected = count then some infosNms
    else
      infos[selected]?.bind fun face =>
        -- `selected++` comes before the loop
        (markLoop infos nmsThreshold face.area (selected + 1) (count - (selected + 1))
            (selected + 1) (mask.set selected true)).bind fun mask =>
          nmsLoop infos nmsThreshold fuel (selected + 1) mask (infosNms ++ [face])

/-- `RetinaFaceDetectionFunc::nms` (`retinaface_detection.hpp:211-267`). -/
def retinaNms (order : FaceSort α) (infos : List (FaceInfo α)) (nmsThreshold : α) :
    Option (List (FaceInfo α)) :=
  let infos := order.sort infos
  nmsLoop infos nmsThreshold (infos.length + 1) 0 (List.replicate infos.length false) []

/-! ## Overlap -/

/-- The area in which two faces meet. -/
def FaceInfo.inter (a b : FaceInfo α) : α :=
  let w := min a.x2 b.x2 - max a.x1 b.x1 + 1
  let h := min a.y2 b.y2 - max a.y1 b.y1 + 1
  if w ≤ 0 ∨ h ≤ 0 then 0 else w * h

/-- Their overlap ratio: the area of the intersection over that of the union. -/
def FaceInfo.overlapRatio (a b : FaceInfo α) : α := a.inter b / (a.area + b.area - a.inter b)

/-- A kept face and a later one that greedy suppression drops. -/
def Exceeds (t : α) (kept face : FaceInfo α) : Prop := t < kept.overlapRatio face

/-- A kept position and a later one that the program masks. -/
def NeighbourHits (infos : List (FaceInfo α)) (t : α) (j i : Nat) : Prop :=
  ∃ kept next face, infos[j]? = some kept ∧ infos[j + 1]? = some next ∧
    infos[i]? = some face ∧ masks t kept.area next face = true

theorem byElement_neighbourHits (infos : List (FaceInfo α)) (t : α) :
    ByElement (NeighbourHits infos t) infos := by
  rintro j i i' ⟨kept, next, face, atJ, atNext, atI, masked⟩ same
  exact ⟨kept, next, face, atJ, atNext, same ▸ atI, masked⟩

/-! ## The loops -/

section

variable {infos : List (FaceInfo α)} {t : α} {kept : List Nat} {mask : List Bool}

theorem markLoop_spec (t area1 : α) {selected : Nat} {next : FaceInfo α}
    (atCursor : infos[selected]? = some next) (rounds i : Nat) (mask : List Bool)
    (sized : mask.length = infos.length) (ends : i + rounds = infos.length) :
    ∃ mask', markLoop infos t area1 selected rounds i mask = some mask' ∧
      mask'.length = infos.length ∧ (∀ p < i, mask'[p]? = mask[p]?) ∧
      ∀ p face, i ≤ p → infos[p]? = some face →
        (mask'[p]? = some true ↔ mask[p]? = some true ∨ masks t area1 next face = true) := by
  induction rounds generalizing i mask with
  | zero =>
    refine ⟨mask, rfl, sized, fun _ _ => rfl, fun p face past found => ?_⟩
    have below := (List.getElem?_eq_some_iff.mp found).1
    omega
  | succ rounds ih =>
    have inside : i < infos.length := by omega
    have inMask : i < mask.length := by omega
    rw [markLoop, List.getElem?_eq_getElem inMask, Option.bind_some,
      List.getElem?_eq_getElem inside, atCursor, Option.bind_some, Option.bind_some]
    by_cases masked : mask[i] = true
    · obtain ⟨mask', runs, sized', before, behind⟩ := ih (i + 1) mask sized (by omega)
      rw [if_pos masked]
      refine ⟨mask', runs, sized', fun p below => before p (by omega), fun p face past found => ?_⟩
      rcases Nat.eq_or_lt_of_le past with rfl | later
      · rw [before i (Nat.lt_succ_self i), List.getElem?_eq_getElem inMask, masked]
        exact ⟨fun _ => Or.inl rfl, fun _ => rfl⟩
      · exact behind p face later found
    · rw [if_neg masked]
      have clear : mask[i] = false := Bool.eq_false_of_not_eq_true masked
      obtain ⟨mask', runs, sized', before, behind⟩ := ih (i + 1)
        (if masks t area1 next infos[i] then mask.set i true else mask)
        (by split <;> simp [sized]) (by omega)
      have others : ∀ p, p ≠ i →
          (if masks t area1 next infos[i] then mask.set i true else mask)[p]? = mask[p]? := by
        intro p differ
        split
        · exact List.getElem?_set_ne differ.symm
        · rfl
      refine ⟨mask', runs, sized', fun p below => ?_, fun p face past found => ?_⟩
      · rw [before p (by omega), others p (by omega)]
      · rcases Nat.eq_or_lt_of_le past with rfl | later
        · obtain rfl : infos[i] = face :=
            Option.some.inj ((List.getElem?_eq_getElem inside).symm.trans found)
          rw [before i (Nat.lt_succ_self i), List.getElem?_eq_getElem inMask, clear]
          by_cases hit : masks t area1 next infos[i] = true
          · rw [if_pos hit, List.getElem?_set_self inMask]
            exact ⟨fun _ => Or.inr hit, fun _ => rfl⟩
          · rw [if_neg hit, List.getElem?_eq_getElem inMask, clear]
            simp [hit]
        · rw [behind p face later found, others p (by omega)]

/-- The mask, behind the cursor: the faces that a kept one hits. -/
structure MaskOf (infos : List (FaceInfo α)) (t : α) (kept : List Nat) (selected : Nat)
    (mask : List Bool) : Prop where
  sized : mask.length = infos.length
  masked : ∀ i, selected ≤ i → i < infos.length →
    (mask[i]? = some true ↔ ∃ j ∈ kept, NeighbourHits infos t j i)

/-- Skipping drops the masked positions. -/
theorem skipMasked_spec (fuel selected : Nat) (inside : selected ≤ infos.length)
    (enough : infos.length ≤ selected + fuel) (mark : MaskOf infos t kept selected mask)
    (chosen : Chosen (NeighbourHits infos t) selected kept) :
    let selected' := skipMasked mask infos.length fuel selected
    selected ≤ selected' ∧ selected' ≤ infos.length ∧ MaskOf infos t kept selected' mask ∧
      Chosen (NeighbourHits infos t) selected' kept ∧
      (selected' < infos.length → mask[selected']? ≠ some true) := by
  induction fuel generalizing selected with
  | zero =>
    have all : selected = infos.length := by omega
    exact ⟨le_rfl, inside, mark, chosen, fun below => absurd (all ▸ below) (Nat.lt_irrefl _)⟩
  | succ fuel ih =>
    rw [skipMasked]
    by_cases skip : selected < infos.length ∧ mask[selected]? = some true
    · rw [if_pos skip]
      obtain ⟨j, inKept, hit⟩ := (mark.masked selected le_rfl skip.1).mp skip.2
      obtain ⟨onward, rest⟩ := ih (selected + 1) skip.1 (by omega)
        ⟨mark.sized, fun i past => mark.masked i (by omega)⟩ (chosen.drop inKept hit)
      exact ⟨Nat.le_of_succ_le onward, rest⟩
    · rw [if_neg skip]
      exact ⟨le_rfl, inside, mark, chosen, fun below masked => skip ⟨below, masked⟩⟩

/-- After a round the mask also covers what the newly kept face hits. -/
theorem MaskOf.round {selected : Nat} {face : FaceInfo α} (mark : MaskOf infos t kept selected mask)
    (here : infos[selected]? = some face) :
    ∃ mask', markLoop infos t face.area (selected + 1) (infos.length - (selected + 1))
        (selected + 1) (mask.set selected true) = some mask' ∧
      MaskOf infos t (kept ++ [selected]) (selected + 1) mask' := by
  have inside := (List.getElem?_eq_some_iff.mp here).1
  have sized : (mask.set selected true).length = infos.length := by
    rw [List.length_set, mark.sized]
  rcases Nat.eq_or_lt_of_le (Nat.succ_le_of_lt inside) with last | more
  · refine ⟨mask.set selected true, ?_, sized, fun i past below => ?_⟩
    · rw [Nat.sub_eq_zero_of_le last.ge]
      rfl
    · omega
  · obtain ⟨mask', runs, sized', -, behind⟩ := markLoop_spec t face.area
      (List.getElem?_eq_getElem more) (infos.length - (selected + 1)) (selected + 1)
      (mask.set selected true) sized (by omega)
    refine ⟨mask', runs, sized', fun i past below => ?_⟩
    have found := List.getElem?_eq_getElem below
    rw [behind i infos[i] past found, List.getElem?_set_ne (by omega),
      mark.masked i (by omega) below]
    simp only [List.mem_append, List.mem_singleton]
    constructor
    · rintro (⟨j, inKept, hit⟩ | hit)
      · exact ⟨j, Or.inl inKept, hit⟩
      · exact ⟨selected, Or.inr rfl, face, _, _, here, List.getElem?_eq_getElem more, found, hit⟩
    · rintro ⟨j, inKept | rfl, hit⟩
      · exact Or.inl ⟨j, inKept, hit⟩
      · obtain ⟨face', next', face'', atJ, atNext, atI, masked⟩ := hit
        obtain rfl : face = face' := Option.some.inj (here.symm.trans atJ)
        obtain rfl : infos[j + 1] = next' :=
          Option.some.inj ((List.getElem?_eq_getElem more).symm.trans atNext)
        obtain rfl : infos[i] = face'' := Option.some.inj (found.symm.trans atI)
        exact Or.inr masked

theorem nmsLoop_spec (kept : List Nat) (fuel selected : Nat) (mask : List Bool)
    (inside : selected ≤ infos.length)
    (enough : infos.length < selected + fuel) (mark : MaskOf infos t kept selected mask)
    (chosen : Chosen (NeighbourHits infos t) selected kept) :
    ∃ kept', nmsLoop infos t fuel selected mask (picked infos kept) = some (picked infos kept') ∧
      Chosen (NeighbourHits infos t) infos.length kept' := by
  induction fuel generalizing selected mask kept with
  | zero => omega
  | succ fuel ih =>
    obtain ⟨onward, inside', mark', chosen', clear⟩ :=
      skipMasked_spec infos.length selected inside (by omega) mark chosen
    rw [nmsLoop]
    by_cases done : skipMasked mask infos.length infos.length selected = infos.length
    · rw [if_pos done]
      rw [done] at chosen'
      exact ⟨kept, rfl, chosen'⟩
    · have below := Nat.lt_of_le_of_ne inside' done
      have here := List.getElem?_eq_getElem below
      obtain ⟨mask', runs, mark''⟩ := mark'.round here
      have free : ∀ j ∈ kept,
          ¬ NeighbourHits infos t j (skipMasked mask infos.length infos.length selected) :=
        fun j inKept hit => clear below ((mark'.masked _ le_rfl below).mpr ⟨j, inKept, hit⟩)
      rw [if_neg done, here, Option.bind_some, runs, Option.bind_some,
        ← picked_append_singleton here]
      exact ih _ _ mask' below (by omega) mark'' (chosen'.keep free)

end

/-- The function returns, stays inside its arrays, and keeps greedily by the intersections with the
    faces behind the kept ones. -/
theorem nmsLoop_eq (infos : List (FaceInfo α)) (t : α) :
    ∃ kept, nmsLoop infos t (infos.length + 1) 0 (List.replicate infos.length false) [] =
        some (picked infos kept) ∧ Chosen (NeighbourHits infos t) infos.length kept := by
  refine nmsLoop_spec [] _ 0 _ (Nat.zero_le _) (by omega) ⟨by simp, fun i _ below => ?_⟩
    (chosen_zero _)
  simp [below]

/-! ## When it is greedy -/

/-- Among the faces that greedy suppression keeps, one overlaps a given later face by more than the
    threshold exactly when one of them masks it, by the face behind it. -/
def NeighboursDecide (infos : List (FaceInfo α)) (t : α) : Prop :=
  ∃ kept, Chosen (Clash (Exceeds t) infos) infos.length kept ∧
    ∀ i < infos.length, (∃ j ∈ kept, j < i ∧ Clash (Exceeds t) infos j i) ↔
      ∃ j ∈ kept, j < i ∧ NeighbourHits infos t j i

/-- `nms` returns the greedy choice from the sorted faces, in which a face is kept exactly when its
    overlap ratio with every face kept before is at most the threshold, in just this case. -/
theorem retinaNms_iff (order : FaceSort α) (infos : List (FaceInfo α)) (t : α) :
    (∃ kept, Chosen (Clash (Exceeds t) (order.sort infos)) (order.sort infos).length kept ∧
        retinaNms order infos t = some (picked (order.sort infos) kept)) ↔
      NeighboursDecide (order.sort infos) t := by
  obtain ⟨kept', runs, chosen'⟩ := nmsLoop_eq (order.sort infos) t
  constructor
  · rintro ⟨kept, chosen, returns⟩
    have same : picked (order.sort infos) kept = picked (order.sort infos) kept' :=
      Option.some.inj (returns.symm.trans runs)
    obtain rfl := chosen.eq_of_picked chosen' byElement_clash (byElement_neighbourHits _ t) same
    refine ⟨kept, chosen, fun i below => ⟨?_, ?_⟩⟩
    · rintro ⟨j, inKept, before, clash⟩
      exact chosen'.dropped below fun member =>
        ((chosen.mem_iff i).mp member).2 j inKept before clash
    · rintro ⟨j, inKept, before, hit⟩
      exact chosen.dropped below fun member =>
        ((chosen'.mem_iff i).mp member).2 j inKept before hit
  · rintro ⟨kept, chosen, agree⟩
    have masked : Chosen (NeighbourHits (order.sort infos) t) (order.sort infos).length kept := by
      refine ⟨chosen.ordered, fun i => (chosen.mem_iff i).trans (and_congr_right fun below => ?_)⟩
      have agree' := not_congr (agree i below)
      push Not at agree'
      exact agree'
    obtain rfl := masked.unique chosen'
    exact ⟨kept, chosen, runs⟩

/-- A sort that keeps the order of equal scores. -/
def stableSort : FaceSort ℚ where
  sort := List.insertionSort fun a b => b.score ≤ a.score
  perm := List.perm_insertionSort _
  descending infos := by
    have total : Std.Total fun a b : FaceInfo ℚ => b.score ≤ a.score :=
      ⟨fun a b => le_total b.score a.score⟩
    have trans : IsTrans (FaceInfo ℚ) fun a b => b.score ≤ a.score :=
      ⟨fun _ _ _ first second => second.trans first⟩
    exact List.pairwise_insertionSort _ infos

/-- Two faces far from each other; both are 9 pixels wide and high. -/
def twoFaces : List (FaceInfo ℚ) :=
  [⟨0, 0, 8, 8, 3 / 4, #v[0, 0, 0, 0, 0], #v[0, 0, 0, 0, 0]⟩,
    ⟨100, 0, 108, 8, 1 / 2, #v[0, 0, 0, 0, 0], #v[0, 0, 0, 0, 0]⟩]

/-- The second of them is masked by its overlap with itself. -/
theorem retinaNms_twoFaces :
    ¬ ∃ kept, Chosen (Clash (Exceeds (2 / 5)) (stableSort.sort twoFaces))
          (stableSort.sort twoFaces).length kept ∧
        retinaNms stableSort twoFaces (2 / 5) =
          some (picked (stableSort.sort twoFaces) kept) := by
  have sorted : stableSort.sort twoFaces = twoFaces := by decide +kernel
  have first : retinaNms stableSort twoFaces (2 / 5) = some (twoFaces.take 1) := by
    decide +kernel
  rintro ⟨kept, chosen, returns⟩
  rw [sorted] at chosen returns
  have apart : ∀ j, j < 1 → ¬ Clash (Exceeds (2 / 5)) twoFaces j 1 := by
    rintro j below ⟨a, b, atJ, atOne, exceeds⟩
    obtain rfl : j = 0 := by omega
    obtain rfl := Option.some.inj atJ
    obtain rfl := Option.some.inj atOne
    exact absurd exceeds (by unfold Exceeds; decide +kernel)
  have member : 1 ∈ kept :=
    (chosen.mem_iff 1).mpr ⟨by decide, fun j _ below => apart j below⟩
  have second : twoFaces[1] ∈ picked twoFaces kept := mem_picked.mpr ⟨1, member, rfl⟩
  rw [← Option.some.inj (first.symm.trans returns)] at second
  exact absurd second (by decide +kernel)

end CviRuntime.CpuFunction
