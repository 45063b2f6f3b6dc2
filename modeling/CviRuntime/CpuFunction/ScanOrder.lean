import CviRuntime.CpuFunction.Suppress
import CviRuntime.Lib.Greedy
import Mathlib.Data.List.Pairwise
import Mathlib.Data.List.Rotate

/-!
# Suppression and the order of the array

`nms` visits the detections in the order of the feature cells. A detection that is erased in the
end may have erased others before, so that the order matters: unless those that overlap a better
one always overlap one that nothing erases. With an assertion that fails for some pair there is also
an order in which this pair is compared.
-/

namespace CviRuntime.CpuFunction

open CviRuntime.Greedy

section

variable {α β : Type*} [Zero α] [LinearOrder α]

/-- The array by descending score. -/
def descending (dets : List (Detection β α)) : List (Detection β α) :=
  dets.mergeSort fun d e => decide (e.score ≤ d.score)

/-- Whatever the order of the array, what is left is what greedy suppression in descending score
    order keeps. -/
def OrderFree (hits : β → β → Bool) (dets : List (Detection β α)) : Prop :=
  ∀ dets', dets'.Perm dets → ∀ d,
    d ∈ survivors (suppress hits dets') ↔ d ∈ greedy (Overlaps hits) (descending dets)

/-- A detection that overlaps no better one. -/
def Peak (hits : β → β → Bool) (dets : List (Detection β α)) (d : Detection β α) : Prop :=
  ∀ e ∈ dets, Overlaps hits e d → ¬ d.score < e.score

/-- Every detection that overlaps a better one overlaps a better one that is a peak. -/
def PeaksDecide (hits : β → β → Bool) (dets : List (Detection β α)) : Prop :=
  ∀ d ∈ dets, (∃ e ∈ dets, Overlaps hits e d ∧ d.score < e.score) →
    ∃ e ∈ dets, Overlaps hits e d ∧ d.score < e.score ∧ Peak hits dets e

end

/-! ## Greedy suppression -/

section

variable {α β : Type*} [LinearOrder α] {hits : β → β → Bool} {dets dets' : List (Detection β α)}
  {d e : Detection β α}

theorem descending_pairwise (distinct : (dets.map Detection.score).Nodup) :
    (descending dets).Pairwise fun d e => e.score < d.score := by
  have perm : (descending dets).Perm dets := List.mergeSort_perm dets _
  have differ : ((descending dets).map Detection.score).Nodup :=
    (perm.map Detection.score).nodup_iff.mpr distinct
  have sorted : (descending dets).Pairwise fun d e => decide (e.score ≤ d.score) = true := by
    refine List.pairwise_mergeSort (fun a b c ab bc => ?_) (fun a b => ?_) dets
    · rw [decide_eq_true_eq] at ab bc ⊢
      exact le_trans bc ab
    · rw [Bool.or_eq_true, decide_eq_true_eq, decide_eq_true_eq]
      exact le_total b.score a.score
  refine (sorted.and (List.pairwise_map.mp differ)).imp fun both => ?_
  exact lt_of_le_of_ne (decide_eq_true_eq.mp both.1) both.2.symm

theorem mem_greedy_descending (distinct : (dets.map Detection.score).Nodup) :
    d ∈ greedy (Overlaps hits) (descending dets) ↔
      d ∈ dets ∧ ∀ e ∈ greedy (Overlaps hits) (descending dets), d.score < e.score →
        ¬ Overlaps hits e d := by
  rw [mem_greedy_iff (descending_pairwise distinct) fun _ _ less => not_lt.mpr less.le]
  exact and_congr_left fun _ => List.mem_mergeSort

theorem mem_of_mem_greedy (member : d ∈ greedy (Overlaps hits) (descending dets)) : d ∈ dets :=
  List.mem_mergeSort.mp ((greedy_sublist _).subset member)

theorem Peak.mem_greedy (distinct : (dets.map Detection.score).Nodup) (member : d ∈ dets)
    (peak : Peak hits dets d) : d ∈ greedy (Overlaps hits) (descending dets) := by
  refine (mem_greedy_descending distinct).mpr ⟨member, fun e inGreedy better overlap => ?_⟩
  exact peak e (mem_of_mem_greedy inGreedy) overlap better

theorem mem_greedy_iff_peak (distinct : (dets.map Detection.score).Nodup)
    (decided : PeaksDecide hits dets) (member : d ∈ dets) :
    d ∈ greedy (Overlaps hits) (descending dets) ↔ Peak hits dets d := by
  refine ⟨fun kept e inDets overlap better => ?_, fun peak => peak.mem_greedy distinct member⟩
  obtain ⟨top, inDets', overlap', better', peak⟩ := decided d member ⟨e, inDets, overlap, better⟩
  have kept' := peak.mem_greedy distinct inDets'
  exact ((mem_greedy_descending distinct).mp kept).2 top kept' better' overlap'

theorem PeaksDecide.perm (decided : PeaksDecide hits dets) (perm : dets'.Perm dets) :
    PeaksDecide hits dets' := by
  intro d member worse
  simp only [perm.mem_iff, Peak] at member worse ⊢
  exact decided d member worse

end

section

variable {α β : Type*} [Zero α] [LinearOrder α] {hits : β → β → Bool}
  {dets dets' : List (Detection β α)} {d e : Detection β α}

/-! ## What is left of the array -/

theorem mem_survivors : d ∈ survivors dets ↔ d ∈ dets ∧ 0 < d.score := by
  rw [survivors, List.mem_filter, decide_eq_true_eq]

theorem mem_of_mem_survivors (erasures : Erasures dets dets') (member : d ∈ survivors dets') :
    d ∈ dets := by
  obtain ⟨inOut, positive⟩ := mem_survivors.mp member
  exact erasures.mem_alive inOut positive.ne'

/-- Nothing erases a peak. -/
theorem Peak.mem_survivors (symmetric : ∀ a b, hits a b = hits b a)
    (positive : ∀ d ∈ dets, 0 < d.score) (distinct : (dets.map Detection.score).Nodup)
    (member : d ∈ dets) (peak : Peak hits dets d) : d ∈ survivors (suppress hits dets) := by
  have suppressed := suppress_suppressed symmetric dets positive
  obtain ⟨i, here⟩ := List.mem_iff_getElem?.mp member
  rcases Erasures.at_position suppressed.unchanged here with kept | gone
  · exact CpuFunction.mem_survivors.mpr ⟨List.mem_of_getElem? kept, positive d member⟩
  · obtain ⟨j, e, apart, there, overlap, better⟩ := suppressed.erased i d here gone
    have differ : d.score ≠ e.score := by
      intro same
      have inside : i < (dets.map Detection.score).length := by
        rw [List.length_map]
        exact (List.getElem?_eq_some_iff.mp here).1
      refine apart ((List.getElem?_inj inside distinct).mp ?_).symm
      rw [List.getElem?_map, List.getElem?_map, here, there, Option.map_some, Option.map_some,
        same]
    have inDets : e ∈ dets := List.mem_of_getElem? there
    exact absurd (lt_of_le_of_ne better differ)
      (peak e inDets ((overlaps_comm symmetric).mp overlap))

/-- Two that are left do not overlap. -/
theorem survivors_apart (symmetric : ∀ a b, hits a b = hits b a)
    (positive : ∀ d ∈ dets, 0 < d.score) (leftD : d ∈ survivors (suppress hits dets))
    (leftE : e ∈ survivors (suppress hits dets)) (differ : d ≠ e) : ¬ Overlaps hits d e := by
  obtain ⟨inOut, positiveD⟩ := mem_survivors.mp leftD
  obtain ⟨inOut', positiveE⟩ := mem_survivors.mp leftE
  have suppressed := suppress_suppressed symmetric dets positive
  have swap : Std.Symm fun d e : Detection β α =>
      0 < d.score → 0 < e.score → ¬ Overlaps hits d e :=
    ⟨fun _ _ clear posB posA overlap => clear posA posB ((overlaps_comm symmetric).mp overlap)⟩
  exact suppressed.apart.forall inOut inOut' differ positiveD positiveE

/-! ## Orders that do not matter -/

theorem mem_survivors_iff_peak (symmetric : ∀ a b, hits a b = hits b a)
    (positive : ∀ d ∈ dets, 0 < d.score) (distinct : (dets.map Detection.score).Nodup)
    (decided : PeaksDecide hits dets) (member : d ∈ dets) :
    d ∈ survivors (suppress hits dets) ↔ Peak hits dets d := by
  refine ⟨fun kept e inDets overlap better => ?_,
    fun peak => peak.mem_survivors symmetric positive distinct member⟩
  obtain ⟨top, inDets', overlap', better', peak⟩ := decided d member ⟨e, inDets, overlap, better⟩
  have kept' := peak.mem_survivors symmetric positive distinct inDets'
  have differ : top ≠ d := fun same => lt_irrefl d.score (same ▸ better')
  exact survivors_apart symmetric positive kept' kept differ overlap'

theorem PeaksDecide.orderFree (symmetric : ∀ a b, hits a b = hits b a)
    (positive : ∀ d ∈ dets, 0 < d.score) (distinct : (dets.map Detection.score).Nodup)
    (decided : PeaksDecide hits dets) : OrderFree hits dets := by
  intro dets' perm d
  have positive' : ∀ d ∈ dets', 0 < d.score := fun d member => positive d (perm.mem_iff.mp member)
  have distinct' := (perm.map Detection.score).nodup_iff.mpr distinct
  have erasures := (suppress_suppressed symmetric dets' positive').unchanged
  by_cases member : d ∈ dets
  · rw [mem_survivors_iff_peak symmetric positive' distinct' (decided.perm perm)
      (perm.mem_iff.mpr member), mem_greedy_iff_peak distinct decided member]
    simp only [Peak, perm.mem_iff]
  · refine iff_of_false (fun kept => member ?_) fun kept => member (mem_of_mem_greedy kept)
    exact perm.mem_iff.mp (mem_of_mem_survivors erasures kept)

/-! ## Orders that matter -/

/-- The first detection erases the second when it is better. -/
theorem front_erased (symmetric : ∀ a b, hits a b = hits b a) {rest : List (Detection β α)}
    (positive : ∀ x ∈ d :: e :: rest, 0 < x.score)
    (distinct : ((d :: e :: rest).map Detection.score).Nodup) (overlap : Overlaps hits d e)
    (better : e.score < d.score) :
    e ∉ survivors (suppress hits (d :: e :: rest)) := by
  intro kept
  obtain ⟨inOut, aliveE⟩ := mem_survivors.mp kept
  obtain ⟨i, there⟩ := List.mem_iff_getElem?.mp inOut
  have erasures := (suppress_suppressed symmetric _ positive).unchanged
  have before : (d :: e :: rest)[i]? = some e := Erasures.alive erasures there aliveE.ne'
  have second : i = 1 := by
    have inside : 1 < ((d :: e :: rest).map Detection.score).length := by
      rw [List.length_map, List.length_cons, List.length_cons]
      omega
    refine ((List.getElem?_inj inside distinct).mp ?_).symm
    rw [List.getElem?_map, List.getElem?_map, before]
    rfl
  have aliveD : d.score ≠ 0 := (positive d List.mem_cons_self).ne'
  have inner := suppressInner_inner rest aliveE.ne' overlap better.le
  rw [second, suppress, List.length_cons, suppressOuter, if_neg aliveD, inner,
    List.getElem?_cons_succ, List.length_cons, suppressOuter, if_pos e.erase_score] at there
  have erased : e.erase = e := Option.some.inj there
  exact aliveE.ne' (congrArg Detection.score erased).symm

/-- A detection kept by greedy suppression that overlaps a better one is lost in some order. -/
theorem not_orderFree (symmetric : ∀ a b, hits a b = hits b a)
    (positive : ∀ d ∈ dets, 0 < d.score) (distinct : (dets.map Detection.score).Nodup)
    (kept : e ∈ greedy (Overlaps hits) (descending dets)) (member : d ∈ dets)
    (overlap : Overlaps hits d e) (better : e.score < d.score) : ¬ OrderFree hits dets := by
  classical
  intro orderFree
  have differ : e ≠ d := fun same => lt_irrefl d.score (same ▸ better)
  have inRest : e ∈ dets.erase d := (List.mem_erase_of_ne differ).mpr (mem_of_mem_greedy kept)
  have perm : (d :: e :: (dets.erase d).erase e).Perm dets :=
    ((List.perm_cons_erase inRest).symm.cons d).trans (List.perm_cons_erase member).symm
  have lost := front_erased symmetric (fun x inPerm => positive x (perm.mem_iff.mp inPerm))
    ((perm.map Detection.score).nodup_iff.mpr distinct) overlap better
  exact lost ((orderFree _ perm e).mpr kept)

theorem orderFree_iff (symmetric : ∀ a b, hits a b = hits b a)
    (positive : ∀ d ∈ dets, 0 < d.score) (distinct : (dets.map Detection.score).Nodup) :
    OrderFree hits dets ↔ PeaksDecide hits dets := by
  refine ⟨fun orderFree => ?_, PeaksDecide.orderFree symmetric positive distinct⟩
  by_contra undecided
  simp only [PeaksDecide, not_forall] at undecided
  obtain ⟨d, member, ⟨e, inDets, overlap, better⟩, none⟩ := undecided
  by_cases kept : d ∈ greedy (Overlaps hits) (descending dets)
  · exact not_orderFree symmetric positive distinct kept inDets overlap better orderFree
  · -- what keeps `d` out of the greedy choice is no peak
    have dropped := mt (mem_greedy_descending distinct).mpr kept
    push Not at dropped
    obtain ⟨g, kept', worse, overlap'⟩ := dropped member
    have low : ¬ Peak hits dets g := fun peak =>
      none ⟨g, mem_of_mem_greedy kept', overlap', worse, peak⟩
    simp only [Peak, not_forall, not_not] at low
    obtain ⟨h, inDets', overlap'', better'⟩ := low
    exact not_orderFree symmetric positive distinct kept' inDets' overlap'' better' orderFree

end

/-! ## The assertion -/

section

variable {α β : Type*} [Zero α] [LinearOrder α] {above : β → β → Option Bool}
  {det : List (Detection β α)}

/-- Whatever the order of the array, the function comes to an end and leaves what greedy suppression
    in descending score order keeps. -/
def NmsOrderFree (above : β → β → Option Bool) (det : List (Detection β α)) : Prop :=
  ∀ det', det'.Perm det → ∃ out, nmsInPlace above det' = some out ∧
    ∀ d, d ∈ survivors out ↔ d ∈ greedy (Overlaps (exceeds above)) (descending det)

/-- The first two detections are compared. -/
theorem nmsInPlace_front {d e : Detection β α} {rest : List (Detection β α)}
    (aliveD : d.score ≠ 0) (aliveE : e.score ≠ 0) (sameClass : d.cls = e.cls)
    (fails : above d.bbox e.bbox = none) : nmsInPlace above (d :: e :: rest) = none := by
  rw [nmsInPlace, List.length_cons, nmsOuter, if_neg aliveD, nmsInner, if_neg aliveE,
    if_neg (not_not.mpr sameClass), fails]
  rfl

/-- With a pair that fails the assertion, some order fails. -/
theorem NmsOrderFree.comparable (positive : ∀ d ∈ det, 0 < d.score)
    (orderFree : NmsOrderFree above det) : Comparable above det := by
  refine List.pairwise_iff_forall_sublist.mpr fun {d e} sublist sameClass fails => ?_
  obtain ⟨rest, perm⟩ := sublist.exists_perm_append
  have alive : ∀ x ∈ [d, e], x.score ≠ 0 := fun x member =>
    (positive x (sublist.subset member)).ne'
  obtain ⟨out, ran, -⟩ := orderFree (d :: e :: rest) perm.symm
  rw [nmsInPlace_front (alive d (by simp)) (alive e (by simp)) sameClass fails] at ran
  cases ran

theorem nmsOrderFree_iff (symmetric : ∀ a b, above a b = above b a)
    (positive : ∀ d ∈ det, 0 < d.score) (distinct : (det.map Detection.score).Nodup) :
    NmsOrderFree above det ↔ Comparable above det ∧ PeaksDecide (exceeds above) det := by
  have ends : Comparable above det → ∀ det', det'.Perm det →
      nmsInPlace above det' = some (suppress (exceeds above) det') := by
    intro comparable det' perm
    have swap : ∀ {d e : Detection β α}, (d.cls = e.cls → above d.bbox e.bbox ≠ none) →
        e.cls = d.cls → above e.bbox d.bbox ≠ none := fun compared same => by
      rw [symmetric]
      exact compared same.symm
    refine nmsInPlace_eq ((perm.pairwise_iff swap).mpr comparable) fun d member => ?_
    exact (positive d (perm.mem_iff.mp member)).le
  rw [← orderFree_iff (exceeds_comm symmetric) positive distinct]
  constructor
  · intro free
    have comparable := free.comparable positive
    refine ⟨comparable, fun det' perm d => ?_⟩
    obtain ⟨out, ran, same⟩ := free det' perm
    rw [ends comparable det' perm] at ran
    rw [Option.some.inj ran]
    exact same d
  · rintro ⟨comparable, free⟩ det' perm
    exact ⟨_, ends comparable det' perm, free det' perm⟩

end

/-! ## The two functions -/

section

variable {α : Type*} [Field α] [LinearOrder α] [IsStrictOrderedRing α]

/-- The order of the array does not matter to either function exactly when every detection that
    overlaps a better one of its class overlaps a better one that itself overlaps none; for YOLO, no
    two of one class may have an empty union either. -/
theorem nms_orderFree_iff (t : α) :
    (∀ det : List (Detection (Box α) α), (∀ d ∈ det, 0 < d.score) →
      (det.map Detection.score).Nodup →
      ((∀ det', det'.Perm det → ∃ out, yoloNms t det' = some out ∧ ∀ d, d ∈ survivors out ↔
          d ∈ greedy (Overlaps (exceeds (boxOver t))) (descending det)) ↔
        UnionsFilled det ∧ PeaksDecide (exceeds (boxOver t)) det)) ∧
    (∀ dets : List (Detection (Coord α) α), (∀ d ∈ dets, 0 < d.score) →
      (dets.map Detection.score).Nodup →
      ((∀ dets', dets'.Perm dets → ∃ out, frcnNms t dets' = some out ∧ ∀ d, d ∈ survivors out ↔
          d ∈ greedy (Overlaps (exceeds (frcnOver t))) (descending dets)) ↔
        PeaksDecide (exceeds (frcnOver t)) dets)) := by
  refine ⟨fun det positive distinct => ?_, fun dets positive distinct => ?_⟩
  · rw [← comparable_iff_unionsFilled t]
    exact nmsOrderFree_iff (boxOver_comm t) positive distinct
  · exact (nmsOrderFree_iff (frcnOver_comm t) positive distinct).trans
      (and_iff_right (comparable_frcnOver t dets))

/-- Three detections in a row, the first and the last of which do not overlap. -/
def rowOfThree : List (Detection (Box ℚ) ℚ) :=
  [⟨⟨0, 0, 8, 8⟩, 1, 3 / 4⟩, ⟨⟨2, 0, 8, 8⟩, 1, 1 / 2⟩, ⟨⟨4, 0, 8, 8⟩, 1, 1 / 4⟩]

def cornersOfThree : List (Detection (Coord ℚ) ℚ) :=
  [⟨⟨0, 0, 8, 8⟩, 1, 3 / 4⟩, ⟨⟨2, 0, 10, 8⟩, 1, 1 / 2⟩, ⟨⟨4, 0, 12, 8⟩, 1, 1 / 4⟩]

theorem nms_orderFree_iff_rowOfThree :
    ((∀ det', det'.Perm rowOfThree → ∃ out, yoloNms (1 / 2 : ℚ) det' = some out ∧
        ∀ d, d ∈ survivors out ↔
          d ∈ greedy (Overlaps (exceeds (boxOver (1 / 2)))) (descending rowOfThree)) ↔
      UnionsFilled rowOfThree ∧ PeaksDecide (exceeds (boxOver (1 / 2))) rowOfThree) ∧
    ((∀ dets', dets'.Perm cornersOfThree → ∃ out, frcnNms (2 / 5 : ℚ) dets' = some out ∧
        ∀ d, d ∈ survivors out ↔
          d ∈ greedy (Overlaps (exceeds (frcnOver (2 / 5)))) (descending cornersOfThree)) ↔
      PeaksDecide (exceeds (frcnOver (2 / 5))) cornersOfThree) :=
  ⟨(nms_orderFree_iff (1 / 2 : ℚ)).1 rowOfThree (by decide +kernel) (by decide +kernel),
    (nms_orderFree_iff (2 / 5 : ℚ)).2 cornersOfThree (by decide +kernel) (by decide +kernel)⟩

/-- With the best one at the end, the middle one erases the last before it is erased itself. -/
theorem nms_orderMatters_rowOfThree :
    (¬ ∀ det', det'.Perm rowOfThree → ∃ out, yoloNms (1 / 2 : ℚ) det' = some out ∧
      ∀ d, d ∈ survivors out ↔
        d ∈ greedy (Overlaps (exceeds (boxOver (1 / 2)))) (descending rowOfThree)) ∧
    (¬ ∀ dets', dets'.Perm cornersOfThree → ∃ out, frcnNms (2 / 5 : ℚ) dets' = some out ∧
      ∀ d, d ∈ survivors out ↔
        d ∈ greedy (Overlaps (exceeds (frcnOver (2 / 5)))) (descending cornersOfThree)) := by
  have straight : ⟨⟨4, 0, 8, 8⟩, 1, 1 / 4⟩ ∈
      (yoloNms (1 / 2 : ℚ) rowOfThree).elim [] survivors := by decide +kernel
  have turned : ⟨⟨4, 0, 8, 8⟩, 1, 1 / 4⟩ ∉
      (yoloNms (1 / 2 : ℚ) (rowOfThree.rotate 1)).elim [] survivors := by decide +kernel
  have straight' : ⟨⟨4, 0, 12, 8⟩, 1, 1 / 4⟩ ∈
      (frcnNms (2 / 5 : ℚ) cornersOfThree).elim [] survivors := by decide +kernel
  have turned' : ⟨⟨4, 0, 12, 8⟩, 1, 1 / 4⟩ ∉
      (frcnNms (2 / 5 : ℚ) (cornersOfThree.rotate 1)).elim [] survivors := by decide +kernel
  refine ⟨fun free => ?_, fun free => ?_⟩
  · obtain ⟨out, ran, same⟩ := free rowOfThree (List.Perm.refl _)
    obtain ⟨out', ran', same'⟩ := free (rowOfThree.rotate 1) (List.rotate_perm _ _)
    rw [ran, Option.elim_some] at straight
    rw [ran', Option.elim_some] at turned
    exact turned ((same' _).mpr ((same _).mp straight))
  · obtain ⟨out, ran, same⟩ := free cornersOfThree (List.Perm.refl _)
    obtain ⟨out', ran', same'⟩ := free (cornersOfThree.rotate 1) (List.rotate_perm _ _)
    rw [ran, Option.elim_some] at straight'
    rw [ran', Option.elim_some] at turned'
    exact turned' ((same' _).mpr ((same _).mp straight'))

end

end CviRuntime.CpuFunction
