import Mathlib.Data.List.Induction
import Mathlib.Data.List.Sort

/-!
# Greedy suppression

Going over a list in its order, an element is kept unless one that was kept before it conflicts
with it. `Chosen` says this of positions, so that equal elements are told apart, and determines
them; `greedy` is the scan over the elements.
-/

namespace CviRuntime.Greedy

variable {α : Type*}

/-! ## Positions -/

/-- The positions below `n` that a greedy choice keeps: all that no position kept before hits. -/
structure Chosen (hits : Nat → Nat → Prop) (n : Nat) (kept : List Nat) : Prop where
  ordered : kept.Pairwise (· < ·)
  mem_iff : ∀ i, i ∈ kept ↔ i < n ∧ ∀ j ∈ kept, j < i → ¬ hits j i

section

variable {hits hits' : Nat → Nat → Prop} {n : Nat} {kept kept' : List Nat}

theorem Chosen.lt (chosen : Chosen hits n kept) {i : Nat} (member : i ∈ kept) : i < n :=
  ((chosen.mem_iff i).mp member).1

/-- A position is dropped because of one kept before it. -/
theorem Chosen.dropped (chosen : Chosen hits n kept) {i : Nat} (below : i < n)
    (absent : i ∉ kept) : ∃ j ∈ kept, j < i ∧ hits j i := by
  by_contra none
  push Not at none
  exact absent ((chosen.mem_iff i).mpr ⟨below, none⟩)

/-- The choice is determined. -/
theorem Chosen.unique (chosen : Chosen hits n kept) (chosen' : Chosen hits n kept') :
    kept = kept' := by
  refine chosen.ordered.eq_of_mem_iff chosen'.ordered fun i => ?_
  induction i using Nat.strongRecOn with
  | ind i ih =>
    rw [chosen.mem_iff, chosen'.mem_iff]
    refine and_congr_right fun _ => ⟨fun free j member before => ?_, fun free j member before => ?_⟩
    · exact free j ((ih j before).mpr member) before
    · exact free j ((ih j before).mp member) before

theorem Chosen.congr (chosen : Chosen hits n kept)
    (agree : ∀ j i, j < i → i < n → (hits j i ↔ hits' j i)) : Chosen hits' n kept where
  ordered := chosen.ordered
  mem_iff i := by
    rw [chosen.mem_iff]
    refine and_congr_right fun below => forall₃_congr fun j _ before => ?_
    rw [agree j i before below]

theorem chosen_zero (hits : Nat → Nat → Prop) : Chosen hits 0 [] where
  ordered := List.Pairwise.nil
  mem_iff i := by simp

/-- The next position is kept. -/
theorem Chosen.keep (chosen : Chosen hits n kept) (free : ∀ j ∈ kept, ¬ hits j n) :
    Chosen hits (n + 1) (kept ++ [n]) where
  ordered := by
    rw [List.pairwise_append]
    refine ⟨chosen.ordered, List.pairwise_singleton _ _, fun i member last inLast => ?_⟩
    rw [List.mem_singleton.mp inLast]
    exact chosen.lt member
  mem_iff i := by
    rw [List.mem_append, List.mem_singleton]
    constructor
    · rintro (member | rfl)
      · have below := chosen.lt member
        refine ⟨Nat.lt_succ_of_lt below, fun j inKept before => ?_⟩
        rcases List.mem_append.mp inKept with inKept | last
        · exact ((chosen.mem_iff i).mp member).2 j inKept before
        · rw [List.mem_singleton.mp last] at before
          omega
      · refine ⟨Nat.lt_succ_self i, fun j inKept before => ?_⟩
        rcases List.mem_append.mp inKept with inKept | last
        · exact free j inKept
        · rw [List.mem_singleton.mp last] at before
          omega
    · rintro ⟨below, clear⟩
      rcases Nat.lt_succ_iff_lt_or_eq.mp below with below | rfl
      · refine Or.inl ((chosen.mem_iff i).mpr ⟨below, fun j inKept before => ?_⟩)
        exact clear j (List.mem_append_left _ inKept) before
      · exact Or.inr rfl

/-- The next position is dropped. -/
theorem Chosen.drop (chosen : Chosen hits n kept) {j : Nat} (member : j ∈ kept) (hit : hits j n) :
    Chosen hits (n + 1) kept where
  ordered := chosen.ordered
  mem_iff i := by
    rw [chosen.mem_iff]
    constructor
    · rintro ⟨below, clear⟩
      exact ⟨Nat.lt_succ_of_lt below, clear⟩
    · rintro ⟨below, clear⟩
      refine ⟨?_, clear⟩
      rcases Nat.lt_succ_iff_lt_or_eq.mp below with below | rfl
      · exact below
      · exact absurd hit (clear j member (chosen.lt member))

end

/-! ## Elements -/

/-- The elements at some positions. -/
def picked (xs : List α) (kept : List Nat) : List α := kept.filterMap (xs[·]?)

/-- Two positions whose elements conflict. -/
def Clash (conflict : α → α → Prop) (xs : List α) (j i : Nat) : Prop :=
  ∃ y x, xs[j]? = some y ∧ xs[i]? = some x ∧ conflict y x

section

variable {conflict : α → α → Prop} {xs : List α} {x : α} {kept : List Nat}
  {hits hits' : Nat → Nat → Prop}

theorem mem_picked {x : α} : x ∈ picked xs kept ↔ ∃ i ∈ kept, xs[i]? = some x :=
  List.mem_filterMap

theorem picked_append_singleton {i : Nat} {x : α} (found : xs[i]? = some x) :
    picked xs (kept ++ [i]) = picked xs kept ++ [x] := by
  rw [picked, List.filterMap_append, picked, List.filterMap_cons, found, List.filterMap_nil]

theorem picked_append_left {x : α} (inside : ∀ i ∈ kept, i < xs.length) :
    picked (xs ++ [x]) kept = picked xs kept :=
  List.filterMap_congr fun i member => List.getElem?_append_left (inside i member)

theorem picked_range (xs : List α) : picked xs (List.range xs.length) = xs := by
  induction xs using List.reverseRecOn with
  | nil => rfl
  | append_singleton xs x ih =>
    have here : (xs ++ [x])[xs.length]? = some x := by simp
    rw [List.length_append, List.length_singleton, List.range_succ, picked_append_singleton here,
      picked_append_left fun i => List.mem_range.mp, ih]

/-- Positions in order pick a sublist. -/
theorem picked_sublist (ordered : kept.Pairwise (· < ·)) (inside : ∀ i ∈ kept, i < xs.length) :
    (picked xs kept).Sublist xs := by
  have positions : kept.Sublist (List.range xs.length) := by
    refine List.sublist_of_subperm_of_pairwise ?_ ordered List.pairwise_lt_range
    exact List.subperm_of_subset (ordered.imp Nat.ne_of_lt)
      fun i member => List.mem_range.mpr (inside i member)
  have sublist := positions.filterMap (xs[·]?)
  rwa [← picked, ← picked, picked_range] at sublist

theorem Chosen.picked_sublist (chosen : Chosen hits xs.length kept) :
    (picked xs kept).Sublist xs :=
  Greedy.picked_sublist chosen.ordered fun _ => chosen.lt

/-- No two elements that are kept conflict. -/
theorem Chosen.pairwise (chosen : Chosen (Clash conflict xs) xs.length kept) :
    (picked xs kept).Pairwise fun y x => ¬ conflict y x := by
  have apart : kept.Pairwise fun j i => ¬ Clash conflict xs j i :=
    chosen.ordered.imp_of_mem fun inJ inI before => ((chosen.mem_iff _).mp inI).2 _ inJ before
  refine List.Pairwise.filterMap _ (fun j i clear y atY x atX conflicting => ?_) apart
  exact clear ⟨y, x, atY, atX, conflicting⟩

theorem picked_map_some (inside : ∀ i ∈ kept, i < xs.length) :
    (picked xs kept).map some = kept.map (xs[·]?) := by
  induction kept with
  | nil => rfl
  | cons i kept ih =>
    obtain ⟨here, rest⟩ := List.forall_mem_cons.mp inside
    have tail : (picked xs kept).map some = kept.map (xs[·]?) := ih rest
    rw [picked, List.filterMap_cons, List.getElem?_eq_getElem here, List.map_cons, List.map_cons,
      List.getElem?_eq_getElem here, ← tail, picked]

/-- What hits a position hits all later ones with the same element. -/
def ByElement (hits : Nat → Nat → Prop) (xs : List α) : Prop :=
  ∀ j i i', hits j i → xs[i]? = xs[i']? → hits j i'

theorem byElement_clash : ByElement (Clash conflict xs) xs := by
  rintro j i i' ⟨y, x, atJ, atI, conflicting⟩ same
  exact ⟨y, x, atJ, same ▸ atI, conflicting⟩

/-- Where two choices part, the one that goes further has dropped what the other keeps. -/
theorem Chosen.not_lt {n i i' : Nat} {before rest rest' : List Nat}
    (chosen : Chosen hits n (before ++ i :: rest))
    (chosen' : Chosen hits' n (before ++ i' :: rest')) (byElement : ByElement hits' xs)
    (same : xs[i]? = xs[i']?) : ¬ i < i' := by
  intro less
  obtain ⟨-, -, before_lt⟩ := List.pairwise_append.mp chosen.ordered
  obtain ⟨-, ordered, -⟩ := List.pairwise_append.mp chosen'.ordered
  have absent : i ∉ before ++ i' :: rest' := by
    rw [List.mem_append, List.mem_cons]
    rintro (member | rfl | member)
    · exact Nat.lt_irrefl i (before_lt i member i List.mem_cons_self)
    · exact Nat.lt_irrefl i less
    · exact Nat.lt_asymm less ((List.pairwise_cons.mp ordered).1 i member)
  have member : i' ∈ before ++ i' :: rest' := List.mem_append_right _ List.mem_cons_self
  obtain ⟨j, inKept, earlier, hit⟩ :=
    chosen'.dropped (Nat.lt_trans less (chosen'.lt member)) absent
  exact ((chosen'.mem_iff i').mp member).2 j inKept (Nat.lt_trans earlier less)
    (byElement j i i' hit same)

/-- Two choices that keep the same elements keep the same positions. -/
theorem Chosen.eq_of_picked {kept' : List Nat} (chosen : Chosen hits xs.length kept)
    (chosen' : Chosen hits' xs.length kept') (byElement : ByElement hits xs)
    (byElement' : ByElement hits' xs) (same : picked xs kept = picked xs kept') :
    kept = kept' := by
  have elements : kept.map (xs[·]?) = kept'.map (xs[·]?) := by
    rw [← picked_map_some fun _ => chosen.lt, ← picked_map_some fun _ => chosen'.lt, same]
  suffices tails : ∀ before rest rest', kept = before ++ rest → kept' = before ++ rest' →
      rest.map (xs[·]?) = rest'.map (xs[·]?) → rest = rest' from
    tails [] kept kept' rfl rfl elements
  intro before rest
  induction rest generalizing before with
  | nil =>
    intro rest' _ _ agree
    exact (List.map_eq_nil_iff.mp agree.symm).symm
  | cons i rest ih =>
    intro rest' whole whole' agree
    cases rest' with
    | nil => cases agree
    | cons i' rest' =>
      obtain ⟨here, later⟩ := List.cons.inj agree
      subst whole
      subst whole'
      obtain rfl : i = i' := by
        have up := chosen.not_lt chosen' byElement' here
        have down := chosen'.not_lt chosen byElement here.symm
        omega
      rw [ih (before ++ [i]) rest' (List.append_cons before i rest)
        (List.append_cons before i rest') later]

theorem clash_append {j i : Nat} (before : j < i) (below : i < xs.length) :
    Clash conflict xs j i ↔ Clash conflict (xs ++ [x]) j i := by
  rw [Clash, Clash, List.getElem?_append_left below,
    List.getElem?_append_left (Nat.lt_trans before below)]

theorem clash_length {j : Nat} (below : j < xs.length) :
    Clash conflict (xs ++ [x]) j xs.length ↔ ∃ y, xs[j]? = some y ∧ conflict y x := by
  have last : (xs ++ [x])[xs.length]? = some x := by simp
  simp only [Clash, List.getElem?_append_left below, last, Option.some.injEq]
  constructor
  · rintro ⟨y, _, here, rfl, conflicting⟩
    exact ⟨y, here, conflicting⟩
  · rintro ⟨y, here, conflicting⟩
    exact ⟨y, x, here, rfl, conflicting⟩

end

/-! ## The scan -/

section

variable (conflict : α → α → Prop) [DecidableRel conflict]

/-- The scan, with the elements kept so far. -/
def greedyFrom (kept : List α) : List α → List α
  | [] => kept
  | x :: xs =>
    if ∀ k ∈ kept, ¬ conflict k x then greedyFrom (kept ++ [x]) xs else greedyFrom kept xs

def greedy (xs : List α) : List α := greedyFrom conflict [] xs

variable {conflict} {xs : List α} {x : α}

theorem greedyFrom_append (kept xs : List α) (x : α) :
    greedyFrom conflict kept (xs ++ [x]) =
      if ∀ k ∈ greedyFrom conflict kept xs, ¬ conflict k x then
        greedyFrom conflict kept xs ++ [x]
      else greedyFrom conflict kept xs := by
  induction xs generalizing kept with
  | nil => rfl
  | cons y ys ih =>
    rw [List.cons_append, greedyFrom, greedyFrom]
    by_cases free : ∀ k ∈ kept, ¬ conflict k y
    · rw [if_pos free, if_pos free, ih]
    · rw [if_neg free, if_neg free, ih]

theorem greedy_append (xs : List α) (x : α) :
    greedy conflict (xs ++ [x]) =
      if ∀ k ∈ greedy conflict xs, ¬ conflict k x then greedy conflict xs ++ [x]
      else greedy conflict xs :=
  greedyFrom_append [] xs x

/-- The scan keeps the elements at the positions of the greedy choice. -/
theorem greedy_chosen (conflict : α → α → Prop) [DecidableRel conflict] (xs : List α) :
    ∃ kept, Chosen (Clash conflict xs) xs.length kept ∧
      greedy conflict xs = picked xs kept := by
  induction xs using List.reverseRecOn with
  | nil => exact ⟨[], chosen_zero _, rfl⟩
  | append_singleton xs x ih =>
    obtain ⟨kept, chosen, scanned⟩ := ih
    have earlier : Chosen (Clash conflict (xs ++ [x])) xs.length kept :=
      chosen.congr fun j i before below => clash_append before below
    have last : (xs ++ [x])[xs.length]? = some x := by simp
    have same : picked (xs ++ [x]) kept = picked xs kept :=
      picked_append_left fun _ => chosen.lt
    rw [greedy_append, scanned, List.length_append, List.length_singleton]
    by_cases free : ∀ k ∈ picked xs kept, ¬ conflict k x
    · refine ⟨kept ++ [xs.length], earlier.keep fun j member clash => ?_, ?_⟩
      · obtain ⟨y, here, conflicting⟩ := (clash_length (chosen.lt member)).mp clash
        exact free y (mem_picked.mpr ⟨j, member, here⟩) conflicting
      · rw [if_pos free, picked_append_singleton last, same]
    · rw [if_neg free]
      push Not at free
      obtain ⟨y, member, conflicting⟩ := free
      obtain ⟨j, inKept, here⟩ := mem_picked.mp member
      refine ⟨kept, earlier.drop inKept ?_, same.symm⟩
      exact (clash_length (chosen.lt inKept)).mpr ⟨y, here, conflicting⟩

theorem greedy_sublist (xs : List α) : (greedy conflict xs).Sublist xs := by
  obtain ⟨kept, chosen, scanned⟩ := greedy_chosen conflict xs
  rw [scanned]
  exact chosen.picked_sublist

/-- In a list in strict order, an element is kept unless a kept one before it in that order
    conflicts with it. -/
theorem mem_greedy_iff {before : α → α → Prop} (ordered : xs.Pairwise before)
    (asymm : ∀ y x, before y x → ¬ before x y) :
    x ∈ greedy conflict xs ↔
      x ∈ xs ∧ ∀ y ∈ greedy conflict xs, before y x → ¬ conflict y x := by
  have irrefl : ∀ y, ¬ before y y := fun y self => asymm y y self self
  induction xs using List.reverseRecOn with
  | nil => simp [greedy, greedyFrom]
  | append_singleton xs z ih =>
    obtain ⟨front, -, last⟩ := List.pairwise_append.mp ordered
    have behind : ∀ y ∈ xs, before y z := fun y member => last y member z List.mem_cons_self
    have scanned : ∀ y ∈ greedy conflict xs, y ∈ xs :=
      fun y member => (greedy_sublist xs).subset member
    have rule := ih front
    rw [greedy_append]
    by_cases free : ∀ k ∈ greedy conflict xs, ¬ conflict k z
    · rw [if_pos free]
      simp only [List.mem_append, List.mem_singleton, or_imp, forall_and, forall_eq]
      constructor
      · rintro (member | rfl)
        · obtain ⟨inXs, clear⟩ := rule.mp member
          exact ⟨Or.inl inXs, clear, fun first => absurd (behind x inXs) (asymm _ _ first)⟩
        · exact ⟨Or.inr rfl, fun y member _ => free y member, fun self => absurd self (irrefl x)⟩
      · rintro ⟨inXs | rfl, clear, -⟩
        · exact Or.inl (rule.mpr ⟨inXs, clear⟩)
        · exact Or.inr rfl
    · rw [if_neg free, List.mem_append, List.mem_singleton]
      refine rule.trans (and_congr_left fun clear => ⟨Or.inl, ?_⟩)
      rintro (inXs | rfl)
      · exact inXs
      · exact absurd (fun k member => clear k member (behind k (scanned k member))) free

end

end CviRuntime.Greedy
