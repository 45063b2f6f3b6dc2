import CviRuntime.CpuFunction.Overlap
import Mathlib.Algebra.Order.Ring.Rat
import Mathlib.Data.List.FinRange

/-!
# Suppression in the proposal layer (`src/common/cpu_function/proposal.cpp`)

`anchor_box_nms` erases boxes from a vector while two indices go over it. Both step back when the
element at them is gone, the outer one through the largest value of `size_t` when it is at the
front. The bound of the outer loop is the size minus one, which an empty vector does not have.
-/

namespace CviRuntime.CpuFunction

/-- Ways in which the loops do not come to an end. -/
inductive ScanFault where
  | outOfRange
  | outOfFuel
  deriving DecidableEq, Repr

/-- `i++` and `i--` on a `size_t`. -/
def sizeSucc (i : Nat) : Nat := (i + 1) % 2 ^ 64
def sizePred (i : Nat) : Nat := (i + (2 ^ 64 - 1)) % 2 ^ 64

/-- An element of a vector. -/
def elementAt {γ : Type*} (xs : List γ) (i : Nat) : Except ScanFault γ :=
  match xs[i]? with
  | some x => .ok x
  | none => .error .outOfRange

section

variable {α : Type*} [Field α] [LinearOrder α]

/-- The inner loop (`proposal.cpp:112-143`): the vectors after it, and the outer index. -/
def anchorInner (nmsThreshold : α) :
    Nat → Nat → Nat → List (Coord α) → List α → Except ScanFault (List (Coord α) × List α × Nat)
  | 0, _, _, _, _ => .error .outOfFuel
  | fuel + 1, i, j, predBoxes, confidence =>
    if j < predBoxes.length then do
      if coordOver nmsThreshold (← elementAt predBoxes i) (← elementAt predBoxes j) then
        if (← elementAt confidence i) ≥ (← elementAt confidence j) then
          anchorInner nmsThreshold fuel i (sizeSucc (sizePred j)) (predBoxes.eraseIdx j)
            (confidence.eraseIdx j)
        else
          -- `i--; break`
          .ok (predBoxes.eraseIdx i, confidence.eraseIdx i, sizePred i)
      else anchorInner nmsThreshold fuel i (sizeSucc j) predBoxes confidence
    else .ok (predBoxes, confidence, i)

/-- The outer loop (`proposal.cpp:109-144`). -/
def anchorOuter (nmsThreshold : α) :
    Nat → Nat → List (Coord α) → List α → Except ScanFault (List (Coord α) × List α)
  | 0, _, _, _ => .error .outOfFuel
  | fuel + 1, i, predBoxes, confidence =>
    if i < sizePred predBoxes.length then do
      -- `s1`, whether or not there is a second box
      let _ ← elementAt predBoxes i
      let (predBoxes, confidence, i) ←
        anchorInner nmsThreshold (predBoxes.length + 1) i (sizeSucc i) predBoxes confidence
      anchorOuter nmsThreshold fuel (sizeSucc i) predBoxes confidence
    else .ok (predBoxes, confidence)

/-- `anchor_box_nms` (`proposal.cpp:107-145`), with as many rounds as there are boxes and one. -/
def anchorBoxNms (predBoxes : List (Coord α)) (confidence : List α) (nmsThreshold : α) :
    Except ScanFault (List (Coord α) × List α) :=
  anchorOuter nmsThreshold (predBoxes.length + 1) 0 predBoxes confidence

end

/-! ## Indices -/

theorem sizeSucc_of_lt {i : Nat} (small : i + 1 < 2 ^ 64) : sizeSucc i = i + 1 :=
  Nat.mod_eq_of_lt small

/-- Stepping back and on again, also at the front. -/
theorem sizeSucc_sizePred {i : Nat} (small : i < 2 ^ 64) : sizeSucc (sizePred i) = i := by
  rw [sizeSucc, sizePred]
  omega

theorem sizePred_of_pos {n : Nat} (positive : 0 < n) (small : n < 2 ^ 64) :
    sizePred n = n - 1 := by
  rw [sizePred]
  omega

theorem elementAt_map {ε γ : Type*} (f : ε → γ) (front rest : List ε) (x : ε) {i : Nat}
    (here : i = front.length) : elementAt ((front ++ x :: rest).map f) i = .ok (f x) := by
  simp [elementAt, here]

theorem eraseIdx_map {ε γ : Type*} (f : ε → γ) (front rest : List ε) (x : ε) {i : Nat}
    (here : i = front.length) :
    ((front ++ x :: rest).map f).eraseIdx i = (front ++ rest).map f := by
  rw [List.map_append, List.map_append, List.map_cons,
    List.eraseIdx_append_of_length_le (by rw [List.length_map, here]), List.length_map, here,
    Nat.sub_self, List.eraseIdx_cons_zero]

/-! ## The loops on elements

The elements may be anything that has a box and a confidence; for the result about positions they
are the positions.
-/

section

variable {α ε : Type*} [Field α] [LinearOrder α] (t : α) (box : ε → Coord α) (conf : ε → α)

/-- The box of one element overlaps that of another by more than the threshold. -/
def ElementsOverlap (x y : ε) : Prop := coordOver t (box x) (box y) = true

/-- Another element of the pool overlaps this one and is no worse. -/
def Beaten (pool : List ε) (y : ε) : Prop :=
  ∃ z ∈ pool, z ≠ y ∧ ElementsOverlap t box y z ∧ conf y ≤ conf z

variable {t} {box} {conf}

theorem elementsOverlap_comm {x y : ε} :
    ElementsOverlap t box x y ↔ ElementsOverlap t box y x := by
  rw [ElementsOverlap, ElementsOverlap, coordOver_comm]

/-- One comparison, of the element `x` at the outer index with the element `y` at the inner one. -/
theorem anchorInner_cons (fuel : Nat) (front mid rest : List ε) (x y : ε)
    (small : (front ++ x :: mid ++ y :: rest).length < 2 ^ 64) :
    anchorInner t (fuel + 1) front.length (front.length + 1 + mid.length)
        ((front ++ x :: mid ++ y :: rest).map box) ((front ++ x :: mid ++ y :: rest).map conf) =
      if coordOver t (box x) (box y) then
        if conf x ≥ conf y then
          anchorInner t fuel front.length (front.length + 1 + mid.length)
            ((front ++ x :: mid ++ rest).map box) ((front ++ x :: mid ++ rest).map conf)
        else .ok ((front ++ mid ++ y :: rest).map box, (front ++ mid ++ y :: rest).map conf,
          sizePred front.length)
      else
        anchorInner t fuel front.length (front.length + 1 + (mid ++ [y]).length)
          ((front ++ x :: (mid ++ [y]) ++ rest).map box)
          ((front ++ x :: (mid ++ [y]) ++ rest).map conf) := by
  simp only [List.length_append, List.length_cons] at small
  have inside : front.length + 1 + mid.length <
      ((front ++ x :: mid ++ y :: rest).map box).length := by
    simp only [List.length_map, List.length_append, List.length_cons]
    omega
  have inner : front.length + 1 + mid.length = (front ++ x :: mid).length := by
    simp only [List.length_append, List.length_cons]
    omega
  have atX : ∀ {γ : Type _} (f : ε → γ),
      elementAt ((front ++ x :: mid ++ y :: rest).map f) front.length = .ok (f x) := fun f => by
    rw [List.append_assoc, List.cons_append]
    exact elementAt_map f front _ x rfl
  have eraseX : ∀ {γ : Type _} (f : ε → γ),
      ((front ++ x :: mid ++ y :: rest).map f).eraseIdx front.length =
        (front ++ mid ++ y :: rest).map f := fun f => by
    rw [List.append_assoc, List.cons_append, eraseIdx_map f front _ x rfl, List.append_assoc]
  have onward : sizeSucc (front.length + 1 + mid.length) =
      front.length + 1 + (mid ++ [y]).length := by
    rw [sizeSucc_of_lt (by omega), List.length_append, List.length_singleton, Nat.add_assoc _ _ 1]
  have compared : front ++ x :: (mid ++ [y]) ++ rest = front ++ x :: mid ++ y :: rest := by
    simp only [List.append_assoc, List.cons_append, List.nil_append]
  rw [anchorInner, if_pos inside, atX, elementAt_map box _ _ _ inner, atX,
    elementAt_map conf _ _ _ inner,
    eraseX, eraseX, eraseIdx_map box _ _ _ inner, eraseIdx_map conf _ _ _ inner,
    sizeSucc_sizePred (by omega), onward, compared]
  rfl

/-- The inner loop, with `x` at the outer index and `mid` behind it already compared. What it drops
    overlaps `x` and is no better; then either nothing that is left overlaps `x`, or `x` is dropped
    for something better. -/
theorem anchorInner_spec (box : ε → Coord α) (conf : ε → α) (fuel : Nat)
    (front mid rest : List ε) (x : ε)
    (enough : rest.length < fuel) (small : (front ++ x :: mid ++ rest).length < 2 ^ 64)
    (clear : ∀ y ∈ mid, ¬ ElementsOverlap t box x y) :
    ∃ rest', rest'.Sublist rest ∧
      (∀ y ∈ rest, y ∈ rest' ∨ (ElementsOverlap t box x y ∧ conf y ≤ conf x)) ∧
      ((anchorInner t fuel front.length (front.length + 1 + mid.length)
            ((front ++ x :: mid ++ rest).map box) ((front ++ x :: mid ++ rest).map conf) =
          .ok ((front ++ x :: mid ++ rest').map box, (front ++ x :: mid ++ rest').map conf,
            front.length) ∧ ∀ y ∈ mid ++ rest', ¬ ElementsOverlap t box x y) ∨
        (anchorInner t fuel front.length (front.length + 1 + mid.length)
            ((front ++ x :: mid ++ rest).map box) ((front ++ x :: mid ++ rest).map conf) =
          .ok ((front ++ mid ++ rest').map box, (front ++ mid ++ rest').map conf,
            sizePred front.length) ∧
          ∃ y ∈ rest', ElementsOverlap t box x y ∧ conf x < conf y)) := by
  induction rest generalizing fuel mid with
  | nil =>
    obtain ⟨fuel, rfl⟩ := Nat.exists_eq_succ_of_ne_zero (Nat.ne_zero_of_lt enough)
    refine ⟨[], List.Sublist.refl _, fun y member => absurd member List.not_mem_nil,
      Or.inl ⟨?_, by simpa using clear⟩⟩
    have past : ¬ front.length + 1 + mid.length < ((front ++ x :: mid ++ []).map box).length := by
      simp only [List.length_map, List.length_append, List.length_cons, List.length_nil]
      omega
    rw [Nat.succ_eq_add_one, anchorInner, if_neg past]
  | cons y rest ih =>
    obtain ⟨fuel, rfl⟩ := Nat.exists_eq_succ_of_ne_zero (Nat.ne_zero_of_lt enough)
    have enough' : rest.length < fuel := Nat.lt_of_succ_lt_succ enough
    rw [Nat.succ_eq_add_one, anchorInner_cons fuel front mid rest x y small]
    simp only [List.length_append, List.length_cons] at small
    by_cases overlap : coordOver t (box x) (box y) = true
    · rw [if_pos overlap]
      by_cases better : conf x ≥ conf y
      · rw [if_pos better]
        obtain ⟨rest', sublist, dropped, outcome⟩ := ih fuel mid enough'
          (by simp only [List.length_append, List.length_cons]; omega) clear
        refine ⟨rest', sublist.cons y, ?_, outcome⟩
        rw [List.forall_mem_cons]
        exact ⟨Or.inr ⟨overlap, better⟩, dropped⟩
      · rw [if_neg better]
        refine ⟨y :: rest, List.Sublist.refl _, fun _ => Or.inl, Or.inr ⟨rfl, ?_⟩⟩
        exact ⟨y, List.mem_cons_self, overlap, not_le.mp better⟩
    · rw [if_neg overlap]
      obtain ⟨rest', sublist, dropped, outcome⟩ := ih fuel (mid ++ [y]) enough'
        (by simp only [List.length_append, List.length_cons, List.length_nil]; omega) (by
          intro z member
          rcases List.mem_append.mp member with member | last
          · exact clear z member
          · rw [List.mem_singleton.mp last]
            exact overlap)
      refine ⟨y :: rest', sublist.cons_cons y, ?_, ?_⟩
      · rw [List.forall_mem_cons]
        exact ⟨Or.inl List.mem_cons_self, fun z member =>
          (dropped z member).imp_left (List.mem_cons_of_mem y)⟩
      · have withX : front ++ x :: (mid ++ [y]) ++ rest' = front ++ x :: mid ++ y :: rest' := by
          simp only [List.append_assoc, List.cons_append, List.nil_append]
        have withoutX : front ++ (mid ++ [y]) ++ rest' = front ++ mid ++ y :: rest' := by
          simp only [List.append_assoc, List.cons_append, List.nil_append]
        have behind : mid ++ [y] ++ rest' = mid ++ y :: rest' :=
          (List.append_cons mid y rest').symm
        rw [withX, withoutX, behind] at outcome
        refine outcome.imp id fun lost => ⟨lost.1, ?_⟩
        obtain ⟨z, member, more⟩ := lost.2
        exact ⟨z, List.mem_cons_of_mem y member, more⟩

theorem Beaten.mono {pool pool' : List ε} {y : ε} (beaten : Beaten t box conf pool y)
    (subset : ∀ z ∈ pool, z ∈ pool') : Beaten t box conf pool' y := by
  obtain ⟨z, member, more⟩ := beaten
  exact ⟨z, subset z member, more⟩

/-- What the inner loop with `x` drops is beaten by `x`. -/
theorem left_or_beaten {x : ε} {rest rest' todo' : List ε} (subset : ∀ y ∈ rest', y ∈ rest)
    (differ : ∀ y ∈ rest, x ≠ y)
    (dropped : ∀ y ∈ rest, y ∈ rest' ∨ (ElementsOverlap t box x y ∧ conf y ≤ conf x))
    (later : ∀ y ∈ rest', y ∈ todo' ∨ Beaten t box conf rest' y) :
    ∀ y ∈ rest, y ∈ todo' ∨ Beaten t box conf (x :: rest) y := by
  intro y member
  obtain left | ⟨overlap, better⟩ := dropped y member
  · exact (later y left).imp_right fun beaten =>
      beaten.mono fun z inRest => List.mem_cons_of_mem x (subset z inRest)
  · exact Or.inr ⟨x, List.mem_cons_self, differ y member, elementsOverlap_comm.mp overlap, better⟩

/-- An element that nothing left overlaps joins those already decided. -/
theorem decided_concat {front rest rest' : List ε} {x : ε} (subset : ∀ y ∈ rest', y ∈ rest)
    (clear : front.Pairwise fun x y => ¬ ElementsOverlap t box x y)
    (apart : ∀ z ∈ front, ∀ y ∈ x :: rest, ¬ ElementsOverlap t box z y)
    (kept : ∀ y ∈ rest', ¬ ElementsOverlap t box x y) :
    ((front ++ [x]).Pairwise fun x y => ¬ ElementsOverlap t box x y) ∧
      ∀ z ∈ front ++ [x], ∀ y ∈ rest', ¬ ElementsOverlap t box z y := by
  constructor
  · refine List.pairwise_append.mpr ⟨clear, List.pairwise_singleton _ _, ?_⟩
    intro z member y inLast
    rw [List.mem_singleton.mp inLast]
    exact apart z member x List.mem_cons_self
  · intro z member y inRest
    obtain member | inLast := List.mem_append.mp member
    · exact apart z member y (List.mem_cons_of_mem x (subset y inRest))
    · rw [List.mem_singleton.mp inLast]
      exact kept y inRest

/-- The outer loop, with `front` already decided. -/
theorem anchorOuter_spec (box : ε → Coord α) (conf : ε → α) (fuel : Nat) (front todo : List ε)
    (enough : todo.length < fuel)
    (nonempty : 0 < (front ++ todo).length) (small : (front ++ todo).length < 2 ^ 64)
    (distinct : todo.Nodup) (clear : front.Pairwise fun x y => ¬ ElementsOverlap t box x y)
    (apart : ∀ x ∈ front, ∀ y ∈ todo, ¬ ElementsOverlap t box x y) :
    ∃ todo', todo'.Sublist todo ∧
      anchorOuter t fuel front.length ((front ++ todo).map box) ((front ++ todo).map conf) =
        .ok ((front ++ todo').map box, (front ++ todo').map conf) ∧
      (front ++ todo').Pairwise (fun x y => ¬ ElementsOverlap t box x y) ∧
      ∀ y ∈ todo, y ∈ todo' ∨ Beaten t box conf todo y := by
  induction fuel generalizing front todo with
  | zero => omega
  | succ fuel ih =>
    have size : sizePred ((front ++ todo).map box).length = (front ++ todo).length - 1 := by
      rw [List.length_map, sizePred_of_pos nonempty small]
    rw [anchorOuter, size, List.length_append]
    by_cases last : front.length < front.length + todo.length - 1
    · obtain ⟨x, rest, rfl⟩ : ∃ x rest, todo = x :: rest :=
        List.exists_cons_of_length_pos (by omega)
      obtain ⟨fresh, distinct'⟩ := List.nodup_cons.mp distinct
      have differ : ∀ y ∈ rest, x ≠ y := fun y member same => fresh (same ▸ member)
      obtain ⟨rest', sublist, dropped, outcome⟩ := anchorInner_spec (t := t) box conf
        (((front ++ x :: rest).map box).length + 1) front [] rest x
        (by simp; omega) (by simpa using small) (List.forall_mem_nil _)
      have shorter := sublist.length_le
      have subset : ∀ y ∈ rest', y ∈ rest := fun y member => sublist.subset member
      simp only [List.length_append, List.length_cons, List.append_assoc, List.cons_append,
        List.nil_append, List.length_nil, Nat.add_zero] at outcome small enough
      rw [if_pos last, elementAt_map box front rest x rfl, sizeSucc_of_lt (by omega)]
      rcases outcome with ⟨runs, kept⟩ | ⟨runs, best, member, overlap, better⟩
      · -- `x` is kept
        obtain ⟨clear', apart'⟩ := decided_concat subset clear apart kept
        obtain ⟨todo', sublist', runs', clear'', later⟩ := ih (front ++ [x]) rest' (by omega)
          (by simp) (by simp; omega) (distinct'.sublist sublist) clear' apart'
        rw [List.append_assoc, List.append_assoc, List.singleton_append, List.singleton_append,
          List.length_append, List.length_singleton] at runs'
        rw [List.append_assoc, List.singleton_append] at clear''
        refine ⟨x :: todo', (sublist'.trans sublist).cons_cons x, ?_, clear'', ?_⟩
        · simp only [bind, Except.bind, runs]
          rw [sizeSucc_of_lt (by omega)]
          exact runs'
        · rw [List.forall_mem_cons]
          exact ⟨Or.inl List.mem_cons_self, left_or_beaten subset differ dropped fun y left =>
            (later y left).imp_left (List.mem_cons_of_mem x)⟩
      · -- `x` is dropped
        obtain ⟨todo', sublist', runs', clear', later⟩ := ih front rest' (by omega)
          (by have := List.length_pos_of_mem member; simp; omega) (by simp; omega)
          (distinct'.sublist sublist) clear fun z inFront y inRest =>
            apart z inFront y (List.mem_cons_of_mem x (subset y inRest))
        refine ⟨todo', (sublist'.trans sublist).cons x, ?_, clear', ?_⟩
        · simp only [bind, Except.bind, runs]
          rw [sizeSucc_sizePred (by omega)]
          exact runs'
        · rw [List.forall_mem_cons]
          refine ⟨Or.inr ⟨best, List.mem_cons_of_mem x (subset best member),
            (differ best (subset best member)).symm, overlap, better.le⟩, ?_⟩
          exact left_or_beaten subset differ dropped later
    · rw [if_neg last]
      refine ⟨todo, List.Sublist.refl _, rfl, ?_, fun y member => Or.inl member⟩
      have single : todo.Pairwise fun x y => ¬ ElementsOverlap t box x y := by
        cases todo with
        | nil => exact List.Pairwise.nil
        | cons x rest =>
          rw [List.length_cons] at last
          have none : rest = [] := List.eq_nil_of_length_eq_zero (by omega)
          rw [none]
          exact List.pairwise_singleton _ _
      exact List.pairwise_append.mpr ⟨clear, single, apart⟩

end

/-! ## The whole function -/

section

variable {α : Type*} [Field α] [LinearOrder α]

/-- The loops end without leaving the vectors; what is left are the boxes at some positions, in
    order, with their confidences; no two of them overlap by more than the threshold, and each of
    the others overlaps another one of at least its confidence. -/
def AnchorSound (predBoxes : List (Coord α)) (confidence : List α) (nmsThreshold : α)
    (aligned : predBoxes.length = confidence.length) : Prop :=
  let box := fun p : Fin predBoxes.length => predBoxes.get p
  let conf := fun p : Fin predBoxes.length => confidence.get (p.cast aligned)
  ∃ kept : List (Fin predBoxes.length), kept.Sublist (List.finRange predBoxes.length) ∧
    anchorBoxNms predBoxes confidence nmsThreshold = .ok (kept.map box, kept.map conf) ∧
    kept.Pairwise (fun p q => ¬ coordOver nmsThreshold (box p) (box q) = true) ∧
    ∀ p, p ∈ kept ∨
      ∃ q, q ≠ p ∧ coordOver nmsThreshold (box p) (box q) = true ∧ conf p ≤ conf q

/-- On no boxes the first access is outside: the size minus one is the largest `size_t`. -/
theorem anchorBoxNms_nil (confidence : List α) (t : α) :
    anchorBoxNms [] confidence t = .error .outOfRange := by
  have below : 0 < sizePred 0 := by decide
  rw [anchorBoxNms, anchorOuter, List.length_nil, if_pos below]
  rfl

/-- With boxes the function is sound, without it leaves the vector. -/
theorem anchorBoxNms_sound_iff (predBoxes : List (Coord α)) (confidence : List α) (t : α)
    (aligned : predBoxes.length = confidence.length) (small : predBoxes.length < 2 ^ 64) :
    AnchorSound predBoxes confidence t aligned ↔ predBoxes ≠ [] := by
  constructor
  · rintro ⟨kept, -, runs, -⟩ rfl
    rw [anchorBoxNms_nil] at runs
    cases runs
  · intro nonempty
    have boxes : (List.finRange predBoxes.length).map predBoxes.get = predBoxes :=
      List.map_get_finRange predBoxes
    have confs : (List.finRange predBoxes.length).map
        (fun p => confidence.get (p.cast aligned)) = confidence := by
      refine List.ext_getElem (by simp [aligned]) fun i _ _ => ?_
      simp
    obtain ⟨kept, sublist, runs, apart, dropped⟩ := anchorOuter_spec (t := t)
      predBoxes.get (fun p => confidence.get (p.cast aligned))
      (predBoxes.length + 1) [] (List.finRange predBoxes.length) (by simp)
      (by simpa using List.length_pos_iff.mpr nonempty) (by simpa using small)
      (List.nodup_finRange _) List.Pairwise.nil (List.forall_mem_nil _)
    rw [List.nil_append, List.nil_append, boxes, confs] at runs
    refine ⟨kept, sublist, runs, apart, fun p => ?_⟩
    refine (dropped p (List.mem_finRange p)).imp_right fun lost => ?_
    obtain ⟨q, -, more⟩ := lost
    exact ⟨q, more⟩

/-- The second of three boxes is the best; the first is erased at index 0. -/
theorem anchorBoxNms_sound_iff_three :
    AnchorSound [⟨0, 0, 8, 8⟩, ⟨1, 0, 9, 8⟩, ⟨20, 0, 28, 8⟩] [1 / 2, 3 / 4, 1 / 4] (1 / 2 : ℚ) rfl ↔
      [(⟨0, 0, 8, 8⟩ : Coord ℚ), ⟨1, 0, 9, 8⟩, ⟨20, 0, 28, 8⟩] ≠ [] :=
  anchorBoxNms_sound_iff _ _ (1 / 2) rfl (by decide)

/-- An image in which no anchor passes the threshold. -/
theorem anchorBoxNms_noAnchor : ¬ AnchorSound [] [] (1 / 2 : ℚ) rfl := by
  rintro ⟨kept, -, runs, -⟩
  rw [anchorBoxNms_nil] at runs
  cases runs

end

end CviRuntime.CpuFunction
