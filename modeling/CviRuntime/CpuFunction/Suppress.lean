import CviRuntime.CpuFunction.Overlap
import Mathlib.Algebra.Order.Ring.Rat
import Mathlib.Data.List.Forall2

/-!
# Suppression in place (`yolo_detection.cpp`, `frcn_detection.cpp`)

Both files have a function `nms` that goes over all pairs of detections in the order of the array
and erases one of two that overlap by setting its score to 0. The two differ in how they measure
the overlap, and an assertion on the measure may fail.
-/

namespace CviRuntime.CpuFunction

/-- `detection` of `yolo_detection.cpp:20-24` and `detections` of `frcn_detection.cpp:15-19`. -/
structure Detection (β α : Type*) where
  bbox : β
  cls : Int
  score : α
  deriving DecidableEq, Repr

section

variable {α β : Type*} [Zero α]

/-- An erased detection: `score = 0`. -/
def Detection.erase (d : Detection β α) : Detection β α := { d with score := 0 }

@[simp] theorem Detection.erase_bbox (d : Detection β α) : d.erase.bbox = d.bbox := rfl
@[simp] theorem Detection.erase_cls (d : Detection β α) : d.erase.cls = d.cls := rfl
@[simp] theorem Detection.erase_score (d : Detection β α) : d.erase.score = 0 := rfl

theorem Detection.erase_eq {d : Detection β α} (erased : d.score = 0) : d.erase = d := by
  cases d
  cases erased
  rfl

end

/-! ## The loops -/

section

variable {α β : Type*} [Zero α] [LinearOrder α]

/-- The inner loop, for an outer detection `d` and those behind it (`yolo_detection.cpp:199-218`,
    `frcn_detection.cpp:57-88`). `above` is the comparison of the overlap with the threshold; `none`
    where its assertion fails. -/
def nmsInner (above : β → β → Option Bool) (d : Detection β α) :
    List (Detection β α) → Option (Detection β α × List (Detection β α))
  | [] => some (d, [])
  | e :: rest =>
    if e.score = 0 then
      -- erased already
      (nmsInner above d rest).map fun r => (r.1, e :: r.2)
    else if d.cls ≠ e.cls then
      -- not the same class
      (nmsInner above d rest).map fun r => (r.1, e :: r.2)
    else (above d.bbox e.bbox).bind fun hit =>
      if hit then
        -- overlapped, select one to erase
        if d.score < e.score then (nmsInner above d.erase rest).map fun r => (r.1, e :: r.2)
        else (nmsInner above d rest).map fun r => (r.1, e.erase :: r.2)
      else (nmsInner above d rest).map fun r => (r.1, e :: r.2)

/-- The outer loop, above what is left of the array. -/
def nmsOuter (above : β → β → Option Bool) :
    Nat → List (Detection β α) → Option (List (Detection β α))
  | 0, dets => some dets
  | _ + 1, [] => some []
  | num + 1, d :: rest =>
    if d.score = 0 then (nmsOuter above num rest).map (d :: ·)
    else (nmsInner above d rest).bind fun r => (nmsOuter above num r.2).map (r.1 :: ·)

def nmsInPlace (above : β → β → Option Bool) (dets : List (Detection β α)) :
    Option (List (Detection β α)) :=
  nmsOuter above dets.length dets

/-! ## The same with a comparison that always has a result -/

/-- The inner loop. -/
def suppressInner (hits : β → β → Bool) (d : Detection β α) :
    List (Detection β α) → Detection β α × List (Detection β α)
  | [] => (d, [])
  | e :: rest =>
    if e.score = 0 then
      let r := suppressInner hits d rest
      (r.1, e :: r.2)
    else if d.cls ≠ e.cls then
      let r := suppressInner hits d rest
      (r.1, e :: r.2)
    else if hits d.bbox e.bbox then
      if d.score < e.score then
        let r := suppressInner hits d.erase rest
        (r.1, e :: r.2)
      else
        let r := suppressInner hits d rest
        (r.1, e.erase :: r.2)
    else
      let r := suppressInner hits d rest
      (r.1, e :: r.2)

/-- The outer loop. -/
def suppressOuter (hits : β → β → Bool) : Nat → List (Detection β α) → List (Detection β α)
  | 0, dets => dets
  | _ + 1, [] => []
  | num + 1, d :: rest =>
    if d.score = 0 then d :: suppressOuter hits num rest
    else
      let r := suppressInner hits d rest
      r.1 :: suppressOuter hits num r.2

def suppress (hits : β → β → Bool) (dets : List (Detection β α)) : List (Detection β α) :=
  suppressOuter hits dets.length dets

/-- Two detections of one class that overlap by more than the threshold. -/
def Overlaps (hits : β → β → Bool) (d e : Detection β α) : Prop :=
  d.cls = e.cls ∧ hits d.bbox e.bbox = true

instance (hits : β → β → Bool) : DecidableRel (Overlaps (α := α) hits) :=
  fun _ _ => inferInstanceAs (Decidable (_ ∧ _))

/-- The detections that are left. -/
def survivors (dets : List (Detection β α)) : List (Detection β α) :=
  dets.filter fun d => 0 < d.score

/-- What suppression promises: the array is the one before with some scores erased, no two of the
    others overlap, each erased one overlaps another of its class that scored at least as much, and
    the best of a class is left. -/
structure Suppressed (hits : β → β → Bool) (dets out : List (Detection β α)) : Prop where
  unchanged : List.Forall₂ (fun d d' => d' = d ∨ d' = d.erase) dets out
  apart : out.Pairwise fun d e => 0 < d.score → 0 < e.score → ¬ Overlaps hits d e
  erased : ∀ (i : Nat) (d : Detection β α), dets[i]? = some d → out[i]? = some d.erase →
    ∃ (j : Nat) (e : Detection β α), j ≠ i ∧ dets[j]? = some e ∧ Overlaps hits d e ∧
      d.score ≤ e.score
  best : ∀ (i : Nat) (d : Detection β α), dets[i]? = some d →
    (∀ (j : Nat) (e : Detection β α), j ≠ i → dets[j]? = some e → e.cls = d.cls →
      e.score < d.score) → out[i]? = some d

end

/-! ## The inner loop -/

section

variable {α β : Type*} [Zero α] [LinearOrder α] {hits : β → β → Bool} {d e : Detection β α}
  {rest : List (Detection β α)}

omit [Zero α] [LinearOrder α] in
theorem overlaps_comm (symmetric : ∀ a b, hits a b = hits b a) :
    Overlaps hits d e ↔ Overlaps hits e d := by
  rw [Overlaps, Overlaps, symmetric, eq_comm]

theorem suppressInner_skip (skip : e.score = 0 ∨ ¬ Overlaps hits d e) :
    suppressInner hits d (e :: rest) =
      ((suppressInner hits d rest).1, e :: (suppressInner hits d rest).2) := by
  rw [suppressInner]
  by_cases erased : e.score = 0
  · rw [if_pos erased]
  · rw [if_neg erased]
    by_cases differ : d.cls ≠ e.cls
    · rw [if_pos differ]
    · rw [if_neg differ]
      have apart : ¬ hits d.bbox e.bbox = true := fun overlap =>
        (skip.resolve_left erased) ⟨not_not.mp differ, overlap⟩
      rw [if_neg apart]

theorem suppressInner_outer (alive : e.score ≠ 0) (overlap : Overlaps hits d e)
    (worse : d.score < e.score) :
    suppressInner hits d (e :: rest) =
      ((suppressInner hits d.erase rest).1, e :: (suppressInner hits d.erase rest).2) := by
  rw [suppressInner, if_neg alive, if_neg (not_not.mpr overlap.1), if_pos overlap.2, if_pos worse]

theorem suppressInner_inner (rest : List (Detection β α)) (alive : e.score ≠ 0)
    (overlap : Overlaps hits d e)
    (better : e.score ≤ d.score) :
    suppressInner hits d (e :: rest) =
      ((suppressInner hits d rest).1, e.erase :: (suppressInner hits d rest).2) := by
  rw [suppressInner, if_neg alive, if_neg (not_not.mpr overlap.1), if_pos overlap.2,
    if_neg (not_lt.mpr better)]

/-- An outer detection that is erased in its own loop erases no other from there on. -/
theorem suppressInner_dead (dead : d.score = 0) (nonneg : ∀ e ∈ rest, 0 ≤ e.score) :
    suppressInner hits d rest = (d, rest) := by
  induction rest with
  | nil => rfl
  | cons e rest ih =>
    obtain ⟨first, others⟩ := List.forall_mem_cons.mp nonneg
    by_cases skip : e.score = 0 ∨ ¬ Overlaps hits d e
    · rw [suppressInner_skip skip, ih others]
    · push Not at skip
      obtain ⟨alive, overlap⟩ := skip
      have worse : d.score < e.score := by
        rw [dead]
        exact lt_of_le_of_ne first alive.symm
      rw [suppressInner_outer alive overlap worse, Detection.erase_eq dead, ih others]

/-- What the inner loop does to a detection behind the outer one. -/
theorem suppressInner_forall₂ (hits : β → β → Bool) (d : Detection β α)
    (nonneg : ∀ e ∈ rest, 0 ≤ e.score) :
    List.Forall₂ (fun e e' => e' = e ∨
      (e' = e.erase ∧ e.score ≠ 0 ∧ Overlaps hits d e ∧ e.score ≤ d.score)) rest
      (suppressInner hits d rest).2 := by
  induction rest with
  | nil => exact List.Forall₂.nil
  | cons e rest ih =>
    obtain ⟨first, others⟩ := List.forall_mem_cons.mp nonneg
    by_cases skip : e.score = 0 ∨ ¬ Overlaps hits d e
    · rw [suppressInner_skip skip]
      exact List.Forall₂.cons (Or.inl rfl) (ih others)
    · push Not at skip
      obtain ⟨alive, overlap⟩ := skip
      rcases lt_or_ge d.score e.score with worse | better
      · rw [suppressInner_outer alive overlap worse, suppressInner_dead d.erase_score others]
        exact List.Forall₂.cons (Or.inl rfl) (List.forall₂_same.mpr fun _ _ => Or.inl rfl)
      · rw [suppressInner_inner rest alive overlap better]
        exact List.Forall₂.cons (Or.inr ⟨rfl, alive, overlap, better⟩) (ih others)

/-- What the inner loop does to the outer detection: it is erased by a better one, or what is left
    behind it does not overlap it. -/
theorem suppressInner_fst (hits : β → β → Bool) (d : Detection β α)
    (nonneg : ∀ e ∈ rest, 0 ≤ e.score) :
    ((suppressInner hits d rest).1 = d ∧
      ∀ e ∈ (suppressInner hits d rest).2, e.score ≠ 0 → ¬ Overlaps hits d e) ∨
    ((suppressInner hits d rest).1 = d.erase ∧
      ∃ e ∈ rest, Overlaps hits d e ∧ d.score < e.score) := by
  induction rest with
  | nil => exact Or.inl ⟨rfl, fun e member => absurd member List.not_mem_nil⟩
  | cons e rest ih =>
    obtain ⟨first, others⟩ := List.forall_mem_cons.mp nonneg
    by_cases skip : e.score = 0 ∨ ¬ Overlaps hits d e
    · rw [suppressInner_skip skip]
      rcases ih others with ⟨same, apart⟩ | ⟨gone, better, member, overlap, worse⟩
      · refine Or.inl ⟨same, ?_⟩
        rw [List.forall_mem_cons]
        exact ⟨fun alive => skip.resolve_left alive, apart⟩
      · exact Or.inr ⟨gone, better, List.mem_cons_of_mem _ member, overlap, worse⟩
    · push Not at skip
      obtain ⟨alive, overlap⟩ := skip
      rcases lt_or_ge d.score e.score with worse | better
      · rw [suppressInner_outer alive overlap worse, suppressInner_dead d.erase_score others]
        exact Or.inr ⟨rfl, e, List.mem_cons_self, overlap, worse⟩
      · rw [suppressInner_inner rest alive overlap better]
        rcases ih others with ⟨same, apart⟩ | ⟨gone, top, member, overlap', worse⟩
        · refine Or.inl ⟨same, ?_⟩
          rw [List.forall_mem_cons]
          exact ⟨fun alive' => absurd e.erase_score alive', apart⟩
        · exact Or.inr ⟨gone, top, List.mem_cons_of_mem _ member, overlap', worse⟩

end

/-! ## Erasures -/

theorem forall₂_getElem? {α β : Type*} {R : α → β → Prop} {l : List α} {l' : List β}
    (all : List.Forall₂ R l l') {i : Nat} {x : α} (here : l[i]? = some x) :
    ∃ x', l'[i]? = some x' ∧ R x x' := by
  induction all generalizing i with
  | nil => cases here
  | cons first _ ih =>
    cases i with
    | zero =>
      cases here
      exact ⟨_, rfl, first⟩
    | succ i => exact ih here

section

variable {α β : Type*} [Zero α]

/-- The second array is the first with some detections erased. -/
def Erasures (dets out : List (Detection β α)) : Prop :=
  List.Forall₂ (fun d d' => d' = d ∨ d' = d.erase) dets out

variable {dets mid out : List (Detection β α)}

theorem Erasures.refl (dets : List (Detection β α)) : Erasures dets dets :=
  List.forall₂_same.mpr fun _ _ => Or.inl rfl

theorem Erasures.trans (first : Erasures dets mid) (second : Erasures mid out) :
    Erasures dets out := by
  induction first generalizing out with
  | nil => exact second
  | cons here _ ih =>
    cases second with
    | cons here' rest' =>
      refine List.Forall₂.cons ?_ (ih rest')
      rcases here with rfl | rfl
      · exact here'
      · exact Or.inr (here'.elim id id)

/-- The detection at a position before, and after. -/
theorem Erasures.at_position (erasures : Erasures dets out) {i : Nat} {d : Detection β α}
    (here : dets[i]? = some d) : out[i]? = some d ∨ out[i]? = some d.erase := by
  obtain ⟨d', there, same | gone⟩ := forall₂_getElem? erasures here
  · exact Or.inl (same ▸ there)
  · exact Or.inr (gone ▸ there)

/-- A detection with a score was there before, at the same position. -/
theorem Erasures.alive (erasures : Erasures dets out) {i : Nat} {d : Detection β α}
    (here : out[i]? = some d) (alive : d.score ≠ 0) : dets[i]? = some d := by
  induction erasures generalizing i with
  | nil => cases here
  | cons first _ ih =>
    cases i with
    | zero =>
      cases here
      rcases first with rfl | rfl
      · rfl
      · exact absurd rfl alive
    | succ i => exact ih here

theorem Erasures.mem_alive (erasures : Erasures dets out) {d : Detection β α} (member : d ∈ out)
    (alive : d.score ≠ 0) : d ∈ dets := by
  obtain ⟨i, here⟩ := List.mem_iff_getElem?.mp member
  exact List.mem_iff_getElem?.mpr ⟨i, erasures.alive here alive⟩

theorem Erasures.nonneg [LinearOrder α] (erasures : Erasures dets out)
    (nonneg : ∀ d ∈ dets, 0 ≤ d.score) : ∀ d ∈ out, 0 ≤ d.score := by
  intro d member
  by_cases erased : d.score = 0
  · exact erased.ge
  · exact nonneg d (erasures.mem_alive member erased)

end

/-! ## The outer loop -/

section

variable {α β : Type*} [Zero α] [LinearOrder α] {hits : β → β → Bool}

theorem suppressInner_erasures {d : Detection β α} {rest : List (Detection β α)}
    (nonneg : ∀ e ∈ rest, 0 ≤ e.score) : Erasures rest (suppressInner hits d rest).2 :=
  (suppressInner_forall₂ hits d nonneg).imp fun _ _ outcome => outcome.imp id And.left

theorem suppressOuter_erasures (num : Nat) (dets : List (Detection β α))
    (nonneg : ∀ d ∈ dets, 0 ≤ d.score) : Erasures dets (suppressOuter hits num dets) := by
  induction num generalizing dets with
  | zero => exact Erasures.refl dets
  | succ num ih =>
    cases dets with
    | nil => exact List.Forall₂.nil
    | cons d rest =>
      obtain ⟨-, others⟩ := List.forall_mem_cons.mp nonneg
      rw [suppressOuter]
      by_cases erased : d.score = 0
      · rw [if_pos erased]
        exact List.Forall₂.cons (Or.inl rfl) (ih rest others)
      · rw [if_neg erased]
        have inner : Erasures rest (suppressInner hits d rest).2 := suppressInner_erasures others
        refine List.Forall₂.cons ?_ (inner.trans (ih _ (inner.nonneg others)))
        exact (suppressInner_fst hits d others).imp And.left And.left

/-- No two of those that are left overlap. -/
theorem suppressOuter_apart (num : Nat) (dets : List (Detection β α)) (enough : dets.length ≤ num)
    (nonneg : ∀ d ∈ dets, 0 ≤ d.score) :
    (suppressOuter hits num dets).Pairwise fun d e =>
      0 < d.score → 0 < e.score → ¬ Overlaps hits d e := by
  induction num generalizing dets with
  | zero =>
    rw [List.length_eq_zero_iff.mp (Nat.le_zero.mp enough)]
    exact List.Pairwise.nil
  | succ num ih =>
    cases dets with
    | nil => exact List.Pairwise.nil
    | cons d rest =>
      obtain ⟨-, others⟩ := List.forall_mem_cons.mp nonneg
      have shorter : rest.length ≤ num := Nat.le_of_succ_le_succ enough
      rw [suppressOuter]
      by_cases erased : d.score = 0
      · rw [if_pos erased, List.pairwise_cons]
        exact ⟨fun e _ positive => absurd erased positive.ne', ih rest shorter others⟩
      · rw [if_neg erased, List.pairwise_cons]
        have inner : Erasures rest (suppressInner hits d rest).2 := suppressInner_erasures others
        have nonneg' := inner.nonneg others
        have length : (suppressInner hits d rest).2.length = rest.length :=
          (List.Forall₂.length_eq inner).symm
        refine ⟨fun e member positive positive' => ?_, ih _ (by omega) nonneg'⟩
        have left := (suppressOuter_erasures num _ nonneg').mem_alive member positive'.ne'
        rcases suppressInner_fst hits d others with ⟨same, clear⟩ | ⟨gone, -⟩
        · rw [same]
          exact clear e left positive'.ne'
        · rw [gone] at positive
          exact absurd d.erase_score positive.ne'

/-- An erased detection overlaps another one of its class that scored at least as much. -/
theorem suppressOuter_erased (symmetric : ∀ a b, hits a b = hits b a) (num : Nat)
    (dets : List (Detection β α)) (nonneg : ∀ d ∈ dets, 0 ≤ d.score) {i : Nat}
    {d : Detection β α} (here : dets[i]? = some d) (alive : d.score ≠ 0)
    (gone : (suppressOuter hits num dets)[i]? = some d.erase) :
    ∃ (j : Nat) (e : Detection β α), j ≠ i ∧ dets[j]? = some e ∧ Overlaps hits d e ∧
      d.score ≤ e.score := by
  have changed : d.erase ≠ d := fun same => alive (congrArg Detection.score same).symm
  induction num generalizing dets i with
  | zero =>
    rw [suppressOuter, here] at gone
    exact absurd (Option.some.inj gone).symm changed
  | succ num ih =>
    cases dets with
    | nil => cases here
    | cons top rest =>
      obtain ⟨-, others⟩ := List.forall_mem_cons.mp nonneg
      rw [suppressOuter] at gone
      by_cases dead : top.score = 0
      · rw [if_pos dead] at gone
        cases i with
        | zero =>
          cases here
          exact absurd dead alive
        | succ i =>
          obtain ⟨j, e, apart, found, overlap, better⟩ := ih rest others here gone
          exact ⟨j + 1, e, fun same => apart (Nat.succ.inj same), found, overlap, better⟩
      · rw [if_neg dead] at gone
        cases i with
        | zero =>
          cases here
          rcases suppressInner_fst hits d others with
            ⟨same, -⟩ | ⟨-, e, member, overlap, better⟩
          · exact absurd ((Option.some.inj gone).symm.trans same) changed
          · obtain ⟨j, found⟩ := List.mem_iff_getElem?.mp member
            exact ⟨j + 1, e, Nat.succ_ne_zero j, found, overlap, better.le⟩
        | succ i =>
          have inner : Erasures rest (suppressInner hits top rest).2 :=
            suppressInner_erasures others
          have nonneg' := inner.nonneg others
          obtain ⟨d', there, kept | ⟨-, -, overlap, better⟩⟩ :=
            forall₂_getElem? (suppressInner_forall₂ hits top others) here
          · rw [kept] at there
            obtain ⟨j, e, apart, found, overlap, better⟩ := ih _ nonneg' there gone
            have positive : 0 < d.score :=
              lt_of_le_of_ne (nonneg' d (List.mem_of_getElem? there)) alive.symm
            have before := inner.alive found (lt_of_lt_of_le positive better).ne'
            exact ⟨j + 1, e, fun same => apart (Nat.succ.inj same), before, overlap, better⟩
          · exact ⟨0, top, (Nat.succ_ne_zero i).symm, rfl, (overlaps_comm symmetric).mp overlap,
              better⟩

/-- What both functions promise. -/
theorem suppress_suppressed (symmetric : ∀ a b, hits a b = hits b a)
    (dets : List (Detection β α)) (positive : ∀ d ∈ dets, 0 < d.score) :
    Suppressed hits dets (suppress hits dets) := by
  have nonneg : ∀ d ∈ dets, 0 ≤ d.score := fun d member => (positive d member).le
  have erasures : Erasures dets (suppress hits dets) := suppressOuter_erasures _ dets nonneg
  have erased : ∀ (i : Nat) (d : Detection β α), dets[i]? = some d →
      (suppress hits dets)[i]? = some d.erase →
      ∃ (j : Nat) (e : Detection β α), j ≠ i ∧ dets[j]? = some e ∧ Overlaps hits d e ∧
        d.score ≤ e.score := by
    intro i d here gone
    have alive : d.score ≠ 0 := (positive d (List.mem_of_getElem? here)).ne'
    exact suppressOuter_erased symmetric _ dets nonneg here alive gone
  refine ⟨erasures, suppressOuter_apart _ dets le_rfl nonneg, erased, fun i d here top => ?_⟩
  rcases erasures.at_position here with kept | gone
  · exact kept
  · obtain ⟨j, e, apart, found, overlap, better⟩ := erased i d here gone
    exact absurd (top j e apart found overlap.1.symm) (not_lt.mpr better)

end

/-! ## Where the assertion holds -/

section

variable {α β : Type*} [Zero α] [LinearOrder α]

/-- The comparison, where it has a result. -/
def exceeds (above : β → β → Option Bool) (a b : β) : Bool := (above a b).getD false

/-- Each two detections of one class can be compared. -/
def Comparable (above : β → β → Option Bool) (dets : List (Detection β α)) : Prop :=
  dets.Pairwise fun d e => d.cls = e.cls → above d.bbox e.bbox ≠ none

variable {above : β → β → Option Bool}

/-- Whatever the inner loop comes to is what the one without an assertion comes to. -/
theorem suppressInner_of_nmsInner {d : Detection β α} {rest : List (Detection β α)}
    {r : Detection β α × List (Detection β α)} (ran : nmsInner above d rest = some r) :
    suppressInner (exceeds above) d rest = r := by
  induction rest generalizing d r with
  | nil => exact Option.some.inj ran
  | cons e rest ih =>
    rw [nmsInner] at ran
    rw [suppressInner]
    by_cases erased : e.score = 0
    · rw [if_pos erased] at ran ⊢
      obtain ⟨r', later, rfl⟩ := Option.map_eq_some_iff.mp ran
      rw [ih later]
    · rw [if_neg erased] at ran ⊢
      by_cases differ : d.cls ≠ e.cls
      · rw [if_pos differ] at ran ⊢
        obtain ⟨r', later, rfl⟩ := Option.map_eq_some_iff.mp ran
        rw [ih later]
      · rw [if_neg differ] at ran ⊢
        obtain ⟨hit, compared, ran⟩ := Option.bind_eq_some_iff.mp ran
        rw [exceeds, compared, Option.getD_some]
        cases hit with
        | false =>
          obtain ⟨r', later, rfl⟩ := Option.map_eq_some_iff.mp ran
          simp only [Bool.false_eq_true, if_false, ih later]
        | true =>
          rw [if_pos rfl] at ran ⊢
          by_cases worse : d.score < e.score
          · rw [if_pos worse] at ran ⊢
            obtain ⟨r', later, rfl⟩ := Option.map_eq_some_iff.mp ran
            rw [ih later]
          · rw [if_neg worse] at ran ⊢
            obtain ⟨r', later, rfl⟩ := Option.map_eq_some_iff.mp ran
            rw [ih later]

/-- The inner loop goes through when the outer detection can be compared with the others. -/
theorem exists_nmsInner {d : Detection β α} {rest : List (Detection β α)}
    (comparable : ∀ e ∈ rest, d.cls = e.cls → above d.bbox e.bbox ≠ none) :
    ∃ r, nmsInner above d rest = some r := by
  induction rest generalizing d with
  | nil => exact ⟨_, rfl⟩
  | cons e rest ih =>
    obtain ⟨first, others⟩ := List.forall_mem_cons.mp comparable
    obtain ⟨kept, keeps⟩ := ih others
    obtain ⟨gone, goes⟩ := ih (d := d.erase) others
    rw [nmsInner, keeps, goes]
    by_cases erased : e.score = 0
    · exact ⟨_, if_pos erased⟩
    · rw [if_neg erased]
      by_cases differ : d.cls ≠ e.cls
      · exact ⟨_, if_pos differ⟩
      · obtain ⟨hit, compared⟩ := Option.ne_none_iff_exists'.mp (first (not_not.mp differ))
        rw [if_neg differ, compared, Option.bind_some]
        cases hit with
        | false => exact ⟨_, rfl⟩
        | true =>
          by_cases worse : d.score < e.score
          · exact ⟨_, if_pos worse⟩
          · exact ⟨_, if_neg worse⟩

theorem suppressOuter_of_nmsOuter {num : Nat} {dets out : List (Detection β α)}
    (ran : nmsOuter above num dets = some out) : suppressOuter (exceeds above) num dets = out := by
  induction num generalizing dets out with
  | zero => exact Option.some.inj ran
  | succ num ih =>
    cases dets with
    | nil => exact Option.some.inj ran
    | cons d rest =>
      rw [nmsOuter] at ran
      rw [suppressOuter]
      by_cases erased : d.score = 0
      · rw [if_pos erased] at ran ⊢
        obtain ⟨out', later, rfl⟩ := Option.map_eq_some_iff.mp ran
        rw [ih later]
      · rw [if_neg erased] at ran ⊢
        obtain ⟨r, inner, ran⟩ := Option.bind_eq_some_iff.mp ran
        obtain ⟨out', later, rfl⟩ := Option.map_eq_some_iff.mp ran
        rw [suppressInner_of_nmsInner inner]
        exact congrArg (r.1 :: ·) (ih later)

omit [LinearOrder α] in
/-- Erasing keeps boxes and classes, and with them what can be compared. -/
theorem Comparable.erasures {dets out : List (Detection β α)} (comparable : Comparable above dets)
    (erasures : Erasures dets out) : Comparable above out := by
  have same : ∀ {d d' : Detection β α}, d' = d ∨ d' = d.erase →
      d'.bbox = d.bbox ∧ d'.cls = d.cls := by
    rintro d d' (rfl | rfl)
    · exact ⟨rfl, rfl⟩
    · exact ⟨rfl, rfl⟩
  induction erasures with
  | nil => exact List.Pairwise.nil
  | cons here rest ih =>
    obtain ⟨first, others⟩ := List.pairwise_cons.mp comparable
    refine List.pairwise_cons.mpr ⟨fun e' member sameClass => ?_, ih others⟩
    obtain ⟨i, there⟩ := List.mem_iff_getElem?.mp member
    obtain ⟨e, before, kept⟩ := forall₂_getElem? rest.flip there
    rw [(same here).1, (same kept).1]
    rw [(same here).2, (same kept).2] at sameClass
    exact first e (List.mem_of_getElem? before) sameClass

theorem exists_nmsOuter (num : Nat) {dets : List (Detection β α)}
    (comparable : Comparable above dets) (nonneg : ∀ d ∈ dets, 0 ≤ d.score) :
    ∃ out, nmsOuter above num dets = some out := by
  induction num generalizing dets with
  | zero => exact ⟨_, rfl⟩
  | succ num ih =>
    cases dets with
    | nil => exact ⟨_, rfl⟩
    | cons d rest =>
      obtain ⟨-, others⟩ := List.forall_mem_cons.mp nonneg
      obtain ⟨first, later⟩ := List.pairwise_cons.mp comparable
      have comparable' : Comparable above rest := later
      rw [nmsOuter]
      by_cases erased : d.score = 0
      · obtain ⟨out, later⟩ := ih comparable' others
        rw [if_pos erased, later]
        exact ⟨_, rfl⟩
      · obtain ⟨r, inner⟩ := exists_nmsInner first
        have erasures : Erasures rest r.2 := by
          rw [← suppressInner_of_nmsInner inner]
          exact suppressInner_erasures others
        obtain ⟨out, later⟩ := ih (comparable'.erasures erasures) (erasures.nonneg others)
        rw [if_neg erased, inner, Option.bind_some, later]
        exact ⟨_, rfl⟩

/-- The function is suppression without an assertion, where it comes to an end. -/
theorem suppress_of_nmsInPlace {dets out : List (Detection β α)}
    (ran : nmsInPlace above dets = some out) : suppress (exceeds above) dets = out :=
  suppressOuter_of_nmsOuter ran

/-- It does when all detections of a class can be compared. -/
theorem nmsInPlace_eq {dets : List (Detection β α)} (comparable : Comparable above dets)
    (nonneg : ∀ d ∈ dets, 0 ≤ d.score) :
    nmsInPlace above dets = some (suppress (exceeds above) dets) := by
  obtain ⟨out, ran⟩ := exists_nmsOuter dets.length comparable nonneg
  exact ran.trans (congrArg some (suppress_of_nmsInPlace ran).symm)

theorem exceeds_comm (symmetric : ∀ a b, above a b = above b a) (a b : β) :
    exceeds above a b = exceeds above b a := by
  rw [exceeds, exceeds, symmetric]

end

/-! ## The two functions -/

section

variable {α : Type*} [Field α] [LinearOrder α]

/-- `nms` (`yolo_detection.cpp:193-220`). -/
def yoloNms (nmsThreshold : α) (det : List (Detection (Box α) α)) :
    Option (List (Detection (Box α) α)) :=
  nmsInPlace (boxOver nmsThreshold) det

/-- `nms` (`frcn_detection.cpp:48-90`). -/
def frcnNms (nmsThreshold : α) (dets : List (Detection (Coord α) α)) :
    Option (List (Detection (Coord α) α)) :=
  nmsInPlace (frcnOver nmsThreshold) dets

/-- No two detections of one class have boxes with an empty union. -/
def UnionsFilled (det : List (Detection (Box α) α)) : Prop :=
  det.Pairwise fun d e => d.cls = e.cls → boxUnion d.bbox e.bbox ≠ 0

variable [IsStrictOrderedRing α]

theorem comparable_iff_unionsFilled (t : α) (det : List (Detection (Box α) α)) :
    Comparable (boxOver t) det ↔ UnionsFilled det := by
  simp only [Comparable, UnionsFilled, ne_eq, boxOver_eq_none_iff]

theorem comparable_frcnOver (t : α) (dets : List (Detection (Coord α) α)) :
    Comparable (frcnOver t) dets := by
  refine List.pairwise_of_forall fun d e _ => ?_
  rw [frcnOver_eq]
  exact Option.some_ne_none _

/-- What comes out is the array suppressed soundly, whatever the order of the scores; Faster-RCNN
    always comes to an end, and YOLO where no two of one class have an empty union. -/
theorem nms_suppressed (t : α) :
    (∀ det : List (Detection (Box α) α), (∀ d ∈ det, 0 < d.score) →
      (∀ out, yoloNms t det = some out → Suppressed (exceeds (boxOver t)) det out) ∧
      (UnionsFilled det → ∃ out, yoloNms t det = some out)) ∧
    (∀ dets : List (Detection (Coord α) α), (∀ d ∈ dets, 0 < d.score) →
      ∃ out, frcnNms t dets = some out ∧ Suppressed (exceeds (frcnOver t)) dets out) := by
  refine ⟨fun det positive => ⟨fun out ran => ?_, fun filled => ?_⟩, fun dets positive => ?_⟩
  · rw [← suppress_of_nmsInPlace ran]
    exact suppress_suppressed (exceeds_comm (boxOver_comm t)) det positive
  · exact ⟨_, nmsInPlace_eq ((comparable_iff_unionsFilled t det).mpr filled)
      fun d member => (positive d member).le⟩
  · refine ⟨_, nmsInPlace_eq (comparable_frcnOver t dets)
      fun d member => (positive d member).le, ?_⟩
    exact suppress_suppressed (exceeds_comm (frcnOver_comm t)) dets positive

/-- Three detections in a row, of which the second is the best and erases both of its neighbours. -/
def bestInside : List (Detection (Box ℚ) ℚ) :=
  [⟨⟨0, 0, 8, 8⟩, 1, 1 / 2⟩, ⟨⟨2, 0, 8, 8⟩, 1, 3 / 4⟩, ⟨⟨4, 0, 8, 8⟩, 1, 1 / 4⟩]

def bestInsideCorners : List (Detection (Coord ℚ) ℚ) :=
  [⟨⟨0, 0, 7, 7⟩, 1, 1 / 2⟩, ⟨⟨0, 0, 6, 7⟩, 1, 3 / 4⟩]

instance (det : List (Detection (Box ℚ) ℚ)) : Decidable (UnionsFilled det) :=
  inferInstanceAs (Decidable (List.Pairwise _ det))

theorem nms_suppressed_row :
    (∃ out, yoloNms (1 / 2) bestInside = some out ∧
      Suppressed (exceeds (boxOver (1 / 2))) bestInside out) ∧
    ∃ out, frcnNms (1 / 2) bestInsideCorners = some out ∧
      Suppressed (exceeds (frcnOver (1 / 2))) bestInsideCorners out := by
  obtain ⟨yolo, frcn⟩ := nms_suppressed (1 / 2 : ℚ)
  obtain ⟨sound, ends⟩ := yolo bestInside (by decide +kernel)
  obtain ⟨out, ran⟩ := ends (by decide +kernel)
  exact ⟨⟨out, ran, sound out ran⟩, frcn bestInsideCorners (by decide +kernel)⟩

/-- Two points of one class. -/
def twoPoints : List (Detection (Box ℚ) ℚ) :=
  [⟨⟨0, 0, 0, 0⟩, 1, 1 / 2⟩, ⟨⟨2, 0, 0, 0⟩, 1, 3 / 4⟩]

/-- The quotient is 0 / 0, and the assertion fails. -/
theorem nms_suppressed_points : ¬∃ out, yoloNms (1 / 2) twoPoints = some out ∧
    Suppressed (exceeds (boxOver (1 / 2))) twoPoints out := by
  rintro ⟨out, ran, -⟩
  have stops : yoloNms (1 / 2) twoPoints = none := by decide +kernel
  rw [stops] at ran
  cases ran

end

end CviRuntime.CpuFunction
