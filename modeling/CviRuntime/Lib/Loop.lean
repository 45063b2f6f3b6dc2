import Mathlib.Algebra.Order.Ring.Nat
import Mathlib.Data.List.Basic
import Mathlib.Logic.Function.Basic

/-!
# Counted loops

`forUp` is a loop that counts up to a bound, `searchDown` one that counts down to zero and stops
at the first hit. How the counter advances is a parameter, so that it may overflow, wrap or stand
still. Both take fuel: a loop that does not end is `none` for every amount of it.
-/

namespace CviRuntime.Loop

variable {β : Type*}

/-! ## Results of rounds -/

section

variable {γ : Type*} {body : Nat → Option β} {values : List Nat} {results : List β}

theorem exists_of_mem_results (bodies : results.map some = values.map body) {result : β}
    (member : result ∈ results) : ∃ pos ∈ values, body pos = some result := by
  have image : some result ∈ results.map some := List.mem_map_of_mem member
  rwa [bodies, List.mem_map] at image

theorem body_of_mem (bodies : results.map some = values.map body) {pos : Nat}
    (member : pos ∈ values) : ∃ result ∈ results, body pos = some result := by
  have image : body pos ∈ values.map body := List.mem_map_of_mem member
  rw [← bodies, List.mem_map] at image
  obtain ⟨result, found, bodyEq⟩ := image
  exact ⟨result, found, bodyEq.symm⟩

/-- What is known of each round is known of all results. -/
theorem map_results (bodies : results.map some = values.map body) {f : β → γ} {g : Nat → γ}
    (each : ∀ pos ∈ values, ∀ result, body pos = some result → f result = g pos) :
    results.map f = values.map g := by
  induction values generalizing results with
  | nil => rw [List.map_nil, List.map_eq_nil_iff] at bodies; rw [bodies]; rfl
  | cons pos values ih =>
    cases results with
    | nil => cases bodies
    | cons result results =>
      obtain ⟨head, tail⟩ := List.cons.inj bodies
      have first := each pos List.mem_cons_self result head.symm
      have rest := ih tail fun pos member => each pos (List.mem_cons_of_mem _ member)
      rw [List.map_cons, List.map_cons, first, rest]

end

/-! ## Counting up -/

/-- `for (pos = ..; pos < bound; pos = next(pos)) body(pos)`: what the rounds yield. -/
def forUp (next : Nat → Option Nat) (body : Nat → Option β) (bound : Nat) :
    Nat → Nat → Option (List β)
  | 0, _ => none
  | fuel + 1, pos =>
    if pos < bound then
      (body pos).bind fun result =>
        (next pos).bind fun pos' => (forUp next body bound fuel pos').map (result :: ·)
    else some []

section

variable {next : Nat → Option Nat} {body : Nat → Option β} {bound step : Nat}

theorem forUp_of_le {fuel pos : Nat} (past : bound ≤ pos) :
    forUp next body bound (fuel + 1) pos = some [] := by
  rw [forUp, if_neg (Nat.not_lt.mpr past)]

/-- What a loop that ends did in its first round. -/
theorem forUp_round {fuel pos : Nat} {results : List β}
    (ends : forUp next body bound fuel pos = some results) (below : pos < bound) :
    ∃ fuel' result pos' results', body pos = some result ∧ next pos = some pos' ∧
      forUp next body bound fuel' pos' = some results' ∧ results = result :: results' := by
  cases fuel with
  | zero => cases ends
  | succ fuel =>
    rw [forUp, if_pos below] at ends
    simp only [Option.bind_eq_some_iff, Option.map_eq_some_iff] at ends
    obtain ⟨result, bodyEq, pos', nextEq, results', rest, rfl⟩ := ends
    exact ⟨fuel, result, pos', results', bodyEq, nextEq, rest, rfl⟩

/-- What a loop that ends did in its first `count` rounds. -/
theorem forUp_reaches {count fuel pos : Nat} {results : List β}
    (ends : forUp next body bound fuel pos = some results)
    (steps : ∀ i < count, pos + step * i < bound ∧
      next (pos + step * i) = some (pos + step * (i + 1))) :
    ∃ fuel' done rest, forUp next body bound fuel' (pos + step * count) = some rest ∧
      results = done ++ rest ∧ done.map some = (List.range' pos count step).map body := by
  induction count with
  | zero => exact ⟨fuel, [], results, by simpa using ends, rfl, rfl⟩
  | succ count ih =>
    obtain ⟨fuel', done, rest, restEq, whole, bodies⟩ :=
      ih fun i small => steps i (Nat.lt_succ_of_lt small)
    obtain ⟨below, nextEq⟩ := steps count (Nat.lt_succ_self count)
    obtain ⟨fuel'', result, pos', results', bodyEq, nextEq', restEq', rfl⟩ :=
      forUp_round restEq below
    obtain rfl : pos + step * (count + 1) = pos' := Option.some.inj (nextEq.symm.trans nextEq')
    refine ⟨fuel'', done ++ [result], results', restEq', by simp [whole], ?_⟩
    rw [List.range'_concat, List.map_append, List.map_append, bodies]
    simp [bodyEq]

/-- More fuel does not change what a loop yields, nor does a body that yields more often. -/
theorem forUp_mono {body' : Nat → Option β} {fuel fuel' pos : Nat} {results : List β}
    (more : ∀ pos result, body pos = some result → body' pos = some result) (le : fuel ≤ fuel')
    (ends : forUp next body bound fuel pos = some results) :
    forUp next body' bound fuel' pos = some results := by
  induction fuel generalizing fuel' pos results with
  | zero => cases ends
  | succ fuel ih =>
    obtain ⟨fuel', rfl⟩ := Nat.exists_eq_succ_of_ne_zero (Nat.ne_zero_of_lt le)
    by_cases below : pos < bound
    · rw [forUp, if_pos below] at ends ⊢
      obtain ⟨result, bodyEq, ends⟩ := Option.bind_eq_some_iff.mp ends
      obtain ⟨pos', nextEq, ends⟩ := Option.bind_eq_some_iff.mp ends
      obtain ⟨results', rest, rfl⟩ := Option.map_eq_some_iff.mp ends
      rw [more pos result bodyEq, nextEq, Option.bind_some, Option.bind_some,
        ih (Nat.le_of_succ_le_succ le) rest, Option.map_some]
    · rw [forUp_of_le (Nat.not_lt.mp below)] at ends ⊢
      exact ends

/-- A loop whose counter stands still does not end. -/
theorem forUp_stuck {pos : Nat} (below : pos < bound) (still : next pos = some pos) (fuel : Nat) :
    forUp next body bound fuel pos = none := by
  induction fuel with
  | zero => rfl
  | succ fuel ih => simp [forUp, below, still, ih]

/-! ### Even steps -/

/-- How often a loop from 0 to the bound goes round. -/
def rounds (bound step : Nat) : Nat := (bound + step - 1) / step

/-- The values of its counter. -/
def positions (bound step : Nat) : List Nat := List.range' 0 (rounds bound step) step

/-- The value in the last round. -/
def lastPos (bound step : Nat) : Nat := (bound - 1) / step * step

theorem lt_rounds_iff (positive : 0 < step) (i : Nat) :
    i < rounds bound step ↔ i * step < bound := by
  rw [rounds, Nat.lt_iff_add_one_le, Nat.le_div_iff_mul_le positive, Nat.add_mul, Nat.one_mul]
  omega

theorem le_rounds_mul (positive : 0 < step) : bound ≤ rounds bound step * step :=
  Nat.not_lt.mp ((lt_rounds_iff positive (rounds bound step)).not.mp (Nat.lt_irrefl _))

theorem mem_positions (positive : 0 < step) {pos : Nat} :
    pos ∈ positions bound step ↔ step ∣ pos ∧ pos < bound := by
  simp only [positions, List.mem_range', lt_rounds_iff positive, Nat.zero_add]
  constructor
  · rintro ⟨i, below, rfl⟩
    exact ⟨Nat.dvd_mul_right step i, by rwa [Nat.mul_comm]⟩
  · rintro ⟨⟨i, rfl⟩, below⟩
    exact ⟨i, by rwa [Nat.mul_comm], rfl⟩

theorem lastPos_lt (positive : 0 < bound) : lastPos bound step < bound := by
  have := Nat.div_mul_le_self (bound - 1) step
  rw [lastPos]
  omega

theorem lastPos_mem (stepPos : 0 < step) (boundPos : 0 < bound) :
    lastPos bound step ∈ positions bound step :=
  (mem_positions stepPos).mpr ⟨Nat.dvd_mul_left _ _, lastPos_lt boundPos⟩

theorem zero_mem_positions (stepPos : 0 < step) (boundPos : 0 < bound) :
    0 ∈ positions bound step :=
  (mem_positions stepPos).mpr ⟨Nat.dvd_zero step, boundPos⟩

theorem le_lastPos (stepPos : 0 < step) {pos : Nat} (member : pos ∈ positions bound step) :
    pos ≤ lastPos bound step := by
  obtain ⟨⟨i, rfl⟩, below⟩ := (mem_positions stepPos).mp member
  rw [lastPos, Nat.mul_comm step]
  refine Nat.mul_le_mul_right step ((Nat.le_div_iff_mul_le stepPos).mpr ?_)
  rw [Nat.mul_comm]
  omega

theorem bound_le_lastPos_add (stepPos : 0 < step) : bound ≤ lastPos bound step + step := by
  have := Nat.lt_div_mul_add (a := bound - 1) stepPos
  rw [lastPos]
  omega

/-- A loop whose counter advances by even steps ends when its rounds do. -/
theorem forUp_positions (stepPos : 0 < step)
    (advances : ∀ pos ∈ positions bound step, next pos = some (pos + step))
    (bodies : ∀ pos ∈ positions bound step, (body pos).isSome) {fuel : Nat}
    (enough : rounds bound step < fuel) :
    ∃ results, forUp next body bound fuel 0 = some results ∧
      results.map some = (positions bound step).map body := by
  have unrolled : ∀ count pos, (∀ i < count, pos + step * i ∈ positions bound step) →
      bound ≤ pos + step * count → ∀ fuel > count,
      ∃ results, forUp next body bound fuel pos = some results ∧
        results.map some = (List.range' pos count step).map body := by
    intro count
    induction count with
    | zero =>
      intro pos _ past fuel enough
      obtain ⟨fuel, rfl⟩ := Nat.exists_eq_succ_of_ne_zero enough.ne'
      exact ⟨[], forUp_of_le past, rfl⟩
    | succ count ih =>
      intro pos members past fuel enough
      obtain ⟨fuel, rfl⟩ := Nat.exists_eq_succ_of_ne_zero (Nat.ne_zero_of_lt enough)
      have here := members 0 (Nat.succ_pos count)
      rw [Nat.mul_zero, Nat.add_zero] at here
      have later : ∀ i < count, pos + step + step * i ∈ positions bound step := fun i small => by
        have := members (i + 1) (Nat.succ_lt_succ small)
        rwa [Nat.mul_add, Nat.mul_one, Nat.add_comm (step * i), ← Nat.add_assoc] at this
      rw [Nat.mul_add, Nat.mul_one, Nat.add_comm (step * count), ← Nat.add_assoc] at past
      obtain ⟨results, restEq, rest⟩ :=
        ih (pos + step) later past fuel (Nat.lt_of_succ_lt_succ enough)
      obtain ⟨result, bodyEq⟩ := Option.isSome_iff_exists.mp (bodies pos here)
      refine ⟨result :: results, ?_, ?_⟩
      · rw [forUp, if_pos ((mem_positions stepPos).mp here).2, bodyEq, advances pos here,
          Option.bind_some, Option.bind_some, restEq]
        rfl
      · rw [List.range'_succ, List.map_cons, List.map_cons, rest, bodyEq]
  refine unrolled (rounds bound step) 0 ?_ ?_ fuel enough
  · intro i small
    rw [Nat.zero_add, mem_positions stepPos, Nat.mul_comm]
    exact ⟨Nat.dvd_mul_left step i, (lt_rounds_iff stepPos i).mp small⟩
  · rw [Nat.zero_add, Nat.mul_comm]
    exact le_rounds_mul stepPos

theorem rounds_eq (boundPos : 0 < bound) (stepPos : 0 < step) :
    rounds bound step = (bound - 1) / step + 1 := by
  rw [rounds, ← Nat.add_div_right _ stepPos]
  congr 1
  omega

/-- A loop whose counter advances by even steps up to the last round goes through all positions,
    whatever it does afterwards. -/
theorem forUp_visits {fuel : Nat} {results : List β} (stepPos : 0 < step) (boundPos : 0 < bound)
    (even : ∀ pos, pos + step < bound → next pos = some (pos + step))
    (ends : forUp next body bound fuel 0 = some results) :
    ∃ fuel' done rest pos', next (lastPos bound step) = some pos' ∧
      forUp next body bound fuel' pos' = some rest ∧ results = done ++ rest ∧
      done.map some = (positions bound step).map body := by
  have steps : ∀ i < (bound - 1) / step, 0 + step * i < bound ∧
      next (0 + step * i) = some (0 + step * (i + 1)) := by
    intro i small
    have room : step * (i + 1) ≤ bound - 1 :=
      (Nat.mul_le_mul_left step small).trans (Nat.mul_div_le _ _)
    rw [Nat.mul_add, Nat.mul_one] at room
    refine ⟨by omega, ?_⟩
    rw [even (0 + step * i) (by omega), Nat.mul_add, Nat.mul_one, Nat.add_assoc]
  obtain ⟨fuel', before, rest, restEq, rfl, bodies⟩ := forUp_reaches ends steps
  have last : 0 + step * ((bound - 1) / step) = lastPos bound step := by
    rw [Nat.zero_add, Nat.mul_comm, lastPos]
  rw [last] at restEq
  obtain ⟨fuel'', result, pos', results', bodyEq, nextEq, restEq', rfl⟩ :=
    forUp_round restEq (lastPos_lt boundPos)
  refine ⟨fuel'', before ++ [result], results', pos', nextEq, restEq', by simp, ?_⟩
  rw [positions, rounds_eq boundPos stepPos, List.range'_concat, last, List.map_append,
    List.map_append, bodies, List.map_singleton, List.map_singleton, bodyEq]

/-! ### A counter that may overflow -/

/-- `pos += step` for a signed counter, whose values are below the limit. -/
def checkedAdd (limit step pos : Nat) : Option Nat :=
  if pos + step < limit then some (pos + step) else none

theorem forUp_checkedAdd {limit fuel : Nat} {results : List β} (stepPos : 0 < step)
    (boundPos : 0 < bound) (small : bound ≤ limit)
    (ends : forUp (checkedAdd limit step) body bound fuel 0 = some results) :
    lastPos bound step + step < limit ∧
      results.map some = (positions bound step).map body := by
  have even : ∀ pos, pos + step < bound → checkedAdd limit step pos = some (pos + step) :=
    fun pos below => if_pos (below.trans_le small)
  obtain ⟨fuel', done, rest, pos', advance, restEq, rfl, bodies⟩ :=
    forUp_visits stepPos boundPos even ends
  obtain ⟨inRange, same⟩ := Option.ite_none_right_eq_some.mp advance
  obtain rfl := Option.some.inj same
  refine ⟨inRange, ?_⟩
  -- After the last advance no round follows.
  cases fuel' with
  | zero => cases restEq
  | succ fuel' =>
    rw [forUp_of_le (bound_le_lastPos_add stepPos)] at restEq
    obtain rfl := Option.some.inj restEq
    rwa [List.append_nil]

/-- The loop ends exactly when its rounds do and the last advance does not overflow. -/
theorem forUp_checkedAdd_iff {limit : Nat} (stepPos : 0 < step) (boundPos : 0 < bound)
    (small : bound ≤ limit) {fuel : Nat} (enough : rounds bound step < fuel) :
    (forUp (checkedAdd limit step) body bound fuel 0).isSome ↔
      lastPos bound step + step < limit ∧ ∀ pos ∈ positions bound step, (body pos).isSome := by
  constructor
  · intro ends
    obtain ⟨results, ends⟩ := Option.isSome_iff_exists.mp ends
    obtain ⟨inRange, bodies⟩ := forUp_checkedAdd stepPos boundPos small ends
    refine ⟨inRange, fun pos member => ?_⟩
    obtain ⟨result, -, bodyEq⟩ := body_of_mem bodies member
    rw [bodyEq]
    rfl
  · rintro ⟨inRange, bodies⟩
    have advances : ∀ pos ∈ positions bound step,
        checkedAdd limit step pos = some (pos + step) := fun pos member =>
      if_pos ((Nat.add_le_add_right (le_lastPos stepPos member) step).trans_lt inRange)
    obtain ⟨results, ends, -⟩ := forUp_positions stepPos advances bodies enough
    rw [ends]
    rfl

end

/-! ## Counting down -/

section

/-- `for (x = ..; x > 0; x = next(x)) if (check(x)) break;`: the first hit, if there is one. -/
def searchDown (next : Nat → Nat) (check : Nat → Option (Option β)) :
    Nat → Nat → Option (Option β)
  | 0, _ => none
  | fuel + 1, x =>
    if x = 0 then some none
    else (check x).bind fun hit =>
      hit.elim (searchDown next check fuel (next x)) fun b => some (some b)

/-- The counter passes through `x`. -/
inductive Visits (next : Nat → Nat) : Nat → Nat → Prop
  | here {x : Nat} : 0 < x → Visits next x x
  | later {start x : Nat} : 0 < start → Visits next (next start) x → Visits next start x

variable {next : Nat → Nat} {check : Nat → Option (Option β)}

theorem Visits.le (decreases : ∀ x, 0 < x → next x < x) {start x : Nat}
    (visits : Visits next start x) : x ≤ start := by
  induction visits with
  | here _ => exact Nat.le_refl _
  | later positive _ ih => exact ih.trans (decreases _ positive).le

/-- A search that hits stopped at the first value that does. -/
theorem searchDown_hit (decreases : ∀ x, 0 < x → next x < x) {fuel start : Nat} {b : β}
    (found : searchDown next check fuel start = some (some b)) :
    ∃ x, Visits next start x ∧ check x = some (some b) ∧
      ∀ y, Visits next start y → x < y → check y = some none := by
  induction fuel generalizing start with
  | zero => cases found
  | succ fuel ih =>
    rw [searchDown] at found
    split at found
    · cases found
    · have positive : 0 < start := Nat.pos_of_ne_zero ‹_›
      obtain ⟨hit, checked, rest⟩ := Option.bind_eq_some_iff.mp found
      cases hit with
      | some b' =>
        obtain rfl : b' = b := Option.some.inj (Option.some.inj rest)
        exact ⟨start, .here positive, checked,
          fun y visits above => absurd (visits.le decreases) (Nat.not_le.mpr above)⟩
      | none =>
        obtain ⟨x, visits, hits, misses⟩ := ih rest
        refine ⟨x, .later positive visits, hits, fun y visitsY above => ?_⟩
        cases visitsY with
        | here _ => exact checked
        | later _ visitsY => exact misses y visitsY above

/-- A search that runs to its end found no hit. -/
theorem searchDown_miss {fuel start : Nat}
    (missed : searchDown next check fuel start = some none) :
    ∀ x, Visits next start x → check x = some none := by
  induction fuel generalizing start with
  | zero => cases missed
  | succ fuel ih =>
    rw [searchDown] at missed
    intro x visits
    split at missed
    · cases visits with
      | here positive => exact absurd positive (by omega)
      | later positive _ => exact absurd positive (by omega)
    · obtain ⟨hit, checked, rest⟩ := Option.bind_eq_some_iff.mp missed
      cases hit with
      | some b => cases rest
      | none =>
        cases visits with
        | here _ => exact checked
        | later _ visits => exact ih rest x visits

/-- A search ends whose checks do. -/
theorem searchDown_isSome (decreases : ∀ x, 0 < x → next x < x) {fuel start : Nat}
    (checks : ∀ x, Visits next start x → (check x).isSome) (enough : start < fuel) :
    (searchDown next check fuel start).isSome := by
  induction fuel generalizing start with
  | zero => exact absurd enough (Nat.not_lt_zero _)
  | succ fuel ih =>
    rw [searchDown]
    split
    · rfl
    · have positive : 0 < start := Nat.pos_of_ne_zero ‹_›
      obtain ⟨hit, checked⟩ := Option.isSome_iff_exists.mp (checks start (.here positive))
      rw [checked, Option.bind_some]
      cases hit with
      | some b => rfl
      | none =>
        have less := decreases start positive
        exact ih (fun x visits => checks x (.later positive visits)) (by omega)

/-- The converse of `searchDown_hit`. -/
theorem searchDown_of_hit (decreases : ∀ x, 0 < x → next x < x) {fuel start x : Nat} {b : β}
    (visits : Visits next start x) (hits : check x = some (some b))
    (misses : ∀ y, Visits next start y → x < y → check y = some none) (enough : start < fuel) :
    searchDown next check fuel start = some (some b) := by
  induction fuel generalizing start with
  | zero => exact absurd enough (Nat.not_lt_zero _)
  | succ fuel ih =>
    cases visits with
    | here positive => rw [searchDown, if_neg positive.ne', hits]; rfl
    | later positive visits =>
      have less := decreases start positive
      have above : x < start := (visits.le decreases).trans_lt less
      rw [searchDown, if_neg positive.ne', misses start (.here positive) above]
      exact ih visits (fun y visitsY => misses y (.later positive visitsY)) (by omega)

theorem Visits.pos {start x : Nat} (visits : Visits next start x) : 0 < x := by
  induction visits with
  | here positive => exact positive
  | later _ _ ih => exact ih

/-- A counter that goes down by one passes through all values. -/
theorem visits_pred {start x : Nat} : Visits Nat.pred start x ↔ 0 < x ∧ x ≤ start := by
  constructor
  · intro visits
    exact ⟨visits.pos, visits.le fun y positive => Nat.pred_lt positive.ne'⟩
  · rintro ⟨positive, below⟩
    induction below with
    | refl => exact .here positive
    | step _ ih => exact .later (Nat.succ_pos _) ih

/-- `for (x = n; x > 0; x--) if (check(x)) break;`, which ends whenever its checks do. -/
def countdown (check : Nat → Option (Option β)) (n : Nat) : Option (Option β) :=
  searchDown Nat.pred check (n + 1) n

theorem pred_decreases (x : Nat) (positive : 0 < x) : Nat.pred x < x := Nat.pred_lt positive.ne'

/-- A countdown whose checks all end does. -/
theorem countdown_isSome {n : Nat} (checks : ∀ x, 0 < x → x ≤ n → (check x).isSome) :
    (countdown check n).isSome :=
  searchDown_isSome pred_decreases
    (fun x visits => checks x visits.pos (visits_pred.mp visits).2) (Nat.lt_succ_self n)

/-- A countdown that ends has checked its first value. -/
theorem countdown_first {n : Nat} (positive : 0 < n) (ends : (countdown check n).isSome) :
    (check n).isSome := by
  rw [countdown, searchDown, if_neg positive.ne'] at ends
  cases first : check n with
  | none =>
    rw [first] at ends
    cases ends
  | some hit => rfl

theorem countdown_eq_hit {n : Nat} {b : β} :
    countdown check n = some (some b) ↔
      ∃ x, (0 < x ∧ x ≤ n) ∧ check x = some (some b) ∧
        ∀ y, x < y → y ≤ n → check y = some none := by
  constructor
  · intro found
    obtain ⟨x, visits, hits, misses⟩ := searchDown_hit pred_decreases found
    have inRange := visits_pred.mp visits
    exact ⟨x, inRange, hits, fun y above below =>
      misses y (visits_pred.mpr ⟨inRange.1.trans above, below⟩) above⟩
  · rintro ⟨x, inRange, hits, misses⟩
    exact searchDown_of_hit pred_decreases (visits_pred.mpr inRange) hits
      (fun y visits above => misses y above (visits_pred.mp visits).2) (Nat.lt_succ_self n)

theorem countdown_eq_miss {n : Nat} :
    countdown check n = some none ↔ ∀ x, 0 < x → x ≤ n → check x = some none := by
  constructor
  · intro missed x positive below
    exact searchDown_miss missed x (visits_pred.mpr ⟨positive, below⟩)
  · intro misses
    have ends : (countdown check n).isSome := countdown_isSome fun x positive below => by
      rw [misses x positive below]
      rfl
    obtain ⟨hit, ends⟩ := Option.isSome_iff_exists.mp ends
    cases hit with
    | none => exact ends
    | some b =>
      obtain ⟨x, inRange, hits, -⟩ := countdown_eq_hit.mp ends
      rw [misses x inRange.1 inRange.2] at hits
      cases hits

end

/-! ## Loops over a range -/

/-- A loop of which each round changes what its own number sees, and nothing else. -/
theorem foldl_range_look {σ κ : Type*} (look : σ → Nat → κ) (round : σ → Nat → σ)
    (change : Nat → κ → κ) (own : ∀ st c, look (round st c) c = change c (look st c))
    (other : ∀ st c k, c ≠ k → look (round st c) k = look st k) (init : σ) (n k : Nat) :
    look ((List.range n).foldl round init) k =
      if k < n then change k (look init k) else look init k := by
  induction n with
  | zero => rw [if_neg (Nat.not_lt_zero k)]; rfl
  | succ n ih =>
    rw [List.range_succ, List.foldl_append, List.foldl_cons, List.foldl_nil]
    by_cases last : n = k
    · subst last
      rw [own, ih, if_neg (Nat.lt_irrefl n), if_pos (Nat.lt_succ_self n)]
    · have next : k < n + 1 ↔ k < n := by omega
      rw [other _ n k last, ih]
      simp only [next]

/-- The same for two nested loops of which the inner one runs over what is looked at. -/
theorem foldl_columns_look {σ κ : Type*} (look : σ → Nat → κ) (round : σ → Nat → Nat → σ)
    (change : Nat → Nat → κ → κ)
    (own : ∀ st j c, look (round st j c) c = change j c (look st c))
    (other : ∀ st j c k, c ≠ k → look (round st j c) k = look st k) (init : σ) (m n k : Nat)
    (less : k < n) :
    look ((List.range m).foldl
        (fun st j => (List.range n).foldl (fun st c => round st j c) st) init) k =
      (List.range m).foldl (fun x j => change j k x) (look init k) := by
  induction m with
  | zero => rfl
  | succ m ih =>
    have row := fun init => foldl_range_look look (fun st c => round st m c) (change m)
      (fun st c => own st m c) (fun st c k => other st m c k) init n k
    rw [List.range_succ, List.foldl_append, List.foldl_append, List.foldl_cons, List.foldl_nil,
      List.foldl_cons, List.foldl_nil, row, if_pos less, ih]

/-- A loop that rewrites one cell after the other. -/
theorem foldl_update {κ : Type*} (change : Nat → κ → κ) (buffer : Nat → κ) (first n p : Nat) :
    (List.range n).foldl (fun buffer j =>
        Function.update buffer (first + j) (change j (buffer (first + j)))) buffer p =
      if first ≤ p ∧ p < first + n then change (p - first) (buffer p) else buffer p := by
  by_cases before : p < first
  · rw [if_neg (by omega)]
    induction n with
    | zero => rfl
    | succ n ih =>
      rw [List.range_succ, List.foldl_append, List.foldl_cons, List.foldl_nil,
        Function.update_of_ne (by omega), ih]
  · obtain ⟨k, rfl⟩ := Nat.exists_eq_add_of_le (Nat.not_lt.mp before)
    have cells := foldl_range_look (fun (buffer : Nat → κ) j => buffer (first + j))
      (fun buffer j => Function.update buffer (first + j) (change j (buffer (first + j)))) change
      (fun buffer c => Function.update_self _ _ buffer)
      (fun buffer c k differ => Function.update_of_ne (by omega) _ buffer) buffer n k
    have inside : first ≤ first + k ∧ first + k < first + n ↔ k < n := by omega
    rw [cells, Nat.add_sub_cancel_left]
    simp only [inside]

/-- Two nested loops are one over a flat index that is divided back. -/
theorem foldl_range_mul {δ : Type*} (body : δ → Nat → Nat → δ) (init : δ) (m n : Nat) :
    (List.range m).foldl (fun acc a => (List.range n).foldl (fun acc b => body acc a b) acc) init =
      (List.range (m * n)).foldl (fun acc j => body acc (j / n) (j % n)) init := by
  induction m with
  | zero => rw [Nat.zero_mul]; rfl
  | succ m ih =>
    rw [List.range_succ, List.foldl_append, ih, Nat.succ_mul, List.range_add, List.foldl_append,
      List.foldl_map, List.foldl_cons, List.foldl_nil]
    refine List.foldl_ext _ _ _ ?_
    intro acc b inside
    have less : b < n := List.mem_range.mp inside
    rw [Nat.mul_comm, Nat.mul_add_div (Nat.zero_lt_of_lt less), Nat.div_eq_of_lt less, Nat.add_zero,
      Nat.mul_add_mod, Nat.mod_eq_of_lt less]

end CviRuntime.Loop
