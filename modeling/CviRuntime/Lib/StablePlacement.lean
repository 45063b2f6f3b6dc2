import Mathlib.Algebra.BigOperators.Group.List.Basic
import Mathlib.Algebra.Order.Ring.Nat
import Mathlib.Data.List.Induction
import Mathlib.Logic.Function.Basic

/-!
# Placing values by key

Each key has a block of places, one behind the other in the order of the keys, and a counter of the
places of its block that are taken. Values are put into the next place of the block of their key;
what comes out is the list of the values by key, each key's in their order.
-/

namespace CviRuntime.StablePlacement

variable {γ ρ : Type*}

/-- The values by key, for keys below `n`. -/
def grouped (n : Nat) (key : γ → Nat) (xs : List γ) : List γ :=
  (List.range n).flatMap fun k => xs.filter (key · = k)

/-- The values with a smaller key. -/
def before (key : γ → Nat) (xs : List γ) (k : Nat) : Nat :=
  ((List.range k).map fun k' => xs.countP (key · = k')).sum

/-- The places from `shift` on hold a list. -/
def writeFrom (out : Nat → ρ) (shift : Nat) (ys : List ρ) (p : Nat) : ρ :=
  if shift ≤ p then (ys[p - shift]?).getD (out p) else out p

/-- One value, with the counters of the keys. -/
def placeStep (key : γ → Nat) (val : γ → ρ) (start : Nat → Nat) (st : (Nat → ρ) × (Nat → Nat))
    (x : γ) : (Nat → ρ) × (Nat → Nat) :=
  (Function.update st.1 (start (key x) + st.2 (key x)) (val x),
    Function.update st.2 (key x) (st.2 (key x) + 1))

def placeAll (key : γ → Nat) (val : γ → ρ) (start : Nat → Nat) (out : Nat → ρ) (xs : List γ) :
    (Nat → ρ) × (Nat → Nat) :=
  xs.foldl (placeStep key val start) (out, fun _ => 0)

variable {key : γ → Nat} {val : γ → ρ} {start : Nat → Nat} {out : Nat → ρ} {xs : List γ} {x : γ}
  {n k : Nat}

/-! ## Writing in a row -/

theorem writeFrom_nil (out : Nat → ρ) (shift : Nat) : writeFrom out shift [] = out := by
  funext p
  simp [writeFrom]

theorem writeFrom_past {shift p : Nat} {ys : List ρ} (past : shift + ys.length ≤ p) :
    writeFrom out shift ys p = out p := by
  rw [writeFrom, if_pos (by omega), List.getElem?_eq_none (by omega), Option.getD_none]

theorem writeFrom_inside {shift p : Nat} {ys : List ρ} (out out' : Nat → ρ) (low : shift ≤ p)
    (inside : p < shift + ys.length) : writeFrom out shift ys p = writeFrom out' shift ys p := by
  have less : p - shift < ys.length := by omega
  rw [writeFrom, writeFrom, if_pos low, if_pos low, List.getElem?_eq_getElem less, Option.getD_some,
    Option.getD_some]

theorem writeFrom_cons (out : Nat → ρ) (shift : Nat) (y : ρ) (ys : List ρ) :
    writeFrom out shift (y :: ys) = writeFrom (Function.update out shift y) (shift + 1) ys := by
  funext p
  unfold writeFrom
  obtain below | rfl | above := Nat.lt_trichotomy p shift
  · rw [if_neg (by omega), if_neg (by omega), Function.update_of_ne (by omega)]
  · rw [if_pos (Nat.le_refl p), if_neg (Nat.not_succ_le_self p), Nat.sub_self,
      Function.update_self]
    rfl
  · rw [if_pos (by omega), if_pos (by omega), show p - shift = p - (shift + 1) + 1 by omega,
      List.getElem?_cons_succ, Function.update_of_ne (by omega)]

theorem writeFrom_append (out : Nat → ρ) (shift : Nat) (ys zs : List ρ) :
    writeFrom out shift (ys ++ zs) = writeFrom (writeFrom out shift ys) (shift + ys.length) zs := by
  induction ys generalizing out shift with
  | nil => rw [List.nil_append, writeFrom_nil, List.length_nil, Nat.add_zero]
  | cons y ys ih =>
    rw [List.cons_append, writeFrom_cons, ih, writeFrom_cons, List.length_cons,
      show shift + 1 + ys.length = shift + (ys.length + 1) by omega]

/-! ## Blocks -/

theorem before_succ (key : γ → Nat) (xs : List γ) (k : Nat) :
    before key xs (k + 1) = before key xs k + xs.countP (key · = k) := by
  rw [before, List.sum_range_succ]
  rfl

theorem before_add_le (less : k < n) :
    before key xs k + xs.countP (key · = k) ≤ before key xs n := by
  induction n with
  | zero => exact absurd less (Nat.not_lt_zero k)
  | succ n ih =>
    rw [before_succ]
    obtain earlier | rfl := Nat.lt_succ_iff_lt_or_eq.mp less
    · exact Nat.le_trans (ih earlier) (Nat.le_add_right _ _)
    · exact Nat.le_refl _

/-- The blocks are apart. -/
theorem block_inj {k k' r r' : Nat} (inside : r < xs.countP (key · = k))
    (inside' : r' < xs.countP (key · = k')) (same : before key xs k + r = before key xs k' + r') :
    k = k' ∧ r = r' := by
  obtain less | rfl | more := Nat.lt_trichotomy k k'
  · have apart : before key xs k + xs.countP (key · = k) ≤ before key xs k' := before_add_le less
    omega
  · exact ⟨rfl, by omega⟩
  · have apart : before key xs k' + xs.countP (key · = k') ≤ before key xs k := before_add_le more
    omega

theorem exists_block {p : Nat} (inside : p < before key xs n) :
    ∃ k < n, ∃ r < xs.countP (key · = k), p = before key xs k + r := by
  induction n with
  | zero => exact absurd inside (Nat.not_lt_zero p)
  | succ n ih =>
    by_cases earlier : p < before key xs n
    · obtain ⟨k, less, r, small, rfl⟩ := ih earlier
      exact ⟨k, Nat.lt_succ_of_lt less, r, small, rfl⟩
    · rw [before_succ] at inside
      exact ⟨n, Nat.lt_succ_self n, p - before key xs n, by omega, by omega⟩

theorem grouped_succ (n : Nat) (key : γ → Nat) (xs : List γ) :
    grouped (n + 1) key xs = grouped n key xs ++ xs.filter (key · = n) := by
  rw [grouped, List.range_succ, List.flatMap_append, List.flatMap_singleton]
  rfl

theorem length_grouped (n : Nat) (key : γ → Nat) (xs : List γ) :
    (grouped n key xs).length = before key xs n := by
  induction n with
  | zero => rfl
  | succ n ih =>
    rw [grouped_succ, List.length_append, ih, before_succ, ← List.countP_eq_length_filter]

theorem grouped_getElem? {r : Nat} (less : k < n) (inside : r < xs.countP (key · = k)) :
    (grouped n key xs)[before key xs k + r]? = (xs.filter (key · = k))[r]? := by
  induction n with
  | zero => exact absurd less (Nat.not_lt_zero k)
  | succ n ih =>
    rw [grouped_succ]
    obtain earlier | rfl := Nat.lt_succ_iff_lt_or_eq.mp less
    · have apart : before key xs k + xs.countP (key · = k) ≤ before key xs n :=
        before_add_le earlier
      rw [List.getElem?_append_left (by rw [length_grouped]; omega)]
      exact ih earlier
    · rw [List.getElem?_append_right (by rw [length_grouped]; omega), length_grouped,
        Nat.add_sub_cancel_left]

theorem before_eq_countP (key : γ → Nat) (xs : List γ) (n : Nat) :
    before key xs n = xs.countP (key · < n) := by
  have next (k : Nat) (xs : List γ) : xs.countP (key · < k + 1) =
      xs.countP (key · < k) + xs.countP (key · = k) := by
    induction xs with
    | nil => rfl
    | cons x xs ih =>
      simp only [List.countP_cons, decide_eq_true_eq, ih]
      split_ifs <;> omega
  induction n with
  | zero =>
    refine (List.countP_eq_zero.mpr fun x _ less => ?_).symm
    exact Nat.not_lt_zero (key x) (of_decide_eq_true less)
  | succ n ih => rw [before_succ, ih, next]

/-- By key there are as many values as before. -/
theorem length_grouped_of_keys (keys : ∀ x ∈ xs, key x < n) :
    (grouped n key xs).length = xs.length := by
  rw [length_grouped, before_eq_countP, List.countP_eq_length]
  exact fun x inside => decide_eq_true (keys x inside)

/-- Lists that are one behind the other by key are found again by it. -/
theorem filter_flatMap_range (key : γ → Nat) (lists : Nat → List γ)
    (keyed : ∀ k, ∀ x ∈ lists k, key x = k) (n k : Nat) :
    ((List.range n).flatMap lists).filter (key · = k) = if k < n then lists k else [] := by
  induction n with
  | zero => rw [if_neg (Nat.not_lt_zero k)]; rfl
  | succ n ih =>
    rw [List.range_succ, List.flatMap_append, List.flatMap_singleton, List.filter_append, ih]
    obtain less | rfl | more := Nat.lt_trichotomy k n
    · rw [if_pos less, if_pos (by omega), List.filter_eq_nil_iff.mpr, List.append_nil]
      intro x inside same
      exact Nat.ne_of_lt less ((of_decide_eq_true same).symm.trans (keyed n x inside))
    · rw [if_neg (Nat.lt_irrefl k), if_pos (Nat.lt_succ_self k), List.nil_append,
        List.filter_eq_self.mpr]
      intro x inside
      exact decide_eq_true (keyed k x inside)
    · rw [if_neg (by omega), if_neg (by omega), List.nil_append, List.filter_eq_nil_iff]
      intro x inside same
      exact Nat.ne_of_gt more ((of_decide_eq_true same).symm.trans (keyed n x inside))

/-! ## The loop -/

theorem placeAll_append (xs : List γ) (x : γ) : placeAll key val start out (xs ++ [x]) =
    placeStep key val start (placeAll key val start out xs) x := by
  rw [placeAll, List.foldl_append]
  rfl

theorem placeAll_used (xs : List γ) (k : Nat) :
    (placeAll key val start out xs).2 k = xs.countP (key · = k) := by
  induction xs using List.reverseRecOn with
  | nil => rfl
  | append_singleton xs x ih =>
    rw [placeAll_append, List.countP_append]
    change Function.update _ (key x) _ k = _
    by_cases same : key x = k
    · subst same
      simp [ih]
    · rw [Function.update_of_ne (Ne.symm same), ih]
      simp [same]

/-- A value with a key among those put so far is the last one, or one before it. -/
theorem getElem?_filter_concat {r : Nat} {y : γ}
    (found : ((xs ++ [x]).filter (key · = k))[r]? = some y) :
    key x = k ∧ xs.countP (key · = k) = r ∧ x = y ∨ (xs.filter (key · = k))[r]? = some y := by
  rw [List.filter_append] at found
  by_cases same : key x = k
  · rw [List.filter_cons_of_pos (by simp [same]), List.filter_nil] at found
    rw [List.countP_eq_length_filter]
    obtain earlier | past := Nat.lt_or_ge r (xs.filter (key · = k)).length
    · rw [List.getElem?_append_left earlier] at found
      exact Or.inr found
    · have within := (List.getElem?_eq_some_iff.mp found).1
      rw [List.length_append, List.length_singleton] at within
      obtain rfl : (xs.filter (key · = k)).length = r := by omega
      rw [List.getElem?_concat_length, Option.some_inj] at found
      exact Or.inl ⟨same, rfl, found⟩
  · rw [List.filter_cons_of_neg (by simp [same]), List.filter_nil, List.append_nil] at found
    exact Or.inr found

/-- What the places hold when the blocks are apart: `N` bounds what is in them. -/
theorem placeAll_spec (val : γ → ρ) (out : Nat → ρ) {N : Nat → Nat}
    (apart : ∀ k k' r r', r < N k → r' < N k' →
      start k + r = start k' + r' → k = k' ∧ r = r') (xs : List γ)
    (bound : ∀ k, xs.countP (key · = k) ≤ N k) :
    (∀ k r y, (xs.filter (key · = k))[r]? = some y →
      (placeAll key val start out xs).1 (start k + r) = val y) ∧
    ∀ p, (∀ k r, r < xs.countP (key · = k) → p ≠ start k + r) →
      (placeAll key val start out xs).1 p = out p := by
  induction xs using List.reverseRecOn with
  | nil => exact ⟨fun k r y none => by simp at none, fun p _ => rfl⟩
  | append_singleton xs x ih =>
    have here : xs.countP (key · = key x) < N (key x) := by
      have within := bound (key x)
      rw [List.countP_append, List.countP_singleton, if_pos (by simp)] at within
      omega
    have grows (k : Nat) : xs.countP (key · = k) ≤ (xs ++ [x]).countP (key · = k) := by
      rw [List.countP_append]
      exact Nat.le_add_right _ _
    obtain ⟨rows, rest⟩ := ih fun k => Nat.le_trans (grows k) (bound k)
    have step : (placeAll key val start out (xs ++ [x])).1 = Function.update
        (placeAll key val start out xs).1 (start (key x) + xs.countP (key · = key x)) (val x) := by
      rw [placeAll_append, placeStep, placeAll_used]
    rw [step]
    constructor
    · intro k r y found
      obtain ⟨rfl, rfl, rfl⟩ | earlier := getElem?_filter_concat found
      · exact Function.update_self _ _ _
      · have inside : r < xs.countP (key · = k) := by
          rw [List.countP_eq_length_filter]
          exact (List.getElem?_eq_some_iff.mp earlier).1
        rw [Function.update_of_ne, rows k r y earlier]
        intro same
        obtain ⟨rfl, rfl⟩ := apart k (key x) r _ (Nat.lt_of_lt_of_le inside
          (Nat.le_trans (grows k) (bound k))) here same
        exact Nat.lt_irrefl _ inside
    · intro p other
      rw [Function.update_of_ne, rest p fun k r inside => other k r
        (Nat.lt_of_lt_of_le inside (grows k))]
      apply other
      rw [List.countP_append, List.countP_singleton, if_pos (by simp)]
      exact Nat.lt_succ_self _

/-- With the blocks one behind the other from `shift` on, the values come out by key. -/
theorem placeAll_eq (shift : Nat) (keys : ∀ x ∈ xs, key x < n) :
    (placeAll key val (fun k => shift + before key xs k) out xs).1 =
      writeFrom out shift ((grouped n key xs).map val) := by
  have apart (k k' r r' : Nat) (inside : r < xs.countP (key · = k))
      (inside' : r' < xs.countP (key · = k'))
      (same : shift + before key xs k + r = shift + before key xs k' + r') : k = k' ∧ r = r' :=
    block_inj inside inside' (by omega)
  obtain ⟨rows, rest⟩ := placeAll_spec val out apart xs fun k => Nat.le_refl _
  funext p
  unfold writeFrom
  by_cases inside : shift ≤ p ∧ p - shift < before key xs n
  · obtain ⟨k, less, r, small, place⟩ := exists_block inside.2
    rw [List.countP_eq_length_filter] at small
    have found : (xs.filter (key · = k))[r]? = some (xs.filter (key · = k))[r] :=
      List.getElem?_eq_getElem small
    rw [if_pos inside.1, List.getElem?_map, place, grouped_getElem? less
      (by rwa [List.countP_eq_length_filter]), found, Option.map_some, Option.getD_some,
      ← rows k r _ found, show shift + before key xs k + r = p by omega]
  · rw [rest p]
    · by_cases low : shift ≤ p
      · rw [if_pos low, List.getElem?_eq_none (by rw [List.length_map, length_grouped]; omega)]
        rfl
      · rw [if_neg low]
    · rintro k r small rfl
      have less : k < n := by
        obtain ⟨x, at', same⟩ := List.countP_pos_iff.mp (Nat.zero_lt_of_lt small)
        rw [← of_decide_eq_true same]
        exact keys x at'
      have within : before key xs k + xs.countP (key · = k) ≤ before key xs n :=
        before_add_le less
      omega

end CviRuntime.StablePlacement
