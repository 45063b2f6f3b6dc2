import CviRuntime.Lib.Loop
import Mathlib.Data.List.Sort

/-!
# Maps with number keys

`std::map` goes through its entries in the order of the keys. For keys below `n` that is the order
of `List.range n`; a map of lists that values are pushed to holds them by key.
-/

namespace CviRuntime.KeyedMap

open Std (ExtTreeMap)
open Loop (foldl_range_look)

variable {β γ δ : Type*}

/-- Every key of the map is below `n`. -/
def Below (m : ExtTreeMap Nat β) (n : Nat) : Prop := ∀ k v, m[k]? = some v → k < n

theorem below_empty (n : Nat) : Below (∅ : ExtTreeMap Nat β) n := by
  intro k v held
  cases held

theorem Below.mono {m : ExtTreeMap Nat β} {n n' : Nat} (below : Below m n) (le : n ≤ n') :
    Below m n' := fun k v held => Nat.lt_of_lt_of_le (below k v held) le

theorem Below.getElem?_eq_none {m : ExtTreeMap Nat β} {n k : Nat} (below : Below m n)
    (high : n ≤ k) : m[k]? = none := by
  cases held : m[k]? with
  | none => rfl
  | some v => exact absurd (below k v held) (Nat.not_lt.mpr high)

theorem Below.insert {m : ExtTreeMap Nat β} {n key : Nat} (below : Below m n) (inside : key < n)
    (v : β) : Below (m.insert key v) n := by
  intro k v' held
  rw [ExtTreeMap.getElem?_insert] at held
  split at held
  · rename_i same
    exact compare_eq_iff_eq.mp same ▸ inside
  · exact below k v' held

theorem Below.alter {m : ExtTreeMap Nat β} {n key : Nat} (below : Below m n) (inside : key < n)
    (f : Option β → Option β) : Below (m.alter key f) n := by
  intro k v held
  rw [ExtTreeMap.getElem?_alter] at held
  split at held
  · rename_i same
    exact compare_eq_iff_eq.mp same ▸ inside
  · exact below k v held

theorem toList_eq {m : ExtTreeMap Nat β} {n : Nat} (below : Below m n) :
    m.toList = (List.range n).filterMap fun k => m[k]?.map (Prod.mk k) := by
  have sorted : m.toList.Pairwise fun a b => a.1 < b.1 :=
    ExtTreeMap.ordered_keys_toList.imp fun less => Nat.compare_eq_lt.mp less
  have sorted' : ((List.range n).filterMap fun k => m[k]?.map (Prod.mk k)).Pairwise
      fun a b => a.1 < b.1 := by
    rw [List.pairwise_filterMap]
    refine List.pairwise_lt_range.imp ?_
    rintro k k' less a here b there
    obtain ⟨v, -, rfl⟩ := Option.map_eq_some_iff.mp here
    obtain ⟨v', -, rfl⟩ := Option.map_eq_some_iff.mp there
    exact less
  have distinct {l : List (Nat × β)} (sorted : l.Pairwise fun a b => a.1 < b.1) : l.Nodup := by
    refine sorted.imp ?_
    rintro a b less rfl
    exact Nat.lt_irrefl _ less
  have perm : m.toList.Perm ((List.range n).filterMap fun k => m[k]?.map (Prod.mk k)) := by
    rw [List.perm_ext_iff_of_nodup (distinct sorted) (distinct sorted')]
    rintro ⟨k, v⟩
    rw [ExtTreeMap.mem_toList_iff_getElem?_eq_some, List.mem_filterMap]
    constructor
    · intro held
      exact ⟨k, List.mem_range.mpr (below k v held), by rw [held, Option.map_some]⟩
    · rintro ⟨k', -, held⟩
      obtain ⟨v', found, same⟩ := Option.map_eq_some_iff.mp held
      obtain ⟨rfl, rfl⟩ := Prod.mk.inj same
      exact found
  exact perm.eq_of_pairwise (fun a b _ _ less more => absurd more (Nat.lt_asymm less)) sorted
    sorted'

/-- A loop over the entries is one over all keys that skips those that are missing. -/
theorem foldl_toList {m : ExtTreeMap Nat β} {n : Nat} (below : Below m n) (f : δ → Nat × β → δ)
    (init : δ) : m.toList.foldl f init =
      (List.range n).foldl (fun acc k => m[k]?.elim acc fun v => f acc (k, v)) init := by
  rw [toList_eq below, List.foldl_filterMap]
  congr
  funext acc k
  cases m[k]? <;> rfl

theorem flatMap_toList {m : ExtTreeMap Nat β} {n : Nat} (below : Below m n)
    (f : Nat × β → List γ) : m.toList.flatMap f =
      (List.range n).flatMap fun k => (m[k]?.map fun v => f (k, v)).getD [] := by
  rw [toList_eq below]
  induction List.range n with
  | nil => rfl
  | cons k ks ih =>
    rw [List.flatMap_cons, ← ih]
    cases held : m[k]? with
    | none => simp [held]
    | some v => simp [held]

/-- A loop that changes the value of each key. -/
theorem getElem?_foldl_alter (m : ExtTreeMap Nat β) (f : β → β) (n k : Nat) :
    ((List.range n).foldl (fun m key => m.alter key (Option.map f)) m)[k]? =
      if k < n then m[k]?.map f else m[k]? := by
  refine foldl_range_look (fun (m : ExtTreeMap Nat β) k => m[k]?) _ (fun _ => Option.map f)
    (fun m key => ?_) (fun m key k other => ?_) m n k
  · exact ExtTreeMap.getElem?_alter_self
  · exact ExtTreeMap.getElem?_alter.trans (if_neg (mt compare_eq_iff_eq.mp other))

/-! ## Lists by key -/

/-- `m[key].push_back(x)`. -/
def push (m : ExtTreeMap Nat (List β)) (key : Nat) (x : β) : ExtTreeMap Nat (List β) :=
  m.alter key fun xs => some (xs.getD [] ++ [x])

/-- The map holds the lists that are not empty. -/
def Holds (m : ExtTreeMap Nat (List β)) (lists : Nat → List β) : Prop :=
  ∀ k, m[k]? = if lists k = [] then none else some (lists k)

theorem holds_empty : Holds (∅ : ExtTreeMap Nat (List β)) fun _ => [] := by
  intro k
  rw [ExtTreeMap.getElem?_empty, if_pos rfl]

theorem Holds.getD {m : ExtTreeMap Nat (List β)} {lists : Nat → List β} (holds : Holds m lists)
    (k : Nat) : m[k]?.getD [] = lists k := by
  rw [holds k]
  split <;> simp_all

theorem Holds.push {m : ExtTreeMap Nat (List β)} {lists : Nat → List β} (holds : Holds m lists)
    (key : Nat) (x : β) :
    Holds (KeyedMap.push m key x) fun k => if key = k then lists k ++ [x] else lists k := by
  intro k
  rw [KeyedMap.push, ExtTreeMap.getElem?_alter]
  by_cases same : key = k
  · subst same
    simp [holds.getD]
  · simp [same, holds k]

/-- Pushing values one after the other. -/
theorem Holds.foldl_push {m : ExtTreeMap Nat (List β)} {lists : Nat → List β}
    (holds : Holds m lists) (key : γ → Nat) (val : γ → β) (xs : List γ) :
    Holds (xs.foldl (fun m x => KeyedMap.push m (key x) (val x)) m) fun k =>
      lists k ++ (xs.filter (key · = k)).map val := by
  induction xs generalizing m lists with
  | nil => simpa using holds
  | cons x xs ih =>
    rw [List.foldl_cons]
    have rest := ih (holds.push (key x) (val x))
    intro k
    rw [rest k]
    by_cases same : key x = k <;> simp [same]

/-- Pushing those that pass a test. -/
theorem Holds.foldl_push_if {m : ExtTreeMap Nat (List β)} {lists : Nat → List β}
    (holds : Holds m lists) (keep : γ → Bool) (key : γ → Nat) (val : γ → β) (xs : List γ) :
    Holds (xs.foldl (fun m x => if keep x then KeyedMap.push m (key x) (val x) else m) m) fun k =>
      lists k ++ ((xs.filter keep).filter (key · = k)).map val := by
  rw [← List.foldl_filter]
  exact holds.foldl_push key val (xs.filter keep)

theorem Holds.below {m : ExtTreeMap Nat (List β)} {lists : Nat → List β} (holds : Holds m lists)
    {n : Nat} (none : ∀ k, n ≤ k → lists k = []) : Below m n := by
  intro k v held
  by_contra high
  rw [holds k, if_pos (none k (Nat.le_of_not_lt high))] at held
  cases held

end CviRuntime.KeyedMap
