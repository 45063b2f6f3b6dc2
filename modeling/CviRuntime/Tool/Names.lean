import Mathlib.Data.List.Nodup
import CviRuntime.Tool.SharedWeight

/-!
# The names a merge gives

A buffer of model `i` is to become `name_i`. The number after the last underscore tells the
models apart. The maps from old to new names are one for each program but are looked up with
the index of the model; `routine_name_maps[i]` belongs to the model that has the `i`-th program.
-/

namespace CviRuntime.Tool

open CviRuntime.Memory CviRuntime.Packed

/-! ## Names with a number -/

/-- A list is cut in one way at the last occurrence of an element. -/
theorem append_cons_inj_of_notMem {α : Type} {x : α} :
    ∀ {a b d e : List α}, a ++ x :: d = b ++ x :: e → x ∉ d → x ∉ e → a = b ∧ d = e := by
  intro a
  induction a with
  | nil =>
    intro b d e same notD notE
    cases b with
    | nil => exact ⟨rfl, (List.cons.inj same).2⟩
    | cons y b =>
      have tail := (List.cons.inj same).2
      exact absurd (by rw [tail]; simp) notD
  | cons y a ih =>
    intro b d e same notD notE
    cases b with
    | nil =>
      have tail := (List.cons.inj same).2
      exact absurd (by rw [← tail]; simp) notE
    | cons z b =>
      obtain ⟨rfl, tail⟩ := List.cons.inj same
      obtain ⟨rfl, rfl⟩ := ih tail notD notE
      exact ⟨rfl, rfl⟩

theorem toList_newName (name : String) (index : Nat) :
    (newName name index).toList = name.toList ++ '_' :: Nat.toDigits 10 index := by
  simp [newName]

theorem newName_ne_empty (name : String) (index : Nat) : newName name index ≠ "" := by
  intro empty
  have lists := congrArg String.toList empty
  rw [toList_newName] at lists
  simp at lists

/-- The new name tells the old name and the index. -/
theorem newName_inj {a b : String} {i j : Nat} (same : newName a i = newName b j) :
    a = b ∧ i = j := by
  have lists := congrArg String.toList same
  rw [toList_newName, toList_newName] at lists
  obtain ⟨names, digits⟩ := append_cons_inj_of_notMem lists Nat.underscore_not_in_toDigits
    Nat.underscore_not_in_toDigits
  refine ⟨String.toList_injective names, ?_⟩
  have values := congrArg (fun digits => Nat.ofDigitChars 10 digits 0) digits
  simpa using values

/-! ## The maps -/

theorem lookup_emplace {map : List (String × String)} {name key value : String} :
    (emplace map key value).lookup name =
      (map.lookup name).or (if name = key then some value else none) := by
  unfold emplace
  split
  · rename_i present
    by_cases same : name = key
    · subst same
      obtain ⟨entry, member, here⟩ := List.mem_map.mp present
      have found : (map.lookup name).isSome := by
        rw [List.lookup_isSome_iff]
        exact ⟨entry, member, by simp [here]⟩
      obtain ⟨other, isOther⟩ := Option.isSome_iff_exists.mp found
      rw [isOther]
      rfl
    · rw [if_neg same, Option.or_none]
  · exact lookup_append

/-- The map of a program knows the names its TPU routines give, and nothing else. -/
theorem lookupName_routineNameMap (index : Nat) (routines : List Routine) (name : String) :
    lookupName (routineNameMap index routines) name =
      if name ∈ routines.filterMap Routine.sectionName then newName name index else "" := by
  have lookup : ∀ (names : List String) (map : List (String × String)),
      (names.foldl (fun map name => emplace map name (newName name index)) map).lookup name =
        (map.lookup name).or (if name ∈ names then some (newName name index) else none) := by
    intro names
    induction names with
    | nil =>
      intro map
      simp
    | cons first names ih =>
      intro map
      rw [List.foldl_cons, ih, lookup_emplace, Option.or_assoc]
      congr 1
      by_cases same : name = first
      · subst same
        simp
      · simp [same]
  unfold lookupName routineNameMap
  rw [lookup]
  split <;> rfl

/-- A name is found in `routine_name_maps[i]` when the `i`-th program, of whatever model, has a
    routine that gives it. -/
theorem sectionName_buffer {models : List Model} {i : Nat} {s : Section} {name : String}
    (buffer : isBuffer s = true) :
    sectionName (routineNameMaps models) i s = some name ↔
      ∃ owner p, (allPrograms models)[i]? = some (owner, p) ∧
        s.name ∈ p.routines.filterMap Routine.sectionName ∧ name = newName s.name owner := by
  have maps : (routineNameMaps models).getD i [] =
      match (allPrograms models)[i]? with
      | none => []
      | some entry => routineNameMap entry.1 entry.2.routines := by
    unfold routineNameMaps
    rw [List.getD_eq_getElem?_getD, List.getElem?_map]
    cases (allPrograms models)[i]? with
    | none => rfl
    | some entry => rfl
  unfold sectionName
  rw [if_pos buffer, maps]
  cases found : (allPrograms models)[i]? with
  | none => simp [lookupName]
  | some entry =>
    obtain ⟨owner, p⟩ := entry
    simp only [lookupName_routineNameMap, Option.some.injEq, Prod.mk.injEq]
    by_cases named : s.name ∈ p.routines.filterMap Routine.sectionName
    · rw [if_pos named, if_neg (newName_ne_empty _ _), Option.some.injEq]
      constructor
      · rintro rfl
        exact ⟨owner, p, ⟨rfl, rfl⟩, named, rfl⟩
      · rintro ⟨_, _, ⟨rfl, rfl⟩, -, rfl⟩
        rfl
    · rw [if_neg named, if_pos rfl]
      constructor
      · intro impossible
        cases impossible
      · rintro ⟨_, _, ⟨rfl, rfl⟩, named', -⟩
        exact absurd named' named

end CviRuntime.Tool
