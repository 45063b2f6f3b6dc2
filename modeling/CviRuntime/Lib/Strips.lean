import CviRuntime.Lib.Interval
import CviRuntime.Lib.Loop

/-!
# Strips and rectangles

A loop with a fixed step cuts a range into strips, the last of which may be shorter. Two such
loops, one in the other, cut a rectangle.
-/

namespace CviRuntime.Strips

open CviRuntime.Interval CviRuntime.Loop

/-- What is left of the range from `pos` on, up to one step of it. -/
def strip (bound step pos : Nat) : Slot := (pos, min (bound - pos) step)

def strips (bound step : Nat) : List Slot := (positions bound step).map (strip bound step)

variable {bound step : Nat}

theorem cover_strips_from (point : Nat) :
    ∀ count pos, (∀ i < count, pos + step * i < bound) →
      cover ((List.range' pos count step).map (strip bound step)) point =
        if pos ≤ point ∧ point < min bound (pos + step * count) then 1 else 0 := by
  intro count
  induction count with
  | zero =>
    intro pos _
    rw [List.range'_zero, List.map_nil, cover_nil, if_neg (by omega)]
  | succ count ih =>
    intro pos inside
    have here := inside 0 (Nat.succ_pos count)
    have later := ih (pos + step) fun i small => by
      have := inside (i + 1) (Nat.succ_lt_succ small)
      rw [Nat.mul_add, Nat.mul_one] at this
      omega
    rw [List.range'_succ, List.map_cons, cover_cons, later, Nat.mul_add, Nat.mul_one]
    have first : (strip bound step pos).Contains point ↔
        pos ≤ point ∧ point < min bound (pos + step) := by
      simp only [Slot.Contains, strip]
      omega
    by_cases contained : (strip bound step pos).Contains point
    · have within := first.mp contained
      rw [if_pos contained, if_neg (by omega), if_pos (by omega)]
    · have without := mt first.mpr contained
      rw [if_neg contained, Nat.zero_add]
      congr 1
      simp only [eq_iff_iff]
      omega

/-- The strips of a range tile it. -/
theorem tiles_strips (stepPos : 0 < step) : Tiles bound (strips bound step) where
  nonempty slot member := by
    obtain ⟨pos, positioned, rfl⟩ := List.mem_map.mp member
    have below := ((mem_positions stepPos).mp positioned).2
    simp only [strip]
    omega
  once point := by
    have inside : ∀ i < rounds bound step, 0 + step * i < bound := fun i small => by
      rw [Nat.zero_add, Nat.mul_comm]
      exact (lt_rounds_iff stepPos i).mp small
    have past : bound ≤ step * rounds bound step := by
      rw [Nat.mul_comm]
      exact le_rounds_mul stepPos
    rw [strips, positions, cover_strips_from point _ _ inside]
    congr 1
    simp only [eq_iff_iff]
    omega

/-! ## Slots one after the other -/

/-- Slots of the given sizes, the first of which begins at `start`. -/
def consecutive (start : Nat) : List Nat → List Slot
  | [] => []
  | size :: sizes => (start, size) :: consecutive (start + size) sizes

theorem consecutive_append (start : Nat) (left right : List Nat) :
    consecutive start (left ++ right) =
      consecutive start left ++ consecutive (start + left.sum) right := by
  induction left generalizing start with
  | nil => rfl
  | cons size left ih =>
    rw [List.cons_append, consecutive, consecutive, ih, List.cons_append, List.sum_cons,
      Nat.add_assoc]

theorem cover_consecutive (start : Nat) (sizes : List Nat) (point : Nat) :
    cover (consecutive start sizes) point =
      if start ≤ point ∧ point < start + sizes.sum then 1 else 0 := by
  induction sizes generalizing start with
  | nil =>
    rw [consecutive, cover_nil, List.sum_nil, if_neg (by omega)]
  | cons size sizes ih =>
    rw [consecutive, cover_cons, ih, List.sum_cons]
    by_cases first : Slot.Contains (start, size) point
    · have inside : start ≤ point ∧ point < start + size := first
      rw [if_pos first, if_neg (by omega), if_pos (by omega)]
    · have outside : ¬ (start ≤ point ∧ point < start + size) := first
      rw [if_neg first, Nat.zero_add]
      congr 1
      simp only [eq_iff_iff]
      omega

theorem mem_consecutive {start : Nat} {sizes : List Nat} {slot : Slot}
    (member : slot ∈ consecutive start sizes) : slot.2 ∈ sizes := by
  induction sizes generalizing start with
  | nil => cases member
  | cons size sizes ih =>
    rcases List.mem_cons.mp member with rfl | later
    · exact List.mem_cons_self
    · exact List.mem_cons_of_mem _ (ih later)

/-- Non-empty slots one after the other tile the range of their lengths. -/
theorem tiles_consecutive {sizes : List Nat} (positive : ∀ size ∈ sizes, 0 < size) :
    Tiles sizes.sum (consecutive 0 sizes) where
  nonempty _ member := positive _ (mem_consecutive member)
  once point := by
    rw [cover_consecutive]
    congr 1
    simp only [eq_iff_iff]
    omega

/-! ## Rectangles -/

/-- Rows and columns. -/
abbrev Rect := Slot × Slot

def Rect.Contains (rect : Rect) (r c : Nat) : Prop := rect.1.Contains r ∧ rect.2.Contains c

instance (rect : Rect) (r c : Nat) : Decidable (rect.Contains r c) :=
  inferInstanceAs (Decidable (_ ∧ _))

/-- How many rectangles contain the place. -/
def coverRects (rects : List Rect) (r c : Nat) : Nat :=
  rects.countP fun rect => rect.Contains r c

theorem coverRects_append (left right : List Rect) (r c : Nat) :
    coverRects (left ++ right) r c = coverRects left r c + coverRects right r c := by
  simp [coverRects, List.countP_append]

theorem coverRects_pos {rects : List Rect} {rect : Rect} {r c : Nat} (member : rect ∈ rects)
    (inside : rect.Contains r c) : 0 < coverRects rects r c :=
  List.countP_pos_iff.mpr ⟨rect, member, by simpa using inside⟩

theorem coverRects_le_of_sublist {part rects : List Rect} (sub : part.Sublist rects) (r c : Nat) :
    coverRects part r c ≤ coverRects rects r c :=
  sub.countP_le

theorem exists_of_coverRects_pos {rects : List Rect} {r c : Nat} (pos : 0 < coverRects rects r c) :
    ∃ rect ∈ rects, rect.Contains r c := by
  obtain ⟨rect, member, inside⟩ := List.countP_pos_iff.mp pos
  exact ⟨rect, member, by simpa using inside⟩

/-- The rectangles are non-empty and every place of `h` rows of `w`, and no other, lies in exactly
    one. -/
structure TilesRect (h w : Nat) (rects : List Rect) : Prop where
  nonempty : ∀ rect ∈ rects, 0 < rect.1.2 ∧ 0 < rect.2.2
  once : ∀ r c, coverRects rects r c = if r < h ∧ c < w then 1 else 0

/-- One rectangle for each row slot and each column slot, row by row. -/
def grid (rows cols : List Slot) : List Rect :=
  rows.flatMap fun row => cols.map fun col => (row, col)

theorem coverRects_row (row : Slot) (cols : List Slot) (r c : Nat) :
    coverRects (cols.map fun col => (row, col)) r c =
      if row.Contains r then cover cols c else 0 := by
  rw [coverRects, List.countP_map]
  by_cases inRow : row.Contains r
  · rw [if_pos inRow]
    exact List.countP_congr fun col _ => by simp [Rect.Contains, inRow]
  · rw [if_neg inRow]
    exact List.countP_eq_zero.mpr fun col _ => by simp [Rect.Contains, inRow]

theorem coverRects_grid (rows cols : List Slot) (r c : Nat) :
    coverRects (grid rows cols) r c = cover rows r * cover cols c := by
  induction rows with
  | nil => simp [grid, coverRects]
  | cons row rows ih =>
    rw [grid, List.flatMap_cons, coverRects_append, coverRects_row, cover_cons, Nat.add_mul, ← ih]
    split
    · rw [Nat.one_mul, grid]
    · rw [Nat.zero_mul, grid]

/-- A grid over two tilings tiles the rectangle. -/
theorem tilesRect_grid {h w : Nat} {rows cols : List Slot} (tilesRows : Tiles h rows)
    (tilesCols : Tiles w cols) : TilesRect h w (grid rows cols) where
  nonempty rect member := by
    obtain ⟨row, inRows, inRow⟩ := List.mem_flatMap.mp member
    obtain ⟨col, inCols, rfl⟩ := List.mem_map.mp inRow
    exact ⟨tilesRows.nonempty row inRows, tilesCols.nonempty col inCols⟩
  once r c := by
    rw [coverRects_grid, tilesRows.once, tilesCols.once]
    split <;> split <;> simp_all

namespace TilesRect

variable {h w : Nat} {rects : List Rect}

theorem inside (tiles : TilesRect h w rects) {rect : Rect} (member : rect ∈ rects) {r c : Nat}
    (contains : rect.Contains r c) : r < h ∧ c < w := by
  by_contra outside
  have pos := coverRects_pos member contains
  rw [tiles.once, if_neg outside] at pos
  exact Nat.lt_irrefl 0 pos

theorem exists_mem (tiles : TilesRect h w rects) {r c : Nat} (row : r < h) (col : c < w) :
    ∃ rect ∈ rects, rect.Contains r c := by
  apply exists_of_coverRects_pos
  rw [tiles.once, if_pos ⟨row, col⟩]
  exact Nat.one_pos

end TilesRect

end CviRuntime.Strips
