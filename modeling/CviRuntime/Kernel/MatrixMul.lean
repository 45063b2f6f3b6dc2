import CviRuntime.Kernel.StrideCopy
import CviRuntime.Lib.Strips

/-!
# The tiles of the matrix multiplication (`src/common/kernel_function/matrixMul.cpp`)

`runtimeJitMatrixMul` searches for a tile of the product that fits the local memory with all of the
`k` products, and emits for each tile the loads of its rows of the left matrix and its columns of
the right one, the multiplication and the store of the 32-bit result. Positions and offsets are
`uint32_t`.
-/

namespace CviRuntime.Kernel

open CviRuntime.Interval CviRuntime.Loop CviRuntime.Strips

/-- `cvk_ml_shape_t`. -/
structure MlShape where
  n : Nat
  c : Nat
  w : Nat
  col : Nat
  deriving DecidableEq, Repr

/-- `cvk_mg_t`, a matrix in global memory. -/
structure Mg where
  baseRegIndex : Nat
  startAddress : Nat
  fmt : CvkFmt
  row : Nat
  col : Nat
  strideRow : Nat
  deriving DecidableEq, Repr

/-- Where an element lies in the buffer of the base register. -/
def Mg.address (mg : Mg) (r c : Nat) : Nat := mg.startAddress + r * mg.strideRow + c

/-- The functions of the kernel library that the sizes come from. -/
structure MulOps where
  mlDefaultShape : Nat → Nat → CvkFmt → MlShape
  lmemMatrixToSize : MlShape → CvkFmt → Nat
  lmemPs32MatrixToSize : MlShape → CvkFmt → Nat
  lmemTensorToSize : TgShape → CvkFmt → Nat

/-- `formatTranslate` (`matrixMul.cpp:99-108`); `none` where it asserts. -/
def formatTranslate : CviFmt → Option CvkFmt
  | .int8 => some .i8
  | .uint8 => some .u8
  | _ => none

/-- The sizes of a left, right, result and converted result tile. -/
def leftSize (ops : MulOps) (fmt : CvkFmt) (m k : Nat) : Nat :=
  ops.lmemMatrixToSize (ops.mlDefaultShape m k fmt) fmt

def rightSize (ops : MulOps) (fmt : CvkFmt) (k n : Nat) : Nat :=
  ops.lmemMatrixToSize (ops.mlDefaultShape k n fmt) fmt

def ps32Size (ops : MulOps) (fmt : CvkFmt) (m n : Nat) : Nat :=
  ops.lmemPs32MatrixToSize (ops.mlDefaultShape m n fmt) fmt

def resultSize (ops : MulOps) (fmt : CvkFmt) (m n : Nat) : Nat :=
  let shape := ops.mlDefaultShape m n fmt
  ops.lmemTensorToSize ⟨shape.n, shape.c, 1, 4 * shape.w % 2 ^ 32⟩ fmt

/-- Their sum. -/
def tileSize (ops : MulOps) (fmt : CvkFmt) (m k n : Nat) : Nat :=
  leftSize ops fmt m k + rightSize ops fmt k n + ps32Size ops fmt m n + resultSize ops fmt m n

/-- `total_size` (`matrixMul.cpp:134-147`), a `uint32_t`. -/
def totalSize (ops : MulOps) (fmt : CvkFmt) (m k n : Nat) : Nat := tileSize ops fmt m k n % 2 ^ 32

/-- `align_up(n_step - min_n_step, min_n_step)` (`matrixMul.cpp:132`): a `uint32_t` difference,
    rounded up on 64 bits and cut to 32. -/
def nextNStep (minNStep nStep : Nat) : Nat :=
  alignUp ((nStep + 2 ^ 32 - minNStep) % 2 ^ 32) minNStep % 2 ^ 32

/-- `m_step`, `k_step`, `n_step` and `total_size` when the search ends. -/
structure MulTile where
  mStep : Nat
  kStep : Nat
  nStep : Nat
  totalSize : Nat
  deriving DecidableEq, Repr

/-- The innermost loop of the search, over `m_step`. -/
def searchM (ops : MulOps) (lmemSize : Nat) (fmt : CvkFmt) (m kStep nStep : Nat) :
    Option (Option MulTile) :=
  countdown (fun mStep =>
    let total := totalSize ops fmt mStep kStep nStep
    some (if total < lmemSize then some ⟨mStep, kStep, nStep, total⟩ else none)) m

/-- The loop over `n_step`. -/
def searchN (ops : MulOps) (lmemSize minNStep fuel : Nat) (fmt : CvkFmt) (m n kStep : Nat) :
    Option (Option MulTile) :=
  searchDown (nextNStep minNStep) (searchM ops lmemSize fmt m kStep) fuel n

/-- The tile search (`matrixMul.cpp:121-151`); the engine takes dimensions of 12 bits. -/
def tileSearch (ops : MulOps) (lmemSize minNStep fuel : Nat) (fmt : CvkFmt) (m k n : Nat) :
    Option (Option MulTile) :=
  countdown (searchN ops lmemSize minNStep fuel fmt m n) (min k 4095)

/-- The commands for one tile of the result. -/
structure MulCmds where
  mPos : Nat
  nPos : Nat
  curM : Nat
  curN : Nat
  left : Mg
  right : Mg
  leftShape : MlShape
  rightShape : MlShape
  resShape : MlShape
  ps32Mode : Nat
  addResult : Nat
  store : Mg
  deriving DecidableEq, Repr

/-- `tdma_load_stride` (`matrixMul.cpp:19-34`). -/
def tdmaLoadStride (shape : MlShape) (gaSrc strideRow regIdx : Nat) : Mg :=
  ⟨regIdx, gaSrc, .u8, shape.n, shape.col, strideRow⟩

/-- The store of `convert_result_and_store` (`matrixMul.cpp:88-97`): the result has four bytes for
    each column. -/
def convertResultAndStore (ps32 : MlShape) (gaddr resCol : Nat) : Mg :=
  let res : MlShape := ⟨ps32.n, ps32.c, 4 * ps32.w % 2 ^ 32, 4 * ps32.col % 2 ^ 32⟩
  ⟨4, gaddr, .u8, res.n, res.col, 4 * resCol % 2 ^ 32⟩

/-- The advance of a `uint32_t` counter. -/
def wrapAdd (step pos : Nat) : Option Nat := some ((pos + step) % 2 ^ 32)

/-- The body of the innermost loop (`matrixMul.cpp:182-214`). -/
def mulAt (ops : MulOps) (fmt : CvkFmt) (k n nStep kPos curK mPos curM nPos : Nat) : MulCmds :=
  let curN := min (n - nPos) nStep
  let left := ops.mlDefaultShape curM curK fmt
  let right := ops.mlDefaultShape curK curN fmt
  let res := ops.mlDefaultShape curM curN fmt
  { mPos := mPos
    nPos := nPos
    curM := curM
    curN := curN
    left := tdmaLoadStride left (mPos * k % 2 ^ 32 + kPos) k 2
    right := tdmaLoadStride right (kPos * n % 2 ^ 32 + nPos) n 3
    leftShape := left
    rightShape := right
    resShape := res
    ps32Mode := 2
    addResult := 0
    store := convertResultAndStore res ((mPos * n % 2 ^ 32 + nPos) % 2 ^ 32 * 4) n }

/-- The loop over the columns. -/
def mulRow (ops : MulOps) (fmt : CvkFmt) (fuel m k n mStep nStep kPos curK mPos : Nat) :
    Option (List MulCmds) :=
  forUp (wrapAdd nStep)
    (fun nPos => some (mulAt ops fmt k n nStep kPos curK mPos (min (m - mPos) mStep) nPos)) n fuel 0

/-- The loop over the rows. -/
def mulRows (ops : MulOps) (fmt : CvkFmt) (fuel m k n mStep nStep kPos curK : Nat) :
    Option (List MulCmds) :=
  (forUp (wrapAdd mStep) (mulRow ops fmt fuel m k n mStep nStep kPos curK) m fuel 0).map
    List.flatten

/-- The emission for a tile (`matrixMul.cpp:165-217`), with the assertion in its outermost loop. -/
def emitTiles (ops : MulOps) (fmt : CvkFmt) (fuel m k n : Nat) (tile : MulTile) :
    Option (List MulCmds) :=
  (forUp (wrapAdd tile.kStep)
    (fun kPos =>
      let curK := min (k - kPos) tile.kStep
      if curK = tile.kStep then mulRows ops fmt fuel m k n tile.mStep tile.nStep kPos curK
      else none) k fuel 0).map List.flatten

/-- `runtimeJitMatrixMul` up to the loading of the command buffer; `none` where it asserts. -/
def runtimeJitMatrixMul (ops : MulOps) (lmemSize euNum laneNum fuel : Nat) (format : CviFmt)
    (m k n : Nat) : Option (List MulCmds) :=
  (formatTranslate format).bind fun fmt =>
    (tileSearch ops lmemSize (euNum * laneNum % 2 ^ 32) fuel fmt m k n).bind fun found =>
      (found.filter fun tile => k ≤ tile.kStep).bind fun tile => emitTiles ops fmt fuel m k n tile

/-! ## The search -/

/-- What the library is relied on for: its default shape has the given dimensions, and a larger
    matrix does not take less. -/
structure MulOps.Lawful (ops : MulOps) : Prop where
  shape : ∀ rows cols fmt, (ops.mlDefaultShape rows cols fmt).n = rows ∧
    (ops.mlDefaultShape rows cols fmt).col = cols
  left : ∀ {m m' k k' : Nat} (fmt : CvkFmt), m ≤ m' → k ≤ k' →
    leftSize ops fmt m k ≤ leftSize ops fmt m' k'
  right : ∀ {k k' n n' : Nat} (fmt : CvkFmt), k ≤ k' → n ≤ n' →
    rightSize ops fmt k n ≤ rightSize ops fmt k' n'
  ps32 : ∀ {m m' n n' : Nat} (fmt : CvkFmt), m ≤ m' → n ≤ n' →
    ps32Size ops fmt m n ≤ ps32Size ops fmt m' n'
  result : ∀ {m m' n n' : Nat} (fmt : CvkFmt), m ≤ m' → n ≤ n' →
    resultSize ops fmt m n ≤ resultSize ops fmt m' n'

section Search

variable {ops : MulOps} {lmemSize minNStep fuel m k n : Nat} {fmt : CvkFmt}

theorem tileSize_mono (lawful : ops.Lawful) {m' k' n' : Nat} (ms : m ≤ m') (ks : k ≤ k')
    (ns : n ≤ n') : tileSize ops fmt m k n ≤ tileSize ops fmt m' k' n' :=
  Nat.add_le_add (Nat.add_le_add (Nat.add_le_add (lawful.left fmt ms ks) (lawful.right fmt ks ns))
    (lawful.ps32 fmt ms ns)) (lawful.result fmt ms ns)

/-- The next step is the largest multiple below, also where the difference wraps. -/
theorem nextNStep_eq {j : Nat} (word : j < 32) (power : minNStep = 2 ^ j) {nStep : Nat}
    (positive : 0 < nStep) (small : nStep < 2 ^ 32) :
    nextNStep minNStep nStep = (nStep - 1) / minNStep * minNStep := by
  have minPos : 0 < minNStep := power ▸ Nat.two_pow_pos j
  obtain ⟨f, whole⟩ : minNStep ∣ 2 ^ 32 := power ▸ Nat.pow_dvd_pow 2 word.le
  have minLe : minNStep ≤ 2 ^ 32 := Nat.le_of_dvd (by decide) ⟨f, whole⟩
  rw [nextNStep]
  by_cases above : minNStep ≤ nStep
  · have difference : (nStep + 2 ^ 32 - minNStep) % 2 ^ 32 = nStep - minNStep := by omega
    have sum : nStep - minNStep + minNStep - 1 = nStep - 1 := by omega
    have le := Nat.div_mul_le_self (nStep - 1) minNStep
    rw [difference, alignUp, sum, Nat.mod_eq_of_lt (by omega)]
  · have difference : (nStep + 2 ^ 32 - minNStep) % 2 ^ 32 = nStep + 2 ^ 32 - minNStep := by omega
    have sum : nStep + 2 ^ 32 - minNStep + minNStep - 1 = minNStep * f + (nStep - 1) := by omega
    rw [difference, alignUp, sum, Nat.mul_add_div minPos, Nat.div_eq_of_lt (by omega), Nat.add_zero,
      Nat.mul_comm f, ← whole, Nat.mod_self, Nat.zero_mul]

theorem nextNStep_lt {j : Nat} (word : j < 32) (power : minNStep = 2 ^ j) (nStep : Nat)
    (positive : 0 < nStep) : nextNStep minNStep nStep < nStep := by
  by_cases small : nStep < 2 ^ 32
  · have le := Nat.div_mul_le_self (nStep - 1) minNStep
    rw [nextNStep_eq word power positive small]
    omega
  · exact (Nat.mod_lt _ (by decide)).trans_le (Nat.not_lt.mp small)

/-- The values that `n_step` goes through: `n`, then the multiples below it. -/
theorem visits_nextNStep {j : Nat} (word : j < 32) (power : minNStep = 2 ^ j) :
    ∀ {n : Nat}, n < 2 ^ 32 → ∀ {x : Nat}, Visits (nextNStep minNStep) n x ↔
      0 < x ∧ x ≤ n ∧ (x = n ∨ minNStep ∣ x) := by
  have minPos : 0 < minNStep := power ▸ Nat.two_pow_pos j
  intro n small x
  constructor
  · intro visits
    induction visits with
    | here positive => exact ⟨positive, Nat.le_refl _, .inl rfl⟩
    | @later start x positive _ ih =>
      have less := nextNStep_lt word power start positive
      obtain ⟨xPos, le, same⟩ := ih (less.trans small)
      refine ⟨xPos, le.trans less.le, .inr ?_⟩
      rcases same with rfl | divides
      · rw [nextNStep_eq word power positive small]
        exact Nat.dvd_mul_left _ _
      · exact divides
  · induction n using Nat.strong_induction_on with
    | _ n ih =>
      rintro ⟨xPos, le, same⟩
      have nPos : 0 < n := xPos.trans_le le
      rcases Nat.eq_or_lt_of_le le with rfl | less
      · exact .here xPos
      · have divides : minNStep ∣ x := same.resolve_left less.ne
        have nextLt := nextNStep_lt word power n nPos
        have below : x ≤ nextNStep minNStep n := by
          rw [nextNStep_eq word power nPos small]
          obtain ⟨q, rfl⟩ := divides
          rw [Nat.mul_comm minNStep q]
          refine Nat.mul_le_mul_right _ ((Nat.le_div_iff_mul_le minPos).mpr ?_)
          rw [Nat.mul_comm]
          omega
        exact .later nPos (ih _ nextLt (nextLt.trans small) ⟨xPos, below, .inr divides⟩)

/-- The search ends. -/
theorem tileSearch_isSome {j : Nat} (word : j < 32) (power : minNStep = 2 ^ j) (enough : n < fuel) :
    (tileSearch ops lmemSize minNStep fuel fmt m k n).isSome :=
  countdown_isSome fun _ _ _ => searchDown_isSome (nextNStep_lt word power)
    (fun _ _ => countdown_isSome fun _ _ _ => rfl) enough

/-- The first tile with all of the `k` products that passes the size test, in the order of the
    search: wide ones first, and among them high ones. -/
structure FirstFit (ops : MulOps) (lmemSize minNStep : Nat) (fmt : CvkFmt)
    (m k n mStep nStep : Nat) : Prop where
  rows : 0 < mStep ∧ mStep ≤ m
  cols : 0 < nStep ∧ nStep ≤ n ∧ (nStep = n ∨ minNStep ∣ nStep)
  fits : totalSize ops fmt mStep k nStep < lmemSize
  higher : ∀ a, mStep < a → a ≤ m → ¬ totalSize ops fmt a k nStep < lmemSize
  wider : ∀ b, nStep < b → b ≤ n → (b = n ∨ minNStep ∣ b) →
    ∀ a, 0 < a → a ≤ m → ¬ totalSize ops fmt a k b < lmemSize

theorem searchM_hit {kStep nStep : Nat} {tile : MulTile} :
    searchM ops lmemSize fmt m kStep nStep = some (some tile) ↔
      ∃ mStep, (0 < mStep ∧ mStep ≤ m) ∧
        (totalSize ops fmt mStep kStep nStep < lmemSize ∧
          tile = ⟨mStep, kStep, nStep, totalSize ops fmt mStep kStep nStep⟩) ∧
        ∀ a, mStep < a → a ≤ m → ¬ totalSize ops fmt a kStep nStep < lmemSize := by
  rw [searchM, countdown_eq_hit]
  simp only [Option.some_inj, Option.ite_none_right_eq_some, ite_eq_right_iff, reduceCtorEq,
    eq_comm (a := tile)]

theorem searchM_miss {kStep nStep : Nat} :
    searchM ops lmemSize fmt m kStep nStep = some none ↔
      ∀ a, 0 < a → a ≤ m → ¬ totalSize ops fmt a kStep nStep < lmemSize := by
  rw [searchM, countdown_eq_miss]
  simp only [Option.some_inj, ite_eq_right_iff, reduceCtorEq]

/-- What the search leaves when the tile passes the assertions. -/
theorem tileSearch_hit {j : Nat} (word : j < 32) (power : minNStep = 2 ^ j) (nSmall : n < 2 ^ 32)
    {tile : MulTile}
    (found : tileSearch ops lmemSize minNStep fuel fmt m k n = some (some tile))
    (whole : k ≤ tile.kStep) :
    k ≤ 4095 ∧ tile = ⟨tile.mStep, k, tile.nStep, totalSize ops fmt tile.mStep k tile.nStep⟩ ∧
      FirstFit ops lmemSize minNStep fmt m k n tile.mStep tile.nStep := by
  obtain ⟨kStep, kIn, inner, -⟩ := countdown_eq_hit.mp found
  obtain ⟨nStep, visits, taken, wider⟩ := searchDown_hit (nextNStep_lt word power) inner
  obtain ⟨mStep, rows, ⟨fits, rfl⟩, higher⟩ := searchM_hit.mp taken
  simp only at whole
  have capped := Nat.le_min.mp kIn.2
  obtain rfl : kStep = k := Nat.le_antisymm capped.1 whole
  refine ⟨capped.2, rfl, rows, (visits_nextNStep word power nSmall).mp visits, fits, higher, ?_⟩
  intro b above below step
  exact searchM_miss.mp (wider b ((visits_nextNStep word power nSmall).mpr
    ⟨(Nat.zero_le _).trans_lt above, below, step⟩) above)

theorem tileSearch_of_firstFit {j : Nat} (word : j < 32) (power : minNStep = 2 ^ j)
    (nSmall : n < 2 ^ 32) (kPos : 0 < k) (kSmall : k ≤ 4095) {mStep nStep : Nat}
    (first : FirstFit ops lmemSize minNStep fmt m k n mStep nStep) (enough : n < fuel) :
    tileSearch ops lmemSize minNStep fuel fmt m k n =
      some (some ⟨mStep, k, nStep, totalSize ops fmt mStep k nStep⟩) := by
  rw [tileSearch, Nat.min_eq_left kSmall]
  refine countdown_eq_hit.mpr ⟨k, ⟨kPos, Nat.le_refl k⟩, ?_, fun y above below =>
    absurd below (Nat.not_le.mpr above)⟩
  refine searchDown_of_hit (nextNStep_lt word power)
    ((visits_nextNStep word power nSmall).mpr first.cols)
    (searchM_hit.mpr ⟨mStep, first.rows, ⟨first.fits, rfl⟩, first.higher⟩) ?_ enough
  intro b visits above
  obtain ⟨-, below, step⟩ := (visits_nextNStep word power nSmall).mp visits
  exact searchM_miss.mpr (first.wider b above below step)

end Search

/-! ## The emission -/

/-- The part of the result that a tile computes. -/
def MulCmds.rect (cmds : MulCmds) : Rect := ((cmds.mPos, cmds.curM), (cmds.nPos, cmds.curN))

/-- The tile is inside the result. Its operands are its rows of the `m` by `k` left matrix and its
    columns of the `k` by `n` right one, nothing else is added, and the four bytes of each element
    go to its place in the result. -/
structure MulCmds.Exact (cmds : MulCmds) (m k n : Nat) : Prop where
  inside : cmds.mPos + cmds.curM ≤ m ∧ cmds.nPos + cmds.curN ≤ n
  left : (cmds.left.row = cmds.curM ∧ cmds.left.col = k) ∧
    ∀ r < cmds.curM, ∀ j < k, cmds.left.address r j = (cmds.mPos + r) * k + j
  right : (cmds.right.row = k ∧ cmds.right.col = cmds.curN) ∧
    ∀ j < k, ∀ c < cmds.curN, cmds.right.address j c = j * n + (cmds.nPos + c)
  product : (cmds.leftShape.n = cmds.curM ∧ cmds.leftShape.col = k) ∧
    (cmds.rightShape.n = k ∧ cmds.rightShape.col = cmds.curN) ∧
    (cmds.resShape.n = cmds.curM ∧ cmds.resShape.col = cmds.curN) ∧
    cmds.ps32Mode = 2 ∧ cmds.addResult = 0
  store : (cmds.store.row = cmds.curM ∧ cmds.store.col = 4 * cmds.curN) ∧
    ∀ r < cmds.curM, ∀ c < cmds.curN, ∀ b < 4,
      cmds.store.address r (4 * c + b) = 4 * ((cmds.mPos + r) * n + (cmds.nPos + c)) + b

/-- The tiles compute every element once, each from all of its products, and none of them takes
    more than the chosen one. -/
structure MulExact (ops : MulOps) (fmt : CvkFmt) (m k n : Nat) (tile : MulTile)
    (cmds : List MulCmds) : Prop where
  partition : TilesRect m n (cmds.map MulCmds.rect)
  each : ∀ c ∈ cmds, c.Exact m k n
  within : ∀ c ∈ cmds, c.curM ≤ tile.mStep ∧ c.curN ≤ tile.nStep
  size : ∀ c ∈ cmds, totalSize ops fmt c.curM k c.curN ≤ tile.totalSize

/-- No `uint32_t` of the emission wraps. -/
structure MulInRange (m k n mStep nStep : Nat) : Prop where
  rowAdvance : lastPos m mStep + mStep < 2 ^ 32
  colAdvance : lastPos n nStep + nStep < 2 ^ 32
  left : lastPos m mStep * k < 2 ^ 32
  result : lastPos m mStep * n + lastPos n nStep < 2 ^ 32
  columns : 4 * nStep < 2 ^ 32
  stride : mStep = 1 ∨ 4 * n < 2 ^ 32

section Wrap

variable {β : Type*} {body : Nat → Option β} {bound step fuel : Nat}

theorem wrapAdd_of_lt {pos : Nat} (small : pos + step < 2 ^ 32) :
    wrapAdd step pos = some (pos + step) := by
  rw [wrapAdd, Nat.mod_eq_of_lt small]

/-- A loop that ends has gone through all positions, and on from where the counter went next. -/
theorem forUp_wrapAdd {results : List β} (stepPos : 0 < step) (boundPos : 0 < bound)
    (small : bound < 2 ^ 32) (ends : forUp (wrapAdd step) body bound fuel 0 = some results) :
    ∃ fuel' done rest,
      forUp (wrapAdd step) body bound fuel' ((lastPos bound step + step) % 2 ^ 32) = some rest ∧
        results = done ++ rest ∧ done.map some = (positions bound step).map body := by
  obtain ⟨fuel', done, rest, pos', advance, restEq, split, bodies⟩ :=
    forUp_visits stepPos boundPos (fun _ below => wrapAdd_of_lt (below.trans small)) ends
  obtain rfl := Option.some.inj advance
  exact ⟨fuel', done, rest, restEq, split, bodies⟩

/-- A loop whose counter does not wrap ends when its rounds do. -/
theorem forUp_wrapAdd_positions (stepPos : 0 < step) (advance : lastPos bound step + step < 2 ^ 32)
    (bodies : ∀ pos ∈ positions bound step, (body pos).isSome) (enough : rounds bound step < fuel) :
    ∃ results, forUp (wrapAdd step) body bound fuel 0 = some results ∧
      results.map some = (positions bound step).map body :=
  forUp_positions stepPos (fun _ member => wrapAdd_of_lt
    ((Nat.add_le_add_right (le_lastPos stepPos member) step).trans_lt advance)) bodies enough

/-- A counter that wraps goes back into the range. -/
theorem wrapped_lt (boundPos : 0 < bound) (boundSmall : bound < 2 ^ 32)
    (stepLe : step ≤ bound) (wraps : 2 ^ 32 ≤ lastPos bound step + step) :
    (lastPos bound step + step) % 2 ^ 32 < bound := by
  have below : lastPos bound step < bound := lastPos_lt boundPos
  omega

end Wrap

section Emission

variable {ops : MulOps} {lmemSize minNStep fuel m k n mStep nStep : Nat} {fmt : CvkFmt}

/-- A tile whose offsets do not wrap is exact. -/
theorem mulAt_exact (lawful : ops.Lawful) (inRange : MulInRange m k n mStep nStep)
    (mStepPos : 0 < mStep) (nStepPos : 0 < nStep)
    {mPos nPos : Nat} (row : mPos ∈ positions m mStep) (col : nPos ∈ positions n nStep) :
    (mulAt ops fmt k n nStep 0 k mPos (min (m - mPos) mStep) nPos).Exact m k n := by
  have rowBelow := ((mem_positions mStepPos).mp row).2
  have colBelow := ((mem_positions nStepPos).mp col).2
  have rowLast := le_lastPos mStepPos row
  have colLast := le_lastPos nStepPos col
  have columns := inRange.columns
  have leftStart : mPos * k % 2 ^ 32 = mPos * k :=
    Nat.mod_eq_of_lt ((Nat.mul_le_mul_right k rowLast).trans_lt inRange.left)
  have result : mPos * n + nPos < 2 ^ 32 :=
    (Nat.add_le_add (Nat.mul_le_mul_right n rowLast) colLast).trans_lt inRange.result
  have resultStart : (mPos * n % 2 ^ 32 + nPos) % 2 ^ 32 = mPos * n + nPos := by omega
  have shape := fun rows cols => lawful.shape rows cols fmt
  refine ⟨⟨?_, ?_⟩, ⟨shape _ _, ?_⟩, ⟨shape _ _, ?_⟩, ⟨shape _ _, shape _ _, shape _ _, rfl, rfl⟩,
    ⟨(shape _ _).1, ?_⟩, ?_⟩
  · simp only [mulAt]
    omega
  · simp only [mulAt]
    omega
  · intro r _ j _
    simp only [mulAt, tdmaLoadStride, Mg.address, leftStart]
    ring
  · intro j _ c _
    simp only [mulAt, tdmaLoadStride, Mg.address, Nat.zero_mul, Nat.zero_mod]
    ring
  · simp only [mulAt, convertResultAndStore, (shape _ _).2]
    exact Nat.mod_eq_of_lt (by omega)
  · intro r rowIn c _ b _
    simp only [mulAt] at rowIn
    simp only [mulAt, convertResultAndStore, Mg.address, resultStart]
    have strides : r * (4 * n % 2 ^ 32) = r * (4 * n) := by
      rcases inRange.stride with one | small
      · obtain rfl : r = 0 := by omega
        rw [Nat.zero_mul, Nat.zero_mul]
      · rw [Nat.mod_eq_of_lt small]
    rw [strides]
    ring

/-- And only such a tile is. -/
theorem inRange_of_mulAt_exact (lawful : ops.Lawful) (kPos : 0 < k) {mPos nPos curM : Nat}
    (curMPos : 0 < curM) (curNPos : 0 < min (n - nPos) nStep)
    (exact : (mulAt ops fmt k n nStep 0 k mPos curM nPos).Exact m k n) :
    mPos * k < 2 ^ 32 ∧ mPos * n + nPos < 2 ^ 32 ∧ 4 * min (n - nPos) nStep < 2 ^ 32 ∧
      (curM = 1 ∨ 4 * n < 2 ^ 32) := by
  have shape := fun rows cols => lawful.shape rows cols fmt
  have left := exact.left.2 0 curMPos 0 kPos
  have store := exact.store.2 0 curMPos 0 curNPos 0 (by decide)
  have columns := exact.store.1.2
  simp only [mulAt, tdmaLoadStride, convertResultAndStore, Mg.address, Nat.zero_mul, Nat.mul_zero,
    Nat.add_zero, (shape _ _).2] at left store columns
  have word : ∀ x, x % 2 ^ 32 < 2 ^ 32 := fun x => Nat.mod_lt x (by decide)
  refine ⟨left ▸ word _, ?_, columns ▸ word _, ?_⟩
  · have := word (mPos * n % 2 ^ 32 + nPos)
    omega
  · rcases Nat.eq_or_lt_of_le curMPos with one | more
    · exact .inl one.symm
    · have second := exact.store.2 1 more 0 curNPos 0 (by decide)
      simp only [mulAt, convertResultAndStore, Mg.address, Nat.one_mul, Nat.mul_zero,
        Nat.add_zero, Nat.add_mul] at second
      have := word (4 * n)
      exact .inr (by omega)

/-- The tiles of a strip of rows. -/
theorem mulRow_visits {mPos : Nat} {cmds : List MulCmds} (nPos : 0 < n) (nSmall : n < 2 ^ 32)
    (nStepPos : 0 < nStep)
    (ends : mulRow ops fmt fuel m k n mStep nStep 0 k mPos = some cmds) :
    ∃ fuel' rest, forUp (wrapAdd nStep)
        (fun nPos => some (mulAt ops fmt k n nStep 0 k mPos (min (m - mPos) mStep) nPos)) n fuel'
        ((lastPos n nStep + nStep) % 2 ^ 32) = some rest ∧
      cmds = (positions n nStep).map
        (mulAt ops fmt k n nStep 0 k mPos (min (m - mPos) mStep)) ++ rest := by
  obtain ⟨fuel', done, rest, restEq, rfl, bodies⟩ := forUp_wrapAdd nStepPos nPos nSmall ends
  refine ⟨fuel', rest, restEq, ?_⟩
  have visited := map_results bodies (f := id) fun pos _ result is => (Option.some.inj is).symm
  rw [List.map_id] at visited
  rw [visited]

theorem rects_of_positions (mPos : Nat) :
    ((positions n nStep).map (mulAt ops fmt k n nStep 0 k mPos (min (m - mPos) mStep))).map
        MulCmds.rect =
      (strips n nStep).map fun col => (strip m mStep mPos, col) := by
  rw [strips, List.map_map, List.map_map]
  rfl

/-- If the column counter wraps, some element of the row is computed again. -/
theorem colAdvance_of_once {mPos : Nat} {cmds : List MulCmds} (nPos : 0 < n) (nSmall : n < 2 ^ 32)
    (nStepPos : 0 < nStep) (nStepLe : nStep ≤ n)
    (ends : mulRow ops fmt fuel m k n mStep nStep 0 k mPos = some cmds) {r : Nat}
    (inRow : (strip m mStep mPos).Contains r)
    (once : ∀ c, coverRects (cmds.map MulCmds.rect) r c ≤ 1) :
    lastPos n nStep + nStep < 2 ^ 32 := by
  by_contra wraps
  have wrapped := wrapped_lt nPos nSmall nStepLe (Nat.not_lt.mp wraps)
  obtain ⟨fuel', rest, restEq, rfl⟩ := mulRow_visits nPos nSmall nStepPos ends
  obtain ⟨_, again, _, more, body, -, -, rfl⟩ := forUp_round restEq wrapped
  obtain rfl := Option.some.inj body
  generalize (lastPos n nStep + nStep) % 2 ^ 32 = c at wrapped once
  have twice := once c
  have inCol : (strip n nStep c).Contains c := by
    simp only [Slot.Contains, strip]
    omega
  have later : 0 < coverRects ((mulAt ops fmt k n nStep 0 k mPos (min (m - mPos) mStep) c ::
      more).map MulCmds.rect) r c :=
    coverRects_pos List.mem_cons_self ⟨inRow, inCol⟩
  rw [List.map_append, coverRects_append, rects_of_positions, coverRects_row, if_pos inRow,
    (tiles_strips nStepPos).once, if_pos wrapped] at twice
  omega

/-- A row of tiles reaches the first column. -/
theorem coverRects_mulRow_pos {mPos : Nat} {cmds : List MulCmds} (nPos : 0 < n)
    (nSmall : n < 2 ^ 32) (nStepPos : 0 < nStep)
    (ends : mulRow ops fmt fuel m k n mStep nStep 0 k mPos = some cmds) {r : Nat}
    (inRow : (strip m mStep mPos).Contains r) : 0 < coverRects (cmds.map MulCmds.rect) r 0 := by
  obtain ⟨_, rest, -, rfl⟩ := mulRow_visits nPos nSmall nStepPos ends
  rw [List.map_append, coverRects_append, rects_of_positions, coverRects_row, if_pos inRow,
    (tiles_strips nStepPos).once, if_pos nPos]
  omega

theorem coverRects_flatten_pos {rows : List (List MulCmds)} {cmds : List MulCmds} {r c : Nat}
    (member : cmds ∈ rows) (covered : 0 < coverRects (cmds.map MulCmds.rect) r c) :
    0 < coverRects (rows.flatten.map MulCmds.rect) r c :=
  covered.trans_le (coverRects_le_of_sublist ((List.sublist_flatten_of_mem member).map _) r c)

/-- If the row counter wraps, some element of the first column is computed again. -/
theorem rowAdvance_of_once {rows : List (List MulCmds)} (mPos : 0 < m) (mSmall : m < 2 ^ 32)
    (nPos : 0 < n) (nSmall : n < 2 ^ 32) (mStepPos : 0 < mStep) (mStepLe : mStep ≤ m)
    (nStepPos : 0 < nStep)
    (ends : forUp (wrapAdd mStep) (mulRow ops fmt fuel m k n mStep nStep 0 k) m fuel 0 = some rows)
    (once : ∀ r c, coverRects (rows.flatten.map MulCmds.rect) r c ≤ 1) :
    lastPos m mStep + mStep < 2 ^ 32 := by
  by_contra wraps
  have wrapped := wrapped_lt mPos mSmall mStepLe (Nat.not_lt.mp wraps)
  obtain ⟨fuel', done, rest, restEq, rfl, bodies⟩ := forUp_wrapAdd mStepPos mPos mSmall ends
  obtain ⟨_, again, _, more, body, -, -, rfl⟩ := forUp_round restEq wrapped
  generalize (lastPos m mStep + mStep) % 2 ^ 32 = r at wrapped body
  have twice := once r 0
  have here : (strip m mStep r).Contains r := by
    simp only [Slot.Contains, strip]
    omega
  have second : 0 < coverRects ((again :: more).flatten.map MulCmds.rect) r 0 :=
    coverRects_flatten_pos List.mem_cons_self
      (coverRects_mulRow_pos nPos nSmall nStepPos body here)
  obtain ⟨slot, inStrips, inSlot⟩ := ((tiles_strips mStepPos).mem_iff r).mpr wrapped
  obtain ⟨pos, visited, rfl⟩ := List.mem_map.mp inStrips
  obtain ⟨first, inDone, firstBody⟩ := body_of_mem bodies visited
  have once' := coverRects_flatten_pos inDone
    (coverRects_mulRow_pos nPos nSmall nStepPos firstBody inSlot)
  rw [List.flatten_append, List.map_append, coverRects_append] at twice
  omega

/-- The only round of the outermost loop. -/
theorem emitTiles_eq (kPos : 0 < k) (kSmall : k < 2 ^ 32) (total : Nat) :
    emitTiles ops fmt (fuel + 2) m k n ⟨mStep, k, nStep, total⟩ =
      mulRows ops fmt (fuel + 2) m k n mStep nStep 0 k := by
  have next : wrapAdd k 0 = some k := by rw [wrapAdd, Nat.zero_add, Nat.mod_eq_of_lt kSmall]
  rw [emitTiles]
  simp only [forUp, if_pos kPos, Nat.sub_zero, Nat.min_self, if_true, next, Option.bind_some,
    lt_self_iff_false, if_false, Option.map_some]
  cases mulRows ops fmt (fuel + 2) m k n mStep nStep 0 k with
  | none => rfl
  | some rows => simp

/-- Every tile is among the commands. -/
theorem mulAt_mem {rows : List (List MulCmds)} (mPos : 0 < m) (mSmall : m < 2 ^ 32) (nPos : 0 < n)
    (nSmall : n < 2 ^ 32) (mStepPos : 0 < mStep) (nStepPos : 0 < nStep)
    (ends : forUp (wrapAdd mStep) (mulRow ops fmt fuel m k n mStep nStep 0 k) m fuel 0 = some rows)
    {row : Nat} (rowIn : row ∈ positions m mStep) :
    ∃ cmds ∈ rows, mulRow ops fmt fuel m k n mStep nStep 0 k row = some cmds ∧
      ∀ col ∈ positions n nStep,
        mulAt ops fmt k n nStep 0 k row (min (m - row) mStep) col ∈ cmds := by
  obtain ⟨_, done, rest, -, rfl, bodies⟩ := forUp_wrapAdd mStepPos mPos mSmall ends
  obtain ⟨cmds, inDone, body⟩ := body_of_mem bodies rowIn
  obtain ⟨_, more, -, rfl⟩ := mulRow_visits nPos nSmall nStepPos body
  exact ⟨_, List.mem_append_left rest inDone, body,
    fun col colIn => List.mem_append_left more (List.mem_map_of_mem colIn)⟩

/-- A row of tiles in range. -/
theorem mulRow_of_inRange (inRange : MulInRange m k n mStep nStep) (nStepPos : 0 < nStep)
    (enough : rounds n nStep < fuel) (mPos : Nat) :
    mulRow ops fmt fuel m k n mStep nStep 0 k mPos =
      some ((positions n nStep).map
        (mulAt ops fmt k n nStep 0 k mPos (min (m - mPos) mStep))) := by
  have total : ∀ nPos ∈ positions n nStep,
      (some (mulAt ops fmt k n nStep 0 k mPos (min (m - mPos) mStep) nPos)).isSome :=
    fun _ _ => rfl
  obtain ⟨results, ends, bodies⟩ :=
    forUp_wrapAdd_positions nStepPos inRange.colAdvance total enough
  have visited := map_results bodies (f := id) fun pos _ result is => (Option.some.inj is).symm
  rw [List.map_id] at visited
  rw [mulRow, ends, visited]

/-- An exact emission has not wrapped. -/
theorem mulInRange_of_exact (lawful : ops.Lawful) (mPos : 0 < m) (mSmall : m < 2 ^ 32)
    (kPos : 0 < k) (nPos : 0 < n) (nSmall : n < 2 ^ 32) (rows : 0 < mStep ∧ mStep ≤ m)
    (cols : 0 < nStep ∧ nStep ≤ n) {cmds : List MulCmds}
    (ends : mulRows ops fmt fuel m k n mStep nStep 0 k = some cmds)
    (partition : TilesRect m n (cmds.map MulCmds.rect)) (exact : ∀ c ∈ cmds, c.Exact m k n) :
    MulInRange m k n mStep nStep := by
  obtain ⟨rowCmds, rowEnds, rfl⟩ := Option.map_eq_some_iff.mp ends
  have once : ∀ r c, coverRects (rowCmds.flatten.map MulCmds.rect) r c ≤ 1 := by
    intro r c
    rw [partition.once]
    split <;> decide
  have inRange : ∀ row ∈ positions m mStep, ∀ col ∈ positions n nStep,
      row * k < 2 ^ 32 ∧ row * n + col < 2 ^ 32 ∧ 4 * min (n - col) nStep < 2 ^ 32 ∧
        (min (m - row) mStep = 1 ∨ 4 * n < 2 ^ 32) := by
    intro row rowIn col colIn
    have rowBelow := ((mem_positions rows.1).mp rowIn).2
    have colBelow := ((mem_positions cols.1).mp colIn).2
    obtain ⟨cmds, inRows, -, all⟩ :=
      mulAt_mem mPos mSmall nPos nSmall rows.1 cols.1 rowEnds rowIn
    exact inRange_of_mulAt_exact lawful kPos (by omega) (by omega)
      (exact _ (List.mem_flatten_of_mem inRows (all col colIn)))
  have first := inRange 0 (zero_mem_positions rows.1 mPos) 0 (zero_mem_positions cols.1 nPos)
  have last := inRange _ (lastPos_mem rows.1 mPos) _ (lastPos_mem cols.1 nPos)
  rw [Nat.sub_zero, Nat.sub_zero, Nat.min_eq_right rows.2, Nat.min_eq_right cols.2] at first
  refine ⟨rowAdvance_of_once mPos mSmall nPos nSmall rows.1 rows.2 cols.1 rowEnds once, ?_,
    last.1, last.2.1, first.2.2.1, first.2.2.2⟩
  obtain ⟨cmds, inRows, body, -⟩ :=
    mulAt_mem mPos mSmall nPos nSmall rows.1 cols.1 rowEnds (zero_mem_positions rows.1 mPos)
  have inRow : (strip m mStep 0).Contains 0 := by
    simp only [Slot.Contains, strip]
    omega
  exact colAdvance_of_once nPos nSmall cols.1 cols.2 body inRow fun c =>
    (coverRects_le_of_sublist ((List.sublist_flatten_of_mem inRows).map _) 0 c).trans (once 0 c)

/-- An emission in range is exact. -/
theorem mulRows_of_inRange (lawful : ops.Lawful) (inRange : MulInRange m k n mStep nStep)
    (mStepPos : 0 < mStep) (nStepPos : 0 < nStep) (enoughRows : rounds m mStep < fuel)
    (enoughCols : rounds n nStep < fuel) :
    ∃ cmds, mulRows ops fmt fuel m k n mStep nStep 0 k = some cmds ∧
      TilesRect m n (cmds.map MulCmds.rect) ∧
      ∀ c ∈ cmds, c.Exact m k n ∧ c.curM ≤ mStep ∧ c.curN ≤ nStep := by
  have row : ∀ mPos, mulRow ops fmt fuel m k n mStep nStep 0 k mPos = _ :=
    mulRow_of_inRange inRange nStepPos enoughCols
  have total : ∀ pos ∈ positions m mStep,
      (mulRow ops fmt fuel m k n mStep nStep 0 k pos).isSome :=
    fun pos _ => Option.isSome_of_eq_some (row pos)
  obtain ⟨rowCmds, ends, bodies⟩ :=
    forUp_wrapAdd_positions mStepPos inRange.rowAdvance total enoughRows
  refine ⟨rowCmds.flatten, by rw [mulRows, ends, Option.map_some], ?_, ?_⟩
  · have rects : rowCmds.flatten.map MulCmds.rect = grid (strips m mStep) (strips n nStep) := by
      have whole : strips m mStep = (positions m mStep).map (strip m mStep) := rfl
      rw [List.map_flatten, grid, List.flatMap_def, whole, List.map_map]
      congr 1
      refine map_results bodies fun pos _ cmds body => ?_
      rw [← Option.some.inj ((row pos).symm.trans body), rects_of_positions]
      rfl
    rw [rects]
    exact tilesRect_grid (tiles_strips mStepPos) (tiles_strips nStepPos)
  · intro c member
    obtain ⟨cmds, inRows, inRow⟩ := List.mem_flatten.mp member
    obtain ⟨pos, visited, body⟩ := exists_of_mem_results bodies inRows
    rw [← Option.some.inj ((row pos).symm.trans body)] at inRow
    obtain ⟨col, colIn, rfl⟩ := List.mem_map.mp inRow
    exact ⟨mulAt_exact lawful inRange mStepPos nStepPos visited colIn, Nat.min_le_right _ _,
      Nat.min_le_right _ _⟩

/-- The emission for a tile is exact exactly when nothing wraps. -/
theorem mulRows_exact_iff (lawful : ops.Lawful) (mPos : 0 < m) (mSmall : m < 2 ^ 32) (kPos : 0 < k)
    (nPos : 0 < n) (nSmall : n < 2 ^ 32) (rows : 0 < mStep ∧ mStep ≤ m)
    (cols : 0 < nStep ∧ nStep ≤ n) :
    (∃ fuel cmds, mulRows ops fmt (fuel + 2) m k n mStep nStep 0 k = some cmds ∧
      TilesRect m n (cmds.map MulCmds.rect) ∧
      ∀ c ∈ cmds, c.Exact m k n ∧ c.curM ≤ mStep ∧ c.curN ≤ nStep) ↔
      MulInRange m k n mStep nStep := by
  constructor
  · rintro ⟨fuel, cmds, ends, partition, exact⟩
    exact mulInRange_of_exact lawful mPos mSmall kPos nPos nSmall rows cols ends partition
      fun c member => (exact c member).1
  · intro inRange
    exact ⟨_, mulRows_of_inRange lawful inRange rows.1 cols.1
      (Nat.lt_succ_of_le (Nat.le_succ_of_le (Nat.le_max_left _ (rounds n nStep))))
      (Nat.lt_succ_of_le (Nat.le_succ_of_le (Nat.le_max_right (rounds m mStep) _)))⟩

/-- An emission that ends has gone through its only round and seen the end of the outer loop. -/
theorem emitTiles_ends (kPos : 0 < k) {tile : MulTile} {cmds : List MulCmds}
    (ends : emitTiles ops fmt fuel m k n tile = some cmds) : ∃ fuel', fuel = fuel' + 2 := by
  cases fuel with
  | zero => cases ends
  | succ fuel =>
    cases fuel with
    | zero =>
      obtain ⟨results, ends, -⟩ := Option.map_eq_some_iff.mp ends
      rw [forUp, if_pos kPos] at ends
      obtain ⟨_, -, ends⟩ := Option.bind_eq_some_iff.mp ends
      rw [wrapAdd, Option.bind_some] at ends
      cases ends
    | succ fuel => exact ⟨fuel, rfl⟩

theorem mulRow_mono {fuel' kPos curK : Nat} (le : fuel ≤ fuel') (mPos : Nat) (cmds : List MulCmds)
    (ends : mulRow ops fmt fuel m k n mStep nStep kPos curK mPos = some cmds) :
    mulRow ops fmt fuel' m k n mStep nStep kPos curK mPos = some cmds :=
  forUp_mono (fun _ _ body => body) le ends

theorem mulRows_mono {fuel' kPos curK : Nat} (le : fuel ≤ fuel') {cmds : List MulCmds}
    (ends : mulRows ops fmt fuel m k n mStep nStep kPos curK = some cmds) :
    mulRows ops fmt fuel' m k n mStep nStep kPos curK = some cmds := by
  obtain ⟨rows, rowEnds, rfl⟩ := Option.map_eq_some_iff.mp ends
  rw [mulRows, forUp_mono (mulRow_mono le) le rowEnds, Option.map_some]

/-- More fuel does not change the commands. -/
theorem emitTiles_mono {fuel' : Nat} (le : fuel ≤ fuel') {tile : MulTile} {cmds : List MulCmds}
    (ends : emitTiles ops fmt fuel m k n tile = some cmds) :
    emitTiles ops fmt fuel' m k n tile = some cmds := by
  obtain ⟨rows, rowEnds, rfl⟩ := Option.map_eq_some_iff.mp ends
  rw [emitTiles, forUp_mono ?_ le rowEnds, Option.map_some]
  intro kPos rows body
  obtain ⟨whole, body⟩ := Option.ite_none_right_eq_some.mp body
  rw [if_pos whole]
  exact mulRows_mono le body

end Emission

/-- The search ends, and for every tile that it finds and that passes the assertions the emission
    is exact. -/
def TilingExact (ops : MulOps) (lmemSize minNStep : Nat) (fmt : CvkFmt) (m k n : Nat) : Prop :=
  (∃ fuel, (tileSearch ops lmemSize minNStep fuel fmt m k n).isSome) ∧
    ∀ fuel tile, tileSearch ops lmemSize minNStep fuel fmt m k n = some (some tile) →
      k ≤ tile.kStep →
      ∃ fuel' cmds, emitTiles ops fmt fuel' m k n tile = some cmds ∧
        MulExact ops fmt m k n tile cmds

section

variable {ops : MulOps} {lmemSize minNStep m k n mStep nStep : Nat} {fmt : CvkFmt}

/-- The emission for the tile that the search takes. -/
theorem emitTiles_exact_iff (lawful : ops.Lawful) (mPos : 0 < m) (mSmall : m < 2 ^ 32)
    (kPos : 0 < k) (kSmall : k ≤ 4095) (nPos : 0 < n) (nSmall : n < 2 ^ 32)
    (noWrap : tileSize ops fmt m k n < 2 ^ 32)
    (first : FirstFit ops lmemSize minNStep fmt m k n mStep nStep) :
    (∃ fuel cmds, emitTiles ops fmt fuel m k n
        ⟨mStep, k, nStep, totalSize ops fmt mStep k nStep⟩ = some cmds ∧
      MulExact ops fmt m k n ⟨mStep, k, nStep, totalSize ops fmt mStep k nStep⟩ cmds) ↔
      MulInRange m k n mStep nStep := by
  have kWord : k < 2 ^ 32 := by omega
  have cols := And.intro first.cols.1 first.cols.2.1
  rw [← mulRows_exact_iff lawful mPos mSmall kPos nPos nSmall first.rows cols]
  constructor
  · rintro ⟨fuel, cmds, ends, exact⟩
    obtain ⟨fuel, rfl⟩ := emitTiles_ends kPos ends
    rw [emitTiles_eq kPos kWord] at ends
    exact ⟨fuel, cmds, ends, exact.partition, fun c member =>
      ⟨exact.each c member, exact.within c member⟩⟩
  · rintro ⟨fuel, cmds, ends, partition, each⟩
    refine ⟨fuel + 2, cmds, by rw [emitTiles_eq kPos kWord, ends], partition,
      fun c member => (each c member).1, fun c member => (each c member).2, fun c member => ?_⟩
    obtain ⟨-, rows, columns⟩ := each c member
    have chosen : tileSize ops fmt mStep k nStep < 2 ^ 32 :=
      (tileSize_mono lawful first.rows.2 (Nat.le_refl k) cols.2).trans_lt noWrap
    have smaller : tileSize ops fmt c.curM k c.curN ≤ tileSize ops fmt mStep k nStep :=
      tileSize_mono lawful rows (Nat.le_refl k) columns
    rw [totalSize, totalSize, Nat.mod_eq_of_lt chosen, Nat.mod_eq_of_lt (smaller.trans_lt chosen)]
    exact smaller

/-- The tiling is exact exactly when nothing wraps for the tile that the search takes, if any. -/
theorem tilingExact_iff (lawful : ops.Lawful) {j : Nat} (word : j < 32)
    (power : minNStep = 2 ^ j) (mPos : 0 < m) (mSmall : m < 2 ^ 32) (kPos : 0 < k) (nPos : 0 < n)
    (nSmall : n < 2 ^ 32) (noWrap : tileSize ops fmt m (min k 4095) n < 2 ^ 32) :
    TilingExact ops lmemSize minNStep fmt m k n ↔
      (k ≤ 4095 → ∀ mStep nStep, FirstFit ops lmemSize minNStep fmt m k n mStep nStep →
        MulInRange m k n mStep nStep) := by
  constructor
  · rintro ⟨-, exact⟩ kSmall mStep nStep first
    rw [Nat.min_eq_left kSmall] at noWrap
    have found := tileSearch_of_firstFit word power nSmall kPos kSmall first (Nat.lt_succ_self n)
    exact (emitTiles_exact_iff lawful mPos mSmall kPos kSmall nPos nSmall noWrap first).mp
      (exact _ _ found (Nat.le_refl k))
  · intro inRange
    refine ⟨⟨n + 1, tileSearch_isSome word power (Nat.lt_succ_self n)⟩, ?_⟩
    intro fuel tile found whole
    obtain ⟨kSmall, same, first⟩ := tileSearch_hit word power nSmall found whole
    rw [Nat.min_eq_left kSmall] at noWrap
    rw [same]
    exact (emitTiles_exact_iff lawful mPos mSmall kPos kSmall nPos nSmall noWrap first).mpr
      (inRange kSmall _ _ first)

/-- Where the tiling is exact, the whole function emits commands exactly when the search takes a tile
    with all of the `k` products, and they are those of an exact tiling. -/
theorem runtimeJitMatrixMul_spec {euNum laneNum j : Nat} {format : CviFmt} (word : j < 32)
    (power : euNum * laneNum % 2 ^ 32 = 2 ^ j) (kPos : 0 < k) (nSmall : n < 2 ^ 32)
    (known : formatTranslate format = some fmt)
    (exact : TilingExact ops lmemSize (euNum * laneNum % 2 ^ 32) fmt m k n) :
    ((∃ fuel, (runtimeJitMatrixMul ops lmemSize euNum laneNum fuel format m k n).isSome) ↔
      k ≤ 4095 ∧ ∃ mStep nStep,
        FirstFit ops lmemSize (euNum * laneNum % 2 ^ 32) fmt m k n mStep nStep) ∧
    ∀ fuel cmds, runtimeJitMatrixMul ops lmemSize euNum laneNum fuel format m k n = some cmds →
      ∃ tile, tileSearch ops lmemSize (euNum * laneNum % 2 ^ 32) fuel fmt m k n = some (some tile) ∧
        k ≤ tile.kStep ∧ MulExact ops fmt m k n tile cmds := by
  have emitted : ∀ fuel cmds,
      runtimeJitMatrixMul ops lmemSize euNum laneNum fuel format m k n = some cmds ↔
        ∃ tile, tileSearch ops lmemSize (euNum * laneNum % 2 ^ 32) fuel fmt m k n =
            some (some tile) ∧
          k ≤ tile.kStep ∧ emitTiles ops fmt fuel m k n tile = some cmds := by
    intro fuel cmds
    simp only [runtimeJitMatrixMul, known, Option.bind_some, Option.bind_eq_some_iff,
      Option.filter_eq_some_iff, decide_eq_true_eq]
    constructor
    · rintro ⟨found, searched, tile, ⟨rfl, whole⟩, ends⟩
      exact ⟨tile, searched, whole, ends⟩
    · rintro ⟨tile, searched, whole, ends⟩
      exact ⟨some tile, searched, tile, ⟨rfl, whole⟩, ends⟩
  constructor
  · constructor
    · rintro ⟨fuel, ends⟩
      obtain ⟨cmds, ends⟩ := Option.isSome_iff_exists.mp ends
      obtain ⟨tile, searched, whole, -⟩ := (emitted fuel cmds).mp ends
      obtain ⟨kSmall, -, first⟩ := tileSearch_hit word power nSmall searched whole
      exact ⟨kSmall, tile.mStep, tile.nStep, first⟩
    · rintro ⟨kSmall, mStep, nStep, first⟩
      have searched : ∀ fuel, n < fuel →
          tileSearch ops lmemSize (euNum * laneNum % 2 ^ 32) fuel fmt m k n =
            some (some ⟨mStep, k, nStep, totalSize ops fmt mStep k nStep⟩) :=
        fun _ => tileSearch_of_firstFit word power nSmall kPos kSmall first
      obtain ⟨fuel, cmds, ends, -⟩ :=
        exact.2 (n + 1) _ (searched _ (Nat.lt_succ_self n)) (Nat.le_refl k)
      refine ⟨max (n + 1) fuel, Option.isSome_of_eq_some ((emitted _ cmds).mpr ⟨_, searched _ ?_,
        Nat.le_refl k, emitTiles_mono (Nat.le_max_right _ _) ends⟩)⟩
      exact (Nat.lt_succ_self n).trans_le (Nat.le_max_left _ _)
  · intro fuel cmds ends
    obtain ⟨tile, searched, whole, ends⟩ := (emitted fuel cmds).mp ends
    obtain ⟨fuel', cmds', ends', exact⟩ := exact.2 fuel tile searched whole
    have same := (emitTiles_mono (Nat.le_max_left fuel fuel') ends).symm.trans
      (emitTiles_mono (Nat.le_max_right fuel fuel') ends')
    obtain rfl : cmds = cmds' := Option.some.inj same
    exact ⟨tile, searched, whole, exact⟩

/-- Nothing wraps in matrices of moderate sizes. -/
theorem mulInRange_of_sizes (mPos : 0 < m) (nPos : 0 < n) (rows : 0 < mStep ∧ mStep ≤ m)
    (cols : 0 < nStep ∧ nStep ≤ n) (left : (m - 1) * k < 2 ^ 32) (result : m * n ≤ 2 ^ 32)
    (mSmall : m ≤ 2 ^ 31) (nSmall : n < 2 ^ 30) : MulInRange m k n mStep nStep := by
  have rowLast : lastPos m mStep < m := lastPos_lt mPos
  have colLast : lastPos n nStep < n := lastPos_lt nPos
  refine ⟨by omega, by omega, ?_, ?_, by omega, .inr (by omega)⟩
  · exact (Nat.mul_le_mul_right k (Nat.le_sub_one_of_lt rowLast)).trans_lt left
  · have room : (lastPos m mStep + 1) * n ≤ m * n := Nat.mul_le_mul_right n rowLast
    rw [Nat.add_mul, Nat.one_mul] at room
    omega

end

/-- For a power of two of columns in a lane and size queries that do not wrap, the search ends. The
    tiles are exact exactly when no offset wraps for the tile that it takes with all of the `k`
    products; they always are for matrices of moderate sizes. -/
theorem matrix_mul_tiling_iff (ops : MulOps) (lawful : ops.Lawful)
    (lmemSize euNum laneNum : Nat) (fmt : CvkFmt) (m k n : Nat)
    (power : ∃ j < 32, euNum * laneNum % 2 ^ 32 = 2 ^ j) (mPos : 0 < m) (mSmall : m < 2 ^ 32)
    (kPos : 0 < k) (nPos : 0 < n) (nSmall : n < 2 ^ 32)
    (noWrap : tileSize ops fmt m (min k 4095) n < 2 ^ 32) :
    (∃ fuel, (tileSearch ops lmemSize (euNum * laneNum % 2 ^ 32) fuel fmt m k n).isSome) ∧
    (TilingExact ops lmemSize (euNum * laneNum % 2 ^ 32) fmt m k n ↔
      (k ≤ 4095 → ∀ mStep nStep,
        FirstFit ops lmemSize (euNum * laneNum % 2 ^ 32) fmt m k n mStep nStep →
        MulInRange m k n mStep nStep)) ∧
    ((m - 1) * k < 2 ^ 32 → m * n ≤ 2 ^ 32 → m ≤ 2 ^ 31 → n < 2 ^ 30 →
      TilingExact ops lmemSize (euNum * laneNum % 2 ^ 32) fmt m k n) := by
  obtain ⟨j, word, power⟩ := power
  have exact : TilingExact ops lmemSize (euNum * laneNum % 2 ^ 32) fmt m k n ↔ _ :=
    tilingExact_iff lawful word power mPos mSmall kPos nPos nSmall noWrap
  refine ⟨⟨n + 1, tileSearch_isSome word power (Nat.lt_succ_self n)⟩, exact, ?_⟩
  intro left result mLow nLow
  exact exact.mpr fun _ _ _ first =>
    mulInRange_of_sizes mPos nPos first.rows ⟨first.cols.1, first.cols.2.1⟩ left result mLow nLow

/-- A library for 32 lanes of 16 columns. -/
def mulOps : MulOps where
  mlDefaultShape rows cols _ := ⟨rows, (cols + 15) / 16, min cols 16, cols⟩
  lmemMatrixToSize shape _ := shape.n * ((shape.c + 31) / 32 * 16)
  lmemPs32MatrixToSize shape _ := shape.n * ((shape.c + 31) / 32 * 64)
  lmemTensorToSize shape _ := shape.n * ((shape.c + 31) / 32 * ((shape.w + 15) / 16 * 16))

theorem mulOps_lawful : mulOps.Lawful where
  shape _ _ _ := ⟨rfl, rfl⟩
  left _ ms ks := Nat.mul_le_mul ms (by simp only [mulOps]; omega)
  right _ ks ns := Nat.mul_le_mul ks (by simp only [mulOps]; omega)
  ps32 _ ms ns := Nat.mul_le_mul ms (by simp only [mulOps]; omega)
  result _ ms ns := by
    refine Nat.mul_le_mul ms (Nat.mul_le_mul ?_ ?_)
    · simp only [mulOps]
      omega
    · simp only [mulOps]
      omega

/-- The smaller local memory takes a part of the product at a time. -/
theorem matrix_mul_tiling_iff_small : TilingExact mulOps 8192 (16 * 32 % 2 ^ 32) .i8 40 30 600 :=
  (matrix_mul_tiling_iff mulOps mulOps_lawful 8192 16 32 .i8 40 30 600 ⟨9, by decide, by decide⟩
    (by decide) (by decide) (by decide) (by decide) (by decide) (by decide)).2.2 (by decide)
    (by decide) (by decide) (by decide)

/-- In a left matrix of five million rows of 1024 bytes the offsets wrap. -/
theorem matrix_mul_tall : ¬ TilingExact mulOps 32768 512 .i8 5000000 1024 1 := by
  have size : ∀ a, tileSize mulOps .i8 a 1024 1 = 112 * a + 16384 := fun a => by
    simp [tileSize, leftSize, rightSize, ps32Size, resultSize, mulOps]
    omega
  have first : FirstFit mulOps 32768 512 .i8 5000000 1024 1 146 1 := by
    refine ⟨by decide, ⟨by decide, Nat.le_refl 1, .inl rfl⟩, by decide, fun a above below => ?_,
      fun b above below => absurd below (Nat.not_le.mpr above)⟩
    rw [totalSize, size, Nat.mod_eq_of_lt (by omega)]
    omega
  intro exact
  have inRange := (tilingExact_iff mulOps_lawful (by decide : 9 < 32) rfl (by decide) (by decide)
    (by decide) (by decide) (by decide) (by decide)).mp exact (by decide) _ _ first
  exact absurd inRange.left (by decide)

end CviRuntime.Kernel
