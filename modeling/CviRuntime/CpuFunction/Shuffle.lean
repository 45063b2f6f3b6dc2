import CviRuntime.Lib.Scatter
import Mathlib.Tactic.Ring

/-!
# Layout kernels (`src/common/cpu_function/transpose.cpp`, `pixelshuffle.cpp`)

Both kernels read the input in the order of its buffer and put each element to a place computed from
quotients and remainders. Every place of the output has an element that goes there, and there are as
many elements as places, so none is written twice.
-/

namespace CviRuntime.CpuFunction

open CviRuntime.RowMajor CviRuntime.Scatter

/-! ## The kernels -/

/-- The loops of `TransposeFunc::run` (`transpose.cpp:18-30`): where each element is written, and
    where it is read. -/
def transposeMoves (topShape : List Nat) : List (Nat × Nat) :=
  let channel := topShape.getD 1 0
  let channelSize := topShape.getD 2 0 * topShape.getD 3 0
  let imageSize := channel * channelSize
  (List.range (topShape.getD 0 0)).flatMap fun i =>
    (List.range imageSize).map fun j =>
      let xIdx := i * imageSize + j
      let yIdx := i * imageSize + j % channel * channelSize + j / channel
      (yIdx, xIdx)

/-- The loops of `PixelShuffleFunc::run` (`pixelshuffle.cpp:35-50`); `i_index` counts the passes. -/
def pixelShuffleMoves (upscaleFactor : Nat) (bottomShape topShape : List Nat) :
    List (Nat × Nat) :=
  let r := upscaleFactor
  let outChannel := topShape.getD 1 0
  let outHeight := topShape.getD 2 0
  let outWidth := topShape.getD 3 0
  let oIndices :=
    (List.range (bottomShape.getD 0 0)).flatMap fun n =>
      (List.range (bottomShape.getD 1 0)).flatMap fun c =>
        (List.range (bottomShape.getD 2 0)).flatMap fun h =>
          (List.range (bottomShape.getD 3 0)).map fun w =>
            let newC := c % outChannel
            let newH := h * r + c / outChannel / r
            let newW := w * r + c / outChannel % r
            n * (outChannel * outHeight * outWidth) + newC * (outHeight * outWidth) +
              newH * outWidth + newW
  oIndices.zipIdx

section

variable {α : Type*}

/-- `TransposeFunc::run` (`transpose.cpp:17-31`): the output, from what its buffer held. -/
def transposeRun (topShape : List Nat) (bottom top : Nat → α) : Nat → α :=
  scatter bottom (transposeMoves topShape) top

/-- `PixelShuffleFunc::run` (`pixelshuffle.cpp:20-55`); `none` where the assertion fails. -/
def pixelShuffleRun (mode : String) (upscaleFactor : Nat) (bottomShape topShape : List Nat)
    (bottom top : Nat → α) : Option (Nat → α) :=
  if mode = "DCR" then
    some (scatter bottom (pixelShuffleMoves upscaleFactor bottomShape topShape) top)
  else none

end

/-! ## Bijections -/

/-- Every place of the output is written once, and every place of the input read once. -/
structure Bijective (moves : List (Nat × Nat)) (outSize inSize : Nat) : Prop where
  writes : (moves.map Prod.fst).Perm (List.range outSize)
  reads : (moves.map Prod.snd).Perm (List.range inSize)

/-- Moves that read the buffer from the front to the back, and reach all places of an output of the
    same size. -/
theorem bijective_of_onto {moves : List (Nat × Nat)} {size : Nat}
    (reads : moves.map Prod.snd = List.range size)
    (onto : ∀ p < size, p ∈ moves.map Prod.fst) : Bijective moves size size := by
  have length : moves.length = size := by
    rw [← List.length_map (f := Prod.snd), reads, List.length_range]
  refine ⟨perm_range_of_onto ?_ onto, ?_⟩
  · rw [List.length_map, length]
  · rw [reads]

section

variable {α : Type*} {bottom top : Nat → α}

theorem Bijective.scatter_eq {moves : List (Nat × Nat)} {outSize inSize p q : Nat}
    (bijective : Bijective moves outSize inSize) (member : (p, q) ∈ moves) :
    scatter bottom moves top p = bottom q :=
  scatter_of_mem (nodup_of_perm_range bijective.writes) member

end

/-! ## From channel-last to channel-first -/

section

variable {N C H W n c h w : Nat}

theorem transpose_reads (N C H W : Nat) :
    (transposeMoves [N, C, H, W]).map Prod.snd = List.range (N * (C * (H * W))) := by
  have rows := map_flat_indices [N, C * (H * W)]
  simp only [map_indices_cons, indices_nil, List.map_cons, List.map_nil, flatMap_singleton_range,
    flat, List.prod_cons, List.prod_nil, Nat.mul_one, Nat.add_zero] at rows
  rw [← rows, transposeMoves, List.map_flatMap]
  simp only [List.map_map]
  rfl

/-- The place an element of the input goes to. -/
theorem mem_transposeMoves (hn : n < N) (hc : c < C) (hh : h < H) (hw : w < W) :
    (flat [N, C, H, W] [n, c, h, w], flat [N, H, W, C] [n, h, w, c]) ∈
      transposeMoves [N, C, H, W] := by
  have pixel : h * W + w < H * W := place_lt hh hw
  have inImage : (h * W + w) * C + c < C * (H * W) := by
    rw [Nat.mul_comm C]
    exact place_lt pixel hc
  refine List.mem_flatMap.mpr ⟨n, List.mem_range.mpr hn, ?_⟩
  refine List.mem_map.mpr ⟨(h * W + w) * C + c, List.mem_range.mpr inImage, ?_⟩
  refine Prod.ext ?_ ?_
  · change n * (C * (H * W)) + ((h * W + w) * C + c) % C * (H * W) + ((h * W + w) * C + c) / C = _
    rw [place_mod hc, place_div hc]
    simp only [flat, List.prod_cons, List.prod_nil]
    ring
  · change n * (C * (H * W)) + ((h * W + w) * C + c) = _
    simp only [flat, List.prod_cons, List.prod_nil]
    ring

theorem bijective_transpose (N C H W : Nat) :
    Bijective (transposeMoves [N, C, H, W]) [N, C, H, W].prod [N, H, W, C].prod := by
  have size : [N, H, W, C].prod = [N, C, H, W].prod := by
    simp only [List.prod_cons, List.prod_nil]
    ring
  rw [size]
  refine bijective_of_onto ?_ ?_
  · rw [transpose_reads]
    simp
  · intro p less
    obtain ⟨index, inside, rfl⟩ := exists_index less
    obtain ⟨n, c, h, w, rfl⟩ := List.length_eq_four.mp inside.1
    simp only [inside_cons] at inside
    obtain ⟨hn, hc, hh, hw, -⟩ := inside
    exact List.mem_map_of_mem (f := Prod.fst) (mem_transposeMoves hn hc hh hw)

end

/-! ## From channels to pixels -/

section

variable {N outC H W r n c h w a b : Nat}

/-- The places in the order of the indices of the input. -/
theorem pixelShuffleMoves_eq (r inC outC outH outW : Nat) :
    pixelShuffleMoves r [N, inC, H, W] [N, outC, outH, outW] =
      (indices [N, inC, H, W]).map fun index =>
        (flat [N, outC, outH, outW] [index.getD 0 0, index.getD 1 0 % outC,
            index.getD 2 0 * r + index.getD 1 0 / outC / r,
            index.getD 3 0 * r + index.getD 1 0 / outC % r],
          flat [N, inC, H, W] index) := by
  rw [← zipIdx_map_indices]
  simp [pixelShuffleMoves, flat, flatMap_singleton_range, Nat.mul_assoc, Nat.add_assoc]

/-- The place an element of the input goes to. -/
theorem mem_pixelShuffleMoves (hn : n < N) (hc : c < outC) (hh : h < H) (hw : w < W)
    (ha : a < r) (hb : b < r) :
    (flat [N, outC, H * r, W * r] [n, c, h * r + a, w * r + b],
        flat [N, outC * r * r, H, W] [n, (a * r + b) * outC + c, h, w]) ∈
      pixelShuffleMoves r [N, outC * r * r, H, W] [N, outC, H * r, W * r] := by
  have channel : (a * r + b) * outC + c < outC * r * r := by
    rw [Nat.mul_assoc, Nat.mul_comm outC]
    exact place_lt (place_lt ha hb) hc
  have inside : Inside [N, outC * r * r, H, W] [n, (a * r + b) * outC + c, h, w] :=
    inside_quadruple.mpr ⟨hn, channel, hh, hw⟩
  rw [pixelShuffleMoves_eq]
  refine List.mem_map.mpr ⟨_, mem_indices.mpr inside, ?_⟩
  simp only [List.getD_cons_zero, List.getD_cons_succ, place_mod hc, place_div hc, place_mod hb,
    place_div hb]

theorem bijective_pixelShuffle (N outC H W r : Nat) :
    Bijective (pixelShuffleMoves r [N, outC * r * r, H, W] [N, outC, H * r, W * r])
      [N, outC, H * r, W * r].prod [N, outC * r * r, H, W].prod := by
  have size : [N, outC * r * r, H, W].prod = [N, outC, H * r, W * r].prod := by
    simp only [List.prod_cons, List.prod_nil]
    ring
  rw [size]
  refine bijective_of_onto ?_ ?_
  · rw [pixelShuffleMoves_eq, List.map_map, ← size]
    exact map_flat_indices [N, outC * r * r, H, W]
  · intro p less
    obtain ⟨index, inside, rfl⟩ := exists_index less
    obtain ⟨n, c, y, x, rfl⟩ := List.length_eq_four.mp inside.1
    simp only [inside_cons] at inside
    obtain ⟨hn, hc, hy, hx, -⟩ := inside
    have rPos : 0 < r := Nat.pos_of_ne_zero fun zero => by
      rw [zero, Nat.mul_zero] at hy
      exact Nat.not_lt_zero y hy
    have hh : y / r < H := Nat.div_lt_of_lt_mul (Nat.mul_comm H r ▸ hy)
    have hw : x / r < W := Nat.div_lt_of_lt_mul (Nat.mul_comm W r ▸ hx)
    have member := List.mem_map_of_mem (f := Prod.fst)
      (mem_pixelShuffleMoves hn hc hh hw (Nat.mod_lt y rPos) (Nat.mod_lt x rPos))
    rwa [Nat.div_add_mod', Nat.div_add_mod'] at member

end

/-! ## What the outputs hold -/

/-- Both kernels are bijections, for every shape and factor. -/
theorem layout_bijective {α : Type*} (N C H W r : Nat) (bottom top : Nat → α) :
    (Bijective (transposeMoves [N, C, H, W]) [N, C, H, W].prod [N, H, W, C].prod ∧
      ∀ n < N, ∀ c < C, ∀ h < H, ∀ w < W,
        transposeRun [N, C, H, W] bottom top (flat [N, C, H, W] [n, c, h, w]) =
          bottom (flat [N, H, W, C] [n, h, w, c])) ∧
    (1 ≤ r →
      Bijective (pixelShuffleMoves r [N, C * r * r, H, W] [N, C, H * r, W * r])
          [N, C, H * r, W * r].prod [N, C * r * r, H, W].prod ∧
        ∃ out, pixelShuffleRun "DCR" r [N, C * r * r, H, W] [N, C, H * r, W * r] bottom top =
            some out ∧
          ∀ n < N, ∀ c < C, ∀ h < H, ∀ w < W, ∀ a < r, ∀ b < r,
            out (flat [N, C, H * r, W * r] [n, c, h * r + a, w * r + b]) =
              bottom (flat [N, C * r * r, H, W] [n, (a * r + b) * C + c, h, w])) := by
  refine ⟨⟨bijective_transpose N C H W, ?_⟩, fun _ => ⟨bijective_pixelShuffle N C H W r, ?_⟩⟩
  · intro n hn c hc h hh w hw
    exact (bijective_transpose N C H W).scatter_eq (mem_transposeMoves hn hc hh hw)
  · refine ⟨_, if_pos rfl, ?_⟩
    intro n hn c hc h hh w hw a ha b hb
    exact (bijective_pixelShuffle N C H W r).scatter_eq (mem_pixelShuffleMoves hn hc hh hw ha hb)

theorem layout_bijective_two :
    transposeRun [1, 2, 1, 3] id (fun _ => 0) (flat [1, 2, 1, 3] [0, 1, 0, 2]) =
        flat [1, 1, 3, 2] [0, 0, 2, 1] ∧
      ∃ out, pixelShuffleRun "DCR" 2 [1, 8, 1, 3] [1, 2, 2, 6] id (fun _ => 0) = some out ∧
        out (flat [1, 2, 2, 6] [0, 1, 1, 4]) = flat [1, 8, 1, 3] [0, 5, 0, 2] := by
  obtain ⟨transposed, -⟩ := layout_bijective 1 2 1 3 2 id fun _ => 0
  obtain ⟨-, shuffled⟩ := layout_bijective 1 2 1 3 2 id fun _ => 0
  obtain ⟨-, out, run, values⟩ := shuffled (by decide)
  refine ⟨transposed.2 0 (by decide) 1 (by decide) 0 (by decide) 2 (by decide), out, run, ?_⟩
  exact values 0 (by decide) 1 (by decide) 0 (by decide) 2 (by decide) 1 (by decide) 0 (by decide)

end CviRuntime.CpuFunction
