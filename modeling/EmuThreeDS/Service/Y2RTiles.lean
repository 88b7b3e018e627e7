import EmuThreeDS.Service.Y2RConversion
import Mathlib.Data.List.Nodup

/-!
# The tiles of a strip

The pixels of a strip in its tiles, turned tiles, and where their pixels are in the buffer that is
sent.
-/
namespace EmuThreeDS.Y2R

open Blit

theorem mul_add_inj {n a b a' b' : Nat} (hb : b < n) (hb' : b' < n)
    (same : a * n + b = a' * n + b') : a = a' ∧ b = b' := by
  have quotient := congrArg (· / n) same
  have remainder := congrArg (· % n) same
  rw [Nat.mul_comm a, Nat.mul_comm a', Nat.mul_add_div (by omega), Nat.mul_add_div (by omega),
    Nat.div_eq_of_lt hb, Nat.div_eq_of_lt hb'] at quotient
  rw [Nat.mul_comm a, Nat.mul_comm a', Nat.mul_add_mod, Nat.mul_add_mod, Nat.mod_eq_of_lt hb,
    Nat.mod_eq_of_lt hb'] at remainder
  exact ⟨quotient, remainder⟩

section

variable {size width height x y : Nat} {data : HostMemory} {output : Nat → Nat}

def bufferSamples (inputFormat : InputFormat) (data : HostMemory) (width x y : Nat) :
    UInt8 × UInt8 × UInt8 :=
  match inputFormat with
  | .yuv422Indiv8 | .yuv422Indiv16 =>
    (data (y * width + x), data (8 * width + (y * width + x) / 2),
      data (8 * width + 8 * width / 2 + (y * width + x) / 2))
  | .yuv420Indiv8 | .yuv420Indiv16 =>
    (data (y * width + x), data (8 * width + (y / 2 * width + x) / 2),
      data (8 * width + 8 * width / 2 + (y / 2 * width + x) / 2))
  | .yuyv422Interleaved =>
    (data ((y * width + x) * 2), data ((y * width + x / 2 * 2) * 2 + 1),
      data ((y * width + x / 2 * 2) * 2 + 3))
  | .other => (0, 0, 0)

theorem samples_eq (inputFormat : InputFormat) (data : HostMemory) (size_eq : size = width * 8 * 4)
    (even : width % 2 = 0) (hx : x < width) (hy : y < 8) :
    samples inputFormat size data 0 (8 * width) (8 * width + 8 * width / 2) width x y =
      .ok (bufferSamples inputFormat data width x y) := by
  have line := Nat.mul_le_mul_right width (show y + 1 ≤ 8 from hy)
  have half := Nat.mul_le_mul_right width (show y / 2 + 1 ≤ 4 by omega)
  rw [Nat.succ_mul y] at line
  rw [Nat.succ_mul (y / 2)] at half
  unfold samples bufferSamples
  cases inputFormat <;> simp only [Nat.zero_add]
  all_goals
    rw [Cells.cell_of_lt (by omega), Cells.cell_of_lt (by omega), Cells.cell_of_lt (by omega)]
    rfl

theorem convertYUVToRGB_returns (inputFormat : InputFormat) (coefficients : CoefficientSet)
    (data : HostMemory) (output : Nat → Nat) (size_eq : size = width * 8 * 4) (columns : width % 8 = 0)
    (rows : height ≤ 8) :
    Returns (convertYUVToRGB inputFormat size data 0 (8 * width) (8 * width + 8 * width / 2)
      (width / 8) output width height coefficients) fun tiles =>
        ∀ x < width, ∀ y < height, tiles (x / 8 * tileSize + (y * 8 + x % 8)) =
          convertYUV coefficients (bufferSamples inputFormat data width x y).1
            (bufferSamples inputFormat data width x y).2.1
            (bufferSamples inputFormat data width x y).2.2 := by
  refine (Cells.fill_returns (fun p => p.1 / 8 * tileSize + (p.2 * 8 + p.1 % 8))
    (fun p => [convertYUV coefficients (bufferSamples inputFormat data width p.1 p.2).1
      (bufferSamples inputFormat data width p.1 p.2).2.1
      (bufferSamples inputFormat data width p.1 p.2).2.2]) ?_ ?_).mono ?_
  · rintro ⟨x, y⟩ mem
    obtain ⟨hx, hy⟩ := mem_grid.mp mem
    have inTile : y * 8 + x % 8 < tileSize := by
      unfold tileSize
      omega
    refine ⟨?_, ?_⟩
    · dsimp only
      rw [samples_eq inputFormat data size_eq (by omega) hx (by omega), tileCell,
        if_pos inTile]
      rfl
    · unfold tileSize at inTile ⊢
      dsimp only [List.length_singleton]
      omega
  · rintro ⟨x, y⟩ mem ⟨x', y'⟩ mem' other
    obtain ⟨hx, hy⟩ := mem_grid.mp mem
    obtain ⟨hx', hy'⟩ := mem_grid.mp mem'
    have different : x ≠ x' ∨ y ≠ y' := by
      by_contra same
      push Not at same
      exact other (by rw [same.1, same.2])
    unfold tileSize
    dsimp only [List.length_singleton]
    omega
  · rintro tiles ⟨written, -⟩ x hx y hy
    exact (List.cons.inj (written (x, y) (mem_grid.mpr ⟨hx, hy⟩))).1

end

section

variable {height : Nat} {outMap : List Nat} {input output : ImageTile} {sources : List Nat}

structure Remaps (outMap : List Nat) : Prop where
  length : outMap.length = tileSize
  inTile : ∀ place ∈ outMap, place < tileSize
  nodup : outMap.Nodup

theorem remaps_of_tileRemap {alignment : BlockAlignment} (known : tileRemap alignment = some outMap) :
    Remaps outMap := by
  cases alignment with
  | linear | block8x8 =>
    cases known
    exact ⟨rfl, by decide, by decide⟩
  | other => cases known

theorem rotateTile_returns (input output : ImageTile) (remaps : Remaps outMap)
    (some_sources : sources.length ≤ tileSize) (inTile : ∀ source ∈ sources, source < tileSize) :
    Returns (rotateTile sources input output (some outMap)) fun tile =>
      ∀ i source, sources[i]? = some source → tile (outMap.getD i 0) = input source := by
  have place (i : Nat) (less : i < tileSize) : outMap[i]? = some (outMap.getD i 0) := by
    rw [List.getElem?_eq_getElem (remaps.length ▸ less), List.getD_eq_getElem]
  refine (Cells.fill_returns (fun p => outMap.getD p.2 0) (fun p => [input p.1]) ?_ ?_).mono ?_
  · rintro ⟨source, i⟩ mem
    have found := List.mk_mem_zipIdx_iff_getElem?.mp mem
    obtain ⟨inside, -⟩ := List.getElem?_eq_some_iff.mp found
    have known := place i (by omega)
    refine ⟨?_, remaps.inTile _ (List.mem_of_getElem? known)⟩
    dsimp only
    rw [Buffer.get_eq_ok known, Cells.cell_of_lt (inTile source (List.mem_of_getElem? found))]
    rfl
  · rintro ⟨source, i⟩ mem ⟨source', i'⟩ mem' other
    have found := List.mk_mem_zipIdx_iff_getElem?.mp mem
    have found' := List.mk_mem_zipIdx_iff_getElem?.mp mem'
    obtain ⟨inside, -⟩ := List.getElem?_eq_some_iff.mp found
    obtain ⟨inside', -⟩ := List.getElem?_eq_some_iff.mp found'
    have different : outMap.getD i 0 ≠ outMap.getD i' 0 := by
      intro same
      have index : i = i' := (List.getD_inj (by rw [remaps.length]; omega)
        (by rw [remaps.length]; omega) remaps.nodup).mp same
      rw [index] at found
      rw [Option.some.inj (found.symm.trans found'), index] at other
      exact other rfl
    dsimp only [List.length_singleton]
    omega
  · rintro tile ⟨written, -⟩ i source found
    exact (List.cons.inj (written (source, i) (List.mk_mem_zipIdx_iff_getElem?.mpr found))).1

theorem rotateTile_none (some_sources : sources ≠ []) :
    ¬ Answers (rotateTile sources input output none) := by
  cases sources with
  | nil => exact absurd rfl some_sources
  | cons source rest => exact not_answers_error _

variable (rotation : Rotation)

/-- The pixel of a tile that is written to a place of the turned one. -/
def turnedSource (height i : Nat) : Nat :=
  match rotation with
  | .none | .other => i
  | .clockwise90 => (height - 1 - i % height) * 8 + i / height
  | .clockwise180 => height * 8 - 1 - i
  | .clockwise270 => i % height * 8 + (7 - i / height)

def tileSources (height : Nat) : List Nat :=
  match rotation with
  | .none | .other => List.range (height * 8)
  | .clockwise90 => (List.range 8).flatMap fun x => (List.range height).reverse.map fun y => y * 8 + x
  | .clockwise180 => (List.range (height * 8)).reverse
  | .clockwise270 => (List.range 8).reverse.flatMap fun x => (List.range height).map fun y => y * 8 + x

theorem tileSources_spec (rows : height ≤ 8) : (tileSources rotation height).length = 8 * height ∧
      (∀ source ∈ tileSources rotation height, source < tileSize) ∧
      ∀ i < 8 * height, (tileSources rotation height)[i]? = some (turnedSource rotation height i) := by
  have all : ∀ height ≤ 8, (tileSources rotation height).length = 8 * height ∧
      (∀ source ∈ tileSources rotation height, source < tileSize) ∧
      ∀ i < 8 * height,
        (tileSources rotation height)[i]? = some (turnedSource rotation height i) := by
    cases rotation <;> decide +kernel
  exact all height rows

theorem rotateTile_turns (input output : ImageTile) (remaps : Remaps outMap) (rows : height ≤ 8) :
    Returns (rotateTile (tileSources rotation height) input output (some outMap)) fun tile =>
      ∀ i < 8 * height, tile (outMap.getD i 0) = input (turnedSource rotation height i) := by
  obtain ⟨length, inTile, order⟩ := tileSources_spec rotation rows
  have room : (tileSources rotation height).length ≤ tileSize := by
    rw [length]
    exact Nat.mul_le_mul_left 8 rows
  exact (rotateTile_returns input output remaps room inTile).mono fun tile written i less =>
    written i _ (order i less)

/-- `image_strip_width` and `output_stride`. -/
def strides (cvt : ConversionConfiguration) (height : Nat) : Nat × Nat :=
  match cvt.rotation with
  | .none | .clockwise180 => (cvt.inputLineWidth, 8)
  | .clockwise90 | .clockwise270 => (8, 8 * height)
  | .other => (0, 0)

def sourceTile (numTiles i : Nat) : Nat :=
  match rotation with
  | .none | .clockwise90 | .other => i
  | .clockwise180 | .clockwise270 => numTiles - i - 1

variable {cvt : ConversionConfiguration} {numTiles i : Nat} {tiles : Nat → Nat} {tmpTile : ImageTile}

theorem turnTile_eq (known : cvt.rotation ≠ .other) :
    turnTile cvt numTiles height tiles i tmpTile = (do
      let input ← tileAt numTiles tiles (sourceTile cvt.rotation numTiles i)
      let tile ← rotateTile (tileSources cvt.rotation height) input tmpTile
        (tileRemap cvt.blockAlignment)
      return (tile, strides cvt height)) := by
  unfold turnTile strides
  cases rotation : cvt.rotation with
  | other => exact absurd rotation known
  | _ => rfl

theorem turnTile_returns (tiles : Nat → Nat) (tmpTile : ImageTile) (less : i < numTiles)
    (rows : height ≤ 8) (remap : tileRemap cvt.blockAlignment = some outMap) :
    Returns (turnTile cvt numTiles height tiles i tmpTile) fun turned =>
      turned.2 = strides cvt height ∧ (cvt.rotation ≠ .other → ∀ k < 8 * height,
        turned.1 (outMap.getD k 0) = tiles (sourceTile cvt.rotation numTiles i * tileSize +
          turnedSource cvt.rotation height k)) := by
  by_cases known : cvt.rotation = .other
  · unfold turnTile strides
    rw [known]
    exact returns_ok ⟨rfl, fun valid => absurd rfl valid⟩
  · have inside : sourceTile cvt.rotation numTiles i < numTiles := by
      unfold sourceTile
      cases cvt.rotation <;> dsimp only <;> omega
    rw [turnTile_eq known, tileAt, if_pos inside, ok_bind, remap]
    refine returns_bind (rotateTile_turns cvt.rotation _ tmpTile (remaps_of_tileRemap remap) rows) ?_
    intro tile written
    exact returns_ok ⟨rfl, fun _ => written⟩

end

def outputIndex (lineStride outputStride j m : Nat) : Nat :=
  j * outputStride + (m / 8 * lineStride + m % 8)

def Layout (numTiles height lineStride outputStride : Nat) : Prop :=
  lineStride = 8 ∧ outputStride = 8 * height ∨ lineStride = numTiles * 8 ∧ outputStride = 8

namespace Layout

variable {numTiles height lineStride outputStride j m j' m' : Nat}

theorem index_inj (layout : Layout numTiles height lineStride outputStride) (hj : j < numTiles)
    (hj' : j' < numTiles) (hm : m < 8 * height) (hm' : m' < 8 * height)
    (same : outputIndex lineStride outputStride j m = outputIndex lineStride outputStride j' m') :
    j = j' ∧ m = m' := by
  unfold outputIndex at same
  rcases layout with ⟨rfl, rfl⟩ | ⟨rfl, rfl⟩
  · rw [Nat.div_add_mod', Nat.div_add_mod'] at same
    exact mul_add_inj hm hm' same
  · have rows : (m / 8 * numTiles + j) * 8 + m % 8 = (m' / 8 * numTiles + j') * 8 + m' % 8 := by
      rw [Nat.add_mul, Nat.add_mul, Nat.mul_assoc, Nat.mul_assoc]
      omega
    obtain ⟨line, column⟩ := mul_add_inj (Nat.mod_lt m (by decide)) (Nat.mod_lt m' (by decide)) rows
    obtain ⟨row, tile⟩ := mul_add_inj hj hj' line
    exact ⟨tile, by omega⟩

theorem index_lt (layout : Layout numTiles height lineStride outputStride) (hj : j < numTiles)
    (hm : m < 8 * height) : outputIndex lineStride outputStride j m < numTiles * (8 * height) := by
  unfold outputIndex
  rcases layout with ⟨rfl, rfl⟩ | ⟨rfl, rfl⟩
  · have next := Nat.mul_le_mul_right (8 * height) (show j + 1 ≤ numTiles from hj)
    rw [Nat.succ_mul] at next
    omega
  · have line := Nat.mul_le_mul_right (numTiles * 8) (show m / 8 + 1 ≤ height by omega)
    rw [Nat.succ_mul (m / 8)] at line
    have total : numTiles * (8 * height) = height * (numTiles * 8) := by ring
    omega

end Layout

section

variable {size output height lineStride : Nat} {data : HostMemory} {tile : ImageTile}

@[simp] theorem length_storeU32 (value : Nat) : (storeU32 value).length = 4 := length_leBytes 4 value

theorem writeTileToOutput_eq (data : HostMemory) (tile : ImageTile) (rows : height ≤ 8)
    (room : ∀ x < 8, ∀ y < height, 4 * (output + (y * lineStride + x)) + 4 ≤ size) :
    writeTileToOutput size data output tile height lineStride =
      .ok ((grid 8 height).foldl (fun data p =>
        blit data (4 * (output + (p.2 * lineStride + p.1))) (storeU32 (tile (p.2 * 8 + p.1)))) data) := by
  apply Cells.fill_eq (fun p : Nat × Nat => 4 * (output + (p.2 * lineStride + p.1)))
    fun p => storeU32 (tile (p.2 * 8 + p.1))
  rintro ⟨x, y⟩ mem
  obtain ⟨hx, hy⟩ := mem_grid.mp mem
  refine ⟨?_, ?_⟩
  · dsimp only
    rw [Cells.cell_of_lt (by unfold tileSize; omega)]
    rfl
  · exact room x hx y hy

theorem writeTileToOutput_returns (data : HostMemory) (tile : ImageTile) (rows : height ≤ 8)
    (lines : 8 ≤ lineStride)
    (room : ∀ x < 8, ∀ y < height, 4 * (output + (y * lineStride + x)) + 4 ≤ size) :
    Returns (writeTileToOutput size data output tile height lineStride) fun after =>
      (∀ m < 8 * height, slice after (4 * (output + (m / 8 * lineStride + m % 8))) 4 =
        storeU32 (tile m)) ∧ ∀ k, (∀ m < 8 * height, k ≠ output + (m / 8 * lineStride + m % 8)) →
        slice after (4 * k) 4 = slice data (4 * k) 4 := by
  refine (Cells.fill_returns (fun p : Nat × Nat => 4 * (output + (p.2 * lineStride + p.1)))
    (fun p => storeU32 (tile (p.2 * 8 + p.1))) ?_ ?_).mono ?_
  · rintro ⟨x, y⟩ mem
    obtain ⟨hx, hy⟩ := mem_grid.mp mem
    refine ⟨?_, ?_⟩
    · dsimp only
      rw [Cells.cell_of_lt (by unfold tileSize; omega)]
      rfl
    · exact room x hx y hy
  · rintro ⟨x, y⟩ mem ⟨x', y'⟩ mem' other
    have hx := (mem_grid.mp mem).1
    have hx' := (mem_grid.mp mem').1
    have different : y * lineStride + x ≠ y' * lineStride + x' := by
      intro same
      obtain ⟨line, column⟩ := mul_add_inj (Nat.lt_of_lt_of_le hx lines)
        (Nat.lt_of_lt_of_le hx' lines) same
      exact other (by rw [line, column])
    rw [length_storeU32, length_storeU32]
    dsimp only
    omega
  · rintro after ⟨written, kept⟩
    refine ⟨fun m less => ?_, fun k outside => slice_congr fun i inside => kept _ ?_⟩
    · have pixel := written (m % 8, m / 8) (mem_grid.mpr ⟨Nat.mod_lt m (by decide), by omega⟩)
      rwa [Nat.div_add_mod'] at pixel
    · rintro ⟨x, y⟩ mem
      obtain ⟨hx, hy⟩ := mem_grid.mp mem
      have other := outside (y * 8 + x) (by omega)
      rw [show (y * 8 + x) / 8 = y by omega] at other
      rw [length_storeU32]
      dsimp only
      omega

end

section

variable {cvt : ConversionConfiguration} {numTiles height size k : Nat} {outMap : List Nat}
  {tiles : Nat → Nat}

/-- What `WriteTileToOutput` is given for a tile. -/
def writtenLayout (cvt : ConversionConfiguration) (height : Nat) : Nat × Nat × Nat :=
  match cvt.blockAlignment with
  | .block8x8 => (8, 8, tileSize)
  | .linear | .other => (height, strides cvt height)

structure Strip (cvt : ConversionConfiguration) (numTiles height size : Nat) : Prop where
  width : cvt.inputLineWidth = numTiles * 8
  size : size = cvt.inputLineWidth * 8 * 4
  lines : height ≤ 8
  block : cvt.blockAlignment = .block8x8 → height = 8

namespace Strip

section

variable (strip : Strip cvt numTiles height size)
include strip

theorem writtenLines : (writtenLayout cvt height).1 = height := by
  unfold writtenLayout
  cases alignment : cvt.blockAlignment with
  | block8x8 => exact (strip.block alignment).symm
  | _ => rfl

theorem layout (known : cvt.rotation ≠ .other) :
    Layout numTiles height (writtenLayout cvt height).2.1 (writtenLayout cvt height).2.2 := by
  unfold writtenLayout strides
  cases alignment : cvt.blockAlignment with
  | block8x8 => exact .inl ⟨rfl, by rw [strip.block alignment]; rfl⟩
  | _ =>
    cases rotation : cvt.rotation with
    | none | clockwise180 => exact .inr ⟨strip.width, rfl⟩
    | clockwise90 | clockwise270 => exact .inl ⟨rfl, rfl⟩
    | other => exact absurd rotation known

theorem remap_lt (remap : tileRemap cvt.blockAlignment = some outMap) (less : k < 8 * height) :
    outMap.getD k 0 < 8 * height := by
  have lines := strip.lines
  have linear : ∀ k < 64, linearLut.getD k 0 = k := by decide
  have morton : ∀ k < 64, mortonLut.getD k 0 < 64 := by decide
  cases alignment : cvt.blockAlignment with
  | linear =>
    rw [alignment] at remap
    cases remap
    rwa [linear k (by omega)]
  | block8x8 =>
    rw [alignment] at remap
    cases remap
    rw [strip.block alignment]
    exact morton k (by omega)
  | other =>
    rw [alignment] at remap
    cases remap

end

end Strip

theorem writeTile_eq (remap : tileRemap cvt.blockAlignment = some outMap) (s : TileState) (i : Nat) :
    writeTile cvt numTiles height tiles size s i = (do
      let turned ← turnTile cvt numTiles height tiles i s.tmpTile
      let layout := match cvt.blockAlignment with
        | .block8x8 => (8, 8, tileSize)
        | .linear | .other => (height, turned.2)
      let data ← writeTileToOutput size s.data s.output turned.1 layout.1 layout.2.1
      return ⟨data, turned.1, s.output + layout.2.2⟩) := by
  unfold writeTile
  cases alignment : cvt.blockAlignment with
  | other =>
    rw [alignment] at remap
    cases remap
  | _ => rfl

structure Written (cvt : ConversionConfiguration) (numTiles height : Nat) (outMap : List Nat)
    (tiles : Nat → Nat) (j : Nat) (s : TileState) : Prop where
  outputAt : s.output = j * (writtenLayout cvt height).2.2
  pixels : ∀ i < j, ∀ k < 8 * height, slice s.data (4 * outputIndex (writtenLayout cvt height).2.1
      (writtenLayout cvt height).2.2 i (outMap.getD k 0)) 4 =
    storeU32 (tiles (sourceTile cvt.rotation numTiles i * tileSize +
      turnedSource cvt.rotation height k))

theorem Written.writeTile {j : Nat} {s : TileState} (strip : Strip cvt numTiles height size)
    (known : cvt.rotation ≠ .other) (remap : tileRemap cvt.blockAlignment = some outMap)
    (less : j < numTiles) (h : Written cvt numTiles height outMap tiles j s) :
    Returns (writeTile cvt numTiles height tiles size s j)
      (Written cvt numTiles height outMap tiles (j + 1)) := by
  have layout := strip.layout known
  have lines := strip.writtenLines
  rw [writeTile_eq remap]
  refine returns_bind (turnTile_returns tiles s.tmpTile less strip.lines remap) ?_
  rintro ⟨tile, turnedStrides⟩ ⟨rfl, turned⟩
  have same : (match cvt.blockAlignment with
      | .block8x8 => (8, 8, tileSize)
      | .linear | .other => (height, strides cvt height)) = writtenLayout cvt height := rfl
  dsimp only
  rw [same, lines]
  have bound : 8 ≤ (writtenLayout cvt height).2.1 := by
    rcases layout with ⟨line, -⟩ | ⟨line, -⟩
    · rw [line]
    · omega
  have room : ∀ m < 8 * height,
      4 * outputIndex (writtenLayout cvt height).2.1 (writtenLayout cvt height).2.2 j m + 4 ≤ size := by
    intro m inTile
    have inside := layout.index_lt less inTile
    have total := Nat.mul_le_mul_left numTiles (Nat.mul_le_mul_left 8 strip.lines)
    rw [strip.size, strip.width]
    omega
  refine returns_bind (writeTileToOutput_returns s.data tile strip.lines bound ?_) ?_
  · intro x hx y hy
    have pixel := room (y * 8 + x) (by omega)
    rw [outputIndex, show (y * 8 + x) / 8 = y by omega, show (y * 8 + x) % 8 = x by omega,
      ← h.outputAt] at pixel
    exact pixel
  · rintro after ⟨written, kept⟩
    refine returns_ok ⟨?_, ?_⟩
    · rw [h.outputAt, Nat.succ_mul]
    · intro i inside k inTile
      have place := strip.remap_lt remap inTile
      rcases Nat.lt_or_ge i j with earlier | last
      · rw [← h.pixels i earlier k inTile]
        apply kept
        intro m inTile' same
        rw [h.outputAt] at same
        have tile := (layout.index_inj (by omega) less place inTile' same).1
        omega
      · obtain rfl : i = j := by omega
        rw [← turned known k inTile, ← written _ place, h.outputAt]
        rfl

theorem writeTiles_returns (data : HostMemory) (tmpTile : ImageTile) (tiles : Nat → Nat)
    (strip : Strip cvt numTiles height size) (known : cvt.rotation ≠ .other)
    (remap : tileRemap cvt.blockAlignment = some outMap) :
    Returns ((List.range numTiles).foldlM (writeTile cvt numTiles height tiles size)
      ⟨data, tmpTile, 0⟩) (Written cvt numTiles height outMap tiles numTiles) := by
  apply returns_range (Written cvt numTiles height outMap tiles)
  · intro j less s h
    exact h.writeTile strip known remap less
  · exact ⟨by rw [Nat.zero_mul], fun i none => absurd none (Nat.not_lt_zero i)⟩

theorem writeTile_unturned {j : Nat} {s : TileState} (strip : Strip cvt numTiles height size)
    (unknown : cvt.rotation = .other) (less : j < numTiles)
    (outputAt : s.output = j * (writtenLayout cvt height).2.2) :
    Returns (writeTile cvt numTiles height tiles size s j) fun t =>
      t.output = (j + 1) * (writtenLayout cvt height).2.2 := by
  have none (tmpTile : ImageTile) :
      turnTile cvt numTiles height tiles j tmpTile = .ok (tmpTile, 0, 0) := by
    rw [turnTile, unknown]
  have lines := strip.lines
  have width := strip.width
  have buffer := strip.size
  unfold writtenLayout strides at outputAt ⊢
  unfold writeTile
  rw [none, ok_bind, unknown] at *
  cases alignment : cvt.blockAlignment with
  | linear =>
    rw [alignment] at outputAt
    dsimp only at outputAt ⊢
    rw [writeTileToOutput_eq _ _ lines (by omega)]
    exact returns_ok (by omega)
  | block8x8 =>
    rw [alignment] at outputAt
    dsimp only at outputAt ⊢
    rw [writeTileToOutput_eq _ _ (Nat.le_refl 8) (by unfold tileSize at *; omega)]
    exact returns_ok (by rw [outputAt, Nat.succ_mul])
  | other =>
    rw [alignment] at outputAt
    exact returns_ok outputAt

theorem writeTiles_answers (data : HostMemory) (tmpTile : ImageTile) (tiles : Nat → Nat)
    (strip : Strip cvt numTiles height size) (some_tiles : 0 < numTiles) (some_lines : 0 < height) :
    Answers ((List.range numTiles).foldlM (writeTile cvt numTiles height tiles size)
      ⟨data, tmpTile, 0⟩) ↔ (cvt.blockAlignment = .other → cvt.rotation = .other) := by
  by_cases unknown : cvt.rotation = .other
  · refine iff_of_true (Returns.answers (returns_range
      (fun j s => s.output = j * (writtenLayout cvt height).2.2) ?_ (by rw [Nat.zero_mul])))
      fun _ => unknown
    intro j less s outputAt
    exact writeTile_unturned strip unknown less outputAt
  · cases remap : tileRemap cvt.blockAlignment with
    | some outMap =>
      refine iff_of_true (writeTiles_returns data tmpTile tiles strip unknown remap).answers ?_
      intro none
      rw [none] at remap
      cases remap
    | none =>
      have other : cvt.blockAlignment = .other := by
        cases alignment : cvt.blockAlignment with
        | other => rfl
        | _ =>
          rw [alignment] at remap
          cases remap
      refine iff_of_false (fun answers => ?_) fun turned => unknown (turned other)
      obtain ⟨n, rfl⟩ := Nat.exists_eq_succ_of_ne_zero (Nat.ne_of_gt some_tiles)
      rw [List.range_succ_eq_map, List.foldlM_cons, answers_bind] at answers
      obtain ⟨t, first, -⟩ := answers
      unfold writeTile at first
      rw [turnTile_eq unknown, remap] at first
      obtain ⟨turned, turns, -⟩ := bind_eq_ok.mp first
      obtain ⟨input, -, turns⟩ := bind_eq_ok.mp turns
      obtain ⟨tile, rotates, -⟩ := bind_eq_ok.mp turns
      refine rotateTile_none ?_ ⟨tile, rotates⟩
      have length := (tileSources_spec cvt.rotation strip.lines).1
      intro empty
      rw [empty] at length
      simp only [List.length_nil] at length
      omega

end
end EmuThreeDS.Y2R
