import EmuThreeDS.Video.DisplayTransfer
import EmuThreeDS.Video.MortonTiles

/-!
# Transferred images

Where the pixels of a transfer come from and go to, in tiles or in lines, and from that: a transfer
back undoes one to lines, and a scaled pixel is an average of a block.
-/
namespace EmuThreeDS.GPU

open Blit Color VideoCore

section

variable {width height bytes x y x' y' i : Nat} {tiled : Bool}

theorem tiledOffset_mod (x y width bytes : Nat) :
    tiledOffset x y width bytes = pixelIndex true width x y * bytes % 0x100000000 := by
  unfold tiledOffset getMortonOffset add32 mul32 pixelIndex
  simp only [Nat.mod_mul_mod, Nat.mul_mod_mod, Nat.mod_add_mod, Nat.add_mod_mod, if_true]
  congr 1
  ring

theorem linearOffset_mod (x y width bytes : Nat) :
    linearOffset x y width bytes = pixelIndex false width x y * bytes % 0x100000000 := by
  unfold linearOffset add32 mul32 pixelIndex
  simp only [Nat.mod_mul_mod, Nat.add_mod_mod, Bool.false_eq_true, if_false]
  congr 1
  ring

theorem mortonInterleave_lt (x y : Nat) : mortonInterleave x y < 64 := by
  have tile := (column_row_mortonInterleave (Nat.mod_lt x (by decide))
    (Nat.mod_lt y (by decide : 0 < 8))).1
  rwa [mortonInterleave_congr (Nat.mod_mod x 8) (Nat.mod_mod y 8)] at tile

def WholeTiles (tiled : Bool) (width height : Nat) : Prop :=
  tiled = true → width % 8 = 0 ∧ height % 8 = 0

theorem pixelIndex_lt (whole : WholeTiles tiled width height) (hx : x < width) (hy : y < height) :
    pixelIndex tiled width x y < width * height := by
  unfold pixelIndex
  split_ifs with isTiled
  · obtain ⟨columns, rows⟩ := whole isTiled
    have morton := mortonInterleave_lt x y
    have below : (y / 8 + 1) * (width * 8) ≤ height / 8 * (width * 8) :=
      Nat.mul_le_mul_right _ (by omega)
    have total : height / 8 * (width * 8) = width * height := by
      rw [Nat.mul_left_comm, Nat.div_mul_cancel (Nat.dvd_of_mod_eq_zero rows)]
    rw [Nat.add_mul] at below
    omega
  · have below := Nat.mul_le_mul_right width (Nat.succ_le_of_lt hy)
    rw [Nat.succ_mul, Nat.mul_comm height] at below
    omega

theorem pixelIndex_tile (columns : width % 8 = 0) (hx : x < width) :
    pixelIndex true width x y / (width * 8) = y / 8 ∧
      pixelIndex true width x y % (width * 8) / 64 = x / 8 ∧
      pixelIndex true width x y % 64 = mortonInterleave x y := by
  have morton := mortonInterleave_lt x y
  have inRow : x / 8 * 64 + mortonInterleave x y < width * 8 := by omega
  have split : pixelIndex true width x y =
      width * 8 * (y / 8) + (x / 8 * 64 + mortonInterleave x y) := by
    rw [pixelIndex, if_pos rfl, Nat.mul_comm, Nat.add_assoc]
  have tiles : width * 8 = 64 * (width / 8) := by omega
  refine ⟨?_, ?_, ?_⟩
  · rw [split, Nat.mul_add_div (by omega), Nat.div_eq_of_lt inRow, Nat.add_zero]
  · rw [split, Nat.mul_add_mod, Nat.mod_eq_of_lt inRow]
    omega
  · rw [split, tiles, Nat.mul_assoc]
    omega

theorem pixelIndex_inj (whole : WholeTiles tiled width height) (hx : x < width) (hx' : x' < width)
    (same : pixelIndex tiled width x y = pixelIndex tiled width x' y') : x = x' ∧ y = y' := by
  cases tiled with
  | true =>
    have columns := (whole rfl).1
    obtain ⟨row, column, place⟩ := pixelIndex_tile (y := y) columns hx
    obtain ⟨row', column', place'⟩ := pixelIndex_tile (y := y') columns hx'
    rw [same] at row column place
    have within := place.symm.trans place'
    rw [← mortonInterleave_congr (Nat.mod_mod x 8) (Nat.mod_mod y 8),
      ← mortonInterleave_congr (Nat.mod_mod x' 8) (Nat.mod_mod y' 8)] at within
    obtain ⟨low, low'⟩ := mortonInterleave_inj (Nat.mod_lt x (by decide))
      (Nat.mod_lt y (by decide)) (Nat.mod_lt x' (by decide)) (Nat.mod_lt y' (by decide)) within
    omega
  | false =>
    have row : (y * width + x) / width = (y' * width + x') / width := congrArg (· / width) same
    have column : (y * width + x) % width = (y' * width + x') % width := congrArg (· % width) same
    rw [Nat.mul_comm y, Nat.mul_comm y', Nat.mul_add_div (by omega), Nat.mul_add_div (by omega),
      Nat.div_eq_of_lt hx, Nat.div_eq_of_lt hx'] at row
    rw [Nat.mul_comm y, Nat.mul_comm y', Nat.mul_add_mod, Nat.mul_add_mod, Nat.mod_eq_of_lt hx,
      Nat.mod_eq_of_lt hx'] at column
    exact ⟨column, row⟩

theorem exists_pixelIndex (columns : width % 8 = 0) (rows : height % 8 = 0)
    (less : i < width * height) : ∃ x < width, ∃ y < height, pixelIndex true width x y = i := by
  have place := Nat.mod_lt i (by decide : 0 < 64)
  obtain ⟨column, row, morton⟩ := mortonInterleave_column_row place
  have positive : 0 < width := Nat.pos_of_ne_zero fun none => by
    rw [none, Nat.zero_mul] at less
    exact Nat.not_lt_zero _ less
  have total : height / 8 * (width * 8) = width * height := by
    rw [Nat.mul_left_comm, Nat.div_mul_cancel (Nat.dvd_of_mod_eq_zero rows)]
  have tileRow : i / (width * 8) < height / 8 := by
    rw [Nat.div_lt_iff_lt_mul (by omega), total]
    exact less
  have inRow := Nat.mod_lt i (show 0 < width * 8 by omega)
  have split := Nat.div_add_mod' i (width * 8)
  refine ⟨i % (width * 8) / 64 * 8 + mortonColumn (i % 64), by omega,
    i / (width * 8) * 8 + mortonRow (i % 64), by omega, ?_⟩
  have same : mortonInterleave (i % (width * 8) / 64 * 8 + mortonColumn (i % 64))
      (i / (width * 8) * 8 + mortonRow (i % 64)) = i % 64 :=
    (mortonInterleave_congr (by omega) (by omega)).trans morton
  have tileRow' : (i / (width * 8) * 8 + mortonRow (i % 64)) / 8 = i / (width * 8) := by omega
  have lowest : i % (width * 8) % 64 = i % 64 := Nat.mod_mod_of_dvd i (by omega)
  rw [pixelIndex, if_pos rfl, tileRow']
  omega

/-- Every byte of an image in tiles is one of exactly one of its pixels. -/
theorem tiledOffset_partition (columns : width % 8 = 0) (rows : height % 8 = 0)
    (fits : width * height * bytes ≤ 0x100000000) (less : i < width * height * bytes) :
    ∃! p : Nat × Nat, p.1 < width ∧ p.2 < height ∧
      tiledOffset p.1 p.2 width bytes ≤ i ∧ i < tiledOffset p.1 p.2 width bytes + bytes := by
  have whole : WholeTiles true width height := fun _ => ⟨columns, rows⟩
  have positive : 0 < bytes := Nat.pos_of_mul_pos_left (Nat.zero_lt_of_lt less)
  have offset : ∀ x < width, ∀ y < height,
      tiledOffset x y width bytes = pixelIndex true width x y * bytes := by
    intro x hx y hy
    have inside := Nat.mul_lt_mul_of_pos_right (pixelIndex_lt whole hx hy) positive
    rw [tiledOffset_mod, Nat.mod_eq_of_lt (Nat.lt_of_lt_of_le inside fits)]
  obtain ⟨x, hx, y, hy, index⟩ :=
    exists_pixelIndex columns rows ((Nat.div_lt_iff_lt_mul positive).mpr less)
  have split := Nat.div_add_mod' i bytes
  have below := Nat.mod_lt i positive
  refine ⟨(x, y), ⟨hx, hy, ?_⟩, ?_⟩
  · dsimp only
    rw [offset x hx y hy, index]
    omega
  · rintro ⟨x', y'⟩ ⟨hx', hy', low, high⟩
    rw [offset x' hx' y' hy'] at low high
    have same : i / bytes = pixelIndex true width x' y' :=
      Nat.div_eq_of_lt_le low (by rwa [Nat.succ_mul])
    obtain ⟨column, row⟩ := pixelIndex_inj whole hx' hx (same.symm.trans index.symm)
    exact Prod.ext column row

theorem tiledOffset_partition_tile : ∃! p : Nat × Nat, p.1 < 8 ∧ p.2 < 8 ∧
    tiledOffset p.1 p.2 8 3 ≤ 100 ∧ 100 < tiledOffset p.1 p.2 8 3 + 3 :=
  @tiledOffset_partition 8 8 3 100 (by decide) (by decide) (by decide) (by decide)

theorem pixelIndex_block (width x y : Nat) :
    pixelIndex true width (2 * x + 1) y = pixelIndex true width (2 * x) y + 1 ∧
      pixelIndex true width (2 * x) (2 * y + 1) = pixelIndex true width (2 * x) (2 * y) + 2 ∧
      pixelIndex true width (2 * x + 1) (2 * y + 1) =
        pixelIndex true width (2 * x) (2 * y) + 3 := by
  have columns : ∀ a < 4, ∀ b < 8,
      mortonInterleave (2 * a + 1) b = mortonInterleave (2 * a) b + 1 := by decide +kernel
  have rows : ∀ a < 8, ∀ b < 4,
      mortonInterleave a (2 * b + 1) = mortonInterleave a (2 * b) + 2 := by decide +kernel
  have column (y : Nat) : mortonInterleave (2 * x + 1) y = mortonInterleave (2 * x) y + 1 := by
    rw [mortonInterleave_congr (show (2 * x + 1) % 8 = (2 * (x % 4) + 1) % 8 by omega)
      (Nat.mod_mod y 8).symm, columns _ (Nat.mod_lt x (by decide)) _ (Nat.mod_lt y (by decide)),
      mortonInterleave_congr (show 2 * (x % 4) % 8 = 2 * x % 8 by omega) (Nat.mod_mod y 8)]
  have row (x : Nat) : mortonInterleave x (2 * y + 1) = mortonInterleave x (2 * y) + 2 := by
    rw [mortonInterleave_congr (Nat.mod_mod x 8).symm
      (show (2 * y + 1) % 8 = (2 * (y % 4) + 1) % 8 by omega),
      rows _ (Nat.mod_lt x (by decide)) _ (Nat.mod_lt y (by decide)),
      mortonInterleave_congr (Nat.mod_mod x 8) (show 2 * (y % 4) % 8 = 2 * y % 8 by omega)]
  have half : (2 * x + 1) / 8 = 2 * x / 8 := by omega
  have half' : (2 * y + 1) / 8 = 2 * y / 8 := by omega
  unfold pixelIndex
  simp only [if_true, half, half', column, row, Nat.add_assoc, and_self]

end

namespace PixelFormat

variable {format : PixelFormat} {bytes : Nat} {pixel pixel' : Nat → UInt8}

section

variable (known : format.bytesPerPixel = .ok bytes)
include known

theorem length_encodePixel (color : Vec4) : (format.encodePixel color).length = bytes := by
  cases format <;> cases known <;> rfl

theorem decodePixel_congr (same : ∀ k < bytes, pixel k = pixel' k) :
    format.decodePixel pixel = format.decodePixel pixel' := by
  have halves (known : (2 : Nat) = bytes) : slice pixel 0 2 = slice pixel' 0 2 :=
    slice_congr fun k less => by
      rw [Nat.zero_add]
      exact same k (known ▸ less)
  cases format with
  | rgba8 =>
    cases known
    simp only [decodePixel, decodeRGBA8, same 0 (by decide), same 1 (by decide),
      same 2 (by decide), same 3 (by decide)]
  | rgb8 =>
    cases known
    simp only [decodePixel, decodeRGB8, same 0 (by decide), same 1 (by decide),
      same 2 (by decide)]
  | rgb565 =>
    cases known
    simp only [decodePixel, decodeRGB565, loadU16, halves rfl]
  | rgb5a1 =>
    cases known
    simp only [decodePixel, decodeRGB5A1, loadU16, halves rfl]
  | rgba4 =>
    cases known
    simp only [decodePixel, decodeRGBA4, loadU16, halves rfl]
  | other => cases known

theorem encodePixel_decodePixel :
    format.encodePixel (format.decodePixel pixel) = slice pixel 0 bytes := by
  cases format with
  | rgba8 =>
    cases known
    exact encodeRGBA8_decodeRGBA8 pixel
  | rgb8 =>
    cases known
    rfl
  | rgb565 =>
    cases known
    exact encodeRGB565_decodeRGB565 pixel
  | rgb5a1 =>
    cases known
    exact encodeRGB5A1_decodeRGB5A1 pixel
  | rgba4 =>
    cases known
    exact encodeRGBA4_decodeRGBA4 pixel
  | other => cases known

end

end PixelFormat

namespace DisplayTransferConfig

variable {config : DisplayTransferConfig} {srcBytes dstBytes src dst x y : Nat}
  {memory before : HostMemory}

theorem mem_outputPixels :
    (x, y) ∈ config.outputPixels ↔ x < config.scaledWidth ∧ y < config.scaledHeight :=
  mem_grid

def blockSize (config : DisplayTransferConfig) : Nat :=
  match config.scaling with
  | .scaleX => 2
  | .scaleXY => 4
  | .noScale | .other => 1

theorem srcColor_congr {pixel pixel' : Nat → UInt8}
    (known : config.inputFormat.bytesPerPixel = .ok srcBytes)
    (same : ∀ k < config.blockSize * srcBytes, pixel k = pixel' k) :
    config.srcColor srcBytes pixel = config.srcColor srcBytes pixel' := by
  have decoded (n : Nat) (less : n < config.blockSize) :
      (config.inputFormat.decodePixel fun k => pixel (n * srcBytes + k)) =
        config.inputFormat.decodePixel fun k => pixel' (n * srcBytes + k) := by
    apply PixelFormat.decodePixel_congr known
    intro k inside
    apply same
    have block := Nat.mul_le_mul_right srcBytes (Nat.succ_le_of_lt less)
    rw [Nat.succ_mul] at block
    omega
  unfold srcColor
  unfold blockSize at decoded
  cases kind : config.scaling <;> rw [kind] at decoded <;> dsimp only at decoded ⊢
  · rw [decoded 0 (by decide)]
  · rw [decoded 0 (by decide), decoded 1 (by decide)]
  · rw [decoded 0 (by decide), decoded 1 (by decide), decoded 2 (by decide),
      decoded 3 (by decide)]
  · rw [decoded 0 (by decide)]

def tiledOutput (config : DisplayTransferConfig) : Bool := config.inputLinear != config.dontSwizzle

/-- The number of the first pixel that is read for one of the output, in the order of the memory. -/
def srcIndex (config : DisplayTransferConfig) (x y : Nat) : Nat :=
  pixelIndex (!config.inputLinear) config.inputWidth.toNat (x <<< config.horizontalScale)
    (y <<< config.verticalScale)

def dstIndex (config : DisplayTransferConfig) (x y : Nat) : Nat :=
  pixelIndex config.tiledOutput config.scaledWidth x (config.outputRow y)

def writePixels (config : DisplayTransferConfig) (dstBytes dst : Nat)
    (pixel : Nat → Nat → List UInt8) (memory : HostMemory) : HostMemory :=
  config.outputPixels.foldl (fun memory p =>
    blit memory (dst + config.dstOffset dstBytes p.1 p.2) (pixel p.1 p.2)) memory

theorem srcOffset_mod (config : DisplayTransferConfig) (srcBytes x y : Nat) :
    config.srcOffset srcBytes x y = config.srcIndex x y * srcBytes % 0x100000000 := by
  unfold srcOffset srcIndex
  cases config.inputLinear
  · exact tiledOffset_mod ..
  · exact linearOffset_mod ..

theorem dstOffset_mod (config : DisplayTransferConfig) (dstBytes x y : Nat) :
    config.dstOffset dstBytes x y = config.dstIndex x y * dstBytes % 0x100000000 := by
  unfold dstOffset dstIndex tiledOutput
  cases config.inputLinear <;> cases config.dontSwizzle
  · exact linearOffset_mod ..
  · exact tiledOffset_mod ..
  · exact tiledOffset_mod ..
  · exact linearOffset_mod ..

theorem outputRow_lt (less : y < config.scaledHeight) :
    config.outputRow y < config.scaledHeight := by
  unfold outputRow
  split_ifs
  · omega
  · exact less

theorem outputRow_outputRow (less : y < config.scaledHeight) :
    config.outputRow (config.outputRow y) = y := by
  unfold outputRow
  split_ifs
  · omega
  · rfl

/-- The formats are known, and what is read and written for a pixel is in two parts of the memory
that are apart, both with offsets of 32 bits. -/
structure Apart (config : DisplayTransferConfig) (srcBytes dstBytes src dst inputSize outputSize :
    Nat) : Prop where
  srcFormat : config.inputFormat.bytesPerPixel = .ok srcBytes
  dstFormat : config.outputFormat.bytesPerPixel = .ok dstBytes
  reads : ∀ x < config.scaledWidth, ∀ y < config.scaledHeight,
    (config.srcIndex x y + config.blockSize) * srcBytes ≤ inputSize
  writes : ∀ x < config.scaledWidth, ∀ y < config.scaledHeight,
    (config.dstIndex x y + 1) * dstBytes ≤ outputSize
  input : inputSize ≤ 0x100000000
  output : outputSize ≤ 0x100000000
  apart : src + inputSize ≤ dst ∨ dst + outputSize ≤ src

namespace Apart

variable {inputSize outputSize : Nat}

theorem bytes_pos {format : PixelFormat} {bytes : Nat} (known : format.bytesPerPixel = .ok bytes) :
    0 < bytes := by
  cases format <;> cases known <;> decide

theorem blockSize_pos (config : DisplayTransferConfig) : 0 < config.blockSize := by
  unfold blockSize
  cases config.scaling <;> decide

section

variable (h : config.Apart srcBytes dstBytes src dst inputSize outputSize)
  (hx : x < config.scaledWidth) (hy : y < config.scaledHeight)
include h hx hy

theorem srcOffset_eq : config.srcOffset srcBytes x y = config.srcIndex x y * srcBytes := by
  have reads := h.reads x hx y hy
  have some_read := Nat.mul_pos (blockSize_pos config) (bytes_pos h.srcFormat)
  have input := h.input
  rw [Nat.add_mul] at reads
  rw [srcOffset_mod, Nat.mod_eq_of_lt (by omega)]

theorem dstOffset_eq : config.dstOffset dstBytes x y = config.dstIndex x y * dstBytes := by
  have writes := h.writes x hx y hy
  have some_written := bytes_pos h.dstFormat
  have output := h.output
  rw [Nat.add_mul] at writes
  rw [dstOffset_mod, Nat.mod_eq_of_lt (by omega)]

end

end Apart

namespace Apart

variable {inputSize outputSize : Nat}

section

variable (h : config.Apart srcBytes dstBytes src dst inputSize outputSize)
include h

theorem length_dstPixel (memory : HostMemory) (x y : Nat) :
    (config.dstPixel srcBytes src memory x y).length = dstBytes :=
  PixelFormat.length_encodePixel h.dstFormat _

theorem transferPixels_eq (before : HostMemory) :
    config.transferPixels srcBytes dstBytes src dst before =
      config.writePixels dstBytes dst (config.dstPixel srcBytes src before) before := by
  apply foldl_blit_reads (fun p : Nat × Nat => dst + config.dstOffset dstBytes p.1 p.2)
    (fun p => config.dstPixel srcBytes src before p.1 p.2)
    (fun memory p => config.dstPixel srcBytes src memory p.1 p.2)
    fun a => src ≤ a ∧ a < src + inputSize
  · rintro memory same ⟨x, y⟩ mem
    obtain ⟨hx, hy⟩ := mem_outputPixels.mp mem
    have reads := h.reads x hx y hy
    rw [Nat.add_mul] at reads
    unfold dstPixel
    rw [srcColor_congr h.srcFormat]
    intro k less
    rw [h.srcOffset_eq hx hy]
    exact same _ ⟨by omega, by omega⟩
  · rintro ⟨x, y⟩ mem a ⟨start, less⟩
    obtain ⟨hx, hy⟩ := mem_outputPixels.mp mem
    have writes := h.writes x hx y hy
    have apart := h.apart
    rw [Nat.add_mul] at writes
    rw [h.length_dstPixel, h.dstOffset_eq hx hy]
    omega
  · intro a _
    rfl

theorem transferPixels_at
    (whole : WholeTiles config.tiledOutput config.scaledWidth config.scaledHeight)
    (before : HostMemory) (hx : x < config.scaledWidth) (hy : y < config.scaledHeight) :
    slice (config.transferPixels srcBytes dstBytes src dst before)
        (dst + config.dstIndex x y * dstBytes) dstBytes =
      config.dstPixel srcBytes src before x y := by
  have mem : (x, y) ∈ config.outputPixels := mem_outputPixels.mpr ⟨hx, hy⟩
  rw [h.transferPixels_eq, ← h.dstOffset_eq hx hy]
  apply List.ext_getElem (by rw [length_slice, h.length_dstPixel])
  intro k _ inside
  simp only [slice, List.getElem_map, List.getElem_range]
  apply foldl_blit_inside (fun p : Nat × Nat => dst + config.dstOffset dstBytes p.1 p.2)
    (fun p => config.dstPixel srcBytes src before p.1 p.2) mem ?_ inside
  rintro ⟨x', y'⟩ mem' other
  obtain ⟨hx', hy'⟩ := mem_outputPixels.mp mem'
  have different : config.dstIndex x y ≠ config.dstIndex x' y' := by
    intro same
    obtain ⟨column, row⟩ := pixelIndex_inj whole hx hx' same
    have row' := congrArg config.outputRow row
    rw [outputRow_outputRow hy, outputRow_outputRow hy'] at row'
    exact other (by rw [column, row'])
  rw [h.length_dstPixel, h.length_dstPixel, h.dstOffset_eq hx hy, h.dstOffset_eq hx' hy']
  rcases Nat.lt_or_gt_of_ne different with less | less
  · have next := Nat.mul_le_mul_right dstBytes (Nat.succ_le_of_lt less)
    rw [Nat.succ_mul] at next
    omega
  · have next := Nat.mul_le_mul_right dstBytes (Nat.succ_le_of_lt less)
    rw [Nat.succ_mul] at next
    omega

end

end Apart
end DisplayTransferConfig

section

variable {devices : Devices} {config : DisplayTransferConfig} {memory : HostMemory}
  {srcBytes dstBytes inputSize outputSize : Nat}

/-- A transfer that is made here: the addresses are valid and the rasterizer does not take it over.
Its input and its output are two parts of the memory that are apart. -/
structure TransferPasses (devices : Devices) (config : DisplayTransferConfig)
    (memory : HostMemory) (inputSize outputSize : Nat) : Prop where
  source : devices.isValidPhysicalAddress config.getPhysicalInputAddress = true
  destination : devices.isValidPhysicalAddress config.getPhysicalOutputAddress = true
  notAccelerated : devices.accelerateDisplayTransfer config memory = none
  input : inputSize ≤ 0x100000000
  output : outputSize ≤ 0x100000000
  apart : devices.getPhysicalPointer config.getPhysicalInputAddress + inputSize ≤
      devices.getPhysicalPointer config.getPhysicalOutputAddress ∨
    devices.getPhysicalPointer config.getPhysicalOutputAddress + outputSize ≤
      devices.getPhysicalPointer config.getPhysicalInputAddress

theorem displayTransfer_empty (empty : config.inputWidth = 0 ∨ config.inputHeight = 0) :
    displayTransfer devices config memory = .ok memory := by
  unfold displayTransfer
  rcases empty with width | height
  · simp only [width, if_true, ite_self]
  · simp only [height, if_true, ite_self]

theorem TransferPasses.displayTransfer_eq
    (passes : TransferPasses devices config memory inputSize outputSize)
    (inputWidth : config.inputWidth ≠ 0) (inputHeight : config.inputHeight ≠ 0)
    (outputWidth : config.outputWidth ≠ 0) (outputHeight : config.outputHeight ≠ 0)
    (scales : config.scaling ≠ .other)
    (possible : ¬(config.inputLinear = true ∧ config.scaling ≠ .noScale))
    (srcFormat : config.inputFormat.bytesPerPixel = .ok srcBytes)
    (dstFormat : config.outputFormat.bytesPerPixel = .ok dstBytes) :
    displayTransfer devices config memory = .ok (config.transferPixels srcBytes dstBytes
        (devices.getPhysicalPointer config.getPhysicalInputAddress)
        (devices.getPhysicalPointer config.getPhysicalOutputAddress)
        (regionsForTransfer devices config srcBytes dstBytes memory)) := by
  unfold displayTransfer
  simp only [passes.source, passes.destination, passes.notAccelerated, inputWidth, inputHeight,
    outputWidth, outputHeight, scales, possible, srcFormat, dstFormat, reduceCtorEq, if_false,
    ok_bind]
  rfl

end

structure Image where
  width : BitVec 16
  height : BitVec 16
  format : PixelFormat
  columns : width.toNat % 8 = 0
  rows : height.toNat % 8 = 0

namespace Image

variable (image : Image)

def size (bytes : Nat) : Nat := image.width.toNat * image.height.toNat * bytes

def row (flipVertically : Bool) (y : Nat) : Nat :=
  if flipVertically then image.height.toNat - y - 1 else y

def transfer (flipVertically inputLinear : Bool) (copy : TextureCopyConfig)
    (input output : BitVec 32) : DisplayTransferConfig where
  inputAddress := input
  outputAddress := output
  outputWidth := image.width
  outputHeight := image.height
  inputWidth := image.width
  inputHeight := image.height
  flipVertically := flipVertically
  inputLinear := inputLinear
  dontSwizzle := false
  inputFormat := image.format
  outputFormat := image.format
  scaling := .noScale
  textureCopy := copy

variable {image} {flip linear : Bool} {copy : TextureCopyConfig} {input output : BitVec 32}
  {devices : Devices} {memory transferred : HostMemory} {bytes x y : Nat}

variable (image) in
theorem wholeTiles (tiled : Bool) : WholeTiles tiled image.width.toNat image.height.toNat :=
  fun _ => ⟨image.columns, image.rows⟩

theorem row_lt (flip : Bool) (hy : y < image.height.toNat) :
    image.row flip y < image.height.toNat := by
  unfold row
  split_ifs <;> omega

theorem row_row (flip : Bool) (hy : y < image.height.toNat) :
    image.row flip (image.row flip y) = y := by
  unfold row
  split_ifs <;> omega

section

variable (known : image.format.bytesPerPixel = .ok bytes)
  (passes : TransferPasses devices (image.transfer flip linear copy input output) memory
    (image.size bytes) (image.size bytes))
include known passes

theorem apart :
    (image.transfer flip linear copy input output).Apart bytes bytes
      (devices.getPhysicalPointer (decodeAddressRegister input))
      (devices.getPhysicalPointer (decodeAddressRegister output))
      (image.size bytes) (image.size bytes) where
  srcFormat := known
  dstFormat := known
  reads _ hx _ hy := Nat.mul_le_mul_right bytes
    (pixelIndex_lt (wholeTiles image (!linear)) hx hy)
  writes _ hx _ hy := Nat.mul_le_mul_right bytes
    (pixelIndex_lt (wholeTiles image _) hx (DisplayTransferConfig.outputRow_lt hy))
  input := passes.input
  output := passes.output
  apart := passes.apart

theorem displayTransfer_transfer :
    ∃ transferred, displayTransfer devices (image.transfer flip linear copy input output) memory =
        .ok transferred ∧ ∀ x < image.width.toNat, ∀ y < image.height.toNat,
        slice transferred (devices.getPhysicalPointer (decodeAddressRegister output) +
            pixelIndex linear image.width.toNat x (image.row flip y) * bytes) bytes =
          slice (regionsForTransfer devices (image.transfer flip linear copy input output)
              bytes bytes memory) (devices.getPhysicalPointer (decodeAddressRegister input) +
              pixelIndex (!linear) image.width.toNat x y * bytes) bytes := by
  have parts := apart known passes
  by_cases width : image.width = 0
  · refine ⟨memory, displayTransfer_empty (.inl width), fun x hx => ?_⟩
    rw [width] at hx
    exact absurd hx (Nat.not_lt_zero x)
  by_cases height : image.height = 0
  · refine ⟨memory, displayTransfer_empty (.inr height), fun x _ y hy => ?_⟩
    rw [height] at hy
    exact absurd hy (Nat.not_lt_zero y)
  refine ⟨_, passes.displayTransfer_eq width height width height (by intro scaled; cases scaled)
    (fun scaled => scaled.2 rfl) known known, fun x hx y hy => ?_⟩
  have written := parts.transferPixels_at (wholeTiles image _)
    (regionsForTransfer devices (image.transfer flip linear copy input output) bytes bytes memory)
    hx hy
  have tiles : (image.transfer flip linear copy input output).tiledOutput = linear := by
    cases linear <;> rfl
  have place : (image.transfer flip linear copy input output).dstIndex x y =
      pixelIndex linear image.width.toNat x (image.row flip y) := by
    rw [DisplayTransferConfig.dstIndex, tiles]
    rfl
  rw [place] at written
  refine written.trans ?_
  unfold DisplayTransferConfig.dstPixel
  rw [parts.srcOffset_eq hx hy]
  refine (PixelFormat.encodePixel_decodePixel known).trans (List.map_congr_left fun k _ => ?_)
  simp only [Nat.zero_add, Nat.zero_mul]
  rfl

end

/-- A transfer of an image in tiles to lines, and one of the lines back to tiles. The caches have
nothing newer than the lines. -/
structure RoundTrip (image : Image) (devices : Devices) (flip : Bool) (copy : TextureCopyConfig)
    (source lines target : BitVec 32) (bytes : Nat) (memory : HostMemory) : Prop where
  there : TransferPasses devices (image.transfer flip false copy source lines) memory
    (image.size bytes) (image.size bytes)
  back : ∀ linear,
    displayTransfer devices (image.transfer flip false copy source lines) memory = .ok linear →
      TransferPasses devices (image.transfer flip true copy lines target) linear
        (image.size bytes) (image.size bytes)
  kept : ∀ linear,
    displayTransfer devices (image.transfer flip false copy source lines) memory = .ok linear →
      ∀ k < image.size bytes,
        regionsForTransfer devices (image.transfer flip true copy lines target) bytes bytes linear
            (devices.getPhysicalPointer (decodeAddressRegister lines) + k) =
          linear (devices.getPhysicalPointer (decodeAddressRegister lines) + k)

theorem RoundTrip.displayTransfer_back {source lines target : BitVec 32}
    (known : image.format.bytesPerPixel = .ok bytes)
    (trip : image.RoundTrip devices flip copy source lines target bytes memory) :
    ∃ linear tiled,
      displayTransfer devices (image.transfer flip false copy source lines) memory = .ok linear ∧
      displayTransfer devices (image.transfer flip true copy lines target) linear = .ok tiled ∧
      slice tiled (devices.getPhysicalPointer (decodeAddressRegister target)) (image.size bytes) =
        slice (regionsForTransfer devices (image.transfer flip false copy source lines) bytes bytes
          memory) (devices.getPhysicalPointer (decodeAddressRegister source))
          (image.size bytes) := by
  obtain ⟨linear, there, moved⟩ := displayTransfer_transfer known trip.there
  obtain ⟨tiled, back, returned⟩ := displayTransfer_transfer known (trip.back linear there)
  refine ⟨linear, tiled, there, back, slice_eq_slice.mpr fun k less => ?_⟩
  have positive := DisplayTransferConfig.Apart.bytes_pos known
  -- the byte is one of the pixel in column `x` and row `y` of the tiles
  obtain ⟨x, hx, y, hy, index⟩ := exists_pixelIndex image.columns image.rows
    ((Nat.div_lt_iff_lt_mul positive).mpr less)
  have inPixel := Nat.mod_lt k positive
  have split := Nat.div_add_mod' k bytes
  have below := row_lt flip hy
  have out := slice_eq_slice.mp (moved x hx y hy) _ inPixel
  have home := slice_eq_slice.mp (returned x hx _ below) _ inPixel
  have inLines := pixelIndex_lt (wholeTiles image false) hx below
  have pixels := Nat.mul_le_mul_right bytes (Nat.succ_le_of_lt inLines)
  rw [Nat.succ_mul] at pixels
  rw [Bool.not_true, Nat.add_assoc _ (_ * bytes), Nat.add_assoc _ (_ * bytes),
    trip.kept linear there _ (by unfold size; omega), row_row flip hy, index, split] at home
  rw [Bool.not_false, Nat.add_assoc _ (_ * bytes), Nat.add_assoc _ (_ * bytes), index,
    split] at out
  exact home.trans out

end Image

def floorAverage (colors : List Vec4) : Vec4 :=
  let component (part : Vec4 → UInt8) : UInt8 :=
    ((colors.map fun color => (part color).toNat).sum / colors.length).toUInt8
  ⟨component Vec4.r, component Vec4.g, component Vec4.b, component Vec4.a⟩

theorem floorAverage_two (a b : Vec4) : floorAverage [a, b] = average2 a b := by
  simp only [floorAverage, average2, List.map_cons, List.map_nil, List.sum_cons, List.sum_nil,
    List.length_cons, List.length_nil, Nat.add_zero, Nat.zero_add, Nat.reduceAdd]

theorem floorAverage_four (a b c d : Vec4) : floorAverage [a, b, c, d] = average4 a b c d := by
  simp only [floorAverage, average4, List.map_cons, List.map_nil, List.sum_cons, List.sum_nil,
    List.length_cons, List.length_nil, Nat.add_zero, Nat.zero_add, Nat.reduceAdd, Nat.add_assoc]

namespace DisplayTransferConfig

variable {config : DisplayTransferConfig} {srcBytes dstBytes src : Nat} {memory : HostMemory}

def coveredPixels (config : DisplayTransferConfig) (x y : Nat) : List (Nat × Nat) :=
  if config.scaling = .scaleXY then
    [(2 * x, 2 * y), (2 * x + 1, 2 * y), (2 * x, 2 * y + 1), (2 * x + 1, 2 * y + 1)]
  else [(2 * x, y), (2 * x + 1, y)]

def inputPixel (config : DisplayTransferConfig) (srcBytes src : Nat) (memory : HostMemory)
    (p : Nat × Nat) : Vec4 :=
  config.inputFormat.decodePixel fun k =>
    memory (src + pixelIndex true config.inputWidth.toNat p.1 p.2 * srcBytes + k)

def averagePixel (config : DisplayTransferConfig) (srcBytes src : Nat) (memory : HostMemory)
    (x y : Nat) : List UInt8 :=
  config.outputFormat.encodePixel
    (floorAverage ((config.coveredPixels x y).map (config.inputPixel srcBytes src memory)))

/-- A transfer that scales an image in tiles. The pixels that are read and written are in the two
parts of the memory. -/
structure Scales (config : DisplayTransferConfig) (srcBytes dstBytes inputSize outputSize : Nat) :
    Prop where
  tiles : config.inputLinear = false
  scaling : config.scaling = .scaleX ∨ config.scaling = .scaleXY
  inputWidth : config.inputWidth ≠ 0
  inputHeight : config.inputHeight ≠ 0
  outputWidth : config.outputWidth ≠ 0
  outputHeight : config.outputHeight ≠ 0
  srcFormat : config.inputFormat.bytesPerPixel = .ok srcBytes
  dstFormat : config.outputFormat.bytesPerPixel = .ok dstBytes
  reads : ∀ x < config.scaledWidth, ∀ y < config.scaledHeight, ∀ p ∈ config.coveredPixels x y,
    (pixelIndex true config.inputWidth.toNat p.1 p.2 + 1) * srcBytes ≤ inputSize
  writes : ∀ x < config.scaledWidth, ∀ y < config.scaledHeight,
    (config.dstIndex x y + 1) * dstBytes ≤ outputSize

namespace Scales

variable {inputSize outputSize x y : Nat}

section

variable (h : config.Scales srcBytes dstBytes inputSize outputSize)
include h

theorem index_coveredPixels (x y : Nat) :
    (config.coveredPixels x y).map (fun p => pixelIndex true config.inputWidth.toNat p.1 p.2) =
      (List.range config.blockSize).map (config.srcIndex x y + ·) := by
  have double (n : Nat) : n <<< 1 = 2 * n := by rw [Nat.shiftLeft_eq, Nat.mul_comm]
  unfold coveredPixels blockSize srcIndex horizontalScale verticalScale
  rcases h.scaling with kind | kind
  · have block := pixelIndex_block config.inputWidth.toNat x
    simp [kind, h.tiles, double, (block y).1, List.range_succ]
  · have block := pixelIndex_block config.inputWidth.toNat x
    simp [kind, h.tiles, double, (block (2 * y)).1, block y, List.range_succ]

theorem srcColor_eq (x y : Nat) :
    (config.srcColor srcBytes fun k => memory (src + config.srcIndex x y * srcBytes + k)) =
      floorAverage ((config.coveredPixels x y).map (config.inputPixel srcBytes src memory)) := by
  have pixels : (config.coveredPixels x y).map (config.inputPixel srcBytes src memory) =
      (List.range config.blockSize).map fun n => config.inputFormat.decodePixel fun k =>
        memory (src + config.srcIndex x y * srcBytes + (n * srcBytes + k)) := by
    have indexes := congrArg (List.map fun index => config.inputFormat.decodePixel fun k =>
      memory (src + index * srcBytes + k)) (h.index_coveredPixels x y)
    rw [List.map_map, List.map_map] at indexes
    refine indexes.trans (List.map_congr_left fun n _ => ?_)
    simp only [Function.comp_apply, Nat.add_mul, Nat.add_assoc]
  rw [pixels]
  unfold blockSize srcColor
  rcases h.scaling with kind | kind
  · simp only [kind, List.range_succ, List.range_zero, List.nil_append, List.map_cons,
      List.map_nil, List.cons_append, floorAverage_two]
  · simp only [kind, List.range_succ, List.range_zero, List.nil_append, List.map_cons,
      List.map_nil, List.cons_append, floorAverage_four]

theorem apart {devices : Devices}
    (passes : TransferPasses devices config memory inputSize outputSize) :
    config.Apart srcBytes dstBytes (devices.getPhysicalPointer config.getPhysicalInputAddress)
      (devices.getPhysicalPointer config.getPhysicalOutputAddress) inputSize outputSize where
  srcFormat := h.srcFormat
  dstFormat := h.dstFormat
  reads x hx y hy := by
    have last : config.srcIndex x y + (config.blockSize - 1) ∈
        (config.coveredPixels x y).map
          fun p => pixelIndex true config.inputWidth.toNat p.1 p.2 := by
      rw [h.index_coveredPixels]
      exact List.mem_map_of_mem (List.mem_range.mpr (Nat.sub_lt (Apart.blockSize_pos config)
        Nat.one_pos))
    obtain ⟨p, mem, index⟩ := List.mem_map.mp last
    have inside := h.reads x hx y hy p mem
    rwa [index, Nat.add_assoc, Nat.sub_add_cancel (Apart.blockSize_pos config)] at inside
  writes := h.writes
  input := passes.input
  output := passes.output
  apart := passes.apart

theorem displayTransfer_scaled {devices : Devices}
    (passes : TransferPasses devices config memory inputSize outputSize) :
    ∃ scaled, displayTransfer devices config memory = .ok scaled ∧
      (scaled = config.writePixels dstBytes
          (devices.getPhysicalPointer config.getPhysicalOutputAddress)
          (config.averagePixel srcBytes (devices.getPhysicalPointer config.getPhysicalInputAddress)
            (regionsForTransfer devices config srcBytes dstBytes memory))
          (regionsForTransfer devices config srcBytes dstBytes memory)) ∧
      (WholeTiles config.tiledOutput config.scaledWidth config.scaledHeight →
        ∀ x < config.scaledWidth, ∀ y < config.scaledHeight,
          slice scaled (devices.getPhysicalPointer config.getPhysicalOutputAddress +
              config.dstIndex x y * dstBytes) dstBytes = config.averagePixel srcBytes
              (devices.getPhysicalPointer config.getPhysicalInputAddress)
              (regionsForTransfer devices config srcBytes dstBytes memory) x y) := by
  have parts := h.apart passes
  have pixel (x y : Nat) (hx : x < config.scaledWidth) (hy : y < config.scaledHeight) :
      config.dstPixel srcBytes (devices.getPhysicalPointer config.getPhysicalInputAddress)
          (regionsForTransfer devices config srcBytes dstBytes memory) x y =
        config.averagePixel srcBytes (devices.getPhysicalPointer config.getPhysicalInputAddress)
          (regionsForTransfer devices config srcBytes dstBytes memory) x y := by
    unfold dstPixel averagePixel
    rw [parts.srcOffset_eq hx hy, h.srcColor_eq]
  refine ⟨_, passes.displayTransfer_eq h.inputWidth h.inputHeight h.outputWidth h.outputHeight
    (by rcases h.scaling with kind | kind <;> rw [kind] <;> decide)
    (fun both => Bool.noConfusion (h.tiles.symm.trans both.1)) h.srcFormat h.dstFormat, ?_, ?_⟩
  · rw [parts.transferPixels_eq]
    apply List.foldl_ext
    rintro memory ⟨x, y⟩ mem
    obtain ⟨hx, hy⟩ := mem_outputPixels.mp mem
    rw [pixel x y hx hy]
  · intro whole x hx y hy
    rw [parts.transferPixels_at whole _ hx hy, pixel x y hx hy]

end

end Scales
end DisplayTransferConfig

open DisplayTransferConfig in
/-- A transfer to tiles undoes one to lines, and the pixels of a scaled image are averages. -/
theorem displayTransfer_images (devices : Devices) :
    (∀ (image : Image) (flip : Bool) (copy : TextureCopyConfig) (source lines target : BitVec 32)
        (bytes : Nat) (memory : HostMemory), image.format.bytesPerPixel = .ok bytes →
      image.RoundTrip devices flip copy source lines target bytes memory →
      ∃ linear tiled, displayTransfer devices (image.transfer flip false copy source lines) memory =
          .ok linear ∧
        displayTransfer devices (image.transfer flip true copy lines target) linear = .ok tiled ∧
        slice tiled (devices.getPhysicalPointer (decodeAddressRegister target)) (image.size bytes) =
          slice (regionsForTransfer devices (image.transfer flip false copy source lines) bytes
            bytes memory) (devices.getPhysicalPointer (decodeAddressRegister source))
            (image.size bytes)) ∧
    ∀ (config : DisplayTransferConfig) (srcBytes dstBytes inputSize outputSize : Nat)
        (memory : HostMemory), config.Scales srcBytes dstBytes inputSize outputSize →
      TransferPasses devices config memory inputSize outputSize →
      let src := devices.getPhysicalPointer config.getPhysicalInputAddress
      let dst := devices.getPhysicalPointer config.getPhysicalOutputAddress
      let flushed := regionsForTransfer devices config srcBytes dstBytes memory
      ∃ scaled, displayTransfer devices config memory = .ok scaled ∧
        (scaled =
          config.writePixels dstBytes dst (config.averagePixel srcBytes src flushed) flushed) ∧
        (WholeTiles config.tiledOutput config.scaledWidth config.scaledHeight →
          ∀ x < config.scaledWidth, ∀ y < config.scaledHeight,
            slice scaled (dst + config.dstIndex x y * dstBytes) dstBytes =
              config.averagePixel srcBytes src flushed x y) := by
  constructor
  · intro image flip copy source lines target bytes memory known trip
    exact trip.displayTransfer_back known
  · intro config srcBytes dstBytes inputSize outputSize memory scales passes
    exact scales.displayTransfer_scaled passes

def square : Image where
  width := 8
  height := 8
  format := .rgb565
  columns := rfl
  rows := rfl

def halving : DisplayTransferConfig :=
  { square.transfer true false ⟨0, 0, 0, 0, 0⟩ 0 0x100 with
    inputFormat := .rgba8, scaling := .scaleX }

theorem displayTransfer_images_square : (∃ linear tiled,
      displayTransfer withoutCaches (square.transfer true false ⟨0, 0, 0, 0, 0⟩ 0 0x100)
        Nat.toUInt8 = .ok linear ∧
      displayTransfer withoutCaches (square.transfer true true ⟨0, 0, 0, 0, 0⟩ 0x100 0x200)
        linear = .ok tiled ∧ slice tiled 0x1000 128 = slice Nat.toUInt8 0 128) ∧
    ∃ scaled, displayTransfer withoutCaches halving Nat.toUInt8 = .ok scaled ∧
      slice scaled (0x800 + 58) 2 = halving.averagePixel 4 0 Nat.toUInt8 1 0 := by
  obtain ⟨images, scales⟩ := displayTransfer_images withoutCaches
  constructor
  · refine images square true ⟨0, 0, 0, 0, 0⟩ 0 0x100 0x200 2 Nat.toUInt8 rfl ⟨?_, ?_, ?_⟩
    · exact ⟨rfl, rfl, rfl, by decide, by decide, .inl (by decide)⟩
    · intro linear _
      exact ⟨rfl, rfl, rfl, by decide, by decide, .inl (by decide)⟩
    · intro linear _ k _
      rfl
  · obtain ⟨scaled, runs, -, pixels⟩ := scales halving 4 2 256 128 Nat.toUInt8
      ⟨rfl, .inl rfl, by decide, by decide, by decide, by decide, rfl, rfl, by decide +kernel,
        by decide +kernel⟩ ⟨rfl, rfl, rfl, by decide, by decide, .inl (by decide)⟩
    exact ⟨scaled, runs, pixels (fun tiled => by cases tiled) 1 (by decide) 0 (by decide)⟩

end EmuThreeDS.GPU
