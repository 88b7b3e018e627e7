import EmuThreeDS.Common.Color
import EmuThreeDS.Lib.StepLoop
import EmuThreeDS.Video.SubRects

/-!
# Transfers

`DisplayTransfer` and `TextureCopy` of `gpu.cpp`. The memory of the host is a function from its
addresses; the pointers behind a transfer are not looked at for its length.
-/
namespace EmuThreeDS.GPU

open Blit Color StepLoop VideoCore

inductive PixelFormat where
  | rgba8 | rgb8 | rgb565 | rgb5a1 | rgba4 | other

inductive ScalingMode where
  | noScale | scaleX | scaleXY | other
  deriving DecidableEq

structure TextureCopyConfig where
  size : BitVec 32
  inputWidth : BitVec 16
  inputGap : BitVec 16
  outputWidth : BitVec 16
  outputGap : BitVec 16

structure DisplayTransferConfig where
  inputAddress : BitVec 32
  outputAddress : BitVec 32
  outputWidth : BitVec 16
  outputHeight : BitVec 16
  inputWidth : BitVec 16
  inputHeight : BitVec 16
  flipVertically : Bool
  inputLinear : Bool
  dontSwizzle : Bool
  inputFormat : PixelFormat
  outputFormat : PixelFormat
  scaling : ScalingMode
  textureCopy : TextureCopyConfig

abbrev HostMemory := Nat → UInt8

def decodeAddressRegister (registerValue : BitVec 32) : Nat := (registerValue * 8).toNat

namespace DisplayTransferConfig

def getPhysicalInputAddress (config : DisplayTransferConfig) : Nat :=
  decodeAddressRegister config.inputAddress

def getPhysicalOutputAddress (config : DisplayTransferConfig) : Nat :=
  decodeAddressRegister config.outputAddress

end DisplayTransferConfig

/-- The physical memory, and the rasterizer with its caches. A transfer that it accelerates is done
when it returns. -/
structure Devices where
  isValidPhysicalAddress : Nat → Bool
  getPhysicalPointer : Nat → Nat
  accelerateDisplayTransfer : DisplayTransferConfig → HostMemory → Option HostMemory
  accelerateTextureCopy : DisplayTransferConfig → HostMemory → Option HostMemory
  flushRegion : Nat → Nat → HostMemory → HostMemory
  invalidateRegion : Nat → Nat → HostMemory → HostMemory
  flushAndInvalidateRegion : Nat → Nat → HostMemory → HostMemory

namespace PixelFormat

def bytesPerPixel : PixelFormat → Exec Nat
  | .rgba8 => .ok 4
  | .rgb8 => .ok 3
  | .rgb565 | .rgb5a1 | .rgba4 => .ok 2
  | .other => .error (.assertion .pixelFormat)

def decodePixel (pixel : Nat → UInt8) : PixelFormat → Vec4
  | .rgba8 => decodeRGBA8 pixel
  | .rgb8 => decodeRGB8 pixel
  | .rgb565 => decodeRGB565 pixel
  | .rgb5a1 => decodeRGB5A1 pixel
  | .rgba4 => decodeRGBA4 pixel
  | .other => ⟨0, 0, 0, 0⟩

def encodePixel (color : Vec4) : PixelFormat → List UInt8
  | .rgba8 => encodeRGBA8 color
  | .rgb8 => encodeRGB8 color
  | .rgb565 => encodeRGB565 color
  | .rgb5a1 => encodeRGB5A1 color
  | .rgba4 => encodeRGBA4 color
  | .other => []

end PixelFormat

/-- `(a + b) / 2`, where the sum is one of integers. -/
def average2 (a b : Vec4) : Vec4 :=
  let half (x y : UInt8) : UInt8 := ((x.toNat + y.toNat) / 2).toUInt8
  ⟨half a.r b.r, half a.g b.g, half a.b b.b, half a.a b.a⟩

def average4 (a b c d : Vec4) : Vec4 :=
  let quarter (x y z w : UInt8) : UInt8 :=
    (((x.toNat + y.toNat) + (z.toNat + w.toNat)) / 4).toUInt8
  ⟨quarter a.r b.r c.r d.r, quarter a.g b.g c.g d.g, quarter a.b b.b c.b d.b,
    quarter a.a b.a c.a d.a⟩

def getMortonOffset (x y bytesPerPixel : Nat) : Nat :=
  mul32 (add32 (mortonInterleave x y) (mul32 (x / 8 * 8) 8)) bytesPerPixel

/-- The offset of a pixel of an image in tiles, and of one in lines. -/
def tiledOffset (x y width bytesPerPixel : Nat) : Nat :=
  add32 (getMortonOffset x y bytesPerPixel) (mul32 (y / 8 * 8) (mul32 width bytesPerPixel))

def linearOffset (x y width bytesPerPixel : Nat) : Nat :=
  mul32 (add32 x (mul32 y width)) bytesPerPixel

namespace DisplayTransferConfig

variable (config : DisplayTransferConfig)

def horizontalScale : Nat := if config.scaling ≠ .noScale then 1 else 0

def verticalScale : Nat := if config.scaling = .scaleXY then 1 else 0

def scaledWidth : Nat := config.outputWidth.toNat >>> config.horizontalScale

def scaledHeight : Nat := config.outputHeight.toNat >>> config.verticalScale

def outputRow (y : Nat) : Nat :=
  if config.flipVertically then config.scaledHeight - y - 1 else y

def srcOffset (srcBytesPerPixel x y : Nat) : Nat :=
  let inputX := x <<< config.horizontalScale
  let inputY := y <<< config.verticalScale
  if config.inputLinear then linearOffset inputX inputY config.inputWidth.toNat srcBytesPerPixel
  else tiledOffset inputX inputY config.inputWidth.toNat srcBytesPerPixel

def dstOffset (dstBytesPerPixel x y : Nat) : Nat :=
  -- the output is in tiles where just one of the two flags is set
  if config.inputLinear ≠ config.dontSwizzle then
    tiledOffset x (config.outputRow y) config.scaledWidth dstBytesPerPixel
  else linearOffset x (config.outputRow y) config.scaledWidth dstBytesPerPixel

/-- The pixel, or the average with those behind it in memory. -/
def srcColor (srcBytesPerPixel : Nat) (pixel : Nat → UInt8) : Vec4 :=
  let decoded (n : Nat) : Vec4 :=
    config.inputFormat.decodePixel fun k => pixel (n * srcBytesPerPixel + k)
  match config.scaling with
  | .scaleX => average2 (decoded 0) (decoded 1)
  | .scaleXY => average4 (decoded 0) (decoded 1) (decoded 2) (decoded 3)
  | .noScale | .other => decoded 0

def dstPixel (srcBytesPerPixel srcPointer : Nat) (memory : HostMemory) (x y : Nat) : List UInt8 :=
  config.outputFormat.encodePixel (config.srcColor srcBytesPerPixel fun k =>
    memory (srcPointer + config.srcOffset srcBytesPerPixel x y + k))

def outputPixels : List (Nat × Nat) :=
  (List.range config.scaledHeight).flatMap fun y =>
    (List.range config.scaledWidth).map fun x => (x, y)

def transferPixels (srcBytesPerPixel dstBytesPerPixel srcPointer dstPointer : Nat)
    (memory : HostMemory) : HostMemory :=
  config.outputPixels.foldl (fun memory (x, y) =>
    blit memory (dstPointer + config.dstOffset dstBytesPerPixel x y)
      (config.dstPixel srcBytesPerPixel srcPointer memory x y)) memory

end DisplayTransferConfig

section

variable (devices : Devices) (config : DisplayTransferConfig)

def regionsForTransfer (srcBytesPerPixel dstBytesPerPixel : Nat) (memory : HostMemory) :
    HostMemory :=
  let inputSize := mul32 (mul32 config.inputWidth.toNat config.inputHeight.toNat) srcBytesPerPixel
  let outputSize := mul32 (mul32 config.scaledWidth config.scaledHeight) dstBytesPerPixel
  devices.invalidateRegion config.getPhysicalOutputAddress outputSize
    (devices.flushRegion config.getPhysicalInputAddress inputSize memory)

def displayTransfer (memory : HostMemory) : Exec HostMemory :=
  let srcAddr := config.getPhysicalInputAddress
  let dstAddr := config.getPhysicalOutputAddress
  if devices.isValidPhysicalAddress srcAddr = false then .ok memory
  else if devices.isValidPhysicalAddress dstAddr = false then .ok memory
  else if config.inputWidth = 0 then .ok memory
  else if config.inputHeight = 0 then .ok memory
  else if config.outputWidth = 0 then .ok memory
  else if config.outputHeight = 0 then .ok memory
  else
    match devices.accelerateDisplayTransfer config memory with
    | some memory => .ok memory
    | none =>
      if config.scaling = .other then .ok memory
      else if config.inputLinear ∧ config.scaling ≠ .noScale then .ok memory
      else do
        let srcBytesPerPixel ← config.inputFormat.bytesPerPixel
        let dstBytesPerPixel ← config.outputFormat.bytesPerPixel
        return config.transferPixels srcBytesPerPixel dstBytesPerPixel
          (devices.getPhysicalPointer srcAddr) (devices.getPhysicalPointer dstAddr)
          (regionsForTransfer devices config srcBytesPerPixel dstBytesPerPixel memory)

end

structure CopyState where
  memory : HostMemory
  srcPointer : Nat
  dstPointer : Nat
  remainingInput : Nat
  remainingOutput : Nat
  remainingSize : Nat

def CopyState.turn (inputWidth inputGap outputWidth outputGap : Nat) (s : CopyState) :
    Exec (HostMemory ⊕ CopyState) :=
  if 0 < s.remainingSize then
    let copySize := min (min s.remainingInput s.remainingOutput) s.remainingSize
    let srcPointer := s.srcPointer + copySize
    let dstPointer := s.dstPointer + copySize
    let remainingInput := s.remainingInput - copySize
    let remainingOutput := s.remainingOutput - copySize
    .ok (.inr
      { memory := blit s.memory s.dstPointer (slice s.memory s.srcPointer copySize)
        srcPointer := if remainingInput = 0 then srcPointer + inputGap else srcPointer
        dstPointer := if remainingOutput = 0 then dstPointer + outputGap else dstPointer
        remainingInput := if remainingInput = 0 then inputWidth else remainingInput
        remainingOutput := if remainingOutput = 0 then outputWidth else remainingOutput
        remainingSize := s.remainingSize - copySize })
  else .ok (.inl s.memory)

namespace TextureCopyConfig

variable (copy : TextureCopyConfig)

/-- `AlignDown(size, 16)`. -/
def totalSize : Nat := copy.size.toNat - copy.size.toNat % 16

def inputGapBytes : Nat := copy.inputGap.toNat * 16

def outputGapBytes : Nat := copy.outputGap.toNat * 16

/-- Zero gap means contiguous input or output even if the width is zero. -/
def inputWidthBytes : Nat :=
  if copy.inputGapBytes = 0 then copy.totalSize else copy.inputWidth.toNat * 16

def outputWidthBytes : Nat :=
  if copy.outputGapBytes = 0 then copy.totalSize else copy.outputWidth.toNat * 16

end TextureCopyConfig

section

variable (devices : Devices) (config : DisplayTransferConfig)

def regionsForCopy (memory : HostMemory) : HostMemory :=
  let copy := config.textureCopy
  let size := copy.size.toNat
  let input := mul32 (size / copy.inputWidthBytes) (copy.inputWidthBytes + copy.inputGapBytes)
  let output := mul32 (size / copy.outputWidthBytes) (copy.outputWidthBytes + copy.outputGapBytes)
  let memory := devices.flushRegion config.getPhysicalInputAddress input memory
  if copy.outputGapBytes ≠ 0 then
    devices.flushAndInvalidateRegion config.getPhysicalOutputAddress output memory
  else devices.invalidateRegion config.getPhysicalOutputAddress output memory

def textureCopy (fuel : Nat) (memory : HostMemory) : Exec HostMemory :=
  let srcAddr := config.getPhysicalInputAddress
  let dstAddr := config.getPhysicalOutputAddress
  let copy := config.textureCopy
  if devices.isValidPhysicalAddress srcAddr = false then .ok memory
  else if devices.isValidPhysicalAddress dstAddr = false then .ok memory
  else
    match devices.accelerateTextureCopy config memory with
    | some memory => .ok memory
    | none =>
      if copy.totalSize = 0 then .ok memory
      else if copy.inputWidthBytes = 0 then .ok memory
      else if copy.outputWidthBytes = 0 then .ok memory
      else
        loop .outOfFuel (CopyState.turn copy.inputWidthBytes copy.inputGapBytes
            copy.outputWidthBytes copy.outputGapBytes) fuel
          { memory := regionsForCopy devices config memory
            srcPointer := devices.getPhysicalPointer srcAddr
            dstPointer := devices.getPhysicalPointer dstAddr
            remainingInput := copy.inputWidthBytes
            remainingOutput := copy.outputWidthBytes
            remainingSize := copy.totalSize }

/-- A copy that is made here: the addresses are valid, the rasterizer does not take it over, and
there are no empty lines. -/
structure CopyPasses (memory : HostMemory) : Prop where
  source : devices.isValidPhysicalAddress config.getPhysicalInputAddress = true
  destination : devices.isValidPhysicalAddress config.getPhysicalOutputAddress = true
  notAccelerated : devices.accelerateTextureCopy config memory = none
  size : config.textureCopy.totalSize ≠ 0
  inputWidth : config.textureCopy.inputWidthBytes ≠ 0
  outputWidth : config.textureCopy.outputWidthBytes ≠ 0

end

def lineOffset (width gap k : Nat) : Nat := k / width * (width + gap) + k % width

namespace TextureCopyConfig

variable (copy : TextureCopyConfig)

def inputOffset (k : Nat) : Nat := lineOffset copy.inputWidthBytes copy.inputGapBytes k

def outputOffset (k : Nat) : Nat := lineOffset copy.outputWidthBytes copy.outputGapBytes k

end TextureCopyConfig

section

variable {width gap j k : Nat}

theorem lineOffset_eq (width gap k : Nat) : lineOffset width gap k = k + k / width * gap := by
  unfold lineOffset
  rw [Nat.mul_add]
  have whole := Nat.div_add_mod' k width
  omega

variable (width gap) in
theorem lineOffset_lt (less : j < k) : lineOffset width gap j < lineOffset width gap k := by
  rw [lineOffset_eq, lineOffset_eq]
  exact Nat.add_lt_add_of_lt_of_le less
    (Nat.mul_le_mul_right gap (Nat.div_le_div_right (Nat.le_of_lt less)))

theorem lineOffset_add (within : k % width + j < width) :
    lineOffset width gap (k + j) = lineOffset width gap k + j := by
  have line : (k + j) / width = k / width := by
    conv_lhs => rw [← Nat.div_add_mod k width, Nat.add_assoc, Nat.mul_add_div (by omega)]
    rw [Nat.div_eq_of_lt within, Nat.add_zero]
  rw [lineOffset_eq, lineOffset_eq, line]
  omega

variable (gap) in
theorem lineOffset_next (positive : 0 < width) (ends : k % width + j = width) :
    lineOffset width gap (k + j) = lineOffset width gap k + j + gap ∧ (k + j) % width = 0 := by
  have whole : k + j = width * (k / width + 1) := by
    rw [Nat.mul_add, Nat.mul_one]
    have parts := Nat.div_add_mod k width
    omega
  have line : (k + j) / width = k / width + 1 := by
    rw [whole, Nat.mul_div_cancel_left _ positive]
  refine ⟨?_, by rw [whole, Nat.mul_mod_right]⟩
  rw [lineOffset_eq, lineOffset_eq, line, Nat.add_mul, Nat.one_mul]
  omega

theorem add_mod_of_lt (within : k % width + j < width) : (k + j) % width = k % width + j := by
  rw [Nat.add_mod, Nat.mod_eq_of_lt (show j < width by omega), Nat.mod_eq_of_lt within]

structure Place (width gap base k pointer remaining : Nat) : Prop where
  pointer : pointer = base + lineOffset width gap k
  remaining : remaining = width - k % width

namespace Place

variable {base pointer remaining size : Nat}

theorem start (base : Nat) : Place width gap base 0 base width :=
  ⟨by rw [lineOffset_eq, Nat.zero_div, Nat.zero_mul]; rfl, by rw [Nat.zero_mod, Nat.sub_zero]⟩

theorem pos (positive : 0 < width) (h : Place width gap base k pointer remaining) :
    0 < remaining := by
  have line := Nat.mod_lt k positive
  have left := h.remaining
  omega

theorem offset (h : Place width gap base k pointer remaining) (fits : size ≤ remaining)
    (less : j < size) : base + lineOffset width gap (k + j) = pointer + j := by
  have left := h.remaining
  rw [lineOffset_add (by omega), h.pointer, Nat.add_assoc]

theorem next (positive : 0 < width) (h : Place width gap base k pointer remaining)
    (fits : size ≤ remaining) : Place width gap base (k + size)
      (if remaining - size = 0 then pointer + size + gap else pointer + size)
      (if remaining - size = 0 then width else remaining - size) := by
  have left := h.remaining
  have line := Nat.mod_lt k positive
  by_cases ends : remaining - size = 0
  · obtain ⟨offset, starts⟩ := lineOffset_next gap positive
      (show k % width + size = width by omega)
    rw [if_pos ends, if_pos ends]
    exact ⟨by rw [h.pointer]; omega, by rw [starts, Nat.sub_zero]⟩
  · have within : k % width + size < width := by omega
    rw [if_neg ends, if_neg ends]
    exact ⟨by rw [lineOffset_add within, h.pointer, Nat.add_assoc], by
      rw [add_mod_of_lt within]
      omega⟩

end Place
end

section

variable {inputWidth inputGap outputWidth outputGap src dst total : Nat} {before : HostMemory}

/-- No byte of the source is one of the destination. -/
def LinesApart (inputWidth inputGap outputWidth outputGap src dst total : Nat) : Prop :=
  ∀ j < total, ∀ k < total,
    src + lineOffset inputWidth inputGap j ≠ dst + lineOffset outputWidth outputGap k

structure Moved (inputWidth inputGap outputWidth outputGap src dst : Nat) (before : HostMemory)
    (count : Nat) (memory : HostMemory) : Prop where
  moved : ∀ k < count, memory (dst + lineOffset outputWidth outputGap k) =
    before (src + lineOffset inputWidth inputGap k)
  kept : ∀ a, (∀ k < count, a ≠ dst + lineOffset outputWidth outputGap k) → memory a = before a

structure Copying (inputWidth inputGap outputWidth outputGap src dst total : Nat)
    (before : HostMemory) (count : Nat) (s : CopyState) : Prop where
  input : Place inputWidth inputGap src count s.srcPointer s.remainingInput
  output : Place outputWidth outputGap dst count s.dstPointer s.remainingOutput
  size : count + s.remainingSize = total
  memory : Moved inputWidth inputGap outputWidth outputGap src dst before count s.memory

theorem Copying.turn {count : Nat} {s : CopyState} (inputPositive : 0 < inputWidth)
    (outputPositive : 0 < outputWidth)
    (apart : LinesApart inputWidth inputGap outputWidth outputGap src dst total)
    (h : Copying inputWidth inputGap outputWidth outputGap src dst total before count s)
    (running : 0 < s.remainingSize) :
    ∃ count' t, s.turn inputWidth inputGap outputWidth outputGap = .ok (.inr t) ∧
      Copying inputWidth inputGap outputWidth outputGap src dst total before count' t ∧
      t.remainingSize < s.remainingSize := by
  have total := h.size
  have inputLeft := h.input.pos inputPositive
  have outputLeft := h.output.pos outputPositive
  unfold CopyState.turn
  rw [if_pos running]
  generalize least : min (min s.remainingInput s.remainingOutput) s.remainingSize = size
  have inputFits : size ≤ s.remainingInput := by omega
  have outputFits : size ≤ s.remainingOutput := by omega
  refine ⟨count + size, _, rfl, ⟨h.input.next inputPositive inputFits,
    h.output.next outputPositive outputFits, by dsimp only; omega, ?_, ?_⟩, by dsimp only; omega⟩
  · intro k less
    dsimp only
    rw [blit_slice_of]
    rcases Nat.lt_or_ge k count with early | late
    · have outside : ¬ (s.dstPointer ≤ dst + lineOffset outputWidth outputGap k ∧
          dst + lineOffset outputWidth outputGap k < s.dstPointer + size) := by
        rintro ⟨from', -⟩
        have earlier := lineOffset_lt outputWidth outputGap early
        rw [h.output.pointer] at from'
        omega
      rw [if_neg outside]
      exact h.memory.moved k early
    · obtain ⟨j, rfl⟩ := Nat.exists_eq_add_of_le late
      have within : j < size := by omega
      rw [h.output.offset outputFits within, if_pos ⟨Nat.le_add_right .., by omega⟩,
        Nat.add_sub_cancel_left, ← h.input.offset inputFits within]
      apply h.memory.kept
      intro k' less'
      exact apart _ (by omega) _ (by omega)
  · intro a outside
    dsimp only
    rw [blit_slice_of, if_neg]
    · exact h.memory.kept a fun k less => outside k (by omega)
    · rintro ⟨from', less⟩
      have place := h.output.offset outputFits (show a - s.dstPointer < size by omega)
      exact outside (count + (a - s.dstPointer)) (by omega) (by omega)

variable (before) in
theorem loop_moves {fuel : Nat} (inputPositive : 0 < inputWidth) (outputPositive : 0 < outputWidth)
    (apart : LinesApart inputWidth inputGap outputWidth outputGap src dst total)
    (enough : total < fuel) :
    ∃ after, loop .outOfFuel (CopyState.turn inputWidth inputGap outputWidth outputGap) fuel
        ⟨before, src, dst, inputWidth, outputWidth, total⟩ = .ok after ∧
      Moved inputWidth inputGap outputWidth outputGap src dst before total after := by
  refine loop_returns Fault.outOfFuel CopyState.remainingSize fuel
    (fun s => ∃ count, Copying inputWidth inputGap outputWidth outputGap src dst total before count s)
    _ ?_ ⟨0, Place.start _, Place.start _, Nat.zero_add _, nofun, fun a _ => rfl⟩ enough
  rintro s ⟨count, h⟩
  rcases Nat.eq_zero_or_pos s.remainingSize with done | running
  · left
    have size := h.size
    refine ⟨s.memory, ?_, ?_⟩
    · unfold CopyState.turn
      rw [if_neg (by omega)]
    · rw [← size, done, Nat.add_zero]
      exact h.memory
  · right
    obtain ⟨count', t, run, next, less⟩ := h.turn inputPositive outputPositive apart running
    exact ⟨t, run, ⟨count', next⟩, less⟩

end

/-- The copy ends, every byte is where its line and its place in the line say, and no other byte
changes; `before` is the memory that the caches have been written back to. -/
theorem textureCopy_moves (devices : Devices) (config : DisplayTransferConfig)
    (memory : HostMemory) (fuel : Nat) (passes : CopyPasses devices config memory)
    (apart : ∀ j < config.textureCopy.totalSize, ∀ k < config.textureCopy.totalSize,
      devices.getPhysicalPointer config.getPhysicalInputAddress + config.textureCopy.inputOffset j ≠
        devices.getPhysicalPointer config.getPhysicalOutputAddress +
          config.textureCopy.outputOffset k) (enough : config.textureCopy.totalSize < fuel) :
    let before := regionsForCopy devices config memory
    let src := devices.getPhysicalPointer config.getPhysicalInputAddress
    let dst := devices.getPhysicalPointer config.getPhysicalOutputAddress
    let copy := config.textureCopy
    ∃ after, textureCopy devices config fuel memory = .ok after ∧
      (∀ k < copy.totalSize,
        after (dst + copy.outputOffset k) = before (src + copy.inputOffset k)) ∧
      ∀ a, (∀ k < copy.totalSize, a ≠ dst + copy.outputOffset k) → after a = before a := by
  intro before src dst copy
  obtain ⟨after, run, moved⟩ := loop_moves before (Nat.pos_of_ne_zero passes.inputWidth)
    (Nat.pos_of_ne_zero passes.outputWidth) apart enough
  refine ⟨after, ?_, moved.moved, moved.kept⟩
  unfold textureCopy
  dsimp only
  rw [passes.source, passes.destination, passes.notAccelerated]
  rw [if_neg passes.size, if_neg passes.inputWidth, if_neg passes.outputWidth]
  exact run

def withoutCaches : Devices where
  isValidPhysicalAddress _ := true
  getPhysicalPointer addr := addr
  accelerateDisplayTransfer _ _ := none
  accelerateTextureCopy _ _ := none
  flushRegion _ _ memory := memory
  invalidateRegion _ _ memory := memory
  flushAndInvalidateRegion _ _ memory := memory

/-- Lines of 16 bytes with gaps as long become lines of 32 bytes without gaps. -/
def closingGaps : DisplayTransferConfig where
  inputAddress := 0
  outputAddress := 0x200
  outputWidth := 0
  outputHeight := 0
  inputWidth := 0
  inputHeight := 0
  flipVertically := false
  inputLinear := false
  dontSwizzle := false
  inputFormat := .rgba8
  outputFormat := .rgba8
  scaling := .noScale
  textureCopy := ⟨38, 1, 1, 2, 0⟩

theorem textureCopy_moves_closingGaps : let copy := closingGaps.textureCopy
    ∃ after, textureCopy withoutCaches closingGaps 33 (fun a => a.toUInt8) = .ok after ∧
      (∀ k < 32, after (0x1000 + copy.outputOffset k) = (0 + copy.inputOffset k).toUInt8) ∧
      ∀ a, (∀ k < 32, a ≠ 0x1000 + copy.outputOffset k) → after a = a.toUInt8 :=
  textureCopy_moves withoutCaches closingGaps (fun a => a.toUInt8) 33
    ⟨rfl, rfl, rfl, by decide, by decide, by decide⟩ (by decide +kernel) (by decide)

end EmuThreeDS.GPU
