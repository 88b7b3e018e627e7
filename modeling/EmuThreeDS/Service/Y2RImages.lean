import EmuThreeDS.Service.Y2RBounds
import EmuThreeDS.Video.MortonTiles

/-!
# Converted images

What a conversion is for: every pixel of a strip is converted from its own samples, and is sent to
its place in the turned strip.
-/
namespace EmuThreeDS.Y2R

open VideoCore

/-- A sample of `n` bytes of which the first is used, in units with gaps behind them. -/
def ConversionBuffer.streamSample (getPointer : Nat → Nat) (n : Nat) (memory : HostMemory)
    (buf : ConversionBuffer) (k : Nat) : UInt8 :=
  memory (sampleAddress 1 (getPointer buf.address) buf.transferUnit (buf.transferUnit + buf.gap)
    (k * n))

section

variable (getPointer : Nat → Nat) (cvt : ConversionConfiguration) (memory : HostMemory)

/-- The samples of a pixel of a strip: two pixels of a line share theirs of colour, and so do two
lines with 4:2:0 subsampling. -/
def pixelSamples (x y : Nat) : UInt8 × UInt8 × UInt8 :=
  match cvt.inputFormat with
  | .yuv422Indiv8 => planes 1 (y * (cvt.inputLineWidth / 2) + x / 2)
  | .yuv420Indiv8 => planes 1 (y / 2 * (cvt.inputLineWidth / 2) + x / 2)
  | .yuv422Indiv16 => planes 2 (y * (cvt.inputLineWidth / 2) + x / 2)
  | .yuv420Indiv16 => planes 2 (y / 2 * (cvt.inputLineWidth / 2) + x / 2)
  | .yuyv422Interleaved =>
    let group := y * (cvt.inputLineWidth / 2) + x / 2
    (cvt.srcYUYV.streamSample getPointer 1 memory (4 * group + 2 * (x % 2)),
      cvt.srcYUYV.streamSample getPointer 1 memory (4 * group + 1),
      cvt.srcYUYV.streamSample getPointer 1 memory (4 * group + 3))
  | .other => (0, 0, 0)
where
  planes (n chroma : Nat) : UInt8 × UInt8 × UInt8 :=
    (cvt.srcY.streamSample getPointer n memory (y * cvt.inputLineWidth + x),
      cvt.srcU.streamSample getPointer n memory chroma,
      cvt.srcV.streamSample getPointer n memory chroma)

def convertedPixel (p : Nat × Nat) : List UInt8 :=
  encodePixel cvt.outputFormat (yuvToRGB cvt.coefficients
    (pixelSamples getPointer cvt memory p.1 p.2) cvt.alpha.toUInt8)

end

def turnedSize (rotation : Rotation) (width height : Nat) : Nat × Nat :=
  match rotation with
  | .none | .clockwise180 | .other => (width, height)
  | .clockwise90 | .clockwise270 => (height, width)

def turnedPixel (rotation : Rotation) (width height : Nat) (x y : Nat) : Nat × Nat :=
  match rotation with
  | .none | .other => (x, y)
  | .clockwise90 => (y, height - 1 - x)
  | .clockwise180 => (width - 1 - x, height - 1 - y)
  | .clockwise270 => (width - 1 - y, x)

/-- Where a pixel of a turned strip is in its stream: in rows, or in Morton order. -/
def streamIndex (cvt : ConversionConfiguration) (height x y : Nat) : Nat :=
  pixelIndex (cvt.blockAlignment == .block8x8)
    (turnedSize cvt.rotation cvt.inputLineWidth height).1 x y

def ConversionConfiguration.behind (cvt : ConversionConfiguration) (rowDataSize : Nat) :
    ConversionConfiguration :=
  { cvt.received rowDataSize with
    dst := ConversionBuffer.next^[rowDataSize * pixelBytes cvt.outputFormat / cvt.dst.transferUnit]
      cvt.dst }

/-- A strip that is sent as expected: every byte of its pixels is in its place behind the pointer,
with the gaps between the units left as they are. -/
structure StripConverted (getPointer : Nat → Nat) (height : Nat)
    (before after : HostMemory × ConversionConfiguration) : Prop where
  pixels : ∀ x < (turnedSize before.2.rotation before.2.inputLineWidth height).1,
    ∀ y < (turnedSize before.2.rotation before.2.inputLineWidth height).2,
    ∀ i < pixelBytes before.2.outputFormat,
      (convertedPixel getPointer before.2 before.1
        (turnedPixel before.2.rotation before.2.inputLineWidth height x y))[i]? =
      some (after.1 (sampleAddress 1 (getPointer before.2.dst.address) before.2.dst.transferUnit
        (before.2.dst.transferUnit + before.2.dst.gap)
        (streamIndex before.2 height x y * pixelBytes before.2.outputFormat + i)))
  gaps : ∀ a, (∀ j < height * before.2.inputLineWidth * pixelBytes before.2.outputFormat,
      a ≠ sampleAddress 1 (getPointer before.2.dst.address) before.2.dst.transferUnit
        (before.2.dst.transferUnit + before.2.dst.gap) j) → after.1 a = before.1 a
  settings : after.2 = before.2.behind (height * before.2.inputLineWidth)

def ImageConverted (getPointer : Nat → Nat) (s : Conversion) (after : HostMemory) : Prop :=
  ∃ states : Nat → HostMemory × ConversionConfiguration, states 0 = (s.memory, s.cvt) ∧
    (states ((s.cvt.inputLines + 7) / 8)).1 = after ∧
    ∀ i < (s.cvt.inputLines + 7) / 8,
      StripConverted getPointer (s.cvt.rowHeight (8 * i)) (states i) (states (i + 1))

/-- What is moved in units: some samples of a plane, or pixels, of so many bytes. -/
structure Transfer where
  buf : ConversionBuffer
  bytes : Nat
  count : Nat

def ConversionConfiguration.transfers (cvt : ConversionConfiguration) (rowDataSize : Nat) :
    List Transfer :=
  ⟨cvt.dst, pixelBytes cvt.outputFormat, rowDataSize⟩ ::
    match cvt.inputFormat with
    | .yuv422Indiv8 => planes 1 2
    | .yuv420Indiv8 => planes 1 4
    | .yuv422Indiv16 => planes 2 2
    | .yuv420Indiv16 => planes 2 4
    | .yuyv422Interleaved => [⟨cvt.srcYUYV, 1, rowDataSize * 2⟩]
    | .other => []
where
  planes (n share : Nat) : List Transfer :=
    [⟨cvt.srcY, n, rowDataSize⟩, ⟨cvt.srcU, n, rowDataSize / share⟩,
      ⟨cvt.srcV, n, rowDataSize / share⟩]

/-- Settings of an image: blocks and shared samples have all of their lines, and the units divide
the data of every strip. -/
structure Configured (cvt : ConversionConfiguration) : Prop where
  width : cvt.inputLineWidth % 8 = 0
  widthBound : cvt.inputLineWidth ≤ 1024
  lines : cvt.inputLines < 1024
  inputFormat : cvt.inputFormat ≠ .other
  outputFormat : cvt.outputFormat ≠ .other
  rotation : cvt.rotation ≠ .other
  blockAlignment : cvt.blockAlignment ≠ .other
  blocks : cvt.blockAlignment = .block8x8 → cvt.inputLines % 8 = 0
  sharedLines : cvt.inputFormat = .yuv420Indiv8 ∨ cvt.inputFormat = .yuv420Indiv16 →
    cvt.inputLines % 2 = 0
  units : ∀ y ∈ stripStarts cvt.inputLines,
    ∀ transfer ∈ cvt.transfers (cvt.rowHeight y * cvt.inputLineWidth),
      0 < transfer.buf.transferUnit ∧
        transfer.count * transfer.bytes % transfer.buf.transferUnit = 0

/-- Their units hold whole samples and pixels. -/
structure Documented (cvt : ConversionConfiguration) : Prop extends Configured cvt where
  whole : ∀ y ∈ stripStarts cvt.inputLines,
    ∀ transfer ∈ cvt.transfers (cvt.rowHeight y * cvt.inputLineWidth),
      transfer.buf.transferUnit % transfer.bytes = 0

theorem clampColor_lt (value : Int) : clampColor value < 256 := by
  unfold clampColor
  omega

theorem pack_eq {r g b : Nat} (hg : g < 256) (hb : b < 256) :
    (r <<< 24) ||| (g <<< 16) ||| (b <<< 8) = r * 0x1000000 + g * 0x10000 + b * 0x100 := by
  have low : (g <<< 16) ||| (b <<< 8) = g * 0x10000 + b * 0x100 := by
    rw [← Nat.shiftLeft_add_eq_or_of_lt (by omega), Nat.shiftLeft_eq,
      Nat.shiftLeft_eq]
  rw [Nat.or_assoc, low, ← Nat.shiftLeft_add_eq_or_of_lt (by omega), Nat.shiftLeft_eq,
    Nat.add_assoc]

theorem colorVec_convertYUV (coefficients : CoefficientSet) (samples : UInt8 × UInt8 × UInt8)
    (alpha : UInt8) :
    colorVec (leValue (storeU32 (convertYUV coefficients samples.1 samples.2.1 samples.2.2))) alpha =
      yuvToRGB coefficients samples alpha := by
  have bytes (r g b : Nat) (hr : r < 256) (hg : g < 256) (hb : b < 256) :
      colorVec (leValue (storeU32 ((r <<< 24) ||| (g <<< 16) ||| (b <<< 8)))) alpha =
        ⟨r.toUInt8, g.toUInt8, b.toUInt8, alpha⟩ := by
    have value (n m : Nat) (same : n % 256 = m) (less : m < 256) : n.toUInt8 = m.toUInt8 := by
      apply UInt8.toNat_inj.mp
      rw [UInt8.toNat_ofNat', UInt8.toNat_ofNat']
      omega
    unfold colorVec storeU32
    rw [leValue_leBytes, pack_eq hg hb]
    congr 1
    · exact value _ r (by omega) hr
    · exact value _ g (by omega) hg
    · exact value _ b (by omega) hb
  exact bytes _ _ _ (clampColor_lt _) (clampColor_lt _) (clampColor_lt _)

section

variable {getPointer : Nat → Nat} {n share rowDataSize width height x y : Nat} {s t : Conversion}

theorem sample_eq (getPointer : Nat → Nat) {buf : ConversionBuffer} (memory : HostMemory)
    (some_samples : buf.transferUnit / n ≠ 0) (whole : buf.transferUnit % n = 0) (k : Nat) :
    buf.sample getPointer n memory k = buf.streamSample getPointer n memory k := by
  obtain ⟨samples, unit⟩ := Nat.dvd_of_mod_eq_zero whole
  have positive : 0 < n := Nat.pos_of_ne_zero fun none => by
    rw [none, Nat.div_zero] at some_samples
    exact some_samples rfl
  have count : buf.transferUnit / n = samples := by
    rw [unit, Nat.mul_div_cancel_left samples positive]
  unfold ConversionBuffer.sample ConversionBuffer.streamSample sampleAddress
  rw [count, Nat.mul_one, unit, Nat.mul_comm k n, Nat.mul_div_mul_left _ _ positive,
    Nat.mul_mod_mul_left, Nat.mul_comm n (k % samples)]

/-- Lines of an even width have whole pairs. -/
theorem half_line (even : width % 2 = 0) (x y : Nat) :
    (y * width + x) / 2 = y * (width / 2) + x / 2 := by
  obtain ⟨half, rfl⟩ := Nat.dvd_of_mod_eq_zero even
  rw [Nat.mul_left_comm, Nat.mul_add_div (by decide), Nat.mul_div_cancel_left half (by decide)]

theorem divides_of_whole {buf : ConversionBuffer} {count : Nat} (positive : 0 < n)
    (some_bytes : 0 < buf.transferUnit) (units : count * n % buf.transferUnit = 0)
    (whole : buf.transferUnit % n = 0) : buf.Divides n count := by
  obtain ⟨samples, unit⟩ := Nat.dvd_of_mod_eq_zero whole
  unfold ConversionBuffer.Divides
  rw [unit, Nat.mul_comm n] at units
  rw [unit] at some_bytes
  rw [unit, Nat.mul_div_cancel_left samples positive]
  exact ⟨Nat.ne_of_gt (Nat.pos_of_mul_pos_left some_bytes), Nat.mod_eq_zero_of_dvd
    (Nat.dvd_of_mul_dvd_mul_right positive (Nat.dvd_of_mod_eq_zero units))⟩

namespace Documented

variable {cvt : ConversionConfiguration}

section

variable (documented : Documented cvt) (mem : y ∈ stripStarts cvt.inputLines)
include documented mem

theorem receives : cvt.Receives (cvt.rowHeight y * cvt.inputLineWidth) := by
  have units := documented.units y mem
  have whole := documented.whole y mem
  unfold ConversionConfiguration.transfers ConversionConfiguration.transfers.planes at units whole
  unfold ConversionConfiguration.Receives
  cases format : cvt.inputFormat <;> rw [format] at units whole <;>
    simp only [List.forall_mem_cons] at units whole
  case other => trivial
  case yuyv422Interleaved =>
    exact divides_of_whole (by decide) units.2.1.1 units.2.1.2 whole.2.1
  all_goals
    obtain ⟨-, ⟨someY, unitsY⟩, ⟨someU, unitsU⟩, ⟨someV, unitsV⟩, -⟩ := units
    obtain ⟨-, wholeY, wholeU, wholeV, -⟩ := whole
    exact ⟨divides_of_whole (by decide) someY unitsY wholeY,
      divides_of_whole (by decide) someU unitsU wholeU,
      divides_of_whole (by decide) someV unitsV wholeV⟩

theorem wholeSamples (words : cvt.inputFormat = .yuv422Indiv16 ∨ cvt.inputFormat = .yuv420Indiv16) :
    cvt.srcY.transferUnit % 2 = 0 ∧ cvt.srcU.transferUnit % 2 = 0 ∧
      cvt.srcV.transferUnit % 2 = 0 := by
  have whole := documented.whole y mem
  unfold ConversionConfiguration.transfers ConversionConfiguration.transfers.planes at whole
  rcases words with format | format <;> rw [format] at whole <;>
    simp only [List.forall_mem_cons] at whole <;>
    exact ⟨whole.2.1, whole.2.2.1, whole.2.2.2.1⟩

theorem wholePixels :
    0 < cvt.dst.transferUnit ∧ cvt.dst.transferUnit % pixelBytes cvt.outputFormat = 0 ∧
      cvt.rowHeight y * cvt.inputLineWidth * pixelBytes cvt.outputFormat %
        cvt.dst.transferUnit = 0 := by
  obtain ⟨some_bytes, units⟩ := documented.units y mem _ List.mem_cons_self
  exact ⟨some_bytes, documented.whole y mem _ List.mem_cons_self, units⟩

end

end Documented

theorem planes_samples (read : PlanesRead getPointer n share rowDataSize s t)
    (planes : ConversionConfiguration.Receives.planes s.cvt rowDataSize n share)
    (wholeY : s.cvt.srcY.transferUnit % n = 0) (wholeU : s.cvt.srcU.transferUnit % n = 0)
    (wholeV : s.cvt.srcV.transferUnit % n = 0) {luma chroma : Nat} (hl : luma < rowDataSize)
    (hc : chroma < rowDataSize / share) : (t.data luma, t.data (8 * s.cvt.inputLineWidth + chroma),
      t.data (8 * s.cvt.inputLineWidth + 8 * s.cvt.inputLineWidth / 2 + chroma)) =
    (s.cvt.srcY.streamSample getPointer n s.memory luma,
      s.cvt.srcU.streamSample getPointer n s.memory chroma,
      s.cvt.srcV.streamSample getPointer n s.memory chroma) := by
  rw [read.y luma hl, read.u chroma hc, read.v chroma hc,
    sample_eq getPointer s.memory planes.1.1 wholeY,
    sample_eq getPointer s.memory planes.2.1.1 wholeU,
    sample_eq getPointer s.memory planes.2.2.1 wholeV]

theorem receivePlanes_samples {fuel : Nat} (chromaRow : Nat → Nat)
    (planes : ConversionConfiguration.Receives.planes s.cvt (height * s.cvt.inputLineWidth) n share)
    (whole : s.cvt.srcY.transferUnit % n = 0 ∧ s.cvt.srcU.transferUnit % n = 0 ∧
      s.cvt.srcV.transferUnit % n = 0) (even : s.cvt.inputLineWidth % 2 = 0)
    (lines : height ≤ 8) (shared : 2 ≤ share) (inside : ∀ x < s.cvt.inputLineWidth, ∀ row < height,
      chromaRow row * (s.cvt.inputLineWidth / 2) + x / 2 < height * s.cvt.inputLineWidth / share)
    (enough : height * s.cvt.inputLineWidth < fuel) :
    Returns (receivePlanes getPointer fuel n share (height * s.cvt.inputLineWidth) s) fun t =>
      (Receiving s t ∧ t.cvt = ConversionConfiguration.received.planes s.cvt
        (height * s.cvt.inputLineWidth) n share) ∧ ∀ x < s.cvt.inputLineWidth, ∀ row < height,
        (t.data (row * s.cvt.inputLineWidth + x),
          t.data (8 * s.cvt.inputLineWidth + (chromaRow row * s.cvt.inputLineWidth + x) / 2),
          t.data (8 * s.cvt.inputLineWidth + 8 * s.cvt.inputLineWidth / 2 +
            (chromaRow row * s.cvt.inputLineWidth + x) / 2)) =
          pixelSamples.planes getPointer s.cvt s.memory x row n
            (chromaRow row * (s.cvt.inputLineWidth / 2) + x / 2) := by
  refine (receivePlanes_returns planes (Nat.mul_le_mul_right _ lines) shared enough).mono
    fun t read => ⟨⟨read.receiving, read.settings⟩, fun x hx row hrow => ?_⟩
  have line := Nat.mul_le_mul_right s.cvt.inputLineWidth (show row + 1 ≤ height from hrow)
  rw [Nat.succ_mul] at line
  rw [half_line even]
  exact planes_samples read planes whole.1 whole.2.1 whole.2.2 (by omega) (inside x hx row hrow)

theorem chroma_inside (even : width % 2 = 0) (hx : x < width) (hy : y < height) :
    y * (width / 2) + x / 2 < height * width / 2 ∧
      (height % 2 = 0 → y / 2 * (width / 2) + x / 2 < height * width / 4) := by
  obtain ⟨half, rfl⟩ := Nat.dvd_of_mod_eq_zero even
  rw [Nat.mul_div_cancel_left half (by decide)]
  constructor
  · have line := Nat.mul_le_mul_right half (show y + 1 ≤ height from hy)
    rw [Nat.succ_mul] at line
    rw [Nat.mul_left_comm]
    omega
  · intro whole
    obtain ⟨pairs, rfl⟩ := Nat.dvd_of_mod_eq_zero whole
    have line := Nat.mul_le_mul_right half (show y / 2 + 1 ≤ pairs by omega)
    rw [Nat.succ_mul] at line
    rw [show 2 * pairs * (2 * half) = 4 * (pairs * half) by ring]
    omega

theorem receiveStrip_samples {fuel : Nat} (documented : Documented s.cvt)
    (mem : y ∈ stripStarts s.cvt.inputLines)
    (enough : s.cvt.rowHeight y * s.cvt.inputLineWidth * 2 < fuel) :
    Returns (receiveStrip getPointer fuel (s.cvt.rowHeight y * s.cvt.inputLineWidth) s) fun t =>
      (Receiving s t ∧ t.cvt = s.cvt.received (s.cvt.rowHeight y * s.cvt.inputLineWidth)) ∧
        ∀ x < s.cvt.inputLineWidth, ∀ row < s.cvt.rowHeight y,
        bufferSamples s.cvt.inputFormat t.data s.cvt.inputLineWidth x row =
          pixelSamples getPointer s.cvt s.memory x row := by
  have even : s.cvt.inputLineWidth % 2 = 0 := by
    have columns := documented.width
    omega
  have lines : s.cvt.rowHeight y ≤ 8 := Nat.min_le_right _ _
  have pairs (shares : s.cvt.inputFormat = .yuv420Indiv8 ∨ s.cvt.inputFormat = .yuv420Indiv16) :
      s.cvt.rowHeight y % 2 = 0 := by
    obtain ⟨i, -, rfl⟩ := List.mem_map.mp mem
    have whole := documented.sharedLines shares
    unfold ConversionConfiguration.rowHeight
    omega
  have receives := documented.receives mem
  have words := documented.wholeSamples mem
  cases format : s.cvt.inputFormat with
  | yuv422Indiv8 =>
    unfold ConversionConfiguration.Receives at receives
    unfold receiveStrip pixelSamples ConversionConfiguration.received
    rw [format] at receives ⊢
    exact receivePlanes_samples id receives ⟨Nat.mod_one _, Nat.mod_one _, Nat.mod_one _⟩ even lines
      (by decide) (fun x hx row hrow => (chroma_inside even hx hrow).1) (by omega)
  | yuv420Indiv8 =>
    unfold ConversionConfiguration.Receives at receives
    unfold receiveStrip pixelSamples ConversionConfiguration.received
    rw [format] at receives ⊢
    exact receivePlanes_samples (· / 2) receives ⟨Nat.mod_one _, Nat.mod_one _, Nat.mod_one _⟩ even
      lines (by decide) (fun x hx row hrow => (chroma_inside even hx hrow).2 (pairs (.inl format)))
      (by omega)
  | yuv422Indiv16 =>
    unfold ConversionConfiguration.Receives at receives
    unfold receiveStrip pixelSamples ConversionConfiguration.received
    have whole := words (.inl format)
    rw [format] at receives ⊢
    exact receivePlanes_samples id receives whole even lines
      (by decide) (fun x hx row hrow => (chroma_inside even hx hrow).1) (by omega)
  | yuv420Indiv16 =>
    unfold ConversionConfiguration.Receives at receives
    unfold receiveStrip pixelSamples ConversionConfiguration.received
    have whole := words (.inr format)
    rw [format] at receives ⊢
    exact receivePlanes_samples (· / 2) receives whole even
      lines (by decide) (fun x hx row hrow => (chroma_inside even hx hrow).2 (pairs (.inr format)))
      (by omega)
  | yuyv422Interleaved =>
    unfold ConversionConfiguration.Receives at receives
    unfold bufferSamples pixelSamples
    rw [format] at receives
    refine (receiveInterleaved_returns format receives (Nat.mul_le_mul_right _ lines) enough).mono
      fun t read => ⟨⟨read.receiving, read.settings⟩, fun x hx row hrow => ?_⟩
    have line := Nat.mul_le_mul_right s.cvt.inputLineWidth
      (show row + 1 ≤ s.cvt.rowHeight y from hrow)
    have pair : row * s.cvt.inputLineWidth = 2 * (row * (s.cvt.inputLineWidth / 2)) := by
      rw [Nat.mul_left_comm, Nat.two_mul, ← Nat.two_mul, Nat.mul_div_cancel'
        (Nat.dvd_of_mod_eq_zero even)]
    rw [Nat.succ_mul] at line
    have byte (k : Nat) (less : k < s.cvt.rowHeight y * s.cvt.inputLineWidth * 2) :
        t.data k = s.cvt.srcYUYV.streamSample getPointer 1 s.memory k := by
      rw [read.read k less, sample_eq getPointer s.memory receives.1 (Nat.mod_one _)]
    dsimp only
    rw [byte _ (by omega), byte _ (by omega), byte _ (by omega),
      show (row * s.cvt.inputLineWidth + x) * 2 =
        4 * (row * (s.cvt.inputLineWidth / 2) + x / 2) + 2 * (x % 2) by omega,
      show (row * s.cvt.inputLineWidth + x / 2 * 2) * 2 =
        4 * (row * (s.cvt.inputLineWidth / 2) + x / 2) by omega, format]
  | other => exact absurd format documented.inputFormat

end

section

variable {cvt : ConversionConfiguration} {rotation : Rotation} {numTiles height size x y : Nat}
  {outMap : List Nat}

/-- The tile of a pixel of a turned strip, and where the rotation writes it. -/
def turnedPlace (rotation : Rotation) (height x y : Nat) : Nat × Nat :=
  match rotation with
  | .none | .clockwise180 | .other => (x / 8, y * 8 + x % 8)
  | .clockwise90 | .clockwise270 => (y / 8, y % 8 * height + x)

section

variable (hx : x < (turnedSize rotation (numTiles * 8) height).1)
  (hy : y < (turnedSize rotation (numTiles * 8) height).2)
include hx hy

theorem turnedPlace_lt : (turnedPlace rotation height x y).1 < numTiles ∧
      (turnedPlace rotation height x y).2 < 8 * height := by
  have turned (inLine : x < height) : y % 8 * height + x < 8 * height := by
    have line := Nat.mul_le_mul_right height (show y % 8 + 1 ≤ 8 by omega)
    rw [Nat.succ_mul] at line
    omega
  unfold turnedSize at hx hy
  unfold turnedPlace
  cases rotation <;> dsimp only at hx hy ⊢
  all_goals omega

theorem turnedSource_turnedPlace :
    sourceTile rotation numTiles (turnedPlace rotation height x y).1 * tileSize +
        turnedSource rotation height (turnedPlace rotation height x y).2 =
      (turnedPixel rotation (numTiles * 8) height x y).1 / 8 * tileSize +
        ((turnedPixel rotation (numTiles * 8) height x y).2 * 8 +
          (turnedPixel rotation (numTiles * 8) height x y).1 % 8) := by
  have row (inLine : x < height) : (y % 8 * height + x) / height = y % 8 := by
    rw [Nat.mul_comm, Nat.mul_add_div (by omega), Nat.div_eq_of_lt inLine, Nat.add_zero]
  have column (inLine : x < height) : (y % 8 * height + x) % height = x := by
    rw [Nat.mul_comm, Nat.mul_add_mod, Nat.mod_eq_of_lt inLine]
  unfold turnedSize at hx hy
  unfold sourceTile turnedSource turnedPixel turnedPlace tileSize
  cases rotation <;> dsimp only at hx hy ⊢
  case clockwise90 => rw [row hx, column hx]
  all_goals omega

theorem turnedPixel_lt : (turnedPixel rotation (numTiles * 8) height x y).1 < numTiles * 8 ∧
      (turnedPixel rotation (numTiles * 8) height x y).2 < height := by
  unfold turnedSize at hx hy
  unfold turnedPixel
  cases rotation <;> dsimp only at hx hy ⊢ <;> omega

end

theorem mortonLut_eq : ∀ m < 64, mortonLut.getD m 0 = mortonInterleave (m % 8) (m / 8) := by
  decide

section

variable (strip : Strip cvt numTiles height size) (known : cvt.rotation ≠ .other)
  (remap : tileRemap cvt.blockAlignment = some outMap)
include strip known remap

theorem outputIndex_turnedPlace (hx : x < (turnedSize cvt.rotation (numTiles * 8) height).1)
    (hy : y < (turnedSize cvt.rotation (numTiles * 8) height).2) :
    outputIndex (writtenLayout cvt height).2.1 (writtenLayout cvt height).2.2
        (turnedPlace cvt.rotation height x y).1
        (outMap.getD (turnedPlace cvt.rotation height x y).2 0) = streamIndex cvt height x y := by
  have inTile := (turnedPlace_lt hx hy).2
  have lines := strip.lines
  have linear : ∀ k < 64, linearLut.getD k 0 = k := by decide
  have beside : y / 8 * (8 * height) + (y % 8 * height + x) = y * height + x := by
    rw [← Nat.add_assoc, ← Nat.mul_assoc, ← Nat.add_mul, Nat.div_add_mod']
  unfold outputIndex streamIndex writtenLayout strides pixelIndex
  cases alignment : cvt.blockAlignment with
  | linear =>
    rw [alignment] at remap
    cases remap
    rw [linear _ (by omega)]
    unfold turnedSize at hx hy ⊢
    unfold turnedPlace at inTile ⊢
    cases rotation : cvt.rotation <;> rw [rotation] at hx hy inTile known <;>
      dsimp only at hx hy inTile ⊢
    all_goals rw [if_neg (by decide)]
    case other => exact absurd rfl known
    case clockwise90 => rw [Nat.div_add_mod', beside]
    case clockwise270 => rw [Nat.div_add_mod', beside]
    all_goals
      rw [show (y * 8 + x % 8) / 8 = y by omega]
      omega
  | block8x8 =>
    rw [alignment] at remap
    cases remap
    obtain rfl := strip.block alignment
    have same (a b : Nat) (column : a % 8 = x % 8) (row : b % 8 = y % 8) :
        mortonInterleave a b = mortonInterleave x y := by
      unfold mortonInterleave
      rw [column, row]
    rw [mortonLut_eq _ (by omega)]
    unfold turnedSize at hx hy ⊢
    unfold turnedPlace at inTile ⊢
    cases rotation : cvt.rotation <;> rw [rotation] at hx hy inTile known <;>
      dsimp only at hx hy inTile ⊢
    all_goals rw [if_pos (by decide), Nat.div_add_mod']
    all_goals
      rw [same _ _ (by omega) (by omega)]
      unfold tileSize
    case clockwise90 => omega
    case clockwise270 => omega
    all_goals rw [Nat.div_eq_of_lt hy, Nat.zero_mul, Nat.zero_add]
  | other =>
    rw [alignment] at remap
    cases remap

theorem streamIndex_lt (hx : x < (turnedSize cvt.rotation cvt.inputLineWidth height).1)
    (hy : y < (turnedSize cvt.rotation cvt.inputLineWidth height).2) :
    streamIndex cvt height x y < height * cvt.inputLineWidth := by
  rw [strip.width] at hx hy ⊢
  obtain ⟨tile, inTile⟩ := turnedPlace_lt hx hy
  rw [← outputIndex_turnedPlace strip known remap hx hy]
  have inside := (strip.layout known).index_lt tile (strip.remap_lt remap inTile)
  have pixels : numTiles * (8 * height) = height * (numTiles * 8) := by ring
  rwa [pixels] at inside

end

end

section

variable {getPointer : Nat → Nat} {fuel numTiles height y : Nat} {s : Conversion}
  {cvt later : ConversionConfiguration}

theorem sentPixel_eq {memory data : HostMemory} {tiles : Nat → Nat} {outMap : List Nat}
    {out : TileState} {size x y : Nat} (strip : Strip cvt numTiles height size)
    (known : cvt.rotation ≠ .other) (remap : tileRemap cvt.blockAlignment = some outMap)
    (read : ∀ x < cvt.inputLineWidth, ∀ row < height,
      bufferSamples cvt.inputFormat data cvt.inputLineWidth x row =
        pixelSamples getPointer cvt memory x row)
    (converted : ∀ x < cvt.inputLineWidth, ∀ row < height,
      tiles (x / 8 * tileSize + (row * 8 + x % 8)) =
        convertYUV cvt.coefficients (bufferSamples cvt.inputFormat data cvt.inputLineWidth x row).1
          (bufferSamples cvt.inputFormat data cvt.inputLineWidth x row).2.1
          (bufferSamples cvt.inputFormat data cvt.inputLineWidth x row).2.2)
    (written : Written cvt numTiles height outMap tiles numTiles out)
    (hx : x < (turnedSize cvt.rotation cvt.inputLineWidth height).1)
    (hy : y < (turnedSize cvt.rotation cvt.inputLineWidth height).2) :
    sentPixel out.data cvt.outputFormat cvt.alpha.toUInt8 (streamIndex cvt height x y) =
      convertedPixel getPointer cvt memory
        (turnedPixel cvt.rotation cvt.inputLineWidth height x y) := by
  rw [strip.width] at read converted hx hy ⊢
  obtain ⟨tile, inTile⟩ := turnedPlace_lt hx hy
  obtain ⟨inLine, line⟩ := turnedPixel_lt hx hy
  have pixel := written.pixels _ tile _ inTile
  rw [outputIndex_turnedPlace strip known remap hx hy, turnedSource_turnedPlace hx hy,
    converted _ inLine _ line, read _ inLine _ line] at pixel
  rw [sentPixel, pixel, colorVec_convertYUV, convertedPixel]

theorem exists_tileRemap (known : cvt.blockAlignment ≠ .other) :
    ∃ outMap, tileRemap cvt.blockAlignment = some outMap := by
  cases alignment : cvt.blockAlignment with
  | linear | block8x8 => exact ⟨_, rfl⟩
  | other => exact absurd alignment known

theorem Documented.strip (documented : Documented cvt) (mem : y ∈ stripStarts cvt.inputLines) :
    Strip cvt (cvt.inputLineWidth / 8) (cvt.rowHeight y) (cvt.inputLineWidth * 8 * 4) := by
  obtain ⟨i, less, rfl⟩ := List.mem_map.mp mem
  rw [List.mem_range] at less
  have width := documented.width
  unfold ConversionConfiguration.rowHeight
  exact ⟨by omega, rfl, by omega, fun isBlock => by have whole := documented.blocks isBlock; omega⟩

theorem Documented.sends_strip (documented : Documented cvt)
    (mem : y ∈ stripStarts cvt.inputLines) :
    cvt.dst.Sends cvt.outputFormat (cvt.inputLineWidth * 8 * 4)
      (cvt.rowHeight y * cvt.inputLineWidth) := by
  have lines : cvt.rowHeight y ≤ 8 := Nat.min_le_right _ _
  have rows := Nat.mul_le_mul_right cvt.inputLineWidth lines
  obtain ⟨some_bytes, whole, units⟩ := documented.wholePixels mem
  have positive : 0 < pixelBytes cvt.outputFormat := by
    cases format : cvt.outputFormat with
    | other => exact absurd format documented.outputFormat
    | _ => decide
  obtain ⟨pixels, unit_eq⟩ := Nat.dvd_of_mod_eq_zero whole
  rw [Nat.mul_comm] at unit_eq
  have some_pixels : 0 < pixels := Nat.pos_of_mul_pos_right (unit_eq ▸ some_bytes)
  obtain ⟨count, count_eq⟩ : pixels ∣ cvt.rowHeight y * cvt.inputLineWidth := by
    rw [unit_eq] at units
    exact Nat.dvd_of_mul_dvd_mul_right positive (Nat.dvd_of_mod_eq_zero units)
  refine ⟨positive, some_bytes, ?_⟩
  rw [unit_eq, partsOf_mul pixels positive, count_eq, Nat.mul_comm pixels count,
    partsOf_mul count some_pixels]
  rw [count_eq, Nat.mul_comm pixels count] at rows
  omega

theorem received_eq (cvt : ConversionConfiguration) (rowDataSize : Nat) :
    ∃ y u v yuyv, cvt.received rowDataSize = cvt.advance y u v yuyv 0 := by
  unfold ConversionConfiguration.received
  split
  case h_5 => exact ⟨0, 0, 0, _, rfl⟩
  case h_6 => exact ⟨0, 0, 0, 0, rfl⟩
  all_goals exact ⟨_, _, _, 0, rfl⟩

theorem convertStrip_converts (documented : Documented s.cvt)
    (mem : y ∈ stripStarts s.cvt.inputLines) (enough : turnsFor s.cvt ≤ fuel) :
    Returns (convertStrip getPointer fuel s y) fun t =>
      StripConverted getPointer (s.cvt.rowHeight y) (s.memory, s.cvt) (t.memory, t.cvt) := by
  have strip := documented.strip mem
  have rows : s.cvt.rowHeight y * s.cvt.inputLineWidth ≤ 8 * s.cvt.inputLineWidth :=
    Nat.mul_le_mul_right _ strip.lines
  unfold turnsFor at enough
  refine returns_bind (receiveStrip_samples documented mem
    (show s.cvt.rowHeight y * s.cvt.inputLineWidth * 2 < fuel by omega)) ?_
  rintro ⟨memory, data, tiles₀, tmpTile, cvt⟩ ⟨⟨receiving, settings⟩, read⟩
  obtain rfl : memory = s.memory := receiving.memory
  obtain rfl : cvt = _ := settings
  obtain ⟨a, b, c, d, moved⟩ := received_eq s.cvt (s.cvt.rowHeight y * s.cvt.inputLineWidth)
  obtain ⟨outMap, remap⟩ := exists_tileRemap documented.blockAlignment
  rw [moved]
  refine returns_bind (convertYUVToRGB_returns s.cvt.inputFormat s.cvt.coefficients data tiles₀ rfl
    documented.width strip.lines) ?_
  intro tiles converted
  refine returns_bind (writeTiles_returns data tmpTile tiles
    (ConversionConfiguration.Advances.strip ⟨a, b, c, d, 0, rfl⟩ strip) documented.rotation remap) ?_
  intro out turned
  have written : Written s.cvt (s.cvt.inputLineWidth / 8) (s.cvt.rowHeight y) outMap tiles
      (s.cvt.inputLineWidth / 8) out := ⟨turned.outputAt, turned.pixels⟩
  have sends := documented.sends_strip mem
  have units := partsOf_le s.cvt.dst.transferUnit sends.1
  have turns : s.cvt.rowHeight y * s.cvt.inputLineWidth +
      partsOf s.cvt.dst.transferUnit (pixelBytes s.cvt.outputFormat) < fuel := by omega
  obtain ⟨-, whole, whole_units⟩ := documented.wholePixels mem
  refine returns_bind (sendData_pixels sends whole whole_units turns) ?_
  rintro ⟨memory, dst⟩ ⟨sent, kept, rfl⟩
  refine returns_ok ⟨fun x hx row hrow i inside => ?_, kept, ?_⟩
  · have place := streamIndex_lt strip documented.rotation remap hx hrow
    rw [← sentPixel_eq strip documented.rotation remap read converted written hx hrow]
    exact sent _ place i inside
  · rw [ConversionConfiguration.behind, moved]
    rfl

theorem forall_transfers_advances (moved : cvt.Advances later) (rowDataSize : Nat)
    {P : Nat → Nat → Nat → Prop} : (∀ transfer ∈ later.transfers rowDataSize,
        P transfer.buf.transferUnit transfer.bytes transfer.count) ↔
      ∀ transfer ∈ cvt.transfers rowDataSize,
        P transfer.buf.transferUnit transfer.bytes transfer.count := by
  obtain ⟨a, b, c, d, e, rfl⟩ := moved
  unfold ConversionConfiguration.transfers ConversionConfiguration.transfers.planes
    ConversionConfiguration.advance
  cases cvt.inputFormat <;>
    simp only [List.forall_mem_cons, ConversionBuffer.transferUnit_iterate]

theorem Documented.advance (documented : Documented cvt) (moved : cvt.Advances later) :
    Documented later := by
  have units := documented.units
  have whole := documented.whole
  obtain ⟨a, b, c, d, e, same⟩ := id moved
  subst same
  refine ⟨⟨documented.width, documented.widthBound, documented.lines, documented.inputFormat,
    documented.outputFormat, documented.rotation, documented.blockAlignment, documented.blocks,
    documented.sharedLines, fun y mem => ?_⟩, fun y mem => ?_⟩
  · exact (forall_transfers_advances moved _
      (P := fun unit bytes count => 0 < unit ∧ count * bytes % unit = 0)).mpr (units y mem)
  · exact (forall_transfers_advances moved _
      (P := fun unit bytes _ => unit % bytes = 0)).mpr (whole y mem)

theorem StripConverted.advances {before after : HostMemory × ConversionConfiguration}
    (converted : StripConverted getPointer height before after) : before.2.Advances after.2 := by
  rw [converted.settings]
  obtain ⟨a, b, c, d, moved⟩ := received_eq before.2 (height * before.2.inputLineWidth)
  refine ⟨a, b, c, d, height * before.2.inputLineWidth * pixelBytes before.2.outputFormat /
    before.2.dst.transferUnit, ?_⟩
  rw [ConversionConfiguration.behind, moved]
  rfl

theorem rowHeight_advances (moved : cvt.Advances later) (y : Nat) :
    later.rowHeight y = cvt.rowHeight y := by
  obtain ⟨a, b, c, d, e, rfl⟩ := moved
  rfl

variable (getPointer) in
def StripsConverted (s : Conversion) (strips : Nat) (t : Conversion) : Prop :=
  s.cvt.Advances t.cvt ∧ ∃ states : Nat → HostMemory × ConversionConfiguration,
    states 0 = (s.memory, s.cvt) ∧ states strips = (t.memory, t.cvt) ∧
    ∀ i < strips, StripConverted getPointer (s.cvt.rowHeight (8 * i)) (states i) (states (i + 1))

theorem StripsConverted.next {strips : Nat} {t u : Conversion}
    (h : StripsConverted getPointer s strips t)
    (converted : StripConverted getPointer (s.cvt.rowHeight (8 * strips)) (t.memory, t.cvt)
      (u.memory, u.cvt)) : StripsConverted getPointer s (strips + 1) u := by
  obtain ⟨moved, states, start, last, each⟩ := h
  refine ⟨moved.trans converted.advances,
    fun i => if i ≤ strips then states i else (u.memory, u.cvt), ?_, ?_, fun i less => ?_⟩
  · exact (if_pos (Nat.zero_le strips)).trans start
  · exact if_neg (Nat.not_succ_le_self strips)
  · dsimp only
    rw [if_pos (show i ≤ strips by omega)]
    rcases Nat.lt_or_ge i strips with earlier | late
    · rw [if_pos (show i + 1 ≤ strips from earlier)]
      exact each i earlier
    · obtain rfl : i = strips := by omega
      rw [if_neg (Nat.not_succ_le_self i), last]
      exact converted

end

/-- Where the units hold whole samples and pixels, every strip is converted and sent as
expected. -/
theorem performConversion_image (getPointer : Nat → Nat) (s : Conversion) (fuel : Nat)
    (documented : Documented s.cvt) (enough : turnsFor s.cvt ≤ fuel) :
    Returns (performConversion getPointer fuel s) fun t =>
      ImageConverted getPointer s t.memory := by
  have tiles : s.cvt.inputLineWidth / 8 ≤ maxTiles := by
    have bound := documented.widthBound
    unfold maxTiles
    omega
  have blocks : s.cvt.blockAlignment ≠ .block8x8 ∨ s.cvt.inputLines % 8 = 0 :=
    imp_iff_not_or.mp documented.blocks
  unfold performConversion
  rw [assert_pos documented.width, assert_pos blocks, assert_pos tiles]
  have strips : Returns ((stripStarts s.cvt.inputLines).foldlM (convertStrip getPointer fuel) s)
      (StripsConverted getPointer s ((s.cvt.inputLines + 7) / 8)) := by
    unfold stripStarts
    rw [List.foldlM_map]
    apply returns_range (StripsConverted getPointer s)
    · intro i less t before
      have moved := before.1
      have mem : 8 * i ∈ stripStarts t.cvt.inputLines :=
        moved.mem_stripStarts.mpr (List.mem_map_of_mem (List.mem_range.mpr less))
      refine (convertStrip_converts (documented.advance moved) mem
        (by rwa [moved.turnsFor])).mono fun u converted => ?_
      rw [rowHeight_advances moved] at converted
      exact before.next converted
    · exact ⟨.refl s.cvt, fun _ => (s.memory, s.cvt), rfl, rfl,
        fun i none => absurd none (Nat.not_lt_zero i)⟩
  refine strips.mono fun t ⟨_, states, start, last, each⟩ => ⟨states, start, ?_, each⟩
  rw [last]

def blank (cvt : ConversionConfiguration) : Conversion :=
  ⟨fun _ => 0, fun _ => 0, fun _ => 0, fun _ => 0, cvt⟩

def turnedLines : ConversionConfiguration :=
  { ConversionConfiguration.zero with
    inputFormat := .yuyv422Interleaved
    outputFormat := .rgb565
    rotation := .clockwise90
    inputLineWidth := 8
    inputLines := 3
    coefficients := standardCoefficients.headD ConversionConfiguration.zero.coefficients
    srcYUYV := ⟨0x1000, 48, 16, 8⟩
    dst := ⟨0x100, 48, 6, 2⟩ }

theorem performConversion_image_turnedLines :
    Returns (performConversion id 200 (blank turnedLines)) fun t =>
      ImageConverted id (blank turnedLines) t.memory :=
  performConversion_image id (blank turnedLines) 200
    ⟨⟨rfl, by decide, by decide, nofun, nofun, nofun, nofun, nofun, nofun, by decide⟩, by decide⟩
    (by decide)

def splitPixels : ConversionConfiguration :=
  { ConversionConfiguration.zero with
    inputLineWidth := 8
    inputLines := 1
    coefficients := coefficientSet #v[0, 0, 0, 0, 0, 0, 0x1000, 0]
    srcY := ⟨0, 8, 8, 0⟩
    srcU := ⟨0, 4, 4, 0⟩
    srcV := ⟨0, 4, 4, 0⟩
    dst := ⟨0x100, 32, 2, 2⟩ }

def splitSamples : ConversionConfiguration :=
  { splitPixels with
    inputFormat := .yuv422Indiv16
    srcY := ⟨0, 16, 1, 0⟩
    dst := ⟨0x100, 32, 32, 0⟩ }

/-- Units that divide the data may still split pixels, which are then written into the gaps, or
samples, which are not received. -/
theorem performConversion_split :
    (Configured splitPixels ∧ ¬ Returns (performConversion id 200 (blank splitPixels)) fun t =>
      ImageConverted id (blank splitPixels) t.memory) ∧
    (Configured splitSamples ∧ ¬ Returns (performConversion id 200 (blank splitSamples)) fun t =>
      ImageConverted id (blank splitSamples) t.memory) := by
  refine ⟨⟨⟨rfl, by decide, by decide, nofun, nofun, nofun, nofun, nofun, by decide, by decide⟩, ?_⟩,
    ⟨rfl, by decide, by decide, nofun, nofun, nofun, nofun, nofun, by decide, by decide⟩, ?_⟩
  · rintro ⟨t, run, states, start, last, each⟩
    have green : (performConversion id 200 (blank splitPixels)).toOption.map
        (fun t => t.memory 0x102) = some 128 := by decide +kernel
    rw [run] at green
    have gap : (states 1).1 0x102 = (states 0).1 0x102 :=
      (each 0 (by decide)).gaps 0x102 (by rw [start]; decide)
    have none : t.memory 0x102 = 0 := by
      rw [← last]
      refine gap.trans ?_
      rw [start]
      rfl
    have written : t.memory 0x102 = 128 := Option.some.inj green
    rw [none] at written
    contradiction
  · rintro ⟨t, run, -⟩
    contradiction

end EmuThreeDS.Y2R
