import EmuThreeDS.Service.Y2RTiles
import EmuThreeDS.Service.Y2RTransfers

/-!
# Conversions that end inside their buffers

What the settings have to be for `PerformConversion` to return: the setters let other ones pass.
-/
namespace EmuThreeDS.Y2R

namespace ConversionConfiguration

variable (cvt : ConversionConfiguration)

def Receives (rowDataSize : Nat) : Prop :=
  match cvt.inputFormat with
  | .yuv422Indiv8 => planes 1 2
  | .yuv420Indiv8 => planes 1 4
  | .yuv422Indiv16 => planes 2 2
  | .yuv420Indiv16 => planes 2 4
  | .yuyv422Interleaved => cvt.srcYUYV.Divides 1 (rowDataSize * 2)
  | .other => True
where
  planes (n share : Nat) : Prop :=
    cvt.srcY.Divides n rowDataSize ∧ cvt.srcU.Divides n (rowDataSize / share) ∧
      cvt.srcV.Divides n (rowDataSize / share)

def StripFits (y : Nat) : Prop :=
  cvt.Receives (cvt.rowHeight y * cvt.inputLineWidth) ∧
    (cvt.blockAlignment = .other → cvt.rotation = .other) ∧
    cvt.dst.Sends cvt.outputFormat (cvt.inputLineWidth * 8 * 4)
      (cvt.rowHeight y * cvt.inputLineWidth)

/-- What a conversion asks of the settings: the lines of blocks are whole ones, and all strips
fit. -/
def Convertible : Prop :=
  (cvt.blockAlignment = .block8x8 → cvt.inputLines % 8 = 0) ∧
    ∀ y ∈ stripStarts cvt.inputLines, cvt.StripFits y

def advance (y u v yuyv dst : Nat) : ConversionConfiguration :=
  { cvt with
    srcY := ConversionBuffer.next^[y] cvt.srcY
    srcU := ConversionBuffer.next^[u] cvt.srcU
    srcV := ConversionBuffer.next^[v] cvt.srcV
    srcYUYV := ConversionBuffer.next^[yuyv] cvt.srcYUYV
    dst := ConversionBuffer.next^[dst] cvt.dst }

def Advances (later : ConversionConfiguration) : Prop :=
  ∃ y u v yuyv dst, later = cvt.advance y u v yuyv dst

variable {cvt} {later last : ConversionConfiguration}

theorem Advances.refl (cvt : ConversionConfiguration) : cvt.Advances cvt := ⟨0, 0, 0, 0, 0, rfl⟩

theorem Advances.trans (first : cvt.Advances later) (second : later.Advances last) :
    cvt.Advances last := by
  obtain ⟨y, u, v, yuyv, dst, rfl⟩ := first
  obtain ⟨y', u', v', yuyv', dst', rfl⟩ := second
  refine ⟨y' + y, u' + u, v' + v, yuyv' + yuyv, dst' + dst, ?_⟩
  simp only [advance, Function.iterate_add_apply]

variable {buf : ConversionBuffer} {units amount size : Nat}

theorem divides_iterate {n : Nat} :
    (ConversionBuffer.next^[units] buf).Divides n amount ↔ buf.Divides n amount := by
  rw [ConversionBuffer.Divides, ConversionBuffer.transferUnit_iterate]
  rfl

theorem sends_iterate {outputFormat : OutputFormat} :
    (ConversionBuffer.next^[units] buf).Sends outputFormat size amount ↔
      buf.Sends outputFormat size amount := by
  rw [ConversionBuffer.Sends, ConversionBuffer.transferUnit_iterate]
  rfl

def received (cvt : ConversionConfiguration) (rowDataSize : Nat) : ConversionConfiguration :=
  match cvt.inputFormat with
  | .yuv422Indiv8 => planes 1 2
  | .yuv420Indiv8 => planes 1 4
  | .yuv422Indiv16 => planes 2 2
  | .yuv420Indiv16 => planes 2 4
  | .yuyv422Interleaved =>
    { cvt with
      srcYUYV := ConversionBuffer.next^[rowDataSize * 2 / (cvt.srcYUYV.transferUnit / 1)]
        cvt.srcYUYV }
  | .other => cvt
where
  planes (n share : Nat) : ConversionConfiguration :=
    { cvt with
      srcY := ConversionBuffer.next^[rowDataSize / (cvt.srcY.transferUnit / n)] cvt.srcY
      srcU := ConversionBuffer.next^[rowDataSize / share / (cvt.srcU.transferUnit / n)] cvt.srcU
      srcV := ConversionBuffer.next^[rowDataSize / share / (cvt.srcV.transferUnit / n)] cvt.srcV }

theorem Advances.stripFits (moved : cvt.Advances later) (y : Nat) :
    later.StripFits y ↔ cvt.StripFits y := by
  obtain ⟨a, b, c, d, e, rfl⟩ := moved
  unfold StripFits Receives Receives.planes rowHeight advance
  simp only [divides_iterate, sends_iterate]

end ConversionConfiguration

section

variable {getPointer : Nat → Nat} {fuel n share rowDataSize : Nat} {s t : Conversion}

structure Receiving (s t : Conversion) : Prop where
  memory : t.memory = s.memory
  tiles : t.tiles = s.tiles
  tmpTile : t.tmpTile = s.tmpTile
  cvt : s.cvt.Advances t.cvt

theorem receivePlanes_inv (run : receivePlanes getPointer fuel n share rowDataSize s = .ok t) :
    ConversionConfiguration.Receives.planes s.cvt rowDataSize n share ∧ Receiving s t := by
  obtain ⟨⟨dataY, srcY⟩, runY, run⟩ := bind_eq_ok.mp run
  obtain ⟨⟨dataU, srcU⟩, runU, run⟩ := bind_eq_ok.mp run
  obtain ⟨⟨dataV, srcV⟩, runV, run⟩ := bind_eq_ok.mp run
  obtain ⟨divY, y, rfl⟩ := receiveData_inv runY
  obtain ⟨divU, u, rfl⟩ := receiveData_inv runU
  obtain ⟨divV, v, rfl⟩ := receiveData_inv runV
  cases run
  exact ⟨⟨divY, divU, divV⟩, rfl, rfl, rfl, y, u, v, 0, 0, rfl⟩

theorem receiveStrip_inv (run : receiveStrip getPointer fuel rowDataSize s = .ok t) :
    s.cvt.Receives rowDataSize ∧ Receiving s t := by
  unfold receiveStrip at run
  unfold ConversionConfiguration.Receives
  cases format : s.cvt.inputFormat <;> rw [format] at run <;> dsimp only at run ⊢
  case yuyv422Interleaved =>
    obtain ⟨⟨data, srcYUYV⟩, received, run⟩ := bind_eq_ok.mp run
    obtain ⟨divides, yuyv, rfl⟩ := receiveData_inv received
    cases run
    exact ⟨divides, rfl, rfl, rfl, 0, 0, 0, yuyv, 0, rfl⟩
  case other =>
    cases run
    exact ⟨trivial, rfl, rfl, rfl, .refl s.cvt⟩
  all_goals exact receivePlanes_inv run

structure PlanesRead (getPointer : Nat → Nat) (n share rowDataSize : Nat) (s t : Conversion) :
    Prop where
  receiving : Receiving s t
  settings : t.cvt = ConversionConfiguration.received.planes s.cvt rowDataSize n share
  y : ∀ k < rowDataSize, t.data k = s.cvt.srcY.sample getPointer n s.memory k
  u : ∀ k < rowDataSize / share,
    t.data (8 * s.cvt.inputLineWidth + k) = s.cvt.srcU.sample getPointer n s.memory k
  v : ∀ k < rowDataSize / share,
    t.data (8 * s.cvt.inputLineWidth + 8 * s.cvt.inputLineWidth / 2 + k) =
      s.cvt.srcV.sample getPointer n s.memory k

theorem receivePlanes_returns
    (planes : ConversionConfiguration.Receives.planes s.cvt rowDataSize n share)
    (rows : rowDataSize ≤ 8 * s.cvt.inputLineWidth) (shared : 2 ≤ share)
    (enough : rowDataSize < fuel) : Returns (receivePlanes getPointer fuel n share rowDataSize s)
      (PlanesRead getPointer n share rowDataSize s) := by
  obtain ⟨divY, divU, divV⟩ := planes
  have half : rowDataSize / share ≤ rowDataSize / 2 := Nat.div_le_div_left shared (by decide)
  refine returns_bind (receiveData_returns getPointer s.memory s.data divY (by omega) enough) ?_
  rintro ⟨dataY, srcY⟩ ⟨readY, -, rfl⟩
  refine returns_bind (receiveData_returns getPointer s.memory dataY divU (by omega) (by omega)) ?_
  rintro ⟨dataU, srcU⟩ ⟨readU, keptU, rfl⟩
  refine returns_bind (receiveData_returns getPointer s.memory dataU divV (by omega) (by omega)) ?_
  rintro ⟨dataV, srcV⟩ ⟨readV, keptV, rfl⟩
  dsimp only at readY readU keptU readV keptV
  refine returns_ok ⟨⟨rfl, rfl, rfl, _, _, _, 0, 0, rfl⟩, rfl, ?_, ?_, ?_⟩
  · intro k less
    dsimp only
    rw [keptV k (.inl (by omega)), keptU k (.inl (by omega)), ← readY k less, Nat.zero_add]
  · intro k less
    dsimp only
    rw [keptV _ (.inl (by omega)), readU k less]
  · exact readV

structure InterleavedRead (getPointer : Nat → Nat) (rowDataSize : Nat) (s t : Conversion) :
    Prop where
  receiving : Receiving s t
  settings : t.cvt = s.cvt.received rowDataSize
  read : ∀ k < rowDataSize * 2, t.data k = s.cvt.srcYUYV.sample getPointer 1 s.memory k

theorem receiveInterleaved_returns (format : s.cvt.inputFormat = .yuyv422Interleaved)
    (divides : s.cvt.srcYUYV.Divides 1 (rowDataSize * 2))
    (rows : rowDataSize ≤ 8 * s.cvt.inputLineWidth) (enough : rowDataSize * 2 < fuel) :
    Returns (receiveStrip getPointer fuel rowDataSize s)
      (InterleavedRead getPointer rowDataSize s) := by
  unfold receiveStrip
  rw [format]
  refine returns_bind (receiveData_returns getPointer s.memory s.data divides (by omega) enough) ?_
  rintro ⟨data, srcYUYV⟩ ⟨read, -, rfl⟩
  refine returns_ok ⟨⟨rfl, rfl, rfl, 0, 0, 0, _, 0, rfl⟩, ?_, fun k less => ?_⟩
  · simp only [ConversionConfiguration.received, format]
  rw [← read k less, Nat.zero_add]

theorem receiveStrip_returns (receives : s.cvt.Receives rowDataSize)
    (rows : rowDataSize ≤ 8 * s.cvt.inputLineWidth) (enough : rowDataSize * 2 < fuel) :
    Returns (receiveStrip getPointer fuel rowDataSize s) (Receiving s) := by
  have planes (n share : Nat) (shared : 2 ≤ share)
      (holds : ConversionConfiguration.Receives.planes s.cvt rowDataSize n share) :
      Returns (receivePlanes getPointer fuel n share rowDataSize s) (Receiving s) :=
    (receivePlanes_returns holds rows shared (by omega)).mono fun t read => read.receiving
  cases format : s.cvt.inputFormat <;> unfold ConversionConfiguration.Receives at receives <;>
    rw [format] at receives
  case yuyv422Interleaved =>
    exact (receiveInterleaved_returns format receives rows enough).mono fun t read => read.receiving
  all_goals
    unfold receiveStrip
    rw [format]
  case other => exact returns_ok ⟨rfl, rfl, rfl, .refl s.cvt⟩
  case yuv422Indiv8 => exact planes 1 2 (by decide) receives
  case yuv420Indiv8 => exact planes 1 4 (by decide) receives
  case yuv422Indiv16 => exact planes 2 2 (by decide) receives
  case yuv420Indiv16 => exact planes 2 4 (by decide) receives

end

section

variable {getPointer : Nat → Nat} {fuel y : Nat} {s t : Conversion}
  {cvt later : ConversionConfiguration}

theorem strip_of_checked (checked : cvt.Checked)
    (block : cvt.blockAlignment = .block8x8 → cvt.inputLines % 8 = 0)
    (mem : y ∈ stripStarts cvt.inputLines) :
    Strip cvt (cvt.inputLineWidth / 8) (cvt.rowHeight y) (cvt.inputLineWidth * 8 * 4) ∧
      0 < cvt.inputLineWidth / 8 ∧ 0 < cvt.rowHeight y := by
  obtain ⟨i, less, rfl⟩ := List.mem_map.mp mem
  rw [List.mem_range] at less
  have width := checked.width
  have positive := checked.widthPositive
  unfold ConversionConfiguration.rowHeight
  exact ⟨⟨by omega, rfl, by omega, fun isBlock => by have whole := block isBlock; omega⟩, by omega,
    by omega⟩

namespace ConversionConfiguration.Advances

section

variable (moved : cvt.Advances later)
include moved

theorem checked (h : cvt.Checked) : later.Checked := by
  obtain ⟨a, b, c, d, e, rfl⟩ := moved
  exact h.congr rfl rfl

theorem block (h : cvt.blockAlignment = .block8x8 → cvt.inputLines % 8 = 0) :
    later.blockAlignment = .block8x8 → later.inputLines % 8 = 0 := by
  obtain ⟨a, b, c, d, e, rfl⟩ := moved
  exact h

theorem mem_stripStarts : y ∈ stripStarts later.inputLines ↔ y ∈ stripStarts cvt.inputLines := by
  obtain ⟨a, b, c, d, e, rfl⟩ := moved
  rfl

theorem strip {numTiles height : Nat} (strip : Strip cvt numTiles height size) :
    Strip later numTiles height size := by
  obtain ⟨a, b, c, d, e, rfl⟩ := moved
  exact ⟨strip.width, strip.size, strip.lines, strip.block⟩

end

end ConversionConfiguration.Advances

theorem convertStrip_inv (checked : s.cvt.Checked)
    (block : s.cvt.blockAlignment = .block8x8 → s.cvt.inputLines % 8 = 0)
    (mem : y ∈ stripStarts s.cvt.inputLines) (run : convertStrip getPointer fuel s y = .ok t) :
    s.cvt.StripFits y ∧ s.cvt.Advances t.cvt := by
  obtain ⟨strip, some_tiles, some_lines⟩ := strip_of_checked checked block mem
  obtain ⟨s', received, run⟩ := bind_eq_ok.mp run
  obtain ⟨tiles, -, run⟩ := bind_eq_ok.mp run
  obtain ⟨out, turned, run⟩ := bind_eq_ok.mp run
  obtain ⟨⟨memory, dst⟩, sent, run⟩ := bind_eq_ok.mp run
  obtain ⟨receives, receiving⟩ := receiveStrip_inv received
  have moved := receiving.cvt
  have turns := (writeTiles_answers s'.data s'.tmpTile tiles (moved.strip strip) some_tiles
    some_lines).mp ⟨out, turned⟩
  obtain ⟨sends, units, rfl⟩ := sendData_inv (Nat.mul_pos some_lines checked.widthPositive) sent
  cases run
  obtain ⟨a, b, c, d, e, same⟩ := moved
  rw [same] at turns sends ⊢
  refine ⟨⟨receives, turns, ConversionConfiguration.sends_iterate.mp sends⟩, a, b, c, d, units + e, ?_⟩
  simp only [ConversionConfiguration.advance, Function.iterate_add_apply]

theorem partsOf_le (amount : Nat) (positive : 0 < size) : partsOf amount size ≤ amount := by
  refine Nat.le_of_not_lt fun less => ?_
  have before := (lt_partsOf positive).mp less
  exact Nat.lt_irrefl _ (Nat.lt_of_le_of_lt (Nat.le_mul_of_pos_right amount positive) before)

def turnsFor (cvt : ConversionConfiguration) : Nat :=
  16 * cvt.inputLineWidth + cvt.dst.transferUnit + 4

theorem ConversionConfiguration.Advances.turnsFor (moved : cvt.Advances later) :
    turnsFor later = Y2R.turnsFor cvt := by
  obtain ⟨a, b, c, d, e, rfl⟩ := moved
  unfold Y2R.turnsFor advance
  rw [ConversionBuffer.transferUnit_iterate]

theorem convertStrip_returns (checked : s.cvt.Checked)
    (block : s.cvt.blockAlignment = .block8x8 → s.cvt.inputLines % 8 = 0)
    (mem : y ∈ stripStarts s.cvt.inputLines) (fits : s.cvt.StripFits y)
    (enough : turnsFor s.cvt ≤ fuel) :
    Returns (convertStrip getPointer fuel s y) fun t => s.cvt.Advances t.cvt := by
  obtain ⟨strip, some_tiles, some_lines⟩ := strip_of_checked checked block mem
  obtain ⟨receives, turns, sends⟩ := fits
  have rows : s.cvt.rowHeight y * s.cvt.inputLineWidth ≤ 8 * s.cvt.inputLineWidth :=
    Nat.mul_le_mul_right _ strip.lines
  unfold turnsFor at enough
  refine returns_bind (receiveStrip_returns receives rows
    (show s.cvt.rowHeight y * s.cvt.inputLineWidth * 2 < fuel by omega)) ?_
  intro s' receiving
  obtain ⟨a, b, c, d, e, same⟩ := id receiving.cvt
  refine returns_bind ((convertYUVToRGB_returns s'.cvt.inputFormat s'.cvt.coefficients s'.data
    s'.tiles rfl checked.width strip.lines).mono fun _ _ => trivial) ?_
  intro tiles _
  obtain ⟨out, turned⟩ := (writeTiles_answers s'.data s'.tmpTile tiles
    (receiving.cvt.strip strip) some_tiles some_lines).mpr (by rw [same]; exact turns)
  have format : s'.cvt.outputFormat = s.cvt.outputFormat := by rw [same]; rfl
  have moved : s'.cvt.dst = ConversionBuffer.next^[e] s.cvt.dst := by rw [same]; rfl
  have sends' : s'.cvt.dst.Sends s'.cvt.outputFormat (s.cvt.inputLineWidth * 8 * 4)
      (s.cvt.rowHeight y * s.cvt.inputLineWidth) := by
    rw [format, moved]
    exact ConversionConfiguration.sends_iterate.mpr sends
  have units := partsOf_le s'.cvt.dst.transferUnit sends'.1
  rw [turned, ok_bind, sendData_returns sends' ?_]
  · refine returns_ok ⟨a, b, c, d, partsOf (s.cvt.rowHeight y * s.cvt.inputLineWidth)
      (partsOf s'.cvt.dst.transferUnit (pixelBytes s'.cvt.outputFormat)) + e, ?_⟩
    unfold ConversionConfiguration.advance
    rw [Function.iterate_add_apply, same]
    rfl
  · rw [show s'.cvt.dst.transferUnit = s.cvt.dst.transferUnit by
      rw [moved, ConversionBuffer.transferUnit_iterate]] at units ⊢
    omega

theorem performConversion_answers (checked : s.cvt.Checked) :
    (∃ fuel, Answers (performConversion getPointer fuel s)) ↔ s.cvt.Convertible := by
  have widths : s.cvt.inputLineWidth / 8 ≤ maxTiles := by
    have bound := checked.widthBound
    unfold maxTiles
    omega
  have blocks : (s.cvt.blockAlignment ≠ .block8x8 ∨ s.cvt.inputLines % 8 = 0) ↔
      (s.cvt.blockAlignment = .block8x8 → s.cvt.inputLines % 8 = 0) := by
    rw [imp_iff_not_or]
  unfold performConversion
  rw [assert_pos checked.width, assert_pos widths]
  simp only [ok_bind]
  constructor
  · rintro ⟨fuel, t, run⟩
    obtain ⟨_, holds, run⟩ := bind_eq_ok.mp run
    have block := blocks.mp (assert_eq_ok.mp holds)
    refine ⟨block, foldlM_inv (fun t => s.cvt.Advances t.cvt) s.cvt.StripFits ?_
      (.refl s.cvt) run⟩
    intro t moved y mem u run
    obtain ⟨fits, later⟩ := convertStrip_inv (moved.checked checked) (moved.block block)
      (moved.mem_stripStarts.mpr mem) run
    exact ⟨(moved.stripFits y).mp fits, moved.trans later⟩
  · rintro ⟨block, fits⟩
    refine ⟨turnsFor s.cvt, ?_⟩
    rw [assert_pos (blocks.mpr block)]
    refine Returns.answers (returns_foldlM (fun t => s.cvt.Advances t.cvt) ?_ (.refl s.cvt))
    intro t moved y mem
    refine (convertStrip_returns (moved.checked checked) (moved.block block)
      (moved.mem_stripStarts.mpr mem) ((moved.stripFits y).mpr (fits y mem)) ?_).mono
      fun u later => moved.trans later
    rw [moved.turnsFor]

end

end EmuThreeDS.Y2R
