import EmuThreeDS.Common.Color
import EmuThreeDS.Exec

/-!
# The settings of Y2R

`ConversionConfiguration` of `y2r_u.h`, and the commands of `y2r_u.cpp` that change it. Words of a
command are below 2^32.
-/
namespace EmuThreeDS.Y2R

inductive InputFormat where
  | yuv422Indiv8 | yuv420Indiv8 | yuv422Indiv16 | yuv420Indiv16 | yuyv422Interleaved | other
  deriving DecidableEq

inductive OutputFormat where
  | rgba8 | rgb8 | rgb5a1 | rgb565 | other

inductive Rotation where
  | none | clockwise90 | clockwise180 | clockwise270 | other
  deriving DecidableEq

inductive BlockAlignment where
  | linear | block8x8 | other
  deriving DecidableEq

/-- `PopEnum`: the values of an enumeration of one byte, and what no value stands for. -/
def popEnum {α : Type} (values : List α) (other : α) (word : Nat) : α :=
  values.getD (word % 0x100) other

def popInputFormat : Nat → InputFormat :=
  popEnum [.yuv422Indiv8, .yuv420Indiv8, .yuv422Indiv16, .yuv420Indiv16, .yuyv422Interleaved] .other

def popOutputFormat : Nat → OutputFormat := popEnum [.rgba8, .rgb8, .rgb5a1, .rgb565] .other

def popRotation : Nat → Rotation :=
  popEnum [.none, .clockwise90, .clockwise180, .clockwise270] .other

def popBlockAlignment : Nat → BlockAlignment := popEnum [.linear, .block8x8] .other

/-- `std::array<s16, 8>`. -/
abbrev CoefficientSet := Vector (BitVec 16) 8

def coefficientSet (values : Vector Int 8) : CoefficientSet := values.map (BitVec.ofInt 16)

def standardCoefficients : List CoefficientSet :=
  [coefficientSet #v[0x100, 0x166, 0xB6, 0x58, 0x1C5, -0x166F, 0x10EE, -0x1C5B],
    coefficientSet #v[0x100, 0x193, 0x77, 0x2F, 0x1DB, -0x1933, 0xA7C, -0x1D51],
    coefficientSet #v[0x12A, 0x198, 0xD0, 0x64, 0x204, -0x1BDE, 0x10F2, -0x229B],
    coefficientSet #v[0x12A, 0x1CA, 0x88, 0x36, 0x21C, -0x1F04, 0x99C, -0x2421]]

/-- Two numbers of 32 bits, and two of 16 bits. -/
structure ConversionBuffer where
  address : Nat
  imageSize : Nat
  transferUnit : Nat
  gap : Nat

structure ConversionConfiguration where
  inputFormat : InputFormat
  outputFormat : OutputFormat
  rotation : Rotation
  blockAlignment : BlockAlignment
  inputLineWidth : Nat
  inputLines : Nat
  coefficients : CoefficientSet
  alpha : Nat
  srcY : ConversionBuffer
  srcU : ConversionBuffer
  srcV : ConversionBuffer
  srcYUYV : ConversionBuffer
  dst : ConversionBuffer

inductive ResultCode where
  | success | outOfRange | invalidEnumValue
  deriving DecidableEq

namespace ConversionBuffer

def zero : ConversionBuffer := ⟨0, 0, 0, 0⟩

/-- The four words of `SetSendingY` and its siblings. -/
def pop (address imageSize transferUnit gap : Nat) : ConversionBuffer :=
  ⟨address, imageSize, transferUnit % 0x10000, gap % 0x10000⟩

end ConversionBuffer

namespace ConversionConfiguration

/-- `conversion{}`. -/
def zero : ConversionConfiguration where
  inputFormat := .yuv422Indiv8
  outputFormat := .rgba8
  rotation := .none
  blockAlignment := .linear
  inputLineWidth := 0
  inputLines := 0
  coefficients := .replicate 8 0
  alpha := 0
  srcY := .zero
  srcU := .zero
  srcV := .zero
  srcYUYV := .zero
  dst := .zero

variable (conversion : ConversionConfiguration)

/-- The width is a `u16`. -/
def setInputLineWidth (width : Nat) : ResultCode × ConversionConfiguration :=
  let width := width % 0x10000
  if width = 0 ∨ width > 1024 ∨ width % 8 ≠ 0 then (.outOfRange, conversion)
  else (.success, { conversion with inputLineWidth := width })

def setInputLines (lines : Nat) : ResultCode × ConversionConfiguration :=
  let lines := lines % 0x10000
  if lines = 0 ∨ lines > 1024 then (.outOfRange, conversion)
  -- the `camera` module does not set the register for 1024
  else if lines ≠ 1024 then (.success, { conversion with inputLines := lines })
  else (.success, conversion)

def setStandardCoefficient (standardCoefficient : Nat) : ResultCode × ConversionConfiguration :=
  match standardCoefficients[standardCoefficient % 0x100]? with
  | none => (.invalidEnumValue, conversion)
  | some coefficients => (.success, { conversion with coefficients })

def driverInitialize : ConversionConfiguration :=
  let conversion := { conversion with
    inputFormat := .yuv422Indiv8
    outputFormat := .rgba8
    rotation := .none
    blockAlignment := .linear
    coefficients := .replicate 8 0 }
  let conversion := (conversion.setInputLineWidth 1024).2
  let conversion := (conversion.setInputLines 1024).2
  { conversion with alpha := 0, srcY := .zero, srcU := .zero, srcV := .zero, dst := .zero }

end ConversionConfiguration

/-- `ConversionParameters`, with its enumerations as bytes. -/
structure ConversionParameters where
  inputFormat : Nat
  outputFormat : Nat
  rotation : Nat
  blockAlignment : Nat
  inputLineWidth : Nat
  inputLines : Nat
  standardCoefficient : Nat
  alpha : Nat

def ConversionConfiguration.setPackageParameter (conversion : ConversionConfiguration)
    (params : ConversionParameters) : ResultCode × ConversionConfiguration :=
  let conversion := { conversion with
    inputFormat := popInputFormat params.inputFormat
    outputFormat := popOutputFormat params.outputFormat
    rotation := popRotation params.rotation
    blockAlignment := popBlockAlignment params.blockAlignment }
  let (result, conversion) := conversion.setInputLineWidth params.inputLineWidth
  if result ≠ .success then (result, conversion)
  else
    let (result, conversion) := conversion.setInputLines params.inputLines
    if result ≠ .success then (result, conversion)
    else
      let (result, conversion) := conversion.setStandardCoefficient params.standardCoefficient
      if result ≠ .success then (result, conversion)
      else (result, { conversion with alpha := params.alpha % 0x10000 })

inductive Command where
  | setInputFormat (inputFormat : Nat)
  | setOutputFormat (outputFormat : Nat)
  | setRotation (rotation : Nat)
  | setBlockAlignment (blockAlignment : Nat)
  | setSendingY (address imageSize transferUnit gap : Nat)
  | setSendingU (address imageSize transferUnit gap : Nat)
  | setSendingV (address imageSize transferUnit gap : Nat)
  | setSendingYUYV (address imageSize transferUnit gap : Nat)
  | setReceiving (address imageSize transferUnit gap : Nat)
  | setInputLineWidth (inputLineWidth : Nat)
  | setInputLines (inputLines : Nat)
  | setCoefficient (coefficients : CoefficientSet)
  | setStandardCoefficient (index : Nat)
  | setAlpha (alpha : Nat)
  | setPackageParameter (params : ConversionParameters)
  | driverInitialize

namespace ConversionConfiguration

variable (conversion : ConversionConfiguration)

def handle : Command → ResultCode × ConversionConfiguration
  | .setInputFormat format => (.success, { conversion with inputFormat := popInputFormat format })
  | .setOutputFormat format => (.success, { conversion with outputFormat := popOutputFormat format })
  | .setRotation rotation => (.success, { conversion with rotation := popRotation rotation })
  | .setBlockAlignment alignment =>
    (.success, { conversion with blockAlignment := popBlockAlignment alignment })
  | .setSendingY address size unit gap =>
    (.success, { conversion with srcY := .pop address size unit gap })
  | .setSendingU address size unit gap =>
    (.success, { conversion with srcU := .pop address size unit gap })
  | .setSendingV address size unit gap =>
    (.success, { conversion with srcV := .pop address size unit gap })
  | .setSendingYUYV address size unit gap =>
    (.success, { conversion with srcYUYV := .pop address size unit gap })
  | .setReceiving address size unit gap =>
    (.success, { conversion with dst := .pop address size unit gap })
  | .setInputLineWidth width => conversion.setInputLineWidth width
  | .setInputLines lines => conversion.setInputLines lines
  | .setCoefficient coefficients => (.success, { conversion with coefficients })
  | .setStandardCoefficient index => conversion.setStandardCoefficient index
  | .setAlpha alpha => (.success, { conversion with alpha := alpha % 0x10000 })
  | .setPackageParameter params => conversion.setPackageParameter params
  | .driverInitialize => (.success, conversion.driverInitialize)

/-- What commands make of the configuration after `DriverInitialize`. -/
def after (commands : List Command) : ConversionConfiguration :=
  commands.foldl (fun conversion command => (conversion.handle command).2) zero.driverInitialize

structure Checked (conversion : ConversionConfiguration) : Prop where
  width : conversion.inputLineWidth % 8 = 0
  widthPositive : 0 < conversion.inputLineWidth
  widthBound : conversion.inputLineWidth ≤ 1024
  lines : conversion.inputLines < 1024

namespace Checked

variable {conversion : ConversionConfiguration}

section

variable (h : conversion.Checked)
include h

theorem congr {other : ConversionConfiguration}
    (width : other.inputLineWidth = conversion.inputLineWidth)
    (lines : other.inputLines = conversion.inputLines) : other.Checked :=
  ⟨width ▸ h.width, width ▸ h.widthPositive, width ▸ h.widthBound, lines ▸ h.lines⟩

theorem setInputLineWidth (width : Nat) : (conversion.setInputLineWidth width).2.Checked := by
  unfold ConversionConfiguration.setInputLineWidth
  dsimp only
  split_ifs with outOfRange
  · exact h
  · push Not at outOfRange
    obtain ⟨positive, bound, whole⟩ := outOfRange
    exact ⟨whole, Nat.pos_of_ne_zero positive, bound, h.lines⟩

theorem setInputLines (lines : Nat) : (conversion.setInputLines lines).2.Checked := by
  unfold ConversionConfiguration.setInputLines
  dsimp only
  split_ifs with outOfRange other
  · exact h
  · exact ⟨h.width, h.widthPositive, h.widthBound, by dsimp only; omega⟩
  · exact h

theorem setStandardCoefficient (index : Nat) :
    (conversion.setStandardCoefficient index).2.Checked := by
  unfold ConversionConfiguration.setStandardCoefficient
  split
  · exact h
  · exact h.congr rfl rfl

theorem setPackageParameter (params : ConversionParameters) :
    (conversion.setPackageParameter params).2.Checked := by
  unfold ConversionConfiguration.setPackageParameter
  dsimp only
  have width := (h.congr rfl rfl : ConversionConfiguration.Checked { conversion with
    inputFormat := popInputFormat params.inputFormat
    outputFormat := popOutputFormat params.outputFormat
    rotation := popRotation params.rotation
    blockAlignment := popBlockAlignment params.blockAlignment }).setInputLineWidth
      params.inputLineWidth
  have lines := width.setInputLines params.inputLines
  have coefficients := lines.setStandardCoefficient params.standardCoefficient
  split_ifs
  · exact width
  · exact lines
  · exact coefficients
  · exact coefficients.congr rfl rfl

end

theorem driverInitialize (lines : conversion.inputLines < 1024) :
    conversion.driverInitialize.Checked := by
  have checked : ConversionConfiguration.Checked { conversion with
      inputFormat := .yuv422Indiv8
      outputFormat := .rgba8
      rotation := .none
      blockAlignment := .linear
      coefficients := .replicate 8 0
      inputLineWidth := 1024 } := ⟨show 1024 % 8 = 0 from rfl, Nat.succ_pos 1023, Nat.le_refl 1024, lines⟩
  exact (checked.setInputLines 1024).congr rfl rfl

theorem handle (h : conversion.Checked) (command : Command) :
    (conversion.handle command).2.Checked := by
  cases command with
  | setInputLineWidth width => exact h.setInputLineWidth width
  | setInputLines lines => exact h.setInputLines lines
  | setStandardCoefficient index => exact h.setStandardCoefficient index
  | setPackageParameter params => exact h.setPackageParameter params
  | driverInitialize => exact driverInitialize h.lines
  | _ => exact h.congr rfl rfl

end Checked

theorem checked_after (commands : List Command) : (after commands).Checked := by
  unfold after
  have start : zero.driverInitialize.Checked := Checked.driverInitialize (by decide)
  generalize zero.driverInitialize = conversion at start
  induction commands generalizing conversion with
  | nil => exact start
  | cons command rest ih => exact ih _ (start.handle command)

end ConversionConfiguration
end EmuThreeDS.Y2R
