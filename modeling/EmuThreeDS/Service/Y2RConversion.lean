import EmuThreeDS.Common.Buffers
import EmuThreeDS.Lib.StepLoop
import EmuThreeDS.Service.Y2R
import Mathlib.Data.Int.Bitwise

/-!
# Conversions

`PerformConversion` of `y2r.cpp`, strip by strip. `data_buffer` and the tiles are arrays with their
sizes; what they hold before they are written is any data. The memory of the guest is that of the
host, behind the pointers of `GetPointer`.
-/
namespace EmuThreeDS.Y2R

open Blit Color StepLoop

abbrev HostMemory := Nat → UInt8

abbrev ImageTile := Nat → Nat

def maxTiles : Nat := 1024 / 8

def tileSize : Nat := 8 * 8

/-- `std::clamp(value >> 5, 0, 0xFF)`. -/
def clampColor (value : Int) : Nat := (max 0 (min (value >>> 5) 0xFF) : Int).toNat

def convertYUV (coefficients : CoefficientSet) (Y U V : UInt8) : Nat :=
  let cY := coefficients[0].toInt * Y.toNat
  let r := cY + coefficients[1].toInt * V.toNat
  let g := cY - coefficients[2].toInt * V.toNat - coefficients[3].toInt * U.toNat
  let b := cY + coefficients[4].toInt * U.toNat
  let roundingOffset := 0x18
  let r := (r >>> 3) + coefficients[5].toInt + roundingOffset
  let g := (g >>> 3) + coefficients[6].toInt + roundingOffset
  let b := (b >>> 3) + coefficients[7].toInt + roundingOffset
  (clampColor r <<< 24) ||| (clampColor g <<< 16) ||| (clampColor b <<< 8)

/-- The fixed-point formula for the components of a pixel. -/
def yuvToRGB (coefficients : CoefficientSet) (samples : UInt8 × UInt8 × UInt8) (alpha : UInt8) :
    Vec4 :=
  let Y : Int := samples.1.toNat
  let U : Int := samples.2.1.toNat
  let V : Int := samples.2.2.toNat
  let component (value offset : Int) : UInt8 :=
    (max 0 (min (((value >>> 3) + offset + 0x18) >>> 5) 255) : Int).toNat.toUInt8
  ⟨component (coefficients[0].toInt * Y + coefficients[1].toInt * V) coefficients[5].toInt,
    component (coefficients[0].toInt * Y - coefficients[2].toInt * V - coefficients[3].toInt * U)
      coefficients[6].toInt,
    component (coefficients[0].toInt * Y + coefficients[4].toInt * U) coefficients[7].toInt, alpha⟩

namespace ConversionBuffer

variable (buf : ConversionBuffer)

def next : ConversionBuffer :=
  { buf with
    address := add32 buf.address (buf.transferUnit + buf.gap)
    imageSize := sub32 buf.imageSize buf.transferUnit }

end ConversionBuffer

structure ReceiveState where
  data : HostMemory
  output : Nat
  input : Nat
  buf : ConversionBuffer
  amountOfData : Nat

def ReceiveState.turn (n size outputUnit : Nat) (memory : HostMemory) (s : ReceiveState) :
    Exec (HostMemory × ConversionBuffer ⊕ ReceiveState) :=
  if 0 < s.amountOfData then do
    let data ← Cells.fill size (fun i => .ok (s.output + i, [memory (s.input + i * n)]))
      (List.range outputUnit) s.data
    return .inr
      { data
        output := s.output + outputUnit
        input := s.input + (s.buf.transferUnit + s.buf.gap)
        buf := s.buf.next
        amountOfData := s.amountOfData - outputUnit }
  else .ok (.inl (s.data, s.buf))

section

variable (getPointer : Nat → Nat) (fuel : Nat)

def receiveData (n size : Nat) (memory data : HostMemory) (output : Nat) (buf : ConversionBuffer)
    (amountOfData : Nat) : Exec (HostMemory × ConversionBuffer) :=
  let outputUnit := buf.transferUnit / n
  -- the remainder is that of a division by zero
  if outputUnit = 0 then .error .undefinedBehaviour
  else do
    assert .receiveData (amountOfData % outputUnit = 0)
    loop .outOfFuel (ReceiveState.turn n size outputUnit memory) fuel
      ⟨data, output, getPointer buf.address, buf, amountOfData⟩

end

def samples (inputFormat : InputFormat) (size : Nat) (data : HostMemory)
    (inputY inputU inputV width x y : Nat) : Exec (UInt8 × UInt8 × UInt8) :=
  match inputFormat with
  | .yuv422Indiv8 | .yuv422Indiv16 => do
    let Y ← Cells.cell size data (inputY + (y * width + x))
    let U ← Cells.cell size data (inputU + (y * width + x) / 2)
    let V ← Cells.cell size data (inputV + (y * width + x) / 2)
    return (Y, U, V)
  | .yuv420Indiv8 | .yuv420Indiv16 => do
    let Y ← Cells.cell size data (inputY + (y * width + x))
    let U ← Cells.cell size data (inputU + (y / 2 * width + x) / 2)
    let V ← Cells.cell size data (inputV + (y / 2 * width + x) / 2)
    return (Y, U, V)
  | .yuyv422Interleaved => do
    let Y ← Cells.cell size data (inputY + (y * width + x) * 2)
    let U ← Cells.cell size data (inputY + ((y * width + x / 2 * 2) * 2 + 1))
    let V ← Cells.cell size data (inputY + ((y * width + x / 2 * 2) * 2 + 3))
    return (Y, U, V)
  | .other => .ok (0, 0, 0)

def tileCell (tile i : Nat) : Exec Nat :=
  if i < tileSize then .ok (tile * tileSize + i) else .error .undefinedBehaviour

def convertYUVToRGB (inputFormat : InputFormat) (size : Nat) (data : HostMemory)
    (inputY inputU inputV numTiles : Nat) (output : Nat → Nat) (width height : Nat)
    (coefficients : CoefficientSet) : Exec (Nat → Nat) :=
  Cells.fill (numTiles * tileSize) (fun (x, y) => do
    let (Y, U, V) ← samples inputFormat size data inputY inputU inputV width x y
    let out ← tileCell (x / 8) (y * 8 + x % 8)
    return (out, [convertYUV coefficients Y U V])) (grid width height) output

def linearLut : List Nat :=
  [0, 1, 2, 3, 4, 5, 6, 7,
    8, 9, 10, 11, 12, 13, 14, 15,
    16, 17, 18, 19, 20, 21, 22, 23,
    24, 25, 26, 27, 28, 29, 30, 31,
    32, 33, 34, 35, 36, 37, 38, 39,
    40, 41, 42, 43, 44, 45, 46, 47,
    48, 49, 50, 51, 52, 53, 54, 55,
    56, 57, 58, 59, 60, 61, 62, 63]

def mortonLut : List Nat :=
  [0, 1, 4, 5, 16, 17, 20, 21,
    2, 3, 6, 7, 18, 19, 22, 23,
    8, 9, 12, 13, 24, 25, 28, 29,
    10, 11, 14, 15, 26, 27, 30, 31,
    32, 33, 36, 37, 48, 49, 52, 53,
    34, 35, 38, 39, 50, 51, 54, 55,
    40, 41, 44, 45, 56, 57, 60, 61,
    42, 43, 46, 47, 58, 59, 62, 63]

/-- A null pointer where the alignment is none of the values. -/
def tileRemap : BlockAlignment → Option (List Nat)
  | .linear => some linearLut
  | .block8x8 => some mortonLut
  | .other => none

def rotateTile (sources : List Nat) (input output : ImageTile) (outMap : Option (List Nat)) :
    Exec ImageTile :=
  Cells.fill tileSize (fun (source, outI) =>
    match outMap with
    | none => .error .undefinedBehaviour
    | some outMap => do
      let place ← Buffer.get outMap outI
      let pixel ← Cells.cell tileSize input source
      return (place, [pixel])) sources.zipIdx output

def rotateTile0 (height : Nat) : ImageTile → ImageTile → Option (List Nat) → Exec ImageTile :=
  rotateTile (List.range (height * 8))

def rotateTile90 (height : Nat) : ImageTile → ImageTile → Option (List Nat) → Exec ImageTile :=
  rotateTile ((List.range 8).flatMap fun x => (List.range height).reverse.map fun y => y * 8 + x)

def rotateTile180 (height : Nat) : ImageTile → ImageTile → Option (List Nat) → Exec ImageTile :=
  rotateTile (List.range (height * 8)).reverse

def rotateTile270 (height : Nat) : ImageTile → ImageTile → Option (List Nat) → Exec ImageTile :=
  rotateTile ((List.range 8).reverse.flatMap fun x => (List.range height).map fun y => y * 8 + x)

def storeU32 (value : Nat) : List UInt8 := leBytes 4 value

/-- The output is a place in the buffer, in pixels. -/
def writeTileToOutput (size : Nat) (data : HostMemory) (output : Nat) (tile : ImageTile)
    (height lineStride : Nat) : Exec HostMemory :=
  Cells.fill size (fun (x, y) => do
    let pixel ← Cells.cell tileSize tile (y * 8 + x)
    return (4 * (output + (y * lineStride + x)), storeU32 pixel)) (grid 8 height) data

structure TileState where
  data : HostMemory
  tmpTile : ImageTile
  output : Nat

section

variable (cvt : ConversionConfiguration) (numTiles rowHeight : Nat) (tiles : Nat → Nat)

def tileAt (i : Nat) : Exec ImageTile :=
  if i < numTiles then .ok (fun k => tiles (i * tileSize + k)) else .error .undefinedBehaviour

/-- The turned tile, and `image_strip_width` and `output_stride`. -/
def turnTile (i : Nat) (tmpTile : ImageTile) : Exec (ImageTile × Nat × Nat) :=
  let remap := tileRemap cvt.blockAlignment
  match cvt.rotation with
  | .none => do
    let tile ← rotateTile0 rowHeight (← tileAt numTiles tiles i) tmpTile remap
    return (tile, cvt.inputLineWidth, 8)
  | .clockwise90 => do
    let tile ← rotateTile90 rowHeight (← tileAt numTiles tiles i) tmpTile remap
    return (tile, 8, 8 * rowHeight)
  | .clockwise180 => do
    let tile ← rotateTile180 rowHeight (← tileAt numTiles tiles (numTiles - i - 1)) tmpTile remap
    return (tile, cvt.inputLineWidth, 8)
  | .clockwise270 => do
    let tile ← rotateTile270 rowHeight (← tileAt numTiles tiles (numTiles - i - 1)) tmpTile remap
    return (tile, 8, 8 * rowHeight)
  | .other => .ok (tmpTile, 0, 0)

def writeTile (size : Nat) (s : TileState) (i : Nat) : Exec TileState := do
  let (tmpTile, imageStripWidth, outputStride) ←
    turnTile cvt numTiles rowHeight tiles i s.tmpTile
  match cvt.blockAlignment with
  | .linear =>
    let data ← writeTileToOutput size s.data s.output tmpTile rowHeight imageStripWidth
    return ⟨data, tmpTile, s.output + outputStride⟩
  | .block8x8 =>
    let data ← writeTileToOutput size s.data s.output tmpTile 8 8
    return ⟨data, tmpTile, s.output + tileSize⟩
  | .other => return { s with tmpTile }

end

/-- The bytes of a pixel; the output does not move where the format is none of the values. -/
def encodePixel (outputFormat : OutputFormat) (color : Vec4) : List UInt8 :=
  match outputFormat with
  | .rgba8 => encodeRGBA8 color
  | .rgb8 => encodeRGB8 color
  | .rgb5a1 => encodeRGB5A1 color
  | .rgb565 => encodeRGB565 color
  | .other => []

def colorVec (color : Nat) (alpha : UInt8) : Vec4 :=
  ⟨(color >>> 24).toUInt8, (color >>> 16).toUInt8, (color >>> 8).toUInt8, alpha⟩

structure SendState where
  memory : HostMemory
  input : Nat
  output : Nat
  buf : ConversionBuffer
  amountOfData : Int

section

variable (size : Nat) (data : HostMemory) (outputFormat : OutputFormat) (alpha : UInt8)

def SendState.pixel (unitEnd : Nat) (s : SendState) : Exec (SendState ⊕ SendState) :=
  if s.output < unitEnd then do
    let color ← Cells.get size data (4 * s.input) 4
    let pixel := encodePixel outputFormat (colorVec (leValue color) alpha)
    return .inr
      { s with
        memory := blit s.memory s.output pixel
        input := s.input + 1
        output := s.output + pixel.length
        amountOfData := s.amountOfData - 1 }
  else .ok (.inl s)

def SendState.turn (fuel : Nat) (s : SendState) :
    Exec (HostMemory × ConversionBuffer ⊕ SendState) :=
  if 0 < s.amountOfData then do
    let s ← loop .outOfFuel (SendState.pixel size data outputFormat alpha
      (s.output + s.buf.transferUnit)) fuel s
    return .inr { s with output := s.output + s.buf.gap, buf := s.buf.next }
  else .ok (.inl (s.memory, s.buf))

def sendData (getPointer : Nat → Nat) (fuel : Nat) (memory : HostMemory) (buf : ConversionBuffer)
    (amountOfData : Nat) : Exec (HostMemory × ConversionBuffer) :=
  loop .outOfFuel (SendState.turn size data outputFormat alpha fuel) fuel
    ⟨memory, 0, getPointer buf.address, buf, amountOfData⟩

end

structure Conversion where
  memory : HostMemory
  data : HostMemory
  tiles : Nat → Nat
  tmpTile : ImageTile
  cvt : ConversionConfiguration

def ConversionConfiguration.rowHeight (cvt : ConversionConfiguration) (y : Nat) : Nat :=
  min (cvt.inputLines - y) 8

section

variable (getPointer : Nat → Nat) (fuel : Nat)

/-- The planes of a strip, with a sample of colour for so many pixels. -/
def receivePlanes (n share rowDataSize : Nat) (s : Conversion) : Exec Conversion := do
  let width := s.cvt.inputLineWidth
  let size := width * 8 * 4
  let (data, srcY) ← receiveData getPointer fuel n size s.memory s.data 0 s.cvt.srcY rowDataSize
  let (data, srcU) ← receiveData getPointer fuel n size s.memory data (8 * width) s.cvt.srcU
    (rowDataSize / share)
  let (data, srcV) ← receiveData getPointer fuel n size s.memory data
    (8 * width + 8 * width / 2) s.cvt.srcV (rowDataSize / share)
  return { s with data, cvt := { s.cvt with srcY, srcU, srcV } }

def receiveStrip (rowDataSize : Nat) (s : Conversion) : Exec Conversion :=
  match s.cvt.inputFormat with
  | .yuv422Indiv8 => receivePlanes getPointer fuel 1 2 rowDataSize s
  | .yuv420Indiv8 => receivePlanes getPointer fuel 1 4 rowDataSize s
  | .yuv422Indiv16 => receivePlanes getPointer fuel 2 2 rowDataSize s
  | .yuv420Indiv16 => receivePlanes getPointer fuel 2 4 rowDataSize s
  | .yuyv422Interleaved => do
    let (data, srcYUYV) ← receiveData getPointer fuel 1 (s.cvt.inputLineWidth * 8 * 4) s.memory
      s.data 0 s.cvt.srcYUYV (rowDataSize * 2)
    return { s with data, cvt := { s.cvt with srcYUYV } }
  | .other => .ok s

def convertStrip (s : Conversion) (y : Nat) : Exec Conversion := do
  let width := s.cvt.inputLineWidth
  let size := width * 8 * 4
  let numTiles := width / 8
  let rowHeight := s.cvt.rowHeight y
  let rowDataSize := rowHeight * width
  let s ← receiveStrip getPointer fuel rowDataSize s
  let tiles ← convertYUVToRGB s.cvt.inputFormat size s.data 0 (8 * width)
    (8 * width + 8 * width / 2) numTiles s.tiles width rowHeight s.cvt.coefficients
  let out ← (List.range numTiles).foldlM (writeTile s.cvt numTiles rowHeight tiles size)
    ⟨s.data, s.tmpTile, 0⟩
  let (memory, dst) ← sendData size out.data s.cvt.outputFormat s.cvt.alpha.toUInt8 getPointer fuel
    s.memory s.cvt.dst rowDataSize
  return ⟨memory, out.data, tiles, out.tmpTile, { s.cvt with dst }⟩

def stripStarts (inputLines : Nat) : List Nat := (List.range ((inputLines + 7) / 8)).map (8 * ·)

/-- `data`, `tiles` and `tmpTile` of the start are what the new arrays hold. -/
def performConversion (s : Conversion) : Exec Conversion := do
  assert .performConversion (s.cvt.inputLineWidth % 8 = 0)
  assert .performConversion (s.cvt.blockAlignment ≠ .block8x8 ∨ s.cvt.inputLines % 8 = 0)
  assert .performConversion (s.cvt.inputLineWidth / 8 ≤ maxTiles)
  (stripStarts s.cvt.inputLines).foldlM (convertStrip getPointer fuel) s

end
end EmuThreeDS.Y2R
