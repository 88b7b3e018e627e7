import EmuThreeDS.Common.Color
import EmuThreeDS.Lib.BitFields
import EmuThreeDS.Video.SubRects

/-!
# ETC1 subtiles

`etc1.cpp`: the colour of a pixel of a block of four by four, from the 64 bits of the block.
-/
namespace EmuThreeDS.Texture

open Color

structure Vec3 (α : Type) where
  r : α
  g : α
  b : α

def Vec3.map {α β : Type} (f : α → β) (v : Vec3 α) : Vec3 β := ⟨f v.r, f v.g, f v.b⟩

def etc1ModifierTable : List (Nat × Nat) :=
  [(2, 8), (5, 17), (9, 29), (13, 42), (18, 60), (24, 80), (33, 106), (47, 183)]

/-- The conversion of an `int` to `u8`. -/
def toByte (value : Int) : UInt8 := (value % 256).toNat.toUInt8

def signed3 (value : Nat) : Int := if value < 4 then value else (value : Int) - 8

structure ETC1Tile where
  raw : BitVec 64

namespace ETC1Tile

variable (tile : ETC1Tile)

def field (pos len : Nat) : Nat := BitField.value pos len tile.raw

def getTableSubIndex (index : Nat) : Bool := (tile.field 0 16).testBit index

def getNegationFlag (index : Nat) : Bool := (tile.field 16 16).testBit index

def flip : Bool := tile.field 32 1 = 1

def differentialMode : Bool := tile.field 33 1 = 1

def tableIndex2 : Nat := tile.field 34 3

def tableIndex1 : Nat := tile.field 37 3

/-- The components of the `differential` struct: a base value and a delta. -/
def differential : Vec3 Nat := ⟨tile.field 59 5, tile.field 51 5, tile.field 43 5⟩

def delta : Vec3 Int :=
  ⟨signed3 (tile.field 56 3), signed3 (tile.field 48 3), signed3 (tile.field 40 3)⟩

/-- The components of the `separate` struct, for each half of the block. -/
def separate1 : Vec3 Nat := ⟨tile.field 60 4, tile.field 52 4, tile.field 44 4⟩

def separate2 : Vec3 Nat := ⟨tile.field 56 4, tile.field 48 4, tile.field 40 4⟩

def base (x : Nat) : Vec3 UInt8 :=
  if tile.differentialMode then
    if 2 ≤ x then
      ⟨convert5To8 (toByte (tile.differential.r + tile.delta.r)),
        convert5To8 (toByte (tile.differential.g + tile.delta.g)),
        convert5To8 (toByte (tile.differential.b + tile.delta.b))⟩
    else tile.differential.map fun v => convert5To8 v.toUInt8
  else if x < 2 then tile.separate1.map fun v => convert4To8 v.toUInt8
  else tile.separate2.map fun v => convert4To8 v.toUInt8

def modifier (x texel : Nat) : Int :=
  let row := etc1ModifierTable.getD (if x < 2 then tile.tableIndex1 else tile.tableIndex2) (0, 0)
  let modifier : Nat := if tile.getTableSubIndex texel then row.2 else row.1
  if tile.getNegationFlag texel then -modifier else modifier

def getRGB (x y : Nat) : Vec3 UInt8 :=
  let texel := 4 * x + y
  let column := if tile.flip then y else x
  (tile.base column).map fun v =>
    (max 0 (min ((v.toNat : Int) + tile.modifier column texel) 255)).toNat.toUInt8

end ETC1Tile

def sampleETC1Subtile (value : Nat) (x y : Nat) : Vec3 UInt8 :=
  ETC1Tile.getRGB ⟨BitVec.ofNat 64 value⟩ x y

end EmuThreeDS.Texture

/-!
## Swizzling

`texture_codec.h`: pixels of each format, tiles of eight by eight pixels in Morton order, and the
copies of images from tiles to rows. The template parameters are arguments. Conversions of depths
to floats and back are parameters.
-/
namespace EmuThreeDS.VideoCore

open Blit Color Texture

namespace PixelFormat

/-- `FORMAT_MAP[index].bytes_per_pixel`. -/
def bytesPerPixel : PixelFormat → Nat
  | rgb8 => 3
  | rgb5a1 | rgb565 | rgba4 | d16 => 2
  | _ => 4

def isCompressed (format : PixelFormat) : Bool := format = etc1 || format = etc1a4

def is4bit (format : PixelFormat) : Bool := format = i4 || format = a4

def tileSize (format : PixelFormat) : Nat := format.bitsPerBlock * 64 / 8

/-- The formats with entries in the tables of conversions. Others are converted in any case, or
not at all. -/
def hasConversion : PixelFormat → Bool
  | rgba8 | rgb8 | rgb5a1 | rgb565 | rgba4 | d16 | d24 => true
  | _ => false

def linearBytes (format : PixelFormat) (converted : Bool) : Nat :=
  if converted then 4 else format.bytesPerPixel

end PixelFormat

/-- The bits of `value / 16777215.f`, and `static_cast<u32>(d32 * 0xFFFFFF)` of the bits of
`d32`. -/
structure FloatDepth where
  ofD24 : Nat → Nat
  toD24 : Nat → Nat

def makeInt (size : Nat) (bytes : Nat → UInt8) : Nat := leValue (slice bytes 0 size)

section

variable (depth : FloatDepth) (format : PixelFormat) (converted : Bool)

def decodePixel (source : Nat → UInt8) : List UInt8 :=
  match format, converted with
  | .rgba8, true => (decodeRGBA8 source).asArray
  | .rgb8, true => (decodeRGB8 source).asArray
  | .rgb565, true => (decodeRGB565 source).asArray
  | .rgb5a1, true => (decodeRGB5A1 source).asArray
  | .rgba4, true => (decodeRGBA4 source).asArray
  | .ia8, _ => (decodeIA8 source).asArray
  | .rg8, _ => (decodeRG8 source).asArray
  | .i8, _ => (decodeI8 source).asArray
  | .a8, _ => (decodeA8 source).asArray
  | .ia4, _ => (decodeIA4 source).asArray
  | .d24, true => leBytes 4 (depth.ofD24 (decodeD24 source))
  | .d24s8, _ => leBytes 4 ((BitVec.ofNat 32 (makeInt 4 source)).rotateLeft 8).toNat
  | format, _ => slice source 0 (format.bitsPerBlock / 8)

def decodePixel4 (x y : Nat) (sourceTile : Nat → UInt8) : List UInt8 :=
  let mortonOffset := mortonInterleave x y
  let value := sourceTile (mortonOffset / 2)
  let pixel := convert4To8 (if mortonOffset % 2 ≠ 0 then value >>> 4 else value &&& 0xF)
  if format = .i4 then [pixel, pixel, pixel, 255] else [0, 0, 0, pixel]

def decodePixelETC1 (x y : Nat) (sourceTile : Nat → UInt8) : List UInt8 :=
  let hasAlpha := format = .etc1a4
  let subtileSize := if hasAlpha then 16 else 8
  let subtileIndex := x / 4 + 2 * (y / 4)
  let x := x % 4
  let y := y % 4
  let subtilePtr := fun k => sourceTile (subtileIndex * subtileSize + k)
  let alpha : UInt8 :=
    if hasAlpha then
      convert4To8 ((makeInt 8 subtilePtr >>> (4 * (x * 4 + y))) &&& 0xF).toUInt8
    else 255
  let subtilePtr := if hasAlpha then fun k => subtilePtr (8 + k) else subtilePtr
  let rgb := sampleETC1Subtile (makeInt 8 subtilePtr) x y
  [rgb.r, rgb.g, rgb.b, alpha]

def decodeTexel (tile : Nat → UInt8) (x y : Nat) : List UInt8 :=
  if format.isCompressed then decodePixelETC1 format x y tile
  else if format.is4bit then decodePixel4 format x y tile
  else decodePixel depth format converted fun k =>
    tile (mortonInterleave x y * (format.bitsPerBlock / 8) + k)

/-- The order of the loops of `MortonCopyTile`. -/
def tileTexels : List (Nat × Nat) :=
  (List.range 8).flatMap fun y => (List.range 8).map fun x => (x, y)

/-- Where a pixel of a tile is in rows; tiles are stored from the top, rows from the bottom. -/
def linearTexel (stride x y : Nat) : Nat := ((7 - y) * stride + x) * format.linearBytes converted

/-- `MortonCopyTile<true>`. -/
def mortonToLinearTile (stride : Nat) (tile linear : Nat → UInt8) : Nat → UInt8 :=
  tileTexels.foldl (fun linear texel =>
    blit linear (linearTexel format converted stride texel.1 texel.2)
      (decodeTexel depth format converted tile texel.1 texel.2)) linear

end

/-- `std::span<u8>`; what is outside of it is undefined behaviour. -/
structure Span where
  size : Nat
  bytes : Nat → UInt8

namespace Span

def subspan (span : Span) (offset count : Nat) : Exec (Nat → UInt8) :=
  if offset + count ≤ span.size then .ok fun k => span.bytes (offset + k)
  else .error .undefinedBehaviour

def write (span : Span) (offset : Nat) (data : List UInt8) : Exec Span :=
  if offset + data.length ≤ span.size then .ok { span with bytes := blit span.bytes offset data }
  else .error .undefinedBehaviour

end Span

structure TileCursor where
  x : Nat
  y : Nat
  linearOffset : Nat

section

variable (depth : FloatDepth) (format : PixelFormat) (converted : Bool) (width height : Nat)

def linearTileStride : Nat :=
  mul32 (add32 (mul32 7 width) 8) (format.linearBytes converted)

/-- The linear buffer is read and written from the bottom up. -/
def firstTile : TileCursor where
  x := 0
  y := 0
  linearOffset := mul32 (mul32 (sub32 height 8) width) (format.linearBytes converted)

def nextTile (cursor : TileCursor) : TileCursor :=
  let x := add32 cursor.x 8 % width
  let linearOffset := add32 cursor.linearOffset (8 * format.linearBytes converted)
  if x = 0 then
    let y := add32 cursor.y 8 % height
    if y = 0 then ⟨x, y, linearOffset⟩
    else ⟨x, y, sub32 linearOffset (mul32 (mul32 width 9) (format.linearBytes converted))⟩
  else ⟨x, cursor.y, linearOffset⟩

/-- The loop over whole tiles; `copyTile` copies between a tile in rows and one in Morton order. -/
def copyTiles (bufferEnd : Nat) (copyTile : Nat → Nat → Span → Exec Span) :
    Nat → Nat → TileCursor → Span → Exec (Nat × TileCursor × Span)
  | 0, tiledOffset, cursor, span =>
    if tiledOffset < bufferEnd then .error .outOfFuel else return (tiledOffset, cursor, span)
  | fuel + 1, tiledOffset, cursor, span =>
    if tiledOffset < bufferEnd then do
      let span ← copyTile cursor.linearOffset tiledOffset span
      copyTiles bufferEnd copyTile fuel (tiledOffset + format.tileSize)
        (nextTile format converted width height cursor) span
    else return (tiledOffset, cursor, span)

/-- A turn of the loop of `MortonCopy<true>`. -/
def copyTileToLinear (tiledBuffer : Span) (linearOffset tiledOffset : Nat) (linear : Span) :
    Exec Span := do
  let stride := linearTileStride format converted width
  let linearData ← linear.subspan linearOffset stride
  let tiledData ← tiledBuffer.subspan tiledOffset format.tileSize
  linear.write linearOffset
    (slice (mortonToLinearTile depth format converted width tiledData linearData) 0 stride)

/-- `MortonCopy<true>`. -/
def mortonToLinear (startOffset endOffset : Nat) (linearBuffer tiledBuffer : Span) : Exec Span := do
  let alignedStart ← alignUp startOffset format.tileSize
  let alignedEnd ← alignDown endOffset format.tileSize
  assert .textureCodec (alignedStart = startOffset ∧ alignedEnd = endOffset)
  if alignedStart < alignedEnd then
    let bufferEnd := min (sub32 alignedEnd alignedStart) tiledBuffer.size
    let copied ← copyTiles format converted width height bufferEnd
      (copyTileToLinear depth format converted width tiledBuffer)
      bufferEnd 0 (firstTile format converted width height) linearBuffer
    return copied.2.2
  else return linearBuffer

end

end EmuThreeDS.VideoCore
