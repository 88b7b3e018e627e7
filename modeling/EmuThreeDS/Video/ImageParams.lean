import EmuThreeDS.Video.RasterizerCache

/-!
# The geometry of surfaces

`surface_params.cpp` with the formats of `pixel_format.h`. All quantities are 32-bit words; a
division by zero and an index outside of the mipmap offsets are undefined behaviour. The texture
type and the custom format are left out.
-/
namespace EmuThreeDS.VideoCore

open Intervals

inductive PixelFormat where
  | rgba8 | rgb8 | rgb5a1 | rgb565 | rgba4
  | ia8 | rg8 | i8 | a8 | ia4 | i4 | a4 | etc1 | etc1a4
  | d16 | d24 | d24s8
  deriving DecidableEq

namespace PixelFormat

def bitsPerBlock : PixelFormat → Nat
  | rgba8 | d24s8 => 32
  | rgb8 | d24 => 24
  | rgb5a1 | rgb565 | rgba4 | ia8 | rg8 | d16 => 16
  | i8 | a8 | ia4 | etc1a4 => 8
  | i4 | a4 | etc1 => 4

def type : PixelFormat → SurfaceType
  | rgba8 | rgb8 | rgb5a1 | rgb565 | rgba4 => .color
  | ia8 | rg8 | i8 | a8 | ia4 | i4 | a4 | etc1 | etc1a4 => .texture
  | d16 | d24 => .depth
  | d24s8 => .depthStencil

end PixelFormat

/-- `Invalid` is `none`; its index is outside of `FORMAT_MAP`. -/
def getFormatBpp (format : Option PixelFormat) : Exec Nat :=
  match format with
  | some format => .ok format.bitsPerBlock
  | none => .error (.assertion .pixelFormat)

def bytesInPixels (bpp pixels : Nat) : Nat := mul32 pixels bpp / 8

def pixelsInBytes (bpp size : Nat) : Nat := mul32 size 8 / bpp

/-- `value % size`, and so nothing is aligned to zero. -/
def remainder (value size : Nat) : Exec Nat :=
  if size = 0 then .error .undefinedBehaviour else .ok (value % size)

def alignUp (value size : Nat) : Exec Nat := do
  let mod ← remainder value size
  return if mod = 0 then value else add32 (value - mod) size

def alignDown (value size : Nat) : Exec Nat := do
  let mod ← remainder value size
  return value - mod

/-- `Common::Rectangle<u32>`. -/
structure Rectangle where
  left : Nat
  top : Nat
  right : Nat
  bottom : Nat
  deriving DecidableEq

/-- `std::abs` of the difference of two signed words. -/
def distance32 (a b : Nat) : Nat := min (sub32 a b) (sub32 b a)

namespace Rectangle

def getWidth (rect : Rectangle) : Nat := distance32 rect.right rect.left

def getHeight (rect : Rectangle) : Nat := distance32 rect.bottom rect.top

end Rectangle

def maxPicaLevels : Nat := 8

/-- `SurfaceParams` as far as sizes and addresses depend on it. -/
structure ImageParams where
  addr : Nat
  endAddr : Nat
  size : Nat
  width : Nat
  height : Nat
  stride : Nat
  levels : Nat
  resScale : Nat
  isTiled : Bool
  pixelFormat : Option PixelFormat
  type : SurfaceType
  mipmapOffsets : List Nat
  deriving DecidableEq

namespace ImageParams

variable (p : ImageParams)

def getInterval : Block := ⟨p.addr, p.endAddr⟩

def tiledSize : Nat := if p.isTiled then 8 else 1

def tilePixels : Nat := if p.isTiled then 64 else 1

def offsetAt (level : Nat) : Exec Nat :=
  match p.mipmapOffsets[level]? with
  | some offset => .ok offset
  | none => .error .undefinedBehaviour

def levelOffsets (bpp : Nat) : Nat → Nat → Nat → Nat → List Nat
  | 0, _, _, _ => []
  | levels + 1, levelWidth, levelHeight, offset =>
    offset :: levelOffsets bpp levels (levelWidth / 2) (levelHeight / 2)
      (add32 offset (bytesInPixels bpp (mul32 levelWidth levelHeight)))

def calculateMipLevelOffsets (bpp : Nat) : Exec ImageParams := do
  assert .surfaceParams (p.levels ≤ maxPicaLevels ∧ p.stride = p.width)
  return { p with
    mipmapOffsets := levelOffsets bpp p.levels p.width p.height p.addr ++
      p.mipmapOffsets.drop p.levels }

def levelSizes (bpp : Nat) : Nat → Nat → Nat → Nat → Nat
  | 0, _, _, size => size
  | levels + 1, levelWidth, levelHeight, size =>
    levelSizes bpp levels (levelWidth / 2) (levelHeight / 2)
      (add32 size (bytesInPixels bpp (mul32 levelWidth levelHeight)))

def calculateSurfaceSize (bpp : Nat) : Exec Nat := do
  assert .surfaceParams (p.levels ≤ maxPicaLevels ∧ p.stride = p.width)
  return levelSizes bpp p.levels p.width p.height 0

def flatSize (bpp : Nat) : Nat :=
  if p.isTiled then
    bytesInPixels bpp
      (add32 (mul32 (mul32 p.stride 8) (sub32 (p.height / 8) 1)) (mul32 p.width 8))
  else bytesInPixels bpp (add32 (mul32 p.stride (sub32 p.height 1)) p.width)

def updateParams : Exec ImageParams := do
  let p := { p with stride := if p.stride = 0 then p.width else p.stride }
  let bpp ← getFormatBpp p.pixelFormat
  let p := { p with type := (p.pixelFormat.map PixelFormat.type).getD .invalid }
  if p.levels ≠ 1 then
    assert .surfaceParams (p.stride = p.width)
    let p ← p.calculateMipLevelOffsets bpp
    let size ← p.calculateSurfaceSize bpp
    return { p with size := size, endAddr := add32 p.addr size }
  else
    let size := p.flatSize bpp
    return { p with
      mipmapOffsets := p.mipmapOffsets.set 0 p.addr
      size := size
      endAddr := add32 p.addr size }

/-- The loop of `LevelOf`, which runs down from the last level. -/
def levelDown (levelAddr : Nat) : Nat → Exec Nat
  | 0 => do
      if levelAddr < (← p.offsetAt 0) then .error .undefinedBehaviour else return 0
  | level + 1 => do
      if levelAddr < (← p.offsetAt (level + 1)) then levelDown levelAddr level
      else return level + 1

def levelOf (levelAddr : Nat) : Exec Nat :=
  if levelAddr < p.addr ∨ p.endAddr < levelAddr then return 0
  else if p.levels = 0 then .error .undefinedBehaviour
  else p.levelDown levelAddr (p.levels - 1)

def levelInterval (level : Nat) : Exec Block := do
  assert .surfaceParams (level < p.levels)
  let startAddr ← p.offsetAt level
  let endAddr ← if level = p.levels - 1 then .ok p.endAddr else p.offsetAt (level + 1)
  return ⟨startAddr, endAddr⟩

/-- The interval is contained in a single level. -/
def singleLevel (level endAddr : Nat) : Exec Unit := do
  if level ≠ (← p.levelOf endAddr) ∧ endAddr ≠ p.endAddr then
    assert .surfaceParams (endAddr = (← p.offsetAt (level + 1)))

def fromInterval (interval : Block) : Exec ImageParams := do
  let level ← p.levelOf interval.lower
  p.singleLevel level interval.upper
  let params := { p with width := p.width >>> level, stride := p.stride >>> level }
  let bpp ← getFormatBpp p.pixelFormat
  let strideTiledBytes := bytesInPixels bpp (mul32 params.stride p.tiledSize)
  assert .surfaceParams (p.stride = p.width ∨ level = 0)
  let start ← p.offsetAt level
  let alignedStart := add32 start (← alignDown (sub32 interval.lower start) strideTiledBytes)
  let alignedEnd := add32 start (← alignUp (sub32 interval.upper start) strideTiledBytes)
  let params ← if sub32 alignedEnd alignedStart > strideTiledBytes then do
      let rowBytes := bytesInPixels bpp params.stride
      if rowBytes = 0 then .error .undefinedBehaviour
      else
        pure { params with
          addr := alignedStart, height := sub32 alignedEnd alignedStart / rowBytes }
    else do
      assert .surfaceParams (sub32 alignedEnd alignedStart = strideTiledBytes)
      let tiledAlignment := bytesInPixels bpp p.tilePixels
      let alignedStart := add32 start (← alignDown (sub32 interval.lower start) tiledAlignment)
      let alignedEnd := add32 start (← alignUp (sub32 interval.upper start) tiledAlignment)
      let width := pixelsInBytes bpp (sub32 alignedEnd alignedStart) / p.tiledSize
      pure { params with
        addr := alignedStart, width := width, stride := width, height := p.tiledSize }
  { params with levels := 1 }.updateParams

/-- The corners of a sub-surface in pixels. Tiled surfaces run from the top to the bottom, linear
ones from the bottom to the top. -/
def getSubRect (sub : ImageParams) : Exec Rectangle := do
  let level ← p.levelOf sub.addr
  let bpp ← getFormatBpp p.pixelFormat
  let beginPixelIndex := pixelsInBytes bpp (sub32 sub.addr (← p.offsetAt level))
  assert .surfaceParams (p.stride = p.width ∨ level = 0)
  let strideLod := p.stride >>> level
  if p.isTiled then
    let x0 := (← remainder beginPixelIndex (mul32 strideLod 8)) / 8
    let y0 := mul32 (beginPixelIndex / mul32 strideLod 8) 8
    let heightLod := p.height >>> level
    return {
      left := x0
      top := sub32 heightLod y0
      right := add32 x0 sub.width
      bottom := sub32 heightLod (add32 y0 sub.height) }
  else
    let x0 ← remainder beginPixelIndex strideLod
    let y0 := beginPixelIndex / strideLod
    return { left := x0, top := add32 y0 sub.height, right := add32 x0 sub.width, bottom := y0 }

def getSubRectInterval (rect : Rectangle) (level : Nat) : Exec Block := do
  if rect.getHeight = 0 ∨ rect.getWidth = 0 then return ⟨0, 0⟩
  let rect ← if p.isTiled then do
      let left ← alignDown rect.left 8
      let bottom ← alignDown rect.bottom 8
      let right ← alignUp rect.right 8
      let top ← alignUp rect.top 8
      pure { left := mul32 left 8, bottom := bottom / 8, right := mul32 right 8, top := top / 8 }
    else pure rect
  let bpp ← getFormatBpp p.pixelFormat
  let strideTiled := (if p.isTiled then mul32 p.stride 8 else p.stride) >>> level
  let pixels := add32 (mul32 (sub32 rect.getHeight 1) strideTiled) rect.getWidth
  let pixelOffset := add32 (mul32 strideTiled
    (if p.isTiled then sub32 (p.height / 8) rect.top else rect.bottom)) rect.left
  let start ← p.offsetAt level
  return ⟨add32 start (bytesInPixels bpp pixelOffset),
    add32 start (bytesInPixels bpp (add32 pixelOffset pixels))⟩

def canSubRect (sub : ImageParams) : Exec Bool := do
  let level ← p.levelOf sub.addr
  if sub.addr < p.addr ∨ p.endAddr < sub.endAddr ∨ sub.pixelFormat ≠ p.pixelFormat ∨
      p.pixelFormat = none ∨ sub.isTiled ≠ p.isTiled then return false
  let bpp ← getFormatBpp p.pixelFormat
  if (← remainder (sub32 sub.addr (← p.offsetAt level)) (bytesInPixels bpp p.tilePixels)) ≠ 0 then
    return false
  if sub.stride ≠ p.stride >>> level ∧ p.tiledSize < sub.height then return false
  return (← p.getSubRect sub).right ≤ p.stride

end ImageParams

end EmuThreeDS.VideoCore
