import EmuThreeDS.Video.MortonImages

/-!
# Images in rows

What an image in tiles leaves in rows, tile by tile.
-/
namespace EmuThreeDS.VideoCore

open Blit Intervals

variable {depth : FloatDepth} {format : PixelFormat} {converted : Bool} {width height : Nat}
  {tiled linear : Span}

def tileData (format : PixelFormat) (tiled : Span) (k r : Nat) : UInt8 :=
  tiled.bytes (k * format.tileSize + r)

/-- Where a pixel of the image is in rows; `y` is counted from the top. -/
def imageTexel (format : PixelFormat) (converted : Bool) (width height x y : Nat) : Nat :=
  ((height - 1 - y) * width + x) * format.linearBytes converted

theorem tileStart_texel (image : GuestImage format width height) {k x y : Nat}
    (less : k < tileCount width height) (hy : y < 8) :
    tileStart format converted width height k + linearTexel format converted width x y =
      imageTexel format converted width height (k % (width / 8) * 8 + x)
        (k / (width / 8) * 8 + y) := by
  obtain ⟨-, -, row, -, tall⟩ := image.position less
  have rows : height - 1 - (k / (width / 8) * 8 + y) =
      height - 8 - k / (width / 8) * 8 + (7 - y) := by omega
  unfold tileStart linearTexel imageTexel
  rw [rows, ← Nat.add_mul, Nat.add_mul _ _ width]
  congr 1
  omega

variable (converted) in
theorem imageTexel_apart (image : GuestImage format width height) {k x y k' x' y' : Nat}
    (less : k < tileCount width height) (hx : x < 8) (hy : y < 8)
    (less' : k' < tileCount width height) (hx' : x' < 8) (hy' : y' < 8)
    (other : ¬ (k = k' ∧ x = x' ∧ y = y')) :
    tileStart format converted width height k + linearTexel format converted width x y +
        format.linearBytes converted ≤
      tileStart format converted width height k' + linearTexel format converted width x' y' ∨
    tileStart format converted width height k' + linearTexel format converted width x' y' +
        format.linearBytes converted ≤
      tileStart format converted width height k + linearTexel format converted width x y := by
  rw [tileStart_texel image less hy, tileStart_texel image less' hy']
  obtain ⟨-, column, row, wide, tall⟩ := image.position less
  obtain ⟨-, column', row', -, -⟩ := image.position less'
  have whole := Nat.div_add_mod' k (width / 8)
  have whole' := Nat.div_add_mod' k' (width / 8)
  generalize k % (width / 8) = t at *
  generalize k / (width / 8) = q at *
  generalize k' % (width / 8) = t' at *
  generalize k' / (width / 8) = q' at *
  refine rowPixels_apart _ (by omega) (by omega) ?_
  rintro ⟨rows, columns⟩
  obtain rfl : t = t' := by omega
  obtain rfl : q = q' := by omega
  exact other ⟨whole.symm.trans whole', by omega, by omega⟩

/-- The pixels of the tiles in front of the `i`-th one are in the rows. -/
structure Unswizzled (depth : FloatDepth) (format : PixelFormat) (converted : Bool)
    (width height : Nat) (tiled : Span) (i : Nat) (linear : Span) : Prop where
  size : linear.size = width * height * format.linearBytes converted
  texels : ∀ k < i, ∀ x < 8, ∀ y < 8, ∀ m v,
    (decodeTexel depth format converted (tileData format tiled k) x y)[m]? = some v →
    linear.bytes (tileStart format converted width height k +
      linearTexel format converted width x y + m) = v

theorem Unswizzled.texel {i k x y : Nat}
    (h : Unswizzled depth format converted width height tiled i linear) (less : k < i) (hx : x < 8)
    (hy : y < 8) : slice linear.bytes (tileStart format converted width height k +
        linearTexel format converted width x y)
        (decodeTexel depth format converted (tileData format tiled k) x y).length =
      decodeTexel depth format converted (tileData format tiled k) x y := by
  apply List.ext_getElem length_slice
  intro m _ inside
  simp only [slice, List.getElem_map, List.getElem_range]
  exact h.texels k less x hx y hy m _ (List.getElem?_eq_getElem inside)

theorem Unswizzled.turn (image : GuestImage format width height) {i : Nat}
    (less : i < tileCount width height)
    (size : tiled.size = tileCount width height * format.tileSize)
    (h : Unswizzled depth format converted width height tiled i linear) :
    ∃ next, copyTileToLinear depth format converted width tiled
        (tileStart format converted width height i) (i * format.tileSize) linear = .ok next ∧
      Unswizzled depth format converted width height tiled (i + 1) next := by
  have inside := image.tileStart_le converted less
  have fits := Nat.mul_le_mul_right format.tileSize (Nat.succ_le_of_lt less)
  have width8 : 8 ≤ width := by
    have positive := (image.position less).1
    omega
  rw [Nat.succ_mul] at fits
  unfold copyTileToLinear
  dsimp only
  rw [image.linearTileStride_eq converted (Nat.lt_of_le_of_lt (Nat.zero_le i) less), Span.subspan,
    if_pos (by rw [h.size]; exact inside), ok_bind, Span.subspan, if_pos (by rw [size]; exact fits),
    ok_bind, Span.write, if_pos (by rw [length_slice, h.size]; exact inside)]
  refine ⟨_, rfl, h.size, ?_⟩
  intro k hk x hx y hy m v value
  obtain ⟨within, byte⟩ := List.getElem?_eq_some_iff.mp value
  have length : (decodeTexel depth format converted (tileData format tiled k) x y).length ≤ _ :=
    length_decodeTexel_le x y
  dsimp only
  rw [blit_slice_of, Nat.zero_add]
  rcases Nat.lt_or_eq_of_le (Nat.le_of_lt_succ hk) with earlier | rfl
  · -- the pixels of this tile are apart from those that are there
    rw [← h.texels k earlier x hx y hy m v value]
    split_ifs with region
    · rw [mortonToLinearTile_outside]
      · congr 1
        omega
      · intro x' hx' y' hy'
        have apart := imageTexel_apart converted image (earlier.trans less) hx hy less
          hx' hy' (fun same => absurd same.1 earlier.ne)
        omega
    · rfl
  · have texel : linearTexel format converted width x y + format.linearBytes converted ≤
        (7 * width + 8) * format.linearBytes converted := linearTexel_le hx y
    rw [if_pos (by omega), show tileStart format converted width height k +
      linearTexel format converted width x y + m - tileStart format converted width height k =
        linearTexel format converted width x y + m by omega]
    exact (mortonToLinearTile_inside width8 hx hy within).trans byte

theorem mortonToLinear_run (depth : FloatDepth) (converted : Bool)
    (image : GuestImage format width height) (linear tiled : Span)
    (tiledSize : tiled.size = tiledBytes format width height)
    (linearSize : linear.size = width * height * format.linearBytes converted) :
    ∃ out, mortonToLinear depth format converted width height 0 (tiledBytes format width height)
        linear tiled = .ok out ∧
      Unswizzled depth format converted width height tiled (tileCount width height) out := by
  have bits := tileSize_bits format
  have positive : 0 < format.tileSize := by omega
  have whole := image.tiledBytes_eq
  have memory := image.memory
  unfold fcramSize at memory
  rw [whole] at tiledSize memory ⊢
  have start : Unswizzled depth format converted width height tiled 0 linear :=
    ⟨linearSize, nofun⟩
  have up : alignUp 0 format.tileSize = .ok 0 :=
    alignUp_round positive (by rw [roundUp_eq (Nat.dvd_zero _)]; decide)
  unfold mortonToLinear
  rw [up, ok_bind, alignDown_round positive, ok_bind, roundDown_eq (Nat.dvd_mul_left ..),
    assert_pos ⟨rfl, rfl⟩]
  split_ifs with some
  · have tiles : 0 < tileCount width height := Nat.pos_of_mul_pos_right some
    have turn (i : Nat) (less : i < tileCount width height) (span : Span)
        (kept : Unswizzled depth format converted width height tiled i span) :
        ∃ next, copyTileToLinear depth format converted width tiled
            (tileStart format converted width height (0 + i)) (0 + i * format.tileSize) span =
              .ok next ∧
          Unswizzled depth format converted width height tiled (i + 1) next := by
      rw [Nat.zero_add, Nat.zero_add]
      exact kept.turn image less tiledSize
    obtain ⟨cursor, last, run, kept, -⟩ := copyTiles_run image
      (Unswizzled depth format converted width height tiled) (Nat.zero_add _).le
      (Nat.le_mul_of_pos_right _ positive) (fun _ => image.firstTile_eq converted tiles) start turn
    refine ⟨last, ?_, kept⟩
    rw [Nat.zero_add] at run
    rw [sub32_eq (Nat.zero_le _) (by omega), Nat.sub_zero, tiledSize, Nat.min_self]
    dsimp only
    rw [run]
    rfl
  · have none : tileCount width height = 0 := by
      by_contra tiles
      exact some (Nat.mul_pos (Nat.pos_of_ne_zero tiles) positive)
    refine ⟨linear, rfl, ?_⟩
    rw [none]
    exact start

end EmuThreeDS.VideoCore

/-!
## Texels

`texture_decode.cpp`: texels of a texture in tiles, one at a time. They are the ones that
unswizzling the whole texture leaves in its rows.
-/
namespace EmuThreeDS.Texture

open Blit Color VideoCore

inductive TextureFormat where
  | rgba8 | rgb8 | rgb5a1 | rgb565 | rgba4 | ia8 | rg8 | i8 | a8 | ia4 | i4 | a4 | etc1 | etc1a4
  deriving DecidableEq

def pixelFormatFromTextureFormat : TextureFormat → PixelFormat
  | .rgba8 => .rgba8
  | .rgb8 => .rgb8
  | .rgb5a1 => .rgb5a1
  | .rgb565 => .rgb565
  | .rgba4 => .rgba4
  | .ia8 => .ia8
  | .rg8 => .rg8
  | .i8 => .i8
  | .a8 => .a8
  | .ia4 => .ia4
  | .i4 => .i4
  | .a4 => .a4
  | .etc1 => .etc1
  | .etc1a4 => .etc1a4

def calculateTileSize : TextureFormat → Nat
  | .rgba8 => 4 * 64
  | .rgb8 => 3 * 64
  | .rgb5a1 | .rgb565 | .rgba4 | .ia8 | .rg8 => 2 * 64
  | .i8 | .a8 | .ia4 => 1 * 64
  | .i4 | .a4 => 64 / 2
  | .etc1 => 4 * 8
  | .etc1a4 => 4 * 16

structure TextureInfo where
  width : Nat
  height : Nat
  stride : Nat
  format : TextureFormat

def TextureInfo.setDefaultStride (info : TextureInfo) : TextureInfo :=
  { info with stride := calculateTileSize info.format * (info.width / 8) }

/-- `TextureInfo::FromPicaRegister`, with the size that the register has. -/
def TextureInfo.fromPicaRegister (width height : Nat) (format : TextureFormat) : TextureInfo :=
  TextureInfo.setDefaultStride ⟨width, height, 0, format⟩

def lookupTexelInTile (source : Nat → UInt8) (x y : Nat) (info : TextureInfo)
    (disableAlpha : Bool) : Vec4 :=
  let mortonOffset := mortonInterleave x y
  -- a pointer to the pixel
  let pixel := fun bytes k => source (mortonOffset * bytes + k)
  let nibble : UInt8 :=
    let value := source (mortonOffset / 2)
    convert4To8 (if mortonOffset % 2 ≠ 0 then (value &&& 0xF0) >>> 4 else value &&& 0xF)
  match info.format with
  | .rgba8 =>
    let res := decodeRGBA8 (pixel 4)
    ⟨res.r, res.g, res.b, if disableAlpha then 255 else res.a⟩
  | .rgb8 =>
    let res := decodeRGB8 (pixel 3)
    ⟨res.r, res.g, res.b, 255⟩
  | .rgb5a1 =>
    let res := decodeRGB5A1 (pixel 2)
    ⟨res.r, res.g, res.b, if disableAlpha then 255 else res.a⟩
  | .rgb565 =>
    let res := decodeRGB565 (pixel 2)
    ⟨res.r, res.g, res.b, 255⟩
  | .rgba4 =>
    let res := decodeRGBA4 (pixel 2)
    ⟨res.r, res.g, res.b, if disableAlpha then 255 else res.a⟩
  | .ia8 =>
    -- without alpha, the intensity is shown as red and alpha as green
    if disableAlpha then ⟨pixel 2 1, pixel 2 0, 0, 255⟩
    else ⟨pixel 2 1, pixel 2 1, pixel 2 1, pixel 2 0⟩
  | .rg8 =>
    let res := decodeRG8 (pixel 2)
    ⟨res.r, res.g, 0, 255⟩
  | .i8 => ⟨pixel 1 0, pixel 1 0, pixel 1 0, 255⟩
  | .a8 =>
    if disableAlpha then ⟨pixel 1 0, pixel 1 0, pixel 1 0, 255⟩ else ⟨0, 0, 0, pixel 1 0⟩
  | .ia4 =>
    let i := convert4To8 ((pixel 1 0 &&& 0xF0) >>> 4)
    let a := convert4To8 (pixel 1 0 &&& 0xF)
    if disableAlpha then ⟨i, a, 0, 255⟩ else ⟨i, i, i, a⟩
  | .i4 => ⟨nibble, nibble, nibble, 255⟩
  | .a4 => if disableAlpha then ⟨nibble, nibble, nibble, 255⟩ else ⟨0, 0, 0, nibble⟩
  | format =>
    let hasAlpha := format = .etc1a4
    let subtileSize := if hasAlpha then 16 else 8
    let subtileIndex := x / 4 + 2 * (y / 4)
    let x := x % 4
    let y := y % 4
    let subtilePtr := fun k => source (subtileIndex * subtileSize + k)
    let alpha : UInt8 :=
      if hasAlpha then
        convert4To8 ((makeInt 8 subtilePtr >>> (4 * (x * 4 + y))) &&& 0xF).toUInt8
      else 255
    let subtilePtr := if hasAlpha then fun k => subtilePtr (8 + k) else subtilePtr
    let rgb := sampleETC1Subtile (makeInt 8 subtilePtr) x y
    ⟨rgb.r, rgb.g, rgb.b, if disableAlpha then 255 else alpha⟩

def lookupTexture (source : Nat → UInt8) (x y : Nat) (info : TextureInfo)
    (disableAlpha : Bool) : Vec4 :=
  let line := fun k => source (y / 8 * info.stride + k)
  let tile := fun k => line (x / 8 * calculateTileSize info.format + k)
  lookupTexelInTile tile (x % 8) (y % 8) info disableAlpha

variable {format : TextureFormat} {converted : Bool} {width height x y : Nat}

theorem calculateTileSize_eq (format : TextureFormat) :
    calculateTileSize format = (pixelFormatFromTextureFormat format).tileSize := by
  cases format <;> rfl

theorem linearBytes_four
    (decoded : converted = true ∨ (pixelFormatFromTextureFormat format).hasConversion = false) :
    (pixelFormatFromTextureFormat format).linearBytes converted = 4 := by
  rcases decoded with rfl | implicit
  · rfl
  · cases converted with
    | true => rfl
    | false => cases format <;> first | rfl | cases implicit

theorem high_nibble (v : UInt8) : (v &&& 0xF0) >>> 4 = v >>> 4 := by
  apply UInt8.eq_of_toBitVec_eq
  ext i hi
  interval_cases i <;> simp

theorem decodeTexel_eq (depth : FloatDepth) (tile : Nat → UInt8) (x y : Nat) (info : TextureInfo)
    (decoded : converted = true ∨
      (pixelFormatFromTextureFormat info.format).hasConversion = false) :
    decodeTexel depth (pixelFormatFromTextureFormat info.format) converted tile x y =
      (lookupTexelInTile tile x y info false).asArray := by
  obtain ⟨width, height, stride, format⟩ := info
  cases format with
  | rgba8 | rgb8 | rgb5a1 | rgb565 | rgba4 =>
    rcases decoded with rfl | none
    · simp only [lookupTexelInTile]
      rfl
    · cases none
  | ia8 | rg8 | i8 | a8 | ia4 | etc1 | etc1a4 =>
    simp only [lookupTexelInTile]
    rfl
  | i4 | a4 =>
    simp only [lookupTexelInTile, high_nibble]
    rfl

theorem tileIndex (image : GuestImage (pixelFormatFromTextureFormat format) width height)
    (hx : x < width) (hy : y < height) : y / 8 * (width / 8) + x / 8 < tileCount width height ∧
      (y / 8 * (width / 8) + x / 8) % (width / 8) = x / 8 ∧
      (y / 8 * (width / 8) + x / 8) / (width / 8) = y / 8 := by
  have columns := image.columns
  have rows := image.rows
  have column : x / 8 < width / 8 := by omega
  have row : y / 8 + 1 ≤ height / 8 := by omega
  obtain ⟨quotient, rest⟩ := div_mod_of_lt (y / 8) column
  refine ⟨?_, rest, quotient⟩
  have product := Nat.mul_le_mul_left (width / 8) row
  rw [Nat.mul_succ, Nat.mul_comm _ (y / 8)] at product
  exact Nat.lt_of_lt_of_le (Nat.add_lt_add_left column _) product

theorem lookupTexture_eq (source : Nat → UInt8) (size width height x y : Nat)
    (format : TextureFormat) (disableAlpha : Bool) :
    lookupTexture source x y (.fromPicaRegister width height format) disableAlpha =
      lookupTexelInTile (tileData (pixelFormatFromTextureFormat format) ⟨size, source⟩
        (y / 8 * (width / 8) + x / 8)) (x % 8) (y % 8)
        (.fromPicaRegister width height format) disableAlpha := by
  unfold lookupTexture
  dsimp only
  congr 1
  funext r
  dsimp only [TextureInfo.fromPicaRegister, TextureInfo.setDefaultStride]
  congr 1
  rw [← calculateTileSize_eq]
  ring

/-- Each texel of a texture that is unswizzled is the one that is looked up. -/
theorem mortonToLinear_lookupTexture (depth : FloatDepth)
    (image : GuestImage (pixelFormatFromTextureFormat format) width height)
    (decoded : converted = true ∨ (pixelFormatFromTextureFormat format).hasConversion = false)
    (source linear : Span)
    (sourceSize : source.size = tiledBytes (pixelFormatFromTextureFormat format) width height)
    (linearSize : linear.size = width * height * 4) :
    ∃ out, mortonToLinear depth (pixelFormatFromTextureFormat format) converted width height 0
        (tiledBytes (pixelFormatFromTextureFormat format) width height) linear source = .ok out ∧
      ∀ x < width, ∀ y < height, slice out.bytes (((height - 1 - y) * width + x) * 4) 4 =
        (lookupTexture source.bytes x y (.fromPicaRegister width height format) false).asArray := by
  have four := linearBytes_four decoded
  obtain ⟨out, run, all⟩ := mortonToLinear_run depth converted image linear source sourceSize
    (by rw [four]; exact linearSize)
  refine ⟨out, run, ?_⟩
  intro x hx y hy
  obtain ⟨less, rest, quotient⟩ := tileIndex image hx hy
  have texel := all.texel less (Nat.mod_lt x (by decide)) (Nat.mod_lt y (by decide))
  have decode : decodeTexel depth (pixelFormatFromTextureFormat format) converted
      (tileData (pixelFormatFromTextureFormat format) source (y / 8 * (width / 8) + x / 8))
      (x % 8) (y % 8) = _ :=
    decodeTexel_eq depth _ (x % 8) (y % 8) (.fromPicaRegister width height format) decoded
  rw [tileStart_texel image less (Nat.mod_lt y (by decide)), rest, quotient, Nat.div_add_mod',
    Nat.div_add_mod', imageTexel, four, decode] at texel
  rw [lookupTexture_eq source.bytes source.size]
  exact texel

theorem mortonToLinear_lookupTexture_tile :
    ∃ out, mortonToLinear ⟨id, id⟩ .etc1 false 8 16 0 64 ⟨512, fun _ => 0⟩ ⟨64, Nat.toUInt8⟩ =
        .ok out ∧ ∀ x < 8, ∀ y < 16, slice out.bytes (((16 - 1 - y) * 8 + x) * 4) 4 =
        (lookupTexture Nat.toUInt8 x y (.fromPicaRegister 8 16 .etc1) false).asArray := by
  have image : GuestImage (pixelFormatFromTextureFormat .etc1) 8 16 :=
    ⟨rfl, rfl, by decide⟩
  exact mortonToLinear_lookupTexture ⟨id, id⟩ image (.inr rfl) ⟨64, Nat.toUInt8⟩
    ⟨512, fun _ => 0⟩ rfl rfl

end EmuThreeDS.Texture
