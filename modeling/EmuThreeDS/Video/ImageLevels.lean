import EmuThreeDS.Video.SubRects

/-!
# The levels of an image

What `UpdateParams` leaves when no size wraps: where each level starts and ends.
-/
namespace EmuThreeDS.VideoCore.ImageParams

variable (p : ImageParams) (bpp : Nat)

def topPixels : Nat :=
  if p.levels ≠ 1 then p.width * p.height
  else if p.isTiled then p.stride * 8 * (p.height / 8 - 1) + p.width * 8
  else p.stride * (p.height - 1) + p.width

def levelPixels (level : Nat) : Nat :=
  if p.levels ≠ 1 then (p.width >>> level) * (p.height >>> level) else p.topPixels

def bytesBefore : Nat → Nat
  | 0 => 0
  | level + 1 => bytesBefore level + p.levelPixels level * bpp / 8

/-- An image that `UpdateParams` has been called on, with a size and an end that 32 bits hold. -/
structure Settled : Prop where
  updated : p.updateParams = .ok p
  format : getFormatBpp p.pixelFormat = .ok bpp
  array : p.mipmapOffsets.length = maxPicaLevels
  some : 0 < p.levels
  wide : 0 < p.width
  high : p.tiledSize ≤ p.height
  tall : p.height < 0x100000000
  stride : p.stride * 8 < 0x100000000
  bits : p.topPixels * bpp < 0x100000000
  word : p.addr + p.bytesBefore bpp p.levels < 0x100000000

variable {p : ImageParams} {bpp level : Nat}

theorem levelPixels_zero (p : ImageParams) : p.levelPixels 0 = p.topPixels := by
  unfold levelPixels
  split_ifs with several
  · rw [topPixels, if_pos several]
    rfl
  · rfl

theorem topPixels_flat (single : p.levels = 1) : p.topPixels =
    if p.isTiled then p.stride * 8 * (p.height / 8 - 1) + p.width * 8
    else p.stride * (p.height - 1) + p.width := if_neg fun several => several single

theorem levelPixels_flat (single : p.levels = 1) : p.levelPixels level = p.topPixels :=
  if_neg fun several => several single

theorem bytesInPixels_eq {pixels : Nat} (h : pixels * bpp < 0x100000000) :
    bytesInPixels bpp pixels = pixels * bpp / 8 := by
  rw [bytesInPixels, mul32_eq h]

theorem shiftRight_half (n k : Nat) : (n / 2) >>> k = n >>> (k + 1) := by
  rw [Nat.shiftRight_eq_div_pow, Nat.shiftRight_eq_div_pow, Nat.div_div_eq_div_mul, pow_succ']

def pyramid (bpp : Nat) : Nat → Nat → Nat → Nat
  | 0, _, _ => 0
  | levels + 1, width, height => width * height * bpp / 8 + pyramid bpp levels (width / 2) (height / 2)

theorem pyramid_succ (levels width height : Nat) : pyramid bpp (levels + 1) width height =
    pyramid bpp levels width height + (width >>> levels) * (height >>> levels) * bpp / 8 := by
  induction levels generalizing width height with
  | zero => simp [pyramid]
  | succ levels ih =>
    rw [pyramid, ih, pyramid, shiftRight_half, shiftRight_half, Nat.add_assoc]

theorem bytesBefore_pyramid (several : p.levels ≠ 1) (level : Nat) :
    p.bytesBefore bpp level = pyramid bpp level p.width p.height := by
  induction level with
  | zero => rfl
  | succ level ih => rw [bytesBefore, ih, pyramid_succ, levelPixels, if_pos several]

theorem half_fits {width height : Nat} (h : width * height * bpp < 0x100000000) :
    width / 2 * (height / 2) * bpp < 0x100000000 :=
  (Nat.mul_le_mul_right bpp
    (Nat.mul_le_mul (Nat.div_le_self ..) (Nat.div_le_self ..))).trans_lt h

theorem levelOffsets_get {levels width height offset : Nat} (positive : 0 < bpp)
    (bits : width * height * bpp < 0x100000000)
    (word : offset + pyramid bpp levels width height < 0x100000000) (less : level < levels) :
    (levelOffsets bpp levels width height offset)[level]? =
      some (offset + pyramid bpp level width height) := by
  induction levels generalizing level width height offset with
  | zero => cases less
  | succ levels ih =>
    cases level with
    | zero => rfl
    | succ level =>
      have pixels : mul32 width height = width * height :=
        mul32_eq ((Nat.le_mul_of_pos_right _ positive).trans_lt bits)
      rw [pyramid] at word
      rw [levelOffsets, List.getElem?_cons_succ, pixels, bytesInPixels_eq bits,
        add32_eq (by omega), ih (half_fits bits) (by omega) (Nat.lt_of_succ_lt_succ less),
        pyramid, Nat.add_assoc]

theorem levelSizes_eq {levels width height size : Nat} (positive : 0 < bpp)
    (bits : width * height * bpp < 0x100000000)
    (word : size + pyramid bpp levels width height < 0x100000000) :
    levelSizes bpp levels width height size = size + pyramid bpp levels width height := by
  induction levels generalizing width height size with
  | zero => rfl
  | succ levels ih =>
    have pixels : mul32 width height = width * height :=
      mul32_eq ((Nat.le_mul_of_pos_right _ positive).trans_lt bits)
    rw [pyramid] at word
    rw [levelSizes, pixels, bytesInPixels_eq bits, add32_eq (by omega),
      ih (half_fits bits) (by omega), pyramid, Nat.add_assoc]

theorem levelOffsets_length (levels width height offset : Nat) :
    (levelOffsets bpp levels width height offset).length = levels := by
  induction levels generalizing width height offset with
  | zero => rfl
  | succ levels ih => rw [levelOffsets, List.length_cons, ih]

section

variable {q : ImageParams}

theorem updateParams_several (several : p.levels ≠ 1) (format : getFormatBpp p.pixelFormat = .ok bpp)
    (run : p.updateParams = .ok q) : q.stride = p.width ∧ p.levels ≤ maxPicaLevels ∧
      q.mipmapOffsets = levelOffsets bpp p.levels p.width p.height p.addr ++
        p.mipmapOffsets.drop p.levels ∧
      q.endAddr = add32 p.addr (levelSizes bpp p.levels p.width p.height 0) := by
  unfold updateParams at run
  dsimp only at run
  rw [format, ok_bind] at run
  rw [if_pos several] at run
  obtain ⟨_, square, run⟩ := bind_eq_ok.mp run
  obtain ⟨r, offsets, run⟩ := bind_eq_ok.mp run
  obtain ⟨_, few, offsets⟩ := bind_eq_ok.mp offsets
  obtain rfl := Except.ok.inj offsets
  obtain ⟨size, sizes, run⟩ := bind_eq_ok.mp run
  obtain ⟨_, -, sizes⟩ := bind_eq_ok.mp sizes
  obtain rfl := Except.ok.inj sizes
  obtain rfl := Except.ok.inj run
  exact ⟨assert_eq_ok.mp square, (assert_eq_ok.mp few).1, rfl, rfl⟩

theorem updateParams_stride (run : p.updateParams = .ok p) (wide : 0 < p.width) : 0 < p.stride := by
  obtain ⟨bpp, format, -⟩ := bind_eq_ok.mp run
  rcases Nat.eq_zero_or_pos p.stride with zero | positive
  · by_cases single : p.levels = 1
    · unfold updateParams at run
      dsimp only at format run
      rw [format, ok_bind, if_neg (fun several => several single)] at run
      have stride := congrArg ImageParams.stride (Except.ok.inj run)
      simp only [zero, if_true] at stride
      omega
    · have square := (updateParams_several single format run).1
      omega
  · exact positive

section

variable (single : p.levels = 1) (stride : 0 < p.stride)
  (format : getFormatBpp p.pixelFormat = .ok bpp)
include single stride format

theorem updateParams_one : p.updateParams = .ok { p with
      type := (p.pixelFormat.map PixelFormat.type).getD .invalid
      mipmapOffsets := p.mipmapOffsets.set 0 p.addr
      size := p.flatSize bpp
      endAddr := add32 p.addr (p.flatSize bpp) } := by
  have same : (if p.stride = 0 then p.width else p.stride) = p.stride := if_neg (by omega)
  unfold updateParams
  dsimp only
  rw [format, ok_bind, same, if_neg (fun several => several single)]
  rfl

theorem updateParams_flat (run : p.updateParams = .ok q) :
    q = { p with
      type := (p.pixelFormat.map PixelFormat.type).getD .invalid
      mipmapOffsets := p.mipmapOffsets.set 0 p.addr
      size := p.flatSize bpp
      endAddr := add32 p.addr (p.flatSize bpp) } :=
  Except.ok.inj (run.symm.trans (updateParams_one single stride format))

end

end

theorem flatSize_eq (single : p.levels = 1) (positive : 0 < bpp) (high : p.tiledSize ≤ p.height)
    (bits : p.topPixels * bpp < 0x100000000) (tall : p.height < 0x100000000)
    (stride : p.stride * 8 < 0x100000000) : p.flatSize bpp = p.topPixels * bpp / 8 := by
  have pixels : p.topPixels < 0x100000000 :=
    (Nat.le_mul_of_pos_right _ positive).trans_lt bits
  rw [topPixels_flat single] at pixels bits ⊢
  unfold flatSize
  unfold tiledSize at high
  cases tiled : p.isTiled with
  | true =>
    simp only [tiled, if_true] at pixels bits high ⊢
    rw [sub32_eq (by omega) (by omega), mul32_eq stride, mul32_eq (by omega),
      mul32_eq (by omega), add32_eq pixels, bytesInPixels_eq bits]
  | false =>
    simp only [tiled, Bool.false_eq_true, if_false] at pixels bits high ⊢
    rw [sub32_eq high tall, mul32_eq (by omega), add32_eq pixels, bytesInPixels_eq bits]

theorem Settled.levelInterval_eq (h : p.Settled bpp)
    (less : level < p.levels) : p.offsetAt level = .ok (p.addr + p.bytesBefore bpp level) ∧
      p.levelInterval level = .ok
        ⟨p.addr + p.bytesBefore bpp level, p.addr + p.bytesBefore bpp (level + 1)⟩ := by
  have positive : 0 < bpp := by
    rcases bits_of_format h.format with rfl | rfl | rfl | rfl | rfl <;> decide
  have word := h.word
  by_cases single : p.levels = 1
  · obtain rfl : level = 0 := by omega
    have stride := updateParams_stride h.updated h.wide
    have flat := updateParams_flat single stride h.format h.updated
    have offset : p.offsetAt 0 = .ok p.addr := by
      have array := congrArg mipmapOffsets flat
      unfold offsetAt
      rw [array, List.getElem?_set_self]
      rw [h.array]
      decide
    have size := congrArg endAddr flat
    have bytes : p.flatSize bpp = p.bytesBefore bpp 1 := by
      rw [flatSize_eq single positive h.high h.bits h.tall h.stride, bytesBefore, bytesBefore,
        levelPixels_zero, Nat.zero_add]
    rw [single] at word
    rw [bytes, add32_eq word] at size
    refine ⟨offset, ?_⟩
    simp only [levelInterval, single, assert_pos, offset, ok_bind, Nat.sub_self, if_true, size,
      Nat.zero_lt_one, Nat.zero_add, pure_eq_ok]
    rfl
  · obtain ⟨square, few, array, size⟩ := updateParams_several single h.format h.updated
    have bits : p.width * p.height * bpp < 0x100000000 := by
      have bits := h.bits
      rwa [topPixels, if_pos single] at bits
    rw [bytesBefore_pyramid single] at word
    have offset (k : Nat) (less : k < p.levels) :
        p.offsetAt k = .ok (p.addr + p.bytesBefore bpp k) := by
      unfold offsetAt
      rw [array, List.getElem?_append_left (by rw [levelOffsets_length]; exact less),
        levelOffsets_get positive bits word less, bytesBefore_pyramid single]
    rw [levelSizes_eq positive bits (by omega), Nat.zero_add, add32_eq word] at size
    refine ⟨offset level less, ?_⟩
    simp only [levelInterval, less, assert_pos, offset level less, ok_bind]
    split_ifs with last
    · rw [size, ← bytesBefore_pyramid single, last, Nat.sub_add_cancel h.some]
      rfl
    · rw [offset (level + 1) (by omega)]
      rfl

end EmuThreeDS.VideoCore.ImageParams
