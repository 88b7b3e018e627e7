import EmuThreeDS.Video.ImageLevels
import Mathlib.Tactic.Ring

/-!
# The interval of a rectangle

Which bytes `GetSubRectInterval` gives for a rectangle of a level, against the addresses of the
rectangle's pixels.
-/
namespace EmuThreeDS.VideoCore.ImageParams

open Intervals

/-- A rectangle with pixels inside a level; its edges are edges of tiles, if there are tiles. -/
structure InLevel (p : ImageParams) (level : Nat) (rect : Rectangle) : Prop where
  columns : rect.left < rect.right
  right : rect.right ≤ p.width >>> level
  rows : rect.bottom < rect.top
  top : rect.top ≤ p.height >>> level
  tiles : p.isTiled = true → rect.left % 8 = 0 ∧ rect.right % 8 = 0 ∧ rect.bottom % 8 = 0 ∧
    rect.top % 8 = 0 ∧ (p.height >>> level) % 8 = 0

def firstBit (p : ImageParams) (level offset bpp : Nat) (rect : Rectangle) : Nat :=
  p.pixelBit level offset bpp rect.left (if p.isTiled then rect.top - 1 else rect.bottom)

def lastBit (p : ImageParams) (level offset bpp : Nat) (rect : Rectangle) : Nat :=
  p.pixelBit level offset bpp (rect.right - 1) (if p.isTiled then rect.bottom else rect.top - 1) +
    bpp

/-- The interval of each rectangle inside the level starts with its first pixel, ends with its
last one, and is inside the level. -/
def CoversRects (p : ImageParams) (level bpp : Nat) : Prop :=
  ∀ rect, p.InLevel level rect → ∃ interval whole,
    p.getSubRectInterval rect level = .ok interval ∧ p.levelInterval level = .ok whole ∧
      8 * interval.lower = p.firstBit level whole.lower bpp rect ∧
      8 * interval.upper = p.lastBit level whole.lower bpp rect ∧
      whole.lower ≤ interval.lower ∧ interval.upper ≤ whole.upper

structure FullWidth (p sub : ImageParams) (level bpp row : Nat) (whole : Block) : Prop where
  interval : p.levelInterval level = .ok whole
  lower : whole.lower ≤ sub.addr
  start : (sub.addr - whole.lower) * 8 = row * ((p.stride >>> level) * p.tiledSize) * bpp
  same : sub.isTiled = p.isTiled
  flat : sub.levels = 1
  width : sub.width = p.width >>> level
  stride : sub.stride = p.stride >>> level
  size : 8 * sub.endAddr = 8 * sub.addr + sub.topPixels * bpp
  wide : 0 < sub.width
  high : 0 < sub.height
  rows : row * p.tiledSize + sub.height ≤ p.height >>> level
  tiles : p.isTiled = true → sub.height % 8 = 0 ∧ sub.width % 8 = 0 ∧ (p.height >>> level) % 8 = 0

/-- `GetSubRectInterval` gives back the interval of such rows from their rectangle. -/
def InvertsSubRect (p : ImageParams) (level bpp : Nat) : Prop :=
  ∀ sub row whole, p.FullWidth sub level bpp row whole → ∃ rect,
    p.getSubRect sub = .ok rect ∧ p.levelOf sub.addr = .ok level ∧
      p.getSubRectInterval rect level = .ok sub.getInterval

/-- The level is the first one or linear, and linear pixels fill bytes; or there is no such
rectangle inside the level. -/
def LevelSupported (p : ImageParams) (level bpp : Nat) : Prop :=
  (if p.isTiled then level = 0 else bpp ≠ 4) ∨ ∀ rect, ¬ p.InLevel level rect

variable {p sub : ImageParams} {level offset bpp row : Nat} {rect : Rectangle} {whole : Block}

def firstIndex (p : ImageParams) (level : Nat) (rect : Rectangle) : Nat :=
  if p.isTiled then
    ((p.height >>> level) - rect.top) / 8 * ((p.stride >>> level) * 8) + rect.left * 8
  else rect.bottom * (p.stride >>> level) + rect.left

def lastIndex (p : ImageParams) (level : Nat) (rect : Rectangle) : Nat :=
  if p.isTiled then
    (((p.height >>> level) - rect.bottom) / 8 - 1) * ((p.stride >>> level) * 8) + rect.right * 8
  else (rect.top - 1) * (p.stride >>> level) + rect.right

variable {x y a b last addr : Nat}

theorem mortonInterleave_corner (hx : x % 8 = 7) (hy : y % 8 = 7) : mortonInterleave x y = 63 := by
  simp [mortonInterleave, hx, hy]

theorem mortonInterleave_origin (hx : x % 8 = 0) (hy : y % 8 = 0) : mortonInterleave x y = 0 := by
  simp [mortonInterleave, hx, hy]

theorem firstBit_eq (h : p.InLevel level rect) :
    p.firstBit level offset bpp rect = 8 * offset + p.firstIndex level rect * bpp := by
  have rows := h.rows
  unfold firstBit firstIndex pixelBit memoryRow pixelIndex
  cases tiled : p.isTiled with
  | true =>
    obtain ⟨left, -, -, above, high⟩ := h.tiles tiled
    have line : (p.height >>> level) - 1 - (rect.top - 1) = (p.height >>> level) - rect.top := by
      omega
    simp only [if_true]
    rw [line, mortonInterleave_origin left (by omega)]
    congr 2
    omega
  | false => simp only [Bool.false_eq_true, if_false]

theorem lastBit_eq (h : p.InLevel level rect) :
    p.lastBit level offset bpp rect = 8 * offset + p.lastIndex level rect * bpp := by
  have columns := h.columns
  have rows := h.rows
  have top := h.top
  unfold lastBit lastIndex pixelBit memoryRow pixelIndex
  cases tiled : p.isTiled with
  | true =>
    obtain ⟨left, right, below, above, high⟩ := h.tiles tiled
    have line : ((p.height >>> level) - 1 - rect.bottom) / 8 =
        ((p.height >>> level) - rect.bottom) / 8 - 1 := by omega
    simp only [if_true]
    rw [line, mortonInterleave_corner (by omega) (by omega), Nat.add_assoc, ← Nat.succ_mul]
    congr 2
    omega
  | false =>
    simp only [Bool.false_eq_true, if_false]
    rw [Nat.add_assoc, ← Nat.succ_mul]
    congr 2
    omega

theorem lastIndex_le (settled : p.Settled bpp) (less : level < p.levels)
    (h : p.InLevel level rect) (first : p.isTiled = true → level = 0) :
    p.lastIndex level rect ≤ p.levelPixels level := by
  have right := h.right
  have rows := h.rows
  have top := h.top
  unfold lastIndex
  by_cases single : p.levels = 1
  · obtain rfl : level = 0 := by omega
    rw [levelPixels_flat single, topPixels_flat single]
    split_ifs with tiled
    · obtain ⟨-, -, below, -, high⟩ := h.tiles tiled
      rw [Nat.shiftRight_zero] at high
      rw [Nat.mul_comm]
      refine Nat.add_le_add (Nat.mul_le_mul_left _ ?_) (Nat.mul_le_mul_right 8 right)
      omega
    · rw [Nat.mul_comm]
      exact Nat.add_le_add (Nat.mul_le_mul_left _ (by omega)) right
  · have square := (updateParams_several single settled.format settled.updated).1
    rw [levelPixels, square]
    split_ifs with tiled
    · obtain rfl := first tiled
      obtain ⟨-, -, below, -, high⟩ := h.tiles tiled
      rw [Nat.shiftRight_zero] at right top high ⊢
      obtain ⟨tiles, eq⟩ : ∃ tiles, p.height = 8 * tiles := ⟨p.height / 8, by omega⟩
      calc ((p.height - rect.bottom) / 8 - 1) * (p.width * 8) + rect.right * 8
          ≤ (tiles - 1) * (p.width * 8) + p.width * 8 :=
            Nat.add_le_add (Nat.mul_le_mul_right _ (by omega)) (Nat.mul_le_mul_right 8 right)
        _ = (tiles - 1 + 1) * (p.width * 8) := by rw [Nat.succ_mul]
        _ = tiles * (p.width * 8) := by rw [Nat.sub_add_cancel (by omega)]
        _ = p.width * p.height := by rw [eq]; ring
    · calc (rect.top - 1) * (p.width >>> level) + rect.right
          ≤ (rect.top - 1) * (p.width >>> level) + (p.width >>> level) :=
            Nat.add_le_add_left right _
        _ = (rect.top - 1 + 1) * (p.width >>> level) := by rw [Nat.succ_mul]
        _ = rect.top * (p.width >>> level) := by rw [Nat.sub_add_cancel (by omega)]
        _ ≤ (p.height >>> level) * (p.width >>> level) := Nat.mul_le_mul_right _ top
        _ = (p.width >>> level) * (p.height >>> level) := Nat.mul_comm ..

theorem distance32_eq (le : a ≤ b) (near : b - a ≤ 0x80000000)
    (word : b < 0x100000000) : distance32 a b = b - a ∧ distance32 b a = b - a := by
  unfold distance32 sub32
  omega

theorem distance32_pos (less : a < b) (word : b < 0x100000000) :
    0 < distance32 a b ∧ 0 < distance32 b a := by
  unfold distance32 sub32
  omega

theorem alignDown_eight (h : a % 8 = 0) : alignDown a 8 = .ok a := by
  simp [alignDown, remainder, h]

theorem alignUp_eight (h : a % 8 = 0) : alignUp a 8 = .ok a := by
  simp [alignUp, remainder, h]

/-- The end of the loop-free computation, on pixels that do not wrap. -/
theorem interval_of_pixels (start first pixels : Nat) (sum : first + pixels = last)
    (bits : last * bpp < 0x100000000) (word : start + last * bpp / 8 < 0x100000000)
    (positive : 0 < bpp) : add32 start (bytesInPixels bpp first) = start + first * bpp / 8 ∧
      add32 start (bytesInPixels bpp (add32 first pixels)) = start + last * bpp / 8 := by
  have small : last < 0x100000000 := (Nat.le_mul_of_pos_right _ positive).trans_lt bits
  have less : first * bpp ≤ last * bpp := Nat.mul_le_mul_right _ (by omega)
  rw [add32_eq (a := first) (by omega), sum, bytesInPixels_eq bits,
    bytesInPixels_eq (less.trans_lt bits), add32_eq word, add32_eq (by omega)]
  exact ⟨rfl, rfl⟩

theorem getSubRectInterval_tiled (h : p.InLevel 0 rect) (tiled : p.isTiled = true)
    (format : getFormatBpp p.pixelFormat = .ok bpp) (start : p.offsetAt 0 = .ok offset)
    (tall : p.height < 0x100000000) (stride : p.stride * 8 < 0x100000000)
    (small : p.lastIndex 0 rect < 0x40000000) (bits : p.lastIndex 0 rect * bpp < 0x100000000)
    (word : offset + p.lastIndex 0 rect * bpp / 8 < 0x100000000) : p.getSubRectInterval rect 0 = .ok
      ⟨offset + p.firstIndex 0 rect * bpp / 8, offset + p.lastIndex 0 rect * bpp / 8⟩ := by
  have positive : 0 < bpp := by
    rcases bits_of_format format with rfl | rfl | rfl | rfl | rfl <;> decide
  obtain ⟨leftEdge, rightEdge, bottomEdge, topEdge, high⟩ := h.tiles tiled
  have columns := h.columns
  have rows := h.rows
  have top := h.top
  rw [Nat.shiftRight_zero] at top high
  have first : p.firstIndex 0 rect = p.stride * 8 * (p.height / 8 - rect.top / 8) + rect.left * 8 := by
    have line : (p.height - rect.top) / 8 = p.height / 8 - rect.top / 8 := by omega
    simp only [firstIndex, tiled, if_true, Nat.shiftRight_zero, line]
    rw [Nat.mul_comm (p.stride * 8)]
  have last : p.lastIndex 0 rect =
      (p.height / 8 - rect.bottom / 8 - 1) * (p.stride * 8) + rect.right * 8 := by
    have line : (p.height - rect.bottom) / 8 - 1 = p.height / 8 - rect.bottom / 8 - 1 := by omega
    simp only [lastIndex, tiled, if_true, Nat.shiftRight_zero, line]
  have split : (p.height / 8 - rect.bottom / 8 - 1) * (p.stride * 8) =
      p.stride * 8 * (p.height / 8 - rect.top / 8) +
        (rect.top / 8 - rect.bottom / 8 - 1) * (p.stride * 8) := by
    rw [Nat.mul_comm (p.stride * 8), ← Nat.add_mul]
    congr 1
    omega
  have height := (distance32_eq (a := rect.bottom / 8) (b := rect.top / 8) (by omega) (by omega)
    (by omega)).1
  have width := (distance32_eq (a := rect.left * 8) (b := rect.right * 8) (by omega) (by omega)
    (by omega)).2
  have some : ¬ (rect.getHeight = 0 ∨ rect.getWidth = 0) := by
    have height := (distance32_pos rows (by omega)).1
    have width := (distance32_pos columns (by omega)).2
    rw [Rectangle.getHeight, Rectangle.getWidth]
    omega
  obtain ⟨lower, upper⟩ := interval_of_pixels offset (p.firstIndex 0 rect)
    ((rect.top / 8 - rect.bottom / 8 - 1) * (p.stride * 8) +
      (rect.right * 8 - rect.left * 8)) (by omega) bits word positive
  have lines : sub32 (rect.top / 8 - rect.bottom / 8) 1 = rect.top / 8 - rect.bottom / 8 - 1 :=
    sub32_eq (by omega) (by omega)
  have above : sub32 (p.height / 8) (rect.top / 8) = p.height / 8 - rect.top / 8 :=
    sub32_eq (by omega) (by omega)
  have left : mul32 rect.left 8 = rect.left * 8 := mul32_eq (by omega)
  have right : mul32 rect.right 8 = rect.right * 8 := mul32_eq (by omega)
  have pixels : add32 (mul32 (rect.top / 8 - rect.bottom / 8 - 1) (p.stride * 8))
      (rect.right * 8 - rect.left * 8) =
      (rect.top / 8 - rect.bottom / 8 - 1) * (p.stride * 8) + (rect.right * 8 - rect.left * 8) := by
    rw [mul32_eq (by omega), add32_eq (by omega)]
  have front : add32 (mul32 (p.stride * 8) (p.height / 8 - rect.top / 8)) (rect.left * 8) =
      p.firstIndex 0 rect := by
    rw [mul32_eq (by omega), add32_eq (by omega), first]
  unfold getSubRectInterval
  rw [if_neg some]
  simp only [tiled, if_true, alignDown_eight leftEdge, alignDown_eight bottomEdge,
    alignUp_eight rightEdge, alignUp_eight topEdge, ok_bind, pure_eq_ok, format, start,
    Nat.shiftRight_zero, mul32_eq stride, Rectangle.getHeight, Rectangle.getWidth, left, right,
    height, width, lines, above, pixels, front, lower, upper]

theorem getSubRectInterval_linear (h : p.InLevel level rect) (linear : p.isTiled = false)
    (format : getFormatBpp p.pixelFormat = .ok bpp) (start : p.offsetAt level = .ok offset)
    (stride : 0 < p.stride >>> level) (small : p.lastIndex level rect < 0x40000000)
    (bits : p.lastIndex level rect * bpp < 0x100000000)
    (word : offset + p.lastIndex level rect * bpp / 8 < 0x100000000) :
    p.getSubRectInterval rect level = .ok
      ⟨offset + p.firstIndex level rect * bpp / 8, offset + p.lastIndex level rect * bpp / 8⟩ := by
  have positive : 0 < bpp := by
    rcases bits_of_format format with rfl | rfl | rfl | rfl | rfl <;> decide
  have columns := h.columns
  have rows := h.rows
  have first : p.firstIndex level rect = (p.stride >>> level) * rect.bottom + rect.left := by
    rw [firstIndex, linear, Nat.mul_comm _ rect.bottom]
    rfl
  have last : p.lastIndex level rect = (rect.top - 1) * (p.stride >>> level) + rect.right := by
    rw [lastIndex, linear]
    rfl
  have split : (rect.top - 1) * (p.stride >>> level) = (p.stride >>> level) * rect.bottom +
      (rect.top - rect.bottom - 1) * (p.stride >>> level) := by
    rw [Nat.mul_comm (p.stride >>> level), ← Nat.add_mul]
    congr 1
    omega
  have short : rect.top - 1 ≤ (rect.top - 1) * (p.stride >>> level) :=
    Nat.le_mul_of_pos_right _ stride
  have height := (distance32_eq rows.le (by omega) (by omega)).1
  have width := (distance32_eq columns.le (by omega) (by omega)).2
  have some : ¬ (rect.getHeight = 0 ∨ rect.getWidth = 0) := by
    rw [Rectangle.getHeight, Rectangle.getWidth]
    omega
  obtain ⟨lower, upper⟩ := interval_of_pixels offset (p.firstIndex level rect)
    ((rect.top - rect.bottom - 1) * (p.stride >>> level) + (rect.right - rect.left))
    (by omega) bits word positive
  have lines : sub32 (rect.top - rect.bottom) 1 = rect.top - rect.bottom - 1 :=
    sub32_eq (by omega) (by omega)
  have pixels : add32 (mul32 (rect.top - rect.bottom - 1) (p.stride >>> level))
      (rect.right - rect.left) =
      (rect.top - rect.bottom - 1) * (p.stride >>> level) + (rect.right - rect.left) := by
    rw [mul32_eq (by omega), add32_eq (by omega)]
  have front : add32 (mul32 (p.stride >>> level) rect.bottom) rect.left =
      p.firstIndex level rect := by
    rw [mul32_eq (by omega), add32_eq (by omega), first]
  unfold getSubRectInterval
  rw [if_neg some]
  simp only [linear, Bool.false_eq_true, if_false, ok_bind, pure_eq_ok, format, start,
    Rectangle.getHeight, Rectangle.getWidth, height, width, lines, pixels, front, lower, upper]

theorem levelPixels_le (p : ImageParams) (level : Nat) : p.levelPixels level ≤ p.topPixels := by
  unfold levelPixels
  split_ifs with several
  · rw [topPixels, if_pos several]
    exact Nat.mul_le_mul (Nat.shiftRight_le ..) (Nat.shiftRight_le ..)
  · exact le_rfl

theorem bytesBefore_mono (p : ImageParams) (bpp : Nat) {level more : Nat} (h : level ≤ more) :
    p.bytesBefore bpp level ≤ p.bytesBefore bpp more := by
  induction more with
  | zero => rw [Nat.le_zero.mp h]
  | succ more ih =>
    rcases Nat.lt_or_eq_of_le h with less | rfl
    · exact (ih (Nat.le_of_lt_succ less)).trans (Nat.le_add_right ..)
    · exact le_rfl

theorem InLevel.stride (settled : p.Settled bpp) (less : level < p.levels)
    (h : p.InLevel level rect) : 0 < p.stride >>> level := by
  have columns := h.columns
  have right := h.right
  by_cases single : p.levels = 1
  · obtain rfl : level = 0 := by omega
    exact updateParams_stride settled.updated settled.wide
  · rw [(updateParams_several single settled.format settled.updated).1]
    omega

theorem whole_bytes (format : getFormatBpp p.pixelFormat = .ok bpp)
    (fit : if p.isTiled then level = 0 else bpp ≠ 4) (rect : Rectangle) :
    p.firstIndex level rect * bpp % 8 = 0 ∧ p.lastIndex level rect * bpp % 8 = 0 := by
  cases tiled : p.isTiled with
  | true =>
    simp only [firstIndex, lastIndex, tiled, if_true, ← Nat.mul_assoc, ← Nat.add_mul]
    constructor <;> rw [Nat.mul_right_comm, Nat.mul_mod_left]
  | false =>
    rw [tiled] at fit
    have bytes : bpp % 8 = 0 := by
      rcases bits_of_format format with rfl | rfl | rfl | rfl | rfl <;> simp at fit ⊢
    constructor <;> rw [Nat.mul_mod, bytes, Nat.mul_zero]

theorem firstIndex_lt (h : p.InLevel level rect) :
    p.firstIndex level rect < p.lastIndex level rect := by
  have columns := h.columns
  have rows := h.rows
  unfold firstIndex lastIndex
  split_ifs with tiled
  · obtain ⟨-, -, below, above, high⟩ := h.tiles tiled
    have fewer := Nat.mul_le_mul_right ((p.stride >>> level) * 8)
      (show ((p.height >>> level) - rect.top) / 8 ≤ ((p.height >>> level) - rect.bottom) / 8 - 1 by
        omega)
    omega
  · have fewer := Nat.mul_le_mul_right (p.stride >>> level) (show rect.bottom ≤ rect.top - 1 by omega)
    omega

section

variable (settled : p.Settled bpp) (less : level < p.levels)
  (fit : if p.isTiled then level = 0 else bpp ≠ 4)
include settled less fit

theorem Settled.bytes_le (h : p.InLevel level rect) : p.lastIndex level rect * bpp < 0x100000000 ∧
      p.bytesBefore bpp level + p.lastIndex level rect * bpp / 8 ≤ p.bytesBefore bpp (level + 1) ∧
      p.addr + p.bytesBefore bpp (level + 1) < 0x100000000 := by
  have inside := lastIndex_le settled less h (fun tiled => by rwa [if_pos tiled] at fit)
  have bits := Nat.mul_le_mul_right bpp inside
  have most := Nat.mul_le_mul_right bpp (levelPixels_le p level)
  have levels := bytesBefore_mono p bpp (show level + 1 ≤ p.levels from less)
  have word := settled.word
  have top := settled.bits
  refine ⟨by omega, ?_, by omega⟩
  exact Nat.add_le_add_left (Nat.div_le_div_right bits) _

theorem Settled.interval_eq (h : p.InLevel level rect) : p.getSubRectInterval rect level = .ok
      ⟨p.addr + p.bytesBefore bpp level + p.firstIndex level rect * bpp / 8,
        p.addr + p.bytesBefore bpp level + p.lastIndex level rect * bpp / 8⟩ := by
  obtain ⟨bits, inside, word⟩ := settled.bytes_le less fit h
  have start := (settled.levelInterval_eq less).1
  have many : 4 ≤ bpp := by
    rcases bits_of_format settled.format with rfl | rfl | rfl | rfl | rfl <;> decide
  have pixels := Nat.mul_le_mul_left (p.lastIndex level rect) many
  cases tiled : p.isTiled with
  | true =>
    rw [tiled] at fit
    obtain rfl : level = 0 := fit
    exact getSubRectInterval_tiled h tiled settled.format start settled.tall settled.stride
      (by omega) bits (by omega)
  | false =>
    exact getSubRectInterval_linear h tiled settled.format start (h.stride settled less)
      (by omega) bits (by omega)

theorem Settled.coversRects : p.CoversRects level bpp := by
  intro rect h
  obtain ⟨-, inside, -⟩ := settled.bytes_le less fit h
  obtain ⟨first, last⟩ := whole_bytes settled.format fit rect
  refine ⟨_, _, settled.interval_eq less fit h, (settled.levelInterval_eq less).2, ?_, ?_, ?_, ?_⟩
  · rw [firstBit_eq h]
    dsimp only
    omega
  · rw [lastBit_eq h]
    dsimp only
    omega
  · exact Nat.le_add_right ..
  · dsimp only
    omega

end

theorem Settled.levelDown_eq (settled : p.Settled bpp) (most : last < p.levels)
    (level_le : level ≤ last) (after : p.addr + p.bytesBefore bpp level ≤ addr)
    (before : addr < p.addr + p.bytesBefore bpp (level + 1)) :
    p.levelDown addr last = .ok level := by
  induction last with
  | zero =>
    obtain rfl : level = 0 := by omega
    rw [levelDown, (settled.levelInterval_eq most).1, ok_bind, if_neg (by omega)]
    rfl
  | succ last ih =>
    rw [levelDown, (settled.levelInterval_eq most).1, ok_bind]
    rcases Nat.lt_or_eq_of_le level_le with less | rfl
    · have later := bytesBefore_mono p bpp (show level + 1 ≤ last + 1 from less)
      rw [if_pos (by omega)]
      exact ih (by omega) (Nat.le_of_lt_succ less)
    · rw [if_neg (by omega)]
      rfl

theorem Settled.endAddr_eq (settled : p.Settled bpp) :
    p.endAddr = p.addr + p.bytesBefore bpp p.levels := by
  have some := settled.some
  obtain ⟨start, interval⟩ := settled.levelInterval_eq (show p.levels - 1 < p.levels by omega)
  rw [Nat.sub_add_cancel some] at interval
  simp only [levelInterval, show p.levels - 1 < p.levels by omega, assert_pos, start, ok_bind,
    if_true] at interval
  exact congrArg Block.upper (Except.ok.inj interval)

theorem Settled.levelOf_eq (settled : p.Settled bpp) (less : level < p.levels)
    (after : p.addr + p.bytesBefore bpp level ≤ addr)
    (before : addr < p.addr + p.bytesBefore bpp (level + 1)) : p.levelOf addr = .ok level := by
  have whole := settled.endAddr_eq
  have levels := bytesBefore_mono p bpp (show level + 1 ≤ p.levels from less)
  unfold levelOf
  rw [if_neg (by omega), if_neg (by omega)]
  exact settled.levelDown_eq (by omega) (by omega) after before

def rowsRect (p sub : ImageParams) (level row : Nat) : Rectangle where
  left := 0
  top := if p.isTiled then (p.height >>> level) - row * 8 else row + sub.height
  right := sub.width
  bottom := if p.isTiled then (p.height >>> level) - (row * 8 + sub.height) else row

section

variable (full : p.FullWidth sub level bpp row whole)
include full

theorem FullWidth.inLevel : p.InLevel level (p.rowsRect sub level row) := by
  have rows := full.rows
  have high := full.high
  unfold tiledSize at rows
  refine ⟨full.wide, full.width.le, ?_, ?_, fun tiled => ?_⟩
  · unfold rowsRect
    split_ifs at rows ⊢ <;> dsimp only <;> omega
  · unfold rowsRect
    split_ifs at rows ⊢ <;> dsimp only <;> omega
  · obtain ⟨height, width, lines⟩ := full.tiles tiled
    simp only [rowsRect, tiled, if_true] at rows ⊢
    exact ⟨trivial, width, by omega, by omega, lines⟩

theorem FullWidth.firstIndex_eq :
    p.firstIndex level (p.rowsRect sub level row) = row * ((p.stride >>> level) * p.tiledSize) := by
  have rows := full.rows
  unfold tiledSize at rows
  unfold firstIndex rowsRect tiledSize
  split_ifs at rows ⊢ with tiled
  · have line : ((p.height >>> level) - ((p.height >>> level) - row * 8)) / 8 = row := by omega
    rw [line, Nat.zero_mul, Nat.add_zero]
  · rw [Nat.mul_one, Nat.add_zero]

theorem FullWidth.lastIndex_eq : p.lastIndex level (p.rowsRect sub level row) =
      row * ((p.stride >>> level) * p.tiledSize) + sub.topPixels := by
  have rows := full.rows
  have high := full.high
  rw [topPixels_flat full.flat, full.same, full.stride]
  unfold tiledSize at rows
  unfold lastIndex rowsRect tiledSize
  split_ifs at rows ⊢ with tiled
  · obtain ⟨height, -, -⟩ := full.tiles tiled
    have line : ((p.height >>> level) - ((p.height >>> level) - (row * 8 + sub.height))) / 8 - 1 =
        row + (sub.height / 8 - 1) := by omega
    rw [line, Nat.add_mul, Nat.mul_comm (sub.height / 8 - 1), Nat.add_assoc]
  · have line : row + sub.height - 1 = row + (sub.height - 1) := by omega
    rw [line, Nat.mul_one, Nat.add_mul, Nat.mul_comm (sub.height - 1), Nat.add_assoc]

end

theorem getSubRect_runs (places : p.Places sub.addr level offset bpp)
    (stride : p.stride < 0x20000000) (unit : 0 < p.stride >>> level)
    (square : p.stride = p.width ∨ level = 0) : ∃ rect, p.getSubRect sub = .ok rect := by
  have shift : p.stride >>> level ≤ p.stride := Nat.shiftRight_le ..
  unfold getSubRect
  simp only [places.found, places.format, places.start, ok_bind, assert_pos, square]
  cases tiled : p.isTiled with
  | true =>
    rw [mul32_eq (show (p.stride >>> level) * 8 < 0x100000000 by omega)]
    simp [remainder, unit.ne', ok_bind, pure_eq_ok]
  | false => simp [remainder, unit.ne', ok_bind, pure_eq_ok]

theorem Settled.square (settled : p.Settled bpp) (less : level < p.levels) :
    p.stride = p.width ∨ level = 0 := by
  by_cases single : p.levels = 1
  · exact .inr (by omega)
  · exact .inl (updateParams_several single settled.format settled.updated).1

theorem Settled.invertsSubRect (settled : p.Settled bpp) (less : level < p.levels)
    (fit : if p.isTiled then level = 0 else bpp ≠ 4) : p.InvertsSubRect level bpp := by
  intro sub row whole full
  have h := full.inLevel
  have many : 4 ≤ bpp := by
    rcases bits_of_format settled.format with rfl | rfl | rfl | rfl | rfl <;> decide
  obtain ⟨start, interval⟩ := settled.levelInterval_eq less
  obtain rfl : _ = whole := Except.ok.inj (interval.symm.trans full.interval)
  obtain ⟨bits, inside, word⟩ := settled.bytes_le less fit h
  obtain ⟨firstWhole, lastWhole⟩ := whole_bytes settled.format fit (p.rowsRect sub level row)
  have fewer := Nat.mul_lt_mul_of_pos_right (firstIndex_lt h) (show 0 < bpp by omega)
  have first := full.firstIndex_eq
  have last := full.lastIndex_eq
  have distance := full.start
  have lower := full.lower
  have size := full.size
  dsimp only at distance lower
  rw [← first] at distance
  have found : p.levelOf sub.addr = .ok level :=
    settled.levelOf_eq less lower (by omega)
  have stride := h.stride settled less
  have narrow := settled.stride
  obtain ⟨rect, run⟩ := getSubRect_runs ⟨found, start, settled.format⟩ (by omega) stride
    (settled.square less)
  obtain ⟨-, value⟩ := getSubRect_ok ⟨found, start, settled.format⟩ lower (by omega) (by omega)
    (by omega) run
  have pixel : (sub.addr - (p.addr + p.bytesBefore bpp level)) * 8 / bpp =
      row * ((p.stride >>> level) * p.tiledSize) := by
    rw [distance, first, Nat.mul_div_cancel _ (by omega)]
  have unit : 0 < (p.stride >>> level) * p.tiledSize :=
    Nat.mul_pos stride (by unfold tiledSize; split_ifs <;> decide)
  have rectEq : rect = p.rowsRect sub level row := by
    have rows := full.rows
    have tall : p.height >>> level < 0x100000000 :=
      (Nat.shiftRight_le ..).trans_lt settled.tall
    have wide : sub.width < 0x100000000 := by
      have short : p.lastIndex level (p.rowsRect sub level row) * 4 ≤
          p.lastIndex level (p.rowsRect sub level row) * bpp := Nat.mul_le_mul_left _ many
      have most : sub.width ≤ p.lastIndex level (p.rowsRect sub level row) := by
        unfold lastIndex rowsRect
        split_ifs <;> dsimp only <;> omega
      omega
    rw [value, pixel, Nat.mul_mod_left, Nat.mul_div_cancel _ unit]
    unfold tiledSize at rows
    unfold rowsRect
    split_ifs at rows ⊢
    · rw [add32_eq (by omega), add32_eq (by omega), sub32_eq (by omega) tall,
        sub32_eq (by omega) tall, Nat.zero_add]
    · rw [add32_eq (by omega), add32_eq (by omega), Nat.zero_add]
  refine ⟨rect, run, found, ?_⟩
  rw [rectEq, settled.interval_eq less fit h]
  have pixels : p.lastIndex level (p.rowsRect sub level row) * bpp =
      p.firstIndex level (p.rowsRect sub level row) * bpp + sub.topPixels * bpp := by
    rw [last, first, Nat.add_mul]
  congr 2 <;> omega

def topTile (p : ImageParams) (level : Nat) : Rectangle where
  left := 0
  top := p.height >>> level
  right := 8
  bottom := (p.height >>> level) - 8

theorem InLevel.topTile (h : p.InLevel level rect) (tiled : p.isTiled = true) :
    p.InLevel level (p.topTile level) := by
  obtain ⟨left, right, below, above, high⟩ := h.tiles tiled
  have columns := h.columns
  have wide := h.right
  have rows := h.rows
  have top := h.top
  have narrow : 8 ≤ p.width >>> level := by omega
  refine ⟨Nat.zero_lt_succ 7, narrow, ?_, le_rfl,
    fun _ => ⟨Nat.zero_mod 8, Nat.mod_self 8, ?_, high, high⟩⟩
  · exact Nat.sub_lt (by omega) (by decide)
  · exact (Nat.sub_mod_eq_zero_of_mod_eq (by rw [high]))

/-- The pixels that the code counts in front of the tile: it takes the rows of tiles of the first
level, not those of its own. -/
def lateFront (p : ImageParams) (level : Nat) : Nat :=
  (p.stride * 8) >>> level * (p.height / 8 - (p.height >>> level) / 8)

theorem Settled.lateFront_bounds (settled : p.Settled bpp) (several : p.levels ≠ 1)
    (tiled : p.isTiled = true) (later : level ≠ 0) (h : p.InLevel level (p.topTile level)) :
    8 ≤ p.lateFront level ∧ p.lateFront level ≤ p.topPixels := by
  have square := (updateParams_several several settled.format settled.updated).1
  have wide : 8 ≤ p.width >>> level := h.right
  have rows : (p.height >>> level) - 8 < p.height >>> level := h.rows
  have high := (h.tiles tiled).2.2.2.2
  have half : p.height >>> level ≤ p.height / 2 := by
    obtain ⟨k, rfl⟩ : ∃ k, level = k + 1 := ⟨level - 1, by omega⟩
    rw [← shiftRight_half]
    exact Nat.shiftRight_le ..
  constructor
  · calc 8 ≤ p.width >>> level := wide
      _ ≤ (p.stride * 8) >>> level := by
          rw [Nat.shiftRight_eq_div_pow, Nat.shiftRight_eq_div_pow]
          exact Nat.div_le_div_right (by omega)
      _ ≤ p.lateFront level := Nat.le_mul_of_pos_right _ (by omega)
  · calc p.lateFront level
        ≤ p.stride * 8 * (p.height / 8) := Nat.mul_le_mul (Nat.shiftRight_le ..) (Nat.sub_le ..)
      _ = p.width * (8 * (p.height / 8)) := by rw [square, Nat.mul_assoc]
      _ ≤ p.width * p.height := Nat.mul_le_mul_left _ (Nat.mul_div_le ..)
      _ = p.topPixels := (if_pos several).symm

theorem Settled.topTile_lower (settled : p.Settled bpp) (less : level < p.levels)
    (tiled : p.isTiled = true) (h : p.InLevel level (p.topTile level))
    (front : p.lateFront level < 0x100000000) {interval : Block}
    (run : p.getSubRectInterval (p.topTile level) level = .ok interval) : interval.lower =
      add32 (p.addr + p.bytesBefore bpp level) (bytesInPixels bpp (p.lateFront level)) := by
  obtain ⟨-, -, -, -, high⟩ := h.tiles tiled
  have rows := h.rows
  have tall := settled.tall
  have levelTall : p.height >>> level ≤ p.height := Nat.shiftRight_le ..
  have some : ¬ ((p.topTile level).getHeight = 0 ∨ (p.topTile level).getWidth = 0) := by
    have height := (distance32_pos rows (levelTall.trans_lt tall)).1
    have width := (distance32_pos h.columns (show 8 < 0x100000000 by decide)).2
    rw [Rectangle.getHeight, Rectangle.getWidth]
    omega
  have above : sub32 (p.height / 8) ((p.height >>> level) / 8) =
      p.height / 8 - (p.height >>> level) / 8 := sub32_eq (by omega) (by omega)
  have pixels : add32 (mul32 ((p.stride * 8) >>> level)
      (p.height / 8 - (p.height >>> level) / 8)) (mul32 0 8) = p.lateFront level := by
    rw [mul32_eq front]
    exact add32_eq front
  unfold getSubRectInterval at run
  rw [if_neg some] at run
  simp only [tiled, if_true, ImageParams.topTile, alignUp_eight high,
    alignDown_eight (show 0 % 8 = 0 from rfl), alignUp_eight (show 8 % 8 = 0 from rfl), ok_bind,
    pure_eq_ok, settled.format, (settled.levelInterval_eq less).1, mul32_eq settled.stride, above,
    pixels] at run
  exact congrArg Block.lower (Except.ok.inj run).symm

theorem Settled.not_coversRects_tiled (settled : p.Settled bpp) (less : level < p.levels)
    (tiled : p.isTiled = true) (later : level ≠ 0) (h : p.InLevel level rect) :
    ¬ p.CoversRects level bpp := by
  intro covers
  have h := h.topTile tiled
  obtain ⟨interval, whole, run, level', first, -⟩ := covers _ h
  obtain rfl := Except.ok.inj ((settled.levelInterval_eq less).2.symm.trans level')
  have none : p.firstIndex level (p.topTile level) = 0 := by
    simp [firstIndex, tiled, ImageParams.topTile]
  obtain ⟨behind, front⟩ := settled.lateFront_bounds (by omega) tiled later h
  have bits := settled.bits
  have many : 4 ≤ bpp := by
    rcases bits_of_format settled.format with rfl | rfl | rfl | rfl | rfl <;> decide
  have small := Nat.mul_le_mul_left p.topPixels many
  have bytes := Nat.mul_le_mul_right bpp front
  have some := Nat.mul_le_mul behind many
  have lower := settled.topTile_lower less tiled h (by omega) run
  rw [firstBit_eq h, none] at first
  rw [bytesInPixels_eq (by omega)] at lower
  unfold add32 at lower
  dsimp only at first
  omega

theorem InLevel.not_coversRects_linear (linear : p.isTiled = false) (h : p.InLevel level rect) :
    ¬ p.CoversRects level 4 := by
  intro covers
  have columns := h.columns
  have right := h.right
  have rows := h.rows
  have top := h.top
  have one : p.InLevel level ⟨0, 1, 1, 0⟩ := ⟨by decide, by dsimp only; omega, by decide,
    by dsimp only; omega, fun tiled => absurd (linear.symm.trans tiled) Bool.false_ne_true⟩
  obtain ⟨interval, whole, -, -, -, last, -⟩ := covers _ one
  rw [lastBit_eq one] at last
  simp only [lastIndex, linear, Bool.false_eq_true, if_false] at last
  omega

/-- On levels past the first of a tiled image `GetSubRectInterval` gives other bytes than those of
the rectangle, and so it does for pixels of half a byte in rows. -/
theorem getSubRectInterval_inverts_iff (p : ImageParams) (level bpp : Nat)
    (settled : p.Settled bpp) (less : level < p.levels) :
    (p.CoversRects level bpp ∧ p.InvertsSubRect level bpp) ↔ p.LevelSupported level bpp := by
  constructor
  · rintro ⟨covers, -⟩
    by_contra unsupported
    unfold LevelSupported at unsupported
    push Not at unsupported
    obtain ⟨unfit, rect, h⟩ := unsupported
    cases tiled : p.isTiled with
    | true =>
      rw [tiled] at unfit
      exact settled.not_coversRects_tiled less tiled unfit h covers
    | false =>
      rw [tiled] at unfit
      obtain rfl : bpp = 4 := not_not.mp unfit
      exact h.not_coversRects_linear tiled covers
  · rintro (fit | none)
    · exact ⟨settled.coversRects less fit, settled.invertsSubRect less fit⟩
    · exact ⟨fun rect h => absurd h (none rect),
        fun sub row whole full => absurd full.inLevel (none _)⟩

theorem tallTexture_settled : tallTexture.Settled 32 where
  updated := by decide +kernel
  format := rfl
  array := rfl
  some := by decide
  wide := by decide
  high := by decide
  tall := by decide
  stride := by decide
  bits := by decide
  word := by decide

theorem getSubRectInterval_inverts_tallTexture :
    (tallTexture.CoversRects 0 32 ∧ tallTexture.InvertsSubRect 0 32) ↔
      tallTexture.LevelSupported 0 32 :=
  getSubRectInterval_inverts_iff tallTexture 0 32 tallTexture_settled (by decide)

/-- The first tile of the second level is looked for behind the level. -/
theorem getSubRectInterval_behind_level : tallTexture.InLevel 1 ⟨0, 32, 8, 24⟩ ∧
      tallTexture.getSubRectInterval ⟨0, 32, 8, 24⟩ 1 = .ok ⟨0x18001400, 0x18001500⟩ ∧
      tallTexture.levelInterval 1 = .ok ⟨0x18001000, 0x18001400⟩ ∧
      ¬ tallTexture.CoversRects 1 32 := by
  have inside : tallTexture.InLevel 1 ⟨0, 32, 8, 24⟩ :=
    ⟨by decide, by decide, by decide, by decide, fun _ => by decide⟩
  have behind : tallTexture.getSubRectInterval ⟨0, 32, 8, 24⟩ 1 =
      .ok ⟨0x18001400, 0x18001500⟩ := by decide +kernel
  have level : tallTexture.levelInterval 1 = .ok ⟨0x18001000, 0x18001400⟩ := by decide +kernel
  refine ⟨inside, behind, level, fun covers => ?_⟩
  obtain ⟨interval, whole, run, found, -, -, -, upper⟩ := covers _ inside
  obtain rfl := Except.ok.inj (behind.symm.trans run)
  obtain rfl := Except.ok.inj (level.symm.trans found)
  exact absurd upper (by decide)

end EmuThreeDS.VideoCore.ImageParams
