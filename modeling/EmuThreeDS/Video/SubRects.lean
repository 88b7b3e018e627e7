import EmuThreeDS.Video.ImageParams
import Mathlib.Tactic.IntervalCases

/-!
# Sub-rectangles of a surface

Where the pixels of a surface are in memory, and when a sub-surface that `CanSubRect` accepts
shares them. Rows are counted from the bottom, as the rectangles are.
-/
namespace EmuThreeDS.VideoCore

open Intervals

def mortonInterleave (x y : Nat) : Nat :=
  [0x00, 0x01, 0x04, 0x05, 0x10, 0x11, 0x14, 0x15].getD (x % 8) 0 +
    [0x00, 0x02, 0x08, 0x0a, 0x20, 0x22, 0x28, 0x2a].getD (y % 8) 0

/-- The pixels in front of a pixel in memory; `row` is counted from the first row in memory. -/
def pixelIndex (isTiled : Bool) (stride x row : Nat) : Nat :=
  if isTiled then row / 8 * (stride * 8) + x / 8 * 64 + mortonInterleave x row
  else row * stride + x

/-- Tiled images are stored from the top, linear ones from the bottom. -/
def memoryRow (isTiled : Bool) (height y : Nat) : Nat := if isTiled then height - 1 - y else y

namespace ImageParams

/-- The address of a pixel of a level in bits; `offset` is where the level starts. -/
def pixelBit (p : ImageParams) (level offset bpp x y : Nat) : Nat :=
  8 * offset + pixelIndex p.isTiled (p.stride >>> level) x
    (memoryRow p.isTiled (p.height >>> level) y) * bpp

/-- The level of `p` that contains an address, with its start and the bits of a pixel. -/
structure Places (p : ImageParams) (addr level offset bpp : Nat) : Prop where
  found : p.levelOf addr = .ok level
  start : p.offsetAt level = .ok offset
  format : getFormatBpp p.pixelFormat = .ok bpp

/-- The rectangle of `sub` is inside the level of `p`, and each pixel of `sub` is that of the
rectangle. -/
def SubRectSound (p sub : ImageParams) : Prop :=
  ∃ level offset bpp rect, p.Places sub.addr level offset bpp ∧ p.getSubRect sub = .ok rect ∧
    (rect.left ≤ rect.right ∧ rect.right ≤ p.width >>> level ∧
      rect.bottom ≤ rect.top ∧ rect.top ≤ p.height >>> level) ∧
    ∀ x < sub.width, ∀ y < sub.height, sub.pixelBit 0 sub.addr bpp x y =
      p.pixelBit level offset bpp (rect.left + x) (rect.bottom + y)

/-- Pixel `start` of a level is the first of a sub-surface that does not stick out of the level,
and that starts at a tile of its own. -/
def StartFits (p sub : ImageParams) (level start : Nat) : Prop :=
  let unit := (p.stride >>> level) * p.tiledSize
  start % unit / p.tiledSize + sub.width ≤ p.width >>> level ∧
    start / unit * p.tiledSize + sub.height ≤ p.height >>> level ∧
    (0 < sub.width → 0 < sub.height → start % unit % p.tilePixels = 0)

def SubRectFits (p sub : ImageParams) : Prop :=
  ∃ level offset bpp, p.Places sub.addr level offset bpp ∧
    p.StartFits sub level ((sub.addr - offset) * 8 / bpp)

structure WordSized (p sub : ImageParams) : Prop where
  stride : p.stride < 0x20000000
  height : p.height < 0x100000000
  ordered : sub.addr ≤ sub.endAddr
  word : p.endAddr < 0x100000000
  span : ∀ level offset bpp, p.Places sub.addr level offset bpp → p.endAddr < offset + 0x20000000
  subWidth : sub.width < 0x80000000
  subHeight : sub.height < 0x80000000

end ImageParams

variable {x y a stride row size level' y0 : Nat}

theorem mortonInterleave_congr {x' y' : Nat} (hx : x % 8 = x' % 8) (hy : y % 8 = y' % 8) :
    mortonInterleave x y = mortonInterleave x' y' := by
  unfold mortonInterleave
  rw [hx, hy]

theorem mortonInterleave_column (less : a < 8) (same : 8 * a = mortonInterleave a 0) : a = 0 := by
  interval_cases a <;> simp_all [mortonInterleave]

/-- A pixel of a rectangle that starts with the tile `start` comes as far behind it as the same
pixel of an image that starts there. -/
theorem pixelIndex_tiled {start : Nat} (aligned : start % (stride * 8) % 64 = 0) :
    pixelIndex true stride (start % (stride * 8) / 8 + x) (start / (stride * 8) * 8 + row) =
      start + pixelIndex true stride x row := by
  have rows : (start / (stride * 8) * 8 + row) / 8 = start / (stride * 8) + row / 8 := by omega
  have morton : mortonInterleave (start % (stride * 8) / 8 + x) (start / (stride * 8) * 8 + row) =
      mortonInterleave x row := mortonInterleave_congr (by omega) (by omega)
  have whole := Nat.div_add_mod' start (stride * 8)
  simp only [pixelIndex, if_true]
  rw [rows, Nat.add_mul]
  omega

theorem pixelIndex_linear {start : Nat} :
    pixelIndex false stride (start % stride + x) (start / stride + row) =
      start + pixelIndex false stride x row := by
  have whole := Nat.div_add_mod' start stride
  simp only [pixelIndex, Bool.false_eq_true, if_false]
  rw [Nat.add_mul]
  omega

theorem pixelIndex_stride {isTiled : Bool} {stride' : Nat}
    (same : stride = stride' ∨ row < if isTiled then 8 else 1) :
    pixelIndex isTiled stride x row = pixelIndex isTiled stride' x row := by
  rcases same with rfl | short
  · rfl
  · cases isTiled with
    | true =>
      have first : row / 8 = 0 := Nat.div_eq_of_lt (by simpa using short)
      simp [pixelIndex, first]
    | false =>
      have first : row = 0 := by simpa using short
      simp [pixelIndex, first]

theorem remainder_eq_ok {value r : Nat} :
    remainder value size = .ok r ↔ size ≠ 0 ∧ r = value % size := by
  unfold remainder
  split_ifs with zero <;> simp [zero, eq_comm]

theorem alignDown_round (positive : 0 < size) : alignDown a size = .ok (roundDown size a) := by
  simp [alignDown, remainder, positive.ne', roundDown, ok_bind, pure_eq_ok]

theorem alignUp_round (positive : 0 < size) (word : roundUp size a < 0x100000000) :
    alignUp a size = .ok (roundUp size a) := by
  unfold roundUp at word ⊢
  unfold alignUp remainder
  rw [if_neg positive.ne', ok_bind, pure_eq_ok]
  split_ifs at word ⊢
  · rfl
  · rw [add32_eq word]

theorem mul32_eq {b : Nat} (h : a * b < 0x100000000) : mul32 a b = a * b := Nat.mod_eq_of_lt h

theorem bits_of_format {format : Option PixelFormat} {bpp : Nat}
    (h : getFormatBpp format = .ok bpp) : bpp = 4 ∨ bpp = 8 ∨ bpp = 16 ∨ bpp = 24 ∨ bpp = 32 := by
  cases format with
  | none => cases h
  | some format =>
    obtain rfl := Except.ok.inj h
    cases format <;> simp [PixelFormat.bitsPerBlock]

namespace ImageParams

variable {p sub : ImageParams} {addr level offset bpp : Nat}

theorem levelDown_le (h : p.levelDown addr level' = .ok level)
    (start : p.offsetAt level = .ok offset) : offset ≤ addr := by
  induction level' with
  | zero =>
    obtain ⟨first, found, later⟩ := bind_eq_ok.mp h
    split_ifs at later with below
    obtain rfl : 0 = level := Except.ok.inj later
    obtain rfl : first = offset := Except.ok.inj (found.symm.trans start)
    exact Nat.le_of_not_lt below
  | succ level' ih =>
    obtain ⟨first, found, later⟩ := bind_eq_ok.mp h
    split_ifs at later with below
    · exact ih later
    · obtain rfl : level' + 1 = level := Except.ok.inj later
      obtain rfl : first = offset := Except.ok.inj (found.symm.trans start)
      exact Nat.le_of_not_lt below

theorem Places.le (h : p.Places addr level offset bpp) (inside : p.addr ≤ addr)
    (before : addr ≤ p.endAddr) : offset ≤ addr := by
  have found := h.found
  unfold levelOf at found
  rw [if_neg (by omega)] at found
  split_ifs at found
  exact levelDown_le found h.start

/-- The rectangle, if there is no wrap on the way to the first pixel. -/
theorem getSubRect_ok {rect : Rectangle} (places : p.Places sub.addr level offset bpp)
    (le : offset ≤ sub.addr) (bits : (sub.addr - offset) * 8 < 0x100000000)
    (word : sub.addr < 0x100000000) (stride : p.stride < 0x20000000)
    (run : p.getSubRect sub = .ok rect) :
    let start := (sub.addr - offset) * 8 / bpp
    let unit := (p.stride >>> level) * p.tiledSize
    unit ≠ 0 ∧ rect = if p.isTiled then
      { left := start % unit / 8
        top := sub32 (p.height >>> level) (start / unit * 8)
        right := add32 (start % unit / 8) sub.width
        bottom := sub32 (p.height >>> level) (add32 (start / unit * 8) sub.height) }
    else
      { left := start % unit
        top := add32 (start / unit) sub.height
        right := add32 (start % unit) sub.width
        bottom := start / unit } := by
  have shift : p.stride >>> level ≤ p.stride := Nat.shiftRight_le ..
  have start : pixelsInBytes bpp (sub32 sub.addr offset) = (sub.addr - offset) * 8 / bpp := by
    rw [pixelsInBytes, sub32_eq le word, mul32_eq bits]
  unfold getSubRect at run
  simp only [places.found, places.format, places.start, ok_bind, start] at run
  obtain ⟨_, -, run⟩ := bind_eq_ok.mp run
  cases tiled : p.isTiled with
  | true =>
    simp only [tiled, if_true, mul32_eq (show (p.stride >>> level) * 8 < 0x100000000 by omega)]
      at run
    obtain ⟨r, remains, run⟩ := bind_eq_ok.mp run
    obtain ⟨nonzero, rfl⟩ := remainder_eq_ok.mp remains
    have rows : mul32 ((sub.addr - offset) * 8 / bpp / ((p.stride >>> level) * 8)) 8 =
        (sub.addr - offset) * 8 / bpp / ((p.stride >>> level) * 8) * 8 := by
      apply mul32_eq
      have pixels : (sub.addr - offset) * 8 / bpp ≤ (sub.addr - offset) * 8 := Nat.div_le_self ..
      have unit : 8 ≤ (p.stride >>> level) * 8 := by omega
      have fewer : (sub.addr - offset) * 8 / bpp / ((p.stride >>> level) * 8) ≤
          (sub.addr - offset) * 8 / bpp / 8 := Nat.div_le_div_left unit (by decide)
      omega
    rw [rows] at run
    simp only [tiledSize, tiled, if_true]
    exact ⟨nonzero, (Except.ok.inj run).symm⟩
  | false =>
    simp only [tiled, Bool.false_eq_true, if_false] at run
    obtain ⟨r, remains, run⟩ := bind_eq_ok.mp run
    obtain ⟨nonzero, rfl⟩ := remainder_eq_ok.mp remains
    simp only [tiledSize, tiled, Bool.false_eq_true, if_false, Nat.mul_one]
    exact ⟨nonzero, (Except.ok.inj run).symm⟩

theorem canSubRect_true (run : p.canSubRect sub = .ok true) : ∃ level offset bpp rect,
    p.Places sub.addr level offset bpp ∧ p.addr ≤ sub.addr ∧ sub.endAddr ≤ p.endAddr ∧
      sub.isTiled = p.isTiled ∧ bytesInPixels bpp p.tilePixels ≠ 0 ∧
      sub32 sub.addr offset % bytesInPixels bpp p.tilePixels = 0 ∧
      (sub.stride = p.stride >>> level ∨ sub.height ≤ p.tiledSize) ∧
      p.getSubRect sub = .ok rect := by
  obtain ⟨level, found, run⟩ := bind_eq_ok.mp run
  split_ifs at run with outside rows
  · cases run
  all_goals
    obtain ⟨bpp, format, run⟩ := bind_eq_ok.mp run
    obtain ⟨offset, start, run⟩ := bind_eq_ok.mp run
    obtain ⟨r, remains, run⟩ := bind_eq_ok.mp run
    obtain ⟨nonzero, rfl⟩ := remainder_eq_ok.mp remains
    split_ifs at run with apart
  · cases run
  · cases run
  · cases run
  · obtain ⟨rect, sound, -⟩ := bind_eq_ok.mp run
    push Not at outside apart rows
    refine ⟨level, offset, bpp, rect, ⟨found, start, format⟩, outside.1, outside.2.1,
      outside.2.2.2.2, nonzero, apart, ?_, sound⟩
    by_cases same : sub.stride = p.stride >>> level
    · exact .inl same
    · exact .inr (rows same)

theorem Places.unique {offset' bpp' : Nat} (h : p.Places addr level offset bpp)
    (h' : p.Places addr level' offset' bpp') : level' = level ∧ offset' = offset ∧ bpp' = bpp := by
  obtain rfl := Except.ok.inj (h.found.symm.trans h'.found)
  exact ⟨rfl, Except.ok.inj (h'.start.symm.trans h.start),
    Except.ok.inj (h'.format.symm.trans h.format)⟩

theorem start_exact {distance : Nat} (format : getFormatBpp p.pixelFormat = .ok bpp)
    (nonzero : bytesInPixels bpp p.tilePixels ≠ 0)
    (whole : distance % bytesInPixels bpp p.tilePixels = 0) :
    distance * 8 / bpp * bpp = distance * 8 ∧ distance * 8 / bpp % p.tilePixels = 0 := by
  rcases bits_of_format format with rfl | rfl | rfl | rfl | rfl <;> cases tiled : p.isTiled <;>
    simp [tilePixels, bytesInPixels, mul32, tiled] at nonzero whole ⊢ <;> omega

theorem sub32_fits {height rows : Nat} (hh : height < 0x100000000)
    (word : y0 + rows < 0x100000000) :
    (sub32 height (y0 + rows) ≤ sub32 height y0 ∧ sub32 height y0 ≤ height) ↔
      y0 + rows ≤ height := by
  unfold sub32
  omega

theorem pixelBit_tiled {start : Nat} (tiled : p.isTiled = true) (same : sub.isTiled = true)
    (bits : start * bpp = (sub.addr - offset) * 8) (le : offset ≤ sub.addr)
    (rows : sub.stride = p.stride >>> level ∨ sub.height ≤ 8) (hy : y < sub.height)
    (first : y0 = start / ((p.stride >>> level) * 8) * 8)
    (inside : y0 + sub.height ≤ p.height >>> level)
    (aligned : start % ((p.stride >>> level) * 8) % 64 = 0) :
    sub.pixelBit 0 sub.addr bpp x y = p.pixelBit level offset bpp
      (start % ((p.stride >>> level) * 8) / 8 + x) ((p.height >>> level) - (y0 + sub.height) + y) := by
  have row : (p.height >>> level) - 1 - ((p.height >>> level) - (y0 + sub.height) + y) =
      y0 + (sub.height - 1 - y) := by omega
  have stride : pixelIndex true sub.stride x (sub.height - 1 - y) =
      pixelIndex true (p.stride >>> level) x (sub.height - 1 - y) := by
    refine pixelIndex_stride (rows.imp_right fun few => ?_)
    rw [if_pos rfl]
    omega
  unfold pixelBit
  simp only [tiled, same, memoryRow, if_true, Nat.shiftRight_zero]
  rw [row, first, pixelIndex_tiled aligned, stride, Nat.add_mul]
  omega

theorem pixelBit_linear {start : Nat} (linear : p.isTiled = false) (same : sub.isTiled = false)
    (bits : start * bpp = (sub.addr - offset) * 8) (le : offset ≤ sub.addr)
    (rows : sub.stride = p.stride >>> level ∨ sub.height ≤ 1) (hy : y < sub.height) :
    sub.pixelBit 0 sub.addr bpp x y = p.pixelBit level offset bpp
      (start % (p.stride >>> level) + x) (start / (p.stride >>> level) + y) := by
  have stride : pixelIndex false sub.stride x y = pixelIndex false (p.stride >>> level) x y := by
    refine pixelIndex_stride (rows.imp_right fun few => ?_)
    rw [if_neg Bool.false_ne_true]
    omega
  unfold pixelBit
  simp only [linear, same, memoryRow, Bool.false_eq_true, if_false, Nat.shiftRight_zero]
  rw [pixelIndex_linear, stride, Nat.add_mul]
  omega

structure Accepted (p sub : ImageParams) (level offset bpp start : Nat) (rect : Rectangle) :
    Prop where
  places : p.Places sub.addr level offset bpp
  run : p.getSubRect sub = .ok rect
  le : offset ≤ sub.addr
  bits : start * bpp = (sub.addr - offset) * 8
  positive : 0 < bpp
  small : start < 0x40000000
  aligned : start % p.tilePixels = 0
  same : sub.isTiled = p.isTiled
  rows : sub.stride = p.stride >>> level ∨ sub.height ≤ p.tiledSize
  value : rect = if p.isTiled then
      { left := start % ((p.stride >>> level) * p.tiledSize) / 8
        top := sub32 (p.height >>> level) (start / ((p.stride >>> level) * p.tiledSize) * 8)
        right := add32 (start % ((p.stride >>> level) * p.tiledSize) / 8) sub.width
        bottom := sub32 (p.height >>> level)
          (add32 (start / ((p.stride >>> level) * p.tiledSize) * 8) sub.height) }
    else
      { left := start % ((p.stride >>> level) * p.tiledSize)
        top := add32 (start / ((p.stride >>> level) * p.tiledSize)) sub.height
        right := add32 (start % ((p.stride >>> level) * p.tiledSize)) sub.width
        bottom := start / ((p.stride >>> level) * p.tiledSize) }

theorem accepted (words : WordSized p sub) (can : p.canSubRect sub = .ok true) :
    ∃ level offset bpp rect,
      p.Accepted sub level offset bpp ((sub.addr - offset) * 8 / bpp) rect := by
  obtain ⟨level, offset, bpp, rect, places, inside, before, same, nonzero, whole, rows, run⟩ :=
    canSubRect_true can
  have ordered := words.ordered
  have le := places.le inside (ordered.trans before)
  have word : sub.addr < 0x100000000 := (ordered.trans before).trans_lt words.word
  have span := words.span level offset bpp places
  rw [sub32_eq le word] at whole
  obtain ⟨bits, aligned⟩ := start_exact places.format nonzero whole
  obtain ⟨-, value⟩ := getSubRect_ok places le (by omega) word words.stride run
  have many : 4 ≤ bpp := by
    rcases bits_of_format places.format with rfl | rfl | rfl | rfl | rfl <;> decide
  have less : (sub.addr - offset) * 8 / bpp ≤ (sub.addr - offset) * 8 / 4 :=
    Nat.div_le_div_left many (by decide)
  exact ⟨level, offset, bpp, rect, places, run, le, bits, by omega, by omega, aligned, same, rows,
    value⟩

section

variable {start : Nat} {rect : Rectangle}

theorem rows_le (start stride : Nat) : start / (stride * 8) * 8 ≤ start := by
  rw [Nat.mul_comm stride, ← Nat.div_div_eq_div_mul]
  calc start / 8 / stride * 8 ≤ start / 8 * 8 := Nat.mul_le_mul_right 8 (Nat.div_le_self ..)
    _ ≤ start := Nat.div_mul_le_self ..

theorem tile_of_first {start : Nat} (aligned : start % 64 = 0)
    (same : start = pixelIndex true stride (start % (stride * 8) / 8)
      (start / (stride * 8) * 8)) : start % (stride * 8) % 64 = 0 := by
  have whole := Nat.div_add_mod' start (stride * 8)
  have tall : start / (stride * 8) * 8 / 8 = start / (stride * 8) := by omega
  simp only [pixelIndex, if_true] at same
  rw [tall] at same
  have eighth : start % (stride * 8) % 8 = 0 := by
    rw [Nat.mod_mul_left_mod]
    omega
  have morton : mortonInterleave (start % (stride * 8) / 8) (start / (stride * 8) * 8) =
      mortonInterleave (start % (stride * 8) / 8 % 8) 0 :=
    mortonInterleave_congr (Nat.mod_mod ..).symm (by omega)
  have column := mortonInterleave_column (a := start % (stride * 8) / 8 % 8) (by omega) (by
    omega)
  omega

def Overlays (p sub : ImageParams) (level offset bpp : Nat) (rect : Rectangle) : Prop :=
  (rect.left ≤ rect.right ∧ rect.right ≤ p.width >>> level ∧
    rect.bottom ≤ rect.top ∧ rect.top ≤ p.height >>> level) ∧
  ∀ x < sub.width, ∀ y < sub.height, sub.pixelBit 0 sub.addr bpp x y =
    p.pixelBit level offset bpp (rect.left + x) (rect.bottom + y)

theorem Accepted.sound_tiled (h : p.Accepted sub level offset bpp start rect)
    (words : WordSized p sub) (tiled : p.isTiled = true) :
    p.Overlays sub level offset bpp rect ↔ p.StartFits sub level start := by
  have value := h.value
  have aligned := h.aligned
  have small := h.small
  have rows := h.rows
  have width := words.subWidth
  have height := words.subHeight
  have tall : p.height >>> level < 0x100000000 :=
    (Nat.shiftRight_le ..).trans_lt words.height
  have column : start % ((p.stride >>> level) * 8) / 8 ≤ start :=
    (Nat.div_le_self ..).trans (Nat.mod_le ..)
  have row := rows_le start (p.stride >>> level)
  simp only [tiledSize, tilePixels, tiled, if_true] at value aligned rows
  rw [add32_eq (by omega), add32_eq (by omega)] at value
  subst value
  simp only [Overlays, StartFits, tiledSize, tilePixels, tiled, if_true]
  rw [sub32_fits tall (by omega)]
  constructor
  · rintro ⟨⟨-, right, inside⟩, pixels⟩
    refine ⟨right, inside, fun wide high => tile_of_first aligned ?_⟩
    have first := pixels 0 wide (sub.height - 1) (by omega)
    have last : (p.height >>> level) - 1 - ((p.height >>> level) -
        (start / ((p.stride >>> level) * 8) * 8 + sub.height) + (sub.height - 1)) =
        start / ((p.stride >>> level) * 8) * 8 := by omega
    rw [sub32_eq inside tall] at first
    simp only [pixelBit, h.same, tiled, memoryRow, if_true, Nat.shiftRight_zero, Nat.sub_self,
      Nat.add_zero] at first
    rw [last] at first
    have zero : pixelIndex true sub.stride 0 0 = 0 := by simp [pixelIndex, mortonInterleave]
    have bits := h.bits
    rw [zero] at first
    exact Nat.eq_of_mul_eq_mul_right h.positive (by omega)
  · rintro ⟨right, inside, tile⟩
    refine ⟨⟨Nat.le_add_right .., right, inside⟩, ?_⟩
    intro x hx y hy
    rw [sub32_eq inside tall]
    exact pixelBit_tiled tiled (h.same.trans tiled) h.bits h.le rows hy rfl inside
      (tile (by omega) (by omega))

theorem Accepted.sound_linear (h : p.Accepted sub level offset bpp start rect)
    (words : WordSized p sub) (linear : p.isTiled = false) :
    p.Overlays sub level offset bpp rect ↔ p.StartFits sub level start := by
  have value := h.value
  have small := h.small
  have rows := h.rows
  have width := words.subWidth
  have height := words.subHeight
  have column : start % (p.stride >>> level) ≤ start := Nat.mod_le ..
  have row : start / (p.stride >>> level) ≤ start := Nat.div_le_self ..
  simp only [tiledSize, linear, Bool.false_eq_true, if_false, Nat.mul_one] at value rows
  rw [add32_eq (by omega), add32_eq (by omega)] at value
  subst value
  simp only [Overlays, StartFits, tiledSize, tilePixels, linear, Bool.false_eq_true, if_false,
    Nat.mul_one, Nat.div_one, Nat.mod_one]
  constructor
  · rintro ⟨⟨-, right, -, top⟩, -⟩
    exact ⟨right, top, fun _ _ => trivial⟩
  · rintro ⟨right, top, -⟩
    refine ⟨⟨Nat.le_add_right .., right, Nat.le_add_right .., top⟩, ?_⟩
    intro x hx y hy
    exact pixelBit_linear linear (h.same.trans linear) h.bits h.le rows hy

end

/-- A sub-surface that `CanSubRect` accepts shares its pixels with the rectangle of `GetSubRect`
exactly if it does not stick out of the level, and starts with a tile of the level. -/
theorem canSubRect_sound_iff (p sub : ImageParams) (words : WordSized p sub)
    (can : p.canSubRect sub = .ok true) : p.SubRectSound sub ↔ p.SubRectFits sub := by
  obtain ⟨level, offset, bpp, rect, h⟩ := accepted words can
  have inner : p.Overlays sub level offset bpp rect ↔
      p.StartFits sub level ((sub.addr - offset) * 8 / bpp) := by
    cases tiled : p.isTiled with
    | true => exact h.sound_tiled words tiled
    | false => exact h.sound_linear words tiled
  constructor
  · rintro ⟨level', offset', bpp', rect', places, run, sound⟩
    obtain ⟨rfl, rfl, rfl⟩ := h.places.unique places
    obtain rfl := Except.ok.inj (run.symm.trans h.run)
    exact ⟨_, _, _, places, inner.mp sound⟩
  · rintro ⟨level', offset', bpp', places, fits⟩
    obtain ⟨rfl, rfl, rfl⟩ := h.places.unique places
    exact ⟨_, _, _, rect, places, h.run, inner.mpr fits⟩

def tallTexture : ImageParams where
  addr := 0x18000000
  endAddr := 0x18001400
  size := 0x1400
  width := 16
  height := 64
  stride := 16
  levels := 2
  resScale := 1
  isTiled := true
  pixelFormat := some .rgba8
  type := .color
  mipmapOffsets := [0x18000000, 0x18001000, 0, 0, 0, 0, 0, 0]

def twoRows (row : Nat) : ImageParams where
  addr := 0x18000000 + 0x200 * row
  endAddr := 0x18000000 + 0x200 * (row + 2)
  size := 0x400
  width := 16
  height := 16
  stride := 16
  levels := 1
  resScale := 1
  isTiled := true
  pixelFormat := some .rgba8
  type := .color
  mipmapOffsets := [0x18000000 + 0x200 * row, 0, 0, 0, 0, 0, 0, 0]

example : tallTexture.updateParams = .ok tallTexture ∧
    (twoRows 7).updateParams = .ok (twoRows 7) := by decide +kernel

theorem tallTexture_words : WordSized tallTexture (twoRows 6) where
  stride := by decide
  height := by decide
  ordered := by decide
  word := by decide
  span := by
    intro level offset bpp places
    have found : tallTexture.levelOf (twoRows 6).addr = .ok 0 := by decide +kernel
    obtain rfl := Except.ok.inj (found.symm.trans places.found)
    obtain rfl := Except.ok.inj places.start
    decide
  subWidth := by decide
  subHeight := by decide

theorem canSubRect_sound_tallTexture :
    tallTexture.SubRectSound (twoRows 6) ↔ tallTexture.SubRectFits (twoRows 6) :=
  canSubRect_sound_iff tallTexture (twoRows 6) tallTexture_words (by decide +kernel)

/-- The second row of tiles is in the next level. -/
theorem canSubRect_unsound :
    tallTexture.canSubRect (twoRows 7) = .ok true ∧ ¬ tallTexture.SubRectSound (twoRows 7) := by
  refine ⟨by decide +kernel, ?_⟩
  rintro ⟨level, offset, bpp, rect, places, run, ⟨-, -, order, -⟩, -⟩
  have value : tallTexture.getSubRect (twoRows 7) = .ok ⟨0, 8, 16, 0xfffffff8⟩ := by
    decide +kernel
  obtain rfl := Except.ok.inj (value.symm.trans run)
  exact absurd order (by decide)

end ImageParams
end EmuThreeDS.VideoCore
