import EmuThreeDS.Video.SubRectIntervals

/-!
# The interval to copy from a surface

`GetCopyableInterval` cuts what is valid of a surface to a rectangle of the requested parameters,
and `FromInterval` finds that rectangle again.
-/
namespace EmuThreeDS.VideoCore

open Intervals

/-- Both ends, moved inwards to multiples of `align` behind `addr`. -/
def alignedInterval (addr align : Nat) (interval : Block) : Exec Block := do
  let lower ← alignUp (sub32 interval.lower addr) align
  let upper ← alignDown (sub32 interval.upper addr) align
  return ⟨add32 addr lower, add32 addr upper⟩

namespace ImageParams

def copyableStep (params : ImageParams) (bpp : Nat) (result valid : Block) : Exec Block := do
  let tileAlign := bytesInPixels bpp params.tilePixels
  let aligned ← alignedInterval params.addr tileAlign valid
  if valid.length < tileAlign ∨ aligned.length = 0 then return result
  else
    let strideBytes := mul32 (bytesInPixels bpp params.stride) params.tiledSize
    let rect ← alignedInterval params.addr strideBytes aligned
    let rect :=
      if rect.upper < rect.lower then aligned -- 1 row
      else if rect.length = 0 then
        -- 2 rows that do not make a rectangle, return the larger one
        let row1 : Block := ⟨aligned.lower, rect.lower⟩
        let row2 : Block := ⟨rect.lower, aligned.upper⟩
        if row2.length < row1.length then row1 else row2
      else rect
    return if result.length < rect.length then rect else result

end ImageParams

namespace Surface

def validRegions (surface : Surface) (params : ImageParams) : IntervalSet :=
  (IntervalSet.empty.add (inter params.getInterval surface.getInterval)).removeAll
    surface.invalidRegions.blocks

def getCopyableInterval (surface : Surface) (params : ImageParams) : Exec Block := do
  let bpp ← getFormatBpp params.pixelFormat
  (surface.validRegions params).blocks.foldlM (params.copyableStep bpp) ⟨0, 0⟩

end Surface

namespace ImageParams

/-- A level whose rows have no gaps, made of whole tiles, and if it is linear of whole bytes. -/
structure LevelOfRows (p : ImageParams) (level bpp : Nat) : Prop where
  settled : p.Settled bpp
  less : level < p.levels
  square : p.stride = p.width
  wide : 0 < p.width >>> level
  high : p.tiledSize ≤ p.height >>> level
  tiles : p.isTiled = true → (p.width >>> level) % 8 = 0 ∧
    (p.levels ≠ 1 → (p.height >>> level) % 8 = 0)
  bytes : p.isTiled = false → bpp ≠ 4

def tileBytes (p : ImageParams) (bpp : Nat) : Nat := p.tilePixels * bpp / 8

def rowBytes (p : ImageParams) (level bpp : Nat) : Nat :=
  (p.width >>> level) / p.tiledSize * p.tileBytes bpp

def tileRows (p : ImageParams) (level : Nat) : Nat := (p.height >>> level) / p.tiledSize

variable {p : ImageParams} {level bpp : Nat} {interval : Block}

section

variable (h : p.LevelOfRows level bpp)
include h

theorem LevelOfRows.tileBytes_exact :
    8 * p.tileBytes bpp = p.tilePixels * bpp ∧ 0 < p.tileBytes bpp := by
  have bytes := h.bytes
  unfold tileBytes tilePixels
  rcases bits_of_format h.settled.format with rfl | rfl | rfl | rfl | rfl <;>
    cases tiled : p.isTiled <;> simp [tiled] at bytes ⊢

theorem LevelOfRows.rowBytes_exact :
    8 * p.rowBytes level bpp = (p.width >>> level) * p.tiledSize * bpp ∧
      0 < p.rowBytes level bpp := by
  have tiles := h.tiles
  have wide := h.wide
  obtain ⟨tile, positive⟩ := h.tileBytes_exact
  have columns : (p.width >>> level) / p.tiledSize * p.tiledSize = p.width >>> level ∧
      0 < (p.width >>> level) / p.tiledSize := by
    unfold tiledSize
    split_ifs with tiled
    · obtain ⟨width, -⟩ := tiles tiled
      omega
    · simpa using wide
  have square : p.tilePixels = p.tiledSize * p.tiledSize := by
    unfold tilePixels tiledSize
    split_ifs <;> rfl
  refine ⟨?_, Nat.mul_pos columns.2 positive⟩
  rw [rowBytes, Nat.mul_left_comm, tile, square, ← Nat.mul_assoc, ← Nat.mul_assoc, columns.1]

theorem LevelOfRows.levelBits :
    p.levelPixels level * bpp = 8 * (p.tileRows level * p.rowBytes level bpp) := by
  have less := h.less
  have square := h.square
  have tiles := h.tiles
  have high := h.high
  have pixels : p.levelPixels level = p.tileRows level * ((p.width >>> level) * p.tiledSize) := by
    by_cases single : p.levels = 1
    · obtain rfl : level = 0 := by omega
      rw [levelPixels_flat single, topPixels_flat single, square]
      unfold tileRows tiledSize at *
      simp only [Nat.shiftRight_zero] at *
      split_ifs at high ⊢
      · obtain ⟨rows, eq⟩ : ∃ rows, p.height / 8 = rows + 1 := ⟨p.height / 8 - 1, by omega⟩
        rw [eq, Nat.add_sub_cancel, Nat.add_mul, Nat.mul_comm rows, Nat.one_mul]
      · obtain ⟨rows, eq⟩ : ∃ rows, p.height = rows + 1 := ⟨p.height - 1, by omega⟩
        rw [eq, Nat.add_sub_cancel, Nat.div_one, Nat.mul_one, Nat.add_mul, Nat.mul_comm rows,
          Nat.one_mul]
    · rw [levelPixels, if_pos single]
      unfold tileRows tiledSize
      split_ifs with tiled
      · obtain ⟨-, height⟩ := tiles tiled
        obtain ⟨rows, eq⟩ : ∃ rows, p.height >>> level = 8 * rows :=
          ⟨(p.height >>> level) / 8, by omega⟩
        rw [eq, Nat.mul_div_cancel_left _ (by decide)]
        ring
      · rw [Nat.div_one, Nat.mul_one, Nat.mul_comm]
  rw [pixels, Nat.mul_left_comm 8, h.rowBytes_exact.1, Nat.mul_assoc]

theorem LevelOfRows.levelEnd : p.bytesBefore bpp (level + 1) =
        p.bytesBefore bpp level + p.tileRows level * p.rowBytes level bpp ∧
      p.addr + p.bytesBefore bpp (level + 1) < 0x100000000 ∧
      8 * (p.tileRows level * p.rowBytes level bpp) < 0x100000000 := by
  have most := Nat.mul_le_mul_right bpp (levelPixels_le p level)
  have levels := bytesBefore_mono p bpp (show level + 1 ≤ p.levels from h.less)
  have word := h.settled.word
  have bits := h.settled.bits
  have same := h.levelBits
  refine ⟨?_, by omega, by omega⟩
  rw [bytesBefore, same, Nat.mul_div_cancel_left _ (by decide)]

end

theorem Settled.levelDown_answers {addr : Nat} (last : Nat) (settled : p.Settled bpp)
    (most : last < p.levels) (after : p.addr ≤ addr) : ∃ level, p.levelDown addr last = .ok level := by
  induction last with
  | zero =>
    refine ⟨0, ?_⟩
    rw [levelDown, (settled.levelInterval_eq most).1, ok_bind, bytesBefore, if_neg (by omega)]
    rfl
  | succ last ih =>
    rw [levelDown, (settled.levelInterval_eq most).1, ok_bind]
    split_ifs
    · exact ih (by omega)
    · exact ⟨last + 1, rfl⟩

theorem Settled.singleLevel_ok {endAddr : Nat} (settled : p.Settled bpp) (less : level < p.levels)
    (after : p.addr + p.bytesBefore bpp level ≤ endAddr)
    (before : endAddr ≤ p.addr + p.bytesBefore bpp (level + 1)) :
    p.singleLevel level endAddr = .ok () := by
  have whole := settled.endAddr_eq
  have levels := bytesBefore_mono p bpp (show level + 1 ≤ p.levels from less)
  rcases Nat.lt_or_eq_of_le before with inside | finish
  · rw [singleLevel, settled.levelOf_eq less after inside, ok_bind, if_neg (by simp)]
    rfl
  · obtain ⟨found, run⟩ := settled.levelDown_answers (p.levels - 1) (by omega)
      (show p.addr ≤ endAddr by omega)
    have levelOf : p.levelOf endAddr = .ok found := by
      rw [ImageParams.levelOf, if_neg (by omega), if_neg (by omega), run]
    rw [singleLevel, levelOf, ok_bind]
    split_ifs with past
    · by_cases last : level + 1 < p.levels
      · rw [(settled.levelInterval_eq last).1, ok_bind, assert_pos finish]
      · rw [show level + 1 = p.levels by omega] at finish
        exact absurd (finish.trans whole.symm) past.2
    · rfl

theorem updateParams_size {q : ImageParams} (size : Nat) (single : q.levels = 1)
    (format : getFormatBpp q.pixelFormat = .ok bpp) (stride : 0 < q.stride)
    (high : q.tiledSize ≤ q.height) (pixels : q.topPixels * bpp = 8 * size)
    (bits : 8 * size < 0x100000000) (tall : q.height < 0x100000000)
    (narrow : q.stride * 8 < 0x100000000) (word : q.addr + size < 0x100000000) :
    ∃ r, q.updateParams = .ok r ∧ r.getInterval = ⟨q.addr, q.addr + size⟩ ∧ r.width = q.width ∧
      r.isTiled = q.isTiled := by
  have positive : 0 < bpp := by
    rcases bits_of_format format with rfl | rfl | rfl | rfl | rfl <;> decide
  have flat : q.flatSize bpp = size := by
    rw [flatSize_eq single positive high (by omega) tall narrow, pixels,
      Nat.mul_div_cancel_left _ (by decide)]
  refine ⟨_, updateParams_one single stride format, ?_, rfl, rfl⟩
  change Block.mk q.addr (add32 q.addr (q.flatSize bpp)) = _
  rw [flat, add32_eq word]

theorem sub32_add32 {first above below : Nat} (le : below ≤ above)
    (small : first + above < 0x100000000) :
    sub32 (add32 first above) (add32 first below) = above - below := by
  rw [add32_eq small, add32_eq (by omega), sub32_eq (by omega) (by omega)]
  omega

theorem shift_add32 {first above below : Nat} (le : below ≤ above)
    (small : first + above < 0x100000000) :
    (⟨add32 first below, add32 first below + (above - below)⟩ : Block) =
      Block.shift ⟨below, above⟩ first := by
  rw [add32_eq (by omega)]
  unfold Block.shift
  dsimp only
  congr 1
  omega

section

variable (h : p.LevelOfRows level bpp)
include h

theorem LevelOfRows.lineBytes :
    (p.width >>> level) * bpp / 8 * p.tiledSize = p.rowBytes level bpp := by
  have tiles := h.tiles
  have exact := h.rowBytes_exact.1
  unfold tiledSize at exact ⊢
  split_ifs at exact ⊢ with tiled
  · obtain ⟨columns, eq⟩ : ∃ columns, p.width >>> level = 8 * columns :=
      ⟨(p.width >>> level) / 8, by have := (tiles tiled).1; omega⟩
    rw [eq, Nat.mul_assoc]
    rw [eq] at exact
    have twice : 8 * columns * 8 * bpp = 8 * (columns * bpp * 8) := by ring
    omega
  · rw [Nat.mul_one] at exact
    omega

theorem LevelOfRows.units :
    bytesInPixels bpp (mul32 (p.width >>> level) p.tiledSize) = p.rowBytes level bpp ∧
      bytesInPixels bpp (p.width >>> level) = (p.width >>> level) * bpp / 8 ∧
      bytesInPixels bpp p.tilePixels = p.tileBytes bpp ∧ p.tileBytes bpp ∣ p.rowBytes level bpp ∧
      p.rowBytes level bpp ≤ p.tileRows level * p.rowBytes level bpp := by
  have narrow := h.settled.stride
  have square := h.square
  have shift : p.width >>> level ≤ p.width := Nat.shiftRight_le ..
  have size : 1 ≤ p.tiledSize ∧ p.tiledSize ≤ 8 := by
    unfold tiledSize
    split_ifs <;> decide
  have exact := h.rowBytes_exact.1
  have tile := h.tileBytes_exact.1
  have bits := h.levelEnd.2.2
  have rows : 0 < p.tileRows level := Nat.div_pos h.high size.1
  have once := Nat.le_mul_of_pos_left (p.rowBytes level bpp) rows
  have divides : p.tileBytes bpp ∣ p.rowBytes level bpp := Nat.dvd_mul_left ..
  have fewer := Nat.le_of_dvd h.rowBytes_exact.2 divides
  have wide := Nat.mul_le_mul_left (p.width >>> level) size.2
  have part := Nat.mul_le_mul_right bpp (Nat.le_mul_of_pos_right (p.width >>> level) size.1)
  refine ⟨?_, bytesInPixels_eq (by omega), ?_, divides, once⟩
  · rw [mul32_eq (by omega), bytesInPixels_eq (by omega)]
    omega
  · rw [bytesInPixels_eq (by omega)]
    omega

theorem LevelOfRows.updateRows (addr : Nat) {rows : Nat} (some : 0 < rows)
    (few : rows ≤ p.tileRows level) (word : addr + rows * p.rowBytes level bpp < 0x100000000) :
    ∃ r, updateParams { p with
        width := p.width >>> level
        stride := p.stride >>> level
        addr := addr
        height := rows * p.tiledSize
        levels := 1 } = .ok r ∧
      r.getInterval = ⟨addr, addr + rows * p.rowBytes level bpp⟩ ∧
      r.width = p.width >>> level ∧ r.isTiled = p.isTiled := by
  have narrow := h.settled.stride
  have square := h.square
  have shift : p.stride >>> level ≤ p.stride := Nat.shiftRight_le ..
  have bits := h.levelEnd.2.2
  have fewer := Nat.mul_le_mul_right (p.rowBytes level bpp) few
  have wide := h.wide
  have line := h.lineBytes
  have exact := h.rowBytes_exact
  have short : p.tiledSize ≤ p.rowBytes level bpp := by
    rw [← line] at exact ⊢
    exact Nat.le_mul_of_pos_left _ (Nat.pos_of_mul_pos_right exact.2)
  have tall := Nat.mul_le_mul_left rows short
  refine updateParams_size _ rfl h.settled.format (by rw [square]; exact wide)
    (Nat.le_mul_of_pos_left _ some) ?_ (by omega) (by dsimp only; omega) (by dsimp only; omega) word
  rw [topPixels_flat rfl, Nat.mul_left_comm, exact.1]
  unfold tiledSize
  rw [square]
  split_ifs
  · obtain ⟨more, rfl⟩ : ∃ more, rows = more + 1 := ⟨rows - 1, by omega⟩
    rw [Nat.mul_div_cancel _ (by decide), Nat.add_sub_cancel]
    ring
  · obtain ⟨more, rfl⟩ : ∃ more, rows = more + 1 := ⟨rows - 1, by omega⟩
    rw [Nat.mul_one, Nat.add_sub_cancel]
    ring

theorem LevelOfRows.updateTiles (addr : Nat) {tiles : Nat} (some : 0 < tiles)
    (few : tiles * p.tileBytes bpp ≤ p.rowBytes level bpp)
    (word : addr + tiles * p.tileBytes bpp < 0x100000000) :
    ∃ r, updateParams { p with
        addr := addr
        width := tiles * p.tiledSize
        stride := tiles * p.tiledSize
        height := p.tiledSize
        levels := 1 } = .ok r ∧
      r.getInterval = ⟨addr, addr + tiles * p.tileBytes bpp⟩ ∧
      r.isTiled = p.isTiled := by
  have bits := h.levelEnd.2.2
  have once := h.units.2.2.2.2
  have exact := h.tileBytes_exact
  have size : 1 ≤ p.tiledSize ∧ p.tiledSize ≤ 8 ∧ p.tiledSize ≤ p.tileBytes bpp := by
    unfold tilePixels at exact
    unfold tiledSize
    split_ifs at exact ⊢ <;> omega
  have narrow := Nat.mul_le_mul_left tiles size.2.2
  have wide := Nat.mul_pos some size.1
  obtain ⟨r, run, interval, -, tiled⟩ := updateParams_size
    (q := { p with
      addr := addr
      width := tiles * p.tiledSize
      stride := tiles * p.tiledSize
      height := p.tiledSize
      levels := 1 })
    (tiles * p.tileBytes bpp) rfl h.settled.format wide le_rfl (by
      rw [topPixels_flat rfl, Nat.mul_left_comm, exact.1]
      unfold tiledSize tilePixels
      split_ifs <;> simp [Nat.mul_assoc]) (by omega) (by dsimp only; omega) (by dsimp only; omega)
      word
  exact ⟨r, run, interval, tiled⟩

/-- Whole rows of tiles from an address on. -/
theorem LevelOfRows.takeRows (addr : Nat) {n : Nat} (rows : p.rowBytes level bpp ∣ n) (some : 0 < n)
    (few : n ≤ p.tileRows level * p.rowBytes level bpp) (word : addr + n < 0x100000000)
    (line : bytesInPixels bpp (p.width >>> level) ≠ 0) :
    ∃ q, updateParams { p with
        width := p.width >>> level
        stride := p.width >>> level
        addr := addr
        height := n / bytesInPixels bpp (p.width >>> level)
        levels := 1 } = .ok q ∧
      q.getInterval = ⟨addr, addr + n⟩ ∧ q.width = p.width >>> level ∧ q.isTiled = p.isTiled := by
  obtain ⟨-, lineUnit, -⟩ := h.units
  have rowPositive := h.rowBytes_exact.2
  obtain ⟨count, rfl⟩ := rows
  rw [Nat.mul_comm] at some few word ⊢
  have positive : 0 < count := Nat.pos_of_mul_pos_right some
  have height : count * p.rowBytes level bpp / bytesInPixels bpp (p.width >>> level) =
      count * p.tiledSize := by
    rw [← h.lineBytes, lineUnit, Nat.mul_comm _ p.tiledSize, ← Nat.mul_assoc,
      Nat.mul_div_cancel _ (Nat.pos_of_ne_zero (lineUnit ▸ line))]
  obtain ⟨q, run, taken⟩ := h.updateRows addr positive
    (Nat.le_of_mul_le_mul_right few rowPositive) word
  rw [h.square] at run
  rw [height]
  exact ⟨q, run, taken⟩

/-- Whole tiles of one row from an address on. -/
theorem LevelOfRows.takeTiles (addr : Nat) {n : Nat} (tiles : p.tileBytes bpp ∣ n) (some : 0 < n)
    (few : n ≤ p.rowBytes level bpp) (word : addr + n < 0x100000000) :
    ∃ q, updateParams { p with
        addr := addr
        width := pixelsInBytes bpp n / p.tiledSize
        stride := pixelsInBytes bpp n / p.tiledSize
        height := p.tiledSize
        levels := 1 } = .ok q ∧
      q.getInterval = ⟨addr, addr + n⟩ ∧ q.isTiled = p.isTiled := by
  have once := h.units.2.2.2.2
  have bits := h.levelEnd.2.2
  have exact := h.tileBytes_exact.1
  obtain ⟨count, rfl⟩ := tiles
  rw [Nat.mul_comm] at some few word ⊢
  have width : pixelsInBytes bpp (count * p.tileBytes bpp) / p.tiledSize =
      count * p.tiledSize := by
    have bpp0 : 0 < bpp := by
      rcases bits_of_format h.settled.format with rfl | rfl | rfl | rfl | rfl <;> decide
    have pixels : count * p.tileBytes bpp * 8 = count * p.tilePixels * bpp := by
      rw [Nat.mul_assoc, Nat.mul_comm _ 8, exact, Nat.mul_assoc]
    rw [pixelsInBytes, mul32_eq (by omega), pixels, Nat.mul_div_cancel _ bpp0]
    unfold tilePixels tiledSize
    split_ifs <;> omega
  rw [width]
  exact h.updateTiles addr (Nat.pos_of_mul_pos_right some) few word

theorem LevelOfRows.fromInterval_eq (interval : Block) (nonempty : interval.lower < interval.upper)
    (after : p.addr + p.bytesBefore bpp level ≤ interval.lower)
    (before : interval.upper ≤ p.addr + p.bytesBefore bpp (level + 1)) :
    let start := p.addr + p.bytesBefore bpp level
    let hull := rowHull (p.tileBytes bpp) (p.rowBytes level bpp)
      ⟨interval.lower - start, interval.upper - start⟩
    ∃ q, p.fromInterval interval = .ok q ∧ q.getInterval = hull.shift start ∧
      q.isTiled = p.isTiled ∧
      ((p.rowBytes level bpp ∣ hull.lower ∧ q.width = p.width >>> level) ∨
        ∃ first, p.rowBytes level bpp ∣ first ∧ first ≤ hull.lower ∧
          hull.upper ≤ first + p.rowBytes level bpp) := by
  obtain ⟨finish, word, bits⟩ := h.levelEnd
  obtain ⟨rowUnit, lineUnit, tileUnit, divides, once⟩ := h.units
  have rowPositive := h.rowBytes_exact.2
  have tilePositive := h.tileBytes_exact.2
  have found := h.settled.levelOf_eq h.less after (by omega)
  have one := h.settled.singleLevel_ok h.less (by omega) before
  have start := (h.settled.levelInterval_eq h.less).1
  have square := h.square
  rw [finish, ← Nat.add_assoc] at before word
  generalize p.addr + p.bytesBefore bpp level = first at *
  have lowerSub : sub32 interval.lower first = interval.lower - first :=
    sub32_eq after (by omega)
  have upperSub : sub32 interval.upper first = interval.upper - first :=
    sub32_eq (by omega) (by omega)
  have up : roundUp (p.rowBytes level bpp) (interval.upper - first) ≤
      p.tileRows level * p.rowBytes level bpp := roundUp_le (Nat.dvd_mul_left ..) (by omega)
  have down := roundDown_le (p.rowBytes level bpp) (interval.lower - first)
  have later := le_roundUp rowPositive (interval.upper - first)
  have upRow := dvd_roundUp (p.rowBytes level bpp) (interval.upper - first)
  have downRow := dvd_roundDown (p.rowBytes level bpp) (interval.lower - first)
  have rowUp := alignUp_round (a := interval.upper - first) rowPositive (by omega)
  have tileMore : roundUp (p.tileBytes bpp) (interval.upper - first) ≤
      roundUp (p.rowBytes level bpp) (interval.upper - first) :=
    roundUp_le (divides.trans upRow) later
  have tileUp := alignUp_round (a := interval.upper - first) tilePositive (by omega)
  have tileLess := le_roundDown (divides.trans downRow) down
  have tileLower := roundDown_le (p.tileBytes bpp) (interval.lower - first)
  have tileUpper := le_roundUp tilePositive (interval.upper - first)
  have tileDvd := dvd_roundDown (p.tileBytes bpp) (interval.lower - first)
  have tileDvdUp := dvd_roundUp (p.tileBytes bpp) (interval.upper - first)
  have asserted : assert .surfaceParams (p.stride = p.width ∨ level = 0) = .ok () :=
    assert_pos (.inl square)
  unfold fromInterval
  rw [found, ok_bind, one, ok_bind, h.settled.format, ok_bind]
  dsimp only
  rw [asserted, ok_bind, start, ok_bind, square, rowUnit, lowerSub, alignDown_round rowPositive,
    ok_bind, upperSub, rowUp, ok_bind, tileUnit, alignDown_round tilePositive, tileUp]
  unfold rowHull
  generalize roundUp (p.rowBytes level bpp) (interval.upper - first) = above at *
  generalize roundDown (p.rowBytes level bpp) (interval.lower - first) = below at *
  rw [sub32_add32 (by omega) (by omega)]
  split_ifs with long none
  · have line := h.lineBytes
    rw [lineUnit] at none
    rw [none] at line
    omega
  · obtain ⟨q, run, interval, width, tiled⟩ := h.takeRows (add32 first below)
      (Nat.dvd_sub upRow downRow) (by omega) (by omega) (by rw [add32_eq (by omega)]; omega) none
    exact ⟨q, run, interval.trans (shift_add32 (by omega) (by omega)), tiled,
      .inl ⟨downRow, width⟩⟩
  · have exactly : above - below = p.rowBytes level bpp := by
      have least := Nat.le_of_dvd (by omega) (Nat.dvd_sub upRow downRow)
      omega
    generalize roundUp (p.tileBytes bpp) (interval.upper - first) = tileAbove at *
    generalize roundDown (p.tileBytes bpp) (interval.lower - first) = tileBelow at *
    obtain ⟨q, run, interval, tiled⟩ := h.takeTiles (add32 first tileBelow)
      (Nat.dvd_sub tileDvdUp tileDvd) (by omega) (by omega) (by rw [add32_eq (by omega)]; omega)
    refine ⟨q, ?_, interval.trans (shift_add32 (by omega) (by omega)), tiled,
      .inr ⟨below, downRow, tileLess, by dsimp only; omega⟩⟩
    rw [assert_pos exactly, ok_bind, ok_bind, ok_bind, sub32_add32 (by omega) (by omega)]
    exact run

theorem LevelOfRows.fromInterval_exact {cut : Block}
    (rect : Rectangular (p.tileBytes bpp) (p.rowBytes level bpp) cut)
    (before : cut.upper ≤ p.tileRows level * p.rowBytes level bpp) :
    ∃ q, p.fromInterval (cut.shift (p.addr + p.bytesBefore bpp level)) = .ok q ∧
      q.getInterval = cut.shift (p.addr + p.bytesBefore bpp level) := by
  obtain ⟨q, run, interval, -⟩ := h.fromInterval_eq
    (cut.shift (p.addr + p.bytesBefore bpp level))
    (Nat.add_lt_add_left rect.nonempty _) (Nat.le_add_right ..) (by
      rw [h.levelEnd.1, ← Nat.add_assoc]
      exact Nat.add_le_add_left before _)
  refine ⟨q, run, ?_⟩
  simp only [Block.shift, Nat.add_sub_cancel_left] at interval
  rw [rect.rowHull] at interval
  exact interval

end

theorem alignedInterval_eq {addr align : Nat} {b : Block} (positive : 0 < align)
    (after : addr ≤ b.lower) (order : b.lower ≤ b.upper) (word : b.upper < 0x100000000)
    (up : addr + roundUp align (b.lower - addr) < 0x100000000) : alignedInterval addr align b = .ok
      ⟨addr + roundUp align (b.lower - addr), addr + roundDown align (b.upper - addr)⟩ := by
  have down := roundDown_le align (b.upper - addr)
  rw [alignedInterval, sub32_eq after (by omega), sub32_eq (by omega) word,
    alignUp_round positive (by omega), ok_bind, alignDown_round positive, ok_bind, add32_eq up,
    add32_eq (by omega)]
  rfl

/-- `out` is a rectangle of `p`, cut from the interval `valid`. -/
def CutOf (p : ImageParams) (bpp : Nat) (valid out : Block) : Prop :=
  ∃ cut, Rectangular (p.tileBytes bpp) (p.rowBytes 0 bpp) cut ∧ out = cut.shift p.addr ∧
    valid.lower ≤ out.lower ∧ out.upper ≤ valid.upper

theorem LevelOfRows.endAddr_eq (h : p.LevelOfRows 0 bpp) (single : p.levels = 1) :
    p.endAddr = p.addr + p.tileRows 0 * p.rowBytes 0 bpp := by
  have finish := h.levelEnd.1
  rw [h.settled.endAddr_eq, single, finish, bytesBefore, Nat.zero_add]

theorem rowCut_shift (tile row start lower upper : Nat) :
    (let aligned : Block := ⟨start + roundUp tile lower, start + roundDown tile upper⟩
      let rect : Block := ⟨start + roundUp row (start + roundUp tile lower - start),
        start + roundDown row (start + roundDown tile upper - start)⟩
      if rect.upper < rect.lower then aligned
      else if rect.length = 0 then
        let row1 : Block := ⟨aligned.lower, rect.lower⟩
        let row2 : Block := ⟨rect.lower, aligned.upper⟩
        if row2.length < row1.length then row1 else row2
      else rect) = (rowCut tile row ⟨lower, upper⟩).shift start := by
  unfold rowCut Block.length
  simp only [Nat.add_sub_cancel_left, Nat.add_sub_add_left, Nat.add_lt_add_iff_left]
  split_ifs <;> rfl

theorem LevelOfRows.copyableStep_ok {valid : Block} (h : p.LevelOfRows 0 bpp)
    (single : p.levels = 1) (after : p.addr ≤ valid.lower) (nonempty : valid.lower < valid.upper)
    (before : valid.upper ≤ p.endAddr) (result : Block) :
    ∃ out, p.copyableStep bpp result valid = .ok out ∧ (out = result ∨ p.CutOf bpp valid out) := by
  have word := h.levelEnd.2.1
  rw [h.levelEnd.1] at word
  rw [h.endAddr_eq single] at before
  obtain ⟨-, lineUnit, tileUnit, divides, once⟩ := h.units
  have rowPositive := h.rowBytes_exact.2
  have tilePositive := h.tileBytes_exact.2
  have whole : p.rowBytes 0 bpp ∣ p.tileRows 0 * p.rowBytes 0 bpp := Nat.dvd_mul_left ..
  have strideBytes : mul32 (bytesInPixels bpp p.stride) p.tiledSize = p.rowBytes 0 bpp := by
    have line := h.lineBytes
    rw [Nat.shiftRight_zero] at lineUnit line
    rw [h.square, lineUnit, mul32_eq (by omega), line]
  have up := roundUp_le (a := valid.lower - p.addr) (divides.trans whole) (by omega)
  have down := roundDown_le (p.tileBytes bpp) (valid.upper - p.addr)
  unfold copyableStep
  rw [tileUnit]
  dsimp only
  rw [alignedInterval_eq tilePositive after nonempty.le (by omega) (by omega), ok_bind]
  split_ifs with none
  · exact ⟨result, rfl, .inl rfl⟩
  · push Not at none
    have some : roundUp (p.tileBytes bpp) (valid.lower - p.addr) <
        roundDown (p.tileBytes bpp) (valid.upper - p.addr) := by
      have length := none.2
      unfold Block.length at length
      dsimp only at length
      omega
    obtain ⟨rect, lower, upper⟩ :=
      rectangular_rowCut ⟨valid.lower - p.addr, valid.upper - p.addr⟩ divides rowPositive
        some
    have more := roundUp_le (a := roundUp (p.tileBytes bpp) (valid.lower - p.addr)) whole (by omega)
    rw [strideBytes, alignedInterval_eq rowPositive (Nat.le_add_right ..) (by dsimp only; omega)
      (by dsimp only; omega) (by rw [Nat.add_sub_cancel_left]; omega), ok_bind]
    have cut := rowCut_shift (p.tileBytes bpp) (p.rowBytes 0 bpp) p.addr (valid.lower - p.addr)
      (valid.upper - p.addr)
    dsimp only at cut lower upper ⊢
    rw [cut]
    refine ⟨_, rfl, ?_⟩
    split_ifs with longer
    · refine .inr ⟨_, rect, rfl, ?_, ?_⟩ <;> unfold Block.shift <;> dsimp only <;> omega
    · exact .inl rfl

theorem LevelOfRows.copyable_run (h : p.LevelOfRows 0 bpp) (single : p.levels = 1)
    (valid : List Block) (each : ∀ v ∈ valid,
      p.addr ≤ v.lower ∧ v.lower < v.upper ∧ v.upper ≤ p.endAddr) (result : Block) :
    ∃ out, valid.foldlM (p.copyableStep bpp) result = .ok out ∧
      (out = result ∨ ∃ v ∈ valid, p.CutOf bpp v out) := by
  induction valid generalizing result with
  | nil => exact ⟨result, rfl, .inl rfl⟩
  | cons v rest ih =>
    obtain ⟨after, nonempty, before⟩ := each v List.mem_cons_self
    obtain ⟨next, step, first⟩ := h.copyableStep_ok single after nonempty before result
    obtain ⟨out, run, later⟩ := ih (fun w hw => each w (List.mem_cons_of_mem v hw)) next
    refine ⟨out, ?_, ?_⟩
    · rw [List.foldlM_cons, step, ok_bind, run]
    · rcases later with rfl | ⟨w, hw, cut⟩
      · rcases first with rfl | cut
        · exact .inl rfl
        · exact .inr ⟨v, List.mem_cons_self, cut⟩
      · exact .inr ⟨w, List.mem_cons_of_mem v hw, cut⟩

/-- Parameters that `FromInterval` cut out of a level lie behind a whole number of its rows with
the same stride, or in one row. -/
theorem LevelOfRows.rect_of_part {d : ImageParams} {cut : Block} (h : d.LevelOfRows level bpp)
    (part : p.LevelOfRows 0 bpp) (single : p.levels = 1)
    (nonempty : interval.lower < interval.upper)
    (after : d.addr + d.bytesBefore bpp level ≤ interval.lower)
    (before : interval.upper ≤ d.addr + d.bytesBefore bpp (level + 1))
    (run : d.fromInterval interval = .ok p)
    (rect : Rectangular (p.tileBytes bpp) (p.rowBytes 0 bpp) cut)
    (inside : cut.upper ≤ p.tileRows 0 * p.rowBytes 0 bpp) :
    ∃ whole, cut.shift p.addr = whole.shift (d.addr + d.bytesBefore bpp level) ∧
      Rectangular (d.tileBytes bpp) (d.rowBytes level bpp) whole ∧
      whole.upper ≤ d.tileRows level * d.rowBytes level bpp := by
  obtain ⟨q, again, hull, tiled, shape⟩ := h.fromInterval_eq _ nonempty after before
  obtain rfl : q = p := Except.ok.inj (again.symm.trans run)
  have divides := h.units.2.2.2.1
  have tile : q.tileBytes bpp = d.tileBytes bpp := by
    unfold tileBytes tilePixels
    rw [tiled]
  have finish := part.endAddr_eq single
  have total : interval.upper - (d.addr + d.bytesBefore bpp level) ≤
      d.tileRows level * d.rowBytes level bpp := by
    have levelEnd := h.levelEnd.1
    omega
  have upper := rowHull_upper_le ⟨interval.lower - (d.addr + d.bytesBefore bpp level),
    interval.upper - (d.addr + d.bytesBefore bpp level)⟩ divides (Nat.dvd_mul_left ..) total
  have edge := (rowHull_tile divides ⟨interval.lower - (d.addr + d.bytesBefore bpp level),
    interval.upper - (d.addr + d.bytesBefore bpp level)⟩).1
  generalize rowHull (d.tileBytes bpp) (d.rowBytes level bpp)
    ⟨interval.lower - (d.addr + d.bytesBefore bpp level),
      interval.upper - (d.addr + d.bytesBefore bpp level)⟩ = whole at *
  have addr : q.addr = d.addr + d.bytesBefore bpp level + whole.lower := congrArg Block.lower hull
  have endAddr : q.endAddr = d.addr + d.bytesBefore bpp level + whole.upper :=
    congrArg Block.upper hull
  have inside' : whole.lower + cut.upper ≤ whole.upper := by omega
  refine ⟨cut.shift whole.lower, ?_, ?_, inside'.trans upper⟩
  · unfold Block.shift
    rw [addr, Nat.add_assoc, Nat.add_assoc, Nat.add_assoc]
  · rcases shape with ⟨rows, width⟩ | ⟨first, least, from_first, to_next⟩
    · have row : q.rowBytes 0 bpp = d.rowBytes level bpp := by
        unfold rowBytes tiledSize
        rw [Nat.shiftRight_zero, width, tiled, tile]
      rw [tile, row] at rect
      exact rect.shift divides rows
    · rw [tile] at rect
      exact {
        nonempty := Nat.add_lt_add_left rect.nonempty _
        lower := Nat.dvd_add edge rect.lower
        upper := Nat.dvd_add edge rect.upper
        rows := .inr ⟨first, least, from_first.trans (Nat.le_add_right ..),
          inside'.trans to_next⟩ }

end ImageParams

namespace Surface

open ImageParams

variable {surface : Surface} {p : ImageParams} {bpp : Nat}

theorem mem_validRegions {a : Nat} : a ∈ surface.validRegions p ↔
    p.getInterval.Has a ∧ surface.getInterval.Has a ∧ a ∉ surface.invalidRegions := by
  have both : (inter p.getInterval surface.getInterval).Has a ↔
      p.getInterval.Has a ∧ surface.getInterval.Has a := by
    unfold inter Block.Has
    dsimp only
    omega
  have outside : (∀ b ∈ surface.invalidRegions.blocks, ¬ b.Has a) ↔ a ∉ surface.invalidRegions := by
    rw [IntervalSet.mem_iff]
    push Not
    rfl
  rw [validRegions, IntervalSet.mem_removeAll, IntervalSet.mem_add, both, outside]
  simp [IntervalSet.not_mem_empty, and_assoc]

/-- The interval `c` can be copied from the surface to the parameters `p`; and to those that `p`
was cut out of. -/
structure CopyableSound (surface : Surface) (p : ImageParams) (bpp : Nat) (c : Block) : Prop where
  valid : ∀ a, c.Has a →
    p.getInterval.Has a ∧ surface.getInterval.Has a ∧ a ∉ surface.invalidRegions
  found : c.lower < c.upper → ∃ q, p.fromInterval c = .ok q ∧ q.getInterval = c
  whole : c.lower < c.upper → ∀ (d : ImageParams) level (interval : Block),
    d.LevelOfRows level bpp → interval.lower < interval.upper →
    d.addr + d.bytesBefore bpp level ≤ interval.lower →
    interval.upper ≤ d.addr + d.bytesBefore bpp (level + 1) → d.fromInterval interval = .ok p →
    ∃ q, d.fromInterval c = .ok q ∧ q.getInterval = c

/-- For parameters of one level, of whole tiles or whole bytes, the interval is valid in the
surface, and `FromInterval` finds it again. -/
theorem getCopyableInterval_sound (surface : Surface) (p : ImageParams) (bpp : Nat)
    (rows : p.LevelOfRows 0 bpp) (single : p.levels = 1) :
    ∃ c, surface.getCopyableInterval p = .ok c ∧ surface.CopyableSound p bpp c := by
  have blocks : ∀ v ∈ (surface.validRegions p).blocks,
      v.lower < v.upper ∧ ∀ a, v.Has a → a ∈ surface.validRegions p := fun v hv =>
    ⟨((surface.validRegions p).apart.bounds hv).2, fun a has => ⟨v, hv, has⟩⟩
  obtain ⟨c, run, found⟩ := rows.copyable_run single (surface.validRegions p).blocks
    (fun v hv => by
      obtain ⟨nonempty, all⟩ := blocks v hv
      have first := (mem_validRegions.mp (all v.lower ⟨le_rfl, nonempty⟩)).1
      have last := (mem_validRegions.mp (all (v.upper - 1) ⟨by omega, by omega⟩)).1
      unfold Block.Has getInterval at first last
      dsimp only at first last
      omega) ⟨0, 0⟩
  refine ⟨c, ?_, ?_⟩
  · rw [getCopyableInterval, rows.settled.format]
    exact run
  rcases found with rfl | ⟨v, hv, cut, rect, rfl, lower, upper⟩
  · exact ⟨fun a has => absurd has.2 (Nat.not_lt_zero a), fun none => absurd none (lt_irrefl 0),
      fun none => absurd none (lt_irrefl 0)⟩
  · obtain ⟨nonempty, all⟩ := blocks v hv
    have inside : cut.upper ≤ p.tileRows 0 * p.rowBytes 0 bpp := by
      have last := (mem_validRegions.mp (all (v.upper - 1) ⟨by omega, by omega⟩)).1
      have finish := rows.endAddr_eq single
      unfold Block.Has ImageParams.getInterval at last
      unfold Block.shift at upper
      dsimp only at last upper
      omega
    have exact := rows.fromInterval_exact rect inside
    refine ⟨fun a has => ?_, fun _ => exact, ?_⟩
    · exact mem_validRegions.mp (all a ⟨lower.trans has.1, has.2.trans_le upper⟩)
    · intro _ d level interval level_rows some after before part
      obtain ⟨whole, same, rect, below⟩ :=
        level_rows.rect_of_part rows single some after before part rect inside
      rw [same]
      exact level_rows.fromInterval_exact rect below

def ofParams (p : ImageParams) (ordered : p.addr < p.endAddr) (word : p.endAddr < 0x100000000)
    (invalidRegions : IntervalSet) : Surface where
  addr := p.addr
  endAddr := p.endAddr
  type := p.type
  width := p.width
  stride := p.stride
  ordered := ordered
  word := word
  registered := true
  invalidRegions := invalidRegions

theorem twoRows_rows : (twoRows 6).LevelOfRows 0 32 where
  settled :=
    { updated := by decide +kernel
      format := rfl
      array := rfl
      some := by decide
      wide := by decide
      high := by decide
      tall := by decide
      stride := by decide
      bits := by decide
      word := by decide }
  less := by decide
  square := rfl
  wide := by decide
  high := by decide
  tiles := fun _ => by decide
  bytes := fun linear => by cases linear

theorem getCopyableInterval_sound_twoRows :
    ∃ c, (ofParams (twoRows 6) (by decide) (by decide) IntervalSet.empty).getCopyableInterval
        (twoRows 6) = .ok c ∧
      (ofParams (twoRows 6) (by decide) (by decide) IntervalSet.empty).CopyableSound
        (twoRows 6) 32 c :=
  getCopyableInterval_sound _ (twoRows 6) 32 twoRows_rows rfl

def brokenTiles : ImageParams :=
  { twoRows 6 with width := 12, stride := 12, size := 0x300, endAddr := 0x18000f00 }

def halfBytes : ImageParams :=
  { twoRows 6 with
    isTiled := false
    pixelFormat := some .i4
    type := .texture
    size := 0x80
    endAddr := 0x18000c80 }

example : brokenTiles.updateParams = .ok brokenTiles ∧ halfBytes.updateParams = .ok halfBytes := by
  decide +kernel

/-- What is valid of two levels is not in one; the half of a row of tiles may end inside a tile; and
nothing is aligned to half a byte. -/
theorem getCopyableInterval_unsound :
    (∃ surface : Surface, surface.getInterval = tallTexture.getInterval ∧
      surface.getCopyableInterval tallTexture = .ok ⟨0x18000000, 0x18001200⟩ ∧
      tallTexture.fromInterval ⟨0x18000000, 0x18001200⟩ = .error (.assertion .surfaceParams)) ∧
    (∃ surface : Surface, surface.getInterval = brokenTiles.getInterval ∧
      surface.getCopyableInterval brokenTiles = .ok ⟨0x18000d80, 0x18000e00⟩ ∧
      ∃ q, brokenTiles.fromInterval ⟨0x18000d80, 0x18000e00⟩ = .ok q ∧
        q.getInterval = ⟨0x18000d00, 0x18000e00⟩) ∧
    ∃ surface : Surface, surface.getInterval = halfBytes.getInterval ∧
      surface.getCopyableInterval halfBytes = .error .undefinedBehaviour := by
  refine ⟨⟨ofParams tallTexture (by decide) (by decide)
      (IntervalSet.empty.add ⟨0x18001200, 0x18001400⟩), rfl, by decide +kernel, by decide +kernel⟩,
    ⟨ofParams brokenTiles (by decide) (by decide)
      ((IntervalSet.empty.add ⟨0x18000c00, 0x18000d00⟩).add ⟨0x18000e00, 0x18000f00⟩), rfl,
      by decide +kernel, ?_⟩,
    ⟨ofParams halfBytes (by decide) (by decide) IntervalSet.empty, rfl, by decide +kernel⟩⟩
  have value : ImageParams.getInterval <$> brokenTiles.fromInterval ⟨0x18000d80, 0x18000e00⟩ =
      .ok ⟨0x18000d00, 0x18000e00⟩ := by decide +kernel
  exact map_eq_ok.mp value

end Surface

end EmuThreeDS.VideoCore
