import EmuThreeDS.Video.MortonTiles

/-!
# The tiles of an image

Which tile in rows each turn of the copies is about, and the loop over whole tiles.
-/
namespace EmuThreeDS.VideoCore

def tiledBytes (format : PixelFormat) (width height : Nat) : Nat :=
  width * height * format.bitsPerBlock / 8

/-- Images of whole tiles that fit into the memory of the machine. -/
structure GuestImage (format : PixelFormat) (width height : Nat) : Prop where
  columns : width % 8 = 0
  rows : height % 8 = 0
  memory : tiledBytes format width height ≤ fcramSize

def tileCount (width height : Nat) : Nat := width / 8 * (height / 8)

section

variable (format : PixelFormat) (converted : Bool) (width height : Nat)

def tileStart (k : Nat) : Nat :=
  ((height - 8 - k / (width / 8) * 8) * width + k % (width / 8) * 8) *
    format.linearBytes converted

def tileAt (k : Nat) : TileCursor where
  x := k % (width / 8) * 8
  y := k / (width / 8) * 8
  linearOffset := tileStart format converted width height k

end

variable {format : PixelFormat} {converted : Bool} {width height k : Nat}

theorem tileSize_bits (format : PixelFormat) :
    format.tileSize = format.bitsPerBlock * 8 ∧ 4 ≤ format.bitsPerBlock := by
  cases format <;> decide

theorem linearBytes_bounds (format : PixelFormat) (converted : Bool) :
    0 < format.linearBytes converted ∧ format.linearBytes converted ≤ 4 := by
  cases format <;> cases converted <;> decide

theorem div_mod_of_lt {c t : Nat} (q : Nat) (less : t < c) :
    (q * c + t) / c = q ∧ (q * c + t) % c = t := by
  rw [Nat.mul_comm, Nat.mul_add_div (by omega), Nat.div_eq_of_lt less, Nat.mul_add_mod,
    Nat.mod_eq_of_lt less]
  exact ⟨rfl, rfl⟩

namespace GuestImage

variable (image : GuestImage format width height)

section

variable (image : GuestImage format width height)
include image

theorem tiledBytes_eq :
    tiledBytes format width height = tileCount width height * format.tileSize := by
  obtain ⟨columns, rows, -⟩ := image
  obtain ⟨c, rfl⟩ : ∃ c, width = 8 * c := ⟨width / 8, by omega⟩
  obtain ⟨r, rfl⟩ : ∃ r, height = 8 * r := ⟨height / 8, by omega⟩
  rw [tiledBytes, tileCount, (tileSize_bits format).1, Nat.mul_div_cancel_left _ (by decide),
    Nat.mul_div_cancel_left _ (by decide)]
  have product : 8 * c * (8 * r) * format.bitsPerBlock = 8 * (c * r * (format.bitsPerBlock * 8)) := by
    ring
  rw [product, Nat.mul_div_cancel_left _ (by decide)]

theorem linear_le (converted : Bool) :
    width * height * format.linearBytes converted ≤ 0x80000000 := by
  have bits := (tileSize_bits format).2
  have bytes := (linearBytes_bounds format converted).2
  have memory := image.memory
  have fewer := Nat.mul_le_mul_left (width * height) bits
  have most := Nat.mul_le_mul_left (width * height) bytes
  unfold tiledBytes fcramSize at memory
  obtain ⟨columns, rows, -⟩ := image
  have eight : 8 ∣ width * height := Dvd.dvd.mul_right (Nat.dvd_of_mod_eq_zero columns) height
  omega

theorem position (less : k < tileCount width height) :
    0 < width / 8 ∧ k % (width / 8) < width / 8 ∧ k / (width / 8) < height / 8 ∧
      width = 8 * (width / 8) ∧ height = 8 * (height / 8) := by
  have columns := image.columns
  have rows := image.rows
  have positive : 0 < width / 8 := by
    rcases Nat.eq_zero_or_pos (width / 8) with zero | positive
    · rw [tileCount, zero, Nat.zero_mul] at less
      cases less
    · exact positive
  exact ⟨positive, Nat.mod_lt _ positive, (Nat.div_lt_iff_lt_mul positive).mpr
    (by rwa [tileCount, Nat.mul_comm] at less), by omega, by omega⟩

theorem tileStart_le (converted : Bool) (less : k < tileCount width height) :
    tileStart format converted width height k + (7 * width + 8) * format.linearBytes converted ≤
      width * height * format.linearBytes converted := by
  obtain ⟨-, column, row, wide, tall⟩ := image.position less
  rw [tileStart, ← Nat.add_mul]
  refine Nat.mul_le_mul_right _ ?_
  generalize k / (width / 8) = q at row
  have above : height - 8 - q * 8 + 8 ≤ height := by omega
  have product := Nat.mul_le_mul_right width above
  rw [Nat.add_mul] at product
  rw [Nat.mul_comm width height]
  omega

theorem linearTileStride_eq (converted : Bool)
    (some : 0 < tileCount width height) : linearTileStride format converted width =
      (7 * width + 8) * format.linearBytes converted := by
  have inside := image.tileStart_le converted some
  have most := image.linear_le converted
  have one := (linearBytes_bounds format converted).1
  have once := Nat.le_mul_of_pos_right (7 * width + 8) one
  have rows : mul32 7 width = 7 * width := mul32_eq (by omega)
  have pixels : add32 (7 * width) 8 = 7 * width + 8 := add32_eq (by omega)
  rw [linearTileStride, rows, pixels, mul32_eq (by omega)]

theorem firstTile_eq (converted : Bool)
    (some : 0 < tileCount width height) : firstTile format converted width height =
      tileAt format converted width height 0 := by
  obtain ⟨positive, -, row, wide, tall⟩ := image.position some
  have inside := image.tileStart_le converted some
  have most := image.linear_le converted
  have one := (linearBytes_bounds format converted).1
  have once := Nat.le_mul_of_pos_right ((height - 8) * width) one
  have height_le := Nat.le_mul_of_pos_left height (show 0 < width by omega)
  have larger := Nat.le_mul_of_pos_right (width * height) one
  unfold firstTile tileAt
  unfold tileStart at inside ⊢
  simp only [Nat.zero_div, Nat.zero_mod, Nat.zero_mul, Nat.sub_zero, Nat.add_zero] at row inside ⊢
  have rows : mul32 (height - 8) width = (height - 8) * width := mul32_eq (by omega)
  rw [sub32_eq (by omega) (by omega), rows, mul32_eq (by omega)]

theorem nextTile_eq (converted : Bool) (less : k + 1 < tileCount width height) :
    nextTile format converted width height (tileAt format converted width height k) =
      tileAt format converted width height (k + 1) := by
  obtain ⟨positive, column, row, wide, tall⟩ := image.position (Nat.lt_of_succ_lt less)
  have row' := (image.position less).2.2.1
  have inside := image.tileStart_le converted (Nat.lt_of_succ_lt less)
  have most := image.linear_le converted
  obtain ⟨one, four⟩ := linearBytes_bounds format converted
  have high := Nat.lt_of_le_of_lt (Nat.zero_le _) row
  have pixels := Nat.le_mul_of_pos_right (width * height) one
  have width_le := Nat.le_mul_of_pos_right width (show 0 < height by omega)
  have height_le := Nat.le_mul_of_pos_left height (show 0 < width by omega)
  have offset : add32 (tileStart format converted width height k)
      (8 * format.linearBytes converted) =
      tileStart format converted width height k + 8 * format.linearBytes converted :=
    add32_eq (by omega)
  obtain ⟨t, q, rfl, ht⟩ : ∃ t q, k = q * (width / 8) + t ∧ t < width / 8 :=
    ⟨k % (width / 8), k / (width / 8), (Nat.div_add_mod' ..).symm, column⟩
  obtain ⟨quotient, rest⟩ := div_mod_of_lt q ht
  unfold nextTile tileAt
  dsimp only
  rw [offset]
  unfold tileStart
  rw [quotient, rest, add32_eq (by omega), add32_eq (by omega)]
  rcases Nat.lt_or_ge (t + 1) (width / 8) with later | last
  · -- the next tile of the row
    obtain ⟨quotient', rest'⟩ := div_mod_of_lt q later
    have column' : (t * 8 + 8) % width = t * 8 + 8 := Nat.mod_eq_of_lt (by omega)
    rw [Nat.add_assoc, quotient', rest', column', ← Nat.add_mul, Nat.add_mul t]
    rfl
  · -- the first tile of the next row
    have full : t * 8 + 8 = width := by omega
    have end_of_row : q * (width / 8) + t + 1 = (q + 1) * (width / 8) + 0 := by
      rw [Nat.succ_mul]
      omega
    rw [end_of_row] at row' ⊢
    obtain ⟨quotient', rest'⟩ := div_mod_of_lt (q + 1) positive
    rw [quotient'] at row' ⊢
    have row_next : (q * 8 + 8) % height = q * 8 + 8 := Nat.mod_eq_of_lt (by omega)
    rw [rest', full, Nat.mod_self, if_pos rfl, row_next, if_neg (by omega)]
    have nine : width * 9 * format.linearBytes converted ≤ 0x90000000 := by
      have eight := Nat.mul_le_mul_right (format.linearBytes converted)
        (Nat.mul_le_mul_left width (show 8 ≤ height by omega))
      have times : width * 8 * format.linearBytes converted =
          8 * (width * format.linearBytes converted) := by ring
      have times' : width * 9 * format.linearBytes converted =
          9 * (width * format.linearBytes converted) := by ring
      omega
    have rows : height - 8 - q * 8 = height - 8 - (q + 1) * 8 + 8 := by omega
    have up : ((height - 8 - q * 8) * width + t * 8) * format.linearBytes converted +
        8 * format.linearBytes converted =
        ((height - 8 - (q + 1) * 8) * width + 0 * 8) * format.linearBytes converted +
          width * 9 * format.linearBytes converted := by
      rw [← Nat.add_mul, Nat.add_assoc, full, rows]
      ring
    have nine' : mul32 width 9 = width * 9 :=
      mul32_eq (by have once := Nat.le_mul_of_pos_right (width * 9) one; omega)
    unfold tileStart at inside
    rw [quotient, rest] at inside
    rw [nine', mul32_eq (by omega), up, sub32_eq (by omega) (by omega), Nat.add_sub_cancel,
      Nat.add_mul q]

end

end GuestImage

theorem copyTiles_run (image : GuestImage format width height)
    {copyTile : Nat → Nat → Span → Exec Span} (Kept : Nat → Span → Prop) {first n offset fuel : Nat}
    {cursor : TileCursor} {span : Span} (inside : first + n ≤ tileCount width height)
    (enough : n ≤ fuel)
    (start : first < tileCount width height → cursor = tileAt format converted width height first)
    (kept : Kept 0 span) (turn : ∀ i < n, ∀ span, Kept i span → ∃ next,
      copyTile (tileStart format converted width height (first + i))
        (offset + i * format.tileSize) span = .ok next ∧ Kept (i + 1) next) :
    ∃ cursor' last, copyTiles format converted width height (offset + n * format.tileSize) copyTile
        fuel offset cursor span = .ok (offset + n * format.tileSize, cursor', last) ∧ Kept n last ∧
      (first + n < tileCount width height →
        cursor' = tileAt format converted width height (first + n)) := by
  induction n generalizing first offset fuel span cursor Kept with
  | zero =>
    refine ⟨cursor, span, ?_, kept, start⟩
    rw [Nat.zero_mul, Nat.add_zero]
    cases fuel with
    | zero | succ fuel =>
      rw [copyTiles, if_neg (Nat.lt_irrefl _)]
      rfl
  | succ n ih =>
    obtain ⟨fuel, rfl⟩ : ∃ more, fuel = more + 1 := ⟨fuel - 1, by omega⟩
    have size : 0 < format.tileSize := by
      have bits := tileSize_bits format
      omega
    obtain rfl := start (by omega)
    obtain ⟨next, step, kept'⟩ := turn 0 (Nat.zero_lt_succ n) span kept
    rw [Nat.zero_mul, Nat.add_zero, Nat.add_zero] at step
    have total : offset + (n + 1) * format.tileSize =
        offset + format.tileSize + n * format.tileSize := by
      rw [Nat.succ_mul]
      omega
    have later (i : Nat) (less : i < n) (span : Span) (kept : Kept (i + 1) span) :
        ∃ next, copyTile (tileStart format converted width height (first + 1 + i))
          (offset + format.tileSize + i * format.tileSize) span = .ok next ∧
            Kept (i + 1 + 1) next := by
      have place : offset + format.tileSize + i * format.tileSize =
          offset + (i + 1) * format.tileSize := by
        rw [Nat.succ_mul]
        omega
      rw [place, Nat.add_assoc first, Nat.add_comm 1]
      exact turn (i + 1) (Nat.succ_lt_succ less) span kept
    obtain ⟨cursor', last, run, kept'', after⟩ := @ih (fun i => Kept (i + 1)) (first + 1)
      (offset + format.tileSize) fuel _ next (by omega) (Nat.le_of_succ_le_succ enough)
      (image.nextTile_eq converted) kept' later
    refine ⟨cursor', last, ?_, kept'', ?_⟩
    · rw [copyTiles, if_pos (by omega)]
      unfold tileAt at run ⊢
      rw [step, total]
      exact run
    · rw [Nat.add_comm n, ← Nat.add_assoc]
      exact after

end EmuThreeDS.VideoCore
