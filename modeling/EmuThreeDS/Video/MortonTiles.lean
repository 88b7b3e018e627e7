import EmuThreeDS.Video.TextureCodec

/-!
# The pixels of a tile

What the loop over a tile leaves in the rows: each byte belongs to one pixel.
-/
namespace EmuThreeDS.VideoCore

open Blit

def mortonColumn (m : Nat) : Nat := m % 2 + m / 4 % 2 * 2 + m / 16 % 2 * 4

def mortonRow (m : Nat) : Nat := m / 2 % 2 + m / 8 % 2 * 2 + m / 32 % 2 * 4

theorem mortonInterleave_column_row {m : Nat} (less : m < 64) :
    mortonColumn m < 8 ∧ mortonRow m < 8 ∧ mortonInterleave (mortonColumn m) (mortonRow m) = m := by
  have all : ∀ m < 64, mortonColumn m < 8 ∧ mortonRow m < 8 ∧
    mortonInterleave (mortonColumn m) (mortonRow m) = m := by decide +kernel
  exact all m less

theorem column_row_mortonInterleave {x y : Nat} (hx : x < 8) (hy : y < 8) :
    mortonInterleave x y < 64 ∧ mortonColumn (mortonInterleave x y) = x ∧
      mortonRow (mortonInterleave x y) = y := by
  have all : ∀ x < 8, ∀ y < 8, mortonInterleave x y < 64 ∧
    mortonColumn (mortonInterleave x y) = x ∧ mortonRow (mortonInterleave x y) = y := by
    decide +kernel
  exact all x hx y hy

theorem mortonInterleave_inj {x y x' y' : Nat} (hx : x < 8) (hy : y < 8) (hx' : x' < 8)
    (hy' : y' < 8) (same : mortonInterleave x y = mortonInterleave x' y') : x = x' ∧ y = y' := by
  obtain ⟨-, column, row⟩ := column_row_mortonInterleave hx hy
  obtain ⟨-, column', row'⟩ := column_row_mortonInterleave hx' hy'
  exact ⟨column.symm.trans ((congrArg mortonColumn same).trans column'),
    row.symm.trans ((congrArg mortonRow same).trans row')⟩

theorem mem_tileTexels {texel : Nat × Nat} : texel ∈ tileTexels ↔ texel.1 < 8 ∧ texel.2 < 8 := by
  obtain ⟨x, y⟩ := texel
  simp only [tileTexels, List.mem_flatMap, List.mem_range, List.mem_map, Prod.mk.injEq]
  constructor
  · rintro ⟨y', hy, x', hx, rfl, rfl⟩
    exact ⟨hx, hy⟩
  · rintro ⟨hx, hy⟩
    exact ⟨y, hy, x, hx, rfl, rfl⟩

variable {depth : FloatDepth} {format : PixelFormat} {converted : Bool} {stride : Nat}
  {tile linear : Nat → UInt8}

theorem length_asArray (color : Vec4) : color.asArray.length = 4 := rfl

theorem length_decodeTexel_le (x y : Nat) :
    (decodeTexel depth format converted tile x y).length ≤ format.linearBytes converted := by
  cases format <;> cases converted <;>
    simp [decodeTexel, PixelFormat.isCompressed, PixelFormat.is4bit, PixelFormat.linearBytes,
      PixelFormat.bytesPerPixel, decodePixelETC1, decodePixel4, decodePixel, length_asArray,
      PixelFormat.bitsPerBlock]

theorem linearTexel_le {x : Nat} (hx : x < 8) (y : Nat) :
    linearTexel format converted stride x y + format.linearBytes converted ≤
      (7 * stride + 8) * format.linearBytes converted := by
  have rows := Nat.mul_le_mul_right stride (Nat.sub_le 7 y)
  rw [linearTexel, ← Nat.succ_mul]
  exact Nat.mul_le_mul_right _ (by omega)

theorem rowPixels_apart (bytes : Nat) {row column row' column' : Nat} (inside : column < stride)
    (inside' : column' < stride) (other : ¬ (row = row' ∧ column = column')) :
    (row * stride + column) * bytes + bytes ≤ (row' * stride + column') * bytes ∨
      (row' * stride + column') * bytes + bytes ≤ (row * stride + column) * bytes := by
  have different : row * stride + column ≠ row' * stride + column' := by
    intro same
    have columns : (row * stride + column) % stride = (row' * stride + column') % stride := by
      rw [same]
    rw [Nat.mul_add_mod_self_right, Nat.mul_add_mod_self_right, Nat.mod_eq_of_lt inside,
      Nat.mod_eq_of_lt inside'] at columns
    subst columns
    exact other ⟨Nat.eq_of_mul_eq_mul_right (by omega) (Nat.add_right_cancel same), rfl⟩
  rcases Nat.lt_or_gt_of_ne different with less | greater
  · left
    rw [← Nat.succ_mul]
    exact Nat.mul_le_mul_right bytes less
  · right
    rw [← Nat.succ_mul]
    exact Nat.mul_le_mul_right bytes greater

def decodedAt (depth : FloatDepth) (format : PixelFormat) (converted : Bool) (stride : Nat)
    (tile : Nat → UInt8) (texel : Nat × Nat) (a : Nat) : Option UInt8 :=
  if a < linearTexel format converted stride texel.1 texel.2 then none
  else (decodeTexel depth format converted tile texel.1 texel.2)[
    a - linearTexel format converted stride texel.1 texel.2]?

theorem mortonToLinearTile_law (s : Nat → UInt8) (texel : Nat × Nat) (a : Nat) :
    blit s (linearTexel format converted stride texel.1 texel.2)
      (decodeTexel depth format converted tile texel.1 texel.2) a =
      (decodedAt depth format converted stride tile texel a).getD (s a) := by
  unfold blit decodedAt
  split_ifs <;> rfl

theorem mortonToLinearTile_inside {x y k : Nat} (wide : 8 ≤ stride) (hx : x < 8) (hy : y < 8)
    (inside : k < (decodeTexel depth format converted tile x y).length) :
    mortonToLinearTile depth format converted stride tile linear
        (linearTexel format converted stride x y + k) =
      (decodeTexel depth format converted tile x y)[k] := by
  refine foldl_written (fun s a => s a) (decodedAt depth format converted stride tile)
    mortonToLinearTile_law linear (mem_tileTexels.mpr (⟨hx, hy⟩ : (x, y).1 < 8 ∧ (x, y).2 < 8)) ?_ ?_
  · unfold decodedAt
    dsimp only
    rw [if_neg (by omega), Nat.add_sub_cancel_left]
    exact List.getElem?_eq_getElem inside
  · rintro ⟨x', y'⟩ mem
    obtain ⟨hx', hy'⟩ := mem_tileTexels.mp mem
    by_cases same : x = x' ∧ y = y'
    · obtain ⟨rfl, rfl⟩ := same
      right
      unfold decodedAt
      dsimp only
      rw [if_neg (by omega), Nat.add_sub_cancel_left]
      exact List.getElem?_eq_getElem inside
    · left
      have apart : ((7 - y) * stride + x) * format.linearBytes converted +
            format.linearBytes converted ≤ ((7 - y') * stride + x') * format.linearBytes converted ∨
          ((7 - y') * stride + x') * format.linearBytes converted +
            format.linearBytes converted ≤ ((7 - y) * stride + x) * format.linearBytes converted :=
        rowPixels_apart _ (by omega) (by omega) (by omega)
      have length : (decodeTexel depth format converted tile x y).length ≤ _ :=
        length_decodeTexel_le x y
      have length' : (decodeTexel depth format converted tile x' y').length ≤ _ :=
        length_decodeTexel_le x' y'
      unfold decodedAt linearTexel
      dsimp only
      split_ifs with before
      · rfl
      · exact List.getElem?_eq_none (by omega)

theorem mortonToLinearTile_outside {a : Nat} (outside : ∀ x < 8, ∀ y < 8,
      a < linearTexel format converted stride x y ∨
        linearTexel format converted stride x y + format.linearBytes converted ≤ a) :
    mortonToLinearTile depth format converted stride tile linear a = linear a := by
  refine foldl_kept (fun s a => s a) (decodedAt depth format converted stride tile)
    mortonToLinearTile_law linear ?_
  rintro ⟨x, y⟩ mem
  obtain ⟨hx, hy⟩ := mem_tileTexels.mp mem
  have length : (decodeTexel depth format converted tile x y).length ≤ _ :=
    length_decodeTexel_le x y
  unfold decodedAt
  dsimp only at hx hy ⊢
  rcases outside x hx y hy with before | behind
  · rw [if_pos before]
  · rw [if_neg (by omega)]
    exact List.getElem?_eq_none (by omega)

end EmuThreeDS.VideoCore
