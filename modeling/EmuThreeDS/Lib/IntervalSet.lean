import Mathlib.Data.List.Basic
import Mathlib.Algebra.Order.Group.Nat
import Mathlib.Algebra.Divisibility.Basic
import Mathlib.Algebra.GroupWithZero.Nat

/-!
# Sets of numbers as half-open blocks

A set is kept as its maximal blocks in increasing order: none is empty and no two touch, so
there is one list for each set. Union and difference with one block keep that form.
-/
namespace Intervals

/-- The numbers from `lower` up to, not including, `upper`. -/
structure Block where
  lower : Nat
  upper : Nat
  deriving DecidableEq

namespace Block

def length (b : Block) : Nat := b.upper - b.lower

def Has (b : Block) (a : Nat) : Prop := b.lower ≤ a ∧ a < b.upper

instance (b : Block) (a : Nat) : Decidable (b.Has a) := inferInstanceAs (Decidable (_ ∧ _))

end Block

/-- The blocks start at `k` or later, in order, with a gap between any two. -/
def Apart : Nat → List Block → Prop
  | _, [] => True
  | k, b :: rest => k ≤ b.lower ∧ b.lower < b.upper ∧ Apart (b.upper + 1) rest

variable {bs : List Block} {k lower upper : Nat}

theorem Apart.mono {j : Nat} (h : Apart k bs) (le : j ≤ k) : Apart j bs := by
  cases bs with
  | nil => exact True.intro
  | cons b rest => exact ⟨Nat.le_trans le h.1, h.2⟩

theorem Apart.bounds (h : Apart k bs) {b : Block} (hb : b ∈ bs) :
    k ≤ b.lower ∧ b.lower < b.upper := by
  induction bs generalizing k with
  | nil => exact nomatch hb
  | cons c rest ih =>
    rcases List.mem_cons.mp hb with rfl | hb
    · exact ⟨h.1, h.2.1⟩
    · have later := ih h.2.2 hb
      have := h.1
      have := h.2.1
      omega

def insertBlock (lower upper : Nat) : List Block → List Block
  | [] => [⟨lower, upper⟩]
  | b :: rest =>
    if b.upper < lower then b :: insertBlock lower upper rest
    else if upper < b.lower then ⟨lower, upper⟩ :: b :: rest
    else insertBlock (min b.lower lower) (max b.upper upper) rest

theorem apart_insertBlock (h : Apart k bs)
    (start : k ≤ lower) (nonempty : lower < upper) : Apart k (insertBlock lower upper bs) := by
  induction bs generalizing k lower upper with
  | nil => exact ⟨start, nonempty, True.intro⟩
  | cons b rest ih =>
    obtain ⟨hk, hb, later⟩ := h
    unfold insertBlock
    split_ifs with before after
    · exact ⟨hk, hb, ih later (by omega) nonempty⟩
    · exact ⟨start, nonempty, after, hb, later⟩
    · exact ih (later.mono (by omega)) (by omega) (by omega)

theorem mem_insertBlock {a : Nat} (nonempty : lower < upper) :
    (∃ b ∈ insertBlock lower upper bs, b.Has a) ↔ (lower ≤ a ∧ a < upper) ∨ ∃ b ∈ bs, b.Has a := by
  induction bs generalizing lower upper with
  | nil => simp [insertBlock, Block.Has]
  | cons b rest ih =>
    unfold insertBlock
    split_ifs with before after
    · simp only [List.exists_mem_cons_iff, ih nonempty]
      exact or_left_comm
    · simp only [List.exists_mem_cons_iff, Block.Has]
    · rw [ih (by omega), List.exists_mem_cons_iff, ← or_assoc]
      refine or_congr_left ?_
      unfold Block.Has
      omega

theorem Apart.pairwise (h : Apart k bs) : bs.Pairwise fun b c => b.upper < c.lower := by
  induction bs generalizing k with
  | nil => exact List.Pairwise.nil
  | cons b rest ih =>
    refine List.Pairwise.cons ?_ (ih h.2.2)
    intro c hc
    exact (h.2.2.bounds hc).1

def total (bs : List Block) : Nat := (bs.map Block.length).sum

/-- A new block that holds no number of the old ones adds its length, even where it joins two. -/
theorem total_insertBlock (h : Apart k bs)
    (nonempty : lower < upper) (new : ∀ a, lower ≤ a → a < upper → ¬ ∃ b ∈ bs, b.Has a) :
    total (insertBlock lower upper bs) = upper - lower + total bs := by
  induction bs generalizing k lower upper with
  | nil => rfl
  | cons b rest ih =>
    obtain ⟨_, hb, later⟩ := h
    have apart : ¬ (b.lower < upper ∧ lower < b.upper) := by
      rintro ⟨low, high⟩
      refine new (max b.lower lower) (by omega) (by omega) ⟨b, List.mem_cons_self, ?_⟩
      unfold Block.Has
      omega
    have new_rest : ∀ a, lower ≤ a → a < upper → ¬ ∃ c ∈ rest, c.Has a := by
      rintro a low high ⟨c, hc, has⟩
      exact new a low high ⟨c, List.mem_cons_of_mem b hc, has⟩
    have cons : ∀ bs, total (b :: bs) = b.upper - b.lower + total bs := fun _ => rfl
    unfold insertBlock
    split_ifs with before after
    · rw [cons, cons, ih later nonempty new_rest]
      omega
    · rfl
    · rw [ih later (by omega), cons]
      · omega
      · rintro a low high ⟨c, hc, has⟩
        have above := (later.bounds hc).1
        by_cases on : lower ≤ a ∧ a < upper
        · exact new_rest a on.1 on.2 ⟨c, hc, has⟩
        · have := has.1
          omega

def piece (lower upper : Nat) : List Block := if lower < upper then [⟨lower, upper⟩] else []

def removeBlock (lower upper : Nat) : List Block → List Block
  | [] => []
  | b :: rest => piece b.lower (min b.upper lower) ++
      (piece (max b.lower upper) b.upper ++ removeBlock lower upper rest)

theorem apart_piece (h : Apart (upper + 1) bs)
    (start : k ≤ lower) (rest : Apart k bs) : Apart k (piece lower upper ++ bs) := by
  unfold piece
  split_ifs with nonempty
  · exact ⟨start, nonempty, h⟩
  · exact rest

theorem apart_removeBlock (h : Apart k bs)
    (nonempty : lower < upper) : Apart k (removeBlock lower upper bs) := by
  induction bs generalizing k with
  | nil => exact True.intro
  | cons b rest ih =>
    obtain ⟨hk, hb, later⟩ := h
    have tail := ih later
    refine apart_piece ?_ hk ?_
    · refine apart_piece tail (by omega) (tail.mono (by omega))
    · exact apart_piece tail (by omega) (tail.mono (by omega))

theorem mem_piece {a : Nat} : (∃ b ∈ piece lower upper, b.Has a) ↔ lower ≤ a ∧ a < upper := by
  unfold piece
  split_ifs with nonempty
  · simp [Block.Has]
  · constructor
    · rintro ⟨b, hb, _⟩
      exact nomatch hb
    · omega

theorem exists_mem_append {P : Block → Prop} {cs : List Block} :
    (∃ b ∈ bs ++ cs, P b) ↔ (∃ b ∈ bs, P b) ∨ ∃ b ∈ cs, P b := by
  simp only [List.mem_append, or_and_right, exists_or]

theorem mem_removeBlock {a : Nat} : (∃ b ∈ removeBlock lower upper bs, b.Has a) ↔
      (∃ b ∈ bs, b.Has a) ∧ ¬ (lower ≤ a ∧ a < upper) := by
  induction bs with
  | nil => simp [removeBlock]
  | cons b rest ih =>
    rw [removeBlock, exists_mem_append, exists_mem_append, mem_piece, mem_piece, ih,
      List.exists_mem_cons_iff, or_and_right, ← or_assoc]
    refine or_congr_left ?_
    unfold Block.Has
    omega

/-- The blocks are part of the value in their one canonical form. -/
structure IntervalSet where
  blocks : List Block
  apart : Apart 0 blocks

namespace IntervalSet

instance : Membership Nat IntervalSet := ⟨fun s a => ∃ b ∈ s.blocks, b.Has a⟩

theorem mem_iff {s : IntervalSet} {a : Nat} : a ∈ s ↔ ∃ b ∈ s.blocks, b.Has a := Iff.rfl

def empty : IntervalSet := ⟨[], True.intro⟩

theorem not_mem_empty (a : Nat) : a ∉ empty := by
  rintro ⟨b, hb, _⟩
  exact nomatch hb

/-- Union with one block; an empty block adds nothing. -/
def add (s : IntervalSet) (b : Block) : IntervalSet :=
  if h : b.lower < b.upper then
    ⟨insertBlock b.lower b.upper s.blocks, apart_insertBlock s.apart (Nat.zero_le _) h⟩
  else s

def remove (s : IntervalSet) (b : Block) : IntervalSet :=
  if h : b.lower < b.upper then
    ⟨removeBlock b.lower b.upper s.blocks, apart_removeBlock s.apart h⟩
  else s

def contains (s : IntervalSet) (b : Block) : Bool :=
  b.upper ≤ b.lower || s.blocks.any fun c => c.lower ≤ b.lower && b.upper ≤ c.upper

def intersects (s : IntervalSet) (b : Block) : Bool :=
  b.lower < b.upper && s.blocks.any fun c => c.lower < b.upper && b.lower < c.upper

variable {s : IntervalSet} {b : Block} {a : Nat}

theorem mem_add : a ∈ s.add b ↔ b.Has a ∨ a ∈ s := by
  unfold add
  split_ifs with nonempty
  · exact mem_insertBlock nonempty
  · refine (or_iff_right ?_).symm
    unfold Block.Has
    omega

theorem mem_remove : a ∈ s.remove b ↔ a ∈ s ∧ ¬ b.Has a := by
  unfold remove
  split_ifs with nonempty
  · exact mem_removeBlock
  · refine (and_iff_left ?_).symm
    unfold Block.Has
    omega

theorem mem_of_contains (h : s.contains b = true) (ha : b.Has a) : a ∈ s := by
  simp only [contains, Bool.or_eq_true, decide_eq_true_eq, List.any_eq_true,
    Bool.and_eq_true] at h
  rcases h with empty | ⟨c, hc, low, high⟩
  · unfold Block.Has at ha
    omega
  · exact ⟨c, hc, Nat.le_trans low ha.1, Nat.lt_of_lt_of_le ha.2 high⟩

theorem intersects_iff : s.intersects b = true ↔ ∃ a, b.Has a ∧ a ∈ s := by
  simp only [intersects, Bool.and_eq_true, decide_eq_true_eq, List.any_eq_true]
  constructor
  · rintro ⟨nonempty, c, hc, low, high⟩
    have := (s.apart.bounds hc).2
    refine ⟨max b.lower c.lower, ?_, c, hc, ?_⟩ <;> unfold Block.Has <;> omega
  · rintro ⟨a, on, c, hc, onc⟩
    unfold Block.Has at on onc
    exact ⟨by omega, c, hc, by omega, by omega⟩

theorem total_add (nonempty : b.lower < b.upper) (new : ∀ a, b.Has a → a ∉ s) :
    total (s.add b).blocks = b.length + total s.blocks := by
  unfold add
  rw [dif_pos nonempty]
  exact total_insertBlock s.apart nonempty fun a low high => new a ⟨low, high⟩

def removeAll (s : IntervalSet) (bs : List Block) : IntervalSet := bs.foldl remove s

theorem mem_removeAll : a ∈ s.removeAll bs ↔ a ∈ s ∧ ∀ b ∈ bs, ¬ b.Has a := by
  induction bs generalizing s with
  | nil => simp [removeAll]
  | cons b rest ih =>
    rw [removeAll, List.foldl_cons, ← removeAll, ih, mem_remove, List.forall_mem_cons, and_assoc]

end IntervalSet

/-!
## Intervals of rows and tiles

A plane is laid out row by row and each row tile by tile. An interval of it is a rectangle if it
is made of whole rows, or of tiles of one row. `rowHull` is the smallest rectangle around an
interval and `rowCut` a rectangle inside it.
-/

def roundDown (size a : Nat) : Nat := a - a % size

def roundUp (size a : Nat) : Nat := if a % size = 0 then a else a - a % size + size

variable {size a b : Nat}

theorem dvd_roundDown (size a : Nat) : size ∣ roundDown size a := Nat.dvd_sub_mod a

theorem roundDown_le (size a : Nat) : roundDown size a ≤ a := Nat.sub_le ..

theorem lt_roundDown (positive : 0 < size) (a : Nat) : a < roundDown size a + size := by
  have less := Nat.mod_lt a positive
  unfold roundDown
  omega

theorem le_roundDown (h : size ∣ b) (le : b ≤ a) : b ≤ roundDown size a := by
  obtain ⟨n, rfl⟩ := h
  rcases Nat.eq_zero_or_pos size with rfl | positive
  · simp
  · have less := lt_roundDown positive a
    obtain ⟨m, eq⟩ := dvd_roundDown size a
    rw [eq, ← Nat.mul_succ] at less
    rw [eq]
    have fewer := Nat.lt_of_mul_lt_mul_left (le.trans_lt less)
    exact Nat.mul_le_mul_left _ (Nat.le_of_lt_succ fewer)

theorem dvd_roundUp (size a : Nat) : size ∣ roundUp size a := by
  unfold roundUp
  split_ifs with whole
  · exact Nat.dvd_of_mod_eq_zero whole
  · exact Nat.dvd_add (dvd_roundDown size a) dvd_rfl

theorem le_roundUp (positive : 0 < size) (a : Nat) : a ≤ roundUp size a := by
  have less := Nat.mod_lt a positive
  unfold roundUp
  split_ifs <;> omega

theorem roundUp_lt (positive : 0 < size) (a : Nat) : roundUp size a < a + size := by
  have le := Nat.mod_le a size
  unfold roundUp
  split_ifs <;> omega

theorem roundUp_le (h : size ∣ b) (le : a ≤ b) : roundUp size a ≤ b := by
  unfold roundUp
  split_ifs with whole
  · exact le
  · have down : a - a % size < b := by
      have least := Nat.mod_le a size
      omega
    obtain ⟨n, rfl⟩ := h
    obtain ⟨m, eq⟩ := dvd_roundDown size a
    change a - a % size = size * m at eq
    rw [eq] at down ⊢
    exact Nat.mul_le_mul_left _ (Nat.lt_of_mul_lt_mul_left down)

theorem roundDown_eq (h : size ∣ a) : roundDown size a = a := by
  rw [roundDown, Nat.mod_eq_zero_of_dvd h, Nat.sub_zero]

theorem roundUp_eq (h : size ∣ a) : roundUp size a = a := if_pos (Nat.mod_eq_zero_of_dvd h)

variable {tile row : Nat} {block : Block}

def Block.shift (block : Block) (start : Nat) : Block := ⟨start + block.lower, start + block.upper⟩

/-- Whole rows, or tiles of the row that starts at `first`. -/
structure Rectangular (tile row : Nat) (block : Block) : Prop where
  nonempty : block.lower < block.upper
  lower : tile ∣ block.lower
  upper : tile ∣ block.upper
  rows : (row ∣ block.lower ∧ row ∣ block.upper) ∨
    ∃ first, row ∣ first ∧ first ≤ block.lower ∧ block.upper ≤ first + row

theorem Rectangular.shift {start : Nat} (h : Rectangular tile row block) (tiles : tile ∣ row)
    (whole : row ∣ start) : Rectangular tile row (block.shift start) where
  nonempty := Nat.add_lt_add_left h.nonempty start
  lower := Nat.dvd_add (tiles.trans whole) h.lower
  upper := Nat.dvd_add (tiles.trans whole) h.upper
  rows := by
    rcases h.rows with ⟨lower, upper⟩ | ⟨first, least, after, before⟩
    · exact .inl ⟨Nat.dvd_add whole lower, Nat.dvd_add whole upper⟩
    · refine .inr ⟨start + first, Nat.dvd_add whole least, Nat.add_le_add_left after start, ?_⟩
      rw [Nat.add_assoc]
      exact Nat.add_le_add_left before start

def rowHull (tile row : Nat) (block : Block) : Block :=
  if row < roundUp row block.upper - roundDown row block.lower then
    ⟨roundDown row block.lower, roundUp row block.upper⟩
  else ⟨roundDown tile block.lower, roundUp tile block.upper⟩

theorem rowHull_tile (tiles : tile ∣ row) (block : Block) : tile ∣ (rowHull tile row block).lower ∧
    tile ∣ (rowHull tile row block).upper := by
  unfold rowHull
  split_ifs
  · exact ⟨tiles.trans (dvd_roundDown ..), tiles.trans (dvd_roundUp ..)⟩
  · exact ⟨dvd_roundDown .., dvd_roundUp ..⟩

/-- The rectangle does not stick out of a plane of whole rows. -/
theorem rowHull_upper_le (block : Block) {plane : Nat} (tiles : tile ∣ row) (whole : row ∣ plane)
    (inside : block.upper ≤ plane) : (rowHull tile row block).upper ≤ plane := by
  unfold rowHull
  split_ifs
  · exact roundUp_le whole inside
  · exact roundUp_le (tiles.trans whole) inside

theorem Rectangular.rowHull (h : Rectangular tile row block) : rowHull tile row block = block := by
  unfold Intervals.rowHull
  rw [roundDown_eq h.lower, roundUp_eq h.upper]
  rcases h.rows with ⟨lower, upper⟩ | ⟨first, whole, start, finish⟩
  · rw [roundDown_eq lower, roundUp_eq upper, ite_self]
  · have down := le_roundDown whole start
    have up := roundUp_le (Nat.dvd_add whole dvd_rfl) finish
    rw [if_neg (by omega)]

/-- The largest whole number of rows, or else what there is of one row, the larger part of two. -/
def rowCut (tile row : Nat) (block : Block) : Block :=
  let aligned : Block := ⟨roundUp tile block.lower, roundDown tile block.upper⟩
  let rows : Block := ⟨roundUp row aligned.lower, roundDown row aligned.upper⟩
  if rows.upper < rows.lower then aligned
  else if rows.length = 0 then
    let row1 : Block := ⟨aligned.lower, rows.lower⟩
    let row2 : Block := ⟨rows.lower, aligned.upper⟩
    if row2.length < row1.length then row1 else row2
  else rows

/-- The interval has a tile, and so the cut is not empty. -/
theorem rectangular_rowCut (block : Block) (tiles : tile ∣ row) (positive : 0 < row)
    (some : roundUp tile block.lower < roundDown tile block.upper) :
    Rectangular tile row (rowCut tile row block) ∧ block.lower ≤ (rowCut tile row block).lower ∧
      (rowCut tile row block).upper ≤ block.upper := by
  have tilePositive : 0 < tile := Nat.pos_of_dvd_of_pos tiles positive
  have lower := le_roundUp tilePositive block.lower
  have upper := roundDown_le tile block.upper
  have lowerTile := dvd_roundUp tile block.lower
  have upperTile := dvd_roundDown tile block.upper
  have up := le_roundUp positive (roundUp tile block.lower)
  have upLess := roundUp_lt positive (roundUp tile block.lower)
  have upRow := dvd_roundUp row (roundUp tile block.lower)
  have down := roundDown_le row (roundDown tile block.upper)
  have downLess := lt_roundDown positive (roundDown tile block.upper)
  have downRow := dvd_roundDown row (roundDown tile block.upper)
  unfold rowCut Block.length
  dsimp only
  split_ifs with inside meet larger
  · refine ⟨⟨some, lowerTile, upperTile, .inr ?_⟩, lower, upper⟩
    refine ⟨roundDown row (roundDown tile block.upper), downRow, ?_, downLess.le⟩
    by_contra before
    dsimp only at before
    exact absurd (roundUp_le downRow (by omega)) (Nat.not_le.mpr inside)
  · refine ⟨⟨by dsimp only; omega, lowerTile, tiles.trans upRow, .inr ?_⟩, lower, by
      dsimp only; omega⟩
    obtain ⟨first, before⟩ : ∃ first, roundUp row (roundUp tile block.lower) = first + row := by
      exact ⟨roundUp row (roundUp tile block.lower) - row, by
        have least := Nat.le_of_dvd (by omega) upRow
        omega⟩
    have whole : row ∣ first := (Nat.dvd_add_left dvd_rfl).mp (before ▸ upRow)
    exact ⟨first, whole, by dsimp only; omega, before.le⟩
  · refine ⟨⟨by dsimp only; omega, tiles.trans upRow, upperTile, .inr ?_⟩, by
      dsimp only; omega, upper⟩
    exact ⟨_, upRow, le_rfl, by dsimp only; omega⟩
  · refine ⟨⟨by dsimp only; omega, tiles.trans upRow, tiles.trans downRow, .inl ⟨upRow, downRow⟩⟩,
      ?_, ?_⟩ <;> dsimp only <;> omega

end Intervals
