import Mathlib.Data.Finset.Card
import Mathlib.Algebra.Group.Nat.Defs

/-!
# Bit fields

Fields of a word of `w` bits, each given by its position and its length. What is assigned is read
again, cut to the length, and a field apart from it does not see it.
-/
namespace BitField

variable {w : Nat}

def value (pos len : Nat) (x : BitVec w) : Nat := (x.extractLsb' pos len).toNat

def mask (w pos len : Nat) : BitVec w := (BitVec.allOnes len).setWidth w <<< pos

def assign (pos len : Nat) (x : BitVec w) (v : Nat) : BitVec w :=
  (x &&& ~~~ mask w pos len) ||| ((BitVec.ofNat w v <<< pos) &&& mask w pos len)

theorem value_lt (pos len : Nat) (x : BitVec w) : value pos len x < 2 ^ len := BitVec.isLt _

theorem getLsbD_mask {pos len i : Nat} (h : i < w) :
    (mask w pos len).getLsbD i = decide (pos ≤ i ∧ i < pos + len) := by
  simp only [mask, BitVec.getLsbD_shiftLeft, BitVec.getLsbD_setWidth, BitVec.getLsbD_allOnes]
  grind

theorem getLsbD_assign {pos len i : Nat} (x : BitVec w) (v : Nat) (h : i < w) :
    (assign pos len x v).getLsbD i =
      if pos ≤ i ∧ i < pos + len then v.testBit (i - pos) else x.getLsbD i := by
  simp only [assign, BitVec.getLsbD_or, BitVec.getLsbD_and, BitVec.getLsbD_not,
    BitVec.getLsbD_shiftLeft, BitVec.getLsbD_ofNat, getLsbD_mask h]
  split_ifs with inside
  · have late : ¬ i < pos := Nat.not_lt.mpr inside.1
    have room : i - pos < w := by omega
    simp [inside, h, late, room]
  · simp [inside, h]

theorem testBit_value (pos len i : Nat) (x : BitVec w) :
    (value pos len x).testBit i = (decide (i < len) && x.getLsbD (pos + i)) := by
  rw [value, BitVec.testBit_toNat, BitVec.getLsbD_extractLsb']

theorem value_assign {pos len : Nat} (fits : pos + len ≤ w) (x : BitVec w) (v : Nat) :
    value pos len (assign pos len x v) = v % 2 ^ len := by
  apply Nat.eq_of_testBit_eq
  intro i
  rw [testBit_value, Nat.testBit_mod_two_pow]
  by_cases h : i < len
  · rw [getLsbD_assign _ _ (by omega), if_pos (by omega), Nat.add_sub_cancel_left]
  · simp [h]

theorem value_assign_other {pos len pos' len' : Nat} (fits : pos' + len' ≤ w)
    (apart : pos' + len' ≤ pos ∨ pos + len ≤ pos') (x : BitVec w) (v : Nat) :
    value pos' len' (assign pos len x v) = value pos' len' x := by
  apply Nat.eq_of_testBit_eq
  intro i
  rw [testBit_value, testBit_value]
  by_cases h : i < len'
  · rw [getLsbD_assign _ _ (by omega), if_neg (by omega)]
  · simp [h]

end BitField

/-!
## Slots in a bit mask

A mask of `w` bits as a set of slots: taking one, giving one back, and the number taken.
-/
namespace BitSlots

variable {w : Nat} (x : BitVec w) (i j : Nat)

def take : BitVec w := x ||| 1#w <<< i

def giveBack : BitVec w := x &&& ~~~(1#w <<< i)

def taken : Finset Nat := (Finset.range w).filter fun i => x.getLsbD i = true

def count : Nat := (taken x).card

variable {x i j}

theorem mem_taken : i ∈ taken x ↔ x.getLsbD i = true := by
  unfold taken
  rw [Finset.mem_filter, Finset.mem_range]
  constructor
  · exact And.right
  · intro bit
    exact ⟨BitVec.lt_of_getLsbD bit, bit⟩

section

variable (inside : i < w)
include inside

theorem getLsbD_one_shiftLeft : (1#w <<< i).getLsbD j = decide (j = i) := by
  rw [BitVec.getLsbD_shiftLeft]
  by_cases same : j = i
  · subst same
    simp [inside]
    omega
  · simp [same]
    omega

theorem getLsbD_take : (take x i).getLsbD j = (x.getLsbD j || decide (j = i)) := by
  unfold take
  rw [BitVec.getLsbD_or, getLsbD_one_shiftLeft inside]

theorem getLsbD_giveBack : (giveBack x i).getLsbD j = (x.getLsbD j && !decide (j = i)) := by
  unfold giveBack
  rw [BitVec.getLsbD_and, BitVec.getLsbD_not, getLsbD_one_shiftLeft inside]
  by_cases bit : x.getLsbD j = true
  · have small := BitVec.lt_of_getLsbD bit
    simp [small]
  · simp [bit]

theorem taken_take : taken (take x i) = insert i (taken x) := by
  ext j
  rw [Finset.mem_insert, mem_taken, mem_taken, getLsbD_take inside, Bool.or_eq_true,
    decide_eq_true_iff, or_comm]

theorem taken_giveBack : taken (giveBack x i) = (taken x).erase i := by
  ext j
  rw [Finset.mem_erase, mem_taken, mem_taken, getLsbD_giveBack inside, Bool.and_eq_true,
    Bool.not_eq_true', decide_eq_false_iff_not, and_comm]

theorem count_take (free : x.getLsbD i = false) : count (take x i) = count x + 1 := by
  unfold count
  rw [taken_take inside, Finset.card_insert_of_notMem]
  rw [mem_taken, free]
  nofun

theorem count_giveBack (bit : x.getLsbD i = true) : count (giveBack x i) + 1 = count x := by
  unfold count
  rw [taken_giveBack inside]
  exact Finset.card_erase_add_one (mem_taken.mpr bit)

end

/-- With fewer than `n` slots taken, one of the first `n` is free. -/
theorem exists_free {n : Nat} (room : count x < n) : ∃ i < n, x.getLsbD i = false := by
  by_contra full
  have all : Finset.range n ⊆ taken x := by
    intro i mem
    rw [mem_taken]
    by_contra free
    exact full ⟨i, Finset.mem_range.mp mem, Bool.eq_false_iff.mpr free⟩
  have many := Finset.card_le_card all
  rw [Finset.card_range] at many
  exact absurd room (Nat.not_lt.mpr many)

end BitSlots
