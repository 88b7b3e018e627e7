import Mathlib.Data.List.Basic
import Mathlib.Data.Nat.ModEq

/-!
# Slots of a flat buffer

A buffer of elements used in slots of one size, and the windows of consecutive slots that go
on at the front of the buffer after its end.
-/
namespace FlatSlots

variable {α : Type}

def slot (g : Nat) (xs : List α) (i : Nat) : List α := (xs.drop (i * g)).take g

def setSlot (g : Nat) (xs : List α) (i : Nat) (s : List α) : List α :=
  xs.take (i * g) ++ (s ++ xs.drop (i * g + g))

/-- `count` slots from slot number `start` on, in a circle of `c` slots. -/
def window (g c : Nat) (xs : List α) (start count : Nat) : List α :=
  (List.range count).flatMap fun i => slot g xs ((start + i) % c)

variable {g i c start count : Nat} {xs s : List α}

theorem length_slot (inside : i * g + g ≤ xs.length) : (slot g xs i).length = g := by
  simp only [slot, List.length_take, List.length_drop]
  omega

theorem slot_inside {n : Nat} (h : i < n) : i * g + g ≤ n * g := by
  rw [← Nat.succ_mul]
  exact Nat.mul_le_mul_right g h

theorem length_setSlot (inside : i * g + g ≤ xs.length)
    (size : s.length = g) : (setSlot g xs i s).length = xs.length := by
  simp only [setSlot, List.length_append, List.length_take, List.length_drop, size]
  omega

theorem slot_getElem? (g : Nat) (xs : List α) (i j : Nat) :
    (slot g xs i)[j]? = if j < g then xs[i * g + j]? else none := by
  unfold slot
  rw [List.getElem?_take, List.getElem?_drop]

section

variable (inside : i * g + g ≤ xs.length) (size : s.length = g)
include inside size

theorem setSlot_getElem? (j : Nat) : (setSlot g xs i s)[j]? =
      if j < i * g then xs[j]? else if j < i * g + g then s[j - i * g]? else xs[j]? := by
  have front : (xs.take (i * g)).length = i * g := by
    rw [List.length_take]
    omega
  unfold setSlot
  split_ifs with before within
  · rw [List.getElem?_append_left (by omega), List.getElem?_take_of_lt before]
  · rw [List.getElem?_append_right (by omega), List.getElem?_append_left (by omega), front]
  · rw [List.getElem?_append_right (by omega), List.getElem?_append_right (by omega),
      List.getElem?_drop]
    congr 1
    omega

theorem slot_setSlot : slot g (setSlot g xs i s) i = s := by
  apply List.ext_getElem?
  intro j
  rw [slot_getElem?, setSlot_getElem? inside size]
  split_ifs with h₁ h₂ h₃
  · omega
  · congr 1
    omega
  · omega
  · exact (List.getElem?_eq_none (by omega)).symm

/-- A slot does not see what is written to another one. -/
theorem slot_setSlot_of_ne {k : Nat} (other : k ≠ i) : slot g (setSlot g xs i s) k = slot g xs k :=
    by
  apply List.ext_getElem?
  intro j
  rw [slot_getElem?, slot_getElem?, setSlot_getElem? inside size]
  rcases Nat.lt_or_gt_of_ne other with lower | higher
  · have := slot_inside (g := g) lower
    split_ifs
    · rfl
    · omega
    · omega
    · rfl
  · have := slot_inside (g := g) higher
    split_ifs
    · omega
    · omega
    · rfl
    · rfl

end

@[simp] theorem window_zero (g c : Nat) (xs : List α) (start : Nat) :
    window g c xs start 0 = [] := rfl

theorem window_succ (g c : Nat) (xs : List α) (start count : Nat) :
    window g c xs start (count + 1) =
      window g c xs start count ++ slot g xs ((start + count) % c) := by
  simp only [window, List.range_succ, List.flatMap_append, List.flatMap_singleton]

theorem window_add (g c : Nat) (xs : List α) (start m n : Nat) :
    window g c xs start (m + n) = window g c xs start m ++ window g c xs (start + m) n := by
  induction n with
  | zero => simp
  | succ n ih =>
    rw [← Nat.add_assoc, window_succ, window_succ, ih, List.append_assoc, Nat.add_assoc]

theorem length_window (size : xs.length = c * g) (pos : 0 < c)
    (start count : Nat) : (window g c xs start count).length = count * g := by
  induction count with
  | zero => simp
  | succ n ih =>
    have inside := slot_inside (g := g) (Nat.mod_lt (start + n) pos)
    rw [window_succ, List.length_append, ih, length_slot (by omega), Nat.succ_mul]

/-- Windows agree when their slots do. -/
theorem window_congr {ys : List α}
    (h : ∀ i < count, slot g xs ((start + i) % c) = slot g ys ((start + i) % c)) :
    window g c xs start count = window g c ys start count := by
  induction count with
  | zero => rfl
  | succ n ih =>
    rw [window_succ, window_succ, ih fun i small => h i (by omega), h n (by omega)]

/-- Slots less than a turn apart are different places of the circle. -/
theorem mod_ne_of_lt_turn {a b : Nat} (h : a < b) (turn : b < a + c) : b % c ≠ a % c := by
  intro same
  have apart := Nat.sub_mod_eq_zero_of_mod_eq same
  rw [Nat.mod_eq_of_lt (by omega)] at apart
  omega

/-- The window does not see a write behind its end that is within the turn. -/
theorem window_setSlot {p : Nat} (inside : xs.length = c * g)
    (size : s.length = g) (after : start + count ≤ p) (turn : p < start + c) :
    window g c (setSlot g xs (p % c) s) start count = window g c xs start count := by
  have place := slot_inside (g := g) (Nat.mod_lt p (by omega : 0 < c))
  apply window_congr
  intro i small
  exact slot_setSlot_of_ne (by omega) size (mod_ne_of_lt_turn (by omega) (by omega)).symm

end FlatSlots
