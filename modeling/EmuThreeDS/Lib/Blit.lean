import Mathlib.Data.List.Basic
import Mathlib.Data.List.GetD
import Mathlib.Data.List.Induction
import Mathlib.Order.Basic

/-!
# Runs of cells

Cells addressed by numbers, a run of them read as a list and a list written over a run of them.
What is written is read again, and a run apart from it does not see it.
-/
namespace Blit

variable {α : Type}

def slice (m : Nat → α) (a n : Nat) : List α := (List.range n).map fun k => m (a + k)

def blit (m : Nat → α) (a : Nat) (data : List α) : Nat → α := fun b =>
  if b < a then m b else data[b - a]?.getD (m b)

variable {m m' : Nat → α} {a b n : Nat} {data front back : List α}

@[simp] theorem length_slice : (slice m a n).length = n := by
  rw [slice, List.length_map, List.length_range]

theorem slice_eq_slice : slice m a n = slice m' b n ↔ ∀ k < n, m (a + k) = m' (b + k) := by
  rw [slice, slice, List.map_inj_left]
  exact forall_congr' fun k => by rw [List.mem_range]

theorem slice_congr (same : ∀ k < n, m (a + k) = m' (a + k)) : slice m a n = slice m' a n :=
  slice_eq_slice.mpr same

theorem blit_before (before : b < a) : blit m a data b = m b := if_pos before

theorem blit_behind (behind : a + data.length ≤ b) : blit m a data b = m b := by
  rw [blit, if_neg (by omega), List.getElem?_eq_none (by omega)]
  rfl

theorem blit_inside {k : Nat} (inside : k < data.length) :
    blit m a data (a + k) = data.get ⟨k, inside⟩ := by
  rw [blit, if_neg (by omega), Nat.add_sub_cancel_left, List.getElem?_eq_getElem inside]
  rfl

theorem blit_getD (default : α) (start : a ≤ b) (inside : b < a + data.length) :
    blit m a data b = data.getD (b - a) default := by
  obtain ⟨k, rfl⟩ := Nat.exists_eq_add_of_le start
  have inside' : k < data.length := Nat.lt_of_add_lt_add_left inside
  rw [blit_inside inside', Nat.add_sub_cancel_left, List.getD_eq_getElem _ _ inside']
  rfl

/-- A run of another's cells. -/
theorem blit_slice_of {c : Nat} : blit m a (slice m' c n) b =
    if a ≤ b ∧ b < a + n then m' (c + (b - a)) else m b := by
  by_cases start : a ≤ b
  · obtain ⟨k, rfl⟩ := Nat.exists_eq_add_of_le start
    by_cases inside : k < n
    · have inside' : k < (slice m' c n).length := length_slice.symm ▸ inside
      rw [blit_inside inside', if_pos ⟨start, Nat.add_lt_add_left inside a⟩, Nat.add_sub_cancel_left]
      simp only [slice, List.get_eq_getElem, List.getElem_map, List.getElem_range]
    · rw [if_neg fun both => inside (Nat.lt_of_add_lt_add_left both.2), blit_behind]
      rw [length_slice]
      exact Nat.add_le_add_left (Nat.le_of_not_lt inside) a
  · rw [if_neg fun both => start both.1, blit_before (Nat.lt_of_not_le start)]

/-- Writing back what was read before another change undoes the change there. -/
theorem blit_slice : blit m a (slice m' a n) b = if a ≤ b ∧ b < a + n then m' b else m b := by
  rw [blit_slice_of]
  split_ifs with inside
  · rw [Nat.add_sub_cancel' inside.1]
  · rfl

theorem slice_blit : slice (blit m a data) a data.length = data := by
  apply List.ext_getElem length_slice
  intro k _ inside
  simp only [slice, List.getElem_map, List.getElem_range]
  exact blit_inside inside

theorem slice_blit_of_apart (apart : a + data.length ≤ b ∨ b + n ≤ a) :
    slice (blit m a data) b n = slice m b n := by
  apply slice_congr
  intro k inside
  rcases apart with behind | before
  · exact blit_behind (by omega)
  · exact blit_before (by omega)

/-- A part of what was written. -/
theorem slice_blit_part : slice (blit m a (front ++ data ++ back)) (a + front.length) data.length =
    data := by
  apply List.ext_getElem length_slice
  intro k _ inside
  simp only [slice, List.getElem_map, List.getElem_range]
  have within : front.length + k < (front ++ data ++ back).length := by
    simp only [List.length_append]
    omega
  have near : front.length + k < (front ++ data).length := by
    rw [List.length_append]
    omega
  rw [Nat.add_assoc, blit_inside within, List.get_eq_getElem]
  rw [List.getElem_append_left near, List.getElem_append_right (by omega)]
  congr 1
  omega

section

variable {σ ι κ : Type} (get : σ → κ → α) {set : σ → ι → σ} (written : ι → κ → Option α)
  {items : List ι} {item : ι} {cell : κ} {value : α}

/-- A cell that none of the writes is about keeps its value. -/
theorem foldl_kept (law : ∀ s i c, get (set s i) c = (written i c).getD (get s c)) (s : σ)
    (none : ∀ i ∈ items, written i cell = none) : get (items.foldl set s) cell = get s cell := by
  induction items generalizing s with
  | nil => rfl
  | cons i rest ih =>
    rw [List.foldl_cons, ih _ fun j hj => none j (List.mem_cons_of_mem i hj), law,
      none i List.mem_cons_self]
    rfl

/-- A cell that some of the writes are about, all with one value. -/
theorem foldl_written (law : ∀ s i c, get (set s i) c = (written i c).getD (get s c)) (s : σ)
    (mem : item ∈ items) (first : written item cell = some value)
    (agree : ∀ i ∈ items, written i cell = none ∨ written i cell = some value) :
    get (items.foldl set s) cell = value := by
  induction items using List.reverseRecOn with
  | nil => cases mem
  | append_singleton rest i ih =>
    rw [List.foldl_append, List.foldl_cons, List.foldl_nil, law]
    rcases agree i (by simp) with none | same
    · rw [none]
      refine ih ?_ fun j hj => agree j (List.mem_append_left _ hj)
      rcases List.mem_append.mp mem with mem | last
      · exact mem
      · rw [List.mem_singleton.mp last, none] at first
        cases first
    · rw [same]
      rfl

end

section

variable {ι : Type} (place : ι → Nat) (run : ι → List α) {items : List ι} {item : ι}
  {before : Nat → α}

/-- What is written may depend on cells that no run covers. -/
theorem foldl_blit_reads (from' : (Nat → α) → ι → List α) (source : Nat → Prop)
    (reads : ∀ m, (∀ a, source a → m a = before a) → ∀ i ∈ items, from' m i = run i)
    (apart : ∀ i ∈ items, ∀ a, source a → a < place i ∨ place i + (run i).length ≤ a)
    (same : ∀ a, source a → m a = before a) :
    items.foldl (fun m i => blit m (place i) (from' m i)) m =
      items.foldl (fun m i => blit m (place i) (run i)) m := by
  induction items generalizing m with
  | nil => rfl
  | cons i rest ih =>
    rw [List.foldl_cons, reads m same i List.mem_cons_self]
    apply ih (fun m same j mem => reads m same j (List.mem_cons_of_mem i mem))
      fun j mem => apart j (List.mem_cons_of_mem i mem)
    intro a inSource
    rw [← same a inSource]
    rcases apart i List.mem_cons_self a inSource with in_front | behind
    · exact blit_before in_front
    · exact blit_behind behind

theorem foldl_blit_outside (outside : ∀ i ∈ items, a < place i ∨ place i + (run i).length ≤ a) :
    items.foldl (fun m i => blit m (place i) (run i)) m a = m a := by
  induction items generalizing m with
  | nil => rfl
  | cons i rest ih =>
    rw [List.foldl_cons, ih fun j mem => outside j (List.mem_cons_of_mem i mem)]
    rcases outside i List.mem_cons_self with in_front | behind
    · exact blit_before in_front
    · exact blit_behind behind

/-- Runs that are apart keep what is written to them. -/
theorem foldl_blit_inside {k : Nat} (mem : item ∈ items) (apart : ∀ i ∈ items, i ≠ item →
      place item + (run item).length ≤ place i ∨ place i + (run i).length ≤ place item)
    (inside : k < (run item).length) :
    items.foldl (fun m i => blit m (place i) (run i)) m (place item + k) =
      (run item).get ⟨k, inside⟩ := by
  induction items using List.reverseRecOn with
  | nil => cases mem
  | append_singleton rest i ih =>
    rw [List.foldl_append]
    by_cases last : i = item
    · subst last
      exact blit_inside inside
    · have earlier : item ∈ rest := by
        rcases List.mem_append.mp mem with earlier | same
        · exact earlier
        · exact absurd (List.mem_singleton.mp same).symm last
      have kept := ih earlier fun j mem => apart j (List.mem_append_left _ mem)
      rw [← kept]
      rcases apart i (by simp) last with in_front | behind
      · exact blit_before (by omega)
      · exact blit_behind (by omega)

end

def grid (width height : Nat) : List (Nat × Nat) :=
  (List.range height).flatMap fun y => (List.range width).map fun x => (x, y)

theorem grid_succ (width height : Nat) :
    grid width (height + 1) = grid width height ++ (List.range width).map fun x => (x, height) := by
  rw [grid, List.range_succ, List.flatMap_append, List.flatMap_singleton]
  rfl

theorem mem_grid {width height x y : Nat} : (x, y) ∈ grid width height ↔ x < width ∧ y < height := by
  simp only [grid, List.mem_flatMap, List.mem_range, List.mem_map, Prod.mk.injEq]
  constructor
  · rintro ⟨y', hy, x', hx, rfl, rfl⟩
    exact ⟨hx, hy⟩
  · rintro ⟨hx, hy⟩
    exact ⟨y, hy, x, hx, rfl, rfl⟩

end Blit
