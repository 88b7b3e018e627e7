import EmuThreeDS.Exec
import EmuThreeDS.Lib.Blit

/-!
# Buffers

The elements behind a pointer. An access outside the buffer is undefined.
-/
namespace EmuThreeDS

open Blit

def Returns {α : Type} (x : Exec α) (Q : α → Prop) : Prop := ∃ a, x = .ok a ∧ Q a

section

variable {α β : Type} {x y : Exec α} {P Q : α → Prop} {R : β → Prop}

theorem returns_ok {a : α} (h : Q a) : Returns (.ok a) Q := ⟨a, rfl, h⟩

theorem returns_bind {f : α → Exec β} (first : Returns x P)
    (later : ∀ a, P a → Returns (f a) R) : Returns (x >>= f) R := by
  obtain ⟨a, run, holds⟩ := first
  rw [run]
  exact later a holds

theorem returns_ite {p : Prop} [Decidable p] (yes : p → Returns x Q) (no : ¬ p → Returns y Q) :
    Returns (if p then x else y) Q := by
  split_ifs with h
  · exact yes h
  · exact no h

theorem Returns.mono (h : Returns x P) (imp : ∀ a, P a → Q a) : Returns x Q := by
  obtain ⟨a, run, holds⟩ := h
  exact ⟨a, run, imp a holds⟩

theorem returns_range {f : α → Nat → Exec α} {n : Nat} (I : Nat → α → Prop)
    (step : ∀ i < n, ∀ a, I i a → Returns (f a i) (I (i + 1))) {a : α} (init : I 0 a) :
    Returns ((List.range n).foldlM f a) (I n) := by
  induction n with
  | zero => exact returns_ok init
  | succ n ih =>
    rw [List.range_succ, List.foldlM_append]
    apply returns_bind (ih fun i less => step i (Nat.lt_succ_of_lt less))
    intro b holds
    apply returns_bind (step n (Nat.lt_succ_self n) b holds)
    exact fun c last => returns_ok last

theorem returns_foldlM {f : α → β → Exec α} {items : List β} (P : α → Prop)
    (step : ∀ a, P a → ∀ item ∈ items, Returns (f a item) P) {a : α} (init : P a) :
    Returns (items.foldlM f a) P := by
  induction items generalizing a with
  | nil => exact returns_ok init
  | cons item rest ih =>
    refine returns_bind (step a init item List.mem_cons_self) fun b holds => ?_
    exact ih (fun c kept other mem => step c kept other (List.mem_cons_of_mem item mem)) holds

theorem foldlM_inv {f : α → β → Exec α} {items : List β} (P : α → Prop) (C : β → Prop)
    (step : ∀ a, P a → ∀ item ∈ items, ∀ b, f a item = .ok b → C item ∧ P b) {a b : α} (init : P a)
    (run : items.foldlM f a = .ok b) : ∀ item ∈ items, C item := by
  induction items generalizing a with
  | nil => exact fun _ mem => nomatch mem
  | cons item rest ih =>
    obtain ⟨c, first, later⟩ := bind_eq_ok.mp run
    obtain ⟨met, kept⟩ := step a init item List.mem_cons_self c first
    have others := ih (fun d holds other mem => step d holds other (List.mem_cons_of_mem item mem))
      kept later
    exact List.forall_mem_cons.mpr ⟨met, others⟩

theorem Returns.answers (h : Returns x Q) : Answers x := by
  obtain ⟨a, run, _⟩ := h
  exact ⟨a, run⟩

end

theorem answers_return {α β : Type} {x : Exec α} (f : α → β) :
    Answers (do let a ← x; return f a) ↔ Answers x :=
  answers_then fun _ _ => answers_ok _

namespace Buffer

variable {α : Type}

def get (buffer : List α) (i : Nat) : Exec α :=
  match buffer[i]? with
  | some a => .ok a
  | none => .error .undefinedBehaviour

def set (buffer : List α) (i : Nat) (a : α) : Exec (List α) :=
  if i < buffer.length then .ok (buffer.set i a) else .error .undefinedBehaviour

def resize (fill : α) (buffer : List α) (size : Nat) : List α :=
  buffer.take size ++ List.replicate (size - buffer.length) fill

/-- `memcpy` of a whole buffer to the front of another one. -/
def copyTo (source target : List α) : Exec (List α) :=
  if source.length ≤ target.length then .ok (source ++ target.drop source.length)
  else .error .undefinedBehaviour

def write (buffer : List α) (offset : Nat) (data : List α) : Exec (List α) :=
  if offset + data.length ≤ buffer.length then
    .ok (buffer.take offset ++ data ++ buffer.drop (offset + data.length))
  else .error .undefinedBehaviour

variable {buffer front behind : List α} {i size : Nat} {a fill : α}

theorem get_of_lt (inside : i < buffer.length) : get buffer i = .ok (buffer.get ⟨i, inside⟩) := by
  unfold get
  rw [List.getElem?_eq_getElem inside]
  rfl

theorem get_of_le (outside : buffer.length ≤ i) : get buffer i = .error .undefinedBehaviour := by
  unfold get
  rw [List.getElem?_eq_none outside]

theorem get_eq_ok (found : buffer[i]? = some a) : get buffer i = .ok a := by
  unfold get
  rw [found]

theorem get_returns (inside : i < buffer.length) : Returns (get buffer i) fun _ => True := by
  rw [get_of_lt inside]
  exact returns_ok trivial

theorem set_of_lt (inside : i < buffer.length) : set buffer i a = .ok (buffer.set i a) :=
  if_pos inside

@[simp] theorem length_resize (fill : α) (buffer : List α) (size : Nat) :
    (resize fill buffer size).length = size := by
  unfold resize
  rw [List.length_append, List.length_take, List.length_replicate]
  omega

theorem set_before (front behind : List α) (b a : α) :
    set (front ++ [b] ++ behind) front.length a = .ok (front ++ a :: behind) := by
  rw [set_of_lt (by simp), List.append_assoc, List.set_append_right _ _ (Nat.le_refl _), Nat.sub_self]
  rfl

theorem drop_behind {n k : Nat} (size : front.length = n) (order : n ≤ k) :
    (front ++ buffer.drop n).drop k = buffer.drop k := by
  rw [List.drop_append, List.drop_eq_nil_of_le (size ▸ order), List.nil_append,
    List.drop_drop, size, Nat.add_sub_cancel' order]

theorem write_behind {front behind data : List α} (room : data.length ≤ behind.length) :
    write (front ++ behind) front.length data = .ok (front ++ data ++ behind.drop data.length) := by
  unfold write
  rw [List.length_append, if_pos (Nat.add_le_add_left room _), List.take_left, List.drop_append,
    List.drop_eq_nil_of_le (Nat.le_add_right ..), List.nil_append, Nat.add_sub_cancel_left]

end Buffer

namespace Cells

variable {α ι : Type} {size i n : Nat} {cells : Nat → α}

def cell (size : Nat) (cells : Nat → α) (i : Nat) : Exec α :=
  if i < size then .ok (cells i) else .error .undefinedBehaviour

def get (size : Nat) (cells : Nat → α) (i n : Nat) : Exec (List α) :=
  if i + n ≤ size then .ok (slice cells i n) else .error .undefinedBehaviour

def set (size : Nat) (cells : Nat → α) (i : Nat) (data : List α) : Exec (Nat → α) :=
  if i + data.length ≤ size then .ok (blit cells i data) else .error .undefinedBehaviour

/-- A loop that writes to an array in each turn, from what it does not write. -/
def fill (size : Nat) (write : ι → Exec (Nat × List α)) (items : List ι) (cells : Nat → α) :
    Exec (Nat → α) :=
  items.foldlM (fun cells item => do
    let (i, data) ← write item
    set size cells i data) cells

theorem cell_of_lt (inside : i < size) : cell size cells i = .ok (cells i) := if_pos inside

theorem get_of_le (inside : i + n ≤ size) : get size cells i n = .ok (slice cells i n) :=
  if_pos inside

theorem set_of_le {data : List α} (inside : i + data.length ≤ size) :
    set size cells i data = .ok (blit cells i data) :=
  if_pos inside

section

variable {write : ι → Exec (Nat × List α)} {items : List ι}

section

variable (place : ι → Nat) (run : ι → List α)
  (each : ∀ item ∈ items,
    write item = .ok (place item, run item) ∧ place item + (run item).length ≤ size)
include each

theorem fill_eq : fill size write items cells =
      .ok (items.foldl (fun cells item => blit cells (place item) (run item)) cells) := by
  unfold fill
  induction items generalizing cells with
  | nil => rfl
  | cons item rest ih =>
    obtain ⟨step, inside⟩ := each item List.mem_cons_self
    rw [List.foldlM_cons, step, ok_bind]
    dsimp only
    rw [set_of_le inside]
    exact ih fun other mem => each other (List.mem_cons_of_mem item mem)

theorem fill_returns (apart : ∀ item ∈ items, ∀ other ∈ items, other ≠ item →
      place item + (run item).length ≤ place other ∨
        place other + (run other).length ≤ place item) :
    Returns (fill size write items cells) fun after =>
      (∀ item ∈ items, slice after (place item) (run item).length = run item) ∧
      ∀ k, (∀ item ∈ items, k < place item ∨ place item + (run item).length ≤ k) →
        after k = cells k := by
  rw [fill_eq place run each]
  apply returns_ok
  constructor
  · intro item mem
    apply List.ext_getElem length_slice
    intro k _ inside
    simp only [slice, List.getElem_map, List.getElem_range]
    exact foldl_blit_inside place run mem (apart item mem) inside
  · intro k outside
    exact foldl_blit_outside place run outside

end

end
end Cells
end EmuThreeDS
