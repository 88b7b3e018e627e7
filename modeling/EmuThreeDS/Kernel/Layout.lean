import EmuThreeDS.Kernel.VMManager

/-!
# The areas of an address space as a list

The map of a `VMManager` is the list of its areas, and the areas tile the address space.
Splitting, merging and the range loops are stated here once on that list; the functions
on the map then follow it step by step.
-/
namespace EmuThreeDS
open Tiling

namespace VirtualMemoryArea

variable (v : VirtualMemoryArea)

@[simp] theorem segment_base : Segment.base v = v.base := rfl

@[simp] theorem segment_size : Segment.size v = v.size := rfl

@[simp] theorem segment_value : Segment.value v = v.infoAt := rfl

def left (offset : Nat) : VirtualMemoryArea := { v with size := offset }

def right (offset : Nat) : VirtualMemoryArea :=
  { v with
    base := v.base + offset
    size := v.size - offset
    backingMemory := if v.type = .backingMemory then
      { v.backingMemory with offset := v.backingMemory.offset + offset } else v.backingMemory
    paddr := if v.type = .mmio then add32 v.paddr offset else v.paddr }

def join (v next : VirtualMemoryArea) : VirtualMemoryArea := { v with size := v.size + next.size }

def Backed : Prop :=
  v.type = .backingMemory → v.size ≤ v.backingMemory.getSize

theorem left_mergeable_right (offset : Nat) :
    (v.left offset).mergeable (v.right offset) = true := by
  rw [mergeable_iff]
  refine ⟨rfl, rfl, rfl, ?_, ?_⟩
  · intro backing
    have backing : v.type = .backingMemory := backing
    simp [left, right, backing]
  · intro mmio
    have mmio : v.type = .mmio := mmio
    simp [left, right, mmio]

variable {offset b : Nat}

theorem infoAt_right {v : VirtualMemoryArea} {a : Nat} (ha : v.base + offset ≤ a) :
    (v.right offset).infoAt a = v.infoAt a := by
  unfold infoAt right
  by_cases backing : v.type = .backingMemory
  · have shift : offset + (a - (v.base + offset)) = a - v.base := by omega
    simp only [backing, if_true, MemoryRef.getPtr_offset, HostPtr.add_add, shift]
  · simp only [backing, if_false]

theorem infoAt_join_right {v n : VirtualMemoryArea} {a : Nat} (h : v.mergeable n = true)
    (hb : v.base + v.size = n.base) (ha : n.base ≤ a) : (v.join n).infoAt a = n.infoAt a := by
  obtain ⟨perms, state, type, backing, _⟩ := mergeable_iff.mp h
  unfold infoAt join
  simp only [perms, state, type, AddressInfo.mk.injEq, true_and]
  by_cases hn : n.type = .backingMemory
  · have shift : v.size + (a - n.base) = a - v.base := by omega
    simp only [hn, if_true, ← backing (type.trans hn), HostPtr.add_add, shift]
  · simp only [hn, if_false]

theorem Backed.left {v : VirtualMemoryArea} (h : v.Backed) (ho : offset ≤ v.size) :
    (v.left offset).Backed :=
  fun backing => Nat.le_trans ho (h backing)

theorem Backed.right {v : VirtualMemoryArea} (h : v.Backed) (offset : Nat) :
    (v.right offset).Backed := by
  intro backing
  have backing : v.type = .backingMemory := backing
  have whole := h backing
  unfold VirtualMemoryArea.right
  simp only [backing, if_true]
  cases hm : v.backingMemory.backingMem with
  | none | some b =>
    simp only [MemoryRef.getSize, hm] at whole ⊢
    omega

theorem Backed.join {v n : VirtualMemoryArea} (hv : v.Backed) (hn : n.Backed) (pos : 0 < n.size)
    (h : v.mergeable n = true) : (v.join n).Backed := by
  intro backing
  obtain ⟨_, _, type, ptr, _⟩ := mergeable_iff.mp h
  have whole := hv backing
  have next := hn (type ▸ backing)
  have follows := ptr backing
  cases hm : v.backingMemory.backingMem with
  | none =>
    cases hk : n.backingMemory.backingMem <;>
      simp [MemoryRef.getSize, MemoryRef.getPtr, HostPtr.add, hm, hk] at whole next follows
    omega
  | some b =>
    cases hk : n.backingMemory.backingMem <;>
      simp [MemoryRef.getSize, MemoryRef.getPtr, HostPtr.add, hm, hk] at whole next follows
    obtain ⟨rfl, follows⟩ := follows
    simp only [VirtualMemoryArea.join, MemoryRef.getSize, hm]
    omega

end VirtualMemoryArea

namespace Layout
open VirtualMemoryArea

/-- Areas that tile `[lo, hi)`, each with the host memory it needs. -/
structure Laid (lo : Nat) (vs : List VirtualMemoryArea) (hi : Nat) : Prop where
  tiles : Tiles lo vs hi
  backed : ∀ v ∈ vs, v.Backed

variable {lo hi a : Nat} {L R : List VirtualMemoryArea} {v n : VirtualMemoryArea}

theorem Laid.split (h : Laid lo (L ++ v :: R) hi) (pos : 0 < offset)
    (inside : offset < v.size) : Laid lo (L ++ v.left offset :: v.right offset :: R) hi := by
  obtain ⟨hl, _, hr⟩ := tiles_middle.mp h.tiles
  refine ⟨tiles_middle.mpr ⟨hl, pos, rfl, ?_, ?_⟩, ?_⟩
  · simp only [right, segment_size]
    omega
  · have sum : v.base + offset + (v.size - offset) = v.base + v.size := by omega
    simpa only [right, left, segment_base, segment_size, sum] using hr
  · intro w hw
    simp only [List.mem_append, List.mem_cons] at hw
    have whole := h.backed v (by simp)
    rcases hw with hw | rfl | rfl | hw
    · exact h.backed w (by simp [hw])
    · exact whole.left (Nat.le_of_lt inside)
    · exact whole.right offset
    · exact h.backed w (by simp [hw])

theorem view_split (inside : offset < v.size) :
    view (L ++ v.left offset :: v.right offset :: R) = view (L ++ v :: R) := by
  refine view_halves rfl rfl ?_ (fun a _ => rfl) ?_
  · simp only [right, segment_base, segment_size]
    omega
  · intro a onRight
    exact infoAt_right onRight.1

theorem Laid.join (h : Laid lo (L ++ v :: n :: R) hi) (same : v.mergeable n = true) :
    Laid lo (L ++ v.join n :: R) hi := by
  obtain ⟨hl, pos, hn, npos, hr⟩ := tiles_middle.mp h.tiles
  refine ⟨tiles_middle.mpr ⟨hl, Nat.add_pos_left pos _, ?_⟩, ?_⟩
  · simpa only [VirtualMemoryArea.join, segment_base, segment_size, Nat.add_assoc] using hr
  · intro w hw
    simp only [List.mem_append, List.mem_cons] at hw
    rcases hw with hw | rfl | hw
    · exact h.backed w (by simp [hw])
    · exact (h.backed v (by simp)).join (h.backed n (by simp)) npos same
    · exact h.backed w (by simp [hw])

theorem view_join (h : Tiles lo (L ++ v :: n :: R) hi) (same : v.mergeable n = true) :
    view (L ++ v.join n :: R) = view (L ++ v :: n :: R) := by
  obtain ⟨_, _, hn, _, _⟩ := tiles_middle.mp h
  symm
  refine view_halves rfl hn ?_ (fun a _ => rfl) ?_
  · simp only [VirtualMemoryArea.join, segment_base, segment_size] at hn ⊢
    omega
  · intro a onNext
    exact (infoAt_join_right same hn.symm onNext.1).symm

end Layout

/-- A position between the areas: the ones before it (nearest first), the one it stands on and
the ones after it. -/
structure Cursor where
  before : List VirtualMemoryArea
  here : VirtualMemoryArea
  after : List VirtualMemoryArea

namespace Cursor
open Layout

def areas (c : Cursor) : List VirtualMemoryArea := c.before.reverse ++ c.here :: c.after

/-- The first half of `MergeAdjacent`. -/
def absorbNext (c : Cursor) : Cursor :=
  match c.after with
  | [] => c
  | n :: rest => if c.here.mergeable n then ⟨c.before, c.here.join n, rest⟩ else c

def joinPrev (c : Cursor) : Cursor :=
  match c.before with
  | [] => c
  | p :: rest => if p.mergeable c.here then ⟨rest, p.join c.here, c.after⟩ else c

def merge (c : Cursor) : Cursor := c.absorbNext.joinPrev

variable {lo hi : Nat} {c : Cursor}

section

variable {P : List VirtualMemoryArea → Prop}
  (join : ∀ {L R v n}, P (L ++ v :: n :: R) → v.mergeable n = true → P (L ++ v.join n :: R))
  (h : P c.areas)
include join h

theorem absorbNext_rule : P c.absorbNext.areas := by
  rcases c with ⟨before, here, _ | ⟨n, rest⟩⟩
  · exact h
  · unfold absorbNext
    simp only
    split_ifs with same
    · exact join h same
    · exact h

theorem joinPrev_rule : P c.joinPrev.areas := by
  rcases c with ⟨_ | ⟨p, rest⟩, here, after⟩
  · exact h
  · unfold joinPrev
    simp only
    split_ifs with same
    · simp only [areas, List.reverse_cons, List.append_assoc, List.singleton_append] at h
      exact join h same
    · exact h

/-- What joining two neighbours keeps, merging keeps. -/
theorem merge_rule : P c.merge.areas := joinPrev_rule join (absorbNext_rule join h)

end

theorem laid_absorbNext (h : Laid lo c.areas hi) : Laid lo c.absorbNext.areas hi :=
  absorbNext_rule (P := fun vs => Laid lo vs hi) Laid.join h

theorem laid_merge (h : Laid lo c.areas hi) : Laid lo c.merge.areas hi :=
  merge_rule (P := fun vs => Laid lo vs hi) Laid.join h

theorem view_merge (h : Laid lo c.areas hi) : view c.merge.areas = view c.areas :=
  (merge_rule (P := fun vs => Laid lo vs hi ∧ view vs = view c.areas)
    (fun kept same => ⟨kept.1.join same, (view_join kept.1.tiles same).trans kept.2⟩) ⟨h, rfl⟩).2

theorem absorbNext_attributes (c : Cursor) : c.absorbNext.here.type = c.here.type ∧
    c.absorbNext.here.permissions = c.here.permissions ∧
    c.absorbNext.here.meminfoState = c.here.meminfoState := by
  rcases c with ⟨before, here, _ | ⟨n, rest⟩⟩
  · exact ⟨rfl, rfl, rfl⟩
  · unfold absorbNext
    simp only
    split_ifs <;> exact ⟨rfl, rfl, rfl⟩

theorem merge_attributes (c : Cursor) : c.merge.here.type = c.here.type ∧
    c.merge.here.permissions = c.here.permissions ∧
    c.merge.here.meminfoState = c.here.meminfoState := by
  obtain ⟨type, perms, state⟩ := absorbNext_attributes c
  rw [← type, ← perms, ← state]
  unfold merge
  generalize c.absorbNext = d
  rcases d with ⟨_ | ⟨p, rest⟩, here, after⟩
  · exact ⟨rfl, rfl, rfl⟩
  · unfold joinPrev
    simp only
    split_ifs with same
    · obtain ⟨perms, state, type, _⟩ := VirtualMemoryArea.mergeable_iff.mp same
      exact ⟨type, perms, state⟩
    · exact ⟨rfl, rfl, rfl⟩

theorem absorbNext_covers (c : Cursor) : c.absorbNext.here.base = c.here.base ∧
    c.here.size ≤ c.absorbNext.here.size ∧ c.absorbNext.before = c.before := by
  rcases c with ⟨before, here, _ | ⟨n, rest⟩⟩
  · exact ⟨rfl, Nat.le_refl _, rfl⟩
  · unfold absorbNext
    simp only
    split_ifs
    · exact ⟨rfl, Nat.le_add_right _ _, rfl⟩
    · exact ⟨rfl, Nat.le_refl _, rfl⟩

theorem joinPrev_covers (h : Laid lo c.areas hi) : c.joinPrev.here.base ≤ c.here.base ∧
    c.here.base + c.here.size ≤ c.joinPrev.here.base + c.joinPrev.here.size := by
  rcases c with ⟨_ | ⟨p, rest⟩, here, after⟩
  · exact ⟨Nat.le_refl _, Nat.le_refl _⟩
  · unfold joinPrev
    simp only
    split_ifs
    · have tiles := h.tiles
      simp only [areas, List.reverse_cons, List.append_assoc, List.singleton_append] at tiles
      obtain ⟨_, _, next, _⟩ := tiles_middle.mp tiles
      simp only [VirtualMemoryArea.segment_base, VirtualMemoryArea.segment_size] at next
      simp only [VirtualMemoryArea.join]
      omega
    · exact ⟨Nat.le_refl _, Nat.le_refl _⟩

theorem merge_covers (h : Laid lo c.areas hi) : c.merge.here.base ≤ c.here.base ∧
    c.here.base + c.here.size ≤ c.merge.here.base + c.merge.here.size := by
  obtain ⟨base, size, _⟩ := absorbNext_covers c
  have grown := joinPrev_covers (laid_absorbNext h)
  unfold merge
  omega

theorem merge_joins {p here : VirtualMemoryArea} (rest after : List VirtualMemoryArea)
    (same : p.mergeable here = true) :
    (Cursor.merge ⟨p :: rest, here, after⟩).here.base = p.base := by
  have joins : ∀ w tail, p.mergeable w = true →
      (Cursor.joinPrev ⟨p :: rest, w, tail⟩).here.base = p.base := by
    intro w tail hw
    rw [joinPrev]
    simp only [hw, if_true]
    rfl
  unfold merge absorbNext
  cases after with
  | nil => exact joins here [] same
  | cons n tail =>
    simp only
    split_ifs
    · exact joins (here.join n) tail same
    · exact joins here (n :: tail) same

theorem merge_after (c : Cursor) :
    c.merge.after = c.after ∨ ∃ n, c.after = n :: c.merge.after ∧ c.here.mergeable n = true := by
  have prev : ∀ d : Cursor, d.joinPrev.after = d.after := by
    intro d
    rcases d with ⟨_ | ⟨p, rest⟩, here, after⟩
    · rfl
    · unfold joinPrev
      simp only
      split_ifs <;> rfl
  unfold merge
  rw [prev]
  rcases c with ⟨before, here, _ | ⟨n, rest⟩⟩
  · exact Or.inl rfl
  · unfold absorbNext
    simp only
    split_ifs with same
    · exact Or.inr ⟨n, rfl, same⟩
    · exact Or.inl rfl

end Cursor
namespace Layout
open VirtualMemoryArea

/-- `f` rewrites the attributes of an area, and `F` says what that does to each address. -/
structure Acts (f : VirtualMemoryArea → VirtualMemoryArea) (F : AddressInfo → AddressInfo) :
    Prop where
  base : ∀ v, (f v).base = v.base
  size : ∀ v, (f v).size = v.size
  backed : ∀ v, v.Backed → (f v).Backed
  info : ∀ v a, (f v).infoAt a = F (v.infoAt a)

/-- The range loops on the list of areas; `before` is done, nearest first. -/
def sweep (f : VirtualMemoryArea → VirtualMemoryArea) (targetEnd : Nat)
    (before rest : List VirtualMemoryArea) : List VirtualMemoryArea :=
  match rest with
  | [] => before.reverse
  | v :: rest =>
    if v.base < targetEnd then
      sweep f targetEnd
        ((Cursor.merge ⟨before, f v, rest⟩).here :: (Cursor.merge ⟨before, f v, rest⟩).before)
        (Cursor.merge ⟨before, f v, rest⟩).after
    else before.reverse ++ v :: rest
termination_by rest.length
decreasing_by
  rcases Cursor.merge_after ⟨before, f v, rest⟩ with same | ⟨n, more, _⟩
  · rw [same]
    exact Nat.lt_succ_self _
  · have := congrArg List.length more
    simp only [List.length_cons] at this ⊢
    omega

variable {lo hi targetEnd : Nat} {before rest M R : List VirtualMemoryArea}
  {v : VirtualMemoryArea} {f : VirtualMemoryArea → VirtualMemoryArea}
  {F : AddressInfo → AddressInfo}

theorem sweep_next (h : v.base < targetEnd) : sweep f targetEnd before (v :: rest) =
    sweep f targetEnd
      ((Cursor.merge ⟨before, f v, rest⟩).here :: (Cursor.merge ⟨before, f v, rest⟩).before)
      (Cursor.merge ⟨before, f v, rest⟩).after := by
  rw [sweep, if_pos h]

/-- What joining two neighbours and changing one area keep, the range loop keeps. -/
theorem sweep_rule {P : List VirtualMemoryArea → Prop}
    (join : ∀ {L R v n}, P (L ++ v :: n :: R) → v.mergeable n = true → P (L ++ v.join n :: R))
    (change : ∀ L v R, P (L ++ v :: R) → P (L ++ f v :: R)) (h : P (before.reverse ++ rest)) :
    P (sweep f targetEnd before rest) := by
  induction before, rest using sweep.induct f targetEnd with
  | case1 before =>
    rw [sweep]
    simpa only [List.append_nil] using h
  | case2 before v rest inside ih =>
    rw [sweep_next inside]
    refine ih ?_
    rw [List.reverse_cons, List.append_assoc]
    exact Cursor.merge_rule (c := ⟨before, f v, rest⟩) join (change _ v rest h)
  | case3 before v rest outside =>
    rw [sweep, if_neg outside]
    exact h

theorem sweep_done (h : ∀ r ∈ rest.head?, targetEnd ≤ r.base) :
    sweep f targetEnd before rest = before.reverse ++ rest := by
  cases rest with
  | nil => rw [sweep, List.append_nil]
  | cons r rest => rw [sweep, if_neg (Nat.not_lt.mpr (h r rfl))]

theorem tiles_change (acts : Acts f F) {L : List VirtualMemoryArea}
    (h : Tiles lo (L ++ v :: R) hi) : Tiles lo (L ++ f v :: R) hi := by
  rw [tiles_middle] at h ⊢
  simpa only [segment_base, segment_size, acts.base, acts.size] using h

theorem Laid.replace {L : List VirtualMemoryArea} (h : Laid lo (L ++ v :: R) hi)
    (base : w.base = v.base) (size : w.size = v.size)
    (backed : w.Backed) : Laid lo (L ++ w :: R) hi := by
  have tiles := h.tiles
  refine ⟨?_, ?_⟩
  · rw [tiles_middle] at tiles ⊢
    simpa only [segment_base, segment_size, base, size] using tiles
  · intro x hx
    simp only [List.mem_append, List.mem_cons] at hx
    rcases hx with hx | rfl | hx
    · exact h.backed x (by simp [hx])
    · exact backed
    · exact h.backed x (by simp [hx])

theorem view_replaced {L : List VirtualMemoryArea} {g : Nat → AddressInfo → AddressInfo}
    (h : Tiles lo (L ++ v :: R) hi) (base : w.base = v.base) (size : w.size = v.size)
    (values : ∀ a, v.base ≤ a → w.infoAt a = g a (v.infoAt a)) :
    view (L ++ w :: R) = updateOn v.base (v.base + v.size) g (view (L ++ v :: R)) := by
  obtain ⟨hl, pos, hr⟩ := tiles_middle.mp h
  have one : ∀ u : VirtualMemoryArea, u.base = v.base → u.size = v.size →
      Tiles v.base [u] (v.base + v.size) := by
    intro u hb hs
    refine ⟨hb, ?_, ?_⟩ <;> simp only [segment_size, hs]
    · exact pos
    · rfl
  rw [List.append_cons, List.append_cons L v]
  refine view_update hl (one v rfl rfl) (one w base size) hr ?_
  intro a low high
  have at_a : ∀ u : VirtualMemoryArea, u.base = v.base → u.size = v.size →
      view [u] a = some (u.infoAt a) := by
    intro u hb hs
    refine if_pos ⟨?_, ?_⟩ <;> simp only [segment_base, segment_size] <;> omega
  rw [at_a v rfl rfl, at_a w base size, Option.map_some, values a low]

theorem Laid.change (acts : Acts f F) {L : List VirtualMemoryArea} (h : Laid lo (L ++ v :: R) hi) :
    Laid lo (L ++ f v :: R) hi :=
  h.replace (acts.base v) (acts.size v) (acts.backed v (h.backed v (by simp)))

theorem tiles_map (acts : Acts f F) (h : Tiles lo M hi) : Tiles lo (M.map f) hi := by
  induction M generalizing lo with
  | nil => exact h
  | cons v rest ih =>
    obtain ⟨start, pos, later⟩ := h
    simp only [List.map_cons, Tiles, segment_base, segment_size, acts.base, acts.size]
    exact ⟨start, pos, ih later⟩

theorem view_map (acts : Acts f F) (a : Nat) : view (M.map f) a = (view M a).map F := by
  induction M with
  | nil => rfl
  | cons v rest ih =>
    have extent : Covers (f v) a ↔ Covers v a := by
      simp only [Covers, segment_base, segment_size, acts.base, acts.size]
    simp only [List.map_cons, view, extent, ih, segment_value, acts.info]
    split_ifs <;> rfl

theorem view_fixed (acts : Acts f F) {L : List VirtualMemoryArea}
    (fixed : ∀ a, F (v.infoAt a) = v.infoAt a) : view (L ++ f v :: R) = view (L ++ v :: R) := by
  funext a
  have extent : Covers (f v) a ↔ Covers v a := by
    simp only [Covers, segment_base, segment_size, acts.base, acts.size]
  simp only [view_append, view, extent, segment_value, acts.info, fixed]

theorem head_ge {lo : Nat} (h : Tiles lo rest hi) : ∀ r ∈ rest.head?, lo ≤ r.base := by
  cases rest with
  | nil => exact fun r hr => nomatch hr
  | cons s rest =>
    intro r hr
    cases hr
    exact Nat.le_of_eq h.1.symm

theorem tiles_tail {L : List VirtualMemoryArea} {mid : Nat} (h : Tiles lo (L ++ R) hi)
    (hL : Tiles lo L mid) : Tiles mid R hi := by
  obtain ⟨mid', hl, hr⟩ := tiles_append.mp h
  exact hl.unique_end hL ▸ hr

/-- What is left after one turn of a range loop that stood on `v`, with the areas `M` of the
range ahead of it: merging may have swallowed the first of them, or the first area behind
the range. -/
inductive Turn (f : VirtualMemoryArea → VirtualMemoryArea) (lo targetEnd hi : Nat)
    (before : List VirtualMemoryArea) (v : VirtualMemoryArea) (M R : List VirtualMemoryArea)
    (c : Cursor) : Prop where
  | stays (S M' : List VirtualMemoryArea) (split : M = S ++ M') (after : c.after = M' ++ R)
      (laid : Laid lo ((c.here :: c.before).reverse ++ (M' ++ R)) hi)
      (range : Tiles lo ((c.here :: c.before).reverse ++ M') targetEnd)
      (same : ∀ X, view ((c.here :: c.before).reverse ++ X) = view (before.reverse ++ f v :: S ++ X))
      (swallowed : S = [] ∨ ∃ n, S = [n] ∧ (f v).mergeable n = true)
  | leaves (n : VirtualMemoryArea) (none_left : M = []) (past : R = n :: c.after)
      (beyond : ∀ r ∈ c.after.head?, targetEnd ≤ r.base)

theorem sweep_turn (acts : Acts f F) (laid : Laid lo (before.reverse ++ (v :: M ++ R)) hi)
    (range : Tiles lo (before.reverse ++ v :: M) targetEnd) : v.base < targetEnd ∧
      Turn f lo targetEnd hi before v M R (Cursor.merge ⟨before, f v, M ++ R⟩) := by
  have inside : v.base < targetEnd := by
    obtain ⟨_, pos, hr⟩ := tiles_middle.mp range
    have := hr.le
    simp only [segment_base, segment_size] at pos this
    omega
  have changed : Laid lo (Cursor.mk before (f v) (M ++ R)).areas hi := laid.change acts
  have merged := Cursor.laid_merge changed
  have same := Cursor.view_merge changed
  have next := Cursor.merge_after ⟨before, f v, M ++ R⟩
  refine ⟨inside, ?_⟩
  generalize Cursor.merge ⟨before, f v, M ++ R⟩ = c at *
  have done : c.areas = (c.here :: c.before).reverse ++ c.after := by simp [Cursor.areas]
  rw [done] at merged same
  have turn : ∀ S M', M = S ++ M' → c.after = M' ++ R →
      (S = [] ∨ ∃ n, S = [n] ∧ (f v).mergeable n = true) →
      Turn f lo targetEnd hi before v M R c := by
    intro S M' split after swallowed
    have old : (Cursor.mk before (f v) (M ++ R)).areas =
        (before.reverse ++ f v :: S) ++ (M' ++ R) := by simp [Cursor.areas, split]
    rw [after] at merged same
    rw [old] at same
    have cut : Tiles lo ((before.reverse ++ f v :: S) ++ (M' ++ R)) hi := old ▸ changed.tiles
    refine .stays S M' split after merged ?_ (view_swap merged.tiles cut same) swallowed
    have range : Tiles lo ((before.reverse ++ f v :: S) ++ M') targetEnd := by
      have changed := tiles_change acts range
      rwa [split, ← List.cons_append, ← List.append_assoc] at changed
    rw [← List.append_assoc] at cut
    have tiles := merged.tiles
    rw [← List.append_assoc] at tiles
    exact tiles.swap cut range
  rcases next with kept | ⟨n, absorbed, swallowed⟩
  · exact turn [] M rfl kept (Or.inl rfl)
  · cases M with
    | nil =>
      have past : R = n :: c.after := absorbed
      refine .leaves n rfl past ?_
      have tail : Tiles targetEnd R hi := by
        refine tiles_tail ?_ range
        simpa only [List.append_assoc] using laid.tiles
      rw [past] at tail
      exact fun r hr => Nat.le_trans (Nat.le_add_right _ _) (head_ge tail.2.2 r hr)
    | cons m M =>
      obtain ⟨rfl, rest⟩ := List.cons.inj absorbed
      exact turn [m] M rfl rest.symm (Or.inr ⟨m, rfl, swallowed⟩)

/-- What the range loops do to the addresses: `F` on the areas of the range and nothing else.
Merging may swallow an area of the range before the loop sees it, and then `F` must have
nothing to do there. -/
theorem view_sweep (acts : Acts f F) (laid : Laid lo (before.reverse ++ (M ++ R)) hi)
    (range : Tiles lo (before.reverse ++ M) targetEnd)
    (skipped : ∀ v ∈ M, ∀ n ∈ M, (f v).mergeable n = true → ∀ a, F (n.infoAt a) = n.infoAt a) :
    view (sweep f targetEnd before (M ++ R)) = view (before.reverse ++ (M.map f ++ R)) := by
  induction hk : M.length using Nat.strong_induction_on generalizing before M with
  | _ k ih =>
  subst hk
  cases M with
  | nil =>
    rw [List.append_nil] at range
    have tail : Tiles targetEnd R hi := tiles_tail laid.tiles range
    rw [List.nil_append, sweep_done (head_ge tail), List.map_nil, List.nil_append]
  | cons v M =>
    obtain ⟨inside, turn⟩ := sweep_turn acts laid range
    have changed : Laid lo (Cursor.mk before (f v) (M ++ R)).areas hi := laid.change acts
    have same := Cursor.view_merge changed
    rw [List.cons_append, sweep_next inside]
    cases turn with
    | stays S M' split after laid' range' same swallowed =>
      subst split
      have fewer : M'.length < (v :: (S ++ M')).length := by
        simp only [List.length_cons, List.length_append]
        omega
      rw [after, ih M'.length fewer laid' range' ?_ rfl, same]
      · rcases swallowed with rfl | ⟨n, rfl, mergeable⟩
        · simp
        · have fixed := skipped v (by simp) n (by simp) mergeable
          have shape : ∀ x, before.reverse ++ (f v :: x :: M'.map f ++ R) =
              (before.reverse ++ [f v]) ++ x :: (M'.map f ++ R) := by simp
          have swallowed : before.reverse ++ f v :: [n] ++ (M'.map f ++ R) =
              (before.reverse ++ [f v]) ++ n :: (M'.map f ++ R) := by simp
          rw [swallowed, List.singleton_append, List.map_cons, List.map_cons, shape,
            view_fixed acts fixed]
      · exact fun w hw m hm => skipped w (by simp [hw]) m (by simp [hm])
    | leaves n none_left past beyond =>
      -- the last area of the range absorbed the first one past it
      subst none_left
      rw [sweep_done beyond, List.reverse_cons, List.append_assoc]
      exact same

/-- Split the area that has `a` strictly inside, if there is one. -/
def splitAt (a : Nat) : List VirtualMemoryArea → List VirtualMemoryArea
  | [] => []
  | v :: rest =>
    if v.base < a ∧ a < v.base + v.size then
      v.left (a - v.base) :: v.right (a - v.base) :: rest
    else v :: splitAt a rest

theorem forall_splitAt {a : Nat} {vs : List VirtualMemoryArea} {Q : VirtualMemoryArea → Prop}
    (left : ∀ {v}, Q v → Q (v.left (a - v.base)))
    (right : ∀ v : VirtualMemoryArea, v.base < a → Q v → Q (v.right (a - v.base)))
    (h : ∀ v ∈ vs, Q v) : ∀ v ∈ splitAt a vs, Q v := by
  induction vs with
  | nil => exact h
  | cons v rest ih =>
    obtain ⟨first, later⟩ := List.forall_mem_cons.mp h
    rw [splitAt]
    split_ifs with inside
    · exact List.forall_mem_cons.mpr
        ⟨left first, List.forall_mem_cons.mpr ⟨right v inside.1 first, later⟩⟩
    · exact List.forall_mem_cons.mpr ⟨first, ih later⟩

theorem splitAt_above {a : Nat} (above : ∀ w ∈ R, a ≤ w.base) : splitAt a R = R := by
  induction R with
  | nil => rfl
  | cons r rest ih =>
    have := above r List.mem_cons_self
    rw [splitAt, if_neg (by omega), ih fun w hw => above w (List.mem_cons_of_mem r hw)]

theorem splitAt_boundary {a : Nat} {L : List VirtualMemoryArea} (hL : Tiles lo L a)
    (hR : Tiles a R hi) : splitAt a (L ++ R) = L ++ R := by
  induction L generalizing lo with
  | nil =>
    exact splitAt_above fun w hw => (hR.bounds hw).1
  | cons l rest ih =>
    have below := (hL.bounds List.mem_cons_self).2.2
    simp only [segment_base, segment_size] at below
    rw [List.cons_append, splitAt, if_neg (by omega), ih hL.2.2]

section

variable {L : List VirtualMemoryArea} (h : Tiles lo (L ++ v :: R) hi)
include h

theorem splitAt_inside {a : Nat} (low : v.base < a) (high : a < v.base + v.size) : splitAt a
    (L ++ v :: R) = L ++ v.left (a - v.base) :: v.right (a - v.base) :: R := by
  induction L generalizing lo with
  | nil => rw [List.nil_append, splitAt, if_pos ⟨low, high⟩, List.nil_append]
  | cons l rest ih =>
    have below : l.base + l.size ≤ v.base := by
      have hb := h.1
      obtain ⟨hl, _, _⟩ := tiles_middle.mp h.2.2
      have := hl.le
      simp only [segment_base, segment_size] at hb this
      omega
    rw [List.cons_append, splitAt, if_neg (by omega), ih h.2.2, List.cons_append]

theorem splitAt_below {a : Nat} (ha : a = v.base ∨ a = v.base + v.size) : splitAt a (L ++ v :: R) =
    L ++ v :: R := by
  rcases ha with start | rfl
  · obtain ⟨hl, hr⟩ := h.cut_before start.symm
    exact splitAt_boundary hl hr
  · obtain ⟨hl, hpos, hr⟩ := tiles_middle.mp h
    have upTo : Tiles lo (L ++ [v]) (v.base + v.size) := tiles_middle.mpr ⟨hl, hpos, rfl⟩
    have same := splitAt_boundary upTo hr
    rwa [List.append_assoc] at same

theorem splitAt_end {a : Nat} (low : v.base < a) (high : a ≤ v.base + v.size) :
    ∃ w R', splitAt a (L ++ v :: R) = L ++ w :: R' ∧ w.base = v.base ∧ w.base + w.size = a ∧
      w.type = v.type ∧ (a < v.base + v.size → R' = v.right (a - v.base) :: R) := by
  rcases Nat.lt_or_eq_of_le high with strict | ends
  · refine ⟨v.left (a - v.base), v.right (a - v.base) :: R, splitAt_inside h low strict, rfl, ?_,
      rfl, fun _ => rfl⟩
    simp only [left]
    omega
  · exact ⟨v, R, splitAt_below h (Or.inr ends), rfl, ends.symm, rfl, fun strict => by omega⟩

theorem splitAt_start {a : Nat} (low : v.base ≤ a) (high : a < v.base + v.size) :
    ∃ L' w, splitAt a (L ++ v :: R) = L' ++ w :: R ∧ w.base = a ∧
      w.base + w.size = v.base + v.size ∧ w.type = v.type := by
  rcases Nat.lt_or_eq_of_le low with strict | starts
  · refine ⟨L ++ [v.left (a - v.base)], v.right (a - v.base), ?_, ?_, ?_, rfl⟩
    · rw [splitAt_inside h strict high, List.append_cons]
    · simp only [right]
      omega
    · simp only [right]
      omega
  · exact ⟨L, v, splitAt_below h (Or.inl starts.symm), starts, rfl, rfl⟩

end

theorem boundary_or_inside {vs : List VirtualMemoryArea} {a : Nat} (h : Tiles lo vs hi)
    (low : lo ≤ a) (high : a ≤ hi) : (∃ L R, vs = L ++ R ∧ Tiles lo L a ∧ Tiles a R hi) ∨
      ∃ L v R, vs = L ++ v :: R ∧ v.base < a ∧ a < v.base + v.size := by
  rcases Nat.lt_or_eq_of_le high with inside | rfl
  · obtain ⟨L, v, R, rfl, covers⟩ := h.exists_covers low inside
    obtain ⟨before, after⟩ : v.base ≤ a ∧ a < v.base + v.size := covers
    rcases Nat.lt_or_eq_of_le before with strict | start
    · exact Or.inr ⟨L, v, R, rfl, strict, after⟩
    · obtain ⟨hl, hr⟩ := h.cut_before start
      exact Or.inl ⟨L, v :: R, rfl, hl, hr⟩
  · exact Or.inl ⟨vs, [], (List.append_nil vs).symm, h, rfl⟩

theorem Laid.splitAt {vs : List VirtualMemoryArea} {a : Nat} (h : Laid lo vs hi) (low : lo ≤ a)
    (high : a ≤ hi) : Laid lo (splitAt a vs) hi ∧ view (Layout.splitAt a vs) = view vs ∧
      ∃ L R, Layout.splitAt a vs = L ++ R ∧ Tiles lo L a ∧ Tiles a R hi := by
  rcases boundary_or_inside h.tiles low high with ⟨L, R, rfl, hl, hr⟩ | ⟨L, v, R, rfl, h1, h2⟩
  · rw [splitAt_boundary hl hr]
    exact ⟨h, rfl, L, R, rfl, hl, hr⟩
  · rw [splitAt_inside h.tiles h1 h2]
    have pieces := h.split (show 0 < a - v.base by omega) (by omega)
    refine ⟨pieces, view_split (by omega), L ++ [v.left (a - v.base)],
      v.right (a - v.base) :: R, by simp, ?_⟩
    have start : (v.right (a - v.base)).base = a := by
      simp only [right]
      omega
    have cut := pieces.tiles
    rw [List.append_cons] at cut
    exact cut.cut_before start

theorem splitAt_append {lo a : Nat} (hA : Tiles lo A a)
    (hab : a ≤ b) : splitAt b (A ++ R) = A ++ splitAt b R := by
  induction A generalizing lo with
  | nil => rfl
  | cons v rest ih =>
    have below := (hA.bounds List.mem_cons_self).2.2
    simp only [segment_base, segment_size] at below
    rw [List.cons_append, splitAt, if_neg (by omega), ih hA.2.2, List.cons_append]

theorem Laid.window {vs : List VirtualMemoryArea} {a : Nat} (h : Laid lo vs hi) (low : lo ≤ a)
    (hab : a ≤ b) (high : b ≤ hi) : Laid lo (Layout.splitAt b (Layout.splitAt a vs)) hi ∧
      view (Layout.splitAt b (Layout.splitAt a vs)) = view vs ∧
      ∃ A M B, Layout.splitAt b (Layout.splitAt a vs) = A ++ (M ++ B) ∧ Tiles lo A a ∧
        Tiles a M b ∧ Tiles b B hi := by
  obtain ⟨laid₁, view₁, A, S, cut₁, hA, hS⟩ := h.splitAt low (Nat.le_trans hab high)
  obtain ⟨laid₂, view₂, _⟩ := laid₁.splitAt (Nat.le_trans low hab) high
  have laidS : Laid a S hi :=
    ⟨hS, fun v hv => laid₁.backed v (cut₁ ▸ List.mem_append_right A hv)⟩
  obtain ⟨_, _, M, B, cut₂, hM, hB⟩ := laidS.splitAt hab high
  refine ⟨laid₂, view₂.trans view₁, A, M, B, ?_, hA, hM, hB⟩
  rw [cut₁, splitAt_append hA hab, cut₂]

theorem view_sweep_range {a : Nat} {B : List VirtualMemoryArea} (acts : Acts f F)
    (laid : Laid lo (A ++ (M ++ B)) hi) (hA : Tiles lo A a) (hM : Tiles a M b) (hB : Tiles b B hi)
    (skipped : ∀ v ∈ M, ∀ n ∈ M, (f v).mergeable n = true → ∀ a, F (n.infoAt a) = n.infoAt a) :
    view (sweep f b A.reverse (M ++ B)) = updateOn a b (fun _ => F) (view (A ++ (M ++ B))) := by
  rw [view_sweep acts (by rwa [List.reverse_reverse])
    (by rw [List.reverse_reverse]; exact tiles_append.mpr ⟨a, hA, hM⟩) skipped]
  rw [List.reverse_reverse, ← List.append_assoc, ← List.append_assoc]
  exact view_update hA hM (tiles_map acts hM) hB fun x _ _ => view_map acts x

def Freed (v : VirtualMemoryArea) : Prop :=
  v.type = .free ∧ v.permissions = .none ∧ v.meminfoState = .free

theorem Freed.mergeable {n : VirtualMemoryArea} (hv : Freed v) (hn : Freed n) :
    v.mergeable n = true := by
  obtain ⟨type, perms, state⟩ := hv
  obtain ⟨type', perms', state'⟩ := hn
  rw [mergeable_iff]
  simp [type, type', perms, perms', state, state']

theorem sweep_freed {h : VirtualMemoryArea} (frees : ∀ v, Freed (f v)) (acts : Acts f F)
    (freed : Freed h) (tiles : Tiles (h.base + h.size) rest hi) (fits : targetEnd ≤ hi) :
    ∃ h' R', sweep f targetEnd (h :: before) rest = before.reverse ++ h' :: R' ∧
      h'.base = h.base ∧ targetEnd ≤ h'.base + h'.size := by
  induction hk : rest.length using Nat.strong_induction_on generalizing h rest with
  | _ k ih =>
  subst hk
  cases rest with
  | nil =>
    have full : h.base + h.size = hi := tiles
    exact ⟨h, [], by rw [sweep, List.reverse_cons], rfl, full.symm ▸ fits⟩
  | cons v rest =>
    obtain ⟨start, pos, later⟩ := tiles
    simp only [segment_base, segment_size] at start pos later
    by_cases inside : v.base < targetEnd
    · have grown : ∀ w tail, Freed w →
          Tiles (v.base + w.size) tail hi → tail.length < (v :: rest).length →
          (Cursor.mk (h :: before) (f v) rest).absorbNext = ⟨h :: before, w, tail⟩ →
          ∃ h' R', sweep f targetEnd (h :: before) (v :: rest) = before.reverse ++ h' :: R' ∧
            h'.base = h.base ∧ targetEnd ≤ h'.base + h'.size := by
        intro w tail freed' tiles fewer next
        have merged : (Cursor.mk (h :: before) (f v) rest).merge = ⟨before, h.join w, tail⟩ := by
          rw [Cursor.merge, next]
          exact if_pos (freed.mergeable freed')
        have size : (h.join w).base + (h.join w).size = v.base + w.size := by
          simp only [VirtualMemoryArea.join]
          omega
        have joined : Freed (h.join w) := freed
        rw [sweep_next inside, merged]
        exact ih _ fewer joined (size ▸ tiles) rfl
      have tiles' : Tiles (v.base + (f v).size) rest hi := by
        rwa [acts.size, start]
      cases rest with
      | nil => exact grown (f v) [] (frees v) tiles' (by simp) rfl
      | cons n rest =>
        by_cases same : (f v).mergeable n = true
        · refine grown ((f v).join n) rest (frees v) ?_ (by
            simp only [List.length_cons]
            omega) (if_pos same)
          have := tiles'.2.2
          simpa only [VirtualMemoryArea.join, segment_size, Nat.add_assoc] using this
        · exact grown (f v) (n :: rest) (frees v) tiles' (by simp)
            (if_neg same)
    · refine ⟨h, v :: rest, ?_, rfl, by omega⟩
      rw [sweep, if_neg inside, List.reverse_cons, List.append_assoc]
      rfl

/-- Every area starts on a page. No operation makes an area start anywhere but at an old start
or at a split, so whole pages stay whole. -/
def Aligned (vs : List VirtualMemoryArea) : Prop := ∀ v ∈ vs, v.base &&& VMManager.pageMask = 0

theorem Aligned.splitAt {a : Nat} {vs : List VirtualMemoryArea} (h : Aligned vs)
    (ha : a &&& VMManager.pageMask = 0) : Aligned (splitAt a vs) := by
  refine forall_splitAt id ?_ h
  intro v low _
  have start : (v.right (a - v.base)).base = a := by
    simp only [right]
    omega
  rwa [start]

theorem Aligned.join {L : List VirtualMemoryArea} {n : VirtualMemoryArea}
    (h : Aligned (L ++ v :: n :: R)) : Aligned (L ++ v.join n :: R) := by
  intro w hw
  simp only [Aligned, List.mem_append, List.mem_cons] at h hw
  rcases hw with hw | rfl | hw
  · exact h w (Or.inl hw)
  · exact h v (Or.inr (Or.inl rfl))
  · exact h w (Or.inr (Or.inr (Or.inr hw)))

theorem Aligned.merge {c : Cursor} (h : Aligned c.areas) : Aligned c.merge.areas :=
  c.merge_rule (fun kept _ => Aligned.join kept) h

theorem Aligned.sweep (acts : Acts f F) (h : Aligned (before.reverse ++ rest)) :
    Aligned (sweep f targetEnd before rest) := by
  refine sweep_rule (fun kept _ => Aligned.join kept) ?_ h
  intro L v R kept w hw
  simp only [Aligned, List.mem_append, List.mem_cons] at kept hw
  rcases hw with hw | rfl | hw
  · exact kept w (Or.inl hw)
  · rw [acts.base]
    exact kept v (Or.inr (Or.inl rfl))
  · exact kept w (Or.inr (Or.inr hw))

end Layout
end EmuThreeDS
