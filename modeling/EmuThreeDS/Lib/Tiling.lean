import Mathlib.Data.List.Basic

/-!
# Segments that tile an interval

A layout is a list of segments, each giving a value to every position it covers. What a
layout means is its `view`; cutting a segment in two or joining two leaves the view alone.
-/
namespace Tiling

/-- Where a segment starts, how long it is, and what it says of a position. -/
class Segment (σ : Type) (α : outParam Type) where
  base : σ → Nat
  size : σ → Nat
  value : σ → Nat → α

open Segment

variable {σ α : Type} [Segment σ α]

def Covers (s : σ) (a : Nat) : Prop := base s ≤ a ∧ a < base s + size s

instance (s : σ) (a : Nat) : Decidable (Covers s a) := inferInstanceAs (Decidable (_ ∧ _))

/-- The segments cover `[lo, hi)` in order, with no gap, no overlap and none of them empty. -/
def Tiles : Nat → List σ → Nat → Prop
  | lo, [], hi => lo = hi
  | lo, s :: rest, hi => base s = lo ∧ 0 < size s ∧ Tiles (lo + size s) rest hi

def view : List σ → Nat → Option α
  | [], _ => none
  | s :: rest, a => if Covers s a then some (value s a) else view rest a

/-- The pointwise update of a view on `[lo, hi)`. -/
def updateOn (lo hi : Nat) (f : Nat → α → α) (g : Nat → Option α) (a : Nat) : Option α :=
  if lo ≤ a ∧ a < hi then (g a).map (f a) else g a

variable {f : Nat → α → α} {l P Q : List σ} {s : σ} {mid : Nat}

theorem updateOn_in {lo hi a : Nat} {g : Nat → Option α}
    (h : lo ≤ a ∧ a < hi) : updateOn lo hi f g a = (g a).map (f a) := if_pos h

theorem updateOn_out {lo hi a : Nat} {g : Nat → Option α}
    (h : ¬ (lo ≤ a ∧ a < hi)) : updateOn lo hi f g a = g a := if_neg h

variable {lo hi : Nat} {L R : List σ}

theorem Tiles.le (h : Tiles lo l hi) : lo ≤ hi := by
  induction l generalizing lo with
  | nil => exact Nat.le_of_eq h
  | cons s rest ih => exact Nat.le_trans (Nat.le_add_right _ _) (ih h.2.2)

theorem tiles_append : Tiles lo (L ++ R) hi ↔ ∃ mid, Tiles lo L mid ∧ Tiles mid R hi := by
  induction L generalizing lo with
  | nil =>
    constructor
    · exact fun h => ⟨lo, rfl, h⟩
    · rintro ⟨mid, rfl, h⟩
      exact h
  | cons s rest ih =>
    simp only [List.cons_append, Tiles, ih]
    constructor
    · rintro ⟨hb, hs, mid, hl, hr⟩
      exact ⟨mid, ⟨hb, hs, hl⟩, hr⟩
    · rintro ⟨mid, ⟨hb, hs, hl⟩, hr⟩
      exact ⟨hb, hs, mid, hl, hr⟩

/-- A tiling around one of its segments. -/
theorem tiles_middle : Tiles lo (L ++ s :: R) hi ↔
      Tiles lo L (base s) ∧ 0 < size s ∧ Tiles (base s + size s) R hi := by
  rw [tiles_append]
  constructor
  · rintro ⟨mid, hl, rfl, hs, hr⟩
    exact ⟨hl, hs, hr⟩
  · rintro ⟨hl, hs, hr⟩
    exact ⟨base s, hl, rfl, hs, hr⟩

theorem Tiles.bounds (h : Tiles lo l hi) (hs : s ∈ l) :
    lo ≤ base s ∧ 0 < size s ∧ base s + size s ≤ hi := by
  obtain ⟨L, R, rfl⟩ := List.append_of_mem hs
  obtain ⟨hl, hpos, hr⟩ := tiles_middle.mp h
  exact ⟨hl.le, hpos, hr.le⟩

theorem Tiles.unique_end {lo hi hi' : Nat} (h : Tiles lo l hi) (h' : Tiles lo l hi') :
    hi = hi' := by
  induction l generalizing lo with
  | nil => exact h.symm.trans h'
  | cons s rest ih => exact ih h.2.2 h'.2.2

theorem Tiles.eq_nil {lo : Nat} (h : Tiles lo l lo) : l = [] := by
  cases l with
  | nil => rfl
  | cons s rest =>
    have := h.2.2.le
    have := h.2.1
    omega

/-- No position lies in two segments. -/
theorem Tiles.covers_unique {lo hi a : Nat} {L R : List σ} {u : σ}
    (h : Tiles lo (L ++ s :: R) hi) (hu : u ∈ L ++ s :: R) (on : Covers u a) (here : Covers s a) :
    u = s := by
  obtain ⟨hl, _, hr⟩ := tiles_middle.mp h
  unfold Covers at on here
  rcases List.mem_append.mp hu with before | hu
  · have := (hl.bounds before).2.2
    omega
  · rcases List.mem_cons.mp hu with rfl | after
    · rfl
    · have := (hr.bounds after).1
      omega

theorem view_append {a : Nat} : view (L ++ R) a = (view L a).or (view R a) := by
  induction L with
  | nil => rfl
  | cons s rest ih =>
    simp only [List.cons_append, view]
    split_ifs
    · rfl
    · exact ih

theorem Tiles.view_none {lo hi a : Nat} (h : Tiles lo l hi)
    (ha : ¬ (lo ≤ a ∧ a < hi)) : view l a = none := by
  induction l generalizing lo with
  | nil => rfl
  | cons s rest ih =>
    obtain ⟨hb, _, hr⟩ := h
    have := hr.le
    have out : ¬ Covers s a := by
      intro hc
      unfold Covers at hc
      omega
    rw [view, if_neg out]
    exact ih hr (by omega)

/-- Every position of the interval lies in exactly one segment. -/
theorem Tiles.exists_covers {lo hi a : Nat} (h : Tiles lo l hi)
    (h1 : lo ≤ a) (h2 : a < hi) : ∃ L s R, l = L ++ s :: R ∧ Covers s a := by
  induction l generalizing lo with
  | nil =>
    have : lo = hi := h
    omega
  | cons s rest ih =>
    obtain ⟨hb, _, hr⟩ := h
    by_cases here : Covers s a
    · exact ⟨[], s, rest, rfl, here⟩
    · have later : lo + size s ≤ a := by
        unfold Covers at here
        omega
      obtain ⟨L, t, R, rfl, ht⟩ := ih hr later
      exact ⟨s :: L, t, R, rfl, ht⟩

theorem view_some {a : Nat} {x : α} (h : view l a = some x) :
    ∃ s ∈ l, Covers s a ∧ value s a = x := by
  induction l with
  | nil => exact nomatch h
  | cons s rest ih =>
    rw [view] at h
    split_ifs at h with here
    · exact ⟨s, List.mem_cons_self, here, Option.some.inj h⟩
    · obtain ⟨t, ht, found⟩ := ih h
      exact ⟨t, List.mem_cons_of_mem s ht, found⟩

theorem Tiles.view_left {lo a : Nat} {L R : List σ} (h : Tiles lo L mid)
    (h1 : lo ≤ a) (h2 : a < mid) : view (L ++ R) a = view L a := by
  obtain ⟨L₁, s, L₂, rfl, hs⟩ := h.exists_covers h1 h2
  have out : view L₁ a = none := (tiles_middle.mp h).1.view_none (by unfold Covers at hs; omega)
  simp [view_append, out, view, hs]

theorem Tiles.view_right {lo a : Nat} {L R : List σ} (h : Tiles lo L mid)
    (ha : ¬ (lo ≤ a ∧ a < mid)) : view (L ++ R) a = view R a := by
  rw [view_append, h.view_none ha]
  rfl

theorem Tiles.view_at {lo hi a : Nat} {L R : List σ} (h : Tiles lo (L ++ s :: R) hi)
    (hs : Covers s a) : view (L ++ s :: R) a = some (value s a) := by
  have hl := (tiles_middle.mp h).1
  rw [hl.view_right (by unfold Covers at hs; omega), view, if_pos hs]

theorem Tiles.view_mem {lo hi a : Nat} (h : Tiles lo l hi) (hs : s ∈ l)
    (covers : Covers s a) : view l a = some (value s a) := by
  obtain ⟨L, R, rfl⟩ := List.append_of_mem hs
  exact h.view_at covers

/-- Changing the segments of one run changes the view exactly on that run. -/
theorem view_update {top : Nat}
    (hL : Tiles top L lo) (hP : Tiles lo P mid) (hQ : Tiles lo Q mid) (hR : Tiles mid R hi)
    (run : ∀ a, lo ≤ a → a < mid → view Q a = (view P a).map (f a)) :
    view (L ++ Q ++ R) = updateOn lo mid f (view (L ++ P ++ R)) := by
  funext a
  by_cases ha : lo ≤ a ∧ a < mid
  · rw [updateOn_in ha]
    have left := hL.view_none (a := a) (by omega)
    have right := hR.view_none (a := a) (by omega)
    simp only [view_append, left, right, Option.none_or, Option.or_none, run a ha.1 ha.2]
  · rw [updateOn_out ha]
    simp only [view_append, hP.view_none ha, hQ.view_none ha]

/-- Two tilings with one tail are cut at one position. -/
theorem Tiles.same_cut {R : List σ} (hP : Tiles lo (P ++ R) hi)
    (hQ : Tiles lo (Q ++ R) hi) : ∃ mid, Tiles lo P mid ∧ Tiles lo Q mid ∧ Tiles mid R hi := by
  obtain ⟨p, hp, hpr⟩ := tiles_append.mp hP
  obtain ⟨q, hq, hqr⟩ := tiles_append.mp hQ
  cases R with
  | nil =>
    have hpq : p = q := hpr.trans hqr.symm
    exact ⟨p, hp, hpq ▸ hq, hpr⟩
  | cons r rest =>
    have hpq : p = q := hpr.1.symm.trans hqr.1
    exact ⟨p, hp, hpq ▸ hq, hpr⟩

theorem view_cancel {R : List σ} (hP : Tiles lo (P ++ R) hi)
    (hQ : Tiles lo (Q ++ R) hi) (same : view (P ++ R) = view (Q ++ R)) : view P = view Q := by
  obtain ⟨mid, hp, hq, _⟩ := hP.same_cut hQ
  funext a
  by_cases ha : lo ≤ a ∧ a < mid
  · rw [← hp.view_left ha.1 ha.2, ← hq.view_left ha.1 ha.2, same]
  · rw [hp.view_none ha, hq.view_none ha]

theorem Tiles.unique_cut {lo : Nat} {P' Q' : List σ} (h : P ++ Q = P' ++ Q')
    (hP : Tiles lo P mid) (hP' : Tiles lo P' mid) : P = P' ∧ Q = Q' := by
  have no_rest : ∀ {A X : List σ}, Tiles lo A mid → Tiles lo (A ++ X) mid → X = [] := by
    intro A X hA hX
    obtain ⟨cut, ha, hx⟩ := tiles_append.mp hX
    cases ha.unique_end hA
    exact hx.eq_nil
  rcases List.append_eq_append_iff.mp h with ⟨X, rfl, rfl⟩ | ⟨X, rfl, rfl⟩
  · cases no_rest hP hP'
    simp
  · cases no_rest hP' hP
    simp

theorem Tiles.swap {R : List σ} (hP : Tiles lo (P ++ R) hi)
    (hQ : Tiles lo (Q ++ R) hi) (h : Tiles lo Q mid) : Tiles lo P mid := by
  obtain ⟨cut, hp, hq, _⟩ := hP.same_cut hQ
  exact hq.unique_end h ▸ hp

theorem view_swap {R : List σ} (hP : Tiles lo (P ++ R) hi)
    (hQ : Tiles lo (Q ++ R) hi) (same : view (P ++ R) = view (Q ++ R)) (X : List σ) :
    view (P ++ X) = view (Q ++ X) := by
  funext a
  rw [view_append, view_append, view_cancel hP hQ same]

/-- One segment says what its two halves say, however they came about. -/
theorem view_halves {l r : σ} (hb : base l = base s) (hm : base r = base l + size l)
    (he : base r + size r = base s + size s) (hl : ∀ a, Covers l a → value l a = value s a)
    (hr : ∀ a, Covers r a → value r a = value s a) :
    view (L ++ l :: r :: R) = view (L ++ s :: R) := by
  funext a
  simp only [view_append]
  by_cases onL : Covers l a
  · have onS : Covers s a := by
      unfold Covers at onL ⊢
      omega
    simp only [view, if_pos onL, if_pos onS, hl a onL]
  · by_cases onR : Covers r a
    · have onS : Covers s a := by
        unfold Covers at onR ⊢
        omega
      simp only [view, if_neg onL, if_pos onR, if_pos onS, hr a onR]
    · have offS : ¬ Covers s a := by
        unfold Covers at onL onR ⊢
        omega
      simp only [view, if_neg onL, if_neg onR, if_neg offS]

/-- The cut of a tiling at a position where one of its segments starts. -/
theorem Tiles.cut_before {lo hi p : Nat} {L R : List σ} (h : Tiles lo (L ++ s :: R) hi)
    (hs : base s = p) : Tiles lo L p ∧ Tiles p (s :: R) hi := by
  subst hs
  obtain ⟨hl, hpos, hr⟩ := tiles_middle.mp h
  exact ⟨hl, rfl, hpos, hr⟩

end Tiling

/-!
## Largest intervals on which a function is level

Around a position there is one largest interval on which a function does not change, and two
such intervals never overlap in part. In a tiling it is found by looking at whole segments.
-/
namespace LevelIntervals

variable {β : Type} {g : Nat → β} {a b lo hi lo' hi' : Nat}

/-- `[lo, hi)` holds `a`, `g` is level on it, and no other such interval reaches further. -/
structure Largest (g : Nat → β) (a lo hi : Nat) : Prop where
  inside : lo ≤ a ∧ a < hi
  level : ∀ b, lo ≤ b → b < hi → g b = g a
  largest : ∀ lo' hi', lo' ≤ a → a < hi' → (∀ b, lo' ≤ b → b < hi' → g b = g a) →
    lo ≤ lo' ∧ hi' ≤ hi

/-- An interval is largest when the function changes at both of its ends. -/
theorem Largest.of_edges (inside : lo ≤ a ∧ a < hi) (level : ∀ b, lo ≤ b → b < hi → g b = g a)
    (before : 0 < lo → g (lo - 1) ≠ g a) (after : g hi ≠ g a) : Largest g a lo hi := by
  refine ⟨inside, level, ?_⟩
  intro lo' hi' below above same
  constructor
  · by_contra further
    exact before (by omega) (same (lo - 1) (by omega) (by omega))
  · by_contra further
    exact after (same hi (by omega) (by omega))

theorem Largest.unique (h : Largest g a lo hi) (h' : Largest g a lo' hi') :
    lo = lo' ∧ hi = hi' := by
  have outer := h.largest lo' hi' h'.inside.1 h'.inside.2 h'.level
  have inner := h'.largest lo hi h.inside.1 h.inside.2 h.level
  omega

/-- The interval is the same seen from any of its positions. -/
theorem Largest.move (h : Largest g a lo hi) (low : lo ≤ b) (high : b < hi) :
    Largest g b lo hi := by
  have same := h.level b low high
  refine ⟨⟨low, high⟩, fun c h1 h2 => (h.level c h1 h2).trans same.symm, ?_⟩
  intro lo' hi' below above level
  -- an interval around `b` and `[lo, hi)` overlap, so that their union is one around `a`
  have joined : ∀ c, min lo lo' ≤ c → c < max hi hi' → g c = g a := by
    intro c h1 h2
    by_cases mine : lo ≤ c ∧ c < hi
    · exact h.level c mine.1 mine.2
    · exact (level c (by omega) (by omega)).trans same
  have inside := h.inside
  have union := h.largest _ _ (by omega) (by omega) joined
  omega

theorem Largest.equal_or_apart (h : Largest g a lo hi) (h' : Largest g b lo' hi') :
    (lo = lo' ∧ hi = hi') ∨ hi ≤ lo' ∨ hi' ≤ lo := by
  by_cases apart : hi ≤ lo' ∨ hi' ≤ lo
  · exact Or.inr apart
  · have mine := h.inside
    have its := h'.inside
    have here := h.move (b := max lo lo') (by omega) (by omega)
    exact Or.inl (here.unique (h'.move (by omega) (by omega)))

section
open Tiling Segment
variable {σ α : Type} [Segment σ α] {κ : α → β} {key : σ → β} {L M R : List σ}
    {top : Nat}

/-- The segments `M` around `a` agree, and the ones next to them on either side differ. -/
theorem Largest.of_tiles (keyed : ∀ t ∈ L ++ (M ++ R), ∀ c, κ (value t c) = key t)
    (left : Tiles 0 L lo) (middle : Tiles lo M hi) (right : Tiles hi R top)
    (inside : lo ≤ a ∧ a < hi) {x : β} (agree : ∀ t ∈ M, key t = x)
    (before : ∀ t ∈ L.getLast?, key t ≠ x) (after : ∀ t ∈ R.head?, key t ≠ x) :
    Largest (fun c => (view (L ++ (M ++ R)) c).map κ) a lo hi := by
  have tiles : Tiles 0 (L ++ (M ++ R)) top :=
    tiles_append.mpr ⟨lo, left, tiles_append.mpr ⟨hi, middle, right⟩⟩
  have shown : ∀ t ∈ L ++ (M ++ R), ∀ c, Covers t c →
      (view (L ++ (M ++ R)) c).map κ = some (key t) := by
    intro t member c covers
    rw [tiles.view_mem member covers, Option.map_some, keyed t member c]
  have level : ∀ c, lo ≤ c → c < hi → (view (L ++ (M ++ R)) c).map κ = some x := by
    intro c low high
    obtain ⟨A, t, B, split, covers⟩ := middle.exists_covers low high
    have member : t ∈ M := by simp [split]
    rw [shown t (by simp [member]) c covers, agree t member]
  have here := level a inside.1 inside.2
  refine .of_edges inside (fun c low high => (level c low high).trans here.symm) ?_ ?_
  · intro positive
    rw [here]
    rcases List.eq_nil_or_concat L with rfl | ⟨A, t, rfl⟩
    · have : 0 = lo := left
      omega
    · rw [List.concat_eq_append] at left before shown
      obtain ⟨_, pos, ends⟩ := tiles_middle.mp left
      have ends : base t + size t = lo := ends
      rw [List.concat_eq_append, shown t (by simp) (lo - 1) ⟨by omega, by omega⟩]
      exact fun same => before t (by simp) (Option.some.inj same)
  · rw [here]
    cases R with
    | nil =>
      have ends : hi = top := right
      have out : ¬(0 ≤ hi ∧ hi < top) := by omega
      rw [tiles.view_none out]
      exact nofun
    | cons t rest =>
      obtain ⟨start, pos, _⟩ := right
      rw [shown t (by simp) hi ⟨by omega, by omega⟩]
      exact fun same => after t (by simp) (Option.some.inj same)

end

end LevelIntervals
