import EmuThreeDS.Lib.IntervalSet
import Mathlib.Order.Interval.Finset.Nat

/-!
# Pools of numbers

What can be asked of a finite set of free numbers: its highest ones, and the lowest or the
highest run of consecutive ones. The sets of `IntervalSet` answer through their blocks.
-/
namespace Pool

variable {ι : Type} [LinearOrder ι] {free r : Finset ι} {n : Nat}

/-- `r` is made of the `n` highest elements. -/
structure Highest (free : Finset ι) (n : Nat) (r : Finset ι) : Prop where
  subset : r ⊆ free
  card : r.card = n
  above : ∀ a ∈ r, ∀ b ∈ free, b ∉ r → b < a

def Fits (free : Finset Nat) (n start : Nat) : Prop := Finset.Ico start (start + n) ⊆ free

def LowestFit (free : Finset Nat) (n start : Nat) : Prop :=
  Fits free n start ∧ ∀ other, Fits free n other → start ≤ other

def HighestFit (free : Finset Nat) (n start : Nat) : Prop :=
  Fits free n start ∧ ∀ other, Fits free n other → other + n ≤ start + n

end Pool

namespace Intervals

def elements : List Block → Finset Nat
  | [] => ∅
  | b :: rest => Finset.Ico b.lower b.upper ∪ elements rest

variable {bs cs : List Block} {k j : Nat} {b c : Block}

theorem mem_elements {a : Nat} : a ∈ elements bs ↔ ∃ b ∈ bs, b.Has a := by
  induction bs with
  | nil => simp [elements]
  | cons b rest ih =>
    rw [elements, Finset.mem_union, Finset.mem_Ico, ih, List.exists_mem_cons_iff]
    rfl

theorem Apart.card_elements (h : Apart k bs) : (elements bs).card = total bs := by
  induction bs generalizing k with
  | nil => rfl
  | cons b rest ih =>
    have apart : Disjoint (Finset.Ico b.lower b.upper) (elements rest) := by
      apply Finset.disjoint_left.mpr
      intro a here later
      obtain ⟨c, hc, has⟩ := mem_elements.mp later
      have bounds := h.2.2.bounds hc
      have low := has.1
      have high := (Finset.mem_Ico.mp here).2
      omega
    rw [elements, Finset.card_union_of_disjoint apart, ih h.2.2, Nat.card_Ico]
    rfl

/-- No block goes on where another ends. -/
theorem Apart.gap (h : Apart k bs) (hb : b ∈ bs) : ¬ ∃ c ∈ bs, c.Has b.upper := by
  induction bs generalizing k with
  | nil => cases hb
  | cons first rest ih =>
    rintro ⟨c, hc, low, high⟩
    rcases List.mem_cons.mp hb with rfl | hb
    · rcases List.mem_cons.mp hc with rfl | hc
      · exact lt_irrefl _ high
      · have := (h.2.2.bounds hc).1
        omega
    · have bounds := h.2.2.bounds hb
      rcases List.mem_cons.mp hc with rfl | hc
      · omega
      · exact ih h.2.2 hb ⟨c, hc, low, high⟩

/-- Membership tells where a block ends. -/
theorem Apart.upper_le (h : Apart j (b :: bs)) (lower : b.lower = c.lower)
    (same : ∀ a, (∃ d ∈ c :: cs, d.Has a) → ∃ d ∈ b :: bs, d.Has a) : c.upper ≤ b.upper := by
  by_contra less
  apply h.gap List.mem_cons_self
  apply same
  have nonempty := h.2.1
  exact ⟨c, List.mem_cons_self, by omega, by omega⟩

theorem Apart.lower_le (h : Apart j (b :: bs))
    (h' : Apart k (c :: cs)) (same : ∀ a, (∃ d ∈ b :: bs, d.Has a) → ∃ d ∈ c :: cs, d.Has a) :
    c.lower ≤ b.lower := by
  obtain ⟨d, hd, has⟩ := same b.lower ⟨b, List.mem_cons_self, le_refl _, h.2.1⟩
  have low := has.1
  rcases List.mem_cons.mp hd with rfl | later
  · exact low
  · have := (h'.2.2.bounds later).1
    have := h'.2.1
    omega

/-- There is one list of blocks for each set. -/
theorem Apart.unique (h : Apart j bs) (h' : Apart k cs)
    (same : ∀ a, (∃ d ∈ bs, d.Has a) ↔ ∃ d ∈ cs, d.Has a) : bs = cs := by
  induction bs generalizing j k cs with
  | nil =>
    cases cs with
    | nil => rfl
    | cons c cs =>
      obtain ⟨d, hd, _⟩ := (same c.lower).mpr ⟨c, List.mem_cons_self, le_refl _, h'.2.1⟩
      cases hd
  | cons b bs ih =>
    cases cs with
    | nil =>
      obtain ⟨d, hd, _⟩ := (same b.lower).mp ⟨b, List.mem_cons_self, le_refl _, h.2.1⟩
      cases hd
    | cons c cs =>
      have lower : b.lower = c.lower :=
        le_antisymm (h'.lower_le h fun a => (same a).mpr) (h.lower_le h' fun a => (same a).mp)
      have upper : b.upper = c.upper :=
        le_antisymm (h'.upper_le lower.symm fun a => (same a).mp)
          (h.upper_le lower fun a => (same a).mpr)
      have first : b = c := by
        cases b
        cases lower
        cases upper
        rfl
      subst first
      rw [ih h.2.2 h'.2.2]
      intro a
      have later : ∀ bs, Apart (b.upper + 1) bs →
          ((∃ d ∈ bs, d.Has a) ↔ (∃ d ∈ b :: bs, d.Has a) ∧ b.upper < a) := by
        intro bs apart
        rw [List.exists_mem_cons_iff]
        constructor
        · rintro ⟨d, hd, has⟩
          have := (apart.bounds hd).1
          have := has.1
          exact ⟨Or.inr ⟨d, hd, has⟩, by omega⟩
        · rintro ⟨has | rest, above⟩
          · exact absurd has.2 (by omega)
          · exact rest
      rw [later bs h.2.2, later cs h'.2.2, same a]

namespace IntervalSet

variable {s : IntervalSet} {a n : Nat}

def toFinset (s : IntervalSet) : Finset Nat := elements s.blocks

@[simp] theorem mem_toFinset : a ∈ s.toFinset ↔ a ∈ s := mem_elements

theorem eq_of_toFinset {s s' : IntervalSet} (same : s.toFinset = s'.toFinset) : s = s' := by
  obtain ⟨bs, apart⟩ := s
  obtain ⟨cs, apart'⟩ := s'
  have blocks : bs = cs := by
    apply apart.unique apart'
    intro a
    rw [← mem_elements, ← mem_elements]
    exact Finset.ext_iff.mp same a
  subst blocks
  rfl

theorem card_toFinset : s.toFinset.card = total s.blocks := s.apart.card_elements

/-- A run of numbers lies in one block. -/
theorem fits_iff (positive : 0 < n) :
    Pool.Fits s.toFinset n a ↔ ∃ b ∈ s.blocks, b.lower ≤ a ∧ a + n ≤ b.upper := by
  constructor
  · intro fits
    obtain ⟨b, hb, low, high⟩ : a ∈ s :=
      mem_toFinset.mp (fits (Finset.mem_Ico.mpr ⟨le_refl a, by omega⟩))
    refine ⟨b, hb, low, ?_⟩
    by_contra short
    have within : b.upper ∈ Finset.Ico a (a + n) := Finset.mem_Ico.mpr ⟨by omega, by omega⟩
    exact s.apart.gap hb (mem_toFinset.mp (fits within))
  · rintro ⟨b, hb, low, high⟩ c inside
    obtain ⟨above, below⟩ := Finset.mem_Ico.mp inside
    exact mem_toFinset.mpr ⟨b, hb, by omega, by omega⟩

theorem contains_iff (positive : 0 < n) :
    s.contains ⟨a, a + n⟩ = true ↔ Pool.Fits s.toFinset n a := by
  rw [fits_iff positive]
  simp only [contains, Bool.or_eq_true, decide_eq_true_eq, List.any_eq_true, Bool.and_eq_true]
  exact or_iff_right (by omega)

end IntervalSet

end Intervals
