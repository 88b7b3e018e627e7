import EmuThreeDS.Lib.IntervalSet

/-!
# Maps from numbers as half-open segments

A map is kept as its segments in increasing order. None is empty, and where two of one value
touch they are one. Every change of the values on a block is an `update`.
-/
namespace Intervals

/-- A value on the numbers from `lower` up to, not including, `upper`. -/
structure Segment (V : Type) where
  lower : Nat
  upper : Nat
  value : V

namespace Segment

variable {V : Type}

def block (s : Segment V) : Block := ⟨s.lower, s.upper⟩

def Has (s : Segment V) (a : Nat) : Prop := s.lower ≤ a ∧ a < s.upper

def meets (s : Segment V) (b : Block) : Bool := s.lower < b.upper && b.lower < s.upper

def clip (s : Segment V) (b : Block) : Segment V :=
  ⟨max s.lower b.lower, min s.upper b.upper, s.value⟩

end Segment

variable {V : Type} [DecidableEq V]

def Ascending : Nat → List (Segment V) → Prop
  | _, [] => True
  | k, s :: rest => k ≤ s.lower ∧ s.lower < s.upper ∧ Ascending s.upper rest

def valueAt : List (Segment V) → Nat → Option V
  | [], _ => none
  | s :: rest, a => if s.lower ≤ a ∧ a < s.upper then some s.value else valueAt rest a

def joinSegment (lower upper : Nat) (value : V) : List (Segment V) → List (Segment V)
  | [] => [⟨lower, upper, value⟩]
  | s :: rest =>
    if upper = s.lower ∧ value = s.value then ⟨lower, s.upper, value⟩ :: rest
    else ⟨lower, upper, value⟩ :: s :: rest

/-- A block that may be empty or without a value. -/
def pushPiece (lower upper : Nat) (value : Option V) (rest : List (Segment V)) : List (Segment V) :=
  match value with
  | some v => if lower < upper then joinSegment lower upper v rest else rest
  | none => rest

def updateSegments (f : Option V → Option V) (lower upper : Nat) :
    List (Segment V) → List (Segment V)
  | [] => pushPiece lower upper (f none) []
  | s :: rest =>
    if upper ≤ s.lower then pushPiece lower upper (f none) (s :: rest)
    else if s.upper ≤ lower then
      joinSegment s.lower s.upper s.value (updateSegments f lower upper rest)
    else
      pushPiece s.lower lower (some s.value) <|
        pushPiece lower s.lower (f none) <|
          pushPiece (max lower s.lower) (min upper s.upper) (f (some s.value)) <|
            if upper < s.upper then pushPiece upper s.upper (some s.value) rest
            else updateSegments f s.upper upper rest

section

variable {k lower upper a : Nat} {value : V} {piece : Option V} {segments : List (Segment V)}

omit [DecidableEq V] in
theorem Ascending.mono {j : Nat} (h : Ascending k segments) (le : j ≤ k) : Ascending j segments := by
  cases segments with
  | nil => exact True.intro
  | cons s rest => exact ⟨Nat.le_trans le h.1, h.2⟩

omit [DecidableEq V] in
theorem valueAt_below (h : Ascending k segments) (below : a < k) : valueAt segments a = none := by
  induction segments generalizing k with
  | nil => rfl
  | cons s rest ih =>
    obtain ⟨start, nonempty, later⟩ := h
    rw [valueAt, if_neg, ih later (by omega)]
    rintro ⟨low, -⟩
    omega

section

variable (h : Ascending upper segments)
include h

theorem ascending_joinSegment (nonempty : lower < upper)
    (start : k ≤ lower) : Ascending k (joinSegment lower upper value segments) := by
  cases segments with
  | nil => exact ⟨start, nonempty, True.intro⟩
  | cons s rest =>
    obtain ⟨first, inner, later⟩ := h
    rw [joinSegment]
    split_ifs
    · exact ⟨start, show lower < s.upper by omega, later⟩
    · exact ⟨start, nonempty, first, inner, later⟩

theorem valueAt_joinSegment (nonempty : lower < upper) :
    valueAt (joinSegment lower upper value segments) a =
      if lower ≤ a ∧ a < upper then some value else valueAt segments a := by
  cases segments with
  | nil => rfl
  | cons s rest =>
    obtain ⟨first, inner, -⟩ := h
    rw [joinSegment]
    by_cases joined : upper = s.lower ∧ value = s.value
    · obtain ⟨touch, same⟩ := joined
      rw [if_pos ⟨touch, same⟩, valueAt, valueAt]
      dsimp only
      rw [← same]
      split_ifs <;> first | rfl | omega
    · rw [if_neg joined]
      rfl

theorem ascending_pushPiece (rest : Ascending k segments)
    (start : k ≤ lower) : Ascending k (pushPiece lower upper piece segments) := by
  unfold pushPiece
  split
  · split_ifs with nonempty
    · exact ascending_joinSegment h nonempty start
    · exact rest
  · exact rest

theorem valueAt_pushPiece : valueAt (pushPiece lower upper piece segments) a =
      if lower ≤ a ∧ a < upper then piece else valueAt segments a := by
  unfold pushPiece
  split
  · split_ifs with nonempty on on
    · rw [valueAt_joinSegment h nonempty, if_pos on]
    · rw [valueAt_joinSegment h nonempty, if_neg on]
    · omega
    · rfl
  · split_ifs with on
    · exact valueAt_below h on.2
    · rfl

end

variable {s : Segment V} {f : Option V → Option V}

/-- The three pieces of a segment and a block that overlap, before what follows both. -/
theorem pushPieces_spec {gap inside : Option V} {last : List (Segment V)}
    (h : Ascending (min upper s.upper) last) (inner : s.lower < s.upper) (order : lower ≤ upper)
    (before : s.lower < upper) (behind : lower < s.upper) (first : k ≤ s.lower)
    (start : k ≤ lower) :
    Ascending k (pushPiece s.lower lower (some s.value) (pushPiece lower s.lower gap
        (pushPiece (max lower s.lower) (min upper s.upper) inside last))) ∧
      ∀ a, valueAt (pushPiece s.lower lower (some s.value) (pushPiece lower s.lower gap
          (pushPiece (max lower s.lower) (min upper s.upper) inside last))) a =
        if s.lower ≤ a ∧ a < lower then some s.value else if lower ≤ a ∧ a < s.lower then gap
        else if max lower s.lower ≤ a ∧ a < min upper s.upper then inside else valueAt last a := by
  have third : Ascending (max lower s.lower)
      (pushPiece (max lower s.lower) (min upper s.upper) inside last) :=
    ascending_pushPiece h (h.mono (by omega)) (Nat.le_refl _)
  have second : Ascending lower (pushPiece lower s.lower gap
      (pushPiece (max lower s.lower) (min upper s.upper) inside last)) :=
    ascending_pushPiece (third.mono (by omega)) (third.mono (by omega)) (Nat.le_refl _)
  refine ⟨ascending_pushPiece second (second.mono start) first, fun a => ?_⟩
  rw [valueAt_pushPiece second, valueAt_pushPiece (third.mono (by omega)), valueAt_pushPiece h]

theorem updateSegments_spec (h : Ascending k segments) (start : k ≤ lower) (order : lower ≤ upper) :
    Ascending k (updateSegments f lower upper segments) ∧
      ∀ a, valueAt (updateSegments f lower upper segments) a =
        if lower ≤ a ∧ a < upper then f (valueAt segments a) else valueAt segments a := by
  induction segments generalizing k lower with
  | nil =>
    exact ⟨ascending_pushPiece True.intro True.intro start, fun a => valueAt_pushPiece True.intro⟩
  | cons s rest ih =>
    obtain ⟨first, inner, later⟩ := h
    rw [updateSegments]
    by_cases before : upper ≤ s.lower
    · have whole : Ascending upper (s :: rest) := ⟨before, inner, later⟩
      rw [if_pos before]
      refine ⟨ascending_pushPiece whole ⟨first, inner, later⟩ start, fun a => ?_⟩
      rw [valueAt_pushPiece whole]
      by_cases on : lower ≤ a ∧ a < upper
      · rw [if_pos on, if_pos on, valueAt_below whole on.2]
      · rw [if_neg on, if_neg on]
    rw [if_neg before]
    by_cases behind : s.upper ≤ lower
    · obtain ⟨ascending, values⟩ := ih later behind order
      rw [if_pos behind]
      refine ⟨ascending_joinSegment ascending inner first, fun a => ?_⟩
      rw [valueAt_joinSegment ascending inner, values, valueAt]
      by_cases has : s.lower ≤ a ∧ a < s.upper
      · rw [if_pos has, if_neg (by omega), if_pos has]
      · rw [if_neg has, if_neg has]
    rw [if_neg behind]
    by_cases ends : upper < s.upper
    · have tail : Ascending upper (pushPiece upper s.upper (some s.value) rest) :=
        ascending_pushPiece later (later.mono (by omega)) (Nat.le_refl _)
      rw [if_pos ends]
      obtain ⟨ascending, values⟩ := @pushPieces_spec V _ k lower upper s (f none)
        (f (some s.value)) _ (tail.mono (by omega)) inner order (by omega) (by omega) first start
      refine ⟨ascending, fun a => ?_⟩
      rw [values, valueAt_pushPiece later, valueAt]
      by_cases behind : s.upper ≤ a
      · split_ifs <;> first | rfl | omega
      · rw [valueAt_below later (Nat.lt_of_not_le behind)]
        split_ifs <;> first | rfl | omega
    · obtain ⟨above, tail⟩ := ih later (Nat.le_refl s.upper) (by omega)
      rw [if_neg ends]
      obtain ⟨ascending, values⟩ := @pushPieces_spec V _ k lower upper s (f none)
        (f (some s.value)) _ (above.mono (by omega)) inner order (by omega) (by omega) first start
      refine ⟨ascending, fun a => ?_⟩
      rw [values, tail, valueAt]
      by_cases behind : s.upper ≤ a
      · split_ifs <;> first | rfl | omega
      · rw [valueAt_below later (Nat.lt_of_not_le behind)]
        split_ifs <;> first | rfl | omega

omit [DecidableEq V] in
theorem Ascending.bounds (h : Ascending k segments) (member : s ∈ segments) :
    k ≤ s.lower ∧ s.lower < s.upper := by
  induction segments generalizing k with
  | nil => exact nomatch member
  | cons t rest ih =>
    obtain ⟨start, inner, later⟩ := h
    rcases List.mem_cons.mp member with rfl | below
    · exact ⟨start, inner⟩
    · obtain ⟨low, high⟩ := ih later below
      exact ⟨by omega, high⟩

omit [DecidableEq V] in
theorem valueAt_of_mem (h : Ascending k segments) (member : s ∈ segments)
    (has : s.Has a) : valueAt segments a = some s.value := by
  induction segments generalizing k with
  | nil => exact nomatch member
  | cons t rest ih =>
    obtain ⟨-, -, later⟩ := h
    rcases List.mem_cons.mp member with rfl | below
    · exact if_pos has
    · have start := (later.bounds below).1
      rw [valueAt, if_neg, ih later below]
      rintro ⟨-, high⟩
      have := has.1
      omega

omit [DecidableEq V] in
theorem mem_of_valueAt (found : valueAt segments a = some value) :
    ∃ s ∈ segments, s.Has a ∧ s.value = value := by
  induction segments with
  | nil => exact nomatch found
  | cons t rest ih =>
    rw [valueAt] at found
    split_ifs at found with on
    · exact ⟨t, List.mem_cons_self, on, Option.some_inj.mp found⟩
    · obtain ⟨s, member, rest⟩ := ih found
      exact ⟨s, List.mem_cons_of_mem t member, rest⟩

omit [DecidableEq V] in
theorem Ascending.pairwise (h : Ascending k segments) :
    segments.Pairwise fun s t => s.upper ≤ t.lower := by
  induction segments generalizing k with
  | nil => exact List.Pairwise.nil
  | cons s rest ih => exact List.Pairwise.cons (fun t below => (h.2.2.bounds below).1) (ih h.2.2)

end

/-- The segments are part of the value in increasing order. -/
structure IntervalMap (V : Type) where
  segments : List (Segment V)
  ascending : Ascending 0 segments

namespace IntervalMap

def empty : IntervalMap V := ⟨[], True.intro⟩

def find (m : IntervalMap V) (a : Nat) : Option V := valueAt m.segments a

/-- Another value for every number of a block; an empty block changes nothing. -/
def update (m : IntervalMap V) (b : Block) (f : Option V → Option V) : IntervalMap V :=
  if h : b.lower < b.upper then
    ⟨updateSegments f b.lower b.upper m.segments,
      (updateSegments_spec m.ascending (Nat.zero_le _) (Nat.le_of_lt h)).1⟩
  else m

def erase (m : IntervalMap V) (b : Block) : IntervalMap V := m.update b fun _ => none

/-- Adding to the values, where no value counts as zero and zero is no value. -/
def add [AddMonoid V] (m : IntervalMap V) (b : Block) (delta : V) : IntervalMap V :=
  m.update b fun old =>
    let sum := old.getD 0 + delta
    if sum = 0 then none else some sum

def eraseAll (m : IntervalMap V) (bs : List Block) : IntervalMap V := bs.foldl erase m

def overlapping (m : IntervalMap V) (b : Block) : List (Segment V) :=
  m.segments.filter fun s => s.meets b

def within (m : IntervalMap V) (b : Block) : List (Segment V) :=
  (m.overlapping b).map fun s => s.clip b

variable {m : IntervalMap V} {b : Block} {a : Nat} {value : V}

theorem find_update : (m.update b f).find a = if b.Has a then f (m.find a) else m.find a := by
  unfold update
  split_ifs with nonempty has has
  · exact ((updateSegments_spec m.ascending (Nat.zero_le _) (Nat.le_of_lt nonempty)).2 a).trans
      (if_pos has)
  · exact ((updateSegments_spec m.ascending (Nat.zero_le _) (Nat.le_of_lt nonempty)).2 a).trans
      (if_neg has)
  · have := has.1
    have := has.2
    omega
  · rfl

theorem find_erase : (m.erase b).find a = if b.Has a then none else m.find a := find_update

theorem find_add [AddMonoid V] {delta : V} : (m.add b delta).find a = if b.Has a then
      if (m.find a).getD 0 + delta = 0 then none else some ((m.find a).getD 0 + delta)
    else m.find a := find_update

omit [DecidableEq V] in
theorem mem_overlapping :
    s ∈ m.overlapping b ↔ s ∈ m.segments ∧ s.lower < b.upper ∧ b.lower < s.upper := by
  simp [overlapping, Segment.meets]

omit [DecidableEq V] in
theorem find_of_mem (member : s ∈ m.segments) (has : s.Has a) :
    m.find a = some s.value := valueAt_of_mem m.ascending member has

omit [DecidableEq V] in
theorem find_eq_some : m.find a = some value ↔ ∃ s ∈ m.segments, s.Has a ∧ s.value = value := by
  constructor
  · exact mem_of_valueAt
  · rintro ⟨s, member, has, rfl⟩
    exact find_of_mem member has

omit [DecidableEq V] in
theorem segment_nonempty (member : s ∈ m.segments) : s.lower < s.upper :=
  (m.ascending.bounds member).2

omit [DecidableEq V] in
/-- The pieces of the map in a nonempty block are not empty and hold what the map holds there. -/
theorem mem_within (nonempty : b.lower < b.upper) (member : s ∈ m.within b) :
    b.lower ≤ s.lower ∧ s.lower < s.upper ∧ s.upper ≤ b.upper ∧
      ∀ a, s.Has a → m.find a = some s.value := by
  obtain ⟨t, overlap, rfl⟩ := List.mem_map.mp member
  obtain ⟨of, below, above⟩ := mem_overlapping.mp overlap
  have inner := segment_nonempty of
  unfold Segment.clip
  dsimp only
  refine ⟨by omega, by omega, by omega, fun a has => find_of_mem of ?_⟩
  have low := has.1
  have high := has.2
  dsimp only at low high
  exact ⟨by omega, by omega⟩

omit [DecidableEq V] in
theorem exists_within (has : b.Has a) (found : m.find a = some value) :
    ∃ s ∈ m.within b, s.Has a ∧ s.value = value := by
  obtain ⟨s, member, on, same⟩ := find_eq_some.mp found
  have low := has.1
  have high := has.2
  refine ⟨s.clip b, List.mem_map.mpr ⟨s, mem_overlapping.mpr ⟨member, ?_⟩, rfl⟩, ?_, same⟩
  · exact ⟨Nat.lt_of_le_of_lt on.1 high, Nat.lt_of_le_of_lt low on.2⟩
  · exact ⟨Nat.max_le.mpr ⟨on.1, low⟩, Nat.lt_min.mpr ⟨on.2, high⟩⟩

omit [DecidableEq V] in
theorem within_pairwise : (m.within b).Pairwise fun s t => s.upper ≤ t.lower := by
  refine List.pairwise_map.mpr ((m.ascending.pairwise.filter _).imp fun {s t} order => ?_)
  unfold Segment.clip
  dsimp only
  omega

end IntervalMap
end Intervals
