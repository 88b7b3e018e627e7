import Mathlib.Data.List.Basic
import Mathlib.Order.Lattice

/-!
# Ordered maps with iterators

A map is its list of entries in strictly increasing key order. An iterator is the key
it stands on, or `none` for the end, so it survives every update that keeps its entry.
-/
namespace OrderedMap

/-- The order of the entries is part of the value. -/
structure Map (κ ν : Type) [LinearOrder κ] where
  entries : List (κ × ν)
  sorted : entries.Pairwise (fun x y => x.1 < y.1)

variable {κ ν : Type} [LinearOrder κ]

namespace Map

def empty : Map κ ν := ⟨[], List.Pairwise.nil⟩

def find? (m : Map κ ν) (k : κ) : Option ν :=
  (m.entries.find? (fun e => decide (e.1 = k))).map Prod.snd

/-- First key after `k`; also the successor of an iterator standing on `k`. -/
def upperBound (m : Map κ ν) (k : κ) : Option κ :=
  (m.entries.find? (fun e => decide (k < e.1))).map Prod.fst

def lowerBound (m : Map κ ν) (k : κ) : Option κ :=
  (m.entries.find? (fun e => decide (k ≤ e.1))).map Prod.fst

def next (m : Map κ ν) (k : κ) : Option κ := m.upperBound k

/-- Predecessor of an iterator, the end included; `none` at the first entry. -/
def prev (m : Map κ ν) : Option κ → Option κ
  | none => m.entries.getLast?.map Prod.fst
  | some k => (m.entries.filter (fun e => decide (e.1 < k))).getLast?.map Prod.fst

def fromIter (m : Map κ ν) : Option κ → List (κ × ν)
  | none => []
  | some k => m.entries.dropWhile (fun e => decide (e.1 < k))

/-- `std::find_if` from an iterator to the end. -/
def findIf (m : Map κ ν) (it : Option κ) (p : ν → Bool) : Option κ :=
  ((m.fromIter it).find? (fun e => p e.2)).map Prod.fst

/-- `std::find_if` backwards from the entry before `k`: the key the reverse iterator found
refers to, or `none` for `rend()`. -/
def findIfReverse (m : Map κ ν) (k : κ) (p : ν → Bool) : Option κ :=
  ((m.entries.filter (fun e => decide (e.1 < k))).reverse.find? (fun e => p e.2)).map Prod.fst

/-- What a reverse iterator refers to after it is decremented. -/
def prevReverse (m : Map κ ν) : Option κ → Option κ
  | none => m.entries.head?.map Prod.fst
  | some k => m.next k

def modify (m : Map κ ν) (k : κ) (f : ν → ν) : Map κ ν :=
  ⟨m.entries.map (fun e => if e.1 = k then (e.1, f e.2) else e), by
    rw [List.pairwise_map]
    refine m.sorted.imp ?_
    intro x y h
    split_ifs <;> exact h⟩

def erase (m : Map κ ν) (k : κ) : Map κ ν :=
  ⟨m.entries.filter (fun e => decide (e.1 ≠ k)), m.sorted.filter _⟩

/-- A key that is present keeps its old value. -/
def insertEntry (k : κ) (v : ν) : List (κ × ν) → List (κ × ν)
  | [] => [(k, v)]
  | e :: rest =>
    if k < e.1 then (k, v) :: e :: rest
    else if e.1 < k then e :: insertEntry k v rest
    else e :: rest

theorem mem_insertEntry {k : κ} {v : ν} {es : List (κ × ν)} {x : κ × ν}
    (h : x ∈ insertEntry k v es) : x = (k, v) ∨ x ∈ es := by
  induction es with
  | nil => exact Or.inl (List.mem_singleton.mp h)
  | cons e rest ih =>
    unfold insertEntry at h
    split_ifs at h with h1 h2
    · exact List.mem_cons.mp h
    · rcases List.mem_cons.mp h with rfl | later
      · exact Or.inr List.mem_cons_self
      · exact (ih later).imp_right (List.mem_cons_of_mem e)
    · exact Or.inr h

theorem sorted_insertEntry {k : κ} {v : ν} {es : List (κ × ν)}
    (h : es.Pairwise (fun x y => x.1 < y.1)) :
    (insertEntry k v es).Pairwise (fun x y => x.1 < y.1) := by
  induction es with
  | nil => exact List.pairwise_singleton _ _
  | cons e rest ih =>
    obtain ⟨first, later⟩ := List.pairwise_cons.mp h
    unfold insertEntry
    split_ifs with h1 h2
    · refine List.pairwise_cons.mpr ⟨?_, h⟩
      intro x hx
      rcases List.mem_cons.mp hx with rfl | hx
      · exact h1
      · exact lt_trans h1 (first x hx)
    · refine List.pairwise_cons.mpr ⟨?_, ih later⟩
      intro x hx
      rcases mem_insertEntry hx with rfl | hx
      · exact h2
      · exact first x hx
    · exact h

def insert (m : Map κ ν) (k : κ) (v : ν) : Map κ ν :=
  ⟨insertEntry k v m.entries, sorted_insertEntry m.sorted⟩

section

variable {m : Map κ ν} {before behind : List (κ × ν)} {e : κ × ν} {k : κ} {v : ν}

/-- The entry that a key is at or behind. -/
theorem prev_upperBound (cut : m.entries = before ++ e :: behind) (reached : e.1 ≤ k)
    (further : ∀ x ∈ behind, k < x.1) : m.prev (m.upperBound k) = some e.1 := by
  have sorted := m.sorted
  rw [cut, List.pairwise_append] at sorted
  have below : ∀ x ∈ before, x.1 ≤ e.1 := fun x mem =>
    le_of_lt (sorted.2.2 x mem e List.mem_cons_self)
  have upper : m.entries.find? (fun x => decide (k < x.1)) = behind.head? := by
    have skipped : ∀ x ∈ before, ¬ decide (k < x.1) = true := fun x mem => by
      simpa using le_trans (below x mem) reached
    rw [cut, List.find?_append, List.find?_eq_none.mpr skipped, Option.none_or,
      List.find?_cons_of_neg (by simpa using reached)]
    cases behind with
    | nil => rfl
    | cons y rest => exact List.find?_cons_of_pos (by simpa using further y List.mem_cons_self)
  unfold upperBound
  rw [upper]
  cases behind with
  | nil =>
    unfold prev
    rw [cut]
    simp
  | cons y rest =>
    have next := further y List.mem_cons_self
    have kept : (before ++ [e]).filter (fun x => decide (x.1 < y.1)) = before ++ [e] := by
      rw [List.filter_eq_self]
      intro x mem
      have le : x.1 ≤ e.1 := by
        rcases List.mem_append.mp mem with mem | mem
        · exact below x mem
        · rw [List.mem_singleton.mp mem]
      exact decide_eq_true (lt_of_le_of_lt (le_trans le reached) next)
    have left : (y :: rest).filter (fun x => decide (x.1 < y.1)) = [] := by
      rw [List.filter_eq_nil_iff]
      intro x mem
      have later : y.1 ≤ x.1 := by
        rcases List.mem_cons.mp mem with rfl | mem
        · exact le_refl _
        · exact le_of_lt ((List.pairwise_cons.mp (List.pairwise_cons.mp sorted.2.1).2).1 x mem)
      simpa using later
    unfold prev
    dsimp only [List.head?_cons, Option.map_some]
    rw [cut, List.append_cons, List.filter_append, kept, left, List.append_nil,
      List.getLast?_concat]
    rfl

theorem fromIter_entry (cut : m.entries = before ++ e :: behind) :
    m.fromIter (some e.1) = e :: behind := by
  have sorted := m.sorted
  rw [cut, List.pairwise_append] at sorted
  have skipped : ∀ x ∈ before, decide (x.1 < e.1) = true := fun x mem =>
    decide_eq_true (sorted.2.2 x mem e List.mem_cons_self)
  unfold fromIter
  dsimp only
  rw [cut, List.dropWhile_append_of_pos skipped, List.dropWhile_cons_of_neg (by simp)]

theorem insert_last (last : ∀ x ∈ m.entries, x.1 < k) :
    (m.insert k v).entries = m.entries ++ [(k, v)] := by
  unfold insert
  dsimp only
  generalize m.entries = entries at last
  induction entries with
  | nil => rfl
  | cons x rest ih =>
    have first := last x List.mem_cons_self
    unfold insertEntry
    rw [if_neg (not_lt.mpr (le_of_lt first)), if_pos first,
      ih fun y mem => last y (List.mem_cons_of_mem _ mem), List.cons_append]

end

end Map

/-! Every key a function of its value: the entries are then the list of values. -/

def Holds (key : ν → κ) (m : Map κ ν) (vs : List ν) : Prop :=
  m.entries = vs.map (fun v => (key v, v))

variable {key : ν → κ} {m : Map κ ν}

theorem Holds.eq {vs : List ν} (h : Holds key m vs) : m.entries = vs.map (fun v => (key v, v)) := h

theorem Holds.sorted {vs : List ν} (h : Holds key m vs) :
    vs.Pairwise (fun v w => key v < key w) := by
  have := m.sorted
  rw [h, List.pairwise_map] at this
  exact this

/-- A list in key order is cut in two by any key. -/
theorem exists_cut {vs : List ν} (h : vs.Pairwise (fun v w => key v < key w)) (k : κ) :
    ∃ A B, vs = A ++ B ∧ (∀ w ∈ A, key w < k) ∧ ∀ w ∈ B, k ≤ key w := by
  induction vs with
  | nil => exact ⟨[], [], rfl, by simp, by simp⟩
  | cons v rest ih =>
    obtain ⟨first, later⟩ := List.pairwise_cons.mp h
    by_cases below : key v < k
    · obtain ⟨A, B, rfl, hA, hB⟩ := ih later
      refine ⟨v :: A, B, rfl, ?_, hB⟩
      intro w hw
      rcases List.mem_cons.mp hw with rfl | hw
      · exact below
      · exact hA w hw
    · refine ⟨[], v :: rest, rfl, by simp, ?_⟩
      intro w hw
      rcases List.mem_cons.mp hw with rfl | hw
      · exact not_lt.mp below
      · exact le_of_lt (lt_of_le_of_lt (not_lt.mp below) (first w hw))

section
variable {L R : List ν} {k : κ}

omit [LinearOrder κ] in
private theorem find?_cut {p : κ × ν → Bool} (hL : ∀ w ∈ L, p (key w, w) = false)
    (hR : ∀ w ∈ R, p (key w, w) = true) :
    ((L ++ R).map (fun v => (key v, v))).find? p = R.head?.map (fun v => (key v, v)) := by
  induction L with
  | nil =>
    cases R with
    | nil => rfl
    | cons r rest => simp [hR r List.mem_cons_self]
  | cons l rest ih =>
    have first := hL l List.mem_cons_self
    simp only [List.cons_append, List.map_cons, List.find?_cons, first]
    exact ih fun w hw => hL w (List.mem_cons_of_mem l hw)

theorem Holds.upperBound (h : Holds key m (L ++ R)) (hL : ∀ w ∈ L, key w ≤ k)
    (hR : ∀ w ∈ R, k < key w) : m.upperBound k = R.head?.map key := by
  unfold Map.upperBound
  rw [h, find?_cut (fun w hw => decide_eq_false (not_lt.mpr (hL w hw)))
    (fun w hw => decide_eq_true (hR w hw)), Option.map_map]
  rfl

theorem Holds.lowerBound (h : Holds key m (L ++ R)) (hL : ∀ w ∈ L, key w < k)
    (hR : ∀ w ∈ R, k ≤ key w) : m.lowerBound k = R.head?.map key := by
  unfold Map.lowerBound
  rw [h, find?_cut (fun w hw => decide_eq_false (not_le.mpr (hL w hw)))
    (fun w hw => decide_eq_true (hR w hw)), Option.map_map]
  rfl

private theorem filter_cut (hL : ∀ w ∈ L, key w < k) (hR : ∀ w ∈ R, k ≤ key w) :
    (((L ++ R).map (fun v => (key v, v))).filter (fun e => decide (e.1 < k))) =
      L.map (fun v => (key v, v)) := by
  have right : (R.map (fun v => (key v, v))).filter (fun e => decide (e.1 < k)) = [] := by
    rw [List.filter_eq_nil_iff]
    intro e he
    obtain ⟨w, hw, rfl⟩ := List.mem_map.mp he
    simpa using hR w hw
  have left : (L.map (fun v => (key v, v))).filter (fun e => decide (e.1 < k)) =
      L.map (fun v => (key v, v)) := by
    rw [List.filter_eq_self]
    intro e he
    obtain ⟨w, hw, rfl⟩ := List.mem_map.mp he
    exact decide_eq_true (hL w hw)
  rw [List.map_append, List.filter_append, left, right, List.append_nil]

section

variable (h : Holds key m (L ++ R)) (hL : ∀ w ∈ L, key w < k) (hR : ∀ w ∈ R, k ≤ key w)
include h hL hR

theorem Holds.prev : m.prev (some k) = L.getLast?.map key := by
  simp only [Map.prev, h.eq, filter_cut hL hR, List.getLast?_map, Option.map_map]
  rfl

theorem Holds.fromIter : m.fromIter (some k) = R.map (fun v => (key v, v)) := by
  simp only [Map.fromIter, h.eq]
  clear h
  induction L with
  | nil =>
    cases R with
    | nil => rfl
    | cons r rest =>
      simp [not_lt.mpr (hR r List.mem_cons_self)]
  | cons l rest ih =>
    have first := hL l List.mem_cons_self
    simp only [List.cons_append, List.map_cons, List.dropWhile_cons, first, decide_true, if_true]
    exact ih fun w hw => hL w (List.mem_cons_of_mem l hw)

end

omit [LinearOrder κ] in
private theorem find?_map_key (vs : List ν) (p : ν → Bool) :
    ((vs.map (fun v => (key v, v))).find? (fun e => p e.2)).map Prod.fst =
      (vs.find? p).map key := by
  rw [List.find?_map, Option.map_map]
  rfl

section

variable (h : Holds key m (L ++ R)) (hL : ∀ w ∈ L, key w < k) (hR : ∀ w ∈ R, k ≤ key w)
  (p : ν → Bool)
include h hL hR

theorem Holds.findIf : m.findIf (some k) p = (R.find? p).map key := by
  rw [Map.findIf, h.fromIter hL hR, find?_map_key]

theorem Holds.findIfReverse : m.findIfReverse k p = (L.reverse.find? p).map key := by
  rw [Map.findIfReverse, h.eq, filter_cut hL hR, ← List.map_reverse, find?_map_key]

end

end

theorem Holds.prev_end {vs : List ν} (h : Holds key m vs) : m.prev none = vs.getLast?.map key := by
  simp only [Map.prev, h.eq, List.getLast?_map, Option.map_map]
  rfl

section
variable {L R : List ν} {v : ν}

section

variable (h : Holds key m (L ++ v :: R))
include h

theorem Holds.left_lt : ∀ w ∈ L, key w < key v :=
  fun w hw => (List.pairwise_append.mp h.sorted).2.2 w hw v List.mem_cons_self

theorem Holds.find? : m.find? (key v) = some v := by
  have left : ∀ w ∈ L, ¬ key w = key v := fun w hw => ne_of_lt (h.left_lt w hw)
  simp only [Map.find?, h.eq]
  clear h
  induction L with
  | nil => simp
  | cons l rest ih =>
    rw [List.cons_append, List.map_cons, List.find?_cons_of_neg
      (by simpa using left l List.mem_cons_self)]
    exact ih fun w hw => left w (List.mem_cons_of_mem l hw)

theorem Holds.lt_right : ∀ w ∈ R, key v < key w :=
  (List.pairwise_cons.mp (List.pairwise_append.mp h.sorted).2.1).1

theorem Holds.right_ge : ∀ w ∈ v :: R, key v ≤ key w := by
  intro w hw
  rcases List.mem_cons.mp hw with rfl | hw
  · exact le_rfl
  · exact le_of_lt (h.lt_right w hw)

theorem Holds.next : m.next (key v) = R.head?.map key := by
  have cut : Holds key m ((L ++ [v]) ++ R) := by
    simpa only [List.append_assoc, List.singleton_append] using h
  refine cut.upperBound ?_ h.lt_right
  intro w hw
  rcases List.mem_append.mp hw with hw | hw
  · exact le_of_lt (h.left_lt w hw)
  · exact le_of_eq (congrArg key (List.mem_singleton.mp hw))

theorem Holds.prev_at : m.prev (some (key v)) = L.getLast?.map key :=
  h.prev h.left_lt h.right_ge

theorem Holds.modify (f : ν → ν) (hf : key (f v) = key v) :
    Holds key (m.modify (key v) f) (L ++ f v :: R) := by
  have left : ∀ w ∈ L, ¬ key w = key v := fun w hw => ne_of_lt (h.left_lt w hw)
  have right : ∀ w ∈ R, ¬ key w = key v := fun w hw => (ne_of_lt (h.lt_right w hw)).symm
  simp only [Holds, Map.modify, h.eq, List.map_append, List.map_cons, List.map_map, hf, if_true]
  congr 1
  · exact List.map_congr_left fun w hw => by simp [left w hw]
  · congr 1
    exact List.map_congr_left fun w hw => by simp [right w hw]

theorem Holds.erase : Holds key (m.erase (key v)) (L ++ R) := by
  have left : ∀ w ∈ L, ¬ key w = key v := fun w hw => ne_of_lt (h.left_lt w hw)
  have right : ∀ w ∈ R, ¬ key w = key v := fun w hw => (ne_of_lt (h.lt_right w hw)).symm
  simp only [Holds, Map.erase, h.eq, List.map_append, List.map_cons, List.filter_append,
    List.filter_cons, ne_eq, not_true_eq_false, decide_false, Bool.false_eq_true, if_false]
  congr 1
  · rw [List.filter_eq_self]
    intro e he
    obtain ⟨w, hw, rfl⟩ := List.mem_map.mp he
    exact decide_eq_true (left w hw)
  · rw [List.filter_eq_self]
    intro e he
    obtain ⟨w, hw, rfl⟩ := List.mem_map.mp he
    exact decide_eq_true (right w hw)

end

theorem Holds.insert (h : Holds key m (L ++ R)) (hL : ∀ w ∈ L, key w < key v)
    (hR : ∀ w ∈ R, key v < key w) : Holds key (m.insert (key v) v) (L ++ v :: R) := by
  simp only [Holds, Map.insert, h.eq]
  clear h
  induction L with
  | nil =>
    cases R with
    | nil => rfl
    | cons r rest => simp [Map.insertEntry, hR r List.mem_cons_self]
  | cons l rest ih =>
    have first := hL l List.mem_cons_self
    simp only [List.cons_append, List.map_cons, Map.insertEntry]
    rw [if_neg (not_lt.mpr (le_of_lt first)), if_pos first]
    exact congrArg _ (ih fun w hw => hL w (List.mem_cons_of_mem l hw))

end

end OrderedMap

/-! Sets as strictly increasing lists: insertion keeps one copy of each element and the order. -/
namespace FlatSet

variable {α : Type} [LinearOrder α]

def insert (x : α) : List α → List α
  | [] => [x]
  | y :: rest =>
    if x < y then x :: y :: rest else if x = y then y :: rest else y :: insert x rest

end FlatSet
