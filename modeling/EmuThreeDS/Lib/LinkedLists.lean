import Mathlib.Data.List.Nodup
import Mathlib.Data.List.Range

/-!
# Linked lists

Singly linked chains: nodes of `ι`, each with a pointer in `next`; `node i` is the pointer at `i`
and `nil` the pointer at nothing. `Visits` says which nodes the walk from a pointer meets. And
semicircular lists, doubly linked, whose last node has `null` as its successor and whose first
one has the last one as its predecessor, so that a pointer at it reaches both ends.
-/
namespace LinkedChain

variable {ι P : Type} {node : ι → P} {nil : P} {next next' : ι → P} {start : P} {i new : ι}
  {l rest : List ι}

/-- The walk from the pointer meets the nodes of the list in order and ends at `nil`. -/
def Visits (node : ι → P) (nil : P) (next : ι → P) : P → List ι → Prop
  | start, [] => start = nil
  | start, i :: rest => start = node i ∧ Visits node nil next (next i) rest

/-- Only the pointers of the nodes met matter. -/
theorem Visits.congr (h : Visits node nil next start l) (same : ∀ i ∈ l, next' i = next i) :
    Visits node nil next' start l := by
  induction l generalizing start with
  | nil => exact h
  | cons i rest ih =>
    constructor
    · exact h.1
    · rw [same i (List.mem_cons_self ..)]
      exact ih h.2 fun j inside => same j (List.mem_cons_of_mem _ inside)

section

variable [DecidableEq ι]

/-- A new node before all the others. -/
theorem Visits.push (h : Visits node nil next start l) (fresh : new ∉ l) :
    Visits node nil (Function.update next new start) (node new) (new :: l) := by
  constructor
  · rfl
  · rw [Function.update_self]
    apply h.congr
    intro j inside
    have other : j ≠ new := by
      rintro rfl
      exact fresh inside
    exact Function.update_of_ne other ..

/-- A new node right after `i`. -/
theorem Visits.insert (h : Visits node nil next start (l ++ i :: rest))
    (distinct : (l ++ i :: rest).Nodup) (fresh : new ∉ l ++ i :: rest) :
    Visits node nil (Function.update (Function.update next new (next i)) i (node new)) start
      (l ++ i :: new :: rest) := by
  induction l generalizing start with
  | nil =>
    have differ : new ≠ i := fun same => fresh (same ▸ List.mem_cons_self ..)
    refine ⟨h.1, ?_⟩
    rw [Function.update_self]
    refine ⟨rfl, ?_⟩
    rw [Function.update_of_ne differ, Function.update_self]
    apply h.2.congr
    intro j inside
    have other : j ≠ i := fun same => (List.nodup_cons.mp distinct).1 (same ▸ inside)
    have old : j ≠ new := fun same => fresh (same ▸ List.mem_cons_of_mem _ inside)
    rw [Function.update_of_ne other, Function.update_of_ne old]
  | cons j l ih =>
    obtain ⟨apart, distinct⟩ := List.nodup_cons.mp distinct
    have differ : j ≠ i := fun same => apart (same ▸ by simp)
    have old : j ≠ new := fun same => fresh (same ▸ List.mem_cons_self ..)
    refine ⟨h.1, ?_⟩
    rw [Function.update_of_ne differ, Function.update_of_ne old]
    exact ih h.2 distinct fun inside => fresh (List.mem_cons_of_mem _ inside)

end

/-- Nodes that each point at the next number. -/
theorem visits_range (a n : Nat) : Visits id (a + n) (fun i => i + 1) a (List.range' a n) := by
  induction n generalizing a with
  | zero => rfl
  | succ n ih =>
    constructor
    · rfl
    · rw [show a + (n + 1) = a + 1 + n by omega]
      exact ih (a + 1)

end LinkedChain


namespace SemicircularList

open LinkedChain

variable {α : Type} {null p x y tail start head : α} {next prev next' prev' : α → α}
  {a b l rest : List α}

/-- Each node has the one before it as its predecessor, the first one has `p`. -/
def Precede (prev : α → α) : α → List α → Prop
  | _, [] => True
  | p, x :: rest => prev x = p ∧ Precede prev x rest

theorem Precede.congr (h : Precede prev p l) (same : ∀ x ∈ l, prev' x = prev x) :
    Precede prev' p l := by
  induction l generalizing p with
  | nil => exact h
  | cons x rest ih =>
    constructor
    · rw [same x (List.mem_cons_self ..)]
      exact h.1
    · exact ih h.2 fun y inside => same y (List.mem_cons_of_mem _ inside)

theorem precede_append : Precede prev p (a ++ x :: b) ↔
      Precede prev p a ∧ prev x = a.getLast?.getD p ∧ Precede prev x b := by
  induction a generalizing p with
  | nil => simp [Precede]
  | cons y a ih =>
    rw [List.cons_append, Precede, Precede, ih, and_assoc, List.getLast?_cons]
    rfl

theorem visits_append : Visits id null next start (a ++ x :: b) ↔
      Visits id x next start a ∧ Visits id null next (next x) b := by
  induction a generalizing start with
  | nil => rfl
  | cons y a ih => rw [List.cons_append, Visits, Visits, ih, and_assoc]

theorem visits_head (h : Visits id null next start l) : start = l.head?.getD null := by
  cases l with
  | nil => exact h
  | cons x rest => exact h.1

/-- The nodes reached from a pointer at the first one. -/
structure Listed (null : α) (next prev : α → α) (head : α) (l : List α) : Prop where
  distinct : l.Nodup
  proper : null ∉ l
  forward : Visits id null next head l
  backward : Precede prev (l.getLast?.getD null) l

theorem Listed.nil : Listed null next prev null [] :=
  ⟨List.nodup_nil, List.not_mem_nil, rfl, trivial⟩

theorem Listed.congr (h : Listed null next prev head l) (nexts : ∀ x ∈ l, next' x = next x)
    (prevs : ∀ x ∈ l, prev' x = prev x) : Listed null next' prev' head l :=
  ⟨h.distinct, h.proper, h.forward.congr nexts, h.backward.congr prevs⟩

theorem Listed.single (proper : x ≠ null) (last : next x = null) (self : prev x = x) :
    Listed null next prev x [x] := by
  refine ⟨List.nodup_singleton x, ?_, ⟨rfl, last⟩, ⟨self, trivial⟩⟩
  rw [List.mem_singleton]
  exact proper.symm

theorem Listed.head_eq (h : Listed null next prev head l) : head = l.head?.getD null :=
  visits_head h.forward

theorem Listed.head_ne (h : Listed null next prev head (x :: rest)) : head ≠ null := by
  rw [h.head_eq]
  exact fun same => h.proper (same ▸ List.mem_cons_self ..)

/-- A pointer at no node is `null`. -/
theorem Listed.eq_nil_iff (h : Listed null next prev head l) : l = [] ↔ head = null := by
  constructor
  · rintro rfl
    exact h.forward
  · intro nothing
    cases l with
    | nil => rfl
    | cons x rest => exact absurd nothing h.head_ne

/-- What the links of a node in the middle of the text say. -/
theorem Listed.links (h : Listed null next prev head (a ++ x :: b)) :
    next x = b.head?.getD null ∧ prev x = a.getLast?.getD ((a ++ x :: b).getLast?.getD null) :=
  ⟨visits_head (visits_append.mp h.forward).2, (precede_append.mp h.backward).2.1⟩

/-- The head is one of the nodes, and it knows the last one. -/
theorem Listed.first (h : Listed null next prev head (a ++ [tail])) :
    head ∈ a ++ [tail] ∧ prev head = tail := by
  have start := h.head_eq
  have back := h.backward
  rw [List.getLast?_concat] at back
  cases a with
  | nil =>
    subst start
    exact ⟨List.mem_singleton_self _, back.1⟩
  | cons x a =>
    subst start
    exact ⟨List.mem_cons_self .., back.1⟩

theorem Listed.inner (h : Listed null next prev head (a ++ tail :: x :: b)) :
    next x = b.head?.getD null ∧ prev x = tail ∧ head ≠ x := by
  have walk := (visits_append.mp h.forward).2.2
  have back := (precede_append.mp h.backward).2.2
  refine ⟨visits_head walk, back.1, ?_⟩
  have start := h.head_eq
  have distinct := h.distinct
  rintro rfl
  cases a with
  | nil => exact (List.nodup_cons.mp distinct).1 (start ▸ List.mem_cons_self ..)
  | cons y a =>
    apply (List.nodup_cons.mp distinct).1
    exact start ▸ by simp

section

variable [DecidableEq α]

/-- A new node after the last one. -/
theorem Listed.push (h : Listed null next prev head (a ++ [tail])) (proper : x ≠ null)
    (fresh : x ∉ a ++ [tail]) (last : next' x = null) (before : prev' x = tail)
    (nexts : ∀ y ∈ a ++ [tail], next' y = if y = tail then x else next y)
    (prevs : ∀ y ∈ a ++ [tail], prev' y = if y = head then x else prev y) :
    Listed null next' prev' head (a ++ [tail] ++ [x]) := by
  have distinct := h.distinct
  obtain ⟨walk, -⟩ := visits_append.mp h.forward
  have others : ∀ y ∈ a, next' y = next y := by
    intro y inside
    have other : y ≠ tail := by
      rintro rfl
      exact List.disjoint_of_nodup_append distinct inside (List.mem_singleton_self _)
    rw [nexts y (List.mem_append_left _ inside), if_neg other]
  refine ⟨?_, ?_, ?_, ?_⟩
  · rw [List.nodup_append]
    refine ⟨distinct, List.nodup_singleton x, ?_⟩
    intro y inside z single same
    rw [List.mem_singleton.mp single] at same
    exact fresh (same ▸ inside)
  · rw [List.mem_append, List.mem_singleton]
    rintro (inside | same)
    · exact h.proper inside
    · exact proper same.symm
  · refine visits_append.mpr ⟨visits_append.mpr ⟨walk.congr others, ?_⟩, last⟩
    rw [nexts tail (by simp), if_pos rfl]
    rfl
  · rw [List.getLast?_concat, Option.getD_some]
    refine precede_append.mpr ⟨?_, ?_, trivial⟩
    · -- Only the first node gets another predecessor, the new last one.
      have at_head := h.head_eq
      have back := h.backward
      generalize a ++ [tail] = l at *
      cases l with
      | nil => trivial
      | cons z l =>
        rw [List.head?_cons, Option.getD_some] at at_head
        obtain ⟨notIn, -⟩ := List.nodup_cons.mp distinct
        refine ⟨by rw [prevs z (List.mem_cons_self ..), if_pos at_head.symm], ?_⟩
        apply back.2.congr
        intro y inside
        have other : y ≠ head := fun same => notIn (at_head ▸ same ▸ inside)
        rw [prevs y (List.mem_cons_of_mem _ inside), if_neg other]
    · rw [List.getLast?_concat]
      exact before

/-- Without its first node the list starts at the second one. -/
theorem Listed.removeHead (h : Listed null next prev head (x :: rest))
    (nexts : ∀ y ∈ rest, next' y = next y)
    (prevs : ∀ y ∈ rest, prev' y = if y = next x then prev x else prev y) :
    Listed null next' prev' (next x) rest := by
  obtain ⟨notIn, distinct⟩ := List.nodup_cons.mp h.distinct
  refine ⟨distinct, fun inside => h.proper (List.mem_cons_of_mem _ inside),
    h.forward.2.congr nexts, ?_⟩
  have second := visits_head h.forward.2
  have back := h.backward
  cases rest with
  | nil => trivial
  | cons y rest =>
    rw [List.head?_cons, Option.getD_some] at second
    obtain ⟨later, -⟩ := List.nodup_cons.mp distinct
    constructor
    · rw [prevs y (List.mem_cons_self ..), if_pos second.symm, back.1, List.getLast?_cons_cons]
    · apply back.2.2.congr
      intro z inside
      have other : z ≠ next x := fun same => later (second ▸ same ▸ inside)
      rw [prevs z (List.mem_cons_of_mem _ inside), if_neg other]

/-- A node between two others. -/
theorem Listed.removeInner (h : Listed null next prev head (a ++ tail :: x :: y :: b))
    (nexts : ∀ z ∈ a ++ tail :: y :: b, next' z = if z = prev x then next x else next z)
    (prevs : ∀ z ∈ a ++ tail :: y :: b, prev' z = if z = next x then prev x else prev z) :
    Listed null next' prev' head (a ++ tail :: y :: b) := by
  have distinct := h.distinct
  have shorter : (a ++ tail :: y :: b).Sublist (a ++ tail :: x :: y :: b) :=
    List.Sublist.append_left (List.Sublist.cons_cons _ (List.sublist_cons_self ..)) _
  have kept := distinct.sublist shorter
  obtain ⟨walk, -, after⟩ := visits_append.mp h.forward
  obtain ⟨back, first, before, second, rest⟩ := precede_append.mp h.backward
  have notInFront : ∀ z ∈ a, z ≠ tail ∧ z ≠ y := by
    intro z inside
    have apart := List.disjoint_of_nodup_append kept inside
    exact ⟨fun same => apart (same ▸ List.mem_cons_self ..),
      fun same => apart (same ▸ List.mem_cons_of_mem _ (List.mem_cons_self ..))⟩
  obtain ⟨tailNotIn, tailApart⟩ := List.nodup_cons.mp (List.nodup_append.mp kept).2.1
  obtain ⟨yNotIn, -⟩ := List.nodup_cons.mp tailApart
  have toY : next x = y := after.1
  have same_last : (a ++ tail :: x :: y :: b).getLast? = (a ++ tail :: y :: b).getLast? := by
    simp only [List.getLast?_append, List.getLast?_cons_cons]
  refine ⟨kept, fun inside => h.proper (shorter.subset inside), ?_, ?_⟩
  · have skip : next' tail = next x := by rw [nexts tail (by simp), before, if_pos rfl]
    refine visits_append.mpr ⟨walk.congr ?_, ?_⟩
    · intro z inside
      rw [nexts z (by simp [inside]), before, if_neg (notInFront z inside).1]
    · rw [skip]
      apply after.congr
      intro z inside
      have other : z ≠ tail := fun same => tailNotIn (same ▸ inside)
      rw [nexts z (List.mem_append_right _ (List.mem_cons_of_mem _ inside)), before, if_neg other]
  · have front : ∀ z ∈ a, prev' z = prev z := by
      intro z inside
      rw [prevs z (List.mem_append_left _ inside), toY, if_neg (notInFront z inside).2]
    have tailNe : tail ≠ y := fun same => tailNotIn (same ▸ List.mem_cons_self ..)
    rw [← same_last]
    refine precede_append.mpr ⟨back.congr front, ?_, ?_, ?_⟩
    · rw [prevs tail (by simp), toY, if_neg tailNe, first]
    · rw [prevs y (by simp), toY, if_pos rfl, before]
    · apply rest.congr
      intro z inside
      have other : z ≠ y := fun same => yNotIn (same ▸ inside)
      rw [prevs z (by simp [inside]), toY, if_neg other]

/-- The last node, when it is not the only one. -/
theorem Listed.removeTail (h : Listed null next prev head (a ++ [tail, x]))
    (nexts : ∀ z ∈ a ++ [tail], next' z = if z = prev x then null else next z)
    (prevs : ∀ z ∈ a ++ [tail], prev' z = if z = head then prev x else prev z) :
    Listed null next' prev' head (a ++ [tail]) := by
  have distinct := h.distinct
  have shorter : (a ++ [tail]).Sublist (a ++ [tail, x]) :=
    List.Sublist.append_left (List.Sublist.cons_cons _ (List.nil_sublist _)) _
  have kept := distinct.sublist shorter
  obtain ⟨walk, -, -⟩ := visits_append.mp h.forward
  obtain ⟨back, first, before, -⟩ := precede_append.mp h.backward
  have at_head := h.head_eq
  refine ⟨kept, fun inside => h.proper (shorter.subset inside), ?_, ?_⟩
  · refine visits_append.mpr ⟨walk.congr ?_, ?_⟩
    · intro z inside
      have other : z ≠ tail := by
        rintro rfl
        exact List.disjoint_of_nodup_append kept inside (List.mem_singleton_self _)
      rw [nexts z (by simp [inside]), before, if_neg other]
    · rw [nexts tail (by simp), before, if_pos rfl]
      rfl
  · rw [List.getLast?_concat, Option.getD_some]
    cases a with
    | nil =>
      refine ⟨?_, trivial⟩
      have only : tail = head := at_head.symm
      rw [prevs tail (by simp), if_pos only, before]
    | cons z a =>
      rw [List.cons_append, List.head?_cons, Option.getD_some] at at_head
      obtain ⟨notIn, -⟩ := List.nodup_cons.mp kept
      refine ⟨by rw [prevs z (by simp), if_pos at_head.symm, before], ?_⟩
      have chain : Precede prev z (a ++ [tail]) := by
        refine precede_append.mpr ⟨back.2, ?_, trivial⟩
        rw [first, List.getLast?_cons, Option.getD_some]
      apply chain.congr
      intro u inside
      have other : u ≠ head := fun same => notIn (at_head ▸ same ▸ inside)
      rw [prevs u (List.mem_cons_of_mem _ inside), if_neg other]

end

end SemicircularList
