import Mathlib.Algebra.BigOperators.Group.Finset.Basic

/-!
# Queues

A bounded queue with its history: what went out and what is still in it, together what went in.
And families of deques, one for each level, whose front is that of the lowest nonempty one.
-/

structure BoundedFifo (α : Type) (bound : Nat) where
  popped : List α
  pending : List α
  fits : pending.length ≤ bound

namespace BoundedFifo

variable {α : Type} {bound : Nat}

def accepted (q : BoundedFifo α bound) : List α := q.popped ++ q.pending

def enqueue (q : BoundedFifo α bound) (xs : List α)
    (room : q.pending.length + xs.length ≤ bound) : BoundedFifo α bound where
  popped := q.popped
  pending := q.pending ++ xs
  fits := by rwa [List.length_append]

def dequeue (q : BoundedFifo α bound) (n : Nat) : BoundedFifo α bound where
  popped := q.popped ++ q.pending.take n
  pending := q.pending.drop n
  fits := by
    have := q.fits
    rw [List.length_drop]
    omega

/-- One step of the queue: nothing, some elements in, or some elements out. -/
inductive Step (q : BoundedFifo α bound) : BoundedFifo α bound → Prop where
  | stay : Step q q
  | enqueue (xs : List α) (room : q.pending.length + xs.length ≤ bound) :
      Step q (q.enqueue xs room)
  | dequeue (n : Nat) : Step q (q.dequeue n)

section

variable (q : BoundedFifo α bound)

theorem accepted_enqueue (xs : List α) (room : q.pending.length + xs.length ≤ bound) :
    (q.enqueue xs room).accepted = q.accepted ++ xs := (List.append_assoc _ _ _).symm

theorem accepted_dequeue (n : Nat) : (q.dequeue n).accepted = q.accepted := by
  unfold accepted dequeue
  rw [List.append_assoc, List.take_append_drop]

theorem popped_prefix : q.popped <+: q.accepted :=
  List.prefix_append _ _

theorem accepted_length :
    q.accepted.length = q.popped.length + q.pending.length := List.length_append

end

end BoundedFifo


abbrev Deques (ι T : Type) := ι → List T

namespace Deques

variable {ι T : Type} {d : Deques ι T} {below : ι → Prop}

section

variable [LinearOrder ι]

/-- What the lowest nonempty deque among those of `below` starts with, and its rest. -/
inductive Front (d : Deques ι T) (below : ι → Prop) : Option (ι × T × List T) → Prop where
  | nothing : (∀ p, below p → d p = []) → Front d below none
  | lowest {p : ι} {x : T} {rest : List T} : below p → d p = x :: rest →
      (∀ q, below q → q < p → d q = []) → Front d below (some (p, x, rest))

end

variable [DecidableEq ι]

def pushBack (d : Deques ι T) (p : ι) (x : T) : Deques ι T := Function.update d p (d p ++ [x])

def pushFront (d : Deques ι T) (p : ι) (x : T) : Deques ι T := Function.update d p (x :: d p)

def rotate (d : Deques ι T) (p : ι) : Deques ι T :=
  Function.update d p ((d p).tail ++ (d p).head?.toList)

def remove [DecidableEq T] (d : Deques ι T) (p : ι) (x : T) : Deques ι T :=
  Function.update d p ((d p).filter (· ≠ x))

def take (d : Deques ι T) : Option (ι × T × List T) → Deques ι T
  | none => d
  | some (p, _, rest) => Function.update d p rest

variable [DecidableEq T] {s : Finset ι} {p : ι} {x y : T}

def held (d : Deques ι T) (s : Finset ι) (x : T) : Nat := ∑ p ∈ s, (d p).count x

/-- Changing one deque changes what is held by what it gains and loses. -/
theorem held_update (inside : p ∈ s) (l : List T) :
    held (Function.update d p l) s x + (d p).count x = held d s x + l.count x := by
  unfold held
  rw [← Finset.add_sum_erase s _ inside, ← Finset.add_sum_erase s (fun p => (d p).count x) inside,
    Function.update_self]
  have others : ∑ q ∈ s.erase p, (Function.update d p l q).count x =
      ∑ q ∈ s.erase p, (d q).count x := by
    apply Finset.sum_congr rfl
    intro q other
    rw [Function.update_of_ne (Finset.ne_of_mem_erase other)]
  omega

theorem held_pushBack (inside : p ∈ s) :
    held (d.pushBack p y) s x = held d s x + if y = x then 1 else 0 := by
  have changed := held_update (d := d) (x := x) inside (d p ++ [y])
  rw [List.count_append, List.count_singleton] at changed
  unfold pushBack
  simp only [beq_iff_eq] at changed
  omega

theorem held_pushFront (inside : p ∈ s) :
    held (d.pushFront p y) s x = held d s x + if y = x then 1 else 0 := by
  have changed := held_update (d := d) (x := x) inside (y :: d p)
  rw [List.count_cons] at changed
  unfold pushFront
  simp only [beq_iff_eq] at changed
  omega

theorem held_rotate (inside : p ∈ s) : held (d.rotate p) s x = held d s x := by
  have changed := held_update (d := d) (x := x) inside ((d p).tail ++ (d p).head?.toList)
  have same : ((d p).tail ++ (d p).head?.toList).count x = (d p).count x := by
    cases d p with
    | nil => rfl
    | cons y rest =>
      rw [List.tail_cons, List.head?_cons, Option.toList_some, List.count_append,
        List.count_singleton, List.count_cons]
  unfold rotate
  omega

theorem held_remove (inside : p ∈ s) :
    held (d.remove p y) s x + (if y = x then (d p).count x else 0) = held d s x := by
  have changed := held_update (d := d) (x := x) inside ((d p).filter (· ≠ y))
  unfold remove
  split_ifs with same
  · subst same
    have none : ((d p).filter (· ≠ y)).count y = 0 := List.count_eq_zero_of_not_mem (by simp)
    omega
  · have kept : ((d p).filter (· ≠ y)).count x = (d p).count x :=
      List.count_filter (by simpa using Ne.symm same)
    omega

theorem held_take [LinearOrder ι] {below : ι → Prop} {found : Option (ι × T × List T)}
    (h : Front d below found) (bounded : ∀ p, below p → d p ≠ [] → p ∈ s) :
    held (d.take found) s x + (if found.map (fun f => f.2.1) = some x then 1 else 0) =
      held d s x := by
  cases h with
  | nothing _ => rfl
  | @lowest p y rest inside front _ =>
    have occupied : p ∈ s := bounded p inside (by rw [front]; exact List.cons_ne_nil _ _)
    have changed := held_update (d := d) (x := x) occupied rest
    rw [front, List.count_cons] at changed
    unfold take
    simp only [Option.map_some, Option.some.injEq, beq_iff_eq] at changed ⊢
    omega

end Deques
