import Mathlib.Data.List.Nodup

/-!
# Association lists

Maps as lists of entries, each key once, where the order of the entries means nothing.
-/
namespace AssocList

variable {κ ν : Type} [DecidableEq κ]

def lookup (l : List (κ × ν)) (k : κ) : Option ν :=
  match l with
  | [] => none
  | e :: rest => if e.1 = k then some e.2 else lookup rest k

def assign (l : List (κ × ν)) (k : κ) (v : ν) : List (κ × ν) :=
  match l with
  | [] => [(k, v)]
  | e :: rest => if e.1 = k then (k, v) :: rest else e :: assign rest k v

def erase (l : List (κ × ν)) (k : κ) : List (κ × ν) :=
  match l with
  | [] => []
  | e :: rest => if e.1 = k then rest else e :: erase rest k

def keys (l : List (κ × ν)) : List κ := l.map Prod.fst

variable {l : List (κ × ν)} {k other : κ} {u v : ν} {p : κ × ν → Bool}

theorem lookup_eq_none : lookup l k = none ↔ k ∉ keys l := by
  induction l with
  | nil => simp [lookup, keys]
  | cons e rest ih =>
    unfold lookup keys
    rw [List.map_cons, List.mem_cons, not_or]
    split_ifs with same
    · simp [same]
    · rw [ih]
      exact ⟨fun out => ⟨fun eq => same eq.symm, out⟩, And.right⟩

theorem lookup_assign_self : lookup (assign l k v) k = some v := by
  induction l with
  | nil => simp [assign, lookup]
  | cons e rest ih =>
    unfold assign
    split_ifs with same
    · simp [lookup]
    · rw [lookup, if_neg same, ih]

theorem lookup_assign_of_ne (differ : other ≠ k) :
    lookup (assign l k v) other = lookup l other := by
  induction l with
  | nil => simp [assign, lookup, differ.symm]
  | cons e rest ih =>
    unfold assign
    split_ifs with same
    · rw [lookup, if_neg differ.symm, lookup, if_neg (same ▸ differ.symm)]
    · rw [lookup, lookup, ih]

theorem lookup_erase_of_ne (differ : other ≠ k) : lookup (erase l k) other = lookup l other := by
  induction l with
  | nil => rfl
  | cons e rest ih =>
    unfold erase
    split_ifs with same
    · rw [lookup, if_neg (same ▸ differ.symm)]
    · rw [lookup, lookup, ih]

theorem lookup_erase_self (once : (keys l).Nodup) : lookup (erase l k) k = none := by
  induction l with
  | nil => rfl
  | cons e rest ih =>
    obtain ⟨out, once⟩ := List.nodup_cons.mp once
    unfold erase
    split_ifs with same
    · exact lookup_eq_none.mpr (same ▸ out)
    · rw [lookup, if_neg same]
      exact ih once

theorem mem_keys_assign : other ∈ keys (assign l k v) ↔ other = k ∨ other ∈ keys l := by
  by_cases same : other = k
  · subst same
    simp only [true_or, iff_true]
    by_contra out
    rw [← lookup_eq_none, lookup_assign_self] at out
    cases out
  · rw [← not_iff_not, ← lookup_eq_none, lookup_assign_of_ne same, lookup_eq_none]
    simp [same]

theorem nodup_assign (once : (keys l).Nodup) : (keys (assign l k v)).Nodup := by
  induction l with
  | nil => exact List.nodup_singleton _
  | cons e rest ih =>
    obtain ⟨out, once⟩ := List.nodup_cons.mp once
    unfold assign
    split_ifs with same
    · exact List.nodup_cons.mpr ⟨same ▸ out, once⟩
    · refine List.nodup_cons.mpr ⟨?_, ih once⟩
      intro mem
      exact (mem_keys_assign.mp mem).elim same out

theorem erase_sublist : (erase l k).Sublist l := by
  induction l with
  | nil => exact List.Sublist.refl _
  | cons e rest ih =>
    unfold erase
    split_ifs
    · exact List.sublist_cons_self _ _
    · exact ih.cons_cons _

theorem nodup_erase (once : (keys l).Nodup) : (keys (erase l k)).Nodup :=
  once.sublist (erase_sublist.map _)

/-- A new key adds its own entry to a count. -/
theorem countP_assign_new (new : lookup l k = none) :
    (assign l k v).countP p = l.countP p + (if p (k, v) then 1 else 0) := by
  induction l with
  | nil => simp [assign, List.countP_cons]
  | cons e rest ih =>
    unfold lookup at new
    split_ifs at new with same
    rw [assign, if_neg same, List.countP_cons, List.countP_cons, ih new]
    omega

/-- A key that is there trades one entry for another. -/
theorem countP_assign_old (old : lookup l k = some u) :
    (assign l k v).countP p + (if p (k, u) then 1 else 0) =
      l.countP p + (if p (k, v) then 1 else 0) := by
  induction l with
  | nil => cases old
  | cons e rest ih =>
    unfold lookup at old
    split_ifs at old with same
    · obtain rfl : e = (k, u) := Prod.ext same (Option.some.inj old)
      rw [assign, if_pos rfl, List.countP_cons, List.countP_cons]
      omega
    · rw [assign, if_neg same, List.countP_cons, List.countP_cons]
      have rest := ih old
      omega

theorem countP_erase (old : lookup l k = some u) :
    (erase l k).countP p + (if p (k, u) then 1 else 0) = l.countP p := by
  induction l with
  | nil => cases old
  | cons e rest ih =>
    unfold lookup at old
    split_ifs at old with same
    · obtain rfl : e = (k, u) := Prod.ext same (Option.some.inj old)
      rw [erase, if_pos rfl, List.countP_cons]
    · rw [erase, if_neg same, List.countP_cons, List.countP_cons]
      have rest := ih old
      omega

end AssocList
