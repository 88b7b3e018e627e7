import Mathlib.Data.List.Basic

/-!
# Who waits for what, written down on both sides

Each object lists its waiters and each waiter its objects. A waiter may name an object many
times, an object lists a waiter once, and the two sides agree.
-/

structure WaitGraph (W O : Type) where
  waiters : O → List W
  objects : W → List O

namespace WaitGraph

variable {W O : Type} [DecidableEq W] [DecidableEq O] {g : WaitGraph W O} {w v : W} {o p : O}
  {os : List O}

def enlist (g : WaitGraph W O) (o : O) (w : W) : WaitGraph W O :=
  { g with
    waiters := Function.update g.waiters o
      (if w ∈ g.waiters o then g.waiters o else g.waiters o ++ [w]) }

def delist (g : WaitGraph W O) (o : O) (w : W) : WaitGraph W O :=
  { g with waiters := Function.update g.waiters o ((g.waiters o).erase w) }

def name (g : WaitGraph W O) (w : W) (os : List O) : WaitGraph W O :=
  { g with objects := Function.update g.objects w os }

def enlistAll (g : WaitGraph W O) (w : W) : List O → WaitGraph W O
  | [] => g
  | o :: rest => (g.enlist o w).enlistAll w rest

def delistAll (g : WaitGraph W O) (w : W) : List O → WaitGraph W O
  | [] => g
  | o :: rest => (g.delist o w).delistAll w rest

def join (g : WaitGraph W O) (w : W) (os : List O) : WaitGraph W O := (g.enlistAll w os).name w os

def leave (g : WaitGraph W O) (w : W) : WaitGraph W O := (g.delistAll w (g.objects w)).name w []

structure Agree (g : WaitGraph W O) : Prop where
  nodup : ∀ o, (g.waiters o).Nodup
  mem : ∀ o w, w ∈ g.waiters o ↔ o ∈ g.objects w

theorem mem_enlist : v ∈ (g.enlist o w).waiters p ↔ v ∈ g.waiters p ∨ v = w ∧ p = o := by
  simp only [enlist, Function.update_apply]
  split_ifs with same present
  · subst same
    constructor
    · exact Or.inl
    · rintro (mem | ⟨rfl, _⟩)
      · exact mem
      · exact present
  · subst same
    simp
  · simp [same]

theorem nodup_enlist (nodup : (g.waiters p).Nodup) : ((g.enlist o w).waiters p).Nodup := by
  simp only [enlist, Function.update_apply]
  split_ifs with same present
  · subst same
    exact nodup
  · subst same
    apply List.nodup_append.mpr
    refine ⟨nodup, List.pairwise_singleton _ w, ?_⟩
    rintro v mem _ last rfl
    exact present (List.mem_singleton.mp last ▸ mem)
  · exact nodup

theorem mem_enlistAll : v ∈ (g.enlistAll w os).waiters p ↔ v ∈ g.waiters p ∨ v = w ∧ p ∈ os := by
  induction os generalizing g with
  | nil => simp [enlistAll]
  | cons o rest ih =>
    unfold enlistAll
    rw [ih, mem_enlist, List.mem_cons]
    tauto

theorem nodup_enlistAll (nodup : (g.waiters p).Nodup) : ((g.enlistAll w os).waiters p).Nodup := by
  induction os generalizing g with
  | nil => exact nodup
  | cons o rest ih => exact ih (nodup_enlist nodup)

@[simp] theorem objects_enlistAll : (g.enlistAll w os).objects = g.objects := by
  induction os generalizing g with
  | nil => rfl
  | cons o rest ih => exact ih

@[simp] theorem objects_delistAll : (g.delistAll w os).objects = g.objects := by
  induction os generalizing g with
  | nil => rfl
  | cons o rest ih => exact ih

/-- Nobody else is concerned. -/
theorem objects_leave (other : v ≠ w) : (g.leave w).objects v = g.objects v := by
  simp [WaitGraph.leave, name, other]

theorem erase_eq_others {waiters : List W} (nodup : waiters.Nodup) :
    waiters.erase w = waiters.filter (· ≠ w) := by
  rw [nodup.erase_eq_filter w]
  apply List.filter_congr
  intro v _
  by_cases eq : v = w <;> simp [eq]

/-- A list without one of its members is shorter by one. -/
theorem length_others {waiters : List W} (nodup : waiters.Nodup) (mem : w ∈ waiters) :
    (waiters.filter (· ≠ w)).length + 1 = waiters.length := by
  have positive := List.length_pos_of_mem mem
  rw [← erase_eq_others nodup, List.length_erase_of_mem mem]
  omega

section

variable (nodup : (g.waiters p).Nodup)
include nodup

theorem waiters_delist :
    (g.delist o w).waiters p = if p = o then (g.waiters p).filter (· ≠ w) else g.waiters p := by
  simp only [delist, Function.update_apply]
  split_ifs with same
  · subst same
    exact erase_eq_others nodup
  · rfl

/-- Leaving a list takes exactly the waiter off it. -/
theorem waiters_delistAll : (g.delistAll w os).waiters p =
      if p ∈ os then (g.waiters p).filter (· ≠ w) else g.waiters p := by
  induction os generalizing g with
  | nil => simp [delistAll]
  | cons o rest ih =>
    have first := waiters_delist (o := o) (w := w) nodup
    have nodup' : ((g.delist o w).waiters p).Nodup := by
      rw [first]
      split_ifs
      · exact nodup.filter _
      · exact nodup
    unfold delistAll
    rw [ih nodup', first]
    by_cases same : p = o
    · subst same
      simp
    · simp [same]

theorem mem_delistAll :
    v ∈ (g.delistAll w os).waiters p ↔ v ∈ g.waiters p ∧ ¬ (v = w ∧ p ∈ os) := by
  rw [waiters_delistAll nodup]
  split_ifs with member
  · simp [member]
  · simp [member]

theorem nodup_delistAll : ((g.delistAll w os).waiters p).Nodup := by
  rw [waiters_delistAll nodup]
  split_ifs
  · exact nodup.filter _
  · exact nodup

end

namespace Agree

theorem join (h : g.Agree) (idle : g.objects w = []) : (g.join w os).Agree := by
  constructor
  · intro p
    exact nodup_enlistAll (h.nodup p)
  · intro p v
    refine mem_enlistAll.trans ?_
    simp only [WaitGraph.join, name, objects_enlistAll, Function.update_apply]
    rw [h.mem]
    split_ifs with same
    · subst same
      simp [idle]
    · simp [same]

theorem leave (h : g.Agree) : (g.leave w).Agree := by
  constructor
  · intro p
    exact nodup_delistAll (h.nodup p)
  · intro p v
    refine (mem_delistAll (h.nodup p)).trans ?_
    simp only [WaitGraph.leave, name, objects_delistAll, Function.update_apply]
    rw [h.mem]
    split_ifs with same
    · subst same
      simp
    · simp [same]

/-- The others keep their places. -/
theorem waiters_leave (h : g.Agree) : (g.leave w).waiters o = (g.waiters o).filter (· ≠ w) := by
  refine (waiters_delistAll (h.nodup o)).trans ?_
  split_ifs with member
  · rfl
  · symm
    apply List.filter_eq_self.mpr
    intro v mem
    have other : v ≠ w := by
      rintro rfl
      exact member ((h.mem o v).mp mem)
    simpa using other

end Agree

end WaitGraph
