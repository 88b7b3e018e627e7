import EmuThreeDS.Exec
import Mathlib.Data.List.Nodup
import Mathlib.Data.List.Range

/-!
# Slot vectors

`slot_vector.h`: values under ids that are used again. The back of the free list is its head here.
-/
namespace EmuThreeDS

structure SlotVector (α : Type) where
  values : Nat → Option α
  capacity : Nat
  freeList : List Nat
  free : ∀ id ∈ freeList, id < capacity ∧ values id = none
  distinct : freeList.Nodup
  beyond : ∀ id, capacity ≤ id → values id = none

namespace SlotVector

variable {α : Type}

def empty : SlotVector α where
  values := fun _ => none
  capacity := 0
  freeList := []
  free := nofun
  distinct := List.nodup_nil
  beyond := fun _ _ => rfl

/-- `Reserve` of twice the capacity. -/
def reserve (v : SlotVector α) : SlotVector α where
  values := v.values
  capacity := v.capacity + max v.capacity 1
  freeList := (List.range' v.capacity (max v.capacity 1)).reverse
  free := by
    intro id member
    rw [List.mem_reverse, List.mem_range'_1] at member
    exact ⟨member.2, v.beyond id member.1⟩
  distinct := List.nodup_reverse.mpr List.nodup_range'
  beyond := fun id outside => v.beyond id (by omega)

def withRoom (v : SlotVector α) : SlotVector α := if v.freeList = [] then v.reserve else v

theorem withRoom_ne_nil (v : SlotVector α) : v.withRoom.freeList ≠ [] := by
  unfold withRoom
  split_ifs with full
  · intro empty
    have length := congrArg List.length empty
    unfold reserve at length
    rw [List.length_reverse, List.length_range', List.length_nil] at length
    omega
  · exact full

theorem withRoom_values (v : SlotVector α) : v.withRoom.values = v.values := by
  unfold withRoom
  split_ifs <;> rfl

/-- `FreeValueIndex`. -/
def nextId (v : SlotVector α) : Nat := v.withRoom.freeList.head v.withRoom_ne_nil

theorem values_nextId (v : SlotVector α) : v.values v.nextId = none := by
  rw [← withRoom_values]
  exact (v.withRoom.free _ (List.head_mem _)).2

/-- `insert` puts its value under `nextId`. -/
def insert (v : SlotVector α) (a : α) : SlotVector α where
  values := Function.update v.withRoom.values v.nextId (some a)
  capacity := v.withRoom.capacity
  freeList := v.withRoom.freeList.tail
  free := by
    intro id member
    have old := List.mem_of_mem_tail member
    have other : id ≠ v.nextId := by
      rintro rfl
      have distinct := v.withRoom.distinct
      rw [← List.cons_head_tail v.withRoom_ne_nil, List.nodup_cons] at distinct
      exact distinct.1 member
    rw [Function.update_of_ne other]
    exact v.withRoom.free id old
  distinct := v.withRoom.distinct.tail
  beyond := by
    intro id outside
    have inside := (v.withRoom.free _ (List.head_mem v.withRoom_ne_nil)).1
    rw [Function.update_of_ne, v.withRoom.beyond id outside]
    rintro rfl
    exact absurd inside (Nat.not_lt.mpr outside)

def modify (v : SlotVector α) (id : Nat) (f : α → α) : SlotVector α where
  values := Function.update v.values id ((v.values id).map f)
  capacity := v.capacity
  freeList := v.freeList
  free := by
    intro other member
    refine ⟨(v.free other member).1, ?_⟩
    by_cases same : other = id
    · subst same
      rw [Function.update_self, (v.free other member).2]
      rfl
    · rw [Function.update_of_ne same]
      exact (v.free other member).2
  distinct := v.distinct
  beyond := by
    intro other outside
    by_cases same : other = id
    · subst same
      rw [Function.update_self, v.beyond other outside]
      rfl
    · rw [Function.update_of_ne same]
      exact v.beyond other outside

def erase (v : SlotVector α) (id : Nat) (used : (v.values id).isSome) : SlotVector α where
  values := Function.update v.values id none
  capacity := v.capacity
  freeList := id :: v.freeList
  free := by
    intro other member
    by_cases same : other = id
    · subst same
      refine ⟨?_, Function.update_self ..⟩
      by_contra outside
      rw [v.beyond other (Nat.le_of_not_lt outside)] at used
      exact nomatch used
    · rw [Function.update_of_ne same]
      exact v.free other ((List.mem_cons.mp member).resolve_left same)
  distinct := by
    refine List.nodup_cons.mpr ⟨fun member => ?_, v.distinct⟩
    rw [(v.free id member).2] at used
    exact nomatch used
  beyond := by
    intro other outside
    by_cases same : other = id
    · subst same
      exact Function.update_self ..
    · rw [Function.update_of_ne same]
      exact v.beyond other outside

def get (v : SlotVector α) (id : Nat) : Exec α :=
  match v.values id with
  | some a => .ok a
  | none => .error .undefinedBehaviour

variable {v : SlotVector α} {a : α} {id other : Nat}

theorem values_insert : (v.insert a).values other =
    if other = v.nextId then some a else v.values other := by
  unfold insert
  dsimp only
  rw [withRoom_values, Function.update_apply]

theorem values_modify {f : α → α} : (v.modify id f).values other =
    if other = id then (v.values other).map f else v.values other := by
  unfold modify
  dsimp only
  rw [Function.update_apply]
  split_ifs with same
  · rw [same]
  · rfl

theorem values_erase {used : (v.values id).isSome} : (v.erase id used).values other =
    if other = id then none else v.values other := by
  unfold erase
  dsimp only
  rw [Function.update_apply]

theorem get_eq_ok : v.get id = .ok a ↔ v.values id = some a := by
  unfold get
  split
  · rename_i b found
    rw [found]
    exact ⟨fun same => congrArg some (Except.ok.inj same), fun same =>
      congrArg Except.ok (Option.some_inj.mp same)⟩
  · rename_i missing
    rw [missing]
    exact ⟨nofun, nofun⟩

end SlotVector
end EmuThreeDS
