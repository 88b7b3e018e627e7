import EmuThreeDS.Kernel.VMManager
import EmuThreeDS.Lib.LinkedLists
import EmuThreeDS.Lib.Runs

/-!
# Handle tables

`handle_table.h` and `handle_table.cpp`. The array of generations holds the generation of an
open handle, and for an empty slot the next free slot. `O` are the kernel objects; the two
pseudo handles are looked up in the kernel, so `GetGeneric` gets the current thread and the
current process.
-/
namespace EmuThreeDS

structure HandleTable (O : Type) where
  objects : Nat → Option O
  generations : Nat → Nat
  nextGeneration : Nat
  nextFreeSlot : Nat

namespace HandleTable

variable {O : Type}

def maxCount : Nat := 4096

def currentThread : Nat := 0xFFFF8000

def currentProcess : Nat := 0xFFFF8001

variable (t : HandleTable O) (handle : Nat)

/-- The slot is returned as a `u16`. -/
def getSlot : Nat := (handle >>> 15) % 0x10000

def getGeneration : Nat := handle &&& 0x7FFF

def clear : HandleTable O :=
  { t with objects := fun _ => none, generations := fun i => i + 1, nextFreeSlot := 0 }

def new : HandleTable O :=
  clear { objects := fun _ => none, generations := fun _ => 0, nextGeneration := 1,
          nextFreeSlot := 0 }

def create (object : O) : ResultVal Nat × HandleTable O :=
  let slot := t.nextFreeSlot
  if slot ≥ maxCount then (.error .outOfHandles, t)
  else
    let generation := t.nextGeneration
    let nextGeneration := if generation + 1 ≥ 1 <<< 15 then 1 else generation + 1
    (.ok (generation ||| (slot <<< 15)),
      { objects := Function.update t.objects slot (some object)
        generations := Function.update t.generations slot generation
        nextGeneration := nextGeneration
        nextFreeSlot := t.generations slot })

def isValid : Bool :=
  decide (getSlot handle < maxCount) && (t.objects (getSlot handle)).isSome &&
    t.generations (getSlot handle) == getGeneration handle

def getGeneric (thread process : Option O) : Option O :=
  if handle = currentThread then thread
  else if handle = currentProcess then process
  else if t.isValid handle then t.objects (getSlot handle)
  else none

def duplicate (thread process : Option O) :
    ResultVal Nat × HandleTable O :=
  match t.getGeneric handle thread process with
  | none => (.error .invalidHandle, t)
  | some object => t.create object

def close : ResultVal Unit × HandleTable O :=
  if !t.isValid handle then (.error .invalidHandle, t)
  else
    let slot := getSlot handle
    (.ok (),
      { t with
        objects := Function.update t.objects slot none
        generations := Function.update t.generations slot t.nextFreeSlot
        nextFreeSlot := slot })

theorem getSlot_eq : getSlot handle = handle / 0x8000 % 0x10000 := by
  unfold getSlot
  rw [Nat.shiftRight_eq_div_pow]

theorem getGeneration_eq : getGeneration handle = handle % 0x8000 :=
  Nat.and_two_pow_sub_one_eq_mod handle 15

theorem handle_eq {generation : Nat} (slot : Nat) (small : generation < 0x8000) :
    generation ||| (slot <<< 15) = slot * 0x8000 + generation := by
  rw [Nat.or_comm, ← Nat.shiftLeft_add_eq_or_of_lt (by simpa using small), Nat.shiftLeft_eq]

theorem isValid_iff {t : HandleTable O} {handle : Nat} : t.isValid handle = true ↔
      getSlot handle < maxCount ∧ (t.objects (getSlot handle)).isSome ∧
        t.generations (getSlot handle) = getGeneration handle := by
  unfold isValid
  rw [Bool.and_eq_true, Bool.and_eq_true, decide_eq_true_iff, beq_iff_eq, and_assoc]

inductive Call (O : Type) where
  | create (object : O)
  | duplicate (handle : Nat) (thread process : Option O)
  | close (handle : Nat)
  | clear

def Call.run : Call O → ResultVal (Option Nat) × HandleTable O
  | .create object => ((t.create object).1.map some, (t.create object).2)
  | .duplicate handle thread process =>
    ((t.duplicate handle thread process).1.map some, (t.duplicate handle thread process).2)
  | .close handle => ((t.close handle).1.map fun _ => none, (t.close handle).2)
  | .clear => (.ok none, t.clear)

abbrev Opened (O : Type) := List (Nat × O)

def Opened.issue (opened : Opened O) : ResultVal Nat → O → Opened O
  | .ok handle, object => (handle, object) :: opened
  | .error _, _ => opened

def Call.track (opened : Opened O) : Call O → Opened O
  | .create object => opened.issue (t.create object).1 object
  | .duplicate handle thread process =>
    match t.getGeneric handle thread process with
    | none => opened
    | some object => opened.issue (t.create object).1 object
  | .close handle =>
    match (t.close handle).1 with
    | .ok () => opened.eraseP fun entry => entry.1 = handle
    | .error _ => opened
  | .clear => []

/-- The calls, with any condition on the calls allowed. -/
abbrev Reachable (allowed : HandleTable O × Opened O → Call O → Prop) :=
  Runs.Reachable (fun s : HandleTable O × Opened O => s = (new, [])) 
    (fun s call s' => s' = ((call.run s.1).2, call.track s.1 s.2)) allowed

end HandleTable

end EmuThreeDS
