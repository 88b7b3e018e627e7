import EmuThreeDS.Lib.OrderedMap
import EmuThreeDS.Kernel.Vma

/-!
# The address space of a process

`vm_manager.cpp`, function by function. Page tables follow the areas and are not read by
any decision here, so `UpdatePageTableForVMA` leaves no trace.
-/
namespace EmuThreeDS
open OrderedMap (Map)

inductive ResultCode where
  | invalidAddress | invalidAddressState | invalidCombination | misalignedAddress | misalignedSize
  | outOfMemory | outOfHeapMemory | wrongPermission
  | timeout | invalidHandle | invalidPointer | outOfRange | outOfRangeKernel | notAuthorized
  | wrongLockingThread | invalidResultValue | invalidEnumValueFnd | invalidCombinationKernel
  | sessionClosedByRemote | noPendingSessions | maxConnectionsReached | noHandlesNoReply
  | outOfHandles | commandTooLarge
  deriving DecidableEq

/-- A `ResultVal`: the value of a success or the code of an error. -/
abbrev ResultVal := Except ResultCode

abbrev VmaMap := Map Nat VirtualMemoryArea

structure VMManager where
  vmaMap : VmaMap
  isLocked : Bool := false

variable (m : VmaMap)

namespace VMManager

def maxAddress : Nat := 0x40000000

def pageMask : Nat := 0xFFF

def deref (it : Option Nat) : Exec VirtualMemoryArea :=
  match it.bind m.find? with
  | some v => .ok v
  | none => .error .undefinedBehaviour

def reset (vm : VMManager) : Exec VMManager := do
  assert .reset (vm.isLocked = false)
  let initialVma : VirtualMemoryArea := { size := maxAddress }
  return { vm with vmaMap := Map.empty.insert initialVma.base initialVma }

def findVMA (target : Nat) : Exec (Option Nat) :=
  if target ≥ maxAddress then
    .ok none
  else
    match m.prev (m.upperBound target) with
    | some k => .ok (some k)
    | none => .error .undefinedBehaviour

/-- The `switch` of `SplitVMA`: the new area starts `offsetInVma` further into its memory. -/
def advanceMemory (newVma : VirtualMemoryArea) (offsetInVma : Nat) : Exec VirtualMemoryArea :=
  match newVma.type with
  | .free => return newVma
  | .backingMemory => do
      let backingMemory ← newVma.backingMemory.advance offsetInVma
      return { newVma with backingMemory := backingMemory }
  | .mmio => return { newVma with paddr := add32 newVma.paddr offsetInVma }

def splitVMA (m : VmaMap) (vmaHandle offsetInVma : Nat) : Exec (VmaMap × Nat) := do
  let oldVma ← deref m (some vmaHandle)
  assert .splitVMA (offsetInVma < oldVma.size)
  assert .splitVMA (offsetInVma > 0)
  let newVma ← advanceMemory { oldVma with
    base := add32 oldVma.base offsetInVma
    size := sub32 oldVma.size offsetInVma } offsetInVma
  let oldVma := { oldVma with size := offsetInVma }
  let same ← oldVma.canBeMergedWith newVma
  assert .splitVMA (same = true)
  let m := m.modify vmaHandle fun _ => oldVma
  return (m.insert newVma.base newVma, newVma.base)

def splitIf (p : Prop) [Decidable p] (m : VmaMap) (vmaHandle offsetInVma : Nat) :
    Exec (VmaMap × Nat) :=
  if p then splitVMA m vmaHandle offsetInVma else return (m, vmaHandle)

/-- The first half of `MergeAdjacent`: the area absorbs its right neighbour. -/
def mergeNext (iter : Nat) : Exec VmaMap :=
  match m.next iter with
  | none => return m
  | some nextVma => do
      let vma ← deref m (some iter)
      let next ← deref m (some nextVma)
      if ← vma.canBeMergedWith next then
        let m := m.modify iter fun v => { v with size := add32 v.size next.size }
        return m.erase nextVma
      else
        return m

def mergePrev (iter : Nat) : Exec (VmaMap × Nat) :=
  match m.prev (some iter) with
  | none => return (m, iter)
  | some prevVma => do
      let prev ← deref m (some prevVma)
      let vma ← deref m (some iter)
      if ← prev.canBeMergedWith vma then
        let m := m.modify prevVma fun v => { v with size := add32 v.size vma.size }
        return (m.erase iter, prevVma)
      else
        return (m, iter)

def mergeAdjacent (iter : Nat) : Exec (VmaMap × Nat) := do
  let m ← mergeNext m iter
  mergePrev m iter

def carveVMA (m : VmaMap) (base size : Nat) : Exec (ResultVal Nat × VmaMap) := do
  assert .carveVMA (size &&& pageMask = 0)
  assert .carveVMA (base &&& pageMask = 0)
  match ← findVMA m base with
  | none => return (.error .invalidAddress, m)
  | some vmaHandle =>
    let vma ← deref m (some vmaHandle)
    if vma.type ≠ .free then
      return (.error .invalidAddressState, m)
    let startInVma := sub32 base vma.base
    let endInVma := add32 startInVma size
    if endInVma > vma.size then
      return (.error .invalidAddressState, m)
    let (m, _) ← splitIf (endInVma ≠ vma.size) m vmaHandle endInVma
    let (m, vmaHandle) ← splitIf (startInVma ≠ 0) m vmaHandle startInVma
    return (.ok vmaHandle, m)

/-- Visit the areas from an iterator up to `last` until a check fails. Running past the
end of the map without meeting `last` reads through `end()`. -/
def allInRange (check : VirtualMemoryArea → Bool) :
    List (Nat × VirtualMemoryArea) → Option Nat → Exec Bool
  | [], last => if last = none then .ok true else .error .undefinedBehaviour
  | (k, v) :: rest, last =>
    if some k = last then .ok true
    else if check v then allInRange check rest last
    else .ok false

/-- Split the area a handle names unless it starts at `target` already. -/
def splitBefore (vmaHandle target : Nat) : Exec (VmaMap × Nat) := do
  let vma ← deref m (some vmaHandle)
  splitIf (target ≠ vma.base) m vmaHandle (sub32 target vma.base)

def carveVMARange (m : VmaMap) (target size : Nat) : Exec (ResultVal Nat × VmaMap) := do
  assert .carveVMARange (size &&& pageMask = 0)
  assert .carveVMARange (target &&& pageMask = 0)
  let targetEnd := add32 target size
  assert .carveVMARange (targetEnd ≥ target)
  assert .carveVMARange (targetEnd ≤ maxAddress)
  assert .carveVMARange (size > 0)
  let beginVma ← findVMA m target
  let iEnd := m.lowerBound targetEnd
  let mapped ← allInRange (fun vma => vma.type ≠ .free) (m.fromIter beginVma) iEnd
  if mapped = false then
    return (.error .invalidAddressState, m)
  match beginVma with
  | none => .error .undefinedBehaviour
  | some beginVma =>
    let (m, beginVma) ← splitBefore m beginVma target
    match ← findVMA m targetEnd with
    | none => return (.ok beginVma, m)
    | some endVma =>
      let (m, _) ← splitBefore m endVma targetEnd
      return (.ok beginVma, m)

/-- The loop shared by the range operations:
`while (vma != end && vma->second.base < target_end) vma = std::next(step(vma))`. -/
def rangeLoop (step : VmaMap → Nat → Exec (VmaMap × Nat)) (targetEnd : Nat) :
    Nat → VmaMap → Option Nat → Exec VmaMap
  | _, m, none => .ok m
  | 0, _, some _ => .error .outOfFuel
  | fuel + 1, m, some k => do
      let vma ← deref m (some k)
      if vma.base < targetEnd then
        let (m, it) ← step m k
        rangeLoop step targetEnd fuel m (m.next it)
      else
        return m

/-- Set the attributes of one area, then `MergeAdjacent`. -/
def updateAndMerge (f : VirtualMemoryArea → VirtualMemoryArea) (m : VmaMap) (iter : Nat) :
    Exec (VmaMap × Nat) := do
  let _ ← deref m (some iter)
  mergeAdjacent (m.modify iter f) iter

def mapAttributes (memory : MemoryRef) (state : MemoryState) (v : VirtualMemoryArea) :
    VirtualMemoryArea :=
  { v with
    type := .backingMemory
    permissions := .readWrite
    meminfoState := state
    backingMemory := memory }

def mapBackingMemory (vm : VMManager) (target : Nat) (memory : MemoryRef) (size : Nat)
    (state : MemoryState) : Exec (ResultVal Nat × VMManager) := do
  assert .mapBackingMemory (vm.isLocked = false)
  assert .mapBackingMemory (memory.getPtr ≠ none)
  let (carved, m) ← carveVMA vm.vmaMap target size
  match carved with
  | .error e => return (.error e, { vm with vmaMap := m })
  | .ok vmaHandle =>
    let finalVma ← deref m (some vmaHandle)
    assert .mapBackingMemory (finalVma.size = size)
    let (m, it) ← updateAndMerge (mapAttributes memory state) m vmaHandle
    return (.ok it, { vm with vmaMap := m })

/-- Maps into the first free area that reaches past `base` and to `base + size`. Its base is read
before the test for `end()`, so without such an area the read is undefined. -/
def mapBackingMemoryToBase (vm : VMManager) (base regionSize : Nat) (memory : MemoryRef)
    (size : Nat) (state : MemoryState) : Exec (ResultVal Nat × VMManager) := do
  assert .mapBackingMemoryToBase (vm.isLocked = false)
  let vmaHandle := vm.vmaMap.entries.find? fun e =>
    let vmaEnd := add32 e.2.base e.2.size
    e.2.type = .free && (vmaEnd > base && vmaEnd ≥ add32 base size)
  match vmaHandle with
  | none => .error .undefinedBehaviour
  | some (_, vma) =>
    let target := max base vma.base
    if add32 target size > add32 base regionSize then
      return (.error .outOfMemory, vm)
    let (result, vm) ← mapBackingMemory vm target memory size state
    match result with
    | .error e => return (.error e, vm)
    | .ok _ => return (.ok target, vm)

def changeAttributes (newState : MemoryState) (newPerms : VMAPermission)
    (v : VirtualMemoryArea) : VirtualMemoryArea :=
  { v with permissions := newPerms, meminfoState := newState }

def changeMemoryState (vm : VMManager) (target size : Nat) (expectedState : MemoryState)
    (expectedPerms : VMAPermission) (newState : MemoryState) (newPerms : VMAPermission) :
    Exec (ResultVal Unit × VMManager) := do
  if vm.isLocked then
    return (.ok (), vm)
  let targetEnd := add32 target size
  let beginVma ← findVMA vm.vmaMap target
  let iEnd := vm.vmaMap.lowerBound targetEnd
  if beginVma = none then
    return (.error .invalidAddress, vm)
  let expected ← allInRange (fun vma => vma.meminfoState = expectedState &&
    (vma.permissions &&& expectedPerms = expectedPerms)) (vm.vmaMap.fromIter beginVma) iEnd
  if expected = false then
    return (.error .invalidAddressState, vm)
  let (carved, m) ← carveVMARange vm.vmaMap target size
  match carved with
  | .error e => return (.error e, { vm with vmaMap := m })
  | .ok vma =>
    let m ← rangeLoop (updateAndMerge (changeAttributes newState newPerms)) targetEnd
      m.entries.length m (some vma)
    return (.ok (), { vm with vmaMap := m })

def freeAttributes (v : VirtualMemoryArea) : VirtualMemoryArea :=
  { v with
    type := .free
    permissions := .none
    meminfoState := .free
    backingMemory := {}
    paddr := 0 }

def unmap (vmaHandle : Nat) : Exec (VmaMap × Nat) :=
  updateAndMerge freeAttributes m vmaHandle

def unmapRange (vm : VMManager) (target size : Nat) : Exec (ResultVal Unit × VMManager) := do
  assert .unmapRange (vm.isLocked = false)
  let (carved, m) ← carveVMARange vm.vmaMap target size
  match carved with
  | .error e => return (.error e, { vm with vmaMap := m })
  | .ok vma =>
    let targetEnd := add32 target size
    let m ← rangeLoop unmap targetEnd m.entries.length m (some vma)
    let whole ← deref m (← findVMA m target)
    assert .unmapRange (whole.size ≥ size)
    return (.ok (), { vm with vmaMap := m })

def protectAttributes (newPerms : VMAPermission) (v : VirtualMemoryArea) : VirtualMemoryArea :=
  { v with permissions := newPerms }

/-- `Reprotect` on the areas alone, after its lock assertion. -/
def reprotectVMA (newPerms : VMAPermission) (m : VmaMap) (vmaHandle : Nat) : Exec (VmaMap × Nat) :=
  updateAndMerge (protectAttributes newPerms) m vmaHandle

def reprotect (vm : VMManager) (vmaHandle : Nat) (newPerms : VMAPermission) :
    Exec (Nat × VMManager) := do
  assert .reprotect (vm.isLocked = false)
  let (m, it) ← reprotectVMA newPerms vm.vmaMap vmaHandle
  return (it, { vm with vmaMap := m })

def reprotectRange (vm : VMManager) (target size : Nat) (newPerms : VMAPermission) :
    Exec (ResultVal Unit × VMManager) := do
  assert .reprotectRange (vm.isLocked = false)
  let (carved, m) ← carveVMARange vm.vmaMap target size
  match carved with
  | .error e => return (.error e, { vm with vmaMap := m })
  | .ok vma =>
    let targetEnd := add32 target size
    let m ← rangeLoop (reprotectVMA newPerms) targetEnd m.entries.length m (some vma)
    return (.ok (), { vm with vmaMap := m })

end VMManager

end EmuThreeDS
