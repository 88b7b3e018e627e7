import EmuThreeDS.Kernel.Memory
import EmuThreeDS.Kernel.VMManager

/-!
# The memory of a process

The memory calls of `process.cpp` and `shared_memory.cpp`. A call returns its result and the
process it leaves, which is also the one it leaves when it reports an error half-way.
-/
namespace EmuThreeDS
open Intervals

namespace Layout

def heapVaddr : Nat := 0x08000000
def heapVaddrEnd : Nat := 0x10000000
def sharedMemoryVaddrEnd : Nat := 0x14000000
def linearHeapVaddr : Nat := 0x14000000
def newLinearHeapVaddr : Nat := 0x30000000
def configMemoryVaddr : Nat := 0x1FF80000
def sharedPageVaddr : Nat := 0x1FF81000

end Layout

open Layout

structure Process where
  vmManager : VMManager
  memoryRegion : MemoryRegionInfo
  memoryUsed : Nat := 0
  /-- `resource_limit->current_commit`, as the bits of its `s32`. -/
  currentCommit : Nat := 0
  kernelVersion : Nat := 0

namespace VMManager

def backingBlocksLoop (m : VmaMap) (targetEnd : Nat) : Nat → Nat → List (MemoryRef × Nat) →
    Exec (ResultVal (List (MemoryRef × Nat)))
  | 0, _, _ => .error .outOfFuel
  | fuel + 1, intervalTarget, backingBlocks => do
      if intervalTarget = targetEnd then
        return .ok backingBlocks
      let vma ← deref m (← findVMA m intervalTarget)
      if vma.type ≠ .backingMemory then
        return .error .invalidAddressState
      let intervalEnd := min targetEnd (add32 vma.base vma.size)
      let intervalSize := sub32 intervalEnd intervalTarget
      let backingMemory ← vma.backingMemory.advance (sub32 intervalTarget vma.base)
      backingBlocksLoop m targetEnd fuel (add32 intervalTarget intervalSize)
        (backingBlocks ++ [(backingMemory, intervalSize)])

def getBackingBlocksForRange (vm : VMManager) (address size : Nat) :
    Exec (ResultVal (List (MemoryRef × Nat))) :=
  backingBlocksLoop vm.vmaMap (add32 address size) (vm.vmaMap.entries.length + 2) address []

/-- The step the mapping calls share: `MapBackingMemory`, an assertion that it succeeded, and
`Reprotect` on the area it returned. -/
def mapAndReprotect (site : Site) (vm : VMManager) (target : Nat) (memory : MemoryRef) (size : Nat)
    (state : MemoryState) (perms : VMAPermission) : Exec VMManager := do
  let (vma, vm) ← vm.mapBackingMemory target memory size state
  match vma with
  | .error _ => .error (.assertion site)
  | .ok handle =>
    let (_, vm) ← vm.reprotect handle perms
    return vm

def mapBlocks (site : Site) (state : MemoryState) (perms : VMAPermission) :
    VMManager → Nat → List (MemoryRef × Nat) → Exec VMManager
  | vm, _, [] => .ok vm
  | vm, intervalTarget, (memory, size) :: rest => do
      let vm ← mapAndReprotect site vm intervalTarget memory size state perms
      mapBlocks site state perms vm (add32 intervalTarget size) rest

end VMManager

variable (p : Process)

namespace Process

def getLinearHeapAreaAddress : Nat :=
  if p.kernelVersion < 0x22C then linearHeapVaddr else newLinearHeapVaddr

def getLinearHeapBase : Nat := add32 p.getLinearHeapAreaAddress p.memoryRegion.base

def getLinearHeapLimit : Nat := add32 p.getLinearHeapBase p.memoryRegion.size

/-- `FindVMA(target)` is free and, by its end, long enough. -/
def isFreeRange (vm : VMManager) (target size : Nat) : Exec Bool := do
  let vma ← VMManager.deref vm.vmaMap (← VMManager.findVMA vm.vmaMap target)
  return !(vma.type ≠ .free || add32 vma.base vma.size < add32 target size)

/-- The block loop of `HeapAllocate`: fill, map and reprotect each interval. -/
def mapIntervals (state : MemoryState) (perms : VMAPermission) :
    VMManager → Nat → List Block → Exec VMManager
  | vm, _, [] => .ok vm
  | vm, intervalTarget, interval :: rest => do
      let intervalSize := interval.upper - interval.lower
      fillFCRAM interval.lower interval.upper
      let memory ← getFCRAMRef interval.lower
      let vm ← vm.mapAndReprotect .heapAllocate intervalTarget memory intervalSize state perms
      mapIntervals state perms vm (add32 intervalTarget intervalSize) rest

def heapAllocate (p : Process) (target size : Nat) (perms : VMAPermission)
    (memoryState : MemoryState) (skipRangeCheck : Bool) : Exec (ResultVal Nat × Process) := do
  if target < heapVaddr ∨ add32 target size > heapVaddrEnd ∨ add32 target size < target then
    if skipRangeCheck = false then
      return (.error .invalidAddress, p)
  if (← isFreeRange p.vmManager target size) = false then
    return (.error .invalidAddressState, p)
  let (allocatedFcram, region) ← p.memoryRegion.heapAllocate size
  if allocatedFcram.blocks = [] then
    return (.error .outOfHeapMemory, { p with memoryRegion := region })
  let vm ← mapIntervals memoryState perms p.vmManager target allocatedFcram.blocks
  return (.ok target, { p with
    vmManager := vm
    memoryRegion := region
    memoryUsed := add32 p.memoryUsed size
    currentCommit := add32 p.currentCommit size })

def freeBlocks (region : MemoryRegionInfo) : List (MemoryRef × Nat) → Exec MemoryRegionInfo
  | [] => .ok region
  | (backingMemory, blockSize) :: rest => do
      let offset ← getFCRAMOffset backingMemory.getPtr
      let region ← region.free offset blockSize
      freeBlocks region rest

def heapFree (p : Process) (target size : Nat) : Exec (ResultVal Unit × Process) := do
  if target < heapVaddr ∨ add32 target size > heapVaddrEnd ∨ add32 target size < target then
    return (.error .invalidAddress, p)
  if size = 0 then
    return (.ok (), p)
  match ← p.vmManager.getBackingBlocksForRange target size with
  | .error e => return (.error e, p)
  | .ok backingBlocks =>
    let region ← freeBlocks p.memoryRegion backingBlocks
    let (result, vm) ← p.vmManager.unmapRange target size
    match result with
    | .error _ => .error (.assertion .heapFree)
    | .ok () =>
      return (.ok (), { p with
        vmManager := vm
        memoryRegion := region
        memoryUsed := sub32 p.memoryUsed size
        currentCommit := sub32 p.currentCommit size })

def linearReserve (target size : Nat) :
    Exec (ResultVal (Nat × Nat) × MemoryRegionInfo) := do
  if target = 0 then
    let (offset, region) ← p.memoryRegion.linearAllocate size
    match offset with
    | none => return (.error .outOfHeapMemory, region)
    | some offset => return (.ok (offset, add32 offset p.getLinearHeapAreaAddress), region)
  else
    if target < p.getLinearHeapBase ∨ add32 target size > p.getLinearHeapLimit ∨
        add32 target size < target then
      return (.error .invalidAddress, p.memoryRegion)
    let physicalOffset := sub32 target p.getLinearHeapAreaAddress
    let (done, region) ← p.memoryRegion.linearAllocateAt physicalOffset size
    if done = false then
      return (.error .invalidAddressState, region)
    return (.ok (physicalOffset, target), region)

def linearAllocate (p : Process) (target size : Nat) (perms : VMAPermission) :
    Exec (ResultVal Nat × Process) := do
  let (reserved, region) ← p.linearReserve target size
  match reserved with
  | .error e => return (.error e, { p with memoryRegion := region })
  | .ok (physicalOffset, target) =>
    let backingMemory ← getFCRAMRef physicalOffset
    let vm ← p.vmManager.mapAndReprotect .linearAllocate target backingMemory size .continuous perms
    return (.ok target, { p with
      vmManager := vm
      memoryRegion := region
      memoryUsed := add32 p.memoryUsed size
      currentCommit := add32 p.currentCommit size })

def linearFree (target size : Nat) : Exec (ResultVal Unit × Process) := do
  if target < p.getLinearHeapBase ∨ add32 target size > p.getLinearHeapLimit ∨
      add32 target size < target then
    return (.error .invalidAddress, p)
  if size = 0 then
    return (.ok (), p)
  let (result, vm) ← p.vmManager.unmapRange target size
  match result with
  | .error e => return (.error e, { p with vmManager := vm })
  | .ok () =>
    let physicalOffset := sub32 target p.getLinearHeapAreaAddress
    let region ← p.memoryRegion.free physicalOffset size
    return (.ok (), { p with
      vmManager := vm
      memoryRegion := region
      memoryUsed := sub32 p.memoryUsed size
      currentCommit := sub32 p.currentCommit size })

/-- The `source` range a guest may alias, unless the caller is privileged. -/
def validSource (source size : Nat) (privileged : Bool) : Bool :=
  privileged || !(source < heapVaddr || add32 source size > heapVaddrEnd ||
    add32 source size < source)

def overlapping (target source size : Nat) : Bool :=
  sub32 source target < size || sub32 target source < size

def map (target source size : Nat) (perms : VMAPermission) (privileged : Bool) :
    Exec (ResultVal Unit × Process) := do
  if validSource source size privileged = false then
    return (.error .invalidAddress, p)
  if overlapping target source size then
    if privileged then
      if source = target then
        let (result, vm) ← p.vmManager.changeMemoryState source size .«private» .readWrite
          .aliasCode perms
        return (result, { p with vmManager := vm })
      else
        return (.error .invalidAddress, p)
    else
      return (.error .invalidAddressState, p)
  if (← isFreeRange p.vmManager target size) = false then
    return (.error .invalidAddressState, p)
  let sourceState : MemoryState := if privileged then .locked else .aliased
  let targetState : MemoryState := if privileged then .aliasCode else .«alias»
  let sourcePerm : VMAPermission := if privileged then .none else .readWrite
  let (result, vm) ← p.vmManager.changeMemoryState source size .«private» .readWrite
    sourceState sourcePerm
  match result with
  | .error e => return (.error e, { p with vmManager := vm })
  | .ok () =>
    match ← vm.getBackingBlocksForRange source size with
    | .error e => return (.error e, { p with vmManager := vm })
    | .ok backingBlocks =>
      let vm ← vm.mapBlocks .processMap targetState perms target backingBlocks
      return (.ok (), { p with vmManager := vm })

def unmap (target source size : Nat) (perms : VMAPermission) (privileged : Bool) :
    Exec (ResultVal Unit × Process) := do
  if validSource source size privileged = false then
    return (.error .invalidAddress, p)
  if overlapping target source size then
    if privileged then
      if source = target then
        let (result, vm) ← p.vmManager.changeMemoryState source size .aliasCode .none
          .«private» perms
        return (result, { p with vmManager := vm })
      else
        return (.error .invalidAddress, p)
    else
      return (.error .invalidAddressState, p)
  let sourceState : MemoryState := if privileged then .locked else .aliased
  let (result, vm) ← p.vmManager.unmapRange target size
  match result with
  | .error e => return (.error e, { p with vmManager := vm })
  | .ok () =>
    let (result, vm) ← vm.changeMemoryState source size sourceState .none .«private» perms
    return (result, { p with vmManager := vm })

end Process

/-- `MemoryPermission`, a set of flags in a `u32`. -/
abbrev MemoryPermission := BitVec 32

def MemoryPermission.dontCare : MemoryPermission := 0x10000000

structure SharedMemory where
  linearHeapPhysOffset : Nat := 0
  backingBlocks : List (MemoryRef × Nat)
  size : Nat
  permissions : MemoryPermission
  otherPermissions : MemoryPermission
  baseAddress : Nat := 0
  holdingMemory : IntervalSet := .empty

namespace SharedMemory

def convertPermissions (permission : MemoryPermission) : VMAPermission :=
  (permission &&& 7).setWidth 8

/-- A block of its own goes to its place in the old linear heap unless told otherwise. -/
def targetAddress (shared : SharedMemory) (address : Nat) : Nat :=
  if shared.baseAddress = 0 ∧ address = 0 then
    add32 shared.linearHeapPhysOffset linearHeapVaddr
  else address

/-- `isOwner`: the target process created the block. -/
def map (shared : SharedMemory) (isOwner : Bool) (p : Process) (address : Nat)
    (permissions otherPermissions : MemoryPermission) : Exec (ResultVal Unit × Process) := do
  let ownOtherPermissions := if isOwner then shared.permissions else shared.otherPermissions
  if shared.baseAddress = 0 ∧ otherPermissions ≠ .dontCare then
    return (.error .invalidCombination, p)
  if permissions &&& ~~~ownOtherPermissions ≠ 0 then
    return (.error .invalidCombination, p)
  if shared.baseAddress ≠ 0 ∧ otherPermissions = .dontCare then
    return (.error .invalidCombination, p)
  if otherPermissions ≠ .dontCare ∧ shared.permissions &&& ~~~otherPermissions ≠ 0 then
    return (.error .wrongPermission, p)
  if address ≠ 0 ∧ (address < heapVaddr ∨ add32 address shared.size ≥ sharedMemoryVaddrEnd) then
    return (.error .invalidAddress, p)
  let targetAddress := shared.targetAddress address
  if (← Process.isFreeRange p.vmManager targetAddress shared.size) = false then
    return (.error .invalidAddressState, p)
  let vm ← p.vmManager.mapBlocks .sharedMemoryMap .shared (convertPermissions permissions)
    targetAddress shared.backingBlocks
  return (.ok (), { p with vmManager := vm })

def unmap (shared : SharedMemory) (p : Process) (address : Nat) :
    Exec (ResultVal Unit × Process) := do
  let (result, vm) ← p.vmManager.unmapRange address shared.size
  return (result, { p with vmManager := vm })

end SharedMemory

/-- `CreateSharedMemory`; a block at address 0 needs no owner. -/
def createSharedMemory (owner : Option Process) (region : MemoryRegionInfo) (size : Nat)
    (permissions otherPermissions : MemoryPermission) (address : Nat) :
    Exec (ResultVal SharedMemory × Option Process × MemoryRegionInfo) := do
  if address = 0 then
    let (offset, region) ← region.linearAllocate size
    match offset with
    | none => .error (.assertion .createSharedMemory)
    | some offset =>
      fillFCRAM offset (add32 offset size)
      let memory ← getFCRAMRef offset
      let owner := owner.map fun p => { p with memoryUsed := add32 p.memoryUsed size }
      return (.ok
        { linearHeapPhysOffset := offset
          backingBlocks := [(memory, size)]
          size := size
          permissions := permissions
          otherPermissions := otherPermissions
          baseAddress := address
          holdingMemory := IntervalSet.empty.add ⟨offset, add32 offset size⟩ }, owner, region)
  else
    match owner with
    | none => .error .undefinedBehaviour
    | some p =>
      let (result, vm) ← p.vmManager.changeMemoryState address size .«private» .readWrite .locked
        (SharedMemory.convertPermissions permissions)
      match result with
      | .error e => return (.error e, some { p with vmManager := vm }, region)
      | .ok () =>
        match ← vm.getBackingBlocksForRange address size with
        | .error _ => .error (.assertion .createSharedMemory)
        | .ok backingBlocks =>
          return (.ok
            { backingBlocks := backingBlocks
              size := size
              permissions := permissions
              otherPermissions := otherPermissions
              baseAddress := address }, some { p with vmManager := vm }, region)

def appletBlocks : List Block → Exec (List (MemoryRef × Nat))
  | [] => .ok []
  | interval :: rest => do
      let memory ← getFCRAMRef interval.lower
      fillFCRAM interval.lower interval.upper
      let blocks ← appletBlocks rest
      return (memory, interval.upper - interval.lower) :: blocks

def createSharedMemoryForApplet (region : MemoryRegionInfo) (offset size : Nat)
    (permissions otherPermissions : MemoryPermission) : Exec (SharedMemory × MemoryRegionInfo) := do
  let (backingBlocks, region) ← region.heapAllocate size
  assert .createSharedMemoryForApplet (backingBlocks.blocks ≠ [])
  let blocks ← appletBlocks backingBlocks.blocks
  return ({
    backingBlocks := blocks
    size := size
    permissions := permissions
    otherPermissions := otherPermissions
    baseAddress := add32 heapVaddr offset
    holdingMemory := backingBlocks }, region)

end EmuThreeDS
