import EmuThreeDS.Lib.IntervalSet
import EmuThreeDS.Kernel.Vma

/-!
# FCRAM and its regions

The allocator of `hle/kernel/memory.cpp` and the FCRAM accessors of `memory.cpp`. Offsets
are from the start of FCRAM. The bytes themselves are left out: no decision reads them.
-/
namespace EmuThreeDS
open Intervals

def fcramSize : Nat := 0x10000000

/-- The backing of FCRAM, sized for the New 3DS on every model. -/
def fcram : BackingMem := ⟨0, fcramSize⟩

def getFCRAMRef (offset : Nat) : Exec MemoryRef := do
  assert .fcramPointer (offset ≤ fcramSize)
  return ⟨some fcram, offset⟩

/-- The zero fill of `[lower, upper)`: two pointers into FCRAM. -/
def fillFCRAM (lower upper : Nat) : Exec Unit := do
  assert .fcramPointer (lower ≤ fcramSize)
  assert .fcramPointer (upper ≤ fcramSize)

def getFCRAMOffset (pointer : HostPtr) : Exec Nat :=
  match pointer with
  | some (block, offset) => do
      assert .fcramOffset (block = fcram ∧ offset ≤ fcramSize)
      return offset
  | none => .error (.assertion .fcramOffset)

structure MemoryRegionInfo where
  base : Nat
  size : Nat
  used : Nat
  freeBlocks : IntervalSet
  isLocked : Bool := false

variable (region : MemoryRegionInfo)

namespace MemoryRegionInfo

def reset (base size : Nat) : Exec MemoryRegionInfo := do
  assert .regionLocked (region.isLocked = false)
  return { region with
    base := base
    size := size
    used := 0
    freeBlocks := IntervalSet.empty.add ⟨base, add32 base size⟩ }

/-- The loop of `HeapAllocate` over the blocks from the highest down. -/
def gather (rest : Nat) : List Block → IntervalSet → IntervalSet × Nat
  | [], result => (result, rest)
  | b :: more, result =>
    if b.length ≥ rest then (result.add ⟨b.upper - rest, b.upper⟩, 0)
    else gather (rest - b.length) more (result.add b)

def heapAllocate (size : Nat) :
    Exec (IntervalSet × MemoryRegionInfo) := do
  assert .regionLocked (region.isLocked = false)
  let (result, rest) := gather size region.freeBlocks.blocks.reverse .empty
  if rest ≠ 0 then
    return (.empty, region)
  return (result, { region with
    freeBlocks := region.freeBlocks.removeAll result.blocks
    used := add32 region.used size })

/-- `LinearAllocate` at a given offset. -/
def linearAllocateAt (offset size : Nat) :
    Exec (Bool × MemoryRegionInfo) := do
  assert .regionLocked (region.isLocked = false)
  let interval : Block := ⟨offset, add32 offset size⟩
  if region.freeBlocks.contains interval = false then
    return (false, region)
  return (true, { region with
    freeBlocks := region.freeBlocks.remove interval
    used := add32 region.used size })

def linearAllocate (size : Nat) :
    Exec (Option Nat × MemoryRegionInfo) := do
  assert .regionLocked (region.isLocked = false)
  match region.freeBlocks.blocks.find? fun interval => interval.length ≥ size with
  | none => return (none, region)
  | some interval =>
    return (some interval.lower, { region with
      freeBlocks := region.freeBlocks.remove ⟨interval.lower, interval.lower + size⟩
      used := add32 region.used size })

def rLinearAllocate (size : Nat) :
    Exec (Option Nat × MemoryRegionInfo) := do
  assert .regionLocked (region.isLocked = false)
  match region.freeBlocks.blocks.reverse.find? fun interval => interval.length ≥ size with
  | none => return (none, region)
  | some interval =>
    return (some (interval.upper - size), { region with
      freeBlocks := region.freeBlocks.remove ⟨interval.upper - size, interval.upper⟩
      used := add32 region.used size })

def free (offset size : Nat) : Exec MemoryRegionInfo := do
  if region.isLocked then
    return region
  let interval : Block := ⟨offset, add32 offset size⟩
  assert .regionFree (region.freeBlocks.intersects interval = false)
  return { region with
    freeBlocks := region.freeBlocks.add interval
    used := sub32 region.used size }

end MemoryRegionInfo

/-- The sizes of the APPLICATION, SYSTEM and BASE regions for each memory configuration. -/
def memoryRegionSizes : List (List Nat) :=
  [[0x04000000, 0x02C00000, 0x01400000],
   [0, 0, 0],
   [0x06000000, 0x00C00000, 0x01400000],
   [0x05000000, 0x01C00000, 0x01400000],
   [0x04800000, 0x02400000, 0x01400000],
   [0x02000000, 0x04C00000, 0x01400000],
   [0x07C00000, 0x06400000, 0x02000000],
   [0x0B200000, 0x02E00000, 0x02000000]]

/-- The loop of `MemoryInit`; it also gives the end of the last region. -/
def resetRegions : Nat → List (MemoryRegionInfo × Nat) → Exec (List MemoryRegionInfo × Nat)
  | base, [] => .ok ([], base)
  | base, (region, size) :: rest => do
      let region ← region.reset base size
      let (regions, top) ← resetRegions (add32 base region.size) rest
      return (region :: regions, top)

/-- The regions `MemoryInit` lays out. What it writes to the configuration page is left out. -/
def memoryInit (isNew3ds : Bool) (memType n3dsMode : Nat) (regions : List MemoryRegionInfo) :
    Exec (List MemoryRegionInfo) := do
  assert .memoryInit (memType ≠ 1)
  let memType := if isNew3ds then (if n3dsMode = 2 then 7 else 6) else memType
  match memoryRegionSizes[memType]? with
  | none => .error .undefinedBehaviour
  | some sizes =>
    let (regions, base) ← resetRegions 0 (regions.zip sizes)
    assert .memoryInit (base = if isNew3ds then 0x10000000 else 0x08000000)
    return regions

end EmuThreeDS
