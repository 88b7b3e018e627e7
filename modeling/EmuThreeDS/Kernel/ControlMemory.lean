import EmuThreeDS.Kernel.Process

/-!
# A process from its start to its memory calls

`Process::Run` with the mappings it makes, and `svcControlMemory`. The contents of the segments
and the threads of the process are left out, and so is the plugin loader, which is off unless
the user turns it on.
-/
namespace EmuThreeDS
namespace Layout

def tlsAreaVaddr : Nat := 0x1FF82000
def pageSize : Nat := 0x1000
def vramVaddr : Nat := 0x1F000000
def vramPaddr : Nat := 0x18000000
def vramSize : Nat := 0x00600000
def ioAreaVaddr : Nat := 0x1EC00000
def ioAreaPaddr : Nat := 0x10100000
def ioAreaSize : Nat := 0x00400000
def dspRamVaddr : Nat := 0x1FF00000
def dspRamPaddr : Nat := 0x1FF00000
def dspRamSize : Nat := 0x00080000
def n3dsExtraRamVaddr : Nat := 0x1E800000
def n3dsExtraRamPaddr : Nat := 0x1F000000
def n3dsExtraRamSize : Nat := 0x00400000
def fcramPaddr : Nat := 0x20000000

end Layout

open Layout

def vram : BackingMem := ⟨1, vramSize⟩
def dspRam : BackingMem := ⟨2, dspRamSize⟩
def n3dsExtraRam : BackingMem := ⟨3, n3dsExtraRamSize⟩

def configMem : BackingMem := ⟨4, pageSize⟩
def sharedPage : BackingMem := ⟨5, pageSize⟩

/-- `GetPhysicalRef`: the end of an area counts as part of it. -/
def getPhysicalRef (address : Nat) : MemoryRef :=
  if vramPaddr ≤ address ∧ address ≤ vramPaddr + vramSize then
    ⟨some vram, address - vramPaddr⟩
  else if dspRamPaddr ≤ address ∧ address ≤ dspRamPaddr + dspRamSize then
    ⟨some dspRam, address - dspRamPaddr⟩
  else if fcramPaddr ≤ address ∧ address ≤ fcramPaddr + fcramSize then
    ⟨some fcram, address - fcramPaddr⟩
  else if n3dsExtraRamPaddr ≤ address ∧ address ≤ n3dsExtraRamPaddr + n3dsExtraRamSize then
    ⟨some n3dsExtraRam, address - n3dsExtraRamPaddr⟩
  else {}

structure AddressMapping where
  address : Nat
  size : Nat
  readOnly : Bool
  unkFlag : Bool

structure MemoryArea where
  vaddrBase : Nat
  paddrBase : Nat
  size : Nat

def memoryAreas : List MemoryArea :=
  [⟨vramVaddr, vramPaddr, vramSize⟩,
   ⟨ioAreaVaddr, ioAreaPaddr, ioAreaSize⟩,
   ⟨dspRamVaddr, dspRamPaddr, dspRamSize⟩,
   ⟨n3dsExtraRamVaddr, n3dsExtraRamPaddr, n3dsExtraRamSize - 0x20000⟩]

def handleSpecialMapping (vm : VMManager) (mapping : AddressMapping) : Exec VMManager :=
  let mappingLimit := add32 mapping.address mapping.size
  if mappingLimit < mapping.address then
    return vm
  else
    match memoryAreas.find? fun area =>
        mapping.address ≥ area.vaddrBase && mappingLimit ≤ area.vaddrBase + area.size with
    | none => return vm
    | some area =>
      let offsetIntoRegion := mapping.address - area.vaddrBase
      if area.paddrBase = ioAreaPaddr then
        return vm
      else
        vm.mapAndReprotect .unwrap mapping.address (getPhysicalRef (area.paddrBase + offsetIntoRegion))
          mapping.size (if mapping.unkFlag then .static else .io)
          (if mapping.readOnly then .read else .readWrite)

def handleSpecialMappings (vm : VMManager) : List AddressMapping → Exec VMManager
  | [] => .ok vm
  | mapping :: rest => do
      let vm ← handleSpecialMapping vm mapping
      handleSpecialMappings vm rest

def mapSharedPages (vm : VMManager) : Exec VMManager := do
  let vm ← vm.mapAndReprotect .unwrap configMemoryVaddr ⟨some configMem, 0⟩ pageSize .shared .read
  vm.mapAndReprotect .unwrap sharedPageVaddr ⟨some sharedPage, 0⟩ pageSize .shared .read

structure Segment where
  addr : Nat
  size : Nat

structure CodeSet where
  codeSegment : Segment
  rodataSegment : Segment
  dataSegment : Segment

variable (p : Process)

namespace Process

/-- The first TLS page, which `SetupMainThread` takes from the BASE region. That region is
`base`, unless it is the one the process has itself. -/
def setupTls (base : Option MemoryRegionInfo) : Exec Process := do
  let (offset, region) ← (base.getD p.memoryRegion).linearAllocate pageSize
  match offset with
  | none => .error (.assertion .unwrap)
  | some offset =>
    let memory ← getFCRAMRef offset
    let (_, vm) ← p.vmManager.mapBackingMemory tlsAreaVaddr memory pageSize .locked
    return { p with
      vmManager := vm
      memoryRegion := if base.isSome then p.memoryRegion else region
      memoryUsed := add32 p.memoryUsed pageSize }

/-- The result of each allocation is ignored. -/
def mapSegment (segment : Segment) (permissions : VMAPermission)
    (memoryState : MemoryState) : Exec Process := do
  let (_, p) ← p.heapAllocate segment.addr segment.size permissions memoryState true
  return p

def run (base : Option MemoryRegionInfo) (codeset : CodeSet)
    (addressMappings : List AddressMapping) (stackSize : Nat) : Exec Process := do
  let p ← p.mapSegment codeset.codeSegment .readExecute .code
  let p ← p.mapSegment codeset.rodataSegment .read .code
  let p ← p.mapSegment codeset.dataSegment .readWrite .«private»
  let p ← p.mapSegment ⟨sub32 heapVaddrEnd stackSize, stackSize⟩ .readWrite .locked
  let vm ← mapSharedPages p.vmManager
  let vm ← handleSpecialMappings vm addressMappings
  setupTls { p with vmManager := vm } base

end Process

namespace Svc

def memopFree : Nat := 1
def memopCommit : Nat := 3
def memopMap : Nat := 4
def memopUnmap : Nat := 5
def memopProtect : Nat := 6
def memopOperationMask : Nat := 0xFF
def memopRegionMask : Nat := 0xF00
def memopLinear : Nat := 0x10000

def controlFree (addr0 size : Nat) : Exec (ResultVal Nat × Process) := do
  if addr0 ≥ heapVaddr ∧ addr0 < heapVaddrEnd then
    let (result, p) ← p.heapFree addr0 size
    return (result.map fun _ => addr0, p)
  else if addr0 ≥ p.getLinearHeapBase ∧ addr0 < p.getLinearHeapLimit then
    let (result, p) ← p.linearFree addr0 size
    return (result.map fun _ => addr0, p)
  else
    return (.error .invalidAddress, p)

/-- `ControlMemory`; the answer is 0 where the source leaves `out_addr` alone. -/
def controlMemory (addr0 addr1 size operation permissions : Nat) :
    Exec (ResultVal Nat × Process) := do
  if addr0 &&& VMManager.pageMask ≠ 0 ∨ addr1 &&& VMManager.pageMask ≠ 0 then
    return (.error .misalignedAddress, p)
  if size &&& VMManager.pageMask ≠ 0 then
    return (.error .misalignedSize, p)
  if permissions &&& 3 ≠ permissions then
    return (.error .invalidCombination, p)
  let vmaPermissions : VMAPermission := BitVec.ofNat 8 permissions
  let operation := operation &&& (0xFFFFFFFF - memopRegionMask)
  let code := operation &&& memopOperationMask
  if code = memopFree then
    controlFree p addr0 size
  else if code = memopCommit then
    if operation &&& memopLinear ≠ 0 then
      p.linearAllocate addr0 size vmaPermissions
    else
      p.heapAllocate addr0 size vmaPermissions .«private» false
  else if code = memopMap then
    let (result, p) ← p.map addr0 addr1 size vmaPermissions false
    return (result.map fun _ => 0, p)
  else if code = memopUnmap then
    let (result, p) ← p.unmap addr0 addr1 size vmaPermissions false
    return (result.map fun _ => 0, p)
  else if code = memopProtect then
    let (result, vm) ← p.vmManager.reprotectRange addr0 size vmaPermissions
    return (result.map fun _ => 0, { p with vmManager := vm })
  else
    return (.error .invalidCombination, p)

end Svc
end EmuThreeDS
