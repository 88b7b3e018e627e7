import EmuThreeDS.Kernel.ControlMemory

/-!
# Page tables and the rasterizer's marks

The page tables of `memory.cpp`: mapping, unmapping and `RasterizerMarkRegionCached`. Pages of
MMIO are left out. A table and the marker are functions of the page number. What `MapPages`
first asks of the rasterizer comes back as calls of `RasterizerMarkRegionCached`, and is left to
them.
-/
namespace EmuThreeDS

namespace Layout

def linearHeapVaddrEnd : Nat := 0x1C000000
def newLinearHeapVaddrEnd : Nat := 0x40000000
def vramVaddrEnd : Nat := 0x1F600000
def vramPaddrEnd : Nat := 0x18600000
def plugin3gxFbVaddr : Nat := 0x06000000
def plugin3gxFbSize : Nat := 0x000A9000
def plugin3gxFbVaddrEnd : Nat := 0x060A9000
def fcramPaddrEnd : Nat := 0x28000000
def fcramN3dsPaddrEnd : Nat := 0x30000000
def pageTableNumEntries : Nat := 0x100000

end Layout

open Layout

inductive PageType where
  | unmapped | memory | rasterizerCachedMemory
  deriving DecidableEq

abbrev HostLoc := BackingMem × Nat

@[ext] structure PageTable where
  attributes : Nat → PageType
  pointers : Nat → Option HostLoc

namespace PageTable

def clear : PageTable := ⟨fun _ => .unmapped, fun _ => none⟩

def set (t : PageTable) (page : Nat) (type : PageType) (pointer : Option HostLoc) : PageTable where
  attributes := fun other => if other = page then type else t.attributes other
  pointers := fun other => if other = page then pointer else t.pointers other

variable {t : PageTable} {page other : Nat} {type : PageType} {pointer : Option HostLoc}

@[simp] theorem set_attributes_same : (t.set page type pointer).attributes page = type := if_pos rfl

@[simp] theorem set_pointers_same : (t.set page type pointer).pointers page = pointer := if_pos rfl

theorem set_attributes_other (h : other ≠ page) :
    (t.set page type pointer).attributes other = t.attributes other := if_neg h

theorem set_pointers_other (h : other ≠ page) :
    (t.set page type pointer).pointers other = t.pointers other := if_neg h

end PageTable

/-- The addresses that `RasterizerCacheMarker::At` knows. -/
def cacheable (vaddr : Nat) : Bool :=
  vramVaddr ≤ vaddr ∧ vaddr < vramVaddrEnd ∨
    linearHeapVaddr ≤ vaddr ∧ vaddr < linearHeapVaddrEnd ∨
    newLinearHeapVaddr ≤ vaddr ∧ vaddr < newLinearHeapVaddrEnd ∨
    plugin3gxFbVaddr ≤ vaddr ∧ vaddr < plugin3gxFbVaddrEnd

/-- `page_table_list` and `cache_marker`. -/
structure PageTables where
  list : List PageTable
  cacheMarker : Nat → Bool

variable (marker : Nat → Bool)

namespace PageTables

def isCached (vaddr : Nat) : Bool :=
  cacheable vaddr && marker (vaddr / pageSize)

def mark (vaddr : Nat) (cached : Bool) : Nat → Bool :=
  if cacheable vaddr then fun page => if page = vaddr / pageSize then cached else marker page
  else marker

/-- `GetPointerForRasterizerCache`; `pluginFb` is `GetPluginFBAddr()`. -/
def getPointerForRasterizerCache (pluginFb vaddr : Nat) : Exec HostLoc :=
  if linearHeapVaddr ≤ vaddr ∧ vaddr < linearHeapVaddrEnd then
    .ok (fcram, vaddr - linearHeapVaddr)
  else if newLinearHeapVaddr ≤ vaddr ∧ vaddr < newLinearHeapVaddrEnd then
    .ok (fcram, vaddr - newLinearHeapVaddr)
  else if vramVaddr ≤ vaddr ∧ vaddr < vramVaddrEnd then .ok (vram, vaddr - vramVaddr)
  else if plugin3gxFbVaddr ≤ vaddr ∧ vaddr < plugin3gxFbVaddrEnd then do
    let offset := sub32 (add32 (vaddr - plugin3gxFbVaddr) pluginFb) fcramPaddr
    assert .memoryRef (offset ≤ fcramSize)
    return (fcram, offset)
  else .error (.assertion .rasterizerPointer)

/-- `PhysicalToVirtualAddressForRasterizer`. -/
def physicalToVirtual (pluginFb paddr : Nat) : List Nat :=
  if vramPaddr ≤ paddr ∧ paddr < vramPaddrEnd then [paddr - vramPaddr + vramVaddr]
  else if pluginFb ≤ paddr ∧ paddr < add32 pluginFb plugin3gxFbSize then
    [paddr - pluginFb + plugin3gxFbVaddr]
  else if fcramPaddr ≤ paddr ∧ paddr < fcramPaddrEnd then
    [paddr - fcramPaddr + linearHeapVaddr, paddr - fcramPaddr + newLinearHeapVaddr]
  else if fcramPaddrEnd ≤ paddr ∧ paddr < fcramN3dsPaddrEnd then
    [paddr - fcramPaddr + newLinearHeapVaddr]
  else []

/-- The loop of `MapPages`. -/
def mapPages (marker : Nat → Bool) (type : PageType) (t : PageTable) (base : Nat)
    (memory : MemoryRef) : Nat → Exec PageTable
  | 0 => .ok t
  | size + 1 => do
    assert .mapPages (base < pageTableNumEntries)
    -- If the memory to map is already rasterizer-cached, mark the page
    let t := if type = .memory ∧ isCached marker (base * pageSize) then
        t.set base .rasterizerCachedMemory none
      else t.set base type memory.getPtr
    let memory ← if memory.backingMem ≠ none ∧ memory.getSize > pageSize then
        memory.advance pageSize
      else .ok memory
    mapPages marker type t (base + 1) memory size

def mapMemoryRegion (t : PageTable) (base size : Nat)
    (target : MemoryRef) : Exec PageTable := do
  assert .mapPages (size % pageSize = 0)
  assert .mapPages (base % pageSize = 0)
  mapPages marker .memory t (base / pageSize) target (size / pageSize)

def unmapRegion (t : PageTable) (base size : Nat) : Exec PageTable := do
  assert .mapPages (size % pageSize = 0)
  assert .mapPages (base % pageSize = 0)
  mapPages marker .unmapped t (base / pageSize) {} (size / pageSize)

def markTable (pluginFb : Nat) (cached : Bool) (vaddr : Nat) (t : PageTable) : Exec PageTable :=
  let page := vaddr / pageSize
  match cached, t.attributes page with
  | _, .unmapped => .ok t
  | true, .memory => .ok (t.set page .rasterizerCachedMemory none)
  | false, .rasterizerCachedMemory => do
    let pointer ← getPointerForRasterizerCache pluginFb (vaddr - vaddr % pageSize)
    return t.set page .memory (some pointer)
  | _, _ => .error (.assertion .markRegionCached)

def markVaddr (pluginFb : Nat) (cached : Bool) (s : PageTables) (vaddr : Nat) :
    Exec PageTables := do
  let list ← s.list.mapM (markTable pluginFb cached vaddr)
  return ⟨list, mark s.cacheMarker vaddr cached⟩

def markLoop (pluginFb : Nat) (cached : Bool) (s : PageTables) (paddr : Nat) : Nat → Exec PageTables
  | 0 => .ok s
  | pages + 1 => do
    let s ← (physicalToVirtual pluginFb paddr).foldlM (markVaddr pluginFb cached) s
    markLoop pluginFb cached s (add32 paddr pageSize) pages

def rasterizerMarkRegionCached (pluginFb : Nat) (s : PageTables) (start size : Nat)
    (cached : Bool) : Exec PageTables :=
  if start = 0 then .ok s
  else
    let last := sub32 (add32 start size) 1 / pageSize
    markLoop pluginFb cached s start (add32 (sub32 last (start / pageSize)) 1)

inductive Call where
  | registerPageTable
  | unregisterPageTable (i : Nat)
  | mapMemoryRegion (i base size : Nat) (target : MemoryRef)
  | unmapRegion (i base size : Nat)
  | rasterizerMarkRegionCached (pluginFb start size : Nat) (cached : Bool)

def edit (s : PageTables) (i : Nat) (change : PageTable → Exec PageTable) : Exec PageTables :=
  match s.list[i]? with
  | some t => do
    let t ← change t
    return { s with list := s.list.set i t }
  | none => .ok s

def step (s : PageTables) : Call → Exec PageTables
  | .registerPageTable => .ok { s with list := s.list ++ [PageTable.clear] }
  | .unregisterPageTable i => .ok { s with list := s.list.eraseIdx i }
  | .mapMemoryRegion i base size target =>
    s.edit i fun t => mapMemoryRegion s.cacheMarker t base size target
  | .unmapRegion i base size => s.edit i fun t => unmapRegion s.cacheMarker t base size
  | .rasterizerMarkRegionCached pluginFb start size cached =>
    rasterizerMarkRegionCached pluginFb s start size cached

def initial : PageTables := ⟨[], fun _ => false⟩

end PageTables
end EmuThreeDS
