import EmuThreeDS.Memory.PageTables
import EmuThreeDS.Lib.IntervalMap
import EmuThreeDS.Common.SlotVector
import Mathlib.Data.Set.Card

/-!
# The rasterizer cache

`rasterizer_cache.h`: which surfaces are registered, what of each is invalid, who holds the dirty
regions, and how many surfaces touch each page. The textures behind the surfaces, cube maps and
the bytes that a flush writes are left out.
-/
namespace EmuThreeDS.VideoCore

open Intervals Layout

inductive SurfaceType where
  | color | texture | depth | depthStencil | fill | invalid
  deriving DecidableEq

/-- A surface covers the addresses from `addr` up to `endAddr`. -/
structure SurfaceParams where
  addr : Nat
  endAddr : Nat
  type : SurfaceType
  width : Nat
  stride : Nat
  ordered : addr < endAddr
  word : endAddr < 0x100000000

namespace SurfaceParams

variable (p : SurfaceParams)

def size : Nat := p.endAddr - p.addr

def getInterval : Block := ⟨p.addr, p.endAddr⟩

end SurfaceParams

/-- `SurfaceBase`; of its flags only `Registered`. -/
structure Surface extends SurfaceParams where
  registered : Bool
  invalidRegions : IntervalSet

namespace Surface

variable (surface : Surface)

def isRegionValid (interval : Block) : Bool := !surface.invalidRegions.intersects interval

def markInvalid (interval : Block) : Surface :=
  { surface with invalidRegions := surface.invalidRegions.add interval }

end Surface

def inter (a b : Block) : Block := ⟨max a.lower b.lower, min a.upper b.upper⟩

def bucketSize : Nat := 0x40000

/-- `ForEachPage`: 64-bit arithmetic. -/
def forEachPage (addr size : Nat) : List Nat :=
  let pageEnd := (addr + size + 0xFFFFFFFFFFFFFFFF) % 0x10000000000000000 / bucketSize
  List.range' (addr / bucketSize) (pageEnd + 1 - addr / bucketSize)

structure RasterizerCache where
  slotSurfaces : SlotVector Surface
  pageTable : Nat → List Nat
  dirtyRegions : IntervalMap Nat
  cachedPages : IntervalMap Int
  memory : PageTables

namespace RasterizerCache

def new (memory : PageTables) : RasterizerCache where
  slotSurfaces := SlotVector.empty
  pageTable := fun _ => []
  dirtyRegions := IntervalMap.empty
  cachedPages := IntervalMap.empty
  memory := memory

variable (s : RasterizerCache)

def modifySurface (id : Nat) (f : Surface → Surface) : RasterizerCache :=
  { s with slotSurfaces := s.slotSurfaces.modify id f }

/-- The region to flush of a dirty one. Small sizes imply that this most likely comes from the
cpu, and the entire region is flushed. -/
def flushedRegion (size : Nat) (interval : Block) (region : Intervals.Segment Nat) : Block :=
  if size ≤ 8 then region.block else (region.clip interval).block

/-- What is written back, with the surface it comes from. -/
def downloadRegion (region : Block) (id : Nat) : Exec (Nat × Block) := do
  let surface ← s.slotSurfaces.get id
  -- Sanity check, this surface is the last one that marked this region dirty
  assert .flushRegion (surface.isRegionValid region)
  assert .flushRegion (surface.addr ≤ region.lower ∧ region.upper ≤ surface.endAddr)
  return (id, region)

def flushRegion (addr size : Nat) (flushSurface : Option Nat) :
    Exec (List (Nat × Block) × RasterizerCache) := do
  if size = 0 then return ([], s)
  else
    let interval : Block := ⟨addr, add32 addr size⟩
    let regions := (s.dirtyRegions.overlapping interval).filter fun region =>
      flushSurface = none ∨ flushSurface = some region.value
    let downloads ← regions.mapM fun region =>
      s.downloadRegion (flushedRegion size interval region) region.value
    let dirtyRegions := s.dirtyRegions.eraseAll (downloads.map (·.2))
    return (downloads, { s with dirtyRegions })

/-- `GetPluginFBAddr()` is `pluginFb`. -/
def markSegment (pluginFb : Nat) (delta : Int) (memory : PageTables) (pages : Intervals.Segment Int) :
    Exec PageTables :=
  let start := pages.lower * pageSize % 0x100000000
  let size := sub32 (pages.upper * pageSize % 0x100000000) start
  if 0 < delta ∧ pages.value = delta then
    memory.rasterizerMarkRegionCached pluginFb start size true
  else if delta < 0 ∧ pages.value = -delta then
    memory.rasterizerMarkRegionCached pluginFb start size false
  else do
    assert .cachedPages (0 ≤ pages.value)
    return memory

def updatePagesCachedCount (pluginFb addr size : Nat) (delta : Int) : Exec RasterizerCache := do
  let pageStart := addr / pageSize
  let numPages := add32 (sub32 (sub32 (add32 addr size) 1 / pageSize) pageStart) 1
  let pages : Block := ⟨pageStart, add32 pageStart numPages⟩
  -- segments are erased if the count reaches 0, so a negative delta is added after iterating
  let cachedPages := if 0 < delta then s.cachedPages.add pages delta else s.cachedPages
  let memory ← (cachedPages.within pages).foldlM (markSegment pluginFb delta) s.memory
  return { s with
    memory
    cachedPages := if delta < 0 then cachedPages.add pages delta else cachedPages }

/-- `slot_surfaces.insert`. -/
def insertSurface (params : SurfaceParams) : RasterizerCache :=
  { s with
    slotSurfaces := s.slotSurfaces.insert
      { params with registered := false, invalidRegions := IntervalSet.empty } }

/-- The surface gets the id `slotSurfaces.nextId`. -/
def createSurface (params : SurfaceParams) : RasterizerCache :=
  (s.insertSurface params).modifySurface s.slotSurfaces.nextId fun surface =>
    surface.markInvalid surface.getInterval

def registerSurface (pluginFb id : Nat) : Exec RasterizerCache := do
  let surface ← s.slotSurfaces.get id
  assert .registration (surface.registered = false)
  let s := s.modifySurface id fun surface => { surface with registered := true }
  let s ← s.updatePagesCachedCount pluginFb surface.addr surface.size 1
  let pages := forEachPage surface.addr surface.size
  return { s with
    pageTable := fun page => if page ∈ pages then s.pageTable page ++ [id] else s.pageTable page }

def unregisterSurface (pluginFb id : Nat) : Exec RasterizerCache := do
  let surface ← s.slotSurfaces.get id
  assert .registration (surface.registered = true)
  let s := s.modifySurface id fun surface => { surface with registered := false }
  let s ← s.updatePagesCachedCount pluginFb surface.addr surface.size (-1)
  let pages := forEachPage surface.addr surface.size
  assert .registration (∀ page ∈ pages, id ∈ s.pageTable page)
  let pageTable := fun page =>
    if page ∈ pages then (s.pageTable page).erase id else s.pageTable page
  if used : (s.slotSurfaces.values id).isSome then
    return { s with pageTable, slotSurfaces := s.slotSurfaces.erase id used }
  else throw .undefinedBehaviour

def clearAll (pluginFb : Nat) (flush : Bool) : Exec RasterizerCache := do
  let interval : Block := ⟨0, 0xFFFFFFFF⟩
  let s ← if flush then do
      let flushed ← s.flushRegion 0 0xFFFFFFFF none
      pure flushed.2
    else pure s
  -- Unmark all of the marked pages
  let memory ← (s.cachedPages.within interval).foldlM (fun memory pages =>
    let start := pages.lower * pageSize % 0x100000000
    let size := sub32 (pages.upper * pageSize % 0x100000000) start
    memory.rasterizerMarkRegionCached pluginFb start size false) s.memory
  -- Remove the whole cache without really looking at it.
  return { s with
    memory
    cachedPages := s.cachedPages.erase interval
    dirtyRegions := s.dirtyRegions.erase interval
    pageTable := fun _ => [] }

end RasterizerCache
end EmuThreeDS.VideoCore
