import EmuThreeDS.LdrRo.CROHelper

/-!
# Linking of modules (`CROHelper::Link`, `CROHelper::Unlink`)

The tables of rebased modules are records here, and a relocation batch is the index of its first
entry. What linking changes is apart from them: the bytes of the process, where the relocation
words are, and the `is_batch_resolved` flags. An entry past the end of its table would be read
from whatever is there; such a read is reported as undefined.
-/
namespace EmuThreeDS.Linking

abbrev Name := List UInt8

inductive SegmentType where
  | code | roData | data | bss | other
  deriving DecidableEq

structure SegmentTag where
  segmentIndex : Nat
  offsetIntoSegment : Nat
  deriving DecidableEq

structure SegmentEntry where
  offset : Nat
  size : Nat
  type : SegmentType

structure ExportNamedSymbolEntry where
  name : Name
  symbolPosition : SegmentTag

structure Child where
  nextIndex : Nat
  isEnd : Bool
  deriving DecidableEq

structure ExportTreeEntry where
  testBit : Nat
  left : Child
  right : Child
  exportTableIndex : Nat
  deriving DecidableEq

structure ImportNamedSymbolEntry where
  name : Name
  relocationBatch : Nat

structure ImportIndexedSymbolEntry where
  index : Nat
  relocationBatch : Nat

structure ImportAnonymousSymbolEntry where
  symbolPosition : SegmentTag
  relocationBatch : Nat

structure ImportModuleEntry where
  name : Name
  importIndexedSymbols : List ImportIndexedSymbolEntry
  importAnonymousSymbols : List ImportAnonymousSymbolEntry

inductive RelocationType where
  | nothing | absoluteAddress | relativeAddress | thumbBranch | armBranch | modifyArmBranch
  | absoluteAddress2 | alignedRelativeAddress
  | other
  deriving DecidableEq

/-- `is_batch_resolved` is in `Modules`. -/
structure RelocationEntry where
  targetPosition : SegmentTag
  type : RelocationType
  isBatchEnd : Bool
  addend : Nat
  deriving DecidableEq

structure Module where
  name : Name
  dataOffset : Nat
  onUnresolvedSegmentTag : SegmentTag
  segments : List SegmentEntry
  exportNamedSymbols : List ExportNamedSymbolEntry
  exportTree : List ExportTreeEntry
  exportIndexedSymbols : List SegmentTag
  importModules : List ImportModuleEntry
  externalRelocations : List RelocationEntry
  importNamedSymbols : List ImportNamedSymbolEntry
  importIndexedSymbols : List ImportIndexedSymbolEntry
  importAnonymousSymbols : List ImportAnonymousSymbolEntry

inductive ResultCode where
  | success
  | croFormatError (description : Nat)
  deriving DecidableEq

/-- The way down from a node: `(name[test_byte] >> test_bit_in_byte) & 1`. -/
def ExportTreeEntry.child (entry : ExportTreeEntry) (name : Name) : Child :=
  match name[entry.testBit / 8]? with
  | none => entry.left
  | some byte => if byte.toNat.testBit (entry.testBit % 8) then entry.right else entry.left

namespace Module

def segmentTagToAddress (m : Module) (tag : SegmentTag) : Nat :=
  match m.segments[tag.segmentIndex]? with
  | none => 0
  | some entry =>
    if tag.offsetIntoSegment ≥ entry.size then 0 else add32 entry.offset tag.offsetIntoSegment

def getOnUnresolvedAddress (m : Module) : Nat := m.segmentTagToAddress m.onUnresolvedSegmentTag

/-- The loop of `FindExportNamedSymbol`. A walk that takes more steps than there are nodes goes
on for ever. -/
def searchTree (tree : List ExportTreeEntry) (name : Name) : Nat → Child → Exec Nat
  | 0, _ => .error .outOfFuel
  | fuel + 1, next =>
    match tree[next.nextIndex]? with
    | none => .error .undefinedBehaviour
    | some entry =>
      if next.isEnd then .ok entry.exportTableIndex
      else searchTree tree name fuel (entry.child name)

def findExportNamedSymbol (m : Module) (name : Name) : Exec Nat :=
  match m.exportTree with
  | [] => .ok 0
  | root :: _ => do
    let foundId ← searchTree m.exportTree name (m.exportTree.length + 1) root.left
    match m.exportNamedSymbols[foundId]? with
    | none => .ok 0
    | some entry =>
      if entry.name ≠ name then .ok 0 else .ok (m.segmentTagToAddress entry.symbolPosition)

end Module

/-- `ApplyRelocation`: nothing is written for the types that are not implemented. -/
def applyRelocation (memory : ProcessBytes) (targetAddress : Nat) (type : RelocationType)
    (addend symbolAddress targetFutureAddress : Nat) : ResultCode × ProcessBytes :=
  match type with
  | .nothing => (.success, memory)
  | .absoluteAddress | .absoluteAddress2 =>
    (.success, memory.write32 targetAddress (add32 symbolAddress addend))
  | .relativeAddress =>
    (.success,
      memory.write32 targetAddress (sub32 (add32 symbolAddress addend) targetFutureAddress))
  | .thumbBranch | .armBranch | .modifyArmBranch | .alignedRelativeAddress => (.success, memory)
  | .other => (.croFormatError 0x22, memory)

def applyEntries (m : Module) (symbolAddress : Nat) :
    List RelocationEntry → ProcessBytes → Exec (ResultCode × ProcessBytes)
  | [], _ => .error .undefinedBehaviour
  | relocation :: rest, memory =>
    let target := m.segmentTagToAddress relocation.targetPosition
    if target = 0 then .ok (.croFormatError 0x12, memory)
    else
      let (result, memory) :=
        applyRelocation memory target relocation.type relocation.addend symbolAddress target
      if result ≠ .success then .ok (result, memory)
      else if relocation.isBatchEnd then .ok (.success, memory)
      else applyEntries m symbolAddress rest memory

structure Modules where
  tables : Nat → Module
  memory : ProcessBytes
  resolved : Nat → Nat → Bool

abbrev Answer := Exec (ResultCode × Modules)

/-- `if (result.IsError()) return result;` -/
def andThen (x : Answer) (next : Modules → Answer) : Answer := do
  let (result, s) ← x
  if result = .success then next s else .ok (result, s)

def each {α : Type} (f : α → Modules → Answer) : List α → Modules → Answer
  | [], s => .ok (.success, s)
  | x :: xs, s => andThen (f x s) (each f xs)

/-- `ForEachAutoLinkCRO` over the modules on the list of the static module, itself the first. -/
def forEachAutoLinkCRO (func : Nat → Modules → Exec ((ResultCode × Bool) × Modules)) :
    List Nat → Modules → Answer
  | [], s => .ok (.success, s)
  | cro :: rest, s => do
    let ((result, next), s) ← func cro s
    if result ≠ .success then .ok (result, s)
    else if next then forEachAutoLinkCRO func rest s
    else .ok (.success, s)

section

variable (autoLink : List Nat) (a : Nat)

def applyRelocationBatch (batch symbolAddress : Nat) (reset : Bool) (s : Modules) : Answer :=
  if symbolAddress = 0 ∧ !reset then .ok (.croFormatError 0x10, s)
  else do
    let (result, memory) ← applyEntries (s.tables a) symbolAddress
      ((s.tables a).externalRelocations.drop batch) s.memory
    let s := { s with memory }
    if result ≠ .success then .ok (result, s)
    else .ok (.success,
      { s with
        resolved := fun b i => if b = a ∧ i = batch then !reset else s.resolved b i })

variable (target : Nat) (s : Modules)

def applyImportNamedSymbol : Answer :=
  each (fun entry s =>
    if s.resolved a entry.relocationBatch then .ok (.success, s)
    else forEachAutoLinkCRO (fun source s => do
      let symbolAddress ← (s.tables source).findExportNamedSymbol entry.name
      if symbolAddress ≠ 0 then do
        let (result, s) ← applyRelocationBatch a entry.relocationBatch symbolAddress false s
        .ok ((result, false), s)
      else .ok ((.success, true), s)) autoLink s)
    (s.tables a).importNamedSymbols s

def resetImportNamedSymbol : Answer :=
  let unresolvedSymbol := (s.tables a).getOnUnresolvedAddress
  each (fun entry => applyRelocationBatch a entry.relocationBatch unresolvedSymbol true)
    (s.tables a).importNamedSymbols s

def resetImportIndexedSymbol : Answer :=
  let unresolvedSymbol := (s.tables a).getOnUnresolvedAddress
  each (fun entry => applyRelocationBatch a entry.relocationBatch unresolvedSymbol true)
    (s.tables a).importIndexedSymbols s

def resetImportAnonymousSymbol : Answer :=
  let unresolvedSymbol := (s.tables a).getOnUnresolvedAddress
  each (fun entry => applyRelocationBatch a entry.relocationBatch unresolvedSymbol true)
    (s.tables a).importAnonymousSymbols s

/-- The two loops of `ApplyModuleImport` and of `ApplyModuleExport`: the module at `a` gets the
indexed and anonymous symbols of an entry from the module at `source`. -/
def applyModuleSymbols (source : Nat) (entry : ImportModuleEntry) (s : Modules) : Answer :=
  andThen
    (each (fun im s =>
      match (s.tables source).exportIndexedSymbols[im.index]? with
      | none => .error .undefinedBehaviour
      | some position =>
        applyRelocationBatch a im.relocationBatch
          ((s.tables source).segmentTagToAddress position) false s)
      entry.importIndexedSymbols s)
    (each (fun im s =>
      applyRelocationBatch a im.relocationBatch
        ((s.tables source).segmentTagToAddress im.symbolPosition) false s)
      entry.importAnonymousSymbols)

def applyModuleImport : Answer :=
  each (fun entry =>
    forEachAutoLinkCRO (fun source s =>
      if entry.name = (s.tables source).name then do
        let (result, s) ← applyModuleSymbols a source entry s
        .ok ((result, false), s)
      else .ok ((.success, true), s)) autoLink)
    (s.tables a).importModules s

def applyExportNamedSymbol : Answer :=
  each (fun entry s =>
    if s.resolved target entry.relocationBatch then .ok (.success, s)
    else do
      let symbolAddress ← (s.tables a).findExportNamedSymbol entry.name
      if symbolAddress ≠ 0 then
        applyRelocationBatch target entry.relocationBatch symbolAddress false s
      else .ok (.success, s))
    (s.tables target).importNamedSymbols s

def resetExportNamedSymbol : Answer :=
  let unresolvedSymbol := (s.tables target).getOnUnresolvedAddress
  each (fun entry s =>
    if s.resolved target entry.relocationBatch then do
      let symbolAddress ← (s.tables a).findExportNamedSymbol entry.name
      if symbolAddress ≠ 0 then
        applyRelocationBatch target entry.relocationBatch unresolvedSymbol true s
      else .ok (.success, s)
    else .ok (.success, s))
    (s.tables target).importNamedSymbols s

def applyModuleExport : Answer :=
  each (fun entry s =>
    if entry.name ≠ (s.tables a).name then .ok (.success, s)
    else applyModuleSymbols target a entry s)
    (s.tables target).importModules s

def resetModuleExport : Answer :=
  let unresolvedSymbol := (s.tables target).getOnUnresolvedAddress
  each (fun entry s =>
    if entry.name ≠ (s.tables a).name then .ok (.success, s)
    else
      andThen
        (each (fun im => applyRelocationBatch target im.relocationBatch unresolvedSymbol true)
          entry.importIndexedSymbols s)
        (each (fun im => applyRelocationBatch target im.relocationBatch unresolvedSymbol true)
          entry.importAnonymousSymbols))
    (s.tables target).importModules s

/-- The tables of the module at `a` with another offset of the segment 2. -/
def withDataOffset (offset : Nat) (tables : Nat → Module) : Nat → Module := fun b =>
  if b = a then { tables b with
    segments := (tables b).segments.modify 2 fun entry => { entry with offset } }
  else tables b

/-- `SetEntry` of the segment 2. -/
def setDataOffset (offset : Nat) (s : Modules) : Modules :=
  { s with tables := withDataOffset a offset s.tables }

/-- The block of `Link` that imports, with the `.data` segment moved back for that time if
`link_on_load_bug_fix`. -/
def linkImports (linkOnLoadBugFix : Bool) (s : Modules) : Answer :=
  let imports (s : Modules) : Answer :=
    andThen (applyImportNamedSymbol autoLink a s) (applyModuleImport autoLink a)
  if linkOnLoadBugFix ∧ (s.tables a).segments.length ≥ 2 then
    match (s.tables a).segments[2]? with
    | none => .error .undefinedBehaviour
    | some entry => do
      assert .croLink (entry.type = .data)
      let (result, s) ← imports (setDataOffset a (s.tables a).dataOffset s)
      .ok (result, setDataOffset a entry.offset s)
  else imports s

def link (linkOnLoadBugFix : Bool) (s : Modules) : Answer :=
  andThen (linkImports autoLink a linkOnLoadBugFix s) fun s =>
    forEachAutoLinkCRO (fun target s => do
      let (result, s) ← andThen (applyExportNamedSymbol a target s) (applyModuleExport a target)
      .ok ((result, true), s)) autoLink s

def unlink : Answer :=
  andThen (resetImportNamedSymbol a s) fun s =>
  andThen (resetImportIndexedSymbol a s) fun s =>
  andThen (resetImportAnonymousSymbol a s) fun s =>
    forEachAutoLinkCRO (fun target s => do
      let (result, s) ← andThen (resetExportNamedSymbol a target s) (resetModuleExport a target)
      .ok ((result, true), s)) autoLink s

end

end EmuThreeDS.Linking
