import EmuThreeDS.LdrRo.Linking
import Mathlib.Data.Fin.VecNotation

/-!
# Rebasing of a module (`CROHelper::Rebase`)

The image is bytes of the process here: before it is rebased, nothing says that its tables are
where its header puts them, or that they are apart.
-/
namespace EmuThreeDS.Rebasing

open Linking (RelocationType ExportTreeEntry)

inductive ResultCode where
  | bufferTooSmall
  | croFormatError (description : Nat)

abbrev Method := ExceptT ResultCode (StateT ProcessBytes Exec)

/-- `if (!p) return error;` -/
def require (error : ResultCode) (p : Prop) [Decidable p] : Method Unit :=
  if p then pure () else throw error

def fault {α : Type} (e : Fault) : Method α := (fun _ => .error e : StateT ProcessBytes Exec _)

/-- `for (u32 i = 0; i < num; ++i)` with a variable that the body sets. -/
def loop {β : Type} (num : Nat) (init : β) (body : β → Nat → Method β) : Method β :=
  (List.range num).foldlM body init

/-- The tables of a header in the order of their fields, from `CodeOffset` to `Fix0Barrier`. -/
inductive Table where
  | code | data | moduleName | segment
  | exportNamedSymbol | exportIndexedSymbol | exportStrings | exportTree
  | importModule | externalRelocation | importNamedSymbol | importIndexedSymbol
  | importAnonymousSymbol | importStrings
  | staticAnonymousSymbol | internalRelocation | staticRelocation
  deriving DecidableEq

def Table.offsetField : Table → HeaderField
  | code => .codeOffset
  | data => .dataOffset
  | moduleName => .moduleNameOffset
  | segment => .segmentTableOffset
  | exportNamedSymbol => .exportNamedSymbolTableOffset
  | exportIndexedSymbol => .exportIndexedSymbolTableOffset
  | exportStrings => .exportStringsOffset
  | exportTree => .exportTreeTableOffset
  | importModule => .importModuleTableOffset
  | externalRelocation => .externalRelocationTableOffset
  | importNamedSymbol => .importNamedSymbolTableOffset
  | importIndexedSymbol => .importIndexedSymbolTableOffset
  | importAnonymousSymbol => .importAnonymousSymbolTableOffset
  | importStrings => .importStringsOffset
  | staticAnonymousSymbol => .staticAnonymousSymbolTableOffset
  | internalRelocation => .internalRelocationTableOffset
  | staticRelocation => .staticRelocationTableOffset

def Table.sizeField : Table → HeaderField
  | code => .codeSize
  | data => .dataSize
  | moduleName => .moduleNameSize
  | segment => .segmentNum
  | exportNamedSymbol => .exportNamedSymbolNum
  | exportIndexedSymbol => .exportIndexedSymbolNum
  | exportStrings => .exportStringsSize
  | exportTree => .exportTreeNum
  | importModule => .importModuleNum
  | externalRelocation => .externalRelocationNum
  | importNamedSymbol => .importNamedSymbolNum
  | importIndexedSymbol => .importIndexedSymbolNum
  | importAnonymousSymbol => .importAnonymousSymbolNum
  | importStrings => .importStringsSize
  | staticAnonymousSymbol => .staticAnonymousSymbolNum
  | internalRelocation => .internalRelocationNum
  | staticRelocation => .staticRelocationNum

def Table.entrySize : Table → Nat
  | code | data | moduleName | exportStrings | importStrings => 1
  | segment => 12
  | exportNamedSymbol => 8
  | exportIndexedSymbol => 4
  | exportTree => 8
  | importModule => 20
  | externalRelocation => 12
  | importNamedSymbol | importIndexedSymbol | importAnonymousSymbol => 8
  | staticAnonymousSymbol => 8
  | internalRelocation | staticRelocation => 12

def tables : List Table :=
  [.code, .data, .moduleName, .segment, .exportNamedSymbol, .exportIndexedSymbol, .exportStrings,
    .exportTree, .importModule, .externalRelocation, .importNamedSymbol, .importIndexedSymbol,
    .importAnonymousSymbol, .importStrings, .staticAnonymousSymbol, .internalRelocation,
    .staticRelocation]

/-- An entry is some words (`sizeof(T) / 4`). -/
class Entry (T : Type) where
  words : Nat
  decode : (Fin words → Nat) → T

class WritableEntry (T : Type) extends Entry T where
  encode : T → Fin words → Nat

def readWords {n : Nat} (m : ProcessBytes) (address : Nat) : Fin n → Nat := fun i =>
  m.read32 (address + 4 * i)

def writeWords {n : Nat} (m : ProcessBytes) (address : Nat) (words : Fin n → Nat) : ProcessBytes :=
  fun b =>
    if h : address ≤ b ∧ b < address + 4 * n then
      (leBytes 4 (words ⟨(b - address) / 4, by omega⟩)).getD ((b - address) % 4) 0
    else m b

def read {T : Type} [Entry T] (m : ProcessBytes) (address : Nat) : T :=
  Entry.decode (readWords m address)

def write {T : Type} [WritableEntry T] (m : ProcessBytes) (address : Nat) (entry : T) :
    ProcessBytes :=
  writeWords m address (WritableEntry.encode entry)

def segmentTypeData : Nat := 2

def segmentTypeBSS : Nat := 3

def segmentIndex (tag : Nat) : Nat := tag % 16

def offsetIntoSegment (tag : Nat) : Nat := tag / 16

structure SegmentEntry where
  offset : Nat
  size : Nat
  type : Nat

instance : WritableEntry SegmentEntry where
  words := 3
  decode w := ⟨w 0, w 1, w 2⟩
  encode e := ![e.offset, e.size, e.type]

structure ExportNamedSymbolEntry where
  nameOffset : Nat
  symbolPosition : Nat

instance : WritableEntry ExportNamedSymbolEntry where
  words := 2
  decode w := ⟨w 0, w 1⟩
  encode e := ![e.nameOffset, e.symbolPosition]

/-- Four `u16`; the highest bit of a child is `is_end`. -/
instance : Entry ExportTreeEntry where
  words := 2
  decode w :=
    let child (raw : Nat) : Linking.Child := ⟨raw % 32768, raw / 32768 == 1⟩
    ⟨w 0 % 65536, child (w 0 / 65536), child (w 1 % 65536), w 1 / 65536⟩

structure ImportNamedSymbolEntry where
  nameOffset : Nat
  relocationBatchOffset : Nat

instance : WritableEntry ImportNamedSymbolEntry where
  words := 2
  decode w := ⟨w 0, w 1⟩
  encode e := ![e.nameOffset, e.relocationBatchOffset]

structure ImportIndexedSymbolEntry where
  index : Nat
  relocationBatchOffset : Nat

instance : WritableEntry ImportIndexedSymbolEntry where
  words := 2
  decode w := ⟨w 0, w 1⟩
  encode e := ![e.index, e.relocationBatchOffset]

structure ImportAnonymousSymbolEntry where
  symbolPosition : Nat
  relocationBatchOffset : Nat

instance : WritableEntry ImportAnonymousSymbolEntry where
  words := 2
  decode w := ⟨w 0, w 1⟩
  encode e := ![e.symbolPosition, e.relocationBatchOffset]

structure ImportModuleEntry where
  nameOffset : Nat
  importIndexedSymbolTableOffset : Nat
  importIndexedSymbolNum : Nat
  importAnonymousSymbolTableOffset : Nat
  importAnonymousSymbolNum : Nat

instance : WritableEntry ImportModuleEntry where
  words := 5
  decode w := ⟨w 0, w 1, w 2, w 3, w 4⟩
  encode e := ![e.nameOffset, e.importIndexedSymbolTableOffset, e.importIndexedSymbolNum,
    e.importAnonymousSymbolTableOffset, e.importAnonymousSymbolNum]

structure RelocationEntry where
  targetPosition : Nat
  type : Nat
  isBatchEnd : Nat
  isBatchResolved : Nat
  padding : Nat
  addend : Nat

instance : WritableEntry RelocationEntry where
  words := 3
  decode w :=
    ⟨w 0, w 1 % 256, w 1 / 256 % 256, w 1 / 65536 % 256, w 1 / 16777216, w 2⟩
  encode e :=
    ![e.targetPosition,
      e.type + 256 * e.isBatchEnd + 65536 * e.isBatchResolved + 16777216 * e.padding, e.addend]

structure InternalRelocationEntry where
  targetPosition : Nat
  type : Nat
  symbolSegment : Nat
  addend : Nat

instance : Entry InternalRelocationEntry where
  words := 3
  decode w := ⟨w 0, w 1 % 256, w 1 / 256 % 256, w 2⟩

structure StaticAnonymousSymbolEntry where
  symbolPosition : Nat
  relocationBatchOffset : Nat

instance : Entry StaticAnonymousSymbolEntry where
  words := 2
  decode w := ⟨w 0, w 1⟩

def relocationType : Nat → RelocationType
  | 0 => .nothing
  | 2 => .absoluteAddress
  | 3 => .relativeAddress
  | 10 => .thumbBranch
  | 28 => .armBranch
  | 29 => .modifyArmBranch
  | 38 => .absoluteAddress2
  | 42 => .alignedRelativeAddress
  | _ => .other

variable (m : ProcessBytes) (a : Nat)

def entryAddress (table : Table) (index : Nat) : Nat :=
  add32 (CROHelper.getField m a table.offsetField) (index * table.entrySize % 0x100000000)

def entryAt (T : Type) [Entry T] (m : ProcessBytes) (a : Nat) (table : Table) (index : Nat) : T :=
  read m (entryAddress m a table index)

def getField (a : Nat) (field : HeaderField) : Method Nat :=
  return CROHelper.getField (← get) a field

def setField (a : Nat) (field : HeaderField) (value : Nat) : Method Unit :=
  modify fun m => CROHelper.setField m a field value

def getEntry (T : Type) [Entry T] (a : Nat) (table : Table) (index : Nat) : Method T :=
  return entryAt T (← get) a table index

def setEntry {T : Type} [WritableEntry T] (a : Nat) (table : Table) (index : Nat) (entry : T) :
    Method Unit :=
  modify fun m => write m (entryAddress m a table index) entry

def segmentTagToAddress (a tag : Nat) : Nat :=
  if segmentIndex tag ≥ CROHelper.getField m a .segmentNum then 0
  else
    let entry := entryAt SegmentEntry m a .segment (segmentIndex tag)
    if offsetIntoSegment tag ≥ entry.size then 0 else add32 entry.offset (offsetIntoSegment tag)

def applyRelocation (targetAddress type addend symbolAddress targetFutureAddress : Nat) :
    Method Unit := do
  let (result, m) := Linking.applyRelocation (← get) targetAddress (relocationType type) addend
    symbolAddress targetFutureAddress
  set m
  match result with
  | .success => pure ()
  | .croFormatError description => throw (.croFormatError description)

def applyEntries (a symbolAddress : Nat) : Nat → Nat → Method Unit
  | 0, _ => fault .outOfFuel
  | fuel + 1, relocationAddress => do
    let m ← get
    let relocation : RelocationEntry := read m relocationAddress
    let relocationTarget := segmentTagToAddress m a relocation.targetPosition
    require (.croFormatError 0x12) (relocationTarget ≠ 0)
    applyRelocation relocationTarget relocation.type relocation.addend symbolAddress
      relocationTarget
    if relocation.isBatchEnd ≠ 0 then pure ()
    else applyEntries a symbolAddress fuel (add32 relocationAddress 12)

def applyRelocationBatch (fuel a batch symbolAddress : Nat) (reset : Bool) : Method Unit := do
  require (.croFormatError 0x10) (¬ (symbolAddress = 0 ∧ !reset))
  applyEntries a symbolAddress fuel batch
  modify fun m =>
    let relocation : RelocationEntry := read m batch
    write m batch { relocation with isBatchResolved := if reset then 0 else 1 }

def readCString (m : ProcessBytes) : Nat → Nat → List UInt8
  | _, 0 => []
  | address, maxLength + 1 =>
    if m address = 0 then [] else m address :: readCString m (add32 address 1) maxLength

def searchTree (m : ProcessBytes) (a : Nat) (name : List UInt8) : Nat → Linking.Child → Method Nat
  | 0, _ => fault .outOfFuel
  | fuel + 1, next =>
    let entry := entryAt ExportTreeEntry m a .exportTree next.nextIndex
    if next.isEnd then pure entry.exportTableIndex
    else searchTree m a name fuel (entry.child name)

def findExportNamedSymbol (fuel a : Nat) (name : List UInt8) : Method Nat := do
  let m ← get
  if CROHelper.getField m a .exportTreeNum = 0 then pure 0
  else
    let root := entryAt ExportTreeEntry m a .exportTree 0
    let foundId ← searchTree m a name fuel root.left
    if foundId ≥ CROHelper.getField m a .exportNamedSymbolNum then pure 0
    else
      let symbolEntry := entryAt ExportNamedSymbolEntry m a .exportNamedSymbol foundId
      let exportStringsSize := CROHelper.getField m a .exportStringsSize
      if readCString m symbolEntry.nameOffset exportStringsSize ≠ name then pure 0
      else pure (segmentTagToAddress m a symbolEntry.symbolPosition)

def forEachAutoLinkCRO (func : Nat → Method Bool) : Nat → Nat → Method Unit
  | 0, _ => fault .outOfFuel
  | fuel + 1, current =>
    if current = 0 then pure ()
    else do
      let next ← func current
      let nextModule ← getField current .nextCRO
      if next then forEachAutoLinkCRO func fuel nextModule else pure ()

def magicCRO0 : Nat := 0x304F5243

def offsetOrder : List HeaderField :=
  [.codeOffset, .moduleNameOffset, .segmentTableOffset, .exportNamedSymbolTableOffset,
    .exportTreeTableOffset, .exportIndexedSymbolTableOffset, .exportStringsOffset,
    .importModuleTableOffset, .externalRelocationTableOffset, .importNamedSymbolTableOffset,
    .importIndexedSymbolTableOffset, .importAnonymousSymbolTableOffset, .importStringsOffset,
    .staticAnonymousSymbolTableOffset, .internalRelocationTableOffset,
    .staticRelocationTableOffset, .dataOffset, .fileSize]

def rebaseField (field : HeaderField) : Method Unit := do
  let offset ← getField a field
  if offset ≠ 0 then setField a field (add32 offset a) else pure ()

def tableEnd (table : Table) : Nat :=
  add32 (CROHelper.getField m a table.offsetField)
    (CROHelper.getField m a table.sizeField * table.entrySize % 0x100000000)

def rebaseHeader (a croSize : Nat) : Method Unit := do
  let error := ResultCode.croFormatError 0x11
  let m ← get
  require error (CROHelper.getField m a .magic = magicCRO0)
  require error (CROHelper.getField m a .nextCRO = 0 ∧ CROHelper.getField m a .previousCRO = 0)
  require error (CROHelper.getField m a .fileSize ≤ 0x10000000 ∧
    CROHelper.getField m a .bssSize ≤ 0x10000000)
  require error (CROHelper.getField m a .fixedSize = 0)
  require error (CROHelper.getField m a .codeOffset ≥ croHeaderSize)
  require error ((offsetOrder.map (CROHelper.getField m a)).IsChain (· ≤ ·))
  (HeaderField.nameOffset :: tables.map Table.offsetField).forM (rebaseField a)
  let m ← get
  require error (∀ table ∈ tables, tableEnd m a table ≤ add32 a croSize)

def verifyStringTableLength (address size : Nat) : Method Unit := do
  let m ← get
  require (.croFormatError 0x0B) (size ≠ 0 → m (sub32 (add32 address size) 1) = 0)

/-- The loop over a table whose entries are read, changed and written back; `note` is what the
loop remembers of an entry. -/
def rebaseEntries {T β : Type} [WritableEntry T] (a : Nat) (table : Table)
    (rebaseEntry : T → Except ResultCode T) (note : β → T → β) (init : β) : Method β := do
  let num ← getField a table.sizeField
  loop num init fun noted i => do
    let entry ← getEntry T a table i
    let rebased ← liftExcept (rebaseEntry entry)
    setEntry a table i rebased
    pure (note noted entry)
where
  liftExcept (x : Except ResultCode T) : Method T := ExceptT.mk (pure x)

/-- The buffers that the caller gives for the `.data` and `.bss` segments. -/
structure Buffers where
  dataAddress : Nat
  dataSize : Nat
  bssAddress : Nat
  bssSize : Nat

def rebaseSegment (a croSize : Nat) (buffers : Buffers) (segment : SegmentEntry) :
    Except ResultCode SegmentEntry :=
  if segment.type = segmentTypeData then
    if segment.size ≠ 0 then
      if segment.size > buffers.dataSize then .error .bufferTooSmall
      else .ok { segment with offset := buffers.dataAddress }
    else .ok segment
  else if segment.type = segmentTypeBSS then
    if segment.size ≠ 0 then
      if segment.size > buffers.bssSize then .error .bufferTooSmall
      else .ok { segment with offset := buffers.bssAddress }
    else .ok segment
  else if segment.offset ≠ 0 then
    if add32 segment.offset a > add32 a croSize then .error (.croFormatError 0x19)
    else .ok { segment with offset := add32 segment.offset a }
  else .ok segment

/-- `prev_data_segment` after a segment. -/
def noteDataSegment (prev : Nat) (segment : SegmentEntry) : Nat :=
  if segment.type = segmentTypeData ∧ segment.size ≠ 0 then segment.offset else prev

def rebaseSegmentTable (a croSize : Nat) (buffers : Buffers) : Method Nat := do
  let prev ← rebaseEntries a .segment (rebaseSegment a croSize buffers) noteDataSegment 0
  return add32 prev a

/-- A name offset, which must be in a string table unless it is 0. -/
def rebaseName (a stringsOffset stringsEnd description offset : Nat) : Except ResultCode Nat :=
  if offset = 0 then .ok 0
  else if add32 offset a < stringsOffset ∨ add32 offset a ≥ stringsEnd then
    .error (.croFormatError description)
  else .ok (add32 offset a)

/-- An offset into another table, which may be the end of that table, unless it is 0. -/
def rebaseReference (a tableOffset tableEnd description offset : Nat) : Except ResultCode Nat :=
  if offset = 0 then .ok 0
  else if add32 offset a < tableOffset ∨ add32 offset a > tableEnd then
    .error (.croFormatError description)
  else .ok (add32 offset a)

def rebaseTable {T : Type} [WritableEntry T] (a : Nat) (table : Table)
    (rebaseEntry : T → Except ResultCode T) : Method Unit :=
  rebaseEntries a table rebaseEntry (fun _ _ => ()) ()

def rebaseExportNamedSymbol (entry : ExportNamedSymbolEntry) :
    Except ResultCode ExportNamedSymbolEntry := do
  let nameOffset ← rebaseName a (CROHelper.getField m a .exportStringsOffset)
    (tableEnd m a .exportStrings) 0x11 entry.nameOffset
  return { entry with nameOffset }

def rebaseExportNamedSymbolTable : Method Unit := do
  let m ← get
  rebaseTable a .exportNamedSymbol (rebaseExportNamedSymbol m a)

def verifyExportTreeTable : Method Unit := do
  let m ← get
  let treeNum := CROHelper.getField m a .exportTreeNum
  loop treeNum () fun _ i =>
    let entry := entryAt ExportTreeEntry m a .exportTree i
    require (.croFormatError 0x11)
      (¬ (entry.left.nextIndex ≥ treeNum ∨ entry.right.nextIndex ≥ treeNum))

def rebaseImportModule (entry : ImportModuleEntry) :
    Except ResultCode ImportModuleEntry := do
  let nameOffset ← rebaseName a (CROHelper.getField m a .importStringsOffset)
    (tableEnd m a .importStrings) 0x18 entry.nameOffset
  let importIndexedSymbolTableOffset ← rebaseReference a
    (CROHelper.getField m a .importIndexedSymbolTableOffset) (tableEnd m a .importIndexedSymbol)
    0x18 entry.importIndexedSymbolTableOffset
  let importAnonymousSymbolTableOffset ← rebaseReference a
    (CROHelper.getField m a .importAnonymousSymbolTableOffset)
    (tableEnd m a .importAnonymousSymbol) 0x18 entry.importAnonymousSymbolTableOffset
  return { entry with
    nameOffset, importIndexedSymbolTableOffset, importAnonymousSymbolTableOffset }

def rebaseImportModuleTable : Method Unit := do
  let m ← get
  rebaseTable a .importModule (rebaseImportModule m a)

def rebaseBatch (a description offset : Nat) : Except ResultCode Nat :=
  rebaseReference a (CROHelper.getField m a .externalRelocationTableOffset)
    (tableEnd m a .externalRelocation) description offset

def rebaseImportNamedSymbol (entry : ImportNamedSymbolEntry) :
    Except ResultCode ImportNamedSymbolEntry := do
  let nameOffset ← rebaseName a (CROHelper.getField m a .importStringsOffset)
    (tableEnd m a .importStrings) 0x1B entry.nameOffset
  let relocationBatchOffset ← rebaseBatch m a 0x1B entry.relocationBatchOffset
  return { nameOffset, relocationBatchOffset }

def rebaseImportNamedSymbolTable : Method Unit := do
  let m ← get
  rebaseTable a .importNamedSymbol (rebaseImportNamedSymbol m a)

def rebaseImportIndexedSymbol (entry : ImportIndexedSymbolEntry) :
    Except ResultCode ImportIndexedSymbolEntry := do
  let relocationBatchOffset ← rebaseBatch m a 0x14 entry.relocationBatchOffset
  return { entry with relocationBatchOffset }

def rebaseImportIndexedSymbolTable : Method Unit := do
  let m ← get
  rebaseTable a .importIndexedSymbol (rebaseImportIndexedSymbol m a)

def rebaseImportAnonymousSymbol
    (entry : ImportAnonymousSymbolEntry) : Except ResultCode ImportAnonymousSymbolEntry := do
  let relocationBatchOffset ← rebaseBatch m a 0x17 entry.relocationBatchOffset
  return { entry with relocationBatchOffset }

def rebaseImportAnonymousSymbolTable : Method Unit := do
  let m ← get
  rebaseTable a .importAnonymousSymbol (rebaseImportAnonymousSymbol m a)

def resetExternalRelocations : Method Unit := do
  let m ← get
  let unresolvedSymbol :=
    segmentTagToAddress m a (CROHelper.getField m a .onUnresolvedSegmentTag)
  let num := CROHelper.getField m a .externalRelocationNum
  let last := entryAt RelocationEntry m a .externalRelocation (sub32 num 1)
  require (.croFormatError 0x12) (last.isBatchEnd ≠ 0)
  let _ ← loop num true fun batchBegin i => do
    let m ← get
    let relocation := entryAt RelocationEntry m a .externalRelocation i
    let relocationTarget := segmentTagToAddress m a relocation.targetPosition
    require (.croFormatError 0x12) (relocationTarget ≠ 0)
    applyRelocation relocationTarget relocation.type relocation.addend unresolvedSymbol
      relocationTarget
    if batchBegin then
      setEntry a .externalRelocation i { relocation with isBatchResolved := 0 }
    else pure ()
    pure (relocation.isBatchEnd != 0)

def applyStaticAnonymousSymbolToCRS (fuel a crs : Nat) : Method Unit := do
  let m ← get
  let tableOffset := CROHelper.getField m a .staticRelocationTableOffset
  let tableEnd := tableEnd m a .staticRelocation
  loop (CROHelper.getField m a .staticAnonymousSymbolNum) () fun _ i => do
    let m ← get
    let entry := entryAt StaticAnonymousSymbolEntry m a .staticAnonymousSymbol i
    let batchAddress := add32 entry.relocationBatchOffset a
    require (.croFormatError 0x16) (¬ (batchAddress < tableOffset ∨ batchAddress > tableEnd))
    applyRelocationBatch fuel crs batchAddress (segmentTagToAddress m a entry.symbolPosition) false

def applyInternalRelocations (a oldDataSegmentAddress : Nat) : Method Unit := do
  let segmentNum ← getField a .segmentNum
  let num ← getField a .internalRelocationNum
  loop num () fun _ i => do
    let m ← get
    let relocation := entryAt InternalRelocationEntry m a .internalRelocation i
    let targetAddressB := segmentTagToAddress m a relocation.targetPosition
    require (.croFormatError 0x15) (targetAddressB ≠ 0)
    let targetSegment :=
      entryAt SegmentEntry m a .segment (segmentIndex relocation.targetPosition)
    let targetAddress :=
      if targetSegment.type = segmentTypeData then
        add32 oldDataSegmentAddress (offsetIntoSegment relocation.targetPosition)
      else targetAddressB
    require (.croFormatError 0x15) (relocation.symbolSegment < segmentNum)
    let symbolSegment := entryAt SegmentEntry m a .segment relocation.symbolSegment
    applyRelocation targetAddress relocation.type relocation.addend symbolSegment.offset
      targetAddressB

def aeabiAtexit : List UInt8 :=
  ['_', '_', 'a', 'e', 'a', 'b', 'i', '_', 'a', 't', 'e', 'x', 'i', 't'].map (·.toNat.toUInt8)

def nnroAeabiAtexit : List UInt8 :=
  ['n', 'n', 'r', 'o', 'A', 'e', 'a', 'b', 'i', 'A', 't', 'e', 'x', 'i', 't', '_'].map
    (·.toNat.toUInt8)

def applyExitRelocations (fuel a crs : Nat) : Method Unit := do
  let importStringsSize ← getField a .importStringsSize
  let num ← getField a .importNamedSymbolNum
  loop num () fun _ i => do
    let m ← get
    let entry := entryAt ImportNamedSymbolEntry m a .importNamedSymbol i
    if readCString m entry.nameOffset importStringsSize = aeabiAtexit then
      forEachAutoLinkCRO (fun source => do
        let symbolAddress ← findExportNamedSymbol fuel source nnroAeabiAtexit
        if symbolAddress ≠ 0 then do
          applyRelocationBatch fuel a entry.relocationBatchOffset symbolAddress false
          pure false
        else pure true) fuel crs
    else pure ()

/-- The part of `Rebase` that is only for a module that is not the static one. -/
def unlessCRS {β : Type} (isCRS : Bool) (default : β) (x : Method β) : Method β :=
  if isCRS then pure default else x

/-- `fuel` bounds the loops over batches, trees and the list of modules, which nothing in the
image does. -/
def rebase (fuel a crs croSize : Nat) (buffers : Buffers) (isCRS : Bool) : Method Unit := do
  rebaseHeader a croSize
  verifyStringTableLength (← getField a .moduleNameOffset) (← getField a .moduleNameSize)
  let prevDataSegmentAddress ← unlessCRS isCRS 0 (rebaseSegmentTable a croSize buffers)
  rebaseExportNamedSymbolTable a
  verifyExportTreeTable a
  verifyStringTableLength (← getField a .exportStringsOffset) (← getField a .exportStringsSize)
  rebaseImportModuleTable a
  resetExternalRelocations a
  rebaseImportNamedSymbolTable a
  rebaseImportIndexedSymbolTable a
  rebaseImportAnonymousSymbolTable a
  verifyStringTableLength (← getField a .importStringsOffset) (← getField a .importStringsSize)
  unlessCRS isCRS () (applyStaticAnonymousSymbolToCRS fuel a crs)
  applyInternalRelocations a prevDataSegmentAddress
  unlessCRS isCRS () (applyExitRelocations fuel a crs)

end EmuThreeDS.Rebasing
