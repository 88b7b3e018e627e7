import EmuThreeDS.Common.Bytes
import EmuThreeDS.Kernel.HandleTable
import EmuThreeDS.Kernel.Layout
import EmuThreeDS.Kernel.Process
import EmuThreeDS.Lib.ForwardLoop

/-!
# Command buffers

`ipc.h`, `TranslateCommandBuffer` of `ipc.cpp` and the two translations of `hle_ipc.cpp`. Every
read or write of a word of a command is entered in `touched`, also where it goes beyond the words
the array has. The recorder is left out, but for the words it copies.
-/
namespace EmuThreeDS
open ForwardLoop

namespace Layout

def ipcMappingVaddr : Nat := 0x04000000
def ipcMappingSize : Nat := 0x04000000

end Layout

open Layout

variable (descriptor : Nat)

namespace IPC

def commandBufferLength : Nat := 0x100 / 4

def normalParamsSize (header : Nat) : Nat := header >>> 6 &&& 0x3F

def translateParamsSize (header : Nat) : Nat := header &&& 0x3F

/-- The value 0x30 is none of the enumeration's. -/
inductive DescriptorType where
  | staticBuffer | pxiBuffer | mappedBuffer | copyHandle | moveHandle | callingPid | unnamed
  deriving DecidableEq

def DescriptorType.value : DescriptorType → Nat
  | staticBuffer => 0x02
  | pxiBuffer => 0x04
  | mappedBuffer => 0x08
  | copyHandle => 0x00
  | moveHandle => 0x10
  | callingPid => 0x20
  | unnamed => 0x30

def isHandleDescriptor : Bool := descriptor &&& 0xF == 0

def getDescriptorType : DescriptorType :=
  if isHandleDescriptor descriptor then
    if descriptor &&& 0x30 = 0x00 then .copyHandle
    else if descriptor &&& 0x30 = 0x10 then .moveHandle
    else if descriptor &&& 0x30 = 0x20 then .callingPid
    else .unnamed
  else if descriptor &&& 0x08 ≠ 0 then .mappedBuffer
  else if descriptor &&& 0x04 ≠ 0 then .pxiBuffer
  else .staticBuffer

def handleNumberFromDesc : Nat := (descriptor >>> 26) + 1

/-- The fields of a `StaticBufferDescInfo`. -/
def staticBufferId : Nat := descriptor >>> 10 &&& 0xF

def staticBufferSize : Nat := descriptor >>> 14

def mappedBufferPerms : Nat := descriptor >>> 1 &&& 0x3

def mappedBufferSize : Nat := descriptor >>> 4

def permissionsR : Nat := 1

end IPC

open IPC

/-- What the translation uses of the memory system, for processes given by their identity. A new
buffer is host memory of its own, which has a number. -/
structure MemorySystem (M : Type) where
  readBlock (memory : M) (process address size : Nat) : Exec (List UInt8 × M)
  writeBlock (memory : M) (process address : Nat) (data : List UInt8) : Exec M
  copyBlock (memory : M) (destProcess srcProcess destAddr srcAddr size : Nat) : Exec M
  makeBuffer (memory : M) (size : Nat) : Nat × M
  fillBuffer (memory : M) (buffer : BackingMem) (offset : Nat) (data : List UInt8) : M

structure IpcProcess (O : Type) where
  processId : Nat
  handleTable : HandleTable O
  vmManager : VMManager

structure MappedBufferContext where
  permissions : Nat
  size : Nat
  sourceAddress : Nat
  targetAddress : Nat
  buffer : BackingMem
  reserveBuffer : BackingMem

def wordAt (bytes : List UInt8) (k : Nat) : Nat := leValue ((bytes.drop (4 * k)).take 4)

def wordBytes (words : Nat → Nat) (count : Nat) : List UInt8 :=
  (List.range count).flatMap fun k => leBytes 4 (words k)

/-- The arguments of `TranslateCommandBuffer`: the owners of the two threads, which both exist,
and the objects the pseudo handles stand for. -/
structure TranslateCall (O : Type) where
  srcProcess : Nat
  dstProcess : Nat
  srcThread : O
  srcProcessObject : O
  currentThread : Option O
  currentProcess : Option O
  srcAddress : Nat
  dstAddress : Nat
  reply : Bool
  shouldRecord : Bool

structure Translation (O M : Type) where
  processes : Nat → IpcProcess O
  memory : M
  mappedBufferContext : List MappedBufferContext
  cmdBuf : Nat → Nat
  touched : List Nat

abbrev Translate (O M α : Type) := Op Fault (Translation O M) α

namespace Translate

variable {O M : Type} (sys : MemorySystem M)

def readWord (i : Nat) : Translate O M Nat := do
  modify fun s => { s with touched := i :: s.touched }
  return (← get).cmdBuf i

def writeWord (i value : Nat) : Translate O M Unit :=
  modify fun s =>
    { s with touched := i :: s.touched, cmdBuf := Function.update s.cmdBuf i value }

/-- The words `[0, count)`, as a copy of the whole command touches them. -/
def touchWords (count : Nat) : Translate O M Unit :=
  modify fun s => { s with touched := List.range count ++ s.touched }

def setHandleTable (process : Nat) (table : HandleTable O) : Translate O M Unit :=
  modify fun s => { s with
    processes := Function.update s.processes process
      { s.processes process with handleTable := table } }

def setVmManager (process : Nat) (vm : VMManager) : Translate O M Unit :=
  modify fun s => { s with
    processes := Function.update s.processes process
      { s.processes process with vmManager := vm } }

def setMemory (memory : M) : Translate O M Unit := modify fun s => { s with memory := memory }

def readBlock (process address size : Nat) : Translate O M (List UInt8) := do
  let (data, memory) ← MonadExcept.ofExcept
    (sys.readBlock (← get).memory process address size)
  setMemory memory
  return data

def writeBlock (process address : Nat) (data : List UInt8) : Translate O M Unit := do
  let memory ← MonadExcept.ofExcept (sys.writeBlock (← get).memory process address data)
  setMemory memory

def getGeneric (call : TranslateCall O) (process handle : Nat) : Translate O M (Option O) := do
  return ((← get).processes process).handleTable.getGeneric handle call.currentThread
    call.currentProcess

def close (process handle : Nat) : Translate O M Unit := do
  let table := ((← get).processes process).handleTable
  setHandleTable process (table.close handle).2

def create (process : Nat) (object : O) : Translate O M (ResultVal Nat) := do
  let table := ((← get).processes process).handleTable
  setHandleTable process (table.create object).2
  return (table.create object).1

variable (call : TranslateCall O)

/-- The comparison is with the whole descriptor. -/
def closeMoved (descriptor handle : Nat) : Translate O M Unit :=
  if descriptor = DescriptorType.moveHandle.value then close call.srcProcess handle
  else pure ()

def sourceObject (descriptor handle : Nat) : Translate O M (Option O) :=
  if handle = HandleTable.currentThread then pure (some call.srcThread)
  else if handle = HandleTable.currentProcess then pure (some call.srcProcessObject)
  else if handle ≠ 0 then do
    let object ← getGeneric call call.srcProcess handle
    closeMoved call descriptor handle
    return object
  else pure none

/-- One turn of the loop over the handles of a descriptor. -/
def translateHandle (descriptor i : Nat) : Translate O M Unit := do
  let handle ← readWord i
  match ← sourceObject call descriptor handle with
  | none => writeWord i 0
  | some object => do
    let result ← create call.dstProcess object
    writeWord i (match result with | .ok handle => handle | .error _ => 0)

def translateHandles (call : TranslateCall O) (descriptor : Nat) : Nat → Nat → Translate O M Unit
  | 0, _ => pure ()
  | numHandles + 1, i => do
      translateHandle call descriptor i
      translateHandles call descriptor numHandles (i + 1)

/-- The static buffers of a thread lie behind its command buffer, each a descriptor and an
address. -/
def translateStaticBuffer (descriptor sourceAddress i : Nat) :
    Translate O M Unit := do
  let data ← readBlock sys call.srcProcess sourceAddress (staticBufferSize descriptor)
  let staticBufferOffset := commandBufferLength * 4 + 8 * staticBufferId descriptor
  let targetBuffer ←
    readBlock sys call.dstProcess (add32 call.dstAddress staticBufferOffset) 8
  MonadExcept.ofExcept
    (assert .commandBuffer (staticBufferSize (wordAt targetBuffer 0) ≥ data.length))
  writeBlock sys call.dstProcess (wordAt targetBuffer 1) data
  writeWord i (wordAt targetBuffer 1)

def matchingContext (permissions size sourceAddress : Nat) (context : MappedBufferContext) : Bool :=
  context.permissions = permissions && context.size = size && context.targetAddress = sourceAddress

def copyBack (permissions size : Nat) (found : MappedBufferContext) :
    Translate O M Unit :=
  if permissions ≠ permissionsR then do
    let memory ← MonadExcept.ofExcept (sys.copyBlock (← get).memory call.dstProcess
      call.srcProcess found.sourceAddress found.targetAddress size)
    setMemory memory
  else pure ()

def unmapBuffer (pageStart numPages : Nat) : Translate O M Unit := do
  let p := (← get).processes call.srcProcess
  let prevReserve := sub32 pageStart 0x1000
  let nextReserve := add32 pageStart (numPages * 0x1000)
  let vmas := p.vmManager.vmaMap
  let prevVma ← MonadExcept.ofExcept (VMManager.findVMA vmas prevReserve >>= VMManager.deref vmas)
  let nextVma ← MonadExcept.ofExcept (VMManager.findVMA vmas nextReserve >>= VMManager.deref vmas)
  MonadExcept.ofExcept (assert .mappedBuffer
    (prevVma.meminfoState = .reserved ∧ nextVma.meminfoState = .reserved))
  let (result, vm) ← MonadExcept.ofExcept
    (p.vmManager.unmapRange prevReserve ((numPages + 2) * 0x1000))
  setVmManager call.srcProcess vm
  MonadExcept.ofExcept (assert .mappedBuffer (result = .ok ()))

def returnMappedBuffer (permissions size sourceAddress pageStart
    numPages : Nat) : Translate O M Unit := do
  let isContext := matchingContext permissions size sourceAddress
  match (← get).mappedBufferContext.find? isContext with
  | none => throw (.assertion .mappedBuffer)
  | some found => do
    copyBack sys call permissions size found
    unmapBuffer call pageStart numPages
    modify fun s => { s with mappedBufferContext := s.mappedBufferContext.eraseP isContext }

def mapToIpcBase (process : Nat) (memory : BackingMem) (state : MemoryState) :
    Translate O M (ResultVal Nat) := do
  let p := (← get).processes process
  let (result, vm) ← MonadExcept.ofExcept (p.vmManager.mapBackingMemoryToBase ipcMappingVaddr
    ipcMappingSize ⟨some memory, 0⟩ memory.size state)
  setVmManager process vm
  return result

def makeBuffer (size : Nat) : Translate O M BackingMem := do
  let (id, memory) := sys.makeBuffer (← get).memory size
  setMemory memory
  return ⟨id, size⟩

/-- A mapped buffer of a request: a copy of the bytes, between two reserved pages. The results
for these two are ignored. -/
def sendMappedBuffer (permissions size sourceAddress pageOffset numPages
    i : Nat) : Translate O M Unit := do
  let reserveBuffer ← makeBuffer sys 0x1000
  let _ ← mapToIpcBase call.dstProcess reserveBuffer .reserved
  let buffer ← makeBuffer sys (numPages * 0x1000)
  let data ← readBlock sys call.srcProcess sourceAddress size
  setMemory (sys.fillBuffer (← get).memory buffer pageOffset data)
  match ← mapToIpcBase call.dstProcess buffer .shared with
  | .error _ => throw (.assertion .unwrap)
  | .ok targetAddress => do
    writeWord i (add32 targetAddress pageOffset)
    let _ ← mapToIpcBase call.dstProcess reserveBuffer .reserved
    let context : MappedBufferContext :=
      { permissions := permissions
        size := size
        sourceAddress := sourceAddress
        targetAddress := add32 targetAddress pageOffset
        buffer := buffer
        reserveBuffer := reserveBuffer }
    modify fun s => { s with mappedBufferContext := s.mappedBufferContext ++ [context] }

def translateMappedBuffer (descriptor sourceAddress i : Nat) :
    Translate O M Unit := do
  let size := mappedBufferSize descriptor
  let permissions := mappedBufferPerms descriptor
  let pageOffset := sourceAddress % 0x1000
  let pageStart := sourceAddress - pageOffset
  let numPages := (pageOffset + size + 0xFFF) / 0x1000
  if size = 0 then writeWord i 0
  else do
    MonadExcept.ofExcept (assert .mappedBuffer (numPages ≥ 1))
    if call.reply then
      returnMappedBuffer sys call permissions size sourceAddress pageStart numPages
    else
      sendMappedBuffer sys call permissions size sourceAddress pageOffset numPages i

/-- What follows a descriptor, from the word `i` on. The answer is where the next one stands; an
error ends the translation. -/
def translateOperands (commandSize descriptor i : Nat) :
    Translate O M (ResultVal Nat) :=
  match getDescriptorType descriptor with
  | .copyHandle | .moveHandle =>
    let numHandles := handleNumberFromDesc descriptor
    if i + numHandles > commandSize then return .error .commandTooLarge
    else do
      translateHandles call descriptor numHandles i
      return .ok (i + numHandles)
  | .callingPid => do
    writeWord i ((← get).processes call.srcProcess).processId
    return .ok (i + 1)
  | .staticBuffer => do
    let sourceAddress ← readWord i
    translateStaticBuffer sys call descriptor sourceAddress i
    return .ok (i + 1)
  | .mappedBuffer => do
    let sourceAddress ← readWord i
    translateMappedBuffer sys call descriptor sourceAddress i
    return .ok (i + 1)
  | .pxiBuffer | .unnamed => return .ok i

/-- A turn of the loop over the descriptors. -/
def translateDescriptor (commandSize i : Nat) :
    Translate O M (ResultVal Nat) := do
  let descriptor ← readWord i
  translateOperands sys call commandSize descriptor (i + 1)

/-- The recorder copies the words. -/
def recordWords (commandSize : Nat) : Translate O M Unit :=
  if call.shouldRecord then touchWords commandSize else pure ()

def loadWords (commandSize : Nat) : Translate O M Unit := do
  MonadExcept.ofExcept (assert .commandBuffer (commandSize ≤ commandBufferLength))
  let words ← readBlock sys call.srcProcess call.srcAddress (commandSize * 4)
  touchWords commandSize
  modify fun s => { s with
    cmdBuf := fun k => if k < commandSize then wordAt words k else s.cmdBuf k }
  recordWords call commandSize

/-- The header and then the whole command are read; its first words are not translated. -/
def loadCommand : Translate O M (Nat × Nat) := do
  let header ← readBlock sys call.srcProcess call.srcAddress 4
  let untranslatedSize := 1 + normalParamsSize (wordAt header 0)
  let commandSize := untranslatedSize + translateParamsSize (wordAt header 0)
  loadWords sys call commandSize
  return (untranslatedSize, commandSize)

def translateLoaded (untranslatedSize commandSize : Nat) :
    Translate O M (ResultVal Unit) := do
  match ← loop .outOfFuel (translateDescriptor sys call commandSize) commandSize
      (commandSize + 1) untranslatedSize with
  | .error e => return .error e
  | .ok () => do
    recordWords call commandSize
    touchWords commandSize
    writeBlock sys call.dstProcess call.dstAddress (wordBytes (← get).cmdBuf commandSize)
    return .ok ()

def translateCommandBuffer : Translate O M (ResultVal Unit) := do
  let (untranslatedSize, commandSize) ← loadCommand sys call
  translateLoaded sys call untranslatedSize commandSize

end Translate
end EmuThreeDS
