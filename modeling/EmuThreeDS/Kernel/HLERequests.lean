import EmuThreeDS.Kernel.CommandBuffers

/-!
# Requests to HLE services

The two translations of `HLERequestContext`. `clientBuf` is the copy of the client's command
buffer that they are given, with the static buffers behind it.
-/
namespace EmuThreeDS
open ForwardLoop IPC

structure MappedBuffer where
  id : Nat
  address : Nat
  size : Nat
  perms : Nat

structure RequestCall (O : Type) where
  client : Nat
  currentThread : Option O
  currentProcess : Option O
  shouldRecord : Bool

structure HLERequest (O M : Type) where
  clientBuf : Nat → Nat
  cmdBuf : Nat → Nat
  requestHandles : List (Option O)
  staticBuffers : Nat → List UInt8
  requestMappedBuffers : List MappedBuffer
  process : IpcProcess O
  memory : M
  touched : List Nat

abbrev HLE (O M α : Type) := Op Fault (HLERequest O M) α

namespace HLE

variable {O M : Type} (sys : MemorySystem M)

def readClient (i : Nat) : HLE O M Nat := do
  modify fun s => { s with touched := i :: s.touched }
  return (← get).clientBuf i

def writeClient (i value : Nat) : HLE O M Unit :=
  modify fun s =>
    { s with touched := i :: s.touched, clientBuf := Function.update s.clientBuf i value }

def readCommand (i : Nat) : HLE O M Nat := do
  modify fun s => { s with touched := i :: s.touched }
  return (← get).cmdBuf i

def writeCommand (i value : Nat) : HLE O M Unit :=
  modify fun s =>
    { s with touched := i :: s.touched, cmdBuf := Function.update s.cmdBuf i value }

def touchWords (count : Nat) : HLE O M Unit :=
  modify fun s => { s with touched := List.range count ++ s.touched }

def setTable (table : HandleTable O) : HLE O M Unit :=
  modify fun s => { s with process := { s.process with handleTable := table } }

def setMemory (memory : M) : HLE O M Unit := modify fun s => { s with memory := memory }

def readBlock (process address size : Nat) : HLE O M (List UInt8) := do
  let (data, memory) ← MonadExcept.ofExcept
    (sys.readBlock (← get).memory process address size)
  setMemory memory
  return data

def writeBlock (process address : Nat) (data : List UInt8) : HLE O M Unit := do
  let memory ← MonadExcept.ofExcept (sys.writeBlock (← get).memory process address data)
  setMemory memory

variable (call : RequestCall O)

def recordWords (commandSize : Nat) : HLE O M Unit :=
  if call.shouldRecord then touchWords commandSize else pure ()

def commandSizes (header : Nat) : Exec (Nat × Nat) := do
  let untranslatedSize := 1 + normalParamsSize header
  let commandSize := untranslatedSize + translateParamsSize header
  assert .commandBuffer (commandSize ≤ commandBufferLength)
  return (untranslatedSize, commandSize)

def startCommand (header : HLE O M Nat)
    (copy : Nat → HLERequest O M → HLERequest O M) : HLE O M (Nat × Nat) := do
  let (untranslatedSize, commandSize) ← MonadExcept.ofExcept (commandSizes (← header))
  touchWords untranslatedSize
  modify (copy untranslatedSize)
  recordWords call commandSize
  return (untranslatedSize, commandSize)

def addOutgoingHandle (object : Option O) : HLE O M Nat := do
  let id := (← get).requestHandles.length
  modify fun s => { s with requestHandles := s.requestHandles ++ [object] }
  return id

def closeMoved (descriptor handle : Nat) : HLE O M Unit := do
  let table := (← get).process.handleTable
  if descriptor = DescriptorType.moveHandle.value then setTable (table.close handle).2
  else pure ()

def clientObject (descriptor handle : Nat) : HLE O M (Option O) :=
  if handle ≠ 0 then do
    let table := (← get).process.handleTable
    let object := table.getGeneric handle call.currentThread call.currentProcess
    MonadExcept.ofExcept (assert .commandBuffer (object.isSome = true))
    closeMoved descriptor handle
    return object
  else pure none

def populateHandle (descriptor i : Nat) : HLE O M Unit := do
  let handle ← readClient i
  let object ← clientObject call descriptor handle
  let id ← addOutgoingHandle object
  writeCommand i id

def populateHandles (call : RequestCall O) (descriptor : Nat) : Nat → Nat → HLE O M Unit
  | 0, _ => pure ()
  | numHandles + 1, i => do
      populateHandle call descriptor i
      populateHandles call descriptor numHandles (i + 1)

def populateStaticBuffer (descriptor sourceAddress i : Nat) :
    HLE O M Unit := do
  let data ← readBlock sys call.client sourceAddress (staticBufferSize descriptor)
  modify fun s => { s with
    staticBuffers := Function.update s.staticBuffers (staticBufferId descriptor) data }
  writeCommand i sourceAddress

def populateMappedBuffer (descriptor address i : Nat) : HLE O M Unit := do
  let nextId := (← get).requestMappedBuffers.length
  let buffer : MappedBuffer :=
    { id := nextId
      address := address
      size := mappedBufferSize descriptor
      perms := mappedBufferPerms descriptor }
  modify fun s => { s with requestMappedBuffers := s.requestMappedBuffers ++ [buffer] }
  writeCommand i nextId

def populateOperands (commandSize descriptor i : Nat) :
    HLE O M (ResultVal Nat) :=
  match getDescriptorType descriptor with
  | .copyHandle | .moveHandle => do
    let numHandles := handleNumberFromDesc descriptor
    MonadExcept.ofExcept (assert .commandBuffer (i + numHandles ≤ commandSize))
    populateHandles call descriptor numHandles i
    return .ok (i + numHandles)
  | .callingPid => do
    writeCommand i (← get).process.processId
    return .ok (i + 1)
  | .staticBuffer => do
    let sourceAddress ← readClient i
    populateStaticBuffer sys call descriptor sourceAddress i
    return .ok (i + 1)
  | .mappedBuffer => do
    let address ← readClient i
    populateMappedBuffer descriptor address i
    return .ok (i + 1)
  | .pxiBuffer | .unnamed => return .ok i

def populateDescriptor (commandSize i : Nat) : HLE O M (ResultVal Nat) := do
  let descriptor ← readClient i
  writeCommand i descriptor
  populateOperands sys call commandSize descriptor (i + 1)

def startPopulate : HLE O M (Nat × Nat) :=
  startCommand call (readClient 0) fun untranslatedSize s => { s with
    cmdBuf := fun k => if k < untranslatedSize then s.clientBuf k else s.cmdBuf k }

def populateStarted (untranslatedSize commandSize : Nat) :
    HLE O M (ResultVal Unit) := do
  let result ← loop .outOfFuel (populateDescriptor sys call commandSize) commandSize
    (commandSize + 1) untranslatedSize
  recordWords call commandSize
  return result

def populateFromIncomingCommandBuffer : HLE O M (ResultVal Unit) := do
  let (untranslatedSize, commandSize) ← startPopulate call
  populateStarted sys call untranslatedSize commandSize

def outgoingHandle (i : Nat) : HLE O M Unit := do
  let id ← readCommand i
  match (← get).requestHandles[id]? with
  | none => throw (.assertion .commandBuffer)
  | some none => writeClient i 0
  | some (some object) => do
    let (result, table) := (← get).process.handleTable.create object
    match result with
    | .error _ => throw (.assertion .unwrap)
    | .ok handle => do
      setTable table
      writeClient i handle

def outgoingHandles : Nat → Nat → HLE O M Unit
  | 0, _ => pure ()
  | numHandles + 1, i => do
      outgoingHandle i
      outgoingHandles numHandles (i + 1)

/-- What the client set up to receive a static buffer: no word of its command. -/
def staticBufferOffset (descriptor : Nat) : Nat :=
  commandBufferLength + 2 * staticBufferId descriptor

def deliverStaticBuffer (descriptor : Nat) : HLE O M Nat := do
  let s ← get
  let data := s.staticBuffers (staticBufferId descriptor)
  let targetDescriptor := s.clientBuf (staticBufferOffset descriptor)
  let targetAddress := s.clientBuf (staticBufferOffset descriptor + 1)
  MonadExcept.ofExcept
    (assert .commandBuffer (staticBufferSize targetDescriptor ≥ data.length))
  writeBlock sys call.client targetAddress data
  return targetAddress

def outgoingStaticBuffer (descriptor i : Nat) : HLE O M Unit := do
  let targetAddress ← deliverStaticBuffer sys call descriptor
  writeClient i targetAddress

def outgoingMappedBuffer (id i : Nat) : HLE O M Unit := do
  match (← get).requestMappedBuffers[id]? with
  | none => throw .undefinedBehaviour
  | some buffer => writeClient i buffer.address

/-- `CallingPid` has no case of its own. -/
def outgoingOperands (commandSize descriptor i : Nat) :
    HLE O M (ResultVal Nat) :=
  match getDescriptorType descriptor with
  | .copyHandle | .moveHandle => do
    let numHandles := handleNumberFromDesc descriptor
    MonadExcept.ofExcept (assert .commandBuffer (i + numHandles ≤ commandSize))
    outgoingHandles numHandles i
    return .ok (i + numHandles)
  | .staticBuffer => do
    outgoingStaticBuffer sys call descriptor i
    return .ok (i + 1)
  | .mappedBuffer => do
    let id ← readCommand i
    outgoingMappedBuffer id i
    return .ok (i + 1)
  | .callingPid | .pxiBuffer | .unnamed => return .ok i

def outgoingDescriptor (commandSize i : Nat) : HLE O M (ResultVal Nat) := do
  let descriptor ← readCommand i
  writeClient i descriptor
  outgoingOperands sys call commandSize descriptor (i + 1)

def startOutgoing : HLE O M (Nat × Nat) :=
  startCommand call (readCommand 0) fun untranslatedSize s => { s with
    clientBuf := fun k => if k < untranslatedSize then s.cmdBuf k else s.clientBuf k }

def outgoingStarted (untranslatedSize commandSize : Nat) :
    HLE O M (ResultVal Unit) := do
  let result ← loop .outOfFuel (outgoingDescriptor sys call commandSize) commandSize
    (commandSize + 1) untranslatedSize
  recordWords call commandSize
  return result

def writeToOutgoingCommandBuffer : HLE O M (ResultVal Unit) := do
  let (untranslatedSize, commandSize) ← startOutgoing call
  outgoingStarted sys call untranslatedSize commandSize

end HLE
end EmuThreeDS
