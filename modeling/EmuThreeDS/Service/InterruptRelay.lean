import EmuThreeDS.Exec
import EmuThreeDS.Lib.Runs

/-!
# GSP interrupts (`gsp_gpu.cpp`)

Each thread of the GSP has an interrupt relay queue in memory that it shares with the application:
the service puts ids in, the application takes them out.
-/
namespace EmuThreeDS.Gsp

inductive InterruptId where
  | psc0 | psc1 | pdc0 | pdc1 | ppf | p3d | dma
  deriving DecidableEq

structure InterruptRelayQueue where
  index : Nat
  numberInterrupts : Nat
  errorCode : Nat
  slot : Nat → InterruptId

structure FrameBufferInfo where
  activeFb : Nat
  addressLeft : Nat
  addressRight : Nat
  stride : Nat
  format : Nat
  shownFb : Nat
  unknown : Nat

structure FrameBufferUpdate where
  index : Nat
  isDirty : Bool
  framebufferInfo : Nat → FrameBufferInfo

structure SessionData where
  interruptEvent : Option Nat := none
  threadId : Nat
  registered : Bool := false

/-- The service, with the buffer swaps that it has made and the events it has signaled. -/
structure GspGpu where
  queues : Nat → InterruptRelayQueue
  frameBuffers : Nat → Nat → FrameBufferUpdate
  connectedSessions : List SessionData
  activeThreadId : Nat
  usedThreadIds : Nat → Bool
  swaps : List (Nat × FrameBufferInfo) := []
  signaled : List Nat := []

def maxGspThreads : Nat := 4

/-- `UINT32_MAX` -/
def noThread : Nat := 0xFFFFFFFF

def slots : Nat := 0x34

def InterruptRelayQueue.signal (q : InterruptRelayQueue) (id : InterruptId) : InterruptRelayQueue :=
  let next := (q.index + q.numberInterrupts) % 256 % slots
  { q with
    numberInterrupts := (q.numberInterrupts + 1) % 256
    slot := Function.update q.slot next id
    errorCode := 0 }

def InterruptRelayQueue.pop (q : InterruptRelayQueue) : InterruptId × InterruptRelayQueue :=
  (q.slot q.index,
    { q with index := (q.index + 1) % slots, numberInterrupts := q.numberInterrupts - 1 })

/-- The slots hold `pending`, the oldest at the index. -/
structure Stores (q : InterruptRelayQueue) (pending : List InterruptId) : Prop where
  index : q.index < slots
  number : q.numberInterrupts ≤ slots
  length : pending.length = q.numberInterrupts
  slot : ∀ i (h : i < pending.length), q.slot ((q.index + i) % slots) = pending[i]

variable (s : GspGpu) (session : Nat)

namespace GspGpu

def findRegisteredThreadData (threadId : Nat) : Option SessionData :=
  s.connectedSessions.find? fun data => data.registered && data.threadId == threadId

def screenId : InterruptId → Option Nat
  | .pdc0 => some 0
  | .pdc1 => some 1
  | _ => none

/-- `GSP::SetBufferSwap`, if the application asked for it. -/
def updateFrameBuffer (threadId screen : Nat) : GspGpu :=
  let info := s.frameBuffers threadId screen
  if info.isDirty then
    { s with
      swaps := (screen, info.framebufferInfo info.index) :: s.swaps
      frameBuffers := Function.update s.frameBuffers threadId
        (Function.update (s.frameBuffers threadId) screen { info with isDirty := false }) }
  else s

def signalInterruptForThread (id : InterruptId) (threadId : Nat) : GspGpu :=
  match s.findRegisteredThreadData threadId with
  | none => s
  | some data =>
    match data.interruptEvent with
    | none => s
    | some event =>
      let s := { s with
        queues := Function.update s.queues threadId ((s.queues threadId).signal id) }
      let s := match screenId id with
        | none => s
        | some screen => s.updateFrameBuffer threadId screen
      { s with signaled := event :: s.signaled }

/-- PDC0 and PDC1 go to every thread, the others to the one with the GPU right. -/
def signalInterrupt (id : InterruptId) : GspGpu :=
  if id = .pdc0 ∨ id = .pdc1 then
    (List.range maxGspThreads).foldl (fun s threadId => s.signalInterruptForThread id threadId) s
  else if s.activeThreadId = noThread then s
  else s.signalInterruptForThread id s.activeThreadId

def getUnusedThreadId : Exec Nat :=
  match (List.range maxGspThreads).find? fun id => !s.usedThreadIds id with
  | some id => .ok id
  | none => .error (.assertion .gspThreads)

def connect : Exec GspGpu := do
  let threadId ← s.getUnusedThreadId
  return { s with
    usedThreadIds := Function.update s.usedThreadIds threadId true
    connectedSessions := s.connectedSessions ++ [{ threadId }] }

def releaseRight (data : SessionData) : Exec GspGpu := do
  assert .gpuRight (s.activeThreadId = data.threadId)
  return { s with activeThreadId := noThread }

def clientDisconnected : Exec GspGpu :=
  match s.connectedSessions[session]? with
  | none => .error .undefinedBehaviour
  | some data => do
    let s ← if s.activeThreadId = data.threadId then s.releaseRight data else .ok s
    return { s with
      usedThreadIds := Function.update s.usedThreadIds data.threadId false
      connectedSessions := s.connectedSessions.eraseIdx session }

def onSession (call : SessionData → Exec (SessionData × GspGpu)) :
    Exec GspGpu :=
  match s.connectedSessions[session]? with
  | none => .error .undefinedBehaviour
  | some data => do
    let (data, s) ← call data
    return { s with connectedSessions := s.connectedSessions.set session data }

def registerInterruptRelayQueue (session event : Nat) : Exec GspGpu :=
  s.onSession session fun data =>
    .ok ({ data with interruptEvent := some event, registered := true }, s)

def unregisterInterruptRelayQueue : Exec GspGpu :=
  s.onSession session fun data =>
    .ok ({ data with interruptEvent := none, registered := false }, s)

def acquireRight : Exec GspGpu :=
  s.onSession session fun data =>
    if s.activeThreadId = data.threadId then .ok (data, s)
    else do
      assert .gpuRight (s.activeThreadId = noThread)
      return (data, { s with activeThreadId := data.threadId })

def releaseSessionRight : Exec GspGpu :=
  s.onSession session fun data => do
    let s ← s.releaseRight data
    return (data, s)

def present (threadId screen : Nat) (update : FrameBufferUpdate) : GspGpu :=
  { s with
    frameBuffers := Function.update s.frameBuffers threadId
      (Function.update (s.frameBuffers threadId) screen update) }

end GspGpu

/-- The service, with the ids signalled to each thread and the ids that it has read. -/
structure Relay where
  gpu : GspGpu
  signalled : Nat → List InterruptId
  read : Nat → List InterruptId

namespace Relay

inductive Call where
  | signal (id : InterruptId)
  | pop (threadId : Nat)
  | connect
  | disconnect (session : Nat)
  | register (session event : Nat)
  | unregister (session : Nat)
  | acquireRight (session : Nat)
  | releaseRight (session : Nat)
  | present (threadId screen : Nat) (update : FrameBufferUpdate)

def Reaches (id : InterruptId) (threadId : Nat) : Prop :=
  ((s.findRegisteredThreadData threadId).bind (·.interruptEvent)).isSome ∧
    if id = .pdc0 ∨ id = .pdc1 then threadId < maxGspThreads
    else threadId = s.activeThreadId ∧ threadId ≠ noThread

instance (s : GspGpu) (id : InterruptId) (threadId : Nat) : Decidable (Reaches s id threadId) :=
  inferInstanceAs (Decidable (_ ∧ _))

def run (s : Relay) : Call → Exec Relay
  | .signal id => .ok { s with
      gpu := s.gpu.signalInterrupt id
      signalled := fun threadId =>
        if Reaches s.gpu id threadId then s.signalled threadId ++ [id] else s.signalled threadId }
  | .pop threadId =>
    let (id, queue) := (s.gpu.queues threadId).pop
    .ok { s with
      gpu := { s.gpu with queues := Function.update s.gpu.queues threadId queue }
      read := Function.update s.read threadId (s.read threadId ++ [id]) }
  | .connect => do return { s with gpu := ← s.gpu.connect }
  | .disconnect session => do return { s with gpu := ← s.gpu.clientDisconnected session }
  | .register session event => do
    return { s with gpu := ← s.gpu.registerInterruptRelayQueue session event }
  | .unregister session => do
    return { s with gpu := ← s.gpu.unregisterInterruptRelayQueue session }
  | .acquireRight session => do return { s with gpu := ← s.gpu.acquireRight session }
  | .releaseRight session => do return { s with gpu := ← s.gpu.releaseSessionRight session }
  | .present threadId screen update =>
    .ok { s with gpu := s.gpu.present threadId screen update }

structure Starts (s : Relay) : Prop where
  index : ∀ threadId, (s.gpu.queues threadId).index < slots
  empty : ∀ threadId, (s.gpu.queues threadId).numberInterrupts = 0
  signalled : s.signalled = fun _ => []
  read : s.read = fun _ => []

def Pops (s : Relay) : Call → Prop
  | .pop threadId => 0 < (s.gpu.queues threadId).numberInterrupts
  | _ => True

def Room (s : Relay) : Call → Prop
  | .signal id => ∀ threadId, Reaches s.gpu id threadId →
      (s.gpu.queues threadId).numberInterrupts ≠ slots
  | _ => True

abbrev Reachable (allowed : Relay → Call → Prop) : Relay → Prop :=
  Runs.Reachable Starts (fun s call s' => s.run call = .ok s') fun s call =>
    s.Pops call ∧ allowed s call

def Intact (s : Relay) (threadId : Nat) : Prop :=
  ∃ pending, s.signalled threadId = s.read threadId ++ pending ∧
    Stores (s.gpu.queues threadId) pending

end Relay

end EmuThreeDS.Gsp
