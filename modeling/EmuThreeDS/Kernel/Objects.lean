import EmuThreeDS.Common.ThreadQueueList
import EmuThreeDS.Kernel.VMManager

/-!
# Threads and the objects they wait for

The state behind the synchronisation calls. A number stands for the address of an object, so
a table of objects is a function; sets ordered by address are sorted lists.
-/
namespace EmuThreeDS

abbrev ThreadId := Nat
abbrev MutexId := Nat

def threadPrioLowest : Nat := 63
def threadProcessorIdMax : Int := 4

/-- A reference to an object of a class derived from `WaitObject`. -/
inductive WaitObject where
  | event (id : Nat)
  | timer (id : Nat)
  | mutex (id : MutexId)
  | semaphore (id : Nat)
  | thread (id : ThreadId)
  | serverPort (id : Nat)
  | serverSession (id : Nat)
  deriving DecidableEq

inductive ThreadStatus where
  | running | ready | waitArb | waitSleep | waitIPC | waitSynchAny | waitSynchAll | waitHleEvent
  | dormant | dead
  deriving DecidableEq

/-- The guest passes any number as the reset type. -/
inductive ResetType where
  | oneShot | sticky | pulse
  | other (value : Nat)
  deriving DecidableEq

inductive ThreadWakeupReason where
  | signal | timeout
  deriving DecidableEq

/-- The callbacks that a wait installs, by the class that implements them. -/
inductive WakeupCallback where
  | svcSync (doOutput : Bool)
  | svcIPC
  | hle
  | addressArbiter (id : Nat)

/-- `waitResult` and `waitOutput` are the registers r0 and r1 of the context, and
`wakeupEvents` counts the events scheduled for `ThreadWakeupCallback`. -/
structure Thread where
  status : ThreadStatus := .dormant
  nominalPriority : Nat := 0
  currentPriority : Nat := 0
  coreId : Nat := 0
  canSchedule : Bool := true
  heldMutexes : List MutexId := []
  pendingMutexes : List MutexId := []
  waitObjects : List WaitObject := []
  waitAddress : Nat := 0
  wakeupCallback : Option WakeupCallback := none
  waitResult : ResultVal Unit := .ok ()
  waitOutput : Int := 0
  wakeupEvents : Nat := 0

structure Event where
  signaled : Bool := false
  resetType : ResetType := .oneShot

/-- `callbackEvents` counts the events scheduled for `TimerCallback`. -/
structure Timer where
  signaled : Bool := false
  resetType : ResetType := .oneShot
  initialDelay : Int := 0
  intervalDelay : Int := 0
  callbackEvents : Nat := 0

structure Mutex where
  lockCount : Nat := 0
  priority : Nat := 0
  holdingThread : Option ThreadId := none

structure Semaphore where
  availableCount : Int := 0
  maxCount : Int := 0

structure ServerPort where
  pendingSessions : List Nat := []
  activeSessions : Nat := 0
  maxSessions : Nat := 0
  hleHandler : Bool := false

/-- A server session and its parent: `client` and `server` say whether the ends still exist. -/
structure ServerSession where
  client : Bool := false
  server : Bool := false
  port : Option Nat := none
  hleHandler : Bool := false
  pendingRequestingThreads : List ThreadId := []
  currentlyHandling : Option ThreadId := none

structure ThreadManager where
  currentThread : Option ThreadId := none
  readyQueue : ThreadQueueList ThreadId (threadPrioLowest + 1) := {}
  threadList : List ThreadId := []

/-- `translateCommandBuffer` stands for the command buffers in guest memory: what the
translation from one thread's buffer to another's would return. -/
structure Kernel where
  numCores : Nat := 4
  thread : ThreadId → Thread := fun _ => {}
  manager : Nat → ThreadManager := fun _ => {}
  waitingThreads : WaitObject → List ThreadId := fun _ => []
  event : Nat → Event := fun _ => {}
  timer : Nat → Timer := fun _ => {}
  mutex : MutexId → Mutex := fun _ => {}
  semaphore : Nat → Semaphore := fun _ => {}
  serverPort : Nat → ServerPort := fun _ => {}
  serverSession : Nat → ServerSession := fun _ => {}
  arbiter : Nat → List ThreadId := fun _ => []
  translateCommandBuffer : ThreadId → ThreadId → ResultVal Unit := fun _ _ => .ok ()

namespace Kernel

def setThread (k : Kernel) (t : ThreadId) (f : Thread → Thread) : Kernel :=
  { k with thread := Function.update k.thread t (f (k.thread t)) }

def setManager (k : Kernel) (core : Nat) (f : ThreadManager → ThreadManager) : Kernel :=
  { k with manager := Function.update k.manager core (f (k.manager core)) }

def setQueue (k : Kernel) (core : Nat)
    (f : ThreadQueueList ThreadId (threadPrioLowest + 1) →
      ThreadQueueList ThreadId (threadPrioLowest + 1)) : Kernel :=
  k.setManager core fun manager => { manager with readyQueue := f manager.readyQueue }

def setWaiting (k : Kernel) (o : WaitObject) (f : List ThreadId → List ThreadId) : Kernel :=
  { k with waitingThreads := Function.update k.waitingThreads o (f (k.waitingThreads o)) }

def setEvent (k : Kernel) (e : Nat) (f : Event → Event) : Kernel :=
  { k with event := Function.update k.event e (f (k.event e)) }

def setTimer (k : Kernel) (t : Nat) (f : Timer → Timer) : Kernel :=
  { k with timer := Function.update k.timer t (f (k.timer t)) }

def setMutex (k : Kernel) (m : MutexId) (f : Mutex → Mutex) : Kernel :=
  { k with mutex := Function.update k.mutex m (f (k.mutex m)) }

def setSemaphore (k : Kernel) (s : Nat) (f : Semaphore → Semaphore) : Kernel :=
  { k with semaphore := Function.update k.semaphore s (f (k.semaphore s)) }

def setPort (k : Kernel) (p : Nat) (f : ServerPort → ServerPort) : Kernel :=
  { k with serverPort := Function.update k.serverPort p (f (k.serverPort p)) }

def setSession (k : Kernel) (s : Nat) (f : ServerSession → ServerSession) : Kernel :=
  { k with serverSession := Function.update k.serverSession s (f (k.serverSession s)) }

def setArbiter (k : Kernel) (a : Nat) (f : List ThreadId → List ThreadId) : Kernel :=
  { k with arbiter := Function.update k.arbiter a (f (k.arbiter a)) }

variable (k : Kernel)

theorem thread_setThread (t u : ThreadId) (f : Thread → Thread) :
    (k.setThread t f).thread u = if u = t then f (k.thread t) else k.thread u :=
  Function.update_apply _ _ _ _

end Kernel

/-!
## Priorities and their inheritance

`Thread::SetPriority`, `UpdatePriority` and `BoostPriority`, and `Mutex::UpdatePriority`.
-/

namespace Kernel

def moveInQueue (k : Kernel) (t : ThreadId) (priority : Nat) : Kernel :=
  k.setQueue (k.thread t).coreId fun queue =>
    if (k.thread t).status = .ready then queue.move t (k.thread t).currentPriority priority
    else queue.prepare priority

def boostPriority (k : Kernel) (t : ThreadId) (priority : Nat) : Kernel :=
  (k.moveInQueue t priority).setThread t fun thread => { thread with currentPriority := priority }

def setPriority (k : Kernel) (t : ThreadId) (priority : Nat) : Exec Kernel := do
  assert .setPriority (priority ≤ threadPrioLowest)
  return (k.moveInQueue t priority).setThread t fun thread =>
    { thread with nominalPriority := priority, currentPriority := priority }

def best (default : Nat) (priorities : List Nat) : Nat :=
  priorities.foldl (fun best priority => if priority < best then priority else best) default

def updatePriority (k : Kernel) (t : ThreadId) : Kernel :=
  k.boostPriority t (best (k.thread t).nominalPriority
    ((k.thread t).heldMutexes.map fun m => (k.mutex m).priority))

def waitersPriority (k : Kernel) (m : MutexId) : Nat :=
  best threadPrioLowest ((k.waitingThreads (.mutex m)).map fun t => (k.thread t).currentPriority)

def updateMutexPriority (k : Kernel) (m : MutexId) : Kernel :=
  match (k.mutex m).holdingThread with
  | none => k
  | some holder =>
    if k.waitersPriority m ≠ (k.mutex m).priority then
      (k.setMutex m fun mutex => { mutex with priority := k.waitersPriority m }).updatePriority
        holder
    else k

end Kernel

end EmuThreeDS
