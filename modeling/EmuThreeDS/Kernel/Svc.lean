import EmuThreeDS.Kernel.Scheduler

/-!
# The calls that wait and signal

The supervisor calls of `svc.cpp` on threads and wait objects, with what they call in the
object classes. A handle argument is given as what `HandleTable::Get` returns for it.
-/
namespace EmuThreeDS.Kernel

/-- A call returns its result code, and some calls an index. -/
structure Reply where
  result : ResultVal Unit
  index : Option Int := none

variable (k : Kernel) (s : Nat) (t : ThreadId)

def setStatus (status : ThreadStatus) : Kernel :=
  k.setThread t fun thread => { thread with status := status }

def setWaitObjects (objects : List WaitObject) : Kernel :=
  k.setThread t fun thread => { thread with waitObjects := objects }

def setCallback (callback : WakeupCallback) : Kernel :=
  k.setThread t fun thread => { thread with wakeupCallback := some callback }

def waitSynchronization1 (handle : Option WaitObject)
    (nanoSeconds : Int) : Exec (Reply × Kernel) :=
  match handle with
  | none => return ({ result := .error .invalidHandle }, k)
  | some object =>
    if k.shouldWait object t then
      if nanoSeconds = 0 then return ({ result := .error .timeout }, k)
      else
        let k := k.setWaitObjects t [object]
        let k := k.addWaitingThread object t
        let k := k.setStatus t .waitSynchAny
        let k := k.wakeAfterDelay t nanoSeconds
        return ({ result := .error .timeout }, k.setCallback t (.svcSync false))
    else do
      let k ← k.acquire object t
      return ({ result := .ok () }, k)

def sleepOn (objects : List WaitObject) (status : ThreadStatus) :
    Kernel :=
  ((k.setStatus t status).addWaitingThreads t objects).setWaitObjects t objects

/-- The loop over the handles of `WaitSynchronizationN` and `ReplyAndReceive`. -/
def gatherObjects (handles : Nat → Option WaitObject) (handleCount : Int) :
    Option (List WaitObject) :=
  (List.range handleCount.toNat).mapM handles

def waitSynchronizationN (validAddress : Bool) (handleCount : Int)
    (handles : Nat → Option WaitObject) (waitAll : Bool) (nanoSeconds : Int) :
    Exec (Reply × Kernel) :=
  if !validAddress then return ({ result := .error .invalidPointer }, k)
  else if handleCount < 0 then return ({ result := .error .outOfRange }, k)
  else
    match gatherObjects handles handleCount with
    | none => return ({ result := .error .invalidHandle }, k)
    | some objects =>
      if waitAll then
        if objects.all fun object => !k.shouldWait object t then do
          let k ← k.acquireAll t objects
          return ({ result := .ok () }, k)
        else if nanoSeconds = 0 then return ({ result := .error .timeout }, k)
        else
          let k := (k.sleepOn t objects .waitSynchAll).wakeAfterDelay t nanoSeconds
          return ({ result := .error .timeout, index := some (-1) },
            k.setCallback t (.svcSync false))
      else
        match objects.find? fun object => !k.shouldWait object t with
        | some object => do
            let k ← k.acquire object t
            return ({ result := .ok (), index := some (objects.idxOf object) }, k)
        | none =>
          if nanoSeconds = 0 then return ({ result := .error .timeout }, k)
          else
            let k := (k.sleepOn t objects .waitSynchAny).wakeAfterDelay t nanoSeconds
            return ({ result := .error .timeout, index := some (-1) },
              k.setCallback t (.svcSync true))

/-- The reply that `ReplyAndReceive` sends: the session of the reply target. -/
def sendReply (session : Nat) : Exec (Option Reply × Kernel) := do
  let request := (k.serverSession session).currentlyHandling
  let k := k.setSession session fun session => { session with currentlyHandling := none }
  match request with
  | none => return (some { result := .error .sessionClosedByRemote, index := some (-1) }, k)
  | some requestThread =>
    if (k.serverSession session).client = false then
      return (some { result := .error .sessionClosedByRemote, index := some (-1) }, k)
    else
      assert .replyAndReceive (k.translateCommandBuffer t requestThread = .ok ())
      let k ← k.resumeFromWait requestThread
      return (none, k)

/-- What `ReplyAndReceive` does after its reply, if it sent one. -/
def receive (objects : List WaitObject) (replied : Bool) :
    Exec (Reply × Kernel) :=
  if objects = [] then
    return (if replied then { result := .ok (), index := some 0 }
      else { result := .error .noHandlesNoReply, index := some 0 }, k)
  else
    match objects.find? fun object => !k.shouldWait object t with
    | some object => do
        let k ← k.acquire object t
        match object with
        | .serverSession s =>
          let (result, k) ← k.receiveIPCRequest s t
          return ({ result, index := some (objects.idxOf object) }, k)
        | _ => return ({ result := .ok (), index := some (objects.idxOf object) }, k)
    | none =>
      let k := (k.sleepOn t objects .waitSynchAny).setCallback t .svcIPC
      return ({ result := .ok (), index := some (-1) }, k)

/-- `replyTarget` is `none` when no reply is to be sent, else what its handle refers to. -/
def replyAndReceive (validAddress : Bool) (handleCount : Int)
    (handles : Nat → Option WaitObject) (replyTarget : Option (Option Nat)) :
    Exec (Reply × Kernel) :=
  if !validAddress then return ({ result := .error .invalidPointer }, k)
  else if handleCount < 0 then return ({ result := .error .outOfRange }, k)
  else
    match gatherObjects handles handleCount with
    | none => return ({ result := .error .invalidHandle }, k)
    | some objects =>
      match replyTarget with
      | none => k.receive t objects false
      | some none => return ({ result := .error .invalidHandle }, k)
      | some (some session) => do
          match ← k.sendReply t session with
          | (some reply, k) => return (reply, k)
          | (none, k) => k.receive t objects true

def createEvent (e : Nat) (resetType : ResetType) : Kernel :=
  (k.setEvent e fun _ => { signaled := false, resetType }).setWaiting (.event e) fun _ => []

/-- `HLERequestContext::SleepClientThread`, with a new event. -/
def sleepClientThread (e : Nat) (timeout : Int) : Kernel :=
  let k := k.setCallback t .hle
  let k := k.createEvent e .oneShot
  let k := k.setStatus t .waitHleEvent
  let k := k.setWaitObjects t [.event e]
  let k := k.addWaitingThread (.event e) t
  if 0 < timeout then k.wakeAfterDelay t timeout else k

/-- A thread that the handler did not pause sleeps until the reply: for a fixed delay where the
service is emulated, else until a server answers. -/
def awaitReply : Kernel :=
  if (k.thread t).status = .running then
    let k := k.setStatus t .waitIPC
    if (k.serverSession s).hleHandler then k.wakeAfterDelay t 39000
    else k.setSession s fun session =>
      { session with pendingRequestingThreads := session.pendingRequestingThreads ++ [t] }
  else k

/-- `ServerSession::HandleSyncRequest`. An HLE handler replies at once, or pauses the thread on
a new event with a timeout. -/
def handleSyncRequest (pause : Option (Nat × Int)) :
    Exec Kernel :=
  let k := match (k.serverSession s).hleHandler, pause with
    | true, some (e, timeout) => k.sleepClientThread t e timeout
    | _, _ => k
  (k.awaitReply s t).wakeupAllWaitingThreads (.serverSession s)

/-- `session` is the session of the client handle. -/
def sendSyncRequest (session : Option Nat)
    (pause : Option (Nat × Int)) : Exec (Reply × Kernel) :=
  match session with
  | none => return ({ result := .error .invalidHandle }, k)
  | some s =>
    if (k.serverSession s).server = false then
      return ({ result := .error .sessionClosedByRemote }, k)
    else do
      let k ← k.handleSyncRequest s t pause
      return ({ result := .ok () }, k)

def createSession (port : Option Nat) (hleHandler : Bool) : Kernel :=
  (k.setSession s fun _ => { client := true, server := true, port, hleHandler }).setWaiting
    (.serverSession s) fun _ => []

/-- The destructor of `ClientSession`. -/
def closeClientSession : Exec Kernel :=
  if (k.serverSession s).server then
    (k.setSession s fun session =>
      { session with
        hleHandler := false, pendingRequestingThreads := [], currentlyHandling := none,
        client := false }).wakeupAllWaitingThreads (.serverSession s)
  else return k.setSession s fun session => { session with client := false }

/-- `ClientPort::ConnectionClosed`, where the session came from a port. -/
def connectionClosed : Option Nat → Exec Kernel
  | none => return k
  | some p => do
      assert .session (0 < (k.serverPort p).activeSessions)
      return k.setPort p fun port => { port with activeSessions := port.activeSessions - 1 }

/-- The destructor of `ServerSession`. -/
def closeServerSession : Exec Kernel := do
  let k ← k.connectionClosed (k.serverSession s).port
  return k.setSession s fun session =>
    { session with server := false, pendingRequestingThreads := [], currentlyHandling := none }

def createPort (p : Nat) (maxSessions : Nat) (hleHandler : Bool) : Kernel :=
  (k.setPort p fun _ => { maxSessions, hleHandler }).setWaiting (.serverPort p) fun _ => []

def connect (p s : Nat) : Exec (ResultVal Unit × Kernel) :=
  if (k.serverPort p).maxSessions ≤ (k.serverPort p).activeSessions then
    return (.error .maxConnectionsReached, k)
  else do
    let k := k.setPort p fun port => { port with activeSessions := port.activeSessions + 1 }
    let k := k.createSession s (some p) (k.serverPort p).hleHandler
    let k := if (k.serverPort p).hleHandler then k
      else k.setPort p fun port => { port with pendingSessions := port.pendingSessions ++ [s] }
    let k ← k.wakeupAllWaitingThreads (.serverPort p)
    return (.ok (), k)

def accept (p : Nat) : ResultVal Nat × Kernel :=
  match (k.serverPort p).pendingSessions.getLast? with
  | none => (.error .noPendingSessions, k)
  | some s => (.ok s, k.setPort p fun port =>
    { port with pendingSessions := port.pendingSessions.dropLast })

def signalEvent (e : Nat) : Exec Kernel :=
  (k.setEvent e fun event => { event with signaled := true }).wakeupAllWaitingThreads (.event e)

def clearEvent (e : Nat) : Kernel :=
  k.setEvent e fun event => { event with signaled := false }

def createTimer (i : Nat) (resetType : ResetType) : Kernel :=
  (k.setTimer i fun _ => { resetType }).setWaiting (.timer i) fun _ => []

def signalTimer (i : Nat) : Exec Kernel := do
  let k := k.setTimer i fun timer => { timer with signaled := true }
  let k ← k.wakeupAllWaitingThreads (.timer i)
  return if (k.timer i).intervalDelay ≠ 0 then
    k.setTimer i fun timer => { timer with callbackEvents := timer.callbackEvents + 1 } else k

def cancelTimer (i : Nat) : Kernel :=
  k.setTimer i fun timer => { timer with callbackEvents := 0 }

def clearTimer (i : Nat) : Kernel :=
  k.setTimer i fun timer => { timer with signaled := false }

def setTimerDelays (i : Nat) (initial interval : Int) :
    Exec (ResultVal Unit × Kernel) :=
  if initial < 0 ∨ interval < 0 then return (.error .outOfRangeKernel, k)
  else
    let k := (k.cancelTimer i).setTimer i fun timer =>
      { timer with initialDelay := initial, intervalDelay := interval }
    if initial = 0 then do
      let k ← k.signalTimer i
      return (.ok (), k)
    else
      return (.ok (), k.setTimer i fun timer =>
        { timer with callbackEvents := timer.callbackEvents + 1 })

def createSemaphore (initialCount maxCount : Int) :
    ResultVal Unit × Kernel :=
  if maxCount < initialCount then (.error .invalidCombinationKernel, k)
  else (.ok (), (k.setSemaphore s fun _ => { maxCount, availableCount := initialCount }).setWaiting
    (.semaphore s) fun _ => [])

def releaseSemaphore (releaseCount : Int) : Exec (ResultVal Int × Kernel) :=
  let semaphore := k.semaphore s
  if semaphore.maxCount - semaphore.availableCount < releaseCount then
    return (.error .outOfRangeKernel, k)
  else do
    let k := k.setSemaphore s fun semaphore =>
      { semaphore with availableCount := semaphore.availableCount + releaseCount }
    let k ← k.wakeupAllWaitingThreads (.semaphore s)
    return (.ok semaphore.availableCount, k)

def createMutex (m : MutexId) (initialLocked : Bool) (t : ThreadId) : Exec Kernel :=
  let k := (k.setMutex m fun mutex =>
    { mutex with lockCount := 0, holdingThread := none }).setWaiting (.mutex m) fun _ => []
  if initialLocked then k.acquire (.mutex m) t else return k

def updateMutexPriorities (k : Kernel) : List MutexId → Kernel
  | [] => k
  | m :: rest => (k.updateMutexPriority m).updateMutexPriorities rest

/-- `limit` is the best priority that the resource limit of the process allows. -/
def setThreadPriority (thread : Option ThreadId) (priority limit : Nat) :
    Exec (ResultVal Unit × Kernel) :=
  if threadPrioLowest < priority then return (.error .outOfRange, k)
  else
    match thread with
    | none => return (.error .invalidHandle, k)
    | some t =>
      if priority < limit then return (.error .notAuthorized, k)
      else do
        let k ← k.setPriority t priority
        let k := k.updatePriority t
        return (.ok (), k.updateMutexPriorities (k.thread t).pendingMutexes)

def sleepThread (core : Nat) (t : ThreadId) (nanoseconds : Int) : Exec Kernel := do
  if nanoseconds = 0 ∧ (← (k.manager core).readyQueue.getFirst) = none then return k
  return (k.setStatus t .waitSleep).wakeAfterDelay t nanoseconds

inductive ArbitrationType where
  | signal | waitIfLessThan | decrementAndWaitIfLessThan | waitIfLessThanWithTimeout
  | decrementAndWaitIfLessThanWithTimeout
  | other (value : Nat)

def arbiterWait (a : Nat) (t : ThreadId) (address : Nat) : Kernel :=
  (k.setThread t fun thread =>
    { thread with waitAddress := address, status := .waitArb }).setArbiter a fun waiting =>
      waiting ++ [t]

def resumeAll (k : Kernel) : List ThreadId → Exec Kernel
  | [] => return k
  | t :: rest => do
      let k ← k.resumeFromWait t
      k.resumeAll rest

def resumeAllThreads (a address : Nat) : Exec Kernel := do
  assert .arbiter (∀ t ∈ k.arbiter a, (k.thread t).status = .waitArb)
  let (woken, waiting) := (k.arbiter a).partition fun t => (k.thread t).waitAddress = address
  let k ← k.resumeAll woken
  return k.setArbiter a fun _ => waiting

def minThread (k : Kernel) : List ThreadId → Option ThreadId
  | [] => none
  | t :: rest =>
    match k.minThread rest with
    | none => some t
    | some u => if (k.thread u).currentPriority < (k.thread t).currentPriority then some u else some t

def resumeHighestPriorityThread (a address : Nat) : Exec Kernel := do
  assert .arbiter (∀ t ∈ k.arbiter a, (k.thread t).status = .waitArb)
  let (found, waiting) := (k.arbiter a).partition fun t => (k.thread t).waitAddress = address
  match k.minThread found with
  | none => return k.setArbiter a fun _ => waiting
  | some t =>
    let k ← k.resumeFromWait t
    return k.setArbiter a fun _ => waiting ++ found.erase t

def resumeFirst (a address : Nat) : Nat → Kernel → Exec Kernel
  | 0, k => return k
  | n + 1, k => do
      let k ← k.resumeHighestPriorityThread a address
      resumeFirst a address n k

/-- `memory` is the word at the address as a signed number. -/
def arbitrateAddress (a : Nat) (t : ThreadId) (type : ArbitrationType) (address : Nat)
    (memory value nanoseconds : Int) : Exec (ResultVal Unit × Kernel) :=
  match type with
  | .signal =>
    if value < 0 then do
      let k ← k.resumeAllThreads a address
      return (.ok (), k)
    else do
      let k ← resumeFirst a address value.toNat k
      return (.ok (), k)
  | .waitIfLessThan | .decrementAndWaitIfLessThan =>
    return (.ok (), if memory < value then k.arbiterWait a t address else k)
  | .waitIfLessThanWithTimeout | .decrementAndWaitIfLessThanWithTimeout =>
    return (.error .timeout, if memory < value then
      ((k.setCallback t (.addressArbiter a)).wakeAfterDelay t nanoseconds).arbiterWait a t address
      else k)
  | .other _ => return (.error .invalidEnumValueFnd, k)

end EmuThreeDS.Kernel
