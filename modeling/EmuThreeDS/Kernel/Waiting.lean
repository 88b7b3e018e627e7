import EmuThreeDS.Kernel.Objects

/-!
# Waiting for objects and being woken

`ShouldWait` and `Acquire` of each class, `wait_object.cpp`, and `Thread::ResumeFromWait` with
the callbacks of a wakeup.
-/
namespace EmuThreeDS.Kernel

variable (k : Kernel) (o : WaitObject) (t : ThreadId)

def shouldWait : Bool :=
  match o with
  | .event e => !(k.event e).signaled
  | .timer i => !(k.timer i).signaled
  | .mutex m => 0 < (k.mutex m).lockCount && (k.mutex m).holdingThread ≠ some t
  | .semaphore s => (k.semaphore s).availableCount ≤ 0
  | .thread u => (k.thread u).status ≠ .dead
  | .serverPort p => (k.serverPort p).pendingSessions.isEmpty
  | .serverSession s =>
    (k.serverSession s).client && ((k.serverSession s).pendingRequestingThreads.isEmpty ||
      (k.serverSession s).currentlyHandling.isSome)

def lockMutex (m : MutexId) (t : ThreadId) : Kernel :=
  ((k.setMutex m fun mutex =>
      { mutex with priority := (k.thread t).currentPriority, holdingThread := some t }).setThread t
    fun thread => { thread with heldMutexes := FlatSet.insert m thread.heldMutexes }).updatePriority t

def acquire : Exec Kernel :=
  match o with
  | .event e => do
      assert .objectUnavailable (¬ k.shouldWait (.event e) t)
      return if (k.event e).resetType = .oneShot then
        k.setEvent e fun event => { event with signaled := false } else k
  | .timer i => do
      assert .objectUnavailable (¬ k.shouldWait (.timer i) t)
      return if (k.timer i).resetType = .oneShot then
        k.setTimer i fun timer => { timer with signaled := false } else k
  | .mutex m => do
      assert .objectUnavailable (¬ k.shouldWait (.mutex m) t)
      let k := if (k.mutex m).lockCount = 0 then k.lockMutex m t else k
      return k.setMutex m fun mutex => { mutex with lockCount := mutex.lockCount + 1 }
  | .semaphore s =>
    return if (k.semaphore s).availableCount ≤ 0 then k
      else k.setSemaphore s fun semaphore =>
        { semaphore with availableCount := semaphore.availableCount - 1 }
  | .thread u => do
      assert .objectUnavailable (¬ k.shouldWait (.thread u) t)
      return k
  | .serverPort p => do
      assert .objectUnavailable (¬ k.shouldWait (.serverPort p) t)
      return k
  | .serverSession s => do
      assert .objectUnavailable (¬ k.shouldWait (.serverSession s) t)
      if (k.serverSession s).client = false then return k
      assert .session ((k.serverSession s).pendingRequestingThreads ≠ [])
      return k.setSession s fun session =>
        { session with
          currentlyHandling := session.pendingRequestingThreads.getLast?
          pendingRequestingThreads := session.pendingRequestingThreads.dropLast }

/-- The loop over a list of objects of `WaitSynchronizationN` and `WakeupAllWaitingThreads`. -/
def acquireAll (k : Kernel) (t : ThreadId) : List WaitObject → Exec Kernel
  | [] => return k
  | o :: rest => do
      let k ← k.acquire o t
      k.acquireAll t rest

/-- `WaitObject::AddWaitingThread`. -/
def enlist : Kernel :=
  k.setWaiting o fun waiting => if t ∈ waiting then waiting else waiting ++ [t]

/-- `WaitObject::RemoveWaitingThread`. -/
def delist : Kernel :=
  k.setWaiting o fun waiting => waiting.erase t

def addWaitingThread : Kernel :=
  match o with
  | .mutex m =>
    ((k.enlist (.mutex m) t).setThread t fun thread =>
      { thread with pendingMutexes := FlatSet.insert m thread.pendingMutexes }).updateMutexPriority
        m
  | o => k.enlist o t

def removeWaitingThread : Kernel :=
  match o with
  | .mutex m =>
    ((k.delist (.mutex m) t).setThread t fun thread =>
      { thread with pendingMutexes := thread.pendingMutexes.erase m }).updateMutexPriority m
  | o => k.delist o t

def addWaitingThreads (k : Kernel) (t : ThreadId) : List WaitObject → Kernel
  | [] => k
  | o :: rest => (k.addWaitingThread o t).addWaitingThreads t rest

def removeWaitingThreads (k : Kernel) (t : ThreadId) : List WaitObject → Kernel
  | [] => k
  | o :: rest => (k.removeWaitingThread o t).removeWaitingThreads t rest

def clearWaitObjects : Kernel :=
  (k.removeWaitingThreads t (k.thread t).waitObjects).setThread t fun thread =>
    { thread with waitObjects := [] }

def WaitStatus (status : ThreadStatus) : Prop :=
  status = .waitSynchAny ∨ status = .waitSynchAll ∨ status = .waitHleEvent

instance (status : ThreadStatus) : Decidable (WaitStatus status) :=
  inferInstanceAs (Decidable (_ ∨ _))

def readyToRun : Bool :=
  !k.shouldWait o t && ((k.thread t).status ≠ .waitSynchAll ||
    (k.thread t).waitObjects.all fun object => !k.shouldWait object t)

/-- The loop of `GetHighestPriorityReadyThread`, with the candidate and its priority. -/
def selectThread (k : Kernel) (o : WaitObject) :
    List ThreadId → Option ThreadId → Nat → Exec (Option ThreadId)
  | [], candidate, _ => return candidate
  | t :: rest, candidate, priority => do
      assert .waitingStatus (WaitStatus (k.thread t).status)
      if priority ≤ (k.thread t).currentPriority then k.selectThread o rest candidate priority
      else if k.readyToRun o t then k.selectThread o rest (some t) (k.thread t).currentPriority
      else k.selectThread o rest candidate priority

def getHighestPriorityReadyThread : Exec (Option ThreadId) :=
  k.selectThread o (k.waitingThreads o) none (threadPrioLowest + 1)

def makeReady : Kernel :=
  (k.setQueue (k.thread t).coreId fun queue =>
    queue.pushBack (k.thread t).currentPriority t).setThread t fun thread =>
      { thread with wakeupCallback := none, status := .ready }

def resumeFromWait : Exec Kernel := do
  assert .resumeWaiting ((k.thread t).waitObjects = [])
  match (k.thread t).status with
  | .ready =>
    assert .resumeCallback ((k.thread t).wakeupCallback = none)
    return k
  | .running | .dead => return k
  | _ => return k.makeReady t

def Awake (status : ThreadStatus) : Prop :=
  status = .ready ∨ status = .running ∨ status = .dead

instance (status : ThreadStatus) : Decidable (Awake status) :=
  inferInstanceAs (Decidable (_ ∨ _))

theorem resumeFromWait_spec {bad : Fault → Prop} {k : Kernel} {t : ThreadId}
    (nothing : bad (.assertion .resumeWaiting) → (k.thread t).waitObjects = [])
    (callback : ¬ bad (.assertion .resumeCallback)) : Meets bad (k.resumeFromWait t) fun k' =>
      k' = k ∧ Awake (k.thread t).status ∨ k' = k.makeReady t ∧ ¬ Awake (k.thread t).status := by
  apply meets_assert nothing
  intro _
  split
  · next ready =>
      apply meets_assert (absurd · callback)
      exact fun _ => meets_ok (Or.inl ⟨rfl, Or.inl ready⟩)
  · next running => exact meets_ok (Or.inl ⟨rfl, Or.inr (Or.inl running)⟩)
  · next dead => exact meets_ok (Or.inl ⟨rfl, Or.inr (Or.inr dead)⟩)
  · next ready running dead =>
      exact Or.inr ⟨rfl, fun awake => awake.elim ready fun either => either.elim running dead⟩

/-- The index of the last occurrence, and -1 where there is none. -/
def getWaitObjectIndex (object : Option WaitObject) : Exec Int := do
  assert .waitObjectIndex ((k.thread t).waitObjects ≠ [])
  let objects := (k.thread t).waitObjects.map some
  return objects.length - objects.reverse.idxOf object - 1

def setWaitSynchronizationResult (result : ResultVal Unit) : Kernel :=
  k.setThread t fun thread => { thread with waitResult := result }

def setWaitSynchronizationOutput (output : Int) : Kernel :=
  k.setThread t fun thread => { thread with waitOutput := output }

/-- `translateCommandBuffer` says what the translation between the command buffers of two
threads returns; a failure ends in an assertion. -/
def receiveIPCRequest (s : Nat) (t : ThreadId) : Exec (ResultVal Unit × Kernel) :=
  if (k.serverSession s).client = false then return (.error .sessionClosedByRemote, k)
  else
    match (k.serverSession s).currentlyHandling with
    | none => .error .undefinedBehaviour
    | some client =>
      match k.translateCommandBuffer client t with
      | .ok () => return (.ok (), k)
      | .error code => do
          let k := k.setWaitSynchronizationResult client (.error code)
          let _ ← k.resumeFromWait client
          .error (.assertion .replyAndReceive)

def receiveFrom : Option WaitObject → Exec (ResultVal Unit × Kernel)
  | some (.serverSession s) => k.receiveIPCRequest s t
  | _ => return (.ok (), k)

/-- `WakeUp` of the callback classes. An HLE callback writes the reply of its service. -/
def wakeUp (k : Kernel) (reason : ThreadWakeupReason) (t : ThreadId)
    (object : Option WaitObject) : WakeupCallback → Exec Kernel
  | .svcSync doOutput =>
    match reason with
    | .timeout => return k.setWaitSynchronizationResult t (.error .timeout)
    | .signal => do
        let k := k.setWaitSynchronizationResult t (.ok ())
        if doOutput then
          let index ← k.getWaitObjectIndex t object
          return k.setWaitSynchronizationOutput t index
        else return k
  | .svcIPC => do
      assert .wakeUp ((k.thread t).status = .waitSynchAny)
      assert .wakeUp (reason = .signal)
      let (result, k) ← k.receiveFrom t object
      let k := k.setWaitSynchronizationResult t result
      let index ← k.getWaitObjectIndex t object
      return k.setWaitSynchronizationOutput t index
  | .hle => do
      assert .wakeUp ((k.thread t).status = .waitHleEvent)
      return k
  | .addressArbiter a => do
      assert .arbiter (reason = .timeout)
      return k.setArbiter a fun waiting => waiting.filter (· ≠ t)

def invokeCallback (reason : ThreadWakeupReason) (t : ThreadId)
    (object : Option WaitObject) : Exec Kernel :=
  match (k.thread t).wakeupCallback with
  | none => return k
  | some callback => k.wakeUp reason t object callback

def isSleepingOnWaitAll : Bool := (k.thread t).status = .waitSynchAll

def acquireFor : Exec Kernel :=
  if k.isSleepingOnWaitAll t then k.acquireAll t (k.thread t).waitObjects else k.acquire o t

/-- One round of the loop of `WakeupAllWaitingThreads`. -/
def wakeThread : Exec Kernel := do
  let k ← k.acquireFor o t
  let k ← k.invokeCallback .signal t (some o)
  (k.clearWaitObjects t).resumeFromWait t

def wakeLoop (o : WaitObject) : Nat → Kernel → Exec Kernel
  | 0, _ => .error .outOfFuel
  | fuel + 1, k => do
      match ← k.getHighestPriorityReadyThread o with
      | none => return k
      | some t =>
        let k ← k.wakeThread o t
        wakeLoop o fuel k

/-- The overrides of `Event` and `Timer`: a pulse ends with the wakeups. -/
def endPulse : WaitObject → Kernel
  | .event e =>
    if (k.event e).resetType = .pulse then
      k.setEvent e fun event => { event with signaled := false } else k
  | .timer i =>
    if (k.timer i).resetType = .pulse then
      k.setTimer i fun timer => { timer with signaled := false } else k
  | _ => k

/-- Every round takes a thread off the list, so its length bounds the loop. -/
def wakeupAllWaitingThreads : Exec Kernel := do
  let k ← wakeLoop o ((k.waitingThreads o).length + 1) k
  return k.endPulse o

def releaseMutex (m : MutexId) (t : ThreadId) : Exec (ResultVal Unit × Kernel) :=
  if (k.mutex m).holdingThread ≠ some t then return (.error .wrongLockingThread, k)
  else if (k.mutex m).lockCount = 0 then return (.error .invalidResultValue, k)
  else do
    let k := k.setMutex m fun mutex => { mutex with lockCount := mutex.lockCount - 1 }
    if (k.mutex m).lockCount = 0 then
      let k := (k.setThread t fun thread =>
        { thread with heldMutexes := thread.heldMutexes.erase m }).updatePriority t
      let k := k.setMutex m fun mutex => { mutex with holdingThread := none }
      let k ← k.wakeupAllWaitingThreads (.mutex m)
      return (.ok (), k)
    else return (.ok (), k)

def releaseMutexes (k : Kernel) : List MutexId → Exec Kernel
  | [] => return k
  | m :: rest => do
      let k := k.setMutex m fun mutex => { mutex with lockCount := 0, holdingThread := none }
      let k ← k.wakeupAllWaitingThreads (.mutex m)
      k.releaseMutexes rest

def releaseThreadMutexes : Exec Kernel := do
  let k ← k.releaseMutexes (k.thread t).heldMutexes
  return k.setThread t fun thread => { thread with heldMutexes := [] }

end EmuThreeDS.Kernel
