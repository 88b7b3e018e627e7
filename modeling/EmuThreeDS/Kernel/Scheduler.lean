import EmuThreeDS.Kernel.Waiting

/-!
# Starting, scheduling and stopping threads

The parts of `thread.cpp` that change what a core runs, and the timeout of a wait.
-/
namespace EmuThreeDS.Kernel

variable (k : Kernel) (core : Nat) (t : ThreadId)

def wakeAfterDelay (nanoseconds : Int) : Kernel :=
  if nanoseconds = -1 then k
  else k.setThread t fun thread => { thread with wakeupEvents := thread.wakeupEvents + 1 }

/-- `tlsPage` says whether a slot for the thread's local storage could be found. -/
def createThread (priority : Nat) (processorId : Int)
    (validEntry tlsPage : Bool) : Exec (ResultVal Unit × Kernel) :=
  if threadPrioLowest < priority then return (.error .outOfRange, k)
  else if threadProcessorIdMax < processorId then return (.error .outOfRangeKernel, k)
  else if !validEntry then return (.error .invalidAddress, k)
  else if processorId < 0 ∨ k.numCores ≤ processorId.toNat then .error .undefinedBehaviour
  else
    let core := processorId.toNat
    let k := k.setManager core fun manager =>
      { manager with
        threadList := manager.threadList ++ [t]
        readyQueue := manager.readyQueue.prepare priority }
    let k := k.setThread t fun _ =>
      { nominalPriority := priority, currentPriority := priority, coreId := core }
    if !tlsPage then return (.error .outOfMemory, k)
    else
      let k := k.setQueue core fun queue => queue.pushBack priority t
      return (.ok (), k.setThread t fun thread => { thread with status := .ready })

def registerThread (priority : Nat) : Kernel :=
  (k.setManager core fun manager =>
    { manager with
      threadList := manager.threadList ++ [t]
      readyQueue := manager.readyQueue.prepare priority }).setThread t fun _ =>
    { nominalPriority := priority, currentPriority := priority, coreId := core }

def startThread (priority : Nat) : Kernel :=
  (k.setQueue core fun queue => queue.pushBack priority t).setThread t
    fun thread => { thread with status := .ready }

theorem createThread_leaves {k : Kernel} {t : ThreadId} {priority : Nat} {processorId : Int}
    {validEntry tlsPage : Bool} {bad : Fault → Prop} {P : Kernel → Prop}
    (fault : ¬ bad .undefinedBehaviour) (same : P k)
    (registered : priority ≤ threadPrioLowest → ∀ core, P (k.registerThread core t priority))
    (started : priority ≤ threadPrioLowest → ∀ core,
      P ((k.registerThread core t priority).startThread core t priority)) :
    Meets bad (k.createThread t priority processorId validEntry tlsPage) fun reply => P reply.2 := by
  apply meets_ite
  · exact fun _ => meets_ok same
  intro bound
  apply meets_ite
  · exact fun _ => meets_ok same
  intro _
  apply meets_ite
  · exact fun _ => meets_ok same
  intro _
  apply meets_ite
  · exact fun _ => meets_error fault
  intro _
  apply meets_ite
  · exact fun _ => meets_ok (registered (Nat.not_lt.mp bound) _)
  · exact fun _ => meets_ok (started (Nat.not_lt.mp bound) _)

/-- `Thread::Stop`, without the slot of the thread's local storage. -/
def stop : Exec Kernel := do
  let k := k.setThread t fun thread => { thread with wakeupEvents := 0 }
  let k := if (k.thread t).status = .ready then
    k.setQueue (k.thread t).coreId fun queue => queue.remove (k.thread t).currentPriority t else k
  let k := k.setThread t fun thread => { thread with status := .dead }
  let k ← k.wakeupAllWaitingThreads (.thread t)
  (k.clearWaitObjects t).releaseThreadMutexes t

def exitCurrentThread : Exec Kernel := do
  let k ← k.stop t
  return k.setManager core fun manager =>
    { manager with threadList := manager.threadList.filter (· ≠ t) }

/-- The thread that ran goes back to the front of its queue if it did not yield. -/
def preempt : Kernel :=
  match (k.manager core).currentThread with
  | none => k
  | some previous =>
    if (k.thread previous).status = .running then
      (k.setQueue core fun queue =>
        queue.pushFront (k.thread previous).currentPriority previous).setThread previous
          fun thread => { thread with status := .ready }
    else k

def switchContext (k : Kernel) (core : Nat) (newThread : Option ThreadId) : Exec Kernel := do
  let k := k.preempt core
  match newThread with
  | none => return k.setManager core fun manager => { manager with currentThread := none }
  | some t =>
    assert .switchContext ((k.thread t).status = .ready)
    let k := k.setManager core fun manager =>
      { manager with
        currentThread := some t
        readyQueue := manager.readyQueue.remove (k.thread t).currentPriority t }
    return k.setThread t fun thread => { thread with status := .running, wakeupEvents := 0 }

abbrev KernelQueue := ThreadQueueList ThreadId (threadPrioLowest + 1)

/-- The loops of `PopNextReadyThread`: threads that may not be scheduled are set aside. -/
def popSchedulable (k : Kernel) (pop : KernelQueue → Exec (Option ThreadId × KernelQueue)) :
    Nat → KernelQueue → List ThreadId → Exec (Option ThreadId × KernelQueue × List ThreadId)
  | 0, _, _ => .error .outOfFuel
  | fuel + 1, queue, unscheduled => do
      let (next, queue) ← pop queue
      match next with
      | none => return (none, queue, unscheduled)
      | some t =>
        if (k.thread t).canSchedule then return (some t, queue, unscheduled)
        else popSchedulable k pop fuel queue (unscheduled ++ [t])

/-- The number of threads in the queues bounds the pops. -/
def queued (queue : KernelQueue) : Nat :=
  ((List.range (threadPrioLowest + 1)).map fun priority => (queue.data priority).length).sum

def requeue (queue : KernelQueue) (unscheduled : List ThreadId) : KernelQueue :=
  unscheduled.foldr (fun t queue => queue.pushBack (k.thread t).currentPriority t) queue

/-- A thread that still runs is left only for a better one. -/
def popFor (running : Option ThreadId) (queue : KernelQueue) :
    Exec (Option ThreadId × KernelQueue) :=
  match running with
  | some t => queue.popFirstBetter (k.thread t).currentPriority
  | none => queue.popFirst

def popNextReadyThread : Exec (Option ThreadId × Kernel) := do
  let queue := (k.manager core).readyQueue
  let running := (k.manager core).currentThread.filter fun t => (k.thread t).status = .running
  let (next, queue, unscheduled) ← k.popSchedulable (k.popFor running) (queued queue + 1) queue []
  return (next.or running, k.setQueue core fun _ => k.requeue queue unscheduled)

def reschedule : Exec Kernel := do
  let (next, k) ← k.popNextReadyThread core
  if (k.manager core).currentThread = none ∧ next = none then return k
  else k.switchContext core next

def threadWakeupCallback : Exec Kernel :=
  if WaitStatus (k.thread t).status ∨ (k.thread t).status = .waitArb then do
    let k ← k.invokeCallback .timeout t none
    (k.clearWaitObjects t).resumeFromWait t
  else k.resumeFromWait t

end EmuThreeDS.Kernel
