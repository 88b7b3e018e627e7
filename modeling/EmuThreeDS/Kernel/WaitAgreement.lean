import EmuThreeDS.Kernel.WaitSteps

/-!
# The other calls keep the waits in agreement

The calls that signal objects or change threads, the scheduler and the end of a thread.
-/
namespace EmuThreeDS.Kernel

variable {ex : ThreadId → Prop} {k k' : Kernel} {t u : ThreadId} {o : WaitObject}

theorem Settled.wakeup (h : k.Settled) (q : Quiet k k') :
    Meets WaitFault (k'.wakeupAllWaitingThreads o) Settled :=
  wakeupAllWaitingThreads_meets (h.quiet q) fun _ _ => id

variable {s p i priority core a address : Nat} {pause : Option (Nat × Int)} {initial ns : Int}
  {threads : List ThreadId}

theorem awaitReply_settled (h : k.Settled) : (k.awaitReply s t).Settled := by
  unfold awaitReply
  dsimp only
  split_ifs with running _
  · obtain ⟨idle, free, _⟩ := h.of_running running
    have parked : (k.setStatus t .waitIPC).Settled :=
      h.setThread _ free (Or.inl idle) nofun rfl
    apply parked.delay id free
    rw [setStatus, statusOf_setThread, if_pos rfl]
    exact nofun
  · obtain ⟨idle, free, clean⟩ := h.of_running running
    have parked : (k.setStatus t .waitIPC).Settled :=
      h.setThread _ free (Or.inl idle) nofun rfl
    refine ⟨parked.agree, parked.asleep, fun _ => False.elim, ?_⟩
    apply RequestsParked.push parked.requests free (fun _ _ => rfl)
    · exact (statusOf_setThread _).trans (if_pos rfl)
    · exact (eventsOf_setThread _).trans ((if_pos rfl).trans clean)
  · exact h

section

variable (h : k.Settled) (running : k.statusOf t = .running)
  (unused : ∀ e ns, pause = some (e, ns) → k.Unused (.event e))
include h running unused

theorem handleSyncRequest_meets : Meets WaitFault (k.handleSyncRequest s t pause) Settled := by
  unfold handleSyncRequest
  split
  · next e ns _ =>
      have settled := (@sleepClientThread_settled k t e ns h running (unused e ns rfl)).1
      exact (awaitReply_settled settled).wakeup (.refl _)
  · exact (awaitReply_settled h).wakeup (.refl _)

theorem sendSyncRequest_meets {session : Option Nat} :
    Meets WaitFault (k.sendSyncRequest t session pause) fun reply => reply.2.Settled := by
  unfold sendSyncRequest
  split
  · exact meets_ok h
  · apply meets_ite
    · exact fun _ => meets_ok h
    · intro _
      apply meets_bind (handleSyncRequest_meets h running unused)
      exact fun k' h' => meets_ok h'

end

theorem quiet_emptySession {f : ServerSession → ServerSession}
    (pending : (f (k.serverSession s)).pendingRequestingThreads = [])
    (handling : (f (k.serverSession s)).currentlyHandling = none) : Quiet k (k.setSession s f) := by
  apply quiet_setSession
  · rintro t (mem | handled)
    · rw [pending] at mem
      cases mem
    · rw [handling] at handled
      cases handled
  · rw [pending]
    exact List.nodup_nil
  · intro t handled
    rw [handling] at handled
    cases handled

theorem quiet_createSession {port : Option Nat} {hle : Bool}
    (empty : k.waitingThreads (.serverSession s) = []) : Quiet k (k.createSession s port hle) := by
  have emptied : Quiet k (k.setSession s fun _ =>
      { client := true, server := true, port, hleHandler := hle }) := quiet_emptySession rfl rfl
  exact emptied.quiet (quiet_setWaiting empty)

theorem closeClientSession_meets (h : k.Settled) :
    Meets WaitFault (k.closeClientSession s) Settled := by
  apply meets_ite
  · exact fun _ => h.wakeup (quiet_emptySession rfl rfl)
  · intro _
    apply h.quiet
    exact quiet_setSession (fun _ => id) (h.requests.nodup s) (h.requests.apart s)

theorem connectionClosed_quiet {p : Option Nat} :
    Meets WaitFault (k.connectionClosed p) (Quiet k) := by
  unfold connectionClosed
  split
  · exact meets_ok (.refl k)
  · apply meets_assert (by simp [WaitFault])
    exact fun _ => meets_ok ⟨rfl, rfl, fun _ _ => id, id⟩

theorem connect_meets (h : k.Settled) (unused : k.Unused (.serverSession s)) :
    Meets WaitFault (k.connect p s) fun reply => reply.2.Settled := by
  apply meets_ite
  · exact fun _ => meets_ok h
  · intro _
    have counted : Quiet k (k.setPort p fun port =>
      { port with activeSessions := port.activeSessions + 1 }) := ⟨rfl, rfl, fun _ _ => id, id⟩
    have created := fun hle => counted.quiet
      (@quiet_createSession _ s (some p) hle (h.unused unused))
    apply meets_bind
    · apply h.wakeup
      split_ifs
      · exact created _
      · exact (created _).quiet ⟨rfl, rfl, fun _ _ => id, id⟩
    · exact fun k' h' => meets_ok h'

theorem closeServerSession_meets (h : k.Settled) :
    Meets WaitFault (k.closeServerSession s) Settled := by
  apply meets_bind connectionClosed_quiet
  intro k' closed
  exact (h.quiet closed).quiet (quiet_emptySession rfl rfl)

theorem quiet_accept : Quiet k (k.accept p).2 := by
  unfold accept
  split
  · exact .refl k
  · exact ⟨rfl, rfl, fun _ _ => id, id⟩

theorem quiet_createTimer {resetType : ResetType}
    (empty : k.waitingThreads (.timer i) = []) : Quiet k (k.createTimer i resetType) := by
  have set : Quiet k (k.setTimer i fun _ => { resetType }) := ⟨rfl, rfl, fun _ _ => id, id⟩
  exact set.quiet (quiet_setWaiting empty)

theorem quiet_createSemaphore {max : Int}
    (empty : k.waitingThreads (.semaphore s) = []) : Quiet k (k.createSemaphore s initial max).2 := by
  unfold createSemaphore
  split_ifs
  · exact .refl k
  · have set : Quiet k (k.setSemaphore s fun _ => { maxCount := max, availableCount := initial }) :=
      ⟨rfl, rfl, fun _ _ => id, id⟩
    exact set.quiet (quiet_setWaiting empty)

theorem quiet_createPort {maxSessions : Nat} {hle : Bool}
    (empty : k.waitingThreads (.serverPort p) = []) : Quiet k (k.createPort p maxSessions hle) := by
  have set : Quiet k (k.setPort p fun _ => { maxSessions, hleHandler := hle }) :=
    ⟨rfl, rfl, fun _ _ => id, id⟩
  exact set.quiet (quiet_setWaiting empty)

theorem createMutex_quiet {m : MutexId} {locked : Bool} (empty : k.waitingThreads (.mutex m) = []) :
    Meets WaitFault (k.createMutex m locked t) (Quiet k) := by
  have set : Quiet k ((k.setMutex m fun mutex =>
      { mutex with lockCount := 0, holdingThread := none }).setWaiting (.mutex m) fun _ => []) :=
    (quiet_setMutex m _).quiet (quiet_setWaiting empty)
  apply meets_ite
  · intro _
    apply acquire_quiet.mono
    exact fun k' => set.quiet
  · exact fun _ => meets_ok set

theorem signalEvent_meets {e : Nat} (h : k.Settled) :
    Meets WaitFault (k.signalEvent e) Settled := h.wakeup ⟨rfl, rfl, fun _ _ => id, id⟩

theorem quiet_setTimer {f : Timer → Timer} : Quiet k (k.setTimer i f) :=
  ⟨rfl, rfl, fun _ _ => id, id⟩

theorem signalTimer_meets (h : k.Settled) : Meets WaitFault (k.signalTimer i) Settled := by
  apply meets_bind (h.wakeup quiet_setTimer)
  intro k' h'
  split_ifs
  · exact h'.quiet quiet_setTimer
  · exact h'

theorem setTimerDelays_meets {interval : Int} (h : k.Settled) :
    Meets WaitFault (k.setTimerDelays i initial interval) fun reply => reply.2.Settled := by
  have cancelled : Quiet k ((k.cancelTimer i).setTimer i fun timer =>
      { timer with initialDelay := initial, intervalDelay := interval }) :=
    Rewires.quiet quiet_setTimer quiet_setTimer
  apply meets_ite
  · exact fun _ => meets_ok h
  · intro _
    apply meets_ite
    · intro _
      apply meets_bind (signalTimer_meets (h.quiet cancelled))
      exact fun k' h' => meets_ok h'
    · intro _
      have counted := @quiet_setTimer ((k.cancelTimer i).setTimer i fun timer =>
        { timer with initialDelay := initial, intervalDelay := interval }) i fun timer =>
          { timer with callbackEvents := timer.callbackEvents + 1 }
      exact (h.quiet cancelled).quiet counted

theorem releaseSemaphore_meets {n : Int} (h : k.Settled) :
    Meets WaitFault (k.releaseSemaphore s n) fun reply => reply.2.Settled := by
  apply meets_ite
  · exact fun _ => meets_ok h
  · intro _
    have counted : Quiet k (k.setSemaphore s fun semaphore =>
      { semaphore with availableCount := semaphore.availableCount + n }) :=
        ⟨rfl, rfl, fun _ _ => id, id⟩
    apply meets_bind (h.wakeup counted)
    exact fun k' h' => meets_ok h'

theorem setPriority_quiet : Meets WaitFault (k.setPriority t priority) (Quiet k) := by
  apply meets_assert (by simp [WaitFault])
  intro _
  exact (quiet_setQueue _ _).quiet (quiet_setThread t _ fun _ => ⟨rfl, rfl, rfl⟩)

theorem setThreadPriority_quiet {thread : Option ThreadId} {limit : Nat} :
    Meets WaitFault (k.setThreadPriority thread priority limit) fun reply => Quiet k reply.2 := by
  apply meets_ite
  · exact fun _ => meets_ok (.refl k)
  · intro _
    split
    · exact meets_ok (.refl k)
    · apply meets_ite
      · exact fun _ => meets_ok (.refl k)
      · intro _
        apply meets_bind setPriority_quiet
        intro k' set
        exact (set.quiet quiet_updatePriority).quiet quiet_updateMutexPriorities

/-- The faults that stay ruled out where the ready queues are read, too. -/
def StatusFault (fault : Fault) : Prop :=
  fault = .assertion .waitingStatus ∨ fault = .assertion .resumeWaiting

theorem Waits.awake_free (h : k.Waits ex) (ne : ¬ ex t) {status : ThreadStatus}
    (own : k.statusOf t = status)
    (awake : ¬ WaitStatus status ∧ status ≠ .waitIPC ∧ status ≠ .dead) :
    (k.thread t).waitObjects = [] ∧ ∀ s, ¬ (k.serverSession s).Engaged t := by
  subst own
  exact ⟨h.objects_nil ne awake.1, fun s => h.not_engaged awake.2.1 awake.2.2⟩

theorem no_fuel : ¬ StatusFault .outOfFuel := by simp [StatusFault]

theorem no_undefined : ¬ StatusFault .undefinedBehaviour := by simp [StatusFault]

theorem sleepThread_meets (h : k.Settled) (running : k.statusOf t = .running) :
    Meets StatusFault (k.sleepThread core t ns) Settled := by
  obtain ⟨idle, free, _⟩ := h.of_running running
  have asleep : ((k.setStatus t .waitSleep).wakeAfterDelay t ns).Settled := by
    have slept : (k.setStatus t .waitSleep).Settled :=
      h.setThread _ free (Or.inl idle) nofun rfl
    apply slept.delay id free
    rw [setStatus, statusOf_setThread, if_pos rfl]
    exact nofun
  apply meets_bind (P := fun _ => True)
  · apply meets_bind (ThreadQueueList.findNonempty_meets no_fuel no_undefined)
    exact fun _ _ => meets_ok trivial
  · intro first _
    apply meets_ite
    · exact fun _ => meets_ok h
    · exact fun _ => meets_ok asleep

theorem Restatus.trans {k'' : Kernel} (first : Restatus k k' t) (second : Restatus k' k'' t) :
    Restatus k k'' t := by
  refine ⟨second.graph.trans first.graph, fun u ne => ?_, second.sessions.trans first.sessions⟩
  obtain ⟨status, events⟩ := first.others u ne
  obtain ⟨status', events'⟩ := second.others u ne
  exact ⟨status'.trans status, events'.trans events⟩

theorem restatus_wakeAfterDelay (k : Kernel) (t : ThreadId) (ns : Int) :
    Restatus k (k.wakeAfterDelay t ns) t := by
  unfold wakeAfterDelay
  split_ifs
  · exact ⟨rfl, fun _ _ => ⟨rfl, rfl⟩, rfl⟩
  · exact restatus_setThread k t _ rfl

theorem restatus_arbiterWait (k : Kernel) (t : ThreadId) (a address : Nat) :
    Restatus k (k.arbiterWait a t address) t := by
  have waits := restatus_setThread k t (fun thread =>
    { thread with waitAddress := address, status := .waitArb }) rfl
  exact ⟨waits.graph, waits.others, waits.sessions⟩

theorem statusOf_arbiterWait (a address : Nat) :
    (k.arbiterWait a t address).statusOf t = .waitArb := by
  have waits := @statusOf_setThread k t t fun thread =>
    { thread with waitAddress := address, status := .waitArb }
  exact waits.trans (if_pos rfl)

theorem arbiterWait_settled (h : k.Settled) (idle : (k.thread t).waitObjects = [])
    (free : ∀ s, ¬ (k.serverSession s).Engaged t) : (k.arbiterWait a t address).Settled := by
  apply h.restatus (restatus_arbiterWait k t a address) (Or.inl idle) free
  rw [statusOf_arbiterWait]
  exact nofun

/-- Threads that an arbiter keeps, or that have been resumed. -/
def Arbitrated (k : Kernel) (threads : List ThreadId) : Prop :=
  ∀ t ∈ threads, k.statusOf t = .waitArb ∨ k.statusOf t = .ready

theorem Arbitrated.resume (h : k.Settled) (waiting : k.Arbitrated threads) (member : t ∈ threads) :
    Meets WaitFault (k.resumeFromWait t) fun k' => k'.Settled ∧ k'.Arbitrated threads := by
  have awake : ∃ status, k.statusOf t = status ∧
      ¬ WaitStatus status ∧ status ≠ .waitIPC ∧ status ≠ .dead := by
    rcases waiting t member with eq | eq <;> exact ⟨_, eq, by decide⟩
  obtain ⟨status, own, awake⟩ := awake
  obtain ⟨idle, free⟩ := h.awake_free id own awake
  apply (resumeFromWait_spec (fun _ => idle) (by simp [WaitFault])).mono
  rintro k' (⟨rfl, _⟩ | ⟨rfl, _⟩)
  · exact ⟨h, waiting⟩
  · refine ⟨h.restatus restatus_makeReady (Or.inl idle) free ?_, fun u inside => ?_⟩
    · rw [statusOf_makeReady]
      rintro ⟨⟩
    · by_cases same : u = t
      · rw [same]
        exact Or.inr statusOf_makeReady
      · rw [(restatus_makeReady.others u same).1]
        exact waiting u inside

theorem resumeAll_meets (h : k.Settled) (waiting : k.Arbitrated threads) :
    Meets WaitFault (k.resumeAll threads) Settled := by
  induction threads generalizing k with
  | nil => exact meets_ok h
  | cons t rest ih =>
    apply meets_bind (waiting.resume h List.mem_cons_self)
    rintro k' ⟨h', waiting'⟩
    exact ih h' fun u inside => waiting' u (List.mem_cons_of_mem t inside)

theorem quiet_setArbiter {f : List ThreadId → List ThreadId} :
    Quiet k (k.setArbiter a f) := ⟨rfl, rfl, fun _ _ => id, id⟩

theorem resumeAllThreads_meets (h : k.Settled) :
    Meets WaitFault (k.resumeAllThreads a address) Settled := by
  apply meets_assert (by simp [WaitFault])
  intro waiting
  rw [List.partition_eq_filter_filter]
  apply meets_bind (resumeAll_meets h _)
  · exact fun k' h' => meets_ok (h'.quiet quiet_setArbiter)
  · exact fun u inside => Or.inl (waiting u (List.mem_of_mem_filter inside))

theorem minThread_mem (found : k.minThread threads = some t) : t ∈ threads := by
  induction threads generalizing t with
  | nil => cases found
  | cons u rest ih =>
    unfold minThread at found
    split at found
    · cases found
      exact List.mem_cons_self
    · next v best =>
        split_ifs at found
        · cases found
          exact List.mem_cons_of_mem u (ih best)
        · cases found
          exact List.mem_cons_self

section

variable (h : k.Settled)
include h

theorem resumeHighestPriorityThread_meets :
    Meets WaitFault (k.resumeHighestPriorityThread a address) Settled := by
  apply meets_assert (by simp [WaitFault])
  intro waiting
  rw [List.partition_eq_filter_filter]
  dsimp only
  split
  · exact meets_ok (h.quiet quiet_setArbiter)
  · next t best =>
      have inside := minThread_mem best
      have arbitrated : k.Arbitrated [t] := by
        intro u only
        rw [List.mem_singleton.mp only]
        exact Or.inl (waiting t (List.mem_of_mem_filter inside))
      apply meets_bind (arbitrated.resume h List.mem_cons_self)
      exact fun k' h' => meets_ok (h'.1.quiet quiet_setArbiter)

theorem resumeFirst_meets {n : Nat} : Meets WaitFault (resumeFirst a address n k) Settled := by
  induction n generalizing k with
  | zero => exact meets_ok h
  | succ n ih =>
    apply meets_bind (resumeHighestPriorityThread_meets h)
    exact fun k' h' => ih h'

theorem arbitrateAddress_meets {type : ArbitrationType} {memory value : Int}
    (running : k.statusOf t = .running) :
    Meets WaitFault (k.arbitrateAddress a t type address memory value ns)
      fun reply => reply.2.Settled := by
  obtain ⟨idle, free, _⟩ := h.of_running running
  cases type with
  | signal =>
    apply meets_ite
    · intro _
      apply meets_bind (resumeAllThreads_meets h)
      exact fun k' h' => meets_ok h'
    · intro _
      apply meets_bind (resumeFirst_meets h)
      exact fun k' h' => meets_ok h'
  | waitIfLessThan | decrementAndWaitIfLessThan =>
    apply meets_ok
    split_ifs
    · exact arbiterWait_settled h idle free
    · exact h
  | waitIfLessThanWithTimeout | decrementAndWaitIfLessThanWithTimeout =>
    apply meets_ok
    split_ifs
    · have called := restatus_setThread k t (fun thread =>
        { thread with wakeupCallback := some (.addressArbiter a) }) rfl
      have delayed := called.trans (restatus_wakeAfterDelay _ t ns)
      have waits := delayed.trans (restatus_arbiterWait _ t a address)
      apply h.restatus waits (Or.inl idle) free
      rw [statusOf_arbiterWait]
      exact nofun
    · exact h
  | other value => exact meets_ok h

theorem threadWakeupCallback_meets (free : ∀ s, ¬ (k.serverSession s).Engaged t) :
    Meets WaitFault (k.threadWakeupCallback t) Settled := by
  apply meets_ite
  · intro _
    apply meets_bind (invokeCallback_quiet h)
    intro k₁ called
    have h₁ : (k₁.clearWaitObjects t).Settled := (h.quiet called).clear (fun _ _ => id) fun _ => id
    have free₁ : ∀ s, ¬ ((k₁.clearWaitObjects t).serverSession s).Engaged t := fun s engaged =>
      free s (called.engaged s t ((rewires_clearWaitObjects k₁ t).engaged s t engaged))
    apply (resumeFromWait_meets h₁ (waitObjects_clearWaitObjects k₁ t) free₁).mono
    exact fun k' next => next.1
  · intro other
    have idle : (k.thread t).waitObjects = [] := h.objects_nil id fun waits => other (Or.inl waits)
    apply (resumeFromWait_meets h idle free).mono
    exact fun k' next => next.1

theorem timeout_meets (scheduled : 0 < k.eventsOf t) :
    Meets WaitFault ((k.setThread t fun thread =>
      { thread with wakeupEvents := thread.wakeupEvents - 1 }).threadWakeupCallback t) Settled := by
  have free : ∀ s, ¬ (k.serverSession s).Engaged t := by
    intro s engaged
    have none := (h.requests.parked s t engaged).2
    omega
  apply threadWakeupCallback_meets
  · apply h.setThread _ free (h.idle_or_status id)
    · intro running
      have none := h.requests.running t running
      omega
    · rfl
  · exact free

theorem createThread_meets {processorId : Int} {validEntry tlsPage : Bool}
    (dormant : k.statusOf t = .dormant) :
    Meets WaitFault (k.createThread t priority processorId validEntry tlsPage)
      fun reply => reply.2.Settled := by
  obtain ⟨idle, free⟩ := h.awake_free id dormant (by decide)
  have made : ∀ core, (k.registerThread core t priority).Settled := by
    intro core
    have named := h.quiet (quiet_setManager core fun manager =>
      { manager with
        threadList := manager.threadList ++ [t]
        readyQueue := manager.readyQueue.prepare priority })
    exact named.setThread
      (fun _ => { nominalPriority := priority, currentPriority := priority, coreId := core }) free
      (Or.inl idle) (by rintro ⟨⟩) idle.symm
  apply createThread_leaves (by simp [WaitFault]) h
  · exact fun _ core => made core
  · intro _ core
    have queued := (made core).quiet (quiet_setQueue core fun queue => queue.pushBack priority t)
    refine queued.setThread (t := t) (fun thread => { thread with status := .ready }) free
      (Or.inl ?_) (by rintro ⟨⟩) rfl
    simp [registerThread, setQueue, setManager, setThread]

theorem preempt_settled : (k.preempt core).Settled := by
  unfold preempt
  split
  · exact h
  · next previous _ =>
      split_ifs with running
      · obtain ⟨idle, free, _⟩ := h.of_running running
        have queued := h.quiet (quiet_setQueue core fun queue =>
          queue.pushFront (k.thread previous).currentPriority previous)
        exact queued.setThread _ free (Or.inl idle) nofun rfl
      · exact h

theorem switchContext_meets {next : Option ThreadId} :
    Meets StatusFault (k.switchContext core next) Settled := by
  have preempted : (k.preempt core).Settled := preempt_settled h
  unfold switchContext
  split
  · exact meets_ok (preempted.quiet (quiet_setManager core _))
  · next t =>
      apply meets_assert (by simp [StatusFault])
      intro ready
      obtain ⟨idle, free⟩ := preempted.awake_free id ready (by decide)
      have entered := preempted.quiet (quiet_setManager core fun manager =>
        { manager with
          currentThread := some t
          readyQueue := manager.readyQueue.remove ((k.preempt core).thread t).currentPriority t })
      exact entered.setThread _ free (Or.inl idle) (fun _ => rfl) rfl

end

theorem popSchedulable_meets {pop : KernelQueue → Exec (Option ThreadId × KernelQueue)}
    (pops : ∀ queue, Meets StatusFault (pop queue) fun _ => True) {fuel : Nat}
    {queue : KernelQueue} {unscheduled : List ThreadId} :
    Meets StatusFault (k.popSchedulable pop fuel queue unscheduled) fun _ => True := by
  induction fuel generalizing queue unscheduled with
  | zero => exact meets_error no_fuel
  | succ fuel ih =>
    apply meets_bind (pops queue)
    rintro ⟨next, rest⟩ _
    dsimp only
    split
    · exact meets_ok trivial
    · apply meets_ite
      · exact fun _ => meets_ok trivial
      · exact fun _ => ih

theorem reschedule_meets (h : k.Settled) : Meets StatusFault (k.reschedule core) Settled := by
  apply meets_bind (P := fun found => Quiet k found.2)
  · apply meets_bind (popSchedulable_meets _)
    · rintro ⟨next, queue, unscheduled⟩ _
      exact meets_ok (@quiet_setQueue k core fun _ => k.requeue queue unscheduled)
    · intro queue
      unfold popFor
      split <;> exact ThreadQueueList.pop_meets no_fuel no_undefined
  · rintro ⟨next, k'⟩ popped
    apply meets_ite
    · exact fun _ => meets_ok (h.quiet popped)
    · exact fun _ => switchContext_meets (h.quiet popped)

/-- `Stop` up to its wakeups. -/
def killed (k : Kernel) (t : ThreadId) : Kernel :=
  let k := k.setThread t fun thread => { thread with wakeupEvents := 0 }
  let k := if (k.thread t).status = .ready then
    k.setQueue (k.thread t).coreId fun queue => queue.remove (k.thread t).currentPriority t else k
  k.setThread t fun thread => { thread with status := .dead }

theorem killed_restatus (k : Kernel) (t : ThreadId) : Restatus k (k.killed t) t := by
  have still := restatus_setThread k t (fun thread => { thread with wakeupEvents := 0 }) rfl
  have unqueued : ∀ (k : Kernel) (p : Prop) [Decidable p] core f,
      Restatus k (if p then k.setQueue core f else k) t := by
    intro k p _ core f
    split_ifs <;> exact ⟨rfl, fun _ _ => ⟨rfl, rfl⟩, rfl⟩
  exact (still.trans (unqueued _ _ _ _)).trans
    (restatus_setThread _ t (fun thread => { thread with status := .dead }) rfl)

theorem statusOf_killed : (k.killed t).statusOf t = .dead := by
  unfold killed
  rw [statusOf_setThread, if_pos rfl]

theorem eventsOf_killed : (k.killed t).eventsOf t = 0 := by
  unfold killed
  rw [eventsOf_setThread, if_pos rfl]
  split_ifs <;> simp [setQueue, setManager, setThread]

theorem killed_waits (h : k.Settled) :
    (k.killed t).Waits fun u => u = t ∧ (k.thread t).waitObjects ≠ [] := by
  have killed := killed_restatus k t
  constructor
  · rw [killed.graph]
    exact h.agree
  · intro u ne some
    rw [objects_of_graph killed.graph] at some
    have other : u ≠ t := by
      rintro rfl
      exact ne ⟨rfl, some⟩
    rw [(killed.others u other).1]
    exact h.asleep u id some
  · rintro u ⟨rfl, some⟩ s engaged
    rw [killed.sessions] at engaged
    exact some (h.idle engaged)
  · rw [Requests, killed.sessions]
    exact h.requests.kill killed.others statusOf_killed eventsOf_killed

theorem stop_meets (h : k.Settled) (other : .thread t ∉ (k.thread t).waitObjects) :
    Meets WaitFault (k.stop t) Settled := by
  have waits := @killed_waits k t h
  apply meets_bind (P := Waits fun u => u = t ∧ (k.thread t).waitObjects ≠ [])
  · apply wakeupAllWaitingThreads_meets waits
    rintro u inside ⟨rfl, _⟩
    apply other
    rw [← objects_of_graph (killed_restatus k u).graph]
    exact waits.mem_waiting.mp inside
  · intro k' waits'
    have cleared : (k'.clearWaitObjects t).Settled :=
      waits'.clear (fun u ne exempt => ne exempt.1) fun _ => False.elim
    exact releaseThreadMutexes_meets cleared

theorem selectThread_stuck {candidate : Option ThreadId}
    (stuck : ∃ t ∈ threads, ¬ WaitStatus (k.statusOf t)) :
    k.selectThread o threads candidate priority = .error (.assertion .waitingStatus) := by
  induction threads generalizing candidate priority with
  | nil =>
    obtain ⟨t, none, _⟩ := stuck
    cases none
  | cons t rest ih =>
    unfold selectThread
    by_cases waits : WaitStatus (k.thread t).status
    · have later : ∃ u ∈ rest, ¬ WaitStatus (k.statusOf u) := by
        obtain ⟨u, inside, other⟩ := stuck
        rcases List.mem_cons.mp inside with rfl | inside
        · exact absurd waits other
        · exact ⟨u, inside, other⟩
      rw [assert_pos waits, ih later, ih later]
      split_ifs <;> rfl
    · unfold assert
      rw [if_neg waits]
      rfl

theorem stop_stuck (h : k.Settled) (own : .thread t ∈ (k.thread t).waitObjects) :
    k.stop t = .error (.assertion .waitingStatus) := by
  have killed := killed_restatus k t
  have inside : t ∈ (k.killed t).waitingThreads (.thread t) := by
    rw [waiting_of_graph killed.graph]
    exact h.mem_waiting.mpr own
  have stuck : (k.killed t).wakeupAllWaitingThreads (.thread t) =
      .error (.assertion .waitingStatus) := by
    unfold wakeupAllWaitingThreads wakeLoop getHighestPriorityReadyThread
    rw [selectThread_stuck ⟨t, inside, ?_⟩]
    · rfl
    · rw [statusOf_killed]
      decide
  show ((k.killed t).wakeupAllWaitingThreads (.thread t) >>= _) = _
  rw [stuck]
  rfl

theorem exitCurrentThread_meets (h : k.Settled) (running : k.statusOf t = .running) :
    Meets WaitFault (k.exitCurrentThread core t) Settled := by
  obtain ⟨idle, _⟩ := h.of_running running
  apply meets_bind (stop_meets h _)
  · exact fun k' h' => meets_ok (h'.quiet (quiet_setManager core _))
  · rw [idle]
    exact List.not_mem_nil

end EmuThreeDS.Kernel
