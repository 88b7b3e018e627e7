import EmuThreeDS.Kernel.Changes

/-!
# What the changes leave alone

The objects that no calm change touches, and the fields of threads that the scheduler keeps.
-/
namespace EmuThreeDS.Kernel

variable {k k' k'' : Kernel} {t u : ThreadId} {o : WaitObject} {m : MutexId}

def OnlyThreads (k k' : Kernel) : Prop :=
  ∃ manager thread, k' = { k with manager := manager, thread := thread }

theorem OnlyThreads.trans (first : OnlyThreads k k') (second : OnlyThreads k' k'') :
    OnlyThreads k k'' := by
  obtain ⟨_, _, rfl⟩ := first
  obtain ⟨manager, thread, rfl⟩ := second
  exact ⟨manager, thread, rfl⟩

theorem onlyThreads_setThread (t : ThreadId) (f : Thread → Thread) :
    OnlyThreads k (k.setThread t f) := ⟨_, _, rfl⟩

theorem onlyThreads_setManager (core : Nat) (f : ThreadManager → ThreadManager) :
    OnlyThreads k (k.setManager core f) := ⟨_, _, rfl⟩

structure SameObjects (k k' : Kernel) : Prop where
  event : k'.event = k.event
  timer : k'.timer = k.timer
  semaphore : k'.semaphore = k.semaphore
  serverPort : k'.serverPort = k.serverPort
  serverSession : k'.serverSession = k.serverSession

theorem SameObjects.refl (k : Kernel) : SameObjects k k := ⟨rfl, rfl, rfl, rfl, rfl⟩

theorem SameObjects.trans (first : SameObjects k k') (second : SameObjects k' k'') :
    SameObjects k k'' :=
  ⟨second.event.trans first.event, second.timer.trans first.timer,
    second.semaphore.trans first.semaphore, second.serverPort.trans first.serverPort,
    second.serverSession.trans first.serverSession⟩

theorem OnlyThreads.objects (h : OnlyThreads k k') : SameObjects k k' := by
  obtain ⟨manager, thread, rfl⟩ := h
  exact ⟨rfl, rfl, rfl, rfl, rfl⟩

theorem Calm.objects (h : Calm k k') : SameObjects k k' := by
  cases h <;> exact ⟨rfl, rfl, rfl, rfl, rfl⟩

theorem Calms.objects (h : Calms k k') : SameObjects k k' := by
  induction h with
  | refl => exact .refl k
  | tail _ step ih => exact ih.trans step.objects

/-- The scheduler changes statuses, and the wakeups of a thread that it runs. -/
structure Reschedules (k k' : Kernel) : Prop where
  only : OnlyThreads k k'
  thread : ∀ u, ∃ status events,
    k'.thread u = { k.thread u with status := status, wakeupEvents := events }
  status : ∀ u, k'.thread u = k.thread u ∨
    (k.statusOf u = .running ∨ k.statusOf u = .ready) ∧
      (k'.statusOf u = .running ∨ k'.statusOf u = .ready)

variable {core priority : Nat}

theorem Reschedules.of_manager {f : ThreadManager → ThreadManager} :
    Reschedules k (k.setManager core f) :=
  ⟨onlyThreads_setManager core f, fun _ => ⟨_, _, rfl⟩, fun _ => Or.inl rfl⟩

theorem Reschedules.trans (first : Reschedules k k') (second : Reschedules k' k'') :
    Reschedules k k'' := by
  refine ⟨first.only.trans second.only, fun u => ?_, fun u => ?_⟩
  · obtain ⟨_, _, same⟩ := first.thread u
    obtain ⟨status, events, same'⟩ := second.thread u
    exact ⟨status, events, by rw [same', same]⟩
  · rcases first.status u with same | ⟨before, between⟩
    · have status : k'.statusOf u = k.statusOf u := congrArg Thread.status same
      rw [← same, ← status]
      exact second.status u
    · rcases second.status u with same | ⟨_, after⟩
      · have status : k''.statusOf u = k'.statusOf u := congrArg Thread.status same
        rw [← status] at between
        exact Or.inr ⟨before, between⟩
      · exact Or.inr ⟨before, after⟩

theorem Reschedules.statuses (h : Reschedules k k') (u : ThreadId) :
    k'.statusOf u = k.statusOf u ∨ (k.statusOf u = .running ∨ k.statusOf u = .ready) ∧
      (k'.statusOf u = .running ∨ k'.statusOf u = .ready) :=
  (h.status u).imp_left fun same => congrArg Thread.status same

theorem Reschedules.of_setThread {status : ThreadStatus} {events : Thread → Nat}
    (before : k.statusOf t = .running ∨ k.statusOf t = .ready)
    (after : status = .running ∨ status = .ready) :
    Reschedules k (k.setThread t fun thread =>
      { thread with status := status, wakeupEvents := events thread }) := by
  refine ⟨onlyThreads_setThread t _, fun u => ?_, fun u => ?_⟩
  · rw [thread_setThread]
    split_ifs with same
    · rw [same]
      exact ⟨_, _, rfl⟩
    · exact ⟨_, _, rfl⟩
  · rw [statusOf_setThread, thread_setThread]
    split_ifs with same
    · rw [same]
      exact Or.inr ⟨before, after⟩
    · exact Or.inl rfl

theorem preempt_reschedules : Reschedules k (k.preempt core) := by
  unfold preempt
  split
  · exact ⟨⟨_, _, rfl⟩, fun _ => ⟨_, _, rfl⟩, fun _ => Or.inl rfl⟩
  · next previous _ =>
      split_ifs with running
      · have queued : Reschedules k (k.setQueue core fun queue =>
          queue.pushFront (k.thread previous).currentPriority previous) := .of_manager
        exact queued.trans (@Reschedules.of_setThread _ previous .ready (·.wakeupEvents)
          (Or.inl running) (Or.inr rfl))
      · exact ⟨⟨_, _, rfl⟩, fun _ => ⟨_, _, rfl⟩, fun _ => Or.inl rfl⟩

theorem switchContext_reschedules {next : Option ThreadId} :
    Returns (k.switchContext core next) (Reschedules k) := by
  unfold switchContext
  split
  · exact meets_ok (preempt_reschedules.trans .of_manager)
  · next t =>
      apply meets_assert False.elim
      intro ready
      apply preempt_reschedules.trans
      apply Reschedules.of_manager.trans
      exact @Reschedules.of_setThread _ t .running (fun _ => 0) (Or.inr ready) (Or.inl rfl)

theorem reschedule_reschedules : Returns (k.reschedule core) (Reschedules k) := by
  apply meets_bind (P := fun found => Reschedules k found.2)
  · apply meets_bind (meets_of_ok fun _ _ => trivial)
    intro found _
    have queued : Reschedules k (k.setQueue core fun _ => k.requeue found.2.1 found.2.2) :=
      .of_manager
    exact meets_ok queued
  · rintro ⟨next, k₁⟩ popped
    apply meets_ite
    · exact fun _ => meets_ok popped
    · exact fun _ => switchContext_reschedules.mono fun _ => popped.trans

theorem setPriority_only : Returns (k.setPriority t priority) (OnlyThreads k) := by
  apply meets_assert False.elim
  exact fun _ => meets_ok ((onlyThreads_setManager _ _).trans (onlyThreads_setThread t _))

theorem boostPriority_only (priority : Nat) : OnlyThreads k (k.boostPriority t priority) :=
  (onlyThreads_setManager _ _).trans (onlyThreads_setThread t _)

theorem updatePriority_only (t : ThreadId) : OnlyThreads k (k.updatePriority t) :=
  boostPriority_only _

theorem createThread_only {processorId : Int} {validEntry tlsPage : Bool} :
    Returns (k.createThread t priority processorId validEntry tlsPage)
      fun reply => OnlyThreads k reply.2 :=
  createThread_leaves id ⟨_, _, rfl⟩ (fun _ _ => ⟨_, _, rfl⟩) fun _ _ => ⟨_, _, rfl⟩

theorem killed_only : OnlyThreads k (k.killed t) := by
  unfold killed
  dsimp only
  split_ifs <;> exact ⟨_, _, rfl⟩

theorem unlocked_objects {m : MutexId} : SameObjects k (k.unlocked m t) := by
  unfold unlocked
  dsimp only
  split_ifs
  · have dropped : SameObjects k ((k.setMutex m fun mutex =>
        { mutex with lockCount := mutex.lockCount - 1 }).setThread t fun thread =>
          { thread with heldMutexes := thread.heldMutexes.erase m }) := ⟨rfl, rfl, rfl, rfl, rfl⟩
    have updated := dropped.trans (updatePriority_only t).objects
    exact ⟨updated.event, updated.timer, updated.semaphore, updated.serverPort,
      updated.serverSession⟩
  · exact ⟨rfl, rfl, rfl, rfl, rfl⟩

theorem lockMutex_objects : SameObjects k (k.lockMutex m t) := by
  have locked : SameObjects k ((k.setMutex m fun mutex =>
      { mutex with priority := (k.thread t).currentPriority, holdingThread := some t }).setThread t
        fun thread => { thread with heldMutexes := FlatSet.insert m thread.heldMutexes }) :=
    ⟨rfl, rfl, rfl, rfl, rfl⟩
  exact locked.trans (boostPriority_only _).objects

/-- `Semaphore::Acquire` takes one slot, if there is one, and `ServerSession::Acquire` takes the
newest request. Ports are not changed. -/
theorem acquire_takes : Returns (k.acquire o t) fun k' =>
    (k'.semaphore = match o with
      | .semaphore s => if (k.semaphore s).availableCount ≤ 0 then k.semaphore
          else Function.update k.semaphore s
            { k.semaphore s with availableCount := (k.semaphore s).availableCount - 1 }
      | _ => k.semaphore) ∧
    (k'.serverSession = k.serverSession ∨ ∃ s, (k.serverSession s).currentlyHandling = none ∧
      k'.serverSession = Function.update k.serverSession s
        { k.serverSession s with
          currentlyHandling := (k.serverSession s).pendingRequestingThreads.getLast?
          pendingRequestingThreads := (k.serverSession s).pendingRequestingThreads.dropLast }) ∧
    k'.serverPort = k.serverPort := by
  unfold acquire
  cases o with
  | event e | timer i =>
    apply meets_assert False.elim
    intro _
    split_ifs <;> exact ⟨rfl, Or.inl rfl, rfl⟩
  | mutex n =>
    apply meets_assert False.elim
    intro _
    have locked := @lockMutex_objects k t n
    split_ifs
    · exact ⟨locked.semaphore, Or.inl locked.serverSession, locked.serverPort⟩
    · exact ⟨rfl, Or.inl rfl, rfl⟩
  | semaphore s =>
    dsimp only
    split_ifs <;> exact ⟨rfl, Or.inl rfl, rfl⟩
  | thread u | serverPort p =>
    apply meets_assert False.elim
    exact fun _ => meets_ok ⟨rfl, Or.inl rfl, rfl⟩
  | serverSession s =>
    apply meets_assert False.elim
    intro available
    apply meets_ite
    · exact fun _ => meets_ok ⟨rfl, Or.inl rfl, rfl⟩
    · intro opened
      apply meets_assert False.elim
      intro _
      refine meets_ok ⟨rfl, Or.inr ⟨s, ?_, rfl⟩, rfl⟩
      simp only [shouldWait, Bool.and_eq_true, Bool.or_eq_true, not_and, not_or] at available
      simpa using (available (by simpa using opened)).2

end EmuThreeDS.Kernel
