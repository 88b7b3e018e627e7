import EmuThreeDS.Lib.WaitGraph
import EmuThreeDS.Kernel.System

/-!
# What leaves the waits alone

Priorities, acquisitions and callbacks change neither who waits for what nor the status of a
thread. The other functions are traced to operations of the wait graph.
-/
namespace EmuThreeDS.Kernel

def graph (k : Kernel) : WaitGraph ThreadId WaitObject :=
  ⟨k.waitingThreads, fun t => (k.thread t).waitObjects⟩

/-- From `k` to `k'` the wait graph becomes `g`, and nothing else changes that waits depend on. -/
structure Rewires (k k' : Kernel) (g : WaitGraph ThreadId WaitObject) : Prop where
  graph : k'.graph = g
  status : k'.statusOf = k.statusOf
  engaged : ∀ s t, (k'.serverSession s).Engaged t → (k.serverSession s).Engaged t
  requests : k.Requests → k'.Requests

abbrev Quiet (k k' : Kernel) : Prop := k.Rewires k' k.graph

variable {k k' k'' : Kernel} {t u : ThreadId} {o : WaitObject} {m : MutexId}
  {g : WaitGraph ThreadId WaitObject}

theorem Quiet.refl (k : Kernel) : Quiet k k := ⟨rfl, rfl, fun _ _ => id, id⟩

theorem Rewires.quiet (first : Rewires k k' g) (second : Quiet k' k'') : Rewires k k'' g :=
  ⟨second.graph.trans first.graph, second.status.trans first.status,
    fun s t => first.engaged s t ∘ second.engaged s t, second.requests ∘ first.requests⟩

theorem Rewires.followed {g' : WaitGraph ThreadId WaitObject} (first : Rewires k k' g)
    (second : Rewires k' k'' g') : Rewires k k'' g' :=
  ⟨second.graph, second.status.trans first.status,
    fun s t => first.engaged s t ∘ second.engaged s t, second.requests ∘ first.requests⟩

theorem engaged_setSession {s s' : Nat} {f : ServerSession → ServerSession}
    (fewer : ∀ t, (f (k.serverSession s)).Engaged t → (k.serverSession s).Engaged t)
    (engaged : ((k.setSession s f).serverSession s').Engaged t) : (k.serverSession s').Engaged t := by
  simp only [setSession, Function.update_apply] at engaged
  split_ifs at engaged with same
  · subst same
    exact fewer t engaged
  · exact engaged

theorem quiet_setMutex (m : MutexId) (f : Mutex → Mutex) : Quiet k (k.setMutex m f) :=
  ⟨rfl, rfl, fun _ _ => id, id⟩

theorem quiet_setManager (core : Nat) (f : ThreadManager → ThreadManager) :
    Quiet k (k.setManager core f) := ⟨rfl, rfl, fun _ _ => id, id⟩

theorem quiet_setQueue (core : Nat) (f : KernelQueue → KernelQueue) : Quiet k (k.setQueue core f) :=
  quiet_setManager core _

theorem quiet_setThread (t : ThreadId) (f : Thread → Thread)
    (keeps : ∀ x, (f x).waitObjects = x.waitObjects ∧ (f x).status = x.status ∧
      (f x).wakeupEvents = x.wakeupEvents) : Quiet k (k.setThread t f) := by
  have same : ∀ {β : Type} (g : Thread → β), (∀ x, g (f x) = g x) →
      (fun u => g ((k.setThread t f).thread u)) = fun u => g (k.thread u) := by
    intro β g keep
    funext u
    rw [thread_setThread]
    split_ifs with eq
    · rw [eq, keep]
    · rfl
  refine ⟨?_, same _ fun x => (keeps x).2.1, fun _ _ => id, ?_⟩
  · exact congrArg (WaitGraph.mk k.waitingThreads) (same _ fun x => (keeps x).1)
  · intro h
    change RequestsParked k.serverSession (k.setThread t f).statusOf (k.setThread t f).eventsOf
    rw [show (k.setThread t f).statusOf = k.statusOf from same _ fun x => (keeps x).2.1,
      show (k.setThread t f).eventsOf = k.eventsOf from same _ fun x => (keeps x).2.2]
    exact h

theorem quiet_boostPriority (priority : Nat) : Quiet k (k.boostPriority t priority) := by
  exact (quiet_setQueue _ _).quiet (quiet_setThread t _ fun _ => ⟨rfl, rfl, rfl⟩)

theorem quiet_updatePriority : Quiet k (k.updatePriority t) := quiet_boostPriority _

theorem quiet_updateMutexPriority : Quiet k (k.updateMutexPriority m) := by
  unfold updateMutexPriority
  split
  · exact .refl k
  · split_ifs
    · exact (quiet_setMutex m _).quiet quiet_updatePriority
    · exact .refl k

theorem quiet_updateMutexPriorities {ms : List MutexId} : Quiet k (k.updateMutexPriorities ms) := by
  induction ms generalizing k with
  | nil => exact .refl k
  | cons m rest ih => exact quiet_updateMutexPriority.quiet ih

theorem quiet_lockMutex : Quiet k (k.lockMutex m t) := by
  apply Rewires.quiet _ quiet_updatePriority
  exact (quiet_setMutex m _).quiet (quiet_setThread t _ fun _ => ⟨rfl, rfl, rfl⟩)

/-- The faults that an agreement of the waits rules out. -/
def WaitFault (fault : Fault) : Prop :=
  fault = .assertion .waitingStatus ∨ fault = .assertion .resumeWaiting ∨ fault = .outOfFuel

theorem acquire_quiet : Meets WaitFault (k.acquire o t) (Quiet k) := by
  have other : ¬ WaitFault (.assertion .objectUnavailable) := by simp [WaitFault]
  have session : ¬ WaitFault (.assertion .session) := by simp [WaitFault]
  cases o with
  | event e | timer i =>
    apply meets_assert (absurd · other)
    intro _
    split_ifs
    · exact ⟨rfl, rfl, fun _ _ => id, id⟩
    · exact .refl k
  | mutex m =>
    apply meets_assert (absurd · other)
    intro _
    split_ifs
    · exact quiet_lockMutex.quiet (quiet_setMutex m _)
    · exact quiet_setMutex m _
  | semaphore s =>
    apply meets_ok
    split_ifs
    · exact .refl k
    · exact ⟨rfl, rfl, fun _ _ => id, id⟩
  | thread u | serverPort p =>
    apply meets_assert (absurd · other)
    exact fun _ => meets_ok (.refl k)
  | serverSession s =>
    apply meets_assert (absurd · other)
    intro _
    apply meets_ite
    · exact fun _ => meets_ok (.refl k)
    · intro _
      apply meets_assert (absurd · session)
      intro _
      exact ⟨rfl, rfl, fun _ _ => engaged_setSession fun _ => .of_take rfl rfl, fun h => h.take rfl rfl⟩

theorem acquireAll_quiet {objects : List WaitObject} :
    Meets WaitFault (k.acquireAll t objects) (Quiet k) := by
  induction objects generalizing k with
  | nil => exact meets_ok (.refl k)
  | cons o rest ih =>
    apply meets_bind acquire_quiet
    exact fun k' first => ih.mono fun k'' => first.quiet

theorem acquireFor_quiet : Meets WaitFault (k.acquireFor o t) (Quiet k) := by
  unfold acquireFor
  split_ifs
  · exact acquireAll_quiet
  · exact acquire_quiet

theorem rewires_setWaitObjects (k : Kernel) (t : ThreadId) (objects : List WaitObject) :
    k.Rewires (k.setWaitObjects t objects) (k.graph.name t objects) := by
  have same : ∀ {β : Type} (f : Thread → β),
      (∀ x : Thread, f { x with waitObjects := objects } = f x) →
      (fun u => f ((k.setWaitObjects t objects).thread u)) = fun u => f (k.thread u) := by
    intro β f keep
    funext u
    rw [setWaitObjects, thread_setThread]
    split_ifs with eq
    · rw [eq, keep]
    · rfl
  have status : (k.setWaitObjects t objects).statusOf = k.statusOf := same _ fun _ => rfl
  have events : (k.setWaitObjects t objects).eventsOf = k.eventsOf := same _ fun _ => rfl
  refine ⟨?_, status, fun _ _ => id, ?_⟩
  · apply congrArg (WaitGraph.mk k.waitingThreads)
    funext u
    rw [setWaitObjects, thread_setThread]
    simp only [Kernel.graph, Function.update_apply]
    split_ifs <;> rfl
  · intro h
    rw [Requests, status, events]
    exact h

theorem rewires_enlist (k : Kernel) (o : WaitObject) (t : ThreadId) :
    k.Rewires (k.enlist o t) (k.graph.enlist o t) := ⟨rfl, rfl, fun _ _ => id, id⟩

theorem rewires_delist (k : Kernel) (o : WaitObject) (t : ThreadId) :
    k.Rewires (k.delist o t) (k.graph.delist o t) := ⟨rfl, rfl, fun _ _ => id, id⟩

theorem rewires_addWaitingThread : k.Rewires (k.addWaitingThread o t) (k.graph.enlist o t) := by
  cases o with
  | mutex m =>
    apply Rewires.quiet _ quiet_updateMutexPriority
    exact (rewires_enlist k _ t).quiet (quiet_setThread t _ fun _ => ⟨rfl, rfl, rfl⟩)
  | _ => exact rewires_enlist k _ t

theorem rewires_removeWaitingThread :
    k.Rewires (k.removeWaitingThread o t) (k.graph.delist o t) := by
  cases o with
  | mutex m =>
    apply Rewires.quiet _ quiet_updateMutexPriority
    exact (rewires_delist k _ t).quiet (quiet_setThread t _ fun _ => ⟨rfl, rfl, rfl⟩)
  | _ => exact rewires_delist k _ t

theorem rewires_addWaitingThreads {objects : List WaitObject} :
    k.Rewires (k.addWaitingThreads t objects) (k.graph.enlistAll t objects) := by
  induction objects generalizing k with
  | nil => exact Quiet.refl k
  | cons o rest ih =>
    have first : k.Rewires (k.addWaitingThread o t) (k.graph.enlist o t) :=
      rewires_addWaitingThread
    have later := @ih (k.addWaitingThread o t)
    rw [first.graph] at later
    exact first.followed later

theorem rewires_removeWaitingThreads {objects : List WaitObject} :
    k.Rewires (k.removeWaitingThreads t objects) (k.graph.delistAll t objects) := by
  induction objects generalizing k with
  | nil => exact Quiet.refl k
  | cons o rest ih =>
    have first : k.Rewires (k.removeWaitingThread o t) (k.graph.delist o t) :=
      rewires_removeWaitingThread
    have later := @ih (k.removeWaitingThread o t)
    rw [first.graph] at later
    exact first.followed later

theorem rewires_clearWaitObjects (k : Kernel) (t : ThreadId) :
    k.Rewires (k.clearWaitObjects t) (k.graph.leave t) := by
  have first := @rewires_removeWaitingThreads k t (k.thread t).waitObjects
  have later := rewires_setWaitObjects (k.removeWaitingThreads t (k.thread t).waitObjects) t []
  rw [first.graph] at later
  exact first.followed later

end EmuThreeDS.Kernel
