import EmuThreeDS.Lib.Runs
import EmuThreeDS.Kernel.Svc

/-!
# The kernel as a state machine

What the guest's calls, the timing events, the services and the scheduler do to the kernel,
in any order and on any core.
-/
namespace EmuThreeDS.Kernel

structure Unused (k : Kernel) (o : WaitObject) : Prop where
  objects : ∀ t, o ∉ (k.thread t).waitObjects
  held : ∀ t m, o = .mutex m → m ∉ (k.thread t).heldMutexes
  pending : ∀ t m, o = .mutex m → m ∉ (k.thread t).pendingMutexes
  sessions : ∀ p s, o = .serverSession s → s ∉ (k.serverPort p).pendingSessions

variable (k : Kernel)

def Closed (s : Nat) : Prop :=
  (k.serverSession s).client = false ∧ (k.serverSession s).server = false

def Calls (t : ThreadId) : Prop :=
  (k.thread t).status = .running ∧ ∃ core, (k.manager core).currentThread = some t

inductive Action where
  | createThread (t : ThreadId) (priority : Nat) (processorId : Int) (validEntry tlsPage : Bool)
  | createEvent (e : Nat) (resetType : ResetType)
  | createTimer (i : Nat) (resetType : ResetType)
  | createSemaphore (s : Nat) (initialCount maxCount : Int)
  | createMutex (m : MutexId) (initialLocked : Bool) (t : ThreadId)
  | createPort (p maxSessions : Nat) (hleHandler : Bool)
  | createSession (s : Nat)
  | connect (p s : Nat)
  | accept (p : Nat)
  | closeClientSession (s : Nat)
  | closeServerSession (s : Nat)
  | waitSynchronization1 (t : ThreadId) (handle : Option WaitObject) (nanoSeconds : Int)
  | waitSynchronizationN (t : ThreadId) (validAddress : Bool) (handleCount : Int)
      (handles : Nat → Option WaitObject) (waitAll : Bool) (nanoSeconds : Int)
  | replyAndReceive (t : ThreadId) (validAddress : Bool) (handleCount : Int)
      (handles : Nat → Option WaitObject) (replyTarget : Option (Option Nat))
  | sendSyncRequest (t : ThreadId) (session : Option Nat) (pause : Option (Nat × Int))
  | signalEvent (e : Nat)
  | clearEvent (e : Nat)
  | setTimer (i : Nat) (initial interval : Int)
  | clearTimer (i : Nat)
  | cancelTimer (i : Nat)
  | timerCallback (i : Nat)
  | releaseSemaphore (s : Nat) (releaseCount : Int)
  | releaseMutex (m : MutexId) (t : ThreadId)
  | sleepThread (core : Nat) (t : ThreadId) (nanoseconds : Int)
  | arbitrateAddress (a : Nat) (t : ThreadId) (type : ArbitrationType) (address : Nat)
      (memory value nanoseconds : Int)
  | setThreadPriority (thread : Option ThreadId) (priority limit : Nat)
  | threadWakeupCallback (t : ThreadId)
  | exitThread (core : Nat) (t : ThreadId)
  | stop (t : ThreadId)
  | reschedule (core : Nat)
  | setCanSchedule (t : ThreadId) (canSchedule : Bool)
  | writeCommandBuffers (translate : ThreadId → ThreadId → ResultVal Unit)

namespace Action

/-- When the machine can take the step. -/
def Enabled : Action → Prop
  | createThread t _ _ _ _ =>
    (k.thread t).status = .dormant ∧ ∀ core, t ∉ (k.manager core).threadList
  | createEvent e _ => k.Unused (.event e)
  | createTimer i _ => k.Unused (.timer i)
  | createSemaphore s _ _ => k.Unused (.semaphore s)
  | createMutex m _ t => k.Unused (.mutex m) ∧ k.Calls t
  | createPort p _ _ => k.Unused (.serverPort p)
  | createSession s => k.Unused (.serverSession s) ∧ k.Closed s
  | connect _ s => k.Unused (.serverSession s) ∧ k.Closed s
  | closeClientSession s => (k.serverSession s).client = true
  | closeServerSession s => k.Unused (.serverSession s) ∧ (k.serverSession s).server = true
  | waitSynchronization1 t _ _ => k.Calls t
  | waitSynchronizationN t _ _ _ _ _ => k.Calls t
  | replyAndReceive t _ _ _ _ => k.Calls t
  | sendSyncRequest t session pause => k.Calls t ∧
      (∀ s, session = some s → (k.serverSession s).client = true) ∧
        ∀ e ns, pause = some (e, ns) → k.Unused (.event e)
  | timerCallback i => 0 < (k.timer i).callbackEvents
  | releaseMutex _ t => k.Calls t
  | sleepThread core t _ => k.Calls t ∧ (k.manager core).currentThread = some t
  | arbitrateAddress _ t _ _ _ _ _ => k.Calls t
  | threadWakeupCallback t => 0 < (k.thread t).wakeupEvents
  | exitThread core t => k.Calls t ∧ (k.manager core).currentThread = some t
  | _ => True

def run : Action → Exec Kernel
  | createThread t priority processorId validEntry tlsPage =>
    Prod.snd <$> k.createThread t priority processorId validEntry tlsPage
  | createEvent e resetType => .ok (k.createEvent e resetType)
  | createTimer i resetType => .ok (k.createTimer i resetType)
  | createSemaphore s initialCount maxCount => .ok (k.createSemaphore s initialCount maxCount).2
  | createMutex m initialLocked t => k.createMutex m initialLocked t
  | createPort p maxSessions hleHandler => .ok (k.createPort p maxSessions hleHandler)
  | createSession s => .ok (k.createSession s none false)
  | connect p s => Prod.snd <$> k.connect p s
  | accept p => .ok (k.accept p).2
  | closeClientSession s => k.closeClientSession s
  | closeServerSession s => k.closeServerSession s
  | waitSynchronization1 t handle nanoSeconds =>
    Prod.snd <$> k.waitSynchronization1 t handle nanoSeconds
  | waitSynchronizationN t validAddress handleCount handles waitAll nanoSeconds =>
    Prod.snd <$> k.waitSynchronizationN t validAddress handleCount handles waitAll nanoSeconds
  | replyAndReceive t validAddress handleCount handles replyTarget =>
    Prod.snd <$> k.replyAndReceive t validAddress handleCount handles replyTarget
  | sendSyncRequest t session pause => Prod.snd <$> k.sendSyncRequest t session pause
  | signalEvent e => k.signalEvent e
  | clearEvent e => .ok (k.clearEvent e)
  | setTimer i initial interval => Prod.snd <$> k.setTimerDelays i initial interval
  | clearTimer i => .ok (k.clearTimer i)
  | cancelTimer i => .ok (k.cancelTimer i)
  | timerCallback i =>
    (k.setTimer i fun timer =>
      { timer with callbackEvents := timer.callbackEvents - 1 }).signalTimer i
  | releaseSemaphore s releaseCount => Prod.snd <$> k.releaseSemaphore s releaseCount
  | releaseMutex m t => Prod.snd <$> k.releaseMutex m t
  | sleepThread core t nanoseconds => k.sleepThread core t nanoseconds
  | arbitrateAddress a t type address memory value nanoseconds =>
    Prod.snd <$> k.arbitrateAddress a t type address memory value nanoseconds
  | setThreadPriority thread priority limit => Prod.snd <$> k.setThreadPriority thread priority limit
  | threadWakeupCallback t =>
    (k.setThread t fun thread =>
      { thread with wakeupEvents := thread.wakeupEvents - 1 }).threadWakeupCallback t
  | exitThread core t => k.exitCurrentThread core t
  | stop t => k.stop t
  | reschedule core => k.reschedule core
  | setCanSchedule t canSchedule =>
    .ok (k.setThread t fun thread => { thread with canSchedule := canSchedule })
  | writeCommandBuffers translate => .ok { k with translateCommandBuffer := translate }

end Action

def boot (numCores : Nat) : Kernel := { numCores := numCores }

def Step (a : Action) (k' : Kernel) : Prop := a.Enabled k ∧ a.run k = .ok k'

/-- The states of the runs whose steps all meet the condition. -/
abbrev Reachable (allowed : Kernel → Action → Prop) : Kernel → Prop :=
  Runs.Reachable (fun k => ∃ numCores, k = boot numCores) Step allowed

end Kernel

/-!
## Threads that wait for an IPC reply

A thread whose request a server session has taken sleeps until the reply, and stands in one
place only.
-/

def ServerSession.Engaged (session : ServerSession) (t : ThreadId) : Prop :=
  t ∈ session.pendingRequestingThreads ∨ session.currentlyHandling = some t

theorem ServerSession.Engaged.of_take {session new : ServerSession} {t : ThreadId}
    (taken : new.currentlyHandling = session.pendingRequestingThreads.getLast?)
    (rest : new.pendingRequestingThreads = session.pendingRequestingThreads.dropLast)
    (engaged : new.Engaged t) : session.Engaged t := by
  rcases engaged with pending | handled
  · rw [rest] at pending
    exact Or.inl (List.dropLast_subset _ pending)
  · rw [taken] at handled
    exact Or.inl (List.mem_of_getLast? handled)

/-- On the sessions, with the status and the scheduled wakeups of each thread. -/
structure RequestsParked (session : Nat → ServerSession) (status : ThreadId → ThreadStatus)
    (events : ThreadId → Nat) : Prop where
  parked : ∀ s t, (session s).Engaged t → (status t = .waitIPC ∨ status t = .dead) ∧ events t = 0
  one : ∀ s s' t, (session s).Engaged t → (session s').Engaged t → s = s'
  nodup : ∀ s, (session s).pendingRequestingThreads.Nodup
  apart : ∀ s t, (session s).currentlyHandling = some t → t ∉ (session s).pendingRequestingThreads
  running : ∀ t, status t = .running → events t = 0

namespace RequestsParked

variable {session session' : Nat → ServerSession} {status status' : ThreadId → ThreadStatus}
  {events events' : ThreadId → Nat} {t u : ThreadId} {s : Nat} {new : ServerSession}

section

variable (h : RequestsParked session status events)
include h

theorem not_engaged (ne : ¬ (status t = .waitIPC ∨ status t = .dead)) : ¬ (session s).Engaged t :=
  fun engaged => ne (h.parked s t engaged).1

theorem shrink (fewer : ∀ s t, (session' s).Engaged t → (session s).Engaged t)
    (nodup : ∀ s, (session' s).pendingRequestingThreads.Nodup)
    (apart : ∀ s t, (session' s).currentlyHandling = some t →
      t ∉ (session' s).pendingRequestingThreads) :
    RequestsParked session' status events where
  parked := fun s t engaged => h.parked s t (fewer s t engaged)
  one := fun s s' t first second => h.one s s' t (fewer s t first) (fewer s' t second)
  nodup := nodup
  apart := apart
  running := h.running

theorem update (fewer : ∀ t, new.Engaged t → (session s).Engaged t)
    (nodup : new.pendingRequestingThreads.Nodup)
    (apart : ∀ t, new.currentlyHandling = some t → t ∉ new.pendingRequestingThreads) :
    RequestsParked (Function.update session s new) status events := by
  apply h.shrink
  · intro s' t
    rw [Function.update_apply]
    split_ifs with same
    · subst same
      exact fewer t
    · exact id
  · intro s'
    rw [Function.update_apply]
    split_ifs
    · exact nodup
    · exact h.nodup s'
  · intro s' t
    rw [Function.update_apply]
    split_ifs
    · exact apart t
    · exact h.apart s' t

theorem take (taken : new.currentlyHandling = (session s).pendingRequestingThreads.getLast?)
    (rest : new.pendingRequestingThreads = (session s).pendingRequestingThreads.dropLast) :
    RequestsParked (Function.update session s new) status events := by
  have nodup := h.nodup s
  apply h.update
  · exact fun t => .of_take taken rest
  · rw [rest]
    exact nodup.sublist (List.dropLast_sublist _)
  · intro t handled
    rw [taken] at handled
    rw [rest]
    obtain ⟨before, split⟩ := List.getLast?_eq_some_iff.mp handled
    rw [split] at nodup ⊢
    rw [List.dropLast_concat]
    intro mem
    exact (List.nodup_append.mp nodup).2.2 t mem t (List.mem_singleton_self t) rfl

theorem retime (free : ∀ s, ¬ (session s).Engaged t)
    (others : ∀ u, u ≠ t → status' u = status u ∧ events' u = events u)
    (clean : status' t = .running → events' t = 0) :
    RequestsParked session status' events' where
  parked := by
    intro s u engaged
    by_cases same : u = t
    · subst same
      exact absurd engaged (free s)
    · rw [(others u same).1, (others u same).2]
      exact h.parked s u engaged
  one := h.one
  nodup := h.nodup
  apart := h.apart
  running := by
    intro u
    by_cases same : u = t
    · subst same
      exact clean
    · rw [(others u same).1, (others u same).2]
      exact h.running u

theorem kill (others : ∀ u, u ≠ t → status' u = status u ∧ events' u = events u)
    (dead : status' t = .dead) (clean : events' t = 0) : RequestsParked session status' events' where
  parked := by
    intro s u engaged
    by_cases same : u = t
    · subst same
      exact ⟨Or.inr dead, clean⟩
    · rw [(others u same).1, (others u same).2]
      exact h.parked s u engaged
  one := h.one
  nodup := h.nodup
  apart := h.apart
  running := by
    intro u
    by_cases same : u = t
    · subst same
      rw [dead]
      exact nofun
    · rw [(others u same).1, (others u same).2]
      exact h.running u

theorem push (free : ∀ s, ¬ (session s).Engaged t) (others : ∀ u, u ≠ t → status' u = status u)
    (asleep : status' t = .waitIPC) (clean : events t = 0) :
    RequestsParked (Function.update session s { session s with
      pendingRequestingThreads := (session s).pendingRequestingThreads ++ [t] }) status' events := by
  have engaged_iff : ∀ s' u, (Function.update session s { session s with
      pendingRequestingThreads := (session s).pendingRequestingThreads ++ [t] } s').Engaged u ↔
      (session s').Engaged u ∨ s' = s ∧ u = t := by
    intro s' u
    rw [Function.update_apply]
    split_ifs with same
    · subst same
      simp only [ServerSession.Engaged, List.mem_append, List.mem_singleton]
      tauto
    · simp [same]
  constructor
  · intro s' u engaged
    rcases (engaged_iff s' u).mp engaged with old | ⟨_, rfl⟩
    · have ne : u ≠ t := by
        rintro rfl
        exact free s' old
      rw [others u ne]
      exact h.parked s' u old
    · exact ⟨Or.inl asleep, clean⟩
  · intro s₁ s₂ u first second
    rcases (engaged_iff s₁ u).mp first with old | ⟨rfl, rfl⟩
    · rcases (engaged_iff s₂ u).mp second with old' | ⟨rfl, rfl⟩
      · exact h.one s₁ s₂ u old old'
      · exact absurd old (free s₁)
    · rcases (engaged_iff s₂ u).mp second with old' | ⟨rfl, _⟩
      · exact absurd old' (free s₂)
      · rfl
  · intro s'
    rw [Function.update_apply]
    split_ifs with same
    · apply List.nodup_append.mpr
      refine ⟨h.nodup s, List.pairwise_singleton _ t, ?_⟩
      rintro v mem _ last rfl
      exact free s (Or.inl (List.mem_singleton.mp last ▸ mem))
    · exact h.nodup s'
  · intro s' u
    rw [Function.update_apply]
    split_ifs with same
    · intro handled mem
      rcases List.mem_append.mp mem with mem | last
      · exact h.apart s u handled mem
      · exact free s (Or.inr (List.mem_singleton.mp last ▸ handled))
    · exact h.apart s' u
  · intro u
    by_cases same : u = t
    · subst same
      exact fun _ => clean
    · rw [others u same]
      exact h.running u

theorem reply (handled : (session s).currentlyHandling = some t) :
    ∀ s', ¬ (Function.update session s { session s with currentlyHandling := none } s').Engaged t := by
  intro s'
  rw [Function.update_apply]
  split_ifs with same
  · rintro (pending | impossible)
    · exact h.apart s t handled pending
    · cases impossible
  · exact fun engaged => same (h.one s' s t engaged (Or.inr handled))

end

end RequestsParked

namespace Kernel

def statusOf (k : Kernel) (t : ThreadId) : ThreadStatus := (k.thread t).status

def eventsOf (k : Kernel) (t : ThreadId) : Nat := (k.thread t).wakeupEvents

def Requests (k : Kernel) : Prop := RequestsParked k.serverSession k.statusOf k.eventsOf

end EmuThreeDS.Kernel
