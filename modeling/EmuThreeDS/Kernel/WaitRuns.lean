import EmuThreeDS.Kernel.WaitAgreement

/-!
# The agreement of the waits over whole runs

From all steps together, the invariant of every run.
-/
namespace EmuThreeDS.Kernel

variable {k : Kernel}

def Action.Apart (k : Kernel) : Action → Prop
  | .stop t => .thread t ∉ (k.thread t).waitObjects
  | _ => True

def Action.Unqueued : Action → Prop
  | .reschedule _ | .sleepThread _ _ _ => False
  | _ => True

theorem meets_snd {α : Type} {bad : Fault → Prop} {x : Exec (α × Kernel)} {Q : Kernel → Prop}
    (h : Meets bad x fun reply => Q reply.2) : Meets bad (Prod.snd <$> x) Q := by
  cases x with
  | error fault | ok reply => exact h

theorem Action.run_meets (h : k.Settled) {a : Action} (enabled : a.Enabled k) (apart : a.Apart k)
    (unqueued : a.Unqueued) : Meets WaitFault (a.run k) Settled := by
  cases a with
  | createThread t _ _ _ _ => exact meets_snd (createThread_meets h enabled.1)
  | createEvent e _ => exact meets_ok (h.quiet (quiet_createEvent (h.unused enabled)))
  | createTimer i _ => exact meets_ok (h.quiet (quiet_createTimer (h.unused enabled)))
  | createSemaphore s _ _ => exact meets_ok (h.quiet (quiet_createSemaphore (h.unused enabled)))
  | createMutex m _ t =>
    apply (createMutex_quiet (h.unused enabled.1)).mono
    exact fun k' => h.quiet
  | createPort p _ _ => exact meets_ok (h.quiet (quiet_createPort (h.unused enabled)))
  | createSession s => exact meets_ok (h.quiet (quiet_createSession (h.unused enabled.1)))
  | connect p s => exact meets_snd (connect_meets h enabled.1)
  | accept p => exact meets_ok (h.quiet quiet_accept)
  | closeClientSession s => exact closeClientSession_meets h
  | closeServerSession s => exact closeServerSession_meets h
  | waitSynchronization1 t _ _ => exact meets_snd (waitSynchronization1_meets h enabled.1)
  | waitSynchronizationN t _ _ _ _ _ => exact meets_snd (waitSynchronizationN_meets h enabled.1)
  | replyAndReceive t _ _ _ _ => exact meets_snd (replyAndReceive_meets h enabled.1)
  | sendSyncRequest t _ _ => exact meets_snd (sendSyncRequest_meets h enabled.1.1 enabled.2.2)
  | signalEvent e => exact signalEvent_meets h
  | clearEvent e | writeCommandBuffers _ => exact meets_ok (h.quiet ⟨rfl, rfl, fun _ _ => id, id⟩)
  | setTimer i _ _ => exact meets_snd (setTimerDelays_meets h)
  | clearTimer i | cancelTimer i => exact meets_ok (h.quiet quiet_setTimer)
  | timerCallback i => exact signalTimer_meets (h.quiet quiet_setTimer)
  | releaseSemaphore s _ => exact meets_snd (releaseSemaphore_meets h)
  | releaseMutex m t => exact meets_snd (releaseMutex_meets h)
  | sleepThread core t _ | reschedule core => exact unqueued.elim
  | arbitrateAddress a t _ _ _ _ _ => exact meets_snd (arbitrateAddress_meets h enabled.1)
  | setThreadPriority thread _ _ =>
    apply meets_snd
    exact setThreadPriority_quiet.mono fun reply => h.quiet
  | threadWakeupCallback t => exact timeout_meets h enabled
  | exitThread core t => exact exitCurrentThread_meets h enabled.1.1
  | stop t => exact stop_meets h apart
  | setCanSchedule t _ => exact meets_ok (h.quiet (quiet_setThread t _ fun _ => ⟨rfl, rfl, rfl⟩))

theorem Action.run_status (h : k.Settled) {a : Action} (enabled : a.Enabled k)
    (apart : a.Apart k) : Meets StatusFault (a.run k) Settled := by
  by_cases unqueued : a.Unqueued
  · apply (a.run_meets h enabled apart unqueued).fewer
    rintro fault (rfl | rfl)
    · exact Or.inl rfl
    · exact Or.inr (Or.inl rfl)
  · cases a with
    | reschedule core => exact reschedule_meets h
    | sleepThread core t ns => exact sleepThread_meets h enabled.1.1
    | _ => exact absurd trivial unqueued

theorem boot_settled (numCores : Nat) : (boot numCores).Settled := by
  have free : ∀ s t, ¬ ((boot numCores).serverSession s).Engaged t := by
    rintro s t (pending | handled)
    · cases pending
    · cases handled
  refine ⟨⟨fun _ => List.nodup_nil, ?_⟩, ?_, fun _ => False.elim, ?_⟩
  · exact fun o t => ⟨nofun, nofun⟩
  · exact fun t _ some => absurd rfl some
  · refine ⟨?_, ?_, fun _ => List.nodup_nil, nofun, fun _ _ => rfl⟩
    · exact fun s t engaged => absurd engaged (free s t)
    · exact fun s s' t engaged => absurd engaged (free s t)

theorem Settled.step {k' : Kernel} {a : Action} (h : k.Settled) (step : k.Step a k') :
    k'.Settled := by
  obtain ⟨enabled, run⟩ := step
  by_cases apart : a.Apart k
  · exact (a.run_status h enabled apart).ok run
  · cases a with
    | stop t =>
      rw [Action.run, stop_stuck h (not_not.mp apart)] at run
      cases run
    | _ => exact absurd trivial apart

theorem Reachable.settled {allowed : Kernel → Action → Prop} (h : Reachable allowed k) :
    k.Settled := by
  apply h.invariant
  · rintro k ⟨numCores, rfl⟩
    exact boot_settled numCores
  · exact fun k a k' settled _ => settled.step

/-- A waiting list and the objects that its threads wait for agree, and the assertions on them
fail just where a thread is stopped that waits for itself. -/
theorem waits_agree (h : Reachable (fun _ _ => True) k) :
    (∀ o t, t ∈ k.waitingThreads o ↔ o ∈ (k.thread t).waitObjects) ∧
      (∀ o, (k.waitingThreads o).Nodup) ∧
      (∀ o t, t ∈ k.waitingThreads o → WaitStatus (k.thread t).status) ∧
      (∀ a : Action, a.Enabled k →
        ((∀ fault, StatusFault fault → a.run k ≠ .error fault) ↔ a.Apart k)) ∧
      ∀ a : Action, a.Enabled k → a.Unqueued → a.run k ≠ .error .outOfFuel := by
  have settled := h.settled
  refine ⟨fun o t => settled.mem_waiting, settled.agree.nodup, ?_, fun a enabled => ⟨?_, ?_⟩, ?_⟩
  · exact fun o t inside => settled.status inside id
  · intro none
    cases a with
    | stop t =>
      intro own
      exact none _ (Or.inl rfl) (stop_stuck settled own)
    | _ => exact trivial
  · intro apart fault isBad run
    exact (a.run_status settled enabled apart).error run isBad
  · intro a enabled unqueued run
    by_cases apart : a.Apart k
    · exact (a.run_meets settled enabled apart unqueued).error run (Or.inr (Or.inr rfl))
    · cases a with
      | stop t =>
        rw [Action.run, stop_stuck settled (not_not.mp apart)] at run
        cases run
      | _ => exact absurd trivial apart

def Action.after (k : Kernel) (a : Action) : Kernel :=
  match a.run k with
  | .ok k' => k'
  | .error _ => k

def waiterMade : Kernel := Action.after (boot 4) (.createThread 0 48 0 true true)

def waiterRuns : Kernel := Action.after waiterMade (.reschedule 0)

def waiterSleeps : Kernel :=
  Action.after waiterRuns (.waitSynchronization1 0 (some (.thread 0)) (-1))

example : waiterSleeps.waitingThreads (.thread 0) = [0] := by decide

theorem waiterRuns_run : Reachable (fun _ _ => True) waiterRuns := by
  have start : Reachable (fun _ _ => True) (boot 4) := .start ⟨4, rfl⟩
  have made : Reachable (fun _ _ => True) waiterMade :=
    start.step (a := Action.createThread 0 48 0 true true) trivial
      ⟨⟨rfl, fun _ => List.not_mem_nil⟩, rfl⟩
  exact made.step (a := Action.reschedule 0) trivial ⟨trivial, rfl⟩

theorem waiterSleeps_run : Reachable (fun _ _ => True) waiterSleeps :=
  waiterRuns_run.step (a := Action.waitSynchronization1 0 (some (.thread 0)) (-1)) trivial
    ⟨⟨rfl, 0, rfl⟩, rfl⟩

theorem waits_agree_sleeper : WaitStatus (waiterSleeps.thread 0).status :=
  (waits_agree waiterSleeps_run).2.2.1 (.thread 0) 0 (by decide)

/-- Stopping a thread that waits for itself finds it dead in its own waiting list. -/
theorem waits_agree_fails : ¬ ∀ k, Reachable (fun _ _ => True) k → ∀ a : Action, a.Enabled k →
    a.run k ≠ .error (.assertion .waitingStatus) := by
  intro all
  apply all waiterSleeps waiterSleeps_run (.stop 0) trivial
  exact stop_stuck waiterSleeps_run.settled (by decide)

end EmuThreeDS.Kernel
