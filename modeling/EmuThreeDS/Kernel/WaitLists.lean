import EmuThreeDS.Kernel.Quiet

/-!
# Waiting lists and wait objects agree

Each function keeps the two sides of a wait in step, and no round of a wakeup meets a thread
that does not wait.
-/
namespace EmuThreeDS.Kernel

/-- The waits of a kernel, where a thread of `ex` may have any status: one that is being
stopped is dead before it leaves its lists. -/
structure Waits (ex : ThreadId → Prop) (k : Kernel) : Prop where
  agree : k.graph.Agree
  asleep : ∀ t, ¬ ex t → (k.thread t).waitObjects ≠ [] → WaitStatus (k.statusOf t)
  free : ∀ t, ex t → ∀ s, ¬ (k.serverSession s).Engaged t
  requests : k.Requests

abbrev Settled (k : Kernel) : Prop := k.Waits fun _ => False

variable {ex ex' : ThreadId → Prop} {k k' : Kernel} {t u : ThreadId} {o : WaitObject}

theorem objects_of_graph (same : k'.graph = k.graph) (t : ThreadId) :
    (k'.thread t).waitObjects = (k.thread t).waitObjects :=
  congrFun (congrArg WaitGraph.objects same) t

theorem waiting_of_graph (same : k'.graph = k.graph) : k'.waitingThreads = k.waitingThreads :=
  congrArg WaitGraph.waiters same

namespace Waits

theorem mem_waiting (h : k.Waits ex) : t ∈ k.waitingThreads o ↔ o ∈ (k.thread t).waitObjects :=
  h.agree.mem o t

theorem status (h : k.Waits ex) (mem : t ∈ k.waitingThreads o) (ne : ¬ ex t) :
    WaitStatus (k.statusOf t) := by
  apply h.asleep t ne
  exact List.ne_nil_of_mem (h.mem_waiting.mp mem)

theorem objects_nil (h : k.Waits ex) (ne : ¬ ex t) (awake : ¬ WaitStatus (k.statusOf t)) :
    (k.thread t).waitObjects = [] := by
  by_contra some
  exact awake (h.asleep t ne some)

variable {s : Nat}

theorem idle (h : k.Waits ex) (engaged : (k.serverSession s).Engaged t) :
    (k.thread t).waitObjects = [] := by
  apply h.objects_nil
  · exact fun exempt => h.free t exempt s engaged
  · rintro (same | same | same) <;> rcases (h.requests.parked s t engaged).1 with eq | eq <;>
      rw [same] at eq <;> cases eq

theorem not_engaged (h : k.Waits ex) (ne : k.statusOf t ≠ .waitIPC)
    (alive : k.statusOf t ≠ .dead) : ¬ (k.serverSession s).Engaged t :=
  h.requests.not_engaged fun either => either.elim ne alive

theorem quiet (h : k.Waits ex) (q : Quiet k k') : k'.Waits ex where
  agree := by
    rw [q.graph]
    exact h.agree
  asleep := by
    intro t ne
    rw [objects_of_graph q.graph, q.status]
    exact h.asleep t ne
  free := fun t exempt s engaged => h.free t exempt s (q.engaged s t engaged)
  requests := q.requests h.requests

theorem clear (h : k.Waits ex) (keep : ∀ u, u ≠ t → ex u → ex' u) (less : ∀ u, ex' u → ex u) :
    (k.clearWaitObjects t).Waits ex' := by
  have r := rewires_clearWaitObjects k t
  constructor
  · rw [r.graph]
    exact h.agree.leave
  · intro u ne some
    have objects : ((k.clearWaitObjects t).thread u).waitObjects =
        if u = t then [] else (k.thread u).waitObjects := by
      refine (congrFun (congrArg WaitGraph.objects r.graph) u).trans ?_
      simp only [WaitGraph.leave, WaitGraph.name, WaitGraph.objects_delistAll,
        Function.update_apply]
      rfl
    rw [objects] at some
    rw [r.status]
    split_ifs at some with same
    · exact absurd rfl some
    · exact h.asleep u (fun exempt => ne (keep u same exempt)) some
  · intro u exempt s engaged
    exact h.free u (less u exempt) s (r.engaged s u engaged)
  · exact r.requests h.requests

end Waits

theorem waitObjects_clearWaitObjects (k : Kernel) (t : ThreadId) :
    ((k.clearWaitObjects t).thread t).waitObjects = [] := by
  rw [clearWaitObjects, thread_setThread, if_pos rfl]

structure Restatus (k k' : Kernel) (t : ThreadId) : Prop where
  graph : k'.graph = k.graph
  others : ∀ u, u ≠ t → k'.statusOf u = k.statusOf u ∧ k'.eventsOf u = k.eventsOf u
  sessions : k'.serverSession = k.serverSession

theorem Waits.restatus (h : k.Waits ex) (r : Restatus k k' t)
    (idle : (k.thread t).waitObjects = [] ∨ WaitStatus (k'.statusOf t))
    (free : ∀ s, ¬ (k.serverSession s).Engaged t)
    (clean : k'.statusOf t = .running → k'.eventsOf t = 0) : k'.Waits ex where
  agree := by
    rw [r.graph]
    exact h.agree
  asleep := by
    intro u ne some
    rw [objects_of_graph r.graph] at some
    by_cases same : u = t
    · subst same
      exact idle.resolve_left some
    · rw [(r.others u same).1]
      exact h.asleep u ne some
  free := by
    rw [r.sessions]
    exact h.free
  requests := by
    rw [Requests, r.sessions]
    exact h.requests.retime free r.others clean

theorem restatus_setThread (k : Kernel) (t : ThreadId) (f : Thread → Thread)
    (objects : (f (k.thread t)).waitObjects = (k.thread t).waitObjects) :
    Restatus k (k.setThread t f) t := by
  refine ⟨?_, ?_, rfl⟩
  · apply congrArg (WaitGraph.mk k.waitingThreads)
    funext u
    rw [thread_setThread]
    split_ifs with same
    · rw [same, objects]
    · rfl
  · intro u ne
    simp only [statusOf, eventsOf, thread_setThread, if_neg ne, and_self]

theorem restatus_makeReady : Restatus k (k.makeReady t) t := by
  have r := restatus_setThread (k.setQueue (k.thread t).coreId fun queue =>
    queue.pushBack (k.thread t).currentPriority t) t (fun thread =>
      { thread with wakeupCallback := none, status := .ready }) rfl
  exact ⟨r.graph, r.others, r.sessions⟩

theorem statusOf_makeReady : (k.makeReady t).statusOf t = .ready := by
  simp [statusOf, makeReady, thread_setThread]

theorem resumeFromWait_meets (h : k.Waits ex) (nothing : (k.thread t).waitObjects = [])
    (free : ∀ s, ¬ (k.serverSession s).Engaged t) : Meets WaitFault (k.resumeFromWait t) fun k' =>
      k'.Waits ex ∧ k'.graph = k.graph ∧ ∀ u, u ≠ t → k'.statusOf u = k.statusOf u := by
  apply (resumeFromWait_spec (fun _ => nothing) (by simp [WaitFault])).mono
  rintro k' (⟨rfl, _⟩ | ⟨rfl, _⟩)
  · exact ⟨h, rfl, fun _ _ => rfl⟩
  · refine ⟨h.restatus restatus_makeReady (Or.inl nothing) free ?_, restatus_makeReady.graph,
      fun u ne => (restatus_makeReady.others u ne).1⟩
    rw [statusOf_makeReady]
    rintro ⟨⟩

theorem receiveIPCRequest_quiet (h : k.Waits ex) :
    Meets WaitFault (k.receiveIPCRequest s t) fun reply => Quiet k reply.2 := by
  apply meets_ite
  · exact fun _ => meets_ok (.refl k)
  · intro _
    split
    · apply meets_error
      simp [WaitFault]
    · next client handled =>
        split
        · exact meets_ok (.refl k)
        · next code _ =>
            have told : Quiet k (k.setWaitSynchronizationResult client (.error code)) :=
              quiet_setThread client _ fun _ => ⟨rfl, rfl, rfl⟩
            have nothing := (h.quiet told).idle (Or.inr handled)
            apply meets_bind (resumeFromWait_spec (fun _ => nothing) (by simp [WaitFault]))
            intro _ _
            apply meets_error
            simp [WaitFault]

theorem receiveFrom_quiet (h : k.Waits ex) :
    Meets WaitFault (k.receiveFrom t object) fun reply => Quiet k reply.2 := by
  unfold receiveFrom
  split
  · exact receiveIPCRequest_quiet h
  · exact meets_ok (.refl k)

theorem getWaitObjectIndex_meets {α : Type} {f : Int → Exec α}
    {Q : α → Prop} (later : ∀ index, Meets WaitFault (f index) Q) :
    Meets WaitFault (k.getWaitObjectIndex t object >>= f) Q := by
  apply meets_bind (P := fun _ => True)
  · apply meets_assert
    · simp [WaitFault]
    · exact fun _ => meets_ok trivial
  · exact fun index _ => later index

theorem invokeCallback_quiet {reason : ThreadWakeupReason} (h : k.Waits ex) : Meets WaitFault
    (k.invokeCallback reason t object) (Quiet k) := by
  have result : ∀ (k : Kernel) code, Quiet k (k.setWaitSynchronizationResult t code) :=
    fun k _ => quiet_setThread t _ fun _ => ⟨rfl, rfl, rfl⟩
  have output : ∀ (k : Kernel) index, Quiet k (k.setWaitSynchronizationOutput t index) :=
    fun k _ => quiet_setThread t _ fun _ => ⟨rfl, rfl, rfl⟩
  unfold invokeCallback
  split
  · exact meets_ok (.refl k)
  · next callback _ =>
      cases callback with
      | svcSync doOutput =>
        cases reason with
        | timeout => exact meets_ok (result k _)
        | signal =>
          apply meets_ite
          · intro _
            apply getWaitObjectIndex_meets
            exact fun index => meets_ok ((result k _).quiet (output _ index))
          · exact fun _ => meets_ok (result k _)
      | svcIPC =>
        apply meets_assert (by simp [WaitFault])
        intro _
        apply meets_assert (by simp [WaitFault])
        intro _
        apply meets_bind (receiveFrom_quiet h)
        rintro ⟨code, k'⟩ first
        apply getWaitObjectIndex_meets
        exact fun index => meets_ok ((first.quiet (result k' code)).quiet (output _ index))
      | hle =>
        apply meets_assert (by simp [WaitFault])
        exact fun _ => meets_ok (.refl k)
      | addressArbiter a =>
        apply meets_assert (by simp [WaitFault])
        exact fun _ => meets_ok ⟨rfl, rfl, fun _ _ => id, id⟩

theorem selectThread_meets {bad : Fault → Prop} {threads : List ThreadId}
    {candidate : Option ThreadId} {priority : Nat}
    (waiting : ∀ t ∈ threads, WaitStatus (k.statusOf t)) :
    Meets bad (k.selectThread o threads candidate priority) fun found =>
      found = candidate ∨ ∃ t ∈ threads, found = some t := by
  induction threads generalizing candidate priority with
  | nil => exact meets_ok (Or.inl rfl)
  | cons t rest ih =>
    have later := fun candidate priority => @ih candidate priority
      fun u mem => waiting u (List.mem_cons_of_mem t mem)
    have skip : Meets bad (k.selectThread o rest candidate priority) fun found =>
        found = candidate ∨ ∃ u ∈ t :: rest, found = some u := by
      apply (later candidate priority).mono
      rintro found (same | ⟨u, mem, eq⟩)
      · exact Or.inl same
      · exact Or.inr ⟨u, List.mem_cons_of_mem t mem, eq⟩
    apply meets_assert fun _ => waiting t List.mem_cons_self
    intro _
    apply meets_ite
    · exact fun _ => skip
    · intro _
      apply meets_ite
      · intro _
        apply (later (some t) _).mono
        rintro found (same | ⟨u, mem, eq⟩)
        · exact Or.inr ⟨t, List.mem_cons_self, same⟩
        · exact Or.inr ⟨u, List.mem_cons_of_mem t mem, eq⟩
      · exact fun _ => skip

theorem wakeThread_meets (h : k.Waits ex) (mem : t ∈ k.waitingThreads o) (ne : ¬ ex t) :
    Meets WaitFault (k.wakeThread o t) fun k' => k'.Waits ex ∧ k'.graph = k.graph.leave t := by
  have status := h.status mem ne
  apply meets_bind acquireFor_quiet
  intro k₁ acquired
  have h₁ := h.quiet acquired
  apply meets_bind (invokeCallback_quiet h₁)
  intro k₂ called
  have h₂ := h₁.quiet called
  have h₃ : (k₂.clearWaitObjects t).Waits ex := h₂.clear (fun _ _ => id) fun _ => id
  have graph : (k₂.clearWaitObjects t).graph = k.graph.leave t := by
    rw [(rewires_clearWaitObjects k₂ t).graph, called.graph, acquired.graph]
  have unchanged : (k₂.clearWaitObjects t).statusOf t = k.statusOf t := by
    rw [(rewires_clearWaitObjects k₂ t).status, called.status, acquired.status]
  have free : ∀ s, ¬ ((k₂.clearWaitObjects t).serverSession s).Engaged t := by
    intro s
    apply h₃.not_engaged <;> rw [unchanged] <;> rcases status with eq | eq | eq <;> rw [eq] <;>
      exact nofun
  apply (resumeFromWait_meets h₃ (waitObjects_clearWaitObjects k₂ t) free).mono
  rintro k' ⟨h', same, _⟩
  exact ⟨h', same.trans graph⟩

theorem wakeLoop_meets {fuel : Nat} (h : k.Waits ex) (ne : ∀ u ∈ k.waitingThreads o, ¬ ex u)
    (enough : (k.waitingThreads o).length < fuel) :
    Meets WaitFault (wakeLoop o fuel k) fun k' => k'.Waits ex := by
  induction fuel generalizing k with
  | zero => exact absurd enough (Nat.not_lt_zero _)
  | succ fuel ih =>
    apply meets_bind (selectThread_meets fun t mem => h.status mem (ne t mem))
    rintro found (none_left | ⟨t, mem, rfl⟩)
    · subst none_left
      exact meets_ok h
    · apply meets_bind (wakeThread_meets h mem (ne t mem))
      rintro k' ⟨h', graph⟩
      have waiting : k'.waitingThreads o = (k.waitingThreads o).filter (· ≠ t) := by
        refine (congrFun (congrArg WaitGraph.waiters graph) o).trans ?_
        exact h.agree.waiters_leave
      apply ih h'
      · intro u still
        rw [waiting] at still
        exact ne u (List.mem_of_mem_filter still)
      · have shorter := WaitGraph.length_others (h.agree.nodup o) mem
        rw [waiting]
        exact Nat.lt_of_succ_lt_succ (lt_of_eq_of_lt shorter enough)

theorem quiet_endPulse : Quiet k (k.endPulse o) := by
  unfold endPulse
  cases o with
  | event e | timer i =>
    dsimp only
    split_ifs
    · exact ⟨rfl, rfl, fun _ _ => id, id⟩
    · exact .refl k
  | _ => exact .refl k

theorem wakeupAllWaitingThreads_meets (h : k.Waits ex) (ne : ∀ u ∈ k.waitingThreads o, ¬ ex u) :
    Meets WaitFault (k.wakeupAllWaitingThreads o) fun k' => k'.Waits ex := by
  apply meets_bind (wakeLoop_meets h ne (Nat.lt_succ_self _))
  exact fun k' h' => meets_ok (h'.quiet quiet_endPulse)

theorem releaseMutexes_meets {ms : List MutexId} (h : k.Settled) :
    Meets WaitFault (k.releaseMutexes ms) Settled := by
  induction ms generalizing k with
  | nil => exact meets_ok h
  | cons m rest ih =>
    have free := h.quiet (quiet_setMutex m fun mutex =>
      { mutex with lockCount := 0, holdingThread := none })
    apply meets_bind (wakeupAllWaitingThreads_meets free fun _ _ => id)
    exact fun k' h' => ih h'

theorem releaseThreadMutexes_meets (h : k.Settled) :
    Meets WaitFault (k.releaseThreadMutexes t) Settled := by
  apply meets_bind (releaseMutexes_meets h)
  exact fun k' h' => meets_ok (h'.quiet (quiet_setThread t _ fun _ => ⟨rfl, rfl, rfl⟩))

theorem releaseMutex_meets {m : MutexId} (h : k.Settled) :
    Meets WaitFault (k.releaseMutex m t) fun reply => reply.2.Settled := by
  apply meets_ite
  · exact fun _ => meets_ok h
  · intro _
    apply meets_ite
    · exact fun _ => meets_ok h
    · intro _
      have lower := h.quiet (quiet_setMutex m fun mutex =>
        { mutex with lockCount := mutex.lockCount - 1 })
      apply meets_ite
      · intro _
        have dropped := lower.quiet (quiet_setThread t (fun thread =>
          { thread with heldMutexes := thread.heldMutexes.erase m }) fun _ => ⟨rfl, rfl, rfl⟩)
        have updated := dropped.quiet (@quiet_updatePriority _ t)
        have free := updated.quiet (quiet_setMutex m fun mutex =>
          { mutex with holdingThread := none })
        apply meets_bind (wakeupAllWaitingThreads_meets free fun _ _ => id)
        exact fun k' h' => meets_ok h'
      · exact fun _ => meets_ok lower

end EmuThreeDS.Kernel
