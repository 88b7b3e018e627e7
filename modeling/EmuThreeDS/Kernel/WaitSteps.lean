import EmuThreeDS.Kernel.WaitLists

/-!
# Every step keeps the waits in agreement

One lemma for each call; a thread that is stopped while it waits for itself is the only one
the wakeups stumble over.
-/
namespace EmuThreeDS.Kernel

variable {ex : ThreadId → Prop} {k k' : Kernel} {t u : ThreadId} {o : WaitObject}

theorem statusOf_setThread (f : Thread → Thread) :
    (k.setThread t f).statusOf u = if u = t then (f (k.thread t)).status else k.statusOf u := by
  simp only [statusOf, thread_setThread]
  split_ifs <;> rfl

theorem eventsOf_setThread (f : Thread → Thread) : (k.setThread t f).eventsOf u =
      if u = t then (f (k.thread t)).wakeupEvents else k.eventsOf u := by
  simp only [eventsOf, thread_setThread]
  split_ifs <;> rfl

theorem quiet_setCallback (t : ThreadId) (callback : WakeupCallback) :
    Quiet k (k.setCallback t callback) := quiet_setThread t _ fun _ => ⟨rfl, rfl, rfl⟩

theorem Waits.setThread (h : k.Waits ex) (f : Thread → Thread)
    (free : ∀ s, ¬ (k.serverSession s).Engaged t)
    (idle : (k.thread t).waitObjects = [] ∨ WaitStatus (f (k.thread t)).status)
    (clean : (f (k.thread t)).status = .running → (f (k.thread t)).wakeupEvents = 0)
    (objects : (f (k.thread t)).waitObjects = (k.thread t).waitObjects) :
    (k.setThread t f).Waits ex := by
  apply h.restatus (restatus_setThread k t f objects) _ free
  · rw [statusOf_setThread, eventsOf_setThread, if_pos rfl, if_pos rfl]
    exact clean
  · rw [statusOf_setThread, if_pos rfl]
    exact idle

theorem Waits.idle_or_status (h : k.Waits ex) (ne : ¬ ex t) :
    (k.thread t).waitObjects = [] ∨ WaitStatus (k.statusOf t) := by
  by_cases nothing : (k.thread t).waitObjects = []
  · exact Or.inl nothing
  · exact Or.inr (h.asleep t ne nothing)

theorem Waits.delay (h : k.Waits ex) (ne : ¬ ex t) (free : ∀ s, ¬ (k.serverSession s).Engaged t)
    (asleep : k.statusOf t ≠ .running) (ns : Int) : (k.wakeAfterDelay t ns).Waits ex := by
  unfold wakeAfterDelay
  split_ifs
  · exact h
  · exact h.setThread _ free (h.idle_or_status ne) (fun running => absurd running asleep)
      rfl

theorem Settled.of_running (h : k.Settled) (running : k.statusOf t = .running) :
    (k.thread t).waitObjects = [] ∧ (∀ s, ¬ (k.serverSession s).Engaged t) ∧ k.eventsOf t = 0 := by
  refine ⟨h.objects_nil id ?_, ?_, h.requests.running t running⟩
  · rw [running]
    rintro (eq | eq | eq) <;> cases eq
  · intro s
    apply h.not_engaged <;> rw [running] <;> exact nofun

theorem Settled.join (h : k.Settled) (objects : List WaitObject)
    (idle : (k.thread t).waitObjects = []) (graph : k'.graph = k.graph.join t objects)
    (status : WaitStatus (k'.statusOf t))
    (others : ∀ u, u ≠ t → k'.statusOf u = k.statusOf u) (requests : k'.Requests) :
    k'.Settled where
  agree := by
    rw [graph]
    exact h.agree.join idle
  asleep := by
    intro u _ some
    have eq : (k'.thread u).waitObjects = if u = t then objects else (k.thread u).waitObjects := by
      refine (congrFun (congrArg WaitGraph.objects graph) u).trans ?_
      simp only [WaitGraph.join, WaitGraph.name, WaitGraph.objects_enlistAll, Function.update_apply]
      rfl
    by_cases same : u = t
    · rw [same]
      exact status
    · rw [eq, if_neg same] at some
      rw [others u same]
      exact h.asleep u id some
  free := fun _ => False.elim
  requests := requests

theorem Requests.setThread (h : k.Requests) (f : Thread → Thread)
    (free : ∀ s, ¬ (k.serverSession s).Engaged t)
    (clean : (f (k.thread t)).status = .running → (f (k.thread t)).wakeupEvents = 0) :
    (k.setThread t f).Requests := by
  apply RequestsParked.retime h free
  · intro u ne
    rw [statusOf_setThread, eventsOf_setThread, if_neg ne, if_neg ne]
    exact ⟨rfl, rfl⟩
  · rw [statusOf_setThread, eventsOf_setThread, if_pos rfl, if_pos rfl]
    exact clean

variable {objects : List WaitObject} {status : ThreadStatus} {ns count : Int} {validAddress : Bool}
  {handles : Nat → Option WaitObject} {s e : Nat}

theorem statusOf_sleepOn : (k.sleepOn t objects status).statusOf t = status := by
  have enlisted := @rewires_addWaitingThreads (k.setStatus t status) t objects
  have r := enlisted.followed
    (rewires_setWaitObjects ((k.setStatus t status).addWaitingThreads t objects) t objects)
  refine (congrFun r.status t).trans ?_
  rw [setStatus, statusOf_setThread, if_pos rfl]

theorem sleepOn_settled (h : k.Settled)
    (running : k.statusOf t = .running) (waits : WaitStatus status) :
    (k.sleepOn t objects status).Settled ∧ (k.sleepOn t objects status).statusOf t = status := by
  obtain ⟨idle, free, _⟩ := h.of_running running
  have marked := restatus_setThread k t (fun thread => { thread with status := status })
    rfl
  have requests : (k.setStatus t status).Requests := by
    apply h.requests.setThread _ free
    rintro (eq : status = .running)
    rcases waits with same | same | same <;> rw [eq] at same <;> cases same
  have enlisted := @rewires_addWaitingThreads (k.setStatus t status) t objects
  have r := enlisted.followed
    (rewires_setWaitObjects ((k.setStatus t status).addWaitingThreads t objects) t objects)
  have own := @statusOf_sleepOn k t objects status
  refine ⟨h.join objects idle ?_ ?_ ?_ (r.requests requests), own⟩
  · rw [sleepOn, r.graph, enlisted.graph, setStatus, marked.graph]
    rfl
  · rw [own]
    exact waits
  · intro u ne
    refine (congrFun r.status u).trans ?_
    rw [setStatus, statusOf_setThread, if_neg ne]

theorem sleep_settled (h : k.Settled) (own : k.statusOf t = status)
    (waits : WaitStatus status) (ns : Int) (callback : WakeupCallback) :
    ((k.wakeAfterDelay t ns).setCallback t callback).Settled := by
  apply Waits.quiet _ (quiet_setCallback t callback)
  have free : ∀ s, ¬ (k.serverSession s).Engaged t := by
    intro s
    apply h.not_engaged <;> rw [own] <;> rcases waits with same | same | same <;> rw [same] <;>
      exact nofun
  apply h.delay id free
  rw [own]
  rcases waits with same | same | same <;> rw [same] <;> exact nofun

theorem waitSynchronization1_meets {handle : Option WaitObject} (h : k.Settled)
    (running : k.statusOf t = .running) :
    Meets WaitFault (k.waitSynchronization1 t handle ns) fun reply => reply.2.Settled := by
  unfold waitSynchronization1
  split
  · exact meets_ok h
  · next object =>
      apply meets_ite
      · intro _
        apply meets_ite
        · exact fun _ => meets_ok h
        · intro _
          obtain ⟨idle, free, _⟩ := h.of_running running
          have named := rewires_setWaitObjects k t [object]
          have r := named.followed (@rewires_addWaitingThread (k.setWaitObjects t [object]) t object)
          have marked := restatus_setThread ((k.setWaitObjects t [object]).addWaitingThread object t)
            t (fun thread => { thread with status := .waitSynchAny }) rfl
          have own : (((k.setWaitObjects t [object]).addWaitingThread object t).setStatus t
              .waitSynchAny).statusOf t = .waitSynchAny := by
            rw [setStatus, statusOf_setThread, if_pos rfl]
          have settled : (((k.setWaitObjects t [object]).addWaitingThread object t).setStatus t
              .waitSynchAny).Settled := by
            apply h.join [object] idle
            · rw [setStatus, marked.graph, r.graph, named.graph]
              rfl
            · rw [own]
              exact Or.inl rfl
            · intro u ne
              rw [setStatus, statusOf_setThread, if_neg ne, r.status]
            · apply (r.requests h.requests).setThread
              · exact fun s engaged => free s (r.engaged s t engaged)
              · exact nofun
          exact meets_ok (sleep_settled settled own (Or.inl rfl) ns _)
      · intro _
        apply meets_bind acquire_quiet
        exact fun k' q => meets_ok (h.quiet q)

theorem waitSynchronizationN_meets {waitAll : Bool} (h : k.Settled)
    (running : k.statusOf t = .running) :
    Meets WaitFault (k.waitSynchronizationN t validAddress count handles waitAll ns)
      fun reply => reply.2.Settled := by
  have asleep : ∀ objects status callback, WaitStatus status →
      (((k.sleepOn t objects status).wakeAfterDelay t ns).setCallback t callback).Settled := by
    intro objects status callback waits
    obtain ⟨settled, own⟩ := @sleepOn_settled k t objects status h running waits
    exact sleep_settled settled own waits ns callback
  apply meets_ite
  · exact fun _ => meets_ok h
  · intro _
    apply meets_ite
    · exact fun _ => meets_ok h
    · intro _
      split
      · exact meets_ok h
      · next objects _ =>
          apply meets_ite
          · intro _
            apply meets_ite
            · intro _
              apply meets_bind acquireAll_quiet
              exact fun k' q => meets_ok (h.quiet q)
            · intro _
              apply meets_ite
              · exact fun _ => meets_ok h
              · exact fun _ => meets_ok (asleep objects _ _ (Or.inr (Or.inl rfl)))
          · intro _
            split
            · apply meets_bind acquire_quiet
              exact fun k' q => meets_ok (h.quiet q)
            · apply meets_ite
              · exact fun _ => meets_ok h
              · exact fun _ => meets_ok (asleep objects _ _ (Or.inl rfl))

theorem quiet_setSession {f : ServerSession → ServerSession}
    (fewer : ∀ t, (f (k.serverSession s)).Engaged t → (k.serverSession s).Engaged t)
    (nodup : (f (k.serverSession s)).pendingRequestingThreads.Nodup)
    (apart : ∀ t, (f (k.serverSession s)).currentlyHandling = some t →
      t ∉ (f (k.serverSession s)).pendingRequestingThreads) : Quiet k (k.setSession s f) :=
  ⟨rfl, rfl, fun _ _ => engaged_setSession fewer, fun h => h.update fewer nodup apart⟩

theorem sendReply_meets (h : k.Settled) :
    Meets WaitFault (k.sendReply t s) fun reply => reply.2.Settled ∧
      ∀ u, k.statusOf u = .running → reply.2.statusOf u = .running := by
  have cleared : Quiet k (k.setSession s fun session =>
      { session with currentlyHandling := none }) := by
    apply quiet_setSession
    · rintro t (pending | handled)
      · exact Or.inl pending
      · cases handled
    · exact h.requests.nodup s
    · exact nofun
  have h₁ := h.quiet cleared
  unfold sendReply
  dsimp only
  split
  · exact meets_ok ⟨h₁, fun _ => id⟩
  · next client handled =>
      have engaged : (k.serverSession s).Engaged client := Or.inr handled
      apply meets_ite
      · exact fun _ => meets_ok ⟨h₁, fun _ => id⟩
      · intro _
        apply meets_assert (by simp [WaitFault])
        intro _
        have free := h.requests.reply handled
        have nothing : ((k.setSession s fun session =>
          { session with currentlyHandling := none }).thread client).waitObjects = [] := h.idle engaged
        apply meets_bind (resumeFromWait_meets h₁ nothing free)
        rintro k' ⟨h', _, others⟩
        refine ⟨h', fun u running => ?_⟩
        have ne : u ≠ client := by
          rintro rfl
          rcases (h.requests.parked s u engaged).1 with eq | eq <;> rw [running] at eq <;> cases eq
        exact (others u ne).trans running

theorem receive_meets {replied : Bool} (h : k.Settled) (running : k.statusOf t = .running) :
    Meets WaitFault (k.receive t objects replied) fun reply => reply.2.Settled := by
  apply meets_ite
  · exact fun _ => meets_ok h
  · intro _
    split
    · next object _ =>
        apply meets_bind acquire_quiet
        intro k' q
        have h' := h.quiet q
        cases object with
        | serverSession s =>
          apply meets_bind (receiveIPCRequest_quiet h')
          exact fun reply q' => meets_ok (h'.quiet q')
        | _ => exact meets_ok h'
    · obtain ⟨settled, own⟩ := @sleepOn_settled k t objects .waitSynchAny h running (Or.inl rfl)
      exact meets_ok (settled.quiet (quiet_setCallback t _))

theorem replyAndReceive_meets {target : Option (Option Nat)} (h : k.Settled)
    (running : k.statusOf t = .running) :
    Meets WaitFault (k.replyAndReceive t validAddress count handles target)
      fun reply => reply.2.Settled := by
  apply meets_ite
  · exact fun _ => meets_ok h
  · intro _
    apply meets_ite
    · exact fun _ => meets_ok h
    · intro _
      split
      · exact meets_ok h
      · split
        · exact receive_meets h running
        · exact meets_ok h
        · apply meets_bind (sendReply_meets h)
          rintro ⟨reply, k'⟩ ⟨h', still⟩
          cases reply with
          | some reply => exact meets_ok h'
          | none => exact receive_meets h' (still t running)

theorem Settled.unused (h : k.Settled) (unused : k.Unused o) : k.waitingThreads o = [] := by
  apply List.eq_nil_iff_forall_not_mem.mpr
  intro u mem
  exact unused.objects u (h.mem_waiting.mp mem)

theorem quiet_setWaiting (empty : k.waitingThreads o = []) :
    Quiet k (k.setWaiting o fun _ => []) := by
  refine ⟨?_, rfl, fun _ _ => id, id⟩
  have same : Function.update k.waitingThreads o [] = k.waitingThreads := by
    rw [← empty]
    exact Function.update_eq_self o k.waitingThreads
  exact congrArg (fun waiting => WaitGraph.mk waiting fun t => (k.thread t).waitObjects) same

theorem quiet_createEvent {resetType : ResetType}
    (empty : k.waitingThreads (.event e) = []) : Quiet k (k.createEvent e resetType) := by
  have set : Quiet k (k.setEvent e fun _ => { signaled := false, resetType }) :=
    ⟨rfl, rfl, fun _ _ => id, id⟩
  exact set.quiet (quiet_setWaiting empty)

theorem pause_settled (h : k.Settled) (idle : (k.thread t).waitObjects = [])
    (free : ∀ s, ¬ (k.serverSession s).Engaged t) :
    (((k.setStatus t .waitHleEvent).setWaitObjects t [.event e]).addWaitingThread
        (.event e) t).Settled ∧
      (((k.setStatus t .waitHleEvent).setWaitObjects t [.event e]).addWaitingThread
        (.event e) t).statusOf t = .waitHleEvent := by
  have marked := restatus_setThread k t (fun thread => { thread with status := .waitHleEvent })
    rfl
  have named := rewires_setWaitObjects (k.setStatus t .waitHleEvent) t [.event e]
  have r := named.followed (rewires_enlist _ (.event e) t)
  have own : (((k.setStatus t .waitHleEvent).setWaitObjects t [.event e]).addWaitingThread
      (.event e) t).statusOf t = .waitHleEvent := by
    refine (congrFun r.status t).trans ?_
    rw [setStatus, statusOf_setThread, if_pos rfl]
  refine ⟨h.join [.event e] idle ?_ ?_ ?_ (r.requests (h.requests.setThread _ free nofun)), own⟩
  · refine r.graph.trans ?_
    rw [named.graph, setStatus, marked.graph]
    rfl
  · rw [own]
    exact Or.inr (Or.inr rfl)
  · intro u ne
    refine (congrFun r.status u).trans ?_
    rw [setStatus, statusOf_setThread, if_neg ne]

theorem sleepClientThread_settled {timeout : Int} (h : k.Settled)
    (running : k.statusOf t = .running) (unused : k.Unused (.event e)) :
    (k.sleepClientThread t e timeout).Settled ∧
      (k.sleepClientThread t e timeout).statusOf t = .waitHleEvent := by
  obtain ⟨idle, free, _⟩ := h.of_running running
  have called : Quiet k (k.setCallback t .hle) := quiet_setCallback t _
  have created : Quiet k ((k.setCallback t .hle).createEvent e .oneShot) :=
    called.quiet (quiet_createEvent (h.unused unused))
  obtain ⟨settled, own⟩ := @pause_settled _ t e (h.quiet created)
    ((objects_of_graph created.graph t).trans idle) fun s engaged =>
      free s (created.engaged s t engaged)
  unfold sleepClientThread
  split_ifs
  · constructor
    · apply settled.delay id
      · intro s
        apply settled.not_engaged <;> rw [own] <;> exact nofun
      · rw [own]
        exact nofun
    · unfold wakeAfterDelay
      split_ifs
      · exact own
      · rw [statusOf_setThread, if_pos rfl]
        exact own
  · exact ⟨settled, own⟩

end EmuThreeDS.Kernel
