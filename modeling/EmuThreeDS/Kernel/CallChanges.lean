import EmuThreeDS.Kernel.Signals

/-!
# The changes of each call

One lemma for each function that calls make. What a call does to the object it creates, closes
or releases comes first, and is kept apart.
-/
namespace EmuThreeDS.Kernel

variable {k k' k'' : Kernel} {t u : ThreadId} {o : WaitObject} {m : MutexId}

theorem Calm.status (h : Calm k k') (u : ThreadId) : k'.statusOf u = k.statusOf u ∨
    ¬ Awake (k.statusOf u) ∧ k'.statusOf u = .ready := by
  cases h with
  | @thread t f same =>
    left
    rw [statusOf_setThread]
    split_ifs with eq
    · rw [eq]
      exact (same _).1
    · rfl
  | waiting | reorder | stamp => exact Or.inl rfl
  | @release a t _ waits =>
    by_cases same : u = t
    · right
      rw [same, statusOf, waits]
      exact ⟨by decide, statusOf_makeReady⟩
    · exact Or.inl (restatus_makeReady.others u same).1
  | boost =>
    left
    unfold boostPriority
    rw [statusOf_setThread]
    split_ifs with eq
    · rw [eq]
      rfl
    · rfl
  | @ready t asleep =>
    by_cases same : u = t
    · right
      rw [same]
      exact ⟨asleep, statusOf_makeReady⟩
    · exact Or.inl (restatus_makeReady.others u same).1

theorem Calms.resumable (h : Calms k k') (u : ThreadId) (free : Resumable (k.statusOf u)) :
    Resumable (k'.statusOf u) := by
  induction h with
  | refl => exact free
  | tail _ step ih =>
    rcases step.status u with same | ⟨_, ready⟩
    · rwa [same]
    · rw [ready]
      exact ⟨nofun, nofun⟩

theorem acquire_status (run : k.acquire o t = .ok k') : k'.statusOf = k.statusOf :=
  (acquire_quiet.ok run).status

/-- Changes that wake threads, and do no more to their statuses. -/
structure Rouses (k k' : Kernel) : Prop where
  changes : Changes k k'
  status : ∀ u, k'.statusOf u = k.statusOf u ∨ ¬ Awake (k.statusOf u) ∧ k'.statusOf u = .ready

theorem Rouses.refl (k : Kernel) : Rouses k k := ⟨.refl, fun _ => Or.inl rfl⟩

theorem Rouses.trans (first : Rouses k k') (second : Rouses k' k'') : Rouses k k'' := by
  refine ⟨first.changes.trans second.changes, fun u => ?_⟩
  rcases second.status u with same | ⟨asleep, ready⟩
  · rw [same]
    exact first.status u
  · rcases first.status u with same | ⟨_, already⟩
    · rw [same] at asleep
      exact Or.inr ⟨asleep, ready⟩
    · rw [already] at asleep
      exact absurd (Or.inl rfl) asleep

theorem Rouses.awake (h : Rouses k k') (u : ThreadId) (awake : Awake (k.statusOf u)) :
    k'.statusOf u = k.statusOf u :=
  (h.status u).resolve_right fun asleep => asleep.1 awake

theorem Rouses.resumable (h : Rouses k k') (u : ThreadId) (free : Resumable (k.statusOf u)) :
    Resumable (k'.statusOf u) := by
  rcases h.status u with same | ⟨_, ready⟩
  · rwa [same]
  · rw [ready]
    exact ⟨nofun, nofun⟩

theorem Calm.rouses (h : Calm k k') : Rouses k k' := ⟨(Change.calm h).one, h.status⟩

theorem Calms.rouses (h : Calms k k') : Rouses k k' := by
  induction h with
  | refl => exact .refl k
  | tail _ step ih => exact ih.trans step.rouses

theorem Calms.awake (h : Calms k k') (awake : Awake (k.statusOf u)) :
    k'.statusOf u = k.statusOf u := h.rouses.awake u awake

theorem rouses_of_status (h : Change k k') (same : k'.statusOf = k.statusOf) : Rouses k k' :=
  ⟨h.one, fun u => Or.inl (congrFun same u)⟩

theorem acquire_rouses (alive : k.statusOf t ≠ .dead) : Returns (k.acquire o t) fun k' =>
    Rouses k k' ∧ k'.statusOf = k.statusOf :=
  meets_of_ok fun _ run =>
    ⟨rouses_of_status (.acquire alive run) (acquire_status run), acquire_status run⟩

variable {objects : List WaitObject} {status : ThreadStatus} {priority core a s e p i address : Nat}
  {ns count : Int} {validAddress : Bool} {handles : Nat → Option WaitObject}
  {pause : Option (Nat × Int)} {allowed : Kernel → Action → Prop}

theorem acquireAll_rouses (alive : k.statusOf t ≠ .dead) :
    Returns (k.acquireAll t objects) (Rouses k) := by
  induction objects generalizing k with
  | nil => exact meets_ok (.refl k)
  | cons o rest ih =>
    apply meets_bind (acquire_rouses alive)
    rintro k₁ ⟨first, same⟩
    rw [← same] at alive
    exact (ih alive).mono fun k₂ => first.trans

theorem acquireFor_rouses (alive : k.statusOf t ≠ .dead) :
    Returns (k.acquireFor o t) (Rouses k) := by
  unfold acquireFor
  split_ifs
  · exact acquireAll_rouses alive
  · exact (acquire_rouses alive).mono fun _ => And.left

theorem WaitStatus.alive (h : WaitStatus status) : status ≠ .dead := by
  rintro rfl
  revert h
  decide

theorem WaitStatus.resumable (h : WaitStatus status) : Resumable status := by
  constructor
  all_goals
    rintro rfl
    revert h
    decide

theorem wakeup_calms (free : Resumable (k.statusOf t)) :
    Returns (k.invokeCallback .signal t (some o) >>= fun k =>
      (k.clearWaitObjects t).resumeFromWait t) (Calms k) := by
  apply meets_bind (@invokeCallback_calms k t (some o) .signal nofun)
  intro k₁ called
  have cleared : Calms k (k₁.clearWaitObjects t) := called.trans clearWaitObjects_calms
  apply (resumeFromWait_calms (cleared.resumable t free)).mono
  exact fun k₂ resumed => cleared.trans resumed

theorem wakeThread_rouses (waits : WaitStatus (k.statusOf t)) :
    Returns (k.wakeThread o t) (Rouses k) := by
  apply meets_bind (acquireFor_rouses waits.alive)
  intro k₁ acquired
  have free := acquired.resumable t waits.resumable
  exact (wakeup_calms free).mono fun k₂ calms => acquired.trans calms.rouses

theorem selectThread_waits {threads : List ThreadId} {candidate : Option ThreadId}
    (known : ∀ t, candidate = some t → WaitStatus (k.statusOf t)) :
    Returns (k.selectThread o threads candidate priority) fun found =>
      ∀ t, found = some t → WaitStatus (k.statusOf t) := by
  induction threads generalizing candidate priority with
  | nil => exact meets_ok known
  | cons t rest ih =>
    apply meets_assert False.elim
    intro waits
    have own : ∀ u, some t = some u → WaitStatus (k.statusOf u) := by
      rintro _ ⟨⟩
      exact waits
    apply meets_ite
    · exact fun _ => ih known
    · intro _
      apply meets_ite
      · exact fun _ => ih own
      · exact fun _ => ih known

theorem getHighestPriorityReadyThread_waits :
    Returns (k.getHighestPriorityReadyThread o) fun found =>
      ∀ t, found = some t → WaitStatus (k.statusOf t) :=
  selectThread_waits fun _ none => nomatch none

theorem wakeLoop_rouses {fuel : Nat} : Returns (wakeLoop o fuel k) (Rouses k) := by
  induction fuel generalizing k with
  | zero => exact meets_error id
  | succ fuel ih =>
    apply meets_bind getHighestPriorityReadyThread_waits
    intro found waits
    cases found with
    | none => exact meets_ok (.refl k)
    | some t =>
      apply meets_bind (wakeThread_rouses (waits t rfl))
      intro k₁ woken
      exact ih.mono fun k₂ => woken.trans

theorem endPulse_rouses : Rouses k (k.endPulse o) := by
  unfold endPulse
  cases o with
  | event e =>
    dsimp only
    split_ifs
    · exact rouses_of_status .event rfl
    · exact .refl k
  | timer i =>
    dsimp only
    split_ifs
    · exact rouses_of_status .timer rfl
    · exact .refl k
  | _ => exact .refl k

theorem wakeupAllWaitingThreads_rouses : Returns (k.wakeupAllWaitingThreads o) (Rouses k) := by
  apply meets_bind wakeLoop_rouses
  exact fun k₁ woken => meets_ok (woken.trans endPulse_rouses)

theorem Changes.wakeup (h : Changes k k') : Returns (k'.wakeupAllWaitingThreads o) (Changes k) :=
  wakeupAllWaitingThreads_rouses.mono fun _ woken => h.trans woken.changes

theorem releaseMutex_changes : Returns (k.releaseMutex m t) fun reply => Changes k reply.2 := by
  apply meets_ite
  · exact fun _ => meets_ok .refl
  · intro holder
    apply meets_ite
    · exact fun _ => meets_ok .refl
    · intro locked
      have unlock : Changes k (k.unlocked m t) := (Change.unlock (not_not.mp holder) locked).one
      unfold unlocked at unlock
      apply meets_ite
      · intro last
        rw [if_pos last] at unlock
        apply meets_bind unlock.wakeup
        exact fun k₁ woken => meets_ok woken
      · intro more
        rw [if_neg more] at unlock
        exact meets_ok unlock

theorem releaseMutexes_rouses {ms : List MutexId} : Returns (k.releaseMutexes ms) (Rouses k) := by
  induction ms generalizing k with
  | nil => exact meets_ok (.refl k)
  | cons m rest ih =>
    have abandoned : Rouses k (k.setMutex m fun mutex =>
      { mutex with lockCount := 0, holdingThread := none }) := rouses_of_status .abandon rfl
    apply meets_bind wakeupAllWaitingThreads_rouses
    intro k₁ woken
    exact ih.mono fun k₂ later => (abandoned.trans woken).trans later

theorem releaseThreadMutexes_rouses (dead : k.statusOf t = .dead) :
    Returns (k.releaseThreadMutexes t) (Rouses k) := by
  apply meets_bind releaseMutexes_rouses
  intro k₁ released
  have still := released.awake t (Or.inr (Or.inr dead))
  apply released.trans (rouses_of_status (.drop (still.trans dead)) _)
  funext u
  rw [statusOf_setThread]
  split_ifs with same
  · rw [same]
    rfl
  · rfl

theorem stop_rouses : Returns (k.stop t) (Rouses (k.killed t)) := by
  apply meets_bind wakeupAllWaitingThreads_rouses
  intro k₁ woken
  have cleared : Rouses (k.killed t) (k₁.clearWaitObjects t) :=
    Rouses.trans woken clearWaitObjects_calms.rouses
  have dead := cleared.awake t (Or.inr (Or.inr statusOf_killed))
  have released := @releaseThreadMutexes_rouses _ t (dead.trans statusOf_killed)
  exact released.mono fun k₂ => cleared.trans

theorem stop_changes : Returns (k.stop t) (Changes k) :=
  stop_rouses.mono fun _ later => Change.kill.one.trans later.changes

theorem exitCurrentThread_changes : Returns (k.exitCurrentThread core t) (Changes k) := by
  apply meets_bind stop_changes
  intro k₁ stopped
  exact stopped.tail (.manager fun _ => ⟨rfl, rfl⟩)

theorem clearWaitObjects_idle (idle : (k.thread t).waitObjects = []) : k.clearWaitObjects t =
    k.setThread t fun thread => { thread with waitObjects := [] } := by
  unfold clearWaitObjects
  rw [idle]
  rfl

theorem release_calms (enlisted : k.Enlisted) (inside : t ∈ k.arbiter a)
    (waits : (k.thread t).status = .waitArb) (idle : (k.thread t).waitObjects = []) :
    Calms k (((k.setArbiter a fun waiting => waiting.filter (· ≠ t)).clearWaitObjects t).makeReady
      t) := by
  have same : (k.arbiter a).filter (· ≠ t) = (k.arbiter a).erase t := by
    rw [(enlisted.nodup a).erase_eq_filter]
    exact List.filter_congr fun u _ => by simp [bne, beq_eq_decide]
  have erased : (k.setArbiter a fun waiting => waiting.filter (· ≠ t)) =
      k.setArbiter a fun waiting => waiting.erase t := by
    unfold setArbiter
    dsimp only
    rw [same]
  have first : Calms k (k.setThread t fun thread => { thread with waitObjects := [] }) :=
    calms_thread (fun _ => ⟨rfl, rfl, rfl, rfl, rfl⟩) fun _ => ⟨rfl, rfl, rfl⟩
  have still : ((k.setThread t fun thread => { thread with waitObjects := [] }).thread t).status =
      .waitArb := by
    rw [thread_setThread, if_pos rfl]
    exact waits
  rw [erased, @clearWaitObjects_idle (k.setArbiter a fun waiting => waiting.erase t) t idle]
  exact first.tail (.release inside still)

theorem threadWakeupCallback_changes (enlisted : k.Enlisted)
    (names : k.statusOf t = .waitArb → (k.thread t).waitObjects = [])
    (created : k.statusOf t ≠ .dormant) (timed : k.statusOf t = .waitArb → ∃ a, t ∈ k.arbiter a ∧
      (k.thread t).wakeupCallback = some (.addressArbiter a)) :
    Returns (k.threadWakeupCallback t) (Changes k) := by
  unfold threadWakeupCallback
  by_cases arbitrated : (k.thread t).status = .waitArb
  · have idle := names arbitrated
    obtain ⟨a, inside, callback⟩ := timed arbitrated
    rw [if_pos (Or.inr arbitrated)]
    apply meets_bind (P := fun k₁ => k₁ = k.setArbiter a fun waiting => waiting.filter (· ≠ t))
    · unfold invokeCallback
      rw [callback]
      apply meets_assert False.elim
      exact fun _ => meets_ok rfl
    · rintro _ rfl
      have released := release_calms enlisted inside arbitrated idle
      apply (resumeFromWait_spec False.elim id).mono
      rintro k₂ (⟨_, awake⟩ | ⟨rfl, _⟩)
      · have still : ((k.setArbiter a fun waiting => waiting.filter (· ≠ t)).clearWaitObjects
            t).statusOf t = .waitArb := by
          rw [@clearWaitObjects_idle (k.setArbiter a _) t idle, statusOf_setThread, if_pos rfl]
          exact arbitrated
        rw [statusOf] at still
        rw [still] at awake
        exact absurd awake (by decide)
      · exact released.changes
  · have free : Resumable (k.statusOf t) := ⟨created, arbitrated⟩
    apply meets_ite
    · intro waits
      have waits := waits.resolve_right arbitrated
      have unlisted : ∀ a, t ∉ k.arbiter a := by
        intro a listed
        rcases enlisted.status a t listed with waits | dead
        · exact arbitrated waits
        · exact WaitStatus.alive waits dead
      apply meets_bind (invokeCallback_calms fun _ => unlisted)
      intro k₁ called
      have cleared : Calms k (k₁.clearWaitObjects t) := called.trans clearWaitObjects_calms
      apply (resumeFromWait_calms (cleared.resumable t free)).mono
      exact fun k₂ resumed => Calms.changes (cleared.trans resumed)
    · exact fun _ => (resumeFromWait_calms free).mono fun _ => Calms.changes

theorem setWaitObjects_calms : Calms k (k.setWaitObjects t objects) :=
  calms_thread (fun _ => ⟨rfl, rfl, rfl, rfl, rfl⟩) fun _ => ⟨rfl, rfl, rfl⟩

theorem setCallback_calms {callback : WakeupCallback} (free : Unlisted (k.statusOf t))
    (suits : Suits (k.statusOf t) (some callback)) : Calms k (k.setCallback t callback) :=
  (Calm.thread (f := fun thread => { thread with wakeupCallback := some callback })
    (fun _ => ⟨rfl, rfl, rfl, rfl, rfl⟩) (Or.inl fun _ => Nat.le_refl _)
    (Or.inr ⟨free, suits⟩)).one

theorem statusOf_wakeAfterDelay : (k.wakeAfterDelay t ns).statusOf t = k.statusOf t := by
  unfold wakeAfterDelay
  split_ifs
  · rfl
  · rw [statusOf_setThread, if_pos rfl]
    rfl

theorem Changes.delay {callback : WakeupCallback} (h : Changes k k') (ns : Int)
    (own : k'.statusOf t = status) (free : Unlisted status) (suits : Suits status (some callback)) :
    Changes k ((k'.wakeAfterDelay t ns).setCallback t callback) := by
  subst own
  have delayed := @wakeAfterDelay_calms k' t ns free.1
  rw [← @statusOf_wakeAfterDelay k' t ns] at free suits
  exact h.trans (Calms.changes (delayed.trans (setCallback_calms free suits)))

theorem setStatus_change (running : k.statusOf t = .running)
    (asleep : Asleep status) : Change k (k.setStatus t status) := by
  refine .sleep running (fun _ => ⟨asleep, rfl, rfl, rfl, rfl⟩) fun none => ?_
  unfold Suited
  rw [none]
  exact suits_none

theorem Asleep.unlisted (asleep : Asleep status) : Unlisted status := by
  refine ⟨⟨?_, ?_⟩, ?_⟩
  all_goals
    rintro rfl
    revert asleep
    unfold Asleep
    decide

theorem statusOf_setStatus : (k.setStatus t status).statusOf t = status := by
  unfold setStatus
  rw [statusOf_setThread, if_pos rfl]

theorem setStatus_unlisted (asleep : Asleep status) :
    Unlisted ((k.setStatus t status).statusOf t) := by
  rw [statusOf_setStatus]
  exact asleep.unlisted

theorem sleepOn_changes (running : k.statusOf t = .running) (asleep : Asleep status) :
    Changes k (k.sleepOn t objects status) := by
  have slept : Changes k (k.setStatus t status) := (setStatus_change running asleep).one
  exact slept.trans (Calms.changes (addWaitingThreads_calms.trans setWaitObjects_calms))

theorem waitSynchronization1_changes {handle : Option WaitObject}
    (running : k.statusOf t = .running) :
    Returns (k.waitSynchronization1 t handle ns) fun reply => Changes k reply.2 := by
  unfold waitSynchronization1
  split
  · exact meets_ok .refl
  · next object =>
      apply meets_ite
      · intro _
        apply meets_ite
        · exact fun _ => meets_ok .refl
        · intro _
          have named : Calms k ((k.setWaitObjects t [object]).addWaitingThread object t) :=
            setWaitObjects_calms.trans addWaitingThread_calms
          have still := named.awake (Or.inr (Or.inl running))
          have slept : Changes k (((k.setWaitObjects t [object]).addWaitingThread object t).setStatus
              t .waitSynchAny) :=
            named.changes.tail (setStatus_change (still.trans running) (Or.inl (Or.inl rfl)))
          exact meets_ok
            (slept.delay ns statusOf_setStatus (Asleep.unlisted (Or.inl (Or.inl rfl)))
              (by simp [Suits]))
      · intro _
        apply meets_bind (acquire_rouses (by simp [running]))
        exact fun k₁ acquired => meets_ok acquired.1.changes

theorem waitSynchronizationN_changes {waitAll : Bool} (running : k.statusOf t = .running) :
    Returns (k.waitSynchronizationN t validAddress count handles waitAll ns)
      fun reply => Changes k reply.2 := by
  have alive : k.statusOf t ≠ .dead := by
    rw [running]
    exact nofun
  apply meets_ite
  · exact fun _ => meets_ok .refl
  · intro _
    apply meets_ite
    · exact fun _ => meets_ok .refl
    · intro _
      split
      · exact meets_ok .refl
      · next objects _ =>
          apply meets_ite
          · intro _
            apply meets_ite
            · intro _
              apply meets_bind (acquireAll_rouses alive)
              exact fun k₁ acquired => meets_ok acquired.changes
            · intro _
              apply meets_ite
              · exact fun _ => meets_ok .refl
              · intro _
                have asleep : Asleep .waitSynchAll := Or.inl (Or.inr (Or.inl rfl))
                have slept := @sleepOn_changes k t objects .waitSynchAll running asleep
                exact meets_ok (slept.delay ns statusOf_sleepOn asleep.unlisted (by simp [Suits]))
          · intro _
            split
            · apply meets_bind (acquire_rouses alive)
              exact fun k₁ acquired => meets_ok acquired.1.changes
            · apply meets_ite
              · exact fun _ => meets_ok .refl
              · intro _
                have asleep : Asleep .waitSynchAny := Or.inl (Or.inl rfl)
                have slept := @sleepOn_changes k t objects .waitSynchAny running asleep
                exact meets_ok (slept.delay ns statusOf_sleepOn asleep.unlisted (by simp [Suits]))

theorem sendReply_changes (h : k.Settled) : Returns (k.sendReply t s) fun reply =>
    Changes k reply.2 ∧ ∀ u, k.statusOf u = .running → reply.2.statusOf u = .running := by
  have client : ((k.setSession s fun session =>
      { session with currentlyHandling := none }).serverSession s).client =
        (k.serverSession s).client := by
    simp [setSession]
  unfold sendReply
  dsimp only
  rw [client]
  split
  · next none => exact meets_ok ⟨(Change.unanswered (Or.inl none)).one, fun _ => id⟩
  · next requester handled =>
      apply meets_ite
      · intro closed
        exact meets_ok ⟨(Change.unanswered (Or.inr closed)).one, fun _ => id⟩
      · intro opened
        apply meets_assert False.elim
        intro _
        have free : Resumable (k.statusOf requester) := by
          rcases (h.requests.parked s requester (Or.inr handled)).1 with parked | dead
          · rw [parked]
            exact ⟨(by rintro ⟨⟩), (by rintro ⟨⟩)⟩
          · rw [dead]
            exact ⟨(by rintro ⟨⟩), (by rintro ⟨⟩)⟩
        have answer : Change k (k.answered s requester) :=
          .answer handled (by simpa using opened) free
        unfold answered at answer
        apply meets_bind (resumeFromWait_spec False.elim id)
        rintro k₁ (⟨rfl, awake⟩ | ⟨rfl, asleep⟩)
        · rw [if_pos awake] at answer
          exact meets_ok ⟨answer.one, fun _ => id⟩
        · rw [if_neg asleep] at answer
          refine meets_ok ⟨answer.one, fun u running => ?_⟩
          have ne : u ≠ requester := by
            rintro rfl
            exact asleep (Or.inr (Or.inl running))
          exact (restatus_makeReady.others u ne).1.trans running

theorem receive_changes {replied : Bool} (running : k.statusOf t = .running) :
    Returns (k.receive t objects replied) fun reply => Changes k reply.2 := by
  apply meets_ite
  · exact fun _ => meets_ok .refl
  · intro _
    split
    · next object _ =>
        apply meets_bind (acquire_rouses (by rw [running]; exact nofun))
        rintro k₁ ⟨acquired, _⟩
        cases object with
        | serverSession s =>
          apply meets_bind receiveIPCRequest_same
          rintro ⟨code, k₂⟩ rfl
          exact meets_ok acquired.changes
        | _ => exact meets_ok acquired.changes
    · have asleep : Asleep .waitSynchAny := Or.inl (Or.inl rfl)
      have slept := @sleepOn_changes k t objects .waitSynchAny running asleep
      have own := @statusOf_sleepOn k t objects .waitSynchAny
      exact meets_ok (slept.trans (Calms.changes (setCallback_calms
        (by rw [own]; exact asleep.unlisted) (by simp [own, Suits]))))

theorem replyAndReceive_changes {target : Option (Option Nat)} (h : k.Settled)
    (running : k.statusOf t = .running) :
    Returns (k.replyAndReceive t validAddress count handles target)
      fun reply => Changes k reply.2 := by
  apply meets_ite
  · exact fun _ => meets_ok .refl
  · intro _
    apply meets_ite
    · exact fun _ => meets_ok .refl
    · intro _
      split
      · exact meets_ok .refl
      · split
        · exact receive_changes running
        · exact meets_ok .refl
        · apply meets_bind (sendReply_changes h)
          rintro ⟨reply, k₁⟩ ⟨sent, still⟩
          cases reply with
          | some reply => exact meets_ok sent
          | none => exact (receive_changes (still t running)).mono fun _ => sent.trans

theorem createEvent_changes {resetType : ResetType} : Changes k (k.createEvent e resetType) :=
  (Change.event.one).tail (.calm .waiting)

theorem setThread_setThread (f g : Thread → Thread) :
    (k.setThread t f).setThread t g = k.setThread t fun thread => g (f thread) := by
  unfold setThread
  dsimp only
  rw [Function.update_idem, Function.update_self]

theorem sleepClientThread_changes {timeout : Int} (running : k.statusOf t = .running) :
    Changes k (k.sleepClientThread t e timeout) := by
  have asleep : Asleep .waitHleEvent := Or.inl (Or.inr (Or.inr rfl))
  have created := @createEvent_changes k e .oneShot
  -- the callback and the status are one update of a thread that still ran
  have slept : Change (k.createEvent e .oneShot)
      (((k.setCallback t .hle).createEvent e .oneShot).setStatus t .waitHleEvent) := by
    have both := @Change.sleep (k.createEvent e .oneShot) t
      (fun thread => { thread with wakeupCallback := some .hle, status := .waitHleEvent }) running
      (fun _ => ⟨asleep, rfl, rfl, rfl, rfl⟩) fun _ => by simp [Suited, Suits]
    rw [← setThread_setThread (fun thread => { thread with wakeupCallback := some .hle })
      fun thread => { thread with status := .waitHleEvent }] at both
    exact both
  have named := (created.tail slept).trans (Calms.changes (@setWaitObjects_calms _ t [.event e]))
  have waits := named.trans (Calms.changes (@addWaitingThread_calms _ t (.event e)))
  unfold sleepClientThread
  split_ifs
  · have unlisted := @setStatus_unlisted ((k.setCallback t .hle).createEvent e .oneShot) t _ asleep
    have free := Calms.resumable ((@setWaitObjects_calms _ t [.event e]).trans
      (@addWaitingThread_calms _ t (.event e))) t unlisted.1
    exact waits.trans (wakeAfterDelay_calms free).changes
  · exact waits

theorem handleSyncRequest_changes (h : k.Settled) (running : k.statusOf t = .running)
    (client : (k.serverSession s).client = true) (server : (k.serverSession s).server = true)
    (unused : ∀ e ns, pause = some (e, ns) → k.Unused (.event e)) :
    Returns (k.handleSyncRequest s t pause) (Changes k) := by
  unfold handleSyncRequest
  dsimp only
  split
  · next e ns _ =>
      have slept := @sleepClientThread_changes k t e ns running
      have asleep := (@sleepClientThread_settled k t e ns h running (unused e ns rfl)).2
      -- a thread that was paused does not wait for a reply
      have paused : (k.sleepClientThread t e ns).awaitReply s t = k.sleepClientThread t e ns := by
        apply if_neg
        intro running
        rw [statusOf] at asleep
        rw [asleep] at running
        cases running
      rw [paused]
      exact slept.wakeup
  · exact (Change.park client server).one.wakeup

theorem sendSyncRequest_changes {session : Option Nat} (h : k.Settled)
    (running : k.statusOf t = .running)
    (client : ∀ s, session = some s → (k.serverSession s).client = true)
    (unused : ∀ e ns, pause = some (e, ns) → k.Unused (.event e)) :
    Returns (k.sendSyncRequest t session pause) fun reply => Changes k reply.2 := by
  unfold sendSyncRequest
  split
  · exact meets_ok .refl
  · next s =>
      apply meets_ite
      · exact fun _ => meets_ok .refl
      · intro server
        apply meets_bind (handleSyncRequest_changes h running (client s rfl)
          (by simpa using server) unused)
        exact fun k₁ sent => meets_ok sent

theorem createSession_changes {port : Option Nat} {hle : Bool} (closed : k.Closed s)
    (own : ∀ p, port = some p → (k.serverPort p).hleHandler = hle)
    (emulated : port = none → hle = false) : Changes k (k.createSession s port hle) :=
  (Change.createSession closed own emulated).one.tail (.calm .waiting)

theorem connect_changes (closed : k.Closed s) :
    Returns (k.connect p s) fun reply => Changes k reply.2 := by
  have hle : ∀ x : ServerPort, ({ x with activeSessions := x.activeSessions + 1 } :
      ServerPort).hleHandler = x.hleHandler := fun _ => rfl
  apply meets_ite
  · exact fun _ => meets_ok .refl
  · intro _
    have counted : Changes k (k.setPort p fun port =>
      { port with activeSessions := port.activeSessions + 1 }) := (Change.port hle).one
    have created := counted.trans (@createSession_changes _ s (some p) _ closed
      (fun q same => by cases same; rfl) nofun)
    apply meets_bind
    · apply Changes.wakeup
      split_ifs
      · exact created
      · exact created.tail (.port fun _ => rfl)
    · exact fun k₁ connected => meets_ok connected

theorem accept_changes : Changes k (k.accept p).2 := by
  unfold accept
  split
  · exact .refl
  · have popped : Change k (k.setPort p fun port =>
      { port with pendingSessions := port.pendingSessions.dropLast }) := .port fun _ => rfl
    exact popped.one

theorem createMutex_changes {m : MutexId} {locked : Bool} (unused : k.Unused (.mutex m))
    (alive : k.statusOf t ≠ .dead) : Returns (k.createMutex m locked t) (Changes k) := by
  have created : Changes k ((k.setMutex m fun mutex =>
      { mutex with lockCount := 0, holdingThread := none }).setWaiting (.mutex m) fun _ => []) :=
    (Change.createMutex unused).one.tail (.calm .waiting)
  have still : ((k.setMutex m fun mutex =>
      { mutex with lockCount := 0, holdingThread := none }).setWaiting (.mutex m)
        fun _ => []).statusOf t ≠ .dead := alive
  apply meets_ite
  · intro _
    apply (acquire_rouses still).mono
    exact fun k₁ acquired => created.trans acquired.1.changes
  · exact fun _ => meets_ok created

theorem signalTimer_changes : Returns (k.signalTimer i) (Changes k) := by
  have set : Changes k (k.setTimer i fun timer => { timer with signaled := true }) :=
    Change.timer.one
  apply meets_bind set.wakeup
  intro k₁ woken
  split_ifs
  · exact woken.tail .timer
  · exact woken

theorem setTimerDelays_changes {initial interval : Int} :
    Returns (k.setTimerDelays i initial interval) fun reply => Changes k reply.2 := by
  have set : Changes k ((k.cancelTimer i).setTimer i fun timer =>
      { timer with initialDelay := initial, intervalDelay := interval }) :=
    Change.timer.one.tail .timer
  apply meets_ite
  · exact fun _ => meets_ok .refl
  · intro _
    apply meets_ite
    · intro _
      apply meets_bind signalTimer_changes
      exact fun k₁ signaled => meets_ok (set.trans signaled)
    · intro _
      have counted := set.tail (@Change.timer _ i fun timer =>
        { timer with callbackEvents := timer.callbackEvents + 1 })
      exact meets_ok counted

theorem setThreadPriority_changes {thread : Option ThreadId} {limit : Nat} :
    Returns (k.setThreadPriority thread priority limit) fun reply => Changes k reply.2 := by
  apply meets_ite
  · exact fun _ => meets_ok .refl
  · intro _
    split
    · exact meets_ok .refl
    · apply meets_ite
      · exact fun _ => meets_ok .refl
      · intro _
        apply meets_bind (meets_of_ok fun _ run => (Change.setPriority run).one)
        intro k₁ set
        exact set.trans (Calms.changes (updatePriority_calms.trans updateMutexPriorities_calms))

theorem sleepThread_changes (running : k.statusOf t = .running) :
    Returns (k.sleepThread core t ns) (Changes k) := by
  have slept : Changes k (k.setStatus t .waitSleep) :=
    (setStatus_change running (Or.inr rfl)).one
  apply meets_bind (P := fun _ => True)
  · exact meets_of_ok fun _ _ => trivial
  · intro first _
    apply meets_ite
    · exact fun _ => meets_ok .refl
    · have free := @setStatus_unlisted k t .waitSleep (Or.inr rfl)
      exact fun _ => meets_ok (slept.trans (wakeAfterDelay_calms free.1).changes)

theorem Settled.allArbitrated (h : k.Settled)
    (waits : ∀ t ∈ k.arbiter a, (k.thread t).status = .waitArb) : k.AllArbitrated a := by
  refine ⟨waits, fun t listed => h.objects_nil id ?_⟩
  rw [statusOf, waits t listed]
  decide

theorem resumeAllThreads_calms (h : k.Settled) (enlisted : k.Enlisted) :
    Returns (k.resumeAllThreads a address) (Calms k) := by
  apply meets_of_ok
  intro k' run
  obtain ⟨_, waits, _⟩ := bind_eq_ok.mp run
  obtain ⟨_, same, _, calms⟩ := resumeAllThreads_woke enlisted
    (h.allArbitrated (assert_eq_ok.mp waits))
  rw [run] at same
  cases same
  exact calms

theorem resumeFirst_calms {n : Nat} (h : k.Settled) (enlisted : k.Enlisted) :
    Returns (resumeFirst a address n k) (Calms k) := by
  apply meets_of_ok
  intro k' run
  cases n with
  | zero =>
    cases run
    exact .refl
  | succ n =>
    obtain ⟨_, first, _⟩ := bind_eq_ok.mp run
    obtain ⟨_, waits, _⟩ := bind_eq_ok.mp first
    obtain ⟨_, _, same, _, calms, _⟩ := resumeFirst_woke enlisted
      (h.allArbitrated (assert_eq_ok.mp waits))
    rw [run] at same
    cases same
    exact calms

theorem arbitrateAddress_changes {type : ArbitrationType} {memory value : Int} (h : k.Settled)
    (enlisted : k.Enlisted) (running : k.statusOf t = .running) :
    Returns (k.arbitrateAddress a t type address memory value ns)
      fun reply => Changes k reply.2 ∨ Arbitrates k a t reply.2 := by
  have none : (k.thread t).wakeupEvents = 0 := (h.of_running running).2.2
  cases type with
  | signal =>
    apply meets_ite
    · intro _
      apply meets_bind (resumeAllThreads_calms h enlisted)
      exact fun k₁ resumed => meets_ok (Or.inl (Calms.changes resumed))
    · intro _
      apply meets_bind (resumeFirst_calms h enlisted)
      exact fun k₁ resumed => meets_ok (Or.inl (Calms.changes resumed))
  | waitIfLessThan | decrementAndWaitIfLessThan =>
    apply meets_ok
    split_ifs
    · exact Or.inr (.wait running (fun _ => ⟨rfl, rfl, rfl, rfl, rfl⟩) (Or.inl none))
    · exact Or.inl .refl
  | waitIfLessThanWithTimeout | decrementAndWaitIfLessThanWithTimeout =>
    apply meets_ok
    unfold arbiterWait setCallback wakeAfterDelay
    split_ifs
    · rw [setThread_setThread]
      exact Or.inr (.wait running (fun _ => ⟨rfl, rfl, rfl, rfl, rfl⟩) (Or.inr rfl))
    · rw [setThread_setThread, setThread_setThread]
      exact Or.inr (.wait running (fun _ => ⟨rfl, rfl, rfl, rfl, rfl⟩) (Or.inr rfl))
    · exact Or.inl .refl
  | other value => exact meets_ok (Or.inl .refl)

def Action.opening (k : Kernel) : Action → Kernel
  | .createSemaphore s initialCount maxCount => (k.createSemaphore s initialCount maxCount).2
  | .releaseSemaphore s n =>
    if (k.semaphore s).maxCount - (k.semaphore s).availableCount < n then k
    else k.setSemaphore s fun semaphore =>
      { semaphore with availableCount := semaphore.availableCount + n }
  | .createPort p maxSessions hleHandler => k.createPort p maxSessions hleHandler
  | .closeClientSession s =>
    if (k.serverSession s).server then
      k.setSession s fun session =>
        { session with
          hleHandler := false, pendingRequestingThreads := [], currentlyHandling := none,
          client := false }
    else k
  | .closeServerSession s => k.setSession s fun session =>
    { session with server := false, pendingRequestingThreads := [], currentlyHandling := none }
  | _ => k

theorem opening_keeps (k : Kernel) (a : Action) : Keeps k (a.opening k) := by
  apply Keeps.of_thread
  all_goals
    cases a with
    | releaseSemaphore s n | closeClientSession s =>
      simp only [Action.opening]
      split_ifs <;> rfl
    | createSemaphore s initialCount maxCount =>
      simp only [Action.opening, createSemaphore]
      split_ifs <;> rfl
    | _ => rfl

theorem closeServerSession_changes : Returns (k.closeServerSession s)
    (Changes (Action.opening k (.closeServerSession s))) := by
  unfold closeServerSession connectionClosed
  split
  · exact meets_ok .refl
  · apply meets_bind (P := fun k₁ => ∃ p f, k₁ = k.setPort p f ∧
      ∀ x, (f x).hleHandler = x.hleHandler)
    · apply meets_assert False.elim
      exact fun _ => meets_ok ⟨_, _, rfl, fun _ => rfl⟩
    · rintro _ ⟨p, f, rfl, same⟩
      -- the port and the session are updated in either order
      have counted : Change (Action.opening k (.closeServerSession s))
          ((Action.opening k (.closeServerSession s)).setPort p f) := .port same
      exact meets_ok counted.one

theorem closeClientSession_changes : Returns (k.closeClientSession s)
    (Changes (Action.opening k (.closeClientSession s))) := by
  unfold closeClientSession Action.opening
  dsimp only
  split_ifs with server
  · exact wakeupAllWaitingThreads_rouses.mono fun _ => Rouses.changes
  · exact meets_ok (Change.closeClient (by simpa using server)).one

theorem releaseSemaphore_changes {n : Int} : Returns (k.releaseSemaphore s n) fun reply =>
      Changes (Action.opening k (.releaseSemaphore s n)) reply.2 := by
  unfold releaseSemaphore Action.opening
  dsimp only
  split_ifs
  · exact meets_ok .refl
  · apply meets_bind wakeupAllWaitingThreads_rouses
    exact fun k₁ woken => meets_ok woken.changes

/-- What a call comes to: changes that follow its opening, a wait, or a new thread. -/
inductive Comes (k : Kernel) (a : Action) (k' : Kernel) : Prop where
  | changes : Changes (a.opening k) k' → Comes k a k'
  | waits {arbiter : Nat} {t : ThreadId} : Arbitrates k arbiter t k' → Comes k a k'
  | creates : Creates k a k' → Comes k a k'

theorem Action.run_changes (h : k.Settled) (restful : k.Restful) (enlisted : k.Enlisted)
    {a : Action} (enabled : a.Enabled k) : Returns (a.run k) fun k' => Comes k a k' := by
  have only : ∀ {x : Exec Kernel}, Returns x (Changes (a.opening k)) → Returns x (Comes k a) :=
    fun changes => changes.mono fun _ => Comes.changes
  cases a with
  | createThread t _ _ _ _ =>
    exact meets_snd (meets_of_ok fun reply run => Comes.creates (.call enabled.1 run))
  | createEvent e _ => exact only (meets_ok createEvent_changes)
  | createTimer i _ => exact only (meets_ok (Change.timer.one.tail (.calm .waiting)))
  | createSemaphore s _ _ | createPort p _ _ => exact only (meets_ok .refl)
  | createMutex m _ t =>
    apply only
    apply createMutex_changes enabled.1
    rw [statusOf, enabled.2.1]
    rintro ⟨⟩
  | createSession s =>
    exact only (meets_ok (createSession_changes enabled.2 (by rintro _ ⟨⟩) fun _ => rfl))
  | connect p s => exact only (meets_snd (connect_changes enabled.2))
  | accept p => exact only (meets_ok accept_changes)
  | closeClientSession s => exact only (closeClientSession_changes)
  | closeServerSession s => exact only (closeServerSession_changes)
  | waitSynchronization1 t _ _ => exact only (meets_snd (waitSynchronization1_changes enabled.1))
  | waitSynchronizationN t _ _ _ _ _ => exact only (meets_snd (waitSynchronizationN_changes enabled.1))
  | replyAndReceive t _ _ _ _ => exact only (meets_snd (replyAndReceive_changes h enabled.1))
  | sendSyncRequest t _ _ =>
    exact only (meets_snd (sendSyncRequest_changes h enabled.1.1 enabled.2.1 enabled.2.2))
  | signalEvent e => exact only (Change.event.one.wakeup)
  | clearEvent e => exact only (meets_ok Change.event.one)
  | setTimer i _ _ => exact only (meets_snd setTimerDelays_changes)
  | clearTimer i | cancelTimer i => exact only (meets_ok Change.timer.one)
  | timerCallback i =>
    have fired : Changes k (k.setTimer i fun timer =>
      { timer with callbackEvents := timer.callbackEvents - 1 }) := Change.timer.one
    exact only (signalTimer_changes.mono fun _ => fired.trans)
  | releaseSemaphore s _ => exact only (meets_snd releaseSemaphore_changes)
  | releaseMutex m t => exact only (meets_snd releaseMutex_changes)
  | sleepThread core t _ => exact only (sleepThread_changes enabled.1.1)
  | arbitrateAddress a t _ _ _ _ _ =>
    apply meets_snd
    apply (arbitrateAddress_changes h enlisted enabled.1).mono
    rintro reply (changes | waits)
    · exact .changes changes
    · exact .waits waits
  | setThreadPriority thread _ _ => exact only (meets_snd setThreadPriority_changes)
  | threadWakeupCallback t =>
    have fired : Calms k (k.setThread t fun thread =>
      { thread with wakeupEvents := thread.wakeupEvents - 1 }) :=
        Relation.ReflTransGen.single (.thread (fun _ => ⟨rfl, rfl, rfl, rfl, rfl⟩)
          (Or.inl fun _ => Nat.sub_le _ _) (Or.inl fun _ => ⟨rfl, rfl⟩))
    have some : 0 < (k.thread t).wakeupEvents := enabled
    have own : (k.setThread t fun thread =>
        { thread with wakeupEvents := thread.wakeupEvents - 1 }).thread t =
          { k.thread t with wakeupEvents := (k.thread t).wakeupEvents - 1 } := by
      rw [thread_setThread, if_pos rfl]
    apply only
    have callback := @threadWakeupCallback_changes (k.setThread t fun thread =>
      { thread with wakeupEvents := thread.wakeupEvents - 1 }) t (fired.enlisted enlisted).2
        ?_ ?_ ?_
    · exact callback.mono fun _ => fired.changes.trans
    · rw [statusOf, own]
      intro waits
      apply h.objects_nil id
      rw [statusOf, waits]
      decide
    · rw [statusOf, own]
      intro dormant
      have none := restful t dormant
      omega
    · rw [statusOf, own]
      intro waits
      obtain ⟨a, listed, none | callback⟩ := enlisted.listed t waits
      · omega
      · exact ⟨a, listed, callback⟩
  | exitThread core t => exact only (exitCurrentThread_changes)
  | stop t => exact only (stop_changes)
  | reschedule core => exact only (meets_of_ok fun _ run => (Change.reschedule run).one)
  | setCanSchedule t _ =>
    exact only (meets_ok (Calms.changes
      (calms_thread (fun _ => ⟨rfl, rfl, rfl, rfl, rfl⟩) fun _ => ⟨rfl, rfl, rfl⟩)))
  | writeCommandBuffers _ => exact only (meets_ok Change.commandBuffers.one)

theorem boot_enlisted (numCores : Nat) : (boot numCores).Enlisted :=
  ⟨nofun, nofun, fun _ => List.nodup_nil, nofun⟩

structure Grounded (k : Kernel) : Prop where
  settled : k.Settled
  restful : k.Restful
  enlisted : k.Enlisted

theorem boot_grounded (numCores : Nat) : (boot numCores).Grounded :=
  ⟨boot_settled numCores, fun _ _ => rfl, boot_enlisted numCores⟩

theorem Arbitrates.rests (h : Arbitrates k a t k') : Rests k k' := by
  intro u dormant
  obtain ⟨waits, others⟩ := h.thread
  by_cases same : u = t
  · rw [same, waits] at dormant
    cases dormant
  · rw [others u same] at dormant ⊢
    exact ⟨dormant, Nat.le_refl _⟩

theorem Changes.rests (h : Changes k k') : Rests k k' := by
  induction h with
  | refl => exact .refl k
  | tail _ step ih => exact ih.trans step.rests

theorem Grounded.step (h : k.Grounded) {a : Action} (step : Step k a k') : k'.Grounded ∧
    Comes k a k' := by
  obtain ⟨enabled, run⟩ := step
  have changed := (a.run_changes h.settled h.restful h.enlisted enabled).ok run
  refine ⟨⟨h.settled.step ⟨enabled, run⟩, ?_, ?_⟩, changed⟩
  · rcases changed with changes | waits | creates
    · exact ((opening_keeps k a).rests.trans changes.rests).restful h.restful
    · exact waits.rests.restful h.restful
    · exact creates.rests.restful h.restful
  · rcases changed with changes | waits | creates
    · exact (changes.enlisted (h.enlisted.keep (opening_keeps k a)).2).2
    · exact waits.enlisted h.enlisted
    · exact (creates.enlisted h.enlisted).2

theorem Reachable.grounded (h : Reachable allowed k) : k.Grounded := by
  apply h.invariant
  · rintro k ⟨numCores, rfl⟩
    exact boot_grounded numCores
  · exact fun k a k' grounded _ step => (grounded.step step).1

/-- What the changes keep, the waits, new threads and the openings of the allowed calls, holds in
every run. -/
theorem Reachable.changes {I : Kernel → Prop}
    (h : Reachable allowed k) (init : ∀ numCores, I (boot numCores))
    (opened : ∀ k a, I k → allowed k a → a.Enabled k → I (Action.opening k a))
    (waits : ∀ k k' a t, Arbitrates k a t k' → I k → I k')
    (created : ∀ k k' a, Creates k a k' → I k → I k')
    (keep : ∀ k k', Change k k' → I k → I k') : I k := by
  have all : k.Grounded ∧ I k := by
    apply h.invariant
    · rintro k ⟨numCores, rfl⟩
      exact ⟨boot_grounded numCores, init numCores⟩
    · rintro k a k' ⟨grounded, held⟩ fits step
      obtain ⟨grounded', changes | wait | creates⟩ := grounded.step step
      · refine ⟨grounded', ?_⟩
        have opened := opened k a held fits step.1
        clear step grounded'
        induction changes with
        | refl => exact opened
        | tail _ change ih => exact keep _ _ change ih
      · exact ⟨grounded', waits k k' _ _ wait held⟩
      · exact ⟨grounded', created k k' a creates held⟩
  exact all.2

end EmuThreeDS.Kernel
