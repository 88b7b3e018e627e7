import EmuThreeDS.Kernel.WaitRuns

/-!
# The changes that calls are made of

Every call is a sequence of changes, so an invariant of the kernel is checked on these. The
calm ones wake threads and pass priorities on, and leave objects and their owners alone.
-/
namespace EmuThreeDS.Kernel

/-- An update of fields that only the thread's own wait depends on. -/
def Untracked (f : Thread → Thread) : Prop :=
  ∀ x, (f x).status = x.status ∧ (f x).nominalPriority = x.nominalPriority ∧
    (f x).currentPriority = x.currentPriority ∧ (f x).coreId = x.coreId ∧
    (f x).heldMutexes = x.heldMutexes

/-- The status of a thread that was created and that no arbiter keeps. -/
def Resumable (status : ThreadStatus) : Prop := status ≠ .dormant ∧ status ≠ .waitArb

def Unlisted (status : ThreadStatus) : Prop := Resumable status ∧ status ≠ .dead

/-- The callbacks that the waits of a status install. -/
def Suits : ThreadStatus → Option WakeupCallback → Prop
  | .dormant, callback | .ready, callback | .running, callback => callback = none
  | .waitSynchAny, callback =>
    ∀ own ∈ callback, own = .svcIPC ∨ ∃ doOutput, own = .svcSync doOutput
  | .waitSynchAll, callback => ∀ own ∈ callback, ∃ doOutput, own = .svcSync doOutput
  | .waitHleEvent, callback => ∀ own ∈ callback, own = .hle
  | _, _ => True

theorem suits_none {status : ThreadStatus} : Suits status none := by
  cases status <;> simp [Suits]

/-- The callback of a thread is the one of its wait. -/
def Suited (thread : Thread) : Prop := Suits thread.status thread.wakeupCallback

def waitersAt (k : Kernel) (a address : Nat) : List ThreadId :=
  (k.arbiter a).filter fun t => (k.thread t).waitAddress = address

inductive Calm (k : Kernel) : Kernel → Prop where
  | thread {t : ThreadId} {f : Thread → Thread} : Untracked f →
      (∀ x, (f x).wakeupEvents ≤ x.wakeupEvents) ∨ Resumable (k.thread t).status →
      (∀ x, (f x).wakeupCallback = x.wakeupCallback ∧ (f x).waitAddress = x.waitAddress) ∨
        Unlisted (k.thread t).status ∧ Suited (f (k.thread t)) → Calm k (k.setThread t f)
  | waiting {o : WaitObject} {f : List ThreadId → List ThreadId} : Calm k (k.setWaiting o f)
  | reorder {a : Nat} {waiting : List ThreadId} :
      (∀ address, (waiting.filter fun t => (k.thread t).waitAddress = address) =
        k.waitersAt a address) → Calm k (k.setArbiter a fun _ => waiting)
  | release {a : Nat} {t : ThreadId} : t ∈ k.arbiter a → (k.thread t).status = .waitArb →
      Calm k ((k.setArbiter a fun waiting => waiting.erase t).makeReady t)
  | stamp {m : MutexId} {f : Mutex → Mutex} :
      (∀ x, (f x).lockCount = x.lockCount ∧ (f x).holdingThread = x.holdingThread) →
      Calm k (k.setMutex m f)
  | boost {t : ThreadId} {priority : Nat} : priority ≤ (k.thread t).nominalPriority →
      Calm k (k.boostPriority t priority)
  | ready {t : ThreadId} : ¬ Awake (k.thread t).status → Resumable (k.thread t).status →
      Calm k (k.makeReady t)

/-- The statuses that a running thread takes when it waits for neither a reply nor an arbiter. -/
def Asleep (status : ThreadStatus) : Prop := WaitStatus status ∨ status = .waitSleep

/-- `Mutex::Release` up to its wakeups. -/
def unlocked (k : Kernel) (m : MutexId) (t : ThreadId) : Kernel :=
  let k := k.setMutex m fun mutex => { mutex with lockCount := mutex.lockCount - 1 }
  if (k.mutex m).lockCount = 0 then
    ((k.setThread t fun thread =>
      { thread with heldMutexes := thread.heldMutexes.erase m }).updatePriority t).setMutex m
        fun mutex => { mutex with holdingThread := none }
  else k

/-- A request is answered: the session is done with it, and its thread goes on. -/
def answered (k : Kernel) (s : Nat) (t : ThreadId) : Kernel :=
  let k := k.setSession s fun session => { session with currentlyHandling := none }
  if Awake (k.thread t).status then k else k.makeReady t

inductive Change (k : Kernel) : Kernel → Prop where
  | calm {k' : Kernel} : Calm k k' → Change k k'
  | event {e : Nat} {f : Event → Event} : Change k (k.setEvent e f)
  | timer {i : Nat} {f : Timer → Timer} : Change k (k.setTimer i f)
  | port {p : Nat} {f : ServerPort → ServerPort} :
      (∀ x, (f x).hleHandler = x.hleHandler) → Change k (k.setPort p f)
  | manager {core : Nat} {f : ThreadManager → ThreadManager} :
      (∀ x, (f x).readyQueue = x.readyQueue ∧ (f x).currentThread = x.currentThread) →
      Change k (k.setManager core f)
  | commandBuffers {translate : ThreadId → ThreadId → ResultVal Unit} :
      Change k { k with translateCommandBuffer := translate }
  | setPriority {t : ThreadId} {priority : Nat} {k' : Kernel} :
      k.setPriority t priority = .ok k' → Change k k'
  | sleep {t : ThreadId} {f : Thread → Thread} : (k.thread t).status = .running →
      (∀ x, Asleep (f x).status ∧ (f x).nominalPriority = x.nominalPriority ∧
        (f x).currentPriority = x.currentPriority ∧ (f x).coreId = x.coreId ∧
        (f x).heldMutexes = x.heldMutexes) →
      ((k.thread t).wakeupCallback = none → Suited (f (k.thread t))) → Change k (k.setThread t f)
  | park {s : Nat} {t : ThreadId} : (k.serverSession s).client = true →
      (k.serverSession s).server = true → Change k (k.awaitReply s t)
  | acquire {o : WaitObject} {t : ThreadId} {k' : Kernel} : (k.thread t).status ≠ .dead →
      k.acquire o t = .ok k' → Change k k'
  | unlock {m : MutexId} {t : ThreadId} : (k.mutex m).holdingThread = some t →
      (k.mutex m).lockCount ≠ 0 → Change k (k.unlocked m t)
  | abandon {m : MutexId} :
      Change k (k.setMutex m fun mutex => { mutex with lockCount := 0, holdingThread := none })
  | drop {t : ThreadId} : (k.thread t).status = .dead →
      Change k (k.setThread t fun thread => { thread with heldMutexes := [] })
  | kill {t : ThreadId} : Change k (k.killed t)
  | createMutex {m : MutexId} : k.Unused (.mutex m) →
      Change k (k.setMutex m fun mutex => { mutex with lockCount := 0, holdingThread := none })
  | createSession {s : Nat} {port : Option Nat} {hle : Bool} : k.Closed s →
      (∀ p, port = some p → (k.serverPort p).hleHandler = hle) → (port = none → hle = false) →
      Change k (k.setSession s fun _ => { client := true, server := true, port, hleHandler := hle })
  | closeClient {s : Nat} : (k.serverSession s).server = false →
      Change k (k.setSession s fun session => { session with client := false })
  | answer {s : Nat} {t : ThreadId} : (k.serverSession s).currentlyHandling = some t →
      (k.serverSession s).client = true → Resumable (k.thread t).status →
      Change k (k.answered s t)
  | unanswered {s : Nat} : (k.serverSession s).currentlyHandling = none ∨
      (k.serverSession s).client = false →
      Change k (k.setSession s fun session => { session with currentlyHandling := none })
  | reschedule {core : Nat} {k' : Kernel} : k.reschedule core = .ok k' → Change k k'

inductive Creates (k : Kernel) : Action → Kernel → Prop where
  | call {t : ThreadId} {priority : Nat} {processorId : Int} {validEntry tlsPage : Bool}
      {reply : ResultVal Unit} {k' : Kernel} : (k.thread t).status = .dormant →
      k.createThread t priority processorId validEntry tlsPage = .ok (reply, k') →
      Creates k (.createThread t priority processorId validEntry tlsPage) k'

abbrev Calms : Kernel → Kernel → Prop := Relation.ReflTransGen Calm

abbrev Changes : Kernel → Kernel → Prop := Relation.ReflTransGen Change

/-- No fault is ruled out: only what is returned counts. -/
abbrev Returns {α : Type} (x : Exec α) (Q : α → Prop) : Prop := Meets (fun _ => False) x Q

variable {k k' k'' : Kernel} {t : ThreadId} {o : WaitObject} {m : MutexId}

theorem Calm.one (h : Calm k k') : Calms k k' := .single h

theorem Change.one (h : Change k k') : Changes k k' := .single h

theorem Calms.changes (h : Calms k k') : Changes k k' :=
  Relation.ReflTransGen.mono (fun _ _ => Change.calm) _ _ h

variable {f : Thread → Thread} {objects : List WaitObject} {s core : Nat}
  {object : Option WaitObject}

theorem calms_thread (same : Untracked f)
    (wait : ∀ x, (f x).wakeupEvents = x.wakeupEvents ∧ (f x).wakeupCallback = x.wakeupCallback ∧
      (f x).waitAddress = x.waitAddress) : Calms k (k.setThread t f) :=
  (Calm.thread same (Or.inl fun x => (wait x).1.le) (Or.inl fun x => (wait x).2)).one

theorem best_le (default : Nat) (priorities : List Nat) : best default priorities ≤ default := by
  unfold best
  induction priorities generalizing default with
  | nil => exact le_refl default
  | cons p rest ih =>
    rw [List.foldl_cons]
    split_ifs with better
    · exact le_trans (ih p) (le_of_lt better)
    · exact ih default

theorem updatePriority_calms : Calms k (k.updatePriority t) := (Calm.boost (best_le _ _)).one

theorem updateMutexPriority_calms : Calms k (k.updateMutexPriority m) := by
  unfold updateMutexPriority
  split
  · exact .refl
  · split_ifs
    · have stamped : Calm k (k.setMutex m fun mutex =>
          { mutex with priority := k.waitersPriority m }) := .stamp fun _ => ⟨rfl, rfl⟩
      exact stamped.one.trans updatePriority_calms
    · exact .refl

theorem updateMutexPriorities_calms {ms : List MutexId} : Calms k (k.updateMutexPriorities ms) := by
  induction ms generalizing k with
  | nil => exact .refl
  | cons m rest ih => exact updateMutexPriority_calms.trans ih

theorem addWaitingThread_calms : Calms k (k.addWaitingThread o t) := by
  have enlisted : Calms k (k.enlist o t) := Calm.waiting.one
  cases o with
  | mutex m =>
    apply Relation.ReflTransGen.trans _ updateMutexPriority_calms
    exact enlisted.trans
      (calms_thread (fun _ => ⟨rfl, rfl, rfl, rfl, rfl⟩) fun _ => ⟨rfl, rfl, rfl⟩)
  | _ => exact enlisted

theorem removeWaitingThread_calms : Calms k (k.removeWaitingThread o t) := by
  have delisted : Calms k (k.delist o t) := Calm.waiting.one
  cases o with
  | mutex m =>
    apply Relation.ReflTransGen.trans _ updateMutexPriority_calms
    exact delisted.trans
      (calms_thread (fun _ => ⟨rfl, rfl, rfl, rfl, rfl⟩) fun _ => ⟨rfl, rfl, rfl⟩)
  | _ => exact delisted

theorem addWaitingThreads_calms : Calms k (k.addWaitingThreads t objects) := by
  induction objects generalizing k with
  | nil => exact .refl
  | cons o rest ih => exact addWaitingThread_calms.trans ih

theorem removeWaitingThreads_calms : Calms k (k.removeWaitingThreads t objects) := by
  induction objects generalizing k with
  | nil => exact .refl
  | cons o rest ih => exact removeWaitingThread_calms.trans ih

theorem clearWaitObjects_calms : Calms k (k.clearWaitObjects t) :=
  Relation.ReflTransGen.trans removeWaitingThreads_calms
    (calms_thread (fun _ => ⟨rfl, rfl, rfl, rfl, rfl⟩) fun _ => ⟨rfl, rfl, rfl⟩)

theorem resumeFromWait_calms (free : Resumable (k.thread t).status) :
    Returns (k.resumeFromWait t) (Calms k) := by
  apply (resumeFromWait_spec False.elim id).mono
  rintro k' (⟨rfl, _⟩ | ⟨rfl, asleep⟩)
  · exact .refl
  · exact (Calm.ready asleep free).one

theorem wakeAfterDelay_calms {ns : Int} (free : Resumable (k.thread t).status) :
    Calms k (k.wakeAfterDelay t ns) := by
  unfold wakeAfterDelay
  split_ifs
  · exact .refl
  · have own : Untracked fun thread : Thread =>
        { thread with wakeupEvents := thread.wakeupEvents + 1 } :=
      fun _ => ⟨rfl, rfl, rfl, rfl, rfl⟩
    exact (Calm.thread own (Or.inr free) (Or.inl fun _ => ⟨rfl, rfl⟩)).one

theorem result_calms {code : ResultVal Unit} : Calms k (k.setWaitSynchronizationResult t code) :=
  calms_thread (fun _ => ⟨rfl, rfl, rfl, rfl, rfl⟩) fun _ => ⟨rfl, rfl, rfl⟩

theorem output_calms {index : Int} : Calms k (k.setWaitSynchronizationOutput t index) :=
  calms_thread (fun _ => ⟨rfl, rfl, rfl, rfl, rfl⟩) fun _ => ⟨rfl, rfl, rfl⟩

theorem receiveIPCRequest_same : Returns (k.receiveIPCRequest s t) fun reply => reply.2 = k := by
  apply meets_ite
  · exact fun _ => meets_ok rfl
  · intro _
    split
    · exact meets_error id
    · split
      · exact meets_ok rfl
      · apply meets_bind (P := fun _ => True)
        · exact (resumeFromWait_spec False.elim id).mono fun _ _ => trivial
        · exact fun _ _ => meets_error id

theorem receiveFrom_same : Returns (k.receiveFrom t object) fun reply => reply.2 = k := by
  unfold receiveFrom
  split
  · exact receiveIPCRequest_same
  · exact meets_ok rfl

theorem index_calms (before : Calms k k') : Returns (k'.getWaitObjectIndex t object >>= fun index =>
      pure (k'.setWaitSynchronizationOutput t index)) (Calms k) := by
  apply meets_bind (P := fun _ => True)
  · apply meets_assert False.elim
    exact fun _ => meets_ok trivial
  · exact fun index _ => meets_ok (before.trans output_calms)

theorem invokeCallback_calms {reason : ThreadWakeupReason}
    (unlisted : reason = .timeout → ∀ a, t ∉ k.arbiter a) :
    Returns (k.invokeCallback reason t object) (Calms k) := by
  unfold invokeCallback
  split
  · exact meets_ok .refl
  · next callback _ =>
      cases callback with
      | svcSync doOutput =>
        cases reason with
        | timeout => exact meets_ok result_calms
        | signal =>
          apply meets_ite
          · exact fun _ => index_calms result_calms
          · exact fun _ => meets_ok result_calms
      | svcIPC =>
        apply meets_assert False.elim
        intro _
        apply meets_assert False.elim
        intro _
        apply meets_bind receiveFrom_same
        rintro ⟨code, k'⟩ rfl
        exact index_calms result_calms
      | hle =>
        apply meets_assert False.elim
        exact fun _ => meets_ok .refl
      | addressArbiter a =>
        apply meets_assert False.elim
        intro timeout
        have unchanged : (k.arbiter a).filter (· ≠ t) = k.arbiter a := by
          apply List.filter_eq_self.mpr
          intro u listed
          have other : u ≠ t := fun same => unlisted timeout a (same ▸ listed)
          simpa using other
        exact meets_ok (Calm.reorder fun address => by rw [unchanged]; rfl).one

theorem Asleep.created {status : ThreadStatus} (asleep : Asleep status) : status ≠ .dormant := by
  rintro rfl
  revert asleep
  unfold Asleep
  decide

/-- No thread goes back to being dormant, and none that stays so gets a wakeup. -/
def Rests (k k' : Kernel) : Prop := ∀ t, (k'.thread t).status = .dormant →
  (k.thread t).status = .dormant ∧ (k'.thread t).wakeupEvents ≤ (k.thread t).wakeupEvents

/-- Nothing wakes a thread that was never created. -/
def Restful (k : Kernel) : Prop :=
  ∀ t, (k.thread t).status = .dormant → (k.thread t).wakeupEvents = 0

theorem Rests.refl (k : Kernel) : Rests k k := fun _ dormant => ⟨dormant, Nat.le_refl _⟩

theorem Rests.trans (first : Rests k k') (second : Rests k' k'') : Rests k k'' := by
  intro t dormant
  obtain ⟨between, later⟩ := second t dormant
  obtain ⟨before, sooner⟩ := first t between
  exact ⟨before, later.trans sooner⟩

theorem Rests.restful (h : Rests k k') (restful : k.Restful) : k'.Restful := by
  intro t dormant
  obtain ⟨before, fewer⟩ := h t dormant
  exact Nat.le_zero.mp (fewer.trans (Nat.le_of_eq (restful t before)))

theorem rests_setThread (own : (f (k.thread t)).status = .dormant →
    (k.thread t).status = .dormant ∧ (f (k.thread t)).wakeupEvents ≤ (k.thread t).wakeupEvents) :
    Rests k (k.setThread t f) := by
  intro u dormant
  rw [thread_setThread] at dormant ⊢
  split_ifs at dormant ⊢ with same
  · rw [same]
    exact own dormant
  · exact ⟨dormant, Nat.le_refl _⟩

theorem rests_keep (same : ∀ x, (f x).status = x.status ∧
    (f x).wakeupEvents = x.wakeupEvents) : Rests k (k.setThread t f) := by
  apply rests_setThread
  rw [(same _).1, (same _).2]
  exact fun dormant => ⟨dormant, Nat.le_refl _⟩

theorem rests_status (created : ∀ x, (f x).status ≠ .dormant) :
    Rests k (k.setThread t f) := rests_setThread fun dormant => absurd dormant (created _)

theorem Calm.rests (h : Calm k k') : Rests k k' := by
  cases h with
  | @thread t f same events =>
    apply rests_setThread
    rw [(same _).1]
    rcases events with fewer | free
    · exact fun dormant => ⟨dormant, fewer _⟩
    · exact fun dormant => absurd dormant free.1
  | waiting | reorder | stamp => exact .refl k
  | release | ready => exact rests_status (k := Kernel.setQueue _ _ _) fun _ => nofun
  | boost => exact rests_keep (k := Kernel.setQueue _ _ _) fun _ => ⟨rfl, rfl⟩

theorem updatePriority_rests : Rests k (k.updatePriority t) := (Calm.boost (best_le _ _)).rests

theorem awaitReply_rests : Rests k (k.awaitReply s t) := by
  have parked : Rests k (k.setStatus t .waitIPC) := rests_status fun _ => nofun
  have delayed : Rests k ((k.setStatus t .waitIPC).setThread t fun thread =>
      { thread with wakeupEvents := thread.wakeupEvents + 1 }) := by
    apply parked.trans
    apply rests_setThread
    intro dormant
    simp [setStatus, setThread] at dormant
  unfold awaitReply wakeAfterDelay
  dsimp only
  split_ifs
  · exact parked
  · exact delayed
  · exact parked
  · exact .refl k

structure Keeps (k k' : Kernel) : Prop where
  manager : k'.manager = k.manager
  arbiter : k'.arbiter = k.arbiter
  status : ∀ u, (k'.thread u).status = (k.thread u).status
  nominalPriority : ∀ u, (k'.thread u).nominalPriority = (k.thread u).nominalPriority
  currentPriority : ∀ u, (k'.thread u).currentPriority = (k.thread u).currentPriority
  coreId : ∀ u, (k'.thread u).coreId = (k.thread u).coreId
  wakeupEvents : ∀ u, (k'.thread u).wakeupEvents = (k.thread u).wakeupEvents
  wakeupCallback : ∀ u, (k'.thread u).wakeupCallback = (k.thread u).wakeupCallback
  waitAddress : ∀ u, (k'.thread u).waitAddress = (k.thread u).waitAddress

theorem Keeps.of_thread (manager : k'.manager = k.manager) (arbiter : k'.arbiter = k.arbiter)
    (thread : k'.thread = k.thread) : Keeps k k' := by
  constructor
  · exact manager
  · exact arbiter
  all_goals
    intro u
    rw [thread]

theorem keeps_heldMutexes {f : List MutexId → List MutexId} :
    Keeps k (k.setThread t fun thread => { thread with heldMutexes := f thread.heldMutexes }) := by
  constructor
  · rfl
  · rfl
  all_goals
    intro u
    rw [thread_setThread]
    split_ifs with same
    · rw [same]
    · rfl

theorem Keeps.refl (k : Kernel) : Keeps k k := .of_thread rfl rfl rfl

theorem keeps_setMutex {f : Mutex → Mutex} : Keeps k (k.setMutex m f) := .of_thread rfl rfl rfl

theorem Keeps.trans (first : Keeps k k') (second : Keeps k' k'') : Keeps k k'' where
  manager := second.manager.trans first.manager
  arbiter := second.arbiter.trans first.arbiter
  status u := (second.status u).trans (first.status u)
  nominalPriority u := (second.nominalPriority u).trans (first.nominalPriority u)
  currentPriority u := (second.currentPriority u).trans (first.currentPriority u)
  coreId u := (second.coreId u).trans (first.coreId u)
  wakeupEvents u := (second.wakeupEvents u).trans (first.wakeupEvents u)
  wakeupCallback u := (second.wakeupCallback u).trans (first.wakeupCallback u)
  waitAddress u := (second.waitAddress u).trans (first.waitAddress u)

theorem Keeps.rests (h : Keeps k k') : Rests k k' := by
  intro u dormant
  rw [h.status] at dormant
  exact ⟨dormant, Nat.le_of_eq (h.wakeupEvents u)⟩

/-- At most the priority of one thread is computed anew. -/
def Reranks (t : ThreadId) (k k' : Kernel) : Prop :=
  ∃ k₁ k₂, Keeps k k₁ ∧ (k₂ = k₁ ∨ k₂ = k₁.updatePriority t) ∧ Keeps k₂ k'

theorem Keeps.reranks (h : Keeps k k') : Reranks t k k' := ⟨k', k', h, Or.inl rfl, .refl k'⟩

theorem Reranks.induct {motive : Kernel → Prop} (h : Reranks t k k')
    (keep : ∀ {k k'}, Keeps k k' → motive k → motive k')
    (rank : ∀ {k}, motive k → motive (k.updatePriority t)) (start : motive k) : motive k' := by
  obtain ⟨k₁, k₂, before, rfl | rfl, after⟩ := h
  · exact keep after (keep before start)
  · exact keep after (rank (keep before start))

theorem acquire_reranks : Returns (k.acquire o t) (Reranks t k) := by
  have objects : ∀ {k'}, k'.manager = k.manager → k'.arbiter = k.arbiter →
      k'.thread = k.thread → Reranks t k k' :=
    fun manager arbiter thread => (Keeps.of_thread manager arbiter thread).reranks
  cases o with
  | mutex m =>
    apply meets_assert False.elim
    intro _
    split_ifs
    · have held : Keeps k ((k.setMutex m fun mutex =>
          { mutex with
            priority := (k.thread t).currentPriority, holdingThread := some t }).setThread t
              fun thread => { thread with heldMutexes := FlatSet.insert m thread.heldMutexes }) :=
        keeps_setMutex.trans keeps_heldMutexes
      exact ⟨_, _, held, Or.inr rfl, .of_thread rfl rfl rfl⟩
    · exact objects rfl rfl rfl
  | semaphore s =>
    apply meets_ok
    split_ifs <;> exact objects rfl rfl rfl
  | serverSession s =>
    apply meets_assert False.elim
    intro _
    apply meets_ite
    · exact fun _ => meets_ok (objects rfl rfl rfl)
    · intro _
      apply meets_assert False.elim
      exact fun _ => meets_ok (objects rfl rfl rfl)
  | event e | timer i =>
    apply meets_assert False.elim
    intro _
    split_ifs <;> exact objects rfl rfl rfl
  | thread u | serverPort p =>
    apply meets_assert False.elim
    exact fun _ => meets_ok (objects rfl rfl rfl)

theorem unlocked_reranks : Reranks t k (k.unlocked m t) := by
  have dropped : Keeps k ((k.setMutex m fun mutex =>
      { mutex with lockCount := mutex.lockCount - 1 }).setThread t fun thread =>
        { thread with heldMutexes := thread.heldMutexes.erase m }) :=
    keeps_setMutex.trans (keeps_heldMutexes (f := fun held => held.erase m))
  unfold unlocked
  dsimp only
  split_ifs
  · exact ⟨_, _, dropped, Or.inr rfl, keeps_setMutex⟩
  · exact keeps_setMutex.reranks

theorem Reranks.rests (h : Reranks t k k') : Rests k k' :=
  h.induct (motive := Rests k) (fun same before => before.trans same.rests)
    (fun before => before.trans updatePriority_rests) (.refl k)

theorem killed_rests : Rests k (k.killed t) := by
  have still : Rests k (k.setThread t fun thread => { thread with wakeupEvents := 0 }) :=
    rests_setThread fun dormant => ⟨dormant, Nat.zero_le _⟩
  unfold killed
  dsimp only
  split_ifs
  · exact still.trans (rests_status (k := Kernel.setQueue _ _ _) fun _ => nofun)
  · exact still.trans (rests_status fun _ => nofun)

theorem createThread_rests {priority : Nat} {processorId : Int} {validEntry tlsPage : Bool}
    (dormant : (k.thread t).status = .dormant) :
    Returns (k.createThread t priority processorId validEntry tlsPage)
      fun reply => Rests k reply.2 := by
  have made : ∀ core, Rests k (k.registerThread core t priority) := fun core =>
    rests_setThread (k := Kernel.setManager _ _ _) fun _ => ⟨dormant, Nat.zero_le _⟩
  apply createThread_leaves id (.refl k)
  · exact fun _ core => made core
  · exact fun _ core =>
      (made core).trans (rests_status (k := Kernel.setQueue _ _ _) (by exact fun _ => nofun))

theorem Creates.rests {a : Action} (h : Creates k a k') : Rests k k' := by
  cases h with
  | call dormant run => exact (createThread_rests dormant).ok run

theorem preempt_rests : Rests k (k.preempt core) := by
  unfold preempt
  split
  · exact .refl k
  · split_ifs
    · exact rests_status (k := Kernel.setQueue _ _ _) fun _ => nofun
    · exact .refl k

theorem reschedule_rests : Returns (k.reschedule core) (Rests k) := by
  apply meets_bind (P := fun found => Rests k found.2)
  · apply meets_bind (meets_of_ok fun _ _ => trivial)
    exact fun found _ => meets_ok (.refl k)
  · rintro ⟨next, k₁⟩ popped
    apply meets_ite
    · exact fun _ => meets_ok popped
    · intro _
      unfold switchContext
      split
      · exact meets_ok (popped.trans preempt_rests)
      · next t =>
          apply meets_assert False.elim
          intro _
          exact (popped.trans preempt_rests).trans
            (rests_status (k := Kernel.setManager _ _ _) fun _ => nofun)

theorem Change.rests (h : Change k k') : Rests k k' := by
  cases h with
  | calm calm => exact calm.rests
  | setPriority run =>
    obtain ⟨_, bound, same⟩ := bind_eq_ok.mp run
    cases same
    exact rests_keep (k := Kernel.setQueue _ _ _) fun _ => ⟨rfl, rfl⟩
  | @sleep t f running same =>
    apply rests_setThread
    intro dormant
    exact absurd dormant (same (k.thread t)).1.created
  | park => exact awaitReply_rests
  | acquire _ run => exact (acquire_reranks.ok run).rests
  | unlock => exact unlocked_reranks.rests
  | drop => exact rests_keep fun _ => ⟨rfl, rfl⟩
  | kill => exact killed_rests
  | answer =>
    unfold answered
    dsimp only
    split_ifs
    · exact .refl k
    · exact rests_status (k := Kernel.setQueue _ _ _) fun _ => nofun
  | reschedule run => exact reschedule_rests.ok run
  | _ => exact .refl k

end EmuThreeDS.Kernel
