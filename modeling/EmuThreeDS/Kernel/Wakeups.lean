import EmuThreeDS.Kernel.CallChanges

/-!
# Who is woken

A round of the wakeups picks the best thread that could run, the first among equals, and the
rounds go on until no such thread is left.
-/
namespace EmuThreeDS.Kernel

variable {k k' k'' : Kernel} {t u : ThreadId} {o : WaitObject}

/-- Among these threads, nobody who could run comes before `t`. -/
structure BestOf (k : Kernel) (o : WaitObject) (threads : List ThreadId) (t : ThreadId) : Prop where
  ready : k.readyToRun o t = true
  split : ∃ before after, threads = before ++ t :: after ∧
    (∀ u ∈ before, k.readyToRun o u = true →
      (k.thread t).currentPriority < (k.thread u).currentPriority) ∧
    ∀ u ∈ after, k.readyToRun o u = true →
      (k.thread t).currentPriority ≤ (k.thread u).currentPriority

variable {threads : List ThreadId} {priority : Nat} {f : Thread → Thread}

theorem BestOf.cons (h : k.BestOf o threads t) (worse : k.readyToRun o u = true →
      (k.thread t).currentPriority < (k.thread u).currentPriority) :
    k.BestOf o (u :: threads) t := by
  obtain ⟨before, after, rfl, first, last⟩ := h.split
  refine ⟨h.ready, u :: before, after, rfl, ?_, last⟩
  exact List.forall_mem_cons.mpr ⟨worse, first⟩

theorem BestOf.mem (h : k.BestOf o threads t) : t ∈ threads := by
  obtain ⟨before, after, rfl, _⟩ := h.split
  exact List.mem_append_right _ List.mem_cons_self

theorem selectThread_best {candidate : Option ThreadId} :
    Returns (k.selectThread o threads candidate priority) fun found =>
      (found = candidate ∧ ∀ t ∈ threads, k.readyToRun o t = true →
        priority ≤ (k.thread t).currentPriority) ∨
      ∃ t, found = some t ∧ k.BestOf o threads t ∧ (k.thread t).currentPriority < priority := by
  induction threads generalizing candidate priority with
  | nil => exact meets_ok (Or.inl ⟨rfl, nofun⟩)
  | cons t rest ih =>
    -- passing over a thread that is no better than the candidate
    have skip : (k.readyToRun o t = true → priority ≤ (k.thread t).currentPriority) →
        Returns (k.selectThread o rest candidate priority) fun found =>
          (found = candidate ∧ ∀ u ∈ t :: rest, k.readyToRun o u = true →
            priority ≤ (k.thread u).currentPriority) ∨
          ∃ u, found = some u ∧ k.BestOf o (t :: rest) u ∧
            (k.thread u).currentPriority < priority := by
      intro worse
      apply ih.mono
      rintro found (⟨same, none⟩ | ⟨u, same, better, less⟩)
      · exact Or.inl ⟨same, List.forall_mem_cons.mpr ⟨worse, none⟩⟩
      · refine Or.inr ⟨u, same, better.cons fun ready => ?_, less⟩
        exact lt_of_lt_of_le less (worse ready)
    apply meets_assert False.elim
    intro _
    apply meets_ite
    · exact fun low => skip fun _ => low
    · intro high
      apply meets_ite
      · intro ready
        apply ih.mono
        rintro found (⟨same, none⟩ | ⟨u, same, better, less⟩)
        · exact Or.inr ⟨t, same, ⟨ready, [], rest, rfl, nofun, none⟩, not_le.mp high⟩
        · exact Or.inr ⟨u, same, better.cons fun _ => less, less.trans (not_le.mp high)⟩
      · exact fun other => skip fun ready => absurd ready other

def Low (k : Kernel) : Prop := ∀ t, (k.thread t).currentPriority ≤ (k.thread t).nominalPriority ∧
  (k.thread t).nominalPriority ≤ threadPrioLowest

abbrev Best (k : Kernel) (o : WaitObject) (t : ThreadId) : Prop :=
  k.BestOf o (k.waitingThreads o) t

def Quieted (k : Kernel) (o : WaitObject) : Prop :=
  ∀ t ∈ k.waitingThreads o, k.readyToRun o t = false

theorem getHighestPriorityReadyThread_best (low : k.Low) :
    Returns (k.getHighestPriorityReadyThread o) fun found =>
      found = none ∧ k.Quieted o ∨ ∃ t, found = some t ∧ k.Best o t := by
  apply selectThread_best.mono
  rintro found (⟨same, none⟩ | ⟨t, same, best, _⟩)
  · refine Or.inl ⟨same, fun t inside => ?_⟩
    by_contra ready
    have high := none t inside (by simpa using ready)
    obtain ⟨current, nominal⟩ := low t
    omega
  · exact Or.inr ⟨t, same, best⟩

/-- The rounds of the wakeups, with the threads they wake. -/
inductive Wakes (o : WaitObject) : Kernel → List ThreadId → Kernel → Prop where
  | done {k : Kernel} : k.Quieted o → Wakes o k [] k
  | wake {k k' k'' : Kernel} {t : ThreadId} {woken : List ThreadId} : k.Best o t →
      k.wakeThread o t = .ok k' → Wakes o k' woken k'' → Wakes o k (t :: woken) k''

theorem low_setThread (h : k.Low)
    (own : (f (k.thread t)).currentPriority ≤ (f (k.thread t)).nominalPriority ∧
      (f (k.thread t)).nominalPriority ≤ threadPrioLowest) : (k.setThread t f).Low := by
  intro u
  rw [thread_setThread]
  split_ifs
  · exact own
  · exact h u

theorem low_keep (h : k.Low) (same : ∀ x, (f x).nominalPriority = x.nominalPriority ∧
      (f x).currentPriority = x.currentPriority) : (k.setThread t f).Low := by
  apply low_setThread h
  rw [(same _).1, (same _).2]
  exact h t

theorem low_setQueue {core : Nat} {f : KernelQueue → KernelQueue} (h : k.Low) :
    (k.setQueue core f).Low := h

theorem boostPriority_low (h : k.Low)
    (bound : priority ≤ (k.thread t).nominalPriority) : (k.boostPriority t priority).Low := by
  exact low_setThread (low_setQueue h) ⟨bound, (h t).2⟩

theorem makeReady_low (h : k.Low) : (k.makeReady t).Low := by
  exact low_keep (low_setQueue h) fun _ => ⟨rfl, rfl⟩

theorem Calm.low (h : Calm k k') (low : k.Low) : k'.Low := by
  cases h with
  | thread same => exact low_keep low fun x => ⟨(same x).2.1, (same x).2.2.1⟩
  | waiting | reorder | stamp => exact low
  | release => exact makeReady_low (k := Kernel.setArbiter _ _ _) low
  | boost bound => exact boostPriority_low low bound
  | ready => exact makeReady_low low

theorem updatePriority_low (h : k.Low) : (k.updatePriority t).Low :=
  boostPriority_low h (best_le _ _)

theorem awaitReply_low {s : Nat} (h : k.Low) : (k.awaitReply s t).Low := by
  have slept : (k.setStatus t .waitIPC).Low := low_keep h fun _ => ⟨rfl, rfl⟩
  unfold awaitReply wakeAfterDelay
  dsimp only
  split_ifs
  · exact slept
  · exact low_keep slept fun _ => ⟨rfl, rfl⟩
  · exact slept
  · exact h

theorem Keeps.low (h : Keeps k k') (low : k.Low) : k'.Low := by
  intro u
  rw [h.currentPriority, h.nominalPriority]
  exact low u

theorem Reranks.low (h : Reranks t k k') (low : k.Low) : k'.Low :=
  h.induct Keeps.low updatePriority_low low

theorem killed_low (h : k.Low) : (k.killed t).Low := by
  have still : (k.setThread t fun thread => { thread with wakeupEvents := 0 }).Low :=
    low_keep h fun _ => ⟨rfl, rfl⟩
  unfold killed
  dsimp only
  split_ifs
  · exact low_keep (low_setQueue still) fun _ => ⟨rfl, rfl⟩
  · exact low_keep still fun _ => ⟨rfl, rfl⟩

theorem createThread_low {processorId : Int} {validEntry tlsPage : Bool}
    (h : k.Low) : Returns (k.createThread t priority processorId validEntry tlsPage)
      fun reply => reply.2.Low := by
  have made : priority ≤ threadPrioLowest → ∀ core, (k.registerThread core t priority).Low :=
    fun bound core => low_setThread (k := k.setManager core _) h ⟨le_refl _, bound⟩
  apply createThread_leaves id h made
  exact fun bound core => low_keep (low_setQueue (made bound core)) fun _ => ⟨rfl, rfl⟩

theorem Change.low (h : Change k k') (low : k.Low) : k'.Low := by
  cases h with
  | calm calm => exact calm.low low
  | setPriority run =>
    obtain ⟨_, bound, same⟩ := bind_eq_ok.mp run
    cases same
    exact low_setThread (low_setQueue low) ⟨le_refl _, assert_eq_ok.mp bound⟩
  | sleep running same => exact low_keep low fun x => ⟨(same x).2.1, (same x).2.2.1⟩
  | park => exact awaitReply_low low
  | acquire _ run => exact (acquire_reranks.ok run).low low
  | unlock => exact unlocked_reranks.low low
  | drop => exact low_keep low fun _ => ⟨rfl, rfl⟩
  | kill => exact killed_low low
  | answer =>
    unfold answered
    dsimp only
    split_ifs
    · exact low
    · exact makeReady_low (k := Kernel.setSession _ _ _) low
  | reschedule run =>
    intro u
    obtain ⟨status, events, same⟩ := (reschedule_reschedules.ok run).thread u
    rw [same]
    exact low u
  | _ => exact low

theorem Creates.low {a : Action} (h : Creates k a k') (low : k.Low) : k'.Low := by
  cases h with
  | call _ run => exact (createThread_low low).ok run

theorem Arbitrates.low {a : Nat} (h : Arbitrates k a t k') (low : k.Low) : k'.Low := by
  cases h with
  | @wait f running sleeps timed =>
    exact low_keep (f := f) low fun x => ⟨(sleeps x).2.1, (sleeps x).2.2.1⟩

theorem Reachable.low {allowed : Kernel → Action → Prop} (h : Reachable allowed k) : k.Low := by
  apply h.changes
  · exact fun _ _ => ⟨le_refl _, Nat.zero_le threadPrioLowest⟩
  · exact fun k a low _ _ => (opening_keeps k a).low low
  · exact fun k k' a t => Arbitrates.low
  · exact fun k k' a => Creates.low
  · exact fun k k' => Change.low

theorem Changes.low (h : Changes k k') (low : k.Low) : k'.Low := by
  induction h with
  | refl => exact low
  | tail _ step ih => exact step.low ih

theorem wakeLoop_wakes {fuel : Nat} (low : k.Low) :
    Returns (wakeLoop o fuel k) fun k' => ∃ woken, Wakes o k woken k' := by
  induction fuel generalizing k with
  | zero => exact meets_error id
  | succ fuel ih =>
    apply meets_of_ok
    intro k₂ run
    obtain ⟨found, picked, run⟩ := bind_eq_ok.mp run
    rcases (getHighestPriorityReadyThread_best low).ok picked with ⟨rfl, none⟩ | ⟨t, rfl, best⟩
    · cases run
      exact ⟨[], .done none⟩
    · obtain ⟨k₁, wakes, run⟩ := bind_eq_ok.mp run
      have waits := getHighestPriorityReadyThread_waits.ok picked t rfl
      have low₁ := (wakeThread_rouses waits).ok wakes |>.changes.low low
      obtain ⟨woken, rest⟩ := (ih low₁).ok run
      exact ⟨t :: woken, .wake best wakes rest⟩

/-!
## The callbacks of the waits
-/

def Called (k : Kernel) : Prop := ∀ t, Suited (k.thread t)

variable {status : ThreadStatus} {callback : Option WakeupCallback}

theorem suits_other (other : status = .waitArb ∨ status = .waitIPC ∨ status = .dead) :
    Suits status callback := by
  rcases other with rfl | rfl | rfl <;> trivial

theorem Suited.none {thread : Thread} (h : Suited thread)
    (awake : thread.status = .running ∨ thread.status = .ready ∨ thread.status = .dormant) :
    thread.wakeupCallback = none := by
  unfold Suited at h
  rcases awake with same | same | same <;> rw [same] at h <;> exact h

theorem called_setThread (h : k.Called) (own : Suited (f (k.thread t))) :
    (k.setThread t f).Called := by
  intro u
  rw [thread_setThread]
  split_ifs
  · exact own
  · exact h u

theorem called_setQueue {core : Nat} {f : KernelQueue → KernelQueue} (h : k.Called) :
    (k.setQueue core f).Called := h

theorem makeReady_called (h : k.Called) : (k.makeReady t).Called :=
  called_setThread (called_setQueue h) suits_none

theorem boostPriority_called (h : k.Called) : (k.boostPriority t priority).Called := by
  refine called_setThread (called_setQueue h) ?_
  exact h t

theorem Calm.called (h : Calm k k') (called : k.Called) : k'.Called := by
  cases h with
  | @thread t f same _ callback =>
    apply called_setThread called
    rcases callback with kept | ⟨_, suits⟩
    · unfold Suited
      rw [(same _).1, (kept _).1]
      exact called t
    · exact suits
  | waiting | reorder | stamp => exact called
  | release => exact makeReady_called (k := Kernel.setArbiter _ _ _) called
  | boost => exact boostPriority_called called
  | ready => exact makeReady_called called

theorem Keeps.called (h : Keeps k k') (called : k.Called) : k'.Called := by
  intro u
  unfold Suited
  rw [h.status, h.wakeupCallback]
  exact called u

theorem Reranks.called (h : Reranks t k k') (called : k.Called) : k'.Called :=
  h.induct Keeps.called boostPriority_called called

theorem awaitReply_called {s : Nat} (h : k.Called) : (k.awaitReply s t).Called := by
  have slept : (k.setStatus t .waitIPC).Called :=
    called_setThread h (suits_other (Or.inr (Or.inl rfl)))
  unfold awaitReply wakeAfterDelay
  dsimp only
  split_ifs
  · exact slept
  · exact called_setThread slept (slept t)
  · exact slept
  · exact h

theorem killed_called (h : k.Called) : (k.killed t).Called := by
  have dead : ∀ x : Thread, Suited { x with status := .dead } :=
    fun _ => suits_other (Or.inr (Or.inr rfl))
  have still : (k.setThread t fun thread => { thread with wakeupEvents := 0 }).Called :=
    called_setThread h (h t)
  unfold killed
  dsimp only
  split_ifs
  · exact called_setThread (called_setQueue still) (dead _)
  · exact called_setThread still (dead _)

theorem createThread_called {processorId : Int} {validEntry tlsPage : Bool} (h : k.Called) :
    Returns (k.createThread t priority processorId validEntry tlsPage)
      fun reply => reply.2.Called := by
  have made : ∀ core, (k.registerThread core t priority).Called :=
    fun core => called_setThread (k := k.setManager core _) h suits_none
  apply createThread_leaves id h fun _ => made
  intro _ core
  apply called_setThread (called_setQueue (made core))
  have fresh : ((k.registerThread core t priority).thread t).wakeupCallback = none :=
    congrArg Thread.wakeupCallback (Function.update_self t _ k.thread)
  show Suits .ready ((k.registerThread core t priority).thread t).wakeupCallback
  rw [fresh]
  exact suits_none

theorem reschedule_called {core : Nat} (h : k.Called) : Returns (k.reschedule core) Called := by
  apply reschedule_reschedules.mono
  intro k' changed u
  rcases changed.status u with same | ⟨before, _⟩
  · rw [same]
    exact h u
  · obtain ⟨status, events, same⟩ := changed.thread u
    rw [same]
    show Suits status (k.thread u).wakeupCallback
    rw [(h u).none (before.imp_right Or.inl)]
    exact suits_none

theorem Change.called (h : Change k k') (called : k.Called) : k'.Called := by
  cases h with
  | calm calm => exact calm.called called
  | @setPriority t _ _ run =>
    obtain ⟨_, bound, same⟩ := bind_eq_ok.mp run
    cases same
    exact called_setThread (called_setQueue called) (called t)
  | @sleep t f running _ suits =>
    exact called_setThread called (suits ((called t).none (Or.inl running)))
  | park => exact awaitReply_called called
  | acquire _ run => exact (acquire_reranks.ok run).called called
  | unlock => exact unlocked_reranks.called called
  | @drop t => exact called_setThread called (called t)
  | kill => exact killed_called called
  | answer =>
    unfold answered
    dsimp only
    split_ifs
    · exact called
    · exact makeReady_called (k := Kernel.setSession _ _ _) called
  | reschedule run => exact (reschedule_called called).ok run
  | _ => exact called

theorem Arbitrates.called {a : Nat} (h : Arbitrates k a t k') (called : k.Called) : k'.Called := by
  cases h with
  | @wait f running sleeps timed =>
    exact called_setThread (f := f) called (suits_other (Or.inl (sleeps _).1))

theorem Reachable.called {allowed : Kernel → Action → Prop} (h : Reachable allowed k) :
    k.Called := by
  apply h.changes
  · exact fun _ _ => suits_none
  · exact fun k a called _ _ => (opening_keeps k a).called called
  · exact fun k k' a t => Arbitrates.called
  · intro k k' a creates called
    cases creates with
    | call _ run => exact (createThread_called called).ok run
  · exact fun k k' => Change.called

theorem Changes.called (h : Changes k k') (called : k.Called) : k'.Called := by
  induction h with
  | refl => exact called
  | tail _ step ih => exact step.called ih

end EmuThreeDS.Kernel
