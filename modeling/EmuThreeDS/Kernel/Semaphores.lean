import EmuThreeDS.Kernel.Wakeups
import Mathlib.Algebra.Group.Int.Defs

/-!
# Semaphore counts

`semaphore.cpp` accepts counts from the guest as they are. As long as no negative number is
let in, every count stays between zero and its maximum, and a release wakes the best waiters.
-/
namespace EmuThreeDS

def IsS32 (x : Int) : Prop := -2 ^ 31 ≤ x ∧ x < 2 ^ 31

instance (x : Int) : Decidable (IsS32 x) := inferInstanceAs (Decidable (_ ∧ _))

structure Semaphore.Legal (semaphore : Semaphore) : Prop where
  nonneg : 0 ≤ semaphore.availableCount
  bounded : semaphore.availableCount ≤ semaphore.maxCount
  word : semaphore.maxCount < 2 ^ 31

namespace Kernel

variable {k k' : Kernel} {t u : ThreadId} {o : WaitObject} {s : Nat} {n : Int}
  {objects : List WaitObject}

def Action.Words : Action → Prop
  | .createSemaphore _ initialCount maxCount => IsS32 initialCount ∧ IsS32 maxCount
  | .releaseSemaphore _ releaseCount => IsS32 releaseCount
  | _ => True

/-- A thread that has acquired the object finds it unavailable. -/
def Spends (k : Kernel) : WaitObject → Prop
  | .event e => (k.event e).resetType = .oneShot
  | .timer i => (k.timer i).resetType = .oneShot
  | .serverSession r => (k.serverSession r).client = true
  | _ => False

/-- No waiter for all of its objects names one twice that it can acquire only once. -/
def Single (k : Kernel) (s : Nat) : Prop := ∀ t ∈ k.waitingThreads (.semaphore s),
  k.isSleepingOnWaitAll t = true → ∀ o, o = .semaphore s ∨ k.Spends o →
    (k.thread t).waitObjects.count o ≤ 1

/-- No count is negative when a semaphore is created or released, and its waiters are single. -/
def Action.Counted (k : Kernel) : Action → Prop
  | .createSemaphore _ initialCount _ => 0 ≤ initialCount
  | .releaseSemaphore s releaseCount =>
    0 ≤ (k.semaphore s).availableCount + releaseCount ∧ k.Single s
  | _ => True

theorem awaitReply_semaphore : (k.awaitReply s t).semaphore = k.semaphore := by
  unfold awaitReply
  dsimp only
  split_ifs <;> rfl

theorem Change.semaphore (h : Change k k') : k'.semaphore = k.semaphore ∨
    ∃ s, 0 < (k.semaphore s).availableCount ∧ k'.semaphore = Function.update k.semaphore s
      { k.semaphore s with availableCount := (k.semaphore s).availableCount - 1 } := by
  cases h with
  | calm calm => exact Or.inl calm.objects.semaphore
  | setPriority run => exact Or.inl (setPriority_only.ok run).objects.semaphore
  | park => exact Or.inl awaitReply_semaphore
  | @acquire o t _ _ run =>
    have taken := (acquire_takes.ok run).1
    cases o with
    | semaphore s =>
      dsimp only at taken
      split_ifs at taken with none
      · exact Or.inl taken
      · exact Or.inr ⟨s, Int.not_le.mp none, taken⟩
    | _ => exact Or.inl taken
  | unlock => exact Or.inl unlocked_objects.semaphore
  | kill => exact Or.inl killed_only.objects.semaphore
  | answer =>
    left
    unfold answered
    dsimp only
    split_ifs <;> rfl
  | reschedule run => exact Or.inl (reschedule_reschedules.ok run).only.objects.semaphore
  | _ => exact Or.inl rfl

def Legal (k : Kernel) : Prop := ∀ s, (k.semaphore s).Legal

theorem legal_update {new : Semaphore} (h : k.Legal) (own : new.Legal)
    (same : k'.semaphore = Function.update k.semaphore s new) : k'.Legal := by
  intro r
  rw [same, Function.update_apply]
  split_ifs
  · exact own
  · exact h r

theorem Change.legal (h : Change k k') (legal : k.Legal) : k'.Legal := by
  rcases h.semaphore with same | ⟨s, some, same⟩
  · intro s
    rw [same]
    exact legal s
  · obtain ⟨nonneg, bounded, word⟩ := legal s
    apply legal_update legal _ same
    exact ⟨by dsimp only; omega, by dsimp only; omega, word⟩

theorem opening_legal {a : Action} (h : k.Legal) (words : a.Words) (counted : a.Counted k) :
    (a.opening k).Legal := by
  cases a with
  | createSemaphore s initial max =>
    unfold Action.opening createSemaphore
    dsimp only
    split_ifs with less
    · exact h
    · have own : ({ maxCount := max, availableCount := initial } : Semaphore).Legal :=
        ⟨counted, Int.not_lt.mp less, words.2.2⟩
      exact legal_update h own rfl
  | releaseSemaphore s n =>
    obtain ⟨_, _, word⟩ := h s
    unfold Action.opening
    dsimp only
    split_ifs with less
    · exact h
    · apply legal_update h _ rfl
      exact ⟨counted.1, by dsimp only; omega, word⟩
  | closeClientSession s =>
    unfold Action.opening
    dsimp only
    split_ifs <;> exact h
  | _ => exact h

theorem Reachable.legal (h : Reachable (fun k a => a.Words ∧ a.Counted k) k) : k.Legal := by
  apply h.changes
  · exact fun _ _ => ⟨Int.le_refl 0, Int.le_refl 0, by show (0 : Int) < 2 ^ 31; decide⟩
  · exact fun k a legal fits _ => opening_legal legal fits.1 fits.2
  · intro k k' a t waits legal
    unfold Legal
    rw [waits.objects.semaphore]
    exact legal
  · intro k k' a creates legal
    cases creates with
    | call _ run =>
      unfold Legal
      rw [(createThread_only.ok run).objects.semaphore]
      exact legal
  · exact fun k k' => Change.legal

/-!
## Acquiring what is available
-/

theorem SameObjects.spends (h : SameObjects k k') : k'.Spends = k.Spends := by
  funext o
  cases o <;> simp only [Spends, h.event, h.timer, h.serverSession]

/-- Can be acquired: a semaphore always, though it may have no slot to give. -/
def Obtainable (k : Kernel) (t : ThreadId) (o : WaitObject) : Prop :=
  (∀ s, o ≠ .semaphore s) → k.shouldWait o t = false

/-- What an acquisition leaves for the ones after it. -/
structure Leaves (k : Kernel) (t : ThreadId) (o : WaitObject) (k' : Kernel) : Prop where
  spends : k'.Spends = k.Spends
  obtainable : ∀ x, x ≠ o ∨ ¬ k.Spends x → k.Obtainable t x → k'.Obtainable t x

theorem leaves_self : k.Leaves t o k := ⟨rfl, fun _ _ => id⟩

theorem leaves_of (spends : k'.Spends = k.Spends) (own : ¬ k.Spends o → k'.Obtainable t o)
    (others : ∀ x, x ≠ o → (∀ s, x ≠ .semaphore s) → k'.shouldWait x t = k.shouldWait x t) :
    k.Leaves t o k' := by
  refine ⟨spends, fun x other free => ?_⟩
  by_cases same : x = o
  · subst same
    exact own (other.resolve_left (not_not.mpr rfl))
  · intro real
    rw [others x same real]
    exact free real

theorem leaves_setMutex {m : MutexId} {f : Mutex → Mutex} (objects : SameObjects k k')
    (status : k'.statusOf = k.statusOf) (others : ∀ m', m' ≠ m → k'.mutex m' = k.mutex m')
    (held : (f (k'.mutex m)).holdingThread = some t) : k.Leaves t (.mutex m) (k'.setMutex m f) := by
  refine leaves_of objects.spends (fun _ _ => by simp [shouldWait, setMutex, held])
    fun x ne real => ?_
  cases x with
  | mutex m' =>
    have ne : m' ≠ m := fun same => ne (congrArg _ same)
    simp [shouldWait, setMutex, ne, others m' ne]
  | thread u =>
    have same : (k'.thread u).status = (k.thread u).status := congrFun status u
    simp [shouldWait, setMutex, same]
  | semaphore s => exact absurd rfl (real s)
  | event e => rw [shouldWait, shouldWait, setMutex, objects.event]
  | timer i => rw [shouldWait, shouldWait, setMutex, objects.timer]
  | serverPort p => rw [shouldWait, shouldWait, setMutex, objects.serverPort]
  | serverSession r => rw [shouldWait, shouldWait, setMutex, objects.serverSession]

theorem acquire_obtains (obtainable : k.Obtainable t o) :
    Meets (fun _ => True) (k.acquire o t) (k.Leaves t o) := by
  unfold acquire
  cases o with
  | event e | timer e =>
    apply meets_assert fun _ => by simpa using obtainable (by rintro _ ⟨⟩)
    intro _
    split_ifs with once
    · refine meets_ok (leaves_of (funext fun x => ?_) (absurd once) fun x ne _ => ?_)
      · cases x <;> simp only [Spends, setEvent, setTimer, Function.update_apply]
        split_ifs with same
        · rw [same]
        · rfl
      · cases x <;> simp_all [shouldWait, setEvent, setTimer]
    · exact meets_ok leaves_self
  | mutex m =>
    have ready := obtainable (by rintro _ ⟨⟩)
    apply meets_assert fun _ => by simpa using ready
    intro _
    split_ifs with unlocked
    · refine leaves_setMutex lockMutex_objects quiet_lockMutex.status ?_ ?_
      · exact fun m' ne => Function.update_of_ne ne _ _
      · exact congrArg Mutex.holdingThread (Function.update_self m _ k.mutex)
    · refine leaves_setMutex (.refl k) rfl (fun _ _ => rfl) ?_
      simpa [shouldWait, Nat.pos_of_ne_zero unlocked] using ready
  | semaphore s =>
    refine meets_ok ?_
    split_ifs
    · exact leaves_self
    · refine leaves_of (funext fun x => by cases x <;> rfl) (fun _ real => absurd rfl (real s))
        fun x _ real => ?_
      cases x with
      | semaphore s => exact absurd rfl (real s)
      | _ => rfl
  | serverSession r =>
    have ready := obtainable (by rintro _ ⟨⟩)
    apply meets_assert fun _ => by simpa using ready
    intro _
    apply meets_ite
    · exact fun _ => meets_ok leaves_self
    · intro opened
      have opened : (k.serverSession r).client = true := by simpa using opened
      apply meets_assert fun _ => by
        rintro none
        simp [shouldWait, opened, none] at ready
      intro _
      refine meets_ok (leaves_of (funext fun x => ?_) (absurd opened) fun x ne _ => ?_)
      · cases x <;> simp only [Spends, setSession, Function.update_apply]
        split_ifs with same
        · rw [same]
        · rfl
      · cases x <;> simp_all [shouldWait, setSession]
  | thread u | serverPort p =>
    apply meets_assert fun _ => by simpa using obtainable (by rintro _ ⟨⟩)
    exact fun _ => meets_ok leaves_self

theorem acquire_count : Returns (k.acquire o t) fun k' =>
    (k'.semaphore s).availableCount = (k.semaphore s).availableCount -
      if o = .semaphore s ∧ 0 < (k.semaphore s).availableCount then 1 else 0 := by
  apply acquire_takes.mono
  rintro k' ⟨taken, _⟩
  cases o with
  | semaphore r =>
    dsimp only at taken
    by_cases same : r = s
    · subst same
      split_ifs at taken with none
      · rw [taken]
        omega
      · rw [taken, Function.update_self, if_pos ⟨rfl, Int.not_le.mp none⟩]
    · rw [if_neg fun eq => same (WaitObject.semaphore.inj eq.1), Int.sub_zero]
      split_ifs at taken
      · rw [taken]
      · rw [taken, Function.update_of_ne (Ne.symm same)]
  | _ =>
    rw [if_neg fun eq => WaitObject.noConfusion eq.1, Int.sub_zero]
    exact congrArg (fun semaphore => (semaphore s).availableCount) taken

theorem acquireAll_count {objects : List WaitObject}
    (enough : objects.count (.semaphore s) ≤ (k.semaphore s).availableCount) :
    Returns (k.acquireAll t objects) fun k' => (k'.semaphore s).availableCount =
      (k.semaphore s).availableCount - objects.count (.semaphore s) := by
  induction objects generalizing k with
  | nil => exact meets_ok (Int.sub_zero _).symm
  | cons o rest ih =>
    apply meets_bind (acquire_count (s := s))
    intro k₁ taken
    by_cases same : o = .semaphore s
    · subst same
      rw [List.count_cons_self] at enough ⊢
      rw [if_pos ⟨rfl, by omega⟩] at taken
      apply (ih (by omega)).mono
      omega
    · rw [if_neg fun eq => same eq.1, Int.sub_zero] at taken
      rw [List.count_cons_of_ne same] at enough ⊢
      apply (ih (by rw [taken]; exact enough)).mono
      intro k₂ later
      rw [later, taken]

theorem BestOf.slot {threads : List ThreadId} (h : k.BestOf (.semaphore s) threads t) :
    0 < (k.semaphore s).availableCount := by
  have ready := h.ready
  simp only [readyToRun, shouldWait, Bool.and_eq_true] at ready
  simpa using ready.1

theorem acquireAll_spends (free : ∀ o ∈ objects, k.Obtainable t o)
    (once : ∀ o, k.Spends o → objects.count o ≤ 1) :
    Meets (fun _ => True) (k.acquireAll t objects) fun k' => k'.Spends = k.Spends := by
  induction objects generalizing k with
  | nil => exact meets_ok rfl
  | cons o rest ih =>
    apply meets_bind (acquire_obtains (free o List.mem_cons_self))
    intro k₁ left
    refine (ih (fun x mem => left.obtainable x ?_ (free x (List.mem_cons_of_mem o mem)))
      fun x spent => ?_).mono fun k₂ same => same.trans left.spends
    · by_cases same : x = o
      · subst same
        refine Or.inr fun spent => ?_
        have once := once x spent
        rw [List.count_cons_self] at once
        have pos := List.count_pos_iff.mpr mem
        omega
      · exact Or.inl same
    · rw [left.spends] at spent
      exact List.count_le_count_cons.trans (once x spent)

theorem acquireFor_spends (single : k.Single s) (best : k.Best (.semaphore s) t) :
    Meets (fun _ => True) (k.acquireFor (.semaphore s) t) fun k' => k'.Spends = k.Spends := by
  unfold acquireFor
  split_ifs with all
  · apply acquireAll_spends
    · intro o mem _
      have ready := best.ready
      simp only [isSleepingOnWaitAll, decide_eq_true_eq] at all
      simp only [readyToRun, all, ne_eq, not_true_eq_false, decide_false, Bool.false_or,
        Bool.and_eq_true, List.all_eq_true] at ready
      simpa using ready.2 o mem
    · exact fun o spent => single t best.mem all o (Or.inr spent)
  · exact (acquire_obtains fun real => absurd rfl (real s)).mono fun _ left => left.spends

theorem getWaitObjectIndex_returns {object : Option WaitObject}
    (some : (k.thread t).waitObjects ≠ []) :
    Meets (fun _ => True) (k.getWaitObjectIndex t object >>= fun index =>
      pure (k.setWaitSynchronizationOutput t index)) fun _ => True := by
  unfold getWaitObjectIndex
  rw [assert_pos some]
  trivial

/-- The callback of a wait ends well when a semaphore wakes its thread. -/
theorem invokeCallback_returns (called : k.Called) (waits : WaitStatus (k.statusOf t))
    (named : (k.thread t).waitObjects ≠ []) :
    Meets (fun _ => True) (k.invokeCallback .signal t (some (.semaphore s))) fun _ => True := by
  have kept : ((k.setWaitSynchronizationResult t (.ok ())).thread t).waitObjects ≠ [] := by
    unfold setWaitSynchronizationResult
    rw [thread_setThread, if_pos rfl]
    exact named
  have sync : ∀ doOutput, Meets (fun _ => True)
      (k.wakeUp .signal t (some (.semaphore s)) (.svcSync doOutput)) fun _ => True :=
    fun doOutput => meets_ite (fun _ => getWaitObjectIndex_returns kept) fun _ => trivial
  have suits := called t
  unfold Suited at suits
  unfold invokeCallback
  split
  · trivial
  · next callback own =>
      rw [own] at suits
      rcases waits with any | all | hle
      · rw [show (k.thread t).status = _ from any] at suits
        rcases suits callback rfl with rfl | ⟨doOutput, rfl⟩
        · apply meets_assert fun _ => any
          intro _
          apply meets_assert fun _ => rfl
          exact fun _ => getWaitObjectIndex_returns kept
        · exact sync doOutput
      · rw [show (k.thread t).status = _ from all] at suits
        obtain ⟨doOutput, rfl⟩ := suits callback rfl
        exact sync doOutput
      · rw [show (k.thread t).status = _ from hle] at suits
        cases suits callback rfl
        apply meets_assert fun _ => hle
        exact fun _ => trivial

theorem resumeFromWait_returns (waits : WaitStatus (k.statusOf t)) :
    ((k.clearWaitObjects t).resumeFromWait t) = .ok ((k.clearWaitObjects t).makeReady t) := by
  have status : ((k.clearWaitObjects t).thread t).status = (k.thread t).status :=
    congrFun (rewires_clearWaitObjects k t).status t
  unfold resumeFromWait
  rw [assert_pos (waitObjects_clearWaitObjects k t), status]
  rcases waits with eq | eq | eq <;> rw [show (k.thread t).status = _ from eq] <;> rfl

theorem wakeThread_count (settled : k.Settled) (single : k.Single s)
    (best : k.Best (.semaphore s) t) : Returns (k.wakeThread (.semaphore s) t) fun k' =>
      (k'.semaphore s).availableCount = (k.semaphore s).availableCount - 1 := by
  have some := best.slot
  have acquired : Returns (k.acquireFor (.semaphore s) t) fun k' =>
      (k'.semaphore s).availableCount = (k.semaphore s).availableCount - 1 := by
    unfold acquireFor
    split_ifs with all
    · have named := List.count_pos_iff.mpr (settled.mem_waiting.mp best.mem)
      have once := single t best.mem all _ (Or.inl rfl)
      have one : (k.thread t).waitObjects.count (.semaphore s) = 1 := by omega
      apply (acquireAll_count (by rw [one]; omega)).mono
      intro k' taken
      rw [taken, one]
      rfl
    · apply acquire_count.mono
      intro k' taken
      rw [taken, if_pos ⟨rfl, some⟩]
  have waits : WaitStatus (k.statusOf t) := settled.status best.mem id
  apply meets_of_ok
  intro k₂ run
  obtain ⟨k₁, first, second⟩ := bind_eq_ok.mp run
  have free := (acquireFor_rouses waits.alive).ok first |>.resumable t waits.resumable
  have calms := (wakeup_calms free).ok second
  rw [calms.objects.semaphore]
  exact acquired.ok first

theorem wakeThread_rest (settled : k.Settled) (best : k.Best o t) :
    Returns (k.wakeThread o t) fun k' => k'.Settled ∧
      k'.waitingThreads o = (k.waitingThreads o).filter (· ≠ t) ∧
      ∀ u ∈ k'.waitingThreads o, (k'.thread u).waitObjects = (k.thread u).waitObjects ∧
        k'.statusOf u = k.statusOf u := by
  apply meets_of_ok
  intro k' run
  obtain ⟨settled', graph⟩ := (wakeThread_meets settled best.mem id).ok run
  have status := ((wakeThread_rouses (settled.status best.mem id)).ok run).status
  have waiting : k'.waitingThreads o = (k.waitingThreads o).filter (· ≠ t) := by
    refine (congrFun (congrArg WaitGraph.waiters graph) o).trans ?_
    exact settled.agree.waiters_leave
  refine ⟨settled', waiting, fun u still => ⟨?_, ?_⟩⟩
  · have other : u ≠ t := by
      rw [waiting] at still
      simpa using List.of_mem_filter still
    refine (congrFun (congrArg WaitGraph.objects graph) u).trans ?_
    exact WaitGraph.objects_leave other
  · rcases status u with same | ⟨_, ready⟩
    · exact same
    · have waits := settled'.status still id
      rw [ready] at waits
      rcases waits with eq | eq | eq <;> cases eq

/-- What the wakeups of a release need, before each round. -/
structure Wakeable (k : Kernel) (s : Nat) : Prop where
  settled : k.Settled
  low : k.Low
  called : k.Called
  single : k.Single s

/-- A round returns. -/
theorem Wakeable.wake (h : k.Wakeable s) (best : k.Best (.semaphore s) t) :
    ∃ k', k.wakeThread (.semaphore s) t = .ok k' ∧ k'.Wakeable s := by
  have waits : WaitStatus (k.statusOf t) := h.settled.status best.mem id
  obtain ⟨k₁, acquired, spends⟩ := (acquireFor_spends h.single best).returns
  have quiet := acquireFor_quiet.ok acquired
  have roused := (acquireFor_rouses waits.alive).ok acquired
  have named : (k₁.thread t).waitObjects ≠ [] := by
    rw [objects_of_graph quiet.graph]
    exact List.ne_nil_of_mem (h.settled.mem_waiting.mp best.mem)
  rw [← quiet.status] at waits
  obtain ⟨k₂, invoked, _⟩ :=
    (@invokeCallback_returns k₁ t s (roused.changes.called h.called) waits named).returns
  have calms := (@invokeCallback_calms k₁ t (some (.semaphore s)) .signal nofun).ok invoked
  have run : k.wakeThread (.semaphore s) t = .ok ((k₂.clearWaitObjects t).makeReady t) := by
    unfold wakeThread
    rw [acquired, ok_bind, invoked, ok_bind]
    apply resumeFromWait_returns
    rw [((invokeCallback_quiet (h.settled.quiet quiet)).ok invoked).status]
    exact waits
  rw [quiet.status] at waits
  obtain ⟨settled, waiting, rest⟩ := (wakeThread_rest h.settled best).ok run
  have changes := ((wakeThread_rouses waits).ok run).changes
  refine ⟨_, run, settled, changes.low h.low, changes.called h.called, ?_⟩
  intro u still all o own
  obtain ⟨objects, status⟩ := rest u still
  have spends' : ((k₂.clearWaitObjects t).makeReady t).Spends = k.Spends :=
    (Calms.objects (calms.trans clearWaitObjects_calms)).spends.trans spends
  rw [objects]
  rw [spends'] at own
  rw [waiting] at still
  apply h.single u (List.mem_of_mem_filter still) _ o own
  unfold isSleepingOnWaitAll at all ⊢
  rw [← show _ = (k.thread u).status from status]
  exact all

theorem wakeLoop_returns {fuel : Nat} (h : k.Wakeable s)
    (enough : (k.waitingThreads (.semaphore s)).length < fuel) :
    ∃ k', wakeLoop (.semaphore s) fuel k = .ok k' := by
  induction fuel generalizing k with
  | zero => exact absurd enough (Nat.not_lt_zero _)
  | succ fuel ih =>
    have picks : Meets (fun _ => True) (k.getHighestPriorityReadyThread (.semaphore s)) _ :=
      selectThread_meets fun t mem => h.settled.status mem id
    obtain ⟨found, picked, _⟩ := picks.returns
    unfold wakeLoop
    rw [picked]
    rcases (getHighestPriorityReadyThread_best h.low).ok picked with ⟨rfl, _⟩ | ⟨t, rfl, best⟩
    · exact ⟨k, rfl⟩
    · obtain ⟨k₁, woken, next⟩ := h.wake best
      obtain ⟨_, waiting, _⟩ := (wakeThread_rest h.settled best).ok woken
      have shorter := WaitGraph.length_others (h.settled.agree.nodup _) best.mem
      dsimp only [ok_bind]
      rw [woken, ok_bind]
      apply ih next
      rw [waiting]
      exact Nat.lt_of_succ_lt_succ (lt_of_eq_of_lt shorter enough)

theorem Wakes.count {woken : List ThreadId} (h : Wakes (.semaphore s) k woken k')
    (wakeable : k.Wakeable s) :
    (k'.semaphore s).availableCount = (k.semaphore s).availableCount - woken.length ∧
      (0 ≤ (k.semaphore s).availableCount → 0 ≤ (k'.semaphore s).availableCount) := by
  induction h with
  | done _ => exact ⟨(Int.sub_zero _).symm, id⟩
  | @wake k k₁ _ t _ best run _ ih =>
    have taken := (wakeThread_count wakeable.settled wakeable.single best).ok run
    obtain ⟨_, run', next⟩ := wakeable.wake best
    cases run.symm.trans run'
    obtain ⟨count, nonneg⟩ := ih next
    have some := best.slot
    rw [List.length_cons]
    exact ⟨by omega, fun _ => nonneg (by omega)⟩

theorem Wakes.last {woken : List ThreadId} (h : Wakes o k woken k') : k'.Quieted o := by
  induction h with
  | done none => exact none
  | wake _ _ _ ih => exact ih

theorem Quieted.lacking (h : k.Quieted (.semaphore s)) (some : 0 < (k.semaphore s).availableCount)
    (waits : t ∈ k.waitingThreads (.semaphore s)) :
    k.isSleepingOnWaitAll t = true ∧ ∃ o ∈ (k.thread t).waitObjects, k.shouldWait o t = true := by
  have unready := h t waits
  simpa [readyToRun, shouldWait, isSleepingOnWaitAll, some] using unready

theorem Wakes.all_served {woken : List ThreadId} (h : Wakes (.semaphore s) k woken k')
    (wakeable : k.Wakeable s)
    (alone : ∀ t ∈ k.waitingThreads (.semaphore s), k.isSleepingOnWaitAll t = false)
    (nonneg : 0 ≤ (k.semaphore s).availableCount) : (woken.length : Int) =
      min (k.semaphore s).availableCount (k.waitingThreads (.semaphore s)).length := by
  induction h with
  | @done k none =>
    by_cases some : 0 < (k.semaphore s).availableCount
    · have empty : k.waitingThreads (.semaphore s) = [] := by
        apply List.eq_nil_iff_forall_not_mem.mpr
        intro t waits
        have all := (none.lacking some waits).1
        rw [alone t waits] at all
        cases all
      rw [empty]
      exact (Int.min_eq_right nonneg).symm
    · have out : (k.semaphore s).availableCount = 0 := by omega
      rw [out]
      exact (Int.min_eq_left (Int.natCast_nonneg _)).symm
  | @wake k k₁ _ t woken best run _ ih =>
    obtain ⟨_, run', next⟩ := wakeable.wake best
    cases run.symm.trans run'
    obtain ⟨_, waiting, rest⟩ := (wakeThread_rest wakeable.settled best).ok run
    have taken := (wakeThread_count wakeable.settled wakeable.single best).ok run
    have some := best.slot
    have shorter := WaitGraph.length_others (wakeable.settled.agree.nodup _) best.mem
    have fewer : (k₁.waitingThreads (.semaphore s)).length + 1 =
        (k.waitingThreads (.semaphore s)).length := by
      rw [waiting]
      exact shorter
    have served := ih next (by
      intro u still
      obtain ⟨_, status⟩ := rest u still
      unfold isSleepingOnWaitAll
      rw [show (k₁.thread u).status = (k.thread u).status from status]
      apply alone u
      rw [waiting] at still
      exact List.mem_of_mem_filter still) (by omega)
    rw [List.length_cons]
    omega

/-- The count is raised before the wakeups. -/
abbrev raise (k : Kernel) (s : Nat) (n : Int) : Kernel :=
  k.setSemaphore s fun semaphore =>
    { semaphore with availableCount := semaphore.availableCount + n }

/-- An accepted release: each round wakes the best waiter for one slot, until there is no slot
or no waiter that could run. -/
structure Released (k : Kernel) (s : Nat) (n : Int) (woken : List ThreadId) (k' : Kernel) :
    Prop where
  wakes : Wakes (.semaphore s) (k.raise s n) woken k'
  count : (k'.semaphore s).availableCount = (k.semaphore s).availableCount + n - woken.length
  served : woken.length = (k.semaphore s).availableCount + n ∨
    ∀ t ∈ k'.waitingThreads (.semaphore s),
      k'.isSleepingOnWaitAll t = true ∧ ∃ o ∈ (k'.thread t).waitObjects, k'.shouldWait o t = true
  all : (∀ t ∈ k.waitingThreads (.semaphore s), k.isSleepingOnWaitAll t = false) →
    (woken.length : Int) = min ((k.semaphore s).availableCount + n)
      (k.waitingThreads (.semaphore s)).length

structure Releases (k : Kernel) (s : Nat) (n : Int) : Prop where
  difference : IsS32 ((k.semaphore s).maxCount - (k.semaphore s).availableCount)
  rejects : (k.semaphore s).maxCount - (k.semaphore s).availableCount < n →
    k.releaseSemaphore s n = .ok (.error .outOfRangeKernel, k)
  sum : n ≤ (k.semaphore s).maxCount - (k.semaphore s).availableCount →
    (Action.releaseSemaphore s n).Counted k → IsS32 ((k.semaphore s).availableCount + n)
  accepts : n ≤ (k.semaphore s).maxCount - (k.semaphore s).availableCount →
    (Action.releaseSemaphore s n).Counted k →
    ∃ woken k', k.releaseSemaphore s n = .ok (.ok (k.semaphore s).availableCount, k') ∧
      Released k s n woken k'

theorem released (wakeable : k.Wakeable s) (counted : (Action.releaseSemaphore s n).Counted k) :
    ∃ woken k', wakeLoop (.semaphore s) ((k.waitingThreads (.semaphore s)).length + 1)
      (k.raise s n) = .ok k' ∧ Released k s n woken k' := by
  have wakeable' : (k.raise s n).Wakeable s := by
    refine ⟨wakeable.settled.quiet ⟨rfl, rfl, fun _ _ => id, id⟩, wakeable.low, wakeable.called, ?_⟩
    intro t waits all o own
    exact wakeable.single t waits all o (own.imp_right fun spends => by cases o <;> exact spends)
  obtain ⟨k', run⟩ := wakeLoop_returns wakeable' (Nat.lt_succ_self _)
  obtain ⟨woken, wakes⟩ := (wakeLoop_wakes wakeable'.low).ok run
  have added : ((k.raise s n).semaphore s).availableCount =
        (k.semaphore s).availableCount + n := by
    simp [setSemaphore]
  obtain ⟨count, nonneg⟩ := wakes.count wakeable'
  rw [added] at count nonneg
  refine ⟨woken, k', run, wakes, count, ?_, fun alone => ?_⟩
  · by_cases some : 0 < (k'.semaphore s).availableCount
    · exact Or.inr fun t => wakes.last.lacking some
    · have left := nonneg counted.1
      exact Or.inl (by omega)
  · have served := wakes.all_served wakeable' alone (by rw [added]; exact counted.1)
    rw [added] at served
    exact served

/-- The counts stay between zero and their maximum, and releases return and add up, while no count
is negative and no waiter for all of its objects names one twice that it can acquire only once. -/
theorem semaphores_counted (h : Reachable (fun k a => a.Words ∧ a.Counted k) k) (s : Nat) :
    (k.semaphore s).Legal ∧ ∀ n, IsS32 n → k.Releases s n := by
  obtain ⟨nonneg, bounded, word⟩ := h.legal s
  refine ⟨h.legal s, fun n ⟨_, _⟩ => ⟨⟨by omega, by omega⟩, ?_, ?_, ?_⟩⟩
  · exact fun less => if_pos less
  · intro fits counted
    exact ⟨by omega, by omega⟩
  · intro fits counted
    obtain ⟨woken, k', looped, released⟩ :=
      released ⟨h.settled, h.low, h.called, counted.2⟩ counted
    refine ⟨woken, k', ?_, released⟩
    have woke : (k.raise s n).wakeupAllWaitingThreads
          (.semaphore s) = .ok k' := bind_eq_ok.mpr ⟨k', looped, rfl⟩
    unfold releaseSemaphore
    rw [if_neg (Int.not_lt.mpr fits)]
    dsimp only
    rw [woke]
    rfl

theorem boot_unused (numCores : Nat) : (boot numCores).Unused (.semaphore s) :=
  ⟨fun _ => List.not_mem_nil, nofun, nofun, nofun⟩

/-- A thread waits for a semaphore without slots. -/
def slotAwaited : Kernel :=
  Action.after (Action.after (Action.after (Action.after (boot 4) (.createSemaphore 0 0 2))
    (.createThread 0 48 0 true true)) (.reschedule 0))
    (.waitSynchronization1 0 (some (.semaphore 0)) (-1))

theorem slotAwaited_run : Reachable (fun k a => a.Words ∧ a.Counted k) slotAwaited := by
  have words : (Action.createSemaphore 0 0 2).Words :=
    ⟨show IsS32 0 by decide, show IsS32 2 by decide⟩
  have made : Reachable (fun k a => a.Words ∧ a.Counted k) _ :=
    (Runs.Reachable.start ⟨4, rfl⟩).step (a := Action.createSemaphore 0 0 2)
      ⟨words, Int.le_refl 0⟩ ⟨boot_unused 4, rfl⟩
  have created := made.step (a := Action.createThread 0 48 0 true true) ⟨trivial, trivial⟩
    ⟨⟨rfl, fun _ => List.not_mem_nil⟩, rfl⟩
  have runs := created.step (a := Action.reschedule 0) ⟨trivial, trivial⟩ ⟨trivial, rfl⟩
  exact runs.step (a := Action.waitSynchronization1 0 (some (.semaphore 0)) (-1))
    ⟨trivial, trivial⟩ ⟨⟨rfl, 0, rfl⟩, rfl⟩

theorem semaphores_counted_awaited : ∃ (woken : List ThreadId) (k' : Kernel),
    slotAwaited.releaseSemaphore 0 1 = .ok (.ok 0, k') ∧ woken.length = 1 ∧
      (k'.semaphore 0).availableCount = 0 := by
  have alone : ∀ t ∈ slotAwaited.waitingThreads (.semaphore 0),
      slotAwaited.isSleepingOnWaitAll t = false := by decide
  have counted : (Action.releaseSemaphore 0 1).Counted slotAwaited := by
    refine ⟨by decide, fun t waits all => ?_⟩
    rw [alone t waits] at all
    cases all
  obtain ⟨woken, k', run, released⟩ :=
    ((semaphores_counted slotAwaited_run 0).2 1 (by decide)).accepts (by decide) counted
  have one : (woken.length : Int) = 1 := released.all alone
  refine ⟨woken, k', run, by omega, ?_⟩
  rw [released.count, one]
  rfl

/-- A semaphore is created with a negative count. -/
theorem semaphores_counted_fails : ¬ ∀ k, Reachable (fun _ a => a.Words) k → ∀ s,
    0 ≤ (k.semaphore s).availableCount := by
  intro all
  have words : (Action.createSemaphore 0 (-1) 0).Words := by
    exact ⟨show IsS32 (-1) by decide, show IsS32 0 by decide⟩
  have made : Reachable (fun _ a => a.Words) (Action.after (boot 4) (.createSemaphore 0 (-1) 0)) :=
    (Runs.Reachable.start ⟨4, rfl⟩).step (a := Action.createSemaphore 0 (-1) 0) words
      ⟨boot_unused 4, rfl⟩
  exact absurd (all _ made 0) (by decide)

end Kernel

end EmuThreeDS
