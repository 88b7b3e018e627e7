import EmuThreeDS.Kernel.ArbiterLists
import Mathlib.Data.List.Nodup

/-!
# Signals to an address

`ResumeAllThreads` and `ResumeHighestPriorityThread` move the threads of one address to the end
of the list, and take the ones they wake from there.
-/
namespace EmuThreeDS.Kernel

variable {k k' k'' : Kernel} {t u : ThreadId} {a b address : Nat} {woken : List ThreadId}

def makeAllReady (k : Kernel) : List ThreadId → Kernel
  | [] => k
  | t :: rest => (k.makeReady t).makeAllReady rest

theorem makeReady_setArbiter (f : List ThreadId → List ThreadId) :
    (k.setArbiter a f).makeReady t = (k.makeReady t).setArbiter a f := rfl

theorem makeAllReady_setArbiter (f : List ThreadId → List ThreadId) :
    (k.setArbiter a f).makeAllReady woken = (k.makeAllReady woken).setArbiter a f := by
  induction woken generalizing k with
  | nil => rfl
  | cons t rest ih =>
    unfold makeAllReady
    rw [makeReady_setArbiter]
    exact ih

theorem setArbiter_setArbiter (f g : List ThreadId → List ThreadId) :
    (k.setArbiter a f).setArbiter a g = k.setArbiter a fun waiting => g (f waiting) := by
  unfold setArbiter
  dsimp only
  rw [Function.update_idem, Function.update_self]

theorem thread_makeReady (other : u ≠ t) : (k.makeReady t).thread u = k.thread u :=
  Function.update_of_ne other _ _

theorem released_calms (enlisted : k.Enlisted) (inside : ∀ t ∈ woken, t ∈ k.arbiter a)
    (waits : ∀ t ∈ woken, (k.thread t).status = .waitArb) (distinct : woken.Nodup) :
    Calms k ((k.makeAllReady woken).setArbiter a fun waiting => waiting.diff woken) := by
  induction woken generalizing k with
  | nil =>
    have same : (k.setArbiter a fun waiting => waiting.diff []) = k := by
      unfold setArbiter
      dsimp only
      rw [List.diff_nil, Function.update_eq_self]
    unfold makeAllReady
    rw [same]
  | cons t rest ih =>
    obtain ⟨absent, distinct⟩ := List.nodup_cons.mp distinct
    have first : Calm k ((k.setArbiter a fun waiting => waiting.erase t).makeReady t) :=
      .release (inside t List.mem_cons_self) (waits t List.mem_cons_self)
    have other : ∀ u ∈ rest, u ≠ t := fun u later same => absent (same ▸ later)
    have later := ih (first.enlisted enlisted).2 ?_ ?_ distinct
    · rw [makeReady_setArbiter, makeAllReady_setArbiter, setArbiter_setArbiter] at later
      have both : (fun waiting : List ThreadId => waiting.diff (t :: rest)) =
          fun waiting => (waiting.erase t).diff rest := funext fun _ => List.diff_cons ..
      rw [both]
      exact first.one.trans later
    · intro u member
      have listed := inside u (List.mem_cons_of_mem t member)
      have own : ((k.setArbiter a fun waiting => waiting.erase t).makeReady t).arbiter a =
          (k.arbiter a).erase t := Function.update_self a _ k.arbiter
      rw [own]
      exact (List.mem_erase_of_ne (other u member)).mpr listed
    · intro u member
      rw [thread_makeReady (other u member)]
      exact waits u (List.mem_cons_of_mem t member)

theorem resumeFromWait_arbitrated (waits : (k.thread t).status = .waitArb)
    (idle : (k.thread t).waitObjects = []) : k.resumeFromWait t = .ok (k.makeReady t) := by
  unfold resumeFromWait
  rw [assert_pos idle, waits]
  rfl

theorem resumeAll_arbitrated (waits : ∀ t ∈ woken, (k.thread t).status = .waitArb)
    (idle : ∀ t ∈ woken, (k.thread t).waitObjects = []) (distinct : woken.Nodup) :
    k.resumeAll woken = .ok (k.makeAllReady woken) := by
  induction woken generalizing k with
  | nil => rfl
  | cons t rest ih =>
    obtain ⟨absent, distinct⟩ := List.nodup_cons.mp distinct
    have other : ∀ u ∈ rest, u ≠ t := fun u later same => absent (same ▸ later)
    unfold resumeAll
    rw [resumeFromWait_arbitrated (waits t List.mem_cons_self) (idle t List.mem_cons_self)]
    refine ih ?_ ?_ distinct
    · intro u member
      rw [thread_makeReady (other u member)]
      exact waits u (List.mem_cons_of_mem t member)
    · intro u member
      rw [thread_makeReady (other u member)]
      exact idle u (List.mem_cons_of_mem t member)

variable {threads waiting : List ThreadId} {since : ThreadId → Nat}

theorem partition_waiters (other : Nat) :
    ((threads.filter fun t => ¬ (k.thread t).waitAddress = address) ++
        threads.filter fun t => (k.thread t).waitAddress = address).filter
          (fun t => (k.thread t).waitAddress = other) =
      threads.filter fun t => (k.thread t).waitAddress = other := by
  rw [List.filter_append, List.filter_filter, List.filter_filter]
  by_cases same : other = address
  · subst same
    simp
  · have none : (threads.filter fun t => decide ((k.thread t).waitAddress = other) &&
        decide ((k.thread t).waitAddress = address)) = [] := by
      rw [List.filter_eq_nil_iff]
      intro t _
      simp only [Bool.and_eq_true, decide_eq_true_eq]
      rintro ⟨rfl, eq⟩
      exact same eq
    rw [none, List.append_nil]
    apply List.filter_congr
    intro t _
    by_cases own : (k.thread t).waitAddress = other
    · simp [own, same]
    · simp [own]

/-- The threads that a signal woke are ready and off the list, and nothing else differs. -/
structure Woke (k : Kernel) (a : Nat) (woken : List ThreadId) (k' : Kernel) : Prop where
  awake : ∀ t ∈ woken, k'.thread t = { k.thread t with wakeupCallback := none, status := .ready }
  others : ∀ t, t ∉ woken → k'.thread t = k.thread t
  waiters : ∀ address, k'.waitersAt a address = (k.waitersAt a address).filter (· ∉ woken)
  arbiter : ∀ b, b ≠ a → k'.arbiter b = k.arbiter b

theorem Woke.trans {later : List ThreadId} (first : Woke k a woken k')
    (second : Woke k' a later k'') : Woke k a (woken ++ later) k'' where
  awake := by
    intro t member
    by_cases again : t ∈ later
    · rw [second.awake t again]
      by_cases before : t ∈ woken
      · rw [first.awake t before]
      · rw [first.others t before]
    · rw [second.others t again]
      exact first.awake t ((List.mem_append.mp member).resolve_right again)
  others := by
    intro t absent
    rw [List.mem_append, not_or] at absent
    rw [second.others t absent.2, first.others t absent.1]
  waiters := by
    intro address
    rw [second.waiters, first.waiters, List.filter_filter]
    apply List.filter_congr
    intro t _
    simp only [List.mem_append, not_or, Bool.decide_and]
    rw [Bool.and_comm]
  arbiter := fun b other => (second.arbiter b other).trans (first.arbiter b other)

theorem Woke.waitAddress (h : Woke k a woken k') (t : ThreadId) :
    (k'.thread t).waitAddress = (k.thread t).waitAddress := by
  by_cases member : t ∈ woken
  · rw [h.awake t member]
  · rw [h.others t member]

theorem arbiter_makeAllReady : (k.makeAllReady woken).arbiter = k.arbiter := by
  induction woken generalizing k with
  | nil => rfl
  | cons t rest ih => exact ih

theorem thread_makeAllReady : (k.makeAllReady woken).thread u =
    if u ∈ woken then { k.thread u with wakeupCallback := none, status := .ready }
    else k.thread u := by
  induction woken generalizing k with
  | nil => rfl
  | cons t rest ih =>
    unfold makeAllReady
    rw [ih]
    by_cases same : u = t
    · have own : (k.makeReady t).thread t =
          { k.thread t with wakeupCallback := none, status := .ready } :=
        Function.update_self t _ k.thread
      rw [same]
      split_ifs <;> simp_all
    · rw [thread_makeReady same]
      simp [same]

theorem woke_makeAllReady
    (kept : ∀ address, (waiting.filter fun t => (k.thread t).waitAddress = address) =
      (k.waitersAt a address).filter (· ∉ woken)) :
    Woke k a woken ((k.makeAllReady woken).setArbiter a fun _ => waiting) where
  awake := fun t member => thread_makeAllReady.trans (if_pos member)
  others := fun t absent => thread_makeAllReady.trans (if_neg absent)
  waiters := by
    intro address
    have own : ((k.makeAllReady woken).setArbiter a fun _ => waiting).arbiter a = waiting :=
      Function.update_self a _ _
    have address' : ∀ t, (((k.makeAllReady woken).setArbiter a fun _ => waiting).thread
        t).waitAddress = (k.thread t).waitAddress := by
      intro t
      refine (congrArg Thread.waitAddress thread_makeAllReady).trans ?_
      split_ifs <;> rfl
    rw [← kept address]
    unfold waitersAt
    rw [own]
    simp only [address']
  arbiter := by
    intro b other
    refine (Function.update_of_ne other _ _).trans ?_
    rw [arbiter_makeAllReady]

theorem waitersAt_diff (enlisted : k.Enlisted) : ((k.arbiter a).diff woken).filter
    (fun t => (k.thread t).waitAddress = address) = (k.waitersAt a address).filter (· ∉ woken) := by
  unfold waitersAt
  rw [List.Nodup.sdiff_eq_filter (enlisted.nodup a), List.filter_filter, List.filter_filter]
  exact List.filter_congr fun t _ => Bool.and_comm ..

theorem calms_makeAllReady (enlisted : k.Enlisted) (inside : ∀ t ∈ woken, t ∈ k.arbiter a)
    (waits : ∀ t ∈ woken, (k.thread t).status = .waitArb) (distinct : woken.Nodup)
    (kept : ∀ address, (waiting.filter fun t => (k.thread t).waitAddress = address) =
      (k.waitersAt a address).filter (· ∉ woken)) :
    Calms k ((k.makeAllReady woken).setArbiter a fun _ => waiting) := by
  have left := released_calms enlisted inside waits distinct
  have woke : Woke k a woken ((k.makeAllReady woken).setArbiter a fun waiting =>
      waiting.diff woken) := by
    have same : ((k.makeAllReady woken).setArbiter a fun waiting => waiting.diff woken) =
        (k.makeAllReady woken).setArbiter a fun _ => (k.arbiter a).diff woken := by
      unfold setArbiter
      rw [arbiter_makeAllReady]
    rw [same]
    exact woke_makeAllReady fun address => waitersAt_diff enlisted
  have ordered := @Calm.reorder ((k.makeAllReady woken).setArbiter a fun waiting =>
    waiting.diff woken) a waiting ?_
  · rw [setArbiter_setArbiter] at ordered
    exact left.tail ordered
  · intro address
    rw [woke.waiters, ← kept]
    simp only [woke.waitAddress]

/-- What the assertion of a signal and the wakeups rely on. -/
structure AllArbitrated (k : Kernel) (a : Nat) : Prop where
  waits : ∀ t ∈ k.arbiter a, (k.thread t).status = .waitArb
  idle : ∀ t ∈ k.arbiter a, (k.thread t).waitObjects = []

theorem resumeAllThreads_woke (enlisted : k.Enlisted) (all : k.AllArbitrated a) :
    ∃ k', k.resumeAllThreads a address = .ok k' ∧ Woke k a (k.waitersAt a address) k' ∧
      Calms k k' := by
  have inside : ∀ t ∈ k.waitersAt a address, t ∈ k.arbiter a :=
    fun t member => List.mem_of_mem_filter member
  have run : k.resumeAll (k.waitersAt a address) = .ok (k.makeAllReady (k.waitersAt a address)) :=
    resumeAll_arbitrated (fun t member => all.waits t (inside t member))
      (fun t member => all.idle t (inside t member)) ((enlisted.nodup a).filter _)
  refine ⟨(k.makeAllReady (k.waitersAt a address)).setArbiter a fun _ =>
    (k.arbiter a).filter (not ∘ fun t => decide ((k.thread t).waitAddress = address)), ?_, ?_⟩
  · unfold resumeAllThreads
    rw [assert_pos all.waits, List.partition_eq_filter_filter]
    dsimp only
    unfold waitersAt at run
    rw [run]
    rfl
  · have kept : ∀ other, (((k.arbiter a).filter (not ∘ fun t =>
        decide ((k.thread t).waitAddress = address))).filter
          fun t => (k.thread t).waitAddress = other) =
        (k.waitersAt a other).filter (· ∉ k.waitersAt a address) := by
      intro other
      unfold waitersAt
      rw [List.filter_filter, List.filter_filter]
      apply List.filter_congr
      intro t listed
      simp [List.mem_filter, listed, Bool.and_comm]
    exact ⟨woke_makeAllReady kept, calms_makeAllReady enlisted inside
      (fun t member => all.waits t (inside t member)) ((enlisted.nodup a).filter _) kept⟩

theorem minThread_first (best : k.minThread threads = some t) :
    ∃ before after, threads = before ++ t :: after ∧
      (∀ u ∈ before, (k.thread t).currentPriority < (k.thread u).currentPriority) ∧
      ∀ u ∈ after, (k.thread t).currentPriority ≤ (k.thread u).currentPriority := by
  induction threads generalizing t with
  | nil => cases best
  | cons v rest ih =>
    unfold minThread at best
    split at best
    · next none =>
        cases best
        refine ⟨[], rest, rfl, nofun, ?_⟩
        cases rest with
        | nil => exact nofun
        | cons w rest =>
          unfold minThread at none
          split at none
          · cases none
          · split_ifs at none
    · next w found =>
        obtain ⟨before, after, rfl, worse, least⟩ := ih found
        split_ifs at best with better
        · cases best
          refine ⟨v :: before, after, rfl, ?_, least⟩
          rintro u member
          rcases List.mem_cons.mp member with rfl | earlier
          · exact better
          · exact worse u earlier
        · cases best
          refine ⟨[], before ++ w :: after, rfl, nofun, fun u member => ?_⟩
          have bound := not_lt.mp better
          rcases List.mem_append.mp member with earlier | later
          · exact bound.trans (worse u earlier).le
          · rcases List.mem_cons.mp later with rfl | later
            · exact bound
            · exact bound.trans (least u later)

theorem minThread_none (none : k.minThread threads = none) : threads = [] := by
  cases threads with
  | nil => rfl
  | cons t rest =>
    unfold minThread at none
    split at none
    · cases none
    · split_ifs at none

theorem resumeHighestPriorityThread_woke (enlisted : k.Enlisted) (all : k.AllArbitrated a) :
    ∃ k', k.resumeHighestPriorityThread a address = .ok k' ∧
      Woke k a (k.minThread (k.waitersAt a address)).toList k' ∧ Calms k k' := by
  unfold resumeHighestPriorityThread
  rw [assert_pos all.waits, List.partition_eq_filter_filter]
  dsimp only
  have found : (k.arbiter a).filter (fun t => decide ((k.thread t).waitAddress = address)) =
      k.waitersAt a address := rfl
  have others : (k.arbiter a).filter (not ∘ fun t => decide ((k.thread t).waitAddress = address)) =
      (k.arbiter a).filter fun t => ¬ (k.thread t).waitAddress = address := by
    apply List.filter_congr
    simp
  rw [found, others]
  cases best : k.minThread (k.waitersAt a address) with
  | none =>
    have kept : ∀ other, (((k.arbiter a).filter fun t => ¬ (k.thread t).waitAddress = address)
        |>.filter fun t => (k.thread t).waitAddress = other) =
        (k.waitersAt a other).filter (· ∉ ([] : List ThreadId)) := by
      intro other
      have kept := @partition_waiters k address (k.arbiter a) other
      rw [found, minThread_none best, List.append_nil] at kept
      rw [kept]
      exact (List.filter_eq_self.mpr fun _ _ => by simp).symm
    exact ⟨_, rfl, woke_makeAllReady kept,
      @calms_makeAllReady k a [] _ enlisted nofun nofun List.nodup_nil kept⟩
  | some t =>
    have member : t ∈ k.waitersAt a address := minThread_mem best
    obtain ⟨listed, own⟩ := List.mem_filter.mp member
    have run := resumeFromWait_arbitrated (all.waits t listed) (all.idle t listed)
    have erased : (k.waitersAt a address).erase t =
        ((k.arbiter a).erase t).filter fun t => (k.thread t).waitAddress = address := by
      unfold waitersAt
      rw [(enlisted.nodup a).erase_eq_filter,
        List.Nodup.erase_eq_filter (List.Nodup.filter _ (enlisted.nodup a))]
      rw [List.filter_filter, List.filter_filter]
      exact List.filter_congr fun u _ => Bool.and_comm ..
    have rest : (k.arbiter a).filter (fun t => ¬ (k.thread t).waitAddress = address) =
        ((k.arbiter a).erase t).filter fun t => ¬ (k.thread t).waitAddress = address := by
      rw [(enlisted.nodup a).erase_eq_filter, List.filter_filter]
      apply List.filter_congr
      intro u _
      by_cases same : u = t
      · subst same
        simpa using own
      · simp [same]
    have kept : ∀ other, (((k.arbiter a).filter fun t => ¬ (k.thread t).waitAddress = address) ++
        (k.waitersAt a address).erase t |>.filter fun t => (k.thread t).waitAddress = other) =
        (k.waitersAt a other).filter (· ∉ [t]) := by
      intro other
      rw [erased, rest, partition_waiters, (enlisted.nodup a).erase_eq_filter]
      unfold waitersAt
      rw [List.filter_filter, List.filter_filter]
      apply List.filter_congr
      intro u _
      rw [Bool.and_comm]
      simp [bne, beq_eq_decide]
    refine ⟨_, by dsimp only; rw [run]; rfl, @woke_makeAllReady k a [t] _ kept, ?_⟩
    refine @calms_makeAllReady k a [t] _ enlisted ?_ ?_ (List.pairwise_singleton _ t) kept
    · rintro u (_ | ⟨_, ⟨⟩⟩)
      exact listed
    · rintro u (_ | ⟨_, ⟨⟩⟩)
      exact all.waits t listed

theorem Woke.mem (h : Woke k a woken k') : t ∈ k'.arbiter a ↔ t ∈ k.arbiter a ∧ t ∉ woken := by
  have at_address : t ∈ k'.waitersAt a (k.thread t).waitAddress ↔ t ∈ k'.arbiter a := by
    unfold waitersAt
    rw [List.mem_filter, h.waitAddress]
    simp
  rw [← at_address, h.waiters]
  unfold waitersAt
  simp

theorem Woke.all (h : Woke k a woken k') (all : k.AllArbitrated a) : k'.AllArbitrated a where
  waits := by
    intro t listed
    obtain ⟨before, absent⟩ := h.mem.mp listed
    rw [h.others t absent]
    exact all.waits t before
  idle := by
    intro t listed
    obtain ⟨before, absent⟩ := h.mem.mp listed
    rw [h.others t absent]
    exact all.idle t before

def Precedes (k : Kernel) (since : ThreadId → Nat) (t u : ThreadId) : Prop :=
  (k.thread t).currentPriority < (k.thread u).currentPriority ∨
    (k.thread t).currentPriority = (k.thread u).currentPriority ∧ since t < since u

/-- As many as there are up to a bound, and each before all that are left. -/
structure Selected (k : Kernel) (since : ThreadId → Nat) (waiters : List ThreadId) (n : Nat)
    (woken : List ThreadId) : Prop where
  length : woken.length = min n waiters.length
  distinct : woken.Nodup
  subset : woken ⊆ waiters
  best : ∀ t ∈ woken, ∀ u ∈ waiters, u ∉ woken → k.Precedes since t u

theorem minThread_precedes (sorted : threads.Pairwise fun u v => since u < since v)
    (best : k.minThread threads = some t) (member : u ∈ threads) (other : u ≠ t) :
    k.Precedes since t u := by
  obtain ⟨before, after, rfl, worse, least⟩ := minThread_first best
  rcases List.mem_append.mp member with earlier | later
  · exact Or.inl (worse u earlier)
  · have later := (List.mem_cons.mp later).resolve_left other
    have longer : since t < since u :=
      (List.pairwise_cons.mp (List.pairwise_append.mp sorted).2.1).1 u later
    rcases Nat.lt_or_eq_of_le (least u later) with lower | equal
    · exact Or.inl lower
    · exact Or.inr ⟨equal, longer⟩

theorem Woke.precedes (h : Woke k a woken k') (precedes : k'.Precedes since t u) :
    k.Precedes since t u := by
  have priority : ∀ v, (k'.thread v).currentPriority = (k.thread v).currentPriority := by
    intro v
    by_cases member : v ∈ woken
    · rw [h.awake v member]
    · rw [h.others v member]
  unfold Precedes at precedes
  rw [priority, priority] at precedes
  exact precedes

theorem resumeFirst_woke {n : Nat} (enlisted : k.Enlisted) (all : k.AllArbitrated a) :
    ∃ woken k', resumeFirst a address n k = .ok k' ∧ Woke k a woken k' ∧ Calms k k' ∧
      ∀ since : ThreadId → Nat, (k.waitersAt a address).Pairwise (fun u v => since u < since v) →
        k.Selected since (k.waitersAt a address) n woken := by
  induction n generalizing k with
  | zero =>
    refine ⟨[], k, rfl, ⟨nofun, fun _ _ => rfl, fun _ => ?_, fun _ _ => rfl⟩, .refl, ?_⟩
    · exact (List.filter_eq_self.mpr fun _ _ => by simp).symm
    · exact fun since _ => ⟨(Nat.zero_min _).symm, List.nodup_nil, List.nil_subset _, nofun⟩
  | succ n ih =>
    obtain ⟨k₁, run, first, calms⟩ := @resumeHighestPriorityThread_woke k a address enlisted all
    obtain ⟨later, k₂, run₂, rest, calms₂, selected⟩ :=
      ih (calms.enlisted enlisted).2 (first.all all)
    unfold resumeFirst
    rw [run]
    refine ⟨_, k₂, run₂, first.trans rest, calms.trans calms₂, fun since sorted => ?_⟩
    have rest := selected since (by
      rw [first.waiters]
      exact sorted.filter _)
    rw [first.waiters] at rest
    cases best : k.minThread (k.waitersAt a address) with
    | none =>
      have nobody := minThread_none best
      have length := rest.length
      rw [nobody, List.filter_nil, List.length_nil, Nat.min_zero,
        List.length_eq_zero_iff] at length
      rw [nobody, length]
      exact ⟨rfl, List.nodup_nil, List.nil_subset _, nofun⟩
    | some t =>
      rw [best] at rest
      have member : t ∈ k.waitersAt a address := minThread_mem best
      have inside : ∀ u, u ∈ (k.waitersAt a address).filter (· ∉ [t]) ↔
          u ∈ k.waitersAt a address ∧ u ≠ t := by
        simp
      have fewer : ((k.waitersAt a address).filter (· ∉ [t])).length + 1 =
          (k.waitersAt a address).length := by
        have distinct : (k.waitersAt a address).Nodup := (enlisted.nodup a).filter _
        have erased : (k.waitersAt a address).filter (· ∉ [t]) =
            (k.waitersAt a address).erase t := by
          rw [distinct.erase_eq_filter]
          exact List.filter_congr fun u _ => by simp [bne, beq_eq_decide]
        rw [erased, List.length_erase_of_mem member]
        have := List.length_pos_of_mem member
        omega
      constructor
      · rw [Option.toList_some, List.length_append, List.length_singleton, rest.length,
          Option.toList_some]
        omega
      · refine List.nodup_cons.mpr ⟨fun again => ?_, rest.distinct⟩
        exact ((inside t).mp (rest.subset again)).2 rfl
      · rintro u (_ | ⟨_, later⟩)
        · exact member
        · exact ((inside u).mp (rest.subset later)).1
      · rintro w chosen u waits left
        have left : u ≠ t ∧ u ∉ later := by simpa using left
        rcases List.mem_cons.mp chosen with rfl | later
        · exact minThread_precedes sorted best waits left.1
        · exact first.precedes (rest.best w later u ((inside u).mpr ⟨waits, left.1⟩) left.2)

end EmuThreeDS.Kernel
