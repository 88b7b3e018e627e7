import EmuThreeDS.Kernel.NextThread
import EmuThreeDS.Kernel.Wakeups

/-!
# Ready threads and their queues

A thread is in the queue of its core just while it is ready, at its current priority. The
scheduler breaks this for the thread that it has popped, and restores it when it switches.
-/
namespace EmuThreeDS.Kernel

open ThreadQueueList

variable {k k' : Kernel} {core : Nat} {t u : ThreadId} {p : Nat} {out out' : Option ThreadId}

structure Edits (t : ThreadId) (place : Option Nat) (s s' : Levels ThreadId) : Prop where
  mem : ∀ p u, u ∈ s'.deques p ↔ if u = t then place = some p else u ∈ s.deques p
  distinct : ∀ p, (s.deques p).Nodup → (s'.deques p).Nodup
  prepared : s.prepared ⊆ s'.prepared

section

variable {s s' s'' : Levels ThreadId} {place place' : Option Nat}

theorem Edits.trans (first : Edits t place s s') (second : Edits t place' s' s'') :
    Edits t place' s s'' where
  mem := by
    intro p u
    rw [second.mem]
    split_ifs with same
    · rfl
    · rw [first.mem, if_neg same]
  distinct := fun p distinct => second.distinct p (first.distinct p distinct)
  prepared := first.prepared.trans second.prepared

theorem Edits.absent (h : Edits t none s s') (p : Nat) : t ∉ s'.deques p := by
  rw [h.mem, if_pos rfl]
  exact nofun

theorem edits_refl (absent : ∀ p, t ∉ s.deques p) : Edits t none s s where
  mem := by
    intro i u
    split_ifs with same
    · subst same
      exact iff_of_false (absent i) nofun
    · rfl
  distinct := fun _ => id
  prepared := Finset.Subset.refl _

theorem edits_prepare (absent : ∀ p, t ∉ s.deques p) :
    Edits t none s { s with prepared := insert p s.prepared } :=
  { edits_refl absent with prepared := Finset.subset_insert p s.prepared }

theorem edits_remove (only : ∀ i, t ∈ s.deques i → i = p) :
    Edits t none s { s with deques := s.deques.remove p t } where
  mem := by
    intro i u
    unfold Deques.remove
    dsimp only
    by_cases level : i = p
    · subst level
      by_cases same : u = t <;> simp [same]
    · rw [Function.update_of_ne level]
      split_ifs with same
      · subst same
        exact iff_of_false (fun member => level (only i member)) nofun
      · rfl
  distinct := by
    intro i distinct
    unfold Deques.remove
    dsimp only
    by_cases level : i = p
    · subst level
      rw [Function.update_self]
      exact distinct.filter _
    · rw [Function.update_of_ne level]
      exact distinct
  prepared := Finset.Subset.refl _

theorem edits_insert {threads : List ThreadId} (absent : ∀ i, t ∉ s.deques i)
    (inserted : threads.Perm (t :: s.deques p)) :
    Edits t (some p) s { s with deques := Function.update s.deques p threads } where
  mem := by
    intro i u
    dsimp only
    by_cases level : i = p
    · subst level
      rw [Function.update_self, inserted.mem_iff]
      split_ifs with same
      · simp [same]
      · simp [same]
    · rw [Function.update_of_ne level]
      split_ifs with same
      · subst same
        exact iff_of_false (absent i) fun eq => level (Option.some.inj eq).symm
      · rfl
  distinct := by
    intro i distinct
    dsimp only
    by_cases level : i = p
    · subst level
      rw [Function.update_self, inserted.nodup_iff]
      exact distinct.cons (absent i)
    · rw [Function.update_of_ne level]
      exact distinct
  prepared := Finset.Subset.refl _

theorem edits_pushBack (absent : ∀ i, t ∉ s.deques i) :
    Edits t (some p) s { s with deques := s.deques.pushBack p t } :=
  edits_insert absent (List.perm_append_singleton _ _)

theorem edits_pushFront (absent : ∀ i, t ∉ s.deques i) :
    Edits t (some p) s { s with deques := s.deques.pushFront p t } :=
  edits_insert absent (List.Perm.refl _)

end

def Places (x : Thread) (core p : Nat) : Prop :=
  x.status = .ready ∧ x.coreId = core ∧ x.currentPriority = p

def Live (status : ThreadStatus) : Prop := status ≠ .dormant ∧ status ≠ .dead

structure QueuedBut (k : Kernel) (s : Nat → Levels ThreadId) (out : Option ThreadId) : Prop where
  refines : ∀ core, Refines (k.manager core).readyQueue (s core)
  placed : ∀ core p t, t ∈ (s core).deques p ↔ Places (k.thread t) core p ∧ out ≠ some t
  distinct : ∀ core p, ((s core).deques p).Nodup
  prepared : ∀ t, Live (k.thread t).status →
    (k.thread t).currentPriority ∈ (s (k.thread t).coreId).prepared
  current : ∀ core t, (k.manager core).currentThread = some t →
    (k.thread t).coreId = core ∧ (k.thread t).status ≠ .dormant
  running : ∀ t, (k.thread t).status = .running →
    (k.manager (k.thread t).coreId).currentThread = some t

def Queued (k : Kernel) : Prop := ∃ s, k.QueuedBut s none

section

variable {s : Nat → Levels ThreadId} {s₁ : Levels ThreadId}

theorem QueuedBut.same (h : k.QueuedBut s out)
    (thread : ∀ u, (k'.thread u).status = (k.thread u).status ∧
      (k'.thread u).currentPriority = (k.thread u).currentPriority ∧
      (k'.thread u).coreId = (k.thread u).coreId)
    (manager : ∀ core, (k'.manager core).readyQueue = (k.manager core).readyQueue ∧
      (k'.manager core).currentThread = (k.manager core).currentThread) :
    k'.QueuedBut s out where
  refines := by
    intro core
    rw [(manager core).1]
    exact h.refines core
  placed := by
    intro core p t
    unfold Places
    rw [(thread t).1, (thread t).2.1, (thread t).2.2]
    exact h.placed core p t
  distinct := h.distinct
  prepared := by
    intro t
    rw [(thread t).1, (thread t).2.1, (thread t).2.2]
    exact h.prepared t
  current := by
    intro core t
    rw [(manager core).2, (thread t).1, (thread t).2.2]
    exact h.current core t
  running := by
    intro t
    rw [(manager _).2, (thread t).1, (thread t).2.2]
    exact h.running t

theorem manager_setQueue (k : Kernel) (core other : Nat) (f : KernelQueue → KernelQueue) :
    ((k.setQueue core f).manager other).readyQueue =
        (if other = core then f (k.manager core).readyQueue else (k.manager other).readyQueue) ∧
      ((k.setQueue core f).manager other).currentThread = (k.manager other).currentThread := by
  unfold setQueue setManager
  dsimp only
  rw [Function.update_apply]
  split_ifs with same
  · rw [same]
    exact ⟨rfl, rfl⟩
  · exact ⟨rfl, rfl⟩

variable {g f : Thread → Thread} {session a : Nat} {taken : Option ThreadId}

theorem QueuedBut.edit (h : k.QueuedBut s out) (out' : Option ThreadId) {f : KernelQueue → KernelQueue}
    {place : Option Nat}
    (refines : Refines (f (k.manager core).readyQueue) s₁) (edits : Edits t place (s core) s₁)
    (home : (g (k.thread t)).coreId = core)
    (was : (k.thread t).status ≠ .dormant → (k.thread t).coreId = core)
    (placed : ∀ p, place = some p ↔ Places (g (k.thread t)) core p ∧ out' ≠ some t)
    (others : ∀ u, u ≠ t → (out' = some u ↔ out = some u))
    (level : Live (g (k.thread t)).status → (g (k.thread t)).currentPriority ∈ s₁.prepared)
    (created : (k.thread t).status ≠ .dormant → (g (k.thread t)).status ≠ .dormant)
    (runs : (g (k.thread t)).status = .running → (k.manager core).currentThread = some t) :
    ((k.setQueue core f).setThread t g).QueuedBut (Function.update s core s₁) out' := by
  have thread : ∀ u, ((k.setQueue core f).setThread t g).thread u =
      if u = t then g (k.thread t) else k.thread u :=
    fun u => thread_setThread (k.setQueue core f) t u g
  have manager : ∀ c, ((k.setQueue core f).setThread t g).manager c =
      (k.setQueue core f).manager c := fun _ => rfl
  constructor
  · intro c
    rw [manager, (manager_setQueue k core c f).1, Function.update_apply]
    split_ifs
    · exact refines
    · exact h.refines c
  · intro c p u
    rw [thread, Function.update_apply]
    split_ifs with own same same
    · rw [edits.mem, if_pos same, placed, own, same]
    · rw [edits.mem, if_neg same, h.placed, own]
      exact and_congr_right fun _ => not_congr (others u same).symm
    · subst same
      apply iff_of_false
      · intro member
        obtain ⟨⟨ready, sits, _⟩, _⟩ := (h.placed c p u).mp member
        refine own (sits.symm.trans (was ?_))
        rw [ready]
        exact nofun
      · rintro ⟨⟨_, sits, _⟩, _⟩
        exact own (sits.symm.trans home)
    · rw [h.placed]
      exact and_congr_right fun _ => not_congr (others u same).symm
  · intro c p
    rw [Function.update_apply]
    split_ifs
    · exact edits.distinct p (h.distinct core p)
    · exact h.distinct c p
  · intro u
    rw [thread]
    split_ifs with same
    · intro alive
      rw [home, Function.update_self]
      exact level alive
    · intro alive
      have known := h.prepared u alive
      rw [Function.update_apply]
      split_ifs with own
      · rw [own] at known
        exact edits.prepared known
      · exact known
  · intro c u now
    rw [manager, (manager_setQueue k core c f).2] at now
    obtain ⟨sits, alive⟩ := h.current c u now
    rw [thread]
    split_ifs with same
    · subst same
      exact ⟨home.trans ((was alive).symm.trans sits), created alive⟩
    · exact ⟨sits, alive⟩
  · intro u
    rw [thread, manager, (manager_setQueue k core _ f).2]
    split_ifs with same
    · subst same
      rw [home]
      exact runs
    · exact h.running u

theorem setQueue_id (k : Kernel) (core : Nat) : (k.setQueue core fun queue => queue) = k := by
  unfold setQueue setManager
  rw [Function.update_eq_self]

theorem QueuedBut.restatus (h : k.QueuedBut s out) (was : (k.thread t).status ≠ .ready)
    (now : (g (k.thread t)).status ≠ .ready)
    (created : (k.thread t).status ≠ .dormant → (g (k.thread t)).status ≠ .dormant)
    (live : Live (g (k.thread t)).status → Live (k.thread t).status)
    (core : (g (k.thread t)).coreId = (k.thread t).coreId)
    (priority : (g (k.thread t)).currentPriority = (k.thread t).currentPriority)
    (runs : (g (k.thread t)).status = .running →
      (k.manager (k.thread t).coreId).currentThread = some t) :
    (k.setThread t g).QueuedBut s out := by
  have absent : ∀ p, t ∉ (s (k.thread t).coreId).deques p :=
    fun p member => was ((h.placed _ p t).mp member).1.1
  have edited := h.edit out (f := fun queue => queue) (g := g)
    (h.refines (k.thread t).coreId) (edits_refl absent) core (fun _ => rfl)
    (fun p => iff_of_false nofun fun fits => now fits.1.1) (fun _ _ => Iff.rfl)
    (fun alive => by rw [priority]; exact h.prepared t (live alive)) created runs
  rw [setQueue_id, Function.update_eq_self] at edited
  exact edited

theorem QueuedBut.absent (h : k.QueuedBut s out) (core : Nat)
    (was : (k.thread t).status ≠ .ready ∨ out = some t) (p : Nat) : t ∉ (s core).deques p := by
  intro member
  obtain ⟨⟨ready, _⟩, inside⟩ := (h.placed core p t).mp member
  rcases was with other | popped
  · exact other ready
  · exact inside popped

theorem QueuedBut.only (h : k.QueuedBut s out) {i : Nat} (member : t ∈ (s core).deques i) :
    i = (k.thread t).currentPriority :=
  ((h.placed core i t).mp member).1.2.2.symm

theorem QueuedBut.rerank (h : k.QueuedBut s none) (bound : p ≤ threadPrioLowest)
    (same : ∀ x, (g x).status = x.status ∧ (g x).coreId = x.coreId ∧
      (g x).currentPriority = p) : ((k.moveInQueue t p).setThread t g).Queued := by
  obtain ⟨status, core, level⟩ := same (k.thread t)
  have valid : p < threadPrioLowest + 1 := Nat.lt_succ_of_le bound
  have runs : (g (k.thread t)).status = .running →
      (k.manager (k.thread t).coreId).currentThread = some t := by
    rw [status]
    exact h.running t
  by_cases ready : (k.thread t).status = .ready
  · have removed := edits_remove (t := t) (s := s (k.thread t).coreId)
      (p := (k.thread t).currentPriority) fun _ => h.only
    have prepared := edits_prepare (p := p) removed.absent
    have pushed := edits_pushBack (p := p) prepared.absent
    have refines := (((h.refines (k.thread t).coreId).remove (x := t)
      (p := (k.thread t).currentPriority)).prepare valid).pushBack (x := t)
        (Finset.mem_insert_self p _)
    refine ⟨_, h.edit none ?_ ((removed.trans prepared).trans pushed) core
      (fun _ => rfl) ?_ (fun _ _ => Iff.rfl) ?_ (fun alive => by rwa [status]) runs⟩
    · rw [if_pos ready]
      exact refines
    · intro i
      unfold Places
      rw [status, core, level]
      constructor
      · rintro ⟨⟩
        exact ⟨⟨ready, rfl, rfl⟩, nofun⟩
      · rintro ⟨⟨_, _, rfl⟩, _⟩
        rfl
    · intro _
      rw [level]
      exact Finset.mem_insert_self p _
  · have prepared := edits_prepare (p := p) fun i =>
      h.absent (k.thread t).coreId (Or.inl ready) i
    refine ⟨_, h.edit none ?_ prepared core (fun _ => rfl) ?_ (fun _ _ => Iff.rfl) ?_
      (fun alive => by rwa [status]) runs⟩
    · rw [if_neg ready]
      exact (h.refines _).prepare valid
    · intro i
      refine iff_of_false nofun fun fits => ready ?_
      rw [← status]
      exact fits.1.1
    · intro _
      rw [level]
      exact Finset.mem_insert_self p _

theorem boostPriority_queued (h : k.Queued) (low : k.Low)
    (bound : p ≤ (k.thread t).nominalPriority) : (k.boostPriority t p).Queued := by
  obtain ⟨s, h⟩ := h
  exact h.rerank (bound.trans (low t).2) fun _ => ⟨rfl, rfl, rfl⟩

theorem setPriority_queued (h : k.Queued) : Returns (k.setPriority t p) Queued := by
  obtain ⟨s, h⟩ := h
  apply meets_assert False.elim
  exact fun bound => meets_ok (h.rerank bound fun _ => ⟨rfl, rfl, rfl⟩)

theorem QueuedBut.push (h : k.QueuedBut s none) (idle : (k.thread t).status ≠ .ready)
    (known : (k.thread t).currentPriority ∈ (s (k.thread t).coreId).prepared)
    (same : (g (k.thread t)).status = .ready ∧ (g (k.thread t)).coreId = (k.thread t).coreId ∧
      (g (k.thread t)).currentPriority = (k.thread t).currentPriority) :
    ((k.setQueue (k.thread t).coreId fun queue =>
      queue.pushBack (k.thread t).currentPriority t).setThread t g).Queued := by
  obtain ⟨status, core, level⟩ := same
  have pushed := edits_pushBack (p := (k.thread t).currentPriority) fun i =>
    h.absent (k.thread t).coreId (Or.inl idle) i
  refine ⟨_, h.edit none ((h.refines _).pushBack known) pushed core (fun _ => rfl) ?_
    (fun _ _ => Iff.rfl) ?_ (fun _ => by rw [status]; exact nofun) ?_⟩
  · intro i
    unfold Places
    rw [status, core, level]
    constructor
    · rintro ⟨⟩
      exact ⟨⟨rfl, rfl, rfl⟩, nofun⟩
    · rintro ⟨⟨_, _, rfl⟩, _⟩
      rfl
  · intro _
    rw [level]
    exact known
  · rw [status]
    exact nofun

theorem makeReady_queued (h : k.Queued) (asleep : ¬ Awake (k.thread t).status)
    (created : (k.thread t).status ≠ .dormant) : (k.makeReady t).Queued := by
  obtain ⟨s, h⟩ := h
  exact h.push (fun ready => asleep (Or.inl ready))
    (h.prepared t ⟨created, fun dead => asleep (Or.inr (Or.inr dead))⟩) ⟨rfl, rfl, rfl⟩

theorem killed_queued (h : k.Queued) : (k.killed t).Queued := by
  obtain ⟨s, h⟩ := h
  have still : (k.setThread t fun thread => { thread with wakeupEvents := 0 }).QueuedBut s none := by
    apply h.same
    · intro u
      rw [thread_setThread]
      split_ifs with same
      · rw [same]
        exact ⟨rfl, rfl, rfl⟩
      · exact ⟨rfl, rfl, rfl⟩
    · exact fun _ => ⟨rfl, rfl⟩
  unfold killed
  dsimp only
  generalize (k.setThread t fun thread => { thread with wakeupEvents := 0 }) = k at still ⊢
  split_ifs with ready
  · have removed := edits_remove (t := t) (s := s (k.thread t).coreId)
      (p := (k.thread t).currentPriority) fun _ => still.only
    exact ⟨_, still.edit none ((still.refines _).remove) removed rfl (fun _ => rfl)
      (fun _ => iff_of_false nofun nofun) (fun _ _ => Iff.rfl) nofun (fun _ => nofun) nofun⟩
  · exact ⟨s, still.restatus ready nofun (fun _ => nofun) (fun live => absurd rfl live.2) rfl rfl
      nofun⟩

theorem createThread_queued {priority : Nat} {processorId : Int} {validEntry tlsPage : Bool}
    (h : k.Queued) (dormant : (k.thread t).status = .dormant) :
    Returns (k.createThread t priority processorId validEntry tlsPage)
      fun reply => reply.2.Queued := by
  obtain ⟨s, h⟩ := h
  have registered : priority ≤ threadPrioLowest → ∀ core, ∃ s,
      (k.registerThread core t priority).QueuedBut s none ∧ priority ∈ (s core).prepared := by
    intro bound core
    have absent := h.absent core (t := t) (Or.inl (by rw [dormant]; rintro ⟨⟩))
    have prepared := edits_prepare (p := priority) absent
    have made := h.edit none (f := fun queue => queue.prepare priority)
      (g := fun _ =>
        { nominalPriority := priority, currentPriority := priority, coreId := core })
      ((h.refines core).prepare (Nat.lt_succ_of_le bound)) prepared rfl
      (absurd dormant) (fun _ => by simp [Places]) (fun _ _ => Iff.rfl)
      (fun live => absurd rfl live.1) (absurd dormant) (by rintro ⟨⟩)
    refine ⟨_, made.same (fun _ => ⟨rfl, rfl, rfl⟩) ?_, ?_⟩
    · intro c
      dsimp only [registerThread, setThread, setManager, setQueue]
      rw [Function.update_apply, Function.update_apply]
      split_ifs <;> exact ⟨rfl, rfl⟩
    · rw [Function.update_self]
      exact Finset.mem_insert_self _ _
  apply createThread_leaves id ⟨s, h⟩
  · exact fun bound core => (registered bound core).imp fun _ => And.left
  · intro bound core
    obtain ⟨s, listed, known⟩ := registered bound core
    have pushed := listed.push (t := t) (g := fun thread => { thread with status := .ready })
    rw [registerThread, thread_setThread, if_pos rfl] at pushed
    exact pushed (by rintro ⟨⟩) known ⟨rfl, rfl, rfl⟩

theorem Queued.untracked (h : k.Queued) (same : Untracked f) : (k.setThread t f).Queued := by
  obtain ⟨s, h⟩ := h
  refine ⟨s, h.same ?_ fun _ => ⟨rfl, rfl⟩⟩
  intro u
  rw [thread_setThread]
  split_ifs with own
  · rw [own]
    exact ⟨(same _).1, (same _).2.2.1, (same _).2.2.2.1⟩
  · exact ⟨rfl, rfl, rfl⟩

theorem Keeps.queued (h : Keeps k k') (queued : k.Queued) : k'.Queued := by
  obtain ⟨s, queued⟩ := queued
  refine ⟨s, queued.same (fun u => ⟨h.status u, h.currentPriority u, h.coreId u⟩) ?_⟩
  rw [h.manager]
  exact fun _ => ⟨rfl, rfl⟩

theorem Reranks.queued (h : Reranks t k k') (low : k.Low) (queued : k.Queued) : k'.Queued :=
  (h.induct (motive := fun k => k.Low ∧ k.Queued)
    (fun same before => ⟨same.low before.1, same.queued before.2⟩)
    (fun before => ⟨updatePriority_low before.1,
      boostPriority_queued before.2 before.1 (best_le _ _)⟩) ⟨low, queued⟩).2

theorem keeps_setSession {f : ServerSession → ServerSession} :
    Keeps k (k.setSession session f) := .of_thread rfl rfl rfl

theorem sleep_queued (h : k.Queued) (running : (k.thread t).status = .running)
    (asleep : ¬ Awake (f (k.thread t)).status) (created : (f (k.thread t)).status ≠ .dormant)
    (core : (f (k.thread t)).coreId = (k.thread t).coreId)
    (priority : (f (k.thread t)).currentPriority = (k.thread t).currentPriority) :
    (k.setThread t f).Queued := by
  obtain ⟨s, h⟩ := h
  refine ⟨s, h.restatus ?_ (fun ready => asleep (Or.inl ready)) (fun _ => created) ?_ core
    priority fun runs => absurd (Or.inr (Or.inl runs)) asleep⟩
  · rw [running]
    exact nofun
  · rw [running]
    exact fun _ => ⟨nofun, nofun⟩

theorem Asleep.not_awake {status : ThreadStatus} (asleep : Asleep status) : ¬ Awake status := by
  cases status <;> revert asleep <;> unfold Asleep <;> decide

theorem setArbiter_queued {f : List ThreadId → List ThreadId} (h : k.Queued) :
    (k.setArbiter a f).Queued := by
  obtain ⟨s, h⟩ := h
  exact ⟨s, h.same (fun _ => ⟨rfl, rfl, rfl⟩) fun _ => ⟨rfl, rfl⟩⟩

theorem Arbitrates.queued (h : Arbitrates k a t k') (queued : k.Queued) : k'.Queued := by
  cases h with
  | @wait f running sleeps timed =>
    obtain ⟨status, _, priority, core, _⟩ := sleeps (k.thread t)
    have slept : (k.setThread t f).Queued := by
      apply sleep_queued queued running
      · rw [status]
        decide
      · rw [status]
        exact nofun
      · exact core
      · exact priority
    exact setArbiter_queued slept

theorem awaitReply_queued (h : k.Queued) : (k.awaitReply session t).Queued := by
  unfold awaitReply wakeAfterDelay
  by_cases running : (k.thread t).status = .running
  · have parked : (k.setStatus t .waitIPC).Queued :=
      sleep_queued h running (show ¬ Awake .waitIPC by decide) nofun rfl rfl
    dsimp only
    split_ifs
    · exact parked
    · exact parked.untracked fun _ => ⟨rfl, rfl, rfl, rfl, rfl⟩
    · exact keeps_setSession.queued parked
  · rw [if_neg running]
    exact h

theorem answered_queued (h : k.Queued)
    (created : (k.thread t).status ≠ .dormant) : (k.answered session t).Queued := by
  have done : (k.setSession session fun session =>
      { session with currentlyHandling := none }).Queued := keeps_setSession.queued h
  unfold answered
  dsimp only
  split_ifs with awake
  · exact done
  · exact makeReady_queued done awake created

theorem runningOn_eq : k.runningOn core = some t ↔
    (k.manager core).currentThread = some t ∧ (k.thread t).status = .running := by
  unfold runningOn
  simp

theorem QueuedBut.aligned (h : k.QueuedBut s out) (core : Nat) : k.Aligned (s core) :=
  fun p u member => ((h.placed core p u).mp member).1.2.2

theorem QueuedBut.runs (h : k.QueuedBut s out) (runs : k.runningOn core = some t) :
    (k.thread t).coreId = core ∧ (k.thread t).status = .running ∧
      (k.thread t).currentPriority ∈ (s core).prepared := by
  obtain ⟨now, running⟩ := runningOn_eq.mp runs
  obtain ⟨sits, _⟩ := h.current core t now
  have known := h.prepared t (by rw [running]; exact ⟨nofun, nofun⟩)
  rw [sits] at known
  exact ⟨sits, running, known⟩

theorem Left.mem {before after : Levels ThreadId} (h : k.Left taken before.deques after.deques)
    (aligned : k.Aligned before) (distinct : ∀ p, (before.deques p).Nodup) :
    (∀ p u, u ∈ after.deques p ↔ u ∈ before.deques p ∧ taken ≠ some u) ∧
      ∀ p, (after.deques p).Nodup := by
  have apart : ∀ p, (k.ofPriority p taken.toList ++ after.deques p).Nodup :=
    fun p => (h p).nodup_iff.mp (distinct p)
  refine ⟨fun p u => ?_, fun p => (List.nodup_append.mp (apart p)).2.1⟩
  have either : u ∈ before.deques p ↔ u ∈ k.ofPriority p taken.toList ∨ u ∈ after.deques p := by
    rw [(h p).mem_iff, List.mem_append]
  constructor
  · intro stays
    have was := either.mpr (Or.inr stays)
    refine ⟨was, fun isTaken => ?_⟩
    have own : u ∈ k.ofPriority p taken.toList := by
      rw [isTaken]
      exact List.mem_filter.mpr ⟨List.mem_singleton_self u, by simpa using aligned p u was⟩
    exact (List.nodup_append.mp (apart p)).2.2 u own u stays rfl
  · rintro ⟨was, other⟩
    rcases either.mp was with own | stays
    · exact absurd (Option.mem_toList.mp (List.mem_filter.mp own).1) other
    · exact stays

section

variable (h : k.QueuedBut s none)
include h

theorem QueuedBut.take {queue : KernelQueue} (refines : Refines queue s₁)
    (prepared : s₁.prepared = (s core).prepared) (left : k.Left taken (s core).deques s₁.deques)
    (home : ∀ t, taken = some t → (k.thread t).coreId = core) :
    (k.setQueue core fun _ => queue).QueuedBut (Function.update s core s₁) taken := by
  obtain ⟨mem, distinct⟩ := left.mem (h.aligned core) (h.distinct core)
  constructor
  · intro c
    rw [(manager_setQueue k core c _).1, Function.update_apply]
    split_ifs
    · exact refines
    · exact h.refines c
  · intro c p u
    have thread : (k.setQueue core fun _ => queue).thread u = k.thread u := rfl
    rw [thread, Function.update_apply]
    split_ifs with own
    · rw [mem, h.placed, own]
      simp
    · rw [h.placed]
      constructor
      · rintro ⟨sits, _⟩
        exact ⟨sits, fun isTaken => own (sits.2.1.symm.trans (home u isTaken))⟩
      · exact fun sits => ⟨sits.1, nofun⟩
  · intro c p
    rw [Function.update_apply]
    split_ifs
    · exact distinct p
    · exact h.distinct c p
  · intro u live
    have known := h.prepared u live
    have thread : (k.setQueue core fun _ => queue).thread u = k.thread u := rfl
    rw [thread, Function.update_apply]
    split_ifs with own
    · rw [own] at known
      rw [prepared]
      exact known
    · exact known
  · intro c u now
    rw [(manager_setQueue k core c _).2] at now
    exact h.current c u now
  · intro u running
    rw [(manager_setQueue k core _ _).2]
    exact h.running u running

theorem bestReady_placed {limit : Nat} (best : k.bestReady core limit = some t) :
    (k.thread t).coreId = core ∧ (k.thread t).status = .ready := by
  obtain ⟨p, _, first⟩ := List.exists_of_findSome?_eq_some best
  have member : t ∈ k.readyAt core p := List.mem_of_find?_eq_some first
  unfold readyAt at member
  rw [(h.refines core).deques] at member
  have sits := ((h.placed core p t).mp member).1
  exact ⟨sits.2.1, sits.1⟩

theorem chosen_home (choice : k.chosen core = some t) :
    (k.thread t).coreId = core ∧ (k.thread t).status ≠ .dormant := by
  rcases Option.or_eq_some_iff.mp choice with best | ⟨_, runs⟩
  · obtain ⟨sits, ready⟩ := bestReady_placed h best
    exact ⟨sits, by rw [ready]; exact nofun⟩
  · obtain ⟨sits, running, _⟩ := h.runs runs
    exact ⟨sits, by rw [running]; exact nofun⟩

theorem popNextReadyThread_queued (core : Nat) :
    ∃ queue s₁, k.popNextReadyThread core = .ok (k.chosen core, k.setQueue core fun _ => queue) ∧
      (k.setQueue core fun _ => queue).QueuedBut (Function.update s core s₁) (k.chosen core) ∧
      k.Left (k.bestReady core (k.preemptionLimit core)) (s core).deques s₁.deques ∧
      Refines queue s₁ := by
  obtain ⟨queue, s₁, run, refines, prepared, left⟩ :=
    popNextReadyThread_pops (h.refines core) (h.aligned core) fun t runs => (h.runs runs).2.2
  have taken := h.take refines prepared left fun t best => (bestReady_placed h best).1
  refine ⟨queue, s₁, run, ?_, left, refines⟩
  unfold chosen
  cases best : k.bestReady core (k.preemptionLimit core) with
  | some t =>
    rw [best] at taken
    exact taken
  | none =>
    rw [best] at taken
    refine { taken with placed := fun c p u => ?_ }
    rw [taken.placed]
    refine and_congr_right fun sits => iff_of_true nofun fun runs => ?_
    have ready : (k.thread u).status = .ready := sits.1
    rw [(h.runs runs).2.1] at ready
    cases ready

end

theorem QueuedBut.preempt (h : k.QueuedBut s out) (core : Nat) :
    ∃ s' out', (k.preempt core).QueuedBut s' out' ∧ (∀ u, out' = some u → out = some u) ∧
      (∀ u, ((k.preempt core).thread u).coreId = core →
        ((k.preempt core).thread u).status ≠ .running) ∧
      ∀ u, ((k.preempt core).thread u).coreId = (k.thread u).coreId ∧
        ((k.thread u).status ≠ .dormant → ((k.preempt core).thread u).status ≠ .dormant) := by
  have only : ∀ u, (k.thread u).coreId = core → (k.thread u).status = .running →
      (k.manager core).currentThread = some u := by
    intro u sits running
    rw [← sits]
    exact h.running u running
  unfold Kernel.preempt
  cases now : (k.manager core).currentThread with
  | none =>
    refine ⟨s, out, h, fun _ => id, fun u sits running => ?_, fun u => ⟨rfl, id⟩⟩
    rw [only u sits running] at now
    cases now
  | some previous =>
    dsimp only
    split_ifs with running
    · obtain ⟨sits, _, known⟩ := h.runs (runningOn_eq.mpr ⟨now, running⟩)
      have pushed := edits_pushFront (p := (k.thread previous).currentPriority) fun i =>
        h.absent core (t := previous) (Or.inl (by rw [running]; exact nofun)) i
      have edited := h.edit (out.filter fun u => u ≠ previous)
        (f := fun queue => queue.pushFront (k.thread previous).currentPriority previous)
        (g := fun thread => { thread with status := .ready })
        ((h.refines core).pushFront known) pushed sits (fun _ => sits) ?_ ?_
        (fun _ => known) (fun _ => nofun) nofun
      · refine ⟨_, _, edited, fun u left => (Option.filter_eq_some_iff.mp left).1, ?_, ?_⟩
        · intro u
          rw [thread_setThread]
          split_ifs with same
          · exact fun _ => nofun
          · intro sits running
            have other := only u sits running
            rw [now] at other
            exact same (Option.some.inj other).symm
        · intro u
          rw [thread_setThread]
          split_ifs with same
          · rw [same]
            exact ⟨rfl, fun _ => nofun⟩
          · exact ⟨rfl, id⟩
      · intro i
        constructor
        · rintro ⟨⟩
          exact ⟨⟨rfl, sits, rfl⟩, by simp [Option.filter_eq_some_iff]⟩
        · rintro ⟨⟨_, _, rfl⟩, _⟩
          rfl
      · intro u other
        simp [other]
    · refine ⟨s, out, h, fun _ => id, fun u sits runs => ?_, fun u => ⟨rfl, id⟩⟩
      have same := only u sits runs
      rw [now] at same
      cases same
      exact running runs

theorem QueuedBut.install (h : k.QueuedBut s out) {next : Option ThreadId}
    (idle : ∀ u, (k.thread u).coreId = core → (k.thread u).status ≠ .running)
    (home : ∀ t, next = some t → (k.thread t).coreId = core ∧ (k.thread t).status ≠ .dormant) :
    (k.setManager core fun manager => { manager with currentThread := next }).QueuedBut s out := by
  have manager : ∀ c, ((k.setManager core fun manager =>
      { manager with currentThread := next }).manager c).readyQueue = (k.manager c).readyQueue ∧
        ((k.setManager core fun manager => { manager with currentThread := next }).manager
          c).currentThread = if c = core then next else (k.manager c).currentThread := by
    intro c
    unfold setManager
    dsimp only
    rw [Function.update_apply]
    split_ifs with own
    · rw [own]
      exact ⟨rfl, rfl⟩
    · exact ⟨rfl, rfl⟩
  refine { h with refines := fun c => ?_, current := fun c u => ?_, running := fun u runs => ?_ }
  · rw [(manager c).1]
    exact h.refines c
  · rw [(manager c).2]
    split_ifs with own
    · rw [own]
      exact home u
    · exact h.current c u
  · rw [(manager _).2]
    exact (if_neg fun sits => idle u sits runs).trans (h.running u runs)

theorem switchContext_queued (h : k.QueuedBut s out)
    (home : ∀ t, out = some t → (k.thread t).coreId = core ∧ (k.thread t).status ≠ .dormant) :
    Returns (k.switchContext core out) Queued := by
  obtain ⟨s', out', back, left, idle, kept⟩ := h.preempt core
  unfold switchContext
  have fits : ∀ t, out = some t → ((k.preempt core).thread t).coreId = core ∧
      ((k.preempt core).thread t).status ≠ .dormant := by
    intro t isOut
    obtain ⟨sits, alive⟩ := home t isOut
    exact ⟨(kept t).1.trans sits, (kept t).2 alive⟩
  generalize k.preempt core = k at back idle fits ⊢
  have installed := back.install idle fits
  cases out with
  | none =>
    have nothing : out' = none := by
      cases out' with
      | none => rfl
      | some u => cases left u rfl
    rw [nothing] at installed
    exact meets_ok ⟨s', installed⟩
  | some t =>
    apply meets_assert False.elim
    intro ready
    obtain ⟨sits, alive⟩ := fits t rfl
    have removed := edits_remove (t := t) (s := s' core) (p := (k.thread t).currentPriority)
      fun _ => installed.only
    have edited := installed.edit none
      (f := fun queue => queue.remove (k.thread t).currentPriority t)
      (g := fun thread => { thread with status := .running, wakeupEvents := 0 })
      ((installed.refines core).remove) removed sits (fun _ => sits)
      (fun _ => iff_of_false nofun nofun) ?_ ?_ (fun _ => nofun) ?_
    · refine ⟨_, edited.same (fun _ => ⟨rfl, rfl, rfl⟩) ?_⟩
      intro c
      dsimp only [setThread, setManager, setQueue]
      rw [Function.update_idem, Function.update_self]
      exact ⟨rfl, rfl⟩
    · intro u other
      refine iff_of_false nofun fun isOut => other ?_
      exact (Option.some.inj (left u isOut)).symm
    · intro _
      have known := back.prepared t (by rw [ready]; exact ⟨nofun, nofun⟩)
      rw [sits] at known
      exact known
    · intro _
      unfold setManager
      dsimp only
      rw [Function.update_self]

theorem reschedule_queued (h : k.Queued) (core : Nat) : Returns (k.reschedule core) Queued := by
  obtain ⟨s, h⟩ := h
  obtain ⟨queue, s₁, run, popped, _⟩ := popNextReadyThread_queued h core
  unfold reschedule
  rw [run]
  apply meets_ite
  · rintro ⟨_, nothing⟩
    rw [nothing] at popped
    exact meets_ok ⟨_, popped⟩
  · exact fun _ => switchContext_queued popped fun t => chosen_home h

end

theorem Calm.queued (h : Calm k k') (low : k.Low) (queued : k.Queued) : k'.Queued := by
  cases h with
  | thread same => exact queued.untracked same
  | boost bound => exact boostPriority_queued queued low bound
  | ready asleep free => exact makeReady_queued queued asleep free.1
  | @release a t _ waits =>
    have status : ((k.setArbiter a fun waiting => waiting.erase t).thread t).status =
        .waitArb := waits
    apply makeReady_queued (k := k.setArbiter a fun waiting => waiting.erase t)
    · exact setArbiter_queued queued
    · rw [status]
      decide
    · rw [status]
      exact nofun
  | reorder => exact setArbiter_queued queued
  | _ => exact Keeps.queued (k := k) (.of_thread rfl rfl rfl) queued

theorem Change.queued (h : Change k k') (low : k.Low) (queued : k.Queued) : k'.Queued := by
  cases h with
  | calm calm => exact calm.queued low queued
  | manager same =>
    obtain ⟨s, queued⟩ := queued
    refine ⟨s, queued.same (fun _ => ⟨rfl, rfl, rfl⟩) fun c => ?_⟩
    unfold setManager
    dsimp only
    rw [Function.update_apply]
    split_ifs with own
    · rw [own]
      exact same _
    · exact ⟨rfl, rfl⟩
  | setPriority run => exact (setPriority_queued queued).ok run
  | @sleep t f running same =>
    obtain ⟨asleep, _, priority, core, _⟩ := same (k.thread t)
    exact sleep_queued queued running asleep.not_awake asleep.created core priority
  | park => exact awaitReply_queued queued
  | acquire _ run => exact (acquire_reranks.ok run).queued low queued
  | unlock => exact unlocked_reranks.queued low queued
  | drop => exact (keeps_heldMutexes (f := fun _ => [])).queued queued
  | kill => exact killed_queued queued
  | answer _ _ free => exact answered_queued queued free.1
  | reschedule run => exact (reschedule_queued queued _).ok run
  | _ => exact Keeps.queued (k := k) (.of_thread rfl rfl rfl) queued

theorem Creates.queued {a : Action} (h : Creates k a k') (queued : k.Queued) : k'.Queued := by
  cases h with
  | call dormant run => exact (createThread_queued queued dormant).ok run

theorem boot_queued (numCores : Nat) : (boot numCores).Queued := by
  refine ⟨fun _ => {}, ?_⟩
  constructor
  · exact fun _ => refines_empty
  · intro core p t
    exact iff_of_false List.not_mem_nil fun sits => by cases sits.1.1
  · exact fun _ _ => List.nodup_nil
  · exact fun t live => absurd rfl live.1
  · exact nofun
  · exact nofun

theorem Reachable.queued {allowed : Kernel → Action → Prop} (h : Reachable allowed k) :
    k.Queued := by
  have all : k.Low ∧ k.Queued := by
    apply h.changes (I := fun k => k.Low ∧ k.Queued)
    · exact fun numCores => ⟨fun _ => ⟨Nat.le_refl _, Nat.zero_le _⟩, boot_queued numCores⟩
    · rintro k a ⟨low, queued⟩ _ _
      exact ⟨(opening_keeps k a).low low, (opening_keeps k a).queued queued⟩
    · rintro k k' a t waits ⟨low, queued⟩
      exact ⟨waits.low low, waits.queued queued⟩
    · rintro k k' a creates ⟨low, queued⟩
      exact ⟨creates.low low, creates.queued queued⟩
    · rintro k k' change ⟨low, queued⟩
      exact ⟨change.low low, change.queued low queued⟩
  exact all.2

/-- Ready threads and queues agree on every core, and what runs is a core's current thread. -/
theorem ready_threads_queued (reachable : Reachable (fun _ _ => True) k) :
    (∀ core p t, t ∈ k.readyAt core p ↔ (k.thread t).status = .ready ∧ (k.thread t).coreId = core ∧
        (k.thread t).currentPriority = p) ∧ (∀ core p, (k.readyAt core p).Nodup) ∧
    ∀ t, (k.thread t).status = .running → (k.manager (k.thread t).coreId).currentThread = some t ∧
        ∀ u, (k.thread u).status = .running → (k.thread u).coreId = (k.thread t).coreId →
          u = t := by
  obtain ⟨s, h⟩ := reachable.queued
  have levels : ∀ core p, k.readyAt core p = (s core).deques p :=
    fun core p => congrFun (h.refines core).deques p
  refine ⟨fun core p t => ?_, fun core p => ?_, fun t running => ⟨h.running t running, ?_⟩⟩
  · rw [levels, h.placed]
    exact and_iff_left nofun
  · rw [levels]
    exact h.distinct core p
  · intro u runs sits
    have current := h.running u runs
    rw [sits, h.running t running] at current
    exact (Option.some.inj current).symm

/-- The scheduler's choice, and what it leaves in the queues. -/
theorem popNextReadyThread_chooses (reachable : Reachable (fun _ _ => True) k) (core : Nat) :
    ∃ queue, k.popNextReadyThread core = .ok (k.chosen core, k.setQueue core fun _ => queue) ∧
      ∀ p, (queue.data p).Perm ((k.readyAt core p).filter fun u => k.chosen core ≠ some u) := by
  obtain ⟨s, h⟩ := reachable.queued
  obtain ⟨queue, s₁, run, popped, _, refines⟩ := popNextReadyThread_queued h core
  refine ⟨queue, run, fun p => ?_⟩
  have before : k.readyAt core p = (s core).deques p := congrFun (h.refines core).deques p
  have after : queue.data p = (Function.update s core s₁ core).deques p := by
    rw [Function.update_self]
    exact congrFun refines.deques p
  rw [before, after, List.perm_ext_iff_of_nodup (popped.distinct core p)
    ((h.distinct core p).filter _)]
  intro u
  rw [popped.placed, List.mem_filter, h.placed]
  simp [setQueue, setManager]

/-- A thread runs while a better one may not be scheduled and a second better one may. -/
def paused : Kernel := Action.after (Action.after (Action.after waiterRuns
  (.createThread 1 40 0 true true)) (.createThread 2 45 0 true true)) (.setCanSchedule 1 false)

theorem paused_run : Reachable (fun _ _ => True) paused := by
  have second : Reachable (fun _ _ => True)
      (Action.after waiterRuns (.createThread 1 40 0 true true)) := by
    refine waiterRuns_run.step (a := Action.createThread 1 40 0 true true) trivial ⟨⟨rfl, ?_⟩, rfl⟩
    rintro (_ | core)
    · decide
    · exact List.not_mem_nil
  have third : Reachable (fun _ _ => True) (Action.after (Action.after waiterRuns
      (.createThread 1 40 0 true true)) (.createThread 2 45 0 true true)) := by
    refine second.step (a := Action.createThread 2 45 0 true true) trivial ⟨⟨rfl, ?_⟩, rfl⟩
    rintro (_ | core)
    · decide
    · exact List.not_mem_nil
  exact third.step (a := Action.setCanSchedule 1 false) trivial ⟨trivial, rfl⟩

theorem popNextReadyThread_chooses_paused : ∃ queue, paused.popNextReadyThread 0 =
    .ok (some 2, paused.setQueue 0 fun _ => queue) ∧ queue.data 40 = [1] := by
  obtain ⟨queue, run, left⟩ := popNextReadyThread_chooses paused_run 0
  refine ⟨queue, run, List.perm_singleton.mp ((left 40).trans ?_)⟩
  decide

theorem ready_threads_queued_paused : paused.readyAt 0 45 = [2] ∧ 2 ∈ paused.readyAt 0 45 :=
  ⟨by decide, ((ready_threads_queued paused_run).1 0 45 2).mpr (by decide)⟩

/-- What a thread inherits from those who wait for its mutexes never makes its priority worse. -/
theorem priorities_bounded {allowed : Kernel → Action → Prop} (reachable : Reachable allowed k)
    (t : ThreadId) : (k.thread t).currentPriority ≤ (k.thread t).nominalPriority ∧
      (k.thread t).nominalPriority ≤ threadPrioLowest := reachable.low t

theorem priorities_bounded_paused :
    (paused.thread 1).currentPriority = 40 ∧ (paused.thread 1).nominalPriority ≤ 63 :=
  ⟨by decide, (priorities_bounded paused_run 1).2⟩

end EmuThreeDS.Kernel
