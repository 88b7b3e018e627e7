import EmuThreeDS.Kernel.Frames

/-!
# The lists of the address arbiters

An arbiter lists the threads that wait on it, and those that were stopped while they did. No
change but a thread's own wait adds to a list, and none alters the order at an address.
-/
namespace EmuThreeDS.Kernel

variable {k k' : Kernel} {t u : ThreadId} {a b address : Nat}

structure Bystands (x y : Thread) : Prop where
  waits : x.status = .waitArb → y.status = .waitArb ∨ y.status = .dead
  ended : x.status = .dead → y.status = .dead
  fresh : y.status = .waitArb → x.status = .waitArb
  address : x.status = .waitArb ∨ x.status = .dead → y.waitAddress = x.waitAddress
  timeout : y.status = .waitArb →
    y.wakeupCallback = x.wakeupCallback ∧ y.wakeupEvents ≤ x.wakeupEvents

theorem Bystands.refl (x : Thread) : Bystands x x :=
  ⟨Or.inl, id, id, fun _ => rfl, fun _ => ⟨rfl, Nat.le_refl _⟩⟩

theorem bystands_apart {x y : Thread} (before : x.status ≠ .waitArb ∧ x.status ≠ .dead)
    (after : y.status ≠ .waitArb) : Bystands x y where
  waits := fun waits => absurd waits before.1
  ended := fun dead => absurd dead before.2
  fresh := fun waits => absurd waits after
  address := fun listed => (listed.elim before.1 before.2).elim
  timeout := fun waits => absurd waits after

/-- The lists of the arbiters, and the timeouts of the threads that wait on them. -/
structure Enlisted (k : Kernel) : Prop where
  status : ∀ a t, t ∈ k.arbiter a → (k.thread t).status = .waitArb ∨ (k.thread t).status = .dead
  one : ∀ a b t, t ∈ k.arbiter a → t ∈ k.arbiter b → a = b
  nodup : ∀ a, (k.arbiter a).Nodup
  listed : ∀ t, (k.thread t).status = .waitArb → ∃ a, t ∈ k.arbiter a ∧
    ((k.thread t).wakeupEvents = 0 ∨ (k.thread t).wakeupCallback = some (.addressArbiter a))

/-- No thread starts to wait, and at each address threads only leave. -/
structure Steady (k k' : Kernel) : Prop where
  order : ∀ a address, (k'.waitersAt a address).Sublist (k.waitersAt a address)
  fresh : ∀ t, (k'.thread t).status = .waitArb → (k.thread t).status = .waitArb

theorem Steady.refl (k : Kernel) : Steady k k := ⟨fun _ _ => List.Sublist.refl _, fun _ => id⟩

theorem Steady.trans {k'' : Kernel} (first : Steady k k') (second : Steady k' k'') : Steady k k'' :=
  ⟨fun a address => (second.order a address).trans (first.order a address),
    fun t waits => first.fresh t (second.fresh t waits)⟩

section

variable (h : k.Enlisted)
include h

theorem Enlisted.bystand (arbiter : k'.arbiter = k.arbiter)
    (thread : ∀ u, Bystands (k.thread u) (k'.thread u)) : Steady k k' ∧ k'.Enlisted := by
  refine ⟨⟨fun a address => ?_, fun u => (thread u).fresh⟩, ?_⟩
  · have same : k'.waitersAt a address = k.waitersAt a address := by
      unfold waitersAt
      rw [arbiter]
      apply List.filter_congr
      intro u listed
      rw [(thread u).address (h.status a u listed)]
    rw [same]
  constructor
  · intro a u listed
    rw [arbiter] at listed
    rcases h.status a u listed with waits | dead
    · exact (thread u).waits waits
    · exact Or.inr ((thread u).ended dead)
  · rw [arbiter]
    exact h.one
  · rw [arbiter]
    exact h.nodup
  · intro u waits
    obtain ⟨a, inside, timed⟩ := h.listed u ((thread u).fresh waits)
    obtain ⟨callback, fewer⟩ := (thread u).timeout waits
    rw [arbiter, callback]
    refine ⟨a, inside, timed.imp_left fun none => ?_⟩
    exact Nat.le_zero.mp (none ▸ fewer)

theorem Enlisted.bystandThread (arbiter : k'.arbiter = k.arbiter) {x : Thread}
    (thread : k'.thread = Function.update k.thread t x) (own : Bystands (k.thread t) x) :
    Steady k k' ∧ k'.Enlisted := by
  refine h.bystand arbiter fun u => ?_
  rw [thread, Function.update_apply]
  split_ifs with same
  · rw [same]
    exact own
  · exact .refl _

theorem Enlisted.keep (same : Keeps k k') : Steady k k' ∧ k'.Enlisted := by
  refine h.bystand same.arbiter fun u => ?_
  have status := same.status u
  constructor
  · rw [status]
    exact Or.inl
  · rw [status]
    exact id
  · rw [status]
    exact id
  · exact fun _ => same.waitAddress u
  · exact fun _ => ⟨same.wakeupCallback u, Nat.le_of_eq (same.wakeupEvents u)⟩

theorem Enlisted.boost (priority : Nat) :
    Steady k (k.boostPriority t priority) ∧ (k.boostPriority t priority).Enlisted :=
  h.bystandThread rfl rfl
    ⟨Or.inl, id, id, fun _ => rfl, fun _ => ⟨rfl, Nat.le_refl _⟩⟩

theorem Enlisted.reorder {waiting : List ThreadId}
    (same : ∀ address, (waiting.filter fun t => (k.thread t).waitAddress = address) =
      k.waitersAt a address) :
    Steady k (k.setArbiter a fun _ => waiting) ∧ (k.setArbiter a fun _ => waiting).Enlisted := by
  have count : ∀ u, waiting.count u = (k.arbiter a).count u := by
    intro u
    have counts := congrArg (List.count u) (same (k.thread u).waitAddress)
    unfold waitersAt at counts
    rw [List.count_filter (by simp), List.count_filter (by simp)] at counts
    exact counts
  have mem : ∀ u, u ∈ waiting ↔ u ∈ k.arbiter a := by
    intro u
    rw [← List.count_pos_iff, count, List.count_pos_iff]
  have lists : ∀ b u, u ∈ (k.setArbiter a fun _ => waiting).arbiter b ↔ u ∈ k.arbiter b := by
    intro b u
    unfold setArbiter
    dsimp only
    rw [Function.update_apply]
    split_ifs with own
    · rw [own]
      exact mem u
    · rfl
  refine ⟨⟨fun b address => ?_, fun _ => id⟩, ?_⟩
  · have kept : (k.setArbiter a fun _ => waiting).waitersAt b address = k.waitersAt b address := by
      unfold waitersAt setArbiter
      dsimp only
      rw [Function.update_apply]
      split_ifs with own
      · rw [own]
        exact same address
      · rfl
    rw [kept]
  constructor
  · exact fun b u listed => h.status b u ((lists b u).mp listed)
  · exact fun b c u first second => h.one b c u ((lists b u).mp first) ((lists c u).mp second)
  · intro b
    unfold setArbiter
    dsimp only
    rw [Function.update_apply]
    split_ifs with own
    · rw [List.nodup_iff_count]
      intro u
      rw [count]
      exact List.nodup_iff_count.mp (h.nodup a) u
    · exact h.nodup b
  · intro u waits
    obtain ⟨b, inside, timed⟩ := h.listed u waits
    exact ⟨b, (lists b u).mpr inside, timed⟩

theorem Enlisted.release (inside : t ∈ k.arbiter a) :
    Steady k ((k.setArbiter a fun waiting => waiting.erase t).makeReady t) ∧
      ((k.setArbiter a fun waiting => waiting.erase t).makeReady t).Enlisted := by
  have thread : ∀ u, u ≠ t →
      ((k.setArbiter a fun waiting => waiting.erase t).makeReady t).thread u = k.thread u := by
    intro u other
    unfold makeReady
    rw [thread_setThread, if_neg other]
    rfl
  have ready : (((k.setArbiter a fun waiting => waiting.erase t).makeReady t).thread t).status =
      .ready := statusOf_makeReady
  have address : ∀ u, (((k.setArbiter a fun waiting => waiting.erase t).makeReady t).thread
      u).waitAddress = (k.thread u).waitAddress := by
    intro u
    unfold makeReady
    rw [thread_setThread]
    split_ifs with same
    · rw [same]
      rfl
    · rfl
  have lists : ∀ b, ((k.setArbiter a fun waiting => waiting.erase t).makeReady t).arbiter b =
      if b = a then (k.arbiter a).erase t else k.arbiter b :=
    fun b => Function.update_apply k.arbiter a _ b
  have gone : ∀ b u, u ∈ ((k.setArbiter a fun waiting => waiting.erase t).makeReady t).arbiter b ↔
      u ∈ k.arbiter b ∧ u ≠ t := by
    intro b u
    rw [lists]
    split_ifs with own
    · rw [(h.nodup a).mem_erase_iff, own, and_comm]
    · refine (and_iff_left_of_imp fun listed same => own ?_).symm
      exact h.one b a t (same ▸ listed) inside
  generalize (k.setArbiter a fun waiting => waiting.erase t).makeReady t = k' at *
  have asleep : ∀ u, (k'.thread u).status = .waitArb → u ≠ t := by
    rintro u waits rfl
    rw [ready] at waits
    cases waits
  refine ⟨⟨fun b address' => ?_, fun u waits => ?_⟩, ?_⟩
  · unfold waitersAt
    simp only [address, lists]
    split_ifs with own
    · rw [own]
      exact List.erase_sublist.filter _
    · exact List.Sublist.refl _
  · rw [← thread u (asleep u waits)]
    exact waits
  constructor
  · intro b u listed
    obtain ⟨listed, other⟩ := (gone b u).mp listed
    rw [thread u other]
    exact h.status b u listed
  · exact fun b c u first second => h.one b c u ((gone b u).mp first).1 ((gone c u).mp second).1
  · intro b
    rw [lists]
    split_ifs
    · exact (h.nodup a).erase t
    · exact h.nodup b
  · intro u waits
    have other := asleep u waits
    rw [thread u other] at waits ⊢
    obtain ⟨b, listed, timed⟩ := h.listed u waits
    exact ⟨b, (gone b u).mpr ⟨listed, other⟩, timed⟩

end

theorem Calm.enlisted (h : Calm k k') (enlisted : k.Enlisted) : Steady k k' ∧ k'.Enlisted := by
  cases h with
  | @thread t f same events callback =>
    apply @Enlisted.bystandThread k (k.setThread t f) t enlisted rfl _ rfl
    have status := (same (k.thread t)).1
    constructor
    · rw [status]
      exact Or.inl
    · rw [status]
      exact id
    · rw [status]
      exact id
    · intro listed
      rcases callback with kept | ⟨⟨free, alive⟩, _⟩
      · exact (kept _).2
      · exact (listed.elim free.2 alive).elim
    · rw [status]
      intro waits
      rcases callback with kept | ⟨⟨free, _⟩, _⟩
      · rcases events with fewer | free
        · exact ⟨(kept _).1, fewer _⟩
        · exact absurd waits free.2
      · exact absurd waits free.2
  | waiting => exact @Enlisted.keep k (k.setWaiting _ _) enlisted (.of_thread rfl rfl rfl)
  | reorder same => exact enlisted.reorder same
  | release inside => exact enlisted.release inside
  | stamp => exact enlisted.keep keeps_setMutex
  | boost => exact enlisted.boost _
  | @ready t asleep free =>
    have own : Bystands (k.thread t)
        { k.thread t with wakeupCallback := none, status := .ready } :=
      bystands_apart ⟨free.2, fun dead => asleep (Or.inr (Or.inr dead))⟩ nofun
    exact @Enlisted.bystandThread k (k.makeReady t) t enlisted rfl _ rfl own

theorem Reranks.enlisted (h : Reranks t k k') (enlisted : k.Enlisted) :
    Steady k k' ∧ k'.Enlisted := by
  apply h.induct (motive := fun k' => Steady k k' ∧ k'.Enlisted)
  · rintro k₁ k₂ same ⟨steady, enlisted⟩
    have kept := enlisted.keep same
    exact ⟨steady.trans kept.1, kept.2⟩
  · rintro k₁ ⟨steady, enlisted⟩
    have boosted := enlisted.boost (t := t) (best (k₁.thread t).nominalPriority
      ((k₁.thread t).heldMutexes.map fun m => (k₁.mutex m).priority))
    exact ⟨steady.trans boosted.1, boosted.2⟩
  · exact ⟨.refl k, enlisted⟩

theorem createThread_enlisted {priority : Nat} {processorId : Int} {validEntry tlsPage : Bool}
    (h : k.Enlisted) (dormant : (k.thread t).status = .dormant) :
    Returns (k.createThread t priority processorId validEntry tlsPage)
      fun reply => Steady k reply.2 ∧ reply.2.Enlisted := by
  have before : (k.thread t).status ≠ .waitArb ∧ (k.thread t).status ≠ .dead := by
    rw [dormant]
    exact ⟨nofun, nofun⟩
  have made : ∀ core, ∀ status : ThreadStatus, status ≠ .waitArb → Bystands (k.thread t)
      { nominalPriority := priority, currentPriority := priority, coreId := core,
        status := status } := fun core status other => bystands_apart before other
  apply createThread_leaves (P := fun k' => Steady k k' ∧ k'.Enlisted) id ⟨.refl k, h⟩
  · exact fun _ core => h.bystandThread rfl rfl (made core .dormant nofun)
  · intro _ core
    refine h.bystandThread rfl ?_ (made core .ready nofun)
    dsimp only [registerThread, startThread, setThread, setManager, setQueue]
    rw [Function.update_idem, Function.update_self]

theorem awaitReply_enlisted {s : Nat} (h : k.Enlisted) :
    Steady k (k.awaitReply s t) ∧ (k.awaitReply s t).Enlisted := by
  unfold awaitReply wakeAfterDelay
  by_cases running : (k.thread t).status = .running
  · have parked : ∀ events, Bystands (k.thread t)
        { k.thread t with status := .waitIPC, wakeupEvents := events } := by
      intro events
      refine bystands_apart ?_ nofun
      rw [running]
      exact ⟨nofun, nofun⟩
    dsimp only
    split_ifs
    · exact h.bystandThread rfl rfl (parked _)
    · refine h.bystandThread rfl ?_ (parked ((k.thread t).wakeupEvents + 1))
      dsimp only [setStatus, setThread]
      rw [Function.update_idem, Function.update_self]
    · exact h.bystandThread rfl rfl (parked _)
  · rw [if_neg running]
    exact ⟨.refl k, h⟩

theorem killed_enlisted (h : k.Enlisted) : Steady k (k.killed t) ∧ (k.killed t).Enlisted := by
  have ends : Bystands (k.thread t) { k.thread t with status := .dead, wakeupEvents := 0 } :=
    ⟨fun _ => Or.inr rfl, fun _ => rfl, nofun, fun _ => rfl, nofun⟩
  unfold killed
  dsimp only
  split_ifs
  all_goals
    refine h.bystandThread rfl ?_ ends
    dsimp only [setQueue, setManager, setThread]
    rw [Function.update_idem, Function.update_self]

theorem Change.enlisted (h : Change k k') (enlisted : k.Enlisted) : Steady k k' ∧ k'.Enlisted := by
  have same : ∀ {k'}, k'.arbiter = k.arbiter → k'.thread = k.thread →
      Steady k k' ∧ k'.Enlisted := by
    intro k' arbiter thread
    refine enlisted.bystand arbiter fun u => ?_
    rw [thread]
    exact .refl _
  cases h with
  | calm calm => exact calm.enlisted enlisted
  | @setPriority t priority _ run =>
    obtain ⟨_, _, set⟩ := bind_eq_ok.mp run
    cases set
    exact enlisted.bystandThread rfl rfl
      ⟨Or.inl, id, id, fun _ => rfl, fun _ => ⟨rfl, Nat.le_refl _⟩⟩
  | @sleep t f running asleep =>
    refine @Enlisted.bystandThread k (k.setThread t f) t enlisted rfl _ rfl (bystands_apart ?_ ?_)
    · rw [running]
      exact ⟨nofun, nofun⟩
    · intro waits
      have sleeps := (asleep (k.thread t)).1
      rw [waits] at sleeps
      revert sleeps
      unfold Asleep
      decide
  | park => exact awaitReply_enlisted enlisted
  | acquire _ run => exact (acquire_reranks.ok run).enlisted enlisted
  | unlock => exact unlocked_reranks.enlisted enlisted
  | drop => exact enlisted.keep (keeps_heldMutexes (f := fun _ => []))
  | kill => exact killed_enlisted enlisted
  | @answer s t _ _ free =>
    unfold answered
    dsimp only
    split_ifs with awake
    · exact same rfl rfl
    · exact enlisted.bystandThread rfl rfl
        (bystands_apart ⟨free.2, fun dead => awake (Or.inr (Or.inr dead))⟩ nofun)
  | reschedule run =>
    have reschedules := reschedule_reschedules.ok run
    obtain ⟨_, _, only⟩ := reschedules.only
    refine enlisted.bystand (by rw [only]) fun u => ?_
    rcases reschedules.status u with same | ⟨before, after⟩
    · rw [same]
      exact .refl _
    · have apart : ∀ status : ThreadStatus, status = .running ∨ status = .ready →
          status ≠ .waitArb ∧ status ≠ .dead := by
        rintro _ (rfl | rfl) <;> exact ⟨nofun, nofun⟩
      exact bystands_apart (apart _ before) (apart _ after).1
  | _ => exact same rfl rfl

theorem Calms.enlisted (h : Calms k k') (enlisted : k.Enlisted) : Steady k k' ∧ k'.Enlisted := by
  induction h with
  | refl => exact ⟨.refl k, enlisted⟩
  | tail _ step ih =>
    obtain ⟨steady, enlisted⟩ := step.enlisted ih.2
    exact ⟨ih.1.trans steady, enlisted⟩

theorem Changes.enlisted (h : Changes k k') (enlisted : k.Enlisted) :
    Steady k k' ∧ k'.Enlisted := by
  induction h with
  | refl => exact ⟨.refl k, enlisted⟩
  | tail _ step ih =>
    obtain ⟨steady, enlisted⟩ := step.enlisted ih.2
    exact ⟨ih.1.trans steady, enlisted⟩

theorem Creates.enlisted {a : Action} (h : Creates k a k') (enlisted : k.Enlisted) :
    Steady k k' ∧ k'.Enlisted := by
  cases h with
  | call dormant run => exact (createThread_enlisted enlisted dormant).ok run

inductive Arbitrates (k : Kernel) (a : Nat) (t : ThreadId) : Kernel → Prop where
  | wait {f : Thread → Thread} : (k.thread t).status = .running →
      (∀ x, (f x).status = .waitArb ∧ (f x).nominalPriority = x.nominalPriority ∧
        (f x).currentPriority = x.currentPriority ∧ (f x).coreId = x.coreId ∧
        (f x).heldMutexes = x.heldMutexes) →
      ((f (k.thread t)).wakeupEvents = 0 ∨
        (f (k.thread t)).wakeupCallback = some (.addressArbiter a)) →
      Arbitrates k a t ((k.setThread t f).setArbiter a fun waiting => waiting ++ [t])

theorem Enlisted.not_listed (h : k.Enlisted) (running : (k.thread t).status = .running) (a : Nat) :
    t ∉ k.arbiter a := by
  intro listed
  rcases h.status a t listed with waits | dead
  · rw [running] at waits
    cases waits
  · rw [running] at dead
    cases dead

section

variable (h : Arbitrates k a t k')
include h

theorem Arbitrates.arbiter (b : Nat) :
    k'.arbiter b = if b = a then k.arbiter a ++ [t] else k.arbiter b := by
  cases h
  exact Function.update_apply k.arbiter a _ b

theorem Arbitrates.thread :
    (k'.thread t).status = .waitArb ∧ ∀ u, u ≠ t → k'.thread u = k.thread u := by
  cases h with
  | @wait f running sleeps timed =>
    constructor
    · exact (congrArg Thread.status (Function.update_self t _ k.thread)).trans
        (sleeps _).1
    · exact fun u other => Function.update_of_ne other _ _

theorem Arbitrates.timed : (k'.thread t).wakeupEvents = 0 ∨
    (k'.thread t).wakeupCallback = some (.addressArbiter a) := by
  cases h with
  | @wait f running sleeps timed =>
    have own : (((k.setThread t f).setArbiter a fun waiting => waiting ++ [t]).thread t) =
        f (k.thread t) := Function.update_self t _ k.thread
    rw [own]
    exact timed

theorem Arbitrates.objects : SameObjects k k' := by
  cases h
  exact ⟨rfl, rfl, rfl, rfl, rfl⟩

theorem Arbitrates.running : (k.thread t).status = .running := by
  cases h with
  | wait running => exact running

theorem Arbitrates.enlisted (enlisted : k.Enlisted) : k'.Enlisted := by
  have absent := enlisted.not_listed h.running
  obtain ⟨waits, others⟩ := h.thread
  have mem : ∀ b u, u ∈ k'.arbiter b ↔ u ∈ k.arbiter b ∨ b = a ∧ u = t := by
    intro b u
    rw [h.arbiter]
    split_ifs with own <;> simp [own]
  have other : ∀ b u, u ∈ k.arbiter b → u ≠ t := fun b u listed same => absent b (same ▸ listed)
  constructor
  · intro b u listed
    rcases (mem b u).mp listed with old | ⟨_, rfl⟩
    · rw [others u (other b u old)]
      exact enlisted.status b u old
    · exact Or.inl waits
  · intro b c u first second
    rcases (mem b u).mp first with old | ⟨rfl, rfl⟩
    · rcases (mem c u).mp second with old' | ⟨_, rfl⟩
      · exact enlisted.one b c u old old'
      · exact absurd old (absent b)
    · rcases (mem c u).mp second with old' | ⟨rfl, _⟩
      · exact absurd old' (absent c)
      · rfl
  · intro b
    rw [h.arbiter]
    split_ifs
    · refine List.nodup_append.mpr ⟨enlisted.nodup a, List.pairwise_singleton _ t, ?_⟩
      rintro u listed v single rfl
      rw [List.mem_singleton] at single
      exact other a u listed single
    · exact enlisted.nodup b
  · intro u sleeps
    by_cases same : u = t
    · subst same
      exact ⟨a, (mem a u).mpr (Or.inr ⟨rfl, rfl⟩), h.timed⟩
    · rw [others u same] at sleeps ⊢
      obtain ⟨b, listed, timed⟩ := enlisted.listed u sleeps
      exact ⟨b, (mem b u).mpr (Or.inl listed), timed⟩

end

end EmuThreeDS.Kernel
