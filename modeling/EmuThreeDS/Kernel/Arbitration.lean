import EmuThreeDS.Kernel.CallChanges

/-!
# Address arbitration over whole runs

A run is timed by counting its steps. At each address an arbiter lists its threads by the time
at which they began to wait, so the first of a list has waited longest.
-/
namespace EmuThreeDS.Kernel

variable {k k' : Kernel} {t u : ThreadId} {a address n : Nat} {since : ThreadId → Nat}

/-- When the waits on arbiters began, after the step that leads to `k'` at time `n`. -/
def stamp (n : Nat) (k k' : Kernel) (since : ThreadId → Nat) (t : ThreadId) : Nat :=
  if (k'.thread t).status = .waitArb ∧ (k.thread t).status ≠ .waitArb then n else since t

inductive Timed : Nat → (ThreadId → Nat) → Kernel → Prop where
  | start (numCores : Nat) (since : ThreadId → Nat) : Timed 0 since (boot numCores)
  | step {n : Nat} {since : ThreadId → Nat} {k k' : Kernel} {a : Action} :
      Timed n since k → Step k a k' → Timed (n + 1) (stamp n k k' since) k'

theorem Timed.reachable (h : Timed n since k) : Reachable (fun _ _ => True) k := by
  induction h with
  | start numCores since => exact .start ⟨numCores, rfl⟩
  | step _ step ih => exact ih.step trivial step

structure Ordered (n : Nat) (since : ThreadId → Nat) (k : Kernel) : Prop where
  past : ∀ a, ∀ t ∈ k.arbiter a, since t < n
  sorted : ∀ a address, (k.waitersAt a address).Pairwise fun u v => since u < since v

theorem mem_waitersAt : t ∈ k.waitersAt a (k.thread t).waitAddress ↔ t ∈ k.arbiter a := by
  unfold waitersAt
  simp

theorem Steady.listed (h : Steady k k') (listed : t ∈ k'.arbiter a) :
    t ∈ k.waitersAt a (k'.thread t).waitAddress :=
  (h.order a _).subset (mem_waitersAt.mpr listed)

theorem Ordered.steady (h : Ordered n since k) (steady : Steady k k') :
    Ordered (n + 1) (stamp n k k' since) k' := by
  have same : stamp n k k' since = since :=
    funext fun t => if_neg fun begins => begins.2 (steady.fresh t begins.1)
  rw [same]
  refine ⟨fun a t listed => ?_, fun a address => (h.sorted a address).sublist (steady.order a _)⟩
  have before := List.mem_of_mem_filter (steady.listed listed)
  exact (h.past a t before).trans (Nat.lt_succ_self n)

theorem Ordered.wait (h : Ordered n since k) (enlisted : k.Enlisted)
    (waits : Arbitrates k a t k') : Ordered (n + 1) (stamp n k k' since) k' := by
  obtain ⟨own, others⟩ := waits.thread
  have absent := enlisted.not_listed waits.running
  have now : stamp n k k' since t = n := by
    apply if_pos
    rw [own, waits.running]
    exact ⟨rfl, nofun⟩
  have before : ∀ u, u ≠ t → stamp n k k' since u = since u := by
    intro u other
    apply if_neg
    rw [others u other]
    exact fun begins => begins.2 begins.1
  have other : ∀ b, ∀ u ∈ k.arbiter b, u ≠ t := fun b u listed same => absent b (same ▸ listed)
  have kept : ∀ b address, ((k.arbiter b).filter fun u => (k'.thread u).waitAddress = address) =
      k.waitersAt b address := by
    intro b address
    apply List.filter_congr
    intro u listed
    rw [others u (other b u listed)]
  have sorted : ∀ b address, (k.waitersAt b address).Pairwise fun u v =>
      stamp n k k' since u < stamp n k k' since v := by
    intro b address
    refine (h.sorted b address).imp_of_mem fun {u v} first second less => ?_
    rw [before u (other b u (List.mem_of_mem_filter first)),
      before v (other b v (List.mem_of_mem_filter second))]
    exact less
  constructor
  · intro b u listed
    by_cases same : u = t
    · rw [same, now]
      exact Nat.lt_succ_self n
    · rw [before u same]
      have old : u ∈ k.arbiter b := by
        rw [waits.arbiter] at listed
        split_ifs at listed with eq
        · rw [eq]
          exact (List.mem_append.mp listed).resolve_right fun last =>
            same (List.mem_singleton.mp last)
        · exact listed
      exact (h.past b u old).trans (Nat.lt_succ_self n)
  · intro b address
    unfold waitersAt
    rw [waits.arbiter]
    split_ifs with eq
    · rw [List.filter_append, kept]
      refine List.pairwise_append.mpr ⟨sorted a address, ?_, ?_⟩
      · exact (List.pairwise_singleton _ t).filter _
      · intro u first v last
        have single := List.mem_singleton.mp (List.mem_of_mem_filter last)
        have listed := List.mem_of_mem_filter first
        rw [single, now, before u (other a u listed)]
        exact h.past a u listed
    · rw [kept]
      exact sorted b address

theorem Timed.ordered (h : Timed n since k) : Ordered n since k := by
  induction h with
  | start numCores since => exact ⟨nofun, fun _ _ => .nil⟩
  | @step n since k k' action run step ih =>
    have grounded := run.reachable.grounded
    rcases (grounded.step step).2 with changes | waits | creates
    · have opened := grounded.enlisted.keep (opening_keeps k action)
      exact ih.steady (opened.1.trans (changes.enlisted opened.2).1)
    · exact ih.wait grounded.enlisted waits
    · exact ih.steady (creates.enlisted grounded.enlisted).1

theorem Steady.stays (steady : Steady k k') (h : k.Enlisted) (h' : k'.Enlisted)
    (listed : t ∈ k.waitersAt a address) (waits : (k'.thread t).status = .waitArb) :
    t ∈ k'.waitersAt a address := by
  obtain ⟨member, own⟩ := List.mem_filter.mp listed
  obtain ⟨b, inside, _⟩ := h'.listed t waits
  obtain ⟨also, same⟩ := List.mem_filter.mp (steady.listed inside)
  have own : (k.thread t).waitAddress = address := of_decide_eq_true own
  have same : (k.thread t).waitAddress = (k'.thread t).waitAddress := of_decide_eq_true same
  rw [h.one b a t also member] at inside
  rw [← own, same]
  exact mem_waitersAt.mpr inside

theorem Grounded.stays (h : k.Grounded) {action : Action} (step : Step k action k')
    (listed : t ∈ k.waitersAt a address) (waits : (k'.thread t).status = .waitArb) :
    t ∈ k'.waitersAt a address := by
  rcases (h.step step).2 with changes | @⟨_, caller, wait⟩ | creates
  · have opened := h.enlisted.keep (opening_keeps k action)
    have changed := changes.enlisted opened.2
    exact (opened.1.trans changed.1).stays h.enlisted changed.2 listed waits
  · obtain ⟨member, own⟩ := List.mem_filter.mp listed
    have own : (k.thread t).waitAddress = address := of_decide_eq_true own
    have other : t ≠ caller := by
      rintro rfl
      exact h.enlisted.not_listed wait.running a member
    have same := wait.thread.2 t other
    rw [← own, ← same]
    apply mem_waitersAt.mpr
    rw [wait.arbiter]
    split_ifs with eq
    · rw [← eq]
      exact List.mem_append_left _ member
    · exact member
  · have created := creates.enlisted h.enlisted
    exact created.1.stays h.enlisted created.2 listed waits

def Chooses (k : Kernel) (since : ThreadId → Nat) (a address : Nat) (value : Int)
    (woken : List ThreadId) : Prop :=
  if value < 0 then woken = k.waitersAt a address
  else k.Selected since (k.waitersAt a address) value.toNat woken

theorem signal_woke {memory value ns : Int} (enlisted : k.Enlisted) (all : k.AllArbitrated a)
    (sorted : (k.waitersAt a address).Pairwise fun u v => since u < since v) :
    ∃ woken k', k.arbitrateAddress a t .signal address memory value ns = .ok (.ok (), k') ∧
      k.Chooses since a address value woken ∧ Woke k a woken k' := by
  unfold arbitrateAddress Chooses
  dsimp only
  split_ifs with negative
  · obtain ⟨k', run, woke, _⟩ := @resumeAllThreads_woke k a address enlisted all
    rw [run]
    exact ⟨_, k', rfl, rfl, woke⟩
  · obtain ⟨woken, k', run, woke, _, selected⟩ :=
      @resumeFirst_woke k a address value.toNat enlisted all
    rw [run]
    exact ⟨woken, k', rfl, selected since sorted, woke⟩

theorem signal_waits {memory value ns : Int} {reply : ResultVal Unit × Kernel}
    (run : k.arbitrateAddress a t .signal address memory value ns = .ok reply) :
    (∀ u ∈ k.arbiter a, (k.thread u).status = .waitArb) ∨ value = 0 ∧ reply = (.ok (), k) := by
  unfold arbitrateAddress at run
  dsimp only at run
  split_ifs at run with negative
  · obtain ⟨_, first, _⟩ := bind_eq_ok.mp run
    obtain ⟨_, waits, _⟩ := bind_eq_ok.mp first
    exact Or.inl (assert_eq_ok.mp waits)
  · cases count : value.toNat with
    | zero =>
      rw [count] at run
      cases run
      exact Or.inr ⟨by omega, rfl⟩
    | succ n =>
      rw [count] at run
      obtain ⟨_, first, _⟩ := bind_eq_ok.mp run
      obtain ⟨_, second, _⟩ := bind_eq_ok.mp first
      obtain ⟨_, waits, _⟩ := bind_eq_ok.mp second
      exact Or.inl (assert_eq_ok.mp waits)

/-- A signal wakes the right threads and returns if none on the list was stopped, and the lists
keep the order of the waits in every run. -/
theorem arbitration_wakes (timed : Timed n since k) (a address : Nat) :
    (k.waitersAt a address).Pairwise (fun u v => since u < since v) ∧
    (∀ action k', Step k action k' → ∀ u ∈ k.waitersAt a address,
      (k'.thread u).status = .waitArb → u ∈ k'.waitersAt a address) ∧ ∀ t memory value ns,
      ((∀ u ∈ k.arbiter a, (k.thread u).status ≠ .dead) → ∃ k',
        k.arbitrateAddress a t .signal address memory value ns = .ok (.ok (), k')) ∧
      ∀ reply k', k.arbitrateAddress a t .signal address memory value ns = .ok (reply, k') →
        ∃ woken, k.Chooses since a address value woken ∧ Woke k a woken k' := by
  have grounded := timed.reachable.grounded
  have sorted := timed.ordered.sorted a address
  refine ⟨sorted, fun action k' step u => grounded.stays step, fun t memory value ns => ⟨?_, ?_⟩⟩
  · intro alive
    have all := grounded.settled.allArbitrated fun u listed =>
      (grounded.enlisted.status a u listed).resolve_right (alive u listed)
    obtain ⟨_, k', run, _⟩ := signal_woke grounded.enlisted all sorted
    exact ⟨k', run⟩
  · intro reply k' run
    rcases signal_waits run with waits | ⟨rfl, same⟩
    · have all := grounded.settled.allArbitrated waits
      obtain ⟨woken, k₁, run₁, chooses, woke⟩ := signal_woke grounded.enlisted all sorted
      rw [run] at run₁
      cases run₁
      exact ⟨woken, chooses, woke⟩
    · cases same
      refine ⟨[], ?_, nofun, fun _ _ => rfl, fun other => ?_, fun _ _ => rfl⟩
      · exact ⟨(Nat.zero_min _).symm, List.nodup_nil, List.nil_subset _, nofun⟩
      · exact (List.filter_eq_self.mpr fun _ _ => by simp).symm

def firstWaits : Kernel := Action.after waiterRuns (.arbitrateAddress 0 0 .waitIfLessThan 16 0 1 0)

def secondRuns : Kernel :=
  Action.after (Action.after firstWaits (.createThread 1 48 0 true true)) (.reschedule 0)

def bothWait : Kernel := Action.after secondRuns (.arbitrateAddress 0 1 .waitIfLessThan 16 0 1 0)

theorem bothWait_timed : ∃ since, Timed 6 since bothWait := by
  have made : Timed 1 _ waiterMade :=
    (Timed.start 4 fun _ => 0).step (a := Action.createThread 0 48 0 true true)
      ⟨⟨rfl, fun _ => List.not_mem_nil⟩, rfl⟩
  have runs : Timed 2 _ waiterRuns := made.step (a := Action.reschedule 0) ⟨trivial, rfl⟩
  have waits : Timed 3 _ firstWaits :=
    runs.step (a := Action.arbitrateAddress 0 0 .waitIfLessThan 16 0 1 0) ⟨⟨rfl, 0, rfl⟩, rfl⟩
  have creates : Step firstWaits (.createThread 1 48 0 true true)
      (Action.after firstWaits (.createThread 1 48 0 true true)) := by
    refine ⟨⟨rfl, ?_⟩, rfl⟩
    rintro (_ | core)
    · decide
    · exact List.not_mem_nil
  have runs : Timed 5 _ secondRuns :=
    (waits.step creates).step (a := Action.reschedule 0) ⟨trivial, rfl⟩
  exact ⟨_, runs.step (a := Action.arbitrateAddress 0 1 .waitIfLessThan 16 0 1 0)
    ⟨⟨rfl, 0, rfl⟩, rfl⟩⟩

theorem arbitration_wakes_both : ∃ woken k',
    bothWait.arbitrateAddress 0 2 .signal 16 0 1 0 = .ok (.ok (), k') ∧
      woken.length = 1 ∧ Woke bothWait 0 woken k' := by
  obtain ⟨since, timed⟩ := bothWait_timed
  obtain ⟨returns, wakes⟩ := (arbitration_wakes timed 0 16).2.2 2 0 1 0
  obtain ⟨k', run⟩ := returns (by decide)
  obtain ⟨woken, selected, woke⟩ := wakes _ _ run
  exact ⟨woken, k', run, Selected.length selected, woke⟩

end EmuThreeDS.Kernel
