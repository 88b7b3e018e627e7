import EmuThreeDS.Core.Timing
import EmuThreeDS.Lib.Runs

/-!
# Time slices

A core repeats `Advance`, `SetNextSlice` and a slice in which it runs. Time never goes back,
and a slice ends no later than the next event, as long as `Idle` finds no negative downcount:
it sets the downcount to zero, and after an overshoot that takes ticks back.
-/
namespace EmuThreeDS
namespace Timing

/-- Where the core is: before its first slice, after `Advance`, or in a slice. -/
inductive Phase where
  | boundary | advanced | slice
  deriving DecidableEq

inductive Op.Follows : Phase → Op → Phase → Prop where
  | advance {phase : Phase} {script : List (List Edit)} : phase ≠ .advanced →
      Op.Follows phase (.advance script) .advanced
  | setNextSlice {m : Int} : 0 < m → m < 2 ^ 31 →
      Op.Follows .advanced (.setNextSlice m) .slice
  | scheduleEvent {phase : Phase} {current : Bool} {cyclesIntoFuture : Int}
      {type userData : Nat} : phase ≠ .advanced → toS64 cyclesIntoFuture = cyclesIntoFuture →
      Op.Follows phase (.scheduleEvent current cyclesIntoFuture type userData) phase
  | unscheduleEvent {phase : Phase} {type userData : Nat} : phase ≠ .advanced →
      Op.Follows phase (.unscheduleEvent type userData) phase
  | removeEvent {phase : Phase} {type : Nat} : phase ≠ .advanced →
      Op.Follows phase (.removeEvent type) phase
  | addTicks {ticks : Nat} : Op.Follows .slice (.addTicks ticks) .slice
  | forceExceptionCheck {cycles : Int} : Op.Follows .slice (.forceExceptionCheck cycles) .slice
  | idle : Op.Follows .slice .idle .slice

def Fresh (s : Timer × Phase) : Prop :=
  ∃ scale, s = ({ cpuClockScale := scale }, .boundary)

def Op.Step (s : Timer × Phase) (op : Op) (s' : Timer × Phase) : Prop :=
  (∃ fired, op.run s.1 = .ok (fired, s'.1)) ∧ op.Follows s.2 s'.2

abbrev CoreRun := Runs.Reachable Fresh Op.Step

/-- `Idle` finds ticks left, or none, but does not follow an overshoot; and the guest time
stays within an `s64`. -/
def Op.Timely (t : Timer) : Op → Prop
  | .idle => 0 ≤ t.downcount
  | .addTicks ticks => t.now + t.cpuClockScale ticks < 2 ^ 63
  | .setNextSlice m => t.executedTicks + m < 2 ^ 63
  | _ => True

def Timer.EndsInTime (t : Timer) : Prop :=
  ∀ e ∈ t.eventQueue.toList, t.now < e.time → t.executedTicks + t.sliceLength ≤ e.time

structure Timer.Runs (t : Timer) (phase : Phase) : Prop where
  heap : t.Heap
  started : 0 ≤ t.executedTicks
  passed : t.downcount ≤ t.sliceLength
  bounded : t.executedTicks + (t.sliceLength - t.downcount) < 2 ^ 63
  slice_nonneg : 0 ≤ t.sliceLength
  slice_bounded : t.executedTicks + t.sliceLength < 2 ^ 63
  sane : t.isTimerSane = true ↔ phase = .boundary
  still : phase ≠ .slice → t.downcount = t.sliceLength
  ahead : phase = .advanced → t.Ahead
  ends : phase = .slice → t.EndsInTime

theorem toS64_bounds (x : Int) : -2 ^ 63 ≤ toS64 x ∧ toS64 x < 2 ^ 63 := by
  constructor
  · exact Int.le_bmod (by decide)
  · exact Int.bmod_lt (by decide)

theorem toU64_eq {x : Int} (low : 0 ≤ x) (high : x < 2 ^ 63) : toU64 x = x :=
  Int.emod_eq_of_lt low (by omega)

namespace Timer

variable {t t' : Timer} {phase : Phase}

theorem Runs.now_eq (h : t.Runs phase) :
    t.now = t.executedTicks + (t.sliceLength - t.downcount) := by
  unfold Timer.now
  split_ifs with sane
  · rw [h.still (by rw [h.sane.mp sane]; decide), Int.sub_self]
  · rfl

theorem Runs.getTicks_eq (h : t.Runs phase) :
    t.getTicks = t.executedTicks + (t.sliceLength - t.downcount) := by
  have passed := h.passed
  have started := h.started
  unfold Timer.getTicks
  rw [h.now_eq, toU64_eq (by omega) h.bounded]

theorem Runs.requeue (h : t.Runs phase) (same : SameClock t t') (heap : t'.Heap)
    (other : phase ≠ .advanced) (ends : phase = .slice → t'.EndsInTime) : t'.Runs phase where
  heap := heap
  started := same.executed ▸ h.started
  passed := by rw [same.down, same.slice]; exact h.passed
  bounded := by rw [same.executed, same.down, same.slice]; exact h.bounded
  slice_nonneg := same.slice ▸ h.slice_nonneg
  slice_bounded := by rw [same.executed, same.slice]; exact h.slice_bounded
  sane := same.sane ▸ h.sane
  still := by rw [same.down, same.slice]; exact h.still
  ahead := fun advanced => absurd advanced other
  ends := ends

theorem EndsInTime.of_subset (h : t.EndsInTime) (same : SameClock t t')
    (fewer : ∀ e ∈ t'.eventQueue.toList, e ∈ t.eventQueue.toList) : t'.EndsInTime := by
  intro e member future
  rw [same.now] at future
  rw [same.executed, same.slice]
  exact h e (fewer e member) future

theorem removeIf_subset (t : Timer) (p : Event → Bool) :
    ∀ e ∈ (t.removeIf p).eventQueue.toList, e ∈ t.eventQueue.toList := fun _ member =>
  (List.mem_filter.mp ((removeIf_perm t p).subset member)).1

theorem Runs.removeIf (h : t.Runs phase) (other : phase ≠ .advanced) (p : Event → Bool) :
    (t.removeIf p).Runs phase :=
  h.requeue (removeIf_clock t p) (h.heap.removeIf p) other fun slice =>
    (h.ends slice).of_subset (removeIf_clock t p) (removeIf_subset t p)

theorem Runs.forceExceptionCheck (h : t.Runs .slice) (cycles : Int) :
    (t.forceExceptionCheck cycles).Runs .slice := by
  have passed := h.passed
  have bounded' := h.slice_bounded
  have ends := h.ends rfl
  unfold Timer.forceExceptionCheck
  dsimp only
  split_ifs with long
  · refine ⟨h.heap, h.started, ?_, ?_, ?_, ?_, h.sane, nofun, nofun, fun _ => ?_⟩
    · dsimp only
      omega
    · dsimp only
      omega
    · dsimp only
      omega
    · dsimp only
      omega
    · intro e member future
      have same := forceExceptionCheck_now (t := t) cycles
      unfold Timer.forceExceptionCheck at same
      rw [if_pos long] at same
      rw [same] at future
      have order := ends e member future
      dsimp only
      omega
  · exact h

theorem forceExceptionCheck_down (t : Timer) (cycles : Int) :
    (t.forceExceptionCheck cycles).downcount ≤ max 0 cycles := by
  unfold Timer.forceExceptionCheck
  dsimp only
  split_ifs with long
  · exact le_refl _
  · exact not_lt.mp long

/-- The new event is no earlier than the end of the slice, unless it lies in the past. -/
theorem Runs.enqueue (h : t.Runs phase) (other : phase ≠ .advanced) (e : Event)
    (later : phase = .slice → t.now < e.time → t.executedTicks + t.sliceLength ≤ e.time) :
    (t.enqueue e).Runs phase := by
  apply h.requeue (enqueue_clock t e) (h.heap.enqueue e) other
  intro slice f member future
  rcases List.mem_cons.mp ((enqueue_perm t e).subset member) with rfl | old
  · exact later slice future
  · exact h.ends slice f old future

theorem Runs.scheduleEvent (h : t.Runs phase) (other : phase ≠ .advanced) (current : Bool)
    {cycles : Int} (isS64 : toS64 cycles = cycles) (type userData : Nat) :
    (t.scheduleEvent current cycles type userData).Runs phase := by
  unfold Timer.scheduleEvent
  cases current with
  | false => exact h.requeue ⟨rfl, rfl, rfl, rfl⟩ h.heap other h.ends
  | true =>
    rw [if_pos rfl]
    split_ifs with sane
    · apply h.enqueue other
      intro slice
      rw [h.sane.mp sane] at slice
      cases slice
    · have slice : phase = .slice := by
        cases phase with
        | boundary => exact absurd (h.sane.mpr rfl) sane
        | advanced => exact absurd rfl other
        | slice => rfl
      subst slice
      have checked := h.forceExceptionCheck cycles
      apply checked.enqueue other
      intro _ future
      have down := forceExceptionCheck_down t cycles
      have passed := h.passed
      have started := h.started
      have bounded := h.bounded
      have range := toS64_bounds cycles
      rw [h.getTicks_eq] at future ⊢
      rw [forceExceptionCheck_now, h.now_eq] at future
      have same := checked.now_eq
      rw [forceExceptionCheck_now, h.now_eq] at same
      -- a sum that does not fit lands in the past
      by_cases fits : t.executedTicks + (t.sliceLength - t.downcount) + cycles < 2 ^ 63
      · rw [toS64_eq (by omega) fits] at future ⊢
        dsimp only at future ⊢
        omega
      · have wrapped : toS64 (t.executedTicks + (t.sliceLength - t.downcount) + cycles) =
            t.executedTicks + (t.sliceLength - t.downcount) + cycles - 2 ^ 64 := by
          unfold toS64
          rw [← Int.sub_bmod_right]
          apply Int.bmod_eq_of_le <;> omega
        dsimp only at future
        omega

theorem Runs.addTicks_eq (h : t.Runs .slice) {ticks : Nat}
    (timely : t.now + t.cpuClockScale ticks < 2 ^ 63) :
    t.addTicks ticks = { t with downcount := t.downcount - t.cpuClockScale ticks } := by
  have passed := h.passed
  have started := h.started
  have bounded := h.slice_bounded
  have nonneg := h.slice_nonneg
  rw [h.now_eq] at timely
  unfold Timer.addTicks
  rw [toS64_eq (by omega) (by omega)]

theorem Runs.addTicks (h : t.Runs .slice) {ticks : Nat}
    (timely : t.now + t.cpuClockScale ticks < 2 ^ 63) : (t.addTicks ticks).Runs .slice := by
  have passed := h.passed
  have ends := h.ends rfl
  have notSane : ¬ t.isTimerSane = true := fun sane => by cases h.sane.mp sane
  rw [h.addTicks_eq timely]
  rw [h.now_eq] at timely
  refine ⟨h.heap, h.started, ?_, ?_, h.slice_nonneg, h.slice_bounded, h.sane, nofun, nofun,
    fun _ => ?_⟩
  · dsimp only
    omega
  · dsimp only
    omega
  · intro e member future
    apply ends e member
    unfold Timer.now at future ⊢
    dsimp only at future
    rw [if_neg notSane] at future ⊢
    omega

theorem Runs.idle (h : t.Runs .slice) (timely : 0 ≤ t.downcount) : t.idle.Runs .slice := by
  have bounded := h.slice_bounded
  have nonneg := h.slice_nonneg
  have ends := h.ends rfl
  have notSane : ¬ t.isTimerSane = true := fun sane => by cases h.sane.mp sane
  refine ⟨h.heap, h.started, nonneg, ?_, nonneg, bounded, h.sane, nofun, nofun, fun _ => ?_⟩
  · unfold Timer.idle
    dsimp only
    omega
  · intro e member future
    apply ends e member
    unfold Timer.now Timer.idle at *
    dsimp only at future
    rw [if_neg notSane] at future ⊢
    omega

theorem Runs.advance (h : t.Runs phase) {script : List (List Edit)} {fired : List Fired}
    (run : t.advance script = .ok (fired, t')) : t'.Runs .advanced := by
  obtain ⟨heap, ahead, sane, slice, down, executed⟩ := advance_settles h.heap run
  have started := h.started
  have passed := h.passed
  have bounded := h.bounded
  refine ⟨heap, by omega, by omega, by omega, by omega, by omega, ?_, fun _ => by omega,
    fun _ => ahead, nofun⟩
  rw [sane]
  exact ⟨nofun, nofun⟩

theorem Runs.setNextSlice (h : t.Runs .advanced) {m : Int} (positive : 0 < m)
    (small : m < 2 ^ 31) (timely : t.executedTicks + m < 2 ^ 63) :
    (t.setNextSlice m).Runs .slice := by
  have ahead := h.ahead rfl
  have notSane : ¬ t.isTimerSane = true := fun sane => by cases h.sane.mp sane
  -- any length that ends no later than the events will do
  have any : ∀ length : Int, 0 < length → length ≤ m →
      (∀ e ∈ t.eventQueue.toList, t.executedTicks + length ≤ e.time) →
      ({ t with sliceLength := length, downcount := length } : Timer).Runs .slice := by
    intro length long short ends
    refine ⟨h.heap, h.started, le_refl _, ?_, ?_, ?_, ?_, nofun, nofun, fun _ => ?_⟩
    · dsimp only
      omega
    · exact le_of_lt long
    · dsimp only
      omega
    · exact ⟨fun sane => absurd sane notSane, nofun⟩
    · exact fun e member _ => ends e member
  unfold Timer.setNextSlice
  cases front : t.eventQueue[0]? with
  | none =>
    apply any m positive (le_refl m)
    intro e member
    have none : t.eventQueue.toList.length = 0 := by simpa using front
    rw [List.length_eq_zero_iff.mp none] at member
    cases member
  | some next =>
    obtain ⟨nonempty, rfl⟩ := Array.getElem?_eq_some_iff.mp front
    have later := ahead _ (Array.getElem_mem_toList nonempty)
    have whole : toInt (min (t.eventQueue[0].time - t.executedTicks) m) =
        min (t.eventQueue[0].time - t.executedTicks) m := by
      apply Int.bmod_eq_of_le <;> omega
    dsimp only
    apply any _ (by omega) (by omega)
    intro e member
    have order := h.heap.front_time_le front member
    omega

end Timer

theorem fresh_runs {s : Timer × Phase} (fresh : Fresh s) : s.1.Runs s.2 := by
  obtain ⟨scale, rfl⟩ := fresh
  refine ⟨Timer.heap_nil rfl, le_refl _, le_refl _, ?_, ?_, ?_, ⟨fun _ => rfl, fun _ => rfl⟩,
    fun _ => rfl, nofun, nofun⟩
  · show (0 : Int) + (maxSliceLength - maxSliceLength) < 2 ^ 63
    decide
  · show 0 ≤ maxSliceLength
    decide
  · show 0 + maxSliceLength < 2 ^ 63
    decide

theorem Op.Step.forward {s s' : Timer × Phase} {op : Op} (h : s.1.Runs s.2) (step : op.Step s s')
    (timely : op.Timely s.1) : s'.1.Runs s'.2 ∧ s.1.getTicks ≤ s'.1.getTicks := by
  obtain ⟨t, phase⟩ := s
  obtain ⟨t', phase'⟩ := s'
  obtain ⟨⟨fired, run⟩, follows⟩ := step
  dsimp only at h timely run follows ⊢
  suffices next : t'.Runs phase' ∧ t.now ≤ t'.now by
    refine ⟨next.1, ?_⟩
    rw [h.getTicks_eq, next.1.getTicks_eq, ← h.now_eq, ← next.1.now_eq]
    exact next.2
  cases follows with
  | advance other =>
    have next := h.advance run
    refine ⟨next, ?_⟩
    obtain ⟨_, _, _, slice, down, executed⟩ := Timer.advance_settles h.heap run
    rw [h.now_eq, next.now_eq]
    omega
  | setNextSlice positive small =>
    cases run
    have next := h.setNextSlice positive small timely
    refine ⟨next, ?_⟩
    have still := h.still (by decide)
    rw [h.now_eq, next.now_eq]
    unfold Timer.setNextSlice
    dsimp only
    omega
  | @scheduleEvent _ current cycles _ _ other isS64 =>
    cases run
    refine ⟨h.scheduleEvent other current isS64 _ _, ?_⟩
    unfold Timer.scheduleEvent
    cases current with
    | false => exact le_refl _
    | true =>
      rw [if_pos rfl, (Timer.enqueue_clock _ _).now]
      split_ifs
      · exact le_refl _
      · rw [Timer.forceExceptionCheck_now]
  | unscheduleEvent other | removeEvent other =>
    cases run
    exact ⟨h.removeIf other _, le_of_eq (Timer.removeIf_clock t _).now.symm⟩
  | addTicks =>
    cases run
    have next := h.addTicks timely
    refine ⟨next, ?_⟩
    rw [h.now_eq, next.now_eq, h.addTicks_eq timely]
    dsimp only
    omega
  | forceExceptionCheck =>
    cases run
    exact ⟨h.forceExceptionCheck _, le_of_eq (Timer.forceExceptionCheck_now _).symm⟩
  | idle =>
    cases run
    have next := h.idle timely
    have timely : 0 ≤ t.downcount := timely
    refine ⟨next, ?_⟩
    rw [h.now_eq, next.now_eq]
    unfold Timer.idle
    dsimp only
    omega

theorem idle_forward_iff {t : Timer} (h : t.Runs .slice) :
    t.getTicks ≤ t.idle.getTicks ↔ 0 ≤ t.downcount := by
  have notSane : ¬ t.isTimerSane = true := fun sane => by cases h.sane.mp sane
  have started := h.started
  have nonneg := h.slice_nonneg
  have bounded := h.slice_bounded
  have after : t.idle.now = t.executedTicks + t.sliceLength := by
    unfold Timer.now Timer.idle
    rw [if_neg notSane, Int.sub_zero]
  rw [h.getTicks_eq]
  unfold Timer.getTicks
  rw [after, toU64_eq (by omega) bounded]
  omega

/-- In a slice no future event comes before its end, and no timely call takes time back; a call
of `Idle` takes it back just when it is not timely. -/
theorem time_forward {s : Timer × Phase} (h : CoreRun (fun s op => op.Timely s.1) s) :
    (s.2 = .slice → s.1.EndsInTime) ∧
      (∀ op s', Op.Step s op s' → op.Timely s.1 → s.1.getTicks ≤ s'.1.getTicks) ∧
      ∀ s', Op.Step s .idle s' → (s.1.getTicks ≤ s'.1.getTicks ↔ Op.idle.Timely s.1) := by
  have runs : s.1.Runs s.2 := by
    apply h.invariant
    · exact fun _ => fresh_runs
    · exact fun _ _ _ runs timely step => (Op.Step.forward runs step timely).1
  refine ⟨runs.ends, fun op s' step timely => (Op.Step.forward runs step timely).2, ?_⟩
  rintro ⟨t', phase'⟩ ⟨⟨fired, run⟩, follows⟩
  obtain ⟨t, phase⟩ := s
  cases follows
  cases run
  exact idle_forward_iff runs

def sleepTimer : Timer := ({} : Timer).scheduleEvent true 200 7 0

def dueSlice (executedTicks downcount : Int) : Timer :=
  { sleepTimer with
    isTimerSane := false, executedTicks, sliceLength := 200 - executedTicks, downcount }

/-- 150 ticks of the first slice pass, and the second one has the other 50. -/
theorem time_forward_event : (dueSlice 150 50).EndsInTime ∧
    (dueSlice 150 50).getTicks ≤ (dueSlice 150 20).getTicks := by
  have start : CoreRun (fun s op => op.Timely s.1) ({}, .boundary) := .start ⟨id, rfl⟩
  have due : CoreRun _ (sleepTimer, .boundary) := start.step (a := Op.scheduleEvent true 200 7 0)
    trivial ⟨⟨[], rfl⟩, .scheduleEvent (by decide) rfl⟩
  have advanced : CoreRun _ ({ dueSlice 0 0 with sliceLength := 0 }, .advanced) :=
    due.step (a := Op.advance []) trivial ⟨⟨[], rfl⟩, .advance (by decide)⟩
  have slice : CoreRun _ (dueSlice 0 200, .slice) := advanced.step (a := Op.setNextSlice 1000)
    (show (0 : Int) + 1000 < 2 ^ 63 by decide) ⟨⟨[], rfl⟩, .setNextSlice (by decide) (by decide)⟩
  have passed : CoreRun _ (dueSlice 0 50, .slice) := slice.step (a := Op.addTicks 150)
    (show (0 : Int) + 150 < 2 ^ 63 by decide) ⟨⟨[], rfl⟩, .addTicks⟩
  have again : CoreRun _ ({ dueSlice 150 0 with sliceLength := 0 }, .advanced) :=
    passed.step (a := Op.advance []) trivial ⟨⟨[], rfl⟩, .advance (by decide)⟩
  have last : CoreRun _ (dueSlice 150 50, .slice) := again.step (a := Op.setNextSlice 1000)
    (show (150 : Int) + 1000 < 2 ^ 63 by decide) ⟨⟨[], rfl⟩, .setNextSlice (by decide) (by decide)⟩
  obtain ⟨ends, forward, _⟩ := time_forward last
  exact ⟨ends rfl, forward (.addTicks 30) (dueSlice 150 20, .slice) ⟨⟨[], rfl⟩, .addTicks⟩
    (show (150 : Int) + 30 < 2 ^ 63 by decide)⟩

def advancedTimer : Timer := { isTimerSane := false, sliceLength := 0, downcount := 0 }

theorem advancedTimer_step : Op.Step ({}, .boundary) (.advance []) (advancedTimer, .advanced) :=
  ⟨⟨[], rfl⟩, .advance (by decide)⟩

def firstSlice (ticks : Int) : Timer := { advancedTimer with sliceLength := 100, downcount := ticks }

theorem firstSlice_step :
    Op.Step (advancedTimer, .advanced) (.setNextSlice 100) (firstSlice 100, .slice) :=
  ⟨⟨[], rfl⟩, .setNextSlice (by decide) (by decide)⟩

/-- 150 ticks in a slice of 100, and then `Idle`: the clock goes from 150 back to 100. -/
theorem time_forward_fails : ¬ ∀ s, CoreRun (fun _ _ => True) s → ∀ op s', Op.Step s op s' →
    s.1.getTicks ≤ s'.1.getTicks := by
  intro all
  have start : CoreRun (fun _ _ => True) ({}, .boundary) := .start ⟨id, rfl⟩
  have advanced := start.step (a := Op.advance []) trivial advancedTimer_step
  have slice := advanced.step (a := Op.setNextSlice 100) trivial firstSlice_step
  have overshoot : Op.Step (firstSlice 100, .slice) (.addTicks 150) (firstSlice (-50), .slice) :=
    ⟨⟨[], rfl⟩, .addTicks⟩
  have idle : Op.Step (firstSlice (-50), .slice) .idle ((firstSlice (-50)).idle, .slice) :=
    ⟨⟨[], rfl⟩, .idle⟩
  have back := all _ (slice.step (a := Op.addTicks 150) trivial overshoot) .idle _ idle
  revert back
  decide

end Timing
end EmuThreeDS
