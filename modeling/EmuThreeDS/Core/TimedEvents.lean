import EmuThreeDS.Core.Timing
import EmuThreeDS.Lib.Runs
import Mathlib.Data.Set.Finite.Lattice

/-!
# Timed events

Every event scheduled is fired, cancelled or still queued, and just one of these. `Advance`
fires the events that are due in order. It tells each callback how late it is in an `int`,
and a callback that schedules so far ahead that the sum wraps schedules into the past.
-/
namespace EmuThreeDS
namespace Timing

structure Log where
  created : List Event := []
  cancelled : List Event := []
  fired : List Fired := []

instance : Append Log where
  append a b :=
    { created := a.created ++ b.created
      cancelled := a.cancelled ++ b.cancelled
      fired := a.fired ++ b.fired }

def Log.events (log : Log) : List Event := log.fired.map Fired.event

def Edit.log (t : Timer) : Edit → Log
  | .scheduleEvent cyclesIntoFuture type userData =>
    { created := [{ time := toS64 (t.getTicks + cyclesIntoFuture), fifoOrder := t.eventFifoId,
                    userData, type }] }
  | .unscheduleEvent type userData =>
    { cancelled := t.eventQueue.toList.filter fun e => e.type = type && e.userData = userData }
  | .removeEvent type => { cancelled := t.eventQueue.toList.filter fun e => e.type = type }

def Edit.logAll : Timer → List Edit → Log
  | _, [] => {}
  | t, edit :: rest => edit.log t ++ Edit.logAll (edit.run t) rest

def Timer.fireLog : List (List Edit) → Timer → Log
  | script, t =>
    match t.eventQueue[0]? with
    | none => {}
    | some evt =>
      if evt.time ≤ t.executedTicks then
        match script with
        | [] => {}
        | edits :: rest =>
          { fired := [⟨evt, toInt (t.executedTicks - evt.time)⟩] : Log } ++
            (Edit.logAll t.popped edits ++ fireLog rest (edits.foldl Edit.run t.popped))
      else {}

def Timer.fireStates : List (List Edit) → Timer → List Timer
  | script, t =>
    match t.eventQueue[0]? with
    | none => []
    | some evt =>
      if evt.time ≤ t.executedTicks then
        match script with
        | [] => []
        | edits :: rest =>
          edits.scanl Edit.run t.popped ++ fireStates rest (edits.foldl Edit.run t.popped)
      else []

def Op.log (t : Timer) : Op → Log
  | .scheduleEvent _ cyclesIntoFuture type userData =>
    Edit.log t (.scheduleEvent cyclesIntoFuture type userData)
  | .unscheduleEvent type userData => Edit.log t (.unscheduleEvent type userData)
  | .removeEvent type => Edit.log t (.removeEvent type)
  | .advance script => t.startAdvance.fireLog script
  | _ => {}

def Edit.Forward : Edit → Prop
  | .scheduleEvent cyclesIntoFuture _ _ => 0 ≤ cyclesIntoFuture
  | _ => True

/-- Events are scheduled on the current core, with delays that are not negative. -/
def Op.Forward : Op → Prop
  | .scheduleEvent current cyclesIntoFuture _ _ => current = true ∧ 0 ≤ cyclesIntoFuture
  | .advance script => ∀ edits ∈ script, ∀ edit ∈ edits, edit.Forward
  | _ => True

def Edit.Fits (ticks : Int) : Edit → Prop
  | .scheduleEvent cyclesIntoFuture _ _ =>
    -2 ^ 63 ≤ ticks + cyclesIntoFuture ∧ ticks + cyclesIntoFuture < 2 ^ 63
  | _ => True

/-- No queued event is later than an `int` can say when `Advance` is called, and what its
callbacks schedule fits. -/
def Op.Prompt (t : Timer) : Op → Prop
  | .advance script =>
    (∀ e ∈ t.eventQueue.toList, t.startAdvance.executedTicks - e.time < 2 ^ 31) ∧
      ∀ edits ∈ script, ∀ edit ∈ edits, edit.Fits t.startAdvance.executedTicks
  | _ => True

abbrev EventRun (allowed : Timer → Op → Prop) :=
  Runs.Reachable (fun s : Timer × Log => ∃ scale, s = ({ cpuClockScale := scale }, {}))
    (fun s op s' => (∃ fired, op.run s.1 = .ok (fired, s'.1)) ∧ s'.2 = s.2 ++ op.log s.1)
    (fun s op => allowed s.1 op)

/-- The events have numbers of their own, from `lo` up to `hi`. -/
structure Numbered (lo hi : Nat) (events : List Event) : Prop where
  ordered : lo ≤ hi
  distinct : (events.map Event.fifoOrder).Nodup
  bounds : ∀ e ∈ events, lo ≤ e.fifoOrder ∧ e.fifoOrder < hi

structure Account (t : Timer) (log : Log) (t' : Timer) : Prop where
  balance : (t.eventQueue.toList ++ log.created).Perm
    (log.events ++ log.cancelled ++ t'.eventQueue.toList)
  numbered : Numbered t.eventFifoId t'.eventFifoId log.created
  settled : t'.tsQueue = t.tsQueue

/-- `Advance` invokes the callbacks of the events that are due in order, and of no others. -/
structure Fires (log : Log) (fired : List Fired) (t' : Timer) : Prop where
  logged : log.fired = fired
  ordered : fired.Pairwise fun a b => a.event.key ≤ b.event.key
  due : ∀ f ∈ fired, f.event.time ≤ t'.executedTicks ∧
    f.cyclesLate = t'.executedTicks - f.event.time
  ahead : t'.Ahead

theorem Numbered.none (n : Nat) : Numbered n n [] :=
  ⟨le_refl n, List.nodup_nil, fun _ none => absurd none List.not_mem_nil⟩

theorem Numbered.one (n : Nat) {e : Event} (own : e.fifoOrder = n) : Numbered n (n + 1) [e] := by
  refine ⟨Nat.le_succ n, List.pairwise_singleton _ _, ?_⟩
  intro f member
  rw [List.mem_singleton.mp member, own]
  exact ⟨le_refl n, Nat.lt_succ_self n⟩

theorem Numbered.append {a b c : Nat} {events later : List Event} (h : Numbered a b events)
    (h' : Numbered b c later) : Numbered a c (events ++ later) := by
  refine ⟨le_trans h.ordered h'.ordered, ?_, ?_⟩
  · rw [List.map_append]
    refine List.nodup_append.mpr ⟨h.distinct, h'.distinct, ?_⟩
    rintro n here m there rfl
    obtain ⟨e, member, rfl⟩ := List.mem_map.mp here
    obtain ⟨f, member', same⟩ := List.mem_map.mp there
    have := (h.bounds e member).2
    have := (h'.bounds f member').1
    omega
  · intro e member
    have := h.ordered
    have := h'.ordered
    rcases List.mem_append.mp member with early | late
    · have := h.bounds e early
      omega
    · have := h'.bounds e late
      omega

variable {k : ℤ ×ₗ ℕ} {t t' : Timer} {script : List (List Edit)} {fired : List Fired}

theorem Account.refl (t : Timer) : Account t {} t :=
  ⟨by rw [List.append_nil]; rfl, Numbered.none _, rfl⟩

theorem Account.trans {t'' : Timer} {log log' : Log} (h : Account t log t')
    (h' : Account t' log' t'') : Account t (log ++ log') t'' := by
  refine ⟨?_, h.numbered.append h'.numbered, h'.settled.trans h.settled⟩
  have first := List.perm_iff_count.mp h.balance
  have second := List.perm_iff_count.mp h'.balance
  apply List.perm_iff_count.mpr
  intro e
  have first := first e
  have second := second e
  have events : (log ++ log').events = log.events ++ log'.events := List.map_append
  have created : (log ++ log').created = log.created ++ log'.created := rfl
  have cancelled : (log ++ log').cancelled = log.cancelled ++ log'.cancelled := rfl
  rw [events, created, cancelled]
  simp only [List.count_append] at *
  omega

theorem Account.of_same (queue : t'.eventQueue = t.eventQueue)
    (fifo : t'.eventFifoId = t.eventFifoId) (ts : t'.tsQueue = t.tsQueue) : Account t {} t' := by
  refine ⟨?_, ?_, ts⟩
  · rw [queue, List.append_nil]
    rfl
  · rw [fifo]
    exact Numbered.none _

theorem enqueue_account (t : Timer) (e : Event) :
    Account t { created := [{ e with fifoOrder := t.eventFifoId }] } (t.enqueue e) where
  balance := (List.perm_append_singleton _ _).trans (Timer.enqueue_perm t e).symm
  numbered := Numbered.one _ rfl
  settled := rfl

theorem removeIf_account (t : Timer) (p : Event → Bool) :
    Account t { cancelled := t.eventQueue.toList.filter p } (t.removeIf p) where
  balance := by
    rw [List.append_nil]
    refine List.Perm.trans ?_ (List.Perm.append_left _ (Timer.removeIf_perm t p).symm)
    exact (List.filter_append_perm p _).symm
  numbered := by
    rw [Timer.removeIf_fifo]
    exact Numbered.none _
  settled := by
    unfold Timer.removeIf
    split_ifs <;> rfl

theorem Edit.account (t : Timer) (edit : Edit) : Account t (edit.log t) (edit.run t) := by
  cases edit with
  | scheduleEvent cycles type userData =>
    unfold Edit.run Timer.scheduleEvent
    dsimp only
    rw [if_pos rfl]
    split_ifs
    · exact enqueue_account t { time := toS64 (t.getTicks + cycles), fifoOrder := 0,
                                userData := userData, type := type }
    · have checked : Account t {} (t.forceExceptionCheck cycles) :=
        Account.of_same (Timer.forceExceptionCheck_queue cycles)
          (Timer.forceExceptionCheck_fifo cycles) (Timer.forceExceptionCheck_tsQueue cycles)
      have joined := enqueue_account (t.forceExceptionCheck cycles)
        { time := toS64 (t.getTicks + cycles), fifoOrder := 0, userData := userData,
          type := type }
      rw [Timer.forceExceptionCheck_fifo] at joined
      exact checked.trans joined
  | unscheduleEvent type userData | removeEvent type => exact removeIf_account ..

theorem Edit.accountAll (t : Timer) (edits : List Edit) :
    Account t (Edit.logAll t edits) (edits.foldl Edit.run t) := by
  induction edits generalizing t with
  | nil => exact Account.refl t
  | cons edit rest ih => exact (edit.account t).trans (ih _)

theorem pop_account {e : Event} (late : Int) (front : t.eventQueue[0]? = some e) :
    Account t { fired := [⟨e, late⟩] } t.popped where
  balance := by
    rw [List.append_nil]
    exact (Timer.pop_perm front).symm
  numbered := Numbered.none _
  settled := rfl

theorem fireLog_stop (stop : ∀ e, t.eventQueue[0]? = some e → ¬ e.time ≤ t.executedTicks) :
    t.fireLog script = {} := by
  unfold Timer.fireLog
  cases front : t.eventQueue[0]? with
  | none => rfl
  | some e =>
    dsimp only
    rw [if_neg (stop e front)]

theorem fireLog_fire {e : Event} {edits : List Edit} (front : t.eventQueue[0]? = some e)
    (due : e.time ≤ t.executedTicks) :
    t.fireLog (edits :: script) =
      { fired := [⟨e, toInt (t.executedTicks - e.time)⟩] : Log } ++
        (Edit.logAll t.popped edits ++ (edits.foldl Edit.run t.popped).fireLog script) := by
  rw [Timer.fireLog, front]
  dsimp only
  rw [if_pos due]

theorem fireEvents_account (run : t.fireEvents script = .ok (fired, t')) :
    Account t (t.fireLog script) t' := by
  induction script generalizing t fired with
  | nil =>
    obtain ⟨rfl, rfl, stop⟩ | ⟨_, _, _, _, none, _⟩ := Timer.fireEvents_cases run
    · rw [fireLog_stop stop]
      exact Account.refl _
    · cases none
  | cons edits rest ih =>
    obtain ⟨rfl, rfl, stop⟩ | ⟨e, _, _, more, same, front, due, rfl, later⟩ :=
      Timer.fireEvents_cases run
    · rw [fireLog_stop stop]
      exact Account.refl _
    · cases same
      rw [fireLog_fire front due]
      exact (pop_account _ front).trans ((Edit.accountAll _ edits).trans (ih later))

/-- While `Advance` fires events: no queued event comes before `k`, nor does a new one. -/
structure Firing (k : ℤ ×ₗ ℕ) (t : Timer) : Prop where
  heap : t.Heap
  sane : t.isTimerSane = true
  numbered : ∀ e ∈ t.eventQueue.toList, e.fifoOrder < t.eventFifoId
  late : ∀ e ∈ t.eventQueue.toList, t.executedTicks - e.time < 2 ^ 31
  low : ∀ e ∈ t.eventQueue.toList, k ≤ e.key
  new : k ≤ toLex (t.executedTicks, t.eventFifoId)

theorem toS64_toU64 (x y : Int) : toS64 (toU64 x + y) = toS64 (x + y) := by
  exact Int.emod_add_bmod x (2 ^ 64)

theorem Firing.removeIf (h : Firing k t) (p : Event → Bool) : Firing k (t.removeIf p) := by
  have clock := Timer.removeIf_clock t p
  have old : ∀ e ∈ (t.removeIf p).eventQueue.toList, e ∈ t.eventQueue.toList := fun e member =>
    (List.mem_filter.mp ((Timer.removeIf_perm t p).subset member)).1
  refine ⟨h.heap.removeIf p, clock.sane.trans h.sane, ?_, ?_, ?_, ?_⟩
  · intro e member
    rw [Timer.removeIf_fifo]
    exact h.numbered e (old e member)
  · intro e member
    rw [clock.executed]
    exact h.late e (old e member)
  · exact fun e member => h.low e (old e member)
  · rw [clock.executed, Timer.removeIf_fifo]
    exact h.new

theorem Firing.enqueue (h : Firing k t) (e : Event) (later : t.executedTicks ≤ e.time) :
    Firing k (t.enqueue e) := by
  have joined := Timer.enqueue_perm t e
  have after : k ≤ toLex (e.time, t.eventFifoId) := by
    refine le_trans h.new ?_
    apply Prod.Lex.toLex_le_toLex.mpr
    omega
  refine ⟨h.heap.enqueue e, h.sane, ?_, ?_, ?_, ?_⟩
  · intro f member
    rcases List.mem_cons.mp (joined.subset member) with rfl | old
    · exact Nat.lt_succ_self _
    · exact Nat.lt_succ_of_lt (h.numbered f old)
  · intro f member
    rcases List.mem_cons.mp (joined.subset member) with rfl | old
    · dsimp only [Timer.enqueue]
      omega
    · exact h.late f old
  · intro f member
    rcases List.mem_cons.mp (joined.subset member) with rfl | old
    · exact after
    · exact h.low f old
  · refine le_trans h.new ?_
    apply Prod.Lex.toLex_le_toLex.mpr
    exact Or.inr ⟨rfl, Nat.le_succ _⟩

theorem Firing.edit (h : Firing k t) (edit : Edit) (forward : edit.Forward)
    (fits : edit.Fits t.executedTicks) : Firing k (edit.run t) := by
  cases edit with
  | scheduleEvent cycles type userData =>
    have now : t.now = t.executedTicks := by
      unfold Timer.now
      rw [if_pos h.sane, Int.add_zero]
    have time : toS64 (t.getTicks + cycles) = t.executedTicks + cycles := by
      unfold Timer.getTicks
      rw [toS64_toU64, now, toS64_eq fits.1 fits.2]
    unfold Edit.run Timer.scheduleEvent
    dsimp only
    rw [if_pos h.sane]
    apply h.enqueue
    rw [time]
    exact Int.le_add_of_nonneg_right forward
  | unscheduleEvent type userData | removeEvent type => exact h.removeIf _

theorem Firing.edits (h : Firing k t) {edits : List Edit} (forward : ∀ edit ∈ edits, edit.Forward)
    (fits : ∀ edit ∈ edits, edit.Fits t.executedTicks) : Firing k (edits.foldl Edit.run t) := by
  induction edits generalizing t with
  | nil => exact h
  | cons edit rest ih =>
    obtain ⟨forward, later⟩ := List.forall_mem_cons.mp forward
    obtain ⟨fits, laterFits⟩ := List.forall_mem_cons.mp fits
    have next := h.edit edit forward fits
    have clock := (Timer.Edit.run_spec h.heap h.sane edit).2
    rw [← clock.executed] at laterFits
    exact ih next later laterFits

theorem Firing.pop {e : Event} (h : Firing k t) (front : t.eventQueue[0]? = some e)
    (due : e.time ≤ t.executedTicks) : k ≤ e.key ∧ Firing e.key t.popped := by
  have split := Timer.pop_perm front
  have old : ∀ f ∈ t.popped.eventQueue.toList, f ∈ t.eventQueue.toList :=
    fun _ member => split.subset (List.mem_cons_of_mem _ member)
  have member := split.subset List.mem_cons_self
  refine ⟨h.low _ member, h.heap.pop, h.sane, ?_, ?_, ?_, ?_⟩
  · exact fun e later => h.numbered e (old e later)
  · exact fun e later => h.late e (old e later)
  · exact fun e later => h.heap.front_le front (old e later)
  · apply Prod.Lex.toLex_le_toLex.mpr
    have := h.numbered _ member
    dsimp only [Timer.popped]
    omega

theorem Edit.logAll_fired (t : Timer) (edits : List Edit) : (Edit.logAll t edits).fired = [] := by
  induction edits generalizing t with
  | nil => rfl
  | cons edit rest ih =>
    show (edit.log t).fired ++ (Edit.logAll (edit.run t) rest).fired = []
    rw [ih]
    cases edit <;> rfl

theorem Firing.fires (h : Firing k t) (forward : ∀ edits ∈ script, ∀ edit ∈ edits, edit.Forward)
    (fits : ∀ edits ∈ script, ∀ edit ∈ edits, edit.Fits t.executedTicks)
    (run : t.fireEvents script = .ok (fired, t')) :
    (t.fireLog script).fired = fired ∧ (∀ f ∈ fired, k ≤ f.event.key) ∧
      (fired.Pairwise fun a b => a.event.key ≤ b.event.key) ∧
      ∀ f ∈ fired, f.event.time ≤ t.executedTicks ∧
        f.cyclesLate = t.executedTicks - f.event.time := by
  induction script generalizing k t fired with
  | nil =>
    obtain ⟨rfl, rfl, stop⟩ | ⟨_, _, _, _, none, _⟩ := Timer.fireEvents_cases run
    · rw [fireLog_stop stop]
      exact ⟨rfl, nofun, .nil, nofun⟩
    · cases none
  | cons edits rest ih =>
    obtain ⟨rfl, rfl, stop⟩ | ⟨e, _, _, more, same, front, due, rfl, later⟩ :=
      Timer.fireEvents_cases run
    · rw [fireLog_stop stop]
      exact ⟨rfl, nofun, .nil, nofun⟩
    · cases same
      obtain ⟨forward, laterForward⟩ := List.forall_mem_cons.mp forward
      obtain ⟨fits, laterFits⟩ := List.forall_mem_cons.mp fits
      obtain ⟨low, popped⟩ := h.pop front due
      have clock := (Timer.Edit.runAll_spec popped.heap popped.sane edits).2
      have firing := popped.edits forward fits
      obtain ⟨logged, above, ordered, told⟩ :=
        ih firing laterForward (by rw [clock.executed]; exact laterFits) later
      have late := h.late e ((Timer.pop_perm front).subset List.mem_cons_self)
      have whole : toInt (t.executedTicks - e.time) = t.executedTicks - e.time := by
        apply Int.bmod_eq_of_le <;> omega
      rw [clock.executed] at told
      rw [fireLog_fire front due]
      refine ⟨?_, ?_, ?_, ?_⟩
      · show [_] ++ ((Edit.logAll t.popped edits).fired ++ _) = _
        rw [Edit.logAll_fired, logged]
        rfl
      · exact List.forall_mem_cons.mpr ⟨low, fun f member => le_trans low (above f member)⟩
      · exact List.pairwise_cons.mpr ⟨above, ordered⟩
      · exact List.forall_mem_cons.mpr ⟨⟨due, whole⟩, told⟩

theorem scanl_heap (heap : t.Heap) (sane : t.isTimerSane = true) {edits : List Edit} :
    ∀ u ∈ edits.scanl Edit.run t, u.Heap := by
  induction edits generalizing t with
  | nil =>
    intro u member
    rw [List.scanl_nil, List.mem_singleton] at member
    rw [member]
    exact heap
  | cons edit rest ih =>
    intro u member
    rw [List.scanl_cons] at member
    obtain ⟨heap', same⟩ := Timer.Edit.run_spec heap sane edit
    rcases List.mem_cons.mp member with rfl | later
    · exact heap
    · exact ih heap' (same.sane.trans sane) u later

theorem fireStates_heap (heap : t.Heap) (sane : t.isTimerSane = true) :
    ∀ u ∈ t.fireStates script, u.Heap := by
  induction script generalizing t with
  | nil =>
    unfold Timer.fireStates
    split
    · exact nofun
    · split_ifs <;> exact nofun
  | cons edits rest ih =>
    unfold Timer.fireStates
    split
    · exact nofun
    · split_ifs
      · obtain ⟨heap', same⟩ := Timer.Edit.runAll_spec heap.pop sane edits
        intro u member
        rcases List.mem_append.mp member with here | later
        · exact scanl_heap heap.pop sane u here
        · exact ih heap' (same.sane.trans sane) u later
      · exact nofun

structure Ledger (s : Timer × Log) : Prop where
  heap : s.1.Heap
  settled : s.1.tsQueue = []
  balance : s.2.created.Perm (s.2.events ++ s.2.cancelled ++ s.1.eventQueue.toList)
  numbered : Numbered 0 s.1.eventFifoId s.2.created

theorem startAdvance_same (settled : t.tsQueue = []) :
    t.startAdvance.eventQueue = t.eventQueue ∧ t.startAdvance.eventFifoId = t.eventFifoId := by
  unfold Timer.startAdvance Timer.moveEvents
  rw [settled]
  exact ⟨rfl, rfl⟩

theorem advance_account (settled : t.tsQueue = []) (run : t.advance script = .ok (fired, t')) :
    Account t (t.startAdvance.fireLog script) t' := by
  obtain ⟨⟨more, t₁⟩, fires, same⟩ := bind_eq_ok.mp run
  cases same
  obtain ⟨queue, fifo⟩ := startAdvance_same settled
  obtain ⟨balance, numbered, kept⟩ :=
    (Account.of_same queue fifo settled.symm).trans (fireEvents_account fires)
  exact ⟨balance, numbered, kept⟩

theorem Op.account {op : Op} (h : t.Heap) (settled : t.tsQueue = []) (forward : op.Forward)
    (run : op.run t = .ok (fired, t')) : t'.Heap ∧ Account t (op.log t) t' := by
  cases op with
  | scheduleEvent current cycles type userData =>
    obtain ⟨rfl, _⟩ := forward
    cases run
    refine ⟨?_, Edit.account t (.scheduleEvent cycles type userData)⟩
    unfold Timer.scheduleEvent
    rw [if_pos rfl]
    split_ifs
    · exact h.enqueue _
    · exact (h.forceExceptionCheck cycles).enqueue _
  | unscheduleEvent type userData | removeEvent type =>
    cases run
    exact ⟨h.removeIf _, removeIf_account ..⟩
  | advance script => exact ⟨(Timer.advance_settles h run).1, advance_account settled run⟩
  | setNextSlice m | addTicks ticks | idle =>
    cases run
    exact ⟨h, Account.of_same rfl rfl rfl⟩
  | forceExceptionCheck cycles =>
    cases run
    exact ⟨h.forceExceptionCheck cycles, Account.of_same (Timer.forceExceptionCheck_queue cycles)
      (Timer.forceExceptionCheck_fifo cycles) (Timer.forceExceptionCheck_tsQueue cycles)⟩

theorem Ledger.step {s s' : Timer × Log} {op : Op} (h : Ledger s) (forward : op.Forward)
    (run : op.run s.1 = .ok (fired, s'.1)) (log : s'.2 = s.2 ++ op.log s.1) : Ledger s' := by
  obtain ⟨heap, account⟩ := Op.account h.heap h.settled forward run
  -- the run so far is an account of a timer whose queue was empty
  have before : Account {} s.2 s.1 := ⟨h.balance, h.numbered, h.settled⟩
  have after := before.trans account
  rw [← log] at after
  exact ⟨heap, after.settled, after.balance, after.numbered⟩

theorem exists_low (t : Timer) : ∃ k, (∀ e ∈ t.eventQueue.toList, k ≤ e.key) ∧
    k ≤ toLex (t.executedTicks, t.eventFifoId) := by
  obtain ⟨k, low⟩ := (List.finite_toSet
    (toLex (t.executedTicks, t.eventFifoId) :: t.eventQueue.toList.map Event.key)).bddBelow
  refine ⟨k, fun e member => low ?_, low List.mem_cons_self⟩
  exact List.mem_cons_of_mem _ (List.mem_map_of_mem member)

theorem Ledger.fires {s : Timer × Log} (h : Ledger s) (forward : (Op.advance script).Forward)
    (prompt : (Op.advance script).Prompt s.1) (run : s.1.advance script = .ok (fired, t')) :
    Fires ((Op.advance script).log s.1) fired t' := by
  obtain ⟨_, ahead, _⟩ := Timer.advance_settles h.heap run
  obtain ⟨⟨more, t₁⟩, loop, same⟩ := bind_eq_ok.mp run
  cases same
  obtain ⟨heap, sane, _⟩ := Timer.startAdvance_spec h.heap
  obtain ⟨queue, fifo⟩ := startAdvance_same h.settled
  obtain ⟨k, low, new⟩ := exists_low s.1.startAdvance
  have firing : Firing k s.1.startAdvance := by
    refine ⟨heap, sane, ?_, ?_, low, new⟩ <;> rw [queue]
    · intro e member
      have created := h.balance.symm.subset (List.mem_append_right _ member)
      rw [fifo]
      exact (h.numbered.bounds e created).2
    · exact prompt.1
  obtain ⟨logged, _, ordered, told⟩ := firing.fires forward prompt.2 loop
  have clock := (Timer.fireEvents_settles heap sane loop).2.1
  refine ⟨logged, ordered, ?_, ahead⟩
  rw [← clock.executed] at told
  exact told

def dueEvent : Event := { time := 0, fifoOrder := 0, userData := 0, type := 0 }

def dueTimer (ticks : Int) : Timer :=
  { eventQueue := #[dueEvent], eventFifoId := 1, downcount := maxSliceLength - ticks }

theorem dueTimer_run :
    EventRun (fun _ op => op.Forward) (dueTimer 0, { created := [dueEvent] }) := by
  have start : EventRun (fun _ op => op.Forward) ({}, {}) := .start ⟨id, rfl⟩
  exact start.step (a := Op.scheduleEvent true 0 0 0) ⟨rfl, le_refl 0⟩ ⟨⟨[], rfl⟩, rfl⟩

def firedTimer (ticks : Int) : Timer :=
  { eventFifoId := 1, isTimerSane := false, sliceLength := 0, downcount := 0,
    executedTicks := ticks }

theorem dueTimer_advance : (dueTimer 0).advance [[]] = .ok ([⟨dueEvent, 0⟩], firedTimer 0) := rfl

end Timing
end EmuThreeDS
