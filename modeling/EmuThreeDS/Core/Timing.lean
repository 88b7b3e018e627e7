import EmuThreeDS.Exec
import EmuThreeDS.Lib.BinaryHeap
import Mathlib.Data.Prod.Lex
import Mathlib.Algebra.Group.Int.Defs

/-!
# Guest time

`core_timing.cpp`, as far as it concerns the timer of one core. The 64-bit counters are
integers, cut to their width where the code lets an unsigned sum wrap or casts one.
-/
namespace EmuThreeDS
namespace Timing

def toS64 (x : Int) : Int := x.bmod (2 ^ 64)

def toInt (x : Int) : Int := x.bmod (2 ^ 32)

def toU64 (x : Int) : Int := x % 2 ^ 64

def maxSliceLength : Int := 268111856 / 234

structure Event where
  time : Int
  fifoOrder : Nat
  userData : Nat
  type : Nat
  deriving DecidableEq

/-- Events are ordered by time and then by the order they were added in. -/
def Event.key (e : Event) : ℤ ×ₗ ℕ := toLex (e.time, e.fifoOrder)

/-- `tsQueue` holds the events scheduled from other cores, and `cpuClockScale` gives
`ticks * cpu_clock_scale` as it is cast to a `u64`. -/
structure Timer where
  eventQueue : Array Event := #[]
  eventFifoId : Nat := 0
  tsQueue : List Event := []
  isTimerSane : Bool := true
  sliceLength : Int := maxSliceLength
  downcount : Int := maxSliceLength
  executedTicks : Int := 0
  idledCycles : Int := 0
  cpuClockScale : Nat → Nat := id

namespace Timer

/-- The sum that `GetTicks` returns as a `u64`. -/
def now (t : Timer) : Int :=
  t.executedTicks + if t.isTimerSane then 0 else t.sliceLength - t.downcount

def getTicks (t : Timer) : Int := toU64 t.now

def addTicks (t : Timer) (ticks : Nat) : Timer :=
  { t with downcount := toS64 (t.downcount - t.cpuClockScale ticks) }

def getDowncount (t : Timer) : Int := t.downcount

def forceExceptionCheck (t : Timer) (cycles : Int) : Timer :=
  let cycles := max 0 cycles
  if t.downcount > cycles then
    { t with sliceLength := t.sliceLength - (t.downcount - cycles), downcount := cycles }
  else t

/-- `emplace_back` and `push_heap`; the event gets the next number. -/
def enqueue (t : Timer) (e : Event) : Timer :=
  { t with
    eventQueue := BinaryHeap.pushHeap Event.key
      (t.eventQueue.push { e with fifoOrder := t.eventFifoId })
    eventFifoId := t.eventFifoId + 1 }

/-- `Timing::ScheduleEvent`; `current` says whether this is the timer of the running core. -/
def scheduleEvent (t : Timer) (current : Bool) (cyclesIntoFuture : Int) (type userData : Nat) :
    Timer :=
  let timeout := toS64 (t.getTicks + cyclesIntoFuture)
  let event : Event := { time := timeout, fifoOrder := 0, userData, type }
  if current then
    (if t.isTimerSane then t else t.forceExceptionCheck cyclesIntoFuture).enqueue event
  else { t with tsQueue := t.tsQueue ++ [event] }

/-- `remove_if` and `erase`, and a new heap if an event was removed. -/
def removeIf (t : Timer) (p : Event → Bool) : Timer :=
  if t.eventQueue.any p then
    { t with eventQueue := BinaryHeap.makeHeap Event.key (t.eventQueue.filter fun e => !p e) }
  else t

def unscheduleEvent (t : Timer) (type userData : Nat) : Timer :=
  t.removeIf fun e => e.type = type && e.userData = userData

def removeEvent (t : Timer) (type : Nat) : Timer := t.removeIf fun e => e.type = type

def moveEvents (t : Timer) : Timer := { t.tsQueue.foldl enqueue t with tsQueue := [] }

def getMaxSliceLength (t : Timer) : Exec Int :=
  match t.eventQueue[0]? with
  | some next => do
      assert .getMaxSliceLength (next.time - t.executedTicks > 0)
      return next.time - t.executedTicks
  | none => return maxSliceLength

def setNextSlice (t : Timer) (maxSliceLength : Int) : Timer :=
  let sliceLength :=
    match t.eventQueue[0]? with
    | some next => toInt (min (next.time - t.executedTicks) maxSliceLength)
    | none => maxSliceLength
  { t with sliceLength, downcount := sliceLength }

def idle (t : Timer) : Timer :=
  { t with idledCycles := toU64 (t.idledCycles + t.downcount), downcount := 0 }

end Timer

inductive Edit where
  | scheduleEvent (cyclesIntoFuture : Int) (type userData : Nat)
  | unscheduleEvent (type userData : Nat)
  | removeEvent (type : Nat)

def Edit.run (t : Timer) : Edit → Timer
  | .scheduleEvent cyclesIntoFuture type userData =>
    t.scheduleEvent true cyclesIntoFuture type userData
  | .unscheduleEvent type userData => t.unscheduleEvent type userData
  | .removeEvent type => t.removeEvent type

structure Fired where
  event : Event
  cyclesLate : Int

namespace Timer

/-- The loop of `Advance`. Every event type has its callback; the script says what the
callbacks do, one after the other, and running out of it is a loop that goes on. -/
def fireEvents : List (List Edit) → Timer → Exec (List Fired × Timer)
  | script, t =>
    match t.eventQueue[0]? with
    | none => return ([], t)
    | some evt =>
      if evt.time ≤ t.executedTicks then
        match script with
        | [] => .error .outOfFuel
        | edits :: rest => do
            let popped := { t with eventQueue := BinaryHeap.popHeap Event.key t.eventQueue }
            let (fired, t) ← fireEvents rest (edits.foldl Edit.run popped)
            return (⟨evt, toInt (popped.executedTicks - evt.time)⟩ :: fired, t)
      else return ([], t)

/-- `Advance` up to its loop. -/
def startAdvance (t : Timer) : Timer :=
  let t := t.moveEvents
  { t with
    idledCycles := 0
    executedTicks := t.executedTicks + (t.sliceLength - t.downcount)
    sliceLength := 0
    downcount := 0
    isTimerSane := true }

def advance (t : Timer) (script : List (List Edit)) : Exec (List Fired × Timer) := do
  let (fired, t) ← fireEvents script t.startAdvance
  return (fired, { t with isTimerSane := false })

end Timer

inductive Op where
  | scheduleEvent (current : Bool) (cyclesIntoFuture : Int) (type userData : Nat)
  | unscheduleEvent (type userData : Nat)
  | removeEvent (type : Nat)
  | advance (script : List (List Edit))
  | setNextSlice (maxSliceLength : Int)
  | addTicks (ticks : Nat)
  | forceExceptionCheck (cycles : Int)
  | idle

def Op.run (t : Timer) : Op → Exec (List Fired × Timer)
  | .scheduleEvent current cyclesIntoFuture type userData =>
    return ([], t.scheduleEvent current cyclesIntoFuture type userData)
  | .unscheduleEvent type userData => return ([], t.unscheduleEvent type userData)
  | .removeEvent type => return ([], t.removeEvent type)
  | .advance script => t.advance script
  | .setNextSlice maxSliceLength => return ([], t.setNextSlice maxSliceLength)
  | .addTicks ticks => return ([], t.addTicks ticks)
  | .forceExceptionCheck cycles => return ([], t.forceExceptionCheck cycles)
  | .idle => return ([], t.idle)

end Timing

/-!
## The event queue

What each operation on a timer does to its queue: the queue stays a heap, and its events are
those it had, with those added and without those removed.
-/

namespace Timing

open BinaryHeap

theorem toS64_eq {x : Int} (low : -2 ^ 63 ≤ x) (high : x < 2 ^ 63) : toS64 x = x := by
  apply Int.bmod_eq_of_le <;> omega

namespace Timer

variable {t : Timer} {e : Event} {p : Event → Bool}

def Heap (t : Timer) : Prop := IsHeap Event.key t.eventQueue

variable {f : Event} {t' : Timer} {script : List (List Edit)} {fired : List Fired}

theorem Heap.front_le (h : t.Heap) (front : t.eventQueue[0]? = some e)
    (member : f ∈ t.eventQueue.toList) : e.key ≤ f.key := by
  obtain ⟨i, inside, rfl⟩ := List.getElem_of_mem member
  obtain ⟨nonempty, rfl⟩ := Array.getElem?_eq_some_iff.mp front
  have least := OrderedFrom.front_le h i
  rw [keyAt_lt nonempty, keyAt_lt inside] at least
  exact WithTop.coe_le_coe.mp least

theorem heap_nil (empty : t.eventQueue = #[]) : t.Heap := by
  intro c positive _
  rw [empty]
  exact le_top

theorem Heap.enqueue (h : t.Heap) (e : Event) : (t.enqueue e).Heap := pushHeap_push h _

theorem enqueue_perm (t : Timer) (e : Event) :
    (t.enqueue e).eventQueue.toList.Perm
      ({ e with fifoOrder := t.eventFifoId } :: t.eventQueue.toList) := by
  refine pushHeap_perm.trans ?_
  rw [Array.toList_push]
  exact List.perm_append_singleton _ _

theorem Heap.removeIf (h : t.Heap) (p : Event → Bool) : (t.removeIf p).Heap := by
  unfold Timer.removeIf
  split_ifs
  · exact makeHeap_heap
  · exact h

theorem removeIf_perm (t : Timer) (p : Event → Bool) :
    (t.removeIf p).eventQueue.toList.Perm (t.eventQueue.toList.filter fun e => !p e) := by
  unfold Timer.removeIf
  split_ifs with some
  · refine makeHeap_perm.trans ?_
    rw [Array.toList_filter]
  · have kept : t.eventQueue.toList.filter (fun e => !p e) = t.eventQueue.toList := by
      apply List.filter_eq_self.mpr
      intro e member
      rw [Array.any_eq_true'] at some
      simp only [not_exists, not_and, Bool.not_eq_true] at some
      simpa using some e (Array.mem_toList_iff.mp member)
    rw [kept]

theorem Heap.pop (h : t.Heap) :
    ({ t with eventQueue := popHeap Event.key t.eventQueue } : Timer).Heap := popHeap_heap h

theorem pop_perm (front : t.eventQueue[0]? = some e) :
    (e :: (popHeap Event.key t.eventQueue).toList).Perm t.eventQueue.toList := by
  obtain ⟨nonempty, rfl⟩ := Array.getElem?_eq_some_iff.mp front
  exact popHeap_perm nonempty

@[simp] theorem forceExceptionCheck_queue (cycles : Int) :
    (t.forceExceptionCheck cycles).eventQueue = t.eventQueue := by
  unfold forceExceptionCheck
  dsimp only
  split_ifs <;> rfl

@[simp] theorem forceExceptionCheck_fifo (cycles : Int) :
    (t.forceExceptionCheck cycles).eventFifoId = t.eventFifoId := by
  unfold forceExceptionCheck
  dsimp only
  split_ifs <;> rfl

@[simp] theorem forceExceptionCheck_tsQueue (cycles : Int) :
    (t.forceExceptionCheck cycles).tsQueue = t.tsQueue := by
  unfold forceExceptionCheck
  dsimp only
  split_ifs <;> rfl

@[simp] theorem removeIf_fifo (t : Timer) (p : Event → Bool) :
    (t.removeIf p).eventFifoId = t.eventFifoId := by
  unfold Timer.removeIf
  split_ifs <;> rfl

theorem Heap.forceExceptionCheck (h : t.Heap) (cycles : Int) :
    (t.forceExceptionCheck cycles).Heap := by
  unfold Heap
  rw [forceExceptionCheck_queue]
  exact h

@[simp] theorem forceExceptionCheck_now (cycles : Int) :
    (t.forceExceptionCheck cycles).now = t.now := by
  unfold forceExceptionCheck now
  dsimp only
  split_ifs
  · rfl
  · dsimp only
    omega
  · rfl
  · rfl

structure SameClock (t t' : Timer) : Prop where
  sane : t'.isTimerSane = t.isTimerSane
  slice : t'.sliceLength = t.sliceLength
  down : t'.downcount = t.downcount
  executed : t'.executedTicks = t.executedTicks

theorem SameClock.refl (t : Timer) : SameClock t t := ⟨rfl, rfl, rfl, rfl⟩

theorem SameClock.trans {t t'' : Timer} (h : SameClock t t') (h' : SameClock t' t'') :
    SameClock t t'' :=
  ⟨h'.sane.trans h.sane, h'.slice.trans h.slice, h'.down.trans h.down,
    h'.executed.trans h.executed⟩

theorem SameClock.now {t : Timer} (h : SameClock t t') : t'.now = t.now := by
  unfold Timer.now
  rw [h.sane, h.slice, h.down, h.executed]

theorem enqueue_clock (t : Timer) (e : Event) : SameClock t (t.enqueue e) := ⟨rfl, rfl, rfl, rfl⟩

theorem removeIf_clock (t : Timer) (p : Event → Bool) : SameClock t (t.removeIf p) := by
  unfold Timer.removeIf
  split_ifs
  · exact ⟨rfl, rfl, rfl, rfl⟩
  · exact SameClock.refl t

theorem moveEvents_spec (h : t.Heap) : t.moveEvents.Heap ∧ SameClock t t.moveEvents := by
  have each : ∀ (events : List Event) (t : Timer), t.Heap →
      (events.foldl Timer.enqueue t).Heap ∧ SameClock t (events.foldl Timer.enqueue t) := by
    intro events
    induction events with
    | nil => exact fun t heap => ⟨heap, SameClock.refl t⟩
    | cons e rest ih =>
      intro t heap
      obtain ⟨heap', same⟩ := ih (t.enqueue e) (heap.enqueue e)
      exact ⟨heap', (enqueue_clock t e).trans same⟩
  obtain ⟨heap, same⟩ := each t.tsQueue t h
  exact ⟨heap, same.sane, same.slice, same.down, same.executed⟩

theorem Edit.run_spec (h : t.Heap) (sane : t.isTimerSane = true) (edit : Edit) :
    (edit.run t).Heap ∧ SameClock t (edit.run t) := by
  cases edit with
  | scheduleEvent cycles type userData =>
    unfold Edit.run Timer.scheduleEvent
    dsimp only
    rw [if_pos sane]
    exact ⟨h.enqueue _, enqueue_clock ..⟩
  | unscheduleEvent type userData | removeEvent type => exact ⟨h.removeIf _, removeIf_clock ..⟩

theorem Edit.runAll_spec (h : t.Heap) (sane : t.isTimerSane = true) (edits : List Edit) :
    (edits.foldl Edit.run t).Heap ∧ SameClock t (edits.foldl Edit.run t) := by
  induction edits generalizing t with
  | nil => exact ⟨h, SameClock.refl t⟩
  | cons edit rest ih =>
    obtain ⟨heap, same⟩ := Edit.run_spec h sane edit
    obtain ⟨heap', same'⟩ := ih heap (same.sane.trans sane)
    exact ⟨heap', same.trans same'⟩

def Ahead (t : Timer) : Prop := ∀ e ∈ t.eventQueue.toList, t.executedTicks < e.time

theorem Heap.front_time_le (h : t.Heap) (front : t.eventQueue[0]? = some e)
    (member : f ∈ t.eventQueue.toList) : e.time ≤ f.time := by
  rcases Prod.Lex.toLex_le_toLex.mp (h.front_le front member) with less | same
  · exact le_of_lt less
  · exact le_of_eq same.1

theorem Heap.ahead (h : t.Heap) (front : t.eventQueue[0]? = some e)
    (later : ¬ e.time ≤ t.executedTicks) : t.Ahead := by
  intro f member
  have order := h.front_time_le front member
  omega

theorem ahead_of_empty (empty : t.eventQueue[0]? = none) : t.Ahead := by
  intro e member
  have none : t.eventQueue.toList.length = 0 := by simpa using empty
  rw [List.length_eq_zero_iff.mp none] at member
  cases member

def popped (t : Timer) : Timer := { t with eventQueue := popHeap Event.key t.eventQueue }

theorem fireEvents_cases (run : t.fireEvents script = .ok (fired, t')) :
    (fired = [] ∧ t' = t ∧ ∀ e, t.eventQueue[0]? = some e → ¬ e.time ≤ t.executedTicks) ∨
      ∃ e edits rest more, script = edits :: rest ∧ t.eventQueue[0]? = some e ∧
        e.time ≤ t.executedTicks ∧ fired = ⟨e, toInt (t.executedTicks - e.time)⟩ :: more ∧
        (edits.foldl Edit.run t.popped).fireEvents rest = .ok (more, t') := by
  unfold fireEvents at run
  split at run
  · next empty =>
      cases run
      left
      refine ⟨rfl, rfl, fun e front => ?_⟩
      rw [empty] at front
      cases front
  · next e front =>
      split_ifs at run with due
      · cases script with
        | nil => cases run
        | cons edits rest =>
          obtain ⟨⟨more, t₁⟩, later, same⟩ := bind_eq_ok.mp run
          cases same
          exact .inr ⟨e, edits, rest, more, rfl, front, due, rfl, later⟩
      · cases run
        left
        refine ⟨rfl, rfl, fun f other => ?_⟩
        rw [front] at other
        cases other
        exact due

theorem Heap.settled (h : t.Heap)
    (stop : ∀ e, t.eventQueue[0]? = some e → ¬ e.time ≤ t.executedTicks) : t.Ahead := by
  cases front : t.eventQueue[0]? with
  | none => exact ahead_of_empty front
  | some e => exact h.ahead front (stop e front)

theorem fireEvents_settles (h : t.Heap) (sane : t.isTimerSane = true)
    (run : t.fireEvents script = .ok (fired, t')) : t'.Heap ∧ SameClock t t' ∧ t'.Ahead := by
  induction script generalizing t fired with
  | nil =>
    obtain ⟨rfl, rfl, stop⟩ | ⟨_, _, _, _, none, _⟩ := fireEvents_cases run
    · exact ⟨h, SameClock.refl _, h.settled stop⟩
    · cases none
  | cons edits rest ih =>
    obtain ⟨rfl, rfl, stop⟩ | ⟨e, _, _, more, same, front, due, rfl, later⟩ :=
      fireEvents_cases run
    · exact ⟨h, SameClock.refl _, h.settled stop⟩
    · cases same
      have popped : SameClock t t.popped := ⟨rfl, rfl, rfl, rfl⟩
      obtain ⟨heap, same⟩ := Edit.runAll_spec h.pop sane edits
      obtain ⟨heap', same', ahead⟩ := ih heap (same.sane.trans sane) later
      exact ⟨heap', (popped.trans same).trans same', ahead⟩

theorem startAdvance_spec (h : t.Heap) :
    t.startAdvance.Heap ∧ t.startAdvance.isTimerSane = true ∧ t.startAdvance.sliceLength = 0 ∧
      t.startAdvance.downcount = 0 ∧
      t.startAdvance.executedTicks = t.executedTicks + (t.sliceLength - t.downcount) := by
  obtain ⟨heap, same⟩ := moveEvents_spec h
  refine ⟨heap, rfl, rfl, rfl, ?_⟩
  unfold startAdvance
  dsimp only
  rw [same.executed, same.slice, same.down]

theorem advance_settles (h : t.Heap) (run : t.advance script = .ok (fired, t')) :
    t'.Heap ∧ t'.Ahead ∧ t'.isTimerSane = false ∧ t'.sliceLength = 0 ∧ t'.downcount = 0 ∧
      t'.executedTicks = t.executedTicks + (t.sliceLength - t.downcount) := by
  obtain ⟨⟨more, t₁⟩, fires, same⟩ := bind_eq_ok.mp run
  cases same
  obtain ⟨heap, sane, slice, down, executed⟩ := startAdvance_spec h
  obtain ⟨heap', same, ahead⟩ := fireEvents_settles heap sane fires
  exact ⟨heap', ahead, rfl, same.slice.trans slice, same.down.trans down,
    same.executed.trans executed⟩

/-- So the assertion of `GetMaxSliceLength` holds after `Advance`. -/
theorem Ahead.getMaxSliceLength (ahead : t.Ahead) : ∃ length, t.getMaxSliceLength = .ok length := by
  unfold Timer.getMaxSliceLength
  cases front : t.eventQueue[0]? with
  | none => exact ⟨_, rfl⟩
  | some next =>
    obtain ⟨nonempty, rfl⟩ := Array.getElem?_eq_some_iff.mp front
    have later := ahead _ (Array.getElem_mem_toList nonempty)
    dsimp only
    rw [assert_pos (by omega)]
    exact ⟨_, rfl⟩

end Timer

end Timing
end EmuThreeDS
