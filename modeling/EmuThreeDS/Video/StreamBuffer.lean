import EmuThreeDS.Exec
import EmuThreeDS.Lib.Runs

/-!
# The stream buffer (`vk_stream_buffer.cpp`)

A range of the buffer is mapped, filled by the CPU and committed to the GPU. Ranges follow one
another up to the end of the buffer and begin again at its start then; watches remember when a
range is free again.
-/
namespace EmuThreeDS.Vulkan

/-- `Scheduler`, with the ticks that were waited for. -/
structure Scheduler where
  currentTick : Nat
  waited : List Nat := []

/-- A tick that is not submitted yet is submitted first. -/
def Scheduler.wait (s : Scheduler) (tick : Nat) : Scheduler where
  currentTick := if tick ≥ s.currentTick then s.currentTick + 1 else s.currentTick
  waited := tick :: s.waited

structure Watch where
  tick : Nat := 0
  upperBound : Nat := 0

def watchesInitialReserve : Nat := 0x4000

def watchesReserveChunk : Nat := 0x1000

structure StreamBuffer where
  streamBufferSize : Nat
  offset : Nat := 0
  mappedSize : Nat := 0
  currentWatches : List Watch := List.replicate watchesInitialReserve ({} : Watch)
  currentWatchCursor : Nat := 0
  invalidationMark : Option Nat := none
  previousWatches : List Watch := List.replicate watchesInitialReserve ({} : Watch)
  waitCursor : Nat := 0
  waitBound : Nat := 0

def alignUp (value size : Nat) : Nat :=
  if value % size = 0 then value else (value - value % size + size) % 2 ^ 64

def add64 (a b : Nat) : Nat := (a + b) % 2 ^ 64

variable (b : StreamBuffer) (scheduler : Scheduler)

namespace StreamBuffer

def reserveWatches (watches : List Watch) (growSize : Nat) : List Watch :=
  watches ++ List.replicate growSize ({} : Watch)

/-- The loop of `WaitPendingOperations`, with the watches that are left. -/
def waitLoop (requestedUpperBound : Nat) :
    Nat → StreamBuffer → Scheduler → Exec (StreamBuffer × Scheduler)
  | 0, b, scheduler => .ok (b, scheduler)
  | left + 1, b, scheduler =>
    if requestedUpperBound > b.waitBound then
      match b.previousWatches[b.waitCursor]? with
      | none => .error .undefinedBehaviour
      | some watch => waitLoop requestedUpperBound left
          { b with waitBound := watch.upperBound, waitCursor := b.waitCursor + 1 }
          (scheduler.wait watch.tick)
    else .ok (b, scheduler)

def waitPendingOperations (requestedUpperBound : Nat) : Exec (StreamBuffer × Scheduler) :=
  match b.invalidationMark with
  | none => .ok (b, scheduler)
  | some mark => waitLoop requestedUpperBound (mark - b.waitCursor) b scheduler

/-- The wrap: the watches of this cycle become those of the previous one. -/
def invalidate : StreamBuffer :=
  { b with
    invalidationMark := some b.currentWatchCursor
    currentWatchCursor := 0
    offset := 0
    previousWatches := b.currentWatches
    currentWatches := b.previousWatches
    waitCursor := 0
    waitBound := 0 }

/-- The offset that `Map` aligns; 0 asks for no alignment. -/
def aligned (alignment : Nat) : Nat :=
  if alignment > 0 then alignUp b.offset alignment else b.offset

/-- The end of `Map`, once the offset is set. -/
def mapHere (size : Nat) (invalidated : Bool) :
    Exec (Bool × StreamBuffer × Scheduler) := do
  let (b, scheduler) ← b.waitPendingOperations scheduler (add64 b.offset size)
  return (invalidated, b, scheduler)

/-- The mapped range begins at the `offset` of the buffer that is returned. -/
def map (size alignment : Nat) :
    Exec (Bool × StreamBuffer × Scheduler) := do
  assert .streamBuffer (size ≤ b.streamBufferSize)
  let b := { b with mappedSize := size, offset := b.aligned alignment }
  if add64 b.offset size > b.streamBufferSize then b.invalidate.mapHere scheduler size true
  else b.mapHere scheduler size false

/-- The flush of the memory for the GPU is left out: no decision depends on it. -/
def commit (size : Nat) : Exec StreamBuffer := do
  assert .streamBuffer (size ≤ b.mappedSize)
  let offset := add64 b.offset size
  let currentWatches :=
    if b.currentWatchCursor + 1 ≥ b.currentWatches.length then
      reserveWatches b.currentWatches watchesReserveChunk
    else b.currentWatches
  if b.currentWatchCursor < currentWatches.length then
    return { b with
      offset := offset
      currentWatches := currentWatches.set b.currentWatchCursor
        { tick := scheduler.currentTick, upperBound := offset }
      currentWatchCursor := b.currentWatchCursor + 1 }
  else .error .undefinedBehaviour

end StreamBuffer

/-- A committed range, used by the GPU in ticks up to `tick`. -/
structure Committed where
  start : Nat
  stop : Nat
  tick : Nat
  deriving DecidableEq

/-- The buffer, its scheduler, the commits since the last wrap and of each cycle before, the
latest cycle first. After a `Map` its `Commit` comes next. -/
structure Stream where
  buffer : StreamBuffer
  scheduler : Scheduler
  now : List Committed := []
  past : List (List Committed) := []
  mapped : Bool := false

namespace Stream

inductive Call where
  | map (size alignment : Nat)
  | commit (size : Nat)
  | advance (tick : Nat)

def run (s : Stream) : Call → Exec Stream
  | .map size alignment => do
    let (wraps, buffer, scheduler) ← s.buffer.map s.scheduler size alignment
    return { buffer, scheduler, mapped := true
             now := if wraps then [] else s.now
             past := if wraps then s.now :: s.past else s.past }
  | .commit size => do
    let buffer ← s.buffer.commit s.scheduler size
    let range : Committed := ⟨s.buffer.offset, s.buffer.offset + size, s.scheduler.currentTick⟩
    return { s with buffer, mapped := false, now := s.now ++ [range] }
  | .advance tick => return { s with scheduler := { s.scheduler with currentTick := tick } }

def Allowed (s : Stream) : Call → Prop
  | .map size alignment => s.mapped = false ∧ size ≤ s.buffer.streamBufferSize ∧
      (alignment = 0 ∨ ∃ k < 64, alignment = 2 ^ k)
  | .commit size => s.mapped = true ∧ size ≤ s.buffer.mappedSize
  | .advance tick => s.scheduler.currentTick ≤ tick

/-- A mapped buffer is in the lower half of the address space. -/
def Starts (s : Stream) : Prop :=
  ∃ size tick, size < 2 ^ 63 ∧
    s = { buffer := { streamBufferSize := size }, scheduler := { currentTick := tick } }

abbrev Reachable : Stream → Prop :=
  Runs.Reachable Starts (fun s call s' => s.run call = .ok s') Allowed

def Passed (s : Stream) (tick : Nat) : Prop := ∃ waited ∈ s.scheduler.waited, tick ≤ waited

def Shares (c : Committed) (start size : Nat) : Prop :=
  ∃ b, c.start ≤ b ∧ b < c.stop ∧ start ≤ b ∧ b < start + size

/-- What a range that was just mapped is promised. -/
structure Safe (s : Stream) (size : Nat) : Prop where
  inside : s.buffer.offset + size ≤ s.buffer.streamBufferSize
  fresh : ∀ c ∈ s.now, ¬ Shares c s.buffer.offset size
  passed : ∀ cycle ∈ s.past, ∀ c ∈ cycle, Shares c s.buffer.offset size →
    ∀ tick ≤ c.tick, s.Passed tick

end Stream

end EmuThreeDS.Vulkan
