import EmuThreeDS.Exec

/-!
# Queues of threads by priority

`thread_queue_list.h`: one deque for each priority, and a chain of pointers through the
queues that have been used.
-/
namespace EmuThreeDS

/-- A `Queue*`: the tag of a queue never used, null, or the queue of a priority. -/
inductive QueuePtr where
  | unlinked
  | null
  | queue (priority : Nat)
  deriving DecidableEq

structure ReadyQueue (T : Type) where
  nextNonempty : QueuePtr := .unlinked
  data : List T := []

/-- `N` is the number of priority levels. -/
structure ThreadQueueList (T : Type) (N : Nat) where
  first : QueuePtr := .null
  queues : Nat → ReadyQueue T := fun _ => {}

namespace ThreadQueueList

variable {T : Type} {N : Nat}

def data (q : ThreadQueueList T N) (priority : Nat) : List T := (q.queues priority).data

def setData (q : ThreadQueueList T N) (priority : Nat) (data : List T) : ThreadQueueList T N :=
  { q with queues := Function.update q.queues priority { q.queues priority with data := data } }

def setNext (q : ThreadQueueList T N) (priority : Nat) (next : QueuePtr) : ThreadQueueList T N :=
  { q with
    queues := Function.update q.queues priority { q.queues priority with nextNonempty := next } }

/-- The walk that all readers share: the first queue of the chain with an element. A `stop`
ends the walk at that queue, and then nothing guards against the null at the chain's end. -/
def findNonempty (q : ThreadQueueList T N) (stop : Option Nat) :
    Nat → QueuePtr → Exec (Option (Nat × T × List T))
  | 0, _ => .error .outOfFuel
  | _ + 1, .unlinked => .error .undefinedBehaviour
  | _ + 1, .null =>
    match stop with
    | none => .ok none
    | some _ => .error .undefinedBehaviour
  | fuel + 1, .queue priority =>
    if stop.any (· ≤ priority) then .ok none
    else
      match q.data priority with
      | x :: rest => .ok (some (priority, x, rest))
      | [] => findNonempty q stop fuel (q.queues priority).nextNonempty

def getFirst (q : ThreadQueueList T N) : Exec (Option T) := do
  let found ← q.findNonempty none (N + 1) q.first
  return found.map fun (_, x, _) => x

def pop (q : ThreadQueueList T N) (stop : Option Nat) : Exec (Option T × ThreadQueueList T N) := do
  match ← q.findNonempty stop (N + 1) q.first with
  | some (priority, x, rest) => return (some x, q.setData priority rest)
  | none => return (none, q)

def popFirst (q : ThreadQueueList T N) : Exec (Option T × ThreadQueueList T N) := q.pop none

def popFirstBetter (q : ThreadQueueList T N) (priority : Nat) :
    Exec (Option T × ThreadQueueList T N) :=
  q.pop (some priority)

def pushFront (q : ThreadQueueList T N) (priority : Nat) (x : T) : ThreadQueueList T N :=
  q.setData priority (x :: q.data priority)

def pushBack (q : ThreadQueueList T N) (priority : Nat) (x : T) : ThreadQueueList T N :=
  q.setData priority (q.data priority ++ [x])

def remove [DecidableEq T] (q : ThreadQueueList T N) (priority : Nat) (x : T) :
    ThreadQueueList T N :=
  q.setData priority ((q.data priority).filter (· ≠ x))

def linkedBelow (q : ThreadQueueList T N) : Nat → Option Nat
  | 0 => none
  | i + 1 => if (q.queues i).nextNonempty ≠ .unlinked then some i else linkedBelow q i

def link (q : ThreadQueueList T N) (priority : Nat) : ThreadQueueList T N :=
  match q.linkedBelow priority with
  | some i =>
    (q.setNext priority (q.queues i).nextNonempty).setNext i (.queue priority)
  | none => { q.setNext priority q.first with first := .queue priority }

def prepare (q : ThreadQueueList T N) (priority : Nat) : ThreadQueueList T N :=
  if (q.queues priority).nextNonempty = .unlinked then q.link priority else q

def move [DecidableEq T] (q : ThreadQueueList T N) (x : T) (oldPriority newPriority : Nat) :
    ThreadQueueList T N :=
  ((q.remove oldPriority x).prepare newPriority).pushBack newPriority x

def rotate (q : ThreadQueueList T N) (priority : Nat) : ThreadQueueList T N :=
  match q.data priority with
  | x :: y :: rest => q.setData priority ((y :: rest) ++ [x])
  | _ => q

variable {q : ThreadQueueList T N} {priority other : Nat}

/-- The walk stops at no assertion. -/
theorem findNonempty_meets {bad : Fault → Prop} (fuel : ¬ bad .outOfFuel)
    (undefined : ¬ bad .undefinedBehaviour) {stop : Option Nat} {n : Nat} {ptr : QueuePtr} :
    Meets bad (q.findNonempty stop n ptr) fun _ => True := by
  induction n generalizing ptr with
  | zero => exact meets_error fuel
  | succ n ih =>
    cases ptr with
    | unlinked => exact meets_error undefined
    | null =>
      cases stop with
      | none => exact meets_ok trivial
      | some limit => exact meets_error undefined
    | queue priority =>
      apply meets_ite
      · exact fun _ => meets_ok trivial
      · intro _
        split
        · exact meets_ok trivial
        · exact ih

theorem pop_meets {bad : Fault → Prop} (fuel : ¬ bad .outOfFuel)
    (undefined : ¬ bad .undefinedBehaviour) {stop : Option Nat} :
    Meets bad (q.pop stop) fun _ => True := by
  apply meets_bind (findNonempty_meets fuel undefined)
  intro found _
  split <;> exact meets_ok trivial

theorem data_setData (data : List T) :
    (q.setData priority data).data other = if other = priority then data else q.data other := by
  simp only [setData, ThreadQueueList.data, Function.update_apply]
  split_ifs <;> rfl

@[simp] theorem data_setNext (next : QueuePtr) :
    (q.setNext priority next).data other = q.data other := by
  simp only [setNext, ThreadQueueList.data, Function.update_apply]
  split_ifs with same
  · rw [same]
  · rfl

@[simp] theorem data_prepare : (q.prepare priority).data other = q.data other := by
  unfold prepare link
  split_ifs
  · split
    · rw [data_setNext, data_setNext]
    · exact data_setNext q.first
  · rfl

end ThreadQueueList

end EmuThreeDS
