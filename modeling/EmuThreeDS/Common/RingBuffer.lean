import EmuThreeDS.Lib.FlatSlots
import EmuThreeDS.Lib.Runs

/-!
# The ring buffer (`ring_buffer.h`)

One producer is somewhere in `Push`, one consumer is somewhere in `Pop`. Each atomic load or
store and each copy of a slot is a step of its own.
-/
namespace EmuThreeDS

open FlatSlots

/-- `capacity` and `granularity` as the static assertions want them. -/
structure RingShape where
  capacity : Nat
  granularity : Nat
  sensible : capacity < (2 ^ 64 - 1) / 2 / granularity
  powerOfTwo : ∃ k, capacity = 2 ^ k

def minSize (a b : UInt64) : UInt64 := if b < a then b else a

namespace RingBuffer

structure PushLocals (T : Type) where
  newSlots : List T
  slotCount : UInt64
  writeIndex : UInt64
  slotsFree : UInt64
  pushCount : UInt64
  deriving DecidableEq

structure PopLocals where
  maxSlots : UInt64
  readIndex : UInt64
  slotsFilled : UInt64
  popCount : UInt64
  deriving DecidableEq

inductive Producer (T : Type) where
  | idle
  | loadReadIndex (newSlots : List T) (slotCount writeIndex : UInt64)
  | copy (l : PushLocals T) (copied : Nat)
  deriving DecidableEq

inductive Consumer (T : Type) where
  | idle
  | loadWriteIndex (maxSlots readIndex : UInt64)
  | copy (l : PopLocals) (out : List T) (copied : Nat)
  deriving DecidableEq

end RingBuffer

/-- The buffer, both threads, and what the finished calls took in and gave out. -/
structure RingBuffer (T : Type) where
  readIndex : UInt64
  writeIndex : UInt64
  data : List T
  producer : RingBuffer.Producer T
  consumer : RingBuffer.Consumer T
  accepted : List T
  popped : List T
  deriving DecidableEq

namespace RingBuffer

variable {T : Type}

def size (s : RingBuffer T) : UInt64 := s.writeIndex - s.readIndex

section

variable (L : RingShape)

def capacity : UInt64 := UInt64.ofNat L.capacity

def position (index : UInt64) : UInt64 := index % capacity L

def firstCopy (index count : UInt64) : UInt64 := minSize (capacity L - position L index) count

/-- The slot of `m_data` that copy number `i` of a call is about: the first `memcpy` goes to
the end of the array, the second one goes on at its front. -/
def place (index count : UInt64) (i : Nat) : Nat :=
  if i < (firstCopy L index count).toNat then (position L index).toNat + i
  else i - (firstCopy L index count).toNat

def pushLocals (newSlots : List T) (slotCount writeIndex readIndex : UInt64) : PushLocals T :=
  let slotsFree := capacity L + readIndex - writeIndex
  { newSlots, slotCount, writeIndex, slotsFree, pushCount := minSize slotCount slotsFree }

def popLocals (maxSlots readIndex writeIndex : UInt64) : PopLocals :=
  let slotsFilled := writeIndex - readIndex
  { maxSlots, readIndex, slotsFilled, popCount := minSize slotsFilled maxSlots }

inductive Action (T : Type) where
  | push (newSlots : List T) (slotCount : UInt64)
  | loadReadIndex
  | pushSlot
  | storeWriteIndex
  | pop (maxSlots : UInt64)
  | loadWriteIndex
  | popSlot
  | storeReadIndex

/-- What one step of either thread does. A call starts with its first load. -/
def step (s : RingBuffer T) : Action T → Option (RingBuffer T)
  | .push newSlots slotCount =>
    match s.producer with
    | .idle => some { s with producer := .loadReadIndex newSlots slotCount s.writeIndex }
    | _ => none
  | .loadReadIndex =>
    match s.producer with
    | .loadReadIndex newSlots slotCount writeIndex =>
      some { s with
        producer := .copy (pushLocals L newSlots slotCount writeIndex s.readIndex) 0 }
    | _ => none
  | .pushSlot =>
    match s.producer with
    | .copy l copied =>
      if copied < l.pushCount.toNat then
        some { s with
          data := setSlot L.granularity s.data (place L l.writeIndex l.pushCount copied)
            (slot L.granularity l.newSlots copied)
          producer := .copy l (copied + 1) }
      else none
    | _ => none
  | .storeWriteIndex =>
    match s.producer with
    | .copy l copied =>
      if copied < l.pushCount.toNat then none
      else
        some { s with
          writeIndex := l.writeIndex + l.pushCount
          producer := .idle
          accepted := s.accepted ++ l.newSlots.take (l.pushCount.toNat * L.granularity) }
    | _ => none
  | .pop maxSlots =>
    match s.consumer with
    | .idle => some { s with consumer := .loadWriteIndex maxSlots s.readIndex }
    | _ => none
  | .loadWriteIndex =>
    match s.consumer with
    | .loadWriteIndex maxSlots readIndex =>
      some { s with consumer := .copy (popLocals maxSlots readIndex s.writeIndex) [] 0 }
    | _ => none
  | .popSlot =>
    match s.consumer with
    | .copy l out copied =>
      if copied < l.popCount.toNat then
        some { s with
          consumer := .copy l
            (out ++ slot L.granularity s.data (place L l.readIndex l.popCount copied))
            (copied + 1) }
      else none
    | _ => none
  | .storeReadIndex =>
    match s.consumer with
    | .copy l out copied =>
      if copied < l.popCount.toNat then none
      else
        some { s with
          readIndex := l.readIndex + l.popCount
          consumer := .idle
          popped := s.popped ++ out }
    | _ => none

def Callable (_ : RingBuffer T) : Action T → Prop
  | .push newSlots slotCount => slotCount.toNat * L.granularity ≤ newSlots.length
  | _ => True

def pushVector (input : List T) : Action T :=
  .push input (UInt64.ofNat (input.length / L.granularity))

/-- `std::vector<T> Pop(std::size_t)`: its vector has room for `capacity` slots at most. -/
def popVector (maxSlots : UInt64) : Action T := .pop (minSize maxSlots (capacity L))

/-- Both threads are outside of their functions; the indices may be anywhere. -/
def Start (s : RingBuffer T) : Prop :=
  s.data.length = L.capacity * L.granularity ∧ s.size.toNat ≤ L.capacity ∧
    s.producer = .idle ∧ s.consumer = .idle ∧ s.popped = [] ∧
    s.accepted = window L.granularity L.capacity s.data s.readIndex.toNat s.size.toNat

abbrev Reachable (s : RingBuffer T) : Prop :=
  Runs.Reachable (Start L) (fun s a s' => step L s a = some s') (Callable L) s

end

theorem toNat_minSize (a b : UInt64) : (minSize a b).toNat = min a.toNat b.toNat := by
  unfold minSize
  split_ifs with less
  · rw [UInt64.lt_iff_toNat_lt] at less
    omega
  · rw [UInt64.lt_iff_toNat_lt] at less
    omega

variable {L : RingShape}

theorem capacity_pos : 0 < L.capacity := by
  obtain ⟨k, h⟩ := L.powerOfTwo
  rw [h]
  exact Nat.two_pow_pos k

theorem capacity_lt : L.capacity < 2 ^ 63 := by
  have := L.sensible
  have := Nat.div_le_self ((2 ^ 64 - 1) / 2) L.granularity
  omega

theorem toNat_capacity : (capacity L).toNat = L.capacity := by
  have := capacity_lt (L := L)
  exact UInt64.toNat_ofNat_of_lt' (by simp only [UInt64.size]; omega)

theorem capacity_dvd : L.capacity ∣ 2 ^ 64 := by
  obtain ⟨k, h⟩ := L.powerOfTwo
  have small := capacity_lt (L := L)
  rw [h] at small ⊢
  exact Nat.pow_dvd_pow 2 (by have := (Nat.pow_lt_pow_iff_right (by omega)).mp small; omega)

theorem toNat_position {index : UInt64} {n : Nat} (h : index.toNat = n % 2 ^ 64) :
    (position L index).toNat = n % L.capacity := by
  rw [position, UInt64.toNat_mod, toNat_capacity, h, Nat.mod_mod_of_dvd _ capacity_dvd]

/-- Both copies of a call together go around the array once at most. -/
theorem place_eq {index count : UInt64} {n i : Nat} (h : index.toNat = n % 2 ^ 64)
    (fits : count.toNat ≤ L.capacity) (small : i < count.toNat) :
    place L index count i = (n + i) % L.capacity := by
  have pos := capacity_pos (L := L)
  have at_ := toNat_position (L := L) h
  have below := Nat.mod_lt n pos
  have room : (capacity L - position L index).toNat = L.capacity - n % L.capacity := by
    rw [UInt64.toNat_sub_of_le, toNat_capacity, at_]
    rw [UInt64.le_iff_toNat_le, toNat_capacity]
    omega
  have first : (firstCopy L index count).toNat = min (L.capacity - n % L.capacity) count.toNat := by
    rw [firstCopy, toNat_minSize, room]
  have wraps : (n + i) % L.capacity = (n % L.capacity + i) % L.capacity := by
    rw [Nat.add_mod, Nat.mod_eq_of_lt (by omega : i < L.capacity)]
  rw [place, at_, wraps]
  split_ifs with within
  · exact (Nat.mod_eq_of_lt (by omega)).symm
  · have beyond : L.capacity ≤ n % L.capacity + i := by omega
    rw [Nat.mod_eq_sub_mod beyond,
      Nat.mod_eq_of_lt (by omega : n % L.capacity + i - L.capacity < L.capacity)]
    omega

end RingBuffer

end EmuThreeDS
