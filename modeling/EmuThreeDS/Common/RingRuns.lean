import EmuThreeDS.Common.RingBuffer
import EmuThreeDS.Lib.Queues

/-!
# Runs of the ring buffer

The free running indices are the low bits of two counts `r ≤ r + n`, and the slots numbered
`r` to `r + n` hold the pending part of a bounded queue. What the threads know of each
other's index is old but safe: the other side can only have moved away.
-/
namespace EmuThreeDS.RingBuffer

open FlatSlots

variable {T : Type} {L : RingShape}

def Occupied (L : RingShape) (s : RingBuffer T) (p : Nat) : Prop :=
  ∃ i < s.size.toNat, p = (s.readIndex.toNat + i) % L.capacity

def nextPush (L : RingShape) (s : RingBuffer T) : Option Nat :=
  match s.producer with
  | .copy l copied =>
    if copied < l.pushCount.toNat then some (place L l.writeIndex l.pushCount copied) else none
  | _ => none

def nextPop (L : RingShape) (s : RingBuffer T) : Option Nat :=
  match s.consumer with
  | .copy l _ copied =>
    if copied < l.popCount.toNat then some (place L l.readIndex l.popCount copied) else none
  | _ => none

/-- A `Push` sees as free what is not in use when it reads the read index, and takes what fits. -/
def SeesFree (L : RingShape) (s : RingBuffer T) : Prop :=
  ∀ newSlots slotCount writeIndex s',
    s.producer = .loadReadIndex newSlots slotCount writeIndex →
    step L s .loadReadIndex = some s' →
    ∃ l : PushLocals T, s'.producer = .copy l 0 ∧
      l.newSlots = newSlots ∧ l.slotCount = slotCount ∧
      l.slotsFree.toNat = L.capacity - s.size.toNat ∧
      l.pushCount.toNat = min l.slotCount.toNat l.slotsFree.toNat

/-- A `Push` that ends has added as many slots as it returns, the first ones it was given. -/
def AcceptsFree (L : RingShape) (s : RingBuffer T) : Prop :=
  ∀ l copied s', s.producer = .copy l copied → step L s .storeWriteIndex = some s' →
    l.pushCount.toNat = min l.slotCount.toNat l.slotsFree.toNat ∧
      s'.accepted = s.accepted ++ l.newSlots.take (l.pushCount.toNat * L.granularity) ∧
      s'.accepted.length = s.accepted.length + l.pushCount.toNat * L.granularity

/-- A `Pop` sees as filled what is in use when it reads the write index, and takes what fits. -/
def SeesFilled (L : RingShape) (s : RingBuffer T) : Prop :=
  ∀ maxSlots readIndex s', s.consumer = .loadWriteIndex maxSlots readIndex →
    step L s .loadWriteIndex = some s' →
    ∃ l : PopLocals, s'.consumer = .copy l [] 0 ∧ l.maxSlots = maxSlots ∧
      l.slotsFilled.toNat = s.size.toNat

/-- A `Pop` that ends has delivered as many slots as it returns. -/
def DeliversFilled (L : RingShape) (s : RingBuffer T) : Prop :=
  ∀ l out copied s', s.consumer = .copy l out copied → step L s .storeReadIndex = some s' →
    l.popCount.toNat = min l.slotsFilled.toNat l.maxSlots.toNat ∧
      s'.popped = s.popped ++ out ∧ out.length = l.popCount.toNat * L.granularity

/-- The producer writes inside the array where nothing is stored, the consumer reads what is. -/
def Apart (L : RingShape) (s : RingBuffer T) : Prop :=
  (∀ p, nextPush L s = some p → p < L.capacity ∧ ¬ Occupied L s p) ∧
    ∀ p, nextPop L s = some p → p < L.capacity ∧ Occupied L s p

/-- A producer that has read index count `w` last and may fill `free` slots. -/
def PushesInto (L : RingShape) (s : RingBuffer T) (w free : Nat) : Prop :=
  match s.producer with
  | .idle => True
  | .loadReadIndex newSlots slotCount writeIndex =>
    slotCount.toNat * L.granularity ≤ newSlots.length ∧ writeIndex = s.writeIndex
  | .copy l copied =>
    l.slotCount.toNat * L.granularity ≤ l.newSlots.length ∧ l.writeIndex = s.writeIndex ∧
      l.pushCount = minSize l.slotCount l.slotsFree ∧ l.pushCount.toNat ≤ free ∧
      copied ≤ l.pushCount.toNat ∧
      window L.granularity L.capacity s.data w copied = l.newSlots.take (copied * L.granularity)

def PopsFrom (L : RingShape) (s : RingBuffer T) (r filled : Nat) : Prop :=
  match s.consumer with
  | .idle => True
  | .loadWriteIndex _ readIndex => readIndex = s.readIndex
  | .copy l out copied =>
    l.readIndex = s.readIndex ∧ l.popCount = minSize l.slotsFilled l.maxSlots ∧
      l.popCount.toNat ≤ filled ∧ copied ≤ l.popCount.toNat ∧
      out = window L.granularity L.capacity s.data r copied

/-- The buffer holds the queue in its slots from number `r` on. -/
structure Represents (L : RingShape) (s : RingBuffer T)
    (q : BoundedFifo T (L.capacity * L.granularity)) (r n : Nat) : Prop where
  filled : n ≤ L.capacity
  readIndex : s.readIndex.toNat = r % 2 ^ 64
  writeIndex : s.writeIndex.toNat = (r + n) % 2 ^ 64
  data : s.data.length = L.capacity * L.granularity
  pending : q.pending = window L.granularity L.capacity s.data r n
  popped : s.popped = q.popped
  accepted : s.accepted = q.accepted
  pushes : PushesInto L s (r + n) (L.capacity - n)
  pops : PopsFrom L s r n

variable {s s' : RingBuffer T} {q : BoundedFifo T (L.capacity * L.granularity)} {r n : Nat}

namespace Represents

section

variable (h : Represents L s q r n)
include h

theorem pending_length : q.pending.length = n * L.granularity := by
  rw [h.pending, length_window h.data capacity_pos]

theorem size_eq : s.size.toNat = n := by
  have small := capacity_lt (L := L)
  have filled := h.filled
  have reads := h.readIndex
  have writes := h.writeIndex
  rw [size, UInt64.toNat_sub]
  omega

theorem slotsFree_eq : (capacity L + s.readIndex - s.writeIndex).toNat = L.capacity - n := by
  have small := capacity_lt (L := L)
  have filled := h.filled
  have reads := h.readIndex
  have writes := h.writeIndex
  rw [UInt64.toNat_sub, UInt64.toNat_add, toNat_capacity]
  omega

theorem occupied_iff {p : Nat} : Occupied L s p ↔ ∃ i < n, p = (r + i) % L.capacity := by
  have same (i : Nat) : (s.readIndex.toNat + i) % L.capacity = (r + i) % L.capacity := by
    rw [h.readIndex, Nat.add_mod, Nat.mod_mod_of_dvd _ capacity_dvd, ← Nat.add_mod]
  unfold Occupied
  rw [h.size_eq]
  simp only [same]

theorem sees_free : SeesFree L s := by
  intro newSlots slotCount writeIndex s' pc next
  have pushes := h.pushes
  simp only [PushesInto, pc] at pushes
  obtain ⟨-, rfl⟩ := pushes
  simp only [step, pc] at next
  cases next
  refine ⟨_, rfl, rfl, rfl, ?_, toNat_minSize _ _⟩
  rw [h.size_eq]
  exact h.slotsFree_eq

theorem accepts_free : AcceptsFree L s := by
  intro l copied s' pc next
  have pushes := h.pushes
  simp only [PushesInto, pc] at pushes
  obtain ⟨fits, -, count, -, -, -⟩ := pushes
  have least : l.pushCount.toNat = min l.slotCount.toNat l.slotsFree.toNat := by
    rw [count, toNat_minSize]
  have enough : l.pushCount.toNat * L.granularity ≤ l.newSlots.length :=
    le_trans (Nat.mul_le_mul_right _ (by omega)) fits
  simp only [step, pc] at next
  split at next
  · cases next
  · cases next
    refine ⟨least, rfl, ?_⟩
    rw [List.length_append, List.length_take, min_eq_left enough]

theorem sees_filled : SeesFilled L s := by
  intro maxSlots readIndex s' pc next
  have pops := h.pops
  simp only [PopsFrom, pc] at pops
  subst pops
  simp only [step, pc] at next
  cases next
  exact ⟨_, rfl, rfl, rfl⟩

theorem delivers_filled : DeliversFilled L s := by
  intro l out copied s' pc next
  have pops := h.pops
  simp only [PopsFrom, pc] at pops
  obtain ⟨-, count, -, done, rfl⟩ := pops
  simp only [step, pc] at next
  split at next
  · cases next
  · cases next
    refine ⟨by rw [count, toNat_minSize], rfl, ?_⟩
    rw [length_window h.data capacity_pos, show copied = l.popCount.toNat by omega]

theorem apart : Apart L s := by
  have filled := h.filled
  have pushes := h.pushes
  have pops := h.pops
  constructor
  · intro p next
    rw [h.occupied_iff]
    simp only [nextPush] at next
    split at next
    · next l copied pc =>
      simp only [PushesInto, pc] at pushes
      obtain ⟨-, writes, -, free, -, -⟩ := pushes
      split at next
      · next more =>
        cases next
        have counted : l.writeIndex.toNat = (r + n) % 2 ^ 64 := by rw [writes, h.writeIndex]
        rw [place_eq counted (by omega) more]
        refine ⟨Nat.mod_lt _ capacity_pos, ?_⟩
        rintro ⟨i, small, same⟩
        exact mod_ne_of_lt_turn (by omega) (by omega) same
      · cases next
    · cases next
  · intro p next
    rw [h.occupied_iff]
    simp only [nextPop] at next
    split at next
    · next l out copied pc =>
      simp only [PopsFrom, pc] at pops
      obtain ⟨reads, -, within, -, -⟩ := pops
      split at next
      · next more =>
        cases next
        have counted : l.readIndex.toNat = r % 2 ^ 64 := by rw [reads, h.readIndex]
        rw [place_eq counted (by omega) more]
        exact ⟨Nat.mod_lt _ capacity_pos, copied, by omega, rfl⟩
      · cases next
    · cases next

end

section

variable (h : Represents L s q r n)
include h

theorem push {newSlots : List T} {slotCount : UInt64}
    (callable : slotCount.toNat * L.granularity ≤ newSlots.length)
    (next : step L s (.push newSlots slotCount) = some s') : Represents L s' q r n := by
  simp only [step] at next
  split at next
  · cases next
    exact { h with pushes := ⟨callable, rfl⟩ }
  · cases next

theorem loadReadIndex (next : step L s .loadReadIndex = some s') : Represents L s' q r n := by
  have pushes := h.pushes
  simp only [step] at next
  split at next
  · next newSlots slotCount writeIndex pc =>
    simp only [PushesInto, pc] at pushes
    obtain ⟨fits, rfl⟩ := pushes
    cases next
    have free := h.slotsFree_eq
    refine { h with pushes := ⟨fits, rfl, rfl, ?_, Nat.zero_le _, ?_⟩ }
    · simp only [pushLocals, toNat_minSize, free]
      exact min_le_right _ _
    · simp
  · cases next

theorem pushSlot (next : step L s .pushSlot = some s') : Represents L s' q r n := by
  have pushes := h.pushes
  have pops := h.pops
  simp only [step] at next
  split at next
  · next l copied pc =>
    simp only [PushesInto, pc] at pushes
    obtain ⟨fits, writes, count, free, done, same⟩ := pushes
    split at next
    · next more =>
      have counted : l.writeIndex.toNat = (r + n) % 2 ^ 64 := by rw [writes, h.writeIndex]
      have target := place_eq (L := L) counted (by omega) more
      have enough : (copied + 1) * L.granularity ≤ l.newSlots.length := by
        have asked : l.pushCount.toNat ≤ l.slotCount.toNat := by
          rw [count, toNat_minSize]
          exact min_le_left _ _
        exact le_trans (Nat.mul_le_mul_right _ (by omega)) fits
      have whole : (slot L.granularity l.newSlots copied).length = L.granularity :=
        length_slot (by rwa [Nat.succ_mul] at enough)
      have place := slot_inside (g := L.granularity)
        (Nat.mod_lt (r + n + copied) (capacity_pos (L := L)))
      rw [← h.data] at place
      cases next
      rw [target]
      -- The slots that hold the queue, and those copied before, are not written.
      exact {
        filled := h.filled
        readIndex := h.readIndex
        writeIndex := h.writeIndex
        data := by
          rw [length_setSlot place whole]
          exact h.data
        pending := by
          rw [h.pending]
          exact (window_setSlot h.data whole (by omega) (by omega)).symm
        popped := h.popped
        accepted := h.accepted
        pushes := by
          refine ⟨fits, writes, count, free, more, ?_⟩
          rw [window_succ, window_setSlot h.data whole (by omega) (by omega),
            slot_setSlot place whole, same, Nat.succ_mul, List.take_add]
          rfl
        pops := by
          revert pops
          simp only [PopsFrom]
          cases s.consumer with
          | idle | loadWriteIndex max read => exact fun pops => pops
          | copy k out read =>
            rintro ⟨reads, count, within, got, rfl⟩
            refine ⟨reads, count, within, got, ?_⟩
            exact (window_setSlot h.data whole (by omega) (by omega)).symm }
    · cases next
  · cases next

theorem pop {maxSlots : UInt64} (next : step L s (.pop maxSlots) = some s') :
    Represents L s' q r n := by
  simp only [step] at next
  split at next
  · cases next
    exact { h with pops := rfl }
  · cases next

theorem loadWriteIndex (next : step L s .loadWriteIndex = some s') : Represents L s' q r n := by
  have pops := h.pops
  simp only [step] at next
  split at next
  · next maxSlots readIndex pc =>
    simp only [PopsFrom, pc] at pops
    subst pops
    cases next
    have filled := h.size_eq
    refine { h with pops := ⟨rfl, rfl, ?_, Nat.zero_le _, rfl⟩ }
    simp only [popLocals, toNat_minSize]
    exact le_trans (min_le_left _ _) (le_of_eq filled)
  · cases next

theorem popSlot (next : step L s .popSlot = some s') : Represents L s' q r n := by
  have pops := h.pops
  have filled := h.filled
  simp only [step] at next
  split at next
  · next l out copied pc =>
    simp only [PopsFrom, pc] at pops
    obtain ⟨reads, count, within, done, rfl⟩ := pops
    split at next
    · next more =>
      have counted : l.readIndex.toNat = r % 2 ^ 64 := by rw [reads, h.readIndex]
      cases next
      refine { h with pops := ⟨reads, count, within, more, ?_⟩ }
      rw [place_eq (L := L) counted (by omega) more, window_succ]
    · cases next
  · cases next

theorem take_pending {k : Nat} (le : k ≤ n) :
    q.pending.take (k * L.granularity) = window L.granularity L.capacity s.data r k ∧
      q.pending.drop (k * L.granularity) =
        window L.granularity L.capacity s.data (r + k) (n - k) := by
  have split : q.pending = window L.granularity L.capacity s.data r k ++
      window L.granularity L.capacity s.data (r + k) (n - k) := by
    rw [h.pending, ← window_add, Nat.add_sub_cancel' le]
  have size := length_window h.data capacity_pos r k
  rw [split]
  exact ⟨List.take_left' size, List.drop_left' size⟩

theorem storeReadIndex (next : step L s .storeReadIndex = some s') :
    ∃ k ≤ n, Represents L s' (q.dequeue (k * L.granularity)) (r + k) (n - k) := by
  have pops := h.pops
  have pushes := h.pushes
  have filled := h.filled
  simp only [step] at next
  split at next
  · next l out copied pc =>
    simp only [PopsFrom, pc] at pops
    obtain ⟨reads, -, within, done, rfl⟩ := pops
    split at next
    · cases next
    · next finished =>
      have all : copied = l.popCount.toNat := by omega
      obtain ⟨front, rest⟩ := h.take_pending within
      have from_ := h.readIndex
      have same : r + l.popCount.toNat + (n - l.popCount.toNat) = r + n := by omega
      cases next
      refine ⟨l.popCount.toNat, within, ?_⟩
      exact {
        filled := by omega
        readIndex := by
          simp only [UInt64.toNat_add, reads]
          omega
        writeIndex := by
          rw [same]
          exact h.writeIndex
        data := h.data
        pending := rest
        popped := by
          simp only [BoundedFifo.dequeue]
          rw [h.popped, front, all]
        accepted := by
          rw [BoundedFifo.accepted_dequeue]
          exact h.accepted
        pushes := by
          rw [same]
          revert pushes
          simp only [PushesInto]
          cases s.producer with
          | idle | loadReadIndex newSlots slotCount writeIndex => exact fun pushes => pushes
          | copy l copied =>
            rintro ⟨fits, writes, count, free, done, same⟩
            exact ⟨fits, writes, count, by omega, done, same⟩
        pops := trivial }
  · cases next

theorem storeWriteIndex (next : step L s .storeWriteIndex = some s') :
    ∃ (xs : List T) (room : q.pending.length + xs.length ≤ L.capacity * L.granularity) (k : Nat),
      Represents L s' (q.enqueue xs room) r (n + k) := by
  have pops := h.pops
  have pushes := h.pushes
  have filled := h.filled
  simp only [step] at next
  split at next
  · next l copied pc =>
    simp only [PushesInto, pc] at pushes
    obtain ⟨fits, writes, count, free, done, same⟩ := pushes
    split at next
    · cases next
    · next finished =>
      have all : copied = l.pushCount.toNat := by omega
      subst all
      have size := length_window h.data capacity_pos (r + n) l.pushCount.toNat
      rw [same] at size
      have from_ := h.writeIndex
      cases next
      refine ⟨l.newSlots.take (l.pushCount.toNat * L.granularity), ?_, l.pushCount.toNat, ?_⟩
      · rw [h.pending_length, size, ← Nat.add_mul]
        exact Nat.mul_le_mul_right _ (by omega)
      · exact {
          filled := by omega
          readIndex := h.readIndex
          writeIndex := by
            simp only [UInt64.toNat_add, writes]
            omega
          data := h.data
          pending := by
            simp only [BoundedFifo.enqueue]
            rw [window_add, h.pending, same]
          popped := h.popped
          accepted := by
            rw [BoundedFifo.accepted_enqueue, ← h.accepted]
          pushes := trivial
          pops := by
            revert pops
            simp only [PopsFrom]
            cases s.consumer with
            | idle | loadWriteIndex max read => exact fun pops => pops
            | copy k out read =>
              rintro ⟨reads, count, within, rest⟩
              exact ⟨reads, count, by omega, rest⟩ }
  · cases next

theorem step_refines {a : Action T} (callable : Callable L s a) (next : step L s a = some s') :
    ∃ (q' : BoundedFifo T (L.capacity * L.granularity)) (r' n' : Nat),
      q.Step q' ∧ Represents L s' q' r' n' := by
  cases a with
  | push newSlots slotCount => exact ⟨q, r, n, .stay, h.push callable next⟩
  | loadReadIndex => exact ⟨q, r, n, .stay, h.loadReadIndex next⟩
  | pushSlot => exact ⟨q, r, n, .stay, h.pushSlot next⟩
  | storeWriteIndex =>
    obtain ⟨xs, room, k, after⟩ := h.storeWriteIndex next
    exact ⟨_, r, n + k, .enqueue xs room, after⟩
  | pop maxSlots => exact ⟨q, r, n, .stay, h.pop next⟩
  | loadWriteIndex => exact ⟨q, r, n, .stay, h.loadWriteIndex next⟩
  | popSlot => exact ⟨q, r, n, .stay, h.popSlot next⟩
  | storeReadIndex =>
    obtain ⟨k, le, after⟩ := h.storeReadIndex next
    exact ⟨_, r + k, n - k, .dequeue _, after⟩

end

end Represents

theorem represents_start (start : Start L s) :
    ∃ (q : BoundedFifo T (L.capacity * L.granularity)) (n : Nat),
      Represents L s q s.readIndex.toNat n := by
  obtain ⟨data, filled, producer, consumer, popped, accepted⟩ := start
  have size := length_window data capacity_pos s.readIndex.toNat s.size.toNat
  have reads := s.readIndex.toNat_lt
  have writes := s.writeIndex.toNat_lt
  refine ⟨⟨[], window L.granularity L.capacity s.data s.readIndex.toNat s.size.toNat, ?_⟩,
    s.size.toNat, ?_⟩
  · rw [size]
    exact Nat.mul_le_mul_right _ filled
  · exact {
      filled := filled
      readIndex := (Nat.mod_eq_of_lt reads).symm
      writeIndex := by
        rw [RingBuffer.size, UInt64.toNat_sub]
        omega
      data := data
      pending := rfl
      popped := popped
      accepted := accepted
      pushes := by
        rw [PushesInto, producer]
        trivial
      pops := by
        rw [PopsFrom, consumer]
        trivial }

theorem reachable_represents (h : Reachable L s) :
    ∃ (q : BoundedFifo T (L.capacity * L.granularity)) (r n : Nat), Represents L s q r n := by
  refine h.invariant (I := fun s => ∃ q r n, Represents L s q r n) ?_ ?_
  · intro s start
    obtain ⟨q, n, represents⟩ := represents_start start
    exact ⟨q, _, n, represents⟩
  · rintro s a s' ⟨q, r, n, represents⟩ callable next
    obtain ⟨q', r', n', -, after⟩ := represents.step_refines callable next
    exact ⟨q', r', n', after⟩

def run (L : RingShape) : RingBuffer T → List (Action T) → Option (RingBuffer T)
  | s, [] => some s
  | s, a :: rest => (step L s a).bind fun s' => run L s' rest

theorem reachable_run {actions : List (Action T)} (h : Reachable L s)
    (callable : ∀ a ∈ actions, ∀ s, Callable L s a) (ends : run L s actions = some s') :
    Reachable L s' := by
  induction actions generalizing s with
  | nil =>
    cases ends
    exact h
  | cons a rest ih =>
    obtain ⟨middle, next, others⟩ := Option.bind_eq_some_iff.mp ends
    exact ih (h.step (callable a (by simp) s) next) (fun b mem => callable b (by simp [mem])) others

end EmuThreeDS.RingBuffer
