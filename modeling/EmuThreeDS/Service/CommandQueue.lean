import EmuThreeDS.Exec
import Mathlib.Data.List.FinRange

/-!
# The command buffers of the GSP module (`gsp_gpu.cpp`)

`TriggerCmdReqQueue` counts up to a number that every turn takes one from, and from the first slot
on: of `n` commands it executes the first half and leaves the rest pending, at an index that it
never moves. What a command does is a parameter; it may write the buffers, which are memory.
-/
namespace EmuThreeDS.GSP

def numSlots : Nat := 15

/-- The two fields of the header, and the commands behind it. -/
structure CommandBuffer (C : Type) where
  index : UInt8
  numberCommands : UInt8
  commands : Fin numSlots → C

variable {M C : Type}

abbrev Buffers (C : Type) := Fin 4 → CommandBuffer C

/-- `ExecuteCommand`: a command of a thread, on the rest of the memory and the shared buffers. -/
abbrev ExecuteCommand (M C : Type) := C → Fin 4 → M × Buffers C → Exec (M × Buffers C)

variable (b : CommandBuffer C)

/-- `commands[i]`, which nothing checks. -/
def CommandBuffer.command (i : Nat) : Exec C :=
  if inside : i < numSlots then .ok (b.commands ⟨i, inside⟩) else .error .undefinedBehaviour

section

variable (executeCommand : ExecuteCommand M C)

/-- The loop over the commands of a buffer, whose count is read afresh in each turn. It has eight
bits, so that there are at most 0x100 turns. -/
def executeBuffer (threadId : Fin 4) : (turns i : Nat) → M × Buffers C →
    Exec (List C × M × Buffers C)
  | 0, _, s => .ok ([], s)
  | turns + 1, i, s =>
    if i < (s.2 threadId).numberCommands.toNat then do
      let command ← (s.2 threadId).command i
      let (memory, buffers) ← executeCommand command threadId s
      let b := buffers threadId
      let b := { b with numberCommands := b.numberCommands - 1 }
      let (later, s) ←
        executeBuffer threadId turns (i + 1) (memory, Function.update buffers threadId b)
      return (command :: later, s)
    else .ok ([], s)

def triggerFrom : List (Fin 4) → M × Buffers C → Exec (List (Fin 4 × C) × M × Buffers C)
  | [], s => .ok ([], s)
  | threadId :: rest, s => do
    let (executed, s) ← executeBuffer executeCommand threadId 0x100 0 s
    let (later, s) ← triggerFrom rest s
    return (executed.map (threadId, ·) ++ later, s)

/-- The commands that are executed, with their threads, and what is left of the memory. -/
def triggerCmdReqQueue (s : M × Buffers C) : Exec (List (Fin 4 × C) × M × Buffers C) :=
  triggerFrom executeCommand (List.finRange 4) s

end

def ofThread (log : List (Fin 4 × C)) (threadId : Fin 4) : List C :=
  (log.filter (·.1 = threadId)).map (·.2)

def nextIndex (index : UInt8) : UInt8 := ((index.toNat + 1) % numSlots).toUInt8

namespace CommandBuffer

/-- The slot of the command behind `k` others. -/
def slot (k : Nat) : Fin numSlots :=
  ⟨(b.index.toNat + k) % numSlots, Nat.mod_lt _ (by decide)⟩

def pending : List C :=
  (List.range b.numberCommands.toNat).map fun k => b.commands (b.slot k)

def write (command : C) : CommandBuffer C where
  index := b.index
  numberCommands := b.numberCommands + 1
  commands := Function.update b.commands (b.slot b.numberCommands.toNat) command

end CommandBuffer

/-- Each pending command was executed once and in order, none is pending any more, and the index
is behind them. -/
def Documented (buffers : Buffers C) (log : List (Fin 4 × C)) (after : Buffers C) : Prop :=
  ∀ t, ofThread log t = (buffers t).pending ∧ (after t).numberCommands = 0 ∧
    (after t).index = nextIndex^[(buffers t).numberCommands.toNat] (buffers t).index

/-- The command returns and leaves the command buffers alone. -/
def Plain (executeCommand : ExecuteCommand M C) (command : C) : Prop :=
  ∀ threadId memory buffers, ∃ memory',
    executeCommand command threadId (memory, buffers) = .ok (memory', buffers)

def CommandBuffer.half : Nat := (b.numberCommands.toNat + 1) / 2

/-- The commands in as many slots as half of the count are plain. -/
def PlainHalf (executeCommand : ExecuteCommand M C) (b : CommandBuffer C) : Prop :=
  ∀ j : Fin numSlots, j.val < b.half → Plain executeCommand (b.commands j)

section

variable {executeCommand : ExecuteCommand M C} {buffers after : Buffers C} {memory memory' : M}
  {log : List (Fin 4 × C)} {t : Fin 4} {threads : List (Fin 4)} {i k turns : Nat}
  (b : CommandBuffer C)

def slots (i k : Nat) : List C :=
  (List.range' i k).map fun j => b.commands ⟨j % numSlots, Nat.mod_lt _ (by decide)⟩

def CommandBuffer.less (k : Nat) : CommandBuffer C :=
  { b with numberCommands := (b.numberCommands.toNat - k).toUInt8 }

theorem less_zero : b.less 0 = b := by
  unfold CommandBuffer.less
  rw [Nat.sub_zero, Nat.toUInt8, UInt8.ofNat_toNat]

theorem toNat_pred {number : UInt8} (some_left : 0 < number.toNat) :
    (number - 1).toNat = number.toNat - 1 :=
  UInt8.toNat_sub_of_le number 1 some_left

theorem less_less (some_left : 0 < b.numberCommands.toNat) :
    ({ b with numberCommands := b.numberCommands - 1 } : CommandBuffer C).less k =
      b.less (k + 1) := by
  simp only [CommandBuffer.less, toNat_pred some_left, Nat.sub_sub, Nat.add_comm 1 k]

/-- Plain commands run from `i` on until the counts meet, if that is within the slots. -/
theorem executeBuffer_plain (enough : 0x100 ≤ turns + i)
    (halves : k = ((buffers t).numberCommands.toNat - i + 1) / 2)
    (plain : ∀ j : Fin numSlots, i ≤ j.val → j.val < i + k →
      Plain executeCommand ((buffers t).commands j)) :
    (k = 0 ∨ i + k ≤ numSlots → ∃ memory', executeBuffer executeCommand t turns i
        (memory, buffers) = .ok (slots (buffers t) i k, memory',
          Function.update buffers t ((buffers t).less k))) ∧ (¬ (k = 0 ∨ i + k ≤ numSlots) →
        ¬ Answers (executeBuffer executeCommand t turns i (memory, buffers))) := by
  induction turns generalizing i k memory buffers with
  | zero =>
    have small := (buffers t).numberCommands.toNat_lt
    obtain rfl : k = 0 := by omega
    refine ⟨fun _ => ⟨memory, ?_⟩, fun beyond => absurd (.inl rfl) beyond⟩
    rw [less_zero, Function.update_eq_self]
    rfl
  | succ turns ih =>
    unfold executeBuffer
    by_cases more : i < (buffers t).numberCommands.toNat
    · obtain ⟨k, rfl⟩ := Nat.exists_eq_succ_of_ne_zero (show k ≠ 0 by omega)
      rw [if_pos more]
      by_cases inside : i < numSlots
      · have fetched : (buffers t).command i = .ok ((buffers t).commands ⟨i, inside⟩) :=
          dif_pos inside
        obtain ⟨memory₁, done⟩ := plain ⟨i, inside⟩ (Nat.le_refl i) (by simp only; omega) t
          memory buffers
        rw [fetched, ok_bind, done, ok_bind]
        dsimp only
        have pos : 0 < (buffers t).numberCommands.toNat := by omega
        generalize next : Function.update buffers t _ = buffers'
        have here : buffers' t =
            { buffers t with numberCommands := (buffers t).numberCommands - 1 } := by
          rw [← next, Function.update_self]
        have commands : (buffers' t).commands = (buffers t).commands := by rw [here]
        obtain ⟨run, stop⟩ := @ih buffers' memory₁ (i + 1) k (by omega)
          (by rw [here, toNat_pred pos]; omega) (by
            rw [commands]
            exact fun j low high => plain j (by omega) (by omega))
        constructor
        · intro fits
          obtain ⟨memory', run⟩ := run (by omega)
          refine ⟨memory', ?_⟩
          have first : (⟨i % numSlots, Nat.mod_lt _ (by decide)⟩ : Fin numSlots) = ⟨i, inside⟩ :=
            Fin.ext (Nat.mod_eq_of_lt inside)
          rw [run, ok_bind, here, less_less _ pos, ← next, Function.update_idem, pure_eq_ok]
          simp only [slots, List.range'_succ, List.map_cons, first]
        · intro beyond answers
          obtain ⟨_, run, _⟩ := answers_bind.mp answers
          exact stop (by omega) ⟨_, run⟩
      · have fetched : (buffers t).command i = .error .undefinedBehaviour := dif_neg inside
        rw [fetched, error_bind]
        exact ⟨fun fits => by omega, fun _ => not_answers_error _⟩
    · obtain rfl : k = 0 := by omega
      rw [if_neg more]
      refine ⟨fun _ => ⟨memory, ?_⟩, fun beyond => absurd (.inl rfl) beyond⟩
      rw [less_zero, Function.update_eq_self]
      rfl

theorem executeBuffer_half (plain : PlainHalf executeCommand (buffers t)) :
    ((buffers t).numberCommands.toNat ≤ 2 * numSlots →
      ∃ memory', executeBuffer executeCommand t 0x100 0 (memory, buffers) =
        .ok (slots (buffers t) 0 (buffers t).half, memory',
          Function.update buffers t ((buffers t).less (buffers t).half))) ∧
      (¬ (buffers t).numberCommands.toNat ≤ 2 * numSlots →
        ¬ Answers (executeBuffer executeCommand t 0x100 0 (memory, buffers))) := by
  obtain ⟨run, stop⟩ := @executeBuffer_plain _ _ executeCommand buffers memory t 0 _ 0x100
    (Nat.le_refl _) rfl fun j _ high => plain j (by rwa [Nat.zero_add] at high)
  have few : (buffers t).numberCommands.toNat ≤ 2 * numSlots ↔ (buffers t).half = 0 ∨
      0 + (buffers t).half ≤ numSlots := by
    unfold CommandBuffer.half
    omega
  exact ⟨fun h => run (few.mp h), fun h => stop fun fits => h (few.mpr fits)⟩

theorem PlainHalf.less {b : CommandBuffer C} (plain : PlainHalf executeCommand b) :
    PlainHalf executeCommand (b.less k) := by
  intro j low
  refine plain j (Nat.lt_of_lt_of_le low ?_)
  have small := b.numberCommands.toNat_lt
  simp only [CommandBuffer.half, CommandBuffer.less, Nat.toUInt8, UInt8.toNat_ofNat']
  omega

theorem ofThread_append (log more : List (Fin 4 × C)) (t : Fin 4) :
    ofThread (log ++ more) t = ofThread log t ++ ofThread more t := by
  simp [ofThread]

theorem ofThread_map (executed : List C) (t u : Fin 4) :
    ofThread (executed.map (t, ·)) u = if t = u then executed else [] := by
  unfold ofThread
  split_ifs with same
  · simp [List.filter_map, Function.comp_def, same]
  · simp [List.filter_map, Function.comp_def, same]

/-- The first half of each buffer is executed, and the count is what is left. -/
def Halved (threads : List (Fin 4)) (buffers : Buffers C) (log : List (Fin 4 × C))
    (after : Buffers C) : Prop :=
  ∀ t, if t ∈ threads then ofThread log t = slots (buffers t) 0 (buffers t).half ∧
      after t = (buffers t).less (buffers t).half
    else ofThread log t = [] ∧ after t = buffers t

theorem triggerFrom_plain (plain : ∀ t, PlainHalf executeCommand (buffers t))
    (once : threads.Nodup) : ((∀ t ∈ threads, (buffers t).numberCommands.toNat ≤ 2 * numSlots) →
      ∃ log memory' after, triggerFrom executeCommand threads (memory, buffers) =
        .ok (log, memory', after) ∧ Halved threads buffers log after) ∧
      (Answers (triggerFrom executeCommand threads (memory, buffers)) →
        ∀ t ∈ threads, (buffers t).numberCommands.toNat ≤ 2 * numSlots) := by
  induction threads generalizing buffers memory with
  | nil => exact ⟨fun _ => ⟨[], memory, buffers, rfl, fun t => ⟨rfl, rfl⟩⟩, fun _ => nofun⟩
  | cons u threads ih =>
    obtain ⟨out, once⟩ := List.nodup_cons.mp once
    obtain ⟨first, stop⟩ := @executeBuffer_half _ _ executeCommand buffers memory u (plain u)
    generalize next : Function.update buffers u ((buffers u).less (buffers u).half) = buffers'
      at first
    have others : ∀ t, t ≠ u → buffers' t = buffers t := fun t other => by
      rw [← next, Function.update_of_ne other]
    have apart : ∀ t ∈ threads, t ≠ u := fun t mem same => out (same ▸ mem)
    have plain' : ∀ t, PlainHalf executeCommand (buffers' t) := fun t => by
      by_cases here : t = u
      · rw [← next, here, Function.update_self]
        exact (plain u).less
      · rw [others t here]
        exact plain t
    rw [List.forall_mem_cons]
    constructor
    · rintro ⟨few, rest⟩
      obtain ⟨memory₁, run₁⟩ := first few
      obtain ⟨log, memory', after, run, halved⟩ := (@ih buffers' memory₁ plain' once).1
        fun t mem => by rw [others t (apart t mem)]; exact rest t mem
      refine ⟨_, memory', after, by simp only [triggerFrom, run₁, ok_bind, run]; rfl, ?_⟩
      intro t
      have later := halved t
      rw [ofThread_append, ofThread_map]
      by_cases here : t = u
      · subst here
        rw [if_neg out, ← next, Function.update_self] at later
        rw [if_pos List.mem_cons_self, if_pos rfl, later.1, List.append_nil]
        exact ⟨rfl, later.2⟩
      · rw [others t here] at later
        rw [if_neg (Ne.symm here)]
        simpa [here] using later
    · rintro ⟨_, run⟩
      obtain ⟨part, run₁, run⟩ := bind_eq_ok.mp run
      have few : (buffers u).numberCommands.toNat ≤ 2 * numSlots := by
        by_contra many
        exact stop many ⟨_, run₁⟩
      obtain ⟨memory₁, run₁'⟩ := first few
      cases run₁.symm.trans run₁'
      obtain ⟨_, run, _⟩ := bind_eq_ok.mp run
      refine ⟨few, fun t mem => ?_⟩
      rw [← others t (apart t mem)]
      exact (@ih buffers' memory₁ plain' once).2 ⟨_, run⟩ t mem

theorem trigger_answers (plain : ∀ t, PlainHalf executeCommand (buffers t)) :
    Answers (triggerCmdReqQueue executeCommand (memory, buffers)) ↔
      ∀ t, (buffers t).numberCommands.toNat ≤ 2 * numSlots := by
  have once := List.nodup_finRange 4
  constructor
  · exact fun answers t => (triggerFrom_plain plain once).2 answers t (List.mem_finRange t)
  · intro few
    obtain ⟨log, memory', after, run, _⟩ :=
      (@triggerFrom_plain _ _ _ _ memory _ plain once).1 fun t _ => few t
    exact ⟨_, run⟩

theorem trigger_thread (plain : ∀ t, PlainHalf executeCommand (buffers t))
    (run : triggerCmdReqQueue executeCommand (memory, buffers) = .ok (log, memory', after))
    (t : Fin 4) : ofThread log t = slots (buffers t) 0 (buffers t).half ∧
      after t = (buffers t).less (buffers t).half := by
  have few := (trigger_answers plain).mp ⟨_, run⟩
  obtain ⟨_, _, _, run', halved⟩ :=
    (@triggerFrom_plain _ _ _ _ memory _ plain (List.nodup_finRange 4)).1 fun t _ => few t
  cases run.symm.trans run'
  have turn := halved t
  rwa [if_pos (List.mem_finRange t)] at turn

theorem executeBuffer_none (none : (buffers t).numberCommands = 0) :
    executeBuffer executeCommand t 0x100 0 (memory, buffers) = .ok ([], memory, buffers) := by
  unfold executeBuffer
  rw [if_neg]
  rw [none]
  exact Nat.lt_irrefl 0

/-- Whatever commands do, none of them is executed where none is pending. -/
theorem triggerFrom_none (none : ∀ t, (buffers t).numberCommands = 0) :
    triggerFrom executeCommand threads (memory, buffers) = .ok ([], memory, buffers) := by
  induction threads with
  | nil => rfl
  | cons u threads ih =>
    simp only [triggerFrom, executeBuffer_none (none u), ok_bind, ih]
    rfl

theorem documented_none (none : ∀ t, (buffers t).numberCommands = 0) :
    Documented buffers [] buffers := by
  intro t
  rw [CommandBuffer.pending, none t]
  exact ⟨rfl, rfl, rfl⟩

theorem nextIndex_ne (index : UInt8) : nextIndex index ≠ index := by
  intro same
  have values := congrArg UInt8.toNat same
  simp only [nextIndex, numSlots, Nat.toUInt8, UInt8.toNat_ofNat'] at values
  omega

/-- A call does what the header says just if there is nothing to do. -/
theorem documented_iff (plain : ∀ t, PlainHalf executeCommand (buffers t))
    (run : triggerCmdReqQueue executeCommand (memory, buffers) = .ok (log, memory', after)) :
    Documented buffers log after ↔ ∀ t, (buffers t).numberCommands = 0 := by
  constructor
  · intro documented t
    obtain ⟨-, none, index⟩ := documented t
    rw [(trigger_thread plain run t).2] at none index
    have none := congrArg UInt8.toNat none
    have small := (buffers t).numberCommands.toNat_lt
    simp only [CommandBuffer.less, CommandBuffer.half, Nat.toUInt8, UInt8.toNat_ofNat',
      UInt8.toNat_zero] at none
    rw [← UInt8.toNat_inj, UInt8.toNat_zero]
    by_contra some
    have one : (buffers t).numberCommands.toNat = 1 := by omega
    rw [one] at index
    exact nextIndex_ne _ index.symm
  · intro none
    cases run.symm.trans (triggerFrom_none none)
    exact documented_none none

end

structure Rounds (M C : Type) where
  memory : M
  buffers : Buffers C
  enqueued : Fin 4 → List C
  executed : Fin 4 → List C

namespace Rounds

def Start (s : Rounds M C) : Prop :=
  ∀ t, (s.buffers t).numberCommands = 0 ∧ s.enqueued t = [] ∧ s.executed t = []

/-- A call finds at most one command in each buffer, and that in the first slot. -/
def Single (s : Rounds M C) : Prop :=
  ∀ t, (s.buffers t).numberCommands = 0 ∨ (s.buffers t).numberCommands = 1 ∧ (s.buffers t).index = 0

instance decidableSingle (s : Rounds M C) : Decidable s.Single :=
  inferInstanceAs (Decidable (∀ _, _ ∨ _))

inductive Step (executeCommand : ExecuteCommand M C) : Rounds M C → Rounds M C → Prop where
  | enqueue {s : Rounds M C} (t : Fin 4) (command : C)
      (room : (s.buffers t).numberCommands.toNat < numSlots) :
      Step executeCommand s { s with
        buffers := Function.update s.buffers t ((s.buffers t).write command)
        enqueued := Function.update s.enqueued t (s.enqueued t ++ [command]) }
  | trigger {s : Rounds M C} {log : List (Fin 4 × C)} {memory' : M} {after : Buffers C}
      (single : s.Single) (plain : ∀ t, PlainHalf executeCommand (s.buffers t))
      (run : triggerCmdReqQueue executeCommand (s.memory, s.buffers) =
        .ok (log, memory', after)) :
      Step executeCommand s { s with
        memory := memory'
        buffers := after
        executed := fun t => s.executed t ++ ofThread log t }

/-- Every command is executed or pending, once, and in the order of the application. -/
def Kept (s : Rounds M C) : Prop :=
  ∀ t, (s.buffers t).numberCommands.toNat ≤ numSlots ∧
    s.executed t ++ (s.buffers t).pending = s.enqueued t

theorem pending_write {b : CommandBuffer C} (room : b.numberCommands.toNat < numSlots)
    (command : C) : (b.write command).pending = b.pending ++ [command] := by
  have more : (b.write command).numberCommands.toNat = b.numberCommands.toNat + 1 := by
    simp only [CommandBuffer.write, UInt8.toNat_add, UInt8.toNat_one]
    unfold numSlots at room
    omega
  unfold CommandBuffer.pending
  rw [more, List.range_succ, List.map_append]
  congr 1
  · apply List.map_congr_left
    intro k mem
    have earlier := List.mem_range.mp mem
    have other : b.slot k ≠ b.slot b.numberCommands.toNat := by
      intro same
      have values := congrArg Fin.val same
      simp only [CommandBuffer.slot] at values
      unfold numSlots at values room
      omega
    exact Function.update_of_ne other _ _
  · exact congrArg (fun c => [c]) (Function.update_self ..)

variable {executeCommand : ExecuteCommand M C} {s s' : Rounds M C}

theorem Step.kept (step : Step executeCommand s s') (h : s.Kept) : s'.Kept := by
  cases step with
  | enqueue t command room =>
    intro u
    obtain ⟨few, same⟩ := h u
    by_cases here : u = t
    · subst here
      simp only [Function.update_self]
      refine ⟨?_, by rw [pending_write room, ← List.append_assoc, same]⟩
      simp only [CommandBuffer.write, UInt8.toNat_add, UInt8.toNat_one]
      omega
    · simp only [Function.update_of_ne here]
      exact ⟨few, same⟩
  | @trigger log memory' after single plain run =>
    intro t
    obtain ⟨few, same⟩ := h t
    obtain ⟨executed, changed⟩ := trigger_thread plain run t
    dsimp only
    rw [changed, executed, ← same]
    rcases single t with none | ⟨one, first⟩
    · rw [CommandBuffer.half, CommandBuffer.pending, none]
      simp [CommandBuffer.pending, CommandBuffer.less, none, slots]
    · rw [CommandBuffer.half, CommandBuffer.pending, one]
      simp [CommandBuffer.pending, CommandBuffer.less, CommandBuffer.slot, one, first, slots]

theorem kept_of_run (start : s.Start) (run : Relation.ReflTransGen (Step executeCommand) s s') :
    s'.Kept := by
  induction run with
  | refl =>
    intro t
    obtain ⟨none, enqueued, executed⟩ := start t
    rw [CommandBuffer.pending, none, enqueued, executed]
    exact ⟨Nat.zero_le _, rfl⟩
  | tail _ step ih => exact step.kept ih

end Rounds

def addCommand : ExecuteCommand Nat Nat := fun command _ s => .ok (s.1 + command, s.2)

theorem addCommand_plain (b : CommandBuffer Nat) : PlainHalf addCommand b :=
  fun j _ _ memory _ => ⟨memory + b.commands j, rfl⟩

def someBuffers (number : UInt8) : Buffers Nat := fun _ => ⟨0, number, Fin.val⟩

end EmuThreeDS.GSP
