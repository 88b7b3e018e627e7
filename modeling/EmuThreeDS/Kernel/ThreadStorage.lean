import EmuThreeDS.Kernel.Clients
import EmuThreeDS.Kernel.ReadyThreads
import EmuThreeDS.Kernel.Region
import EmuThreeDS.Lib.BitFields
import EmuThreeDS.Memory.Blocks

/-!
# Live threads

A thread becomes live only when it is created, whatever else the kernel does.
-/
namespace EmuThreeDS
namespace Kernel

variable {k k' k'' : Kernel} {t : ThreadId}

def NoneBorn (k k' : Kernel) : Prop := ∀ u, Live (k'.statusOf u) → Live (k.statusOf u)

theorem NoneBorn.refl (k : Kernel) : NoneBorn k k := fun _ => id

theorem NoneBorn.trans (first : NoneBorn k k') (second : NoneBorn k' k'') : NoneBorn k k'' :=
  fun u => first u ∘ second u

theorem noneBorn_of_status (same : k'.statusOf = k.statusOf) : NoneBorn k k' := by
  intro u live
  rw [← same]
  exact live

theorem noneBorn_setThread {f : Thread → Thread}
    (kept : Live (f (k.thread t)).status → Live (k.thread t).status) :
    NoneBorn k (k.setThread t f) := by
  intro u live
  rw [statusOf_setThread] at live
  split_ifs at live with same
  · rw [same]
    exact kept live
  · exact live

theorem live_running (running : k.statusOf t = .running) : Live (k.statusOf t) := by
  rw [running]
  exact ⟨nofun, nofun⟩

theorem Calm.noneBorn (h : Calm k k') : NoneBorn k k' := by
  intro u live
  cases h with
  | @thread t f same =>
    rw [statusOf_setThread] at live
    split_ifs at live with eq
    · rw [(same _).1] at live
      rw [eq]
      exact live
    · exact live
  | waiting | reorder | stamp => exact live
  | @release a t _ waits =>
    by_cases same : u = t
    · rw [same, statusOf, waits]
      exact ⟨(by rintro ⟨⟩), (by rintro ⟨⟩)⟩
    · rw [(restatus_makeReady.others u same).1] at live
      exact live
  | @boost t _ _ =>
    unfold boostPriority at live
    rw [statusOf_setThread] at live
    split_ifs at live with eq
    · rw [eq]
      exact live
    · exact live
  | @ready t asleep free =>
    by_cases same : u = t
    · rw [same]
      exact ⟨free.1, fun dead => asleep (Or.inr (Or.inr dead))⟩
    · rw [(restatus_makeReady.others u same).1] at live
      exact live

theorem awaitReply_noneBorn {s : Nat} : NoneBorn k (k.awaitReply s t) := by
  by_cases running : (k.thread t).status = .running
  · have parked : NoneBorn k (k.setStatus t .waitIPC) :=
      noneBorn_setThread fun _ => live_running running
    have delayed : NoneBorn k ((k.setStatus t .waitIPC).setThread t fun thread =>
        { thread with wakeupEvents := thread.wakeupEvents + 1 }) :=
      parked.trans (noneBorn_setThread id)
    unfold awaitReply wakeAfterDelay
    dsimp only
    split_ifs
    · exact parked
    · exact delayed
    · exact parked
  · unfold awaitReply
    rw [if_neg running]
    exact .refl k

theorem Reschedules.noneBorn (h : Reschedules k k') : NoneBorn k k' := by
  intro u live
  rcases h.statuses u with same | ⟨before, _⟩
  · rwa [← same]
  · rcases before with running | ready
    · exact live_running running
    · rw [ready]
      exact ⟨nofun, nofun⟩

theorem Change.noneBorn (h : Change k k') : NoneBorn k k' := by
  cases h with
  | calm calm => exact calm.noneBorn
  | setPriority run => exact noneBorn_of_status (setPriority_quiet.ok run).status
  | sleep running _ => exact noneBorn_setThread fun _ => live_running running
  | park => exact awaitReply_noneBorn
  | acquire _ run => exact noneBorn_of_status (acquire_status run)
  | unlock => exact noneBorn_of_status unlocked_status
  | drop => exact noneBorn_setThread id
  | @kill t =>
    intro u live
    by_cases same : u = t
    · rw [same, statusOf_killed] at live
      exact absurd rfl live.2
    · rw [((killed_restatus k t).others u same).1] at live
      exact live
  | @answer s t _ _ free =>
    unfold answered
    dsimp only
    split_ifs with awake
    · exact .refl k
    · exact (Calm.ready (k := Kernel.setSession k s _) awake free).noneBorn
  | reschedule run => exact (reschedule_reschedules.ok run).noneBorn
  | _ => exact .refl k

theorem Changes.noneBorn (h : Changes k k') : NoneBorn k k' := by
  induction h with
  | refl => exact .refl k
  | tail _ step ih => exact ih.trans step.noneBorn

theorem Arbitrates.noneBorn {a : Nat} (h : Arbitrates k a t k') : NoneBorn k k' := by
  cases h with
  | wait running _ _ => exact noneBorn_setThread fun _ => live_running running

theorem Grounded.noneBorn (h : k.Grounded) {a : Action} (step : Step k a k')
    (other : ¬ Creates k a k') : NoneBorn k k' := by
  rcases (h.step step).2 with changes | waits | creates
  · exact (noneBorn_of_status (funext (opening_keeps k a).status)).trans changes.noneBorn
  · exact waits.noneBorn
  · exact absurd creates other

theorem statusOf_registerThread {core priority : Nat} {u : ThreadId} :
    (k.registerThread core t priority).statusOf u = if u = t then .dormant else k.statusOf u := by
  unfold registerThread
  rw [statusOf_setThread]
  rfl

theorem statusOf_startThread {core priority : Nat} {u : ThreadId} :
    ((k.registerThread core t priority).startThread core t priority).statusOf u =
      if u = t then .ready else k.statusOf u := by
  unfold startThread
  rw [statusOf_setThread]
  split_ifs with same
  · rfl
  · exact statusOf_registerThread.trans (if_neg same)

theorem stop_status (k : Kernel) (t : ThreadId) : Returns (k.stop t) fun k' =>
    k'.statusOf t = .dead ∧ ∀ u, u ≠ t → Awake (k.statusOf u) → k'.statusOf u = k.statusOf u := by
  apply stop_rouses.mono
  intro k' later
  constructor
  · exact (later.awake t (Or.inr (Or.inr statusOf_killed))).trans statusOf_killed
  · intro u other awake
    have before := ((killed_restatus k t).others u other).1
    rw [← before] at awake
    exact (later.awake u awake).trans before

end Kernel

end EmuThreeDS

/-!
## The local storage of threads

`CreateThread` and `Thread::Stop` of `thread.cpp` with the tables that they fill, and the exit of
a process from `svc.cpp`. The contents of memory are left out.
-/
namespace EmuThreeDS
open Layout Kernel

namespace Layout

def tlsEntrySize : Nat := 0x200

end Layout

/-- The parts of a process that its threads use. -/
structure ThreadOwner where
  vmManager : VMManager
  pageTable : PageTable
  memoryUsed : Nat := 0
  tlsSlots : List (BitVec 8) := []
  exited : Bool := false

/-- `base` is the region that pages of slots come from. -/
structure ThreadStorage where
  kernel : Kernel
  base : MemoryRegionInfo
  marker : Nat → Bool := fun _ => false
  process : Nat → ThreadOwner
  ownerProcess : ThreadId → Nat := fun _ => 0
  tlsAddress : ThreadId → Nat := fun _ => 0
  wakeupCallbackTable : Nat → Finset ThreadId := fun _ => ∅

def freeSlot (pageTlsSlots : BitVec 8) : Option Nat :=
  (List.range 8).find? fun slot => !pageTlsSlots.getLsbD slot

def getFreeThreadLocalSlot : List (BitVec 8) → Option (Nat × Nat)
  | [] => none
  | pageTlsSlots :: rest =>
    match freeSlot pageTlsSlots with
    | some slot => some (0, slot)
    | none => (getFreeThreadLocalSlot rest).map fun place => (place.1 + 1, place.2)

/-- FCRAM has room for 0x10000 pages, so no address wraps. -/
def slotAddress (page slot : Nat) : Nat := tlsAreaVaddr + page * pageSize + slot * tlsEntrySize

variable (s : ThreadStorage)

namespace ThreadStorage

def setProcess (process : Nat) (f : ThreadOwner → ThreadOwner) :
    ThreadStorage :=
  { s with process := Function.update s.process process (f (s.process process)) }

/-- What `CreateThread` does to the tables before it looks for a slot. -/
def register (core : Nat) (t : ThreadId) (priority process : Nat) :
    ThreadStorage :=
  { s with
    kernel := s.kernel.registerThread core t priority
    wakeupCallbackTable :=
      Function.update s.wakeupCallbackTable core (insert t (s.wakeupCallbackTable core))
    ownerProcess := Function.update s.ownerProcess t process }

/-- The page goes behind the others. The result of `MapBackingMemory` is not looked at. -/
def addPage (process offset : Nat) : Exec ThreadStorage := do
  let owner := s.process process
  let target := slotAddress owner.tlsSlots.length 0
  let memory ← getFCRAMRef offset
  let (result, vmManager) ← owner.vmManager.mapBackingMemory target memory pageSize .locked
  let pageTable ← match result with
    | .ok _ => PageTables.mapMemoryRegion s.marker owner.pageTable target pageSize memory
    | .error _ => .ok owner.pageTable
  return s.setProcess process fun owner =>
    { owner with
      vmManager := vmManager
      pageTable := pageTable
      memoryUsed := add32 owner.memoryUsed pageSize
      tlsSlots := owner.tlsSlots ++ [0] }

def findSlot (process : Nat) : Exec (Option (Nat × Nat) × ThreadStorage) :=
  match getFreeThreadLocalSlot (s.process process).tlsSlots with
  | some place => .ok (some place, s)
  | none => do
      let (offset, base) ← s.base.linearAllocate pageSize
      match offset with
      | none => return (none, { s with base := base })
      | some offset =>
        let s ← { s with base := base }.addPage process offset
        return (some ((s.process process).tlsSlots.length - 1, 0), s)

def occupy (process : Nat) (t : ThreadId) (page slot : Nat) : ThreadStorage :=
  { s.setProcess process fun owner =>
      { owner with tlsSlots := owner.tlsSlots.modify page fun slots => BitSlots.take slots slot } with
    tlsAddress := Function.update s.tlsAddress t (slotAddress page slot) }

/-- `t` is a new thread. -/
def createThread (t : ThreadId) (process priority : Nat) (processorId : Int)
    (entryPoint : Nat) : Exec (ResultVal Unit × ThreadStorage) :=
  if threadPrioLowest < priority then return (.error .outOfRange, s)
  else if threadProcessorIdMax < processorId then return (.error .outOfRangeKernel, s)
  else if !(s.process process).pageTable.isValidVirtualAddress entryPoint then
    return (.error .invalidAddress, s)
  else if processorId < 0 ∨ s.kernel.numCores ≤ processorId.toNat then .error .undefinedBehaviour
  else do
    let core := processorId.toNat
    let (place, s) ← (s.register core t priority process).findSlot process
    match place with
    | none => return (.error .outOfMemory, s)
    | some (page, slot) =>
      let s := s.occupy process t page slot
      return (.ok (), { s with kernel := s.kernel.startThread core t priority })

/-- An address below the area of the slots wraps, to an index far behind the pages. -/
def stop (s : ThreadStorage) (t : ThreadId) : Exec ThreadStorage := do
  let core := (s.kernel.thread t).coreId
  let kernel ← s.kernel.stop t
  let page := (s.tlsAddress t - tlsAreaVaddr) / pageSize
  let slot := (s.tlsAddress t - tlsAreaVaddr) % pageSize / tlsEntrySize
  if s.tlsAddress t < tlsAreaVaddr ∨ (s.process (s.ownerProcess t)).tlsSlots.length ≤ page then
    .error .undefinedBehaviour
  else
    return { s.setProcess (s.ownerProcess t) fun owner =>
        { owner with
          tlsSlots := owner.tlsSlots.modify page fun slots => BitSlots.giveBack slots slot } with
      kernel := kernel
      wakeupCallbackTable :=
        Function.update s.wakeupCallbackTable core ((s.wakeupCallbackTable core).erase t) }

def exitCurrentThread (core : Nat) (t : ThreadId) : Exec ThreadStorage := do
  let s ← s.stop t
  return { s with kernel := s.kernel.setManager core fun manager =>
    { manager with threadList := manager.threadList.filter (· ≠ t) } }

/-- The loop of `ExitProcess` over the threads of the core. -/
def stopOthers (process : Nat) (current : ThreadId) :
    List ThreadId → ThreadStorage → Exec ThreadStorage
  | [], s => .ok s
  | t :: rest, s =>
    if s.ownerProcess t ≠ process ∨ t = current then stopOthers process current rest s
    else do
      assert .exitProcess ((s.kernel.thread t).status = .waitSynchAny ∨
        (s.kernel.thread t).status = .waitSynchAll)
      let s ← s.stop t
      stopOthers process current rest s

def exitProcess (s : ThreadStorage) (process core : Nat) (current : ThreadId) :
    Exec ThreadStorage := do
  assert .exitProcess ((s.process process).exited = false)
  let s := s.setProcess process fun owner => { owner with exited := true }
  let s ← stopOthers process current (s.kernel.manager core).threadList s
  s.stop current

/-- `memory` stands for the other calls that change what a process maps, `region` for those on
the region of the pages. -/
inductive Call where
  | createThread (t : ThreadId) (process priority : Nat) (processorId : Int) (entryPoint : Nat)
  | exitThread (core : Nat) (t : ThreadId)
  | exitProcess (process core : Nat) (t : ThreadId)
  | kernel (a : Action)
  | region (op : MemoryRegionInfo.Op)
  | memory (process : Nat) (vmManager : VMManager) (pageTable : PageTable) (memoryUsed : Nat)
  | mark (marker : Nat → Bool)

def Threadless : Action → Prop
  | .createThread _ _ _ _ _ | .exitThread _ _ | .stop _ => False
  | _ => True

def Call.Enabled (s : ThreadStorage) : Call → Prop
  | createThread t _ priority processorId _ =>
    (Action.createThread t priority processorId true true).Enabled s.kernel
  | exitThread core t => (Action.exitThread core t).Enabled s.kernel
  | exitProcess _ core t => (Action.exitThread core t).Enabled s.kernel
  | kernel a => a.Enabled s.kernel ∧ Threadless a
  | _ => True

def Call.run (s : ThreadStorage) : Call → Exec ThreadStorage
  | createThread t process priority processorId entryPoint =>
    Prod.snd <$> s.createThread t process priority processorId entryPoint
  | exitThread core t => s.exitCurrentThread core t
  | exitProcess process core t => s.exitProcess process core t
  | kernel a => do
      let kernel ← a.run s.kernel
      return { s with kernel := kernel }
  | region op => do
      let base ← op.run s.base
      return { s with base := base }
  | memory process vmManager pageTable memoryUsed =>
    .ok (s.setProcess process fun owner =>
      { owner with vmManager := vmManager, pageTable := pageTable, memoryUsed := memoryUsed })
  | mark marker => .ok { s with marker := marker }

structure Initial (s : ThreadStorage) : Prop where
  kernel : ∃ numCores, s.kernel = boot numCores
  region : ∃ (old : MemoryRegionInfo) (base size : Nat), old.reset base size = .ok s.base
  process : ∀ p, (s.process p).tlsSlots = []

def Step (call : Call) (s' : ThreadStorage) : Prop :=
  call.Enabled s ∧ call.run s = .ok s'

abbrev Reachable : ThreadStorage → Prop :=
  Runs.Reachable Initial Step fun _ _ => True

end ThreadStorage

end EmuThreeDS
