import EmuThreeDS.Kernel.ThreadStorage

/-!
# Slots of live threads

A live thread owns the slot at its address, and no other thread of its process does. When no
page of slots can be allocated the new thread stays in the tables of its core.
-/
namespace EmuThreeDS
open Layout Kernel Intervals OrderedMap

variable {slots : BitVec 8} {tlsSlots : List (BitVec 8)} {page' slot' p : Nat}

theorem freeSlot_some {slot : Nat} (found : freeSlot slots = some slot) :
    slot < 8 ∧ slots.getLsbD slot = false := by
  have free := List.find?_some found
  have inside := List.mem_of_find?_eq_some found
  rw [Bool.not_eq_true'] at free
  exact ⟨List.mem_range.mp inside, free⟩

theorem getFreeThreadLocalSlot_some {page slot : Nat}
    (found : getFreeThreadLocalSlot tlsSlots = some (page, slot)) :
    ∃ slots, tlsSlots[page]? = some slots ∧ slot < 8 ∧ slots.getLsbD slot = false := by
  induction tlsSlots generalizing page with
  | nil => cases found
  | cons pageTlsSlots rest ih =>
    unfold getFreeThreadLocalSlot at found
    split at found
    · next free =>
        cases found
        exact ⟨pageTlsSlots, rfl, freeSlot_some free⟩
    · obtain ⟨place, behind, eq⟩ := Option.map_eq_some_iff.mp found
      cases eq
      exact ih behind

theorem slotAddress_inj {page slot : Nat} (inside : slot < 8) (inside' : slot' < 8)
    (same : slotAddress page slot = slotAddress page' slot') : page = page' ∧ slot = slot' := by
  unfold slotAddress pageSize tlsEntrySize at same
  omega

namespace ThreadStorage

variable {s s' s₁ : ThreadStorage} {t u : ThreadId} {core process page slot : Nat}

def Taken (s : ThreadStorage) (process page slot : Nat) : Prop :=
  ∃ slots, (s.process process).tlsSlots[page]? = some slots ∧ slots.getLsbD slot = true

theorem Taken.inside (h : s.Taken process page slot) : slot < 8 := by
  obtain ⟨slots, _, bit⟩ := h
  exact BitVec.lt_of_getLsbD bit

structure Housed (s : ThreadStorage) : Prop where
  grounded : s.kernel.Grounded
  placed : ∀ t, Live (s.kernel.statusOf t) → ∃ page slot,
    s.tlsAddress t = slotAddress page slot ∧ s.Taken (s.ownerProcess t) page slot
  apart : ∀ t u, Live (s.kernel.statusOf t) → Live (s.kernel.statusOf u) →
    s.ownerProcess t = s.ownerProcess u → s.tlsAddress t = s.tlsAddress u → t = u

theorem Housed.keep (h : s.Housed) (grounded : s'.kernel.Grounded)
    (born : NoneBorn s.kernel s'.kernel) (same : ∀ t, Live (s'.kernel.statusOf t) →
      s'.tlsAddress t = s.tlsAddress t ∧ s'.ownerProcess t = s.ownerProcess t)
    (taken : ∀ t, Live (s'.kernel.statusOf t) → ∀ page slot,
      s.tlsAddress t = slotAddress page slot → s.Taken (s.ownerProcess t) page slot →
      s'.Taken (s.ownerProcess t) page slot) : s'.Housed where
  grounded := grounded
  placed := by
    intro t live
    obtain ⟨page, slot, at_slot, bit⟩ := h.placed t (born t live)
    rw [(same t live).1, (same t live).2]
    exact ⟨page, slot, at_slot, taken t live page slot at_slot bit⟩
  apart := by
    intro t u live live'
    rw [(same t live).1, (same t live).2, (same u live').1, (same u live').2]
    exact h.apart t u (born t live) (born u live')

theorem Housed.kernelStep (h : s.Housed) {a : Action} {k : Kernel} (step : Kernel.Step s.kernel a k)
    (other : ¬ Creates s.kernel a k) : Housed { s with kernel := k } :=
  h.keep (h.grounded.step step).1 (h.grounded.noneBorn step other) (fun _ _ => ⟨rfl, rfl⟩)
    fun _ _ _ _ _ => id

theorem stop_slot (inside : slot < 8) (at_slot : s.tlsAddress t = slotAddress page slot)
    (run : s.stop t = .ok s') : s.kernel.stop t = .ok s'.kernel ∧
      s'.tlsAddress = s.tlsAddress ∧ s'.ownerProcess = s.ownerProcess ∧
      s'.process = (s.setProcess (s.ownerProcess t) fun owner =>
        { owner with
          tlsSlots := owner.tlsSlots.modify page fun slots => BitSlots.giveBack slots slot }).process := by
  obtain ⟨k, stopped, run⟩ := bind_eq_ok.mp run
  have page_eq : (s.tlsAddress t - tlsAreaVaddr) / pageSize = page := by
    rw [at_slot]
    unfold slotAddress pageSize tlsEntrySize
    omega
  have slot_eq : (s.tlsAddress t - tlsAreaVaddr) % pageSize / tlsEntrySize = slot := by
    rw [at_slot]
    unfold slotAddress pageSize tlsEntrySize
    omega
  dsimp only at run
  rw [page_eq, slot_eq] at run
  split_ifs at run
  cases run
  exact ⟨stopped, rfl, rfl, rfl⟩

theorem getElem?_modify_slots {f : BitVec 8 → BitVec 8}
    {i : Nat} (found : tlsSlots[i]? = some slots) :
    (tlsSlots.modify page f)[i]? = some (if page = i then f slots else slots) := by
  rw [List.getElem?_modify, found]
  split_ifs <;> rfl

theorem Taken.edit {f : ThreadOwner → ThreadOwner} (h : s.Taken p page slot)
    (kept : p = process → ∀ slots, (s.process p).tlsSlots[page]? = some slots →
      slots.getLsbD slot = true → ∃ slots', (f (s.process p)).tlsSlots[page]? = some slots' ∧
        slots'.getLsbD slot = true) : (s.setProcess process f).Taken p page slot := by
  obtain ⟨slots, at_page, bit⟩ := h
  unfold Taken setProcess
  dsimp only
  by_cases same : p = process
  · subst same
    rw [Function.update_self]
    exact kept rfl slots at_page bit
  · rw [Function.update_of_ne same]
    exact ⟨slots, at_page, bit⟩

theorem Taken.kept {f : ThreadOwner → ThreadOwner} (h : s.Taken p page slot)
    (same : ∀ owner, (f owner).tlsSlots = owner.tlsSlots) :
    (s.setProcess process f).Taken p page slot := by
  apply h.edit
  intro _ slots at_page bit
  rw [same]
  exact ⟨slots, at_page, bit⟩

theorem Taken.modify {f : BitVec 8 → BitVec 8} (h : s.Taken p page' slot')
    (kept : p = process → page = page' → ∀ slots, slots.getLsbD slot' = true →
      (f slots).getLsbD slot' = true) :
    (s.setProcess process fun owner =>
      { owner with tlsSlots := owner.tlsSlots.modify page f }).Taken p page' slot' := by
  apply h.edit
  intro same slots at_page bit
  refine ⟨_, getElem?_modify_slots at_page, ?_⟩
  split_ifs with at_same
  · exact kept same at_same slots bit
  · exact bit

theorem Taken.giveBack (h : s.Taken p page' slot') (inside : slot < 8)
    (other : p = process → page' = page → slot' = slot → False) :
    (s.setProcess process fun owner =>
      { owner with
        tlsSlots := owner.tlsSlots.modify page fun slots => BitSlots.giveBack slots slot }).Taken
        p page' slot' := by
  apply h.modify
  intro same at_same slots bit
  have apart : slot' ≠ slot := other same at_same.symm
  rw [BitSlots.getLsbD_giveBack inside, bit, decide_eq_false apart]
  rfl

theorem Taken.take (h : s.Taken p page' slot') (inside : slot < 8) :
    (s.occupy process t page slot).Taken p page' slot' := by
  have kept : ∀ slots : BitVec 8, slots.getLsbD slot' = true →
      (BitSlots.take slots slot).getLsbD slot' = true := by
    intro slots bit
    rw [BitSlots.getLsbD_take inside, bit, Bool.true_or]
  exact h.modify fun _ _ => kept

section

theorem Housed.stop (h : s.Housed) (live : Live (s.kernel.statusOf t)) (run : s.stop t = .ok s') :
    s'.Housed := by
  obtain ⟨page, slot, at_slot, bit⟩ := h.placed t live
  obtain ⟨stopped, address, owner, process⟩ := stop_slot bit.inside at_slot run
  have step : Kernel.Step s.kernel (.stop t) s'.kernel := ⟨trivial, stopped⟩
  have born : NoneBorn s.kernel s'.kernel := h.grounded.noneBorn step nofun
  refine h.keep (h.grounded.step step).1 born
    (fun _ _ => ⟨congrFun address _, congrFun owner _⟩) ?_
  intro u live' page' slot' at_slot' bit'
  unfold Taken
  rw [process]
  apply bit'.giveBack bit.inside
  rintro owners rfl rfl
  have same := h.apart u t (born u live') live owners (at_slot'.trans at_slot.symm)
  rw [same, ((stop_status s.kernel t).ok stopped).1] at live'
  exact live'.2 rfl

theorem stop_running (run : s.stop t = .ok s') (other : u ≠ t)
    (running : s.kernel.statusOf u = .running) : s'.kernel.statusOf u = .running := by
  obtain ⟨k, stopped, run⟩ := bind_eq_ok.mp run
  have awake : Awake (s.kernel.statusOf u) := Or.inr (Or.inl running)
  dsimp only at run
  split_ifs at run
  cases run
  exact (((stop_status s.kernel t).ok stopped).2 u other awake).trans running

theorem Housed.exitCurrentThread (h : s.Housed)
    (enabled : (Action.exitThread core t).Enabled s.kernel)
    (run : s.exitCurrentThread core t = .ok s') : s'.Housed := by
  obtain ⟨s₁, stopped, run⟩ := bind_eq_ok.mp run
  have live : Live (s.kernel.statusOf t) := live_running enabled.1.1
  have between := h.stop live stopped
  obtain ⟨page, slot, at_slot, bit⟩ := h.placed t live
  have kernel := (stop_slot bit.inside at_slot stopped).1
  cases run
  have exited : s.kernel.exitCurrentThread core t = .ok (s₁.kernel.setManager core fun manager =>
      { manager with threadList := manager.threadList.filter (· ≠ t) }) := by
    unfold Kernel.exitCurrentThread
    rw [kernel]
    rfl
  have step : Kernel.Step s.kernel (.exitThread core t) _ := ⟨enabled, exited⟩
  exact between.keep (h.grounded.step step).1 (noneBorn_of_status rfl)
    (fun _ _ => ⟨rfl, rfl⟩) fun _ _ _ _ _ => id

theorem Housed.stopOthers (h : s.Housed) {threads : List ThreadId}
    (running : s.kernel.statusOf t = .running)
    (run : ThreadStorage.stopOthers process t threads s = .ok s') :
    s'.Housed ∧ s'.kernel.statusOf t = .running := by
  induction threads generalizing s with
  | nil =>
    cases run
    exact ⟨h, running⟩
  | cons u rest ih =>
    unfold ThreadStorage.stopOthers at run
    split_ifs at run with skipped
    · exact ih h running run
    · rw [not_or] at skipped
      obtain ⟨_, waits, run⟩ := bind_eq_ok.mp run
      obtain ⟨s₁, stopped, run⟩ := bind_eq_ok.mp run
      have live : Live (s.kernel.statusOf u) := by
        rcases assert_eq_ok.mp waits with any | all
        · rw [statusOf, any]
          exact ⟨(by rintro ⟨⟩), (by rintro ⟨⟩)⟩
        · rw [statusOf, all]
          exact ⟨(by rintro ⟨⟩), (by rintro ⟨⟩)⟩
      exact ih (h.stop live stopped) (stop_running stopped (Ne.symm skipped.2) running) run

theorem Housed.exitProcess (h : s.Housed) (running : s.kernel.statusOf t = .running)
    (run : s.exitProcess process core t = .ok s') : s'.Housed := by
  obtain ⟨_, _, run⟩ := bind_eq_ok.mp run
  obtain ⟨s₁, others, run⟩ := bind_eq_ok.mp run
  have exited : (s.setProcess process fun owner => { owner with exited := true }).Housed := by
    refine h.keep h.grounded (.refl _) (fun _ _ => ⟨rfl, rfl⟩) ?_
    exact fun _ _ _ _ _ taken => taken.kept fun _ => rfl
  obtain ⟨between, still⟩ := exited.stopOthers running others
  exact between.stop (live_running still) run

end

section

variable {priority entryPoint : Nat} {processorId : Int} {reply : ResultVal Unit}

def Full (s : ThreadStorage) (process : Nat) : Prop :=
  getFreeThreadLocalSlot (s.process process).tlsSlots = none ∧ s.base.firstFit pageSize = none

/-- A free slot was found, perhaps in a new page; nothing else that threads look at differs. -/
structure Grants (s s' : ThreadStorage) (process page slot : Nat) : Prop where
  kernel : s'.kernel = s.kernel
  ownerProcess : s'.ownerProcess = s.ownerProcess
  tlsAddress : s'.tlsAddress = s.tlsAddress
  free : ∃ slots, (s'.process process).tlsSlots[page]? = some slots ∧ slot < 8 ∧
    slots.getLsbD slot = false
  taken : ∀ p i j, s.Taken p i j → s'.Taken p i j

theorem addPage_grants {offset : Nat} (run : s.addPage process offset = .ok s') :
    s.Grants s' process ((s'.process process).tlsSlots.length - 1) 0 := by
  have added : ∀ vmManager pageTable, s' = (s.setProcess process fun owner =>
      { owner with
        vmManager := vmManager
        pageTable := pageTable
        memoryUsed := add32 owner.memoryUsed pageSize
        tlsSlots := owner.tlsSlots ++ [0] }) →
      s.Grants s' process ((s'.process process).tlsSlots.length - 1) 0 := by
    rintro vmManager pageTable rfl
    refine ⟨rfl, rfl, rfl, ?_, ?_⟩
    · simp [setProcess]
    · intro p i j taken
      apply taken.edit
      intro _ slots at_page bit
      refine ⟨slots, ?_, bit⟩
      rw [List.getElem?_append_left (List.getElem?_eq_some_iff.mp at_page).1]
      exact at_page
  obtain ⟨memory, _, run⟩ := bind_eq_ok.mp run
  obtain ⟨⟨result, vmManager⟩, _, run⟩ := bind_eq_ok.mp run
  cases result with
  | ok _ =>
    obtain ⟨pageTable, _, run⟩ := bind_eq_ok.mp run
    cases run
    exact added _ _ rfl
  | error _ =>
    cases run
    exact added _ _ rfl

theorem findSlot_cases {place : Option (Nat × Nat)} (run : s.findSlot process = .ok (place, s')) :
    place = none ∧ s' = s ∧ s.Full process ∨
      ∃ page slot, place = some (page, slot) ∧ ¬ s.Full process ∧ s.Grants s' process page slot := by
  unfold findSlot at run
  split at run
  · next place found =>
      cases run
      refine Or.inr ⟨place.1, place.2, rfl, ?_, rfl, rfl, rfl, ?_, fun _ _ _ => id⟩
      · rintro ⟨used, _⟩
        rw [found] at used
        cases used
      · exact getFreeThreadLocalSlot_some found
  · next used =>
      obtain ⟨⟨offset, base⟩, allocated, run⟩ := bind_eq_ok.mp run
      rcases MemoryRegionInfo.linearAllocate_ok allocated with ⟨none, rfl, rfl⟩ | ⟨b, fits, rfl, _⟩
      · cases run
        exact Or.inl ⟨rfl, rfl, used, none⟩
      · obtain ⟨s₁, added, run⟩ := bind_eq_ok.mp run
        cases run
        refine Or.inr ⟨_, _, rfl, ?_, ?_⟩
        · rintro ⟨_, full⟩
          rw [fits] at full
          cases full
        · obtain ⟨kernel, owner, address, free, taken⟩ := addPage_grants added
          exact ⟨kernel, owner, address, free, taken⟩

structure Accepts (s : ThreadStorage) (process priority : Nat) (processorId : Int)
    (entryPoint : Nat) : Prop where
  priority : priority ≤ threadPrioLowest
  processor : processorId ≤ threadProcessorIdMax
  entry : (s.process process).pageTable.isValidVirtualAddress entryPoint = true

inductive Creation (s : ThreadStorage) (t : ThreadId) (process priority : Nat) (processorId : Int)
    (entryPoint : Nat) : ResultVal Unit → ThreadStorage → Prop where
  | refused {e : ResultCode} : ¬ s.Accepts process priority processorId entryPoint →
      Creation s t process priority processorId entryPoint (.error e) s
  | starved : s.Accepts process priority processorId entryPoint → s.Full process →
      s.kernel.createThread t priority processorId true false =
        .ok (.error .outOfMemory, s.kernel.registerThread processorId.toNat t priority) →
      Creation s t process priority processorId entryPoint (.error .outOfMemory)
        (s.register processorId.toNat t priority process)
  | created {page slot : Nat} {s₁ : ThreadStorage} : ¬ s.Full process →
      s.kernel.createThread t priority processorId true true =
        .ok (.ok (), s₁.kernel.startThread processorId.toNat t priority) →
      (s.register processorId.toNat t priority process).Grants s₁ process page slot →
      Creation s t process priority processorId entryPoint (.ok ())
        { s₁.occupy process t page slot with
          kernel := s₁.kernel.startThread processorId.toNat t priority }

theorem createThread_creation
    (run : s.createThread t process priority processorId entryPoint = .ok (reply, s')) :
    s.Creation t process priority processorId entryPoint reply s' := by
  unfold createThread at run
  split_ifs at run with low processor entry core
  · cases run
    exact .refused fun accepts => Nat.not_lt.mpr accepts.priority low
  · cases run
    exact .refused fun accepts => Int.not_lt.mpr accepts.processor processor
  · cases run
    refine .refused fun accepts => ?_
    rw [accepts.entry] at entry
    cases entry
  · obtain ⟨⟨place, s₁⟩, found, run⟩ := bind_eq_ok.mp run
    have checked : ∀ tlsPage, s.kernel.createThread t priority processorId true tlsPage =
        if !tlsPage then
          .ok (.error .outOfMemory, s.kernel.registerThread processorId.toNat t priority)
        else .ok (.ok (), (s.kernel.registerThread processorId.toNat t priority).startThread
          processorId.toNat t priority) := by
      intro tlsPage
      unfold Kernel.createThread
      rw [if_neg low, if_neg processor, if_neg core]
      rfl
    rcases findSlot_cases found with ⟨rfl, rfl, full⟩ | ⟨page, slot, rfl, room, grants⟩
    · cases run
      refine .starved ⟨Nat.not_lt.mp low, Int.not_lt.mp processor, ?_⟩ full (checked false)
      simpa using entry
    · cases run
      have room : ¬ s.Full process := room
      refine .created room ?_ grants
      rw [grants.kernel]
      exact checked true

def Starved (s : ThreadStorage) (process priority : Nat) (processorId : Int) (entryPoint : Nat) :
    Prop :=
  s.Accepts process priority processorId entryPoint ∧ s.Full process

theorem occupy_address : (s.occupy process t page slot).tlsAddress t = slotAddress page slot :=
  Function.update_self _ _ _

section

variable (grants : (s.register core t priority process).Grants s₁ process page slot)
include grants

theorem Grants.status (u : ThreadId) : (s₁.kernel.startThread core t priority).statusOf u =
    if u = t then .ready else s.kernel.statusOf u := by
  rw [grants.kernel]
  exact statusOf_startThread

theorem Grants.owner (u : ThreadId) :
    s₁.ownerProcess u = if u = t then process else s.ownerProcess u := by
  rw [grants.ownerProcess]
  exact Function.update_apply _ _ _ _

theorem Grants.address (other : u ≠ t) :
    (s₁.occupy process t page slot).tlsAddress u = s.tlsAddress u := by
  have before : s₁.tlsAddress u = s.tlsAddress u := congrFun grants.tlsAddress u
  rw [← before]
  exact Function.update_of_ne other _ _

theorem Grants.live (other : u ≠ t)
    (live : Live ((s₁.kernel.startThread core t priority).statusOf u)) :
    Live (s.kernel.statusOf u) := by
  rw [grants.status, if_neg other] at live
  exact live

theorem Grants.taken_new : (s₁.occupy process t page slot).Taken process page slot := by
  obtain ⟨slots, at_page, inside, _⟩ := grants.free
  unfold Taken occupy setProcess
  dsimp only
  rw [Function.update_self]
  refine ⟨_, getElem?_modify_slots at_page, ?_⟩
  rw [if_pos rfl, BitSlots.getLsbD_take inside, decide_eq_true rfl, Bool.or_true]

theorem Grants.apart (h : s.Housed) (other : u ≠ t)
    (live : Live ((s₁.kernel.startThread core t priority).statusOf u))
    (owner : s₁.ownerProcess u = process) :
    (s₁.occupy process t page slot).tlsAddress u ≠ (s₁.occupy process t page slot).tlsAddress t := by
  rw [grants.address other, occupy_address]
  rw [grants.owner, if_neg other] at owner
  intro same
  obtain ⟨page', slot', at_slot, bit⟩ := h.placed u (grants.live other live)
  obtain ⟨slots, at_page, inside, free⟩ := grants.free
  obtain ⟨rfl, rfl⟩ := slotAddress_inj inside bit.inside (same.symm.trans at_slot)
  rw [owner] at bit
  obtain ⟨slots', at_page', taken⟩ := grants.taken _ _ _ bit
  rw [at_page] at at_page'
  cases at_page'
  rw [free] at taken
  cases taken

theorem Grants.housed (h : s.Housed) (grounded : (s₁.kernel.startThread core t priority).Grounded) :
    Housed { s₁.occupy process t page slot with
      kernel := s₁.kernel.startThread core t priority } where
  grounded := grounded
  placed := by
    intro u live
    by_cases same : u = t
    · subst same
      refine ⟨page, slot, @occupy_address s₁ u process page slot, ?_⟩
      change (s₁.occupy process u page slot).Taken (s₁.ownerProcess u) page slot
      rw [grants.owner, if_pos rfl]
      exact grants.taken_new
    · obtain ⟨page', slot', at_slot, bit⟩ := h.placed u (grants.live same live)
      refine ⟨page', slot', (grants.address same).trans at_slot, ?_⟩
      change (s₁.occupy process t page slot).Taken (s₁.ownerProcess u) page' slot'
      rw [grants.owner, if_neg same]
      obtain ⟨_, _, inside, _⟩ := grants.free
      exact (grants.taken _ _ _ bit).take inside
  apart := by
    intro u v live live' owners addresses
    change s₁.ownerProcess u = s₁.ownerProcess v at owners
    have own : s₁.ownerProcess t = process := (grants.owner t).trans (if_pos rfl)
    by_cases same : u = t
    · by_cases same' : v = t
      · rw [same, same']
      · subst same
        exact absurd addresses.symm (grants.apart h same' live' (owners.symm.trans own))
    · by_cases same' : v = t
      · subst same'
        exact absurd addresses (grants.apart h same live (owners.trans own))
      · rw [grants.owner, grants.owner, if_neg same, if_neg same'] at owners
        have at_slots := (grants.address same).symm.trans (addresses.trans (grants.address same'))
        exact h.apart u v (grants.live same live) (grants.live same' live') owners at_slots

end

theorem Housed.creation (h : s.Housed)
    (enabled : (Action.createThread t priority processorId true true).Enabled s.kernel)
    (made : s.Creation t process priority processorId entryPoint reply s') : s'.Housed := by
  have reaches : ∀ {tlsPage k}, s.kernel.createThread t priority processorId true tlsPage =
      .ok (reply, k) → k.Grounded := by
    intro tlsPage k run
    have step : Kernel.Step s.kernel (.createThread t priority processorId true tlsPage) k :=
      ⟨enabled, map_eq_ok.mpr ⟨_, run, rfl⟩⟩
    exact (h.grounded.step step).1
  cases made with
  | refused => exact h
  | starved _ _ run =>
    have others : ∀ u, Live ((s.kernel.registerThread processorId.toNat t priority).statusOf u) →
        u ≠ t := by
      rintro u live rfl
      rw [statusOf_registerThread, if_pos rfl] at live
      exact live.1 rfl
    refine h.keep (reaches run) ?_ ?_ fun _ _ _ _ _ => id
    · intro u live
      have other := others u live
      change Live ((s.kernel.registerThread processorId.toNat t priority).statusOf u) at live
      rw [statusOf_registerThread, if_neg other] at live
      exact live
    · exact fun u live => ⟨rfl, Function.update_of_ne (others u live) _ _⟩
  | created _ run grants => exact grants.housed h (reaches run)

end

theorem Step.housed {call : Call} (step : Step s call s') (h : s.Housed) : s'.Housed := by
  obtain ⟨enabled, run⟩ := step
  cases call with
  | createThread t process priority processorId entryPoint =>
    obtain ⟨⟨reply, s₁⟩, created, eq⟩ := map_eq_ok.mp run
    cases eq
    exact h.creation enabled (createThread_creation created)
  | exitThread core t => exact h.exitCurrentThread enabled run
  | exitProcess process core t => exact h.exitProcess enabled.1.1 run
  | kernel a =>
    obtain ⟨k, ran, eq⟩ := bind_eq_ok.mp run
    cases eq
    apply h.kernelStep ⟨enabled.1, ran⟩
    rintro ⟨⟩
    exact enabled.2
  | region op =>
    obtain ⟨base, _, eq⟩ := bind_eq_ok.mp run
    cases eq
    exact ⟨h.grounded, h.placed, h.apart⟩
  | memory process vmManager pageTable memoryUsed =>
    cases run
    refine h.keep h.grounded (.refl _) (fun _ _ => ⟨rfl, rfl⟩) ?_
    exact fun _ _ _ _ _ taken => taken.kept fun _ => rfl
  | mark marker =>
    cases run
    exact ⟨h.grounded, h.placed, h.apart⟩

theorem Reachable.housed (h : Reachable s) : s.Housed := by
  apply h.invariant
  · intro s initial
    obtain ⟨numCores, kernel⟩ := initial.kernel
    have none : ∀ t, ¬ Live (s.kernel.statusOf t) := by
      intro t live
      rw [kernel] at live
      exact live.1 rfl
    refine ⟨?_, fun t live => absurd live (none t), fun t _ live => absurd live (none t)⟩
    rw [kernel]
    exact boot_grounded numCores
  · exact fun _ _ _ housed _ step => step.housed housed

/-- The tables that `CreateThread` may leave a thread in. -/
structure Unchanged (s s' : ThreadStorage) : Prop where
  threadList : ∀ core, (s'.kernel.manager core).threadList = (s.kernel.manager core).threadList
  wakeupCallbackTable : s'.wakeupCallbackTable = s.wakeupCallbackTable
  tlsSlots : ∀ p, (s'.process p).tlsSlots = (s.process p).tlsSlots
  vmManager : ∀ p, (s'.process p).vmManager = (s.process p).vmManager
  pageTable : ∀ p, (s'.process p).pageTable = (s.process p).pageTable
  memoryUsed : ∀ p, (s'.process p).memoryUsed = (s.process p).memoryUsed
  base : s'.base = s.base

/-- An error leaves nothing behind, and in a run the slot of a new thread is its own. -/
def AllOrNothing (s : ThreadStorage) (t : ThreadId) (process : Nat) (reply : ResultVal Unit)
    (s' : ThreadStorage) : Prop :=
  (∀ e, reply = .error e → s.Unchanged s') ∧
    (Reachable s → reply = .ok () → ∀ u, u ≠ t → Live (s'.kernel.statusOf u) →
      s'.ownerProcess u = process → s'.tlsAddress u ≠ s'.tlsAddress t)

/-- A process whose code is mapped, and the region of the pages as it is at the start. -/
def loaded : ThreadStorage where
  kernel := boot 4
  base := ⟨0x06C00000, 0x01400000, 0, IntervalSet.empty.add ⟨0x06C00000, 0x08000000⟩, false⟩
  process := fun _ =>
    { vmManager := ⟨Map.empty.insert 0 { size := VMManager.maxAddress }, false⟩
      pageTable := PageTable.clear.set 0x100 .memory (some (fcram, 0)) }

theorem loaded_reachable : Reachable loaded :=
  .start ⟨⟨4, rfl⟩, ⟨⟨0, 0, 0, IntervalSet.empty, false⟩, 0x06C00000, 0x01400000, rfl⟩, fun _ => rfl⟩

def takenAll : ThreadStorage :=
  { loaded with base := ⟨0x06C00000, 0x01400000, 0x01400000, IntervalSet.empty, false⟩ }

theorem takenAll_reachable : Reachable takenAll := by
  apply Runs.Reachable.step (a := .region (.linearAllocate 0x01400000)) loaded_reachable trivial
  refine ⟨trivial, ?_⟩
  rfl

/-- The storage of a living thread is a slot that its process has marked as taken, and the
storages of two threads of a process do not overlap. -/
theorem tls_slots_apart (reachable : Reachable s) (live : Live (s.kernel.statusOf t)) :
    (∃ page slot, s.tlsAddress t = slotAddress page slot ∧ s.Taken (s.ownerProcess t) page slot) ∧
    ∀ u ≠ t, Live (s.kernel.statusOf u) → s.ownerProcess u = s.ownerProcess t →
      s.tlsAddress u + tlsEntrySize ≤ s.tlsAddress t ∨
        s.tlsAddress t + tlsEntrySize ≤ s.tlsAddress u := by
  have housed := reachable.housed
  refine ⟨housed.placed t live, fun u other live' owner => ?_⟩
  obtain ⟨page, slot, at_slot, _⟩ := housed.placed t live
  obtain ⟨page', slot', at_slot', _⟩ := housed.placed u live'
  have apart := mt (housed.apart u t live' live owner) other
  rw [at_slot, at_slot'] at apart ⊢
  simp only [slotAddress, pageSize, tlsEntrySize] at apart ⊢
  omega

theorem tls_slots_apart_loaded : ∃ s, Reachable s ∧ s.tlsAddress 1 = tlsAreaVaddr ∧
    ∃ page slot, s.tlsAddress 1 = slotAddress page slot ∧ s.Taken (s.ownerProcess 1) page slot := by
  obtain ⟨s, run, ready, first⟩ : ∃ s, loaded.createThread 1 0 0x30 0 0x100000 =
      .ok (.ok (), s) ∧ s.kernel.statusOf 1 = .ready ∧ s.tlsAddress 1 = tlsAreaVaddr :=
    ⟨_, rfl, rfl, rfl⟩
  have live : Live (s.kernel.statusOf 1) := by
    rw [ready]
    exact ⟨by decide, by decide⟩
  have reachable : Reachable s := by
    refine loaded_reachable.step (a := .createThread 1 0 0x30 0 0x100000) trivial ⟨⟨rfl, ?_⟩, ?_⟩
    · rintro core
      exact List.not_mem_nil
    · exact congrArg (Prod.snd <$> ·) run
  exact ⟨s, reachable, first, (tls_slots_apart reachable live).1⟩

end ThreadStorage

end EmuThreeDS
