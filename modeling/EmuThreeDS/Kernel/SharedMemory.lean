import EmuThreeDS.Kernel.Allocator
import EmuThreeDS.Kernel.Process

/-!
# Shared memory and the regions

The destructor of `shared_memory.cpp`, and what a run of creations and destructions does to
the three FCRAM regions.
-/
namespace EmuThreeDS
open Intervals

inductive MemoryRegion where
  | application | system | base
  deriving DecidableEq

structure MemoryRegions where
  application : MemoryRegionInfo
  system : MemoryRegionInfo
  base : MemoryRegionInfo

namespace MemoryRegions

def get (regions : MemoryRegions) : MemoryRegion → MemoryRegionInfo
  | .application => regions.application
  | .system => regions.system
  | .base => regions.base

def set (regions : MemoryRegions) (region : MemoryRegion) (info : MemoryRegionInfo) :
    MemoryRegions :=
  match region with
  | .application => { regions with application := info }
  | .system => { regions with system := info }
  | .base => { regions with base := info }

theorem get_set (regions : MemoryRegions) (region other : MemoryRegion) (info : MemoryRegionInfo) :
    (regions.set region info).get other = if other = region then info else regions.get other := by
  cases region <;> cases other <;> rfl

end MemoryRegions

namespace SharedMemory

/-- The loop of the destructor over `holding_memory`. -/
def release (region : MemoryRegionInfo) : List Block → Exec MemoryRegionInfo
  | [] => return region
  | interval :: rest => do
      let region ← region.free interval.lower (interval.upper - interval.lower)
      release region rest

/-- The destructor; `owner` is the owner process, if there is one. -/
def destroy (shared : SharedMemory) (owner : Option Process) (system : MemoryRegionInfo) :
    Exec (Option Process × MemoryRegionInfo) := do
  let system ← release system shared.holdingMemory.blocks
  match owner with
  | none => return (none, system)
  | some p =>
    if shared.baseAddress ≠ 0 then
      let (_, vm) ← p.vmManager.changeMemoryState shared.baseAddress shared.size .locked .none
        .«private» .readWrite
      return (some { p with vmManager := vm }, system)
    else
      return (some p, system)

/-- A shared memory that is not destroyed yet, the region it was created in, and whether it
has an owner process. -/
structure Live where
  shared : SharedMemory
  source : MemoryRegion
  owned : Bool

inductive Call where
  | create (owner : Option Process) (size : Nat) (permissions otherPermissions : MemoryPermission)
      (region : MemoryRegion)
  | createForApplet (offset size : Nat) (permissions otherPermissions : MemoryPermission)
  | destroy (index : Nat) (owner : Process)

/-- A call that returns. `CreateSharedMemory` is called with address 0. -/
inductive Step : MemoryRegions × List Live → Call → MemoryRegions × List Live → Prop where
  | create {regions : MemoryRegions} {live : List Live} {owner owner' : Option Process}
      {size : Nat} {permissions otherPermissions : MemoryPermission} {region : MemoryRegion}
      {shared : SharedMemory} {info : MemoryRegionInfo} :
      createSharedMemory owner (regions.get region) size permissions otherPermissions 0 =
        .ok (.ok shared, owner', info) →
      Step (regions, live) (.create owner size permissions otherPermissions region)
        (regions.set region info, ⟨shared, region, owner.isSome⟩ :: live)
  | createForApplet {regions : MemoryRegions} {live : List Live} {offset size : Nat}
      {permissions otherPermissions : MemoryPermission} {shared : SharedMemory}
      {info : MemoryRegionInfo} :
      createSharedMemoryForApplet (regions.get .system) offset size permissions otherPermissions =
        .ok (shared, info) →
      Step (regions, live) (.createForApplet offset size permissions otherPermissions)
        (regions.set .system info, ⟨shared, .system, false⟩ :: live)
  | destroy {regions : MemoryRegions} {before after : List Live} {entry : Live}
      {owner : Process} {owner' : Option Process} {info : MemoryRegionInfo} :
      entry.shared.destroy (if entry.owned then some owner else none) (regions.get .system) =
        .ok (owner', info) →
      Step (regions, before ++ entry :: after) (.destroy before.length owner)
        (regions.set .system info, before ++ after)

/-- Each region counts what it has handed out, its free blocks lie within it, and with no
shared memory left every region is as it was at the start. -/
structure Balanced (start : MemoryRegions) (s : MemoryRegions × List Live) : Prop where
  total : ∀ r, (s.1.get r).used + total (s.1.get r).freeBlocks.blocks = (s.1.get r).size
  within : ∀ r, ∀ a ∈ (s.1.get r).freeBlocks,
    (s.1.get r).base ≤ a ∧ a < (s.1.get r).base + (s.1.get r).size
  restored : s.2 = [] → ∀ r, (s.1.get r).freeBlocks = (start.get r).freeBlocks ∧
    (s.1.get r).used = (start.get r).used

def Prepared (start : MemoryRegions) : Prop :=
  ∀ r, ∃ base size taken, base + size < 0x100000000 ∧
    MemoryRegionInfo.Managed base size (start.get r, taken)

/-- The shared memory destroyed came from the SYSTEM region, or it holds no byte. -/
def Call.Returns (s : MemoryRegions × List Live) : Call → Prop
  | .destroy index _ => ∀ entry, s.2[index]? = some entry →
      entry.source = .system ∨ entry.shared.size = 0
  | _ => True

open MemoryRegionInfo (Accounts)

section

variable {base size : Nat} {region info : MemoryRegionInfo} {taken : Finset Nat}
  {shared : SharedMemory} {owner owner' : Option Process} {n : Nat}
  {permissions otherPermissions : MemoryPermission}

theorem release_ok (h : Accounts base size region taken) (fits : base + size < 0x100000000)
    {k : Nat} {bs : List Block} (apart : Apart k bs) (owned : elements bs ⊆ taken) :
    ∃ region', release region bs = .ok region' ∧
      Accounts base size region' (taken \ elements bs) := by
  induction bs generalizing region taken k with
  | nil =>
    refine ⟨region, rfl, ?_⟩
    rw [elements, Finset.sdiff_empty]
    exact h
  | cons b rest ih =>
    obtain ⟨own, others⟩ := Finset.union_subset_iff.mp owned
    have nonempty := apart.2.1
    have inside := Finset.mem_Ico.mp (h.within (own (Finset.mem_Ico.mpr
      (show b.lower ≤ b.upper - 1 ∧ b.upper - 1 < b.upper by omega))))
    have whole : b.lower + (b.upper - b.lower) = b.upper := by omega
    have bytes : Finset.Ico b.lower (b.lower + (b.upper - b.lower)) ⊆ taken := by rwa [whole]
    obtain ⟨region₁, freed, next⟩ := h.free_ok (by omega) (by omega) bytes
    rw [whole] at next
    have left : elements rest ⊆ taken \ Finset.Ico b.lower b.upper := by
      intro a later
      refine Finset.mem_sdiff.mpr ⟨others later, fun here => ?_⟩
      obtain ⟨c, hc, has⟩ := mem_elements.mp later
      have := (apart.2.2.bounds hc).1
      have := has.1
      have := (Finset.mem_Ico.mp here).2
      omega
    obtain ⟨region', released, accounts⟩ := ih next apart.2.2 left
    refine ⟨region', ?_, ?_⟩
    · unfold release
      rw [freed]
      exact released
    · rw [sdiff_sdiff_left] at accounts
      exact accounts

structure Created (base size : Nat) (info : MemoryRegionInfo) (taken : Finset Nat)
    (shared : SharedMemory) (n : Nat) : Prop where
  accounts : Accounts base size info (taken ∪ shared.holdingMemory.toFinset)
  apart : Disjoint shared.holdingMemory.toFinset taken
  size_eq : shared.size = n
  held : n = 0 → shared.holdingMemory.toFinset = ∅

theorem createSharedMemory_created (h : Accounts base size region taken)
    (fits : base + size < 0x100000000)
    (run : createSharedMemory owner region n permissions otherPermissions 0 =
      .ok (.ok shared, owner', info)) : Created base size info taken shared n := by
  obtain ⟨⟨offset, r⟩, alloc, run⟩ := bind_eq_ok.mp run
  cases offset with
  | none => cases run
  | some offset =>
    obtain ⟨_, _, run⟩ := bind_eq_ok.mp run
    obtain ⟨_, _, run⟩ := bind_eq_ok.mp run
    cases run
    obtain ⟨⟨b, hb, rfl, long⟩, rfl⟩ := MemoryRegionInfo.linearAllocate_run alloc
    have top := (region.freeBlocks.apart.bounds hb).2
    have last : b.upper - 1 ∈ region.freeBlocks.toFinset :=
      IntervalSet.mem_toFinset.mpr ⟨b, hb, by omega, by omega⟩
    rw [h.free, Finset.mem_sdiff, Finset.mem_Ico] at last
    have free : Pool.Fits region.freeBlocks.toFinset n b.lower := by
      intro a inside
      obtain ⟨low, high⟩ := Finset.mem_Ico.mp inside
      exact IntervalSet.mem_toFinset.mpr ⟨b, hb, low, by omega⟩
    have held : (IntervalSet.empty.add ⟨b.lower, add32 b.lower n⟩).toFinset =
        Finset.Ico b.lower (b.lower + n) := by
      ext a
      rw [IntervalSet.mem_toFinset, IntervalSet.mem_add, add32_eq (by omega), Finset.mem_Ico]
      exact or_iff_left (IntervalSet.not_mem_empty a)
    obtain ⟨accounts, apart⟩ := h.handRun (by omega) free
    refine ⟨?_, ?_, rfl, ?_⟩
    · rw [held]
      exact accounts
    · rw [held]
      exact apart
    · rintro rfl
      rw [held, Nat.add_zero, Finset.Ico_self]

theorem createForApplet_created {offset : Nat} (h : Accounts base size region taken)
    (fits : base + size < 0x100000000)
    (run : createSharedMemoryForApplet region offset n permissions otherPermissions =
      .ok (shared, info)) : Created base size info taken shared n := by
  obtain ⟨⟨result, r⟩, alloc, run⟩ := bind_eq_ok.mp run
  obtain ⟨_, nonempty, run⟩ := bind_eq_ok.mp run
  have nonempty := assert_eq_ok.mp nonempty
  obtain ⟨_, _, run⟩ := bind_eq_ok.mp run
  cases run
  obtain ⟨_, none | ⟨_, total, _⟩⟩ := MemoryRegionInfo.heapAllocate_ok alloc
  · exact absurd none.1 nonempty
  have positive : 0 < n := by
    obtain ⟨b, hb⟩ := List.exists_mem_of_ne_nil _ nonempty
    have bounds := (result.apart.bounds hb).2
    have inside : b.lower ∈ result.toFinset :=
      IntervalSet.mem_toFinset.mpr ⟨b, hb, le_refl _, bounds⟩
    rw [← total, ← IntervalSet.card_toFinset]
    exact Finset.card_pos.mpr ⟨_, inside⟩
  obtain ⟨reply, r', answer, _, apart, _, accounts⟩ := h.heapAllocate (by omega) positive
  obtain ⟨_, alloc', answer⟩ := bind_eq_ok.mp answer
  cases alloc.symm.trans alloc'
  cases answer
  rw [MemoryRegionInfo.track_handed rfl] at accounts
  exact ⟨accounts, apart, rfl, fun zero => absurd zero (Nat.ne_of_gt positive)⟩

end

def Live.share (region : MemoryRegion) (entry : Live) : Finset Nat :=
  if entry.source = region then entry.shared.holdingMemory.toFinset else ∅

def held (region : MemoryRegion) : List Live → Finset Nat
  | [] => ∅
  | entry :: rest => entry.share region ∪ held region rest

theorem held_append (region : MemoryRegion) (live live' : List Live) :
    held region (live ++ live') = held region live ∪ held region live' := by
  induction live with
  | nil => exact (Finset.empty_union _).symm
  | cons entry rest ih => rw [List.cons_append, held, held, ih, Finset.union_assoc]

/-- The bytes a region has handed out are those of the start and those held by live shared
memories, each by one. -/
structure Kept (base size : MemoryRegion → Nat) (first : MemoryRegion → Finset Nat)
    (s : MemoryRegions × List Live) : Prop where
  accounts : ∀ r, Accounts (base r) (size r) (s.1.get r) (first r ∪ held r s.2)
  other : ∀ r, ∀ entry ∈ s.2, Disjoint (entry.share r) (first r)
  apart : ∀ r, s.2.Pairwise fun entry entry' => Disjoint (entry.share r) (entry'.share r)
  empty : ∀ entry ∈ s.2, entry.shared.size = 0 → entry.shared.holdingMemory.toFinset = ∅

variable {base size : MemoryRegion → Nat} {first : MemoryRegion → Finset Nat}
  {regions : MemoryRegions} {live before after : List Live} {entry : Live} {region : MemoryRegion}
  {info : MemoryRegionInfo} {n : Nat}

theorem disjoint_held {bytes : Finset Nat} (h : Disjoint bytes (held region live)) :
    ∀ entry ∈ live, Disjoint bytes (entry.share region) := by
  induction live with
  | nil => exact fun entry none => absurd none List.not_mem_nil
  | cons head rest ih =>
    obtain ⟨here, later⟩ := Finset.disjoint_union_right.mp h
    intro entry member
    rcases List.mem_cons.mp member with rfl | member
    · exact here
    · exact ih later entry member

theorem held_disjoint {bytes : Finset Nat}
    (h : ∀ entry ∈ live, Disjoint bytes (entry.share region)) :
    Disjoint bytes (held region live) := by
  induction live with
  | nil => exact Finset.disjoint_empty_right _
  | cons head rest ih =>
    apply Finset.disjoint_union_right.mpr
    constructor
    · exact h head List.mem_cons_self
    · exact ih fun entry member => h entry (List.mem_cons_of_mem _ member)

theorem Kept.created (entry : Live) (h : Kept base size first (regions, live))
    (created : Created (base entry.source) (size entry.source) info
      (first entry.source ∪ held entry.source live) entry.shared n) :
    Kept base size first (regions.set entry.source info, entry :: live) := by
  obtain ⟨fresh, new⟩ := Finset.disjoint_union_right.mp created.apart
  have share : ∀ r, r ≠ entry.source → entry.share r = ∅ := fun r other =>
    if_neg fun same => other same.symm
  refine ⟨?_, ?_, ?_, ?_⟩
  · intro r
    rw [MemoryRegions.get_set, held]
    by_cases same : r = entry.source
    · subst same
      rw [if_pos rfl, Live.share, if_pos rfl,
        Finset.union_comm entry.shared.holdingMemory.toFinset, ← Finset.union_assoc]
      exact created.accounts
    · rw [if_neg same, share r same, Finset.empty_union]
      exact h.accounts r
  · intro r e member
    rcases List.mem_cons.mp member with rfl | old
    · by_cases same : r = e.source
      · subst same
        rw [Live.share, if_pos rfl]
        exact fresh
      · rw [share r same]
        exact Finset.disjoint_empty_left _
    · exact h.other r e old
  · intro r
    refine List.Pairwise.cons ?_ (h.apart r)
    by_cases same : r = entry.source
    · subst same
      rw [Live.share, if_pos rfl]
      exact disjoint_held new
    · rw [share r same]
      exact fun _ _ => Finset.disjoint_empty_left _
  · intro e member zero
    rcases List.mem_cons.mp member with rfl | old
    · exact created.held (created.size_eq.symm.trans zero)
    · exact h.empty e old zero

theorem Kept.removed (h : Kept base size first (regions, before ++ entry :: after))
    (returned : ∀ r, Accounts (base r) (size r) ((regions.set .system info).get r)
      ((first r ∪ held r (before ++ entry :: after)) \ entry.share r)) :
    Kept base size first (regions.set .system info, before ++ after) := by
  have fewer : (before ++ after).Sublist (before ++ entry :: after) :=
    (List.sublist_cons_self entry after).append_left before
  refine ⟨?_, ?_, ?_, ?_⟩
  · intro r
    have next := returned r
    have apart := (h.apart r)
    rw [List.pairwise_middle fun apart => apart.symm] at apart
    have others := held_disjoint (List.pairwise_cons.mp apart).1
    have own := h.other r entry (by simp)
    have whole : first r ∪ held r (before ++ entry :: after) =
        entry.share r ∪ (first r ∪ held r (before ++ after)) := by
      rw [held_append, held, held_append, Finset.union_left_comm (held r before),
        Finset.union_left_comm (first r)]
    rw [whole, Finset.union_sdiff_cancel_left
      (Finset.disjoint_union_right.mpr ⟨own, others⟩)] at next
    exact next
  · exact fun r e member => h.other r e (fewer.subset member)
  · exact fun r => (h.apart r).sublist fewer
  · exact fun e member => h.empty e (fewer.subset member)

theorem destroy_ok {shared : SharedMemory} {owner owner' : Option Process}
    {system : MemoryRegionInfo} (run : shared.destroy owner system = .ok (owner', info)) :
    release system shared.holdingMemory.blocks = .ok info := by
  obtain ⟨freed, released, run⟩ := bind_eq_ok.mp run
  cases owner with
  | none =>
    cases run
    exact released
  | some p =>
    split_ifs at run with based
    · obtain ⟨_, _, run⟩ := bind_eq_ok.mp run
      cases run
      exact released
    · cases run
      exact released

theorem Kept.step (h : Kept base size first (regions, live))
    (fits : ∀ r, base r + size r < 0x100000000) {call : Call} {s : MemoryRegions × List Live}
    (returns : call.Returns (regions, live)) (step : Step (regions, live) call s) :
    Kept base size first s := by
  cases step with
  | @create _ _ owner _ _ _ _ region shared _ run =>
    exact h.created ⟨shared, region, owner.isSome⟩
      (createSharedMemory_created (h.accounts region) (fits region) run)
  | @createForApplet _ _ _ _ _ _ shared _ run =>
    exact h.created ⟨shared, .system, false⟩
      (createForApplet_created (h.accounts .system) (fits .system) run)
  | @destroy _ before after entry _ _ info run =>
    have released := destroy_ok run
    have member : entry ∈ before ++ entry :: after := by simp
    have returns := returns entry (by simp)
    apply h.removed
    -- an entry of another region holds nothing, and the SYSTEM region stays as it is
    have inside : entry.shared.holdingMemory.toFinset ⊆
        first .system ∪ held .system (before ++ entry :: after) := by
      rcases returns with source | zero
      · rw [held_append, held, Live.share, if_pos source]
        intro a mem
        simp only [Finset.mem_union]
        exact Or.inr (Or.inr (Or.inl mem))
      · rw [h.empty entry member zero]
        exact Finset.empty_subset _
    obtain ⟨region', released', accounts⟩ := release_ok (h.accounts .system) (fits .system)
      entry.shared.holdingMemory.apart inside
    cases released.symm.trans released'
    have shares : ∀ r, r ≠ .system → entry.share r = ∅ := by
      intro r other
      unfold Live.share
      split_ifs with same
      · rcases returns with source | zero
        · exact absurd (same.symm.trans source) other
        · exact h.empty entry member zero
      · rfl
    intro r
    rw [MemoryRegions.get_set]
    by_cases isSystem : r = .system
    · subst isSystem
      have share : entry.share .system = entry.shared.holdingMemory.toFinset := by
        unfold Live.share
        split_ifs with same
        · rfl
        · rcases returns with source | zero
          · exact absurd source same
          · exact (h.empty entry member zero).symm
      rw [share]
      exact accounts
    · rw [if_neg isSystem, shares r isSystem, Finset.sdiff_empty]
      exact h.accounts r

/-- As long as only shared memories of the SYSTEM region, or of no bytes, are destroyed, the
regions stay balanced. -/
theorem regions_balanced {start : MemoryRegions} (prepared : Prepared start)
    {s : MemoryRegions × List Live}
    (h : Runs.Reachable (fun s => s = (start, [])) Step (fun s call => call.Returns s) s) :
    Balanced start s := by
  choose base size first fits managed using prepared
  have atStart : ∀ r, Accounts (base r) (size r) (start.get r) (first r) := fun r =>
    (managed r).accounts (fits r)
  have kept : Kept base size first s := by
    apply h.invariant
    · rintro _ rfl
      refine ⟨fun r => ?_, fun _ _ none => absurd none List.not_mem_nil,
        fun _ => List.Pairwise.nil, fun _ none => absurd none List.not_mem_nil⟩
      rw [held, Finset.union_empty]
      exact atStart r
    · intro s call s' kept returns step
      exact kept.step fits returns step
  refine ⟨?_, ?_, ?_⟩
  · intro r
    rw [(kept.accounts r).size_eq]
    exact (kept.accounts r).card
  · intro r a free
    have free := IntervalSet.mem_toFinset.mpr free
    rw [(kept.accounts r).free, Finset.mem_sdiff, Finset.mem_Ico] at free
    rw [(kept.accounts r).base_eq, (kept.accounts r).size_eq]
    exact free.1
  · intro none r
    have now := kept.accounts r
    rw [none, held, Finset.union_empty] at now
    constructor
    · apply IntervalSet.eq_of_toFinset
      rw [now.free, (atStart r).free]
    · rw [now.used, (atStart r).used]

def configuration0 : MemoryRegions where
  application := { base := 0, size := 0x04000000, used := 0,
                   freeBlocks := IntervalSet.empty.add ⟨0, 0x04000000⟩ }
  system := { base := 0x04000000, size := 0x02C00000, used := 0,
              freeBlocks := IntervalSet.empty.add ⟨0x04000000, 0x06C00000⟩ }
  base := { base := 0x06C00000, size := 0x01400000, used := 0,
            freeBlocks := IntervalSet.empty.add ⟨0x06C00000, 0x08000000⟩ }

theorem configuration0_prepared : Prepared configuration0 := by
  intro r
  cases r with
  | application => exact ⟨0, 0x04000000, ∅, by decide, .start ⟨⟨⟨0, 0, 0, .empty, false⟩, rfl⟩, rfl⟩⟩
  | system =>
    exact ⟨0x04000000, 0x02C00000, ∅, by decide, .start ⟨⟨⟨0, 0, 0, .empty, false⟩, rfl⟩, rfl⟩⟩
  | base =>
    exact ⟨0x06C00000, 0x01400000, ∅, by decide, .start ⟨⟨⟨0, 0, 0, .empty, false⟩, rfl⟩, rfl⟩⟩

theorem base_created : ∃ shared info,
    createSharedMemory none configuration0.base 0x1000 3 3 0 = .ok (.ok shared, none, info) ∧
      shared.holdingMemory.blocks = [⟨0x06C00000, 0x06C01000⟩] :=
  ⟨_, _, rfl, rfl⟩

def bystander : Process where
  vmManager := ⟨OrderedMap.Map.empty, false⟩
  memoryRegion := configuration0.application

theorem one_destroyed : ∃ s₁ s₂ s₃, Step (configuration0, []) (.create none 0x1000 3 3 .system) s₁ ∧
    Step s₁ (.create none 0x1000 3 3 .base) s₂ ∧ Step s₂ (.destroy 1 bystander) s₃ ∧
    (∀ entry, s₂.2[1]? = some entry → entry.source = .system) ∧
    (s₂.1.get .system).used = 0x1000 ∧ (s₃.1.get .system).used = 0 ∧ s₃.2 ≠ [] := by
  refine ⟨_, _, _, .create rfl, .create rfl, @Step.destroy _ [_] [] _ _ _ _ rfl, ?_, rfl,
    rfl, List.cons_ne_nil _ _⟩
  intro entry here
  cases here
  rfl

/-- The memory from SYSTEM is given back while that from BASE lives. -/
theorem regions_balanced_destroyed : ∃ s : MemoryRegions × List Live,
    (s.1.get .system).used = 0 ∧ s.2 ≠ [] ∧ Balanced configuration0 s := by
  obtain ⟨_, _, s, system, base, destroyed, own, _, used, left⟩ := one_destroyed
  have reached : Runs.Reachable (· = (configuration0, [])) Step (fun s call => call.Returns s) s :=
    .step (a := .destroy 1 bystander)
      (.step (a := .create none 0x1000 3 3 .base)
        (.step (a := .create none 0x1000 3 3 .system) (.start rfl) trivial system) trivial base)
      (fun entry here => .inl (own entry here)) destroyed
  exact ⟨s, used, left, regions_balanced configuration0_prepared reached⟩

/-- The block from the BASE region is freed into the SYSTEM region. -/
theorem regions_balanced_fails : ¬ ∀ start s, Prepared start →
    Runs.Reachable (fun s => s = (start, [])) Step (fun _ _ => True) s → Balanced start s := by
  intro all
  obtain ⟨shared, info, run, holds⟩ := base_created
  have freed : ∃ system, shared.destroy none configuration0.system = .ok (none, system) ∧
      0x06C00000 ∈ system.freeBlocks ∧ system.base + system.size = 0x06C00000 := by
    unfold destroy
    rw [holds]
    exact ⟨_, rfl, ⟨⟨0x04000000, 0x06C01000⟩, by decide, by decide⟩, rfl⟩
  obtain ⟨system, destroyed, free, top⟩ := freed
  obtain ⟨owner⟩ : Nonempty Process := ⟨⟨⟨.empty, false⟩, configuration0.system, 0, 0, 0⟩⟩
  have created : Runs.Reachable (fun s => s = (configuration0, [])) Step (fun _ _ => True)
      (configuration0.set .base info, [⟨shared, .base, false⟩]) :=
    .step (a := .create none 0x1000 3 3 .base) (.start rfl) trivial (.create run)
  have ended : Runs.Reachable (fun s => s = (configuration0, [])) Step (fun _ _ => True)
      ((configuration0.set .base info).set .system system, []) :=
    .step created trivial (@Step.destroy _ [] [] ⟨shared, .base, false⟩ owner _ _ destroyed)
  have within : _ ∧ 0x06C00000 < system.base + system.size :=
    (all _ _ configuration0_prepared ended).within .system _ free
  rw [top] at within
  exact lt_irrefl _ within.2

end SharedMemory
end EmuThreeDS
