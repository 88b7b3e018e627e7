import EmuThreeDS.Kernel.RangeAnswers

/-!
# The memory calls of a process

Each call that returns is described by what it did to the address map and to the region. From
these descriptions: every reachable process is sound, and mapping new memory leaves the old
memory alone exactly when no read-write neighbour is swept along.
-/
namespace EmuThreeDS
open Tiling Layout Intervals

namespace VMManager

variable {vm vm' : VMManager} {target size : Nat} {state : MemoryState} {perms : VMAPermission}

/-- `[target, target + size)` was free and is backed by `blocks` now. -/
structure MapsBlocks (vm vm' : VMManager) (target size : Nat) (blocks : List (MemoryRef × Nat))
    (state : MemoryState) (perms : VMAPermission) : Prop where
  inv : Inv vm'
  managed : Managed vm → Managed vm'
  valid : ValidRange target size
  free : ∀ a, target ≤ a → a < target + size → ∃ i, vm.info a = some i ∧ i.type = .free
  effect : MapEffect vm.info vm'.info target (target + size)
    (blocksValue state perms target blocks) state perms (firstByte blocks) (pastByte blocks)

variable {blocks : List (MemoryRef × Nat)} {site : Site} {expectedState newState : MemoryState}
  {expectedPerms newPerms : VMAPermission}

theorem mapBlocks_ok (inv : Inv vm) (ht : target < 0x100000000) (some_block : blocks ≠ [])
    (ok : ∀ b ∈ blocks, BlockOk b) (run : mapBlocks site state perms vm target blocks = .ok vm') :
    MapsBlocks vm vm' target (totalSize blocks) blocks state perms := by
  cases blocks with
  | nil => exact False.elim (some_block rfl)
  | cons b rest =>
    obtain ⟨inv', managed, valid, free, effect⟩ := mapBlocks_effect inv ht ok run
    exact ⟨inv', managed, valid, free, effect⟩

theorem mapBlocks_one {memory : MemoryRef}
    (run : mapAndReprotect site vm target memory size state perms = .ok vm') :
    mapBlocks site state perms vm target [(memory, size)] = .ok vm' :=
  bind_eq_ok.mpr ⟨vm', run, rfl⟩

structure Changed (vm vm' : VMManager) (target size : Nat) (expectedState : MemoryState)
    (expectedPerms : VMAPermission) (newState : MemoryState) (newPerms : VMAPermission) : Prop where
  inv : Inv vm'
  managed : Managed vm → Managed vm'
  valid : ValidRange target size
  mapped : Mapped vm.areas target size
  expected : Expected vm.areas target size expectedState expectedPerms
  info : vm'.info = updateOn target (target + size)
    (fun _ i => { i with permissions := newPerms, meminfoState := newState }) vm.info

theorem changeMemoryState_ok {reply : ResultVal Unit} (inv : Inv vm)
    (ht : target < 0x100000000) (hs : size < 0x100000000)
    (run : changeMemoryState vm target size expectedState expectedPerms newState newPerms =
      .ok (reply, vm')) : (∃ e, reply = .error e) ∧ vm' = vm ∨
      reply = .ok () ∧ Changed vm vm' target size expectedState expectedPerms newState newPerms := by
  by_cases valid : ValidRange target size
  · rcases changeMemoryState_info expectedState newState expectedPerms newPerms inv valid with
      ⟨_, e, run'⟩ | ⟨mapped, expected, vm₁, run', inv', info', _⟩
    · cases run.symm.trans run'
      exact Or.inl ⟨⟨e, rfl⟩, rfl⟩
    · cases run.symm.trans run'
      refine Or.inr ⟨rfl, inv', fun managed => ?_, valid, mapped, expected, info'⟩
      exact managed.op (.changeMemoryState target size expectedState expectedPerms newState newPerms)
        valid True.intro (bind_eq_ok.mpr ⟨_, run, rfl⟩)
  · have unlocked := inv.unlocked
    simp only [changeMemoryState, unlocked, Bool.false_eq_true, if_false] at run
    obtain ⟨begin_vma, _, run⟩ := bind_eq_ok.mp run
    split_ifs at run with out
    · cases run
      exact Or.inl ⟨⟨_, rfl⟩, rfl⟩
    · obtain ⟨answer, _, run⟩ := bind_eq_ok.mp run
      split_ifs at run with other
      · cases run
        exact Or.inl ⟨⟨_, rfl⟩, rfl⟩
      · obtain ⟨reply', carve, _⟩ := bind_eq_ok.mp run
        exact False.elim (valid (carveVMARange_ok ht hs carve))

theorem Changed.backing
    (h : Changed vm vm' target size expectedState expectedPerms newState newPerms) (a : Nat) :
    (vm'.info a).bind AddressInfo.backing = (vm.info a).bind AddressInfo.backing := by
  rw [h.info]
  unfold updateOn
  split_ifs
  · cases vm.info a <;> rfl
  · rfl

structure Unmapped (vm vm' : VMManager) (target size : Nat) : Prop where
  inv : Inv vm'
  valid : ValidRange target size
  mapped : Mapped vm.areas target size
  info : vm'.info = updateOn target (target + size) (fun _ _ => ⟨.free, .none, .free, none⟩) vm.info

theorem unmapRange_ok {reply : ResultVal Unit} (inv : Inv vm) (ht : target < 0x100000000)
    (hs : size < 0x100000000) (run : unmapRange vm target size = .ok (reply, vm')) :
    (∃ e, reply = .error e) ∧ vm' = vm ∨ reply = .ok () ∧ Unmapped vm vm' target size := by
  have valid : ValidRange target size := by
    obtain ⟨_, _, run⟩ := bind_eq_ok.mp run
    obtain ⟨reply', carve, _⟩ := bind_eq_ok.mp run
    exact carveVMARange_ok ht hs carve
  rcases unmapRange_info inv valid with ⟨_, e, run'⟩ | ⟨mapped, vm₁, run', inv', info', _⟩
  · cases run.symm.trans run'
    exact Or.inl ⟨⟨e, rfl⟩, rfl⟩
  · cases run.symm.trans run'
    exact Or.inr ⟨rfl, inv', valid, mapped, info'⟩

theorem expected_info (inv : Inv vm) (valid : ValidRange target size)
    (expected : Expected vm.areas target size expectedState expectedPerms) {a : Nat}
    (low : target ≤ a) (high : a < target + size) :
    ∃ i, vm.info a = some i ∧ i.meminfoState = expectedState := by
  have fits := valid.fits
  obtain ⟨L, v, R, split, covers⟩ := inv.laidOut.laid.tiles.exists_covers (Nat.zero_le a)
    (show a < maxAddress by omega)
  have mem : v ∈ vm.areas := by
    rw [split]
    simp
  have here := inv.laidOut.laid.tiles.view_mem mem covers
  obtain ⟨below, above⟩ : v.base ≤ a ∧ a < v.base + v.size := covers
  exact ⟨v.infoAt a, here, (expected v mem ⟨by omega, by omega⟩).1⟩

end VMManager

namespace Process

/-- The states `Map` gives to its two ranges, and the permissions of the source. -/
def sourceState (privileged : Bool) : MemoryState := if privileged then .locked else .aliased

def targetState (privileged : Bool) : MemoryState := if privileged then .aliasCode else .«alias»

def sourcePerm (privileged : Bool) : VMAPermission := if privileged then .none else .readWrite

/-- Outside the kernel's own table a process has a whole address space and a region in FCRAM. -/
structure Sound (p : Process) : Prop where
  vm : VMManager.Inv p.vmManager
  region : p.memoryRegion.Sound

variable {p p' : Process} {target source size : Nat} {perms : VMAPermission}

structure Kept (p p' : Process) : Prop where
  vm : p'.vmManager = p.vmManager
  moved : MemoryRegionInfo.Moved p.memoryRegion p'.memoryRegion
  rest : ∀ a, a ∈ p'.memoryRegion.freeBlocks ↔ a ∈ p.memoryRegion.freeBlocks

theorem Kept.refl (p : Process) : Kept p p := ⟨rfl, ⟨rfl, rfl, rfl⟩, fun _ => Iff.rfl⟩

theorem Kept.sound (h : Kept p p') (sound : p.Sound) : p'.Sound := by
  refine ⟨?_, sound.region.moved h.moved fun a ha => sound.region.inside a ((h.rest a).mp ha)⟩
  rw [h.vm]
  exact sound.vm

/-- `HeapAllocate` maps the bytes it took from the region. -/
structure HeapAllocated (p p' : Process) (target size : Nat) (perms : VMAPermission)
    (memoryState : MemoryState) : Prop where
  moved : MemoryRegionInfo.Moved p.memoryRegion p'.memoryRegion
  rest : ∀ a, a ∈ p'.memoryRegion.freeBlocks ↔
    a ∈ p.memoryRegion.freeBlocks ∧ a ∉ p.memoryRegion.highest size
  total : total (p.memoryRegion.highest size).blocks = size
  maps : VMManager.MapsBlocks p.vmManager p'.vmManager target size
    ((p.memoryRegion.highest size).blocks.map fcramBlock) memoryState perms

theorem heapTake_ok {reply : ResultVal Nat} (sound : p.Sound)
    (ht : target < 0x100000000)
    (run : (do
      let (allocatedFcram, region) ← p.memoryRegion.heapAllocate size
      if allocatedFcram.blocks = [] then
        return (.error .outOfHeapMemory, { p with memoryRegion := region })
      let vm ← mapIntervals memoryState perms p.vmManager target allocatedFcram.blocks
      return (.ok target, { p with
        vmManager := vm
        memoryRegion := region
        memoryUsed := add32 p.memoryUsed size
        currentCommit := add32 p.currentCommit size })) = Except.ok (reply, p')) :
    (∃ e, reply = .error e) ∧ Kept p p' ∨
      reply = .ok target ∧ HeapAllocated p p' target size perms memoryState := by
  obtain ⟨⟨result, region⟩, alloc, run⟩ := bind_eq_ok.mp run
  simp only at run
  obtain ⟨moved, ⟨none, rfl⟩ | ⟨rfl, total, rest⟩⟩ := MemoryRegionInfo.heapAllocate_ok alloc
  · rw [if_pos none] at run
    cases run
    exact Or.inl ⟨⟨_, rfl⟩, Kept.refl p⟩
  · split_ifs at run with empty
    · cases run
      refine Or.inl ⟨⟨_, rfl⟩, rfl, moved, fun a => (rest a).trans (and_iff_left ?_)⟩
      rintro ⟨b, hb, _⟩
      rw [empty] at hb
      exact nomatch hb
    · obtain ⟨vm, map, run⟩ := bind_eq_ok.mp run
      cases run
      have maps := VMManager.mapBlocks_ok sound.vm ht
        (fun none => empty (List.map_eq_nil_iff.mp none)) (by
          intro b hb
          obtain ⟨c, hc, rfl⟩ := List.mem_map.mp hb
          exact VMManager.fcramBlock_ok (sound.region.highest_block hc))
        (VMManager.mapIntervals_ok map)
      rw [VMManager.totalSize_fcram, total] at maps
      exact Or.inr ⟨rfl, moved, rest, total, maps⟩

theorem heapAllocate_ok {skipRangeCheck : Bool} {reply : ResultVal Nat}
    (sound : p.Sound) (ht : target < 0x100000000)
    (run : p.heapAllocate target size perms memoryState skipRangeCheck = .ok (reply, p')) :
    (∃ e, reply = .error e) ∧ Kept p p' ∨
      reply = .ok target ∧ HeapAllocated p p' target size perms memoryState := by
  have refused : ∀ {e : ResultCode}, (Except.ok (.error e, p) : Exec (ResultVal Nat × Process)) =
      .ok (reply, p') → (∃ e, reply = .error e) ∧ Kept p p' := by
    intro e h
    cases h
    exact ⟨⟨_, rfl⟩, Kept.refl p⟩
  unfold heapAllocate at run
  split_ifs at run with outside check
  · exact Or.inl (refused run)
  · obtain ⟨roomy, _, run⟩ := bind_eq_ok.mp run
    split_ifs at run
    · exact Or.inl (refused run)
    · exact heapTake_ok sound ht run
  · obtain ⟨roomy, _, run⟩ := bind_eq_ok.mp run
    split_ifs at run
    · exact Or.inl (refused run)
    · exact heapTake_ok sound ht run

def linearOffset (p : Process) (target size : Nat) : Nat :=
  if target = 0 then
    match p.memoryRegion.firstFit size with
    | some b => b.lower
    | none => 0
  else sub32 target p.getLinearHeapAreaAddress

def linearTarget (p : Process) (target size : Nat) : Nat :=
  if target = 0 then add32 (p.linearOffset target size) p.getLinearHeapAreaAddress else target

def linearBlock (offset size : Nat) : MemoryRef × Nat := (⟨some fcram, offset⟩, size)

structure LinearAllocated (p p' : Process) (target size : Nat) (perms : VMAPermission) : Prop where
  handed : MemoryRegionInfo.Handed p.memoryRegion p'.memoryRegion (p.linearOffset target size) size
  maps : VMManager.MapsBlocks p.vmManager p'.vmManager (p.linearTarget target size) size
    [linearBlock (p.linearOffset target size) size] .continuous perms

theorem linearReserve_ok {reserved : ResultVal (Nat × Nat)}
    (run : p.linearReserve target size = .ok (reserved, region)) :
    (∃ e, reserved = .error e) ∧ region = p.memoryRegion ∨
      reserved = .ok (p.linearOffset target size, p.linearTarget target size) ∧
      MemoryRegionInfo.Moved p.memoryRegion region ∧
      (p.linearOffset target size + size < 0x100000000 →
        MemoryRegionInfo.Handed p.memoryRegion region (p.linearOffset target size) size) := by
  unfold linearReserve at run
  split_ifs at run with first outside
  · obtain ⟨⟨offset, r⟩, call, run⟩ := bind_eq_ok.mp run
    rcases MemoryRegionInfo.linearAllocate_ok call with ⟨_, rfl, rfl⟩ | ⟨b, found, rfl, handed⟩
    · cases run
      exact Or.inl ⟨⟨_, rfl⟩, rfl⟩
    · cases run
      have offset : p.linearOffset target size = b.lower := by
        simp only [linearOffset, first, if_true, found]
      rw [linearTarget, if_pos first, offset]
      exact Or.inr ⟨rfl, handed.moved, fun _ => handed⟩
  · cases run
    exact Or.inl ⟨⟨_, rfl⟩, rfl⟩
  · obtain ⟨⟨done, r⟩, call, run⟩ := bind_eq_ok.mp run
    have offset : p.linearOffset target size = sub32 target p.getLinearHeapAreaAddress :=
      if_neg first
    rw [linearTarget, if_neg first, offset]
    rcases MemoryRegionInfo.linearAllocateAt_ok call with ⟨rfl, rfl⟩ | ⟨rfl, moved, _, handed⟩
    · cases run
      exact Or.inl ⟨⟨_, rfl⟩, rfl⟩
    · cases run
      exact Or.inr ⟨rfl, moved, handed⟩

theorem linearTarget_lt (ht : target < 0x100000000) : p.linearTarget target size < 0x100000000 := by
  unfold linearTarget
  split_ifs
  · exact add32_lt _ _
  · exact ht

theorem linearBlock_ok (sound : p.Sound) (hs : size < 0x100000000)
    (inside : p.linearOffset target size ≤ fcramSize)
    (handed : p.linearOffset target size + size < 0x100000000 →
      MemoryRegionInfo.Handed p.memoryRegion region (p.linearOffset target size) size) :
    VMManager.BlockOk (linearBlock (p.linearOffset target size) size) := by
  refine ⟨hs, fun pos fits => ?_⟩
  have limit : fcramSize = 0x10000000 := rfl
  have top : VMManager.maxAddress = 0x40000000 := rfl
  have fits : size ≤ VMManager.maxAddress := fits
  have bounds := (handed (by omega)).bounds sound.region pos
  have whole : fcram.size = fcramSize := rfl
  simp only [linearBlock, MemoryRef.getSize, whole]
  omega

theorem linearAllocate_ok {reply : ResultVal Nat} (sound : p.Sound) (ht : target < 0x100000000)
    (hs : size < 0x100000000) (run : p.linearAllocate target size perms = .ok (reply, p')) :
    (∃ e, reply = .error e) ∧ Kept p p' ∨
      reply = .ok (p.linearTarget target size) ∧ LinearAllocated p p' target size perms := by
  obtain ⟨⟨reserved, region⟩, reserve, run⟩ := bind_eq_ok.mp run
  rcases linearReserve_ok reserve with ⟨⟨e, rfl⟩, rfl⟩ | ⟨rfl, moved, handed⟩
  · cases run
    exact Or.inl ⟨⟨_, rfl⟩, Kept.refl p⟩
  · obtain ⟨memory, ref, run⟩ := bind_eq_ok.mp run
    obtain ⟨_, inside, ref⟩ := bind_eq_ok.mp ref
    cases ref
    have inside := assert_eq_ok.mp inside
    obtain ⟨vm, map, run⟩ := bind_eq_ok.mp run
    cases run
    have limit : fcramSize = 0x10000000 := rfl
    have top : VMManager.maxAddress = 0x40000000 := rfl
    have block := linearBlock_ok sound hs inside handed
    have map : VMManager.mapBlocks .linearAllocate .continuous perms p.vmManager
        (p.linearTarget target size) [linearBlock (p.linearOffset target size) size] = .ok vm :=
      VMManager.mapBlocks_one map
    have maps := VMManager.mapBlocks_ok sound.vm (linearTarget_lt ht) (List.cons_ne_nil _ _)
      (fun b hb => List.mem_singleton.mp hb ▸ block) map
    have total : VMManager.totalSize [linearBlock (p.linearOffset target size) size] = size :=
      Nat.add_zero _
    have fits := maps.valid.fits
    exact Or.inr ⟨rfl, handed (by omega), maps⟩

/-- How `Map` ends: it refuses, marks its one range, stops with a source that is marked and not
all memory, or maps. -/
inductive MapOutcome (vm : VMManager) (target source size : Nat) (perms : VMAPermission)
    (privileged : Bool) : ResultVal Unit → VMManager → Prop where
  | refused (e : ResultCode) : MapOutcome vm target source size perms privileged (.error e) vm
  | inPlace {vm' : VMManager} : source = target →
      VMManager.Changed vm vm' source size .«private» .readWrite .aliasCode perms →
      MapOutcome vm target source size perms privileged (.ok ()) vm'
  | marked (e : ResultCode) {vm' : VMManager} :
      VMManager.Changed vm vm' source size .«private» .readWrite (sourceState privileged)
        (sourcePerm privileged) →
      (∃ a i, source ≤ a ∧ a < source + size ∧ vm'.info a = some i ∧ i.type ≠ .backingMemory) →
      MapOutcome vm target source size perms privileged (.error e) vm'
  | mapped {vm₁ vm' : VMManager} {blocks : List (MemoryRef × Nat)} : source ≠ target →
      VMManager.Changed vm vm₁ source size .«private» .readWrite (sourceState privileged)
        (sourcePerm privileged) →
      VMManager.Backs vm₁.info source blocks → VMManager.totalSize blocks = size →
      VMManager.MapsBlocks vm₁ vm' target size blocks (targetState privileged) perms →
      MapOutcome vm target source size perms privileged (.ok ()) vm'

variable {reply : ResultVal Unit}

theorem map_ok (inv : p.vmManager.Inv)
    (ht : target < 0x100000000) (hs : source < 0x100000000) (hn : size < 0x100000000)
    (run : p.map target source size perms privileged = .ok (reply, p')) :
    ∃ vm', p' = { p with vmManager := vm' } ∧
      MapOutcome p.vmManager target source size perms privileged reply vm' := by
  unfold map at run
  by_cases invalid : validSource source size privileged = false
  · rw [if_pos invalid] at run
    cases run
    exact ⟨_, rfl, .refused _⟩
  rw [if_neg invalid] at run
  by_cases overlap : overlapping target source size = true
  · rw [if_pos overlap] at run
    split_ifs at run with guest same
    · obtain ⟨⟨result, vm⟩, change, run⟩ := bind_eq_ok.mp run
      cases run
      rcases VMManager.changeMemoryState_ok inv hs hn change with
        ⟨⟨e, rfl⟩, rfl⟩ | ⟨rfl, changed⟩
      · exact ⟨_, rfl, .refused e⟩
      · exact ⟨vm, rfl, .inPlace same changed⟩
    · cases run
      exact ⟨_, rfl, .refused _⟩
    · cases run
      exact ⟨_, rfl, .refused _⟩
  rw [if_neg overlap] at run
  obtain ⟨roomy, _, run⟩ := bind_eq_ok.mp run
  by_cases taken : roomy = false
  · simp only [taken, if_true] at run
    cases run
    exact ⟨_, rfl, .refused _⟩
  simp only [taken] at run
  obtain ⟨⟨result, vm₁⟩, change, run⟩ := bind_eq_ok.mp run
  rcases VMManager.changeMemoryState_ok inv hs hn change with
    ⟨⟨e, rfl⟩, rfl⟩ | ⟨rfl, changed⟩
  · cases run
    exact ⟨_, rfl, .refused e⟩
  · have valid := changed.valid
    have pos := valid.nonempty
    have apart : source ≠ target := by
      rintro rfl
      refine overlap ?_
      have zero : sub32 source source = 0 := by
        unfold sub32
        omega
      simp [overlapping, zero, pos]
    obtain ⟨listed, list, run⟩ := bind_eq_ok.mp run
    cases listed with
    | error e =>
      cases run
      rcases VMManager.getBackingBlocksForRange_total changed.inv valid with
        ⟨_, a, i, _, low, high, here, type⟩ | ⟨blocks, list', _⟩
      · exact ⟨vm₁, rfl, .marked e changed ⟨a, i, low, high, here, type⟩⟩
      · cases list.symm.trans list'
    | ok blocks =>
      obtain ⟨vm, map, run⟩ := bind_eq_ok.mp run
      cases run
      obtain ⟨backs, total⟩ :=
        VMManager.getBackingBlocksForRange_ok changed.inv valid.fits list
      have some_block : blocks ≠ [] := by
        rintro rfl
        have : (0 : Nat) = size := total
        omega
      have maps := VMManager.mapBlocks_ok changed.inv ht some_block
        (backs.blockOk (total.symm ▸ valid.fits) (by decide)) map
      rw [total] at maps
      exact ⟨vm, rfl, .mapped apart changed backs total maps⟩

/-- How `Unmap` ends: it refuses, changes its one range back, or frees the target and, unless
the source is in another state by then, changes the source back. -/
inductive UnmapOutcome (vm : VMManager) (target source size : Nat) (perms : VMAPermission)
    (privileged : Bool) : ResultVal Unit → VMManager → Prop where
  | refused (e : ResultCode) : UnmapOutcome vm target source size perms privileged (.error e) vm
  | inPlace {vm' : VMManager} : source = target →
      VMManager.Changed vm vm' source size .aliasCode .none .«private» perms →
      UnmapOutcome vm target source size perms privileged (.ok ()) vm'
  | freed (e : ResultCode) {vm' : VMManager} : VMManager.Unmapped vm vm' target size →
      UnmapOutcome vm target source size perms privileged (.error e) vm'
  | unmapped {vm₁ vm' : VMManager} : VMManager.Unmapped vm vm₁ target size →
      VMManager.Changed vm₁ vm' source size (sourceState privileged) .none .«private» perms →
      UnmapOutcome vm target source size perms privileged (.ok ()) vm'

theorem unmap_ok (inv : p.vmManager.Inv)
    (ht : target < 0x100000000) (hs : source < 0x100000000) (hn : size < 0x100000000)
    (run : p.unmap target source size perms privileged = .ok (reply, p')) :
    ∃ vm', p' = { p with vmManager := vm' } ∧
      UnmapOutcome p.vmManager target source size perms privileged reply vm' := by
  unfold unmap at run
  by_cases invalid : validSource source size privileged = false
  · rw [if_pos invalid] at run
    cases run
    exact ⟨_, rfl, .refused _⟩
  rw [if_neg invalid] at run
  by_cases overlap : overlapping target source size = true
  · split_ifs at run with guest same
    · obtain ⟨⟨result, vm⟩, change, run⟩ := bind_eq_ok.mp run
      cases run
      rcases VMManager.changeMemoryState_ok inv hs hn change with
        ⟨⟨e, rfl⟩, rfl⟩ | ⟨rfl, changed⟩
      · exact ⟨_, rfl, .refused e⟩
      · exact ⟨vm, rfl, .inPlace same changed⟩
    · cases run
      exact ⟨_, rfl, .refused _⟩
    · cases run
      exact ⟨_, rfl, .refused _⟩
  rw [if_neg overlap] at run
  obtain ⟨⟨result, vm₁⟩, unmap, run⟩ := bind_eq_ok.mp run
  rcases VMManager.unmapRange_ok inv ht hn unmap with ⟨⟨e, rfl⟩, rfl⟩ | ⟨rfl, unmapped⟩
  · cases run
    exact ⟨_, rfl, .refused e⟩
  · obtain ⟨⟨result, vm⟩, change, run⟩ := bind_eq_ok.mp run
    cases run
    rcases VMManager.changeMemoryState_ok unmapped.inv hs hn change with
      ⟨⟨e, rfl⟩, rfl⟩ | ⟨rfl, changed⟩
    · exact ⟨_, rfl, .freed e unmapped⟩
    · exact ⟨vm, rfl, .unmapped unmapped changed⟩

def HoldsByte (blocks : List (MemoryRef × Nat)) (c : Nat) : Prop :=
  ∃ b ∈ blocks, ∃ i < b.2, HostPtr.add b.1.getPtr i = some (fcram, c)

theorem fcram_block {b : MemoryRef × Nat} (pos : 0 < b.2)
    (enough : b.2 ≤ b.1.getSize) (run : getFCRAMOffset b.1.getPtr = .ok offset) :
    b.1.getPtr = some (fcram, offset) ∧ offset + b.2 ≤ fcramSize := by
  obtain ⟨⟨mem, start⟩, size⟩ := b
  cases mem with
  | none => cases run
  | some block =>
    obtain ⟨_, here, run⟩ := bind_eq_ok.mp run
    cases run
    obtain ⟨rfl, _⟩ := assert_eq_ok.mp here
    have enough : size ≤ fcramSize - start := enough
    exact ⟨rfl, by simp only; omega⟩

theorem getFCRAMOffset_at {b : MemoryRef × Nat} (pos : 0 < b.2)
    (enough : b.2 ≤ b.1.getSize) (here : b.1.getPtr = some (fcram, offset)) :
    getFCRAMOffset b.1.getPtr = .ok offset := by
  obtain ⟨⟨mem, start⟩, size⟩ := b
  cases mem with
  | none => cases here
  | some block =>
    cases here
    have enough : size ≤ fcramSize - start := enough
    have inside : start ≤ fcramSize := by omega
    exact bind_eq_ok.mpr ⟨(), assert_pos ⟨rfl, inside⟩, rfl⟩

theorem fcram_byte {b : MemoryRef × Nat} {c : Nat} (here : b.1.getPtr = some (fcram, offset)) :
    (∃ i < b.2, HostPtr.add b.1.getPtr i = some (fcram, c)) ↔ offset ≤ c ∧ c < offset + b.2 := by
  simp only [here, HostPtr.add, Option.map_some, Option.some.injEq, Prod.mk.injEq, true_and]
  constructor
  · omega
  · intro on
    exact ⟨c - offset, by omega, by omega⟩

/-- The loop of `HeapFree` gives back exactly the bytes of the blocks. -/
theorem freeBlocks_ok {region' : MemoryRegionInfo} (sound : region.Sound)
    (ok : ∀ b ∈ blocks, 0 < b.2 ∧ b.2 ≤ b.1.getSize)
    (run : freeBlocks region blocks = .ok region') :
    region'.Sound ∧ MemoryRegionInfo.Moved region region' ∧
      ∀ c, c ∈ region'.freeBlocks ↔ HoldsByte blocks c ∨ c ∈ region.freeBlocks := by
  induction blocks generalizing region with
  | nil =>
    cases run
    exact ⟨sound, ⟨rfl, rfl, rfl⟩, fun c => by simp [HoldsByte]⟩
  | cons b rest ih =>
    obtain ⟨offset, get, run⟩ := bind_eq_ok.mp run
    obtain ⟨r, free, run⟩ := bind_eq_ok.mp run
    obtain ⟨pos, enough⟩ := ok b List.mem_cons_self
    obtain ⟨here, fits⟩ := fcram_block pos enough get
    have limit : fcramSize = 0x10000000 := rfl
    rcases MemoryRegionInfo.free_cases sound.unlocked
      (show offset + b.2 < 0x100000000 by omega) with ⟨_, fault⟩ | ⟨_, r', run', moved, more⟩
    · cases fault.symm.trans free
    · cases run'.symm.trans free
      have sound' := sound.moved moved fun a ha => by
        rcases (more a).mp ha with on | ha
        · omega
        · exact sound.inside a ha
      obtain ⟨sound'', moved', rest'⟩ :=
        ih sound' (fun c hc => ok c (List.mem_cons_of_mem b hc)) run
      refine ⟨sound'', ⟨moved'.base.trans moved.base, moved'.size.trans moved.size,
        moved'.unlocked.trans moved.unlocked⟩, fun c => ?_⟩
      rw [rest', more, ← fcram_byte here, ← or_assoc]
      refine or_congr_left ?_
      simp only [HoldsByte, List.exists_mem_cons_iff]
      exact or_comm

theorem Backs_blocks {g : InfoMap} {address : Nat} (h : VMManager.Backs g address blocks) :
    ∀ b ∈ blocks, 0 < b.2 ∧ b.2 ≤ b.1.getSize := by
  induction blocks generalizing address with
  | nil => exact nofun
  | cons c rest ih =>
    obtain ⟨pos, enough, _, later⟩ := h
    intro b hb
    rcases List.mem_cons.mp hb with rfl | hb
    · exact ⟨pos, enough⟩
    · exact ih later b hb

structure HeapFreed (p p' : Process) (target size : Nat) (blocks : List (MemoryRef × Nat)) :
    Prop where
  within : target + size ≤ heapVaddrEnd
  backs : VMManager.Backs p.vmManager.info target blocks
  total : VMManager.totalSize blocks = size
  unmapped : VMManager.Unmapped p.vmManager p'.vmManager target size
  region : p'.memoryRegion.Sound
  moved : MemoryRegionInfo.Moved p.memoryRegion p'.memoryRegion
  rest : ∀ c, c ∈ p'.memoryRegion.freeBlocks ↔ HoldsByte blocks c ∨ c ∈ p.memoryRegion.freeBlocks

theorem heap_range (h : ¬ (target < heapVaddr ∨ add32 target size > heapVaddrEnd ∨
    add32 target size < target)) (ht : target < 0x100000000) (hs : size < 0x100000000) :
    heapVaddr ≤ target ∧ target + size ≤ heapVaddrEnd := by
  have sum := add32_cases ht hs
  omega

theorem heapFree_ok (sound : p.Sound) (ht : target < 0x100000000)
    (hs : size < 0x100000000) (run : p.heapFree target size = .ok (reply, p')) :
    p' = p ∨ reply = .ok () ∧ ∃ blocks, HeapFreed p p' target size blocks := by
  unfold heapFree at run
  split_ifs at run with outside none
  · cases run
    exact Or.inl rfl
  · cases run
    exact Or.inl rfl
  · obtain ⟨_, high⟩ := heap_range outside ht hs
    obtain ⟨listed, list, run⟩ := bind_eq_ok.mp run
    cases listed with
    | error e =>
      cases run
      exact Or.inl rfl
    | ok blocks =>
      obtain ⟨region, free, run⟩ := bind_eq_ok.mp run
      obtain ⟨⟨result, vm⟩, unmap, run⟩ := bind_eq_ok.mp run
      obtain ⟨backs, total⟩ := VMManager.getBackingBlocksForRange_ok sound.vm
        (Nat.le_trans high (by decide)) list
      obtain ⟨region', moved, rest⟩ := freeBlocks_ok sound.region (Backs_blocks backs) free
      rcases VMManager.unmapRange_ok sound.vm ht hs unmap with ⟨⟨e, rfl⟩, _⟩ | ⟨rfl, unmapped⟩
      · cases run
      · cases run
        exact Or.inr ⟨rfl, blocks, high, backs, total, unmapped, region', moved, rest⟩

/-- `LinearFree` gives back the bytes at the place of the range, whatever backs it. -/
structure LinearFreed (p p' : Process) (target size : Nat) : Prop where
  unmapped : VMManager.Unmapped p.vmManager p'.vmManager target size
  within : sub32 target p.getLinearHeapAreaAddress + size ≤ fcramSize
  moved : MemoryRegionInfo.Moved p.memoryRegion p'.memoryRegion
  rest : ∀ c, c ∈ p'.memoryRegion.freeBlocks ↔
    (sub32 target p.getLinearHeapAreaAddress ≤ c ∧
      c < sub32 target p.getLinearHeapAreaAddress + size) ∨ c ∈ p.memoryRegion.freeBlocks

theorem linear_range (sound : p.Sound) (h : ¬ (target < p.getLinearHeapBase ∨
    add32 target size > p.getLinearHeapLimit ∨ add32 target size < target))
    (ht : target < 0x100000000) (hs : size < 0x100000000) :
    sub32 target p.getLinearHeapAreaAddress = target - p.getLinearHeapAreaAddress ∧
      p.getLinearHeapAreaAddress ≤ target ∧
      target - p.getLinearHeapAreaAddress + size ≤ p.memoryRegion.base + p.memoryRegion.size := by
  have area : p.getLinearHeapAreaAddress = 0x14000000 ∨ p.getLinearHeapAreaAddress = 0x30000000 := by
    unfold getLinearHeapAreaAddress
    split_ifs
    · exact Or.inl rfl
    · exact Or.inr rfl
  have bounds := sound.region.bounds
  have limit : fcramSize = 0x10000000 := rfl
  have base : p.getLinearHeapBase = p.getLinearHeapAreaAddress + p.memoryRegion.base :=
    add32_eq (by omega)
  have top : p.getLinearHeapLimit =
      p.getLinearHeapAreaAddress + p.memoryRegion.base + p.memoryRegion.size := by
    rw [getLinearHeapLimit, base]
    exact add32_eq (by omega)
  have sum := add32_cases ht hs
  have diff : p.getLinearHeapAreaAddress ≤ target →
      sub32 target p.getLinearHeapAreaAddress = target - p.getLinearHeapAreaAddress :=
    fun le => sub32_eq le ht
  omega

theorem linearFree_ok (sound : p.Sound) (ht : target < 0x100000000)
    (hs : size < 0x100000000) (run : p.linearFree target size = .ok (reply, p')) :
    p' = p ∨ reply = .ok () ∧ LinearFreed p p' target size := by
  unfold linearFree at run
  split_ifs at run with outside none
  · cases run
    exact Or.inl rfl
  · cases run
    exact Or.inl rfl
  · obtain ⟨offset, low, high⟩ := linear_range sound outside ht hs
    obtain ⟨⟨result, vm⟩, unmap, run⟩ := bind_eq_ok.mp run
    rcases VMManager.unmapRange_ok sound.vm ht hs unmap with ⟨⟨e, rfl⟩, rfl⟩ | ⟨rfl, unmapped⟩
    · cases run
      exact Or.inl rfl
    · obtain ⟨region, free, run⟩ := bind_eq_ok.mp run
      cases run
      have limit : fcramSize = 0x10000000 := rfl
      have bounds := sound.region.bounds
      have within : sub32 target p.getLinearHeapAreaAddress + size ≤ fcramSize := by omega
      rcases MemoryRegionInfo.free_cases sound.region.unlocked
        (show sub32 target p.getLinearHeapAreaAddress + size < 0x100000000 by omega) with
        ⟨_, fault⟩ | ⟨_, r, run', moved, rest⟩
      · cases fault.symm.trans free
      · cases run'.symm.trans free
        exact Or.inr ⟨rfl, unmapped, within, moved, rest⟩

end Process
end EmuThreeDS
