import EmuThreeDS.Kernel.MapCalls
import EmuThreeDS.Kernel.ControlMemory

/-!
# Where the memory calls cannot stop

Only `MemoryRegionInfo::Free` asserts that a freed range is not free already. The other
functions may stop at assertions of their own, never at that one.
-/
namespace EmuThreeDS
open Intervals

namespace VMManager

variable {vm : VMManager} {m : VmaMap} {target size : Nat}

@[simp] theorem deref_avoids (it : Option Nat) : Avoids .regionFree (deref m it) := by
  unfold deref
  split <;> simp

@[simp] theorem findVMA_avoids : Avoids .regionFree (findVMA m target) := by
  unfold findVMA
  cases m.prev (m.upperBound target) <;> simp

@[simp] theorem advance_avoids (r : MemoryRef) (n : Nat) : Avoids .regionFree (r.advance n) := by
  simp [MemoryRef.advance]

@[simp] theorem advanceMemory_avoids (v : VirtualMemoryArea) (n : Nat) :
    Avoids .regionFree (advanceMemory v n) := by
  unfold advanceMemory
  cases v.type <;> simp

@[simp] theorem canBeMergedWith_avoids (v w : VirtualMemoryArea) :
    Avoids .regionFree (v.canBeMergedWith w) := by
  simp [VirtualMemoryArea.canBeMergedWith]

@[simp] theorem splitVMA_avoids (k offset : Nat) : Avoids .regionFree (splitVMA m k offset) := by
  simp [splitVMA]

@[simp] theorem splitIf_avoids (p : Prop) [Decidable p] (k offset : Nat) :
    Avoids .regionFree (splitIf p m k offset) := by
  simp [splitIf]

theorem carveVMA_avoids : Avoids .regionFree (carveVMA m target size) := by
  simp [carveVMA]
  intros
  split <;> simp

@[simp] theorem allInRange_avoids (check : VirtualMemoryArea → Bool)
    (es : List (Nat × VirtualMemoryArea)) (last : Option Nat) :
    Avoids .regionFree (allInRange check es last) := by
  induction es with
  | nil => simp [allInRange]
  | cons e rest ih => simp [allInRange, ih]

@[simp] theorem splitBefore_avoids (k : Nat) : Avoids .regionFree (splitBefore m k target) := by
  simp [splitBefore]

theorem carveVMARange_avoids : Avoids .regionFree (carveVMARange m target size) := by
  simp [carveVMARange]
  intros
  split <;> simp
  intros
  split <;> simp

section

variable (inv : Inv vm) (ht : target < 0x100000000) (hs : size < 0x100000000)
include inv ht hs

theorem unmapRange_avoids : Avoids .regionFree (vm.unmapRange target size) := by
  by_cases valid : ValidRange target size
  · rcases unmapRange_info inv valid with ⟨_, e, run⟩ | ⟨_, vm', run, _⟩ <;> rw [run] <;>
      exact avoids_ok _
  · refine avoids_bind (by simp) fun _ _ => ?_
    refine avoids_bind carveVMARange_avoids fun reply carve => ?_
    exact False.elim (valid (carveVMARange_ok ht hs carve))

theorem reprotectRange_avoids {perms : VMAPermission} : Avoids .regionFree
    (vm.reprotectRange target size perms) := by
  by_cases valid : ValidRange target size
  · rcases reprotectRange_info perms inv valid with ⟨_, e, run⟩ | ⟨_, vm', run, _⟩ <;> rw [run] <;>
      exact avoids_ok _
  · refine avoids_bind (by simp) fun _ _ => ?_
    refine avoids_bind carveVMARange_avoids fun reply carve => ?_
    exact False.elim (valid (carveVMARange_ok ht hs carve))

theorem changeMemoryState_avoids {expectedState newState : MemoryState}
    {expectedPerms newPerms : VMAPermission} : Avoids .regionFree
      (vm.changeMemoryState target size expectedState expectedPerms newState newPerms) := by
  by_cases valid : ValidRange target size
  · rcases changeMemoryState_info expectedState newState expectedPerms newPerms inv valid with
      ⟨_, e, run⟩ | ⟨_, _, vm', run, _⟩ <;> rw [run] <;> exact avoids_ok _
  · refine avoids_ite (fun _ => avoids_ok _) fun _ => ?_
    refine avoids_bind findVMA_avoids fun begin_vma _ => ?_
    refine avoids_ite (fun _ => avoids_ok _) fun _ => ?_
    refine avoids_bind (allInRange_avoids _ _ _) fun expected _ => ?_
    refine avoids_ite (fun _ => avoids_ok _) fun _ => ?_
    refine avoids_bind carveVMARange_avoids fun reply carve => ?_
    exact False.elim (valid (carveVMARange_ok ht hs carve))

end

theorem backingBlocksLoop_avoids (targetEnd fuel address : Nat) (acc : List (MemoryRef × Nat)) :
    Avoids .regionFree (backingBlocksLoop m targetEnd fuel address acc) := by
  induction fuel generalizing address acc with
  | zero => exact nofun
  | succ fuel ih =>
    refine avoids_ite (fun _ => avoids_ok _) fun _ => ?_
    refine avoids_bind findVMA_avoids fun found _ => ?_
    refine avoids_bind (deref_avoids _) fun v _ => ?_
    refine avoids_ite (fun _ => avoids_ok _) fun _ => ?_
    exact avoids_bind (advance_avoids _ _) fun _ _ => ih _ _

variable {state : MemoryState} {memory : MemoryRef} {site : Site}

theorem mapBackingMemory_avoids (inv : Inv vm) (ht : target < 0x100000000) (hs : size < 0x100000000)
    (enough : ValidRange target size → size ≤ memory.getSize) :
    Avoids .regionFree (vm.mapBackingMemory target memory size state) := by
  by_cases good : ValidRange target size ∧ FreeRoom vm.areas target size ∧ memory.getPtr ≠ none
  · obtain ⟨valid, room, some_ptr⟩ := good
    obtain ⟨_, _, _, vm₁, run, _⟩ :=
      mapBackingMemory_info state inv valid ⟨some_ptr, enough valid⟩ room
    rw [run]
    exact avoids_ok _
  · refine avoids_bind (by simp) fun _ _ => ?_
    refine avoids_bind (by simp) fun _ ptr => ?_
    refine avoids_bind carveVMA_avoids fun reply carve => ?_
    obtain ⟨carved, m⟩ := reply
    cases carved with
    | error e => exact avoids_ok _
    | ok k =>
      obtain ⟨valid, room⟩ := carveVMA_ok inv.laidOut ht hs carve
      exact False.elim (good ⟨valid, room, assert_eq_ok.mp ptr⟩)

theorem mapAndReprotect_avoids {perms : VMAPermission} (inv : Inv vm) (other : site ≠ .regionFree)
    (ht : target < 0x100000000) (hs : size < 0x100000000)
    (enough : ValidRange target size → size ≤ memory.getSize) :
    Avoids .regionFree (mapAndReprotect site vm target memory size state perms) := by
  refine avoids_bind (mapBackingMemory_avoids inv ht hs enough) fun reply map => ?_
  obtain ⟨result, vm₁⟩ := reply
  cases result with
  | error e =>
    rintro ⟨⟩
    exact other rfl
  | ok handle =>
    obtain ⟨valid, room, some_ptr⟩ := mapBackingMemory_ok inv ht hs map
    obtain ⟨before, mid, after, vm₂, map', inv₁, _, _, _, same⟩ :=
      mapBackingMemory_info state inv valid ⟨some_ptr, enough valid⟩ room
    obtain ⟨rfl, rfl⟩ : (Cursor.merge _).here.base = handle ∧ vm₂ = vm₁ := by
      simpa using map'.symm.trans map
    have laid := inv₁.laidOut
    rw [same] at laid
    have found := find_at (L := (Cursor.merge _).before.reverse) laid
    obtain ⟨handle', vm₃, protect, _⟩ := reprotect_info perms inv₁ found
    refine avoids_bind ?_ fun _ _ => avoids_ok _
    rw [protect]
    exact avoids_ok _

theorem mapBlocks_avoids {perms : VMAPermission} {blocks : List (MemoryRef × Nat)} (inv : Inv vm)
    (other : site ≠ .regionFree) (ht : target < 0x100000000) (ok : ∀ b ∈ blocks, BlockOk b) :
    Avoids .regionFree (mapBlocks site state perms vm target blocks) := by
  induction blocks generalizing vm target with
  | nil => exact avoids_ok _
  | cons b rest ih =>
    obtain ⟨small, enough⟩ := ok b List.mem_cons_self
    have enough : ValidRange target b.2 → b.2 ≤ b.1.getSize := fun valid =>
      enough valid.nonempty (Nat.le_trans (Nat.le_add_left _ _) valid.fits)
    refine avoids_bind (mapAndReprotect_avoids inv other ht small enough) fun vm₁ step => ?_
    obtain ⟨inv₁, _⟩ := mapAndReprotect_effect inv ht small enough step
    exact ih inv₁ (add32_lt _ _) fun c hc => ok c (List.mem_cons_of_mem b hc)

end VMManager

namespace Process

variable {p : Process} {target source size : Nat} {perms : VMAPermission}

@[simp] theorem isFreeRange_avoids (vm : VMManager) :
    Avoids .regionFree (isFreeRange vm target size) := by
  simp [isFreeRange]

theorem fillFCRAM_avoids (lower upper : Nat) : Avoids .regionFree (fillFCRAM lower upper) := by
  simp [fillFCRAM]

theorem getFCRAMRef_avoids (offset : Nat) : Avoids .regionFree (getFCRAMRef offset) := by
  simp [getFCRAMRef]

theorem getFCRAMOffset_avoids (pointer : HostPtr) : Avoids .regionFree (getFCRAMOffset pointer) := by
  cases pointer <;> simp [getFCRAMOffset]

theorem mapIntervals_avoids {vm : VMManager} {bs : List Block}
    (inv : VMManager.Inv vm) (ht : target < 0x100000000) (inside : ∀ b ∈ bs, b.upper ≤ fcramSize) :
    Avoids .regionFree (mapIntervals state perms vm target bs) := by
  induction bs generalizing vm target with
  | nil => exact avoids_ok _
  | cons b rest ih =>
    obtain ⟨small, enough⟩ := VMManager.fcramBlock_ok (inside b List.mem_cons_self)
    have enough : VMManager.ValidRange target b.length →
        b.length ≤ (fcramBlock b).1.getSize := fun valid =>
      enough valid.nonempty (Nat.le_trans (Nat.le_add_left _ _) valid.fits)
    refine avoids_bind (fillFCRAM_avoids _ _) fun _ _ => ?_
    refine avoids_bind (getFCRAMRef_avoids _) fun memory ref => ?_
    obtain ⟨_, _, ref⟩ := bind_eq_ok.mp ref
    cases ref
    refine avoids_bind
      (VMManager.mapAndReprotect_avoids inv (by decide) ht small enough) fun vm₁ step => ?_
    obtain ⟨inv₁, _⟩ := VMManager.mapAndReprotect_effect inv ht small enough step
    exact ih inv₁ (add32_lt _ _) fun c hc => inside c (List.mem_cons_of_mem b hc)

theorem heapAllocate_avoids {memoryState : MemoryState} {skipRangeCheck : Bool} (sound : p.Sound)
    (ht : target < 0x100000000) :
    Avoids .regionFree (p.heapAllocate target size perms memoryState skipRangeCheck) := by
  have take : ∀ {region : MemoryRegionInfo} {result : IntervalSet},
      p.memoryRegion.heapAllocate size = .ok (result, region) → result.blocks ≠ [] →
      Avoids .regionFree (mapIntervals memoryState perms p.vmManager target result.blocks) := by
    intro region result alloc some_block
    obtain ⟨_, none | ⟨rfl, _⟩⟩ := MemoryRegionInfo.heapAllocate_ok alloc
    · exact False.elim (some_block none.1)
    · exact mapIntervals_avoids sound.vm ht fun b hb => sound.region.highest_block hb
  unfold heapAllocate
  split_ifs
  · exact avoids_ok _
  all_goals
    refine avoids_bind (isFreeRange_avoids _) fun roomy _ => ?_
    refine avoids_ite (fun _ => avoids_ok _) fun _ => ?_
    refine avoids_bind ?_ fun reply alloc => ?_
    · refine avoids_bind (by simp) fun _ _ => ?_
      exact avoids_ite (fun _ => avoids_ok _) fun _ => avoids_ok _
    · refine avoids_ite (fun _ => avoids_ok _) fun some_block => ?_
      exact avoids_bind (take alloc some_block) fun _ _ => avoids_ok _

theorem linearReserve_avoids : Avoids .regionFree (p.linearReserve target size) := by
  simp only [linearReserve, MemoryRegionInfo.linearAllocate, MemoryRegionInfo.linearAllocateAt]
  cases p.memoryRegion.freeBlocks.blocks.find? fun interval => interval.length ≥ size <;>
    simp [assert]

section

variable (sound : p.Sound) (ht : target < 0x100000000)
include sound ht

theorem linearAllocate_avoids (hs : size < 0x100000000) : Avoids .regionFree
    (p.linearAllocate target size perms) := by
  refine avoids_bind linearReserve_avoids fun reply reserve => ?_
  obtain ⟨reserved, region⟩ := reply
  rcases linearReserve_ok reserve with ⟨⟨e, rfl⟩, _⟩ | ⟨rfl, moved, handed⟩
  · exact avoids_ok _
  · refine avoids_bind (getFCRAMRef_avoids _) fun memory ref => ?_
    obtain ⟨_, inside, ref⟩ := bind_eq_ok.mp ref
    cases ref
    have block := linearBlock_ok sound hs (assert_eq_ok.mp inside) handed
    refine avoids_bind (VMManager.mapAndReprotect_avoids sound.vm (by decide)
      (linearTarget_lt ht) hs fun valid => ?_) fun _ _ => avoids_ok _
    exact block.2 valid.nonempty (Nat.le_trans (Nat.le_add_left _ _) valid.fits)

theorem map_avoids (hs : source < 0x100000000) (hn : size < 0x100000000) :
    Avoids .regionFree (p.map target source size perms privileged) := by
  refine avoids_ite (fun _ => avoids_ok _) fun _ => avoids_ite (fun _ => ?_) fun _ => ?_
  · refine avoids_ite (fun _ => avoids_ite (fun _ => ?_) fun _ => avoids_ok _) fun _ => avoids_ok _
    exact avoids_bind (VMManager.changeMemoryState_avoids sound.vm hs hn) fun _ _ => avoids_ok _
  · refine avoids_bind (isFreeRange_avoids _) fun roomy _ => ?_
    refine avoids_ite (fun _ => avoids_ok _) fun _ => ?_
    refine avoids_bind (VMManager.changeMemoryState_avoids sound.vm hs hn) fun reply change => ?_
    obtain ⟨result, vm₁⟩ := reply
    rcases VMManager.changeMemoryState_ok sound.vm hs hn change with
      ⟨⟨e, rfl⟩, rfl⟩ | ⟨rfl, changed⟩
    · exact avoids_ok _
    · refine avoids_bind (VMManager.backingBlocksLoop_avoids _ _ _ _) fun listed list => ?_
      cases listed with
      | error e => exact avoids_ok _
      | ok blocks =>
        have valid := changed.valid
        obtain ⟨backs, total⟩ :=
          VMManager.getBackingBlocksForRange_ok changed.inv valid.fits list
        refine avoids_bind ?_ fun _ _ => avoids_ok _
        exact VMManager.mapBlocks_avoids changed.inv (by decide) ht
          (backs.blockOk (total.symm ▸ valid.fits) (by decide))

theorem unmap_avoids (hs : source < 0x100000000) (hn : size < 0x100000000) :
    Avoids .regionFree (p.unmap target source size perms privileged) := by
  refine avoids_ite (fun _ => avoids_ok _) fun _ => avoids_ite (fun _ => ?_) fun _ => ?_
  · refine avoids_ite (fun _ => avoids_ite (fun _ => ?_) fun _ => avoids_ok _) fun _ => avoids_ok _
    exact avoids_bind (VMManager.changeMemoryState_avoids sound.vm hs hn) fun _ _ => avoids_ok _
  · refine avoids_bind (VMManager.unmapRange_avoids sound.vm ht hn) fun reply unmap => ?_
    obtain ⟨result, vm₁⟩ := reply
    rcases VMManager.unmapRange_ok sound.vm ht hn unmap with ⟨⟨e, rfl⟩, rfl⟩ | ⟨rfl, unmapped⟩
    · exact avoids_ok _
    · exact avoids_bind (VMManager.changeMemoryState_avoids unmapped.inv hs hn) fun _ _ =>
        avoids_ok _

end

end Process
end EmuThreeDS
