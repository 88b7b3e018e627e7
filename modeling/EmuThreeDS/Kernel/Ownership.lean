import EmuThreeDS.Kernel.Faults

/-!
# Who owns a byte of FCRAM

A byte is free in the region or backs memory of the process, not both. Allocation and aliasing
keep this; giving memory back keeps it when nothing else is backed by it.
-/
namespace EmuThreeDS
open Tiling Layout Intervals

namespace VMManager

def BackedBy (vm : VMManager) (a c : Nat) : Prop :=
  (vm.info a).bind AddressInfo.backing = some (fcram, c)

instance (vm : VMManager) (a c : Nat) : Decidable (BackedBy vm a c) :=
  inferInstanceAs (Decidable (_ = _))

variable {vm vm' : VMManager} {target size a c : Nat} {blocks : List (MemoryRef × Nat)}

variable {b : MemoryRef × Nat} {state : MemoryState}

theorem holdsByte_cons : Process.HoldsByte (b :: blocks) c ↔
    (∃ i < b.2, HostPtr.add b.1.getPtr i = some (fcram, c)) ∨ Process.HoldsByte blocks c := by
  simp only [Process.HoldsByte, List.exists_mem_cons_iff]

theorem blocksValue_backing {perms : VMAPermission}
    (low : target ≤ a) (high : a < target + totalSize blocks)
    (here : (blocksValue state perms target blocks a).backing = some (fcram, c)) :
    Process.HoldsByte blocks c := by
  induction blocks generalizing target with
  | nil =>
    have : a < target + 0 := high
    omega
  | cons b rest ih =>
    have total : totalSize (b :: rest) = b.2 + totalSize rest := rfl
    rw [holdsByte_cons]
    rw [blocksValue] at here
    split_ifs at here with first
    · exact Or.inl ⟨a - target, by omega, here⟩
    · exact Or.inr (ih (by omega) (by omega) here)

theorem MapsBlocks.backed {perms : VMAPermission}
    (h : MapsBlocks vm vm' target size blocks state perms) (total : totalSize blocks = size)
    (here : BackedBy vm' a c) : BackedBy vm a c ∨ Process.HoldsByte blocks c := by
  by_cases on : target ≤ a ∧ a < target + size
  · right
    rw [BackedBy, h.effect.inside a on.1 on.2] at here
    exact blocksValue_backing on.1 (total.symm ▸ on.2) here
  · left
    obtain ⟨q, same⟩ := h.effect.frame a on
    rw [BackedBy, same] at here
    rw [BackedBy]
    cases at_a : vm.info a with
    | none =>
      rw [at_a] at here
      exact nomatch here
    | some i =>
      rw [at_a] at here
      exact here

theorem Changed.backed {expectedState newState : MemoryState}
    {expectedPerms newPerms : VMAPermission}
    (h : Changed vm vm' target size expectedState expectedPerms newState newPerms) :
    BackedBy vm' a c ↔ BackedBy vm a c := by
  rw [BackedBy, BackedBy, h.backing]

theorem Unmapped.backed (h : Unmapped vm vm' target size) :
    BackedBy vm' a c ↔ BackedBy vm a c ∧ ¬ (target ≤ a ∧ a < target + size) := by
  rw [BackedBy, h.info]
  by_cases on : target ≤ a ∧ a < target + size
  · rw [updateOn_in on]
    refine iff_of_false ?_ fun h => h.2 on
    cases vm.info a <;> exact nofun
  · rw [updateOn_out on]
    exact (and_iff_left on).symm

theorem Backs.holdsByte (h : Backs vm.info target blocks) (held : Process.HoldsByte blocks c) :
    ∃ a, target ≤ a ∧ a < target + totalSize blocks ∧ BackedBy vm a c := by
  obtain ⟨b, hb, i, hi, ptr⟩ := held
  obtain ⟨a, info, low, high, here, _, backing⟩ := h.mem hb hi
  refine ⟨a, low, high, ?_⟩
  rw [BackedBy, here, Option.bind_some, backing, ptr]

theorem backedBy_unique {d : Nat} (hc : BackedBy vm a c) (hd : BackedBy vm a d) : c = d := by
  have same := hc.symm.trans hd
  exact (Prod.mk.inj (Option.some.inj same)).2

theorem Backs.byte {offset : Nat} (backs : Backs vm.info target (b :: blocks))
    (here : b.1.getPtr = some (fcram, offset)) (low : offset ≤ c) (high : c < offset + b.2) :
    BackedBy vm (target + (c - offset)) c := by
  obtain ⟨info, at_i, _, backing⟩ := backs.2.2.1 (c - offset) (by omega)
  have sum : offset + (c - offset) = c := by omega
  rw [BackedBy, at_i, Option.bind_some, backing, here, HostPtr.add, Option.map_some, sum]

theorem Backs.byte_of (backs : Backs vm.info target (b :: blocks))
    (low : target ≤ a) (high : a < target + b.2) (backed : BackedBy vm a c) :
    HostPtr.add b.1.getPtr (a - target) = some (fcram, c) := by
  obtain ⟨info, at_i, _, backing⟩ := backs.2.2.1 (a - target) (by omega)
  have sum : target + (a - target) = a := by omega
  rw [sum] at at_i
  rwa [BackedBy, at_i, Option.bind_some, backing] at backed

end VMManager

namespace Process
open VMManager

variable {p p' : Process} {target source size : Nat} {perms : VMAPermission}

def Owned (p : Process) : Prop :=
  ∀ a c, BackedBy p.vmManager a c → c ∉ p.memoryRegion.freeBlocks

theorem Owned.kept (h : p.Owned) (kept : Kept p p') : p'.Owned := by
  intro a c here free
  rw [kept.vm] at here
  exact h a c here ((kept.rest c).mp free)

theorem fcram_holdsByte {bs : List Block} {c : Nat} (h : HoldsByte (bs.map fcramBlock) c) :
    ∃ b ∈ bs, b.Has c := by
  obtain ⟨block, mem, i, hi, ptr⟩ := h
  obtain ⟨b, hb, rfl⟩ := List.mem_map.mp mem
  have hi : i < b.upper - b.lower := hi
  have ptr : some (fcram, b.lower + i) = some (fcram, c) := ptr
  obtain ⟨_, rfl⟩ := Prod.mk.inj (Option.some.inj ptr)
  exact ⟨b, hb, Nat.le_add_right _ _, by omega⟩

theorem Owned.heapAllocated {memoryState : MemoryState} (h : p.Owned)
    (done : HeapAllocated p p' target size perms memoryState) : p'.Owned := by
  intro a c here free
  obtain ⟨was_free, fresh⟩ := (done.rest c).mp free
  rcases done.maps.backed ((totalSize_fcram _).trans done.total) here with old | held
  · exact h a c old was_free
  · exact fresh (fcram_holdsByte held)

theorem Owned.linearAllocated (h : p.Owned) (done : LinearAllocated p p' target size perms) :
    p'.Owned := by
  intro a c here free
  obtain ⟨was_free, fresh⟩ := (done.handed.rest c).mp free
  rcases done.maps.backed (Nat.add_zero _) here with old | ⟨b, hb, i, hi, ptr⟩
  · exact h a c old was_free
  · cases List.mem_singleton.mp hb
    have hi : i < size := hi
    have ptr : some (fcram, p.linearOffset target size + i) = some (fcram, c) := ptr
    obtain ⟨_, rfl⟩ := Prod.mk.inj (Option.some.inj ptr)
    exact fresh (by omega)

theorem Owned.mapped {vm' : VMManager} (h : p.Owned)
    (done : MapOutcome p.vmManager target source size perms privileged reply vm') :
    Owned { p with vmManager := vm' } := by
  intro a c here free
  cases done with
  | refused e => exact h a c here free
  | inPlace _ changed | marked e changed _ => exact h a c (changed.backed.mp here) free
  | mapped _ changed backs total maps =>
    rcases maps.backed total here with old | held
    · exact h a c (changed.backed.mp old) free
    · obtain ⟨b, _, _, there⟩ := backs.holdsByte held
      exact h b c (changed.backed.mp there) free

theorem Owned.unmapped {vm' : VMManager} (h : p.Owned)
    (done : UnmapOutcome p.vmManager target source size perms privileged reply vm') :
    Owned { p with vmManager := vm' } := by
  intro a c here free
  cases done with
  | refused e => exact h a c here free
  | inPlace _ changed => exact h a c (changed.backed.mp here) free
  | freed e unmapped => exact h a c (unmapped.backed.mp here).1 free
  | unmapped unmapped changed => exact h a c (unmapped.backed.mp (changed.backed.mp here)).1 free

/-- No byte behind the range backs any other address. -/
def Alone (p : Process) (target size : Nat) : Prop :=
  ∀ a, target ≤ a → a < target + size → ∀ b c, BackedBy p.vmManager a c →
    BackedBy p.vmManager b c → b = a

theorem Owned.heapFreed {blocks : List (MemoryRef × Nat)} (h : p.Owned)
    (done : HeapFreed p p' target size blocks) (alone : p.Alone target size) : p'.Owned := by
  intro a c here free
  obtain ⟨old, outside⟩ := done.unmapped.backed.mp here
  rcases (done.rest c).mp free with held | free
  · obtain ⟨b, low, high, there⟩ := done.backs.holdsByte held
    rw [done.total] at high
    cases alone b low high a c there old
    exact outside ⟨low, high⟩
  · exact h a c old free

/-- The bytes at the linear place of the range are taken, and back nothing outside the range. -/
def LinearAlone (p : Process) (target size : Nat) : Prop :=
  ∀ c, sub32 target p.getLinearHeapAreaAddress ≤ c →
    c < sub32 target p.getLinearHeapAreaAddress + size →
    c ∉ p.memoryRegion.freeBlocks ∧ ∀ b, BackedBy p.vmManager b c → target ≤ b ∧ b < target + size

theorem Owned.linearFreed (h : p.Owned) (done : LinearFreed p p' target size)
    (alone : p.LinearAlone target size) : p'.Owned := by
  intro a c here free
  obtain ⟨old, outside⟩ := done.unmapped.backed.mp here
  rcases (done.rest c).mp free with on | free
  · exact outside ((alone c on.1 on.2).2 a old)
  · exact h a c old free

theorem freeBlocks_avoids {vm : VMManager} {region : MemoryRegionInfo}
    {blocks : List (MemoryRef × Nat)} (sound : region.Sound) (backs : Backs vm.info target blocks)
    (alone : ∀ a, target ≤ a → a < target + totalSize blocks → ∀ b c, BackedBy vm a c →
      BackedBy vm b c → b = a)
    (taken : ∀ a, target ≤ a → a < target + totalSize blocks → ∀ c, BackedBy vm a c →
      c ∉ region.freeBlocks) : Avoids .regionFree (freeBlocks region blocks) := by
  induction blocks generalizing region target with
  | nil => exact avoids_ok _
  | cons b rest ih =>
    have total : totalSize (b :: rest) = b.2 + totalSize rest := rfl
    have limit : fcramSize = 0x10000000 := rfl
    obtain ⟨pos, enough⟩ := Backs_blocks backs b List.mem_cons_self
    refine avoids_bind (getFCRAMOffset_avoids _) fun offset get => ?_
    obtain ⟨here, fits⟩ := fcram_block pos enough get
    rcases MemoryRegionInfo.free_cases sound.unlocked
      (show offset + b.2 < 0x100000000 by omega) with
      ⟨⟨c, low, high, free⟩, _⟩ | ⟨_, region', run, moved, more⟩
    · exact False.elim
        (taken _ (Nat.le_add_right _ _) (by omega) c (backs.byte here low high) free)
    · rw [run]
      refine ih ?_ backs.2.2.2 ?_ ?_
      · refine sound.moved moved fun a ha => ?_
        rcases (more a).mp ha with on | ha
        · omega
        · exact sound.inside a ha
      · intro a low high
        exact alone a (by omega) (by omega)
      · intro a low high c backed free
        rcases (more c).mp free with on | free
        · have first := backs.byte here on.1 on.2
          have := alone a (by omega) (by omega) _ c backed first
          omega
        · exact taken a (by omega) (by omega) c backed free

def AllBacked (p : Process) (target size : Nat) : Prop :=
  ∀ a, target ≤ a → a < target + size → ∃ i, p.vmManager.info a = some i ∧ i.type = .backingMemory

theorem allBacked_of_backs {blocks : List (MemoryRef × Nat)}
    (backs : Backs p.vmManager.info target blocks) : p.AllBacked target (totalSize blocks) := by
  induction blocks generalizing target with
  | nil =>
    intro a low high
    have : a < target + 0 := high
    omega
  | cons b rest ih =>
    have total : totalSize (b :: rest) = b.2 + totalSize rest := rfl
    intro a low high
    by_cases first : a < target + b.2
    · obtain ⟨info, here, type, _⟩ := backs.2.2.1 (a - target) (by omega)
      have sum : target + (a - target) = a := by omega
      exact ⟨info, sum ▸ here, type⟩
    · exact ih backs.2.2.2 a (by omega) (by omega)

/-- What `HeapFree` and `LinearFree` rely on and do not check: a range they would free stands
alone. -/
def HeapFreeSafe (p : Process) (target size : Nat) : Prop :=
  target + size ≤ heapVaddrEnd → p.AllBacked target size → p.Alone target size

def LinearFreeSafe (p : Process) (target size : Nat) : Prop :=
  (∀ a, target ≤ a → a < target + size → ∃ i, p.vmManager.info a = some i ∧ i.type ≠ .free) →
    p.LinearAlone target size

section

variable (sound : p.Sound) (owned : p.Owned) (safe : p.HeapFreeSafe target size)
  (ht : target < 0x100000000) (hs : size < 0x100000000)
include sound owned safe ht hs

theorem heapFree_owned (run : p.heapFree target size = .ok (reply, p')) : p'.Sound ∧ p'.Owned := by
  rcases heapFree_ok sound ht hs run with rfl | ⟨_, blocks, done⟩
  · exact ⟨sound, owned⟩
  · refine ⟨⟨done.unmapped.inv, done.region⟩, owned.heapFreed done (safe ?_ ?_)⟩
    · exact done.within
    · exact done.total ▸ allBacked_of_backs done.backs

theorem heapFree_avoids : Avoids .regionFree (p.heapFree target size) := by
  unfold heapFree
  by_cases outside : target < heapVaddr ∨ add32 target size > heapVaddrEnd ∨
      add32 target size < target
  · rw [if_pos outside]
    exact avoids_ok _
  rw [if_neg outside]
  refine avoids_ite (fun _ => avoids_ok _) fun _ => ?_
  obtain ⟨_, high⟩ := heap_range outside ht hs
  refine avoids_bind (backingBlocksLoop_avoids _ _ _ _) fun listed list => ?_
  cases listed with
  | error e => exact avoids_ok _
  | ok blocks =>
    obtain ⟨backs, total⟩ := getBackingBlocksForRange_ok sound.vm
      (Nat.le_trans high (by decide)) list
    have alone := safe high (total ▸ allBacked_of_backs backs)
    refine avoids_bind (freeBlocks_avoids sound.region backs (total.symm ▸ alone)
      fun a _ _ c backed => owned a c backed) fun region _ => ?_
    refine avoids_bind (unmapRange_avoids sound.vm ht hs) fun reply _ => ?_
    obtain ⟨result, vm⟩ := reply
    cases result with
    | error e => exact nofun
    | ok u => exact avoids_ok _

end

theorem mapped_range {vm vm' : VMManager} (inv : Inv vm) (h : Unmapped vm vm' target size) :
    ∀ a, target ≤ a → a < target + size → ∃ i, vm.info a = some i ∧ i.type ≠ .free := by
  intro a low high
  have fits := h.valid.fits
  obtain ⟨L, v, R, split, covers⟩ := inv.laidOut.laid.tiles.exists_covers (Nat.zero_le a)
    (show a < maxAddress by omega)
  have mem : v ∈ vm.areas := by
    rw [split]
    simp
  have here := inv.laidOut.laid.tiles.view_mem mem covers
  obtain ⟨below, above⟩ : v.base ≤ a ∧ a < v.base + v.size := covers
  exact ⟨v.infoAt a, here, h.mapped v mem ⟨by omega, by omega⟩⟩

theorem linearFree_owned (sound : p.Sound) (owned : p.Owned)
    (safe : p.LinearFreeSafe target size) (ht : target < 0x100000000) (hs : size < 0x100000000)
    (run : p.linearFree target size = .ok (reply, p')) : p'.Sound ∧ p'.Owned := by
  rcases linearFree_ok sound ht hs run with rfl | ⟨_, done⟩
  · exact ⟨sound, owned⟩
  · refine ⟨⟨done.unmapped.inv, sound.region.moved done.moved fun a ha => ?_⟩,
      owned.linearFreed done (safe (mapped_range sound.vm done.unmapped))⟩
    have within := done.within
    rcases (done.rest a).mp ha with on | ha
    · omega
    · exact sound.region.inside a ha

theorem linearFree_avoids (sound : p.Sound) (safe : p.LinearFreeSafe target size)
    (ht : target < 0x100000000) (hs : size < 0x100000000) :
    Avoids .regionFree (p.linearFree target size) := by
  unfold linearFree
  by_cases outside : target < p.getLinearHeapBase ∨ add32 target size > p.getLinearHeapLimit ∨
      add32 target size < target
  · rw [if_pos outside]
    exact avoids_ok _
  rw [if_neg outside]
  refine avoids_ite (fun _ => avoids_ok _) fun _ => ?_
  obtain ⟨offset, low, high⟩ := linear_range sound outside ht hs
  refine avoids_bind (unmapRange_avoids sound.vm ht hs) fun reply unmap => ?_
  obtain ⟨result, vm⟩ := reply
  rcases unmapRange_ok sound.vm ht hs unmap with ⟨⟨e, rfl⟩, _⟩ | ⟨rfl, unmapped⟩
  · exact avoids_ok _
  · have alone := safe (mapped_range sound.vm unmapped)
    have bounds := sound.region.bounds
    have limit : fcramSize = 0x10000000 := rfl
    refine avoids_bind ?_ fun _ _ => avoids_ok _
    rcases MemoryRegionInfo.free_cases sound.region.unlocked
      (show sub32 target p.getLinearHeapAreaAddress + size < 0x100000000 by omega) with
      ⟨⟨c, low, high, free⟩, _⟩ | ⟨_, region', run, _⟩
    · exact False.elim ((alone c low high).1 free)
    · rw [run]
      exact avoids_ok _

end Process
end EmuThreeDS
