import EmuThreeDS.Kernel.Ownership

/-!
# Runs of `svcControlMemory`

From the start of a process on, the guest commits, frees and aliases memory. As long as what it
frees stands alone, no byte of FCRAM is ever free and mapped at once.
-/
namespace EmuThreeDS
open Tiling OrderedMap Layout Intervals VMManager

namespace Process

variable {p p' : Process} {own : MemoryRegionInfo}

/-- A process while it starts: it has taken memory from its region and given none back. -/
structure Starting (own : MemoryRegionInfo) (p : Process) : Prop where
  sound : p.Sound
  owned : p.Owned
  fewer : ∀ c ∈ p.memoryRegion.freeBlocks, c ∈ own.freeBlocks

theorem Starting.mapSegment {segment : Segment} {permissions : VMAPermission}
    {memoryState : MemoryState} (h : Starting own p) (hs : segment.addr < 0x100000000)
    (run : p.mapSegment segment permissions memoryState = .ok p') : Starting own p' := by
  obtain ⟨⟨reply, q⟩, alloc, run⟩ := bind_eq_ok.mp run
  cases run
  rcases heapAllocate_ok h.sound hs alloc with ⟨_, kept⟩ | ⟨_, done⟩
  · exact ⟨kept.sound h.sound, h.owned.kept kept, fun c hc => h.fewer c ((kept.rest c).mp hc)⟩
  · exact ⟨⟨done.maps.inv, h.sound.region.moved done.moved fun a ha =>
      h.sound.region.inside a ((done.rest a).mp ha).1⟩, h.owned.heapAllocated done,
      fun c hc => h.fewer c ((done.rest c).mp hc).1⟩

variable {vm : VMManager} {perms : VMAPermission} {target n : Nat} {mappings : List AddressMapping}
  {base : Option MemoryRegionInfo}

theorem Starting.mapOther {size : Nat} {block : BackingMem} {offset : Nat} {state : MemoryState}
    {site : Site} (h : Starting own p) (ht : target < 0x100000000) (hs : size < 0x100000000)
    (other : block ≠ fcram) (enough : size ≤ block.size - offset)
    (run : p.vmManager.mapAndReprotect site target ⟨some block, offset⟩ size state perms = .ok vm) :
    Starting own { p with vmManager := vm } := by
  have maps := mapBlocks_ok h.sound.vm ht (List.cons_ne_nil _ _)
    (fun b hb => by
      cases List.mem_singleton.mp hb
      exact ⟨hs, fun _ _ => enough⟩) (mapBlocks_one run)
  refine ⟨⟨maps.inv, h.sound.region⟩, fun a c here free => ?_, h.fewer⟩
  rcases maps.backed rfl here with old | ⟨b, hb, i, _, ptr⟩
  · exact h.owned a c old free
  · cases List.mem_singleton.mp hb
    exact other (Prod.mk.inj (Option.some.inj ptr)).1

theorem Starting.mapSharedPages (h : Starting own p)
    (run : mapSharedPages p.vmManager = .ok vm) : Starting own { p with vmManager := vm } := by
  obtain ⟨vm₁, config, run⟩ := bind_eq_ok.mp run
  have h₁ := h.mapOther (by decide) (by decide) (by decide) (by decide) config
  exact h₁.mapOther (by decide) (by decide) (by decide) (by decide) run

theorem getPhysicalRef_vram (h : n ≤ vramSize) :
    getPhysicalRef (vramPaddr + n) = ⟨some vram, n⟩ := by
  rw [getPhysicalRef, if_pos ⟨Nat.le_add_right _ _, Nat.add_le_add_left h _⟩,
    Nat.add_sub_cancel_left]

theorem getPhysicalRef_dspRam (h : n ≤ dspRamSize) :
    getPhysicalRef (dspRamPaddr + n) = ⟨some dspRam, n⟩ := by
  have past_vram : vramPaddr + vramSize < dspRamPaddr := by decide
  rw [getPhysicalRef, if_neg (by omega),
    if_pos ⟨Nat.le_add_right _ _, Nat.add_le_add_left h _⟩, Nat.add_sub_cancel_left]

theorem getPhysicalRef_n3dsExtraRam (h : n ≤ n3dsExtraRamSize) :
    getPhysicalRef (n3dsExtraRamPaddr + n) = ⟨some n3dsExtraRam, n⟩ := by
  have past_vram : vramPaddr + vramSize < n3dsExtraRamPaddr := by decide
  have before_dsp : n3dsExtraRamPaddr + n3dsExtraRamSize < dspRamPaddr := by decide
  have before_fcram : n3dsExtraRamPaddr + n3dsExtraRamSize < fcramPaddr := by decide
  rw [getPhysicalRef, if_neg (by omega), if_neg (by omega), if_neg (by omega),
    if_pos ⟨Nat.le_add_right _ _, Nat.add_le_add_left h _⟩, Nat.add_sub_cancel_left]

/-- The memory behind a special mapping is never FCRAM. -/
theorem special_memory {area : MemoryArea} {address size : Nat} (mem : area ∈ memoryAreas)
    (other : area.paddrBase ≠ ioAreaPaddr) (low : area.vaddrBase ≤ address)
    (high : address + size ≤ area.vaddrBase + area.size) :
    ∃ block, block ≠ fcram ∧ getPhysicalRef (area.paddrBase + (address - area.vaddrBase)) =
        ⟨some block, address - area.vaddrBase⟩ ∧ size ≤ block.size - (address - area.vaddrBase) := by
  have inside : address - area.vaddrBase + size ≤ area.size := by omega
  generalize address - area.vaddrBase = n at inside ⊢
  simp only [memoryAreas, List.mem_cons, List.not_mem_nil, or_false] at mem
  rcases mem with rfl | rfl | rfl | rfl
  · have inside : n + size ≤ vramSize := inside
    have whole : vram.size = vramSize := rfl
    exact ⟨vram, by decide, getPhysicalRef_vram (by omega), by omega⟩
  · exact False.elim (other rfl)
  · have inside : n + size ≤ dspRamSize := inside
    have whole : dspRam.size = dspRamSize := rfl
    exact ⟨dspRam, by decide, getPhysicalRef_dspRam (by omega), by omega⟩
  · have inside : n + size ≤ n3dsExtraRamSize - 0x20000 := inside
    have whole : n3dsExtraRam.size = n3dsExtraRamSize := rfl
    exact ⟨n3dsExtraRam, by decide, getPhysicalRef_n3dsExtraRam (by omega), by omega⟩

theorem Starting.special {mapping : AddressMapping} (h : Starting own p)
    (ha : mapping.address < 0x100000000) (hs : mapping.size < 0x100000000)
    (run : handleSpecialMapping p.vmManager mapping = .ok vm) :
    Starting own { p with vmManager := vm } := by
  unfold handleSpecialMapping at run
  by_cases wraps : add32 mapping.address mapping.size < mapping.address
  · rw [if_pos wraps] at run
    cases run
    exact h
  rw [if_neg wraps] at run
  split at run
  · cases run
    exact h
  · next area found =>
      by_cases io : area.paddrBase = ioAreaPaddr
      · rw [if_pos io] at run
        cases run
        exact h
      rw [if_neg io] at run
      have mem := List.mem_of_find?_eq_some found
      have inside := List.find?_some found
      simp only [ge_iff_le, Bool.and_eq_true, decide_eq_true_eq] at inside
      have sum := add32_cases ha hs
      have sum : add32 mapping.address mapping.size = mapping.address + mapping.size := by omega
      rw [sum] at inside
      obtain ⟨block, other, ref, enough⟩ := special_memory mem io inside.1 inside.2
      rw [ref] at run
      exact h.mapOther ha hs other enough run

theorem Starting.specials (h : Starting own p)
    (words : ∀ mapping ∈ mappings, mapping.address < 0x100000000 ∧ mapping.size < 0x100000000)
    (run : handleSpecialMappings p.vmManager mappings = .ok vm) :
    Starting own { p with vmManager := vm } := by
  induction mappings generalizing p with
  | nil =>
    cases run
    exact h
  | cons mapping rest ih =>
    obtain ⟨vm₁, first, run⟩ := bind_eq_ok.mp run
    obtain ⟨ha, hs⟩ := words mapping List.mem_cons_self
    have done := ih (h.special ha hs first)
      (fun m hm => words m (List.mem_cons_of_mem _ hm)) run
    exact done

theorem Starting.setupTls (h : Starting own p)
    (apart : ∀ r ∈ base, r.Sound ∧ ∀ c ∈ own.freeBlocks, c ∉ r.freeBlocks)
    (run : p.setupTls base = .ok p') : Starting own p' := by
  obtain ⟨⟨offset, region⟩, alloc, run⟩ := bind_eq_ok.mp run
  rcases MemoryRegionInfo.linearAllocate_ok alloc with ⟨_, rfl, _⟩ | ⟨b, _, rfl, handed⟩
  · cases run
  · obtain ⟨memory, ref, run⟩ := bind_eq_ok.mp run
    obtain ⟨_, _, ref⟩ := bind_eq_ok.mp ref
    cases ref
    obtain ⟨⟨reply, vm⟩, map, run⟩ := bind_eq_ok.mp run
    cases run
    have from_sound : (base.getD p.memoryRegion).Sound := by
      cases base with
      | none => exact h.sound.region
      | some r => exact (apart r rfl).1
    have bounds := handed.bounds from_sound (by decide)
    have region_sound : (if base.isSome then p.memoryRegion else region).Sound ∧
        (∀ c ∈ (if base.isSome then p.memoryRegion else region).freeBlocks,
          c ∈ p.memoryRegion.freeBlocks ∧ ¬ (b.lower ≤ c ∧ c < b.lower + pageSize)) := by
      cases base with
      | none => exact ⟨handed.sound h.sound.region, fun c hc => (handed.rest c).mp hc⟩
      | some r =>
        refine ⟨h.sound.region, fun c hc => ⟨hc, fun on => ?_⟩⟩
        exact (apart r rfl).2 c (h.fewer c hc) (handed.free c on.1 on.2)
    have mapped : Inv vm ∧ ∀ a c, BackedBy vm a c →
        BackedBy p.vmManager a c ∨ b.lower ≤ c ∧ c < b.lower + pageSize := by
      have valid : ValidRange tlsAreaVaddr pageSize := ⟨by decide, by decide, by decide, by decide⟩
      by_cases room : FreeRoom p.vmManager.areas tlsAreaVaddr pageSize
      · have enough : Op.ValidMemory ⟨some fcram, b.lower⟩ pageSize := by
          refine ⟨(by rintro ⟨⟩), ?_⟩
          have whole : fcram.size = fcramSize := rfl
          simp only [MemoryRef.getSize, whole]
          omega
        obtain ⟨_, _, _, vm₁, map', inv, info, _⟩ :=
          mapBackingMemory_info .locked h.sound.vm valid enough room
        cases map.symm.trans map'
        refine ⟨inv, fun a c here => ?_⟩
        rw [BackedBy, info] at here
        by_cases on : tlsAreaVaddr ≤ a ∧ a < tlsAreaVaddr + pageSize
        · rw [updateOn_in on] at here
          cases at_a : p.vmManager.info a with
          | none =>
            rw [at_a] at here
            cases here
          | some i =>
            rw [at_a] at here
            have here : some (fcram, b.lower + (a - tlsAreaVaddr)) = some (fcram, c) := here
            obtain ⟨_, rfl⟩ := Prod.mk.inj (Option.some.inj here)
            omega
        · rw [updateOn_out on] at here
          exact Or.inl here
      · have refused := mapBackingMemory_refused .locked h.sound.vm.unlocked h.sound.vm.laidOut
          valid.alignedTarget valid.alignedSize (by decide) (by decide)
          (show MemoryRef.getPtr ⟨some fcram, b.lower⟩ ≠ none from (by rintro ⟨⟩)) room
        cases map.symm.trans refused
        exact ⟨h.sound.vm, fun a c here => Or.inl here⟩
    refine ⟨⟨mapped.1, region_sound.1⟩, fun a c here free => ?_, fun c hc => ?_⟩
    · obtain ⟨was_free, outside⟩ := region_sound.2 c free
      rcases mapped.2 a c here with old | on
      · exact h.owned a c old was_free
      · exact outside on
    · exact h.fewer c (region_sound.2 c hc).1

/-- The process just after `Process::Run`, in a machine whose regions are in order. The region
of index 2 is BASE. -/
inductive Fresh : Process → Prop where
  | run {vm vm' : VMManager} {regions : List MemoryRegionInfo} {i kernelVersion stackSize : Nat}
      {own : MemoryRegionInfo} {codeset : CodeSet} {mappings : List AddressMapping} {p : Process} :
      vm.reset = .ok vm' → MemoryRegionInfo.Booted regions → regions[i]? = some own →
      codeset.codeSegment.addr < 0x100000000 → codeset.rodataSegment.addr < 0x100000000 →
      codeset.dataSegment.addr < 0x100000000 →
      (∀ mapping ∈ mappings, mapping.address < 0x100000000 ∧ mapping.size < 0x100000000) →
      Process.run { vmManager := vm', memoryRegion := own, kernelVersion := kernelVersion }
        (if i = 2 then none else regions[2]?) codeset mappings stackSize = .ok p →
      Fresh p

theorem sub32_lt (a b : Nat) : sub32 a b < 0x100000000 := Nat.mod_lt _ (by decide)

theorem Starting.run {codeset : CodeSet} {stackSize : Nat} (h : Starting own p)
    (apart : ∀ r ∈ base, r.Sound ∧ ∀ c ∈ own.freeBlocks, c ∉ r.freeBlocks)
    (code : codeset.codeSegment.addr < 0x100000000)
    (rodata : codeset.rodataSegment.addr < 0x100000000)
    (data : codeset.dataSegment.addr < 0x100000000)
    (words : ∀ mapping ∈ mappings, mapping.address < 0x100000000 ∧ mapping.size < 0x100000000)
    (run : p.run base codeset mappings stackSize = .ok p') : Starting own p' := by
  obtain ⟨p₁, first, run⟩ := bind_eq_ok.mp run
  obtain ⟨p₂, second, run⟩ := bind_eq_ok.mp run
  obtain ⟨p₃, third, run⟩ := bind_eq_ok.mp run
  obtain ⟨p₄, stack, run⟩ := bind_eq_ok.mp run
  obtain ⟨vm₁, pages, run⟩ := bind_eq_ok.mp run
  obtain ⟨vm₂, special, run⟩ := bind_eq_ok.mp run
  have h₁ := h.mapSegment code first
  have h₂ := h₁.mapSegment rodata second
  have h₃ := h₂.mapSegment data third
  have h₄ := h₃.mapSegment (sub32_lt _ _) stack
  have h₅ := h₄.mapSharedPages pages
  have h₆ := h₅.specials words special
  exact h₆.setupTls apart run

theorem reset_backed {vm' : VMManager} (run : vm.reset = .ok vm') (a c : Nat) :
    ¬ BackedBy vm' a c := by
  obtain ⟨_, _, run⟩ := bind_eq_ok.mp run
  cases run
  have whole : view [({ size := maxAddress } : VirtualMemoryArea)] a = none ∨
      view [({ size := maxAddress } : VirtualMemoryArea)] a = some ⟨.free, .none, .free, none⟩ := by
    rw [view]
    split_ifs
    · exact Or.inr rfl
    · exact Or.inl rfl
  intro here
  have here : (view [({ size := maxAddress } : VirtualMemoryArea)] a).bind AddressInfo.backing =
    some (fcram, c) := here
  rcases whole with none | free
  · rw [none] at here
    cases here
  · rw [free] at here
    cases here

theorem Fresh.owned (h : Fresh p) : p.Sound ∧ p.Owned := by
  cases h with
  | @run vm vm' regions i kernelVersion stackSize own codeset mappings _ reset booted at_i code
      rodata data words run =>
      have contained := booted.contained.1
      have start : Starting own
          { vmManager := vm', memoryRegion := own, kernelVersion := kernelVersion } :=
        ⟨⟨reset_inv reset, (contained own (List.mem_of_getElem? at_i)).toSound⟩,
          fun a c here => False.elim (reset_backed reset a c here), fun c hc => hc⟩
      have apart : ∀ r ∈ (if i = 2 then none else regions[2]?),
          r.Sound ∧ ∀ c ∈ own.freeBlocks, c ∉ r.freeBlocks := by
        intro r hr
        split_ifs at hr with same
        · cases hr
        · exact ⟨(contained r (List.mem_of_getElem? hr)).toSound,
            fun c hc => booted.apart at_i hr same c hc⟩
      have done := start.run apart code rodata data words run
      exact ⟨done.sound, done.owned⟩

end Process

structure ControlCall where
  addr0 : Nat
  addr1 : Nat
  size : Nat
  operation : Nat
  permissions : Nat

namespace ControlCall
open Process

def run (p : Process) (call : ControlCall) : Exec (ResultVal Nat × Process) :=
  Svc.controlMemory p call.addr0 call.addr1 call.size call.operation call.permissions

structure Words (call : ControlCall) : Prop where
  addr0 : call.addr0 < 0x100000000
  addr1 : call.addr1 < 0x100000000
  size : call.size < 0x100000000

instance (call : ControlCall) : Decidable call.Words :=
  decidable_of_iff (call.addr0 < 0x100000000 ∧ call.addr1 < 0x100000000 ∧ call.size < 0x100000000)
    ⟨fun h => ⟨h.1, h.2.1, h.2.2⟩, fun h => ⟨h.addr0, h.addr1, h.size⟩⟩

def isFree (call : ControlCall) : Prop :=
  call.operation &&& (0xFFFFFFFF - Svc.memopRegionMask) &&& Svc.memopOperationMask = Svc.memopFree

instance (call : ControlCall) : Decidable call.isFree := inferInstanceAs (Decidable (_ = _))

/-- A `FREE` of a range that is wholly there frees no byte with a second use: none that backs
another address and, in the linear heap, none that is free already. -/
def Safe (p : Process) (call : ControlCall) : Prop :=
  call.isFree →
    if heapVaddr ≤ call.addr0 ∧ call.addr0 < heapVaddrEnd then p.HeapFreeSafe call.addr0 call.size
    else p.LinearFreeSafe call.addr0 call.size

variable {p p' : Process} {call : ControlCall} {reply : ResultVal Nat}

/-- A call that does not stop in `MemoryRegionInfo::Free` and leaves FCRAM owned. -/
structure Keeps {α : Type} (x : Exec (α × Process)) : Prop where
  avoids : Avoids .regionFree x
  owned : ∀ a p', x = .ok (a, p') → p'.Sound ∧ p'.Owned

theorem keeps_same (a : α) (sound : p.Sound) (owned : p.Owned) : Keeps (.ok (a, p)) := by
  refine ⟨avoids_ok _, ?_⟩
  intro a p' run
  cases run
  exact ⟨sound, owned⟩

theorem keeps_ite {c : Prop} [Decidable c] {x y : Exec (α × Process)}
    (yes : c → Keeps x) (no : ¬ c → Keeps y) : Keeps (if c then x else y) := by
  split_ifs with h
  · exact yes h
  · exact no h

theorem Keeps.map {β : Type} {x : Exec (α × Process)} (h : Keeps x) (f : α → β) :
    Keeps (do
      let (a, p) ← x
      return (f a, p)) := by
  refine ⟨avoids_bind h.avoids fun _ _ => avoids_ok _, ?_⟩
  intro b p' run
  obtain ⟨⟨a, q⟩, first, run⟩ := bind_eq_ok.mp run
  cases run
  exact h.owned _ _ first

section

variable (sound : p.Sound) (owned : p.Owned)
include sound owned

theorem controlFree_keeps {addr0 size : Nat} (ht : addr0 < 0x100000000) (hs : size < 0x100000000)
    (safe : if heapVaddr ≤ addr0 ∧ addr0 < heapVaddrEnd then p.HeapFreeSafe addr0 size
      else p.LinearFreeSafe addr0 size) : Keeps (Svc.controlFree p addr0 size) := by
  refine keeps_ite (fun heap => ?_) fun other => keeps_ite (fun _ => ?_) fun _ => ?_
  · rw [if_pos heap] at safe
    exact Keeps.map ⟨heapFree_avoids sound owned safe ht hs, fun _ _ run =>
      heapFree_owned sound owned safe ht hs run⟩ _
  · rw [if_neg other] at safe
    exact Keeps.map ⟨linearFree_avoids sound safe ht hs, fun _ _ run =>
      linearFree_owned sound owned safe ht hs run⟩ _
  · exact keeps_same _ sound owned

theorem commit_keeps {addr0 size operation : Nat} (ht : addr0 < 0x100000000)
    (hs : size < 0x100000000) :
    Keeps (if operation &&& Svc.memopLinear ≠ 0 then p.linearAllocate addr0 size perms
      else p.heapAllocate addr0 size perms .«private» false) := by
  refine keeps_ite (fun _ => ?_) fun _ => ?_
  · refine ⟨linearAllocate_avoids sound ht hs, fun reply p' run => ?_⟩
    rcases linearAllocate_ok sound ht hs run with ⟨_, kept⟩ | ⟨_, done⟩
    · exact ⟨kept.sound sound, owned.kept kept⟩
    · exact ⟨⟨done.maps.inv, done.handed.sound sound.region⟩, owned.linearAllocated done⟩
  · refine ⟨heapAllocate_avoids sound ht, fun reply p' run => ?_⟩
    rcases heapAllocate_ok sound ht run with ⟨_, kept⟩ | ⟨_, done⟩
    · exact ⟨kept.sound sound, owned.kept kept⟩
    · exact ⟨⟨done.maps.inv, sound.region.moved done.moved fun a ha =>
        sound.region.inside a ((done.rest a).mp ha).1⟩, owned.heapAllocated done⟩

theorem map_keeps {size : Nat} (ht : target < 0x100000000) (hs : source < 0x100000000)
    (hn : size < 0x100000000) : Keeps (p.map target source size perms privileged) := by
  refine ⟨map_avoids sound ht hs hn, fun reply p' run => ?_⟩
  obtain ⟨vm, rfl, done⟩ := map_ok sound.vm ht hs hn run
  refine ⟨⟨?_, sound.region⟩, owned.mapped done⟩
  cases done with
  | refused e => exact sound.vm
  | inPlace _ changed | marked e changed _ => exact changed.inv
  | mapped _ _ _ _ maps => exact maps.inv

theorem unmap_keeps {size : Nat} (ht : target < 0x100000000) (hs : source < 0x100000000)
    (hn : size < 0x100000000) : Keeps (p.unmap target source size perms privileged) := by
  refine ⟨unmap_avoids sound ht hs hn, fun reply p' run => ?_⟩
  obtain ⟨vm, rfl, done⟩ := unmap_ok sound.vm ht hs hn run
  refine ⟨⟨?_, sound.region⟩, owned.unmapped done⟩
  cases done with
  | refused e => exact sound.vm
  | inPlace _ changed | unmapped _ changed => exact changed.inv
  | freed e unmapped => exact unmapped.inv

theorem protect_keeps {size : Nat} (ht : target < 0x100000000) (hs : size < 0x100000000) :
    Keeps (do
      let (result, vm) ← p.vmManager.reprotectRange target size perms
      return (result.map fun _ => 0, { p with vmManager := vm })) := by
  refine ⟨avoids_bind (reprotectRange_avoids sound.vm ht hs) fun _ _ => avoids_ok _, ?_⟩
  intro reply p' run
  obtain ⟨⟨result, vm⟩, protect, run⟩ := bind_eq_ok.mp run
  cases run
  have valid : ValidRange target size := by
    obtain ⟨_, _, protect⟩ := bind_eq_ok.mp protect
    obtain ⟨_, carve, _⟩ := bind_eq_ok.mp protect
    exact carveVMARange_ok ht hs carve
  rcases reprotectRange_info perms sound.vm valid with ⟨_, e, run⟩ | ⟨_, vm', run, inv, info, _⟩
  · cases protect.symm.trans run
    exact ⟨sound, owned⟩
  · cases protect.symm.trans run
    refine ⟨⟨inv, sound.region⟩, fun a c here => owned a c ?_⟩
    rw [BackedBy, info] at here
    rw [BackedBy, ← here]
    unfold updateOn
    split_ifs
    · cases p.vmManager.info a <;> rfl
    · rfl

theorem step (words : call.Words) (safe : call.Safe p) : Keeps (call.run p) := by
  refine keeps_ite (fun _ => keeps_same _ sound owned) fun _ => ?_
  refine keeps_ite (fun _ => keeps_same _ sound owned) fun _ => ?_
  refine keeps_ite (fun _ => keeps_same _ sound owned) fun _ => ?_
  refine keeps_ite (fun free => ?_) fun _ => ?_
  · exact controlFree_keeps sound owned words.addr0 words.size (safe free)
  refine keeps_ite (fun _ => commit_keeps sound owned words.addr0 words.size) fun _ => ?_
  refine keeps_ite (fun _ => ?_) fun _ => keeps_ite (fun _ => ?_) fun _ => ?_
  · exact (map_keeps sound owned words.addr0 words.addr1 words.size).map _
  · exact (unmap_keeps sound owned words.addr0 words.addr1 words.size).map _
  · exact keeps_ite (fun _ => protect_keeps sound owned words.addr0 words.size) fun _ =>
      keeps_same _ sound owned

end

/-- The processes that runs of safe calls lead to from a fresh start. -/
inductive Reachable : Process → Prop where
  | fresh {p : Process} : Fresh p → Reachable p
  | call {p p' : Process} {call : ControlCall} {reply : ResultVal Nat} : Reachable p →
      call.Words → call.Safe p → call.run p = .ok (reply, p') → Reachable p'

/-- While every `FREE` is safe, no byte of FCRAM is free and mapped at once, and no call stops
at the assertion in `MemoryRegionInfo::Free`. -/
theorem fcram_owned (h : Reachable p) : p.Owned ∧
    ∀ call : ControlCall, call.Words → call.Safe p → Avoids .regionFree (call.run p) := by
  have kept : p.Sound ∧ p.Owned := by
    induction h with
    | fresh start => exact start.owned
    | call _ words safe run ih => exact (step ih.1 ih.2 words safe).owned _ _ run
  exact ⟨kept.2, fun call words safe => (step kept.1 kept.2 words safe).avoids⟩

def smallCode : CodeSet := ⟨⟨0x100000, 0x1000⟩, ⟨0x101000, 0x1000⟩, ⟨0x102000, 0x1000⟩⟩

def blankRegions : List MemoryRegionInfo := List.replicate 3 ⟨0, 0, 0, IntervalSet.empty, false⟩

theorem small_fresh {p : Process} {regions : List MemoryRegionInfo}
    {own : MemoryRegionInfo} (reset : VMManager.reset ⟨Map.empty, false⟩ = .ok vm)
    (boot : memoryInit false 0 0 blankRegions = .ok regions) (first : regions[0]? = some own)
    (run : Process.run { vmManager := vm, memoryRegion := own, kernelVersion := 0 } regions[2]?
      smallCode [] 0x4000 = .ok p) : Fresh p :=
  .run reset (.init boot) first (by decide) (by decide) (by decide)
    (fun _ h => False.elim (List.not_mem_nil h)) run

def runAll (p : Process) : List ControlCall → Exec Process
  | [] => .ok p
  | call :: rest => do
      let (_, p) ← call.run p
      runAll p rest

theorem Reachable.runAll {calls : List ControlCall} (h : Reachable p)
    (safe : ∀ call ∈ calls, call.Words ∧ ¬ call.isFree) (run : runAll p calls = .ok p') :
    Reachable p' := by
  induction calls generalizing p with
  | nil =>
    cases run
    exact h
  | cons call rest ih =>
    obtain ⟨⟨words, noFree⟩, safe⟩ := List.forall_mem_cons.mp safe
    obtain ⟨⟨reply, q⟩, first, run⟩ := bind_eq_ok.mp run
    exact ih (h.call words (fun free => absurd free noFree) first) safe run

def fcramAt (v : VirtualMemoryArea) : Option Nat :=
  if v.type = .backingMemory then
    (v.backingMemory.getPtr.filter (·.1 = fcram)).map Prod.snd
  else none

theorem fcramAt_of_backedBy {vm : VMManager} {a c : Nat} (here : BackedBy vm a c) :
    ∃ v ∈ vm.areas, ∃ o ∈ fcramAt v, v.base ≤ a ∧ a < v.base + v.size ∧ c = o + (a - v.base) := by
  obtain ⟨info, at_a, backing⟩ := Option.bind_eq_some_iff.mp here
  obtain ⟨v, mem, ⟨low, high⟩, rfl⟩ := view_some at_a
  have backing : (v.infoAt a).backing = some (fcram, c) := backing
  unfold VirtualMemoryArea.infoAt at backing
  split_ifs at backing with type
  obtain ⟨⟨block, o⟩, ptr, byte⟩ := Option.map_eq_some_iff.mp backing
  cases byte
  refine ⟨v, mem, o, ?_, low, high, rfl⟩
  rw [fcramAt, if_pos type, ptr]
  rfl

/-- Where no two areas share bytes of FCRAM, every range stands alone. -/
theorem alone_of_apart {target size : Nat} (apart : ∀ v ∈ p.vmManager.areas,
    ∀ w ∈ p.vmManager.areas, ∀ o ∈ fcramAt v, ∀ o' ∈ fcramAt w,
      v = w ∨ o + v.size ≤ o' ∨ o' + w.size ≤ o) : p.Alone target size := by
  intro a _ _ b c here there
  obtain ⟨v, hv, o, at_v, _, _, byte⟩ := fcramAt_of_backedBy here
  obtain ⟨w, hw, o', at_w, _, _, same⟩ := fcramAt_of_backedBy there
  rcases apart v hv w hw o at_v o' at_w with rfl | apart
  · cases Option.some.inj (at_v.symm.trans at_w)
    omega
  · omega

def aliasedOnce : List ControlCall :=
  [⟨0x08000000, 0, 0x1000, Svc.memopCommit, 3⟩,
   ⟨0x0A000000, 0x08000000, 0x1000, Svc.memopMap, 3⟩,
   ⟨0x0A000000, 0x08000000, 0x1000, Svc.memopUnmap, 3⟩]

def freedPage : ControlCall := ⟨0x08000000, 0, 0x1000, Svc.memopFree, 0⟩

set_option maxRecDepth 8000 in
theorem fcram_owned_freed : ∃ p reply p', Fresh p ∧
    (do freedPage.run (← runAll p aliasedOnce)) = .ok (.ok reply, p') ∧ p'.Owned ∧
    ∀ call : ControlCall, call.Words → call.Safe p' → Avoids .regionFree (call.run p') := by
  have fresh := small_fresh rfl rfl rfl rfl
  have aliased := (Reachable.fresh fresh).runAll
    (show ∀ call ∈ aliasedOnce, call.Words ∧ ¬ call.isFree by decide) rfl
  have freed := aliased.call (show freedPage.Words by decide)
    (fun _ _ _ => alone_of_apart (by decide +kernel)) rfl
  exact ⟨_, _, _, fresh, rfl, fcram_owned freed⟩

def freedSource : List ControlCall :=
  [⟨0x08000000, 0, 0x1000, Svc.memopCommit, 3⟩,
   ⟨0x0A000000, 0x08000000, 0x1000, Svc.memopMap, 3⟩,
   ⟨0x08000000, 0, 0x1000, Svc.memopFree, 0⟩]

def freedAlias : ControlCall := ⟨0x0A000000, 0, 0x1000, Svc.memopFree, 0⟩

set_option maxRecDepth 8000 in
/-- The byte behind the alias is free then, and freeing the alias stops the emulator. -/
theorem fcram_owned_fails : ∃ p p' : Process, Fresh p ∧ runAll p freedSource = .ok p' ∧
    ¬ p'.Owned ∧ freedAlias.run p' = .error (.assertion .regionFree) := by
  have fresh := small_fresh rfl rfl rfl rfl
  refine ⟨_, _, fresh, rfl, fun owned => ?_, rfl⟩
  exact owned 0x0A000000 0x03FF8000 (by decide)
    ⟨⟨0, 0x03FF9000⟩, by decide +kernel, by decide⟩

end ControlCall
end EmuThreeDS
