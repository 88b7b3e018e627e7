import EmuThreeDS.Kernel.GuestMemory
import EmuThreeDS.Kernel.MapFrame

/-!
# When `svcControlMemory` returns

The system call checks alignment and permissions, and each memory call some of its range. What
they leave unchecked reaches the assertions below. For each call this says exactly what has to
hold of the process and the arguments.
-/
namespace EmuThreeDS
open Tiling OrderedMap Layout VirtualMemoryArea Intervals

namespace Process
open VMManager

variable {p : Process} {vm : VMManager} {target source size : Nat} {perms : VMAPermission}

/-- One free area holds `target` and what follows it. -/
def RoomAt (vm : VMManager) (target size : Nat) : Prop :=
  ∃ v ∈ vm.areas, v.type = .free ∧ Covers v target ∧ target + size ≤ v.base + v.size

theorem RoomAt.freeRoom (room : RoomAt vm target size) : FreeRoom vm.areas target size := by
  obtain ⟨v, hv, free, covers, high⟩ := room
  exact ⟨v, hv, free, covers.1, high⟩

theorem isFreeRange_at (inv : Inv vm) (inside : target < maxAddress)
    (noWrap : target + size < 0x100000000) :
    ∃ answer, isFreeRange vm target size = .ok answer ∧ (answer = true ↔ RoomAt vm target size) := by
  obtain ⟨L, v, R, split, covers, found⟩ := findVMA_total inv.laidOut inside
  have h := inv.laidOut
  rw [split] at h
  have bounds := area_bounds h
  have top : maxAddress = 0x40000000 := rfl
  have ends : add32 v.base v.size = v.base + v.size := add32_eq (by omega)
  refine ⟨!(decide (v.type ≠ .free) || decide (v.base + v.size < target + size)), ?_, ?_⟩
  · simp only [isFreeRange, found, ok_bind, deref_at h, ends, add32_eq noWrap, pure_eq_ok]
  · simp only [Bool.not_eq_true', Bool.or_eq_false_iff, decide_eq_false_iff_not, ne_eq, not_not,
      Nat.not_lt]
    constructor
    · rintro ⟨free, high⟩
      exact ⟨v, by simp [split], free, covers, high⟩
    · rintro ⟨w, hw, free, on, high⟩
      rw [split] at hw
      obtain rfl := h.laid.tiles.covers_unique hw on covers
      exact ⟨free, high⟩

theorem isFreeRange_end (out : maxAddress ≤ target) :
    isFreeRange vm target size = .error .undefinedBehaviour := by
  rw [isFreeRange, findVMA_end out]
  rfl

/-- Each address of the range has a byte of FCRAM for itself, one that is not free yet. -/
def Freeable (vm : VMManager) (region : MemoryRegionInfo) (target size : Nat) : Prop :=
  ∀ a, target ≤ a → a < target + size → ∃ c, BackedBy vm a c ∧ c ∉ region.freeBlocks ∧
    ∀ b, target ≤ b → b < target + size → BackedBy vm b c → b = a

/-- The loop of `HeapFree` gives the blocks back one by one: the first must be taken still, and
the rest must be when it is not. -/
theorem freeBlocks_answers {region : MemoryRegionInfo} {blocks : List (MemoryRef × Nat)}
    (sound : region.Sound) (backs : Backs vm.info target blocks) :
    Answers (freeBlocks region blocks) ↔ Freeable vm region target (totalSize blocks) := by
  induction blocks generalizing region target with
  | nil =>
    refine iff_of_true ⟨region, rfl⟩ fun a low high => ?_
    have : a < target + 0 := high
    omega
  | cons b rest ih =>
    have total : totalSize (b :: rest) = b.2 + totalSize rest := rfl
    have limit : fcramSize = 0x10000000 := rfl
    obtain ⟨pos, enough⟩ := Backs_blocks backs b List.mem_cons_self
    rw [freeBlocks]
    cases get : getFCRAMOffset b.1.getPtr with
    | error e =>
      refine iff_of_false (not_answers_error e) fun freeable => ?_
      obtain ⟨c, backed, _⟩ := freeable target (Nat.le_refl _) (by omega)
      have here := backs.byte_of (Nat.le_refl _) (by omega) backed
      rw [Nat.sub_self, HostPtr.add_zero] at here
      rw [getFCRAMOffset_at pos enough here] at get
      cases get
    | ok offset =>
      obtain ⟨here, fits⟩ := fcram_block pos enough get
      rw [ok_bind]
      rcases MemoryRegionInfo.free_cases sound.unlocked
        (show offset + b.2 < 0x100000000 by omega) with
        ⟨⟨c, low, high, free⟩, run⟩ | ⟨taken, region', run, moved, more⟩
      · rw [run]
        refine iff_of_false (not_answers_error _) fun freeable => ?_
        have backed := backs.byte here low high
        obtain ⟨d, backed', fresh, _⟩ :=
          freeable (target + (c - offset)) (Nat.le_add_right _ _) (by omega)
        exact fresh (backedBy_unique backed backed' ▸ free)
      · have sound' := sound.moved moved fun a ha => by
          rcases (more a).mp ha with on | ha
          · omega
          · exact sound.inside a ha
        have first : ∀ a, target ≤ a → a < target + b.2 →
            BackedBy vm a (offset + (a - target)) := by
          intro a low high
          have byte := backs.byte here (Nat.le_add_right offset (a - target)) (by omega)
          rwa [Nat.add_sub_cancel_left, Nat.add_sub_cancel' low] at byte
        rw [run, ok_bind, ih sound' backs.2.2.2]
        constructor
        · intro later a low high
          by_cases on : a < target + b.2
          · refine ⟨_, first a low on, taken _ (Nat.le_add_right _ _) (by omega), ?_⟩
            intro b' low' high' backed
            by_cases on' : b' < target + b.2
            · have := backedBy_unique backed (first b' low' on')
              omega
            · obtain ⟨c, backed', fresh, _⟩ := later b' (by omega) (by omega)
              rw [backedBy_unique backed' backed, more] at fresh
              exact False.elim (fresh (Or.inl ⟨Nat.le_add_right _ _, by omega⟩))
          · obtain ⟨c, backed, fresh, alone⟩ := later a (by omega) (by omega)
            rw [more, not_or] at fresh
            refine ⟨c, backed, fresh.2, fun b' low' high' backed' => ?_⟩
            by_cases on' : b' < target + b.2
            · have := backedBy_unique backed' (first b' low' on')
              exact False.elim (fresh.1 ⟨by omega, by omega⟩)
            · exact alone b' (by omega) (by omega) backed'
        · intro freeable a low high
          obtain ⟨c, backed, fresh, alone⟩ := freeable a (by omega) (by omega)
          refine ⟨c, backed, ?_, fun b' low' high' => alone b' (by omega) (by omega)⟩
          rw [more]
          rintro (on | free)
          · have := alone _ (Nat.le_add_right _ _) (by omega) (backs.byte here on.1 on.2)
            omega
          · exact fresh free

def AllMapped (p : Process) (target size : Nat) : Prop :=
  ∀ a, target ≤ a → a < target + size → ∃ i, p.vmManager.info a = some i ∧ i.type ≠ .free

theorem AllMapped.mapped (inv : Inv p.vmManager) (pos : 0 < size)
    (all : p.AllMapped target size) : Mapped p.vmManager.areas target size := by
  rintro v hv ⟨below, above⟩ free
  obtain ⟨i, here, type⟩ := all (max v.base target) (by omega) (by omega)
  have at_v : Covers v (max v.base target) := by
    have bounds := (inv.laidOut.laid.tiles.bounds hv).2.1
    unfold Covers
    simp only [segment_base, segment_size] at bounds ⊢
    omega
  rw [VMManager.info, inv.laidOut.laid.tiles.view_mem hv at_v, Option.some.injEq] at here
  subst here
  exact type free

def HeapFrees (p : Process) (target size : Nat) : Prop :=
  target + size ≤ heapVaddrEnd → p.AllBacked target size →
    Freeable p.vmManager p.memoryRegion target size

/-- `LinearFree` takes a mapped range for one whose place in the region is taken. -/
def LinearFrees (p : Process) (target size : Nat) : Prop :=
  target + size ≤ p.getLinearHeapLimit → p.AllMapped target size →
    ∀ c, sub32 target p.getLinearHeapAreaAddress ≤ c →
      c < sub32 target p.getLinearHeapAreaAddress + size → c ∉ p.memoryRegion.freeBlocks

section

variable (sound : p.Sound) (ht : target < 0x100000000) (hs : size < 0x100000000)
  (alignedTarget : target &&& pageMask = 0) (alignedSize : size &&& pageMask = 0)
include sound ht hs alignedTarget alignedSize

theorem heapFree_answers (low : heapVaddr ≤ target) : Answers (p.heapFree target size) ↔
    p.HeapFrees target size := by
  have top : heapVaddrEnd = 0x10000000 := rfl
  unfold heapFree HeapFrees
  by_cases outside : target < heapVaddr ∨ add32 target size > heapVaddrEnd ∨
      add32 target size < target
  · rw [if_pos outside]
    refine iff_of_true (answers_ok _) fun within => ?_
    have sum : add32 target size = target + size := add32_eq (by omega)
    omega
  rw [if_neg outside]
  by_cases none : size = 0
  · rw [if_pos none]
    refine iff_of_true (answers_ok _) fun _ _ a low high => ?_
    omega
  rw [if_neg none]
  have within := (heap_range outside ht hs).2
  have pos : 0 < size := Nat.pos_of_ne_zero none
  have valid : ValidRange target size :=
    ⟨alignedTarget, alignedSize, pos, Nat.le_trans within (by decide)⟩
  rw [imp_iff_right within]
  rcases getBackingBlocksForRange_total sound.vm valid with
    ⟨e, a, i, list, low, high, here, type⟩ | ⟨blocks, list, _⟩
  · rw [list]
    refine iff_of_true (answers_ok _) fun all => ?_
    obtain ⟨j, there, backing⟩ := all a low high
    cases here.symm.trans there
    exact False.elim (type backing)
  · obtain ⟨backs, total⟩ := getBackingBlocksForRange_ok sound.vm valid.fits list
    have all := allBacked_of_backs backs
    rw [total] at all
    have mapped : p.AllMapped target size := fun a low high => by
      obtain ⟨i, here, type⟩ := all a low high
      exact ⟨i, here, by rw [type]; exact nofun⟩
    obtain ⟨vm, unmap⟩ := unmapRange_frees sound.vm valid (mapped.mapped sound.vm pos)
    rw [imp_iff_right all, list, ok_bind, ← total, ← freeBlocks_answers sound.region backs]
    refine answers_then fun region _ => ?_
    rw [total, unmap]
    exact answers_ok _

theorem linearFree_answers (low : p.getLinearHeapBase ≤ target) :
    Answers (p.linearFree target size) ↔ p.LinearFrees target size := by
  have sum := add32_cases ht hs
  have top : p.getLinearHeapLimit < 0x100000000 := add32_lt _ _
  unfold linearFree LinearFrees
  by_cases outside : target < p.getLinearHeapBase ∨ add32 target size > p.getLinearHeapLimit ∨
      add32 target size < target
  · rw [if_pos outside]
    refine iff_of_true (answers_ok _) fun within => ?_
    have sum : add32 target size = target + size := add32_eq (by omega)
    omega
  rw [if_neg outside]
  by_cases none : size = 0
  · rw [if_pos none]
    refine iff_of_true (answers_ok _) fun _ _ a low high => ?_
    omega
  rw [if_neg none]
  have within : target + size ≤ p.getLinearHeapLimit := by omega
  have pos : 0 < size := Nat.pos_of_ne_zero none
  obtain ⟨place, from_area, place_high⟩ := linear_range sound outside ht hs
  have bounds := sound.region.bounds
  have limit : fcramSize = 0x10000000 := rfl
  have highest : maxAddress = 0x40000000 := rfl
  have area : p.getLinearHeapAreaAddress ≤ 0x30000000 := by
    unfold getLinearHeapAreaAddress
    split_ifs <;> decide
  have valid : ValidRange target size := ⟨alignedTarget, alignedSize, pos, by omega⟩
  rw [imp_iff_right within]
  by_cases all : p.AllMapped target size
  · obtain ⟨vm, unmap⟩ := unmapRange_frees sound.vm valid (all.mapped sound.vm pos)
    rw [imp_iff_right all, unmap]
    rcases MemoryRegionInfo.free_cases sound.region.unlocked
      (show sub32 target p.getLinearHeapAreaAddress + size < 0x100000000 by omega) with
      ⟨⟨c, low, high, free⟩, run⟩ | ⟨taken, region, run, _⟩
    · refine iff_of_false ?_ fun fresh => fresh c low high free
      simp only [run, error_bind]
      exact not_answers_error _
    · refine iff_of_true ?_ taken
      simp only [run, ok_bind]
      exact answers_ok _
  · refine iff_of_true ?_ fun mapped => False.elim (all mapped)
    obtain ⟨⟨reply, vm⟩, unmap⟩ := (unmapRange_answers sound.vm ht hs).mpr valid
    rw [unmap]
    cases reply with
    | error e => exact answers_ok _
    | ok u =>
      rcases unmapRange_ok sound.vm ht hs unmap with ⟨⟨e, error⟩, _⟩ | ⟨_, unmapped⟩
      · cases error
      · exact False.elim (all (mapped_range sound.vm unmapped))

end

def LinearReserves (p : Process) (target size : Nat) : Prop :=
  if target = 0 then p.memoryRegion.firstFit size ≠ none
  else p.getLinearHeapBase ≤ target ∧ target + size ≤ p.getLinearHeapLimit ∧
    p.memoryRegion.freeBlocks.contains
      ⟨p.linearOffset target size, p.linearOffset target size + size⟩ = true

theorem linearReserve_total (sound : p.Sound) (ht : target < 0x100000000)
    (hs : size < 0x100000000) : (¬ p.LinearReserves target size ∧
        ∃ e, p.linearReserve target size = .ok (.error e, p.memoryRegion)) ∨
      p.LinearReserves target size ∧ p.linearOffset target size ≤ fcramSize ∧
        ∃ region, p.linearReserve target size =
          .ok (.ok (p.linearOffset target size, p.linearTarget target size), region) := by
  have unlocked := sound.region.unlocked
  unfold linearReserve LinearReserves linearTarget
  by_cases first : target = 0
  · simp only [first, if_true, MemoryRegionInfo.linearAllocate, unlocked, assert_pos, ok_bind]
    cases found : p.memoryRegion.firstFit size with
    | none =>
      have found : List.find? _ _ = none := found
      simp only [found, pure_eq_ok, ok_bind]
      exact Or.inl ⟨fun some => some rfl, _, rfl⟩
    | some b =>
      have offset : p.linearOffset 0 size = b.lower := by
        simp only [linearOffset, if_true, found]
      have block := sound.region.block (List.mem_of_find?_eq_some found)
      have found : List.find? _ _ = some b := found
      simp only [found, offset, pure_eq_ok, ok_bind]
      exact Or.inr ⟨(by rintro ⟨⟩), by omega, _, rfl⟩
  · have offset : p.linearOffset target size = sub32 target p.getLinearHeapAreaAddress :=
      if_neg first
    simp only [first, if_false, offset]
    by_cases outside : target < p.getLinearHeapBase ∨ add32 target size > p.getLinearHeapLimit ∨
        add32 target size < target
    · rw [if_pos outside]
      refine Or.inl ⟨?_, _, rfl⟩
      rintro ⟨low, within, _⟩
      have top : p.getLinearHeapLimit < 0x100000000 := add32_lt _ _
      have sum : add32 target size = target + size := add32_eq (by omega)
      omega
    · rw [if_neg outside]
      obtain ⟨place, from_area, place_high⟩ := linear_range sound outside ht hs
      have bounds := sound.region.bounds
      have within := add32_cases ht hs
      obtain ⟨region, run⟩ := MemoryRegionInfo.linearAllocateAt_total unlocked
        (show sub32 target p.getLinearHeapAreaAddress + size < 0x100000000 by omega)
      rw [run]
      by_cases fits : p.memoryRegion.freeBlocks.contains
          ⟨sub32 target p.getLinearHeapAreaAddress,
            sub32 target p.getLinearHeapAreaAddress + size⟩ = true
      · simp only [fits, pure_eq_ok]
        exact Or.inr ⟨⟨by omega, by omega, trivial⟩, by omega, region, rfl⟩
      · rcases MemoryRegionInfo.linearAllocateAt_ok run with ⟨_, same⟩ | ⟨done, _⟩
        · simp only [Bool.eq_false_iff.mpr fits, pure_eq_ok, same]
          exact Or.inl ⟨fun reserves => Bool.false_ne_true reserves.2.2, _, rfl⟩
        · exact False.elim (fits done)

def LinearCommits (p : Process) (target size : Nat) : Prop :=
  p.LinearReserves target size → ValidRange (p.linearTarget target size) size ∧
    FreeRoom p.vmManager.areas (p.linearTarget target size) size

theorem linearAllocate_answers (sound : p.Sound) (ht : target < 0x100000000)
    (hs : size < 0x100000000) :
    Answers (p.linearAllocate target size perms) ↔ p.LinearCommits target size := by
  unfold linearAllocate LinearCommits
  rcases linearReserve_total sound ht hs with ⟨refused, e, run⟩ | ⟨reserves, inside, region, run⟩
  · rw [run]
    exact iff_of_true (answers_ok _) fun reserves => False.elim (refused reserves)
  · rcases linearReserve_ok run with ⟨⟨e, error⟩, _⟩ | ⟨_, _, handed⟩
    · cases error
    · have block := linearBlock_ok sound hs inside handed
      have ref : getFCRAMRef (p.linearOffset target size) =
          .ok ⟨some fcram, p.linearOffset target size⟩ := by
        rw [getFCRAMRef, assert_pos inside]
        rfl
      rw [imp_iff_right reserves, run, ← mapAndReprotect_answers sound.vm
        (linearTarget_lt ht) hs (show (linearBlock (p.linearOffset target size) size).1.getPtr ≠ none
          from (by rintro ⟨⟩)) fun valid => block.2 valid.nonempty
            (Nat.le_trans (Nat.le_add_left _ _) valid.fits)]
      simp only [ref, ok_bind]
      exact answers_then fun _ _ => answers_ok _

/-- A commit gives the heap whole pages only if the free FCRAM comes in whole pages. -/
def HeapCommits (p : Process) (target size : Nat) : Prop :=
  heapVaddr ≤ target → target + size ≤ heapVaddrEnd → RoomAt p.vmManager target size →
    total (p.memoryRegion.highest size).blocks = size →
      ∀ b ∈ (p.memoryRegion.highest size).blocks, b.length &&& pageMask = 0

theorem heapAllocate_answers {memoryState : MemoryState} (sound : p.Sound)
    (ht : target < 0x100000000) (hs : size < 0x100000000)
    (alignedTarget : target &&& pageMask = 0) :
    Answers (p.heapAllocate target size perms memoryState false) ↔ p.HeapCommits target size := by
  have top : heapVaddrEnd = 0x10000000 := rfl
  have highest : maxAddress = 0x40000000 := rfl
  unfold heapAllocate HeapCommits
  by_cases outside : target < heapVaddr ∨ add32 target size > heapVaddrEnd ∨
      add32 target size < target
  · rw [if_pos outside]
    refine iff_of_true (answers_ok _) fun low within => ?_
    have sum : add32 target size = target + size := add32_eq (by omega)
    omega
  rw [if_neg outside]
  obtain ⟨low, within⟩ := heap_range outside ht hs
  rw [imp_iff_right low, imp_iff_right within]
  obtain ⟨answer, check, room⟩ := isFreeRange_at sound.vm
    (show target < maxAddress by omega) (show target + size < 0x100000000 by omega)
  simp only [check, ok_bind]
  by_cases roomy : RoomAt p.vmManager target size
  · obtain rfl := room.mpr roomy
    rw [imp_iff_right roomy]
    rcases MemoryRegionInfo.heapAllocate_total size sound.region.unlocked with
      ⟨short, alloc⟩ | ⟨enough, region, alloc⟩
    · rw [alloc]
      exact iff_of_true (answers_ok _) fun enough => False.elim (short enough)
    · rw [alloc, ok_bind, imp_iff_right enough]
      by_cases none : (p.memoryRegion.highest size).blocks = []
      · simp only [none, if_true]
        exact iff_of_true (answers_ok _) nofun
      simp only [none, if_false]
      have inside : ∀ b ∈ (p.memoryRegion.highest size).blocks,
          b.lower < b.upper ∧ b.upper ≤ fcramSize := fun b hb =>
        ⟨((p.memoryRegion.highest size).apart.bounds hb).2, sound.region.highest_block hb⟩
      have whole : fcram.size = fcramSize := rfl
      have maps : Answers (mapBlocks .heapAllocate memoryState perms p.vmManager target
          ((p.memoryRegion.highest size).blocks.map fcramBlock)) ↔ _ :=
        mapBlocks_answers sound.vm alignedTarget
        (by
          intro c hc
          obtain ⟨b, hb, rfl⟩ := List.mem_map.mp hc
          have bounds := inside b hb
          simp only [fcramBlock, Block.length, MemoryRef.getSize, whole]
          omega)
        (fun _ => by
          rw [totalSize_fcram, enough]
          exact roomy.freeRoom)
      rw [List.forall_mem_map] at maps
      refine Iff.trans (answers_then fun _ _ => answers_ok _) ?_
      rw [mapIntervals_eq inside]
      exact maps
  · obtain rfl := Bool.eq_false_iff.mpr fun yes => roomy (room.mp yes)
    exact iff_of_true (answers_ok _) fun roomy' => False.elim (roomy roomy')

theorem validSource_range (valid : validSource source size false = true)
    (ht : source < 0x100000000) (hs : size < 0x100000000) : source + size ≤ heapVaddrEnd := by
  have sum := add32_cases ht hs
  simp only [validSource, Bool.false_or, Bool.not_eq_true', Bool.or_eq_false_iff,
    decide_eq_false_iff_not] at valid
  omega

theorem answers_checked {α : Type} {valid overlap : Bool} {x y z : Exec α} {P : Prop}
    (refused : Answers x) (taken : Answers y)
    (rest : valid = true → overlap = false → (Answers z ↔ P)) :
    Answers (if valid = false then x else if overlap then y else z) ↔
      (valid = true → overlap = false → P) := by
  cases valid <;> cases overlap <;> simp_all

/-- The target has to lie in the address space, and a `MAP` of nothing has to be refused before
the source is carved. -/
def MapReturns (p : Process) (target source size : Nat) : Prop :=
  validSource source size false = true → overlapping target source size = false →
    target < maxAddress ∧ (size = 0 → RoomAt p.vmManager target 0 →
      ∃ v ∈ p.vmManager.areas, v.base < source ∧ source < v.base + v.size ∧
        ¬ (v.meminfoState = .«private» ∧ v.permissions &&& .readWrite = .readWrite))

theorem map_answers (sound : p.Sound) (hs : source < 0x100000000)
    (hn : size < 0x100000000) (alignedTarget : target &&& pageMask = 0)
    (alignedSource : source &&& pageMask = 0) (alignedSize : size &&& pageMask = 0) :
    Answers (p.map target source size perms false) ↔ p.MapReturns target source size := by
  have top : heapVaddrEnd = 0x10000000 := rfl
  have highest : maxAddress = 0x40000000 := rfl
  unfold map MapReturns
  refine answers_checked (answers_ok _) (answers_ok _) fun valid_source apart => ?_
  have within := validSource_range valid_source hs hn
  by_cases inside : target < maxAddress
  swap
  · rw [isFreeRange_end (Nat.not_lt.mp inside)]
    exact iff_of_false (not_answers_error _) fun h => inside h.1
  rw [and_iff_right inside]
  obtain ⟨answer, check, room⟩ := isFreeRange_at sound.vm inside
    (show target + size < 0x100000000 by omega)
  simp only [check, ok_bind]
  by_cases roomy : RoomAt p.vmManager target size
  swap
  · obtain rfl := Bool.eq_false_iff.mpr fun yes => roomy (room.mp yes)
    refine iff_of_true (answers_ok _) fun none roomy' => ?_
    subst none
    exact False.elim (roomy roomy')
  obtain rfl := room.mpr roomy
  by_cases none : size = 0
  · subst none
    rw [imp_iff_right rfl, imp_iff_right roomy, ← changeMemoryState_empty sound.vm
      (show source < maxAddress by omega)]
    refine answers_then fun reply change => ?_
    obtain ⟨result, vm₁⟩ := reply
    rcases changeMemoryState_ok sound.vm hs hn change with ⟨⟨e, rfl⟩, _⟩ | ⟨_, changed⟩
    · exact answers_ok _
    · exact False.elim (Nat.lt_irrefl 0 changed.valid.nonempty)
  · refine iff_of_true ?_ fun zero => False.elim (none zero)
    have valid : ValidRange source size :=
      ⟨alignedSource, alignedSize, Nat.pos_of_ne_zero none, by omega⟩
    refine answers_bind.mpr ?_
    obtain ⟨⟨result, vm₁⟩, change⟩ := changeMemoryState_returns sound.vm valid
    refine ⟨_, change, ?_⟩
    rcases changeMemoryState_ok sound.vm hs hn change with ⟨⟨e, rfl⟩, _⟩ | ⟨rfl, changed⟩
    · exact answers_ok _
    rcases getBackingBlocksForRange_total changed.inv valid with
      ⟨e, _, _, list, _⟩ | ⟨blocks, list, pages⟩
    · simp only [list, ok_bind]
      exact answers_ok _
    · simp only [list, ok_bind]
      obtain ⟨backs, total⟩ := getBackingBlocksForRange_ok changed.inv valid.fits list
      obtain ⟨v, hv, free, covers, high⟩ := roomy
      have kept := changeMemoryState_free sound.vm valid hv free change
      have maps : Answers (mapBlocks .processMap .«alias» perms vm₁ target blocks) :=
        (mapBlocks_answers changed.inv alignedTarget (Backs_blocks backs) fun _ =>
          ⟨v, kept, free, covers.1, total.symm ▸ high⟩).mpr pages
      exact (answers_then fun _ _ => answers_ok _).mpr maps

/-- `Unmap` leaves it to `CarveVMARange` to check the target. -/
def UnmapReturns (target source size : Nat) : Prop :=
  validSource source size false = true → overlapping target source size = false →
    ValidRange target size

theorem unmap_answers (sound : p.Sound) (ht : target < 0x100000000) (hs : source < 0x100000000)
    (hn : size < 0x100000000) (alignedSource : source &&& pageMask = 0) :
    Answers (p.unmap target source size perms false) ↔ UnmapReturns target source size := by
  have top : heapVaddrEnd = 0x10000000 := rfl
  have highest : maxAddress = 0x40000000 := rfl
  unfold unmap UnmapReturns
  refine answers_checked (answers_ok _) (answers_ok _) fun valid_source apart => ?_
  have within := validSource_range valid_source hs hn
  rw [← unmapRange_answers sound.vm ht hn]
  refine answers_then fun reply unmap => ?_
  obtain ⟨result, vm₁⟩ := reply
  rcases unmapRange_ok sound.vm ht hn unmap with ⟨⟨e, rfl⟩, _⟩ | ⟨rfl, unmapped⟩
  · exact answers_ok _
  · have valid : ValidRange source size :=
      ⟨alignedSource, unmapped.valid.alignedSize, unmapped.valid.nonempty, by omega⟩
    exact (answers_then fun _ _ => answers_ok _).mpr
      (changeMemoryState_returns unmapped.inv valid)

end Process

namespace ControlCall
open Process

structure Checked (call : ControlCall) : Prop where
  addr0 : call.addr0 &&& VMManager.pageMask = 0
  addr1 : call.addr1 &&& VMManager.pageMask = 0
  size : call.size &&& VMManager.pageMask = 0
  permissions : call.permissions &&& 3 = call.permissions

def request (call : ControlCall) : Nat := call.operation &&& (0xFFFFFFFF - Svc.memopRegionMask)

def code (call : ControlCall) : Nat := call.request &&& Svc.memopOperationMask

/-- `MEMOP_FREE` looks at the start of the range to tell the two heaps apart. -/
def FreeReturns (p : Process) (addr0 size : Nat) : Prop :=
  if heapVaddr ≤ addr0 ∧ addr0 < heapVaddrEnd then p.HeapFrees addr0 size
  else p.getLinearHeapBase ≤ addr0 → addr0 < p.getLinearHeapLimit → p.LinearFrees addr0 size

def Returns (p : Process) (call : ControlCall) : Prop :=
  if call.code = Svc.memopFree then FreeReturns p call.addr0 call.size
  else if call.code = Svc.memopCommit then
    if call.request &&& Svc.memopLinear ≠ 0 then p.LinearCommits call.addr0 call.size
    else p.HeapCommits call.addr0 call.size
  else if call.code = Svc.memopMap then p.MapReturns call.addr0 call.addr1 call.size
  else if call.code = Svc.memopUnmap then UnmapReturns call.addr0 call.addr1 call.size
  else if call.code = Svc.memopProtect then VMManager.ValidRange call.addr0 call.size
  else True

variable {p : Process} {call : ControlCall} {blocks : List SharedMemory}

theorem controlFree_answers (sound : p.Sound) (words : call.Words) (checked : call.Checked) :
    Answers (Svc.controlFree p call.addr0 call.size) ↔ FreeReturns p call.addr0 call.size := by
  unfold Svc.controlFree FreeReturns
  by_cases heap : heapVaddr ≤ call.addr0 ∧ call.addr0 < heapVaddrEnd
  · rw [if_pos heap, if_pos heap,
      ← heapFree_answers sound words.addr0 words.size checked.addr0 checked.size heap.1]
    exact answers_then fun _ _ => answers_ok _
  · rw [if_neg heap, if_neg heap]
    by_cases linear : p.getLinearHeapBase ≤ call.addr0 ∧ call.addr0 < p.getLinearHeapLimit
    · rw [if_pos linear, imp_iff_right linear.1, imp_iff_right linear.2,
        ← linearFree_answers sound words.addr0 words.size checked.addr0 checked.size linear.1]
      exact answers_then fun _ _ => answers_ok _
    · rw [if_neg linear]
      exact iff_of_true (answers_ok _) fun low high => False.elim (linear ⟨low, high⟩)

theorem run_answers (sound : p.Sound) (words : call.Words) :
    Answers (call.run p) ↔ (call.Checked → call.Returns p) := by
  unfold run Svc.controlMemory
  by_cases misaligned : call.addr0 &&& VMManager.pageMask ≠ 0 ∨ call.addr1 &&& VMManager.pageMask ≠ 0
  · rw [if_pos misaligned]
    refine iff_of_true (answers_ok _) fun checked => False.elim ?_
    exact misaligned.elim (fun h => h checked.addr0) fun h => h checked.addr1
  rw [if_neg misaligned]
  rw [not_or, not_not, not_not] at misaligned
  by_cases ragged : call.size &&& VMManager.pageMask ≠ 0
  · rw [if_pos ragged]
    exact iff_of_true (answers_ok _) fun checked => False.elim (ragged checked.size)
  rw [if_neg ragged]
  by_cases more : call.permissions &&& 3 ≠ call.permissions
  · rw [if_pos more]
    exact iff_of_true (answers_ok _) fun checked => False.elim (more checked.permissions)
  rw [if_neg more]
  have checked : call.Checked :=
    ⟨misaligned.1, misaligned.2, not_not.mp ragged, not_not.mp more⟩
  rw [imp_iff_right checked]
  refine answers_ite (fun _ => controlFree_answers sound words checked) fun _ => ?_
  refine answers_ite (fun _ => ?_) fun _ => ?_
  · refine answers_ite (fun _ => ?_) fun _ => ?_
    · exact linearAllocate_answers sound words.addr0 words.size
    · exact heapAllocate_answers sound words.addr0 words.size checked.addr0
  refine answers_ite (fun _ => ?_) fun _ => answers_ite (fun _ => ?_) fun _ =>
    answers_ite (fun _ => ?_) fun _ => iff_of_true (answers_ok _) trivial
  · rw [← map_answers sound words.addr1 words.size checked.addr0 checked.addr1 checked.size]
    exact answers_then fun _ _ => answers_ok _
  · rw [← unmap_answers sound words.addr0 words.addr1 words.size checked.addr1]
    exact answers_then fun _ _ => answers_ok _
  · rw [← VMManager.reprotectRange_answers _ sound.vm words.addr0 words.size]
    exact answers_then fun _ _ => answers_ok _

/-- In a reachable process the system call returns exactly when its arguments meet what the
calls below it rely on. -/
theorem control_returns (h : p.Reachable blocks) (words : call.Words) :
    (∃ reply p', call.run p = .ok (reply, p')) ↔ (call.Checked → call.Returns p) := by
  rw [← run_answers h.sound.1 words]
  constructor
  · rintro ⟨reply, p', run⟩
    exact ⟨_, run⟩
  · rintro ⟨⟨reply, p'⟩, run⟩
    exact ⟨reply, p', run⟩

/-- One page of a new process is made read-only, in vain: it is free, and the call says so. -/
def protectPage : ControlCall := ⟨0x08000000, 0, 0x1000, Svc.memopProtect, 1⟩

theorem control_returns_protectPage : ∃ p : Process, p.Reachable [] ∧
    ∃ reply p', protectPage.run p = .ok (reply, p') := by
  refine ⟨_, Process.started_reachable, (control_returns Process.started_reachable
    ⟨by decide, by decide, by decide⟩).mpr fun _ => ?_⟩
  exact ⟨by decide, by decide, by decide, by decide⟩

def protectNothing : ControlCall := { protectPage with size := 0 }

theorem control_fails : ∃ p : Process, p.Reachable [] ∧ protectNothing.Words ∧
    protectNothing.run p = .error (.assertion .carveVMARange) := by
  exact ⟨_, Process.started_reachable, ⟨by decide, by decide, by decide⟩, rfl⟩

end ControlCall
end EmuThreeDS
