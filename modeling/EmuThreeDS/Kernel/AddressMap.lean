import EmuThreeDS.Kernel.MapSteps

/-!
# The address map a `VMManager` stands for

The guest sees a function from addresses to attributes. Each operation is a pointwise
update of that function on its range, or changes nothing and reports an error.
-/
namespace EmuThreeDS
open Tiling OrderedMap Layout VirtualMemoryArea

namespace VMManager

def areas (vm : VMManager) : List VirtualMemoryArea := vm.vmaMap.entries.map Prod.snd

def info (vm : VMManager) : Nat → Option AddressInfo := view vm.areas

/-- What the search of `MapBackingMemoryToBase` looks for. -/
def reaches (base size : Nat) (v : VirtualMemoryArea) : Bool :=
  v.type = .free && (add32 v.base v.size > base && add32 v.base v.size ≥ add32 base size)

def firstReaching (vm : VMManager) (base size : Nat) : Option VirtualMemoryArea :=
  vm.areas.find? (reaches base size)

inductive Op where
  | mapBackingMemory (target : Nat) (memory : MemoryRef) (size : Nat) (state : MemoryState)
  | mapBackingMemoryToBase (base regionSize : Nat) (memory : MemoryRef) (size : Nat)
      (state : MemoryState)
  | unmapRange (target size : Nat)
  | reprotect (vmaHandle : Nat) (newPerms : VMAPermission)
  | reprotectRange (target size : Nat) (newPerms : VMAPermission)
  | changeMemoryState (target size : Nat) (expectedState : MemoryState)
      (expectedPerms : VMAPermission) (newState : MemoryState) (newPerms : VMAPermission)

namespace Op

/-- The value of a success is the handle or the address the source returns; a function that
returns no value answers 0. -/
def run (vm : VMManager) : Op → Exec (ResultVal Nat × VMManager)
  | mapBackingMemory target memory size state => vm.mapBackingMemory target memory size state
  | mapBackingMemoryToBase base regionSize memory size state =>
    vm.mapBackingMemoryToBase base regionSize memory size state
  | unmapRange target size => do
      let (result, vm) ← vm.unmapRange target size
      return (result.map fun _ => 0, vm)
  | reprotect vmaHandle newPerms => do
      let (it, vm) ← vm.reprotect vmaHandle newPerms
      return (.ok it, vm)
  | reprotectRange target size newPerms => do
      let (result, vm) ← vm.reprotectRange target size newPerms
      return (result.map fun _ => 0, vm)
  | changeMemoryState target size expectedState expectedPerms newState newPerms => do
      let (result, vm) ←
        vm.changeMemoryState target size expectedState expectedPerms newState newPerms
      return (result.map fun _ => 0, vm)

/-- The block reaches to the end of the range; every caller passes one that does. -/
def ValidMemory (memory : MemoryRef) (size : Nat) : Prop :=
  memory.getPtr ≠ none ∧ size ≤ memory.getSize

/-- `MapBackingMemoryToBase` looks for its own range, so only `base` and `size` are given. -/
def Valid (vm : VMManager) : Op → Prop
  | mapBackingMemory target memory size _ => ValidRange target size ∧ ValidMemory memory size
  | mapBackingMemoryToBase base _ memory size _ =>
    base &&& pageMask = 0 ∧ size &&& pageMask = 0 ∧ 0 < size ∧ base + size < 0x100000000 ∧
      ValidMemory memory size
  | unmapRange target size => ValidRange target size
  | reprotect vmaHandle _ => ∃ v, vm.vmaMap.find? vmaHandle = some v
  | reprotectRange target size _ => ValidRange target size
  | changeMemoryState target size _ _ _ _ => ValidRange target size

/-- `MapBackingMemoryToBase` finds an area. Without one it reads past the map. -/
def Finds (vm : VMManager) : Op → Prop
  | mapBackingMemoryToBase base _ _ size _ => ∃ v, firstReaching vm base size = some v
  | _ => True

def range (vm : VMManager) (value : Nat) : Op → Nat × Nat
  | mapBackingMemory target _ size _ => (target, target + size)
  | mapBackingMemoryToBase _ _ _ size _ => (value, value + size)
  | unmapRange target size => (target, target + size)
  | reprotect vmaHandle _ =>
    match vm.vmaMap.find? vmaHandle with
    | some v => (v.base, v.base + v.size)
    | none => (0, 0)
  | reprotectRange target size _ => (target, target + size)
  | changeMemoryState target size _ _ _ _ => (target, target + size)

/-- The new attributes of an address of the range that starts at `lo`. -/
def effect (lo : Nat) : Op → Nat → AddressInfo → AddressInfo
  | mapBackingMemory _ memory _ state, a, _ =>
    ⟨.backingMemory, .readWrite, state, HostPtr.add memory.getPtr (a - lo)⟩
  | mapBackingMemoryToBase _ _ memory _ state, a, _ =>
    ⟨.backingMemory, .readWrite, state, HostPtr.add memory.getPtr (a - lo)⟩
  | unmapRange _ _, _, _ => ⟨.free, .none, .free, none⟩
  | reprotect _ newPerms, _, i => { i with permissions := newPerms }
  | reprotectRange _ _ newPerms, _, i => { i with permissions := newPerms }
  | changeMemoryState _ _ _ _ newState newPerms, _, i =>
    { i with permissions := newPerms, meminfoState := newState }

/-- The abstract operation: what `op` is to do to an address map, given its answer. -/
def expected (vm : VMManager) (op : Op) (reply : ResultVal Nat) (g : Nat → Option AddressInfo) :
    Nat → Option AddressInfo :=
  match reply with
  | .error _ => g
  | .ok value =>
    updateOn (op.range vm value).1 (op.range vm value).2 (op.effect (op.range vm value).1) g

end Op

/-- The managers that runs of allowed calls after `Reset` lead to. -/
inductive Reachable (allowed : VMManager → Op → Prop) : VMManager → Prop where
  | reset {vm vm' : VMManager} : vm.reset = .ok vm' → Reachable allowed vm'
  | call {vm vm' : VMManager} {op : Op} {reply : ResultVal Nat} : Reachable allowed vm →
      allowed vm op → op.run vm = .ok (reply, vm') → Reachable allowed vm'

/-- Keys are bases, and the areas tile the address space: none is empty, and each starts
where the one before it ends. -/
structure Exact (vm : VMManager) : Prop where
  keys : ∀ e ∈ vm.vmaMap.entries, e.1 = e.2.base
  tiles : Tiles 0 vm.areas maxAddress

structure Inv (vm : VMManager) : Prop where
  unlocked : vm.isLocked = false
  laidOut : LaidOut vm.vmaMap vm.areas
  aligned : Aligned vm.areas

variable {vs A M B : List VirtualMemoryArea} {m : VmaMap} {vmaHandle : Nat} {v : VirtualMemoryArea}
  {op : Op} {vm' : VMManager} {allowed : VMManager → Op → Prop} {ops : List Op}

theorem LaidOut.areas_eq {vm : VMManager} (h : LaidOut vm.vmaMap vs) : vm.areas = vs := by
  simp [areas, h.holds.eq, Function.comp_def]

theorem Inv.exact {vm : VMManager} (h : Inv vm) : Exact vm := by
  refine ⟨?_, h.laidOut.laid.tiles⟩
  intro e he
  rw [h.laidOut.holds.eq] at he
  obtain ⟨v, _, rfl⟩ := List.mem_map.mp he
  rfl

theorem Inv.of_laidOut (h : LaidOut m vs) (aligned : Aligned vs) : Inv { vmaMap := m } := by
  have same : VMManager.areas { vmaMap := m } = vs := LaidOut.areas_eq h
  exact ⟨rfl, same.symm ▸ h, same.symm ▸ aligned⟩

theorem and_pageMask (a : Nat) : a &&& pageMask = a % 0x1000 :=
  Nat.and_two_pow_sub_one_eq_mod a 12

theorem aligned_add {a b : Nat} (ha : a &&& pageMask = 0) (hb : b &&& pageMask = 0) :
    (a + b) &&& pageMask = 0 := by
  rw [and_pageMask] at ha hb ⊢
  omega

section
variable {vm : VMManager} {target size : Nat} {memory : MemoryRef} (state : MemoryState)

theorem mapBackingMemory_info (inv : Inv vm) (valid : ValidRange target size)
    (block : Op.ValidMemory memory size) (room : FreeRoom vm.areas target size) :
    ∃ before mid after vm', mapBackingMemory vm target memory size state =
        .ok (.ok (Cursor.merge ⟨before, mapAttributes memory state mid, after⟩).here.base, vm') ∧
      Inv vm' ∧ vm'.info = updateOn target (target + size) (fun a _ =>
        ⟨.backingMemory, .readWrite, state, HostPtr.add memory.getPtr (a - target)⟩) vm.info ∧
      Carved vm.areas target size before mid after ∧
      Laid 0 (Cursor.mk before (mapAttributes memory state mid) after).areas maxAddress ∧
      vm'.areas = (Cursor.merge ⟨before, mapAttributes memory state mid, after⟩).areas := by
  have fits := valid.fits
  obtain ⟨before, mid, after, m', carved, changed, run, h'⟩ :=
    mapBackingMemory_at state inv.unlocked inv.laidOut valid block.1 block.2 room
  obtain ⟨laid₁, view₁, _⟩ := inv.laidOut.laid.splitAt (Nat.zero_le (target + size)) fits
  obtain ⟨laid₂, view₂, _⟩ :=
    laid₁.splitAt (Nat.zero_le target) (show target ≤ maxAddress by omega)
  have aligned := (inv.aligned.splitAt (aligned_add valid.alignedTarget valid.alignedSize)).splitAt
    valid.alignedTarget
  have start := carved.start
  have length := carved.length
  rw [carved.cut] at laid₂ view₂ aligned
  refine ⟨before, mid, after, _, run, ?_, ?_, carved, changed, LaidOut.areas_eq h'⟩
  · rw [inv.unlocked]
    refine Inv.of_laidOut h' (Aligned.merge ?_)
    intro v hv
    simp only [Cursor.areas, List.mem_append, List.mem_cons] at hv
    rcases hv with hv | rfl | hv
    · exact aligned v (by simp_all)
    · exact aligned mid (by simp)
    · exact aligned v (by simp [hv])
  · have same : VMManager.areas { vm with vmaMap := m' } = _ := LaidOut.areas_eq h'
    have ends : mid.base + mid.size = target + size := by omega
    rw [info, same, Cursor.view_merge changed, info, ← view₁, ← view₂, ← ends, ← start]
    refine view_replaced laid₂.tiles rfl rfl fun a _ => ?_
    simp only [infoAt, mapAttributes, if_true, start]

theorem firstReaching_eq {base : Nat} :
    firstReaching vm base size = (vm.vmaMap.entries.find? fun e => reaches base size e.2).map
      Prod.snd := by
  unfold firstReaching areas
  rw [List.find?_map]
  rfl

section
variable {base regionSize : Nat} {state : MemoryState} {v : VirtualMemoryArea}

theorem mapBackingMemoryToBase_none (unlocked : vm.isLocked = false)
    (found : firstReaching vm base size = none) :
    mapBackingMemoryToBase vm base regionSize memory size state = .error .undefinedBehaviour := by
  rw [firstReaching_eq, Option.map_eq_none_iff] at found
  unfold reaches at found
  unfold mapBackingMemoryToBase
  simp only [assert_pos unlocked, ok_bind, found]

theorem mapBackingMemoryToBase_some (unlocked : vm.isLocked = false)
    (found : firstReaching vm base size = some v) :
    mapBackingMemoryToBase vm base regionSize memory size state =
      if add32 (max base v.base) size > add32 base regionSize then
        .ok (.error .outOfMemory, vm)
      else do
        let (result, vm) ← mapBackingMemory vm (max base v.base) memory size state
        match result with
        | .error e => return (.error e, vm)
        | .ok _ => return (.ok (max base v.base), vm) := by
  rw [firstReaching_eq] at found
  obtain ⟨⟨k, w⟩, entry, rfl⟩ := Option.map_eq_some_iff.mp found
  unfold reaches at entry
  unfold mapBackingMemoryToBase
  simp only [assert_pos unlocked, ok_bind]
  rw [entry]
  rfl

theorem mapBackingMemoryToBase_at (inv : Inv vm)
    (valid : (Op.mapBackingMemoryToBase base regionSize memory size state).Valid vm)
    (found : firstReaching vm base size = some v) :
    (¬ (add32 (max base v.base) size ≤ add32 base regionSize ∧
        FreeRoom vm.areas (max base v.base) size) ∧
      ∃ e, mapBackingMemoryToBase vm base regionSize memory size state = .ok (.error e, vm)) ∨
    (add32 (max base v.base) size ≤ add32 base regionSize ∧
      ValidRange (max base v.base) size ∧ FreeRoom vm.areas (max base v.base) size ∧
      ∃ handle vm', mapBackingMemory vm (max base v.base) memory size state =
          .ok (.ok handle, vm') ∧ mapBackingMemoryToBase vm base regionSize memory size state =
          .ok (.ok (max base v.base), vm')) := by
  obtain ⟨alignedBase, alignedSize, pos, noWrap, block⟩ := valid
  have hv : v ∈ vm.areas := List.mem_of_find?_eq_some found
  have bounds := inv.laidOut.laid.tiles.bounds hv
  simp only [segment_base, segment_size] at bounds
  have top : maxAddress = 0x40000000 := rfl
  have chosen := List.find?_some found
  have ends : add32 v.base v.size = v.base + v.size := add32_eq (by omega)
  simp only [reaches, ends, add32_eq noWrap, gt_iff_lt, ge_iff_le, Bool.and_eq_true,
    decide_eq_true_eq] at chosen
  have fits : max base v.base + size < 0x100000000 := by omega
  have inside : max base v.base < maxAddress := by omega
  have aligned : max base v.base &&& pageMask = 0 := by
    rcases Nat.le_total base v.base with le | le
    · rw [Nat.max_eq_right le]
      exact inv.aligned v hv
    · rw [Nat.max_eq_left le]
      exact alignedBase
  have call : mapBackingMemoryToBase vm base regionSize memory size state = _ :=
    mapBackingMemoryToBase_some inv.unlocked found
  by_cases beyond : add32 (max base v.base) size > add32 base regionSize
  · rw [if_pos beyond] at call
    exact Or.inl ⟨fun within => absurd within.1 (not_le.mpr beyond), _, call⟩
  rw [if_neg beyond] at call
  by_cases room : FreeRoom vm.areas (max base v.base) size
  · have valid : ValidRange (max base v.base) size := by
      obtain ⟨w, hw, _, _, high⟩ := room
      have bounds := (inv.laidOut.laid.tiles.bounds hw).2.2
      exact ⟨aligned, alignedSize, pos, Nat.le_trans high bounds⟩
    obtain ⟨_, _, _, vm', run, _⟩ := mapBackingMemory_info state inv valid block room
    refine Or.inr ⟨not_lt.mp beyond, valid, room, _, vm', run, ?_⟩
    simp only [call, run, ok_bind, pure_eq_ok]
  · have run := mapBackingMemory_refused state inv.unlocked inv.laidOut aligned
      alignedSize fits inside block.1 room
    refine Or.inl ⟨fun within => room within.2, .invalidAddressState, ?_⟩
    simp only [call, run, ok_bind, pure_eq_ok]

end

end
section
variable {vm : VMManager} {target size : Nat} {f : VirtualMemoryArea → VirtualMemoryArea}
  {F : AddressInfo → AddressInfo}

def Mapped (vs : List VirtualMemoryArea) (target size : Nat) : Prop :=
  ∀ v ∈ vs, Overlaps v target (target + size) → v.type ≠ .free

structure Window (vs : List VirtualMemoryArea) (target size : Nat)
    (A M B : List VirtualMemoryArea) : Prop where
  cut : splitAt (target + size) (splitAt target vs) = A ++ (M ++ B)
  laid : Laid 0 (A ++ (M ++ B)) maxAddress
  view : view (A ++ (M ++ B)) = view vs
  before : Tiles 0 A target
  middle : Tiles target M (target + size)
  after : Tiles (target + size) B maxAddress

theorem exists_window (h : Laid 0 vs maxAddress)
    (valid : ValidRange target size) : ∃ A M B, Window vs target size A M B := by
  obtain ⟨laid, view, A, M, B, cut, hA, hM, hB⟩ :=
    h.window (Nat.zero_le target) (Nat.le_add_right target size) valid.fits
  exact ⟨A, M, B, cut, cut ▸ laid, cut ▸ view, hA, hM, hB⟩

theorem Window.mapped (w : Window vs target size A M B)
    (mapped : Mapped vs target size) : ∀ v ∈ M, v.type ≠ .free := by
  intro v hv
  have bounds := w.middle.bounds hv
  simp only [segment_base, segment_size] at bounds
  have covers : Covers v v.base := ⟨Nat.le_refl _, by
    simp only [segment_base, segment_size]
    omega⟩
  have here := w.laid.tiles.view_mem (show v ∈ A ++ (M ++ B) by simp [hv]) covers
  rw [w.view] at here
  obtain ⟨u, hu, on, same⟩ := view_some here
  obtain ⟨low, high⟩ : u.base ≤ v.base ∧ v.base < u.base + u.size := on
  have type : u.type = v.type := congrArg AddressInfo.type same
  exact type ▸ mapped u hu ⟨by omega, by omega⟩

theorem rangeLoop_window (acts : Acts f F) (w : Window vm.areas target size A M B)
    (valid : ValidRange target size) (h : LaidOut m (A ++ (M ++ B))) :
    ∃ m', rangeLoop (updateAndMerge f) (target + size) m.entries.length m (some target) = .ok m' ∧
      LaidOut m' (sweep f (target + size) A.reverse (M ++ B)) := by
  have pos := valid.nonempty
  have first : (M ++ B).head?.map VirtualMemoryArea.base = some target := by
    have middle := w.middle
    cases M with
    | nil =>
      have : target = target + size := middle
      omega
    | cons v rest => exact congrArg some middle.1
  have enough : (M ++ B).length ≤ m.entries.length := by
    simp only [h.holds.eq, List.length_map, List.length_append]
    omega
  rw [← first]
  exact rangeLoop_at acts (by rwa [List.reverse_reverse]) enough

/-- `vs'` is what the loop that applies `f` makes of `vs`. -/
def Swept (f : VirtualMemoryArea → VirtualMemoryArea) (target size : Nat)
    (vs vs' : List VirtualMemoryArea) : Prop :=
  ∃ A M B, Window vs target size A M B ∧ vs' = sweep f (target + size) A.reverse (M ++ B)

theorem range_info (acts : Acts f F) (inv : Inv vm) (valid : ValidRange target size)
    (mapped : Mapped vm.areas target size)
    (skipped : ∀ v n, n.type ≠ .free → (f v).mergeable n = true →
      ∀ a, F (n.infoAt a) = n.infoAt a) :
    ∃ m₁ m', carveVMARange vm.vmaMap target size = .ok (.ok target, m₁) ∧
      rangeLoop (updateAndMerge f) (target + size) m₁.entries.length m₁ (some target) = .ok m' ∧
      Inv { vmaMap := m' } ∧
      info { vmaMap := m' } = updateOn target (target + size) (fun _ => F) vm.info ∧
      ∃ A M B, Window vm.areas target size A M B ∧
        LaidOut m' (sweep f (target + size) A.reverse (M ++ B)) := by
  obtain ⟨m₁, carved, h₁⟩ := carveVMARange_at inv.laidOut valid mapped
  obtain ⟨A, M, B, w⟩ := exists_window inv.laidOut.laid valid
  have aligned := (inv.aligned.splitAt valid.alignedTarget).splitAt
    (aligned_add valid.alignedTarget valid.alignedSize)
  rw [w.cut] at h₁ aligned
  obtain ⟨m', run, h'⟩ := rangeLoop_window acts w valid h₁
  have same : VMManager.areas { vmaMap := m' } = _ := LaidOut.areas_eq h'
  refine ⟨m₁, m', carved, run, Inv.of_laidOut h' (Aligned.sweep acts ?_), ?_, A, M, B, w, h'⟩
  · rwa [List.reverse_reverse]
  · have free := w.mapped mapped
    rw [info, same, view_sweep_range acts w.laid w.before w.middle w.after
      fun v _ n hn => skipped v n (free n hn), w.view, info]

theorem acts_free : Acts freeAttributes fun _ => ⟨.free, .none, .free, none⟩ where
  base _ := rfl
  size _ := rfl
  backed _ _ := nofun
  info _ _ := rfl

theorem acts_protect (newPerms : VMAPermission) :
    Acts (protectAttributes newPerms) fun i => { i with permissions := newPerms } where
  base _ := rfl
  size _ := rfl
  backed _ h := h
  info _ _ := rfl

theorem acts_change (newState : MemoryState) (newPerms : VMAPermission) :
    Acts (changeAttributes newState newPerms)
      fun i => { i with permissions := newPerms, meminfoState := newState } where
  base _ := rfl
  size _ := rfl
  backed _ h := h
  info _ _ := rfl

theorem exists_free_of_not_mapped (h : ¬ Mapped vs target size) :
    ∃ v ∈ vs, Overlaps v target (target + size) ∧ v.type = .free := by
  unfold Mapped at h
  simp only [not_forall, not_not] at h
  obtain ⟨v, hv, beyond, free⟩ := h
  exact ⟨v, hv, beyond, free⟩

theorem reprotectRange_info (newPerms : VMAPermission) (inv : Inv vm)
    (valid : ValidRange target size) :
    (¬ Mapped vm.areas target size ∧
      ∃ e, reprotectRange vm target size newPerms = .ok (.error e, vm)) ∨
      Mapped vm.areas target size ∧
      ∃ vm', reprotectRange vm target size newPerms = .ok (.ok (), vm') ∧ Inv vm' ∧
        vm'.info = updateOn target (target + size)
          (fun _ i => { i with permissions := newPerms }) vm.info ∧
        Swept (protectAttributes newPerms) target size vm.areas vm'.areas := by
  obtain ⟨m, locked⟩ := vm
  obtain rfl : locked = false := inv.unlocked
  by_cases mapped : Mapped (areas ⟨m, false⟩) target size
  · obtain ⟨m₁, m', carved, run, inv', info', A, M, B, w, h'⟩ :=
      range_info (acts_protect newPerms) inv valid mapped fun v n _ same a => by
        obtain ⟨perms, _⟩ := mergeable_iff.mp same
        have perms : newPerms = n.permissions := perms
        simp only [infoAt, perms]
    refine Or.inr ⟨mapped, ⟨m', false⟩, ?_, inv', info', A, M, B, w, LaidOut.areas_eq h'⟩
    simp only [reprotectRange, assert_pos, ok_bind, carved, valid.targetEnd]
    have run : rangeLoop (reprotectVMA newPerms) _ _ _ _ = _ := run
    rw [run]
    rfl
  · have refused : carveVMARange m target size = _ :=
      carveVMARange_refused inv.laidOut valid (exists_free_of_not_mapped mapped)
    exact Or.inl ⟨mapped, _, by simp only [reprotectRange, assert_pos, ok_bind, refused]; rfl⟩

/-- Every area with an address in the range is in the expected state and has the permissions. -/
def Expected (vs : List VirtualMemoryArea) (target size : Nat) (expectedState : MemoryState)
    (expectedPerms : VMAPermission) : Prop :=
  ∀ v ∈ vs, Overlaps v target (target + size) → v.meminfoState = expectedState ∧
    v.permissions &&& expectedPerms = expectedPerms

theorem changeMemoryState_info (expectedState newState : MemoryState)
    (expectedPerms newPerms : VMAPermission) (inv : Inv vm) (valid : ValidRange target size) :
    (¬ (Mapped vm.areas target size ∧
        Expected vm.areas target size expectedState expectedPerms) ∧
      ∃ e, changeMemoryState vm target size expectedState expectedPerms newState newPerms =
        .ok (.error e, vm)) ∨
      Mapped vm.areas target size ∧ Expected vm.areas target size expectedState expectedPerms ∧
      ∃ vm', changeMemoryState vm target size expectedState expectedPerms newState newPerms =
          .ok (.ok (), vm') ∧ Inv vm' ∧
        vm'.info = updateOn target (target + size)
          (fun _ i => { i with permissions := newPerms, meminfoState := newState }) vm.info ∧
        Swept (changeAttributes newState newPerms) target size vm.areas vm'.areas := by
  obtain ⟨m, locked⟩ := vm
  obtain rfl : locked = false := inv.unlocked
  obtain ⟨k, answer, found, checked, all⟩ := allInRange_overlaps (fun vma =>
    decide (vma.meminfoState = expectedState) &&
      decide (vma.permissions &&& expectedPerms = expectedPerms)) (target + size) inv.laidOut
    valid.inside (Nat.le_add_right _ _)
  cases answer with
  | false =>
    refine Or.inl ⟨fun both => ?_, .invalidAddressState, ?_⟩
    · exact nomatch all.mpr fun v hv beyond => by simpa using both.2 v hv beyond
    · simp only [changeMemoryState, found, ok_bind, valid.targetEnd, checked]
      rfl
  | true =>
    by_cases mapped : Mapped (areas ⟨m, false⟩) target size
    · obtain ⟨m₁, m', carved, run, inv', info', A, M, B, w, h'⟩ :=
        range_info (acts_change newState newPerms) inv valid mapped fun v n _ same a => by
          obtain ⟨perms, state, _⟩ := mergeable_iff.mp same
          have perms : newPerms = n.permissions := perms
          have state : newState = n.meminfoState := state
          simp only [infoAt, perms, state]
      have expected : Expected (areas ⟨m, false⟩) target size expectedState expectedPerms :=
        fun v hv beyond => by simpa using all.mp rfl v hv beyond
      refine Or.inr ⟨mapped, expected, ⟨m', false⟩, ?_, inv', info', A, M, B, w,
        LaidOut.areas_eq h'⟩
      simp only [changeMemoryState, found, ok_bind, valid.targetEnd, checked, carved, run]
      rfl
    · have refused : carveVMARange m target size = _ :=
        carveVMARange_refused inv.laidOut valid (exists_free_of_not_mapped mapped)
      refine Or.inl ⟨fun both => mapped both.1, .invalidAddressState, ?_⟩
      simp only [changeMemoryState, found, ok_bind, valid.targetEnd, checked, refused]
      rfl

theorem freed_whole (w : Window vm.areas target size A M B) (valid : ValidRange target size)
    (h : LaidOut m (sweep freeAttributes (target + size) A.reverse (M ++ B))) :
    ∃ whole, findVMA m target = .ok (some whole.base) ∧ deref m (some whole.base) = .ok whole ∧
      whole.size ≥ size := by
  have pos := valid.nonempty
  obtain ⟨v, M, rfl⟩ : ∃ v M', M = v :: M' := by
    have middle := w.middle
    cases M with
    | nil =>
      have : target = target + size := middle
      omega
    | cons v rest => exact ⟨v, rest, rfl⟩
  have start : v.base = target := w.middle.1
  have laid : Laid 0 (Cursor.mk A.reverse (freeAttributes v) (M ++ B)).areas maxAddress := by
    rw [Cursor.areas, List.reverse_reverse]
    exact w.laid.change acts_free
  have low := (Cursor.merge_covers laid).1
  have merged := Cursor.laid_merge laid
  obtain ⟨type, perms, state⟩ := Cursor.merge_attributes ⟨A.reverse, freeAttributes v, M ++ B⟩
  rw [List.cons_append, sweep_next (by omega)] at h
  generalize Cursor.merge ⟨A.reverse, freeAttributes v, M ++ B⟩ = c at *
  have low : c.here.base ≤ target := by
    rw [← start]
    exact low
  obtain ⟨_, _, tail⟩ := tiles_middle.mp merged.tiles
  obtain ⟨whole, R, swept, base, ends⟩ := sweep_freed (fun _ => ⟨rfl, rfl, rfl⟩) acts_free
    (show Freed c.here from ⟨type, perms, state⟩) tail valid.fits
  rw [swept] at h
  refine ⟨whole, findVMA_at h ⟨?_, ?_⟩, deref_at h, by omega⟩ <;>
    simp only [segment_base, segment_size] <;> omega

theorem unmapRange_info (inv : Inv vm) (valid : ValidRange target size) :
    (¬ Mapped vm.areas target size ∧ ∃ e, unmapRange vm target size = .ok (.error e, vm)) ∨
      Mapped vm.areas target size ∧
      ∃ vm', unmapRange vm target size = .ok (.ok (), vm') ∧ Inv vm' ∧
        vm'.info = updateOn target (target + size) (fun _ _ => ⟨.free, .none, .free, none⟩)
          vm.info ∧ Swept freeAttributes target size vm.areas vm'.areas := by
  obtain ⟨m, locked⟩ := vm
  obtain rfl : locked = false := inv.unlocked
  by_cases mapped : Mapped (areas ⟨m, false⟩) target size
  · obtain ⟨m₁, m', carved, run, inv', info', A, M, B, w, h'⟩ :=
      range_info acts_free inv valid mapped fun v n free same => by
        obtain ⟨_, _, type, _⟩ := mergeable_iff.mp same
        exact False.elim (free type.symm)
    obtain ⟨whole, found, at_whole, enough⟩ := freed_whole w valid h'
    refine Or.inr ⟨mapped, ⟨m', false⟩, ?_, inv', info', A, M, B, w, LaidOut.areas_eq h'⟩
    have run : rangeLoop unmap _ _ _ _ = _ := run
    simp only [unmapRange, assert_pos, ok_bind, carved, valid.targetEnd, run, found, at_whole,
      enough, pure_eq_ok]
  · have refused : carveVMARange m target size = _ :=
      carveVMARange_refused inv.laidOut valid (exists_free_of_not_mapped mapped)
    refine Or.inl ⟨mapped, .invalidAddressState, ?_⟩
    simp only [unmapRange, assert_pos, ok_bind, refused]
    rfl

end

section
variable {vm : VMManager}

theorem area_of_handle (inv : Inv vm) (found : vm.vmaMap.find? vmaHandle = some v) :
    ∃ L R, vm.areas = L ++ v :: R ∧ v.base = vmaHandle := by
  obtain ⟨e, he, rfl⟩ := Option.map_eq_some_iff.mp found
  have key := List.find?_some he
  have mem := List.mem_of_find?_eq_some he
  rw [inv.laidOut.holds.eq] at mem
  obtain ⟨v, hv, rfl⟩ := List.mem_map.mp mem
  obtain ⟨L, R, split⟩ := List.append_of_mem hv
  exact ⟨L, R, split, of_decide_eq_true key⟩

theorem reprotect_info (newPerms : VMAPermission)
    (inv : Inv vm) (found : vm.vmaMap.find? vmaHandle = some v) :
    ∃ handle vm', reprotect vm vmaHandle newPerms = .ok (handle, vm') ∧ Inv vm' ∧
      vm'.info = updateOn v.base (v.base + v.size)
        (fun _ i => { i with permissions := newPerms }) vm.info ∧
      ∃ L R, vm.areas = L ++ v :: R ∧
        vm'.areas = (Cursor.merge ⟨L.reverse, protectAttributes newPerms v, R⟩).areas := by
  obtain ⟨m, locked⟩ := vm
  obtain rfl : locked = false := inv.unlocked
  obtain ⟨L, R, split, rfl⟩ := area_of_handle inv found
  have h : LaidOut m (L.reverse.reverse ++ v :: R) := by
    rw [List.reverse_reverse, ← split]
    exact inv.laidOut
  have acts := acts_protect newPerms
  have changed : Laid 0 (Cursor.mk L.reverse (protectAttributes newPerms v) R).areas maxAddress :=
    h.laid.change acts
  obtain ⟨m', run, h'⟩ := updateAndMerge_at (acts.base v) changed h
  refine ⟨_, ⟨m', false⟩, by simp only [reprotect, reprotectVMA, assert_pos, ok_bind, run]; rfl,
    Inv.of_laidOut h' (Aligned.merge ?_), ?_, L, R, split, LaidOut.areas_eq h'⟩
  · have aligned := inv.aligned
    rw [split] at aligned
    intro w hw
    simp only [Cursor.areas, List.reverse_reverse, List.mem_append, List.mem_cons] at hw
    rcases hw with hw | rfl | hw
    · exact aligned w (by simp [hw])
    · exact aligned v (by simp)
    · exact aligned w (by simp [hw])
  · have same : VMManager.areas ⟨m', false⟩ = _ := LaidOut.areas_eq h'
    rw [info, same, Cursor.view_merge changed, info, split, Cursor.areas]
    rw [List.reverse_reverse] at h ⊢
    exact view_replaced h.laid.tiles rfl rfl fun a _ => rfl

inductive Op.Becomes (vm vm' : VMManager) : Op → Prop where
  | refused (op : Op) (same : vm' = vm) : Becomes vm vm' op
  | mapped (op : Op) {target size : Nat} {memory : MemoryRef} {state : MemoryState}
      {before mid after} (valid : ValidRange target size)
      (carved : Carved vm.areas target size before mid after)
      (areas : vm'.areas = (Cursor.merge ⟨before, mapAttributes memory state mid, after⟩).areas) :
      Becomes vm vm' op
  | unmapped {target size : Nat} (valid : ValidRange target size)
      (mapped : Mapped vm.areas target size)
      (swept : Swept freeAttributes target size vm.areas vm'.areas) :
      Becomes vm vm' (.unmapRange target size)
  | reprotected {vmaHandle : Nat} {newPerms : VMAPermission} {v L R}
      (split : vm.areas = L ++ v :: R)
      (areas : vm'.areas = (Cursor.merge ⟨L.reverse, protectAttributes newPerms v, R⟩).areas) :
      Becomes vm vm' (.reprotect vmaHandle newPerms)
  | rangeReprotected {target size : Nat} {newPerms : VMAPermission}
      (valid : ValidRange target size) (mapped : Mapped vm.areas target size)
      (swept : Swept (protectAttributes newPerms) target size vm.areas vm'.areas) :
      Becomes vm vm' (.reprotectRange target size newPerms)
  | changed {target size : Nat} {expectedState newState : MemoryState}
      {expectedPerms newPerms : VMAPermission} (valid : ValidRange target size)
      (mapped : Mapped vm.areas target size)
      (expected : Expected vm.areas target size expectedState expectedPerms)
      (swept : Swept (changeAttributes newState newPerms) target size vm.areas vm'.areas) :
      Becomes vm vm'
        (.changeMemoryState target size expectedState expectedPerms newState newPerms)

def Op.Succeeds (vm : VMManager) : Op → Prop
  | mapBackingMemory target _ size _ => FreeRoom vm.areas target size
  | mapBackingMemoryToBase base regionSize _ size _ =>
    ∃ v, firstReaching vm base size = some v ∧
      add32 (max base v.base) size ≤ add32 base regionSize ∧
      FreeRoom vm.areas (max base v.base) size
  | unmapRange target size => Mapped vm.areas target size
  | reprotect _ _ => True
  | reprotectRange target size _ => Mapped vm.areas target size
  | changeMemoryState target size expectedState expectedPerms _ _ =>
    Mapped vm.areas target size ∧ Expected vm.areas target size expectedState expectedPerms

/-- The call has changed the address map as the abstract operation does, or it has reported an
error and changed nothing. -/
structure Op.Refined (vm : VMManager) (op : Op) (reply : ResultVal Nat) (vm' : VMManager) :
    Prop where
  inv : Inv vm'
  info : vm'.info = op.expected vm reply vm.info
  becomes : op.Becomes vm vm'
  succeeds : (∃ value, reply = .ok value) ↔ op.Succeeds vm

theorem Op.Refined.refused {e : ResultCode} (inv : Inv vm) (fails : ¬ op.Succeeds vm) :
    op.Refined vm (.error e) vm :=
  ⟨inv, rfl, .refused _ rfl, ⟨nofun, fun succeeds => absurd succeeds fails⟩⟩

theorem run_becomes (inv : Inv vm) (valid : op.Valid vm) (finds : op.Finds vm) :
    ∃ reply vm', op.run vm = .ok (reply, vm') ∧ op.Refined vm reply vm' := by
  cases op with
  | mapBackingMemory target memory size state =>
    obtain ⟨range, block⟩ := valid
    by_cases room : FreeRoom vm.areas target size
    · obtain ⟨_, _, _, vm', run, inv', info', carved, _, areas⟩ :=
        mapBackingMemory_info state inv range block room
      exact ⟨_, vm', run, inv', info', .mapped _ range carved areas, fun _ => room,
        fun _ => ⟨_, rfl⟩⟩
    · have fits := range.fits
      have pos := range.nonempty
      have top : maxAddress = 0x40000000 := rfl
      have refused := mapBackingMemory_refused state inv.unlocked inv.laidOut range.alignedTarget
        range.alignedSize (by omega) (by omega) block.1 room
      exact ⟨_, vm, refused, .refused inv room⟩
  | mapBackingMemoryToBase base regionSize memory size state =>
    obtain ⟨v, found⟩ := finds
    rcases mapBackingMemoryToBase_at inv valid found with
      ⟨fails, e, run⟩ | ⟨within, range, room, handle, vm', mapped, run⟩
    · refine ⟨_, vm, run, .refused inv ?_⟩
      rintro ⟨w, known, fits⟩
      cases known.symm.trans found
      exact fails fits
    · obtain ⟨_, _, _, vm'', mapped', inv', info', carved, _, areas⟩ :=
        mapBackingMemory_info state inv range valid.2.2.2.2 room
      cases mapped.symm.trans mapped'
      exact ⟨_, vm', run, inv', info', .mapped _ range carved areas,
        fun _ => ⟨v, found, within, room⟩, fun _ => ⟨_, rfl⟩⟩
  | unmapRange target size =>
    rcases unmapRange_info inv valid with
      ⟨fails, e, run⟩ | ⟨mapped, vm', run, inv', info', swept⟩
    · exact ⟨.error e, vm, by simp only [Op.run, run]; rfl, .refused inv fails⟩
    · exact ⟨.ok 0, vm', by simp only [Op.run, run]; rfl, inv', info',
        .unmapped valid mapped swept, fun _ => mapped, fun _ => ⟨0, rfl⟩⟩
  | reprotect vmaHandle newPerms =>
    obtain ⟨v, found⟩ := valid
    obtain ⟨handle, vm', run, inv', info', L, R, split, areas⟩ :=
      reprotect_info newPerms inv found
    refine ⟨.ok handle, vm', by simp only [Op.run, run]; rfl, inv', ?_, .reprotected split areas,
      fun _ => True.intro, fun _ => ⟨handle, rfl⟩⟩
    rw [info']
    simp only [Op.expected, Op.range, found]
    rfl
  | reprotectRange target size newPerms =>
    rcases reprotectRange_info newPerms inv valid with
      ⟨fails, e, run⟩ | ⟨mapped, vm', run, inv', info', swept⟩
    · exact ⟨.error e, vm, by simp only [Op.run, run]; rfl, .refused inv fails⟩
    · exact ⟨.ok 0, vm', by simp only [Op.run, run]; rfl, inv', info',
        .rangeReprotected valid mapped swept, fun _ => mapped, fun _ => ⟨0, rfl⟩⟩
  | changeMemoryState target size expectedState expectedPerms newState newPerms =>
    rcases changeMemoryState_info expectedState newState expectedPerms newPerms inv valid with
      ⟨fails, e, run⟩ | ⟨mapped, expected, vm', run, inv', info', swept⟩
    · exact ⟨.error e, vm, by simp only [Op.run, run]; rfl, .refused inv fails⟩
    · exact ⟨.ok 0, vm', by simp only [Op.run, run]; rfl, inv', info',
        .changed valid mapped expected swept, fun _ => ⟨mapped, expected⟩, fun _ => ⟨0, rfl⟩⟩

theorem finds_of_run {reply : ResultVal Nat} (inv : Inv vm) (run : op.run vm = .ok (reply, vm')) :
    op.Finds vm := by
  cases op with
  | mapBackingMemoryToBase base regionSize memory size state =>
    cases found : firstReaching vm base size with
    | some v => exact ⟨v, found⟩
    | none => cases (mapBackingMemoryToBase_none inv.unlocked found).symm.trans run
  | mapBackingMemory | unmapRange | reprotect | reprotectRange | changeMemoryState =>
    exact True.intro

theorem refined_of_run {reply : ResultVal Nat} (inv : Inv vm)
    (valid : op.Valid vm) (run : op.run vm = .ok (reply, vm')) : op.Refined vm reply vm' := by
  obtain ⟨_, _, run', refined⟩ := run_becomes inv valid (finds_of_run inv run)
  cases run.symm.trans run'
  exact refined

theorem reset_inv (run : vm.reset = .ok vm') : Inv vm' := by
  obtain ⟨m, locked⟩ := vm
  obtain ⟨_, unlocked, run⟩ := bind_eq_ok.mp run
  obtain rfl : locked = false := assert_eq_ok.mp unlocked
  cases run
  have whole : Laid 0 [({ size := maxAddress } : VirtualMemoryArea)] maxAddress := by
    refine ⟨⟨rfl, by decide, rfl⟩, ?_⟩
    intro v hv
    cases List.mem_singleton.mp hv
    exact nofun
  have laidOut : LaidOut (Map.empty.insert 0 { size := maxAddress }) [{ size := maxAddress }] :=
    ⟨rfl, whole⟩
  refine Inv.of_laidOut laidOut ?_
  intro v hv
  cases List.mem_singleton.mp hv
  rfl

theorem Reachable.inv (valid : ∀ vm op, allowed vm op → op.Valid vm)
    (h : Reachable allowed vm) : Inv vm := by
  induction h with
  | reset run => exact reset_inv run
  | call _ may run ih =>
    exact (refined_of_run ih (valid _ _ may) run).inv

def runAll (vm : VMManager) : List Op → Exec VMManager
  | [] => .ok vm
  | op :: rest => do
      let (_, vm) ← op.run vm
      runAll vm rest

theorem Reachable.runAll (h : Reachable allowed vm) (may : ∀ op ∈ ops, ∀ vm, allowed vm op)
    (run : vm.runAll ops = .ok vm') : Reachable allowed vm' := by
  induction ops generalizing vm with
  | nil =>
    cases run
    exact h
  | cons op rest ih =>
    obtain ⟨⟨reply, vm₁⟩, first, later⟩ := bind_eq_ok.mp run
    exact ih (.call h (may op List.mem_cons_self vm) first)
      (fun op hop => may op (List.mem_cons_of_mem _ hop)) later

theorem runAll_total (inv : Inv vm) (valid : ∀ op ∈ ops, ∀ vm, op.Valid vm)
    (finds : ∀ op ∈ ops, ∀ vm, op.Finds vm) : ∃ vm', vm.runAll ops = .ok vm' := by
  induction ops generalizing vm with
  | nil => exact ⟨vm, rfl⟩
  | cons op rest ih =>
    obtain ⟨reply, vm₁, run, refined⟩ := run_becomes inv (valid op List.mem_cons_self vm)
      (finds op List.mem_cons_self vm)
    obtain ⟨vm', later⟩ := ih refined.inv (fun op hop => valid op (List.mem_cons_of_mem _ hop))
      fun op hop => finds op (List.mem_cons_of_mem _ hop)
    exact ⟨vm', by simp only [VMManager.runAll, run, ok_bind, later]⟩

/-- In every reachable manager the areas tile the address space. A valid call returns and acts on
the address map as the abstract operation does just if it finds an area to search in. -/
theorem refines_address_map (h : Reachable (fun vm op => op.Valid vm) vm) :
    Exact vm ∧ ∀ op : Op, op.Valid vm → ((∃ reply vm', op.run vm = .ok (reply, vm') ∧ Exact vm' ∧
        vm'.info = op.expected vm reply vm.info ∧
        ((∃ value, reply = .ok value) ↔ op.Succeeds vm)) ↔ op.Finds vm) := by
  have inv := h.inv fun _ _ valid => valid
  refine ⟨inv.exact, ?_⟩
  intro op valid
  constructor
  · rintro ⟨reply, vm', run, _⟩
    exact finds_of_run inv run
  · intro finds
    obtain ⟨reply, vm', run, refined⟩ := run_becomes inv valid finds
    exact ⟨reply, vm', run, refined.inv.exact, refined.info, refined.succeeds⟩

def fresh : VMManager := ⟨Map.empty.insert 0 { size := maxAddress }, false⟩

theorem fresh_reset : reset ⟨Map.empty, false⟩ = .ok fresh := rfl

/-- A page is mapped at the end of the address space. -/
def topPaged : VMManager where
  isLocked := false
  vmaMap :=
    { entries :=
        [(0, { base := 0, size := 0x3FFFF000 }),
          (0x3FFFF000, mapAttributes ⟨some ⟨0, 0x1000⟩, 0⟩ .«private»
            { base := 0x3FFFF000, size := 0x1000 })]
      sorted := by decide }

theorem topPaged_reachable : Reachable (fun vm op => op.Valid vm) topPaged :=
  @Reachable.call _ fresh topPaged
    (.mapBackingMemory 0x3FFFF000 ⟨some ⟨0, 0x1000⟩, 0⟩ 0x1000 .«private») (.ok 0x3FFFF000)
    (.reset fresh_reset) ⟨⟨rfl, rfl, by decide, by decide⟩, nofun, by decide⟩ rfl

/-- A second page goes to the first free address from 0x3FFFD000 on. -/
theorem refines_address_map_mapped : ∃ vm,
    Op.run topPaged (.mapBackingMemoryToBase 0x3FFFD000 0x2000 ⟨some ⟨0, 0x1000⟩, 0⟩ 0x1000
      .shared) = .ok (.ok 0x3FFFD000, vm) ∧ Exact vm ∧
    vm.info = Op.expected topPaged (.mapBackingMemoryToBase 0x3FFFD000 0x2000
      ⟨some ⟨0, 0x1000⟩, 0⟩ 0x1000 .shared) (.ok 0x3FFFD000) topPaged.info := by
  obtain ⟨reply, vm, run, exact', info, _⟩ :=
    ((refines_address_map topPaged_reachable).2 (.mapBackingMemoryToBase 0x3FFFD000 0x2000
      ⟨some ⟨0, 0x1000⟩, 0⟩ 0x1000 .shared) ⟨rfl, rfl, by decide, by decide, nofun, by decide⟩).mpr
      ⟨_, rfl⟩
  have answer : (Op.run topPaged (.mapBackingMemoryToBase 0x3FFFD000 0x2000
      ⟨some ⟨0, 0x1000⟩, 0⟩ 0x1000 .shared)).map Prod.fst = .ok (.ok 0x3FFFD000) := rfl
  rw [run] at answer
  cases answer
  exact ⟨vm, run, exact', info⟩

/-- No free area ends behind the last page, and the search reads past the map. -/
theorem refines_address_map_fails : ¬ ∀ vm, Reachable (fun vm op => op.Valid vm) vm →
    Exact vm ∧ ∀ op : Op, op.Valid vm → ∃ reply vm', op.run vm = .ok (reply, vm') ∧ Exact vm' ∧
      vm'.info = op.expected vm reply vm.info := by
  intro all
  obtain ⟨reply, vm', run, _⟩ := (all topPaged topPaged_reachable).2
    (.mapBackingMemoryToBase 0x3FFFF000 0x1000 ⟨some ⟨0, 0x1000⟩, 0⟩ 0x1000 .shared)
    ⟨rfl, rfl, by decide, by decide, nofun, by decide⟩
  have undefined : Op.run topPaged (.mapBackingMemoryToBase 0x3FFFF000 0x1000
      ⟨some ⟨0, 0x1000⟩, 0⟩ 0x1000 .shared) = .error .undefinedBehaviour := rfl
  cases undefined.symm.trans run

end

end VMManager
end EmuThreeDS
