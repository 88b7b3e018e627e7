import EmuThreeDS.Kernel.MapFrame

/-!
# `Map` and `Unmap` as a pair

`Map` changes nothing when it fails. `Unmap` frees the target before it looks at the source, so it
can fail half-way; after the `Map` it belongs to it cannot, and it restores the address map if
`Map` left the neighbours of the target alone.
-/
namespace EmuThreeDS
open Tiling OrderedMap Layout VirtualMemoryArea

namespace VMManager

variable {vm vm' : VMManager} {target size : Nat}

def Holds (vm : VMManager) (target size : Nat) (P : AddressInfo → Prop) : Prop :=
  ∀ a, target ≤ a → a < target + size → ∃ i, vm.info a = some i ∧ P i

theorem Holds.area {P : AddressInfo → Prop} (inv : Inv vm) (pos : 0 < size)
    (holds : Holds vm target size P) {v : VirtualMemoryArea} (hv : v ∈ vm.areas)
    (overlaps : Overlaps v target (target + size)) : ∃ a, P (v.infoAt a) := by
  obtain ⟨below, above⟩ := overlaps
  have bounds := (inv.laidOut.laid.tiles.bounds hv).2.1
  simp only [segment_size] at bounds
  obtain ⟨i, here, property⟩ := holds (max v.base target) (by omega) (by omega)
  have covers : Covers v (max v.base target) := by
    unfold Covers
    simp only [segment_base, segment_size]
    omega
  rw [info, inv.laidOut.laid.tiles.view_mem hv covers] at here
  cases here
  exact ⟨_, property⟩

theorem Holds.mapped (inv : Inv vm) (pos : 0 < size)
    (holds : Holds vm target size fun i => i.type ≠ .free) : Mapped vm.areas target size := by
  intro v hv overlaps
  obtain ⟨_, taken⟩ := holds.area inv pos hv overlaps
  exact taken

theorem holds_of_areas {P : AddressInfo → Prop} (inv : Inv vm) (valid : ValidRange target size)
    (all : ∀ v ∈ vm.areas, Overlaps v target (target + size) → ∀ a, P (v.infoAt a)) :
    Holds vm target size P := by
  intro a low high
  have fits := valid.fits
  obtain ⟨L, v, R, split, covers⟩ := inv.laidOut.laid.tiles.exists_covers (Nat.zero_le a)
    (show a < maxAddress by omega)
  have hv : v ∈ vm.areas := by
    rw [split]
    simp
  obtain ⟨below, above⟩ : v.base ≤ a ∧ a < v.base + v.size := covers
  exact ⟨_, inv.laidOut.laid.tiles.view_mem hv ⟨below, above⟩,
    all v hv ⟨by omega, by omega⟩ a⟩

theorem Mapped.holds (inv : Inv vm) (valid : ValidRange target size)
    (mapped : Mapped vm.areas target size) : Holds vm target size fun i => i.type ≠ .free :=
  holds_of_areas inv valid fun v hv overlaps _ => mapped v hv overlaps

/-- The check of `ChangeMemoryState`, address by address. -/
def Accepts (expectedState : MemoryState) (expectedPerms : VMAPermission) (i : AddressInfo) :
    Prop :=
  i.type ≠ .free ∧ i.meminfoState = expectedState ∧ i.permissions &&& expectedPerms = expectedPerms

variable {expectedState newState : MemoryState} {expectedPerms newPerms : VMAPermission}
  {i : AddressInfo}

theorem Changed.holds (inv : Inv vm)
    (h : Changed vm vm' target size expectedState expectedPerms newState newPerms) :
    Holds vm target size (Accepts expectedState expectedPerms) :=
  holds_of_areas inv h.valid fun v hv overlaps _ =>
    ⟨h.mapped v hv overlaps, h.expected v hv overlaps⟩

theorem changeMemoryState_accepts (inv : Inv vm) (valid : ValidRange target size)
    (holds : Holds vm target size (Accepts expectedState expectedPerms)) :
    ∃ vm', changeMemoryState vm target size expectedState expectedPerms newState newPerms =
        .ok (.ok (), vm') ∧
      Changed vm vm' target size expectedState expectedPerms newState newPerms := by
  have pos := valid.nonempty
  have mapped : Mapped vm.areas target size := fun v hv overlaps =>
    (holds.area inv pos hv overlaps).choose_spec.1
  have expected : Expected vm.areas target size expectedState expectedPerms :=
    fun v hv overlaps => (holds.area inv pos hv overlaps).choose_spec.2
  rcases changeMemoryState_info expectedState newState expectedPerms newPerms inv valid with
    ⟨fails, _⟩ | ⟨_, _, vm', run, _⟩
  · exact absurd ⟨mapped, expected⟩ fails
  · have fits := valid.fits
    have top : maxAddress = 0x40000000 := rfl
    rcases changeMemoryState_ok inv (by omega) (by omega) run with ⟨⟨_, refused⟩, _⟩ | ⟨_, changed⟩
    · cases refused
    · exact ⟨vm', run, changed⟩

theorem Changed.inside (inv : Inv vm)
    (h : Changed vm vm' target size expectedState expectedPerms newState newPerms) {a : Nat}
    (low : target ≤ a) (high : a < target + size) : ∃ i, vm.info a = some i ∧ i.type ≠ .free ∧
      i.meminfoState = expectedState ∧
      vm'.info a = some { i with permissions := newPerms, meminfoState := newState } := by
  obtain ⟨i, here, taken, state, _⟩ := h.holds inv a low high
  refine ⟨i, here, taken, state, ?_⟩
  rw [h.info, updateOn_in ⟨low, high⟩, here]
  rfl

theorem Changed.memory (managed : Managed vm)
    (h : Changed vm vm' target size expectedState expectedPerms newState newPerms) {a : Nat}
    (low : target ≤ a) (high : a < target + size)
    (here : vm'.info a = some i) : i.type = .backingMemory := by
  obtain ⟨j, before, taken, _, after⟩ := h.inside managed.inv low high
  cases here.symm.trans after
  rcases managed.plain a j before with memory | rfl
  · exact memory
  · exact absurd rfl taken

end VMManager

namespace Process
open VMManager

variable {p p' : Process} {target source size : Nat} {perms : VMAPermission} {privileged : Bool}

def Atomic (p : Process) (call : Exec (ResultVal Unit × Process)) : Prop :=
  ∀ e p', call = .ok (.error e, p') → p'.vmManager.info = p.vmManager.info

/-- `Unmap` is given a target that is mapped, and a source that is not the other half of a
`Map` throughout. -/
def Unpaired (p : Process) (target source size : Nat) (privileged : Bool) : Prop :=
  validSource source size privileged = true ∧ overlapping target source size = false ∧
    Holds p.vmManager target size (fun i => i.type ≠ .free) ∧
    ¬ Holds p.vmManager source size (Accepts (sourceState privileged) .none)

/-- `Map` gives up before it changes anything: what passed the check of `ChangeMemoryState` is
memory, so there are blocks to map. -/
theorem map_atomic (managed : Managed p.vmManager) (validTarget : ValidRange target size)
    (validSource : ValidRange source size) :
    Atomic p (p.map target source size perms privileged) := by
  intro e p' run
  have top : maxAddress = 0x40000000 := rfl
  have fits := validTarget.fits
  have fits' := validSource.fits
  obtain ⟨vm, rfl, outcome⟩ := map_ok managed.inv (by omega) (by omega) (by omega) run
  cases outcome with
  | refused _ => rfl
  | marked _ changed some_other =>
    obtain ⟨a, i, low, high, here, other⟩ := some_other
    exact absurd (changed.memory managed low high here) other

theorem changeMemoryState_atomic (inv : p.vmManager.Inv)
    (valid : ValidRange source size) : Atomic p (do
      let (result, vm) ← p.vmManager.changeMemoryState source size expectedState expectedPerms
        newState newPerms
      return (result, { p with vmManager := vm })) := by
  intro e p' run
  obtain ⟨⟨result, vm⟩, change, run⟩ := bind_eq_ok.mp run
  cases run
  rcases changeMemoryState_info expectedState newState expectedPerms newPerms inv valid with
    ⟨_, _, run⟩ | ⟨_, _, _, run, _⟩
  · cases change.symm.trans run
    rfl
  · cases change.symm.trans run

theorem unmap_apart (guest : validSource source size privileged = true)
    (apart : overlapping target source size = false) :
    p.unmap target source size perms privileged = (do
      let (result, vm) ← p.vmManager.unmapRange target size
      match result with
      | .error e => return (.error e, { p with vmManager := vm })
      | .ok () =>
        let (result, vm) ← vm.changeMemoryState source size (sourceState privileged) .none
          .«private» perms
        return (result, { p with vmManager := vm })) := by
  unfold unmap
  rw [guest, apart]
  rfl

theorem unmap_refuses (inv : p.vmManager.Inv) (valid : ValidRange source size)
    (together : ¬ (validSource source size privileged = true ∧
      overlapping target source size = false)) :
    Atomic p (p.unmap target source size perms privileged) := by
  intro e p' run
  unfold unmap at run
  by_cases invalid : validSource source size privileged = false
  · rw [if_pos invalid] at run
    cases run
    rfl
  rw [if_neg invalid] at run
  rw [Bool.not_eq_false] at invalid
  have overlap : overlapping target source size = true :=
    Bool.not_eq_false _ ▸ fun apart => together ⟨invalid, apart⟩
  split_ifs at run
  · exact changeMemoryState_atomic inv valid e p' run
  · cases run
    rfl
  · cases run
    rfl

theorem disjoint_of_apart (apart : overlapping target source size = false) {a : Nat}
    (low : source ≤ a) (high : a < source + size) : ¬ (target ≤ a ∧ a < target + size) := by
  obtain ⟨first, second⟩ := Bool.or_eq_false_iff.mp apart
  have first := of_decide_eq_false first
  have second := of_decide_eq_false second
  unfold sub32 at first second
  omega

theorem holds_unmapped {vm vm' : VMManager} {P : AddressInfo → Prop}
    (unmapped : Unmapped vm vm' target size)
    (disjoint : ∀ a, source ≤ a → a < source + size → ¬ (target ≤ a ∧ a < target + size)) :
    Holds vm' source size P ↔ Holds vm source size P := by
  refine forall_congr' fun a => forall_congr' fun low => forall_congr' fun high => ?_
  rw [unmapped.info, updateOn_out (disjoint a low high)]

theorem unmap_atomic_iff (inv : p.vmManager.Inv) (validTarget : ValidRange target size)
    (validSource : ValidRange source size) :
    Atomic p (p.unmap target source size perms privileged) ↔
      ¬ Unpaired p target source size privileged := by
  by_cases guards : Process.validSource source size privileged = true ∧
      overlapping target source size = false
  swap
  · exact iff_of_true (unmap_refuses inv validSource guards)
      fun unpaired => guards ⟨unpaired.1, unpaired.2.1⟩
  obtain ⟨guest, apart⟩ := guards
  have pos := validTarget.nonempty
  rcases unmapRange_info inv validTarget with
    ⟨unmapped, e, run⟩ | ⟨mapped, vm, run, inv', info, _⟩
  · refine iff_of_true ?_ ?_
    · intro e' p' run'
      rw [unmap_apart guest apart, run] at run'
      cases run'
      rfl
    · rintro ⟨_, _, taken, _⟩
      exact unmapped (taken.mapped inv pos)
  · have unmapped : Unmapped p.vmManager vm target size := ⟨inv', validTarget, mapped, info⟩
    have source_kept := @holds_unmapped target source size _ _
      (Accepts (sourceState privileged) .none) unmapped
      fun a => disjoint_of_apart apart
    by_cases paired : Holds p.vmManager source size (Accepts (sourceState privileged) .none)
    · refine iff_of_true ?_ fun unpaired => unpaired.2.2.2 paired
      intro e' p' run'
      obtain ⟨_, change, _⟩ := @changeMemoryState_accepts _ _ _ _ .«private» _ perms inv'
        validSource (source_kept.mpr paired)
      rw [unmap_apart guest apart, run] at run'
      simp only [change, ok_bind] at run'
      cases run'
    · refine iff_of_false ?_
        (not_not.mpr ⟨guest, apart, mapped.holds inv validTarget, paired⟩)
      · intro atomic
        rcases changeMemoryState_info (sourceState privileged) .«private» .none perms inv'
          validSource with ⟨_, e, change⟩ | ⟨mapped', expected, _⟩
        · have kept := atomic e { p with vmManager := vm } (by
            rw [unmap_apart guest apart, run]
            simp only [change, ok_bind, pure_eq_ok])
          obtain ⟨i, here, taken⟩ := mapped.holds inv validTarget target (Nat.le_refl _) (by omega)
          have kept := congrFun kept target
          rw [info, updateOn_in ⟨Nat.le_refl _, by omega⟩, here] at kept
          exact taken (congrArg AddressInfo.type (Option.some.inj kept)).symm
        · exact paired (source_kept.mp (holds_of_areas inv' validSource fun v hv overlaps _ =>
            ⟨mapped' v hv overlaps, expected v hv overlaps⟩))

/-- `Map` is atomic, and `Unmap` just where its two ranges belong together or the target is
refused. -/
theorem map_unmap_atomic (managed : Managed p.vmManager) (validTarget : ValidRange target size)
    (validSource : ValidRange source size) : Atomic p (p.map target source size perms privileged) ∧
      (Atomic p (p.unmap target source size perms privileged) ↔
        ¬ Unpaired p target source size privileged) :=
  ⟨map_atomic managed validTarget validSource,
    unmap_atomic_iff managed.inv validTarget validSource⟩

def after {α : Type} (p : Process) : Exec (ResultVal α × Process) → Process
  | .ok (_, p') => p'
  | .error _ => p

def succeeds {α : Type} : Exec (ResultVal α × Process) → Bool
  | .ok (.ok _, _) => true
  | _ => false

theorem after_of_succeeds {α : Type} {call : Exec (ResultVal α × Process)}
    (h : succeeds call = true) : ∃ a, call = .ok (.ok a, p.after call) := by
  rcases call with _ | ⟨_ | a, p'⟩
  · cases h
  · cases h
  · exact ⟨a, rfl⟩

def heapPages : MapCall := .heapAllocate 0x08000000 0x2000 .readWrite .«private» false

def withHeap : Process := started.after (heapPages.run started)

theorem withHeap_reachable : withHeap.Reachable [] ∧ Managed withHeap.vmManager := by
  have given : heapPages.Given [] := ⟨by decide, by decide⟩
  obtain ⟨_, run⟩ : ∃ v, heapPages.run started = .ok (.ok v, withHeap) :=
    after_of_succeeds (by decide +kernel)
  obtain ⟨sound, ok⟩ := started_reachable.sound
  exact ⟨started_reachable.map given run, (sound.map ok given run).2 managed_fresh⟩

theorem map_unmap_atomic_withHeap :
    Atomic withHeap (withHeap.map 0x08001000 0x08000000 0x1000 .readWrite false) ∧
      (Atomic withHeap (withHeap.unmap 0x08001000 0x08000000 0x1000 .readWrite false) ↔
        ¬ Unpaired withHeap 0x08001000 0x08000000 0x1000 false) :=
  map_unmap_atomic withHeap_reachable.2 ⟨rfl, rfl, by decide, by decide⟩
    ⟨rfl, rfl, by decide, by decide⟩

/-- Neither page is mapped to the other: `Unmap` frees the second and then refuses the first. -/
theorem unmap_atomic_fails : ∃ p, p.Reachable [] ∧ Managed p.vmManager ∧
    ValidRange 0x08001000 0x1000 ∧ ValidRange 0x08000000 0x1000 ∧
    ¬ Atomic p (p.unmap 0x08001000 0x08000000 0x1000 .readWrite false) := by
  refine ⟨withHeap, withHeap_reachable.1, withHeap_reachable.2, ⟨rfl, rfl, by decide, by decide⟩,
    ⟨rfl, rfl, by decide, by decide⟩, fun atomic => ?_⟩
  have kept := congrFun (atomic .invalidAddressState _ rfl) 0x08001000
  exact absurd kept (by decide)

/-- A `Map` that succeeds was given a source it may use, and two ranges that are apart or one
range of a privileged caller. -/
theorem map_guards {u : Unit} (run : p.map target source size perms privileged = .ok (.ok u, p')) :
    validSource source size privileged = true ∧
      (overlapping target source size = true → privileged = true ∧ source = target) := by
  unfold map at run
  by_cases invalid : validSource source size privileged = false
  · rw [if_pos invalid] at run
    cases run
  rw [if_neg invalid] at run
  rw [Bool.not_eq_false] at invalid
  refine ⟨invalid, fun overlap => ?_⟩
  rw [if_pos overlap] at run
  split_ifs at run with guest same
  · exact ⟨guest, same⟩
  · cases run
  · cases run

theorem overlapping_self (pos : 0 < size) : overlapping source source size = true := by
  have zero : sub32 source source = 0 := by
    unfold sub32
    omega
  simp [overlapping, zero, pos]

theorem unmarked {q : VMAPermission} (perms : i.permissions = .readWrite)
    (state : i.meminfoState = .«private») {s : MemoryState} {r : VMAPermission} :
    { AddressInfo.protect q { i with permissions := r, meminfoState := s } with
      permissions := .readWrite, meminfoState := .«private» } = i := by
  obtain ⟨type, _, _, backing⟩ := i
  cases perms
  cases state
  rfl

theorem unmap_inPlace (inv : p.vmManager.Inv) (guest : validSource source size privileged = true)
    (privilege : privileged = true) {vm : VMManager}
    (changed : Changed p.vmManager vm source size .«private» .readWrite .aliasCode perms)
    (writable : Holds p.vmManager source size fun i => i.permissions = .readWrite) :
    ∃ p'', unmap { p with vmManager := vm } source source size .readWrite privileged =
      .ok (.ok (), p'') ∧ p''.vmManager.info = p.vmManager.info := by
  have valid := changed.valid
  have accepted : Holds vm source size (Accepts .aliasCode .none) := by
    intro a low high
    obtain ⟨i, _, taken, _, after⟩ := changed.inside inv low high
    exact ⟨_, after, taken, rfl, BitVec.and_zero⟩
  obtain ⟨vm', change, changed'⟩ := @changeMemoryState_accepts _ _ _ _ .«private» _ .readWrite
    changed.inv valid accepted
  refine ⟨{ p with vmManager := vm' }, ?_, ?_⟩
  · unfold unmap
    rw [guest, overlapping_self valid.nonempty, privilege]
    simp only [reduceCtorEq, if_true, if_false, change, ok_bind, pure_eq_ok]
  · funext a
    have info : vm'.info = _ := changed'.info
    by_cases on : source ≤ a ∧ a < source + size
    · obtain ⟨i, here, _, state, after⟩ := changed.inside inv on.1 on.2
      obtain ⟨j, here', writable⟩ := writable a on.1 on.2
      cases here.symm.trans here'
      rw [info, updateOn_in on, after, here]
      exact congrArg some (unmarked (q := perms) writable state)
    · rw [info, updateOn_out on, changed.info, updateOn_out on]

theorem blocksValue_type {state : MemoryState} {blocks : List (MemoryRef × Nat)} {a : Nat} :
    (blocksValue state perms target blocks a).type = .backingMemory := by
  induction blocks generalizing target with
  | nil => rfl
  | cons b rest ih =>
    rw [blocksValue]
    split_ifs
    · rfl
    · exact ih

/-- What `Unmap` leaves of a `Map` with a source of its own: the target is free, the source is as
it was before, and the rest is as `Map` left it. -/
structure Released (p p' p'' : Process) (target source size : Nat) : Prop where
  freed : ∀ a, target ≤ a → a < target + size →
    p''.vmManager.info a = some ⟨.free, .none, .free, none⟩
  returned : ∀ a, source ≤ a → a < source + size → p''.vmManager.info a = p.vmManager.info a
  rest : ∀ a, ¬ (target ≤ a ∧ a < target + size) → ¬ (source ≤ a ∧ a < source + size) →
    p''.vmManager.info a = p'.vmManager.info a

section

variable {vm₁ vm : VMManager} {list : List (MemoryRef × Nat)}

theorem disjoint_of_maps (inv : p.vmManager.Inv)
    (changed : Changed p.vmManager vm₁ source size .«private» .readWrite (sourceState privileged)
      (sourcePerm privileged))
    (maps : MapsBlocks vm₁ vm target size list (targetState privileged) perms) {a : Nat}
    (low : source ≤ a) (high : a < source + size) : ¬ (target ≤ a ∧ a < target + size) := by
  rintro ⟨low', high'⟩
  obtain ⟨i, free, type⟩ := maps.free a low' high'
  obtain ⟨j, _, taken, _, after⟩ := changed.inside inv low high
  cases free.symm.trans after
  exact taken type

theorem unmap_mapped (inv : p.vmManager.Inv) (guest : validSource source size privileged = true)
    (apart : overlapping target source size = false)
    (changed : Changed p.vmManager vm₁ source size .«private» .readWrite (sourceState privileged)
      (sourcePerm privileged))
    (maps : MapsBlocks vm₁ vm target size list (targetState privileged) perms)
    (writable : Holds p.vmManager source size fun i => i.permissions = .readWrite) :
    ∃ p'', unmap { p with vmManager := vm } target source size .readWrite privileged =
      .ok (.ok (), p'') ∧ Released p { p with vmManager := vm } p'' target source size := by
  have disjoint := fun a => @disjoint_of_maps p target source size perms privileged _ _ _ inv
    changed maps a
  have taken : Holds vm target size fun i => i.type ≠ .free := by
    intro a low high
    refine ⟨_, maps.effect.inside a low high, fun free => ?_⟩
    exact nomatch blocksValue_type.symm.trans free
  have valid := maps.valid
  obtain ⟨vm₂, release⟩ := unmapRange_frees maps.inv valid (taken.mapped maps.inv valid.nonempty)
  have top : maxAddress = 0x40000000 := rfl
  have fits := valid.fits
  obtain ⟨⟨_, error⟩, _⟩ | ⟨_, unmapped⟩ :=
    unmapRange_ok maps.inv (by omega) (by omega) release
  · cases error
  -- the mark of the source is still there: mapping changes permissions around its range at most
  have marked : ∀ a, source ≤ a → a < source + size → ∃ i q, p.vmManager.info a = some i ∧
      i.type ≠ .free ∧ i.meminfoState = .«private» ∧ vm₂.info a = some (AddressInfo.protect q
        { i with permissions := sourcePerm privileged, meminfoState := sourceState privileged }) := by
    intro a low high
    obtain ⟨i, here, taken, state, after⟩ := changed.inside inv low high
    obtain ⟨q, frame⟩ := maps.effect.frame a (disjoint a low high)
    refine ⟨i, q, here, taken, state, ?_⟩
    rw [unmapped.info, updateOn_out (disjoint a low high), frame, after]
    rfl
  have accepted : Holds vm₂ source size (Accepts (sourceState privileged) .none) := by
    intro a low high
    obtain ⟨i, q, _, taken, _, after⟩ := marked a low high
    exact ⟨_, after, taken, rfl, BitVec.and_zero⟩
  obtain ⟨vm₃, change, changed'⟩ := @changeMemoryState_accepts _ _ _ _ .«private» _ .readWrite
    unmapped.inv changed.valid accepted
  refine ⟨{ p with vmManager := vm₃ }, ?_, ?_, ?_, ?_⟩
  · rw [unmap_apart guest apart]
    simp only [release, ok_bind, change, pure_eq_ok]
  · intro a low high
    have outside : ¬ (source ≤ a ∧ a < source + size) := fun on =>
      disjoint a on.1 on.2 ⟨low, high⟩
    obtain ⟨i, here, _⟩ := taken a low high
    rw [changed'.info, updateOn_out outside, unmapped.info, updateOn_in ⟨low, high⟩, here]
    rfl
  · intro a low high
    obtain ⟨i, q, here, _, state, after⟩ := marked a low high
    obtain ⟨j, here', writable⟩ := writable a low high
    cases here.symm.trans here'
    rw [changed'.info, updateOn_in ⟨low, high⟩, after, here]
    exact congrArg some (unmarked writable state)
  · intro a outside outside'
    rw [changed'.info, updateOn_out outside', unmapped.info, updateOn_out outside]

/-- The address map is restored just if the `Map` swept no neighbour of the target along. -/
theorem Released.restores_iff {p'' : Process} (managed : Managed p.vmManager)
    (changed : Changed p.vmManager vm₁ source size .«private» .readWrite (sourceState privileged)
      (sourcePerm privileged))
    (maps : (MapCall.map target source size perms privileged).Maps p p' vm₁ list)
    (released : Released p p' p'' target source size) : p''.vmManager.info = p.vmManager.info ↔
      (MapCall.map target source size perms privileged).Keeps p := by
  have inv := managed.inv
  obtain ⟨apart, blocks, documented, left, right⟩ := maps
  have disjoint := fun a => @disjoint_of_maps p target source size perms privileged _ _ _ inv
    changed blocks a
  have effect : MapEffect _ _ target (target + size) _ _ perms _ _ := blocks.effect
  have pos := blocks.valid.nonempty
  -- an address that fits is in the state of the target, so it is not one of the source
  have other : ∀ {a q}, p.vmManager.info a =
      some ⟨.backingMemory, .readWrite, targetState privileged, q⟩ →
      ¬ (source ≤ a ∧ a < source + size) := by
    rintro a q here ⟨low, high⟩
    obtain ⟨i, here', _, state, _⟩ := changed.inside inv low high
    cases here.symm.trans here'
    cases privileged <;> cases state
  constructor
  · intro restored
    by_cases same : perms = .readWrite
    · exact Or.inl same
    · refine Or.inr (Or.inr ⟨fun fits => same ?_, fun fits => same ?_⟩)
      · have swept := effect.below_swept (left.mpr fits)
        obtain ⟨low, q, here, _⟩ : LeftFits _ target _ _ := fits
        have kept := congrFun restored (target - 1)
        rw [released.rest (target - 1) (by omega) (other here), swept, documented,
          MapCall.documented, updateOn_out (other here), here] at kept
        exact congrArg AddressInfo.permissions (Option.some.inj kept)
      · have here : p.vmManager.info (target + size) = some _ := fits
        have swept := effect.above_swept (right.mpr fits)
        have kept := congrFun restored (target + size)
        rw [released.rest (target + size) (by omega) (other here), swept, documented,
          MapCall.documented, updateOn_out (other here), here] at kept
        exact congrArg AddressInfo.permissions (Option.some.inj kept)
  · intro keeps
    have framed := (MapCall.Maps.frames ⟨apart, blocks, documented, left, right⟩).mpr keeps
    funext a
    by_cases on : target ≤ a ∧ a < target + size
    · rw [released.freed a on.1 on.2]
      obtain ⟨i, here, free⟩ := blocks.free a on.1 on.2
      have outside : ¬ (source ≤ a ∧ a < source + size) := fun source_on =>
        disjoint a source_on.1 source_on.2 on
      rw [documented, MapCall.documented, updateOn_out outside] at here
      rcases managed.plain a i here with memory | rfl
      · cases free.symm.trans memory
      · exact here.symm
    · by_cases marked : source ≤ a ∧ a < source + size
      · exact released.returned a marked.1 marked.2
      · rw [released.rest a on marked, framed a on, MapCall.documented, updateOn_out marked]

end

/-- `p'` is `p` again after the `Unmap` with the arguments of the `Map`. -/
def Undone (p p' : Process) (target source size : Nat) (privileged : Bool) : Prop :=
  ∃ p'', p'.unmap target source size .readWrite privileged = .ok (.ok (), p'') ∧
    p''.vmManager.info = p.vmManager.info

/-- `Unmap` after a `Map` of read-write memory succeeds, and it undoes the `Map` just if that left
the neighbours of the target alone. -/
theorem unmap_undoes_map (managed : Managed p.vmManager) (ht : target < 0x100000000)
    (hs : source < 0x100000000) (hn : size < 0x100000000)
    (writable : Holds p.vmManager source size fun i => i.permissions = .readWrite)
    (run : p.map target source size perms privileged = .ok (.ok (), p')) :
    (∃ p'', p'.unmap target source size .readWrite privileged = .ok (.ok (), p'')) ∧
      (Undone p p' target source size privileged ↔
        (MapCall.map target source size perms privileged).Keeps p) := by
  have inv := managed.inv
  obtain ⟨guest, together⟩ := map_guards run
  obtain ⟨vm, rfl, outcome⟩ := map_ok inv ht hs hn run
  cases outcome with
  | inPlace same changed =>
    subst same
    have privilege := (together (overlapping_self changed.valid.nonempty)).1
    obtain ⟨p'', undo, restored⟩ := unmap_inPlace inv guest privilege changed writable
    exact ⟨⟨p'', undo⟩, iff_of_true ⟨p'', undo, restored⟩ (Or.inr (Or.inl rfl))⟩
  | @mapped vm₁ _ list differ changed backs total maps =>
    have apart : overlapping target source size = false :=
      Bool.eq_false_iff.mpr fun overlap => differ (together overlap).2
    obtain ⟨p'', undo, released⟩ := unmap_mapped inv guest apart changed maps writable
    have restores := released.restores_iff managed changed
      (MapCall.maps_marked inv differ changed backs total maps)
    refine ⟨⟨p'', undo⟩, ?_⟩
    rw [← restores]
    constructor
    · rintro ⟨q, undo', restored⟩
      cases undo.symm.trans undo'
      exact restored
    · intro restored
      exact ⟨p'', undo, restored⟩

def withAlias : Process :=
  withHeap.after (withHeap.map 0x08002000 0x08000000 0x1000 .readWrite false)

def withAliases : Process :=
  withAlias.after (withAlias.map 0x08003000 0x08001000 0x1000 .read false)

theorem withAlias_run :
    withHeap.map 0x08002000 0x08000000 0x1000 .readWrite false = .ok (.ok (), withAlias) :=
  (after_of_succeeds (by decide +kernel)).choose_spec

theorem withAliases_run :
    withAlias.map 0x08003000 0x08001000 0x1000 .read false = .ok (.ok (), withAliases) :=
  (after_of_succeeds (by decide +kernel)).choose_spec

theorem withAlias_reachable : withAlias.Reachable [] ∧ Managed withAlias.vmManager := by
  obtain ⟨reachable, managed⟩ := withHeap_reachable
  have given : (MapCall.map 0x08002000 0x08000000 0x1000 .readWrite false).Given [] :=
    ⟨by decide, by decide, by decide⟩
  have run : MapCall.run withHeap (.map 0x08002000 0x08000000 0x1000 .readWrite false) =
      .ok (.ok 0, withAlias) := bind_eq_ok.mpr ⟨_, withAlias_run, rfl⟩
  obtain ⟨sound, ok⟩ := reachable.sound
  exact ⟨reachable.map given run, (sound.map ok given run).2 managed⟩

theorem writable_of_areas {vm : VMManager} (inv : vm.Inv) (valid : ValidRange source size)
    (all : ∀ v ∈ vm.areas, v.base < source + size → source < v.base + v.size →
      v.permissions = .readWrite) : Holds vm source size fun i => i.permissions = .readWrite :=
  holds_of_areas inv valid fun v hv on _ => all v hv on.1 on.2

theorem unmap_undoes_map_withAlias :
    (∃ p'', withAlias.unmap 0x08002000 0x08000000 0x1000 .readWrite false = .ok (.ok (), p'')) ∧
      Undone withHeap withAlias 0x08002000 0x08000000 0x1000 false := by
  have managed := withHeap_reachable.2
  have writable : Holds withHeap.vmManager 0x08000000 0x1000 _ :=
    writable_of_areas managed.inv ⟨rfl, rfl, by decide, by decide⟩ (by decide +kernel)
  have undoes := unmap_undoes_map managed (by decide) (by decide) (by decide) writable withAlias_run
  exact ⟨undoes.1, undoes.2.mpr (Or.inl rfl)⟩

/-- The first alias has become read-only with the second, and `Unmap` leaves it so. -/
theorem unmap_undoes_map_fails : ∃ p p', p.Reachable [] ∧ Managed p.vmManager ∧
    (Holds p.vmManager 0x08001000 0x1000 fun i => i.permissions = .readWrite) ∧
    p.map 0x08003000 0x08001000 0x1000 .read false = .ok (.ok (), p') ∧
    ¬ Undone p p' 0x08003000 0x08001000 0x1000 false := by
  obtain ⟨reachable, managed⟩ := withAlias_reachable
  have writable : Holds withAlias.vmManager 0x08001000 0x1000 _ :=
    writable_of_areas managed.inv ⟨rfl, rfl, by decide, by decide⟩ (by decide +kernel)
  refine ⟨withAlias, withAliases, reachable, managed, writable, withAliases_run, ?_⟩
  rintro ⟨p'', undo, restored⟩
  have left : (withAliases.after (withAliases.unmap 0x08003000 0x08001000 0x1000 .readWrite
      false)).vmManager.info 0x08002000 ≠ withAlias.vmManager.info 0x08002000 := by
    decide +kernel
  rw [undo] at left
  exact left (congrFun restored 0x08002000)

end Process
end EmuThreeDS
