import EmuThreeDS.Kernel.BaseSearch
import EmuThreeDS.Kernel.Ownership

/-!
# Loading a 3GX plugin

`Plugin3GXLoader::Map` of `plugin_3gx.cpp`: three blocks of the SYSTEM region are mapped at four
places. What it writes into the mapped pages and into the loader context is left out; neither
the address map nor the free set depends on it.
-/
namespace EmuThreeDS
open VMManager Intervals

namespace Plugin3GXLoader

def exeLoadAddr : Nat := 0x07000000
def heapLoadAddr : Nat := 0x06000000
def fbSize : Nat := 0xA9000
def bootloaderMemorySize : Nat := 0x1000

inductive ResultStatus where
  | success | error | errorMemoryAllocationFailed
  deriving DecidableEq

structure Loader where
  memoryRegionSize : Fin 4
  textSize : Nat
  rodataSize : Nat
  dataSize : Nat
  bssSize : Nat
  exeLoadFunc : List Nat

def memRegionSizes : Fin 4 → Nat
  | 0 => 5 * 1024 * 1024
  | 1 => 2 * 1024 * 1024
  | 2 => 3 * 1024 * 1024
  | 3 => 4 * 1024 * 1024

def Loader.blockSize (l : Loader) : Nat := memRegionSizes l.memoryRegionSize

/-- The sum is a `size_t`, the result a `u32`; `0x100` is the size of the plugin header. -/
def Loader.exeSize (l : Loader) : Nat :=
  (0x100 + l.textSize + l.rodataSize + l.dataSize + l.bssSize + 0x1000) / 0x1000 * 0x1000
    % 0x100000000

/-- The part that maps; the caller has picked the function and its arguments. -/
def mapBootloader (vm : VMManager) (memoryOffset : Nat) : Exec VMManager := do
  let backingMemory ← getFCRAMRef memoryOffset
  fillFCRAM memoryOffset (memoryOffset + bootloaderMemorySize)
  mapAndReprotect .plugin3GX vm (exeLoadAddr - bootloaderMemorySize) backingMemory
    bootloaderMemorySize .continuous .readWriteExecute

def map (l : Loader) (loadExeFunc : List Nat) (vm : VMManager) (region : MemoryRegionInfo) :
    Exec (ResultStatus × VMManager × MemoryRegionInfo) := do
  if l.exeLoadFunc.isEmpty && loadExeFunc.isEmpty then
    return (.error, vm, region)
  let (offsetFb, region) ← region.rLinearAllocate fbSize
  match offsetFb with
  | none => return (.errorMemoryAllocationFailed, vm, region)
  | some offsetFb =>
    let backingMemoryFb ← getFCRAMRef offsetFb
    fillFCRAM offsetFb (offsetFb + fbSize)
    let vm ← mapAndReprotect .plugin3GX vm heapLoadAddr backingMemoryFb fbSize .continuous
      .readWrite
    let (offset, region) ← region.rLinearAllocate (sub32 l.blockSize fbSize)
    match offset with
    | none =>
      let region ← region.free offsetFb fbSize
      return (.errorMemoryAllocationFailed, vm, region)
    | some offset =>
      let backingMemory ← getFCRAMRef offset
      fillFCRAM offset (offset + l.blockSize - fbSize)
      let vm ← mapAndReprotect .plugin3GX vm exeLoadAddr backingMemory l.exeSize .continuous
        .readWriteExecute
      let backingMemoryHeap ← getFCRAMRef (add32 offset l.exeSize)
      let vm ← mapAndReprotect .plugin3GX vm (heapLoadAddr + fbSize) backingMemoryHeap
        (sub32 (sub32 l.blockSize l.exeSize) fbSize) .continuous .readWriteExecute
      let (bootloaderOffset, region) ← region.rLinearAllocate bootloaderMemorySize
      match bootloaderOffset with
      | none =>
        let region ← region.free offsetFb fbSize
        let region ← region.free offset (sub32 l.blockSize fbSize)
        return (.errorMemoryAllocationFailed, vm, region)
      | some bootloaderOffset =>
        let vm ← mapBootloader vm bootloaderOffset
        return (.success, vm, region)

/-- The range was free and is backed by FCRAM from `offset` on; elsewhere only permissions
changed. -/
structure Placed (vm vm' : VMManager) (target size offset : Nat) : Prop where
  free : FreeRun vm target size
  here : ∀ i < size, BackedBy vm' (target + i) (offset + i)
  rest : ∀ a, ¬ (target ≤ a ∧ a < target + size) →
    ∃ q, vm'.info a = (vm.info a).map (AddressInfo.protect q)

variable {vm vm' : VMManager} {target size offset : Nat} {perms : VMAPermission}

variable {a c n : Nat} {rest : List Nat} {memory : MemoryRef} {vm₁ vm₂ : VMManager}

theorem Placed.backed (h : Placed vm vm' target size offset)
    (outside : ¬ (target ≤ a ∧ a < target + size)) (before : BackedBy vm a c) :
    BackedBy vm' a c := by
  obtain ⟨q, same⟩ := h.rest a outside
  rw [BackedBy] at before ⊢
  rw [same]
  cases at_a : vm.info a with
  | none =>
    rw [at_a] at before
    cases before
  | some i =>
    rw [at_a] at before
    exact before

theorem Placed.freeRun (h : Placed vm vm' target size offset) {start : Nat}
    (apart : start + n ≤ target ∨ target + size ≤ start) :
    FreeRun vm' start n ↔ FreeRun vm start n := by
  refine forall_congr' fun a => forall_congr' fun low => forall_congr' fun high => ?_
  obtain ⟨q, same⟩ := h.rest a (by omega)
  rw [same]
  cases vm.info a with
  | none => simp
  | some i => simp [AddressInfo.protect]

theorem place_ok (managed : Managed vm) (ht : target < 0x100000000) (hs : size < 0x100000000)
    (enough : ValidRange target size → offset + size ≤ fcramSize)
    (run : mapAndReprotect .plugin3GX vm target ⟨some fcram, offset⟩ size .continuous perms =
      .ok vm') : Managed vm' ∧ ValidRange target size ∧ Placed vm vm' target size offset := by
  have whole : fcram.size = fcramSize := rfl
  have enough : ValidRange target size → size ≤ (MemoryRef.mk (some fcram) offset).getSize := by
    intro valid
    have := enough valid
    simp only [MemoryRef.getSize]
    omega
  obtain ⟨_, kept, valid, room, effect⟩ := mapAndReprotect_effect managed.inv ht hs enough run
  refine ⟨kept managed, valid, freeRun_of_room managed.inv room, ?_, effect.frame⟩
  intro i less
  rw [BackedBy, effect.inside (target + i) (by omega) (by omega)]
  simp only [mappedValue, Nat.add_sub_cancel_left, Option.bind_some]
  rfl

theorem place_run (perms : VMAPermission) (managed : Managed vm) (valid : ValidRange target size)
    (enough : offset + size ≤ fcramSize) (free : FreeRun vm target size) : ∃ vm',
    mapAndReprotect .plugin3GX vm target ⟨some fcram, offset⟩ size .continuous perms = .ok vm' ∧
      Managed vm' ∧ Placed vm vm' target size offset := by
  have whole : fcram.size = fcramSize := rfl
  have top : maxAddress = 0x40000000 := rfl
  have fits := valid.fits
  have block : Op.ValidMemory ⟨some fcram, offset⟩ size := by
    refine ⟨nofun, ?_⟩
    simp only [MemoryRef.getSize]
    omega
  obtain ⟨vm', run, _⟩ := mapAndReprotect_run .plugin3GX .continuous perms managed.inv valid
    block (free.room managed.inv managed.freeApart valid.nonempty fits)
  obtain ⟨managed', _, placed⟩ := place_ok managed (by omega) (by omega) (fun _ => enough) run
  exact ⟨vm', run, managed', placed⟩

theorem not_free_of_backed (managed : Managed vm) (backed : BackedBy vm a c) :
    ¬ FreeRun vm a 1 := by
  intro free
  obtain ⟨i, here, type⟩ := free a (Nat.le_refl a) (Nat.lt_succ_self a)
  rw [BackedBy, here] at backed
  rcases managed.plain a i here with memory | rfl
  · cases memory.symm.trans type
  · cases backed

def serves (region : MemoryRegionInfo) : List Nat → Bool
  | [] => true
  | size :: rest =>
    match region.rLinearAllocate size with
    | .ok (some _, region) => serves region rest
    | _ => false

structure Mapping where
  target : Nat
  size : Nat
  offset : Nat

def Mapping.Holds (m : Mapping) (vm : VMManager) (region region' : MemoryRegionInfo) : Prop :=
  ∀ i < m.size, BackedBy vm (m.target + i) (m.offset + i) ∧ m.offset + i ∈ region.freeBlocks ∧
    m.offset + i ∉ region'.freeBlocks

def Mapping.Apart (m n : Mapping) : Prop :=
  (m.target + m.size ≤ n.target ∨ n.target + n.size ≤ m.target) ∧
    (m.offset + m.size ≤ n.offset ∨ n.offset + n.size ≤ m.offset)

/-- The executable, the heap, the framebuffer and the bootloader. -/
def mappings (exeSize heapSize offset offsetFb bootloaderOffset : Nat) : List Mapping :=
  [⟨exeLoadAddr, exeSize, offset⟩, ⟨heapLoadAddr + fbSize, heapSize, offset + exeSize⟩,
    ⟨heapLoadAddr, fbSize, offsetFb⟩,
    ⟨exeLoadAddr - bootloaderMemorySize, bootloaderMemorySize, bootloaderOffset⟩]

def Loaded (l : Loader) (vm : VMManager) (region region' : MemoryRegionInfo) : Prop :=
  ∃ heapSize offset offsetFb bootloaderOffset, l.exeSize + heapSize + fbSize = l.blockSize ∧
    (∀ m ∈ mappings l.exeSize heapSize offset offsetFb bootloaderOffset,
      m.Holds vm region region') ∧
    (mappings l.exeSize heapSize offset offsetFb bootloaderOffset).Pairwise Mapping.Apart

/-- An error leaves the address map and the free set as they were. -/
def AllOrNothing (l : Loader) (loadExeFunc : List Nat) (vm : VMManager)
    (region : MemoryRegionInfo) : Prop :=
  ∀ reply vm' region', map l loadExeFunc vm region = .ok (reply, vm', region') →
    (reply ≠ .success → vm'.info = vm.info ∧ ∀ a, a ∈ region'.freeBlocks ↔ a ∈ region.freeBlocks) ∧
    (reply = .success → Loaded l vm' region region')

/-- The executable fits before the end of its block, and its place and the heap's are free. -/
def ExeFits (l : Loader) (vm : VMManager) : Prop :=
  0 < l.exeSize ∧ l.exeSize + fbSize < l.blockSize ∧ FreeRun vm exeLoadAddr l.exeSize ∧
    FreeRun vm (heapLoadAddr + fbSize) (l.blockSize - l.exeSize - fbSize)

/-- There is room for the framebuffer, and later there is none for the block or for the
bootloader. -/
def Strands (l : Loader) (loadExeFunc : List Nat) (vm : VMManager) (region : MemoryRegionInfo) :
    Prop :=
  (l.exeLoadFunc.isEmpty && loadExeFunc.isEmpty) = false ∧ serves region [fbSize] ∧
    FreeRun vm heapLoadAddr fbSize ∧
    (¬ serves region [fbSize, l.blockSize - fbSize] ∨
      serves region [fbSize, l.blockSize - fbSize] ∧ ExeFits l vm ∧
        ¬ serves region [fbSize, l.blockSize - fbSize, bootloaderMemorySize])

variable {region region' : MemoryRegionInfo} {l : Loader} {loadExeFunc : List Nat}

theorem allocate_cases (sound : region.Sound) (pos : 0 < size) :
    region.rLinearAllocate size = .ok (none, region) ∨
      ∃ offset region', region.rLinearAllocate size = .ok (some offset, region') ∧
        region'.Sound ∧ MemoryRegionInfo.Handed region region' offset size ∧
        offset + size ≤ fcramSize := by
  have run : ∃ reply region', region.rLinearAllocate size = .ok (reply, region') := by
    unfold MemoryRegionInfo.rLinearAllocate
    simp only [sound.unlocked, assert_pos, ok_bind]
    split <;> exact ⟨_, _, rfl⟩
  obtain ⟨reply, region', run⟩ := run
  rcases MemoryRegionInfo.rLinearAllocate_ok run with ⟨rfl, rfl⟩ | ⟨offset, rfl, handed⟩
  · exact Or.inl run
  · exact Or.inr ⟨offset, region', run, handed.sound sound, handed, handed.bounds sound pos⟩

theorem serves_some (run : region.rLinearAllocate size = .ok (some offset, region')) :
    serves region (size :: rest) = serves region' rest := by
  rw [serves, run]

theorem serves_none (run : region.rLinearAllocate size = .ok (none, region)) :
    serves region (size :: rest) = false := by
  rw [serves, run]

theorem give_back {taken : MemoryRegionInfo} (sound : taken.Sound)
    (bounds : offset + size ≤ fcramSize) (not_free : ∀ a, offset ≤ a → a < offset + size →
      a ∉ taken.freeBlocks) :
    ∃ region', taken.free offset size = .ok region' ∧ region'.Sound ∧
      ∀ a, a ∈ region'.freeBlocks ↔ (offset ≤ a ∧ a < offset + size) ∨ a ∈ taken.freeBlocks := by
  have limit : fcramSize = 0x10000000 := rfl
  rcases MemoryRegionInfo.free_cases sound.unlocked
    (show offset + size < 0x100000000 by omega) with ⟨⟨a, low, high, free⟩, _⟩ | back
  · exact absurd free (not_free a low high)
  · obtain ⟨_, region', run, moved, free⟩ := back
    refine ⟨region', run, sound.moved moved fun a ha => ?_, free⟩
    rcases (free a).mp ha with on | ha
    · omega
    · exact sound.inside a ha

theorem Loader.block_bounds (l : Loader) :
    fbSize + bootloaderMemorySize < l.blockSize ∧ l.blockSize ≤ 0x500000 ∧
      l.blockSize % 0x1000 = 0 ∧ sub32 l.blockSize fbSize = l.blockSize - fbSize := by
  have each : ∀ i : Fin 4, fbSize + bootloaderMemorySize < memRegionSizes i ∧
      memRegionSizes i ≤ 0x500000 ∧ memRegionSizes i % 0x1000 = 0 ∧
      sub32 (memRegionSizes i) fbSize = memRegionSizes i - fbSize := by decide
  exact each l.memoryRegionSize

theorem ref_eq (run : getFCRAMRef offset = .ok memory) : memory = ⟨some fcram, offset⟩ := by
  obtain ⟨_, _, same⟩ := bind_eq_ok.mp run
  cases same
  rfl

theorem ref_ok (inside : offset ≤ fcramSize) : getFCRAMRef offset = .ok ⟨some fcram, offset⟩ := by
  rw [getFCRAMRef, assert_pos inside]
  rfl

theorem fill_ok {upper : Nat} (inside : offset ≤ fcramSize) (top : upper ≤ fcramSize) :
    fillFCRAM offset upper = .ok () := by
  rw [fillFCRAM, assert_pos inside, assert_pos top]
  rfl

theorem valid_of_run (managed : Managed vm) (ht : target < 0x100000000) (hs : size < 0x100000000)
    (run : mapAndReprotect .plugin3GX vm target memory size .continuous perms = .ok vm') :
    ValidRange target size := by
  obtain ⟨⟨reply, vm₁⟩, map, run⟩ := bind_eq_ok.mp run
  cases reply with
  | error e => cases run
  | ok handle => exact (mapBackingMemory_ok managed.inv ht hs map).1

theorem Placed.exeFits (h : Placed vm vm' heapLoadAddr fbSize offset) :
    ExeFits l vm' ↔ ExeFits l vm := by
  unfold ExeFits
  rw [h.freeRun (Or.inr (by decide)), h.freeRun (Or.inr (Nat.le_refl _))]

/-- Both mappings of the block return only if the executable ends before the block does; a size
of the heap that wrapped around is not mapped. -/
theorem exe_placed (managed : Managed vm) (bounds : offset + (l.blockSize - fbSize) ≤ fcramSize)
    (exe : mapAndReprotect .plugin3GX vm exeLoadAddr ⟨some fcram, offset⟩ l.exeSize .continuous
      .readWriteExecute = .ok vm₁) (ref : getFCRAMRef (add32 offset l.exeSize) = .ok memory)
    (heap : mapAndReprotect .plugin3GX vm₁ (heapLoadAddr + fbSize) memory
      (sub32 (sub32 l.blockSize l.exeSize) fbSize) .continuous .readWriteExecute = .ok vm₂) :
    Managed vm₂ ∧ ExeFits l vm ∧ Placed vm vm₁ exeLoadAddr l.exeSize offset ∧
      Placed vm₁ vm₂ (heapLoadAddr + fbSize) (l.blockSize - l.exeSize - fbSize)
        (offset + l.exeSize) := by
  have limit : fcramSize = 0x10000000 := rfl
  have top : maxAddress = 0x40000000 := rfl
  have fb : fbSize = 0xA9000 := rfl
  have exeAt : exeLoadAddr = 0x07000000 := rfl
  have heapAt : heapLoadAddr = 0x06000000 := rfl
  obtain ⟨large, small, _, _⟩ := l.block_bounds
  have small_exe : l.exeSize < 0x100000000 := Nat.mod_lt _ (by decide)
  have valid := valid_of_run managed (by decide) small_exe exe
  have fits := valid.fits
  have pos := valid.nonempty
  have no_wrap : add32 offset l.exeSize = offset + l.exeSize := add32_eq (by omega)
  rw [no_wrap] at ref
  obtain ⟨_, inside, same⟩ := bind_eq_ok.mp ref
  cases same
  have inside := assert_eq_ok.mp inside
  obtain ⟨managed₁, _, placed⟩ :=
    place_ok managed (by decide) small_exe (fun _ => inside) exe
  have valid' := valid_of_run managed₁ (by decide) (Nat.mod_lt _ (by decide)) heap
  have fits' := valid'.fits
  have pos' := valid'.nonempty
  obtain ⟨shorter, heapSize⟩ : l.exeSize + fbSize < l.blockSize ∧
      sub32 (sub32 l.blockSize l.exeSize) fbSize = l.blockSize - l.exeSize - fbSize := by
    unfold sub32 at fits' pos' ⊢
    omega
  rw [heapSize] at heap
  obtain ⟨managed₂, _, placed'⟩ := place_ok managed₁ (by decide) (by omega)
    (fun _ => by omega) heap
  have heap_free := (placed.freeRun (Or.inl (by omega))).mp placed'.free
  exact ⟨managed₂, ⟨pos, shorter, placed.free, heap_free⟩, placed, placed'⟩

theorem exe_run (managed : Managed vm) (fits : ExeFits l vm)
    (bounds : offset + (l.blockSize - fbSize) ≤ fcramSize) : ∃ vm₁ vm₂,
    mapAndReprotect .plugin3GX vm exeLoadAddr ⟨some fcram, offset⟩ l.exeSize .continuous
      .readWriteExecute = .ok vm₁ ∧
    getFCRAMRef (add32 offset l.exeSize) = .ok ⟨some fcram, offset + l.exeSize⟩ ∧
    mapAndReprotect .plugin3GX vm₁ (heapLoadAddr + fbSize) ⟨some fcram, offset + l.exeSize⟩
      (sub32 (sub32 l.blockSize l.exeSize) fbSize) .continuous .readWriteExecute = .ok vm₂ ∧
    Placed vm vm₁ exeLoadAddr l.exeSize offset ∧
    Placed vm₁ vm₂ (heapLoadAddr + fbSize) (l.blockSize - l.exeSize - fbSize)
      (offset + l.exeSize) := by
  have limit : fcramSize = 0x10000000 := rfl
  have top : maxAddress = 0x40000000 := rfl
  have fb : fbSize = 0xA9000 := rfl
  have exeAt : exeLoadAddr = 0x07000000 := rfl
  have heapAt : heapLoadAddr = 0x06000000 := rfl
  obtain ⟨large, small, aligned, _⟩ := l.block_bounds
  obtain ⟨pos, shorter, exe_free, heap_free⟩ := fits
  have pages : l.exeSize % 0x1000 = 0 := by
    unfold Loader.exeSize
    omega
  have heapSize : sub32 (sub32 l.blockSize l.exeSize) fbSize =
      l.blockSize - l.exeSize - fbSize := by
    unfold sub32
    omega
  obtain ⟨vm₁, exe, managed₁, placed⟩ := place_run .readWriteExecute managed
    (⟨rfl, (and_pageMask _).trans pages, pos, by omega⟩ : ValidRange exeLoadAddr l.exeSize)
    (show offset + l.exeSize ≤ fcramSize by omega) exe_free
  obtain ⟨vm₂, heap, _, placed'⟩ := place_run .readWriteExecute managed₁
    (⟨rfl, (and_pageMask _).trans (by omega), by omega, by omega⟩ :
      ValidRange (heapLoadAddr + fbSize) (l.blockSize - l.exeSize - fbSize))
    (show offset + l.exeSize + (l.blockSize - l.exeSize - fbSize) ≤ fcramSize by omega)
    ((placed.freeRun (Or.inl (by omega))).mpr heap_free)
  rw [add32_eq (show offset + l.exeSize < 0x100000000 by omega), heapSize]
  exact ⟨vm₁, vm₂, exe, ref_ok (by omega), heap, placed, placed'⟩

theorem handed_apart {other : Nat} (handed : MemoryRegionInfo.Handed region region' offset size)
    (pos : 0 < size) (some_byte : 0 < n)
    (free : ∀ a, other ≤ a → a < other + n → a ∈ region'.freeBlocks) :
    other + n ≤ offset ∨ offset + size ≤ other := by
  by_contra meet
  have mem := free (max other offset) (by omega) (by omega)
  exact ((handed.rest _).mp mem).2 (by omega)

theorem loaded_of_placed {vm₃ : VMManager} {region₁ region₂ : MemoryRegionInfo}
    {offsetFb bootloaderOffset : Nat} (fits : ExeFits l vm₁)
    (handed₁ : MemoryRegionInfo.Handed region region₁ offsetFb fbSize)
    (handed₂ : MemoryRegionInfo.Handed region₁ region₂ offset (l.blockSize - fbSize))
    (handed₃ : MemoryRegionInfo.Handed region₂ region' bootloaderOffset bootloaderMemorySize)
    (placed₁ : ∀ i < fbSize, BackedBy vm₁ (heapLoadAddr + i) (offsetFb + i))
    (placed₂ : Placed vm₁ vm₂ exeLoadAddr l.exeSize offset)
    (placed₃ : Placed vm₂ vm₃ (heapLoadAddr + fbSize) (l.blockSize - l.exeSize - fbSize)
      (offset + l.exeSize))
    (placed₄ : Placed vm₃ vm' (exeLoadAddr - bootloaderMemorySize) bootloaderMemorySize
      bootloaderOffset) : Loaded l vm' region region' := by
  obtain ⟨_, small, _, _⟩ := l.block_bounds
  obtain ⟨pos, shorter, _, _⟩ := fits
  have fb : fbSize = 0xA9000 := rfl
  have boot : bootloaderMemorySize = 0x1000 := rfl
  have exeAt : exeLoadAddr = 0x07000000 := rfl
  have heapAt : heapLoadAddr = 0x06000000 := rfl
  -- what an allocation took stays taken
  have shrinks₃ : ∀ a ∈ region'.freeBlocks, a ∈ region₂.freeBlocks :=
    fun a mem => ((handed₃.rest a).mp mem).1
  have shrinks₂ : ∀ a ∈ region₂.freeBlocks, a ∈ region₁.freeBlocks :=
    fun a mem => ((handed₂.rest a).mp mem).1
  have shrinks₁ : ∀ a ∈ region₁.freeBlocks, a ∈ region.freeBlocks :=
    fun a mem => ((handed₁.rest a).mp mem).1
  have block : ∀ i < l.blockSize - fbSize,
      offset + i ∈ region.freeBlocks ∧ offset + i ∉ region'.freeBlocks := fun i less =>
    ⟨shrinks₁ _ (handed₂.free _ (by omega) (by omega)), fun mem =>
      ((handed₂.rest _).mp (shrinks₃ _ mem)).2 (by omega)⟩
  have below := handed_apart handed₁ (show 0 < fbSize by omega)
    (show 0 < l.blockSize - fbSize by omega) handed₂.free
  have below' := handed_apart handed₁ (show 0 < fbSize by omega)
    (show 0 < bootloaderMemorySize by omega)
    fun a low high => shrinks₂ a (handed₃.free a low high)
  have below'' := handed_apart handed₂ (show 0 < l.blockSize - fbSize by omega)
    (show 0 < bootloaderMemorySize by omega) handed₃.free
  refine ⟨l.blockSize - l.exeSize - fbSize, offset, offsetFb, bootloaderOffset, by omega, ?_, ?_⟩
  · intro m hm
    simp only [mappings, List.mem_cons, List.not_mem_nil, or_false] at hm
    rcases hm with rfl | rfl | rfl | rfl <;> intro i less <;> simp only at less ⊢
    · refine ⟨?_, block i (by omega)⟩
      exact placed₄.backed (by omega) (placed₃.backed (by omega) (placed₂.here i less))
    · rw [Nat.add_assoc offset]
      refine ⟨?_, block (l.exeSize + i) (by omega)⟩
      have here := placed₄.backed (by omega) (placed₃.here i less)
      rwa [Nat.add_assoc offset] at here
    · refine ⟨?_, handed₁.free _ (by omega) (by omega), fun mem =>
        ((handed₁.rest _).mp (shrinks₂ _ (shrinks₃ _ mem))).2 (by omega)⟩
      exact placed₄.backed (by omega) (placed₃.backed (by omega)
        (placed₂.backed (by omega) (placed₁ i less)))
    · exact ⟨placed₄.here i less,
        shrinks₁ _ (shrinks₂ _ (handed₃.free _ (by omega) (by omega))),
        fun mem => ((handed₃.rest _).mp mem).2 (by omega)⟩
  · simp only [mappings, Mapping.Apart, List.pairwise_cons, List.mem_cons, List.not_mem_nil,
      or_false, forall_eq_or_imp, forall_eq, List.Pairwise.nil, and_true, false_imp_iff,
      implies_true]
    omega

theorem map_keeps (managed : Managed vm) (sound : region.Sound)
    (calm : ¬ Strands l loadExeFunc vm region) : AllOrNothing l loadExeFunc vm region := by
  obtain ⟨large, small, _, rest⟩ := l.block_bounds
  have boot : bootloaderMemorySize = 0x1000 := rfl
  intro reply vm' region' run
  unfold map at run
  by_cases missing : (l.exeLoadFunc.isEmpty && loadExeFunc.isEmpty) = true
  · rw [if_pos missing] at run
    cases run
    exact ⟨fun _ => ⟨rfl, fun _ => Iff.rfl⟩, nofun⟩
  · rw [if_neg missing] at run
    rcases allocate_cases sound (show 0 < fbSize by decide) with none | found
    · rw [none] at run
      cases run
      exact ⟨fun _ => ⟨rfl, fun _ => Iff.rfl⟩, nofun⟩
    obtain ⟨offsetFb, region₁, alloc₁, sound₁, handed₁, bounds₁⟩ := found
    rw [alloc₁, ok_bind] at run
    obtain ⟨_, ref, run⟩ := bind_eq_ok.mp run
    cases ref_eq ref
    obtain ⟨_, _, run⟩ := bind_eq_ok.mp run
    obtain ⟨vm₁, map₁, run⟩ := bind_eq_ok.mp run
    obtain ⟨managed₁, _, placed₁⟩ :=
      place_ok managed (by decide) (by decide) (fun _ => bounds₁) map₁
    have some_room : serves region [fbSize] = true := by
      rw [serves_some alloc₁]
      rfl
    have missing : (l.exeLoadFunc.isEmpty && loadExeFunc.isEmpty) = false := by
      simpa using missing
    rw [rest] at run
    rcases allocate_cases sound₁ (show 0 < l.blockSize - fbSize by omega) with none | found
    · refine absurd ⟨missing, some_room, placed₁.free, Or.inl ?_⟩ calm
      rw [serves_some alloc₁, serves_none none]
      exact Bool.false_ne_true
    obtain ⟨offset, region₂, alloc₂, sound₂, handed₂, bounds₂⟩ := found
    rw [alloc₂, ok_bind] at run
    obtain ⟨_, ref, run⟩ := bind_eq_ok.mp run
    cases ref_eq ref
    obtain ⟨_, _, run⟩ := bind_eq_ok.mp run
    obtain ⟨vm₂, exe, run⟩ := bind_eq_ok.mp run
    obtain ⟨_, ref, run⟩ := bind_eq_ok.mp run
    obtain ⟨vm₃, heap, run⟩ := bind_eq_ok.mp run
    obtain ⟨managed₃, fits, placed₂, placed₃⟩ := exe_placed managed₁ bounds₂ exe ref heap
    rcases allocate_cases sound₂ (show 0 < bootloaderMemorySize by omega) with none | found
    · refine absurd ⟨missing, some_room, placed₁.free,
        Or.inr ⟨?_, placed₁.exeFits.mp fits, ?_⟩⟩ calm
      · rw [serves_some alloc₁, serves_some alloc₂]
        rfl
      · rw [serves_some alloc₁, serves_some alloc₂, serves_none none]
        exact Bool.false_ne_true
    obtain ⟨bootloaderOffset, region₃, alloc₃, _, handed₃, bounds₃⟩ := found
    rw [alloc₃, ok_bind] at run
    obtain ⟨vm₄, bootloader, run⟩ := bind_eq_ok.mp run
    cases run
    obtain ⟨_, ref, bootloader⟩ := bind_eq_ok.mp bootloader
    cases ref_eq ref
    obtain ⟨_, _, bootloader⟩ := bind_eq_ok.mp bootloader
    obtain ⟨_, _, placed₄⟩ :=
      place_ok managed₃ (by decide) (by decide) (fun _ => bounds₃) bootloader
    exact ⟨fun failed => absurd rfl failed, fun _ => loaded_of_placed fits handed₁ handed₂
      handed₃ placed₁.here placed₂ placed₃ placed₄⟩

theorem not_allOrNothing {reply : ResultStatus} (managed : Managed vm)
    (free : FreeRun vm a fbSize) (backed : BackedBy vm' a c) (failed : reply ≠ .success)
    (run : map l loadExeFunc vm region = .ok (reply, vm', region')) :
    ¬ AllOrNothing l loadExeFunc vm region := by
  intro all
  have same := ((all _ _ _ run).1 failed).1
  rw [BackedBy, same] at backed
  refine not_free_of_backed managed backed fun b low high => free b low ?_
  have fb : fbSize = 0xA9000 := rfl
  omega

theorem map_strands (managed : Managed vm) (sound : region.Sound)
    (strands : Strands l loadExeFunc vm region) : ¬ AllOrNothing l loadExeFunc vm region := by
  obtain ⟨large, small, _, rest⟩ := l.block_bounds
  have fb : fbSize = 0xA9000 := rfl
  have boot : bootloaderMemorySize = 0x1000 := rfl
  have exeAt : exeLoadAddr = 0x07000000 := rfl
  have heapAt : heapLoadAddr = 0x06000000 := rfl
  obtain ⟨has, some_room, fb_free, later⟩ := strands
  rcases allocate_cases sound (show 0 < fbSize by decide) with none | found
  · rw [serves_none none] at some_room
    exact absurd some_room Bool.false_ne_true
  obtain ⟨offsetFb, region₁, alloc₁, sound₁, handed₁, bounds₁⟩ := found
  obtain ⟨vm₁, map₁, managed₁, placed₁⟩ :=
    place_run .readWrite managed ⟨rfl, rfl, by decide, by decide⟩ bounds₁ fb_free
  have ref₁ := ref_ok (show offsetFb ≤ fcramSize by omega)
  have fill₁ := fill_ok (show offsetFb ≤ fcramSize by omega) bounds₁
  have backed₁ := placed₁.here 0 (by decide)
  rcases allocate_cases sound₁ (show 0 < l.blockSize - fbSize by omega) with none | found
  · -- the framebuffer's bytes are free again and still mapped
    obtain ⟨region', back, _⟩ := give_back sound₁ bounds₁ fun a low high mem =>
      ((handed₁.rest a).mp mem).2 ⟨low, high⟩
    refine not_allOrNothing managed fb_free backed₁ (by decide)
      (show map l loadExeFunc vm region =
        .ok (.errorMemoryAllocationFailed, vm₁, region') from ?_)
    simp only [map, has, Bool.false_eq_true, if_false, alloc₁, ok_bind, ref₁, fill₁, map₁, rest,
      none, back, pure_eq_ok]
  obtain ⟨offset, region₂, alloc₂, sound₂, handed₂, bounds₂⟩ := found
  have served : serves region [fbSize, l.blockSize - fbSize] = true := by
    rw [serves_some alloc₁, serves_some alloc₂]
    rfl
  rcases later with short | ⟨_, fits, short⟩
  · exact absurd served short
  obtain ⟨vm₂, vm₃, exe, ref₃, heap, placed₂, placed₃⟩ :=
    exe_run managed₁ (placed₁.exeFits.mpr fits) bounds₂
  have ref₂ := ref_ok (show offset ≤ fcramSize by omega)
  have fill₂ := fill_ok (show offset ≤ fcramSize by omega)
    (show offset + l.blockSize - fbSize ≤ fcramSize by omega)
  rcases allocate_cases sound₂ (show 0 < bootloaderMemorySize by omega) with none | found
  · have below := handed_apart handed₁ (show 0 < fbSize by omega)
      (show 0 < l.blockSize - fbSize by omega) handed₂.free
    obtain ⟨region', back, sound', free'⟩ := give_back sound₂ bounds₁ fun a low high mem =>
      ((handed₁.rest a).mp ((handed₂.rest a).mp mem).1).2 ⟨low, high⟩
    obtain ⟨region'', back', _⟩ := give_back sound' bounds₂ fun a low high mem => by
      rcases (free' a).mp mem with on | mem
      · omega
      · exact ((handed₂.rest a).mp mem).2 ⟨low, high⟩
    refine not_allOrNothing managed fb_free
      (placed₃.backed (by omega) (placed₂.backed (by omega) backed₁)) (by decide)
      (show map l loadExeFunc vm region =
        .ok (.errorMemoryAllocationFailed, vm₃, region'') from ?_)
    simp only [map, has, Bool.false_eq_true, if_false, alloc₁, ok_bind, ref₁, fill₁, map₁, rest,
      alloc₂, ref₂, fill₂, exe, ref₃, heap, none, back, back', pure_eq_ok]
  · obtain ⟨_, _, alloc₃, _⟩ := found
    refine absurd ?_ short
    rw [serves_some alloc₁, serves_some alloc₂, serves_some alloc₃]
    rfl

/-- Loading is all or nothing exactly when no allocation fails once the framebuffer is mapped. -/
theorem map_allOrNothing_iff (managed : Managed vm) (reachable : region.Reachable) :
    AllOrNothing l loadExeFunc vm region ↔ ¬ Strands l loadExeFunc vm region :=
  ⟨fun all strands => map_strands managed reachable.sound strands all,
    map_keeps managed reachable.sound⟩

def smallPlugin : Loader := ⟨1, 0x1000, 0, 0, 0, [0xE12FFF1E]⟩

def systemRegion : MemoryRegionInfo :=
  ⟨0x04000000, 0x02C00000, 0, IntervalSet.empty.add ⟨0x04000000, 0x06C00000⟩, false⟩

theorem systemRegion_reachable : systemRegion.Reachable := by
  have init : memoryInit false 0 0 (List.replicate 3 systemRegion) = .ok _ := rfl
  exact .init init (List.mem_cons_of_mem _ List.mem_cons_self)

theorem map_allOrNothing_small : AllOrNothing smallPlugin [] fresh systemRegion := by
  refine (map_allOrNothing_iff managed_fresh systemRegion_reachable).mpr ?_
  rintro ⟨_, _, _, short | ⟨_, _, short⟩⟩ <;> exact short rfl

/-- The same region when nothing but the framebuffer has room. -/
def crowdedRegion : MemoryRegionInfo :=
  { systemRegion with
    used := 0x02C00000 - fbSize
    freeBlocks := systemRegion.freeBlocks.remove ⟨0x04000000, 0x06C00000 - fbSize⟩ }

theorem framebuffer_left : crowdedRegion.Reachable ∧
    ¬ AllOrNothing smallPlugin [] fresh crowdedRegion := by
  have taken : MemoryRegionInfo.Op.run systemRegion (.linearAllocate (0x02C00000 - fbSize)) =
      .ok crowdedRegion := rfl
  have reachable : crowdedRegion.Reachable := by
    refine .call systemRegion_reachable ?_ taken
    exact True.intro
  have room : FreeRoom fresh.areas heapLoadAddr fbSize := by
    exact ⟨_, List.mem_singleton_self _, rfl, Nat.zero_le _, by decide⟩
  exact ⟨reachable, map_strands managed_fresh reachable.sound
    ⟨rfl, rfl, freeRun_of_room managed_fresh.inv room, Or.inl (by decide)⟩⟩

end Plugin3GXLoader
end EmuThreeDS
