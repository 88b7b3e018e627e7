import EmuThreeDS.Kernel.FreeAreas
import Mathlib.Data.Nat.Find

/-!
# The search of `MapBackingMemoryToBase`

The first free area is taken whose end is far enough from the base. An area that starts behind
the base may be too small all the same, and no later one is tried then.
-/
namespace EmuThreeDS
open Tiling Layout VirtualMemoryArea

namespace VMManager

variable {vm vm' : VMManager} {base regionSize size start : Nat} {memory : MemoryRef}
  {state : MemoryState} {v : VirtualMemoryArea}

def FreeRun (vm : VMManager) (start size : Nat) : Prop :=
  ∀ a, start ≤ a → a < start + size → ∃ i, vm.info a = some i ∧ i.type = .free

structure Fits (vm : VMManager) (base regionSize size start : Nat) : Prop where
  low : base ≤ start
  high : start + size ≤ base + regionSize
  free : FreeRun vm start size

/-- The call finds the lowest free run of the region, and refuses if there is none. -/
def FindsLowest (vm : VMManager) (base regionSize : Nat) (memory : MemoryRef) (size : Nat)
    (state : MemoryState) : Prop :=
  (∀ start, Fits vm base regionSize size start →
    (∀ other, Fits vm base regionSize size other → start ≤ other) →
    ∃ vm', mapBackingMemoryToBase vm base regionSize memory size state = .ok (.ok start, vm')) ∧
  ((∀ start, ¬ Fits vm base regionSize size start) →
    ∃ e, mapBackingMemoryToBase vm base regionSize memory size state = .ok (.error e, vm))

/-- The area that the search takes leads into the region, but the address in it is no page, or
the range wraps around, or the area is too small while there is room elsewhere. -/
def Misled (vm : VMManager) (base regionSize size : Nat) : Prop :=
  ∃ v, firstReaching vm base size = some v ∧
    add32 (max base v.base) size ≤ base + regionSize ∧
    (max base v.base &&& pageMask ≠ 0 ∨
      0x100000000 ≤ max base v.base + size ∧ add32 (max base v.base - v.base) size ≤ v.size ∨
      v.base + v.size < max base v.base + size ∧ ∃ start, Fits vm base regionSize size start)

theorem FreeRun.room (inv : Inv vm) (apart : FreeApart vm.areas) (pos : 0 < size)
    (fits : start + size ≤ maxAddress) (free : FreeRun vm start size) :
    FreeRoom vm.areas start size := by
  have laid := inv.laidOut.laid
  obtain ⟨L, v, R, split, covers⟩ := laid.tiles.exists_covers (Nat.zero_le start)
    (show start < maxAddress by omega)
  obtain ⟨low, high⟩ : v.base ≤ start ∧ start < v.base + v.size := covers
  have member : v ∈ vm.areas := by
    rw [split]
    simp
  have type : v.type = .free := by
    obtain ⟨i, here, type⟩ := free start (Nat.le_refl _) (by omega)
    rw [info, laid.tiles.view_mem member ⟨low, high⟩] at here
    cases here
    exact type
  refine ⟨v, member, type, low, ?_⟩
  by_contra short
  -- the area behind would be free too
  have tiles := laid.tiles
  rw [split] at tiles apart
  obtain ⟨_, _, behind⟩ := tiles_middle.mp tiles
  obtain ⟨_, _, _, next⟩ := freeApart_append.mp apart
  cases R with
  | nil =>
    have top : v.base + v.size = maxAddress := behind
    omega
  | cons n R =>
    have first : n.base = v.base + v.size := behind.1
    have some_size : 0 < n.size := behind.2.1
    obtain ⟨i, here, free⟩ := free n.base (by omega) (by omega)
    have member : n ∈ vm.areas := by
      rw [split]
      simp
    have covers : Covers n n.base := ⟨Nat.le_refl _, Nat.lt_add_of_pos_right some_size⟩
    rw [info, laid.tiles.view_mem member covers] at here
    cases here
    exact next n rfl type free

theorem freeRun_of_room (inv : Inv vm) (room : FreeRoom vm.areas start size) :
    FreeRun vm start size := by
  obtain ⟨v, member, free, low, high⟩ := room
  intro a below above
  have covers : Covers v a := by
    unfold Covers
    simp only [segment_base, segment_size]
    omega
  exact ⟨_, inv.laidOut.laid.tiles.view_mem member covers, free⟩

theorem reaches_iff (ends : v.base + v.size < 0x100000000) (noWrap : base + size < 0x100000000) :
    reaches base size v = true ↔
      v.type = .free ∧ base < v.base + v.size ∧ base + size ≤ v.base + v.size := by
  unfold reaches
  rw [add32_eq ends, add32_eq noWrap, Bool.and_eq_true, Bool.and_eq_true, decide_eq_true_iff,
    decide_eq_true_iff, decide_eq_true_iff]

theorem Fits.above (h : Managed vm) (pos : 0 < size) (top : base + regionSize ≤ maxAddress)
    (fits : Fits vm base regionSize size start) :
    ∃ v, firstReaching vm base size = some v ∧ max base v.base ≤ start := by
  obtain ⟨low, high, free⟩ := fits
  have laid := h.inv.laidOut.laid
  have highest : maxAddress = 0x40000000 := rfl
  obtain ⟨w, hw, type, below, above⟩ := free.room h.inv h.freeApart pos (by omega)
  have ends (u : VirtualMemoryArea) (hu : u ∈ vm.areas) : u.base + u.size < 0x100000000 := by
    have bounds := (laid.tiles.bounds hu).2.2
    simp only [segment_base, segment_size] at bounds
    omega
  have noWrap : base + size < 0x100000000 := by omega
  have reached : reaches base size w = true :=
    (reaches_iff (ends w hw) noWrap).mpr ⟨type, by omega, by omega⟩
  cases found : firstReaching vm base size with
  | none => exact absurd reached (List.find?_eq_none.mp found w hw)
  | some v =>
    refine ⟨v, rfl, ?_⟩
    obtain ⟨_, L, R, split, skipped⟩ := List.find?_eq_some_iff_append.mp found
    rw [split] at hw
    rcases List.mem_append.mp hw with before | hw
    · have skip := skipped w before
      rw [reached] at skip
      cases skip
    rcases List.mem_cons.mp hw with rfl | after
    · omega
    · have tiles := laid.tiles
      rw [split] at tiles
      obtain ⟨_, _, behind⟩ := tiles_middle.mp tiles
      have next := (behind.bounds after).1
      simp only [segment_base, segment_size] at next
      omega

theorem carveVMA_beyond {m : VmaMap} {L R : List VirtualMemoryArea} {target : Nat}
    (h : LaidOut m (L ++ v :: R)) (alignedSize : size &&& pageMask = 0)
    (alignedTarget : target &&& pageMask = 0) (covers : Covers v target) (free : v.type = .free)
    (beyond : add32 (target - v.base) size > v.size) :
    carveVMA m target size = .ok (.error .invalidAddressState, m) := by
  have within : v.base ≤ target ∧ target < v.base + v.size := covers
  have ends := (area_bounds h).2
  have top : maxAddress = 0x40000000 := rfl
  have offset : sub32 target v.base = target - v.base := sub32_eq within.1 (by omega)
  simp only [carveVMA, alignedSize, alignedTarget, assert_pos, ok_bind, findVMA_at h covers,
    deref_at h, free, ne_eq, not_true_eq_false, if_false, offset, beyond, if_true, pure_eq_ok]

theorem mapBackingMemory_unaligned {target : Nat} {reply : ResultVal Nat}
    (unaligned : target &&& pageMask ≠ 0) :
    mapBackingMemory vm target memory size state ≠ .ok (reply, vm') := by
  intro run
  obtain ⟨_, _, run⟩ := bind_eq_ok.mp run
  obtain ⟨_, _, run⟩ := bind_eq_ok.mp run
  obtain ⟨_, carve, _⟩ := bind_eq_ok.mp run
  obtain ⟨_, _, carve⟩ := bind_eq_ok.mp carve
  obtain ⟨_, aligned, _⟩ := bind_eq_ok.mp carve
  exact unaligned (assert_eq_ok.mp aligned)

/-- A range that wraps around is refused by the size of its area, or asserted against. -/
theorem mapBackingMemory_wraps {L R : List VirtualMemoryArea} {target : Nat} (inv : Inv vm)
    (split : vm.areas = L ++ v :: R) (covers : Covers v target) (free : v.type = .free)
    (aligned : target &&& pageMask = 0) (alignedSize : size &&& pageMask = 0)
    (hs : size < 0x100000000) (wraps : 0x100000000 ≤ target + size)
    (memory_some : memory.getPtr ≠ none) :
    (∃ e, mapBackingMemory vm target memory size state = .ok (.error e, vm)) ↔
      ¬ add32 (target - v.base) size ≤ v.size := by
  have h := inv.laidOut
  rw [split] at h
  have inside : target < v.base + v.size := covers.2
  have ends := (area_bounds h).2
  have top : maxAddress = 0x40000000 := rfl
  constructor
  · rintro ⟨e, run⟩ small
    obtain ⟨_, _, run⟩ := bind_eq_ok.mp run
    obtain ⟨_, _, run⟩ := bind_eq_ok.mp run
    obtain ⟨⟨carved, m⟩, carve, run⟩ := bind_eq_ok.mp run
    cases carved with
    | ok handle =>
      have fits := (carveVMA_ok h (by omega) hs carve).1.fits
      omega
    | error e =>
      have offset : sub32 target v.base = target - v.base := sub32_eq covers.1 (by omega)
      simp only [carveVMA, alignedSize, aligned, assert_pos, ok_bind, findVMA_at h covers,
        deref_at h, free, ne_eq, not_true_eq_false, if_false, offset, not_lt.mpr small] at carve
      obtain ⟨_, _, carve⟩ := bind_eq_ok.mp carve
      obtain ⟨_, _, carve⟩ := bind_eq_ok.mp carve
      cases carve
  · intro beyond
    obtain ⟨m, locked⟩ := vm
    obtain rfl : locked = false := inv.unlocked
    have refused := carveVMA_beyond h alignedSize aligned covers free (not_le.mp beyond)
    refine ⟨.invalidAddressState, ?_⟩
    simp only [mapBackingMemory, assert_pos, ok_bind, memory_some, ne_eq, not_false_eq_true,
      refused, pure_eq_ok]

theorem exists_lowest (some_run : ∃ start, Fits vm base regionSize size start) :
    ∃ start, Fits vm base regionSize size start ∧
      ∀ other, Fits vm base regionSize size other → start ≤ other := by
  classical
  exact ⟨Nat.find some_run, Nat.find_spec some_run, fun _ fits => Nat.find_min' some_run fits⟩

theorem not_findsLowest
    (fails : ∀ reply vm', mapBackingMemoryToBase vm base regionSize memory size state ≠
      .ok (reply, vm')) : ¬ FindsLowest vm base regionSize memory size state := by
  rintro ⟨finds, refuses⟩
  by_cases some_run : ∃ start, Fits vm base regionSize size start
  · obtain ⟨start, fits, lowest⟩ := exists_lowest some_run
    obtain ⟨vm', run⟩ := finds start fits lowest
    exact fails _ _ run
  · obtain ⟨e, run⟩ := refuses (not_exists.mp some_run)
    exact fails _ _ run

theorem findsLowest_of_refused {e : ResultCode}
    (refused : mapBackingMemoryToBase vm base regionSize memory size state = .ok (.error e, vm)) :
    FindsLowest vm base regionSize memory size state ↔
      ∀ start, ¬ Fits vm base regionSize size start := by
  constructor
  · rintro ⟨finds, _⟩ other fits
    obtain ⟨start, fits, lowest⟩ := exists_lowest ⟨other, fits⟩
    obtain ⟨vm', run⟩ := finds start fits lowest
    cases run.symm.trans refused
  · exact fun none => ⟨fun start fits => absurd fits (none start), fun _ => ⟨e, refused⟩⟩

theorem findsLowest_of_found {target : Nat}
    (found : mapBackingMemoryToBase vm base regionSize memory size state = .ok (.ok target, vm'))
    (fits : Fits vm base regionSize size target)
    (lowest : ∀ other, Fits vm base regionSize size other → target ≤ other) :
    FindsLowest vm base regionSize memory size state := by
  refine ⟨fun start fits' lowest' => ?_, fun none => absurd fits (none target)⟩
  cases Nat.le_antisymm (lowest start fits') (lowest' target fits)
  exact ⟨vm', found⟩

structure Taken (vm : VMManager) (base regionSize size : Nat) (v : VirtualMemoryArea)
    (target : Nat) : Prop where
  split : ∃ L R, vm.areas = L ++ v :: R
  free : v.type = .free
  covers : Covers v target
  low : base ≤ target
  later : ∀ start, Fits vm base regionSize size start → target ≤ start

theorem firstReaching_taken (h : Managed vm) (pos : 0 < size)
    (top : base + regionSize ≤ maxAddress) (found : firstReaching vm base size = some v) :
    Taken vm base regionSize size v (max base v.base) := by
  have member : v ∈ vm.areas := List.mem_of_find?_eq_some found
  have bounds := h.inv.laidOut.laid.tiles.bounds member
  simp only [segment_base, segment_size] at bounds
  have highest : maxAddress = 0x40000000 := rfl
  have sum : add32 v.base v.size = v.base + v.size := add32_eq (by omega)
  have chosen := List.find?_some found
  unfold reaches at chosen
  rw [Bool.and_eq_true, Bool.and_eq_true, decide_eq_true_iff, decide_eq_true_iff] at chosen
  obtain ⟨free, past, _⟩ := chosen
  refine ⟨List.append_of_mem member, free, ?_, Nat.le_max_left _ _, fun start fits => ?_⟩
  · unfold Covers
    simp only [segment_base, segment_size]
    omega
  · obtain ⟨w, known, low⟩ := fits.above h pos top
    cases known.symm.trans found
    exact low

theorem Taken.fits_iff {target : Nat} (taken : Taken vm base regionSize size v target)
    (inv : Inv vm) : FreeRoom vm.areas target size ↔ target + size ≤ v.base + v.size := by
  obtain ⟨L, R, split⟩ := taken.split
  have low : v.base ≤ target := taken.covers.1
  constructor
  · rintro ⟨w, hw, _, below, above⟩
    by_contra short
    have inside : target < v.base + v.size := taken.covers.2
    have tiles := inv.laidOut.laid.tiles
    rw [split] at hw tiles
    have covers : Covers w target := by
      unfold Covers
      simp only [segment_base, segment_size]
      omega
    cases tiles.covers_unique hw covers taken.covers
    exact short above
  · intro inside
    refine ⟨v, ?_, taken.free, low, inside⟩
    rw [split]
    simp

theorem misled_iff (found : firstReaching vm base size = some v) :
    Misled vm base regionSize size ↔ add32 (max base v.base) size ≤ base + regionSize ∧
      (max base v.base &&& pageMask ≠ 0 ∨
        0x100000000 ≤ max base v.base + size ∧ add32 (max base v.base - v.base) size ≤ v.size ∨
        v.base + v.size < max base v.base + size ∧
          ∃ start, Fits vm base regionSize size start) := by
  constructor
  · rintro ⟨w, known, misled⟩
    cases known.symm.trans found
    exact misled
  · exact fun misled => ⟨v, found, misled⟩

section

variable {target : Nat}

/-- What the call answers once the search has taken an area that leads into the region. -/
structure Tries (vm : VMManager) (base regionSize : Nat) (memory : MemoryRef) (size : Nat)
    (state : MemoryState) (target : Nat) : Prop where
  within : add32 target size ≤ base + regionSize
  call : mapBackingMemoryToBase vm base regionSize memory size state = do
    let (result, vm) ← mapBackingMemory vm target memory size state
    match result with
    | .error e => return (.error e, vm)
    | .ok _ => return (.ok target, vm)

section

variable (tries : Tries vm base regionSize memory size state target)
include tries

theorem Tries.refused {e : ResultCode}
    (run : mapBackingMemory vm target memory size state = .ok (.error e, vm)) :
    mapBackingMemoryToBase vm base regionSize memory size state = .ok (.error e, vm) := by
  rw [tries.call, run]
  rfl

theorem Tries.unaligned (unaligned : target &&& pageMask ≠ 0) :
    ¬ FindsLowest vm base regionSize memory size state := by
  refine not_findsLowest fun reply vm' run => ?_
  rw [tries.call] at run
  obtain ⟨⟨_, _⟩, map, _⟩ := bind_eq_ok.mp run
  exact mapBackingMemory_unaligned unaligned map

/-- A range that wraps around cannot be free. -/
theorem Tries.wraps (inv : Inv vm) (taken : Taken vm base regionSize size v target)
    (top : base + regionSize ≤ maxAddress) (aligned : target &&& pageMask = 0)
    (alignedSize : size &&& pageMask = 0) (hs : size < 0x100000000)
    (wraps : 0x100000000 ≤ target + size) (memory_some : memory.getPtr ≠ none) :
    FindsLowest vm base regionSize memory size state ↔ ¬ add32 (target - v.base) size ≤ v.size := by
  obtain ⟨L, R, split⟩ := taken.split
  have highest : maxAddress = 0x40000000 := rfl
  have none_fits : ∀ start, ¬ Fits vm base regionSize size start := fun start fits => by
    have low := taken.later start fits
    have high := fits.high
    omega
  rw [← mapBackingMemory_wraps inv split taken.covers taken.free aligned alignedSize hs wraps
    memory_some]
  constructor
  · rintro ⟨_, refuses⟩
    obtain ⟨e, run⟩ := refuses none_fits
    rw [tries.call] at run
    obtain ⟨⟨result, vm'⟩, map, run⟩ := bind_eq_ok.mp run
    cases result with
    | ok handle => cases run
    | error e =>
      cases run
      exact ⟨_, map⟩
  · rintro ⟨e, run⟩
    exact (findsLowest_of_refused (tries.refused run)).mpr none_fits

theorem Tries.found (inv : Inv vm) (taken : Taken vm base regionSize size v target)
    (aligned : target &&& pageMask = 0) (alignedSize : size &&& pageMask = 0) (pos : 0 < size)
    (noWrap : target + size < 0x100000000) (block : Op.ValidMemory memory size)
    (room : target + size ≤ v.base + v.size) :
    FindsLowest vm base regionSize memory size state := by
  obtain ⟨L, R, split⟩ := taken.split
  have h := inv.laidOut
  rw [split] at h
  have valid : ValidRange target size :=
    ⟨aligned, alignedSize, pos, Nat.le_trans room (area_bounds h).2⟩
  have room := (taken.fits_iff inv).mpr room
  obtain ⟨_, _, _, vm', run, _⟩ := mapBackingMemory_info state inv valid block room
  have found : mapBackingMemoryToBase vm base regionSize memory size state =
      .ok (.ok target, vm') := by
    rw [tries.call, run]
    rfl
  have within := tries.within
  rw [add32_eq noWrap] at within
  exact findsLowest_of_found found ⟨taken.low, within, freeRun_of_room inv room⟩ taken.later

theorem Tries.short (inv : Inv vm)
    (taken : Taken vm base regionSize size v target) (aligned : target &&& pageMask = 0)
    (alignedSize : size &&& pageMask = 0) (noWrap : target + size < 0x100000000)
    (memory_some : memory.getPtr ≠ none) (short : ¬ target + size ≤ v.base + v.size) :
    FindsLowest vm base regionSize memory size state ↔
      ∀ start, ¬ Fits vm base regionSize size start := by
  obtain ⟨L, R, split⟩ := taken.split
  have h := inv.laidOut
  rw [split] at h
  have inside : target < v.base + v.size := taken.covers.2
  have ends := (area_bounds h).2
  exact findsLowest_of_refused (tries.refused (mapBackingMemory_refused state inv.unlocked
    inv.laidOut aligned alignedSize noWrap (by omega) memory_some
    fun room => short ((taken.fits_iff inv).mp room)))

end

end

/-- `MapBackingMemoryToBase` finds the lowest free run of the region just if its search takes an
area and is not misled by it. -/
theorem findsLowest_iff_not_misled (h : Managed vm) (top : base + regionSize ≤ maxAddress)
    (alignedSize : size &&& pageMask = 0) (pos : 0 < size) (hs : size < 0x100000000)
    (block : Op.ValidMemory memory size) : FindsLowest vm base regionSize memory size state ↔
      (∃ v, firstReaching vm base size = some v) ∧ ¬ Misled vm base regionSize size := by
  have inv := h.inv
  have highest : maxAddress = 0x40000000 := rfl
  cases found : firstReaching vm base size with
  | none =>
    refine iff_of_false (not_findsLowest fun reply vm' run => ?_) nofun
    cases (mapBackingMemoryToBase_none inv.unlocked found).symm.trans run
  | some v =>
    have taken := firstReaching_taken h pos top found
    have call : mapBackingMemoryToBase vm base regionSize memory size state = _ :=
      mapBackingMemoryToBase_some inv.unlocked found
    rw [add32_eq (show base + regionSize < 0x100000000 by omega)] at call
    rw [and_iff_right ⟨v, rfl⟩, misled_iff found]
    generalize max base v.base = target at *
    by_cases beyond : add32 target size > base + regionSize
    · rw [if_pos beyond] at call
      refine iff_of_true ((findsLowest_of_refused call).mpr fun start fits => ?_)
        fun misled => absurd misled.1 (not_le.mpr beyond)
      have low := taken.later start fits
      have high := fits.high
      have whole : add32 target size = target + size := add32_eq (by omega)
      omega
    rw [if_neg beyond] at call
    have tries : Tries vm base regionSize memory size state target := ⟨not_lt.mp beyond, call⟩
    rw [and_iff_right tries.within]
    by_cases aligned : target &&& pageMask = 0
    swap
    · exact iff_of_false (tries.unaligned aligned) fun good => good (.inl aligned)
    by_cases wraps : 0x100000000 ≤ target + size
    · have none_fits : ¬ ∃ start, Fits vm base regionSize size start := by
        rintro ⟨start, fits⟩
        have low := taken.later start fits
        have high := fits.high
        omega
      rw [tries.wraps inv taken top aligned alignedSize hs wraps block.1]
      refine not_congr ⟨fun small => .inr (.inl ⟨wraps, small⟩), ?_⟩
      rintro (bad | ⟨_, small⟩ | ⟨_, bad⟩)
      · exact absurd aligned bad
      · exact small
      · exact absurd bad none_fits
    have noWrap := not_le.mp wraps
    by_cases room : target + size ≤ v.base + v.size
    · refine iff_of_true (tries.found inv taken aligned alignedSize pos noWrap block room) ?_
      rintro (bad | ⟨bad, _⟩ | ⟨bad, _⟩)
      · exact bad aligned
      · exact wraps bad
      · exact absurd room (not_le.mpr bad)
    · rw [tries.short inv taken aligned alignedSize noWrap block.1 room, ← not_exists]
      refine not_congr ⟨fun some_run => .inr (.inr ⟨not_le.mp room, some_run⟩), ?_⟩
      rintro (bad | ⟨bad, _⟩ | ⟨_, some_run⟩)
      · exact absurd aligned bad
      · exact absurd bad wraps
      · exact some_run

def twoPages : List Op :=
  [.mapBackingMemory 0 ⟨some ⟨0, 0x1000⟩, 0⟩ 0x1000 .«private»,
    .mapBackingMemory 0x2000 ⟨some ⟨0, 0x1000⟩, 0⟩ 0x1000 .«private»]

theorem twoPages_allowed : ∀ op ∈ twoPages, ∀ vm, op.Valid vm ∧ op.OnMemory vm := by
  simp only [twoPages, List.forall_mem_cons]
  exact ⟨fun _ => ⟨⟨⟨rfl, rfl, by decide, by decide⟩, nofun, by decide⟩, True.intro⟩,
    fun _ => ⟨⟨⟨rfl, rfl, by decide, by decide⟩, nofun, by decide⟩, True.intro⟩, nofun⟩

def twoPaged : VMManager where
  isLocked := false
  vmaMap :=
    { entries :=
        [(0, mapAttributes ⟨some ⟨0, 0x1000⟩, 0⟩ .«private» { base := 0, size := 0x1000 }),
          (0x1000, { base := 0x1000, size := 0x1000 }),
          (0x2000, mapAttributes ⟨some ⟨0, 0x1000⟩, 0⟩ .«private» { base := 0x2000, size := 0x1000 }),
          (0x3000, { base := 0x3000, size := 0x3FFFD000 })]
      sorted := by decide }

set_option maxRecDepth 20000 in
theorem managed_twoPaged : Managed twoPaged :=
  managed_fresh.runAll twoPages_allowed rfl

/-- One page goes between the two that are mapped. -/
theorem findsLowest_iff_not_misled_twoPaged :
    FindsLowest twoPaged 0 maxAddress ⟨some ⟨0, 0x1000⟩, 0⟩ 0x1000 .shared := by
  have block : Op.ValidMemory ⟨some ⟨0, 0x1000⟩, 0⟩ 0x1000 := ⟨nofun, by decide⟩
  have first : firstReaching twoPaged 0 0x1000 = some { base := 0x1000, size := 0x1000 } := rfl
  refine (findsLowest_iff_not_misled managed_twoPaged (by decide) rfl (by decide) (by decide)
    block).mpr ⟨⟨_, first⟩, ?_⟩
  rintro ⟨v, found, _, bad⟩
  cases found.symm.trans first
  rcases bad with bad | ⟨bad, _⟩ | ⟨bad, _⟩
  · exact bad rfl
  · exact absurd bad (by decide)
  · exact absurd bad (by decide)

set_option maxRecDepth 20000 in
/-- Two pages are refused, and there is room from 0x3000 on. -/
theorem findsLowest_fails : ¬ ∀ (vm : VMManager) (base regionSize : Nat) (memory : MemoryRef)
    (size : Nat) (state : MemoryState), Managed vm → base + regionSize ≤ maxAddress →
      size &&& pageMask = 0 → 0 < size → size < 0x100000000 → Op.ValidMemory memory size →
      FindsLowest vm base regionSize memory size state := by
  intro all
  have finds := all _ 0 maxAddress ⟨some ⟨0, 0x2000⟩, 0⟩ 0x2000 .shared managed_twoPaged
    (by decide) rfl (by decide) (by decide) ⟨nofun, by decide⟩
  have refused : mapBackingMemoryToBase twoPaged 0 maxAddress ⟨some ⟨0, 0x2000⟩, 0⟩ 0x2000
    .shared = .ok (.error .invalidAddressState, twoPaged) := rfl
  refine (findsLowest_of_refused refused).mp finds 0x3000
    ⟨by decide, by decide, freeRun_of_room (Managed.inv managed_twoPaged) ?_⟩
  exact ⟨{ base := 0x3000, size := 0x3FFFD000 }, by decide, rfl, by decide, by decide⟩

end VMManager
end EmuThreeDS
