import EmuThreeDS.Kernel.FreeAreas
import EmuThreeDS.Kernel.Process

/-!
# What a mapping call does outside its range

The callers of `MapBackingMemory` map a block read-write and reprotect the area they get back.
When that area was merged with a neighbour, the neighbour is reprotected with it.
It is an area of memory, as `Managed` asks.
-/
namespace EmuThreeDS
open Tiling Layout VirtualMemoryArea

abbrev InfoMap := Nat → Option AddressInfo

def AddressInfo.protect (perms : VMAPermission) (i : AddressInfo) : AddressInfo :=
  { i with permissions := perms }

namespace VMManager

/-- The address before `start` is read-write in `state`, and its byte is the one before `first`. -/
def LeftFits (g : InfoMap) (start : Nat) (state : MemoryState) (first : HostPtr) : Prop :=
  0 < start ∧ ∃ q, g (start - 1) = some ⟨.backingMemory, .readWrite, state, q⟩ ∧
    HostPtr.add q 1 = first

/-- The address `stop` is read-write in `state`, and its byte is `past`. -/
def RightFits (g : InfoMap) (stop : Nat) (state : MemoryState) (past : HostPtr) : Prop :=
  g stop = some ⟨.backingMemory, .readWrite, state, past⟩

/-- What mapping `[start, stop)` and reprotecting made of the address map: the range is as
asked, and a neighbour that fits is swept along. -/
structure MapEffect (g g' : InfoMap) (start stop : Nat) (value : Nat → AddressInfo)
    (state : MemoryState) (perms : VMAPermission) (first past : HostPtr) : Prop where
  inside : ∀ a, start ≤ a → a < stop → g' a = some (value a)
  permissions : ∀ a, start ≤ a → a < stop → (value a).permissions = perms
  below_kept : ¬ LeftFits g start state first → ∀ a < start, g' a = g a
  above_kept : ¬ RightFits g stop state past → ∀ a, stop ≤ a → g' a = g a
  below_swept : LeftFits g start state first →
    g' (start - 1) = (g (start - 1)).map (AddressInfo.protect perms)
  above_swept : RightFits g stop state past → g' stop = (g stop).map (AddressInfo.protect perms)
  unchanged : perms = .readWrite → ∀ a, ¬ (start ≤ a ∧ a < stop) → g' a = g a
  frame : ∀ a, ¬ (start ≤ a ∧ a < stop) → ∃ q, g' a = (g a).map (AddressInfo.protect q)

theorem frame_self (x : Option AddressInfo) : ∃ q, x = x.map (AddressInfo.protect q) := by
  cases x with
  | none => exact ⟨.none, rfl⟩
  | some i => exact ⟨i.permissions, rfl⟩

variable {g g₁ g₂ : InfoMap} {start mid stop : Nat} {value₁ value₂ : Nat → AddressInfo}
  {state : MemoryState} {perms : VMAPermission} {first past past₁ first₂ : HostPtr}

/-- Memory that was free before cannot fit. -/
theorem MapEffect.comp (h₁ : MapEffect g g₁ start mid value₁ state perms first past₁)
    (h₂ : MapEffect g₁ g₂ mid stop value₂ state perms first₂ past) (low : start < mid)
    (high : mid < stop) (free : ∀ i, g mid = some i → i.type = .free) :
    MapEffect g g₂ start stop (fun a => if a < mid then value₁ a else value₂ a) state perms first
      past := by
  have no_right : ¬ RightFits g mid state past₁ := fun fits => nomatch free _ fits
  have above : ∀ a, mid ≤ a → g₁ a = g a := h₁.above_kept no_right
  -- the second block cannot sweep the first one along, unless that changes nothing
  have below : ∀ a < mid, g₂ a = g₁ a := by
    intro a ha
    by_cases same : perms = .readWrite
    · exact h₂.unchanged same a (by omega)
    · refine h₂.below_kept ?_ a ha
      rintro ⟨_, q, fits, _⟩
      rw [h₁.inside (mid - 1) (by omega) (by omega), Option.some.injEq] at fits
      have perm := h₁.permissions (mid - 1) (by omega) (by omega)
      rw [fits] at perm
      exact same perm.symm
  have right : RightFits g₁ stop state past ↔ RightFits g stop state past := by
    unfold RightFits
    rw [above stop (by omega)]
  refine ⟨?_, ?_, ?_, ?_, ?_, ?_, ?_, ?_⟩
  · intro a ha ha'
    split_ifs with before
    · rw [below a before, h₁.inside a ha before]
    · exact h₂.inside a (by omega) ha'
  · intro a ha ha'
    split_ifs with before
    · exact h₁.permissions a ha before
    · exact h₂.permissions a (by omega) ha'
  · intro no_left a ha
    rw [below a (by omega), h₁.below_kept no_left a ha]
  · intro no_right' a ha
    rw [h₂.above_kept (fun fits => no_right' (right.mp fits)) a ha, above a (by omega)]
  · intro fits
    rw [below _ (by omega), h₁.below_swept fits]
  · intro fits
    rw [h₂.above_swept (right.mpr fits), above stop (by omega)]
  · intro same a ha
    rw [h₂.unchanged same a (by omega), h₁.unchanged same a (by omega)]
  · intro a ha
    by_cases before : a < mid
    · obtain ⟨q, hq⟩ := h₁.frame a (by omega)
      exact ⟨q, by rw [below a before, hq]⟩
    · obtain ⟨q, hq⟩ := h₂.frame a (by omega)
      exact ⟨q, by rw [hq, above a (by omega)]⟩

section
variable {vm : VMManager} {target size : Nat} {memory : MemoryRef}

variable {v : VirtualMemoryArea} {before after : List VirtualMemoryArea} {vm' : VMManager}
  {site : Site}

theorem find_at {m : VmaMap} {L R : List VirtualMemoryArea} (h : LaidOut m (L ++ v :: R)) :
    m.find? v.base = some v := h.holds.find?

structure Returned (g g' : InfoMap) (target size : Nat) (memory : MemoryRef) (state : MemoryState)
    (it : VirtualMemoryArea) : Prop where
  low : it.base ≤ target
  high : target + size ≤ it.base + it.size
  attributes : ∀ a, it.base ≤ a → a < it.base + it.size → g' a =
    some ⟨.backingMemory, .readWrite, state, HostPtr.add it.backingMemory.getPtr (a - it.base)⟩
  left : LeftFits g target state memory.getPtr → it.base < target
  right : RightFits g (target + size) state (HostPtr.add memory.getPtr size) →
    target + size < it.base + it.size

theorem Carved.view (inv : Inv vm)
    (valid : ValidRange target size) (carved : Carved vm.areas target size before v after) :
    Tiles 0 (before.reverse ++ v :: after) maxAddress ∧
      view (before.reverse ++ v :: after) = vm.info := by
  have fits := valid.fits
  obtain ⟨laid₁, view₁, _⟩ := inv.laidOut.laid.splitAt (Nat.zero_le (target + size)) fits
  obtain ⟨laid₂, view₂, _⟩ :=
    laid₁.splitAt (Nat.zero_le target) (show target ≤ maxAddress by omega)
  rw [carved.cut] at laid₂ view₂
  exact ⟨laid₂.tiles, view₂.trans view₁⟩

theorem mergeable_of_left_fits {p : VirtualMemoryArea} {q : HostPtr} (pos : 0 < p.size)
    (here : p.infoAt (p.base + p.size - 1) = ⟨.backingMemory, .readWrite, state, q⟩)
    (next : HostPtr.add q 1 = memory.getPtr) :
    p.mergeable (mapAttributes memory state v) = true := by
  simp only [infoAt, AddressInfo.mk.injEq] at here
  obtain ⟨type, perms, state', host⟩ := here
  rw [if_pos type] at host
  refine mergeable_iff.mpr ⟨perms, state', type, fun _ => ?_, fun mmio => ?_⟩
  · have sum : p.base + p.size - 1 - p.base + 1 = p.size := by omega
    rw [← host, HostPtr.add_add, sum] at next
    exact next
  · cases type.symm.trans mmio

theorem mergeable_of_right_fits {n : VirtualMemoryArea} (here : n.infoAt n.base =
      ⟨.backingMemory, .readWrite, state, HostPtr.add memory.getPtr v.size⟩) :
    (mapAttributes memory state v).mergeable n = true := by
  simp only [infoAt, AddressInfo.mk.injEq, Nat.sub_self, HostPtr.add_zero] at here
  obtain ⟨type, perms, state', host⟩ := here
  rw [if_pos type] at host
  exact mergeable_iff.mpr ⟨perms.symm, state'.symm, type.symm, fun _ => host.symm, (by rintro ⟨⟩)⟩

theorem returned_of_carved (inv : Inv vm) (valid : ValidRange target size)
    (carved : Carved vm.areas target size before v after) (inv' : Inv vm')
    (changed : Laid 0 (Cursor.mk before (mapAttributes memory state v) after).areas maxAddress)
    (same : vm'.areas = (Cursor.merge ⟨before, mapAttributes memory state v, after⟩).areas) :
    Returned vm.info vm'.info target size memory state
      (Cursor.merge ⟨before, mapAttributes memory state v, after⟩).here := by
  have start := carved.start
  have length := carved.length
  obtain ⟨tiles, info⟩ := carved.view inv valid
  obtain ⟨hl, _, hr⟩ := tiles_middle.mp tiles
  simp only [segment_base, segment_size, start, length] at hl hr
  obtain ⟨low, high⟩ := Cursor.merge_covers changed
  have low : _ ≤ v.base := low
  have high : v.base + v.size ≤ _ := high
  refine ⟨by omega, by omega, ?_, ?_, ?_⟩
  · obtain ⟨type, perms, state'⟩ :=
      Cursor.merge_attributes ⟨before, mapAttributes memory state v, after⟩
    intro a ha ha'
    have mem : (Cursor.merge ⟨before, mapAttributes memory state v, after⟩).here ∈ vm'.areas := by
      rw [same]
      simp [Cursor.areas]
    rw [VMManager.info, inv'.laidOut.laid.tiles.view_mem mem ⟨ha, ha'⟩]
    have type : _ = VMAType.backingMemory := type
    have perms : _ = VMAPermission.readWrite := perms
    have state' : _ = state := state'
    simp only [segment_value, infoAt, type, perms, state', if_true]
  · rintro ⟨pos, q, fits, next⟩
    cases before with
    | nil =>
      have : 0 = target := hl
      omega
    | cons p rest =>
      rw [List.reverse_cons] at hl
      obtain ⟨_, size_pos, ends⟩ := tiles_middle.mp hl
      have ends : p.base + p.size = target := ends
      have size_pos : 0 < p.size := size_pos
      have at_p := tiles.view_mem (show p ∈ (p :: rest).reverse ++ v :: after by simp)
        (show Covers p (target - 1) from ⟨by simp only [segment_base]; omega,
          by simp only [segment_base, segment_size]; omega⟩)
      rw [info, fits, Option.some.injEq] at at_p
      have joined := mergeable_of_left_fits (v := v) size_pos (ends ▸ at_p.symm) next
      have before := Cursor.merge_joins rest after joined
      omega
  · intro fits
    cases after with
    | nil =>
      have top : target + size = maxAddress := hr
      rw [RightFits, ← info, tiles.view_none (by omega)] at fits
      cases fits
    | cons n rest =>
      have base : n.base = target + size := hr.1
      have size_pos : 0 < n.size := hr.2.1
      have at_n := tiles.view_mem (show n ∈ before.reverse ++ v :: n :: rest by simp)
        (show Covers n (target + size) from ⟨by simp only [segment_base]; omega,
          by simp only [segment_base, segment_size]; omega⟩)
      rw [info, fits, Option.some.injEq, ← base, ← length] at at_n
      have joined := mergeable_of_right_fits at_n.symm
      have absorbed : (Cursor.mk before (mapAttributes memory state v) (n :: rest)).absorbNext =
          ⟨before, (mapAttributes memory state v).join n, rest⟩ := if_pos joined
      have grown := (Cursor.joinPrev_covers (Cursor.laid_absorbNext changed)).2
      rw [absorbed] at grown
      have grown : v.base + (v.size + n.size) ≤ _ := grown
      have whole : (Cursor.mk before (mapAttributes memory state v) (n :: rest)).merge = _ :=
        congrArg Cursor.joinPrev absorbed
      rw [whole]
      omega

/-- The attributes the mapping calls give to a range whose first byte is `first`. -/
def mappedValue (target : Nat) (state : MemoryState) (perms : VMAPermission) (first : HostPtr)
    (a : Nat) : AddressInfo :=
  ⟨.backingMemory, perms, state, HostPtr.add first (a - target)⟩

theorem mapBackingMemory_ok {handle : Nat} (inv : Inv vm)
    (ht : target < 0x100000000) (hs : size < 0x100000000)
    (run : mapBackingMemory vm target memory size state = .ok (.ok handle, vm')) :
    ValidRange target size ∧ FreeRoom vm.areas target size ∧ memory.getPtr ≠ none := by
  obtain ⟨_, _, run⟩ := bind_eq_ok.mp run
  obtain ⟨_, some_ptr, run⟩ := bind_eq_ok.mp run
  obtain ⟨⟨carved, m⟩, carve, run⟩ := bind_eq_ok.mp run
  cases carved with
  | error e => cases run
  | ok k =>
    obtain ⟨valid, room⟩ := carveVMA_ok inv.laidOut ht hs carve
    exact ⟨valid, room, assert_eq_ok.mp some_ptr⟩

theorem effect_of_returned {it : VirtualMemoryArea} {g g₁ g' : InfoMap}
    (pos : 0 < size)
    (mapped : g₁ = updateOn target (target + size) (fun a _ =>
      ⟨.backingMemory, .readWrite, state, HostPtr.add memory.getPtr (a - target)⟩) g)
    (room : ∀ a, target ≤ a → a < target + size → ∃ i, g a = some i)
    (returned : Returned g g₁ target size memory state it)
    (after : g' = updateOn it.base (it.base + it.size)
      (fun _ i => { i with permissions := perms }) g₁) :
    MapEffect g g' target (target + size) (mappedValue target state perms memory.getPtr) state
      perms memory.getPtr (HostPtr.add memory.getPtr size) := by
  have low := returned.low
  have high := returned.high
  have inside : ∀ a, target ≤ a → a < target + size → g₁ a =
      some ⟨.backingMemory, .readWrite, state, HostPtr.add memory.getPtr (a - target)⟩ := by
    intro a ha ha'
    obtain ⟨i, hi⟩ := room a ha ha'
    rw [mapped, updateOn_in ⟨ha, ha'⟩, hi]
    rfl
  have outside : ∀ a, ¬ (target ≤ a ∧ a < target + size) → g₁ a = g a := by
    intro a ha
    rw [mapped, updateOn_out ha]
  -- the first byte of the range, as the area sees it
  have anchor : HostPtr.add it.backingMemory.getPtr (target - it.base) = memory.getPtr := by
    have here := returned.attributes target low (by omega)
    rw [inside target (Nat.le_refl _) (by omega), Option.some.injEq] at here
    simpa using (congrArg AddressInfo.backing here).symm
  have fits_left : it.base < target → LeftFits g target state memory.getPtr := by
    intro less
    refine ⟨by omega, HostPtr.add it.backingMemory.getPtr (target - 1 - it.base), ?_, ?_⟩
    · rw [← outside (target - 1) (by omega)]
      exact returned.attributes (target - 1) (by omega) (by omega)
    · have sum : target - 1 - it.base + 1 = target - it.base := by omega
      rw [HostPtr.add_add, sum, anchor]
  have fits_right : target + size < it.base + it.size →
      RightFits g (target + size) state (HostPtr.add memory.getPtr size) := by
    intro less
    have sum : target - it.base + size = target + size - it.base := by omega
    rw [RightFits, ← outside (target + size) (by omega),
      returned.attributes (target + size) (by omega) less, ← anchor, HostPtr.add_add, sum]
  have swept : ∀ a, it.base ≤ a → a < it.base + it.size →
      g' a = (g₁ a).map (AddressInfo.protect perms) := by
    intro a ha ha'
    rw [after, updateOn_in ⟨ha, ha'⟩]
    rfl
  have kept : ∀ a, ¬ (it.base ≤ a ∧ a < it.base + it.size) → g' a = g₁ a := by
    intro a ha
    rw [after, updateOn_out ha]
  refine ⟨?_, fun _ _ _ => rfl, ?_, ?_, ?_, ?_, ?_, ?_⟩
  · intro a ha ha'
    rw [swept a (by omega) (by omega), inside a ha ha']
    rfl
  · intro no_left a ha
    have : ¬ it.base < target := fun less => no_left (fits_left less)
    rw [kept a (by omega), outside a (by omega)]
  · intro no_right a ha
    have : ¬ target + size < it.base + it.size := fun less => no_right (fits_right less)
    rw [kept a (by omega), outside a (by omega)]
  · intro fits
    have := returned.left fits
    rw [swept (target - 1) (by omega) (by omega), outside (target - 1) (by omega)]
  · intro fits
    have := returned.right fits
    rw [swept (target + size) (by omega) this, outside (target + size) (by omega)]
  · intro same a ha
    rw [← outside a ha]
    by_cases on : it.base ≤ a ∧ a < it.base + it.size
    · rw [swept a on.1 on.2, returned.attributes a on.1 on.2, same]
      rfl
    · exact kept a on
  · intro a ha
    rw [← outside a ha]
    by_cases on : it.base ≤ a ∧ a < it.base + it.size
    · exact ⟨perms, swept a on.1 on.2⟩
    · rw [kept a on]
      exact frame_self (g₁ a)

theorem free_of_room (inv : Inv vm) (room : FreeRoom vm.areas target size) {a : Nat}
    (low : target ≤ a) (high : a < target + size) :
    ∃ i, vm.info a = some i ∧ i.type = .free := by
  obtain ⟨v, hv, free, below, above⟩ := room
  refine ⟨v.infoAt a, inv.laidOut.laid.tiles.view_mem hv ⟨?_, ?_⟩, free⟩ <;>
    simp only [segment_base, segment_size] <;> omega

theorem mapAndReprotect_effect (inv : Inv vm) (ht : target < 0x100000000) (hs : size < 0x100000000)
    (enough : ValidRange target size → size ≤ memory.getSize)
    (run : mapAndReprotect site vm target memory size state perms = .ok vm') :
    Inv vm' ∧ (Managed vm → Managed vm') ∧ ValidRange target size ∧
      FreeRoom vm.areas target size ∧ MapEffect vm.info vm'.info target (target + size)
        (mappedValue target state perms memory.getPtr) state perms memory.getPtr
        (HostPtr.add memory.getPtr size) := by
  obtain ⟨⟨reply, vm₁⟩, map, run⟩ := bind_eq_ok.mp run
  cases reply with
  | error e => cases run
  | ok handle =>
    obtain ⟨valid, room, some_ptr⟩ := mapBackingMemory_ok inv ht hs map
    obtain ⟨before, mid, after, vm₂, map', inv₁, info₁, carved, changed, same⟩ :=
      mapBackingMemory_info state inv valid ⟨some_ptr, enough valid⟩ room
    obtain ⟨rfl, rfl⟩ : (Cursor.merge _).here.base = handle ∧ vm₂ = vm₁ := by
      simpa using map'.symm.trans map
    have returned := returned_of_carved inv valid carved inv₁ changed same
    have laid := inv₁.laidOut
    rw [same] at laid
    have found := find_at (L := (Cursor.merge _).before.reverse) laid
    obtain ⟨handle', vm₃, protect, inv', info', _⟩ := reprotect_info perms inv₁ found
    obtain ⟨⟨handle'', vm₄⟩, protect', run⟩ := bind_eq_ok.mp run
    obtain ⟨rfl, rfl⟩ : handle' = handle'' ∧ vm₃ = vm₄ := by
      simpa using protect.symm.trans protect'
    cases run
    refine ⟨inv', fun managed => ?_, valid, room,
      effect_of_returned valid.nonempty info₁ ?_ returned info'⟩
    · have mapped : Managed vm₂ := managed.op (.mapBackingMemory target memory size state)
        ⟨valid, some_ptr, enough valid⟩ True.intro map
      refine mapped.op (.reprotect _ perms) ⟨_, found⟩ (fun v hv => ?_)
        (bind_eq_ok.mpr ⟨_, protect, rfl⟩)
      cases found.symm.trans hv
      rw [(Cursor.merge_attributes ⟨before, mapAttributes memory state mid, after⟩).1]
      exact nofun
    · intro a ha ha'
      obtain ⟨i, hi, _⟩ := free_of_room inv room ha ha'
      exact ⟨i, hi⟩

end

section

def totalSize (blocks : List (MemoryRef × Nat)) : Nat := (blocks.map Prod.snd).sum

def firstByte : List (MemoryRef × Nat) → HostPtr
  | [] => none
  | b :: _ => b.1.getPtr

def pastByte : List (MemoryRef × Nat) → HostPtr
  | [] => none
  | [b] => HostPtr.add b.1.getPtr b.2
  | _ :: rest => pastByte rest

def blocksValue (state : MemoryState) (perms : VMAPermission) :
    Nat → List (MemoryRef × Nat) → Nat → AddressInfo
  | target, [], a => mappedValue target state perms none a
  | target, b :: rest, a =>
    if a < target + b.2 then mappedValue target state perms b.1.getPtr a
    else blocksValue state perms (target + b.2) rest a

/-- A block whose host memory reaches to its end, as far as it can be mapped at all. -/
def BlockOk (b : MemoryRef × Nat) : Prop :=
  b.2 < 0x100000000 ∧ (0 < b.2 → b.2 ≤ maxAddress → b.2 ≤ b.1.getSize)

theorem MapEffect.congr {value value' : Nat → AddressInfo}
    (h : MapEffect g g₁ start stop value state perms first past)
    (same : ∀ a, start ≤ a → a < stop → value' a = value a) :
    MapEffect g g₁ start stop value' state perms first past := by
  refine ⟨?_, ?_, h.below_kept, h.above_kept, h.below_swept, h.above_swept, h.unchanged, h.frame⟩
  · intro a ha ha'
    rw [same a ha ha']
    exact h.inside a ha ha'
  · intro a ha ha'
    rw [same a ha ha']
    exact h.permissions a ha ha'

theorem mapBlocks_effect {vm : VMManager} {target : Nat}
    {b : MemoryRef × Nat} {rest : List (MemoryRef × Nat)} (inv : Inv vm)
    (ht : target < 0x100000000) (blocks : ∀ c ∈ b :: rest, BlockOk c)
    (run : mapBlocks site state perms vm target (b :: rest) = .ok vm') :
    Inv vm' ∧ (Managed vm → Managed vm') ∧ ValidRange target (totalSize (b :: rest)) ∧
      (∀ a, target ≤ a → a < target + totalSize (b :: rest) →
        ∃ i, vm.info a = some i ∧ i.type = .free) ∧
      MapEffect vm.info vm'.info target (target + totalSize (b :: rest))
        (blocksValue state perms target (b :: rest)) state perms b.1.getPtr
        (pastByte (b :: rest)) := by
  induction rest generalizing vm target b with
  | nil =>
    obtain ⟨vm₁, step, run⟩ := bind_eq_ok.mp run
    cases run
    obtain ⟨small, enough⟩ := blocks b List.mem_cons_self
    obtain ⟨inv', managed, valid, room, effect⟩ := mapAndReprotect_effect inv ht small (fun valid =>
      enough valid.nonempty (Nat.le_trans (Nat.le_add_left _ _) valid.fits)) step
    refine ⟨inv', managed, valid, fun a => free_of_room inv room, effect.congr ?_⟩
    intro a _ ha
    exact if_pos ha
  | cons c rest ih =>
    obtain ⟨vm₁, step, run⟩ := bind_eq_ok.mp run
    obtain ⟨small, enough⟩ := blocks b List.mem_cons_self
    obtain ⟨inv₁, managed, valid, room, effect⟩ := mapAndReprotect_effect inv ht small (fun valid =>
      enough valid.nonempty (Nat.le_trans (Nat.le_add_left _ _) valid.fits)) step
    have fits := valid.fits
    have pos := valid.nonempty
    have top : maxAddress = 0x40000000 := rfl
    have next : add32 target b.2 = target + b.2 := valid.targetEnd
    rw [next] at run
    obtain ⟨inv', managed', valid', free', effect'⟩ := ih inv₁ (by omega)
      (fun d hd => blocks d (List.mem_cons_of_mem b hd)) run
    have total : totalSize (b :: c :: rest) = b.2 + totalSize (c :: rest) := rfl
    have pos' := valid'.nonempty
    have fits' := valid'.fits
    have sum : target + b.2 + totalSize (c :: rest) = target + totalSize (b :: c :: rest) := by
      omega
    -- what the second block found free was free before the first one came
    have later : ∀ a, target + b.2 ≤ a → a < target + totalSize (b :: c :: rest) →
        ∃ i, vm.info a = some i ∧ i.type = .free := by
      intro a ha ha'
      obtain ⟨i, hi, type⟩ := free' a ha (by omega)
      obtain ⟨q, hq⟩ := effect.frame a (by omega)
      rw [hi] at hq
      cases here : vm.info a with
      | none =>
        rw [here] at hq
        cases hq
      | some j =>
        rw [here] at hq
        cases hq
        exact ⟨j, rfl, type⟩
    refine ⟨inv', fun h => managed' (managed h), ⟨valid.alignedTarget, ?_, by omega, by omega⟩, ?_,
      ?_⟩
    · exact aligned_add valid.alignedSize valid'.alignedSize
    · intro a ha ha'
      by_cases before : a < target + b.2
      · exact free_of_room inv room ha before
      · exact later a (Nat.not_lt.mp before) ha'
    · have both := effect.comp effect' (by omega) (by omega) (by
        intro i hi
        obtain ⟨j, hj, type⟩ := later (target + b.2) (Nat.le_refl _) (by omega)
        rw [hi] at hj
        cases hj
        exact type)
      rw [← sum]
      exact both.congr fun a _ _ => rfl

end

end VMManager
end EmuThreeDS
