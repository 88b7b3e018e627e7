import EmuThreeDS.Kernel.MapEffect
import EmuThreeDS.Kernel.Region

/-!
# The host blocks behind a range

`GetBackingBlocksForRange` lists the host memory of a range, and the mapping calls map such a
list. Here are the blocks a call can be given, and what they hold.
-/
namespace EmuThreeDS
open Tiling VirtualMemoryArea Intervals

namespace VMManager

/-- `blocks` lists the host memory of the addresses from `address` on, without gaps. -/
def Backs (g : InfoMap) : Nat → List (MemoryRef × Nat) → Prop
  | _, [] => True
  | address, b :: rest => 0 < b.2 ∧ b.2 ≤ b.1.getSize ∧
      (∀ i < b.2, ∃ info, g (address + i) = some info ∧ info.type = .backingMemory ∧
        info.backing = HostPtr.add b.1.getPtr i) ∧
      Backs g (address + b.2) rest

theorem getSize_none {r : MemoryRef} (h : r.getPtr = none) : r.getSize = 0 := by
  cases hb : r.backingMem with
  | none => simp [MemoryRef.getSize, hb]
  | some b => simp [MemoryRef.getPtr, hb] at h

variable {address targetEnd : Nat} {g : InfoMap} {blocks rest : List (MemoryRef × Nat)}
  {b : MemoryRef × Nat} {v : VirtualMemoryArea} {vm : VMManager}

theorem Backs.blockOk {top : Nat} (h : Backs g address blocks)
    (fits : address + totalSize blocks ≤ top)
    (small : top < 0x100000000) : ∀ b ∈ blocks, BlockOk b := by
  induction blocks generalizing address with
  | nil => exact nofun
  | cons c rest ih =>
    obtain ⟨_, enough, _, later⟩ := h
    have total : totalSize (c :: rest) = c.2 + totalSize rest := rfl
    intro b hb
    rcases List.mem_cons.mp hb with rfl | hb
    · exact ⟨by omega, fun _ _ => enough⟩
    · exact ih later (by omega) b hb

theorem Backs.first (h : Backs g address (b :: rest)) :
    ∃ info, g address = some info ∧ info.type = .backingMemory ∧ info.backing = b.1.getPtr := by
  obtain ⟨pos, _, bytes, _⟩ := h
  simpa using bytes 0 pos

theorem Backs.past (h : Backs g address (b :: rest)) :
    ∃ info, g (address + totalSize (b :: rest) - 1) = some info ∧
      HostPtr.add info.backing 1 = pastByte (b :: rest) := by
  induction rest generalizing address b with
  | nil =>
    obtain ⟨pos, _, bytes, _⟩ := h
    obtain ⟨info, here, _, ptr⟩ := bytes (b.2 - 1) (by omega)
    have last : address + (b.2 - 1) = address + totalSize [b] - 1 := by
      simp only [totalSize, List.map_cons, List.map_nil, List.sum_cons, List.sum_nil]
      omega
    have sum : b.2 - 1 + 1 = b.2 := by omega
    exact ⟨info, last ▸ here, by rw [ptr, HostPtr.add_add, sum]; rfl⟩
  | cons c rest ih =>
    obtain ⟨info, here, ptr⟩ := ih h.2.2.2
    have total : totalSize (b :: c :: rest) = b.2 + totalSize (c :: rest) := rfl
    rw [total, ← Nat.add_assoc]
    exact ⟨info, here, ptr⟩

theorem Backs.mem (h : Backs g address blocks) (hb : b ∈ blocks) {i : Nat} (hi : i < b.2) :
    ∃ a info, address ≤ a ∧ a < address + totalSize blocks ∧ g a = some info ∧
      info.type = .backingMemory ∧ info.backing = HostPtr.add b.1.getPtr i := by
  induction blocks generalizing address with
  | nil => exact nomatch hb
  | cons c rest ih =>
    obtain ⟨_, _, bytes, later⟩ := h
    have total : totalSize (c :: rest) = c.2 + totalSize rest := rfl
    rcases List.mem_cons.mp hb with rfl | hb
    · obtain ⟨info, here, type, ptr⟩ := bytes i hi
      exact ⟨address + i, info, by omega, by omega, here, type, ptr⟩
    · obtain ⟨a, info, low, high, rest⟩ := ih later hb
      exact ⟨a, info, by omega, by omega, rest⟩

/-- The part of the area `v` from `address` on, as far as the range goes. -/
def areaBlock (v : VirtualMemoryArea) (address targetEnd : Nat) : MemoryRef × Nat :=
  ({ v.backingMemory with offset := v.backingMemory.offset + (address - v.base) },
    min targetEnd (v.base + v.size) - address)

theorem backingBlocksLoop_turn {m : VmaMap} {L R : List VirtualMemoryArea} (fuel : Nat)
    (acc : List (MemoryRef × Nat))
    (h : LaidOut m (L ++ v :: R)) (covers : Covers v address) (inside : address < targetEnd)
    (fits : targetEnd ≤ maxAddress) : backingBlocksLoop m targetEnd (fuel + 1) address acc =
      if v.type ≠ .backingMemory then .ok (.error .invalidAddressState)
      else backingBlocksLoop m targetEnd fuel (min targetEnd (v.base + v.size))
        (acc ++ [areaBlock v address targetEnd]) := by
  have bounds := area_bounds h
  have found := findVMA_at h covers
  obtain ⟨below, above⟩ : v.base ≤ address ∧ address < v.base + v.size := covers
  have top : maxAddress = 0x40000000 := rfl
  have ends : add32 v.base v.size = v.base + v.size := add32_eq (by omega)
  have offset : sub32 address v.base = address - v.base := sub32_eq below (by omega)
  have length : sub32 (min targetEnd (v.base + v.size)) address =
      min targetEnd (v.base + v.size) - address := sub32_eq (by omega) (by omega)
  have next : add32 address (min targetEnd (v.base + v.size) - address) =
      min targetEnd (v.base + v.size) := by
    rw [add32_eq (by omega)]
    omega
  rw [backingBlocksLoop, if_neg (Nat.ne_of_lt inside)]
  simp only [found, ok_bind, deref_at h, ends, offset, length]
  split_ifs with type
  · rfl
  · have whole := h.laid.backed v (by simp) (not_not.mp type)
    have enough : address - v.base < v.backingMemory.getSize := by omega
    simp only [MemoryRef.advance, assert_pos enough, ok_bind, pure_eq_ok, next, areaBlock]

theorem areaBlock_enough (targetEnd : Nat)
    (backed : v.Backed) (type : v.type = .backingMemory) (covers : Covers v address) :
    (areaBlock v address targetEnd).2 ≤ (areaBlock v address targetEnd).1.getSize := by
  have whole := backed type
  obtain ⟨below, above⟩ : v.base ≤ address ∧ address < v.base + v.size := covers
  cases hb : v.backingMemory.backingMem with
  | none =>
    simp only [MemoryRef.getSize, hb] at whole
    omega
  | some b =>
    simp only [MemoryRef.getSize, hb, areaBlock] at whole ⊢
    omega

theorem backingBlocksLoop_ok {fuel : Nat} {acc : List (MemoryRef × Nat)} (inv : Inv vm)
    (fits : targetEnd ≤ maxAddress) (low : address ≤ targetEnd)
    (run : backingBlocksLoop vm.vmaMap targetEnd fuel address acc = .ok (.ok blocks)) :
    ∃ new, blocks = acc ++ new ∧ Backs vm.info address new ∧
      address + totalSize new = targetEnd := by
  induction fuel generalizing address acc with
  | zero => cases run
  | succ fuel ih =>
    by_cases done : address = targetEnd
    · rw [backingBlocksLoop, if_pos done] at run
      cases run
      exact ⟨[], (List.append_nil _).symm, True.intro, done⟩
    · have inside : address < targetEnd := Nat.lt_of_le_of_ne low done
      obtain ⟨L, v, R, split, covers, _⟩ :=
        findVMA_total inv.laidOut (Nat.lt_of_lt_of_le inside fits)
      have h := inv.laidOut
      rw [split] at h
      rw [backingBlocksLoop_turn fuel acc h covers inside fits] at run
      split_ifs at run with type
      · cases run
      · have type : v.type = .backingMemory := not_not.mp type
        have enough := areaBlock_enough targetEnd (h.laid.backed v (by simp)) type covers
        obtain ⟨below, above⟩ : v.base ≤ address ∧ address < v.base + v.size := covers
        obtain ⟨new, rfl, backs, sum⟩ := ih (Nat.min_le_left _ _) run
        have next : address + (areaBlock v address targetEnd).2 =
            min targetEnd (v.base + v.size) := by
          simp only [areaBlock]
          omega
        refine ⟨_ :: new, List.append_assoc _ _ _, ⟨?_, enough, ?_, next ▸ backs⟩, ?_⟩
        · omega
        · intro i hi
          have onArea : Covers v (address + i) := by
            unfold Covers
            simp only [segment_base, segment_size, areaBlock] at hi ⊢
            omega
          refine ⟨v.infoAt (address + i), ?_, type, ?_⟩
          · rw [VMManager.info, split]
            exact h.laid.tiles.view_at onArea
          · have shift : address - v.base + i = address + i - v.base := by omega
            simp only [infoAt, type, if_true, areaBlock, MemoryRef.getPtr_offset,
              HostPtr.add_add, shift]
        · simp only [totalSize, List.map_cons, List.sum_cons] at sum ⊢
          omega

theorem getBackingBlocksForRange_ok {size : Nat} (inv : Inv vm) (fits : address + size ≤ maxAddress)
    (run : vm.getBackingBlocksForRange address size = .ok (.ok blocks)) :
    Backs vm.info address blocks ∧ totalSize blocks = size := by
  have top : maxAddress = 0x40000000 := rfl
  have ends : add32 address size = address + size := add32_eq (by omega)
  rw [getBackingBlocksForRange, ends] at run
  obtain ⟨new, rfl, backs, sum⟩ := backingBlocksLoop_ok inv fits (Nat.le_add_right _ _) run
  exact ⟨backs, by omega⟩

end VMManager

def fcramBlock (b : Block) : MemoryRef × Nat := (⟨some fcram, b.lower⟩, b.length)

namespace VMManager

theorem fcramBlock_ok {b : Block} (h : b.upper ≤ fcramSize) : BlockOk (fcramBlock b) := by
  have size : fcramSize = 0x10000000 := rfl
  have whole : fcram.size = fcramSize := rfl
  refine ⟨?_, fun _ _ => ?_⟩ <;> simp only [fcramBlock, Block.length, MemoryRef.getSize, whole] <;>
    omega

theorem totalSize_fcram (bs : List Block) : totalSize (bs.map fcramBlock) = total bs := by
  simp only [totalSize, total, List.map_map]
  rfl

theorem mapIntervals_ok {vm' : VMManager}
    (run : Process.mapIntervals state perms vm target bs = .ok vm') :
    mapBlocks .heapAllocate state perms vm target (bs.map fcramBlock) = .ok vm' := by
  induction bs generalizing vm target with
  | nil => exact run
  | cons b rest ih =>
    obtain ⟨_, _, run⟩ := bind_eq_ok.mp run
    obtain ⟨memory, ref, run⟩ := bind_eq_ok.mp run
    obtain ⟨_, _, ref⟩ := bind_eq_ok.mp ref
    cases ref
    obtain ⟨vm₁, step, run⟩ := bind_eq_ok.mp run
    exact bind_eq_ok.mpr ⟨vm₁, step, ih run⟩

theorem mapIntervals_eq (inside : ∀ b ∈ bs, b.lower < b.upper ∧ b.upper ≤ fcramSize) :
    Process.mapIntervals state perms vm target bs =
      mapBlocks .heapAllocate state perms vm target (bs.map fcramBlock) := by
  induction bs generalizing vm target with
  | nil => rfl
  | cons b rest ih =>
    obtain ⟨nonempty, high⟩ := inside b List.mem_cons_self
    have low : b.lower ≤ fcramSize := Nat.le_trans (Nat.le_of_lt nonempty) high
    have fill : fillFCRAM b.lower b.upper = .ok () := by
      rw [fillFCRAM, assert_pos low, assert_pos high]
      rfl
    have ref : getFCRAMRef b.lower = .ok ⟨some fcram, b.lower⟩ := by
      rw [getFCRAMRef, assert_pos low]
      rfl
    have step : ∀ vm target, Process.mapIntervals state perms vm target rest = _ :=
      fun vm target => ih (fun c hc => inside c (List.mem_cons_of_mem b hc))
    simp only [Process.mapIntervals, fill, ref, ok_bind, step]
    rfl

end VMManager
end EmuThreeDS
