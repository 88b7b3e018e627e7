import EmuThreeDS.Lib.Blit
import EmuThreeDS.Kernel.GuestMemory
import EmuThreeDS.Video.RasterizerCache

/-!
# Writing back fill surfaces

`DownloadFillSurface` of `rasterizer_cache.h`. Host memory is a function of the block and the
place in it; guest memory is what `GetPhysicalRef` finds of it.
-/
namespace EmuThreeDS.VideoCore

open Blit Intervals Layout

structure FillSurface extends SurfaceParams where
  fillSize : Nat
  fillData : List UInt8
  sized : fillSize = 2 ∨ fillSize = 3 ∨ fillSize = 4
  fourBytes : fillData.length = 4

def hostByte (paddr : Nat) : Option HostLoc :=
  match (getPhysicalRef paddr).backingMem with
  | some block =>
    if (getPhysicalRef paddr).offset < block.size then some (block, (getPhysicalRef paddr).offset)
    else none
  | none => none

def memoryBlocks : List (BackingMem × Nat) :=
  [(vram, vramPaddr), (dspRam, dspRamPaddr), (fcram, fcramPaddr), (n3dsExtraRam, n3dsExtraRamPaddr)]

section

variable {block : BackingMem} {base base' n paddr : Nat} {loc : HostLoc}

theorem mem_memoryBlocks : (block, base) ∈ memoryBlocks ↔
    block = vram ∧ base = vramPaddr ∨ block = dspRam ∧ base = dspRamPaddr ∨
      block = fcram ∧ base = fcramPaddr ∨ block = n3dsExtraRam ∧ base = n3dsExtraRamPaddr := by
  simp only [memoryBlocks, List.mem_cons, Prod.mk.injEq, List.not_mem_nil, or_false]

theorem memoryBlocks_unique (member : (block, base) ∈ memoryBlocks)
    (member' : (block, base') ∈ memoryBlocks) : base = base' := by
  rw [mem_memoryBlocks] at member member'
  rcases member with ⟨rfl, rfl⟩ | ⟨rfl, rfl⟩ | ⟨rfl, rfl⟩ | ⟨rfl, rfl⟩ <;>
    simpa [vram, dspRam, fcram, n3dsExtraRam, eq_comm] using member'

theorem getPhysicalRef_block (member : (block, base) ∈ memoryBlocks) (inside : n ≤ block.size) :
    getPhysicalRef (base + n) = ⟨some block, n⟩ := by
  rcases mem_memoryBlocks.mp member with ⟨rfl, rfl⟩ | ⟨rfl, rfl⟩ | ⟨rfl, rfl⟩ | ⟨rfl, rfl⟩
  · exact Process.getPhysicalRef_vram inside
  · exact Process.getPhysicalRef_dspRam inside
  · have past_vram : vramPaddr + vramSize < fcramPaddr := by decide
    have past_dsp : dspRamPaddr + dspRamSize < fcramPaddr := by decide
    rw [getPhysicalRef, if_neg (by omega), if_neg (by omega),
      if_pos ⟨Nat.le_add_right _ _, Nat.add_le_add_left inside _⟩, Nat.add_sub_cancel_left]
  · exact Process.getPhysicalRef_n3dsExtraRam inside

theorem getPhysicalRef_cases (paddr : Nat) : getPhysicalRef paddr = {} ∨
    ∃ block base n, (block, base) ∈ memoryBlocks ∧ n ≤ block.size ∧ paddr = base + n := by
  by_cases known : getPhysicalRef paddr = {}
  · exact .inl known
  · refine .inr ?_
    rw [getPhysicalRef] at known
    split_ifs at known with inVram inDsp inFcram inExtra
    · exact ⟨vram, vramPaddr, paddr - vramPaddr, by simp [memoryBlocks],
        Nat.sub_le_of_le_add (Nat.add_comm vramPaddr _ ▸ inVram.2), by omega⟩
    · exact ⟨dspRam, dspRamPaddr, paddr - dspRamPaddr, by simp [memoryBlocks],
        Nat.sub_le_of_le_add (Nat.add_comm dspRamPaddr _ ▸ inDsp.2), by omega⟩
    · exact ⟨fcram, fcramPaddr, paddr - fcramPaddr, by simp [memoryBlocks],
        Nat.sub_le_of_le_add (Nat.add_comm fcramPaddr _ ▸ inFcram.2), by omega⟩
    · exact ⟨n3dsExtraRam, n3dsExtraRamPaddr, paddr - n3dsExtraRamPaddr, by simp [memoryBlocks],
        Nat.sub_le_of_le_add (Nat.add_comm n3dsExtraRamPaddr _ ▸ inExtra.2), by omega⟩
    · exact absurd rfl known

theorem hostByte_iff : hostByte paddr = some loc ↔
    ∃ base, (loc.1, base) ∈ memoryBlocks ∧ loc.2 < loc.1.size ∧ paddr = base + loc.2 := by
  constructor
  · intro found
    rcases getPhysicalRef_cases paddr with none | ⟨block, base, n, member, inside, rfl⟩
    · rw [hostByte, none] at found
      cases found
    · rw [hostByte, getPhysicalRef_block member inside] at found
      dsimp only at found
      split_ifs at found with below
      cases found
      exact ⟨base, member, below, rfl⟩
  · rintro ⟨base, member, below, rfl⟩
    rw [hostByte, getPhysicalRef_block member (Nat.le_of_lt below)]
    exact if_pos below

end

namespace FillSurface

variable (surface : FillSurface)

def pattern (n : Nat) : UInt8 := surface.fillData.getD (n % surface.fillSize) 0

def fillByte (paddr : Nat) : UInt8 := surface.pattern (paddr - surface.addr)

def fillLoop (dest downloadSize : Nat) (cells : Nat → UInt8) (offset : Nat) : Nat → UInt8 :=
  if _ : offset < downloadSize then
    let copied := surface.fillData.take (min surface.fillSize (downloadSize - offset))
    fillLoop dest downloadSize (blit cells (dest + offset) copied) (offset + surface.fillSize)
  else cells
termination_by downloadSize - offset
decreasing_by
  have := surface.sized
  omega

/-- The head of the first copy is read before the loop and written back behind it. -/
def writeFill (dest startOffset downloadSize : Nat) (cells : Nat → UInt8) : Nat → UInt8 :=
  let coarseStartOffset := startOffset - startOffset % surface.fillSize
  let backupBytes := startOffset % surface.fillSize
  let backupData := slice cells (dest + coarseStartOffset) backupBytes
  let filled := surface.fillLoop dest downloadSize cells coarseStartOffset
  blit filled (dest + coarseStartOffset) backupData

def BackupInside (interval : Block) : Prop :=
  (getPhysicalRef interval.lower).getPtr ≠ none →
  (interval.lower - surface.addr) % surface.fillSize ≠ 0 →
    interval.lower - surface.addr ≤ (getPhysicalRef interval.lower).getSize

instance (interval : Block) : Decidable (surface.BackupInside interval) := by
  unfold BackupInside
  infer_instance

def downloadFillSurface (interval : Block) (bytes : HostLoc → UInt8) : Exec (HostLoc → UInt8) := do
  assert .surface (surface.addr ≤ interval.lower ∧ interval.upper ≤ surface.endAddr)
  let destPtr := getPhysicalRef interval.lower
  match destPtr.getPtr with
  | none => return bytes
  | some (block, dest) =>
    let downloadSize := min (interval.upper - interval.lower) destPtr.getSize
    if surface.BackupInside interval then
      let cells := surface.writeFill dest (interval.lower - surface.addr) downloadSize
        fun place => bytes (block, place)
      return fun loc => if loc.1 = block then cells loc.2 else bytes loc
    else .error .undefinedBehaviour

def Reaches (interval : Block) (paddr : Nat) : Prop :=
  interval.lower + (interval.lower - surface.addr) ≤ paddr ∧
    paddr < interval.lower + (getPhysicalRef interval.lower).getSize

instance (interval : Block) (paddr : Nat) : Decidable (surface.Reaches interval paddr) :=
  inferInstanceAs (Decidable (_ ∧ _))

/-- Where the copies reach, the pattern from the start of the flush is the one from the start of
the surface; elsewhere in the interval the fill is in memory already. -/
def InPhase (interval : Block) (bytes : HostLoc → UInt8) : Prop :=
  ∀ paddr loc, interval.lower ≤ paddr → paddr < interval.upper → hostByte paddr = some loc →
    if surface.Reaches interval paddr then
      surface.pattern (paddr - interval.lower) = surface.fillByte paddr
    else bytes loc = surface.fillByte paddr

/-- The guest's bytes in the interval are those of the fill, and its others are as they were. -/
def Written (interval : Block) (bytes bytes' : HostLoc → UInt8) : Prop :=
  ∀ paddr loc, hostByte paddr = some loc →
    bytes' loc = if interval.lower ≤ paddr ∧ paddr < interval.upper then surface.fillByte paddr
      else bytes loc

variable {surface} {interval : Block} {bytes bytes' : HostLoc → UInt8} {cells : Nat → UInt8}
  {dest downloadSize offset startOffset n : Nat}

theorem fillSize_le (surface : FillSurface) : surface.fillSize ≤ surface.fillData.length := by
  have := surface.sized
  have := surface.fourBytes
  omega

theorem pattern_add_fillSize : surface.pattern (n + surface.fillSize) = surface.pattern n := by
  rw [pattern, Nat.add_mod_right, pattern]

theorem getD_take_fillData {count : Nat} (inside : n < count) (short : count ≤ surface.fillSize) :
    (surface.fillData.take count).getD n 0 = surface.pattern n := by
  rw [pattern, Nat.mod_eq_of_lt (Nat.lt_of_lt_of_le inside short)]
  simp only [List.getD_eq_getElem?_getD, List.getElem?_take_of_lt inside]

theorem fillLoop_apply (place : Nat) : surface.fillLoop dest downloadSize cells offset place =
    if dest + offset ≤ place ∧ place < dest + downloadSize then
      surface.pattern (place - (dest + offset)) else cells place := by
  have enough := fillSize_le surface
  induction cells, offset using fillLoop.induct surface dest downloadSize with
  | case1 cells offset inside copied ih =>
    have length : copied.length = min surface.fillSize (downloadSize - offset) := by
      rw [List.length_take]
      omega
    rw [fillLoop, dif_pos inside, ih]
    by_cases later : dest + (offset + surface.fillSize) ≤ place ∧ place < dest + downloadSize
    · have next : place - (dest + offset) =
          place - (dest + (offset + surface.fillSize)) + surface.fillSize := by omega
      rw [if_pos later, if_pos ⟨by omega, later.2⟩, next, pattern_add_fillSize]
    · rw [if_neg later]
      by_cases here : dest + offset ≤ place ∧ place < dest + downloadSize
      · rw [if_pos here, blit_getD 0 here.1 (by omega)]
        exact getD_take_fillData (by omega) (Nat.min_le_left _ _)
      · rw [if_neg here]
        rcases Nat.lt_or_ge place (dest + offset) with before | behind
        · exact blit_before before
        · exact blit_behind (by omega)
  | case2 cells offset outside =>
    rw [fillLoop, dif_neg outside, if_neg (by omega)]

/-- The fill starts at the place that is as far behind the flush as the flush is behind the
surface, with the pattern as it is at the start of the flush. -/
theorem writeFill_apply (place : Nat) : surface.writeFill dest startOffset downloadSize cells place =
    if dest + startOffset ≤ place ∧ place < dest + downloadSize then surface.pattern (place - dest)
    else cells place := by
  have split := Nat.div_add_mod startOffset surface.fillSize
  have coarse : startOffset - startOffset % surface.fillSize =
      surface.fillSize * (startOffset / surface.fillSize) := by omega
  rw [writeFill, blit_slice, fillLoop_apply, coarse]
  by_cases head : dest + surface.fillSize * (startOffset / surface.fillSize) ≤ place ∧
      place < dest + surface.fillSize * (startOffset / surface.fillSize) +
        startOffset % surface.fillSize
  · rw [if_pos head, if_neg (by omega)]
  · rw [if_neg head]
    by_cases filled : dest + startOffset ≤ place ∧ place < dest + downloadSize
    · have phase : place - dest = place - (dest + surface.fillSize *
          (startOffset / surface.fillSize)) + surface.fillSize *
            (startOffset / surface.fillSize) := by omega
      rw [if_pos filled, if_pos (by omega), phase, pattern, pattern, Nat.add_mul_mod_self_left]
    · rw [if_neg filled, if_neg (by omega)]

theorem downloadFillSurface_block {block : BackingMem} {base : Nat}
    (start : surface.addr ≤ interval.lower) (stop : interval.upper ≤ surface.endAddr)
    (member : (block, base) ∈ memoryBlocks) (inside : dest ≤ block.size)
    (at_lower : interval.lower = base + dest) (backup : surface.BackupInside interval) :
    surface.downloadFillSurface interval bytes = .ok fun loc => if loc.1 = block then
        surface.writeFill dest (interval.lower - surface.addr)
          (min (interval.upper - interval.lower) (block.size - dest))
          (fun place => bytes (block, place)) loc.2 else bytes loc := by
  have ref : getPhysicalRef interval.lower = ⟨some block, dest⟩ := by
    rw [at_lower]
    exact getPhysicalRef_block member inside
  rw [downloadFillSurface, assert_pos ⟨start, stop⟩, ref]
  exact if_pos backup

theorem download_apply {block : BackingMem} {base paddr : Nat} {loc : HostLoc}
    (member : (block, base) ∈ memoryBlocks) (inside : dest ≤ block.size)
    (at_lower : interval.lower = base + dest) (found : hostByte paddr = some loc) :
    (if loc.1 = block then surface.writeFill dest (interval.lower - surface.addr)
          (min (interval.upper - interval.lower) (block.size - dest))
          (fun place => bytes (block, place)) loc.2 else bytes loc) =
      if surface.Reaches interval paddr ∧ paddr < interval.upper then
        surface.pattern (paddr - interval.lower) else bytes loc := by
  have size : (getPhysicalRef interval.lower).getSize = block.size - dest := by
    rw [at_lower, getPhysicalRef_block member inside]
    rfl
  obtain ⟨base', member', below, place⟩ := hostByte_iff.mp found
  by_cases same : loc.1 = block
  · obtain ⟨other, place'⟩ := loc
    dsimp only at same member' below place ⊢
    subst same
    obtain rfl := memoryBlocks_unique member member'
    have reaches : surface.Reaches interval paddr ∧ paddr < interval.upper ↔
        dest + (interval.lower - surface.addr) ≤ place' ∧
          place' < dest + min (interval.upper - interval.lower) (other.size - dest) := by
      unfold Reaches
      omega
    rw [if_pos rfl, writeFill_apply]
    refine if_congr reaches.symm ?_ rfl
    congr 1
    omega
  · rw [if_neg same, if_neg]
    rintro ⟨⟨start, stop⟩, _⟩
    have here : hostByte paddr = some (block, paddr - base) :=
      hostByte_iff.mpr ⟨base, member, by dsimp only; omega, by omega⟩
    cases found.symm.trans here
    exact same rfl

theorem written_iff_inPhase (result : ∀ paddr loc, hostByte paddr = some loc → bytes' loc =
    if surface.Reaches interval paddr ∧ paddr < interval.upper then
      surface.pattern (paddr - interval.lower)
    else bytes loc) : surface.Written interval bytes bytes' ↔ surface.InPhase interval bytes := by
  constructor
  · intro written paddr loc start stop found
    have here := result paddr loc found
    rw [written paddr loc found, if_pos ⟨start, stop⟩] at here
    by_cases reaches : surface.Reaches interval paddr
    · rw [if_pos ⟨reaches, stop⟩] at here
      rw [if_pos reaches, here]
    · rw [if_neg fun both => reaches both.1] at here
      rw [if_neg reaches, here]
  · intro phase paddr loc found
    rw [result paddr loc found]
    by_cases within : interval.lower ≤ paddr ∧ paddr < interval.upper
    · have here := phase paddr loc within.1 within.2 found
      by_cases reaches : surface.Reaches interval paddr
      · rw [if_pos reaches] at here
        rw [if_pos ⟨reaches, within.2⟩, if_pos within, here]
      · rw [if_neg reaches] at here
        rw [if_neg fun both => reaches both.1, if_pos within, here]
    · have apart : ¬ (surface.Reaches interval paddr ∧ paddr < interval.upper) := fun both =>
        within ⟨Nat.le_trans (Nat.le_add_right _ _) both.1.1, both.2⟩
      rw [if_neg apart, if_neg within]

section

variable (start : surface.addr ≤ interval.lower) (stop : interval.upper ≤ surface.endAddr)
include start stop

theorem inPhase_of_written {block : BackingMem} {base : Nat}
    (member : (block, base) ∈ memoryBlocks) (inside : dest ≤ block.size)
    (lower : interval.lower = base + dest) (backup : surface.BackupInside interval)
    (run : surface.downloadFillSurface interval bytes = .ok bytes')
    (written : surface.Written interval bytes bytes') : surface.InPhase interval bytes := by
  rw [downloadFillSurface_block start stop member inside lower backup] at run
  rw [← Except.ok.inj run] at written
  exact (written_iff_inPhase fun paddr loc found =>
    download_apply member inside lower found).mp written

theorem downloadFillSurface_none (none : getPhysicalRef interval.lower = {}) :
    surface.downloadFillSurface interval bytes = .ok bytes := by
  rw [downloadFillSurface, assert_pos ⟨start, stop⟩, none]
  rfl

end

/-- A flush writes the fill exactly if it reads no byte outside of the memory and is in phase. -/
theorem downloads_fill_iff (surface : FillSurface) (interval : Block) (bytes : HostLoc → UInt8)
    (start : surface.addr ≤ interval.lower) (stop : interval.upper ≤ surface.endAddr) :
    (∃ bytes', surface.downloadFillSurface interval bytes = .ok bytes' ∧
      surface.Written interval bytes bytes') ↔
      surface.BackupInside interval ∧ surface.InPhase interval bytes := by
  rcases getPhysicalRef_cases interval.lower with none | ⟨block, base, dest, member, inside, lower⟩
  · have backup : surface.BackupInside interval := by
      intro some
      rw [none] at some
      exact absurd rfl some
    have nothing : ∀ paddr loc, hostByte paddr = some loc → bytes loc =
        if surface.Reaches interval paddr ∧ paddr < interval.upper then
          surface.pattern (paddr - interval.lower)
        else bytes loc := by
      intro paddr loc _
      refine (if_neg ?_).symm
      rintro ⟨⟨low, high⟩, _⟩
      rw [none] at high
      exact absurd (Nat.le_trans (Nat.le_add_right _ _) low) (Nat.not_le_of_lt high)
    rw [downloadFillSurface_none start stop none, and_iff_right backup,
      ← written_iff_inPhase nothing]
    exact ⟨fun ⟨_, same, written⟩ => Except.ok.inj same ▸ written, fun written => ⟨_, rfl, written⟩⟩
  · by_cases backup : surface.BackupInside interval
    · constructor
      · rintro ⟨bytes', run, written⟩
        exact ⟨backup, inPhase_of_written start stop member inside lower backup run written⟩
      · rintro ⟨_, phase⟩
        refine ⟨_, downloadFillSurface_block start stop member inside lower backup, ?_⟩
        exact (written_iff_inPhase fun paddr loc found =>
          download_apply member inside lower found).mpr phase
    · have ref : getPhysicalRef interval.lower = ⟨some block, dest⟩ := by
        rw [lower]
        exact getPhysicalRef_block member inside
      refine iff_of_false ?_ fun both => backup both.1
      rintro ⟨_, run, _⟩
      rw [downloadFillSurface, assert_pos ⟨start, stop⟩, ref] at run
      dsimp only [MemoryRef.getPtr, Option.map] at run
      rw [if_neg backup] at run
      cases run

theorem inPhase_of_start (whole : interval.lower = surface.addr)
    (inside : interval.upper ≤ interval.lower + (getPhysicalRef interval.lower).getSize) :
    surface.BackupInside interval ∧ surface.InPhase interval bytes := by
  constructor
  · intro _ head
    rw [whole, Nat.sub_self] at head
    exact absurd rfl head
  · intro paddr loc start stop _
    have reaches : surface.Reaches interval paddr := by
      refine ⟨?_, Nat.lt_of_lt_of_le stop inside⟩
      rw [whole, Nat.sub_self, ← whole]
      exact start
    rw [if_pos reaches, fillByte, whole]

def twoWords : FillSurface where
  addr := fcramPaddr
  endAddr := fcramPaddr + 8
  type := .fill
  width := 0
  stride := 0
  ordered := by decide
  word := by decide
  fillSize := 4
  fillData := [1, 2, 3, 4]
  sized := .inr (.inr rfl)
  fourBytes := rfl

/-- The second word of cleared memory is not filled. -/
theorem downloads_fill_fails : ¬ ∃ bytes',
    twoWords.downloadFillSurface ⟨fcramPaddr + 4, fcramPaddr + 8⟩ (fun _ => 0) = .ok bytes' ∧
      twoWords.Written ⟨fcramPaddr + 4, fcramPaddr + 8⟩ (fun _ => 0) bytes' := by
  rintro ⟨bytes', run, written⟩
  have member : (fcram, fcramPaddr) ∈ memoryBlocks := by simp [memoryBlocks]
  have byte : hostByte (fcramPaddr + 4) = some (fcram, 4) := by decide
  have phase := inPhase_of_written (by decide) (by decide) member (by decide) rfl (by decide) run
    written
  have kept := phase (fcramPaddr + 4) (fcram, 4) (by decide) (by decide) byte
  exact absurd kept (by decide)

theorem downloads_fill_start : ∃ bytes',
    twoWords.downloadFillSurface ⟨fcramPaddr, fcramPaddr + 8⟩ (fun _ => 0) = .ok bytes' ∧
      twoWords.Written ⟨fcramPaddr, fcramPaddr + 8⟩ (fun _ => 0) bytes' :=
  (downloads_fill_iff twoWords ⟨fcramPaddr, fcramPaddr + 8⟩ _ (by decide) (by decide)).mpr
    (inPhase_of_start rfl (by decide))

end FillSurface
end EmuThreeDS.VideoCore
