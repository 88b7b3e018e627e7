import EmuThreeDS.Kernel.Memory

/-!
# What the region allocator hands out and takes back

Each lemma says which bytes of FCRAM one call of `MemoryRegionInfo` moves.
-/
namespace EmuThreeDS
open Intervals

namespace MemoryRegionInfo

structure Sound (region : MemoryRegionInfo) : Prop where
  unlocked : region.isLocked = false
  bounds : region.base + region.size ≤ fcramSize
  inside : ∀ a ∈ region.freeBlocks, a < fcramSize

variable {region region' : MemoryRegionInfo} {size offset : Nat}

variable {b : Block} {reply : Option Nat} {regions : List MemoryRegionInfo} {op : Op}

theorem Sound.block (h : region.Sound) (hb : b ∈ region.freeBlocks.blocks) :
    b.lower < b.upper ∧ b.upper ≤ fcramSize := by
  have bounds := (region.freeBlocks.apart.bounds hb).2
  have last := h.inside (b.upper - 1) ⟨b, hb, by omega, by omega⟩
  omega

theorem gather_spec (rest : Nat) {bs : List Block} (acc : IntervalSet)
    (falling : bs.Pairwise fun b c => c.upper < b.lower) (nonempty : ∀ b ∈ bs, b.lower < b.upper)
    (above : ∀ a ∈ acc, ∀ b ∈ bs, b.upper ≤ a) :
    (∀ a ∈ (gather rest bs acc).1, a ∈ acc ∨ ∃ b ∈ bs, b.Has a) ∧
      total (gather rest bs acc).1.blocks + (gather rest bs acc).2 = total acc.blocks + rest := by
  induction bs generalizing rest acc with
  | nil => exact ⟨fun a ha => Or.inl ha, rfl⟩
  | cons b more ih =>
    obtain ⟨first, later⟩ := List.pairwise_cons.mp falling
    have pos := nonempty b List.mem_cons_self
    have new : ∀ a, b.Has a → a ∉ acc := by
      intro a has mem
      have := above a mem b List.mem_cons_self
      have := has.2
      omega
    unfold gather
    split_ifs with enough
    · have enough : rest ≤ b.upper - b.lower := enough
      constructor
      · intro a ha
        rcases IntervalSet.mem_add.mp ha with has | mem
        · refine Or.inr ⟨b, List.mem_cons_self, ?_⟩
          simp only [Block.Has] at has ⊢
          omega
        · exact Or.inl mem
      · by_cases none_left : rest = 0
        · have same : acc.add ⟨b.upper - rest, b.upper⟩ = acc := dif_neg (by
            simp only
            omega)
          rw [same, none_left]
        · have some_left : b.upper - rest < b.upper := by omega
          rw [IntervalSet.total_add some_left fun a has => new a (by
            simp only [Block.Has] at has ⊢
            omega)]
          simp only [Block.length]
          omega
    · have above' : ∀ a ∈ acc.add b, ∀ c ∈ more, c.upper ≤ a := by
        intro a ha c hc
        rcases IntervalSet.mem_add.mp ha with has | ha
        · have := first c hc
          have := has.1
          omega
        · exact above a ha c (List.mem_cons_of_mem b hc)
      obtain ⟨mem, sum⟩ := ih (rest - b.length) (acc.add b) later
        (fun c hc => nonempty c (List.mem_cons_of_mem b hc)) above'
      constructor
      · intro a ha
        rcases mem a ha with ha | ⟨c, hc, has⟩
        · rcases IntervalSet.mem_add.mp ha with has | ha
          · exact Or.inr ⟨b, List.mem_cons_self, has⟩
          · exact Or.inl ha
        · exact Or.inr ⟨c, List.mem_cons_of_mem b hc, has⟩
      · rw [sum, IntervalSet.total_add pos new]
        omega

/-- The bytes `HeapAllocate` picks, from the top. -/
def highest (region : MemoryRegionInfo) (size : Nat) : IntervalSet :=
  (gather size region.freeBlocks.blocks.reverse .empty).1

theorem highest_spec (region : MemoryRegionInfo) (size : Nat) :
    (∀ a ∈ region.highest size, a ∈ region.freeBlocks) ∧ total (region.highest size).blocks +
        (gather size region.freeBlocks.blocks.reverse .empty).2 = size := by
  obtain ⟨mem, sum⟩ := gather_spec size .empty
    (List.pairwise_reverse.mpr region.freeBlocks.apart.pairwise)
    (fun b hb => (region.freeBlocks.apart.bounds (List.mem_reverse.mp hb)).2)
    (fun a ha => False.elim (IntervalSet.not_mem_empty a ha))
  refine ⟨?_, by simpa [highest, total, IntervalSet.empty] using sum⟩
  intro a ha
  rcases mem a ha with none | ⟨b, hb, has⟩
  · exact False.elim (IntervalSet.not_mem_empty a none)
  · exact ⟨b, List.mem_reverse.mp hb, has⟩

theorem Sound.highest_block (h : region.Sound)
    (hb : b ∈ (region.highest size).blocks) : b.upper ≤ fcramSize := by
  have bounds := ((region.highest size).apart.bounds hb).2
  have last := h.inside (b.upper - 1) ((highest_spec region size).1 _ ⟨b, hb, by omega, by omega⟩)
  omega

/-- Another call leaves the region where it is. -/
structure Moved (region region' : MemoryRegionInfo) : Prop where
  base : region'.base = region.base
  size : region'.size = region.size
  unlocked : region'.isLocked = region.isLocked

theorem Sound.moved (h : region.Sound) (moved : Moved region region')
    (inside : ∀ a ∈ region'.freeBlocks, a < fcramSize) : region'.Sound := by
  refine ⟨moved.unlocked.trans h.unlocked, ?_, inside⟩
  rw [moved.base, moved.size]
  exact h.bounds

theorem heapAllocate_ok {result : IntervalSet}
    (run : region.heapAllocate size = .ok (result, region')) : Moved region region' ∧
      (result.blocks = [] ∧ region' = region ∨
        result = region.highest size ∧ total result.blocks = size ∧
        ∀ a, a ∈ region'.freeBlocks ↔ a ∈ region.freeBlocks ∧ a ∉ result) := by
  obtain ⟨_, _, run⟩ := bind_eq_ok.mp run
  obtain ⟨_, sum⟩ := highest_spec region size
  simp only at run
  split_ifs at run with short
  · cases run
    exact ⟨⟨rfl, rfl, rfl⟩, Or.inl ⟨rfl, rfl⟩⟩
  · cases run
    refine ⟨⟨rfl, rfl, rfl⟩, Or.inr ⟨rfl, ?_, ?_⟩⟩
    · rw [not_not.mp short] at sum
      exact sum
    · intro a
      refine IntervalSet.mem_removeAll.trans (and_congr_right fun _ => ?_)
      rw [IntervalSet.mem_iff, not_exists]
      exact forall_congr' fun b => not_and.symm

theorem heapAllocate_total (size : Nat) (unlocked : region.isLocked = false) :
    (total (region.highest size).blocks ≠ size ∧ region.heapAllocate size = .ok (.empty, region)) ∨
      total (region.highest size).blocks = size ∧
        ∃ region', region.heapAllocate size = .ok (region.highest size, region') := by
  obtain ⟨_, sum⟩ := highest_spec region size
  unfold heapAllocate highest at *
  rw [assert_pos unlocked]
  generalize gather size region.freeBlocks.blocks.reverse .empty = taken at *
  obtain ⟨result, rest⟩ := taken
  simp only at sum ⊢
  by_cases short : rest ≠ 0
  · rw [if_pos short]
    exact Or.inl ⟨by omega, rfl⟩
  · rw [if_neg short]
    exact Or.inr ⟨by omega, _, rfl⟩

/-- The linear calls hand out one block of free bytes. -/
structure Handed (region region' : MemoryRegionInfo) (offset size : Nat) : Prop where
  moved : Moved region region'
  free : ∀ a, offset ≤ a → a < offset + size → a ∈ region.freeBlocks
  rest : ∀ a, a ∈ region'.freeBlocks ↔ a ∈ region.freeBlocks ∧ ¬ (offset ≤ a ∧ a < offset + size)

def firstFit (region : MemoryRegionInfo) (size : Nat) : Option Block :=
  region.freeBlocks.blocks.find? fun interval => interval.length ≥ size

theorem linearAllocate_ok (run : region.linearAllocate size = .ok (reply, region')) :
    region.firstFit size = none ∧ reply = none ∧ region' = region ∨
      ∃ b, region.firstFit size = some b ∧ reply = some b.lower ∧
        Handed region region' b.lower size := by
  obtain ⟨_, _, run⟩ := bind_eq_ok.mp run
  split at run
  · next full =>
      cases run
      exact Or.inl ⟨full, rfl, rfl⟩
  · next b found =>
      cases run
      have hb := List.mem_of_find?_eq_some found
      have long := List.find?_some found
      simp only [Block.length, ge_iff_le, decide_eq_true_eq] at long
      refine Or.inr ⟨b, found, rfl, ⟨rfl, rfl, rfl⟩, ?_, ?_⟩
      · intro a low high
        exact ⟨b, hb, low, by omega⟩
      · intro a
        exact IntervalSet.mem_remove

theorem linearAllocateAt_ok {done : Bool}
    (run : region.linearAllocateAt offset size = .ok (done, region')) :
    done = false ∧ region' = region ∨ done = true ∧ Moved region region' ∧
      (∀ a ∈ region'.freeBlocks, a ∈ region.freeBlocks) ∧
      (offset + size < 0x100000000 → Handed region region' offset size) := by
  obtain ⟨_, _, run⟩ := bind_eq_ok.mp run
  simp only at run
  split_ifs at run with taken
  · cases run
    exact Or.inl ⟨rfl, rfl⟩
  · cases run
    refine Or.inr ⟨rfl, ⟨rfl, rfl, rfl⟩, fun a ha => (IntervalSet.mem_remove.mp ha).1,
      fun small => ?_⟩
    rw [Bool.not_eq_false, add32_eq small] at taken
    refine ⟨⟨rfl, rfl, rfl⟩, ?_, ?_⟩
    · intro a low high
      exact IntervalSet.mem_of_contains taken ⟨low, high⟩
    · intro a
      simp only [add32_eq small]
      exact IntervalSet.mem_remove

theorem linearAllocateAt_total (unlocked : region.isLocked = false)
    (small : offset + size < 0x100000000) : ∃ region', region.linearAllocateAt offset size =
      .ok (region.freeBlocks.contains ⟨offset, offset + size⟩, region') := by
  simp only [linearAllocateAt, unlocked, assert_pos, ok_bind, add32_eq small]
  cases region.freeBlocks.contains ⟨offset, offset + size⟩ with
  | false | true => exact ⟨_, rfl⟩

theorem rLinearAllocate_ok (run : region.rLinearAllocate size = .ok (reply, region')) :
    reply = none ∧ region' = region ∨
      ∃ offset, reply = some offset ∧ Handed region region' offset size := by
  obtain ⟨_, _, run⟩ := bind_eq_ok.mp run
  split at run
  · cases run
    exact Or.inl ⟨rfl, rfl⟩
  · next b found =>
      cases run
      have hb := List.mem_reverse.mp (List.mem_of_find?_eq_some found)
      have long := List.find?_some found
      simp only [Block.length, ge_iff_le, decide_eq_true_eq] at long
      have top : b.upper - size + size = b.upper := by omega
      refine Or.inr ⟨_, rfl, ⟨rfl, rfl, rfl⟩, ?_, ?_⟩
      · intro a low high
        exact ⟨b, hb, by omega, by omega⟩
      · intro a
        rw [top]
        exact IntervalSet.mem_remove

theorem free_cases (unlocked : region.isLocked = false) (small : offset + size < 0x100000000) :
    (∃ a, offset ≤ a ∧ a < offset + size ∧ a ∈ region.freeBlocks) ∧
        region.free offset size = .error (.assertion .regionFree) ∨
      (∀ a, offset ≤ a → a < offset + size → a ∉ region.freeBlocks) ∧
        ∃ region', region.free offset size = .ok region' ∧ Moved region region' ∧
          ∀ a, a ∈ region'.freeBlocks ↔ (offset ≤ a ∧ a < offset + size) ∨ a ∈ region.freeBlocks := by
  unfold free
  simp only [unlocked, add32_eq small, Bool.false_eq_true, if_false]
  by_cases meets : region.freeBlocks.intersects ⟨offset, offset + size⟩ = true
  · obtain ⟨a, ⟨low, high⟩, mem⟩ := IntervalSet.intersects_iff.mp meets
    refine Or.inl ⟨⟨a, low, high, mem⟩, ?_⟩
    rw [assert, if_neg (by simp [meets])]
    rfl
  · rw [assert_pos (Bool.eq_false_iff.mpr meets)]
    refine Or.inr ⟨?_, { region with
      freeBlocks := region.freeBlocks.add ⟨offset, offset + size⟩
      used := sub32 region.used size
      isLocked := false }, rfl, ⟨rfl, rfl, unlocked.symm⟩, fun a => IntervalSet.mem_add⟩
    intro a low high mem
    exact meets (IntervalSet.intersects_iff.mpr ⟨a, ⟨low, high⟩, mem⟩)

theorem Handed.sound (handed : Handed region region' offset size) (h : region.Sound) :
    region'.Sound :=
  h.moved handed.moved fun a ha => h.inside a ((handed.rest a).mp ha).1

theorem Handed.bounds (handed : Handed region region' offset size) (h : region.Sound)
    (pos : 0 < size) : offset + size ≤ fcramSize := by
  have last := h.inside (offset + size - 1) (handed.free _ (by omega) (by omega))
  omega

/-- A call another owner of the region may make; `Free` gives back bytes of FCRAM. -/
inductive Op where
  | heapAllocate (size : Nat)
  | linearAllocateAt (offset size : Nat)
  | linearAllocate (size : Nat)
  | rLinearAllocate (size : Nat)
  | free (offset size : Nat)

def Op.run (region : MemoryRegionInfo) : Op → Exec MemoryRegionInfo
  | heapAllocate size => Prod.snd <$> region.heapAllocate size
  | linearAllocateAt offset size => Prod.snd <$> region.linearAllocateAt offset size
  | linearAllocate size => Prod.snd <$> region.linearAllocate size
  | rLinearAllocate size => Prod.snd <$> region.rLinearAllocate size
  | free offset size => region.free offset size

def Op.Within : Op → Prop
  | free offset size => offset + size ≤ fcramSize
  | _ => True

/-- The regions `MemoryInit` sets up and what becomes of them. -/
inductive Reachable : MemoryRegionInfo → Prop where
  | init {isNew3ds : Bool} {memType n3dsMode : Nat} {old regions : List MemoryRegionInfo}
      {region : MemoryRegionInfo} : memoryInit isNew3ds memType n3dsMode old = .ok regions →
      region ∈ regions → Reachable region
  | call {region region' : MemoryRegionInfo} {op : Op} : Reachable region → op.Within →
      op.run region = .ok region' → Reachable region'

structure Contained (region : MemoryRegionInfo) : Prop extends region.Sound where
  own : ∀ a ∈ region.freeBlocks, region.base ≤ a ∧ a < region.base + region.size

theorem resetRegions_contained {base top : Nat} {old : List (MemoryRegionInfo × Nat)}
    (fits : base + (old.map Prod.snd).sum ≤ fcramSize)
    (run : resetRegions base old = .ok (regions, top)) :
    (∀ r ∈ regions, base ≤ r.base ∧ r.Contained) ∧
      regions.Pairwise fun r r' => r.base + r.size ≤ r'.base := by
  have limit : fcramSize = 0x10000000 := rfl
  induction old generalizing base regions with
  | nil =>
    cases run
    exact ⟨nofun, List.Pairwise.nil⟩
  | cons entry rest ih =>
    obtain ⟨r, size⟩ := entry
    simp only [List.map_cons, List.sum_cons] at fits
    obtain ⟨r₁, reset, run⟩ := bind_eq_ok.mp run
    obtain ⟨_, unlocked, reset⟩ := bind_eq_ok.mp reset
    cases reset
    obtain ⟨⟨more, top'⟩, later, run⟩ := bind_eq_ok.mp run
    cases run
    have next : add32 base size = base + size := add32_eq (by omega)
    simp only [next] at later
    obtain ⟨each, ordered⟩ := ih (by omega) later
    have whole : ∀ a ∈ IntervalSet.empty.add ⟨base, add32 base size⟩,
        base ≤ a ∧ a < base + size := by
      intro a ha
      rcases IntervalSet.mem_add.mp ha with ⟨low, high⟩ | none
      · rw [next] at high
        exact ⟨low, high⟩
      · exact False.elim (IntervalSet.not_mem_empty a none)
    refine ⟨?_, List.Pairwise.cons ?_ ordered⟩
    · intro r' hr
      rcases List.mem_cons.mp hr with rfl | hr
      · refine ⟨Nat.le_refl _, ⟨assert_eq_ok.mp unlocked, ?_, ?_⟩, whole⟩
        · simp only
          omega
        · intro a ha
          have := whole a ha
          omega
      · have := each r' hr
        exact ⟨by omega, this.2⟩
    · intro r' hr
      exact (each r' hr).1

theorem sum_zip_le (old : List MemoryRegionInfo) (sizes : List Nat) :
    ((old.zip sizes).map Prod.snd).sum ≤ sizes.sum := by
  induction old generalizing sizes with
  | nil => exact Nat.zero_le _
  | cons r rest ih =>
    cases sizes with
    | nil => exact Nat.le_refl _
    | cons size more => exact Nat.add_le_add_left (ih more) size

theorem memoryInit_contained {isNew3ds : Bool} {memType n3dsMode : Nat}
    {old : List MemoryRegionInfo} (run : memoryInit isNew3ds memType n3dsMode old = .ok regions) :
    (∀ r ∈ regions, r.Contained) ∧ regions.Pairwise fun r r' => r.base + r.size ≤ r'.base := by
  obtain ⟨_, _, run⟩ := bind_eq_ok.mp run
  simp only at run
  split at run
  · cases run
  · next sizes found =>
      obtain ⟨⟨rs, top⟩, loop, run⟩ := bind_eq_ok.mp run
      obtain ⟨_, _, run⟩ := bind_eq_ok.mp run
      cases run
      have all : ∀ sizes ∈ memoryRegionSizes, sizes.sum ≤ fcramSize := by decide
      have row := all sizes (List.mem_of_getElem? found)
      have fewer := sum_zip_le old sizes
      obtain ⟨each, ordered⟩ := resetRegions_contained (by omega) loop
      exact ⟨fun r hr => (each r hr).2, ordered⟩

def Op.Frees (a : Nat) : Op → Prop
  | free offset size => offset ≤ a ∧ a < offset + size
  | _ => False

theorem Op.effect (h : region.Sound) (within : op.Within) (run : op.run region = .ok region') :
    Moved region region' ∧ ∀ a ∈ region'.freeBlocks, a ∈ region.freeBlocks ∨ op.Frees a := by
  have kept : region' = region →
      Moved region region' ∧ ∀ a ∈ region'.freeBlocks, a ∈ region.freeBlocks ∨ op.Frees a := by
    rintro rfl
    exact ⟨⟨rfl, rfl, rfl⟩, fun a ha => Or.inl ha⟩
  have handed : ∀ {offset size : Nat}, Handed region region' offset size →
      Moved region region' ∧ ∀ a ∈ region'.freeBlocks, a ∈ region.freeBlocks ∨ op.Frees a :=
    fun handed => ⟨handed.moved, fun a ha => Or.inl ((handed.rest a).mp ha).1⟩
  cases op with
  | heapAllocate size =>
    obtain ⟨⟨result, r⟩, call, rfl⟩ := map_eq_ok.mp run
    obtain ⟨moved, same | ⟨_, _, rest⟩⟩ := heapAllocate_ok call
    · exact kept same.2
    · exact ⟨moved, fun a ha => Or.inl ((rest a).mp ha).1⟩
  | linearAllocateAt offset size =>
    obtain ⟨⟨done, r⟩, call, rfl⟩ := map_eq_ok.mp run
    rcases linearAllocateAt_ok call with same | ⟨_, moved, fewer, _⟩
    · exact kept same.2
    · exact ⟨moved, fun a ha => Or.inl (fewer a ha)⟩
  | linearAllocate size =>
    obtain ⟨⟨result, r⟩, call, rfl⟩ := map_eq_ok.mp run
    rcases linearAllocate_ok call with same | ⟨b, _, _, taken⟩
    · exact kept same.2.2
    · exact handed taken
  | rLinearAllocate size =>
    obtain ⟨⟨result, r⟩, call, rfl⟩ := map_eq_ok.mp run
    rcases rLinearAllocate_ok call with same | ⟨offset, _, taken⟩
    · exact kept same.2
    · exact handed taken
  | free offset size =>
    have within : offset + size ≤ fcramSize := within
    have limit : fcramSize = 0x10000000 := rfl
    rcases free_cases h.unlocked (show offset + size < 0x100000000 by omega) with
      ⟨_, fault⟩ | ⟨_, r, run', moved, rest⟩
    · cases fault.symm.trans run
    · cases run'.symm.trans run
      exact ⟨moved, fun a ha => ((rest a).mp ha).symm⟩

theorem Op.sound (h : region.Sound) (within : op.Within)
    (run : op.run region = .ok region') : region'.Sound := by
  obtain ⟨moved, more⟩ := Op.effect h within run
  refine h.moved moved fun a ha => ?_
  rcases more a ha with ha | frees
  · exact h.inside a ha
  · cases op with
    | free offset size =>
      have within : offset + size ≤ fcramSize := within
      have frees : offset ≤ a ∧ a < offset + size := frees
      omega
    | _ => exact False.elim frees

theorem Reachable.sound (h : Reachable region) : region.Sound := by
  induction h with
  | init run mem => exact ((memoryInit_contained run).1 _ mem).toSound
  | call _ within run ih => exact Op.sound ih within run

/-- A call of an owner that gives back bytes of this region only. -/
def Op.Own (region : MemoryRegionInfo) : Op → Prop
  | free offset size => region.base ≤ offset ∧ offset + size ≤ region.base + region.size
  | _ => True

theorem Op.contained (h : region.Contained) (own : op.Own region)
    (run : op.run region = .ok region') :
    region'.Contained ∧ region'.base = region.base ∧ region'.size = region.size := by
  have bounds := h.bounds
  have within : op.Within := by
    cases op with
    | free offset size =>
      exact Nat.le_trans own.2 bounds
    | _ => exact True.intro
  obtain ⟨moved, more⟩ := Op.effect h.toSound within run
  refine ⟨⟨Op.sound h.toSound within run, fun a ha => ?_⟩, moved.base, moved.size⟩
  rw [moved.base, moved.size]
  rcases more a ha with ha | frees
  · exact h.own a ha
  · cases op with
    | free offset size =>
      have own : region.base ≤ offset ∧ offset + size ≤ region.base + region.size := own
      have frees : offset ≤ a ∧ a < offset + size := frees
      omega
    | _ => exact False.elim frees

/-- The regions of a running machine: each is used by owners of its own bytes. -/
inductive Booted : List MemoryRegionInfo → Prop where
  | init {isNew3ds : Bool} {memType n3dsMode : Nat} {old regions : List MemoryRegionInfo} :
      memoryInit isNew3ds memType n3dsMode old = .ok regions → Booted regions
  | call {regions : List MemoryRegionInfo} {i : Nat} {region region' : MemoryRegionInfo} {op : Op} :
      Booted regions → regions[i]? = some region → op.Own region → op.run region = .ok region' →
      Booted (regions.set i region')

theorem Booted.contained (h : Booted regions) :
    (∀ r ∈ regions, r.Contained) ∧ regions.Pairwise fun r r' => r.base + r.size ≤ r'.base := by
  induction h with
  | init run => exact memoryInit_contained run
  | @call regions i region region' op _ at_i own run ih =>
    obtain ⟨each, ordered⟩ := ih
    obtain ⟨contained, base, size⟩ :=
      Op.contained (each region (List.mem_of_getElem? at_i)) own run
    refine ⟨fun r hr => ?_, ?_⟩
    · rcases List.mem_or_eq_of_mem_set hr with hr | rfl
      · exact each r hr
      · exact contained
    · rw [List.pairwise_iff_getElem] at ordered ⊢
      intro j k hj hk less
      obtain ⟨in_range, at_i⟩ := List.getElem?_eq_some_iff.mp at_i
      simp only [List.length_set] at hj hk
      have before := ordered j k hj hk less
      simp only [List.getElem_set]
      split_ifs with first second <;> subst_vars <;> omega

theorem Booted.apart (h : Booted regions) {i j : Nat}
    {r r' : MemoryRegionInfo} (hi : regions[i]? = some r) (hj : regions[j]? = some r')
    (other : i ≠ j) : ∀ a ∈ r.freeBlocks, a ∉ r'.freeBlocks := by
  obtain ⟨each, ordered⟩ := h.contained
  intro a ha ha'
  have here := (each r (List.mem_of_getElem? hi)).own a ha
  have there := (each r' (List.mem_of_getElem? hj)).own a ha'
  obtain ⟨li, rfl⟩ := List.getElem?_eq_some_iff.mp hi
  obtain ⟨lj, rfl⟩ := List.getElem?_eq_some_iff.mp hj
  rw [List.pairwise_iff_getElem] at ordered
  rcases Nat.lt_or_gt_of_ne other with less | less
  · have := ordered i j li lj less
    omega
  · have := ordered j i lj li less
    omega

end MemoryRegionInfo
end EmuThreeDS
