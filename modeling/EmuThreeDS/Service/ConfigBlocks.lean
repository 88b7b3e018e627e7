import EmuThreeDS.Lib.Runs
import EmuThreeDS.Service.Config
import Mathlib.Data.List.Nodup

/-!
# The blocks a config file holds

What the buffer stands for is the list of the blocks in the order of their creation. The data of
the large ones lie one behind the other, so an entry's offset is the space used before it.
-/
namespace EmuThreeDS
open Blit

structure ConfigBlock where
  id : Nat
  flags : Nat
  data : List UInt8

namespace ConfigBlock

def header (block : ConfigBlock) : Nat × Nat × Nat := (block.id, block.data.length, block.flags)

def Large (block : ConfigBlock) : Prop := 4 < block.data.length

instance (block : ConfigBlock) : Decidable block.Large := Nat.decLt _ _

def space (block : ConfigBlock) : Nat := if block.Large then block.data.length else 0

structure Valid (block : ConfigBlock) : Prop where
  nonzero : block.id ≠ 0
  id : block.id < 2 ^ 32
  flags : block.flags < 2 ^ 16
  size : block.data.length < 2 ^ 16

end ConfigBlock

namespace Config

def spaceUsed (blocks : List ConfigBlock) : Nat := (blocks.map ConfigBlock.space).sum

def dataPlace (i start : Nat) (block : ConfigBlock) : Nat :=
  if block.Large then start else inlineOffset i

variable {buffer buffer' : ConfigBuffer} {blocks : List ConfigBlock} {block : ConfigBlock}
  {i j start id size flags offset : Nat} {data : List UInt8}

/-- Entry `i` and the data are those of the block. -/
structure Entered (buffer : ConfigBuffer) (i start : Nat) (block : ConfigBlock) : Prop where
  id : blockId buffer i = block.id
  size : blockSize buffer i = block.data.length
  flags : blockFlags buffer i = block.flags
  offset : block.Large → offsetOrData buffer i = start
  data : slice buffer (dataPlace i start block) block.data.length = block.data

/-- The buffer with the blocks in the order of their creation. -/
structure Laid (buffer : ConfigBuffer) (blocks : List ConfigBlock) : Prop where
  total : totalEntries buffer = blocks.length
  start : dataEntriesOffset buffer = headerSize
  room : blocks.length ≤ maxBlockEntries
  fits : headerSize + spaceUsed blocks ≤ savefileSize
  valid : ∀ block ∈ blocks, block.Valid
  distinct : (blocks.map ConfigBlock.id).Nodup
  entered : ∀ i block, blocks[i]? = some block →
    Entered buffer i (headerSize + spaceUsed (blocks.take i)) block
  unused : ∀ i, blocks.length ≤ i → i < maxBlockEntries →
    blockId buffer i = 0 ∧ blockFlags buffer i = 0

/-- The bytes of entry `i`, and of the data of the block behind the header. -/
def Uses (i start : Nat) (block : ConfigBlock) (k : Nat) : Prop :=
  (entryOffset i ≤ k ∧ k < entryOffset i + 12) ∨
    (block.Large ∧ start ≤ k ∧ k < start + block.data.length)

theorem Entered.frame (h : Entered buffer i start block)
    (same : ∀ k, Uses i start block k → buffer' k = buffer k) : Entered buffer' i start block := by
  have field : ∀ a n, entryOffset i ≤ a → a + n ≤ entryOffset i + 12 →
      slice buffer' a n = slice buffer a n := by
    intro a n low high
    exact slice_congr fun k inside => same _ (.inl ⟨by omega, by omega⟩)
  have inline : entryOffset i ≤ inlineOffset i ∧ inlineOffset i + 4 ≤ entryOffset i + 12 := by
    unfold inlineOffset
    omega
  refine ⟨?_, ?_, ?_, fun large => ?_, ?_⟩
  · exact (congrArg leValue (field _ 4 (by omega) (by omega))).trans h.id
  · exact (congrArg leValue (field _ 2 (by omega) (by omega))).trans h.size
  · exact (congrArg leValue (field _ 2 (by omega) (by omega))).trans h.flags
  · exact (congrArg leValue (field _ 4 inline.1 inline.2)).trans (h.offset large)
  · refine Eq.trans ?_ h.data
    unfold dataPlace
    split_ifs with large
    · exact slice_congr fun k inside => same _ (.inr ⟨large, by omega, by omega⟩)
    · have small : block.data.length ≤ 4 := not_lt.mp large
      exact field _ _ inline.1 (by omega)

theorem entryOffset_apart (h : i < j) : entryOffset i + 12 ≤ entryOffset j := by
  unfold entryOffset
  omega

theorem entryOffset_header (h : i < maxBlockEntries) : entryOffset i + 12 ≤ headerSize := by
  unfold maxBlockEntries at h
  unfold entryOffset headerSize
  omega

theorem entryOffset_pos : 4 ≤ entryOffset i := by
  unfold entryOffset
  omega

theorem spaceUsed_append (blocks more : List ConfigBlock) :
    spaceUsed (blocks ++ more) = spaceUsed blocks + spaceUsed more := by
  unfold spaceUsed
  rw [List.map_append, List.sum_append]

theorem spaceUsed_take_succ (h : blocks[i]? = some block) :
    spaceUsed (blocks.take (i + 1)) = spaceUsed (blocks.take i) + block.space := by
  rw [List.take_add_one, h, spaceUsed_append]
  rfl

theorem spaceUsed_take_le (h : i ≤ j) : spaceUsed (blocks.take i) ≤ spaceUsed (blocks.take j) := by
  obtain ⟨k, rfl⟩ := Nat.exists_eq_add_of_le h
  rw [List.take_add, spaceUsed_append]
  exact Nat.le_add_right _ _

theorem space_of_large (large : block.Large) : block.space = block.data.length := if_pos large

theorem space_of_small (small : ¬ block.Large) : block.space = 0 := if_neg small

theorem spaceUsed_before (h : blocks[i]? = some block) (before : i < j) :
    spaceUsed (blocks.take i) + block.space ≤ spaceUsed (blocks.take j) := by
  rw [← spaceUsed_take_succ h]
  exact spaceUsed_take_le before

theorem spaceUsed_within (h : blocks[i]? = some block) :
    spaceUsed (blocks.take i) + block.space ≤ spaceUsed blocks := by
  have inside := (List.getElem?_eq_some_iff.mp h).1
  have within := spaceUsed_before h inside
  rwa [List.take_length] at within

theorem nextOffset_eq (start : dataEntriesOffset buffer = headerSize)
    (fits : headerSize + spaceUsed blocks ≤ savefileSize)
    (entered : ∀ i block, blocks[i]? = some block →
      Entered buffer i (headerSize + spaceUsed (blocks.take i)) block) (h : i ≤ blocks.length) :
    nextOffset buffer i = headerSize + spaceUsed (blocks.take i) := by
  induction i with
  | zero => exact start
  | succ i ih =>
    have inside : blocks[i]? = some blocks[i] := List.getElem?_eq_getElem h
    have entry := entered i _ inside
    have within := spaceUsed_within inside
    rw [nextOffset, entry.size, spaceUsed_take_succ inside]
    by_cases large : blocks[i].Large
    · rw [space_of_large large] at within ⊢
      unfold savefileSize at fits
      refine (if_pos large).trans ?_
      rw [entry.offset large, add32_eq (by omega), Nat.add_assoc]
    · refine (if_neg large).trans ?_
      rw [ih (by omega), space_of_small large, Nat.add_zero]

theorem slice_setEntry (i id offset size flags : Nat) :
    slice (setEntry buffer i id offset size flags) (entryOffset i) 4 = leBytes 4 id ∧
      slice (setEntry buffer i id offset size flags) (entryOffset i + 8) 2 = leBytes 2 size ∧
      slice (setEntry buffer i id offset size flags) (entryOffset i + 10) 2 = leBytes 2 flags := by
  have first := @slice_blit_part _ buffer (entryOffset i) (leBytes 4 id) []
    (leBytes 4 offset ++ leBytes 2 size ++ leBytes 2 flags)
  have second := @slice_blit_part _ buffer (entryOffset i) (leBytes 2 size)
    (leBytes 4 id ++ leBytes 4 offset) (leBytes 2 flags)
  have third := @slice_blit_part _ buffer (entryOffset i) (leBytes 2 flags)
    (leBytes 4 id ++ leBytes 4 offset ++ leBytes 2 size) []
  simp only [List.nil_append, List.append_nil, List.length_append, length_leBytes, List.length_nil,
    Nat.add_zero, ← List.append_assoc] at first second third
  exact ⟨first, second, third⟩

variable {k value n : Nat} {copied : ConfigBuffer} {other : ConfigBlock}

theorem setEntry_other (other : k < entryOffset i ∨ entryOffset i + 12 ≤ k) :
    setEntry buffer i id offset size flags k = buffer k := by
  rcases other with before | behind
  · exact blit_before before
  · apply blit_behind
    simp only [List.length_append, length_leBytes]
    omega

theorem setOffsetOrData_other (other : k < inlineOffset i ∨ inlineOffset i + 4 ≤ k) :
    setOffsetOrData buffer i value k = buffer k := by
  rcases other with before | behind
  · exact blit_before before
  · apply blit_behind
    rwa [length_leBytes]

theorem setTotalEntries_other (other : 2 ≤ k) : setTotalEntries buffer value k = buffer k := by
  apply blit_behind
  rw [length_leBytes]
  omega

theorem totalEntries_set (small : value < 2 ^ 16) :
    totalEntries (setTotalEntries buffer value) = value := by
  have written := @slice_blit _ buffer 0 (leBytes 2 value)
  rw [length_leBytes] at written
  unfold totalEntries setTotalEntries
  rw [written, leValue_leBytes]
  exact Nat.mod_eq_of_lt small

/-- What a call writes for a new block: its entry, its data, and the number of entries. -/
structure Created (buffer buffer' : ConfigBuffer) (n start : Nat) (block : ConfigBlock) : Prop where
  entered : Entered buffer' n start block
  total : totalEntries buffer' = n + 1
  others : ∀ k, 2 ≤ k → ¬ Uses n start block k → buffer' k = buffer k

theorem create_full (full : blocks.length = maxBlockEntries) (laid : Laid buffer blocks) :
    createConfigInfoBlk buffer id size flags data = .ok (.error .unknown, buffer) := by
  unfold createConfigInfoBlk
  rw [laid.total]
  exact if_pos (le_of_eq full.symm)

structure Copied (buffer copied : ConfigBuffer) (n start : Nat) (block : ConfigBlock) : Prop where
  fields : ∀ k, entryOffset n ≤ k → k < entryOffset n + 12 →
    k < inlineOffset n ∨ inlineOffset n + 4 ≤ k →
      copied k = setEntry buffer n block.id 0 block.data.length block.flags k
  offset : block.Large → offsetOrData copied n = start
  data : slice copied (dataPlace n start block) block.data.length = block.data
  others : ∀ k, ¬ Uses n start block k → copied k = buffer k

theorem Copied.entered (h : Copied buffer copied n start block)
    (valid : block.Valid) : Entered copied n start block := by
  obtain ⟨first, second, third⟩ :=
    @slice_setEntry buffer n block.id 0 block.data.length block.flags
  have inline : inlineOffset n = entryOffset n + 4 := rfl
  refine ⟨?_, ?_, ?_, h.offset, h.data⟩
  · rw [blockId, slice_congr fun k _ => h.fields _ (by omega) (by omega) (by omega), first,
      leValue_leBytes]
    exact Nat.mod_eq_of_lt valid.id
  · rw [blockSize, slice_congr fun k _ => h.fields _ (by omega) (by omega) (by omega), second,
      leValue_leBytes]
    exact Nat.mod_eq_of_lt valid.size
  · rw [blockFlags, slice_congr fun k _ => h.fields _ (by omega) (by omega) (by omega), third,
      leValue_leBytes]
    exact Nat.mod_eq_of_lt valid.flags

theorem Copied.created (h : Copied buffer copied n start block) (valid : block.Valid)
    (behind : headerSize ≤ start) (inside : n < maxBlockEntries) (total : totalEntries buffer = n) :
    Created buffer (setTotalEntries copied (totalEntries copied + 1)) n start block := by
  have first : 4 ≤ entryOffset n := entryOffset_pos
  unfold headerSize at behind
  unfold maxBlockEntries at inside
  have unused : ∀ k < 2, ¬ Uses n start block k := by
    rintro k below (⟨low, _⟩ | ⟨_, low, _⟩)
    · omega
    · omega
  have kept : totalEntries copied = n := by
    rw [← total]
    exact congrArg leValue (slice_congr fun k below => h.others _ (unused _ (by omega)))
  refine ⟨(h.entered valid).frame fun k used => ?_, ?_, fun k later other => ?_⟩
  · apply setTotalEntries_other
    by_contra below
    exact unused k (by omega) used
  · rw [kept]
    exact totalEntries_set (by omega)
  · rw [setTotalEntries_other later]
    exact h.others k other

theorem copied_small (small : ¬ block.Large) :
    Copied buffer (blit (setEntry buffer n block.id 0 block.data.length block.flags)
      (inlineOffset n) block.data) n start block := by
  have short : block.data.length ≤ 4 := not_lt.mp small
  have inline : inlineOffset n = entryOffset n + 4 := rfl
  refine ⟨fun k _ _ apart => ?_, fun large => absurd large small, ?_, fun k other => ?_⟩
  · rcases apart with before | behind
    · exact blit_before before
    · exact blit_behind (by omega)
  · rw [dataPlace, if_neg small]
    exact slice_blit
  · have outside : k < entryOffset n ∨ entryOffset n + 12 ≤ k := by
      by_contra within
      exact other (.inl ⟨by omega, by omega⟩)
    have kept := @setEntry_other buffer n block.id block.data.length block.flags 0 k outside
    rcases outside with before | behind
    · exact (blit_before (by omega)).trans kept
    · exact (blit_behind (by omega)).trans kept

theorem copied_large (large : block.Large) (behind : entryOffset n + 12 ≤ start)
    (fits : start + block.data.length ≤ savefileSize) :
    Copied buffer (blit (setOffsetOrData (setEntry buffer n block.id 0 block.data.length
      block.flags) n start) start block.data) n start block := by
  have inline : inlineOffset n = entryOffset n + 4 := rfl
  unfold savefileSize at fits
  refine ⟨fun k _ above apart => ?_, fun _ => ?_, ?_, fun k other => ?_⟩
  · rw [blit_before (by omega), setOffsetOrData_other apart]
  · have written := @slice_blit _ (setEntry buffer n block.id 0 block.data.length block.flags)
      (inlineOffset n) (leBytes 4 start)
    rw [length_leBytes] at written
    rw [offsetOrData, slice_blit_of_apart (.inr (by omega)), setOffsetOrData, written,
      leValue_leBytes]
    exact Nat.mod_eq_of_lt (by omega)
  · rw [dataPlace, if_pos large]
    exact slice_blit
  · have outside : k < entryOffset n ∨ entryOffset n + 12 ≤ k := by
      by_contra within
      exact other (.inl ⟨by omega, by omega⟩)
    have apart : k < start ∨ start + block.data.length ≤ k := by
      by_contra within
      exact other (.inr ⟨large, by omega, by omega⟩)
    have kept : setOffsetOrData (setEntry buffer n block.id 0 block.data.length block.flags) n start
        k = buffer k := by
      rw [setOffsetOrData_other (by omega), setEntry_other outside]
    rcases apart with before | behind
    · exact (blit_before before).trans kept
    · exact (blit_behind behind).trans kept

theorem nextOffset_entered (laid : Laid buffer blocks) (room : blocks.length < maxBlockEntries) :
    nextOffset (setEntry buffer blocks.length id offset size flags) blocks.length =
      headerSize + spaceUsed blocks := by
  have below := entryOffset_header room
  have other : ∀ k, k < entryOffset blocks.length ∨ headerSize ≤ k →
      setEntry buffer blocks.length id offset size flags k = buffer k :=
    fun k outside => setEntry_other (by omega)
  have start : dataEntriesOffset (setEntry buffer blocks.length id offset size flags) =
      headerSize := by
    rw [← laid.start]
    have first := @entryOffset_pos blocks.length
    exact congrArg leValue (slice_congr fun k _ => other _ (by omega))
  have placed := nextOffset_eq start laid.fits (fun i block inside => ?_) (le_refl blocks.length)
  · rwa [List.take_length] at placed
  · refine (laid.entered i block inside).frame ?_
    have before := entryOffset_apart (List.getElem?_eq_some_iff.mp inside).1
    rintro k (⟨_, high⟩ | ⟨_, low, _⟩)
    · exact other k (by omega)
    · exact other k (by omega)

theorem create_copied (laid : Laid buffer blocks) (room : blocks.length < maxBlockEntries)
    (fits : headerSize + spaceUsed blocks + block.space ≤ savefileSize) :
    ∃ copied, createConfigInfoBlk buffer block.id block.data.length block.flags block.data =
        .ok (.ok (), setTotalEntries copied (totalEntries copied + 1)) ∧
      Copied buffer copied blocks.length (headerSize + spaceUsed blocks) block := by
  have below := entryOffset_header room
  have inline : inlineOffset blocks.length = entryOffset blocks.length + 4 := rfl
  unfold createConfigInfoBlk
  rw [laid.total]
  dsimp only
  rw [if_neg (not_le.mpr room)]
  by_cases large : block.Large
  · rw [space_of_large large] at fits
    rw [if_pos (show block.data.length > 4 from large), nextOffset_entered laid room, copyInto,
      if_pos ⟨le_refl _, fits⟩, List.take_length]
    exact ⟨_, rfl, copied_large large (by omega) fits⟩
  · have short : ¬ block.data.length > 4 := large
    have inside : inlineOffset blocks.length + block.data.length ≤ savefileSize := by
      unfold headerSize at below
      unfold savefileSize
      omega
    rw [if_neg short, copyInto, if_pos ⟨le_refl _, inside⟩, List.take_length]
    exact ⟨_, rfl, copied_small large⟩

theorem uses_apart {start' : Nat} (before : i < j)
    (inside : j < maxBlockEntries) (behind : headerSize ≤ start) (behind' : headerSize ≤ start')
    (ordered : block.Large → start + block.data.length ≤ start')
    (first : Uses i start block k) : ¬ Uses j start' other k := by
  have entries := entryOffset_apart before
  have below := entryOffset_header inside
  rcases first with ⟨_, high⟩ | ⟨large, low, high⟩
  · rintro (⟨low', _⟩ | ⟨_, low', _⟩)
    · omega
    · omega
  · have ordered := ordered large
    rintro (⟨_, high'⟩ | ⟨_, low', _⟩)
    · omega
    · omega

theorem Laid.uses_apart (laid : Laid buffer blocks)
    (first : blocks[i]? = some block) (second : blocks[j]? = some other) (different : i ≠ j)
    (uses : Uses i (headerSize + spaceUsed (blocks.take i)) block k) :
    ¬ Uses j (headerSize + spaceUsed (blocks.take j)) other k := by
  have inside := (List.getElem?_eq_some_iff.mp first).1
  have inside' := (List.getElem?_eq_some_iff.mp second).1
  have room := laid.room
  rcases Nat.lt_or_gt_of_ne different with before | behind
  · refine Config.uses_apart before (by omega) (Nat.le_add_right ..) (Nat.le_add_right ..) ?_ uses
    intro large
    have ordered := spaceUsed_before first before
    rw [space_of_large large] at ordered
    omega
  · intro uses'
    refine Config.uses_apart behind (by omega) (Nat.le_add_right ..) (Nat.le_add_right ..) ?_ uses'
      uses
    intro large
    have ordered := spaceUsed_before second behind
    rw [space_of_large large] at ordered
    omega

theorem uses_behind (behind : headerSize ≤ start) (uses : Uses i start block k) : 2 ≤ k := by
  have first := @entryOffset_pos i
  unfold headerSize at behind
  rcases uses with ⟨low, _⟩ | ⟨_, low, _⟩
  · omega
  · omega

theorem Laid.append (laid : Laid buffer blocks) (valid : block.Valid)
    (fresh : block.id ∉ blocks.map ConfigBlock.id) (room : blocks.length < maxBlockEntries)
    (fits : headerSize + spaceUsed blocks + block.space ≤ savefileSize)
    (created : Created buffer buffer' blocks.length (headerSize + spaceUsed blocks) block) :
    Laid buffer' (blocks ++ [block]) where
  total := by rw [created.total, List.length_append, List.length_singleton]
  start := by
    have unused : ∀ k, 2 ≤ k → k < 4 →
        ¬ Uses blocks.length (headerSize + spaceUsed blocks) block k := by
      have first := @entryOffset_pos blocks.length
      unfold headerSize
      rintro k _ below (⟨low, _⟩ | ⟨_, low, _⟩)
      · omega
      · omega
    rw [← laid.start]
    exact congrArg leValue (slice_congr fun k _ =>
      created.others _ (by omega) (unused _ (by omega) (by omega)))
  room := by
    rw [List.length_append]
    exact room
  fits := by
    rw [spaceUsed_append, ← Nat.add_assoc]
    exact fits
  valid other member := by
    rcases List.mem_append.mp member with old | new
    · exact laid.valid other old
    · rwa [List.mem_singleton.mp new]
  distinct := by
    rw [List.map_append]
    exact List.Nodup.append laid.distinct (List.nodup_singleton _)
      (List.disjoint_singleton.mpr fresh)
  entered i other at_ := by
    rcases Nat.lt_or_ge i blocks.length with old | new
    · rw [List.getElem?_append_left old] at at_
      rw [List.take_append_of_le_length (Nat.le_of_lt old)]
      refine (laid.entered i other at_).frame fun k uses => ?_
      refine created.others k (uses_behind (Nat.le_add_right ..) uses) ?_
      refine Config.uses_apart old room (Nat.le_add_right ..) (Nat.le_add_right ..) (fun large => ?_)
        uses
      have within := spaceUsed_within at_
      rw [space_of_large large] at within
      omega
    · have last := (List.getElem?_eq_some_iff.mp at_).1
      rw [List.length_append, List.length_singleton] at last
      obtain rfl : i = blocks.length := by omega
      rw [List.getElem?_concat_length] at at_
      obtain rfl := Option.some.inj at_
      rw [List.take_left]
      exact created.entered
  unused i behind inside := by
    rw [List.length_append, List.length_singleton] at behind
    have apart := entryOffset_apart (show blocks.length < i by omega)
    have below := entryOffset_header inside
    have free : ∀ k, entryOffset i ≤ k → k < entryOffset i + 12 → buffer' k = buffer k := by
      intro k low high
      refine created.others k (by omega) ?_
      rintro (⟨_, high'⟩ | ⟨_, low', _⟩)
      · omega
      · omega
    obtain ⟨noId, noFlags⟩ := laid.unused i (by omega) inside
    constructor
    · rw [← noId]
      exact congrArg leValue (slice_congr fun k _ => free _ (by omega) (by omega))
    · rw [← noFlags]
      exact congrArg leValue (slice_congr fun k _ => free _ (by omega) (by omega))

end Config
end EmuThreeDS
