import EmuThreeDS.Service.ConfigBlocks

/-!
# Calls on a config file

Which block a call finds, and what any sequence of calls leaves in the buffer.
-/
namespace EmuThreeDS
open Blit

inductive ConfigCall where
  | create (id size flags : Nat) (data : List UInt8)
  | set (id size flag : Nat) (input : List UInt8)
  | get (id size flag : Nat)

namespace Config

/-- A call answers with bytes, which only `get` has. -/
def run (buffer : ConfigBuffer) : ConfigCall → Exec (Except ConfigError (List UInt8) × ConfigBuffer)
  | .create id size flags data => do
      let (result, after) ← createConfigInfoBlk buffer id size flags data
      return (result.map fun _ => [], after)
  | .set id size flag input => do
      let (result, after) ← setConfigInfoBlock buffer id size flag input
      return (result.map fun _ => [], after)
  | .get id size flag => do
      let result ← getConfigInfoBlock buffer id size flag
      return (result, buffer)

/-- The block that a call may read or write. The id 0 is that of the entries in no use, which
allow nothing. -/
def permitted (blocks : List ConfigBlock) (id size flag : Nat) : Except ConfigError ConfigBlock :=
  if id = 0 then .error (if blocks.length < maxBlockEntries then .notAuthorized else .notFound)
  else
    match blocks.find? fun block => block.id == id with
    | none => .error .notFound
    | some block =>
      if block.flags &&& flag = 0 then .error .notAuthorized
      else if block.data.length ≠ size then .error .invalidSize
      else .ok block

def answer (blocks : List ConfigBlock) : ConfigCall → Except ConfigError (List UInt8)
  | .create _ _ _ _ => if blocks.length < maxBlockEntries then .ok [] else .error .unknown
  | .set id size flag _ => (permitted blocks id size flag).map fun _ => []
  | .get id size flag => (permitted blocks id size flag).map ConfigBlock.data

def replace (blocks : List ConfigBlock) (id : Nat) (input : List UInt8) : List ConfigBlock :=
  blocks.map fun block => if block.id = id then { block with data := input } else block

def track (blocks : List ConfigBlock) : ConfigCall → List ConfigBlock
  | .create id _ flags data =>
    if blocks.length < maxBlockEntries then
      blocks ++ [{ id := id, flags := flags, data := data }]
    else blocks
  | .set id size flag input =>
    match permitted blocks id size flag with
    | .ok _ => replace blocks id input
    | .error _ => blocks
  | .get _ _ _ => blocks

/-- The arguments fit their types and data; a new id is not in use, and a new block that is large
has room behind the others. -/
def Given (blocks : List ConfigBlock) : ConfigCall → Prop
  | .create id size flags data =>
    data.length = size ∧ ConfigBlock.Valid { id := id, flags := flags, data := data } ∧
      id ∉ blocks.map ConfigBlock.id ∧
      (4 < size → headerSize + spaceUsed blocks + size ≤ savefileSize)
  | .set _ size _ input => input.length = size
  | .get _ _ _ => True

variable {buffer buffer' : ConfigBuffer} {blocks : List ConfigBlock} {block : ConfigBlock}
  {i j start id size flags flag : Nat} {data input : List UInt8}

section

variable (laid : Laid buffer blocks)
include laid

theorem Laid.index_unique {other : ConfigBlock} (first : blocks[i]? = some block)
    (second : blocks[j]? = some other) (same : block.id = other.id) : i = j := by
  have below := (List.getElem?_eq_some_iff.mp first).1
  have inside : i < (blocks.map ConfigBlock.id).length := by rwa [List.length_map]
  refine (List.getElem?_inj inside laid.distinct).mp ?_
  rw [List.getElem?_map, List.getElem?_map, first, second]
  exact congrArg some same

theorem Laid.find_block (inside : blocks[i]? = some block) :
    ((List.range maxBlockEntries).find? fun i => blockId buffer i == block.id) = some i := by
  have below := (List.getElem?_eq_some_iff.mp inside).1
  have room := laid.room
  rw [List.find?_range_eq_some]
  refine ⟨?_, List.mem_range.mpr (by omega), fun j before => ?_⟩
  · rw [(laid.entered i block inside).id]
    exact beq_self_eq_true _
  · have other : blocks[j]? = some blocks[j] := List.getElem?_eq_getElem (by omega)
    rw [(laid.entered j _ other).id, Bool.not_eq_true', beq_eq_false_iff_ne]
    intro same
    exact absurd (laid.index_unique other inside same) (Nat.ne_of_lt before)

theorem Laid.find_none (nonzero : id ≠ 0) (absent : ∀ block ∈ blocks, block.id ≠ id) :
    ((List.range maxBlockEntries).find? fun i => blockId buffer i == id) = none := by
  rw [List.find?_range_eq_none]
  intro i below
  rw [Bool.not_eq_true', beq_eq_false_iff_ne]
  rcases Nat.lt_or_ge i blocks.length with used | unused
  · have inside : blocks[i]? = some blocks[i] := List.getElem?_eq_getElem used
    rw [(laid.entered i _ inside).id]
    exact absent _ (List.getElem_mem used)
  · rw [(laid.unused i unused below).1]
    exact nonzero.symm

theorem Laid.find_zero : ((List.range maxBlockEntries).find? fun i => blockId buffer i == 0) =
      if blocks.length < maxBlockEntries then some blocks.length else none := by
  have used : ∀ i < blocks.length, (blockId buffer i == 0) = false := by
    intro i below
    have inside : blocks[i]? = some blocks[i] := List.getElem?_eq_getElem below
    rw [(laid.entered i _ inside).id, beq_eq_false_iff_ne]
    exact (laid.valid _ (List.getElem_mem below)).nonzero
  split_ifs with room
  · rw [List.find?_range_eq_some]
    refine ⟨?_, List.mem_range.mpr room, fun j before => ?_⟩
    · rw [(laid.unused _ (le_refl _) room).1]
      rfl
    · rw [used j before]
      rfl
  · rw [List.find?_range_eq_none]
    intro i below
    rw [used i (by omega)]
    rfl

theorem Laid.pointer : (∃ e, permitted blocks id size flag = .error e ∧
      getConfigInfoBlockPointer buffer id size flag = .error e) ∨
    ∃ i block, blocks[i]? = some block ∧ block.id = id ∧ block.data.length = size ∧
      permitted blocks id size flag = .ok block ∧ getConfigInfoBlockPointer buffer id size flag =
        .ok (dataPlace i (headerSize + spaceUsed (blocks.take i)) block) := by
  unfold getConfigInfoBlockPointer permitted
  by_cases zero : id = 0
  · subst zero
    rw [laid.find_zero]
    left
    by_cases room : blocks.length < maxBlockEntries
    · rw [if_pos room, if_pos room]
      dsimp only
      rw [(laid.unused _ (le_refl _) room).2, Nat.zero_and]
      exact ⟨_, rfl, rfl⟩
    · rw [if_neg room, if_neg room]
      exact ⟨_, rfl, rfl⟩
  rw [if_neg zero]
  cases found : blocks.find? fun block => block.id == id with
  | none =>
    left
    rw [laid.find_none zero fun block member same => ?_]
    · exact ⟨_, rfl, rfl⟩
    · have absent := List.find?_eq_none.mp found block member
      rw [same] at absent
      exact absent (beq_self_eq_true id)
  | some block =>
    have member := List.mem_of_find?_eq_some found
    have same : block.id = id :=
      beq_iff_eq.mp (List.find?_some (p := fun block : ConfigBlock => block.id == id) found)
    obtain ⟨i, inside⟩ := List.getElem?_of_mem member
    have entry := laid.entered i block inside
    rw [← same, laid.find_block inside]
    dsimp only
    rw [entry.flags, entry.size]
    by_cases allowed : block.flags &&& flag = 0
    · rw [if_pos allowed, if_pos allowed]
      exact .inl ⟨_, rfl, rfl⟩
    rw [if_neg allowed, if_neg allowed]
    by_cases exact_ : block.data.length ≠ size
    · rw [if_pos exact_, if_pos exact_]
      exact .inl ⟨_, rfl, rfl⟩
    rw [if_neg exact_, if_neg exact_]
    refine .inr ⟨i, block, inside, rfl, not_not.mp exact_, rfl, ?_⟩
    unfold dataPlace
    by_cases large : block.Large
    · rw [if_pos large, if_neg (not_le.mpr large), entry.offset large]
    · rw [if_neg large, if_pos (not_lt.mp large)]

end

theorem spaceUsed_congr {blocks' : List ConfigBlock}
    (same : blocks'.map ConfigBlock.space = blocks.map ConfigBlock.space) :
    spaceUsed blocks' = spaceUsed blocks := congrArg List.sum same

theorem large_iff (size : input.length = block.data.length) :
    ConfigBlock.Large { block with data := input } ↔ block.Large := by
  unfold ConfigBlock.Large
  rw [size]

theorem replace_space (size : input.length = block.data.length)
    (single : ∀ other ∈ blocks, other.id = block.id → other = block) :
    (replace blocks block.id input).map ConfigBlock.space = blocks.map ConfigBlock.space := by
  unfold replace
  rw [List.map_map]
  refine List.map_congr_left fun other member => ?_
  simp only [Function.comp_apply]
  split_ifs with same
  · rw [single other member same]
    exact if_congr (large_iff size) size rfl
  · rfl

theorem map_take_space {blocks' : List ConfigBlock}
    (same : blocks'.map ConfigBlock.space = blocks.map ConfigBlock.space) (i : Nat) :
    spaceUsed (blocks'.take i) = spaceUsed (blocks.take i) := by
  unfold spaceUsed
  rw [List.map_take, same, List.map_take]

theorem set_other {k : Nat} (size : input.length = block.data.length)
    (other : ¬ Uses i start block k) : blit buffer (dataPlace i start block) input k = buffer k := by
  have inline : inlineOffset i = entryOffset i + 4 := rfl
  unfold dataPlace
  by_cases large : block.Large
  · rw [if_pos large]
    by_cases before : k < start
    · exact blit_before before
    · refine blit_behind (not_lt.mp fun within => other (.inr ⟨large, by omega, by omega⟩))
  · rw [if_neg large]
    have short : block.data.length ≤ 4 := not_lt.mp large
    by_cases before : k < inlineOffset i
    · exact blit_before before
    · refine blit_behind (not_lt.mp fun within => other (.inl ⟨by omega, by omega⟩))

theorem Entered.set (h : Entered buffer i start block) (inside : i < maxBlockEntries)
    (behind : headerSize ≤ start) (size : input.length = block.data.length) :
    Entered (blit buffer (dataPlace i start block) input) i start { block with data := input } := by
  have inline : inlineOffset i = entryOffset i + 4 := rfl
  have below := entryOffset_header inside
  have apart : ∀ a n, entryOffset i ≤ a → a + n ≤ entryOffset i + 12 →
      (block.Large ∨ a + n ≤ inlineOffset i ∨ inlineOffset i + 4 ≤ a) →
      slice (blit buffer (dataPlace i start block) input) a n = slice buffer a n := by
    intro a n low high kind
    unfold dataPlace
    by_cases large : block.Large
    · rw [if_pos large]
      exact slice_blit_of_apart (.inr (by omega))
    · have short : block.data.length ≤ 4 := not_lt.mp large
      rw [if_neg large]
      rcases kind.resolve_left large with before | after
      · exact slice_blit_of_apart (.inr before)
      · exact slice_blit_of_apart (.inl (by omega))
  have same : dataPlace i start { block with data := input } = dataPlace i start block :=
    if_congr (large_iff size) rfl rfl
  refine ⟨?_, ?_, ?_, fun large => ?_, ?_⟩
  · exact (congrArg leValue (apart _ 4 (by omega) (by omega) (.inr (.inl (by omega))))).trans h.id
  · refine (congrArg leValue (apart _ 2 (by omega) (by omega) (.inr (.inr (by omega))))).trans ?_
    exact h.size.trans size.symm
  · exact (congrArg leValue (apart _ 2 (by omega) (by omega) (.inr (.inr (by omega))))).trans h.flags
  · have large := (large_iff size).mp large
    exact (congrArg leValue (apart _ 4 (by omega) (by omega) (.inl large))).trans (h.offset large)
  · rw [same]
    exact slice_blit

theorem Laid.replace_getElem? (laid : Laid buffer blocks) (inside : blocks[i]? = some block)
    (j : Nat) : (replace blocks block.id input)[j]? =
      if j = i then some { block with data := input } else blocks[j]? := by
  unfold replace
  rw [List.getElem?_map]
  split_ifs with same
  · subst same
    rw [inside]
    exact congrArg some (if_pos rfl)
  · cases other : blocks[j]? with
    | none => rfl
    | some b =>
      refine congrArg some (if_neg fun sameId => ?_)
      exact same (laid.index_unique other inside sameId)

theorem Laid.set (laid : Laid buffer blocks) (inside : blocks[i]? = some block)
    (size : input.length = block.data.length) :
    Laid (blit buffer (dataPlace i (headerSize + spaceUsed (blocks.take i)) block) input)
      (replace blocks block.id input) := by
  have below := (List.getElem?_eq_some_iff.mp inside).1
  have room := laid.room
  have behind : headerSize ≤ headerSize + spaceUsed (blocks.take i) := Nat.le_add_right ..
  have space : (replace blocks block.id input).map ConfigBlock.space =
      blocks.map ConfigBlock.space := by
    refine replace_space size fun other member same => ?_
    obtain ⟨j, at_⟩ := List.getElem?_of_mem member
    obtain rfl := laid.index_unique at_ inside same
    exact Option.some.inj (at_.symm.trans inside)
  have ids : (replace blocks block.id input).map ConfigBlock.id = blocks.map ConfigBlock.id := by
    unfold replace
    rw [List.map_map]
    refine List.map_congr_left fun other _ => ?_
    simp only [Function.comp_apply]
    split_ifs
    · rfl
    · rfl
  have head : ∀ k < 4, ¬ Uses i (headerSize + spaceUsed (blocks.take i)) block k := by
    have first := @entryOffset_pos i
    unfold headerSize
    rintro k small (⟨low, _⟩ | ⟨_, low, _⟩)
    · omega
    · omega
  refine ⟨?_, ?_, ?_, ?_, ?_, ?_, fun j other at_ => ?_, fun j unused within => ?_⟩
  · rw [replace, List.length_map, ← laid.total]
    exact congrArg leValue (slice_congr fun k _ => set_other size (head _ (by omega)))
  · refine Eq.trans (congrArg leValue (slice_congr fun k _ => ?_)) laid.start
    exact set_other size (head _ (by omega))
  · rwa [replace, List.length_map]
  · rw [spaceUsed_congr space]
    exact laid.fits
  · intro other member
    obtain ⟨old, oldMember, rfl⟩ := List.mem_map.mp member
    have valid := laid.valid old oldMember
    split_ifs with same
    · refine ⟨valid.nonzero, valid.id, valid.flags, ?_⟩
      have short := (laid.valid block (List.mem_of_getElem? inside)).size
      rw [← size] at short
      exact short
    · exact valid
  · rw [ids]
    exact laid.distinct
  · rw [map_take_space space]
    rw [laid.replace_getElem? inside] at at_
    split_ifs at at_ with same
    · subst same
      obtain rfl := Option.some.inj at_
      exact (laid.entered j block inside).set (by omega) behind size
    · exact (laid.entered j other at_).frame fun k uses =>
        set_other size (laid.uses_apart at_ inside same uses)
  · rw [replace, List.length_map] at unused
    have apart := entryOffset_apart (show i < j by omega)
    have table := entryOffset_header within
    have free : ∀ k, entryOffset j ≤ k → k < entryOffset j + 12 →
        ¬ Uses i (headerSize + spaceUsed (blocks.take i)) block k := by
      rintro k low high (⟨_, high'⟩ | ⟨_, low', _⟩)
      · omega
      · omega
    obtain ⟨noId, noFlags⟩ := laid.unused j unused within
    constructor
    · rw [← noId]
      exact congrArg leValue (slice_congr fun k _ => set_other size (free _ (by omega) (by omega)))
    · rw [← noFlags]
      exact congrArg leValue (slice_congr fun k _ => set_other size (free _ (by omega) (by omega)))

section

variable (laid : Laid buffer blocks)
include laid

theorem Laid.place_fits (inside : blocks[i]? = some block) :
    dataPlace i (headerSize + spaceUsed (blocks.take i)) block + block.data.length ≤
      savefileSize := by
  have below := (List.getElem?_eq_some_iff.mp inside).1
  have room := laid.room
  have fits := laid.fits
  have table := entryOffset_header (show i < maxBlockEntries by omega)
  have within := spaceUsed_within inside
  unfold dataPlace
  split_ifs with large
  · rw [space_of_large large] at within
    omega
  · have short : block.data.length ≤ 4 := not_lt.mp large
    unfold inlineOffset
    omega

theorem Laid.run_create (given : Given blocks (.create id size flags data)) :
    ∃ buffer', run buffer (.create id size flags data) =
        .ok (answer blocks (.create id size flags data), buffer') ∧
      (∀ e, answer blocks (.create id size flags data) = .error e → buffer' = buffer) ∧
      Laid buffer' (track blocks (.create id size flags data)) := by
  obtain ⟨rfl, valid, fresh, room⟩ := given
  unfold Config.run answer track
  dsimp only
  by_cases table : blocks.length < maxBlockEntries
  · have fits : headerSize + spaceUsed blocks +
        ConfigBlock.space { id := id, flags := flags, data := data } ≤ savefileSize := by
      by_cases large : ConfigBlock.Large { id := id, flags := flags, data := data }
      · rw [space_of_large large]
        exact room large
      · rw [space_of_small large]
        exact laid.fits
    obtain ⟨copied, call, copies⟩ := create_copied laid table fits
    have created := copies.created valid (Nat.le_add_right ..) table laid.total
    rw [if_pos table, if_pos table, call]
    exact ⟨_, rfl, nofun, laid.append valid fresh table fits created⟩
  · have full : blocks.length = maxBlockEntries := le_antisymm laid.room (not_lt.mp table)
    rw [if_neg table, if_neg table, create_full full laid]
    exact ⟨buffer, rfl, fun _ _ => rfl, laid⟩

theorem Laid.run_set (given : Given blocks (.set id size flag input)) :
    ∃ buffer', run buffer (.set id size flag input) =
        .ok (answer blocks (.set id size flag input), buffer') ∧
      (∀ e, answer blocks (.set id size flag input) = .error e → buffer' = buffer) ∧
      Laid buffer' (track blocks (.set id size flag input)) := by
  obtain rfl : input.length = size := given
  unfold Config.run answer track setConfigInfoBlock
  dsimp only
  rcases @Laid.pointer buffer blocks id input.length flag laid with
    ⟨e, refused, pointer⟩ | ⟨i, block, inside, rfl, size, allowed, pointer⟩
  · rw [refused, pointer]
    exact ⟨buffer, rfl, fun _ _ => rfl, laid⟩
  · have fits := laid.place_fits inside
    rw [size] at fits
    rw [allowed, pointer]
    dsimp only
    rw [copyInto, if_pos ⟨le_refl _, fits⟩, List.take_length]
    exact ⟨_, rfl, (by rintro _ ⟨⟩), laid.set inside size.symm⟩

theorem Laid.run_get :
    run buffer (.get id size flag) = .ok (answer blocks (.get id size flag), buffer) := by
  unfold Config.run answer getConfigInfoBlock
  dsimp only
  rcases @Laid.pointer buffer blocks id size flag laid with
    ⟨e, refused, pointer⟩ | ⟨i, block, inside, rfl, rfl, allowed, pointer⟩
  · rw [refused, pointer]
    rfl
  · rw [allowed, pointer]
    dsimp only
    rw [copyFrom, if_pos (laid.place_fits inside), (laid.entered i block inside).data]
    rfl

theorem Laid.run {call : ConfigCall} (given : Given blocks call) :
    ∃ buffer', run buffer call = .ok (answer blocks call, buffer') ∧
      (∀ e, answer blocks call = .error e → buffer' = buffer) ∧
      Laid buffer' (track blocks call) := by
  cases call with
  | create id size flags data => exact laid.run_create given
  | set id size flag input => exact laid.run_set given
  | get id size flag => exact ⟨buffer, laid.run_get, fun _ _ => rfl, laid⟩

end

theorem laid_emptyHeader : Laid emptyHeader [] := by
  have zero : ∀ a n, 4 ≤ a ∨ a + n ≤ 2 → leValue (slice emptyHeader a n) = 0 := by
    intro a n outside
    have apart : 2 + (leBytes 2 headerSize).length ≤ a ∨ a + n ≤ 2 := by
      rw [length_leBytes]
      omega
    rw [emptyHeader, setDataEntriesOffset, slice_blit_of_apart apart]
    have zeros : slice (fun _ => (0 : UInt8)) a n = List.replicate n 0 := by
      rw [slice, List.map_const', List.length_range]
    rw [zeros, leValue_zeros]
  have start : dataEntriesOffset emptyHeader = headerSize := by
    rfl
  refine ⟨zero 0 2 (by omega), start, Nat.zero_le _, by decide, fun _ => (by rintro ⟨⟩),
    List.nodup_nil, fun _ _ => (by rintro ⟨⟩), fun i _ _ => ?_⟩
  have first := @entryOffset_pos i
  exact ⟨zero _ 4 (by omega), zero _ 2 (by omega)⟩

/-- The buffer holds the blocks, and the data of the large ones lie apart behind the table. -/
structure Represents (buffer : ConfigBuffer) (blocks : List ConfigBlock) : Prop where
  total : totalEntries buffer = blocks.length
  entries : ∀ i block, blocks[i]? = some block → blockId buffer i = block.id ∧
    blockSize buffer i = block.data.length ∧ blockFlags buffer i = block.flags
  inside : ∀ i block, blocks[i]? = some block → block.Large →
    headerSize ≤ offsetOrData buffer i ∧ offsetOrData buffer i + block.data.length ≤ savefileSize
  disjoint : ∀ i j block other, i ≠ j → blocks[i]? = some block → blocks[j]? = some other →
    block.Large → other.Large →
      offsetOrData buffer i + block.data.length ≤ offsetOrData buffer j ∨
        offsetOrData buffer j + other.data.length ≤ offsetOrData buffer i
  data : ∀ i block, blocks[i]? = some block →
    slice buffer (dataPlace i (offsetOrData buffer i) block) block.data.length = block.data

theorem Laid.ordered {other : ConfigBlock} (laid : Laid buffer blocks) (before : i < j)
    (first : blocks[i]? = some block) (second : blocks[j]? = some other) (large : block.Large)
    (large' : other.Large) : offsetOrData buffer i + block.data.length ≤ offsetOrData buffer j := by
  have ordered := spaceUsed_before first before
  rw [space_of_large large] at ordered
  rw [(laid.entered i block first).offset large, (laid.entered j other second).offset large']
  omega

theorem Laid.represents (laid : Laid buffer blocks) : Represents buffer blocks where
  total := laid.total
  entries i block inside :=
    ⟨(laid.entered i block inside).id, (laid.entered i block inside).size,
      (laid.entered i block inside).flags⟩
  inside i block inside large := by
    have within := laid.place_fits inside
    rw [dataPlace, if_pos large] at within
    rw [(laid.entered i block inside).offset large]
    exact ⟨Nat.le_add_right .., within⟩
  disjoint i j block other different first second large large' := by
    rcases Nat.lt_or_gt_of_ne different with before | behind
    · exact .inl (laid.ordered before first second large large')
    · exact .inr (laid.ordered behind second first large' large)
  data i block inside := by
    have entry := laid.entered i block inside
    refine Eq.trans (congrArg (slice buffer · block.data.length) ?_) entry.data
    unfold dataPlace
    split_ifs with large
    · exact entry.offset large
    · rfl

/-- The buffer and the blocks created, from the header that `FormatConfig` writes. -/
abbrev Reachable := Runs.Reachable (fun s : ConfigBuffer × List ConfigBlock => s = (emptyHeader, []))
  (fun s call s' => ∃ result, run s.1 call = .ok (result, s'.1) ∧ s'.2 = track s.2 call)
  (fun s call => Given s.2 call)

theorem Reachable.laid {s : ConfigBuffer × List ConfigBlock} (h : Reachable s) : Laid s.1 s.2 := by
  apply h.invariant
  · rintro _ rfl
    exact laid_emptyHeader
  · rintro s call ⟨buffer, blocks⟩ laid given ⟨result, run, tracked⟩
    obtain ⟨after, run', _, laid'⟩ := laid.run given
    cases run.symm.trans run'
    rw [tracked]
    exact laid'

theorem permitted_own (laid : Laid buffer blocks) (member : block ∈ blocks)
    (allowed : block.flags &&& flag ≠ 0) :
    permitted blocks block.id block.data.length flag = .ok block := by
  obtain ⟨i, inside⟩ := List.getElem?_of_mem member
  unfold permitted
  rw [if_neg (laid.valid block member).nonzero]
  cases found : blocks.find? fun other => other.id == block.id with
  | none =>
    have absent := List.find?_eq_none.mp found block member
    exact absurd (beq_self_eq_true _) absent
  | some other =>
    have same : other.id = block.id :=
      beq_iff_eq.mp (List.find?_some (p := fun other : ConfigBlock => other.id == block.id) found)
    obtain ⟨j, inside'⟩ := List.getElem?_of_mem (List.mem_of_find?_eq_some found)
    obtain rfl := laid.index_unique inside' inside same
    obtain rfl := Option.some.inj (inside'.symm.trans inside)
    dsimp only
    rw [if_neg allowed, if_neg (not_not.mpr rfl)]

theorem permitted_absent (nonzero : id ≠ 0) (absent : id ∉ blocks.map ConfigBlock.id) :
    permitted blocks id size flag = .error .notFound := by
  have none : (blocks.find? fun block => block.id == id) = none := by
    apply List.find?_eq_none.mpr
    intro block member same
    exact absent (List.mem_map.mpr ⟨block, member, beq_iff_eq.mp same⟩)
  rw [permitted, if_neg nonzero, none]

/-- A `Set` changes no block but the data of the one with its id. -/
structure ChangesOne (blocks blocks' : List ConfigBlock) (id : Nat) : Prop where
  headers : ∀ i : Nat, blocks'[i]?.map ConfigBlock.header = blocks[i]?.map ConfigBlock.header
  others : ∀ (i : Nat) block, blocks[i]? = some block → block.id ≠ id → blocks'[i]? = some block

theorem Laid.changesOne (laid : Laid buffer blocks) (given : input.length = size) :
    ChangesOne blocks (track blocks (.set id size flag input)) id := by
  subst given
  unfold track
  dsimp only
  rcases @Laid.pointer buffer blocks id input.length flag laid with
    ⟨e, refused, _⟩ | ⟨j, block, inside, rfl, length, allowed, _⟩
  · rw [refused]
    exact ⟨fun _ => rfl, fun _ _ at_ _ => at_⟩
  · rw [allowed]
    refine ⟨fun i => ?_, fun i other at_ different => ?_⟩
    · rw [laid.replace_getElem? inside]
      split_ifs with same
      · rw [same, inside]
        exact congrArg (fun n => some (block.id, n, block.flags)) length.symm
      · rfl
    · rw [laid.replace_getElem? inside, if_neg, at_]
      rintro rfl
      exact different (congrArg ConfigBlock.id (Option.some.inj (at_.symm.trans inside)))

/-- Whatever the calls before, the buffer represents the blocks, and every call answers and does
as their list says: a `Get` has the latest data, a `Set` changes those of one block, an unknown id
is not found, and what fails changes nothing. -/
theorem config_blocks {s : ConfigBuffer × List ConfigBlock} (h : Reachable s) : Represents s.1 s.2 ∧
      (∀ call, Given s.2 call → ∃ buffer, run s.1 call = .ok (answer s.2 call, buffer) ∧
        (∀ e, answer s.2 call = .error e → buffer = s.1) ∧ Represents buffer (track s.2 call)) ∧
      (∀ block ∈ s.2, ∀ flag, block.flags &&& flag ≠ 0 →
        answer s.2 (.get block.id block.data.length flag) = .ok block.data) ∧
      (∀ id size flag input, input.length = size →
        ChangesOne s.2 (track s.2 (.set id size flag input)) id) ∧
      ∀ id size flag input, id ≠ 0 → id ∉ s.2.map ConfigBlock.id →
        answer s.2 (.get id size flag) = .error .notFound ∧
          answer s.2 (.set id size flag input) = .error .notFound := by
  have laid := h.laid
  refine ⟨laid.represents, fun call given => ?_, fun block member flag allowed => ?_,
    fun id size flag input given => laid.changesOne given,
    fun id size flag input nonzero absent => ?_⟩
  · obtain ⟨buffer, run, failed, laid'⟩ := laid.run given
    exact ⟨buffer, run, failed, laid'.represents⟩
  · rw [answer, permitted_own laid member allowed]
    rfl
  · rw [answer, answer, permitted_absent nonzero absent]
    exact ⟨rfl, rfl⟩

theorem Reachable.next {c : ConfigCall} (h : Reachable (buffer, blocks))
    (given : Given blocks c) : ∃ after, Reachable (after, track blocks c) := by
  obtain ⟨after, called, _, _⟩ := h.laid.run given
  exact ⟨after, .step h given ⟨_, called, rfl⟩⟩

/-- A large block and one in the header are created, and the large one is overwritten. -/
theorem config_blocks_overwritten : ∃ buffer,
    Represents buffer [{ id := 0x00030001, flags := 0xE, data := List.replicate 8 7 },
      { id := 0x000A0001, flags := 0xE, data := [1, 2, 3, 4] }] ∧
    run buffer (.get 0x00030001 8 2) = .ok (.ok (List.replicate 8 7), buffer) ∧
    run buffer (.get 0x00050001 8 2) = .ok (.error .notFound, buffer) := by
  have start : Reachable (emptyHeader, []) := .start rfl
  obtain ⟨_, large⟩ := start.next (c := .create 0x00030001 8 0xE (List.replicate 8 0))
    ⟨rfl, ⟨by decide, by decide, by decide, by decide⟩, by decide, by decide⟩
  obtain ⟨_, small⟩ := large.next (c := .create 0x000A0001 4 0xE [1, 2, 3, 4])
    ⟨rfl, ⟨by decide, by decide, by decide, by decide⟩, by decide, by decide⟩
  obtain ⟨buffer, overwritten⟩ := small.next (c := .set 0x00030001 8 2 (List.replicate 8 7)) rfl
  exact ⟨buffer, (config_blocks overwritten).1, overwritten.laid.run_get,
    overwritten.laid.run_get⟩

end Config
end EmuThreeDS
