import EmuThreeDS.Memory.BlockBounds
import EmuThreeDS.Memory.BlockCopies

/-!
# What `CopyBlock` copies

A copy gives the destination what the source shows, if the destination has no byte twice and no
plain page of the two ranges lies over bytes that the rasterizer holds newer.
-/
namespace EmuThreeDS

open Layout PageTables

def PagesShare (pluginFb : Nat) (t t' : PageTable) (vaddr vaddr' : Nat) : Prop :=
  ∃ i j x, i / pageSize = vaddr / pageSize ∧ j / pageSize = vaddr' / pageSize ∧
    hostAt pluginFb t i = some x ∧ hostAt pluginFb t' j = some x

/-- The ranges do not wrap, and no source page shares memory with a destination page. -/
structure Separate (pluginFb : Nat) (srcTable destTable : PageTable) (dest src size : Nat) :
    Prop where
  source : src + size ≤ 0x100000000
  target : dest + size ≤ 0x100000000
  apart : ∀ i < size, ∀ j < size, ¬ PagesShare pluginFb srcTable destTable (src + i) (dest + j)

/-- If the byte is in plain memory, the rasterizer holds no newer one. -/
def NothingNewer (pluginFb : Nat) (t : PageTable) (m : GuestMemory) (vaddr : Nat) : Prop :=
  ∀ loc, backing pluginFb t vaddr = .ok (.plain loc) → Free m loc 1

/-- After the copy a block read of the destination gives the mapped bytes what a block read of the
source gave them before, and no other byte is seen to change. -/
def Copies (pluginFb : Nat) (r : Rasterizer) (srcTable destTable : PageTable) (m : GuestMemory)
    (dest src size : Nat) : Prop :=
  ∃ m', copyBlock pluginFb r srcTable destTable m dest src size = .ok m' ∧
    (∃ given m₁ got m₂, readBlockImpl pluginFb r srcTable m src size = .ok (given, m₁) ∧
      readBlockImpl pluginFb r destTable m' dest size = .ok (got, m₂) ∧
      (∀ j < size, hostAt pluginFb destTable (dest + j) ≠ none → got[j]? = given[j]?) ∧
      ∀ j < size, hostAt pluginFb srcTable (src + j) = none → given[j]? = some 0) ∧
    ∀ x, (∀ j < size, hostAt pluginFb destTable (dest + j) ≠ some x) → m'.visible x = m.visible x

section

variable {pluginFb : Nat} {r : Rasterizer} {t srcTable destTable : PageTable} {m : GuestMemory}
  {dest src size : Nat}

theorem hostAt_inj (word : pluginFb < 0x100000000) (backs : Backs pluginFb t) {i j : Nat}
    {x : HostLoc} (page : i / pageSize = j / pageSize) (order : i ≤ j)
    (at_i : hostAt pluginFb t i = some x) (at_j : hostAt pluginFb t j = some x) : i = j := by
  obtain ⟨k, rfl⟩ := Nat.exists_eq_add_of_le order
  obtain ⟨b, here⟩ := backs i
  obtain ⟨b', there⟩ := backs (i + k)
  have fits : i % pageSize + (k + 1) ≤ pageSize := by
    unfold pageSize at *
    omega
  have same := backing_plus word here there fits (Nat.lt_succ_self k)
  rw [hostAt_eq here] at at_i
  rw [hostAt_eq there, same, Backing.target_plus, at_i, Option.map_some, Option.some.injEq] at at_j
  have none := HostLoc.plus_inj (i := k) (j := 0) at_j
  omega

theorem copyable_of_separate (word : pluginFb < 0x100000000) (backs : Backs pluginFb srcTable)
    (backs' : Backs pluginFb destTable)
    (separate : Separate pluginFb srcTable destTable dest src size)
    (distinct : ∀ i < size, ∀ j < size,
      PagesShare pluginFb destTable destTable (dest + i) (dest + j) →
        (dest + i) / pageSize = (dest + j) / pageSize)
    (newest : ∀ j < size, NothingNewer pluginFb srcTable m (src + j))
    (newest' : ∀ j < size, NothingNewer pluginFb destTable m (dest + j)) :
    Copyable pluginFb srcTable destTable m src dest size := by
  refine ⟨?_, ?_, ?_, ?_⟩
  · intro j below
    obtain ⟨b, at_j⟩ := backs (src + j)
    exact ⟨b, at_j, fun loc plain => newest j below loc (plain ▸ at_j)⟩
  · intro j below
    obtain ⟨b, at_j⟩ := backs' (dest + j)
    exact ⟨b, at_j, fun loc plain => newest' j below loc (plain ▸ at_j)⟩
  · intro i below j below' x at_i at_j
    have page := distinct i below j below' ⟨_, _, x, rfl, rfl, at_i, at_j⟩
    rcases Nat.le_total i j with order | order
    · have same := hostAt_inj word backs' page (Nat.add_le_add_left order dest) at_i at_j
      omega
    · have same := hostAt_inj word backs' page.symm (Nat.add_le_add_left order dest) at_j at_i
      omega
  · intro i below j below' x at_i at_j
    exact separate.apart i below j below' ⟨_, _, x, rfl, rfl, at_i, at_j⟩

theorem copies_of_copyable (word : pluginFb < 0x100000000) (low : dest < 0x100000000)
    (separate : Separate pluginFb srcTable destTable dest src size)
    (copyable : Copyable pluginFb srcTable destTable m src dest size) :
    Copies pluginFb r srcTable destTable m dest src size := by
  obtain ⟨m', run, written⟩ := copyBlock_written (r := r) word separate.target separate.source low
    copyable
  obtain ⟨m₁, before, -⟩ := readBlockImpl_seen (r := r) word separate.source copyable.source
  obtain ⟨m₂, after, -⟩ := readBlockImpl_seen (r := r) word separate.target
    fun j below => (copyable.target j below).shrunk written.shrunk
  have nth : ∀ (byte : Nat → UInt8), ∀ j < size, ((List.range size).map byte)[j]? = some (byte j) := by
    intro byte j below
    rw [List.getElem?_map, List.getElem?_range below]
    rfl
  refine ⟨m', run, ⟨_, m₁, _, m₂, before, after, ?_, ?_⟩, ?_⟩
  · intro j below mapped
    obtain ⟨x, at_j⟩ := Option.ne_none_iff_exists'.mp mapped
    rw [nth _ j below, nth _ j below]
    refine congrArg some ?_
    have wrote := written.wrote j x (Nat.zero_le _) below at_j
    unfold seenAt
    rw [at_j]
    exact wrote
  · intro j below unmapped
    rw [nth _ j below]
    unfold seenAt
    rw [unmapped]
  · intro x off
    exact written.seen x fun j _ below => off j below

end

theorem copyBlock_copies {s : PageTables} {srcTable destTable : PageTable} {pluginFb : Nat}
    (reachable : s.Reachable) (member : srcTable ∈ s.list) (member' : destTable ∈ s.list)
    (word : pluginFb < 0x100000000) (plugged : Plugged pluginFb srcTable)
    (plugged' : Plugged pluginFb destTable) (r : Rasterizer) (m : GuestMemory)
    {dest src size : Nat} (low : dest < 0x100000000)
    (separate : Separate pluginFb srcTable destTable dest src size)
    (distinct : ∀ i < size, ∀ j < size,
      PagesShare pluginFb destTable destTable (dest + i) (dest + j) →
        (dest + i) / pageSize = (dest + j) / pageSize)
    (newest : ∀ j < size, NothingNewer pluginFb srcTable m (src + j) ∧
      NothingNewer pluginFb destTable m (dest + j)) :
    Copies pluginFb r srcTable destTable m dest src size :=
  copies_of_copyable word low separate (copyable_of_separate word
    (reachable.backs member plugged) (reachable.backs member' plugged') separate distinct
    (fun j below => (newest j below).1) fun j below => (newest j below).2)

/-- The page 0x201 is the third of FCRAM, 0x100 and 0x101 are both the first. -/
def aliasedTable : PageTable :=
  ((PageTable.clear.set 0x100 .memory (some (fcram, 0))).set 0x101 .memory (some (fcram, 0))).set
    0x201 .memory (some (fcram, 0x2000))

theorem aliasedTable_reachable : (⟨[aliasedTable], fun _ => false⟩ : PageTables).Reachable :=
  ((Reachable.registered.mapPage (by decide) (by decide)).mapPage (by decide)
    (by decide)).mapPage (by decide) (by decide)

def copiedBytes (r : Rasterizer) (t : PageTable) (m : GuestMemory) (dest src size i j : Nat) :
    Exec (List (Option UInt8)) := do
  let (given, _) ← readBlockImpl 0 r t m src size
  let m ← copyBlock 0 r t t m dest src size
  let (got, _) ← readBlockImpl 0 r t m dest size
  return [given[i]?, got[i]?, given[j]?, got[j]?]

def oneByte : GuestMemory where
  bytes := fun loc => if loc = (fcram, 0x2FFF) then 1 else 0
  held := fun _ => none

theorem copiedBytes_of_copies {r : Rasterizer} {t : PageTable} {m : GuestMemory}
    {dest src size i j : Nat} (copies : Copies 0 r t t m dest src size) (below : i < size)
    (below' : j < size) (mapped : hostAt 0 t (dest + i) ≠ none)
    (mapped' : hostAt 0 t (dest + j) ≠ none) :
    ∃ a b, copiedBytes r t m dest src size i j = .ok [a, a, b, b] := by
  obtain ⟨m', run, ⟨given, m₁, got, m₂, before, after, same, -⟩, -⟩ := copies
  refine ⟨given[i]?, given[j]?, ?_⟩
  unfold copiedBytes
  rw [before, ok_bind]
  dsimp only
  rw [run, ok_bind, after, ok_bind]
  rw [same i below mapped, same j below' mapped']
  rfl

theorem aliased_bytes : copiedBytes exactRasterizer aliasedTable oneByte 0x100FFF 0x200FFF 0x1001 0
    0x1000 = .ok [some 0, some 1, some 1, some 1] := by
  decide +kernel

/-- The pages 0x200 and 0x201 are the third and the fourth of FCRAM, and the sixth one is where
the linear heap has it. -/
def linearTable : PageTable :=
  ((PageTable.clear.set 0x200 .memory (some (fcram, 0x2000))).set 0x201 .memory
    (some (fcram, 0x3000))).set 0x14005 .memory (some (fcram, 0x5000))

theorem linearTable_reachable : (⟨[linearTable], fun _ => false⟩ : PageTables).Reachable :=
  ((Reachable.registered.mapPage (by decide) (by decide)).mapPage (by decide)
    (by decide)).mapPage (by decide) (by decide)

theorem cachedTable_reachable : ∃ marker, (⟨[linearTable.set 0x14005 .rasterizerCachedMemory none],
    marker⟩ : PageTables).Reachable ∧
      ∀ paddr, paddr / pageSize = 0x20003 → Holdable 0 marker paddr := by
  refine ⟨_, .step linearTable_reachable
    (show PageTables.Mapped _ (.rasterizerMarkRegionCached 0 0x20003000 0x3000 true) from trivial)
    rfl, ?_⟩
  intro paddr page vaddr member
  have at_page : vaddr / pageSize = 0x14003 ∨ vaddr / pageSize = 0x30003 := by
    unfold physicalToVirtual at member
    unfold vramPaddrEnd plugin3gxFbSize fcramPaddr linearHeapVaddr newLinearHeapVaddr add32 at member
    unfold pageSize at page ⊢
    split_ifs at member <;> simp only [List.mem_cons, List.not_mem_nil, or_false] at member <;> omega
  have known : cacheable vaddr := by
    unfold pageSize at at_page
    unfold cacheable
    rw [decide_eq_true_eq]
    unfold linearHeapVaddr linearHeapVaddrEnd newLinearHeapVaddr newLinearHeapVaddrEnd
    omega
  unfold isCached
  rw [known]
  rcases at_page with at_page | at_page <;> rw [at_page] <;> decide +kernel

/-- The start of the fourth page of FCRAM is held newer. -/
def newerBytes : GuestMemory where
  bytes := fun _ => 0
  held := fun paddr => if 0x20003000 ≤ paddr ∧ paddr < 0x20003004 then some 7 else none

/-- A small region takes what surrounds it along. -/
def smallRegions : Rasterizer := ⟨fun _ _ size _ => size ≤ 8⟩

theorem stale_bytes : copiedBytes smallRegions
    (linearTable.set 0x14005 .rasterizerCachedMemory none) newerBytes 0x14005000 0x200FFC 8 0 4 =
      .ok [some 0, some 0, some 0, some 7] := by
  decide +kernel

theorem hostAt_plain {pluginFb : Nat} {t : PageTable} {vaddr : Nat} (loc : HostLoc)
    (type : t.attributes (vaddr / pageSize) = .memory)
    (pointer : t.pointers (vaddr / pageSize) = some loc) :
    hostAt pluginFb t vaddr = some (loc.plus (vaddr % pageSize)) := by
  unfold hostAt backing
  rw [type, pointer]
  rfl

theorem hostAt_unmapped {pluginFb : Nat} {t : PageTable} {vaddr : Nat}
    (type : t.attributes (vaddr / pageSize) = .unmapped) : hostAt pluginFb t vaddr = none := by
  unfold hostAt backing
  rw [type]
  rfl

theorem hostAt_cached {pluginFb : Nat} {t : PageTable} {vaddr : Nat} (loc : HostLoc)
    (type : t.attributes (vaddr / pageSize) = .rasterizerCachedMemory)
    (pointer : getPointerForRasterizerCache pluginFb vaddr = .ok loc) :
    hostAt pluginFb t vaddr = some loc := by
  unfold hostAt backing
  rw [type, pointer]
  rfl

theorem aliased_apart {vaddr vaddr' : Nat}
    (source : vaddr / pageSize = 0x200 ∨ vaddr / pageSize = 0x201)
    (target : vaddr' / pageSize = 0x100 ∨ vaddr' / pageSize = 0x101) :
    ¬ PagesShare 0 aliasedTable aliasedTable vaddr vaddr' := by
  rintro ⟨v, w, x, page, page', at_v, at_w⟩
  rw [← page] at source
  rw [← page'] at target
  have inside : w % pageSize < pageSize := Nat.mod_lt _ (by decide)
  have low : x.2 < pageSize := by
    rcases target with target | target <;>
      rw [hostAt_plain (fcram, 0) (by rw [target]; rfl) (by rw [target]; rfl)] at at_w <;>
      obtain rfl := Option.some.inj at_w <;>
      simpa [HostLoc.plus] using inside
  rcases source with source | source
  · rw [hostAt_unmapped (by rw [source]; rfl)] at at_v
    cases at_v
  · rw [hostAt_plain (fcram, 0x2000) (by rw [source]; rfl) (by rw [source]; rfl)] at at_v
    obtain rfl := Option.some.inj at_v
    simp only [HostLoc.plus, pageSize] at low
    omega

theorem aliased_separate {dest src size : Nat} (source : 0x200000 ≤ src)
    (ends : src + size ≤ 0x202000) (target : 0x100000 ≤ dest) (ends' : dest + size ≤ 0x102000) :
    Separate 0 aliasedTable aliasedTable dest src size := by
  refine ⟨by omega, by omega, ?_⟩
  intro i below j below'
  apply aliased_apart
  · unfold pageSize
    omega
  · unfold pageSize
    omega

theorem plugged_aliased : Plugged 0 aliasedTable := by
  intro vaddr low high cached
  unfold plugin3gxFbVaddr at *
  have other : ∀ page < 0x1000, vaddr / pageSize ≠ page := by
    unfold pageSize
    omega
  unfold aliasedTable at cached
  rw [PageTable.set_attributes_other (other _ (by decide)),
    PageTable.set_attributes_other (other _ (by decide)),
    PageTable.set_attributes_other (other _ (by decide))] at cached
  cases cached

/-- Four zeros of an unmapped page and four bytes behind it. -/
theorem copyBlock_copies_some :
    Copies 0 smallRegions aliasedTable aliasedTable oneByte 0x100000 0x200FFC 8 :=
  copyBlock_copies aliasedTable_reachable (List.mem_singleton_self _) (List.mem_singleton_self _)
    (by decide) plugged_aliased plugged_aliased smallRegions oneByte (by decide)
    (aliased_separate (by decide) (by decide) (by decide) (by decide))
    (fun i below j below' _ => by unfold pageSize; omega)
    fun j _ => ⟨fun _ _ _ _ _ _ => rfl, fun _ _ _ _ _ _ => rfl⟩

theorem linear_separate : Separate 0 (linearTable.set 0x14005 .rasterizerCachedMemory none)
    (linearTable.set 0x14005 .rasterizerCachedMemory none) 0x14005000 0x200FFC 8 := by
  refine ⟨by decide, by decide, ?_⟩
  rintro i below j below' ⟨v, w, x, page, page', at_v, at_w⟩
  have target : w / pageSize = 0x14005 := by
    unfold pageSize at page' ⊢
    omega
  have source : v / pageSize = 0x200 ∨ v / pageSize = 0x201 := by
    unfold pageSize at page ⊢
    omega
  have low : x.2 < 0x4000 := by
    rcases source with source | source
    · rw [hostAt_plain (fcram, 0x2000) (by rw [source]; rfl) (by rw [source]; rfl)] at at_v
      obtain rfl := Option.some.inj at_v
      simp only [HostLoc.plus, pageSize]
      omega
    · rw [hostAt_plain (fcram, 0x3000) (by rw [source]; rfl) (by rw [source]; rfl)] at at_v
      obtain rfl := Option.some.inj at_v
      simp only [HostLoc.plus, pageSize]
      omega
  have pointer : getPointerForRasterizerCache 0 w = .ok (fcram, w - linearHeapVaddr) := by
    apply if_pos
    unfold pageSize at target
    unfold linearHeapVaddr linearHeapVaddrEnd
    omega
  rw [hostAt_cached _ (by rw [target]; rfl) pointer] at at_w
  obtain rfl := Option.some.inj at_w
  unfold pageSize at target
  unfold linearHeapVaddr at low
  omega

theorem newerBytes_marked {marker : Nat → Bool}
    (holdable : ∀ paddr, paddr / pageSize = 0x20003 → Holdable 0 marker paddr) :
    HeldMarked 0 marker newerBytes := by
  intro paddr held
  apply holdable
  by_contra other
  apply held
  refine if_neg fun inside => other ?_
  unfold pageSize
  omega

/-- Two destination pages over one page of memory, and a source page over bytes that are held
newer and written back in between. -/
theorem copyBlock_copies_fails :
    (∃ s : PageTables, s.Reachable ∧ ∃ t ∈ s.list, HeldMarked 0 s.cacheMarker oneByte ∧
      Separate 0 t t 0x100FFF 0x200FFF 0x1001 ∧
      ¬ Copies 0 exactRasterizer t t oneByte 0x100FFF 0x200FFF 0x1001) ∧
    ∃ s : PageTables, s.Reachable ∧ ∃ t ∈ s.list, HeldMarked 0 s.cacheMarker newerBytes ∧
      Separate 0 t t 0x14005000 0x200FFC 8 ∧
      ¬ Copies 0 smallRegions t t newerBytes 0x14005000 0x200FFC 8 := by
  constructor
  · refine ⟨_, aliasedTable_reachable, _, List.mem_singleton_self _, fun _ held => absurd rfl held,
      aliased_separate (by decide) (by decide) (by decide) (by decide), ?_⟩
    intro copies
    obtain ⟨a, b, bytes⟩ := copiedBytes_of_copies (i := 0) (j := 0x1000) copies (by decide)
      (by decide) (by decide) (by decide)
    rw [aliased_bytes] at bytes
    cases bytes
  · obtain ⟨marker, reachable, holdable⟩ := cachedTable_reachable
    refine ⟨_, reachable, _, List.mem_singleton_self _, newerBytes_marked holdable,
      linear_separate, ?_⟩
    intro copies
    obtain ⟨a, b, bytes⟩ := copiedBytes_of_copies (i := 0) (j := 4) copies (by decide)
      (by decide) (by decide) (by decide)
    rw [stale_bytes] at bytes
    cases bytes

end EmuThreeDS
