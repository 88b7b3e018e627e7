import EmuThreeDS.Video.PageCounts
import EmuThreeDS.Lib.Runs

/-!
# Registered surfaces and marked pages

Registering and unregistering surfaces, clearing the cache, and mapping and unmapping pages keep
the counts of the pages and their marks exact. The cache alone asks for marks, a surface is not in
the first page, and clearing forgets the surfaces that were registered.
-/
namespace EmuThreeDS.VideoCore

open Intervals Layout PageTables

variable {params : SurfaceParams} {p : Nat} {values : Nat → Option Surface} {s' : RasterizerCache}

theorem mem_forEachPage {page : Nat} : page ∈ forEachPage params.addr params.size ↔
      params.addr / bucketSize ≤ page ∧ page ≤ (params.endAddr - 1) / bucketSize := by
  have := params.ordered
  have := params.word
  have last : (params.addr + params.size + 0xFFFFFFFFFFFFFFFF) % 0x10000000000000000 =
      params.endAddr - 1 := by
    unfold SurfaceParams.size
    omega
  unfold forEachPage
  rw [last, List.mem_range'_1]
  omega

theorem bucket_mem (has : params.pages.Has p) : p / 64 ∈ forEachPage params.addr params.size := by
  rw [mem_forEachPage]
  unfold Block.Has SurfaceParams.pages pageSize at has
  unfold bucketSize
  dsimp only at has
  omega

namespace RasterizerCache

def covers (values : Nat → Option Surface) (p id : Nat) : Bool :=
  ((values id).map (·.pages)).any fun pages => pages.Has p

/-- The surfaces in the page table of the cache that touch page `p`. -/
def pageCount (s : RasterizerCache) (p : Nat) : Nat :=
  (s.pageTable (p / 64)).countP (covers s.slotSurfaces.values p)

structure Counted (s : RasterizerCache) : Prop where
  held : ∀ page id, id ∈ s.pageTable page → ∃ surface, s.slotSurfaces.values id = some surface ∧
    surface.registered = true ∧ pageSize ≤ surface.addr ∧
    ∀ other, id ∈ s.pageTable other ↔ other ∈ forEachPage surface.addr surface.size
  nodup : ∀ page, (s.pageTable page).Nodup
  agree : Agree s.cachedPages s.memory s.pageCount

variable {s : RasterizerCache} {id : Nat} {surface : Surface}

theorem counted_new {memory : PageTables} (unmarked : Marks memory fun _ _ => False) :
    (new memory).Counted where
  held := nofun
  nodup := fun _ => List.nodup_nil
  agree := ⟨fun _ => rfl, unmarked.congr fun _ _ _ => iff_of_false id (Nat.lt_irrefl 0)⟩

theorem covers_congr {others : Nat → Option Surface}
    (same : (values id).map (·.pages) = (others id).map (·.pages)) :
    covers values p id = covers others p id := by
  unfold covers
  rw [same]

theorem covers_some (found : values id = some surface) :
    covers values p id = decide (surface.pages.Has p) := by
  unfold covers
  rw [found]
  rfl

theorem Counted.ne {other : Nat} (counted : s.Counted) {page : Nat}
    (member : other ∈ s.pageTable page) (fresh : ∀ surface, s.slotSurfaces.values id = some surface →
      surface.registered = false) : other ≠ id := by
  rintro rfl
  obtain ⟨surface, found, registered, -⟩ := counted.held page other member
  rw [fresh surface found] at registered
  exact nomatch registered

theorem pageCount_append {registered : Bool} (p : Nat) (fresh : ∀ page, id ∉ s.pageTable page)
    (values : ∀ other, s'.slotSurfaces.values other =
      if other = id then some { surface with registered } else s.slotSurfaces.values other)
    (table : ∀ page, s'.pageTable page =
      if page ∈ forEachPage surface.addr surface.size then s.pageTable page ++ [id]
      else s.pageTable page) :
    s'.pageCount p = if surface.pages.Has p then s.pageCount p + 1 else s.pageCount p := by
  have old : (s.pageTable (p / 64)).countP (covers s'.slotSurfaces.values p) = s.pageCount p := by
    apply List.countP_congr
    intro other member
    rw [covers_congr]
    rw [values, if_neg]
    rintro rfl
    exact fresh _ member
  have new : covers s'.slotSurfaces.values p id = decide (surface.pages.Has p) := by
    rw [covers, values, if_pos rfl]
    rfl
  unfold pageCount at old ⊢
  rw [table]
  by_cases has : surface.pages.Has p
  · rw [if_pos (bucket_mem has), if_pos has, List.countP_append, old, List.countP_singleton, new,
      if_pos (decide_eq_true has)]
  · split_ifs
    · rw [List.countP_append, old, List.countP_singleton, new, if_neg (by simpa using has)]
      rfl
    · exact old

theorem pageCount_erase (p : Nat) (found : s.slotSurfaces.values id = some surface)
    (nodup : ∀ page, (s.pageTable page).Nodup)
    (held : ∀ page, id ∈ s.pageTable page ↔ page ∈ forEachPage surface.addr surface.size)
    (values : ∀ other, s'.slotSurfaces.values other =
      if other = id then none else s.slotSurfaces.values other) (table : ∀ page, s'.pageTable page =
      if page ∈ forEachPage surface.addr surface.size then (s.pageTable page).erase id
      else s.pageTable page) :
    s'.pageCount p = if surface.pages.Has p then s.pageCount p - 1 else s.pageCount p := by
  have erased : s'.pageTable (p / 64) = (s.pageTable (p / 64)).erase id := by
    rw [table]
    split_ifs with inside
    · rfl
    · rw [List.erase_of_not_mem fun member => inside ((held _).mp member)]
  have same : s'.pageCount p = ((s.pageTable (p / 64)).erase id).countP
      (covers s.slotSurfaces.values p) := by
    unfold pageCount
    rw [erased]
    apply List.countP_congr
    intro other member
    rw [covers_congr]
    rw [values, if_neg]
    rintro rfl
    exact (nodup _).not_mem_erase member
  rw [same, List.countP_erase, covers_some found]
  unfold pageCount
  by_cases has : surface.pages.Has p
  · rw [if_pos has, if_pos ⟨(held _).mpr (bucket_mem has), decide_eq_true has⟩]
  · rw [if_neg has, if_neg fun both => has (of_decide_eq_true both.2)]
    rfl

theorem registerSurface_counted (counted : s.Counted)
    (found : s.slotSurfaces.values id = some surface) (fresh : surface.registered = false)
    (low : pageSize ≤ surface.addr) : PageTables.Returns (s.registerSurface 0 id) Counted := by
  have absent (page : Nat) : id ∉ s.pageTable page := by
    intro member
    refine counted.ne member (fun other same => ?_) rfl
    rw [found] at same
    rw [← Option.some_inj.mp same]
    exact fresh
  unfold registerSurface
  rw [SlotVector.get_eq_ok.mpr found, ok_bind, assert_pos fresh, ok_bind]
  apply meets_bind (@updatePagesCachedCount_add (s.modifySurface id _) s.pageCount
    surface.toSurfaceParams low counted.agree)
  rintro _ ⟨cachedPages, memory, rfl, agree⟩
  have values (other : Nat) : (s.slotSurfaces.modify id fun surface =>
      { surface with registered := true }).values other =
        if other = id then some { surface with registered := true }
        else s.slotSurfaces.values other := by
    rw [SlotVector.values_modify]
    split_ifs with same
    · rw [same, found]
      rfl
    · rfl
  constructor
  · intro page other member
    dsimp only [modifySurface] at member ⊢
    rw [values]
    by_cases same : other = id
    · subst same
      rw [if_pos rfl]
      refine ⟨_, rfl, rfl, low, fun page => ?_⟩
      split_ifs with inside
      · exact iff_of_true (by simp) inside
      · exact iff_of_false (absent page) inside
    · have old (page : Nat) : (other ∈ if page ∈ forEachPage surface.addr surface.size then
          s.pageTable page ++ [id] else s.pageTable page) ↔ other ∈ s.pageTable page := by
        split_ifs
        · simp [same]
        · rfl
      rw [if_neg same]
      obtain ⟨its, found, registered, low, pages⟩ := counted.held page other ((old page).mp member)
      exact ⟨its, found, registered, low, fun page => (old page).trans (pages page)⟩
  · intro page
    dsimp only [modifySurface]
    split_ifs
    · refine List.nodup_append.mpr ⟨counted.nodup page, List.nodup_singleton id, ?_⟩
      rintro a member b single rfl
      rw [List.mem_singleton.mp single] at member
      exact absent page member
    · exact counted.nodup page
  · refine cast ?_ agree
    congr 1
    funext p
    exact (pageCount_append p absent values fun _ => rfl).symm

theorem pageCount_pos (found : s.slotSurfaces.values id = some surface)
    (held : ∀ page, id ∈ s.pageTable page ↔ page ∈ forEachPage surface.addr surface.size)
    (has : surface.pages.Has p) : 0 < s.pageCount p := by
  unfold pageCount
  rw [List.countP_pos_iff]
  refine ⟨id, (held _).mpr (bucket_mem has), ?_⟩
  rw [covers_some found]
  exact decide_eq_true has

theorem unregisterSurface_counted (counted : s.Counted)
    (found : s.slotSurfaces.values id = some surface) {bucket : Nat}
    (member : id ∈ s.pageTable bucket) : PageTables.Returns (s.unregisterSurface 0 id) Counted := by
  obtain ⟨its, same, registered, low, held⟩ := counted.held bucket id member
  rw [found] at same
  cases same
  have values (other : Nat) : (s.slotSurfaces.modify id fun surface =>
      { surface with registered := false }).values other =
        if other = id then some { surface with registered := false }
        else s.slotSurfaces.values other := by
    rw [SlotVector.values_modify]
    split_ifs with same
    · rw [same, found]
      rfl
    · rfl
  have used : ((s.slotSurfaces.modify id fun surface =>
      { surface with registered := false }).values id).isSome := by
    rw [values, if_pos rfl]
    rfl
  unfold unregisterSurface
  rw [SlotVector.get_eq_ok.mpr found, ok_bind, assert_pos registered]
  apply meets_bind (@updatePagesCachedCount_sub (s.modifySurface id _) s.pageCount
    surface.toSurfaceParams low counted.agree fun p has => pageCount_pos found held has)
  rintro _ ⟨cachedPages, memory, rfl, agree⟩
  apply meets_assert fun _ page inside => (held page).mpr inside
  intro _
  split_ifs with now
  swap
  · exact absurd used now
  dsimp only [modifySurface]
  have after (other : Nat) : ((s.slotSurfaces.modify id fun surface =>
      { surface with registered := false }).erase id used).values other =
        if other = id then none else s.slotSurfaces.values other := by
    rw [SlotVector.values_erase, values]
    split_ifs <;> rfl
  constructor
  · intro page other member
    dsimp only at member ⊢
    have kept (page : Nat) : other ≠ id → ((other ∈ if page ∈ forEachPage surface.addr surface.size then
        (s.pageTable page).erase id else s.pageTable page) ↔ other ∈ s.pageTable page) := by
      intro different
      split_ifs
      · exact List.mem_erase_of_ne different
      · rfl
    have different : other ≠ id := by
      rintro rfl
      split_ifs at member with inside
      · exact (counted.nodup page).not_mem_erase member
      · exact inside ((held page).mp member)
    rw [after, if_neg different]
    obtain ⟨its, found, registered, low, pages⟩ :=
      counted.held page other ((kept page different).mp member)
    exact ⟨its, found, registered, low, fun page => (kept page different).trans (pages page)⟩
  · intro page
    dsimp only
    split_ifs
    · exact (counted.nodup page).erase id
    · exact counted.nodup page
  · refine cast ?_ agree
    congr 1
    funext p
    exact (pageCount_erase p found counted.nodup held after fun _ => rfl).symm

theorem get_meets {α : Type} {site : Site} {v : SlotVector α} {n : Nat} :
    Meets (· = .assertion site) (v.get n) fun a => v.values n = some a := by
  cases run : v.get n with
  | ok a => exact SlotVector.get_eq_ok.mp run
  | error e =>
    unfold SlotVector.get at run
    split at run
    · exact nomatch run
    · cases run
      exact nofun

theorem flushRegion_meets {addr size : Nat} {flushSurface : Option Nat} :
    Meets (· = .assertion .markRegionCached) (s.flushRegion addr size flushSurface) fun flushed =>
      ∃ dirtyRegions, flushed.2 = { s with dirtyRegions } := by
  apply meets_ite
  · intro _
    exact meets_ok ⟨s.dirtyRegions, rfl⟩
  · intro _
    refine meets_bind (meets_mapM fun region _ => (?_ : Meets _ _ fun _ => True))
      fun downloads _ => meets_ok ⟨_, rfl⟩
    apply meets_bind get_meets
    intro surface _
    apply meets_assert nofun
    intro _
    apply meets_assert nofun
    intro _
    exact meets_ok trivial

theorem Counted.page (counted : s.Counted) (positive : 0 < s.pageCount p) :
    0 < p ∧ p < 0x100000 := by
  obtain ⟨id, member, has⟩ := List.countP_pos_iff.mp positive
  obtain ⟨surface, found, -, low, -⟩ := counted.held _ id member
  rw [covers_some found, decide_eq_true_eq] at has
  obtain ⟨first, -, word⟩ := surface.pages_bounds low
  exact ⟨Nat.lt_of_lt_of_le first has.1, Nat.lt_of_lt_of_le has.2 word⟩

theorem clearAll_counted {flush : Bool} (counted : s.Counted) :
    Meets (· = .assertion .markRegionCached) (s.clearAll 0 flush) Counted := by
  have cleared (s : RasterizerCache) (counted : s.Counted) :
      PageTables.Returns ((s.cachedPages.within ⟨0, 0xFFFFFFFF⟩).foldlM (fun memory pages =>
        let start := pages.lower * pageSize % 0x100000000
        let size := sub32 (pages.upper * pageSize % 0x100000000) start
        memory.rasterizerMarkRegionCached 0 start size false) s.memory >>= fun memory =>
          pure { s with
            memory
            cachedPages := s.cachedPages.erase ⟨0, 0xFFFFFFFF⟩
            dirtyRegions := s.dirtyRegions.erase ⟨0, 0xFFFFFFFF⟩
            pageTable := fun _ => [] }) Counted := by
    obtain ⟨counts, marks⟩ := counted.agree
    have inside (seg : Intervals.Segment Int)
        (member : seg ∈ s.cachedPages.within ⟨0, 0xFFFFFFFF⟩) :
        0 < seg.lower ∧ seg.lower < seg.upper ∧ seg.upper ≤ 0x100000 := by
      obtain ⟨-, inner, -, values⟩ := counted_within counts (by decide) member
      have first := counted.page (values seg.lower ⟨Nat.le_refl _, inner⟩).1
      have last := counted.page (values (seg.upper - 1) ⟨by omega, by omega⟩).1
      exact ⟨first.1, inner, by omega⟩
    refine meets_bind (markSegments_marks false (fun _ => True) marks IntervalMap.within_pairwise
      (fun seg _ m => by rw [if_pos trivial]) inside fun seg member _ q has => ?_)
      fun memory marked => meets_ok ⟨nofun, fun _ => List.nodup_nil, fun p => ?_, ?_⟩
    · obtain ⟨-, -, -, values⟩ := counted_within counts (by decide) member
      exact iff_of_true (values q has).1 rfl
    · change (s.cachedPages.erase _).find p = VideoCore.counted 0
      rw [IntervalMap.find_erase, counts]
      split_ifs with has
      · rfl
      · have none : ¬ 0 < s.pageCount p := by
          intro positive
          have := counted.page positive
          exact has ⟨Nat.zero_le p, show p < 0xFFFFFFFF by omega⟩
        rw [Nat.eq_zero_of_not_pos none]
    · refine marked.congr fun q w _ => iff_of_false ?_ (Nat.lt_irrefl 0)
      rintro (⟨-, impossible⟩ | ⟨outside, positive⟩)
      · exact nomatch impossible
      · have bounds := counted.page positive
        have inAll : Block.Has ⟨0, 0xFFFFFFFF⟩ q := ⟨Nat.zero_le q, show q < 0xFFFFFFFF by omega⟩
        obtain ⟨seg, member, has, -⟩ := IntervalMap.exists_within inAll
          ((counts q).trans (counted_eq_some.mpr ⟨positive, rfl⟩))
        exact outside ⟨seg, member, trivial, has⟩
  cases flush with
  | false => exact (cleared s counted).fewer fun _ _ => trivial
  | true =>
    apply meets_bind flushRegion_meets
    rintro ⟨downloads, s'⟩ ⟨dirtyRegions, rfl⟩
    exact (cleared { s with dirtyRegions } ⟨counted.held, counted.nodup, counted.agree⟩).fewer
      fun _ _ => trivial

theorem insertSurface_counted {values : SlotVector Surface} (counted : s.Counted)
    (kept : ∀ id surface, s.slotSurfaces.values id = some surface →
      values.values id = some surface) : Counted { s with slotSurfaces := values } where
  held page id member := by
    obtain ⟨surface, found, rest⟩ := counted.held page id member
    exact ⟨surface, kept id surface found, rest⟩
  nodup := counted.nodup
  agree := by
    refine cast ?_ counted.agree
    congr 1
    funext p
    apply List.countP_congr
    intro id member
    obtain ⟨surface, found, -⟩ := counted.held _ id member
    rw [covers_congr]
    rw [found, kept id surface found]

theorem createSurface_counted (counted : s.Counted) : (s.createSurface params).Counted := by
  apply insertSurface_counted counted
  intro id surface found
  have other : id ≠ s.slotSurfaces.nextId := by
    rintro rfl
    rw [SlotVector.values_nextId] at found
    exact nomatch found
  rw [SlotVector.values_modify, if_neg other]
  unfold insertSurface
  rw [SlotVector.values_insert, if_neg other, found]

inductive PageCall where
  | createSurface (params : SurfaceParams)
  | registerSurface (id : Nat)
  | unregisterSurface (id : Nat)
  | clearAll (flush : Bool)
  | memory (call : PageTables.Call)

def pageStep (s : RasterizerCache) : PageCall → Exec RasterizerCache
  | .createSurface params => .ok (s.createSurface params)
  | .registerSurface id => s.registerSurface 0 id
  | .unregisterSurface id => s.unregisterSurface 0 id
  | .clearAll flush => s.clearAll 0 flush
  | .memory call => do
    let memory ← s.memory.step call
    return { s with memory }

def Flagged (s : RasterizerCache) (id : Nat) : Prop :=
  ∃ surface, s.slotSurfaces.values id = some surface ∧ surface.registered = true

def Kept (s : RasterizerCache) (id : Nat) : Prop := s.Flagged id ∧ ∃ page, id ∈ s.pageTable page

def overlapping (s : RasterizerCache) (registered : Nat → Prop) (p : Nat) : Set Nat :=
  {id | registered id ∧ ∃ surface, s.slotSurfaces.values id = some surface ∧
    surface.addr < (p + 1) * pageSize ∧ p * pageSize < surface.endAddr}

/-- The count of a page is the number of the surfaces, and the pages with a count are marked. -/
structure Exact (s : RasterizerCache) (registered : Nat → Prop) : Prop where
  count : ∀ p, (s.cachedPages.find p).getD 0 = ((s.overlapping registered p).ncard : Int)
  marks : Marks s.memory fun p _ => 0 < (s.cachedPages.find p).getD 0

/-- FCRAM and VRAM are mapped at their fixed addresses, without a plugin framebuffer. -/
def AtFixedAddresses (_ : RasterizerCache) : PageCall → Prop
  | .memory (.mapMemoryRegion _ base size target) => Fixed base size target
  | .memory (.rasterizerMarkRegionCached pluginFb _ _ _) => pluginFb = 0
  | _ => True

/-- Only the cache asks for marks, no surface starts in the first page, and what is unregistered
was registered and not forgotten since. -/
def Orderly (s : RasterizerCache) : PageCall → Prop
  | .registerSurface id => ∀ surface, s.slotSurfaces.values id = some surface →
    pageSize ≤ surface.addr
  | .unregisterSurface id => s.Kept id
  | .memory call => Plain call
  | _ => True

abbrev ReachedBy (allowed : RasterizerCache → PageCall → Prop) : RasterizerCache → Prop :=
  Runs.Reachable (· = new PageTables.initial) (fun s call s' => s.pageStep call = .ok s') allowed

theorem pageStep_counted {call : PageCall} (counted : s.Counted) (orderly : s.Orderly call) :
    Meets (· = .assertion .markRegionCached) (s.pageStep call) Counted := by
  cases call with
  | createSurface params => exact meets_ok (createSurface_counted counted)
  | registerSurface id =>
    by_cases ready : ∃ surface, s.slotSurfaces.values id = some surface ∧
        surface.registered = false
    · obtain ⟨surface, found, fresh⟩ := ready
      exact (registerSurface_counted counted found fresh (orderly surface found)).fewer
        fun _ _ => trivial
    · apply meets_bind get_meets
      intro surface found
      apply meets_assert nofun
      intro fresh
      exact absurd ⟨surface, found, fresh⟩ ready
  | unregisterSurface id =>
    obtain ⟨⟨surface, found, -⟩, bucket, member⟩ := orderly
    exact (unregisterSurface_counted counted found member).fewer fun _ _ => trivial
  | clearAll flush => exact clearAll_counted counted
  | memory call =>
    apply meets_bind (step_marks counted.agree.2 orderly)
    intro memory marks
    exact meets_ok ⟨counted.held, counted.nodup, counted.agree.1, marks⟩

theorem initial_unmarked : Marks PageTables.initial fun _ _ => False :=
  fun _ _ _ => ⟨iff_of_false nofun id, nofun⟩

theorem reached_counted (reached : ReachedBy Orderly s) : s.Counted := by
  apply Runs.Reachable.invariant reached
  · rintro s rfl
    exact counted_new initial_unmarked
  · intro s call s' counted orderly run
    exact (pageStep_counted counted orderly).ok run

theorem Counted.overlapping_eq (counted : s.Counted) (p : Nat) : s.overlapping s.Kept p =
      ((s.pageTable (p / 64)).filter (covers s.slotSurfaces.values p)).toFinset := by
  have touches (surface : Surface) : surface.pages.Has p ↔
      surface.addr < (p + 1) * pageSize ∧ p * pageSize < surface.endAddr := by
    have := surface.ordered
    unfold Block.Has SurfaceParams.pages pageSize
    dsimp only
    omega
  ext id
  rw [Finset.mem_coe, List.mem_toFinset, List.mem_filter]
  constructor
  · rintro ⟨⟨⟨surface, found, -⟩, bucket, member⟩, its, same, range⟩
    rw [found] at same
    cases same
    obtain ⟨its, same, -, -, pages⟩ := counted.held bucket id member
    rw [found] at same
    cases same
    have has := (touches surface).mpr range
    rw [covers_some found]
    exact ⟨(pages _).mpr (bucket_mem has), decide_eq_true has⟩
  · rintro ⟨member, covered⟩
    obtain ⟨surface, found, registered, -⟩ := counted.held _ id member
    rw [covers_some found, decide_eq_true_eq] at covered
    exact ⟨⟨⟨surface, found, registered⟩, _, member⟩, surface, found, (touches surface).mp covered⟩

theorem Counted.exact (counted : s.Counted) : s.Exact s.Kept := by
  have value (p : Nat) : (s.cachedPages.find p).getD 0 = (s.pageCount p : Int) := by
    rw [counted.agree.1, VideoCore.counted]
    split_ifs with none
    · rw [none]
      rfl
    · rfl
  constructor
  · intro p
    rw [value, counted.overlapping_eq, Set.ncard_coe_finset,
      List.toFinset_card_of_nodup ((counted.nodup _).filter _), ← List.countP_eq_length_filter]
    rfl
  · refine counted.agree.2.congr fun p v _ => ?_
    rw [value]
    omega

/-- In every orderly run the counts and the marks are exact, and no page is marked twice. -/
theorem page_marks_exact {s : RasterizerCache} (reached : ReachedBy Orderly s) :
    s.Exact s.Kept ∧ ∀ call, s.Orderly call → Avoids .markRegionCached (s.pageStep call) := by
  have counted := reached_counted reached
  refine ⟨counted.exact, fun call orderly stop => ?_⟩
  exact (pageStep_counted counted orderly).error stop rfl

def vramPage : SurfaceParams := ⟨0x18000000, 0x18001000, .color, 1, 1, by decide, by decide⟩

def vramPages : SurfaceParams := ⟨0x18000000, 0x18002000, .color, 1, 2, by decide, by decide⟩

def vramMapped : RasterizerCache :=
  { new PageTables.initial with
    memory := ⟨[(PageTable.clear.set 0x1F000 .memory (some (vram, 0))).set 0x1F001 .memory
      (some (vram, 0x1000))], fun _ => false⟩ }

theorem vramMapped_run : ReachedBy Orderly vramMapped := by
  have table : ReachedBy Orderly { new PageTables.initial with
      memory := ⟨[PageTable.clear], fun _ => false⟩ } :=
    .step (.start rfl) (show Orderly _ (.memory .registerPageTable) from trivial) rfl
  exact .step table (show Orderly _ (.memory (.mapMemoryRegion 0 0x1F000000 0x2000 ⟨some vram, 0⟩))
    from .inr (.inr ⟨by decide, by decide, rfl⟩)) rfl

def overlappingSurfaces : RasterizerCache :=
  (vramMapped.createSurface vramPage).createSurface vramPages

theorem page_marks_exact_overlapping : ∃ s : RasterizerCache,
    (s.overlapping s.Kept 0x18000).ncard = 2 ∧
      s.memory.list.map (·.attributes 0x1F000) = [.rasterizerCachedMemory] ∧ s.Exact s.Kept := by
  have values : (fun s : RasterizerCache =>
      (s.cachedPages.find 0x18000, s.memory.list.map (·.attributes 0x1F000))) <$>
        (overlappingSurfaces.pageStep (.registerSurface 0) >>= fun s =>
          s.pageStep (.registerSurface 1)) = .ok (some 2, [.rasterizerCachedMemory]) := by decide +kernel
  obtain ⟨s, run, value⟩ := map_eq_ok.mp values
  obtain ⟨first, registered, both⟩ := bind_eq_ok.mp run
  obtain ⟨count, marked⟩ := Prod.mk.inj value
  have created : ReachedBy Orderly overlappingSurfaces :=
    .step (.step vramMapped_run (show Orderly _ (.createSurface vramPage) from trivial) rfl)
      (show Orderly _ (.createSurface vramPages) from trivial) rfl
  have orderly : overlappingSurfaces.Orderly (.registerSurface 0) := by
    rintro _ ⟨⟩
    decide
  have one : ReachedBy Orderly first := .step created orderly registered
  have start : (fun s : RasterizerCache => (s.slotSurfaces.values 1).map (·.addr)) <$>
      overlappingSurfaces.pageStep (.registerSurface 0) = .ok (some 0x18000000) := by decide +kernel
  rw [registered] at start
  have orderly : first.Orderly (.registerSurface 1) := by
    intro surface found
    have addr : (first.slotSurfaces.values 1).map (·.addr) = some 0x18000000 := Except.ok.inj start
    rw [found] at addr
    rw [show surface.addr = 0x18000000 from Option.some.inj addr]
    decide
  have two : ReachedBy Orderly s := .step one orderly both
  have exact' := (page_marks_exact two).1
  refine ⟨s, ?_, marked, exact'⟩
  have same := exact'.count 0x18000
  rw [count] at same
  exact (Int.ofNat.inj same).symm

def lowSurface : SurfaceParams := ⟨0, 0x18001000, .color, 1, 1, by decide, by decide⟩

theorem registered_run {s : RasterizerCache}
    (run : ((new PageTables.initial).createSurface params).pageStep (.registerSurface 0) = .ok s) :
    ReachedBy AtFixedAddresses s := by
  have created : ReachedBy AtFixedAddresses ((new PageTables.initial).createSurface params) :=
    .step (.start rfl) (show AtFixedAddresses _ (.createSurface params) from trivial) rfl
  exact .step created (show AtFixedAddresses _ (.registerSurface 0) from trivial) run

theorem overlapping_finite (s : RasterizerCache) (registered : Nat → Prop) (p : Nat) :
    (s.overlapping registered p).Finite := by
  apply (Set.finite_lt_nat s.slotSurfaces.capacity).subset
  rintro id ⟨-, surface, found, -⟩
  by_contra beyond
  rw [s.slotSurfaces.beyond id (Nat.le_of_not_lt beyond)] at found
  exact nomatch found

set_option maxRecDepth 10000 in
/-- A surface from the first page on is counted, and its pages are not marked; clearing the cache
leaves the flag of a surface that is no longer counted; and a direct call marks a page twice. -/
theorem page_marks_inexact : (∃ s, ReachedBy AtFixedAddresses s ∧ ¬ s.Exact s.Kept) ∧
    (∃ s, ReachedBy AtFixedAddresses s ∧ ¬ s.Exact s.Flagged) ∧
    (∃ s call, ReachedBy AtFixedAddresses s ∧ s.AtFixedAddresses call ∧
      s.pageStep call = .error (.assertion .markRegionCached)) := by
  refine ⟨?_, ?_, ?_⟩
  · have values : (fun s : RasterizerCache =>
        (s.cachedPages.find 0x18000, s.memory.cacheMarker 0x1F000)) <$>
          ((new PageTables.initial).createSurface lowSurface).pageStep (.registerSurface 0) =
            .ok (some 1, false) := rfl
    obtain ⟨s, run, value⟩ := map_eq_ok.mp values
    refine ⟨s, registered_run run, fun exact => ?_⟩
    have mapped : 0x1F000 ∈ virtualPages 0x18000 := by decide
    have marked : s.memory.cacheMarker 0x1F000 = true ↔ 0 < (s.cachedPages.find 0x18000).getD 0 :=
      (exact.marks 0x18000 0x1F000 mapped).1
    rw [(Prod.mk.inj value).1, (Prod.mk.inj value).2] at marked
    exact absurd (marked.mpr (by decide)) nofun
  · have values : (fun s : RasterizerCache => (s.cachedPages.find 0x18000,
        (s.slotSurfaces.values 0).map fun surface =>
          (surface.registered, surface.addr, surface.endAddr))) <$>
        (((new PageTables.initial).createSurface vramPage).pageStep (.registerSurface 0) >>=
          fun s => s.pageStep (.clearAll false)) =
        .ok (none, some (true, 0x18000000, 0x18001000)) := rfl
    obtain ⟨s, run, value⟩ := map_eq_ok.mp values
    obtain ⟨before, registered, cleared⟩ := bind_eq_ok.mp run
    obtain ⟨count, flags⟩ := Prod.mk.inj value
    refine ⟨s, .step (registered_run registered)
      (show AtFixedAddresses _ (.clearAll false) from trivial) cleared, fun exact => ?_⟩
    obtain ⟨surface, found, shape⟩ := Option.map_eq_some_iff.mp flags
    obtain ⟨flag, range⟩ := Prod.mk.inj shape
    obtain ⟨start, ends⟩ := Prod.mk.inj range
    have member : 0 ∈ s.overlapping s.Flagged 0x18000 := by
      refine ⟨⟨surface, found, flag⟩, surface, found, ?_⟩
      rw [start, ends]
      decide
    have none := exact.count 0x18000
    rw [count] at none
    have empty := (Set.ncard_eq_zero (s.overlapping_finite _ _)).mp (Int.ofNat.inj none.symm)
    rw [empty] at member
    exact member
  · have first : ReachedBy AtFixedAddresses { new PageTables.initial with
        memory := ⟨[PageTable.clear], fun _ => false⟩ } :=
      .step (.start rfl) (show AtFixedAddresses _ (.memory .registerPageTable) from trivial) rfl
    have mapped : ReachedBy AtFixedAddresses { new PageTables.initial with
        memory := ⟨[PageTable.clear.set 0x1F000 .memory (some (vram, 0))], fun _ => false⟩ } :=
      .step first (show AtFixedAddresses _
        (.memory (.mapMemoryRegion 0 0x1F000000 0x1000 ⟨some vram, 0⟩)) from
          .inr (.inr ⟨by decide, by decide, rfl⟩)) rfl
    have allowed (s : RasterizerCache) :
        s.AtFixedAddresses (.memory (.rasterizerMarkRegionCached 0 0x18000000 0x1000 true)) := rfl
    exact ⟨_, _, .step mapped (allowed _) rfl, allowed _, rfl⟩

end RasterizerCache
end EmuThreeDS.VideoCore
