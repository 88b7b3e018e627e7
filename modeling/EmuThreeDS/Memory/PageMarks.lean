import EmuThreeDS.Memory.PageTables
import Mathlib.Data.List.Nodup

/-!
# Marking pages

The page tables that map FCRAM and VRAM at their fixed addresses, without a plugin framebuffer:
what a table shows of a physical page, and what marking and mapping do to it.
-/
namespace EmuThreeDS

open Layout

namespace PageTables

/-- The pages at which physical page `p` can be mapped. -/
def virtualPages (p : Nat) : List Nat := (physicalToVirtual 0 (p * pageSize)).map (· / pageSize)

theorem mem_virtualPages {p v : Nat} : v ∈ virtualPages p ↔
    (0x18000 ≤ p ∧ p < 0x18600 ∧ v = p - 0x18000 + 0x1F000) ∨ (p < 0xA9 ∧ v = p + 0x6000) ∨
    (0x20000 ≤ p ∧ p < 0x28000 ∧ (v = p - 0x20000 + 0x14000 ∨ v = p - 0x20000 + 0x30000)) ∨
    (0x28000 ≤ p ∧ p < 0x30000 ∧ v = p - 0x20000 + 0x30000) := by
  have plugin : add32 0 plugin3gxFbSize = 0xA9000 := by decide
  unfold virtualPages physicalToVirtual
  unfold vramPaddr vramPaddrEnd vramVaddr plugin3gxFbVaddr fcramPaddr fcramPaddrEnd
    fcramN3dsPaddrEnd linearHeapVaddr newLinearHeapVaddr pageSize
  split_ifs
  · simp only [List.map_cons, List.map_nil, List.mem_singleton]
    omega
  · simp only [List.map_cons, List.map_nil, List.mem_singleton]
    omega
  · simp only [List.map_cons, List.map_nil, List.mem_cons, List.not_mem_nil, or_false]
    omega
  · simp only [List.map_cons, List.map_nil, List.mem_singleton]
    omega
  · simp only [List.map_nil, List.not_mem_nil, false_iff]
    omega

theorem physicalToVirtual_eq (p : Nat) :
    physicalToVirtual 0 (p * pageSize) = (virtualPages p).map (· * pageSize) := by
  unfold virtualPages
  rw [List.map_map]
  refine (List.map_id' _).symm.trans (List.map_congr_left fun vaddr member => ?_)
  have aligned : vaddr % pageSize = 0 := by
    unfold physicalToVirtual at member
    unfold vramPaddr vramVaddr plugin3gxFbVaddr fcramPaddr linearHeapVaddr newLinearHeapVaddr
      pageSize at *
    split_ifs at member
    · rw [List.mem_singleton] at member
      omega
    · rw [List.mem_singleton] at member
      omega
    · simp only [List.mem_cons, List.not_mem_nil, or_false] at member
      omega
    · rw [List.mem_singleton] at member
      omega
    · exact nomatch member
  unfold pageSize at *
  dsimp only [Function.comp_apply]
  omega

theorem virtualPages_unique {p q v : Nat} (at_p : v ∈ virtualPages p) (at_q : v ∈ virtualPages q) :
    p = q := by
  rw [mem_virtualPages] at at_p at_q
  omega

theorem virtualPages_nodup (p : Nat) : (virtualPages p).Nodup := by
  unfold virtualPages physicalToVirtual
  split_ifs
  · exact List.nodup_singleton _
  · exact List.nodup_singleton _
  · simp only [List.map_cons, List.map_nil, List.nodup_cons, List.mem_singleton, List.not_mem_nil,
      not_false_eq_true, List.nodup_nil, and_true]
    unfold linearHeapVaddr newLinearHeapVaddr pageSize
    omega
  · exact List.nodup_singleton _
  · exact List.nodup_nil

def Backed (p : Nat) : Prop := 0x18000 ≤ p ∧ p < 0x18600 ∨ 0x20000 ≤ p ∧ p < 0x30000

def backing (p : Nat) : HostLoc :=
  if p < 0x20000 then (vram, p * pageSize - vramPaddr) else (fcram, p * pageSize - fcramPaddr)

theorem getPointer_backing {p v : Nat} (mapped : v ∈ virtualPages p) (backed : Backed p) :
    getPointerForRasterizerCache 0 (v * pageSize) = .ok (backing p) := by
  rw [mem_virtualPages] at mapped
  unfold Backed at backed
  unfold getPointerForRasterizerCache backing linearHeapVaddr linearHeapVaddrEnd
    newLinearHeapVaddr newLinearHeapVaddrEnd vramVaddr vramVaddrEnd vramPaddr fcramPaddr pageSize
  rcases mapped with inVram | plugin | inFcram | beyond
  · rw [if_neg (by omega), if_neg (by omega), if_pos (by omega), if_pos (by omega)]
    exact congrArg Except.ok (Prod.ext rfl (show v * 0x1000 - 0x1F000000 = _ by omega))
  · omega
  · by_cases linear : v < 0x1C000
    · rw [if_pos (by omega), if_neg (by omega)]
      exact congrArg Except.ok (Prod.ext rfl (show v * 0x1000 - 0x14000000 = _ by omega))
    · rw [if_neg (by omega), if_pos (by omega), if_neg (by omega)]
      exact congrArg Except.ok (Prod.ext rfl (show v * 0x1000 - 0x30000000 = _ by omega))
  · rw [if_neg (by omega), if_pos (by omega), if_neg (by omega)]
    exact congrArg Except.ok (Prod.ext rfl (show v * 0x1000 - 0x30000000 = _ by omega))

theorem cacheable_virtualPages {p v : Nat} (mapped : v ∈ virtualPages p) :
    cacheable (v * pageSize) = true := by
  rw [mem_virtualPages] at mapped
  unfold cacheable vramVaddr vramVaddrEnd linearHeapVaddr linearHeapVaddrEnd newLinearHeapVaddr
    newLinearHeapVaddrEnd plugin3gxFbVaddr plugin3gxFbVaddrEnd pageSize
  rw [decide_eq_true_eq]
  omega

/-- What a table shows of page `p` at `v`: nothing, that it is marked, or its backing. -/
def Shows (t : PageTable) (p v : Nat) (marked : Prop) : Prop :=
  t.attributes v = .unmapped ∧ t.pointers v = none ∨
    Backed p ∧ (marked ∧ t.attributes v = .rasterizerCachedMemory ∧ t.pointers v = none ∨
      ¬ marked ∧ t.attributes v = .memory ∧ t.pointers v = some (backing p))

def Marks (m : PageTables) (marked : Nat → Nat → Prop) : Prop :=
  ∀ p v, v ∈ virtualPages p → (m.cacheMarker v = true ↔ marked p v) ∧
    ∀ t ∈ m.list, Shows t p v (marked p v)

theorem Marks.congr {m : PageTables} {marked others : Nat → Nat → Prop} (h : Marks m marked)
    (same : ∀ p v, v ∈ virtualPages p → (marked p v ↔ others p v)) : Marks m others := by
  intro p v mapped
  rw [← propext (same p v mapped)]
  exact h p v mapped

abbrev Returns {α : Type} (x : Exec α) (Q : α → Prop) : Prop := Meets (fun _ => True) x Q

variable {m : PageTables} {marked : Nat → Nat → Prop} {p v : Nat} {cached : Bool}

variable {t : PageTable} {marker : Nat → Bool}

theorem markTable_shows (mapped : v ∈ virtualPages p)
    (before : ∀ q w, w ∈ virtualPages q → Shows t q w (marked q w))
    (opposite : marked p v ↔ cached = false) :
    Returns (markTable 0 cached (v * pageSize) t) fun t' => ∀ q w, w ∈ virtualPages q →
      Shows t' q w (if w = v then cached = true else marked q w) := by
  have page : v * pageSize / pageSize = v := Nat.mul_div_cancel v (by decide)
  have start : v * pageSize - v * pageSize % pageSize = v * pageSize := by
    rw [Nat.mul_mod_left]
    rfl
  -- a table that changes nothing but the page
  have changed : ∀ {type : PageType} {pointer : Option HostLoc},
      Shows (t.set v type pointer) p v (cached = true) → ∀ q w, w ∈ virtualPages q →
        Shows (t.set v type pointer) q w (if w = v then cached = true else marked q w) := by
    intro type pointer shows_v q w at_w
    by_cases same : w = v
    · subst same
      rw [if_pos rfl, ← virtualPages_unique mapped at_w]
      exact shows_v
    · rw [if_neg same]
      unfold Shows
      rw [PageTable.set_attributes_other same, PageTable.set_pointers_other same]
      exact before q w at_w
  unfold markTable
  dsimp only
  rw [page, start]
  rcases before p v mapped with ⟨unmapped, null⟩ |
    ⟨backed, ⟨is, typed, null⟩ | ⟨isNot, typed, pointer⟩⟩
  · rw [unmapped]
    intro q w at_w
    by_cases same : w = v
    · subst same
      exact .inl ⟨unmapped, null⟩
    · rw [if_neg same]
      exact before q w at_w
  · have clear : cached = false := opposite.mp is
    subst clear
    rw [typed, getPointer_backing mapped backed]
    apply changed
    refine .inr ⟨backed, .inr ⟨nofun, ?_, ?_⟩⟩
    · exact PageTable.set_attributes_same
    · exact PageTable.set_pointers_same
  · have set : cached = true := by
      cases cached with
      | true => rfl
      | false => exact absurd (opposite.mpr rfl) isNot
    subst set
    rw [typed]
    apply changed
    refine .inr ⟨backed, .inl ⟨rfl, ?_, ?_⟩⟩
    · exact PageTable.set_attributes_same
    · exact PageTable.set_pointers_same

theorem markVaddr_marks (mapped : v ∈ virtualPages p) (before : Marks m marked)
    (opposite : marked p v ↔ cached = false) :
    Returns (markVaddr 0 cached m (v * pageSize)) fun m' =>
      Marks m' fun q w => if w = v then cached = true else marked q w := by
  have page : v * pageSize / pageSize = v := Nat.mul_div_cancel v (by decide)
  apply meets_bind (meets_mapM fun t member =>
    markTable_shows mapped (fun q w at_w => (before q w at_w).2 t member) opposite)
  intro list shows q w at_w
  refine ⟨?_, fun t member => shows t member q w at_w⟩
  unfold mark
  rw [if_pos (cacheable_virtualPages mapped), page]
  dsimp only
  by_cases same : w = v
  · rw [if_pos same, if_pos same]
  · rw [if_neg same, if_neg same]
    exact (before q w at_w).1

theorem markVaddrs_marks {vs : List Nat} (mapped : ∀ v ∈ vs, v ∈ virtualPages p) (distinct : vs.Nodup)
    (before : Marks m marked) (opposite : ∀ v ∈ vs, (marked p v ↔ cached = false)) :
    Returns ((vs.map (· * pageSize)).foldlM (markVaddr 0 cached) m) fun m' =>
      Marks m' fun q w => if w ∈ vs then cached = true else marked q w := by
  induction vs generalizing m marked with
  | nil => exact meets_ok (before.congr fun q w _ => by simp)
  | cons v vs ih =>
    obtain ⟨other, rest⟩ := List.nodup_cons.mp distinct
    apply meets_bind (markVaddr_marks (mapped v List.mem_cons_self) before
      (opposite v List.mem_cons_self))
    intro m' between
    refine Meets.mono (ih (fun w member => mapped w (List.mem_cons_of_mem v member)) rest between
      fun w member => ?_) fun m'' after => after.congr fun q w _ => ?_
    · have distinct : w ≠ v := by
        rintro rfl
        exact other member
      rw [if_neg distinct]
      exact opposite w (List.mem_cons_of_mem v member)
    · by_cases later : w ∈ vs
      · rw [if_pos later, if_pos (List.mem_cons_of_mem v later)]
      · rw [if_neg later]
        simp only [List.mem_cons, later, or_false]

/-- The pages from `lower` up to `upper` are marked or no longer marked. -/
def After (cached : Bool) (lower upper : Nat) (marked : Nat → Prop) (p : Nat) : Prop :=
  if lower ≤ p ∧ p < upper then cached = true else marked p

theorem markLoop_marks {marked : Nat → Prop} {n : Nat} (before : Marks m fun q _ => marked q)
    (opposite : ∀ q, p ≤ q → q < p + n → (marked q ↔ cached = false)) (word : p + n ≤ 0x100000) :
    Returns (markLoop 0 cached m (p * pageSize) n) fun m' =>
      Marks m' fun q _ => After cached p (p + n) marked q := by
  induction n generalizing m p marked with
  | zero =>
    refine meets_ok (before.congr fun q w _ => ?_)
    unfold After
    rw [if_neg (by omega)]
  | succ n ih =>
    unfold markLoop
    rw [physicalToVirtual_eq]
    apply meets_bind (markVaddrs_marks (fun _ member => member) (virtualPages_nodup p) before
      fun _ _ => opposite p (Nat.le_refl p) (by omega))
    intro m' between
    have first : Marks m' fun q _ => After cached p (p + 1) marked q := by
      refine between.congr fun q w at_w => ?_
      unfold After
      by_cases same : q = p
      · subst same
        rw [if_pos at_w, if_pos (by omega)]
      · rw [if_neg fun at_p => same (virtualPages_unique at_w at_p), if_neg (by omega)]
    cases n with
    | zero =>
      exact meets_ok first
    | succ n =>
      have next : add32 (p * pageSize) pageSize = (p + 1) * pageSize := by
        unfold pageSize
        rw [add32_eq (by omega)]
        omega
      rw [next]
      refine Meets.mono (ih first (fun q low high => ?_) (by omega)) fun m'' after =>
        after.congr fun q w _ => ?_
      · unfold After
        rw [if_neg (by omega)]
        exact opposite q (by omega) (by omega)
      · unfold After
        split_ifs <;> first | rfl | omega

theorem rasterizerMarkRegionCached_marks {marked : Nat → Prop} {lower upper : Nat}
    (before : Marks m fun q _ => marked q) (first : 0 < lower) (nonempty : lower < upper)
    (word : upper ≤ 0x100000)
    (opposite : ∀ q, lower ≤ q → q < upper → (marked q ↔ cached = false)) :
    Returns (rasterizerMarkRegionCached 0 m (lower * pageSize % 0x100000000)
        (sub32 (upper * pageSize % 0x100000000) (lower * pageSize % 0x100000000)) cached) fun m' =>
      Marks m' fun q _ => After cached lower upper marked q := by
  obtain ⟨start, at_start⟩ : ∃ start, start = lower * pageSize % 0x100000000 := ⟨_, rfl⟩
  have start_eq : start = lower * pageSize := by
    rw [at_start]
    unfold pageSize
    omega
  have size : sub32 (add32 start (sub32 (upper * pageSize % 0x100000000) start)) 1 / pageSize =
      upper - 1 := by
    rw [start_eq]
    unfold sub32 add32 pageSize
    omega
  have pages : add32 (sub32 (upper - 1) (start / pageSize)) 1 = upper - lower := by
    rw [start_eq, Nat.mul_div_cancel _ (by decide)]
    unfold sub32 add32
    omega
  have positive : start ≠ 0 := by
    rw [start_eq]
    unfold pageSize
    omega
  rw [← at_start]
  unfold rasterizerMarkRegionCached
  dsimp only
  rw [if_neg positive, size, pages, start_eq]
  have whole : lower + (upper - lower) = upper := by omega
  have loop := @markLoop_marks m lower cached marked (upper - lower) before
    (fun q low high => opposite q low (by omega)) (by omega)
  rwa [whole] at loop

/-- A mapping of FCRAM or VRAM at its fixed address. -/
def Fixed (base size : Nat) (target : MemoryRef) : Prop :=
  linearHeapVaddr ≤ base ∧ base + size ≤ linearHeapVaddrEnd ∧
    target = ⟨some fcram, base - linearHeapVaddr⟩ ∨
  newLinearHeapVaddr ≤ base ∧ base + size ≤ newLinearHeapVaddrEnd ∧
    target = ⟨some fcram, base - newLinearHeapVaddr⟩ ∨
  vramVaddr ≤ base ∧ base + size ≤ vramVaddrEnd ∧ target = ⟨some vram, base - vramVaddr⟩

def Follows (base n : Nat) (memory : MemoryRef) : Prop :=
  ∃ b offset, memory = ⟨some b, offset⟩ ∧ offset + n * pageSize ≤ b.size ∧
    ∀ i < n, ∀ p, base + i ∈ virtualPages p → Backed p ∧ backing p = (b, offset + i * pageSize)

theorem Fixed.follows {base size : Nat} {target : MemoryRef} (fixed : Fixed base size target)
    (aligned : base % pageSize = 0) (whole : size % pageSize = 0) :
    Follows (base / pageSize) (size / pageSize) target ∧
      base / pageSize + size / pageSize ≤ pageTableNumEntries := by
  unfold Fixed linearHeapVaddr linearHeapVaddrEnd newLinearHeapVaddr newLinearHeapVaddrEnd
    vramVaddr vramVaddrEnd at fixed
  unfold Follows pageTableNumEntries
  rcases fixed with ⟨low, high, rfl⟩ | ⟨low, high, rfl⟩ | ⟨low, high, rfl⟩
  case inr.inr =>
    unfold pageSize at *
    refine ⟨⟨vram, _, rfl, ?_, fun i _ p mapped => ?_⟩, by omega⟩
    · show _ ≤ 0x600000
      omega
    · rw [mem_virtualPages] at mapped
      unfold Backed backing vramPaddr pageSize
      rw [if_pos (by omega)]
      exact ⟨by omega, Prod.ext rfl (by omega)⟩
  -- the two windows on FCRAM differ in where they start only
  all_goals
    unfold pageSize at *
    refine ⟨⟨fcram, _, rfl, ?_, fun i _ p mapped => ?_⟩, by omega⟩
    · show _ ≤ 0x10000000
      omega
    · rw [mem_virtualPages] at mapped
      unfold Backed backing fcramPaddr pageSize
      rw [if_neg (by omega)]
      exact ⟨by omega, Prod.ext rfl (by omega)⟩

def ShowsAll (t : PageTable) (marked : Nat → Nat → Prop) : Prop :=
  ∀ p v, v ∈ virtualPages p → Shows t p v (marked p v)

theorem ShowsAll.set {type : PageType} {pointer : Option HostLoc} (h : ShowsAll t marked)
    (here : ∀ p, v ∈ virtualPages p → Shows (t.set v type pointer) p v (marked p v)) :
    ShowsAll (t.set v type pointer) marked := by
  intro q w at_w
  by_cases same : w = v
  · subst same
    exact here q at_w
  · unfold Shows
    rw [PageTable.set_attributes_other same, PageTable.set_pointers_other same]
    exact h q w at_w

theorem isCached_iff (mapped : v ∈ virtualPages p) :
    isCached marker (v * pageSize) = true ↔ marker v = true := by
  unfold isCached
  rw [cacheable_virtualPages mapped, Bool.true_and, Nat.mul_div_cancel v (by decide)]

theorem mapPages_shows {memory : MemoryRef} {base n : Nat}
    (h : ShowsAll t marked) (follows : Follows base n memory) (inside : base + n ≤ pageTableNumEntries)
    (marks : ∀ p v, v ∈ virtualPages p → (marker v = true ↔ marked p v)) :
    Returns (mapPages marker .memory t base memory n) fun t' => ShowsAll t' marked := by
  induction n generalizing t base memory with
  | zero => exact meets_ok h
  | succ n ih =>
    obtain ⟨b, offset, rfl, fits, pages⟩ := follows
    apply meets_assert fun _ => by omega
    intro _
    have next : ShowsAll (if PageType.memory = .memory ∧ isCached marker (base * pageSize) then
        t.set base .rasterizerCachedMemory none
      else t.set base .memory (some (b, offset))) marked := by
      split_ifs with cached
      · refine h.set fun p mapped => ?_
        have backed := (pages 0 (by omega) p mapped).1
        have marked := (marks p base mapped).mp ((isCached_iff mapped).mp cached.2)
        exact .inr ⟨backed, .inl ⟨marked, PageTable.set_attributes_same,
          PageTable.set_pointers_same⟩⟩
      · refine h.set fun p mapped => ?_
        obtain ⟨backed, pointer⟩ := pages 0 (by omega) p mapped
        have unmarked : ¬ marked p base := fun is =>
          cached ⟨rfl, (isCached_iff mapped).mpr ((marks p base mapped).mpr is)⟩
        refine .inr ⟨backed, .inr ⟨unmarked, PageTable.set_attributes_same, ?_⟩⟩
        rw [PageTable.set_pointers_same, pointer]
        rfl
    have last (i : Nat) (small : i < n) (p : Nat) (mapped : base + 1 + i ∈ virtualPages p) :
        Backed p ∧ backing p = (b, offset + (i + 1) * pageSize) := by
      refine pages (i + 1) (by omega) p ?_
      rwa [show base + (i + 1) = base + 1 + i by omega]
    by_cases more : (⟨some b, offset⟩ : MemoryRef).getSize > pageSize
    · rw [if_pos ⟨nofun, more⟩]
      unfold MemoryRef.advance
      rw [assert_pos more]
      refine ih next ⟨b, offset + pageSize, rfl, ?_, fun i small p mapped => ?_⟩ (by omega)
      · rw [Nat.succ_mul] at fits
        omega
      · obtain ⟨backed, pointer⟩ := last i small p mapped
        refine ⟨backed, pointer.trans (Prod.ext rfl ?_)⟩
        rw [Nat.succ_mul]
        omega
    · rw [if_neg fun both => more both.2]
      have size : (⟨some b, offset⟩ : MemoryRef).getSize = b.size - offset := rfl
      have ends : n = 0 := by
        rw [Nat.succ_mul] at fits
        by_contra some
        have : pageSize ≤ n * pageSize := Nat.le_mul_of_pos_left _ (by omega)
        have : 0 < pageSize := by decide
        omega
      subst ends
      exact meets_ok next

theorem mapPages_unmapped {base n : Nat}
    (h : ShowsAll t marked) : Meets (· = .assertion .markRegionCached)
      (mapPages marker .unmapped t base {} n) fun t' => ShowsAll t' marked := by
  induction n generalizing t base with
  | zero => exact meets_ok h
  | succ n ih =>
    apply meets_assert nofun
    intro _
    exact ih (h.set fun p _ => .inl ⟨PageTable.set_attributes_same,
      PageTable.set_pointers_same⟩)

theorem shows_clear : ShowsAll PageTable.clear marked := fun _ _ _ => .inl ⟨rfl, rfl⟩

theorem edit_marks {i : Nat} {change : PageTable → Exec PageTable} (before : Marks m marked)
    (keep : ∀ t, ShowsAll t marked → Meets (· = .assertion .markRegionCached) (change t)
      fun t' => ShowsAll t' marked) :
    Meets (· = .assertion .markRegionCached) (m.edit i change) fun m' => Marks m' marked := by
  unfold edit
  split
  · rename_i t at_i
    have shown : ShowsAll t marked := fun p v at_v =>
      (before p v at_v).2 t (List.mem_of_getElem? at_i)
    apply meets_bind (keep t shown)
    intro t' after p v at_v
    refine ⟨(before p v at_v).1, fun other member => ?_⟩
    rcases List.mem_or_eq_of_mem_set member with old | rfl
    · exact (before p v at_v).2 other old
    · exact after p v at_v
  · exact meets_ok before

/-- Of the mappings only those of FCRAM and VRAM, and no direct marking. -/
def Plain : Call → Prop
  | .mapMemoryRegion _ base size target => Fixed base size target
  | .rasterizerMarkRegionCached .. => False
  | _ => True

theorem step_marks {call : Call} (before : Marks m marked) (plain : Plain call) :
    Meets (· = .assertion .markRegionCached) (m.step call) fun m' => Marks m' marked := by
  cases call with
  | registerPageTable =>
    intro p v at_v
    refine ⟨(before p v at_v).1, fun t member => ?_⟩
    rcases List.mem_append.mp member with old | new
    · exact (before p v at_v).2 t old
    · rw [List.mem_singleton.mp new]
      exact shows_clear p v at_v
  | unregisterPageTable i =>
    intro p v at_v
    exact ⟨(before p v at_v).1, fun t member =>
      (before p v at_v).2 t (List.mem_of_mem_eraseIdx member)⟩
  | mapMemoryRegion i base size target =>
    apply edit_marks before
    intro t shown
    apply meets_assert nofun
    intro whole
    apply meets_assert nofun
    intro aligned
    obtain ⟨follows, inside⟩ := Fixed.follows plain aligned whole
    exact (mapPages_shows shown follows inside fun p v at_v => (before p v at_v).1).fewer
      fun _ _ => trivial
  | unmapRegion i base size =>
    apply edit_marks before
    intro t shown
    apply meets_assert nofun
    intro _
    apply meets_assert nofun
    intro _
    exact mapPages_unmapped shown
  | rasterizerMarkRegionCached pluginFb start size cached => exact plain.elim

end PageTables
end EmuThreeDS
