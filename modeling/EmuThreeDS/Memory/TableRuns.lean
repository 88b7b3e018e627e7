import EmuThreeDS.Memory.Straddling

/-!
# Accesses over the page tables of a run

Mapping, unmapping and marking keep a pointer exactly on the pages of plain memory, so that a
single access does what the block access does on one page, and across a boundary exactly where
the second page goes on behind the first.
-/
namespace EmuThreeDS

open Layout GuestMemory

namespace PageTable

variable {t : PageTable} {page : Nat} {type : PageType} {pointer : Option HostLoc}

theorem wellTyped_clear : clear.WellTyped := fun _ => ⟨nofun, nofun⟩

theorem WellTyped.set (h : t.WellTyped) (fits : pointer.isSome ↔ type = .memory) :
    (t.set page type pointer).WellTyped := by
  intro other
  by_cases same : other = page
  · subst same
    rw [set_attributes_same, set_pointers_same]
    exact fits
  · rw [set_attributes_other same, set_pointers_other same]
    exact h other

end PageTable

namespace PageTables

open PageTable (WellTyped)

variable {marker : Nat → Bool} {t : PageTable} {pluginFb : Nat} {s : PageTables}

variable {memory : MemoryRef} {size vaddr : Nat} {cached : Bool} {Q : PageTable → Prop}
  {call : Call}

theorem advance_isSome {n : Nat} : Meets (fun _ => False) (memory.advance n)
    fun next => next.getPtr.isSome = memory.getPtr.isSome := by
  apply meets_assert nofun
  intro _
  apply meets_ok
  simp [MemoryRef.getPtr]

theorem mapPages_wellTyped {type : PageType} {base : Nat}
    (typed : t.WellTyped) (fits : memory.getPtr.isSome ↔ type = .memory) :
    Meets (fun _ => False) (mapPages marker type t base memory size) WellTyped := by
  induction size generalizing t base memory with
  | zero => exact meets_ok typed
  | succ size ih =>
    apply meets_assert nofun
    intro _
    have marked : (if type = .memory ∧ isCached marker (base * pageSize) then
        t.set base .rasterizerCachedMemory none
      else t.set base type memory.getPtr).WellTyped := by
      split_ifs
      · exact typed.set ⟨nofun, nofun⟩
      · exact typed.set fits
    apply meets_ite
    · intro _
      apply meets_bind advance_isSome
      intro after same
      exact ih marked (by rwa [same])
    · intro _
      exact ih marked fits

theorem markTable_wellTyped (typed : t.WellTyped) :
    Meets (fun _ => False) (markTable pluginFb cached vaddr t) WellTyped := by
  unfold markTable
  dsimp only
  split
  · exact meets_ok typed
  · exact meets_ok (typed.set ⟨nofun, nofun⟩)
  · apply meets_bind (meets_of_ok fun _ _ => trivial)
    intro pointer _
    exact meets_ok (typed.set ⟨fun _ => rfl, fun _ => rfl⟩)
  · exact meets_error not_false

def AllTyped (s : PageTables) : Prop := ∀ t ∈ s.list, t.WellTyped

theorem edit_all {i : Nat} {change : PageTable → Exec PageTable}
    (h : ∀ t ∈ s.list, Q t) (keep : ∀ t, Q t → Meets (fun _ => False) (change t) Q) :
    Meets (fun _ => False) (s.edit i change) fun s => ∀ t ∈ s.list, Q t := by
  unfold edit
  split
  · rename_i t at_i
    apply meets_bind (keep t (h t (List.mem_of_getElem? at_i)))
    intro t' kept other member
    rcases List.mem_or_eq_of_mem_set member with old | rfl
    · exact h other old
    · exact kept
  · exact meets_ok h

theorem markLoop_all {paddr pages : Nat} (h : ∀ t ∈ s.list, Q t)
    (marks : ∀ paddr, ∀ vaddr ∈ physicalToVirtual pluginFb paddr, ∀ t, Q t →
      Meets (fun _ => False) (markTable pluginFb cached vaddr t) Q) :
    Meets (fun _ => False) (markLoop pluginFb cached s paddr pages) fun s => ∀ t ∈ s.list, Q t := by
  induction pages generalizing s paddr with
  | zero => exact meets_ok h
  | succ pages ih =>
    apply meets_bind (meets_foldlM (R := fun s : PageTables => ∀ t ∈ s.list, Q t) h ?_)
    · intro next h
      exact ih h
    · intro s h vaddr member
      apply meets_bind (meets_mapM fun t inside => marks paddr vaddr member t (h t inside))
      intro list h
      exact meets_ok h

theorem step_all (h : ∀ t ∈ s.list, Q t) (clear : Q PageTable.clear)
    (maps : ∀ i base size target, call = .mapMemoryRegion i base size target → ∀ t, Q t →
      Meets (fun _ => False)
        (mapPages s.cacheMarker .memory t (base / pageSize) target (size / pageSize)) Q)
    (unmaps : ∀ t base n, Q t →
      Meets (fun _ => False) (mapPages s.cacheMarker .unmapped t base {} n) Q)
    (marks : ∀ pluginFb cached paddr, ∀ vaddr ∈ physicalToVirtual pluginFb paddr, ∀ t, Q t →
      Meets (fun _ => False) (markTable pluginFb cached vaddr t) Q) :
    Meets (fun _ => False) (s.step call) fun s => ∀ t ∈ s.list, Q t := by
  cases call with
  | registerPageTable =>
    intro t member
    rcases List.mem_append.mp member with old | new
    · exact h t old
    · rwa [List.mem_singleton.mp new]
  | unregisterPageTable i => exact meets_ok fun t member => h t (List.mem_of_mem_eraseIdx member)
  | mapMemoryRegion i base size target =>
    apply edit_all h
    intro t kept
    apply meets_assert nofun
    intro _
    apply meets_assert nofun
    intro _
    exact maps i base size target rfl t kept
  | unmapRegion i base size =>
    apply edit_all h
    intro t kept
    apply meets_assert nofun
    intro _
    apply meets_assert nofun
    intro _
    exact unmaps t _ _ kept
  | rasterizerMarkRegionCached pluginFb start size cached =>
    exact meets_ite (fun _ => meets_ok h) fun _ => markLoop_all h (marks pluginFb cached)

def Mapped (_ : PageTables) : Call → Prop
  | .mapMemoryRegion _ _ _ target => target.getPtr.isSome
  | _ => True

theorem step_allTyped (typed : s.AllTyped) (mapped : Mapped s call) :
    Meets (fun _ => False) (s.step call) AllTyped := by
  apply step_all typed PageTable.wellTyped_clear
  · rintro i base size target rfl t typed
    exact mapPages_wellTyped typed ⟨fun _ => rfl, fun _ => mapped⟩
  · intro t base n typed
    exact mapPages_wellTyped typed ⟨nofun, nofun⟩
  · intro pluginFb cached paddr vaddr _ t typed
    exact markTable_wellTyped typed

abbrev Reachable : PageTables → Prop :=
  Runs.Reachable (· = initial) (fun s call s' => s.step call = .ok s') Mapped

theorem Reachable.allTyped (reachable : s.Reachable) : s.AllTyped := by
  apply Runs.Reachable.invariant reachable
  · exact nofun
  · intro s call s' typed mapped run
    exact (step_allTyped typed mapped).ok run

end PageTables

inductive AccessWidth where
  | u8 | u16 | u32 | u64

def AccessWidth.bytes : AccessWidth → Nat
  | .u8 => 1
  | .u16 => 2
  | .u32 => 4
  | .u64 => 8

theorem AccessWidth.bytes_pos (w : AccessWidth) : 0 < w.bytes ∧ w.bytes ≤ 8 := by
  cases w <;> decide

theorem agrees_on_page {pluginFb : Nat} {t : PageTable} {marker : Nat → Bool} (typed : t.WellTyped)
    (positive : 0 < size) (fits : vaddr % pageSize + size ≤ pageSize) :
    Agrees pluginFb t marker vaddr size := by
  constructor
  · intro r m _
    rw [read_eq typed, readBlock_one positive fits]
    cases readPiece pluginFb r t m vaddr size <;> rfl
  · intro r m _ value
    rw [write_eq typed, writeBlock_one (by rwa [length_leBytes]) (by rwa [length_leBytes])]

theorem accesses_agree_iff {s : PageTables} {t : PageTable} {pluginFb : Nat}
    (reachable : s.Reachable) (member : t ∈ s.list) (word : pluginFb < 0x100000000) (vaddr : Nat)
    (w : AccessWidth) : Agrees pluginFb t s.cacheMarker vaddr w.bytes ↔
      vaddr % pageSize + w.bytes ≤ pageSize ∨ Joined pluginFb t s.cacheMarker vaddr w.bytes := by
  have typed := reachable.allTyped t member
  obtain ⟨positive, small⟩ := w.bytes_pos
  by_cases fits : vaddr % pageSize + w.bytes ≤ pageSize
  · exact iff_of_true (agrees_on_page typed positive fits) (.inl fits)
  · rw [or_iff_right fits]
    obtain ⟨n, whole⟩ : ∃ n, w.bytes = pageRest vaddr + n := by
      refine ⟨w.bytes - pageRest vaddr, ?_⟩
      unfold pageRest
      omega
    have behind : 0 < n := by
      unfold pageRest at whole
      omega
    have ends : pageRest vaddr + n ≤ pageSize := by
      unfold pageSize
      omega
    rw [whole]
    exact ⟨joined_of_agrees word typed behind ends, agrees_of_joined word typed behind ends⟩

theorem loadSeen_overwrite {seen : HostLoc → UInt8} {data : List UInt8} :
    loadSeen (overwrite seen loc data) loc data.length = data := by
  apply List.ext_getElem length_loadSeen
  intro j _ below
  simp [loadSeen, overwrite_at below]

/-- On a page that is mapped, what was written is read back, whatever the rasterizer held, and
all the other bytes are seen as they were. -/
theorem read_write {s : PageTables} {t : PageTable} {pluginFb value : Nat} {r : Rasterizer}
    {m m' : GuestMemory} {w : AccessWidth} (reachable : s.Reachable) (member : t ∈ s.list)
    (word : pluginFb < 0x100000000) (fits : vaddr % pageSize + w.bytes ≤ pageSize)
    (mapped : t.attributes (vaddr / pageSize) ≠ .unmapped)
    (run : write pluginFb r t m vaddr w.bytes value = .ok m') :
    (∃ loc : HostLoc, ∀ x, (∀ j < w.bytes, x ≠ loc.plus j) → m'.visible x = m.visible x) ∧
      ∃ m'', read pluginFb r t m' vaddr w.bytes = .ok (value % 256 ^ w.bytes, m'') ∧
        m''.visible = m'.visible := by
  have typed := reachable.allTyped t member
  rw [write_eq typed, writePiece_eq] at run
  rw [read_eq typed, readPiece_eq, ← leValue_leBytes]
  generalize data_eq : leBytes w.bytes value = data at run ⊢
  have size : data.length = w.bytes := by rw [← data_eq, length_leBytes]
  rw [← size] at fits ⊢
  obtain ⟨b, at_vaddr, written⟩ := map_eq_ok.mp run
  rw [at_vaddr]
  cases b with
  | nothing =>
    unfold backing at at_vaddr
    split at at_vaddr
    · contradiction
    · split at at_vaddr <;> cases at_vaddr
    · obtain ⟨_, _, other⟩ := map_eq_ok.mp at_vaddr
      cases other
  | plain loc =>
    obtain rfl : m.store loc data = m' := written
    have back : (m.store loc data).load loc data.length = data := loadSeen_overwrite
    refine ⟨⟨loc, fun x off => ?_⟩, m.store loc data, congrArg (fun bytes => Except.ok
      (leValue bytes, m.store loc data)) back, rfl⟩
    have bytes : (m.store loc data).bytes x = m.bytes x := overwrite_off off
    unfold visible
    rw [bytes]
    rfl
  | cached loc =>
    have covers := covers_rest word at_vaddr (Nat.le_sub_of_add_le' fits)
    have seen : m'.visible = overwrite m.visible loc data := by
      rw [← written]
      exact store_cached covers
    have flushed := flushVirtual_cleared r pluginFb m' vaddr data.length
    have back : (rasterizerFlushVirtualRegion (flushRegion r) pluginFb m' vaddr
        data.length).load loc data.length = data := by
      rw [load_cached covers, seen, loadSeen_overwrite]
    refine ⟨⟨loc, fun x off => ?_⟩, _, congrArg (fun bytes => Except.ok (leValue bytes, _)) back,
      visible_same flushed⟩
    rw [seen, overwrite_off off]

/-- The pages 0x100 and 0x101 mapped to FCRAM, from 0 and from `behind` on. -/
def twoPages (behind : Nat) : PageTable :=
  (PageTable.clear.set 0x100 .memory (some (fcram, 0))).set 0x101 .memory (some (fcram, behind))

theorem PageTables.Reachable.registered :
    (⟨[PageTable.clear], fun _ => false⟩ : PageTables).Reachable :=
  .step (.start rfl) (show PageTables.Mapped _ .registerPageTable from trivial) rfl

theorem PageTables.Reachable.mapPage {t : PageTable} {page offset : Nat}
    (reachable : (⟨[t], fun _ => false⟩ : PageTables).Reachable)
    (low : page < pageTableNumEntries) (fits : offset + pageSize < fcramSize) :
    (⟨[t.set page .memory (some (fcram, offset))], fun _ => false⟩ : PageTables).Reachable := by
  refine .step reachable (show PageTables.Mapped _
    (.mapMemoryRegion 0 (page * pageSize) pageSize ⟨some fcram, offset⟩) from rfl) ?_
  have size : (⟨some fcram, offset⟩ : MemoryRef).getSize = fcramSize - offset := rfl
  have rest : pageSize < (⟨some fcram, offset⟩ : MemoryRef).getSize := by omega
  have advanced : (⟨some fcram, offset⟩ : MemoryRef).advance pageSize =
      .ok ⟨some fcram, offset + pageSize⟩ := by
    unfold MemoryRef.advance
    rw [assert_pos rest]
    rfl
  have unmarked : ¬ (PageType.memory = .memory ∧
      PageTables.isCached (fun _ => false) (page * pageSize) = true) := by
    unfold PageTables.isCached
    rw [Bool.and_false]
    exact nofun
  have mapped : PageTables.mapMemoryRegion (fun _ => false) t (page * pageSize) pageSize
      ⟨some fcram, offset⟩ = .ok (t.set page .memory (some (fcram, offset))) := by
    have turns : pageSize / pageSize = 1 := by decide
    have first : page * pageSize / pageSize = page := Nat.mul_div_cancel _ (by decide)
    unfold PageTables.mapMemoryRegion
    rw [turns, first, assert_pos (Nat.mul_mod_left _ _)]
    unfold PageTables.mapPages
    rw [assert_pos low, if_neg unmarked, if_pos ⟨nofun, rest⟩, advanced]
    rfl
  dsimp only [PageTables.step, PageTables.edit, List.getElem?_cons_zero]
  rw [mapped]
  rfl

theorem twoPages_reachable {behind : Nat} (fits : behind + pageSize < fcramSize) :
    (⟨[twoPages behind], fun _ => false⟩ : PageTables).Reachable :=
  (PageTables.Reachable.registered.mapPage (by decide) (by decide)).mapPage (by decide) fits

theorem read_write_adjacent : ∃ m' m'', write 0 exactRasterizer (twoPages 0x1000)
    ⟨fun _ => 0, fun _ => some 1⟩ 0x100FFC AccessWidth.u32.bytes 7 = .ok m' ∧
      read 0 exactRasterizer (twoPages 0x1000) m' 0x100FFC AccessWidth.u32.bytes =
        .ok (7, m'') := by
  obtain ⟨m', run⟩ : ∃ m', write 0 exactRasterizer (twoPages 0x1000)
    ⟨fun _ => 0, fun _ => some 1⟩ 0x100FFC AccessWidth.u32.bytes 7 = .ok m' := ⟨_, rfl⟩
  obtain ⟨-, m'', back, -⟩ := read_write (twoPages_reachable (by decide))
    (List.mem_singleton_self _) (by decide) (by decide) (by decide) run
  exact ⟨m', m'', run, back⟩

theorem accesses_agree_iff_adjacent :
    Agrees 0 (twoPages 0x1000) (fun _ => false) 0x100FFE AccessWidth.u32.bytes := by
  have reachable : (⟨[twoPages 0x1000], fun _ => false⟩ : PageTables).Reachable :=
    twoPages_reachable (by decide)
  refine (accesses_agree_iff reachable (List.mem_singleton_self _) (by decide)
    0x100FFE .u32).mpr (.inr ?_)
  have first : backing 0 (twoPages 0x1000) 0x100FFE = .ok (.plain (fcram, 0xFFE)) := by decide
  have second : backing 0 (twoPages 0x1000) (nextPage 0x100FFE) = .ok (.plain (fcram, 0x1000)) := by
    decide
  unfold Joined
  rw [first, second]
  decide

theorem accesses_disagree : ∃ s : PageTables, s.Reachable ∧ ∃ t ∈ s.list,
    ¬ Agrees 0 t s.cacheMarker 0x100FFE AccessWidth.u32.bytes := by
  have reachable : (⟨[twoPages 0x2000], fun _ => false⟩ : PageTables).Reachable :=
    twoPages_reachable (by decide)
  refine ⟨_, reachable, _, List.mem_singleton_self _, ?_⟩
  intro agrees
  have typed := reachable.allTyped _ (List.mem_singleton_self _)
  have joined : Joined 0 (twoPages 0x2000) (fun _ => false) 0x100FFE (pageRest 0x100FFE + 2) :=
    joined_of_agrees (by decide) typed (by decide) (by decide) agrees
  have first : backing 0 (twoPages 0x2000) 0x100FFE = .ok (.plain (fcram, 0xFFE)) := by decide
  have second : backing 0 (twoPages 0x2000) (nextPage 0x100FFE) = .ok (.plain (fcram, 0x2000)) := by
    decide
  unfold Joined at joined
  rw [first, second] at joined
  exact absurd joined (by decide)

end EmuThreeDS
