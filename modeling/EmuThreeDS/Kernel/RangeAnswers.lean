import EmuThreeDS.Kernel.Backing

/-!
# When the range operations return

An operation on a range returns, with success or with an error, or it stops at an assertion.
Here is which of the two it does, and where a mapping step leaves room for the next one.
-/
namespace EmuThreeDS
open Tiling Layout VirtualMemoryArea

namespace Cursor

variable {c : Cursor} {w : VirtualMemoryArea}

theorem mem_merge_after (hw : w ∈ c.after) (other : w.type ≠ c.here.type) : w ∈ c.merge.after := by
  rcases merge_after c with same | ⟨n, more, mergeable⟩
  · exact same ▸ hw
  · rw [more] at hw
    rcases List.mem_cons.mp hw with rfl | hw
    · obtain ⟨_, _, type, _⟩ := mergeable_iff.mp mergeable
      exact False.elim (other type.symm)
    · exact hw

theorem mem_merge_before (hw : w ∈ c.before) (other : w.type ≠ c.here.type) :
    w ∈ c.merge.before := by
  have type := (absorbNext_attributes c).1
  have same := (absorbNext_covers c).2.2
  rw [← same] at hw
  rw [← type] at other
  unfold merge
  generalize c.absorbNext = d at hw other
  rcases d with ⟨_ | ⟨p, rest⟩, here, after⟩
  · exact hw
  · unfold joinPrev
    simp only
    split_ifs with mergeable
    · rcases List.mem_cons.mp hw with rfl | hw
      · obtain ⟨_, _, type, _⟩ := mergeable_iff.mp mergeable
        exact False.elim (other type)
      · exact hw
    · exact hw

theorem mem_merge (hw : w ∈ c.areas) (other : w.type ≠ c.here.type) : w ∈ c.merge.areas := by
  simp only [areas, List.mem_append, List.mem_reverse, List.mem_cons] at hw ⊢
  rcases hw with before | rfl | after
  · exact Or.inl (mem_merge_before before other)
  · exact False.elim (other rfl)
  · exact Or.inr (Or.inr (mem_merge_after after other))

end Cursor

namespace Layout

variable {f : VirtualMemoryArea → VirtualMemoryArea} {a : Nat} {w : VirtualMemoryArea}

variable {vs : List VirtualMemoryArea} {targetEnd : Nat} {v : VirtualMemoryArea}

theorem mem_splitAt (hw : w ∈ vs)
    (whole : ¬ (w.base < a ∧ a < w.base + w.size)) : w ∈ splitAt a vs := by
  induction vs with
  | nil => exact nomatch hw
  | cons v rest ih =>
    rw [Layout.splitAt]
    rcases List.mem_cons.mp hw with rfl | hw
    · rw [if_neg whole]
      exact List.mem_cons_self
    · split_ifs
      · exact List.mem_cons_of_mem _ (List.mem_cons_of_mem _ hw)
      · exact List.mem_cons_of_mem _ (ih hw)

theorem mem_sweep {before rest : List VirtualMemoryArea} (free : w.type = .free)
    (mapped : ∀ v ∈ rest, v.base < targetEnd → (f v).type ≠ .free)
    (hw : w ∈ before ∨ w ∈ rest ∧ targetEnd ≤ w.base) : w ∈ sweep f targetEnd before rest := by
  induction before, rest using sweep.induct f targetEnd with
  | case1 before =>
    rw [sweep]
    rcases hw with hw | ⟨hw, _⟩
    · exact List.mem_reverse.mpr hw
    · cases hw
  | case2 before v rest inside ih =>
    have other : w.type ≠ (f v).type := fun same =>
      mapped v List.mem_cons_self inside (same.symm.trans free)
    rw [sweep_next inside]
    refine ih ?_ ?_
    · intro u hu
      refine mapped u (List.mem_cons_of_mem v ?_)
      rcases Cursor.merge_after ⟨before, f v, rest⟩ with same | ⟨n, more, _⟩
      · have same : _ = rest := same
        exact same ▸ hu
      · have more : rest = n :: _ := more
        rw [more]
        exact List.mem_cons_of_mem n hu
    · rcases hw with hw | ⟨hw, past⟩
      · exact Or.inl (List.mem_cons_of_mem _
          (Cursor.mem_merge_before (c := ⟨before, f v, rest⟩) hw other))
      · rcases List.mem_cons.mp hw with rfl | hw
        · omega
        · exact Or.inr ⟨Cursor.mem_merge_after (c := ⟨before, f v, rest⟩) hw other, past⟩
  | case3 before v rest outside =>
    rw [sweep, if_neg outside]
    rcases hw with hw | ⟨hw, _⟩
    · exact List.mem_append_left _ (List.mem_reverse.mpr hw)
    · exact List.mem_append_right _ hw

end Layout

namespace VMManager

variable {vm vm' : VMManager} {target size : Nat} {memory : MemoryRef} {state : MemoryState}
  {perms : VMAPermission} {site : Site}

theorem unmapRange_answers (inv : Inv vm) (ht : target < 0x100000000) (hs : size < 0x100000000) :
    Answers (vm.unmapRange target size) ↔ ValidRange target size := by
  constructor
  · rintro ⟨reply, run⟩
    obtain ⟨_, _, run⟩ := bind_eq_ok.mp run
    obtain ⟨_, carve, _⟩ := bind_eq_ok.mp run
    exact carveVMARange_ok ht hs carve
  · intro valid
    rcases unmapRange_info inv valid with ⟨_, _, run⟩ | ⟨_, _, run, _⟩
    · exact ⟨_, run⟩
    · exact ⟨_, run⟩

theorem unmapRange_frees (inv : Inv vm) (valid : ValidRange target size)
    (mapped : Mapped vm.areas target size) : ∃ vm', vm.unmapRange target size = .ok (.ok (), vm') := by
  rcases unmapRange_info inv valid with ⟨unmapped, _⟩ | ⟨_, vm', run, _⟩
  · exact absurd mapped unmapped
  · exact ⟨vm', run⟩

theorem reprotectRange_answers (perms : VMAPermission) (inv : Inv vm) (ht : target < 0x100000000)
    (hs : size < 0x100000000) :
    Answers (vm.reprotectRange target size perms) ↔ ValidRange target size := by
  constructor
  · rintro ⟨reply, run⟩
    obtain ⟨_, _, run⟩ := bind_eq_ok.mp run
    obtain ⟨_, carve, _⟩ := bind_eq_ok.mp run
    exact carveVMARange_ok ht hs carve
  · intro valid
    rcases reprotectRange_info perms inv valid with ⟨_, _, run⟩ | ⟨_, _, run, _⟩
    · exact ⟨_, run⟩
    · exact ⟨_, run⟩

section

variable {expectedState newState : MemoryState} {expectedPerms newPerms : VMAPermission}

theorem changeMemoryState_returns (inv : Inv vm) (valid : ValidRange target size) : Answers
    (vm.changeMemoryState target size expectedState expectedPerms newState newPerms) := by
  rcases changeMemoryState_info expectedState newState expectedPerms newPerms inv valid with
    ⟨_, _, run⟩ | ⟨_, _, _, run, _⟩
  · exact ⟨_, run⟩
  · exact ⟨_, run⟩

/-- With nothing to change, the check sees the area that has `target` strictly inside, if any. It
must fail: `CarveVMARange` asserts that there is something to carve. -/
theorem changeMemoryState_empty (inv : Inv vm) (inside : target < maxAddress) : Answers
    (vm.changeMemoryState target 0 expectedState expectedPerms newState newPerms) ↔
      ∃ v ∈ vm.areas, v.base < target ∧ target < v.base + v.size ∧
        ¬ (v.meminfoState = expectedState ∧ v.permissions &&& expectedPerms = expectedPerms) := by
  have none_added : add32 target 0 = target :=
    add32_eq (Nat.lt_trans inside (by decide))
  obtain ⟨k, answer, found, checked, all⟩ := allInRange_overlaps (fun vma =>
    decide (vma.meminfoState = expectedState) &&
      decide (vma.permissions &&& expectedPerms = expectedPerms)) target inv.laidOut inside
    (Nat.le_refl _)
  simp only [changeMemoryState, inv.unlocked, Bool.false_eq_true, if_false, none_added, found,
    ok_bind, reduceCtorEq, checked]
  cases answer with
  | false =>
    refine iff_of_true ⟨_, rfl⟩ ?_
    by_contra none
    refine Bool.false_ne_true (all.mpr fun v hv on => ?_)
    by_contra fails
    refine none ⟨v, hv, on.1, on.2, fun both => fails ?_⟩
    rw [Bool.and_eq_true, decide_eq_true both.1, decide_eq_true both.2]
    exact ⟨rfl, rfl⟩
  | true =>
    refine iff_of_false ?_ ?_
    · rintro ⟨reply, run⟩
      obtain ⟨_, carve, _⟩ := bind_eq_ok.mp run
      have pos := (carveVMARange_ok (Nat.lt_trans inside (by decide)) (by decide) carve).nonempty
      exact Nat.lt_irrefl 0 pos
    · rintro ⟨v, hv, low, high, fails⟩
      have both := all.mp rfl v hv ⟨low, high⟩
      rw [Bool.and_eq_true] at both
      exact fails ⟨of_decide_eq_true both.1, of_decide_eq_true both.2⟩

theorem changeMemoryState_free {w : VirtualMemoryArea} (inv : Inv vm)
    (valid : ValidRange target size) (hw : w ∈ vm.areas) (free : w.type = .free)
    (run : vm.changeMemoryState target size expectedState expectedPerms newState newPerms =
      .ok (.ok (), vm')) : w ∈ vm'.areas := by
  rcases changeMemoryState_info expectedState newState expectedPerms newPerms inv valid with
    ⟨_, _, run'⟩ | ⟨mapped, _, _, run', _, _, A, M, B, window, swept⟩
  · cases run.symm.trans run'
  · cases run.symm.trans run'
    have apart : ¬ Overlaps w target (target + size) := fun on => mapped w hw on free
    unfold Overlaps at apart
    have cut := mem_splitAt (a := target + size)
      (mem_splitAt (a := target) hw (by omega)) (by omega)
    rw [window.cut] at cut
    rw [swept]
    refine mem_sweep free ?_ ?_
    · intro v hv below
      have types := window.mapped mapped
      rcases List.mem_append.mp hv with hv | hv
      · exact types v hv
      · have above := (window.after.bounds hv).1
        simp only [segment_base] at above
        omega
    · rcases List.mem_append.mp cut with before | rest
      · exact Or.inl (List.mem_reverse.mpr before)
      · refine Or.inr ⟨rest, ?_⟩
        rcases List.mem_append.mp rest with middle | after
        · exact False.elim (window.mapped mapped w middle free)
        · exact (window.after.bounds after).1

end

section

theorem FreeRoom.fits (room : FreeRoom vs target size)
    (laid : Laid 0 vs maxAddress) : target + size ≤ maxAddress := by
  obtain ⟨v, hv, _, _, high⟩ := room
  exact Nat.le_trans high (laid.tiles.bounds hv).2.2

theorem mapAndReprotect_run (site : Site) (state : MemoryState) (perms : VMAPermission)
    (inv : Inv vm) (valid : ValidRange target size) (block : Op.ValidMemory memory size)
    (room : FreeRoom vm.areas target size) :
    ∃ vm', mapAndReprotect site vm target memory size state perms = .ok vm' ∧ Inv vm' ∧
      ∀ more, 0 < more → FreeRoom vm.areas target (size + more) →
        FreeRoom vm'.areas (target + size) more := by
  obtain ⟨before, mid, after, vm₁, map, inv₁, _, carved, changed, same⟩ :=
    mapBackingMemory_info state inv valid block room
  have laid := inv₁.laidOut
  rw [same] at laid
  have found := find_at (L := (Cursor.merge _).before.reverse) laid
  obtain ⟨handle, vm', protect, inv', _, L, R, split, areas⟩ := reprotect_info perms inv₁ found
  refine ⟨vm', ?_, inv', ?_⟩
  · simp only [mapAndReprotect, map, ok_bind, protect, pure_eq_ok]
  · intro more pos room
    obtain ⟨n, tail, rfl, free, high⟩ := carved.rest (target + size + more) (by omega) (by
      rwa [Nat.add_assoc, Nat.add_sub_cancel_left])
    have base : n.base = target + size := by
      obtain ⟨_, _, start, _⟩ := tiles_middle.mp changed.tiles
      have start : n.base = mid.base + mid.size := start
      rw [start, carved.start, carved.length]
    have kept : n ∈ vm₁.areas := by
      rw [same]
      refine Cursor.mem_merge (by simp [Cursor.areas]) ?_
      rw [free]
      rintro ⟨⟩
    have type := (Cursor.merge_attributes ⟨before, mapAttributes memory state mid, n :: tail⟩).1
    generalize (Cursor.merge ⟨before, mapAttributes memory state mid, n :: tail⟩).here = v at *
    have other : n.type ≠ v.type := by
      rw [free, type]
      rintro ⟨⟩
    have kept : n ∈ vm'.areas := by
      rw [areas]
      rw [split] at kept
      refine Cursor.mem_merge ?_ other
      simp only [Cursor.areas, List.reverse_reverse, List.mem_append, List.mem_cons] at kept ⊢
      rcases kept with kept | rfl | kept
      · exact Or.inl kept
      · exact False.elim (other rfl)
      · exact Or.inr (Or.inr kept)
    exact ⟨n, kept, free, Nat.le_of_eq base, by omega⟩

theorem mapAndReprotect_answers (inv : Inv vm) (ht : target < 0x100000000) (hs : size < 0x100000000)
    (some_ptr : memory.getPtr ≠ none) (enough : ValidRange target size → size ≤ memory.getSize) :
    Answers (mapAndReprotect site vm target memory size state perms) ↔
      ValidRange target size ∧ FreeRoom vm.areas target size := by
  constructor
  · rintro ⟨vm', run⟩
    obtain ⟨_, _, valid, room, _⟩ := mapAndReprotect_effect inv ht hs enough run
    exact ⟨valid, room⟩
  · rintro ⟨valid, room⟩
    obtain ⟨vm', run, _⟩ :=
      mapAndReprotect_run site state perms inv valid ⟨some_ptr, enough valid⟩ room
    exact ⟨vm', run⟩

theorem mapBlocks_answers {blocks : List (MemoryRef × Nat)} (inv : Inv vm)
    (aligned : target &&& pageMask = 0) (ok : ∀ b ∈ blocks, 0 < b.2 ∧ b.2 ≤ b.1.getSize)
    (room : blocks ≠ [] → FreeRoom vm.areas target (totalSize blocks)) :
    Answers (mapBlocks site state perms vm target blocks) ↔ ∀ b ∈ blocks, b.2 &&& pageMask = 0 := by
  induction blocks generalizing vm target with
  | nil => exact iff_of_true ⟨vm, rfl⟩ nofun
  | cons b rest ih =>
    have total : totalSize (b :: rest) = b.2 + totalSize rest := rfl
    have room := room (List.cons_ne_nil b rest)
    have fits := room.fits inv.laidOut.laid
    have top : maxAddress = 0x40000000 := rfl
    obtain ⟨pos, enough⟩ := ok b List.mem_cons_self
    have some_ptr : b.1.getPtr ≠ none := fun none => by
      have := getSize_none none
      omega
    have first : FreeRoom vm.areas target b.2 := by
      obtain ⟨v, hv, free, low, high⟩ := room
      exact ⟨v, hv, free, low, by omega⟩
    rw [List.forall_mem_cons, mapBlocks, answers_bind]
    by_cases pages : b.2 &&& pageMask = 0
    · have valid : ValidRange target b.2 := ⟨aligned, pages, pos, by omega⟩
      obtain ⟨vm₁, run, inv₁, later⟩ :=
        mapAndReprotect_run site state perms inv valid ⟨some_ptr, enough⟩ first
      have more : rest ≠ [] → 0 < totalSize rest := by
        intro some_left
        cases rest with
        | nil => exact False.elim (some_left rfl)
        | cons c rest =>
          have total : totalSize (c :: rest) = c.2 + totalSize rest := rfl
          have := (ok c (by simp)).1
          omega
      have next := ih inv₁ (aligned_add aligned pages)
        (fun c hc => ok c (List.mem_cons_of_mem b hc))
        fun some_left => later _ (more some_left) (total ▸ room)
      rw [and_iff_right pages, ← next]
      constructor
      · rintro ⟨vm₂, run', done⟩
        cases run.symm.trans run'
        rwa [valid.targetEnd] at done
      · intro done
        refine ⟨vm₁, run, ?_⟩
        rwa [valid.targetEnd]
    · refine iff_of_false ?_ fun all => pages all.1
      rintro ⟨vm₁, run, _⟩
      obtain ⟨_, _, valid, _⟩ := mapAndReprotect_effect inv (by omega) (by omega)
        (fun _ => enough) run
      exact pages valid.alignedSize

end

section

theorem aligned_sub {a : Nat} (ha : a &&& pageMask = 0) (hb : b &&& pageMask = 0) :
    (a - b) &&& pageMask = 0 := by
  rw [and_pageMask] at ha hb ⊢
  omega

theorem aligned_min {a : Nat} (ha : a &&& pageMask = 0) (hb : b &&& pageMask = 0) :
    min a b &&& pageMask = 0 := by
  rcases Nat.le_total a b with le | le
  · rwa [Nat.min_eq_left le]
  · rwa [Nat.min_eq_right le]

theorem Inv.end_aligned (inv : Inv vm)
    (split : vm.areas = L ++ v :: R) : (v.base + v.size) &&& pageMask = 0 := by
  have tiles := inv.laidOut.laid.tiles
  have aligned := inv.aligned
  rw [split] at tiles aligned
  obtain ⟨_, _, after⟩ := tiles_middle.mp tiles
  cases R with
  | nil =>
    have last : v.base + v.size = maxAddress := after
    rw [last]
    decide
  | cons w rest =>
    have next : w.base = v.base + v.size := after.1
    rw [← next]
    exact aligned w (by simp)

/-- The listing ends: it meets something that is no memory, or it lists whole pages. Each turn
leaves one area behind. -/
theorem backingBlocksLoop_total {fuel address : Nat} (acc : List (MemoryRef × Nat)) (inv : Inv vm)
    (fits : targetEnd ≤ maxAddress) (inside : address < targetEnd)
    (start : address &&& pageMask = 0) (stop : targetEnd &&& pageMask = 0)
    (split : vm.areas = L ++ v :: R) (covers : Covers v address) (enough : R.length + 2 ≤ fuel) :
    (∃ e a i, backingBlocksLoop vm.vmaMap targetEnd fuel address acc = .ok (.error e) ∧
        address ≤ a ∧ a < targetEnd ∧ vm.info a = some i ∧ i.type ≠ .backingMemory) ∨
      ∃ new, backingBlocksLoop vm.vmaMap targetEnd fuel address acc = .ok (.ok (acc ++ new)) ∧
        ∀ b ∈ new, b.2 &&& pageMask = 0 := by
  induction fuel generalizing address acc L v R with
  | zero => exact nomatch enough
  | succ fuel ih =>
    have h := inv.laidOut
    have ends := inv.end_aligned split
    rw [split] at h
    rw [backingBlocksLoop_turn fuel acc h covers inside fits]
    by_cases type : v.type = .backingMemory
    · rw [if_neg (not_not.mpr type)]
      have pages := aligned_sub (aligned_min stop ends) start
      obtain ⟨below, above⟩ : v.base ≤ address ∧ address < v.base + v.size := covers
      rcases Nat.lt_or_ge (v.base + v.size) targetEnd with more | last
      · obtain ⟨_, _, after⟩ := tiles_middle.mp h.laid.tiles
        cases R with
        | nil =>
          have last : v.base + v.size = maxAddress := after
          omega
        | cons w rest =>
          have next : w.base = v.base + v.size := after.1
          have pos : 0 < w.size := after.2.1
          have split' : vm.areas = (L ++ [v]) ++ w :: rest := by rw [split, List.append_cons]
          have covers' : Covers w (v.base + v.size) := by
            rw [← next]
            exact ⟨Nat.le_refl _, Nat.lt_add_of_pos_right pos⟩
          simp only [List.length_cons] at enough
          have ih := ih (acc ++ [areaBlock v address targetEnd]) more ends split' covers'
            (by omega)
          rw [Nat.min_eq_right (Nat.le_of_lt more)]
          rcases ih with ⟨e, a, i, run, low, rest⟩ | ⟨new, run, whole⟩
          · exact Or.inl ⟨e, a, i, run, by omega, rest⟩
          · refine Or.inr ⟨areaBlock v address targetEnd :: new, ?_, ?_⟩
            · rw [run, List.append_assoc, List.singleton_append]
            · intro b hb
              rcases List.mem_cons.mp hb with rfl | hb
              · exact pages
              · exact whole b hb
      · rw [Nat.min_eq_left last]
        obtain ⟨fuel, rfl⟩ : ∃ n, fuel = n + 1 := ⟨fuel - 1, by omega⟩
        refine Or.inr ⟨[areaBlock v address targetEnd], ?_, ?_⟩
        · rw [backingBlocksLoop, if_pos rfl, pure_eq_ok]
        · intro b hb
          cases List.mem_singleton.mp hb
          exact pages
    · rw [if_pos type]
      refine Or.inl ⟨_, address, v.infoAt address, rfl, Nat.le_refl _, inside, ?_, type⟩
      rw [VMManager.info, split]
      exact h.laid.tiles.view_at covers

theorem getBackingBlocksForRange_total (inv : Inv vm) (valid : ValidRange target size) :
    (∃ e a i, vm.getBackingBlocksForRange target size = .ok (.error e) ∧ target ≤ a ∧
        a < target + size ∧ vm.info a = some i ∧ i.type ≠ .backingMemory) ∨
      ∃ blocks, vm.getBackingBlocksForRange target size = .ok (.ok blocks) ∧
        ∀ b ∈ blocks, b.2 &&& pageMask = 0 := by
  have pos := valid.nonempty
  obtain ⟨L, v, R, split, covers, _⟩ := findVMA_total inv.laidOut valid.inside
  have enough : R.length + 2 ≤ vm.vmaMap.entries.length + 2 := by
    have length : vm.areas.length = vm.vmaMap.entries.length := List.length_map _
    rw [split, List.length_append, List.length_cons] at length
    omega
  rw [getBackingBlocksForRange, valid.targetEnd]
  have total := backingBlocksLoop_total [] inv valid.fits (by omega) valid.alignedTarget
    (aligned_add valid.alignedTarget valid.alignedSize) split covers enough
  simpa only [List.nil_append] using total

end

end VMManager
end EmuThreeDS
