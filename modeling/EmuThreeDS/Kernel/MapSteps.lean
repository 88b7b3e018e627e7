import EmuThreeDS.Kernel.Layout

/-!
# The functions on the map, step by step

Each lemma runs one function of `vm_manager.cpp` on a map whose areas are known and says
which areas it leaves.
-/
namespace EmuThreeDS
open Tiling OrderedMap Layout VirtualMemoryArea

/-- `m` holds the areas `vs` under their bases, and they tile the address space. -/
structure LaidOut (m : VmaMap) (vs : List VirtualMemoryArea) : Prop where
  holds : Holds VirtualMemoryArea.base m vs
  laid : Laid 0 vs VMManager.maxAddress

namespace VMManager

variable {m : VmaMap} {L R vs : List VirtualMemoryArea} {v : VirtualMemoryArea}

section

variable (h : LaidOut m (L ++ v :: R))
include h

theorem deref_at : deref m (some v.base) = .ok v := by
  have found : m.find? v.base = some v := h.holds.find?
  simp only [deref, Option.bind_some, found]

theorem area_bounds : 0 < v.size ∧ v.base + v.size ≤ maxAddress :=
  (h.laid.tiles.bounds (by simp)).2

theorem right_above : ∀ w ∈ R, v.base + v.size ≤ w.base := by
  obtain ⟨_, _, hr⟩ := tiles_middle.mp h.laid.tiles
  exact fun w hw => (hr.bounds hw).1

theorem left_below : ∀ w ∈ L, w.base + w.size ≤ v.base := by
  obtain ⟨hl, _, _⟩ := tiles_middle.mp h.laid.tiles
  exact fun w hw => (hl.bounds hw).2.2

theorem findVMA_at {target : Nat} (ht : Covers v target) :
    findVMA m target = .ok (some v.base) := by
  have bounds := area_bounds h
  obtain ⟨low, high⟩ : v.base ≤ target ∧ target < v.base + v.size := ht
  have inside : ¬ target ≥ maxAddress := by omega
  have cut : Holds VirtualMemoryArea.base m ((L ++ [v]) ++ R) := by
    simpa only [List.append_assoc, List.singleton_append] using h.holds
  have upper : m.upperBound target = R.head?.map VirtualMemoryArea.base := by
    refine cut.upperBound ?_ ?_
    · intro w hw
      rcases List.mem_append.mp hw with hw | hw
      · have := left_below h w hw
        omega
      · cases List.mem_singleton.mp hw
        exact low
    · intro w hw
      have := right_above h w hw
      omega
  have back : m.prev (m.upperBound target) = some v.base := by
    rw [upper]
    cases R with
    | nil =>
      have last := h.holds.prev_end
      rw [List.getLast?_append] at last
      exact last
    | cons r rest =>
      have last := cut.prev_at
      rw [List.getLast?_append] at last
      exact last
  unfold findVMA
  rw [if_neg inside, back]

end

theorem findVMA_end {target : Nat} (h : maxAddress ≤ target) : findVMA m target = .ok none :=
  if_pos h

theorem findVMA_total {target : Nat} (h : LaidOut m vs) (ht : target < maxAddress) :
    ∃ L v R, vs = L ++ v :: R ∧ Covers v target ∧ findVMA m target = .ok (some v.base) := by
  obtain ⟨L, v, R, rfl, hv⟩ := h.laid.tiles.exists_covers (Nat.zero_le target) ht
  exact ⟨L, v, R, rfl, hv, findVMA_at h hv⟩

variable {offset a : Nat} {n : VirtualMemoryArea} {c : Cursor}
  {f : VirtualMemoryArea → VirtualMemoryArea}

theorem advanceMemory_at (backed : v.Backed) (inside : offset < v.size) :
    advanceMemory { v with base := v.base + offset, size := v.size - offset } offset =
      .ok (v.right offset) := by
  unfold advanceMemory
  cases type : v.type with
  | free | mmio => simp [right, type]
  | backingMemory =>
    have enough : offset < v.backingMemory.getSize := Nat.lt_of_lt_of_le inside (backed type)
    simp [right, type, MemoryRef.advance, enough]

theorem splitVMA_at (h : LaidOut m (L ++ v :: R)) (pos : 0 < offset)
    (inside : offset < v.size) : ∃ m', splitVMA m v.base offset = .ok (m', v.base + offset) ∧
      LaidOut m' (L ++ v.left offset :: v.right offset :: R) := by
  have bounds := area_bounds h
  have small : maxAddress < 0x100000000 := by decide
  have start : (v.right offset).base = v.base + offset := rfl
  refine ⟨(m.modify v.base fun _ => v.left offset).insert (v.right offset).base (v.right offset),
    ?_, ?_, h.laid.split pos inside⟩
  · have base' : add32 v.base offset = v.base + offset := add32_eq (by omega)
    have size' : sub32 v.size offset = v.size - offset := sub32_eq (by omega) (by omega)
    have same : (v.left offset).canBeMergedWith (v.right offset) = .ok true := by
      have follows : add32 (v.left offset).base (v.left offset).size = (v.right offset).base :=
        base'
      simp only [canBeMergedWith, assert_pos follows, ok_bind, left_mergeable_right, pure_eq_ok]
    have same' : canBeMergedWith { v with size := offset } (v.right offset) = .ok true := same
    unfold splitVMA
    rw [deref_at h]
    simp only [ok_bind, assert_pos inside, assert_pos pos, base', size',
      advanceMemory_at (h.laid.backed v (by simp)) inside, same', pure_eq_ok]
    rfl
  · have modified := h.holds.modify (fun _ => v.left offset) rfl
    have modified' : Holds VirtualMemoryArea.base (m.modify v.base fun _ => v.left offset)
        ((L ++ [v.left offset]) ++ R) := by
      simpa only [List.append_assoc, List.singleton_append] using modified
    have inserted : Holds VirtualMemoryArea.base
        ((m.modify v.base fun _ => v.left offset).insert (v.right offset).base (v.right offset))
        ((L ++ [v.left offset]) ++ v.right offset :: R) := by
      refine modified'.insert ?_ ?_
      · intro w hw
        rcases List.mem_append.mp hw with hw | hw
        · have := left_below h w hw
          omega
        · cases List.mem_singleton.mp hw
          have : (v.left offset).base = v.base := rfl
          omega
      · intro w hw
        have := right_above h w hw
        omega
    simpa only [List.append_assoc, List.singleton_append] using inserted

theorem canBeMergedWith_at (h : LaidOut m (L ++ v :: n :: R)) :
    v.canBeMergedWith n = .ok (v.mergeable n) := by
  obtain ⟨_, _, hn, _, _⟩ := tiles_middle.mp h.laid.tiles
  have hn : n.base = v.base + v.size := hn
  have bounds := area_bounds h
  have small : maxAddress < 0x100000000 := by decide
  have follows : add32 v.base v.size = n.base := by rw [add32_eq (by omega), hn]
  simp only [canBeMergedWith, assert_pos follows, ok_bind, pure_eq_ok]

theorem join_at (h : LaidOut m (L ++ v :: n :: R)) (same : v.mergeable n = true) :
    LaidOut ((m.modify v.base fun w => { w with size := add32 w.size n.size }).erase n.base)
      (L ++ v.join n :: R) := by
  have joined := h.laid.join same
  have bounds := joined.tiles.bounds (show v.join n ∈ L ++ v.join n :: R by simp)
  have small : maxAddress < 0x100000000 := by decide
  have sum : add32 v.size n.size = v.size + n.size := by
    refine add32_eq ?_
    simp only [VirtualMemoryArea.join, segment_base, segment_size] at bounds
    omega
  have modified := h.holds.modify (fun w => { w with size := add32 w.size n.size }) rfl
  have grown : ({ v with size := add32 v.size n.size } : VirtualMemoryArea) = v.join n := by
    rw [sum]
    rfl
  simp only [grown] at modified
  have modified' : Holds VirtualMemoryArea.base
      (m.modify v.base fun w => { w with size := add32 w.size n.size })
      ((L ++ [v.join n]) ++ n :: R) := by
    simpa only [List.append_assoc, List.singleton_append] using modified
  refine ⟨?_, joined⟩
  simpa only [List.append_assoc, List.singleton_append] using modified'.erase

theorem mergeNext_at (h : LaidOut m c.areas) :
    ∃ m', mergeNext m c.here.base = .ok m' ∧ LaidOut m' c.absorbNext.areas := by
  rcases c with ⟨before, here, _ | ⟨n, rest⟩⟩
  · have last : m.next here.base = none := h.holds.next
    exact ⟨m, by simp only [mergeNext, last, pure_eq_ok], h⟩
  · have h : LaidOut m (before.reverse ++ here :: n :: rest) := h
    have h' : LaidOut m ((before.reverse ++ [here]) ++ n :: rest) := by
      simpa only [List.append_assoc, List.singleton_append] using h
    have next : m.next here.base = some n.base := h.holds.next
    by_cases same : here.mergeable n = true
    · have joined : (Cursor.mk before here (n :: rest)).absorbNext =
          ⟨before, here.join n, rest⟩ := if_pos same
      rw [joined]
      refine ⟨_, ?_, join_at h same⟩
      simp only [mergeNext, next, deref_at h, deref_at h', ok_bind, canBeMergedWith_at h, same,
        if_true, pure_eq_ok]
    · have kept : (Cursor.mk before here (n :: rest)).absorbNext = ⟨before, here, n :: rest⟩ :=
        if_neg same
      rw [kept]
      refine ⟨m, ?_, h⟩
      simp only [mergeNext, next, deref_at h, deref_at h', ok_bind, canBeMergedWith_at h, same,
        Bool.false_eq_true, if_false, pure_eq_ok]

theorem mergePrev_at (h : LaidOut m c.areas) :
    ∃ m', mergePrev m c.here.base = .ok (m', c.joinPrev.here.base) ∧
      LaidOut m' c.joinPrev.areas := by
  rcases c with ⟨_ | ⟨p, rest⟩, here, after⟩
  · have first : m.prev (some here.base) = none := h.holds.prev_at
    exact ⟨m, by simp only [mergePrev, first, pure_eq_ok, Cursor.joinPrev], h⟩
  · have h : LaidOut m ((p :: rest).reverse ++ here :: after) := h
    have h' : LaidOut m (rest.reverse ++ p :: here :: after) := by
      simpa only [List.reverse_cons, List.append_assoc, List.singleton_append] using h
    have prev : m.prev (some here.base) = some p.base := by
      rw [h.holds.prev_at]
      simp
    by_cases same : p.mergeable here = true
    · have joined : (Cursor.mk (p :: rest) here after).joinPrev = ⟨rest, p.join here, after⟩ :=
        if_pos same
      rw [joined]
      refine ⟨_, ?_, join_at h' same⟩
      simp only [mergePrev, prev, deref_at h, deref_at h', ok_bind, canBeMergedWith_at h', same,
        if_true, pure_eq_ok]
      rfl
    · have kept : (Cursor.mk (p :: rest) here after).joinPrev = ⟨p :: rest, here, after⟩ :=
        if_neg same
      rw [kept]
      refine ⟨m, ?_, h⟩
      simp only [mergePrev, prev, deref_at h, deref_at h', ok_bind, canBeMergedWith_at h', same,
        Bool.false_eq_true, if_false, pure_eq_ok]

theorem mergeAdjacent_at (h : LaidOut m c.areas) :
    ∃ m', mergeAdjacent m c.here.base = .ok (m', c.merge.here.base) ∧ LaidOut m' c.merge.areas := by
  obtain ⟨m₁, run₁, h₁⟩ := mergeNext_at h
  obtain ⟨m₂, run₂, h₂⟩ := mergePrev_at h₁
  have stays : c.absorbNext.here.base = c.here.base := by
    rcases c with ⟨before, here, _ | ⟨n, rest⟩⟩
    · rfl
    · unfold Cursor.absorbNext
      simp only
      split_ifs <;> rfl
  rw [stays] at run₂
  exact ⟨m₂, by simp only [mergeAdjacent, run₁, ok_bind, run₂, Cursor.merge], h₂⟩

theorem updateAndMerge_at {before after : List VirtualMemoryArea} (base : (f v).base = v.base)
    (laid : Laid 0 (before.reverse ++ f v :: after) maxAddress)
    (h : LaidOut m (before.reverse ++ v :: after)) :
    ∃ m', updateAndMerge f m v.base = .ok (m', (Cursor.merge ⟨before, f v, after⟩).here.base) ∧
      LaidOut m' (Cursor.merge ⟨before, f v, after⟩).areas := by
  have changed : LaidOut (m.modify v.base f) (Cursor.mk before (f v) after).areas :=
    ⟨h.holds.modify f base, laid⟩
  obtain ⟨m', run, h'⟩ := mergeAdjacent_at changed
  refine ⟨m', ?_, h'⟩
  rw [base] at run
  simp only [updateAndMerge, deref_at h, ok_bind, run]

theorem rangeLoop_at {F : AddressInfo → AddressInfo}
    {before rest : List VirtualMemoryArea} {targetEnd fuel : Nat} (acts : Acts f F)
    (h : LaidOut m (before.reverse ++ rest)) (enough : rest.length ≤ fuel) :
    ∃ m', rangeLoop (updateAndMerge f) targetEnd fuel m (rest.head?.map VirtualMemoryArea.base) =
        .ok m' ∧ LaidOut m' (sweep f targetEnd before rest) := by
  induction fuel generalizing m before rest with
  | zero =>
    cases List.length_eq_zero_iff.mp (Nat.le_zero.mp enough)
    rw [List.append_nil] at h
    exact ⟨m, rfl, by rwa [sweep]⟩
  | succ fuel ih =>
    cases rest with
    | nil =>
      rw [List.append_nil] at h
      exact ⟨m, rfl, by rwa [sweep]⟩
    | cons v rest =>
      by_cases inside : v.base < targetEnd
      · obtain ⟨m₁, run₁, h₁⟩ := updateAndMerge_at (acts.base v) (h.laid.change acts) h
        have fewer := Cursor.merge_after ⟨before, f v, rest⟩
        rw [sweep_next inside]
        generalize Cursor.merge ⟨before, f v, rest⟩ = c at *
        have next : m₁.next c.here.base = c.after.head?.map VirtualMemoryArea.base :=
          h₁.holds.next
        have h₁ : LaidOut m₁ ((c.here :: c.before).reverse ++ c.after) := by
          simpa [Cursor.areas] using h₁
        have enough' : c.after.length ≤ fuel := by
          rcases fewer with same | ⟨n, more, _⟩
          · simpa [same] using enough
          · have more : rest = n :: c.after := more
            simp only [more, List.length_cons] at enough
            omega
        obtain ⟨m₂, run₂, h₂⟩ := ih h₁ enough'
        refine ⟨m₂, ?_, h₂⟩
        simp only [List.head?_cons, Option.map_some, rangeLoop, deref_at h, ok_bind, inside,
          if_true, run₁, next, run₂]
      · refine ⟨m, ?_, by rwa [sweep, if_neg inside]⟩
        simp only [List.head?_cons, Option.map_some, rangeLoop, deref_at h, ok_bind, inside,
          if_false, pure_eq_ok]

theorem splitIf_at {p : Prop} [Decidable p] (h : LaidOut m (L ++ v :: R)) (low : v.base ≤ a)
    (high : a ≤ v.base + v.size) (skip : ¬ p ↔ a = v.base ∨ a = v.base + v.size) :
    ∃ m', splitIf p m v.base (a - v.base) = .ok (m', if p then a else v.base) ∧
      LaidOut m' (splitAt a (L ++ v :: R)) := by
  by_cases strict : p
  · have : ¬ (a = v.base ∨ a = v.base + v.size) := fun bound => skip.mpr bound strict
    obtain ⟨m', run, h'⟩ := splitVMA_at h (show 0 < a - v.base by omega) (by omega)
    have sum : v.base + (a - v.base) = a := by omega
    refine ⟨m', ?_, ?_⟩
    · simp only [splitIf, strict, if_true, run, sum]
    · rwa [splitAt_inside h.laid.tiles (by omega) (by omega)]
  · refine ⟨m, by simp only [splitIf, strict, if_false, pure_eq_ok], ?_⟩
    rwa [splitAt_below h.laid.tiles (skip.mp strict)]

theorem splitBefore_at (h : LaidOut m (L ++ v :: R)) (ha : Covers v a) :
    ∃ m', splitBefore m v.base a = .ok (m', a) ∧ LaidOut m' (splitAt a (L ++ v :: R)) := by
  obtain ⟨low, high⟩ : v.base ≤ a ∧ a < v.base + v.size := ha
  have bounds := area_bounds h
  have small : maxAddress < 0x100000000 := by decide
  have offset : sub32 a v.base = a - v.base := sub32_eq low (by omega)
  obtain ⟨m', run, h'⟩ := splitIf_at h low (Nat.le_of_lt high)
    (show ¬ a ≠ v.base ↔ _ by omega)
  refine ⟨m', ?_, h'⟩
  have here : (if a ≠ v.base then a else v.base) = a := by
    split_ifs <;> omega
  simp only [splitBefore, deref_at h, ok_bind, offset, run, here]

theorem allInRange_at (check : VirtualMemoryArea → Bool) {A B : List VirtualMemoryArea}
    (apart : ∀ w ∈ A, ∀ b ∈ B, w.base < b.base) :
    allInRange check ((A ++ B).map fun w => (w.base, w)) (B.head?.map VirtualMemoryArea.base) =
      .ok (A.all check) := by
  induction A with
  | nil =>
    cases B with
    | nil => rfl
    | cons b rest => simp [allInRange]
  | cons w rest ih =>
    have ih := ih fun w' hw => apart w' (List.mem_cons_of_mem w hw)
    have other : some w.base ≠ B.head?.map VirtualMemoryArea.base := by
      cases B with
      | nil => simp
      | cons b rest =>
        have := apart w List.mem_cons_self b List.mem_cons_self
        simp only [List.head?_cons, Option.map_some, ne_eq, Option.some.injEq]
        omega
    rw [List.cons_append, List.map_cons, allInRange, if_neg other, List.all_cons, ih]
    cases check w <;> rfl

def Overlaps (v : VirtualMemoryArea) (lo hi : Nat) : Prop := v.base < hi ∧ lo < v.base + v.size

/-- The loops that check a range visit exactly the areas that overlap it. -/
theorem allInRange_overlaps (check : VirtualMemoryArea → Bool) {target : Nat} (targetEnd : Nat)
    (h : LaidOut m vs) (inside : target < maxAddress) (le : target ≤ targetEnd) :
    ∃ k answer, findVMA m target = .ok (some k) ∧
      allInRange check (m.fromIter (some k)) (m.lowerBound targetEnd) = .ok answer ∧
      (answer = true ↔ ∀ v ∈ vs, Overlaps v target targetEnd → check v = true) := by
  obtain ⟨L, v, R, rfl, covers, found⟩ := findVMA_total h inside
  obtain ⟨low, high⟩ : v.base ≤ target ∧ target < v.base + v.size := covers
  obtain ⟨A, B, cut, hA, hB⟩ := exists_cut (List.pairwise_append.mp h.holds.sorted).2.1 targetEnd
  have left := left_below h
  have right := right_above h
  refine ⟨v.base, A.all check, found, ?_, ?_⟩
  · have visited : m.fromIter (some v.base) = (A ++ B).map fun w => (w.base, w) := by
      rw [← cut]
      exact h.holds.fromIter h.holds.left_lt h.holds.right_ge
    have stop : m.lowerBound targetEnd = B.head?.map VirtualMemoryArea.base := by
      have parts : Holds VirtualMemoryArea.base m ((L ++ A) ++ B) := by
        rw [List.append_assoc, ← cut]
        exact h.holds
      refine parts.lowerBound ?_ hB
      intro w hw
      rcases List.mem_append.mp hw with hw | hw
      · have := left w hw
        have := (h.laid.tiles.bounds (List.mem_append_left (v :: R) hw)).2.1
        simp only [segment_size] at this
        omega
      · exact hA w hw
    rw [visited, stop]
    exact allInRange_at check fun w hw b hb => Nat.lt_of_lt_of_le (hA w hw) (hB b hb)
  · rw [List.all_eq_true]
    constructor
    · intro all w hw ⟨starts, ends⟩
      rcases List.mem_append.mp hw with hw | hw
      · have := left w hw
        omega
      · rw [cut] at hw
        rcases List.mem_append.mp hw with hw | hw
        · exact all w hw
        · have := hB w hw
          omega
    · intro all w hw
      have hw' : w ∈ v :: R := cut ▸ List.mem_append_left B hw
      refine all w (List.mem_append_right L hw') ⟨hA w hw, ?_⟩
      rcases List.mem_cons.mp hw' with rfl | hw'
      · exact high
      · have := right w hw'
        omega

/-- What the callers of the range operations pass: whole pages, not empty, below the end. -/
structure ValidRange (target size : Nat) : Prop where
  alignedTarget : target &&& pageMask = 0
  alignedSize : size &&& pageMask = 0
  nonempty : 0 < size
  fits : target + size ≤ maxAddress

section
variable {target size : Nat}

theorem ValidRange.targetEnd (h : ValidRange target size) : add32 target size = target + size := by
  have := h.fits
  have small : maxAddress < 0x100000000 := by decide
  exact add32_eq (by omega)

theorem ValidRange.inside (h : ValidRange target size) : target < maxAddress :=
  Nat.lt_of_lt_of_le (Nat.lt_add_of_pos_right h.nonempty) h.fits

theorem carveVMARange_refused (h : LaidOut m vs) (valid : ValidRange target size)
    (free : ∃ v ∈ vs, Overlaps v target (target + size) ∧ v.type = .free) :
    carveVMARange m target size = .ok (.error .invalidAddressState, m) := by
  obtain ⟨k, answer, found, checked, all⟩ :=
    allInRange_overlaps (fun vma => vma.type ≠ .free) (target + size) h valid.inside
      (Nat.le_add_right _ _)
  have no : answer = false := by
    obtain ⟨v, hv, beyond, free⟩ := free
    refine Bool.eq_false_iff.mpr fun yes => ?_
    have mapped := all.mp yes v hv beyond
    simp [free] at mapped
  subst no
  simp only [carveVMARange, valid.alignedSize, valid.alignedTarget, valid.targetEnd, assert_pos,
    ok_bind, ge_iff_le, Nat.le_add_right, valid.fits, gt_iff_lt, valid.nonempty, found, checked,
    if_true, pure_eq_ok]

theorem carveVMARange_at (h : LaidOut m vs) (valid : ValidRange target size)
    (mapped : ∀ v ∈ vs, Overlaps v target (target + size) → v.type ≠ .free) :
    ∃ m', carveVMARange m target size = .ok (.ok target, m') ∧
      LaidOut m' (splitAt (target + size) (splitAt target vs)) := by
  have pos := valid.nonempty
  have fits := valid.fits
  obtain ⟨k, answer, found, checked, all⟩ :=
    allInRange_overlaps (fun vma => vma.type ≠ .free) (target + size) h valid.inside
      (Nat.le_add_right _ _)
  obtain rfl : answer = true := all.mpr fun v hv beyond => by simpa using mapped v hv beyond
  obtain ⟨L, v, R, rfl, covers, found'⟩ := findVMA_total h valid.inside
  obtain rfl : v.base = k := by
    rw [found] at found'
    simpa using found'.symm
  obtain ⟨m₁, run₁, h₁⟩ := splitBefore_at h covers
  simp only [carveVMARange, valid.alignedSize, valid.alignedTarget, valid.targetEnd, assert_pos,
    ok_bind, ge_iff_le, Nat.le_add_right, fits, gt_iff_lt, pos, found, checked,
    Bool.true_eq_false, if_false, run₁]
  by_cases whole : target + size = maxAddress
  · refine ⟨m₁, ?_, ?_⟩
    · rw [findVMA_end (Nat.le_of_eq whole.symm)]
      rfl
    · have top := h₁.laid.tiles
      rw [← whole] at top
      have same : splitAt (target + size) (splitAt target (L ++ v :: R) ++ []) = _ :=
        splitAt_boundary top rfl
      rw [List.append_nil] at same
      rwa [same]
  · obtain ⟨L', w, R', cut, covers', found'⟩ :=
      findVMA_total h₁ (show target + size < maxAddress by omega)
    rw [cut] at h₁ ⊢
    obtain ⟨m₂, run₂, h₂⟩ := splitBefore_at h₁ covers'
    refine ⟨m₂, ?_, h₂⟩
    simp only [found', ok_bind, run₂, pure_eq_ok]

theorem carveVMA_at (h : LaidOut m (L ++ v :: R)) (valid : ValidRange target size)
    (free : v.type = .free) (low : v.base ≤ target) (high : target + size ≤ v.base + v.size) :
    ∃ m', carveVMA m target size = .ok (.ok target, m') ∧
      LaidOut m' (splitAt target (splitAt (target + size) (L ++ v :: R))) := by
  have pos := valid.nonempty
  have bounds := area_bounds h
  have small : maxAddress < 0x100000000 := by decide
  have found := findVMA_at h (show Covers v target from ⟨low, by
    simp only [segment_base, segment_size]
    omega⟩)
  have offset : sub32 target v.base = target - v.base := sub32_eq low (by omega)
  have offsetEnd : add32 (target - v.base) size = target - v.base + size := add32_eq (by omega)
  have inside : ¬ target - v.base + size > v.size := by omega
  obtain ⟨m₁, run₁, h₁⟩ := splitIf_at h (show v.base ≤ target + size by omega) high
    (show ¬ target - v.base + size ≠ v.size ↔ _ by omega)
  obtain ⟨w, R₁, cut₁, base₁, ends₁, _, _⟩ := splitAt_end h.laid.tiles
    (show v.base < target + size by omega) high
  rw [cut₁] at h₁ ⊢
  obtain ⟨m₂, run₂, h₂⟩ := splitIf_at h₁ (show w.base ≤ target by omega) (by omega)
    (show ¬ target - v.base ≠ 0 ↔ _ by omega)
  refine ⟨m₂, ?_, h₂⟩
  have shift : target + size - v.base = target - v.base + size := by omega
  have here : (if target - v.base ≠ 0 then target else v.base) = target := by
    split_ifs <;> omega
  rw [shift] at run₁
  rw [base₁, here] at run₂
  simp only [carveVMA, valid.alignedSize, valid.alignedTarget, assert_pos, ok_bind, found,
    deref_at h, free, ne_eq, not_true_eq_false, if_false, offset, offsetEnd, inside]
  rw [run₁, ok_bind, run₂]
  rfl

theorem carveVMA_refused (h : LaidOut m (L ++ v :: R)) (alignedSize : size &&& pageMask = 0)
    (alignedTarget : target &&& pageMask = 0) (noWrap : target + size < 0x100000000)
    (covers : Covers v target) (taken : v.type ≠ .free ∨ v.base + v.size < target + size) :
    carveVMA m target size = .ok (.error .invalidAddressState, m) := by
  have ⟨low, high⟩ : v.base ≤ target ∧ target < v.base + v.size := covers
  simp only [carveVMA, alignedSize, alignedTarget, assert_pos, ok_bind, findVMA_at h covers,
    deref_at h]
  by_cases free : v.type = .free
  · have offset : sub32 target v.base = target - v.base := sub32_eq low (by omega)
    have offsetEnd : add32 (target - v.base) size = target - v.base + size :=
      add32_eq (by omega)
    have beyond : target - v.base + size > v.size := by
      rcases taken with other | short
      · exact False.elim (other free)
      · omega
    simp only [free, ne_eq, not_true_eq_false, if_false, offset, offsetEnd, beyond, if_true,
      pure_eq_ok]
  · simp only [ne_eq, free, not_false_eq_true, if_true, pure_eq_ok]

theorem splitVMA_ok {r : VmaMap × Nat} (h : LaidOut m (L ++ v :: R))
    (run : splitVMA m v.base offset = .ok r) : 0 < offset ∧ offset < v.size := by
  unfold splitVMA at run
  rw [deref_at h, ok_bind] at run
  obtain ⟨_, inside, run⟩ := bind_eq_ok.mp run
  obtain ⟨_, pos, _⟩ := bind_eq_ok.mp run
  exact ⟨assert_eq_ok.mp pos, assert_eq_ok.mp inside⟩

/-- The assertions below `CarveVMA` let nothing through but a valid range of free memory: a
range that is empty or wraps around asks for a split outside the area. -/
theorem carveVMA_ok {handle : Nat} {m' : VmaMap} (h : LaidOut m vs) (ht : target < 0x100000000)
    (hs : size < 0x100000000) (run : carveVMA m target size = .ok (.ok handle, m')) :
    ValidRange target size ∧
      ∃ v ∈ vs, v.type = .free ∧ v.base ≤ target ∧ target + size ≤ v.base + v.size := by
  obtain ⟨_, alignedSize, run⟩ := bind_eq_ok.mp run
  obtain ⟨_, alignedTarget, run⟩ := bind_eq_ok.mp run
  have alignedSize := assert_eq_ok.mp alignedSize
  have alignedTarget := assert_eq_ok.mp alignedTarget
  by_cases inside : target < maxAddress
  · obtain ⟨L, v, R, rfl, covers, found⟩ := findVMA_total h inside
    obtain ⟨low, high⟩ : v.base ≤ target ∧ target < v.base + v.size := covers
    have bounds := area_bounds h
    have offset : sub32 target v.base = target - v.base := sub32_eq low (by omega)
    simp only [found, ok_bind, deref_at h, offset] at run
    split_ifs at run with taken outside
    · cases run
    · cases run
    · have free : v.type = .free := not_not.mp taken
      obtain ⟨⟨m₁, k₁⟩, first, run⟩ := bind_eq_ok.mp run
      obtain ⟨⟨m₂, k₂⟩, second, _⟩ := bind_eq_ok.mp run
      have sum := add32_cases (show target - v.base < 0x100000000 by omega) hs
      have exact : add32 (target - v.base) size = target - v.base + size ∧ 0 < size := by
        unfold splitIf at first second
        split_ifs at first with cut
        · obtain ⟨pos, less⟩ := splitVMA_ok h first
          obtain ⟨m', run', h₁⟩ := splitVMA_at h pos less
          obtain ⟨rfl, rfl⟩ : m' = m₁ ∧ v.base + _ = k₁ := by
            simpa using run'.symm.trans first
          split_ifs at second with later
          · obtain ⟨_, less'⟩ := splitVMA_ok h₁ second
            have less' : target - v.base < add32 (target - v.base) size := less'
            omega
          · omega
        · omega
      obtain ⟨exact, pos⟩ := exact
      exact ⟨⟨alignedTarget, alignedSize, pos, by omega⟩, v, by simp, free, low, by omega⟩
  · rw [findVMA_end (Nat.not_lt.mp inside)] at run
    cases run

theorem carveVMARange_ok {reply : ResultVal Nat × VmaMap} (ht : target < 0x100000000)
    (hs : size < 0x100000000) (run : carveVMARange m target size = .ok reply) :
    ValidRange target size := by
  obtain ⟨_, alignedSize, run⟩ := bind_eq_ok.mp run
  obtain ⟨_, alignedTarget, run⟩ := bind_eq_ok.mp run
  obtain ⟨_, noWrap, run⟩ := bind_eq_ok.mp run
  obtain ⟨_, fits, run⟩ := bind_eq_ok.mp run
  obtain ⟨_, pos, _⟩ := bind_eq_ok.mp run
  have noWrap := assert_eq_ok.mp noWrap
  have fits := assert_eq_ok.mp fits
  have sum := add32_cases ht hs
  exact ⟨assert_eq_ok.mp alignedTarget, assert_eq_ok.mp alignedSize, assert_eq_ok.mp pos,
    by omega⟩

end

section
variable {vm : VMManager} {target size : Nat} {memory : MemoryRef} (state : MemoryState)

def FreeRoom (vs : List VirtualMemoryArea) (target size : Nat) : Prop :=
  ∃ v ∈ vs, v.type = .free ∧ v.base ≤ target ∧ target + size ≤ v.base + v.size

theorem mapBackingMemory_refused (unlocked : vm.isLocked = false) (h : LaidOut vm.vmaMap vs)
    (alignedTarget : target &&& pageMask = 0) (alignedSize : size &&& pageMask = 0)
    (noWrap : target + size < 0x100000000) (inside : target < maxAddress)
    (memory_some : memory.getPtr ≠ none) (full : ¬ FreeRoom vs target size) :
    mapBackingMemory vm target memory size state = .ok (.error .invalidAddressState, vm) := by
  obtain ⟨m, locked⟩ := vm
  obtain rfl : locked = false := unlocked
  obtain ⟨L, v, R, rfl, covers, _⟩ := findVMA_total h inside
  have taken : v.type ≠ .free ∨ v.base + v.size < target + size := by
    by_contra free
    rw [not_or, not_not, Nat.not_lt] at free
    exact full ⟨v, by simp, free.1, covers.1, free.2⟩
  simp only [mapBackingMemory, assert_pos, ok_bind, memory_some, ne_eq, not_false_eq_true,
    carveVMA_refused h alignedSize alignedTarget noWrap covers taken, pure_eq_ok]

structure Carved (vs : List VirtualMemoryArea) (target size : Nat)
    (before : List VirtualMemoryArea) (mid : VirtualMemoryArea) (after : List VirtualMemoryArea) :
    Prop where
  cut : splitAt target (splitAt (target + size) vs) = before.reverse ++ mid :: after
  start : mid.base = target
  length : mid.size = size
  free : mid.type = .free
  rest : ∀ stop, target + size < stop → FreeRoom vs target (stop - target) →
    ∃ n tail, after = n :: tail ∧ n.type = .free ∧ stop ≤ n.base + n.size

theorem mapBackingMemory_at (unlocked : vm.isLocked = false) (h : LaidOut vm.vmaMap vs)
    (valid : ValidRange target size) (memory_some : memory.getPtr ≠ none)
    (enough : size ≤ memory.getSize) (room : FreeRoom vs target size) :
    ∃ before mid after m', Carved vs target size before mid after ∧
      Laid 0 (before.reverse ++ mapAttributes memory state mid :: after) maxAddress ∧
      mapBackingMemory vm target memory size state =
        .ok (.ok (Cursor.merge ⟨before, mapAttributes memory state mid, after⟩).here.base,
          { vm with vmaMap := m' }) ∧
      LaidOut m' (Cursor.merge ⟨before, mapAttributes memory state mid, after⟩).areas := by
  have pos := valid.nonempty
  obtain ⟨v, hv, free, low, high⟩ := room
  obtain ⟨L, R, rfl⟩ := List.append_of_mem hv
  obtain ⟨m₁, run₁, h₁⟩ := carveVMA_at h valid free low high
  obtain ⟨w, R₁, cut₁, base₁, ends₁, type₁, rest₁⟩ := splitAt_end h.laid.tiles
    (show v.base < target + size by omega) high
  have rest : ∀ stop, target + size < stop → FreeRoom (L ++ v :: R) target (stop - target) →
      ∃ n tail, R₁ = n :: tail ∧ n.type = .free ∧ stop ≤ n.base + n.size := by
    rintro stop later ⟨u, hu, _, low', high'⟩
    obtain rfl : u = v := by
      refine h.laid.tiles.covers_unique (a := target) hu ⟨low', ?_⟩ ⟨low, ?_⟩ <;>
        simp only [segment_base, segment_size] <;> omega
    refine ⟨_, R, rest₁ (by omega), free, ?_⟩
    simp only [right]
    omega
  have tiles₁ := (h.laid.splitAt (Nat.zero_le _) valid.fits).1.tiles
  rw [cut₁] at h₁ tiles₁
  obtain ⟨L₁, mid, cut₂, base₂, ends₂, type₂⟩ := splitAt_start tiles₁
    (show w.base ≤ target by omega) (by omega)
  rw [cut₂, ← List.reverse_reverse L₁] at h₁
  have size₂ : mid.size = size := by omega
  have laid : Laid 0 (L₁.reverse.reverse ++ mapAttributes memory state mid :: R₁) maxAddress :=
    h₁.laid.replace rfl rfl fun _ => size₂ ▸ enough
  obtain ⟨m₂, run₂, h₂⟩ := updateAndMerge_at
    (show (mapAttributes memory state mid).base = mid.base from rfl) laid h₁
  refine ⟨L₁.reverse, mid, R₁, m₂, ⟨?_, base₂, size₂, type₂.trans (type₁.trans free), rest⟩, laid,
    ?_, h₂⟩
  · rw [cut₁, cut₂, List.reverse_reverse]
  · rw [base₂] at run₂
    have found : deref m₁ (some target) = .ok mid := base₂ ▸ deref_at h₁
    simp only [mapBackingMemory, unlocked, assert_pos, ok_bind, memory_some, ne_eq,
      not_false_eq_true, run₁, found, size₂, run₂, pure_eq_ok]

end

end VMManager
end EmuThreeDS
