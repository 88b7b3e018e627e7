import EmuThreeDS.Video.RasterizerCache
import EmuThreeDS.Memory.PageMarks

/-!
# How many surfaces touch a page

The count of a page is the number of surfaces in the page table of the cache that overlap it, and
exactly the pages with a count are marked.
-/
namespace EmuThreeDS.VideoCore

open Intervals Layout PageTables

def counted (n : Nat) : Option Int := if n = 0 then none else some n

theorem counted_eq_some {n : Nat} {value : Int} : counted n = some value ↔ 0 < n ∧ value = n := by
  unfold counted
  split_ifs with none
  · exact ⟨nofun, fun both => by omega⟩
  · rw [Option.some_inj]
    exact ⟨fun same => ⟨by omega, same.symm⟩, fun both => both.2.symm⟩

/-- The counts of the pages, and the marks that go with them. -/
def Agree (cachedPages : IntervalMap Int) (memory : PageTables) (count : Nat → Nat) : Prop :=
  (∀ p, cachedPages.find p = counted (count p)) ∧ Marks memory fun p _ => 0 < count p

section

variable {m : PageTables} {marked : Nat → Prop}

theorem markSegments_marks (cached : Bool) (chosen : Intervals.Segment Int → Prop)
    [DecidablePred chosen] {mark : PageTables → Intervals.Segment Int → Exec PageTables}
    {segments : List (Intervals.Segment Int)} (before : Marks m fun q _ => marked q)
    (apart : segments.Pairwise fun s t => s.upper ≤ t.lower)
    (marks : ∀ seg ∈ segments, ∀ m, mark m seg = if chosen seg then
      m.rasterizerMarkRegionCached 0 (seg.lower * pageSize % 0x100000000)
        (sub32 (seg.upper * pageSize % 0x100000000) (seg.lower * pageSize % 0x100000000)) cached
      else .ok m)
    (inside : ∀ seg ∈ segments, 0 < seg.lower ∧ seg.lower < seg.upper ∧ seg.upper ≤ 0x100000)
    (opposite : ∀ seg ∈ segments, chosen seg → ∀ q, seg.Has q → (marked q ↔ cached = false)) :
    PageTables.Returns (segments.foldlM mark m) fun m' => Marks m' fun q _ =>
      (∃ seg ∈ segments, chosen seg ∧ seg.Has q) ∧ cached = true ∨
        (¬ ∃ seg ∈ segments, chosen seg ∧ seg.Has q) ∧ marked q := by
  induction segments generalizing m marked with
  | nil => exact meets_ok (before.congr fun q w _ => by simp)
  | cons seg rest ih =>
    obtain ⟨behind, apart⟩ := List.pairwise_cons.mp apart
    obtain ⟨first, nonempty, word⟩ := inside seg List.mem_cons_self
    rw [List.foldlM_cons, marks seg List.mem_cons_self]
    have rest_marks := fun t (member : t ∈ rest) => marks t (List.mem_cons_of_mem seg member)
    have rest_inside := fun t (member : t ∈ rest) => inside t (List.mem_cons_of_mem seg member)
    by_cases now : chosen seg
    · rw [if_pos now]
      apply meets_bind (rasterizerMarkRegionCached_marks before first nonempty word
        fun q low high => opposite seg List.mem_cons_self now q ⟨low, high⟩)
      intro m' between
      refine Meets.mono (ih between apart rest_marks rest_inside fun t member choice q has => ?_)
        fun m'' after => after.congr fun q w _ => ?_
      · have := behind t member
        have low := has.1
        unfold After
        rw [if_neg (by omega)]
        exact opposite t (List.mem_cons_of_mem seg member) choice q has
      · unfold After
        simp only [List.exists_mem_cons_iff, now, true_and]
        by_cases here : seg.Has q
        · have range : seg.lower ≤ q ∧ q < seg.upper := here
          rw [if_pos range]
          by_cases later : ∃ t ∈ rest, chosen t ∧ t.Has q
          · simp [here, later]
          · simp [here, later]
        · have range : ¬ (seg.lower ≤ q ∧ q < seg.upper) := here
          rw [if_neg range]
          simp [here]
    · rw [if_neg now]
      refine Meets.mono (ih before apart rest_marks rest_inside fun t member choice q has =>
        opposite t (List.mem_cons_of_mem seg member) choice q has) fun m' after =>
        after.congr fun q w _ => ?_
      simp only [List.exists_mem_cons_iff, now, false_and, false_or]

end

def SurfaceParams.pages (params : SurfaceParams) : Block :=
  ⟨params.addr / pageSize, (params.endAddr - 1) / pageSize + 1⟩

theorem SurfaceParams.pages_bounds (params : SurfaceParams) (low : pageSize ≤ params.addr) :
    0 < params.pages.lower ∧ params.pages.lower < params.pages.upper ∧
      params.pages.upper ≤ 0x100000 := by
  have := params.ordered
  have := params.word
  unfold pages pageSize at *
  dsimp only
  omega

theorem counted_within {cachedPages : IntervalMap Int} {count : Nat → Nat} {b : Block}
    (counts : ∀ p, cachedPages.find p = counted (count p)) (nonempty : b.lower < b.upper)
    {seg : Intervals.Segment Int} (member : seg ∈ cachedPages.within b) :
    b.lower ≤ seg.lower ∧ seg.lower < seg.upper ∧ seg.upper ≤ b.upper ∧
      ∀ q, seg.Has q → 0 < count q ∧ seg.value = count q := by
  obtain ⟨low, inner, high, values⟩ := IntervalMap.mem_within nonempty member
  refine ⟨low, inner, high, fun q has => ?_⟩
  have found := values q has
  rw [counts] at found
  exact counted_eq_some.mp found

section

variable {cachedPages : IntervalMap Int} {count : Nat → Nat} {b : Block} {q : Nat}

theorem exists_one_within (counts : ∀ p, cachedPages.find p = counted (count p))
    (nonempty : b.lower < b.upper) :
    (∃ seg ∈ cachedPages.within b, seg.value = 1 ∧ seg.Has q) ↔ b.Has q ∧ count q = 1 := by
  constructor
  · rintro ⟨seg, member, one, on⟩
    obtain ⟨low, -, high, values⟩ := counted_within counts nonempty member
    have same := (values q on).2
    exact ⟨⟨Nat.le_trans low on.1, Nat.lt_of_lt_of_le on.2 high⟩, by omega⟩
  · rintro ⟨has, one⟩
    obtain ⟨seg, member, on, value⟩ := IntervalMap.exists_within has
      ((counts q).trans (counted_eq_some.mpr ⟨by omega, rfl⟩))
    exact ⟨seg, member, by omega, on⟩

/-- The pages whose count is one are marked, and those unmarked that lose their last surface. -/
theorem markSegments_ones (cached : Bool) {m : PageTables} {marked : Nat → Prop}
    (counts : ∀ p, cachedPages.find p = counted (count p)) (before : Marks m fun q _ => marked q)
    (first : 0 < b.lower) (nonempty : b.lower < b.upper) (word : b.upper ≤ 0x100000)
    (opposite : ∀ q, b.Has q → count q = 1 → (marked q ↔ cached = false)) :
    PageTables.Returns ((cachedPages.within b).foldlM
      (RasterizerCache.markSegment 0 (if cached then 1 else -1)) m) fun m' => Marks m' fun q _ =>
        if b.Has q ∧ count q = 1 then cached = true else marked q := by
  have ones := fun q => exists_one_within (q := q) counts nonempty
  refine Meets.mono (markSegments_marks cached (fun seg => seg.value = 1) before
    IntervalMap.within_pairwise (fun seg member m => ?_) (fun seg member => ?_)
    fun seg member one q has => ?_) fun m' after => after.congr fun q w _ => ?_
  · obtain ⟨-, inner, -, values⟩ := counted_within counts nonempty member
    have positive := values seg.lower ⟨Nat.le_refl _, inner⟩
    unfold RasterizerCache.markSegment
    by_cases choice : seg.value = 1
    · cases cached <;> simp [choice]
    · rw [if_neg choice, if_neg, if_neg, assert_pos (by omega)]
      · rfl
      all_goals cases cached <;> simp [choice]
  · obtain ⟨low, inner, high, -⟩ := counted_within counts nonempty member
    exact ⟨by omega, inner, by omega⟩
  · obtain ⟨inside, single⟩ := (ones q).mp ⟨seg, member, one, has⟩
    exact opposite q inside single
  · rw [ones q]
    split_ifs with one <;> simp [one]

end

namespace RasterizerCache

variable {s : RasterizerCache} {count : Nat → Nat}

theorem updatePagesCachedCount_pages (params : SurfaceParams) :
    add32 (params.addr / pageSize) (add32 (sub32 (sub32 (add32 params.addr params.size) 1 /
      pageSize) (params.addr / pageSize)) 1) = (params.endAddr - 1) / pageSize + 1 := by
  have := params.ordered
  have := params.word
  unfold add32 sub32 SurfaceParams.size pageSize
  omega

theorem updatePagesCachedCount_add (params : SurfaceParams) (low : pageSize ≤ params.addr)
    (agree : Agree s.cachedPages s.memory count) :
    PageTables.Returns (s.updatePagesCachedCount 0 params.addr params.size 1) fun s' =>
      ∃ cachedPages memory, s' = { s with cachedPages, memory } ∧
        Agree cachedPages memory fun p => if params.pages.Has p then count p + 1 else count p := by
  obtain ⟨counts, marks⟩ := agree
  obtain ⟨first, nonempty, word⟩ := params.pages_bounds low
  obtain ⟨added, at_added⟩ : ∃ added, s.cachedPages.add params.pages 1 = added := ⟨_, rfl⟩
  have after (p : Nat) :
      added.find p = counted (if params.pages.Has p then count p + 1 else count p) := by
    rw [← at_added, IntervalMap.find_add, counts]
    by_cases has : params.pages.Has p
    · have sum : (counted (count p)).getD 0 + 1 = ((count p + 1 : Nat) : Int) := by
        unfold counted
        split_ifs with none
        · rw [none]
          rfl
        · rfl
      rw [if_pos has, if_pos has, sum, if_neg (by omega), counted, if_neg (by omega)]
    · rw [if_neg has, if_neg has]
  unfold updatePagesCachedCount
  dsimp only
  rw [updatePagesCachedCount_pages]
  change PageTables.Returns
    (((s.cachedPages.add params.pages 1).within params.pages).foldlM _ _ >>= _) _
  rw [at_added]
  refine meets_bind (markSegments_ones true after marks first nonempty word fun q has one => ?_)
    fun memory marked => meets_ok ⟨added, memory, by rw [← at_added]; rfl, after,
      marked.congr fun q w _ => ?_⟩
  · rw [if_pos has] at one
    exact iff_of_false (by omega) nofun
  · by_cases has : params.pages.Has q
    · simp only [has, if_true, true_and]
      split_ifs with one
      · exact iff_of_true trivial (Nat.succ_pos _)
      · omega
    · simp only [has, if_false, false_and]

theorem updatePagesCachedCount_sub (params : SurfaceParams) (low : pageSize ≤ params.addr)
    (agree : Agree s.cachedPages s.memory count) (touched : ∀ p, params.pages.Has p → 0 < count p) :
    PageTables.Returns (s.updatePagesCachedCount 0 params.addr params.size (-1)) fun s' =>
      ∃ cachedPages memory, s' = { s with cachedPages, memory } ∧
        Agree cachedPages memory fun p => if params.pages.Has p then count p - 1 else count p := by
  obtain ⟨counts, marks⟩ := agree
  obtain ⟨first, nonempty, word⟩ := params.pages_bounds low
  have after (p : Nat) : (s.cachedPages.add params.pages (-1)).find p =
      counted (if params.pages.Has p then count p - 1 else count p) := by
    rw [IntervalMap.find_add, counts]
    by_cases has : params.pages.Has p
    · have positive := touched p has
      have sum : (counted (count p)).getD 0 + -1 = ((count p - 1 : Nat) : Int) := by
        rw [counted, if_neg (by omega), Option.getD_some]
        omega
      rw [if_pos has, sum, counted]
      split_ifs <;> first | rfl | omega
    · rw [if_neg has, if_neg has]
  unfold updatePagesCachedCount
  dsimp only
  rw [updatePagesCachedCount_pages]
  change PageTables.Returns ((s.cachedPages.within params.pages).foldlM _ _ >>= _) _
  refine meets_bind (markSegments_ones false counts marks first nonempty word
    fun q has one => iff_of_true (touched q has) rfl)
    fun memory marked => meets_ok ⟨_, memory, rfl, after, marked.congr fun q w _ => ?_⟩
  by_cases has : params.pages.Has q
  · have positive := touched q has
    simp only [has, if_true, true_and]
    split_ifs with one
    · exact iff_of_false nofun (by omega)
    · omega
  · simp only [has, if_false, false_and]

end RasterizerCache
end EmuThreeDS.VideoCore
