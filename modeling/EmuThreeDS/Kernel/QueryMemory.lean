import EmuThreeDS.Kernel.Canonical

/-!
# QueryMemory

`SVC::QueryProcessMemory` from the areas of the process. It looks for the first area on either
side that differs from the one the address lies in, and answers with what is between.
-/
namespace EmuThreeDS
open Tiling OrderedMap LevelIntervals VirtualMemoryArea

structure MemoryInfo where
  baseAddress : Nat
  size : Nat
  permission : VMAPermission
  state : MemoryState

structure PageInfo where
  flags : Nat

namespace VMManager

def mismatch (permissions : VMAPermission) (state : MemoryState) (v : VirtualMemoryArea) : Bool :=
  v.permissions != permissions || v.meminfoState != state

/-- `process` is the address space the handle names. -/
def queryProcessMemory (process : Option VMManager) (addr : Nat) :
    Exec (ResultVal (MemoryInfo × PageInfo)) := do
  match process with
  | none => return .error .invalidHandle
  | some vmManager =>
    let vmaMap := vmManager.vmaMap
    match ← findVMA vmaMap addr with
    | none => return .error .invalidAddress
    | some vma =>
      let found ← deref vmaMap (some vma)
      let mismatch := mismatch found.permissions found.meminfoState
      let lower ← deref vmaMap (vmaMap.prevReverse (vmaMap.findIfReverse vma mismatch))
      let upper ← deref vmaMap (vmaMap.prev (vmaMap.findIf (some vma) mismatch))
      return .ok (
        { baseAddress := lower.base
          permission := found.permissions
          size := sub32 (add32 upper.base upper.size) lower.base
          state := found.meminfoState },
        { flags := 0 })

/-- What a query can tell of an address. -/
def seen (vm : VMManager) (a : Nat) : Option (VMAPermission × MemoryState) :=
  (vm.info a).map fun i => (i.permissions, i.meminfoState)

/-- `info` is about the largest interval around `addr` whose addresses look alike. -/
structure Describes (g : Nat → Option (VMAPermission × MemoryState)) (addr : Nat)
    (info : MemoryInfo) : Prop where
  attributes : g addr = some (info.permission, info.state)
  region : Largest g addr info.baseAddress (info.baseAddress + info.size)

section
variable {g : Nat → Option (VMAPermission × MemoryState)} {addr addr' : Nat}
    {info info' : MemoryInfo}

theorem Describes.move (h : Describes g addr info) (low : info.baseAddress ≤ addr')
    (high : addr' < info.baseAddress + info.size) : Describes g addr' info where
  attributes := (h.region.level addr' low high).trans h.attributes
  region := h.region.move low high

theorem Describes.unique (h : Describes g addr info) (h' : Describes g addr info') :
    info = info' := by
  have region := h.region.unique h'.region
  have attributes := h.attributes.symm.trans h'.attributes
  cases info with
  | mk base size permission state =>
    cases info' with
    | mk base' size' permission' state' =>
      simp only [Option.some.injEq, Prod.mk.injEq] at attributes region
      obtain ⟨rfl, rfl⟩ := attributes
      obtain ⟨rfl, ends⟩ := region
      have same : size = size' := by omega
      rw [same]

theorem Describes.equal_or_apart (h : Describes g addr info) (h' : Describes g addr' info') :
    info = info' ∨ info.baseAddress + info.size ≤ info'.baseAddress ∨
      info'.baseAddress + info'.size ≤ info.baseAddress := by
  rcases h.region.equal_or_apart h'.region with ⟨start, stop⟩ | apart
  · have there := h'.region.inside
    exact Or.inl ((h.move (by omega) (by omega)).unique h')
  · exact Or.inr apart

end

theorem find?_split {α : Type} (p : α → Bool) (vs : List α) : ∃ A B, vs = A ++ B ∧
    (∀ w ∈ A, p w = false) ∧ (∀ w ∈ B.head?, p w = true) ∧ vs.find? p = B.head? := by
  induction vs with
  | nil => exact ⟨[], [], rfl, nofun, nofun, rfl⟩
  | cons v rest ih =>
    by_cases found : p v = true
    · refine ⟨[], v :: rest, rfl, nofun, ?_, List.find?_cons_of_pos found⟩
      intro w hw
      cases hw
      exact found
    · obtain ⟨A, B, rfl, skipped, stop, next⟩ := ih
      refine ⟨v :: A, B, rfl, ?_, stop, (List.find?_cons_of_neg found).trans next⟩
      intro w hw
      rcases List.mem_cons.mp hw with rfl | hw
      · exact Bool.eq_false_iff.mpr found
      · exact skipped w hw

theorem mismatch_iff {v w : VirtualMemoryArea} : mismatch v.permissions v.meminfoState w = true ↔
      (w.permissions, w.meminfoState) ≠ (v.permissions, v.meminfoState) := by
  simp only [mismatch, Bool.or_eq_true, bne_iff_ne, ne_eq, Prod.mk.injEq, not_and_or]

section
variable {m : VmaMap} {L L₁ L₂ R R₁ R₂ : List VirtualMemoryArea} {v : VirtualMemoryArea}
    {p : VirtualMemoryArea → Bool}

theorem lower_at (h : OrderedMap.Holds VirtualMemoryArea.base m (L ++ v :: R)) :
    ∃ L₁ L₂, L = L₁ ++ L₂ ∧ (∀ w ∈ L₂, p w = false) ∧ (∀ w ∈ L₁.getLast?, p w = true) ∧
    m.prevReverse (m.findIfReverse v.base p) = (L₂ ++ v :: R).head?.map VirtualMemoryArea.base := by
  obtain ⟨A, B, split, skipped, stop, found⟩ := find?_split p L.reverse
  have cut : L = B.reverse ++ A.reverse := by
    rw [← List.reverse_append, ← split, List.reverse_reverse]
  refine ⟨B.reverse, A.reverse, cut, ?_, ?_, ?_⟩
  · exact fun w hw => skipped w (List.mem_reverse.mp hw)
  · rwa [List.getLast?_reverse]
  · rw [h.findIfReverse h.left_lt h.right_ge, found]
    cases B with
    | nil =>
      have whole : A.reverse ++ v :: R = L ++ v :: R := by rw [cut]; rfl
      simp only [List.head?_nil, Option.map_none, Map.prevReverse, h.eq, List.head?_map,
        Option.map_map, whole]
      rfl
    | cons b rest =>
      have around : OrderedMap.Holds VirtualMemoryArea.base m
          (rest.reverse ++ b :: (A.reverse ++ v :: R)) := by
        rw [cut] at h
        simpa only [List.reverse_cons, List.append_assoc, List.cons_append,
          List.nil_append] using h
      exact around.next

theorem upper_at (h : OrderedMap.Holds VirtualMemoryArea.base m (L ++ v :: R)) (passes : p v = false) :
    ∃ R₁ R₂, R = R₁ ++ R₂ ∧ (∀ w ∈ R₁, p w = false) ∧ (∀ w ∈ R₂.head?, p w = true) ∧
    m.prev (m.findIf (some v.base) p) = (L ++ v :: R₁).getLast?.map VirtualMemoryArea.base := by
  obtain ⟨A, B, rfl, skipped, stop, found⟩ := find?_split p R
  refine ⟨A, B, rfl, skipped, stop, ?_⟩
  rw [h.findIf h.left_lt h.right_ge, List.find?_cons_of_neg (by simp [passes]), found]
  cases B with
  | nil =>
    rw [List.append_nil] at h
    exact h.prev_end
  | cons b rest =>
    have around : OrderedMap.Holds VirtualMemoryArea.base m ((L ++ v :: A) ++ b :: rest) := by
      simpa only [List.append_assoc, List.cons_append] using h
    exact around.prev_at

end

variable {vm vm' : VMManager} {addr : Nat}

theorem query_describes (inv : Inv vm) (inside : addr < maxAddress) :
    ∃ info, queryProcessMemory (some vm) addr = .ok (.ok (info, ⟨0⟩)) ∧
      Describes vm.seen addr info := by
  obtain ⟨L, v, R, split, covers, found⟩ := findVMA_total inv.laidOut inside
  have laidOut := inv.laidOut
  rw [split] at laidOut
  have read := deref_at laidOut
  have passes : mismatch v.permissions v.meminfoState v = false := by
    simp [mismatch]
  obtain ⟨L₁, L₂, rfl, likeL, edgeL, lower⟩ :=
    lower_at (p := mismatch v.permissions v.meminfoState) laidOut.holds
  obtain ⟨R₁, R₂, rfl, likeR, edgeR, upper⟩ := upper_at laidOut.holds passes
  -- the areas that look like the one found, and the first and the last of them
  obtain ⟨M, middle⟩ : ∃ M, M = L₂ ++ v :: R₁ := ⟨_, rfl⟩
  have areas : (L₁ ++ L₂) ++ v :: (R₁ ++ R₂) = L₁ ++ (M ++ R₂) := by simp [middle]
  have member : v ∈ M := by simp [middle]
  have nonempty : M ≠ [] := List.ne_nil_of_mem member
  obtain ⟨w₁, M₁, first⟩ := List.exists_cons_of_ne_nil nonempty
  obtain ⟨M₂, w₂, last⟩ := (List.eq_nil_or_concat M).resolve_left nonempty
  rw [List.concat_eq_append] at last
  have readLower : deref vm.vmaMap (vm.vmaMap.prevReverse (vm.vmaMap.findIfReverse v.base
      (mismatch v.permissions v.meminfoState))) = .ok w₁ := by
    have head : L₂ ++ v :: (R₁ ++ R₂) = w₁ :: (M₁ ++ R₂) := by
      have joined := congrArg (· ++ R₂) (middle.symm.trans first)
      simpa only [List.append_assoc, List.cons_append] using joined
    rw [lower, head]
    apply deref_at (L := L₁) (R := M₁ ++ R₂)
    rwa [List.append_assoc, head] at laidOut
  have readUpper : deref vm.vmaMap (vm.vmaMap.prev (vm.vmaMap.findIf (some v.base)
      (mismatch v.permissions v.meminfoState))) = .ok w₂ := by
    have tail : L₁ ++ L₂ ++ v :: R₁ = L₁ ++ M₂ ++ [w₂] := by
      rw [List.append_assoc, ← middle, last, List.append_assoc]
    rw [upper, tail, List.getLast?_concat]
    apply deref_at (L := L₁ ++ M₂) (R := R₂)
    rwa [areas, last, List.append_assoc, ← List.append_assoc L₁] at laidOut
  rw [areas] at laidOut split
  obtain ⟨lo, left, rest⟩ := tiles_append.mp laidOut.laid.tiles
  obtain ⟨hi, between, right⟩ := tiles_append.mp rest
  have start : w₁.base = lo := by
    rw [first] at between
    exact between.1
  have stop : w₂.base + w₂.size = hi := by
    rw [last] at between
    exact (tiles_middle.mp between).2.2
  have here : lo ≤ addr ∧ addr < hi := by
    obtain ⟨low, high⟩ : v.base ≤ addr ∧ addr < v.base + v.size := covers
    have bounds := between.bounds member
    simp only [segment_base, segment_size] at bounds
    omega
  have top : hi ≤ maxAddress := right.le
  have limit : maxAddress = 0x40000000 := rfl
  have size : sub32 (add32 w₂.base w₂.size) w₁.base = hi - lo := by
    rw [add32_eq (by omega), stop, start, sub32_eq (by omega) (by omega)]
  have agree : ∀ t ∈ M,
      (t.permissions, t.meminfoState) = (v.permissions, v.meminfoState) := by
    intro t ht
    have like : mismatch v.permissions v.meminfoState t = false := by
      rw [middle, List.mem_append, List.mem_cons] at ht
      rcases ht with ht | rfl | ht
      · exact likeL t ht
      · exact passes
      · exact likeR t ht
    by_contra differs
    rw [mismatch_iff.mpr differs] at like
    exact Bool.noConfusion like
  refine ⟨⟨w₁.base, hi - lo, v.permissions, v.meminfoState⟩, ?_, ?_, ?_⟩
  · simp only [queryProcessMemory, found, read, readLower, readUpper, ok_bind, size, pure_eq_ok]
  · have whole : v ∈ L₁ ++ (M ++ R₂) := by simp [member]
    simp only [seen, info, split]
    rw [laidOut.laid.tiles.view_mem whole covers]
    rfl
  · have ends : w₁.base + (hi - lo) = hi := by omega
    have shown : vm.seen = fun c => (view (L₁ ++ (M ++ R₂)) c).map
        fun i => (i.permissions, i.meminfoState) := by
      funext c
      rw [seen, info, split]
    simp only [shown]
    rw [ends, start]
    exact .of_tiles (fun t _ c => rfl) left between right here agree
      (fun t ht => mismatch_iff.mp (edgeL t ht)) (fun t ht => mismatch_iff.mp (edgeR t ht))

/-- Every query is answered with the largest region around the address, whatever the areas
are cut into, and two such regions are the same or do not overlap. -/
theorem query_reports_regions {vm : VMManager} (h : Reachable (fun vm op => op.Valid vm) vm)
    (addr : Nat) (inside : addr < maxAddress) :
    ∃ info, queryProcessMemory (some vm) addr = .ok (.ok (info, ⟨0⟩)) ∧
      Describes vm.seen addr info ∧
      (∀ vm', Reachable (fun vm op => op.Valid vm) vm' → vm'.seen = vm.seen →
        queryProcessMemory (some vm') addr = queryProcessMemory (some vm) addr) ∧
      ∀ addr' info' page, addr' < maxAddress →
        queryProcessMemory (some vm) addr' = .ok (.ok (info', page)) →
        info = info' ∨ info.baseAddress + info.size ≤ info'.baseAddress ∨
          info'.baseAddress + info'.size ≤ info.baseAddress := by
  have inv := h.inv fun _ _ valid => valid
  obtain ⟨info, run, describes⟩ := query_describes inv inside
  refine ⟨info, run, describes, ?_, ?_⟩
  · intro vm' h' same
    obtain ⟨info', run', describes'⟩ := query_describes (h'.inv fun _ _ valid => valid) inside
    rw [same] at describes'
    rw [run, run', describes.unique describes']
  · intro addr' info' page inside' run'
    obtain ⟨other, answer, describes'⟩ := query_describes inv inside'
    rw [answer] at run'
    cases run'
    exact describes.equal_or_apart describes'

/-- Two areas of one block lie side by side here and count as one region. -/
theorem query_reports_regions_stranded : ∃ fresh vm info, reset ⟨Map.empty, false⟩ = .ok fresh ∧
    runAll fresh strandedCalls = .ok vm ∧
    queryProcessMemory (some vm) 0x3000 = .ok (.ok (info, ⟨0⟩)) ∧
    Describes vm.seen 0x3000 info := by
  have start : reset ⟨Map.empty, false⟩ = .ok _ := rfl
  obtain ⟨vm, run⟩ := runAll_total (reset_inv start) strandedCalls_valid
    (by simp [strandedCalls, Op.Finds])
  have reached := (Reachable.reset start).runAll strandedCalls_valid run
  obtain ⟨info, answer, describes, _⟩ := query_reports_regions reached 0x3000 (by decide)
  exact ⟨_, vm, info, start, run, answer, describes⟩

end VMManager
end EmuThreeDS
