import Mathlib.Data.List.Chain
import EmuThreeDS.Kernel.AddressMap

/-!
# When neighbouring areas stay unmergeable

`vma_map` is documented to keep a minimal number of areas: whatever can be merged is. A
range loop can absorb the piece that was split off at its end without looking past it; the
condition for that is stated here, and every run without it keeps the layout minimal.
-/
namespace EmuThreeDS
open Tiling OrderedMap Layout VirtualMemoryArea

namespace VirtualMemoryArea

variable {w : VirtualMemoryArea} {offset b : Nat}

theorem mergeable_congr {v x y : VirtualMemoryArea} (perms : v.permissions = w.permissions)
    (state : v.meminfoState = w.meminfoState) (type : v.type = w.type)
    (host : v.type = .backingMemory → HostPtr.add v.backingMemory.getPtr v.size =
      HostPtr.add w.backingMemory.getPtr w.size)
    (device : v.type = .mmio → add32 v.paddr v.size = add32 w.paddr w.size)
    (perms' : x.permissions = y.permissions) (state' : x.meminfoState = y.meminfoState)
    (type' : x.type = y.type) (host' : x.backingMemory.getPtr = y.backingMemory.getPtr)
    (device' : x.paddr = y.paddr) : v.mergeable x = w.mergeable y := by
  rw [Bool.eq_iff_iff, mergeable_iff, mergeable_iff]
  rw [← perms, ← state, ← type, ← perms', ← state', ← type', ← host', ← device']
  constructor
  · rintro ⟨h1, h2, h3, h4, h5⟩
    exact ⟨h1, h2, h3, fun t => (host t).symm.trans (h4 t), fun t => (device t).symm.trans (h5 t)⟩
  · rintro ⟨h1, h2, h3, h4, h5⟩
    exact ⟨h1, h2, h3, fun t => (host t).trans (h4 t), fun t => (device t).trans (h5 t)⟩

theorem add32_add32 (a b c : Nat) : add32 (add32 a b) c = add32 a (b + c) := by
  unfold add32
  omega

theorem mergeable_join_left {v n : VirtualMemoryArea} (x : VirtualMemoryArea)
    (same : v.mergeable n = true) : (v.join n).mergeable x = n.mergeable x := by
  obtain ⟨perms, state, type, host, device⟩ := mergeable_iff.mp same
  refine mergeable_congr perms state type ?_ ?_ rfl rfl rfl rfl rfl
  · intro backing
    have host := host backing
    simp only [join, ← host, HostPtr.add_add]
  · intro mmio
    have device := device mmio
    simp only [join, ← device, add32_add32]

theorem mergeable_right_left {v : VirtualMemoryArea} (x : VirtualMemoryArea)
    (inside : offset ≤ v.size) : (v.right offset).mergeable x = v.mergeable x := by
  have sum : offset + (v.size - offset) = v.size := by omega
  refine mergeable_congr rfl rfl rfl ?_ ?_ rfl rfl rfl rfl rfl
  · intro backing
    have backing : v.type = .backingMemory := backing
    simp only [right, backing, if_true, MemoryRef.getPtr_offset, HostPtr.add_add, sum]
  · intro mmio
    have mmio : v.type = .mmio := mmio
    simp only [right, mmio, if_true, add32_add32, sum]

end VirtualMemoryArea

namespace Layout

def Unmergeable (vs : List VirtualMemoryArea) : Prop :=
  vs.IsChain fun v n => v.mergeable n = false

def Meet (L R : List VirtualMemoryArea) : Prop :=
  ∀ v ∈ L.getLast?, ∀ n ∈ R.head?, v.mergeable n = false

variable {lo hi a : Nat} {L R M B vs : List VirtualMemoryArea} {v n : VirtualMemoryArea}

theorem unmergeable_append : Unmergeable (L ++ R) ↔ Unmergeable L ∧ Unmergeable R ∧ Meet L R :=
  List.isChain_append

theorem unmergeable_cons : Unmergeable (v :: R) ↔ Meet [v] R ∧ Unmergeable R := by
  rw [← List.singleton_append, unmergeable_append]
  constructor
  · rintro ⟨_, right, meet⟩
    exact ⟨meet, right⟩
  · rintro ⟨meet, right⟩
    exact ⟨List.isChain_singleton v, right, meet⟩

theorem meet_one : Meet [v] R ↔ ∀ n ∈ R.head?, v.mergeable n = false := by
  simp [Meet]

variable {c : Cursor}

theorem meet_absorbNext
    (next : ∀ n rest, c.after = n :: rest → c.here.mergeable n = true → Meet [n] rest) :
    Meet [c.absorbNext.here] c.absorbNext.after := by
  rcases c with ⟨before, here, _ | ⟨n, rest⟩⟩
  · exact meet_one.mpr nofun
  · unfold Cursor.absorbNext
    simp only
    split_ifs with same
    · refine meet_one.mpr fun x hx => ?_
      rw [mergeable_join_left x same]
      exact meet_one.mp (next n rest rfl same) x hx
    · refine meet_one.mpr fun x hx => ?_
      cases hx
      exact eq_false_of_ne_true same

theorem meet_reverse {l : List VirtualMemoryArea} : Meet (v :: l).reverse R ↔ Meet [v] R := by
  simp [Meet]

theorem unmergeable_joinPrev (before : Unmergeable c.before.reverse)
    (meet : Meet [c.here] c.after) : Unmergeable (c.joinPrev.here :: c.joinPrev.before).reverse ∧
      Meet [c.joinPrev.here] c.joinPrev.after := by
  rcases c with ⟨_ | ⟨p, rest⟩, here, after⟩
  · exact ⟨List.isChain_singleton here, meet⟩
  · unfold Cursor.joinPrev
    simp only
    split_ifs with same
    · simp only [List.reverse_cons, unmergeable_append] at before ⊢
      refine ⟨⟨before.1, List.isChain_singleton _, ?_⟩, ?_⟩
      · intro x hx y hy
        cases hy
        exact before.2.2 x hx p rfl
      · refine meet_one.mpr fun x hx => ?_
        rw [mergeable_join_left x same]
        exact meet_one.mp meet x hx
    · rw [List.reverse_cons, unmergeable_append, meet_reverse, meet_one]
      refine ⟨⟨before, List.isChain_singleton _, ?_⟩, meet⟩
      intro x hx
      cases hx
      exact eq_false_of_ne_true same

/-- Merging repairs both sides of the place where it happens, if the area behind an absorbed
neighbour cannot be merged with that neighbour. -/
theorem unmergeable_merge_before (before : Unmergeable c.before.reverse)
    (next : ∀ n rest, c.after = n :: rest → c.here.mergeable n = true → Meet [n] rest) :
    Unmergeable (c.merge.here :: c.merge.before).reverse ∧ Meet [c.merge.here] c.merge.after := by
  refine unmergeable_joinPrev ?_ (meet_absorbNext next)
  rcases c with ⟨l, here, _ | ⟨n, rest⟩⟩
  · exact before
  · unfold Cursor.absorbNext
    simp only
    split_ifs <;> exact before

theorem unmergeable_merge_after (after : Unmergeable c.after) : Unmergeable c.merge.after := by
  rcases Cursor.merge_after c with same | ⟨n, more, _⟩
  · rwa [same]
  · rw [more] at after
    exact (unmergeable_cons.mp after).2

theorem unmergeable_merge (before : Unmergeable c.before.reverse) (after : Unmergeable c.after) :
    Unmergeable c.merge.areas := by
  obtain ⟨left, meet⟩ := unmergeable_merge_before before fun n rest split _ => by
    rw [split] at after
    exact (unmergeable_cons.mp after).1
  have shape : c.merge.areas = (c.merge.here :: c.merge.before).reverse ++ c.merge.after := by
    simp [Cursor.areas]
  rw [shape, unmergeable_append, meet_reverse]
  exact ⟨left, unmergeable_merge_after after, meet⟩

section
variable {f : VirtualMemoryArea → VirtualMemoryArea} {F : AddressInfo → AddressInfo}
  {targetEnd : Nat} {before : List VirtualMemoryArea}

/-- A range loop leaves a minimal layout unless the last area of the range is absorbed by the
one before it and could still be merged with the area behind the range. -/
theorem unmergeable_sweep (acts : Acts f F) (laid : Laid lo (before.reverse ++ (M ++ B)) hi)
    (range : Tiles lo (before.reverse ++ M) targetEnd) (hb : Unmergeable before.reverse)
    (hM : Unmergeable M) (hB : Unmergeable B) (boundary : M = [] → Meet before.reverse B)
    (last : ∀ L v n, M = L ++ [v, n] → (f v).mergeable n = true → Meet [n] B) :
    Unmergeable (sweep f targetEnd before (M ++ B)) := by
  induction hk : M.length using Nat.strong_induction_on generalizing before M with
  | _ k ih =>
  subst hk
  cases M with
  | nil =>
    rw [List.append_nil] at range
    have tail : Tiles targetEnd B hi := tiles_tail laid.tiles range
    rw [List.nil_append, sweep_done (head_ge tail), unmergeable_append]
    exact ⟨hb, hB, boundary rfl⟩
  | cons v M =>
    obtain ⟨_, hM⟩ := unmergeable_cons.mp hM
    obtain ⟨inside, turn⟩ := sweep_turn acts laid range
    have behind : ∀ n rest, M ++ B = n :: rest → (f v).mergeable n = true → Meet [n] rest := by
      intro n rest split same
      rcases M with _ | ⟨m, _ | ⟨m', M⟩⟩
      · exact (unmergeable_cons.mp (split ▸ hB)).1
      · obtain ⟨rfl, rfl⟩ := List.cons.inj split
        exact last [] v m rfl same
      · obtain ⟨rfl, rfl⟩ := List.cons.inj split
        exact (unmergeable_cons.mp hM).1
    have merged : Unmergeable (Cursor.mk before (f v) (M ++ B)).before.reverse := hb
    obtain ⟨left, meet⟩ := unmergeable_merge_before merged behind
    rw [List.cons_append, sweep_next inside]
    cases turn with
    | stays S M' split after laid' range' _ swallowed =>
      subst split
      have fewer : M'.length < (v :: (S ++ M')).length := by
        simp only [List.length_cons, List.length_append]
        omega
      rw [after] at meet ⊢
      refine ih M'.length fewer laid' range' left (unmergeable_append.mp hM).2.1 ?_ ?_ rfl
      · intro none_left
        subst none_left
        exact meet_reverse.mpr meet
      · intro L w n split
        exact last (v :: S ++ L) w n (by simp [split])
    | leaves n none_left past beyond =>
      have rest := (unmergeable_cons.mp (past ▸ hB)).2
      rw [sweep_done beyond, unmergeable_append, meet_reverse]
      exact ⟨left, rest, meet⟩

end

/-- How a split at `a` came about: nothing was cut, or one area was. -/
inductive Cut (vs : List VirtualMemoryArea) (a : Nat) (P Q : List VirtualMemoryArea) : Prop where
  | boundary (whole : vs = P ++ Q)
  | inside (L : List VirtualMemoryArea) (v : VirtualMemoryArea) (R : List VirtualMemoryArea)
      (whole : vs = L ++ v :: R) (low : v.base < a) (high : a < v.base + v.size)
      (before : P = L ++ [v.left (a - v.base)]) (after : Q = v.right (a - v.base) :: R)

theorem splitAt_cut (h : Tiles lo vs hi) (low : lo ≤ a)
    (high : a ≤ hi) (split : splitAt a vs = P ++ Q) (hP : Tiles lo P a) : Cut vs a P Q := by
  rcases boundary_or_inside h low high with ⟨L, R, rfl, hl, hr⟩ | ⟨L, v, R, rfl, h1, h2⟩
  · rw [splitAt_boundary hl hr] at split
    exact .boundary split
  · have pieces := splitAt_inside h h1 h2
    rw [split, List.append_cons] at pieces
    have upTo : Tiles lo (L ++ [v.left (a - v.base)]) a := by
      refine tiles_middle.mpr ⟨(tiles_middle.mp h).1, ?_, ?_⟩ <;>
        simp only [left, segment_base, segment_size, Tiles] <;> omega
    obtain ⟨before, after⟩ := hP.unique_cut pieces upTo
    exact .inside L v R rfl h1 h2 before after

section

/-- A relation between neighbours that holds for the pieces of an area as for the whole. -/
structure Splits (r : VirtualMemoryArea → VirtualMemoryArea → Prop) : Prop where
  left : ∀ x v offset, r x v → r x (v.left offset)
  right : ∀ v x offset, offset ≤ v.size → r v x → r (v.right offset) x

variable {r : VirtualMemoryArea → VirtualMemoryArea → Prop}

theorem Cut.isChain (splits : Splits r) (cut : Cut vs a P Q)
    (h : vs.IsChain r) : P.IsChain r ∧ Q.IsChain r := by
  cases cut with
  | boundary whole =>
    obtain ⟨left, right, _⟩ := List.isChain_append.mp (whole ▸ h)
    exact ⟨left, right⟩
  | inside L v R whole low high before after =>
    subst whole before after
    obtain ⟨left, right, meet⟩ := List.isChain_append.mp h
    rw [List.isChain_cons] at right
    refine ⟨List.isChain_append.mpr ⟨left, List.isChain_singleton _, ?_⟩,
      List.isChain_cons.mpr ⟨?_, right.2⟩⟩
    · intro x hx y hy
      cases hy
      exact splits.left x v _ (meet x hx v rfl)
    · exact fun x hx => splits.right v x _ (by omega) (right.1 x hx)

theorem splitAt_append_right (hP : Tiles lo P b) (hQ : Tiles b Q hi) (low : lo ≤ a) (high : a ≤ b) :
    splitAt a (P ++ Q) = splitAt a P ++ Q := by
  have whole : Tiles lo (P ++ Q) hi := tiles_append.mpr ⟨b, hP, hQ⟩
  rcases boundary_or_inside hP low high with ⟨L, R, rfl, hl, hr⟩ | ⟨L, v, R, rfl, h1, h2⟩
  · rw [splitAt_boundary hl hr, List.append_assoc,
      splitAt_boundary hl (tiles_append.mpr ⟨b, hr, hQ⟩)]
  · rw [splitAt_inside hP h1 h2, List.append_assoc, List.cons_append]
    rw [List.append_assoc, List.cons_append] at whole
    rw [splitAt_inside whole h1 h2, List.append_assoc, List.cons_append, List.cons_append]

theorem isChain_carved (splits : Splits r) (laid : Laid lo vs hi) (low : lo ≤ a) (hab : a < b)
    (high : b ≤ hi) (h : vs.IsChain r) (carved : splitAt a (splitAt b vs) = L ++ mid :: R)
    (start : mid.base = a) (ends : mid.base + mid.size = b) : L.IsChain r ∧ R.IsChain r := by
  obtain ⟨laid₁, _, P, Q, split₁, hP, hQ⟩ := laid.splitAt (Nat.le_trans low (Nat.le_of_lt hab)) high
  obtain ⟨minP, minQ⟩ := (splitAt_cut laid.tiles (by omega) high split₁ hP).isChain splits h
  have laidP : Laid lo P b := ⟨hP, fun v hv => laid₁.backed v (split₁ ▸ List.mem_append_left Q hv)⟩
  obtain ⟨laid₂, _, P₁, P₂, split₂, hP₁, hP₂⟩ := laidP.splitAt low (Nat.le_of_lt hab)
  obtain ⟨minP₁, _⟩ := (splitAt_cut hP low (Nat.le_of_lt hab) split₂ hP₁).isChain splits minP
  rw [split₁, splitAt_append_right hP hQ low (Nat.le_of_lt hab), split₂, List.append_assoc]
    at carved
  have tiles : Tiles lo (L ++ mid :: R) hi := by
    rw [← carved]
    exact tiles_append.mpr ⟨a, hP₁, tiles_append.mpr ⟨b, hP₂, hQ⟩⟩
  obtain ⟨hL, pos, _⟩ := tiles_middle.mp tiles
  obtain ⟨rfl, rest⟩ := hP₁.unique_cut carved (start ▸ hL)
  have one : Tiles a [mid] b := ⟨start, pos, start ▸ ends⟩
  obtain ⟨_, rfl⟩ := hP₂.unique_cut (rest.trans (List.singleton_append).symm) one
  exact ⟨minP₁, minQ⟩

end

theorem splits_mergeable : Splits fun v n => v.mergeable n = false where
  left _ _ _ apart := apart
  right _ x _ inside apart := (mergeable_right_left x inside).trans apart

end Layout
namespace VMManager
section
variable {vs A M B : List VirtualMemoryArea} {target size : Nat}
  {f : VirtualMemoryArea → VirtualMemoryArea} {F : AddressInfo → AddressInfo}

/-- The range ends strictly inside an area `V` that starts in it, and the area before `V` can
be merged with `V` once `f` has been applied to it. The loop then absorbs the first piece of
`V` and never stands on it, so nothing looks at the piece behind the range. -/
def Stranded (f : VirtualMemoryArea → VirtualMemoryArea) (vs : List VirtualMemoryArea)
    (target targetEnd : Nat) : Prop :=
  ∃ L W V R, vs = L ++ W :: V :: R ∧ target < V.base ∧ V.base < targetEnd ∧
    targetEnd < V.base + V.size ∧ (f W).mergeable V = true

theorem Window.cuts (w : Window vs target size A M B) (laid : Laid 0 vs maxAddress) :
    ∃ Q, Cut vs target A Q ∧ Cut Q (target + size) M B ∧ Tiles target Q maxAddress := by
  have low := (tiles_append.mpr ⟨_, w.middle, w.after⟩).le
  have high := w.after.le
  obtain ⟨_, _, P, Q, split₁, hP, hQ⟩ := laid.splitAt (Nat.zero_le target) low
  have split := w.cut
  rw [split₁, splitAt_append hP (Nat.le_add_right target size)] at split
  obtain ⟨rfl, split₂⟩ := hP.unique_cut split w.before
  exact ⟨Q, splitAt_cut laid.tiles (Nat.zero_le _) low split₁ hP,
    splitAt_cut hQ (Nat.le_add_right _ _) high split₂ w.middle, hQ⟩

theorem Window.unmergeable (acts : Acts f F) (w : Window vs target size A M B)
    (laid : Laid 0 vs maxAddress) (h : Unmergeable vs) (pos : 0 < size)
    (last : ∀ L v n, M = L ++ [v, n] → (f v).mergeable n = true → Meet [n] B) :
    Unmergeable (sweep f (target + size) A.reverse (M ++ B)) := by
  obtain ⟨Q, cut₁, cut₂, _⟩ := w.cuts laid
  obtain ⟨hA, hQ⟩ := cut₁.isChain splits_mergeable h
  obtain ⟨hM, hB⟩ := cut₂.isChain splits_mergeable hQ
  refine unmergeable_sweep acts (by rw [List.reverse_reverse]; exact w.laid) ?_
    (by rwa [List.reverse_reverse]) hM hB ?_ last
  · rw [List.reverse_reverse]
    exact tiles_append.mpr ⟨target, w.before, w.middle⟩
  · intro none_left
    have middle := w.middle
    rw [none_left] at middle
    have : target = target + size := middle
    omega

theorem Window.last_of_not_stranded
    (alike : ∀ v offset x, offset ≤ v.size → (f (v.right offset)).mergeable x = (f v).mergeable x)
    (w : Window vs target size A M B) (laid : Laid 0 vs maxAddress) (h : Unmergeable vs)
    (clean : ¬ Stranded f vs target (target + size)) :
    ∀ L v n, M = L ++ [v, n] → (f v).mergeable n = true → Meet [n] B := by
  obtain ⟨Q, cut₁, cut₂, hQ⟩ := w.cuts laid
  have minQ := (cut₁.isChain splits_mergeable h).2
  intro L v n split same
  cases cut₂ with
  | boundary whole =>
    subst split whole
    have meet := (unmergeable_append.mp minQ).2.2
    exact fun x hx => meet x (by simpa using hx)
  | inside L₁ V R₁ whole low high before after =>
    rw [split, List.append_cons L v [n]] at before
    obtain ⟨rfl, last⟩ := List.append_inj' before rfl
    obtain rfl : n = V.left (target + size - V.base) := List.head_eq_of_cons_eq last
    have same : (f v).mergeable V = true := same
    rw [List.append_assoc] at whole
    subst whole
    have above : target < V.base := by
      have start := (hQ.bounds (show v ∈ L ++ v :: V :: R₁ by simp))
      obtain ⟨_, _, next, _⟩ := tiles_middle.mp hQ
      simp only [segment_base, segment_size] at start next
      omega
    refine False.elim (clean ?_)
    cases cut₁ with
    | boundary whole => exact ⟨A ++ L, v, V, R₁, by simp [whole], above, low, high, same⟩
    | inside L₀ U R₀ whole low' high' before' after' =>
      cases L with
      | nil =>
        obtain ⟨rfl, rfl⟩ := List.cons.inj after'
        rw [alike U _ V (by omega)] at same
        exact ⟨L₀, U, V, R₁, whole, above, low, high, same⟩
      | cons l L =>
        obtain ⟨rfl, rest⟩ := List.cons.inj after'
        exact ⟨L₀ ++ U :: L, v, V, R₁, by simp [whole, ← rest], above, low, high, same⟩

end

/-- `CanBeMergedWith` is false for every two neighbouring areas. -/
def Canonical (vm : VMManager) : Prop :=
  vm.areas.IsChain fun v n => v.canBeMergedWith n = .ok false

instance (vm : VMManager) : Decidable (Canonical vm) :=
  inferInstanceAs (Decidable (List.IsChain _ _))

theorem canonical_iff {vm : VMManager} (inv : Inv vm) : Canonical vm ↔ Unmergeable vm.areas := by
  have step : ∀ (rest : List VirtualMemoryArea) (L : List VirtualMemoryArea),
      LaidOut vm.vmaMap (L ++ rest) → (rest.IsChain (fun v n => v.canBeMergedWith n = .ok false) ↔
        Unmergeable rest) := by
    intro rest
    induction rest with
    | nil => exact fun _ _ => iff_of_true List.isChain_nil List.isChain_nil
    | cons v rest ih =>
      intro L h
      cases rest with
      | nil => exact iff_of_true (List.isChain_singleton v) (List.isChain_singleton v)
      | cons n rest =>
        have later := ih (L ++ [v]) (by rwa [List.append_assoc])
        unfold Unmergeable at later ⊢
        rw [List.isChain_cons_cons, List.isChain_cons_cons, later, canBeMergedWith_at h]
        simp only [Except.ok.injEq]
  exact step vm.areas [] inv.laidOut

/-- The steps that keep a layout canonical: a range that is reprotected or changes its state
does not end in an area that is absorbed before the loop reaches it. -/
def Op.Clean (vm : VMManager) : Op → Prop
  | .reprotectRange target size newPerms => Mapped vm.areas target size →
      ¬ Stranded (protectAttributes newPerms) vm.areas target (target + size)
  | .changeMemoryState target size expectedState expectedPerms newState newPerms =>
    Mapped vm.areas target size → Expected vm.areas target size expectedState expectedPerms →
      ¬ Stranded (changeAttributes newState newPerms) vm.areas target (target + size)
  | _ => True

theorem Swept.unmergeable {f : VirtualMemoryArea → VirtualMemoryArea} {F : AddressInfo → AddressInfo}
    {vs vs' : List VirtualMemoryArea} {target size : Nat} (acts : Acts f F)
    (swept : Swept f target size vs vs') (laid : Laid 0 vs maxAddress) (h : Unmergeable vs)
    (pos : 0 < size)
    (alike : ∀ v offset x, offset ≤ v.size → (f (v.right offset)).mergeable x = (f v).mergeable x)
    (clean : ¬ Stranded f vs target (target + size)) : Unmergeable vs' := by
  obtain ⟨A, M, B, w, rfl⟩ := swept
  exact w.unmergeable acts laid h pos (w.last_of_not_stranded alike laid h clean)

theorem unmergeable_reprotected {L R : List VirtualMemoryArea} {v : VirtualMemoryArea}
    (h : Unmergeable (L ++ v :: R)) : Unmergeable (Cursor.merge ⟨L.reverse, w, R⟩).areas := by
  obtain ⟨left, right, _⟩ := unmergeable_append.mp h
  refine unmergeable_merge ?_ (unmergeable_cons.mp right).2
  rwa [List.reverse_reverse]

theorem unmergeable_mapped {vs before after : List VirtualMemoryArea} {target size : Nat}
    (laid : Laid 0 vs maxAddress) (valid : ValidRange target size)
    (h : Unmergeable vs) (carved : Carved vs target size before mid after) :
    Unmergeable (Cursor.merge ⟨before, w, after⟩).areas := by
  have pos := valid.nonempty
  have ends : mid.base + mid.size = target + size := by rw [carved.start, carved.length]
  obtain ⟨left, right⟩ := isChain_carved splits_mergeable laid (Nat.zero_le target)
    (show target < target + size by omega) valid.fits h carved.cut carved.start ends
  exact unmergeable_merge left right

theorem alike_protect (newPerms : VMAPermission) (v x : VirtualMemoryArea)
    (inside : offset ≤ v.size) : (protectAttributes newPerms (v.right offset)).mergeable x =
      (protectAttributes newPerms v).mergeable x := by
  have pieces : ((protectAttributes newPerms v).right offset).mergeable x = _ :=
    mergeable_right_left x inside
  exact pieces

theorem alike_change (newState : MemoryState) (newPerms : VMAPermission)
    (v x : VirtualMemoryArea) (inside : offset ≤ v.size) :
    (changeAttributes newState newPerms (v.right offset)).mergeable x =
      (changeAttributes newState newPerms v).mergeable x := by
  have pieces : ((changeAttributes newState newPerms v).right offset).mergeable x = _ :=
    mergeable_right_left x inside
  exact pieces

theorem unmergeable_step {vm vm' : VMManager} {op : Op} {reply : ResultVal Nat} (inv : Inv vm)
    (valid : op.Valid vm) (clean : op.Clean vm) (h : Unmergeable vm.areas)
    (run : op.run vm = .ok (reply, vm')) : Unmergeable vm'.areas := by
  have laid := inv.laidOut.laid
  cases (refined_of_run inv valid run).becomes with
  | refused _ same => exact same ▸ h
  | mapped _ range carved areas =>
    rw [areas]
    exact unmergeable_mapped laid range h carved
  | unmapped range mapped swept =>
    obtain ⟨A, M, B, w, same⟩ := swept
    rw [same]
    refine w.unmergeable acts_free laid h range.nonempty ?_
    -- a freed area fits free areas only, and the range has none
    intro L v n split fit
    obtain ⟨_, _, type, _⟩ := mergeable_iff.mp fit
    exact False.elim (w.mapped mapped n (by simp [split]) type.symm)
  | reprotected split areas =>
    rw [split] at h
    rw [areas]
    exact unmergeable_reprotected h
  | @rangeReprotected _ _ newPerms range mapped swept =>
    refine swept.unmergeable (acts_protect newPerms) laid h range.nonempty ?_ (clean mapped)
    exact fun v offset x inside => alike_protect newPerms v x inside
  | @changed _ _ _ newState _ newPerms range mapped expected swept =>
    refine swept.unmergeable (acts_change newState newPerms) laid h range.nonempty ?_
      (clean mapped expected)
    exact fun v offset x inside => alike_change newState newPerms v x inside

/-- Every run of clean calls keeps the layout canonical. -/
theorem canonical_of_clean {vm : VMManager}
    (h : Reachable (fun vm op => op.Valid vm ∧ op.Clean vm) vm) : Canonical vm := by
  have inv := h.inv fun _ _ allowed => allowed.1
  refine (canonical_iff inv).mpr ?_
  induction h with
  | reset run =>
    obtain ⟨_, _, run⟩ := bind_eq_ok.mp run
    cases run
    exact List.isChain_singleton _
  | call before allowed run ih =>
    have inv := before.inv fun _ _ allowed => allowed.1
    exact unmergeable_step inv allowed.1 allowed.2 (ih inv) run

/-- Two pages are mapped and the second is unmapped again. -/
theorem canonical_of_clean_mapped : ∃ vm vm', reset ⟨Map.empty, false⟩ = .ok vm ∧
    runAll vm [.mapBackingMemory 0x1000 ⟨some ⟨0, 0x3000⟩, 0⟩ 0x2000 .«private»,
      .unmapRange 0x2000 0x1000] = .ok vm' ∧ Canonical vm' := by
  have start : reset ⟨Map.empty, false⟩ = .ok _ := rfl
  have allowed : ∀ op ∈ [Op.mapBackingMemory 0x1000 ⟨some ⟨0, 0x3000⟩, 0⟩ 0x2000 .«private»,
      .unmapRange 0x2000 0x1000], ∀ vm, op.Valid vm ∧ op.Clean vm := by
    simp only [List.forall_mem_cons]
    exact ⟨fun _ => ⟨⟨⟨rfl, rfl, by decide, by decide⟩, nofun, by decide⟩, True.intro⟩,
      fun _ => ⟨⟨rfl, rfl, by decide, by decide⟩, True.intro⟩, nofun⟩
  obtain ⟨vm', run⟩ := runAll_total (reset_inv start) (fun op hop vm => (allowed op hop vm).1)
    (by simp [Op.Finds])
  exact ⟨_, vm', start, run, canonical_of_clean ((Reachable.reset start).runAll allowed run)⟩

/-- Three pages of one block, the last two made read-only, then the first two. -/
def strandedCalls : List Op :=
  [.mapBackingMemory 0x1000 ⟨some ⟨0, 0x3000⟩, 0⟩ 0x3000 .«private»,
    .reprotectRange 0x2000 0x2000 .read, .reprotectRange 0x1000 0x2000 .read]

theorem strandedCalls_valid : ∀ op ∈ strandedCalls, ∀ vm, Op.Valid vm op := by
  simp only [strandedCalls, List.forall_mem_cons]
  exact ⟨fun _ => ⟨⟨rfl, rfl, by decide, by decide⟩, nofun, by decide⟩,
    fun _ => ⟨rfl, rfl, by decide, by decide⟩, fun _ => ⟨rfl, rfl, by decide, by decide⟩, nofun⟩

set_option maxRecDepth 8000 in
theorem canonical_fails : ¬ ∀ vm, Reachable (fun vm op => op.Valid vm) vm → Canonical vm := by
  have start : reset ⟨Map.empty, false⟩ = .ok ⟨Map.empty.insert 0 { size := maxAddress }, false⟩ :=
    rfl
  have run : ∃ vm, runAll ⟨Map.empty.insert 0 { size := maxAddress }, false⟩ strandedCalls =
      .ok vm ∧ ¬ Canonical vm := by
    have bad : (match runAll ⟨Map.empty.insert 0 { size := maxAddress }, false⟩ strandedCalls with
      | .ok vm => decide (Canonical vm)
      | .error _ => true) = false := by decide
    split at bad
    · exact ⟨_, ‹_›, of_decide_eq_false bad⟩
    · exact nomatch bad
  intro all
  obtain ⟨vm, run, bad⟩ := run
  exact bad (all vm ((Reachable.reset start).runAll strandedCalls_valid run))

end VMManager
end EmuThreeDS
