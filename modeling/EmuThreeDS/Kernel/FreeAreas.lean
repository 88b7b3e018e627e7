import EmuThreeDS.Kernel.Canonical

/-!
# Free areas

As long as the kernel reprotects memory only, every free area has the attributes that `Unmap`
leaves, and no two of them are neighbours: what is free is one area up to the next mapped page.
-/
namespace EmuThreeDS
open Tiling Layout VirtualMemoryArea

namespace Layout

def FreeApart (vs : List VirtualMemoryArea) : Prop :=
  vs.IsChain fun v n => v.type = .free → n.type ≠ .free

def FreeAlike (vs : List VirtualMemoryArea) : Prop := ∀ v ∈ vs, v.type = .free → Freed v

variable {L R M B before rest : List VirtualMemoryArea} {v w n : VirtualMemoryArea}
  {f : VirtualMemoryArea → VirtualMemoryArea} {c : Cursor} {targetEnd : Nat}

theorem splits_free : Splits fun v n => v.type = .free → n.type ≠ .free where
  left _ _ _ apart := apart
  right _ _ _ _ apart := apart

theorem freeApart_append : FreeApart (L ++ v :: R) ↔ FreeApart L ∧ FreeApart R ∧
    (∀ p ∈ L.getLast?, p.type = .free → v.type ≠ .free) ∧
    ∀ n ∈ R.head?, v.type = .free → n.type ≠ .free := by
  unfold FreeApart
  rw [List.isChain_append, List.isChain_cons]
  constructor
  · rintro ⟨left, ⟨next, right⟩, meet⟩
    exact ⟨left, right, fun p hp => meet p hp v rfl, next⟩
  · rintro ⟨left, right, meet, next⟩
    refine ⟨left, ⟨next, right⟩, fun p hp x hx => ?_⟩
    cases hx
    exact meet p hp

theorem FreeApart.replace (h : FreeApart (L ++ v :: R)) (type : w.type = .free → v.type = .free) :
    FreeApart (L ++ w :: R) := by
  obtain ⟨left, right, meet, next⟩ := freeApart_append.mp h
  exact freeApart_append.mpr ⟨left, right, fun p hp free taken => meet p hp free (type taken),
    fun n hn free => next n hn (type free)⟩

theorem freeApart_around (left : FreeApart L) (right : FreeApart R) (taken : v.type ≠ .free) :
    FreeApart (L ++ v :: R) :=
  freeApart_append.mpr ⟨left, right, fun _ _ _ => taken, fun _ _ free => absurd free taken⟩

theorem mergeable_type (h : v.mergeable n = true) : v.type = n.type :=
  (mergeable_iff.mp h).2.2.1

theorem FreeApart.join (h : FreeApart (L ++ v :: n :: R)) (same : v.mergeable n = true) :
    FreeApart (L ++ v.join n :: R) := by
  have type := mergeable_type same
  obtain ⟨left, right, meet, _⟩ := freeApart_append.mp h
  obtain ⟨_, right, _, next⟩ := freeApart_append.mp (show FreeApart ([] ++ n :: R) from right)
  exact freeApart_append.mpr ⟨left, right, meet, fun x hx free => next x hx (type ▸ free)⟩

theorem FreeApart.merge (h : FreeApart c.areas) : FreeApart c.merge.areas :=
  c.merge_rule FreeApart.join h

theorem FreeApart.sweep (types : ∀ v, (f v).type = v.type)
    (h : FreeApart (before.reverse ++ rest)) : FreeApart (sweep f targetEnd before rest) :=
  sweep_rule FreeApart.join (fun _ v _ kept => kept.replace (types v).symm.trans) h

variable {vs : List VirtualMemoryArea}

theorem FreeAlike.splitAt {a : Nat} (alike : FreeAlike vs) : FreeAlike (splitAt a vs) :=
  forall_splitAt id (fun _ _ => id) alike

/-- What is behind a freed area: it absorbs a free neighbour. -/
def behind : List VirtualMemoryArea → List VirtualMemoryArea
  | [] => []
  | n :: rest => if n.type = .free then rest else n :: rest

theorem absorbNext_freed (freed : Freed c.here) (alike : FreeAlike c.after) :
    c.absorbNext.before = c.before ∧ Freed c.absorbNext.here ∧
      c.absorbNext.after = behind c.after := by
  obtain ⟨type, perms, state⟩ := Cursor.absorbNext_attributes c
  have freed' : Freed c.absorbNext.here :=
    ⟨type.trans freed.1, perms.trans freed.2.1, state.trans freed.2.2⟩
  rcases c with ⟨before, here, _ | ⟨n, rest⟩⟩
  · exact ⟨rfl, freed, rfl⟩
  · refine ⟨?_, freed', ?_⟩
    · unfold Cursor.absorbNext
      simp only
      split_ifs <;> rfl
    · unfold Cursor.absorbNext behind
      simp only
      by_cases free : n.type = .free
      · rw [if_pos (freed.mergeable (alike n List.mem_cons_self free)), if_pos free]
      · have apart : ¬ here.mergeable n = true := fun same =>
          free ((mergeable_type same).symm.trans freed.1)
        rw [if_neg apart, if_neg free]

theorem joinPrev_freed (freed : Freed c.here) (apart : FreeApart c.before.reverse)
    (alike : FreeAlike c.before) :
    FreeApart (c.joinPrev.here :: c.joinPrev.before).reverse ∧ Freed c.joinPrev.here ∧
      FreeAlike c.joinPrev.before ∧ c.joinPrev.after = c.after := by
  rcases c with ⟨_ | ⟨p, before⟩, here, after⟩
  · exact ⟨List.isChain_singleton _, freed, alike, rfl⟩
  · have kept : FreeAlike before := fun v hv => alike v (List.mem_cons_of_mem _ hv)
    unfold Cursor.joinPrev
    simp only
    rw [List.reverse_cons] at apart
    split_ifs with same
    · have free : p.type = .free := (mergeable_type same).trans freed.1
      refine ⟨?_, alike p List.mem_cons_self free, kept, rfl⟩
      rw [List.reverse_cons]
      exact apart.replace fun _ => free
    · refine ⟨?_, freed, alike, rfl⟩
      rw [List.reverse_cons, List.reverse_cons, freeApart_append]
      refine ⟨apart, List.isChain_nil, fun x hx free => ?_, nofun⟩
      rw [List.getLast?_concat] at hx
      cases hx
      exact absurd ((alike p List.mem_cons_self free).mergeable freed) same

theorem behind_taken (taken : ∀ n ∈ rest.head?, n.type ≠ .free) : behind rest = rest := by
  cases rest with
  | nil => rfl
  | cons n rest => exact if_neg (taken n rfl)

theorem behind_apart (h : FreeApart rest) :
    FreeApart (behind rest) ∧ ∀ n ∈ (behind rest).head?, n.type ≠ .free := by
  cases rest with
  | nil => exact ⟨h, nofun⟩
  | cons v rest =>
    obtain ⟨next, apart⟩ := List.isChain_cons.mp h
    rw [behind]
    split_ifs with free
    · exact ⟨apart, fun n hn => next n hn free⟩
    · refine ⟨h, fun n hn => ?_⟩
      cases hn
      exact free

theorem mem_behind (h : v ∈ behind rest) : v ∈ rest := by
  cases rest with
  | nil => exact h
  | cons n rest =>
    rw [behind] at h
    split_ifs at h
    · exact List.mem_cons_of_mem n h
    · exact h

theorem sweep_freeApart (frees : ∀ v, Freed (f v)) (low : ∀ v ∈ M, v.base < targetEnd)
    (high : ∀ v ∈ B, targetEnd ≤ v.base) (mapped : ∀ v ∈ M, v.type ≠ .free)
    (apart : FreeApart before.reverse) (alike : FreeAlike before) (apartB : FreeApart B)
    (alikeB : FreeAlike B) (some_area : M ≠ []) :
    FreeApart (sweep f targetEnd before (M ++ B)) := by
  induction M generalizing before with
  | nil => exact absurd rfl some_area
  | cons v M ih =>
    have alikeM : FreeAlike (M ++ B) := fun x hx free =>
      (List.mem_append.mp hx).elim (fun hx => absurd free (mapped x (List.mem_cons_of_mem v hx)))
        fun hx => alikeB x hx free
    obtain ⟨before₁, freed₁, after₁⟩ :=
      @absorbNext_freed ⟨before, f v, M ++ B⟩ (frees v) alikeM
    rw [List.cons_append, sweep_next (low v List.mem_cons_self)]
    obtain ⟨apart₂, freed₂, alike₂, after₂⟩ := joinPrev_freed freed₁
      (before₁ ▸ apart) (before₁ ▸ alike)
    have after₂ : (Cursor.merge ⟨before, f v, M ++ B⟩).after = behind (M ++ B) :=
      after₂.trans after₁
    have alike₃ : FreeAlike ((Cursor.merge ⟨before, f v, M ++ B⟩).here ::
        (Cursor.merge ⟨before, f v, M ++ B⟩).before) := by
      intro x hx free
      rcases List.mem_cons.mp hx with rfl | hx
      · exact freed₂
      · exact alike₂ x hx free
    rw [after₂]
    cases M with
    | nil =>
      obtain ⟨apart', next⟩ := behind_apart apartB
      have beyond : ∀ r ∈ (behind B).head?, targetEnd ≤ r.base := fun r hr =>
        high r (mem_behind (List.mem_of_mem_head? hr))
      rw [List.nil_append, sweep_done beyond]
      rw [List.reverse_cons, List.append_assoc, List.singleton_append, freeApart_append]
      rw [List.reverse_cons, freeApart_append] at apart₂
      exact ⟨apart₂.1, apart', apart₂.2.2.1, fun n hn _ => next n hn⟩
    | cons m M =>
      have kept : behind (m :: M ++ B) = m :: M ++ B := behind_taken fun n hn => by
        cases hn
        exact mapped m (by simp)
      rw [kept]
      exact ih (fun x hx => low x (List.mem_cons_of_mem v hx))
        (fun x hx => mapped x (List.mem_cons_of_mem v hx)) apart₂ alike₃ (List.cons_ne_nil _ _)

end Layout

namespace VMManager

variable {vm vm' : VMManager} {target size : Nat}

def Op.OnMemory (vm : VMManager) : Op → Prop
  | .reprotect vmaHandle _ => ∀ v, vm.vmaMap.find? vmaHandle = some v → v.type ≠ .free
  | _ => True

abbrev Managed : VMManager → Prop := Reachable fun vm op => op.Valid vm ∧ op.OnMemory vm

theorem managed_fresh : Managed fresh := .reset fresh_reset

theorem Managed.op (op : Op) {reply : ResultVal Nat} (managed : Managed vm) (valid : op.Valid vm)
    (memory : op.OnMemory vm) (run : op.run vm = .ok (reply, vm')) : Managed vm' :=
  .call managed ⟨valid, memory⟩ run

theorem Managed.inv (h : Managed vm) : Inv vm := Reachable.inv (fun _ _ allowed => allowed.1) h

def Plain (i : AddressInfo) : Prop := i.type = .backingMemory ∨ i = ⟨.free, .none, .free, none⟩

theorem Mapped.taken (mapped : Mapped vm.areas target size) {a : Nat} {i : AddressInfo}
    (low : target ≤ a) (high : a < target + size) (here : vm.info a = some i) : i.type ≠ .free := by
  obtain ⟨v, hv, covers, same⟩ := view_some here
  obtain ⟨below, above⟩ : v.base ≤ a ∧ a < v.base + v.size := covers
  have type : v.type = i.type := congrArg AddressInfo.type same
  exact type ▸ mapped v hv ⟨by omega, by omega⟩

def AllPlain (vm : VMManager) : Prop := ∀ a i, vm.info a = some i → Plain i

theorem AllPlain.update (plain : AllPlain vm) {lo hi : Nat} {f : Nat → AddressInfo → AddressInfo}
    (info : vm'.info = updateOn lo hi f vm.info)
    (changed : ∀ a i, lo ≤ a → a < hi → vm.info a = some i → Plain (f a i)) : AllPlain vm' := by
  intro a i here
  rw [info] at here
  by_cases on : lo ≤ a ∧ a < hi
  · rw [updateOn_in on] at here
    obtain ⟨j, before, rfl⟩ := Option.map_eq_some_iff.mp here
    exact changed a j on.1 on.2 before
  · rw [updateOn_out on] at here
    exact plain a i here

theorem AllPlain.same (plain : AllPlain vm) (info : vm'.info = vm.info) : AllPlain vm' := by
  intro a i here
  rw [info] at here
  exact plain a i here

theorem Plain.memory {i j : AddressInfo} (plain : Plain i) (taken : i.type ≠ .free)
    (same : j.type = i.type) : Plain j := by
  rcases plain with memory | rfl
  · exact .inl (same.trans memory)
  · exact absurd rfl taken

theorem allPlain_step {op : Op} (inv : Inv vm) (valid : op.Valid vm)
    (memory : op.OnMemory vm) (plain : AllPlain vm) (run : op.run vm = .ok (reply, vm')) :
    AllPlain vm' := by
  cases op with
  | mapBackingMemory | mapBackingMemoryToBase =>
    have info := (refined_of_run inv valid run).info
    cases reply with
    | error e => exact plain.same info
    | ok value => exact plain.update info fun _ _ _ _ _ => .inl rfl
  | unmapRange target size =>
    have info := (refined_of_run inv valid run).info
    cases reply with
    | error e => exact plain.same info
    | ok value => exact plain.update info fun _ _ _ _ _ => .inr rfl
  | reprotect vmaHandle newPerms =>
    obtain ⟨v, found⟩ := valid
    obtain ⟨_, _, run', _, info, L, R, split, _⟩ := reprotect_info newPerms inv found
    simp only [Op.run, run', ok_bind] at run
    cases run
    refine plain.update info fun a i low high here => (plain a i here).memory ?_ rfl
    have member : v ∈ vm.areas := by
      rw [split]
      simp
    have covers : Covers v a := ⟨low, high⟩
    rw [VMManager.info, inv.laidOut.laid.tiles.view_mem member covers] at here
    cases here
    exact memory v found
  | reprotectRange target size newPerms =>
    rcases reprotectRange_info newPerms inv valid with ⟨_, e, run'⟩ | ⟨mapped, _, run', _, info, _⟩
    · simp only [Op.run, run', ok_bind] at run
      cases run
      exact plain
    · simp only [Op.run, run', ok_bind] at run
      cases run
      exact plain.update info fun a i low high here =>
        (plain a i here).memory (mapped.taken low high here) rfl
  | changeMemoryState target size expectedState expectedPerms newState newPerms =>
    rcases changeMemoryState_info expectedState newState expectedPerms newPerms inv valid with
      ⟨_, e, run'⟩ | ⟨mapped, _, _, run', _, info, _⟩
    · simp only [Op.run, run', ok_bind] at run
      cases run
      exact plain
    · simp only [Op.run, run', ok_bind] at run
      cases run
      exact plain.update info fun a i low high here =>
        (plain a i here).memory (mapped.taken low high here) rfl

theorem reset_areas (run : vm.reset = .ok vm') :
    vm'.areas = [({ size := maxAddress } : VirtualMemoryArea)] := by
  obtain ⟨_, _, run⟩ := bind_eq_ok.mp run
  cases run
  rfl

theorem Managed.plain (h : Managed vm) : AllPlain vm := by
  induction h with
  | reset run =>
    intro a i here
    rw [info, reset_areas run] at here
    obtain ⟨v, hv, _, same⟩ := view_some here
    cases List.mem_singleton.mp hv
    exact .inr same.symm
  | call before allowed run ih =>
    exact allPlain_step (Managed.inv before) allowed.1 allowed.2 ih run

theorem AllPlain.freeAlike (plain : AllPlain vm) (inv : Inv vm) : FreeAlike vm.areas := by
  intro v hv free
  have bounds := (inv.laidOut.laid.tiles.bounds hv).2.1
  simp only [segment_size] at bounds
  have covers : Covers v v.base := ⟨Nat.le_refl _, by
    simp only [segment_base, segment_size]
    omega⟩
  have here := inv.laidOut.laid.tiles.view_mem hv covers
  rcases plain _ _ here with memory | same
  · exact nomatch free.symm.trans memory
  · exact ⟨free, congrArg AddressInfo.permissions same, congrArg AddressInfo.meminfoState same⟩

theorem Window.freeApart {M B : List VirtualMemoryArea} (w : Window vs target size A M B)
    (laid : Laid 0 vs maxAddress) (apart : FreeApart vs) :
    FreeApart A ∧ FreeApart M ∧ FreeApart B := by
  obtain ⟨Q, cut₁, cut₂, _⟩ := w.cuts laid
  obtain ⟨apartA, apartQ⟩ := cut₁.isChain splits_free apart
  obtain ⟨apartM, apartB⟩ := cut₂.isChain splits_free apartQ
  exact ⟨apartA, apartM, apartB⟩

theorem Window.apart {M B : List VirtualMemoryArea} (w : Window vs target size A M B)
    (laid : Laid 0 vs maxAddress) (pos : 0 < size) (mapped : Mapped vs target size)
    (apart : FreeApart vs) : FreeApart (A ++ (M ++ B)) := by
  obtain ⟨apartA, apartM, apartB⟩ := w.freeApart laid apart
  have taken := w.mapped mapped
  cases M with
  | nil =>
    have middle : target = target + size := w.middle
    omega
  | cons v M =>
    refine List.isChain_append.mpr ⟨apartA, List.isChain_append.mpr ⟨apartM, apartB, ?_⟩, ?_⟩
    · intro x hx y _ free
      exact absurd free (taken x (List.mem_of_mem_getLast? hx))
    · intro _ _ y hy _
      cases hy
      exact taken v List.mem_cons_self

theorem Swept.freeApart {f : VirtualMemoryArea → VirtualMemoryArea}
    (swept : Swept f target size vs vs')
    (laid : Laid 0 vs maxAddress) (pos : 0 < size) (mapped : Mapped vs target size)
    (types : ∀ v, (f v).type = v.type) (apart : FreeApart vs) : FreeApart vs' := by
  obtain ⟨A, M, B, w, rfl⟩ := swept
  refine FreeApart.sweep types ?_
  rw [List.reverse_reverse]
  exact w.apart laid pos mapped apart

theorem Swept.freed (swept : Swept freeAttributes target size vs vs') (laid : Laid 0 vs maxAddress)
    (pos : 0 < size) (mapped : Mapped vs target size) (alike : FreeAlike vs)
    (apart : FreeApart vs) : FreeApart vs' := by
  obtain ⟨A, M, B, w, rfl⟩ := swept
  obtain ⟨apartA, _, apartB⟩ := w.freeApart laid apart
  have alike' : FreeAlike (A ++ (M ++ B)) := by
    rw [← w.cut]
    exact alike.splitAt.splitAt
  refine sweep_freeApart (fun _ => ⟨rfl, rfl, rfl⟩) ?_ ?_ (w.mapped mapped) ?_ ?_ apartB ?_ ?_
  · intro v hv
    have bounds := w.middle.bounds hv
    simp only [segment_base, segment_size] at bounds
    omega
  · intro v hv
    exact (w.after.bounds hv).1
  · rwa [List.reverse_reverse]
  · exact fun v hv => alike' v (List.mem_append_left _ (List.mem_reverse.mp hv))
  · exact fun v hv => alike' v (List.mem_append_right _ (List.mem_append_right _ hv))
  · intro none_left
    have middle := w.middle
    rw [none_left] at middle
    have middle : target = target + size := middle
    omega

theorem Carved.freeApart {before after : List VirtualMemoryArea} {mid : VirtualMemoryArea}
    {memory : MemoryRef} {state : MemoryState} (carved : Carved vs target size before mid after)
    (laid : Laid 0 vs maxAddress) (valid : ValidRange target size) (apart : FreeApart vs) :
    FreeApart (Cursor.merge ⟨before, mapAttributes memory state mid, after⟩).areas := by
  have pos := valid.nonempty
  have ends : mid.base + mid.size = target + size := by rw [carved.start, carved.length]
  obtain ⟨left, right⟩ := isChain_carved splits_free laid (Nat.zero_le target)
    (show target < target + size by omega) valid.fits apart carved.cut carved.start ends
  have placed : FreeApart (Cursor.mk before (mapAttributes memory state mid) after).areas :=
    freeApart_around left right nofun
  exact placed.merge

theorem freeApart_step {op : Op} (inv : Inv vm) (valid : op.Valid vm) (alike : FreeAlike vm.areas)
    (apart : FreeApart vm.areas) (run : op.run vm = .ok (reply, vm')) : FreeApart vm'.areas := by
  have laid := inv.laidOut.laid
  cases (refined_of_run inv valid run).becomes with
  | refused _ same => exact same ▸ apart
  | mapped _ range carved areas =>
    rw [areas]
    exact carved.freeApart laid range apart
  | unmapped range mapped swept =>
    exact swept.freed laid range.nonempty mapped alike apart
  | @reprotected _ newPerms v L R split areas =>
    rw [split] at apart
    rw [areas]
    have placed : FreeApart (Cursor.mk L.reverse (protectAttributes newPerms v) R).areas := by
      rw [Cursor.areas, List.reverse_reverse]
      exact apart.replace id
    exact placed.merge
  | rangeReprotected range mapped swept | changed range mapped _ swept =>
    exact swept.freeApart laid range.nonempty mapped (fun _ => rfl) apart

theorem Managed.freeApart (h : Managed vm) : FreeApart vm.areas := by
  induction h with
  | reset run =>
    rw [reset_areas run]
    exact List.isChain_singleton _
  | call before allowed run ih =>
    have inv := Managed.inv before
    exact freeApart_step inv allowed.1 ((Managed.plain before).freeAlike inv) ih run

end VMManager
end EmuThreeDS
