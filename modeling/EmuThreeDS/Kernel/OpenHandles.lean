import EmuThreeDS.Kernel.HandleTable

/-!
# What a handle table represents

The slots split into the free list and the slots of the open handles. A close puts its slot
back at the head of the list, so the split is kept by every call, as long as the handle
closed is one that was issued: `GetSlot` drops bit 31, and a handle with that bit set finds
the slot of the handle without it.
-/
namespace EmuThreeDS
namespace HandleTable

variable {O : Type} {t : HandleTable O} {opened : Opened O} {slots : List Nat} {handle : Nat}

structure Stored (t : HandleTable O) (entry : Nat × O) : Prop where
  small : entry.1 < 0x80000000
  positive : 0 < getGeneration entry.1
  object : t.objects (getSlot entry.1) = some entry.2
  generation : t.generations (getSlot entry.1) = getGeneration entry.1

structure Tracks (t : HandleTable O) (opened : Opened O) (slots : List Nat) : Prop where
  chain : LinkedChain.Visits id maxCount t.generations t.nextFreeSlot slots
  split : (slots ++ opened.map fun entry => getSlot entry.1).Perm (List.range maxCount)
  null : ∀ slot ∈ slots, t.objects slot = none
  stored : ∀ entry ∈ opened, Stored t entry
  positive : 0 < t.nextGeneration
  bounded : t.nextGeneration < 0x8000

theorem tracks_clear (positive : 0 < t.nextGeneration) (bounded : t.nextGeneration < 0x8000) :
    Tracks t.clear [] (List.range maxCount) where
  chain := by
    rw [List.range_eq_range']
    exact (Nat.zero_add maxCount) ▸ LinkedChain.visits_range 0 maxCount
  split := by simp
  null := fun _ _ => rfl
  stored := fun _ none => absurd none List.not_mem_nil
  positive := positive
  bounded := bounded

theorem tracks_new : Tracks (new : HandleTable O) [] (List.range maxCount) :=
  tracks_clear Nat.one_pos (show 1 < 0x8000 by decide)

variable {slot generation : Nat} {entry : Nat × O}

section

variable (h : Tracks t opened slots)
include h

theorem Tracks.slot_lt (inside : slot ∈ slots) : slot < maxCount :=
  List.mem_range.mp (h.split.subset (List.mem_append_left _ inside))

theorem Tracks.distinct : (slots ++ opened.map fun entry => getSlot entry.1).Nodup :=
  h.split.nodup_iff.mpr List.nodup_range

theorem Tracks.mem_slots : slot ∈ slots ↔ slot < maxCount ∧ t.objects slot = none := by
  constructor
  · intro inside
    exact ⟨h.slot_lt inside, h.null slot inside⟩
  · rintro ⟨below, empty⟩
    rcases List.mem_append.mp (h.split.symm.subset (List.mem_range.mpr below)) with inside | used
    · exact inside
    · obtain ⟨entry, member, rfl⟩ := List.mem_map.mp used
      have full := (h.stored entry member).object
      rw [empty] at full
      cases full

theorem Tracks.entry_slot (member : entry ∈ opened) :
    getSlot entry.1 < maxCount ∧ getSlot entry.1 ∉ slots := by
  have used : getSlot entry.1 ∈ opened.map fun entry => getSlot entry.1 :=
    List.mem_map_of_mem member
  constructor
  · exact List.mem_range.mp (h.split.subset (List.mem_append_right _ used))
  · intro free
    exact (List.disjoint_of_nodup_append h.distinct) free used

theorem Tracks.full_iff : t.nextFreeSlot ≥ maxCount ↔ opened.length = maxCount := by
  have total := h.split.length_eq
  rw [List.length_append, List.length_map, List.length_range] at total
  cases slots with
  | nil =>
    have head : t.nextFreeSlot = maxCount := h.chain
    simp only [List.length_nil] at total
    omega
  | cons slot rest =>
    have head : t.nextFreeSlot = slot := h.chain.1
    have below := h.slot_lt (List.mem_cons_self ..)
    simp only [List.length_cons] at total
    omega

end

theorem slot_handle (below : slot < maxCount)
    (small : generation < 0x8000) : getSlot (generation ||| (slot <<< 15)) = slot := by
  have bound : slot < 4096 := below
  rw [getSlot_eq, handle_eq slot small]
  omega

theorem generation_handle (slot : Nat) (small : generation < 0x8000) :
    getGeneration (generation ||| (slot <<< 15)) = generation := by
  rw [getGeneration_eq, handle_eq slot small]
  omega

theorem create_ok (room : ¬ t.nextFreeSlot ≥ maxCount) (object : O) :
    t.create object = (.ok (t.nextGeneration ||| (t.nextFreeSlot <<< 15)),
      { objects := Function.update t.objects t.nextFreeSlot (some object)
        generations := Function.update t.generations t.nextFreeSlot t.nextGeneration
        nextGeneration := if t.nextGeneration + 1 ≥ 1 <<< 15 then 1 else t.nextGeneration + 1
        nextFreeSlot := t.generations t.nextFreeSlot }) := by
  unfold create
  rw [if_neg room]

theorem Stored.other {t' : HandleTable O} (h : Stored t entry)
    (objects : t'.objects (getSlot entry.1) = t.objects (getSlot entry.1))
    (generations : t'.generations (getSlot entry.1) = t.generations (getSlot entry.1)) :
    Stored t' entry :=
  ⟨h.small, h.positive, objects.trans h.object, generations.trans h.generation⟩

theorem Tracks.create (h : Tracks t opened slots) (object : O) :
    ∃ slots', Tracks (t.create object).2 (opened.issue (t.create object).1 object) slots' := by
  by_cases full : t.nextFreeSlot ≥ maxCount
  · refine ⟨slots, ?_⟩
    unfold HandleTable.create
    rw [if_pos full]
    exact h
  rw [create_ok full]
  cases slots with
  | nil => exact absurd (le_of_eq h.chain.symm) full
  | cons slot rest =>
    have head : t.nextFreeSlot = slot := h.chain.1
    have below := h.slot_lt (List.mem_cons_self ..)
    have bound : slot < 4096 := below
    have fresh : slot ∉ rest := by
      have distinct := h.distinct
      rw [List.cons_append, List.nodup_cons] at distinct
      exact fun inside => distinct.1 (List.mem_append_left _ inside)
    have positive := h.positive
    have bounded := h.bounded
    subst head
    refine ⟨rest, ?_, ?_, ?_, ?_, ?_, ?_⟩
    · apply h.chain.2.congr
      intro j inside
      have other : j ≠ t.nextFreeSlot := by
        rintro rfl
        exact fresh inside
      exact Function.update_of_ne other ..
    · refine List.Perm.trans ?_ h.split
      simp only [Opened.issue, List.map_cons, slot_handle below bounded]
      exact List.perm_middle
    · intro j inside
      have other : j ≠ t.nextFreeSlot := by
        rintro rfl
        exact fresh inside
      exact (Function.update_of_ne other ..).trans (h.null j (List.mem_cons_of_mem _ inside))
    · intro entry member
      rcases List.mem_cons.mp member with rfl | old
      · refine ⟨?_, ?_, ?_, ?_⟩
        · simp only [handle_eq _ bounded]
          omega
        · rw [generation_handle _ bounded]
          exact positive
        · rw [slot_handle below bounded]
          exact Function.update_self ..
        · rw [slot_handle below bounded, generation_handle _ bounded]
          exact Function.update_self ..
      · have other : getSlot entry.1 ≠ t.nextFreeSlot := fun same =>
          (h.entry_slot old).2 (same ▸ List.mem_cons_self ..)
        exact (h.stored entry old).other (Function.update_of_ne other ..)
          (Function.update_of_ne other ..)
    · split_ifs
      · exact Nat.one_pos
      · exact Nat.succ_pos _
    · dsimp only
      split_ifs with wrapped
      · decide
      · exact not_le.mp wrapped

theorem create_error (full : t.nextFreeSlot ≥ maxCount) (object : O) :
    t.create object = (.error .outOfHandles, t) := by
  unfold HandleTable.create
  rw [if_pos full]

theorem close_ok (valid : t.isValid handle = true) :
    t.close handle = (.ok (),
      { t with
        objects := Function.update t.objects (getSlot handle) none
        generations := Function.update t.generations (getSlot handle) t.nextFreeSlot
        nextFreeSlot := getSlot handle }) := by
  unfold HandleTable.close
  rw [valid]
  rfl

theorem close_error (invalid : t.isValid handle = false) :
    t.close handle = (.error .invalidHandle, t) := by
  unfold HandleTable.close
  rw [invalid]
  rfl

theorem Tracks.entry_of_valid (h : Tracks t opened slots) (valid : t.isValid handle = true) :
    ∃ entry ∈ opened, getSlot entry.1 = getSlot handle ∧
      getGeneration entry.1 = getGeneration handle := by
  obtain ⟨below, full, generation⟩ := isValid_iff.mp valid
  rcases List.mem_append.mp (h.split.symm.subset (List.mem_range.mpr below)) with free | used
  · rw [h.null _ free] at full
    cases full
  · obtain ⟨entry, member, same⟩ := List.mem_map.mp used
    refine ⟨entry, member, same, ?_⟩
    rw [← (h.stored entry member).generation, same, generation]

theorem plain_unique {other : Nat} (plain : handle < 0x80000000) (plain' : other < 0x80000000)
    (slot : getSlot other = getSlot handle)
    (generation : getGeneration other = getGeneration handle) : other = handle := by
  rw [getSlot_eq, getSlot_eq] at slot
  rw [getGeneration_eq, getGeneration_eq] at generation
  omega

theorem Tracks.close (h : Tracks t opened slots) (plain : handle < 0x80000000)
    (valid : t.isValid handle = true) :
    Tracks (t.close handle).2 (opened.eraseP fun entry => entry.1 = handle)
      (getSlot handle :: slots) := by
  obtain ⟨entry, member, slot, generation⟩ := h.entry_of_valid valid
  have same := plain_unique plain (h.stored entry member).small slot generation
  obtain ⟨found, before, after, _, isHandle, whole, left⟩ :=
    List.exists_of_eraseP member (p := fun entry => entry.1 = handle) (decide_eq_true same)
  have isHandle : found.1 = handle := of_decide_eq_true isHandle
  have split := h.split
  have distinct := h.distinct
  rw [whole, List.map_append, List.map_cons, isHandle] at split distinct
  rw [left]
  have others : ∀ entry ∈ before ++ after, entry ∈ opened ∧ getSlot entry.1 ≠ getSlot handle := by
    intro entry inside
    constructor
    · rw [whole]
      exact (List.sublist_cons_self found after).append_left before |>.subset inside
    · intro shared
      have apart := (List.perm_middle.nodup_iff.mp (List.nodup_append.mp distinct).2.1)
      rw [List.nodup_cons, ← List.map_append] at apart
      exact apart.1 (shared ▸ List.mem_map_of_mem inside)
  have fresh : getSlot handle ∉ slots := by
    intro free
    exact List.disjoint_of_nodup_append distinct free (by simp)
  rw [close_ok valid]
  refine ⟨h.chain.push fresh, ?_, ?_, ?_, h.positive, h.bounded⟩
  · refine List.Perm.trans ?_ split
    rw [List.map_append]
    refine List.perm_middle.symm.trans (List.Perm.append_left slots ?_)
    exact List.perm_middle.symm
  · intro slot inside
    rcases List.mem_cons.mp inside with rfl | old
    · exact Function.update_self ..
    · have other : slot ≠ getSlot handle := by
        rintro rfl
        exact fresh old
      exact (Function.update_of_ne other ..).trans (h.null slot old)
  · intro entry inside
    obtain ⟨old, other⟩ := others entry inside
    exact (h.stored entry old).other (Function.update_of_ne other ..)
      (Function.update_of_ne other ..)

/-- The condition on a call: it closes no handle with bit 31 set that the table takes for
another one. -/
def Call.Plain (t : HandleTable O) : Call O → Prop
  | .close handle => t.isValid handle = true → handle < 0x80000000
  | _ => True

theorem Tracks.call (h : Tracks t opened slots) (call : Call O) (plain : call.Plain t) :
    ∃ slots', Tracks (call.run t).2 (call.track t opened) slots' := by
  cases call with
  | create object => exact h.create object
  | duplicate handle thread process =>
    unfold Call.run Call.track HandleTable.duplicate
    dsimp only
    cases t.getGeneric handle thread process with
    | none => exact ⟨slots, h⟩
    | some object => exact h.create object
  | close handle =>
    cases valid : t.isValid handle with
    | true =>
      have closed := h.close (plain valid) valid
      refine ⟨getSlot handle :: slots, ?_⟩
      simp only [Call.run, Call.track, close_ok valid] at closed ⊢
      exact closed
    | false =>
      refine ⟨slots, ?_⟩
      simp only [Call.run, Call.track, close_error valid]
      exact h
  | clear => exact ⟨_, tracks_clear h.positive h.bounded⟩

theorem Reachable.tracks {s : HandleTable O × Opened O}
    (h : Reachable (fun s call => call.Plain s.1) s) : ∃ slots, Tracks s.1 s.2 slots := by
  apply h.invariant
  · rintro _ rfl
    exact ⟨_, tracks_new⟩
  · rintro s call _ ⟨slots, tracks⟩ plain rfl
    exact tracks.call call plain

theorem Call.failed {call : Call O} {e : ResultCode} (fails : (call.run t).1 = .error e) :
    (call.run t).2 = t := by
  have created : ∀ object, (t.create object).1.map some = .error e → (t.create object).2 = t := by
    intro object fails
    by_cases full : t.nextFreeSlot ≥ maxCount
    · rw [create_error full]
    · rw [create_ok full] at fails
      cases fails
  cases call with
  | create object => exact created object fails
  | duplicate handle thread process =>
    unfold Call.run HandleTable.duplicate at fails ⊢
    dsimp only at fails ⊢
    cases known : t.getGeneric handle thread process with
    | none => rfl
    | some object =>
      rw [known] at fails
      exact created object fails
  | close handle =>
    cases valid : t.isValid handle with
    | true =>
      simp only [Call.run, close_ok valid] at fails
      cases fails
    | false => simp only [Call.run, close_error valid]
  | clear => cases fails

structure Represents (t : HandleTable O) (opened : Opened O) : Prop where
  freeList : ∃ slots, LinkedChain.Visits id maxCount t.generations t.nextFreeSlot slots ∧
    slots.Nodup ∧ ∀ slot, slot ∈ slots ↔ slot < maxCount ∧ t.objects slot = none
  distinct : (opened.map Prod.fst).Nodup
  nonzero : ∀ entry ∈ opened, entry.1 ≠ 0
  found : ∀ entry ∈ opened, ∀ thread process, t.getGeneric entry.1 thread process = some entry.2
  full : ∀ object, (∃ e, (t.create object).1 = .error e) ↔ opened.length = maxCount
  failed : ∀ (call : Call O) (e : ResultCode), (call.run t).1 = .error e → (call.run t).2 = t

theorem Tracks.found (h : Tracks t opened slots) (member : entry ∈ opened)
    (thread process : Option O) : t.getGeneric entry.1 thread process = some entry.2 := by
  have stored := h.stored entry member
  have small := stored.small
  have valid : t.isValid entry.1 = true := by
    apply isValid_iff.mpr
    refine ⟨(h.entry_slot member).1, ?_, stored.generation⟩
    rw [stored.object]
    rfl
  unfold getGeneric currentThread currentProcess
  rw [if_neg (by omega), if_neg (by omega), if_pos valid]
  exact stored.object

theorem Tracks.represents (h : Tracks t opened slots) : Represents t opened where
  freeList := ⟨slots, h.chain, (List.nodup_append.mp h.distinct).1, fun _ => h.mem_slots⟩
  distinct := by
    have apart : ((opened.map Prod.fst).map getSlot).Nodup := by
      rw [List.map_map]
      exact (List.nodup_append.mp h.distinct).2.1
    exact apart.of_map _
  nonzero := by
    intro entry member zero
    have positive := (h.stored entry member).positive
    rw [zero] at positive
    exact absurd positive (by decide)
  found := fun entry member => h.found member
  full := by
    intro object
    rw [← h.full_iff]
    constructor
    · rintro ⟨e, fails⟩
      by_contra room
      rw [create_ok room] at fails
      cases fails
    · intro full
      exact ⟨_, by rw [create_error full]⟩
  failed := fun _ _ => Call.failed

theorem Tracks.not_represents (h : Tracks t opened slots) (high : ¬ handle < 0x80000000)
    (valid : t.isValid handle = true) :
    ¬ Represents (t.close handle).2 (opened.eraseP fun entry => entry.1 = handle) := by
  intro represents
  obtain ⟨entry, member, slot, _⟩ := h.entry_of_valid valid
  have kept : (opened.eraseP fun entry => entry.1 = handle) = opened := by
    apply List.eraseP_of_forall_not
    intro other inside
    have small := (h.stored other inside).small
    simp only [decide_eq_true_eq]
    omega
  rw [kept] at represents
  have found := represents.found entry member none none
  have empty : (t.close handle).2.isValid entry.1 = false := by
    rw [close_ok valid]
    unfold isValid
    rw [slot]
    simp
  have small := (h.stored entry member).small
  unfold getGeneric currentThread currentProcess at found
  rw [if_neg (by omega), if_neg (by omega), empty] at found
  cases found

/-- Whatever the calls, the table represents the handles issued and not closed, as long as no
valid handle with bit 31 set is closed; a call that closes one breaks it. -/
theorem represents_opened {s : HandleTable O × Opened O}
    (h : Reachable (fun s call => call.Plain s.1) s) : Represents s.1 s.2 ∧
      ∀ call : Call O, Represents (call.run s.1).2 (call.track s.1 s.2) ↔ call.Plain s.1 := by
  obtain ⟨slots, tracks⟩ := h.tracks
  refine ⟨tracks.represents, fun call => ⟨?_, ?_⟩⟩
  · intro represents
    cases call with
    | close handle =>
      intro valid
      by_contra high
      simp only [Call.track, close_ok valid] at represents
      apply tracks.not_represents high valid
      exact represents
    | _ => trivial
  · intro plain
    obtain ⟨_, next⟩ := tracks.call call plain
    exact next.represents

theorem represents_opened_created : Represents (create (new : HandleTable Unit) ()).2 [(1, ())] :=
  (represents_opened (s := (_, _)) (.step (a := .create ()) (.start rfl) trivial rfl)).1

/-- Handle 1 is issued, and closing 0x80000001 closes its slot. -/
theorem represents_fails : ¬ ∀ s : HandleTable Unit × Opened Unit,
    Reachable (fun _ _ => True) s → Represents s.1 s.2 := by
  intro all
  have start : Reachable (fun _ _ => True) ((new : HandleTable Unit), []) := .start rfl
  have created := Runs.Reachable.step (a := Call.create ()) start trivial rfl
  have closed := Runs.Reachable.step (a := Call.close 0x80000001) created trivial rfl
  have found := (all _ closed).found (1, ()) (by decide) none none
  revert found
  decide

end HandleTable
end EmuThreeDS
