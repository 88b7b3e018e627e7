import EmuThreeDS.Kernel.OpenHandles

/-!
# Valid handles

Each slot remembers the handle that the latest `Create` on it returned, until that handle is
closed. Bit 31 is lost in `GetSlot`: with it set, the handle of a slot is valid a second time.
-/
namespace EmuThreeDS
namespace HandleTable

variable {O : Type} {t : HandleTable O} {handle slot : Nat}

/-- For each slot the handle issued last, if it was not closed since. -/
abbrev Latest := Nat → Option Nat

def Latest.issue (latest : Latest) (slot : Nat) : ResultVal Nat → Latest
  | .ok handle => Function.update latest slot (some handle)
  | .error _ => latest

def Latest.close (latest : Latest) (handle : Nat) : ResultVal Unit → Latest
  | .ok () =>
    if latest (getSlot handle) = some handle then
      Function.update latest (getSlot handle) none
    else latest
  | .error _ => latest

def Call.latest (t : HandleTable O) (latest : Latest) : Call O → Latest
  | .create object => latest.issue t.nextFreeSlot (t.create object).1
  | .duplicate handle thread process =>
    match t.getGeneric handle thread process with
    | none => latest
    | some object => latest.issue t.nextFreeSlot (t.create object).1
  | .close handle => latest.close handle (t.close handle).1
  | .clear => fun _ => none

namespace Latest

abbrev Reachable (allowed : HandleTable O × Latest → Call O → Prop) :=
  Runs.Reachable (fun s : HandleTable O × Latest => s = (new, fun _ => none))
    (fun s call s' => s' = ((call.run s.1).2, call.latest s.1 s.2)) allowed

structure Knows (t : HandleTable O) (latest : Latest) : Prop where
  issued : ∀ slot, (t.objects slot).isSome → ∃ handle, latest slot = some handle
  stored : ∀ slot handle, latest slot = some handle → slot < maxCount ∧ handle < 0x80000000 ∧
    getSlot handle = slot ∧ (t.objects slot).isSome ∧ t.generations slot = getGeneration handle
  bounded : t.nextGeneration < 0x8000

variable {latest : Latest}

theorem knows_clear (bounded : t.nextGeneration < 0x8000) : Knows t.clear fun _ => none where
  issued _ := nofun
  stored _ _ := nofun
  bounded := bounded

theorem Knows.create (h : Knows t latest) (object : O) :
    Knows (t.create object).2 (latest.issue t.nextFreeSlot (t.create object).1) := by
  by_cases full : t.nextFreeSlot ≥ maxCount
  · rw [create_error full]
    exact h
  have below : t.nextFreeSlot < 4096 := not_le.mp full
  have bounded := h.bounded
  rw [create_ok full]
  refine ⟨fun slot used => ?_, fun slot handle known => ?_, ?_⟩
  · by_cases same : slot = t.nextFreeSlot
    · subst same
      exact ⟨_, Function.update_self ..⟩
    · have used : (Function.update t.objects t.nextFreeSlot (some object) slot).isSome := used
      rw [Function.update_of_ne same] at used
      obtain ⟨handle, known⟩ := h.issued slot used
      exact ⟨handle, (Function.update_of_ne same ..).trans known⟩
  · have known : Function.update latest t.nextFreeSlot _ slot = some handle := known
    show slot < maxCount ∧ handle < 0x80000000 ∧ getSlot handle = slot ∧
      (Function.update t.objects t.nextFreeSlot (some object) slot).isSome ∧
      Function.update t.generations t.nextFreeSlot t.nextGeneration slot = getGeneration handle
    by_cases same : slot = t.nextFreeSlot
    · subst same
      rw [Function.update_self] at known ⊢
      cases known
      rw [Function.update_self, slot_handle below bounded, generation_handle _ bounded,
        handle_eq _ bounded]
      exact ⟨below, by omega, rfl, rfl, rfl⟩
    · rw [Function.update_of_ne same] at known ⊢
      rw [Function.update_of_ne same]
      exact h.stored slot handle known
  · dsimp only
    split_ifs with wrapped
    · decide
    · exact not_le.mp wrapped

theorem Knows.isValid_iff (h : Knows t latest) :
    t.isValid handle = true ↔ latest (getSlot handle) = some (handle % 0x80000000) := by
  rw [HandleTable.isValid_iff]
  constructor
  · rintro ⟨_, used, generation⟩
    obtain ⟨issued, known⟩ := h.issued _ used
    obtain ⟨_, small, slot, _, stored⟩ := h.stored _ _ known
    rw [stored] at generation
    rw [getGeneration_eq, getGeneration_eq] at generation
    rw [getSlot_eq, getSlot_eq] at slot
    rw [known]
    congr 1
    omega
  · intro known
    obtain ⟨below, _, _, used, generation⟩ := h.stored _ _ known
    refine ⟨below, used, ?_⟩
    rw [generation, getGeneration_eq, getGeneration_eq]
    omega

theorem Knows.close (h : Knows t latest) (plain : t.isValid handle = true → handle < 0x80000000) :
    Knows (t.close handle).2 (latest.close handle (t.close handle).1) := by
  by_cases valid : t.isValid handle = true
  · have known := h.isValid_iff.mp valid
    rw [Nat.mod_eq_of_lt (plain valid)] at known
    rw [close_ok valid, Latest.close, if_pos known]
    refine ⟨fun slot used => ?_, fun slot issued known => ?_, h.bounded⟩
    · have used : (Function.update t.objects (getSlot handle) none slot).isSome := used
      by_cases same : slot = getSlot handle
      · rw [same, Function.update_self] at used
        cases used
      · rw [Function.update_of_ne same] at used ⊢
        exact h.issued slot used
    · by_cases same : slot = getSlot handle
      · rw [same, Function.update_self] at known
        cases known
      · rw [Function.update_of_ne same] at known
        show slot < maxCount ∧ issued < 0x80000000 ∧ getSlot issued = slot ∧
          (Function.update t.objects (getSlot handle) none slot).isSome ∧
          Function.update t.generations (getSlot handle) t.nextFreeSlot slot = getGeneration issued
        rw [Function.update_of_ne same, Function.update_of_ne same]
        exact h.stored slot issued known
  · rw [close_error (eq_false_of_ne_true valid)]
    exact h

theorem Knows.call (h : Knows t latest) (call : Call O) (plain : call.Plain t) :
    Knows (call.run t).2 (call.latest t latest) := by
  cases call with
  | create object => exact h.create object
  | duplicate handle thread process =>
    unfold Call.run Call.latest HandleTable.duplicate
    dsimp only
    cases t.getGeneric handle thread process with
    | none => exact h
    | some object => exact h.create object
  | close handle => exact h.close plain
  | clear => exact knows_clear h.bounded

theorem Reachable.knows {s : HandleTable O × Latest}
    (h : Reachable (fun s call => call.Plain s.1) s) : Knows s.1 s.2 := by
  apply h.invariant
  · rintro _ rfl
    exact knows_clear (show 1 < 0x8000 by decide)
  · rintro s call _ knows plain rfl
    exact knows.call call plain

def Issued (latest : Latest) (handle : Nat) : Prop := latest (getSlot handle) = some handle

def Alias (latest : Latest) (handle : Nat) : Prop :=
  0x80000000 ≤ handle ∧ Issued latest (handle - 0x80000000)

def AcceptsIssued (t : HandleTable O) (latest : Latest) (handle : Nat) : Prop :=
  (t.isValid handle = true ↔ Issued latest handle) ∧
  (∀ thread process, (t.getGeneric handle thread process).isSome ↔ Issued latest handle) ∧
  ((t.close handle).1 = .ok () ↔ Issued latest handle)

theorem getGeneric_isSome (thread : handle ≠ currentThread) (process : handle ≠ currentProcess)
    (current owner : Option O) :
    (t.getGeneric handle current owner).isSome ↔ t.isValid handle = true := by
  rw [getGeneric, if_neg thread, if_neg process]
  by_cases valid : t.isValid handle = true
  · rw [if_pos valid]
    exact iff_of_true (HandleTable.isValid_iff.mp valid).2.1 valid
  · rw [if_neg valid]
    exact iff_of_false (by rintro ⟨⟩) valid

theorem close_eq_ok : (t.close handle).1 = .ok () ↔ t.isValid handle = true := by
  by_cases valid : t.isValid handle = true
  · rw [close_ok valid]
    exact iff_of_true rfl valid
  · rw [close_error (eq_false_of_ne_true valid)]
    exact iff_of_false nofun valid

theorem Knows.issued_lt (h : Knows t latest) (issued : Issued latest handle) :
    handle < 0x80000000 :=
  (h.stored _ _ issued).2.1

theorem Knows.valid_iff (h : Knows t latest) (word : handle < 2 ^ 32) :
    t.isValid handle = true ↔ Issued latest handle ∨ Alias latest handle := by
  rw [h.isValid_iff]
  by_cases low : handle < 0x80000000
  · rw [Nat.mod_eq_of_lt low]
    exact ⟨.inl, fun accepted => accepted.resolve_right fun high => absurd high.1 (not_le.mpr low)⟩
  · have drop : handle % 0x80000000 = handle - 0x80000000 := by omega
    have slot : getSlot (handle - 0x80000000) = getSlot handle := by
      rw [getSlot_eq, getSlot_eq]
      omega
    rw [drop]
    constructor
    · intro known
      refine .inr ⟨not_lt.mp low, ?_⟩
      rw [Issued, slot]
      exact known
    · rintro (issued | ⟨_, issued⟩)
      · exact absurd (h.issued_lt issued) low
      · rw [Issued, slot] at issued
        exact issued

/-- In every run that closes no alias, only issued handles are accepted and their aliases. -/
theorem accepts_issued_iff {s : HandleTable O × Latest}
    (h : Reachable (fun s call => call.Plain s.1) s) (word : handle < 2 ^ 32)
    (thread : handle ≠ currentThread) (process : handle ≠ currentProcess) :
    AcceptsIssued s.1 s.2 handle ↔ ¬ Alias s.2 handle := by
  have knows := h.knows
  have valid := knows.valid_iff word
  constructor
  · rintro ⟨accepted, _⟩ second
    have low := knows.issued_lt (accepted.mp (valid.mpr (.inr second)))
    exact absurd second.1 (not_le.mpr low)
  · intro plain
    have accepted : s.1.isValid handle = true ↔ Issued s.2 handle :=
      valid.trans (or_iff_left plain)
    exact ⟨accepted, fun current owner => (getGeneric_isSome thread process current owner).trans
      accepted, close_eq_ok.trans accepted⟩

theorem accepts_issued_created : AcceptsIssued (create (new : HandleTable Unit) ()).2
      (Latest.issue (fun _ => none) 0 (.ok 1)) 1 :=
  (accepts_issued_iff (s := (_, _)) (.step (a := .create ()) (.start rfl) trivial rfl)
    (by decide) (by decide) (by decide)).mpr fun second => absurd second.1 (by decide)

/-- Handle 1 is issued, and 0x80000001 is valid too. -/
theorem accepts_issued_fails : ¬ ∀ (s : HandleTable Unit × Latest) (handle : Nat),
    Reachable (fun _ _ => True) s → handle < 2 ^ 32 → handle ≠ currentThread →
      handle ≠ currentProcess → AcceptsIssued s.1 s.2 handle := by
  intro all
  have created : Reachable (fun _ _ => True) _ :=
    .step (a := Call.create ()) (.start rfl) trivial rfl
  have accepted := all _ 0x80000001 created (by decide) (by decide) (by decide)
  have issued := accepted.1.mp (by decide)
  unfold Issued at issued
  revert issued
  decide

end Latest
end HandleTable

/-!
## The objects a table names

A handle names the object in its slot while it is valid. `Create` and `Close` change this for the
handles of one slot, and leave all others as they are.
-/

namespace HandleTable

variable {O : Type} {t : HandleTable O} {handle x y : Nat} {object o : O}

def Names (t : HandleTable O) (handle : Nat) (object : O) : Prop :=
  t.isValid handle = true ∧ t.objects (getSlot handle) = some object

/-- The table does not tell the two apart. -/
def Alike (x y : Nat) : Prop := getSlot x = getSlot y ∧ getGeneration x = getGeneration y

/-- The free list and the open handles share out the slots. -/
def Sound (t : HandleTable O) : Prop := ∃ opened slots, Tracks t opened slots

theorem names_iff : Names t x o ↔ getSlot x < maxCount ∧ t.objects (getSlot x) = some o ∧
    t.generations (getSlot x) = getGeneration x := by
  unfold Names
  rw [isValid_iff]
  constructor
  · rintro ⟨⟨below, _, generation⟩, object⟩
    exact ⟨below, object, generation⟩
  · rintro ⟨below, object, generation⟩
    exact ⟨⟨below, Option.isSome_iff_exists.mpr ⟨o, object⟩, generation⟩, object⟩

theorem valid_iff_names : t.isValid x = true ↔ ∃ o, Names t x o := by
  constructor
  · intro valid
    obtain ⟨o, object⟩ := Option.isSome_iff_exists.mp (isValid_iff.mp valid).2.1
    exact ⟨o, valid, object⟩
  · rintro ⟨o, valid, _⟩
    exact valid

theorem Names.alike (h : Names t x o) (alike : Alike x y) : Names t y o := by
  rw [names_iff, alike.1, alike.2] at h
  exact names_iff.mpr h

theorem Names.unique {p : O} (h : Names t x o) (h' : Names t x p) : o = p :=
  Option.some.inj (h.2.symm.trans h'.2)

theorem Names.alike_of_slot {p : O} (h : Names t x o) (h' : Names t y p)
    (slot : getSlot x = getSlot y) : Alike x y := by
  refine ⟨slot, ?_⟩
  rw [← (names_iff.mp h).2.2, ← (names_iff.mp h').2.2, slot]

theorem getGeneric_of_names (h : Names t x o) (thread : x ≠ currentThread)
    (process : x ≠ currentProcess) (current owner : Option O) :
    t.getGeneric x current owner = some o := by
  rw [getGeneric, if_neg thread, if_neg process, if_pos h.1]
  exact h.2

theorem Sound.zero_invalid (h : Sound t) : t.isValid 0 = false := by
  obtain ⟨opened, slots, tracks⟩ := h
  apply eq_false_of_ne_true
  intro valid
  obtain ⟨entry, member, _, generation⟩ := tracks.entry_of_valid valid
  have positive := (tracks.stored entry member).positive
  rw [generation] at positive
  exact absurd positive (by decide)

theorem Sound.head_free (h : Sound t) (room : ¬ t.nextFreeSlot ≥ maxCount) :
    t.objects t.nextFreeSlot = none := by
  obtain ⟨opened, slots, tracks⟩ := h
  cases slots with
  | nil => exact absurd (le_of_eq (show t.nextFreeSlot = maxCount from tracks.chain).symm) room
  | cons slot rest =>
    have head : t.nextFreeSlot = slot := tracks.chain.1
    rw [head]
    exact tracks.null slot List.mem_cons_self

theorem Sound.create (h : Sound t) (object : O) : Sound (t.create object).2 := by
  obtain ⟨opened, slots, tracks⟩ := h
  obtain ⟨slots', next⟩ := tracks.create object
  exact ⟨_, slots', next⟩

theorem Sound.names_create (h : Sound t) (object : O) : Names (t.create object).2 x o ↔
    Names t x o ∨ ∃ handle, (t.create object).1 = .ok handle ∧ Alike x handle ∧ o = object := by
  by_cases full : t.nextFreeSlot ≥ maxCount
  · rw [create_error full]
    refine (or_iff_left ?_).symm
    rintro ⟨handle, issued, _⟩
    cases issued
  obtain ⟨opened, slots, tracks⟩ := id h
  have below : t.nextFreeSlot < maxCount := not_le.mp full
  have slot := slot_handle below tracks.bounded
  have generation := generation_handle t.nextFreeSlot tracks.bounded
  rw [create_ok full, names_iff, names_iff]
  dsimp only
  by_cases same : getSlot x = t.nextFreeSlot
  · rw [same, Function.update_self, Function.update_self, h.head_free full]
    constructor
    · rintro ⟨_, object, new⟩
      refine .inr ⟨_, rfl, ⟨same.trans slot.symm, ?_⟩, (Option.some.inj object).symm⟩
      rw [← new, generation]
    · rintro (⟨_, object, _⟩ | ⟨handle, issued, alike, rfl⟩)
      · cases object
      · cases issued
        exact ⟨below, rfl, generation.symm.trans alike.2.symm⟩
  · rw [Function.update_of_ne same, Function.update_of_ne same]
    refine (or_iff_left ?_).symm
    rintro ⟨handle, issued, alike, _⟩
    cases issued
    exact same (alike.1.trans slot)

theorem Sound.names_created (h : Sound t) (issued : (t.create object).1 = .ok handle) :
    Names (t.create object).2 handle object :=
  (h.names_create object).mpr (.inr ⟨handle, issued, ⟨rfl, rfl⟩, rfl⟩)

theorem create_issues_iff : (∃ handle, (t.create object).1 = .ok handle) ↔
    t.nextFreeSlot < maxCount := by
  by_cases full : t.nextFreeSlot ≥ maxCount
  · rw [create_error full]
    exact iff_of_false (fun ⟨_, issued⟩ => nomatch issued) (not_lt.mpr full)
  · rw [create_ok full]
    exact iff_of_true ⟨_, rfl⟩ (not_le.mp full)

theorem close_congr (alike : Alike x y) : (t.close x).2 = (t.close y).2 := by
  unfold close isValid
  rw [alike.1, alike.2]

theorem Sound.close (h : Sound t) (handle : Nat) : Sound (t.close handle).2 := by
  by_cases valid : t.isValid handle = true
  · obtain ⟨opened, slots, tracks⟩ := h
    obtain ⟨entry, member, slot, generation⟩ := tracks.entry_of_valid valid
    have alike : Alike handle entry.1 := ⟨slot.symm, generation.symm⟩
    obtain ⟨o, names⟩ := valid_iff_names.mp valid
    rw [close_congr alike]
    exact ⟨_, _, tracks.close (tracks.stored entry member).small (names.alike alike).1⟩
  · rw [close_error (eq_false_of_ne_true valid)]
    exact h

theorem names_close : Names (t.close handle).2 x o ↔ Names t x o ∧ ¬ Alike x handle := by
  by_cases valid : t.isValid handle = true
  · obtain ⟨p, names⟩ := valid_iff_names.mp valid
    rw [close_ok valid, names_iff]
    dsimp only
    by_cases same : getSlot x = getSlot handle
    · rw [same, Function.update_self]
      constructor
      · rintro ⟨_, object, _⟩
        cases object
      · rintro ⟨named, apart⟩
        exact absurd (named.alike_of_slot names same) apart
    · rw [Function.update_of_ne same, Function.update_of_ne same, ← names_iff]
      exact (and_iff_left fun alike => same alike.1).symm
  · rw [close_error (eq_false_of_ne_true valid)]
    refine (and_iff_left_of_imp fun named alike => ?_).symm
    exact valid (named.alike alike).1

theorem close_invalid : (t.close handle).2.isValid handle = false := by
  apply eq_false_of_ne_true
  intro valid
  obtain ⟨o, names⟩ := valid_iff_names.mp valid
  exact (names_close.mp names).2 ⟨rfl, rfl⟩

theorem Sound.call (h : Sound t) (call : Call O) : Sound (call.run t).2 := by
  cases call with
  | create object => exact h.create object
  | duplicate handle thread process =>
    unfold Call.run HandleTable.duplicate
    dsimp only
    cases t.getGeneric handle thread process with
    | none => exact h
    | some object => exact h.create object
  | close handle => exact h.close handle
  | clear =>
    obtain ⟨_, _, tracks⟩ := h
    exact ⟨_, _, tracks_clear tracks.positive tracks.bounded⟩

def Built (t : HandleTable O) : Prop := ∃ opened, Reachable (fun _ _ => True) (t, opened)

theorem Built.sound (h : Built t) : Sound t := by
  obtain ⟨opened, reachable⟩ := h
  refine reachable.invariant (I := fun s => Sound s.1) ?_ ?_
  · rintro _ rfl
    exact ⟨_, _, tracks_new⟩
  · rintro s call _ sound _ rfl
    exact sound.call call

end HandleTable
end EmuThreeDS
