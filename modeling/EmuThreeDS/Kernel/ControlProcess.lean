import EmuThreeDS.Kernel.Canonical

/-!
# ControlProcess

The loop of `PROCESSOP_SET_MMU_TO_RWX` in `SVC::ControlProcess`. Its iterator stands on the area
it reprotects, so a merge that erases this area leaves nothing to go on from.
-/
namespace EmuThreeDS
open Tiling OrderedMap Layout VirtualMemoryArea

namespace VMManager

def reprotectUsed (vm : VMManager) (it : Nat) : Exec VMManager := do
  let vma ← deref vm.vmaMap (some it)
  if vma.meminfoState ≠ .free then
    let (_, vm) ← vm.reprotect it .readWriteExecute
    return vm
  else
    return vm

/-- `it++` reads the entry the iterator stands on. -/
def increment (m : VmaMap) (it : Nat) : Exec (Option Nat) := do
  let _ ← deref m (some it)
  return m.next it

def setMmuToRwxLoop : Nat → VMManager → Option Nat → Exec VMManager
  | _, vm, none => return vm
  | 0, _, some _ => .error .outOfFuel
  | fuel + 1, vm, some it => do
      let vm ← vm.reprotectUsed it
      let it ← increment vm.vmaMap it
      setMmuToRwxLoop fuel vm it

/-- `process` is the address space the handle names. -/
def setMmuToRwx (process : Option VMManager) : Exec (ResultVal VMManager) := do
  match process with
  | none => return .error .invalidHandle
  | some vm =>
    let vm ← setMmuToRwxLoop vm.vmaMap.entries.length vm
      (vm.vmaMap.entries.head?.map Prod.fst)
    return .ok vm

end VMManager

def AddressInfo.rwx (i : AddressInfo) : AddressInfo :=
  if i.meminfoState ≠ .free then { i with permissions := .readWriteExecute } else i

namespace VirtualMemoryArea

def rwx (v : VirtualMemoryArea) : VirtualMemoryArea :=
  if v.meminfoState ≠ .free then { v with permissions := .readWriteExecute } else v

/-- Used areas that differ in their permissions at most, the second one going on where the first
one ends. -/
def GoesOn (v next : VirtualMemoryArea) : Prop :=
  v.meminfoState ≠ .free ∧ v.rwx.mergeable next.rwx = true

instance (v next : VirtualMemoryArea) : Decidable (v.GoesOn next) :=
  inferInstanceAs (Decidable (_ ∧ _))

variable {p v n w : VirtualMemoryArea}

theorem rwx_used (used : v.meminfoState ≠ .free) :
    v.rwx = { v with permissions := .readWriteExecute } := if_pos used

theorem rwx_free (free : v.meminfoState = .free) : v.rwx = v := if_neg (not_not.mpr free)

@[simp] theorem rwx_meminfoState (v : VirtualMemoryArea) : v.rwx.meminfoState = v.meminfoState := by
  unfold rwx
  split_ifs <;> rfl

theorem rwx_rwx (v : VirtualMemoryArea) : v.rwx.rwx = v.rwx := by
  by_cases used : v.meminfoState ≠ .free
  · rw [rwx_used (by rwa [rwx_meminfoState]), rwx_used used]
  · have free := not_not.mp used
    rw [rwx_free free, rwx_free free]

theorem GoesOn.used (h : v.GoesOn n) : n.meminfoState ≠ .free := by
  have state := (mergeable_iff.mp h.2).2.1
  rw [rwx_meminfoState, rwx_meminfoState] at state
  rw [← state]
  exact h.1

theorem goesOn_rwx_left : v.rwx.GoesOn n ↔ v.GoesOn n := by
  unfold GoesOn
  rw [rwx_meminfoState, rwx_rwx]

/-- An area that was made `ReadWriteExecute` takes in the next one when that one has these
permissions already. -/
theorem rwx_mergeable (used : v.meminfoState ≠ .free) : v.rwx.mergeable n = true ↔
    v.GoesOn n ∧ n.permissions = .readWriteExecute := by
  have same : n.meminfoState ≠ .free → n.permissions = .readWriteExecute → n.rwx = n := by
    intro used perms
    rw [rwx_used used, ← perms]
  constructor
  · intro merges
    obtain ⟨perms, state, _⟩ := mergeable_iff.mp merges
    rw [rwx_used used] at perms
    rw [rwx_meminfoState] at state
    exact ⟨⟨used, by rwa [same (state ▸ used) perms.symm]⟩, perms.symm⟩
  · rintro ⟨goes, perms⟩
    rw [← same goes.used perms]
    exact goes.2

theorem mergeable_rwx (done : p.rwx = p) (used : v.meminfoState ≠ .free) :
    p.mergeable v.rwx = true ↔ p.GoesOn v := by
  constructor
  · intro merges
    have state := (mergeable_iff.mp merges).2.1
    rw [rwx_meminfoState] at state
    exact ⟨state ▸ used, by rwa [done]⟩
  · intro goes
    rw [← done]
    exact goes.2

theorem mergeable_join_right (w : VirtualMemoryArea) : p.mergeable (v.join w) = p.mergeable v :=
  mergeable_congr rfl rfl rfl (fun _ => rfl) (fun _ => rfl) rfl rfl rfl rfl rfl

theorem rwx_join (v n : VirtualMemoryArea) : (v.join n).rwx = v.rwx.join n := by
  by_cases used : v.meminfoState ≠ .free
  · rw [rwx_used used]
    exact rwx_used used
  · have free := not_not.mp used
    rw [rwx_free free]
    exact rwx_free free

theorem goesOn_join (used : v.meminfoState ≠ .free) (merges : v.rwx.mergeable n = true) :
    (v.rwx.join n).GoesOn w ↔ n.GoesOn w := by
  obtain ⟨goes, perms⟩ := (rwx_mergeable used).mp merges
  have done : n.rwx = n := by rw [rwx_used goes.used, ← perms]
  have state : (v.rwx.join n).meminfoState = v.meminfoState := rwx_meminfoState v
  unfold GoesOn
  rw [rwx_join, rwx_rwx, mergeable_join_left _ merges, state, done]
  exact ⟨fun h => ⟨goes.used, h.2⟩, fun h => ⟨used, h.2⟩⟩

end VirtualMemoryArea

namespace Layout

theorem acts_rwx : Acts rwx AddressInfo.rwx where
  base v := by unfold rwx; split_ifs <;> rfl
  size v := by unfold rwx; split_ifs <;> rfl
  backed v h := by
    unfold rwx
    split_ifs
    · exact h
    · exact h
  info v a := by
    unfold rwx AddressInfo.rwx infoAt
    split_ifs <;> rfl

/-- Where a used area goes on into the next one, that one is `ReadWriteExecute` already and does
not go on itself. -/
def KeepsIterator : List VirtualMemoryArea → Prop
  | v :: n :: rest =>
    (v.GoesOn n → n.permissions = .readWriteExecute ∧ ∀ w ∈ rest.head?, ¬n.GoesOn w) ∧
      KeepsIterator (n :: rest)
  | _ => True

/-- The condition part of the way through, with the areas that are done nearest first. -/
def Proceeds (before rest : List VirtualMemoryArea) : Prop :=
  (∀ p ∈ before.head?, ∀ v ∈ rest.head?, ¬p.GoesOn v) ∧ KeepsIterator rest

variable {before rest : List VirtualMemoryArea} {v n : VirtualMemoryArea}

theorem proceeds_free (free : v.meminfoState = .free) :
    Proceeds before (v :: rest) ↔ Proceeds (v :: before) rest := by
  have never : ∀ w, ¬v.GoesOn w := fun w goes => goes.1 free
  have into : ∀ p, ¬GoesOn p v := fun p goes => goes.used free
  have first : KeepsIterator (v :: rest) ↔ KeepsIterator rest := by
    cases rest with
    | nil => exact Iff.rfl
    | cons n rest => exact and_iff_right fun goes => absurd goes (never n)
  unfold Proceeds
  rw [first]
  constructor
  · rintro ⟨_, keeps⟩
    refine ⟨fun p hp w _ => ?_, keeps⟩
    cases hp
    exact never w
  · rintro ⟨_, keeps⟩
    refine ⟨fun p _ w hw => ?_, keeps⟩
    cases hw
    exact into p

theorem keepsIterator_used (used : v.meminfoState ≠ .free) : KeepsIterator (v :: rest) ↔
      Proceeds ((Cursor.mk before v.rwx rest).absorbNext.here :: before)
        (Cursor.mk before v.rwx rest).absorbNext.after := by
  cases rest with
  | nil =>
    have last : Proceeds (v.rwx :: before) [] := ⟨fun _ _ _ => nofun, trivial⟩
    exact iff_of_true trivial last
  | cons n rest =>
    by_cases merges : v.rwx.mergeable n = true
    · obtain ⟨goes, perms⟩ := (rwx_mergeable used).mp merges
      have absorbed : (Cursor.mk before v.rwx (n :: rest)).absorbNext =
          ⟨before, v.rwx.join n, rest⟩ := if_pos merges
      have later : (∀ w ∈ rest.head?, ¬n.GoesOn w) →
          (KeepsIterator (n :: rest) ↔ KeepsIterator rest) := by
        intro stops
        cases rest with
        | nil => exact Iff.rfl
        | cons w rest => exact and_iff_right fun on => absurd on (stops w rfl)
      have joined : ∀ w, (v.rwx.join n).GoesOn w ↔ n.GoesOn w := fun w => goesOn_join used merges
      rw [absorbed]
      constructor
      · rintro ⟨clear, keeps⟩
        obtain ⟨_, stops⟩ := clear goes
        refine ⟨fun p hp w hw => ?_, (later stops).mp keeps⟩
        cases hp
        exact fun on => stops w hw ((joined w).mp on)
      · rintro ⟨clear, keeps⟩
        have stops : ∀ w ∈ rest.head?, ¬n.GoesOn w :=
          fun w hw on => clear _ rfl w hw ((joined w).mpr on)
        exact ⟨fun _ => ⟨perms, stops⟩, (later stops).mpr keeps⟩
    · have kept : (Cursor.mk before v.rwx (n :: rest)).absorbNext =
          ⟨before, v.rwx, n :: rest⟩ := if_neg merges
      have apart : v.GoesOn n → n.permissions ≠ .readWriteExecute :=
        fun goes perms => merges ((rwx_mergeable used).mpr ⟨goes, perms⟩)
      rw [kept]
      constructor
      · rintro ⟨clear, keeps⟩
        refine ⟨fun p hp w hw => ?_, keeps⟩
        cases hp
        cases hw
        exact fun on => apart (goesOn_rwx_left.mp on) (clear (goesOn_rwx_left.mp on)).1
      · rintro ⟨clear, keeps⟩
        exact ⟨fun goes => absurd (goesOn_rwx_left.mpr goes) (clear _ rfl n rfl), keeps⟩

end Layout

namespace VMManager

variable {m : VmaMap} {vs before rest after : List VirtualMemoryArea} {v : VirtualMemoryArea}

theorem deref_missing {k : Nat} (h : LaidOut m vs) (missing : ∀ w ∈ vs, w.base ≠ k) :
    deref m (some k) = .error .undefinedBehaviour := by
  have none : m.find? k = none := by
    rw [Map.find?, Option.map_eq_none_iff, List.find?_eq_none, h.holds.eq]
    intro e he
    obtain ⟨w, hw, rfl⟩ := List.mem_map.mp he
    simpa using missing w hw
  simp only [deref, Option.bind_some, none]

theorem missing_of_joined {c : Cursor} {p : VirtualMemoryArea} (laid : Laid 0 c.areas maxAddress)
    (head : c.before = p :: before) (merges : p.mergeable c.here = true) :
    ∀ w ∈ c.joinPrev.areas, w.base ≠ c.here.base := by
  obtain ⟨_, here, after⟩ := c
  obtain rfl := head
  obtain ⟨left, pos, right⟩ := tiles_middle.mp laid.tiles
  simp only [segment_base, segment_size] at left pos right
  have joined : (Cursor.mk (p :: before) here after).joinPrev = ⟨before, p.join here, after⟩ :=
    if_pos merges
  have below : ∀ w ∈ (p :: before).reverse, w.base < here.base := by
    intro w hw
    have bounds := left.bounds hw
    simp only [segment_base, segment_size] at bounds
    omega
  rw [joined]
  intro w hw
  simp only [Cursor.areas, List.mem_append, List.mem_reverse, List.mem_cons] at hw
  rcases hw with hw | rfl | hw
  · exact (below w (by simp [hw])).ne
  · exact (below p (by simp)).ne
  · have bounds := right.bounds hw
    simp only [segment_base, segment_size] at bounds
    show w.base ≠ here.base
    omega

theorem absorbed_facts (before rest : List VirtualMemoryArea) (v : VirtualMemoryArea) :
    (Cursor.mk before v.rwx rest).absorbNext.before = before ∧
      (Cursor.mk before v.rwx rest).absorbNext.here.rwx =
        (Cursor.mk before v.rwx rest).absorbNext.here ∧
      (Cursor.mk before v.rwx rest).absorbNext.after.length ≤ rest.length ∧ ∀ p : VirtualMemoryArea,
        p.mergeable (Cursor.mk before v.rwx rest).absorbNext.here = p.mergeable v.rwx := by
  cases rest with
  | nil => exact ⟨rfl, rwx_rwx v, Nat.le_refl _, fun _ => rfl⟩
  | cons n rest =>
    unfold Cursor.absorbNext
    simp only
    split_ifs
    · refine ⟨rfl, ?_, Nat.le_succ _, fun _ => mergeable_join_right n⟩
      rw [rwx_join, rwx_rwx]
    · exact ⟨rfl, rwx_rwx v, Nat.le_refl _, fun _ => rfl⟩

/-- One turn on a used area: either the area before it absorbs it, and the iterator is lost, or
the iterator goes on behind what it has absorbed itself. -/
theorem turn_used (h : LaidOut m (before.reverse ++ v :: rest)) (used : v.meminfoState ≠ .free)
    (done : ∀ p ∈ before.head?, p.rwx = p) :
    ∃ m', reprotectUsed ⟨m, false⟩ v.base = .ok ⟨m', false⟩ ∧
      ((∃ p ∈ before.head?, p.GoesOn v) → increment m' v.base = .error .undefinedBehaviour) ∧
      ((∀ p ∈ before.head?, ¬p.GoesOn v) →
        LaidOut m' (Cursor.mk before v.rwx rest).absorbNext.areas ∧ increment m' v.base = .ok
          ((Cursor.mk before v.rwx rest).absorbNext.after.head?.map VirtualMemoryArea.base)) := by
  have changed : Laid 0 (Cursor.mk before v.rwx rest).areas maxAddress := h.laid.change acts_rwx
  have same : protectAttributes .readWriteExecute v = v.rwx := (rwx_used used).symm
  obtain ⟨m', run, h'⟩ := updateAndMerge_at (f := protectAttributes .readWriteExecute) rfl
    (by rw [same]; exact changed) h
  rw [same] at run h'
  have laid := Cursor.laid_absorbNext changed
  have start := (Cursor.absorbNext_covers ⟨before, v.rwx, rest⟩).1
  have start : (Cursor.mk before v.rwx rest).absorbNext.here.base = v.base :=
    start.trans (acts_rwx.base v)
  have facts := absorbed_facts before rest v
  have reach := And.intro facts.1 facts.2.2.2
  refine ⟨m', ?_, ?_, ?_⟩
  · simp only [reprotectUsed, deref_at h, ok_bind, if_pos used, reprotect, reprotectVMA, assert_pos,
      run, pure_eq_ok]
  · rintro ⟨p, hp, goes⟩
    obtain ⟨before, rfl⟩ : ∃ tail, before = p :: tail := List.head?_eq_some_iff.mp hp
    have merges := (mergeable_rwx (done p hp) used).mpr goes
    rw [← reach.2 p] at merges
    have missing := missing_of_joined laid reach.1 merges
    rw [start] at missing
    simp only [increment, deref_missing h' missing, error_bind]
  · intro clear
    have stays : (Cursor.mk before v.rwx rest).absorbNext.joinPrev =
        (Cursor.mk before v.rwx rest).absorbNext := by
      generalize (Cursor.mk before v.rwx rest).absorbNext = c at reach
      obtain ⟨_ | ⟨p, tail⟩, here, after⟩ := c
      · rfl
      · obtain ⟨rfl, merges⟩ := reach
        have apart : ¬p.mergeable here = true := by
          rw [merges p]
          exact fun yes => clear p rfl ((mergeable_rwx (done p rfl) used).mp yes)
        exact if_neg apart
    rw [Cursor.merge, stays] at h'
    have read := deref_at h'
    rw [start] at read
    refine ⟨h', ?_⟩
    simp only [increment, read, ok_bind, pure_eq_ok]
    rw [← start]
    exact congrArg _ h'.holds.next

theorem view_turn (laid : Laid 0 (before.reverse ++ v :: rest) maxAddress)
    (used : v.meminfoState ≠ .free) :
    view (before.reverse ++ (Cursor.mk before v.rwx rest).absorbNext.here ::
        (Cursor.mk before v.rwx rest).absorbNext.after.map rwx) =
      view (before.reverse ++ (v :: rest).map rwx) := by
  cases rest with
  | nil => rfl
  | cons n rest =>
    by_cases merges : v.rwx.mergeable n = true
    · obtain ⟨goes, perms⟩ := (rwx_mergeable used).mp merges
      have fixed : n.rwx = n := by rw [rwx_used goes.used, ← perms]
      have absorbed : (Cursor.mk before v.rwx (n :: rest)).absorbNext =
          ⟨before, v.rwx.join n, rest⟩ := if_pos merges
      obtain ⟨mid, left, right⟩ := tiles_append.mp laid.tiles
      have mapped := tiles_append.mpr ⟨mid, left, tiles_map acts_rwx right⟩
      simp only [List.map_cons, fixed] at mapped
      simp only [absorbed, List.map_cons, fixed]
      exact view_join mapped merges
    · have kept : (Cursor.mk before v.rwx (n :: rest)).absorbNext =
          ⟨before, v.rwx, n :: rest⟩ := if_neg merges
      simp only [kept, List.map_cons]

theorem setMmuToRwxLoop_at {fuel : Nat} (h : LaidOut m (before.reverse ++ rest))
    (done : ∀ p ∈ before.head?, p.rwx = p) (enough : rest.length ≤ fuel) :
    (Proceeds before rest → ∃ m' vs,
      setMmuToRwxLoop fuel ⟨m, false⟩ (rest.head?.map VirtualMemoryArea.base) = .ok ⟨m', false⟩ ∧
      LaidOut m' vs ∧ view vs = view (before.reverse ++ rest.map rwx)) ∧ (¬Proceeds before rest →
      setMmuToRwxLoop fuel ⟨m, false⟩ (rest.head?.map VirtualMemoryArea.base) =
        .error .undefinedBehaviour) := by
  induction fuel generalizing m before rest with
  | zero =>
    cases List.length_eq_zero_iff.mp (Nat.le_zero.mp enough)
    exact ⟨fun _ => ⟨m, _, rfl, h, rfl⟩, fun stuck => absurd ⟨fun _ _ _ => nofun, trivial⟩ stuck⟩
  | succ fuel ih =>
    cases rest with
    | nil =>
      exact ⟨fun _ => ⟨m, _, rfl, h, rfl⟩,
        fun stuck => absurd ⟨fun _ _ _ => nofun, trivial⟩ stuck⟩
    | cons v rest =>
      have enough : rest.length ≤ fuel := Nat.le_of_succ_le_succ enough
      by_cases free : v.meminfoState = .free
      · have turn : reprotectUsed ⟨m, false⟩ v.base = .ok ⟨m, false⟩ := by
          simp only [reprotectUsed, deref_at h, ok_bind, if_neg (not_not.mpr free), pure_eq_ok]
        have next : increment m v.base = .ok (rest.head?.map VirtualMemoryArea.base) := by
          simp only [increment, deref_at h, ok_bind, pure_eq_ok]
          exact congrArg _ h.holds.next
        have shape : before.reverse ++ v :: rest = (v :: before).reverse ++ rest := by simp
        rw [shape] at h
        have later := ih h (fun p hp => by cases hp; exact rwx_free free) enough
        have same : (v :: before).reverse ++ rest.map rwx =
            before.reverse ++ (v :: rest).map rwx := by simp [rwx_free free]
        rw [proceeds_free free, ← same]
        simpa only [List.head?_cons, Option.map_some, setMmuToRwxLoop, turn, ok_bind, next]
          using later
      · obtain ⟨m₁, turn, lost, goes⟩ := turn_used h free done
        simp only [List.head?_cons, Option.map_some, setMmuToRwxLoop, turn, ok_bind]
        by_cases clear : ∀ p ∈ before.head?, ¬p.GoesOn v
        · obtain ⟨h₁, next⟩ := goes clear
          have same := view_turn h.laid free
          have step : Proceeds before (v :: rest) ↔
              Proceeds ((Cursor.mk before v.rwx rest).absorbNext.here :: before)
                (Cursor.mk before v.rwx rest).absorbNext.after := by
            rw [← keepsIterator_used free]
            refine and_iff_right fun p hp w hw => ?_
            cases hw
            exact clear p hp
          obtain ⟨same_before, fixed, fewer, _⟩ := absorbed_facts before rest v
          rw [step, ← same]
          generalize (Cursor.mk before v.rwx rest).absorbNext = c at *
          obtain ⟨before', here, after⟩ := c
          subst same_before
          have shape : (here :: before').reverse ++ after.map rwx =
              before'.reverse ++ here :: after.map rwx := by simp
          have h₁ : LaidOut m₁ ((here :: before').reverse ++ after) := by
            simpa [Cursor.areas] using h₁
          have later := ih h₁ (fun p hp => by cases hp; exact fixed)
            (Nat.le_trans fewer enough)
          rw [shape] at later
          simpa only [next, ok_bind] using later
        · have stuck : ¬Proceeds before (v :: rest) :=
            fun proceeds => clear fun p hp => proceeds.1 p hp v rfl
          push Not at clear
          refine ⟨fun proceeds => absurd proceeds stuck, fun _ => ?_⟩
          simp only [lost clear, error_bind]

theorem LaidOut.exact (h : LaidOut m vs) : Exact ⟨m, false⟩ := by
  refine ⟨?_, (@LaidOut.areas_eq _ ⟨m, false⟩ h).symm ▸ h.laid.tiles⟩
  intro e he
  rw [h.holds.eq] at he
  obtain ⟨w, _, rfl⟩ := List.mem_map.mp he
  rfl

/-- The loop visits the whole map and leaves exactly the used addresses `ReadWriteExecute`, or
increments an iterator that was erased. -/
theorem setMmuToRwx_iff {vm : VMManager} (h : Reachable (fun vm op => op.Valid vm) vm) :
    ((∃ vm', setMmuToRwx (some vm) = .ok (.ok vm') ∧ Exact vm' ∧
        vm'.info = fun a => (vm.info a).map AddressInfo.rwx) ↔ KeepsIterator vm.areas) ∧
      (¬KeepsIterator vm.areas → setMmuToRwx (some vm) = .error .undefinedBehaviour) := by
  have inv := h.inv fun _ _ valid => valid
  obtain ⟨m, locked⟩ := vm
  obtain rfl : locked = false := inv.unlocked
  have laidOut : LaidOut m (([] : List VirtualMemoryArea).reverse ++ VMManager.areas ⟨m, false⟩) :=
    inv.laidOut
  have first : m.entries.head?.map Prod.fst =
      (VMManager.areas ⟨m, false⟩).head?.map VirtualMemoryArea.base := by
    rw [inv.laidOut.holds.eq, List.head?_map, Option.map_map]
    rfl
  have enough : (VMManager.areas ⟨m, false⟩).length ≤ m.entries.length :=
    Nat.le_of_eq (List.length_map _)
  obtain ⟨goes, stuck⟩ := setMmuToRwxLoop_at laidOut (fun _ => nofun) enough
  have proceeds : Proceeds [] (VMManager.areas ⟨m, false⟩) ↔
      KeepsIterator (VMManager.areas ⟨m, false⟩) := and_iff_right fun _ => nofun
  rw [proceeds] at goes stuck
  have fails : ¬KeepsIterator (VMManager.areas ⟨m, false⟩) →
      setMmuToRwx (some ⟨m, false⟩) = .error .undefinedBehaviour := by
    intro lost
    simp only [setMmuToRwx, first, stuck lost, error_bind]
  refine ⟨⟨?_, ?_⟩, fails⟩
  · rintro ⟨vm', run, _⟩
    by_contra lost
    rw [fails lost] at run
    exact nomatch run
  · intro keeps
    obtain ⟨m', vs, run, laidOut', same⟩ := goes keeps
    refine ⟨⟨m', false⟩, ?_, LaidOut.exact laidOut', ?_⟩
    · simp only [setMmuToRwx, first, run, ok_bind, pure_eq_ok]
    · have areas : VMManager.areas ⟨m', false⟩ = vs := LaidOut.areas_eq laidOut'
      funext a
      rw [info, areas, same]
      exact view_map acts_rwx a

def onePage : Op := .mapBackingMemory 0x1000 ⟨some ⟨0, 0x2000⟩, 0⟩ 0x1000 .«private»

theorem setMmuToRwx_iff_onePage : ∃ vm, runAll fresh [onePage] = .ok vm ∧
    ((∃ vm', setMmuToRwx (some vm) = .ok (.ok vm') ∧ Exact vm' ∧
        vm'.info = fun a => (vm.info a).map AddressInfo.rwx) ↔ KeepsIterator vm.areas) ∧
      (¬KeepsIterator vm.areas → setMmuToRwx (some vm) = .error .undefinedBehaviour) := by
  have valid : ∀ op ∈ [onePage], ∀ vm, op.Valid vm := by
    simp only [List.forall_mem_cons]
    exact ⟨fun _ => ⟨⟨rfl, rfl, by decide, by decide⟩, nofun, by decide⟩, nofun⟩
  obtain ⟨vm, run⟩ := runAll_total (reset_inv fresh_reset) valid
    (by simp [onePage, Op.Finds])
  exact ⟨vm, run, setMmuToRwx_iff ((Reachable.reset fresh_reset).runAll valid run)⟩

def protectedSecond : List Op :=
  [.mapBackingMemory 0x1000 ⟨some ⟨0, 0x2000⟩, 0⟩ 0x2000 .«private»,
    .reprotectRange 0x2000 0x1000 .read]

set_option maxRecDepth 8000 in
theorem setMmuToRwx_fails : ∃ vm, Reachable (fun vm op => op.Valid vm) vm ∧
    runAll fresh protectedSecond = .ok vm ∧ setMmuToRwx (some vm) = .error .undefinedBehaviour := by
  have valid : ∀ op ∈ protectedSecond, ∀ vm, op.Valid vm := by
    simp only [protectedSecond, List.forall_mem_cons]
    exact ⟨fun _ => ⟨⟨rfl, rfl, by decide, by decide⟩, nofun, by decide⟩,
      fun _ => ⟨rfl, rfl, by decide, by decide⟩, nofun⟩
  have finds : ∀ op ∈ protectedSecond, ∀ vm, op.Finds vm := by
    simp only [protectedSecond, List.forall_mem_cons]
    exact ⟨fun _ => trivial, fun _ => trivial, nofun⟩
  obtain ⟨vm, run⟩ := runAll_total (reset_inv fresh_reset) valid finds
  have bad : (match runAll fresh protectedSecond >>= fun vm => setMmuToRwx (some vm) with
      | .error e => decide (e = .undefinedBehaviour)
      | .ok _ => false) = true := by decide
  rw [run, ok_bind] at bad
  refine ⟨vm, (Reachable.reset fresh_reset).runAll valid run, run, ?_⟩
  split at bad
  · rename_i e failed
    rw [failed, of_decide_eq_true bad]
  · exact nomatch bad

end VMManager
end EmuThreeDS
