import EmuThreeDS.LdrRo.ModuleChains

/-!
# Runs of the loader's module lists
-/
namespace EmuThreeDS.ModuleLists

open SemicircularList LinkedChain CROHelper

variable {crs a : Nat} {s s' : ModuleLists} {kind other : Bool}

theorem mem_places : a ∈ s.places crs ↔ a = crs ∨ ∃ kind, a ∈ s.registered kind := by
  unfold places
  rw [List.mem_cons, List.mem_append]
  constructor
  · rintro (same | inTrue | inFalse)
    · exact .inl same
    · exact .inr ⟨true, inTrue⟩
    · exact .inr ⟨false, inFalse⟩
  · rintro (same | ⟨kind, mem⟩)
    · exact .inl same
    · cases kind with
      | true => exact .inr (.inl mem)
      | false => exact .inr (.inr mem)

namespace WellFormed

variable (h : WellFormed crs s)
include h

theorem disjoint (mem : a ∈ s.registered kind) (differ : other ≠ kind) :
    a ∉ s.registered other := by
  have apart := (List.pairwise_cons.mp h.arranged.apart).2
  have between := (List.pairwise_append.mp apart).2.2
  intro mem'
  cases kind <;> cases other
  · exact differ rfl
  · exact (between a mem' a mem).ne rfl
  · exact (between a mem a mem').ne rfl
  · exact differ rfl

theorem crs_not_registered : crs ∉ s.registered kind := by
  have apart := (List.pairwise_cons.mp h.arranged.apart).1
  intro mem
  cases kind with
  | true => exact (apart crs (List.mem_append_left _ mem)).ne rfl
  | false => exact (apart crs (List.mem_append_right _ mem)).ne rfl

theorem head_mem (some : headOf s.memory crs kind ≠ 0) :
    headOf s.memory crs kind ∈ s.registered kind := by
  have listed := h.listed kind
  rcases List.eq_nil_or_concat (s.registered kind) with empty | ⟨pre, tail, split⟩
  · exact absurd (listed.eq_nil_iff.mp empty) some
  · rw [List.concat_eq_append] at split
    rw [split] at listed ⊢
    exact listed.first.1

theorem notElsewhere (mem : a ∈ s.registered kind) : NotElsewhere s.memory crs a kind := by
  intro other differ
  have out := h.disjoint mem differ
  constructor
  · intro same
    have zero : a ≠ 0 := fun zero => (h.listed kind).proper (zero ▸ mem)
    exact out (same ▸ h.head_mem (same ▸ zero))
  · intro some same
    have listed := h.listed other
    rcases List.eq_nil_or_concat (s.registered other) with empty | ⟨pre, tail, split⟩
    · exact some (listed.eq_nil_iff.mp empty)
    · rw [List.concat_eq_append] at split
      rw [split] at listed out
      exact out (same ▸ listed.first.2 ▸ by simp)

theorem listed_other {memory : ProcessBytes} {places touched l : List Nat}
    (relists : Relists places crs kind s.memory memory touched l) (differ : other ≠ kind)
    (inside : ∀ y ∈ s.registered other, y ∈ places ∧ y ∉ touched) :
    Listed 0 (nextModule memory) (previousModule memory) (headOf memory crs other)
      (s.registered other) := by
  have same : ∀ y ∈ s.registered other, SameLinks s.memory memory y := by
    intro y mem
    obtain ⟨place, out⟩ := inside y mem
    exact relists.untouched y place out (ne_of_mem_of_not_mem mem h.crs_not_registered)
  rw [relists.otherHead other differ]
  exact (h.listed other).congr (fun y mem => (same y mem).1) fun y mem => (same y mem).2

theorem registers {autoLink : Bool} (proper : a ≠ 0) (fits : Fits a)
    (apart : ∀ b ∈ s.places crs, Apart a b) :
    ∃ s', step crs s (.register a autoLink) = .ok s' ∧ WellFormed crs s' := by
  have arranged : Arranged (a :: s.places crs) := by
    constructor
    · intro b mem
      rcases List.mem_cons.mp mem with rfl | old
      · exact fits
      · exact h.arranged.fits b old
    · exact List.pairwise_cons.mpr ⟨apart, h.arranged.apart⟩
  have hc : crs ∈ a :: s.places crs := List.mem_cons_of_mem _ (mem_places.mpr (.inl rfl))
  have ne : a ≠ crs := (apart crs (mem_places.mpr (.inl rfl))).ne
  have old : ∀ kind, ∀ y ∈ s.registered kind, y ∈ s.places crs :=
    fun kind y mem => mem_places.mpr (.inr ⟨kind, mem⟩)
  have fresh : ∀ kind, a ∉ s.registered kind :=
    fun kind mem => (apart a (old kind a mem)).ne rfl
  have relists : ∃ m', register s.memory crs a autoLink = .ok m' ∧
      Relists (a :: s.places crs) crs autoLink s.memory m' (a :: s.registered autoLink)
        (s.registered autoLink ++ [a]) := by
    have listed := h.listed autoLink
    rcases List.eq_nil_or_concat (s.registered autoLink) with empty | ⟨pre, tail, split⟩
    · rw [empty]
      exact register_first arranged hc (List.mem_cons_self ..) proper ne
        (listed.eq_nil_iff.mp empty)
    · rw [List.concat_eq_append] at split
      have notIn : crs ∉ s.registered autoLink := h.crs_not_registered
      have fresh := fresh autoLink
      have old := old autoLink
      rw [split] at listed notIn fresh old ⊢
      exact register_after arranged hc (List.mem_cons_self ..)
        (fun y mem => List.mem_cons_of_mem _ (old y mem)) notIn fresh proper ne listed
  obtain ⟨m', ran, relists⟩ := relists
  refine ⟨_, by rw [step, ran]; rfl, ?_, ?_⟩
  · -- The places are the old ones and the new one, in another order.
    have order : (a :: s.places crs).Perm (places crs
        { memory := m'
          registered := Function.update s.registered autoLink (s.registered autoLink ++ [a]) }) := by
      refine (List.Perm.swap crs a _).trans (List.Perm.cons crs ?_)
      dsimp only
      cases autoLink with
      | true =>
        rw [Function.update_self, List.append_assoc]
        exact List.perm_middle.symm
      | false =>
        rw [Function.update_self, ← List.append_assoc]
        exact (List.perm_append_singleton a _).symm
    exact ⟨fun b mem => arranged.fits b (order.mem_iff.mpr mem),
      arranged.apart.perm order Apart.symm⟩
  · intro other
    by_cases same : other = autoLink
    · subst same
      dsimp only
      rw [Function.update_self]
      exact relists.listed
    · dsimp only
      rw [Function.update_of_ne same]
      apply h.listed_other relists same
      intro y mem
      refine ⟨List.mem_cons_of_mem _ (old other y mem), ?_⟩
      rw [List.mem_cons, not_or]
      exact ⟨ne_of_mem_of_not_mem mem (fresh other), h.disjoint mem (Ne.symm same)⟩

theorem unregisters (mem : a ∈ s.registered kind) :
    ∃ s', step crs s (.unregister a) = .ok s' ∧ WellFormed crs s' := by
  have inPlaces : ∀ kind, ∀ y ∈ s.registered kind, y ∈ s.places crs :=
    fun kind y mem => mem_places.mpr (.inr ⟨kind, mem⟩)
  have hc : crs ∈ s.places crs := mem_places.mpr (.inl rfl)
  have listed := h.listed kind
  have notIn : crs ∉ s.registered kind := h.crs_not_registered
  obtain ⟨pre, post, split⟩ := List.append_of_mem mem
  have erased : (s.registered kind).erase a = pre ++ post := by
    have distinct := listed.distinct
    rw [split] at distinct ⊢
    have front : a ∉ pre := fun inPre =>
      List.disjoint_of_nodup_append distinct inPre (List.mem_cons_self ..)
    rw [List.erase_append_right _ front, List.erase_cons_head]
  rw [split] at listed notIn
  obtain ⟨m', ran, relists⟩ := unregister_relists h.arranged hc
    (fun y mem => inPlaces kind y (split ▸ mem)) notIn (h.notElsewhere mem)
    (fun other _ some => inPlaces other _ (h.head_mem some)) listed
  refine ⟨_, by rw [step, ran]; rfl, ?_, ?_⟩
  · have fewer : (places crs
        { memory := m', registered := fun kind => (s.registered kind).erase a }).Sublist
        (s.places crs) :=
      List.Sublist.cons_cons _ (List.Sublist.append List.erase_sublist List.erase_sublist)
    exact ⟨fun b mem => h.arranged.fits b (fewer.subset mem), h.arranged.apart.sublist fewer⟩
  · intro other
    by_cases same : other = kind
    · subst same
      dsimp only
      rw [erased]
      exact relists.listed
    · have kept : (s.registered other).erase a = s.registered other :=
        List.erase_of_not_mem (h.disjoint mem same)
      dsimp only
      rw [kept]
      apply h.listed_other relists same
      intro y inOther
      refine ⟨inPlaces other y inOther, fun inKind => ?_⟩
      exact h.disjoint inOther (Ne.symm same) (split ▸ inKind)

theorem steps {action : Action} (allowed : Allowed crs s action) :
    ∃ s', step crs s action = .ok s' ∧ WellFormed crs s' := by
  cases action with
  | register a autoLink =>
    obtain ⟨proper, fits, apart⟩ := allowed
    exact h.registers proper fits apart
  | unregister a =>
    obtain ⟨kind, mem⟩ := allowed
    exact h.unregisters mem
  | other memory =>
    refine ⟨_, rfl, h.arranged, fun kind => ?_⟩
    have same : headOf memory crs kind = headOf s.memory crs kind :=
      headOf_congr (allowed crs (mem_places.mpr (.inl rfl)))
    have links : ∀ y ∈ s.registered kind, SameLinks s.memory memory y :=
      fun y mem => allowed y (mem_places.mpr (.inr ⟨kind, mem⟩))
    rw [same]
    exact (h.listed kind).congr (fun y mem => (links y mem).1) fun y mem => (links y mem).2

end WellFormed

theorem start_wellFormed (start : Start crs s) : WellFormed crs s := by
  obtain ⟨fits, ⟨m, memory⟩, empty⟩ := start
  have alone : s.places crs = [crs] := by
    unfold places
    rw [empty]
    rfl
  have arranged : Arranged [crs] := by
    refine ⟨fun b mem => ?_, List.pairwise_singleton _ _⟩
    rw [List.mem_singleton.mp mem]
    exact fits
  have mem := List.mem_singleton_self crs
  have noHead (kind : Bool) : headOf s.memory crs kind = 0 := by
    rw [memory]
    cases kind with
    | true =>
      change nextModule (setPreviousModule _ crs 0) crs = 0
      rw [arranged.next_setPrevious mem mem (by omega),
        arranged.next_setNext mem mem (by omega), if_pos rfl]
    | false =>
      change previousModule (setPreviousModule _ crs 0) crs = 0
      rw [arranged.previous_setPrevious mem mem (by omega), if_pos rfl]
  refine ⟨by rw [alone]; exact arranged, fun kind => ?_⟩
  rw [noHead kind, empty]
  exact Listed.nil

theorem reachable_wellFormed (h : Reachable crs s) : WellFormed crs s := by
  refine h.invariant (I := WellFormed crs) (fun s start => start_wellFormed start) ?_
  intro s action s' wellFormed allowed next
  obtain ⟨s₁, ran, after⟩ := wellFormed.steps allowed
  rw [ran] at next
  cases next
  exact after

/-- `ForEachAutoLinkCRO` visits the static module and the auto-linked ones, the other chain has
the rest, and both lists are semicircular; no assertion fails on the way. -/
theorem module_lists_well_formed (h : Reachable crs s) :
    Visits id 0 (nextModule s.memory) crs (crs :: s.registered true) ∧
      Listed 0 (nextModule s.memory) (previousModule s.memory) (nextModule s.memory crs)
        (s.registered true) ∧
      Listed 0 (nextModule s.memory) (previousModule s.memory) (previousModule s.memory crs)
        (s.registered false) ∧ (s.registered true).Disjoint (s.registered false) ∧
      ∀ action, Allowed crs s action → ∃ s', step crs s action = .ok s' := by
  have wellFormed := reachable_wellFormed h
  have autoLinked := wellFormed.listed true
  refine ⟨⟨rfl, autoLinked.forward⟩, autoLinked, wellFormed.listed false, ?_, ?_⟩
  · intro a mem mem'
    exact wellFormed.disjoint mem (nofun : false ≠ true) mem'
  · intro action allowed
    obtain ⟨s', ran, -⟩ := wellFormed.steps allowed
    exact ⟨s', ran⟩

def track (registered : Bool → List Nat) : Action → Bool → List Nat
  | .register a autoLink =>
    Function.update registered autoLink (registered autoLink ++ [a])
  | .unregister a => fun kind => (registered kind).erase a
  | .other _ => registered

theorem Reachable.next {a : Action} (h : Reachable crs s) (allowed : Allowed crs s a) :
    ∃ memory, Reachable crs ⟨memory, track s.registered a⟩ := by
  obtain ⟨s', ran, -⟩ := (reachable_wellFormed h).steps allowed
  have reached : Reachable crs s' := .step h allowed ran
  have same : s'.registered = track s.registered a := by
    cases a with
    | register address autoLink | unregister address =>
      obtain ⟨memory, -, same⟩ := bind_eq_ok.mp ran
      cases same
      rfl
    | other memory =>
      cases ran
      rfl
  exact ⟨s'.memory, same ▸ reached⟩

/-- Of three modules, one of them not auto-linked, the first has left. -/
theorem module_lists_well_formed_left : ∃ memory registered,
    Reachable 0x100000 ⟨memory, registered⟩ ∧ registered true = [0x300000] ∧
      registered false = [0x400000] ∧
      Visits id 0 (nextModule memory) 0x100000 [0x100000, 0x300000] := by
  have start : Reachable 0x100000 ⟨initCRS (fun _ => 0) 0x100000, fun _ => []⟩ :=
    .start ⟨by decide, ⟨_, rfl⟩, rfl⟩
  obtain ⟨_, first⟩ := start.next (a := .register 0x200000 true) ⟨by decide, by decide,
    show ∀ b ∈ [0x100000], Apart 0x200000 b by decide⟩
  obtain ⟨_, second⟩ := first.next (a := .register 0x300000 true) ⟨by decide, by decide,
    show ∀ b ∈ [0x100000, 0x200000], Apart 0x300000 b by decide⟩
  obtain ⟨_, third⟩ := second.next (a := .register 0x400000 false) ⟨by decide, by decide,
    show ∀ b ∈ [0x100000, 0x200000, 0x300000], Apart 0x400000 b by decide⟩
  obtain ⟨memory, left⟩ := third.next (a := .unregister 0x200000)
    ⟨true, List.mem_cons_self⟩
  exact ⟨memory, _, left, rfl, rfl, (module_lists_well_formed left).1⟩

end EmuThreeDS.ModuleLists
