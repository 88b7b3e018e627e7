import EmuThreeDS.LdrRo.CROHelper
import EmuThreeDS.Lib.Runs
import EmuThreeDS.Lib.LinkedLists

/-!
# The lists of registered modules (`cro_helper.cpp`)

Auto-linked modules hang on the `NextCRO` field of the static module, the others on its
`PreviousCRO` field.
-/
namespace EmuThreeDS

open SemicircularList

namespace CROHelper

def initCRS (m : ProcessBytes) (crs : Nat) : ProcessBytes :=
  setPreviousModule (setNextModule m crs 0) crs 0

def headOf (m : ProcessBytes) (crs : Nat) (autoLink : Bool) : Nat :=
  if autoLink then nextModule m crs else previousModule m crs

def setHeadOf (m : ProcessBytes) (crs : Nat) (autoLink : Bool) (value : Nat) : ProcessBytes :=
  if autoLink then setNextModule m crs value else setPreviousModule m crs value

def register (m : ProcessBytes) (crs a : Nat) (autoLink : Bool) : Exec ProcessBytes :=
  let head := headOf m crs autoLink
  if head ≠ 0 then do
    let tail := previousModule m head
    assert .croRegister (nextModule m tail = 0)
    let m := setPreviousModule m a tail
    let m := setNextModule m tail a
    let m := setPreviousModule m head a
    .ok (setNextModule m a 0)
  else
    let m := setPreviousModule m a a
    let m := setHeadOf m crs autoLink a
    .ok (setNextModule m a 0)

/-- `Unregister` up to the last two lines. -/
def unchain (m : ProcessBytes) (crs a : Nat) : Exec ProcessBytes :=
  let nextHead := nextModule m crs
  let previousHead := previousModule m crs
  let next := nextModule m a
  let previous := previousModule m a
  if a = nextHead ∨ a = previousHead then
    let m := if next ≠ 0 then setPreviousModule m next previous else m
    if a = previousHead then .ok (setPreviousModule m crs next)
    else .ok (setNextModule m crs next)
  else if next ≠ 0 then
    .ok (setPreviousModule (setNextModule m previous next) next previous)
  else
    let m := setNextModule m previous 0
    if nextHead ≠ 0 ∧ previousModule m nextHead = a then
      .ok (setPreviousModule m nextHead previous)
    else if previousHead ≠ 0 ∧ previousModule m previousHead = a then
      .ok (setPreviousModule m previousHead previous)
    else .error (.assertion .croUnregister)

def unregister (m : ProcessBytes) (crs a : Nat) : Exec ProcessBytes := do
  let m ← unchain m crs a
  .ok (setPreviousModule (setNextModule m a 0) a 0)

structure Arranged (places : List Nat) : Prop where
  fits : ∀ a ∈ places, Fits a
  apart : places.Pairwise Apart

section

variable {places : List Nat} {m : ProcessBytes} {a b value : Nat} {field other : HeaderField}

section

variable (h : Arranged places) (ha : a ∈ places)
include h ha

theorem Arranged.same_or_apart (hb : b ∈ places) : a = b ∨ Apart a b := by
  by_cases same : a = b
  · exact .inl same
  · exact .inr (h.apart.forall ha hb same)

theorem Arranged.small : a < 0x100000000 := by
  have := h.fits a ha
  unfold Fits croHeaderSize at this
  omega

theorem Arranged.getField_setField (hb : b ∈ places) (small : value < 0x100000000) :
    getField (setField m a field value) b other =
      if b = a ∧ field = other then value else getField m b other := by
  split_ifs with here
  · obtain ⟨rfl, rfl⟩ := here
    exact CROHelper.getField_setField small
  · apply getField_setField_of_ne (h.fits a ha) (h.fits b hb)
    rcases h.same_or_apart ha hb with rfl | apart
    · exact .inl ⟨rfl, fun same => here ⟨rfl, same⟩⟩
    · exact .inr apart

end

variable (h : Arranged places) (ha : a ∈ places) (hb : b ∈ places) (small : value < 0x100000000)
include h ha hb small

theorem Arranged.next_setNext :
    nextModule (setNextModule m a value) b = if b = a then value else nextModule m b := by
  unfold nextModule setNextModule
  rw [h.getField_setField ha hb small]
  simp only [and_true]

theorem Arranged.next_setPrevious :
    nextModule (setPreviousModule m a value) b = nextModule m b := by
  unfold nextModule setPreviousModule
  rw [h.getField_setField ha hb small, if_neg]
  exact fun both => nomatch both.2

theorem Arranged.previous_setPrevious : previousModule (setPreviousModule m a value) b =
      if b = a then value else previousModule m b := by
  unfold previousModule setPreviousModule
  rw [h.getField_setField ha hb small]
  simp only [and_true]

theorem Arranged.previous_setNext :
    previousModule (setNextModule m a value) b = previousModule m b := by
  unfold previousModule setNextModule
  rw [h.getField_setField ha hb small, if_neg]
  exact fun both => nomatch both.2

end

end CROHelper

open CROHelper

/-- The memory, and the modules registered in it: `true` is for the auto-linked ones. -/
structure ModuleLists where
  memory : ProcessBytes
  registered : Bool → List Nat

namespace ModuleLists

inductive Action where
  | register (a : Nat) (autoLink : Bool)
  | unregister (a : Nat)
  | other (memory : ProcessBytes)

def step (crs : Nat) (s : ModuleLists) : Action → Exec ModuleLists
  | .register a autoLink => do
    let memory ← register s.memory crs a autoLink
    .ok
      { memory
        registered := Function.update s.registered autoLink (s.registered autoLink ++ [a]) }
  | .unregister a => do
    let memory ← unregister s.memory crs a
    .ok { memory, registered := fun kind => (s.registered kind).erase a }
  | .other memory => .ok { s with memory }

def places (crs : Nat) (s : ModuleLists) : List Nat :=
  crs :: (s.registered true ++ s.registered false)

/-- A new module lies apart from those there are, one that leaves is there, and what else the
process does to its memory spares the links. -/
def Allowed (crs : Nat) (s : ModuleLists) : Action → Prop
  | .register a _ => a ≠ 0 ∧ Fits a ∧ ∀ b ∈ s.places crs, Apart a b
  | .unregister a => ∃ kind, a ∈ s.registered kind
  | .other memory => ∀ b ∈ s.places crs,
    nextModule memory b = nextModule s.memory b ∧
      previousModule memory b = previousModule s.memory b

def Start (crs : Nat) (s : ModuleLists) : Prop :=
  Fits crs ∧ (∃ m, s.memory = initCRS m crs) ∧ s.registered = fun _ => []

abbrev Reachable (crs : Nat) (s : ModuleLists) : Prop :=
  Runs.Reachable (Start crs) (fun s a s' => step crs s a = .ok s') (Allowed crs) s

structure WellFormed (crs : Nat) (s : ModuleLists) : Prop where
  arranged : Arranged (s.places crs)
  listed : ∀ kind, Listed 0 (nextModule s.memory) (previousModule s.memory)
    (headOf s.memory crs kind) (s.registered kind)

end ModuleLists

end EmuThreeDS

/-!
## The module lists stay well formed

Registering appends to one of the two lists, unregistering removes from the one that holds the
module. Neither touches the links of the other list.
-/
namespace EmuThreeDS

open SemicircularList

namespace CROHelper

variable {places l pre post : List Nat} {m m' : ProcessBytes} {crs a y : Nat} {kind other : Bool}

def SameLinks (m m' : ProcessBytes) (y : Nat) : Prop :=
  nextModule m' y = nextModule m y ∧ previousModule m' y = previousModule m y

structure Relists (places : List Nat) (crs : Nat) (kind : Bool) (m m' : ProcessBytes)
    (touched l : List Nat) : Prop where
  listed : Listed 0 (nextModule m') (previousModule m') (headOf m' crs kind) l
  otherHead : ∀ other, other ≠ kind → headOf m' crs other = headOf m crs other
  untouched : ∀ y ∈ places, y ∉ touched → y ≠ crs → SameLinks m m' y

theorem Arranged.headOf_setHeadOf (h : Arranged places) (hc : crs ∈ places)
    {value : Nat} (small : value < 0x100000000) : headOf (setHeadOf m crs kind value) crs other =
      if other = kind then value else headOf m crs other := by
  cases kind <;> cases other <;>
    simp [headOf, setHeadOf, h.next_setNext hc hc small, h.next_setPrevious hc hc small,
      h.previous_setNext hc hc small, h.previous_setPrevious hc hc small]

theorem Arranged.setHeadOf_links (h : Arranged places) (hc : crs ∈ places) (hy : y ∈ places)
    (ne : y ≠ crs) {value : Nat} (small : value < 0x100000000) :
    SameLinks m (setHeadOf m crs kind value) y := by
  unfold SameLinks
  cases kind <;>
    simp [setHeadOf, h.next_setNext hc hy small, h.next_setPrevious hc hy small,
      h.previous_setNext hc hy small, h.previous_setPrevious hc hy small, ne]

theorem headOf_congr (same : SameLinks m m' crs) : headOf m' crs other = headOf m crs other := by
  unfold headOf
  rw [same.1, same.2]

theorem register_first (h : Arranged places) (hc : crs ∈ places) (ha : a ∈ places)
    (proper : a ≠ 0) (ne : a ≠ crs) (empty : headOf m crs kind = 0) :
    ∃ m', register m crs a kind = .ok m' ∧ Relists places crs kind m m' [a] [a] := by
  have small := h.small ha
  have same : SameLinks (setHeadOf (setPreviousModule m a a) crs kind a)
      (setNextModule (setHeadOf (setPreviousModule m a a) crs kind a) a 0) crs := by
    constructor
    · rw [h.next_setNext ha hc (by omega), if_neg ne.symm]
    · rw [h.previous_setNext ha hc (by omega)]
  refine ⟨_, by rw [register, if_neg (not_not.mpr empty)], ?_, ?_, ?_⟩
  · have head : headOf (setNextModule (setHeadOf (setPreviousModule m a a) crs kind a) a 0) crs kind
        = a := by
      rw [headOf_congr same, h.headOf_setHeadOf hc small, if_pos rfl]
    rw [head]
    apply Listed.single proper
    · rw [h.next_setNext ha ha (by omega), if_pos rfl]
    · rw [h.previous_setNext ha ha (by omega), (h.setHeadOf_links hc ha ne small).2,
        h.previous_setPrevious ha ha small, if_pos rfl]
  · intro other differ
    have before : SameLinks m (setPreviousModule m a a) crs := by
      constructor
      · rw [h.next_setPrevious ha hc small]
      · rw [h.previous_setPrevious ha hc small, if_neg ne.symm]
    rw [headOf_congr same, h.headOf_setHeadOf hc small, if_neg differ, headOf_congr before]
  · intro y hy out apart
    have other : y ≠ a := fun same => out (List.mem_singleton.mpr same)
    constructor
    · rw [h.next_setNext ha hy (by omega), if_neg other, (h.setHeadOf_links hc hy apart small).1,
        h.next_setPrevious ha hy small]
    · rw [h.previous_setNext ha hy (by omega), (h.setHeadOf_links hc hy apart small).2,
        h.previous_setPrevious ha hy small, if_neg other]

def Viewed (places : List Nat) (m : ProcessBytes) (next previous : Nat → Nat) : Prop :=
  ∀ y ∈ places, nextModule m y = next y ∧ previousModule m y = previous y

section

variable {next previous : Nat → Nat} {value : Nat}

theorem Viewed.refl (places : List Nat) (m : ProcessBytes) :
    Viewed places m (nextModule m) (previousModule m) := fun _ _ => ⟨rfl, rfl⟩

section

variable (v : Viewed places m next previous) (h : Arranged places) (ha : a ∈ places)
  (small : value < 0x100000000)
include v h ha small

theorem Viewed.setNext :
    Viewed places (setNextModule m a value) (Function.update next a value) previous := by
  intro y hy
  obtain ⟨nexts, prevs⟩ := v y hy
  rw [h.next_setNext ha hy small, h.previous_setNext ha hy small, nexts, prevs]
  refine ⟨?_, rfl⟩
  rw [Function.update_apply]

theorem Viewed.setPrevious :
    Viewed places (setPreviousModule m a value) next (Function.update previous a value) := by
  intro y hy
  obtain ⟨nexts, prevs⟩ := v y hy
  rw [h.next_setPrevious ha hy small, h.previous_setPrevious ha hy small, nexts, prevs]
  refine ⟨rfl, ?_⟩
  rw [Function.update_apply]

end

theorem Viewed.listed (v : Viewed places m next previous) {head : Nat}
    (inside : ∀ y ∈ l, y ∈ places) (h : Listed 0 next previous head l) :
    Listed 0 (nextModule m) (previousModule m) head l :=
  h.congr (fun y mem => (v y (inside y mem)).1) fun y mem => (v y (inside y mem)).2

theorem Viewed.same (v : Viewed places m' next previous) (hy : y ∈ places)
    (nexts : next y = nextModule m y) (prevs : previous y = previousModule m y) :
    SameLinks m m' y :=
  ⟨(v y hy).1.trans nexts, (v y hy).2.trans prevs⟩

end

theorem register_after (h : Arranged places) (hc : crs ∈ places) (ha : a ∈ places)
    {tail : Nat} (inside : ∀ y ∈ pre ++ [tail], y ∈ places) (apart : crs ∉ pre ++ [tail])
    (fresh : a ∉ pre ++ [tail]) (proper : a ≠ 0) (ne : a ≠ crs)
    (listed : Listed 0 (nextModule m) (previousModule m) (headOf m crs kind) (pre ++ [tail])) :
    ∃ m', register m crs a kind = .ok m' ∧
      Relists places crs kind m m' (a :: (pre ++ [tail])) (pre ++ [tail] ++ [a]) := by
  have small := h.small ha
  have tailIn : tail ∈ pre ++ [tail] := by simp
  obtain ⟨headIn, toTail⟩ := listed.first
  have nonzero : headOf m crs kind ≠ 0 := fun same => listed.proper (same ▸ headIn)
  have atEnd : nextModule m tail = 0 := (listed.links (b := [])).1
  have smallTail := h.small (inside tail tailIn)
  have view := ((((Viewed.refl places m).setPrevious h ha smallTail).setNext h
    (inside tail tailIn) small).setPrevious h (inside _ headIn) small).setNext h ha
    (by omega : 0 < 0x100000000)
  have ran : register m crs a kind = .ok (setNextModule (setPreviousModule (setNextModule
      (setPreviousModule m a tail) tail a) (headOf m crs kind) a) a 0) := by
    rw [register, if_pos nonzero, toTail]
    dsimp only
    rw [assert_pos atEnd, ok_bind]
  generalize setNextModule (setPreviousModule _ (headOf m crs kind) a) a 0 = m' at view ran
  have apartOf : ∀ y, y ∉ a :: (pre ++ [tail]) → y ≠ a ∧ y ≠ tail ∧ y ≠ headOf m crs kind := by
    intro y out
    rw [List.mem_cons, not_or] at out
    exact ⟨out.1, fun same => out.2 (same ▸ tailIn), fun same => out.2 (same ▸ headIn)⟩
  have untouched : ∀ y ∈ places, y ∉ a :: (pre ++ [tail]) → SameLinks m m' y := by
    intro y hy out
    obtain ⟨one, two, three⟩ := apartOf y out
    apply view.same hy
    · rw [Function.update_of_ne one, Function.update_of_ne two]
    · rw [Function.update_of_ne three, Function.update_of_ne one]
  have crsOut : crs ∉ a :: (pre ++ [tail]) := by
    rw [List.mem_cons, not_or]
    exact ⟨ne.symm, apart⟩
  refine ⟨m', ran, ?_, fun other _ => headOf_congr (untouched crs hc crsOut),
    fun y hy out _ => untouched y hy out⟩
  · rw [headOf_congr (untouched crs hc crsOut)]
    apply view.listed
    · intro y mem
      rcases List.mem_append.mp mem with old | new
      · exact inside y old
      · exact List.mem_singleton.mp new ▸ ha
    · apply listed.push proper fresh
      · exact Function.update_self ..
      · rw [Function.update_of_ne (ne_of_mem_of_not_mem headIn fresh).symm, Function.update_self]
      · intro y mem
        rw [Function.update_of_ne (ne_of_mem_of_not_mem mem fresh), Function.update_apply]
      · intro y mem
        rw [Function.update_apply, Function.update_of_ne (ne_of_mem_of_not_mem mem fresh)]

def NotElsewhere (m : ProcessBytes) (crs a : Nat) (kind : Bool) : Prop :=
  ∀ other, other ≠ kind → headOf m crs other ≠ a ∧
    (headOf m crs other ≠ 0 → previousModule m (headOf m crs other) ≠ a)

theorem unchain_head (elsewhere : NotElsewhere m crs a kind) (head : headOf m crs kind = a) :
    unchain m crs a = .ok (setHeadOf (if nextModule m a ≠ 0 then
      setPreviousModule m (nextModule m a) (previousModule m a) else m) crs kind
        (nextModule m a)) := by
  cases kind with
  | true =>
    have other := (elsewhere false nofun).1
    unfold unchain
    rw [if_pos (.inl head.symm)]
    exact if_neg other.symm
  | false =>
    unfold unchain
    rw [if_pos (.inr head.symm)]
    exact if_pos head.symm

theorem NotElsewhere.not_head (elsewhere : NotElsewhere m crs a kind)
    (head : headOf m crs kind ≠ a) : ¬ (a = nextModule m crs ∨ a = previousModule m crs) := by
  rintro (same | same)
  · cases kind with
    | true => exact head same.symm
    | false => exact (elsewhere true nofun).1 same.symm
  · cases kind with
    | true => exact (elsewhere false nofun).1 same.symm
    | false => exact head same.symm

theorem unchain_inner (elsewhere : NotElsewhere m crs a kind) (head : headOf m crs kind ≠ a)
    (more : nextModule m a ≠ 0) :
    unchain m crs a = .ok (setPreviousModule (setNextModule m (previousModule m a)
      (nextModule m a)) (nextModule m a) (previousModule m a)) := by
  unfold unchain
  rw [if_neg (elsewhere.not_head head)]
  exact if_pos more

section

variable (h : Arranged places)
include h

theorem unchain_tail (elsewhere : NotElsewhere m crs a kind)
    (head : headOf m crs kind ≠ a) (nonzero : headOf m crs kind ≠ 0)
    (headIn : headOf m crs kind ∈ places) (before : previousModule m a ∈ places)
    (otherIn : ∀ other, other ≠ kind → headOf m crs other ≠ 0 → headOf m crs other ∈ places)
    (last : nextModule m a = 0) (tail : previousModule m (headOf m crs kind) = a) :
    unchain m crs a = .ok (setPreviousModule (setNextModule m (previousModule m a) 0)
      (headOf m crs kind) (previousModule m a)) := by
  have kept : previousModule (setNextModule m (previousModule m a) 0) (headOf m crs kind) = a := by
    rw [h.previous_setNext before headIn (by omega), tail]
  unfold unchain
  rw [if_neg (elsewhere.not_head head)]
  rw [if_neg (not_not.mpr last)]
  cases kind with
  | true => exact if_pos ⟨nonzero, kept⟩
  | false =>
    have wrong : ¬ (nextModule m crs ≠ 0 ∧ previousModule
        (setNextModule m (previousModule m a) 0) (nextModule m crs) = a) := by
      rintro ⟨some, same⟩
      have inPlaces : nextModule m crs ∈ places := otherIn true nofun some
      rw [h.previous_setNext before inPlaces (by omega)] at same
      exact (elsewhere true nofun).2 some same
    rw [if_neg wrong]
    exact if_pos ⟨nonzero, kept⟩

theorem unregister_of_unchain (ha : a ∈ places) (hc : crs ∈ places)
    (ne : a ≠ crs) {touched : List Nat} (mem : a ∈ touched) (out : a ∉ l)
    (inside : ∀ y ∈ l, y ∈ places) {m₁ : ProcessBytes} (ran : unchain m crs a = .ok m₁)
    (relists : Relists places crs kind m m₁ touched l) :
    ∃ m', unregister m crs a = .ok m' ∧ Relists places crs kind m m' touched l := by
  have view := ((Viewed.refl places m₁).setNext h ha (by omega : 0 < 0x100000000)).setPrevious h
    ha (by omega : 0 < 0x100000000)
  have same : ∀ y ∈ places, y ≠ a →
      SameLinks m₁ (setPreviousModule (setNextModule m₁ a 0) a 0) y := by
    intro y hy other
    apply view.same hy
    · rw [Function.update_of_ne other]
    · rw [Function.update_of_ne other]
  have heads (other : Bool) := @headOf_congr _ _ _ other (same crs hc ne.symm)
  have ends : unregister m crs a = .ok (setPreviousModule (setNextModule m₁ a 0) a 0) := by
    rw [unregister, ran, ok_bind]
  generalize setPreviousModule (setNextModule m₁ a 0) a 0 = m' at same heads ends
  refine ⟨m', ends, ?_, ?_, ?_⟩
  · rw [heads kind]
    apply relists.listed.congr
    · exact fun y mem => (same y (inside y mem) (ne_of_mem_of_not_mem mem out)).1
    · exact fun y mem => (same y (inside y mem) (ne_of_mem_of_not_mem mem out)).2
  · intro other differ
    rw [heads other, relists.otherHead other differ]
  · intro y hy apart notCrs
    have before := relists.untouched y hy apart notCrs
    have after := same y hy (ne_of_mem_of_not_mem mem apart).symm
    exact ⟨after.1.trans before.1, after.2.trans before.2⟩

theorem unchain_first (hc : crs ∈ places) (inside : ∀ y ∈ a :: post, y ∈ places)
    (apart : crs ∉ a :: post) (elsewhere : NotElsewhere m crs a kind)
    (listed : Listed 0 (nextModule m) (previousModule m) (headOf m crs kind) (a :: post)) :
    ∃ m', unchain m crs a = .ok m' ∧ Relists places crs kind m m' (a :: post) post := by
  have head : headOf m crs kind = a := listed.head_eq
  have toNext : nextModule m a = post.head?.getD 0 := (listed.links (a := [])).1
  have toTail : previousModule m a = (a :: post).getLast?.getD 0 := (listed.links (a := [])).2
  have nextIn : nextModule m a ≠ 0 → nextModule m a ∈ post := by
    rw [toNext]
    cases post with
    | nil => exact fun some => absurd rfl some
    | cons y post => exact fun _ => List.mem_cons_self ..
  have tailIn : previousModule m a ∈ a :: post := by
    rw [toTail]
    exact List.getLast_mem _
  have smallTail := h.small (inside _ tailIn)
  have smallNext : nextModule m a < 0x100000000 := by
    by_cases some : nextModule m a = 0
    · omega
    · exact h.small (inside _ (List.mem_cons_of_mem _ (nextIn some)))
  refine ⟨_, unchain_head elsewhere head, ?_⟩
  -- The links after the first of the two writes.
  obtain ⟨m₁, relink, view⟩ : ∃ m₁, (if nextModule m a ≠ 0 then
      setPreviousModule m (nextModule m a) (previousModule m a) else m) = m₁ ∧
      ∀ y ∈ places, nextModule m₁ y = nextModule m y ∧ previousModule m₁ y =
        if y = nextModule m a ∧ nextModule m a ≠ 0 then previousModule m a
        else previousModule m y := by
    refine ⟨_, rfl, fun y hy => ?_⟩
    by_cases some : nextModule m a = 0
    · rw [if_neg (not_not.mpr some), if_neg fun both => both.2 some]
      exact ⟨rfl, rfl⟩
    · have nextPlace := inside _ (List.mem_cons_of_mem _ (nextIn some))
      rw [if_pos some, h.next_setPrevious nextPlace hy smallTail,
        h.previous_setPrevious nextPlace hy smallTail]
      simp only [and_iff_left some, true_and]
  rw [relink]
  have crsSame : SameLinks m m₁ crs := by
    obtain ⟨nexts, prevs⟩ := view crs hc
    refine ⟨nexts, ?_⟩
    rw [prevs, if_neg]
    rintro ⟨same, some⟩
    exact apart (same ▸ List.mem_cons_of_mem _ (nextIn some))
  refine ⟨?_, ?_, ?_⟩
  · rw [h.headOf_setHeadOf hc smallNext, if_pos rfl]
    have walk : Listed 0 (nextModule m₁) (previousModule m₁) (nextModule m a) post :=
      listed.removeHead (fun y mem => (view y (inside y (List.mem_cons_of_mem _ mem))).1) (by
        intro y mem
        rw [(view y (inside y (List.mem_cons_of_mem _ mem))).2]
        have some : y ≠ 0 := fun same => listed.proper (same ▸ List.mem_cons_of_mem _ mem)
        by_cases here : y = nextModule m a
        · rw [if_pos ⟨here, here ▸ some⟩, if_pos here]
        · rw [if_neg fun both => here both.1, if_neg here])
    apply walk.congr
    · intro y mem
      have place := inside y (List.mem_cons_of_mem _ mem)
      have other : y ≠ crs := fun same => apart (same ▸ List.mem_cons_of_mem _ mem)
      exact (h.setHeadOf_links hc place other smallNext).1
    · intro y mem
      have place := inside y (List.mem_cons_of_mem _ mem)
      have other : y ≠ crs := fun same => apart (same ▸ List.mem_cons_of_mem _ mem)
      exact (h.setHeadOf_links hc place other smallNext).2
  · intro other differ
    rw [h.headOf_setHeadOf hc smallNext, if_neg differ, headOf_congr crsSame]
  · intro y hy out notCrs
    obtain ⟨nexts, prevs⟩ := view y hy
    have after : SameLinks m₁ (setHeadOf m₁ crs kind (nextModule m a)) y :=
      h.setHeadOf_links hc hy notCrs smallNext
    refine ⟨after.1.trans nexts, after.2.trans (prevs.trans (if_neg ?_))⟩
    rintro ⟨same, some⟩
    exact out (same ▸ List.mem_cons_of_mem _ (nextIn some))

theorem unchain_middle (hc : crs ∈ places) {tail next : Nat}
    (inside : ∀ y ∈ pre ++ tail :: a :: next :: post, y ∈ places)
    (apart : crs ∉ pre ++ tail :: a :: next :: post) (elsewhere : NotElsewhere m crs a kind)
    (listed : Listed 0 (nextModule m) (previousModule m) (headOf m crs kind)
      (pre ++ tail :: a :: next :: post)) :
    ∃ m', unchain m crs a = .ok m' ∧ Relists places crs kind m m' (pre ++ tail :: a :: next :: post)
        (pre ++ tail :: next :: post) := by
  obtain ⟨toNext, toTail, head⟩ := listed.inner
  rw [List.head?_cons, Option.getD_some] at toNext
  have shorter : pre ++ tail :: next :: post ⊆ pre ++ tail :: a :: next :: post :=
    ((List.Sublist.cons_cons tail (List.sublist_cons_self a _)).append_left pre).subset
  have tailIn : tail ∈ pre ++ tail :: a :: next :: post := by simp
  have nextIn : next ∈ pre ++ tail :: a :: next :: post := by simp
  have some : nextModule m a ≠ 0 := toNext ▸ fun same => listed.proper (same ▸ nextIn)
  have view := ((Viewed.refl places m).setNext h (inside tail tailIn)
    (h.small (inside next nextIn))).setPrevious h (inside next nextIn)
    (h.small (inside tail tailIn))
  have ran := unchain_inner elsewhere head some
  rw [toNext, toTail] at ran
  generalize setPreviousModule _ next tail = m' at view ran
  have untouched : ∀ y ∈ places, y ∉ pre ++ tail :: a :: next :: post → SameLinks m m' y := by
    intro y hy out
    apply view.same hy
    · exact Function.update_of_ne (ne_of_mem_of_not_mem tailIn out).symm ..
    · exact Function.update_of_ne (ne_of_mem_of_not_mem nextIn out).symm ..
  refine ⟨m', ran, ?_, fun other _ => headOf_congr (untouched crs hc apart),
    fun y hy out _ => untouched y hy out⟩
  rw [headOf_congr (untouched crs hc apart)]
  apply view.listed (fun y mem => inside y (shorter mem))
  apply listed.removeInner
  · intro y mem
    rw [Function.update_apply, toNext, toTail]
  · intro y mem
    rw [Function.update_apply, toNext, toTail]

theorem unchain_last (hc : crs ∈ places) {tail : Nat}
    (inside : ∀ y ∈ pre ++ [tail, a], y ∈ places) (apart : crs ∉ pre ++ [tail, a])
    (elsewhere : NotElsewhere m crs a kind)
    (otherIn : ∀ other, other ≠ kind → headOf m crs other ≠ 0 → headOf m crs other ∈ places)
    (listed : Listed 0 (nextModule m) (previousModule m) (headOf m crs kind) (pre ++ [tail, a])) :
    ∃ m', unchain m crs a = .ok m' ∧
      Relists places crs kind m m' (pre ++ [tail, a]) (pre ++ [tail]) := by
  obtain ⟨last, toTail, head⟩ := listed.inner
  have whole : pre ++ [tail, a] = pre ++ [tail] ++ [a] := by simp
  obtain ⟨headIn, headTail⟩ := Listed.first (whole ▸ listed)
  rw [← whole] at headIn
  have tailIn : tail ∈ pre ++ [tail, a] := by simp
  have nonzero : headOf m crs kind ≠ 0 := fun same => listed.proper (same ▸ headIn)
  have view := ((Viewed.refl places m).setNext h (inside tail tailIn)
    (by omega : 0 < 0x100000000)).setPrevious h (inside _ headIn) (h.small (inside tail tailIn))
  have ran := unchain_tail h elsewhere head nonzero (inside _ headIn)
    (toTail ▸ inside tail tailIn) otherIn last headTail
  rw [toTail] at ran
  generalize setPreviousModule _ (headOf m crs kind) tail = m' at view ran
  have untouched : ∀ y ∈ places, y ∉ pre ++ [tail, a] → SameLinks m m' y := by
    intro y hy out
    apply view.same hy
    · exact Function.update_of_ne (ne_of_mem_of_not_mem tailIn out).symm ..
    · exact Function.update_of_ne (ne_of_mem_of_not_mem headIn out).symm ..
  refine ⟨m', ran, ?_, fun other _ => headOf_congr (untouched crs hc apart),
    fun y hy out _ => untouched y hy out⟩
  rw [headOf_congr (untouched crs hc apart)]
  apply view.listed
  · intro y mem
    exact inside y (whole ▸ List.mem_append_left _ mem)
  · apply listed.removeTail
    · intro y mem
      rw [Function.update_apply, toTail]
    · intro y mem
      rw [Function.update_apply, toTail]

theorem unregister_relists (hc : crs ∈ places)
    (inside : ∀ y ∈ pre ++ a :: post, y ∈ places) (apart : crs ∉ pre ++ a :: post)
    (elsewhere : NotElsewhere m crs a kind)
    (otherIn : ∀ other, other ≠ kind → headOf m crs other ≠ 0 → headOf m crs other ∈ places)
    (listed : Listed 0 (nextModule m) (previousModule m) (headOf m crs kind) (pre ++ a :: post)) :
    ∃ m', unregister m crs a = .ok m' ∧
      Relists places crs kind m m' (pre ++ a :: post) (pre ++ post) := by
  have mem : a ∈ pre ++ a :: post := by simp
  have out : a ∉ pre ++ post := (List.nodup_middle.mp listed.distinct |> List.nodup_cons.mp).1
  have rest : ∀ y ∈ pre ++ post, y ∈ places := by
    intro y inRest
    apply inside y
    rcases List.mem_append.mp inRest with front | back
    · exact List.mem_append_left _ front
    · exact List.mem_append_right _ (List.mem_cons_of_mem _ back)
  have ne : a ≠ crs := fun same => apart (same ▸ mem)
  have unchained : ∃ m', unchain m crs a = .ok m' ∧
      Relists places crs kind m m' (pre ++ a :: post) (pre ++ post) := by
    rcases List.eq_nil_or_concat pre with rfl | ⟨pre, tail, rfl⟩
    · exact unchain_first h hc inside apart elsewhere listed
    · simp only [List.concat_eq_append, List.append_assoc, List.singleton_append]
        at inside apart listed ⊢
      cases post with
      | nil => exact unchain_last h hc inside apart elsewhere otherIn listed
      | cons next post => exact unchain_middle h hc inside apart elsewhere listed
  obtain ⟨m₁, ran, relists⟩ := unchained
  exact unregister_of_unchain h (inside a mem) hc ne mem out rest ran relists

end

end CROHelper

end EmuThreeDS
