import EmuThreeDS.LdrRo.Linking

/-!
# Relocation batches

What applying or resetting a batch changes: the words of its relocations and its flag.
-/
namespace EmuThreeDS.Linking

namespace RelocationEntry

def writes (r : RelocationEntry) : Bool :=
  r.type = .absoluteAddress ∨ r.type = .absoluteAddress2 ∨ r.type = .relativeAddress

def value (r : RelocationEntry) (target symbolAddress : Nat) : Nat :=
  if r.type = .relativeAddress then sub32 (add32 symbolAddress r.addend) target
  else add32 symbolAddress r.addend

theorem value_lt (r : RelocationEntry) (target symbolAddress : Nat) :
    r.value target symbolAddress < 0x100000000 := by
  unfold value
  split_ifs
  · exact Nat.mod_lt _ (by decide)
  · exact Nat.mod_lt _ (by decide)

end RelocationEntry

def Apart4 (t u : Nat) : Prop := t + 4 ≤ u ∨ u + 4 ≤ t

namespace Module

def target (m : Module) (r : RelocationEntry) : Nat := m.segmentTagToAddress r.targetPosition

def writeEntry (m : Module) (symbolAddress : Nat) (memory : ProcessBytes) (r : RelocationEntry) :
    ProcessBytes :=
  if r.writes then memory.write32 (m.target r) (r.value (m.target r) symbolAddress) else memory

def upToEnd : List RelocationEntry → List RelocationEntry
  | [] => []
  | r :: rest => if r.isBatchEnd then [r] else r :: upToEnd rest

def batch (m : Module) (i : Nat) : List RelocationEntry := upToEnd (m.externalRelocations.drop i)

structure SoundBatch (m : Module) (i : Nat) : Prop where
  ends : ∃ r ∈ m.externalRelocations.drop i, r.isBatchEnd
  sound : ∀ r ∈ m.batch i, m.target r ≠ 0 ∧ r.type ≠ .other

variable {r : RelocationEntry}

theorem upToEnd_subset {l : List RelocationEntry} (h : r ∈ upToEnd l) : r ∈ l := by
  induction l with
  | nil => exact h
  | cons x l ih =>
    rw [upToEnd] at h
    split_ifs at h
    · rw [List.mem_singleton] at h
      exact h ▸ List.mem_cons_self
    · rcases List.mem_cons.mp h with rfl | h
      · exact List.mem_cons_self
      · exact List.mem_cons_of_mem x (ih h)

theorem mem_of_mem_batch {m : Module} {i : Nat} (h : r ∈ m.batch i) : r ∈ m.externalRelocations :=
  List.mem_of_mem_drop (upToEnd_subset h)

end Module

theorem applyRelocation_eq (m : Module) (memory : ProcessBytes) (r : RelocationEntry)
    (symbolAddress : Nat) (known : r.type ≠ .other) :
    applyRelocation memory (m.target r) r.type r.addend symbolAddress (m.target r) =
      (.success, m.writeEntry symbolAddress memory r) := by
  unfold applyRelocation Module.writeEntry RelocationEntry.writes RelocationEntry.value
  cases type : r.type with
  | other => exact absurd type known
  | _ => simp

theorem applyEntries_eq (m : Module) (symbolAddress : Nat) (l : List RelocationEntry)
    (memory : ProcessBytes) (ends : ∃ r ∈ l, r.isBatchEnd)
    (sound : ∀ r ∈ Module.upToEnd l, m.target r ≠ 0 ∧ r.type ≠ .other) :
    applyEntries m symbolAddress l memory =
      .ok (.success, (Module.upToEnd l).foldl (m.writeEntry symbolAddress) memory) := by
  induction l generalizing memory with
  | nil =>
    obtain ⟨r, inside, _⟩ := ends
    exact nomatch inside
  | cons r l ih =>
    have first : r ∈ Module.upToEnd (r :: l) := by
      rw [Module.upToEnd]
      split_ifs <;> exact List.mem_cons_self
    obtain ⟨targeted, known⟩ := sound r first
    unfold applyEntries
    rw [show m.segmentTagToAddress r.targetPosition = m.target r from rfl, if_neg targeted,
      applyRelocation_eq m memory r symbolAddress known]
    simp only [ne_eq, not_true_eq_false, if_false]
    rw [Module.upToEnd] at sound ⊢
    by_cases last : r.isBatchEnd
    · rw [if_pos last, if_pos last]
      rfl
    · rw [if_neg last] at sound
      rw [if_neg last, if_neg last]
      apply ih
      · obtain ⟨x, inside, isEnd⟩ := ends
        rcases List.mem_cons.mp inside with rfl | inside
        · exact absurd isEnd last
        · exact ⟨x, inside, isEnd⟩
      · intro x inside
        exact sound x (List.mem_cons_of_mem r inside)

def Modules.word (s : Modules) (n : Nat) (r : RelocationEntry) : Nat :=
  s.memory.read32 ((s.tables n).target r)

section

variable {m : Module} {symbolAddress : Nat} {memory : ProcessBytes}

theorem read_foldl_of_apart {l : List RelocationEntry} {t : Nat}
    (apart : ∀ r ∈ l, r.writes → Apart4 (m.target r) t) :
    (l.foldl (m.writeEntry symbolAddress) memory).read32 t = memory.read32 t := by
  induction l generalizing memory with
  | nil => rfl
  | cons r l ih =>
    rw [List.foldl_cons, ih fun x inside => apart x (List.mem_cons_of_mem r inside)]
    unfold Module.writeEntry
    split_ifs with writes
    · exact ProcessBytes.read32_write32_of_apart (apart r List.mem_cons_self writes).symm
    · rfl

theorem read_foldl_of_mem {l : List RelocationEntry} (inside : r ∈ l) (writes : r.writes)
    (apart : ∀ x ∈ l, x.writes → x = r ∨ Apart4 (m.target x) (m.target r)) :
    (l.foldl (m.writeEntry symbolAddress) memory).read32 (m.target r) =
      r.value (m.target r) symbolAddress := by
  induction l generalizing memory with
  | nil => exact nomatch inside
  | cons x l ih =>
    rw [List.foldl_cons]
    have later := fun y (inside : y ∈ l) => apart y (List.mem_cons_of_mem x inside)
    by_cases again : r ∈ l
    · exact ih again later
    · have same : r = x := (List.mem_cons.mp inside).resolve_right again
      subst same
      rw [read_foldl_of_apart, Module.writeEntry, if_pos writes,
        ProcessBytes.read32_write32 (r.value_lt _ _)]
      intro y member ywrites
      exact (later y member ywrites).resolve_left fun same => again (same ▸ member)

end

def WordsApart (tables : Nat → Module) (known : Nat → Prop) : Prop :=
  ∀ n n', known n → known n' → ∀ r ∈ (tables n).externalRelocations,
    ∀ r' ∈ (tables n').externalRelocations, r.writes → r'.writes →
      n = n' ∧ r = r' ∨ Apart4 ((tables n).target r) ((tables n').target r')

structure Applied (known : Nat → Prop) (a i symbolAddress : Nat) (reset : Bool)
    (s s' : Modules) : Prop where
  tables : s'.tables = s.tables
  resolved : ∀ n j, s'.resolved n j = if n = a ∧ j = i then !reset else s.resolved n j
  inside : ∀ r ∈ (s.tables a).batch i, r.writes →
    s'.word a r = r.value ((s.tables a).target r) symbolAddress
  outside : ∀ n, known n → ∀ r ∈ (s.tables n).externalRelocations, r.writes →
    (n = a → r ∉ (s.tables a).batch i) → s'.word n r = s.word n r

theorem applyRelocationBatch_spec {known : Nat → Prop} {s : Modules} {a i : Nat}
    (sound : (s.tables a).SoundBatch i) (apart : WordsApart s.tables known) (isKnown : known a)
    {symbolAddress : Nat} {reset : Bool} (given : symbolAddress = 0 → reset = true) :
    ∃ s', applyRelocationBatch a i symbolAddress reset s = .ok (.success, s') ∧
      Applied known a i symbolAddress reset s s' := by
  unfold applyRelocationBatch
  rw [if_neg fun ⟨zero, still⟩ => by simp [given zero] at still,
    applyEntries_eq _ _ _ _ sound.ends sound.sound]
  refine ⟨_, rfl, rfl, fun _ _ => rfl, ?_, ?_⟩
  · intro r inside writes
    apply read_foldl_of_mem inside writes
    intro x member xwrites
    exact (apart a a isKnown isKnown x (Module.mem_of_mem_batch member) r
      (Module.mem_of_mem_batch inside) xwrites writes).imp_left And.right
  · intro n knownN r inside writes outside
    apply read_foldl_of_apart
    intro x member xwrites
    rcases apart a n isKnown knownN x (Module.mem_of_mem_batch member) r inside xwrites writes with
      ⟨rfl, rfl⟩ | apart
    · exact absurd member (outside rfl)
    · exact apart

/-!
## The loops of linking

What keeps an invariant and a relation of the modules before and after, through the loops over
table entries and over the auto-linked modules.
-/

/-- A call that succeeds, keeps `J`, and leaves the modules related to what they were. -/
def Goes (J : Modules → Prop) (R : Modules → Modules → Prop) (x : Answer) (s : Modules)
    (Q : Modules → Prop) : Prop :=
  ∃ s', x = .ok (.success, s') ∧ R s s' ∧ J s' ∧ Q s'

/-- A relation that the calls of a loop can be chained with. -/
structure Chains (R : Modules → Modules → Prop) : Prop where
  refl : ∀ s, R s s
  trans : ∀ s s' s'', R s s' → R s' s'' → R s s''

section

variable {J : Modules → Prop} {R : Modules → Modules → Prop} {x : Answer}
  {s : Modules} {Q Q' : Modules → Prop}

theorem Goes.mono {J' : Modules → Prop} {R' : Modules → Modules → Prop} (h : Goes J R x s Q)
    (keeps : ∀ s', R s s' → J s' → J' s') (related : ∀ s', R s s' → J s' → R' s s')
    (after : ∀ s', R s s' → J s' → Q s' → Q' s') : Goes J' R' x s Q' := by
  obtain ⟨s', runs, r, j, q⟩ := h
  exact ⟨s', runs, related s' r j, keeps s' r j, after s' r j q⟩

theorem Goes.weaken (h : Goes J R x s Q) (after : ∀ s', Q s' → Q' s') : Goes J R x s Q' :=
  h.mono (fun _ _ j => j) (fun _ r _ => r) fun s' _ _ => after s'

theorem goes_skip (chains : Chains R) (start : J s) (done : Q s) :
    Goes J R (.ok (.success, s)) s Q := ⟨s, rfl, chains.refl s, start, done⟩

theorem Goes.andThen (chains : Chains R) (first : Goes J R x s Q)
    (stable : ∀ s' s'', R s' s'' → Q s' → Q s'')
    (later : ∀ s', R s s' → J s' → Q s' → Goes J R (next s') s' Q') :
    Goes J R (Linking.andThen x next) s fun s' => Q s' ∧ Q' s' := by
  obtain ⟨s', runs, r, j, q⟩ := first
  obtain ⟨s'', runs', r', j', q'⟩ := later s' r j q
  refine ⟨s'', ?_, chains.trans _ _ _ r r', j', stable _ _ r' q, q'⟩
  unfold Linking.andThen
  rw [runs, ok_bind]
  exact (if_pos rfl).trans runs'

theorem goes_then (chains : Chains R) (first : Goes J R x s fun _ => True)
    (later : ∀ s', R s s' → J s' → Goes J R (next s') s' Q) :
    Goes J R (Linking.andThen x next) s Q :=
  (first.andThen chains (fun _ _ _ h => h) fun s' r j _ => later s' r j).weaken fun _ h => h.2

variable {α : Type} {f : α → Modules → Answer} {P : α → Modules → Prop}

theorem goes_each (chains : Chains R) (stable : ∀ y s s', R s s' → P y s → P y s')
    (one : ∀ y ∈ xs, ∀ s, J s → Goes J R (f y s) s (P y)) (start : J s) :
    Goes J R (each f xs s) s fun s' => ∀ y ∈ xs, P y s' := by
  induction xs generalizing s with
  | nil => exact goes_skip chains start nofun
  | cons y xs ih =>
    have both : Goes J R (Linking.andThen (f y s) (each f xs)) s fun s' =>
        P y s' ∧ ∀ z ∈ xs, P z s' :=
      (one y List.mem_cons_self s start).andThen chains (fun _ _ => stable y _ _)
        fun s' _ j _ => ih (fun z inside => one z (List.mem_cons_of_mem y inside)) j
    exact both.weaken fun s' ⟨first, rest⟩ => List.forall_mem_cons.mpr ⟨first, rest⟩

theorem goes_each_of (chains : Chains R)
    (one : ∀ y ∈ xs, ∀ s, J s → Goes J R (f y s) s fun _ => True) (start : J s) :
    Goes J R (each f xs s) s fun _ => True :=
  (goes_each chains (P := fun _ _ => True) (fun _ _ _ _ h => h) one start).weaken fun _ _ => trivial

theorem goes_search (chains : Chains R)
    {func : Nat → Modules → Exec ((ResultCode × Bool) × Modules)} {l : List Nat}
    (one : ∀ cro ∈ l, ∀ s, J s → ∃ next s', func cro s = .ok ((.success, next), s') ∧
      R s s' ∧ J s') (start : J s) : Goes J R (forEachAutoLinkCRO func l s) s fun _ => True := by
  induction l generalizing s with
  | nil => exact goes_skip chains start trivial
  | cons cro l ih =>
    obtain ⟨next, s', runs, r, j⟩ := one cro List.mem_cons_self s start
    rw [forEachAutoLinkCRO, runs]
    cases next with
    | false => exact ⟨s', rfl, r, j, trivial⟩
    | true =>
      obtain ⟨s'', runs', r', j', _⟩ :=
        ih (fun z inside => one z (List.mem_cons_of_mem cro inside)) j
      exact ⟨s'', runs', chains.trans _ _ _ r r', j', trivial⟩

theorem goes_all (chains : Chains R) {P : Nat → Modules → Prop}
    (stable : ∀ y s s', R s s' → P y s → P y s') {call : Nat → Modules → Answer} {l : List Nat}
    (one : ∀ cro ∈ l, ∀ s, J s → Goes J R (call cro s) s (P cro)) (start : J s) :
    Goes J R (forEachAutoLinkCRO (fun target s => do
      let (result, s) ← call target s
      .ok ((result, true), s)) l s) s fun s' => ∀ cro ∈ l, P cro s' := by
  induction l generalizing s with
  | nil => exact goes_skip chains start (by rintro _ ⟨⟩)
  | cons cro l ih =>
    obtain ⟨s', runs, r, j, p⟩ := one cro List.mem_cons_self s start
    obtain ⟨s'', runs', r', j', rest⟩ :=
      ih (fun z inside => one z (List.mem_cons_of_mem cro inside)) j
    refine ⟨s'', ?_, chains.trans _ _ _ r r', j',
      List.forall_mem_cons.mpr ⟨stable cro _ _ r' p, rest⟩⟩
    rw [forEachAutoLinkCRO, runs]
    exact runs'

end

end EmuThreeDS.Linking
