import EmuThreeDS.LdrRo.Batches

/-!
# Linking and unlinking a module

Linking applies what the module exports to the batches of the other modules that it reaches and
that are not resolved, or belong to an import from it. Unlinking resets all that it reaches.
-/
namespace EmuThreeDS.Linking

/-- The module's exports reach a batch of `n`: by the name of a symbol, or by the module's own
name. -/
def Reaches (T : Nat → Module) (a n i : Nat) : Prop :=
  (∃ e ∈ (T n).importNamedSymbols, e.relocationBatch = i ∧
    ∃ x, (T a).findExportNamedSymbol e.name = .ok x ∧ x ≠ 0) ∨
  ∃ e ∈ (T n).importModules, e.name = (T a).name ∧
    ((∃ im ∈ e.importIndexedSymbols, im.relocationBatch = i) ∨
      ∃ im ∈ e.importAnonymousSymbols, im.relocationBatch = i)

def Module.batches (m : Module) : List Nat :=
  m.importNamedSymbols.map (·.relocationBatch) ++
    m.importIndexedSymbols.map (·.relocationBatch) ++
    m.importAnonymousSymbols.map (·.relocationBatch) ++
    m.importModules.flatMap fun e =>
      e.importIndexedSymbols.map (·.relocationBatch) ++
        e.importAnonymousSymbols.map (·.relocationBatch)

/-- The tables of `n` and `source` allow `n` to import from `source`. -/
structure Imports (T : Nat → Module) (n source : Nat) : Prop where
  searches : ∀ e ∈ (T n).importNamedSymbols, ∃ x, (T source).findExportNamedSymbol e.name = .ok x
  indexed : ∀ e ∈ (T n).importModules, e.name = (T source).name →
    ∀ im ∈ e.importIndexedSymbols, ∃ position,
      (T source).exportIndexedSymbols[im.index]? = some position ∧
        (T source).segmentTagToAddress position ≠ 0
  anonymous : ∀ e ∈ (T n).importModules, e.name = (T source).name →
    ∀ im ∈ e.importAnonymousSymbols, (T source).segmentTagToAddress im.symbolPosition ≠ 0

/-- The tables of the module at `a` and of the auto-linked modules are valid. -/
structure Valid (T : Nat → Module) (autoLink : List Nat) (a : Nat) : Prop where
  sound : ∀ n, n = a ∨ n ∈ autoLink → ∀ i ∈ (T n).batches, (T n).SoundBatch i
  imports : ∀ n ∈ autoLink, Imports T a n
  exports : ∀ n ∈ autoLink, Imports T n a
  apart : WordsApart T fun n => n = a ∨ n ∈ autoLink

section

variable {m : Module} {e : ImportModuleEntry}

theorem named_batch {e : ImportNamedSymbolEntry} (h : e ∈ m.importNamedSymbols) :
    e.relocationBatch ∈ m.batches := by
  unfold Module.batches
  simp only [List.mem_append, List.mem_map]
  exact .inl (.inl (.inl ⟨e, h, rfl⟩))

theorem indexed_batch {im : ImportIndexedSymbolEntry} (h : im ∈ m.importIndexedSymbols) :
    im.relocationBatch ∈ m.batches := by
  unfold Module.batches
  simp only [List.mem_append, List.mem_map]
  exact .inl (.inl (.inr ⟨im, h, rfl⟩))

theorem anonymous_batch {im : ImportAnonymousSymbolEntry} (h : im ∈ m.importAnonymousSymbols) :
    im.relocationBatch ∈ m.batches := by
  unfold Module.batches
  simp only [List.mem_append, List.mem_map]
  exact .inl (.inr ⟨im, h, rfl⟩)

theorem module_indexed_batch (h : e ∈ m.importModules) {im : ImportIndexedSymbolEntry}
    (inside : im ∈ e.importIndexedSymbols) : im.relocationBatch ∈ m.batches := by
  unfold Module.batches
  simp only [List.mem_append, List.mem_flatMap, List.mem_map]
  exact .inr ⟨e, h, .inl ⟨im, inside, rfl⟩⟩

theorem module_anonymous_batch (h : e ∈ m.importModules) {im : ImportAnonymousSymbolEntry}
    (inside : im ∈ e.importAnonymousSymbols) : im.relocationBatch ∈ m.batches := by
  unfold Module.batches
  simp only [List.mem_append, List.mem_flatMap, List.mem_map]
  exact .inr ⟨e, h, .inr ⟨im, inside, rfl⟩⟩

end

section

variable (T : Nat → Module) (autoLink : List Nat) (a : Nat)

/-- Nothing of the other modules changes. -/
def Off (s s' : Modules) : Prop :=
  ∀ n ∈ autoLink, n ≠ a → (∀ i, s'.resolved n i = s.resolved n i) ∧
    ∀ r ∈ (T n).externalRelocations, r.writes → s'.word n r = s.word n r

def Raised (s s' : Modules) : Prop :=
  ∀ n ∈ autoLink, n ≠ a →
    (∀ i, (¬ Reaches T a n i → s'.resolved n i = s.resolved n i) ∧
      (s.resolved n i = true → s'.resolved n i = true)) ∧
    ∀ r ∈ (T n).externalRelocations, r.writes → (∀ i, Reaches T a n i → r ∉ (T n).batch i) →
      s'.word n r = s.word n r

def unresolvedValue (n : Nat) (r : RelocationEntry) : Nat :=
  r.value ((T n).target r) (T n).getOnUnresolvedAddress

def Lowered (s s' : Modules) : Prop :=
  ∀ n ∈ autoLink, n ≠ a →
    (∀ i, (¬ Reaches T a n i → s'.resolved n i = s.resolved n i) ∧
      (s.resolved n i = false → s'.resolved n i = false)) ∧
    ∀ r ∈ (T n).externalRelocations, r.writes →
      ((∀ i, Reaches T a n i → r ∉ (T n).batch i) → s'.word n r = s.word n r) ∧
      (s.word n r = unresolvedValue T n r → s'.word n r = unresolvedValue T n r)

def Settled (s : Modules) (n i : Nat) : Prop :=
  ∀ r ∈ (T n).batch i, r.writes → s.word n r = unresolvedValue T n r

def Rested (s : Modules) : Prop :=
  s.tables = T ∧ ∀ n ∈ autoLink, n ≠ a → ∀ i, Reaches T a n i → s.resolved n i = false →
    Settled T s n i

variable {T autoLink a}

theorem off_chains : Chains (Off T autoLink a) where
  refl _ := fun _ _ _ => ⟨fun _ => rfl, fun _ _ _ => rfl⟩
  trans _ _ _ h h' := fun n inside other =>
    ⟨fun i => ((h' n inside other).1 i).trans ((h n inside other).1 i),
      fun r member writes => ((h' n inside other).2 r member writes).trans
        ((h n inside other).2 r member writes)⟩

theorem raised_chains : Chains (Raised T autoLink a) where
  refl _ := fun _ _ _ => ⟨fun _ => ⟨fun _ => rfl, id⟩, fun _ _ _ _ => rfl⟩
  trans _ _ _ h h' := fun n inside other =>
    ⟨fun i => ⟨fun free =>
          (((h' n inside other).1 i).1 free).trans (((h n inside other).1 i).1 free),
        fun up => ((h' n inside other).1 i).2 (((h n inside other).1 i).2 up)⟩,
      fun r member writes free => ((h' n inside other).2 r member writes free).trans
        ((h n inside other).2 r member writes free)⟩

theorem lowered_chains : Chains (Lowered T autoLink a) where
  refl _ := fun _ _ _ => ⟨fun _ => ⟨fun _ => rfl, id⟩, fun _ _ _ => ⟨fun _ => rfl, id⟩⟩
  trans _ _ _ h h' := fun n inside other =>
    ⟨fun i => ⟨fun free =>
          (((h' n inside other).1 i).1 free).trans (((h n inside other).1 i).1 free),
        fun down => ((h' n inside other).1 i).2 (((h n inside other).1 i).2 down)⟩,
      fun r member writes =>
        ⟨fun free => (((h' n inside other).2 r member writes).1 free).trans
            (((h n inside other).2 r member writes).1 free),
          fun rests => ((h' n inside other).2 r member writes).2
            (((h n inside other).2 r member writes).2 rests)⟩⟩

variable {s s' : Modules} {i n : Nat}

theorem Off.lowered (h : Off T autoLink a s s') : Lowered T autoLink a s s' :=
  fun n inside other =>
    ⟨fun i => ⟨fun _ => (h n inside other).1 i, fun down => ((h n inside other).1 i).trans down⟩,
      fun r member writes => ⟨fun _ => (h n inside other).2 r member writes,
        fun rests => ((h n inside other).2 r member writes).trans rests⟩⟩

theorem Off.raised (h : Off T autoLink a s s') : Raised T autoLink a s s' :=
  fun n inside other =>
    ⟨fun i => ⟨fun _ => (h n inside other).1 i, fun up => ((h n inside other).1 i).trans up⟩,
      fun r member writes _ => (h n inside other).2 r member writes⟩

theorem Rested.off (rested : Rested T autoLink a s) (h : Off T autoLink a s s')
    (same : s'.tables = T) : Rested T autoLink a s' := by
  refine ⟨same, ?_⟩
  intro n inside other i reaches down r member writes
  rw [(h n inside other).1] at down
  rw [(h n inside other).2 r (Module.mem_of_mem_batch member) writes]
  exact rested.2 n inside other i reaches down r member writes

end

section

variable {T : Nat → Module} {autoLink : List Nat} {a : Nat}

theorem goes_own (valid : Valid T autoLink a) {reset : Bool}
    (named : i ∈ (T a).batches) (given : symbolAddress = 0 → reset = true) (start : s.tables = T) :
    Goes (·.tables = T) (Off T autoLink a) (applyRelocationBatch a i symbolAddress reset s) s
      fun _ => True := by
  subst start
  obtain ⟨s', runs, applied⟩ :=
    applyRelocationBatch_spec (valid.sound a (.inl rfl) i named) valid.apart (.inl rfl) given
  refine ⟨s', runs, ?_, applied.tables, trivial⟩
  intro n inside other
  constructor
  · intro j
    rw [applied.resolved, if_neg fun same => other same.1]
  · intro r member writes
    exact applied.outside n (.inr inside) r member writes fun same => absurd same other

theorem goes_raise (valid : Valid T autoLink a) (inside : n ∈ autoLink) (named : i ∈ (T n).batches)
    (reaches : n ≠ a → Reaches T a n i) (given : symbolAddress ≠ 0) (start : s.tables = T) :
    Goes (·.tables = T) (Raised T autoLink a) (applyRelocationBatch n i symbolAddress false s) s
      fun s' => s'.resolved n i = true := by
  subst start
  obtain ⟨s', runs, applied⟩ :=
    applyRelocationBatch_spec (valid.sound n (.inr inside) i named) valid.apart (.inr inside)
      fun zero => absurd zero given
  refine ⟨s', runs, ?_, applied.tables, ?_⟩
  · intro n' inside' other
    refine ⟨fun j => ⟨?_, ?_⟩, ?_⟩
    · intro free
      rw [applied.resolved, if_neg]
      rintro ⟨rfl, rfl⟩
      exact free (reaches other)
    · intro up
      rw [applied.resolved]
      split_ifs
      · rfl
      · exact up
    · intro r member writes free
      refine applied.outside n' (.inr inside') r member writes ?_
      rintro rfl
      exact free i (reaches other)
  · exact (applied.resolved n i).trans (if_pos ⟨rfl, rfl⟩)

theorem goes_lower (valid : Valid T autoLink a) (inside : n ∈ autoLink) (named : i ∈ (T n).batches)
    (reaches : n ≠ a → Reaches T a n i) (start : Rested T autoLink a s) :
    Goes (Rested T autoLink a) (Lowered T autoLink a)
      (applyRelocationBatch n i (T n).getOnUnresolvedAddress true s) s
      fun s' => s'.resolved n i = false := by
  obtain ⟨rfl, rested⟩ := start
  obtain ⟨s', runs, applied⟩ :=
    applyRelocationBatch_spec (valid.sound n (.inr inside) i named) valid.apart (.inr inside)
      fun _ => rfl
  have holds {n'} (inside' : n' ∈ autoLink) (other : n' ≠ a) {r}
      (member : r ∈ (s.tables n').externalRelocations) (writes : r.writes) :
      (s'.word n' r = s.word n' r ∧ (n' = n → r ∉ (s.tables n).batch i)) ∨
        n' = n ∧ r ∈ (s.tables n).batch i ∧ s'.word n' r = unresolvedValue s.tables n' r := by
    by_cases hit : n' = n ∧ r ∈ (s.tables n).batch i
    · obtain ⟨rfl, hit⟩ := hit
      exact .inr ⟨rfl, hit, applied.inside r hit writes⟩
    · have missed : n' = n → r ∉ (s.tables n).batch i := fun same hit' => hit ⟨same, hit'⟩
      exact .inl ⟨applied.outside n' (.inr inside') r member writes missed, missed⟩
  refine ⟨s', runs, ?_, ⟨applied.tables, ?_⟩, ?_⟩
  · intro n' inside' other
    refine ⟨fun j => ⟨?_, ?_⟩, ?_⟩
    · intro free
      rw [applied.resolved, if_neg]
      rintro ⟨rfl, rfl⟩
      exact free (reaches other)
    · intro down
      rw [applied.resolved]
      split_ifs
      · rfl
      · exact down
    · intro r member writes
      rcases holds inside' other member writes with ⟨same, missed⟩ | ⟨rfl, hit, settled⟩
      · exact ⟨fun _ => same, fun rests => same.trans rests⟩
      · exact ⟨fun free => absurd hit (free i (reaches other)), fun _ => settled⟩
  · intro n' inside' other j reaches' down r member writes
    rcases holds inside' other (Module.mem_of_mem_batch member) writes with
      ⟨same, missed⟩ | ⟨rfl, hit, settled⟩
    · rw [same]
      refine rested n' inside' other j reaches' ?_ r member writes
      rw [applied.resolved, if_neg] at down
      · exact down
      · rintro ⟨rfl, rfl⟩
        exact missed rfl member
    · exact settled
  · exact (applied.resolved n i).trans (if_pos ⟨rfl, rfl⟩)

end

end EmuThreeDS.Linking
