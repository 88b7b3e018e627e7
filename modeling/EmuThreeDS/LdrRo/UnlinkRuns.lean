import EmuThreeDS.LdrRo.Unlinking

/-!
# What linking and unlinking leaves

Unlinking a module undoes its linking exactly where nothing that its exports reach was resolved
before.
-/
namespace EmuThreeDS.Linking

variable {T : Nat → Module} {autoLink : List Nat} {a : Nat}

section

theorem goes_ownSymbols (valid : Valid T autoLink a) {source : Nat} (inside : source ∈ autoLink)
    {entry : ImportModuleEntry} (member : entry ∈ (T a).importModules)
    (wanted : entry.name = (T source).name) {s : Modules} (start : s.tables = T) :
    Goes (·.tables = T) (Off T autoLink a) (applyModuleSymbols a source entry s) s
      fun _ => True := by
  have imports := valid.imports source inside
  refine goes_then off_chains (goes_each_of off_chains ?_ start) fun s' _ same =>
    goes_each_of off_chains ?_ same
  · intro im listed s same
    obtain ⟨position, found, nonzero⟩ := imports.indexed entry member wanted im listed
    rw [same, found]
    exact goes_own valid (module_indexed_batch member listed) (fun zero => absurd zero nonzero) same
  · intro im listed s same
    rw [same]
    exact goes_own valid (module_anonymous_batch member listed)
      (fun zero => absurd zero (imports.anonymous entry member wanted im listed)) same

theorem goes_applyImportNamedSymbol (valid : Valid T autoLink a) {s : Modules}
    (start : s.tables = T) :
    Goes (·.tables = T) (Off T autoLink a) (applyImportNamedSymbol autoLink a s) s
      fun _ => True := by
  unfold applyImportNamedSymbol
  rw [start]
  refine goes_each_of off_chains ?_ start
  intro entry member s same
  split_ifs
  · exact goes_skip off_chains same trivial
  · refine goes_search off_chains ?_ same
    intro source inside s same
    obtain ⟨x, found⟩ := (valid.imports source inside).searches entry member
    rw [same, found, ok_bind]
    split_ifs with nonzero
    · have given : x = 0 → false = true := fun zero => absurd zero nonzero
      obtain ⟨s', runs, off, same', _⟩ := goes_own valid (named_batch member) given same
      exact ⟨false, s', by rw [runs]; rfl, off, same'⟩
    · exact ⟨true, s, rfl, off_chains.refl s, same⟩

theorem goes_applyModuleImport (valid : Valid T autoLink a) {s : Modules} (start : s.tables = T) :
    Goes (·.tables = T) (Off T autoLink a) (applyModuleImport autoLink a s) s fun _ => True := by
  unfold applyModuleImport
  rw [start]
  refine goes_each_of off_chains ?_ start
  intro entry member s same
  refine goes_search off_chains ?_ same
  intro source inside s same
  rw [same]
  split_ifs with wanted
  · obtain ⟨s', runs, off, same', _⟩ := goes_ownSymbols valid inside member wanted same
    exact ⟨false, s', by rw [runs]; rfl, off, same'⟩
  · exact ⟨true, s, rfl, off_chains.refl s, same⟩

variable {α : Type} {xs : List α}

theorem goes_resetOwn (valid : Valid T autoLink a) {batchOf : α → Nat}
    (named : ∀ x ∈ xs, batchOf x ∈ (T a).batches) (symbolAddress : Nat) {s : Modules}
    (start : s.tables = T) : Goes (·.tables = T) (Off T autoLink a)
      (each (fun x => applyRelocationBatch a (batchOf x) symbolAddress true) xs s) s
      fun _ => True := by
  refine goes_each_of off_chains ?_ start
  intro x member s same
  exact goes_own valid (named x member) (fun _ => rfl) same

end

section

def Exported (T : Nat → Module) (a : Nat) (e : ImportNamedSymbolEntry) : Prop :=
  ∃ x, (T a).findExportNamedSymbol e.name = .ok x ∧ x ≠ 0

/-- All batches of `n` that the module reaches have the flag. -/
def ReachedFlags (T : Nat → Module) (a : Nat) (flag : Bool) (n : Nat) (s : Modules) : Prop :=
  n ≠ a → ∀ i, Reaches T a n i → s.resolved n i = flag

def EntryFlags (s : Modules) (n : Nat) (e : ImportModuleEntry) (flag : Bool) : Prop :=
  (∀ im ∈ e.importIndexedSymbols, s.resolved n im.relocationBatch = flag) ∧
    ∀ im ∈ e.importAnonymousSymbols, s.resolved n im.relocationBatch = flag

/-- Calls that bring the flags of `n` to `flag` leave those there that have come to it. -/
structure Turns (T : Nat → Module) (a n : Nat) (flag : Bool) (J : Modules → Prop)
    (R : Modules → Modules → Prop) : Prop where
  chains : Chains R
  tables : ∀ {s}, J s → s.tables = T
  kept : ∀ {s s' i}, n ≠ a → R s s' → s.resolved n i = flag → s'.resolved n i = flag

theorem raises (inside : n ∈ autoLink) :
    Turns T a n true (·.tables = T) (Raised T autoLink a) where
  chains := raised_chains
  tables := id
  kept other raised := ((raised n inside other).1 _).2

theorem lowers (inside : n ∈ autoLink) :
    Turns T a n false (Rested T autoLink a) (Lowered T autoLink a) where
  chains := lowered_chains
  tables start := start.1
  kept other lowered := ((lowered n inside other).1 _).2

section

variable {flag : Bool} {J : Modules → Prop} {R : Modules → Modules → Prop} {s : Modules}
  (turns : Turns T a n flag J R)
include turns

theorem Turns.each (batchOf : α → Nat) (start : J s)
    (one : ∀ x ∈ xs, ∀ s, J s → Goes J R (f x s) s fun s' => s'.resolved n (batchOf x) = flag) :
    Goes J R (each f xs s) s fun s' => ∀ x ∈ xs, n ≠ a → s'.resolved n (batchOf x) = flag := by
  refine goes_each turns.chains ?_ ?_ start
  · exact fun x s s' related before other => turns.kept other related (before other)
  · exact fun x member s same => (one x member s same).weaken fun _ h _ => h

theorem Turns.moduleExport {f : ImportModuleEntry → ImportIndexedSymbolEntry → Modules → Answer}
    {g : ImportModuleEntry → ImportAnonymousSymbolEntry → Modules → Answer} (start : J s)
    (indexed : ∀ e ∈ (T n).importModules, e.name = (T a).name → ∀ im ∈ e.importIndexedSymbols,
      ∀ s, J s → Goes J R (f e im s) s fun s' => s'.resolved n im.relocationBatch = flag)
    (anonymous : ∀ e ∈ (T n).importModules, e.name = (T a).name → ∀ im ∈ e.importAnonymousSymbols,
      ∀ s, J s → Goes J R (g e im s) s fun s' => s'.resolved n im.relocationBatch = flag) :
    Goes J R (Linking.each (fun e s => if e.name ≠ (s.tables a).name then .ok (.success, s)
      else andThen (Linking.each (f e) e.importIndexedSymbols s)
        (Linking.each (g e) e.importAnonymousSymbols)) (T n).importModules s) s fun s' =>
      ∀ e ∈ (T n).importModules, n ≠ a → e.name = (T a).name → EntryFlags s' n e flag := by
  refine goes_each turns.chains ?_ ?_ start
  · intro e s s' related before other wanted
    have flags := before other wanted
    exact ⟨fun im listed => turns.kept other related (flags.1 im listed),
      fun im listed => turns.kept other related (flags.2 im listed)⟩
  · intro e member s same
    rw [turns.tables same]
    split_ifs with unwanted
    · exact goes_skip turns.chains same fun _ wanted => absurd wanted unwanted
    · have wanted : e.name = (T a).name := not_not.mp unwanted
      have batches := (turns.each ImportIndexedSymbolEntry.relocationBatch same
        (indexed e member wanted)).andThen turns.chains
          (fun _ _ related before im listed other =>
            turns.kept other related (before im listed other))
          fun s' _ same' _ => turns.each ImportAnonymousSymbolEntry.relocationBatch same'
            (anonymous e member wanted)
      exact batches.weaken fun s' h other _ =>
        ⟨fun im listed => h.1 im listed other, fun im listed => h.2 im listed other⟩

theorem Turns.reachedFlags
    (named : Goes J R x s fun s' => ∀ e ∈ (T n).importNamedSymbols, n ≠ a → Exported T a e →
      s'.resolved n e.relocationBatch = flag)
    (modules : ∀ s', J s' → Goes J R (next s') s' fun s'' => ∀ e ∈ (T n).importModules, n ≠ a →
      e.name = (T a).name → EntryFlags s'' n e flag) :
    Goes J R (andThen x next) s (ReachedFlags T a flag n) := by
  refine (named.andThen turns.chains ?_ fun s' _ same _ => modules s' same).weaken ?_
  · exact fun s' s'' related before e member other exported =>
      turns.kept other related (before e member other exported)
  · rintro s' ⟨named, entries⟩ other i (⟨e, member, rfl, exported⟩ | ⟨e, member, wanted,
      ⟨im, listed, rfl⟩ | ⟨im, listed, rfl⟩⟩)
    · exact named e member other exported
    · exact (entries e member other wanted).1 im listed
    · exact (entries e member other wanted).2 im listed

end

theorem goes_applyExportNamedSymbol (valid : Valid T autoLink a) (inside : n ∈ autoLink)
    {s : Modules} (start : s.tables = T) :
    Goes (·.tables = T) (Raised T autoLink a) (applyExportNamedSymbol a n s) s fun s' =>
      ∀ e ∈ (T n).importNamedSymbols, n ≠ a → Exported T a e →
        s'.resolved n e.relocationBatch = true := by
  unfold applyExportNamedSymbol
  rw [start]
  refine goes_each raised_chains (fun e s s' raised before other exported =>
    (raises inside).kept other raised (before other exported)) ?_ start
  intro e member s same
  obtain ⟨x, found⟩ := (valid.exports n inside).searches e member
  rw [same, found, ok_bind]
  split_ifs with already nonzero
  · exact goes_skip raised_chains same fun _ _ => already
  · exact (goes_raise valid inside (named_batch member)
      (fun _ => .inl ⟨e, member, rfl, x, found, nonzero⟩) nonzero same).weaken
      fun _ h _ _ => h
  · refine goes_skip raised_chains same fun _ exported => ?_
    obtain ⟨y, found', nonzero'⟩ := exported
    cases found.symm.trans found'
    exact absurd nonzero' nonzero

theorem goes_resetExportNamedSymbol (valid : Valid T autoLink a) (inside : n ∈ autoLink)
    {s : Modules} (start : Rested T autoLink a s) :
    Goes (Rested T autoLink a) (Lowered T autoLink a) (resetExportNamedSymbol a n s) s fun s' =>
      ∀ e ∈ (T n).importNamedSymbols, n ≠ a → Exported T a e →
        s'.resolved n e.relocationBatch = false := by
  unfold resetExportNamedSymbol
  rw [start.1]
  refine goes_each lowered_chains (fun e s s' lowered before other exported =>
    (lowers inside).kept other lowered (before other exported)) ?_ start
  intro e member s same
  obtain ⟨x, found⟩ := (valid.exports n inside).searches e member
  rw [same.1, found, ok_bind]
  split_ifs with already nonzero
  · exact (goes_lower valid inside (named_batch member)
      (fun _ => .inl ⟨e, member, rfl, x, found, nonzero⟩) same).weaken fun _ h _ _ => h
  · refine goes_skip lowered_chains same fun _ exported => ?_
    obtain ⟨y, found', nonzero'⟩ := exported
    cases found.symm.trans found'
    exact absurd nonzero' nonzero
  · exact goes_skip lowered_chains same fun _ _ => Bool.eq_false_iff.mpr already

theorem goes_applyModuleExport (valid : Valid T autoLink a) (inside : n ∈ autoLink)
    {s : Modules} (start : s.tables = T) :
    Goes (·.tables = T) (Raised T autoLink a) (applyModuleExport a n s) s fun s' =>
      ∀ e ∈ (T n).importModules, n ≠ a → e.name = (T a).name → EntryFlags s' n e true := by
  have imports := valid.exports n inside
  unfold applyModuleExport applyModuleSymbols
  rw [start]
  refine (raises inside).moduleExport start ?_ ?_
  · intro e member wanted im listed s same
    obtain ⟨position, found, nonzero⟩ := imports.indexed e member wanted im listed
    rw [same, found]
    exact goes_raise valid inside (module_indexed_batch member listed)
      (fun _ => .inr ⟨e, member, wanted, .inl ⟨im, listed, rfl⟩⟩) nonzero same
  · intro e member wanted im listed s same
    rw [same]
    exact goes_raise valid inside (module_anonymous_batch member listed)
      (fun _ => .inr ⟨e, member, wanted, .inr ⟨im, listed, rfl⟩⟩)
      (imports.anonymous e member wanted im listed) same

theorem goes_resetModuleExport (valid : Valid T autoLink a) (inside : n ∈ autoLink)
    {s : Modules} (start : Rested T autoLink a s) :
    Goes (Rested T autoLink a) (Lowered T autoLink a) (resetModuleExport a n s) s fun s' =>
      ∀ e ∈ (T n).importModules, n ≠ a → e.name = (T a).name → EntryFlags s' n e false := by
  unfold resetModuleExport
  rw [start.1]
  refine (lowers inside).moduleExport start ?_ ?_
  · exact fun e member wanted im listed s same => goes_lower valid inside
      (module_indexed_batch member listed)
      (fun _ => .inr ⟨e, member, wanted, .inl ⟨im, listed, rfl⟩⟩) same
  · exact fun e member wanted im listed s same => goes_lower valid inside
      (module_anonymous_batch member listed)
      (fun _ => .inr ⟨e, member, wanted, .inr ⟨im, listed, rfl⟩⟩) same

theorem goes_exportTo (valid : Valid T autoLink a) (inside : n ∈ autoLink) {s : Modules}
    (start : s.tables = T) : Goes (·.tables = T) (Raised T autoLink a)
      (andThen (applyExportNamedSymbol a n s) (applyModuleExport a n)) s
      (ReachedFlags T a true n) :=
  (raises inside).reachedFlags (goes_applyExportNamedSymbol valid inside start)
    fun _ same => goes_applyModuleExport valid inside same

theorem goes_resetTo (valid : Valid T autoLink a) (inside : n ∈ autoLink) {s : Modules}
    (start : Rested T autoLink a s) : Goes (Rested T autoLink a) (Lowered T autoLink a)
      (andThen (resetExportNamedSymbol a n s) (resetModuleExport a n)) s
      (ReachedFlags T a false n) :=
  (lowers inside).reachedFlags (goes_resetExportNamedSymbol valid inside start)
    fun _ same => goes_resetModuleExport valid inside same

end

section

theorem withDataOffset_of_ne (offset : Nat) (other : n ≠ a) :
    withDataOffset a offset T n = T n := if_neg other

theorem withDataOffset_back {entry : SegmentEntry} (offset : Nat)
    (found : (T a).segments[2]? = some entry) :
    withDataOffset a entry.offset (withDataOffset a offset T) = T := by
  funext b
  unfold withDataOffset
  split_ifs with same
  · subst same
    have segments : ((T b).segments.modify 2 fun entry => { entry with offset }).modify 2
        (fun x => { x with offset := entry.offset }) = (T b).segments := by
      apply List.ext_getElem?
      intro i
      by_cases second : 2 = i
      · subst second
        simp [found]
      · simp [second]
    exact congrArg (fun segments => { T b with segments }) segments
  · rfl

/-- The segment table has the `.data` segment that the bug fix takes for granted, and is valid
with the segment moved back into the image. -/
def Fixable (T : Nat → Module) (autoLink : List Nat) (a : Nat) : Prop :=
  2 ≤ (T a).segments.length → ∃ entry, (T a).segments[2]? = some entry ∧ entry.type = .data ∧
    Valid (withDataOffset a (T a).dataOffset T) autoLink a

section

variable (valid : Valid T autoLink a)
include valid

theorem goes_imports {s : Modules} (start : s.tables = T) : Goes (·.tables = T) (Off T autoLink a)
      (andThen (applyImportNamedSymbol autoLink a s) (applyModuleImport autoLink a)) s
      fun _ => True :=
  goes_then off_chains (goes_applyImportNamedSymbol valid start)
    fun _ _ same => goes_applyModuleImport valid same

theorem goes_linkImports (fixable : fix = true → Fixable T autoLink a)
    {s : Modules} (start : s.tables = T) :
    Goes (·.tables = T) (Off T autoLink a) (linkImports autoLink a fix s) s fun _ => True := by
  unfold linkImports
  rw [start]
  split_ifs with fixes
  · obtain ⟨entry, found, isData, validMoved⟩ := fixable fixes.1 fixes.2
    have moved : (setDataOffset a (T a).dataOffset s).tables =
        withDataOffset a (T a).dataOffset T := by rw [← start]; rfl
    obtain ⟨s', runs, off, same, _⟩ := goes_imports validMoved moved
    have back : (setDataOffset a entry.offset s').tables = T :=
      (congrArg (withDataOffset a entry.offset) same).trans (withDataOffset_back _ found)
    refine ⟨setDataOffset a entry.offset s', ?_, ?_, back, trivial⟩
    · simp only [found, assert_pos isData, ok_bind, runs]
    · intro n inside other
      obtain ⟨flags, words⟩ := off n inside other
      rw [withDataOffset_of_ne _ other] at words
      refine ⟨flags, ?_⟩
      intro r member writes
      have word := words r member writes
      unfold Modules.word at word ⊢
      rw [same, moved, withDataOffset_of_ne _ other] at word
      rw [back, start]
      exact word
  · exact goes_imports valid start

theorem goes_link (fixable : fix = true → Fixable T autoLink a)
    {s : Modules} (start : s.tables = T) :
    Goes (·.tables = T) (Raised T autoLink a) (link autoLink a fix s) s
      fun s' => ∀ n ∈ autoLink, ReachedFlags T a true n s' := by
  have imports : Goes (·.tables = T) (Raised T autoLink a) (linkImports autoLink a fix s) s
      fun _ => True :=
    (goes_linkImports valid fixable start).mono (fun _ _ same => same)
      (fun _ off _ => off.raised) fun _ _ _ h => h
  refine goes_then raised_chains imports fun s' _ same => ?_
  refine Goes.weaken (goes_all (P := fun n s => n ∈ autoLink → ReachedFlags T a true n s)
    raised_chains ?_ ?_ same) fun s' h n inside => h n inside inside
  · intro n s s' raised before inside other i reaches
    exact ((raised n inside other).1 i).2 (before inside other i reaches)
  · intro n inside s same
    exact (goes_exportTo valid inside same).weaken fun _ h _ => h

theorem goes_unlink {s : Modules} (start : s.tables = T)
    (linked : ∀ n ∈ autoLink, ReachedFlags T a true n s) :
    Goes (Rested T autoLink a) (Lowered T autoLink a) (unlink autoLink a s) s
      fun s' => ∀ n ∈ autoLink, ReachedFlags T a false n s' := by
  have rested : Rested T autoLink a s := by
    refine ⟨start, ?_⟩
    intro n inside other i reaches down
    rw [linked n inside other i reaches] at down
    exact nomatch down
  have own {α : Type} {batchOf : α → Nat} {xs : List α}
      (named : ∀ x ∈ xs, batchOf x ∈ (T a).batches) {s : Modules}
      (rested : Rested T autoLink a s) :
      Goes (Rested T autoLink a) (Lowered T autoLink a)
        (each (fun x => applyRelocationBatch a (batchOf x) (T a).getOnUnresolvedAddress true)
          xs s) s fun _ => True :=
    (goes_resetOwn valid named _ rested.1).mono (fun _ off same => rested.off off same)
      (fun _ off _ => off.lowered) fun _ _ _ h => h
  unfold unlink resetImportNamedSymbol
  rw [start]
  refine goes_then lowered_chains (own (fun _ => named_batch) rested) fun s₁ _ rested₁ => ?_
  unfold resetImportIndexedSymbol
  rw [rested₁.1]
  refine goes_then lowered_chains (own (fun _ => indexed_batch) rested₁) fun s₂ _ rested₂ => ?_
  unfold resetImportAnonymousSymbol
  rw [rested₂.1]
  refine goes_then lowered_chains (own (fun _ => anonymous_batch) rested₂) fun s₃ _ rested₃ => ?_
  refine Goes.weaken (goes_all (P := fun n s => n ∈ autoLink → ReachedFlags T a false n s)
    lowered_chains ?_ ?_ rested₃) fun s' h n inside => h n inside inside
  · intro n s s' lowered before inside other i reaches
    exact ((lowered n inside other).1 i).2 (before inside other i reaches)
  · intro n inside s same
    exact (goes_resetTo valid inside same).weaken fun _ h _ => h

end

end

section

variable {s : Modules}

/-- `Link` and then `Unlink` succeed, and leave the relocation words and the flags of the other
auto-linked modules as they were. -/
def Undoes (autoLink : List Nat) (a : Nat) (fix : Bool) (s : Modules) : Prop :=
  ∃ s₁ s₂, link autoLink a fix s = .ok (.success, s₁) ∧
    unlink autoLink a s₁ = .ok (.success, s₂) ∧
    ∀ n ∈ autoLink, n ≠ a → (∀ i, s₂.resolved n i = s.resolved n i) ∧
      ∀ r ∈ (s.tables n).externalRelocations, r.writes → s₂.word n r = s.word n r

/-- Unlinking a module undoes its linking if and only if, before, no batch that its exports
reach was resolved, and all their words held the address for what is not. -/
theorem unlink_undoes_link (valid : Valid s.tables autoLink a) {fix : Bool}
    (fixable : fix = true → Fixable s.tables autoLink a) :
    Undoes autoLink a fix s ↔ ∀ n ∈ autoLink, n ≠ a → ∀ i, Reaches s.tables a n i →
      s.resolved n i = false ∧ Settled s.tables s n i := by
  obtain ⟨s₁, linked, raised, same₁, flags₁⟩ := goes_link valid fixable rfl
  obtain ⟨s₂, unlinked, lowered, rested, flags₂⟩ := goes_unlink valid same₁ flags₁
  constructor
  · rintro ⟨t₁, t₂, linked', unlinked', same⟩ n inside other i reaches
    cases linked.symm.trans linked'
    cases unlinked.symm.trans unlinked'
    obtain ⟨flags, words⟩ := same n inside other
    have down := flags₂ n inside other i reaches
    refine ⟨(flags i).symm.trans down, ?_⟩
    intro r member writes
    rw [← words r (Module.mem_of_mem_batch member) writes]
    exact rested.2 n inside other i reaches down r member writes
  · intro before
    refine ⟨s₁, s₂, linked, unlinked, fun n inside other => ⟨fun i => ?_, ?_⟩⟩
    · by_cases reaches : Reaches s.tables a n i
      · rw [flags₂ n inside other i reaches, (before n inside other i reaches).1]
      · rw [((lowered n inside other).1 i).1 reaches, ((raised n inside other).1 i).1 reaches]
    · intro r member writes
      by_cases touched : ∃ i, Reaches s.tables a n i ∧ r ∈ (s.tables n).batch i
      · obtain ⟨i, reaches, hit⟩ := touched
        rw [rested.2 n inside other i reaches (flags₂ n inside other i reaches) r hit writes,
          (before n inside other i reaches).2 r hit writes]
      · have free : ∀ i, Reaches s.tables a n i → r ∉ (s.tables n).batch i :=
          fun i reaches hit => touched ⟨i, reaches, hit⟩
        rw [((lowered n inside other).2 r member writes).1 free,
          (raised n inside other).2 r member writes free]

end

/-- A module with one code segment, no imports and the exports `f` at its address `0x10`. -/
def exporter (name : UInt8) (offset : Nat) : Module where
  name := [name]
  dataOffset := 0
  onUnresolvedSegmentTag := ⟨0, 0⟩
  segments := [⟨offset, 0x100, .code⟩]
  exportNamedSymbols := [⟨[102], ⟨0, 0x10⟩⟩]
  exportTree := [⟨0, ⟨1, true⟩, ⟨1, true⟩, 0⟩, ⟨0, ⟨0, false⟩, ⟨0, false⟩, 0⟩]
  exportIndexedSymbols := []
  importModules := []
  externalRelocations := []
  importNamedSymbols := []
  importIndexedSymbols := []
  importAnonymousSymbols := []

def importer : Module where
  name := [105]
  dataOffset := 0
  onUnresolvedSegmentTag := ⟨0, 0x20⟩
  segments := [⟨0x2000, 0x100, .code⟩]
  exportNamedSymbols := []
  exportTree := []
  exportIndexedSymbols := []
  importModules := []
  externalRelocations := [⟨⟨0, 0⟩, .absoluteAddress, true, 0⟩]
  importNamedSymbols := [⟨[102], 0⟩]
  importIndexedSymbols := []
  importAnonymousSymbols := []

/-- The static module at 1 exports `f`, the module at 2 imports it, and so the one at 3 exports
another `f`. -/
def twoExports : Nat → Module
  | 1 => exporter 99 0x1000
  | 2 => importer
  | _ => exporter 109 0x3000

theorem twoExports_relocations {r : RelocationEntry}
    (member : r ∈ (twoExports n).externalRelocations) :
    n = 2 ∧ r = ⟨⟨0, 0⟩, .absoluteAddress, true, 0⟩ := by
  unfold twoExports at member
  split at member
  · exact nomatch member
  · exact ⟨rfl, List.mem_singleton.mp member⟩
  · exact nomatch member

theorem twoExports_valid : Valid twoExports [1, 2] 3 where
  sound n known i named := by
    rcases known with rfl | known
    · exact nomatch named
    · rcases List.mem_cons.mp known with rfl | known
      · exact nomatch named
      · rw [List.mem_singleton] at known
        subst known
        have first : i = 0 := List.mem_singleton.mp named
        subst first
        exact ⟨⟨_, List.mem_singleton_self _, rfl⟩, by
          intro r member
          cases List.mem_singleton.mp member
          decide⟩
  imports n _ := ⟨nofun, nofun, nofun⟩
  exports n inside := by
    refine ⟨?_, ?_, ?_⟩
    · intro e member
      rcases List.mem_cons.mp inside with rfl | inside
      · exact nomatch member
      · rw [List.mem_singleton] at inside
        subst inside
        cases List.mem_singleton.mp member
        exact ⟨0x3010, rfl⟩
    · rcases List.mem_cons.mp inside with rfl | inside
      · exact nofun
      · rw [List.mem_singleton] at inside
        subst inside
        exact nofun
    · rcases List.mem_cons.mp inside with rfl | inside
      · exact nofun
      · rw [List.mem_singleton] at inside
        subst inside
        exact nofun
  apart n n' _ _ r member r' member' _ _ := by
    obtain ⟨rfl, rfl⟩ := twoExports_relocations member
    obtain ⟨rfl, rfl⟩ := twoExports_relocations member'
    exact .inl ⟨rfl, rfl⟩

def twoExporters (resolved : Bool) : Modules where
  tables := twoExports
  memory := ProcessBytes.write32 (fun _ => 0) 0x2000 (if resolved then 0x1010 else 0x2020)
  resolved := fun n i => resolved && n == 2 && i == 0

/-- The `f` that the static module provides is not resolved after the other one left. -/
theorem other_exporter_leaves : ¬ Undoes [1, 2] 3 false (twoExporters true) := by
  rintro ⟨s₁, s₂, linked, unlinked, same⟩
  have link' : link [1, 2] 3 false (twoExporters true) = .ok (.success, twoExporters true) := rfl
  cases link'.symm.trans linked
  obtain ⟨t, unlink', down⟩ : ∃ t, unlink [1, 2] 3 (twoExporters true) = .ok (.success, t) ∧
      t.resolved 2 0 = false := ⟨_, rfl, rfl⟩
  cases unlink'.symm.trans unlinked
  have kept := (same 2 (by decide) (by decide)).1 0
  exact nomatch down.symm.trans kept

/-- Where the import was not resolved, the module with the other `f` comes and goes. -/
theorem unlink_undoes_link_unresolved : Undoes [1, 2] 3 false (twoExporters false) := by
  have valid : Valid (twoExporters false).tables [1, 2] 3 := twoExports_valid
  refine (unlink_undoes_link valid nofun).mpr ?_
  intro n inside other i reaches
  refine ⟨rfl, ?_⟩
  intro r member writes
  obtain ⟨rfl, rfl⟩ := twoExports_relocations (Module.mem_of_mem_batch member)
  rfl

end EmuThreeDS.Linking
