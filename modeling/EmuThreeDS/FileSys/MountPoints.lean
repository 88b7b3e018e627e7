import EmuThreeDS.FileSys.PathParser

/-!
# Where guest paths lead

The names of a host path are those of the mount point and then those that `PathParser` counted.
The host stops reading at the first NUL, and so sees the names only up to there: what it sees
stays below the mount point if the levels of those names do.
-/
namespace EmuThreeDS
namespace FileSys

open LexicalPath

/-- A directory of the host; the empty string names none. -/
abbrev MountPoint := { s : Bytes // s ≠ [] }

/-- Where the host looks for a string: it takes the string up to its first NUL. -/
def hostPlace (s : Bytes) : Place UInt8 := normalise slash dot (cstr 0 s)

/-- Every string the host gets leads to the mount point or below, and the path built leads to
the mount point exactly for the root directory. -/
structure Confined (parser : PathParser) (mountPoint : MountPoint) : Prop where
  built : ∀ path, parser.buildHostPath mountPoint = .ok path →
    Below dot (hostPlace mountPoint) (hostPlace path)
  tested : ∀ host status paths, parser.getHostStatus host mountPoint = .ok (status, paths) →
    ∀ path ∈ paths, Below dot (hostPlace mountPoint) (hostPlace path)
  root : ∀ path, parser.buildHostPath mountPoint = .ok path →
    (parser.isRoot ↔ hostPlace path = hostPlace mountPoint)

/-- `path` goes on from the mount point by these names. -/
def Extends (mountPoint : Bytes) (ns : List Bytes) (path : Bytes) : Prop :=
  mountPoint <+: path ∧ names slash dot path = names slash dot mountPoint ++ ns

variable {mountPoint path node : Bytes} {ns : List Bytes}

theorem Extends.slash (h : Extends mountPoint ns path) (clean : slash ∉ node)
    (named : isName dot node) : Extends mountPoint (ns ++ [node]) (path ++ slash :: node) := by
  constructor
  · exact h.1.trans (List.prefix_append _ _)
  · rw [names_append_sep, h.2, names_of_notMem clean, List.filter_cons_of_pos named,
      List.filter_nil, List.append_assoc]

theorem Extends.appendNode {longer : Bytes} (h : Extends mountPoint ns path)
    (clean : FileSys.slash ∉ node) (named : isName dot node)
    (run : appendNode path node = .ok longer) : Extends mountPoint (ns ++ [node]) longer := by
  unfold FileSys.appendNode at run
  split at run
  · cases run
  · next last ends =>
      cases run
      split_ifs with inside
      · exact h.slash clean named
      · -- the path ends with the separator already
        rw [not_not] at inside
        subst inside
        obtain ⟨front, rfl⟩ := List.getLast?_eq_some_iff.mp ends
        constructor
        · exact h.1.trans (List.prefix_append _ _)
        · have before := h.2
          rw [names_append_sep, names_nil, List.append_nil] at before
          rw [List.append_assoc, List.singleton_append, names_append_sep, before,
            names_of_notMem clean, List.filter_cons_of_pos named, List.filter_nil,
            List.append_assoc]

variable {seq before : List Bytes} {level : Int} {s : Bytes}

section

variable (h : Extends mountPoint ns path)
  (good : ∀ node ∈ seq, FileSys.slash ∉ node ∧ isName dot node)
include h good

theorem foldlM_appendNode {built : Bytes} (run : seq.foldlM appendNode path = .ok built) :
    Extends mountPoint (ns ++ seq) built := by
  induction seq generalizing ns path with
  | nil =>
    cases run
    rwa [List.append_nil]
  | cons node rest ih =>
    obtain ⟨longer, first, run⟩ := bind_eq_ok.mp run
    have here := good node (List.mem_cons_self ..)
    have later := ih (h.appendNode here.1 here.2 first)
      (fun other member => good other (List.mem_cons_of_mem _ member)) run
    rwa [List.append_assoc] at later

theorem hostStatusLoop_tested {host : Host} {status : HostStatus} {paths : List Bytes}
    (run : hostStatusLoop host path seq = .ok (status, paths)) {tested : Bytes}
    (member : tested ∈ paths) :
    ∃ before, before <+: seq ∧ Extends mountPoint (ns ++ before) tested := by
  induction seq generalizing ns path status paths with
  | nil =>
    cases run
    cases member
  | cons node rest ih =>
    have here := good node (List.mem_cons_self ..)
    have alone : [node] <+: node :: rest := ⟨rest, rfl⟩
    cases rest with
    | nil =>
      rw [hostStatusLoop] at run
      have only : tested = path ++ FileSys.slash :: node := by
        split_ifs at run <;> (cases run; exact List.mem_singleton.mp member)
      subst only
      exact ⟨[node], alone, h.slash here.1 here.2⟩
    | cons next rest =>
      obtain ⟨longer, first, run⟩ := bind_eq_ok.mp run
      have further := h.appendNode here.1 here.2 first
      split_ifs at run
      · obtain ⟨⟨later, more⟩, loop, run⟩ := bind_eq_ok.mp run
        cases run
        rcases List.mem_cons.mp member with rfl | member
        · exact ⟨[node], alone, further⟩
        · obtain ⟨before, within, extended⟩ := ih further
            (fun other inside => good other (List.mem_cons_of_mem _ inside)) loop member
          rw [List.append_assoc] at extended
          exact ⟨node :: before, List.cons_prefix_cons.mpr ⟨rfl, within⟩, extended⟩
      all_goals
        cases run
        cases List.mem_singleton.mp member
        exact ⟨[node], alone, further⟩

end

theorem splitString_names (s : Bytes) :
    (Common.splitString slash s).filter (isName dot) = names slash dot s := by
  obtain ⟨behind, empty, parts⟩ := Common.splitOn_eq slash s
  unfold names
  rw [parts, List.filter_append]
  rcases empty with rfl | rfl
  · exact (List.append_nil _).symm
  · exact (List.append_nil _).symm

theorem levelLoop_some {below : List Bytes} (clean : [dot, dot] ∉ below)
    (run : levelLoop below.length ns = some level) :
    ∃ rest, [dot, dot] ∉ rest ∧ (rest.length : Int) = level ∧ ∀ absolute base,
      ns.foldl (enter dot absolute) (below ++ base) = rest ++ base := by
  induction ns generalizing below with
  | nil =>
    cases run
    exact ⟨below, clean, rfl, fun _ _ => rfl⟩
  | cons node ns ih =>
    rw [levelLoop] at run
    split_ifs at run with up low
    · -- two dots cancel the last name
      subst up
      cases below with
      | nil => simp at low
      | cons top below =>
        have same : ((top :: below).length : Int) - 1 = below.length := by simp
        rw [same] at run
        obtain ⟨inTop, inRest⟩ := not_or.mp (mt List.mem_cons.mpr clean)
        obtain ⟨rest, kept, length, walk⟩ := ih inRest run
        refine ⟨rest, kept, length, ?_⟩
        intro absolute base
        rw [List.foldl_cons, ← walk absolute base, List.cons_append,
          enter_cancel fun same => inTop same.symm]
    · have inRest : [dot, dot] ∉ node :: below := by
        rw [List.mem_cons, not_or]
        exact ⟨fun same => up same.symm, clean⟩
      obtain ⟨rest, kept, length, walk⟩ := ih inRest run
      refine ⟨rest, kept, length, ?_⟩
      intro absolute base
      rw [List.foldl_cons, ← walk absolute base, enter_name up, List.cons_append]

theorem levelLoop_zero (run : levelLoop 0 ns = some level) :
    ∃ rest, [dot, dot] ∉ rest ∧ (rest.length : Int) = level ∧ ∀ absolute base,
      ns.foldl (enter dot absolute) base = rest ++ base := by
  have none : [dot, dot] ∉ ([] : List Bytes) := List.not_mem_nil
  exact levelLoop_some none run

theorem levelLoop_append {after : List Bytes} : levelLoop level (before ++ after) =
      (levelLoop level before).bind fun next => levelLoop next after := by
  induction before generalizing level with
  | nil => rfl
  | cons node before ih =>
    rw [List.cons_append, levelLoop, levelLoop]
    split_ifs
    · rfl
    · exact ih
    · exact ih

/-- A level is never negative. -/
theorem levelLoop_nonneg (run : levelLoop 0 ns = some level) : 0 ≤ level := by
  obtain ⟨rest, _, length, _⟩ := levelLoop_zero run
  omega

/-- Names that are counted so far, cut at a NUL: the levels are those of the names, or the cut
leaves two dots at level zero. -/
theorem cut_levels (run : levelLoop 0 ns = some level) :
    (∃ next, levelLoop 0 (cutNames dot 0 ns) = some next) ∨
      ∃ before, levelLoop 0 (cutNames dot 0 ns) = none ∧ levelLoop 0 before = some 0 ∧
        cutNames dot 0 ns = before ++ [[dot, dot]] := by
  rcases clean_or_cut 0 ns with clean | ⟨before, name, after, rfl, clean, ends⟩
  · rw [cutNames_clean clean]
    exact .inl ⟨level, run⟩
  · rw [cutNames_append clean, cutNames, if_pos ends]
    rw [levelLoop_append] at run
    obtain ⟨here, start, _⟩ := Option.bind_eq_some_iff.mp run
    rw [levelLoop_append, start, Option.bind_some]
    have low := levelLoop_nonneg start
    by_cases named : isName dot (cstr 0 name)
    · rw [List.filter_cons_of_pos named]
      by_cases up : cstr 0 name = [dot, dot]
      · rw [up]
        by_cases zero : here = 0
        · rw [zero] at start
          exact .inr ⟨before, by rw [zero]; rfl, start, rfl⟩
        · refine .inl ⟨here - 1, ?_⟩
          rw [levelLoop, if_pos rfl, if_neg (by omega)]
          rfl
      · refine .inl ⟨here + 1, ?_⟩
        rw [levelLoop, if_neg up]
        rfl
    · rw [List.filter_cons_of_neg named]
      exact .inl ⟨here, rfl⟩

section

variable {top : MountPoint}

theorem hostPlace_clipped (ends : 0 ∈ mountPoint) (h : Extends mountPoint ns path) :
    hostPlace path = hostPlace mountPoint := by
  obtain ⟨⟨suffix, rfl⟩, _⟩ := h
  unfold hostPlace
  rw [cstr_append_mem ends]

section

variable (clean : 0 ∉ top.val) (h : Extends top ns path)
include clean h

theorem hostPlace_extends : hostPlace path = ⟨(hostPlace top).absolute, (cutNames dot 0 ns).foldl
      (enter dot (hostPlace top).absolute) (hostPlace top).stack⟩ := by
  obtain ⟨⟨suffix, rfl⟩, all⟩ := h
  have start : (cstr 0 (top.val ++ suffix)).head? = (cstr 0 top.val).head? := by
    rw [cstr_append clean, cstr_eq_self clean]
    obtain ⟨first, rest, all⟩ := List.exists_cons_of_ne_nil top.property
    rw [all]
    rfl
  have walked : names slash dot (cstr 0 (top.val ++ suffix)) =
      names slash dot (cstr 0 top.val) ++ cutNames dot 0 ns := by
    rw [names_cstr (by decide) (by decide), all, cstr_eq_self clean, cutNames_append]
    intro name member inside
    exact clean (mem_of_mem_splitOn (List.mem_filter.mp member).1 inside)
  unfold hostPlace normalise
  rw [start, walked, List.foldl_append]

/-- What the host sees of some names stays below the mount point, unless it is cut to two dots
at level zero; those stay only at the host's root. -/
theorem hostPlace_level (run : levelLoop 0 (cutNames dot 0 ns) = some level) :
    Below dot (hostPlace top) (hostPlace path) ∧ (hostPlace path = hostPlace top ↔ level = 0) := by
  obtain ⟨rest, kept, length, walk⟩ := levelLoop_zero run
  rw [hostPlace_extends clean h, walk]
  refine ⟨⟨rfl, rest, rfl, kept⟩, ?_⟩
  constructor
  · intro same
    have tail := congrArg Place.stack same
    rw [List.append_left_eq_self.mp tail] at length
    exact length.symm
  · rintro rfl
    rw [List.length_eq_zero_iff.mp (by omega : rest.length = 0)]
    rfl

theorem hostPlace_escaped (start : levelLoop 0 before = some 0)
    (cut : cutNames dot 0 ns = before ++ [[dot, dot]]) :
    (Below dot (hostPlace top) (hostPlace path) ↔ hostPlace top = ⟨true, []⟩) ∧
      (hostPlace top = ⟨true, []⟩ → hostPlace path = hostPlace top) := by
  obtain ⟨rest, _, length, walk⟩ := levelLoop_zero start
  rw [List.length_eq_zero_iff.mp (by omega : rest.length = 0)] at walk
  have place := hostPlace_extends clean h
  rw [cut, List.foldl_append, walk, List.foldl_cons] at place
  have root : hostPlace top = ⟨true, []⟩ ↔
      (hostPlace top).absolute = true ∧ (hostPlace top).stack = [] := Place.ext_iff
  rw [place]
  constructor
  · rw [root]
    refine (and_iff_right rfl).trans ?_
    dsimp only
    exact enter_up
  · intro atRoot
    rw [atRoot]
    rfl

end

end

theorem ofString_isValid (valid : (PathParser.ofString s).isValid) :
    s.head? = some slash ∧ ¬ s.any (invalidChars.contains ·) ∧
      (PathParser.ofString s).pathSequence = names slash dot s ∧
      ∃ level, levelLoop 0 (names slash dot s) = some level ∧
        ((PathParser.ofString s).isRoot ↔ level = 0) := by
  unfold PathParser.ofString at valid ⊢
  split_ifs at valid ⊢ with start invalid
  · dsimp only at valid ⊢
    rw [splitString_names] at valid ⊢
    cases run : levelLoop 0 (names slash dot s) with
    | none =>
      rw [run] at valid
      cases valid
    | some level =>
      rw [not_or, not_not] at start
      exact ⟨start.2, invalid, rfl, level, rfl, decide_eq_true_iff⟩

theorem ofString_levels (start : s.head? = some slash) (clean : ¬ s.any (invalidChars.contains ·)) :
    PathParser.ofString s = match levelLoop 0 (names slash dot s) with
      | none => ⟨names slash dot s, false, false⟩
      | some level => ⟨names slash dot s, true, level = 0⟩ := by
  unfold PathParser.ofString
  have nonempty : ¬ (s.length = 0 ∨ s.head? ≠ some slash) := by
    rw [not_or, not_not]
    refine ⟨?_, start⟩
    intro empty
    rw [List.length_eq_zero_iff.mp empty] at start
    cases start
  rw [if_neg nonempty, if_neg clean]
  exact congrArg (fun seq => match levelLoop 0 seq with
    | none => (⟨seq, false, false⟩ : PathParser)
    | some level => ⟨seq, true, level = 0⟩) (splitString_names s)

theorem ofString_cstr (start : s.head? = some slash) (clean : ¬ s.any (invalidChars.contains ·)) :
    PathParser.ofString (cstr 0 s) =
      match levelLoop 0 (cutNames dot 0 (names slash dot s)) with
      | none => ⟨cutNames dot 0 (names slash dot s), false, false⟩
      | some level => ⟨cutNames dot 0 (names slash dot s), true, level = 0⟩ := by
  rw [← names_cstr (by decide) (by decide)]
  apply ofString_levels
  · unfold cstr
    rw [List.head?_takeWhile, start]
    rfl
  · intro some
    apply clean
    obtain ⟨c, member, bad⟩ := List.any_eq_true.mp some
    exact List.any_eq_true.mpr ⟨c, List.takeWhile_subset _ member, bad⟩

/-- The host judges the path as the parser did: what it sees of a string `s`, up to the first
NUL, is as valid and as much the root as `s` is. Two dots that it sees at level zero stay where
they are at the host's root only, and it sees nothing of `s` behind a NUL in the mount point. -/
def SeenAlike (mountPoint : MountPoint) (s : Bytes) : Prop :=
  let whole := PathParser.ofString s
  let seen := PathParser.ofString (cstr 0 s)
  if 0 ∈ mountPoint.val then whole.isRoot = true
  else if seen.isValid then seen.isRoot = true ↔ whole.isRoot = true
  else whole.isRoot = true ∧ hostPlace mountPoint = ⟨true, []⟩

theorem appendNode_total (nonempty : path ≠ []) (node : Bytes) :
    ∃ longer, longer ≠ [] ∧ appendNode path node = .ok longer := by
  unfold appendNode
  rw [List.getLast?_eq_some_getLast nonempty]
  refine ⟨_, ?_, rfl⟩
  split_ifs <;> simp [nonempty]

theorem foldlM_appendNode_total (nonempty : path ≠ []) (seq : List Bytes) :
    ∃ built, seq.foldlM appendNode path = .ok built := by
  induction seq generalizing path with
  | nil => exact ⟨path, rfl⟩
  | cons node seq ih =>
    obtain ⟨longer, further, run⟩ := appendNode_total nonempty node
    rw [List.foldlM_cons, run]
    exact ih further

theorem cutNames_prefix (within : before <+: seq) (run : levelLoop 0 seq = some level) :
    (∃ next, levelLoop 0 (cutNames dot 0 before) = some next) ∨
      cutNames dot 0 before = cutNames dot 0 seq := by
  obtain ⟨after, rfl⟩ := within
  rcases clean_or_cut 0 before with clean | ⟨front, name, back, rfl, clean, ends⟩
  · rw [levelLoop_append] at run
    obtain ⟨next, run, _⟩ := Option.bind_eq_some_iff.mp run
    exact .inl ⟨next, by rw [cutNames_clean clean, run]⟩
  · rw [List.append_assoc, cutNames_append clean, cutNames_append clean, List.cons_append,
      cutNames, cutNames, if_pos ends, if_pos ends]
    exact .inr rfl

theorem reaches_extends {parser : PathParser} (top : MountPoint)
    (good : ∀ node ∈ parser.pathSequence, slash ∉ node ∧ isName dot node) :
    (∀ path, parser.buildHostPath top = .ok path → Extends top parser.pathSequence path) ∧
      ∀ host status paths, parser.getHostStatus host top = .ok (status, paths) →
        ∀ path ∈ paths, ∃ before, before <+: parser.pathSequence ∧ Extends top before path := by
  have start : Extends top.val [] top.val := ⟨List.prefix_refl _, (List.append_nil _).symm⟩
  constructor
  · intro path run
    exact foldlM_appendNode start good run
  · intro host status paths run path member
    unfold PathParser.getHostStatus at run
    split_ifs at run
    · obtain ⟨⟨later, tested⟩, loop, run⟩ := bind_eq_ok.mp run
      cases run
      rcases List.mem_cons.mp member with rfl | member
      · exact ⟨[], List.nil_prefix, start⟩
      · exact hostStatusLoop_tested start good loop member
    · cases run
      cases List.mem_singleton.mp member
      exact ⟨[], List.nil_prefix, start⟩

/-- A valid path stays below the mount point exactly if the host judges it as the parser did. -/
theorem confined_iff {guest : Path} {parser : PathParser} {s : Bytes}
    (parsed : PathParser.make guest = .ok parser) (valid : parser.isValid)
    (string : guest.asString = .ok s) (top : MountPoint) :
    Confined parser top ↔ SeenAlike top s := by
  have whole : parser = PathParser.ofString s := by
    unfold PathParser.make at parsed
    split_ifs at parsed
    · cases parsed
      cases valid
    · rw [string] at parsed
      cases parsed
      rfl
  subst whole
  obtain ⟨first, clean, seq, level, run, root⟩ := ofString_isValid valid
  have good : ∀ node ∈ (PathParser.ofString s).pathSequence, slash ∉ node ∧ isName dot node := by
    intro node member
    rw [seq] at member
    exact mem_names member
  obtain ⟨built, tested⟩ := reaches_extends top good
  rw [seq] at built tested
  obtain ⟨host, build⟩ := foldlM_appendNode_total top.property (PathParser.ofString s).pathSequence
  have extended := built host build
  have only : ∀ path, (PathParser.ofString s).buildHostPath top = .ok path → path = host :=
    fun path other => Except.ok.inj (other.symm.trans build)
  unfold SeenAlike
  by_cases ends : 0 ∈ top.val
  · -- the host sees the mount point only
    rw [if_pos ends]
    constructor
    · intro h
      exact (h.root host build).mpr (hostPlace_clipped ends extended)
    · intro isRoot
      refine ⟨?_, ?_, ?_⟩
      · intro path other
        rw [hostPlace_clipped ends (built path other)]
        exact Below.refl
      · intro fs status paths ran path member
        obtain ⟨before, _, further⟩ := tested fs status paths ran path member
        rw [hostPlace_clipped ends further]
        exact Below.refl
      · intro path other
        exact iff_of_true isRoot (hostPlace_clipped ends (built path other))
  rw [if_neg ends, ofString_cstr first clean]
  rcases cut_levels run with ⟨next, seen⟩ | ⟨before, seen, start, cut⟩
  · -- the host sees levels that never fall below zero
    rw [seen]
    simp only [if_true]
    rw [decide_eq_true_iff]
    obtain ⟨_, place⟩ := hostPlace_level ends extended seen
    constructor
    · intro h
      rw [h.root host build, place]
    · intro alike
      refine ⟨?_, ?_, ?_⟩
      · intro path other
        exact (hostPlace_level ends (built path other) seen).1
      · intro fs status paths ran path member
        obtain ⟨before, within, further⟩ := tested fs status paths ran path member
        rcases cutNames_prefix within run with ⟨here, counted⟩ | same
        · exact (hostPlace_level ends further counted).1
        · exact (hostPlace_level ends further (same ▸ seen)).1
      · intro path other
        rw [only path other, place, alike]
  · -- the host sees two dots at level zero
    rw [seen]
    obtain ⟨escape, stays⟩ := hostPlace_escaped ends extended start cut
    constructor
    · intro h
      have atRoot := escape.mp (h.built host build)
      exact ⟨(h.root host build).mpr (stays atRoot), atRoot⟩
    · rintro ⟨isRoot, atRoot⟩
      refine ⟨?_, ?_, ?_⟩
      · intro path other
        rw [only path other]
        exact escape.mpr atRoot
      · intro fs status paths ran path member
        obtain ⟨front, within, further⟩ := tested fs status paths ran path member
        rcases cutNames_prefix within run with ⟨here, counted⟩ | same
        · exact (hostPlace_level ends further counted).1
        · exact (hostPlace_escaped ends further start (same.trans cut)).1.mpr atRoot
      · intro path other
        rw [only path other]
        exact iff_of_true isRoot (stays atRoot)

def mountM : MountPoint := ⟨[slash, ascii 'm'], by decide⟩

/-- The guest's path `/a/../b`, with a NUL behind the `a`. -/
def downAndUp : Path :=
  ⟨.char, [], [slash, ascii 'a', 0, slash, dot, dot, slash, ascii 'b'], []⟩

/-- The guest's path `/..`, with a NUL behind the dots and another that ends it. -/
def slashUp : Path := ⟨.char, [], [slash, dot, dot, 0], []⟩

theorem confined_iff_downAndUp : ∃ parser, PathParser.make downAndUp = .ok parser ∧
    parser.pathSequence = [[ascii 'a', 0], [dot, dot], [ascii 'b']] ∧ Confined parser mountM := by
  have alike : SeenAlike mountM downAndUp.string := by
    unfold SeenAlike
    decide
  exact ⟨_, rfl, rfl,
    (confined_iff (show PathParser.make downAndUp = _ from rfl) rfl rfl mountM).mpr alike⟩

theorem confined_fails : Path.make .char [slash, dot, dot, 0, 0] = .ok slashUp ∧
      ∃ parser, PathParser.make slashUp = .ok parser ∧ parser.isValid ∧
        ¬ Confined parser mountM := by
  refine ⟨rfl, ⟨[[dot, dot, 0]], true, false⟩, rfl, rfl, ?_⟩
  intro h
  obtain ⟨_, rest, stack, _⟩ := h.built [slash, ascii 'm', slash, dot, dot, 0] rfl
  cases rest <;> cases stack

end FileSys
end EmuThreeDS
