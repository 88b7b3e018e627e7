import EmuThreeDS.Common.StringUtil

/-!
# Cheat files (`GatewayCheat::ToString` and `GatewayCheat::LoadFile`)

Loading goes line by line. The name, the comments and the codes start anew at each line with a
name, but the flag only if a cheat is made there. A line of a cheat is its text here: the rest of
a `CheatLine` is made of it.
-/
namespace EmuThreeDS.Cheats
open Common

abbrev Line := List Char

abbrev FileSection := List Line

structure GatewayCheat where
  name : List Char
  cheatLines : List Line
  comments : List Char
  enabled : Bool := false

/-- What follows the `*` of `EnabledText`. -/
def enabledMark : List Char := ['c', 'i', 't', 'r', 'a', '_', 'e', 'n', 'a', 'b', 'l', 'e', 'd']

/-- "A special marker used to keep track of enabled cheats" -/
def enabledText : List Char := '*' :: enabledMark

namespace GatewayCheat

def getCode (c : GatewayCheat) : List Char := c.cheatLines.flatMap (· ++ ['\n'])

def commentLines (c : GatewayCheat) : List Line := splitString '\n' c.comments

def toString (c : GatewayCheat) : List Char :=
  '[' :: c.name ++ [']', '\n'] ++ (if c.enabled then enabledText ++ ['\n'] else []) ++
    c.commentLines.flatMap (fun line => '*' :: line ++ ['\n']) ++ (c.getCode ++ ['\n'])

end GatewayCheat

structure Loader where
  cheats : List GatewayCheat := []
  comments : List Char := []
  cheatLines : List Line := []
  name : List Char := []
  enabled : Bool := false

def cleaned (line : Line) : List Char := stripSpaces (line.filter (· ≠ '\x00'))

def isHeader (line : Line) : Bool := 2 ≤ line.length ∧ line.head? = some '['

namespace Loader

/-- The cheats with the one that was read last, if it has any lines. -/
def finish (l : Loader) : List GatewayCheat :=
  if l.cheatLines = [] then l.cheats
  else l.cheats ++ [⟨l.name, l.cheatLines, l.comments, l.enabled⟩]

def readLine (l : Loader) (line : Line) : Loader :=
  let line := cleaned line
  if isHeader line then
    { cheats := l.finish
      enabled := if l.cheatLines = [] then l.enabled else false
      name := (line.drop 1).take (line.length - 2)
      cheatLines := []
      comments := [] }
  else if line.head? = some '*' then
    if line = enabledText then { l with enabled := true }
    else { l with comments := l.comments ++ (line.drop 1 ++ ['\n']) }
  else if line ≠ [] then { l with cheatLines := l.cheatLines ++ [line] }
  else l

end Loader

/-- A file that cannot be opened has no cheats. Behind its last newline there is one more line. -/
def loadFile : Option (List Char) → List GatewayCheat
  | none => []
  | some text => ((text.splitOn '\n').foldl Loader.readLine {}).finish

/-- "No newline or NUL, no surrounding blanks." -/
structure Clean (line : Line) : Prop where
  newline : '\n' ∉ line
  nul : '\x00' ∉ line
  first : ∀ c ∈ line.head?, ¬ isSpace c
  last : ∀ c ∈ line.getLast?, ¬ isSpace c

def isHexDigit (c : Char) : Bool :=
  c.isDigit || ('a' ≤ c && c ≤ 'f') || ('A' ≤ c && c ≤ 'F')

namespace GatewayCheat

structure Savable (c : GatewayCheat) : Prop where
  nonempty : c.cheatLines ≠ []
  name : Clean c.name
  comments : ∀ line ∈ c.commentLines, Clean line
  codes : ∀ line ∈ c.cheatLines, Clean line ∧ ∃ digit ∈ line.head?, isHexDigit digit

def savedLines (c : GatewayCheat) : List Line :=
  ('[' :: (c.name ++ [']'])) :: ((if c.enabled then [enabledText] else []) ++
    (c.commentLines.map ('*' :: ·) ++ (c.cheatLines ++ [[]])))

/-- The cheat that is loaded: a comment that reads like the marker is taken for it. -/
def reloaded (c : GatewayCheat) : GatewayCheat :=
  { c with
    comments := (c.commentLines.filter (· ≠ enabledMark)).flatMap (· ++ ['\n'])
    enabled := c.enabled || decide (enabledMark ∈ c.commentLines) }

/-- What is to be the same after a cheat was saved and loaded. -/
def seen (c : GatewayCheat) : List Char × List Line × List Line × Bool :=
  (c.name, c.cheatLines, c.commentLines, c.enabled)

end GatewayCheat

variable {line : Line} {lines : List Line} {part : FileSection} {c : GatewayCheat} {l : Loader}

theorem Clean.cons {a : Char} (clean : Clean line) (newline : a ≠ '\n') (nul : a ≠ '\x00')
    (space : ¬ isSpace a) : Clean (a :: line) where
  newline := by simp [clean.newline, newline.symm]
  nul := by simp [clean.nul, nul.symm]
  first := by simpa using space
  last := by
    cases line with
    | nil => simpa using space
    | cons b line => simpa using clean.last

theorem Clean.concat {a : Char} (clean : Clean line) (newline : a ≠ '\n') (nul : a ≠ '\x00')
    (space : ¬ isSpace a) : Clean (line ++ [a]) where
  newline := by simp [clean.newline, newline.symm]
  nul := by simp [clean.nul, nul.symm]
  first := by
    cases line with
    | nil => simpa using space
    | cons b line => simpa using clean.first
  last := by simpa using space

theorem clean_nil : Clean [] := ⟨nofun, nofun, nofun, nofun⟩

theorem Clean.cleaned (clean : Clean line) : cleaned line = line := by
  have kept : line.filter (· ≠ '\x00') = line := by
    rw [List.filter_eq_self]
    rintro c mem
    have differs : c ≠ '\x00' := fun same => clean.nul (same ▸ mem)
    simpa using differs
  unfold Cheats.cleaned
  rw [kept]
  exact stripSpaces_of clean.first clean.last

theorem readLine_header (clean : Clean line) : l.readLine ('[' :: (line ++ [']'])) =
      ⟨l.finish, [], [], line, if l.cheatLines = [] then l.enabled else false⟩ := by
  have whole : Clean ('[' :: (line ++ [']'])) :=
    (clean.concat (by decide) (by decide) (by decide)).cons (by decide) (by decide) (by decide)
  have header : isHeader ('[' :: (line ++ [']'])) = true := by simp [isHeader]
  unfold Loader.readLine
  rw [whole.cleaned]
  simp [header]

theorem readLine_enabledText : l.readLine enabledText = { l with enabled := true } := by
  have cleanText : cleaned enabledText = enabledText := by decide
  unfold Loader.readLine
  rw [cleanText]
  simp [isHeader, enabledText]

theorem readLine_comment (clean : Clean line) (unmarked : line ≠ enabledMark) :
    l.readLine ('*' :: line) = { l with comments := l.comments ++ (line ++ ['\n']) } := by
  unfold Loader.readLine
  rw [(clean.cons (by decide) (by decide) (by decide)).cleaned]
  simp [isHeader, enabledText, unmarked]

theorem readLine_code (clean : Clean line) (code : ∃ digit ∈ line.head?, isHexDigit digit) :
    l.readLine line = { l with cheatLines := l.cheatLines ++ [line] } := by
  obtain ⟨digit, first, hex⟩ := code
  have first : line.head? = some digit := first
  have noName : digit ≠ '[' := by
    rintro rfl
    exact absurd hex (by decide)
  have noComment : digit ≠ '*' := by
    rintro rfl
    exact absurd hex (by decide)
  have nonempty : line ≠ [] := by
    rintro rfl
    cases first
  unfold Loader.readLine
  rw [clean.cleaned]
  simp [isHeader, first, noName, noComment, nonempty]

theorem readLine_nil : l.readLine [] = l := by
  rfl

theorem foldl_comments (clean : ∀ line ∈ lines, Clean line) :
    (lines.map ('*' :: ·)).foldl Loader.readLine l =
      { l with
        comments := l.comments ++ (lines.filter (· ≠ enabledMark)).flatMap (· ++ ['\n'])
        enabled := l.enabled || decide (enabledMark ∈ lines) } := by
  induction lines generalizing l with
  | nil => simp
  | cons line lines ih =>
    obtain ⟨here, clean⟩ := List.forall_mem_cons.mp clean
    rw [List.map_cons, List.foldl_cons]
    by_cases marked : line = enabledMark
    · rw [marked, ← enabledText, readLine_enabledText, ih clean]
      simp
    · rw [readLine_comment here marked, ih clean]
      simp [marked, Ne.symm marked]

theorem foldl_codes (codes : ∀ line ∈ lines, Clean line ∧ ∃ digit ∈ line.head?, isHexDigit digit) :
    lines.foldl Loader.readLine l = { l with cheatLines := l.cheatLines ++ lines } := by
  induction lines generalizing l with
  | nil => simp
  | cons line lines ih =>
    obtain ⟨⟨clean, code⟩, codes⟩ := List.forall_mem_cons.mp codes
    rw [List.foldl_cons, readLine_code clean code, ih codes]
    simp

/-- The flag of the loader is cleared once there are lines of a cheat. -/
def Loader.Fresh (l : Loader) : Prop := l.cheatLines = [] → l.enabled = false

theorem foldl_savedLines (savable : c.Savable) (fresh : l.Fresh) :
    ∃ l' : Loader, c.savedLines.foldl Loader.readLine l = l' ∧ l'.Fresh ∧
      l'.finish = l.finish ++ [c.reloaded] := by
  have cleared : (if l.cheatLines = [] then l.enabled else false) = false := by
    split_ifs with none
    · exact fresh none
    · rfl
  have flag : (if c.enabled then [enabledText] else []).foldl Loader.readLine
      ⟨l.finish, [], [], c.name, false⟩ = ⟨l.finish, [], [], c.name, c.enabled⟩ := by
    cases c.enabled with
    | false => rfl
    | true => exact readLine_enabledText
  refine ⟨_, rfl, ?_⟩
  unfold GatewayCheat.savedLines
  rw [List.foldl_cons, readLine_header savable.name, cleared, List.foldl_append, flag,
    List.foldl_append, foldl_comments savable.comments, List.foldl_append,
    foldl_codes savable.codes, List.foldl_cons, readLine_nil]
  refine ⟨fun none => absurd none savable.nonempty, ?_⟩
  simp [Loader.finish, savable.nonempty, GatewayCheat.reloaded]

theorem splitOn_joined (free : ∀ line ∈ lines, '\n' ∉ line) (rest : List Char) :
    (lines.flatMap (· ++ ['\n']) ++ rest).splitOn '\n' = lines ++ rest.splitOn '\n' := by
  induction lines with
  | nil => rfl
  | cons line lines ih =>
    obtain ⟨here, free⟩ := List.forall_mem_cons.mp free
    rw [List.flatMap_cons, List.append_assoc, List.append_assoc, List.singleton_append,
      List.splitOn_append_cons_self_of_not_mem here, ih free, List.cons_append]

theorem toString_eq : c.toString = c.savedLines.flatMap (· ++ ['\n']) := by
  unfold GatewayCheat.toString GatewayCheat.savedLines GatewayCheat.getCode
  cases c.enabled <;> simp [List.flatMap_map]

theorem GatewayCheat.Savable.free (savable : c.Savable) : ∀ line ∈ c.savedLines, '\n' ∉ line := by
  simp only [GatewayCheat.savedLines, List.forall_mem_cons, List.forall_mem_append,
    List.forall_mem_map]
  refine ⟨by simp [savable.name.newline], ?_, fun line mem => ?_,
    fun line mem => (savable.codes line mem).1.newline, by simp⟩
  · cases c.enabled with
    | false => exact nofun
    | true => simp [enabledText, enabledMark]
  · simp [(savable.comments line mem).newline]

theorem loadFile_saved {cheats : List GatewayCheat} (savable : ∀ c ∈ cheats, c.Savable) :
    loadFile (some (cheats.flatMap GatewayCheat.toString)) = cheats.map GatewayCheat.reloaded := by
  have text : (cheats.flatMap GatewayCheat.toString).splitOn '\n' =
      cheats.flatMap GatewayCheat.savedLines ++ [[]] := by
    have free : ∀ line ∈ cheats.flatMap GatewayCheat.savedLines, '\n' ∉ line := by
      intro line mem
      obtain ⟨c, member, mem⟩ := List.mem_flatMap.mp mem
      exact (savable c member).free line mem
    have joined := splitOn_joined free []
    rw [List.append_nil, List.flatMap_assoc] at joined
    rw [funext fun c => toString_eq (c := c), joined, List.splitOn_nil]
  have loads : ∀ l : Loader, l.Fresh →
      ((cheats.flatMap GatewayCheat.savedLines).foldl Loader.readLine l).finish =
        l.finish ++ cheats.map GatewayCheat.reloaded := by
    clear text
    induction cheats with
    | nil => simp
    | cons c cheats ih =>
      intro l fresh
      obtain ⟨here, savable⟩ := List.forall_mem_cons.mp savable
      obtain ⟨l', run, fresh', finished⟩ := foldl_savedLines here fresh
      rw [List.flatMap_cons, List.foldl_append, run, ih savable l' fresh', finished]
      simp
  dsimp only [loadFile]
  rw [text, List.foldl_append, List.foldl_cons, readLine_nil, List.foldl_nil,
    loads {} fun _ => rfl]
  rfl

theorem commentLines_reloaded :
    c.reloaded.commentLines = c.commentLines.filter (· ≠ enabledMark) := by
  have free : ∀ line ∈ c.commentLines.filter (· ≠ enabledMark), '\n' ∉ line :=
    fun line mem => not_mem_splitString line (List.mem_of_mem_filter mem)
  exact splitString_lines free

theorem seen_reloaded : c.reloaded.seen = c.seen ↔ enabledMark ∉ c.commentLines := by
  simp only [GatewayCheat.seen, commentLines_reloaded, Prod.mk.injEq, List.filter_eq_self]
  constructor
  · rintro ⟨_, _, same, _⟩ mem
    exact absurd (same _ mem) (by simp)
  · intro unmarked
    refine ⟨rfl, rfl, fun line mem => ?_, ?_⟩
    · have differs : line ≠ enabledMark := fun same => unmarked (same ▸ mem)
      simpa using differs
    · simp [GatewayCheat.reloaded, unmarked]

/-- The lines up to the first header, and those of the sections behind it. -/
def sectionsFrom : List Line → FileSection × List FileSection
  | [] => ([], [])
  | line :: lines =>
    if isHeader (cleaned line) then ([], (line :: (sectionsFrom lines).1) :: (sectionsFrom lines).2)
    else (line :: (sectionsFrom lines).1, (sectionsFrom lines).2)

def sections (text : List Char) : List FileSection :=
  (sectionsFrom (text.splitOn '\n')).1 :: (sectionsFrom (text.splitOn '\n')).2

def isCode (line : Line) : Bool :=
  cleaned line ≠ [] ∧ ¬ isHeader (cleaned line) ∧ (cleaned line).head? ≠ some '*'

def hasCode (part : FileSection) : Bool := part.any isCode

def isMarked (part : FileSection) : Bool := part.any fun line => cleaned line = enabledText

/-- The flags of the cheats that sections make, behind some that have left a flag. -/
def flagsFrom : Bool → List FileSection → List Bool
  | _, [] => []
  | left, part :: rest =>
    if hasCode part then (left || isMarked part) :: flagsFrom false rest
    else flagsFrom (left || isMarked part) rest

def flags (text : List Char) : List Bool := (loadFile (some text)).map (·.enabled)

theorem hasCode_cons : hasCode (line :: part) = (isCode line || hasCode part) := rfl

theorem isMarked_cons :
    isMarked (line :: part) = (decide (cleaned line = enabledText) || isMarked part) := rfl

theorem finish_enabled : l.finish.map (·.enabled) =
    l.cheats.map (·.enabled) ++ if l.cheatLines = [] then [] else [l.enabled] := by
  unfold Loader.finish
  split_ifs
  · simp
  · simp

theorem flags_foldl : ((lines.foldl Loader.readLine l).finish).map (·.enabled) =
    l.cheats.map (·.enabled) ++ if l.cheatLines ≠ [] ∨ hasCode (sectionsFrom lines).1 then
        (l.enabled || isMarked (sectionsFrom lines).1) :: flagsFrom false (sectionsFrom lines).2
      else flagsFrom (l.enabled || isMarked (sectionsFrom lines).1) (sectionsFrom lines).2 := by
  induction lines generalizing l with
  | nil =>
    rw [finish_enabled]
    by_cases none : l.cheatLines = []
    · simp [none, sectionsFrom, hasCode, flagsFrom]
    · simp [none, sectionsFrom, isMarked, flagsFrom]
  | cons line lines ih =>
    rw [List.foldl_cons, ih]
    rw [sectionsFrom]
    unfold Loader.readLine
    by_cases header : isHeader (cleaned line)
    · have unmarked : cleaned line ≠ enabledText := by
        intro same
        rw [same] at header
        exact absurd header (by decide)
      have noCode : isCode line = false := by simp [isCode, header]
      rw [if_pos header, if_pos header]
      rw [finish_enabled]
      by_cases none : l.cheatLines = []
      · simp [none, flagsFrom, unmarked, noCode, hasCode, isMarked]
      · simp [none, flagsFrom, unmarked, noCode, hasCode, isMarked]
    · rw [if_neg header, if_neg header, hasCode_cons, isMarked_cons]
      by_cases comment : (cleaned line).head? = some '*'
      · have noCode : isCode line = false := by simp [isCode, comment]
        rw [if_pos comment]
        by_cases marked : cleaned line = enabledText
        · simp [marked, noCode]
        · simp [marked, noCode]
      · have unmarked : cleaned line ≠ enabledText := by
          intro same
          rw [same] at comment
          exact comment rfl
        rw [if_neg comment]
        by_cases blank : cleaned line = []
        · have noCode : isCode line = false := by simp [isCode, blank]
          simp [blank, noCode, enabledText]
        · have code : isCode line = true := by simp [isCode, blank, header, comment]
          simp [blank, code, unmarked]

theorem flags_eq {text : List Char} : flags text = flagsFrom false (sections text) := by
  unfold flags loadFile sections
  rw [flags_foldl]
  simp [flagsFrom]

/-- Behind a section with the marker and no line of code the next cheat has the marker, too. -/
def FlagsStay (parts : List FileSection) : Prop :=
  ∀ part rest, part :: rest <:+ parts → isMarked part → ¬ hasCode part →
    ∀ next ∈ rest.find? hasCode, isMarked next

theorem flagsStay_cons {rest : List FileSection} : FlagsStay (part :: rest) ↔
      (isMarked part → ¬ hasCode part → ∀ next ∈ rest.find? hasCode, isMarked next) ∧
        FlagsStay rest := by
  constructor
  · intro stay
    exact ⟨stay part rest (List.suffix_refl _), fun other rest' suffix =>
      stay other rest' (List.suffix_cons_iff.mpr (.inr suffix))⟩
  · rintro ⟨here, stay⟩ other rest' suffix
    rcases List.suffix_cons_iff.mp suffix with same | suffix
    · cases same
      exact here
    · exact stay other rest' suffix

theorem flagsFrom_iff {left : Bool} {parts : List FileSection} :
    flagsFrom left parts = (parts.filter hasCode).map isMarked ↔
      (left → ∀ next ∈ parts.find? hasCode, isMarked next) ∧ FlagsStay parts := by
  induction parts generalizing left with
  | nil => simp [flagsFrom, FlagsStay]
  | cons part rest ih =>
    rw [flagsFrom, flagsStay_cons]
    by_cases code : hasCode part
    · rw [if_pos code, List.filter_cons_of_pos code, List.map_cons, List.cons_eq_cons, ih]
      cases left <;> simp [code]
    · rw [if_neg code, List.filter_cons_of_neg code, List.find?_cons_of_neg code, ih]
      cases left with
      | false => simp [code]
      | true =>
        simp only [Bool.true_or, forall_const]
        exact ⟨fun ⟨all, stay⟩ => ⟨all, fun _ _ => all, stay⟩, fun ⟨all, _, stay⟩ => ⟨all, stay⟩⟩

/-- Saving and loading loses nothing just if no comment reads like the marker; the flags of a file
are those of the cheats' own sections just if none is left behind a section without code. -/
theorem loadFile_iff {cheats : List GatewayCheat} (savable : ∀ c ∈ cheats, c.Savable)
    (text : List Char) :
    ((loadFile (some (cheats.flatMap GatewayCheat.toString))).map GatewayCheat.seen =
        cheats.map GatewayCheat.seen ↔ ∀ c ∈ cheats, enabledMark ∉ c.commentLines) ∧
      (flags text = ((sections text).filter hasCode).map isMarked ↔ FlagsStay (sections text)) := by
  constructor
  · rw [loadFile_saved savable, List.map_map, List.map_inj_left]
    exact forall₂_congr fun c _ => seen_reloaded
  · rw [flags_eq, flagsFrom_iff]
    simp

def oneLine (comments : List Char) : GatewayCheat := ⟨['A'], [['1']], comments, false⟩

theorem savable_oneLine {comments : List Char}
    (clean : ∀ line ∈ splitString '\n' comments, Clean line) : (oneLine comments).Savable := by
  have digit : Clean ['1'] := clean_nil.cons (by decide) (by decide) (by decide)
  exact ⟨List.cons_ne_nil _ _, clean_nil.cons (by decide) (by decide) (by decide), clean,
    List.forall_mem_singleton.mpr ⟨digit, '1', rfl, by decide⟩⟩

/-- An enabled cheat with a comment line, and one without. -/
def twoCheats : List GatewayCheat := [{ oneLine ['c', '\n'] with enabled := true }, oneLine []]

theorem loadFile_iff_twoCheats :
    (loadFile (some (twoCheats.flatMap GatewayCheat.toString))).map GatewayCheat.seen =
        twoCheats.map GatewayCheat.seen ∧
      flags (twoCheats.flatMap GatewayCheat.toString) = [true, false] ∧
      FlagsStay (sections (twoCheats.flatMap GatewayCheat.toString)) := by
  have comment : Clean ['c'] := clean_nil.cons (by decide) (by decide) (by decide)
  have first : (oneLine ['c', '\n']).Savable :=
    savable_oneLine (List.forall_mem_singleton.mpr comment)
  have savable : ∀ c ∈ twoCheats, c.Savable := List.forall_mem_cons.mpr
    ⟨⟨first.nonempty, first.name, first.comments, first.codes⟩,
      List.forall_mem_singleton.mpr (savable_oneLine (List.forall_mem_nil _))⟩
  obtain ⟨saved, stay⟩ := loadFile_iff savable (twoCheats.flatMap GatewayCheat.toString)
  exact ⟨saved.mpr (by decide), by decide, stay.mp (by decide)⟩

theorem clean_enabledMark : Clean enabledMark where
  newline := by decide
  nul := by decide
  first := by
    rintro c mem
    cases (show some 'c' = some c from mem)
    decide
  last := by
    rintro c mem
    cases (show some 'd' = some c from mem)
    decide

/-- The comment `citra_enabled` is lost, and the marker of a section without lines is left to the
next cheat. -/
theorem marker_strays : (¬ ∀ cheats : List GatewayCheat, (∀ c ∈ cheats, c.Savable) →
      (loadFile (some (cheats.flatMap GatewayCheat.toString))).map GatewayCheat.seen =
        cheats.map GatewayCheat.seen) ∧ ¬ ∃ own : FileSection → Bool,
        ∀ text, flags text = ((sections text).filter hasCode).map own := by
  constructor
  · intro same
    have marked : ∀ line ∈ splitString '\n' (enabledMark ++ ['\n']), Clean line :=
      List.forall_mem_singleton.mpr clean_enabledMark
    have lost := same [oneLine (enabledMark ++ ['\n'])]
      (List.forall_mem_singleton.mpr (savable_oneLine marked))
    exact absurd lost (by decide)
  · rintro ⟨own, same⟩
    have alone := same ['[', 'B', ']', '\n', '1']
    have behind := same
      (['[', 'A', ']', '\n'] ++ enabledText ++ ['\n', '[', 'B', ']', '\n', '1'])
    have one : [false] = [own [['[', 'B', ']'], ['1']]] := alone
    have other : [true] = [own [['[', 'B', ']'], ['1']]] := behind
    exact absurd (one.trans other.symm) (by decide)

end EmuThreeDS.Cheats
