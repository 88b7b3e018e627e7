import Mathlib.Data.List.DropRight

/-!
# Strings (`string_util.cpp`)

`StripSpaces`, and `SplitString` and `ReplaceAll` over the characters of any type. A text whose
characters are written as tokens of one or two characters can be rewritten token by token.
-/
namespace EmuThreeDS.Common

def isSpace (c : Char) : Bool := [' ', '\t', '\r', '\n'].contains c

def stripSpaces (str : List Char) : List Char := (str.dropWhile isSpace).rdropWhile isSpace

theorem stripSpaces_of {str : List Char} (first : ∀ c ∈ str.head?, ¬ isSpace c)
    (last : ∀ c ∈ str.getLast?, ¬ isSpace c) : stripSpaces str = str := by
  have front : str.dropWhile isSpace = str := by
    cases str with
    | nil => rfl
    | cons c str => exact List.dropWhile_cons_of_neg (first c rfl)
  rw [stripSpaces, front, List.rdropWhile_eq_self_iff]
  exact fun nonempty => last _ (List.getLast?_eq_some_getLast nonempty)

variable {α : Type} [DecidableEq α]

/-- `SplitString`: `std::getline` up to the end of the string, behind which there is no line. -/
def splitString (delim : α) : List α → List (List α)
  | [] => []
  | c :: str =>
    if c = delim then [] :: splitString delim str
    else
      match splitString delim str with
      | [] => [[c]]
      | line :: lines => (c :: line) :: lines

/-- `ReplaceAll` where the characters of the last match that are left are skipped. -/
def replaceFrom (src dest : List α) : Nat → List α → List α
  | _, [] => []
  | skipped + 1, _ :: str => replaceFrom src dest skipped str
  | 0, c :: str =>
    if src.isPrefixOf (c :: str) then dest ++ replaceFrom src dest (src.length - 1) str
    else c :: replaceFrom src dest 0 str

/-- `ReplaceAll`: no string is found in what replaced another. -/
def replaceAll (str src dest : List α) : List α :=
  if src = dest then str else replaceFrom src dest 0 str

section

variable {delim : α} {line str : List α}

theorem splitString_delim (free : delim ∉ line) :
    splitString delim (line ++ delim :: str) = line :: splitString delim str := by
  induction line with
  | nil => rw [List.nil_append, splitString, if_pos rfl]
  | cons c line ih =>
    obtain ⟨differs, free⟩ := not_or.mp (List.mem_cons.not.mp free)
    rw [List.cons_append, splitString, if_neg (Ne.symm differs), ih free]

theorem splitString_free (free : delim ∉ line) :
    splitString delim line = if line = [] then [] else [line] := by
  induction line with
  | nil => rfl
  | cons c line ih =>
    obtain ⟨differs, free⟩ := not_or.mp (List.mem_cons.not.mp free)
    rw [splitString, if_neg (Ne.symm differs), ih free]
    cases line with
    | nil | cons d line => rfl

variable (delim str) in
/-- `splitOn` has one more piece, an empty one, behind a last delimiter. -/
theorem splitOn_eq : ∃ behind, (behind = [] ∨ behind = [[]]) ∧
    str.splitOn delim = splitString delim str ++ behind := by
  induction str with
  | nil => exact ⟨[[]], .inr rfl, List.splitOn_nil delim⟩
  | cons c str ih =>
    obtain ⟨behind, empty, parts⟩ := ih
    rw [List.splitOn_cons_eq_if_modifyHead, splitString]
    by_cases ends : c = delim
    · rw [if_pos (beq_iff_eq.mpr ends), if_pos ends, parts]
      exact ⟨behind, empty, rfl⟩
    · rw [if_neg (beq_iff_eq.not.mpr ends), if_neg ends]
      cases pieces : splitString delim str with
      | cons line lines => exact ⟨behind, empty, by rw [parts, pieces]; rfl⟩
      | nil =>
        rw [pieces, List.nil_append] at parts
        have last := empty.resolve_left (parts ▸ List.splitOn_ne_nil delim str)
        exact ⟨[], .inl rfl, by rw [parts, last]; rfl⟩

theorem splitString_lines {lines : List (List α)} (free : ∀ line ∈ lines, delim ∉ line) :
    splitString delim (lines.flatMap (· ++ [delim])) = lines := by
  induction lines with
  | nil => rfl
  | cons line lines ih =>
    obtain ⟨here, free⟩ := List.forall_mem_cons.mp free
    rw [List.flatMap_cons, List.append_assoc, List.singleton_append, splitString_delim here,
      ih free]

theorem not_mem_splitString : ∀ line ∈ splitString delim str, delim ∉ line := by
  induction str with
  | nil => exact nofun
  | cons c str ih =>
    rw [splitString]
    by_cases ends : c = delim
    · rw [if_pos ends]
      exact List.forall_mem_cons.mpr ⟨nofun, ih⟩
    · rw [if_neg ends]
      cases rest : splitString delim str with
      | nil => simp [Ne.symm ends]
      | cons line lines =>
        rw [rest] at ih
        obtain ⟨here, later⟩ := List.forall_mem_cons.mp ih
        exact List.forall_mem_cons.mpr ⟨by simp [Ne.symm ends, here], later⟩

theorem splitString_joined {lines : List (List α)} (free : ∀ line ∈ lines, delim ∉ line)
    (nonempty : ∀ line ∈ lines, line ≠ []) :
    splitString delim (lines.flatMap (· ++ [delim])).dropLast = lines := by
  induction lines with
  | nil => rfl
  | cons line lines ih =>
    have here := free line List.mem_cons_self
    have rest := ih (fun other mem => free other (List.mem_cons_of_mem line mem))
      fun other mem => nonempty other (List.mem_cons_of_mem line mem)
    rw [List.flatMap_cons]
    cases lines with
    | nil =>
      rw [List.flatMap_nil, List.append_nil, List.dropLast_concat, splitString_free here,
        if_neg (nonempty line List.mem_cons_self)]
    | cons next lines =>
      have more : (next :: lines).flatMap (· ++ [delim]) ≠ [] := by simp
      rw [List.dropLast_append_of_ne_nil more, List.append_assoc, List.singleton_append,
        splitString_delim here, rest]

end

section

variable {a k : α} {dest str : List α} {t t' : α → List α}

theorem replaceAll_char (differ : [a] ≠ dest) :
    replaceAll str [a] dest = str.flatMap fun c => if c = a then dest else [c] := by
  rw [replaceAll, if_neg differ]
  induction str with
  | nil => rfl
  | cons c str ih =>
    rw [replaceFrom, List.flatMap_cons, List.isPrefixOf_cons_cons, List.isPrefixOf_nil_left,
      Bool.and_true, List.length_singleton, ih]
    by_cases same : c = a
    · rw [if_pos same, if_pos (beq_iff_eq.mpr same.symm)]
    · rw [if_neg same, if_neg (beq_iff_eq.not.mpr (Ne.symm same)), List.singleton_append]

/-- A token that starts with `a` is replaced if `k` follows, and any other one stays. -/
def Rewrites (a k : α) (dest before after : List α) : Prop :=
  before = [a, k] ∧ after = dest ∨
    before = after ∧ ((∃ c, c ≠ a ∧ after = [c]) ∨ ∃ j, j ≠ a ∧ j ≠ k ∧ after = [a, j])

theorem replaceAll_tokens (differ : [a, k] ≠ dest) (each : ∀ c, Rewrites a k dest (t c) (t' c)) :
    replaceAll (str.flatMap t) [a, k] dest = str.flatMap t' := by
  rw [replaceAll, if_neg differ]
  induction str with
  | nil => rfl
  | cons c str ih =>
    rw [List.flatMap_cons, List.flatMap_cons]
    rcases each c with ⟨before, after⟩ | ⟨same, ⟨x, other, plain⟩ | ⟨j, apart, differs, kept⟩⟩
    · rw [before, after, List.cons_append, replaceFrom, if_pos (by simp)]
      simp only [List.length_cons, List.length_nil, List.singleton_append]
      rw [replaceFrom, ih]
    · have skip : ¬ [a, k].isPrefixOf (x :: str.flatMap t) = true := by simp [Ne.symm other]
      rw [same, plain, List.singleton_append, replaceFrom, if_neg skip, ih,
        List.singleton_append]
    · have first : ¬ [a, k].isPrefixOf (a :: j :: str.flatMap t) = true := by
        simp [Ne.symm differs]
      have second : ¬ [a, k].isPrefixOf (j :: str.flatMap t) = true := by simp [Ne.symm apart]
      rw [same, kept, List.cons_append, List.singleton_append, replaceFrom, if_neg first,
        replaceFrom, if_neg second, ih]
      rfl

end

end EmuThreeDS.Common
