import Mathlib.Data.List.TakeWhile

/-!
# Lexical paths

A path is a string over any alphabet with a separator and a dot. Its names are the parts
between separators that are neither empty nor a single dot; walking them from the root, two
dots go up. A C string ends at its first terminator, and so do the names of a path in one.
-/
namespace LexicalPath

variable {α : Type} [DecidableEq α] (sep dot nul : α)

def isName (part : List α) : Bool := part ≠ [] ∧ part ≠ [dot]

def names (s : List α) : List (List α) := (s.splitOn sep).filter (isName dot)

/-- Entering one name; the last name entered comes first in the stack. At the root of an
absolute path two dots stay there. -/
def enter (absolute : Bool) (stack : List (List α)) (name : List α) : List (List α) :=
  if name = [dot, dot] then
    match stack with
    | [] => if absolute then [] else [[dot, dot]]
    | top :: rest => if top = [dot, dot] then [dot, dot] :: top :: rest else rest
  else name :: stack

/-- What a path normalises to. -/
@[ext] structure Place (α : Type) where
  absolute : Bool
  stack : List (List α)
  deriving DecidableEq

def normalise (s : List α) : Place α where
  absolute := s.head? = some sep
  stack := (names sep dot s).foldl (enter dot (s.head? = some sep)) []

/-- `place` is `mount` or reached from it by names alone. -/
def Below (mount place : Place α) : Prop :=
  place.absolute = mount.absolute ∧ ∃ rest, place.stack = rest ++ mount.stack ∧ [dot, dot] ∉ rest

def cstr (s : List α) : List α := s.takeWhile (· ≠ nul)

def cutNames : List (List α) → List (List α)
  | [] => []
  | name :: rest =>
    if nul ∈ name then [cstr nul name].filter (isName dot) else name :: cutNames rest

variable {sep dot nul}

section

variable {s t : List α}

@[simp] theorem names_nil : names sep dot ([] : List α) = [] := rfl

theorem names_append_sep : names sep dot (s ++ sep :: t) = names sep dot s ++ names sep dot t := by
  unfold names
  rw [List.splitOn_append_cons_self, List.filter_append]

theorem names_of_notMem (clean : sep ∉ s) : names sep dot s = [s].filter (isName dot) := by
  unfold names
  rw [List.splitOn_eq_singleton clean]

variable {part name : List α}

theorem notMem_of_mem_splitOn : part ∈ s.splitOn sep → sep ∉ part := by
  induction s generalizing part with
  | nil =>
    intro member
    rw [List.splitOn_nil, List.mem_singleton] at member
    rw [member]
    exact List.not_mem_nil
  | cons c s ih =>
    rw [List.splitOn_cons_eq_if_modifyHead]
    obtain ⟨first, rest, parts⟩ := List.exists_cons_of_ne_nil (List.splitOn_ne_nil sep s)
    rw [parts] at ih ⊢
    split_ifs with here
    · rintro (_ | ⟨_, member⟩)
      · exact List.not_mem_nil
      · exact ih member
    · rintro (_ | ⟨_, member⟩)
      · intro inside
        rcases List.mem_cons.mp inside with rfl | inside
        · exact here (beq_self_eq_true _)
        · exact ih (List.mem_cons_self ..) inside
      · exact ih (List.mem_cons_of_mem _ member)

theorem mem_of_mem_splitOn {c : α} : part ∈ s.splitOn sep → c ∈ part → c ∈ s := by
  induction s generalizing part with
  | nil =>
    intro member inside
    rw [List.splitOn_nil, List.mem_singleton] at member
    rwa [← member]
  | cons first s ih =>
    rw [List.splitOn_cons_eq_if_modifyHead]
    obtain ⟨front, rest, parts⟩ := List.exists_cons_of_ne_nil (List.splitOn_ne_nil sep s)
    rw [parts] at ih ⊢
    split_ifs
    · rintro (_ | ⟨_, member⟩) inside
      · cases inside
      · exact List.mem_cons_of_mem _ (ih member inside)
    · rintro (_ | ⟨_, member⟩) inside
      · rcases List.mem_cons.mp inside with rfl | inside
        · exact List.mem_cons_self ..
        · exact List.mem_cons_of_mem _ (ih (List.mem_cons_self ..) inside)
      · exact List.mem_cons_of_mem _ (ih (List.mem_cons_of_mem _ member) inside)

theorem mem_names (member : name ∈ names sep dot s) : sep ∉ name ∧ isName dot name := by
  obtain ⟨part, named⟩ := List.mem_filter.mp member
  exact ⟨notMem_of_mem_splitOn part, named⟩

end

section

variable {s t : List α}

theorem cstr_eq_self (clean : nul ∉ s) : cstr nul s = s := by
  apply List.takeWhile_eq_self_iff.mpr
  intro c member
  have other : c ≠ nul := fun same => clean (same ▸ member)
  simpa using other

theorem cstr_append (clean : nul ∉ s) : cstr nul (s ++ t) = s ++ cstr nul t := by
  unfold cstr
  rw [List.takeWhile_append_of_pos]
  intro c member
  have other : c ≠ nul := fun same => clean (same ▸ member)
  simpa using other

theorem cstr_append_mem (ends : nul ∈ s) : cstr nul (s ++ t) = cstr nul s := by
  induction s with
  | nil => cases ends
  | cons c s ih =>
    by_cases here : c = nul
    · simp [cstr, here]
    · have later : nul ∈ s := (List.mem_cons.mp ends).resolve_left fun same => here same.symm
      have tail := ih later
      simp only [cstr] at tail ⊢
      rw [List.cons_append, List.takeWhile_cons_of_pos (by simpa using here),
        List.takeWhile_cons_of_pos (by simpa using here), tail]

theorem cutNames_append {before after : List (List α)} (clean : ∀ other ∈ before, nul ∉ other) :
    cutNames dot nul (before ++ after) = before ++ cutNames dot nul after := by
  induction before with
  | nil => rfl
  | cons first before ih =>
    rw [List.cons_append, cutNames, if_neg (clean first (List.mem_cons_self ..)),
      ih fun other member => clean other (List.mem_cons_of_mem _ member), List.cons_append]

theorem cutNames_clean {ns : List (List α)} (clean : ∀ name ∈ ns, nul ∉ name) :
    cutNames dot nul ns = ns := by
  have all : cutNames dot nul (ns ++ []) = ns ++ [] := cutNames_append clean
  rwa [List.append_nil] at all

/-- Either no name has the terminator, or there is a first that has it. -/
theorem clean_or_cut (nul : α) (ns : List (List α)) : (∀ name ∈ ns, nul ∉ name) ∨
      ∃ before name after, ns = before ++ name :: after ∧ (∀ other ∈ before, nul ∉ other) ∧
        nul ∈ name := by
  induction ns with
  | nil => exact .inl nofun
  | cons first rest ih =>
    by_cases here : nul ∈ first
    · exact .inr ⟨[], first, rest, rfl, nofun, here⟩
    · rcases ih with clean | ⟨before, name, after, rfl, clean, ends⟩
      · exact .inl (List.forall_mem_cons.mpr ⟨here, clean⟩)
      · exact .inr ⟨first :: before, name, after, rfl,
          List.forall_mem_cons.mpr ⟨here, clean⟩, ends⟩

private def cutParts (nul : α) : List (List α) → List (List α)
  | [] => []
  | part :: rest => if nul ∈ part then [cstr nul part] else part :: cutParts nul rest

private theorem splitOn_cstr (other : nul ≠ sep) :
    (cstr nul s).splitOn sep = cutParts nul (s.splitOn sep) := by
  induction s with
  | nil => rfl
  | cons c s ih =>
    obtain ⟨first, rest, parts⟩ := List.exists_cons_of_ne_nil (List.splitOn_ne_nil sep s)
    rw [parts] at ih
    rw [List.splitOn_cons_eq_if_modifyHead, parts]
    by_cases ends : c = nul
    · subst ends
      have notSep : ¬ (c == sep) = true := by simpa using other
      rw [if_neg notSep, List.modifyHead_cons, cutParts]
      simp [cstr]
    · have kept : cstr nul (c :: s) = c :: cstr nul s :=
        List.takeWhile_cons_of_pos (by simpa using ends)
      rw [kept, List.splitOn_cons_eq_if_modifyHead, ih]
      split_ifs with here
      · have empty : nul ∉ ([] : List α) := List.not_mem_nil
        simp only [cutParts, if_neg empty]
      · rw [List.modifyHead_cons, cutParts, cutParts]
        have same : nul ∈ c :: first ↔ nul ∈ first := by
          rw [List.mem_cons]
          exact or_iff_right fun same => ends same.symm
        by_cases inside : nul ∈ first
        · rw [if_pos inside, if_pos (same.mpr inside), List.modifyHead_cons]
          congr 1
          exact (List.takeWhile_cons_of_pos (by simpa using ends)).symm
        · rw [if_neg inside, if_neg (mt same.mp inside), List.modifyHead_cons]

private theorem cutParts_names {parts : List (List α)} (other : nul ≠ dot) :
    (cutParts nul parts).filter (isName dot) = cutNames dot nul (parts.filter (isName dot)) := by
  induction parts with
  | nil => rfl
  | cons part rest ih =>
    by_cases ends : nul ∈ part
    · have named : isName dot part = true := by
        simp only [isName, decide_eq_true_eq]
        constructor
        · rintro rfl
          cases ends
        · rintro rfl
          exact other (List.mem_singleton.mp ends)
      rw [cutParts, if_pos ends, List.filter_cons_of_pos named, cutNames, if_pos ends]
    · rw [cutParts, if_neg ends]
      by_cases named : isName dot part = true
      · rw [List.filter_cons_of_pos named, List.filter_cons_of_pos named, cutNames, if_neg ends,
          ih]
      · rw [List.filter_cons_of_neg named, List.filter_cons_of_neg named, ih]

/-- The names of a C string are the names of the string up to the terminator. -/
theorem names_cstr (notSep : nul ≠ sep) (notDot : nul ≠ dot) :
    names sep dot (cstr nul s) = cutNames dot nul (names sep dot s) := by
  unfold names
  rw [splitOn_cstr notSep, cutParts_names notDot]

end

section

variable {mount : Place α}

omit [DecidableEq α] in
theorem Below.refl : Below dot mount mount := ⟨rfl, [], rfl, List.not_mem_nil⟩

theorem enter_name (other : name ≠ [dot, dot]) : enter dot absolute stack name = name :: stack :=
    if_neg other

theorem enter_cancel {top : List α}
    (other : top ≠ [dot, dot]) : enter dot absolute (top :: stack) [dot, dot] = stack := by
  unfold enter
  rw [if_pos rfl]
  exact if_neg other

/-- Two dots from a place leave it, unless it is the root. -/
theorem enter_up :
    (∃ rest, enter dot absolute stack [dot, dot] = rest ++ stack ∧ [dot, dot] ∉ rest) ↔
      absolute ∧ stack = [] := by
  unfold enter
  rw [if_pos rfl]
  cases stack with
  | nil => cases absolute <;> simp
  | cons top rest =>
    simp only [reduceCtorEq, and_false, iff_false, not_exists, not_and, not_not]
    intro more same
    split_ifs at same with up
    · have one : more = [[dot, dot]] := List.append_cancel_right same.symm
      rw [one]
      exact List.mem_singleton_self _
    · have lengths := congrArg List.length same
      simp only [List.length_append, List.length_cons] at lengths
      omega

end

end LexicalPath
