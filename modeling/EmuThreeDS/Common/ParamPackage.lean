import EmuThreeDS.Common.StringUtil
import EmuThreeDS.Lib.OrderedMap
import Mathlib.Data.List.Lex
import Mathlib.Data.Char

/-!
# Parameter packages (`param_package.cpp`)

What is read back from a written package is the package without its empty values: `SplitString`
sees no value behind the last separator of a pair.
-/
namespace EmuThreeDS.Common

open OrderedMap

abbrev DataType := Map (List Char) (List Char)

namespace ParamPackage

def keyValueSeparator : Char := ':'
def paramSeparator : Char := ','
def escapeCharacter : Char := '$'
def keyValueSeparatorEscape : List Char := ['$', '0']
def paramSeparatorEscape : List Char := ['$', '1']
def escapeCharacterEscape : List Char := ['$', '2']
def emptyPlaceholder : List Char := ['[', 'e', 'm', 'p', 't', 'y', ']']

def set (data : DataType) (key value : List Char) : DataType := (data.erase key).insert key value

def unescape (part : List Char) : List Char :=
  let part := replaceAll part keyValueSeparatorEscape [keyValueSeparator]
  let part := replaceAll part paramSeparatorEscape [paramSeparator]
  replaceAll part escapeCharacterEscape [escapeCharacter]

def escape (part : List Char) : List Char :=
  let part := replaceAll part [escapeCharacter] escapeCharacterEscape
  let part := replaceAll part [paramSeparator] paramSeparatorEscape
  replaceAll part [keyValueSeparator] keyValueSeparatorEscape

def readPair (data : DataType) (pair : List Char) : DataType :=
  match splitString keyValueSeparator pair with
  | [key, value] => set data (unescape key) (unescape value)
  | _ => data

def deserialize (serialized : List Char) : DataType :=
  if serialized = emptyPlaceholder then Map.empty
  else (splitString paramSeparator serialized).foldl readPair Map.empty

def writePair (pair : List Char × List Char) : List Char :=
  escape pair.1 ++ keyValueSeparator :: escape pair.2

def serialize (data : DataType) : List Char :=
  if data.entries = [] then emptyPlaceholder
  else (data.entries.flatMap fun pair => writePair pair ++ [paramSeparator]).dropLast

/-- The characters as they stand in a string, with the escapes in it that are still there. -/
def token (colon comma dollar : Bool) (c : Char) : List Char :=
  if c = ':' ∧ colon then ['$', '0']
  else if c = ',' ∧ comma then ['$', '1']
  else if c = '$' ∧ dollar then ['$', '2']
  else [c]

variable {part : List Char} {c : Char}

theorem token_none : token false false false = fun c => [c] := by
  funext c
  simp [token]

theorem escape_eq : escape part = part.flatMap (token true true true) := by
  unfold escape
  rw [replaceAll_char (by decide), replaceAll_char (by decide), replaceAll_char (by decide),
    List.flatMap_assoc, List.flatMap_assoc]
  congr 1
  funext c
  simp only [escapeCharacter, paramSeparator, keyValueSeparator, escapeCharacterEscape,
    paramSeparatorEscape, keyValueSeparatorEscape, token]
  by_cases dollar : c = '$'
  · subst dollar
    decide
  · by_cases comma : c = ','
    · subst comma
      decide
    · by_cases colon : c = ':'
      · subst colon
        decide
      · simp [dollar, comma, colon]

theorem rewrites_token (k : Char) (dest : List Char) (before after : Char → List Char)
    (special : ∀ c ∈ [':', ',', '$'], Rewrites '$' k dest (before c) (after c))
    (plain : ∀ c ∉ [':', ',', '$'], before c = [c] ∧ after c = [c]) (c : Char) :
    Rewrites '$' k dest (before c) (after c) := by
  by_cases mem : c ∈ [':', ',', '$']
  · exact special c mem
  · obtain ⟨old, new⟩ := plain c mem
    refine .inr ⟨old.trans new.symm, .inl ⟨c, ?_, new⟩⟩
    rintro rfl
    simp at mem

theorem token_plain {colon comma dollar : Bool} (mem : c ∉ [':', ',', '$']) :
    token colon comma dollar c = [c] := by
  simp only [List.mem_cons, List.not_mem_nil, or_false, not_or] at mem
  simp [token, mem]

theorem unescape_escape : unescape (escape part) = part := by
  have first : ∀ c, Rewrites '$' '0' [':'] (token true true true c) (token false true true c) := by
    refine rewrites_token _ _ _ _ ?_ fun c mem => ⟨token_plain mem, token_plain mem⟩
    simp only [List.forall_mem_cons]
    refine ⟨.inl (by decide), .inr ⟨by decide, .inr ⟨'1', by decide⟩⟩,
      .inr ⟨by decide, .inr ⟨'2', by decide⟩⟩, nofun⟩
  have second : ∀ c, Rewrites '$' '1' [','] (token false true true c) (token false false true c) := by
    refine rewrites_token _ _ _ _ ?_ fun c mem => ⟨token_plain mem, token_plain mem⟩
    simp only [List.forall_mem_cons]
    refine ⟨.inr ⟨by decide, .inl ⟨':', by decide⟩⟩, .inl (by decide),
      .inr ⟨by decide, .inr ⟨'2', by decide⟩⟩, nofun⟩
  have third : ∀ c, Rewrites '$' '2' ['$'] (token false false true c)
      (token false false false c) := by
    refine rewrites_token _ _ _ _ ?_ fun c mem => ⟨token_plain mem, token_plain mem⟩
    simp only [List.forall_mem_cons]
    refine ⟨.inr ⟨by decide, .inl ⟨':', by decide⟩⟩, .inr ⟨by decide, .inl ⟨',', by decide⟩⟩,
      .inl (by decide), nofun⟩
  rw [escape_eq]
  unfold unescape keyValueSeparatorEscape paramSeparatorEscape escapeCharacterEscape
  dsimp only [keyValueSeparator, paramSeparator, escapeCharacter]
  rw [replaceAll_tokens (by decide) first, replaceAll_tokens (by decide) second,
    replaceAll_tokens (by decide) third]
  rw [token_none, List.flatMap_singleton']

theorem free_escape {separator : Char} (either : separator = keyValueSeparator ∨
    separator = paramSeparator) : separator ∉ escape part := by
  rw [escape_eq, List.mem_flatMap]
  rintro ⟨c, _, mem⟩
  by_cases special : c ∈ [':', ',', '$']
  · simp only [List.mem_cons, List.not_mem_nil, or_false] at special
    revert mem
    rcases special with rfl | rfl | rfl <;> rcases either with rfl | rfl <;> decide
  · rw [token_plain special, List.mem_singleton] at mem
    subst mem
    rcases either with rfl | rfl <;> simp [keyValueSeparator, paramSeparator] at special

theorem escape_eq_nil : escape part = [] ↔ part = [] := by
  constructor
  · intro none
    rw [← @unescape_escape part, none]
    rfl
  · rintro rfl
    rfl

section

variable {data : DataType} {entries : List (List Char × List Char)} {pair : List Char × List Char}

theorem readPair_writePair : readPair data (writePair pair) =
    if pair.2 = [] then data else set data pair.1 pair.2 := by
  unfold readPair writePair
  rw [splitString_delim (free_escape (.inl rfl)), splitString_free (free_escape (.inl rfl))]
  split_ifs with unseen none none
  · rfl
  · exact absurd (escape_eq_nil.mp unseen) none
  · exact absurd (escape_eq_nil.mpr none) unseen
  · show set data (unescape (escape pair.1)) (unescape (escape pair.2)) = _
    rw [unescape_escape, unescape_escape]

theorem set_last (last : ∀ x ∈ data.entries, x.1 < pair.1) :
    (set data pair.1 pair.2).entries = data.entries ++ [pair] := by
  have absent : (data.erase pair.1).entries = data.entries :=
    List.filter_eq_self.mpr fun x mem => by simpa using ne_of_lt (last x mem)
  unfold set
  rw [Map.insert_last (by rwa [absent]), absent]

theorem readPairs (sorted : (data.entries ++ entries).Pairwise fun x y => x.1 < y.1) :
    ((entries.map writePair).foldl readPair data).entries =
      data.entries ++ entries.filter (·.2 ≠ []) := by
  induction entries generalizing data with
  | nil => simp
  | cons pair entries ih =>
    obtain ⟨before, behind, across⟩ := List.pairwise_append.mp sorted
    have last : ∀ x ∈ data.entries, x.1 < pair.1 := fun x mem =>
      across x mem pair List.mem_cons_self
    rw [List.map_cons, List.foldl_cons, readPair_writePair]
    split_ifs with none
    · rw [ih ?_, List.filter_cons_of_neg (by simpa using none)]
      exact List.pairwise_append.mpr ⟨before, behind.of_cons, fun x mem y later =>
        across x mem y (List.mem_cons_of_mem pair later)⟩
    · rw [ih ?_, set_last last, List.filter_cons_of_pos (by simpa using none),
        List.append_assoc, List.singleton_append]
      rwa [set_last last, List.append_assoc]

theorem entries_deserialize :
    (deserialize (serialize data)).entries = data.entries.filter (·.2 ≠ []) := by
  unfold serialize
  split_ifs with none
  · rw [none]
    rfl
  · have written : (data.entries.flatMap fun pair => writePair pair ++ [paramSeparator]) =
        (data.entries.map writePair).flatMap (· ++ [paramSeparator]) := by
      rw [List.flatMap_map]
    have pieces : splitString paramSeparator
        ((data.entries.map writePair).flatMap (· ++ [paramSeparator])).dropLast =
          data.entries.map writePair := by
      apply splitString_joined
      · intro line mem
        obtain ⟨pair, _, rfl⟩ := List.mem_map.mp mem
        simp [writePair, keyValueSeparator, paramSeparator, free_escape]
      · intro line mem
        obtain ⟨pair, _, rfl⟩ := List.mem_map.mp mem
        simp [writePair]
    have sorted : ((Map.empty : DataType).entries ++ data.entries).Pairwise
        fun x y => x.1 < y.1 := data.sorted
    rw [written, deserialize, if_neg ?_, pieces, readPairs sorted]
    · rfl
    · -- the placeholder would be one pair without a separator
      intro placeholder
      rw [placeholder] at pieces
      obtain ⟨pair, mem, same⟩ := List.mem_map.mp
        (show emptyPlaceholder ∈ data.entries.map writePair from
          pieces ▸ (by decide : emptyPlaceholder ∈ splitString paramSeparator emptyPlaceholder))
      have separator : keyValueSeparator ∈ emptyPlaceholder := by
        rw [← same]
        simp [writePair]
      exact absurd separator (by decide)

end

/-- A package is read back as it was written just if none of its values is empty. -/
theorem deserialize_serialize_iff (data : DataType) :
    deserialize (serialize data) = data ↔ ∀ pair ∈ data.entries, pair.2 ≠ [] := by
  have same : deserialize (serialize data) = data ↔
      data.entries.filter (·.2 ≠ []) = data.entries := by
    rw [← entries_deserialize]
    exact ⟨congrArg Map.entries, fun entries => by cases h : deserialize _; simp_all⟩
  rw [same]
  simp

/-- A key without a value. -/
theorem deserialize_forgets : ∃ data : DataType, deserialize (serialize data) ≠ data :=
  ⟨⟨[(['k'], [])], List.pairwise_singleton _ _⟩, fun same =>
    absurd (congrArg Map.entries same) (by decide)⟩

end ParamPackage

end EmuThreeDS.Common
