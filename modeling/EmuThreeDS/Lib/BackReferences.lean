import Mathlib.Data.List.Basic

/-!
# Back references

Data that is produced from its end to its front, or from its front on, out of new elements and of
references to what is there already. A reference may run into the elements that it produces itself.
-/
namespace BackReferences

variable {α : Type}

inductive Token (α : Type) where
  | literal (a : α)
  | reference (length distance : Nat)

/-- Each new element is the one that stands `distance` places behind it. -/
def copyBehind (distance : Nat) : Nat → List α → Option (List α)
  | 0, output => some output
  | length + 1, output =>
    output[distance - 1]?.bind fun a => copyBehind distance length (a :: output)

def Token.apply (output : List α) : Token α → Option (List α)
  | .literal a => some (a :: output)
  | .reference length distance => copyBehind distance length output

/-- What the tokens add in front of an output, if no reference leaves it. -/
def expandFrom (output : List α) : List (Token α) → Option (List α)
  | [] => some output
  | t :: tokens => (t.apply output).bind fun output => expandFrom output tokens

def expand (tokens : List (Token α)) : Option (List α) := expandFrom [] tokens

def Token.length : Token α → Nat
  | .literal _ => 1
  | .reference length _ => length

variable {distance length : Nat} {output output' : List α} {t : Token α} {tokens later : List (Token α)}

theorem length_copyBehind (copied : copyBehind distance length output = some output') :
    output'.length = output.length + length := by
  induction length generalizing output with
  | zero =>
    obtain rfl := Option.some.inj copied
    rfl
  | succ length ih =>
    obtain ⟨a, _, copied⟩ := Option.bind_eq_some_iff.mp copied
    rw [ih copied, List.length_cons]
    omega

theorem length_apply (applied : t.apply output = some output') :
    output'.length = output.length + t.length := by
  cases t with
  | literal a =>
    obtain rfl := Option.some.inj applied
    rfl
  | reference length distance => exact length_copyBehind applied

theorem expandFrom_cons : expandFrom output (t :: tokens) = some output' ↔
    ∃ middle, t.apply output = some middle ∧ expandFrom middle tokens = some output' :=
  Option.bind_eq_some_iff

theorem expandFrom_append : expandFrom output (tokens ++ later) =
    (expandFrom output tokens).bind fun middle => expandFrom middle later := by
  induction tokens generalizing output with
  | nil => rfl
  | cons t tokens ih =>
    rw [List.cons_append, expandFrom, expandFrom, Option.bind_assoc]
    congr 1
    funext middle
    exact ih

/-- The output only grows. -/
theorem length_expandFrom (expanded : expandFrom output tokens = some output') :
    output.length ≤ output'.length := by
  induction tokens generalizing output with
  | nil =>
    obtain rfl := Option.some.inj expanded
    exact Nat.le_refl _
  | cons t tokens ih =>
    obtain ⟨middle, applied, expanded⟩ := expandFrom_cons.mp expanded
    have grown := length_apply applied
    have rest := ih expanded
    omega

/-- Elements from the place `start` on are appended, those that this appends among them. -/
def repeatFrom : Nat → Nat → List α → Option (List α)
  | _, 0, output => some output
  | start, length + 1, output =>
    output[start]?.bind fun a => repeatFrom (start + 1) length (output ++ [a])

theorem length_repeatFrom {start : Nat} (repeated : repeatFrom start length output = some output') :
    output'.length = output.length + length := by
  induction length generalizing start output with
  | zero =>
    obtain rfl := Option.some.inj repeated
    rfl
  | succ length ih =>
    obtain ⟨a, _, repeated⟩ := Option.bind_eq_some_iff.mp repeated
    rw [ih repeated, List.length_append, List.length_singleton]
    omega

/-- Something is repeated only if it starts in the output. -/
theorem start_lt_of_repeatFrom {start : Nat} (positive : 0 < length)
    (repeated : repeatFrom start length output = some output') : start < output.length := by
  obtain ⟨length, rfl⟩ : ∃ n, length = n + 1 := ⟨length - 1, by omega⟩
  obtain ⟨a, found, _⟩ := Option.bind_eq_some_iff.mp repeated
  exact (List.getElem?_eq_some_iff.mp found).1

end BackReferences
