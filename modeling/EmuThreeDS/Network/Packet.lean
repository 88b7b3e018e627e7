import EmuThreeDS.Common.Buffers
import EmuThreeDS.Common.Bytes
import Mathlib.Data.List.TakeDrop

/-!
# Packets (`packet.cpp`)

The types in network order are read to a temporary, which is converted whether or not the read
succeeded. An extraction is safe where its bytes are there, or where it fails before it has
touched its variable. What was inserted is extracted again but for lengths that their prefix cuts
and for C strings without characters, which leave their buffer as it is.
-/
namespace EmuThreeDS.Network

/-- The types that `Read` is called for. -/
inductive Scalar where
  | bool | s8 | u8 | s16 | u16 | s32 | u32 | s64 | u64 | float | double
  deriving DecidableEq

namespace Scalar

def size : Scalar → Nat
  | bool | s8 | u8 => 1
  | s16 | u16 => 2
  | s32 | u32 | float => 4
  | s64 | u64 | double => 8

/-- The types that go through `ntohs`, `ntohl` and `ntohll`. -/
def swapped : Scalar → Bool
  | s16 | u16 | s32 | u32 | s64 | u64 => true
  | _ => false

def value (s : Scalar) (bytes : List UInt8) : Nat :=
  if s.swapped then leValue bytes.reverse
  else if s = bool then (if leValue bytes = 0 then 0 else 1)
  else leValue bytes

end Scalar

/-- The types of the operators `>>`. -/
inductive Kind where
  | scalar (s : Scalar)
  | chars
  | string
  | vector (T : Kind)
  | array (T : Kind) (size : Nat)

namespace Kind

/-- The values of a variable. A scalar has its bits, or none if it is indeterminate. -/
abbrev Val : Kind → Type
  | scalar _ => Option Nat
  | chars | string => List UInt8
  | vector T | array T _ => List T.Val

def fresh : (k : Kind) → k.Val
  | scalar _ => none
  | chars | string => ([] : List UInt8)
  | vector T => ([] : List T.Val)
  | array T size => List.replicate size T.fresh

/-- The value of an element that `resize` adds. -/
def zero : (k : Kind) → k.Val
  | scalar _ => some 0
  | chars | string => ([] : List UInt8)
  | vector T => ([] : List T.Val)
  | array T size => List.replicate size T.zero

end Kind

structure Packet where
  data : List UInt8
  readPos : Nat := 0
  isValid : Bool := true

namespace Packet

/-- The sum is one of `std::size_t`. -/
def checkSize (p : Packet) (size : Nat) : Packet :=
  { p with isValid := p.isValid && decide ((p.readPos + size) % 2 ^ 64 ≤ p.data.length) }

/-- `memcpy` from `&data[read_pos]`, and the new position. -/
def fetch (p : Packet) (size : Nat) : Exec (List UInt8 × Packet) :=
  if p.readPos + size ≤ p.data.length then
    .ok ((p.data.drop p.readPos).take size, { p with readPos := p.readPos + size })
  else .error .undefinedBehaviour

def read (p : Packet) (size : Nat) : Exec (Option (List UInt8) × Packet) :=
  let p := p.checkSize size
  if p.isValid then do
    let (bytes, p) ← p.fetch size
    return (some bytes, p)
  else .ok (none, p)

def ignoreBytes (p : Packet) (length : UInt32) : Packet :=
  { p with readPos := (p.readPos + length.toNat) % 2 ^ 64 }

def readScalar (p : Packet) (s : Scalar) (out : Option Nat) : Exec (Option Nat × Packet) := do
  let (bytes, p) ← p.read s.size
  match bytes with
  | some bytes => return (some (s.value bytes), p)
  -- the temporary of a swapped type is converted without a value
  | none => if s.swapped then .error .undefinedBehaviour else return (out, p)

def readLength (p : Packet) : Exec (Nat × Packet) := do
  let (length, p) ← p.readScalar .u32 (some 0)
  return (length.getD 0, p)

def readText (p : Packet) (length : Nat) (out : List UInt8) : Exec (List UInt8 × Packet) :=
  if 0 < length then
    let p := p.checkSize length
    if p.isValid then p.fetch length else .ok (out, p)
  else .ok (out, p)

def readEach {V : Type} (readElement : Packet → Exec (V × Packet)) :
    List V → Packet → Exec (List V × Packet)
  | [], p => .ok ([], p)
  | _ :: rest, p => do
    let (character, p) ← readElement p
    let (others, p) ← readEach readElement rest p
    return (character :: others, p)

/-- An element is read to a local variable, a C string through a pointer that points nowhere. -/
def readElement {V : Type} (T : Kind) (element : Packet → Exec (V × Packet)) :
    Packet → Exec (V × Packet) :=
  match T with
  | .chars => fun _ => .error .undefinedBehaviour
  | _ => element

/-- `operator>>` -/
def extract : (k : Kind) → k.Val → Packet → Exec (k.Val × Packet)
  | .scalar s, out, p => p.readScalar s out
  | .chars, out, p => do
    let (length, p) ← p.readLength
    p.readText length out
  | .string, _, p => do
    let (length, p) ← p.readLength
    p.readText length []
  | .vector T, out, p => do
    let (size, p) ← p.readLength
    readEach (readElement T (extract T T.fresh)) (Buffer.resize T.zero out size) p
  | .array T _, out, p => readEach (readElement T (extract T T.fresh)) out p

def rest (p : Packet) : List UInt8 := p.data.drop p.readPos

end Packet

/-!
## What bytes mean

The value that some bytes hold for a variable, and the bytes behind it.
-/

def takeBytes (size : Nat) (bytes : List UInt8) : Option (List UInt8 × List UInt8) :=
  if size ≤ bytes.length then some (bytes.take size, bytes.drop size) else none

def decodeScalar (s : Scalar) (bytes : List UInt8) : Option (Option Nat × List UInt8) :=
  (takeBytes s.size bytes).map fun part => (some (s.value part.1), part.2)

def decodeLength (bytes : List UInt8) : Option (Nat × List UInt8) :=
  (takeBytes 4 bytes).map fun part => (leValue part.1.reverse, part.2)

/-- A text without characters is not written. -/
def decodeText (out : List UInt8) (bytes : List UInt8) : Option (List UInt8 × List UInt8) :=
  (decodeLength bytes).bind fun part =>
    if 0 < part.1 then takeBytes part.1 part.2 else some (out, part.2)

def decodeEach {V : Type} (decodeElement : List UInt8 → Option (V × List UInt8)) :
    List V → List UInt8 → Option (List V × List UInt8)
  | [], bytes => some ([], bytes)
  | _ :: rest, bytes => (decodeElement bytes).bind fun first =>
    (decodeEach decodeElement rest first.2).bind fun others =>
      some (first.1 :: others.1, others.2)

/-- A C string that is an element has no variable to be decoded for. -/
def decodeElement {V : Type} (T : Kind) (element : List UInt8 → Option (V × List UInt8)) :
    List UInt8 → Option (V × List UInt8) :=
  match T with
  | .chars => fun _ => none
  | _ => element

def decode : (k : Kind) → k.Val → List UInt8 → Option (k.Val × List UInt8)
  | .scalar s, _, bytes => decodeScalar s bytes
  | .chars, out, bytes => decodeText out bytes
  | .string, _, bytes => decodeText [] bytes
  | .vector T, out, bytes => (decodeLength bytes).bind fun part =>
    decodeEach (decodeElement T (decode T T.fresh)) (Buffer.resize T.zero out part.1) part.2
  | .array T _, out, bytes => decodeEach (decodeElement T (decode T T.fresh)) out bytes

/-- The variable has the value of the next bytes, or its old one and nothing can be extracted any
more. -/
def Received (p : Packet) (k : Kind) (out : k.Val) (after : k.Val × Packet) : Prop :=
  after.2.data = p.data ∧
    (p.isValid = true ∧ after.2.isValid = true ∧
        decode k out p.rest = some (after.1, after.2.rest) ∨
      after.1 = out ∧ after.2.isValid = false)

/-- A type and the value of its variable under which an extraction that fails is seen to, without
a conversion and with the variable left alone. -/
def Harmless (p : Packet) : (k : Kind) → k.Val → Prop
  | .scalar s, _ => s.swapped = false ∧ (p.isValid = true → p.readPos + s.size < 2 ^ 64)
  | .chars, _ => p.isValid = true ∧
    ∃ part, decodeLength p.rest = some part ∧ p.readPos + 4 + part.1 < 2 ^ 64
  | .string, out => (p.isValid = true ∧
    ∃ part, decodeLength p.rest = some part ∧ p.readPos + 4 + part.1 < 2 ^ 64) ∧
      out = ([] : List UInt8)
  | .vector _, _ => False
  | .array T _, out => out = ([] : List T.Val)

/-- The bytes of the variable are there, or the extraction fails without harm. -/
def Clean (p : Packet) (k : Kind) (out : k.Val) : Prop :=
  p.isValid = true ∧ (decode k out p.rest).isSome ∨ Harmless p k out

inductive Extraction where
  | extract (k : Kind) (out : k.Val)
  | ignore (length : UInt32)

/-- Every extraction of a sequence returns, with what it received. -/
def Safe : List Extraction → Packet → Prop
  | [], _ => True
  | .extract k out :: later, p =>
    Returns (p.extract k out) fun after => Received p k out after ∧ Safe later after.2
  | .ignore length :: later, p => Safe later (p.ignoreBytes length)

/-- Every extraction of a sequence is clean in its turn. -/
def AllClean : List Extraction → Packet → Prop
  | [], _ => True
  | .extract k out :: later, p =>
    Clean p k out ∧ ∀ after, p.extract k out = .ok after → AllClean later after.2
  | .ignore length :: later, p => AllClean later (p.ignoreBytes length)

theorem Scalar.size_pos (s : Scalar) : 0 < s.size := by cases s <;> decide

namespace Packet

section

variable {V W : Type} {p : Packet} {size : Nat}

/-- In a valid packet, a reader returns what the bytes mean and goes behind them. -/
def Reads (x : Packet → Exec (V × Packet)) (d : List UInt8 → Option (V × List UInt8)) : Prop :=
  ∀ (p : Packet) (v : V) (tail : List UInt8), p.isValid = true → d p.rest = some (v, tail) →
    ∃ q, x p = .ok (v, q) ∧ q.data = p.data ∧ q.isValid = true ∧ q.rest = tail

theorem fetch_rest (pos : 0 < size) (enough : size ≤ p.rest.length) :
    p.fetch size = .ok (p.rest.take size, { p with readPos := p.readPos + size }) := by
  unfold rest at enough
  rw [List.length_drop] at enough
  exact if_pos (by omega)

theorem checkSize_rest (pos : 0 < size) (enough : size ≤ p.rest.length) : p.checkSize size = p := by
  unfold rest at enough
  rw [List.length_drop] at enough
  have inside : (p.readPos + size) % 2 ^ 64 ≤ p.data.length :=
    (Nat.mod_le _ _).trans (by omega)
  rw [checkSize, decide_eq_true inside, Bool.and_true]

theorem checkSize_fails (lacks : p.isValid = true → p.rest.length < size ∧
    p.readPos + size < 2 ^ 64) :
    p.checkSize size = { p with isValid := false } := by
  unfold checkSize
  cases valid : p.isValid with
  | false => rfl
  | true =>
    obtain ⟨few, small⟩ := lacks valid
    unfold rest at few
    rw [List.length_drop] at few
    rw [decide_eq_false (by omega)]
    rfl

theorem rest_advance (p : Packet) (size : Nat) :
    rest { p with readPos := p.readPos + size } = p.rest.drop size := by
  unfold rest
  rw [List.drop_drop]

theorem reads_fetch (pos : 0 < size) :
    Reads (fun p => (p.checkSize size).fetch size) (takeBytes size) := by
  intro p v tail valid found
  unfold takeBytes at found
  split_ifs at found with enough
  cases found
  refine ⟨{ p with readPos := p.readPos + size }, ?_, rfl, valid, rest_advance p size⟩
  dsimp only
  rw [checkSize_rest pos enough, fetch_rest pos enough]

variable {x : Packet → Exec (V × Packet)} {part : Nat × List UInt8}

theorem reads_bind {d : List UInt8 → Option (V × List UInt8)}
    {y : V → Packet → Exec (W × Packet)} {e : V → List UInt8 → Option (W × List UInt8)}
    (first : Reads x d) (later : ∀ v, Reads (y v) (e v)) :
    Reads (fun p => x p >>= fun part => y part.1 part.2)
      (fun bytes => (d bytes).bind fun part => e part.1 part.2) := by
  intro p w tail valid found
  obtain ⟨⟨v, middle⟩, here, found⟩ := Option.bind_eq_some_iff.mp found
  obtain ⟨q, run, data, valid, rfl⟩ := first p v middle valid here
  obtain ⟨r, run', data', last⟩ := later v q w tail valid found
  refine ⟨r, ?_, data'.trans data, last⟩
  dsimp only
  rw [run, ok_bind, run']

theorem readScalar_rest {s : Scalar} (valid : p.isValid = true) (enough : s.size ≤ p.rest.length)
    (out : Option Nat) : p.readScalar s out = .ok (some (s.value (p.rest.take s.size)),
      { p with readPos := p.readPos + s.size }) := by
  unfold readScalar read
  rw [checkSize_rest s.size_pos enough, if_pos valid, fetch_rest s.size_pos enough]
  rfl

theorem reads_scalar (s : Scalar) (out : Option Nat) :
    Reads (fun p => p.readScalar s out) (decodeScalar s) := by
  intro p v tail valid found
  unfold decodeScalar takeBytes at found
  split_ifs at found with enough
  · cases found
    exact ⟨_, readScalar_rest valid enough out, rfl, valid, rest_advance p s.size⟩
  · exact nomatch found

theorem readLength_rest (valid : p.isValid = true) (found : decodeLength p.rest = some part) :
    p.readLength = .ok (part.1, { p with readPos := p.readPos + 4 }) ∧ part.2 = p.rest.drop 4 := by
  unfold decodeLength takeBytes at found
  split_ifs at found with enough
  · cases found
    refine ⟨?_, rfl⟩
    unfold readLength
    rw [@readScalar_rest p .u32 valid enough]
    rfl
  · exact nomatch found

theorem reads_length : Reads readLength decodeLength := by
  intro p v tail valid found
  obtain ⟨run, rfl⟩ := readLength_rest valid found
  exact ⟨_, run, rfl, valid, rest_advance p 4⟩

theorem reads_pure (v : V) : Reads (fun p => .ok (v, p)) fun bytes => some (v, bytes) := by
  intro p w tail valid found
  cases found
  exact ⟨p, rfl, rfl, valid, rfl⟩

theorem reads_characters (out : List UInt8) (length : Nat) : Reads (fun p => p.readText length out)
      fun bytes => if 0 < length then takeBytes length bytes else some (out, bytes) := by
  by_cases some_text : 0 < length
  · intro p v tail valid found
    dsimp only at found
    rw [if_pos some_text] at found
    obtain ⟨q, run, after⟩ := reads_fetch some_text p v tail valid found
    unfold takeBytes at found
    split_ifs at found with enough
    refine ⟨q, ?_, after⟩
    dsimp only at run
    rw [checkSize_rest some_text enough] at run
    unfold readText
    dsimp only
    rw [if_pos some_text, checkSize_rest some_text enough, if_pos valid, run]
  · simp only [readText, if_neg some_text]
    exact reads_pure out

theorem reads_text (out : List UInt8) :
    Reads (fun p => p.readLength >>= fun part => part.2.readText part.1 out) (decodeText out) :=
  reads_bind reads_length (reads_characters out)

theorem reads_each {d : List UInt8 → Option (V × List UInt8)}
    (element : Reads x d) (items : List V) : Reads (readEach x items) (decodeEach d items) := by
  induction items with
  | nil => exact reads_pure []
  | cons item items ih =>
    exact reads_bind element fun v => reads_bind ih fun vs => reads_pure (v :: vs)

theorem reads_element {T : Kind} {d : List UInt8 → Option (V × List UInt8)}
    (element : Reads x d) : Reads (readElement T x) (decodeElement T d) := by
  cases T with
  | chars => exact fun _ _ _ _ found => nomatch found
  | scalar | string | vector | array => exact element

theorem reads_extract (k : Kind) (out : k.Val) : Reads (extract k out) (decode k out) := by
  induction k with
  | scalar s => exact reads_scalar s out
  | chars => exact reads_text out
  | string => exact reads_text []
  | vector T ih =>
    exact reads_bind reads_length fun size => reads_each (reads_element (ih T.fresh)) _
  | array T size ih => exact reads_each (reads_element (ih T.fresh)) out

end

section

variable {p : Packet} {out : List UInt8}

theorem text_fails (valid : p.isValid = true) (lacks : decodeText out p.rest = none)
    (found : decodeLength p.rest = some part) (small : p.readPos + 4 + part.1 < 2 ^ 64) :
    (p.readLength >>= fun part => part.2.readText part.1 out) =
      .ok (out, { p with readPos := p.readPos + 4, isValid := false }) := by
  obtain ⟨run, tail⟩ := readLength_rest valid found
  rw [decodeText, found, Option.bind_some] at lacks
  split_ifs at lacks with some_text
  have few : part.2.length < part.1 := by
    unfold takeBytes at lacks
    split_ifs at lacks with enough
    exact Nat.lt_of_not_le enough
  have fails : checkSize { p with readPos := p.readPos + 4 } part.1 =
      { p with readPos := p.readPos + 4, isValid := false } := by
    apply checkSize_fails
    intro _
    rw [rest_advance, ← tail]
    exact ⟨few, small⟩
  rw [run, ok_bind]
  unfold readText
  rw [if_pos some_text, fails]
  rfl

theorem extract_received {k : Kind} {out : k.Val} (clean : Clean p k out) :
    Returns (p.extract k out) (Received p k out) := by
  by_cases here : p.isValid = true ∧ (decode k out p.rest).isSome
  · obtain ⟨valid, found⟩ := here
    obtain ⟨⟨v, tail⟩, found⟩ := Option.isSome_iff_exists.mp found
    obtain ⟨q, run, data, valid', rfl⟩ := reads_extract k out p v tail valid found
    exact ⟨_, run, data, .inl ⟨valid, valid', found⟩⟩
  · have harmless := clean.resolve_left here
    have lacks : p.isValid = true → decode k out p.rest = none := fun valid =>
      Option.not_isSome_iff_eq_none.mp fun found => here ⟨valid, found⟩
    cases k with
    | scalar s =>
      obtain ⟨plain, small⟩ := harmless
      have fails : p.checkSize s.size = { p with isValid := false } := by
        apply checkSize_fails
        intro valid
        have none := lacks valid
        unfold decode decodeScalar takeBytes at none
        split_ifs at none with enough
        · exact nomatch none
        · exact ⟨Nat.lt_of_not_le enough, small valid⟩
      refine ⟨(out, { p with isValid := false }), ?_, rfl, .inr ⟨rfl, rfl⟩⟩
      rw [extract, readScalar, read]
      rw [fails, plain]
      rfl
    | chars =>
      obtain ⟨valid, part, found, small⟩ := harmless
      exact ⟨_, text_fails valid (lacks valid) found small, rfl, .inr ⟨rfl, rfl⟩⟩
    | string =>
      obtain ⟨⟨valid, part, found, small⟩, rfl⟩ := harmless
      exact ⟨_, text_fails valid (lacks valid) found small, rfl, .inr ⟨rfl, rfl⟩⟩
    | vector T => exact harmless.elim
    | array T size =>
      obtain rfl := harmless
      have invalid : p.isValid = false := by
        cases valid : p.isValid with
        | false => rfl
        | true => exact nomatch lacks valid
      exact ⟨_, rfl, rfl, .inr ⟨rfl, invalid⟩⟩

end

end Packet

/-- Where every extraction has its bytes or fails without harm, none reads outside the data or
converts what was not read, nothing is extracted after a failure, and every variable holds what
the packet has for it or its old value. -/
theorem safe_of_allClean {extractions : List Extraction} {p : Packet}
    (clean : AllClean extractions p) : Safe extractions p := by
  induction extractions generalizing p with
  | nil => exact trivial
  | cons first later ih =>
    cases first with
    | extract k out =>
      obtain ⟨here, rest⟩ := clean
      obtain ⟨after, run, received⟩ := Packet.extract_received here
      exact ⟨after, run, received, ih (rest after run)⟩
    | ignore length => exact ih (p := p.ignoreBytes length) clean

/-- A text, and then a byte that is missing. -/
theorem safe_of_allClean_text :
    Safe [.ignore 1, .extract .string [], .extract (.scalar .u8) (some 7)]
      { data := [3, 0, 0, 0, 2, 104, 105] } := by
  apply safe_of_allClean
  refine ⟨.inl ⟨rfl, rfl⟩, fun after run => ?_⟩
  obtain rfl : ([104, 105], { data := [3, 0, 0, 0, 2, 104, 105], readPos := 7 }) = after :=
    Except.ok.inj run
  exact ⟨.inr ⟨rfl, fun _ => by decide⟩, fun _ _ => trivial⟩

/-- A room information of one byte: the length of the name is converted and was never read. -/
theorem extract_converts : ¬ ∀ (data : List UInt8) (extractions : List Extraction),
    Safe extractions { data } := by
  intro all
  obtain ⟨_, run, _⟩ := all [3] [.ignore 1, .extract .string []]
  have stops : Packet.extract .string [] { data := [3], readPos := 1 } =
      .error .undefinedBehaviour := rfl
  exact nomatch stops.symm.trans run

def Scalar.bytes (s : Scalar) (bits : Nat) : List UInt8 :=
  if s.swapped then (leBytes s.size bits).reverse else leBytes s.size bits

def lengthBytes (length : Nat) : List UInt8 := Scalar.u32.bytes (length % 2 ^ 32)

/-- What `operator<<` appends. Of a text as much is written as the cast length says, of a vector
every element. -/
def encode : (k : Kind) → k.Val → List UInt8
  | .scalar s, bits => s.bytes (bits.getD 0)
  | .chars, text | .string, text =>
    let text : List UInt8 := text
    lengthBytes text.length ++ text.take (text.length % 2 ^ 32)
  | .vector T, values =>
    let values : List T.Val := values
    lengthBytes values.length ++ values.flatMap (encode T)
  | .array T _, values =>
    let values : List T.Val := values
    values.flatMap (encode T)

def Kind.Typed : (k : Kind) → k.Val → Prop
  | .scalar s, bits => ∃ n, bits = some n ∧ if s = .bool then n < 2 else n < 256 ^ s.size
  | .chars, _ | .string, _ => True
  | .vector T, values => ∀ value ∈ (values : List T.Val), T.Typed value
  | .array T size, values => (values : List T.Val).length = size ∧
    ∀ value ∈ (values : List T.Val), T.Typed value

def Kind.Sized : (k : Kind) → k.Val → Prop
  | .array T size, values => (values : List T.Val).length = size
  | _, _ => True

/-- The lengths fit their prefix, a C string whose length is cast to zero is read into its own
characters, and no element is a C string. -/
def Kept : (k : Kind) → (out : k.Val) → k.Val → Prop
  | .scalar _, _, _ => True
  | .chars, out, text =>
    if (text : List UInt8).length % 2 ^ 32 = 0 then out = text else (text : List UInt8).length < 2 ^ 32
  | .string, _, text => (text : List UInt8).length < 2 ^ 32
  | .vector T, _, values => (values : List T.Val).length < 2 ^ 32 ∧
    ∀ value ∈ (values : List T.Val), T ≠ .chars ∧ Kept T T.fresh value
  | .array T _, _, values => ∀ value ∈ (values : List T.Val), T ≠ .chars ∧ Kept T T.fresh value

section

variable {tail : List UInt8}

theorem length_scalarBytes (s : Scalar) (bits : Nat) : (s.bytes bits).length = s.size := by
  unfold Scalar.bytes
  split_ifs <;> simp

theorem value_bytes {s : Scalar} {n : Nat}
    (typed : if s = .bool then n < 2 else n < 256 ^ s.size) : s.value (s.bytes n) = n := by
  have small : n < 256 ^ s.size := by
    split_ifs at typed with bool
    · subst bool
      exact typed.trans (by decide)
    · exact typed
  unfold Scalar.value Scalar.bytes
  split_ifs with swapped bool zero
  · rw [List.reverse_reverse, leValue_leBytes, Nat.mod_eq_of_lt small]
  · rw [leValue_leBytes, Nat.mod_eq_of_lt small] at zero
    exact zero.symm
  · rw [leValue_leBytes, Nat.mod_eq_of_lt small] at zero
    rw [if_pos bool] at typed
    omega
  · rw [leValue_leBytes, Nat.mod_eq_of_lt small]

theorem takeBytes_append {bytes : List UInt8} {size : Nat} (length : bytes.length = size) :
    takeBytes size (bytes ++ tail) = some (bytes, tail) := by
  subst length
  unfold takeBytes
  rw [if_pos (by simp), List.take_left, List.drop_left]

theorem decodeScalar_bytes {s : Scalar} {n : Nat}
    (typed : if s = .bool then n < 2 else n < 256 ^ s.size) :
    decodeScalar s (s.bytes n ++ tail) = some (some n, tail) := by
  rw [decodeScalar, takeBytes_append (length_scalarBytes s n), Option.map_some, value_bytes typed]

theorem decodeLength_bytes (length : Nat) :
    decodeLength (lengthBytes length ++ tail) = some (length % 2 ^ 32, tail) := by
  have less : length % 2 ^ 32 < 256 ^ 4 := Nat.mod_lt _ (by decide)
  have value : leValue (lengthBytes length).reverse = length % 2 ^ 32 := @value_bytes .u32 _ less
  have size : (lengthBytes length).length = 4 := length_scalarBytes .u32 _
  rw [decodeLength, takeBytes_append size, Option.map_some, value]

theorem decodeText_bytes {out text tail' : List UInt8} :
    decodeText out (lengthBytes text.length ++ text.take (text.length % 2 ^ 32) ++ tail) =
        some (text, tail') ↔
      (if text.length % 2 ^ 32 = 0 then out = text else text.length < 2 ^ 32) ∧ tail' = tail := by
  rw [decodeText, List.append_assoc, decodeLength_bytes, Option.bind_some]
  by_cases none : text.length % 2 ^ 32 = 0
  · rw [none, if_neg (Nat.lt_irrefl 0), if_pos rfl, List.take_zero, List.nil_append,
      Option.some_inj, Prod.mk.injEq, eq_comm (a := tail)]
  · have whole : text.take (text.length % 2 ^ 32) = text ↔ text.length < 2 ^ 32 := by
      rw [List.take_eq_self_iff]
      omega
    rw [if_pos (Nat.pos_of_ne_zero none), if_neg none, takeBytes_append
      (by rw [List.length_take, Nat.min_eq_left (Nat.mod_le ..)]), Option.some_inj, Prod.mk.injEq,
      whole, eq_comm (a := tail)]

theorem decodeElement_eq_some {V : Type} {T : Kind} {d : List UInt8 → Option (V × List UInt8)}
    {bytes : List UInt8} {part : V × List UInt8} :
    decodeElement T d bytes = some part ↔ T ≠ .chars ∧ d bytes = some part := by
  cases T <;> simp [decodeElement]

/-- Elements that are each read back just if they are kept. -/
theorem decodeEach_flatMap {V : Type} {d : List UInt8 → Option (V × List UInt8)}
    {code : V → List UInt8} {K : V → Prop} {items values : List V} {tail' : List UInt8}
    (each : ∀ v ∈ values, ∀ tail tail', d (code v ++ tail) = some (v, tail') ↔ K v ∧ tail' = tail) :
    decodeEach d items (values.flatMap code ++ tail) = some (values, tail') ↔
      items.length = values.length ∧ (∀ v ∈ values, K v) ∧ tail' = tail := by
  induction items generalizing values with
  | nil =>
    cases values with
    | nil => simp [decodeEach, eq_comm]
    | cons v rest => simp [decodeEach]
  | cons item items ih =>
    rw [decodeEach]
    simp only [Option.bind_eq_some_iff, Option.some_inj, Prod.mk.injEq]
    cases values with
    | nil =>
      refine iff_of_false ?_ nofun
      rintro ⟨_, _, _, _, same, _⟩
      cases same
    | cons v rest =>
      have later := @ih rest fun w mem => each w (List.mem_cons_of_mem v mem)
      have here := each v List.mem_cons_self
      rw [List.flatMap_cons, List.append_assoc, List.length_cons, List.length_cons,
        Nat.add_right_cancel_iff, List.forall_mem_cons]
      constructor
      · rintro ⟨⟨first, middle⟩, found, ⟨others, last⟩, found', same, rfl⟩
        obtain ⟨rfl, rfl⟩ := List.cons.inj same
        obtain ⟨kept, rfl⟩ := (here _ _).mp found
        obtain ⟨length, all, ends⟩ := later.mp found'
        exact ⟨length, ⟨kept, all⟩, ends⟩
      · rintro ⟨length, ⟨kept, all⟩, ends⟩
        exact ⟨(v, _), (here _ _).mpr ⟨kept, rfl⟩, (rest, tail'), later.mpr ⟨length, all, ends⟩,
          rfl, rfl⟩

/-- A value is read back just if it is kept, and then its bytes are all that is read. -/
theorem decode_encode {k : Kind} {out value : k.Val} {tail' : List UInt8} (sized : k.Sized out)
    (typed : k.Typed value) : decode k out (encode k value ++ tail) = some (value, tail') ↔
      Kept k out value ∧ tail' = tail := by
  have fresh (T : Kind) : T.Sized T.fresh := by
    cases T with
    | array T size => exact List.length_replicate ..
    | _ => trivial
  induction k generalizing tail tail' with
  | scalar s =>
    obtain ⟨n, rfl, small⟩ := typed
    have read : decodeScalar s (s.bytes n ++ tail) = some (some n, tail) :=
      decodeScalar_bytes small
    change decodeScalar s (s.bytes n ++ tail) = some (some n, tail') ↔ True ∧ tail' = tail
    rw [read, Option.some_inj, Prod.mk.injEq, true_and, eq_self, true_and, eq_comm]
  | chars => exact decodeText_bytes
  | string =>
    refine decodeText_bytes.trans (and_congr_left' ?_)
    change _ ↔ (value : List UInt8).length < 2 ^ 32
    split_ifs with none
    · rw [eq_comm, ← List.length_eq_zero_iff]
      omega
    · rfl
  | vector T ih =>
    have elements := @decodeEach_flatMap tail _ (decodeElement T (decode T T.fresh)) (encode T)
      (fun v => T ≠ .chars ∧ Kept T T.fresh v)
      (Buffer.resize T.zero out ((value : List T.Val).length % 2 ^ 32)) value tail'
      fun v mem _ _ => by
        rw [decodeElement_eq_some, and_assoc]
        exact and_congr_right' (ih (fresh T) (typed v mem))
    rw [Buffer.length_resize] at elements
    change (decodeLength (lengthBytes (value : List T.Val).length ++
      (value : List T.Val).flatMap (encode T) ++ tail)).bind _ = _ ↔ _
    rw [List.append_assoc, decodeLength_bytes, Option.bind_some, elements, ← and_assoc]
    refine and_congr_left' (and_congr_left' ?_)
    omega
  | array T size ih =>
    have elements := @decodeEach_flatMap tail _ (decodeElement T (decode T T.fresh)) (encode T)
      (fun v => T ≠ .chars ∧ Kept T T.fresh v) out value tail'
      fun v mem _ _ => by
        rw [decodeElement_eq_some, and_assoc]
        exact and_congr_right' (ih (fresh T) (typed.2 v mem))
    exact elements.trans (and_iff_right (sized.trans typed.1.symm))

end

/-- A value that is written, and the variable that it is read back to. -/
structure Item where
  kind : Kind
  value : kind.Val
  out : kind.Val

namespace Packet

/-- `operator<<` -/
def insert (p : Packet) (k : Kind) (value : k.Val) : Packet :=
  { p with data := p.data ++ encode k value }

def insertAll (p : Packet) (items : List Item) : Packet :=
  items.foldl (fun p item => p.insert item.kind item.value) p

def endOfPacket (p : Packet) : Prop := p.data.length ≤ p.readPos

end Packet

/-- What is read are the values, each leaves the bytes of the later ones, and the last one leaves a
valid packet at its end. -/
def ReadsBack : List Item → Packet → Prop
  | [], p => p.isValid = true ∧ p.endOfPacket
  | item :: later, p => Returns (p.extract item.kind item.out) fun after =>
    after.1 = item.value ∧ after.2.isValid = true ∧
      after.2.rest = later.flatMap (fun item => encode item.kind item.value) ∧
      ReadsBack later after.2

section

namespace Packet

variable {V W : Type} {p : Packet}

/-- A reader that leaves a valid packet has read what the bytes mean. -/
def Meant (x : Packet → Exec (V × Packet)) (d : List UInt8 → Option (V × List UInt8)) : Prop :=
  ∀ p v q, x p = .ok (v, q) → q.isValid = true → p.isValid = true ∧ d p.rest = some (v, q.rest)

theorem meant_pure (v : V) : Meant (fun p => .ok (v, p)) fun bytes => some (v, bytes) := by
  intro p w q run valid
  cases run
  exact ⟨valid, rfl⟩

theorem meant_bind {d : List UInt8 → Option (V × List UInt8)}
    {y : V → Packet → Exec (W × Packet)} {e : V → List UInt8 → Option (W × List UInt8)}
    (first : Meant x d) (later : ∀ v, Meant (y v) (e v)) :
    Meant (fun p => x p >>= fun part => y part.1 part.2)
      (fun bytes => (d bytes).bind fun part => e part.1 part.2) := by
  intro p w q run valid
  obtain ⟨⟨v, middle⟩, here, run⟩ := bind_eq_ok.mp run
  obtain ⟨valid, found'⟩ := later v middle w q run valid
  obtain ⟨valid, found⟩ := first p v middle here valid
  dsimp only
  rw [found, Option.bind_some, found']
  exact ⟨valid, rfl⟩

theorem meant_fetch (size : Nat) :
    Meant (fun p => (p.checkSize size).fetch size) (takeBytes size) := by
  intro p bytes q run valid
  dsimp only [fetch] at run
  split_ifs at run with inside
  cases run
  have enough : size ≤ p.rest.length := by
    have inside : p.readPos + size ≤ p.data.length := inside
    rw [rest, List.length_drop]
    omega
  refine ⟨(Bool.and_eq_true_iff.mp valid).1, ?_⟩
  rw [takeBytes, if_pos enough]
  exact congrArg (fun tail => some (_, tail)) (rest_advance p size).symm

theorem meant_scalar (s : Scalar) (out : Option Nat) :
    Meant (fun p => p.readScalar s out) (decodeScalar s) := by
  intro p v q run valid
  unfold readScalar read at run
  dsimp only at run
  by_cases checked : (p.checkSize s.size).isValid = true
  · rw [if_pos checked, bind_assoc] at run
    obtain ⟨⟨bytes, r⟩, fetched, run⟩ := bind_eq_ok.mp run
    cases run
    obtain ⟨valid, found⟩ := meant_fetch s.size p bytes r fetched valid
    rw [decodeScalar, found]
    exact ⟨valid, rfl⟩
  · rw [if_neg checked, ok_bind] at run
    split_ifs at run
    cases run
    exact absurd valid checked

theorem meant_length : Meant readLength decodeLength := by
  intro p v q run valid
  obtain ⟨⟨length, _⟩, read, run⟩ := bind_eq_ok.mp run
  cases run
  obtain ⟨valid, found⟩ := meant_scalar .u32 (some 0) p length q read valid
  obtain ⟨part, here, same⟩ := Option.map_eq_some_iff.mp found
  obtain ⟨rfl, ends⟩ := Prod.mk.inj same
  exact ⟨valid, Option.map_eq_some_iff.mpr ⟨part, here, Prod.ext rfl ends⟩⟩

theorem meant_characters (out : List UInt8) (length : Nat) : Meant (fun p => p.readText length out)
      fun bytes => if 0 < length then takeBytes length bytes else some (out, bytes) := by
  unfold readText
  by_cases some_text : 0 < length
  · simp only [if_pos some_text]
    intro p v q run valid
    dsimp only at run
    split_ifs at run with checked
    · exact meant_fetch length p v q run valid
    · cases run
      exact absurd valid checked
  · simp only [if_neg some_text]
    exact meant_pure out

theorem meant_each {d : List UInt8 → Option (V × List UInt8)}
    (element : Meant x d) (items : List V) : Meant (readEach x items) (decodeEach d items) := by
  induction items with
  | nil => exact meant_pure []
  | cons item items ih =>
    exact meant_bind element fun v => meant_bind ih fun vs => meant_pure (v :: vs)

theorem meant_element {T : Kind} {d : List UInt8 → Option (V × List UInt8)}
    (element : Meant x d) : Meant (readElement T x) (decodeElement T d) := by
  cases T with
  | chars => exact fun _ _ _ run => nomatch run
  | scalar | string | vector | array => exact element

theorem meant_extract (k : Kind) (out : k.Val) : Meant (extract k out) (decode k out) := by
  induction k with
  | scalar s => exact meant_scalar s out
  | chars => exact meant_bind meant_length (meant_characters out)
  | string => exact meant_bind meant_length (meant_characters [])
  | vector T ih =>
    exact meant_bind meant_length fun size => meant_each (meant_element (ih T.fresh)) _
  | array T size ih => exact meant_each (meant_element (ih T.fresh)) out

end Packet

end

theorem Packet.insertAll_eq (p : Packet) (items : List Item) : p.insertAll items =
    { p with data := p.data ++ items.flatMap fun item => encode item.kind item.value } := by
  induction items generalizing p with
  | nil => simp [insertAll]
  | cons item later ih =>
    have rest := ih (p.insert item.kind item.value)
    unfold insertAll at rest ⊢
    rw [List.foldl_cons, rest, List.flatMap_cons, ← List.append_assoc]
    rfl

theorem readsBack_iff {items : List Item}
    (typed : ∀ item ∈ items, item.kind.Typed item.value ∧ item.kind.Sized item.out) {p : Packet}
    (valid : p.isValid = true)
    (left : p.rest = items.flatMap fun item => encode item.kind item.value) :
    ReadsBack items p ↔ ∀ item ∈ items, Kept item.kind item.out item.value := by
  induction items generalizing p with
  | nil =>
    refine iff_of_true ⟨valid, ?_⟩ nofun
    exact List.drop_eq_nil_iff.mp left
  | cons item later ih =>
    obtain ⟨here, rest⟩ := List.forall_mem_cons.mp typed
    have codes (tail' : List UInt8) := @decode_encode (later.flatMap fun item =>
      encode item.kind item.value) item.kind item.out item.value tail' here.2 here.1
    rw [List.flatMap_cons] at left
    rw [List.forall_mem_cons]
    constructor
    · rintro ⟨⟨value, q⟩, run, same, valid', tail, last⟩
      obtain ⟨_, found⟩ := Packet.meant_extract item.kind item.out p value q run valid'
      dsimp only at same tail last
      rw [left, same] at found
      exact ⟨((codes q.rest).mp found).1, (ih rest valid' tail).mp last⟩
    · rintro ⟨kept, others⟩
      have found := (codes _).mpr ⟨kept, rfl⟩
      rw [← left] at found
      obtain ⟨q, run, _, valid', tail⟩ := Packet.reads_extract item.kind item.out p _ _ valid found
      exact ⟨_, run, rfl, valid', tail, (ih rest valid' tail).mpr others⟩

/-- Values that are written to an empty packet are read back in their order just if each is kept. -/
theorem codec_lossless_iff (items : List Item)
    (typed : ∀ item ∈ items, item.kind.Typed item.value ∧ item.kind.Sized item.out) :
    ReadsBack items (Packet.insertAll { data := [] } items) ↔
      ∀ item ∈ items, Kept item.kind item.out item.value := by
  apply readsBack_iff typed
  · rw [Packet.insertAll_eq]
  · rw [Packet.insertAll_eq]
    rfl

def threeItems : List Item :=
  [⟨.scalar .u16, some 7, none⟩, ⟨.vector .string, ([[104], []] : List (List UInt8)),
      ([] : List (List UInt8))⟩,
    ⟨.chars, ([105] : List UInt8), ([120, 121] : List UInt8)⟩]

theorem codec_lossless_iff_three :
    ReadsBack threeItems (Packet.insertAll { data := [] } threeItems) := by
  refine (codec_lossless_iff threeItems ?_).mpr ?_ <;>
    simp only [threeItems, List.forall_mem_cons]
  · exact ⟨⟨⟨7, rfl, by decide⟩, trivial⟩, ⟨fun _ _ => trivial, trivial⟩,
      ⟨trivial, trivial⟩, nofun⟩
  · have short : ∀ text ∈ ([[104], []] : List (List UInt8)), text.length < 2 ^ 32 := by decide
    exact ⟨trivial, ⟨by decide, fun text mem => ⟨nofun, short text mem⟩⟩, (by decide : 1 < 2 ^ 32),
      nofun⟩

/-- An empty C string leaves the characters that were in its buffer. -/
theorem empty_chars_left :
    ¬ ReadsBack [⟨.chars, ([] : List UInt8), ([120] : List UInt8)⟩]
      (Packet.insertAll { data := [] } [⟨.chars, ([] : List UInt8), ([120] : List UInt8)⟩]) := by
  rintro ⟨after, run, same, _⟩
  have left : Packet.extract .chars ([120] : List UInt8) { data := [0, 0, 0, 0] } =
      .ok (([120] : List UInt8), { data := [0, 0, 0, 0], readPos := 4 }) := rfl
  cases left.symm.trans run
  cases same

end EmuThreeDS.Network
