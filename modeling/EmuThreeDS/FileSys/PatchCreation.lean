import EmuThreeDS.FileSys.PatchBounds
import EmuThreeDS.Lib.BackReferences
import Mathlib.Data.Nat.ModEq

/-!
# Created patches

What BPS patches mean, how they are written, and that applying one to its source leaves its
target, in a buffer that is never made smaller.
-/
namespace EmuThreeDS.FileSys.Patch.Bps

open BackReferences

inductive Command where
  | sourceRead (length : Nat)
  | targetRead (bytes : List UInt8)
  | sourceCopy (length : Nat) (step : Int)
  | targetCopy (length : Nat) (step : Int)

structure Progress where
  output : List UInt8
  sourceCursor : Nat
  targetCursor : Nat
  deriving DecidableEq

def part (source : List UInt8) (start length : Nat) : List UInt8 := (source.drop start).take length

def Command.perform (source : List UInt8) (p : Progress) : Command → Option Progress
  | .sourceRead length =>
    if 0 < length ∧ p.output.length + length ≤ source.length then
      some { p with output := p.output ++ part source p.output.length length }
    else none
  | .targetRead bytes =>
    if 0 < bytes.length then some { p with output := p.output ++ bytes } else none
  | .sourceCopy length step =>
    let start := (p.sourceCursor + step).toNat
    if 0 < length ∧ 0 ≤ p.sourceCursor + step ∧ start + length ≤ source.length then
      some { p with
        output := p.output ++ part source start length
        sourceCursor := start + length }
    else none
  | .targetCopy length step =>
    let start := (p.targetCursor + step).toNat
    if 0 < length ∧ 0 ≤ p.targetCursor + step then
      (repeatFrom start length p.output).map fun output =>
        { p with output, targetCursor := start + length }
    else none

def perform (source : List UInt8) (p : Progress) : List Command → Option Progress
  | [] => some p
  | c :: commands => (c.perform source p).bind fun p => perform source p commands

def numberDigits : Nat → Nat → List UInt8
  | 0, _ => []
  | fuel + 1, n =>
    if n < 0x80 then [(n + 0x80).toUInt8]
    else (n % 0x80).toUInt8 :: numberDigits fuel (n / 0x80 - 1)

def encodeNumber (n : Nat) : List UInt8 := numberDigits (n + 1) n

def stepNumber (step : Int) : Nat := 2 * step.natAbs + if step < 0 then 1 else 0

namespace Command

def length : Command → Nat
  | sourceRead length => length
  | targetRead bytes => bytes.length
  | sourceCopy length _ => length
  | targetCopy length _ => length

def kind : Command → Nat
  | sourceRead _ => 0
  | targetRead _ => 1
  | sourceCopy _ _ => 2
  | targetCopy _ _ => 3

def number (c : Command) : Nat := (c.length - 1) * 4 + c.kind

def operand : Command → List UInt8
  | sourceRead _ => []
  | targetRead bytes => bytes
  | sourceCopy _ step => encodeNumber (stepNumber step)
  | targetCopy _ step => encodeNumber (stepNumber step)

def encode (c : Command) : List UInt8 := encodeNumber c.number ++ c.operand

def Fits : Command → Prop
  | sourceRead length => (sourceRead length).number < 0x100000000
  | targetRead bytes => (targetRead bytes).number < 0x100000000
  | sourceCopy length step =>
    (sourceCopy length step).number < 0x100000000 ∧ stepNumber step < 0x100000000
  | targetCopy length step =>
    (targetCopy length step).number < 0x100000000 ∧ stepNumber step < 0x100000000

end Command

/-- Commands that make a target out of a source, where all numbers have 32 bits. -/
structure Creation where
  source : List UInt8
  target : List UInt8
  commands : List Command
  last : Progress
  performs : perform source ⟨[], 0, 0⟩ commands = some last
  makes : last.output = target
  sourceFits : source.length < 0x100000000
  targetFits : target.length < 0x100000000
  commandsFit : ∀ c ∈ commands, c.Fits

namespace Creation

variable (crc32 : List UInt8 → UInt32) (c : Creation)

def body : List UInt8 :=
  magic ++ encodeNumber c.source.length ++ encodeNumber c.target.length ++ encodeNumber 0 ++
    c.commands.flatMap Command.encode ++ leBytes 4 (crc32 c.source).toNat ++
    leBytes 4 (crc32 c.target).toNat

def patch : List UInt8 := c.body crc32 ++ leBytes 4 (crc32 (c.body crc32)).toNat

def Inverts : Prop :=
  ∀ fuel, (c.patch crc32).length < fuel →
    applyBpsPatch crc32 fuel (c.patch crc32) c.source = .ok (true, c.target)

end Creation

section

variable {n fuel shift data : Nat} {rest : List UInt8} {s : Stream}

theorem add32_modEq (a b : Nat) : add32 a b ≡ a + b [MOD 0x100000000] := Nat.mod_modEq _ _

theorem mul32_modEq (a b : Nat) : mul32 a b ≡ a * b [MOD 0x100000000] := Nat.mod_modEq _ _

theorem digit_low {d : Nat} (small : d < 0x100) : (d.toUInt8 &&& 0x7F).toNat = d % 0x80 := by
  rw [UInt8.toNat_and, UInt8.toNat_ofNat', Nat.mod_eq_of_lt small]
  exact Nat.and_two_pow_sub_one_eq_mod d 7

theorem digit_marked {d : Nat} (small : d < 0x100) : d.toUInt8 &&& 0x80 ≠ 0 ↔ 0x80 ≤ d := by
  have bit : ∀ c : Fin 256, (UInt8.ofNat c &&& 0x80 ≠ 0) ↔ 0x80 ≤ c.val := by decide +kernel
  exact bit ⟨d, small⟩

theorem digits_numberDigits (data shift : Nat) (rest : List UInt8) (enough : n < fuel) :
    (Stream.digits data shift (numberDigits fuel n ++ rest)).1 ≡ data + n * shift
      [MOD 0x100000000] ∧
    (Stream.digits data shift (numberDigits fuel n ++ rest)).2 = (numberDigits fuel n).length := by
  induction fuel generalizing n data shift with
  | zero => exact absurd enough (Nat.not_lt_zero n)
  | succ fuel ih =>
    unfold numberDigits
    split_ifs with one
    · have marked : (n + 0x80).toUInt8 &&& 0x80 ≠ 0 := (digit_marked (by omega)).mpr (by omega)
      rw [List.singleton_append, Stream.digits, if_pos marked, digit_low (by omega)]
      refine ⟨?_, rfl⟩
      have low : (n + 0x80) % 0x80 = n := by omega
      rw [low]
      exact (add32_modEq ..).trans ((mul32_modEq n shift).add_left data)
    · have unmarked : ¬ ((n % 0x80).toUInt8 &&& 0x80 ≠ 0) := fun marked => by
        have high := (digit_marked (d := n % 0x80) (by omega)).mp marked
        omega
      have later := ih (n := n / 0x80 - 1) (add32 (add32 data (mul32 (n % 0x80) shift))
        (mul32 shift 0x80)) (mul32 shift 0x80) (by omega)
      rw [List.cons_append, Stream.digits, if_neg unmarked, digit_low (by omega),
        Nat.mod_mod]
      refine ⟨later.1.trans ?_, congrArg (· + 1) later.2⟩
      have split : n = n % 0x80 + (n / 0x80 - 1 + 1) * 0x80 := by omega
      have first : add32 (add32 data (mul32 (n % 0x80) shift)) (mul32 shift 0x80) ≡
          data + n % 0x80 * shift + shift * 0x80 [MOD 0x100000000] :=
        (add32_modEq ..).trans (((add32_modEq ..).trans
          ((mul32_modEq _ _).add_left data)).add (mul32_modEq _ _))
      have whole : data + n * shift = data + n % 0x80 * shift + shift * 0x80 +
          (n / 0x80 - 1) * (shift * 0x80) := by
        conv_lhs => rw [split]
        ring
      rw [whole]
      exact first.add ((mul32_modEq shift 0x80).mul_left (n / 0x80 - 1))

theorem numberDigits_pos (enough : n < fuel) : 0 < (numberDigits fuel n).length := by
  obtain ⟨fuel, rfl⟩ : ∃ k, fuel = k + 1 := ⟨fuel - 1, by omega⟩
  unfold numberDigits
  split_ifs
  · exact Nat.one_pos
  · exact Nat.succ_pos _

theorem encodeNumber_pos (n : Nat) : 0 < (encodeNumber n).length :=
  numberDigits_pos (Nat.lt_succ_self n)

theorem length_numberDigits (fuel n : Nat) : (numberDigits fuel n).length ≤ n / 0x80 + 1 := by
  induction fuel generalizing n with
  | zero => exact Nat.zero_le _
  | succ fuel ih =>
    unfold numberDigits
    split_ifs with one
    · exact Nat.succ_le_succ (Nat.zero_le _)
    · have later := ih (n / 0x80 - 1)
      rw [List.length_cons]
      omega

theorem length_encodeNumber (small : n < 0x100000000) : (encodeNumber n).length ≤ 0x2000000 := by
  have few := length_numberDigits (n + 1) n
  unfold encodeNumber
  omega

theorem readNumber_encodeNumber (small : n < 0x100000000)
    (ahead : s.data.drop s.offset = encodeNumber n ++ rest) :
    s.readNumber.1 = n ∧ s.readNumber.2.data.drop s.readNumber.2.offset = rest := by
  obtain ⟨value, used⟩ := digits_numberDigits 0 1 rest (Nat.lt_succ_self n)
  have bound := s.readNumber_spec.2.2.1
  have read : s.readNumber = ((Stream.digits 0 1 (encodeNumber n ++ rest)).1,
      ⟨s.data, s.offset + (Stream.digits 0 1 (encodeNumber n ++ rest)).2⟩) := by
    unfold Stream.readNumber
    rw [ahead]
  rw [read] at bound ⊢
  unfold encodeNumber at bound ahead ⊢
  refine ⟨?_, ?_⟩
  · have same := Nat.ModEq.eq_of_lt_of_lt value bound (by omega)
    rw [same]
    omega
  · rw [used, ← List.drop_drop, ahead, List.drop_left]

end

section

variable {size length start left : Nat} {output output' bytes : List UInt8} {other : Stream}

def front (size : Nat) (output : List UInt8) : Stream :=
  ⟨output ++ List.replicate (size - output.length) 0, output.length⟩

theorem length_front (fits : output.length ≤ size) : (front size output).data.length = size := by
  unfold front
  rw [List.length_append, List.length_replicate]
  omega

theorem copyFrom_front (size : Nat) (output bytes : List UInt8) (other : Stream)
    (room : output.length + bytes.length ≤ size)
    (ahead : (other.data.drop other.offset).take bytes.length = bytes) (long : 0 < bytes.length) :
    (front size output).copyFrom other bytes.length =
      some (front size (output ++ bytes), { other with offset := other.offset + bytes.length }) := by
  have there : other.offset + bytes.length ≤ other.data.length := by
    have taken := congrArg List.length ahead
    rw [List.length_take, List.length_drop] at taken
    omega
  have whole : (front size output).data.length = size := length_front (by omega)
  have read : other.read bytes.length =
      some (bytes, { other with offset := other.offset + bytes.length }) := by
    unfold Stream.read
    rw [if_neg (Nat.not_lt_of_le there), ahead]
  have behind : (List.replicate (size - output.length) (0 : UInt8)).drop bytes.length =
      List.replicate (size - (output ++ bytes).length) 0 := by
    rw [List.drop_replicate, List.length_append, Nat.sub_sub]
  unfold Stream.copyFrom
  rw [whole, if_neg (by exact Nat.not_lt_of_le room), read]
  unfold front
  dsimp only [Option.map_some]
  rw [List.take_left, List.drop_append, List.drop_eq_nil_of_le (Nat.le_add_right ..),
    Nat.add_sub_cancel_left, List.nil_append, behind, List.length_append]

theorem copyBytes_repeatFrom (left : Nat) (repeated : repeatFrom start length output = some output')
    (small : start + length < wordSize) (room : length ≤ left) :
    copyBytes length output.length start (output ++ List.replicate left 0) =
      .ok (start + length, output' ++ List.replicate (left - length) 0) := by
  induction length generalizing start output left with
  | zero =>
    obtain rfl := Option.some.inj repeated
    rfl
  | succ length ih =>
    obtain ⟨left, rfl⟩ : ∃ n, left = n + 1 := ⟨left - 1, by omega⟩
    obtain ⟨byte, found, repeated⟩ := Option.bind_eq_some_iff.mp repeated
    have inside := (List.getElem?_eq_some_iff.mp found).1
    have read : Buffer.get (output ++ List.replicate (left + 1) 0) start = .ok byte :=
      Buffer.get_eq_ok ((List.getElem?_append_left inside).trans found)
    have zeros : output ++ List.replicate (left + 1) (0 : UInt8) =
        output ++ [0] ++ List.replicate left 0 := by
      rw [List.append_assoc]
      rfl
    have written : Buffer.set (output ++ List.replicate (left + 1) 0) output.length byte =
        .ok (output ++ [byte] ++ List.replicate left 0) := by
      rw [zeros, Buffer.set_before, List.append_assoc]
      rfl
    have rest := ih left repeated (by omega) (by omega)
    rw [List.length_append, List.length_singleton] at rest
    unfold copyBytes
    rw [read, ok_bind, written, ok_bind, Nat.mod_eq_of_lt (by omega), rest]
    have count : start + 1 + length = start + (length + 1) := by omega
    have less : left - length = left + 1 - (length + 1) := by omega
    rw [count, less]

theorem moveBy_stepNumber {cursor : Nat} {step : Int} (within : 0 ≤ cursor + step)
    (small : cursor < wordSize) (small' : cursor + step < wordSize) :
    moveBy cursor (stepNumber step) = (cursor + step).toNat := by
  unfold moveBy stepNumber
  by_cases back : step < 0
  · have odd : (2 * step.natAbs + 1) % 2 = 1 := by omega
    rw [if_pos back, if_pos odd, sub64_eq (by omega) small]
    omega
  · have even : ¬ (2 * step.natAbs + 0) % 2 = 1 := by omega
    rw [if_neg back, if_neg even, Nat.mod_eq_of_lt (by omega)]
    omega

end

namespace Command

variable {source : List UInt8} {p q : Progress} {c : Command}

/-- A command makes as many bytes as it says, at least one. -/
theorem length_perform (performed : c.perform source p = some q) :
    0 < c.length ∧ q.output.length = p.output.length + c.length := by
  cases c with
  | sourceRead length | sourceCopy length step =>
    dsimp only [perform] at performed
    split_ifs at performed with inside
    cases performed
    dsimp only [Command.length]
    rw [List.length_append, part, List.length_take, List.length_drop]
    omega
  | targetRead bytes =>
    dsimp only [perform] at performed
    split_ifs at performed with inside
    cases performed
    exact ⟨inside, List.length_append⟩
  | targetCopy length step =>
    dsimp only [perform] at performed
    split_ifs at performed with inside
    obtain ⟨output, repeated, same⟩ := Option.map_eq_some_iff.mp performed
    cases same
    exact ⟨inside.1, length_repeatFrom repeated⟩

theorem number_lt (fits : c.Fits) : c.number < 0x100000000 := by
  cases c with
  | sourceRead length | targetRead bytes => exact fits
  | sourceCopy length step | targetCopy length step => exact fits.1

theorem number_div {c : Command} (long : 0 < c.length) : c.number / 4 + 1 = c.length := by
  have few : c.kind < 4 := by cases c <;> simp only [kind] <;> omega
  unfold number
  omega

theorem number_mod (c : Command) : c.number % 4 = c.kind := by
  have few : c.kind < 4 := by cases c <;> simp only [kind] <;> omega
  unfold number
  omega

theorem encode_pos (c : Command) : 0 < c.encode.length := by
  have first := encodeNumber_pos c.number
  unfold encode
  rw [List.length_append]
  omega

theorem length_encode (long : 0 < c.length) (fits : c.Fits) :
    c.encode.length ≤ 0x5000000 * c.length := by
  have first := length_encodeNumber (number_lt fits)
  unfold encode
  rw [List.length_append]
  cases c with
  | sourceRead length =>
    dsimp only [operand, Command.length, List.length_nil] at *
    omega
  | targetRead bytes =>
    dsimp only [operand, Command.length] at *
    omega
  | sourceCopy length step | targetCopy length step =>
    have second := length_encodeNumber fits.2
    dsimp only [operand, Command.length] at *
    omega

end Command

theorem length_le_perform {source : List UInt8} {p last : Progress} {commands : List Command}
    (performs : perform source p commands = some last) : p.output.length ≤ last.output.length := by
  induction commands generalizing p with
  | nil =>
    obtain rfl := Option.some.inj performs
    exact Nat.le_refl _
  | cons c commands ih =>
    obtain ⟨q, performed, rest⟩ := Option.bind_eq_some_iff.mp performs
    have grown := Command.length_perform performed
    have later := ih rest
    omega

theorem length_flatMap_encode {source : List UInt8} {p last : Progress} {commands : List Command}
    (fits : ∀ c ∈ commands, c.Fits) (performs : perform source p commands = some last) :
    (commands.flatMap Command.encode).length + 0x5000000 * p.output.length ≤
      0x5000000 * last.output.length := by
  induction commands generalizing p with
  | nil =>
    obtain rfl := Option.some.inj performs
    rw [List.flatMap_nil, List.length_nil, Nat.zero_add]
  | cons c commands ih =>
    obtain ⟨q, performed, rest⟩ := Option.bind_eq_some_iff.mp performs
    obtain ⟨long, grown⟩ := Command.length_perform performed
    have encoded := Command.length_encode long (fits c List.mem_cons_self)
    have later := ih (fun c mem => fits c (List.mem_cons_of_mem _ mem)) rest
    rw [List.flatMap_cons, List.length_append]
    omega

theorem length_le_flatMap_encode (commands : List Command) :
    commands.length ≤ (commands.flatMap Command.encode).length := by
  induction commands with
  | nil => exact Nat.zero_le _
  | cons c commands ih =>
    have some := c.encode_pos
    rw [List.flatMap_cons, List.length_append, List.length_cons]
    omega

/-- The applier is where the commands are; `original` is the buffer as it was. -/
structure Tracks (patch original source ahead : List UInt8) (p : Progress) (a : PatchApplier) :
    Prop where
  prefixed : source <+: original
  small : original.length < 0x100000000
  buffer : a.source.data = original
  target : a.target = front original.length p.output
  sourceCursor : a.sourceRelativeOffset = p.sourceCursor
  targetCursor : a.targetRelativeOffset = p.targetCursor
  sourceInside : p.sourceCursor ≤ source.length
  targetInside : p.targetCursor ≤ p.output.length
  made : p.output.length ≤ original.length
  bytes : a.patch.data = patch
  left : a.patch.data.drop a.patch.offset = ahead

namespace Tracks

variable {patch original source ahead : List UInt8} {p q last : Progress} {a : PatchApplier}
  {commands : List Command}

theorem take_part {start length : Nat} (h : Tracks patch original source ahead p a)
    (inside : start + length ≤ source.length) :
    (original.drop start).take length = part source start length := by
  obtain ⟨rest, rfl⟩ := h.prefixed
  unfold part
  rw [List.drop_append_of_le_length (by omega), List.take_append_of_le_length]
  rw [List.length_drop]
  omega

theorem length_part {start length : Nat} (inside : start + length ≤ source.length) :
    (part source start length).length = length := by
  unfold part
  rw [List.length_take, List.length_drop]
  omega

theorem sourceRead {length : Nat} (h : Tracks patch original source ahead p a)
    (performed : (Command.sourceRead length).perform source p = some q)
    (room : q.output.length ≤ original.length) :
    ∃ b, a.sourceRead length = (true, b) ∧ Tracks patch original source ahead q b := by
  dsimp only [Command.perform] at performed
  split_ifs at performed with inside
  obtain ⟨long, inside⟩ := inside
  cases performed
  have size : (part source p.output.length length).length = length := length_part inside
  rw [List.length_append, size] at room
  have seek : a.source.seek a.target.offset = some ⟨original, p.output.length⟩ := by
    rw [h.target, ← h.buffer]
    exact Stream.seek_eq (by rw [h.buffer]; exact h.made)
  have copied := copyFrom_front original.length p.output (part source p.output.length length)
    ⟨original, p.output.length⟩
    (by rw [size]; exact room) (by rw [size]; exact h.take_part inside) (by rw [size]; exact long)
  rw [size, ← h.target] at copied
  unfold PatchApplier.sourceRead
  rw [seek]
  dsimp only
  rw [copied]
  refine ⟨_, rfl, ?_⟩
  exact { h with
    buffer := rfl
    target := rfl
    targetInside := by
      rw [List.length_append]
      exact Nat.le_add_right_of_le h.targetInside
    made := by rw [List.length_append, size]; exact room }

theorem targetRead {bytes : List UInt8} (h : Tracks patch original source (bytes ++ ahead) p a)
    (performed : (Command.targetRead bytes).perform source p = some q)
    (room : q.output.length ≤ original.length) :
    ∃ b, a.targetRead bytes.length = (true, b) ∧ Tracks patch original source ahead q b := by
  dsimp only [Command.perform] at performed
  split_ifs at performed with long
  cases performed
  rw [List.length_append] at room
  have bytesAhead : (a.patch.data.drop a.patch.offset).take bytes.length = bytes := by
    rw [h.left, List.take_left]
  have copied := copyFrom_front _ _ _ a.patch room bytesAhead long
  rw [← h.target] at copied
  unfold PatchApplier.targetRead
  rw [copied]
  refine ⟨_, rfl, ?_⟩
  exact { h with
    target := rfl
    targetInside := by
      rw [List.length_append]
      exact Nat.le_add_right_of_le h.targetInside
    made := by rw [List.length_append]; exact room
    left := by rw [← List.drop_drop, h.left, List.drop_left] }

section

variable {step : Int} (fits : stepNumber step < 0x100000000)
  (h : Tracks patch original source (encodeNumber (stepNumber step) ++ ahead) p a)
include fits h

theorem sourceCopy {length : Nat}
    (performed : (Command.sourceCopy length step).perform source p = some q)
    (room : q.output.length ≤ original.length) :
    ∃ b, a.sourceCopy length = (true, b) ∧ Tracks patch original source ahead q b := by
  dsimp only [Command.perform] at performed
  split_ifs at performed with inside
  obtain ⟨long, within, inside⟩ := inside
  cases performed
  obtain ⟨number, rest⟩ := readNumber_encodeNumber fits h.left
  have few := h.prefixed.length_le
  have small := h.small
  have cursor := h.sourceInside
  have big : (0x100000000 : Nat) < wordSize := by decide
  have moved : moveBy a.sourceRelativeOffset a.patch.readNumber.1 =
      (p.sourceCursor + step).toNat := by
    rw [number, h.sourceCursor]
    exact moveBy_stepNumber within (by omega) (by omega)
  generalize (p.sourceCursor + step).toNat = start at inside moved room ⊢
  have size : (part source start length).length = length := length_part inside
  rw [List.length_append, size] at room
  have seek : a.source.seek start = some ⟨original, start⟩ := by
    rw [← h.buffer]
    exact Stream.seek_eq (by rw [h.buffer]; omega)
  have copied := copyFrom_front original.length p.output (part source start length) ⟨original, start⟩
    (by rw [size]; exact room) (by rw [size]; exact h.take_part inside) (by rw [size]; exact long)
  rw [size, ← h.target] at copied
  unfold PatchApplier.sourceCopy
  dsimp only
  rw [moved, seek]
  dsimp only
  rw [copied]
  refine ⟨_, rfl, ?_⟩
  exact { h with
    buffer := rfl
    target := rfl
    sourceCursor := Nat.mod_eq_of_lt (by omega)
    sourceInside := inside
    targetInside := by
      rw [List.length_append]
      exact Nat.le_add_right_of_le h.targetInside
    made := by rw [List.length_append, size]; exact room
    left := rest }

theorem targetCopy {length : Nat}
    (performed : (Command.targetCopy length step).perform source p = some q)
    (room : q.output.length ≤ original.length) :
    ∃ b, a.targetCopy length = .ok (true, b) ∧ Tracks patch original source ahead q b := by
  dsimp only [Command.perform] at performed
  split_ifs at performed with inside
  obtain ⟨long, within⟩ := inside
  obtain ⟨output, repeated, same⟩ := Option.map_eq_some_iff.mp performed
  cases same
  obtain ⟨number, rest⟩ := readNumber_encodeNumber fits h.left
  have small := h.small
  have cursor := h.targetInside
  have made := h.made
  have big : (0x100000000 : Nat) < wordSize := by decide
  have grown := length_repeatFrom repeated
  have before := start_lt_of_repeatFrom long repeated
  have moved : moveBy a.targetRelativeOffset a.patch.readNumber.1 =
      (p.targetCursor + step).toNat := by
    rw [number, h.targetCursor]
    exact moveBy_stepNumber within (by omega) (by omega)
  dsimp only at room
  have whole : a.target.data.length = original.length := by
    rw [h.target]
    exact length_front made
  have offset : a.target.offset = p.output.length := by rw [h.target]; rfl
  have copied := copyBytes_repeatFrom (original.length - p.output.length) repeated (by omega)
    (by omega)
  have bytes : a.target.data =
      p.output ++ List.replicate (original.length - p.output.length) 0 := by rw [h.target]; rfl
  unfold PatchApplier.targetCopy
  dsimp only
  rw [moved, offset, if_neg (by omega), Nat.mod_eq_of_lt (by omega), if_neg (by omega),
    bytes, copied]
  refine ⟨_, rfl, ?_⟩
  exact { h with
    target := by
      unfold front
      rw [grown, Nat.sub_sub]
    targetCursor := rfl
    targetInside := by dsimp only; omega
    made := room
    left := rest }

end

theorem handleCommand {c : Command} (fits : c.Fits)
    (h : Tracks patch original source (c.encode ++ ahead) p a) (performed : c.perform source p = some q)
    (room : q.output.length ≤ original.length) :
    ∃ b, a.handleCommand = .ok (true, b) ∧ Tracks patch original source ahead q b := by
  have left := h.left
  unfold Command.encode at left
  rw [List.append_assoc] at left
  obtain ⟨number, rest⟩ := readNumber_encodeNumber (Command.number_lt fits) left
  have long := (Command.length_perform performed).1
  have read : Tracks patch original source (c.operand ++ ahead) p
      { a with patch := a.patch.readNumber.2 } := { h with left := rest }
  unfold PatchApplier.handleCommand
  dsimp only
  rw [number, Command.number_div long, Command.number_mod]
  cases c with
  | sourceRead length =>
    obtain ⟨b, run, tracks⟩ := read.sourceRead performed room
    exact ⟨b, congrArg Except.ok run, tracks⟩
  | targetRead bytes =>
    obtain ⟨b, run, tracks⟩ := read.targetRead performed room
    exact ⟨b, congrArg Except.ok run, tracks⟩
  | sourceCopy length step =>
    obtain ⟨b, run, tracks⟩ := read.sourceCopy fits.2 performed room
    exact ⟨b, congrArg Except.ok run, tracks⟩
  | targetCopy length step => exact read.targetCopy fits.2 performed room

theorem allCommands {footer : List UInt8} (fuel : Nat) (footerLength : footer.length = 12)
    (fits : ∀ c ∈ commands, c.Fits)
    (h : Tracks patch original source (commands.flatMap Command.encode ++ footer) p a)
    (performs : perform source p commands = some last)
    (room : last.output.length ≤ original.length) (enough : commands.length < fuel) :
    ∃ b, StepLoop.loop .outOfFuel (PatchApplier.command (patch.length - 12)) fuel a = .ok (true, b) ∧
      Tracks patch original source footer last b := by
  induction commands generalizing p a fuel with
  | nil =>
    obtain ⟨fuel, rfl⟩ : ∃ n, fuel = n + 1 := ⟨fuel - 1, by omega⟩
    obtain rfl := Option.some.inj performs
    have behind := congrArg List.length h.left
    rw [h.bytes, List.length_drop, List.flatMap_nil, List.nil_append] at behind
    unfold StepLoop.loop PatchApplier.command
    rw [if_neg (by omega)]
    exact ⟨a, rfl, h⟩
  | cons c commands ih =>
    obtain ⟨fuel, rfl⟩ : ∃ n, fuel = n + 1 := ⟨fuel - 1, by omega⟩
    obtain ⟨q, performed, rest⟩ := Option.bind_eq_some_iff.mp performs
    have ahead := h.left
    rw [List.flatMap_cons, List.append_assoc] at ahead
    have next : Tracks patch original source
        (c.encode ++ (commands.flatMap Command.encode ++ footer)) p a := { h with left := ahead }
    have reached := Nat.le_trans (length_le_perform rest) room
    obtain ⟨b, handled, tracks⟩ := next.handleCommand (fits c List.mem_cons_self) performed reached
    have behind := congrArg List.length ahead
    have some := c.encode_pos
    rw [h.bytes, List.length_drop, List.length_append, List.length_append] at behind
    have turn : PatchApplier.command (patch.length - 12) a = .ok (.inr b) := by
      unfold PatchApplier.command
      rw [if_pos (by omega), handled]
      rfl
    unfold StepLoop.loop
    rw [turn]
    exact ih _ (fun c mem => fits c (List.mem_cons_of_mem _ mem)) tracks rest
      (Nat.lt_of_succ_lt_succ enough)

end Tracks

namespace Creation

variable (crc32 : List UInt8 → UInt32) (c : Creation)

def footer : List UInt8 :=
  leBytes 4 (crc32 c.source).toNat ++ (leBytes 4 (crc32 c.target).toNat ++
    leBytes 4 (crc32 (c.body crc32)).toNat)

def original : List UInt8 :=
  c.source ++ List.replicate (c.target.length - c.source.length) 0

theorem length_footer : (c.footer crc32).length = 12 := by
  unfold footer
  rw [List.length_append, List.length_append, length_leBytes, length_leBytes, length_leBytes]

theorem length_original : c.original.length = max c.source.length c.target.length := by
  unfold original
  rw [List.length_append, List.length_replicate]
  omega

theorem patch_eq : c.patch crc32 = magic ++ (encodeNumber c.source.length ++
    (encodeNumber c.target.length ++ (encodeNumber 0 ++
      (c.commands.flatMap Command.encode ++ c.footer crc32)))) := by
  unfold patch footer
  unfold body
  simp only [List.append_assoc]

theorem header : (sourceSize (c.patch crc32)).1 = c.source.length ∧
    (targetSize (c.patch crc32)).1 = c.target.length ∧ (metadataSize (c.patch crc32)).1 = 0 ∧
    (metadataSize (c.patch crc32)).2.data.drop (metadataSize (c.patch crc32)).2.offset =
      c.commands.flatMap Command.encode ++ c.footer crc32 := by
  have start : (c.patch crc32).drop 4 = encodeNumber c.source.length ++
      (encodeNumber c.target.length ++ (encodeNumber 0 ++
        (c.commands.flatMap Command.encode ++ c.footer crc32))) := by
    rw [patch_eq]
    rfl
  obtain ⟨first, behind⟩ := readNumber_encodeNumber (s := ⟨c.patch crc32, 4⟩) c.sourceFits start
  obtain ⟨second, behind⟩ := readNumber_encodeNumber c.targetFits behind
  obtain ⟨third, behind⟩ := readNumber_encodeNumber (by decide) behind
  exact ⟨first, second, third, behind⟩

theorem resized_eq : resized (c.patch crc32) c.source = c.original := by
  obtain ⟨first, second, -⟩ := c.header crc32
  unfold resized original Buffer.resize
  rw [first, second]
  split_ifs with longer
  · rw [List.take_of_length_le (Nat.le_of_lt longer)]
  · rw [Nat.sub_eq_zero_of_le (Nat.le_of_not_lt longer), List.replicate_zero, List.append_nil]

theorem length_patch : (c.patch crc32).length < wordSize := by
  have commands := length_flatMap_encode c.commandsFit c.performs
  have first := length_encodeNumber c.sourceFits
  have second := length_encodeNumber c.targetFits
  have third := length_encodeNumber (n := 0) (by decide)
  have target := c.targetFits
  have format : magic.length = 4 := rfl
  rw [c.makes] at commands
  rw [patch_eq]
  simp only [List.length_append, length_footer]
  unfold wordSize
  omega

theorem run_eq {fuel : Nat} (enough : c.commands.length < fuel) :
    PatchApplier.run ⟨0, 0, ⟨c.original, 0⟩, ⟨c.original, 0⟩,
      (metadataSize (c.patch crc32)).2⟩ crc32 fuel c.source.length c.target.length =
    .ok (true, c.target ++ List.replicate (c.source.length - c.target.length) 0) := by
  obtain ⟨-, -, -, left⟩ := c.header crc32
  obtain ⟨bytes, -, within⟩ := metadataSize_stream (c.patch crc32) (by
    rw [patch_eq, List.length_append]
    exact Nat.le_add_right ..)
  generalize (metadataSize (c.patch crc32)).2 = s at left bytes within
  have footerLength := c.length_footer crc32
  have size : c.original.length = max c.source.length c.target.length := c.length_original
  have before := congrArg List.length left
  rw [bytes, List.length_drop, List.length_append] at before
  have stop : (c.patch crc32).length - 12 =
      s.offset + (c.commands.flatMap Command.encode).length := by omega
  have behind : (c.patch crc32).drop ((c.patch crc32).length - 12) = c.footer crc32 := by
    rw [stop, ← List.drop_drop, ← bytes, left, List.drop_left]
  have small := c.length_patch crc32
  have room : c.last.output.length ≤ c.original.length := by
    rw [c.makes, size]
    exact Nat.le_max_right ..
  have tracks : Tracks (c.patch crc32) c.original c.source
      (c.commands.flatMap Command.encode ++ c.footer crc32) ⟨[], 0, 0⟩
      ⟨0, 0, ⟨c.original, 0⟩, ⟨List.replicate c.original.length 0, 0⟩, s⟩ := {
    prefixed := List.prefix_append ..
    small := by
      rw [size]
      exact Nat.max_lt.mpr ⟨c.sourceFits, c.targetFits⟩
    buffer := rfl
    target := rfl
    sourceCursor := rfl
    targetCursor := rfl
    sourceInside := Nat.zero_le _
    targetInside := Nat.zero_le _
    made := Nat.zero_le _
    bytes := bytes
    left := left }
  obtain ⟨b, handled, done⟩ := tracks.allCommands fuel footerLength c.commandsFit
    c.performs room enough
  have made : b.target.data = c.target ++ List.replicate (c.source.length - c.target.length) 0 := by
    have more : max c.source.length c.target.length - c.target.length =
        c.source.length - c.target.length := by omega
    rw [done.target, c.makes, size, front, more]
  have source : c.original.take c.source.length = c.source := List.take_left
  have sourceWord : leValue (((c.patch crc32).drop ((c.patch crc32).length - 12)).take 4) =
      (crc32 c.source).toNat := by
    rw [behind, footer, List.take_left' (length_leBytes ..), leValue_leBytes]
    exact Nat.mod_eq_of_lt (crc32 c.source).toNat_lt
  have targetWord : leValue (((c.patch crc32).drop ((c.patch crc32).length - 12 + 4)).take 4) =
      (crc32 c.target).toNat := by
    rw [← List.drop_drop, behind, footer, List.drop_left' (length_leBytes ..),
      List.take_left' (length_leBytes ..), leValue_leBytes]
    exact Nat.mod_eq_of_lt (crc32 c.target).toNat_lt
  unfold PatchApplier.run footerSize
  dsimp only
  rw [bytes, sub64_eq (by omega) small, Stream.seek_eq (by rw [bytes]; exact Nat.sub_le ..),
    Option.getD_some, Stream.readWord_eq (by dsimp only; rw [bytes]; omega), ok_bind]
  rw [Stream.readWord_eq (by dsimp only; rw [bytes]; omega), ok_bind]
  rw [Stream.seek_eq (by rw [bytes]; exact within), Option.getD_some, bytes, source,
    sourceWord]
  have same : (⟨c.patch crc32, s.offset⟩ : Stream) = s := by rw [← bytes]
  rw [same, handled, ok_bind]
  rw [targetWord, made]
  simp

theorem applyBpsPatch_patch {fuel : Nat} (enough : c.commands.length < fuel) :
    applyBpsPatch crc32 fuel (c.patch crc32) c.source =
      .ok (true, c.target ++ List.replicate (c.source.length - c.target.length) 0) := by
  obtain ⟨first, second, third, -⟩ := c.header crc32
  have format : 4 ≤ (c.patch crc32).length := by
    rw [patch_eq, List.length_append]
    exact Nat.le_add_right ..
  have marker : (c.patch crc32).take 4 = magic := by
    rfl
  rw [applyBpsPatch_eq format, marker, if_neg (not_not_intro rfl), c.resized_eq crc32, first, second,
    length_original, if_neg (by omega)]
  exact c.run_eq crc32 enough

/-- A patch leaves just its target if that is not shorter than the source; else the buffer keeps
its length, with zeros behind the target. -/
theorem patch_inverts_iff : c.Inverts crc32 ↔ c.source.length ≤ c.target.length := by
  have few : c.commands.length ≤ (c.patch crc32).length := by
    have each := length_le_flatMap_encode c.commands
    rw [patch_eq]
    simp only [List.length_append]
    omega
  constructor
  · intro inverts
    have run := (inverts _ (Nat.lt_succ_self _)).symm.trans
      (c.applyBpsPatch_patch crc32 (Nat.lt_succ_of_le few))
    have length := congrArg List.length (Prod.mk.inj (Except.ok.inj run)).2
    rw [List.length_append, List.length_replicate] at length
    omega
  · intro longer fuel enough
    rw [c.applyBpsPatch_patch crc32 (by omega), Nat.sub_eq_zero_of_le longer, List.replicate_zero,
      List.append_nil]

/-- Two bytes become one. -/
def halved : Creation where
  source := [1, 2]
  target := [1]
  commands := [.sourceRead 1]
  last := ⟨[1], 0, 0⟩
  performs := by decide
  makes := rfl
  sourceFits := by decide
  targetFits := by decide
  commandsFit := by
    intro c mem
    obtain rfl := List.mem_singleton.mp mem
    exact show (Command.sourceRead 1).number < 0x100000000 by decide

theorem halved_not_inverts : ¬ halved.Inverts fun _ => 0 := by
  intro inverts
  have run : applyBpsPatch (fun _ => 0) 21 (halved.patch fun _ => 0) halved.source =
      .ok (true, [1, 0]) := by decide +kernel
  have kept := (inverts 21 (by decide +kernel)).symm.trans run
  exact absurd kept (by decide)

end Creation

end EmuThreeDS.FileSys.Patch.Bps
