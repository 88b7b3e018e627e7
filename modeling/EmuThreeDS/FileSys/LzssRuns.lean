import EmuThreeDS.FileSys.Lzss
import EmuThreeDS.Lib.BackReferences
import Mathlib.Data.Nat.Bitwise

/-!
# Runs of the decompression

A section whose footer keeps the cursors inside is decompressed inside of its buffers. One that
was packed is unpacked, unless the packing is longer than what it stands for.
-/
namespace EmuThreeDS.FileSys

open BackReferences

namespace LzssState

variable {compressed : List UInt8} {s t u : LzssState} {stopIndex : Nat}

structure Descends (s t : LzssState) : Prop where
  index : t.index ≤ s.index
  out : t.out ≤ s.out
  size : t.decompressed.length = s.decompressed.length

theorem Descends.refl (s : LzssState) : Descends s s := ⟨Nat.le_refl _, Nat.le_refl _, rfl⟩

theorem Descends.trans (h : Descends s t) (h' : Descends t u) : Descends s u :=
  ⟨Nat.le_trans h'.index h.index, Nat.le_trans h'.out h.out, h'.size.trans h.size⟩

structure Inside (compressed : List UInt8) (s : LzssState) : Prop where
  index : s.index ≤ compressed.length
  out : s.out ≤ s.decompressed.length
  small : compressed.length < 0x100000000
  size : s.decompressed.length < 0x100000000

theorem Inside.descends (h : s.Inside compressed) (below : Descends s t) : t.Inside compressed := by
  refine ⟨Nat.le_trans below.index h.index, ?_, h.small, ?_⟩
  · rw [below.size]
    exact Nat.le_trans below.out h.out
  · rw [below.size]
    exact h.size

theorem put_returns (inside : s.Inside compressed) (some : 0 < s.out) (data : UInt8) :
    Returns (s.put data) fun t => t.out + 1 = s.out ∧ Descends s t := by
  have out := inside.out
  have size := inside.size
  have place : sub32 s.out 1 = s.out - 1 := sub32_eq some (by omega)
  unfold put
  rw [place, Buffer.set_of_lt (by omega)]
  exact returns_ok ⟨by dsimp only; omega, Nat.le_refl _, Nat.sub_le _ _, List.length_set⟩

variable {left : Nat}

section

variable (inside : s.Inside compressed)
include inside

theorem copySegment_returns (segmentOffset : Nat) (room : left ≤ s.out) :
    Returns (s.copySegment segmentOffset left) fun r => Descends s r.2 := by
  induction left generalizing s with
  | zero => exact returns_ok (.refl s)
  | succ left ih =>
    apply returns_ite
    · exact fun _ => returns_ok (.refl s)
    · intro within
      apply returns_bind (Buffer.get_returns (Nat.lt_of_not_le within))
      intro data _
      apply returns_bind (put_returns inside (by omega) data)
      rintro t ⟨less, below⟩
      apply (ih (inside.descends below) (by omega)).mono
      exact fun r later => below.trans later

theorem segment_returns : Returns (s.segment compressed) fun r => Descends s r.2 := by
  have index := inside.index
  apply returns_ite
  · exact fun _ => returns_ok (.refl s)
  · intro enough
    have below : Descends s { s with index := s.index - 2 } :=
      ⟨Nat.sub_le _ _, Nat.le_refl _, rfl⟩
    apply returns_bind (Buffer.get_returns (by dsimp only; omega))
    intro low _
    apply returns_bind (Buffer.get_returns (by dsimp only; omega))
    intro high _
    apply returns_ite
    · exact fun _ => returns_ok below
    · intro room
      apply (copySegment_returns (inside.descends below) _ (Nat.le_of_not_lt room)).mono
      exact fun r later => below.trans later

theorem literal_returns (some : 0 < s.index) :
    Returns (s.literal compressed) fun r => Descends s r.2 := by
  have index := inside.index
  have small := inside.small
  have place : sub32 s.index 1 = s.index - 1 := sub32_eq some (by omega)
  apply returns_ite
  · exact fun _ => returns_ok (.refl s)
  · intro room
    have below : Descends s { s with index := s.index - 1 } :=
      ⟨Nat.sub_le _ _, Nat.le_refl _, rfl⟩
    rw [place]
    apply returns_bind (Buffer.get_returns (by omega))
    intro data _
    apply returns_bind (put_returns (inside.descends below) (Nat.le_of_not_lt room) data)
    rintro t ⟨_, later⟩
    exact returns_ok (below.trans later)

theorem token_returns (some : 0 < s.index) (control : UInt8) :
    Returns (s.token compressed control) fun r => Descends s r.2 :=
  returns_ite (fun _ => segment_returns inside) fun _ => literal_returns inside some

theorem group_returns (left : Nat) (control : UInt8) :
    Returns (s.group compressed stopIndex left control) fun r => Descends s r.2 := by
  induction left generalizing s control with
  | zero => exact returns_ok (.refl s)
  | succ left ih =>
    refine returns_ite (fun _ => returns_ok (.refl s)) fun running => ?_
    refine returns_ite (fun _ => returns_ok (.refl s)) fun _ => ?_
    refine returns_ite (fun _ => returns_ok (.refl s)) fun _ => ?_
    apply returns_bind (token_returns inside (by omega) control)
    rintro ⟨going, t⟩ below
    refine returns_ite (fun _ => ?_) fun _ => returns_ok below
    exact (ih (inside.descends below) _).mono fun r later => below.trans later

theorem groups_returns {fuel : Nat} (enough : s.index ≤ fuel) :
    Returns (s.groups compressed stopIndex fuel) fun _ => True := by
  induction fuel generalizing s with
  | zero =>
    unfold groups
    rw [if_neg (by omega)]
    exact returns_ok trivial
  | succ fuel ih =>
    have index := inside.index
    have small := inside.small
    refine returns_ite (fun running => ?_) fun _ => returns_ok trivial
    have place : sub32 s.index 1 = s.index - 1 := sub32_eq (by omega) (by omega)
    have below : Descends s { s with index := s.index - 1 } :=
      ⟨Nat.sub_le _ _, Nat.le_refl _, rfl⟩
    rw [place]
    apply returns_bind (Buffer.get_returns (by omega))
    intro control _
    apply returns_bind (group_returns (inside.descends below) 8 control)
    rintro ⟨going, t⟩ later
    refine returns_ite (fun _ => ih (inside.descends (below.trans later)) ?_)
      fun _ => returns_ok trivial
    have less := later.index
    dsimp only at less ⊢
    omega

end

end LzssState

section

variable (tempBuffer : List UInt8)

/-- The fields of the footer: what decompression adds, the length of the footer, and how far from
the end of the section the tokens start. -/
def offsetSize : Nat := field tempBuffer (tempBuffer.length - 4) 4

def bufferTop : Nat := field tempBuffer (tempBuffer.length - 8) 4 / 0x1000000 % 0x100

def bufferBottom : Nat := field tempBuffer (tempBuffer.length - 8) 4 % 0x1000000

/-- The footer is there, what decompression adds is not negative, and the footer is not longer than
the section, or else the tokens are said to start even further before the section. -/
def FooterFits : Prop :=
  8 ≤ tempBuffer.length ∧ offsetSize tempBuffer + tempBuffer.length < 0x100000000 ∧
    (bufferTop tempBuffer ≤ tempBuffer.length ∨
      tempBuffer.length < bufferBottom tempBuffer ∧ bufferBottom tempBuffer ≤ bufferTop tempBuffer)

end

variable {tempBuffer compressed decompressed : List UInt8} {fuel : Nat}

theorem field_lt (buffer : List UInt8) (offset : Nat) : field buffer offset 4 < 0x100000000 := by
  have less := leValue_lt ((buffer.drop offset).take 4)
  have four : ((buffer.drop offset).take 4).length ≤ 4 := List.length_take_le ..
  exact Nat.lt_of_lt_of_le less (Nat.pow_le_pow_right (by decide) four)

theorem wordFromEnd_eq (within : behind ≤ compressed.length) (four : 4 ≤ behind) :
    wordFromEnd compressed behind = .ok (field compressed (compressed.length - behind) 4) := by
  unfold wordFromEnd slice
  rw [if_neg (by omega), if_pos (by omega)]
  rfl

theorem wordFromEnd_short (short : compressed.length < behind) :
    wordFromEnd compressed behind = .error .undefinedBehaviour := if_pos short

theorem lzssGetDecompressedSize_eq (four : 4 ≤ compressed.length) :
    lzssGetDecompressedSize compressed = .ok (add32 (offsetSize compressed) compressed.length) := by
  unfold lzssGetDecompressedSize
  rw [wordFromEnd_eq four (Nat.le_refl 4)]
  rfl

theorem lzssDecompress_eq (footer : 8 ≤ compressed.length)
    (holds : compressed.length ≤ decompressed.length) :
    lzssDecompress fuel compressed decompressed = do
      let r ← LzssState.groups compressed
        (sub32 compressed.length (bufferBottom compressed)) fuel
        ⟨sub32 compressed.length (bufferTop compressed), decompressed.length,
          compressed ++ List.replicate (decompressed.length - compressed.length) 0⟩
      return (r.1, r.2.decompressed) := by
  unfold lzssDecompress Buffer.copyTo
  rw [wordFromEnd_eq footer (by decide)]
  dsimp only
  rw [List.length_replicate, if_pos holds, List.drop_replicate]
  rfl

theorem groups_outside {stopIndex : Nat} {s : LzssState} (running : stopIndex < s.index)
    (outside : compressed.length < s.index) (small : s.index < 0x100000000) :
    ¬ Answers (s.groups compressed stopIndex fuel) := by
  have place : sub32 s.index 1 = s.index - 1 := sub32_eq (by omega) small
  unfold LzssState.groups
  rw [if_pos running]
  cases fuel with
  | zero => exact not_answers_error _
  | succ fuel =>
    dsimp only
    rw [Buffer.get_of_le (by omega)]
    exact not_answers_error _

theorem lzssDecompress_answers (small : decompressed.length < 0x100000000)
    (footer : 8 ≤ compressed.length) (holds : compressed.length ≤ decompressed.length)
    (enough : compressed.length ≤ fuel) : Answers (lzssDecompress fuel compressed decompressed) ↔
      bufferTop compressed ≤ compressed.length ∨ compressed.length < bufferBottom compressed ∧
          bufferBottom compressed ≤ bufferTop compressed := by
  have top : bufferTop compressed < 0x100 := Nat.mod_lt _ (by decide)
  rw [lzssDecompress_eq footer holds, answers_return]
  rcases Nat.lt_or_ge compressed.length (bufferTop compressed) with long | fits
  · -- the first index wraps and lies behind the section
    have index : sub32 compressed.length (bufferTop compressed) =
        compressed.length + 0x100000000 - bufferTop compressed := by
      unfold sub32
      omega
    by_cases before : compressed.length < bufferBottom compressed ∧
        bufferBottom compressed ≤ bufferTop compressed
    · have stop : sub32 compressed.length (bufferBottom compressed) =
          compressed.length + 0x100000000 - bufferBottom compressed := by
        unfold sub32
        omega
      have ended : ¬ sub32 compressed.length (bufferBottom compressed) <
          sub32 compressed.length (bufferTop compressed) := by omega
      unfold LzssState.groups
      rw [if_neg ended]
      exact iff_of_true (answers_ok _) (.inr before)
    · refine iff_of_false (groups_outside ?_ ?_ ?_) (by omega)
      · dsimp only
        unfold sub32 at index ⊢
        omega
      · dsimp only
        omega
      · dsimp only
        omega
  · have index : sub32 compressed.length (bufferTop compressed) =
        compressed.length - bufferTop compressed := sub32_eq fits (by omega)
    refine iff_of_true (LzssState.groups_returns ⟨?_, ?_, ?_, ?_⟩ ?_).answers (.inl fits)
    · dsimp only
      omega
    · dsimp only
      rw [List.length_append, List.length_replicate]
      omega
    · omega
    · rw [List.length_append, List.length_replicate]
      omega
    · dsimp only
      omega

/-- The section is read, and the output written, inside the buffers just if the footer fits. -/
theorem loadCompressedCode_answers_iff (tempBuffer buffer : List UInt8) (fuel : Nat)
    (small : tempBuffer.length < 0x100000000) (enough : tempBuffer.length ≤ fuel) :
    Answers (loadCompressedCode fuel tempBuffer buffer) ↔ FooterFits tempBuffer := by
  unfold loadCompressedCode
  rcases Nat.lt_or_ge tempBuffer.length 8 with short | footer
  · refine iff_of_false ?_ fun fits => Nat.not_le_of_lt short fits.1
    rcases Nat.lt_or_ge tempBuffer.length 4 with shorter | four
    · unfold lzssGetDecompressedSize
      rw [wordFromEnd_short shorter]
      exact not_answers_error _
    · unfold lzssDecompress
      rw [lzssGetDecompressedSize_eq four, wordFromEnd_short short]
      exact not_answers_error _
  · have size : offsetSize tempBuffer < 0x100000000 := field_lt ..
    rw [lzssGetDecompressedSize_eq (by omega), ok_bind]
    rw [answers_return]
    rcases add32_cases size small with ⟨sum, less⟩ | ⟨_, wrapped⟩
    · rw [lzssDecompress_answers (by rw [Buffer.length_resize, sum]; exact less) footer
        (by rw [Buffer.length_resize]; omega) enough]
      exact ⟨fun fits => ⟨footer, less, fits⟩, fun fits => fits.2.2⟩
    · refine iff_of_false ?_ ?_
      · unfold lzssDecompress Buffer.copyTo
        rw [wordFromEnd_eq footer (by decide)]
        dsimp only
        rw [List.length_replicate, Buffer.length_resize, if_neg (Nat.not_le_of_lt wrapped)]
        exact not_answers_error _
      · rintro ⟨_, less, _⟩
        have sum := add32_eq less
        omega

/-- A byte, and three others that are repeated seven times. -/
def repeating : List UInt8 := [7, 18, 0, 0, 240, 1, 2, 3, 24, 16, 0, 0, 8, 8, 0, 0, 0]

theorem loadCompressedCode_answers_repeating : FooterFits repeating ∧
    loadCompressedCode 17 repeating [] =
      .ok (.success, 7 :: (List.replicate 8 [1, 2, 3]).flatten) := by
  have run : loadCompressedCode 17 repeating [] =
      .ok (.success, 7 :: (List.replicate 8 [1, 2, 3]).flatten) := by
    decide +kernel
  exact ⟨(loadCompressedCode_answers_iff repeating [] 17 (by decide) (by decide)).mp ⟨_, run⟩, run⟩

def shrinkingSection : List UInt8 := [0, 0, 0, 0, 0xFF, 0xFF, 0xFF, 0xFF]

theorem shrinkingSection_overflows : ¬ ∀ tempBuffer : List UInt8, tempBuffer.length < 0x100000000 →
      Answers (loadCompressedCode tempBuffer.length tempBuffer []) := by
  intro inside
  obtain ⟨r, run⟩ := inside shrinkingSection (by decide)
  exact nomatch (show loadCompressedCode 8 shrinkingSection [] = .error .undefinedBehaviour
    from by decide +kernel).symm.trans run

def Packable : Token UInt8 → Prop
  | .literal _ => True
  | .reference length distance => 3 ≤ length ∧ length ≤ 18 ∧ 3 ≤ distance ∧ distance ≤ 4098

instance (t : Token UInt8) : Decidable (Packable t) := by
  cases t with
  | literal b => exact inferInstanceAs (Decidable True)
  | reference length distance =>
    exact inferInstanceAs
      (Decidable (3 ≤ length ∧ length ≤ 18 ∧ 3 ≤ distance ∧ distance ≤ 4098))

def isReference : Token UInt8 → Bool
  | .literal _ => false
  | .reference _ _ => true

/-- The bytes of a token in the order of reading, which is from the end of the section down. -/
def tokenBytes : Token UInt8 → List UInt8
  | .literal b => [b]
  | .reference length distance => (leBytes 2 ((length - 3) * 0x1000 + (distance - 3))).reverse

def controlByte (flags : List Bool) : UInt8 :=
  (Nat.ofBits fun i : Fin 8 => flags.getD (7 - i) false).toUInt8

def packGroups : Nat → List (Token UInt8) → List UInt8
  | 0, _ => []
  | _ + 1, [] => []
  | groups + 1, t :: tokens =>
    controlByte (((t :: tokens).take 8).map isReference) ::
      ((t :: tokens).take 8).flatMap tokenBytes ++ packGroups groups ((t :: tokens).drop 8)

def pack (tokens : List (Token UInt8)) : List UInt8 := (packGroups tokens.length tokens).reverse

theorem tokenBytes_pos (t : Token UInt8) : 0 < (tokenBytes t).length := by
  cases t with
  | literal b => exact Nat.zero_lt_one
  | reference length distance =>
    exact Nat.zero_lt_succ 1

theorem length_le_tokenBytes (tokens : List (Token UInt8)) :
    tokens.length ≤ (tokens.flatMap tokenBytes).length := by
  induction tokens with
  | nil => exact Nat.zero_le _
  | cons t tokens ih =>
    have some := tokenBytes_pos t
    rw [List.flatMap_cons, List.length_append, List.length_cons]
    omega

theorem length_le_packGroups {groups : Nat} {tokens : List (Token UInt8)}
    (few : tokens.length ≤ groups) : tokens.length ≤ (packGroups groups tokens).length := by
  induction groups generalizing tokens with
  | zero => exact Nat.le_trans few (Nat.zero_le _)
  | succ groups ih =>
    cases tokens with
    | nil => exact Nat.zero_le _
    | cons t tokens =>
      have group := length_le_tokenBytes ((t :: tokens).take 8)
      have rest := @ih ((t :: tokens).drop 8)
        (by rw [List.length_drop] at *; omega)
      rw [packGroups, List.length_append, List.length_cons]
      rw [List.length_take, List.length_cons] at group
      rw [List.length_drop, List.length_cons] at rest
      rw [List.length_cons]
      omega

/-- A stored prefix and tokens that can be packed, with their expansion, where all sizes fit the
fields of the footer. -/
structure Packed where
  stored : List UInt8
  tokens : List (Token UInt8)
  expansion : List UInt8
  packable : ∀ t ∈ tokens, Packable t
  expands : expand tokens = some expansion
  tokensFit : (pack tokens).length + 8 < 0x1000000
  sectionFits : stored.length + (pack tokens).length + 8 < 0x100000000
  outputFits : stored.length + expansion.length < 0x100000000

namespace Packed

variable (p : Packed)

def footer : List UInt8 :=
  leBytes 4 (8 * 0x1000000 + ((pack p.tokens).length + 8)) ++
    leBytes 4 (sub32 (p.stored.length + p.expansion.length)
      (p.stored.length + (pack p.tokens).length + 8))

def bytes : List UInt8 := p.stored ++ pack p.tokens ++ p.footer

def Inverts : Prop :=
  lzssGetDecompressedSize p.bytes = .ok (p.stored.length + p.expansion.length) ∧
    ∀ fuel buffer, p.bytes.length ≤ fuel →
      buffer.length = p.stored.length + p.expansion.length →
      lzssDecompress fuel p.bytes buffer = .ok (true, p.stored ++ p.expansion)

end Packed

namespace LzssState

def behind (base : List UInt8) (index : Nat) (output : List UInt8) : LzssState where
  index
  out := base.length - output.length
  decompressed := base.take (base.length - output.length) ++ output

variable {base output output' stored stream : List UInt8} {index : Nat} {t : Token UInt8}

theorem length_behind (room : output.length ≤ base.length) :
    (behind base index output).decompressed.length = base.length := by
  unfold behind
  rw [List.length_append, List.length_take]
  omega

theorem put_behind (room : output.length < base.length) (small : base.length < 0x100000000)
    (data : UInt8) :
    (behind base index output).put data = .ok (behind base index (data :: output)) := by
  obtain ⟨n, more⟩ : ∃ n, base.length - output.length = n + 1 :=
    ⟨base.length - output.length - 1, by omega⟩
  have less : n < base.length := by omega
  have one : sub32 (n + 1) 1 = n := sub32_eq (Nat.le_add_left 1 n) (by omega)
  have left : base.length - (data :: output).length = n := by
    rw [List.length_cons]
    omega
  have front : (base.take n).length = n := List.length_take_of_le (Nat.le_of_lt less)
  have write := Buffer.set_before (base.take n) output (base.get ⟨n, less⟩) data
  rw [front] at write
  unfold put behind
  rw [more, left, one, List.take_succ_eq_append_getElem less]
  rw [← List.get_eq_getElem (i := ⟨n, less⟩), write]
  rfl

theorem copySegment_behind (small : base.length < 0x100000000)
    (copied : copyBehind distance length output = some output')
    (room : output'.length ≤ base.length) :
    (behind base index output).copySegment (distance - 1) length =
      .ok (true, behind base index output') := by
  induction length generalizing output with
  | zero =>
    obtain rfl := Option.some.inj copied
    rfl
  | succ length ih =>
    have grown := length_copyBehind copied
    obtain ⟨a, found, copied⟩ := Option.bind_eq_some_iff.mp copied
    obtain ⟨within, _⟩ := List.getElem?_eq_some_iff.mp found
    have place : add32 (base.length - output.length) (distance - 1) =
        base.length - output.length + (distance - 1) := add32_eq (by omega)
    have front : (base.take (base.length - output.length)).length =
        base.length - output.length := List.length_take_of_le (Nat.sub_le ..)
    have read : (behind base index output).decompressed[base.length - output.length +
        (distance - 1)]? = some a := by
      unfold behind
      rw [List.getElem?_append_right (by omega), front, Nat.add_sub_cancel_left]
      exact found
    unfold copySegment
    rw [length_behind (by omega)]
    show (if base.length ≤ add32 (base.length - output.length) (distance - 1) then _ else _) = _
    rw [if_neg (by omega)]
    show (Buffer.get (behind base index output).decompressed
      (add32 (base.length - output.length) (distance - 1)) >>= _) = _
    rw [place, Buffer.get_eq_ok read, ok_bind, put_behind (by omega) small]
    exact ih copied

structure Ahead (compressed stored : List UInt8) (index : Nat) (stream : List UInt8) : Prop where
  front : compressed.take index = stored ++ stream.reverse
  index : index = stored.length + stream.length

theorem Ahead.cons (h : Ahead compressed stored index (b :: stream)) :
    Buffer.get compressed (index - 1) = .ok b ∧ Ahead compressed stored (index - 1) stream := by
  have front := h.front
  have place := h.index
  rw [List.reverse_cons, ← List.append_assoc] at front
  rw [List.length_cons] at place
  have last : (compressed.take index)[index - 1]? = some b := by
    rw [front, List.getElem?_append_right (by rw [List.length_append, List.length_reverse]; omega),
      List.length_append, List.length_reverse,
      show index - 1 - (stored.length + stream.length) = 0 by omega]
    rfl
  refine ⟨Buffer.get_eq_ok ?_, ?_, by omega⟩
  · rwa [List.getElem?_take_of_lt (by omega)] at last
  · have shorter := congrArg (List.take (index - 1)) front
    rwa [List.take_take, Nat.min_eq_left (Nat.sub_le index 1), List.take_left' (by
      rw [List.length_append, List.length_reverse]; omega)] at shorter

theorem literal_behind (small : base.length < 0x100000000)
    (ahead : Ahead compressed stored index (b :: stream)) (within : index < 0x100000000)
    (room : output.length < base.length) : (behind base index output).literal compressed =
      .ok (true, behind base (index - 1) (b :: output)) := by
  have place := ahead.index
  rw [List.length_cons] at place
  have out : ¬ (behind base index output).out < 1 := by
    unfold behind
    dsimp only
    omega
  have one : sub32 (behind base index output).index 1 = index - 1 :=
    sub32_eq (by show 1 ≤ index; omega) within
  unfold literal
  rw [if_neg out, one]
  dsimp only
  rw [ahead.cons.1, ok_bind]
  show (behind base (index - 1) output).put b >>= _ = _
  rw [put_behind room small]
  rfl

theorem reference_bytes (packable : Packable (.reference length distance)) :
    ∃ low high, tokenBytes (.reference length distance) = [high, low] ∧
      leValue [low, high] / 0x1000 % 16 + 3 = length ∧
      leValue [low, high] % 0x1000 + 2 = distance - 1 := by
  obtain ⟨three, eighteen, three', most⟩ := packable
  have value := leValue_leBytes 2 ((length - 3) * 0x1000 + (distance - 3))
  refine ⟨_, _, rfl, ?_, ?_⟩
  · show leValue (leBytes 2 ((length - 3) * 0x1000 + (distance - 3))) / 0x1000 % 16 + 3 = length
    omega
  · show leValue (leBytes 2 ((length - 3) * 0x1000 + (distance - 3))) % 0x1000 + 2 = distance - 1
    omega

theorem segment_behind (small : base.length < 0x100000000)
    (packable : Packable (.reference length distance))
    (ahead : Ahead compressed stored index (tokenBytes (.reference length distance) ++ stream))
    (copied : copyBehind distance length output = some output')
    (room : output'.length ≤ base.length) : (behind base index output).segment compressed =
      .ok (true, behind base (index - 2) output') := by
  obtain ⟨low, high, bytes, size, offset⟩ := reference_bytes packable
  have grown := length_copyBehind copied
  rw [bytes] at ahead
  have place := ahead.index
  rw [List.length_append, List.length_cons, List.length_singleton] at place
  obtain ⟨readHigh, ahead⟩ := ahead.cons
  obtain ⟨readLow, _⟩ := ahead.cons
  have enough : ¬ (behind base index output).index < 2 := by
    show ¬ index < 2
    omega
  have lowIndex : index - 1 - 1 = index - 2 := by omega
  have highIndex : index - 2 + 1 = index - 1 := by omega
  rw [lowIndex] at readLow
  unfold segment
  rw [if_neg enough]
  show (Buffer.get compressed (index - 2) >>= fun low =>
    Buffer.get compressed (index - 2 + 1) >>= _) = _
  rw [highIndex, readLow, ok_bind, readHigh, ok_bind]
  dsimp only
  rw [size, offset, if_neg (by
    show ¬ base.length - output.length < length
    omega)]
  exact copySegment_behind small copied room

theorem token_behind {control : UInt8} (small : base.length < 0x100000000) (packable : Packable t)
    (flag : control &&& 0x80 ≠ 0 ↔ isReference t = true)
    (ahead : Ahead compressed stored index (tokenBytes t ++ stream)) (within : index < 0x100000000)
    (applied : t.apply output = some output') (room : output'.length ≤ base.length) :
    (behind base index output).token compressed control =
        .ok (true, behind base (stored.length + stream.length) output') ∧
      Ahead compressed stored (stored.length + stream.length) stream := by
  have place := ahead.index
  unfold token
  cases t with
  | literal b =>
    obtain rfl := Option.some.inj applied
    have less : index - 1 = stored.length + stream.length := by
      rw [List.length_append] at place
      simp only [tokenBytes, List.length_singleton] at place
      omega
    rw [if_neg (by rw [flag]; exact Bool.false_ne_true), literal_behind small ahead within
      (by exact room), less]
    exact ⟨rfl, less ▸ ahead.cons.2⟩
  | reference length distance =>
    obtain ⟨low, high, bytes, -, -⟩ := reference_bytes packable
    have less : index - 2 = stored.length + stream.length := by
      rw [List.length_append, bytes, List.length_cons, List.length_singleton] at place
      omega
    rw [if_pos (flag.mpr rfl), segment_behind small packable ahead applied room, less]
    have after := ahead.cons.2.cons.2
    rw [show index - 1 - 1 = stored.length + stream.length by omega] at after
    exact ⟨rfl, after⟩

end LzssState

def Flags (left : Nat) (control : UInt8) (flags : List Bool) : Prop :=
  ∀ j < left, control.toNat.testBit (7 - j) = flags.getD j false

theorem flags_controlByte (flags : List Bool) : Flags 8 (controlByte flags) flags := by
  intro j less
  have value : (controlByte flags).toNat =
      Nat.ofBits fun i : Fin 8 => flags.getD (7 - i) false := by
    rw [controlByte, UInt8.toNat_ofNat', Nat.mod_eq_of_lt (Nat.ofBits_lt_two_pow _)]
  rw [value, Nat.testBit_ofBits_lt _ _ (by omega)]
  congr 1
  show 7 - (7 - j) = j
  omega

theorem Flags.head {control : UInt8} {f : Bool} (h : Flags (left + 1) control (f :: flags)) :
    control &&& 0x80 ≠ 0 ↔ f = true := by
  have bit : ∀ c : Fin 256, (UInt8.ofNat c &&& 0x80 ≠ 0) ↔ c.val.testBit 7 = true := by
    decide +kernel
  have first := h 0 (Nat.zero_lt_succ left)
  have same := bit ⟨control.toNat, control.toNat_lt⟩
  rw [UInt8.ofNat_toNat] at same
  rw [same]
  exact iff_of_eq (congrArg (· = true) first)

theorem Flags.tail {control : UInt8} {f : Bool} (few : left < 8)
    (h : Flags (left + 1) control (f :: flags)) : Flags left (control <<< 1) flags := by
  intro j less
  have next := h (j + 1) (Nat.succ_lt_succ less)
  rw [UInt8.toNat_shiftLeft, Nat.testBit_mod_two_pow, Nat.testBit_shiftLeft]
  have low : (1 : UInt8).toNat % 8 = 1 := rfl
  rw [low, decide_eq_true (show 7 - j < 8 by omega),
    decide_eq_true (show 1 ≤ 7 - j by omega)]
  congr 1

namespace LzssState

variable {base output output' stored stream : List UInt8} {index : Nat}
  {tokens : List (Token UInt8)}

theorem group_behind {control : UInt8} (eight : left ≤ 8) (small : base.length < 0x100000000)
    (packable : ∀ t ∈ tokens, Packable t) (few : tokens.length ≤ left)
    (ends : tokens.length = left ∨ stream = [])
    (flags : Flags left control (tokens.map isReference))
    (ahead : Ahead compressed stored index (tokens.flatMap tokenBytes ++ stream))
    (within : index < 0x100000000) (expanded : expandFrom output tokens = some output')
    (room : output'.length ≤ base.length) :
    (behind base index output).group compressed stored.length left control =
        .ok (true, behind base (stored.length + stream.length) output') ∧
      Ahead compressed stored (stored.length + stream.length) stream := by
  induction tokens generalizing left control index output with
  | nil =>
    obtain rfl := Option.some.inj expanded
    have place := ahead.index
    subst place
    refine ⟨?_, ahead⟩
    rcases ends with rfl | rfl
    · rfl
    · cases left with
      | zero => rfl
      | succ left =>
        exact if_pos (Nat.le_refl _)
  | cons t tokens ih =>
    obtain ⟨left, rfl⟩ : ∃ n, left = n + 1 :=
      ⟨left - 1, by rw [List.length_cons] at few; omega⟩
    obtain ⟨middle, applied, expanded⟩ := expandFrom_cons.mp expanded
    have packable_t := packable t (List.mem_cons_self ..)
    have grown := length_apply applied
    have rest := length_expandFrom expanded
    have some : 0 < t.length := by
      cases t with
      | literal b => exact Nat.zero_lt_one
      | reference length distance => exact Nat.lt_of_lt_of_le (by decide) packable_t.1
    rw [List.flatMap_cons, List.append_assoc] at ahead
    have place := ahead.index
    have bytes := tokenBytes_pos t
    rw [List.length_append] at place
    obtain ⟨step, ahead⟩ := token_behind small packable_t flags.head ahead within applied
      (Nat.le_trans rest room)
    obtain ⟨run, after⟩ := ih (by omega) (fun t member => packable t (List.mem_cons_of_mem _ member))
      (Nat.le_of_succ_le_succ few) (ends.imp_left Nat.succ.inj) (flags.tail (by omega)) ahead
      (by omega) expanded
    refine ⟨?_, after⟩
    unfold group
    rw [if_neg (by show ¬ index ≤ stored.length; omega), if_neg (by show ¬ index ≤ 0; omega),
      if_neg (by show ¬ base.length - output.length ≤ 0; omega), step]
    exact run

theorem groups_behind {groupCount fuel : Nat} (small : base.length < 0x100000000)
    (packable : ∀ t ∈ tokens, Packable t) (few : tokens.length ≤ groupCount)
    (ahead : Ahead compressed stored index (packGroups groupCount tokens))
    (within : index < 0x100000000) (enough : tokens.length ≤ fuel)
    (expanded : expandFrom output tokens = some output') (room : output'.length ≤ base.length) :
    (behind base index output).groups compressed stored.length fuel =
      .ok (true, behind base stored.length output') := by
  induction groupCount generalizing tokens index output fuel with
  | zero =>
    obtain rfl : tokens = [] := List.eq_nil_of_length_eq_zero (Nat.le_zero.mp few)
    obtain rfl := Option.some.inj expanded
    obtain rfl := ahead.index
    unfold groups
    exact if_neg (Nat.lt_irrefl _)
  | succ groupCount ih =>
    cases tokens with
    | nil =>
      obtain rfl := Option.some.inj expanded
      obtain rfl := ahead.index
      unfold groups
      exact if_neg (Nat.lt_irrefl _)
    | cons t tokens =>
      obtain ⟨fuel, rfl⟩ : ∃ n, fuel = n + 1 :=
        ⟨fuel - 1, by rw [List.length_cons] at enough; omega⟩
      generalize all : t :: tokens = whole at *
      have stream : packGroups (groupCount + 1) whole =
          controlByte ((whole.take 8).map isReference) ::
            ((whole.take 8).flatMap tokenBytes ++ packGroups groupCount (whole.drop 8)) := by
        rw [← all]
        rfl
      rw [stream] at ahead
      have place := ahead.index
      rw [List.length_cons] at place
      obtain ⟨read, ahead⟩ := ahead.cons
      rw [← List.take_append_drop 8 whole, expandFrom_append] at expanded
      obtain ⟨middle, first, expanded⟩ := Option.bind_eq_some_iff.mp expanded
      have rest := length_expandFrom expanded
      have ends : (whole.take 8).length = 8 ∨ packGroups groupCount (whole.drop 8) = [] := by
        rcases Nat.lt_or_ge whole.length 8 with short | eight
        · rw [List.drop_eq_nil_of_le (Nat.le_of_lt short)]
          cases groupCount <;> exact .inr rfl
        · exact .inl (List.length_take_of_le eight)
      obtain ⟨run, ahead⟩ := group_behind (Nat.le_refl 8) small
        (fun t member => packable t (List.mem_of_mem_take member)) (List.length_take_le ..) ends
        (flags_controlByte _) ahead (by omega) first (Nat.le_trans rest room)
      have one : sub32 index 1 = index - 1 := sub32_eq (by omega) within
      unfold groups
      rw [if_pos (by show stored.length < index; omega)]
      show (Buffer.get compressed (sub32 index 1) >>= fun control =>
        (behind base (sub32 index 1) output).group compressed stored.length 8 control >>= _) = _
      rw [one, read, ok_bind, run]
      exact ih (fun t member => packable t (List.mem_of_mem_drop member))
        (by rw [List.length_drop]; omega) ahead
        (by rw [List.length_append] at place; omega) (by rw [List.length_drop]; omega) expanded

end LzssState

namespace Packed

variable (p : Packed)

theorem length_footer : p.footer.length = 8 := by
  unfold footer
  rw [List.length_append, length_leBytes, length_leBytes]

theorem length_bytes : p.bytes.length = p.stored.length + (pack p.tokens).length + 8 := by
  unfold bytes
  rw [List.length_append, List.length_append, length_footer]

theorem field_bytes {i : Nat} (front : List UInt8) {value : Nat} (back : List UInt8)
    (split : p.bytes = front ++ leBytes 4 value ++ back) (place : front.length = i)
    (small : value < 0x100000000) : field p.bytes i 4 = value := by
  unfold field
  rw [split, List.append_assoc, ← place, List.drop_left, List.take_left' (length_leBytes 4 value),
    leValue_leBytes]
  exact Nat.mod_eq_of_lt small

theorem footerWord : field p.bytes (p.bytes.length - 8) 4 =
    8 * 0x1000000 + ((pack p.tokens).length + 8) := by
  have fits := p.tokensFit
  refine p.field_bytes (p.stored ++ pack p.tokens) _ (List.append_assoc ..).symm ?_ (by omega)
  rw [length_bytes, List.length_append]
  omega

theorem offsetSize_bytes : offsetSize p.bytes = sub32 (p.stored.length + p.expansion.length)
      (p.stored.length + (pack p.tokens).length + 8) := by
  refine p.field_bytes (p.stored ++ pack p.tokens ++ leBytes 4 (8 * 0x1000000 +
    ((pack p.tokens).length + 8))) [] ?_ ?_ (Nat.mod_lt _ (by decide))
  · unfold bytes footer
    rw [List.append_nil, List.append_assoc, List.append_assoc, List.append_assoc]
  · rw [length_bytes, List.length_append, List.length_append, length_leBytes]
    omega

theorem getDecompressedSize : lzssGetDecompressedSize p.bytes =
    .ok (p.stored.length + p.expansion.length) := by
  have fits := p.outputFits
  have fits' := p.sectionFits
  rw [lzssGetDecompressedSize_eq (by rw [length_bytes]; omega), offsetSize_bytes, length_bytes]
  congr 1
  unfold add32 sub32
  omega

/-- The section is decompressed to what was packed just if packing has saved the footer's size. -/
theorem inverts_iff : p.Inverts ↔ (pack p.tokens).length + 8 ≤ p.expansion.length := by
  have tokensFit := p.tokensFit
  have outputFits := p.outputFits
  have size := p.length_bytes
  constructor
  · rintro ⟨-, inverts⟩
    by_contra longer
    have run := inverts p.bytes.length (List.replicate (p.stored.length + p.expansion.length) 0)
      (Nat.le_refl _) List.length_replicate
    have stops : lzssDecompress p.bytes.length p.bytes
        (List.replicate (p.stored.length + p.expansion.length) 0) =
          .error .undefinedBehaviour := by
      unfold lzssDecompress Buffer.copyTo
      rw [wordFromEnd_eq (by omega) (by decide)]
      dsimp only
      rw [List.length_replicate, List.length_replicate, if_neg (by omega)]
      rfl
    exact nomatch stops.symm.trans run
  · intro saves
    refine ⟨p.getDecompressedSize, ?_⟩
    intro fuel buffer enough length
    have holds : p.bytes.length ≤ buffer.length := by omega
    have top : bufferTop p.bytes = 8 := by
      unfold bufferTop
      rw [footerWord]
      omega
    have bottom : bufferBottom p.bytes = (pack p.tokens).length + 8 := by
      unfold bufferBottom
      rw [footerWord]
      omega
    have index : sub32 p.bytes.length 8 = p.stored.length + (pack p.tokens).length := by
      rw [sub32_eq (by omega) (by omega)]
      omega
    have stop : sub32 p.bytes.length ((pack p.tokens).length + 8) = p.stored.length := by
      rw [sub32_eq (by omega) (by omega)]
      omega
    have base : (p.bytes ++ List.replicate (buffer.length - p.bytes.length) 0).length =
        p.stored.length + p.expansion.length := by
      rw [List.length_append, List.length_replicate]
      omega
    have ahead : LzssState.Ahead p.bytes p.stored (p.stored.length + (pack p.tokens).length)
        (packGroups p.tokens.length p.tokens) := by
      refine ⟨?_, by rw [pack, List.length_reverse]⟩
      exact List.take_left' (List.length_append ..)
    have start : (⟨p.stored.length + (pack p.tokens).length, buffer.length,
        p.bytes ++ List.replicate (buffer.length - p.bytes.length) 0⟩ : LzssState) =
        .behind (p.bytes ++ List.replicate (buffer.length - p.bytes.length) 0)
          (p.stored.length + (pack p.tokens).length) [] := by
      unfold LzssState.behind
      rw [base, List.length_nil, Nat.sub_zero, ← base, List.take_length, List.append_nil, base,
        length]
    have tokens : p.tokens.length ≤ (pack p.tokens).length := by
      rw [pack, List.length_reverse]
      exact length_le_packGroups (Nat.le_refl _)
    rw [lzssDecompress_eq (by omega) holds, top, bottom, index, stop, start,
      LzssState.groups_behind (by omega) p.packable (Nat.le_refl _) ahead (by omega) (by omega)
        p.expands (by omega)]
    show Except.ok (true, (LzssState.behind _ p.stored.length p.expansion).decompressed) = _
    unfold LzssState.behind
    rw [base, Nat.add_sub_cancel_right]
    unfold bytes
    rw [List.append_assoc, List.append_assoc, List.take_left' rfl]

/-- Nothing but a footer, which is longer than the nothing that it stands for. -/
def footerOnly : Packed := ⟨[], [], [], nofun, rfl, by decide, by decide, by decide⟩

theorem footerOnly_overflows : ¬ ∀ p : Packed, p.Inverts := by
  intro inverts
  have run := (inverts footerOnly).2 8 [] (by decide) rfl
  exact nomatch (show lzssDecompress 8 footerOnly.bytes [] = .error .undefinedBehaviour
    from by decide +kernel).symm.trans run

-- three letters and two references that repeat them
example : (⟨[7], [.literal 3, .literal 2, .literal 1, .reference 18 3, .reference 3 21],
    [1, 2, 3, 1, 2, 3, 1, 2, 3, 1, 2, 3, 1, 2, 3, 1, 2, 3, 1, 2, 3, 1, 2, 3],
    by decide, by decide, by decide, by decide, by decide⟩ : Packed).bytes =
      [7, 18, 0, 0, 240, 1, 2, 3, 24, 16, 0, 0, 8, 8, 0, 0, 0] := by
  decide +kernel

end Packed

end EmuThreeDS.FileSys
