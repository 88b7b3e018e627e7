import EmuThreeDS.Exec
import Mathlib.Tactic.Ring

/-!
# Interpolation of samples (`interpolate.cpp`)

The position is a fixed point number with 24 fractional bits. The step from one output to the
next, `static_cast<u64>(rate * scale_factor)`, is taken as a number.
-/
namespace EmuThreeDS.AudioInterp

structure Sample where
  left : Int16
  right : Int16

structure State where
  xn1 : Sample
  xn2 : Sample
  fposition : UInt64

def scaleFactor : UInt64 := 0x1000000

def scaleMask : UInt64 := scaleFactor - 1

/-- `static_cast<u64>` of a signed number. -/
def toU64 (i : Int) : UInt64 := UInt64.ofNat (i % 2 ^ 64).toNat

def toS16 (u : UInt64) : Int16 := u.toUInt16.toInt16

/-- `std::clamp<s64>(d, -32768, 32767)` -/
def clamp16 (d : Int) : Int := if d < -32768 then -32768 else if 32767 < d then 32767 else d

/-- One channel of the linear interpolation, all of it in `u64`. -/
def lerp (fraction : UInt64) (x0 x1 : Int16) : Int16 :=
  toS16 (toU64 x0.toInt + fraction * toU64 (clamp16 (x1.toInt - x0.toInt)) / scaleFactor)

abbrev Filter := UInt64 → Sample → Sample → Sample → Sample

def holdSample : Filter := fun _ x0 _ _ => x0

def linearSample : Filter := fun fraction x0 x1 _ =>
  ⟨lerp fraction x0.left x1.left, lerp fraction x0.right x1.right⟩

structure Stepped where
  fposition : UInt64
  inputi : Nat
  output : List Sample
  outputi : Nat

def stepLoop (fn : Filter) (input : List Sample) (stepSize : UInt64) :
    (room : Nat) → Stepped → Stepped
  | 0, s => s
  | room + 1, s =>
    let inputi := (s.fposition / scaleFactor).toNat
    if h : inputi + 2 < input.length then
      let fraction := s.fposition &&& scaleMask
      stepLoop fn input stepSize room
        { fposition := s.fposition + stepSize
          inputi := inputi
          output := s.output.set s.outputi
            (fn fraction input[inputi] input[inputi + 1] input[inputi + 2])
          outputi := s.outputi + 1 }
    else { s with inputi := input.length - 2 }

/-- `StepOverSamples`: the new state, what is left of the input, the output and its index. -/
def stepOverSamples (fn : Filter) (stepSize : UInt64) (state : State) (input : List Sample)
    (output : List Sample) (outputi : Nat) : State × List Sample × List Sample × Nat :=
  if input = [] then (state, input, output, outputi)
  else
    let input := state.xn2 :: state.xn1 :: input
    let s := stepLoop fn input stepSize (output.length - outputi)
      { fposition := state.fposition, inputi := 0, output, outputi }
    ({ xn2 := input.getD s.inputi state.xn2
       xn1 := input.getD (s.inputi + 1) state.xn1
       fposition := s.fposition - UInt64.ofNat s.inputi * scaleFactor },
      input.drop (s.inputi + 2), s.output, s.outputi)

theorem toNat_toU64 (i : Int) : ((toU64 i).toNat : Int) = i % 2 ^ 64 := by
  unfold toU64
  rw [UInt64.toNat_ofNat']
  omega

theorem toInt_toS16 (u : UInt64) : (toS16 u).toInt = Int.bmod u.toNat (2 ^ 16) := by
  change (BitVec.setWidth 16 u.toBitVec).toInt = _
  rw [BitVec.toInt_eq_toNat_bmod, BitVec.toNat_setWidth, Int.natCast_emod]
  exact Int.emod_bmod _ _

theorem clamp16_bounds (d : Int) : -32768 ≤ clamp16 d ∧ clamp16 d ≤ 32767 := by
  unfold clamp16
  split_ifs
  · omega
  · omega
  · omega

theorem wrapped_quotient (fraction : UInt64) (d : Int) :
    ((fraction * toU64 d / scaleFactor).toNat : Int) = (fraction.toNat * d) % 2 ^ 64 / 2 ^ 24 := by
  have product : ((fraction * toU64 d).toNat : Int) = (fraction.toNat * d) % 2 ^ 64 := by
    rw [UInt64.toNat_mul, Int.natCast_emod, Int.natCast_mul, toNat_toU64]
    change (fraction.toNat : Int) * (d % 2 ^ 64) % 2 ^ 64 = _
    rw [Int.mul_emod, Int.emod_emod, ← Int.mul_emod]
  rw [UInt64.toNat_div, Int.natCast_ediv, product]
  rfl

theorem quotient_between {f : Nat} (small : f < 2 ^ 24) (d : Int) :
    (0 ≤ d → 0 ≤ f * d / 2 ^ 24 ∧ f * d / 2 ^ 24 ≤ d) ∧
      (d ≤ 0 → d ≤ f * d / 2 ^ 24 ∧ f * d / 2 ^ 24 ≤ 0) := by
  have low : (0 : Int) ≤ f := Int.natCast_nonneg f
  have high : (f : Int) ≤ 2 ^ 24 := by omega
  constructor
  · intro up
    have := Int.mul_nonneg low up
    have := Int.mul_le_mul_of_nonneg_right high up
    omega
  · intro down
    have := Int.mul_nonpos_of_nonneg_of_nonpos low down
    have := Int.mul_le_mul_of_nonpos_right high down
    omega

/-- The sum of the wrapped sample and the wrapped quotient differs from the true sum by a multiple
of `b`, when the word has `a * (b * m)` values. -/
theorem wrapped_sum (x p : Int) {a b m N : Int} (pos : a ≠ 0) (word : N = a * (b * m)) :
    ∃ k, (x % N + p % N / a) % N = x + p / a + k * b := by
  have quotient : p % N / a = p / a - b * m * (p / N) := by
    rw [Int.emod_def, word, Int.mul_assoc a, Int.sub_mul_ediv_left _ _ pos]
  rw [quotient, Int.emod_def (_ + _) N, Int.emod_def x N]
  refine ⟨-(a * m * (x / N)) - m * (p / N) -
    a * m * ((x - N * (x / N) + (p / a - b * m * (p / N))) / N), ?_⟩
  rw [word]
  ring

theorem toInt_lerp {fraction : UInt64} (small : fraction.toNat < 2 ^ 24) (x0 x1 : Int16) :
    (lerp fraction x0 x1).toInt =
      x0.toInt + fraction.toNat * clamp16 (x1.toInt - x0.toInt) / 2 ^ 24 := by
  have lowest := x0.le_toInt
  have highest := x0.toInt_lt
  have lowest' := x1.le_toInt
  have highest' := x1.toInt_lt
  have between := quotient_between small (clamp16 (x1.toInt - x0.toInt))
  obtain ⟨k, sum⟩ := wrapped_sum x0.toInt (fraction.toNat * clamp16 (x1.toInt - x0.toInt))
    (a := 2 ^ 24) (b := 2 ^ 16) (m := 2 ^ 24) (N := 2 ^ 64) (by decide) (by decide)
  rw [lerp, toInt_toS16, UInt64.toNat_add, Int.natCast_emod, Int.natCast_add, toNat_toU64,
    wrapped_quotient]
  change Int.bmod ((_ % 2 ^ 64 + _ % 2 ^ 64 / 2 ^ 24) % 2 ^ 64) (2 ^ 16) = _
  rw [sum]
  change Int.bmod (_ + k * ((2 ^ 16 : Nat) : Int)) (2 ^ 16) = _
  rw [Int.add_mul_bmod_self_right]
  generalize (fraction.toNat : Int) * clamp16 (x1.toInt - x0.toInt) / 2 ^ 24 = q at between ⊢
  have fits : -32768 ≤ x0.toInt + q ∧ x0.toInt + q < 32768 := by
    unfold clamp16 at between
    split_ifs at between
    · omega
    · omega
    · omega
  exact Int.bmod_eq_of_le fits.1 fits.2

theorem lerp_between {fraction : UInt64} (small : fraction.toNat < 2 ^ 24) (x0 x1 : Int16) :
    min x0.toInt x1.toInt ≤ (lerp fraction x0 x1).toInt ∧
      (lerp fraction x0 x1).toInt ≤ max x0.toInt x1.toInt := by
  have between := quotient_between small (clamp16 (x1.toInt - x0.toInt))
  rw [toInt_lerp small]
  generalize (fraction.toNat : Int) * clamp16 (x1.toInt - x0.toInt) / 2 ^ 24 = q at between ⊢
  unfold clamp16 at between
  split_ifs at between
  · omega
  · omega
  · omega

end EmuThreeDS.AudioInterp

/-!
## Sources of the audio DSP (`source.cpp`)

Buffers wait decoded and in the order in which `DequeueBuffer` takes them. The filters behind
the resampling and the status words for the application are left out.
-/
namespace EmuThreeDS

open AudioInterp

/-- A queued buffer: its `length` is a `u32`, which decoding rounds up to an even number. -/
structure AudioBuffer where
  samples : List Sample
  nonempty : samples ≠ []
  bounded : samples.length ≤ 2 ^ 32

inductive InterpolationMode where
  | polyphase
  | linear
  | none

structure Source where
  inputQueue : List AudioBuffer
  currentBuffer : List Sample
  stepSize : UInt64
  interpolationMode : InterpolationMode
  interpState : State

variable (s : Source)

namespace Source

def silence : Sample := ⟨0, 0⟩

/-- There is no polyphase interpolation yet. -/
def filter : Filter :=
  match s.interpolationMode with
  | .none => holdSample
  | .linear => linearSample
  | .polyphase => linearSample

/-- Every caller has seen that the current buffer is empty. -/
def dequeueBuffer : Option Source :=
  match s.inputQueue with
  | [] => none
  | b :: rest => some { s with inputQueue := rest, currentBuffer := b.samples }

/-- `current_buffer.empty() && !DequeueBuffer()` is `none`. -/
def refill : Option Source :=
  if s.currentBuffer = [] then s.dequeueBuffer else some s

/-- One turn of the loop of `GenerateFrame` after the refill. -/
def interpolate (frame : List Sample) (position : Nat) : Source × List Sample × Nat :=
  let (state, rest, frame, position) :=
    stepOverSamples s.filter s.stepSize s.interpState s.currentBuffer frame position
  ({ s with interpState := state, currentBuffer := rest }, frame, position)

def frameLoop : (fuel : Nat) → Source → List Sample → Nat → Exec (Source × List Sample × Nat)
  | 0, _, _, _ => .error .outOfFuel
  | fuel + 1, s, frame, position =>
    if position < frame.length then
      match s.refill with
      | none => .ok (s, frame, position)
      | some s =>
        let (s, frame, position) := s.interpolate frame position
        frameLoop fuel s frame position
    else .ok (s, frame, position)

def generateFrame (length : Nat) : Exec (Source × List Sample × Nat) :=
  let frame := List.replicate length silence
  match s.refill with
  | none => .ok (s, frame, 0)
  | some s => frameLoop (s.inputQueue.length + 2) s frame 0

end Source

/-- Buffers come in whenever they like, and frames of any length are asked for. -/
inductive PlaybackEvent where
  | enqueue (b : AudioBuffer)
  | generateFrame (length : Nat)

structure Playback where
  source : Source
  stream : List Sample
  produced : List Sample

namespace Playback

def step (p : Playback) : PlaybackEvent → Exec Playback
  | .enqueue b => .ok
    { p with
      source := { p.source with inputQueue := p.source.inputQueue ++ [b] }
      stream := p.stream ++ b.samples }
  | .generateFrame length => do
    let (source, frame, position) ← p.source.generateFrame length
    .ok { p with source := source, produced := p.produced ++ frame.take position }

def run (p : Playback) (events : List PlaybackEvent) : Exec Playback := events.foldlM step p

def start (mode : InterpolationMode) (stepSize : UInt64) (state : State) : Playback where
  source :=
    { inputQueue := [], currentBuffer := [], stepSize, interpolationMode := mode,
      interpState := state }
  stream := [state.xn2, state.xn1]
  produced := []

end Playback

end EmuThreeDS
