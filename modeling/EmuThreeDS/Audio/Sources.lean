import EmuThreeDS.Audio.Codec
import EmuThreeDS.Lib.BinaryHeap
import EmuThreeDS.Lib.StepLoop

/-!
# Sources of the audio DSP (`hle/source.cpp`, `hle/filter.cpp`)

A tick takes a configuration from the application, makes a frame where the source is enabled, and
returns a status. All flags of the configuration are clear afterwards. The gains and the mixing
are left out.
-/
namespace EmuThreeDS.HLE

open AudioInterp BinaryHeap
open Codec (ADPCMState int)

def samplesPerFrame : Nat := 160

def silence : Sample := ⟨0, 0⟩

/-- `float` without NaN, with `rate <= 0`, `static_cast<u64>(rate * scale_factor)` and
`static_cast<u32>(n * rate)`. -/
class Rate (ρ : Type) where
  one : ρ
  nonpositive : ρ → Bool
  stepSize : ρ → UInt64
  advance : Nat → ρ → UInt32

def weigh (terms : List (Int × Int16)) : Exec Int :=
  terms.foldlM (fun sum term => do int (sum + (← int (term.1 * term.2.toInt)))) 0

def filterFrame {F : Type} (processSample : F → Sample → Exec (F × Sample)) :
    F → List Sample → Exec (F × List Sample)
  | filter, [] => .ok (filter, [])
  | filter, x :: xs => do
    let (filter, y) ← processSample filter x
    let (filter, ys) ← filterFrame processSample filter xs
    return (filter, y :: ys)

structure SimpleFilter where
  a1 : Int
  b0 : Int
  y1 : Sample

namespace SimpleFilter

def reset : SimpleFilter := ⟨0, 2 ^ 15, silence⟩

def channel (f : SimpleFilter) (x0 y1 : Int16) : Exec Int16 := do
  let tmp ← weigh [(f.b0, x0), (f.a1, y1)]
  return .ofInt (clamp16 (tmp / 2 ^ 15))

def processSample (f : SimpleFilter) (x0 : Sample) : Exec (SimpleFilter × Sample) := do
  let left ← f.channel x0.left f.y1.left
  let right ← f.channel x0.right f.y1.right
  return ({ f with y1 := ⟨left, right⟩ }, ⟨left, right⟩)

end SimpleFilter

structure BiquadFilter where
  a1 : Int
  a2 : Int
  b0 : Int
  b1 : Int
  b2 : Int
  x1 : Sample
  x2 : Sample
  y1 : Sample
  y2 : Sample

namespace BiquadFilter

def reset : BiquadFilter := ⟨0, 0, 2 ^ 14, 0, 0, silence, silence, silence, silence⟩

def channel (f : BiquadFilter) (x0 x1 x2 y1 y2 : Int16) : Exec Int16 := do
  let tmp ← weigh [(f.b0, x0), (f.b1, x1), (f.b2, x2), (f.a1, y1), (f.a2, y2)]
  return .ofInt (clamp16 (tmp / 2 ^ 14))

def processSample (f : BiquadFilter) (x0 : Sample) : Exec (BiquadFilter × Sample) := do
  let left ← f.channel x0.left f.x1.left f.x2.left f.y1.left f.y2.left
  let right ← f.channel x0.right f.x1.right f.x2.right f.y1.right f.y2.right
  let y0 : Sample := ⟨left, right⟩
  return ({ f with x2 := f.x1, x1 := x0, y2 := f.y1, y1 := y0 }, y0)

end BiquadFilter

structure SourceFilters where
  simpleFilterEnabled : Bool
  biquadFilterEnabled : Bool
  simpleFilter : SimpleFilter
  biquadFilter : BiquadFilter

namespace SourceFilters

def reset : SourceFilters := ⟨false, false, .reset, .reset⟩

def enable (f : SourceFilters) (simple biquad : Bool) : SourceFilters where
  simpleFilterEnabled := simple
  biquadFilterEnabled := biquad
  simpleFilter := if simple then f.simpleFilter else .reset
  biquadFilter := if biquad then f.biquadFilter else .reset

def processFrame (f : SourceFilters) (frame : List Sample) :
    Exec (SourceFilters × List Sample) := do
  let (simple, frame) ←
    (if f.simpleFilterEnabled then filterFrame SimpleFilter.processSample f.simpleFilter frame
    else .ok (f.simpleFilter, frame))
  let (biquad, frame) ←
    (if f.biquadFilterEnabled then filterFrame BiquadFilter.processSample f.biquadFilter frame
    else .ok (f.biquadFilter, frame))
  return ({ f with simpleFilter := simple, biquadFilter := biquad }, frame)

end SourceFilters

/-- `Format`, of two bits. -/
inductive Format where
  | pcm8
  | pcm16
  | adpcm
  | reserved

/-- `InterpolationMode`, of a byte that is not checked. -/
def interpolation : UInt8 → Option InterpolationMode
  | 0 => some .polyphase
  | 1 => some .linear
  | 2 => some .none
  | _ => none

structure BufferConfig where
  physicalAddress : UInt32
  length : UInt32
  adpcmYn : UInt16 × UInt16
  adpcmDirty : Bool
  isLooping : Bool
  bufferId : UInt16

inductive Dirty where
  | format | monoOrStereo | adpcmCoefficients | partialEmbeddedBuffer | partialReset
  | enable | interpolation | rateMultiplier | bufferQueue | playPosition
  | filtersEnabled | simpleFilter | biquadFilter | sync | reset | embeddedBuffer

def Dirty.bit : Dirty → Nat
  | .format => 0
  | .monoOrStereo => 1
  | .adpcmCoefficients => 2
  | .partialEmbeddedBuffer => 3
  | .partialReset => 4
  | .enable => 16
  | .interpolation => 17
  | .rateMultiplier => 18
  | .bufferQueue => 19
  | .playPosition => 21
  | .filtersEnabled => 22
  | .simpleFilter => 23
  | .biquadFilter => 24
  | .sync => 28
  | .reset => 29
  | .embeddedBuffer => 30

structure Configuration (ρ : Type) where
  dirtyRaw : UInt32
  rateMultiplier : ρ
  interpolationMode : UInt8
  simpleFilterEnabled : Bool
  biquadFilterEnabled : Bool
  /-- `a1` and `b0` -/
  simpleFilter : Int16 × Int16
  /-- `a1`, `a2`, `b0`, `b1` and `b2` -/
  biquadFilter : Int16 × Int16 × Int16 × Int16 × Int16
  buffersDirty : UInt16
  buffers : Fin 4 → BufferConfig
  enable : UInt8
  sync : UInt16
  playPosition : UInt32
  embeddedBuffer : BufferConfig
  /-- `mono_or_stereo == MonoOrStereo::Stereo` -/
  stereo : Bool
  format : Format

structure QueuedBuffer extends BufferConfig where
  stereo : Bool
  format : Format
  fromQueue : Bool
  playPosition : UInt32
  hasPlayed : Bool

/-- `BufferOrder`: the lowest id comes first. -/
def QueuedBuffer.order (b : QueuedBuffer) : Nat := b.bufferId.toNat

structure Source (ρ : Type) where
  enabled : Bool
  sync : UInt16
  inputQueue : Array QueuedBuffer
  stereo : Bool
  format : Format
  currentSampleNumber : UInt32
  nextSampleNumber : UInt32
  currentBufferPhysicalAddress : UInt32
  currentBuffer : List Sample
  bufferUpdate : Bool
  currentBufferId : UInt32
  adpcmCoeffs : Fin 16 → Int16
  adpcmState : ADPCMState
  rateMultiplier : ρ
  interpolationMode : UInt8
  interpState : State
  filters : SourceFilters

structure Status where
  isEnabled : Bool
  currentBufferIdDirty : Bool
  sync : UInt16
  bufferPosition : UInt32
  currentBufferId : UInt16

/-- What a tick is given: the memory behind an address, up to the end of its region, is that of
the moment. -/
structure Tick (ρ : Type) where
  config : Configuration ρ
  adpcmCoeffs : Fin 16 → Int16
  bytes : UInt32 → List UInt8

namespace Configuration

variable {ρ : Type} (c : Configuration ρ)

def dirty (flag : Dirty) : Bool := c.dirtyRaw.toNat.testBit flag.bit

/-- The filters after `Enable` and both kinds of `Configure`. -/
def configureFilters (f : SourceFilters) : SourceFilters :=
  let f := if c.dirty .filtersEnabled then f.enable c.simpleFilterEnabled c.biquadFilterEnabled
    else f
  let f := if c.dirty .simpleFilter then
      { f with
        simpleFilter := { f.simpleFilter with
          a1 := c.simpleFilter.1.toInt
          b0 := c.simpleFilter.2.toInt } }
    else f
  if c.dirty .biquadFilter then
    let (a1, a2, b0, b1, b2) := c.biquadFilter
    { f with
      biquadFilter := { f.biquadFilter with
        a1 := a1.toInt
        a2 := a2.toInt
        b0 := b0.toInt
        b1 := b1.toInt
        b2 := b2.toInt } }
  else f

/-- The buffers that go into the queue: an "improper value for length" is skipped. -/
def newBuffers (stereo : Bool) (format : Format) : List QueuedBuffer :=
  let playPosition := if c.dirty .playPosition then c.playPosition else 0
  let embedded : List QueuedBuffer := if c.dirty .embeddedBuffer then
      [{ c.embeddedBuffer with
        stereo, format, fromQueue := false, playPosition, hasPlayed := false }]
    else []
  let queued : List QueuedBuffer := if c.dirty .bufferQueue then
      ((List.finRange 4).filter fun i : Fin 4 => c.buffersDirty.toNat.testBit i).map fun i =>
        { c.buffers i with
          stereo, format, fromQueue := true, playPosition := 0, hasPlayed := false }
    else []
  (embedded ++ queued).filter fun b => b.length < 0x80000000

end Configuration

def decodePCM8 (stereo : Bool) (data : List UInt8) (sampleCount : Nat) : Exec (List Sample) :=
  let decodeSample (sample : UInt8) : Int16 := (sample.toUInt16 <<< 8).toInt16
  (List.range sampleCount).mapM fun i => do
    if stereo then
      let left ← Buffer.get data (i * 2)
      let right ← Buffer.get data (i * 2 + 1)
      return ⟨decodeSample left, decodeSample right⟩
    else
      let sample ← Buffer.get data i
      return ⟨decodeSample sample, decodeSample sample⟩

def readS16 (data : List UInt8) (i : Nat) : Exec Int16 := do
  let low ← Buffer.get data i
  let high ← Buffer.get data (i + 1)
  return (low.toUInt16 ||| high.toUInt16 <<< 8).toInt16

def decodePCM16 (stereo : Bool) (data : List UInt8) (sampleCount : Nat) : Exec (List Sample) :=
  (List.range sampleCount).mapM fun i => do
    if stereo then
      let left ← readS16 data (i * 4)
      let right ← readS16 data (i * 4 + 2)
      return ⟨left, right⟩
    else
      let sample ← readS16 data (i * 2)
      return ⟨sample, sample⟩

namespace Source

section

variable {ρ : Type} (valid : UInt32 → Bool) (bytes : UInt32 → List UInt8)

/-- `GetPhysicalPointer` of an address masked as the DMA hardware does. -/
def physicalPointer (address : UInt32) : Option (List UInt8) :=
  let address := address &&& 0xFFFFFFFC
  if valid address then some (bytes address) else none

variable (s : Source ρ)

def enqueue (b : QueuedBuffer) : Source ρ :=
  { s with inputQueue := pushHeap QueuedBuffer.order (s.inputQueue.push b) }

def decode (buf : QueuedBuffer) (memory : List UInt8) : Exec (Source ρ) :=
  match buf.format with
  | .pcm8 => do
    let samples ← decodePCM8 buf.stereo memory buf.length.toNat
    return { s with currentBuffer := samples }
  | .pcm16 => do
    let samples ← decodePCM16 buf.stereo memory buf.length.toNat
    return { s with currentBuffer := samples }
  | .adpcm => do
    let (samples, state) ←
      Codec.decodeADPCM memory buf.length.toNat s.adpcmCoeffs s.adpcmState
    return { s with currentBuffer := samples, adpcmState := state }
  | .reserved => return s

/-- The end of `DequeueBuffer`, after a buffer is decoded. -/
def playing (buf : QueuedBuffer) : Source ρ :=
  let sampleNumber := if buf.hasPlayed then 0 else buf.playPosition
  let s := { s with
    currentSampleNumber := sampleNumber
    nextSampleNumber := sampleNumber
    currentBufferPhysicalAddress := buf.physicalAddress
    currentBufferId := buf.bufferId.toUInt32
    bufferUpdate := buf.fromQueue && !buf.hasPlayed }
  if buf.isLooping then s.enqueue { buf with hasPlayed := true } else s

/-- `DequeueBuffer`, which returns false as `none`. -/
def dequeueBuffer : Exec (Option (Source ρ)) :=
  match s.inputQueue[0]? with
  | none => .ok none
  | some buf =>
    let s := { s with
      inputQueue := popHeap QueuedBuffer.order s.inputQueue
      adpcmState := if buf.adpcmDirty then ⟨buf.adpcmYn.1.toInt16, buf.adpcmYn.2.toInt16⟩
        else s.adpcmState }
    match physicalPointer valid bytes buf.physicalAddress with
    | some memory => do
      let s ← s.decode buf memory
      return some (s.playing buf)
    | none => .ok (some { s with currentBuffer := [] })

/-- `current_buffer.empty() && !DequeueBuffer()` is `none`. -/
def refill : Exec (Option (Source ρ)) :=
  if s.currentBuffer = [] then s.dequeueBuffer valid bytes else .ok (some s)

structure Filling (ρ : Type) where
  source : Source ρ
  currentFrame : List Sample
  framePosition : Nat

def filling : Filling ρ :=
  ⟨{ s with currentSampleNumber := s.nextSampleNumber },
    List.replicate samplesPerFrame silence, 0⟩

def getCurrentStatus : Source ρ × Status :=
  ({ s with bufferUpdate := false },
    { isEnabled := s.enabled
      currentBufferIdDirty := s.bufferUpdate
      sync := s.sync
      bufferPosition := s.currentSampleNumber
      currentBufferId := s.currentBufferId.toUInt16 })

end

section

variable {ρ : Type} [Rate ρ] (valid : UInt32 → Bool)

def fresh : Source ρ where
  enabled := false
  sync := 0
  inputQueue := #[]
  stereo := false
  format := .adpcm
  currentSampleNumber := 0
  nextSampleNumber := 0
  currentBufferPhysicalAddress := 0
  currentBuffer := []
  bufferUpdate := false
  currentBufferId := 0
  adpcmCoeffs := fun _ => 0
  adpcmState := ⟨0, 0⟩
  rateMultiplier := Rate.one
  interpolationMode := 0
  interpState := ⟨silence, silence, 0⟩
  filters := .reset

variable (s : Source ρ)

/-- The parts of `ParseConfig` that only set something. -/
def assign (t : Tick ρ) : Source ρ :=
  let c := t.config
  { s with
    inputQueue := if c.dirty .partialReset then #[] else s.inputQueue
    enabled := if c.dirty .enable then c.enable ≠ 0 else s.enabled
    sync := if c.dirty .sync then c.sync else s.sync
    rateMultiplier := if c.dirty .rateMultiplier then
        if Rate.nonpositive c.rateMultiplier then Rate.one else c.rateMultiplier
      else s.rateMultiplier
    adpcmCoeffs := if c.dirty .adpcmCoefficients then t.adpcmCoeffs else s.adpcmCoeffs
    filters := c.configureFilters s.filters
    interpolationMode := if c.dirty .interpolation then c.interpolationMode
      else s.interpolationMode
    format := if c.dirty .format || c.dirty .embeddedBuffer then c.format else s.format
    stereo := if c.dirty .monoOrStereo || c.dirty .embeddedBuffer then c.stereo else s.stereo }

def configure (t : Tick ρ) : Source ρ :=
  (if t.config.dirty .reset then fresh else s).assign t

/-- The part for `partial_embedded_buffer_dirty`: only PCM16 is handled. -/
def updateEmbedded (t : Tick ρ) : Exec (Source ρ) :=
  match physicalPointer valid t.bytes s.currentBufferPhysicalAddress, s.format with
  | some memory, .pcm16 => do
    let samples ← decodePCM16 s.stereo memory t.config.embeddedBuffer.length.toNat
    if samples.length < s.currentSampleNumber.toNat then
      return { s with currentBuffer := samples, currentSampleNumber := 0 }
    else return { s with currentBuffer := samples.drop s.currentSampleNumber.toNat }
  | _, _ => return s

def parseConfig (t : Tick ρ) : Exec (Source ρ) :=
  if t.config.dirtyRaw = 0 then .ok s
  else do
    let s := s.configure t
    let s ← (if t.config.dirty .partialEmbeddedBuffer then s.updateEmbedded valid t else .ok s)
    return (t.config.newBuffers s.stereo s.format).foldl enqueue s

variable (bytes : UInt32 → List UInt8)

def Filling.stepOver (x : Filling ρ) (fn : Filter) : Filling ρ :=
  let r := stepOverSamples fn (Rate.stepSize x.source.rateMultiplier) x.source.interpState
    x.source.currentBuffer x.currentFrame x.framePosition
  { source := { x.source with interpState := r.1, currentBuffer := r.2.1 }
    currentFrame := r.2.2.1
    framePosition := r.2.2.2 }

def Filling.interpolate (x : Filling ρ) : Filling ρ :=
  match interpolation x.source.interpolationMode with
  | some .none => x.stepOver holdSample
  | some .linear => x.stepOver linearSample
  | some .polyphase => x.stepOver linearSample
  | none => x

def turn (x : Filling ρ) : Exec (Filling ρ ⊕ Filling ρ) :=
  if x.framePosition < samplesPerFrame then do
    match ← x.source.refill valid bytes with
    | none => return .inl x
    | some s => return .inr (Filling.interpolate { x with source := s })
  else .ok (.inl x)

def generateFrame (fuel : Nat) (s : Source ρ) : Exec (Source ρ × List Sample) := do
  match ← s.refill valid bytes with
  | none => return ({ s with enabled := false, bufferUpdate := true, currentBufferId := 0 },
      List.replicate samplesPerFrame silence)
  | some s => do
    let x ← StepLoop.loop .outOfFuel (turn valid bytes) fuel s.filling
    let (filters, frame) ← x.source.filters.processFrame x.currentFrame
    let next := x.source.nextSampleNumber + Rate.advance x.framePosition x.source.rateMultiplier
    return ({ x.source with nextSampleNumber := next, filters }, frame)

def tick (fuel : Nat) (s : Source ρ) (t : Tick ρ) :
    Exec (Source ρ × Option (List Sample) × Status) := do
  let s ← s.parseConfig valid t
  if s.enabled then
    let (s, frame) ← s.generateFrame valid t.bytes fuel
    let (s, status) := s.getCurrentStatus
    return (s, some frame, status)
  else
    let (s, status) := s.getCurrentStatus
    return (s, none, status)

/-- A fresh source into which the state of `s` is read, as `serialize` goes through it. -/
def reload : Source ρ :=
  { (fresh : Source ρ) with
    enabled := s.enabled
    sync := s.sync
    inputQueue := s.inputQueue
    stereo := s.stereo
    format := s.format
    currentSampleNumber := s.currentSampleNumber
    nextSampleNumber := s.nextSampleNumber
    currentBufferPhysicalAddress := s.currentBufferPhysicalAddress
    currentBuffer := s.currentBuffer
    bufferUpdate := s.bufferUpdate
    currentBufferId := s.currentBufferId
    adpcmCoeffs := s.adpcmCoeffs
    rateMultiplier := s.rateMultiplier
    interpolationMode := s.interpolationMode }

end

end Source

end EmuThreeDS.HLE
