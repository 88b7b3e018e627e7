import EmuThreeDS.Audio.Source
import EmuThreeDS.Common.Buffers
import Mathlib.Algebra.Order.Ring.Abs
import Mathlib.Tactic.Linarith

/-!
# Decoding of ADPCM (`codec.cpp`)

The arithmetic of a sample is that of `int`. It is exact as long as the sum of the filter is in
range, which large coefficients with a large history can leave.
-/
namespace EmuThreeDS.Codec

open AudioInterp (Sample clamp16)

structure ADPCMState where
  yn1 : Int16
  yn2 : Int16

def IsInt (i : Int) : Prop := -2 ^ 31 ≤ i ∧ i < 2 ^ 31

instance (i : Int) : Decidable (IsInt i) := inferInstanceAs (Decidable (_ ∧ _))

/-- The result of an operation of `int`. -/
def int (i : Int) : Exec Int := if IsInt i then .ok i else .error .undefinedBehaviour

def signedNibbles : List Int := [0, 1, 2, 3, 4, 5, 6, 7, -8, -7, -6, -5, -4, -3, -2, -1]

structure Header where
  scale : Int
  coef1 : Int
  coef2 : Int

def Header.ofByte (coeff : Fin 16 → Int16) (frameHeader : UInt8) : Header :=
  let idx := (frameHeader >>> 4 &&& 0x7).toNat
  { scale := 2 ^ (frameHeader &&& 0xF).toNat
    coef1 := (coeff (Fin.ofNat 16 (idx * 2))).toInt
    coef2 := (coeff (Fin.ofNat 16 (idx * 2 + 1))).toInt }

structure Feedback where
  yn1 : Int
  yn2 : Int

def decodeSample (header : Header) (feedback : Feedback) (nibble : Int) : Exec Feedback := do
  let xn ← int (nibble * header.scale)
  let fixed ← int (xn * 2 ^ 11)
  let rounded ← int (fixed + 0x400)
  let first ← int (header.coef1 * feedback.yn1)
  let partly ← int (rounded + first)
  let second ← int (header.coef2 * feedback.yn2)
  let val ← int (partly + second)
  return ⟨clamp16 (val / 2 ^ 11), feedback.yn1⟩

def fillSample (header : Header) (nibble : UInt8) (outputi : Nat) (run : Feedback × List Sample) :
    Exec (Feedback × List Sample) := do
  let feedback ← decodeSample header run.1 (signedNibbles.getD nibble.toNat 0)
  let sample := Int16.ofInt feedback.yn1
  let ret ← Buffer.set run.2 outputi ⟨sample, sample⟩
  return (feedback, ret)

section

variable (data : List UInt8) (sampleCount : Nat) (coeff : Fin 16 → Int16)

def decodePair (header : Header) (outputi datai : Nat) (run : Feedback × List Sample) :
    Exec (Feedback × List Sample) := do
  let high ← Buffer.get data datai
  let run ← fillSample header (high >>> 4) outputi run
  let low ← Buffer.get data datai
  fillSample header (low &&& 0xF) (outputi + 1) run

def decodePairs (header : Header) :
    Nat → Nat → Nat → Feedback × List Sample → Exec (Feedback × List Sample)
  | 0, _, _, run => .ok run
  | turns + 1, outputi, datai, run =>
    if outputi < sampleCount then
      decodePair data header outputi datai run >>=
        decodePairs header turns (outputi + 2) (datai + 1)
    else .ok run

def decodeFrames (run : Feedback × List Sample) : Nat → Exec (Feedback × List Sample)
  | 0 => .ok run
  | framei + 1 => do
    let run ← decodeFrames run framei
    let frameHeader ← Buffer.get data (framei * 8)
    decodePairs data sampleCount (.ofByte coeff frameHeader) 7 (framei * 14) (framei * 8 + 1) run

def retSize : Nat := if sampleCount % 2 = 0 then sampleCount else sampleCount + 1

def numFrames : Nat := (sampleCount + 13) / 14

def decodeADPCM (state : ADPCMState) : Exec (List Sample × ADPCMState) := do
  let (feedback, ret) ← decodeFrames data sampleCount coeff
    (⟨state.yn1.toInt, state.yn2.toInt⟩, List.replicate (retSize sampleCount) ⟨0, 0⟩)
    (numFrames sampleCount)
  return (ret, ⟨.ofInt feedback.yn1, .ofInt feedback.yn2⟩)

end

/-!
## The exact recurrence

What is decoded, in unbounded integers: a sample is a signed nibble of its frame, and the filter
works on the two samples before it.
-/

section

variable (data : List UInt8) (coeff : Fin 16 → Int16) (state : ADPCMState)

def headerOf (n : Nat) : Header := .ofByte coeff (data.getD (n / 14 * 8) 0)

/-- `x[n]`, before it is scaled. -/
def nibbleOf (n : Nat) : Int :=
  let byte := (data.getD (n / 14 * 8 + 1 + n % 14 / 2) 0).toNat
  Int.bmod (if n % 2 = 0 then byte / 16 else byte % 16 : Nat) 16

/-- The filter before its shift. -/
def filter (header : Header) (feedback : Feedback) (nibble : Int) : Int :=
  nibble * header.scale * 2 ^ 11 + 2 ^ 10 + header.coef1 * feedback.yn1 +
    header.coef2 * feedback.yn2

/-- `y[n-1]` and `y[n-2]`. -/
def feedbackAt : Nat → Feedback
  | 0 => ⟨state.yn1.toInt, state.yn2.toInt⟩
  | n + 1 =>
    let before := feedbackAt n
    ⟨clamp16 (filter (headerOf data coeff n) before (nibbleOf data n) / 2 ^ 11), before.yn1⟩

def sumAt (n : Nat) : Int :=
  filter (headerOf data coeff n) (feedbackAt data coeff state n) (nibbleOf data n)

/-- `y[n]` -/
def sampleAt (n : Nat) : Int := (feedbackAt data coeff state (n + 1)).yn1

/-- The result is the recurrence up to a sample, in both channels, and so is the state. -/
def Exact (size : Nat) (out : List Sample × ADPCMState) : Prop :=
  out.1.map (fun s => (s.left.toInt, s.right.toInt)) =
      (List.range size).map (fun n =>
        (sampleAt data coeff state n, sampleAt data coeff state n)) ∧
    out.2.yn1.toInt = (feedbackAt data coeff state size).yn1 ∧
    out.2.yn2.toInt = (feedbackAt data coeff state size).yn2

end

def IsSample (i : Int) : Prop := -2 ^ 15 ≤ i ∧ i < 2 ^ 15

theorem isSample_toInt (i : Int16) : IsSample i.toInt := ⟨i.le_toInt, i.toInt_lt⟩

theorem isSample_clamp16 (i : Int) : IsSample (clamp16 i) := by
  obtain ⟨low, high⟩ := AudioInterp.clamp16_bounds i
  exact ⟨low, Int.lt_of_le_of_lt high (by decide)⟩

theorem toInt_ofInt {i : Int} (h : IsSample i) : (Int16.ofInt i).toInt = i :=
  Int16.toInt_ofInt_of_le h.1 h.2

theorem product_bound {a b : Int} (ha : IsSample a) (hb : IsSample b) : |a * b| ≤ 2 ^ 30 := by
  have left : |a| ≤ 2 ^ 15 := abs_le.mpr ⟨ha.1, ha.2.le⟩
  have right : |b| ≤ 2 ^ 15 := abs_le.mpr ⟨hb.1, hb.2.le⟩
  calc |a * b| = |a| * |b| := abs_mul a b
    _ ≤ 2 ^ 15 * 2 ^ 15 := mul_le_mul left right (abs_nonneg b) (by decide)
    _ = 2 ^ 30 := by decide

structure Header.Valid (header : Header) : Prop where
  scale : 1 ≤ header.scale ∧ header.scale ≤ 2 ^ 15
  coef1 : IsSample header.coef1
  coef2 : IsSample header.coef2

theorem Header.ofByte_valid (coeff : Fin 16 → Int16) (frameHeader : UInt8) :
    (Header.ofByte coeff frameHeader).Valid where
  scale := by
    have small : (frameHeader &&& 0xF).toNat ≤ 15 := by
      exact Nat.and_le_right
    constructor
    · exact one_le_pow₀ (by decide)
    · exact pow_le_pow_right₀ (by decide) small
  coef1 := isSample_toInt _
  coef2 := isSample_toInt _

theorem Header.Valid.scaled {header : Header} (valid : header.Valid) {nibble : Int}
    (low : -8 ≤ nibble) (high : nibble ≤ 7) :
    -8 * 2 ^ 15 ≤ nibble * header.scale ∧ nibble * header.scale ≤ 7 * 2 ^ 15 := by
  obtain ⟨scale_pos, scale_le⟩ := valid.scale
  constructor
  · nlinarith
  · nlinarith

def Feedback.Valid (feedback : Feedback) : Prop := IsSample feedback.yn1 ∧ IsSample feedback.yn2

theorem int_of {i : Int} (h : IsInt i) : int i = .ok i := if_pos h

/-- Only the last sum can overflow. -/
theorem decodeSample_eq {header : Header} (valid : header.Valid) {feedback : Feedback}
    (history : feedback.Valid) {nibble : Int} (low : -8 ≤ nibble) (high : nibble ≤ 7) :
    decodeSample header feedback nibble = if IsInt (filter header feedback nibble) then
      .ok ⟨clamp16 (filter header feedback nibble / 2 ^ 11), feedback.yn1⟩
      else .error .undefinedBehaviour := by
  obtain ⟨below, above⟩ := valid.scaled low high
  have first := abs_le.mp (product_bound valid.coef1 history.1)
  have second := abs_le.mp (product_bound valid.coef2 history.2)
  have half : (2 : Int) ^ 10 = 0x400 := rfl
  unfold decodeSample filter
  rw [half]
  generalize nibble * header.scale = xn at below above ⊢
  generalize header.coef1 * feedback.yn1 = p at first ⊢
  generalize header.coef2 * feedback.yn2 = q at second ⊢
  rw [int_of (i := xn) (by unfold IsInt; omega), ok_bind,
    int_of (i := xn * 2 ^ 11) (by unfold IsInt; omega), ok_bind,
    int_of (i := xn * 2 ^ 11 + 0x400) (by unfold IsInt; omega), ok_bind,
    int_of (i := p) (by unfold IsInt; omega), ok_bind,
    int_of (i := xn * 2 ^ 11 + 0x400 + p) (by unfold IsInt; omega), ok_bind,
    int_of (i := q) (by unfold IsInt; omega), ok_bind]
  unfold int
  split_ifs with fits
  · rfl
  · rfl

theorem signedNibbles_eq {n : Nat} (small : n < 16) : signedNibbles.getD n 0 = Int.bmod n 16 := by
  have all : ∀ i : Fin 16, signedNibbles.getD i 0 = Int.bmod i 16 := by decide
  exact all ⟨n, small⟩

section

variable (data : List UInt8) (sampleCount : Nat) (coeff : Fin 16 → Int16) (state : ADPCMState)

theorem feedbackAt_valid (n : Nat) : (feedbackAt data coeff state n).Valid := by
  cases n with
  | zero => exact ⟨isSample_toInt _, isSample_toInt _⟩
  | succ n =>
    refine ⟨isSample_clamp16 _, ?_⟩
    cases n with
    | zero => exact isSample_toInt _
    | succ n => exact isSample_clamp16 _

def Fits (n : Nat) : Prop := ∀ m < n, IsInt (sumAt data coeff state m)

instance (n : Nat) : Decidable (Fits data coeff state n) :=
  inferInstanceAs (Decidable (∀ m < n, IsInt (sumAt data coeff state m)))

def outputAt (n : Nat) : Sample :=
  let sample := Int16.ofInt (sampleAt data coeff state n)
  ⟨sample, sample⟩

/-- Where the loops stand after so many samples. -/
def decoded (n : Nat) : Feedback × List Sample :=
  (feedbackAt data coeff state n, (List.range n).map (outputAt data coeff state) ++
    List.replicate (retSize sampleCount - n) ⟨0, 0⟩)

def runTo (n : Nat) : Exec (Feedback × List Sample) :=
  if Fits data coeff state n then .ok (decoded data sampleCount coeff state n)
  else .error .undefinedBehaviour

variable {data sampleCount coeff state}

theorem fits_succ {n : Nat} : Fits data coeff state (n + 1) ↔
    Fits data coeff state n ∧ IsInt (sumAt data coeff state n) := by
  unfold Fits
  rw [Nat.forall_lt_succ_right]

theorem set_decoded {n : Nat} (inside : n < retSize sampleCount) :
    Buffer.set (decoded data sampleCount coeff state n).2 n (outputAt data coeff state n) =
      .ok (decoded data sampleCount coeff state (n + 1)).2 := by
  obtain ⟨k, rest⟩ : ∃ k, retSize sampleCount - n = k + 1 := ⟨_, (Nat.succ_pred (by omega)).symm⟩
  have next : retSize sampleCount - (n + 1) = k := by omega
  unfold decoded
  have length : ((List.range n).map (outputAt data coeff state)).length = n := by simp
  rw [rest, next, List.range_succ, List.map_append, List.append_assoc,
    Buffer.set_of_lt (by simp), List.set_append_right _ _ length.le, length, Nat.sub_self]
  rfl

theorem fillSample_run {n : Nat} (inside : n < retSize sampleCount) {nibble : UInt8}
    (digit : nibble.toNat < 16) (same : nibbleOf data n = Int.bmod nibble.toNat 16) :
    runTo data sampleCount coeff state n >>= fillSample (headerOf data coeff n) nibble n =
      runTo data sampleCount coeff state (n + 1) := by
  have high := Int.bmod_lt (x := nibble.toNat) (m := 16) (by decide)
  have low := Int.le_bmod (x := nibble.toNat) (m := 16) (by decide)
  have sample : decodeSample (headerOf data coeff n) (feedbackAt data coeff state n)
      (signedNibbles.getD nibble.toNat 0) = if IsInt (sumAt data coeff state n) then
        .ok (feedbackAt data coeff state (n + 1)) else .error .undefinedBehaviour := by
    have valid : (headerOf data coeff n).Valid := Header.ofByte_valid _ _
    rw [signedNibbles_eq digit, decodeSample_eq valid (feedbackAt_valid data coeff state n) low
      (by omega), ← same]
    rfl
  unfold runTo
  by_cases fits : Fits data coeff state n
  · rw [if_pos fits]
    change decodeSample _ (feedbackAt data coeff state n) _ >>= _ = _
    rw [sample]
    by_cases small : IsInt (sumAt data coeff state n)
    · rw [if_pos small, if_pos (fits_succ.mpr ⟨fits, small⟩)]
      change Buffer.set _ n (outputAt data coeff state n) >>= _ = _
      rw [set_decoded inside]
      rfl
    · rw [if_neg small, if_neg fun both => small (fits_succ.mp both).2]
      rfl
  · rw [if_neg fits, if_neg fun both => fits (fits_succ.mp both).1]
    rfl

theorem getByte {i : Nat} (inside : i < data.length) : Buffer.get data i = .ok (data.getD i 0) := by
  rw [Buffer.get_of_lt inside, List.getD_eq_getElem _ _ inside]
  rfl

theorem high_nibble (byte : UInt8) : (byte >>> 4).toNat = byte.toNat / 16 := by
  rw [UInt8.toNat_shiftRight, Nat.shiftRight_eq_div_pow]
  rfl

theorem low_nibble (byte : UInt8) : (byte &&& 0xF).toNat = byte.toNat % 16 := by
  exact Nat.and_two_pow_sub_one_eq_mod byte.toNat 4

theorem decodePair_run {framei a : Nat} (few : a < 7)
    (inside : framei * 14 + 2 * a + 1 < retSize sampleCount)
    (there : framei * 8 + 1 + a < data.length) :
    runTo data sampleCount coeff state (framei * 14 + 2 * a) >>=
        decodePair data (.ofByte coeff (data.getD (framei * 8) 0)) (framei * 14 + 2 * a)
          (framei * 8 + 1 + a) = runTo data sampleCount coeff state (framei * 14 + 2 * a + 2) := by
  have frame : (framei * 14 + 2 * a) / 14 = framei := by omega
  have frame' : (framei * 14 + 2 * a + 1) / 14 = framei := by omega
  have pair : (framei * 14 + 2 * a) % 14 / 2 = a := by omega
  have pair' : (framei * 14 + 2 * a + 1) % 14 / 2 = a := by omega
  have even : (framei * 14 + 2 * a) % 2 = 0 := by omega
  have odd : (framei * 14 + 2 * a + 1) % 2 ≠ 0 := by omega
  have byte := (data.getD (framei * 8 + 1 + a) 0).toNat_lt
  have first := @fillSample_run data sampleCount coeff state (framei * 14 + 2 * a)
    (Nat.lt_of_succ_lt inside) (data.getD (framei * 8 + 1 + a) 0 >>> 4)
    (by rw [high_nibble]; omega)
    (by rw [high_nibble, nibbleOf, frame, pair, if_pos even])
  have second := @fillSample_run data sampleCount coeff state (framei * 14 + 2 * a + 1) inside
    (data.getD (framei * 8 + 1 + a) 0 &&& 0xF)
    (by rw [low_nibble]; omega)
    (by rw [low_nibble, nibbleOf, frame', pair', if_neg odd])
  rw [headerOf, frame] at first
  rw [headerOf, frame'] at second
  rw [← second, ← first, bind_assoc]
  unfold decodePair
  rw [getByte there]
  rfl

def upTo (data : List UInt8) (sampleCount : Nat) (coeff : Fin 16 → Int16) (state : ADPCMState)
    (n : Nat) : Exec (Feedback × List Sample) :=
  runTo data sampleCount coeff state (min n (retSize sampleCount))

theorem decodePairs_run {framei turns a : Nat} (all : a + turns = 7)
    (there : framei * 8 + 8 ≤ data.length) :
    upTo data sampleCount coeff state (framei * 14 + 2 * a) >>=
        decodePairs data sampleCount (.ofByte coeff (data.getD (framei * 8) 0)) turns
          (framei * 14 + 2 * a) (framei * 8 + 1 + a) =
      upTo data sampleCount coeff state ((framei + 1) * 14) := by
  induction turns generalizing a with
  | zero =>
    have last : framei * 14 + 2 * a = (framei + 1) * 14 := by omega
    rw [last]
    exact bind_pure _
  | succ turns ih =>
    have even : retSize sampleCount % 2 = 0 ∧ sampleCount ≤ retSize sampleCount ∧
        retSize sampleCount ≤ sampleCount + 1 := by
      unfold retSize
      split_ifs <;> omega
    by_cases more : framei * 14 + 2 * a < sampleCount
    · have turn : ∀ run, decodePairs data sampleCount (.ofByte coeff (data.getD (framei * 8) 0))
          (turns + 1) (framei * 14 + 2 * a) (framei * 8 + 1 + a) run =
          decodePair data (.ofByte coeff (data.getD (framei * 8) 0)) (framei * 14 + 2 * a)
            (framei * 8 + 1 + a) run >>=
          decodePairs data sampleCount (.ofByte coeff (data.getD (framei * 8) 0)) turns
            (framei * 14 + 2 * (a + 1)) (framei * 8 + 1 + (a + 1)) := by
        intro run
        rw [decodePairs, if_pos more]
        rfl
      have here : min (framei * 14 + 2 * a) (retSize sampleCount) = framei * 14 + 2 * a := by
        omega
      have next : min (framei * 14 + 2 * (a + 1)) (retSize sampleCount) =
          framei * 14 + 2 * a + 2 := by omega
      rw [← ih (a := a + 1) (by omega), funext turn, ← bind_assoc]
      unfold upTo
      rw [here, next, decodePair_run (by omega) (by omega) (by omega)]
    · have here : min (framei * 14 + 2 * a) (retSize sampleCount) = retSize sampleCount := by
        omega
      have last : min ((framei + 1) * 14) (retSize sampleCount) = retSize sampleCount := by omega
      have stop : decodePairs data sampleCount (.ofByte coeff (data.getD (framei * 8) 0))
          (turns + 1) (framei * 14 + 2 * a) (framei * 8 + 1 + a) = pure := by
        funext run
        rw [decodePairs, if_neg more]
        rfl
      rw [stop, bind_pure]
      unfold upTo
      rw [here, last]

theorem decodeFrames_run {framei : Nat} (there : framei * 8 ≤ data.length) :
    decodeFrames data sampleCount coeff (decoded data sampleCount coeff state 0) framei =
      upTo data sampleCount coeff state (framei * 14) := by
  induction framei with
  | zero =>
    rfl
  | succ framei ih =>
    rw [decodeFrames, ih (by omega), getByte (by omega)]
    exact decodePairs_run (a := 0) rfl (by omega)

theorem decodeADPCM_eq (there : numFrames sampleCount * 8 ≤ data.length) :
    decodeADPCM data sampleCount coeff state =
      runTo data sampleCount coeff state (retSize sampleCount) >>= fun run =>
        .ok (run.2, ⟨.ofInt run.1.yn1, .ofInt run.1.yn2⟩) := by
  have all : min (numFrames sampleCount * 14) (retSize sampleCount) = retSize sampleCount := by
    unfold numFrames retSize
    split_ifs <;> omega
  have run := @decodeFrames_run data sampleCount coeff state _ there
  rw [upTo, all] at run
  rw [← run]
  rfl

theorem decoded_exact : Exact data coeff state (retSize sampleCount)
      ((decoded data sampleCount coeff state (retSize sampleCount)).2,
        ⟨.ofInt (feedbackAt data coeff state (retSize sampleCount)).yn1,
          .ofInt (feedbackAt data coeff state (retSize sampleCount)).yn2⟩) := by
  have valid := feedbackAt_valid data coeff state (retSize sampleCount)
  refine ⟨?_, toInt_ofInt valid.1, toInt_ofInt valid.2⟩
  unfold decoded
  rw [Nat.sub_self, List.replicate_zero, List.append_nil, List.map_map]
  apply List.map_congr_left
  intro n _
  have sample := toInt_ofInt (feedbackAt_valid data coeff state (n + 1)).1
  exact Prod.ext sample sample

/-- For data that holds its frames, what is returned is the recurrence exactly if no sum of it up
to the last sample leaves the range of `int`. -/
theorem decodeADPCM_exact_iff (there : numFrames sampleCount * 8 ≤ data.length) :
    Returns (decodeADPCM data sampleCount coeff state)
        (Exact data coeff state (retSize sampleCount)) ↔
      ∀ n < retSize sampleCount, IsInt (sumAt data coeff state n) := by
  rw [decodeADPCM_eq there]
  unfold runTo
  split_ifs with fits
  · exact iff_of_true (returns_ok decoded_exact) fits
  · refine iff_of_false ?_ fits
    rintro ⟨_, ran, _⟩
    exact nomatch ran

end

theorem decodeADPCM_exact_ramp :
    Returns (decodeADPCM [0x00, 0x17, 0x9F, 0, 0, 0, 0, 0] 3 (fun _ => 1024) ⟨5, -7⟩)
      (Exact [0x00, 0x17, 0x9F, 0, 0, 0, 0, 0] (fun _ => 1024) ⟨5, -7⟩ 4) :=
  (decodeADPCM_exact_iff (by decide)).mpr (by decide)

/-- Two products of the least numbers come to `2 ^ 31`. -/
theorem decodeADPCM_overflows : ¬ ∀ (data : List UInt8) (sampleCount : Nat)
    (coeff : Fin 16 → Int16) (state : ADPCMState), numFrames sampleCount * 8 ≤ data.length →
      Returns (decodeADPCM data sampleCount coeff state)
        (Exact data coeff state (retSize sampleCount)) := by
  intro all
  obtain ⟨_, ran, _⟩ := all (List.replicate 8 0) 1 (fun _ => -32768) ⟨-32768, -32768⟩ (by decide)
  have stops : decodeADPCM (List.replicate 8 0) 1 (fun _ => -32768) ⟨-32768, -32768⟩ =
      .error .undefinedBehaviour := rfl
  exact nomatch stops.symm.trans ran

end EmuThreeDS.Codec
