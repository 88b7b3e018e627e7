import EmuThreeDS.Audio.SourceFrames

/-!
# Sources as resamplers

`GenerateFrame` of a source resamples the buffers that `DequeueBuffer` gives it on the way, as if
they had waited decoded. A buffer without samples makes no difference.
-/
namespace EmuThreeDS.HLE.Source

open AudioInterp StepLoop

variable {ρ : Type} [Rate ρ] {valid : UInt32 → Bool} {bytes : UInt32 → List UInt8}
  {s s' : Source ρ} {x y : Filling ρ} {mode : InterpolationMode} {queue : List AudioBuffer}

def resampler (s : Source ρ) (mode : InterpolationMode) (queue : List AudioBuffer) :
    EmuThreeDS.Source where
  inputQueue := queue
  currentBuffer := s.currentBuffer
  stepSize := Rate.stepSize s.rateMultiplier
  interpolationMode := mode
  interpState := s.interpState

def later (s : Source ρ) (state : State) (sampleNumber : UInt32) : Source ρ :=
  { s with interpState := state, currentSampleNumber := sampleNumber, currentBuffer := [] }

/-- The next buffers with samples that `DequeueBuffer` decodes are these. -/
inductive Decodes (valid : UInt32 → Bool) (bytes : UInt32 → List UInt8) :
    Source ρ → List AudioBuffer → Prop where
  | stop (s : Source ρ) : Decodes valid bytes s []
  | empty {s s' : Source ρ} {queue : List AudioBuffer} {state : State} {n : UInt32} :
      s.dequeueBuffer valid bytes = .ok (some s') → s'.currentBuffer = [] →
      Decodes valid bytes (s'.later state n) queue → Decodes valid bytes s queue
  | next {s s' : Source ρ} {b : AudioBuffer} {queue : List AudioBuffer} {state : State}
      {n : UInt32} : s.dequeueBuffer valid bytes = .ok (some s') → s'.currentBuffer = b.samples →
      Decodes valid bytes (s'.later state n) queue → Decodes valid bytes s (b :: queue)

theorem stepLoop_ends (fn : Filter) (input : List Sample) (stepSize : UInt64) (room : Nat)
    (p : Stepped) : let r := stepLoop fn input stepSize room p
    r.outputi = p.outputi + room ∨ r.inputi = input.length - 2 := by
  induction room generalizing p with
  | zero => exact .inl rfl
  | succ room ih =>
    rw [stepLoop]
    dsimp only
    split_ifs
    · refine (ih _).imp_left fun full => ?_
      rw [full]
      exact Nat.add_right_comm ..
    · exact .inr rfl

variable (queue) in
theorem interpolate_resampler (known : interpolation x.source.interpolationMode = some mode) :
    (x.source.resampler mode queue).interpolate x.currentFrame x.framePosition =
      (x.interpolate.source.resampler mode queue, x.interpolate.currentFrame,
        x.interpolate.framePosition) := by
  unfold Filling.interpolate
  rw [known]
  cases mode <;> rfl

structure Interpolated (x y : Filling ρ) : Prop where
  source : ∃ state rest,
    y.source = { x.source with interpState := state, currentBuffer := rest }
  inside : y.Inside
  ended : samplesPerFrame ≤ y.framePosition ∨ y.source.currentBuffer = []
  still : x.source.currentBuffer = [] → y = x

theorem interpolated (inside : x.Inside) (room : x.framePosition < samplesPerFrame)
    (known : interpolation x.source.interpolationMode = some mode) :
    Interpolated x x.interpolate := by
  rcases interpolate_cases x with ⟨fn, eq⟩ | ⟨-, unknown⟩
  · rw [eq]
    refine ⟨⟨_, _, rfl⟩, (stepOver_moves inside room fn).1, ?_, ?_⟩
    · unfold Filling.stepOver stepOverSamples
      split_ifs with empty
      · exact .inr empty
      · dsimp only
        rcases stepLoop_ends fn (x.source.interpState.xn2 :: x.source.interpState.xn1 ::
            x.source.currentBuffer) (Rate.stepSize x.source.rateMultiplier)
            (x.currentFrame.length - x.framePosition)
            ⟨x.source.interpState.fposition, 0, x.currentFrame, x.framePosition⟩ with full | used
        · rw [full, inside.size]
          left
          dsimp only
          omega
        · rw [used]
          exact .inr (List.drop_eq_nil_of_le (by simp))
    · intro empty
      unfold Filling.stepOver stepOverSamples
      rw [if_pos empty]
  · exact absurd (known.symm.trans unknown) nofun

/-- What is enough fuel for a filling: a full frame needs one more look at it. -/
def Enough (x : Filling ρ) (queue : List AudioBuffer) (fuel : Nat) : Prop :=
  if samplesPerFrame ≤ x.framePosition then 0 < fuel
  else queue.length + (if x.source.currentBuffer = [] then 1 else 2) ≤ fuel

omit [Rate ρ] in
theorem enough_filling {fuel : Nat}
    (more : queue.length + (if s.currentBuffer = [] then 1 else 2) ≤ fuel) :
    Enough s.filling queue fuel :=
  (if_neg (show ¬ samplesPerFrame ≤ 0 by decide)).mpr more

omit [Rate ρ] in
theorem Interpolated.enough {fuel : Nat} (h : Interpolated x y) (more : queue.length < fuel) :
    Enough y queue fuel := by
  unfold Enough
  split_ifs with full empty
  · omega
  · exact more
  · exact absurd (h.ended.resolve_left full) empty

variable (mode) in
/-- A refill takes one of the buffers that come, or one without samples. -/
theorem refill_resampler {rest : List AudioBuffer} {state : State} {n : UInt32}
    (refill : s.refill valid bytes = .ok (some s'))
    (decodes : Decodes valid bytes (s'.later state n) rest) :
    ∃ queue state n, Decodes valid bytes (s.later state n) queue ∧
      ((s.resampler mode queue).refill = some (s'.resampler mode rest) ∧ s'.currentBuffer ≠ [] ∧
          rest.length + 2 = queue.length + (if s.currentBuffer = [] then 1 else 2) ∨
        s.currentBuffer = [] ∧ s'.currentBuffer = [] ∧ queue = rest ∧
          s.resampler mode queue = s'.resampler mode queue) := by
  have kept := (refill_halts s).ok refill s' rfl
  unfold Source.refill at refill
  split_ifs at refill with empty
  · have whole : s.later s.interpState s.currentSampleNumber = s := by rw [later, ← empty]
    have same : s.interpState = s'.interpState ∧ s.rateMultiplier = s'.rateMultiplier :=
      ⟨kept.interpState.symm, kept.rateMultiplier.symm⟩
    by_cases none : s'.currentBuffer = []
    · refine ⟨rest, s.interpState, s.currentSampleNumber, ?_, .inr ⟨empty, none, rfl, ?_⟩⟩
      · rw [whole]
        exact .empty refill none decodes
      · rw [resampler, resampler, same.1, same.2, empty, none]
    · refine ⟨⟨s'.currentBuffer, none, kept.bounded empty⟩ :: rest, s.interpState,
        s.currentSampleNumber, ?_, .inl ⟨?_, none, ?_⟩⟩
      · rw [whole]
        exact .next refill rfl decodes
      · unfold EmuThreeDS.Source.refill resampler
        rw [if_pos empty, same.1, same.2]
        rfl
      · rw [if_pos empty]
        rfl
  · cases refill
    refine ⟨rest, state, n, decodes, .inl ⟨if_neg empty, empty, ?_⟩⟩
    rw [if_neg empty]

theorem frameLoop_turn {rest : List AudioBuffer} {fuel : Nat} (inside : x.Inside)
    (room : x.framePosition < samplesPerFrame)
    (known : interpolation s.interpolationMode = some mode)
    (refill : (x.source.resampler mode queue).refill = some (s.resampler mode rest)) :
    let y := Filling.interpolate { x with source := s }
    (x.source.resampler mode queue).frameLoop (fuel + 1) x.currentFrame x.framePosition =
      (y.source.resampler mode rest).frameLoop fuel y.currentFrame y.framePosition := by
  have turn := interpolate_resampler rest (x := { x with source := s }) known
  rw [EmuThreeDS.Source.frameLoop, if_pos (inside.size ▸ room), refill]
  dsimp only at turn ⊢
  rw [turn]

omit [Rate ρ] in
theorem currentBuffer_of_refill (refill : s.refill valid bytes = .ok none) :
    s.currentBuffer = [] := by
  by_contra busy
  unfold Source.refill at refill
  rw [if_neg busy] at refill
  cases refill

theorem loop_resamples {fuel : Nat} (inside : x.Inside)
    (known : interpolation x.source.interpolationMode = some mode)
    (run : loop .outOfFuel (turn valid bytes) fuel x = .ok y) :
    y.source.filters = x.source.filters ∧ ∃ queue state n,
      Decodes valid bytes (x.source.later state n) queue ∧ ∀ fuel', Enough x queue fuel' →
        (x.source.resampler mode queue).frameLoop fuel' x.currentFrame x.framePosition =
          .ok (y.source.resampler mode [], y.currentFrame, y.framePosition) := by
  induction fuel generalizing x with
  | zero => cases run
  | succ fuel ih =>
    unfold loop turn at run
    split_ifs at run with room
    swap
    · cases run
      refine ⟨rfl, [], y.source.interpState, 0, .stop _, fun fuel' enough => ?_⟩
      rw [Enough, if_pos (Nat.le_of_not_lt room)] at enough
      obtain ⟨n, rfl⟩ := Nat.exists_eq_add_one.mpr enough
      rw [EmuThreeDS.Source.frameLoop, if_neg (inside.size ▸ room)]
    have left : ¬ samplesPerFrame ≤ x.framePosition := Nat.not_le_of_lt room
    cases refill : x.source.refill valid bytes with
    | error e =>
      rw [refill] at run
      cases run
    | ok refilled =>
      rw [refill] at run
      cases refilled with
      | none =>
        cases run
        have empty := currentBuffer_of_refill refill
        refine ⟨rfl, [], y.source.interpState, 0, .stop _, fun fuel' enough => ?_⟩
        rw [Enough, if_neg left, if_pos empty] at enough
        obtain ⟨n, rfl⟩ := Nat.exists_eq_add_one.mpr (Nat.lt_of_lt_of_le (Nat.zero_lt_succ _) enough)
        have none : (y.source.resampler mode []).refill = none := if_pos empty
        rw [EmuThreeDS.Source.frameLoop, if_pos (inside.size ▸ room), none]
      | some s =>
        have kept := (refill_halts _).ok refill s rfl
        have known' := kept.interpolationMode ▸ known
        have moved := interpolated (x := { x with source := s }) ⟨inside.size, inside.within⟩ room
          known'
        obtain ⟨_, _, source⟩ := moved.source
        obtain ⟨filters, rest, state, n, decodes, frames⟩ := ih moved.inside (source ▸ known') run
        rw [source] at filters decodes
        obtain ⟨queue, state, n, decodes, taken⟩ := refill_resampler mode refill decodes
        refine ⟨filters.trans kept.filters, queue, state, n, decodes, fun fuel' enough => ?_⟩
        rw [Enough, if_neg left] at enough
        rcases taken with ⟨refilled, some_samples, fewer⟩ | ⟨empty, none, rfl, same⟩
        · obtain ⟨n, rfl⟩ := Nat.exists_eq_add_one.mpr (show 0 < fuel' by omega)
          rw [frameLoop_turn inside room known' refilled]
          exact frames n (moved.enough (by omega))
        · -- a turn without samples is not seen
          rw [moved.still none] at frames
          rw [same]
          rw [if_pos empty] at enough
          refine frames fuel' ?_
          rwa [Enough, if_neg left, if_pos none]

theorem generateFrame_empty {p : EmuThreeDS.Source} {length : Nat} (some : 0 < length)
    (empty : p.currentBuffer = []) : p.generateFrame length =
      p.frameLoop (p.inputQueue.length + 1) (List.replicate length EmuThreeDS.Source.silence) 0 := by
  have room : 0 < (List.replicate length EmuThreeDS.Source.silence).length := by
    rwa [List.length_replicate]
  rw [EmuThreeDS.Source.frameLoop, if_pos room]
  unfold EmuThreeDS.Source.generateFrame EmuThreeDS.Source.refill EmuThreeDS.Source.dequeueBuffer
  rw [if_pos empty]
  cases queue : p.inputQueue with
  | nil => rfl
  | cons b rest =>
    dsimp only
    rw [EmuThreeDS.Source.frameLoop, if_pos room, EmuThreeDS.Source.refill, if_neg b.nonempty]
    rfl

/-- A frame is what the resampler makes of the buffers that are decoded for it, filtered unless
there is nothing to play. -/
theorem generateFrame_resamples {fuel : Nat} {frame : List Sample}
    (known : interpolation s.interpolationMode = some mode)
    (run : s.generateFrame valid bytes fuel = .ok (s', frame)) :
    ∃ queue state n raw position, Decodes valid bytes (s.later state n) queue ∧
      (s.resampler mode queue).generateFrame samplesPerFrame =
        .ok (s'.resampler mode [], raw, position) ∧
      (frame = raw ∧ position = 0 ∨ s.filters.processFrame raw = .ok (s'.filters, frame)) := by
  obtain ⟨refilled, refill, run⟩ := bind_eq_ok.mp run
  cases refilled with
  | none =>
    cases run
    have empty := currentBuffer_of_refill refill
    refine ⟨[], s.interpState, 0, _, 0, .stop _, ?_, .inl ⟨rfl, rfl⟩⟩
    have none : (s.resampler mode []).refill = none := if_pos empty
    unfold EmuThreeDS.Source.generateFrame
    rw [none]
    rfl
  | some s₁ =>
    obtain ⟨y, ends, run⟩ := bind_eq_ok.mp run
    obtain ⟨⟨filters, frame⟩, process, run⟩ := bind_eq_ok.mp run
    cases run
    have kept := (refill_halts _).ok refill s₁ rfl
    obtain ⟨same, rest, state, n, decodes, frames⟩ :=
      loop_resamples (filling_inside s₁) (kept.interpolationMode ▸ known) ends
    have processed : s.filters.processFrame y.currentFrame = .ok (filters, frame) := by
      rw [← kept.filters]
      exact same ▸ process
    obtain ⟨queue, state, n, decodes, taken⟩ := refill_resampler mode refill decodes
    refine ⟨queue, state, n, y.currentFrame, y.framePosition, decodes, ?_, .inr processed⟩
    rcases taken with ⟨refilled, some_samples, -⟩ | ⟨empty, none, rfl, same⟩
    · unfold EmuThreeDS.Source.generateFrame
      rw [refilled]
      exact frames (rest.length + 2) (enough_filling (by rw [if_neg some_samples]))
    · rw [generateFrame_empty (by decide) empty, same]
      exact frames (queue.length + 1) (enough_filling (by rw [if_pos none]))

end EmuThreeDS.HLE.Source
