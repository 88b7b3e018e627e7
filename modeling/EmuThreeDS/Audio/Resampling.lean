import EmuThreeDS.Audio.Source

/-!
# Resampling does not depend on buffering

All output is read off one reference: output `k` interpolates at position `start + k * step`
of the whole stream, whose first two samples are the history.
-/
namespace EmuThreeDS

open AudioInterp

/-- The interpolation at a position of a stream, where three samples are there for it. -/
def interpolateAt (fn : Filter) (xs : List Sample) (position : Nat) : Option Sample :=
  let i := position / 2 ^ 24
  match xs[i]?, xs[i + 1]?, xs[i + 2]? with
  | some x0, some x1, some x2 => some (fn (UInt64.ofNat (position % 2 ^ 24)) x0 x1 x2)
  | _, _, _ => none

def reference (fn : Filter) (xs : List Sample) (start step k : Nat) : Option Sample :=
  interpolateAt fn xs (start + k * step)

section

variable {fn : Filter} {xs : List Sample} {n : Nat}

theorem interpolateAt_eq (inside : n / 2 ^ 24 + 2 < xs.length) :
    interpolateAt fn xs n = some (fn (UInt64.ofNat (n % 2 ^ 24)) (xs[n / 2 ^ 24])
      (xs[n / 2 ^ 24 + 1]) (xs[n / 2 ^ 24 + 2])) := by
  unfold interpolateAt
  dsimp only
  rw [List.getElem?_eq_getElem (by omega), List.getElem?_eq_getElem (by omega),
    List.getElem?_eq_getElem inside]

theorem interpolateAt_eq_none (outside : xs.length ≤ n / 2 ^ 24 + 2) :
    interpolateAt fn xs n = none := by
  unfold interpolateAt
  dsimp only
  rw [List.getElem?_eq_none outside]
  split
  · next h => cases h
  · rfl

theorem interpolateAt_drop (b : Nat) :
    interpolateAt fn (xs.drop b) n = interpolateAt fn xs (n + 2 ^ 24 * b) := by
  unfold interpolateAt
  dsimp only
  rw [Nat.add_mul_div_left _ _ (by decide), Nat.add_mul_mod_self_left, List.getElem?_drop,
    List.getElem?_drop, List.getElem?_drop, ← Nat.add_assoc, ← Nat.add_assoc,
    Nat.add_comm b (n / 2 ^ 24)]

theorem interpolateAt_append {y : Sample} (ys : List Sample)
    (h : interpolateAt fn xs n = some y) : interpolateAt fn (xs ++ ys) n = some y := by
  rcases Nat.lt_or_ge (n / 2 ^ 24 + 2) xs.length with inside | outside
  · rw [interpolateAt_eq inside] at h
    rw [interpolateAt_eq (by rw [List.length_append]; omega), ← h]
    rw [List.getElem_append_left, List.getElem_append_left, List.getElem_append_left]
  · rw [interpolateAt_eq_none outside] at h
    cases h

end

/-- `ys` are the interpolations from position `n` on. -/
def Interpolated (fn : Filter) (xs : List Sample) (n step : Nat) (ys : List Sample) : Prop :=
  ∀ k, (h : k < ys.length) → interpolateAt fn xs (n + k * step) = some ys[k]

theorem Interpolated.nil {fn : Filter} {xs : List Sample} {n step : Nat} :
    Interpolated fn xs n step [] := fun _ h => absurd h (Nat.not_lt_zero _)

variable {ys output frame : List Sample} {outputi position : Nat} {state : State} {p : Playback}

theorem Interpolated.append {fn : Filter} {xs zs : List Sample} {n step : Nat}
    (first : Interpolated fn xs n step ys)
    (rest : Interpolated fn xs (n + ys.length * step) step zs) :
    Interpolated fn xs n step (ys ++ zs) := by
  intro k h
  rcases Nat.lt_or_ge k ys.length with before | after
  · rw [List.getElem_append_left before]
    exact first k before
  · have small : k - ys.length < zs.length := by
      rw [List.length_append] at h
      omega
    have place : n + ys.length * step + (k - ys.length) * step = n + k * step := by
      rw [Nat.add_assoc, ← Nat.add_mul, Nat.add_sub_cancel' after]
    rw [List.getElem_append_right after, ← place]
    exact rest _ small

theorem Interpolated.more_input {fn : Filter} {xs : List Sample} {n step : Nat}
    (h : Interpolated fn xs n step ys) (zs : List Sample) : Interpolated fn (xs ++ zs) n step ys :=
  fun k small => interpolateAt_append zs (h k small)

theorem Interpolated.of_drop {fn : Filter} {xs : List Sample} {b n step : Nat}
    (h : Interpolated fn (xs.drop b) n step ys) : Interpolated fn xs (n + 2 ^ 24 * b) step ys := by
  intro k small
  have same := h k small
  rw [interpolateAt_drop, Nat.add_right_comm] at same
  exact same

namespace AudioInterp

theorem toNat_whole (p : UInt64) : (p / scaleFactor).toNat = p.toNat / 2 ^ 24 :=
  UInt64.toNat_div _ _

theorem mask_fraction (p : UInt64) : p &&& scaleMask = UInt64.ofNat (p.toNat % 2 ^ 24) := by
  apply UInt64.toNat_inj.mp
  have below : p.toNat % 2 ^ 24 < 2 ^ 64 := by omega
  rw [UInt64.toNat_ofNat', Nat.mod_eq_of_lt below]
  exact Nat.and_two_pow_sub_one_eq_mod _ 24

/-- The position is at the sample before it, or a step further. -/
structure Near (input : List Sample) (s : Stepped) : Prop where
  inside : s.inputi + 2 ≤ input.length
  below : 2 ^ 24 * s.inputi ≤ s.fposition.toNat
  above : s.fposition.toNat < 2 ^ 24 * s.inputi + (2 ^ 40 + 2 ^ 24)

theorem Near.of {input : List Sample} {fposition : UInt64} {inputi : Nat}
    (inside : inputi + 2 ≤ input.length) (below : 2 ^ 24 * inputi ≤ fposition.toNat)
    (above : fposition.toNat < 2 ^ 24 * inputi + (2 ^ 40 + 2 ^ 24)) :
    Near input ⟨fposition, inputi, output, outputi⟩ := ⟨inside, below, above⟩

/-- What the loop has put out when it stops: the output is full or the input is used up. -/
structure Stops (fn : Filter) (input : List Sample) (stepSize : UInt64) (room : Nat)
    (s s' : Stepped) (ys : List Sample) : Prop where
  near : Near input s'
  position : s'.fposition.toNat = s.fposition.toNat + ys.length * stepSize.toNat
  outputs : Interpolated fn input s.fposition.toNat stepSize.toNat ys
  index : s'.outputi = s.outputi + ys.length
  size : s'.output.length = s.output.length
  written : s'.output.take s'.outputi = s.output.take s.outputi ++ ys
  inRoom : ys.length ≤ room
  ended : ys.length = room ∨ s'.inputi + 2 = input.length

theorem stepLoop_stops (fn : Filter) {input : List Sample} {stepSize : UInt64}
    (long : input.length ≤ 2 ^ 33) (slow : stepSize.toNat ≤ 2 ^ 40) (room : Nat)
    (s : Stepped) (near : Near input s) (fits : s.outputi + room = s.output.length) :
    ∃ ys, Stops fn input stepSize room s (stepLoop fn input stepSize room s) ys := by
  induction room generalizing s with
  | zero =>
    exact ⟨[], near, by simp [stepLoop], .nil, rfl, rfl, by simp [stepLoop], le_rfl, .inl rfl⟩
  | succ room ih =>
    have inside := near.inside
    have above := near.above
    simp only [stepLoop, toNat_whole, mask_fraction]
    split_ifs with more
    · have next : (s.fposition + stepSize).toNat = s.fposition.toNat + stepSize.toNat := by
        rw [UInt64.toNat_add]
        exact Nat.mod_eq_of_lt (by omega)
      have now : interpolateAt fn input s.fposition.toNat = _ := interpolateAt_eq more
      generalize fn _ _ _ _ = y at now ⊢
      obtain ⟨ys, stops⟩ := ih
        { fposition := s.fposition + stepSize
          inputi := s.fposition.toNat / 2 ^ 24
          output := s.output.set s.outputi y
          outputi := s.outputi + 1 }
        (.of (by omega) (by omega) (by omega))
        (by rw [List.length_set]; dsimp only; omega)
      refine ⟨y :: ys, stops.near, ?_, ?_, ?_, ?_, ?_, ?_, ?_⟩
      · have position := stops.position
        dsimp only at position
        rw [List.length_cons, Nat.succ_mul]
        omega
      · have first : Interpolated fn input s.fposition.toNat stepSize.toNat [y] := by
          intro k small
          obtain rfl : k = 0 := by simpa using small
          simpa using now
        have rest := stops.outputs
        rw [next] at rest
        exact first.append (by simpa using rest)
      · have index := stops.index
        dsimp only at index
        rw [List.length_cons]
        omega
      · rw [stops.size, List.length_set]
      · have room_left : s.outputi < s.output.length := by omega
        rw [stops.written]
        rw [List.take_add_one, List.getElem?_set_self room_left, List.take_set_of_le le_rfl]
        simp
      · have := stops.inRoom
        rw [List.length_cons]
        omega
      · rcases stops.ended with full | used
        · left
          rw [List.length_cons, full]
        · exact .inr used
    · exact ⟨[], .of (by omega) (by omega) (by omega), by simp, .nil, rfl, rfl, by simp,
        Nat.zero_le _, .inr (by dsimp only; omega)⟩

theorem toNat_rebase {p : UInt64} {i : Nat} (below : 2 ^ 24 * i ≤ p.toNat) :
    (p - UInt64.ofNat i * scaleFactor).toNat = p.toNat - 2 ^ 24 * i := by
  have small := p.toNat_lt
  have index : (UInt64.ofNat i).toNat = i := UInt64.toNat_ofNat_of_lt' (by
    simp only [UInt64.size]
    omega)
  have whole : (UInt64.ofNat i * scaleFactor).toNat = 2 ^ 24 * i := by
    rw [UInt64.toNat_mul, index, Nat.mul_comm]
    exact Nat.mod_eq_of_lt (lt_of_le_of_lt below small)
  rw [UInt64.toNat_sub_of_le _ _ (by rw [UInt64.le_iff_toNat_le, whole]; exact below), whole]

/-- What one call makes of a buffer: `b` samples of history and buffer are dropped, and the
position counts from what is then first. -/
structure StepsOver (fn : Filter) (stepSize : UInt64) (state : State) (input : List Sample)
    (output : List Sample) (outputi : Nat) (state' : State) (rest : List Sample)
    (output' : List Sample) (outputi' : Nat) (ys : List Sample) (b : Nat) : Prop where
  samples : (state.xn2 :: state.xn1 :: input).drop b = state'.xn2 :: state'.xn1 :: rest
  position : state'.fposition.toNat + 2 ^ 24 * b =
    state.fposition.toNat + ys.length * stepSize.toNat
  near : state'.fposition.toNat < 2 ^ 40 + 2 ^ 24
  outputs : Interpolated fn (state.xn2 :: state.xn1 :: input) state.fposition.toNat
    stepSize.toNat ys
  size : output'.length = output.length
  written : output'.take outputi' = output.take outputi ++ ys
  fits : outputi' ≤ output.length
  ended : outputi' = output.length ∨ rest = []

theorem stepOverSamples_stepsOver (fn : Filter) {stepSize : UInt64} {input : List Sample}
    (slow : stepSize.toNat ≤ 2 ^ 40) (nonempty : input ≠ []) (bounded : input.length ≤ 2 ^ 32)
    (fits : outputi ≤ output.length) (near : state.fposition.toNat < 2 ^ 40 + 2 ^ 24) :
    ∃ state' rest output' outputi' ys b,
      stepOverSamples fn stepSize state input output outputi = (state', rest, output', outputi') ∧
      StepsOver fn stepSize state input output outputi state' rest output' outputi' ys b := by
  rw [stepOverSamples, if_neg nonempty]
  dsimp only
  have long : (state.xn2 :: state.xn1 :: input).length = input.length + 2 := rfl
  obtain ⟨ys, stops⟩ := @stepLoop_stops fn (state.xn2 :: state.xn1 :: input) stepSize
    (by omega) slow (output.length - outputi) ⟨state.fposition, 0, output, outputi⟩
    (.of (by omega) (by omega) (by omega)) (by dsimp only; omega)
  generalize stepLoop fn _ stepSize _ _ = r at stops ⊢
  have inside := stops.near.inside
  have below := stops.near.below
  have above := stops.near.above
  have position := stops.position
  have index := stops.index
  have room := stops.inRoom
  refine ⟨_, _, _, _, ys, r.inputi, rfl, ?_, ?_, ?_, stops.outputs, stops.size, stops.written,
    ?_, ?_⟩
  · rw [List.drop_eq_getElem_cons (by omega), List.drop_eq_getElem_cons (by omega)]
    simp only [List.getD_eq_getElem?_getD]
    rw [List.getElem?_eq_getElem (by omega), List.getElem?_eq_getElem (by omega)]
    rfl
  · rw [toNat_rebase below]
    dsimp only at position
    omega
  · rw [toNat_rebase below]
    omega
  · dsimp only at index
    omega
  · rcases stops.ended with full | used
    · dsimp only at index
      omega
    · right
      exact List.drop_of_length_le (le_of_eq used.symm)

end AudioInterp

namespace Source

def waiting (s : Source) : List Sample := s.currentBuffer ++ s.inputQueue.flatMap (·.samples)

/-- A source somewhere in its stream, after it has put out `produced`: `b` samples are behind
its two samples of history. -/
structure Follows (fn : Filter) (step start : Nat) (stream : List Sample) (s : Source)
    (produced : List Sample) (b : Nat) : Prop where
  filter : s.filter = fn
  stepSize : s.stepSize.toNat = step
  samples : stream.drop b = s.interpState.xn2 :: s.interpState.xn1 :: s.waiting
  position : s.interpState.fposition.toNat + 2 ^ 24 * b = start + produced.length * step
  near : s.interpState.fposition.toNat < 2 ^ 40 + 2 ^ 24
  bounded : s.currentBuffer.length ≤ 2 ^ 32
  outputs : Interpolated fn stream start step produced

variable {fn : Filter} {step start b : Nat} {stream produced : List Sample} {s s' : Source}

theorem waiting_of_refill (none : s.refill = none) : s.waiting = [] := by
  unfold Source.refill dequeueBuffer at none
  split_ifs at none with empty
  split at none
  · next queue =>
    rw [waiting, empty, queue]
    rfl
  · cases none

theorem Follows.refill (h : Follows fn step start stream s produced b)
    (refilled : s.refill = some s') :
    Follows fn step start stream s' produced b ∧ s'.currentBuffer ≠ [] ∧
      (s'.inputQueue = s.inputQueue ∧ s.currentBuffer ≠ [] ∨
        s'.inputQueue.length + 1 = s.inputQueue.length) := by
  unfold Source.refill dequeueBuffer at refilled
  split_ifs at refilled with empty
  · split at refilled
    · cases refilled
    · next first rest queue =>
      cases refilled
      refine ⟨⟨h.filter, h.stepSize, ?_, h.position, h.near, first.bounded, h.outputs⟩,
        first.nonempty, .inr (by rw [queue, List.length_cons])⟩
      rw [h.samples, waiting, empty, queue]
      rfl
  · cases refilled
    exact ⟨h, empty, .inl ⟨rfl, empty⟩⟩

theorem Follows.interpolate (h : Follows fn step start stream s produced b)
    (slow : step ≤ 2 ^ 40) (nonempty : s.currentBuffer ≠ []) (fits : position ≤ frame.length) :
    ∃ s' frame' position' ys b', s.interpolate frame position = (s', frame', position') ∧
      Follows fn step start stream s' (produced ++ ys) b' ∧
      s'.inputQueue = s.inputQueue ∧ frame'.take position' = frame.take position ++ ys ∧
      frame'.length = frame.length ∧
      position' ≤ frame'.length ∧ (position' = frame'.length ∨ s'.currentBuffer = []) := by
  obtain ⟨state, rest, frame', position', ys, c, eq, outcome⟩ :=
    stepOverSamples_stepsOver s.filter (by rw [h.stepSize]; exact slow) nonempty h.bounded fits
      h.near
  have total := outcome.position
  have before := h.position
  have samples := congrArg (List.drop c) h.samples
  have whole : s.interpState.xn2 :: s.interpState.xn1 :: s.waiting =
      (s.interpState.xn2 :: s.interpState.xn1 :: s.currentBuffer) ++
        s.inputQueue.flatMap (·.samples) := rfl
  have cut : c ≤ (s.interpState.xn2 :: s.interpState.xn1 :: s.currentBuffer).length := by
    by_contra beyond
    have none_left := outcome.samples
    rw [List.drop_of_length_le (by omega)] at none_left
    cases none_left
  have now := outcome.outputs.more_input (s.inputQueue.flatMap (·.samples))
  rw [← whole, ← h.samples] at now
  have placed := now.of_drop
  rw [h.position, h.filter, h.stepSize] at placed
  rw [h.stepSize] at total
  refine ⟨{ s with interpState := state, currentBuffer := rest }, frame', position', ys, b + c,
    by rw [Source.interpolate, eq], ?_, rfl, outcome.written, outcome.size, ?_, ?_⟩
  rotate_left
  · rw [outcome.size]
    exact outcome.fits
  · rw [outcome.size]
    exact outcome.ended
  exact {
    filter := h.filter
    stepSize := h.stepSize
    samples := by
      rw [List.drop_drop] at samples
      rw [samples, whole, List.drop_append_of_le_length cut, outcome.samples]
      rfl
    position := by
      dsimp only
      rw [List.length_append, Nat.add_mul]
      omega
    near := outcome.near
    bounded := by
      have sizes := congrArg List.length outcome.samples
      have bounded := h.bounded
      simp only [List.length_drop, List.length_cons] at sizes
      dsimp only
      omega
    outputs := h.outputs.append placed }

/-- The frame is filled, or all samples there were are used up. -/
structure Fills (s : Source) (frame : List Sample) (position length : Nat) : Prop where
  size : frame.length = length
  inside : position ≤ length
  ends : position = length ∨ s.waiting = []

theorem Follows.frameLoop (slow : step ≤ 2 ^ 40) {before : List Sample} (fuel : Nat) {s : Source}
    {b : Nat} (h : Follows fn step start stream s (before ++ frame.take position) b)
    (fits : position ≤ frame.length)
    (enough : s.inputQueue.length + (if s.currentBuffer = [] then 1 else 2) ≤ fuel) :
    ∃ s' frame' position' b', s.frameLoop fuel frame position = .ok (s', frame', position') ∧
      Follows fn step start stream s' (before ++ frame'.take position') b' ∧
      Fills s' frame' position' frame.length := by
  induction fuel generalizing s frame position b with
  | zero => split_ifs at enough <;> omega
  | succ fuel ih =>
    rw [Source.frameLoop]
    split_ifs with more
    · split
      · next none =>
        exact ⟨s, frame, position, b, rfl, h, rfl, fits, .inr (waiting_of_refill none)⟩
      · next s₁ refilled =>
        obtain ⟨follows, nonempty, queue⟩ := h.refill refilled
        obtain ⟨s₂, frame', position', ys, b', eq, after, same, written, size, inside, ended⟩ :=
          follows.interpolate slow nonempty fits
        rw [eq]
        dsimp only
        rw [List.append_assoc, ← written] at after
        have left : s₂.inputQueue.length + 1 ≤ fuel := by
          rw [same]
          split_ifs at enough with empty
          · rcases queue with ⟨_, busy⟩ | shorter
            · exact absurd empty busy
            · omega
          · rcases queue with ⟨kept, _⟩ | shorter
            · rw [kept]
              omega
            · omega
        rcases ended with full | used
        · -- A full frame needs one more look at the loop's condition.
          obtain ⟨fuel, rfl⟩ := Nat.exists_eq_add_one.mpr (by omega : 0 < fuel)
          rw [Source.frameLoop, if_neg (by omega)]
          exact ⟨s₂, frame', position', b', rfl, after, size, size ▸ inside, .inl (size ▸ full)⟩
        · rw [← size]
          exact ih after inside (by rw [if_pos used]; exact left)
    · exact ⟨s, frame, position, b, rfl, h, rfl, fits, .inl (by omega)⟩

theorem Follows.generateFrame (slow : step ≤ 2 ^ 40)
    (h : Follows fn step start stream s produced b) (length : Nat) :
    ∃ s' frame position b', s.generateFrame length = .ok (s', frame, position) ∧
      Follows fn step start stream s' (produced ++ frame.take position) b' ∧
      Fills s' frame position length := by
  unfold Source.generateFrame
  split
  · next none =>
    exact ⟨s, _, 0, b, rfl, by simpa using h, List.length_replicate, Nat.zero_le _,
      .inr (waiting_of_refill none)⟩
  · next s₁ refilled =>
    obtain ⟨follows, nonempty, -⟩ := h.refill refilled
    have filled := Follows.frameLoop slow (s₁.inputQueue.length + 2)
      (show Follows fn step start stream s₁
        (produced ++ (List.replicate length silence).take 0) b by simpa using follows)
      (Nat.zero_le _) (by rw [if_neg nonempty])
    rwa [List.length_replicate] at filled

end Source

namespace Playback

open Source

def samplesOf : PlaybackEvent → List Sample
  | .enqueue b => b.samples
  | .generateFrame _ => []

theorem step_follows {fn : Filter} {step start : Nat} {b : Nat} (slow : step ≤ 2 ^ 40)
    (h : Follows fn step start p.stream p.source p.produced b) (event : PlaybackEvent) :
    ∃ p' b', p.step event = .ok p' ∧ p'.stream = p.stream ++ samplesOf event ∧
      Follows fn step start p'.stream p'.source p'.produced b' := by
  cases event with
  | enqueue buffer =>
    refine ⟨_, b, rfl, rfl, h.filter, h.stepSize, ?_, h.position, h.near, h.bounded,
      h.outputs.more_input _⟩
    have cut : b ≤ p.stream.length := by
      by_contra beyond
      have none_left := h.samples
      rw [List.drop_of_length_le (by omega)] at none_left
      cases none_left
    rw [List.drop_append_of_le_length cut, h.samples]
    simp [waiting]
  | generateFrame length =>
    obtain ⟨s', frame, position, b', eq, after, -⟩ := h.generateFrame slow length
    refine ⟨{ p with source := s', produced := p.produced ++ frame.take position }, b', ?_,
      (List.append_nil _).symm, after⟩
    rw [Playback.step, eq]
    rfl

/-- A frame takes as many outputs as there are, or as it has room for. -/
theorem generateFrame_delivers {fn : Filter} {step start b : Nat} (slow : step ≤ 2 ^ 40)
    (h : Follows fn step start p.stream p.source p.produced b) (length : Nat) :
    ∃ p' n, p.step (.generateFrame length) = .ok p' ∧ n ≤ length ∧
      p'.produced.length = p.produced.length + n ∧ (n = length ∨ p'.source.waiting = []) := by
  obtain ⟨s', frame, n, b', eq, -, fills⟩ := h.generateFrame slow length
  refine ⟨{ p with source := s', produced := p.produced ++ frame.take n }, n, ?_, fills.inside, ?_,
    fills.ends⟩
  · rw [Playback.step, eq]
    rfl
  · rw [List.length_append, List.length_take, fills.size, Nat.min_eq_left fills.inside]

theorem run_follows {fn : Filter} {step start : Nat} (slow : step ≤ 2 ^ 40)
    (events : List PlaybackEvent) {b : Nat}
    (h : Follows fn step start p.stream p.source p.produced b) :
    ∃ p' b', p.run events = .ok p' ∧ p'.stream = p.stream ++ events.flatMap samplesOf ∧
      Follows fn step start p'.stream p'.source p'.produced b' := by
  induction events generalizing p b with
  | nil => exact ⟨p, b, rfl, by simp, h⟩
  | cons event rest ih =>
    obtain ⟨p₁, b₁, eq, stream, follows⟩ := step_follows slow h event
    obtain ⟨p', b', ends, all, after⟩ := ih follows
    refine ⟨p', b', ?_, ?_, after⟩
    · rw [run, List.foldlM_cons, eq]
      exact ends
    · rw [all, stream, List.flatMap_cons, List.append_assoc]

theorem start_follows (mode : InterpolationMode) (stepSize : UInt64)
    (near : state.fposition.toNat < 2 ^ 40) :
    Follows (start mode stepSize state).source.filter stepSize.toNat state.fposition.toNat
      (start mode stepSize state).stream (start mode stepSize state).source [] 0 where
  filter := rfl
  stepSize := rfl
  samples := rfl
  position := by simp [start]
  near := by
    dsimp only [start]
    omega
  bounded := Nat.zero_le _
  outputs := .nil

theorem drained {fn : Filter} {step start b : Nat} {stream produced : List Sample} {s : Source}
    (h : Follows fn step start stream s produced b) (empty : s.waiting = []) :
    reference fn stream start step produced.length = none := by
  apply interpolateAt_eq_none
  have sizes := congrArg List.length h.samples
  rw [empty, List.length_drop] at sizes
  simp only [List.length_cons, List.length_nil] at sizes
  rw [← h.position]
  omega

end Playback

end EmuThreeDS
