import EmuThreeDS.Audio.Resampling
import EmuThreeDS.Audio.Sources
import EmuThreeDS.Lib.Runs
import Mathlib.Data.Prod.Lex

/-!
# Where the frames of a source end

A turn of the frame loop puts out samples, or moves on through a buffer, or takes a buffer out of
the queue. But a looping buffer without samples goes back into the queue for nothing, and with an
unknown interpolation mode no sample is used up.
-/
namespace EmuThreeDS.HLE

open AudioInterp BinaryHeap StepLoop Runs

/-- The run does not run out of fuel, and what it returns satisfies `Q`. -/
abbrev Halts {α : Type} (x : Exec α) (Q : α → Prop) : Prop := Meets (· = .outOfFuel) x Q

section

variable {α β : Type}

theorem halts_get (buffer : List α) (i : Nat) : Halts (Buffer.get buffer i) fun _ => True := by
  unfold Buffer.get
  split
  · exact meets_ok trivial
  · exact meets_error nofun

theorem halts_set (buffer : List α) (i : Nat) (a : α) :
    Halts (Buffer.set buffer i a) fun result => result.length = buffer.length := by
  apply meets_ite
  · exact fun _ => meets_ok List.length_set
  · exact fun _ => meets_error nofun

theorem halts_int (i : Int) : Halts (Codec.int i) fun _ => True := by
  apply meets_ite
  · exact fun _ => meets_ok trivial
  · exact fun _ => meets_error nofun

theorem halts_mapM {f : α → Exec β} (each : ∀ a, Halts (f a) fun _ => True) (xs : List α) :
    Halts (xs.mapM f) fun ys => ys.length = xs.length := by
  induction xs with
  | nil => exact meets_ok rfl
  | cons a xs ih =>
    rw [List.mapM_cons]
    apply meets_bind (each a)
    intro y _
    apply meets_bind ih
    intro ys length
    exact meets_ok (congrArg Nat.succ length)

theorem halts_readS16 (data : List UInt8) (i : Nat) : Halts (readS16 data i) fun _ => True := by
  apply meets_bind (halts_get data i)
  intro low _
  apply meets_bind (halts_get data (i + 1))
  exact fun high _ => meets_ok trivial

theorem halts_decodePCM8 (stereo : Bool) (data : List UInt8) (n : Nat) :
    Halts (decodePCM8 stereo data n) fun samples => samples.length = n := by
  refine (halts_mapM (fun i => ?_) (List.range n)).mono fun samples length => by simpa using length
  apply meets_ite
  · intro _
    apply meets_bind (halts_get data (i * 2))
    intro left _
    apply meets_bind (halts_get data (i * 2 + 1))
    exact fun right _ => meets_ok trivial
  · intro _
    apply meets_bind (halts_get data i)
    exact fun sample _ => meets_ok trivial

theorem halts_decodePCM16 (stereo : Bool) (data : List UInt8) (n : Nat) :
    Halts (decodePCM16 stereo data n) fun samples => samples.length = n := by
  refine (halts_mapM (fun i => ?_) (List.range n)).mono fun samples length => by simpa using length
  apply meets_ite
  · intro _
    apply meets_bind (halts_readS16 data (i * 4))
    intro left _
    apply meets_bind (halts_readS16 data (i * 4 + 2))
    exact fun right _ => meets_ok trivial
  · intro _
    apply meets_bind (halts_readS16 data (i * 2))
    exact fun sample _ => meets_ok trivial

theorem halts_fillSample (header : Codec.Header) (nibble : UInt8) (i : Nat)
    (run : Codec.Feedback × List Sample) :
    Halts (Codec.fillSample header nibble i run) fun run' => run'.2.length = run.2.length := by
  have sample : ∀ feedback n, Halts (Codec.decodeSample header feedback n) fun _ => True := by
    intro feedback n
    iterate 7 refine meets_bind (halts_int _) fun _ _ => ?_
    exact meets_ok trivial
  apply meets_bind (sample _ _)
  intro feedback _
  apply meets_bind (halts_set _ _ _)
  exact fun ret length => meets_ok length

theorem halts_decodePairs (data : List UInt8) (n : Nat) (header : Codec.Header) (turns : Nat)
    (outputi datai : Nat) (run : Codec.Feedback × List Sample) :
    Halts (Codec.decodePairs data n header turns outputi datai run)
      fun run' => run'.2.length = run.2.length := by
  induction turns generalizing outputi datai run with
  | zero => exact meets_ok rfl
  | succ turns ih =>
    apply meets_ite
    · intro _
      have pair : Halts (Codec.decodePair data header outputi datai run)
          fun run' => run'.2.length = run.2.length := by
        apply meets_bind (halts_get data datai)
        intro high _
        apply meets_bind (halts_fillSample ..)
        intro run' first
        apply meets_bind (halts_get data datai)
        intro low _
        exact (halts_fillSample ..).mono fun run'' second => second.trans first
      apply meets_bind pair
      intro run' first
      exact (ih _ _ run').mono fun run'' rest => rest.trans first
    · exact fun _ => meets_ok rfl

theorem halts_decodeADPCM (data : List UInt8) (n : Nat) (coeff : Fin 16 → Int16)
    (state : Codec.ADPCMState) : Halts (Codec.decodeADPCM data n coeff state)
      fun decoded => decoded.1.length = Codec.retSize n := by
  have frames : ∀ framei run, Halts (Codec.decodeFrames data n coeff run framei)
      fun run' => run'.2.length = run.2.length := by
    intro framei
    induction framei with
    | zero => exact fun run => meets_ok rfl
    | succ framei ih =>
      intro run
      apply meets_bind (ih run)
      intro run' first
      apply meets_bind (halts_get data (framei * 8))
      intro frameHeader _
      exact (halts_decodePairs ..).mono fun run'' rest => rest.trans first
  apply meets_bind (frames _ _)
  exact fun run length => meets_ok (length.trans List.length_replicate)

theorem halts_weigh (terms : List (Int × Int16)) : Halts (weigh terms) fun _ => True := by
  apply meets_foldlM trivial
  intro sum _ term _
  apply meets_bind (halts_int _)
  exact fun product _ => halts_int _

theorem halts_filterFrame {F : Type} {processSample : F → Sample → Exec (F × Sample)}
    (each : ∀ f x, Halts (processSample f x) fun _ => True) (f : F) (frame : List Sample) :
    Halts (filterFrame processSample f frame) fun _ => True := by
  induction frame generalizing f with
  | nil => exact meets_ok trivial
  | cons x xs ih =>
    apply meets_bind (each f x)
    intro first _
    apply meets_bind (ih first.1)
    exact fun rest _ => meets_ok trivial

theorem halts_processFrame (f : SourceFilters) (frame : List Sample) :
    Halts (f.processFrame frame) fun _ => True := by
  have simple : ∀ (f : SimpleFilter) x, Halts (f.processSample x) fun _ => True := by
    intro f x
    iterate 2
      refine meets_bind (P := fun _ => True)
        (meets_bind (halts_weigh _) fun _ _ => meets_ok trivial) fun _ _ => ?_
    exact meets_ok trivial
  have biquad : ∀ (f : BiquadFilter) x, Halts (f.processSample x) fun _ => True := by
    intro f x
    iterate 2
      refine meets_bind (P := fun _ => True)
        (meets_bind (halts_weigh _) fun _ _ => meets_ok trivial) fun _ _ => ?_
    exact meets_ok trivial
  apply meets_bind (P := fun _ => True)
  · exact meets_ite (fun _ => halts_filterFrame simple ..) fun _ => meets_ok trivial
  intro first _
  apply meets_bind (P := fun _ => True)
  · exact meets_ite (fun _ => halts_filterFrame biquad ..) fun _ => meets_ok trivial
  exact fun second _ => meets_ok trivial

end

theorem stepLoop_moves (fn : Filter) (input : List Sample) (stepSize : UInt64) (room : Nat)
    (s : Stepped) : let r := stepLoop fn input stepSize room s
    r.output.length = s.output.length ∧ r.outputi ≤ s.outputi + room ∧
      (s.outputi < r.outputi ∨ r.outputi = s.outputi ∧ (0 < room → r.fposition = s.fposition ∧
        input.length ≤ s.fposition.toNat / 2 ^ 24 + 2 ∧ r.inputi = input.length - 2)) := by
  induction room generalizing s with
  | zero => exact ⟨rfl, le_rfl, .inr ⟨rfl, nofun⟩⟩
  | succ room ih =>
    rw [stepLoop]
    dsimp only
    split_ifs with more
    · obtain ⟨size, bound, moved⟩ := ih
        { fposition := s.fposition + stepSize
          inputi := (s.fposition / scaleFactor).toNat
          output := s.output.set s.outputi (fn (s.fposition &&& scaleMask)
            input[(s.fposition / scaleFactor).toNat] input[(s.fposition / scaleFactor).toNat + 1]
            input[(s.fposition / scaleFactor).toNat + 2])
          outputi := s.outputi + 1 }
      dsimp only at size bound moved
      refine ⟨size.trans List.length_set, by omega, .inl ?_⟩
      omega
    · rw [toNat_whole] at more
      exact ⟨rfl, Nat.le_add_right .., .inr ⟨rfl, fun _ => ⟨rfl, by omega, rfl⟩⟩⟩

theorem stepOverSamples_moves (fn : Filter) (stepSize : UInt64) (state : State)
    {input : List Sample} (output : List Sample) {outputi : Nat} (nonempty : input ≠ [])
    (room : outputi < output.length) :
    let r := stepOverSamples fn stepSize state input output outputi
    r.2.2.1.length = output.length ∧ r.2.2.2 ≤ output.length ∧
      (outputi < r.2.2.2 ∨ r.2.2.2 = outputi ∧ r.1.fposition < state.fposition) := by
  have some_samples : 0 < input.length := List.length_pos_iff.mpr nonempty
  obtain ⟨size, bound, moved⟩ := stepLoop_moves fn (state.xn2 :: state.xn1 :: input) stepSize
    (output.length - outputi) ⟨state.fposition, 0, output, outputi⟩
  rw [stepOverSamples, if_neg nonempty]
  dsimp only at size bound moved ⊢
  refine ⟨size, by omega, moved.imp id ?_⟩
  rintro ⟨still, stopped⟩
  obtain ⟨position, ended, inputi⟩ := stopped (by omega)
  rw [List.length_cons, List.length_cons] at ended inputi
  refine ⟨still, UInt64.lt_iff_toNat_lt.mpr ?_⟩
  rw [position, toNat_rebase (by omega)]
  omega

namespace Source

variable {ρ : Type} (valid : UInt32 → Bool) (bytes : UInt32 → List UInt8)

/-- A looping buffer has samples, or is dropped because its address is bad. -/
def Playable (b : QueuedBuffer) : Prop :=
  b.isLooping → valid (b.physicalAddress &&& 0xFFFFFFFC) → b.length ≠ 0 ∧ b.format ≠ .reserved

def AllPlayable (s : Source ρ) : Prop := ∀ b ∈ s.inputQueue.toList, Playable valid b

variable {valid bytes} {s s' : Source ρ}

theorem mem_enqueue {b c : QueuedBuffer} :
    c ∈ (s.enqueue b).inputQueue.toList ↔ c ∈ s.inputQueue.toList ∨ c = b := by
  unfold enqueue
  rw [pushHeap_perm.mem_iff, Array.toList_push, List.mem_append, List.mem_singleton]

theorem decode_halts (s : Source ρ) (buf : QueuedBuffer) (memory : List UInt8) :
    Halts (s.decode buf memory) fun s' => ∃ samples state,
      s' = { s with currentBuffer := samples, adpcmState := state } ∧
        (samples.length ≤ 2 ^ 32 ∨ samples = s.currentBuffer) ∧
        (buf.length ≠ 0 → buf.format ≠ .reserved → samples ≠ []) := by
  have some_samples : ∀ {samples : List Sample} {n : Nat}, samples.length = n →
      (buf.length ≠ 0 → n ≠ 0) → n ≤ 2 ^ 32 →
      (samples.length ≤ 2 ^ 32 ∨ samples = s.currentBuffer) ∧
        (buf.length ≠ 0 → buf.format ≠ .reserved → samples ≠ []) := by
    rintro samples _ rfl positive few
    refine ⟨.inl few, ?_⟩
    rintro long _ rfl
    exact positive long rfl
  have word := buf.length.toNat_lt
  have positive : buf.length ≠ 0 → buf.length.toNat ≠ 0 := fun long none => long (by
    rwa [← UInt32.toNat_inj])
  unfold decode
  split
  · apply meets_bind (halts_decodePCM8 ..)
    exact fun samples length => meets_ok ⟨_, _, rfl, some_samples length positive word.le⟩
  · apply meets_bind (halts_decodePCM16 ..)
    exact fun samples length => meets_ok ⟨_, _, rfl, some_samples length positive word.le⟩
  · apply meets_bind (halts_decodeADPCM ..)
    refine fun decoded length => meets_ok ⟨_, _, rfl, some_samples length (fun long => ?_) ?_⟩
    · have := positive long
      unfold Codec.retSize
      split_ifs <;> omega
    · unfold Codec.retSize
      split_ifs <;> omega
  · exact meets_ok ⟨_, _, rfl, .inr rfl, fun _ known => absurd ‹_› known⟩

structure Refilled (valid : UInt32 → Bool) (s s' : Source ρ) : Prop where
  interpState : s'.interpState = s.interpState
  interpolationMode : s'.interpolationMode = s.interpolationMode
  rateMultiplier : s'.rateMultiplier = s.rateMultiplier
  filters : s'.filters = s.filters
  bounded : s.currentBuffer = [] → s'.currentBuffer.length ≤ 2 ^ 32
  playable : s.AllPlayable valid → s'.AllPlayable valid
  progress : s.AllPlayable valid → s'.currentBuffer ≠ [] ∨ s'.inputQueue.size < s.inputQueue.size

theorem playing_refilled {popped : Array QueuedBuffer} {buf : QueuedBuffer} {samples : List Sample}
    {state : Codec.ADPCMState} (all : (buf :: popped.toList).Perm s.inputQueue.toList)
    (there : valid (buf.physicalAddress &&& 0xFFFFFFFC))
    (few : samples.length ≤ 2 ^ 32 ∨ samples = s.currentBuffer)
    (plays : buf.length ≠ 0 → buf.format ≠ .reserved → samples ≠ []) :
    Refilled valid s (playing
      { s with inputQueue := popped, currentBuffer := samples, adpcmState := state } buf) := by
  have size : popped.size + 1 = s.inputQueue.size := by simpa using all.length_eq
  have bounded : s.currentBuffer = [] → samples.length ≤ 2 ^ 32 := by
    intro empty
    rcases few with few | rfl
    · exact few
    · exact empty ▸ Nat.zero_le _
  unfold playing
  by_cases loops : buf.isLooping
  · rw [if_pos loops]
    refine ⟨rfl, rfl, rfl, rfl, bounded, fun playable b member => ?_, fun playable => .inl ?_⟩
    · rcases mem_enqueue.mp member with old | rfl
      · exact playable b (all.mem_iff.mp (List.mem_cons_of_mem _ old))
      · exact playable buf (all.mem_iff.mp (List.mem_cons_self ..))
    · obtain ⟨long, known⟩ := playable buf (all.mem_iff.mp (List.mem_cons_self ..)) loops there
      exact plays long known
  · rw [if_neg loops]
    refine ⟨rfl, rfl, rfl, rfl, bounded, fun playable b member => ?_,
      fun _ => .inr (Nat.lt_of_succ_le size.le)⟩
    exact playable b (all.mem_iff.mp (List.mem_cons_of_mem _ member))

theorem dequeueBuffer_halts (s : Source ρ) : Halts (s.dequeueBuffer valid bytes) fun dequeued =>
    ∀ s' ∈ dequeued, Refilled valid s s' := by
  unfold dequeueBuffer
  cases first : s.inputQueue[0]? with
  | none =>
    refine meets_ok fun s' absent => ?_
    cases absent
  | some buf =>
    dsimp only
    obtain ⟨inside, front⟩ := Array.getElem?_eq_some_iff.mp first
    have all := @popHeap_perm _ _ _ QueuedBuffer.order _ inside
    rw [front] at all
    generalize popHeap QueuedBuffer.order s.inputQueue = popped at all ⊢
    unfold physicalPointer
    by_cases there : valid (buf.physicalAddress &&& 0xFFFFFFFC)
    · rw [if_pos there]
      apply meets_bind (decode_halts ..)
      rintro _ ⟨samples, state, rfl, few, plays⟩
      rintro _ ⟨⟩
      exact playing_refilled all there few plays
    · rw [if_neg there]
      rintro _ ⟨⟩
      have size : popped.size + 1 = s.inputQueue.size := by simpa using all.length_eq
      refine ⟨rfl, rfl, rfl, rfl, fun _ => Nat.zero_le _, fun playable b member => ?_,
        fun _ => .inr (Nat.lt_of_succ_le size.le)⟩
      exact playable b (all.mem_iff.mp (List.mem_cons_of_mem _ member))

theorem refill_halts (s : Source ρ) : Halts (s.refill valid bytes) fun refilled =>
    ∀ s' ∈ refilled, Refilled valid s s' := by
  apply meets_ite
  · exact fun _ => dequeueBuffer_halts s
  · rintro samples
    rintro _ ⟨⟩
    exact ⟨rfl, rfl, rfl, rfl, fun empty => absurd empty samples, id, fun _ => .inl samples⟩

section

variable [Rate ρ] {x y : Filling ρ}

structure Filling.Inside (x : Filling ρ) : Prop where
  size : x.currentFrame.length = samplesPerFrame
  within : x.framePosition ≤ samplesPerFrame

theorem stepOver_moves (inside : x.Inside) (room : x.framePosition < samplesPerFrame)
    (fn : Filter) : (x.stepOver fn).Inside ∧ (x.source.currentBuffer ≠ [] →
      x.framePosition < (x.stepOver fn).framePosition ∨
        (x.stepOver fn).framePosition = x.framePosition ∧
          (x.stepOver fn).source.interpState.fposition < x.source.interpState.fposition) := by
  have size := inside.size
  by_cases samples : x.source.currentBuffer = []
  · have still : x.stepOver fn = x := by
      unfold Filling.stepOver stepOverSamples
      rw [if_pos samples]
    rw [still]
    exact ⟨inside, fun some_samples => absurd samples some_samples⟩
  · rw [← size] at room
    obtain ⟨length, bound, moved⟩ := stepOverSamples_moves fn
      (Rate.stepSize x.source.rateMultiplier) x.source.interpState x.currentFrame samples room
    exact ⟨⟨length.trans size, bound.trans size.le⟩, fun _ => moved⟩

theorem interpolate_cases (x : Filling ρ) : (∃ fn, x.interpolate = x.stepOver fn) ∨
      x.interpolate = x ∧ interpolation x.source.interpolationMode = none := by
  unfold Filling.interpolate
  split
  · exact .inl ⟨_, rfl⟩
  · exact .inl ⟨_, rfl⟩
  · exact .inl ⟨_, rfl⟩
  · exact .inr ⟨rfl, ‹_›⟩

theorem turn_next (next : Next (turn valid bytes) x y) :
    x.framePosition < samplesPerFrame ∧ ∃ s, Refilled valid x.source s ∧
      y = Filling.interpolate { x with source := s } := by
  unfold Next turn at next
  split_ifs at next with room
  · obtain ⟨refilled, run, rest⟩ := bind_eq_ok.mp next
    cases refilled with
    | none => cases rest
    | some s =>
      cases rest
      exact ⟨room, s, (refill_halts _).ok run s rfl, rfl⟩
  · cases next

theorem next_inside (inside : x.Inside) (next : Next (turn valid bytes) x y) : y.Inside := by
  obtain ⟨room, s, _, rfl⟩ := turn_next next
  have inside' : Filling.Inside { x with source := s } := ⟨inside.size, inside.within⟩
  rcases interpolate_cases { x with source := s } with ⟨fn, eq⟩ | ⟨eq, _⟩
  · rw [eq]
    exact (stepOver_moves inside' room fn).1
  · rwa [eq]

theorem next_playable (playable : x.source.AllPlayable valid)
    (next : Next (turn valid bytes) x y) : y.source.AllPlayable valid := by
  obtain ⟨_, s, refilled, rfl⟩ := turn_next next
  have playable' := refilled.playable playable
  rcases interpolate_cases { x with source := s } with ⟨fn, eq⟩ | ⟨eq, _⟩
  · rw [eq]
    exact playable'
  · rwa [eq]

/-- What is left to do: samples of the frame, a way through a buffer, buffers of the queue. -/
def Filling.left (x : Filling ρ) : ℕ ×ₗ ℕ ×ₗ ℕ :=
  toLex (samplesPerFrame - x.framePosition,
    toLex (x.source.interpState.fposition.toNat, x.source.inputQueue.size))

structure Filling.Ready (valid : UInt32 → Bool) (x : Filling ρ) : Prop where
  inside : x.Inside
  mode : interpolation x.source.interpolationMode ≠ none
  playable : x.source.AllPlayable valid

theorem next_left (ready : x.Ready valid) (next : Next (turn valid bytes) x y) :
    y.Ready valid ∧ y.left < x.left := by
  have inside := next_inside ready.inside next
  have playable := next_playable ready.playable next
  obtain ⟨room, s, refilled, rfl⟩ := turn_next next
  have mode := ready.mode
  rw [← refilled.interpolationMode] at mode
  have inside' : Filling.Inside { x with source := s } := ⟨ready.inside.size, ready.inside.within⟩
  rcases interpolate_cases { x with source := s } with ⟨fn, eq⟩ | ⟨_, unknown⟩
  · obtain ⟨_, moves⟩ := stepOver_moves inside' room fn
    rw [eq] at inside playable ⊢
    refine ⟨⟨inside, mode, playable⟩, ?_⟩
    unfold Filling.left
    rw [Prod.Lex.toLex_lt_toLex, Prod.Lex.toLex_lt_toLex]
    dsimp only at moves
    rw [refilled.interpState] at moves
    by_cases samples : s.currentBuffer = []
    · have shorter := (refilled.progress ready.playable).resolve_left (not_not.mpr samples)
      have still : Filling.stepOver { x with source := s } fn = { x with source := s } := by
        unfold Filling.stepOver stepOverSamples
        rw [if_pos samples]
      rw [still]
      rw [refilled.interpState]
      exact .inr ⟨rfl, .inr ⟨rfl, shorter⟩⟩
    · rcases moves samples with further | ⟨still, less⟩
      · exact .inl (by omega)
      · exact .inr ⟨by omega, .inl less⟩
  · exact absurd unknown mode

def Ends (valid : UInt32 → Bool) (bytes : UInt32 → List UInt8) (s : Source ρ) : Prop :=
  ∃ fuel, s.generateFrame valid bytes fuel ≠ .error .outOfFuel

def StaysInside (valid : UInt32 → Bool) (bytes : UInt32 → List UInt8) (s : Source ρ) : Prop :=
  ∀ s', s.refill valid bytes = .ok (some s') →
    ∀ x, Visits (turn valid bytes) s'.filling x → x.Inside

omit [Rate ρ] in
theorem filling_inside (s : Source ρ) : s.filling.Inside :=
  ⟨List.length_replicate, Nat.zero_le _⟩

theorem staysInside (s : Source ρ) : s.StaysInside valid bytes := by
  intro s' _ x visits
  exact visits_invariant Filling.Inside (fun _ _ => next_inside) (filling_inside s') visits

theorem generateFrame_stays (refill : s.refill valid bytes = .ok (some s'))
    (again : Next (turn valid bytes) s'.filling s'.filling) (fuel : Nat) :
    s.generateFrame valid bytes fuel = .error .outOfFuel := by
  unfold generateFrame
  rw [refill, ok_bind]
  dsimp only
  rw [loop_stays again fuel]
  rfl

theorem ends_of_playable (mode : interpolation s.interpolationMode ≠ none)
    (playable : s.AllPlayable valid) : s.Ends valid bytes := by
  have halts : Halts (s.refill valid bytes) fun refilled => ∀ s' ∈ refilled, Refilled valid s s' :=
    refill_halts s
  unfold Ends generateFrame
  cases run : s.refill valid bytes with
  | error e =>
    rw [run] at halts
    refine ⟨0, ?_⟩
    rintro ⟨⟩
    exact halts rfl
  | ok refilled =>
    cases refilled with
    | none => exact ⟨0, nofun⟩
    | some s' =>
      have refilled := halts.ok run s' rfl
      have fine : ∀ x : Filling ρ, turn valid bytes x ≠ .error .outOfFuel := by
        intro x
        have turns : Halts (turn valid bytes x) fun _ => True := by
          apply meets_ite
          · intro _
            apply meets_bind (refill_halts _)
            rintro (_ | s) _
            · exact meets_ok trivial
            · exact meets_ok trivial
          · exact fun _ => meets_ok trivial
        exact fun stop => turns.error stop rfl
      have ready : s'.filling.Ready valid := by
        refine ⟨filling_inside s', ?_, refilled.playable playable⟩
        rwa [← refilled.interpolationMode] at mode
      obtain ⟨fuel, ends⟩ : ∃ fuel, loop .outOfFuel (turn valid bytes) fuel s'.filling ≠
          .error .outOfFuel :=
        loop_ends (InvImage.wf Filling.left wellFounded_lt) (Filling.Ready valid)
          (fun x _ => fine x) (fun x y => next_left) ready
      refine ⟨fuel, fun stop => ?_⟩
      rw [ok_bind] at stop
      rcases bind_eq_error.mp stop with stop | ⟨x, _, stop⟩
      · exact ends stop
      rcases bind_eq_error.mp stop with stop | ⟨processed, _, stop⟩
      · exact (halts_processFrame ..).error stop rfl
      · cases stop

end

section

theorem foldl_enqueue (s : Source ρ) (bs : List QueuedBuffer) :
    ∃ queue, bs.foldl enqueue s = { s with inputQueue := queue } ∧
      ∀ b ∈ queue.toList, b ∈ s.inputQueue.toList ∨ b ∈ bs := by
  induction bs generalizing s with
  | nil => exact ⟨_, rfl, fun b => .inl⟩
  | cons c bs ih =>
    obtain ⟨queue, eq, members⟩ := ih (s.enqueue c)
    refine ⟨queue, eq, fun b member => ?_⟩
    rcases members b member with old | new
    · rcases mem_enqueue.mp old with old | rfl
      · exact .inl old
      · exact .inr (List.mem_cons_self ..)
    · exact .inr (List.mem_cons_of_mem _ new)

theorem updateEmbedded_eq {t : Tick ρ} (run : s.updateEmbedded valid t = .ok s') :
    ∃ samples n, s' = { s with currentBuffer := samples, currentSampleNumber := n } := by
  unfold updateEmbedded at run
  split at run
  · obtain ⟨samples, _, run⟩ := bind_eq_ok.mp run
    split_ifs at run
    · exact ⟨_, _, (Except.ok.inj run).symm⟩
    · exact ⟨_, _, (Except.ok.inj run).symm⟩
  · exact ⟨_, _, (Except.ok.inj run).symm⟩

variable [Rate ρ] {t : Tick ρ}

theorem configure_queue (s : Source ρ) (t : Tick ρ) :
    ∀ b ∈ (s.configure t).inputQueue.toList, b ∈ s.inputQueue.toList := by
  intro b member
  unfold configure assign at member
  dsimp only at member
  split_ifs at member with partialReset reset
  · exact absurd member List.not_mem_nil
  · exact absurd member List.not_mem_nil
  · exact member

theorem parseConfig_eq (dirty : t.config.dirtyRaw ≠ 0) (run : s.parseConfig valid t = .ok s') :
    ∃ samples n queue, s' = { s.configure t with
        currentBuffer := samples, currentSampleNumber := n, inputQueue := queue } ∧
      ∀ b ∈ queue.toList, b ∈ (s.configure t).inputQueue.toList ∨
        b ∈ t.config.newBuffers s'.stereo s'.format := by
  unfold parseConfig at run
  rw [if_neg dirty] at run
  obtain ⟨updated, update, run⟩ := bind_eq_ok.mp run
  have same : ∃ samples n, updated =
      { s.configure t with currentBuffer := samples, currentSampleNumber := n } := by
    split_ifs at update
    · exact updateEmbedded_eq update
    · exact ⟨_, _, (Except.ok.inj update).symm⟩
  obtain ⟨samples, n, rfl⟩ := same
  obtain ⟨queue, eq, members⟩ := foldl_enqueue
    { s.configure t with currentBuffer := samples, currentSampleNumber := n }
    (t.config.newBuffers (s.configure t).stereo (s.configure t).format)
  rw [eq] at run
  cases run
  exact ⟨samples, n, queue, rfl, members⟩

theorem parseConfig_idle (idle : t.config.dirtyRaw = 0) : s.parseConfig valid t = .ok s :=
  if_pos idle

theorem parseConfig_queue (run : s.parseConfig valid t = .ok s') : ∀ b ∈ s'.inputQueue.toList,
      b ∈ s.inputQueue.toList ∨ b ∈ t.config.newBuffers s'.stereo s'.format := by
  by_cases idle : t.config.dirtyRaw = 0
  · cases (parseConfig_idle idle).symm.trans run
    exact fun b => .inl
  · obtain ⟨_, _, queue, rfl, members⟩ := parseConfig_eq idle run
    exact fun b member => (members b member).imp_left (configure_queue s t b)

theorem generateFrame_playable {bytes : UInt32 → List UInt8} {fuel : Nat} {frame : List Sample}
    (playable : s.AllPlayable valid) (run : s.generateFrame valid bytes fuel = .ok (s', frame)) :
    s'.AllPlayable valid := by
  obtain ⟨refilled, refill, run⟩ := bind_eq_ok.mp run
  cases refilled with
  | none =>
    cases run
    exact playable
  | some first =>
    obtain ⟨x, answer, run⟩ := bind_eq_ok.mp run
    obtain ⟨processed, _, run⟩ := bind_eq_ok.mp run
    cases run
    obtain ⟨y, visits, ends⟩ := visits_of_answer answer
    have kept : y.source.AllPlayable valid :=
      visits_invariant (fun x => x.source.AllPlayable valid) (fun _ _ => next_playable)
        (((refill_halts s).ok refill first rfl).playable playable) visits
    have same : x = y := by
      unfold turn at ends
      split_ifs at ends
      · obtain ⟨refilled, _, rest⟩ := bind_eq_ok.mp ends
        cases refilled with
        | none =>
          cases rest
          rfl
        | some s => cases rest
      · cases ends
        rfl
    exact same ▸ kept

def Ticks (valid : UInt32 → Bool) (s : Source ρ) (t : Tick ρ) (s' : Source ρ) : Prop :=
  ∃ fuel heard, s.tick valid fuel t = .ok (s', heard)

/-- A frame is asked for in a known interpolation mode only, and every looping buffer that goes
into the queue has samples or a bad address. -/
def Tame (valid : UInt32 → Bool) (s : Source ρ) (t : Tick ρ) : Prop :=
  ∀ s', s.parseConfig valid t = .ok s' →
    (s'.enabled → interpolation s'.interpolationMode ≠ none) ∧
      ∀ b ∈ t.config.newBuffers s'.stereo s'.format, Playable valid b

theorem parseConfig_playable (playable : s.AllPlayable valid) (tame : Tame valid s t)
    (run : s.parseConfig valid t = .ok s') : s'.AllPlayable valid := by
  intro b member
  rcases parseConfig_queue run b member with old | new
  · exact playable b old
  · exact (tame s' run).2 b new

theorem ticks_playable (playable : s.AllPlayable valid) (tame : Tame valid s t)
    (ticks : Ticks valid s t s') : s'.AllPlayable valid := by
  obtain ⟨fuel, heard, run⟩ := ticks
  obtain ⟨parsed, parse, run⟩ := bind_eq_ok.mp run
  have kept := parseConfig_playable playable tame parse
  split_ifs at run
  · obtain ⟨⟨last, frame⟩, generate, run⟩ := bind_eq_ok.mp run
    cases run
    exact (generateFrame_playable kept generate : last.AllPlayable valid)
  · cases run
    exact kept

/-- As long as all ticks are tame, every frame ends, in its bounds. -/
theorem frames_end (reached : Reachable (· = (fresh : Source ρ)) (Ticks valid) (Tame valid) s)
    (tame : Tame valid s t) (parsed : s.parseConfig valid t = .ok s') (enabled : s'.enabled) :
    s'.Ends valid t.bytes ∧ s'.StaysInside valid t.bytes := by
  have playable : s.AllPlayable valid := by
    apply reached.invariant
    · rintro _ rfl b ⟨⟩
    · exact fun s t s' => ticks_playable
  exact ⟨ends_of_playable ((tame s' parsed).1 enabled)
    (parseConfig_playable playable tame parsed), staysInside s'⟩

end

section

instance : Rate Nat where
  one := 1
  nonpositive r := r = 0
  stepSize r := UInt64.ofNat (r * 2 ^ 24)
  advance n r := UInt32.ofNat (n * r)

def pcm16Buffer (length : UInt32) (isLooping : Bool) : BufferConfig where
  physicalAddress := 0
  length := length
  adpcmYn := (0, 0)
  adpcmDirty := false
  isLooping := isLooping
  bufferId := 1

def start (buffer : BufferConfig) : Tick Nat where
  config :=
    { dirtyRaw := 0x40030000
      rateMultiplier := 1
      interpolationMode := 2
      simpleFilterEnabled := false
      biquadFilterEnabled := false
      simpleFilter := (0, 0)
      biquadFilter := (0, 0, 0, 0, 0)
      buffersDirty := 0
      buffers := fun _ => buffer
      enable := 1
      sync := 0
      playPosition := 0
      embeddedBuffer := buffer
      stereo := false
      format := .pcm16 }
  adpcmCoeffs := fun _ => 0
  bytes := fun _ => [5, 0, 6, 0]

theorem frames_end_two : ∃ s' : Source Nat,
    fresh.parseConfig (fun _ => true) (start (pcm16Buffer 2 true)) = .ok s' ∧
      s'.Ends (fun _ => true) (fun _ => [5, 0, 6, 0]) ∧
        s'.StaysInside (fun _ => true) (fun _ => [5, 0, 6, 0]) := by
  refine ⟨_, rfl, frames_end (.start rfl) (t := start (pcm16Buffer 2 true)) ?_ rfl rfl⟩
  rintro _ ⟨⟩
  refine ⟨nofun, fun b member _ _ => ?_⟩
  obtain rfl := List.mem_singleton.mp member
  exact ⟨nofun, nofun⟩

/-- A looping buffer of length 0 comes back from the queue for ever. -/
theorem generateFrame_hangs : ¬ ∀ (valid : UInt32 → Bool) (s : Source Nat),
    Reachable (· = fresh) (Ticks valid) (fun _ _ => True) s → ∀ t s',
      s.parseConfig valid t = .ok s' → s'.enabled →
        s'.Ends valid t.bytes ∧ s'.StaysInside valid t.bytes := by
  intro all
  obtain ⟨⟨fuel, ends⟩, _⟩ := all (fun _ => true) fresh (.start rfl)
    (start (pcm16Buffer 0 true)) _ rfl rfl
  apply ends
  apply generateFrame_stays
  · exact rfl
  · exact rfl

end

end Source

end EmuThreeDS.HLE
