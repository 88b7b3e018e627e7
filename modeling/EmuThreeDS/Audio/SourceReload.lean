import EmuThreeDS.Audio.SourceFrames

/-!
# Sources in save states

The history of the decoder, of the interpolation and of the filters is not serialised. A source
that has none, or that is reset before it plays again, goes on as it would have.
-/
namespace EmuThreeDS.HLE.Source

open AudioInterp Runs

variable {ρ : Type}

/-- What `serialize` leaves out. -/
structure History where
  adpcmState : Codec.ADPCMState
  interpState : State
  filters : SourceFilters

def remember (h : History) (s : Source ρ) : Source ρ :=
  { s with adpcmState := h.adpcmState, interpState := h.interpState, filters := h.filters }

def noHistory : History := ⟨⟨0, 0⟩, ⟨silence, silence, 0⟩, .reset⟩

def history (s : Source ρ) : History := ⟨s.adpcmState, s.interpState, s.filters⟩

variable {valid : UInt32 → Bool} {s s' : Source ρ} {t : Tick ρ} (h : History)

theorem foldl_enqueue_recall (bs : List QueuedBuffer) (s : Source ρ) :
    bs.foldl enqueue (s.remember h) = (bs.foldl enqueue s).remember h := by
  induction bs generalizing s with
  | nil => rfl
  | cons b bs ih => exact ih (s.enqueue b)

theorem updateEmbedded_recall (s : Source ρ) (t : Tick ρ) :
    (s.remember h).updateEmbedded valid t = remember h <$> s.updateEmbedded valid t := by
  unfold updateEmbedded
  simp only [remember]
  split
  · cases decodePCM16 s.stereo _ t.config.embeddedBuffer.length.toNat with
    | error e => rfl
    | ok samples =>
      by_cases short : samples.length < s.currentSampleNumber.toNat
      · simp only [ok_bind, short, ↓reduceIte]
        rfl
      · simp only [ok_bind, short, ↓reduceIte]
        rfl
  · rfl

variable [Rate ρ]

theorem configure_recall (noReset : t.config.dirty .reset = false) :
    (s.remember h).configure t =
      (s.configure t).remember { h with filters := t.config.configureFilters h.filters } := by
  unfold configure
  rw [noReset]
  rfl

theorem configure_reset (reset : t.config.dirty .reset = true) :
    (s.remember h).configure t = s.configure t := by
  unfold configure
  rw [reset]
  rfl

omit [Rate ρ] in
theorem dirtyRaw_ne_zero {flag : Dirty} (set : t.config.dirty flag = true) :
    t.config.dirtyRaw ≠ 0 := by
  intro idle
  unfold Configuration.dirty at set
  rw [idle] at set
  exact nomatch (Nat.zero_testBit flag.bit).symm.trans set

theorem parseConfig_recall (noReset : t.config.dirty .reset = false) :
    ∃ h', (s.remember h).parseConfig valid t = remember h' <$> s.parseConfig valid t := by
  by_cases idle : t.config.dirtyRaw = 0
  · rw [parseConfig_idle idle, parseConfig_idle idle]
    exact ⟨h, rfl⟩
  · unfold parseConfig
    rw [if_neg idle, if_neg idle]
    dsimp only
    rw [configure_recall h noReset]
    generalize { h with filters := t.config.configureFilters h.filters } = h'
    refine ⟨h', ?_⟩
    have updated : (if t.config.dirty .partialEmbeddedBuffer then
          updateEmbedded valid ((s.configure t).remember h') t
        else .ok ((s.configure t).remember h')) = remember h' <$>
          (if t.config.dirty .partialEmbeddedBuffer then updateEmbedded valid (s.configure t) t
          else .ok (s.configure t)) := by
      split_ifs
      · exact updateEmbedded_recall h' _ t
      · rfl
    rw [updated]
    cases (if t.config.dirty .partialEmbeddedBuffer then updateEmbedded valid (s.configure t) t
      else .ok (s.configure t)) with
    | error e => rfl
    | ok s' => exact congrArg Except.ok (foldl_enqueue_recall h' _ s')

theorem parseConfig_reset (reset : t.config.dirty .reset = true) :
    (s.remember h).parseConfig valid t = s.parseConfig valid t := by
  unfold parseConfig
  rw [if_neg (dirtyRaw_ne_zero reset), if_neg (dirtyRaw_ne_zero reset), configure_reset h reset]

def enabledBy (t : Tick ρ) (enabled : Bool) : Bool :=
  if t.config.dirty .enable then t.config.enable ≠ 0 else enabled

theorem parseConfig_enabled (noReset : t.config.dirty .reset = false)
    (run : s.parseConfig valid t = .ok s') : s'.enabled = enabledBy t s.enabled := by
  by_cases idle : t.config.dirtyRaw = 0
  · cases (parseConfig_idle idle).symm.trans run
    unfold enabledBy
    rw [if_neg fun set => dirtyRaw_ne_zero set idle]
  · obtain ⟨_, _, queue, rfl, _⟩ := parseConfig_eq idle run
    unfold configure
    rw [noReset]
    rfl

def outputs (valid : UInt32 → Bool) (fuel : Nat) (s : Source ρ) :
    List (Tick ρ) → Exec (List (Option (List Sample) × Status))
  | [] => .ok []
  | t :: ts => do
    let (s, output) ← s.tick valid fuel t
    let rest ← outputs valid fuel s ts
    return output :: rest

def ResetsFirst : Bool → List (Tick ρ) → Prop
  | _, [] => True
  | enabled, t :: ts => t.config.dirty .reset = true ∨
      enabledBy t enabled = false ∧ ResetsFirst (enabledBy t enabled) ts

omit h in
theorem tick_disabled (fuel : Nat) (run : s.parseConfig valid t = .ok s')
    (off : s'.enabled = false) : s.tick valid fuel t =
      .ok (s'.getCurrentStatus.1, none, s'.getCurrentStatus.2) := by
  unfold tick
  rw [run, ok_bind, off]
  rfl

theorem outputs_recall {ts : List (Tick ρ)} (fuel : Nat) (resets : ResetsFirst s.enabled ts) :
    outputs valid fuel (s.remember h) ts = outputs valid fuel s ts := by
  induction ts generalizing s h with
  | nil => rfl
  | cons t ts ih =>
    cases reset : t.config.dirty .reset with
    | true =>
      unfold outputs tick
      rw [parseConfig_reset h reset]
    | false =>
      obtain ⟨disabled, rest⟩ := resets.resolve_left (by rw [reset]; exact nofun)
      obtain ⟨h', parsed⟩ : ∃ h', (s.remember h).parseConfig valid t =
        remember h' <$> s.parseConfig valid t := parseConfig_recall h reset
      unfold outputs
      cases run : s.parseConfig valid t with
      | error e =>
        unfold tick
        rw [parsed, run]
        rfl
      | ok s' =>
        have same := parseConfig_enabled reset run
        rw [← same] at disabled rest
        rw [run] at parsed
        rw [tick_disabled fuel run disabled, tick_disabled fuel parsed disabled]
        have later := ih (s := s'.getCurrentStatus.1) h' rest
        exact congrArg (· >>= fun rest => .ok ((none, s'.getCurrentStatus.2) :: rest)) later

/-- A source without a history, or one that is reset before it plays, survives a save state. -/
theorem outputs_reload (valid : UInt32 → Bool) (fuel : Nat) {ts : List (Tick ρ)}
    (kept : s.history = noHistory ∨ ResetsFirst s.enabled ts) :
    outputs valid fuel s.reload ts = outputs valid fuel s ts := by
  have reloaded : s.reload = s.remember noHistory := rfl
  rw [reloaded]
  rcases kept with none | resets
  · rw [← none]
    rfl
  · exact outputs_recall noHistory fuel resets

def restart : Tick Nat :=
  { start (pcm16Buffer 2 false) with
    config := { (start (pcm16Buffer 2 false)).config with dirtyRaw := 0x60030000 } }

theorem outputs_reload_restarted : ∃ s : Source Nat, s.interpState.xn1.left = 6 ∧
    outputs (fun _ => true) 9 s.reload [restart] = outputs (fun _ => true) 9 s [restart] := by
  have value : (fun played : Source Nat × _ => played.1.interpState.xn1.left) <$>
      tick (fun _ => true) 9 fresh (start (pcm16Buffer 2 false)) = .ok 6 := by decide +kernel
  obtain ⟨⟨s, _⟩, _, played⟩ := map_eq_ok.mp value
  exact ⟨s, played, outputs_reload _ _ (.inr (.inl rfl))⟩

def firstLeft : Exec (List (Option (List Sample) × Status)) → Option Int16
  | .ok ((some (sample :: _), _) :: _) => some sample.left
  | _ => none

/-- After a buffer, the next frame begins with its last samples, or with silence. -/
theorem reload_changes_outputs : ¬ ∀ (valid : UInt32 → Bool) (s : Source Nat),
    Reachable (· = fresh) (Ticks valid) (fun _ _ => True) s → ∀ fuel ts,
      outputs valid fuel s.reload ts = outputs valid fuel s ts := by
  intro all
  have differ : (match tick (fun _ => true) 9 fresh (start (pcm16Buffer 2 false)) with
      | .ok (s, _) => decide
          (firstLeft (outputs (fun _ => true) 9 s.reload [start (pcm16Buffer 2 false)]) =
            firstLeft (outputs (fun _ => true) 9 s [start (pcm16Buffer 2 false)]))
      | .error _ => true) = false := by decide +kernel
  cases run : (fresh : Source Nat).tick (fun _ => true) 9 (start (pcm16Buffer 2 false)) with
  | error e =>
    rw [run] at differ
    cases differ
  | ok result =>
    rw [run] at differ
    have same := all (fun _ => true) result.1 (.step (.start rfl) trivial ⟨9, _, run⟩) 9
      [start (pcm16Buffer 2 false)]
    exact of_decide_eq_false differ (congrArg firstLeft same)

end EmuThreeDS.HLE.Source
