import EmuThreeDS.Core.MoviePlayback
import EmuThreeDS.Lib.Runs

/-!
# Save states of a movie

When a state is resumed in read-only mode, what a load that throws changes, and which calls keep
the assertion of `Handle` from failing.
-/
namespace EmuThreeDS
inductive MovieCall where
  | handle (call : HandleCall)
  | prepareForPlayback (file : List UInt8)
  | prepareForRecording (initTime : Nat)
  | startPlayback (name : String) (file : List UInt8)
  | startRecording (name : String) (author : List UInt8) (id programId : Nat)
  | setReadOnly (readOnly : Bool)
  | shutdown
  | load (state : MovieState) (revision : Revision)

namespace Movie

/-- The state is loaded, and the movie goes on with its own inputs at the position in it. -/
def Resumes (m : Movie) (state : MovieState) (revision : Revision) : Prop :=
  (m.load state revision).1 = .ok () ∧ (m.load state revision).2.1.playMode = .playing ∧
    (m.load state revision).2.1.recordedInput = m.recordedInput ∧
    (m.load state revision).2.1.currentByte = state.currentByte ∧
    (m.load state revision).2.1.currentInput = state.currentInput

/-- The inputs of the state are some of the movie's first inputs, and not all of them. -/
def Within (m : Movie) (state : MovieState) : Prop :=
  state.recordedInput <+: m.recordedInput ∧ state.recordedInput.length < m.recordedInput.length

instance (m : Movie) (state : MovieState) : Decidable (Within m state) := by
  unfold Within
  infer_instance

def placed (m : Movie) (state : MovieState) : Movie :=
  { m with
    currentByte := state.currentByte
    currentInput := state.currentInput
    initTime := state.initTime }

variable {m after player : Movie} {state : MovieState} {revision : Revision}
  {front rest : List HandleCall} {name : String}

theorem timelineError_none_iff : m.timelineError state = none ↔ m.Within state := by
  unfold timelineError
  split
  · next longer => exact iff_of_false nofun (fun within => absurd within.2 (Nat.not_lt.mpr longer))
  · next shorter =>
      split
      · next mismatch => exact iff_of_false nofun (fun within => mismatch within.1)
      · next first => exact iff_of_true rfl ⟨not_not.mp first, Nat.lt_of_not_le shorter⟩

theorem load_eq : m.load state revision = if m.id ≠ state.movieId then if state.movieId = 0 then
        (.error "You must close your movie to load this state", m.placed state, none)
      else (.error "You must load the same movie to load this state", m.placed state, none)
    else if m.id ≠ 0 then (m.placed state).resume state revision
    else (.ok (), m.placed state, none) := rfl

inductive Loads (m : Movie) (state : MovieState) : Except String Unit → Movie → Prop where
  | other (message : String) : m.id ≠ state.movieId →
      Loads m state (.error message) (m.placed state)
  | idle : m.id = state.movieId → m.id = 0 → Loads m state (.ok ()) (m.placed state)
  | finished (input : List UInt8) : m.id = state.movieId → m.id ≠ 0 → state.postMovie = true →
      Loads m state (.ok ())
        { m.placed state with recordedInput := input, playMode := .movieFinished }
  | refused (message : String) : m.id = state.movieId → m.id ≠ 0 → state.postMovie = false →
      m.readOnly = true → ¬ m.Within state → Loads m state (.error message) (m.placed state)
  | resumed (totalInput : Nat) : m.id = state.movieId → m.id ≠ 0 → state.postMovie = false →
      m.readOnly = true → m.Within state →
      Loads m state (.ok ()) { m.placed state with playMode := .playing, totalInput := totalInput }
  | recording (input : List UInt8) (count : Nat) : m.id = state.movieId → m.id ≠ 0 →
      state.postMovie = false → m.readOnly = false →
      Loads m state (.ok ()) { m.placed state with
        recordedInput := input
        playMode := .recording
        rerecordCount := count }

theorem loads_other (other : m.id ≠ state.movieId) :
    Loads m state (m.load state revision).1 (m.load state revision).2.1 := by
  rw [load_eq, if_pos other]
  split
  · exact .other _ other
  · exact .other _ other

theorem resume_finished (finished : state.postMovie = true) : ∃ input,
    m.resume state revision =
      (.ok (), { m with recordedInput := input, playMode := .movieFinished }, none) := by
  cases readOnly : m.readOnly with
  | true =>
    refine ⟨m.recordedInput, ?_⟩
    simp only [resume, finished, readOnly, if_true]
  | false =>
    refine ⟨state.recordedInput, ?_⟩
    simp only [resume, finished, readOnly, if_true, Bool.false_eq_true, if_false]

theorem resume_refused (before : state.postMovie = false) (readOnly : m.readOnly = true)
    (not : ¬ m.Within state) :
    ∃ message file, m.resume state revision = (.error message, m, file) := by
  cases refused : m.timelineError state with
  | none => exact absurd (timelineError_none_iff.mp refused) not
  | some message =>
    simp only [resume, before, readOnly, refused, if_true, Bool.false_eq_true, if_false]
    exact ⟨message, _, rfl⟩

theorem resume_within (before : state.postMovie = false) (readOnly : m.readOnly = true)
    (within : m.Within state) : ∃ file, m.resume state revision =
      (.ok (), { m with
        playMode := .playing
        totalInput := getInputCount m.recordedInput }, file) := by
  have none := timelineError_none_iff.mpr within
  simp only [resume, before, readOnly, none, if_true, Bool.false_eq_true, if_false]
  exact ⟨_, rfl⟩

theorem resume_recording (before : state.postMovie = false) (writes : m.readOnly = false) :
    m.resume state revision = (.ok (), { m with
      recordedInput := state.recordedInput
      playMode := .recording
      rerecordCount := increment32 m.rerecordCount }, none) := by
  simp only [resume, before, writes, Bool.false_eq_true, if_false]

theorem loads_active (same : m.id = state.movieId) (active : m.id ≠ 0) :
    Loads m state (m.load state revision).1 (m.load state revision).2.1 := by
  rw [load_eq, if_neg (not_not.mpr same), if_pos active]
  cases before : state.postMovie with
  | true =>
    obtain ⟨input, loaded⟩ := @resume_finished (m.placed state) state revision before
    rw [loaded]
    exact .finished input same active before
  | false =>
    cases readOnly : m.readOnly with
    | true =>
      by_cases within : m.Within state
      · obtain ⟨file, loaded⟩ :=
          @resume_within (m.placed state) state revision before readOnly within
        rw [loaded]
        exact .resumed _ same active before readOnly within
      · obtain ⟨message, file, loaded⟩ :=
          @resume_refused (m.placed state) state revision before readOnly within
        rw [loaded]
        exact .refused message same active before readOnly within
    | false =>
      rw [@resume_recording (m.placed state) state revision before readOnly]
      exact .recording _ _ same active before readOnly

theorem loads : Loads m state (m.load state revision).1 (m.load state revision).2.1 := by
  by_cases same : m.id = state.movieId
  · by_cases active : m.id = 0
    · rw [load_eq, if_neg (not_not.mpr same), if_neg (not_not.mpr active)]
      exact .idle same active
    · exact loads_active same active
  · exact loads_other same

theorem load_throws {message : String} (throws : (m.load state revision).1 = .error message) :
    (m.load state revision).2.1 = m.placed state := by
  have loaded := @loads m state revision
  rw [throws] at loaded
  generalize (m.load state revision).2.1 = after at loaded
  cases loaded with
  | other | refused => rfl

theorem placed_eq_iff : m.placed state = m ↔ state.currentByte = m.currentByte ∧
    state.currentInput = m.currentInput ∧ state.initTime = m.initTime := by
  constructor
  · intro same
    exact ⟨congrArg currentByte same, congrArg currentInput same, congrArg initTime same⟩
  · rintro ⟨position, input, time⟩
    rw [placed, position, input, time]

/-- In read-only mode a state of the movie from before its end is resumed if its inputs come
before the movie's end too. Without an id nothing is compared. -/
theorem resumes_iff (readOnly : m.readOnly = true) (same : m.id = state.movieId)
    (before : state.postMovie = false) : m.Resumes state revision ↔
      if m.id = 0 then m.playMode = .playing else m.Within state := by
  unfold Resumes
  have loaded := @loads m state revision
  generalize (m.load state revision).1 = result at loaded
  generalize (m.load state revision).2.1 = after at loaded
  cases loaded with
  | other _ other => exact absurd same other
  | idle _ none =>
    rw [if_pos none]
    exact ⟨fun resumed => resumed.2.1, fun playing => ⟨rfl, playing, rfl, rfl, rfl⟩⟩
  | finished _ _ _ finished =>
    rw [before] at finished
    cases finished
  | refused _ _ active _ _ not =>
    rw [if_neg active]
    exact iff_of_false (fun resumed => nomatch resumed.1) not
  | resumed _ _ active _ _ within =>
    rw [if_neg active]
    exact iff_of_true ⟨rfl, rfl, rfl, rfl, rfl⟩ within
  | recording _ _ _ _ _ writes =>
    rw [readOnly] at writes
    cases writes

theorem resumes_recorded {recorder recorded : Movie} {answers : List InputValue}
    (recording : recorder.playMode = .recording) (fresh : recorder.recordedInput = [])
    (start : recorder.currentByte = 0) (run : recorder.handleAll front = .ok (answers, recorded))
    (further : rest ≠ []) (readOnly : m.readOnly = true) (same : m.id = recorder.id)
    (active : m.id ≠ 0) (bytes : m.recordedInput = inputBytes (front ++ rest)) :
    m.Resumes recorded.save revision ∧ (m.load recorded.save revision).2.1.Replays rest := by
  have whole : recorder.recordedInput.length = recorder.currentByte := by
    rw [fresh, start, List.length_nil]
  obtain ⟨recorded', run', mode, id, input, position⟩ :=
    @handleAll_recording recorder front recording whole
  cases run.symm.trans run'
  rw [fresh, List.nil_append] at input
  rw [start, Nat.zero_add] at position
  rw [inputBytes_append] at bytes
  have within : m.Within recorded.save := by
    refine ⟨⟨inputBytes rest, ?_⟩, ?_⟩
    · rw [bytes, ← input]
      rfl
    · have length : 0 < rest.length := List.length_pos_iff.mpr further
      have more : 0 < (inputBytes rest).length := by
        rw [length_inputBytes]
        exact Nat.mul_pos (by decide) length
      show recorded.recordedInput.length < _
      rw [bytes, input, List.length_append]
      omega
  have before : recorded.save.postMovie = false := by
    show decide (recorded.playMode = .movieFinished) = false
    rw [mode]
    rfl
  have resumed : m.Resumes recorded.save revision := by
    refine (resumes_iff readOnly (same.trans id.symm) before).mpr ?_
    rw [if_neg active]
    exact within
  obtain ⟨loaded, playing, input', position', index⟩ := resumed
  exact ⟨⟨loaded, playing, input', position', index⟩,
    replays_of_playing playing (input'.trans bytes) (position'.trans position) further⟩

theorem not_resumes_played (playing : player.playMode = .playing)
    (bytes : player.recordedInput = m.recordedInput) (readOnly : m.readOnly = true)
    (same : m.id = player.id) (active : m.id ≠ 0) : ¬ m.Resumes player.save revision := by
  have before : player.save.postMovie = false := by
    show decide (player.playMode = .movieFinished) = false
    rw [playing]
    rfl
  rw [resumes_iff readOnly same before, if_neg active]
  rintro ⟨_, shorter⟩
  rw [show player.save.recordedInput = m.recordedInput from bytes] at shorter
  exact Nat.lt_irrefl _ shorter

def Room (m : Movie) : Prop :=
  m.playMode = .playing → m.currentByte + ControllerState.size ≤ m.recordedInput.length

theorem room_iff : m.Room ↔ ∀ stack value, ∃ result, m.handle stack value = .ok result := by
  constructor
  · intro room stack value
    cases mode : m.playMode with
    | playing =>
      rw [handle, mode]
      rw [assert_pos (room mode)]
      exact ⟨_, rfl⟩
    | recording => exact ⟨_, handle_recording mode⟩
    | none | movieFinished =>
      rw [handle, mode]
      exact ⟨_, rfl⟩
  · intro returns playing
    obtain ⟨result, run⟩ := returns 0 (.accelerometer 0 0 0)
    rw [handle, playing] at run
    obtain ⟨_, room, _⟩ := bind_eq_ok.mp run
    exact assert_eq_ok.mp room

theorem room_of_not_playing (idle : m.playMode ≠ .playing) : m.Room := fun playing =>
  absurd playing idle

theorem checkInputEnd_room : m.checkInputEnd.Room := by
  rw [checkInputEnd]
  split
  · exact room_of_not_playing (by rintro ⟨⟩)
  · next room => exact fun _ => Nat.le_of_not_lt room

theorem handle_room {stack : Nat} {value answer : InputValue}
    (run : m.handle stack value = .ok (answer, after)) : after.Room := by
  cases mode : m.playMode with
  | playing =>
    rw [handle, mode] at run
    obtain ⟨_, _, returned⟩ := bind_eq_ok.mp run
    cases returned
    exact checkInputEnd_room
  | recording =>
    rw [handle_recording mode] at run
    cases run
    refine room_of_not_playing fun playing => ?_
    cases (countInput_frame.1.trans mode).symm.trans playing
  | none | movieFinished =>
    rw [handle, mode] at run
    cases run
    exact room_of_not_playing fun playing => by cases mode.symm.trans playing

def run (m : Movie) : MovieCall → Exec Movie
  | .handle call => do
      let (_, m) ← m.handle call.stack call.value
      return m
  | .prepareForPlayback file => return m.prepareForPlayback file
  | .prepareForRecording initTime => return m.prepareForRecording initTime
  | .startPlayback name file => return m.startPlayback name file
  | .startRecording name author id programId => return m.startRecording name author id programId
  | .setReadOnly readOnly => return m.setReadOnly readOnly
  | .shutdown => return m.shutdown
  | .load state revision => return (m.load state revision).2.1

def PlaysAfter (m : Movie) (state : MovieState) : Prop :=
  if m.id ≠ state.movieId ∨ m.id = 0 then m.playMode = .playing
  else state.postMovie = false ∧ m.readOnly = true ∧ (m.Within state ∨ m.playMode = .playing)

/-- A file that is accepted has a whole state in it, and a load that leaves the movie playing has
a position with a whole state behind it. -/
def Allowed (m : Movie) : MovieCall → Prop
  | .startPlayback _ file => Accepted file → headerSize + ControllerState.size ≤ file.length
  | .load state _ =>
    m.PlaysAfter state → state.currentByte + ControllerState.size ≤ m.recordedInput.length
  | _ => True

theorem loads_room : (m.load state revision).2.1.Room ↔
    (m.PlaysAfter state → state.currentByte + ControllerState.size ≤ m.recordedInput.length) := by
  unfold PlaysAfter
  have loaded := @loads m state revision
  generalize (m.load state revision).1 = result at loaded
  generalize (m.load state revision).2.1 = after at loaded
  cases loaded with
  | other _ other =>
    rw [if_pos (.inl other)]
    exact Iff.rfl
  | idle _ none =>
    rw [if_pos (.inr none)]
    exact Iff.rfl
  | finished _ same active finished =>
    rw [if_neg (not_or.mpr ⟨not_not.mpr same, active⟩), finished]
    exact iff_of_true (room_of_not_playing nofun) (fun plays => nomatch plays.1)
  | refused _ same active before readOnly not =>
    rw [if_neg (not_or.mpr ⟨not_not.mpr same, active⟩), before, readOnly]
    refine imp_congr ?_ Iff.rfl
    exact ⟨fun playing => ⟨rfl, rfl, .inr playing⟩, fun plays => plays.2.2.resolve_left not⟩
  | resumed _ same active before readOnly within =>
    rw [if_neg (not_or.mpr ⟨not_not.mpr same, active⟩), before, readOnly]
    exact imp_congr (iff_of_true rfl ⟨rfl, rfl, .inl within⟩) Iff.rfl
  | recording _ _ same active _ writes =>
    rw [if_neg (not_or.mpr ⟨not_not.mpr same, active⟩), writes]
    exact iff_of_true (room_of_not_playing nofun) (fun plays => nomatch plays.2.1)

theorem startPlayback_room {file : List UInt8} (room : m.Room) : (m.startPlayback name file).Room ↔
    (Accepted file → headerSize + ControllerState.size ≤ file.length) := by
  by_cases accepted : Accepted file
  · obtain ⟨playing, bytes, position⟩ := @startPlayback_frame m name _ accepted
    unfold Room
    rw [playing, bytes, List.length_drop]
    refine imp_congr (iff_of_true rfl accepted) ?_
    have longer := accepted.1
    omega
  · rw [startPlayback, if_neg accepted]
    exact iff_of_true room fun file => absurd file accepted

/-- Of the calls that return, those that are allowed keep the assertion from failing, and no
others do. -/
theorem run_room {call : MovieCall} (room : m.Room) (run : m.run call = .ok after) :
    after.Room ↔ m.Allowed call := by
  cases call with
  | handle call =>
    obtain ⟨_, handled, returned⟩ := bind_eq_ok.mp run
    cases returned
    exact iff_true_intro (handle_room handled)
  | prepareForPlayback file =>
    cases run
    refine iff_true_intro ?_
    rw [prepareForPlayback]
    split
    · exact room
    · exact room
  | prepareForRecording | setReadOnly =>
    cases run
    exact iff_true_intro room
  | startPlayback name file =>
    cases run
    exact startPlayback_room room
  | startRecording | shutdown =>
    cases run
    exact iff_true_intro (room_of_not_playing nofun)
  | load state revision =>
    cases run
    exact loads_room

def Reached : Movie → Prop :=
  Runs.Reachable (fun m => m.playMode = .none) (fun m call after => m.run call = .ok after) Allowed

theorem Reached.room (reached : m.Reached) : m.Room :=
  Runs.Reachable.invariant reached
    (fun _ none => room_of_not_playing fun playing => nomatch none.symm.trans playing)
    (fun _ _ _ room allowed run => (run_room room run).mpr allowed)

def revision0 : Revision := ⟨List.replicate 20 0, List.length_replicate⟩

def twoInputs : Movie :=
  { initial with
    playMode := .playing
    id := 1
    recordedInput := inputBytes [⟨0, .accelerometer 1 2 3⟩, ⟨0, .gyroscope 4 5 6⟩] }

def recorder : Movie := { initial with playMode := .recording, id := 1 }

end Movie
end EmuThreeDS
