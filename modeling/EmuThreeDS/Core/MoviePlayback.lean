import EmuThreeDS.Core.Movie

/-!
# Playing what was recorded

Calls of the `Handle` functions one after another. A recording appends one state for each call,
and a playback from the start of such a run of states answers with the values in it, to its end.
-/
namespace EmuThreeDS

/-- The value passed, and what lies on the stack where a state is built from it. -/
structure HandleCall where
  stack : Nat
  value : InputValue

def inputBytes (calls : List HandleCall) : List UInt8 :=
  calls.flatMap fun call => ControllerState.bytes call.stack call.value

namespace Movie

def handleAll (m : Movie) : List HandleCall → Exec (List InputValue × Movie)
  | [] => return ([], m)
  | call :: calls => do
      let (answer, m) ← m.handle call.stack call.value
      let (answers, m) ← m.handleAll calls
      return (answer :: answers, m)

/-- Calls of the kinds that were recorded are answered with the recorded values, whatever is
passed, and the movie is finished after the last of them and not before. -/
def Replays (m : Movie) (recorded : List HandleCall) : Prop :=
  ∀ again : List HandleCall,
    again.map (fun call => call.value.type) = recorded.map (fun call => call.value.type) →
    ∀ k ≤ recorded.length, ∃ after,
      m.handleAll (again.take k) = .ok (List.zipWith (fun old new => old.value.replay new.value)
        (recorded.take k) (again.take k), after) ∧
      after.playMode = if k < recorded.length then .playing else .movieFinished

/-- The calls are recorded as they are, and what is then saved plays them back. -/
def PlaysBack (m player : Movie) (name : String) (revision : Revision)
    (calls : List HandleCall) : Prop :=
  ∃ recorded, m.handleAll calls = .ok (calls.map HandleCall.value, recorded) ∧
    Accepted (recorded.saveMovie revision) ∧
    (player.startPlayback name (recorded.saveMovie revision)).Replays calls

variable {m after player : Movie} {call : HandleCall} {calls front recorded : List HandleCall}
  {stack : Nat} {value passed : InputValue} {revision : Revision} {name author : String}

@[simp] theorem inputBytes_cons : inputBytes (call :: calls) =
    ControllerState.bytes call.stack call.value ++ inputBytes calls := rfl

theorem inputBytes_append : inputBytes (front ++ calls) = inputBytes front ++ inputBytes calls :=
  List.flatMap_append

theorem length_inputBytes : (inputBytes calls).length = ControllerState.size * calls.length := by
  induction calls with
  | nil => rfl
  | cons call calls ih =>
    rw [inputBytes_cons, List.length_append, ControllerState.length_bytes, ih,
      List.length_cons, Nat.mul_succ, Nat.add_comm]

theorem handleAll_cons {answer : InputValue} {answers : List InputValue} {next : Movie}
    (first : m.handle call.stack call.value = .ok (answer, next))
    (others : next.handleAll calls = .ok (answers, after)) :
    m.handleAll (call :: calls) = .ok (answer :: answers, after) := by
  rw [handleAll, first, ok_bind]
  dsimp only
  rw [others]
  rfl

/-- The movie with its bytes cut off, or filled up, at the current byte. -/
def trimmed (m : Movie) : Movie :=
  { m with recordedInput := (m.recordedInput ++ List.replicate m.currentByte 0).take m.currentByte }

theorem length_trimmed : m.trimmed.recordedInput.length = m.currentByte := by
  rw [trimmed, List.length_take, List.length_append, List.length_replicate]
  omega

theorem trimmed_of_length (whole : m.recordedInput.length = m.currentByte) : m.trimmed = m := by
  have same : (m.recordedInput ++ List.replicate m.currentByte 0).take m.currentByte =
      m.recordedInput := by
    rw [← whole, List.take_left]
  rw [trimmed, same]

theorem record_eq : m.record stack value = { m.countInput value with
      recordedInput := m.trimmed.recordedInput ++ ControllerState.bytes stack value
      currentByte := m.currentByte + ControllerState.size } := rfl

theorem record_recordedInput : (m.record stack value).recordedInput =
    m.trimmed.recordedInput ++ ControllerState.bytes stack value := rfl

theorem handle_recording (recording : m.playMode = .recording) :
    m.handle stack value = .ok (value, m.record stack value) := by
  rw [handle, recording]
  rfl

theorem countInput_frame : (m.countInput value).playMode = m.playMode ∧
    (m.countInput value).recordedInput = m.recordedInput ∧
    (m.countInput value).currentByte = m.currentByte ∧ (m.countInput value).id = m.id := by
  cases value <;> exact ⟨rfl, rfl, rfl, rfl⟩

theorem handleAll_recording (recording : m.playMode = .recording)
    (whole : m.recordedInput.length = m.currentByte) :
    ∃ after, m.handleAll calls = .ok (calls.map HandleCall.value, after) ∧
      after.playMode = .recording ∧ after.id = m.id ∧
      after.recordedInput = m.recordedInput ++ inputBytes calls ∧
      after.currentByte = m.currentByte + (inputBytes calls).length := by
  induction calls generalizing m with
  | nil => exact ⟨m, rfl, recording, rfl, (List.append_nil _).symm, rfl⟩
  | cons call calls ih =>
    obtain ⟨mode, _, _, id⟩ := @countInput_frame m call.value
    have appended : (m.record call.stack call.value).recordedInput =
        m.recordedInput ++ ControllerState.bytes call.stack call.value := by
      rw [record_recordedInput, trimmed_of_length whole]
    have longer : (m.record call.stack call.value).recordedInput.length =
        (m.record call.stack call.value).currentByte := by
      rw [appended, List.length_append, ControllerState.length_bytes, whole]
      rfl
    obtain ⟨after, run, mode', id', bytes, position⟩ :=
      ih (m := m.record call.stack call.value) (mode.trans recording) longer
    refine ⟨after, ?_, mode', id'.trans id, ?_, ?_⟩
    · exact handleAll_cons (handle_recording recording) run
    · rw [bytes, appended, List.append_assoc, inputBytes_cons]
    · rw [position, inputBytes_cons, List.length_append, ControllerState.length_bytes,
        ← Nat.add_assoc]
      rfl

theorem countInput_trimmed : m.trimmed.countInput value =
    { m.countInput value with recordedInput := m.trimmed.recordedInput } := by
  cases value <;> rfl

theorem record_trimmed : m.trimmed.record stack value = m.record stack value := by
  have again : m.trimmed.trimmed = m.trimmed := trimmed_of_length length_trimmed
  rw [record_eq, again, countInput_trimmed]
  rfl

theorem handleAll_trimmed (recording : m.playMode = .recording) :
    m.handleAll (call :: calls) = m.trimmed.handleAll (call :: calls) := by
  rw [handleAll, handleAll, handle_recording recording,
    handle_recording (m := m.trimmed) recording, record_trimmed]

theorem handle_playing {before behind : List UInt8} {old : InputValue}
    (playing : m.playMode = .playing)
    (bytes : m.recordedInput = before ++ (ControllerState.bytes stack old ++ behind))
    (position : m.currentByte = before.length) (same : old.type = passed.type) (other : Nat) :
    m.handle other passed = .ok (old.replay passed, (m.play passed).2.checkInputEnd) := by
  have room : m.currentByte + ControllerState.size ≤ m.recordedInput.length := by
    rw [bytes, List.length_append, List.length_append, ControllerState.length_bytes]
    omega
  have next : (m.recordedInput.drop m.currentByte).take ControllerState.size =
      ControllerState.bytes stack old := by
    rw [bytes, position, List.drop_left, List.take_left' ControllerState.length_bytes]
  have answer : (m.play passed).1 = old.replay passed := by
    rw [play, next]
    exact ControllerState.apply_bytes same
  rw [handle, playing]
  dsimp only
  rw [assert_pos room, answer]
  rfl

theorem checkInputEnd_frame : m.checkInputEnd.recordedInput = m.recordedInput ∧
    m.checkInputEnd.currentByte = m.currentByte := by
  rw [checkInputEnd]
  split <;> exact ⟨rfl, rfl⟩

theorem checkInputEnd_playMode (playing : m.playMode = .playing) : m.checkInputEnd.playMode =
    if m.currentByte + ControllerState.size ≤ m.recordedInput.length then .playing
    else .movieFinished := by
  rw [checkInputEnd]
  by_cases room : m.currentByte + ControllerState.size ≤ m.recordedInput.length
  · rw [if_neg (Nat.not_lt.mpr room), if_pos room, playing]
  · rw [if_pos (Nat.lt_of_not_le room), if_neg room]

theorem replays_of_playing {before : List UInt8} (playing : m.playMode = .playing)
    (bytes : m.recordedInput = before ++ inputBytes recorded)
    (position : m.currentByte = before.length) (some : recorded ≠ []) : m.Replays recorded := by
  induction recorded generalizing m before with
  | nil => exact absurd rfl some
  | cons old recorded ih =>
    intro again kinds k within
    cases again with
    | nil => cases kinds
    | cons new again =>
      obtain ⟨kind, kinds⟩ := List.cons.inj kinds
      cases k with
      | zero => exact ⟨m, rfl, playing⟩
      | succ k =>
        obtain ⟨mode, same, _, _⟩ := @countInput_frame m new.value
        obtain ⟨bytes', position'⟩ := @checkInputEnd_frame (m.play new.value).2
        have answered := handle_playing playing bytes position kind.symm new.stack
        have ending := checkInputEnd_playMode (m := (m.play new.value).2)
          (mode.trans playing)
        rw [show (m.play new.value).2.recordedInput = m.recordedInput from same, bytes,
          show (m.play new.value).2.currentByte = m.currentByte + ControllerState.size
            from rfl, position, inputBytes_cons, List.length_append, List.length_append,
          length_inputBytes] at ending
        by_cases last : recorded = []
        · subst last
          have none : k = 0 := Nat.le_zero.mp (Nat.le_of_succ_le_succ within)
          subst none
          refine ⟨_, handleAll_cons answered rfl, ending.trans ?_⟩
          exact if_neg (by simp [ControllerState.size])
        · have further : 0 < recorded.length := List.length_pos_iff.mpr last
          rw [if_pos (by simp [ControllerState.size]; omega)] at ending
          have rest : (m.play new.value).2.checkInputEnd.recordedInput =
              before ++ ControllerState.bytes old.stack old.value ++ inputBytes recorded := by
            rw [bytes', List.append_assoc]
            exact same.trans bytes
          have behind : (m.play new.value).2.checkInputEnd.currentByte =
              (before ++ ControllerState.bytes old.stack old.value).length := by
            rw [position', List.length_append, ControllerState.length_bytes, ← position]
            rfl
          obtain ⟨after, run, mode'⟩ :=
            ih ending rest behind last again kinds k (Nat.le_of_succ_le_succ within)
          refine ⟨after, handleAll_cons answered run, mode'.trans ?_⟩
          exact if_congr Nat.succ_lt_succ_iff.symm rfl rfl

theorem length_authorBytes {author : List UInt8} : (authorBytes author).length = authorSize := by
  rw [authorBytes, List.length_append, List.length_take, List.length_replicate]
  omega

theorem length_header : (m.header revision).length = headerSize := by
  simp only [header, List.length_append, length_leBytes, length_authorBytes, revision.property,
    List.length_replicate]
  rfl

theorem accepted_saveMovie (some : m.recordedInput ≠ []) : Accepted (m.saveMovie revision) := by
  constructor
  · have further := List.length_pos_iff.mpr some
    rw [saveMovie, List.length_append, length_header]
    omega
  · simp only [saveMovie, header, List.append_assoc]
    exact List.take_left' rfl

theorem startPlayback_frame {file : List UInt8} (accepted : Accepted file) :
    (m.startPlayback name file).playMode = .playing ∧
      (m.startPlayback name file).recordedInput = file.drop headerSize ∧
      (m.startPlayback name file).currentByte = 0 := by
  rw [startPlayback, if_pos accepted]
  exact ⟨rfl, rfl, rfl⟩

theorem drop_saveMovie : (m.saveMovie revision).drop headerSize = m.recordedInput :=
  List.drop_left' length_header

theorem playsBack_of_start (recording : m.playMode = .recording) (start : m.currentByte = 0)
    (some : calls ≠ []) : PlaysBack m player name revision calls := by
  obtain ⟨call, rest, rfl⟩ := List.exists_cons_of_ne_nil some
  obtain ⟨recorded, run, _, _, bytes, _⟩ :=
    @handleAll_recording m.trimmed (call :: rest) recording length_trimmed
  have empty : m.trimmed.recordedInput = [] :=
    List.length_eq_zero_iff.mp (length_trimmed.trans start)
  rw [empty] at bytes
  have further : recorded.recordedInput ≠ [] := by
    rw [bytes]
    exact List.cons_ne_nil _ _
  have accepted : Accepted (recorded.saveMovie revision) := accepted_saveMovie further
  obtain ⟨playing, input, position⟩ := @startPlayback_frame player name _ accepted
  rw [drop_saveMovie, bytes] at input
  exact ⟨recorded, (handleAll_trimmed recording).trans run, accepted,
    replays_of_playing playing input position some⟩

theorem not_playsBack_nil : ¬ PlaysBack m player name revision [] := by
  rintro ⟨recorded, _, accepted, replays⟩
  obtain ⟨after, run, mode⟩ := replays [] rfl 0 (Nat.le_refl 0)
  obtain ⟨playing, _, _⟩ := @startPlayback_frame player name _ accepted
  cases run
  rw [playing] at mode
  cases mode

theorem handle_skips {answer : InputValue} (playing : m.playMode = .playing)
    (other : (m.recordedInput.drop m.currentByte).head? ≠ some passed.type)
    (run : m.handle stack passed = .ok (answer, after)) : answer = passed := by
  have skipped : (m.play passed).1 = passed := by
    rw [play, ControllerState.apply, if_neg]
    intro matching
    rw [List.head?_take] at matching
    exact other matching
  rw [handle, playing] at run
  obtain ⟨_, _, returned⟩ := bind_eq_ok.mp run
  cases returned
  exact skipped

theorem exists_other (kind : Option UInt8) : ∃ old new : InputValue,
    kind ≠ some new.type ∧ new.type = old.type ∧ old.replay new ≠ new := by
  by_cases touched : kind = some 2
  · subst touched
    exact ⟨.gyroscope 1 0 0, .gyroscope 0 0 0, by decide, rfl, by decide⟩
  · exact ⟨.accelerometer 1 0 0, .accelerometer 0 0 0, touched, rfl, by decide⟩

theorem not_playsBack_of_behind (recording : m.playMode = .recording) (behind : m.currentByte ≠ 0) :
    ∃ calls, calls ≠ [] ∧ ¬ PlaysBack m player name revision calls := by
  obtain ⟨old, new, other, same, differ⟩ := exists_other m.trimmed.recordedInput.head?
  refine ⟨[⟨0, old⟩], List.cons_ne_nil _ _, ?_⟩
  rintro ⟨recorded, run, accepted, replays⟩
  obtain ⟨recorded', run', _, _, bytes, _⟩ :=
    @handleAll_recording m.trimmed [⟨0, old⟩] recording length_trimmed
  cases run.symm.trans ((handleAll_trimmed recording).trans run')
  obtain ⟨playing, input, position⟩ := @startPlayback_frame player name _ accepted
  rw [drop_saveMovie, bytes] at input
  obtain ⟨after, played, _⟩ :=
    replays [⟨0, new⟩] (congrArg (fun type => [type]) same) 1 (Nat.le_refl 1)
  obtain ⟨⟨answer, next⟩, first, others⟩ := bind_eq_ok.mp played
  cases others
  refine differ (handle_skips playing ?_ first)
  rw [input, position]
  have length : m.trimmed.recordedInput.length = m.currentByte := length_trimmed
  cases front : m.trimmed.recordedInput with
  | nil =>
    rw [front] at length
    exact absurd length.symm behind
  | cons byte rest =>
    rw [front] at other
    exact other

/-- What a recording saves is played back, for every sequence of calls, if it starts at the first
byte. -/
theorem playsBack_iff (recording : m.playMode = .recording) :
    (∀ calls, PlaysBack m player name revision calls ↔ calls ≠ []) ↔ m.currentByte = 0 := by
  constructor
  · intro all
    by_contra behind
    obtain ⟨calls, some, not⟩ := not_playsBack_of_behind recording behind
    exact not ((all calls).mpr some)
  · intro start calls
    refine ⟨fun plays none => ?_, playsBack_of_start recording start⟩
    subst none
    exact not_playsBack_nil plays

end Movie
end EmuThreeDS
