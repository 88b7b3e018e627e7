import EmuThreeDS.Common.Bytes
import EmuThreeDS.Exec

/-!
# Controller states

The values that a movie records, with the fields of the services' structures at their widths, and
the seven packed bytes of a `ControllerState`. Each structure has bits that are not recorded.
-/
namespace EmuThreeDS

/-- `HID::PadState`, with the buttons from `a` to `gpio14`. -/
structure HidPadState where
  buttons : BitVec 14
  rest : BitVec 18
  deriving DecidableEq

structure TouchDataEntry where
  x : BitVec 16
  y : BitVec 16
  valid : BitVec 7
  rest : BitVec 25
  deriving DecidableEq

/-- `IR::PadState`. -/
structure IrPadState where
  zl : BitVec 1
  zr : BitVec 1
  rest : BitVec 30
  deriving DecidableEq

structure ExtraHIDResponse where
  batteryLevel : BitVec 5
  zlNotHeld : BitVec 1
  zrNotHeld : BitVec 1
  rNotHeld : BitVec 1
  cStickX : BitVec 12
  cStickY : BitVec 12
  rest : BitVec 16
  deriving DecidableEq

/-- The arguments of the six `Handle` functions. -/
inductive InputValue where
  | padAndCircle (padState : HidPadState) (circlePadX circlePadY : BitVec 16)
  | touch (touchData : TouchDataEntry)
  | accelerometer (x y z : BitVec 16)
  | gyroscope (x y z : BitVec 16)
  | irRst (padState : IrPadState) (cStickX cStickY : BitVec 16)
  | extraHidResponse (response : ExtraHIDResponse)
  deriving DecidableEq

namespace InputValue

def type : InputValue → UInt8
  | padAndCircle .. => 0
  | touch .. => 1
  | accelerometer .. => 2
  | gyroscope .. => 3
  | irRst .. => 4
  | extraHidResponse .. => 5

end InputValue

/-- The little-endian field of `n` bytes at an offset of a packed structure. -/
def packedField (bytes : List UInt8) (offset n : Nat) : Nat := leValue ((bytes.drop offset).take n)

namespace ControllerState

def size : Nat := 7

/-- The union as `Record` fills it. What is not assigned keeps the bits that were in its place. -/
def payload (stack : Nat) : InputValue → List UInt8
  | .padAndCircle padState x y =>
    leBytes 2 (padState.buttons.toNat + 2 ^ 14 * stack) ++ leBytes 2 x.toNat ++ leBytes 2 y.toNat
  | .touch touchData =>
    leBytes 2 touchData.x.toNat ++ leBytes 2 touchData.y.toNat ++
      leBytes 1 touchData.valid.toNat ++ leBytes 1 stack
  | .accelerometer x y z => leBytes 2 x.toNat ++ leBytes 2 y.toNat ++ leBytes 2 z.toNat
  | .gyroscope x y z => leBytes 2 x.toNat ++ leBytes 2 y.toNat ++ leBytes 2 z.toNat
  | .irRst padState x y =>
    leBytes 2 x.toNat ++ leBytes 2 y.toNat ++ leBytes 1 padState.zl.toNat ++
      leBytes 1 padState.zr.toNat
  | .extraHidResponse response =>
    leBytes 4 (response.batteryLevel.toNat + 2 ^ 5 * response.zlNotHeld.toNat +
      2 ^ 6 * response.zrNotHeld.toNat + 2 ^ 7 * response.rNotHeld.toNat +
      2 ^ 8 * response.cStickX.toNat + 2 ^ 20 * response.cStickY.toNat) ++ leBytes 2 stack

def bytes (stack : Nat) (value : InputValue) : List UInt8 := value.type :: payload stack value

/-- The values that `Play` assigns, if the type is the one it expects. -/
def assign (union : List UInt8) : InputValue → InputValue
  | .padAndCircle padState _ _ =>
    .padAndCircle { padState with buttons := .ofNat 14 (packedField union 0 2) }
      (.ofNat 16 (packedField union 2 2)) (.ofNat 16 (packedField union 4 2))
  | .touch touchData =>
    .touch { touchData with
      x := .ofNat 16 (packedField union 0 2)
      y := .ofNat 16 (packedField union 2 2)
      valid := .ofNat 7 (packedField union 4 1) }
  | .accelerometer _ _ _ =>
    .accelerometer (.ofNat 16 (packedField union 0 2)) (.ofNat 16 (packedField union 2 2))
      (.ofNat 16 (packedField union 4 2))
  | .gyroscope _ _ _ =>
    .gyroscope (.ofNat 16 (packedField union 0 2)) (.ofNat 16 (packedField union 2 2))
      (.ofNat 16 (packedField union 4 2))
  | .irRst padState _ _ =>
    .irRst { padState with
        zl := .ofNat 1 (packedField union 4 1)
        zr := .ofNat 1 (packedField union 5 1) }
      (.ofNat 16 (packedField union 0 2)) (.ofNat 16 (packedField union 2 2))
  | .extraHidResponse response =>
    let hex := packedField union 0 4
    .extraHidResponse { response with
      batteryLevel := .ofNat 5 hex
      zlNotHeld := .ofNat 1 (hex / 2 ^ 5)
      zrNotHeld := .ofNat 1 (hex / 2 ^ 6)
      rNotHeld := .ofNat 1 (hex / 2 ^ 7)
      cStickX := .ofNat 12 (hex / 2 ^ 8)
      cStickY := .ofNat 12 (hex / 2 ^ 20) }

def apply (state : List UInt8) (value : InputValue) : InputValue :=
  if state.head? = some value.type then assign state.tail value else value

end ControllerState

namespace InputValue

/-- The recorded bits of one value with the other bits of another value of the same kind. -/
def replay : InputValue → InputValue → InputValue
  | padAndCircle recorded x y, padAndCircle passed _ _ =>
    padAndCircle { recorded with rest := passed.rest } x y
  | touch recorded, touch passed => touch { recorded with rest := passed.rest }
  | irRst recorded x y, irRst passed _ _ => irRst { recorded with rest := passed.rest } x y
  | extraHidResponse recorded, extraHidResponse passed =>
    extraHidResponse { recorded with rest := passed.rest }
  | recorded, _ => recorded

end InputValue

namespace ControllerState

variable {stack : Nat} {recorded passed : InputValue}

@[simp] theorem length_bytes : (bytes stack recorded).length = size := by
  cases recorded <;> simp [bytes, payload, size]

theorem ofNat_bytes {w n : Nat} (x : BitVec w) (small : w ≤ 8 * n) :
    BitVec.ofNat w (leValue (leBytes n x.toNat)) = x := by
  have bound : x.toNat < 256 ^ n := by
    rw [show 256 = 2 ^ 8 from rfl, ← Nat.pow_mul]
    exact Nat.lt_of_lt_of_le x.isLt (Nat.pow_le_pow_right Nat.two_pos small)
  rw [leValue_leBytes, Nat.mod_eq_of_lt bound, BitVec.ofNat_toNat, BitVec.setWidth_eq]

theorem assign_padAndCircle {padState other : HidPadState} {x y x' y' : BitVec 16} :
    assign (payload stack (.padAndCircle padState x y)) (.padAndCircle other x' y') =
      .padAndCircle { padState with rest := other.rest } x y := by
  have buttons : packedField (payload stack (.padAndCircle padState x y)) 0 2 =
      leValue (leBytes 2 (padState.buttons.toNat + 2 ^ 14 * stack)) := rfl
  have first : packedField (payload stack (.padAndCircle padState x y)) 2 2 =
      leValue (leBytes 2 x.toNat) := rfl
  have second : packedField (payload stack (.padAndCircle padState x y)) 4 2 =
      leValue (leBytes 2 y.toNat) := rfl
  have low : BitVec.ofNat 14 (leValue (leBytes 2 (padState.buttons.toNat + 2 ^ 14 * stack))) =
      padState.buttons := by
    apply BitVec.eq_of_toNat_eq
    rw [BitVec.toNat_ofNat, leValue_leBytes]
    omega
  rw [assign, buttons, first, second, low, ofNat_bytes x (by decide), ofNat_bytes y (by decide)]

theorem assign_touch {touchData other : TouchDataEntry} :
    assign (payload stack (.touch touchData)) (.touch other) =
      .touch { touchData with rest := other.rest } := by
  have first : packedField (payload stack (.touch touchData)) 0 2 =
      leValue (leBytes 2 touchData.x.toNat) := rfl
  have second : packedField (payload stack (.touch touchData)) 2 2 =
      leValue (leBytes 2 touchData.y.toNat) := rfl
  have valid : packedField (payload stack (.touch touchData)) 4 1 =
      leValue (leBytes 1 touchData.valid.toNat) := rfl
  rw [assign, first, second, valid, ofNat_bytes _ (by decide), ofNat_bytes _ (by decide),
    ofNat_bytes _ (by decide)]

theorem three_fields {x y z : BitVec 16} {union : List UInt8}
    (h : union = leBytes 2 x.toNat ++ leBytes 2 y.toNat ++ leBytes 2 z.toNat) :
    BitVec.ofNat 16 (packedField union 0 2) = x ∧ BitVec.ofNat 16 (packedField union 2 2) = y ∧
      BitVec.ofNat 16 (packedField union 4 2) = z := by
  subst h
  exact ⟨ofNat_bytes (n := 2) x (by decide), ofNat_bytes (n := 2) y (by decide),
    ofNat_bytes (n := 2) z (by decide)⟩

theorem assign_irRst {padState other : IrPadState} {x y x' y' : BitVec 16} :
    assign (payload stack (.irRst padState x y)) (.irRst other x' y') =
      .irRst { padState with rest := other.rest } x y := by
  have first : packedField (payload stack (.irRst padState x y)) 0 2 =
      leValue (leBytes 2 x.toNat) := rfl
  have second : packedField (payload stack (.irRst padState x y)) 2 2 =
      leValue (leBytes 2 y.toNat) := rfl
  have left : packedField (payload stack (.irRst padState x y)) 4 1 =
      leValue (leBytes 1 padState.zl.toNat) := rfl
  have right : packedField (payload stack (.irRst padState x y)) 5 1 =
      leValue (leBytes 1 padState.zr.toNat) := rfl
  rw [assign, first, second, left, right, ofNat_bytes x (by decide), ofNat_bytes y (by decide),
    ofNat_bytes _ (by decide), ofNat_bytes _ (by decide)]

theorem assign_extraHidResponse {response other : ExtraHIDResponse} :
    assign (payload stack (.extraHidResponse response)) (.extraHidResponse other) =
      .extraHidResponse { response with rest := other.rest } := by
  have whole : packedField (payload stack (.extraHidResponse response)) 0 4 =
      response.batteryLevel.toNat + 2 ^ 5 * response.zlNotHeld.toNat +
        2 ^ 6 * response.zrNotHeld.toNat + 2 ^ 7 * response.rNotHeld.toNat +
        2 ^ 8 * response.cStickX.toNat + 2 ^ 20 * response.cStickY.toNat := by
    refine (leValue_leBytes 4 _).trans (Nat.mod_eq_of_lt ?_)
    omega
  rw [assign]
  congr 2 <;> apply BitVec.eq_of_toNat_eq <;> rw [BitVec.toNat_ofNat] <;> omega

theorem apply_bytes (same : recorded.type = passed.type) :
    apply (bytes stack recorded) passed = recorded.replay passed := by
  have matching : (bytes stack recorded).head? = some passed.type := congrArg some same
  rw [apply, if_pos matching]
  show assign (payload stack recorded) passed = _
  cases recorded with
  | padAndCircle padState x y =>
    cases passed with
    | padAndCircle => exact assign_padAndCircle
    | _ => cases same
  | touch touchData =>
    cases passed with
    | touch => exact assign_touch
    | _ => cases same
  | accelerometer x y z =>
    cases passed with
    | accelerometer =>
      obtain ⟨first, second, third⟩ := @three_fields x y z _ rfl
      rw [payload, assign, first, second, third]
      rfl
    | _ => cases same
  | gyroscope x y z =>
    cases passed with
    | gyroscope =>
      obtain ⟨first, second, third⟩ := @three_fields x y z _ rfl
      rw [payload, assign, first, second, third]
      rfl
    | _ => cases same
  | irRst padState x y =>
    cases passed with
    | irRst => exact assign_irRst
    | _ => cases same
  | extraHidResponse response =>
    cases passed with
    | extraHidResponse => exact assign_extraHidResponse
    | _ => cases same

end ControllerState

/-!
## Movies

The recording and the playback of `movie.cpp`, with the file of a movie and its part of a save
state as they are written and read. The file system and the callback at the end of a playback are
left out: a function that writes the movie's file returns its bytes.
-/

inductive PlayMode where
  | none | recording | playing | movieFinished
  deriving DecidableEq

structure Movie where
  playMode : PlayMode
  recordMovieFile : String
  recordMovieAuthor : List UInt8
  initTime : Nat
  recordedInput : List UInt8
  currentByte : Nat
  currentInput : Nat
  totalInput : Nat
  id : Nat
  programId : Nat
  rerecordCount : Nat
  readOnly : Bool
  deriving DecidableEq

/-- What `serialize` writes of a movie. -/
structure MovieState where
  currentByte : Nat
  currentInput : Nat
  recordedInput : List UInt8
  initTime : Nat
  movieId : Nat
  postMovie : Bool

/-- The bytes of `g_scm_rev`. -/
abbrev Revision := { bytes : List UInt8 // bytes.length = 20 }

variable (m : Movie)

namespace Movie

def initial : Movie where
  playMode := .none
  recordMovieFile := ""
  recordMovieAuthor := []
  initTime := 0
  recordedInput := []
  currentByte := 0
  currentInput := 0
  totalInput := 0
  id := 0
  programId := 0
  rerecordCount := 1
  readOnly := true

def increment64 (n : Nat) : Nat := (n + 1) % 2 ^ 64

def increment32 (n : Nat) : Nat := (n + 1) % 2 ^ 32

def getInputCount (input : List UInt8) : Nat :=
  (List.range (input.length / ControllerState.size)).countP fun k =>
    input.getD (ControllerState.size * k) 0 == 0

def checkInputEnd : Movie :=
  if m.currentByte + ControllerState.size > m.recordedInput.length then
    { m with playMode := .movieFinished }
  else m

def countInput : InputValue → Movie
  | .padAndCircle .. => { m with currentInput := increment64 m.currentInput }
  | _ => m

def play (value : InputValue) : InputValue × Movie :=
  let state := (m.recordedInput.drop m.currentByte).take ControllerState.size
  (ControllerState.apply state value,
    { m.countInput value with currentByte := m.currentByte + ControllerState.size })

/-- `resize` cuts off what was recorded behind the current byte. -/
def record (stack : Nat) (value : InputValue) : Movie :=
  let resized := (m.recordedInput ++ List.replicate m.currentByte 0).take m.currentByte
  { m.countInput value with
    recordedInput := resized ++ ControllerState.bytes stack value
    currentByte := m.currentByte + ControllerState.size }

def handle (stack : Nat) (value : InputValue) : Exec (InputValue × Movie) :=
  match m.playMode with
  | .playing => do
      assert .movie (m.currentByte + ControllerState.size ≤ m.recordedInput.length)
      let (played, m) := m.play value
      return (played, m.checkInputEnd)
  | .recording => return (value, m.record stack value)
  | .none | .movieFinished => return (value, m)

def headerMagicBytes : List UInt8 := [0x43, 0x54, 0x4D, 0x1B]

def headerSize : Nat := 256

def authorSize : Nat := 32

def authorBytes (author : List UInt8) : List UInt8 :=
  author.take authorSize ++ List.replicate (authorSize - author.length) 0

def header (revision : Revision) : List UInt8 :=
  headerMagicBytes ++ leBytes 8 m.programId ++ revision.val ++ leBytes 8 m.initTime ++
    leBytes 8 m.id ++ authorBytes m.recordMovieAuthor ++ leBytes 4 m.rerecordCount ++
    leBytes 8 (getInputCount m.recordedInput) ++ List.replicate 164 0

def saveMovie (revision : Revision) : List UInt8 :=
  m.header revision ++ m.recordedInput

/-- A file is played if it has a header with the magic bytes and something behind it. -/
def Accepted (file : List UInt8) : Prop :=
  headerSize < file.length ∧ file.take 4 = headerMagicBytes

instance (file : List UInt8) : Decidable (Accepted file) := by
  unfold Accepted
  infer_instance

def startPlayback (name : String) (file : List UInt8) : Movie :=
  if Accepted file then
    { m with
      playMode := .playing
      recordMovieFile := name
      recordMovieAuthor := ((file.drop 48).take authorSize).takeWhile (· ≠ 0)
      rerecordCount := packedField file 80 4
      totalInput := packedField file 84 8
      recordedInput := file.drop headerSize
      currentByte := 0
      currentInput := 0
      id := packedField file 40 8
      programId := packedField file 4 8 }
  else m

/-- With the random number and the program's id that it reads. -/
def startRecording (name : String) (author : List UInt8) (id programId : Nat) : Movie :=
  { m with
    playMode := .recording
    recordMovieFile := name
    recordMovieAuthor := author
    rerecordCount := 1
    id := id
    programId := programId }

def prepareForPlayback (file : List UInt8) : Movie :=
  if Accepted file then { m with initTime := packedField file 32 8 } else m

/-- With the time that the settings and the clock give. -/
def prepareForRecording (initTime : Nat) : Movie := { m with initTime := initTime }

def setReadOnly (readOnly : Bool) : Movie := { m with readOnly := readOnly }

def shutdown : Movie :=
  { m with
    playMode := .none
    recordedInput := []
    recordMovieFile := ""
    currentByte := 0
    currentInput := 0
    initTime := 0
    id := 0 }

def save : MovieState where
  currentByte := m.currentByte
  currentInput := m.currentInput
  recordedInput := m.recordedInput
  initTime := m.initTime
  movieId := m.id
  postMovie := m.playMode = .movieFinished

/-- The inputs of a state in read-only mode, against those of the movie. -/
def timelineError (state : MovieState) : Option String :=
  if state.recordedInput.length ≥ m.recordedInput.length then
    some "Future event savestate not allowed in R/O mode"
  else if ¬ state.recordedInput <+: m.recordedInput then
    some "Timeline mismatch not allowed in R/O mode"
  else none

/-- After the fields are read and the ids compared. -/
def resume (state : MovieState) (revision : Revision) :
    Except String Unit × Movie × Option (List UInt8) :=
  let m := if m.readOnly then m else { m with recordedInput := state.recordedInput }
  if state.postMovie then (.ok (), { m with playMode := .movieFinished }, none)
  else if m.readOnly then
    let file := if m.playMode = .recording then some (m.saveMovie revision) else none
    match m.timelineError state with
    | some message => (.error message, m, file)
    | none =>
      (.ok (), { m with
        playMode := .playing
        totalInput := getInputCount m.recordedInput }, file)
  else
    (.ok (), { m with
      playMode := .recording
      rerecordCount := increment32 m.rerecordCount }, none)

/-- The result, the movie also where it throws, and the file if one is written. -/
def load (m : Movie) (state : MovieState) (revision : Revision) :
    Except String Unit × Movie × Option (List UInt8) :=
  let m := { m with
    currentByte := state.currentByte
    currentInput := state.currentInput
    initTime := state.initTime }
  if m.id ≠ state.movieId then
    if state.movieId = 0 then
      (.error "You must close your movie to load this state", m, none)
    else
      (.error "You must load the same movie to load this state", m, none)
  else if m.id ≠ 0 then m.resume state revision
  else (.ok (), m, none)

end Movie
end EmuThreeDS
