import EmuThreeDS.Exec
import EmuThreeDS.Network.Room

/-!
# A client of the room

One connection of a `RoomMember`: the loop of its thread and the calls other threads make.
-/
namespace EmuThreeDS.Network

/-- What a client sends; `disconnect` is the end of the connection, after everything sent
before it. -/
inductive Request where
  | joinRequest (request : JoinRequest)
  | setGameInfo (gameInfo : GameInfo)
  | modKick (nickname : String)
  | modBan (nickname : String)
  | modUnban (address : String)
  | modGetBanList
  | disconnect

inductive MemberState where
  | idle | joining | joined | moderator
  deriving DecidableEq

/-- Where the thread of `MemberLoop` stands. -/
inductive Loop where
  | guard | service | ended

structure RoomMember where
  state : MemberState
  nickname : String
  username : String
  macAddress : MacAddress
  memberInformation : List MemberInformation
  roomInformation : RoomInformation
  sendList : List Request
  loop : Loop
  /-- What is on its way to the room. -/
  outgoing : List Request

namespace RoomMember

variable (client : RoomMember)

def isConnected : Bool :=
  client.state == .joining || client.state == .joined || client.state == .moderator

def inRoom : Prop := client.state = .joined ∨ client.state = .moderator

instance : Decidable client.inRoom := inferInstanceAs (Decidable (_ ∨ _))

def handleRoomInformationPacket (information : RoomInformation)
    (members : List MemberInformation) : RoomMember :=
  { client with
    roomInformation :=
      { client.roomInformation with
        name := information.name
        description := information.description
        memberSlots := information.memberSlots
        port := information.port
        preferredGame := information.preferredGame
        hostUsername := information.hostUsername }
    memberInformation := members
    username := members.foldl
      (fun username member =>
        if member.nickname = client.nickname then member.username else username)
      client.username }

def handleJoinPacket (macAddress : MacAddress) (state : MemberState) : Exec RoomMember := do
  assert .memberLoop (0 < client.memberInformation.length)
  return { client with macAddress := macAddress, state := state }

def handleMessage : Message → Exec RoomMember
  | .roomInformation information members =>
    .ok (client.handleRoomInformationPacket information members)
  | .joinSuccess macAddress => client.handleJoinPacket macAddress .joined
  | .joinSuccessAsMod macAddress => client.handleJoinPacket macAddress .moderator
  | .statusMessage .. | .modBanListResponse .. | .modPermissionDenied | .modNoSuchUser =>
    .ok client
  | .roomIsFull | .nameCollision | .macCollision | .consoleIdCollision | .versionMismatch _
  | .wrongPassword | .closeRoom | .hostKicked | .hostBanned =>
    .ok { client with state := .idle }
  | .disconnect => .ok (if client.inRoom then { client with state := .idle } else client)

def flush : RoomMember :=
  { client with outgoing := client.outgoing ++ client.sendList, sendList := [], loop := .guard }

def disconnect : RoomMember :=
  { client with
    memberInformation := []
    roomInformation := { client.roomInformation with memberSlots := 0, name := "" }
    outgoing := client.outgoing ++ [.disconnect]
    loop := .ended }

/-- `while (IsConnected())`, and what follows the loop. -/
def checkGuard : RoomMember :=
  if client.isConnected then { client with loop := .service } else client.disconnect

def send (request : Request) : RoomMember :=
  { client with sendList := client.sendList ++ [request] }

def leave : RoomMember := { client with state := .idle }

end RoomMember

def Message.given : Message → Option MacAddress
  | .joinSuccess macAddress | .joinSuccessAsMod macAddress => some macAddress
  | _ => none

def lastShown (kept : List MemberInformation) (messages : List Message) : List MemberInformation :=
  messages.foldl
    (fun kept message =>
      match message with
      | .roomInformation _ members => members
      | _ => kept)
    kept

section

variable (kept : List MemberInformation) (xs ys : List Message)

theorem lastShown_append : lastShown kept (xs ++ ys) = lastShown (lastShown kept xs) ys :=
  List.foldl_append

theorem lastShown_cons (message : Message) :
    lastShown kept (message :: xs) = lastShown (lastShown kept [message]) xs := rfl

theorem lastShown_plain {message : Message} (plain : message.plain) :
    lastShown kept [message] = kept := by
  cases message <;> first | rfl | cases plain

theorem lastShown_given {message : Message} {mac : MacAddress} (gives : message.given = some mac) :
    lastShown kept [message] = kept := by
  cases message <;> first | rfl | cases gives

theorem lastShown_replicate {message : Message} (plain : message.plain) (n : Nat) :
    lastShown kept (List.replicate n message) = kept := by
  induction n with
  | zero => rfl
  | succ n ih => rw [List.replicate_succ, lastShown_cons, lastShown_plain kept plain, ih]

end

theorem Message.given_of_plain {message : Message} (plain : message.plain) :
    message.given = none := by
  cases message <;> first | rfl | cases plain

namespace RoomMember

variable {client client' : RoomMember} {message : Message}

theorem handleMessage_spec (run : client.handleMessage message = .ok client') :
    client'.memberInformation = lastShown client.memberInformation [message] ∧
      client'.nickname = client.nickname ∧ client'.sendList = client.sendList ∧
      client'.outgoing = client.outgoing ∧ (client'.inRoom → client.inRoom ∨ message.given ≠ none) ∧
      (message = .disconnect → ¬ client'.inRoom) ∧
      ∀ macAddress, message.given = some macAddress → client'.macAddress = macAddress := by
  cases message with
  | roomInformation information members | statusMessage | modBanListResponse
  | modPermissionDenied | modNoSuchUser =>
    cases run
    exact ⟨rfl, rfl, rfl, rfl, .inl, nofun, nofun⟩
  | joinSuccess macAddress | joinSuccessAsMod macAddress =>
    obtain ⟨_, _, run⟩ := bind_eq_ok.mp run
    cases run
    exact ⟨rfl, rfl, rfl, rfl, fun _ => .inr nofun, nofun, fun _ same => Option.some.inj same⟩
  | disconnect =>
    cases run
    split_ifs with inside
    · exact ⟨rfl, rfl, rfl, rfl, fun _ => .inl inside, fun _ => by simp [inRoom], nofun⟩
    · exact ⟨rfl, rfl, rfl, rfl, .inl, fun _ => inside, nofun⟩
  | roomIsFull | nameCollision | macCollision | consoleIdCollision | versionMismatch
  | wrongPassword | closeRoom | hostKicked | hostBanned =>
    cases run
    exact ⟨rfl, rfl, rfl, rfl, fun inside => by simp [inRoom] at inside, nofun, nofun⟩

theorem handleMessage_answers (some : message.given ≠ none → client.memberInformation ≠ []) :
    ∃ client', client.handleMessage message = .ok client' := by
  have welcome (macAddress : MacAddress) (state : MemberState)
      (filled : client.memberInformation ≠ []) :
      ∃ client', client.handleJoinPacket macAddress state = .ok client' := by
    refine ⟨{ client with macAddress := macAddress, state := state }, ?_⟩
    unfold handleJoinPacket
    rw [assert_pos (List.length_pos_iff.mpr filled)]
    rfl
  cases message with
  | joinSuccess macAddress => exact welcome macAddress .joined (some nofun)
  | joinSuccessAsMod macAddress => exact welcome macAddress .moderator (some nofun)
  | _ => exact ⟨_, rfl⟩

end RoomMember

end EmuThreeDS.Network
