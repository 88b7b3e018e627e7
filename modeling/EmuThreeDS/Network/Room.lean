import EmuThreeDS.Lib.Runs
import Mathlib.Data.List.Nodup

/-!
# The multiplayer room

The handlers of the room's server loop over the host they send through. The host keeps for
every peer the state of its connection and the messages on their way to it, in order.
-/
namespace EmuThreeDS.Network

abbrev MacAddress := Vector UInt8 6

/-- Tells the room to assign an address. -/
def noPreferredMac : MacAddress := .replicate 6 0xFF

def networkVersion : Nat := 4

structure GameInfo where
  name : String
  id : Nat

structure UserData where
  username : String
  displayName : String
  avatarUrl : String
  moderator : Bool

structure RoomInformation where
  name : String
  description : String
  memberSlots : Nat
  port : Nat
  preferredGame : String
  hostUsername : String
  enableCitraMods : Bool

structure MemberInformation where
  nickname : String
  macAddress : MacAddress
  gameInfo : GameInfo
  username : String
  displayName : String
  avatarUrl : String

inductive StatusMessageTypes where
  | memberJoin | memberLeave | memberKicked | memberBanned | addressUnbanned

/-- What the room sends. `disconnect` is the end of the connection, which the host announces
after everything sent before it. -/
inductive Message where
  | joinSuccess (macAddress : MacAddress)
  | joinSuccessAsMod (macAddress : MacAddress)
  | roomInformation (information : RoomInformation) (members : List MemberInformation)
  | statusMessage (type : StatusMessageTypes) (nickname username : String)
  | roomIsFull
  | nameCollision
  | macCollision
  | consoleIdCollision
  | versionMismatch (version : Nat)
  | wrongPassword
  | closeRoom
  | hostKicked
  | hostBanned
  | modBanListResponse (usernames ips : List String)
  | modPermissionDenied
  | modNoSuchUser
  | disconnect

def Message.plain : Message → Bool
  | .joinSuccess _ | .joinSuccessAsMod _ | .roomInformation _ _ | .disconnect => false
  | _ => true

structure JoinRequest where
  nickname : String
  consoleIdHash : String
  preferredMac : MacAddress
  clientVersion : Nat
  password : String
  token : String

inductive PeerState where
  | disconnected | connected | disconnecting
  deriving DecidableEq

section

variable {Peer : Type}

structure Host (Peer : Type) where
  state : Peer → PeerState
  address : Peer → String
  outgoing : Peer → List Message

structure Member (Peer : Type) where
  nickname : String
  consoleIdHash : String
  gameInfo : GameInfo
  macAddress : MacAddress
  userData : UserData
  peer : Peer

def Member.shown (member : Member Peer) : MemberInformation where
  nickname := member.nickname
  macAddress := member.macAddress
  gameInfo := member.gameInfo
  username := member.userData.username
  displayName := member.userData.displayName
  avatarUrl := member.userData.avatarUrl

structure Room (Peer : Type) where
  information : RoomInformation
  password : String
  members : List (Member Peer)
  usernameBanList : List String
  ipBanList : List String
  host : Host Peer

end

variable {Peer : Type} [DecidableEq Peer]
  (host : Host Peer) (room : Room Peer) (peer : Peer) (nickname : String)

namespace Host

def send (message : Message) : Host Peer :=
  if host.state peer = .connected then
    { host with
      outgoing := Function.update host.outgoing peer (host.outgoing peer ++ [message]) }
  else host

def broadcast (message : Message) : Host Peer :=
  { host with
    outgoing := fun peer =>
      if host.state peer = .connected then host.outgoing peer ++ [message]
      else host.outgoing peer }

/-- The peer is told, and nothing is exchanged with it from here on. -/
def disconnect (host : Host Peer) (peer : Peer) : Host Peer :=
  if host.state peer = .connected then
    { host.send peer .disconnect with state := Function.update host.state peer .disconnecting }
  else host

def connect (ip : String) : Host Peer where
  state := Function.update host.state peer .connected
  address := Function.update host.address peer ip
  outgoing := Function.update host.outgoing peer []

/-- The host reports that the connection is over. A peer that was still connected learns of
it after what was sent before. -/
def close : Host Peer :=
  { host.disconnect peer with
    state := Function.update (host.disconnect peer).state peer .disconnected }

end Host

namespace Room

def send (room : Room Peer) (peer : Peer) (message : Message) : Room Peer :=
  { room with host := room.host.send peer message }

def sendStatusMessage (type : StatusMessageTypes)
    (nickname username : String) : Room Peer :=
  { room with
    host := room.members.foldl
      (fun host member => host.send member.peer (.statusMessage type nickname username))
      room.host }

def shown (room : Room Peer) : List MemberInformation := room.members.map Member.shown

def broadcastRoomInformation : Room Peer :=
  { room with host := room.host.broadcast (.roomInformation room.information room.shown) }

def nicknameCharacter (c : Char) : Bool :=
  c == ' ' || c.isLower || c.isUpper || c.isDigit || c == '.' || c == '_' || c == '-'

def isValidNickname : Bool :=
  4 ≤ nickname.length && nickname.length ≤ 20 && nickname.toList.all nicknameCharacter &&
    room.members.all fun member => member.nickname != nickname

def isValidMacAddress (address : MacAddress) : Bool :=
  room.members.all fun member => member.macAddress != address

def isValidConsoleId (consoleIdHash : String) : Bool :=
  room.members.all fun member => member.consoleIdHash != consoleIdHash

/-- The address with the first bytes `NintendoOUI` and three drawn bytes. -/
def nintendoMac (draw : UInt8 × UInt8 × UInt8) : MacAddress :=
  .mk #[0x00, 0x1F, 0x32, draw.1, draw.2.1, draw.2.2] rfl

/-- Draws until an address is free; `none` when these draws do not end the loop. -/
def generateMacAddress (draws : List (UInt8 × UInt8 × UInt8)) :
    Option MacAddress :=
  (draws.map nintendoMac).find? room.isValidMacAddress

def findPeer (client : Peer) : Option (Member Peer) :=
  room.members.find? fun member => decide (member.peer = client)

def hasModPermission (client : Peer) : Bool :=
  match room.findPeer client with
  | none => false
  | some sender =>
    (room.information.enableCitraMods && sender.userData.moderator) ||
      (room.information.hostUsername != "" &&
        sender.userData.username == room.information.hostUsername)

/-- The end of `HandleJoinRequest`, once no check is left. -/
def enroll (member : Member Peer) : Room Peer :=
  let room := room.sendStatusMessage .memberJoin member.nickname member.userData.username
  let room := { room with members := room.members ++ [member] }
  let room := room.broadcastRoomInformation
  if room.hasModPermission member.peer then
    room.send member.peer (.joinSuccessAsMod member.macAddress)
  else room.send member.peer (.joinSuccess member.macAddress)

/-- The address asked for, or one that is drawn. -/
def pickMac (preferredMac : MacAddress)
    (draws : List (UInt8 × UInt8 × UInt8)) : Option MacAddress :=
  if preferredMac ≠ noPreferredMac then some preferredMac else room.generateMacAddress draws

/-- The checks of `HandleJoinRequest` after the address is known. `user` is what the
verification backend answers for the token. -/
def joinWith (request : JoinRequest) (user : UserData)
    (mac : MacAddress) : Room Peer :=
  if ¬ room.isValidConsoleId request.consoleIdHash then room.send peer .consoleIdCollision
  else if request.clientVersion ≠ networkVersion then
    room.send peer (.versionMismatch networkVersion)
  else if user.username ≠ "" ∧ user.username ∈ room.usernameBanList then
    room.send peer .hostBanned
  else if room.host.address peer ∈ room.ipBanList then room.send peer .hostBanned
  else
    room.enroll
      { nickname := request.nickname
        consoleIdHash := request.consoleIdHash
        gameInfo := { name := "", id := 0 }
        macAddress := mac
        userData := user
        peer := peer }

def handleJoinRequest (request : JoinRequest)
    (draws : List (UInt8 × UInt8 × UInt8)) (user : UserData) : Option (Room Peer) :=
  if room.members.length ≥ room.information.memberSlots then some (room.send peer .roomIsFull)
  else if request.password ≠ room.password then some (room.send peer .wrongPassword)
  else if ¬ room.isValidNickname request.nickname then some (room.send peer .nameCollision)
  else if request.preferredMac ≠ noPreferredMac ∧ ¬ room.isValidMacAddress request.preferredMac then
    some (room.send peer .macCollision)
  else (room.pickMac request.preferredMac draws).map (room.joinWith peer request user)

def findNickname : Option (Member Peer) :=
  room.members.find? fun member => member.nickname == nickname

def eraseNickname : List (Member Peer) :=
  room.members.eraseP fun member => member.nickname == nickname

/-- The part that kicks and bans share: the target is told `notice`, disconnected and erased. -/
def expel (target : Member Peer) (notice : Message) : Room Peer :=
  let room := room.send target.peer notice
  { room with
    host := room.host.disconnect target.peer
    members := room.eraseNickname target.nickname }

def handleModKickPacket : Room Peer :=
  if ¬ room.hasModPermission peer then room.send peer .modPermissionDenied
  else
    match room.findNickname nickname with
    | none => room.send peer .modNoSuchUser
    | some target =>
      let room := room.expel target .hostKicked
      let room := room.sendStatusMessage .memberKicked nickname target.userData.username
      room.broadcastRoomInformation

def ban (username ip : String) : Room Peer :=
  { room with
    usernameBanList :=
      if username ≠ "" ∧ username ∉ room.usernameBanList then room.usernameBanList ++ [username]
      else room.usernameBanList
    ipBanList := if ip ∉ room.ipBanList then room.ipBanList ++ [ip] else room.ipBanList }

def handleModBanPacket : Room Peer :=
  if ¬ room.hasModPermission peer then room.send peer .modPermissionDenied
  else
    match room.findNickname nickname with
    | none => room.send peer .modNoSuchUser
    | some target =>
      let ip := room.host.address target.peer
      let room := room.expel target .hostBanned
      let room := room.ban target.userData.username ip
      let room := room.sendStatusMessage .memberBanned target.nickname target.userData.username
      room.broadcastRoomInformation

def handleModUnbanPacket (address : String) : Room Peer :=
  if ¬ room.hasModPermission peer then room.send peer .modPermissionDenied
  else if address ∈ room.usernameBanList ∨ address ∈ room.ipBanList then
    let room :=
      { room with
        usernameBanList := room.usernameBanList.erase address
        ipBanList := room.ipBanList.erase address }
    room.sendStatusMessage .addressUnbanned address ""
  else room.send peer .modNoSuchUser

def handleModGetBanListPacket : Room Peer :=
  if ¬ room.hasModPermission peer then room.send peer .modPermissionDenied
  else room.send peer (.modBanListResponse room.usernameBanList room.ipBanList)

/-- The first entry of the peer gets the new game. -/
def setGameInfo (members : List (Member Peer)) (peer : Peer) (gameInfo : GameInfo) :
    List (Member Peer) :=
  match members with
  | [] => []
  | member :: rest =>
    if member.peer = peer then { member with gameInfo := gameInfo } :: rest
    else member :: setGameInfo rest peer gameInfo

def handleGameNamePacket (gameInfo : GameInfo) : Room Peer :=
  let room := { room with members := setGameInfo room.members peer gameInfo }
  room.broadcastRoomInformation

def erasePeer (client : Peer) : List (Member Peer) :=
  room.members.eraseP fun member => decide (member.peer = client)

def handleClientDisconnection (client : Peer) : Room Peer :=
  let found := room.findPeer client
  let room := { room with members := room.erasePeer client, host := room.host.disconnect client }
  let room :=
    match found with
    | none => room
    | some member =>
      if member.nickname ≠ "" then
        room.sendStatusMessage .memberLeave member.nickname member.userData.username
      else room
  room.broadcastRoomInformation

end Room

/-- What the host reports to the server loop. A packet that is too short leaves the fields
it does not reach arbitrary, so a request is any record. -/
inductive Event (Peer : Type) where
  | connect (peer : Peer) (ip : String)
  | joinRequest (peer : Peer) (request : JoinRequest) (draws : List (UInt8 × UInt8 × UInt8))
      (user : UserData)
  | setGameInfo (peer : Peer) (gameInfo : GameInfo)
  | modKick (peer : Peer) (nickname : String)
  | modBan (peer : Peer) (nickname : String)
  | modUnban (peer : Peer) (address : String)
  | modGetBanList (peer : Peer)
  | disconnect (peer : Peer)

namespace Event

/-- Packets come from connected peers, one connection of a peer at a time, and each
connection ends once. -/
def Reported : Event Peer → Prop
  | connect peer _ => host.state peer = .disconnected
  | disconnect peer => host.state peer ≠ .disconnected
  | joinRequest peer .. | setGameInfo peer _ | modKick peer _ | modBan peer _ | modUnban peer _
  | modGetBanList peer => host.state peer = .connected

instance (host : Host Peer) : (event : Event Peer) → Decidable (event.Reported host)
  | connect peer _ => inferInstanceAs (Decidable (host.state peer = .disconnected))
  | disconnect peer => inferInstanceAs (Decidable (host.state peer ≠ .disconnected))
  | joinRequest peer .. | setGameInfo peer _ | modKick peer _ | modBan peer _ | modUnban peer _
  | modGetBanList peer => inferInstanceAs (Decidable (host.state peer = .connected))

end Event

namespace Room

/-- One turn of `ServerLoop`. -/
def serve : Event Peer → Option (Room Peer)
  | .connect peer ip => some { room with host := room.host.connect peer ip }
  | .joinRequest peer request draws user => room.handleJoinRequest peer request draws user
  | .setGameInfo peer gameInfo => some (room.handleGameNamePacket peer gameInfo)
  | .modKick peer nickname => some (room.handleModKickPacket peer nickname)
  | .modBan peer nickname => some (room.handleModBanPacket peer nickname)
  | .modUnban peer address => some (room.handleModUnbanPacket peer address)
  | .modGetBanList peer => some (room.handleModGetBanListPacket peer)
  | .disconnect peer =>
    some ({ room with host := room.host.close peer }.handleClientDisconnection peer)

structure Created (room : Room Peer) : Prop where
  nobody : room.members = []
  closed : ∀ peer, room.host.state peer = .disconnected
  silent : ∀ peer, room.host.outgoing peer = []

end Room

end EmuThreeDS.Network
