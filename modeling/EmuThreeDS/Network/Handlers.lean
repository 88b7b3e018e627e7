import EmuThreeDS.Network.Room

/-!
# What the room's handlers leave alone

Sending touches nothing but the messages on their way, and only a disconnection changes the
state of a connection.
-/
namespace EmuThreeDS.Network

theorem split_of_find {α : Type} {p : α → Bool} {l : List α} {a : α} (found : l.find? p = some a) :
    ∃ pre post, l = pre ++ a :: post ∧ l.eraseP p = pre ++ post := by
  obtain ⟨holds, pre, post, split, before⟩ := List.find?_eq_some_iff_append.mp found
  have skip : ∀ b ∈ pre, ¬ p b = true := by
    intro b mem
    simpa using before b mem
  refine ⟨pre, post, split, ?_⟩
  rw [split, List.eraseP_append_right _ skip, List.eraseP_cons_of_pos holds]

variable {Peer : Type} [DecidableEq Peer]

namespace Host

variable (host : Host Peer) (peer other : Peer) (message : Message)

@[simp] theorem send_state : (host.send peer message).state = host.state := by
  unfold send
  split_ifs <;> rfl

theorem disconnect_state_self : (host.disconnect peer).state peer ≠ .connected := by
  unfold disconnect
  split_ifs with connected
  · show Function.update host.state peer .disconnecting peer ≠ .connected
    rw [Function.update_self]
    nofun
  · exact connected

theorem disconnect_state_of_ne (differ : other ≠ peer) :
    (host.disconnect peer).state other = host.state other := by
  unfold disconnect
  split_ifs
  · exact Function.update_of_ne differ _ _
  · rfl

theorem close_state_self : (host.close peer).state peer = .disconnected :=
  Function.update_self _ _ _

theorem close_state_of_ne (differ : other ≠ peer) :
    (host.close peer).state other = host.state other := by
  show Function.update (host.disconnect peer).state peer .disconnected other = host.state other
  rw [Function.update_of_ne differ, disconnect_state_of_ne host peer other differ]

end Host

namespace Room

variable (room : Room Peer) (peer : Peer) (message : Message) (type : StatusMessageTypes)
  (nickname username : String) (member : Member Peer)

@[simp] theorem send_state : (room.send peer message).host.state = room.host.state :=
  room.host.send_state peer message

theorem foldl_send_state (members : List (Member Peer)) (host : Host Peer) :
    (members.foldl (fun host member => host.send member.peer message) host).state = host.state := by
  induction members generalizing host with
  | nil => rfl
  | cons member rest ih =>
    rw [List.foldl_cons, ih]
    exact host.send_state member.peer message

@[simp] theorem sendStatusMessage_state :
    (room.sendStatusMessage type nickname username).host.state = room.host.state :=
  foldl_send_state _ room.members room.host

omit [DecidableEq Peer] in
@[simp] theorem broadcastRoomInformation_state :
    room.broadcastRoomInformation.host.state = room.host.state := rfl

@[simp] theorem enroll_members : (room.enroll member).members = room.members ++ [member] := by
  unfold enroll
  dsimp only
  split_ifs <;> rfl

@[simp] theorem enroll_information : (room.enroll member).information = room.information := by
  unfold enroll
  dsimp only
  split_ifs <;> rfl

@[simp] theorem enroll_state : (room.enroll member).host.state = room.host.state := by
  unfold enroll
  dsimp only
  split_ifs <;> simp

omit [DecidableEq Peer] in
theorem findNickname_eq_some {target : Member Peer}
    (found : room.findNickname nickname = some target) : target.nickname = nickname := by
  simpa using List.find?_some found

theorem findPeer_eq_some {found : Member Peer} (find : room.findPeer peer = some found) :
    found.peer = peer := by
  simpa using List.find?_some find

theorem findPeer_eq_none (find : room.findPeer peer = none) :
    (∀ m ∈ room.members, m.peer ≠ peer) ∧ room.erasePeer peer = room.members := by
  have away : ∀ m ∈ room.members, m.peer ≠ peer := by
    simpa [findPeer] using find
  refine ⟨away, List.eraseP_of_forall_not ?_⟩
  simpa using away

theorem map_setGameInfo {α : Type} (f : Member Peer → α)
    (blind : ∀ m gameInfo, f { m with gameInfo := gameInfo } = f m)
    (members : List (Member Peer)) (gameInfo : GameInfo) :
    (setGameInfo members peer gameInfo).map f = members.map f := by
  induction members with
  | nil => rfl
  | cons member rest ih =>
    unfold setGameInfo
    split_ifs
    · rw [List.map_cons, List.map_cons, blind]
    · rw [List.map_cons, List.map_cons, ih]

/-- The checks of `HandleJoinRequest` on which the answer depends. -/
structure Admits (request : JoinRequest) (user : UserData) : Prop where
  space : room.members.length < room.information.memberSlots
  password : request.password = room.password
  nickname : room.isValidNickname request.nickname
  mac : request.preferredMac = noPreferredMac ∨ room.isValidMacAddress request.preferredMac
  consoleId : room.isValidConsoleId request.consoleIdHash
  version : request.clientVersion = networkVersion
  username : user.username = "" ∨ user.username ∉ room.usernameBanList
  ip : room.host.address peer ∉ room.ipBanList

variable {room peer} {request : JoinRequest} {user : UserData}
  {draws : List (UInt8 × UInt8 × UInt8)} {room' : Room Peer}

omit [DecidableEq Peer] in
theorem pickMac_valid {mac : MacAddress}
    (free : request.preferredMac = noPreferredMac ∨ room.isValidMacAddress request.preferredMac)
    (picked : room.pickMac request.preferredMac draws = some mac) : room.isValidMacAddress mac := by
  unfold pickMac at picked
  split_ifs at picked with preferred
  · rw [← Option.some.inj picked]
    exact free.resolve_left preferred
  · exact List.find?_some picked

variable (room peer request user) in
theorem joinWith_cases (mac : MacAddress) :
    (room.isValidConsoleId request.consoleIdHash ∧ request.clientVersion = networkVersion ∧
      (user.username = "" ∨ user.username ∉ room.usernameBanList) ∧
      room.host.address peer ∉ room.ipBanList ∧ room.joinWith peer request user mac =
        room.enroll ⟨request.nickname, request.consoleIdHash, ⟨"", 0⟩, mac, user, peer⟩) ∨
    ∃ message, message.plain ∧ room.joinWith peer request user mac = room.send peer message := by
  unfold joinWith
  split_ifs with consoleId version username ip
  · exact .inr ⟨_, rfl, rfl⟩
  · exact .inr ⟨_, rfl, rfl⟩
  · exact .inr ⟨_, rfl, rfl⟩
  · refine .inl ⟨consoleId, not_not.mp version, ?_, ip, rfl⟩
    exact or_iff_not_imp_left.mpr fun named banned => username ⟨named, banned⟩
  · exact .inr ⟨_, rfl, rfl⟩

theorem handleJoinRequest_cases
    (run : room.handleJoinRequest peer request draws user = some room') :
    (room.Admits peer request user ∧ ∃ mac, room.isValidMacAddress mac ∧
      room' = room.enroll ⟨request.nickname, request.consoleIdHash, ⟨"", 0⟩, mac, user, peer⟩) ∨
    ∃ message, message.plain ∧ room' = room.send peer message := by
  unfold handleJoinRequest at run
  split_ifs at run with full password nickname collision
  · exact .inr ⟨_, rfl, (Option.some.inj run).symm⟩
  · exact .inr ⟨_, rfl, (Option.some.inj run).symm⟩
  · exact .inr ⟨_, rfl, (Option.some.inj run).symm⟩
  · obtain ⟨mac, picked, rfl⟩ := Option.map_eq_some_iff.mp run
    have free : request.preferredMac = noPreferredMac ∨
        room.isValidMacAddress request.preferredMac :=
      or_iff_not_imp_left.mpr fun preferred => by_contra fun taken => collision ⟨preferred, taken⟩
    rcases joinWith_cases room peer request user mac with
      ⟨consoleId, version, username, ip, same⟩ | refused
    · exact .inl ⟨⟨Nat.not_le.mp full, not_not.mp password, nickname, free, consoleId, version,
        username, ip⟩, mac, pickMac_valid free picked, same⟩
    · exact .inr refused
  · exact .inr ⟨_, rfl, (Option.some.inj run).symm⟩

end Room

end EmuThreeDS.Network
