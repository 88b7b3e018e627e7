import EmuThreeDS.Network.Handlers

/-!
# Who is in the room

One entry a connection, with keys of its own. A handler that admits nobody leaves some of
the entries there were, each with its connection.
-/
namespace EmuThreeDS.Network

variable {Peer : Type}

def Member.keys (member : Member Peer) : String × MacAddress × String × Peer :=
  (member.nickname, member.macAddress, member.consoleIdHash, member.peer)

structure Membership (room : Room Peer) : Prop where
  nicknames : (room.members.map Member.nickname).Nodup
  macAddresses : (room.members.map Member.macAddress).Nodup
  consoleIds : (room.members.map Member.consoleIdHash).Nodup
  peers : (room.members.map Member.peer).Nodup
  fits : room.members.length ≤ room.information.memberSlots
  connected : ∀ member ∈ room.members, room.host.state member.peer = .connected

/-- Nobody enters, and who stays is still connected. -/
structure Follows (room room' : Room Peer) : Prop where
  fewer : (room'.members.map Member.keys).Sublist (room.members.map Member.keys)
  information : room'.information = room.information
  connected : (room.members.map Member.peer).Nodup →
    (∀ member ∈ room.members, room.host.state member.peer = .connected) →
    ∀ member ∈ room'.members, room'.host.state member.peer = .connected

namespace Follows

variable {room room' room'' : Room Peer}

theorem map_fewer (h : Follows room room') {α : Type}
    (f : String × MacAddress × String × Peer → α) :
    (room'.members.map fun m => f m.keys).Sublist (room.members.map fun m => f m.keys) := by
  have sub := h.fewer.map f
  rwa [List.map_map, List.map_map] at sub

theorem membership (h : Follows room room') (before : Membership room) : Membership room' where
  nicknames := before.nicknames.sublist (h.map_fewer fun k => k.1)
  macAddresses := before.macAddresses.sublist (h.map_fewer fun k => k.2.1)
  consoleIds := before.consoleIds.sublist (h.map_fewer fun k => k.2.2.1)
  peers := before.peers.sublist (h.map_fewer fun k => k.2.2.2)
  fits := by
    have shorter := h.fewer.length_le
    rw [List.length_map, List.length_map] at shorter
    exact h.information ▸ Nat.le_trans shorter before.fits
  connected := h.connected before.peers before.connected

theorem trans (h : Follows room room') (next : Follows room' room'') : Follows room room'' where
  fewer := next.fewer.trans h.fewer
  information := next.information.trans h.information
  connected distinct up :=
    next.connected (distinct.sublist (h.map_fewer fun k => k.2.2.2)) (h.connected distinct up)

theorem of_same (keys : room'.members.map Member.keys = room.members.map Member.keys)
    (information : room'.information = room.information)
    (states : ∀ peer, room.host.state peer = .connected → room'.host.state peer = .connected) :
    Follows room room' where
  fewer := keys ▸ List.Sublist.refl _
  information := information
  connected _ up member mem := by
    have key : member.keys ∈ room.members.map Member.keys := keys ▸ List.mem_map_of_mem mem
    obtain ⟨old, oldMem, same⟩ := List.mem_map.mp key
    have peer : old.peer = member.peer := congrArg (fun k => k.2.2.2) same
    exact states _ (peer ▸ up old oldMem)

theorem of_erase {pre post : List (Member Peer)} {gone : Member Peer}
    (split : room.members = pre ++ gone :: post) (members : room'.members = pre ++ post)
    (information : room'.information = room.information)
    (states : ∀ peer, peer ≠ gone.peer → room'.host.state peer = room.host.state peer) :
    Follows room room' := by
  have fewer : room'.members.Sublist room.members := by
    rw [members, split]
    exact (List.sublist_cons_self gone post).append_left pre
  refine ⟨fewer.map _, information, ?_⟩
  intro distinct up member mem
  have differ : member.peer ≠ gone.peer := by
    rw [split, List.map_append, List.map_cons, List.nodup_middle] at distinct
    have away := (List.nodup_cons.mp distinct).1
    rw [← List.map_append, ← members] at away
    exact fun same => away (same ▸ List.mem_map_of_mem mem)
  rw [states _ differ]
  exact up member (fewer.mem mem)

end Follows

namespace Room

section

variable {room : Room Peer}

variable {nickname : String}

theorem isValidNickname_fresh (valid : room.isValidNickname nickname) :
    nickname ∉ room.members.map Member.nickname := by
  have others := (Bool.and_eq_true_iff.mp valid).2
  simpa using others

theorem isValidMacAddress_fresh {address : MacAddress} (valid : room.isValidMacAddress address) :
    address ∉ room.members.map Member.macAddress := by
  simpa [isValidMacAddress] using valid

theorem isValidConsoleId_fresh {hash : String} (valid : room.isValidConsoleId hash) :
    hash ∉ room.members.map Member.consoleIdHash := by
  simpa [isValidConsoleId] using valid

end

variable [DecidableEq Peer] {room room' : Room Peer} {peer : Peer}

theorem follows_send (message : Message) : Follows room (room.send peer message) :=
  .of_same rfl rfl fun _ up => (room.send_state peer message).symm ▸ up

theorem follows_sendStatusMessage (type : StatusMessageTypes) (nickname username : String) :
    Follows room (room.sendStatusMessage type nickname username) :=
  .of_same rfl rfl fun _ up => by simpa using up

omit [DecidableEq Peer] in
theorem follows_broadcast : Follows room room.broadcastRoomInformation :=
  .of_same rfl rfl fun _ up => up

theorem follows_setGameInfo (gameInfo : GameInfo) :
    Follows room (room.handleGameNamePacket peer gameInfo) :=
  .of_same (map_setGameInfo peer Member.keys (fun _ _ => rfl) room.members gameInfo) rfl
    fun _ up => up

theorem follows_expel {target : Member Peer}
    (found : room.findNickname nickname = some target) (notice : Message) :
    Follows room (room.expel target notice) := by
  obtain ⟨pre, post, split, erased⟩ := split_of_find found
  refine .of_erase split ?_ rfl ?_
  · show room.eraseNickname target.nickname = pre ++ post
    rw [findNickname_eq_some room nickname found]
    exact erased
  · intro other differ
    show ((room.send target.peer notice).host.disconnect target.peer).state other = _
    rw [Host.disconnect_state_of_ne _ _ _ differ, send_state]

theorem follows_kick (nickname : String) :
    Follows room (room.handleModKickPacket peer nickname) := by
  unfold handleModKickPacket
  split_ifs with denied
  · split
    · exact follows_send _
    · rename_i target found
      exact (follows_expel found .hostKicked).trans
        ((follows_sendStatusMessage _ _ _).trans follows_broadcast)
  · exact follows_send _

theorem follows_modBan (nickname : String) :
    Follows room (room.handleModBanPacket peer nickname) := by
  unfold handleModBanPacket
  split_ifs with denied
  · split
    · exact follows_send _
    · rename_i target found
      have banned : Follows room ((room.expel target .hostBanned).ban target.userData.username
          (room.host.address target.peer)) :=
        (follows_expel found .hostBanned).trans (.of_same rfl rfl fun _ up => up)
      exact banned.trans ((follows_sendStatusMessage _ _ _).trans follows_broadcast)
  · exact follows_send _

theorem follows_unban (address : String) :
    Follows room (room.handleModUnbanPacket peer address) := by
  unfold handleModUnbanPacket
  split_ifs with denied known
  · exact .of_same rfl rfl fun _ up => by simpa using up
  · exact follows_send _
  · exact follows_send _

theorem follows_getBanList : Follows room (room.handleModGetBanListPacket peer) := by
  unfold handleModGetBanListPacket
  split_ifs
  · exact follows_send _
  · exact follows_send _

theorem follows_disconnect :
    Follows room ({ room with host := room.host.close peer }.handleClientDisconnection peer) := by
  have others (other : Peer) (differ : other ≠ peer) :
      ((room.host.close peer).disconnect peer).state other = room.host.state other := by
    rw [Host.disconnect_state_of_ne _ _ _ differ, Host.close_state_of_ne _ _ _ differ]
  have erased : Follows room { room with
      members := room.erasePeer peer, host := (room.host.close peer).disconnect peer } := by
    cases find : room.findPeer peer with
    | none =>
      obtain ⟨away, same⟩ := findPeer_eq_none room peer find
      refine ⟨?_, rfl, ?_⟩
      · rw [same]
      · intro _ up member mem
        have old : member ∈ room.members := same ▸ mem
        exact (others _ (away member old)).trans (up member old)
    | some gone =>
      obtain ⟨pre, post, split, rest⟩ := split_of_find find
      exact .of_erase split rest rfl fun other differ =>
        others other (findPeer_eq_some room peer find ▸ differ)
  unfold handleClientDisconnection
  dsimp only
  split
  · exact erased.trans follows_broadcast
  · split_ifs
    · exact erased.trans ((follows_sendStatusMessage _ _ _).trans follows_broadcast)
    · exact erased.trans follows_broadcast

theorem follows_connect (ip : String) :
    Follows room { room with host := room.host.connect peer ip } := by
  refine .of_same rfl rfl ?_
  intro other up
  show Function.update room.host.state peer .connected other = .connected
  rw [Function.update_apply]
  split_ifs
  · rfl
  · exact up

theorem serve_cases (run : room.serve event = some room') : Follows room room' ∨
    ∃ peer request draws user mac, event = .joinRequest peer request draws user ∧
      room.Admits peer request user ∧ room.isValidMacAddress mac ∧
      room' = room.enroll ⟨request.nickname, request.consoleIdHash, ⟨"", 0⟩, mac, user, peer⟩ := by
  cases event with
  | connect peer ip => exact .inl (Option.some.inj run ▸ follows_connect ip)
  | joinRequest peer request draws user =>
    rcases handleJoinRequest_cases run with ⟨admits, mac, free, same⟩ | ⟨message, _, same⟩
    · exact .inr ⟨peer, request, draws, user, mac, rfl, admits, free, same⟩
    · exact .inl (same ▸ follows_send message)
  | setGameInfo peer gameInfo => exact .inl (Option.some.inj run ▸ follows_setGameInfo gameInfo)
  | modKick peer nickname => exact .inl (Option.some.inj run ▸ follows_kick nickname)
  | modBan peer nickname => exact .inl (Option.some.inj run ▸ follows_modBan nickname)
  | modUnban peer address => exact .inl (Option.some.inj run ▸ follows_unban address)
  | modGetBanList peer => exact .inl (Option.some.inj run ▸ follows_getBanList)
  | disconnect peer => exact .inl (Option.some.inj run ▸ follows_disconnect)

theorem membership_admit (h : Membership room) {request : JoinRequest} {user : UserData}
    {mac : MacAddress} (admits : room.Admits peer request user) (free : room.isValidMacAddress mac)
    (up : room.host.state peer = .connected) (once : ∀ member ∈ room.members, member.peer ≠ peer) :
    Membership
      (room.enroll ⟨request.nickname, request.consoleIdHash, ⟨"", 0⟩, mac, user, peer⟩) := by
  have snoc {α : Type} (f : Member Peer → α) (member : Member Peer)
      (distinct : (room.members.map f).Nodup) (fresh : f member ∉ room.members.map f) :
      ((room.members ++ [member]).map f).Nodup := by
    rw [List.map_append]
    exact List.nodup_append.mpr ⟨distinct, List.nodup_singleton _,
      fun a mem b last => by
        rw [List.mem_singleton.mp last]
        exact fun same => fresh (same ▸ mem)⟩
  constructor
  · rw [enroll_members]
    exact snoc _ _ h.nicknames (isValidNickname_fresh admits.nickname)
  · rw [enroll_members]
    exact snoc _ _ h.macAddresses (isValidMacAddress_fresh free)
  · rw [enroll_members]
    exact snoc _ _ h.consoleIds (isValidConsoleId_fresh admits.consoleId)
  · rw [enroll_members]
    exact snoc _ _ h.peers (by simpa using once)
  · rw [enroll_members, enroll_information, List.length_append]
    exact admits.space
  · rw [enroll_members, enroll_state]
    intro member mem
    rcases List.mem_append.mp mem with old | new
    · exact h.connected member old
    · rw [List.mem_singleton.mp new]
      exact up

/-- The connection of an admitted request owns no entry yet, and a user without a name is
not admitted where the list of banned names holds the empty one. -/
def AdmitsOnce (room : Room Peer) : Event Peer → Prop
  | .joinRequest peer request _ user =>
    room.Admits peer request user →
      (∀ member ∈ room.members, member.peer ≠ peer) ∧
        (user.username = "" → "" ∉ room.usernameBanList)
  | _ => True

theorem membership_serve (h : Membership room) (reported : event.Reported room.host)
    (once : room.AdmitsOnce event) (run : room.serve event = some room') : Membership room' := by
  rcases serve_cases run with follows |
    ⟨peer, request, draws, user, mac, rfl, admits, free, rfl⟩
  · exact follows.membership h
  · exact membership_admit h admits free reported (once admits).1

theorem serve_newcomer (once : room.AdmitsOnce event)
    (run : room.serve event = some room') {member : Member Peer} (mem : member ∈ room'.members)
    (new : ∀ old ∈ room.members, old.nickname ≠ member.nickname) :
    member.userData.username ∉ room.usernameBanList ∧
      room.host.address member.peer ∉ room.ipBanList := by
  rcases serve_cases run with follows |
    ⟨peer, request, draws, user, mac, rfl, admits, free, rfl⟩
  · have known := (follows.map_fewer fun k => k.1).mem (List.mem_map_of_mem mem)
    obtain ⟨old, oldMem, same⟩ := List.mem_map.mp known
    exact absurd same (new old oldMem)
  · rw [enroll_members] at mem
    rcases List.mem_append.mp mem with old | last
    · exact absurd rfl (new member old)
    · rw [List.mem_singleton.mp last]
      refine ⟨?_, admits.ip⟩
      rcases admits.username with nameless | notBanned
      · rw [nameless]
        exact (once admits).2 nameless
      · exact notBanned

/-- What the entries satisfy after every handler, and what an entry satisfies when it is
added, as long as no connection that owns an entry is admitted again. -/
theorem room_membership
    (reached : Runs.Reachable Created (fun room event next => room.serve event = some next)
      (fun room event => event.Reported room.host ∧ room.AdmitsOnce event) room) : Membership room ∧
      ∀ event next, event.Reported room.host → room.AdmitsOnce event →
        room.serve event = some next → ∀ member ∈ next.members,
          (∀ old ∈ room.members, old.nickname ≠ member.nickname) →
            member.userData.username ∉ room.usernameBanList ∧
              room.host.address member.peer ∉ room.ipBanList := by
  constructor
  · apply reached.invariant
    · intro first created
      refine ⟨?_, ?_, ?_, ?_, ?_, ?_⟩
      all_goals simp [created.nobody]
    · intro before event next h allowed run
      exact membership_serve h allowed.1 allowed.2 run
  · intro event next _ once run member mem new
    exact serve_newcomer once run mem new

/-- A room for four, and a client that asks twice over one connection and leaves. -/
def fourSlots : Room Nat where
  information := ⟨"room", "", 4, 24872, "", "", false⟩
  password := ""
  members := []
  usernameBanList := []
  ipBanList := []
  host := { state := fun _ => .disconnected, address := fun _ => "", outgoing := fun _ => [] }

def asks (nickname console : String) (draw : UInt8 × UInt8 × UInt8) : Event Nat :=
  .joinRequest 0 ⟨nickname, console, noPreferredMac, 4, "", ""⟩ [draw] ⟨"", "", "", false⟩

theorem fourSlots_created : fourSlots.Created := ⟨rfl, fun _ => rfl, fun _ => rfl⟩

theorem room_membership_join :
    ∃ next : Room Nat, (fourSlots.serve (.connect 0 "10.0.0.1")).bind
        (fun room => room.serve (asks "anna" "a" (1, 2, 3))) = some next ∧
      Membership next ∧ next.members.map Member.nickname = ["anna"] := by
  refine ⟨_, rfl, (room_membership (.step (.step (.start fourSlots_created)
    (a := .connect 0 "10.0.0.1") ⟨rfl, trivial⟩ rfl) (a := asks "anna" "a" (1, 2, 3)) ⟨rfl, ?_⟩
    rfl)).1, by decide⟩
  exact fun _ => ⟨nofun, fun _ => nofun⟩

/-- The second request is admitted under another nickname, address and console, and the
disconnection erases the first entry only. -/
theorem two_requests_of_one_peer :
    ∃ room : Room Nat, Runs.Reachable Created (fun room event next => room.serve event = some next)
      (fun room event => event.Reported room.host) room ∧ ¬ Membership room := by
  refine ⟨_, .step (.step (.step (.step (.start fourSlots_created)
    (a := .connect 0 "10.0.0.1") rfl rfl) (a := asks "anna" "a" (1, 2, 3)) rfl rfl)
    (a := asks "bert" "b" (4, 5, 6)) rfl rfl) (a := .disconnect 0) nofun rfl, ?_⟩
  intro h
  have up := h.connected _ (List.mem_singleton_self _)
  exact absurd up (by decide)

end Room

end EmuThreeDS.Network
