import EmuThreeDS.Network.Handlers
import EmuThreeDS.Network.RoomMember

/-!
# What the handlers send

Whatever a handler does to the member list, each peer that is still connected gets the new
list before the handler returns, and an admitted peer gets it before its address.
-/
namespace EmuThreeDS.Network

variable {Peer : Type}

section

variable [DecidableEq Peer]

namespace Host

variable (host : Host Peer) (peer other : Peer) (message : Message)

def hears (host : Host Peer) (peer : Peer) (messages : List Message) : List Message :=
  if host.state peer = .connected then messages else []

theorem send_outgoing : (host.send peer message).outgoing other =
      host.outgoing other ++ if other = peer then host.hears other [message] else [] := by
  unfold send hears
  by_cases same : other = peer
  · subst same
    rw [if_pos rfl]
    split_ifs
    · exact Function.update_self _ _ _
    · exact (List.append_nil _).symm
  · rw [if_neg same, List.append_nil]
    split_ifs
    · exact Function.update_of_ne same _ _
    · rfl

omit [DecidableEq Peer] in
theorem broadcast_outgoing : (host.broadcast message).outgoing other =
      host.outgoing other ++ host.hears other [message] := by
  unfold broadcast hears
  dsimp only
  split_ifs
  · rfl
  · exact (List.append_nil _).symm

theorem disconnect_outgoing : (host.disconnect peer).outgoing other =
      host.outgoing other ++ if other = peer then host.hears other [.disconnect] else [] := by
  unfold disconnect
  split_ifs with connected same same
  · rw [send_outgoing, if_pos same]
  · rw [send_outgoing, if_neg same]
  · rw [same, hears, if_neg connected, List.append_nil]
  · exact (List.append_nil _).symm

end Host

namespace Room

variable (room : Room Peer) (c : Peer) (type : StatusMessageTypes) (nickname username : String)

theorem foldl_send_outgoing (message : Message) (members : List (Member Peer)) (host : Host Peer) :
    ∃ n, (members.foldl (fun host member => host.send member.peer message) host).outgoing c =
      host.outgoing c ++ host.hears c (List.replicate n message) := by
  induction members generalizing host with
  | nil => exact ⟨0, by simp [Host.hears]⟩
  | cons member rest ih =>
    obtain ⟨n, later⟩ := ih (host.send member.peer message)
    rw [Host.send_outgoing] at later
    by_cases same : c = member.peer
    · refine ⟨n + 1, ?_⟩
      rw [List.foldl_cons, later, List.append_assoc]
      unfold Host.hears
      rw [Host.send_state]
      split_ifs <;> rfl
    · refine ⟨n, ?_⟩
      rw [List.foldl_cons, later, if_neg same, List.append_nil]
      unfold Host.hears
      rw [Host.send_state]

theorem sendStatusMessage_outgoing :
    ∃ n, (room.sendStatusMessage type nickname username).host.outgoing c = room.host.outgoing c ++
        room.host.hears c (List.replicate n (.statusMessage type nickname username)) :=
  foldl_send_outgoing c _ room.members room.host

omit [DecidableEq Peer] in
theorem broadcastRoomInformation_outgoing : room.broadcastRoomInformation.host.outgoing c =
      room.host.outgoing c ++ room.host.hears c [.roomInformation room.information room.shown] :=
  room.host.broadcast_outgoing c _

end Room

end

theorem only_last_given {xs pre post : List Message} {last message : Message} {mac : MacAddress}
    (split : xs ++ [last] = pre ++ message :: post) (given : message.given = some mac)
    (others : ∀ other ∈ xs, other.given = none) : pre = xs ∧ last = message := by
  rcases List.eq_nil_or_concat post with rfl | ⟨post, z, rfl⟩
  · obtain ⟨same, tail⟩ := List.append_inj' split rfl
    exact ⟨same.symm, List.singleton_inj.mp tail⟩
  · rw [List.concat_eq_append, ← List.cons_append, ← List.append_assoc] at split
    obtain ⟨same, _⟩ := List.append_inj' split rfl
    have none := others message (same ▸ by simp)
    exact absurd (none.symm.trans given) nofun

/-- What a handler puts into the queue of `c`: `joins` is the nickname under which it admits
this peer. -/
structure Delivers (room room' : Room Peer) (c : Peer) (joins : String → Prop)
    (xs : List Message) : Prop where
  outgoing : room'.host.outgoing c = room.host.outgoing c ++ xs
  silent : room.host.state c ≠ .connected → xs = [] ∧ room'.host.state c ≠ .connected
  opened : room'.host.state c = .connected → .disconnect ∉ xs
  closing : room.host.state c = .connected → room'.host.state c ≠ .connected →
    ∃ pre, xs = pre ++ [.disconnect] ∧ .disconnect ∉ pre
  shows : room'.host.state c = .connected →
    (room'.shown = room.shown ∧ (∀ kept, lastShown kept xs = kept) ∧
      ∀ message ∈ xs, message.given = none) ∨
    ∀ kept, lastShown kept xs = room'.shown
  given : ∀ pre message post mac, xs = pre ++ message :: post → message.given = some mac →
    ∃ nickname, joins nickname ∧ ∀ kept, ∃ entry ∈ lastShown kept pre,
      entry.nickname = nickname ∧ entry.macAddress = mac

namespace Delivers

variable {room room' : Room Peer} {c : Peer} {joins : String → Prop} {xs : List Message}

theorem of_silent (outgoing : room'.host.outgoing c = room.host.outgoing c)
    (down : room.host.state c ≠ .connected) (still : room'.host.state c ≠ .connected) :
    Delivers room room' c joins [] where
  outgoing := outgoing.trans (List.append_nil _).symm
  silent _ := ⟨rfl, still⟩
  opened up := absurd up still
  closing up := absurd up down
  shows up := absurd up still
  given pre message post mac split := absurd split (by simp)

theorem of_plain (outgoing : room'.host.outgoing c = room.host.outgoing c ++ xs)
    (plain : ∀ message ∈ xs, message.plain) (shown : room'.shown = room.shown)
    (kept : ∀ kept, lastShown kept xs = kept)
    (up : room.host.state c = .connected) (still : room'.host.state c = .connected) :
    Delivers room room' c joins xs where
  outgoing := outgoing
  silent down := absurd up down
  opened _ ends := absurd (plain _ ends) nofun
  closing _ down := absurd still down
  shows _ := .inl ⟨shown, kept, fun message mem => Message.given_of_plain (plain message mem)⟩
  given pre message post mac split gives := by
    have none := Message.given_of_plain (plain message (split ▸ by simp))
    exact absurd (none.symm.trans gives) nofun

theorem of_announced {information : RoomInformation}
    (outgoing : room'.host.outgoing c =
      room.host.outgoing c ++ (xs ++ [.roomInformation information room'.shown]))
    (plain : ∀ message ∈ xs, message.plain)
    (up : room.host.state c = .connected) (still : room'.host.state c = .connected) :
    Delivers room room' c joins (xs ++ [.roomInformation information room'.shown]) where
  outgoing := outgoing
  silent down := absurd up down
  opened _ ends := by
    rcases List.mem_append.mp ends with early | last
    · exact absurd (plain _ early) nofun
    · exact absurd (List.mem_singleton.mp last) nofun
  closing _ down := absurd still down
  shows _ := .inr fun kept => by rw [lastShown_append]; rfl
  given pre message post mac split gives := by
    obtain ⟨_, rfl⟩ := only_last_given split gives fun other mem =>
      Message.given_of_plain (plain other mem)
    exact absurd gives nofun

theorem of_closing
    (outgoing : room'.host.outgoing c = room.host.outgoing c ++ (xs ++ [.disconnect]))
    (plain : ∀ message ∈ xs, message.plain)
    (up : room.host.state c = .connected) (still : room'.host.state c ≠ .connected) :
    Delivers room room' c joins (xs ++ [.disconnect]) where
  outgoing := outgoing
  silent down := absurd up down
  opened up := absurd up still
  closing _ _ := ⟨xs, rfl, fun ends => absurd (plain _ ends) nofun⟩
  shows up := absurd up still
  given pre message post mac split gives := by
    obtain ⟨_, rfl⟩ := only_last_given split gives fun other mem =>
      Message.given_of_plain (plain other mem)
    exact absurd gives nofun

end Delivers

namespace Room

variable [DecidableEq Peer] {room mid : Room Peer} {c peer : Peer} {joins : String → Prop}
  {pre : List Message}

theorem delivers_send {message : Message} (plain : message.plain) :
    ∃ xs, Delivers room (room.send peer message) c joins xs := by
  have outgoing := room.host.send_outgoing peer c message
  have state := congrFun (room.host.send_state peer message) c
  by_cases up : room.host.state c = .connected
  · by_cases same : c = peer
    · rw [if_pos same, Host.hears, if_pos up] at outgoing
      refine ⟨[message], .of_plain outgoing ?_ rfl (fun kept => lastShown_plain kept plain) up
        (state.trans up)⟩
      simpa using plain
    · rw [if_neg same] at outgoing
      exact ⟨[], .of_plain outgoing nofun rfl (fun _ => rfl) up (state.trans up)⟩
  · rw [Host.hears, if_neg up, ite_self, List.append_nil] at outgoing
    exact ⟨[], .of_silent outgoing up fun still => up (state.symm.trans still)⟩

variable (type : StatusMessageTypes) (nickname username : String)

theorem delivers_sendStatusMessage
    (outgoing : mid.host.outgoing c = room.host.outgoing c) (shown : mid.shown = room.shown)
    (state : mid.host.state c = room.host.state c) :
    ∃ xs, Delivers room (mid.sendStatusMessage type nickname username) c joins xs := by
  obtain ⟨n, sent⟩ := mid.sendStatusMessage_outgoing c type nickname username
  have states := (congrFun (mid.sendStatusMessage_state type nickname username) c).trans state
  rw [outgoing, Host.hears, state] at sent
  by_cases up : room.host.state c = .connected
  · rw [if_pos up] at sent
    refine ⟨_, .of_plain sent ?_ shown (fun kept => lastShown_replicate kept rfl n) up
      (states.trans up)⟩
    intro message mem
    rw [List.eq_of_mem_replicate mem]
    rfl
  · rw [if_neg up, List.append_nil] at sent
    exact ⟨[], .of_silent sent up fun still => up (states.symm.trans still)⟩

omit [DecidableEq Peer] in
theorem delivers_broadcast {message : Message} {n : Nat} (plain : message.plain)
    (outgoing : mid.host.outgoing c =
      room.host.outgoing c ++ room.host.hears c (List.replicate n message))
    (state : mid.host.state c = room.host.state c) :
    ∃ xs, Delivers room mid.broadcastRoomInformation c joins xs := by
  have sent := mid.broadcastRoomInformation_outgoing c
  rw [outgoing, Host.hears, Host.hears, state] at sent
  by_cases up : room.host.state c = .connected
  · rw [if_pos up, if_pos up, List.append_assoc] at sent
    refine ⟨_, .of_announced sent ?_ up (state.trans up)⟩
    intro other mem
    rw [List.eq_of_mem_replicate mem]
    exact plain
  · rw [if_neg up, if_neg up, List.append_nil, List.append_nil] at sent
    exact ⟨[], .of_silent sent up fun still => up (state.symm.trans still)⟩

omit [DecidableEq Peer] in
theorem delivers_broadcast_only (outgoing : mid.host.outgoing c = room.host.outgoing c)
    (state : mid.host.state c = room.host.state c) :
    ∃ xs, Delivers room mid.broadcastRoomInformation c joins xs := by
  have sent : mid.host.outgoing c = room.host.outgoing c ++
      room.host.hears c (List.replicate 0 .hostKicked) := by
    rw [outgoing, Host.hears, List.replicate_zero, ite_self, List.append_nil]
  exact delivers_broadcast rfl sent state

theorem delivers_announce (outgoing : mid.host.outgoing c = room.host.outgoing c)
    (state : mid.host.state c = room.host.state c) :
    ∃ xs, Delivers room
      (mid.sendStatusMessage type nickname username).broadcastRoomInformation c joins xs := by
  obtain ⟨n, sent⟩ := mid.sendStatusMessage_outgoing c type nickname username
  rw [outgoing, Host.hears, state] at sent
  exact delivers_broadcast rfl sent
    ((congrFun (mid.sendStatusMessage_state type nickname username) c).trans state)

theorem announce_of_down (down : mid.host.state c ≠ .connected) :
    (mid.sendStatusMessage type nickname username).broadcastRoomInformation.host.outgoing c =
      mid.host.outgoing c := by
  obtain ⟨n, sent⟩ := mid.sendStatusMessage_outgoing c type nickname username
  rw [broadcastRoomInformation_outgoing, sent, Host.hears, Host.hears, sendStatusMessage_state,
    if_neg down, if_neg down, List.append_nil, List.append_nil]

omit [DecidableEq Peer] in
theorem broadcast_of_down (down : mid.host.state c ≠ .connected) :
    mid.broadcastRoomInformation.host.outgoing c = mid.host.outgoing c := by
  rw [broadcastRoomInformation_outgoing, Host.hears, if_neg down, List.append_nil]

omit [DecidableEq Peer] in
theorem delivers_closing (plain : ∀ message ∈ pre, message.plain) (outgoing : mid.host.outgoing c =
      room.host.outgoing c ++ room.host.hears c (pre ++ [.disconnect]))
    (down : mid.host.state c ≠ .connected) : ∃ xs, Delivers room mid c joins xs := by
  rw [Host.hears] at outgoing
  by_cases up : room.host.state c = .connected
  · rw [if_pos up] at outgoing
    exact ⟨_, .of_closing outgoing plain up down⟩
  · rw [if_neg up, List.append_nil] at outgoing
    exact ⟨[], .of_silent outgoing up down⟩

theorem expel_other (target : Member Peer) (notice : Message) (differ : c ≠ target.peer) :
    (room.expel target notice).host.outgoing c = room.host.outgoing c ∧
      (room.expel target notice).host.state c = room.host.state c := by
  have sent := room.host.send_outgoing target.peer c notice
  have closed := (room.host.send target.peer notice).disconnect_outgoing target.peer c
  rw [if_neg differ, List.append_nil] at sent closed
  refine ⟨closed.trans sent, ?_⟩
  show ((room.host.send target.peer notice).disconnect target.peer).state c = _
  rw [Host.disconnect_state_of_ne _ _ _ differ, Host.send_state]

theorem expel_target (target : Member Peer) (notice : Message) :
    (room.expel target notice).host.outgoing target.peer = room.host.outgoing target.peer ++
        room.host.hears target.peer ([notice] ++ [.disconnect]) ∧
      (room.expel target notice).host.state target.peer ≠ .connected := by
  have sent := room.host.send_outgoing target.peer target.peer notice
  have closed := (room.host.send target.peer notice).disconnect_outgoing target.peer target.peer
  rw [if_pos rfl] at sent closed
  refine ⟨?_, Host.disconnect_state_self _ _⟩
  refine closed.trans ?_
  rw [sent, Host.hears, Host.hears, Host.hears, Host.send_state]
  split_ifs
  · rw [List.append_assoc]
  · rw [List.append_nil]

theorem delivers_expel (target : Member Peer) {notice : Message} (plain : notice.plain)
    (type : StatusMessageTypes) (nickname username : String)
    (host : mid.host = (room.expel target notice).host) :
    ∃ xs, Delivers room
      (mid.sendStatusMessage type nickname username).broadcastRoomInformation c joins xs := by
  by_cases same : c = target.peer
  · subst same
    obtain ⟨outgoing, down⟩ := room.expel_target target notice
    rw [← host] at outgoing down
    have told : ∀ message ∈ [notice], message.plain := by simpa using plain
    apply delivers_closing told
    · rw [announce_of_down type nickname username down, outgoing]
    · rw [broadcastRoomInformation_state, sendStatusMessage_state]
      exact down
  · obtain ⟨outgoing, state⟩ := room.expel_other target notice same
    rw [← host] at outgoing state
    exact delivers_announce type nickname username outgoing state

theorem delivers_disconnect :
    ∃ xs, Delivers room
      ({ room with host := room.host.close peer }.handleClientDisconnection peer) c joins xs := by
  let mid : Room Peer := { room with
    members := room.erasePeer peer, host := (room.host.close peer).disconnect peer }
  have either : ({ room with host := room.host.close peer }.handleClientDisconnection peer) =
        mid.broadcastRoomInformation ∨
      ∃ nickname username, { room with host := room.host.close peer }.handleClientDisconnection
        peer = (mid.sendStatusMessage .memberLeave nickname username).broadcastRoomInformation := by
    unfold handleClientDisconnection
    dsimp only
    split
    · exact .inl rfl
    · split_ifs
      · exact .inr ⟨_, _, rfl⟩
      · exact .inl rfl
  have closed : (room.host.close peer).state peer ≠ .connected := by
    rw [Host.close_state_self]
    nofun
  have queue : mid.host.outgoing c = room.host.outgoing c ++
      if c = peer then room.host.hears c [.disconnect] else [] := by
    refine ((room.host.close peer).disconnect_outgoing peer c).trans ?_
    refine Eq.trans ?_ (room.host.disconnect_outgoing peer c)
    split_ifs with same
    · rw [Host.hears, same, if_neg closed, List.append_nil]
      rfl
    · exact List.append_nil _
  have nothing : ∀ message ∈ ([] : List Message), message.plain := nofun
  by_cases same : c = peer
  · subst same
    rw [if_pos rfl] at queue
    have down : mid.host.state c ≠ .connected := Host.disconnect_state_self _ _
    rcases either with silent | ⟨nickname, username, told⟩
    · rw [silent]
      exact delivers_closing nothing ((broadcast_of_down down).trans queue) down
    · rw [told]
      refine delivers_closing nothing
        ((announce_of_down _ nickname username down).trans queue) ?_
      rw [broadcastRoomInformation_state, sendStatusMessage_state]
      exact down
  · rw [if_neg same, List.append_nil] at queue
    have state : mid.host.state c = room.host.state c := by
      rw [Host.disconnect_state_of_ne _ _ _ same, Host.close_state_of_ne _ _ _ same]
    rcases either with silent | ⟨nickname, username, told⟩
    · rw [silent]
      exact delivers_broadcast_only queue state
    · rw [told]
      exact delivers_announce _ nickname username queue state

theorem delivers_enroll (member : Member Peer) :
    ∃ xs, Delivers room (room.enroll member) c
      (fun nickname => c = member.peer ∧ nickname = member.nickname) xs := by
  obtain ⟨n, told⟩ := room.sendStatusMessage_outgoing c .memberJoin member.nickname
    member.userData.username
  let mid := room.sendStatusMessage .memberJoin member.nickname member.userData.username
  let listed := { mid with members := mid.members ++ [member] }.broadcastRoomInformation
  have states : listed.host.state = room.host.state := room.sendStatusMessage_state _ _ _
  have announced : listed.host.outgoing c = mid.host.outgoing c ++
      mid.host.hears c [.roomInformation room.information listed.shown] :=
    Host.broadcast_outgoing _ _ _
  obtain ⟨welcome, gives, admitted⟩ : ∃ welcome, Message.given welcome = some member.macAddress ∧
      room.enroll member = listed.send member.peer welcome := by
    by_cases mod : listed.hasModPermission member.peer
    · exact ⟨.joinSuccessAsMod member.macAddress, rfl, if_pos mod⟩
    · exact ⟨.joinSuccess member.macAddress, rfl, if_neg mod⟩
  have sent := listed.host.send_outgoing member.peer c welcome
  rw [announced, told, Host.hears, Host.hears, Host.hears, states,
    show mid.host.state = room.host.state from room.sendStatusMessage_state _ _ _] at sent
  have state : (room.enroll member).host.state c = room.host.state c :=
    congrFun (room.enroll_state member) c
  have shown : (room.enroll member).shown = listed.shown := by
    rw [admitted]
    rfl
  by_cases up : room.host.state c = .connected
  · rw [if_pos up, if_pos up, if_pos up] at sent
    have plain : ∀ message ∈ List.replicate n
        (Message.statusMessage .memberJoin member.nickname member.userData.username),
        message.plain := by
      intro message mem
      rw [List.eq_of_mem_replicate mem]
      rfl
    by_cases same : c = member.peer
    · rw [if_pos same, List.append_assoc, List.append_assoc] at sent
      have welcomed : welcome ≠ .disconnect := by
        rintro rfl
        cases gives
      refine ⟨_, ⟨(congrArg (fun r => r.host.outgoing c) admitted).trans sent,
        fun down => absurd up down, ?_, fun _ down => absurd (state.trans up) down, ?_, ?_⟩⟩
      · intro _ ends
        rcases List.mem_append.mp ends with early | late
        · exact absurd (plain _ early) nofun
        · rcases List.mem_append.mp late with list | last
          · exact absurd (List.mem_singleton.mp list) nofun
          · exact welcomed (List.mem_singleton.mp last).symm
      · intro _
        refine .inr fun kept => ?_
        rw [lastShown_append, shown]
        cases welcome <;> first | rfl | cases gives
      · intro pre message post mac split given
        refine ⟨member.nickname, ⟨same, rfl⟩, fun kept => ?_⟩
        rw [← List.append_assoc] at split
        obtain ⟨before, rfl⟩ := only_last_given split given fun other mem => by
          rcases List.mem_append.mp mem with early | list
          · exact Message.given_of_plain (plain other early)
          · rw [List.mem_singleton.mp list]
            rfl
        rw [before, lastShown_append]
        refine ⟨member.shown, ?_, rfl, Option.some.inj (gives.symm.trans given)⟩
        show member.shown ∈ (mid.members ++ [member]).map Member.shown
        simp
    · rw [if_neg same, List.append_nil, List.append_assoc] at sent
      rw [← shown] at sent
      exact ⟨_, .of_announced ((congrArg (fun r => r.host.outgoing c) admitted).trans sent) plain
        up (state.trans up)⟩
  · rw [if_neg up, if_neg up, if_neg up, ite_self] at sent
    simp only [List.append_nil] at sent
    exact ⟨[], .of_silent ((congrArg (fun r => r.host.outgoing c) admitted).trans sent) up
      fun still => up (state.symm.trans still)⟩

def eventJoins (event : Event Peer) (c : Peer) (nickname : String) : Prop :=
  match event with
  | .joinRequest peer request _ _ => c = peer ∧ nickname = request.nickname
  | _ => False

theorem serve_delivers {event : Event Peer} {room' : Room Peer}
    (run : room.serve event = some room') (received : ∀ peer ip, event ≠ .connect peer ip) :
    ∃ xs, Delivers room room' c (eventJoins event c) xs := by
  cases event with
  | connect peer ip => exact absurd rfl (received peer ip)
  | joinRequest peer request draws user =>
    rcases handleJoinRequest_cases run with ⟨_, mac, _, rfl⟩ | ⟨message, plain, rfl⟩
    · exact delivers_enroll _
    · exact delivers_send plain
  | setGameInfo peer gameInfo =>
    rw [← Option.some.inj run]
    exact delivers_broadcast_only rfl rfl
  | modKick peer nickname =>
    rw [← Option.some.inj run]
    unfold handleModKickPacket
    split_ifs
    · split
      · exact delivers_send rfl
      · exact delivers_expel _ rfl _ _ _ rfl
    · exact delivers_send rfl
  | modBan peer nickname =>
    rw [← Option.some.inj run]
    unfold handleModBanPacket
    split_ifs
    · split
      · exact delivers_send rfl
      · exact delivers_expel _ rfl _ _ _ rfl
    · exact delivers_send rfl
  | modUnban peer address =>
    rw [← Option.some.inj run]
    unfold handleModUnbanPacket
    split_ifs
    · exact delivers_sendStatusMessage _ _ _ rfl rfl rfl
    · exact delivers_send rfl
    · exact delivers_send rfl
  | modGetBanList peer =>
    rw [← Option.some.inj run]
    unfold handleModGetBanListPacket
    split_ifs
    · exact delivers_send rfl
    · exact delivers_send rfl
  | disconnect peer =>
    rw [← Option.some.inj run]
    exact delivers_disconnect

end Room

end EmuThreeDS.Network
