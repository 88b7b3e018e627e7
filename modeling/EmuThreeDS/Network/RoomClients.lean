import EmuThreeDS.Network.Mail

/-!
# A room and its clients

The messages of one connection arrive in the order they were sent. A connection is never
used again, so each has one client. Wifi and chat packets pass through without touching
what the room or a client keeps.
-/
namespace EmuThreeDS.Network

structure System where
  room : Room Nat
  clients : Nat → Option RoomMember

inductive Action where
  | connect (c : Nat) (ip : String) (client : RoomMember)
  | sendJoinRequest (c : Nat) (request : JoinRequest)
  | sendGameInfo (c : Nat) (gameInfo : GameInfo)
  | sendModerationRequest (c : Nat) (request : Request)
  | leave (c : Nat)
  | checkGuard (c : Nat)
  /-- One turn of the client's loop, with the first message for it or with none. -/
  | service (c : Nat) (received : Bool)
  /-- One turn of the room's loop, with the first message of a client. -/
  | receive (c : Nat) (draws : List (UInt8 × UInt8 × UInt8)) (user : UserData)
  /-- The room's host reports the end of the connection, acknowledged or given up. -/
  | lose (c : Nat)

def Request.event (c : Nat) (draws : List (UInt8 × UInt8 × UInt8)) (user : UserData) :
    Request → Event Nat
  | .joinRequest request => .joinRequest c request draws user
  | .setGameInfo gameInfo => .setGameInfo c gameInfo
  | .modKick nickname => .modKick c nickname
  | .modBan nickname => .modBan c nickname
  | .modUnban address => .modUnban c address
  | .modGetBanList => .modGetBanList c
  | .disconnect => .disconnect c

namespace System

def setClient (s : System) (c : Nat) (client : RoomMember) : System :=
  { s with clients := Function.update s.clients c (some client) }

def withClient (s : System) (c : Nat) (f : RoomMember → RoomMember) : System :=
  match s.clients c with
  | none => s
  | some client => s.setClient c (f client)

/-- What the host does not report is lost. -/
def serve (s : System) (event : Event Nat) : Exec System :=
  if event.Reported s.room.host then
    match s.room.serve event with
    | none => .error .outOfFuel
    | some room => .ok { s with room := room }
  else .ok s

def takeMessage (room : Room Nat) (c : Nat) : Room Nat :=
  { room with
    host :=
      { room.host with
        outgoing := Function.update room.host.outgoing c (room.host.outgoing c).tail } }

def service (s : System) (c : Nat) (received : Bool) : Exec System :=
  match s.clients c, s.room.host.outgoing c, received with
  | some client, message :: _, true => do
      let client ← client.handleMessage message
      return { s with room := takeMessage s.room c }.setClient c client.flush
  | some client, _, _ => .ok (s.setClient c client.flush)
  | none, _, _ => .ok s

def receive (s : System) (c : Nat) (draws : List (UInt8 × UInt8 × UInt8)) (user : UserData) :
    Exec System :=
  match s.clients c with
  | none => .ok s
  | some client =>
    match client.outgoing with
    | [] => .ok s
    | request :: rest =>
      (s.setClient c { client with outgoing := rest }).serve
        (request.event c draws user)

def step (s : System) : Action → Exec System
  | .connect c ip client => do
      let s ← s.serve (.connect c ip)
      return s.setClient c client
  | .sendJoinRequest c request =>
    .ok (s.withClient c fun client => client.send (.joinRequest request))
  | .sendGameInfo c gameInfo =>
    .ok (s.withClient c fun client => client.send (.setGameInfo gameInfo))
  | .sendModerationRequest c request => .ok (s.withClient c fun client => client.send request)
  | .leave c => .ok (s.withClient c RoomMember.leave)
  | .checkGuard c => .ok (s.withClient c RoomMember.checkGuard)
  | .service c received => s.service c received
  | .receive c draws user => s.receive c draws user
  | .lose c => s.serve (.disconnect c)

/-- What an honest client does: one that joins starts with nothing but what an earlier
connection left unsent, and asks under its own nickname. -/
def Enabled (s : System) : Action → Prop
  | .connect c ip client =>
    s.clients c = none ∧ (Event.connect c ip).Reported s.room.host ∧
      client.state = .joining ∧ client.loop = .guard ∧
      client.memberInformation = [] ∧ client.outgoing = [] ∧
      ∀ request, .joinRequest request ∉ client.sendList
  | .sendJoinRequest c request =>
    ∃ client, s.clients c = some client ∧ request.nickname = client.nickname
  | .sendGameInfo c _ => ∃ client, s.clients c = some client ∧ client.isConnected
  | .sendModerationRequest c request =>
    (∃ client, s.clients c = some client ∧ client.isConnected) ∧
      ∀ join, request ≠ .joinRequest join
  | .leave _ => True
  | .checkGuard c => ∃ client, s.clients c = some client ∧ client.loop = .guard
  | .service c received =>
    ∃ client, s.clients c = some client ∧ client.loop = .service ∧
      (received → s.room.host.outgoing c ≠ [])
  | .receive c _ _ => ∃ client, s.clients c = some client ∧ client.outgoing ≠ []
  | .lose _ => True

structure Start (s : System) : Prop where
  created : s.room.Created
  alone : ∀ c, s.clients c = none

def Reached : System → Prop :=
  Runs.Reachable Start (fun s action s' => s.step action = .ok s') Enabled

theorem Reached.next {s s' : System} (h : Reached s) (action : Action)
    (enabled : s.Enabled action) (run : s.step action = .ok s') : Reached s' :=
  Runs.Reachable.step h enabled run

end System

structure InStep (room : Room Nat) (c : Nat) (client : RoomMember) : Prop where
  opened : room.host.state c = .connected → .disconnect ∉ room.host.outgoing c
  finished : room.host.state c ≠ .connected →
    (∃ pre, room.host.outgoing c = pre ++ [.disconnect] ∧ .disconnect ∉ pre) ∨
      (room.host.outgoing c = [] ∧ ¬ client.inRoom)
  ended : client.loop = .ended → client.state = .idle
  promised : client.loop ≠ .ended → ∀ pre message post mac,
    room.host.outgoing c = pre ++ message :: post → message.given = some mac →
      ∃ entry ∈ lastShown client.memberInformation pre,
        entry.nickname = client.nickname ∧ entry.macAddress = mac
  agrees : client.loop ≠ .ended → room.host.state c = .connected →
    (client.inRoom ∨ ∃ message ∈ room.host.outgoing c, message.given ≠ none) →
      lastShown client.memberInformation (room.host.outgoing c) = room.shown
  honest : ∀ request, .joinRequest request ∈ client.outgoing ++ client.sendList →
    request.nickname = client.nickname

namespace InStep

variable {room room' : Room Nat} {c : Nat} {client client' : RoomMember}

section

variable (h : InStep room c client)
include h

theorem of_delivers {joins : String → Prop} {xs : List Message}
    (delivers : Delivers room room' c joins xs)
    (own : ∀ nickname, joins nickname → nickname = client.nickname) : InStep room' c client where
  opened up := by
    have before : room.host.state c = .connected := by
      by_contra down
      exact (delivers.silent down).2 up
    rw [delivers.outgoing]
    exact fun ends => (List.mem_append.mp ends).elim (h.opened before) (delivers.opened up)
  finished down := by
    by_cases before : room.host.state c = .connected
    · obtain ⟨pre, split, earlier⟩ := delivers.closing before down
      refine .inl ⟨room.host.outgoing c ++ pre, ?_, ?_⟩
      · rw [delivers.outgoing, split, List.append_assoc]
      · exact fun ends => (List.mem_append.mp ends).elim (h.opened before) earlier
    · rw [delivers.outgoing, (delivers.silent before).1, List.append_nil]
      exact h.finished before
  ended := h.ended
  promised running pre message post mac split gives := by
    rw [delivers.outgoing] at split
    rcases List.append_eq_append_iff.mp split with ⟨more, rfl, late⟩ | ⟨more, early, later⟩
    · obtain ⟨nickname, joined, found⟩ := delivers.given more message post mac late gives
      rw [lastShown_append, ← own nickname joined]
      exact found _
    · cases more with
      | nil =>
        obtain ⟨nickname, joined, found⟩ := delivers.given [] message post mac later.symm gives
        rw [← own nickname joined]
        exact found _
      | cons first more =>
        obtain ⟨rfl, _⟩ := List.cons_eq_cons.mp later
        exact h.promised running pre message more mac early gives
  agrees running up inside := by
    have before : room.host.state c = .connected := by
      by_contra down
      exact (delivers.silent down).2 up
    rw [delivers.outgoing, lastShown_append]
    rcases delivers.shows up with ⟨same, kept, none⟩ | all
    · rw [kept, same]
      apply h.agrees running before
      rcases inside with inside | ⟨message, mem, gives⟩
      · exact .inl inside
      · rw [delivers.outgoing] at mem
        rcases List.mem_append.mp mem with old | new
        · exact .inr ⟨message, old, gives⟩
        · exact absurd (none message new) gives
    · exact all _
  honest := h.honest

theorem of_client (nickname : client'.nickname = client.nickname)
    (members : client'.memberInformation = client.memberInformation)
    (inside : client'.inRoom → client.inRoom)
    (running : client'.loop ≠ .ended → client.loop ≠ .ended)
    (idle : client'.loop = .ended → client'.state = .idle)
    (honest : ∀ request, .joinRequest request ∈ client'.outgoing ++ client'.sendList →
      .joinRequest request ∈ client.outgoing ++ client.sendList ∨
        request.nickname = client.nickname) : InStep room c client' where
  opened := h.opened
  finished down := (h.finished down).imp id fun quiet => ⟨quiet.1, fun still => quiet.2 (inside still)⟩
  ended := idle
  promised still pre message post mac split gives := by
    rw [members, nickname]
    exact h.promised (running still) pre message post mac split gives
  agrees still up here := by
    rw [members]
    exact h.agrees (running still) up (here.imp inside id)
  honest request mem := by
    rw [nickname]
    exact (honest request mem).elim (h.honest request) id

theorem of_ended (idle : client'.state = .idle)
    (loop : client'.loop = .ended) (nickname : client'.nickname = client.nickname)
    (honest : ∀ request, .joinRequest request ∈ client'.outgoing ++ client'.sendList →
      .joinRequest request ∈ client.outgoing ++ client.sendList ∨
        request.nickname = client.nickname) : InStep room c client' where
  opened := h.opened
  finished down := (h.finished down).imp id fun quiet =>
    ⟨quiet.1, fun inside => by simp [RoomMember.inRoom, idle] at inside⟩
  ended _ := idle
  promised running := absurd loop running
  agrees running := absurd loop running
  honest request mem := by
    rw [nickname]
    exact (honest request mem).elim (h.honest request) id

theorem of_room (state : room'.host.state c = room.host.state c)
    (outgoing : room'.host.outgoing c = room.host.outgoing c) (shown : room'.shown = room.shown) :
    InStep room' c client := by
  constructor
  · rw [state, outgoing]
    exact h.opened
  · rw [state, outgoing]
    exact h.finished
  · exact h.ended
  · rw [outgoing]
    exact h.promised
  · rw [state, outgoing, shown]
    exact h.agrees
  · exact h.honest

end

theorem of_connect (ip : String) (loop : client.loop = .guard) (state : client.state = .joining)
    (outgoing : client.outgoing = []) (honest : ∀ request, .joinRequest request ∉ client.sendList) :
    InStep { room with host := room.host.connect c ip } c client := by
  have up : (room.host.connect c ip).state c = .connected := Function.update_self _ _ _
  have queue : (room.host.connect c ip).outgoing c = [] := Function.update_self _ _ _
  constructor
  · rw [queue]
    nofun
  · exact fun down => absurd up down
  · intro ended
    rw [loop] at ended
    cases ended
  · intro _ pre message post mac split
    rw [queue] at split
    exact absurd split (by simp)
  · intro _ _ here
    rw [queue] at here
    simp [RoomMember.inRoom, state] at here
  · intro request mem
    rw [outgoing] at mem
    exact absurd mem (honest request)

theorem takeMessage_outgoing {message : Message} {rest : List Message}
    (split : room.host.outgoing c = message :: rest) :
    (System.takeMessage room c).host.outgoing c = rest := by
  show Function.update room.host.outgoing c (room.host.outgoing c).tail c = rest
  rw [Function.update_self, split, List.tail_cons]

theorem of_message (h : InStep room c client) (running : client.loop ≠ .ended)
    {message : Message} {rest : List Message} (split : room.host.outgoing c = message :: rest)
    (run : client.handleMessage message = .ok client') :
    InStep (System.takeMessage room c) c client'.flush := by
  obtain ⟨members, nickname, sendList, outgoing, inside, ends, _⟩ :=
    RoomMember.handleMessage_spec run
  have queue := takeMessage_outgoing split
  constructor
  · intro up
    have away := h.opened up
    rw [split] at away
    rw [queue]
    exact fun mem => away (List.mem_cons_of_mem _ mem)
  · intro down
    rw [queue]
    rcases h.finished down with ⟨pre, tail, earlier⟩ | ⟨nothing, _⟩
    · rw [split] at tail
      cases pre with
      | nil =>
        obtain ⟨last, none⟩ := List.cons_eq_cons.mp tail
        exact .inr ⟨none, ends last⟩
      | cons first pre =>
        obtain ⟨_, later⟩ := List.cons_eq_cons.mp tail
        exact .inl ⟨pre, later, fun mem => earlier (List.mem_cons_of_mem _ mem)⟩
    · rw [split] at nothing
      exact absurd nothing nofun
  · exact nofun
  · intro _ pre other post mac later gives
    rw [queue] at later
    show ∃ entry ∈ lastShown client'.memberInformation pre, entry.nickname = client'.nickname ∧ _
    rw [members, nickname]
    exact h.promised running (message :: pre) other post mac (by rw [split, later]; rfl) gives
  · intro _ up here
    show lastShown client'.memberInformation _ = room.shown
    rw [queue, members, ← lastShown_cons, ← split]
    apply h.agrees running up
    rcases here with still | ⟨other, mem, gives⟩
    · rcases inside still with before | gives
      · exact .inl before
      · exact .inr ⟨message, split ▸ List.mem_cons_self .., gives⟩
    · rw [queue] at mem
      exact .inr ⟨other, split ▸ List.mem_cons_of_mem _ mem, gives⟩
  · intro request mem
    show request.nickname = client'.nickname
    rw [nickname]
    apply h.honest request
    change _ ∈ (client'.outgoing ++ client'.sendList) ++ [] at mem
    rwa [List.append_nil, outgoing, sendList] at mem

end InStep

def Synchronized (s : System) : Prop :=
  ∀ c client, s.clients c = some client → InStep s.room c client

namespace Synchronized

variable {s s' : System} {c : Nat} {client : RoomMember}

section

variable (h : Synchronized s)
include h

theorem setClient (own : InStep s.room c client) : Synchronized (s.setClient c client) := by
  intro other found some
  change Function.update s.clients c _ other = _ at some
  rw [Function.update_apply] at some
  split_ifs at some with same
  · subst same
    cases some
    exact own
  · exact h other found some

theorem withClient {f : RoomMember → RoomMember}
    (keep : ∀ client, s.clients c = some client → InStep s.room c client →
      InStep s.room c (f client)) : Synchronized (s.withClient c f) := by
  unfold System.withClient
  split
  · exact h
  · rename_i client found
    exact h.setClient (keep client found (h c client found))

theorem serve {event : Event Nat} (run : s.serve event = .ok s')
    (received : ∀ peer ip, event ≠ .connect peer ip)
    (own : ∀ c client nickname, s.clients c = some client →
      Room.eventJoins event c nickname → nickname = client.nickname) : Synchronized s' := by
  unfold System.serve at run
  split_ifs at run with reported
  · split at run
    · cases run
    · rename_i room served
      cases run
      intro c client found
      obtain ⟨xs, delivers⟩ := Room.serve_delivers served received
      exact (h c client found).of_delivers delivers fun nickname => own c client nickname found
  · cases run
    exact h

theorem send {request : Request}
    (own : ∀ client join, s.clients c = some client → request = .joinRequest join →
      join.nickname = client.nickname) :
    Synchronized (s.withClient c fun client => client.send request) := by
  apply h.withClient
  intro client found inStep
  refine inStep.of_client rfl rfl id id inStep.ended ?_
  intro join mem
  change _ ∈ client.outgoing ++ (client.sendList ++ [request]) at mem
  rw [← List.append_assoc] at mem
  rcases List.mem_append.mp mem with old | new
  · exact .inl old
  · exact .inr (own client join found (List.mem_singleton.mp new).symm)

theorem leave : Synchronized (s.withClient c RoomMember.leave) := by
  apply h.withClient
  intro client _ inStep
  refine inStep.of_client rfl rfl ?_ id (fun _ => rfl) fun _ mem => .inl mem
  intro inside
  simp [RoomMember.inRoom, RoomMember.leave] at inside

theorem checkGuard (found : s.clients c = some client)
    (loop : client.loop = .guard) : Synchronized (s.withClient c RoomMember.checkGuard) := by
  apply h.withClient
  intro other same inStep
  obtain rfl : client = other := Option.some.inj (found.symm.trans same)
  unfold RoomMember.checkGuard
  split_ifs with connected
  · refine inStep.of_client rfl rfl id (fun _ => ?_) nofun fun _ mem => .inl mem
    rw [loop]
    nofun
  · refine inStep.of_ended ?_ rfl rfl ?_
    · show client.state = .idle
      cases state : client.state with
      | idle => rfl
      | joining | joined | moderator => simp [RoomMember.isConnected, state] at connected
    · intro request mem
      change _ ∈ (client.outgoing ++ [.disconnect]) ++ client.sendList at mem
      simp only [List.mem_append, List.mem_singleton, reduceCtorEq, or_false] at mem
      exact .inl (List.mem_append.mpr mem)

theorem flush (found : s.clients c = some client)
    (loop : client.loop = .service) : Synchronized (s.setClient c client.flush) := by
  apply h.setClient
  refine (h c client found).of_client rfl rfl id (fun _ => ?_) nofun ?_
  · rw [loop]
    nofun
  · intro request mem
    change _ ∈ (client.outgoing ++ client.sendList) ++ [] at mem
    rw [List.append_nil] at mem
    exact .inl mem

theorem message {client' : RoomMember} {message : Message}
    {rest : List Message} (found : s.clients c = some client) (loop : client.loop = .service)
    (split : s.room.host.outgoing c = message :: rest)
    (run : client.handleMessage message = .ok client') :
    Synchronized ({ s with room := System.takeMessage s.room c }.setClient c client'.flush) := by
  intro other some mem
  change Function.update s.clients c _ other = _ at mem
  rw [Function.update_apply] at mem
  split_ifs at mem with same
  · subst same
    cases mem
    refine (h other client found).of_message ?_ split run
    rw [loop]
    nofun
  · exact (h other some mem).of_room rfl (Function.update_of_ne same _ _) rfl

theorem service (found : s.clients c = some client)
    (loop : client.loop = .service) {received : Bool} (run : s.service c received = .ok s') :
    Synchronized s' := by
  unfold System.service at run
  rw [found] at run
  cases split : s.room.host.outgoing c with
  | nil =>
    rw [split] at run
    cases run
    exact h.flush found loop
  | cons first rest =>
    rw [split] at run
    cases received with
    | false =>
      cases run
      exact h.flush found loop
    | true =>
      obtain ⟨client', handled, run⟩ := bind_eq_ok.mp run
      cases run
      exact h.message found loop split handled

theorem receive {draws : List (UInt8 × UInt8 × UInt8)} {user : UserData}
    (run : s.receive c draws user = .ok s') : Synchronized s' := by
  unfold System.receive at run
  split at run
  · cases run
    exact h
  · rename_i client found
    split at run
    · cases run
      exact h
    · rename_i request rest sent
      have own := (h c client found).honest
      rw [sent] at own
      have taken : Synchronized (s.setClient c { client with outgoing := rest }) := by
        apply h.setClient
        refine (h c client found).of_client rfl rfl id id (h c client found).ended ?_
        intro join mem
        rw [sent]
        exact .inl (List.mem_cons_of_mem _ mem)
      apply taken.serve run
      · intro peer ip
        cases request <;> exact nofun
      · intro other current nickname some joins
        cases request with
        | joinRequest join =>
          obtain ⟨rfl, rfl⟩ := joins
          change Function.update s.clients other _ other = _ at some
          rw [Function.update_self] at some
          cases some
          exact own join (List.mem_append_left _ (List.mem_cons_self ..))
        | _ => exact joins.elim

theorem connect {ip : String} (new : s.clients c = none)
    (reported : (Event.connect c ip).Reported s.room.host) (loop : client.loop = .guard)
    (state : client.state = .joining) (outgoing : client.outgoing = [])
    (honest : ∀ request, .joinRequest request ∉ client.sendList)
    (run : s.step (.connect c ip client) = .ok s') : Synchronized s' := by
  obtain ⟨connected, served, run⟩ := bind_eq_ok.mp run
  cases run
  unfold System.serve at served
  rw [if_pos reported] at served
  cases served
  intro other some mem
  change Function.update s.clients c _ other = _ at mem
  rw [Function.update_apply] at mem
  split_ifs at mem with same
  · subst same
    cases mem
    exact .of_connect ip loop state outgoing honest
  · exact (h other some mem).of_room (Function.update_of_ne same _ _)
      (Function.update_of_ne same _ _) rfl

theorem step {action : Action} (enabled : s.Enabled action)
    (run : s.step action = .ok s') : Synchronized s' := by
  cases action with
  | connect c ip client =>
    obtain ⟨new, reported, state, loop, _, outgoing, honest⟩ := enabled
    exact h.connect new reported loop state outgoing honest run
  | sendJoinRequest c request =>
    obtain ⟨client, found, own⟩ := enabled
    cases run
    apply h.send
    rintro other join same ⟨⟩
    exact Option.some.inj (found.symm.trans same) ▸ own
  | sendGameInfo c gameInfo =>
    cases run
    exact h.send fun _ _ _ => nofun
  | sendModerationRequest c request =>
    cases run
    exact h.send fun _ join _ same => absurd same (enabled.2 join)
  | leave c =>
    cases run
    exact h.leave
  | checkGuard c =>
    obtain ⟨client, found, loop⟩ := enabled
    cases run
    exact h.checkGuard found loop
  | service c received =>
    obtain ⟨client, found, loop, _⟩ := enabled
    exact h.service found loop run
  | receive c draws user => exact h.receive run
  | lose c => exact h.serve run nofun fun _ _ _ _ joins => joins.elim

end

end Synchronized

/-- A client that is told that it joined knows the list with its own entry, and a client in
the room to which nothing is on its way keeps the room's list. -/
theorem clients_agree_with_room {s : System} (reached : s.Reached) {c : Nat}
    {client : RoomMember} (found : s.clients c = some client) :
    (∀ message rest mac, client.loop = .service →
      s.room.host.outgoing c = message :: rest → message.given = some mac →
        ∃ s' client', s.step (.service c true) = .ok s' ∧ s'.clients c = some client' ∧
          client'.memberInformation ≠ [] ∧ client'.macAddress = mac ∧
          ∃ entry ∈ client'.memberInformation, entry.nickname = client'.nickname ∧
            entry.macAddress = client'.macAddress) ∧
    (client.inRoom → s.room.host.outgoing c = [] → client.memberInformation = s.room.shown) := by
  have synchronized : Synchronized s := by
    apply Runs.Reachable.invariant reached
    · intro first start c client found
      rw [start.alone c] at found
      cases found
    · intro before action after h enabled run
      exact h.step enabled run
  have inStep := synchronized c client found
  constructor
  · intro message rest mac loop split gives
    have running : client.loop ≠ .ended := by
      rw [loop]
      nofun
    obtain ⟨entry, mem, nickname, address⟩ :=
      inStep.promised running [] message rest mac split gives
    have filled : message.given ≠ none → client.memberInformation ≠ [] :=
      fun _ => List.ne_nil_of_mem mem
    obtain ⟨client', run⟩ := RoomMember.handleMessage_answers filled
    obtain ⟨members, name, _, _, _, _, given⟩ := RoomMember.handleMessage_spec run
    rw [lastShown_given _ gives] at members
    have address' := given mac gives
    refine ⟨{ s with room := System.takeMessage s.room c }.setClient c client'.flush,
      client'.flush, ?_, Function.update_self _ _ _, ?_, address', entry, ?_, ?_, ?_⟩
    · show s.service c true = _
      unfold System.service
      rw [found, split]
      dsimp only
      rw [run]
      rfl
    · show client'.memberInformation ≠ []
      rw [members]
      exact List.ne_nil_of_mem mem
    · show entry ∈ client'.memberInformation
      rwa [members]
    · exact nickname.trans name.symm
    · exact address.trans address'.symm
  · intro inside nothing
    have running : client.loop ≠ .ended := by
      intro ended
      have idle := inStep.ended ended
      simp [RoomMember.inRoom, idle] at inside
    by_cases up : s.room.host.state c = .connected
    · have agrees := inStep.agrees running up (.inl inside)
      rwa [nothing] at agrees
    · rcases inStep.finished up with ⟨pre, ends, _⟩ | ⟨_, outside⟩
      · rw [nothing] at ends
        exact absurd ends (by simp)
      · exact absurd inside outside

def openRoom : System where
  room :=
    { information := ⟨"room", "", 4, 24872, "", "", false⟩
      password := ""
      members := []
      usernameBanList := []
      ipBanList := []
      host := { state := fun _ => .disconnected, address := fun _ => "", outgoing := fun _ => [] } }
  clients := fun _ => none

def anna : RoomMember where
  state := .joining
  nickname := "anna"
  username := ""
  macAddress := noPreferredMac
  memberInformation := []
  roomInformation := ⟨"", "", 0, 0, "", "", false⟩
  sendList := []
  loop := .guard
  outgoing := []

theorem clients_agree_with_room_anna :
    ∃ (s : System) (client : RoomMember), s.clients 0 = some client ∧ client.inRoom ∧
      client.memberInformation = s.room.shown ∧
      client.memberInformation.map MemberInformation.nickname = ["anna"] := by
  have start : openRoom.Reached := .start ⟨⟨rfl, fun _ => rfl, fun _ => rfl⟩, fun _ => rfl⟩
  have asked := ((start.next (.connect 0 "10.0.0.1" anna)
    ⟨rfl, rfl, rfl, rfl, rfl, rfl, nofun⟩ rfl).next
    (.sendJoinRequest 0 ⟨"anna", "a", noPreferredMac, 4, "", ""⟩) ⟨_, rfl, rfl⟩ rfl).next
    (.checkGuard 0) ⟨_, rfl, rfl⟩ rfl
  have admitted := (asked.next (.service 0 false) ⟨_, rfl, rfl, nofun⟩ rfl).next
    (.receive 0 [(1, 2, 3)] ⟨"", "", "", false⟩) ⟨_, rfl, nofun⟩ rfl
  have listed := (admitted.next (.checkGuard 0) ⟨_, rfl, rfl⟩ rfl).next
    (.service 0 true) ⟨_, rfl, rfl, fun _ => nofun⟩ rfl
  have joined := (listed.next (.checkGuard 0) ⟨_, rfl, rfl⟩ rfl).next
    (.service 0 true) ⟨_, rfl, rfl, fun _ => nofun⟩ rfl
  have agrees := (@clients_agree_with_room _ joined 0 _ rfl).2 (.inl rfl) rfl
  exact ⟨_, _, rfl, .inl rfl, agrees, rfl⟩

end EmuThreeDS.Network
