import EmuThreeDS.Service.UdsHost

/-!
# A host and its clients

Frames travel through the room: from each device to each other device in the order they
were sent. `session` only observes: it counts how often a device left, and a frame of the
host carries the session of the frame it answers.
-/
namespace EmuThreeDS.Uds

open Network (MacAddress)
open AssocList (lookup)
open Device (Sends Hosting Roomy)

structure Sent where
  frame : Frame
  session : MacAddress × Nat

structure Radio where
  device : MacAddress → Device
  session : MacAddress → Nat
  channel : MacAddress → MacAddress → List Sent

inductive Action where
  | connect (c : MacAddress) (networkInfo : NetworkInfo)
  | disconnect (c : MacAddress)
  | receive (src dst : MacAddress)

/-- Where the room delivers a packet of `src`. -/
def reaches (src destination dst : MacAddress) : Bool :=
  if destination = broadcastMac then dst ≠ src else dst = destination

namespace Radio

def post (s : Radio) (src : MacAddress) (session : MacAddress × Nat) (sends : Sends) : Radio :=
  { s with
    channel := fun a dst =>
      if a = src then
        s.channel src dst ++
          (sends.filter fun send => reaches src send.1 dst).map fun send => ⟨send.2, session⟩
      else s.channel a dst }

def setDevice (s : Radio) (address : MacAddress) (device : Device) : Radio :=
  { s with device := Function.update s.device address device }

def takeFrame (s : Radio) (src dst : MacAddress) : Radio :=
  { s with
    channel := fun a b => if a = src ∧ b = dst then (s.channel src dst).tail else s.channel a b }

/-- The session under which a device sends what it answers. -/
def answerSession (s : Radio) (host dst : MacAddress) (item : Sent) : MacAddress × Nat :=
  if dst = host then item.session else (dst, s.session dst)

def step (host : MacAddress) (s : Radio) : Action → Exec Radio
  | .connect c networkInfo =>
    let (device, sends) := (s.device c).connectToNetwork networkInfo
    .ok ((s.setDevice c device).post c (c, s.session c) sends)
  | .disconnect c =>
    let (device, sends) := (s.device c).disconnectNetwork
    .ok { (s.setDevice c device).post c (c, s.session c) sends with
      session := Function.update s.session c (s.session c + 1) }
  | .receive src dst =>
    match s.channel src dst with
    | [] => .ok s
    | item :: _ => do
        let (device, sends) ← (s.device dst).receive src item.frame
        return ((s.takeFrame src dst).setDevice dst device).post dst
          (s.answerSession host dst item) sends

/-- The clients connect and leave as they like; the host stays the host. -/
def Enabled (host : MacAddress) : Action → Prop
  | .connect c _ => c ≠ host
  | .disconnect c => c ≠ host
  | .receive _ _ => True

/-- A client that waits for its place finds one when its EAPoL-Start arrives, and a logoff
frame that reaches a connecting client answers its own EAPoL-Start. -/
def Orderly (host : MacAddress) (s : Radio) : Action → Prop
  | .receive src dst =>
    ∀ item rest, s.channel src dst = item :: rest →
      (dst = host → Roomy (s.device host) src item.frame) ∧
      (dst ≠ host → (s.device dst).connectionStatus.status = .connecting →
        (∃ logoff, item.frame = .eapolLogoff logoff) → item.session = (dst, s.session dst))
  | _ => True

structure Start (host : MacAddress) (s : Radio) : Prop where
  hosts : ∃ device maxNodes, Device.Initialized device ∧ 2 ≤ maxNodes ∧ maxNodes ≤ udsMaxNodes ∧
    device.beginHostingNetwork host maxNodes = .ok (s.device host)
  clients : ∀ c, c ≠ host → Device.Initialized (s.device c)
  silent : ∀ a b, s.channel a b = []

end Radio

namespace Device

variable {device : Device}

theorem foldl_enterNode_networkNodeId (nodes : List NodeInfo) :
    (nodes.foldl enterNode device).connectionStatus.networkNodeId =
        device.connectionStatus.networkNodeId ∧
      (nodes.foldl enterNode device).connectionStatus.status = device.connectionStatus.status := by
  induction nodes generalizing device with
  | nil => exact ⟨rfl, rfl⟩
  | cons node rest ih =>
    obtain ⟨id, status⟩ := @ih (device.enterNode node)
    rw [List.foldl_cons, id, status]
    unfold enterNode
    split_ifs <;> exact ⟨rfl, rfl⟩

/-- What a device that is not the host does with one frame. -/
structure Followed (device device' : Device) (frame : Frame) (sends : Sends) : Prop where
  guest : device'.connectionStatus.status ≠ .connectedAsHost
  sends : ∀ send ∈ sends, ∃ associationId node, send.2 = .eapolStart associationId node
  joins : device'.connectionStatus.status = .connectedAsClient →
    (device.connectionStatus.status = .connectedAsClient ∧
      device'.connectionStatus.networkNodeId = device.connectionStatus.networkNodeId) ∨
    (device.connectionStatus.status = .connecting ∧ ∃ logoff, frame = .eapolLogoff logoff ∧
      device'.connectionStatus.networkNodeId = logoff.assignedNodeId)

theorem followed_same (guest : device.connectionStatus.status ≠ .connectedAsHost) (frame : Frame) :
    Followed device device frame [] :=
  ⟨guest, nofun, fun client => .inl ⟨client, rfl⟩⟩

theorem followed {device' : Device} {transmitter : MacAddress} {frame : Frame} {sends : Sends}
    (guest : device.connectionStatus.status ≠ .connectedAsHost)
    (run : device.receive transmitter frame = .ok (device', sends)) :
    Followed device device' frame sends := by
  cases frame with
  | authentication seq =>
    have same : device.handleAuthenticationFrame transmitter seq = (device, []) := by
      unfold handleAuthenticationFrame
      split_ifs <;> rfl
    have result := Except.ok.inj run
    rw [same] at result
    cases result
    exact followed_same guest _
  | associationResponse status associationId =>
    obtain ⟨_, _, run⟩ := bind_eq_ok.mp run
    split_ifs at run
    · cases run
      exact followed_same guest _
    · cases run
      refine ⟨guest, ?_, fun client => .inl ⟨client, rfl⟩⟩
      intro send mem
      rw [List.mem_singleton.mp mem]
      exact ⟨_, _, rfl⟩
  | eapolStart associationId node =>
    change device.handleEAPoLStart transmitter node = _ at run
    unfold handleEAPoLStart at run
    rw [if_pos guest] at run
    cases run
    exact followed_same guest _
  | eapolLogoff logoff =>
    cases run
    unfold handleEAPoLLogoff
    split
    · rename_i connecting
      refine ⟨by rintro ⟨⟩, by rintro _ ⟨⟩, fun _ => .inr ⟨connecting, logoff, rfl, ?_⟩⟩
      exact (foldl_enterNode_networkNodeId logoff.nodes).1
    · rename_i client
      have kept := @foldl_enterNode_networkNodeId
        { device with
          networkInfo := { device.networkInfo with totalNodes := logoff.connectedNodes }
          connectionStatus :=
            { device.connectionStatus with
              totalNodes := logoff.connectedNodes
              nodes := List.replicate udsMaxNodes 0
              nodeBitmask := 0 }
          nodeInfo := List.replicate device.networkInfo.maxNodes .empty } logoff.nodes
      exact ⟨fun host => guest (kept.2.symm.trans host), (by rintro _ ⟨⟩),
        fun _ => .inl ⟨client, kept.1⟩⟩
    · exact followed_same guest _
  | deauthentication =>
    cases run
    unfold handleDeauthenticationFrame
    rw [if_pos guest]
    exact followed_same guest _
  | nodeMap entries =>
    cases run
    unfold handleNodeMapPacket
    rw [if_neg guest]
    exact ⟨guest, (by rintro _ ⟨⟩), fun client => .inl ⟨client, rfl⟩⟩

end Device

/-- What a client, the frames on their way from and to it, and the host's map say of each
other. -/
structure InTouch (host : MacAddress) (s : Radio) (c : MacAddress) : Prop where
  guest : (s.device c).connectionStatus.status ≠ .connectedAsHost
  frames : ∀ dst, ∀ item ∈ s.channel c dst, ∀ logoff, item.frame ≠ .eapolLogoff logoff
  requests : ∀ item ∈ s.channel c host, item.session.1 = c ∧ item.session.2 ≤ s.session c ∧
    (item.frame = .deauthentication → item.session.2 < s.session c)
  ordered : (s.channel c host).Pairwise fun a b => a.session.2 ≤ b.session.2
  answers : ∀ item ∈ s.channel host c, item.session.1 = c → item.session.2 ≤ s.session c
  promised : ∀ item ∈ s.channel host c, ∀ logoff, item.frame = .eapolLogoff logoff →
    item.session = (c, s.session c) →
      lookup (s.device host).nodeMap c = some ⟨true, logoff.assignedNodeId⟩
  joined : (s.device c).connectionStatus.status = .connectedAsClient →
    lookup (s.device host).nodeMap c = some ⟨true, (s.device c).connectionStatus.networkNodeId⟩
  leaving : (∃ item ∈ s.channel c host, item.frame = .deauthentication) →
    (s.device c).connectionStatus.status ≠ .connectedAsClient ∧
      ∀ item ∈ s.channel host c, ∀ logoff, item.frame = .eapolLogoff logoff →
        item.session ≠ (c, s.session c)

namespace InTouch

variable {host c : MacAddress} {s s' : Radio}

theorem of_other (h : InTouch host s c) (device : s'.device c = s.device c)
    (session : s'.session c = s.session c)
    (map : lookup (s'.device host).nodeMap c = lookup (s.device host).nodeMap c)
    (up : ∀ dst, (s'.channel c dst).Sublist (s.channel c dst))
    (down : ∀ item ∈ s'.channel host c, item ∈ s.channel host c ∨ item.session.1 ≠ c) :
    InTouch host s' c := by
  constructor
  · exact device ▸ h.guest
  · exact fun dst item mem => h.frames dst item ((up dst).mem mem)
  · exact fun item mem => session ▸ h.requests item ((up host).mem mem)
  · exact h.ordered.sublist (up host)
  · intro item mem own
    rcases down item mem with old | other
    · exact session ▸ h.answers item old own
    · exact absurd own other
  · intro item mem logoff frame own
    rw [session] at own
    rcases down item mem with old | other
    · exact map ▸ h.promised item old logoff frame own
    · exact absurd (congrArg Prod.fst own) other
  · rw [device, map]
    exact h.joined
  · rintro ⟨item, mem, leaves⟩
    obtain ⟨status, none⟩ := h.leaving ⟨item, (up host).mem mem, leaves⟩
    rw [device, session]
    refine ⟨status, fun item mem logoff frame own => ?_⟩
    rcases down item mem with old | other
    · exact none item old logoff frame own
    · exact other (congrArg Prod.fst own)

theorem of_client (h : InTouch host s c) (session : s'.session c = s.session c)
    (map : lookup (s'.device host).nodeMap c = lookup (s.device host).nodeMap c)
    (up : ∀ dst, ∃ kept new, s'.channel c dst = kept ++ new ∧ kept.Sublist (s.channel c dst) ∧
      ∀ item ∈ new, item.session = (c, s.session c) ∧
        (∀ logoff, item.frame ≠ .eapolLogoff logoff) ∧ item.frame ≠ .deauthentication)
    (down : (s'.channel host c).Sublist (s.channel host c))
    (guest : (s'.device c).connectionStatus.status ≠ .connectedAsHost)
    (joined : (s'.device c).connectionStatus.status = .connectedAsClient →
      ((s.device c).connectionStatus.status = .connectedAsClient ∧
        (s'.device c).connectionStatus.networkNodeId =
          (s.device c).connectionStatus.networkNodeId) ∨
      ∃ item ∈ s.channel host c, item.session = (c, s.session c) ∧
        ∃ logoff, item.frame = .eapolLogoff logoff ∧
          (s'.device c).connectionStatus.networkNodeId = logoff.assignedNodeId) :
    InTouch host s' c := by
  obtain ⟨kept, new, split, sub, fresh⟩ := up host
  constructor
  · exact guest
  · intro dst item mem
    obtain ⟨kept, new, split, sub, fresh⟩ := up dst
    rw [split] at mem
    rcases List.mem_append.mp mem with old | newer
    · exact h.frames dst item (sub.mem old)
    · exact (fresh item newer).2.1
  · intro item mem
    rw [split] at mem
    rw [session]
    rcases List.mem_append.mp mem with old | newer
    · exact h.requests item (sub.mem old)
    · obtain ⟨own, _, stays⟩ := fresh item newer
      rw [own]
      exact ⟨rfl, Nat.le_refl _, fun leaves => absurd leaves stays⟩
  · rw [split]
    apply List.pairwise_append.mpr
    refine ⟨h.ordered.sublist sub, ?_, ?_⟩
    · exact List.pairwise_of_forall_mem_list fun a first b second => by
        rw [(fresh a first).1, (fresh b second).1]
    · intro a first b second
      rw [(fresh b second).1]
      exact (h.requests a (sub.mem first)).2.1
  · exact fun item mem own => session ▸ h.answers item (down.mem mem) own
  · intro item mem logoff frame own
    rw [session] at own
    exact map ▸ h.promised item (down.mem mem) logoff frame own
  · intro client
    rw [map]
    rcases joined client with ⟨before, same⟩ | ⟨item, mem, own, logoff, frame, assigned⟩
    · rw [same]
      exact h.joined before
    · rw [assigned]
      exact h.promised item mem logoff frame own
  · rintro ⟨item, mem, leaves⟩
    rw [split] at mem
    have old : item ∈ s.channel c host := by
      rcases List.mem_append.mp mem with old | newer
      · exact sub.mem old
      · exact absurd leaves (fresh item newer).2.2
    obtain ⟨status, none⟩ := h.leaving ⟨item, old, leaves⟩
    refine ⟨fun client => ?_, fun item mem => session ▸ none item (down.mem mem)⟩
    rcases joined client with ⟨before, _⟩ | ⟨item, mem, own, logoff, frame, _⟩
    · exact status before
    · exact none item mem logoff frame own

theorem of_disconnect (h : InTouch host s c) (session : s'.session c = s.session c + 1)
    (up : ∀ dst, ∃ new, s'.channel c dst = s.channel c dst ++ new ∧
      ∀ item ∈ new, item = ⟨.deauthentication, (c, s.session c)⟩)
    (down : s'.channel host c = s.channel host c)
    (status : (s'.device c).connectionStatus.status = .notConnected) : InTouch host s' c := by
  obtain ⟨new, split, fresh⟩ := up host
  have stale : ∀ item ∈ s'.channel host c, item.session ≠ (c, s'.session c) := by
    intro item mem own
    rw [down] at mem
    have known := h.answers item mem (congrArg Prod.fst own)
    rw [own, session] at known
    exact absurd known (Nat.not_succ_le_self _)
  constructor
  · rw [status]
    nofun
  · intro dst item mem
    obtain ⟨new, split, fresh⟩ := up dst
    rw [split] at mem
    rcases List.mem_append.mp mem with old | newer
    · exact h.frames dst item old
    · rw [fresh item newer]
      exact fun _ => nofun
  · intro item mem
    rw [split] at mem
    rw [session]
    rcases List.mem_append.mp mem with old | newer
    · obtain ⟨own, known, _⟩ := h.requests item old
      exact ⟨own, Nat.le_succ_of_le known, fun _ => Nat.lt_succ_of_le known⟩
    · rw [fresh item newer]
      exact ⟨rfl, Nat.le_succ _, fun _ => Nat.lt_succ_self _⟩
  · rw [split]
    apply List.pairwise_append.mpr
    refine ⟨h.ordered, ?_, ?_⟩
    · exact List.pairwise_of_forall_mem_list fun a first b second => by
        rw [fresh a first, fresh b second]
    · intro a first b second
      rw [fresh b second]
      exact (h.requests a first).2.1
  · intro item mem own
    rw [down] at mem
    rw [session]
    exact Nat.le_succ_of_le (h.answers item mem own)
  · exact fun item mem logoff _ own => absurd own (stale item mem)
  · intro client
    rw [status] at client
    cases client
  · exact fun _ => ⟨status ▸ nofun, fun item mem _ _ => stale item mem⟩

variable {item : Sent} {rest : List Sent}

theorem of_host (h : InTouch host s c) {sends : Sends} (split : s.channel c host = item :: rest)
    (served : Hosting.Served (s.device host) (s'.device host) c item.frame sends)
    (device : s'.device c = s.device c) (session : s'.session c = s.session c)
    (up : ∀ dst, (s'.channel c dst).Sublist (s.channel c dst)) (taken : s'.channel c host = rest)
    (down : ∀ sent ∈ s'.channel host c, sent ∈ s.channel host c ∨
      sent.session = item.session ∧ ∃ destination, (destination, sent.frame) ∈ sends) :
    InTouch host s' c := by
  have first : item ∈ s.channel c host := split ▸ List.mem_cons_self ..
  obtain ⟨own, known, _⟩ := h.requests item first
  constructor
  · exact device ▸ h.guest
  · exact fun dst item mem => h.frames dst item ((up dst).mem mem)
  · exact fun item mem => session ▸ h.requests item ((up host).mem mem)
  · exact h.ordered.sublist (up host)
  · intro sent mem mine
    rw [session]
    rcases down sent mem with old | ⟨same, _⟩
    · exact h.answers sent old mine
    · rw [same]
      exact known
  · intro sent mem logoff frame current
    rw [session] at current
    rcases down sent mem with old | ⟨_, destination, sends⟩
    · have before := h.promised sent old logoff frame current
      apply served.stays _ _ before
      intro leaves
      exact (h.leaving ⟨item, first, leaves⟩).2 sent old logoff frame current
    · rw [frame] at sends
      exact (served.gives destination logoff sends).2
  · rw [device]
    intro client
    apply served.stays _ _ (h.joined client)
    intro leaves
    exact (h.leaving ⟨item, first, leaves⟩).1 client
  · rw [device, session, taken]
    rintro ⟨other, mem, leaves⟩
    have later : other ∈ s.channel c host := split ▸ List.mem_cons_of_mem _ mem
    obtain ⟨status, none⟩ := h.leaving ⟨other, later, leaves⟩
    refine ⟨status, fun sent mem' logoff frame current => ?_⟩
    rcases down sent mem' with old | ⟨same, _⟩
    · exact none sent old logoff frame current
    · have before := h.ordered
      rw [split] at before
      have earlier := (List.pairwise_cons.mp before).1 other mem
      have gone := (h.requests other later).2.2 leaves
      rw [← same, current] at earlier
      exact absurd gone (Nat.not_lt.mpr earlier)

end InTouch

namespace Radio

variable {src dst a b : MacAddress} {s : Radio} {tag : MacAddress × Nat} {sends : Sends}

theorem post_of_ne (differ : a ≠ src) : (s.post src tag sends).channel a b = s.channel a b :=
  if_neg differ

theorem post_self :
    ∃ new, (s.post src tag sends).channel src b = s.channel src b ++ new ∧
      ∀ item ∈ new, item.session = tag ∧ ∃ destination,
        (destination, item.frame) ∈ sends ∧ reaches src destination b := by
  refine ⟨_, if_pos rfl, ?_⟩
  intro item mem
  obtain ⟨send, sent, rfl⟩ := List.mem_map.mp mem
  obtain ⟨mem, arrives⟩ := List.mem_filter.mp sent
  exact ⟨rfl, send.1, mem, arrives⟩

theorem takeFrame_sublist : ((s.takeFrame src dst).channel a b).Sublist (s.channel a b) := by
  unfold takeFrame
  dsimp only
  split_ifs with same
  · rw [same.1, same.2]
    exact List.tail_sublist _
  · exact List.Sublist.refl _

end Radio

structure Agreed (host : MacAddress) (s : Radio) : Prop where
  hosting : Hosting (s.device host)
  own : s.channel host host = []
  inTouch : ∀ c, c ≠ host → InTouch host s c

namespace Agreed

variable {host c src dst : MacAddress} {s s' : Radio}

section

variable (h : Agreed host s) (notHost : c ≠ host)
include h notHost

theorem of_turn {device : Device} {sends : Sends}
    {s₁ : Radio} (devices : s₁.device = s.device) (sessions : s₁.session = s.session)
    (channels : ∀ a b, (s₁.channel a b).Sublist (s.channel a b))
    (guest : device.connectionStatus.status ≠ .connectedAsHost)
    (frames : ∀ send ∈ sends, (∀ logoff, send.2 ≠ .eapolLogoff logoff) ∧ send.2 ≠ .deauthentication)
    (joined : device.connectionStatus.status = .connectedAsClient →
      ((s.device c).connectionStatus.status = .connectedAsClient ∧
        device.connectionStatus.networkNodeId = (s.device c).connectionStatus.networkNodeId) ∨
      ∃ item ∈ s.channel host c, item.session = (c, s.session c) ∧
        ∃ logoff, item.frame = .eapolLogoff logoff ∧
          device.connectionStatus.networkNodeId = logoff.assignedNodeId) :
    Agreed host ((s₁.setDevice c device).post c (c, s.session c) sends) := by
  let s' := (s₁.setDevice c device).post c (c, s.session c) sends
  have changed : s'.device c = device := Function.update_self _ _ _
  have kept (other : MacAddress) (differ : other ≠ c) : s'.device other = s.device other := by
    rw [← devices]
    exact Function.update_of_ne differ _ _
  have map (other : MacAddress) : lookup (s'.device host).nodeMap other =
      lookup (s.device host).nodeMap other := by
    rw [kept host notHost.symm]
  have channel (a b : MacAddress) (differ : a ≠ c) : s'.channel a b = s₁.channel a b :=
    Radio.post_of_ne differ
  show Agreed host s'
  refine ⟨kept host notHost.symm ▸ h.hosting, ?_, fun other otherNotHost => ?_⟩
  · have less := channels host host
    rw [h.own] at less
    rw [channel host host notHost.symm]
    exact List.sublist_nil.mp less
  · have down : (s'.channel host other).Sublist (s.channel host other) := by
      rw [channel host other notHost.symm]
      exact channels host other
    by_cases same : other = c
    · subst same
      refine (h.inTouch other otherNotHost).of_client (congrFun sessions other) (map other)
        (fun dst => ?_) down (changed ▸ guest) (changed ▸ joined)
      obtain ⟨new, split, fresh⟩ := @Radio.post_self other dst (s₁.setDevice other device)
        (other, s.session other) sends
      refine ⟨_, new, split, channels other dst, fun item mem => ?_⟩
      obtain ⟨session, destination, sent, _⟩ := fresh item mem
      exact ⟨session, frames _ sent⟩
    · refine (h.inTouch other otherNotHost).of_other (kept other same) (congrFun sessions other)
        (map other) (fun dst => ?_) fun item mem => .inl (down.mem mem)
      rw [channel other dst same]
      exact channels other dst

theorem connect (networkInfo : NetworkInfo)
    (run : s.step host (.connect c networkInfo) = .ok s') : Agreed host s' := by
  rw [← Except.ok.inj run]
  refine h.of_turn notHost rfl rfl (fun _ _ => List.Sublist.refl _) nofun ?_ nofun
  intro send mem
  rw [List.mem_singleton.mp mem]
  exact ⟨fun _ => nofun, nofun⟩

theorem disconnect (run : s.step host (.disconnect c) = .ok s') : Agreed host s' := by
  rw [← Except.ok.inj run]
  let device := (s.device c).disconnectNetwork.1
  let after : Radio := { (s.setDevice c device).post c (c, s.session c)
    (s.device c).disconnectNetwork.2 with
    session := Function.update s.session c (s.session c + 1) }
  have changed : after.device c = device := Function.update_self _ _ _
  have kept (other : MacAddress) (differ : other ≠ c) : after.device other = s.device other :=
    Function.update_of_ne differ _ _
  have channel (a b : MacAddress) (differ : a ≠ c) : after.channel a b = s.channel a b :=
    Radio.post_of_ne differ
  show Agreed host after
  refine ⟨kept host notHost.symm ▸ h.hosting, (channel host host notHost.symm).trans h.own,
    fun other otherNotHost => ?_⟩
  by_cases same : other = c
  · subst same
    refine (h.inTouch other otherNotHost).of_disconnect (Function.update_self _ _ _)
      (fun dst => ?_) (channel host other notHost.symm) (changed ▸ rfl)
    obtain ⟨new, split, fresh⟩ := @Radio.post_self other dst (s.setDevice other device)
      (other, s.session other) (s.device other).disconnectNetwork.2
    refine ⟨new, split, fun item mem => ?_⟩
    obtain ⟨session, destination, sent, _⟩ := fresh item mem
    have frame := congrArg Prod.snd (List.mem_singleton.mp sent)
    change item.frame = .deauthentication at frame
    rw [← session, ← frame]
  · refine (h.inTouch other otherNotHost).of_other (kept other same)
      (Function.update_of_ne same _ _) (by rw [kept host notHost.symm]) (fun dst => ?_)
      fun item mem => .inl (channel host other notHost.symm ▸ mem)
    rw [channel other dst same]

theorem clientReceive {device : Device} {sends : Sends} (split : s.channel src c = item :: rest)
    (run : (s.device c).receive src item.frame = .ok (device, sends))
    (orderly : (s.device c).connectionStatus.status = .connecting →
      (∃ logoff, item.frame = .eapolLogoff logoff) → item.session = (c, s.session c)) :
    Agreed host (((s.takeFrame src c).setDevice c device).post c (c, s.session c) sends) := by
  have followed := Device.followed (h.inTouch c notHost).guest run
  refine h.of_turn notHost rfl rfl (fun _ _ => Radio.takeFrame_sublist) followed.guest ?_ ?_
  · intro send mem
    obtain ⟨associationId, node, frame⟩ := followed.sends send mem
    rw [frame]
    exact ⟨fun _ => nofun, nofun⟩
  · intro client
    rcases followed.joins client with before | ⟨connecting, logoff, frame, assigned⟩
    · exact .inl before
    · have first : item ∈ s.channel src c := split ▸ List.mem_cons_self ..
      have fromHost : src = host := by
        by_contra other
        exact (h.inTouch src other).frames c item first logoff frame
      exact .inr ⟨item, fromHost ▸ first, orderly connecting ⟨logoff, frame⟩, logoff, frame,
        assigned⟩

end

theorem hostReceive (h : Agreed host s) {device : Device}
    {sends : Sends} (split : s.channel src host = item :: rest)
    (run : (s.device host).receive src item.frame = .ok (device, sends)) :
    Agreed host (((s.takeFrame src host).setDevice host device).post host item.session sends) := by
  have served := h.hosting.served run
  have guest : src ≠ host := by
    rintro rfl
    rw [h.own] at split
    cases split
  let s' := ((s.takeFrame src host).setDevice host device).post host item.session sends
  have changed : s'.device host = device := Function.update_self _ _ _
  have kept (c : MacAddress) (differ : c ≠ host) : s'.device c = s.device c :=
    Function.update_of_ne differ _ _
  have up (c dst : MacAddress) (differ : c ≠ host) :
      (s'.channel c dst).Sublist (s.channel c dst) := by
    rw [show s'.channel c dst = (s.takeFrame src host).channel c dst from Radio.post_of_ne differ]
    exact Radio.takeFrame_sublist
  have down (c : MacAddress) : ∀ sent ∈ s'.channel host c, sent ∈ s.channel host c ∨
      sent.session = item.session ∧ ∃ destination, (destination, sent.frame) ∈ sends ∧
        reaches host destination c := by
    intro sent mem
    obtain ⟨new, queue, fresh⟩ := @Radio.post_self host c
      ((s.takeFrame src host).setDevice host device) item.session sends
    rw [queue] at mem
    rcases List.mem_append.mp mem with old | newer
    · exact .inl (Radio.takeFrame_sublist.mem old)
    · exact .inr (fresh sent newer)
  show Agreed host s'
  refine ⟨changed ▸ served.hosting, ?_, fun c notHost => ?_⟩
  · apply List.eq_nil_iff_forall_not_mem.mpr
    intro sent mem
    rcases down host sent mem with old | ⟨_, destination, sends, arrives⟩
    · rw [h.own] at old
      cases old
    · unfold reaches at arrives
      split_ifs at arrives with all
      · exact absurd arrives (by simp)
      · rcases served.answers _ sends with back | all'
        · have back : destination = src := back
          rw [decide_eq_true_iff, back] at arrives
          exact guest arrives.symm
        · exact all all'
  · by_cases same : c = src
    · subst same
      have taken : s'.channel c host = rest := by
        rw [show s'.channel c host = (s.takeFrame c host).channel c host from
          Radio.post_of_ne notHost]
        show (if c = c ∧ host = host then _ else _) = rest
        rw [if_pos ⟨rfl, rfl⟩, split, List.tail_cons]
      refine (h.inTouch c notHost).of_host split (changed ▸ served) (kept c notHost) rfl
        (fun dst => up c dst notHost) taken fun sent mem => ?_
      exact (down c sent mem).imp id fun new => ⟨new.1, new.2.imp fun _ sent => sent.1⟩
    · refine (h.inTouch c notHost).of_other (kept c notHost) rfl ?_ (fun dst => up c dst notHost)
        fun sent mem => ?_
      · rw [changed]
        exact served.others c same
      · refine (down c sent mem).imp id fun new => ?_
        have first : item ∈ s.channel src host := split ▸ List.mem_cons_self ..
        rw [new.1, ((h.inTouch src guest).requests item first).1]
        exact fun eq => same eq.symm

theorem step (h : Agreed host s) {action : Action} (enabled : Radio.Enabled host action)
    (orderly : s.Orderly host action) (run : s.step host action = .ok s') : Agreed host s' := by
  cases action with
  | connect c networkInfo => exact h.connect enabled networkInfo run
  | disconnect c => exact h.disconnect enabled run
  | receive src dst =>
    change (match s.channel src dst with | [] => _ | item :: _ => _) = _ at run
    cases split : s.channel src dst with
    | nil =>
      rw [split] at run
      exact Except.ok.inj run ▸ h
    | cons item rest =>
      rw [split] at run
      obtain ⟨⟨device, sends⟩, received, run⟩ := bind_eq_ok.mp run
      rw [← Except.ok.inj run]
      unfold Radio.answerSession
      by_cases isHost : dst = host
      · subst isHost
        rw [if_pos rfl]
        exact h.hostReceive split received
      · rw [if_neg isHost]
        exact h.clientReceive isHost split received ((orderly item rest split).2 isHost)

end Agreed

end EmuThreeDS.Uds
