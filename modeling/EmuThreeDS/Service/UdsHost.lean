import EmuThreeDS.Service.Uds

/-!
# The host's bookkeeping

Four places know who is connected: the bit mask, the node ids, the node information and the
map from addresses. What one frame does to them keeps them in agreement.
-/
namespace EmuThreeDS.Uds

open Network (MacAddress)
open AssocList (lookup assign erase keys)

namespace Device

def connectedNodes (device : Device) : Nat :=
  device.nodeMap.countP fun entry => entry.2.connected

/-- A connected node has its bit, its id and its information in the place of its id. -/
structure Placed (device : Device) (nodeId : Nat) : Prop where
  guest : 2 ≤ nodeId
  bit : device.connectionStatus.nodeBitmask.getLsbD (nodeId - 1) = true
  node : device.connectionStatus.nodes[nodeId - 1]? = some nodeId
  info : ∃ info, device.nodeInfo[nodeId - 1]? = some info ∧ info.networkNodeId = nodeId

structure Hosting (device : Device) : Prop where
  status : device.connectionStatus.status = .connectedAsHost
  maxNodes : device.networkInfo.maxNodes = device.connectionStatus.maxNodes
  small : device.connectionStatus.maxNodes ≤ udsMaxNodes
  total : device.networkInfo.totalNodes = device.connectionStatus.totalNodes
  bits : device.connectionStatus.totalNodes = BitSlots.count device.connectionStatus.nodeBitmask
  members : device.connectionStatus.totalNodes = 1 + device.connectedNodes
  fits : device.connectionStatus.totalNodes ≤ device.connectionStatus.maxNodes
  host : device.connectionStatus.nodeBitmask.getLsbD 0 = true
  inside : ∀ i, device.connectionStatus.nodeBitmask.getLsbD i = true →
    i < device.connectionStatus.maxNodes
  nodesLength : device.connectionStatus.nodes.length = udsMaxNodes
  infoLength : device.nodeInfo.length = device.connectionStatus.maxNodes
  once : (keys device.nodeMap).Nodup
  placed : ∀ address nodeId, lookup device.nodeMap address = some ⟨true, nodeId⟩ →
    device.Placed nodeId
  distinct : ∀ a b nodeId, lookup device.nodeMap a = some ⟨true, nodeId⟩ →
    lookup device.nodeMap b = some ⟨true, nodeId⟩ → a = b
  places : ∀ j info, device.nodeInfo[j]? = some info →
    info.networkNodeId = 0 ∨ info.networkNodeId = j + 1

/-- The frame of a client that waits for its place finds one. -/
def Roomy (device : Device) (transmitter : MacAddress) (frame : Frame) : Prop :=
  match frame with
  | .eapolStart _ _ =>
    ∀ nodeId, lookup device.nodeMap transmitter = some ⟨false, nodeId⟩ →
      device.connectionStatus.maxNodes ≠ device.connectionStatus.totalNodes
  | _ => True

variable {nodeId associationId : Nat} {status : ConnectionStatus} {entry : Node} {node : NodeInfo}
  {device' : Device} {sends : Sends}

theorem getNextAvailableNodeId_spec (run : getNextAvailableNodeId status = .ok nodeId) :
    0 < nodeId ∧ nodeId ≤ status.maxNodes ∧ status.nodeBitmask.getLsbD (nodeId - 1) = false := by
  unfold getNextAvailableNodeId at run
  split at run
  · rename_i index found
    cases run
    have inside := List.mem_range.mp (List.mem_of_find?_eq_some found)
    have free := List.find?_some found
    exact ⟨Nat.succ_pos _, inside, by simpa using free⟩
  · cases run

theorem getNextAvailableNodeId_answers
    (room : BitSlots.count status.nodeBitmask < status.maxNodes) :
    ∃ nodeId, getNextAvailableNodeId status = .ok nodeId := by
  obtain ⟨i, inside, free⟩ := BitSlots.exists_free room
  unfold getNextAvailableNodeId
  split
  · exact ⟨_, rfl⟩
  · rename_i none
    have taken := List.find?_eq_none.mp none i (List.mem_range.mpr inside)
    simp [free] at taken

namespace Hosting

variable {device : Device} {transmitter : MacAddress}

/-- A change of the map that connects nobody. -/
theorem remapped {nodeMap : List (MacAddress × Node)} (h : Hosting device)
    (count : (nodeMap.countP fun entry => entry.2.connected) = device.connectedNodes)
    (once : (keys nodeMap).Nodup)
    (same : ∀ address nodeId, lookup nodeMap address = some ⟨true, nodeId⟩ →
      lookup device.nodeMap address = some ⟨true, nodeId⟩) :
    Hosting { device with nodeMap := nodeMap } := by
  refine { h with members := ?_, once := once, placed := ?_, distinct := ?_ }
  · exact h.members.trans (congrArg (1 + ·) count.symm)
  · intro address nodeId found
    obtain ⟨guest, bit, node, info⟩ := h.placed address nodeId (same address nodeId found)
    exact ⟨guest, bit, node, info⟩
  · intro a b nodeId first second
    exact h.distinct a b nodeId (same a nodeId first) (same b nodeId second)

theorem authenticated (h : Hosting device) (new : lookup device.nodeMap transmitter = none) :
    Hosting { device with nodeMap := assign device.nodeMap transmitter ⟨false, 0⟩ } := by
  refine h.remapped ?_ (AssocList.nodup_assign h.once) ?_
  · rw [AssocList.countP_assign_new new]
    rfl
  · intro address nodeId found
    by_cases own : address = transmitter
    · rw [own, AssocList.lookup_assign_self] at found
      cases found
    · rwa [AssocList.lookup_assign_of_ne own] at found

/-- A client that never got a place leaves. -/
theorem forgotten (h : Hosting device) (known : lookup device.nodeMap transmitter = some entry)
    (waiting : entry.connected = false) :
    Hosting { device with nodeMap := erase device.nodeMap transmitter } := by
  refine h.remapped ?_ (AssocList.nodup_erase h.once) ?_
  · have gone := AssocList.countP_erase (p := fun e => e.2.connected) known
    rwa [if_neg (by simp [waiting])] at gone
  · intro address nodeId found
    by_cases own : address = transmitter
    · rw [own, AssocList.lookup_erase_self h.once] at found
      cases found
    · rwa [AssocList.lookup_erase_of_ne own] at found

theorem placed_of_welcome {other : Nat} (placed : device.Placed other) (inside : nodeId - 1 < 16)
    (differ : other - 1 ≠ nodeId - 1) : (device.welcome transmitter node nodeId).Placed other := by
  obtain ⟨guest, bit, place, info⟩ := placed
  refine ⟨guest, ?_, ?_, ?_⟩
  · show (BitSlots.take _ _).getLsbD _ = true
    rw [BitSlots.getLsbD_take inside, bit, Bool.true_or]
  · show (device.connectionStatus.nodes.set _ _)[_]? = _
    rw [List.getElem?_set_ne differ.symm]
    exact place
  · show ∃ info, (device.nodeInfo.set _ _)[_]? = some info ∧ _
    rw [List.getElem?_set_ne differ.symm]
    exact info

theorem welcomed (h : Hosting device) (known : lookup device.nodeMap transmitter = some entry)
    (waiting : entry.connected = false)
    (room : device.connectionStatus.maxNodes ≠ device.connectionStatus.totalNodes)
    (next : getNextAvailableNodeId device.connectionStatus = .ok nodeId) :
    Hosting (device.welcome transmitter node nodeId) := by
  obtain ⟨positive, bounded, free⟩ := getNextAvailableNodeId_spec next
  have index : nodeId - 1 < 16 := by
    have small := h.small
    unfold udsMaxNodes at small
    omega
  have guest : 2 ≤ nodeId := by
    have notHost : nodeId ≠ 1 := by
      rintro rfl
      exact absurd (h.host.symm.trans free) nofun
    omega
  have grown : (device.welcome transmitter node nodeId).connectionStatus.totalNodes =
      device.connectionStatus.totalNodes + 1 := rfl
  have own : (device.welcome transmitter node nodeId).Placed nodeId := by
    refine ⟨guest, ?_, ?_, { node with networkNodeId := nodeId }, ?_, rfl⟩
    · show (BitSlots.take _ _).getLsbD _ = true
      rw [BitSlots.getLsbD_take index, decide_eq_true rfl, Bool.or_true]
    · show (device.connectionStatus.nodes.set _ _)[_]? = _
      rw [List.getElem?_set_self]
      rw [h.nodesLength]
      exact index
    · show (device.nodeInfo.set _ _)[_]? = _
      rw [List.getElem?_set_self]
      rw [h.infoLength]
      omega
  have lookups (address : MacAddress) (id : Nat)
      (found : lookup (device.welcome transmitter node nodeId).nodeMap address = some ⟨true, id⟩) :
      (address = transmitter ∧ id = nodeId) ∨
        (address ≠ transmitter ∧ lookup device.nodeMap address = some ⟨true, id⟩ ∧
          id ≠ nodeId) := by
    change lookup (assign _ _ _) _ = _ at found
    by_cases same : address = transmitter
    · rw [same, AssocList.lookup_assign_self] at found
      cases found
      exact .inl ⟨same, rfl⟩
    · rw [AssocList.lookup_assign_of_ne same] at found
      refine .inr ⟨same, found, ?_⟩
      rintro rfl
      exact absurd ((h.placed address id found).bit.symm.trans free) nofun
  constructor
  · exact h.status
  · exact h.maxNodes
  · exact h.small
  · exact congrArg (· + 1) h.total
  · rw [grown, h.bits]
    exact (BitSlots.count_take index free).symm
  · rw [grown, h.members]
    have trade := AssocList.countP_assign_old (v := (⟨true, nodeId⟩ : Node))
      (p := fun e => e.2.connected) known
    rw [if_neg (by simp [waiting])] at trade
    exact congrArg (1 + ·) trade.symm
  · have fits := h.fits
    change _ ≤ device.connectionStatus.maxNodes
    omega
  · show (BitSlots.take _ _).getLsbD 0 = true
    rw [BitSlots.getLsbD_take index, h.host, Bool.true_or]
  · intro i bit
    change (BitSlots.take _ _).getLsbD i = true at bit
    rw [BitSlots.getLsbD_take index, Bool.or_eq_true, decide_eq_true_iff] at bit
    rcases bit with old | rfl
    · exact h.inside i old
    · show nodeId - 1 < device.connectionStatus.maxNodes
      omega
  · exact List.length_set.trans h.nodesLength
  · exact List.length_set.trans h.infoLength
  · exact AssocList.nodup_assign h.once
  · intro address id found
    rcases lookups address id found with ⟨_, rfl⟩ | ⟨_, old, differ⟩
    · exact own
    · have placed := h.placed address id old
      apply placed_of_welcome placed index
      omega
  · intro a b id first second
    rcases lookups a id first with ⟨sameA, idA⟩ | ⟨_, oldA, differA⟩
    · rcases lookups b id second with ⟨sameB, _⟩ | ⟨_, _, differB⟩
      · rw [sameA, sameB]
      · exact absurd idA differB
    · rcases lookups b id second with ⟨_, idB⟩ | ⟨_, oldB, _⟩
      · exact absurd idB differA
      · exact h.distinct a b id oldA oldB
  · intro j info found
    change (device.nodeInfo.set _ _)[j]? = some info at found
    rw [List.getElem?_set] at found
    split_ifs at found with same inRange
    · cases found
      refine .inr ?_
      show nodeId = j + 1
      omega
    · exact h.places j info found

theorem released (h : Hosting device)
    (known : lookup device.nodeMap transmitter = some ⟨true, nodeId⟩) :
    Hosting ({ device with nodeMap := erase device.nodeMap transmitter }.release nodeId
      (nodeId - 1)) := by
  obtain ⟨guest, bit, _, _⟩ := h.placed transmitter nodeId known
  have index : nodeId - 1 < 16 := BitVec.lt_of_getLsbD bit
  let after :=
    { device with nodeMap := erase device.nodeMap transmitter }.release nodeId (nodeId - 1)
  have shrunk : after.connectionStatus.totalNodes = device.connectionStatus.totalNodes - 1 := rfl
  have fewer : after.connectedNodes + 1 = device.connectedNodes := by
    have gone := AssocList.countP_erase (p := fun e => e.2.connected) known
    rwa [if_pos rfl] at gone
  have lookups (address : MacAddress) (id : Nat)
      (found : lookup after.nodeMap address = some ⟨true, id⟩) :
      lookup device.nodeMap address = some ⟨true, id⟩ ∧ id ≠ nodeId := by
    change lookup (erase _ _) _ = _ at found
    by_cases same : address = transmitter
    · rw [same, AssocList.lookup_erase_self h.once] at found
      cases found
    · rw [AssocList.lookup_erase_of_ne same] at found
      refine ⟨found, ?_⟩
      rintro rfl
      exact same (h.distinct address transmitter id found known)
  have members := h.members
  constructor
  · exact h.status
  · exact h.maxNodes
  · exact h.small
  · exact congrArg (· - 1) h.total
  · have counted : BitSlots.count after.connectionStatus.nodeBitmask + 1 = _ :=
      BitSlots.count_giveBack index bit
    rw [← h.bits] at counted
    show after.connectionStatus.totalNodes = BitSlots.count after.connectionStatus.nodeBitmask
    omega
  · show after.connectionStatus.totalNodes = 1 + after.connectedNodes
    omega
  · have fits := h.fits
    show after.connectionStatus.totalNodes ≤ device.connectionStatus.maxNodes
    omega
  · show (BitSlots.giveBack _ _).getLsbD 0 = true
    rw [BitSlots.getLsbD_giveBack index, h.host, Bool.true_and, Bool.not_eq_true',
      decide_eq_false_iff_not]
    omega
  · intro i still
    change (BitSlots.giveBack _ _).getLsbD i = true at still
    rw [BitSlots.getLsbD_giveBack index, Bool.and_eq_true] at still
    exact h.inside i still.1
  · exact List.length_set.trans h.nodesLength
  · exact List.length_set.trans h.infoLength
  · exact AssocList.nodup_erase h.once
  · intro address id found
    obtain ⟨old, differ⟩ := lookups address id found
    obtain ⟨guest', bit', node, info⟩ := h.placed address id old
    have apart : nodeId - 1 ≠ id - 1 := by omega
    refine ⟨guest', ?_, ?_, ?_⟩
    · show (BitSlots.giveBack _ _).getLsbD _ = true
      rw [BitSlots.getLsbD_giveBack index, bit', Bool.true_and, Bool.not_eq_true',
        decide_eq_false_iff_not]
      exact apart.symm
    · show (device.connectionStatus.nodes.set _ _)[_]? = _
      rw [List.getElem?_set_ne apart]
      exact node
    · show ∃ info, (device.nodeInfo.set _ _)[_]? = some info ∧ _
      rw [List.getElem?_set_ne apart]
      exact info
  · intro a b id first second
    exact h.distinct a b id (lookups a id first).1 (lookups b id second).1
  · intro j info found
    change (device.nodeInfo.set _ _)[j]? = some info at found
    rw [List.getElem?_set] at found
    split_ifs at found
    · cases found
      exact .inl rfl
    · exact h.places j info found

/-- What one frame does to the host's map, and which node ids the host gives away. -/
structure Served (device device' : Device) (transmitter : MacAddress) (frame : Frame)
    (sends : Sends) : Prop where
  hosting : Hosting device'
  others : ∀ address, address ≠ transmitter →
    lookup device'.nodeMap address = lookup device.nodeMap address
  stays : frame ≠ .deauthentication → ∀ nodeId,
    lookup device.nodeMap transmitter = some ⟨true, nodeId⟩ →
      lookup device'.nodeMap transmitter = some ⟨true, nodeId⟩
  gives : ∀ destination logoff, (destination, .eapolLogoff logoff) ∈ sends →
    frame ≠ .deauthentication ∧
      lookup device'.nodeMap transmitter = some ⟨true, logoff.assignedNodeId⟩
  answers : ∀ send ∈ sends, send.1 = transmitter ∨ send.1 = broadcastMac

section

variable (h : Hosting device)
include h

theorem served_same (frame : Frame) : Served device device transmitter frame [] :=
  ⟨h, fun _ _ => rfl, fun _ _ => id, nofun, nofun⟩

theorem served_authentication (seq : AuthenticationSeq) :
    Served device (device.handleAuthenticationFrame transmitter seq).1 transmitter
      (.authentication seq) (device.handleAuthenticationFrame transmitter seq).2 := by
  unfold handleAuthenticationFrame
  split_ifs with first status known full
  · exact h.served_same _
  · exact h.served_same _
  · exact h.served_same _
  · exact h.served_same _
  · rw [not_not] at known
    refine ⟨h.authenticated known, fun address differ => AssocList.lookup_assign_of_ne differ,
      fun _ nodeId found => ?_, fun destination logoff mem => ?_, fun send mem => .inl ?_⟩
    · rw [known] at found
      cases found
    · rcases List.mem_cons.mp mem with same | mem
      · cases same
      · unfold sendAssociationResponseFrame at mem
        split_ifs at mem
        · cases mem
        · cases List.mem_singleton.mp mem
    · rcases List.mem_cons.mp mem with rfl | mem
      · rfl
      · unfold sendAssociationResponseFrame at mem
        split_ifs at mem
        · cases mem
        · rw [List.mem_singleton.mp mem]

theorem served_eapolStart (run : device.handleEAPoLStart transmitter node = .ok (device', sends)) :
    Served device device' transmitter (.eapolStart associationId node) sends := by
  unfold handleEAPoLStart at run
  split_ifs at run
  · cases run
    exact h.served_same _
  · split at run
    · cases run
      exact h.served_same _
    · rename_i entry known
      split_ifs at run with connected
      · cases run
        exact h.served_same _
      · obtain ⟨_, room, run⟩ := bind_eq_ok.mp run
        obtain ⟨nodeId, next, run⟩ := bind_eq_ok.mp run
        cases run
        have waiting : entry.connected = false := Bool.eq_false_iff.mpr connected
        refine ⟨h.welcomed known waiting (assert_eq_ok.mp room) next,
          fun address differ => AssocList.lookup_assign_of_ne differ,
          fun _ other found => ?_, fun destination logoff mem => ⟨(by rintro ⟨⟩), ?_⟩,
          fun send mem => .inr ?_⟩
        · rw [known] at found
          cases found
          exact absurd waiting (by rintro ⟨⟩)
        · rcases List.mem_cons.mp mem with same | mem
          · cases same
          · cases List.mem_singleton.mp mem
            exact AssocList.lookup_assign_self
        · rcases List.mem_cons.mp mem with rfl | mem
          · rfl
          · rw [List.mem_singleton.mp mem]

theorem findIdx?_place (placed : device.Placed nodeId) :
    device.nodeInfo.findIdx? (fun info => info.networkNodeId == nodeId) = some (nodeId - 1) := by
  obtain ⟨info, found, same⟩ := placed.info
  obtain ⟨inRange, here⟩ := List.getElem?_eq_some_iff.mp found
  apply List.findIdx?_eq_some_iff_getElem.mpr
  refine ⟨inRange, by simpa [here] using same, ?_⟩
  intro j before
  have other := h.places j _ (List.getElem?_eq_getElem (by omega))
  simp only [beq_iff_eq]
  omega

theorem served_deauthentication :
    Served device (device.handleDeauthenticationFrame transmitter) transmitter .deauthentication
      [] := by
  refine ⟨?_, ?_, fun frame => absurd rfl frame, nofun, nofun⟩
  · unfold handleDeauthenticationFrame
    rw [if_neg (not_not.mpr h.status)]
    split
    · exact h
    · rename_i node known
      dsimp only
      split_ifs with connected
      · obtain ⟨_, nodeId⟩ := node
        cases connected
        rw [h.findIdx?_place (h.placed transmitter nodeId known)]
        exact h.released known
      · exact h.forgotten known (Bool.eq_false_iff.mpr connected)
  · intro address differ
    unfold handleDeauthenticationFrame
    split_ifs
    · rfl
    · split
      · rfl
      · dsimp only
        split_ifs
        · split
          · exact AssocList.lookup_erase_of_ne differ
          · exact AssocList.lookup_erase_of_ne differ
        · exact AssocList.lookup_erase_of_ne differ

theorem served {frame : Frame} (run : device.receive transmitter frame = .ok (device', sends)) :
    Served device device' transmitter frame sends := by
  cases frame with
  | authentication seq =>
    have served := @served_authentication device transmitter h seq
    rwa [Except.ok.inj run] at served
  | associationResponse status associationId =>
    obtain ⟨_, _, run⟩ := bind_eq_ok.mp run
    rw [if_pos (h.status ▸ nofun)] at run
    cases run
    exact h.served_same _
  | eapolStart associationId node => exact h.served_eapolStart run
  | eapolLogoff logoff =>
    cases run
    unfold handleEAPoLLogoff
    rw [h.status]
    exact h.served_same _
  | deauthentication =>
    cases run
    exact h.served_deauthentication
  | nodeMap entries =>
    cases run
    unfold handleNodeMapPacket
    rw [if_pos h.status]
    exact h.served_same _

theorem eapolStart_answers (roomy : Roomy device transmitter (.eapolStart associationId node)) :
    Answers (device.handleEAPoLStart transmitter node) := by
  unfold handleEAPoLStart
  split_ifs
  · exact answers_ok _
  · split
    · exact answers_ok _
    · rename_i entry known
      split_ifs with connected
      · exact answers_ok _
      · obtain ⟨_ | _, nodeId⟩ := entry
        · have room := roomy nodeId known
          have fits := h.fits
          have free : BitSlots.count device.connectionStatus.nodeBitmask <
              device.connectionStatus.maxNodes := by
            rw [← h.bits]
            omega
          obtain ⟨next, run⟩ := getNextAvailableNodeId_answers free
          rw [assert_pos room, run]
          exact answers_ok _
        · exact absurd rfl connected

end

end Hosting

structure Initialized (device : Device) : Prop where
  status : device.connectionStatus = .reset .notConnected 0
  nodeMap : device.nodeMap = []

theorem hosting_beginHostingNetwork {device : Device} {address : MacAddress}
    {maxNodes : Nat} (h : Initialized device) (small : maxNodes ≤ udsMaxNodes)
    (run : device.beginHostingNetwork address maxNodes = .ok device') : Hosting device' := by
  obtain ⟨_, several, run⟩ := bind_eq_ok.mp run
  have many := assert_eq_ok.mp several
  cases run
  constructor
  · rfl
  · rfl
  · exact small
  · rfl
  · show 1 = BitSlots.count (BitSlots.take device.connectionStatus.nodeBitmask 0)
    rw [h.status]
    rfl
  · rw [h.nodeMap]
    rfl
  · show 1 ≤ maxNodes
    omega
  · rw [BitSlots.getLsbD_take (by decide), decide_eq_true rfl, Bool.or_true]
  · intro i bit
    rw [h.status, BitSlots.getLsbD_take (by decide)] at bit
    have first : i = 0 := by simpa [ConnectionStatus.reset] using bit
    show i < maxNodes
    omega
  · rw [h.status]
    rfl
  · rw [List.length_set, List.length_replicate]
  · rw [h.nodeMap]
    exact List.nodup_nil
  · intro other nodeId found
    rw [h.nodeMap] at found
    cases found
  · intro a b nodeId found
    rw [h.nodeMap] at found
    cases found
  · intro j info found
    rw [List.getElem?_set] at found
    split_ifs at found with first
    · cases found
      exact .inr (first ▸ rfl)
    · have blank := List.eq_of_mem_replicate (List.mem_of_getElem? found)
      exact .inl (blank ▸ rfl)

end Device

end EmuThreeDS.Uds
