import EmuThreeDS.Exec
import EmuThreeDS.Lib.AssocList
import EmuThreeDS.Lib.BitFields
import EmuThreeDS.Network.Room

/-!
# Local wireless networks

The connection sequence of `NWM_UDS`. The host of a network and its clients run the same
code, and a frame handler answers with the frames it sends and where to.
-/
namespace EmuThreeDS.Uds

open Network (MacAddress)
open AssocList (lookup assign erase)

def broadcastMac : MacAddress := .replicate 6 0xFF

def udsMaxNodes : Nat := 16

structure NodeInfo where
  friendCodeSeed : UInt64
  username : Vector UInt16 10
  networkNodeId : Nat

namespace NodeInfo

/-- `NodeInfo{}`, and what `Reset` leaves. -/
def empty : NodeInfo where
  friendCodeSeed := 0
  username := .replicate 10 0
  networkNodeId := 0

end NodeInfo

inductive NetworkStatus where
  | notConnected | connectedAsHost | connecting | connectedAsClient
  deriving DecidableEq

structure ConnectionStatus where
  status : NetworkStatus
  networkNodeId : Nat
  changedNodes : BitVec 16
  nodes : List Nat
  totalNodes : Nat
  maxNodes : Nat
  nodeBitmask : BitVec 16

/-- `connection_status = {}` but for the status and the node id. -/
def ConnectionStatus.reset (status : NetworkStatus) (networkNodeId : Nat) : ConnectionStatus where
  status := status
  networkNodeId := networkNodeId
  changedNodes := 0
  nodes := List.replicate udsMaxNodes 0
  totalNodes := 0
  maxNodes := 0
  nodeBitmask := 0

structure NetworkInfo where
  hostMacAddress : MacAddress
  totalNodes : Nat
  maxNodes : Nat

structure Node where
  connected : Bool
  nodeId : Nat
  deriving DecidableEq

structure Device where
  connectionStatus : ConnectionStatus
  networkInfo : NetworkInfo
  nodeInfo : List NodeInfo
  nodeMap : List (MacAddress × Node)
  currentNode : NodeInfo

inductive AuthenticationSeq where
  | seq1 | seq2
  deriving DecidableEq

inductive AssocStatus where
  | successful | unspecified
  deriving DecidableEq

structure EAPoLLogoff where
  assignedNodeId : Nat
  clientMacAddress : MacAddress
  connectedNodes : Nat
  maxNodes : Nat
  nodes : List NodeInfo

inductive Frame where
  | authentication (seq : AuthenticationSeq)
  | associationResponse (status : AssocStatus) (associationId : Nat)
  | eapolStart (associationId : Nat) (node : NodeInfo)
  | eapolLogoff (logoff : EAPoLLogoff)
  | deauthentication
  | nodeMap (entries : List (MacAddress × Nat))

variable (device : Device) (transmitter : MacAddress)

namespace Device

abbrev Sends := List (MacAddress × Frame)

def getNextAvailableNodeId (status : ConnectionStatus) : Exec Nat :=
  match (List.range status.maxNodes).find? fun index => !status.nodeBitmask.getLsbD index with
  | some index => .ok (index + 1)
  | none => .error (.assertion .nextAvailableNodeId)

def broadcastNodeMap : MacAddress × Frame :=
  (broadcastMac, .nodeMap
    ((device.nodeMap.filter fun entry => entry.2.connected).map
      fun entry => (entry.1, entry.2.nodeId)))

def handleNodeMapPacket (entries : List (MacAddress × Nat)) : Device :=
  if device.connectionStatus.status = .connectedAsHost then device
  else
    { device with
      nodeMap := entries.foldl (fun nodeMap entry => assign nodeMap entry.1 ⟨true, entry.2⟩) [] }

def generateEAPoLStartFrame (associationId : Nat) (node : NodeInfo) : Frame :=
  .eapolStart associationId { node with networkNodeId := 0 }

/-- The client's address is not written into the frame. -/
def generateEAPoLLogoffFrame (networkNodeId : Nat) (nodes : List NodeInfo)
    (maxNodes totalNodes : Nat) : Frame :=
  .eapolLogoff
    { assignedNodeId := networkNodeId
      clientMacAddress := .replicate 6 0
      connectedNodes := totalNodes
      maxNodes := maxNodes
      nodes := nodes.take maxNodes ++ List.replicate (udsMaxNodes - maxNodes) .empty }

def handleAssociationResponseFrame
    (status : AssocStatus) (associationId : Nat) : Exec (Device × Sends) := do
  assert .associationResponse (status = .successful)
  if device.connectionStatus.status ≠ .connecting then return (device, [])
  else
    return (device, [(transmitter, generateEAPoLStartFrame associationId device.currentNode)])

/-- What the host does once it takes the client in under `nodeId`. -/
def welcome (node : NodeInfo) (nodeId : Nat) :
    Device :=
  { device with
    connectionStatus :=
      { device.connectionStatus with
        nodeBitmask := BitSlots.take device.connectionStatus.nodeBitmask (nodeId - 1)
        changedNodes := BitSlots.take device.connectionStatus.changedNodes (nodeId - 1)
        nodes := device.connectionStatus.nodes.set (nodeId - 1) nodeId
        totalNodes := device.connectionStatus.totalNodes + 1 }
    nodeInfo := device.nodeInfo.set (nodeId - 1) { node with networkNodeId := nodeId }
    networkInfo := { device.networkInfo with totalNodes := device.networkInfo.totalNodes + 1 }
    nodeMap := assign device.nodeMap transmitter ⟨true, nodeId⟩ }

def handleEAPoLStart (node : NodeInfo) :
    Exec (Device × Sends) :=
  if device.connectionStatus.status ≠ .connectedAsHost then .ok (device, [])
  else
    match lookup device.nodeMap transmitter with
    | none => .ok (device, [])
    | some entry =>
      if entry.connected then .ok (device, [])
      else do
        assert .handleEAPoL
          (device.connectionStatus.maxNodes ≠ device.connectionStatus.totalNodes)
        let nodeId ← getNextAvailableNodeId device.connectionStatus
        let device := device.welcome transmitter node nodeId
        return (device, [device.broadcastNodeMap,
          (broadcastMac, generateEAPoLLogoffFrame nodeId device.nodeInfo
            device.networkInfo.maxNodes device.networkInfo.totalNodes)])

def enterNode (node : NodeInfo) : Device :=
  if node.networkNodeId = 0 then device
  else
    let index := node.networkNodeId - 1
    { device with
      connectionStatus :=
        { device.connectionStatus with
          nodeBitmask := BitSlots.take device.connectionStatus.nodeBitmask index
          nodes := device.connectionStatus.nodes.set index node.networkNodeId }
      nodeInfo := device.nodeInfo.set index node }

def join (logoff : EAPoLLogoff) : Device :=
  let device :=
    { device with
      networkInfo := ⟨transmitter, logoff.connectedNodes, logoff.maxNodes⟩
      connectionStatus :=
        { device.connectionStatus with
          networkNodeId := logoff.assignedNodeId
          totalNodes := logoff.connectedNodes
          maxNodes := logoff.maxNodes }
      nodeInfo := List.replicate logoff.maxNodes .empty }
  let old := device.connectionStatus.changedNodes
  let device := logoff.nodes.foldl enterNode device
  { device with
    connectionStatus :=
      { device.connectionStatus with
        changedNodes := logoff.nodes.foldl
          (fun changed node =>
            if node.networkNodeId = 0 then changed
            else BitSlots.take changed (node.networkNodeId - 1)) old
        status := .connectedAsClient } }

def refresh (logoff : EAPoLLogoff) : Device :=
  let old := device.connectionStatus.nodeBitmask
  let device :=
    { device with
      networkInfo := { device.networkInfo with totalNodes := logoff.connectedNodes }
      connectionStatus :=
        { device.connectionStatus with
          totalNodes := logoff.connectedNodes
          nodes := List.replicate udsMaxNodes 0
          nodeBitmask := 0 }
      nodeInfo := List.replicate device.networkInfo.maxNodes .empty }
  let device := logoff.nodes.foldl enterNode device
  { device with
    connectionStatus :=
      { device.connectionStatus with
        changedNodes := old ^^^ device.connectionStatus.nodeBitmask } }

def handleEAPoLLogoff (logoff : EAPoLLogoff) :
    Device :=
  match device.connectionStatus.status with
  | .connecting => device.join transmitter logoff
  | .connectedAsClient => device.refresh logoff
  | _ => device

def sendAssociationResponseFrame (address : MacAddress) : Sends :=
  if device.connectionStatus.status ≠ .connectedAsHost then []
  else [(address, .associationResponse .successful 1)]

def handleAuthenticationFrame (seq : AuthenticationSeq) : Device × Sends :=
  if seq ≠ .seq1 then (device, [])
  else if device.connectionStatus.status ≠ .connectedAsHost then (device, [])
  else if lookup device.nodeMap transmitter ≠ none then (device, [])
  else if device.connectionStatus.maxNodes = device.connectionStatus.totalNodes then (device, [])
  else
    let device := { device with nodeMap := assign device.nodeMap transmitter ⟨false, 0⟩ }
    (device,
      (transmitter, .authentication .seq2) :: device.sendAssociationResponseFrame transmitter)

/-- What the host does once it lets the client under `nodeId` go; `index` is where its
information stands. -/
def release (nodeId index : Nat) : Device :=
  { device with
    connectionStatus :=
      { device.connectionStatus with
        nodeBitmask := BitSlots.giveBack device.connectionStatus.nodeBitmask (nodeId - 1)
        changedNodes := BitSlots.take device.connectionStatus.changedNodes (nodeId - 1)
        totalNodes := device.connectionStatus.totalNodes - 1
        nodes := device.connectionStatus.nodes.set (nodeId - 1) 0 }
    networkInfo := { device.networkInfo with totalNodes := device.networkInfo.totalNodes - 1 }
    nodeInfo := device.nodeInfo.set index .empty }

def handleDeauthenticationFrame : Device :=
  if device.connectionStatus.status ≠ .connectedAsHost then device
  else
    match lookup device.nodeMap transmitter with
    | none => device
    | some node =>
      let device := { device with nodeMap := erase device.nodeMap transmitter }
      if ¬ node.connected then device
      else
        match device.nodeInfo.findIdx? fun info => info.networkNodeId == node.nodeId with
        | none => device
        | some index => device.release node.nodeId index

/-- `OnWifiPacketReceived`. -/
def receive : Frame → Exec (Device × Sends)
  | .authentication seq => .ok (device.handleAuthenticationFrame transmitter seq)
  | .associationResponse status associationId =>
    device.handleAssociationResponseFrame transmitter status associationId
  | .eapolStart _ node => device.handleEAPoLStart transmitter node
  | .eapolLogoff logoff => .ok (device.handleEAPoLLogoff transmitter logoff, [])
  | .deauthentication => .ok (device.handleDeauthenticationFrame transmitter, [])
  | .nodeMap entries => .ok (device.handleNodeMapPacket entries, [])

def beginHostingNetwork (address : MacAddress) (maxNodes : Nat) :
    Exec Device := do
  assert .beginHosting (maxNodes > 1)
  return { device with
    connectionStatus :=
      { device.connectionStatus with
        status := .connectedAsHost
        maxNodes := maxNodes
        totalNodes := 1
        networkNodeId := 1
        nodes := device.connectionStatus.nodes.set 0 1
        nodeBitmask := BitSlots.take device.connectionStatus.nodeBitmask 0
        changedNodes := BitSlots.take device.connectionStatus.changedNodes 0 }
    currentNode := { device.currentNode with networkNodeId := 1 }
    networkInfo := { hostMacAddress := address, totalNodes := 1, maxNodes := maxNodes }
    nodeInfo := (List.replicate maxNodes NodeInfo.empty).set 0
      { device.currentNode with networkNodeId := 1 } }

/-- `ConnectToNetwork` and `StartConnectionSequence`. -/
def connectToNetwork (networkInfo : NetworkInfo) : Device × Sends :=
  ({ device with
      networkInfo := networkInfo
      connectionStatus := { device.connectionStatus with status := .connecting } },
    [(networkInfo.hostMacAddress, .authentication .seq1)])

/-- `DisconnectNetwork` on a device that is not the host. -/
def disconnectNetwork : Device × Sends :=
  ({ device with
      connectionStatus := .reset .notConnected device.connectionStatus.networkNodeId
      nodeMap := [] },
    [(device.networkInfo.hostMacAddress, .deauthentication)])

end Device

end EmuThreeDS.Uds
