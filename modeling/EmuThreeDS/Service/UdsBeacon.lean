import EmuThreeDS.Common.Buffers
import EmuThreeDS.Common.Bytes
import EmuThreeDS.Service.Uds

/-!
# Beacons of local wireless networks (`uds_beacon.cpp`)

The size of the encrypted payload is computed from `NodeInfo` (40 bytes), while it is laid out
with `BeaconNodeInfo` (30 bytes) behind a header of 18: from two nodes on more is copied than there
is. The hashes and the key stream are parameters.
-/
namespace EmuThreeDS.Uds.Beacon

def nintendoOUI : List UInt8 := [0x00, 0x1F, 0x32]
def vendorSpecific : UInt8 := 221
def dummyId : UInt8 := 20
def networkInfoId : UInt8 := 21
def encryptedData0Id : UInt8 := 24
def encryptedData1Id : UInt8 := 25

def applicationDataSize : Nat := 0xC8
def encryptedDataSizeCutoff : Nat := 0xFA
def sizeofNodeInfo : Nat := 40
def sizeofBeaconNodeInfo : Nat := 0x1E
def sizeofBeaconData : Nat := 0x12
def md5Size : Nat := 0x10

/-- The bytes of `NetworkInfo`, with its members at their offsets. -/
abbrev InfoBytes := Vector UInt8 0x108

namespace InfoBytes

def field (info : InfoBytes) (offset size : Nat) : List UInt8 := (info.toList.drop offset).take size

def hostMacAddress (info : InfoBytes) : List UInt8 := field info 0 6
def ouiValue (info : InfoBytes) : List UInt8 := field info 0xC 3
def ouiType (info : InfoBytes) : UInt8 := info[0xF]
def wlanCommId (info : InfoBytes) : List UInt8 := field info 0x10 4
def id (info : InfoBytes) : UInt8 := info[0x14]
def networkId (info : InfoBytes) : List UInt8 := field info 0x18 4
def maxNodes (info : InfoBytes) : Nat := info[0x1D].toNat
def appSize (info : InfoBytes) : Nat := info[0x3F].toNat
def applicationData (info : InfoBytes) : List UInt8 := field info 0x40 applicationDataSize

end InfoBytes

/-- What the Crypto++ functions compute. -/
structure Crypto where
  sha1 : List UInt8 → Vector UInt8 20
  md5 : List UInt8 → Vector UInt8 16
  /-- AES-CTR with the beacon key: the byte of the key stream at a position. -/
  keyStream : List UInt8 → Nat → UInt8

def copyFrom (buffer : List UInt8) (offset size : Nat) : Exec (List UInt8) :=
  if offset + size ≤ buffer.length then .ok ((buffer.drop offset).take size)
  else .error .undefinedBehaviour

def beBytes (size value : Nat) : List UInt8 := (leBytes size value).reverse

variable (crypto : Crypto)

def generateFixedParameters : List UInt8 := leBytes 8 900000000 ++ leBytes 2 100 ++ leBytes 2 0x431

/-- A tag with the length byte that it computes. -/
def tag (id : UInt8) (length : Nat) (content : List UInt8) : List UInt8 :=
  id :: length.toUInt8 :: content

def generateSSIDTag : List UInt8 := tag 0 8 (List.replicate 8 0)

def generateNintendoDummyTag : List UInt8 :=
  tag vendorSpecific 7 (nintendoOUI ++ dummyId :: [0x0A, 0x00, 0x00])

def generateNintendoNetworkInfoTag (info : InfoBytes) : Exec (List UInt8) := do
  assert .beacon (info.ouiType = networkInfoId)
  assert .beacon (info.ouiValue = nintendoOUI)
  assert .beacon (info.appSize ≤ applicationDataSize)
  let data ← copyFrom info.applicationData 0 info.appSize
  let networkInfo := info.field 0xC 0x1F
  let size := info.appSize.toUInt8
  let hash := crypto.sha1 (networkInfo ++ List.replicate 20 0 ++ size :: data)
  return tag vendorSpecific (52 + info.appSize) (networkInfo ++ hash.toList ++ size :: data)

def getBeaconCryptoCTR (info : InfoBytes) : List UInt8 :=
  info.hostMacAddress ++ info.wlanCommId.reverse ++ [info.id, 0] ++ info.networkId.reverse

def processData (info : InfoBytes) (data : List UInt8) : List UInt8 :=
  data.mapIdx fun i byte => byte ^^^ crypto.keyStream (getBeaconCryptoCTR info) i

def nodeBytes (node : NodeInfo) : List UInt8 :=
  beBytes 8 node.friendCodeSeed.toNat ++ node.username.toList.flatMap (beBytes 2 ·.toNat) ++
    beBytes 2 node.networkNodeId

def generatedEncryptedData (info : InfoBytes) (nodes : List NodeInfo) : List UInt8 :=
  let hashed := List.replicate (sizeofBeaconData - md5Size) 0 ++ nodes.flatMap nodeBytes
  processData crypto info ((crypto.md5 hashed).toList ++ hashed)

def generateNintendoFirstEncryptedDataTag (info : InfoBytes) (nodes : List NodeInfo) :
    Exec (List UInt8) := do
  let payloadSize := min encryptedDataSizeCutoff (nodes.length * sizeofNodeInfo)
  let payload ← copyFrom (generatedEncryptedData crypto info nodes) 0 payloadSize
  return tag vendorSpecific (4 + payloadSize) (nintendoOUI ++ encryptedData0Id :: payload)

def generateNintendoSecondEncryptedDataTag (info : InfoBytes) (nodes : List NodeInfo) :
    Exec (List UInt8) :=
  if nodes.length * sizeofNodeInfo ≤ encryptedDataSizeCutoff then .ok []
  else do
    let payloadSize := nodes.length * sizeofNodeInfo - encryptedDataSizeCutoff
    assert .beacon (4 + payloadSize ≤ 255)
    let payload ← copyFrom (generatedEncryptedData crypto info nodes) encryptedDataSizeCutoff
      payloadSize
    return tag vendorSpecific (4 + payloadSize) (nintendoOUI ++ encryptedData1Id :: payload)

def generateNintendoTags (info : InfoBytes) (nodes : List NodeInfo) : Exec (List (List UInt8)) := do
  assert .beacon (info.maxNodes = nodes.length)
  let networkInfoTag ← generateNintendoNetworkInfoTag crypto info
  let firstDataTag ← generateNintendoFirstEncryptedDataTag crypto info nodes
  let secondDataTag ← generateNintendoSecondEncryptedDataTag crypto info nodes
  return [generateNintendoDummyTag, networkInfoTag, firstDataTag, secondDataTag]

def generateBeaconFrame (info : InfoBytes) (nodes : List NodeInfo) : Exec (List UInt8) := do
  let nintendoTags ← generateNintendoTags crypto info nodes
  return generateFixedParameters ++ generateSSIDTag ++ nintendoTags.flatten

def readNode (bytes : List UInt8) : NodeInfo where
  friendCodeSeed := (beValue (bytes.take 8)).toUInt64
  username := Vector.ofFn fun j : Fin 10 => (beValue ((bytes.drop (8 + 2 * j)).take 2)).toUInt16
  networkNodeId := beValue ((bytes.drop 28).take 2)

/-- `DecryptBeaconData` on the contents of two tags, the sizes as `std::size_t`. -/
def decryptBeaconData (info : InfoBytes) (data0 data1 : List UInt8) : Exec (List NodeInfo) := do
  let oui ← copyFrom data0 0 3
  assert .beacon (oui = nintendoOUI)
  let id ← copyFrom data0 3 1
  assert .beacon (id = [encryptedData0Id])
  let first ← copyFrom data0 4 (data0.length - 4)
  -- a second tag that is shorter than its header makes the size wrap
  let second ← copyFrom data1 4 ((data1.length + 2 ^ 64 - 4) % 2 ^ 64)
  let beaconData := processData crypto info (first ++ second)
  let _ ← copyFrom beaconData 0 sizeofBeaconData
  (List.range info.maxNodes).mapM fun i =>
    readNode <$> copyFrom beaconData (sizeofBeaconData + i * sizeofBeaconNodeInfo)
      sizeofBeaconNodeInfo

structure Hosted (info : InfoBytes) (nodes : List NodeInfo) : Prop where
  oui : info.ouiValue = nintendoOUI
  type : info.ouiType = networkInfoId
  data : info.appSize ≤ applicationDataSize
  some : 2 ≤ info.maxNodes
  few : info.maxNodes ≤ udsMaxNodes
  nodes : nodes.length = info.maxNodes

/-- A tag whose length byte is the number of bytes that follow it. -/
def Measured (tag : List UInt8) : Prop :=
  ∃ id length content, tag = id :: length :: content ∧ length.toNat = content.length

/-- The frame is made of measured tags, the last two hold the encrypted records, and from these the
nodes are read back. -/
def CarriesNodes (info : InfoBytes) (nodes : List NodeInfo) : Prop :=
  ∃ tags frame, generateNintendoTags crypto info nodes = .ok tags ∧
    generateBeaconFrame crypto info nodes = .ok frame ∧ (∀ tag ∈ tags, tag = [] ∨ Measured tag) ∧
    ∃ data0 data1, tags.drop 2 = [data0, data1] ∧
      data0.drop 6 ++ data1.drop 6 = generatedEncryptedData crypto info nodes ∧
      decryptBeaconData crypto info (data0.drop 2) (data1.drop 2) = .ok nodes

section

variable {info : InfoBytes} {nodes : List NodeInfo} {buffer data : List UInt8} {offset size : Nat}

theorem copyFrom_within (run : copyFrom buffer offset size = .ok data) :
    offset + size ≤ buffer.length := by
  unfold copyFrom at run
  split_ifs at run with within
  exact within

@[simp] theorem length_beBytes (size value : Nat) : (beBytes size value).length = size := by
  simp [beBytes]

theorem length_nodeBytes (node : NodeInfo) : (nodeBytes node).length = sizeofBeaconNodeInfo := by
  have name : (node.username.toList.flatMap (beBytes 2 ·.toNat)).length = 20 := by
    simp [List.length_flatMap]
  simp [nodeBytes, name, sizeofBeaconNodeInfo]

theorem length_generatedEncryptedData : (generatedEncryptedData crypto info nodes).length =
    sizeofBeaconData + nodes.length * sizeofBeaconNodeInfo := by
  have records : (nodes.flatMap nodeBytes).length = nodes.length * sizeofBeaconNodeInfo := by
    simp [List.length_flatMap, length_nodeBytes]
  simp only [generatedEncryptedData, processData, List.length_mapIdx, List.length_append,
    List.length_replicate, Vector.length_toList, records, sizeofBeaconData, md5Size]
  omega

theorem no_tags (hosted : Hosted info nodes) : ¬ Answers (generateNintendoTags crypto info nodes) := by
  rintro ⟨tags, run⟩
  obtain ⟨_, _, run⟩ := bind_eq_ok.mp run
  obtain ⟨_, _, run⟩ := bind_eq_ok.mp run
  obtain ⟨first, firstRun, run⟩ := bind_eq_ok.mp run
  obtain ⟨second, secondRun, _⟩ := bind_eq_ok.mp run
  obtain ⟨_, payload, _⟩ := bind_eq_ok.mp firstRun
  have inside := copyFrom_within payload
  have some := hosted.some
  rw [← hosted.nodes] at some
  rw [length_generatedEncryptedData] at inside
  simp only [sizeofBeaconData, sizeofBeaconNodeInfo, sizeofNodeInfo, encryptedDataSizeCutoff]
    at inside
  unfold generateNintendoSecondEncryptedDataTag at secondRun
  split_ifs at secondRun with alone
  · simp only [sizeofNodeInfo, encryptedDataSizeCutoff] at alone
    omega
  · obtain ⟨_, _, secondRun⟩ := bind_eq_ok.mp secondRun
    obtain ⟨_, payload, _⟩ := bind_eq_ok.mp secondRun
    have inside := copyFrom_within payload
    rw [length_generatedEncryptedData] at inside
    simp only [sizeofBeaconData, sizeofBeaconNodeInfo, sizeofNodeInfo, encryptedDataSizeCutoff]
      at inside
    omega

end

/-- No beacon of a network carries its nodes: for none a frame is made within the buffers. -/
theorem no_beacon (crypto : Crypto) (info : InfoBytes) (nodes : List NodeInfo)
    (hosted : Hosted info nodes) :
    ¬ Answers (generateBeaconFrame crypto info nodes) ∧ ¬ CarriesNodes crypto info nodes := by
  have none := no_tags crypto hosted
  constructor
  · rintro ⟨frame, run⟩
    obtain ⟨tags, made, _⟩ := bind_eq_ok.mp run
    exact none ⟨tags, made⟩
  · rintro ⟨tags, _, made, _⟩
    exact none ⟨tags, made⟩

def pairInfo : InfoBytes :=
  Vector.ofFn fun i => match i.val with
    | 0xD => 0x1F | 0xE => 0x32 | 0xF => networkInfoId | 0x1D => 2 | _ => 0

def quiet : Crypto where
  sha1 _ := .replicate 20 0
  md5 _ := .replicate 16 0
  keyStream _ _ := 0

set_option maxRecDepth 4096 in
theorem hosted_pair : Hosted pairInfo [NodeInfo.empty, NodeInfo.empty] := by
  constructor <;> decide

theorem no_beacon_pair :
    ¬ Answers (generateBeaconFrame quiet pairInfo [NodeInfo.empty, NodeInfo.empty]) :=
  (no_beacon quiet pairInfo [NodeInfo.empty, NodeInfo.empty] hosted_pair).1

/-- The first tag copies 80 of 78 bytes. -/
theorem first_tag_outside : Hosted pairInfo [NodeInfo.empty, NodeInfo.empty] ∧
    generateNintendoFirstEncryptedDataTag quiet pairInfo [NodeInfo.empty, NodeInfo.empty] =
      .error .undefinedBehaviour ∧
    ¬ Answers (generateBeaconFrame quiet pairInfo [NodeInfo.empty, NodeInfo.empty]) := by
  refine ⟨hosted_pair, ?_, ?_⟩
  · have outside : ¬ 0 + 80 ≤ (generatedEncryptedData quiet pairInfo
        [NodeInfo.empty, NodeInfo.empty]).length := by
      rw [length_generatedEncryptedData]
      decide
    exact congrArg (· >>= _) (if_neg outside)
  · rintro ⟨frame, run⟩
    obtain ⟨tags, made, _⟩ := bind_eq_ok.mp run
    exact no_tags quiet hosted_pair ⟨tags, made⟩

end EmuThreeDS.Uds.Beacon
