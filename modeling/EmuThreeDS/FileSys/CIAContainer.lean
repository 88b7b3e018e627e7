import EmuThreeDS.Exec
import EmuThreeDS.Common.Bytes

/-!
# CIA containers

`cia_container.cpp`, `Ticket::Load` and `TitleMetadata::Load`. A loaded part is kept as its bytes;
`size_t` and `u64` are numbers below 2^64. Reading past the end of a vector is undefined.
-/
namespace EmuThreeDS.FileSys

inductive ResultStatus where
  | success | error | errorInvalidFormat
  deriving DecidableEq

def wordSize : Nat := 0x10000000000000000

def sub64 (a b : Nat) : Nat := (a + wordSize - b) % wordSize

/-- `AlignUp` for a type of values below `word`. -/
def alignUp (word value size : Nat) : Nat :=
  if value % size = 0 then value else (value - value % size + size) % word

def slice (data : List UInt8) (offset size : Nat) : Exec (List UInt8) :=
  if offset + size ≤ data.length then .ok ((data.drop offset).take size)
  else .error .undefinedBehaviour

section

variable {n offset : Nat} {data : List UInt8}

theorem slice_eq (inside : offset + n ≤ data.length) :
    slice data offset n = .ok ((data.drop offset).take n) := if_pos inside

theorem slice_past (outside : data.length < offset + n) :
    slice data offset n = .error .undefinedBehaviour := if_neg (Nat.not_le.mpr outside)

theorem sub64_eq (order : offset ≤ n) (small : n < wordSize) : sub64 n offset = n - offset := by
  unfold sub64 wordSize at *
  omega

theorem sub64_past (past : n < offset) (word : offset < wordSize) :
    sub64 n offset = n + wordSize - offset := by
  unfold sub64 wordSize at *
  omega

end

def field (bytes : List UInt8) (offset size : Nat) : Nat :=
  leValue ((bytes.drop offset).take size)

def getSignatureSize (signatureType : Nat) : Nat :=
  if signatureType = 0x10000 ∨ signatureType = 0x10003 then 0x200
  else if signatureType = 0x10001 ∨ signatureType = 0x10004 then 0x100
  else if signatureType = 0x10002 ∨ signatureType = 0x10005 then 0x3C
  else 0

structure Signed where
  signatureType : Nat
  signature : List UInt8
  body : List UInt8
  deriving DecidableEq

/-- The body starts at the first multiple of 0x40 behind the signature. -/
def bodyStart (signatureSize : Nat) : Nat := alignUp wordSize (signatureSize + 4) 0x40

/-- `Ticket::Load`, and `TitleMetadata::Load` down to its content chunks. -/
def Signed.load (bodySize : Nat) (old : Signed) (data : List UInt8) (offset : Nat) :
    Exec (ResultStatus × Signed) := do
  let totalSize := sub64 data.length offset
  if totalSize < 4 then return (.error, old)
  else
    let signatureType := beValue (← slice data offset 4)
    let signatureSize := getSignatureSize signatureType
    if signatureSize = 0 then return (.error, { old with signatureType })
    else if totalSize < bodyStart signatureSize + bodySize then
      return (.error, { old with signatureType })
    else
      let signature ← slice data (offset + 4) signatureSize
      let body ← slice data (offset + bodyStart signatureSize) bodySize
      return (.success, ⟨signatureType, signature, body⟩)

def ticketBodySize : Nat := 0x210
def tmdBodySize : Nat := 0x9C4
def contentChunkSize : Nat := 0x30

structure TitleMetadata where
  signed : Signed
  chunks : List (List UInt8)
  deriving DecidableEq

def contentCount (body : List UInt8) : Nat := beValue ((body.drop 0x9E).take 2)

def loadChunks (data : List UInt8) : Nat → Nat → Exec (List (List UInt8))
  | 0, _ => .ok []
  | count + 1, offset => do
    let chunk ← slice data offset contentChunkSize
    let chunks ← loadChunks data count (offset + contentChunkSize)
    return chunk :: chunks

def TitleMetadata.load (old : TitleMetadata) (data : List UInt8) (offset : Nat) :
    Exec (ResultStatus × TitleMetadata) := do
  let (result, signed) ← old.signed.load tmdBodySize data offset
  if result ≠ .success then return (result, { old with signed })
  else
    let bodyEnd := bodyStart (getSignatureSize signed.signatureType) + tmdBodySize
    let count := contentCount signed.body
    if sub64 data.length offset < bodyEnd + count * contentChunkSize then
      return (.errorInvalidFormat, { old with signed })
    else
      let chunks ← loadChunks data count (offset + bodyEnd)
      return (.success, ⟨signed, old.chunks ++ chunks⟩)

def headerSize : Nat := 0x2020
def metadataSize : Nat := 0x400
def sectionAlignment : Nat := 0x40

structure CIAContainer where
  header : List UInt8
  metadata : List UInt8
  ticket : Signed
  tmd : TitleMetadata
  deriving DecidableEq

/-! The fields of the header and the offsets of the sections. -/
section

variable (header : List UInt8)

def certSize : Nat := field header 8 4
def tikSize : Nat := field header 0xC 4
def tmdSize : Nat := field header 0x10 4
def metaSize : Nat := field header 0x14 4
def contentSize : Nat := field header 0x18 8

def getCertificateOffset : Nat := alignUp 0x100000000 (field header 0 4) sectionAlignment

def getTicketOffset : Nat :=
  alignUp wordSize ((getCertificateOffset header + certSize header) % wordSize) sectionAlignment

def getTitleMetadataOffset : Nat :=
  alignUp wordSize ((getTicketOffset header + tikSize header) % wordSize) sectionAlignment

def getContentOffset : Nat :=
  alignUp wordSize ((getTitleMetadataOffset header + tmdSize header) % wordSize) sectionAlignment

def getMetadataOffset : Nat :=
  alignUp wordSize ((getContentOffset header + contentSize header) % wordSize) sectionAlignment

end

namespace CIAContainer

variable (c : CIAContainer) (data : List UInt8) (offset : Nat)

def loadHeader : Exec (ResultStatus × CIAContainer) := do
  if sub64 data.length offset < headerSize then return (.error, c)
  else
    let header ← slice data 0 headerSize
    return (.success, { c with header })

def loadTicket : Exec (ResultStatus × CIAContainer) := do
  let (result, ticket) ← c.ticket.load ticketBodySize data offset
  return (result, { c with ticket })

def loadTitleMetadata : Exec (ResultStatus × CIAContainer) := do
  let (result, tmd) ← c.tmd.load data offset
  return (result, { c with tmd })

def loadMetadata : Exec (ResultStatus × CIAContainer) := do
  if sub64 data.length offset < metadataSize then return (.error, c)
  else
    let metadata ← slice data 0 metadataSize
    return (.success, { c with metadata })

def onSuccess (x : Exec (ResultStatus × CIAContainer))
    (next : CIAContainer → Exec (ResultStatus × CIAContainer)) :
    Exec (ResultStatus × CIAContainer) := do
  let r ← x
  if r.1 = .success then next r.2 else return r

/-- `FileBackend::Read`: the bytes read, or an error code. -/
abbrev BackendRead := Nat → Nat → Except Nat (List UInt8)

def readAll (read : BackendRead) (offset length : Nat)
    (next : List UInt8 → Exec (ResultStatus × CIAContainer)) : Exec (ResultStatus × CIAContainer) :=
  match read offset length with
  | .ok bytes => if bytes.length = length then next bytes else .ok (.error, c)
  | .error _ => .ok (.error, c)

def loadBackend (read : BackendRead) : Exec (ResultStatus × CIAContainer) :=
  onSuccess (c.readAll read 0 headerSize fun bytes => c.loadHeader bytes 0) fun c =>
  onSuccess (c.readAll read (getTicketOffset c.header) (tikSize c.header) fun bytes =>
    c.loadTicket bytes 0) fun c =>
  onSuccess (c.readAll read (getTitleMetadataOffset c.header) (tmdSize c.header) fun bytes =>
    c.loadTitleMetadata bytes 0) fun c =>
  if metaSize c.header ≠ 0 then
    c.readAll read (getMetadataOffset c.header) metadataSize fun bytes => c.loadMetadata bytes 0
  else .ok (.success, c)

/-- The position of an `IOFile` after `Seek`: `off_t` has no room for more, and the seek fails. -/
def seek (position offset : Nat) : Nat := if offset < 0x8000000000000000 then offset else position

def readBytes (position length : Nat) : List UInt8 :=
  (data.drop position).take length

def loadFile : Exec (ResultStatus × CIAContainer) :=
  let bytes := readBytes data 0 headerSize
  if bytes.length ≠ headerSize then .ok (.error, c)
  else onSuccess (c.loadHeader bytes 0) fun c =>
  let position := seek headerSize (getTicketOffset c.header)
  let bytes := readBytes data position (tikSize c.header)
  if bytes.length ≠ tikSize c.header then .ok (.error, c)
  else onSuccess (c.loadTicket bytes 0) fun c =>
  let position := seek (position + tikSize c.header) (getTitleMetadataOffset c.header)
  let bytes := readBytes data position (tmdSize c.header)
  if bytes.length ≠ tmdSize c.header then .ok (.error, c)
  else onSuccess (c.loadTitleMetadata bytes 0) fun c =>
  if metaSize c.header ≠ 0 then
    let position := seek (position + tmdSize c.header) (getMetadataOffset c.header)
    let bytes := readBytes data position metadataSize
    if bytes.length ≠ metadataSize then .ok (.error, c)
    else c.loadMetadata bytes 0
  else .ok (.success, c)

def loadVector : Exec (ResultStatus × CIAContainer) :=
  onSuccess (c.loadHeader data 0) fun c =>
  onSuccess (c.loadTicket data (getTicketOffset c.header)) fun c =>
  onSuccess (c.loadTitleMetadata data (getTitleMetadataOffset c.header)) fun c =>
  if metaSize c.header ≠ 0 then c.loadMetadata data (getMetadataOffset c.header)
  else .ok (.success, c)

end CIAContainer
end EmuThreeDS.FileSys
