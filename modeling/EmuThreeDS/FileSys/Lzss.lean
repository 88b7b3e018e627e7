import EmuThreeDS.Common.Buffers
import EmuThreeDS.FileSys.CIAContainer

/-!
# Compressed code sections

`LZSS_GetDecompressedSize` and `LZSS_Decompress` of `ncch_container.cpp`, and what
`LoadSectionExeFS` does with a compressed `.code` section once it is read and decrypted. The
sizes are those of the buffers.
-/
namespace EmuThreeDS.FileSys

def wordFromEnd (buffer : List UInt8) (behind : Nat) : Exec Nat :=
  if buffer.length < behind then .error .undefinedBehaviour
  else do
    let bytes ← slice buffer (buffer.length - behind) 4
    return leValue bytes

def lzssGetDecompressedSize (buffer : List UInt8) : Exec Nat := do
  let offsetSize ← wordFromEnd buffer 4
  return add32 offsetSize buffer.length

structure LzssState where
  index : Nat
  out : Nat
  decompressed : List UInt8

namespace LzssState

/-- `decompressed[--out] = data`. -/
def put (s : LzssState) (data : UInt8) : Exec LzssState := do
  let decompressed ← Buffer.set s.decompressed (sub32 s.out 1) data
  return { s with out := sub32 s.out 1, decompressed }

/-- The bytes of a segment. The flag is false where the function returns false. -/
def copySegment (segmentOffset : Nat) : Nat → LzssState → Exec (Bool × LzssState)
  | 0, s => .ok (true, s)
  | left + 1, s =>
    if s.decompressed.length ≤ add32 s.out segmentOffset then .ok (false, s)
    else do
      let data ← Buffer.get s.decompressed (add32 s.out segmentOffset)
      let s ← s.put data
      copySegment segmentOffset left s

section

variable (compressed : List UInt8)

def segment (s : LzssState) : Exec (Bool × LzssState) :=
  if s.index < 2 then .ok (false, s)
  else do
    let s := { s with index := s.index - 2 }
    let low ← Buffer.get compressed s.index
    let high ← Buffer.get compressed (s.index + 1)
    let segmentOffset := leValue [low, high]
    let segmentSize := segmentOffset / 0x1000 % 16 + 3
    let segmentOffset := segmentOffset % 0x1000 + 2
    if s.out < segmentSize then return (false, s)
    else s.copySegment segmentOffset segmentSize

def literal (s : LzssState) : Exec (Bool × LzssState) :=
  if s.out < 1 then .ok (false, s)
  else do
    let index := sub32 s.index 1
    let data ← Buffer.get compressed index
    let s ← { s with index }.put data
    return (true, s)

def token (control : UInt8) (s : LzssState) : Exec (Bool × LzssState) :=
  if control &&& 0x80 ≠ 0 then s.segment compressed else s.literal compressed

/-- The loop over what is left of a control byte. -/
def group (stopIndex : Nat) : Nat → UInt8 → LzssState → Exec (Bool × LzssState)
  | 0, _, s => .ok (true, s)
  | left + 1, control, s =>
    if s.index ≤ stopIndex then .ok (true, s)
    else if s.index ≤ 0 then .ok (true, s)
    else if s.out ≤ 0 then .ok (true, s)
    else do
      let (going, s) ← s.token compressed control
      if going then group stopIndex left (control <<< 1) s else return (false, s)

/-- The outer loop, for `fuel` control bytes at most. -/
def groups (stopIndex : Nat) : Nat → LzssState → Exec (Bool × LzssState)
  | fuel, s =>
    if stopIndex < s.index then
      match fuel with
      | 0 => .error .outOfFuel
      | fuel + 1 => do
        let index := sub32 s.index 1
        let control ← Buffer.get compressed index
        let (going, s) ← { s with index }.group compressed stopIndex 8 control
        if going then groups stopIndex fuel s else return (false, s)
    else .ok (true, s)

end
end LzssState

def lzssDecompress (fuel : Nat) (compressed decompressed : List UInt8) :
    Exec (Bool × List UInt8) := do
  let bufferTopAndBottom ← wordFromEnd compressed 8
  let out := decompressed.length
  let index := sub32 compressed.length (bufferTopAndBottom / 0x1000000 % 0x100)
  let stopIndex := sub32 compressed.length (bufferTopAndBottom % 0x1000000)
  let zeros := List.replicate decompressed.length 0
  let decompressed ← Buffer.copyTo compressed zeros
  let r ← LzssState.groups compressed stopIndex fuel ⟨index, out, decompressed⟩
  return (r.1, r.2.decompressed)

def loadCompressedCode (fuel : Nat) (tempBuffer buffer : List UInt8) :
    Exec (ResultStatus × List UInt8) := do
  let decompressedSize ← lzssGetDecompressedSize tempBuffer
  let buffer := Buffer.resize 0 buffer decompressedSize
  let r ← lzssDecompress fuel tempBuffer buffer
  return (if r.1 then .success else .errorInvalidFormat, r.2)

end EmuThreeDS.FileSys
