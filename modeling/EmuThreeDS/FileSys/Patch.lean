import EmuThreeDS.Common.Buffers
import EmuThreeDS.FileSys.CIAContainer
import EmuThreeDS.Lib.StepLoop

/-!
# Code patches

`patch.cpp`. Both functions return whether the patch was applied, and what it left in the buffer.
-/
namespace EmuThreeDS.FileSys.Patch

open StepLoop

/-- `"PATCH"` and `"EOF"`. -/
def ipsHeader : List UInt8 := [0x50, 0x41, 0x54, 0x43, 0x48]

def ipsEof : List UInt8 := [0x45, 0x4F, 0x46]

structure IpsState where
  cursor : Nat
  buffer : List UInt8

section

variable (ips : List UInt8)

/-- Some bytes from `cursor` on, the highest first. -/
def bigEndian (cursor size : Nat) : Exec Nat := do
  let bytes ← slice ips cursor size
  return beValue bytes

/-- The loop that writes one byte of the patch from `offset` on. -/
def fill (source : Nat) : Nat → Nat → List UInt8 → Exec (List UInt8)
  | 0, _, buffer => .ok buffer
  | left + 1, offset, buffer => do
    let data ← Buffer.get ips source
    let buffer ← Buffer.set buffer offset data
    fill source left (offset + 1) buffer

def rleRecord (offset : Nat) (s : IpsState) : Exec ((Bool × List UInt8) ⊕ IpsState) := do
  let length ← bigEndian ips (s.cursor + 5) 2
  if s.buffer.length < offset + length then return .inl (false, s.buffer)
  else
    let buffer ← fill ips (s.cursor + 7) length offset s.buffer
    return .inr ⟨s.cursor + 8, buffer⟩

def dataRecord (offset length : Nat) (s : IpsState) : Exec ((Bool × List UInt8) ⊕ IpsState) :=
  if s.buffer.length < offset + length then .ok (.inl (false, s.buffer))
  else do
    let data ← slice ips (s.cursor + 5) length
    let buffer ← Buffer.write s.buffer offset data
    return .inr ⟨s.cursor + length + 5, buffer⟩

def ipsRecord (s : IpsState) : Exec ((Bool × List UInt8) ⊕ IpsState) :=
  if s.cursor < sub64 ips.length 3 then do
    let eofCheck ← slice ips s.cursor 3
    if eofCheck = ipsEof then return .inl (false, s.buffer)
    else
      let offset ← bigEndian ips s.cursor 3
      let length ← bigEndian ips (s.cursor + 3) 2
      if length = 0 then rleRecord ips offset s else dataRecord ips offset length s
  else .ok (.inl (true, s.buffer))

def applyIpsPatch (fuel : Nat) (buffer : List UInt8) : Exec (Bool × List UInt8) := do
  let header ← slice ips 0 5
  if header ≠ ipsHeader then return (false, buffer)
  else loop .outOfFuel (ipsRecord ips) fuel ⟨5, buffer⟩

end

namespace Bps

/-- `"BPS1"`. -/
def magic : List UInt8 := [0x42, 0x50, 0x53, 0x31]

def footerSize : Nat := 12

structure Stream where
  data : List UInt8
  offset : Nat

namespace Stream

variable (s : Stream)

def read (length : Nat) : Option (List UInt8 × Stream) :=
  if s.data.length < s.offset + length then none
  else some ((s.data.drop s.offset).take length, { s with offset := s.offset + length })

def copyFrom (other : Stream) (length : Nat) : Option (Stream × Stream) :=
  if s.data.length < s.offset + length then none
  else (other.read length).map fun (bytes, other) =>
    ({ data := s.data.take s.offset ++ bytes ++ s.data.drop (s.offset + length)
       offset := s.offset + length }, other)

/-- What `operator*` of the optional returns is undefined where there is nothing. -/
def readWord (length : Nat) : Exec (List UInt8 × Stream) :=
  match s.read length with
  | some r => .ok r
  | none => .error .undefinedBehaviour

/-- The loop of `ReadNumber` over the bytes that are left, with the number of those read. -/
def digits (data shift : Nat) : List UInt8 → Nat × Nat
  | [] => (data, 0)
  | x :: rest =>
    let data := add32 data (mul32 (x &&& 0x7F).toNat shift)
    if x &&& 0x80 ≠ 0 then (data, 1)
    else
      let shift := mul32 shift 0x80
      let r := digits (add32 data shift) shift rest
      (r.1, r.2 + 1)

def readNumber : Nat × Stream :=
  let r := digits 0 1 (s.data.drop s.offset)
  (r.1, { s with offset := s.offset + r.2 })

/-- `Seek`, which leaves the stream where it is when it returns false. -/
def seek (offset : Nat) : Option Stream :=
  if s.data.length < offset then none else some { s with offset }

end Stream

structure PatchApplier where
  sourceRelativeOffset : Nat
  targetRelativeOffset : Nat
  source : Stream
  target : Stream
  patch : Stream

/-- `offset += (data & 1 ? -1 : +1) * int(data >> 1)`. -/
def moveBy (offset data : Nat) : Nat :=
  if data % 2 = 1 then sub64 offset (data / 2) else (offset + data / 2) % wordSize

def copyBytes : Nat → Nat → Nat → List UInt8 → Exec (Nat × List UInt8)
  | 0, _, targetRelativeOffset, data => .ok (targetRelativeOffset, data)
  | left + 1, i, targetRelativeOffset, data => do
    let byte ← Buffer.get data targetRelativeOffset
    let data ← Buffer.set data i byte
    copyBytes left (i + 1) ((targetRelativeOffset + 1) % wordSize) data

namespace PatchApplier

variable (a : PatchApplier)

def sourceRead (length : Nat) : Bool × PatchApplier :=
  match a.source.seek a.target.offset with
  | none => (false, a)
  | some source =>
    match a.target.copyFrom source length with
    | none => (false, { a with source })
    | some (target, source) => (true, { a with target, source })

def targetRead (length : Nat) : Bool × PatchApplier :=
  match a.target.copyFrom a.patch length with
  | none => (false, a)
  | some (target, patch) => (true, { a with target, patch })

def sourceCopy (length : Nat) : Bool × PatchApplier :=
  let (data, patch) := a.patch.readNumber
  let offset := moveBy a.sourceRelativeOffset data
  let a := { a with patch, sourceRelativeOffset := offset }
  match a.source.seek offset with
  | none => (false, a)
  | some source =>
    match a.target.copyFrom source length with
    | none => (false, { a with source })
    | some (target, source) =>
      (true, { a with target, source, sourceRelativeOffset := (offset + length) % wordSize })

def targetCopy (length : Nat) : Exec (Bool × PatchApplier) :=
  let (data, patch) := a.patch.readNumber
  let offset := moveBy a.targetRelativeOffset data
  let a := { a with patch, targetRelativeOffset := offset }
  if a.target.data.length < a.target.offset + length then .ok (false, a)
  else if a.target.data.length < (offset + length) % wordSize then .ok (false, a)
  else do
    let (offset, bytes) ← copyBytes length a.target.offset offset a.target.data
    let target := ⟨bytes, a.target.offset + length⟩
    return (true, { a with target, targetRelativeOffset := offset })

def handleCommand : Exec (Bool × PatchApplier) :=
  let (data, patch) := a.patch.readNumber
  let a := { a with patch }
  let length := data / 4 + 1
  match data % 4 with
  | 0 => .ok (a.sourceRead length)
  | 1 => .ok (a.targetRead length)
  | 2 => .ok (a.sourceCopy length)
  | _ => a.targetCopy length

/-- A turn of the loop over the commands; the answer is what the loop leaves, and whether all
commands were handled. -/
def command (commandEndOffset : Nat) (a : PatchApplier) :
    Exec ((Bool × PatchApplier) ⊕ PatchApplier) :=
  if a.patch.offset < commandEndOffset then do
    let (ok, a) ← a.handleCommand
    if ok then return .inr a else return .inl (false, a)
  else .ok (.inl (true, a))

/-- `Apply` behind the checks of the header, with what is in the target at the end. -/
def run (crc32 : List UInt8 → UInt32) (fuel sourceSize targetSize : Nat) :
    Exec (Bool × List UInt8) := do
  let commandStartOffset := a.patch.offset
  let commandEndOffset := sub64 a.patch.data.length footerSize
  let patch := (a.patch.seek commandEndOffset).getD a.patch
  let (sourceCrc32, patch) ← patch.readWord 4
  let (targetCrc32, patch) ← patch.readWord 4
  let patch := (patch.seek commandStartOffset).getD patch
  if (crc32 (a.source.data.take sourceSize)).toNat ≠ leValue sourceCrc32 then
    return (false, a.target.data)
  else
    let target := { a.target with data := List.replicate a.target.data.length 0 }
    let (ok, a) ← loop .outOfFuel (command commandEndOffset) fuel { a with patch, target }
    return (ok && (crc32 (a.target.data.take targetSize)).toNat == leValue targetCrc32,
      a.target.data)

def apply (crc32 : List UInt8 → UInt32) (fuel : Nat) : Exec (Bool × List UInt8) := do
  let (read, patch) ← a.patch.readWord 4
  if read ≠ magic then return (false, a.target.data)
  else
    let (sourceSize, patch) := patch.readNumber
    let (targetSize, patch) := patch.readNumber
    let (metadataSize, patch) := patch.readNumber
    if a.source.data.length < sourceSize ∨ a.target.data.length < targetSize ∨ metadataSize ≠ 0 then
      return (false, a.target.data)
    else ({ a with patch } : PatchApplier).run crc32 fuel sourceSize targetSize

end PatchApplier
end Bps

open Bps in
def applyBpsPatch (crc32 : List UInt8 → UInt32) (fuel : Nat) (patch buffer : List UInt8) :
    Exec (Bool × List UInt8) :=
  let patchStream : Stream := ⟨patch, 0⟩
  let (sourceSize, behind) := ((patchStream.seek 4).getD patchStream).readNumber
  let (targetSize, _) := behind.readNumber
  let buffer := if sourceSize < targetSize then Buffer.resize 0 buffer targetSize else buffer
  PatchApplier.apply ⟨0, 0, ⟨buffer, 0⟩, ⟨buffer, 0⟩, patchStream⟩ crc32 fuel

end EmuThreeDS.FileSys.Patch
