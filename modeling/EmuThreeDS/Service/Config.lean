import EmuThreeDS.Common.Bytes
import EmuThreeDS.Exec
import EmuThreeDS.Lib.Blit

/-!
# Config blocks

The config file buffer of `cfg.cpp`: a header with a table of block entries, and behind it the
data of the blocks that do not fit into their entry. The buffer is given as its bytes; a copy that
leaves it is undefined.
-/
namespace EmuThreeDS
open Blit

/-- The buffer, of which the first `savefileSize` bytes exist. -/
abbrev ConfigBuffer := Nat → UInt8

/-- `unknown` is the code -1. -/
inductive ConfigError where
  | notFound | notAuthorized | invalidSize | unknown

variable (buffer : ConfigBuffer) (i : Nat)

namespace Config

def savefileSize : Nat := 0x8000

def maxBlockEntries : Nat := 1479

def headerSize : Nat := 0x455C

def totalEntries : Nat := leValue (slice buffer 0 2)

def setTotalEntries (value : Nat) : ConfigBuffer :=
  blit buffer 0 (leBytes 2 value)

def dataEntriesOffset : Nat := leValue (slice buffer 2 2)

def setDataEntriesOffset (value : Nat) : ConfigBuffer :=
  blit buffer 2 (leBytes 2 value)

/-- Where `block_entries[i]` is. -/
def entryOffset : Nat := 4 + 12 * i

/-- Where its `offset_or_data` is. -/
def inlineOffset : Nat := entryOffset i + 4

def blockId : Nat := leValue (slice buffer (entryOffset i) 4)

def offsetOrData : Nat :=
  leValue (slice buffer (inlineOffset i) 4)

def blockSize : Nat :=
  leValue (slice buffer (entryOffset i + 8) 2)

def blockFlags : Nat :=
  leValue (slice buffer (entryOffset i + 10) 2)

def setEntry (i id offset size flags : Nat) : ConfigBuffer :=
  blit buffer (entryOffset i) (leBytes 4 id ++ leBytes 4 offset ++ leBytes 2 size ++ leBytes 2 flags)

def setOffsetOrData (i value : Nat) : ConfigBuffer :=
  blit buffer (inlineOffset i) (leBytes 4 value)

/-- `memcpy` of the first `size` bytes of the data into the buffer. -/
def copyInto (offset : Nat) (data : List UInt8) (size : Nat) :
    Exec ConfigBuffer :=
  if size ≤ data.length ∧ offset + size ≤ savefileSize then
    .ok (blit buffer offset (data.take size))
  else .error .undefinedBehaviour

def copyFrom (offset size : Nat) : Exec (List UInt8) :=
  if offset + size ≤ savefileSize then .ok (slice buffer offset size)
  else .error .undefinedBehaviour

/-- The place of the data, in the buffer. -/
def getConfigInfoBlockPointer (id size flag : Nat) :
    Except ConfigError Nat :=
  match (List.range maxBlockEntries).find? fun i => blockId buffer i == id with
  | none => .error .notFound
  | some i =>
    if blockFlags buffer i &&& flag = 0 then .error .notAuthorized
    else if blockSize buffer i ≠ size then .error .invalidSize
    else if blockSize buffer i ≤ 4 then .ok (inlineOffset i)
    else .ok (offsetOrData buffer i)

def getConfigInfoBlock (id size flag : Nat) :
    Exec (Except ConfigError (List UInt8)) :=
  match getConfigInfoBlockPointer buffer id size flag with
  | .error e => return .error e
  | .ok pointer => return .ok (← copyFrom buffer pointer size)

def setConfigInfoBlock (id size flag : Nat) (input : List UInt8) :
    Exec (Except ConfigError Unit × ConfigBuffer) :=
  match getConfigInfoBlockPointer buffer id size flag with
  | .error e => return (.error e, buffer)
  | .ok pointer => return (.ok (), ← copyInto buffer pointer input size)

def nextOffset (buffer : ConfigBuffer) : Nat → Nat
  | 0 => dataEntriesOffset buffer
  | i + 1 =>
    if blockSize buffer i > 4 then add32 (offsetOrData buffer i) (blockSize buffer i)
    else nextOffset buffer i

def createConfigInfoBlk (id size flags : Nat) (data : List UInt8) :
    Exec (Except ConfigError Unit × ConfigBuffer) :=
  let n := totalEntries buffer
  if n ≥ maxBlockEntries then return (.error .unknown, buffer)
  else
    let entered := setEntry buffer n id 0 size flags
    if size > 4 then do
      let offset := nextOffset entered n
      let copied ← copyInto (setOffsetOrData entered n offset) offset data size
      return (.ok (), setTotalEntries copied (totalEntries copied + 1))
    else do
      let copied ← copyInto entered (inlineOffset n) data size
      return (.ok (), setTotalEntries copied (totalEntries copied + 1))

def emptyHeader : ConfigBuffer := setDataEntriesOffset (fun _ => 0) headerSize

end Config
end EmuThreeDS
