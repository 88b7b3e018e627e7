import EmuThreeDS.Exec
import EmuThreeDS.Lib.LexicalPath
import EmuThreeDS.Common.StringUtil

/-!
# Guest paths

`Path` of `archive_backend.cpp` and `path_parser.cpp`. Strings are byte strings, as the host's
are; an exception that leaves the constructors is a fault. The host file system is what it
answers to `Exists` and `IsDirectory`.
-/
namespace EmuThreeDS
namespace FileSys

open LexicalPath

abbrev Bytes := List UInt8

def ascii (c : Char) : UInt8 := c.toNat.toUInt8

def slash : UInt8 := ascii '/'
def dot : UInt8 := ascii '.'

inductive LowPathType where
  | invalid | empty | binary | char | wchar
  /-- A number the guest sent that names no type. -/
  | unknown
  deriving DecidableEq

structure Path where
  type : LowPathType
  binary : Bytes
  string : Bytes
  u16str : List UInt16

/-- `memcpy` into `char16_t` units, on a little-endian host. -/
def units : Bytes → List UInt16
  | low :: high :: rest => (low.toUInt16 ||| high.toUInt16 <<< 8) :: units rest
  | _ => []

/-- `Path::Path`: the sizes are unsigned, so that too short data asks `resize` for more than a
string can hold. -/
def Path.make (type : LowPathType) (data : Bytes) : Exec Path :=
  match type with
  | .binary => .ok ⟨type, data, [], []⟩
  | .char =>
    if data.length < 1 then .error .uncaughtException
    else .ok ⟨type, [], data.take (data.length - 1), []⟩
  | .wchar =>
    if data.length / 2 < 1 then .error .uncaughtException
    else .ok ⟨type, [], [], units (data.take (2 * (data.length / 2 - 1)))⟩
  | _ => .ok ⟨type, [], [], []⟩

def encodeUtf8 (c : Nat) : Bytes :=
  if c < 0x80 then [c.toUInt8]
  else if c < 0x800 then [(0xC0 + c / 0x40).toUInt8, (0x80 + c % 0x40).toUInt8]
  else if c < 0x10000 then
    [(0xE0 + c / 0x1000).toUInt8, (0x80 + c / 0x40 % 0x40).toUInt8, (0x80 + c % 0x40).toUInt8]
  else
    [(0xF0 + c / 0x40000).toUInt8, (0x80 + c / 0x1000 % 0x40).toUInt8,
      (0x80 + c / 0x40 % 0x40).toUInt8, (0x80 + c % 0x40).toUInt8]

def isHighSurrogate (u : UInt16) : Bool := 0xD800 ≤ u ∧ u < 0xDC00
def isLowSurrogate (u : UInt16) : Bool := 0xDC00 ≤ u ∧ u < 0xE000

/-- `Common::UTF16ToUTF8`: `wstring_convert` throws on a surrogate without its partner. -/
def utf16ToUtf8 : List UInt16 → Exec Bytes
  | [] => .ok []
  | u :: rest =>
    if isLowSurrogate u then .error .uncaughtException
    else if isHighSurrogate u then
      match rest with
      | [] => .error .uncaughtException
      | low :: rest =>
        if isLowSurrogate low then do
          let tail ← utf16ToUtf8 rest
          return encodeUtf8 (0x10000 + (u.toNat - 0xD800) * 0x400 + (low.toNat - 0xDC00)) ++ tail
        else .error .uncaughtException
    else do
      let tail ← utf16ToUtf8 rest
      return encodeUtf8 u.toNat ++ tail

def Path.asString (path : Path) : Exec Bytes :=
  match path.type with
  | .char => .ok path.string
  | .wchar => utf16ToUtf8 path.u16str
  | _ => .ok []

def invalidChars : List UInt8 :=
  [ascii '<', ascii '>', ascii '\\', ascii '|', ascii ':', ascii '"', ascii '*', ascii '?']

structure PathParser where
  pathSequence : List Bytes
  isValid : Bool
  isRoot : Bool

def levelLoop (level : Int) : List Bytes → Option Int
  | [] => some level
  | node :: rest =>
    if node = [dot, dot] then
      if level - 1 < 0 then none else levelLoop (level - 1) rest
    else levelLoop (level + 1) rest

/-- The constructor of `PathParser` from the string on. -/
def PathParser.ofString (pathString : Bytes) : PathParser :=
  if pathString.length = 0 ∨ pathString.head? ≠ some slash then ⟨[], false, false⟩
  else if pathString.any (invalidChars.contains ·) then ⟨[], false, false⟩
  else
    let pathSequence := (Common.splitString slash pathString).filter (isName dot)
    match levelLoop 0 pathSequence with
    | none => ⟨pathSequence, false, false⟩
    | some level => ⟨pathSequence, true, level = 0⟩

def PathParser.make (path : Path) : Exec PathParser :=
  if path.type ≠ .char ∧ path.type ≠ .wchar then .ok ⟨[], false, false⟩
  else PathParser.ofString <$> path.asString

/-- `if (path.back() != '/') path += '/'; path += node;`, where an empty string has no `back`. -/
def appendNode (path node : Bytes) : Exec Bytes :=
  match path.getLast? with
  | none => .error .undefinedBehaviour
  | some last => .ok (if last ≠ slash then path ++ slash :: node else path ++ node)

def PathParser.buildHostPath (parser : PathParser) (mountPoint : Bytes) : Exec Bytes :=
  parser.pathSequence.foldlM appendNode mountPoint

inductive HostStatus where
  | invalidMountPoint | pathNotFound | fileInPath | fileFound | directoryFound | notFound

structure Host where
  exist : Bytes → Bool
  isDirectory : Bytes → Bool

/-- The loop of `GetHostStatus` and what follows it, with the paths that were tested. -/
def hostStatusLoop (host : Host) (path : Bytes) : List Bytes → Exec (HostStatus × List Bytes)
  | [] => .ok (.directoryFound, [])
  | [last] =>
    let path := path ++ slash :: last
    if ¬ host.exist path then .ok (.notFound, [path])
    else if host.isDirectory path then .ok (.directoryFound, [path])
    else .ok (.fileFound, [path])
  | node :: next :: rest => do
    let path ← appendNode path node
    if ¬ host.exist path then return (.pathNotFound, [path])
    else if host.isDirectory path then
      let (status, tested) ← hostStatusLoop host path (next :: rest)
      return (status, path :: tested)
    else return (.fileInPath, [path])

/-- `GetHostStatus`, with the paths that were tested. -/
def PathParser.getHostStatus (parser : PathParser) (host : Host) (mountPoint : Bytes) :
    Exec (HostStatus × List Bytes) := do
  if ¬ host.isDirectory mountPoint then return (.invalidMountPoint, [mountPoint])
  else
    let (status, tested) ← hostStatusLoop host mountPoint parser.pathSequence
    return (status, mountPoint :: tested)

end FileSys
end EmuThreeDS
