import EmuThreeDS.Exec
import EmuThreeDS.Lib.Runs
import Mathlib.Algebra.Group.Int.Defs

/-!
# The sessions of a file

`file.cpp`: one backend, and for each session of the file a slot with the part of it that the
session was opened on. The backend is a parameter; `Reads` is what its header promises of
`Read` and `GetSize`. `Close` is left out.
-/
namespace EmuThreeDS
namespace FileService

inductive ResultCode where
  | unsupportedOpenFlags | writeBeyondEnd | backend (code : Nat)

structure FileBackend (σ : Type) where
  getSize : σ → UInt64
  read : σ → UInt64 → Nat → Except ResultCode (List UInt8)
  write : σ → UInt64 → List UInt8 → Bool → σ × Except ResultCode Nat
  setSize : σ → UInt64 → σ
  flush : σ → σ

/-- `Read` delivers at most `length` bytes, and those that the file has from an `offset` in it on,
unless the open mode refuses it. The backends differ from its end on: some wrap around there. -/
structure FileBackend.Reads {σ : Type} (backend : FileBackend σ) (content : σ → List UInt8)
    (readFlag : σ → Bool) : Prop where
  size : ∀ s, (backend.getSize s).toNat = (content s).length
  read : ∀ s offset length, readFlag s → offset.toNat < (content s).length →
    backend.read s offset length = .ok (((content s).drop offset.toNat).take length)
  few : ∀ s offset length data, backend.read s offset length = .ok data → data.length ≤ length
  refused : ∀ s offset length, ¬ readFlag s → ∃ code, backend.read s offset length = .error code

/-- A buffer of the client that the kernel mapped for the request. -/
structure MappedBuffer where
  permsR : Bool
  permsW : Bool
  bytes : List UInt8

def MappedBuffer.read (buffer : MappedBuffer) (size : Nat) : Exec (List UInt8) := do
  assert .mappedBuffer buffer.permsR
  assert .mappedBuffer (size ≤ buffer.bytes.length)
  return buffer.bytes.take size

def MappedBuffer.write (buffer : MappedBuffer) (data : List UInt8) : Exec MappedBuffer := do
  assert .mappedBuffer buffer.permsW
  assert .mappedBuffer (data.length ≤ buffer.bytes.length)
  return { buffer with bytes := data ++ buffer.bytes.drop data.length }

structure FileSessionSlot where
  priority : UInt32
  offset : UInt64
  size : UInt64
  subfile : Bool

/-- `connected_sessions` as a map; sessions are numbered in the order they were created. -/
structure File (σ : Type) where
  backend : σ
  sessions : Nat → Option FileSessionSlot
  created : Nat

/-- What `Read` sends back, with the buffer as it then is. -/
structure ReadReply where
  result : Option ResultCode
  count : Nat
  buffer : MappedBuffer

def ReadReply.bytes (reply : ReadReply) : List UInt8 := reply.buffer.bytes.take reply.count

structure WriteReply where
  result : Option ResultCode
  count : Nat

namespace File

variable {σ : Type} (b : FileBackend σ) (file : File σ)

def fresh (backend : σ) : File σ where
  backend := backend
  sessions := fun _ => none
  created := 0

variable (session : Nat) (slot : FileSessionSlot)

def getSessionData : Exec FileSessionSlot :=
  match file.sessions session with
  | some slot => .ok slot
  | none => .error (.assertion .session)

def setSlot : File σ :=
  { file with sessions := fun other => if other = session then some slot else file.sessions other }

/-- `CreateSessionPair`, `ClientConnected` and what the caller puts into the new slot. -/
def newSession : Nat × File σ :=
  (file.created, { file.setSlot file.created slot with created := file.created + 1 })

def connect : Nat × File σ :=
  file.newSession ⟨0, 0, b.getSize file.backend, false⟩

def clientDisconnected : File σ :=
  { file with
    sessions := fun other => if other = session then none else file.sessions other }

def readLength (length : UInt32) : UInt32 :=
  if slot.subfile ∧ length.toUInt64 > slot.size then slot.size.toUInt32 else length

/-- The offset in the backing file, after `offset += file->offset`. -/
def readStart (offset : UInt64) : UInt64 := offset + slot.offset

def read (session : Nat) (offset : UInt64) (length : UInt32) (buffer : MappedBuffer) :
    Exec ReadReply := do
  let slot ← file.getSessionData session
  match b.read file.backend (readStart slot offset) (readLength slot length).toNat with
  | .error code => return ⟨some code, 0, buffer⟩
  | .ok data =>
    let buffer ← buffer.write data
    return ⟨none, data.length, buffer⟩

def write (session : Nat) (offset : UInt64) (length flush : UInt32) (buffer : MappedBuffer) :
    Exec (WriteReply × File σ) := do
  let slot ← file.getSessionData session
  -- Subfiles can not be written to
  if slot.subfile then
    return (⟨some .unsupportedOpenFlags, 0⟩, file)
  let data ← buffer.read length.toNat
  let written := b.write file.backend offset data (flush ≠ 0)
  let file := ({ file with backend := written.1 } : File σ).setSlot session
    { slot with size := b.getSize written.1 }
  match written.2 with
  | .error code => return (⟨some code, 0⟩, file)
  | .ok count => return (⟨none, count⟩, file)

def getSize : Exec UInt64 := do
  let slot ← file.getSessionData session
  return slot.size

def setSize (session : Nat) (size : UInt64) : Exec (Option ResultCode × File σ) := do
  let slot ← file.getSessionData session
  -- SetSize can not be called on subfiles.
  if slot.subfile then
    return (some .unsupportedOpenFlags, file)
  let file := file.setSlot session { slot with size := size }
  return (none, { file with backend := b.setSize file.backend size })

def flush (session : Nat) : Exec (Option ResultCode × File σ) := do
  let slot ← file.getSessionData session
  if slot.subfile then
    return (some .unsupportedOpenFlags, file)
  return (none, { file with backend := b.flush file.backend })

def setPriority (priority : UInt32) : Exec (File σ) := do
  let slot ← file.getSessionData session
  return file.setSlot session { slot with priority := priority }

def getPriority : Exec UInt32 := do
  let slot ← file.getSessionData session
  return slot.priority

def openLinkFile : Exec (Nat × File σ) := do
  let original ← file.getSessionData session
  return file.newSession ⟨original.priority, 0, b.getSize file.backend, false⟩

/-- `offset` and `size` are `s64`: their sum is undefined from 2^63 on. -/
def openSubFile (offset size : Int) : Exec (Except ResultCode Nat × File σ) := do
  let original ← file.getSessionData session
  if original.subfile then
    return (.error .unsupportedOpenFlags, file)
  else if offset < 0 ∨ size < 0 then
    return (.error .writeBeyondEnd, file)
  else if offset + size ≥ 2 ^ 63 then
    .error .undefinedBehaviour
  else if offset + size > (original.size.toNat : Int) then
    return (.error .writeBeyondEnd, file)
  else
    let slot : FileSessionSlot :=
      ⟨original.priority, .ofNat offset.toNat, .ofNat size.toNat, true⟩
    return (.ok (file.newSession slot).1, (file.newSession slot).2)

end File

inductive Request where
  | connect
  | disconnect (session : Nat)
  | openSubFile (session : Nat) (offset size : Int)
  | openLinkFile (session : Nat)
  | read (session : Nat) (offset : UInt64) (length : UInt32) (buffer : MappedBuffer)
  | write (session : Nat) (offset : UInt64) (length flush : UInt32) (buffer : MappedBuffer)
  | getSize (session : Nat)
  | setSize (session : Nat) (size : UInt64)
  | flush (session : Nat)
  | setPriority (session : Nat) (priority : UInt32)
  | getPriority (session : Nat)

def File.handle {σ : Type} (b : FileBackend σ) (file : File σ) : Request → Exec (File σ)
  | .connect => return (file.connect b).2
  | .disconnect session => return file.clientDisconnected session
  | .openSubFile session offset size => (·.2) <$> file.openSubFile session offset size
  | .openLinkFile session => (·.2) <$> file.openLinkFile b session
  | .read session offset length buffer => (fun _ => file) <$>
      file.read b session offset length buffer
  | .write session offset length flush buffer => (·.2) <$>
      file.write b session offset length flush buffer
  | .getSize session => (fun _ => file) <$> file.getSize session
  | .setSize session size => (·.2) <$> file.setSize b session size
  | .flush session => (·.2) <$> file.flush b session
  | .setPriority session priority => file.setPriority session priority
  | .getPriority session => (fun _ => file) <$> file.getPriority session

end FileService

/-!
## The windows of subfiles

The window of a subfile never changes, so a read can be judged by the window the session was
opened with. `Read` cuts the length down to the size of the window and then moves the offset:
a read from past the start of the window can leave it at the other end.
-/

namespace FileService
namespace File

variable {σ : Type} {b : FileBackend σ} {file after : File σ} {session place : Nat}
  {offset size : UInt64} {slot : FileSessionSlot}

theorem getSessionData_ok :
    file.getSessionData session = .ok slot ↔ file.sessions session = some slot := by
  unfold getSessionData
  split <;> simp_all

/-- As long as it is connected, `session` is a subfile with this window. -/
structure Window (session : Nat) (offset size : UInt64) (file : File σ) : Prop where
  old : session < file.created
  kept : ∀ slot, file.sessions session = some slot →
    slot.subfile ∧ slot.offset = offset ∧ slot.size = size

section

variable (h : file.Window session offset size)
include h

theorem Window.backend (backend : σ) :
    ({ file with backend := backend } : File σ).Window session offset size := ⟨h.old, h.kept⟩

theorem Window.setSlot
    (same : place = session → slot.subfile ∧ slot.offset = offset ∧ slot.size = size) :
    (file.setSlot place slot).Window session offset size := by
  refine ⟨h.old, ?_⟩
  intro now found
  unfold File.setSlot at found
  dsimp only at found
  split_ifs at found with at_it
  · cases found
    exact same at_it.symm
  · exact h.kept now found

theorem Window.newSession (slot : FileSessionSlot) :
    (file.newSession slot).2.Window session offset size := by
  have old := h.old
  have kept : (file.setSlot file.created slot).Window session offset size :=
    h.setSlot fun new => absurd new (by omega)
  exact ⟨Nat.lt_succ_of_lt old, kept.kept⟩

theorem Window.clientDisconnected (other : Nat) :
    (file.clientDisconnected other).Window session offset size := by
  refine ⟨h.old, ?_⟩
  intro now found
  unfold File.clientDisconnected at found
  dsimp only at found
  split_ifs at found with at_it
  exact h.kept now found

theorem Window.ne_plain (found : file.sessions place = some slot) (plain : ¬ slot.subfile) :
    place ≠ session := by
  rintro rfl
  exact plain (h.kept slot found).1

end

theorem newSession_window {new : FileSessionSlot} (subfile : new.subfile) :
    (file.newSession new).2.Window file.created new.offset new.size := by
  refine ⟨Nat.lt_succ_self _, ?_⟩
  intro slot found
  have same : (file.newSession new).2.sessions file.created = some new := if_pos rfl
  cases same.symm.trans found
  exact ⟨subfile, rfl, rfl⟩

variable {o : UInt64} {length : UInt32} {buffer : MappedBuffer} {result : Option ResultCode}

theorem write_ok {reply : WriteReply} {flush : UInt32}
    (run : file.write b session o length flush buffer = .ok (reply, after)) :
    ∃ slot, file.sessions session = some slot ∧
      (slot.subfile ∧ after = file ∨
        ¬ slot.subfile ∧ ∃ backend, after =
          ({ file with backend := backend } : File σ).setSlot session
            { slot with size := b.getSize backend }) := by
  obtain ⟨slot, found, run⟩ := bind_eq_ok.mp run
  refine ⟨slot, getSessionData_ok.mp found, ?_⟩
  split_ifs at run with subfile
  · cases run
    exact .inl ⟨subfile, rfl⟩
  · obtain ⟨data, _, run⟩ := bind_eq_ok.mp run
    refine .inr ⟨subfile, (b.write file.backend o data (flush ≠ 0)).1, ?_⟩
    dsimp only at run
    split at run <;> (cases run; rfl)

theorem setSize_ok {new : UInt64} (run : file.setSize b session new = .ok (result, after)) :
    ∃ slot, file.sessions session = some slot ∧
      (slot.subfile ∧ after = file ∨
        ¬ slot.subfile ∧ ∃ backend, after =
          ({ file with backend := backend } : File σ).setSlot session { slot with size := new }) := by
  obtain ⟨slot, found, run⟩ := bind_eq_ok.mp run
  refine ⟨slot, getSessionData_ok.mp found, ?_⟩
  split_ifs at run with subfile <;> cases run
  · exact .inl ⟨subfile, rfl⟩
  · exact .inr ⟨subfile, b.setSize file.backend new, rfl⟩

theorem flush_ok (run : file.flush b session = .ok (result, after)) :
    ∃ backend, after = { file with backend := backend } := by
  obtain ⟨slot, found, run⟩ := bind_eq_ok.mp run
  split_ifs at run <;> cases run
  · exact ⟨_, rfl⟩
  · exact ⟨_, rfl⟩

theorem openSubFile_ok {result : Except ResultCode Nat} {o s : Int}
    (run : file.openSubFile session o s = .ok (result, after)) :
    (∃ code, result = .error code) ∧ after = file ∨
      ∃ parent, file.sessions session = some parent ∧ ¬ parent.subfile ∧ 0 ≤ o ∧ 0 ≤ s ∧
        o + s < 2 ^ 63 ∧ o + s ≤ parent.size.toNat ∧ result = .ok file.created ∧
        after = (file.newSession ⟨parent.priority, .ofNat o.toNat, .ofNat s.toNat, true⟩).2 := by
  obtain ⟨parent, found, run⟩ := bind_eq_ok.mp run
  split_ifs at run with subfile negative overflow beyond
  · cases run
    exact .inl ⟨⟨_, rfl⟩, rfl⟩
  · cases run
    exact .inl ⟨⟨_, rfl⟩, rfl⟩
  · cases run
    exact .inl ⟨⟨_, rfl⟩, rfl⟩
  · cases run
    refine .inr ⟨parent, getSessionData_ok.mp found, subfile, ?_, ?_, ?_, ?_, rfl, rfl⟩ <;> omega

theorem handle_window {request : Request} (h : file.Window session offset size)
    (run : file.handle b request = .ok after) : after.Window session offset size := by
  cases request with
  | connect =>
    cases run
    exact h.newSession _
  | disconnect other =>
    cases run
    exact h.clientDisconnected other
  | openSubFile other o s =>
    obtain ⟨⟨result, next⟩, call, rfl⟩ := map_eq_ok.mp run
    rcases openSubFile_ok call with ⟨_, rfl⟩ | ⟨parent, _, _, _, _, _, _, _, rfl⟩
    · exact h
    · exact h.newSession _
  | openLinkFile other =>
    obtain ⟨⟨server, next⟩, call, rfl⟩ := map_eq_ok.mp run
    obtain ⟨original, _, call⟩ := bind_eq_ok.mp call
    cases call
    exact h.newSession _
  | read other o length buffer | getSize other | getPriority other =>
    obtain ⟨_, _, rfl⟩ := map_eq_ok.mp run
    exact h
  | write other o length flush buffer =>
    obtain ⟨⟨reply, next⟩, call, rfl⟩ := map_eq_ok.mp run
    obtain ⟨slot, found, ⟨_, rfl⟩ | ⟨plain, backend, rfl⟩⟩ := write_ok call
    · exact h
    · exact (h.backend backend).setSlot fun same => absurd same (h.ne_plain found plain)
  | setSize other new =>
    obtain ⟨⟨result, next⟩, call, rfl⟩ := map_eq_ok.mp run
    obtain ⟨slot, found, ⟨_, rfl⟩ | ⟨plain, backend, rfl⟩⟩ := setSize_ok call
    · exact h
    · exact (h.backend backend).setSlot fun same => absurd same (h.ne_plain found plain)
  | flush other =>
    obtain ⟨⟨result, next⟩, call, rfl⟩ := map_eq_ok.mp run
    obtain ⟨backend, rfl⟩ := flush_ok call
    exact h.backend backend
  | setPriority other priority =>
    obtain ⟨slot, found, run⟩ := bind_eq_ok.mp run
    cases run
    apply h.setSlot
    rintro rfl
    exact h.kept slot (getSessionData_ok.mp found)

theorem write_count {data : List UInt8} {written : MappedBuffer}
    (run : buffer.write data = .ok written) : written.bytes.take data.length = data := by
  obtain ⟨_, _, run⟩ := bind_eq_ok.mp run
  obtain ⟨_, _, run⟩ := bind_eq_ok.mp run
  cases run
  exact List.take_left

theorem read_count {content : σ → List UInt8} {readFlag : σ → Bool}
    (reads : b.Reads content readFlag) (found : file.sessions session = some slot)
    {reply : ReadReply} (run : file.read b session o length buffer = .ok reply) :
    reply.count ≤ (readLength slot length).toNat ∧ (¬ readFlag file.backend → reply.count = 0) := by
  unfold read at run
  rw [getSessionData_ok.mpr found, ok_bind] at run
  cases result : b.read file.backend (readStart slot o) (readLength slot length).toNat with
  | error code =>
    rw [result] at run
    cases run
    exact ⟨Nat.zero_le _, fun _ => rfl⟩
  | ok data =>
    rw [result] at run
    obtain ⟨written, write, run⟩ := bind_eq_ok.mp run
    cases run
    refine ⟨reads.few _ _ _ _ result, fun no => ?_⟩
    obtain ⟨code, refused⟩ := reads.refused _ (readStart slot o) (readLength slot length).toNat no
    cases result.symm.trans refused

theorem read_inside {content : σ → List UInt8} {readFlag : σ → Bool}
    (reads : b.Reads content readFlag) (found : file.sessions session = some slot)
    (inside : (readStart slot o).toNat < (content file.backend).length)
    {reply : ReadReply} (run : file.read b session o length buffer = .ok reply) :
    reply.bytes = ((content file.backend).drop (readStart slot o).toNat).take reply.count ∧
      (readFlag file.backend → reply.count = min (readLength slot length).toNat
        ((content file.backend).length - (readStart slot o).toNat)) := by
  by_cases readable : readFlag file.backend = true
  · unfold read at run
    rw [getSessionData_ok.mpr found, ok_bind, reads.read _ _ _ readable inside] at run
    obtain ⟨written, write, run⟩ := bind_eq_ok.mp run
    cases run
    refine ⟨?_, fun _ => by simp⟩
    rw [ReadReply.bytes, write_count write, List.length_take, List.length_drop, ← List.length_drop,
      ← List.take_eq_take_min]
  · rw [ReadReply.bytes, (read_count reads found run).2 readable]
    exact ⟨rfl, fun yes => absurd yes readable⟩

theorem readLength_subfile (subfile : slot.subfile) (length : UInt32) :
    (readLength slot length).toNat = min length.toNat slot.size.toNat := by
  have bound := length.toNat_lt
  unfold readLength
  split_ifs with beyond
  · have beyond := UInt64.lt_iff_toNat_lt.mp beyond.2
    rw [UInt32.toNat_toUInt64] at beyond
    rw [UInt64.toNat_toUInt32]
    omega
  · have beyond : ¬ slot.size < length.toUInt64 := fun more => beyond ⟨subfile, more⟩
    rw [UInt64.lt_iff_toNat_lt, UInt32.toNat_toUInt64] at beyond
    omega

/-- `count` bytes from place `start` of the backing file lie in `[offset, offset + size)`. -/
def ShowsOnly (offset size : Int) (start : UInt64) (count : Nat) : Prop :=
  ∀ i < count, offset ≤ start.toNat + i ∧ ((start.toNat + i : Nat) : Int) < offset + size

/-- A read of `length` bytes at `o` does not leave the window: it asks for nothing, or the sum of
the offsets does not wrap, and the cut length ends in the window, or the file does and the read
starts in the file. -/
def StaysInside (offset size : Int) (fileSize : Nat) (o : UInt64) (length : UInt32) : Prop :=
  min (length.toNat : Int) size = 0 ∨ offset + o.toNat < 2 ^ 64 ∧
    (o.toNat + min (length.toNat : Int) size ≤ size ∨
      offset + o.toNat < fileSize ∧ (fileSize : Int) ≤ offset + size)

theorem showsOnly_iff {offset size : Int} {start : UInt64} {count : Nat} :
    ShowsOnly offset size start count ↔
      count = 0 ∨ offset ≤ start.toNat ∧ (start.toNat + count : Nat) ≤ offset + size := by
  constructor
  · intro inside
    rcases Nat.eq_zero_or_pos count with none | some
    · exact .inl none
    · have first := inside 0 some
      have last := inside (count - 1) (by omega)
      exact .inr (by omega)
  · rintro (rfl | ⟨low, high⟩) i below
    · omega
    · omega

def Step (b : FileBackend σ) (file : File σ) (request : Request) (after : File σ) : Prop :=
  file.handle b request = .ok after

def romFile (bytes : List UInt8) : FileBackend Unit where
  getSize := fun _ => .ofNat bytes.length
  read := fun _ offset length => .ok ((bytes.drop offset.toNat).take length)
  write := fun _ _ _ _ => ((), .ok 0)
  setSize := fun _ _ => ()
  flush := fun _ => ()

theorem romFile_reads {bytes : List UInt8} (fits : bytes.length < 2 ^ 64) :
    (romFile bytes).Reads (fun _ => bytes) fun _ => true where
  size := fun _ => UInt64.toNat_ofNat_of_lt' fits
  read := fun _ _ _ _ _ => rfl
  few := by
    rintro _ _ _ _ ⟨⟩
    exact List.length_take_le _ _
  refused := fun _ _ _ no => absurd rfl no

def eightBytes : FileBackend Unit := romFile [0, 1, 2, 3, 4, 5, 6, 7]

def connected : File Unit := ((fresh ()).connect eightBytes).2

def firstHalf : File Unit := (connected.newSession ⟨0, 0, 4, true⟩).2

end File
end FileService
end EmuThreeDS
