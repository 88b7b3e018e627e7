import EmuThreeDS.FileSys.LayeredFS

/-!
# Reads of RomFS files

`ivfc_archive.cpp` and `romfs_reader.cpp`: the backends of RomFS files, each with its own way to
clip a read at the end. `File::Read` logs a range that is out of bounds and passes it on.
-/
namespace EmuThreeDS.FileSys

structure IVFCFileInMemory where
  romfsFile : List UInt8
  dataOffset : Nat
  dataSize : Nat
  fits : dataOffset + dataSize ≤ romfsFile.length
  small : romfsFile.length < wordSize

structure IOFile where
  bytes : List UInt8
  position : Nat
  small : bytes.length < 2 ^ 63

/-- `IOFile::Seek` from the start: as an `s64`, a large position is negative and is refused. -/
def IOFile.seek (file : IOFile) (position : Nat) : IOFile :=
  if position < 2 ^ 63 then { file with position } else file

/-- `DirectRomFSReader`. The cipher works on a position of the stream and keeps the length. -/
structure DirectRomFSReader where
  isEncrypted : Bool
  processData : Nat → List UInt8 → List UInt8
  file : IOFile
  fileOffset : Nat
  cryptoOffset : Nat
  dataSize : Nat
  fits : fileOffset + dataSize ≤ file.bytes.length
  sameLength : ∀ position data, (processData position data).length = data.length

namespace IVFCFileInMemory

/-- `IVFCFileInMemory::Read`: the length that is returned, and the bytes that are copied. -/
def read (f : IVFCFileInMemory) (offset length : Nat) : Exec (Nat × List UInt8) := do
  let readLength := min length (sub64 f.dataSize offset)
  -- of no bytes, `memcpy` does not look at the address
  let bytes ← (if readLength = 0 then .ok []
    else slice f.romfsFile (f.dataOffset + offset) readLength)
  return (readLength, bytes)

end IVFCFileInMemory

variable (r : DirectRomFSReader)

namespace DirectRomFSReader

def sought (offset : Nat) : IOFile :=
  r.file.seek ((r.fileOffset + offset) % wordSize)

def decrypt (offset : Nat) (data : List UInt8) : List UInt8 :=
  if r.isEncrypted then r.processData ((r.cryptoOffset + offset) % wordSize) data else data

theorem decrypt_length (offset : Nat) (data : List UInt8) :
    (r.decrypt offset data).length = data.length := by
  unfold decrypt
  split_ifs
  · exact r.sameLength _ _
  · rfl

theorem decrypt_nil (offset : Nat) : r.decrypt offset [] = [] :=
  List.length_eq_zero_iff.mp (r.decrypt_length offset [])

def readFile (offset length : Nat) : Nat × List UInt8 :=
  if length = 0 then (0, [])
  else
    let readLength := min length (sub64 r.dataSize offset)
    let data := ((r.sought offset).bytes.drop (r.sought offset).position).take readLength
    (data.length, r.decrypt offset data)

end DirectRomFSReader

/-- A file backend of a RomFS; `IVFCFile` only hands reads on to its reader. -/
inductive RomFSBackend (host : HostFiles) where
  | inMemory (f : IVFCFileInMemory)
  | direct (r : DirectRomFSReader)
  | layered (b : LayeredFS.Built host)

namespace RomFSBackend

variable {host : HostFiles} (b : RomFSBackend host)

def size : Nat :=
  match b with
  | inMemory f => f.dataSize
  | direct r => r.dataSize
  | layered b => b.image.length

/-- `FileBackend::Read` into a buffer of zeros. -/
def read (offset length : Nat) : Exec (Nat × List UInt8) :=
  match b with
  | inMemory f => f.read offset length
  | direct r => .ok (r.readFile offset length)
  | layered b => b.layered.readFile host offset length (List.replicate length 0)

def inside (offset length : Nat) : List UInt8 :=
  match b with
  | inMemory f => (((f.romfsFile.drop f.dataOffset).take f.dataSize).drop offset).take length
  | direct r => r.decrypt offset
      ((((r.file.bytes.drop r.fileOffset).take r.dataSize).drop offset).take length)
  | layered b => (b.image.drop offset).take length

/-- The read is clipped to the file, and delivers bytes of the file only. -/
def Clips (offset length : Nat) : Prop :=
  ∃ buffer, b.read offset length = .ok (min length (b.size - offset), buffer) ∧
    buffer.take (min length (b.size - offset)) = b.inside offset length

def InRange (offset length : Nat) : Prop :=
  match b with
  | inMemory f => length = 0 ∨ offset ≤ f.dataSize
  | direct r => length = 0 ∨ offset ≤ r.dataSize ∨
      (r.sought offset).bytes.length ≤ (r.sought offset).position
  | layered b => b.HasData ∧ offset + length ≤ b.image.length

end RomFSBackend

section

variable {offset length size : Nat}

theorem sub64_of_le (inside : offset ≤ size) (small : size < wordSize) :
    sub64 size offset = size - offset := by
  unfold sub64 wordSize at *
  omega

/-- A start behind the end leaves a length that wraps. -/
theorem sub64_pos (outside : size < offset) (small : offset < wordSize) :
    0 < sub64 size offset := by
  unfold sub64 wordSize at *
  omega

theorem take_inside {data : List UInt8} (start : Nat) :
    (((data.drop start).take size).drop offset).take length =
      (data.drop (start + offset)).take (min length (size - offset)) := by
  rw [List.drop_take, List.take_take, List.drop_drop]

end

namespace RomFSBackend

variable {host : HostFiles}

theorem inMemory_clips_iff (f : IVFCFileInMemory) {offset : Nat} (length : Nat)
    (word : offset < wordSize) : (inMemory f : RomFSBackend host).Clips offset length ↔
      (inMemory f : RomFSBackend host).InRange offset length := by
  have small := f.small
  have fits := f.fits
  constructor
  · rintro ⟨buffer, run, _⟩
    by_contra out
    obtain ⟨some, behind⟩ := not_or.mp out
    have wraps := sub64_pos (not_le.mp behind) word
    obtain ⟨bytes, _, run⟩ := bind_eq_ok.mp run
    have count : min length (sub64 f.dataSize offset) = min length (f.dataSize - offset) :=
      congrArg Prod.fst (Except.ok.inj run)
    omega
  · intro inRange
    have count : min length (sub64 f.dataSize offset) = min length (f.dataSize - offset) := by
      rcases inRange with rfl | within
      · rw [Nat.zero_min, Nat.zero_min]
      · rw [sub64_of_le within (by omega)]
    have part : (inMemory f : RomFSBackend host).inside offset length =
        (f.romfsFile.drop (f.dataOffset + offset)).take (min length (f.dataSize - offset)) :=
      take_inside f.dataOffset
    unfold Clips
    rw [part]
    simp only [read, IVFCFileInMemory.read, size]
    rw [count]
    split_ifs with none
    · rw [none]
      exact ⟨[], rfl, rfl⟩
    · rw [slice_eq (by omega)]
      exact ⟨_, rfl, by rw [List.take_take, Nat.min_self]⟩

theorem direct_clips_iff (r : DirectRomFSReader) {offset : Nat} (length : Nat)
    (word : offset < wordSize) : (direct r : RomFSBackend host).Clips offset length ↔
      (direct r : RomFSBackend host).InRange offset length := by
  have small := r.file.small
  have fits := r.fits
  have part : (direct r : RomFSBackend host).inside offset length = r.decrypt offset
      ((r.file.bytes.drop (r.fileOffset + offset)).take (min length (r.dataSize - offset))) :=
    congrArg (r.decrypt offset) (take_inside r.fileOffset)
  unfold Clips
  rw [part]
  simp only [read, DirectRomFSReader.readFile, size, InRange]
  by_cases none : length = 0
  · rw [none]
    exact iff_of_true ⟨[], rfl, (r.decrypt_nil offset).symm⟩ (.inl rfl)
  rw [if_neg none]
  constructor
  · rintro ⟨buffer, run, _⟩
    by_contra out
    obtain ⟨behind, more⟩ := not_or.mp (not_or.mp out).2
    have wraps := sub64_pos (not_le.mp behind) word
    have count := congrArg Prod.fst (Except.ok.inj run)
    rw [List.length_take, List.length_drop] at count
    omega
  · intro inRange
    by_cases within : offset ≤ r.dataSize
    · have sought : r.sought offset = { r.file with position := r.fileOffset + offset } := by
        unfold DirectRomFSReader.sought IOFile.seek
        rw [Nat.mod_eq_of_lt (by unfold wordSize; omega), if_pos (by omega)]
      rw [sought, sub64_of_le within (by unfold wordSize; omega)]
      have count : ((r.file.bytes.drop (r.fileOffset + offset)).take
          (min length (r.dataSize - offset))).length = min length (r.dataSize - offset) := by
        rw [List.length_take, List.length_drop]
        omega
      rw [count]
      exact ⟨_, rfl, List.take_of_length_le (by rw [r.decrypt_length, count])⟩
    · have ended := (inRange.resolve_left none).resolve_left within
      rw [List.drop_eq_nil_of_le ended, List.take_nil, Nat.sub_eq_zero_of_le (by omega),
        Nat.min_zero, List.take_zero, r.decrypt_nil]
      exact ⟨[], rfl, rfl⟩

theorem readFiles_count {length offset readSize n : Nat} {files : List (Nat × File)}
    {buffer out : List UInt8}
    (run : LayeredFS.readFiles host length files offset readSize buffer = .ok (n, out)) :
    length ≤ n := by
  induction files generalizing offset readSize buffer with
  | nil =>
    unfold LayeredFS.readFiles at run
    split_ifs at run with more
    cases run
    exact not_lt.mp more
  | cons entry files ih =>
    unfold LayeredFS.readFiles at run
    split_ifs at run with more
    · obtain ⟨_, _, run⟩ := bind_eq_ok.mp run
      obtain ⟨_, _, run⟩ := bind_eq_ok.mp run
      exact ih run
    · cases run
      exact not_lt.mp more

theorem layered_clips_iff (b : LayeredFS.Built host) {offset length : Nat}
    (word : offset < wordSize) : (layered b : RomFSBackend host).Clips offset length ↔
      (layered b : RomFSBackend host).InRange offset length := by
  constructor
  · rintro ⟨buffer, run, _⟩
    obtain ⟨_, bound, run⟩ := bind_eq_ok.mp run
    rw [assert_eq_ok, b.getSize_eq] at bound
    have reads : b.HasData ∧ length ≤ min length (b.image.length - offset) := by
      split_ifs at run
      · obtain ⟨_, _, run⟩ := bind_eq_ok.mp run
        obtain ⟨current, found, run⟩ := bind_eq_ok.mp run
        refine ⟨by_contra fun empty => ?_, readFiles_count run⟩
        exact nomatch (b.currentFile_empty 0 empty).symm.trans found
      · obtain ⟨current, found, run⟩ := bind_eq_ok.mp run
        refine ⟨by_contra fun empty => ?_, readFiles_count run⟩
        exact nomatch (b.currentFile_empty _ empty).symm.trans found
    obtain ⟨data, whole⟩ := reads
    refine ⟨data, ?_⟩
    rcases Nat.eq_zero_or_pos length with rfl | some
    · rwa [Nat.add_zero, Nat.mod_eq_of_lt word] at bound
    · omega
  · rintro ⟨data, within⟩
    have whole : min length (b.image.length - offset) = length := by omega
    unfold Clips
    simp only [read, size]
    rw [whole, b.readFile_eq data within (by rw [List.length_replicate])]
    exact ⟨_, rfl, List.take_left' (by rw [List.length_take, List.length_drop]; omega)⟩

/-- A read is clipped to the file just if it starts in the file, or nothing is left to read; in a
layered file system it has to be in the file as a whole. -/
theorem clips_iff (b : RomFSBackend host) (offset : UInt64) (length : UInt32) :
    b.Clips offset.toNat length.toNat ↔ b.InRange offset.toNat length.toNat := by
  cases b with
  | inMemory f => exact inMemory_clips_iff f _ offset.toNat_lt
  | direct r => exact direct_clips_iff r _ offset.toNat_lt
  | layered b => exact layered_clips_iff b offset.toNat_lt

def twoBytes : RomFSBackend host := .inMemory
  { romfsFile := [1, 2], dataOffset := 0, dataSize := 2, fits := by decide, small := by decide }

/-- A read that starts behind the end asks for bytes behind the file. -/
theorem read_beyond : ¬ ∀ (host : HostFiles) (b : RomFSBackend host) (offset : UInt64)
    (length : UInt32), b.Clips offset.toNat length.toNat := by
  intro all
  obtain ⟨buffer, run, _⟩ := all ⟨[], fun _ => none⟩ twoBytes 3 4
  have stops : (twoBytes : RomFSBackend ⟨[], fun _ => none⟩).read 3 4 =
      .error .undefinedBehaviour := by decide +kernel
  exact nomatch stops.symm.trans run

end RomFSBackend

end EmuThreeDS.FileSys
