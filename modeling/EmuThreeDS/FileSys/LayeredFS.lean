import EmuThreeDS.Common.Buffers
import EmuThreeDS.FileSys.CIAContainer
import EmuThreeDS.Lib.OrderedMap

/-!
# Layered file systems

`layered_fs.cpp`: where the data of the files is placed, and how the rebuilt image is read. The
image has one order of files, that of the directory tree, whatever their data comes from.
-/
namespace EmuThreeDS.FileSys

open OrderedMap

/-- What a layer reads from: the RomFS under it, and the files of the host. -/
structure HostFiles where
  romfs : List UInt8
  file : String → Option (List UInt8)

inductive RelocationType where
  | none | replaced | patched | removed
  deriving DecidableEq

structure FileRelocationInfo where
  type : RelocationType
  originalOffset : Nat
  replaceFilePath : String
  patchedFile : List UInt8
  size : Nat

structure File where
  relocation : FileRelocationInfo

inductive Directory where
  | mk (files : List File) (directories : List Directory)

structure LayeredFS where
  metadata : List UInt8
  dataOffsetMap : Map Nat File
  currentDataOffset : Nat

/-- Removed files are not counted. -/
def prepareBuildFile (fileList : List File) (current : File) : List File :=
  if current.relocation.type = .removed then fileList else fileList ++ [current]

mutual

def prepareBuild : Directory → List File → List File
  | ⟨files, directories⟩, fileList =>
    prepareBuildAll directories (files.foldl prepareBuildFile fileList)

def prepareBuildAll : List Directory → List File → List File
  | [], fileList => fileList
  | child :: directories, fileList => prepareBuildAll directories (prepareBuild child fileList)

end

namespace LayeredFS

def buildFile (fs : LayeredFS) (file : File) : LayeredFS :=
  let fileDataOffset := fs.currentDataOffset
  let size := file.relocation.size
  { fs with
    currentDataOffset := (fileDataOffset + alignUp wordSize size 16) % wordSize
    dataOffsetMap :=
      if size ≠ 0 then fs.dataOffsetMap.insert fileDataOffset file else fs.dataOffsetMap }

/-- The header, the tables and their names are given as the bytes that they take. -/
def rebuildMetadata (root : Directory) (metadata : List UInt8) : LayeredFS :=
  (prepareBuild root []).foldl buildFile ⟨metadata, Map.empty, 0⟩

def getSize (fs : LayeredFS) : Nat := (fs.metadata.length + fs.currentDataOffset) % wordSize

section

variable (host : HostFiles) (relocation : FileRelocationInfo)

/-- `to_read`, of the bytes that are left. -/
def toRead (relativeOffset left : Nat) : Nat :=
  if relativeOffset < relocation.size then min (sub64 relocation.size relativeOffset) left else 0

def alignment (relativeOffset left : Nat) : Nat :=
  sub64 (min (sub64 (alignUp wordSize relocation.size 16) relativeOffset) left)
    (toRead relocation relativeOffset left)

def readRelocated (relativeOffset count readSize : Nat) (buffer : List UInt8) : Exec (List UInt8) :=
  match relocation.type with
  | .none =>
    Buffer.write buffer readSize
      ((host.romfs.drop (relocation.originalOffset + relativeOffset)).take count)
  | .replaced =>
    match host.file relocation.replaceFilePath with
    | some bytes => Buffer.write buffer readSize ((bytes.drop relativeOffset).take count)
    | none => .ok buffer
  | .patched => do
    -- in the padding nothing is copied, from an address that is not looked at
    let data ← if count = 0 then .ok [] else slice relocation.patchedFile relativeOffset count
    Buffer.write buffer readSize data
  | .removed => .error (.assertion .romFS)

/-- The loop, from an iterator on. -/
def readFiles (length : Nat) : List (Nat × File) → Nat → Nat → List UInt8 → Exec (Nat × List UInt8)
  | [], _, readSize, buffer =>
    if readSize < length then .error .undefinedBehaviour else .ok (readSize, buffer)
  | (first, file) :: current, offset, readSize, buffer =>
    if readSize < length then do
      let relativeOffset := sub64 offset first
      let left := sub64 length readSize
      let count := toRead file.relocation relativeOffset left
      let zeros := alignment file.relocation relativeOffset left
      let buffer ← readRelocated host file.relocation relativeOffset count readSize buffer
      let buffer ← Buffer.write buffer (readSize + count) (List.replicate zeros 0)
      readFiles length current (offset + (count + zeros)) (readSize + (count + zeros)) buffer
    else .ok (readSize, buffer)

/-- `--data_offset_map.upper_bound(offset)`; there is nothing in front of the first entry. -/
def currentFile (fs : LayeredFS) (offset : Nat) : Exec (List (Nat × File)) :=
  match fs.dataOffsetMap.prev (fs.dataOffsetMap.upperBound offset) with
  | some first => .ok (fs.dataOffsetMap.fromIter (some first))
  | none => .error .undefinedBehaviour

def readFile (fs : LayeredFS) (offset length : Nat) (buffer : List UInt8) :
    Exec (Nat × List UInt8) := do
  assert .romFS ((offset + length) % wordSize ≤ fs.getSize)
  if offset < fs.metadata.length then
    let count := min (fs.metadata.length - offset) length
    let buffer ← Buffer.write buffer 0 ((fs.metadata.drop offset).take count)
    let current ← fs.currentFile 0
    readFiles host length current 0 count buffer
  else
    let offset := offset - fs.metadata.length
    let current ← fs.currentFile offset
    readFiles host length current offset 0 buffer

end

inductive Loads (host : HostFiles) : FileRelocationInfo → Prop where
  | loaded {offset size : Nat} : offset + size ≤ host.romfs.length →
      Loads host ⟨.none, offset, "", [], size⟩
  | replaced {r : FileRelocationInfo} {path : String} {bytes : List UInt8} : Loads host r →
      host.file path = some bytes →
      Loads host { r with type := .replaced, replaceFilePath := path, size := bytes.length }
  | patched {r : FileRelocationInfo} (buffer : List UInt8) : Loads host r →
      Loads host { r with type := .patched, size := buffer.length, patchedFile := buffer }
  | removed {r : FileRelocationInfo} : Loads host r →
      Loads host { r with type := .removed, size := 0 }

section

variable (host : HostFiles)

def content (r : FileRelocationInfo) : List UInt8 :=
  match r.type with
  | .none => (host.romfs.drop r.originalOffset).take r.size
  | .replaced => ((host.file r.replaceFilePath).getD []).take r.size
  | .patched => r.patchedFile.take r.size
  | .removed => []

def padding (size : Nat) : Nat := (16 - size % 16) % 16

def padded (file : File) : List UInt8 :=
  content host file.relocation ++ List.replicate (padding file.relocation.size) 0

structure Built where
  root : Directory
  metadata : List UInt8
  loads : ∀ file ∈ prepareBuild root [], Loads host file.relocation
  fits : metadata.length + ((prepareBuild root []).flatMap (padded host)).length < wordSize

namespace Built

variable {host} (b : Built host)

def fileList : List File := prepareBuild b.root []

def layered : LayeredFS := rebuildMetadata b.root b.metadata

def image : List UInt8 := b.metadata ++ b.fileList.flatMap (padded host)

def HasData : Prop := ∃ file ∈ b.fileList, file.relocation.size ≠ 0

/-- Reads one behind the other, each to the front of the buffer; what they deliver is put
together. -/
def readInTurn (buffer : List UInt8) : Nat → List Nat → Exec (List UInt8)
  | _, [] => .ok []
  | offset, length :: lengths => do
    let (readSize, filled) ← b.layered.readFile host offset length buffer
    let rest ← readInTurn buffer (offset + length) lengths
    return filled.take readSize ++ rest

/-- Every read is a slice of the image, and so are reads in turn, however a range is split. -/
def ReadsSlices : Prop :=
  (∀ offset length buffer, offset + length ≤ b.layered.getSize → length ≤ buffer.length →
    b.layered.readFile host offset length buffer =
      .ok (length, (b.image.drop offset).take length ++ buffer.drop length)) ∧
  ∀ offset lengths buffer, offset + lengths.sum ≤ b.layered.getSize →
    (∀ length ∈ lengths, length ≤ buffer.length) →
    b.readInTurn buffer offset lengths = .ok ((b.image.drop offset).take lengths.sum)

end Built
end

section

variable {host : HostFiles} {file : File} {files before behind : List File} {start offset size : Nat}

theorem alignUp_sixteen (small : size + padding size < wordSize) :
    alignUp wordSize size 16 = size + padding size := by
  unfold alignUp padding at *
  split_ifs with whole
  · omega
  · rw [Nat.mod_eq_of_lt (by omega)]
    omega

theorem length_content (loads : Loads host file.relocation) :
    (content host file.relocation).length = file.relocation.size := by
  generalize file.relocation = r at loads
  unfold content
  induction loads with
  | loaded inside =>
    dsimp only
    rw [List.length_take, List.length_drop]
    omega
  | replaced _ found _ =>
    rw [found, Option.getD_some, List.take_length]
  | patched buffer _ _ =>
    rw [List.take_length]
  | removed => rfl

theorem length_padded (loads : Loads host file.relocation) :
    (padded host file).length = file.relocation.size + padding file.relocation.size := by
  unfold padded
  rw [List.length_append, length_content loads, List.length_replicate]

def placed (start : Nat) : List File → List (Nat × File)
  | [] => []
  | file :: files =>
    let size := file.relocation.size
    if size ≠ 0 then (start, file) :: placed (start + (size + padding size)) files
    else placed start files

theorem buildFiles (fs : LayeredFS) (loads : ∀ file ∈ files, Loads host file.relocation)
    (fits : fs.currentDataOffset + (files.flatMap (padded host)).length < wordSize)
    (before : ∀ x ∈ fs.dataOffsetMap.entries, x.1 < fs.currentDataOffset) :
    (files.foldl buildFile fs).metadata = fs.metadata ∧
    (files.foldl buildFile fs).currentDataOffset =
      fs.currentDataOffset + (files.flatMap (padded host)).length ∧
    (files.foldl buildFile fs).dataOffsetMap.entries =
      fs.dataOffsetMap.entries ++ placed fs.currentDataOffset files := by
  induction files generalizing fs with
  | nil => exact ⟨rfl, rfl, (List.append_nil _).symm⟩
  | cons file files ih =>
    have size := length_padded (loads file List.mem_cons_self)
    rw [List.flatMap_cons, List.length_append] at fits
    have rest := @ih (fs.buildFile file) fun f mem => loads f (List.mem_cons_of_mem _ mem)
    have next : (fs.buildFile file).currentDataOffset =
        fs.currentDataOffset + (file.relocation.size + padding file.relocation.size) := by
      unfold buildFile
      dsimp only
      rw [alignUp_sixteen (by omega), Nat.mod_eq_of_lt (by omega)]
    have entries : (fs.buildFile file).dataOffsetMap.entries =
        if file.relocation.size ≠ 0 then
          fs.dataOffsetMap.entries ++ [(fs.currentDataOffset, file)]
        else fs.dataOffsetMap.entries := by
      unfold buildFile
      dsimp only
      split_ifs
      · exact Map.insert_last before
      · rfl
    rw [next, entries] at rest
    obtain ⟨metadata, last, map⟩ := rest (by omega) (by
      intro x mem
      split_ifs at mem with some
      · rcases List.mem_append.mp mem with mem | mem
        · exact Nat.lt_add_right _ (before x mem)
        · obtain rfl := List.mem_singleton.mp mem
          omega
      · exact Nat.lt_add_right _ (before x mem))
    rw [List.foldl_cons]
    refine ⟨metadata, ?_, ?_⟩
    · rw [List.flatMap_cons, List.length_append]
      omega
    · rw [map, placed]
      split_ifs with some
      · rw [List.append_assoc]
        rfl
      · have none : file.relocation.size + padding file.relocation.size = 0 := by
          unfold padding
          omega
        rw [none, Nat.add_zero]

theorem le_placed {x : Nat × File} (mem : x ∈ placed start files) : start ≤ x.1 := by
  induction files generalizing start with
  | nil => exact absurd mem List.not_mem_nil
  | cons file files ih =>
    rw [placed] at mem
    split_ifs at mem
    · rcases List.mem_cons.mp mem with rfl | mem
      · exact Nat.le_refl _
      · exact Nat.le_of_add_right_le (ih mem)
    · exact ih mem

theorem placed_empty (empty : ∀ file ∈ files, file.relocation.size = 0) :
    placed start files = [] := by
  induction files generalizing start with
  | nil => rfl
  | cons file files ih =>
    rw [placed, if_neg (not_not_intro (empty file List.mem_cons_self))]
    exact ih fun f mem => empty f (List.mem_cons_of_mem _ mem)

theorem padded_empty (loads : Loads host file.relocation) (empty : file.relocation.size = 0) :
    padded host file = [] := by
  have size := length_padded loads
  rw [empty] at size
  exact List.length_eq_zero_iff.mp size

theorem flatMap_padded_empty (loads : ∀ file ∈ files, Loads host file.relocation)
    (empty : ∀ file ∈ files, file.relocation.size = 0) : files.flatMap (padded host) = [] :=
  List.flatMap_eq_nil_iff.mpr fun file mem => padded_empty (loads file mem) (empty file mem)

/-- The file with the data of an offset, the last one with data for what is behind it. -/
structure Current (host : HostFiles) (files : List File) (start offset : Nat) (before : List File)
    (file : File) (behind : List File) : Prop where
  split : files = before ++ file :: behind
  full : file.relocation.size ≠ 0
  reached : start + (before.flatMap (padded host)).length ≤ offset
  entries : ∃ passed, placed start files =
    passed ++ placed (start + (before.flatMap (padded host)).length) (file :: behind)
  further : ∀ x ∈ placed (start + (before.flatMap (padded host)).length +
    (padded host file).length) behind, offset < x.1
  inside : offset < start + (before.flatMap (padded host)).length + (padded host file).length ∨
    behind.flatMap (padded host) = []

theorem exists_current (loads : ∀ file ∈ files, Loads host file.relocation)
    (some : ∃ file ∈ files, file.relocation.size ≠ 0) (reached : start ≤ offset) :
    ∃ before file behind, Current host files start offset before file behind := by
  induction files generalizing start with
  | nil =>
    obtain ⟨file, mem, _⟩ := some
    exact absurd mem List.not_mem_nil
  | cons file files ih =>
    have size := length_padded (loads file List.mem_cons_self)
    have loads' : ∀ f ∈ files, Loads host f.relocation := fun f mem =>
      loads f (List.mem_cons_of_mem _ mem)
    by_cases full : file.relocation.size = 0
    · -- nothing of the map belongs to this file
      have none := padded_empty (loads file List.mem_cons_self) full
      have later : ∃ f ∈ files, f.relocation.size ≠ 0 := by
        obtain ⟨f, mem, data⟩ := some
        rcases List.mem_cons.mp mem with rfl | mem
        · exact absurd full data
        · exact ⟨f, mem, data⟩
      obtain ⟨before, f, behind, h⟩ := ih loads' later reached
      have same : (file :: before).flatMap (padded host) = before.flatMap (padded host) := by
        rw [List.flatMap_cons, none, List.nil_append]
      refine ⟨file :: before, f, behind, congrArg (file :: ·) h.split, h.full, ?_, ?_, ?_, ?_⟩
      · rw [same]
        exact h.reached
      · rw [same, placed, if_neg (not_not_intro full)]
        exact h.entries
      · rw [same]
        exact h.further
      · rw [same]
        exact h.inside
    by_cases here : offset < start + (padded host file).length ∨
        ∀ f ∈ files, f.relocation.size = 0
    · refine ⟨[], file, files, rfl, full, reached, ⟨[], rfl⟩, ?_, ?_⟩
      · intro x mem
        rcases here with here | empty
        · exact Nat.lt_of_lt_of_le here (le_placed mem)
        · rw [placed_empty empty] at mem
          exact absurd mem List.not_mem_nil
      · exact here.imp_right (flatMap_padded_empty loads')
    · obtain ⟨past, more⟩ := not_or.mp here
      have later : ∃ f ∈ files, f.relocation.size ≠ 0 := by
        by_contra none
        exact more fun f mem => by_contra fun data => none ⟨f, mem, data⟩
      obtain ⟨before, f, behind, h⟩ := ih loads' later (Nat.le_of_not_lt past)
      have sum : start + ((file :: before).flatMap (padded host)).length =
          start + (padded host file).length + (before.flatMap (padded host)).length := by
        rw [List.flatMap_cons, List.length_append, Nat.add_assoc]
      refine ⟨file :: before, f, behind, congrArg (file :: ·) h.split, h.full, ?_, ?_, ?_, ?_⟩
      · rw [sum]
        exact h.reached
      · obtain ⟨passed, same⟩ := h.entries
        rw [size] at same
        refine ⟨(start, file) :: passed, ?_⟩
        rw [sum, placed, if_pos full, same, size]
        rfl
      · rw [sum]
        exact h.further
      · rw [sum]
        exact h.inside

end

section

variable {host : HostFiles} {r : FileRelocationInfo} {file : File} {files : List File}
  {start offset rel count readSize length : Nat} {buffer data : List UInt8}
  {current : List (Nat × File)}

theorem write_eq (size : data.length = count) (room : readSize + count ≤ buffer.length) :
    Buffer.write buffer readSize data =
      .ok (buffer.take readSize ++ data ++ buffer.drop (readSize + count)) := by
  subst size
  exact if_pos room

theorem readRelocated_eq (delivered : (content host r).length = r.size) (kept : r.type ≠ .removed)
    (inside : count = 0 ∨ rel + count ≤ r.size) (room : readSize + count ≤ buffer.length) :
    readRelocated host r rel count readSize buffer =
      .ok (buffer.take readSize ++ ((content host r).drop rel).take count ++
        buffer.drop (readSize + count)) := by
  have size : (((content host r).drop rel).take count).length = count := by
    rw [List.length_take, List.length_drop]
    omega
  have part {bytes : List UInt8} : ((bytes.take r.size).drop rel).take count =
      (bytes.drop rel).take count := by
    rcases inside with rfl | inside
    · rfl
    · rw [List.drop_take, List.take_take, Nat.min_eq_left (by omega)]
  unfold readRelocated
  unfold content at size delivered ⊢
  cases kind : r.type with
  | none =>
    simp only [kind] at size ⊢
    rw [part, List.drop_drop] at size ⊢
    exact write_eq size room
  | replaced =>
    simp only [kind] at size delivered ⊢
    rw [part] at size ⊢
    cases found : host.file r.replaceFilePath with
    | none =>
      rw [found, Option.getD_none, List.drop_nil, List.take_nil, List.length_nil] at size
      subst size
      rw [List.take_zero, List.append_nil, Nat.add_zero, List.take_append_drop]
    | some bytes =>
      rw [found] at size
      exact write_eq size room
  | patched =>
    simp only [kind] at size delivered ⊢
    rw [List.length_take] at delivered
    rw [part] at size ⊢
    split_ifs with nothing
    · subst nothing
      exact write_eq rfl room
    · unfold slice
      rw [if_pos (by omega)]
      exact write_eq size room
  | removed => exact absurd kind kept

theorem readFiles_done (done : length ≤ readSize) :
    readFiles host length current offset readSize buffer = .ok (readSize, buffer) := by
  cases current with
  | nil | cons x current => exact if_neg (Nat.not_lt_of_le done)

theorem readFiles_turn (current : List (Nat × File)) (loads : Loads host file.relocation)
    (kept : file.relocation.type ≠ .removed)
    (small : start + (padded host file).length < wordSize) (lengthSmall : length < wordSize)
    (within : rel < (padded host file).length) (wanted : readSize < length)
    (room : length ≤ buffer.length) :
    ∃ n, n = min ((padded host file).length - rel) (length - readSize) ∧
      readFiles host length ((start, file) :: current) (start + rel) readSize buffer =
        readFiles host length current (start + rel + n) (readSize + n)
          (buffer.take readSize ++ ((padded host file).drop rel).take n ++
            buffer.drop (readSize + n)) := by
  have delivered := length_content loads
  have whole := length_padded loads
  have rounded : alignUp wordSize file.relocation.size 16 =
      file.relocation.size + padding file.relocation.size := alignUp_sixteen (by omega)
  have relative : sub64 (start + rel) start = rel := by
    rw [sub64_eq (by omega) (by omega)]
    omega
  have left : sub64 length readSize = length - readSize := sub64_eq (by omega) lengthSmall
  have behind : sub64 (file.relocation.size + padding file.relocation.size) rel =
      file.relocation.size + padding file.relocation.size - rel := sub64_eq (by omega) (by omega)
  rw [readFiles, if_pos wanted]
  dsimp only
  rw [relative, left]
  generalize counted : toRead file.relocation rel (length - readSize) = count
  have counts : count = min (file.relocation.size - rel) (length - readSize) := by
    rw [← counted]
    unfold toRead
    split_ifs with data
    · rw [sub64_eq (Nat.le_of_lt data) (by omega)]
    · omega
  have zeros : alignment file.relocation rel (length - readSize) =
      min ((padded host file).length - rel) (length - readSize) - count := by
    unfold alignment
    rw [rounded, behind, counted, sub64_eq (by omega) (by omega), whole]
  rw [zeros, readRelocated_eq delivered kept (by omega) (by omega), ok_bind]
  generalize total : min ((padded host file).length - rel) (length - readSize) = n
  have sum : count + (n - count) = n := by omega
  have size : (buffer.take readSize ++ ((content host file.relocation).drop rel).take count).length =
      readSize + count := by
    rw [List.length_append, List.length_take, List.length_take, List.length_drop]
    omega
  have chunk : ((padded host file).drop rel).take n =
      ((content host file.relocation).drop rel).take count ++ List.replicate (n - count) 0 := by
    unfold padded
    rw [List.drop_append, List.take_append, List.length_drop, List.drop_replicate,
      List.take_replicate]
    congr 1
    · rw [List.take_eq_take_iff, List.length_drop]
      omega
    · congr 1
      omega
  have written : Buffer.write (buffer.take readSize ++
      ((content host file.relocation).drop rel).take count ++ buffer.drop (readSize + count))
      (readSize + count) (List.replicate (n - count) 0) =
      .ok (buffer.take readSize ++ ((padded host file).drop rel).take n ++
        buffer.drop (readSize + n)) := by
    rw [← size, Buffer.write_behind (by rw [List.length_replicate, List.length_drop]; omega),
      List.length_replicate, List.drop_drop, size, chunk, ← List.append_assoc]
    have further : readSize + count + (n - count) = readSize + n := by omega
    rw [further]
  refine ⟨n, rfl, ?_⟩
  rw [written, ok_bind, sum]

/-- From an iterator on, the loop delivers the bytes that come from `start` on. -/
def Delivers (host : HostFiles) (length : Nat) (current : List (Nat × File)) (start : Nat)
    (rest : List UInt8) : Prop :=
  ∀ offset readSize buffer, readSize ≤ length → (readSize < length → offset = start) →
    length ≤ buffer.length → length - readSize ≤ rest.length →
    readFiles host length current offset readSize buffer =
      .ok (length, buffer.take readSize ++ rest.take (length - readSize) ++ buffer.drop length)

theorem readFiles_then {rest : List UInt8} (rel : Nat) (loads : Loads host file.relocation)
    (kept : file.relocation.type ≠ .removed)
    (small : start + (padded host file).length < wordSize) (lengthSmall : length < wordSize)
    (later : Delivers host length current (start + (padded host file).length) rest)
    (within : rel < (padded host file).length) (wanted : readSize < length)
    (room : length ≤ buffer.length)
    (enough : length - readSize ≤ (padded host file).length - rel + rest.length) :
    readFiles host length ((start, file) :: current) (start + rel) readSize buffer =
      .ok (length, buffer.take readSize ++
        ((padded host file).drop rel ++ rest).take (length - readSize) ++ buffer.drop length) := by
  obtain ⟨n, least, turn⟩ := readFiles_turn current loads kept small lengthSmall within
    wanted room
  have front : (buffer.take readSize ++ ((padded host file).drop rel).take n).length =
      readSize + n := by
    rw [List.length_append, List.length_take, List.length_take, List.length_drop]
    omega
  have short : readSize + n ≤ length := by omega
  have tail := later (start + rel + n) (readSize + n)
    (buffer.take readSize ++ ((padded host file).drop rel).take n ++ buffer.drop (readSize + n))
    (by omega) (by omega) (by
      rw [List.length_append, List.length_drop]
      omega) (by omega)
  have chunk : ((padded host file).drop rel).take n =
      ((padded host file).drop rel).take (length - readSize) := by
    rw [List.take_eq_take_iff, List.length_drop]
    omega
  have left : length - (readSize + n) = length - readSize - ((padded host file).length - rel) := by
    omega
  rw [turn, tail, List.take_left' front, Buffer.drop_behind front short, List.take_append,
    List.length_drop, chunk, left]
  simp only [List.append_assoc]

theorem placed_delivers (loads : ∀ file ∈ files, Loads host file.relocation)
    (kept : ∀ file ∈ files, file.relocation.type ≠ .removed)
    (small : start + (files.flatMap (padded host)).length < wordSize)
    (lengthSmall : length < wordSize) :
    Delivers host length (placed start files) start (files.flatMap (padded host)) := by
  induction files generalizing start with
  | nil =>
    intro offset readSize buffer done _ _ enough
    have all : readSize = length := by
      rw [List.flatMap_nil, List.length_nil] at enough
      omega
    rw [readFiles_done (Nat.le_of_eq all.symm), List.flatMap_nil, List.take_nil, List.append_nil,
      all, List.take_append_drop]
  | cons file files ih =>
    intro offset readSize buffer done place room enough
    rcases Nat.eq_or_lt_of_le done with all | wanted
    · rw [readFiles_done (Nat.le_of_eq all.symm), all, Nat.sub_self, List.take_zero,
        List.append_nil, List.take_append_drop]
    have later (start) := @ih start (fun f mem => loads f (List.mem_cons_of_mem _ mem))
      fun f mem => kept f (List.mem_cons_of_mem _ mem)
    have size := length_padded (loads file List.mem_cons_self)
    rw [List.flatMap_cons, List.length_append] at small enough
    by_cases full : file.relocation.size = 0
    · have none := padded_empty (loads file List.mem_cons_self) full
      rw [none, List.length_nil, Nat.zero_add] at small enough
      rw [placed, if_neg (not_not_intro full), List.flatMap_cons, none]
      exact later start small offset readSize buffer done place room enough
    · rw [placed, if_pos full, ← size, place wanted, List.flatMap_cons]
      have behind := later (start + (padded host file).length) (by omega)
      exact readFiles_then 0 (loads file List.mem_cons_self) (kept file List.mem_cons_self)
        (by omega) lengthSmall behind (by omega) wanted room (by omega)

end

mutual

theorem kept_prepareBuild (directory : Directory) (fileList : List File)
    (kept : ∀ file ∈ fileList, file.relocation.type ≠ .removed) :
    ∀ file ∈ prepareBuild directory fileList, file.relocation.type ≠ .removed := by
  match directory with
  | ⟨files, directories⟩ =>
    rw [prepareBuild]
    apply kept_prepareBuildAll directories
    induction files generalizing fileList with
    | nil => exact kept
    | cons current files ih =>
      apply ih
      intro file mem
      unfold prepareBuildFile at mem
      split_ifs at mem with removed
      · exact kept file mem
      · rcases List.mem_append.mp mem with mem | mem
        · exact kept file mem
        · obtain rfl := List.mem_singleton.mp mem
          exact removed

theorem kept_prepareBuildAll (directories : List Directory) (fileList : List File)
    (kept : ∀ file ∈ fileList, file.relocation.type ≠ .removed) :
    ∀ file ∈ prepareBuildAll directories fileList, file.relocation.type ≠ .removed := by
  match directories with
  | [] => exact kept
  | child :: directories =>
    rw [prepareBuildAll]
    exact kept_prepareBuildAll directories _ (kept_prepareBuild child fileList kept)

end

namespace Built

variable {host : HostFiles} (b : Built host)

theorem kept : ∀ file ∈ b.fileList, file.relocation.type ≠ .removed :=
  kept_prepareBuild b.root [] nofun

def data : List UInt8 := b.fileList.flatMap (padded host)

theorem layered_spec : b.layered.metadata = b.metadata ∧
    b.layered.currentDataOffset = b.data.length ∧
    b.layered.dataOffsetMap.entries = placed 0 b.fileList := by
  have fits := b.fits
  obtain ⟨metadata, offset, entries⟩ := buildFiles ⟨b.metadata, Map.empty, 0⟩ b.loads
    (by dsimp only; omega) nofun
  exact ⟨metadata, offset.trans (Nat.zero_add _), entries⟩

theorem getSize_eq : b.layered.getSize = b.image.length := by
  obtain ⟨metadata, offset, -⟩ := b.layered_spec
  have fits := b.fits
  unfold getSize image
  rw [metadata, offset, List.length_append]
  exact Nat.mod_eq_of_lt fits

theorem readFiles_current (offset readSize length : Nat) (buffer : List UInt8) (some : b.HasData)
    (done : readSize ≤ length) (room : length ≤ buffer.length) (lengthSmall : length < wordSize)
    (enough : readSize < length → offset + (length - readSize) ≤ b.data.length) :
    ∃ current, b.layered.currentFile offset = .ok current ∧
      readFiles host length current offset readSize buffer =
        .ok (length, buffer.take readSize ++ (b.data.drop offset).take (length - readSize) ++
          buffer.drop length) := by
  have fits : b.metadata.length + b.data.length < wordSize := b.fits
  obtain ⟨-, -, entries⟩ := b.layered_spec
  obtain ⟨before, file, behind, h⟩ := exists_current b.loads some (Nat.zero_le offset)
  obtain ⟨passed, placedHere⟩ := h.entries
  have split : b.fileList = before ++ file :: behind := h.split
  have reached := h.reached
  have inside := h.inside
  have data : b.data = before.flatMap (padded host) ++ (padded host file ++
      behind.flatMap (padded host)) := by
    unfold Built.data
    rw [split, List.flatMap_append, List.flatMap_cons]
  have mem : file ∈ b.fileList := by
    rw [split]
    exact List.mem_append_right _ List.mem_cons_self
  have later : ∀ f ∈ behind, f ∈ b.fileList := fun f mem => by
    rw [split]
    exact List.mem_append_right _ (List.mem_cons_of_mem _ mem)
  have whole := length_padded (b.loads file mem)
  have size := congrArg List.length data
  rw [List.length_append, List.length_append] at size
  rw [placed, if_pos h.full, ← whole] at placedHere
  have cut := entries.trans placedHere
  have further := h.further
  have dropped : b.data.drop offset = (padded host file).drop
      (offset - (0 + (before.flatMap (padded host)).length)) ++ (behind.flatMap (padded host)).drop
        (offset - (0 + (before.flatMap (padded host)).length) - (padded host file).length) := by
    rw [data, List.drop_append, List.drop_eq_nil_of_le (by omega), List.nil_append,
      List.drop_append, Nat.zero_add]
  rw [← Nat.zero_add (before.flatMap (padded host)).length] at size
  generalize 0 + (before.flatMap (padded host)).length = start at *
  refine ⟨(start, file) :: placed (start + (padded host file).length) behind, ?_, ?_⟩
  · unfold currentFile
    rw [Map.prev_upperBound cut reached further]
    dsimp only
    rw [Map.fromIter_entry cut]
  rcases Nat.eq_or_lt_of_le done with all | wanted
  · rw [readFiles_done (Nat.le_of_eq all.symm), all, Nat.sub_self, List.take_zero, List.append_nil,
      List.take_append_drop]
  · have within : offset - start < (padded host file).length := by
      rcases inside with inside | last
      · omega
      · rw [last, List.length_nil] at size
        omega
    have behindDelivers : Delivers host length
        (placed (start + (padded host file).length) behind) (start + (padded host file).length)
        (behind.flatMap (padded host)) :=
      placed_delivers (fun f mem => b.loads f (later f mem)) (fun f mem => b.kept f (later f mem))
        (by omega) lengthSmall
    have place : offset = start + (offset - start) := by omega
    rw [dropped, Nat.sub_eq_zero_of_le (Nat.le_of_lt within), List.drop_zero]
    conv_lhs => rw [place]
    exact readFiles_then (offset - start) (b.loads file mem) (b.kept file mem) (by omega)
      lengthSmall behindDelivers within wanted room (by omega)

theorem currentFile_empty (offset : Nat) (empty : ¬ b.HasData) :
    b.layered.currentFile offset = .error .undefinedBehaviour := by
  obtain ⟨-, -, entries⟩ := b.layered_spec
  have none : b.layered.dataOffsetMap.entries = [] := by
    rw [entries]
    exact placed_empty fun file mem => by_contra fun data => empty ⟨file, mem, data⟩
  unfold currentFile Map.upperBound
  dsimp only [List.find?_nil, Option.map_none, Map.prev]
  rw [none]
  rfl

theorem readFile_eq {offset length : Nat} {buffer : List UInt8} (some : b.HasData)
    (inside : offset + length ≤ b.image.length) (room : length ≤ buffer.length) :
    b.layered.readFile host offset length buffer =
      .ok (length, (b.image.drop offset).take length ++ buffer.drop length) := by
  obtain ⟨metadata, -, -⟩ := b.layered_spec
  have fits : b.metadata.length + b.data.length < wordSize := b.fits
  have image : b.image = b.metadata ++ b.data := rfl
  have whole : b.image.length = b.metadata.length + b.data.length := by
    rw [image, List.length_append]
  unfold readFile
  rw [assert_pos (by rw [b.getSize_eq, Nat.mod_eq_of_lt (by omega)]; exact inside), ok_bind, metadata]
  split_ifs with front
  · generalize least : min (b.metadata.length - offset) length = count
    have part : ((b.metadata.drop offset).take count).length = count := by
      rw [List.length_take, List.length_drop]
      omega
    obtain ⟨current, found, read⟩ := b.readFiles_current 0 count length
      ((b.metadata.drop offset).take count ++ buffer.drop count) some (by omega) (by
        rw [List.length_append, List.length_drop]
        omega) (by omega) (by omega)
    have written : Buffer.write buffer 0 ((b.metadata.drop offset).take count) =
        .ok ((b.metadata.drop offset).take count ++ buffer.drop count) := by
      rw [write_eq part (by omega), List.take_zero, List.nil_append, Nat.zero_add]
    have header : (b.metadata.drop offset).take count = (b.metadata.drop offset).take length := by
      rw [List.take_eq_take_iff, List.length_drop]
      omega
    have left : length - (b.metadata.length - offset) = length - count := by omega
    have short : count ≤ length := by omega
    dsimp only
    rw [written, ok_bind, found, ok_bind, read, List.take_left' part,
      Buffer.drop_behind part short, List.drop_zero, image,
      List.drop_append_of_le_length (Nat.le_of_lt front), List.take_append, List.length_drop, left,
      header]
  · obtain ⟨current, found, read⟩ := b.readFiles_current (offset - b.metadata.length) 0 length buffer
      some (Nat.zero_le _) room (by omega) (by omega)
    dsimp only
    rw [found, ok_bind, read, image, List.drop_append,
      List.drop_eq_nil_of_le (Nat.le_of_not_lt front)]
    rfl

theorem readInTurn_eq {lengths : List Nat} {offset : Nat} {buffer : List UInt8}
    (some : b.HasData) (inside : offset + lengths.sum ≤ b.image.length)
    (room : ∀ length ∈ lengths, length ≤ buffer.length) :
    b.readInTurn buffer offset lengths = .ok ((b.image.drop offset).take lengths.sum) := by
  induction lengths generalizing offset with
  | nil => rfl
  | cons length lengths ih =>
    rw [List.sum_cons] at inside
    have rest := @ih (offset + length) (by omega) fun l mem =>
      room l (List.mem_cons_of_mem _ mem)
    have size : ((b.image.drop offset).take length).length = length := by
      rw [List.length_take, List.length_drop]
      omega
    rw [readInTurn, b.readFile_eq some (by omega) (room length List.mem_cons_self), ok_bind]
    dsimp only
    rw [rest, List.take_left' size, List.sum_cons, List.take_add, List.drop_drop]
    rfl

/-- Reads are slices of the image just if some file has data. -/
theorem readsSlices_iff : b.ReadsSlices ↔ b.HasData := by
  constructor
  · rintro ⟨slices, -⟩
    by_contra empty
    have read := slices 0 0 [] (Nat.zero_le _) (Nat.zero_le _)
    have stops : b.layered.readFile host 0 0 [] = .error .undefinedBehaviour := by
      unfold readFile
      split_ifs
      · have written : Buffer.write [] 0 ((b.layered.metadata.drop 0).take
            (min (b.layered.metadata.length - 0) 0)) = .ok [] := by
          rw [Nat.min_zero]
          rfl
        dsimp only
        rw [written, b.currentFile_empty 0 empty]
        rfl
      · dsimp only
        rw [b.currentFile_empty _ empty]
        rfl
    exact nomatch stops.symm.trans read
  · intro some
    rw [ReadsSlices, getSize_eq]
    exact ⟨fun offset length buffer inside room => b.readFile_eq some inside room,
      fun offset lengths buffer inside room => b.readInTurn_eq some inside room⟩

def aHost : HostFiles := ⟨[1, 2, 3], fun _ => some [4, 5]⟩

/-- Files of every kind, two of them in a directory of their own. -/
def fourFiles : Built aHost where
  root := ⟨[⟨⟨.none, 1, "", [], 2⟩⟩, ⟨⟨.replaced, 0, "file", [], 2⟩⟩],
    [⟨[⟨⟨.patched, 0, "", [6], 1⟩⟩, ⟨⟨.removed, 0, "", [], 0⟩⟩], []⟩]⟩
  metadata := [7, 8]
  loads :=
    have original : Loads aHost ⟨.none, 0, "", [], 2⟩ := .loaded (by decide)
    List.forall_mem_cons.mpr ⟨.loaded (by decide), List.forall_mem_cons.mpr
      ⟨.replaced original rfl, List.forall_mem_singleton.mpr (.patched [6] original)⟩⟩
  fits := by decide +kernel

example : fourFiles.layered.readFile aHost 1 35 (List.replicate 36 9) =
    .ok (35, [8, 2, 3] ++ List.replicate 14 0 ++ [4, 5] ++ List.replicate 14 0 ++ [6, 0, 9]) := by
  decide +kernel

def noFiles : Built ⟨[], fun _ => none⟩ where
  root := ⟨[], []⟩
  metadata :=
    [0x28, 0x28, 0xC, 0x34, 0x18, 0x4C, 0xC, 0x58, 0, 0x60, 0, 0xFFFFFFFF, 0xFFFFFFFF,
      0, 0xFFFFFFFF, 0xFFFFFFFF, 0xFFFFFFFF, 0xFFFFFFFF, 0,
      0xFFFFFFFF, 0xFFFFFFFF, 0xFFFFFFFF, 0, 0].flatMap (leBytes 4)
  loads := nofun
  fits := by decide +kernel

theorem noFiles_not_readsSlices : ¬ noFiles.ReadsSlices := by
  rintro ⟨slices, -⟩
  have run : noFiles.layered.readFile ⟨[], fun _ => none⟩ 0 4 [0, 0, 0, 0] =
      .error .undefinedBehaviour := by decide +kernel
  exact nomatch run.symm.trans (slices 0 4 [0, 0, 0, 0] (by decide +kernel) (Nat.le_refl _))

end Built

end LayeredFS
end EmuThreeDS.FileSys
