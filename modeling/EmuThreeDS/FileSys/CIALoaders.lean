import EmuThreeDS.FileSys.CIASections
import Mathlib.Data.Nat.Digits.Lemmas

/-!
# The three loaders of a CIA

All three are the same stages over what they take for the ticket, the title metadata and the
metadata: through a backend or a file the bytes that the header's sizes cut out, in a vector all
that follows the section's offset, and its very first bytes for the metadata.
-/
namespace EmuThreeDS.FileSys

namespace CIAContainer

/-- A file backend that holds the data: what is behind the end is left out or refused. -/
def Holds (read : BackendRead) (data : List UInt8) : Prop :=
  ∀ offset length, read offset length = .ok ((data.drop offset).take length) ∨
    data.length < offset + length ∧ ∃ code, read offset length = .error code

variable {c : CIAContainer} {read : BackendRead} {data : List UInt8}

def headerOf (data : List UInt8) : List UInt8 := data.take headerSize

def metadataStage (c : CIAContainer) (metadata : Option (List UInt8)) :
    ResultStatus × CIAContainer :=
  if metaSize c.header ≠ 0 then
    match metadata with
    | some metadata => (.success, { c with metadata })
    | none => (.error, c)
  else (.success, c)

def stages (c : CIAContainer) (ticket : ResultStatus × Signed)
    (tmd : ResultStatus × TitleMetadata) (metadata : Option (List UInt8)) :
    ResultStatus × CIAContainer :=
  if ticket.1 ≠ .success then (ticket.1, { c with ticket := ticket.2 })
  else if tmd.1 ≠ .success then (tmd.1, { c with ticket := ticket.2, tmd := tmd.2 })
  else metadataStage { c with ticket := ticket.2, tmd := tmd.2 } metadata

def cutTicket (old : Signed) (bytes : List UInt8) (size : Nat) : ResultStatus × Signed :=
  if size ≤ bytes.length then old.parse ticketBodySize (bytes.take size) else (.error, old)

def cutTmd (old : TitleMetadata) (bytes : List UInt8) (size : Nat) : ResultStatus × TitleMetadata :=
  if size ≤ bytes.length then old.parse (bytes.take size) else (.error, old)

def whole (bytes : List UInt8) : Option (List UInt8) :=
  if bytes.length = metadataSize then some bytes else none

theorem loadHeader_eq {bytes : List UInt8} (long : headerSize ≤ bytes.length)
    (small : bytes.length < wordSize) :
    c.loadHeader bytes 0 = .ok (.success, { c with header := headerOf bytes }) := by
  unfold loadHeader
  rw [sub64_eq (Nat.zero_le _) small, if_neg (by omega), slice_eq (by omega)]
  rfl

theorem readAll_eq (holds : Holds read data) (offset length : Nat)
    (next : List UInt8 → Exec (ResultStatus × CIAContainer)) (empty : next [] = .ok (.error, c)) :
    c.readAll read offset length next =
      if length ≤ (data.drop offset).length then next ((data.drop offset).take length)
      else .ok (.error, c) := by
  unfold readAll
  rcases holds offset length with served | ⟨past, code, refused⟩
  · rw [served]
    dsimp only
    rw [List.length_take]
    by_cases fits : length ≤ (data.drop offset).length
    · rw [if_pos (Nat.min_eq_left fits), if_pos fits]
    · rw [if_neg (by omega), if_neg fits]
  · rw [refused]
    split_ifs with fits
    · rw [List.length_drop] at fits
      have none : length = 0 := by omega
      rw [none, List.take_zero, empty]
    · rfl

theorem onSuccess_ok (r : ResultStatus × CIAContainer)
    (next : CIAContainer → Exec (ResultStatus × CIAContainer)) :
    onSuccess (.ok r) next = if r.1 = .success then next r.2 else .ok r := rfl

section

variable {bytes : List UInt8} {offset : Nat}

theorem loadTicket_eq (inside : offset ≤ bytes.length) (small : bytes.length < wordSize) :
    c.loadTicket bytes offset = .ok ((c.ticket.parse ticketBodySize (bytes.drop offset)).1,
      { c with ticket := (c.ticket.parse ticketBodySize (bytes.drop offset)).2 }) := by
  unfold loadTicket
  rw [Signed.load_eq inside small]
  rfl

theorem loadTitleMetadata_eq (inside : offset ≤ bytes.length) (small : bytes.length < wordSize) :
    c.loadTitleMetadata bytes offset = .ok ((c.tmd.parse (bytes.drop offset)).1,
      { c with tmd := (c.tmd.parse (bytes.drop offset)).2 }) := by
  unfold loadTitleMetadata
  rw [TitleMetadata.load_eq inside small]
  rfl

theorem loadMetadata_whole (length : bytes.length = metadataSize) :
    c.loadMetadata bytes 0 = .ok (.success, { c with metadata := bytes }) := by
  have small : bytes.length < wordSize := by
    rw [length]
    decide
  unfold loadMetadata
  rw [sub64_eq (Nat.zero_le _) small, if_neg (by omega), slice_eq (by omega), List.drop_zero,
    ← length, List.take_length]
  rfl

end

/-- The stages once the header is there, for a loader that takes `ticket`, `tmd` and `metadata`
for the sections. -/
theorem stages_eq {ticket : ResultStatus × Signed} {tmd : ResultStatus × TitleMetadata}
    {metadata : Option (List UInt8)}
    {rest last : CIAContainer → Exec (ResultStatus × CIAContainer)}
    (at_tmd : ticket.1 = .success → rest { c with ticket := ticket.2 } =
      onSuccess (.ok (tmd.1, { c with ticket := ticket.2, tmd := tmd.2 })) last)
    (at_metadata : ticket.1 = .success → tmd.1 = .success →
      last { c with ticket := ticket.2, tmd := tmd.2 } =
        .ok (metadataStage { c with ticket := ticket.2, tmd := tmd.2 } metadata)) :
    onSuccess (.ok (ticket.1, { c with ticket := ticket.2 })) rest =
      .ok (stages c ticket tmd metadata) := by
  unfold stages
  rw [onSuccess_ok]
  by_cases loaded : ticket.1 = .success
  · rw [if_pos loaded, if_neg (not_not.mpr loaded), at_tmd loaded, onSuccess_ok]
    by_cases also : tmd.1 = .success
    · rw [if_pos also, if_neg (not_not.mpr also), at_metadata loaded also]
    · rw [if_neg also, if_pos also]
  · rw [if_neg loaded, if_pos loaded]

section

variable (c data)

def cutStages (metadata : List UInt8) : ResultStatus × CIAContainer :=
  let header := headerOf data
  stages { c with header }
    (cutTicket c.ticket (data.drop (getTicketOffset header)) (tikSize header))
    (cutTmd c.tmd (data.drop (getTitleMetadataOffset header)) (tmdSize header)) (whole metadata)

/-- What the vector loader loads while every section starts inside the data. -/
def vectorStages : ResultStatus × CIAContainer :=
  let header := headerOf data
  let offset := getMetadataOffset header
  stages { c with header }
    (c.ticket.parse ticketBodySize (data.drop (getTicketOffset header)))
    (c.tmd.parse (data.drop (getTitleMetadataOffset header)))
    (if offset ≤ data.length ∧ data.length < offset + metadataSize then none
      else some (data.take metadataSize))

end

section

variable {bytes : List UInt8} {size : Nat}

theorem cut_ticket (small : bytes.length < wordSize) :
    (if size ≤ bytes.length then c.loadTicket (bytes.take size) 0 else .ok (.error, c)) =
      .ok ((cutTicket c.ticket bytes size).1,
        { c with ticket := (cutTicket c.ticket bytes size).2 }) := by
  unfold cutTicket
  split_ifs
  · rw [loadTicket_eq (Nat.zero_le _) (by rw [List.length_take]; omega), List.drop_zero]
  · rfl

theorem cut_tmd (small : bytes.length < wordSize) :
    (if size ≤ bytes.length then c.loadTitleMetadata (bytes.take size) 0 else .ok (.error, c)) =
      .ok ((cutTmd c.tmd bytes size).1, { c with tmd := (cutTmd c.tmd bytes size).2 }) := by
  unfold cutTmd
  split_ifs
  · rw [loadTitleMetadata_eq (Nat.zero_le _) (by rw [List.length_take]; omega), List.drop_zero]
  · rfl

theorem cut_metadata : (if metadataSize ≤ bytes.length then
      c.loadMetadata (bytes.take metadataSize) 0 else .ok (.error, c)) =
    .ok (match whole (bytes.take metadataSize) with
      | some metadata => (.success, { c with metadata })
      | none => (.error, c)) := by
  have length : (bytes.take metadataSize).length = min metadataSize bytes.length :=
    List.length_take
  unfold whole
  split_ifs with fits short short
  · rw [loadMetadata_whole short]
  · omega
  · omega
  · rfl

theorem file_metadata : (if bytes.length ≠ metadataSize then .ok (.error, c)
      else c.loadMetadata bytes 0) =
    .ok (match whole bytes with
      | some metadata => (.success, { c with metadata })
      | none => (.error, c)) := by
  unfold whole
  by_cases length : bytes.length = metadataSize
  · rw [if_neg (not_not.mpr length), if_pos length, loadMetadata_whole length]
  · rw [if_pos length, if_neg length]

theorem cut_header (small : data.length < wordSize) (long : headerSize ≤ data.length) :
    c.loadHeader (data.take headerSize) 0 = .ok (.success, { c with header := headerOf data }) := by
  have length : (data.take headerSize).length = headerSize := by
    rw [List.length_take]
    omega
  rw [loadHeader_eq (Nat.le_of_eq length.symm) (by omega), headerOf, List.take_take]
  rfl

end

theorem loadBackend_eq (holds : Holds read data) (small : data.length < wordSize)
    (long : headerSize ≤ data.length) : c.loadBackend read = .ok (cutStages c data
      ((data.drop (getMetadataOffset (headerOf data))).take metadataSize)) := by
  have dropped : ∀ offset, (data.drop offset).length < wordSize := by
    intro offset
    rw [List.length_drop]
    omega
  unfold loadBackend
  rw [readAll_eq holds _ _ _ rfl, List.drop_zero, if_pos long, cut_header small long, onSuccess_ok,
    if_pos rfl, readAll_eq holds _ _ _ rfl, cut_ticket (dropped _)]
  apply stages_eq
  · intro _
    rw [readAll_eq holds _ _ _ rfl, cut_tmd (dropped _)]
  · intro _ _
    unfold metadataStage
    split_ifs
    · rw [readAll_eq holds _ _ _ rfl, cut_metadata]
    · rfl

section

variable (header : List UInt8)

theorem field_lt (offset : Nat) : field header offset 4 < 0x100000000 := by
  unfold field leValue
  have digits := Nat.ofDigits_lt_base_pow_length (b := 256)
    (l := ((header.drop offset).take 4).map (·.toNat)) (by decide) (by
      intro digit member
      obtain ⟨byte, -, rfl⟩ := List.mem_map.mp member
      exact byte.toNat_lt)
  have few : (((header.drop offset).take 4).map (·.toNat)).length ≤ 4 := by
    rw [List.length_map, List.length_take]
    exact Nat.min_le_left _ _
  have power := Nat.pow_le_pow_right (show 0 < 256 by decide) few
  omega

theorem alignUp_le (word value size : Nat) : alignUp word value size ≤ value + size := by
  unfold alignUp
  split_ifs
  · omega
  · have reduced := Nat.mod_le (value - value % size + size) word
    omega

theorem alignUp_lt {word value size : Nat} (small : value < word) : alignUp word value size < word := by
  unfold alignUp
  split_ifs
  · exact small
  · exact Nat.mod_lt _ (by omega)

theorem getTicketOffset_le : getTicketOffset header ≤ 0x200000080 := by
  have cert : getCertificateOffset header < 0x100000000 := alignUp_lt (field_lt header 0)
  have size : certSize header < 0x100000000 := field_lt header 8
  have aligned := alignUp_le wordSize
    ((getCertificateOffset header + certSize header) % wordSize) sectionAlignment
  have reduced := Nat.mod_le (getCertificateOffset header + certSize header) wordSize
  unfold getTicketOffset
  unfold sectionAlignment at *
  omega

theorem getTitleMetadataOffset_le : getTitleMetadataOffset header ≤ 0x300000100 := by
  have ticket := getTicketOffset_le header
  have size : tikSize header < 0x100000000 := field_lt header 0xC
  have aligned := alignUp_le wordSize
    ((getTicketOffset header + tikSize header) % wordSize) sectionAlignment
  have reduced := Nat.mod_le (getTicketOffset header + tikSize header) wordSize
  unfold getTitleMetadataOffset
  unfold sectionAlignment at *
  omega

theorem getMetadataOffset_lt : getMetadataOffset header < wordSize :=
  alignUp_lt (Nat.mod_lt _ (by decide))

end

theorem seek_eq {position offset : Nat} (near : offset < 0x8000000000000000) :
    seek position offset = offset := if_pos near

theorem read_onSuccess {position n : Nat} {next : List UInt8 → Exec (ResultStatus × CIAContainer)}
    {f : CIAContainer → Exec (ResultStatus × CIAContainer)} :
    (if (readBytes data position n).length ≠ n then .ok (.error, c)
      else onSuccess (next (readBytes data position n)) f) =
    onSuccess (if n ≤ (data.drop position).length then next ((data.drop position).take n)
      else .ok (.error, c)) f := by
  have length : (readBytes data position n).length = min n (data.drop position).length :=
    List.length_take
  by_cases fits : n ≤ (data.drop position).length
  · rw [if_neg (by omega), if_pos fits]
    rfl
  · rw [if_pos (by omega), if_neg fits]
    rfl

section

variable (small : data.length < wordSize) (long : headerSize ≤ data.length)
include small long

theorem loadFile_eq : c.loadFile data = .ok (cutStages c data (readBytes data
      (seek (getTitleMetadataOffset (headerOf data) + tmdSize (headerOf data))
        (getMetadataOffset (headerOf data))) metadataSize)) := by
  have dropped : ∀ offset, (data.drop offset).length < wordSize := by
    intro offset
    rw [List.length_drop]
    omega
  have ticket := getTicketOffset_le (headerOf data)
  have tmd := getTitleMetadataOffset_le (headerOf data)
  refine (@read_onSuccess c data 0 headerSize (fun bytes => c.loadHeader bytes 0) _).trans ?_
  rw [List.drop_zero, if_pos long, cut_header small long, onSuccess_ok, if_pos rfl]
  dsimp only
  rw [seek_eq (by omega)]
  refine (@read_onSuccess _ data _ _ (fun bytes => loadTicket _ bytes 0) _).trans ?_
  rw [cut_ticket (dropped _)]
  apply stages_eq
  · intro _
    dsimp only
    rw [seek_eq (by omega)]
    refine (@read_onSuccess _ data _ _ (fun bytes => loadTitleMetadata _ bytes 0) _).trans ?_
    rw [cut_tmd (dropped _)]
  · intro _ _
    unfold metadataStage
    by_cases more : metaSize (headerOf data) ≠ 0
    · rw [if_pos more, if_pos more]
      exact file_metadata
    · rw [if_neg more, if_neg more]

theorem loadMetadata_vector {offset : Nat} (word : offset < wordSize) :
    c.loadMetadata data offset =
      .ok (match (if offset ≤ data.length ∧ data.length < offset + metadataSize then none
          else some (data.take metadataSize)) with
        | some metadata => (.success, { c with metadata })
        | none => (.error, c)) := by
  have fits : metadataSize ≤ headerSize := by decide
  unfold loadMetadata
  by_cases inside : offset ≤ data.length
  · rw [sub64_eq inside small]
    by_cases short : data.length < offset + metadataSize
    · rw [if_pos (by omega), if_pos ⟨inside, short⟩]
      rfl
    · rw [if_neg (by omega), if_neg (fun both => short both.2), slice_eq (by omega)]
      rfl
  · -- the size wraps, and passes the check
    rw [sub64_past (by omega) word, if_neg (by omega), if_neg (fun both => inside both.1),
      slice_eq (by omega)]
    rfl

theorem loadVector_eq (at_ticket : getTicketOffset (headerOf data) ≤ data.length)
    (at_tmd : (c.ticket.parse ticketBodySize
        (data.drop (getTicketOffset (headerOf data)))).1 = .success →
      getTitleMetadataOffset (headerOf data) ≤ data.length) :
    c.loadVector data = .ok (vectorStages c data) := by
  unfold loadVector
  rw [loadHeader_eq long small, onSuccess_ok, if_pos rfl]
  rw [loadTicket_eq at_ticket small]
  apply stages_eq
  · intro loaded
    rw [loadTitleMetadata_eq (at_tmd loaded) small]
  · intro _ _
    unfold metadataStage
    by_cases more : metaSize (headerOf data) ≠ 0
    · rw [if_pos more, if_pos more]
      exact loadMetadata_vector small long (getMetadataOffset_lt _)
    · rw [if_neg more, if_neg more]

theorem loadVector_past_ticket (past : data.length < getTicketOffset (headerOf data)) :
    c.loadVector data = .error .undefinedBehaviour := by
  have near := getTicketOffset_le (headerOf data)
  have some : 4 ≤ headerSize := by decide
  unfold loadVector
  rw [loadHeader_eq long small, onSuccess_ok]
  unfold loadTicket
  rw [Signed.load_past past (Nat.lt_of_le_of_lt near (by decide)) (by omega)]
  rfl

theorem loadVector_past_tmd (at_ticket : getTicketOffset (headerOf data) ≤ data.length)
    (loaded : (c.ticket.parse ticketBodySize
      (data.drop (getTicketOffset (headerOf data)))).1 = .success)
    (past : data.length < getTitleMetadataOffset (headerOf data)) :
    c.loadVector data = .error .undefinedBehaviour := by
  have near := getTitleMetadataOffset_le (headerOf data)
  have some : 4 ≤ headerSize := by decide
  unfold loadVector
  rw [loadHeader_eq long small, onSuccess_ok]
  rw [loadTicket_eq at_ticket small, onSuccess_ok, if_pos loaded]
  unfold loadTitleMetadata
  rw [TitleMetadata.load_past past (Nat.lt_of_le_of_lt near (by decide)) (by omega)]
  rfl

end

theorem loads_short (holds : Holds read data) (small : data.length < wordSize)
    (short : data.length < headerSize) :
    c.loadBackend read = .ok (.error, c) ∧ c.loadFile data = .ok (.error, c) ∧
      c.loadVector data = .ok (.error, c) := by
  refine ⟨?_, ?_, ?_⟩
  · unfold loadBackend
    rw [readAll_eq holds _ _ _ rfl, List.drop_zero, if_neg (by omega)]
    rfl
  · have length : (readBytes data 0 headerSize).length ≠ headerSize := by
      rw [readBytes, List.length_take, List.drop_zero]
      omega
    unfold loadFile
    rw [if_pos length]
  · unfold loadVector loadHeader
    rw [sub64_eq (Nat.zero_le _) small, if_pos (by omega)]
    rfl

end CIAContainer
end EmuThreeDS.FileSys
