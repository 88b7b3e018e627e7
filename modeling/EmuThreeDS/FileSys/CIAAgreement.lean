import EmuThreeDS.FileSys.CIALoaders

/-!
# When the loaders of a CIA agree

The vector loader does not look at the sizes of the ticket and the title metadata in the header,
does not see that a section starts behind the data, and copies the metadata from the start of the
data. What that takes for the loaders to agree anyway.
-/
namespace EmuThreeDS.FileSys

/-- The first `size` bytes are there and hold a signed body. -/
def BodySized (bodySize : Nat) (bytes : List UInt8) (size : Nat) : Prop :=
  size ≤ bytes.length ∧ Fits (declaredSize bodySize bytes) size

/-- The first `size` bytes are there and hold title metadata with its content chunks. -/
def TmdSized (bytes : List UInt8) (size : Nat) : Prop :=
  size ≤ bytes.length ∧ Fits (tmdDeclaredSize bytes) size

section

variable {bytes : List UInt8} {bodySize size : Nat}

theorem BodySized.whole (h : BodySized bodySize bytes size) :
    BodySized bodySize bytes bytes.length := by
  obtain ⟨inside, n, declared, fits⟩ := h
  exact ⟨Nat.le_refl _, n, declared, by omega⟩

theorem TmdSized.whole (h : TmdSized bytes size) : TmdSized bytes bytes.length := by
  obtain ⟨inside, n, declared, fits⟩ := h
  exact ⟨Nat.le_refl _, n, declared, by omega⟩

theorem TmdSized.body (h : TmdSized bytes size) : BodySized tmdBodySize bytes size := by
  obtain ⟨inside, n, whole, fits⟩ := h
  obtain ⟨bodyEnd, declared, total⟩ := Option.map_eq_some_iff.mp whole
  exact ⟨inside, bodyEnd, declared, by omega⟩

theorem fits_take (inside : size ≤ bytes.length) :
    Fits (declaredSize bodySize (bytes.take size)) (bytes.take size).length ↔
      Fits (declaredSize bodySize bytes) size := by
  have length : (bytes.take size).length = size := by
    rw [List.length_take]
    omega
  rw [length]
  by_cases long : 4 ≤ size
  · rw [declaredSize_take long]
  · refine iff_of_false ?_ ?_
    · rintro ⟨n, declared, fits⟩
      have covers := declaredSize_covers declared
      omega
    · rintro ⟨n, declared, fits⟩
      have covers := declaredSize_covers declared
      omega

theorem tmdFits_take (inside : size ≤ bytes.length)
    (body : Fits (declaredSize tmdBodySize bytes) size) :
    Fits (tmdDeclaredSize (bytes.take size)) (bytes.take size).length ↔
      Fits (tmdDeclaredSize bytes) size := by
  obtain ⟨n, declared, fits⟩ := body
  have length : (bytes.take size).length = size := by
    rw [List.length_take]
    omega
  rw [length, TitleMetadata.tmdDeclaredSize_take declared fits]

theorem cutTicket_cases (old : Signed) (bytes : List UInt8) (size : Nat) :
    ¬ BodySized ticketBodySize bytes size ∧ (CIAContainer.cutTicket old bytes size).1 = .error ∨
    BodySized ticketBodySize bytes size ∧
      CIAContainer.cutTicket old bytes size = old.parse ticketBodySize bytes ∧
      (old.parse ticketBodySize bytes).1 = .success := by
  unfold CIAContainer.cutTicket
  by_cases inside : size ≤ bytes.length
  · rw [if_pos inside]
    by_cases fits : Fits (declaredSize ticketBodySize bytes) size
    · obtain ⟨n, declared, small⟩ := id fits
      exact .inr ⟨⟨inside, fits⟩, Signed.parse_take declared small inside,
        Signed.parse_success.mpr ⟨n, declared, by omega⟩⟩
    · refine .inl ⟨fun sized => fits sized.2, Signed.parse_error ?_⟩
      rwa [fits_take inside]
  · rw [if_neg inside]
    exact .inl ⟨fun sized => inside sized.1, rfl⟩

theorem cutTmd_cases (old : TitleMetadata) (bytes : List UInt8) (size : Nat) :
    ¬ BodySized tmdBodySize bytes size ∧ (CIAContainer.cutTmd old bytes size).1 = .error ∨
    BodySized tmdBodySize bytes size ∧ ¬ TmdSized bytes size ∧
      (CIAContainer.cutTmd old bytes size).1 = .errorInvalidFormat ∨
    TmdSized bytes size ∧ CIAContainer.cutTmd old bytes size = old.parse bytes ∧
      (old.parse bytes).1 = .success := by
  unfold CIAContainer.cutTmd
  by_cases inside : size ≤ bytes.length
  · rw [if_pos inside]
    rcases @TitleMetadata.parse_cases (bytes.take size) old with
      ⟨cut, status⟩ | ⟨body, cut, status⟩ | ⟨body, all, status⟩
    · rw [fits_take inside] at cut
      exact .inl ⟨fun sized => cut sized.2, status⟩
    · rw [fits_take inside] at body
      rw [tmdFits_take inside body] at cut
      exact .inr (.inl ⟨⟨inside, body⟩, fun sized => cut sized.2, status⟩)
    · rw [fits_take inside] at body
      rw [tmdFits_take inside body] at all
      obtain ⟨n, whole, small⟩ := id all
      have same := @TitleMetadata.parse_take n size bytes old whole small inside
      rw [same] at status ⊢
      exact .inr (.inr ⟨⟨inside, all⟩, rfl, status⟩)
  · rw [if_neg inside]
    exact .inl ⟨fun sized => inside sized.1, rfl⟩

end

namespace CIAContainer

variable {c : CIAContainer} {read : BackendRead} {data : List UInt8}

def ticketBytes (data : List UInt8) : List UInt8 := data.drop (getTicketOffset (headerOf data))

def tmdBytes (data : List UInt8) : List UInt8 := data.drop (getTitleMetadataOffset (headerOf data))

def loaded (c : CIAContainer) (data : List UInt8) : CIAContainer :=
  { c with
    header := headerOf data
    ticket := (c.ticket.parse ticketBodySize (ticketBytes data)).2
    tmd := (c.tmd.parse (tmdBytes data)).2 }

/-! What the header's sizes hold, and what the rest of the data holds. -/
section

variable (data)

def TicketSized : Prop := BodySized ticketBodySize (ticketBytes data) (tikSize (headerOf data))

def TmdBodySized : Prop := BodySized tmdBodySize (tmdBytes data) (tmdSize (headerOf data))

def TmdAllSized : Prop := TmdSized (tmdBytes data) (tmdSize (headerOf data))

def TicketWhole : Prop := BodySized ticketBodySize (ticketBytes data) (ticketBytes data).length

def TmdBodyWhole : Prop := BodySized tmdBodySize (tmdBytes data) (tmdBytes data).length

def TmdAllWhole : Prop := TmdSized (tmdBytes data) (tmdBytes data).length

end

theorem cutStages_cases (c : CIAContainer) (data metadata : List UInt8) :
    ¬ (TicketSized data ∧ TmdBodySized data) ∧ (cutStages c data metadata).1 = .error ∨
    TicketSized data ∧ TmdBodySized data ∧ ¬ TmdAllSized data ∧
      (cutStages c data metadata).1 = .errorInvalidFormat ∨ TicketSized data ∧ TmdAllSized data ∧
      cutStages c data metadata = metadataStage (loaded c data) (whole metadata) := by
  unfold cutStages stages
  dsimp only
  rcases cutTicket_cases c.ticket (ticketBytes data) (tikSize (headerOf data)) with
    ⟨cut, status⟩ | ⟨sized, same, status⟩
  · unfold ticketBytes at status
    rw [if_pos (by rw [status]; exact nofun)]
    exact .inl ⟨fun both => cut both.1, status⟩
  · unfold ticketBytes at same status
    rw [same, if_neg (not_not.mpr status)]
    rcases cutTmd_cases c.tmd (tmdBytes data) (tmdSize (headerOf data)) with
      ⟨cut, status⟩ | ⟨body, cut, status⟩ | ⟨all, same, status⟩
    · unfold tmdBytes at status
      rw [if_pos (by rw [status]; exact nofun)]
      exact .inl ⟨fun both => cut both.2, status⟩
    · unfold tmdBytes at status
      rw [if_pos (by rw [status]; exact nofun)]
      exact .inr (.inl ⟨sized, body, cut, status⟩)
    · unfold tmdBytes at same status
      rw [same, if_neg (not_not.mpr status)]
      exact .inr (.inr ⟨sized, all, rfl⟩)

/-- What the vector loader copies for the metadata: the start of the data, unless the data ends
inside the metadata. -/
def vectorMetadata (data : List UInt8) : Option (List UInt8) :=
  let offset := getMetadataOffset (headerOf data)
  if offset ≤ data.length ∧ data.length < offset + metadataSize then none
  else some (data.take metadataSize)

theorem vectorStages_cases (c : CIAContainer) (data : List UInt8) :
    ¬ (TicketWhole data ∧ TmdBodyWhole data) ∧ (vectorStages c data).1 = .error ∨
    TicketWhole data ∧ TmdBodyWhole data ∧ ¬ TmdAllWhole data ∧
      (vectorStages c data).1 = .errorInvalidFormat ∨ TicketWhole data ∧ TmdAllWhole data ∧
      vectorStages c data = metadataStage (loaded c data) (vectorMetadata data) := by
  unfold vectorStages stages
  by_cases sized : Fits (declaredSize ticketBodySize (ticketBytes data)) (ticketBytes data).length
  · have status := (@Signed.parse_success ticketBodySize (ticketBytes data) c.ticket).mpr sized
    unfold ticketBytes at status
    rw [if_neg (not_not.mpr status)]
    rcases @TitleMetadata.parse_cases (tmdBytes data) c.tmd with
      ⟨cut, status⟩ | ⟨body, cut, status⟩ | ⟨body, all, status⟩
    · unfold tmdBytes at status
      rw [if_pos (by rw [status]; exact nofun)]
      exact .inl ⟨fun both => cut both.2.2, status⟩
    · unfold tmdBytes at status
      rw [if_pos (by rw [status]; exact nofun)]
      exact .inr (.inl ⟨⟨Nat.le_refl _, sized⟩, ⟨Nat.le_refl _, body⟩, fun whole => cut whole.2,
        status⟩)
    · unfold tmdBytes at status
      rw [if_neg (not_not.mpr status)]
      exact .inr (.inr ⟨⟨Nat.le_refl _, sized⟩, ⟨Nat.le_refl _, all⟩, rfl⟩)
  · have status := @Signed.parse_error ticketBodySize (ticketBytes data) c.ticket sized
    unfold ticketBytes at status
    rw [if_pos (by rw [status]; exact nofun)]
    exact .inl ⟨fun both => sized both.1.2, status⟩

def Same (a b : ResultStatus × CIAContainer) : Prop := a.1 = b.1 ∧ (b.1 = .success → a.2 = b.2)

theorem metadataStage_some {metadata : Option (List UInt8)} {bytes : List UInt8}
    (served : metaSize c.header ≠ 0 → metadata = some bytes) :
    metadataStage c metadata =
      (.success, if metaSize c.header ≠ 0 then { c with metadata := bytes } else c) := by
  unfold metadataStage
  split_ifs with more
  · rw [served more]
  · rfl

theorem metadataStage_none (more : metaSize c.header ≠ 0) :
    metadataStage c none = (.error, c) := if_pos more

section

variable {metadata bytes : List UInt8}

/-- The vector is cut off inside the ticket or the body of the title metadata: so are the
sections. -/
theorem same_cut (cut : ¬ (TicketWhole data ∧ TmdBodyWhole data)) :
    Same (cutStages c data metadata) (vectorStages c data) := by
  have failed : (vectorStages c data).1 = .error := by
    rcases vectorStages_cases c data with ⟨-, status⟩ | ⟨ticket, body, -⟩ | ⟨ticket, all, -⟩
    · exact status
    · exact absurd ⟨ticket, body⟩ cut
    · exact absurd ⟨ticket, all.body⟩ cut
  have alike : (cutStages c data metadata).1 = .error := by
    rcases cutStages_cases c data metadata with ⟨-, status⟩ | ⟨ticket, body, -⟩ | ⟨ticket, all, -⟩
    · exact status
    · exact absurd ⟨ticket.whole, body.whole⟩ cut
    · exact absurd ⟨ticket.whole, all.whole.body⟩ cut
  exact ⟨alike.trans failed.symm, fun success => by rw [failed] at success; exact nomatch success⟩

theorem same_invalid (ticket : TicketWhole data) (body : TmdBodyWhole data)
    (cut : ¬ TmdAllWhole data) : Same (cutStages c data metadata) (vectorStages c data) ↔
      TicketSized data ∧ TmdBodySized data := by
  have failed : (vectorStages c data).1 = .errorInvalidFormat := by
    rcases vectorStages_cases c data with ⟨missing, -⟩ | ⟨-, -, -, status⟩ | ⟨-, all, -⟩
    · exact absurd ⟨ticket, body⟩ missing
    · exact status
    · exact absurd all cut
  rcases cutStages_cases c data metadata with
    ⟨missing, status⟩ | ⟨sized, bodySized, -, status⟩ | ⟨-, all, -⟩
  · refine iff_of_false ?_ missing
    rintro ⟨alike, -⟩
    rw [status, failed] at alike
    exact nomatch alike
  · refine iff_of_true ⟨status.trans failed.symm, ?_⟩ ⟨sized, bodySized⟩
    intro success
    rw [failed] at success
    exact nomatch success
  · exact absurd all.whole cut

theorem same_served (ticket : TicketWhole data) (all : TmdAllWhole data)
    (served : metaSize (headerOf data) ≠ 0 → vectorMetadata data = some bytes) :
    Same (cutStages c data metadata) (vectorStages c data) ↔ TicketSized data ∧ TmdAllSized data ∧
        (metaSize (headerOf data) ≠ 0 → whole metadata = some bytes) := by
  have success : vectorStages c data = (.success, if metaSize (headerOf data) ≠ 0 then
      { loaded c data with metadata := bytes } else loaded c data) := by
    rcases vectorStages_cases c data with ⟨missing, -⟩ | ⟨-, -, cut, -⟩ | ⟨-, -, stages⟩
    · exact absurd ⟨ticket, all.body⟩ missing
    · exact absurd all cut
    · rw [stages]
      exact metadataStage_some served
  rw [success]
  rcases cutStages_cases c data metadata with
    ⟨missing, status⟩ | ⟨-, -, cut, status⟩ | ⟨sized, allSized, stages⟩
  · refine iff_of_false ?_ (fun both => missing ⟨both.1, both.2.1.body⟩)
    rintro ⟨alike, -⟩
    rw [status] at alike
    exact nomatch alike
  · refine iff_of_false ?_ (fun both => cut both.2.1)
    rintro ⟨alike, -⟩
    rw [status] at alike
    exact nomatch alike
  · rw [stages]
    constructor
    · rintro ⟨alike, same⟩
      refine ⟨sized, allSized, fun more => ?_⟩
      cases found : whole metadata with
      | none =>
        rw [found, metadataStage_none more] at alike
        exact nomatch alike
      | some others =>
        have values := same rfl
        rw [found, metadataStage_some (fun _ => rfl)] at values
        have condition : metaSize (loaded c data).header ≠ 0 := more
        rw [if_pos condition, if_pos more] at values
        exact congrArg some (congrArg CIAContainer.metadata values)
    · rintro ⟨-, -, equal⟩
      rw [metadataStage_some equal]
      exact ⟨rfl, fun _ => rfl⟩

theorem same_refused (ticket : TicketWhole data) (all : TmdAllWhole data)
    (more : metaSize (headerOf data) ≠ 0) (refused : vectorMetadata data = none)
    (short : whole metadata = none) : Same (cutStages c data metadata) (vectorStages c data) ↔
      (TicketSized data → TmdBodySized data → TmdAllSized data) := by
  have failed : (vectorStages c data).1 = .error := by
    rcases vectorStages_cases c data with ⟨missing, -⟩ | ⟨-, -, cut, -⟩ | ⟨-, -, stages⟩
    · exact absurd ⟨ticket, all.body⟩ missing
    · exact absurd all cut
    · rw [stages, refused, metadataStage_none more]
  have never : (vectorStages c data).1 ≠ .success := by
    rw [failed]
    exact nofun
  rcases cutStages_cases c data metadata with
    ⟨missing, status⟩ | ⟨sized, body, cut, status⟩ | ⟨-, allSized, stages⟩
  · refine iff_of_true ⟨status.trans failed.symm, fun success => absurd success never⟩ ?_
    exact fun sized body => absurd ⟨sized, body⟩ missing
  · refine iff_of_false ?_ (fun follows => cut (follows sized body))
    rintro ⟨alike, -⟩
    rw [status, failed] at alike
    exact nomatch alike
  · rw [short, metadataStage_none more] at stages
    refine iff_of_true ⟨?_, fun success => absurd success never⟩ (fun _ _ => allSized)
    rw [stages, failed]

end

/-- Every loader answers, and the other two as the vector loader does. -/
def LoadersAgree (c : CIAContainer) (read : BackendRead) (data : List UInt8) : Prop :=
  ∃ backend file vector, c.loadBackend read = .ok backend ∧ c.loadFile data = .ok file ∧
    c.loadVector data = .ok vector ∧ Same backend vector ∧ Same file vector

/-- The metadata is at the start of the data as well. -/
def MetadataRepeated (data : List UInt8) : Prop :=
  (data.drop (getMetadataOffset (headerOf data))).take metadataSize = data.take metadataSize

/-- All of the title metadata is there: the header's sizes have to hold what the data holds. -/
def MetadataAgrees (data : List UInt8) : Prop :=
  let header := headerOf data
  let offset := getMetadataOffset header
  if metaSize header = 0 then TicketSized data ∧ TmdAllSized data
  else if offset + metadataSize ≤ data.length then
    TicketSized data ∧ TmdAllSized data ∧ MetadataRepeated data
  else offset ≤ data.length ∧ (TicketSized data → TmdBodySized data → TmdAllSized data)

/-- As far as the vector loader comes, the sections start inside the data, and it comes no
further than the header's sizes allow. -/
def SizesAgree (data : List UInt8) : Prop :=
  data.length < headerSize ∨
    getTicketOffset (headerOf data) ≤ data.length ∧
    (TicketWhole data → getTitleMetadataOffset (headerOf data) ≤ data.length ∧
      (TmdBodyWhole data →
        (TmdAllWhole data → MetadataAgrees data) ∧
        (¬ TmdAllWhole data → TicketSized data ∧ TmdBodySized data)))

section

variable (small : data.length < 0x8000000000000000)

include small

theorem loadersAgree_stages (holds : Holds read data) (long : headerSize ≤ data.length)
    (at_ticket : getTicketOffset (headerOf data) ≤ data.length)
    (at_tmd : TicketWhole data → getTitleMetadataOffset (headerOf data) ≤ data.length) :
    LoadersAgree c read data ↔ Same (cutStages c data
        ((data.drop (getMetadataOffset (headerOf data))).take metadataSize)) (vectorStages c data) ∧
      Same (cutStages c data (readBytes data
        (seek (getTitleMetadataOffset (headerOf data) + tmdSize (headerOf data))
          (getMetadataOffset (headerOf data))) metadataSize)) (vectorStages c data) := by
  have word : data.length < wordSize := Nat.lt_trans small (by decide)
  have vector : c.loadVector data = .ok (vectorStages c data) := by
    apply loadVector_eq word long at_ticket
    intro loaded
    exact at_tmd ⟨Nat.le_refl _, Signed.parse_success.mp loaded⟩
  have backend := @loadBackend_eq c read data holds word long
  have file := @loadFile_eq c data word long
  constructor
  · rintro ⟨b, f, v, answersB, answersF, answersV, sameB, sameF⟩
    rw [backend] at answersB
    rw [file] at answersF
    rw [vector] at answersV
    cases answersB
    cases answersF
    cases answersV
    exact ⟨sameB, sameF⟩
  · rintro ⟨sameB, sameF⟩
    exact ⟨_, _, _, backend, file, vector, sameB, sameF⟩

theorem loadersAgree_past (long : headerSize ≤ data.length)
    (past : data.length < getTicketOffset (headerOf data) ∨
      getTicketOffset (headerOf data) ≤ data.length ∧ TicketWhole data ∧
        data.length < getTitleMetadataOffset (headerOf data)) : ¬ LoadersAgree c read data := by
  have word : data.length < wordSize := Nat.lt_trans small (by decide)
  have outside : c.loadVector data = .error .undefinedBehaviour := by
    rcases past with past | ⟨at_ticket, ticket, past⟩
    · exact loadVector_past_ticket word long past
    · exact loadVector_past_tmd word long at_ticket (Signed.parse_success.mpr ticket.2) past
  rintro ⟨-, -, v, -, -, answers, -⟩
  rw [outside] at answers
  exact nomatch answers

theorem metadataAgrees_iff (ticket : TicketWhole data) (all : TmdAllWhole data) :
    Same (cutStages c data ((data.drop (getMetadataOffset (headerOf data))).take metadataSize))
        (vectorStages c data) ∧ Same (cutStages c data (readBytes data
        (seek (getTitleMetadataOffset (headerOf data) + tmdSize (headerOf data))
          (getMetadataOffset (headerOf data))) metadataSize)) (vectorStages c data) ↔
    MetadataAgrees data := by
  have length : ((data.drop (getMetadataOffset (headerOf data))).take metadataSize).length =
      min metadataSize (data.length - getMetadataOffset (headerOf data)) := by
    rw [List.length_take, List.length_drop]
  unfold MetadataAgrees
  by_cases none : metaSize (headerOf data) = 0
  · have same := fun metadata =>
      @same_served c data metadata [] ticket all (fun more => absurd none more)
    rw [same, same, if_pos none]
    exact ⟨fun both => ⟨both.1.1, both.1.2.1⟩, fun both =>
      ⟨⟨both.1, both.2, fun more => absurd none more⟩, both.1, both.2, fun more => absurd none more⟩⟩
  · rw [if_neg none]
    by_cases inside : getMetadataOffset (headerOf data) ≤ data.length
    · rw [seek_eq (by omega)]
      unfold readBytes
      rw [and_self_iff]
      by_cases fits : getMetadataOffset (headerOf data) + metadataSize ≤ data.length
      · have served : vectorMetadata data = some (data.take metadataSize) := if_neg (by omega)
        rw [same_served ticket all (fun _ => served), if_pos fits, whole, if_pos (by omega),
          Option.some_inj]
        exact and_congr_right fun _ => and_congr_right fun _ => ⟨fun same => same none, fun h _ => h⟩
      · have refused : vectorMetadata data = Option.none := if_pos (by omega)
        have short : whole ((data.drop (getMetadataOffset (headerOf data))).take metadataSize) =
            Option.none := if_neg (by omega)
        rw [same_refused ticket all none refused short, if_neg fits]
        exact ⟨fun follows => ⟨inside, follows⟩, fun both => both.2⟩
    · -- the vector loader serves the start of the data, the backend has nothing to read
      have served : vectorMetadata data = some (data.take metadataSize) :=
        if_neg (fun both => inside both.1)
      have empty : whole ((data.drop (getMetadataOffset (headerOf data))).take metadataSize) =
          Option.none :=
        if_neg (by rw [length]; exact fun full => by unfold metadataSize at full; omega)
      rw [same_served ticket all (fun _ => served), empty, if_neg (by omega)]
      refine iff_of_false ?_ (fun both => inside both.1)
      rintro ⟨⟨-, -, same⟩, -⟩
      exact nomatch same none

end

/-- The loaders agree on a CIA, and read nothing outside of it, exactly when the sizes do. -/
theorem loaders_agree_iff (c : CIAContainer) (read : BackendRead) (data : List UInt8)
    (holds : Holds read data) (small : data.length < 0x8000000000000000) :
    LoadersAgree c read data ↔ SizesAgree data := by
  unfold SizesAgree
  by_cases short : data.length < headerSize
  · obtain ⟨backend, file, vector⟩ := @loads_short c read data holds (Nat.lt_trans small (by decide)) short
    exact iff_of_true ⟨_, _, _, backend, file, vector, ⟨rfl, fun _ => rfl⟩, rfl, fun _ => rfl⟩
      (.inl short)
  have long : headerSize ≤ data.length := Nat.le_of_not_lt short
  rw [or_iff_right short]
  by_cases at_ticket : getTicketOffset (headerOf data) ≤ data.length
  · by_cases past : TicketWhole data ∧ data.length < getTitleMetadataOffset (headerOf data)
    · refine iff_of_false (loadersAgree_past small long (.inr ⟨at_ticket, past⟩)) ?_
      rintro ⟨-, follows⟩
      exact absurd (follows past.1).1 (Nat.not_le.mpr past.2)
    have at_tmd (ticket : TicketWhole data) :
        getTitleMetadataOffset (headerOf data) ≤ data.length := by
      by_contra outside
      exact past ⟨ticket, Nat.lt_of_not_le outside⟩
    rw [loadersAgree_stages small holds long at_ticket at_tmd]
    by_cases both : TicketWhole data ∧ TmdBodyWhole data
    · obtain ⟨ticket, body⟩ := both
      by_cases all : TmdAllWhole data
      · rw [metadataAgrees_iff small ticket all]
        exact ⟨fun agrees => ⟨at_ticket, fun _ => ⟨at_tmd ticket, fun _ =>
            ⟨fun _ => agrees, fun cut => absurd all cut⟩⟩⟩,
          fun follows => ((follows.2 ticket).2 body).1 all⟩
      · rw [same_invalid ticket body all, same_invalid ticket body all, and_self_iff]
        exact ⟨fun sized => ⟨at_ticket, fun _ => ⟨at_tmd ticket, fun _ =>
            ⟨fun whole => absurd whole all, fun _ => sized⟩⟩⟩,
          fun follows => ((follows.2 ticket).2 body).2 all⟩
    · exact iff_of_true ⟨same_cut both, same_cut both⟩ ⟨at_ticket, fun ticket =>
        ⟨at_tmd ticket, fun body => absurd ⟨ticket, body⟩ both⟩⟩
  · refine iff_of_false (loadersAgree_past small long (.inl (Nat.lt_of_not_le at_ticket))) ?_
    exact fun follows => at_ticket follows.1

def fresh : CIAContainer := ⟨[], [], ⟨0, [], []⟩, ⟨0, [], []⟩, []⟩

def memoryRead (data : List UInt8) : BackendRead := fun offset length =>
  .ok ((data.drop offset).take length)

theorem holds_memoryRead (data : List UInt8) : Holds (memoryRead data) data :=
  fun _ _ => .inl rfl

def headerOnly (first : List UInt8) : List UInt8 := first ++ List.replicate (headerSize - 4) 0

theorem length_headerOnly {first : List UInt8} (length : first.length = 4) :
    (headerOnly first).length = headerSize := by
  rw [headerOnly, List.length_append, List.length_replicate, length]
  decide

/-- A ticket at 0x2040 and title metadata with one content chunk at 0x22C0. -/
def signedCia : List UInt8 :=
  [[0x20, 0x20, 0, 0, 0, 0, 0, 0, 0, 0, 0, 0, 0x50, 2, 0, 0, 0x34, 0xA], zeros 0x202E,
    [0, 1, 0, 5], zeros 0x27C, [0, 1, 0, 5], zeros 0xDA, [0, 1], zeros 0x954].flatten
where
  zeros (n : Nat) : List UInt8 := List.replicate n 0

theorem loaders_agree_iff_signed : TicketWhole signedCia ∧ TmdAllWhole signedCia ∧
    LoadersAgree fresh (memoryRead signedCia) signedCia := by
  have long : signedCia.length = 0x2CF4 := by decide +kernel
  have ticket : TicketSized signedCia :=
    ⟨by decide +kernel, 0x250, by decide +kernel, by decide +kernel⟩
  have all : TmdAllSized signedCia :=
    ⟨by decide +kernel, 0xA34, by decide +kernel, by decide +kernel⟩
  refine ⟨ticket.whole, all.whole, ?_⟩
  apply (loaders_agree_iff _ _ _ (holds_memoryRead _) (by rw [long]; decide)).mpr
  refine .inr ⟨by decide +kernel, fun _ => ⟨by decide +kernel, fun _ => ⟨fun _ => ?_, ?_⟩⟩⟩
  · have noMeta : metaSize (headerOf signedCia) = 0 := by decide +kernel
    unfold MetadataAgrees
    rw [if_pos noMeta]
    exact ⟨ticket, all⟩
  · exact fun cut => absurd all.whole cut

/-- The vector loader looks for the ticket behind the end of the data. -/
theorem loaders_disagree :
    ¬ LoadersAgree fresh (memoryRead (headerOnly [0, 0, 1, 0])) (headerOnly [0, 0, 1, 0]) := by
  have length : (headerOnly [0, 0, 1, 0]).length = headerSize := length_headerOnly rfl
  apply loadersAgree_past (by rw [length]; decide) (Nat.le_of_eq length.symm)
  rw [length]
  exact .inl (by decide)

end CIAContainer
end EmuThreeDS.FileSys
