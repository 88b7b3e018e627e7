import EmuThreeDS.FileSys.CIAContainer
import Mathlib.Data.List.Basic

/-!
# The sections of a CIA

What a ticket or title metadata says about its own size, and what loading it gives when the bytes
from its start on are taken whole or cut off.
-/
namespace EmuThreeDS.FileSys

variable {bodySize n k : Nat} {bytes data : List UInt8} {offset : Nat}

/-- The bytes up to the end of the body, where the signature type is known. -/
def declaredSize (bodySize : Nat) (bytes : List UInt8) : Option Nat :=
  let signatureSize := getSignatureSize (beValue (bytes.take 4))
  if bytes.length < 4 ∨ signatureSize = 0 then none else some (bodyStart signatureSize + bodySize)

def tmdDeclaredSize (bytes : List UInt8) : Option Nat :=
  (declaredSize tmdBodySize bytes).map fun bodyEnd =>
    bodyEnd + contentCount ((bytes.drop (bodyEnd - tmdBodySize)).take tmdBodySize) *
      contentChunkSize

def Fits (size : Option Nat) (k : Nat) : Prop := ∃ n ∈ size, n ≤ k

theorem getSignatureSize_cases (type : Nat) : getSignatureSize type = 0 ∨
    getSignatureSize type = 0x3C ∨ getSignatureSize type = 0x100 ∨
      getSignatureSize type = 0x200 := by
  unfold getSignatureSize
  split_ifs <;> simp

theorem bodyStart_covers {type : Nat} (known : getSignatureSize type ≠ 0) :
    getSignatureSize type + 4 ≤ bodyStart (getSignatureSize type) := by
  rcases getSignatureSize_cases type with none | size | size | size
  · exact absurd none known
  · rw [size]
    decide
  · rw [size]
    decide
  · rw [size]
    decide

def Signed.parse (bodySize : Nat) (old : Signed) (bytes : List UInt8) : ResultStatus × Signed :=
  let signatureType := beValue (bytes.take 4)
  let signatureSize := getSignatureSize signatureType
  if bytes.length < 4 then (.error, old)
  else if signatureSize = 0 ∨ bytes.length < bodyStart signatureSize + bodySize then
    (.error, { old with signatureType })
  else (.success, ⟨signatureType, (bytes.drop 4).take signatureSize,
    (bytes.drop (bodyStart signatureSize)).take bodySize⟩)

theorem Signed.load_eq {old : Signed} (inside : offset ≤ data.length)
    (small : data.length < wordSize) :
    old.load bodySize data offset = .ok (old.parse bodySize (data.drop offset)) := by
  have length : (data.drop offset).length = data.length - offset := List.length_drop
  unfold Signed.load Signed.parse
  rw [sub64_eq inside small, length]
  by_cases short : data.length - offset < 4
  · rw [if_pos short, if_pos short]
    rfl
  · rw [if_neg short, if_neg short, slice_eq (by omega), ok_bind]
    generalize beValue ((data.drop offset).take 4) = type
    by_cases unknown : getSignatureSize type = 0
    · rw [if_pos unknown, if_pos (.inl unknown)]
      rfl
    · have covers := bodyStart_covers unknown
      rw [if_neg unknown]
      by_cases cut : data.length - offset < bodyStart (getSignatureSize type) + bodySize
      · rw [if_pos cut, if_pos (.inr cut)]
        rfl
      · rw [if_neg cut, if_neg (by simp only [unknown, cut, or_self, not_false_iff]),
          slice_eq (by omega), slice_eq (by omega), List.drop_drop,
          List.drop_drop]
        rfl

theorem Signed.load_past {old : Signed} (past : data.length < offset) (word : offset < wordSize)
    (some : 4 ≤ data.length) : old.load bodySize data offset = .error .undefinedBehaviour := by
  unfold Signed.load
  rw [sub64_past past word, if_neg (by omega), slice_past (by omega)]
  rfl

theorem declaredSize_eq_some : n ∈ declaredSize bodySize bytes ↔
    4 ≤ bytes.length ∧ getSignatureSize (beValue (bytes.take 4)) ≠ 0 ∧
      bodyStart (getSignatureSize (beValue (bytes.take 4))) + bodySize = n := by
  unfold declaredSize
  dsimp only
  split_ifs with none
  · refine iff_of_false nofun ?_
    omega
  · rw [Option.mem_some_iff]
    constructor
    · rintro rfl
      exact ⟨by omega, fun unknown => none (.inr unknown), rfl⟩
    · rintro ⟨-, -, same⟩
      exact same

theorem Signed.parse_success {old : Signed} :
    (old.parse bodySize bytes).1 = .success ↔ Fits (declaredSize bodySize bytes) bytes.length := by
  unfold Signed.parse Fits
  simp only [declaredSize_eq_some]
  split_ifs with short refused
  · refine iff_of_false nofun ?_
    omega
  · refine iff_of_false nofun ?_
    rintro ⟨n, ⟨-, known, rfl⟩, fits⟩
    rcases refused with unknown | cut
    · exact known unknown
    · omega
  · refine iff_of_true rfl ⟨_, ⟨by omega, fun unknown => refused (.inl unknown), rfl⟩, ?_⟩
    by_contra cut
    exact refused (.inr (by omega))

theorem Signed.parse_error {old : Signed}
    (cut : ¬ Fits (declaredSize bodySize bytes) bytes.length) :
    (old.parse bodySize bytes).1 = .error := by
  rw [← @parse_success bodySize bytes old] at cut
  unfold Signed.parse at cut ⊢
  dsimp only at cut ⊢
  split_ifs at cut ⊢
  · rfl
  · rfl
  · exact absurd rfl cut

theorem declaredSize_take (long : 4 ≤ k) :
    declaredSize bodySize (bytes.take k) = declaredSize bodySize bytes := by
  have same : (bytes.take k).take 4 = bytes.take 4 := by
    rw [List.take_take, Nat.min_eq_left long]
  have short : (bytes.take k).length < 4 ↔ bytes.length < 4 := by
    rw [List.length_take]
    omega
  unfold declaredSize
  rw [same]
  simp only [short]

theorem declaredSize_covers (declared : n ∈ declaredSize bodySize bytes) :
    4 ≤ n ∧ 4 ≤ bytes.length ∧ bodySize ≤ n := by
  obtain ⟨long, known, rfl⟩ := declaredSize_eq_some.mp declared
  have covers := bodyStart_covers known
  exact ⟨by omega, long, by omega⟩

theorem take_drop_take {i j : Nat} (inside : i + j ≤ k) :
    ((bytes.take k).drop i).take j = (bytes.drop i).take j := by
  rw [List.drop_take, List.take_take, Nat.min_eq_left (by omega)]

theorem Signed.parse_take {old : Signed} (declared : n ∈ declaredSize bodySize bytes)
    (kept : n ≤ k) (inside : k ≤ bytes.length) :
    old.parse bodySize (bytes.take k) = old.parse bodySize bytes := by
  obtain ⟨long, known, rfl⟩ := declaredSize_eq_some.mp declared
  have covers := bodyStart_covers known
  have same : (bytes.take k).take 4 = bytes.take 4 := by
    rw [List.take_take, Nat.min_eq_left (by omega)]
  have length : (bytes.take k).length = k := by
    rw [List.length_take]
    omega
  unfold Signed.parse
  rw [same, if_neg (by omega), if_neg (by omega), if_neg (by omega), if_neg (by omega),
    take_drop_take (by omega), take_drop_take (by omega)]

theorem Signed.parse_eq {old : Signed} (declared : n ∈ declaredSize bodySize bytes)
    (fits : n ≤ bytes.length) : ∃ r, old.parse bodySize bytes = (.success, r) ∧
      bodyStart (getSignatureSize r.signatureType) + bodySize = n ∧
      r.body = (bytes.drop (n - bodySize)).take bodySize := by
  obtain ⟨long, known, rfl⟩ := declaredSize_eq_some.mp declared
  unfold parse
  rw [if_neg (by omega), if_neg (by omega)]
  refine ⟨_, rfl, rfl, ?_⟩
  rw [Nat.add_sub_cancel]

section

variable {count : Nat}

def chunksOf : Nat → List UInt8 → List (List UInt8)
  | 0, _ => []
  | count + 1, bytes =>
    bytes.take contentChunkSize :: chunksOf count (bytes.drop contentChunkSize)

theorem loadChunks_eq (inside : offset + count * contentChunkSize ≤ data.length) :
    loadChunks data count offset = .ok (chunksOf count (data.drop offset)) := by
  induction count generalizing offset with
  | zero => rfl
  | succ count ih =>
    rw [Nat.succ_mul] at inside
    rw [loadChunks, slice_eq (by omega), ih (by omega), chunksOf,
      List.drop_drop]
    rfl

theorem chunksOf_take (kept : count * contentChunkSize ≤ k) :
    chunksOf count (bytes.take k) = chunksOf count bytes := by
  induction count generalizing bytes k with
  | zero => rfl
  | succ count ih =>
    rw [Nat.succ_mul] at kept
    have later := @ih (k - contentChunkSize) (bytes.drop contentChunkSize) (by omega)
    rw [chunksOf, chunksOf, List.take_take, Nat.min_eq_left (by omega), List.drop_take, later]

end

namespace TitleMetadata

def parse (old : TitleMetadata) (bytes : List UInt8) : ResultStatus × TitleMetadata :=
  let r := old.signed.parse tmdBodySize bytes
  let bodyEnd := bodyStart (getSignatureSize r.2.signatureType) + tmdBodySize
  let count := contentCount r.2.body
  if r.1 ≠ .success then (r.1, { old with signed := r.2 })
  else if bytes.length < bodyEnd + count * contentChunkSize then
    (.errorInvalidFormat, { old with signed := r.2 })
  else (.success, ⟨r.2, old.chunks ++ chunksOf count (bytes.drop bodyEnd)⟩)

variable {old : TitleMetadata}

theorem load_eq (inside : offset ≤ data.length) (small : data.length < wordSize) :
    old.load data offset = .ok (old.parse (data.drop offset)) := by
  have length : (data.drop offset).length = data.length - offset := List.length_drop
  unfold load parse
  rw [Signed.load_eq inside small, ok_bind, sub64_eq inside small, length]
  dsimp only
  split_ifs with failed cut
  · rfl
  · rfl
  · rw [loadChunks_eq (by omega), List.drop_drop]
    rfl

theorem load_past (past : data.length < offset) (word : offset < wordSize)
    (some : 4 ≤ data.length) : old.load data offset = .error .undefinedBehaviour := by
  unfold load
  rw [Signed.load_past past word some]
  rfl

theorem parse_cases : (¬ Fits (declaredSize tmdBodySize bytes) bytes.length ∧
      (old.parse bytes).1 = .error) ∨ (Fits (declaredSize tmdBodySize bytes) bytes.length ∧
      ¬ Fits (tmdDeclaredSize bytes) bytes.length ∧ (old.parse bytes).1 = .errorInvalidFormat) ∨
    (Fits (declaredSize tmdBodySize bytes) bytes.length ∧
      Fits (tmdDeclaredSize bytes) bytes.length ∧ (old.parse bytes).1 = .success) := by
  by_cases body : Fits (declaredSize tmdBodySize bytes) bytes.length
  · obtain ⟨n, declared, fits⟩ := id body
    obtain ⟨r, parsed, at_end, at_body⟩ := @Signed.parse_eq tmdBodySize n _ old.signed declared fits
    have whole : tmdDeclaredSize bytes = some (n + contentCount r.body * contentChunkSize) := by
      rw [tmdDeclaredSize, Option.mem_def.mp declared, Option.map_some, at_body]
    unfold parse
    rw [parsed]
    dsimp only
    rw [if_neg (not_not.mpr rfl)]
    split_ifs with cut
    · refine .inr (.inl ⟨body, ?_, rfl⟩)
      rintro ⟨m, same, enough⟩
      rw [whole, Option.mem_some_iff] at same
      omega
    · refine .inr (.inr ⟨body, ⟨_, whole, ?_⟩, rfl⟩)
      omega
  · have failed := @Signed.parse_error tmdBodySize bytes old.signed body
    refine .inl ⟨body, ?_⟩
    unfold parse
    rw [if_pos (by rw [failed]; exact nofun), failed]

theorem tmdDeclaredSize_take (declared : n ∈ declaredSize tmdBodySize bytes) (kept : n ≤ k) :
    tmdDeclaredSize (bytes.take k) = tmdDeclaredSize bytes := by
  obtain ⟨long, -, covers⟩ := declaredSize_covers declared
  unfold tmdDeclaredSize
  rw [declaredSize_take (by omega), Option.mem_def.mp declared, Option.map_some, Option.map_some,
    take_drop_take (by omega)]

theorem parse_take (whole : n ∈ tmdDeclaredSize bytes) (kept : n ≤ k) (inside : k ≤ bytes.length) :
    old.parse (bytes.take k) = old.parse bytes := by
  obtain ⟨bodyEnd, declared, size⟩ := Option.map_eq_some_iff.mp whole
  obtain ⟨r, parsed, at_end, at_body⟩ :=
    @Signed.parse_eq tmdBodySize bodyEnd _ old.signed declared (by omega)
  have length : (bytes.take k).length = k := by
    rw [List.length_take]
    omega
  unfold parse
  rw [Signed.parse_take declared (by omega) inside, parsed]
  dsimp only
  rw [if_neg (not_not.mpr rfl), if_neg (not_not.mpr rfl), at_body, if_neg (by omega),
    if_neg (by omega), List.drop_take, chunksOf_take (by omega)]

end TitleMetadata
end EmuThreeDS.FileSys
