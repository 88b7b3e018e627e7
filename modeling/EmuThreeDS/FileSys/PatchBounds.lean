import EmuThreeDS.FileSys.Patch

/-!
# Patches and the ends of their buffers

Which patches are applied without a read or a write outside of a buffer: those whose records and
footer are there, and whose target copies do not start in front of the target.
-/
namespace EmuThreeDS.FileSys.Patch

open StepLoop

/-- What a vector can hold. -/
def maxSize : Nat := 0x8000000000000000

section

variable (ips : List UInt8) (size : Nat)

def numberAt (cursor count : Nat) : Nat := beValue ((ips.drop cursor).take count)

def offsetAt (cursor : Nat) : Nat := numberAt ips cursor 3

def lengthAt (cursor : Nat) : Nat := numberAt ips (cursor + 3) 2

def runLengthAt (cursor : Nat) : Nat := numberAt ips (cursor + 5) 2

def TakenUp (cursor : Nat) : Prop :=
  cursor + 3 < ips.length ∧ (ips.drop cursor).take 3 ≠ ipsEof

/-- The record is in the patch, as far as it is read: the data of one that does not fit the buffer
is not. -/
def RecordInside (cursor : Nat) : Prop :=
  cursor + 5 ≤ ips.length ∧
    if lengthAt ips cursor = 0 then
      cursor + 7 ≤ ips.length ∧
        (0 < runLengthAt ips cursor → offsetAt ips cursor + runLengthAt ips cursor ≤ size →
          cursor + 8 ≤ ips.length)
    else
      offsetAt ips cursor + lengthAt ips cursor ≤ size →
        cursor + 5 + lengthAt ips cursor ≤ ips.length

def nextRecord (cursor : Nat) : Option Nat :=
  if lengthAt ips cursor = 0 then
    if offsetAt ips cursor + runLengthAt ips cursor ≤ size then some (cursor + 8) else none
  else
    if offsetAt ips cursor + lengthAt ips cursor ≤ size then
      some (cursor + lengthAt ips cursor + 5)
    else none

inductive RecordAt : Nat → Prop where
  | first : RecordAt 5
  | next {cursor behind : Nat} : RecordAt cursor → TakenUp ips cursor →
      nextRecord ips size cursor = some behind → RecordAt behind

/-- The header is there, and with it each record up to the end marker or the end of the patch. -/
def IpsInside : Prop :=
  5 ≤ ips.length ∧ (ips.take 5 = ipsHeader →
    ∀ cursor, RecordAt ips size cursor → TakenUp ips cursor → RecordInside ips size cursor)

end

variable {ips buffer : List UInt8} {size : Nat} {s t : IpsState}

variable {cursor count source stop : Nat}

theorem bigEndian_eq (inside : cursor + count ≤ ips.length) :
    bigEndian ips cursor count = .ok (numberAt ips cursor count) := by
  unfold bigEndian
  rw [slice_eq inside]
  rfl

theorem bigEndian_outside (outside : ips.length < cursor + count) :
    bigEndian ips cursor count = .error .undefinedBehaviour := by
  unfold bigEndian slice
  rw [if_neg (Nat.not_le_of_lt outside)]
  rfl

theorem fill_returns {left offset : Nat} (inside : source < ips.length)
    (room : offset + left ≤ buffer.length) :
    Returns (fill ips source left offset buffer) fun next => next.length = buffer.length := by
  induction left generalizing offset buffer with
  | zero => exact returns_ok rfl
  | succ left ih =>
    apply returns_bind (Buffer.get_returns inside)
    intro data _
    rw [Buffer.set_of_lt (by omega)]
    apply (ih (by rw [List.length_set]; omega)).mono
    intro next same
    rw [same, List.length_set]

theorem fill_outside {left offset : Nat} (outside : ips.length ≤ source) (some : 0 < left) :
    ¬ Answers (fill ips source left offset buffer) := by
  obtain ⟨left, rfl⟩ : ∃ n, left = n + 1 := ⟨left - 1, by omega⟩
  unfold fill
  rw [Buffer.get_of_le outside]
  exact not_answers_error _

/-- What a record leads to: the next one, or the end where it does not fit the buffer. -/
def Leads (s : IpsState) : Option Nat → (Bool × List UInt8) ⊕ IpsState → Prop
  | none, result => result = .inl (false, s.buffer)
  | some behind, result =>
    ∃ next, result = .inr ⟨behind, next⟩ ∧ next.length = s.buffer.length

theorem rleRecord_inside (rle : lengthAt ips s.cursor = 0)
    (inside : RecordInside ips s.buffer.length s.cursor) :
    Returns (rleRecord ips (offsetAt ips s.cursor) s)
      (Leads s (nextRecord ips s.buffer.length s.cursor)) := by
  obtain ⟨-, inside⟩ := inside
  rw [if_pos rle] at inside
  obtain ⟨enough, data⟩ := inside
  have length : bigEndian ips (s.cursor + 5) 2 = .ok (runLengthAt ips s.cursor) :=
    bigEndian_eq enough
  unfold rleRecord nextRecord
  rw [if_pos rle, length, ok_bind]
  by_cases fits : offsetAt ips s.cursor + runLengthAt ips s.cursor ≤ s.buffer.length
  · rw [if_neg (Nat.not_lt_of_le fits), if_pos fits]
    apply returns_bind (P := fun next => next.length = s.buffer.length)
    · rcases Nat.eq_zero_or_pos (runLengthAt ips s.cursor) with zero | some
      · rw [zero]
        exact returns_ok rfl
      · exact fill_returns (Nat.lt_of_succ_le (data some fits)) fits
    · exact fun next same => returns_ok ⟨next, rfl, same⟩
  · rw [if_pos (Nat.lt_of_not_le fits), if_neg fits]
    exact returns_ok rfl

theorem rleRecord_outside (header : s.cursor + 5 ≤ ips.length) (rle : lengthAt ips s.cursor = 0)
    (outside : ¬ RecordInside ips s.buffer.length s.cursor) :
    ¬ Answers (rleRecord ips (offsetAt ips s.cursor) s) := by
  unfold RecordInside at outside
  rw [if_pos rle] at outside
  unfold rleRecord
  rcases Nat.lt_or_ge ips.length (s.cursor + 5 + 2) with short | enough
  · rw [bigEndian_outside short]
    exact not_answers_error _
  · have length : bigEndian ips (s.cursor + 5) 2 = .ok (runLengthAt ips s.cursor) :=
      bigEndian_eq enough
    rw [length, ok_bind]
    by_cases reads : 0 < runLengthAt ips s.cursor ∧
        offsetAt ips s.cursor + runLengthAt ips s.cursor ≤ s.buffer.length
    · rw [if_neg (Nat.not_lt_of_le reads.2), answers_return]
      refine fill_outside (Nat.le_of_not_lt fun source => outside ?_) reads.1
      exact ⟨header, enough, fun _ _ => source⟩
    · exact absurd ⟨header, enough, fun some fits => absurd ⟨some, fits⟩ reads⟩ outside

theorem dataRecord_inside (long : lengthAt ips s.cursor ≠ 0)
    (inside : RecordInside ips s.buffer.length s.cursor) :
    Returns (dataRecord ips (offsetAt ips s.cursor) (lengthAt ips s.cursor) s)
      (Leads s (nextRecord ips s.buffer.length s.cursor)) := by
  obtain ⟨-, inside⟩ := inside
  rw [if_neg long] at inside
  unfold dataRecord nextRecord
  rw [if_neg long]
  by_cases fits : offsetAt ips s.cursor + lengthAt ips s.cursor ≤ s.buffer.length
  · have data := inside fits
    have length : ((ips.drop (s.cursor + 5)).take (lengthAt ips s.cursor)).length =
        lengthAt ips s.cursor := by
      rw [List.length_take, List.length_drop]
      omega
    rw [if_neg (Nat.not_lt_of_le fits), if_pos fits, slice_eq data, ok_bind]
    unfold Buffer.write
    rw [length, if_pos fits]
    refine returns_ok ⟨_, rfl, ?_⟩
    rw [List.length_append, List.length_append, List.length_take, List.length_drop]
    omega
  · rw [if_pos (Nat.lt_of_not_le fits), if_neg fits]
    exact returns_ok rfl

theorem dataRecord_outside (header : s.cursor + 5 ≤ ips.length) (long : lengthAt ips s.cursor ≠ 0)
    (outside : ¬ RecordInside ips s.buffer.length s.cursor) :
    ¬ Answers (dataRecord ips (offsetAt ips s.cursor) (lengthAt ips s.cursor) s) := by
  unfold RecordInside at outside
  rw [if_neg long] at outside
  have missing : ¬ (offsetAt ips s.cursor + lengthAt ips s.cursor ≤ s.buffer.length →
      s.cursor + 5 + lengthAt ips s.cursor ≤ ips.length) := fun data => outside ⟨header, data⟩
  obtain ⟨fits, short⟩ := Classical.not_imp.mp missing
  unfold dataRecord slice
  rw [if_neg (Nat.not_lt_of_le fits), if_neg short]
  exact not_answers_error _

section

variable (small : ips.length < wordSize) (header : 5 ≤ ips.length)
include small header

theorem ipsRecord_eq (taken : TakenUp ips s.cursor) :
    ipsRecord ips s = bigEndian ips (s.cursor + 3) 2 >>= fun length =>
      if length = 0 then rleRecord ips (offsetAt ips s.cursor) s
      else dataRecord ips (offsetAt ips s.cursor) length s := by
  obtain ⟨before, notEof⟩ := taken
  have three : s.cursor + 3 ≤ ips.length := Nat.le_of_lt before
  have offset : bigEndian ips s.cursor 3 = .ok (offsetAt ips s.cursor) := bigEndian_eq three
  unfold ipsRecord
  rw [sub64_eq (by omega) small, if_pos (by omega), slice_eq three, ok_bind, if_neg notEof, offset,
    ok_bind]

theorem ipsRecord_inside (taken : TakenUp ips s.cursor)
    (inside : RecordInside ips s.buffer.length s.cursor) :
    Returns (ipsRecord ips s) (Leads s (nextRecord ips s.buffer.length s.cursor)) := by
  have length : bigEndian ips (s.cursor + 3) 2 = .ok (lengthAt ips s.cursor) :=
    bigEndian_eq inside.1
  rw [ipsRecord_eq small header taken, length, ok_bind]
  exact returns_ite (fun rle => rleRecord_inside rle inside) fun long => dataRecord_inside long inside

theorem ipsRecord_outside (taken : TakenUp ips s.cursor)
    (outside : ¬ RecordInside ips s.buffer.length s.cursor) : ¬ Answers (ipsRecord ips s) := by
  rw [ipsRecord_eq small header taken]
  rcases Nat.lt_or_ge ips.length (s.cursor + 3 + 2) with short | enough
  · rw [bigEndian_outside short]
    exact not_answers_error _
  · have length : bigEndian ips (s.cursor + 3) 2 = .ok (lengthAt ips s.cursor) :=
      bigEndian_eq enough
    rw [length, ok_bind]
    split_ifs with rle
    · exact rleRecord_outside enough rle outside
    · exact dataRecord_outside enough rle outside

theorem ipsRecord_ends (ends : ¬ TakenUp ips s.cursor) : ∃ ok, ipsRecord ips s = .ok
    (.inl (ok, s.buffer)) := by
  unfold ipsRecord
  rw [sub64_eq (by omega) small]
  split_ifs with before
  · have three : s.cursor + 3 ≤ ips.length := by omega
    have eof : (ips.drop s.cursor).take 3 = ipsEof := by
      by_contra notEof
      exact ends ⟨by omega, notEof⟩
    rw [slice_eq three, ok_bind, if_pos eof]
    exact ⟨false, rfl⟩
  · exact ⟨true, rfl⟩

theorem next_ipsRecord (next : Next (ipsRecord ips) s t) : TakenUp ips s.cursor ∧
      nextRecord ips s.buffer.length s.cursor = some t.cursor ∧
      t.buffer.length = s.buffer.length := by
  have taken : TakenUp ips s.cursor := by
    by_contra ends
    obtain ⟨ok, run⟩ := ipsRecord_ends small header ends
    exact nomatch run.symm.trans next
  have inside : RecordInside ips s.buffer.length s.cursor := by
    by_contra outside
    exact ipsRecord_outside small header taken outside ⟨_, next⟩
  obtain ⟨result, run, leads⟩ := ipsRecord_inside small header taken inside
  obtain rfl := Except.ok.inj (run.symm.trans next)
  cases behind : nextRecord ips s.buffer.length s.cursor with
  | none =>
    rw [behind] at leads
    cases leads
  | some place =>
    rw [behind] at leads
    obtain ⟨buffer, same, length⟩ := leads
    cases same
    exact ⟨taken, rfl, length⟩

end

theorem lt_nextRecord {behind : Nat} (next : nextRecord ips size cursor = some behind) :
    cursor < behind := by
  unfold nextRecord at next
  split_ifs at next <;> · cases next; omega

theorem visits_recordAt (small : ips.length < wordSize) (header : 5 ≤ ips.length)
    (visits : Visits (ipsRecord ips) ⟨5, buffer⟩ s) :
    RecordAt ips buffer.length s.cursor ∧ s.buffer.length = buffer.length := by
  refine visits_invariant
    (fun s => RecordAt ips buffer.length s.cursor ∧ s.buffer.length = buffer.length) ?_
    ⟨.first, rfl⟩ visits
  rintro s t ⟨place, same⟩ next
  obtain ⟨taken, behind, length⟩ := next_ipsRecord small header next
  rw [same] at behind length
  exact ⟨.next place taken behind, length⟩

theorem recordAt_visits (small : ips.length < wordSize) (header : 5 ≤ ips.length)
    (runs : ∀ s, Visits (ipsRecord ips) ⟨5, buffer⟩ s → Answers (ipsRecord ips s))
    (place : RecordAt ips buffer.length cursor) :
    ∃ s, Visits (ipsRecord ips) ⟨5, buffer⟩ s ∧ s.cursor = cursor := by
  induction place with
  | first => exact ⟨_, .refl, rfl⟩
  | next _ taken behind ih =>
    obtain ⟨s, visits, rfl⟩ := ih
    have same := (visits_recordAt small header visits).2
    have inside : RecordInside ips s.buffer.length s.cursor := by
      by_contra outside
      exact ipsRecord_outside small header taken outside (runs s visits)
    obtain ⟨result, run, leads⟩ := ipsRecord_inside small header taken inside
    rw [same, behind] at leads
    obtain ⟨next, rfl, -⟩ := leads
    exact ⟨_, visits.tail run, rfl⟩

theorem applyIpsPatch_answers_iff (ips buffer : List UInt8) {fuel : Nat}
    (small : ips.length < maxSize) (enough : ips.length < fuel) :
    Answers (applyIpsPatch ips fuel buffer) ↔ IpsInside ips buffer.length := by
  unfold applyIpsPatch
  rcases Nat.lt_or_ge ips.length 5 with short | header
  · refine iff_of_false ?_ fun inside => Nat.not_le_of_lt short inside.1
    unfold slice
    rw [if_neg (by omega)]
    exact not_answers_error _
  have small' : ips.length < wordSize := Nat.lt_trans small (by decide)
  rw [slice_eq (by omega), ok_bind]
  by_cases patch : ips.take 5 = ipsHeader
  swap
  · exact iff_of_true (by rw [if_pos (by exact patch)]; exact answers_ok _)
      ⟨header, fun same => absurd same patch⟩
  rw [if_neg (not_not_intro (by exact patch))]
  have loops := loop_returns_iff Fault.outOfFuel (ipsRecord ips)
    (fun s => ips.length - s.cursor) fuel (s := ⟨5, buffer⟩) (fun _ => True)
    (fun _ _ _ _ => trivial) (fun s t _ next => by
      obtain ⟨taken, behind, -⟩ := next_ipsRecord small' header next
      have later := lt_nextRecord behind
      have before := taken.1
      omega) trivial (by omega)
  refine loops.trans ⟨fun runs => ⟨header, fun _ cursor place taken => ?_⟩, fun inside s visits => ?_⟩
  · obtain ⟨s, visits, rfl⟩ := recordAt_visits small' header runs place
    have same := (visits_recordAt small' header visits).2
    by_contra outside
    rw [← same] at outside
    exact ipsRecord_outside small' header taken outside (runs s visits)
  · obtain ⟨place, same⟩ := visits_recordAt small' header visits
    by_cases taken : TakenUp ips s.cursor
    · have record := inside.2 patch s.cursor place taken
      rw [← same] at record
      exact (ipsRecord_inside small' header taken record).answers
    · obtain ⟨ok, run⟩ := ipsRecord_ends small' header taken
      exact ⟨_, run⟩

namespace Bps

namespace Stream

variable {s other t o : Stream} {length : Nat}

theorem digits_spec (data shift : Nat) (bytes : List UInt8) :
    (digits data shift bytes).2 ≤ bytes.length ∧ (bytes ≠ [] → 0 < (digits data shift bytes).2 ∧
        (digits data shift bytes).1 < 0x100000000) := by
  induction bytes generalizing data shift with
  | nil => exact ⟨Nat.le_refl _, fun some => absurd rfl some⟩
  | cons x rest ih =>
    unfold digits
    split_ifs with more
    · exact ⟨Nat.succ_le_succ (Nat.zero_le _), fun _ => ⟨Nat.one_pos, add32_lt ..⟩⟩
    · have later := ih (add32 (add32 data (mul32 (x &&& 0x7F).toNat shift)) (mul32 shift 0x80))
        (mul32 shift 0x80)
      refine ⟨Nat.succ_le_succ later.1, fun _ => ⟨Nat.succ_pos _, ?_⟩⟩
      cases rest with
      | nil => exact add32_lt ..
      | cons y rest => exact (later.2 (List.cons_ne_nil _ _)).2

theorem readNumber_spec (s : Stream) : s.readNumber.2.data = s.data ∧
    s.offset ≤ s.readNumber.2.offset ∧ s.readNumber.1 < 0x100000000 ∧
    (s.offset ≤ s.data.length → s.readNumber.2.offset ≤ s.data.length) ∧
    (s.offset < s.data.length → s.offset < s.readNumber.2.offset) := by
  obtain ⟨most, some⟩ := digits_spec 0 1 (s.data.drop s.offset)
  rw [List.length_drop] at most
  refine ⟨rfl, Nat.le_add_right _ _, ?_, fun before => ?_, fun before => ?_⟩
  · show (digits 0 1 (s.data.drop s.offset)).1 < 0x100000000
    cases left : s.data.drop s.offset with
    | nil => exact Nat.zero_lt_succ _
    | cons x rest =>
      rw [left] at some
      exact (some (List.cons_ne_nil _ _)).2
  · show s.offset + (digits 0 1 (s.data.drop s.offset)).2 ≤ s.data.length
    omega
  · have left : s.data.drop s.offset ≠ [] := by
      rw [Ne, List.drop_eq_nil_iff]
      omega
    exact Nat.lt_add_of_pos_right (some left).1

theorem copyFrom_spec (copied : s.copyFrom other length = some (t, o)) :
    t.data.length = s.data.length ∧ o.data = other.data ∧ other.offset ≤ o.offset := by
  unfold copyFrom at copied
  split_ifs at copied with room
  obtain ⟨⟨bytes, behind⟩, read, same⟩ := Option.map_eq_some_iff.mp copied
  unfold Stream.read at read
  split_ifs at read with within
  cases read
  cases same
  refine ⟨?_, rfl, Nat.le_add_right _ _⟩
  simp only [List.length_append, List.length_take, List.length_drop]
  omega

theorem readWord_eq (within : s.offset + length ≤ s.data.length) : s.readWord length =
    .ok ((s.data.drop s.offset).take length, { s with offset := s.offset + length }) := by
  unfold readWord Stream.read
  rw [if_neg (Nat.not_lt_of_le within)]

theorem readWord_short (short : s.data.length < s.offset + length) :
    s.readWord length = .error .undefinedBehaviour := by
  unfold readWord Stream.read
  rw [if_pos short]

theorem seek_eq {offset : Nat} (within : offset ≤ s.data.length) :
    s.seek offset = some { s with offset } := if_neg (Nat.not_lt_of_le within)

end Stream

structure After (a b : PatchApplier) : Prop where
  patch : b.patch.data = a.patch.data
  offset : a.patch.offset ≤ b.patch.offset
  target : b.target.data.length = a.target.data.length

variable {a b c : PatchApplier} {data : List UInt8} {length i left offset : Nat}

theorem After.trans (h : After a b) (h' : After b c) : After a c :=
  ⟨h'.patch.trans h.patch, Nat.le_trans h.offset h'.offset, h'.target.trans h.target⟩

theorem moveBy_lt (offset data : Nat) : moveBy offset data < wordSize := by
  unfold moveBy
  split_ifs <;> exact Nat.mod_lt _ (by decide)

theorem copyBytes_returns (small : data.length < wordSize) (room : i + left ≤ data.length)
    (inside : offset + left ≤ data.length) :
    Returns (copyBytes left i offset data) fun r => r.2.length = data.length := by
  induction left generalizing i offset data with
  | zero => exact returns_ok rfl
  | succ left ih =>
    apply returns_bind (Buffer.get_returns (by omega))
    intro byte _
    rw [Buffer.set_of_lt (by omega), Nat.mod_eq_of_lt (by omega)]
    have length : (data.set i byte).length = data.length := List.length_set
    apply (ih (by rw [length]; exact small) (by omega) (by omega)).mono
    exact fun r same => same.trans length

theorem copyBytes_outside (outside : data.length ≤ offset) (some : 0 < left) :
    ¬ Answers (copyBytes left i offset data) := by
  obtain ⟨left, rfl⟩ : ∃ n, left = n + 1 := ⟨left - 1, by omega⟩
  unfold copyBytes
  rw [Buffer.get_of_le outside]
  exact not_answers_error _

namespace PatchApplier

section

variable (a : PatchApplier) (length : Nat)

theorem sourceRead_after : After a (a.sourceRead length).2 := by
  unfold sourceRead
  cases a.source.seek a.target.offset with
  | none => exact ⟨rfl, Nat.le_refl _, rfl⟩
  | some source =>
    dsimp only
    cases copied : a.target.copyFrom source length with
    | none => exact ⟨rfl, Nat.le_refl _, rfl⟩
    | some r => exact ⟨rfl, Nat.le_refl _, (Stream.copyFrom_spec copied).1⟩

theorem targetRead_after : After a (a.targetRead length).2 := by
  unfold targetRead
  cases copied : a.target.copyFrom a.patch length with
  | none => exact ⟨rfl, Nat.le_refl _, rfl⟩
  | some r =>
    obtain ⟨size, same, later⟩ := Stream.copyFrom_spec copied
    exact ⟨same, later, size⟩

theorem sourceCopy_after : After a (a.sourceCopy length).2 := by
  obtain ⟨same, later, -⟩ := a.patch.readNumber_spec
  unfold sourceCopy
  dsimp only
  cases a.source.seek (moveBy a.sourceRelativeOffset a.patch.readNumber.1) with
  | none => exact ⟨same, later, rfl⟩
  | some source =>
    dsimp only
    cases copied : a.target.copyFrom source length with
    | none => exact ⟨same, later, rfl⟩
    | some r => exact ⟨same, later, (Stream.copyFrom_spec copied).1⟩

end

/-- A target copy of so many bytes, if it has room for them, does not start in front of the
target, where the sum with the length wraps. -/
def TargetCopyFits (a : PatchApplier) (length : Nat) : Prop :=
  a.target.offset + length ≤ a.target.data.length →
    moveBy a.targetRelativeOffset a.patch.readNumber.1 + length < wordSize

theorem targetCopy_returns (small : a.target.data.length < maxSize)
    (fits : TargetCopyFits a length) : Returns (a.targetCopy length) fun r => After a r.2 := by
  obtain ⟨same, later, -⟩ := a.patch.readNumber_spec
  unfold targetCopy
  dsimp only
  refine returns_ite (fun _ => returns_ok ⟨same, later, rfl⟩) fun room => ?_
  have less := fits (Nat.le_of_not_lt room)
  rw [Nat.mod_eq_of_lt less]
  refine returns_ite (fun _ => returns_ok ⟨same, later, rfl⟩) fun inside => ?_
  apply returns_bind (copyBytes_returns (Nat.lt_trans small (by decide)) (Nat.le_of_not_lt room)
    (Nat.le_of_not_lt inside))
  exact fun r length => returns_ok ⟨same, later, length⟩

theorem targetCopy_outside (small : a.target.data.length < maxSize) (some : 0 < length)
    (short : length ≤ 0x40000000) (outside : ¬ TargetCopyFits a length) :
    ¬ Answers (a.targetCopy length) := by
  obtain ⟨room, wraps⟩ := Classical.not_imp.mp outside
  have offset := moveBy_lt a.targetRelativeOffset a.patch.readNumber.1
  unfold maxSize at small
  unfold targetCopy
  dsimp only
  generalize moveBy a.targetRelativeOffset a.patch.readNumber.1 = place at offset wraps
  unfold wordSize at offset wraps
  have sum : (place + length) % wordSize = place + length - 0x10000000000000000 := by
    unfold wordSize
    omega
  rw [if_neg (Nat.not_lt_of_le room), if_neg (by omega), answers_return]
  exact copyBytes_outside (by omega) some

/-- The command that is next is not a target copy in front of the target. -/
def CommandFits (a : PatchApplier) : Prop :=
  a.patch.readNumber.1 % 4 = 3 →
    TargetCopyFits { a with patch := a.patch.readNumber.2 } (a.patch.readNumber.1 / 4 + 1)

theorem handleCommand_eq (a : PatchApplier) (copies : a.patch.readNumber.1 % 4 = 3) :
    a.handleCommand = ({ a with patch := a.patch.readNumber.2 } : PatchApplier).targetCopy
      (a.patch.readNumber.1 / 4 + 1) := by
  unfold handleCommand
  dsimp only
  rw [copies]
  rfl

theorem handleCommand_returns (small : a.target.data.length < maxSize) (fits : CommandFits a) :
    Returns a.handleCommand fun r => After a r.2 ∧
      (a.patch.offset < a.patch.data.length → a.patch.offset < r.2.patch.offset) := by
  obtain ⟨same, later, -, -, further⟩ := a.patch.readNumber_spec
  have read : After a { a with patch := a.patch.readNumber.2 } := ⟨same, later, rfl⟩
  have behind {b : PatchApplier} (h : After { a with patch := a.patch.readNumber.2 } b) :
      After a b ∧ (a.patch.offset < a.patch.data.length → a.patch.offset < b.patch.offset) :=
    ⟨read.trans h, fun some => Nat.lt_of_lt_of_le (further some) h.offset⟩
  by_cases copies : a.patch.readNumber.1 % 4 = 3
  · rw [handleCommand_eq a copies]
    exact (targetCopy_returns (a := { a with patch := a.patch.readNumber.2 }) small
      (fits copies)).mono fun r after => behind after
  · unfold handleCommand
    dsimp only
    have fewer : a.patch.readNumber.1 % 4 < 3 := by omega
    generalize a.patch.readNumber.1 % 4 = kind at fewer
    match kind, fewer with
    | 0, _ => exact returns_ok (behind (sourceRead_after _ _))
    | 1, _ => exact returns_ok (behind (targetRead_after _ _))
    | 2, _ => exact returns_ok (behind (sourceCopy_after _ _))

theorem handleCommand_outside (small : a.target.data.length < maxSize)
    (outside : ¬ CommandFits a) : ¬ Answers a.handleCommand := by
  obtain ⟨copies, outside⟩ := Classical.not_imp.mp outside
  have number := a.patch.readNumber_spec.2.2.1
  rw [handleCommand_eq a copies]
  exact targetCopy_outside small (Nat.succ_pos _) (by omega) outside

theorem next_command (next : Next (command stop) a b) :
    a.patch.offset < stop ∧ a.handleCommand = .ok (true, b) := by
  unfold Next command at next
  split_ifs at next with running
  · refine ⟨running, ?_⟩
    obtain ⟨⟨ok, after⟩, handled, ends⟩ := bind_eq_ok.mp next
    cases ok with
    | false => cases ends
    | true =>
      cases ends
      exact handled
  · cases next

theorem command_answers (small : a.target.data.length < maxSize) :
    Answers (command stop a) ↔ (a.patch.offset < stop → CommandFits a) := by
  unfold command
  split_ifs with running
  · rw [imp_iff_right running, answers_then]
    · constructor
      · intro answers
        by_contra outside
        exact handleCommand_outside small outside answers
      · exact fun fits => (handleCommand_returns small fits).answers
    · rintro ⟨ok, after⟩ _
      dsimp only
      split_ifs
      · exact answers_ok _
      · exact answers_ok _
  · exact iff_of_true (answers_ok _) fun h => absurd h running

structure Handles (start a : PatchApplier) : Prop where
  patch : a.patch.data = start.patch.data
  target : a.target.data.length = start.target.data.length

theorem Handles.next {start : PatchApplier} (small : start.target.data.length < maxSize)
    (stops : stop ≤ start.patch.data.length)
    (h : Handles start a) (next : Next (command stop) a b) :
    Handles start b ∧ a.patch.offset < b.patch.offset := by
  obtain ⟨running, handled⟩ := next_command next
  have size := h.target
  have fits : CommandFits a :=
    (command_answers (size ▸ small)).mp ⟨_, next⟩ running
  obtain ⟨r, handled', after, further⟩ := handleCommand_returns (size ▸ small) fits
  obtain rfl := Except.ok.inj (handled'.symm.trans handled)
  exact ⟨⟨after.patch.trans h.patch, after.target.trans size⟩,
    further (by rw [h.patch]; omega)⟩

def CommandsFit (stop : Nat) (start : PatchApplier) : Prop :=
  ∀ a, Visits (command stop) start a → a.patch.offset < stop → CommandFits a

theorem loop_command_answers {fuel : Nat} (small : a.target.data.length < maxSize)
    (stops : stop ≤ a.patch.data.length) (enough : a.patch.data.length < fuel) :
    Answers (loop .outOfFuel (command stop) fuel a) ↔ CommandsFit stop a := by
  have kept (b c : PatchApplier) (h : Handles a b) (next : Next (command stop) b c) :
      Handles a c := (h.next small stops next).1
  have loops := loop_returns_iff Fault.outOfFuel (command stop)
    (fun b => a.patch.data.length - b.patch.offset) fuel (s := a) (Handles a) kept (fun b c h next => by
      have further := (h.next small stops next).2
      have running := (next_command next).1
      omega) ⟨rfl, rfl⟩ (by omega)
  refine loops.trans (forall_congr' fun b => imp_congr_right fun visits => ?_)
  have same := (visits_invariant (Handles a) kept ⟨rfl, rfl⟩ visits).target
  exact command_answers (by rw [same]; exact small)

end PatchApplier

open PatchApplier

section

variable (patch buffer : List UInt8)

def sourceSize : Nat × Stream := Stream.readNumber ⟨patch, 4⟩

def targetSize : Nat × Stream := (sourceSize patch).2.readNumber

def metadataSize : Nat × Stream := (targetSize patch).2.readNumber

def resized : List UInt8 :=
  if (sourceSize patch).1 < (targetSize patch).1 then Buffer.resize 0 buffer (targetSize patch).1
  else buffer

def firstCommand : PatchApplier where
  sourceRelativeOffset := 0
  targetRelativeOffset := 0
  source := ⟨resized patch buffer, 0⟩
  target := ⟨List.replicate (resized patch buffer).length 0, 0⟩
  patch := (metadataSize patch).2

/-- The format marker is there; if the header is accepted, the footer is there; and if the source is
the right one, every target copy that is taken up and has room fits. -/
def BpsInside (crc32 : List UInt8 → UInt32) : Prop :=
  4 ≤ patch.length ∧ (patch.take 4 = magic →
    (sourceSize patch).1 ≤ (resized patch buffer).length →
    (targetSize patch).1 ≤ (resized patch buffer).length →
    (metadataSize patch).1 = 0 →
    12 ≤ patch.length ∧
      ((crc32 ((resized patch buffer).take (sourceSize patch).1)).toNat =
          field patch (patch.length - 12) 4 →
        CommandsFit (patch.length - 12) (firstCommand patch buffer)))

end

variable {crc32 : List UInt8 → UInt32} {patch buffer : List UInt8} {fuel : Nat}

variable (patch) in
theorem metadataSize_stream (format : 4 ≤ patch.length) : (metadataSize patch).2.data = patch ∧
    4 ≤ (metadataSize patch).2.offset ∧ (metadataSize patch).2.offset ≤ patch.length := by
  obtain ⟨same, later, -, most, -⟩ := Stream.readNumber_spec ⟨patch, 4⟩
  obtain ⟨same', later', -, most', -⟩ := (sourceSize patch).2.readNumber_spec
  obtain ⟨same'', later'', -, most'', -⟩ := (targetSize patch).2.readNumber_spec
  have first : (sourceSize patch).2.data = patch := same
  have second : (targetSize patch).2.data = patch := same'.trans first
  have third : (metadataSize patch).2.data = patch := same''.trans second
  have bound := most format
  rw [first] at most'
  rw [second] at most''
  exact ⟨third, Nat.le_trans (Nat.le_trans later later') later'', most'' (most' bound)⟩

theorem applyBpsPatch_eq (format : 4 ≤ patch.length) : applyBpsPatch crc32 fuel patch buffer =
    if patch.take 4 ≠ magic then .ok (false, resized patch buffer)
    else if (resized patch buffer).length < (sourceSize patch).1 ∨
        (resized patch buffer).length < (targetSize patch).1 ∨ (metadataSize patch).1 ≠ 0 then
      .ok (false, resized patch buffer)
    else PatchApplier.run ⟨0, 0, ⟨resized patch buffer, 0⟩, ⟨resized patch buffer, 0⟩,
      (metadataSize patch).2⟩ crc32 fuel (sourceSize patch).1 (targetSize patch).1 := by
  have seek : (Stream.mk patch 0).seek 4 = some ⟨patch, 4⟩ := Stream.seek_eq format
  have read : (Stream.mk patch 0).readWord 4 = .ok (patch.take 4, ⟨patch, 4⟩) :=
    Stream.readWord_eq format
  unfold applyBpsPatch
  dsimp only
  rw [seek]
  unfold PatchApplier.apply
  dsimp only
  rw [read]
  rfl

theorem run_answers (small : buffer.length < maxSize) (patchSmall : patch.length < maxSize)
    (enough : patch.length < fuel) (s : Stream) (data : s.data = patch) (start : 4 ≤ s.offset)
    (within : s.offset ≤ patch.length) (sourceSize targetSize : Nat) :
    Answers (PatchApplier.run ⟨0, 0, ⟨buffer, 0⟩, ⟨buffer, 0⟩, s⟩ crc32 fuel sourceSize
      targetSize) ↔ 12 ≤ patch.length ∧
      ((crc32 (buffer.take sourceSize)).toNat = field patch (patch.length - 12) 4 →
        CommandsFit (patch.length - 12)
          ⟨0, 0, ⟨buffer, 0⟩, ⟨List.replicate buffer.length 0, 0⟩, s⟩) := by
  subst data
  have few : s.data.length < wordSize := Nat.lt_trans patchSmall (by decide)
  unfold PatchApplier.run footerSize
  dsimp only
  rcases Nat.lt_or_ge s.data.length 12 with short | footer
  · -- the offset of the footer wraps, and what is behind the header is too short for it
    refine iff_of_false ?_ fun h => Nat.not_le_of_lt short h.1
    have wraps : s.seek (sub64 s.data.length 12) = none := by
      unfold Stream.seek sub64
      unfold wordSize at few ⊢
      rw [if_pos (by omega)]
    rw [wraps, Option.getD_none]
    rcases Nat.lt_or_ge s.data.length (s.offset + 4) with none | word
    · rw [Stream.readWord_short none]
      exact not_answers_error _
    · rw [Stream.readWord_eq word, ok_bind]
      rw [Stream.readWord_short (by dsimp only; omega)]
      exact not_answers_error _
  · have stop : sub64 s.data.length 12 = s.data.length - 12 := sub64_eq footer few
    rw [stop, Stream.seek_eq (Nat.sub_le ..), Option.getD_some,
      Stream.readWord_eq (by dsimp only; omega), ok_bind]
    rw [Stream.readWord_eq (by dsimp only; omega), ok_bind]
    rw [Stream.seek_eq (by exact within)]
    change Answers (if (crc32 (buffer.take sourceSize)).toNat ≠
      field s.data (s.data.length - 12) 4 then _ else _) ↔ _
    by_cases right : (crc32 (buffer.take sourceSize)).toNat = field s.data (s.data.length - 12) 4
    · have loops : Answers (loop .outOfFuel (command (s.data.length - 12)) fuel
          ⟨0, 0, ⟨buffer, 0⟩, ⟨List.replicate buffer.length 0, 0⟩, s⟩) ↔ _ :=
        loop_command_answers (by rw [List.length_replicate]; exact small) (Nat.sub_le ..) enough
      rw [if_neg (not_not_intro right), answers_return]
      exact loops.trans ⟨fun fits => ⟨footer, fun _ => fits⟩, fun h => h.2 right⟩
    · rw [if_pos right]
      exact iff_of_true (answers_ok _) ⟨footer, fun same => absurd same right⟩

theorem resized_lt (small : buffer.length < maxSize) : (resized patch buffer).length < maxSize := by
  have number : (targetSize patch).1 < 0x100000000 := (sourceSize patch).2.readNumber_spec.2.2.1
  unfold resized
  split_ifs
  · rw [Buffer.length_resize]
    exact Nat.lt_trans number (by decide)
  · exact small

theorem applyBpsPatch_answers_iff (patch buffer : List UInt8) (small : buffer.length < maxSize)
    (patchSmall : patch.length < maxSize) (enough : patch.length < fuel) :
    Answers (applyBpsPatch crc32 fuel patch buffer) ↔ BpsInside patch buffer crc32 := by
  rcases Nat.lt_or_ge patch.length 4 with short | format
  · refine iff_of_false ?_ fun inside => Nat.not_le_of_lt short inside.1
    unfold applyBpsPatch PatchApplier.apply
    dsimp only
    rw [Stream.readWord_short (by omega)]
    exact not_answers_error _
  rw [applyBpsPatch_eq format]
  by_cases isBps : patch.take 4 = magic
  swap
  · rw [if_pos isBps]
    exact iff_of_true (answers_ok _) ⟨format, fun same => absurd same isBps⟩
  rw [if_neg (not_not_intro isBps)]
  by_cases accepted : (sourceSize patch).1 ≤ (resized patch buffer).length ∧
      (targetSize patch).1 ≤ (resized patch buffer).length ∧ (metadataSize patch).1 = 0
  swap
  · rw [if_pos (by omega)]
    refine iff_of_true (answers_ok _) ⟨format, fun _ source target none => ?_⟩
    exact absurd ⟨source, target, none⟩ accepted
  obtain ⟨data, start, within⟩ := metadataSize_stream patch format
  rw [if_neg (by omega), run_answers (resized_lt small) patchSmall enough _ data start within]
  obtain ⟨source, target, none⟩ := accepted
  exact ⟨fun fits => ⟨format, fun _ _ _ _ => fits⟩, fun h => h.2 isBps source target none⟩

end Bps

/-- Either kind of patch is applied inside of the patch and the buffer just if it is inside. -/
theorem patches_inside_iff (crc32 : List UInt8 → UInt32) (patch buffer : List UInt8) (fuel : Nat)
    (patchSmall : patch.length < maxSize) (small : buffer.length < maxSize)
    (enough : patch.length < fuel) :
    (Answers (applyIpsPatch patch fuel buffer) ↔ IpsInside patch buffer.length) ∧
      (Answers (applyBpsPatch crc32 fuel patch buffer) ↔ Bps.BpsInside patch buffer crc32) :=
  ⟨applyIpsPatch_answers_iff patch buffer patchSmall enough,
    Bps.applyBpsPatch_answers_iff patch buffer small patchSmall enough⟩

/-- A record with one byte, and one with a byte to repeat. -/
def twoRecords : List UInt8 :=
  ipsHeader ++ [0, 0, 0, 0, 1, 0xAA] ++ [0, 0, 1, 0, 0, 0, 2, 0xBB] ++ ipsEof

/-- Two bytes read from the source and copied once more in the target. -/
def doubling : List UInt8 :=
  Bps.magic ++ [0x82, 0x84, 0x80] ++ [0x84] ++ [0x87, 0x80] ++ List.replicate 12 0

theorem patches_inside_applied :
    applyIpsPatch twoRecords 23 [0, 0, 0, 0] = .ok (true, [0xAA, 0xBB, 0xBB, 0]) ∧
    IpsInside twoRecords 4 ∧
    applyBpsPatch (fun _ => 0) 23 doubling [1, 2] = .ok (true, [1, 2, 1, 2]) ∧
    Bps.BpsInside doubling [1, 2] fun _ => 0 := by
  have ips : applyIpsPatch twoRecords 23 [0, 0, 0, 0] = .ok (true, [0xAA, 0xBB, 0xBB, 0]) := by
    decide +kernel
  have bps : applyBpsPatch (fun _ => 0) 23 doubling [1, 2] = .ok (true, [1, 2, 1, 2]) := by
    decide +kernel
  exact ⟨ips, (patches_inside_iff (fun _ => 0) twoRecords [0, 0, 0, 0] 23 (by decide) (by decide)
      (by decide)).1.mp ⟨_, ips⟩,
    bps, (patches_inside_iff (fun _ => 0) doubling [1, 2] 23 (by decide) (by decide)
      (by decide)).2.mp ⟨_, bps⟩⟩

theorem empty_patch_outside : ¬ ∀ patch buffer : List UInt8,
    Answers (applyIpsPatch patch (patch.length + 1) buffer) ∧
      Answers (applyBpsPatch (fun _ => 0) (patch.length + 1) patch buffer) := by
  intro inside
  obtain ⟨r, run⟩ := (inside [] []).1
  exact nomatch (show applyIpsPatch [] 1 [] = .error .undefinedBehaviour
    from by decide +kernel).symm.trans run

end EmuThreeDS.FileSys.Patch
