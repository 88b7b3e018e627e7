import EmuThreeDS.Cheats.StructuredCheats
import EmuThreeDS.Common.Buffers

/-!
# What a patch code stores

The stores of `PatchOp` one by one, as bytes in memory, and the lines that it needs: nothing
checks that the cheat has them.
-/
namespace EmuThreeDS.Cheats

inductive Store where
  | word (addr value : UInt32)
  | byte (addr : UInt32) (value : UInt8)

def wordBytes (word : UInt32) : List UInt8 :=
  [(word >>> 0).toUInt8, (word >>> 8).toUInt8, (word >>> 16).toUInt8, (word >>> 24).toUInt8]

def located : UInt32 → List UInt8 → List (UInt32 × UInt8)
  | _, [] => []
  | addr, b :: rest => (addr, b) :: located (addr + 1) rest

namespace Store

def bytes : Store → List (UInt32 × UInt8)
  | word addr value => located addr (wordBytes value)
  | byte addr value => [(addr, value)]

def write {M : Type} (system : System M) (memory : M) : Store → M
  | word addr value => system.memory32.write memory addr value
  | byte addr value => system.memory8.write memory addr value

end Store

def dataBytes (data : List CheatLine) : List UInt8 := (patchData data).flatMap wordBytes

variable {M : Type} {system : System M} {lines : List CheatLine}

/-- The patch is copied: its stores are the first `n` bytes of the lines behind its own, at the
address and after it, and the next line is the one that skipping the patch would go to. -/
def Copied (system : System M) (lines : List CheatLine) (line : CheatLine) (state : State)
    (memory : M) (after : State × M) : Prop :=
  after.1 = state.skipPatch line ∧
    ∃ stores : List Store,
      after.2 = stores.foldl (Store.write system)
        (system.invalidateCacheRange memory (line.address + state.offset) line.value) ∧
      stores.flatMap Store.bytes = located (line.address + state.offset)
        ((dataBytes (lines.drop (state.currentLineNr + 1))).take line.value.toNat)

theorem located_word (addr : UInt32) (word : UInt32) (rest : List UInt8) :
    located addr (wordBytes word ++ rest) =
      located addr (wordBytes word) ++ located (addr + 4) rest := by
  have next : addr + 1 + 1 + 1 + 1 = addr + 4 := by simp only [UInt32.add_assoc]; rfl
  rw [← next]
  rfl

theorem copyBytes_stores (word : UInt32) {n : Nat} (few : n < 4) (addr : UInt32)
    (rest : List UInt8) : ∃ stores : List Store,
      (∀ memory, copyBytes system word n 0 addr memory = stores.foldl (Store.write system) memory) ∧
      stores.flatMap Store.bytes = located addr ((wordBytes word ++ rest).take n) := by
  match n, few with
  | 0, _ => exact ⟨[], fun _ => rfl, rfl⟩
  | 1, _ => exact ⟨[.byte addr _], fun _ => rfl, rfl⟩
  | 2, _ => exact ⟨[.byte addr _, .byte (addr + 1) _], fun _ => rfl, rfl⟩
  | 3, _ =>
    exact ⟨[.byte addr _, .byte (addr + 1) _, .byte (addr + 1 + 1) _], fun _ => rfl, rfl⟩

theorem copyWords_stores (n : Nat) (words : List UInt32) (addr : UInt32)
    (enough : n ≤ 4 * words.length) : ∃ stores : List Store,
      (∀ memory, copyWords system n words addr memory = stores.foldl (Store.write system) memory) ∧
      stores.flatMap Store.bytes = located addr ((words.flatMap wordBytes).take n) := by
  induction words generalizing n addr with
  | nil =>
    obtain rfl := Nat.le_zero.mp enough
    exact ⟨[], fun _ => rfl, rfl⟩
  | cons word words ih =>
    rw [List.length_cons] at enough
    match n with
    | n + 4 =>
      obtain ⟨stores, same, bytes⟩ := ih n (addr + 4) (by omega)
      refine ⟨.word addr word :: stores, fun memory => same _, ?_⟩
      have front : (wordBytes word ++ words.flatMap wordBytes).take (4 + n) =
          wordBytes word ++ (words.flatMap wordBytes).take n :=
        @List.take_length_add_append _ (wordBytes word) _ n
      rw [List.flatMap_cons, List.flatMap_cons, bytes, Nat.add_comm n 4, front, located_word]
      rfl
    | 0 | 1 | 2 | 3 => exact copyBytes_stores word (by decide) addr _

theorem patchWord_inside {p : Patching M} {word : UInt32} (run : patchWord lines p = .ok word) :
    p.currentLineNr < lines.length := by
  unfold patchWord at run
  split at run
  · exact nomatch run
  · exact (List.getElem?_eq_some_iff.mp ‹_›).1

theorem patchWords_inside : ∀ (n : Nat) (p q : Patching M), 0 < n →
    patchWords system lines n p = .ok q →
    p.currentLineNr + (n + (if p.first then 0 else 4) + 7) / 8 ≤ lines.length
  | 4, ⟨line, first, addr, memory⟩, q, _, run => by
    obtain ⟨word, here, _⟩ := bind_eq_ok.mp run
    have inside : line < lines.length := patchWord_inside here
    dsimp only
    split_ifs <;> omega
  | n + 5, ⟨line, true, addr, memory⟩, q, _, run => by
    obtain ⟨word, _, rest⟩ := bind_eq_ok.mp run
    have after := patchWords_inside (n + 1) _ q n.succ_pos rest
    simp at after ⊢
    omega
  | n + 5, ⟨line, false, addr, memory⟩, q, _, run => by
    obtain ⟨word, _, rest⟩ := bind_eq_ok.mp run
    have after := patchWords_inside (n + 1) _ q n.succ_pos rest
    simp at after ⊢
    omega
  | 1, ⟨line, first, addr, memory⟩, q, _, run | 2, ⟨line, first, addr, memory⟩, q, _, run
  | 3, ⟨line, first, addr, memory⟩, q, _, run => by
    obtain ⟨word, here, _⟩ := bind_eq_ok.mp run
    have inside : line < lines.length := patchWord_inside here
    dsimp only
    split_ifs <;> omega

theorem length_patchData (data : List CheatLine) : (patchData data).length = 2 * data.length := by
  induction data with
  | nil => rfl
  | cons line rest ih =>
    rw [patchData, List.flatMap_cons, List.length_append]
    exact (congrArg (2 + ·) ih).trans (Nat.add_comm 2 _)

theorem length_dataBytes (data : List CheatLine) : (dataBytes data).length = 8 * data.length := by
  have words : ∀ words : List UInt32, (words.flatMap wordBytes).length = 4 * words.length := by
    intro words
    induction words with
    | nil => rfl
    | cons word rest ih =>
      rw [List.flatMap_cons, List.length_append, ih]
      exact Nat.add_comm 4 _
  rw [dataBytes, words, length_patchData]
  omega

theorem dataBytes_append (data rest : List CheatLine) :
    dataBytes (data ++ rest) = dataBytes data ++ dataBytes rest := by
  unfold dataBytes patchData
  rw [List.flatMap_append, List.flatMap_append]

/-- A patch is copied exactly if the cheat has the lines of its bytes. -/
theorem patchOp_copies_iff {line : CheatLine} {state : State}
    (found : lines[state.currentLineNr]? = some line) (memory : M) :
    Returns (patchOp system lines line state memory) (Copied system lines line state memory) ↔
      state.currentLineNr + line.dataLines < lines.length := by
  constructor
  · rintro ⟨after, run, _⟩
    obtain ⟨q, words, _⟩ := bind_eq_ok.mp run
    have here := (List.getElem?_eq_some_iff.mp found).1
    unfold CheatLine.dataLines
    by_cases nothing : line.value = 0
    · rw [nothing]
      exact here
    · have positive : 0 < line.value := UInt32.pos_iff_ne_zero.mpr nothing
      have inside := patchWords_inside _ _ _ (UInt32.lt_iff_toNat_lt.mp positive) words
      rw [if_pos positive] at inside
      exact Nat.lt_of_succ_le (by simpa [Nat.add_right_comm] using inside)
  · intro enough
    obtain ⟨data, split⟩ :
        ∃ data, data = (lines.drop (state.currentLineNr + 1)).take line.dataLines := ⟨_, rfl⟩
    have fits : data.length = line.dataLines := by
      rw [split, List.length_take, List.length_drop]
      omega
    have all := List.take_append_drop line.dataLines (lines.drop (state.currentLineNr + 1))
    rw [← split] at all
    have laid : Laid lines (state.currentLineNr + 1) data := by
      have whole := laid_self (lines.take (state.currentLineNr + 1))
        (lines.drop (state.currentLineNr + 1))
      rw [List.take_append_drop, List.length_take, Nat.min_eq_left (by omega), ← all] at whole
      exact (laid_append.mp whole).1
    have room : line.value.toNat ≤ 8 * data.length := by
      rw [fits, CheatLine.dataLines]
      omega
    obtain ⟨stores, same, bytes⟩ := @copyWords_stores M system line.value.toNat
      (patchData data) (line.address + state.offset) (by rw [length_patchData]; omega)
    refine ⟨_, patchOp_eq laid fits memory, ?_, stores, same _, ?_⟩
    · rw [fits]
      rfl
    · rw [bytes, ← all, dataBytes_append, List.take_append_of_le_length (by rwa [length_dataBytes])]
      rfl

def storeLog : System (List Store) where
  memory8 := ⟨fun _ _ => 0, fun stores addr value => stores ++ [.byte addr value]⟩
  memory16 := ⟨fun _ _ => 0, fun stores _ _ => stores⟩
  memory32 := ⟨fun _ _ => 0, fun stores addr value => stores ++ [.word addr value]⟩
  invalidateCacheRange := fun stores _ _ => stores
  padState := 0

/-- `E0000100 00000006` and the line of its bytes. -/
theorem patchOp_copies_six :
    Returns (patchOp storeLog [⟨.patch, 0x100, 6, 0xE0000100⟩, ⟨.write32, 4, 5, 4⟩]
        ⟨.patch, 0x100, 6, 0xE0000100⟩ {} [])
      (Copied storeLog [⟨.patch, 0x100, 6, 0xE0000100⟩, ⟨.write32, 4, 5, 4⟩]
        ⟨.patch, 0x100, 6, 0xE0000100⟩ {} []) :=
  (patchOp_copies_iff rfl []).mpr (by decide)

/-- `E0000100 00000001` as the last line. -/
theorem patchOp_reads_on : ¬ ∀ (lines : List CheatLine) (line : CheatLine) (state : State)
    (memory : List Store), lines[state.currentLineNr]? = some line →
      Returns (patchOp storeLog lines line state memory)
        (Copied storeLog lines line state memory) := by
  intro all
  obtain ⟨_, ran, _⟩ :=
    all [⟨.patch, 0x100, 1, 0xE0000100⟩] ⟨.patch, 0x100, 1, 0xE0000100⟩ {} [] rfl
  have stops : patchOp storeLog [⟨.patch, 0x100, 1, 0xE0000100⟩]
      ⟨.patch, 0x100, 1, 0xE0000100⟩ {} [] = .error .undefinedBehaviour := rfl
  exact nomatch stops.symm.trans ran

end EmuThreeDS.Cheats
