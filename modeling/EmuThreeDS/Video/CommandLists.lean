import EmuThreeDS.Video.RegisterUploads

/-!
# Command lists

`ProcessCommandList`. The words of memory are a parameter, which may depend on everything read so
far, so that commands may change the memory.
-/
namespace EmuThreeDS.Pica

inductive WordKind where
  | value | header | extra

/-- A read at the cursor of the list that is current at that moment. -/
structure Read where
  kind : WordKind
  list : CommandList

/-- The state in the middle of a list, with the reads so far, the last one first. -/
structure ListRun (F : Type) where
  state : PicaState F
  reads : List Read

section

variable (header : RegWord)

def cmdId : Nat := BitField.value 0 16 header

def parameterMask : BitVec 4 := BitVec.ofNat 4 (BitField.value 16 4 header)

def extraDataLength : Nat := BitField.value 20 11 header

def groupCommands : Bool := BitField.value 31 1 header == 1

def extraId (i : Nat) : Nat := cmdId header + if groupCommands header then i + 1 else 0

end

variable {F : Type}

namespace ListRun

variable (float : Float24 F) (fetch : List Read → RegWord)

def cmdList (r : ListRun F) : CommandList := r.state.cmdList

/-- `*g_state.cmd_list.current_ptr++`. -/
def next (r : ListRun F) (kind : WordKind) : RegWord × ListRun F :=
  let reads := ⟨kind, r.cmdList⟩ :: r.reads
  (fetch reads, {
    state := { r.state with cmdList := { r.cmdList with current := r.cmdList.current + 1 } }
    reads })

def write (r : ListRun F) (w : RegWrite) : ListRun F :=
  { r with state := (r.state.write float w).1 }

def align (r : ListRun F) : ListRun F :=
  if r.cmdList.current % 2 ≠ 0 then
    { r with
      state := { r.state with cmdList := { r.cmdList with current := r.cmdList.current + 1 } } }
  else r

def extraWord (header : RegWord) (i : Nat) (r : ListRun F) : ListRun F :=
  let (word, r) := r.next fetch .extra
  r.write float ⟨extraId header i, word, parameterMask header⟩

def extraWords (header : RegWord) : Nat → Nat → ListRun F → ListRun F
  | 0, _, r => r
  | left + 1, i, r => extraWords header left (i + 1) (r.extraWord float fetch header i)

def commandHead (r : ListRun F) : RegWord × ListRun F :=
  let r := r.align
  let (value, r) := r.next fetch .value
  let (header, r) := r.next fetch .header
  (header, r.write float ⟨cmdId header, value, parameterMask header⟩)

def command (r : ListRun F) : ListRun F :=
  let (header, r) := r.commandHead float fetch
  r.extraWords float fetch header (extraDataLength header) 0

/-- The first `n` iterations of `ProcessCommandList`. -/
def processCommandList (s : PicaState F) (list size : Nat) : Nat → ListRun F
  | 0 => ⟨{ s with cmdList := ⟨list, 0, size / 4⟩ }, []⟩
  | n + 1 =>
    let r := processCommandList s list size n
    if r.cmdList.current < r.cmdList.length then r.command float fetch else r

end ListRun

def Read.Inside (read : Read) : Prop := read.list.current < read.list.length

/-- A command starts at an even word, and its header is the odd word behind. -/
def Read.AtBoundary (read : Read) : Prop :=
  match read.kind with
  | .value => read.list.current % 2 = 0
  | .header => read.list.current % 2 = 1
  | .extra => True

instance (read : Read) : Decidable read.Inside := by
  unfold Read.Inside
  infer_instance

instance (read : Read) : Decidable read.AtBoundary := by
  unfold Read.AtBoundary
  cases read.kind <;> infer_instance

def IsTrigger (id : Nat) : Prop := id = trigger 0 ∨ id = trigger 1

instance (id : Nat) : Decidable (IsTrigger id) := by
  unfold IsTrigger
  infer_instance

/-- The extra words from `i` on up to the first that goes to a trigger, or all of them. -/
def untilTrigger (header : RegWord) : Nat → Nat → Nat
  | 0, _ => 0
  | left + 1, i =>
    if IsTrigger (extraId header i) then 1 else 1 + untilTrigger header left (i + 1)

namespace ListRun

variable (float : Float24 F) (fetch : List Read → RegWord)

/-- The list has room for the words up to the next trigger. -/
def ChunkFits (header : RegWord) (left i : Nat) (r : ListRun F) : Prop :=
  r.cmdList.current + untilTrigger header left i ≤ r.cmdList.length

/-- Each list that an extra word installs has room for the words that follow. -/
def LaterFits (header : RegWord) : Nat → Nat → ListRun F → Prop
  | 0, _, _ => True
  | left + 1, i, r =>
    let r := r.extraWord float fetch header i
    (IsTrigger (extraId header i) → r.ChunkFits header left (i + 1)) ∧
      LaterFits header left (i + 1) r

/-- The command at the cursor is inside its list, and the words behind a trigger are inside the
list that it installs. -/
def CommandFits (r : ListRun F) : Prop :=
  r.align.cmdList.current + 2 ≤ r.align.cmdList.length ∧
    let (header, r) := r.commandHead float fetch
    r.ChunkFits header (extraDataLength header) 0 ∧
      r.LaterFits float fetch header (extraDataLength header) 0

/-- In the first `n` iterations, every command that is taken up fits. -/
def EachCommandFits (s : PicaState F) (list size n : Nat) : Prop :=
  ∀ m < n, let r : ListRun F := processCommandList float fetch s list size m
    r.cmdList.current < r.cmdList.length → r.CommandFits float fetch

variable {float fetch} {header : RegWord} {r : ListRun F}

def Good (r : ListRun F) : Prop := ∀ read ∈ r.reads, read.Inside ∧ read.AtBoundary

theorem write_cmdList {w : RegWrite} (h : ¬ IsTrigger w.id) :
    (r.write float w).cmdList = r.cmdList := by
  simp only [write, cmdList, PicaState.write_eq]
  split_ifs with outside index defaults first second
  all_goals try rfl
  · simp only [PicaState.writeDefaultAttribute]
    split_ifs <;> rfl
  · exact absurd (.inl first) h
  · exact absurd (.inr second) h

theorem trigger_current {w : RegWrite} (h : IsTrigger w.id) :
    (r.write float w).cmdList.current = 0 := by
  simp only [write, cmdList, PicaState.write_eq]
  rcases h with first | second
  · simp [first, trigger, numRegs, defaultAttributesIndex, PicaState.triggerCommandBuffer]
  · simp [second, trigger, numRegs, defaultAttributesIndex, PicaState.triggerCommandBuffer]

theorem extraWord_reads (i : Nat) :
    (r.extraWord float fetch header i).reads = ⟨.extra, r.cmdList⟩ :: r.reads := rfl

theorem extraWord_cmdList {i : Nat} (h : ¬ IsTrigger (extraId header i)) :
    (r.extraWord float fetch header i).cmdList =
      { r.cmdList with current := r.cmdList.current + 1 } := write_cmdList h

theorem extraWord_current {i : Nat} (h : IsTrigger (extraId header i)) :
    (r.extraWord float fetch header i).cmdList.current = 0 := trigger_current h

theorem extraWords_reads (left i : Nat) : ∀ read ∈ r.reads,
    read ∈ (r.extraWords float fetch header left i).reads := by
  induction left generalizing i r with
  | zero => exact fun _ member => member
  | succ left ih =>
    intro read member
    apply ih
    exact List.mem_cons_of_mem _ member

theorem chunkFits_of_good (left i : Nat)
    (good : (r.extraWords float fetch header (left + 1) i).Good) :
    r.ChunkFits header (left + 1) i := by
  induction left generalizing i r with
  | zero =>
    have inside : r.cmdList.current < r.cmdList.length :=
      (good ⟨.extra, r.cmdList⟩ (List.mem_cons_self ..)).1
    unfold ChunkFits untilTrigger
    split_ifs <;> exact inside
  | succ left ih =>
    have inside : r.cmdList.current < r.cmdList.length :=
      (good ⟨.extra, r.cmdList⟩ (extraWords_reads (left + 1) (i + 1) _
        (List.mem_cons_self ..))).1
    have rest := ih (r := r.extraWord float fetch header i) (i + 1) good
    unfold ChunkFits at rest ⊢
    rw [untilTrigger]
    split_ifs with installs
    · exact inside
    · rw [extraWord_cmdList installs] at rest
      dsimp only at rest
      omega

theorem extraWords_good (left i : Nat) (fits : r.ChunkFits header left i) :
    (r.extraWords float fetch header left i).Good ↔
      r.Good ∧ r.LaterFits float fetch header left i := by
  induction left generalizing i r with
  | zero => simp only [extraWords, LaterFits, and_true]
  | succ left ih =>
    have inside : r.cmdList.current < r.cmdList.length := by
      unfold ChunkFits untilTrigger at fits
      split_ifs at fits <;> omega
    have first : (r.extraWord float fetch header i).Good ↔ r.Good := by
      unfold Good
      rw [extraWord_reads, List.forall_mem_cons]
      exact and_iff_right ⟨inside, trivial⟩
    by_cases installs : IsTrigger (extraId header i)
    · constructor
      · intro good
        have room : (r.extraWord float fetch header i).ChunkFits header left (i + 1) := by
          cases left with
          | zero =>
            unfold ChunkFits
            rw [extraWord_current installs]
            exact Nat.zero_le _
          | succ left =>
            exact chunkFits_of_good (r := r.extraWord float fetch header i) left (i + 1) good
        obtain ⟨before, later⟩ := (ih (i + 1) room).mp good
        exact ⟨first.mp before, fun _ => room, later⟩
      · rintro ⟨good, room, later⟩
        exact (ih (i + 1) (room installs)).mpr ⟨first.mpr good, later⟩
    · have room : (r.extraWord float fetch header i).ChunkFits header left (i + 1) := by
        unfold ChunkFits at fits ⊢
        rw [untilTrigger, if_neg installs] at fits
        rw [extraWord_cmdList installs]
        dsimp only
        omega
      rw [extraWords, ih (i + 1) room, first]
      exact and_congr_right fun _ => (and_iff_right fun h => absurd h installs).symm

theorem align_cmdList (r : ListRun F) : r.align.cmdList =
    { r.cmdList with current := r.cmdList.current + r.cmdList.current % 2 } := by
  unfold align
  rcases Nat.mod_two_eq_zero_or_one r.cmdList.current with even | odd
  · rw [even]
    rfl
  · rw [odd]
    rfl

theorem align_reads (r : ListRun F) : r.align.reads = r.reads := by
  unfold align
  split_ifs <;> rfl

variable (float fetch) in
theorem commandHead_spec (r : ListRun F) : (r.commandHead float fetch).2.reads =
    ⟨.header, { r.align.cmdList with current := r.align.cmdList.current + 1 }⟩ ::
      ⟨.value, r.align.cmdList⟩ :: r.reads ∧
    ((r.commandHead float fetch).2.cmdList.current = 0 ∨ (r.commandHead float fetch).2.cmdList =
      { r.align.cmdList with current := r.align.cmdList.current + 2 }) := by
  constructor
  · rw [← align_reads r]
    rfl
  · by_cases installs : IsTrigger (cmdId (r.commandHead float fetch).1)
    · exact .inl (trigger_current installs)
    · exact .inr (write_cmdList installs)

theorem command_good (r : ListRun F) :
    (r.command float fetch).Good ↔ r.Good ∧ r.CommandFits float fetch := by
  have aligned := congrArg CommandList.current (align_cmdList r)
  obtain ⟨reads, cursor⟩ := commandHead_spec float fetch r
  have head : (r.commandHead float fetch).2.Good ↔
      r.align.cmdList.current + 2 ≤ r.align.cmdList.length ∧ r.Good := by
    unfold Good
    rw [reads, List.forall_mem_cons, List.forall_mem_cons]
    simp only [Read.Inside, Read.AtBoundary]
    dsimp only at aligned
    constructor
    · rintro ⟨⟨header, _⟩, _, rest⟩
      exact ⟨header, rest⟩
    · rintro ⟨room, rest⟩
      exact ⟨⟨room, by omega⟩, ⟨by omega, by omega⟩, rest⟩
  unfold command CommandFits
  dsimp only
  generalize r.commandHead float fetch = h at head cursor
  obtain ⟨header, q⟩ := h
  constructor
  · intro good
    have before : q.Good := fun read member => good read (extraWords_reads _ _ read member)
    obtain ⟨room, rest⟩ := head.mp before
    have fits : q.ChunkFits header (extraDataLength header) 0 := by
      cases words : extraDataLength header with
      | zero =>
        unfold ChunkFits
        rcases cursor with start | behind
        · rw [start]
          exact Nat.zero_le _
        · rw [behind]
          exact room
      | succ left =>
        rw [words] at good
        exact chunkFits_of_good left 0 good
    exact ⟨rest, room, fits, ((extraWords_good _ 0 fits).mp good).2⟩
  · rintro ⟨good, room, fits, later⟩
    exact (extraWords_good _ 0 fits).mpr ⟨head.mpr ⟨room, good⟩, later⟩

def oneWordMissing : ListRun Nat :=
  processCommandList ⟨BitVec.toNat, BitVec.toNat⟩ (fun _ => 0x00100000) PicaState.idleState 0 8 1

end ListRun
end EmuThreeDS.Pica
