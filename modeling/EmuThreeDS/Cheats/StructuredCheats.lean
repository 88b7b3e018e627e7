import EmuThreeDS.Cheats.GatewayCheat
import Mathlib.Logic.Function.Iterate

/-!
# Structured cheats

Well-nested programs of Gateway codes, what they mean and the lines they are written in. A code
D2 ends a section: it closes the conditionals that are open there, and the loop it ends if there
is one, and clears the registers.
-/
namespace EmuThreeDS.Cheats

namespace CheatType

def isElementary (type : CheatType) : Bool :=
  !type.isConditional && type != loop && type != terminator && type != loopExecuteVariant &&
    type != fullTerminator && type != patch

end CheatType

def CheatLine.dataLines (line : CheatLine) : Nat := (line.value.toNat + 7) / 8

/-- A block is its first code and what follows it. A conditional left `opened` and a loop left
`looped` reach to the end of the section. -/
inductive Block where
  | done
  | line (l : CheatLine) (rest : Block)
  | patch (l : CheatLine) (data : List CheatLine) (rest : Block)
  | conditional (l : CheatLine) (body : Block) (close : CheatLine) (rest : Block)
  | loop (l : CheatLine) (body : Block) (close : CheatLine) (rest : Block)
  | opened (l : CheatLine) (rest : Block)
  | looped (l : CheatLine) (body : Block)

namespace Block

/-- Nothing is left to the D2. -/
def Closed : Block → Prop
  | done => True
  | line _ rest | patch _ _ rest | conditional _ _ _ rest | loop _ _ _ rest => rest.Closed
  | opened _ _ | looped _ _ => False

/-- No loop is left to the D2. -/
def LoopsClosed : Block → Prop
  | done => True
  | line _ rest | patch _ _ rest | conditional _ _ _ rest | loop _ _ _ rest | opened _ rest =>
    rest.LoopsClosed
  | looped _ _ => False

def LoopFree : Block → Prop
  | done => True
  | line _ rest | patch _ _ rest | opened _ rest => rest.LoopFree
  | conditional _ body _ rest => body.LoopFree ∧ rest.LoopFree
  | loop _ _ _ _ | looped _ _ => False

def depth : Block → Nat
  | done => 0
  | line _ rest | patch _ _ rest => rest.depth
  | conditional _ body _ rest => max (body.depth + 1) rest.depth
  | loop _ body _ rest => max body.depth rest.depth
  | opened _ rest => rest.depth + 1
  | looped _ body => body.depth

/-- Every code is in its place, and no loop is inside another. -/
def WellNested : Block → Prop
  | done => True
  | line l rest => l.type.isElementary ∧ rest.WellNested
  | patch l data rest => (l.type = .patch ∧ data.length = l.dataLines) ∧ rest.WellNested
  | conditional l body close rest =>
    (l.type.isConditional ∧ close.type = .terminator) ∧ (body.WellNested ∧ body.Closed) ∧
      rest.WellNested
  | loop l body close rest =>
    (l.type = .loop ∧ close.type = .loopExecuteVariant) ∧
      (body.WellNested ∧ body.Closed ∧ body.LoopFree) ∧ rest.WellNested
  | opened l rest => l.type.isConditional ∧ rest.WellNested
  | looped l body => l.type = .loop ∧ body.WellNested ∧ body.LoopFree

def lines : Block → List CheatLine
  | done => []
  | line l rest => l :: rest.lines
  | patch l data rest => l :: (data ++ rest.lines)
  | conditional l body close rest => l :: (body.lines ++ close :: rest.lines)
  | loop l body close rest => l :: (body.lines ++ close :: rest.lines)
  | opened l rest => l :: rest.lines
  | looped l body => l :: body.lines

end Block

structure Section where
  block : Block
  wellNested : block.WellNested
  close : CheatLine
  closes : close.type = .fullTerminator

structure Program where
  sections : List Section
  last : Block
  wellNested : last.WellNested
  loopsClosed : last.LoopsClosed

def sectionLines (sections : List Section) : List CheatLine :=
  sections.flatMap fun part => part.block.lines ++ [part.close]

def Program.lines (program : Program) : List CheatLine :=
  sectionLines program.sections ++ program.last.lines

/-- `if_flag` can count the conditionals that are open. -/
def Program.Shallow (program : Program) : Prop :=
  (∀ part ∈ program.sections, part.block.depth < 2 ^ 32) ∧ program.last.depth < 2 ^ 32

section

variable {M : Type} (system : System M)

/-- What a program works on, and the counts of the loops it has run. -/
structure Config (M : Type) where
  registers : Registers := {}
  memory : M
  loops : List Nat := []

namespace Config

def elementary (line : CheatLine) (c : Config M) : Config M :=
  let after := elementaryOp system line c.registers c.memory
  { c with registers := after.1, memory := after.2 }

def holds (line : CheatLine) (c : Config M) : Bool :=
  comparison system line c.registers c.memory

/-- The D2 outside a loop. -/
def flush (c : Config M) : Config M := { c with registers := {} }

/-- A loop with a body that ran so often. -/
def ran (count : Nat) (c : Config M) : Config M := { c with loops := c.loops ++ [count] }

end Config

def copyBytes (word : UInt32) : Nat → UInt32 → UInt32 → M → M
  | 0, _, _, memory => memory
  | n + 1, shift, addr, memory =>
    copyBytes word n (shift + 8) (addr + 1)
      (system.memory8.write memory addr (word >>> shift).toUInt8)

def copyWords : Nat → List UInt32 → UInt32 → M → M
  | n + 4, word :: words, addr, memory =>
    copyWords n words (addr + 4) (system.memory32.write memory addr word)
  | n, word :: _, addr, memory => copyBytes system word n 0 addr memory
  | _, [], _, memory => memory

def patchData (data : List CheatLine) : List UInt32 :=
  data.flatMap fun line => [line.first, line.value]

def Config.patched (line : CheatLine) (data : List CheatLine) (c : Config M) : Config M :=
  let addr := line.address + c.registers.offset
  { c with
    memory := copyWords system line.value.toNat (patchData data) addr
      (system.invalidateCacheRange c.memory addr line.value) }

/-- The meaning of a block: a conditional runs its block if its test holds, and a loop its body
as often as its code says. -/
def Block.eval : Block → Config M → Config M
  | done, c => c
  | line l rest, c => rest.eval (c.elementary system l)
  | patch l data rest, c => rest.eval (c.patched system l data)
  | conditional l body _ rest, c => rest.eval (if c.holds system l then body.eval c else c)
  | loop l body _ rest, c => rest.eval ((body.eval^[l.value.toNat] c).ran l.value.toNat)
  | opened l rest, c => if c.holds system l then rest.eval c else c
  | looped l body, c => (body.eval^[l.value.toNat] c).ran l.value.toNat

def evalSections (sections : List Section) (c : Config M) : Config M :=
  sections.foldl (fun c part => (part.block.eval system c).flush) c

def Program.eval (program : Program) (memory : M) : Config M :=
  program.last.eval system (evalSections system program.sections { memory })

end

/-!
## One line of a cheat

Where `Execute` stands after a line, executed or skipped, and what a patch writes.
-/

variable {M : Type} {system : System M} {lines : List CheatLine}

section

def Laid (lines : List CheatLine) : Nat → List CheatLine → Prop
  | _, [] => True
  | p, x :: xs => lines[p]? = some x ∧ Laid lines (p + 1) xs

theorem laid_append {xs ys : List CheatLine} {p : Nat} :
    Laid lines p (xs ++ ys) ↔ Laid lines p xs ∧ Laid lines (p + xs.length) ys := by
  induction xs generalizing p with
  | nil => simp [Laid]
  | cons x xs ih =>
    simp only [List.cons_append, Laid, ih, List.length_cons, and_assoc]
    rw [Nat.add_right_comm p 1, Nat.add_assoc p]

theorem laid_self (before xs : List CheatLine) : Laid (before ++ xs) before.length xs := by
  induction xs generalizing before with
  | nil => exact trivial
  | cons x xs ih =>
    have rest := ih (before ++ [x])
    rw [List.append_assoc, List.length_append] at rest
    exact ⟨by simp, rest⟩

end

/-- The part of `State` that belongs to the loop, and the runs of its body so far. -/
structure Looping where
  loopCount : UInt32 := 0
  loopBackLine : Nat := 0
  loopFlag : Bool := false
  bodyRuns : Nat := 0

/-- `Execute` at a line, in a configuration. -/
def place (c : Config M) (k : Looping) (ifFlag : UInt32) (p : Nat) : Run M where
  state :=
    { c.registers with
      ifFlag
      loopCount := k.loopCount
      loopBackLine := k.loopBackLine
      currentLineNr := p
      loopFlag := k.loopFlag }
  memory := c.memory
  watch := ⟨k.bodyRuns, c.loops⟩

def Config.endLoop (c : Config M) (k : Looping) : Config M :=
  if k.bodyRuns = 0 then c else c.ran k.bodyRuns

section

theorem patchBytes_eq (word : UInt32) (n : Nat) (shift : UInt32) (p : Patching M)
    (here : patchWord lines p = .ok word) :
    ∃ addr, patchBytes system lines n shift p =
      .ok { p with addr, memory := copyBytes system word n shift p.addr p.memory } := by
  induction n generalizing shift p with
  | zero => exact ⟨p.addr, rfl⟩
  | succ n ih =>
    rw [patchBytes, here]
    exact ih _ _ here

/-- The words that are left in some lines of which the first may be half used. -/
def wordsFrom (first : Bool) (data : List CheatLine) : List UInt32 :=
  if first then patchData data else (patchData data).tail

theorem patchWords_bytes {n : Nat} (p : Patching M) (word : UInt32) (words : List UInt32)
    (few : n < 4) (here : patchWord lines p = .ok word) :
    ∃ addr, patchWords system lines n p =
      .ok { p with addr, memory := copyWords system n (word :: words) p.addr p.memory } := by
  have loop : patchWords system lines n p = patchBytes system lines n 0 p := by
    match n, few with
    | 0, _ | 1, _ | 2, _ | 3, _ => rfl
  have copy : copyWords system n (word :: words) p.addr p.memory =
      copyBytes system word n 0 p.addr p.memory := by
    match n, few with
    | 0, _ | 1, _ | 2, _ | 3, _ => rfl
  rw [loop, copy]
  exact patchBytes_eq word n 0 p here

theorem patchWords_last {n : Nat} {p : Patching M} {d : CheatLine} {data : List CheatLine}
    (positive : 0 < n) (few : n < 4) (found : lines[p.currentLineNr]? = some d)
    (fits : (d :: data).length = (n + (if p.first then 0 else 4) + 7) / 8) :
    ∃ first addr, patchWords system lines n p =
      .ok ⟨p.currentLineNr + ((d :: data).length - 1), first, addr,
        copyWords system n (wordsFrom p.first (d :: data)) p.addr p.memory⟩ := by
  have none_left : data = [] := by
    rw [List.length_cons] at fits
    apply List.eq_nil_of_length_eq_zero
    split_ifs at fits <;> omega
  subst none_left
  have here : patchWord lines p = .ok (if p.first then d.first else d.value) := by
    rw [patchWord, found]
  obtain ⟨addr, runs⟩ := patchWords_bytes p _
    (if p.first then [d.value] else []) few here
  refine ⟨p.first, addr, runs.trans ?_⟩
  cases first : p.first <;> rfl

theorem patchWords_eq : ∀ (n : Nat) (p : Patching M) (data : List CheatLine), 0 < n →
    Laid lines p.currentLineNr data → data.length = (n + (if p.first then 0 else 4) + 7) / 8 →
    ∃ first addr, patchWords system lines n p =
      .ok ⟨p.currentLineNr + (data.length - 1), first, addr,
        copyWords system n (wordsFrom p.first data) p.addr p.memory⟩
  | n, ⟨line, first, addr, memory⟩, [], positive, _, fits => by
    simp only [List.length_nil] at fits
    omega
  | 4, ⟨line, true, addr, memory⟩, d :: data, _, laid, fits => by
    have none_left : data = [] := by simpa using fits
    subst none_left
    rw [patchWords, patchWord, laid.1]
    exact ⟨_, _, rfl⟩
  | 4, ⟨line, false, addr, memory⟩, d :: data, _, laid, fits => by
    have none_left : data = [] := by simpa using fits
    subst none_left
    rw [patchWords, patchWord, laid.1]
    exact ⟨_, _, rfl⟩
  | n + 5, ⟨line, true, addr, memory⟩, d :: data, _, laid, fits => by
    rw [patchWords, patchWord, laid.1]
    exact patchWords_eq (n + 1) _ (d :: data) (by omega) laid (by simp at fits ⊢; omega)
  | n + 5, ⟨line, false, addr, memory⟩, d :: data, _, laid, fits => by
    rw [patchWords, patchWord, laid.1]
    have more : 1 ≤ data.length := by simp at fits; omega
    obtain ⟨first, addr', runs⟩ := patchWords_eq (n + 1)
      (⟨line + 1, true, addr + 4, system.memory32.write memory addr d.value⟩ : Patching M) data
      (by omega) laid.2 (by simp at fits ⊢; omega)
    refine ⟨first, addr', ?_⟩
    have last : line + ((d :: data).length - 1) = line + 1 + (data.length - 1) := by
      rw [List.length_cons]
      omega
    rw [last]
    exact runs
  | 1, p, d :: data, _, laid, fits => patchWords_last (by decide) (by decide) laid.1 fits
  | 2, p, d :: data, _, laid, fits => patchWords_last (by decide) (by decide) laid.1 fits
  | 3, p, d :: data, _, laid, fits => patchWords_last (by decide) (by decide) laid.1 fits

theorem patchOp_eq {l : CheatLine} {data : List CheatLine} {state : State}
    (laid : Laid lines (state.currentLineNr + 1) data) (fits : data.length = l.dataLines)
    (memory : M) :
    patchOp system lines l state memory =
      .ok ({ state with currentLineNr := state.currentLineNr + data.length },
        (Config.patched system l data ⟨state.toRegisters, memory, []⟩).memory) := by
  unfold CheatLine.dataLines at fits
  unfold patchOp
  by_cases nothing : l.value = 0
  · have empty : data = [] := by
      rw [nothing] at fits
      exact List.eq_nil_of_length_eq_zero fits
    subst empty
    simp only [Config.patched, nothing]
    rfl
  · have positive : 0 < l.value := by
      exact Nat.pos_of_ne_zero fun zero => nothing (UInt32.toNat_inj.mp zero)
    have counted : 0 < l.value.toNat := UInt32.lt_iff_toNat_lt.mp positive
    obtain ⟨first, addr, runs⟩ := @patchWords_eq M system lines l.value.toNat
      ⟨state.currentLineNr + 1, true, l.address + state.offset,
        system.invalidateCacheRange memory (l.address + state.offset) l.value⟩ data counted laid
      fits
    simp only [if_pos positive, runs, ok_bind, pure_eq_ok]
    have last : state.currentLineNr + 1 + (data.length - 1) =
        state.currentLineNr + data.length := by omega
    rw [last]
    rfl

end

section

variable {l : CheatLine} {c : Config M} {k : Looping} {p : Nat}

theorem step_elementary (type : l.type.isElementary) :
    step system lines l (place c k 0 p) = .ok (place (c.elementary system l) k 0 (p + 1)) := by
  obtain ⟨type', _, _, _⟩ := l
  cases type' <;> first | exact absurd type Bool.false_ne_true | rfl

theorem step_conditional (type : l.type.isConditional) : step system lines l (place c k 0 p) =
      .ok (place c k (if c.holds system l then 0 else 1) (p + 1)) := by
  have does : step system lines l (place c k 0 p) =
      .ok ⟨(if c.holds system l then (place c k 0 p).state
        else { (place c k 0 p).state with ifFlag := 1 }).next, c.memory, ⟨k.bodyRuns, c.loops⟩⟩ := by
    obtain ⟨type', _, _, _⟩ := l
    cases type' <;> first | exact absurd type Bool.false_ne_true | rfl
  rw [does]
  split_ifs <;> rfl

theorem step_terminator (type : l.type = .terminator) :
    step system lines l (place c k 0 p) = .ok (place c k 0 (p + 1)) := by
  unfold step executed Watch.see
  rw [type]
  rfl

theorem step_patch {data : List CheatLine} (type : l.type = .patch)
    (fits : data.length = l.dataLines) (laid : Laid lines (p + 1) data) :
    step system lines l (place c k 0 p) =
      .ok (place (c.patched system l data) k 0 (p + 1 + data.length)) := by
  unfold step executed Watch.see
  rw [type]
  rw [@patchOp_eq M system lines l data (place c k 0 p).state
    laid fits]
  rw [Nat.add_right_comm]
  rfl

theorem step_loop (type : l.type = .loop) : step system lines l (place c k 0 p) =
      .ok (place c ⟨k.loopCount + 1, p, k.loopCount < l.value, k.bodyRuns + 1⟩ 0 (p + 1)) := by
  unfold step executed Watch.see
  rw [type]
  rfl

theorem step_back (type : l.type = .loopExecuteVariant) (again : k.loopFlag = true) :
    step system lines l (place c k 0 p) = .ok (place c k 0 k.loopBackLine) := by
  obtain ⟨count, backLine, flag, runs⟩ := k
  cases again
  unfold step executed Watch.see
  rw [type]
  rfl

theorem place_endLoop (state : State) :
    (⟨state, c.memory, Watch.endLoop ⟨k.bodyRuns, c.loops⟩⟩ : Run M) =
      ⟨state, (c.endLoop k).memory, ⟨0, (c.endLoop k).loops⟩⟩ := by
  unfold Watch.endLoop Config.endLoop
  by_cases none_run : k.bodyRuns = 0
  · simp only [none_run, if_true]
  · simp only [none_run, if_false]
    rfl

theorem endLoop_registers : (c.endLoop k).registers = c.registers := by
  unfold Config.endLoop
  split_ifs <;> rfl

theorem step_ends (type : l.type = .loopExecuteVariant) (last : k.loopFlag = false) :
    step system lines l (place c k 0 p) =
      .ok (place (c.endLoop k) { k with loopCount := 0, bodyRuns := 0 } 0 (p + 1)) := by
  obtain ⟨count, backLine, flag, runs⟩ := k
  cases last
  unfold step executed Watch.see
  rw [type]
  unfold place
  rw [endLoop_registers]
  exact congrArg Except.ok (place_endLoop _)

theorem step_fullTerminator_back {d : UInt32} (type : l.type = .fullTerminator)
    (again : k.loopFlag = true) :
    step system lines l (place c k d p) = .ok (place c k d k.loopBackLine) := by
  obtain ⟨count, backLine, flag, runs⟩ := k
  cases again
  unfold step executed skipped Watch.see
  rw [type, ite_self]
  rfl

theorem step_fullTerminator_ends {d : UInt32} (type : l.type = .fullTerminator)
    (last : k.loopFlag = false) :
    step system lines l (place c k d p) =
      .ok (place (c.endLoop k).flush { k with loopCount := 0, bodyRuns := 0 } 0 (p + 1)) := by
  obtain ⟨count, backLine, flag, runs⟩ := k
  cases last
  unfold step executed skipped Watch.see
  rw [type, ite_self]
  exact congrArg Except.ok (place_endLoop _)

end

section

variable {l : CheatLine} {c : Config M} {k : Looping} {d : UInt32} {p : Nat}

theorem step_skips (skips : 0 < d) : step system lines l (place c k d p) =
    .ok ⟨skipped l (place c k d p).state, c.memory,
      Watch.see l (place c k d p).state ⟨k.bodyRuns, c.loops⟩⟩ := by
  have positive : (place c k d p).state.ifFlag > 0 := skips
  rw [step, if_pos positive]
  rfl

theorem skip_elementary (type : l.type.isElementary) (skips : 0 < d) :
    step system lines l (place c k d p) = .ok (place c k d (p + 1)) := by
  rw [step_skips skips]
  obtain ⟨type', _, _, _⟩ := l
  cases type' <;> first | exact absurd type Bool.false_ne_true | rfl

theorem skip_conditional (type : l.type.isConditional) (skips : 0 < d) :
    step system lines l (place c k d p) = .ok (place c k (d + 1) (p + 1)) := by
  rw [step_skips skips]
  obtain ⟨type', _, _, _⟩ := l
  cases type' <;> first | exact absurd type Bool.false_ne_true | rfl

theorem skip_terminator (type : l.type = .terminator) (skips : 0 < d) :
    step system lines l (place c k d p) = .ok (place c k (d - 1) (p + 1)) := by
  have positive : (place c k d p).state.ifFlag > 0 := skips
  rw [step_skips skips]
  unfold skipped State.terminateOp Watch.see
  rw [type, if_pos positive]
  rfl

theorem skip_patch (type : l.type = .patch) (skips : 0 < d) :
    step system lines l (place c k d p) = .ok (place c k d (p + 1 + l.dataLines)) := by
  rw [step_skips skips]
  unfold skipped Watch.see
  rw [type, Nat.add_right_comm]
  rfl

theorem skip_loop (type : l.type = .loop ∨ l.type = .loopExecuteVariant) (skips : 0 < d) :
    step system lines l (place c k d p) = .ok (place c k d (p + 1)) := by
  have skipping : (place c k d p).state.ifFlag ≠ 0 := (UInt32.ne_of_lt skips).symm
  rw [step_skips skips]
  unfold skipped Watch.see
  rcases type with type | type <;> rw [type] <;> dsimp only
  · rw [if_neg skipping]
    rfl
  · rw [if_neg fun both => skipping both.1]
    rfl

end

end EmuThreeDS.Cheats
