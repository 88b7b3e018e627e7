import EmuThreeDS.Exec

/-!
# Gateway cheats

`GatewayCheat::Execute` over any memory system. A line is executed or, while a conditional is
not met, skipped; a loop ends by moving the number of the current line back.
-/
namespace EmuThreeDS.Cheats

inductive CheatType where
  | null
  | write32 | write16 | write8
  | greaterThan32 | lessThan32 | equalTo32 | notEqualTo32
  | greaterThan16WithMask | lessThan16WithMask | equalTo16WithMask | notEqualTo16WithMask
  | loadOffset | loop
  | terminator | loopExecuteVariant | fullTerminator
  | setOffset | addValue | setValue
  | incrementiveWrite32 | incrementiveWrite16 | incrementiveWrite8
  | load32 | load16 | load8
  | addOffset | joker | patch
  /-- A number cast to the type that none of its enumerators has. -/
  | other
  deriving DecidableEq

/-- The codes that `Execute` follows by a block: 3 to A, and DD. -/
def CheatType.isConditional : CheatType → Bool
  | greaterThan32 | lessThan32 | equalTo32 | notEqualTo32
  | greaterThan16WithMask | lessThan16WithMask | equalTo16WithMask | notEqualTo16WithMask
  | joker => true
  | _ => false

structure CheatLine where
  type : CheatType
  address : UInt32 := 0
  value : UInt32 := 0
  first : UInt32 := 0

class Integral (T : Type) extends BEq T where
  staticCast : UInt32 → T
  extend : T → UInt32
  sizeOf : UInt32

attribute [instance (50)] Integral.toBEq

instance : Integral UInt8 := ⟨UInt32.toUInt8, UInt8.toUInt32, 1⟩

instance : Integral UInt16 := ⟨UInt32.toUInt16, UInt16.toUInt32, 2⟩

instance : Integral UInt32 := ⟨id, id, 4⟩

structure Port (M T : Type) where
  read : M → UInt32 → T
  write : M → UInt32 → T → M

/-- What the codes use of `Core::System`; `padState` is that of `hid:USER`. -/
structure System (M : Type) where
  memory8 : Port M UInt8
  memory16 : Port M UInt16
  memory32 : Port M UInt32
  invalidateCacheRange : M → UInt32 → UInt32 → M
  padState : UInt32

/-- The part of `State` that the elementary codes work on. -/
structure Registers where
  reg : UInt32 := 0
  offset : UInt32 := 0

structure State extends Registers where
  ifFlag : UInt32 := 0
  loopCount : UInt32 := 0
  loopBackLine : Nat := 0
  currentLineNr : Nat := 0
  loopFlag : Bool := false

section

variable {M T : Type} [Integral T] (system : System M) (line : CheatLine) (state : Registers)
  (memory : M) (port : Port M T)

def store (addr : UInt32) (value : T) : M :=
  if port.read memory addr != value then
    system.invalidateCacheRange (port.write memory addr value) addr (Integral.sizeOf T)
  else memory

def writeOp : M :=
  store system memory port (line.address + state.offset) (Integral.staticCast line.value)

/-- The comparison that decides whether `CompOp` leaves `if_flag` as it is. -/
def compOp (comp : T → Bool) : Bool :=
  comp (port.read memory (line.address + state.offset))

def loadOffsetOp : Registers :=
  { state with offset := system.memory32.read memory (line.address + state.offset) }

def setOffsetOp : Registers := { state with offset := line.value }

def addValueOp : Registers := { state with reg := state.reg + line.value }

def setValueOp : Registers := { state with reg := line.value }

def incrementiveWriteOp : Registers × M :=
  ({ state with offset := state.offset + Integral.sizeOf T },
    store system memory port (line.value + state.offset) (Integral.staticCast state.reg))

def loadOp : Registers :=
  { state with reg := Integral.extend (port.read memory (line.value + state.offset)) }

def addOffsetOp : Registers := { state with offset := state.offset + line.value }

def jokerOp : Bool := system.padState &&& line.value == line.value

def comparison : Bool :=
  let masked (val : UInt16) : UInt16 := (~~~line.value >>> 16).toUInt16 &&& val
  match line.type with
  | .greaterThan32 => compOp line state memory system.memory32 fun val => line.value > val
  | .lessThan32 => compOp line state memory system.memory32 fun val => line.value < val
  | .equalTo32 => compOp line state memory system.memory32 fun val => line.value == val
  | .notEqualTo32 => compOp line state memory system.memory32 fun val => line.value != val
  | .greaterThan16WithMask =>
    compOp line state memory system.memory16 fun val => line.value.toUInt16 > masked val
  | .lessThan16WithMask =>
    compOp line state memory system.memory16 fun val => line.value.toUInt16 < masked val
  | .equalTo16WithMask =>
    compOp line state memory system.memory16 fun val => line.value.toUInt16 == masked val
  | .notEqualTo16WithMask =>
    compOp line state memory system.memory16 fun val => line.value.toUInt16 != masked val
  | .joker => jokerOp system line
  | _ => true

def elementaryOp : Registers × M :=
  match line.type with
  | .write32 => (state, writeOp system line state memory system.memory32)
  | .write16 => (state, writeOp system line state memory system.memory16)
  | .write8 => (state, writeOp system line state memory system.memory8)
  | .loadOffset => (loadOffsetOp system line state memory, memory)
  | .setOffset => (setOffsetOp line state, memory)
  | .addValue => (addValueOp line state, memory)
  | .setValue => (setValueOp line state, memory)
  | .incrementiveWrite32 => incrementiveWriteOp system line state memory system.memory32
  | .incrementiveWrite16 => incrementiveWriteOp system line state memory system.memory16
  | .incrementiveWrite8 => incrementiveWriteOp system line state memory system.memory8
  | .load32 => (loadOp line state memory system.memory32, memory)
  | .load16 => (loadOp line state memory system.memory16, memory)
  | .load8 => (loadOp line state memory system.memory8, memory)
  | .addOffset => (addOffsetOp line state, memory)
  | _ => (state, memory)

end

namespace State

/-- The `++` of the loop over the lines. -/
def next (state : State) : State := { state with currentLineNr := state.currentLineNr + 1 }

/-- `current_line_nr = loop_back_line - 1` and the `++` after it, which undoes the `- 1` also
where it wraps around. -/
def goBack (state : State) : State := { state with currentLineNr := state.loopBackLine }

def loopOp (line : CheatLine) (state : State) : State :=
  { state with
    loopFlag := state.loopCount < line.value
    loopCount := state.loopCount + 1
    loopBackLine := state.currentLineNr }

def terminateOp (state : State) : State :=
  if state.ifFlag > 0 then { state with ifFlag := state.ifFlag - 1 } else state

def loopExecuteVariantOp (state : State) : State :=
  if state.loopFlag then state.goBack else { state with loopCount := 0 }.next

def fullTerminateOp (state : State) : State :=
  if state.loopFlag then state.goBack
  else { state with
    offset := 0, reg := 0, loopCount := 0, ifFlag := 0, loopFlag := false : State }.next

/-- `static_cast<int>(std::ceil(line.value / 8.0))` -/
def skipPatch (line : CheatLine) (state : State) : State :=
  { state with currentLineNr := state.currentLineNr + (line.value.toNat + 7) / 8 }

end State

section

variable {M : Type}

structure Patching (M : Type) where
  currentLineNr : Nat
  first : Bool
  addr : UInt32
  memory : M

variable (system : System M) (lines : List CheatLine)

/-- `first ? cheat_lines[current_line_nr].first : cheat_lines[current_line_nr].value` -/
def patchWord (p : Patching M) : Exec UInt32 :=
  match lines[p.currentLineNr]? with
  | none => .error .undefinedBehaviour
  | some line => .ok (if p.first then line.first else line.value)

def patchBytes : Nat → UInt32 → Patching M → Exec (Patching M)
  | 0, _, p => .ok p
  | numBytes + 1, bitOffset, p => do
    let tmp ← patchWord lines p
    patchBytes numBytes (bitOffset + 8)
      { p with
        memory := system.memory8.write p.memory p.addr (tmp >>> bitOffset).toUInt8
        addr := p.addr + 1 }

/-- The first loop of `PatchOp`, over `num_bytes`, and what follows it. -/
def patchWords : Nat → Patching M → Exec (Patching M)
  | numBytes + 4, p => do
    let tmp ← patchWord lines p
    patchWords numBytes
      { currentLineNr :=
          if !p.first && numBytes + 4 > 4 then p.currentLineNr + 1 else p.currentLineNr
        first := !p.first
        memory := system.memory32.write p.memory p.addr tmp
        addr := p.addr + 4 }
  | numBytes, p => patchBytes system lines numBytes 0 p

def patchOp (line : CheatLine) (state : State) (memory : M) : Exec (State × M) := do
  let addr := line.address + state.offset
  let p ← patchWords system lines line.value.toNat
    { currentLineNr :=
        if line.value > 0 then state.currentLineNr + 1 else state.currentLineNr
      first := true
      memory := system.invalidateCacheRange memory addr line.value
      addr }
  return ({ state with currentLineNr := p.currentLineNr }, p.memory)

end

/-- How often the body of the current loop was begun, and that of each loop that ended: what an
observer of `Execute` sees of the loops. -/
structure Watch where
  bodyRuns : Nat := 0
  ended : List Nat := []

def Watch.endLoop (watch : Watch) : Watch :=
  if watch.bodyRuns = 0 then watch else ⟨0, watch.ended ++ [watch.bodyRuns]⟩

def Watch.see (line : CheatLine) (state : State) (watch : Watch) : Watch :=
  match line.type with
  | .loop => if state.ifFlag = 0 then { watch with bodyRuns := watch.bodyRuns + 1 } else watch
  | .loopExecuteVariant => if state.ifFlag = 0 ∧ !state.loopFlag then watch.endLoop else watch
  | .fullTerminator => if state.loopFlag then watch else watch.endLoop
  | _ => watch

structure Run (M : Type) where
  state : State := {}
  memory : M
  watch : Watch := {}

section

variable {M : Type} (system : System M) (lines : List CheatLine)

def skipped (line : CheatLine) (state : State) : State :=
  match line.type with
  | .greaterThan32 | .lessThan32 | .equalTo32 | .notEqualTo32
  | .greaterThan16WithMask | .lessThan16WithMask | .equalTo16WithMask | .notEqualTo16WithMask
  | .joker => { state with ifFlag := state.ifFlag + 1 }.next
  | .patch => (state.skipPatch line).next
  | .terminator => state.terminateOp.next
  | .fullTerminator => state.fullTerminateOp
  | _ => state.next

def executed (line : CheatLine) (state : State) (memory : M) : Exec (State × M) :=
  match line.type with
  | .greaterThan32 | .lessThan32 | .equalTo32 | .notEqualTo32
  | .greaterThan16WithMask | .lessThan16WithMask | .equalTo16WithMask | .notEqualTo16WithMask
  | .joker =>
    .ok ((if comparison system line state.toRegisters memory then state
      else { state with ifFlag := state.ifFlag + 1 }).next, memory)
  | .loop => .ok ((state.loopOp line).next, memory)
  | .terminator => .ok (state.terminateOp.next, memory)
  | .loopExecuteVariant => .ok (state.loopExecuteVariantOp, memory)
  | .fullTerminator => .ok (state.fullTerminateOp, memory)
  | .patch => (fun after => (after.1.next, after.2)) <$> patchOp system lines line state memory
  | _ =>
    let after := elementaryOp system line state.toRegisters memory
    .ok ({ state with toRegisters := after.1 }.next, after.2)

def step (line : CheatLine) (run : Run M) : Exec (Run M) :=
  (fun after => ⟨after.1, after.2, run.watch.see line run.state⟩) <$>
    if run.state.ifFlag > 0 then .ok (skipped line run.state, run.memory)
    else executed system lines line run.state run.memory

def executeFrom : Nat → Run M → Exec (Run M)
  | 0, run => if run.state.currentLineNr < lines.length then .error .outOfFuel else .ok run
  | fuel + 1, run =>
    match lines[run.state.currentLineNr]? with
    | none => .ok run
    | some line => step system lines line run >>= executeFrom fuel

def execute (fuel : Nat) (memory : M) : Exec (Run M) :=
  executeFrom system lines fuel ⟨{}, memory, {}⟩

end

section

variable {M : Type} {system : System M} {lines : List CheatLine}

theorem executeFrom_line {fuel : Nat} {l : CheatLine} {a : Run M}
    (found : lines[a.state.currentLineNr]? = some l) : executeFrom system lines (fuel + 1) a =
      step system lines l a >>= executeFrom system lines fuel := by
  rw [executeFrom, found]

theorem executeFrom_zero {l : CheatLine} {a : Run M}
    (found : lines[a.state.currentLineNr]? = some l) :
    executeFrom system lines 0 a = .error .outOfFuel := by
  obtain ⟨within, _⟩ := List.getElem?_eq_some_iff.mp found
  rw [executeFrom, if_pos within]

end

end EmuThreeDS.Cheats
