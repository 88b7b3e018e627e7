import EmuThreeDS.Exec

/-!
# The shader interpreter

The loop of `RunInterpreter` with its call stack. Instructions are decoded; those that do not
change the flow of control (arithmetic, `NOP`, `EMIT`, `SETEMIT` and what is not handled) are a
parameter that reads all of the unit and does not write the loop counter: `MOVA` writes the other
two address registers.
-/
namespace EmuThreeDS.Pica.Shader

inductive Op where
  | or | and | justX | justY
  deriving DecidableEq

structure FlowCondition where
  op : Op
  refx : Bool
  refy : Bool
  deriving DecidableEq

/-- The flow control fields have the widths of the instruction word. -/
inductive Instruction (ι : Type) where
  | straight (i : ι)
  | end
  | jmpc (condition : FlowCondition) (dest : Fin 4096)
  | jmpu (bool : Fin 16) (num : Fin 256) (dest : Fin 4096)
  | call (dest : Fin 4096) (num : Fin 256)
  | callu (bool : Fin 16) (dest : Fin 4096) (num : Fin 256)
  | callc (condition : FlowCondition) (dest : Fin 4096) (num : Fin 256)
  | ifu (bool : Fin 16) (dest : Fin 4096) (num : Fin 256)
  | ifc (condition : FlowCondition) (dest : Fin 4096) (num : Fin 256)
  | loop (int : Fin 4) (dest : Fin 4096)
  deriving DecidableEq

/-- An integer uniform; `w` is not read. -/
structure LoopParam where
  x : Fin 256
  y : Fin 256
  z : Fin 256

/-- The unit: `address_registers[2]` is the loop counter, `rest` is what else there is. -/
structure UnitState (ρ : Type) where
  conditionalCode : Bool × Bool
  loopCounter : Int
  rest : ρ

structure Setup (ι ρ : Type) where
  programCode : Fin 4096 → Instruction ι
  b : Fin 16 → Bool
  i : Fin 4 → LoopParam
  straight : ι → UnitState ρ → Exec ((Bool × Bool) × ρ)

structure CallStackElement where
  finalAddress : Nat
  returnAddress : Nat
  repeatCounter : Nat
  loopIncrement : Nat
  loopAddress : Nat

structure Machine (ρ : Type) where
  programCounter : Nat
  callStack : List CallStackElement
  state : UnitState ρ

/-- An executed instruction: its address, and the loop counter it sees. -/
abbrev Executed := Nat × Int

theorem next_address {d : Nat} (word : d < 0x100000000) : add32 (sub32 d 1) 1 = d := by
  unfold add32 sub32
  omega

section

variable {ι ρ : Type} (setup : Setup ι ρ)

def evaluateCondition (state : UnitState ρ) (condition : FlowCondition) : Bool :=
  let resultX := condition.refx == state.conditionalCode.1
  let resultY := condition.refy == state.conditionalCode.2
  match condition.op with
  | .or => resultX || resultY
  | .and => resultX && resultY
  | .justX => resultX
  | .justY => resultY

variable (m : Machine ρ)

/-- The lambda `call`. -/
def Machine.call (offset num returnOffset repeatCount loopIncrement : Nat) :
    Exec (Machine ρ) := do
  assert .callStack (m.callStack.length < 16)
  return { m with
    -- -1 so that the increment ends up at the offset
    programCounter := sub32 offset 1
    callStack := ⟨add32 offset num, returnOffset, repeatCount, loopIncrement, offset⟩ ::
      m.callStack }

def Machine.execute : Instruction ι → Exec (Machine ρ)
  | .straight i => do
    let (conditionalCode, rest) ← setup.straight i m.state
    return { m with state := { m.state with conditionalCode, rest } }
  | .end => .ok m
  | .jmpc condition dest =>
    if evaluateCondition m.state condition then .ok { m with programCounter := sub32 dest 1 }
    else .ok m
  | .jmpu bool num dest =>
    if setup.b bool == !(num.val % 2 == 1) then .ok { m with programCounter := sub32 dest 1 }
    else .ok m
  | .call dest num => m.call dest num (add32 m.programCounter 1) 0 0
  | .callu bool dest num =>
    if setup.b bool then m.call dest num (add32 m.programCounter 1) 0 0 else .ok m
  | .callc condition dest num =>
    if evaluateCondition m.state condition then m.call dest num (add32 m.programCounter 1) 0 0
    else .ok m
  | .ifu bool dest num => branch (setup.b bool) dest num
  | .ifc condition dest num => branch (evaluateCondition m.state condition) dest num
  | .loop int dest => do
    let loopParam := setup.i int
    let m := { m with state := { m.state with loopCounter := loopParam.y.val } }
    m.call (add32 m.programCounter 1) (sub32 dest m.programCounter) (add32 dest 1) loopParam.x
      loopParam.z
where
  /-- The two calls of `IFU` and `IFC`. -/
  branch (taken : Bool) (dest : Fin 4096) (num : Fin 256) : Exec (Machine ρ) :=
    if taken then
      m.call (add32 m.programCounter 1) (sub32 (sub32 dest m.programCounter) 1) (add32 dest num) 0 0
    else m.call dest num (add32 dest num) 0 0

def Machine.leave (top : CallStackElement) (below : List CallStackElement) :
    Machine ρ :=
  let state := { m.state with loopCounter := m.state.loopCounter + top.loopIncrement }
  if top.repeatCounter = 0 then ⟨top.returnAddress, below, state⟩
  else ⟨top.loopAddress, { top with repeatCounter := top.repeatCounter - 1 } :: below, state⟩

/-- One turn of the loop, and whether it is the last. -/
structure Turn (ρ : Type) where
  after : Machine ρ
  executed : List Executed
  exitLoop : Bool

def Machine.fetch : Exec (Turn ρ) :=
  if h : m.programCounter < 4096 then do
    let instr := setup.programCode ⟨m.programCounter, h⟩
    let m' ← m.execute setup instr
    return {
      after := { m' with programCounter := add32 m'.programCounter 1 }
      executed := [(m.programCounter, m.state.loopCounter)]
      exitLoop := match instr with
        | .end => true
        | _ => false }
  else .error .undefinedBehaviour

def Machine.turn : Exec (Turn ρ) :=
  match m.callStack with
  | [] => m.fetch setup
  | top :: below =>
    if m.programCounter = top.finalAddress then .ok ⟨m.leave top below, [], false⟩
    else m.fetch setup

/-- The loop, for `fuel` turns at most, with the instructions it executes. -/
def Machine.run : Nat → Machine ρ → Exec (Machine ρ × List Executed)
  | 0, _ => .error .outOfFuel
  | fuel + 1, m => do
    let t ← m.turn setup
    if t.exitLoop then return (t.after, t.executed)
    else do
      let (m, executed) ← t.after.run fuel
      return (m, t.executed ++ executed)

def runInterpreter (fuel : Nat) (state : UnitState ρ) (offset : Nat) :
    Exec (Machine ρ × List Executed) :=
  Machine.run setup fuel ⟨offset, [], { state with conditionalCode := (false, false) }⟩

end
end EmuThreeDS.Pica.Shader
