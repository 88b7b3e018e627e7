import EmuThreeDS.Video.ShaderInterpreter
import EmuThreeDS.Video.VertexCache

/-!
# Operands of shader instructions

The instructions of `RunInterpreter` that do not change the flow of control. The registers of
`nihstro` are a parameter, and so is what a `float24` computes. A destination has 5 bits, so that
none is the placeholder.
-/
namespace EmuThreeDS.Pica.Shader

abbrev Components (F : Type) := Fin 4 → F

/-- Numbers of `float24`; `toS32` is the conversion of `MOVA`. -/
structure Floats (F : Type) where
  zero : F
  one : F
  isNaN : F → Bool
  lt : F → F → Bool
  le : F → F → Bool
  eq : F → F → Bool
  neg : F → F
  add : F → F → F
  product : F → F → F
  floor : F → F
  reciprocal : F → F
  sqrt : F → F
  exp2 : F → F
  log2 : F → F
  toS32 : F → BitVec 32

/-- `Float::operator*`: infinity times zero is zero. -/
def Floats.mul {F : Type} (floats : Floats F) (a b : F) : F :=
  let result := floats.product a b
  if floats.isNaN result && !floats.isNaN a && !floats.isNaN b then floats.zero else result

inductive RegisterType where
  | input | temporary | floatUniform | other

/-- `nihstro::SourceRegister`, read from a field of up to 7 bits; an index is an `int`. -/
structure SourceRegisters (R : Type) where
  ofField : Fin 0x80 → R
  add : R → BitVec 32 → R
  getRegisterType : R → RegisterType
  getIndex : R → BitVec 32

inductive Destination where
  | output (index : Fin 16)
  | temporary (index : Fin 16)

inductive CompareOp where
  | equal | notEqual | lessThan | lessEqual | greaterThan | greaterEqual | other

inductive ArithmeticOp where
  | add | mul | flr | max | min | dp3 | dp4 | dph | rcp | rsq | mova | mov | sge | slt
  | cmp (x y : CompareOp)
  | ex2 | lg2 | other

/-- `DPHI`, `SGEI` and `SLTI` are inverted; other arithmetic is not handled. -/
inductive Straight where
  | arithmetic (op : ArithmeticOp) (isInverted : Bool) (addressRegisterIndex : Fin 4)
    (src1 src2 : Fin 0x80) (dest : Destination) (operandDescId : Fin 0x80)
  | mad (isInverted : Bool) (addressRegisterIndex : Fin 4) (src1 src2 src3 : Fin 0x80)
    (dest : Destination) (operandDescId : Fin 0x20)
  | nop
  | emit
  | setEmit (vertexId : Fin 4) (primEmit winding : Bool)
  | unhandled

/-- The selectors of the sources, their signs, and the components that are written. -/
structure SwizzlePattern where
  selector : Fin 3 → Fin 4 → Fin 4
  negate : Fin 3 → Bool
  destComponentEnabled : Fin 4 → Bool

inductive Handled (F : Type) where
  | winding
  | vertex (buffer : AttributeBuffer (Components F))

/-- `emitted` are the calls of the handlers. -/
structure GSEmitter (F : Type) where
  buffer : Fin 3 → AttributeBuffer (Components F)
  vertexId : Nat
  primEmit : Bool
  winding : Bool
  outputMask : Nat
  emitted : List (Handled F)

structure Registers (F : Type) where
  input : Fin 16 → Components F
  temporary : Fin 16 → Components F
  output : Fin 16 → Components F
  addressRegisters : BitVec 32 × BitVec 32
  emitter : Option (GSEmitter F)

variable {F R : Type}

def GSEmitter.emit (emitter : GSEmitter F) (outputRegs : AttributeBuffer (Components F)) :
    Exec (GSEmitter F) :=
  if inside : emitter.vertexId < 3 then
    let buffer := Function.update emitter.buffer ⟨emitter.vertexId, inside⟩
      (writeOutput emitter.outputMask outputRegs (emitter.buffer ⟨emitter.vertexId, inside⟩))
    let winding := if emitter.winding then [.winding] else []
    let calls := if emitter.primEmit then winding ++ List.ofFn fun i => .vertex (buffer i) else []
    .ok { emitter with buffer, emitted := emitter.emitted ++ calls }
  else .error (.assertion .executeEmit)

/-- Of a setup, what straight-line instructions read. -/
structure OperandData (F R : Type) where
  floats : Floats F
  sourceRegisters : SourceRegisters R
  f : Fin 96 → Components F
  swizzleData : Fin 4096 → SwizzlePattern

def registerAt {n : Nat} (file : Fin n → Components F) (index : BitVec 32) : Exec (Components F) :=
  if inside : index.toNat < n then .ok (file ⟨index.toNat, inside⟩) else .error .undefinedBehaviour

def addressOffset (state : UnitState (Registers F)) (addressRegisterIndex : Fin 4) : BitVec 32 :=
  match addressRegisterIndex with
  | 0 => 0
  | 1 => state.rest.addressRegisters.1
  | 2 => state.rest.addressRegisters.2
  | 3 => BitVec.ofInt 32 state.loopCounter

namespace Floats

variable (floats : Floats F)

def dot (numComponents : Nat) (src1 src2 : Components F) : F :=
  ((List.finRange 4).take numComponents).foldl
    (fun sum i => floats.add sum (floats.mul (src1 i) (src2 i))) floats.zero

def compare (op : CompareOp) (a b : F) (code : Bool) : Bool :=
  match op with
  | .equal => floats.eq a b
  | .notEqual => !floats.eq a b
  | .lessThan => floats.lt a b
  | .lessEqual => floats.le a b
  | .greaterThan => floats.lt b a
  | .greaterEqual => floats.le b a
  | .other => code

def arithmetic (op : ArithmeticOp) (src1 src2 : Components F) : Option (Components F) :=
  let ofBool (holds : Bool) : F := if holds then floats.one else floats.zero
  match op with
  | .add => some fun i => floats.add (src1 i) (src2 i)
  | .mul => some fun i => floats.mul (src1 i) (src2 i)
  | .flr => some fun i => floats.floor (src1 i)
  | .max => some fun i => if floats.lt (src2 i) (src1 i) then src1 i else src2 i
  | .min => some fun i => if floats.lt (src1 i) (src2 i) then src1 i else src2 i
  | .dp3 => some fun _ => floats.dot 3 src1 src2
  | .dp4 => some fun _ => floats.dot 4 src1 src2
  | .dph => some fun _ => floats.dot 4 (Function.update src1 3 floats.one) src2
  | .rcp => some fun _ => floats.reciprocal (src1 0)
  | .rsq => some fun _ => floats.reciprocal (floats.sqrt (src1 0))
  | .mov => some src1
  | .sge => some fun i => ofBool (floats.le (src2 i) (src1 i))
  | .slt => some fun i => ofBool (floats.lt (src1 i) (src2 i))
  | .ex2 => some fun _ => floats.exp2 (src1 0)
  | .lg2 => some fun _ => floats.log2 (src1 0)
  | .mova | .cmp _ _ | .other => none

end Floats

namespace OperandData

variable (data : OperandData F R)

def lookupSourceRegister (registers : Registers F) (sourceReg : R) : Exec (Components F) :=
  let index := data.sourceRegisters.getIndex sourceReg
  match data.sourceRegisters.getRegisterType sourceReg with
  | .input => registerAt registers.input index
  | .temporary => registerAt registers.temporary index
  | .floatUniform => registerAt data.f index
  | .other => .ok fun _ => data.floats.zero

def sourceRegister (field : Fin 0x80) (offset : BitVec 32) : R :=
  data.sourceRegisters.add (data.sourceRegisters.ofField field) offset

def swizzled (swizzle : SwizzlePattern) (source : Fin 3) (src : Components F) : Components F :=
  fun i =>
    let component := src (swizzle.selector source i)
    if swizzle.negate source then data.floats.neg component else component

def writeDest (registers : Registers F) (swizzle : SwizzlePattern) (dest : Destination)
    (value : Components F) : Registers F :=
  let write (old : Components F) : Components F :=
    fun i => if swizzle.destComponentEnabled i then value i else old i
  match dest with
  | .output index =>
    { registers with
      output := Function.update registers.output index (write (registers.output index)) }
  | .temporary index =>
    { registers with
      temporary := Function.update registers.temporary index (write (registers.temporary index)) }

/-- An instruction, with the conditional code and the registers behind it. -/
def execute (state : UnitState (Registers F)) : Straight → Exec ((Bool × Bool) × Registers F)
  | .arithmetic op isInverted addressRegisterIndex src1 src2 dest operandDescId => do
    let swizzle := data.swizzleData ⟨operandDescId, by omega⟩
    let offset := addressOffset state addressRegisterIndex
    let src1 ← data.lookupSourceRegister state.rest
      (data.sourceRegister src1 (if isInverted then 0 else offset))
    let src2 ← data.lookupSourceRegister state.rest
      (data.sourceRegister src2 (if isInverted then offset else 0))
    let src1 := data.swizzled swizzle 0 src1
    let src2 := data.swizzled swizzle 1 src2
    let registers := match data.floats.arithmetic op src1 src2 with
      | some value => writeDest state.rest swizzle dest value
      | none => state.rest
    return match op with
      | .mova =>
        let loaded (i : Fin 4) (old : BitVec 32) : BitVec 32 :=
          if swizzle.destComponentEnabled i then data.floats.toS32 (src1 i) else old
        (state.conditionalCode, { registers with
          addressRegisters :=
            (loaded 0 registers.addressRegisters.1, loaded 1 registers.addressRegisters.2) })
      | .cmp x y =>
        ((data.floats.compare x (src1 0) (src2 0) state.conditionalCode.1,
          data.floats.compare y (src1 1) (src2 1) state.conditionalCode.2), registers)
      | _ => (state.conditionalCode, registers)
  | .mad isInverted addressRegisterIndex src1 src2 src3 dest operandDescId => do
    let swizzle := data.swizzleData ⟨operandDescId, by omega⟩
    let offset := addressOffset state addressRegisterIndex
    let src1 ← data.lookupSourceRegister state.rest (data.sourceRegisters.ofField src1)
    let src2 ← data.lookupSourceRegister state.rest
      (data.sourceRegister src2 (if isInverted then 0 else offset))
    let src3 ← data.lookupSourceRegister state.rest
      (data.sourceRegister src3 (if isInverted then offset else 0))
    let src1 := data.swizzled swizzle 0 src1
    let src2 := data.swizzled swizzle 1 src2
    let src3 := data.swizzled swizzle 2 src3
    return (state.conditionalCode, writeDest state.rest swizzle dest fun i =>
      data.floats.add (data.floats.mul (src1 i) (src2 i)) (src3 i))
  | .nop | .unhandled => .ok (state.conditionalCode, state.rest)
  | .emit =>
    match state.rest.emitter with
    | none => .error (.assertion .executeEmit)
    | some emitter => do
      let emitter ← emitter.emit state.rest.output
      return (state.conditionalCode, { state.rest with emitter := some emitter })
  | .setEmit vertexId primEmit winding =>
    match state.rest.emitter with
    | none => .error (.assertion .executeEmit)
    | some emitter =>
      .ok (state.conditionalCode, { state.rest with
        emitter := some { emitter with vertexId, primEmit, winding } })

def setup (programCode : Fin 4096 → Instruction Straight) (b : Fin 16 → Bool)
    (i : Fin 4 → LoopParam) : Setup Straight (Registers F) where
  programCode := programCode
  b := b
  i := i
  straight instr state := data.execute state instr

end OperandData
end EmuThreeDS.Pica.Shader
