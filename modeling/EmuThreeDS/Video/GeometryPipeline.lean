import EmuThreeDS.Exec
import Mathlib.Data.List.OfFn

/-!
# The geometry pipeline

`geometry_pipeline.cpp` and the loop of a draw that feeds it. A write behind the end of a buffer
is undefined. Loading vertices, the vertex shader and its cache come in as the attributes they
put out; the geometry shader is whatever runs between its inputs and the vertex handler.
-/
namespace EmuThreeDS.Pica

inductive UseGS where
  | no | yes | other
  deriving DecidableEq

inductive ShaderMode where
  | gs | vs | other
  deriving DecidableEq

inductive GSMode where
  | point | variablePrimitive | fixedPrimitive | other

structure Regs where
  useGs : UseGS
  variablePrimitive : Fin 2
  gsUnitExclusiveConfiguration : Fin 2
  vsOutmapTotalMinus1A : Fin 16
  vsOutmapTotalMinus1B : Fin 16
  mode : GSMode
  fixedVertexNumMinus1 : Fin 16
  strideMinus1 : Fin 16
  startIndex : Fin 16
  variableVertexMainNumMinus1 : Fin 0x100000000
  maxInputAttributeIndex : Fin 16
  inputToUniform : Fin 256
  shaderMode : ShaderMode
  /-- `GetRegisterForAttribute`. -/
  registerForAttribute : Fin 16 → Fin 16

abbrev AttributeBuffer (α : Type) := Fin 16 → α

abbrev FloatUniforms (α : Type) := Fin 96 → α

variable {α : Type}

/-- The geometry shader unit, and the vertices given to the vertex handler. -/
structure GSUnit (α : Type) where
  input : AttributeBuffer α
  handled : List (AttributeBuffer α)

structure Engine (α : Type) where
  /-- A vector of four times the count, as `float24`. -/
  ofCount : Nat → α
  run : FloatUniforms α → GSUnit α → GSUnit α

def GSUnit.loadInput (unit : GSUnit α) (regs : Regs) (input : AttributeBuffer α) : GSUnit α :=
  { unit with
    input := ((List.finRange 16).take (regs.maxInputAttributeIndex + 1)).foldl
      (fun registers attr => Function.update registers (regs.registerForAttribute attr) (input attr))
      unit.input }

/-- `std::copy` to the cursor of a buffer, which it moves on. -/
def copyTo {n : Nat} (buffer : Fin n → α) (cursor : Nat) : List α → Exec ((Fin n → α) × Nat)
  | [] => .ok (buffer, cursor)
  | a :: rest =>
    if h : cursor < n then copyTo (Function.update buffer ⟨cursor, h⟩ a) (cursor + 1) rest
    else .error .undefinedBehaviour

def attributes (input : AttributeBuffer α) (count : Nat) : List α := (List.ofFn input).take count

structure Point (α : Type) where
  attributeBuffer : AttributeBuffer α
  bufferCur : Nat
  bufferEnd : Nat
  vsOutputNum : Nat

structure VariablePrimitive where
  needIndex : Bool
  mainVertexNum : Nat
  totalVertexNum : Nat
  bufferCur : Nat
  vsOutputNum : Nat

structure FixedPrimitive where
  bufferBegin : Nat
  bufferCur : Nat
  bufferEnd : Nat
  vsOutputNum : Nat

inductive Backend (α : Type) where
  | point (b : Point α)
  | variablePrimitive (b : VariablePrimitive)
  | fixedPrimitive (b : FixedPrimitive)

structure Pipeline (α : Type) where
  backend : Option (Backend α)
  f : FloatUniforms α
  b15 : Bool
  unit : GSUnit α

/-- A call of the backend: what it stored, and whether it reported a completed primitive. -/
inductive Call where
  | submitIndex (val : Nat)
  | submitVertex (stored : Nat) (completed : Bool)

section

variable (regs : Regs)

def Point.create (attributeBuffer : AttributeBuffer α) : Exec (Point α) := do
  assert .geometryBackend (regs.variablePrimitive.val = 0)
  assert .geometryBackend (regs.inputToUniform.val = 0)
  let vsOutputNum := regs.vsOutmapTotalMinus1A.val + 1
  let gsInputNum := regs.maxInputAttributeIndex.val + 1
  assert .geometryBackend (gsInputNum % vsOutputNum = 0)
  return ⟨attributeBuffer, 0, gsInputNum, vsOutputNum⟩

def VariablePrimitive.create : Exec VariablePrimitive := do
  assert .geometryBackend (regs.variablePrimitive.val = 1)
  assert .geometryBackend (regs.inputToUniform.val = 1)
  return ⟨true, 0, 0, 0, regs.vsOutmapTotalMinus1A.val + 1⟩

def FixedPrimitive.create : Exec FixedPrimitive := do
  assert .geometryBackend (regs.variablePrimitive.val = 0)
  assert .geometryBackend (regs.inputToUniform.val = 1)
  let vsOutputNum := regs.vsOutmapTotalMinus1A.val + 1
  assert .geometryBackend (vsOutputNum = regs.strideMinus1.val + 1)
  let vertexNum := regs.fixedVertexNumMinus1.val + 1
  let bufferBegin := regs.startIndex.val
  return ⟨bufferBegin, bufferBegin, bufferBegin + vsOutputNum * vertexNum, vsOutputNum⟩

/-- What a backend leaves after a vertex: how many attributes it stored, and the report. -/
structure Submitted (β : Type) where
  stored : Nat
  completed : Bool
  after : β

def Point.submitVertex (b : Point α) (unit : GSUnit α) (input : AttributeBuffer α) :
    Exec (Submitted (Point α × GSUnit α)) := do
  let (buffer, cur) ← copyTo b.attributeBuffer b.bufferCur (attributes input b.vsOutputNum)
  let stored := cur - b.bufferCur
  if cur = b.bufferEnd then
    return ⟨stored, true, { b with attributeBuffer := buffer, bufferCur := 0 },
      unit.loadInput regs buffer⟩
  else return ⟨stored, false, { b with attributeBuffer := buffer, bufferCur := cur }, unit⟩

def VariablePrimitive.submitIndex (engine : Engine α) (b : VariablePrimitive)
    (f : FloatUniforms α) (val : Nat) : Exec (VariablePrimitive × FloatUniforms α) := do
  assert .geometryBackend (b.needIndex = true)
  let (f, _) ← copyTo f 0 [engine.ofCount val]
  return ({ b with
    bufferCur := 1
    mainVertexNum := add32 regs.variableVertexMainNumMinus1 1
    totalVertexNum := val
    needIndex := false }, f)

def VariablePrimitive.submitVertex (b : VariablePrimitive) (f : FloatUniforms α)
    (input : AttributeBuffer α) : Exec (Submitted (VariablePrimitive × FloatUniforms α)) := do
  assert .geometryBackend (b.needIndex = false)
  -- main vertices send all attributes, the others their first one
  let count := if b.mainVertexNum ≠ 0 then b.vsOutputNum else 1
  let mainVertexNum := if b.mainVertexNum ≠ 0 then b.mainVertexNum - 1 else 0
  let (f, cur) ← copyTo f b.bufferCur (attributes input count)
  let totalVertexNum := sub32 b.totalVertexNum 1
  let b' := { b with mainVertexNum, totalVertexNum, bufferCur := cur }
  if totalVertexNum = 0 then return ⟨cur - b.bufferCur, true, { b' with needIndex := true }, f⟩
  else return ⟨cur - b.bufferCur, false, b', f⟩

def FixedPrimitive.submitVertex (b : FixedPrimitive) (f : FloatUniforms α)
    (input : AttributeBuffer α) : Exec (Submitted (FixedPrimitive × FloatUniforms α)) := do
  let (f, cur) ← copyTo f b.bufferCur (attributes input b.vsOutputNum)
  if cur = b.bufferEnd then
    return ⟨cur - b.bufferCur, true, { b with bufferCur := b.bufferBegin }, f⟩
  else return ⟨cur - b.bufferCur, false, { b with bufferCur := cur }, f⟩

def Backend.isEmpty : Backend α → Bool
  | .point b => b.bufferCur = 0
  | .variablePrimitive b => b.needIndex
  | .fixedPrimitive b => b.bufferCur = b.bufferBegin

end

section

variable (regs : Regs) (engine : Engine α) (s : Pipeline α)

/-- `Reconfigure`; the attribute buffer of a new `GeometryPipeline_Point` is not initialised. -/
def reconfigure (attributeBuffer : AttributeBuffer α) : Exec (Pipeline α) := do
  assert .reconfigure (∀ b ∈ s.backend, b.isEmpty = true)
  if regs.useGs = .no then return { s with backend := none }
  else
    assert .reconfigure (regs.useGs = .yes)
    assert .reconfigure (regs.gsUnitExclusiveConfiguration.val = 1)
    assert .reconfigure (regs.shaderMode = .gs)
    assert .reconfigure (regs.vsOutmapTotalMinus1A = regs.vsOutmapTotalMinus1B)
    match regs.mode with
    | .point => do
      let b ← Point.create regs attributeBuffer
      return { s with backend := some (.point b) }
    | .variablePrimitive => do
      let b ← VariablePrimitive.create regs
      return { s with backend := some (.variablePrimitive b) }
    | .fixedPrimitive => do
      let b ← FixedPrimitive.create regs
      return { s with backend := some (.fixedPrimitive b) }
    | .other => .error (.assertion .reconfigure)

def Pipeline.needIndexInput : Bool :=
  match s.backend with
  | some (.variablePrimitive b) => b.needIndex
  | _ => false

def Pipeline.submitIndex (val : Nat) : Exec (Pipeline α × List Call) :=
  match s.backend with
  | some (.variablePrimitive b) => do
    let (b, f) ← b.submitIndex regs engine s.f val
    return ({ s with backend := some (.variablePrimitive b), f }, [.submitIndex val])
  | _ => .error (.assertion .geometryBackend)

/-- The geometry shader runs when a primitive is completed. -/
def Pipeline.invoke (completed : Bool) : Pipeline α :=
  if completed then { s with unit := engine.run s.f s.unit, b15 := true } else s

def Pipeline.submitVertex (input : AttributeBuffer α) : Exec (Pipeline α × List Call) :=
  match s.backend with
  | none => .ok ({ s with unit := { s.unit with handled := s.unit.handled ++ [input] } }, [])
  | some (.point b) => do
    let r ← b.submitVertex regs s.unit input
    let s := { s with backend := some (.point r.after.1), unit := r.after.2 }
    return (s.invoke engine r.completed, [.submitVertex r.stored r.completed])
  | some (.variablePrimitive b) => do
    let r ← b.submitVertex s.f input
    let s := { s with backend := some (.variablePrimitive r.after.1), f := r.after.2 }
    return (s.invoke engine r.completed, [.submitVertex r.stored r.completed])
  | some (.fixedPrimitive b) => do
    let r ← b.submitVertex s.f input
    let s := { s with backend := some (.fixedPrimitive r.after.1), f := r.after.2 }
    return (s.invoke engine r.completed, [.submitVertex r.stored r.completed])

/-- A vertex of a draw: the guest's index, and what the vertex shader puts out for it. -/
abbrev DrawVertex (α : Type) := Fin 0x100000000 × AttributeBuffer α

def drawVertex (isIndexed : Bool) (vertex : DrawVertex α) : Exec (Pipeline α × List Call) :=
  if isIndexed && s.needIndexInput then s.submitIndex regs engine vertex.1
  else s.submitVertex regs engine vertex.2

def drawLoop (isIndexed : Bool) (s : Pipeline α) :
    List (DrawVertex α) → Exec (Pipeline α × List Call)
  | [] => .ok (s, [])
  | vertex :: rest => do
    let (s, first) ← drawVertex regs engine s isIndexed vertex
    let (s, calls) ← drawLoop isIndexed s rest
    return (s, first ++ calls)

def draw (attributeBuffer : AttributeBuffer α) (isIndexed : Bool)
    (vertices : List (DrawVertex α)) : Exec (Pipeline α × List Call) := do
  let s ← reconfigure regs s attributeBuffer
  assert .drawIndexed (s.needIndexInput = true → isIndexed = true)
  drawLoop regs engine isIndexed s vertices

end
end EmuThreeDS.Pica
