import EmuThreeDS.Video.ShaderInterpreter

/-!
# Structured shader programs

Programs of blocks, their big-step meaning and their layout in the program memory. The interpreter
runs a laid out block to its end as the block means it, and leaves the call stack as it was.
-/
namespace EmuThreeDS.Pica.Shader

/-- What an `IF` or a conditional call tests. -/
inductive Test where
  | uniform (bool : Fin 16)
  | code (condition : FlowCondition)

/-- A block is its first statement and what follows it. A call carries the body of the function,
and the address it is laid out at. -/
inductive Block (ι : Type) where
  | done
  | straight (i : ι) (rest : Block ι)
  | ite (test : Test) (taken other rest : Block ι)
  | loop (int : Fin 4) (body rest : Block ι)
  | call (test : Option Test) (address : Nat) (body rest : Block ι)

variable {ι ρ : Type}

namespace Block

def length : Block ι → Nat
  | done => 0
  | straight _ rest => 1 + rest.length
  | ite _ taken other rest => 1 + taken.length + other.length + rest.length
  | loop _ body rest => 1 + body.length + rest.length
  | call _ _ _ rest => 1 + rest.length

def depth : Block ι → Nat
  | done => 0
  | straight _ rest => rest.depth
  | ite _ taken other rest => max (1 + max taken.depth other.depth) rest.depth
  | loop _ body rest => max (1 + body.depth) rest.depth
  | call _ _ body rest => max (1 + body.depth) rest.depth

def LoopFree : Block ι → Prop
  | done => True
  | straight _ rest => rest.LoopFree
  | ite _ taken other rest => taken.LoopFree ∧ other.LoopFree ∧ rest.LoopFree
  | loop _ _ _ => False
  | call _ _ body rest => body.LoopFree ∧ rest.LoopFree

def LoopsApart : Block ι → Prop
  | done => True
  | straight _ rest => rest.LoopsApart
  | ite _ taken other rest => taken.LoopsApart ∧ other.LoopsApart ∧ rest.LoopsApart
  | loop _ body rest => body.LoopFree ∧ rest.LoopsApart
  | call _ _ body rest => body.LoopsApart ∧ rest.LoopsApart

end Block

section

variable (setup : Setup ι ρ)

def Test.holds (state : UnitState ρ) : Test → Bool
  | uniform bool => setup.b bool
  | code condition => evaluateCondition state condition

def andThen {σ τ : Type} (x : Exec (σ × List Executed)) (next : σ → Exec (τ × List Executed)) :
    Exec (τ × List Executed) := do
  let first ← x
  let second ← next first.1
  return (second.1, first.2 ++ second.2)

/-- The iterations of a loop from `k` on: the counter is `y + k * z` at the start of each, and
stands where the next one would start when the last is over. -/
def iterations (body : UnitState ρ → Exec (UnitState ρ × List Executed)) (y z : Nat) :
    Nat → Nat → UnitState ρ → Exec (UnitState ρ × List Executed)
  | k, 0, state => .ok ({ state with loopCounter := y + k * z }, [])
  | k, n + 1, state =>
    andThen (body { state with loopCounter := y + k * z }) (iterations body y z (k + 1) n)

def Block.eval : Block ι → Nat → UnitState ρ → Exec (UnitState ρ × List Executed)
  | done, _, state => .ok (state, [])
  | straight i rest, start, state =>
    andThen (do
      let after ← setup.straight i state
      return ({ state with conditionalCode := after.1, rest := after.2 },
        [(start, state.loopCounter)]))
      (rest.eval (start + 1))
  | ite test taken other rest, start, state =>
    andThen (.ok (state, [(start, state.loopCounter)])) fun state =>
      andThen (if test.holds setup state then taken.eval (start + 1) state
          else other.eval (start + 1 + taken.length) state)
        (rest.eval (start + 1 + taken.length + other.length))
  | loop int body rest, start, state =>
    andThen (.ok (state, [(start, state.loopCounter)])) fun state =>
      andThen (iterations (body.eval (start + 1)) (setup.i int).y (setup.i int).z 0
          ((setup.i int).x + 1) state)
        (rest.eval (start + 1 + body.length))
  | call test address body rest, start, state =>
    andThen (.ok (state, [(start, state.loopCounter)])) fun state =>
      andThen (if test.all (·.holds setup state) then body.eval address state
          else .ok (state, []))
        (rest.eval (start + 1))

def At (start : Nat) (instr : Instruction ι) : Prop :=
  ∃ h : start < 4096, setup.programCode ⟨start, h⟩ = instr

def ifInstruction (dest : Fin 4096) (num : Fin 256) : Test → Instruction ι
  | .uniform bool => .ifu bool dest num
  | .code condition => .ifc condition dest num

def callInstruction (dest : Fin 4096) (num : Fin 256) : Option Test → Instruction ι
  | none => .call dest num
  | some (.uniform bool) => .callu bool dest num
  | some (.code condition) => .callc condition dest num

def Block.Laid : Block ι → Nat → Prop
  | done, _ => True
  | straight i rest, start => At setup start (.straight i) ∧ rest.Laid (start + 1)
  | ite test taken other rest, start =>
    (∃ dest num, At setup start (ifInstruction dest num test) ∧
      dest.val = start + 1 + taken.length ∧ num.val = other.length) ∧
    taken.Laid (start + 1) ∧ other.Laid (start + 1 + taken.length) ∧
    rest.Laid (start + 1 + taken.length + other.length)
  | loop int body rest, start =>
    (∃ dest, At setup start (.loop int dest) ∧ dest.val = start + body.length) ∧
    body.Laid (start + 1) ∧ rest.Laid (start + 1 + body.length)
  | call test address body rest, start =>
    (∃ dest num, At setup start (callInstruction dest num test) ∧
      dest.val = address ∧ num.val = body.length) ∧
    body.Laid address ∧ rest.Laid (start + 1)

end
end EmuThreeDS.Pica.Shader
