import EmuThreeDS.Lib.Runs
import EmuThreeDS.Video.ShaderOperands
import Mathlib.Algebra.Group.Int.Defs

/-!
# The memories of a shader

When the runs of a guest's shader stay in its program memory, its call stack and its register
files: nothing checks where the loop goes on, nor what an address register is added to.
-/
namespace EmuThreeDS.Pica.Shader

open Runs

section

variable {ι ρ : Type} (setup : Setup ι ρ)

/-- The address is the end of the innermost scope, so that nothing is fetched from it. -/
def EndsScope (callStack : List CallStackElement) (address : Nat) : Prop :=
  callStack.head?.map (·.finalAddress) = some address

def GoesOnAt (callStack : List CallStackElement) (address : Nat) : Prop :=
  address < 4096 ∨ EndsScope callStack address

namespace Machine

variable (m : Machine ρ)

/-- The instruction goes on inside: what falls through has an instruction behind it, or is the
last one of the scope. -/
def InstructionFits (reads : ι → UnitState ρ → Prop) : Instruction ι → Prop
  | .straight i => reads i m.state ∧ behind
  | .end | .call _ _ => True
  | .jmpc condition _ | .callc condition _ _ =>
    evaluateCondition m.state condition = false → behind
  | .jmpu bool num _ => (setup.b bool == !(num.val % 2 == 1)) = false → behind
  | .callu bool _ _ => setup.b bool = false → behind
  | .ifu bool _ _ => setup.b bool = true → m.programCounter + 1 < 4096
  | .ifc condition _ _ =>
    evaluateCondition m.state condition = true → m.programCounter + 1 < 4096
  | .loop _ dest => m.programCounter + 1 < 4096 ∨ dest.val = 4095
where
  behind : Prop := GoesOnAt m.callStack (m.programCounter + 1)

/-- What the next turn asks of the state. -/
def Guarded (reads : ι → UnitState ρ → Prop) : Prop :=
  match m.callStack with
  | [] => fetches
  | top :: below =>
    if m.programCounter = top.finalAddress then
      top.repeatCounter = 0 → GoesOnAt below top.returnAddress
    else fetches
where
  fetches : Prop := ∀ inside : m.programCounter < 4096,
    m.InstructionFits setup reads (setup.programCode ⟨m.programCounter, inside⟩)

/-- The turn fetches in the program memory, the stack has no more than its capacity, and no
register is read outside its file. -/
structure StaysInside : Prop where
  fetch : ¬ EndsScope m.callStack m.programCounter → m.programCounter < 4096
  stack : m.callStack.length ≤ 16
  reads : m.turn setup ≠ .error .undefinedBehaviour

def Goes (executed : List Executed) (after : Machine ρ) : Prop :=
  m.turn setup = .ok ⟨after, executed, false⟩

def entered (state : UnitState ρ) (offset : Nat) : Machine ρ :=
  ⟨offset, [], { state with conditionalCode := (false, false) }⟩

structure Inside : Prop where
  goesOn : GoesOnAt m.callStack m.programCounter
  stack : m.callStack.length ≤ 16
  repeats : ∀ scope ∈ m.callStack,
    scope.loopAddress < 4096 ∨ scope.finalAddress = scope.loopAddress

end Machine

namespace Machine

variable {setup} {m : Machine ρ} {reads : ι → UnitState ρ → Prop}

theorem Inside.low (inside : m.Inside) (fetches : ¬ EndsScope m.callStack m.programCounter) :
    m.programCounter < 4096 :=
  inside.goesOn.resolve_right fetches

theorem Inside.falls (inside : m.Inside) (low : m.programCounter < 4096)
    (behind : GoesOnAt m.callStack (m.programCounter + 1)) (state : UnitState ρ) :
    Inside ⟨add32 m.programCounter 1, m.callStack, state⟩ := by
  have next : add32 m.programCounter 1 = m.programCounter + 1 := add32_eq (by omega)
  rw [next]
  exact ⟨behind, inside.stack, inside.repeats⟩

theorem Inside.jumps (inside : m.Inside) (dest : Fin 4096) :
    Inside ⟨add32 (sub32 dest 1) 1, m.callStack, m.state⟩ := by
  have small := dest.isLt
  rw [next_address (by omega)]
  exact ⟨.inl small, inside.stack, inside.repeats⟩

theorem call_inside {offset num returnOffset repeatCount loopIncrement : Nat} (inside : m.Inside)
    (word : offset < 0x100000000) (entry : offset < 4096 ∨ add32 offset num = offset) :
    Meets (· = .undefinedBehaviour) (m.call offset num returnOffset repeatCount loopIncrement)
      fun m' => Inside { m' with programCounter := add32 m'.programCounter 1 } := by
  apply meets_assert nofun
  intro room
  refine meets_ok ⟨?_, room, List.forall_mem_cons.mpr ⟨entry, inside.repeats⟩⟩
  rw [next_address word]
  exact entry.imp_right fun ends => congrArg some ends

section

variable (straight : ∀ i state, reads i state → setup.straight i state ≠ .error .undefinedBehaviour)
include straight

theorem execute_inside {instr : Instruction ι} (inside : m.Inside) (low : m.programCounter < 4096)
    (fits : m.InstructionFits setup reads instr) (goesOn : instr ≠ .end) :
    Meets (· = .undefinedBehaviour) (m.execute setup instr)
      fun m' => Inside { m' with programCounter := add32 m'.programCounter 1 } := by
  have next : add32 m.programCounter 1 = m.programCounter + 1 := add32_eq (by omega)
  have branch (taken : Bool) (dest : Fin 4096) (num : Fin 256)
      (room : taken = true → m.programCounter + 1 < 4096) :
      Meets (· = .undefinedBehaviour) (execute.branch m taken dest num)
        fun m' => Inside { m' with programCounter := add32 m'.programCounter 1 } := by
    have small := dest.isLt
    refine meets_ite (fun holds => ?_) fun _ => call_inside inside (by omega) (.inl small)
    have first := room holds
    rw [next]
    exact call_inside inside (by omega) (.inl first)
  have enters (dest : Fin 4096) (num : Fin 256) :
      Meets (· = .undefinedBehaviour) (m.call dest num (add32 m.programCounter 1) 0 0)
        fun m' => Inside { m' with programCounter := add32 m'.programCounter 1 } :=
    call_inside inside (Nat.lt_of_lt_of_le dest.isLt (by decide)) (.inl dest.isLt)
  cases instr with
  | straight i =>
    obtain ⟨inFile, behind⟩ := fits
    have runs : Meets (· = .undefinedBehaviour) (setup.straight i m.state) fun _ => True := by
      have defined := straight i m.state inFile
      cases run : setup.straight i m.state with
      | error fault => exact fun same => defined (run.trans (congrArg _ same))
      | ok after => exact trivial
    apply meets_bind runs
    rintro ⟨conditionalCode, rest⟩ -
    exact meets_ok (inside.falls low behind _)
  | «end» => exact absurd rfl goesOn
  | jmpc condition dest | jmpu bool num dest =>
    exact meets_ite (fun _ => meets_ok (inside.jumps dest)) fun other =>
      meets_ok (inside.falls low (fits (Bool.eq_false_of_not_eq_true other)) _)
  | call dest num => exact enters dest num
  | callu bool dest num | callc condition dest num =>
    exact meets_ite (fun _ => enters dest num) fun other =>
      meets_ok (inside.falls low (fits (Bool.eq_false_of_not_eq_true other)) _)
  | ifu bool dest num | ifc condition dest num => exact branch _ dest num fits
  | loop int dest =>
    -- at the last address only a loop without instructions ends where it starts
    have entry : m.programCounter + 1 < 4096 ∨
        add32 (m.programCounter + 1) (sub32 dest m.programCounter) = m.programCounter + 1 := by
      rcases fits with first | last
      · exact .inl first
      · unfold add32 sub32
        omega
    have entered : Inside { m with state := { m.state with loopCounter := (setup.i int).y.val } } :=
      ⟨inside.goesOn, inside.stack, inside.repeats⟩
    rw [← next] at entry
    exact call_inside entered (add32_lt _ _) entry

theorem turn_inside (inside : m.Inside) (guarded : m.Guarded setup reads) :
    Meets (· = .undefinedBehaviour) (m.turn setup) fun t => t.exitLoop = false → t.after.Inside := by
  have fetched (fetches : ¬ EndsScope m.callStack m.programCounter)
      (fits : Guarded.fetches setup m reads) :
      Meets (· = .undefinedBehaviour) (m.fetch setup) fun t => t.exitLoop = false → t.after.Inside := by
    have low := inside.low fetches
    unfold fetch
    rw [dif_pos low]
    by_cases ends : setup.programCode ⟨m.programCounter, low⟩ = .end
    · rw [ends]
      exact meets_ok nofun
    · apply meets_bind (execute_inside straight inside low (fits low) ends)
      exact fun m' after => meets_ok fun _ => after
  unfold Guarded at guarded
  unfold turn
  cases stack : m.callStack with
  | nil =>
    rw [stack] at guarded
    exact fetched (by rw [stack]; exact nofun) guarded
  | cons top below =>
    rw [stack] at guarded
    dsimp only at guarded ⊢
    split_ifs with ends
    · rw [if_pos ends] at guarded
      obtain ⟨first, rest⟩ := List.forall_mem_cons.mp (stack ▸ inside.repeats)
      have room := inside.stack
      rw [stack] at room
      refine meets_ok fun _ => ?_
      unfold leave
      split_ifs with last
      · exact ⟨guarded last, Nat.le_of_succ_le room, rest⟩
      · exact ⟨first.imp_right fun same => congrArg some same, room,
          List.forall_mem_cons.mpr ⟨first, rest⟩⟩
    · rw [if_neg ends] at guarded
      refine fetched ?_ guarded
      rw [stack]
      exact fun same => ends (Option.some.inj same).symm

theorem reached_inside {start : Machine ρ} (first : start.Inside)
    (reached : Reachable (· = start) (Goes setup) (fun m _ => m.Guarded setup reads) m) :
    m.Inside := by
  refine reached.invariant (fun _ same => same ▸ first) fun m executed m' inside guarded goes => ?_
  exact (turn_inside straight inside guarded).ok goes rfl

end

end Machine
end

section

variable {F R : Type} {data : OperandData F R} {number : R → BitVec 32}

/-- The numbers of source registers: the inputs, the temporaries, and behind them the float
uniforms. -/
structure Numbered (registers : SourceRegisters R) (number : R → BitVec 32) : Prop where
  ofField : ∀ field, number (registers.ofField field) = BitVec.ofNat 32 field
  add : ∀ r offset, number (registers.add r offset) = number r + offset
  input : ∀ r, (number r).toNat < 0x10 →
    registers.getRegisterType r = .input ∧ registers.getIndex r = number r
  temporary : ∀ r, 0x10 ≤ (number r).toNat → (number r).toNat < 0x20 →
    registers.getRegisterType r = .temporary ∧ registers.getIndex r = number r - 0x10
  floatUniform : ∀ r, 0x20 ≤ (number r).toNat →
    registers.getRegisterType r = .floatUniform ∧ registers.getIndex r = number r - 0x20

/-- The register that is addressed with an offset is not behind the last float uniform. -/
def RelativeFits (field : Fin 0x80) (offset : BitVec 32) : Prop :=
  (BitVec.ofNat 32 field + offset).toNat < 0x80

def ReadsFit : Straight → UnitState (Registers F) → Prop
  | .arithmetic _ isInverted addressRegisterIndex src1 src2 _ _, state =>
    RelativeFits (if isInverted then src2 else src1) (addressOffset state addressRegisterIndex)
  | .mad isInverted addressRegisterIndex _ src2 src3 _ _, state =>
    RelativeFits (if isInverted then src3 else src2) (addressOffset state addressRegisterIndex)
  | .nop, _ | .emit, _ | .setEmit _ _ _, _ | .unhandled, _ => True

theorem lookup_answers (numbered : Numbered data.sourceRegisters number) (registers : Registers F)
    (r : R) : (∃ value, data.lookupSourceRegister registers r = .ok value) ↔
      (number r).toNat < 0x80 := by
  have found {n : Nat} (file : Fin n → Components F) (index : BitVec 32) :
      (∃ value, registerAt file index = .ok value) ↔ index.toNat < n := by
    unfold registerAt
    split_ifs with inside
    · exact iff_of_true ⟨_, rfl⟩ inside
    · exact iff_of_false nofun inside
  unfold OperandData.lookupSourceRegister
  rcases Nat.lt_or_ge (number r).toNat 0x10 with low | input
  · obtain ⟨type, index⟩ := numbered.input r low
    rw [type, index]
    exact (found _ _).trans (iff_of_true low (Nat.lt_trans low (by decide)))
  · rcases Nat.lt_or_ge (number r).toNat 0x20 with low | temporary
    · obtain ⟨type, index⟩ := numbered.temporary r input low
      rw [type]
      refine (found _ _).trans (iff_of_true ?_ (Nat.lt_trans low (by decide)))
      bv_omega
    · obtain ⟨type, index⟩ := numbered.floatUniform r temporary
      rw [type]
      refine (found _ _).trans ?_
      bv_omega

theorem relative_answers (numbered : Numbered data.sourceRegisters number)
    (registers : Registers F) (field : Fin 0x80) (offset : BitVec 32) :
    (∃ value, data.lookupSourceRegister registers (data.sourceRegister field offset) = .ok value) ↔
      RelativeFits field offset := by
  rw [lookup_answers numbered, OperandData.sourceRegister, numbered.add, numbered.ofField]
  rfl

theorem relativeFits_zero (field : Fin 0x80) : RelativeFits field 0 := by
  unfold RelativeFits
  bv_omega

theorem field_answers (numbered : Numbered data.sourceRegisters number) (registers : Registers F)
    (field : Fin 0x80) :
    ∃ value, data.lookupSourceRegister registers (data.sourceRegisters.ofField field) =
      .ok value := by
  rw [lookup_answers numbered, numbered.ofField]
  bv_omega

theorem execute_defined (numbered : Numbered data.sourceRegisters number) (i : Straight)
    (state : UnitState (Registers F)) (fits : ReadsFit i state) :
    data.execute state i ≠ .error .undefinedBehaviour := by
  have relative := relative_answers numbered state.rest
  cases i with
  | arithmetic op isInverted addressRegisterIndex src1 src2 dest operandDescId =>
    obtain ⟨value1, first⟩ := (relative src1
      (if isInverted then 0 else addressOffset state addressRegisterIndex)).mpr (by
        cases isInverted
        · exact fits
        · exact relativeFits_zero src1)
    obtain ⟨value2, second⟩ := (relative src2
      (if isInverted then addressOffset state addressRegisterIndex else 0)).mpr (by
        cases isInverted
        · exact relativeFits_zero src2
        · exact fits)
    unfold OperandData.execute
    dsimp only
    rw [first, second]
    exact nofun
  | mad isInverted addressRegisterIndex src1 src2 src3 dest operandDescId =>
    obtain ⟨value1, first⟩ := field_answers numbered state.rest src1
    obtain ⟨value2, second⟩ := (relative src2
      (if isInverted then 0 else addressOffset state addressRegisterIndex)).mpr (by
        cases isInverted
        · exact fits
        · exact relativeFits_zero src2)
    obtain ⟨value3, third⟩ := (relative src3
      (if isInverted then addressOffset state addressRegisterIndex else 0)).mpr (by
        cases isInverted
        · exact relativeFits_zero src3
        · exact fits)
    unfold OperandData.execute
    dsimp only
    rw [first, second, third]
    exact nofun
  | nop | unhandled => exact nofun
  | emit =>
    unfold OperandData.execute
    cases state.rest.emitter with
    | none => exact nofun
    | some emitter =>
      dsimp only
      unfold GSEmitter.emit
      split_ifs <;> exact nofun
  | setEmit vertexId primEmit winding =>
    unfold OperandData.execute
    cases state.rest.emitter <;> exact nofun

end

/-- A run of turns that fit never leaves the program memory, the call stack and the register
files. -/
theorem shader_staysInside {F R : Type} (data : OperandData F R) (number : R → BitVec 32)
    (numbered : Numbered data.sourceRegisters number)
    (programCode : Fin 4096 → Instruction Straight) (b : Fin 16 → Bool) (i : Fin 4 → LoopParam)
    (state : UnitState (Registers F)) (entryPoint : Nat) (inProgram : entryPoint < 4096)
    (m : Machine (Registers F)) (reached : Reachable (· = Machine.entered state entryPoint)
      (Machine.Goes (data.setup programCode b i))
      (fun m _ => m.Guarded (data.setup programCode b i) ReadsFit) m)
    (guarded : m.Guarded (data.setup programCode b i) ReadsFit) :
    m.StaysInside (data.setup programCode b i) := by
  have straight (i' : Straight) (state : UnitState (Registers F)) :
      ReadsFit i' state → (data.setup programCode b i).straight i' state ≠
        .error .undefinedBehaviour := execute_defined numbered i' state
  have start : (Machine.entered state entryPoint).Inside :=
    ⟨.inl inProgram, Nat.zero_le 16, nofun⟩
  have inside := Machine.reached_inside straight start reached
  refine ⟨inside.low, inside.stack, fun leaves => ?_⟩
  exact (Machine.turn_inside straight inside guarded).error leaves rfl

def wholeFloats : Floats Int where
  zero := 0
  one := 1
  isNaN _ := false
  lt a b := a < b
  le a b := a ≤ b
  eq a b := a == b
  neg a := -a
  add a b := a + b
  product a b := a * b
  floor a := a
  reciprocal a := 1 / a
  sqrt a := a.toNat.sqrt
  exp2 a := 2 ^ a.toNat
  log2 a := a.toNat.log2
  toS32 := BitVec.ofInt 32

def numberedRegisters : SourceRegisters (BitVec 32) where
  ofField field := BitVec.ofNat 32 field
  add r offset := r + offset
  getRegisterType r :=
    if r.toNat < 0x10 then .input else if r.toNat < 0x20 then .temporary else .floatUniform
  getIndex r := if r.toNat < 0x10 then r else if r.toNat < 0x20 then r - 0x10 else r - 0x20

theorem numbered_numberedRegisters : Numbered numberedRegisters id where
  ofField _ := rfl
  add _ _ := rfl
  input _ low := ⟨if_pos low, if_pos low⟩
  temporary _ input low := by
    have notInput := Nat.not_lt_of_le input
    exact ⟨(if_neg notInput).trans (if_pos low), (if_neg notInput).trans (if_pos low)⟩
  floatUniform r high := by
    have notTemporary : ¬ r.toNat < 0x20 := Nat.not_lt_of_le high
    have notInput : ¬ r.toNat < 0x10 := fun low => notTemporary (Nat.lt_trans low (by decide))
    exact ⟨(if_neg notInput).trans (if_neg notTemporary),
      (if_neg notInput).trans (if_neg notTemporary)⟩

def plainData : OperandData Int (BitVec 32) where
  floats := wholeFloats
  sourceRegisters := numberedRegisters
  f _ _ := 0
  swizzleData _ := ⟨fun _ i => i, fun _ => false, fun _ => true⟩

/-- `mova a0, v0` and `mov o0, c0[a0.x]`. -/
def relativeRead : Setup Straight (Registers Int) :=
  plainData.setup
    (fun address => match address with
      | 0 => .straight (.arithmetic .mova false 0 0 0 (.output 0) 0)
      | 1 => .straight (.arithmetic .mov false 1 0x20 0 (.output 0) 0)
      | _ => .end)
    (fun _ => false) fun _ => ⟨0, 0, 0⟩

def unitOf (input : Int) (address : BitVec 32) : UnitState (Registers Int) :=
  ⟨(false, false), 0, ⟨fun _ _ => input, fun _ _ => 0, fun _ _ => 0, (address, address), none⟩⟩

/-- The last uniform is read. -/
theorem shader_staysInside_relativeRead : Machine.StaysInside relativeRead ⟨1, [], unitOf 95 95⟩ :=
  shader_staysInside plainData id numbered_numberedRegisters _ _ _ (unitOf 95 0) 0 (by decide) _
    (.step (.start rfl) (fun _ => ⟨by unfold ReadsFit RelativeFits; decide, .inl (by decide)⟩)
      (a := [(0, 0)]) rfl)
    fun _ => ⟨by unfold ReadsFit RelativeFits; decide, .inl (by decide)⟩

/-- Nothing checks what `MOVA` loads: the uniform behind the last one is read. -/
theorem shader_leaves_uniforms :
    ¬ ∀ m, Reachable (· = Machine.entered (unitOf 96 0) 0) (Machine.Goes relativeRead)
      (fun _ _ => True) m → m.StaysInside relativeRead := by
  intro stays
  have second : Reachable (· = Machine.entered (unitOf 96 0) 0) (Machine.Goes relativeRead)
      (fun _ _ => True) ⟨1, [], unitOf 96 96⟩ := .step (.start rfl) trivial (a := [(0, 0)]) rfl
  exact (stays _ second).reads rfl

end EmuThreeDS.Pica.Shader
