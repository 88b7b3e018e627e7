import EmuThreeDS.Video.StructuredShaders
import Mathlib.Tactic.Ring

/-!
# The interpreter on structured programs

From the first instruction of a block the interpreter comes to its end with what the block means,
and with the call stack it had: a scope is entered by one turn and left or repeated by another.
-/
namespace EmuThreeDS.Pica.Shader

variable {ι ρ : Type} {setup : Setup ι ρ}

/-- From `m` the interpreter does `x` and goes on from there. -/
def Leads (setup : Setup ι ρ) (m : Machine ρ) (x : Exec (Machine ρ × List Executed)) : Prop :=
  ∃ k, ∀ n, m.run setup (k + n) = andThen x (Machine.run setup n)

def place (programCounter : Nat) (callStack : List CallStackElement)
    (x : Exec (UnitState ρ × List Executed)) : Exec (Machine ρ × List Executed) :=
  (fun r => (⟨programCounter, callStack, r.1⟩, r.2)) <$> x

section

variable {σ τ υ : Type}

theorem andThen_nil (a : σ) (next : σ → Exec (τ × List Executed)) :
    andThen (.ok (a, [])) next = next a := by
  unfold andThen
  rw [ok_bind]
  cases next a <;> rfl

theorem andThen_assoc (x : Exec (σ × List Executed)) (f : σ → Exec (τ × List Executed))
    (g : τ → Exec (υ × List Executed)) :
    andThen (andThen x f) g = andThen x fun a => andThen (f a) g := by
  unfold andThen
  cases x with
  | error e => rfl
  | ok first =>
    simp only [ok_bind]
    cases f first.1 with
    | error e => rfl
    | ok second =>
      simp only [ok_bind, pure_eq_ok]
      cases g second.1 with
      | error e => rfl
      | ok third => simp only [ok_bind, List.append_assoc]

theorem andThen_congr {x : Exec (σ × List Executed)} {f g : σ → Exec (τ × List Executed)}
    (same : ∀ a tr, x = .ok (a, tr) → f a = g a) : andThen x f = andThen x g := by
  unfold andThen
  cases x with
  | error e => rfl
  | ok first =>
    simp only [ok_bind]
    rw [same first.1 first.2 rfl]

end

theorem map_ok {α β : Type} (g : α → β) (a : α) : g <$> (.ok a : Exec α) = .ok (g a) := rfl

theorem place_andThen {pc pc' : Nat} {stack stack' : List CallStackElement}
    {x : Exec (UnitState ρ × List Executed)} {f : UnitState ρ → Exec (UnitState ρ × List Executed)} :
    place pc' stack' (andThen x f) =
      andThen (place pc stack x) fun m => place pc' stack' (f m.state) := by
  unfold place andThen
  cases x with
  | error e => rfl
  | ok answer =>
    simp only [map_ok, ok_bind]
    cases f answer.1 with
    | error e | ok after => rfl

section

variable {m m' : Machine ρ} {pc pc' : Nat} {stack stack' : List CallStackElement}
  {x : Exec (UnitState ρ × List Executed)} {executed : List Executed}

theorem Leads.trans {x : Exec (Machine ρ × List Executed)}
    {y : Machine ρ → Exec (Machine ρ × List Executed)} (first : Leads setup m x)
    (later : ∀ m' tr, x = .ok (m', tr) → Leads setup m' (y m')) : Leads setup m (andThen x y) := by
  obtain ⟨k, runs⟩ := first
  cases x with
  | error e => exact ⟨k, runs⟩
  | ok answer =>
    obtain ⟨k', runs'⟩ := later answer.1 answer.2 rfl
    refine ⟨k + k', ?_⟩
    intro n
    rw [Nat.add_assoc, runs, andThen_assoc]
    apply andThen_congr
    rintro a tr same
    cases same
    exact runs' n

theorem leads_turn (turn : m.turn setup = .ok ⟨m', executed, false⟩) :
    Leads setup m (.ok (m', executed)) := by
  refine ⟨1, ?_⟩
  intro n
  rw [Nat.add_comm, Machine.run, turn]
  rfl

theorem leads_error {e : Fault} (turn : m.turn setup = .error e) : Leads setup m (.error e) := by
  refine ⟨1, ?_⟩
  intro n
  rw [Nat.add_comm, Machine.run, turn]
  rfl

theorem Leads.after {x : Exec (Machine ρ × List Executed)} (first : Leads setup m (.ok (m', [])))
    (later : Leads setup m' x) : Leads setup m x := by
  have both := first.trans (y := fun _ => x) fun m'' tr same => by
    cases same
    exact later
  rwa [andThen_nil] at both

theorem Leads.goesOn {f : UnitState ρ → Exec (UnitState ρ × List Executed)}
    (first : Leads setup m (place pc stack x)) (later : ∀ state tr, x = .ok (state, tr) →
      Leads setup ⟨pc, stack, state⟩ (place pc' stack' (f state))) :
    Leads setup m (place pc' stack' (andThen x f)) := by
  rw [@place_andThen ρ pc pc' stack stack' x f]
  apply first.trans
  intro m' tr same
  obtain ⟨answer, run, equal⟩ := map_eq_ok.mp same
  cases equal
  exact later answer.1 answer.2 run

end

section

variable {pc : Nat} {stack : List CallStackElement} {state : UnitState ρ}

def Open (stack : List CallStackElement) (pc : Nat) : Prop := ∀ top ∈ stack.head?, pc ≠ top.finalAddress

theorem turn_open (inside : Open stack pc) :
    Machine.turn setup ⟨pc, stack, state⟩ = Machine.fetch setup ⟨pc, stack, state⟩ := by
  cases stack with
  | nil => rfl
  | cons top below => exact if_neg (inside top rfl)

variable {instr : Instruction ι} {ret offset : Nat} {num : Fin 256}

theorem turn_at {m : Machine ρ} (inside : Open stack pc) (laid : At setup pc instr)
    (goesOn : instr ≠ .end) (executes : Machine.execute setup ⟨pc, stack, state⟩ instr = .ok m) :
    Machine.turn setup ⟨pc, stack, state⟩ =
      .ok ⟨{ m with programCounter := add32 m.programCounter 1 }, [(pc, state.loopCounter)],
        false⟩ := by
  obtain ⟨small, laid⟩ := laid
  rw [turn_open inside, Machine.fetch, dif_pos small]
  dsimp only
  rw [laid, executes]
  cases instr <;> first | rfl | exact absurd rfl goesOn

theorem leads_call {m : Machine ρ} {num count increment : Nat}
    (inside : Open stack pc) (laid : At setup pc instr) (goesOn : instr ≠ .end)
    (executes : Machine.execute setup ⟨pc, stack, state⟩ instr =
      m.call offset num ret count increment) (shallow : m.callStack.length < 16)
    (word : offset < 0x100000000) : Leads setup ⟨pc, stack, state⟩ (.ok (⟨offset,
      ⟨add32 offset num, ret, count, increment, offset⟩ :: m.callStack, m.state⟩,
        [(pc, state.loopCounter)])) := by
  have called : m.call offset num ret count increment = .ok ⟨sub32 offset 1,
      ⟨add32 offset num, ret, count, increment, offset⟩ :: m.callStack, m.state⟩ := by
    rw [Machine.call, assert_pos shallow]
    rfl
  have turn := turn_at inside laid goesOn (executes.trans called)
  rw [next_address word] at turn
  exact leads_turn turn

theorem leads_leave {body : UnitState ρ → Exec (UnitState ρ × List Executed)} {start num : Nat}
    (inner : Leads setup ⟨start, ⟨start + num, ret, 0, 0, start⟩ :: stack, state⟩
      (place (start + num) (⟨start + num, ret, 0, 0, start⟩ :: stack) (body state))) :
    Leads setup ⟨start, ⟨start + num, ret, 0, 0, start⟩ :: stack, state⟩
      (place ret stack (body state)) := by
  have ends : body state = andThen (body state) fun after => .ok (after, []) := by
    unfold andThen
    cases body state with
    | error e => rfl
    | ok answer => simp only [ok_bind, List.append_nil, pure_eq_ok]
  rw [ends]
  apply inner.goesOn
  intro after tr _
  apply leads_turn
  have same : { after with loopCounter := after.loopCounter + ((0 : Nat) : Int) } = after := by
    rw [Int.ofNat_zero, Int.add_zero]
  unfold Machine.turn
  dsimp only
  rw [if_pos rfl, Machine.leave, if_pos rfl]
  rw [same]

end

theorem leads_iterations {f : UnitState ρ → Exec (UnitState ρ × List Executed)}
    {start num y z : Nat} {stack : List CallStackElement}
    (inner : ∀ top : CallStackElement, top.finalAddress = start + num → ∀ state,
      Leads setup ⟨start, top :: stack, state⟩ (place (start + num) (top :: stack) (f state)))
    (keeps : ∀ state after tr, f state = .ok (after, tr) → after.loopCounter = state.loopCounter)
    (n k : Nat) (state : UnitState ρ) :
    Leads setup ⟨start, ⟨start + num, ret, n, z, start⟩ :: stack,
        { state with loopCounter := y + k * z }⟩
      (place ret stack (iterations f y z k (n + 1) state)) := by
  induction n generalizing k state with
  | zero =>
    apply (inner ⟨start + num, ret, 0, z, start⟩ rfl _).goesOn
    intro after tr run
    have counter : after.loopCounter + (z : Int) = y + (k + 1 : Nat) * z := by
      rw [keeps _ _ _ run]
      push_cast
      ring
    apply leads_turn
    unfold Machine.turn
    dsimp only
    rw [if_pos rfl, Machine.leave, if_pos rfl]
    rw [counter]
  | succ n ih =>
    apply (inner ⟨start + num, ret, n + 1, z, start⟩ rfl _).goesOn
    intro after tr run
    have counter : after.loopCounter + (z : Int) = y + (k + 1 : Nat) * z := by
      rw [keeps _ _ _ run]
      push_cast
      ring
    have again : Leads setup ⟨start + num, ⟨start + num, ret, n + 1, z, start⟩ :: stack, after⟩
        (.ok (⟨start, ⟨start + num, ret, n, z, start⟩ :: stack,
          { after with loopCounter := y + (k + 1 : Nat) * z }⟩, [])) := by
      apply leads_turn
      unfold Machine.turn
      dsimp only
      rw [if_pos rfl, Machine.leave, if_neg (Nat.succ_ne_zero n)]
      rw [counter, Nat.add_sub_cancel]
    exact again.after (ih (k + 1) after)

section

variable {block : Block ι} {start : Nat} {state after : UnitState ρ} {executed : List Executed}

theorem andThen_eq_ok {σ τ : Type} {x : Exec (σ × List Executed)} {f : σ → Exec (τ × List Executed)}
    {b : τ} {tr : List Executed} (run : andThen x f = .ok (b, tr)) :
    ∃ a first second, x = .ok (a, first) ∧ f a = .ok (b, second) := by
  obtain ⟨first, run_first, run⟩ := bind_eq_ok.mp run
  obtain ⟨second, run_second, equal⟩ := bind_eq_ok.mp run
  cases equal
  exact ⟨_, _, _, run_first, run_second⟩

theorem eval_loopCounter (free : block.LoopFree)
    (run : block.eval setup start state = .ok (after, executed)) :
    after.loopCounter = state.loopCounter := by
  induction block generalizing start state after executed with
  | done =>
    cases run
    rfl
  | straight i rest ih =>
    obtain ⟨middle, _, _, first, second⟩ := andThen_eq_ok run
    obtain ⟨answer, _, equal⟩ := bind_eq_ok.mp first
    cases equal
    have later := ih free second
    exact later
  | ite test taken other rest ihTaken ihOther ihRest =>
    obtain ⟨free_taken, free_other, free_rest⟩ := free
    obtain ⟨_, _, _, same, run⟩ := andThen_eq_ok run
    cases same
    obtain ⟨middle, _, _, first, second⟩ := andThen_eq_ok run
    rw [ihRest free_rest second]
    split_ifs at first
    · exact ihTaken free_taken first
    · exact ihOther free_other first
  | loop int body rest ihBody ihRest => exact free.elim
  | call test address body rest ihBody ihRest =>
    obtain ⟨free_body, free_rest⟩ := free
    obtain ⟨_, _, _, same, run⟩ := andThen_eq_ok run
    cases same
    obtain ⟨middle, _, _, first, second⟩ := andThen_eq_ok run
    rw [ihRest free_rest second]
    split_ifs at first
    · exact ihBody free_body first
    · cases first
      rfl

theorem loopsApart_of_free (free : block.LoopFree) : block.LoopsApart := by
  induction block with
  | done => trivial
  | straight i rest ih => exact ih free
  | ite test taken other rest ihTaken ihOther ihRest =>
    exact ⟨ihTaken free.1, ihOther free.2.1, ihRest free.2.2⟩
  | loop int body rest ihBody ihRest => exact free.elim
  | call test address body rest ihBody ihRest => exact ⟨ihBody free.1, ihRest free.2⟩

theorem leads_scope {pc num : Nat}
    {stack : List CallStackElement} {rest : UnitState ρ → Exec (UnitState ρ × List Executed)}
    (body : UnitState ρ → Exec (UnitState ρ × List Executed))
    (inside : Open stack pc) (laid : At setup pc instr) (goesOn : instr ≠ .end)
    (executes : Machine.execute setup ⟨pc, stack, state⟩ instr =
      Machine.call ⟨pc, stack, state⟩ offset num ret 0 0) (shallow : stack.length < 16)
    (word : offset + num < 0x100000000)
    (inner : Leads setup ⟨offset, ⟨offset + num, ret, 0, 0, offset⟩ :: stack, state⟩
      (place (offset + num) (⟨offset + num, ret, 0, 0, offset⟩ :: stack) (body state)))
    (later : ∀ after, Leads setup ⟨ret, stack, after⟩ (place stop stack (rest after))) :
    Leads setup ⟨pc, stack, state⟩ (place stop stack
      (andThen (.ok (state, [(pc, state.loopCounter)])) fun state => andThen (body state) rest)) := by
  have entered := leads_call inside laid goesOn executes shallow (by omega)
  rw [add32_eq word] at entered
  have placed : Leads setup ⟨pc, stack, state⟩ (place offset
      (⟨offset + num, ret, 0, 0, offset⟩ :: stack) (.ok (state, [(pc, state.loopCounter)]))) :=
    entered
  apply placed.goesOn
  intro same tr equal
  cases equal
  apply (leads_leave inner).goesOn
  intro after tr _
  exact later after

theorem leads_refl (m : Machine ρ) : Leads setup m (.ok (m, [])) := by
  refine ⟨0, ?_⟩
  intro n
  rw [Nat.zero_add, andThen_nil]

theorem leads_straight {i : ι} {pc : Nat} {stack : List CallStackElement} (inside : Open stack pc)
    (laid : At setup pc (.straight i)) :
    Leads setup ⟨pc, stack, state⟩ (place (pc + 1) stack (do
      let after ← setup.straight i state
      return ({ state with conditionalCode := after.1, rest := after.2 },
        [(pc, state.loopCounter)]))) := by
  obtain ⟨small, at_pc⟩ := id laid
  cases straight : setup.straight i state with
  | error e =>
    apply leads_error
    rw [turn_open inside, Machine.fetch, dif_pos small]
    dsimp only
    rw [at_pc, Machine.execute, straight]
    rfl
  | ok answer =>
    have executes : Machine.execute setup ⟨pc, stack, state⟩ (.straight i) = .ok ⟨pc, stack,
        { state with conditionalCode := answer.1, rest := answer.2 }⟩ := by
      rw [Machine.execute, straight]
      rfl
    have turn := turn_at inside laid nofun executes
    dsimp only at turn
    rw [add32_eq (by omega)] at turn
    exact leads_turn turn

theorem execute_if {m : Machine ρ} (test : Test) : m.execute setup (ifInstruction dest num test) =
      Machine.execute.branch m (test.holds setup m.state) dest num := by
  cases test <;> rfl

theorem execute_call {m : Machine ρ} (test : Option Test) :
    m.execute setup (callInstruction dest num test) =
      if test.all (·.holds setup m.state) then m.call dest num (add32 m.programCounter 1) 0 0
      else .ok m := by
  cases test with
  | none => rfl
  | some test => cases test <;> rfl

theorem ifInstruction_goesOn (test : Test) :
    (ifInstruction dest num test : Instruction ι) ≠ .end := by
  cases test <;> exact nofun

theorem callInstruction_goesOn (test : Option Test) :
    (callInstruction dest num test : Instruction ι) ≠ .end := by
  cases test with
  | none => exact nofun
  | some test => cases test <;> exact nofun

theorem open_of_clear {stack : List CallStackElement} {pc : Nat}
    (clear : ∀ top ∈ stack.head?, stop ≤ top.finalAddress) (below : pc < stop) : Open stack pc := by
  intro top member same
  have far := clear top member
  omega

theorem execute_branch {pc : Nat} {stack : List CallStackElement} (taken : Bool) {inner other : Nat}
    (at_dest : dest.val = pc + 1 + inner) (at_num : num.val = other) :
    Machine.execute.branch ⟨pc, stack, state⟩ taken dest num =
      if taken then Machine.call ⟨pc, stack, state⟩ (pc + 1) inner (pc + 1 + inner + other) 0 0
      else Machine.call ⟨pc, stack, state⟩ (pc + 1 + inner) other (pc + 1 + inner + other) 0 0 := by
  have distance : sub32 dest pc = inner + 1 := by
    rw [sub32_eq (by omega) (by omega)]
    omega
  have back : sub32 (sub32 dest pc) 1 = inner := by
    rw [distance, sub32_eq (by omega) (by omega), Nat.add_sub_cancel]
  unfold Machine.execute.branch
  dsimp only
  rw [back, add32_eq (by omega), add32_eq (by omega), at_dest, at_num]

theorem clear_mono {stack : List CallStackElement} {before : Nat}
    (clear : ∀ top ∈ stack.head?, stop ≤ top.finalAddress) (le : before ≤ stop) :
    ∀ top ∈ stack.head?, before ≤ top.finalAddress :=
  fun top member => Nat.le_trans le (clear top member)

section

variable {pc inner other : Nat} {stack : List CallStackElement}
  {body rest whenTrue whenFalse : UnitState ρ → Exec (UnitState ρ × List Executed)}

variable (stop rest) in
/-- An instruction that changes nothing. -/
theorem leads_past (inside : Open stack pc) (laid : At setup pc instr) (goesOn : instr ≠ .end)
    (executes : Machine.execute setup ⟨pc, stack, state⟩ instr = .ok ⟨pc, stack, state⟩)
    (later : ∀ after, Leads setup ⟨pc + 1, stack, after⟩ (place stop stack (rest after))) :
    Leads setup ⟨pc, stack, state⟩ (place stop stack
      (andThen (.ok (state, [(pc, state.loopCounter)])) rest)) := by
  obtain ⟨low, -⟩ := id laid
  have turn := turn_at inside laid goesOn executes
  dsimp only at turn
  rw [add32_eq (by omega)] at turn
  have placed : Leads setup ⟨pc, stack, state⟩ (place (pc + 1) stack
    (.ok (state, [(pc, state.loopCounter)]))) := leads_turn turn
  apply placed.goesOn
  intro same tr equal
  cases equal
  exact later state

theorem leads_if {test : Test} (inside : Open stack pc)
    (laid : At setup pc (ifInstruction dest num test)) (at_dest : dest.val = pc + 1 + inner)
    (at_num : num.val = other) (shallow : stack.length < 16)
    (taken : test.holds setup state = true →
      Leads setup ⟨pc + 1, ⟨pc + 1 + inner, pc + 1 + inner + other, 0, 0, pc + 1⟩ :: stack, state⟩
        (place (pc + 1 + inner) (⟨pc + 1 + inner, pc + 1 + inner + other, 0, 0, pc + 1⟩ :: stack)
          (whenTrue state))) (skipped : ¬ test.holds setup state = true →
      Leads setup ⟨pc + 1 + inner, ⟨pc + 1 + inner + other, pc + 1 + inner + other, 0, 0,
          pc + 1 + inner⟩ :: stack, state⟩
        (place (pc + 1 + inner + other) (⟨pc + 1 + inner + other, pc + 1 + inner + other, 0, 0,
          pc + 1 + inner⟩ :: stack) (whenFalse state)))
    (later : ∀ after, Leads setup ⟨pc + 1 + inner + other, stack, after⟩
      (place stop stack (rest after))) : Leads setup ⟨pc, stack, state⟩ (place stop stack
      (andThen (.ok (state, [(pc, state.loopCounter)])) fun state =>
        andThen (if test.holds setup state then whenTrue state else whenFalse state) rest)) := by
  by_cases holds : test.holds setup state = true
  · refine leads_scope (fun state => if test.holds setup state then whenTrue state else
        whenFalse state) inside laid (ifInstruction_goesOn test)
      (by rw [execute_if, execute_branch _ at_dest at_num, if_pos holds]) shallow (by omega) ?_
      later
    rw [if_pos holds]
    exact taken holds
  · refine leads_scope (fun state => if test.holds setup state then whenTrue state else
        whenFalse state) inside laid (ifInstruction_goesOn test)
      (by rw [execute_if, execute_branch _ at_dest at_num, if_neg holds]) shallow (by omega) ?_
      later
    rw [if_neg holds]
    exact skipped holds

theorem leads_callIf {test : Option Test} (inside : Open stack pc)
    (laid : At setup pc (callInstruction dest num test)) (shallow : stack.length < 16)
    (taken : Leads setup ⟨dest, ⟨dest + num, pc + 1, 0, 0, dest⟩ :: stack, state⟩
      (place (dest + num) (⟨dest + num, pc + 1, 0, 0, dest⟩ :: stack) (body state)))
    (later : ∀ after, Leads setup ⟨pc + 1, stack, after⟩ (place stop stack (rest after))) :
    Leads setup ⟨pc, stack, state⟩ (place stop stack
      (andThen (.ok (state, [(pc, state.loopCounter)])) fun state =>
        andThen (if test.all (·.holds setup state) then body state else .ok (state, []))
          rest)) := by
  obtain ⟨low, -⟩ := id laid
  by_cases holds : test.all (·.holds setup state) = true
  · -- the goal has the scope in a form that is slow to compare with an unknown one
    refine (leads_scope (fun state => if test.all (·.holds setup state) then body state else
        .ok (state, [])) inside laid (callInstruction_goesOn test)
      (by rw [execute_call, if_pos holds, add32_eq (by dsimp only; omega)]) shallow (by omega) ?_
      later :)
    rw [if_pos holds]
    exact taken
  · have past := leads_past rest stop inside laid (callInstruction_goesOn test)
      (by rw [execute_call, if_neg holds]) later
    have same : (andThen (.ok (state, [(pc, state.loopCounter)])) fun state =>
        andThen (if test.all (·.holds setup state) then body state else .ok (state, [])) rest) =
        andThen (.ok (state, [(pc, state.loopCounter)])) rest := by
      unfold andThen
      simp only [ok_bind]
      rw [if_neg holds]
      simp only [ok_bind, bind_assoc, List.nil_append, pure_eq_ok]
    rw [same]
    exact past

theorem leads_loop {int : Fin 4} (inside : Open stack pc) (laid : At setup pc (.loop int dest))
    (at_dest : dest.val = pc + inner) (shallow : stack.length < 16)
    (turns : ∀ top : CallStackElement, top.finalAddress = pc + 1 + inner → ∀ state,
      Leads setup ⟨pc + 1, top :: stack, state⟩
        (place (pc + 1 + inner) (top :: stack) (body state)))
    (keeps : ∀ state after tr, body state = .ok (after, tr) →
      after.loopCounter = state.loopCounter)
    (later : ∀ after, Leads setup ⟨pc + 1 + inner, stack, after⟩ (place stop stack (rest after))) :
    Leads setup ⟨pc, stack, state⟩ (place stop stack
      (andThen (.ok ({ state with loopCounter := ((setup.i int).y.val : Int) },
        [(pc, state.loopCounter)])) fun state =>
          andThen (iterations body (setup.i int).y (setup.i int).z 0 ((setup.i int).x + 1) state)
            rest)) := by
  have ret : add32 dest 1 = pc + 1 + inner := by
    rw [add32_eq (by omega)]
    omega
  have num : sub32 dest pc = inner := by
    rw [sub32_eq (by omega) (by omega)]
    omega
  have entered := leads_call (m := ⟨pc, stack, { state with
    loopCounter := ((setup.i int).y.val : Int) }⟩) inside laid nofun rfl shallow (add32_lt _ _)
  rw [add32_eq (by omega : pc + 1 < 0x100000000), num, ret, add32_eq (by omega)] at entered
  have placed : Leads setup ⟨pc, stack, state⟩ (place (pc + 1) (⟨pc + 1 + inner, pc + 1 + inner,
      (setup.i int).x, (setup.i int).z, pc + 1⟩ :: stack) (.ok
        ({ state with loopCounter := ((setup.i int).y.val : Int) },
          [(pc, state.loopCounter)]))) := entered
  have counted : ((setup.i int).y.val : Int) =
      (setup.i int).y.val + (0 : Nat) * ((setup.i int).z.val : Int) := by
    rw [Int.ofNat_zero, Int.zero_mul, Int.add_zero]
  have repeated : Leads setup ⟨pc + 1, ⟨pc + 1 + inner, pc + 1 + inner, (setup.i int).x,
      (setup.i int).z, pc + 1⟩ :: stack, { state with loopCounter := ((setup.i int).y.val : Int) }⟩
      (place (pc + 1 + inner) stack (iterations body (setup.i int).y (setup.i int).z 0
        ((setup.i int).x + 1) { state with loopCounter := ((setup.i int).y.val : Int) })) := by
    rw [counted]
    exact leads_iterations turns keeps _ 0 state
  apply placed.goesOn
  intro same tr equal
  cases equal
  apply repeated.goesOn
  intro after tr _
  exact later after

end

theorem leads_block {stack : List CallStackElement} (laid : block.Laid setup start)
    (deep : stack.length + block.depth ≤ 16) (apart : block.LoopsApart)
    (clear : ∀ top ∈ stack.head?, start + block.length ≤ top.finalAddress) :
    Leads setup ⟨start, stack, state⟩
      (place (start + block.length) stack (block.eval setup start state)) := by
  induction block generalizing start state stack with
  | done => exact leads_refl _
  | straight i rest ih =>
    rw [Block.length] at clear
    rw [Block.length, ← Nat.add_assoc]
    apply (leads_straight (open_of_clear clear (by omega)) laid.1).goesOn
    intro after tr _
    exact ih laid.2 deep apart (clear_mono clear (by omega))
  | ite test taken other rest ihTaken ihOther ihRest =>
    obtain ⟨⟨dest, num, at_start, at_dest, at_num⟩, laid_taken, laid_other, laid_rest⟩ := laid
    obtain ⟨apart_taken, apart_other, apart_rest⟩ := apart
    rw [Block.depth] at deep
    rw [Block.length] at clear
    have stop : start + (1 + taken.length + other.length + rest.length) =
        start + 1 + taken.length + other.length + rest.length := by omega
    rw [Block.length, stop]
    refine (leads_if (open_of_clear clear (by omega)) at_start at_dest at_num (by omega) ?_ ?_ ?_ :)
    · intro _
      exact ihTaken laid_taken (by rw [List.length_cons]; omega) apart_taken fun top member => by
        cases member
        exact Nat.le_refl _
    · intro _
      exact ihOther laid_other (by rw [List.length_cons]; omega) apart_other fun top member => by
        cases member
        exact Nat.le_refl _
    · intro after
      exact ihRest laid_rest (by omega) apart_rest (clear_mono clear (by omega))
  | loop int body rest ihBody ihRest =>
    obtain ⟨⟨dest, at_start, at_dest⟩, laid_body, laid_rest⟩ := laid
    obtain ⟨free, apart_rest⟩ := apart
    rw [Block.depth] at deep
    rw [Block.length] at clear
    have stop : start + (1 + body.length + rest.length) =
        start + 1 + body.length + rest.length := by omega
    rw [Block.length, stop]
    refine (leads_loop (open_of_clear clear (by omega)) at_start at_dest (by omega) ?_
      (fun _ _ _ run => eval_loopCounter free run) ?_ :)
    · intro top at_top state
      apply ihBody laid_body (by rw [List.length_cons]; omega) (loopsApart_of_free free)
      intro other member
      cases member
      exact Nat.le_of_eq at_top.symm
    · intro after
      exact ihRest laid_rest (by omega) apart_rest (clear_mono clear (by omega))
  | call test address body rest ihBody ihRest =>
    obtain ⟨⟨dest, num, at_start, rfl, at_num⟩, laid_body, laid_rest⟩ := laid
    obtain ⟨apart_body, apart_rest⟩ := apart
    rw [Block.depth] at deep
    rw [Block.length] at clear
    rw [Block.length, ← Nat.add_assoc]
    refine (leads_callIf (open_of_clear clear (by omega)) at_start (by omega) ?_ ?_ :)
    · rw [at_num]
      exact ihBody laid_body (by rw [List.length_cons]; omega) apart_body fun top member => by
        cases member
        exact Nat.le_refl _
    · intro after
      exact ihRest laid_rest (by omega) apart_rest (clear_mono clear (by omega))

end
/-- With turns enough, a structured program that ends with `END` does what its block means, and
leaves an empty call stack. -/
theorem runInterpreter_structured (program : Block ι) {offset : Nat}
    (laid : program.Laid setup offset) (ends : At setup (offset + program.length) .end)
    (deep : program.depth ≤ 16) (apart : program.LoopsApart) (state : UnitState ρ) :
    ∃ k, ∀ fuel ≥ k, runInterpreter setup fuel state offset =
      (fun r => (⟨offset + program.length + 1, [], r.1⟩,
        r.2 ++ [(offset + program.length, r.1.loopCounter)])) <$>
          program.eval setup offset { state with conditionalCode := (false, false) } := by
  obtain ⟨k, runs⟩ := @leads_block ι ρ setup program offset
    { state with conditionalCode := (false, false) } [] laid
    (by rw [List.length_nil, Nat.zero_add]; exact deep) apart nofun
  refine ⟨k + 1, ?_⟩
  intro fuel enough
  obtain ⟨n, rfl⟩ := Nat.exists_eq_add_of_le enough
  rw [runInterpreter, Nat.add_assoc, Nat.add_comm 1 n, runs]
  unfold andThen place
  cases program.eval setup offset { state with conditionalCode := (false, false) } with
  | error e => rfl
  | ok answer =>
    obtain ⟨small, at_end⟩ := ends
    have turn : Machine.turn setup ⟨offset + program.length, [], answer.1⟩ =
        .ok ⟨⟨offset + program.length + 1, [], answer.1⟩,
          [(offset + program.length, answer.1.loopCounter)], true⟩ := by
      have inside : Open [] (offset + program.length) := fun top member => by cases member
      rw [turn_open inside, Machine.fetch, dif_pos small]
      dsimp only
      rw [at_end, Machine.execute, ok_bind]
      dsimp only
      rw [add32_eq (by omega)]
      rfl
    simp only [map_ok, ok_bind]
    rw [Machine.run, turn]
    rfl

/-- A loop over an `IF` whose second branch calls a function behind the end of the program. -/
def sampleSetup : Setup Nat (List Nat) where
  programCode address :=
    match address.val with
    | 0 => .loop 0 3
    | 1 => .ifu 0 3 1
    | 2 => .straight 7
    | 3 => .call 5 1
    | 5 => .straight 9
    | _ => .end
  b _ := false
  i _ := ⟨1, 10, 4⟩
  straight i state := .ok (state.conditionalCode, state.rest ++ [i])

def sampleProgram : Block Nat :=
  .loop 0 (.ite (.uniform 0) (.straight 7 .done) (.call none 5 (.straight 9 .done) .done) .done)
    .done

theorem sample_laid : sampleProgram.Laid sampleSetup 0 :=
  ⟨⟨3, ⟨by decide, rfl⟩, rfl⟩,
    ⟨⟨3, 1, ⟨by decide, rfl⟩, rfl, rfl⟩, ⟨⟨by decide, rfl⟩, trivial⟩,
      ⟨⟨5, 1, ⟨by decide, rfl⟩, rfl, rfl⟩, ⟨⟨by decide, rfl⟩, trivial⟩, trivial⟩, trivial⟩, trivial⟩

theorem runInterpreter_structured_sample :
    ∃ k, ∀ fuel ≥ k, runInterpreter sampleSetup fuel ⟨(true, true), 0, []⟩ 0 =
      .ok (⟨5, [], ⟨(false, false), 18, [9, 9]⟩⟩,
        [(0, 0), (1, 10), (3, 10), (5, 10), (1, 14), (3, 14), (5, 14), (4, 18)]) :=
  runInterpreter_structured sampleProgram sample_laid ⟨by decide, rfl⟩ (by decide)
    ⟨⟨trivial, ⟨trivial, trivial⟩, trivial⟩, trivial⟩ ⟨(true, true), 0, []⟩

end EmuThreeDS.Pica.Shader
