import EmuThreeDS.Video.GeometryPipeline

/-!
# Where the geometry pipeline stays inside its buffers

The attribute buffer of the point mode is never left. The modes that write to the float uniforms
take the number of their vertices from the guest: they stay below the ninety-sixth one exactly if
the vertices that come fit behind the first one.
-/
namespace EmuThreeDS.Pica

/-- The attributes of `count` vertices: all of a main one's, the first of any other. -/
def attributeNum (vsOutputNum main count : Nat) : Nat :=
  min main count * vsOutputNum + (count - main)

def received (regs : Regs) (count : Nat) : Nat :=
  attributeNum (regs.vsOutmapTotalMinus1A.val + 1) (add32 regs.variableVertexMainNumMinus1 1) count

/-- The attributes of a primitive, for a variable one with the number of its vertices. -/
def declared (regs : Regs) (val : Nat) : Nat :=
  match regs.mode with
  | .point => regs.maxInputAttributeIndex.val + 1
  | .variablePrimitive => received regs val
  | .fixedPrimitive =>
    (regs.vsOutmapTotalMinus1A.val + 1) * (regs.fixedVertexNumMinus1.val + 1)
  | .other => 0

/-- After every call a primitive has been reported exactly if all it declares is stored. -/
def Completes (regs : Regs) : Nat → Nat → List Call → Prop
  | _, _, [] => True
  | _, _, .submitIndex val :: rest =>
    declared regs val ≠ 0 ∧ Completes regs 0 (declared regs val) rest
  | stored, goal, .submitVertex count completed :: rest =>
    (completed = true ↔ stored + count = goal) ∧
      Completes regs (if completed then 0 else stored + count) goal rest

variable {α : Type} {regs : Regs} {engine : Engine α} {isIndexed : Bool} {s : Pipeline α}

/-- The rest of a draw stays inside its buffers and completes its primitives. -/
def Inside (regs : Regs) (engine : Engine α) (isIndexed : Bool) (s : Pipeline α)
    (stored goal : Nat) (vertices : List (DrawVertex α)) : Prop :=
  ∃ s' calls, drawLoop regs engine isIndexed s vertices = .ok (s', calls) ∧
    Completes regs stored goal calls

section

variable {vertex : DrawVertex α} {rest : List (DrawVertex α)} {stored goal : Nat} {s₁ : Pipeline α}

theorem inside_nil : Inside regs engine isIndexed s stored goal [] := ⟨s, [], rfl, trivial⟩

theorem inside_of_call {call : Call}
    (turn : drawVertex regs engine s isIndexed vertex = .ok (s₁, [call])) :
    Inside regs engine isIndexed s stored goal (vertex :: rest) ↔
      ∃ s' calls, drawLoop regs engine isIndexed s₁ rest = .ok (s', calls) ∧
        Completes regs stored goal (call :: calls) := by
  unfold Inside
  rw [drawLoop, turn, ok_bind]
  dsimp only
  cases drawLoop regs engine isIndexed s₁ rest with
  | error e =>
    constructor
    · rintro ⟨_, _, run, _⟩
      cases run
    · rintro ⟨_, _, run, _⟩
      cases run
  | ok answer =>
    constructor
    · rintro ⟨s', calls, run, completes⟩
      cases run
      exact ⟨_, _, rfl, completes⟩
    · rintro ⟨s', calls, run, completes⟩
      cases run
      exact ⟨_, _, rfl, completes⟩

theorem inside_submitIndex {val : Nat}
    (turn : drawVertex regs engine s isIndexed vertex = .ok (s₁, [.submitIndex val])) :
    Inside regs engine isIndexed s stored goal (vertex :: rest) ↔
      declared regs val ≠ 0 ∧ Inside regs engine isIndexed s₁ 0 (declared regs val) rest := by
  rw [inside_of_call turn]
  constructor
  · rintro ⟨s', calls, run, some, completes⟩
    exact ⟨some, s', calls, run, completes⟩
  · rintro ⟨some, s', calls, run, completes⟩
    exact ⟨s', calls, run, some, completes⟩

theorem inside_submitVertex {count : Nat} {completed : Bool}
    (turn : drawVertex regs engine s isIndexed vertex = .ok (s₁, [.submitVertex count completed])) :
    Inside regs engine isIndexed s stored goal (vertex :: rest) ↔
      (completed = true ↔ stored + count = goal) ∧
        Inside regs engine isIndexed s₁ (if completed then 0 else stored + count) goal rest := by
  rw [inside_of_call turn]
  constructor
  · rintro ⟨s', calls, run, exactly, completes⟩
    exact ⟨exactly, s', calls, run, completes⟩
  · rintro ⟨exactly, s', calls, run, completes⟩
    exact ⟨s', calls, run, exactly, completes⟩

theorem not_inside {e : Fault} (turn : drawVertex regs engine s isIndexed vertex = .error e) :
    ¬ Inside regs engine isIndexed s stored goal (vertex :: rest) := by
  rintro ⟨s', calls, run, _⟩
  rw [drawLoop, turn] at run
  cases run

end

section

variable {n cursor : Nat} {buffer : Fin n → α} {values : List α}

theorem copyTo_inside (fits : cursor + values.length ≤ n) :
    ∃ buffer', copyTo buffer cursor values = .ok (buffer', cursor + values.length) := by
  induction values generalizing buffer cursor with
  | nil => exact ⟨buffer, rfl⟩
  | cons a rest ih =>
    rw [List.length_cons] at fits
    rw [copyTo, dif_pos (by omega), List.length_cons, Nat.add_comm rest.length, ← Nat.add_assoc]
    exact ih (by omega)

theorem copyTo_outside (some : values ≠ []) (leaves : n < cursor + values.length) :
    copyTo buffer cursor values = .error .undefinedBehaviour := by
  induction values generalizing buffer cursor with
  | nil => exact absurd rfl some
  | cons a rest ih =>
    rw [List.length_cons] at leaves
    rw [copyTo]
    split_ifs with below
    · apply ih
      · rintro rfl
        rw [List.length_nil] at leaves
        omega
      · omega
    · rfl

theorem length_attributes {input : AttributeBuffer α} {count : Nat} (few : count ≤ 16) :
    (attributes input count).length = count := by
  unfold attributes
  rw [List.length_take, List.length_ofFn]
  omega

end

@[simp] theorem invoke_backend (completed : Bool) : (s.invoke engine completed).backend =
    s.backend := by
  unfold Pipeline.invoke
  split <;> rfl

section

variable {vertex : DrawVertex α} {cur : Nat}

theorem drawVertex_point {b : Point α} {buffer : AttributeBuffer α}
    (at_backend : s.backend = some (.point b))
    (copied : copyTo b.attributeBuffer b.bufferCur (attributes vertex.2 b.vsOutputNum) =
      .ok (buffer, cur)) :
    ∃ s₁, drawVertex regs engine s isIndexed vertex =
        .ok (s₁, [.submitVertex (cur - b.bufferCur) (decide (cur = b.bufferEnd))]) ∧
      s₁.backend = some (.point { b with
        attributeBuffer := buffer
        bufferCur := if cur = b.bufferEnd then 0 else cur }) := by
  have noIndex : (isIndexed && s.needIndexInput) = false := by
    simp [Pipeline.needIndexInput, at_backend]
  simp only [drawVertex, noIndex, Bool.false_eq_true, if_false, Pipeline.submitVertex, at_backend,
    Point.submitVertex, copied, ok_bind]
  split_ifs with full
  · exact ⟨_, by rw [decide_eq_true full]; rfl, invoke_backend _⟩
  · exact ⟨_, by rw [decide_eq_false full]; rfl, invoke_backend _⟩

variable {f : FloatUniforms α} {b : VariablePrimitive}

theorem drawVertex_fixed {b : FixedPrimitive} (at_backend : s.backend = some (.fixedPrimitive b))
    (copied : copyTo s.f b.bufferCur (attributes vertex.2 b.vsOutputNum) = .ok (f, cur)) :
    ∃ s₁, drawVertex regs engine s isIndexed vertex =
        .ok (s₁, [.submitVertex (cur - b.bufferCur) (decide (cur = b.bufferEnd))]) ∧
      s₁.backend = some (.fixedPrimitive { b with
        bufferCur := if cur = b.bufferEnd then b.bufferBegin else cur }) := by
  have noIndex : (isIndexed && s.needIndexInput) = false := by
    simp [Pipeline.needIndexInput, at_backend]
  simp only [drawVertex, noIndex, Bool.false_eq_true, if_false, Pipeline.submitVertex, at_backend,
    FixedPrimitive.submitVertex, copied, ok_bind]
  split_ifs with full
  · exact ⟨_, by rw [decide_eq_true full]; rfl, invoke_backend _⟩
  · exact ⟨_, by rw [decide_eq_false full]; rfl, invoke_backend _⟩

theorem drawVertex_index (at_backend : s.backend = some (.variablePrimitive b))
    (needed : b.needIndex = true) :
    ∃ s₁, drawVertex regs engine s true vertex = .ok (s₁, [.submitIndex vertex.1]) ∧
      s₁.backend = some (.variablePrimitive { b with
        bufferCur := 1
        mainVertexNum := add32 regs.variableVertexMainNumMinus1 1
        totalVertexNum := vertex.1
        needIndex := false }) := by
  have index : (true && s.needIndexInput) = true := by
    simp [Pipeline.needIndexInput, at_backend, needed]
  obtain ⟨f, copied⟩ := @copyTo_inside α 96 0 s.f [engine.ofCount vertex.1] (by
    rw [List.length_singleton]
    decide)
  simp only [drawVertex, index, if_true, Pipeline.submitIndex, at_backend,
    VariablePrimitive.submitIndex, needed, assert_pos, ok_bind, copied]
  exact ⟨_, rfl, rfl⟩

theorem drawVertex_variable {total : Nat}
    (at_backend : s.backend = some (.variablePrimitive b)) (taken : b.needIndex = false)
    (less : sub32 b.totalVertexNum 1 = total)
    (copied : copyTo s.f b.bufferCur
      (attributes vertex.2 (if b.mainVertexNum ≠ 0 then b.vsOutputNum else 1)) = .ok (f, cur)) :
    ∃ s₁, drawVertex regs engine s isIndexed vertex =
        .ok (s₁, [.submitVertex (cur - b.bufferCur) (decide (total = 0))]) ∧
      s₁.backend = some (.variablePrimitive { b with
        needIndex := decide (total = 0)
        mainVertexNum := b.mainVertexNum - 1
        totalVertexNum := total
        bufferCur := cur }) := by
  have noIndex : (isIndexed && s.needIndexInput) = false := by
    simp [Pipeline.needIndexInput, at_backend, taken]
  have fewer : (if b.mainVertexNum ≠ 0 then b.mainVertexNum - 1 else 0) = b.mainVertexNum - 1 := by
    split_ifs <;> omega
  simp only [drawVertex, noIndex, Bool.false_eq_true, if_false, Pipeline.submitVertex, at_backend,
    VariablePrimitive.submitVertex, taken, assert_pos, copied, fewer, less, ok_bind]
  cases total with
  | zero | succ total => exact ⟨_, rfl, rfl⟩

end

theorem inside_point {b : Point α} {vertices : List (DrawVertex α)}
    (at_backend : s.backend = some (.point b)) (positive : 0 < b.vsOutputNum)
    (whole : b.vsOutputNum ∣ b.bufferEnd) (at_vertex : b.vsOutputNum ∣ b.bufferCur)
    (below : b.bufferCur < b.bufferEnd) (small : b.bufferEnd ≤ 16) :
    Inside regs engine isIndexed s b.bufferCur b.bufferEnd vertices := by
  induction vertices generalizing s b with
  | nil => exact inside_nil
  | cons vertex rest ih =>
    -- a vertex more still ends at a multiple of its size, so not past the end
    have next : b.bufferCur + b.vsOutputNum ≤ b.bufferEnd := by
      obtain ⟨i, at_i⟩ := at_vertex
      obtain ⟨j, at_j⟩ := whole
      have order : i < j := by
        rw [at_i, at_j] at below
        exact Nat.lt_of_mul_lt_mul_left below
      rw [at_i, at_j]
      exact Nat.mul_le_mul_left _ order
    have length : (attributes vertex.2 b.vsOutputNum).length = b.vsOutputNum :=
      length_attributes (by omega)
    obtain ⟨buffer, copied⟩ := @copyTo_inside α 16 b.bufferCur b.attributeBuffer
      (attributes vertex.2 b.vsOutputNum) (by omega)
    rw [length] at copied
    obtain ⟨s₁, turn, after⟩ := drawVertex_point at_backend copied
    rw [inside_submitVertex turn, Nat.add_sub_cancel_left]
    simp only [decide_eq_true_eq, true_and]
    by_cases full : b.bufferCur + b.vsOutputNum = b.bufferEnd
    · rw [if_pos full] at after ⊢
      exact ih after positive whole (Nat.dvd_zero _) (by dsimp only; omega) small
    · rw [if_neg full] at after ⊢
      exact ih after positive whole (Nat.dvd_add_self_right.mpr at_vertex)
        (Nat.lt_of_le_of_ne next full) small

/-- With `j` of its vertices there, the fixed mode stays inside exactly if those that come fit. -/
theorem inside_fixed {b : FixedPrimitive} {j num : Nat} {vertices : List (DrawVertex α)}
    (at_backend : s.backend = some (.fixedPrimitive b)) (positive : 0 < b.vsOutputNum)
    (few : b.vsOutputNum ≤ 16) (at_end : b.bufferEnd = b.bufferBegin + b.vsOutputNum * num)
    (at_vertex : b.bufferCur = b.bufferBegin + b.vsOutputNum * j) (below : j < num)
    (so_far : b.bufferCur ≤ 96) :
    Inside regs engine isIndexed s (b.vsOutputNum * j) (b.vsOutputNum * num) vertices ↔
      b.bufferBegin + b.vsOutputNum * min (j + vertices.length) num ≤ 96 := by
  induction vertices generalizing s b j with
  | nil =>
    refine iff_of_true inside_nil ?_
    rw [List.length_nil, Nat.add_zero, Nat.min_eq_left (Nat.le_of_lt below)]
    omega
  | cons vertex rest ih =>
    have length : (attributes vertex.2 b.vsOutputNum).length = b.vsOutputNum :=
      length_attributes few
    have next : b.bufferCur + b.vsOutputNum = b.bufferBegin + b.vsOutputNum * (j + 1) := by
      rw [at_vertex, Nat.mul_succ, Nat.add_assoc]
    have taken : b.vsOutputNum * (j + 1) ≤
        b.vsOutputNum * min (j + (vertex :: rest).length) num := by
      apply Nat.mul_le_mul_left
      rw [List.length_cons]
      omega
    by_cases fits : b.bufferCur + b.vsOutputNum ≤ 96
    · obtain ⟨f, copied⟩ := @copyTo_inside α 96 b.bufferCur s.f
        (attributes vertex.2 b.vsOutputNum) (by omega)
      rw [length] at copied
      obtain ⟨s₁, turn, after⟩ := drawVertex_fixed at_backend copied
      rw [inside_submitVertex turn, Nat.add_sub_cancel_left, ← Nat.mul_succ]
      have full_iff : b.bufferCur + b.vsOutputNum = b.bufferEnd ↔
          b.vsOutputNum * (j + 1) = b.vsOutputNum * num := by
        omega
      simp only [decide_eq_true_eq]
      rw [and_iff_right full_iff]
      by_cases full : j + 1 = num
      · -- the primitive is complete, and the next one starts over
        have at_limit : b.bufferCur + b.vsOutputNum = b.bufferEnd := by
          rw [next, at_end, full]
        rw [if_pos at_limit] at after ⊢
        have again := @ih _ { b with bufferCur := b.bufferBegin } 0 after positive few at_end
          rfl (by omega) (by dsimp only; omega)
        rw [Nat.mul_zero] at again
        rw [again, Nat.zero_add]
        have most : min (j + (vertex :: rest).length) num = num := by
          rw [List.length_cons]
          omega
        have part : b.vsOutputNum * min rest.length num ≤ b.vsOutputNum * num :=
          Nat.mul_le_mul_left _ (Nat.min_le_right _ _)
        rw [most]
        exact iff_of_true (by dsimp only; omega) (by omega)
      · have not_limit : ¬ b.bufferCur + b.vsOutputNum = b.bufferEnd := by
          rw [full_iff, Nat.mul_right_inj (by omega)]
          exact full
        rw [if_neg not_limit] at after ⊢
        have later := @ih _ { b with bufferCur := b.bufferCur + b.vsOutputNum } (j + 1) after
          positive few at_end next (by omega) fits
        rw [later, List.length_cons, Nat.add_right_comm, Nat.add_assoc]
    · have error := @copyTo_outside α 96 b.bufferCur s.f (attributes vertex.2 b.vsOutputNum)
        (List.ne_nil_of_length_pos (by omega)) (by omega)
      refine iff_of_false (not_inside (e := .undefinedBehaviour) ?_) (by omega)
      have noIndex : (isIndexed && s.needIndexInput) = false := by
        simp [Pipeline.needIndexInput, at_backend]
      simp only [drawVertex, noIndex, Bool.false_eq_true, if_false, Pipeline.submitVertex,
        at_backend, FixedPrimitive.submitVertex, error, error_bind]

section

variable {vsOutputNum main count : Nat}

theorem attributeNum_succ : attributeNum vsOutputNum main (count + 1) =
    (if main ≠ 0 then vsOutputNum else 1) + attributeNum vsOutputNum (main - 1) count := by
  unfold attributeNum
  cases main with
  | zero =>
    simp only [Nat.zero_min, Nat.zero_mul, Nat.zero_sub, ne_eq, not_true_eq_false, if_false]
    omega
  | succ main =>
    rw [if_pos (Nat.succ_ne_zero _), Nat.succ_min_succ, Nat.succ_mul, Nat.add_sub_cancel]
    omega

theorem attributeNum_zero : attributeNum vsOutputNum main 0 = 0 := by
  unfold attributeNum
  rw [Nat.min_zero, Nat.zero_mul, Nat.zero_sub]

theorem attributeNum_pos (some : 0 < vsOutputNum) (positive : 0 < count) :
    0 < attributeNum vsOutputNum main count := by
  obtain ⟨count, rfl⟩ := Nat.exists_eq_succ_of_ne_zero (Nat.ne_of_gt positive)
  rw [attributeNum_succ]
  split_ifs <;> omega

/-- Every count in the index stream is some, and as many of its vertices as come fit behind the
first uniform. -/
def CountsFit (regs : Regs) : List Nat → Prop
  | [] => True
  | val :: rest =>
    val ≠ 0 ∧ 1 + received regs (min val rest.length) ≤ 96 ∧ CountsFit regs (rest.drop val)
termination_by indices => indices.length
decreasing_by
  rw [List.length_drop, List.length_cons]
  omega

theorem countsFit_nil : CountsFit regs [] := by
  rw [CountsFit]
  trivial

def indices (vertices : List (DrawVertex α)) : List Nat := vertices.map fun vertex => vertex.1.val

/-- The condition of the variable primitives is exact for these vertices, from any state on. -/
def ExactFor (regs : Regs) (engine : Engine α) (vertices : List (DrawVertex α)) : Prop :=
  ∀ (s : Pipeline α) (b : VariablePrimitive) (stored goal : Nat),
    s.backend = some (.variablePrimitive b) →
    b.vsOutputNum = regs.vsOutmapTotalMinus1A.val + 1 →
    (b.needIndex = true → (Inside regs engine true s stored goal vertices ↔
      CountsFit regs (indices vertices))) ∧
    (b.needIndex = false → 0 < b.totalVertexNum → b.totalVertexNum < 0x100000000 →
      b.bufferCur ≤ 96 →
      goal = stored + attributeNum b.vsOutputNum b.mainVertexNum b.totalVertexNum →
      (Inside regs engine true s stored goal vertices ↔
        b.bufferCur + attributeNum b.vsOutputNum b.mainVertexNum
          (min b.totalVertexNum vertices.length) ≤ 96 ∧
        CountsFit regs ((indices vertices).drop b.totalVertexNum)))

section

variable {stored goal total : Nat} {vertex : DrawVertex α} {rest : List (DrawVertex α)}
  (at_backend : s.backend = some (.variablePrimitive b))
include at_backend

theorem inside_index (later : ExactFor regs engine rest) (variable_ : regs.mode = .variablePrimitive)
    (size : b.vsOutputNum = regs.vsOutmapTotalMinus1A.val + 1) (needed : b.needIndex = true) :
    Inside regs engine true s stored goal (vertex :: rest) ↔
      CountsFit regs (indices (vertex :: rest)) := by
  have positive : 0 < b.vsOutputNum := by omega
  obtain ⟨s₁, turn, after⟩ := @drawVertex_index α regs engine s vertex b at_backend needed
  have declares : declared regs vertex.1 = attributeNum b.vsOutputNum
      (add32 regs.variableVertexMainNumMinus1 1) vertex.1 := by
    rw [declared, variable_, size]
    rfl
  have counted : (indices rest).length = rest.length := List.length_map _
  rw [inside_submitIndex turn, indices, List.map_cons, CountsFit, ← indices, counted,
    received, ← size, declares]
  by_cases some : vertex.1.val = 0
  · refine iff_of_false ?_ fun fits => fits.1 some
    rintro ⟨goes, -⟩
    rw [some, attributeNum_zero] at goes
    exact goes rfl
  · have later := (later s₁ _ 0 _ after size).2 rfl (Nat.pos_of_ne_zero some)
      vertex.1.isLt (by dsimp only; omega) (Nat.zero_add _).symm
    rw [later]
    have goes := @attributeNum_pos _ (add32 regs.variableVertexMainNumMinus1 1) _
      positive (Nat.pos_of_ne_zero some)
    exact and_congr (iff_of_true (Nat.ne_of_gt goes) some) Iff.rfl

variable (count_eq : (if b.mainVertexNum ≠ 0 then b.vsOutputNum else 1) = count)
include count_eq

theorem inside_vertex (later : ExactFor regs engine rest)
    (size : b.vsOutputNum = regs.vsOutmapTotalMinus1A.val + 1) (taken : b.needIndex = false)
    (at_total : b.totalVertexNum = total + 1) (word : b.totalVertexNum < 0x100000000)
    (goal_eq : goal = stored + (count + attributeNum b.vsOutputNum (b.mainVertexNum - 1) total))
    (fits : b.bufferCur + count ≤ 96) : Inside regs engine true s stored goal (vertex :: rest) ↔
      b.bufferCur + count + attributeNum b.vsOutputNum (b.mainVertexNum - 1)
        (min total rest.length) ≤ 96 ∧ CountsFit regs ((indices rest).drop total) := by
  have positive : 0 < b.vsOutputNum := by omega
  have less : sub32 b.totalVertexNum 1 = total := by
    rw [sub32_eq (by omega) word, at_total]
    rfl
  have length : (attributes vertex.2 count).length = count := by
    apply length_attributes
    rw [← count_eq]
    split_ifs <;> omega
  obtain ⟨f, copied⟩ := @copyTo_inside α 96 b.bufferCur s.f (attributes vertex.2 count) (by omega)
  rw [length, ← count_eq] at copied
  obtain ⟨s₁, turn, after⟩ := drawVertex_variable at_backend taken less copied
  rw [count_eq] at turn after
  rw [inside_submitVertex turn, Nat.add_sub_cancel_left]
  simp only [decide_eq_true_eq]
  by_cases last : total = 0
  · -- the last vertex: the next one is an index again
    rw [last, attributeNum_zero] at goal_eq
    have later := (later s₁ _ 0 goal after size).1 (decide_eq_true last)
    rw [if_pos last, later, last, Nat.zero_min, attributeNum_zero]
    exact and_congr (iff_of_true (iff_of_true rfl goal_eq.symm) fits) Iff.rfl
  · have more := @attributeNum_pos _ (b.mainVertexNum - 1) _ positive (Nat.pos_of_ne_zero last)
    have later := (later s₁ _ (stored + count) goal after size).2 (decide_eq_false last)
      (Nat.pos_of_ne_zero last) (by dsimp only; omega) fits (by rw [goal_eq, Nat.add_assoc])
    rw [if_neg last, later]
    exact and_iff_right (iff_of_false last (by omega))

theorem not_inside_vertex (size : b.vsOutputNum = regs.vsOutmapTotalMinus1A.val + 1)
    (taken : b.needIndex = false) (so_far : b.bufferCur ≤ 96) (past : 96 < b.bufferCur + count) :
    ¬ Inside regs engine true s stored goal (vertex :: rest) := by
  have length : (attributes vertex.2 count).length = count := by
    apply length_attributes
    rw [← count_eq]
    split_ifs <;> omega
  have error := @copyTo_outside α 96 b.bufferCur s.f (attributes vertex.2 count)
    (List.ne_nil_of_length_pos (by omega)) (by omega)
  rw [← count_eq] at error
  apply not_inside (e := .undefinedBehaviour)
  have noIndex : (true && s.needIndexInput) = false := by
    simp [Pipeline.needIndexInput, at_backend, taken]
  simp only [drawVertex, noIndex, Bool.false_eq_true, if_false, Pipeline.submitVertex,
    at_backend, VariablePrimitive.submitVertex, taken, assert_pos, ok_bind, error,
    error_bind]

end

theorem inside_variable (variable_ : regs.mode = .variablePrimitive)
    (vertices : List (DrawVertex α)) : ExactFor regs engine vertices := by
  induction vertices with
  | nil =>
    intro s b stored goal at_backend size
    constructor
    · intro _
      exact iff_of_true inside_nil countsFit_nil
    · intro _ _ _ so_far _
      refine iff_of_true inside_nil ⟨?_, ?_⟩
      · rwa [List.length_nil, Nat.min_zero, attributeNum_zero]
      · rw [indices, List.map_nil, List.drop_nil]
        exact countsFit_nil
  | cons vertex rest ih =>
    intro s b stored goal at_backend size
    refine ⟨inside_index at_backend ih variable_ size, ?_⟩
    intro taken some word so_far goal_eq
    obtain ⟨total, at_total⟩ := Nat.exists_eq_succ_of_ne_zero (Nat.ne_of_gt some)
    have most : min b.totalVertexNum (vertex :: rest).length = min total rest.length + 1 := by
      rw [List.length_cons]
      omega
    have dropped : (indices (vertex :: rest)).drop b.totalVertexNum =
        (indices rest).drop total := by
      rw [at_total]
      rfl
    rw [most, attributeNum_succ, dropped, ← Nat.add_assoc]
    rw [at_total, attributeNum_succ] at goal_eq
    generalize count_eq : (if b.mainVertexNum ≠ 0 then b.vsOutputNum else 1) = count
      at goal_eq ⊢
    by_cases fits : b.bufferCur + count ≤ 96
    · exact inside_vertex at_backend count_eq ih size taken at_total word goal_eq fits
    · exact iff_of_false (not_inside_vertex at_backend count_eq size taken so_far (by omega))
        (by omega)

end

theorem inside_none {stored goal : Nat} {vertices : List (DrawVertex α)}
    (at_backend : s.backend = none) : Inside regs engine isIndexed s stored goal vertices := by
  induction vertices generalizing s with
  | nil => exact inside_nil
  | cons vertex rest ih =>
    obtain ⟨backend, f, b15, unit⟩ := s
    obtain rfl : backend = none := at_backend
    have turn : drawVertex regs engine ⟨none, f, b15, unit⟩ isIndexed vertex =
        .ok (⟨none, f, b15, ⟨unit.input, unit.handled ++ [vertex.2]⟩⟩, []) := by
      have noIndex : (isIndexed && Pipeline.needIndexInput ⟨none, f, b15, unit⟩) = false :=
        Bool.and_false _
      rw [drawVertex, noIndex]
      rfl
    obtain ⟨s', calls, run, completes⟩ :=
      @ih ⟨none, f, b15, ⟨unit.input, unit.handled ++ [vertex.2]⟩⟩ rfl
    refine ⟨s', calls, ?_, completes⟩
    rw [drawLoop, turn, ok_bind]
    dsimp only
    rw [run]
    rfl

/-- The vertices of a draw fit in the buffer that the registers choose. -/
def Fits (regs : Regs) (vertices : List (DrawVertex α)) : Prop :=
  match regs.useGs, regs.mode with
  | .yes, .variablePrimitive => CountsFit regs (indices vertices)
  | .yes, .fixedPrimitive =>
    regs.startIndex.val + (regs.vsOutmapTotalMinus1A.val + 1) *
      min vertices.length (regs.fixedVertexNumMinus1.val + 1) ≤ 96
  | _, _ => True

theorem inside_iff_fits {s' : Pipeline α} {attributeBuffer : AttributeBuffer α}
    (accepted : reconfigure regs s attributeBuffer = .ok s')
    (indexed : s'.needIndexInput = true → isIndexed = true) (vertices : List (DrawVertex α)) :
    Inside regs engine isIndexed s' 0 (declared regs 0) vertices ↔ Fits regs vertices := by
  have few := regs.vsOutmapTotalMinus1A.isLt
  obtain ⟨_, -, accepted⟩ := bind_eq_ok.mp accepted
  unfold Fits
  split_ifs at accepted with no
  · cases accepted
    rw [no]
    exact iff_of_true (inside_none rfl) trivial
  · obtain ⟨_, yes, accepted⟩ := bind_eq_ok.mp accepted
    obtain ⟨_, -, accepted⟩ := bind_eq_ok.mp accepted
    obtain ⟨_, -, accepted⟩ := bind_eq_ok.mp accepted
    obtain ⟨_, -, accepted⟩ := bind_eq_ok.mp accepted
    rw [assert_eq_ok.mp yes]
    cases mode : regs.mode with
    | point =>
      rw [mode] at accepted
      obtain ⟨b, created, equal⟩ := bind_eq_ok.mp accepted
      cases equal
      obtain ⟨_, -, created⟩ := bind_eq_ok.mp created
      obtain ⟨_, -, created⟩ := bind_eq_ok.mp created
      obtain ⟨_, whole, created⟩ := bind_eq_ok.mp created
      cases created
      have goal_eq : declared regs 0 = regs.maxInputAttributeIndex.val + 1 := by
        rw [declared, mode]
      refine iff_of_true ?_ trivial
      rw [goal_eq]
      exact @inside_point α regs engine isIndexed _ ⟨attributeBuffer, 0, _, _⟩ vertices rfl
        (Nat.succ_pos _) (Nat.dvd_of_mod_eq_zero (assert_eq_ok.mp whole)) (Nat.dvd_zero _)
        (Nat.succ_pos _) regs.maxInputAttributeIndex.isLt
    | variablePrimitive =>
      rw [mode] at accepted
      obtain ⟨b, created, equal⟩ := bind_eq_ok.mp accepted
      cases equal
      obtain ⟨_, -, created⟩ := bind_eq_ok.mp created
      obtain ⟨_, -, created⟩ := bind_eq_ok.mp created
      cases created
      rw [indexed rfl]
      exact (inside_variable mode _ _ _ _ _ rfl rfl).1 rfl
    | fixedPrimitive =>
      rw [mode] at accepted
      obtain ⟨b, created, equal⟩ := bind_eq_ok.mp accepted
      cases equal
      obtain ⟨_, -, created⟩ := bind_eq_ok.mp created
      obtain ⟨_, -, created⟩ := bind_eq_ok.mp created
      obtain ⟨_, -, created⟩ := bind_eq_ok.mp created
      cases created
      have goal_eq : declared regs 0 = (regs.vsOutmapTotalMinus1A.val + 1) *
          (regs.fixedVertexNumMinus1.val + 1) := by
        rw [declared, mode]
      have fixed := @inside_fixed α regs engine isIndexed { s with
        backend := some (.fixedPrimitive ⟨regs.startIndex, regs.startIndex,
          regs.startIndex + (regs.vsOutmapTotalMinus1A.val + 1) *
            (regs.fixedVertexNumMinus1.val + 1), regs.vsOutmapTotalMinus1A.val + 1⟩) } _ 0
        (regs.fixedVertexNumMinus1.val + 1) vertices rfl (Nat.succ_pos _) few rfl rfl
        (Nat.succ_pos _) (by dsimp only; omega)
      rw [goal_eq]
      rwa [Nat.zero_add] at fixed
    | other =>
      rw [mode] at accepted
      cases accepted

/-- A fixed primitive of sixteen vertices of sixteen attributes each, from uniform 15 on. -/
def farPrimitive : Regs where
  useGs := .yes
  variablePrimitive := 0
  gsUnitExclusiveConfiguration := 1
  vsOutmapTotalMinus1A := 15
  vsOutmapTotalMinus1B := 15
  mode := .fixedPrimitive
  fixedVertexNumMinus1 := 15
  strideMinus1 := 15
  startIndex := 15
  variableVertexMainNumMinus1 := 0
  maxInputAttributeIndex := 0
  inputToUniform := 1
  shaderMode := .gs
  registerForAttribute := id

def emptyPipeline : Pipeline Nat := ⟨none, fun _ => 0, false, ⟨fun _ => 0, []⟩⟩

def idleEngine : Engine Nat := ⟨id, fun _ unit => unit⟩

theorem farPrimitive_accepted : ∃ s, reconfigure farPrimitive emptyPipeline (fun _ => 0) = .ok s ∧
    s.needIndexInput = false := ⟨_, rfl, rfl⟩

theorem inside_iff_fits_five : ∃ s, reconfigure farPrimitive emptyPipeline (fun _ => 0) = .ok s ∧
    Inside farPrimitive idleEngine false s 0 (declared farPrimitive 0)
      (List.replicate 5 (0, fun _ => 0)) := by
  obtain ⟨s, accepted, noIndex⟩ := farPrimitive_accepted
  refine ⟨s, accepted, (inside_iff_fits accepted ?_ _).mpr ?_⟩
  · rw [noIndex]
    exact nofun
  · have fits : 15 + (15 + 1) * min 5 (15 + 1) ≤ 96 := by decide
    exact fits

theorem writes_past_uniforms : ∃ s, reconfigure farPrimitive emptyPipeline (fun _ => 0) = .ok s ∧
    drawLoop farPrimitive idleEngine false s (List.replicate 6 (0, fun _ => 0)) =
      .error .undefinedBehaviour ∧
    ¬ Inside farPrimitive idleEngine false s 0 (declared farPrimitive 0)
      (List.replicate 6 (0, fun _ => 0)) := by
  refine ⟨_, rfl, rfl, ?_⟩
  rintro ⟨s', calls, run, -⟩
  cases run

end EmuThreeDS.Pica
