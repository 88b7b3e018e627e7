import EmuThreeDS.Cheats.CheatRuns

/-!
# What a well-nested cheat does

`Execute` does what a well-nested cheat means exactly where the cheat comes to no loop: the
first loop it comes to is run once more than its code says.
-/
namespace EmuThreeDS.Cheats

variable {M : Type} {system : System M} {lines : List CheatLine}

section

theorem Block.Closed.loopsClosed {block : Block} (h : block.Closed) : block.LoopsClosed := by
  induction block with
  | done => trivial
  | line _ _ ih | patch _ _ _ ih | conditional _ _ _ _ _ ih | loop _ _ _ _ _ ih => exact ih h
  | opened _ _ | looped _ _ => exact h.elim

theorem Block.LoopFree.loopsClosed {block : Block} (h : block.LoopFree) : block.LoopsClosed := by
  induction block with
  | done => trivial
  | line _ _ ih | patch _ _ _ ih | opened _ _ ih => exact ih h
  | conditional _ _ _ _ _ ih => exact ih h.2
  | loop _ _ _ _ _ _ | looped _ _ => exact h.elim

theorem iterate_loops {f : Config M → Config M} (grows : ∀ c, c.loops <+: (f c).loops) (n : Nat)
    (c : Config M) : c.loops <+: (f^[n] c).loops := by
  induction n generalizing c with
  | zero => exact List.prefix_rfl
  | succ n ih => exact (grows c).trans (ih (f c))

theorem ran_grows (c : Config M) (count : Nat) : c.loops <+: (c.ran count).loops :=
  List.prefix_append _ _

theorem Block.eval_grows (block : Block) (c : Config M) :
    c.loops <+: (block.eval system c).loops := by
  induction block generalizing c with
  | done => exact List.prefix_rfl
  | line l _ ih => exact ih (c.elementary system l)
  | patch l data _ ih => exact ih (c.patched system l data)
  | conditional l body _ rest ihBody ih =>
    rw [eval]
    split_ifs
    · exact (ihBody c).trans (ih _)
    · exact ih c
  | loop l body _ rest ihBody ih =>
    exact ((iterate_loops ihBody _ c).trans (ran_grows _ _)).trans (ih _)
  | opened l rest ih =>
    rw [eval]
    split_ifs
    · exact ih c
    · exact List.prefix_rfl
  | looped l body ih => exact (iterate_loops ih _ c).trans (ran_grows _ _)

end

section

/-- The run of `a` has counted one loop more than `after`, if it ends. -/
def Astray (system : System M) (lines : List CheatLine) (a : Run M) (loops : List Nat)
    (after : Config M) : Prop :=
  ∃ count, loops ++ [count] <+: after.loops ∧
    ∀ fuel r, executeFrom system lines fuel a = .ok r → loops ++ [count + 1] <+: r.watch.ended

/-- The run of `a` comes to the line `q` with no loop counted, or goes astray. -/
def Outcome (system : System M) (lines : List CheatLine) (a : Run M) (k : Looping)
    (loops : List Nat) (closed : Prop) (after : Config M) (q : Nat) : Prop :=
  (after.loops = loops ∧ ∃ n d, Leads system lines n a (place after k d q) ∧ (closed → d = 0)) ∨
  Astray system lines a loops after

variable {a b : Run M} {k : Looping} {loops : List Nat} {closed : Prop} {mid after : Config M}
  {n p q : Nat}

theorem Astray.before (first : Leads system lines n a b) (h : Astray system lines b loops after) :
    Astray system lines a loops after := by
  obtain ⟨count, counted, overrun⟩ := h
  refine ⟨count, counted, ?_⟩
  intro fuel r run
  obtain ⟨fuel', _, rest⟩ := first.returns run
  exact overrun fuel' r rest

theorem Outcome.before (first : Leads system lines n a b)
    (h : Outcome system lines b k loops closed after q) :
    Outcome system lines a k loops closed after q := by
  rcases h with ⟨same, m, d, leads, closes⟩ | astray
  · exact .inl ⟨same, _, d, first.trans leads, closes⟩
  · exact .inr (astray.before first)

theorem Outcome.mono {closed' : Prop} (h : Outcome system lines a k loops closed after q)
    (stronger : closed' → closed) : Outcome system lines a k loops closed' after q :=
  h.imp_left fun ⟨same, n, d, leads, closes⟩ =>
    ⟨same, n, d, leads, fun assumed => closes (stronger assumed)⟩

theorem Outcome.bind (h : Outcome system lines a k loops True mid p)
    (grows : mid.loops <+: after.loops)
    (later : mid.loops = loops → Outcome system lines (place mid k 0 p) k loops closed after q) :
    Outcome system lines a k loops closed after q := by
  rcases h with ⟨same, m, d, leads, closes⟩ | ⟨count, counted, overrun⟩
  · cases closes trivial
    exact (later same).before leads
  · exact .inr ⟨count, counted.trans grows, overrun⟩

theorem Outcome.does (h : Outcome system lines a k loops closed after q)
    (same : after.loops = loops) :
    ∃ n d, Leads system lines n a (place after k d q) ∧ (closed → d = 0) := by
  rcases h with ⟨_, leads⟩ | ⟨count, counted, _⟩
  · exact leads
  · have longer := counted.length_le
    rw [same] at longer
    exact absurd longer (by simp)

end

theorem Block.LoopFree.eval_loops {block : Block} (h : block.LoopFree) (c : Config M) :
    (block.eval system c).loops = c.loops := by
  induction block generalizing c with
  | done => rfl
  | line l _ ih => exact ih h (c.elementary system l)
  | patch l data _ ih => exact ih h (c.patched system l data)
  | conditional l body _ rest ihBody ih =>
    rw [eval, ih h.2]
    split_ifs
    · exact ihBody h.1 c
    · rfl
  | opened l rest ih =>
    rw [eval]
    split_ifs
    · exact ih h c
    · rfl
  | loop _ _ _ _ _ _ | looped _ _ => exact h.elim

theorem iterate_same {f : Config M → Config M} (same : ∀ c, (f c).loops = c.loops) (n : Nat)
    (c : Config M) : (f^[n] c).loops = c.loops := by
  induction n generalizing c with
  | zero => rfl
  | succ n ih => exact (ih (f c)).trans (same c)

/-- Where a block may stand: it has no loop, or none is running; and a D2 ends the loop that is
left to one. -/
structure Stands (lines : List CheatLine) (block : Block) (k : Looping) (p : Nat) : Prop where
  nested : block.WellNested
  shallow : block.depth < 2 ^ 32
  laid : Laid lines p block.lines
  idle : block.LoopFree ∨ k = {}
  ends : block.LoopsClosed ∨ ∃ close, lines[p + block.lines.length]? = some close ∧
    close.type = .fullTerminator

theorem LoopAt.astray {f : Config M → Config M} {l : CheatLine} {p q : Nat}
    (h : LoopAt system lines f l p q) (same : ∀ c, (f c).loops = c.loops) (c : Config M) :
    Astray system lines (place c {} 0 p) c.loops ((f^[l.value.toNat] c).ran l.value.toNat) := by
  refine ⟨l.value.toNat, ?_, ?_⟩
  · rw [← iterate_same same l.value.toNat c]
    exact List.prefix_rfl
  · intro fuel r run
    have start : Begun lines l p q 0 {} 0 :=
      ⟨Nat.zero_le _, rfl, rfl, fun bad => absurd bad (by decide)⟩
    exact h.once_more start run

theorem Astray.then {a : Run M} {loops : List Nat} {mid after : Config M}
    (h : Astray system lines a loops mid) (grows : mid.loops <+: after.loops) :
    Astray system lines a loops after := by
  obtain ⟨count, counted, overrun⟩ := h
  exact ⟨count, counted.trans grows, overrun⟩

theorem follows (block : Block) (c : Config M) (k : Looping) (p : Nat)
    (h : Stands lines block k p) :
    Outcome system lines (place c k 0 p) k c.loops block.Closed (block.eval system c)
      (p + block.lines.length) := by
  induction block generalizing c k p with
  | done => exact .inl ⟨rfl, 0, 0, .refl _, fun _ => rfl⟩
  | line l rest ih =>
    obtain ⟨nested, shallow, laid, idle, ends⟩ := h
    rw [Block.lines, place_cons] at ends ⊢
    exact (ih _ _ _ ⟨nested.2, shallow, laid.2, idle, ends⟩).before
      (leads_one laid.1 (step_elementary nested.1))
  | patch l data rest ih =>
    obtain ⟨nested, shallow, laid, idle, ends⟩ := h
    have after := laid_append.mp laid.2
    rw [Block.lines, place_cons_append] at ends ⊢
    exact (ih _ _ _ ⟨nested.2, shallow, after.2, idle, ends⟩).before
      (leads_one laid.1 (step_patch nested.1.1 nested.1.2 after.1))
  | conditional l body close rest ihBody ih =>
    obtain ⟨nested, shallow, laid, idle, ends⟩ := h
    have after := laid_append.mp laid.2
    rw [Block.lines, place_between] at ends ⊢
    have test : Leads system lines 1 (place c k 0 p)
        (place c k (if c.holds system l then 0 else 1) (p + 1)) :=
      leads_one laid.1 (step_conditional nested.1.1)
    obtain ⟨inner, deep⟩ := Nat.max_lt.mp shallow
    have closing : Stands lines rest k (p + 1 + body.lines.length + 1) :=
      ⟨nested.2.2, deep, after.2.2, idle.imp_left And.right, ends⟩
    have later (c : Config M) := (ih c k _ closing).before
      (leads_one after.2.1 (step_terminator nested.1.2))
    rw [Block.eval]
    cases holds : c.holds system l with
    | true =>
      rw [holds] at test
      have inside := ihBody c k (p + 1) ⟨nested.2.1.1, Nat.lt_of_succ_lt inner, after.1,
        idle.imp_left And.left, .inl nested.2.1.2.loopsClosed⟩
      have both := (inside.mono fun _ => nested.2.1.2).bind (rest.eval_grows _)
        fun same => same ▸ later (body.eval system c)
      exact both.before test
    | false =>
      rw [holds] at test
      obtain ⟨n, d, skipped, same⟩ := skips body 0 (p + 1) (by omega) nested.2.1.1
        after.1
      cases same nested.2.1.2
      exact (ih c k _ closing).before ((test.trans skipped).trans
        (leads_one after.2.1 (skip_terminator nested.1.2 (by decide))))
  | loop l body close rest ihBody ih =>
    obtain ⟨nested, shallow, laid, idle, ends⟩ := h
    have after := laid_append.mp laid.2
    obtain ⟨bodyNested, bodyClosed, bodyFree⟩ := nested.2.1
    have idle' : k = {} := idle.resolve_left (by rintro ⟨⟩)
    subst idle'
    have loop : LoopAt system lines (body.eval system) l p (p + 1 + body.lines.length) := by
      refine ⟨nested.1.1, laid.1, ⟨close, after.2.1, .inl ⟨nested.1.2, ?_⟩⟩, ?_⟩
      · intro c k
        have inside := ihBody c k (p + 1)
          ⟨bodyNested, (Nat.max_lt.mp shallow).1, after.1, .inl bodyFree,
            .inl bodyClosed.loopsClosed⟩
        exact ⟨bodyFree.eval_loops c, (inside.mono fun _ => bodyClosed).does
          (bodyFree.eval_loops c)⟩
      · exact fun k => passes body (p + 1) bodyNested bodyFree after.1
    exact .inr ((loop.astray bodyFree.eval_loops c).then (rest.eval_grows _))
  | opened l rest ih =>
    obtain ⟨nested, shallow, laid, idle, ends⟩ := h
    have inner : rest.depth + 1 < 2 ^ 32 := shallow
    rw [Block.lines, place_cons] at ends ⊢
    have test : Leads system lines 1 (place c k 0 p)
        (place c k (if c.holds system l then 0 else 1) (p + 1)) :=
      leads_one laid.1 (step_conditional nested.1)
    rw [Block.eval]
    cases holds : c.holds system l with
    | true =>
      rw [holds] at test
      have later := ih c k _ ⟨nested.2, Nat.lt_of_succ_lt inner, laid.2, idle, ends⟩
      exact (later.before test).mono (by rintro ⟨⟩)
    | false =>
      rw [holds] at test
      obtain ⟨n, d, skipped, _⟩ := skips rest 0 (p + 1) (by omega) nested.2 laid.2
      exact .inl ⟨rfl, _, _, test.trans skipped, (by rintro ⟨⟩)⟩
  | looped l body ih =>
    obtain ⟨nested, shallow, laid, idle, ends⟩ := h
    rw [Block.lines, place_cons] at ends ⊢
    obtain ⟨isLoop, bodyNested, bodyFree⟩ := nested
    have idle' : k = {} := idle.resolve_left (by rintro ⟨⟩)
    subst idle'
    obtain ⟨close, found, flushes⟩ := ends.resolve_left (by rintro ⟨⟩)
    have loop : LoopAt system lines (body.eval system) l p (p + 1 + body.lines.length) := by
      refine ⟨isLoop, laid.1, ⟨close, found, .inr ⟨flushes, ?_⟩⟩, ?_⟩
      · intro c k
        have inside := ih c k (p + 1)
          ⟨bodyNested, shallow, laid.2, .inl bodyFree, .inl bodyFree.loopsClosed⟩
        obtain ⟨n, d, leads, _⟩ := inside.does (bodyFree.eval_loops c)
        exact ⟨bodyFree.eval_loops c, n, d, leads, (by rintro ⟨⟩)⟩
      · exact fun k => passes body (p + 1) bodyNested bodyFree laid.2
    exact .inr (loop.astray bodyFree.eval_loops c)

theorem evalSections_grows (sections : List Section) (c : Config M) :
    c.loops <+: (evalSections system sections c).loops := by
  induction sections generalizing c with
  | nil => exact List.prefix_rfl
  | cons part sections ih => exact (part.block.eval_grows c).trans (ih (part.block.eval system c).flush)

theorem follows_sections (sections : List Section) (c : Config M) (p : Nat)
    (shallow : ∀ part ∈ sections, part.block.depth < 2 ^ 32)
    (laid : Laid lines p (sectionLines sections)) :
    Outcome system lines (place c {} 0 p) {} c.loops True (evalSections system sections c)
      (p + (sectionLines sections).length) := by
  induction sections generalizing c p with
  | nil => exact .inl ⟨rfl, 0, 0, .refl _, fun _ => rfl⟩
  | cons part sections ih =>
    have parts : sectionLines (part :: sections) =
        part.block.lines ++ part.close :: sectionLines sections := by
      rw [sectionLines, List.flatMap_cons, List.append_assoc]
      rfl
    rw [parts] at laid ⊢
    obtain ⟨inside, found, later⟩ := laid_append.mp laid
    obtain ⟨shallow, others⟩ := List.forall_mem_cons.mp shallow
    rw [List.length_append, ← Nat.add_assoc, place_cons]
    rcases follows part.block c {} p ⟨part.wellNested, shallow, inside, .inr rfl,
        .inr ⟨part.close, found, part.closes⟩⟩ with ⟨same, n, d, leads, _⟩ | astray
    · have flushed : Leads system lines 1
          (place (part.block.eval system c) {} d (p + part.block.lines.length))
          (place (part.block.eval system c).flush {} 0 (p + part.block.lines.length + 1)) :=
        leads_one found (step_fullTerminator_ends part.closes rfl)
      have rest := ih (part.block.eval system c).flush _ others later
      rw [show (part.block.eval system c).flush.loops = c.loops from same] at rest
      exact rest.before (leads.trans flushed)
    · exact .inr (astray.then (evalSections_grows sections (part.block.eval system c).flush))

section

variable (system) (program : Program) (memory : M)

theorem follows_program (shallow : program.Shallow) :
    Outcome system program.lines ⟨{}, memory, {}⟩ {} [] program.last.Closed
      (program.eval system memory) program.lines.length := by
  obtain ⟨laidSections, laidLast⟩ := laid_append.mp (laid_self [] program.lines)
  have sections : Outcome system program.lines ⟨{}, memory, {}⟩ {} [] True
      (evalSections system program.sections { memory })
      (0 + (sectionLines program.sections).length) :=
    follows_sections program.sections { memory } 0 shallow.1 laidSections
  have stop : program.lines.length =
      0 + (sectionLines program.sections).length + program.last.lines.length := by
    rw [Program.lines, List.length_append, Nat.zero_add]
  rw [stop]
  apply sections.bind (program.last.eval_grows _)
  intro same
  have last := @follows M system program.lines program.last
    (evalSections system program.sections { memory }) {} _
    ⟨program.wellNested, shallow.2, laidLast, .inr rfl, .inl program.loopsClosed⟩
  rwa [same] at last

/-- The cheat does what it means: it ends, has made the writes that it means in their order, and
has run every loop it came to as often as it says. -/
def Faithful : Prop :=
  ∃ fuel r, execute system program.lines fuel memory = .ok r ∧
    r.memory = (program.eval system memory).memory ∧
    r.watch.ended = (program.eval system memory).loops

/-- `Execute` does what a well-nested cheat means if and only if the cheat comes to no loop. -/
theorem execute_iff_no_loop (shallow : program.Shallow) :
    Faithful system program memory ↔ (program.eval system memory).loops = [] := by
  constructor
  · rintro ⟨fuel, r, run, _, counted⟩
    rcases follows_program system program memory shallow with ⟨same, _⟩ | ⟨count, means, overrun⟩
    · exact same
    · have first := overrun fuel r run
      rw [counted] at first
      have both : [count + 1] <+: [count] :=
        List.prefix_of_prefix_length_le first means (Nat.le_refl _)
      exact absurd (List.cons_prefix_cons.mp both).1 (Nat.succ_ne_self count)
  · intro none_run
    obtain ⟨n, d, leads, _⟩ := (follows_program system program memory shallow).does none_run
    refine ⟨n, place (program.eval system memory) {} d program.lines.length, ?_, rfl, rfl⟩
    have run := leads.executes 0
    rw [Nat.zero_add] at run
    rw [execute, run]
    exact if_neg (Nat.lt_irrefl program.lines.length)

end

def recorder : System (List (UInt32 × UInt32)) where
  memory8 := ⟨fun _ _ => 0, fun writes addr value => (addr, value.toUInt32) :: writes⟩
  memory16 := ⟨fun _ _ => 0, fun writes addr value => (addr, value.toUInt32) :: writes⟩
  memory32 := ⟨fun _ _ => 0, fun writes addr value => (addr, value) :: writes⟩
  invalidateCacheRange := fun writes _ _ => writes
  padState := 0

/-- `50000000 00000001`, `00100000 00000007`, `D2000000 00000000`, `50000000 00000000`,
`00100004 00000008` and `D0000000 00000000`. -/
def twoTests : Program where
  sections :=
    [{ block := .opened { type := .equalTo32, value := 1 }
         (.line { type := .write32, address := 0x100000, value := 7 } .done)
       wellNested := by simp [Block.WellNested]; decide
       close := { type := .fullTerminator }
       closes := rfl }]
  last := .conditional { type := .equalTo32, value := 0 }
    (.line { type := .write32, address := 0x100004, value := 8 } .done)
    { type := .terminator } .done
  wellNested := by simp [Block.WellNested, Block.Closed]; decide
  loopsClosed := by simp [Block.LoopsClosed]

/-- The first test fails and leaves its conditional to the D2, the second one holds. -/
theorem execute_iff_no_loop_twoTests : ∃ fuel r,
    execute recorder twoTests.lines fuel [] = .ok r ∧ r.memory = [(0x100004, 8)] := by
  have shallow : twoTests.Shallow :=
    ⟨fun part mem => by cases List.mem_singleton.mp mem; decide, by decide⟩
  obtain ⟨fuel, r, run, same, _⟩ := (execute_iff_no_loop recorder twoTests [] shallow).mpr rfl
  exact ⟨fuel, r, run, same⟩

/-- `D5000000 00000005`, `C0000000 00000002`, `D6000000 00100000` and `D1000000 00000000`. -/
def twoWrites : Program where
  sections := []
  last :=
    .line { type := .setValue, value := 5, first := 0xD5000000 }
      (.loop { type := .loop, value := 2, first := 0xC0000000 }
        (.line { type := .incrementiveWrite32, value := 0x100000, first := 0xD6000000 } .done)
        { type := .loopExecuteVariant, first := 0xD1000000 } .done)
  wellNested := by simp [Block.WellNested, Block.Closed, Block.LoopFree]; decide
  loopsClosed := by simp [Block.LoopsClosed]

/-- The loop over two writes makes three of them. -/
theorem third_write_of_two : ¬ Faithful recorder twoWrites [] := by
  rintro ⟨fuel, r, run, same, _⟩
  have three : ∃ s, execute recorder twoWrites.lines 20 [] = .ok s ∧
      s.memory.map Prod.fst = [0x100008, 0x100004, 0x100000] := ⟨_, rfl, rfl⟩
  obtain ⟨s, ends, writes⟩ := three
  rw [executeFrom_unique ends run, same] at writes
  exact absurd writes (by decide)

end EmuThreeDS.Cheats
