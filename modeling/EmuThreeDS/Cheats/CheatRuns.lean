import EmuThreeDS.Cheats.StructuredCheats

/-!
# Cheats run as they are written, but for their loops

A block without a loop leads to its end and does there what it means. The body of a loop is run
once more than its code says. One that leaves a conditional open goes round, with nothing
executed, until `if_flag` has come back to zero.
-/
namespace EmuThreeDS.Cheats

variable {M : Type} {system : System M} {lines : List CheatLine}

inductive Leads (system : System M) (lines : List CheatLine) : Nat → Run M → Run M → Prop
  | refl (a : Run M) : Leads system lines 0 a a
  | line {n : Nat} {l : CheatLine} {a b c : Run M}
      (found : lines[a.state.currentLineNr]? = some l) (does : step system lines l a = .ok b)
      (rest : Leads system lines n b c) : Leads system lines (n + 1) a c

section

variable {n m fuel : Nat} {a b c r : Run M}

theorem Leads.trans (first : Leads system lines n a b) (later : Leads system lines m b c) :
    Leads system lines (m + n) a c := by
  induction first with
  | refl a => exact later
  | line found does _ ih => exact .line found does (ih later)

theorem Leads.executes (h : Leads system lines n a b) (fuel : Nat) :
    executeFrom system lines (fuel + n) a = executeFrom system lines fuel b := by
  induction h with
  | refl a => rfl
  | line found does _ ih =>
    rw [← Nat.add_assoc, executeFrom_line found, does, ok_bind, ih]

theorem Leads.returns (h : Leads system lines n a b)
    (run : executeFrom system lines fuel a = .ok r) :
    ∃ fuel', fuel = fuel' + n ∧ executeFrom system lines fuel' b = .ok r := by
  induction h generalizing fuel with
  | refl a => exact ⟨fuel, rfl, run⟩
  | line found does _ ih =>
    cases fuel with
    | zero => exact nomatch (executeFrom_zero found).symm.trans run
    | succ fuel =>
      rw [executeFrom_line found, does] at run
      obtain ⟨fuel', same, run'⟩ := ih run
      exact ⟨fuel', congrArg (· + 1) same, run'⟩

theorem executeFrom_more (run : executeFrom system lines fuel a = .ok r) (n : Nat) :
    executeFrom system lines (fuel + n) a = .ok r := by
  induction fuel generalizing a with
  | zero =>
    rw [executeFrom] at run
    split_ifs at run with within
    cases n with
    | zero => rwa [executeFrom, if_neg within]
    | succ n => rwa [← Nat.add_assoc, executeFrom, List.getElem?_eq_none (Nat.le_of_not_lt within)]
  | succ fuel ih =>
    rw [executeFrom] at run
    rw [Nat.add_right_comm, executeFrom]
    split at run
    · exact run
    · obtain ⟨b, does, rest⟩ := bind_eq_ok.mp run
      exact bind_eq_ok.mpr ⟨b, does, ih rest⟩

theorem executeFrom_unique {fuel' : Nat} {r' : Run M}
    (run : executeFrom system lines fuel a = .ok r)
    (run' : executeFrom system lines fuel' a = .ok r') : r = r' := by
  have more := executeFrom_more run fuel'
  rw [Nat.add_comm, executeFrom_more run' fuel] at more
  cases more
  rfl

end

section

theorem Watch.see_grows (l : CheatLine) (state : State) (watch : Watch) :
    watch.ended <+: (watch.see l state).ended := by
  have ends : watch.ended <+: watch.endLoop.ended := by
    unfold endLoop
    split_ifs
    · exact List.prefix_rfl
    · exact List.prefix_append _ _
  unfold see
  split
  · split_ifs <;> exact List.prefix_rfl
  · split_ifs
    · exact ends
    · exact List.prefix_rfl
  · split_ifs
    · exact List.prefix_rfl
    · exact ends
  · exact List.prefix_rfl

theorem ended_grows {fuel : Nat} {a r : Run M} (run : executeFrom system lines fuel a = .ok r) :
    a.watch.ended <+: r.watch.ended := by
  induction fuel generalizing a with
  | zero =>
    rw [executeFrom] at run
    split_ifs at run
    cases run
    exact List.prefix_rfl
  | succ fuel ih =>
    rw [executeFrom] at run
    split at run
    · cases run
      exact List.prefix_rfl
    · obtain ⟨b, does, rest⟩ := bind_eq_ok.mp run
      obtain ⟨after, _, rfl⟩ := map_eq_ok.mp does
      exact (Watch.see_grows _ _ _).trans (ih rest)

end

section

variable {α : Type} (p : Nat) (x y : α) (xs ys : List α)

theorem place_cons : p + (x :: xs).length = p + 1 + xs.length := by
  rw [List.length_cons, Nat.add_comm xs.length, Nat.add_assoc]

theorem place_cons_append : p + (x :: (xs ++ ys)).length = p + 1 + xs.length + ys.length := by
  rw [place_cons, List.length_append, ← Nat.add_assoc]

theorem place_between : p + (x :: (xs ++ y :: ys)).length = p + 1 + xs.length + 1 + ys.length := by
  rw [place_cons_append, place_cons]

end

section

variable {c : Config M} {k : Looping}

theorem leads_one {l : CheatLine} {d : UInt32} {p : Nat} {b : Run M} (found : lines[p]? = some l)
    (does : step system lines l (place c k d p) = .ok b) :
    Leads system lines 1 (place c k d p) b := .line found does (.refl b)

theorem ofNat_pos {d : Nat} (small : d + 1 < 2 ^ 32) : 0 < UInt32.ofNat (d + 1) := by
  rw [UInt32.lt_iff_toNat_lt, UInt32.toNat_ofNat_of_lt' small]
  exact Nat.succ_pos d

theorem ofNat_succ (d : Nat) : UInt32.ofNat d + 1 = UInt32.ofNat (d + 1) :=
  (UInt32.ofNat_add d 1).symm

theorem ofNat_pred (d : Nat) : UInt32.ofNat (d + 1) - 1 = UInt32.ofNat d := by
  rw [UInt32.ofNat_add]
  exact UInt32.add_sub_cancel _ _

/-- A block is skipped with the flag counting the conditionals that it opens and closes. -/
theorem skips (block : Block) (d p : Nat) (room : d + 1 + block.depth < 2 ^ 32)
    (nested : block.WellNested) (laid : Laid lines p block.lines) :
    ∃ n d', Leads system lines n (place c k (UInt32.ofNat (d + 1)) p)
      (place c k (UInt32.ofNat (d' + 1)) (p + block.lines.length)) ∧ (block.Closed → d' = d) := by
  have positive : 0 < UInt32.ofNat (d + 1) := ofNat_pos (by omega)
  induction block generalizing d p with
  | done => exact ⟨0, d, .refl _, fun _ => rfl⟩
  | line l rest ih =>
    obtain ⟨n, d', leads, closed⟩ := ih d (p + 1) room nested.2 laid.2 positive
    rw [Block.lines, place_cons]
    exact ⟨_, d', (leads_one laid.1 (skip_elementary nested.1 positive)).trans leads, closed⟩
  | patch l data rest ih =>
    have after := laid_append.mp laid.2
    have first : step system lines l (place c k (UInt32.ofNat (d + 1)) p) =
        .ok (place c k (UInt32.ofNat (d + 1)) (p + 1 + data.length)) := by
      rw [nested.1.2]
      exact skip_patch nested.1.1 positive
    obtain ⟨n, d', leads, closed⟩ := ih d (p + 1 + data.length) room nested.2 after.2 positive
    rw [Block.lines, place_cons_append]
    exact ⟨_, d', (leads_one laid.1 first).trans leads, closed⟩
  | conditional l body close rest ihBody ih =>
    have after := laid_append.mp laid.2
    have inner : d + 1 + 1 + body.depth < 2 ^ 32 ∧ d + 1 + rest.depth < 2 ^ 32 := by
      rw [Block.depth] at room
      omega
    have positive' : 0 < UInt32.ofNat (d + 1 + 1) := ofNat_pos (by omega)
    obtain ⟨n, d₁, inside, same⟩ :=
      ihBody (d + 1) (p + 1) inner.1 nested.2.1.1 after.1 positive'
    cases same nested.2.1.2
    obtain ⟨m, d', leads, closed⟩ := ih d _ inner.2 nested.2.2 after.2.2 positive
    have opens := @skip_conditional M system lines l c k _ p nested.1.1 positive
    have closes := @skip_terminator M system lines close c k _ (p + 1 + body.lines.length)
      nested.1.2 positive'
    rw [ofNat_succ] at opens
    rw [ofNat_pred] at closes
    rw [Block.lines, place_between]
    exact ⟨_, d', (((leads_one laid.1 opens).trans inside).trans
      (leads_one after.2.1 closes)).trans leads, closed⟩
  | loop l body close rest ihBody ih =>
    have after := laid_append.mp laid.2
    have inner : d + 1 + body.depth < 2 ^ 32 ∧ d + 1 + rest.depth < 2 ^ 32 := by
      rw [Block.depth] at room
      omega
    obtain ⟨n, d₁, inside, same⟩ := ihBody d (p + 1) inner.1 nested.2.1.1 after.1 positive
    cases same nested.2.1.2.1
    obtain ⟨m, d', leads, closed⟩ := ih d _ inner.2 nested.2.2 after.2.2 positive
    rw [Block.lines, place_between]
    exact ⟨_, d', (((leads_one laid.1 (skip_loop (.inl nested.1.1) positive)).trans inside).trans
      (leads_one after.2.1 (skip_loop (.inr nested.1.2) positive))).trans leads, closed⟩
  | opened l rest ih =>
    rw [Block.depth] at room
    obtain ⟨n, d', leads, _⟩ := ih (d + 1) (p + 1) (by omega) nested.2 laid.2
      (ofNat_pos (by omega))
    have opens := @skip_conditional M system lines l c k _ p nested.1 positive
    rw [ofNat_succ] at opens
    rw [Block.lines, place_cons]
    exact ⟨_, d', (leads_one laid.1 opens).trans leads, nofun⟩
  | looped l body ih =>
    obtain ⟨n, d', leads, _⟩ := ih d (p + 1) room nested.2.1 laid.2 positive
    rw [Block.lines, place_cons]
    exact ⟨_, d', (leads_one laid.1 (skip_loop (.inl nested.1) positive)).trans leads, nofun⟩

end

section

theorem zero_or_pos (d : UInt32) : d = 0 ∨ 0 < d := by
  rw [← UInt32.toNat_inj, UInt32.lt_iff_toNat_lt]
  exact Nat.eq_zero_or_pos _

variable {c : Config M} {k : Looping} {l : CheatLine} {p : Nat}

/-- Executed or skipped, a line of a block without a loop goes on to the next one. -/
def Goes (system : System M) (lines : List CheatLine) (n p q : Nat) (d : UInt32) (c : Config M)
    (k : Looping) : Prop :=
  ∃ c' d', Leads system lines n (place c k d p) (place c' k d' q) ∧ c'.loops = c.loops

theorem goes_elementary (found : lines[p]? = some l) (type : l.type.isElementary) (d : UInt32) :
    Goes system lines 1 p (p + 1) d c k := by
  rcases zero_or_pos d with rfl | positive
  · exact ⟨_, _, leads_one found (step_elementary type), rfl⟩
  · exact ⟨_, _, leads_one found (skip_elementary type positive), rfl⟩

theorem goes_conditional (found : lines[p]? = some l) (type : l.type.isConditional)
    (d : UInt32) : Goes system lines 1 p (p + 1) d c k := by
  rcases zero_or_pos d with rfl | positive
  · exact ⟨_, _, leads_one found (step_conditional type), rfl⟩
  · exact ⟨_, _, leads_one found (skip_conditional type positive), rfl⟩

theorem goes_terminator (found : lines[p]? = some l) (type : l.type = .terminator)
    (d : UInt32) : Goes system lines 1 p (p + 1) d c k := by
  rcases zero_or_pos d with rfl | positive
  · exact ⟨_, _, leads_one found (step_terminator type), rfl⟩
  · exact ⟨_, _, leads_one found (skip_terminator type positive), rfl⟩

theorem goes_patch {data : List CheatLine} (found : lines[p]? = some l) (type : l.type = .patch)
    (fits : data.length = l.dataLines) (laid : Laid lines (p + 1) data) (d : UInt32) :
    Goes system lines 1 p (p + 1 + data.length) d c k := by
  rcases zero_or_pos d with rfl | positive
  · exact ⟨_, _, leads_one found (step_patch type fits laid), rfl⟩
  · rw [fits]
    exact ⟨_, _, leads_one found (skip_patch type positive), rfl⟩

theorem Goes.trans {n m q r : Nat} {d : UInt32} (first : Goes system lines n p q d c k)
    (later : ∀ d c, Goes system lines m q r d c k) : Goes system lines (m + n) p r d c k := by
  obtain ⟨c₁, d₁, leads, same⟩ := first
  obtain ⟨c', d', leads', same'⟩ := later d₁ c₁
  exact ⟨c', d', leads.trans leads', same'.trans same⟩

/-- Whatever the flag, also one that wraps around, a block without a loop is left at its end. -/
theorem passes (block : Block) (p : Nat) (nested : block.WellNested) (free : block.LoopFree)
    (laid : Laid lines p block.lines) :
    ∃ n, ∀ d c, Goes system lines n p (p + block.lines.length) d c k := by
  induction block generalizing p with
  | done => exact ⟨0, fun d c => ⟨c, d, .refl _, rfl⟩⟩
  | line l rest ih =>
    obtain ⟨n, later⟩ := ih (p + 1) nested.2 free laid.2
    rw [Block.lines, place_cons]
    exact ⟨_, fun d c => (goes_elementary laid.1 nested.1 d).trans later⟩
  | patch l data rest ih =>
    have after := laid_append.mp laid.2
    obtain ⟨n, later⟩ := ih (p + 1 + data.length) nested.2 free after.2
    rw [Block.lines, place_cons_append]
    exact ⟨_, fun d c => (goes_patch laid.1 nested.1.1 nested.1.2 after.1 d).trans later⟩
  | conditional l body close rest ihBody ih =>
    have after := laid_append.mp laid.2
    obtain ⟨n, inside⟩ := ihBody (p + 1) nested.2.1.1 free.1 after.1
    obtain ⟨m, later⟩ := ih _ nested.2.2 free.2 after.2.2
    rw [Block.lines, place_between]
    exact ⟨_, fun d c => (((goes_conditional laid.1 nested.1.1 d).trans inside).trans fun d c =>
      goes_terminator after.2.1 nested.1.2 d).trans later⟩
  | opened l rest ih =>
    obtain ⟨n, later⟩ := ih (p + 1) nested.2 free laid.2
    rw [Block.lines, place_cons]
    exact ⟨_, fun d c => (goes_conditional laid.1 nested.1 d).trans later⟩
  | loop _ _ _ _ _ _ | looped _ _ => exact free.elim

end

section

/-- Where a body leads from its first line on: it does `f`, and closes its conditionals if it is
`closed`. -/
def Does (system : System M) (lines : List CheatLine) (f : Config M → Config M) (closed : Prop)
    (p q : Nat) : Prop :=
  ∀ (c : Config M) (k : Looping), (f c).loops = c.loops ∧
    ∃ n d, Leads system lines n (place c k 0 p) (place (f c) k d q) ∧ (closed → d = 0)

structure LoopAt (system : System M) (lines : List CheatLine) (f : Config M → Config M)
    (l : CheatLine) (p q : Nat) : Prop where
  isLoop : l.type = .loop
  found : lines[p]? = some l
  ends : ∃ close, lines[q]? = some close ∧
    (close.type = .loopExecuteVariant ∧ Does system lines f True (p + 1) q ∨
      close.type = .fullTerminator ∧ Does system lines f False (p + 1) q)
  passes : ∀ k, ∃ n, ∀ d c, Goes system lines n (p + 1) q d c k

variable {f : Config M → Config M} {l : CheatLine} {p q : Nat} {c : Config M} {k : Looping}

theorem LoopAt.begins (h : LoopAt system lines f l p q) {j : Nat} (within : j ≤ l.value.toNat)
    (counted : k.loopCount = UInt32.ofNat j) (begun : k.bodyRuns = j) :
    Leads system lines 1 (place c k 0 p)
      (place c ⟨UInt32.ofNat (j + 1), p, decide (j < l.value.toNat), j + 1⟩ 0 (p + 1)) := by
  have below : (UInt32.ofNat j < l.value) = (j < l.value.toNat) := by
    rw [UInt32.lt_iff_toNat_lt,
      UInt32.toNat_ofNat_of_lt' (Nat.lt_of_le_of_lt within l.value.toNat_lt)]
  have does := @step_loop M system lines l c k p h.isLoop
  rw [counted, begun] at does
  simp only [below] at does
  rw [UInt32.ofNat_add]
  exact leads_one h.found does

/-- The loop has begun so often, and what it skips goes back to it. -/
structure Begun (lines : List CheatLine) (l : CheatLine) (p q j : Nat) (k : Looping) (d : UInt32) :
    Prop where
  within : j ≤ l.value.toNat
  counted : k.loopCount = UInt32.ofNat j
  begun : k.bodyRuns = j
  back : 0 < d → k.loopFlag = true ∧ k.loopBackLine = p ∧
    ∃ close, lines[q]? = some close ∧ close.type = .fullTerminator

/-- A round of the loop: it goes back to its code, or it ends and was run once more than that
says. -/
theorem LoopAt.round (h : LoopAt system lines f l p q) {j : Nat} {d : UInt32}
    (begun : Begun lines l p q j k d) :
    ∃ n c', c'.loops = c.loops ∧ ((∃ j' k' d', Begun lines l p q j' k' d' ∧
          Leads system lines (n + 1) (place c k d p) (place c' k' d' p)) ∨
        ∃ b, Leads system lines (n + 1) (place c k d p) b ∧
          c'.loops ++ [l.value.toNat + 1] <+: b.watch.ended) := by
  obtain ⟨within, counted, runs, back⟩ := begun
  rcases zero_or_pos d with rfl | positive
  · obtain ⟨close, foundClose, ends⟩ := h.ends
    have begins := h.begins (c := c) within counted runs
    by_cases more : j < l.value.toNat
    · rw [decide_eq_true more] at begins
      rcases ends with ⟨type, does⟩ | ⟨type, does⟩
      · obtain ⟨keeps, n, d, inside, closed⟩ := does c ⟨UInt32.ofNat (j + 1), p, true, j + 1⟩
        rw [closed trivial] at inside
        refine ⟨_, f c, keeps, .inl ⟨j + 1, _, 0, ⟨more, rfl, rfl, fun bad => ?_⟩,
          (begins.trans inside).trans (leads_one foundClose (step_back type rfl))⟩⟩
        exact absurd bad (by decide)
      · obtain ⟨keeps, n, d, inside, _⟩ := does c ⟨UInt32.ofNat (j + 1), p, true, j + 1⟩
        exact ⟨_, f c, keeps, .inl ⟨j + 1, _, d,
          ⟨more, rfl, rfl, fun _ => ⟨rfl, rfl, close, foundClose, type⟩⟩, (begins.trans inside).trans
            (leads_one foundClose (step_fullTerminator_back type rfl))⟩⟩
    · obtain rfl : j = l.value.toNat := Nat.le_antisymm within (Nat.le_of_not_lt more)
      rw [decide_eq_false more] at begins
      rcases ends with ⟨type, does⟩ | ⟨type, does⟩
      · obtain ⟨keeps, n, d, inside, closed⟩ :=
          does c ⟨UInt32.ofNat (l.value.toNat + 1), p, false, l.value.toNat + 1⟩
        rw [closed trivial] at inside
        exact ⟨_, f c, keeps, .inr ⟨_, (begins.trans inside).trans
          (leads_one foundClose (step_ends type rfl)), List.prefix_rfl⟩⟩
      · obtain ⟨keeps, n, d, inside, _⟩ :=
          does c ⟨UInt32.ofNat (l.value.toNat + 1), p, false, l.value.toNat + 1⟩
        exact ⟨_, f c, keeps, .inr ⟨_, (begins.trans inside).trans
          (leads_one foundClose (step_fullTerminator_ends type rfl)), List.prefix_rfl⟩⟩
  · obtain ⟨again, line, close, foundClose, type⟩ := back positive
    obtain ⟨n, inside⟩ := h.passes k
    obtain ⟨c', d', leads, same⟩ := inside d c
    have returns := leads_one foundClose
      (@step_fullTerminator_back M system lines close c' k q d' type again)
    rw [line] at returns
    exact ⟨_, c', same, .inl ⟨j, k, d', ⟨within, counted, runs, fun _ =>
      ⟨again, line, close, foundClose, type⟩⟩, ((leads_one h.found
        (skip_loop (.inl h.isLoop) positive)).trans leads).trans returns⟩⟩

/-- Whatever a run returns that has begun a loop, the loop has been run once more than its code
says. -/
theorem LoopAt.once_more (h : LoopAt system lines f l p q) {j : Nat} {d : UInt32}
    (begun : Begun lines l p q j k d) {fuel : Nat} {r : Run M}
    (run : executeFrom system lines fuel (place c k d p) = .ok r) :
    c.loops ++ [l.value.toNat + 1] <+: r.watch.ended := by
  induction fuel using Nat.strongRecOn generalizing j c k d with
  | ind fuel ih =>
    obtain ⟨n, c', same, ⟨j', k', d', begun', leads⟩ | ⟨b, leads, counted⟩⟩ := h.round (c := c) begun
    · obtain ⟨fuel', less, rest⟩ := leads.returns run
      rw [← same]
      exact ih fuel' (by omega) begun' rest
    · obtain ⟨_, _, rest⟩ := leads.returns run
      rw [← same]
      exact counted.trans (ended_grows rest)

end

end EmuThreeDS.Cheats
