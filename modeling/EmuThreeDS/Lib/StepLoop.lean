import Mathlib.Logic.Relation

/-!
# Loops that end or fail

A loop whose turns fail, end it with an answer, or go on from a new state. With a measure that goes
down it answers just if every turn that it comes to returns, and an invariant of its states leads
to what its answer satisfies.
-/
namespace StepLoop

variable {ε σ ρ : Type}

def loop (spent : ε) (turn : σ → Except ε (ρ ⊕ σ)) : Nat → σ → Except ε ρ
  | 0, _ => .error spent
  | fuel + 1, s =>
    match turn s with
    | .error e => .error e
    | .ok (.inl answer) => .ok answer
    | .ok (.inr next) => loop spent turn fuel next

def Next (turn : σ → Except ε (ρ ⊕ σ)) (s t : σ) : Prop := turn s = .ok (.inr t)

/-- The loop that starts in one state comes to another. -/
abbrev Visits (turn : σ → Except ε (ρ ⊕ σ)) : σ → σ → Prop := Relation.ReflTransGen (Next turn)

variable {spent : ε} {turn : σ → Except ε (ρ ⊕ σ)} {measure : σ → Nat} {fuel : Nat} {s t : σ}

theorem forall_visits {P : σ → Prop} :
    (∀ t, Visits turn s t → P t) ↔ P s ∧ ∀ t, Next turn s t → ∀ u, Visits turn t u → P u := by
  constructor
  · exact fun all => ⟨all s .refl, fun t next u later => all u (.head next later)⟩
  · rintro ⟨first, rest⟩ t visits
    rcases Relation.ReflTransGen.cases_head visits with rfl | ⟨u, next, later⟩
    · exact first
    · exact rest u next t later

variable (spent measure fuel) in
/-- The answer is what the invariant gives where the loop ends. -/
theorem loop_returns (I : σ → Prop) (Q : ρ → Prop)
    (step : ∀ s, I s → (∃ answer, turn s = .ok (.inl answer) ∧ Q answer) ∨
      ∃ t, turn s = .ok (.inr t) ∧ I t ∧ measure t < measure s)
    (start : I s) (enough : measure s < fuel) :
    ∃ answer, loop spent turn fuel s = .ok answer ∧ Q answer := by
  induction fuel generalizing s with
  | zero => exact absurd enough (Nat.not_lt_zero _)
  | succ fuel ih =>
    unfold loop
    rcases step s start with ⟨answer, run, holds⟩ | ⟨t, run, kept, less⟩
    · rw [run]
      exact ⟨answer, rfl, holds⟩
    · rw [run]
      exact ih kept (Nat.lt_of_lt_of_le less (Nat.le_of_lt_succ enough))

variable (spent turn measure fuel) in
/-- What fails is a turn that the loop comes to. -/
theorem loop_returns_iff (I : σ → Prop) (kept : ∀ s t, I s → Next turn s t → I t)
    (down : ∀ s t, I s → Next turn s t → measure t < measure s) (start : I s)
    (enough : measure s < fuel) : (∃ answer, loop spent turn fuel s = .ok answer) ↔
      ∀ t, Visits turn s t → ∃ result, turn t = .ok result := by
  induction fuel generalizing s with
  | zero => exact absurd enough (Nat.not_lt_zero _)
  | succ fuel ih =>
    rw [forall_visits]
    unfold loop
    cases run : turn s with
    | error e => exact iff_of_false nofun fun all => nomatch all.1
    | ok result =>
      cases result with
      | inl answer =>
        refine iff_of_true ⟨answer, rfl⟩ ⟨⟨_, rfl⟩, fun t next => ?_⟩
        exact nomatch run.symm.trans next
      | inr t =>
        have less := down s t start run
        dsimp only
        rw [ih (kept s t start run) (by omega)]
        constructor
        · intro all
          refine ⟨⟨_, rfl⟩, fun u next => ?_⟩
          obtain rfl : t = u := Sum.inr.inj (Except.ok.inj (run.symm.trans next))
          exact all
        · exact fun all => all.2 t run

/-- A loop that answers comes to where it ends. -/
theorem visits_of_answer {answer : ρ} (run : loop spent turn fuel s = .ok answer) :
    ∃ t, Visits turn s t ∧ turn t = .ok (.inl answer) := by
  induction fuel generalizing s with
  | zero => cases run
  | succ fuel ih =>
    unfold loop at run
    cases first : turn s with
    | error e =>
      rw [first] at run
      cases run
    | ok result =>
      rw [first] at run
      cases result with
      | inl last =>
        cases run
        exact ⟨s, .refl, first⟩
      | inr t =>
        obtain ⟨u, visits, ends⟩ := ih run
        exact ⟨u, .head first visits, ends⟩

theorem visits_invariant (I : σ → Prop) (kept : ∀ s t, I s → Next turn s t → I t) (start : I s)
    (visits : Visits turn s t) : I t := by
  induction visits with
  | refl => exact start
  | tail _ next ih => exact kept _ _ ih next

/-- Where turns go down a well-founded order and do not run out themselves, the loop ends. -/
theorem loop_ends {r : σ → σ → Prop} (wf : WellFounded r) (I : σ → Prop)
    (fine : ∀ s, I s → turn s ≠ .error spent)
    (down : ∀ s t, I s → Next turn s t → I t ∧ r t s) (start : I s) :
    ∃ fuel, loop spent turn fuel s ≠ .error spent := by
  induction s using wf.induction with
  | _ s ih =>
    cases run : turn s with
    | error e =>
      refine ⟨1, ?_⟩
      simp only [loop, run]
      rintro ⟨⟩
      exact fine s start run
    | ok result =>
      cases result with
      | inl answer =>
        refine ⟨1, ?_⟩
        simp only [loop, run]
        exact nofun
      | inr t =>
        obtain ⟨kept, less⟩ := down s t start run
        obtain ⟨fuel, ends⟩ := ih t less kept
        refine ⟨fuel + 1, ?_⟩
        simp only [loop, run]
        exact ends

/-- A turn that changes nothing is taken for ever. -/
theorem loop_stays (again : Next turn s s) (fuel : Nat) :
    loop spent turn fuel s = .error spent := by
  induction fuel with
  | zero => rfl
  | succ fuel ih =>
    unfold loop
    rw [again]
    exact ih

end StepLoop
