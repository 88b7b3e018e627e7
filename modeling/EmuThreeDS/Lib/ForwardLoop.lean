import Mathlib.Tactic.Common

/-!
# Loops that move forward

A computation with a state that also outlives its failure, and a loop whose turns say where the
next one starts. A property that nothing restores once it is lost holds in the end just if every
turn that is reached keeps it.
-/
namespace ForwardLoop

/-- A result, or the reason why there is none, and the state in both cases. -/
abbrev Op (ε σ α : Type) := ExceptT ε (StateM σ) α

variable {ε σ ρ α β : Type} {x : Op ε σ α} {f : α → Op ε σ β} {s : σ}

def outcome (x : Op ε σ α) (s : σ) : Except ε α × σ := (ExceptT.run x).run s

@[simp] theorem outcome_get : outcome (get : Op ε σ σ) s = (.ok s, s) := rfl

theorem outcome_ofExcept (e : Except ε α) :
    outcome (MonadExcept.ofExcept e : Op ε σ α) s = (e, s) := by
  cases e <;> rfl

theorem outcome_bind : outcome (x >>= f) s =
    match outcome x s with
    | (.ok a, t) => outcome (f a) t
    | (.error e, t) => (.error e, t) := by
  show outcome (ExceptT.bind x f) s = _
  have split : outcome (ExceptT.bind x f) s =
      (ExceptT.bindCont f (outcome x s).1).run (outcome x s).2 := rfl
  rw [split]
  rcases outcome x s with ⟨e | a, t⟩ <;> rfl

theorem outcome_bind_ok {a : α} {t : σ} (first : outcome x s = (.ok a, t)) :
    outcome (x >>= f) s = outcome (f a) t := by
  rw [outcome_bind, first]

theorem outcome_bind_error {e : ε} {t : σ} (first : outcome x s = (.error e, t)) :
    outcome (x >>= f) s = (.error e, t) := by
  rw [outcome_bind, first]

/-- What returns has returned in each of its parts. -/
theorem outcome_bind_eq_ok {b : β} {t : σ} : outcome (x >>= f) s = (.ok b, t) ↔
    ∃ a u, outcome x s = (.ok a, u) ∧ outcome (f a) u = (.ok b, t) := by
  rw [outcome_bind]
  rcases outcome x s with ⟨e | a, u⟩
  · simp
  · simp

def Keeps (Good : σ → Prop) (x : Op ε σ α) : Prop := ∀ s, Good s → Good (outcome x s).2

/-- The property does not come back. -/
def Lasts (Good : σ → Prop) (x : Op ε σ α) : Prop := ∀ s, Good (outcome x s).2 → Good s

variable {Good : σ → Prop}

theorem keeps_pure (a : α) : Keeps Good (pure a : Op ε σ α) := fun _ good => good

theorem keeps_throw (e : ε) : Keeps Good (throw e : Op ε σ α) := fun _ good => good

theorem keeps_ofExcept (e : Except ε α) : Keeps Good (MonadExcept.ofExcept e : Op ε σ α) := by
  intro s good
  rwa [outcome_ofExcept]

theorem keeps_bind (first : Keeps Good x) (later : ∀ a, Keeps Good (f a)) :
    Keeps Good (x >>= f) := by
  intro s good
  have kept := first s good
  rw [outcome_bind]
  generalize outcome x s = result at kept
  rcases result with ⟨e | a, t⟩
  · exact kept
  · exact later a t kept

/-- A part that neither loses nor regains the property does not matter. -/
theorem good_bind_iff (keeps : ∀ a, Keeps Good (f a)) (lasts : ∀ a, Lasts Good (f a)) :
    Good (outcome (x >>= f) s).2 ↔ Good (outcome x s).2 := by
  rw [outcome_bind]
  generalize outcome x s = result
  rcases result with ⟨e | a, t⟩
  · exact Iff.rfl
  · exact ⟨lasts a t, keeps a t⟩

section

variable {τ : Type} {view : σ → τ}

def Leaves (view : σ → τ) (x : Op ε σ α) : Prop := ∀ s, view (outcome x s).2 = view s

theorem leaves_pure (a : α) : Leaves view (pure a : Op ε σ α) := fun _ => rfl

theorem leaves_throw (e : ε) : Leaves view (throw e : Op ε σ α) := fun _ => rfl

theorem leaves_get : Leaves view (get : Op ε σ σ) := fun _ => rfl

theorem leaves_ofExcept (e : Except ε α) :
    Leaves view (MonadExcept.ofExcept e : Op ε σ α) := fun s => by
  rw [outcome_ofExcept]

variable {g : σ → σ} {c : Prop} {y : Op ε σ α}

theorem leaves_modify (same : ∀ s, view (g s) = view s) :
    Leaves view (modify g : Op ε σ PUnit) := same

theorem leaves_bind (first : Leaves view x) (later : ∀ a, Leaves view (f a)) :
    Leaves view (x >>= f) := by
  intro s
  have same := first s
  rw [outcome_bind]
  generalize outcome x s = result at same
  rcases result with ⟨e | a, t⟩
  · exact same
  · exact (later a t).trans same

theorem leaves_ite [Decidable c] (yes : Leaves view x)
    (no : Leaves view y) : Leaves view (if c then x else y) := by
  split_ifs
  · exact yes
  · exact no

theorem Leaves.map {υ : Type} (h : Leaves view x) (g : τ → υ) : Leaves (fun s => g (view s)) x :=
  fun s => congrArg g (h s)

theorem Leaves.keeps (h : Leaves view x) (Seen : τ → Prop) : Keeps (fun s => Seen (view s)) x := by
  intro s good
  rwa [h s]

end

section

variable {ι : Type} {log : σ → List ι} {P Q : ι → Prop}

/-- The computation enters only what satisfies `P`, whether it fails or not. -/
def Logs (log : σ → List ι) (P : ι → Prop) (x : Op ε σ α) : Prop :=
  ∀ s, ∃ entries, log (outcome x s).2 = entries ++ log s ∧ ∀ k ∈ entries, P k

def Enters (log : σ → List ι) (k : ι) (x : Op ε σ α) : Prop := ∀ s, k ∈ log (outcome x s).2

/-- What leaves the log alone enters nothing. -/
theorem Leaves.logs (h : Leaves log x) : Logs log P x := fun s => ⟨[], h s, nofun⟩

theorem logs_pure (a : α) : Logs log P (pure a : Op ε σ α) := (leaves_pure a).logs

theorem logs_throw (e : ε) : Logs log P (throw e : Op ε σ α) := (leaves_throw e).logs

theorem logs_get : Logs log P (get : Op ε σ σ) := leaves_get.logs

theorem logs_ofExcept (e : Except ε α) : Logs log P (MonadExcept.ofExcept e : Op ε σ α) :=
  (leaves_ofExcept e).logs

theorem logs_modify (same : ∀ s, log (g s) = log s) : Logs log P (modify g : Op ε σ PUnit) :=
  (leaves_modify same).logs

theorem logs_one {k : ι} (entered : ∀ s, log (outcome x s).2 = k :: log s) (h : P k) :
    Logs log P x :=
  fun s => ⟨[k], entered s, fun _ hk => List.mem_singleton.mp hk ▸ h⟩

theorem logs_bind (first : Logs log P x) (later : ∀ a, Logs log P (f a)) :
    Logs log P (x >>= f) := by
  intro s
  obtain ⟨entries, logged, all⟩ := first s
  rw [outcome_bind]
  generalize outcome x s = result at logged
  rcases result with ⟨e | a, t⟩
  · exact ⟨entries, logged, all⟩
  · obtain ⟨more, logged', all'⟩ := later a t
    refine ⟨more ++ entries, ?_, fun k hk => ?_⟩
    · rw [List.append_assoc, ← show log t = entries ++ log s from logged]
      exact logged'
    · rcases List.mem_append.mp hk with hk | hk
      · exact all' k hk
      · exact all k hk

theorem logs_ite [Decidable c] (yes : c → Logs log P x)
    (no : ¬ c → Logs log P y) : Logs log P (if c then x else y) := by
  split_ifs with h
  · exact yes h
  · exact no h

theorem Logs.keeps (h : Logs log P x) : Keeps (fun s => ∀ k ∈ log s, P k) x := by
  intro s good
  obtain ⟨entries, logged, all⟩ := h s
  rw [logged]
  intro k hk
  rcases List.mem_append.mp hk with hk | hk
  · exact all k hk
  · exact good k hk

theorem Logs.lasts (h : Logs log P x) : Lasts (fun s => ∀ k ∈ log s, Q k) x := by
  intro s good k hk
  obtain ⟨entries, logged, _⟩ := h s
  rw [logged] at good
  exact good k (List.mem_append_right _ hk)

theorem Logs.good_iff (h : Logs log Q x) : (∀ k ∈ log (outcome x s).2, Q k) ↔ ∀ k ∈ log s, Q k :=
  ⟨h.lasts s, h.keeps s⟩

theorem enters_bind {k : ι} (first : Enters log k x) (later : ∀ a, Logs log P (f a)) :
    Enters log k (x >>= f) := by
  intro s
  have entered := first s
  rw [outcome_bind]
  generalize outcome x s = result at entered
  rcases result with ⟨e | a, t⟩
  · exact entered
  · obtain ⟨more, logged, _⟩ := later a t
    rw [logged]
    exact List.mem_append_right _ entered

/-- What is entered satisfies `Q`, unless the one bad entry is made. -/
theorem good_log_iff (k : ι) (bad : Prop) (within : ¬ bad → Logs log Q x)
    (out : bad → Enters log k x) (any : Logs log P x) (beyond : ¬ Q k) :
    (∀ j ∈ log (outcome x s).2, Q j) ↔ (∀ j ∈ log s, Q j) ∧ ¬ bad := by
  constructor
  · intro good
    exact ⟨any.lasts s good, fun isBad => beyond (good k (out isBad s))⟩
  · rintro ⟨good, fine⟩
    exact (within fine).keeps s good

end

def Yields (R : α → Prop) (x : Op ε σ α) : Prop := ∀ s a t, outcome x s = (.ok a, t) → R a

theorem yields_pure {a : α} (h : R a) : Yields R (pure a : Op ε σ α) := by
  intro s b t run
  cases run
  exact h

theorem yields_bind {R : β → Prop} (later : ∀ a, Yields R (f a)) : Yields R (x >>= f) := by
  intro s b t run
  obtain ⟨a, u, _, run⟩ := outcome_bind_eq_ok.mp run
  exact later a u b t run

theorem yields_ite [Decidable c] (yes : Yields R x)
    (no : Yields R y) : Yields R (if c then x else y) := by
  split_ifs
  · exact yes
  · exact no

/-- A turn returns the place of the next one, or ends the loop with an answer. -/
def loop (spent : ε) (turn : Nat → Op ε σ (Except ρ Nat)) (size : Nat) :
    Nat → Nat → Op ε σ (Except ρ Unit)
  | 0, _ => throw spent
  | fuel + 1, i =>
    if i < size then do
      match ← turn i with
      | .error answer => return .error answer
      | .ok next => loop spent turn size fuel next
    else return .ok ()

/-- The loop that starts at one place and state comes to another. -/
inductive Visits (turn : Nat → Op ε σ (Except ρ Nat)) (size : Nat) : Nat → σ → Nat → σ → Prop where
  | here {i : Nat} {s : σ} : Visits turn size i s i s
  | turn {i next j : Nat} {s s' t : σ} : i < size → outcome (turn i) s = (.ok (.ok next), s') →
      Visits turn size next s' j t → Visits turn size i s j t

variable {spent : ε} {turn : Nat → Op ε σ (Except ρ Nat)} {size fuel i j : Nat} {t : σ}

def Forward (turn : Nat → Op ε σ (Except ρ Nat)) : Prop :=
  ∀ i, Yields (fun answer => ∀ next, answer = .ok next → i < next) (turn i)

theorem loop_done (h : ¬ i < size) :
    outcome (loop spent turn size (fuel + 1) i) s = (.ok (.ok ()), s) := by
  rw [loop, if_neg h]
  rfl

theorem loop_turn (h : i < size) : outcome (loop spent turn size (fuel + 1) i) s =
    match outcome (turn i) s with
    | (.ok (.ok next), s') => outcome (loop spent turn size fuel next) s'
    | (.ok (.error answer), s') => (.ok (.error answer), s')
    | (.error e, s') => (.error e, s') := by
  rw [loop, if_pos h, outcome_bind]
  rcases outcome (turn i) s with ⟨e | answer | next, s'⟩ <;> rfl

theorem keeps_loop (forward : Forward turn) (each : ∀ j, i ≤ j → Keeps Good (turn j)) :
    Keeps Good (loop spent turn size fuel i) := by
  induction fuel generalizing i with
  | zero => exact keeps_throw spent
  | succ fuel ih =>
    intro s good
    by_cases inside : i < size
    swap
    · rwa [loop_done inside]
    have next := each i (Nat.le_refl i) s good
    rw [loop_turn inside]
    cases run : outcome (turn i) s with
    | mk result s' =>
      rw [run] at next
      rcases result with e | answer | place
      · exact next
      · exact next
      · have ahead := forward i s (.ok place) s' run place rfl
        exact ih (fun j later => each j (by omega)) s' next

theorem Visits.keeps (each : ∀ i, Keeps Good (turn i)) (h : Visits turn size i s j t)
    (good : Good s) : Good t := by
  induction h with
  | here => exact good
  | @turn i _ _ s _ _ _ run _ ih =>
    have next := each i s good
    rw [run] at next
    exact ih next

/-- What holds after a turn that is reached, and is kept by every later one, holds in the end. -/
theorem Visits.final (h : Visits turn size i s j t) (forward : Forward turn) (inside : j < size)
    (later : ∀ next, (outcome (turn j) t).1 = .ok (.ok next) → ∀ k, next ≤ k → Keeps Good (turn k))
    (good : Good (outcome (turn j) t).2)
    (enough : size - i < fuel) : Good (outcome (loop spent turn size fuel i) s).2 := by
  induction h generalizing fuel with
  | @here i s =>
    cases fuel with
    | zero => exact absurd enough (Nat.not_lt_zero _)
    | succ fuel =>
      rw [loop_turn inside]
      cases run : outcome (turn i) s with
      | mk result s' =>
        rw [run] at good later
        rcases result with e | answer | next
        · exact good
        · exact good
        · exact keeps_loop forward (later next rfl) s' good
  | @turn i next j s s' t below run _ ih =>
    have ahead := forward i s (.ok next) s' run next rfl
    cases fuel with
    | zero => exact absurd enough (Nat.not_lt_zero _)
    | succ fuel =>
      rw [loop_turn below, run]
      exact ih inside later good (by omega)

variable (Good) in
/-- With enough fuel: where each turn loses a property just if something is bad about its place
and state, the property holds in the end just if no turn that the loop comes to is bad. -/
theorem loop_good_iff (Bad : Nat → σ → Prop) (forward : Forward turn)
    (each : ∀ i s, i < size → (Good (outcome (turn i) s).2 ↔ Good s ∧ ¬ Bad i s))
    (enough : size - i < fuel) : Good (outcome (loop spent turn size fuel i) s).2 ↔
      Good s ∧ ∀ j t, Visits turn size i s j t → j < size → ¬ Bad j t := by
  induction fuel generalizing i s with
  | zero => exact absurd enough (Nat.not_lt_zero _)
  | succ fuel ih =>
    by_cases inside : i < size
    swap
    · rw [loop_done inside]
      refine ⟨fun good => ⟨good, fun j t visits below => ?_⟩, And.left⟩
      cases visits with
      | here => exact absurd below inside
      | turn below' => exact absurd below' inside
    have first := each i s inside
    rw [loop_turn inside]
    cases run : outcome (turn i) s with
    | mk result s' =>
      rw [run] at first
      have last : (∀ next, result ≠ .ok (.ok next)) → (Good s' ↔ Good s ∧
          ∀ j t, Visits turn size i s j t → j < size → ¬ Bad j t) := by
        intro ends
        rw [first]
        refine and_congr_right fun _ => ⟨fun fine j t visits _ => ?_, fun all =>
          all i s .here inside⟩
        cases visits with
        | here => exact fine
        | turn _ run' _ =>
          cases run.symm.trans run'
          exact absurd rfl (ends _)
      cases result with
      | error e => exact last nofun
      | ok answer =>
        cases answer with
        | error answer => exact last nofun
        | ok next =>
          have ahead := forward i s (.ok next) s' run next rfl
          dsimp only
          rw [ih (by omega), first, and_assoc]
          refine and_congr_right fun _ => ⟨?_, fun all => ⟨all i s .here inside, ?_⟩⟩
          · rintro ⟨fine, all⟩ j t visits below
            cases visits with
            | here => exact fine
            | turn _ run' later =>
              cases run.symm.trans run'
              exact all j t later below
          · exact fun j t visits => all j t (.turn inside run visits)

end ForwardLoop
