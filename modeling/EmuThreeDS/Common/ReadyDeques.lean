import EmuThreeDS.Common.ThreadQueueList
import EmuThreeDS.Lib.Queues
import EmuThreeDS.Lib.LinkedLists

/-!
# The queue list as a family of deques

What the queue list is for: a deque for each priority, read from the lowest priority that
has an element. The chain through the prepared queues is what finds that priority; the
invariant is that it visits just the prepared queues, in order.
-/
namespace EmuThreeDS

structure Levels (T : Type) where
  prepared : Finset Nat := ∅
  deques : Deques Nat T := fun _ => []

namespace ThreadQueueList

variable {T : Type} {N : Nat}

inductive Op (T : Type) where
  | prepare (priority : Nat)
  | pushBack (priority : Nat) (x : T)
  | pushFront (priority : Nat) (x : T)
  | getFirst
  | popFirst
  | popFirstBetter (priority : Nat)
  | move (x : T) (oldPriority newPriority : Nat)
  | remove (priority : Nat) (x : T)
  | rotate (priority : Nat)

/-- An operation returns what it found; `none` is the `T()` of a search that finds nothing. -/
def Op.run [DecidableEq T] (q : ThreadQueueList T N) : Op T → Exec (Option T × ThreadQueueList T N)
  | .prepare priority => return (none, q.prepare priority)
  | .pushBack priority x => return (none, q.pushBack priority x)
  | .pushFront priority x => return (none, q.pushFront priority x)
  | .getFirst => do return (← q.getFirst, q)
  | .popFirst => q.popFirst
  | .popFirstBetter priority => q.popFirstBetter priority
  | .move x oldPriority newPriority => return (none, q.move x oldPriority newPriority)
  | .remove priority x => return (none, q.remove priority x)
  | .rotate priority => return (none, q.rotate priority)

def Op.runAll [DecidableEq T] (q : ThreadQueueList T N) :
    List (Op T) → Exec (List (Option T) × ThreadQueueList T N)
  | [] => return ([], q)
  | op :: rest => do
      let (out, q) ← op.run q
      let (outs, q) ← Op.runAll q rest
      return (out :: outs, q)

/-- The use the queue list is made for: priorities within bounds, elements pushed to prepared
priorities only, and a prepared priority as the limit of `pop_first_better`. -/
def Op.Legal (N : Nat) (prepared : Finset Nat) : Op T → Prop
  | .prepare priority => priority < N
  | .pushBack priority _ | .pushFront priority _ | .popFirstBetter priority =>
    priority ∈ prepared
  | .getFirst | .popFirst => True
  | .move _ oldPriority newPriority => oldPriority < N ∧ newPriority < N
  | .remove priority _ | .rotate priority => priority < N

def Op.prepares (prepared : Finset Nat) : Op T → Finset Nat
  | .prepare priority | .move _ _ priority => insert priority prepared
  | _ => prepared

def Op.LegalAll (N : Nat) : Finset Nat → List (Op T) → Prop
  | _, [] => True
  | prepared, op :: rest => op.Legal N prepared ∧ LegalAll N (op.prepares prepared) rest

/-- The front of the family below a limit is returned, and taken if it is a pop. -/
def Op.Finds (s : Levels T) (out : Option T) (s' : Levels T) (below : Nat → Prop)
    (pops : Bool) : Prop :=
  ∃ found, Deques.Front s.deques below found ∧ out = found.map (fun f => f.2.1) ∧
    s' = if pops then { s with deques := s.deques.take found } else s

def Op.Does [DecidableEq T] (s : Levels T) (out : Option T) (s' : Levels T) : Op T → Prop
  | .prepare priority => out = none ∧ s' = { s with prepared := insert priority s.prepared }
  | .pushBack priority x =>
    out = none ∧ s' = { s with deques := s.deques.pushBack priority x }
  | .pushFront priority x =>
    out = none ∧ s' = { s with deques := s.deques.pushFront priority x }
  | .getFirst => Op.Finds s out s' (fun _ => True) false
  | .popFirst => Op.Finds s out s' (fun _ => True) true
  | .popFirstBetter priority => Op.Finds s out s' (· < priority) true
  | .move x oldPriority newPriority =>
    out = none ∧ s' =
      { prepared := insert newPriority s.prepared
        deques := (s.deques.remove oldPriority x).pushBack newPriority x }
  | .remove priority x => out = none ∧ s' = { s with deques := s.deques.remove priority x }
  | .rotate priority => out = none ∧ s' = { s with deques := s.deques.rotate priority }

inductive Op.DoesAll [DecidableEq T] : Levels T → List (Op T) → List (Option T) → Levels T → Prop
    where
  | nil {s : Levels T} : Op.DoesAll s [] [] s
  | cons {s s' s'' : Levels T} {op : Op T} {rest : List (Op T)} {out : Option T}
      {outs : List (Option T)} : op.Does s out s' → Op.DoesAll s' rest outs s'' →
      Op.DoesAll s (op :: rest) (out :: outs) s''

def Op.arrivals [DecidableEq T] (x : T) : Op T → Nat
  | .pushBack _ y | .pushFront _ y | .move y _ _ => if y = x then 1 else 0
  | _ => 0

/-- How many copies of an element an operation hands out or is asked to remove. -/
def Op.departures [DecidableEq T] (s : Levels T) (out : Option T) (x : T) : Op T → Nat
  | .popFirst | .popFirstBetter _ => if out = some x then 1 else 0
  | .move y priority _ | .remove priority y =>
    if y = x then (s.deques priority).count x else 0
  | _ => 0

def next (q : ThreadQueueList T N) (priority : Nat) : QueuePtr := (q.queues priority).nextNonempty

abbrev Chain (q : ThreadQueueList T N) : QueuePtr → List Nat → Prop :=
  LinkedChain.Visits .queue .null q.next

structure Refines (q : ThreadQueueList T N) (s : Levels T) : Prop where
  deques : q.data = s.deques
  chain : ∃ l, q.Chain q.first l ∧ l.Pairwise (· < ·) ∧ ∀ p, p ∈ l ↔ p ∈ s.prepared
  linked : ∀ p, q.next p ≠ .unlinked ↔ p ∈ s.prepared
  bounded : ∀ p ∈ s.prepared, p < N
  occupied : ∀ p, s.deques p ≠ [] → p ∈ s.prepared

section

variable {q : ThreadQueueList T N} {s : Levels T} {start : QueuePtr} {l : List Nat} {p i : Nat}
  {stop : Option Nat}

/-- The walk along the chain meets the lowest nonempty queue below the limit. A limit that is
in the chain ends the walk before the null. -/
theorem findNonempty_chain {fuel : Nat} (chain : q.Chain start l) (sorted : l.Pairwise (· < ·))
    (known : ∀ limit, stop = some limit → limit ∈ l) (enough : l.length < fuel) :
    ∃ found, q.findNonempty stop fuel start = .ok found ∧
      Deques.Front q.data (fun p => p ∈ l ∧ ∀ limit, stop = some limit → p < limit) found := by
  induction l generalizing start fuel with
  | nil =>
    cases fuel with
    | zero => cases enough
    | succ fuel =>
      have atEnd : start = .null := chain
      subst atEnd
      cases stop with
      | some limit => cases known limit rfl
      | none =>
        refine ⟨none, rfl, .nothing ?_⟩
        rintro p ⟨inside, _⟩
        cases inside
  | cons p rest ih =>
    cases fuel with
    | zero => cases enough
    | succ fuel =>
      obtain ⟨rfl, chain⟩ := chain
      obtain ⟨above, sorted⟩ := List.pairwise_cons.mp sorted
      unfold findNonempty
      split_ifs with stopped
      · refine ⟨none, rfl, .nothing ?_⟩
        obtain ⟨limit, rfl, reached⟩ := Option.any_eq_true .. |>.mp stopped
        have reached : limit ≤ p := of_decide_eq_true reached
        rintro other ⟨inside, under⟩
        have under := under limit rfl
        rcases List.mem_cons.mp inside with rfl | later
        · omega
        · have := above other later
          omega
      · have under : ∀ limit, stop = some limit → p < limit := by
          rintro limit rfl
          simpa using stopped
        cases front : q.data p with
        | cons x tail =>
          refine ⟨some (p, x, tail), rfl, .lowest ⟨List.mem_cons_self .., under⟩ front ?_⟩
          rintro other ⟨inside, _⟩ lower
          rcases List.mem_cons.mp inside with rfl | later
          · omega
          · have := above other later
            omega
        | nil =>
          have known : ∀ limit, stop = some limit → limit ∈ rest := by
            intro limit isStop
            rcases List.mem_cons.mp (known limit isStop) with rfl | later
            · exact absurd (under _ isStop) (lt_irrefl _)
            · exact later
          obtain ⟨found, run, first⟩ := ih chain sorted known (Nat.lt_of_succ_lt_succ enough)
          refine ⟨found, run, ?_⟩
          cases first with
          | nothing empty =>
            apply Deques.Front.nothing
            rintro other ⟨inside, lower⟩
            rcases List.mem_cons.mp inside with rfl | later
            · exact front
            · exact empty other ⟨later, lower⟩
          | lowest inside head first =>
            apply Deques.Front.lowest ⟨List.mem_cons_of_mem _ inside.1, inside.2⟩ head
            rintro other ⟨member, lower⟩ before
            rcases List.mem_cons.mp member with rfl | later
            · exact front
            · exact first other ⟨later, lower⟩ before

theorem Refines.length_le (h : Refines q s) (sorted : l.Pairwise (· < ·))
    (same : ∀ p, p ∈ l ↔ p ∈ s.prepared) : l.length < N + 1 := by
  have inside : l ⊆ List.range N := fun p inside =>
    List.mem_range.mpr (h.bounded p ((same p).mp inside))
  have distinct : l.Nodup := sorted.imp Nat.ne_of_lt
  have := (distinct.subperm inside).length_le
  rw [List.length_range] at this
  omega

theorem Refines.find (h : Refines q s) (known : ∀ limit, stop = some limit → limit ∈ s.prepared) :
    ∃ found, q.findNonempty stop (N + 1) q.first = .ok found ∧
      Deques.Front s.deques (fun p => ∀ limit, stop = some limit → p < limit) found := by
  obtain ⟨l, chain, sorted, same⟩ := h.chain
  obtain ⟨found, run, front⟩ := findNonempty_chain chain sorted
    (fun limit isStop => (same limit).mpr (known limit isStop)) (h.length_le sorted same)
  rw [h.deques] at front
  refine ⟨found, run, ?_⟩
  have unprepared : ∀ p, p ∉ l → s.deques p = [] := by
    intro p outside
    by_contra occupied
    exact outside ((same p).mpr (h.occupied p occupied))
  cases front with
  | nothing empty =>
    apply Deques.Front.nothing
    intro p under
    by_cases inside : p ∈ l
    · exact empty p ⟨inside, under⟩
    · exact unprepared p inside
  | lowest inside head first =>
    apply Deques.Front.lowest inside.2 head
    intro p under lower
    by_cases member : p ∈ l
    · exact first p ⟨member, under⟩ lower
    · exact unprepared p member

theorem linkedBelow_none (h : q.linkedBelow p = none) : ∀ i, i < p → q.next i = .unlinked := by
  induction p with
  | zero => exact fun i below => absurd below (Nat.not_lt_zero i)
  | succ p ih =>
    unfold linkedBelow at h
    split_ifs at h with used
    intro i below
    rcases Nat.lt_succ_iff_lt_or_eq.mp below with lower | rfl
    · exact ih h i lower
    · exact not_not.mp used

theorem linkedBelow_some (h : q.linkedBelow p = some i) :
    i < p ∧ q.next i ≠ .unlinked ∧ ∀ j, i < j → j < p → q.next j = .unlinked := by
  induction p with
  | zero => cases h
  | succ p ih =>
    unfold linkedBelow at h
    split_ifs at h with used
    · cases h
      refine ⟨Nat.lt_succ_self _, used, ?_⟩
      omega
    · obtain ⟨below, isUsed, between⟩ := ih h
      refine ⟨Nat.lt_succ_of_lt below, isUsed, ?_⟩
      intro j above under
      rcases Nat.lt_succ_iff_lt_or_eq.mp under with lower | rfl
      · exact between j above lower
      · exact not_not.mp used

theorem next_setNext {priority : Nat} (ptr : QueuePtr) :
    (q.setNext priority ptr).next = Function.update q.next priority ptr := by
  funext p
  unfold next setNext
  simp only [Function.update_apply]
  split_ifs <;> rfl

@[simp] theorem next_setData {priority : Nat} (data : List T) :
    (q.setData priority data).next = q.next := by
  funext p
  unfold next setData
  simp only [Function.update_apply]
  split_ifs with same
  · rw [same]
  · rfl

theorem data_setData_eq {priority : Nat} (data : List T) :
    (q.setData priority data).data = Function.update q.data priority data := by
  funext p
  rw [data_setData, Function.update_apply]

theorem data_link (unused : q.next p = .unlinked) : (q.link p).data = q.data := by
  funext i
  have prepared : (q.prepare p).data i = q.data i := data_prepare
  unfold prepare at prepared
  have empty : (q.queues p).nextNonempty = .unlinked := unused
  rwa [if_pos empty] at prepared

theorem sorted_insert {before after : List Nat} (sorted : (before ++ i :: after).Pairwise (· < ·))
    (below : i < p) (above : ∀ j ∈ after, p < j) :
    (before ++ i :: p :: after).Pairwise (· < ·) := by
  obtain ⟨left, right, across⟩ := List.pairwise_append.mp sorted
  obtain ⟨next, rest⟩ := List.pairwise_cons.mp right
  refine List.pairwise_append.mpr ⟨left, ?_, ?_⟩
  · refine List.pairwise_cons.mpr ⟨?_, List.pairwise_cons.mpr ⟨above, rest⟩⟩
    intro j member
    rcases List.mem_cons.mp member with rfl | later
    · exact below
    · exact next j later
  · intro a first b second
    have underI : a < i := across a first i (List.mem_cons_self ..)
    rcases List.mem_cons.mp second with rfl | second
    · exact underI
    rcases List.mem_cons.mp second with rfl | later
    · omega
    · exact across a first b (List.mem_cons_of_mem _ later)

/-- One more queue in the chain, with the same elements. -/
theorem Refines.grow (h : Refines q s) (bound : p < N) {q' : ThreadQueueList T N} (l' : List Nat)
    (data : q'.data = q.data) (chain : q'.Chain q'.first l') (sorted : l'.Pairwise (· < ·))
    (members : ∀ i, i ∈ l' ↔ i = p ∨ i ∈ s.prepared)
    (linked : ∀ i, q'.next i ≠ .unlinked ↔ i = p ∨ i ∈ s.prepared) :
    Refines q' { s with prepared := insert p s.prepared } := by
  refine ⟨data.trans h.deques, ⟨l', chain, sorted, fun i => ?_⟩, fun i => ?_, ?_, fun i full => ?_⟩
  · rw [members, Finset.mem_insert]
  · rw [linked, Finset.mem_insert]
  · intro i inside
    rcases Finset.mem_insert.mp inside with rfl | old
    · exact bound
    · exact h.bounded i old
  · exact Finset.mem_insert_of_mem (h.occupied i full)

/-- The first queue of the chain. -/
theorem Refines.link_first (h : Refines q s) (bound : p < N) (unused : q.next p = .unlinked)
    (near : q.linkedBelow p = none) :
    Refines (q.link p) { s with prepared := insert p s.prepared } := by
  obtain ⟨l, chain, sorted, same⟩ := h.chain
  have fresh : p ∉ l := fun inside => (h.linked p).mpr ((same p).mp inside) unused
  have unlinked := linkedBelow_none near
  have data := data_link unused
  unfold ThreadQueueList.link at data ⊢
  rw [near] at data ⊢
  refine h.grow bound (p :: l) data ?_ ?_ ?_ ?_
  · change LinkedChain.Visits _ _ (q.setNext p q.first).next _ _
    rw [next_setNext]
    exact chain.push fresh
  · refine List.pairwise_cons.mpr ⟨?_, sorted⟩
    intro i inside
    by_contra below
    have lower : i < p := lt_of_le_of_ne (not_lt.mp below) fun eq => fresh (eq ▸ inside)
    exact (h.linked i).mpr ((same i).mp inside) (unlinked i lower)
  · intro i
    rw [List.mem_cons, same]
  · intro i
    change (q.setNext p q.first).next i ≠ .unlinked ↔ _
    rw [next_setNext]
    by_cases new : i = p
    · subst new
      rw [Function.update_self]
      refine ⟨fun _ => Or.inl rfl, fun _ => ?_⟩
      cases l with
      | nil =>
        rw [show q.first = .null from chain]
        exact QueuePtr.noConfusion
      | cons j rest =>
        rw [show q.first = .queue j from chain.1]
        exact QueuePtr.noConfusion
    · rw [Function.update_of_ne new, h.linked]
      exact ⟨Or.inr, fun either => either.resolve_left new⟩

/-- A queue behind the nearest one below it. -/
theorem Refines.link_behind (h : Refines q s) (bound : p < N) (unused : q.next p = .unlinked)
    (near : q.linkedBelow p = some i) :
    Refines (q.link p) { s with prepared := insert p s.prepared } := by
  obtain ⟨l, chain, sorted, same⟩ := h.chain
  have fresh : p ∉ l := fun inside => (h.linked p).mpr ((same p).mp inside) unused
  obtain ⟨below, used, between⟩ := linkedBelow_some near
  have data := data_link unused
  unfold ThreadQueueList.link at data ⊢
  rw [near] at data ⊢
  obtain ⟨before, after, rfl⟩ := List.append_of_mem ((same i).mpr ((h.linked i).mp used))
  have sortedAfter : ∀ j ∈ after, p < j := by
    intro j later
    have above : i < j :=
      (List.pairwise_cons.mp (List.pairwise_append.mp sorted).2.1).1 j later
    have member : j ∈ before ++ i :: after :=
      List.mem_append_right _ (List.mem_cons_of_mem _ later)
    by_contra notAbove
    have lower : j < p := lt_of_le_of_ne (not_lt.mp notAbove) fun eq => fresh (eq ▸ member)
    exact (h.linked j).mpr ((same j).mp member) (between j above lower)
  refine h.grow bound (before ++ i :: p :: after) data ?_
    (sorted_insert sorted below sortedAfter) ?_ ?_
  · change LinkedChain.Visits _ _ ((q.setNext p (q.next i)).setNext i (.queue p)).next _ _
    rw [next_setNext, next_setNext]
    exact chain.insert (sorted.imp Nat.ne_of_lt) fresh
  · intro j
    rw [← same j]
    simp only [List.mem_append, List.mem_cons]
    tauto
  · intro j
    change ((q.setNext p (q.next i)).setNext i (.queue p)).next j ≠ .unlinked ↔ _
    rw [next_setNext, next_setNext]
    by_cases isNear : j = i
    · subst isNear
      rw [Function.update_self]
      exact ⟨fun _ => Or.inr ((h.linked j).mp used), fun _ => QueuePtr.noConfusion⟩
    · rw [Function.update_of_ne isNear]
      by_cases new : j = p
      · subst new
        rw [Function.update_self]
        exact ⟨fun _ => Or.inl rfl, fun _ => used⟩
      · rw [Function.update_of_ne new, h.linked]
        exact ⟨Or.inr, fun either => either.resolve_left new⟩

theorem Refines.link (h : Refines q s) (bound : p < N) (unused : q.next p = .unlinked) :
    Refines (q.link p) { s with prepared := insert p s.prepared } := by
  cases near : q.linkedBelow p with
  | none => exact h.link_first bound unused near
  | some i => exact h.link_behind bound unused near

theorem Refines.prepare (h : Refines q s) (bound : p < N) :
    Refines (q.prepare p) { s with prepared := insert p s.prepared } := by
  unfold ThreadQueueList.prepare
  split_ifs with unused
  · exact h.link bound unused
  · rw [Finset.insert_eq_of_mem ((h.linked p).mp unused)]
    exact h

theorem Refines.setData (h : Refines q s) {data : List T} (prepared : data ≠ [] → p ∈ s.prepared) :
    Refines (q.setData p data) { s with deques := Function.update s.deques p data } where
  deques := by rw [data_setData_eq, h.deques]
  chain := by
    obtain ⟨l, chain, rest⟩ := h.chain
    refine ⟨l, ?_, rest⟩
    unfold Chain
    rw [next_setData]
    exact chain
  linked := by
    intro i
    rw [next_setData]
    exact h.linked i
  bounded := h.bounded
  occupied := by
    intro i full
    dsimp only at full
    by_cases same : i = p
    · subst same
      rw [Function.update_self] at full
      exact prepared full
    · rw [Function.update_of_ne same] at full
      exact h.occupied i full

end

section

variable {q : ThreadQueueList T N} {s : Levels T} {p : Nat} {x : T}

theorem refines_empty : Refines ({} : ThreadQueueList T N) {} where
  deques := rfl
  chain := ⟨[], rfl, .nil, fun p => by simp⟩
  linked := fun p => by
    change QueuePtr.unlinked ≠ .unlinked ↔ _
    simp
  bounded := fun p none => absurd none (Finset.notMem_empty p)
  occupied := fun p full => absurd rfl full

theorem Refines.pushBack (h : Refines q s) (prepared : p ∈ s.prepared) :
    Refines (q.pushBack p x) { s with deques := s.deques.pushBack p x } := by
  unfold Deques.pushBack
  rw [← congrFun h.deques p]
  exact h.setData fun _ => prepared

theorem Refines.pushFront (h : Refines q s) (prepared : p ∈ s.prepared) :
    Refines (q.pushFront p x) { s with deques := s.deques.pushFront p x } := by
  unfold Deques.pushFront
  rw [← congrFun h.deques p]
  exact h.setData fun _ => prepared

theorem Refines.rotate (h : Refines q s) :
    Refines (q.rotate p) { s with deques := s.deques.rotate p } := by
  unfold ThreadQueueList.rotate Deques.rotate
  rw [← congrFun h.deques p]
  split
  · next x y rest long =>
      rw [long]
      apply h.setData
      intro _
      apply h.occupied
      rw [← congrFun h.deques p, long]
      exact List.cons_ne_nil _ _
  · next short =>
      have same : (q.data p).tail ++ (q.data p).head?.toList = s.deques p := by
        rw [← congrFun h.deques p]
        match found : q.data p with
        | [] => rfl
        | [x] => rfl
        | x :: y :: rest => exact absurd found (short x y rest)
      rw [same, Function.update_eq_self]
      exact h

theorem Refines.pop (h : Refines q s) {stop : Option Nat}
    (known : ∀ limit, stop = some limit → limit ∈ s.prepared) :
    ∃ out q' s', q.pop stop = .ok (out, q') ∧
      Op.Finds s out s' (fun p => ∀ limit, stop = some limit → p < limit) true ∧
      Refines q' s' ∧ s'.prepared = s.prepared := by
  obtain ⟨found, run, front⟩ := h.find known
  unfold ThreadQueueList.pop
  rw [run]
  cases found with
  | none => exact ⟨none, q, s, rfl, ⟨none, front, rfl, rfl⟩, h, rfl⟩
  | some found =>
    obtain ⟨p, x, rest⟩ := found
    refine ⟨some x, q.setData p rest, _, rfl, ⟨_, front, rfl, rfl⟩, ?_, rfl⟩
    apply h.setData
    intro _
    apply h.occupied
    cases front with
    | lowest _ head _ =>
      rw [head]
      exact List.cons_ne_nil _ _

variable [DecidableEq T]

theorem Refines.remove (h : Refines q s) :
    Refines (q.remove p x) { s with deques := s.deques.remove p x } := by
  unfold Deques.remove
  rw [← congrFun h.deques p]
  apply h.setData
  intro full
  apply h.occupied
  rw [← congrFun h.deques p]
  rintro empty
  rw [empty] at full
  exact full rfl

theorem Refines.step (h : Refines q s) (op : Op T) (legal : op.Legal N s.prepared) :
    ∃ out q' s', op.run q = .ok (out, q') ∧ op.Does s out s' ∧ Refines q' s' ∧
      s'.prepared = op.prepares s.prepared := by
  cases op with
  | prepare p => exact ⟨none, _, _, rfl, ⟨rfl, rfl⟩, h.prepare legal, rfl⟩
  | pushBack p x => exact ⟨none, _, _, rfl, ⟨rfl, rfl⟩, h.pushBack legal, rfl⟩
  | pushFront p x => exact ⟨none, _, _, rfl, ⟨rfl, rfl⟩, h.pushFront legal, rfl⟩
  | getFirst =>
    obtain ⟨found, run, front⟩ := @Refines.find _ _ _ _ none h nofun
    refine ⟨found.map fun f => f.2.1, q, s, ?_, ⟨found, ?_, rfl, rfl⟩, h, rfl⟩
    · unfold Op.run getFirst
      rw [run]
      rfl
    · simpa using front
  | popFirst =>
    obtain ⟨out, q', s', run, ⟨found, front, rest⟩, refines, same⟩ :=
      @Refines.pop _ _ _ _ h none nofun
    refine ⟨out, q', s', run, ⟨found, ?_, rest⟩, refines, same⟩
    simpa using front
  | popFirstBetter p =>
    have known : ∀ limit, some p = some limit → limit ∈ s.prepared := by
      rintro _ ⟨⟩
      exact legal
    obtain ⟨out, q', s', run, ⟨found, front, rest⟩, refines, same⟩ := h.pop known
    refine ⟨out, q', s', run, ⟨found, ?_, rest⟩, refines, same⟩
    simpa using front
  | move x old new =>
    have prepared := (h.remove (p := old) (x := x)).prepare legal.2
    exact ⟨none, _, _, rfl, ⟨rfl, rfl⟩, prepared.pushBack (Finset.mem_insert_self ..), rfl⟩
  | remove p x => exact ⟨none, _, _, rfl, ⟨rfl, rfl⟩, h.remove, rfl⟩
  | rotate p => exact ⟨none, _, _, rfl, ⟨rfl, rfl⟩, h.rotate, rfl⟩

theorem Refines.conserves (h : Refines q s) {op : Op T} {out : Option T} {s' : Levels T}
    (legal : op.Legal N s.prepared) (does : op.Does s out s') (x : T) :
    s'.deques.held (Finset.range N) x + op.departures s out x =
      s.deques.held (Finset.range N) x + op.arrivals x := by
  have inside : ∀ p ∈ s.prepared, p ∈ Finset.range N := fun p prepared =>
    Finset.mem_range.mpr (h.bounded p prepared)
  have occupied : ∀ p, s.deques p ≠ [] → p ∈ Finset.range N := fun p full =>
    inside p (h.occupied p full)
  have taken : ∀ below, Op.Finds s out s' below true →
      s'.deques.held (Finset.range N) x + (if out = some x then 1 else 0) =
        s.deques.held (Finset.range N) x := by
    rintro below ⟨found, front, rfl, rfl⟩
    exact Deques.held_take front fun p _ => occupied p
  cases op with
  | prepare p =>
    obtain ⟨_, rfl⟩ := does
    rfl
  | pushBack p y =>
    obtain ⟨_, rfl⟩ := does
    exact Deques.held_pushBack (inside p legal)
  | pushFront p y =>
    obtain ⟨_, rfl⟩ := does
    exact Deques.held_pushFront (inside p legal)
  | getFirst =>
    obtain ⟨found, _, _, rfl⟩ := does
    rfl
  | popFirst | popFirstBetter p => exact taken _ does
  | move y old new =>
    obtain ⟨_, rfl⟩ := does
    have gone := Deques.held_remove (d := s.deques) (x := x) (y := y)
      (Finset.mem_range.mpr legal.1)
    have back := Deques.held_pushBack (d := s.deques.remove old y) (x := x) (y := y)
      (Finset.mem_range.mpr legal.2)
    simp only [Op.departures, Op.arrivals]
    omega
  | remove p y =>
    obtain ⟨_, rfl⟩ := does
    exact Deques.held_remove (Finset.mem_range.mpr legal)
  | rotate p =>
    obtain ⟨_, rfl⟩ := does
    exact Deques.held_rotate (Finset.mem_range.mpr legal)

theorem Refines.run (h : Refines q s) {ops : List (Op T)} (legal : Op.LegalAll N s.prepared ops) :
    ∃ outs q' s', Op.runAll q ops = .ok (outs, q') ∧ Op.DoesAll s ops outs s' ∧ Refines q' s' := by
  induction ops generalizing q s with
  | nil => exact ⟨[], q, s, rfl, .nil, h⟩
  | cons op rest ih =>
    obtain ⟨first, later⟩ := legal
    obtain ⟨out, q', s', run, does, refines, prepared⟩ := h.step op first
    rw [← prepared] at later
    obtain ⟨outs, q'', s'', runs, doesAll, refines⟩ := ih refines later
    refine ⟨out :: outs, q'', s'', ?_, .cons does doesAll, refines⟩
    unfold Op.runAll
    rw [run, ok_bind]
    dsimp only
    rw [runs]
    rfl

/-- The queue list refines the family of deques: after any legal operations it holds the same
deques and its chain visits just the prepared queues in order, and each further operation
returns, does what it means for the deques, and neither loses nor duplicates an element. -/
theorem refines_deques (ops : List (Op T)) (legal : Op.LegalAll N ∅ ops) :
    ∃ outs s, ∃ q : ThreadQueueList T N, Op.runAll {} ops = .ok (outs, q) ∧
      Op.DoesAll {} ops outs s ∧ Refines q s ∧
      ∀ op : Op T, op.Legal N s.prepared → ∃ out q' s', op.run q = .ok (out, q') ∧
        op.Does s out s' ∧ Refines q' s' ∧ ∀ x,
          s'.deques.held (Finset.range N) x + op.departures s out x =
            s.deques.held (Finset.range N) x + op.arrivals x := by
  obtain ⟨outs, q, s, run, does, refines⟩ := refines_empty.run legal
  refine ⟨outs, s, q, run, does, refines, ?_⟩
  intro op legal
  obtain ⟨out, q', s', run, does, next, _⟩ := refines.step op legal
  exact ⟨out, q', s', run, does, next, refines.conserves legal does⟩

theorem refines_deques_popped :
    ∃ outs s, ∃ q : ThreadQueueList Nat 64,
      Op.runAll {} [.prepare 5, .pushBack 5 7, .prepare 3, .popFirstBetter 5, .popFirst] =
        .ok (outs, q) ∧ outs = [none, none, none, none, some 7] ∧ Refines q s := by
  obtain ⟨outs, s, q, run, _, refines, _⟩ := refines_deques (N := 64)
    [.prepare 5, .pushBack 5 7, .prepare 3, .popFirstBetter 5, .popFirst]
    (by simp [Op.LegalAll, Op.Legal, Op.prepares])
  refine ⟨outs, s, q, run, ?_, refines⟩
  cases run
  rfl

end

end ThreadQueueList
end EmuThreeDS
