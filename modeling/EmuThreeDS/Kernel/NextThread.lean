import EmuThreeDS.Common.ReadyDeques
import EmuThreeDS.Kernel.Scheduler
import Mathlib.Algebra.Order.BigOperators.Group.List
import Mathlib.Algebra.Order.Group.Nat

/-!
# The thread that is scheduled next

`PopNextReadyThread` pops until a thread may be scheduled. What it set aside goes back to the
level it came from.
-/
namespace EmuThreeDS.Kernel

open ThreadQueueList
open scoped List

variable {k : Kernel} {core : Nat} {queue : KernelQueue} {s : Levels ThreadId}
  {stop : Option Nat} {t u : ThreadId} {p : Nat}

def readyAt (k : Kernel) (core priority : Nat) : List ThreadId :=
  (k.manager core).readyQueue.data priority

def firstSchedulable (k : Kernel) (threads : List ThreadId) : Option ThreadId :=
  threads.find? fun t => (k.thread t).canSchedule

def bestReady (k : Kernel) (core limit : Nat) : Option ThreadId :=
  (List.range limit).findSome? fun priority => k.firstSchedulable (k.readyAt core priority)

def runningOn (k : Kernel) (core : Nat) : Option ThreadId :=
  (k.manager core).currentThread.filter fun t => (k.thread t).status = .running

def preemptionLimit (k : Kernel) (core : Nat) : Nat :=
  match k.runningOn core with
  | some t => (k.thread t).currentPriority
  | none => threadPrioLowest + 1

def chosen (k : Kernel) (core : Nat) : Option ThreadId :=
  (k.bestReady core (k.preemptionLimit core)).or (k.runningOn core)

theorem findSome?_range {α : Type} {f : Nat → Option α} {n : Nat} {x : α} (inside : p < n)
    (found : f p = some x) (first : ∀ i, i < p → f i = none) :
    (List.range n).findSome? f = some x := by
  induction n with
  | zero => cases inside
  | succ n ih =>
    rw [List.range_succ, List.findSome?_append]
    rcases Nat.lt_succ_iff_lt_or_eq.mp inside with before | rfl
    · rw [ih before]
      rfl
    · have nothing : (List.range p).findSome? f = none := by
        rw [List.findSome?_eq_none_iff]
        exact fun i below => first i (List.mem_range.mp below)
      rw [nothing]
      simp [found]

def Aligned (k : Kernel) (s : Levels ThreadId) : Prop :=
  ∀ p, ∀ u ∈ s.deques p, (k.thread u).currentPriority = p

def ofPriority (k : Kernel) (p : Nat) (threads : List ThreadId) : List ThreadId :=
  threads.filter fun u => (k.thread u).currentPriority = p

/-- The loop took some threads in turn, all from the front and none but the last schedulable. -/
structure Popped (k : Kernel) (stop : Option Nat) (s : Levels ThreadId) (skipped : List ThreadId)
    (out : Option ThreadId) (s' : Levels ThreadId) : Prop where
  prepared : s'.prepared = s.prepared
  split : ∀ p, s.deques p = k.ofPriority p (skipped ++ out.toList) ++ s'.deques p
  skipped : ∀ u ∈ skipped, (k.thread u).canSchedule = false
  fits : ∀ t, out = some t → (k.thread t).canSchedule = true ∧
    ∀ limit, stop = some limit → (k.thread t).currentPriority < limit
  first : ∀ p, (∀ limit, stop = some limit → p < limit) →
    (∀ t, out = some t → p < (k.thread t).currentPriority) → s'.deques p = []

variable {s' : Levels ThreadId} {x : ThreadId} {rest threads skipped : List ThreadId}
  {out : Option ThreadId}

theorem queued_pop {queue' : KernelQueue} (h : Refines queue s) (h' : Refines queue' s')
    (front : s.deques p = x :: rest) (taken : s'.deques = Function.update s.deques p rest) :
    queued queue' < queued queue := by
  have inside : p < threadPrioLowest + 1 := by
    apply h.bounded
    apply h.occupied
    rw [front]
    exact List.cons_ne_nil _ _
  unfold queued
  rw [h.deques, h'.deques, taken]
  apply List.sum_lt_sum
  · intro i _
    by_cases same : i = p
    · subst same
      rw [Function.update_self, front, List.length_cons]
      omega
    · rw [Function.update_of_ne same]
  · refine ⟨p, List.mem_range.mpr inside, ?_⟩
    rw [Function.update_self, front, List.length_cons]
    omega

def behead (s : Levels ThreadId) (p : Nat) (rest : List ThreadId) : Levels ThreadId :=
  { s with deques := Function.update s.deques p rest }

theorem deque_front (front : s.deques p = x :: rest)
    (level : (k.thread x).currentPriority = p) (i : Nat) :
    s.deques i = k.ofPriority i [x] ++ (behead s p rest).deques i := by
  unfold behead ofPriority
  by_cases same : i = p
  · subst same
    simp [front, level]
  · have other : (k.thread x).currentPriority ≠ i := fun eq => same (eq.symm.trans level)
    simp [same, other]

theorem aligned_behead (aligned : k.Aligned s)
    (front : s.deques p = x :: rest) : k.Aligned (behead s p rest) := by
  intro i u member
  unfold behead at member
  by_cases same : i = p
  · subst same
    apply aligned i u
    rw [front]
    exact List.mem_cons_of_mem _ (by simpa using member)
  · exact aligned i u (by simpa [same] using member)

theorem popSchedulable_pops {fuel : Nat} (aside : List ThreadId) (h : Refines queue s)
    (aligned : k.Aligned s) (known : ∀ limit, stop = some limit → limit ∈ s.prepared)
    (enough : queued queue < fuel) :
    ∃ out queue' skipped s', k.popSchedulable (fun queue => queue.pop stop) fuel queue aside =
        .ok (out, queue', aside ++ skipped) ∧
      Refines queue' s' ∧ k.Popped stop s skipped out s' := by
  induction fuel generalizing queue s aside with
  | zero => cases enough
  | succ fuel ih =>
    obtain ⟨out, queue₁, s₁, run, finds, h₁, prepared⟩ := h.pop known
    obtain ⟨found, front, rfl, rfl⟩ := finds
    unfold popSchedulable
    rw [run, ok_bind]
    cases front with
    | nothing empty =>
      refine ⟨none, queue₁, [], _, by rw [List.append_nil]; rfl, h₁, ?_⟩
      exact ⟨rfl, fun _ => rfl, nofun, nofun, fun p below _ => empty p below⟩
    | @lowest p x rest below front first =>
      have level : (k.thread x).currentPriority = p := by
        apply aligned p x
        rw [front]
        exact List.mem_cons_self ..
      have h₁ : Refines queue₁ (behead s p rest) := h₁
      simp only [Option.map_some]
      split_ifs with may
      · refine ⟨some x, queue₁, [], _, by rw [List.append_nil]; rfl, h₁, ?_⟩
        refine ⟨rfl, deque_front front level, nofun, ?_, ?_⟩
        · rintro _ ⟨⟩
          rw [level]
          exact ⟨may, below⟩
        · intro i under lower
          have lower := lower x rfl
          rw [level] at lower
          have empty := first i under lower
          simpa [behead, Nat.ne_of_lt lower] using empty
      · have fewer := queued_pop h h₁ front rfl
        obtain ⟨out, queue₂, skipped, s₂, run, h₂, popped⟩ :=
          ih (aside ++ [x]) h₁ (aligned_behead aligned front) known (by omega)
        refine ⟨out, queue₂, x :: skipped, s₂, ?_, h₂, ?_⟩
        · rw [run, List.append_assoc]
          rfl
        refine ⟨popped.prepared, ?_, ?_, popped.fits, popped.first⟩
        · intro i
          rw [deque_front front level i, popped.split i, ← List.append_assoc]
          unfold ofPriority
          rw [← List.filter_append]
          rfl
        · intro u member
          rcases List.mem_cons.mp member with rfl | later
          · simpa using may
          · exact popped.skipped u later

theorem ofPriority_skipped (skipped : ∀ u ∈ threads, (k.thread u).canSchedule = false) :
    k.firstSchedulable (k.ofPriority p threads) = none := by
  unfold firstSchedulable
  rw [List.find?_eq_none]
  intro u member
  rw [skipped u (List.mem_filter.mp member).1]
  exact Bool.false_ne_true

theorem firstSchedulable_append {later : List ThreadId} : k.firstSchedulable (threads ++ later) =
      (k.firstSchedulable threads).or (k.firstSchedulable later) := List.find?_append

theorem Popped.unschedulable (h : k.Popped stop s skipped out s')
    (below : ∀ limit, stop = some limit → p < limit)
    (better : ∀ t, out = some t → p < (k.thread t).currentPriority) :
    k.firstSchedulable (s.deques p) = none := by
  have others : k.ofPriority p out.toList = [] := by
    unfold ofPriority
    rw [List.filter_eq_nil_iff]
    intro t isOut
    have lower := better t (Option.mem_toList.mp isOut)
    simpa using Nat.ne_of_gt lower
  have whole : k.ofPriority p (skipped ++ out.toList) = k.ofPriority p skipped := by
    unfold ofPriority at others ⊢
    rw [List.filter_append, others, List.append_nil]
  rw [h.split p, whole, h.first p below better, List.append_nil]
  exact ofPriority_skipped h.skipped

theorem Popped.schedulable (h : k.Popped stop s skipped (some t) s') :
    k.firstSchedulable (s.deques (k.thread t).currentPriority) = some t := by
  have whole : k.ofPriority (k.thread t).currentPriority (skipped ++ [t]) =
      k.ofPriority (k.thread t).currentPriority skipped ++ [t] := by
    unfold ofPriority
    simp
  have may := (h.fits t rfl).1
  rw [h.split, Option.toList_some, whole, firstSchedulable_append, firstSchedulable_append,
    ofPriority_skipped h.skipped]
  simp [firstSchedulable, may]

def Limits (stop : Option Nat) (limit : Nat) : Prop :=
  stop = some limit ∨ stop = none ∧ limit = threadPrioLowest + 1

theorem Popped.bestReady {limit : Nat} (h : k.Popped stop s skipped out s')
    (refines : Refines (k.manager core).readyQueue s) (limits : Limits stop limit) :
    k.bestReady core limit = out := by
  have same : ∀ p, k.readyAt core p = s.deques p := congrFun refines.deques
  have below : ∀ p, p < limit → ∀ bound, stop = some bound → p < bound := by
    rintro p under bound rfl
    rcases limits with eq | ⟨eq, _⟩
    · cases eq
      exact under
    · cases eq
  cases out with
  | none =>
    unfold Kernel.bestReady
    rw [List.findSome?_eq_none_iff]
    intro p under
    rw [same]
    exact h.unschedulable (below p (List.mem_range.mp under)) nofun
  | some t =>
    have level := h.schedulable
    have inside : (k.thread t).currentPriority < limit := by
      rcases limits with eq | ⟨_, rfl⟩
      · exact (h.fits t rfl).2 limit eq
      · apply refines.bounded
        apply refines.occupied
        intro empty
        rw [empty] at level
        cases level
    apply findSome?_range inside
    · rw [same]
      exact level
    · intro i lower
      rw [same]
      apply h.unschedulable (below i (lower.trans inside))
      rintro _ ⟨⟩
      exact lower

theorem requeue_refines (h : Refines queue s)
    (known : ∀ u ∈ skipped, (k.thread u).currentPriority ∈ s.prepared) :
    Refines (k.requeue queue skipped)
      { s with deques := fun p => s.deques p ++ k.ofPriority p skipped.reverse } := by
  induction skipped with
  | nil =>
    have same : (fun p => s.deques p ++ k.ofPriority p [].reverse) = s.deques :=
      funext fun p => List.append_nil _
    rw [same]
    exact h
  | cons u rest ih =>
    have back := (ih fun v later => known v (List.mem_cons_of_mem _ later)).pushBack (x := u)
      (known u (List.mem_cons_self ..))
    have deques : (fun p => s.deques p ++ k.ofPriority p (u :: rest).reverse) =
        Deques.pushBack (fun p => s.deques p ++ k.ofPriority p rest.reverse)
          (k.thread u).currentPriority u := ?_
    · rw [deques]
      exact back
    funext p
    unfold Deques.pushBack ofPriority
    by_cases level : p = (k.thread u).currentPriority
    · subst level
      simp
    · have other : ¬ (k.thread u).currentPriority = p := fun eq => level eq.symm
      simp [level, other]

def Left (k : Kernel) (taken : Option ThreadId) (before after : Nat → List ThreadId) : Prop :=
  ∀ p, (before p).Perm (k.ofPriority p taken.toList ++ after p)

theorem popNextReadyThread_pops (h : Refines (k.manager core).readyQueue s) (aligned : k.Aligned s)
    (known : ∀ t, k.runningOn core = some t → (k.thread t).currentPriority ∈ s.prepared) :
    ∃ queue' s', k.popNextReadyThread core = .ok (k.chosen core, k.setQueue core fun _ => queue') ∧
      Refines queue' s' ∧ s'.prepared = s.prepared ∧
      k.Left (k.bestReady core (k.preemptionLimit core)) s.deques s'.deques := by
  let stop := (k.runningOn core).map fun t => (k.thread t).currentPriority
  have pops : k.popFor (k.runningOn core) = fun queue => queue.pop stop := by
    unfold stop
    cases k.runningOn core <;> rfl
  have limits : Limits stop (k.preemptionLimit core) := by
    unfold preemptionLimit stop
    cases k.runningOn core with
    | none => exact Or.inr ⟨rfl, rfl⟩
    | some t => exact Or.inl rfl
  have prepared : ∀ limit, stop = some limit → limit ∈ s.prepared := by
    intro limit isStop
    obtain ⟨t, runs, rfl⟩ := Option.map_eq_some_iff.mp isStop
    exact known t runs
  obtain ⟨out, queue₁, skipped, s₁, run, h₁, popped⟩ :=
    popSchedulable_pops [] h aligned prepared (Nat.lt_succ_self _)
  have best := popped.bestReady h limits
  have back := @requeue_refines k queue₁ s₁ skipped h₁ (by
    intro u member
    rw [popped.prepared]
    apply h.occupied
    rw [popped.split]
    have own : u ∈ k.ofPriority (k.thread u).currentPriority (skipped ++ out.toList) :=
      List.mem_filter.mpr ⟨List.mem_append_left _ member, by simp⟩
    exact List.ne_nil_of_mem (List.mem_append_left _ own))
  refine ⟨_, _, ?_, back, popped.prepared, ?_⟩
  · change (k.popSchedulable (k.popFor (k.runningOn core)) _ _ _ >>= _) = _
    rw [pops, run]
    unfold chosen
    rw [best]
    rfl
  · intro p
    have back : (k.ofPriority p skipped.reverse).Perm (k.ofPriority p skipped) :=
      (List.reverse_perm _).filter _
    rw [best, popped.split p]
    unfold ofPriority at back ⊢
    rw [List.filter_append]
    calc List.filter _ skipped ++ List.filter _ out.toList ++ s₁.deques p
        ~ List.filter _ out.toList ++ List.filter _ skipped ++ s₁.deques p :=
          List.perm_append_comm.append_right _
      _ ~ _ := by
          rw [List.append_assoc]
          exact (back.symm.append_right _ |>.trans List.perm_append_comm).append_left _

end EmuThreeDS.Kernel
