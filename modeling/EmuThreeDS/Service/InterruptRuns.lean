import EmuThreeDS.Service.InterruptRelay
import Mathlib.Data.Nat.Basic

/-!
# Interrupts arrive in order

A queue keeps what was not read as long as no id arrives when it is full: the 53rd one is
written to the slot of the oldest.
-/
namespace EmuThreeDS.Gsp

section

variable {q : InterruptRelayQueue} {pending : List InterruptId} {id : InterruptId}

theorem Stores.signal (h : Stores q pending) (room : q.numberInterrupts ≠ slots) :
    Stores (q.signal id) (pending ++ [id]) := by
  have index := h.index
  have number := h.number
  have length := h.length
  unfold slots at index number room
  have next : (q.index + q.numberInterrupts) % 256 % slots =
      (q.index + q.numberInterrupts) % slots :=
    congrArg (· % slots) (Nat.mod_eq_of_lt (by omega))
  have count : (q.numberInterrupts + 1) % 256 = q.numberInterrupts + 1 :=
    Nat.mod_eq_of_lt (by omega)
  refine ⟨h.index, ?_, ?_, fun i inside => ?_⟩
  · show (q.numberInterrupts + 1) % 256 ≤ 0x34
    omega
  · show (pending ++ [id]).length = (q.numberInterrupts + 1) % 256
    rw [List.length_append, length, count]
    rfl
  · show Function.update q.slot ((q.index + q.numberInterrupts) % 256 % slots) id
      ((q.index + i) % slots) = (pending ++ [id])[i]
    rw [next]
    rw [List.length_append, List.length_singleton] at inside
    rcases Nat.lt_or_ge i pending.length with old | new
    · have other : (q.index + i) % slots ≠ (q.index + q.numberInterrupts) % slots := by
        unfold slots
        omega
      rw [Function.update_of_ne other, List.getElem_append_left old]
      exact h.slot i old
    · have last : i = q.numberInterrupts := by omega
      subst last
      rw [List.getElem_append_right new]
      simp

theorem Stores.pop (h : Stores q pending) (some_left : 0 < q.numberInterrupts) :
    ∃ rest, pending = q.pop.1 :: rest ∧ Stores q.pop.2 rest := by
  have index := h.index
  have number := h.number
  have length := h.length
  cases pending with
  | nil =>
    rw [List.length_nil] at length
    omega
  | cons oldest rest =>
    rw [List.length_cons] at length
    have first : q.slot q.index = oldest := by
      have stored := h.slot 0 (Nat.zero_lt_succ _)
      rw [Nat.add_zero, Nat.mod_eq_of_lt index] at stored
      exact stored
    refine ⟨rest, congrArg (· :: rest) first.symm, Nat.mod_lt _ (by decide), ?_, ?_,
      fun i inside => ?_⟩
    · show q.numberInterrupts - 1 ≤ slots
      omega
    · show rest.length = q.numberInterrupts - 1
      omega
    · show q.slot (((q.index + 1) % slots + i) % slots) = rest[i]
      rw [Nat.mod_add_mod, Nat.add_right_comm]
      exact h.slot (i + 1) (Nat.succ_lt_succ inside)

theorem signal_full (full : q.numberInterrupts = slots) :
    (q.signal id).numberInterrupts = slots + 1 := by
  show (q.numberInterrupts + 1) % 256 = slots + 1
  rw [full]
  rfl

end

section

variable {s : GspGpu} {id : InterruptId} {threadId screen : Nat}

def Hears (s : GspGpu) (threadId : Nat) : Prop :=
  ((s.findRegisteredThreadData threadId).bind (·.interruptEvent)).isSome

instance (s : GspGpu) (threadId : Nat) : Decidable (Hears s threadId) :=
  inferInstanceAs (Decidable (_ = true))

theorem updateFrameBuffer_queues : (s.updateFrameBuffer threadId screen).queues = s.queues := by
  unfold GspGpu.updateFrameBuffer
  dsimp only
  split_ifs <;> rfl

theorem updateFrameBuffer_sessions :
    (s.updateFrameBuffer threadId screen).connectedSessions = s.connectedSessions ∧
    (s.updateFrameBuffer threadId screen).activeThreadId = s.activeThreadId := by
  unfold GspGpu.updateFrameBuffer
  dsimp only
  split_ifs <;> exact ⟨rfl, rfl⟩

theorem signalInterruptForThread_deaf (deaf : ¬ Hears s threadId) :
    s.signalInterruptForThread id threadId = s := by
  unfold GspGpu.signalInterruptForThread
  unfold Hears at deaf
  cases found : s.findRegisteredThreadData threadId with
  | none => rfl
  | some data =>
    cases event : data.interruptEvent with
    | none => simp only [event]
    | some event' => exact absurd (by rw [found, Option.bind_some, event]; rfl) deaf

theorem signalInterruptForThread_hears (hears : Hears s threadId) :
    ((s.signalInterruptForThread id threadId).connectedSessions = s.connectedSessions ∧
      (s.signalInterruptForThread id threadId).activeThreadId = s.activeThreadId) ∧
    (s.signalInterruptForThread id threadId).queues =
      Function.update s.queues threadId ((s.queues threadId).signal id) := by
  unfold GspGpu.signalInterruptForThread
  obtain ⟨event, known⟩ := Option.isSome_iff_exists.mp hears
  obtain ⟨data, found, registered⟩ := Option.bind_eq_some_iff.mp known
  rw [found]
  dsimp only
  rw [registered]
  cases GspGpu.screenId id with
  | none => exact ⟨⟨rfl, rfl⟩, rfl⟩
  | some screen => exact ⟨updateFrameBuffer_sessions, updateFrameBuffer_queues⟩

theorem hears_congr {s' : GspGpu} (same : s'.connectedSessions = s.connectedSessions) :
    Hears s' threadId ↔ Hears s threadId := by
  unfold Hears GspGpu.findRegisteredThreadData
  rw [same]

theorem signalInterruptForThread_sessions :
    (s.signalInterruptForThread id threadId).connectedSessions = s.connectedSessions := by
  by_cases hears : Hears s threadId
  · exact (signalInterruptForThread_hears hears).1.1
  · rw [signalInterruptForThread_deaf hears]

theorem signalInterruptForThread_same : (s.signalInterruptForThread id threadId).queues threadId =
      if Hears s threadId then (s.queues threadId).signal id else s.queues threadId := by
  split_ifs with hears
  · rw [(signalInterruptForThread_hears hears).2, Function.update_self]
  · rw [signalInterruptForThread_deaf hears]

theorem signalInterruptForThread_other {other : Nat} (h : other ≠ threadId) :
    (s.signalInterruptForThread id threadId).queues other = s.queues other := by
  by_cases hears : Hears s threadId
  · rw [(signalInterruptForThread_hears hears).2, Function.update_of_ne h]
  · rw [signalInterruptForThread_deaf hears]

theorem signal_threads (threads : List Nat) (apart : threads.Nodup) (s : GspGpu) :
    (threads.foldl (fun s threadId => s.signalInterruptForThread id threadId) s).queues threadId =
      if Hears s threadId ∧ threadId ∈ threads then (s.queues threadId).signal id
      else s.queues threadId := by
  induction threads generalizing s with
  | nil => simp
  | cons first rest ih =>
    obtain ⟨fresh, apart⟩ := List.nodup_cons.mp apart
    rw [List.foldl_cons, ih apart,
      if_congr (and_congr_left' (hears_congr signalInterruptForThread_sessions)) rfl rfl]
    by_cases same : threadId = first
    · subst same
      rw [if_neg (fun reached => fresh reached.2), signalInterruptForThread_same]
      exact if_congr (and_iff_left List.mem_cons_self).symm rfl rfl
    · rw [signalInterruptForThread_other same]
      exact if_congr (and_congr_right' ((or_iff_right same).symm.trans List.mem_cons.symm))
        rfl rfl

theorem signalInterrupt_queues : (s.signalInterrupt id).queues threadId =
    if Relay.Reaches s id threadId then (s.queues threadId).signal id else s.queues threadId := by
  unfold GspGpu.signalInterrupt
  by_cases every : id = .pdc0 ∨ id = .pdc1
  · have reaches : Relay.Reaches s id threadId ↔
        Hears s threadId ∧ threadId ∈ List.range maxGspThreads := by
      rw [Relay.Reaches, if_pos every, List.mem_range]
      exact Iff.rfl
    rw [if_pos every, signal_threads _ List.nodup_range]
    exact if_congr reaches.symm rfl rfl
  · have reaches : Relay.Reaches s id threadId ↔
        Hears s threadId ∧ threadId = s.activeThreadId ∧ threadId ≠ noThread := by
      rw [Relay.Reaches, if_neg every]
      exact Iff.rfl
    rw [if_neg every, if_congr reaches rfl rfl]
    by_cases idle : s.activeThreadId = noThread
    · rw [if_pos idle, if_neg (fun reached => reached.2.2 (reached.2.1.trans idle))]
    · rw [if_neg idle]
      by_cases same : threadId = s.activeThreadId
      · rw [same, signalInterruptForThread_same]
        exact if_congr (and_iff_left ⟨rfl, idle⟩).symm rfl rfl
      · rw [signalInterruptForThread_other same, if_neg (fun reached => same reached.2.1)]

end

namespace Relay

variable {s s' : Relay} {call : Call}

theorem Starts.intact (h : Starts s) (threadId : Nat) : Intact s threadId := by
  refine ⟨[], ?_, h.index threadId, ?_, (h.empty threadId).symm, nofun⟩
  · rw [h.signalled, h.read]
    rfl
  · rw [h.empty threadId]
    exact Nat.zero_le _

theorem Intact.same {threadId : Nat} (h : Intact s threadId) (queues : s'.gpu.queues = s.gpu.queues)
    (signalled : s'.signalled = s.signalled) (read : s'.read = s.read) : Intact s' threadId := by
  unfold Intact
  rw [queues, signalled, read]
  exact h

variable {g g' : GspGpu} {session : Nat}

theorem onSession_queues {change : SessionData → Exec (SessionData × GspGpu)}
    (keeps : ∀ data data' g', change data = .ok (data', g') → g'.queues = g.queues)
    (run : g.onSession session change = .ok g') : g'.queues = g.queues := by
  unfold GspGpu.onSession at run
  cases found : g.connectedSessions[session]? with
  | none =>
    rw [found] at run
    cases run
  | some data =>
    rw [found] at run
    obtain ⟨⟨data', middle⟩, changed, rest⟩ := bind_eq_ok.mp run
    cases rest
    exact keeps data data' middle changed

theorem releaseRight_queues {data : SessionData}
    (run : g.releaseRight data = .ok g') : g'.queues = g.queues := by
  obtain ⟨_, _, rest⟩ := bind_eq_ok.mp run
  cases rest
  rfl

theorem connect_queues (run : g.connect = .ok g') : g'.queues = g.queues := by
  obtain ⟨_, _, rest⟩ := bind_eq_ok.mp run
  cases rest
  rfl

theorem clientDisconnected_queues (run : g.clientDisconnected session = .ok g') : g'.queues =
    g.queues := by
  unfold GspGpu.clientDisconnected at run
  cases found : g.connectedSessions[session]? with
  | none =>
    rw [found] at run
    cases run
  | some data =>
    rw [found] at run
    dsimp only at run
    split_ifs at run
    · obtain ⟨middle, released, rest⟩ := bind_eq_ok.mp run
      cases rest
      have queues := releaseRight_queues released
      exact queues
    · cases run
      rfl

theorem acquireRight_queues (run : g.acquireRight session = .ok g') : g'.queues = g.queues := by
  refine onSession_queues (fun data data' middle changed => ?_) run
  split_ifs at changed
  · cases changed
    rfl
  · obtain ⟨_, _, rest⟩ := bind_eq_ok.mp changed
    cases rest
    rfl

theorem releaseSessionRight_queues (run : g.releaseSessionRight session = .ok g') : g'.queues =
    g.queues := by
  refine onSession_queues (fun data data' middle changed => ?_) run
  obtain ⟨_, released, rest⟩ := bind_eq_ok.mp changed
  cases rest
  exact releaseRight_queues released

theorem Intact.signal {threadId : Nat} {id : InterruptId} (h : Intact s threadId)
    (room : Reaches s.gpu id threadId → (s.gpu.queues threadId).numberInterrupts ≠ slots)
    (run : s.run (.signal id) = .ok s') : Intact s' threadId := by
  obtain ⟨pending, history, stores⟩ := h
  cases run
  unfold Intact
  dsimp only
  rw [signalInterrupt_queues]
  by_cases reached : Reaches s.gpu id threadId
  · rw [if_pos reached, if_pos reached, history, List.append_assoc]
    exact ⟨_, rfl, stores.signal (room reached)⟩
  · rw [if_neg reached, if_neg reached]
    exact ⟨pending, history, stores⟩

theorem Intact.pop {threadId popped : Nat} (h : Intact s threadId) (pops : s.Pops (.pop popped))
    (run : s.run (.pop popped) = .ok s') : Intact s' threadId := by
  obtain ⟨pending, history, stores⟩ := h
  cases run
  unfold Intact
  dsimp only
  by_cases same : threadId = popped
  · subst same
    obtain ⟨rest, first, stores⟩ := stores.pop pops
    rw [Function.update_self, Function.update_self, history, first]
    exact ⟨rest, (List.append_assoc _ [_] _).symm, stores⟩
  · rw [Function.update_of_ne same, Function.update_of_ne same]
    exact ⟨pending, history, stores⟩

theorem Intact.step {threadId : Nat} (h : Intact s threadId) (pops : s.Pops call)
    (room : s.Room call) (run : s.run call = .ok s') : Intact s' threadId := by
  cases call with
  | signal id => exact h.signal (room threadId) run
  | pop popped => exact h.pop pops run
  | present screen update =>
    cases run
    exact h.same rfl rfl rfl
  | connect =>
    obtain ⟨gpu, changed, rest⟩ := bind_eq_ok.mp run
    cases rest
    exact h.same (connect_queues changed) rfl rfl
  | disconnect session =>
    obtain ⟨gpu, changed, rest⟩ := bind_eq_ok.mp run
    cases rest
    exact h.same (clientDisconnected_queues changed) rfl rfl
  | register session event | unregister session =>
    obtain ⟨gpu, changed, rest⟩ := bind_eq_ok.mp run
    cases rest
    exact h.same (onSession_queues (fun _ _ _ same => by cases same; rfl) changed) rfl rfl
  | acquireRight session =>
    obtain ⟨gpu, changed, rest⟩ := bind_eq_ok.mp run
    cases rest
    exact h.same (acquireRight_queues changed) rfl rfl
  | releaseRight session =>
    obtain ⟨gpu, changed, rest⟩ := bind_eq_ok.mp run
    cases rest
    exact h.same (releaseSessionRight_queues changed) rfl rfl

theorem Reachable.intact (h : Reachable Room s) : ∀ threadId, Intact s threadId :=
  h.invariant (fun _ starts => starts.intact) fun _ _ _ held allowed run threadId =>
    (held threadId).step allowed.1 allowed.2 run

theorem not_intact {threadId : Nat} {id : InterruptId} (reached : Reaches s.gpu id threadId)
    (full : (s.gpu.queues threadId).numberInterrupts = slots)
    (run : s.run (.signal id) = .ok s') : ¬ Intact s' threadId := by
  rintro ⟨pending, _, stores⟩
  cases run
  have number := stores.number
  rw [signalInterrupt_queues, if_pos reached, signal_full full] at number
  omega

/-- In every run in which no id arrives at a full queue the ids arrive in order, and the next
call keeps it so just if it is no such signal. -/
theorem intact_iff_room (h : Reachable Room s) : (∀ threadId, Intact s threadId) ∧
      ∀ call s', s.Pops call → s.run call = .ok s' →
        ((∀ threadId, Intact s' threadId) ↔ s.Room call) := by
  refine ⟨h.intact, fun call s' pops run => ⟨fun intact => ?_, fun room threadId =>
    (h.intact threadId).step pops room run⟩⟩
  cases call with
  | signal id =>
    intro threadId reached full
    exact not_intact reached full run (intact threadId)
  | _ => trivial

def idle : Relay where
  gpu :=
    { queues := fun _ => ⟨0, 0, 0, fun _ => .psc0⟩
      frameBuffers := fun _ _ => ⟨0, false, fun _ => ⟨0, 0, 0, 0, 0, 0, 0⟩⟩
      connectedSessions := [⟨some 1, 0, true⟩]
      activeThreadId := 0
      usedThreadIds := fun threadId => threadId == 0 }
  signalled := fun _ => []
  read := fun _ => []

theorem starts_idle : Starts idle :=
  ⟨fun _ => show 0 < slots by decide, fun _ => rfl, rfl, rfl⟩

/-- A signal to the thread with the GPU right. -/
theorem active_room {id : InterruptId} (plain : ¬ (id = .pdc0 ∨ id = .pdc1))
    (few : (s.gpu.queues s.gpu.activeThreadId).numberInterrupts ≠ slots) : s.Room (.signal id) := by
  rintro threadId ⟨_, reached⟩
  rw [if_neg plain] at reached
  rw [reached.1]
  exact few

/-- Of two ids the first is read, and a third one comes. -/
theorem intact_iff_room_popped : ∃ s s' : Relay, s.read 0 = [.psc0] ∧
    s.run (.signal .ppf) = .ok s' ∧ (s'.gpu.queues 0).numberInterrupts = 2 ∧
      ∀ threadId, Intact s' threadId := by
  have one : Reachable Room _ := (Runs.Reachable.start starts_idle).step
    (a := Call.signal .psc0) ⟨trivial, active_room (by decide) (by decide)⟩ rfl
  have two : Reachable Room _ := one.step (a := Call.signal .p3d)
    ⟨trivial, active_room (by decide) (by decide)⟩ rfl
  have popped : Reachable Room _ := two.step (a := Call.pop 0) ⟨show 0 < _ by decide, trivial⟩ rfl
  have third := ((intact_iff_room popped).2 (.signal .ppf) _ trivial rfl).mpr
    (active_room (by decide) (by decide))
  exact ⟨_, _, rfl, rfl, rfl, third⟩

theorem reachable_idle (n : Nat) (few : n < 256) : ∃ s, Reachable (fun _ _ => True) s ∧
    s.gpu.connectedSessions = idle.gpu.connectedSessions ∧ s.gpu.activeThreadId = 0 ∧
    (s.gpu.queues 0).numberInterrupts = n := by
  induction n with
  | zero => exact ⟨idle, .start starts_idle, rfl, rfl, rfl⟩
  | succ n ih =>
    obtain ⟨s, reachable, sessions, active, number⟩ := ih (by omega)
    have hears : Hears s.gpu 0 := (hears_congr sessions).mpr (by decide)
    have signal : s.gpu.signalInterrupt .psc0 = s.gpu.signalInterruptForThread .psc0 0 := by
      rw [GspGpu.signalInterrupt, if_neg (by decide), active, if_neg (by decide)]
    obtain ⟨kept, queues⟩ := @signalInterruptForThread_hears _ .psc0 _ hears
    refine ⟨_, .step (a := .signal .psc0) reachable ⟨trivial, trivial⟩ rfl, ?_⟩
    rw [signal, kept.1, kept.2, queues]
    refine ⟨sessions, active, ?_⟩
    show ((s.gpu.queues 0).numberInterrupts + 1) % 256 = n + 1
    rw [number, Nat.mod_eq_of_lt few]

/-- After 53 signals the count is past the number of slots. -/
theorem intact_fails : ¬ ∀ s, Reachable (fun _ _ => True) s → ∀ threadId, Intact s threadId := by
  intro all
  obtain ⟨s, reachable, _, _, number⟩ := reachable_idle 53 (by decide)
  obtain ⟨_, _, stores⟩ := all s reachable 0
  have few := stores.number
  rw [number] at few
  exact absurd few (by decide)

end Relay

end EmuThreeDS.Gsp
