import EmuThreeDS.Kernel.CallChanges
import Mathlib.Data.List.Induction

/-!
# Clients that wait for a reply

As long as no end of a session is closed under a request, every thread that waits for a reply
is with one session that has both of its ends.
-/
namespace EmuThreeDS.Kernel

variable {k k' : Kernel} {t u : ThreadId} {s : Nat}

/-- Sessions are with servers of the guest, and who waits for a reply is with a session. -/
structure Served (k : Kernel) : Prop where
  ports : ∀ p, (k.serverPort p).hleHandler = false
  sessions : ∀ s, (k.serverSession s).hleHandler = false
  ends : ∀ s t, (k.serverSession s).Engaged t →
    (k.serverSession s).client = true ∧ (k.serverSession s).server = true
  asleep : ∀ t, k.statusOf t = .waitIPC → ∃ s, (k.serverSession s).Engaged t

namespace Served

theorem keep (h : k.Served)
    (ports : ∀ p, (k'.serverPort p).hleHandler = (k.serverPort p).hleHandler)
    (sessions : k'.serverSession = k.serverSession)
    (asleep : ∀ t, k'.statusOf t = .waitIPC → k.statusOf t = .waitIPC) : k'.Served where
  ports := by
    intro p
    rw [ports]
    exact h.ports p
  sessions := by
    rw [sessions]
    exact h.sessions
  ends := by
    rw [sessions]
    exact h.ends
  asleep := by
    rw [sessions]
    exact fun t waits => h.asleep t (asleep t waits)

theorem status (h : k.Served) (objects : SameObjects k k')
    (asleep : ∀ t, k'.statusOf t = .waitIPC → k.statusOf t = .waitIPC) : k'.Served :=
  h.keep (fun p => by rw [objects.serverPort]) objects.serverSession asleep

variable {new : ServerSession}

theorem update (h : k.Served) (plain : new.hleHandler = false)
    (ends : ∀ t, new.Engaged t → new.client = true ∧ new.server = true)
    (kept : ∀ t, k'.statusOf t = .waitIPC →
      k.statusOf t = .waitIPC ∧ ((k.serverSession s).Engaged t → new.Engaged t) ∨ new.Engaged t)
    (ports : k'.serverPort = k.serverPort)
    (sessions : k'.serverSession = Function.update k.serverSession s new) : k'.Served where
  ports := by
    rw [ports]
    exact h.ports
  sessions := by
    intro r
    rw [sessions, Function.update_apply]
    split_ifs
    · exact plain
    · exact h.sessions r
  ends := by
    intro r t
    rw [sessions, Function.update_apply]
    split_ifs
    · exact ends t
    · exact h.ends r t
  asleep := by
    intro t waits
    rw [sessions]
    rcases kept t waits with ⟨before, still⟩ | engaged
    · obtain ⟨r, engaged⟩ := h.asleep t before
      refine ⟨r, ?_⟩
      rw [Function.update_apply]
      split_ifs with same
      · rw [same] at engaged
        exact still engaged
      · exact engaged
    · refine ⟨s, ?_⟩
      rw [Function.update_self]
      exact engaged

theorem free (h : k.Served) (closed : (k.serverSession s).client = false ∨
    (k.serverSession s).server = false) : ¬ (k.serverSession s).Engaged t := by
  intro engaged
  obtain ⟨client, server⟩ := h.ends s t engaged
  rcases closed with no | no
  · rw [client] at no
    cases no
  · rw [server] at no
    cases no

end Served

def NoneParked (k k' : Kernel) : Prop := ∀ t, k'.statusOf t = .waitIPC → k.statusOf t = .waitIPC

theorem noneParked_of_status (same : k'.statusOf = k.statusOf) : NoneParked k k' := by
  intro t waits
  rw [← same]
  exact waits

theorem NoneParked.trans {k'' : Kernel} (first : NoneParked k k') (second : NoneParked k' k'') :
    NoneParked k k'' := fun t => first t ∘ second t

theorem noneParked_setThread {f : Thread → Thread}
    (own : (f (k.thread t)).status = .waitIPC → k.statusOf t = .waitIPC) :
    NoneParked k (k.setThread t f) := by
  intro u waits
  rw [statusOf_setThread] at waits
  split_ifs at waits with same
  · rw [same]
    exact own waits
  · exact waits

theorem noneParked_enqueue {core : Nat} {f : KernelQueue → KernelQueue} :
    NoneParked k ((k.setQueue core f).setThread t fun thread =>
      { thread with status := .ready }) :=
  noneParked_setThread (k := k.setQueue core f) nofun

theorem noneParked_rouses (h : ∀ u, k'.statusOf u = k.statusOf u ∨
    ¬ Awake (k.statusOf u) ∧ k'.statusOf u = .ready) : NoneParked k k' := by
  intro u waits
  rcases h u with same | ⟨_, ready⟩
  · rw [← same]
    exact waits
  · rw [ready] at waits
    cases waits

theorem createThread_noneParked {priority : Nat} {processorId : Int} {validEntry tlsPage : Bool} :
    Returns (k.createThread t priority processorId validEntry tlsPage)
      fun reply => NoneParked k reply.2 := by
  have made : ∀ core, NoneParked k (k.registerThread core t priority) := fun core =>
    noneParked_setThread (k := k.setManager core _) nofun
  apply createThread_leaves id fun _ => id
  · exact fun _ core => made core
  · exact fun _ core => (made core).trans noneParked_enqueue

theorem unlocked_status {m : MutexId} : (k.unlocked m t).statusOf = k.statusOf := by
  unfold unlocked
  dsimp only
  split_ifs
  · have dropped : Quiet k ((k.setMutex m fun mutex =>
        { mutex with lockCount := mutex.lockCount - 1 }).setThread t fun thread =>
          { thread with heldMutexes := thread.heldMutexes.erase m }) :=
      (quiet_setMutex m _).quiet (quiet_setThread t _ fun _ => ⟨rfl, rfl, rfl⟩)
    exact (dropped.quiet quiet_updatePriority).status
  · rfl

theorem awaitReply_served (h : k.Served) (client : (k.serverSession s).client = true)
    (server : (k.serverSession s).server = true) : (k.awaitReply s t).Served := by
  unfold awaitReply
  dsimp only
  split_ifs with running handled
  · rw [show (k.setStatus t .waitIPC).serverSession = k.serverSession from rfl,
      h.sessions s] at handled
    cases handled
  · have sessions : ((k.setStatus t .waitIPC).setSession s fun session =>
        { session with
          pendingRequestingThreads := session.pendingRequestingThreads ++ [t] }).serverSession =
        Function.update k.serverSession s { k.serverSession s with
          pendingRequestingThreads := (k.serverSession s).pendingRequestingThreads ++ [t] } := rfl
    refine h.update ?_ ?_ ?_ rfl sessions
    · exact h.sessions s
    · exact fun _ _ => ⟨client, server⟩
    intro u waits
    by_cases same : u = t
    · subst same
      exact Or.inr (Or.inl (List.mem_append_right _ List.mem_cons_self))
    · left
      have before : (k.setStatus t .waitIPC).statusOf u = .waitIPC := waits
      rw [setStatus, statusOf_setThread, if_neg same] at before
      exact ⟨before, Or.imp (List.mem_append_left _) id⟩
  · exact h

theorem answered_served (h : k.Served) (handled : (k.serverSession s).currentlyHandling = some t) :
    (k.answered s t).Served := by
  have sessions : (k.answered s t).serverSession = Function.update k.serverSession s
      { k.serverSession s with currentlyHandling := none } := by
    unfold answered
    dsimp only
    split_ifs <;> rfl
  have ports : (k.answered s t).serverPort = k.serverPort := by
    unfold answered
    dsimp only
    split_ifs <;> rfl
  refine h.update ?_ ?_ ?_ ports sessions
  · exact h.sessions s
  · rintro u (pending | impossible)
    · exact h.ends s u (Or.inl pending)
    · cases impossible
  · intro u waits
    left
    have other : k.statusOf u = .waitIPC ∧ u ≠ t := by
      unfold answered at waits
      dsimp only at waits
      split_ifs at waits with awake
      · refine ⟨waits, ?_⟩
        rintro rfl
        have same : (k.thread u).status = .waitIPC := waits
        have woken : Awake (k.thread u).status := awake
        rw [same] at woken
        rcases woken with eq | eq | eq <;> cases eq
      · by_cases same : u = t
        · rw [same, statusOf_makeReady] at waits
          cases waits
        · rw [(restatus_makeReady.others u same).1] at waits
          exact ⟨waits, same⟩
    refine ⟨other.1, Or.imp id fun now => ?_⟩
    rw [handled] at now
    exact absurd (Option.some.inj now).symm other.2

theorem acquire_served {o : WaitObject} (h : k.Served) (run : k.acquire o t = .ok k') :
    k'.Served := by
  obtain ⟨_, sessions, ports⟩ := acquire_takes.ok run
  have status := noneParked_of_status (acquire_status run)
  rcases sessions with same | ⟨s, idle, taken⟩
  · exact h.keep (fun p => by rw [ports]) same status
  · refine h.update ?_ ?_ ?_ ports taken
    · exact h.sessions s
    · exact fun u engaged => h.ends s u (.of_take rfl rfl engaged)
    · intro u waits
      refine Or.inl ⟨status u waits, ?_⟩
      rintro (pending | handled)
      · rcases List.eq_nil_or_concat (k.serverSession s).pendingRequestingThreads with
          none | ⟨before, last, split⟩
        · rw [none] at pending
          cases pending
        · rw [split, List.concat_eq_append, List.mem_append, List.mem_singleton] at pending
          rcases pending with earlier | newest
          · left
            rw [split, List.concat_eq_append, List.dropLast_concat]
            exact earlier
          · right
            rw [split, List.concat_eq_append, List.getLast?_concat, newest]
      · rw [idle] at handled
        cases handled

theorem Change.served (h : Change k k') (served : k.Served) : k'.Served := by
  cases h with
  | calm calm => exact served.status calm.objects (noneParked_rouses calm.status)
  | event | timer | manager | commandBuffers | abandon | createMutex =>
    exact served.keep (fun _ => rfl) rfl fun _ => id
  | @port p f same =>
    refine served.keep (fun q => ?_) rfl fun _ => id
    simp only [setPort, Function.update_apply]
    split_ifs with eq
    · rw [same, eq]
    · rfl
  | setPriority run =>
    exact served.status (setPriority_only.ok run).objects
      (noneParked_of_status (setPriority_quiet.ok run).status)
  | @sleep t f running same =>
    apply served.status (onlyThreads_setThread t f).objects
    apply noneParked_setThread
    intro waits
    rcases (same (k.thread t)).1 with ((eq | eq | eq) | eq) <;> rw [waits] at eq <;> cases eq
  | park client server => exact awaitReply_served served client server
  | acquire _ run => exact acquire_served served run
  | unlock => exact served.status unlocked_objects (noneParked_of_status unlocked_status)
  | drop =>
    exact served.status (onlyThreads_setThread _ _).objects (noneParked_setThread id)
  | @kill t =>
    apply served.status killed_only.objects
    intro u waits
    by_cases same : u = t
    · rw [same, statusOf_killed] at waits
      cases waits
    · rw [((killed_restatus k t).others u same).1] at waits
      exact waits
  | @createSession s port hle closed fromPort alone =>
    have plain : hle = false := by
      cases port with
      | none => exact alone rfl
      | some p => exact (fromPort p rfl).symm.trans (served.ports p)
    refine served.update plain ?_ ?_ rfl rfl
    · exact fun _ _ => ⟨rfl, rfl⟩
    · exact fun u waits => Or.inl ⟨waits, fun engaged => absurd engaged (served.free (.inl closed.1))⟩
  | @closeClient s closed =>
    refine served.update ?_ ?_ ?_ rfl rfl
    · exact served.sessions s
    · exact fun u engaged => absurd engaged (served.free (.inr closed))
    · exact fun u waits => Or.inl ⟨waits, id⟩
  | answer handled _ => exact answered_served served handled
  | @unanswered s idle =>
    refine served.update ?_ ?_ ?_ rfl rfl
    · exact served.sessions s
    · rintro u (pending | impossible)
      · exact served.ends s u (Or.inl pending)
      · cases impossible
    · refine fun u waits => Or.inl ⟨waits, ?_⟩
      rintro (pending | handled)
      · exact Or.inl pending
      · rcases idle with none | closed
        · rw [none] at handled
          cases handled
        · exact absurd (Or.inr handled) (served.free (.inl closed))
  | reschedule run =>
    have moved := reschedule_reschedules.ok run
    apply served.status moved.only.objects
    intro u waits
    rcases moved.statuses u with same | ⟨_, eq | eq⟩
    · rw [← same]
      exact waits
    all_goals
      rw [waits] at eq
      cases eq

theorem Creates.served {a : Action} (h : Creates k a k') (served : k.Served) : k'.Served := by
  cases h with
  | call _ run =>
    exact served.status (createThread_only.ok run).objects (createThread_noneParked.ok run)

theorem Arbitrates.served {a : Nat} (h : Arbitrates k a t k') (served : k.Served) : k'.Served := by
  apply served.status h.objects
  intro u waits
  obtain ⟨own, others⟩ := h.thread
  by_cases same : u = t
  · rw [same, statusOf, own] at waits
    cases waits
  · rw [statusOf, others u same] at waits
    exact waits

/-- No session is one of an emulated service. -/
def Action.Plain : Action → Prop
  | .createPort _ _ hleHandler => hleHandler = false
  | _ => True

/-- No end of a session is closed while a thread waits for the reply of the session. -/
def Action.Idle (k : Kernel) : Action → Prop
  | .closeClientSession s | .closeServerSession s =>
    ∀ t, (k.serverSession s).Engaged t → k.statusOf t ≠ .waitIPC
  | _ => True

theorem cleared_served (h : k.Served) (plain : new.hleHandler = false)
    (none : new.pendingRequestingThreads = [] ∧ new.currentlyHandling = none)
    (idle : ∀ t, (k.serverSession s).Engaged t → k.statusOf t ≠ .waitIPC) :
    (k.setSession s fun _ => new).Served := by
  refine h.update plain ?_ ?_ rfl rfl
  · rintro u (pending | handled)
    · rw [none.1] at pending
      cases pending
    · rw [none.2] at handled
      cases handled
  · exact fun u waits => Or.inl ⟨waits, fun engaged => absurd waits (idle u engaged)⟩

theorem opening_served {a : Action} (h : k.Served) (plain : a.Plain) (idle : a.Idle k) :
    (a.opening k).Served := by
  cases a with
  | createSemaphore s initial max =>
    unfold Action.opening createSemaphore
    dsimp only
    split_ifs
    · exact h
    · exact h.keep (fun _ => rfl) rfl fun _ => id
  | releaseSemaphore s n =>
    unfold Action.opening
    dsimp only
    split_ifs
    · exact h
    · exact h.keep (fun _ => rfl) rfl fun _ => id
  | createPort p maxSessions hle =>
    refine ⟨fun q => ?_, h.sessions, h.ends, h.asleep⟩
    simp only [Action.opening, createPort, setPort, setWaiting, Function.update_apply]
    split_ifs
    · exact plain
    · exact h.ports q
  | closeClientSession s =>
    unfold Action.opening
    dsimp only
    split_ifs
    · exact cleared_served h rfl ⟨rfl, rfl⟩ idle
    · exact h
  | closeServerSession s => exact cleared_served h (h.sessions s) ⟨rfl, rfl⟩ idle
  | _ => exact h

theorem boot_served (numCores : Nat) : (boot numCores).Served where
  ports := fun _ => rfl
  sessions := fun _ => rfl
  ends := by
    rintro s t (pending | handled)
    · cases pending
    · cases handled
  asleep := nofun

theorem Reachable.served (h : Reachable (fun k a => a.Plain ∧ a.Idle k) k) : k.Served := by
  apply h.changes boot_served
  · exact fun k a served fits _ => opening_served served fits.1 fits.2
  · exact fun k k' a t => Arbitrates.served
  · exact fun k k' a => Creates.served
  · exact fun k k' => Change.served

/-- The thread makes `ReplyAndReceive` calls. -/
def Serves (u : ThreadId) (k k' : Kernel) : Prop :=
  ∃ handleCount handles replyTarget,
    Step k (.replyAndReceive u true handleCount handles replyTarget) k'

theorem answered_resumes (asleep : k.statusOf v = .waitIPC ∨ k.statusOf v = .dead)
    (idle : (k.thread v).waitObjects = []) :
    (k.setSession s fun session => { session with currentlyHandling := none }).resumeFromWait v =
      .ok (k.answered s v) := by
  unfold resumeFromWait answered
  have status : (k.setSession s fun session =>
      { session with currentlyHandling := none }).thread v = k.thread v := rfl
  rw [status, assert_pos idle]
  dsimp only
  rw [status]
  rcases asleep with eq | eq
  · rw [show (k.thread v).status = .waitIPC from eq]
    rfl
  · rw [show (k.thread v).status = .dead from eq]
    rfl

theorem serves_reply (settled : k.Settled) (calls : k.Calls u)
    (good : k.translateCommandBuffer u v = .ok ()) (client : (k.serverSession s).client = true)
    (handled : (k.serverSession s).currentlyHandling = some v) : Serves u k (k.answered s v) := by
  have engaged : (k.serverSession s).Engaged v := Or.inr handled
  have resumes := answered_resumes (s := s) (settled.requests.parked s v engaged).1
    (settled.idle engaged)
  have opened : ((k.setSession s fun session =>
      { session with currentlyHandling := none }).serverSession s).client ≠ false := by
    simp [setSession, client]
  have kept : (k.setSession s fun session =>
      { session with currentlyHandling := none }).translateCommandBuffer u v = .ok () := good
  have sent : k.sendReply u s = .ok (none, k.answered s v) := by
    unfold sendReply
    rw [handled]
    dsimp only
    rw [if_neg opened, assert_pos kept, resumes]
    rfl
  refine ⟨0, fun _ => none, some (some s), calls, ?_⟩
  simp [Action.run, replyAndReceive, receive, gatherObjects, sent]

def taken (k : Kernel) (s : Nat) : Kernel :=
  k.setSession s fun session =>
    { session with
      currentlyHandling := session.pendingRequestingThreads.getLast?
      pendingRequestingThreads := session.pendingRequestingThreads.dropLast }

theorem serves_receive {before : List ThreadId} (calls : k.Calls u)
    (good : k.translateCommandBuffer v u = .ok ()) (client : (k.serverSession s).client = true)
    (idle : (k.serverSession s).currentlyHandling = none)
    (pending : (k.serverSession s).pendingRequestingThreads = before ++ [v]) :
    Serves u k (k.taken s) := by
  have available : k.shouldWait (.serverSession s) u = false := by
    simp [shouldWait, idle, pending]
  have acquired : k.acquire (.serverSession s) u = .ok (k.taken s) := by
    unfold acquire
    dsimp only
    rw [assert_pos (by rw [available]; decide), if_neg (by rw [client]; decide),
      assert_pos (by rw [pending]; exact List.concat_ne_nil _ _)]
    rfl
  have session : (k.taken s).serverSession s = { k.serverSession s with
      currentlyHandling := some v, pendingRequestingThreads := before } := by
    simp [taken, setSession, pending]
  have kept : (k.taken s).translateCommandBuffer v u = .ok () := good
  have received : (k.taken s).receiveIPCRequest s u = .ok (.ok (), k.taken s) := by
    unfold receiveIPCRequest
    rw [session]
    dsimp only
    rw [if_neg (by rw [client]; decide), kept]
    rfl
  refine ⟨1, fun _ => some (.serverSession s), none, calls, ?_⟩
  have gathered : gatherObjects (fun _ => some (.serverSession s)) 1 = some [.serverSession s] :=
    rfl
  simp [Action.run, replyAndReceive, receive, gathered, available, acquired, received]

theorem calls_answered (calls : k.Calls u) : (k.answered s v).Calls u := by
  obtain ⟨running, core, current⟩ := calls
  unfold answered
  dsimp only
  split_ifs with awake
  · exact ⟨running, core, current⟩
  · have other : u ≠ v := by
      rintro rfl
      exact awake (Or.inr (Or.inl running))
    refine ⟨?_, core, ?_⟩
    · refine Eq.trans ?_ running
      simp [makeReady, setThread, setSession, setQueue, setManager, other]
    · refine Eq.trans ?_ current
      simp only [makeReady, setThread, setSession, setQueue, setManager, Function.update_apply]
      split_ifs with same
      · rw [same]
      · rfl

theorem answered_ready (waits : k.statusOf t = .waitIPC) :
    (k.answered s t).statusOf t = .ready := by
  have status : (k.thread t).status = .waitIPC := waits
  unfold answered
  rw [if_neg]
  · exact statusOf_makeReady
  · change ¬ Awake (k.thread t).status
    rw [status]
    decide

theorem answered_status (other : t ≠ v) : (k.answered s v).statusOf t = k.statusOf t := by
  unfold answered
  dsimp only
  split_ifs
  · rfl
  · exact (restatus_makeReady.others t other).1

theorem answered_session : (k.answered s v).serverSession s =
    { k.serverSession s with currentlyHandling := none } := by
  unfold answered
  dsimp only
  split_ifs <;> simp [setSession, makeReady, setThread, setQueue, setManager]

theorem answered_translate :
    (k.answered s v).translateCommandBuffer = k.translateCommandBuffer := by
  unfold answered
  dsimp only
  split_ifs <;> rfl

theorem Serves.settled (h : Serves u k k') (settled : k.Settled) : k'.Settled := by
  obtain ⟨_, _, _, step⟩ := h
  exact settled.step step

section

variable (settled : k.Settled) (calls : k.Calls u)
  (good : ∀ v w, k.translateCommandBuffer v w = .ok ()) (client : (k.serverSession s).client = true)
include settled calls good client

theorem pending_resumed {pending : List ThreadId}
    (idle : (k.serverSession s).currentlyHandling = none)
    (requests : (k.serverSession s).pendingRequestingThreads = pending) (mem : t ∈ pending)
    (waits : k.statusOf t = .waitIPC) :
    ∃ k', Relation.ReflTransGen (Serves u) k k' ∧ k'.statusOf t = .ready := by
  induction pending using List.reverseRecOn generalizing k with
  | nil => cases mem
  | append_singleton before v ih =>
    have received := serves_receive calls (good v u) client idle requests
    have session : (k.taken s).serverSession s = { k.serverSession s with
        currentlyHandling := some v, pendingRequestingThreads := before } := by
      simp [taken, setSession, requests]
    have settled₁ := received.settled settled
    have calls₁ : (k.taken s).Calls u := calls
    have replied : Serves u (k.taken s) ((k.taken s).answered s v) := by
      apply serves_reply settled₁ calls₁ (good u v)
      · rw [session]
        exact client
      · rw [session]
    have two := Relation.ReflTransGen.tail (.single received) replied
    by_cases newest : t = v
    · subst newest
      exact ⟨_, two, answered_ready waits⟩
    · have after : ((k.taken s).answered s v).serverSession s = { k.serverSession s with
          currentlyHandling := none, pendingRequestingThreads := before } := by
        rw [answered_session, session]
      have earlier : t ∈ before := by
        rw [List.mem_append, List.mem_singleton] at mem
        exact mem.resolve_right newest
      obtain ⟨k', later, ready⟩ := ih (k := (k.taken s).answered s v) (replied.settled settled₁)
        (calls_answered calls₁) (by rw [answered_translate]; exact good)
        (by rw [after]; exact client) (by rw [after]) (by rw [after]) earlier
        ((answered_status newest).trans waits)
      exact ⟨k', two.trans later, ready⟩

theorem engaged_resumed (engaged : (k.serverSession s).Engaged t)
    (waits : k.statusOf t = .waitIPC) :
    ∃ k', Relation.ReflTransGen (Serves u) k k' ∧ k'.statusOf t = .ready := by
  cases handling : (k.serverSession s).currentlyHandling with
  | none =>
    have pending := engaged.resolve_right (by rw [handling]; exact nofun)
    exact pending_resumed settled calls good client handling rfl pending waits
  | some v =>
    have replied := serves_reply settled calls (good u v) client handling
    by_cases same : t = v
    · subst same
      exact ⟨_, .single replied, answered_ready waits⟩
    · have pending := engaged.resolve_right (by
        rw [handling]
        exact fun eq => same (Option.some.inj eq).symm)
      obtain ⟨k', later, ready⟩ := pending_resumed (k := k.answered s v)
        (replied.settled settled) (calls_answered calls)
        (by rw [answered_translate]; exact good) (by rw [answered_session]; exact client)
        (by rw [answered_session]) (by rw [answered_session]) pending
        ((answered_status same).trans waits)
      exact ⟨k', .head replied later, ready⟩

end

/-- Who waits for a reply is with one open session, once, and a server can come to it. -/
theorem clients_served (h : Reachable (fun k a => a.Plain ∧ a.Idle k) k)
    (waits : k.statusOf t = .waitIPC) :
    ∃ s, (k.serverSession s).client = true ∧ (k.serverSession s).server = true ∧
      (k.serverSession s).pendingRequestingThreads.count t +
        (if (k.serverSession s).currentlyHandling = some t then 1 else 0) = 1 ∧
      (∀ r, r ≠ s → ¬ (k.serverSession r).Engaged t) ∧
      ∀ u, k.Calls u → (∀ v w, k.translateCommandBuffer v w = .ok ()) →
        ∃ k', Relation.ReflTransGen (Serves u) k k' ∧ k'.statusOf t = .ready := by
  have settled := h.settled
  obtain ⟨s, engaged⟩ := h.served.asleep t waits
  obtain ⟨client, server⟩ := h.served.ends s t engaged
  refine ⟨s, client, server, ?_, ?_, ?_⟩
  · split_ifs with handled
    · rw [List.count_eq_zero.mpr (settled.requests.apart s t handled)]
    · have pending := engaged.resolve_right handled
      rw [List.count_eq_one_of_mem (settled.requests.nodup s) pending]
  · exact fun r other also => other (settled.requests.one r s t also engaged)
  · exact fun u calls good => engaged_resumed settled calls good client engaged waits

def clientCalls : Kernel := Action.after waiterRuns (.createSession 0)

def clientWaits : Kernel := Action.after clientCalls (.sendSyncRequest 0 (some 0) none)

theorem clientWaits_run : Reachable (fun k a => a.Plain ∧ a.Idle k) clientWaits := by
  have made : Reachable (fun k a => a.Plain ∧ a.Idle k) waiterMade :=
    (Runs.Reachable.start ⟨4, rfl⟩).step (a := Action.createThread 0 48 0 true true)
      ⟨trivial, trivial⟩ ⟨⟨rfl, fun _ => List.not_mem_nil⟩, rfl⟩
  have runs : Reachable (fun k a => a.Plain ∧ a.Idle k) waiterRuns :=
    made.step (a := Action.reschedule 0) ⟨trivial, trivial⟩ ⟨trivial, rfl⟩
  have session : Reachable (fun k a => a.Plain ∧ a.Idle k) clientCalls :=
    runs.step (a := Action.createSession 0) ⟨trivial, trivial⟩
      ⟨⟨⟨fun t => by cases t <;> exact List.not_mem_nil, nofun, nofun, fun _ _ _ =>
        List.not_mem_nil⟩, rfl, rfl⟩, rfl⟩
  refine session.step (a := Action.sendSyncRequest 0 (some 0) none) ⟨trivial, trivial⟩ ⟨?_, rfl⟩
  refine ⟨⟨rfl, 0, rfl⟩, ?_, nofun⟩
  rintro s ⟨⟩
  rfl

theorem clients_served_waits : ∃ s, (clientWaits.serverSession s).server = true := by
  obtain ⟨s, _, server, _⟩ := clients_served clientWaits_run (t := 0) rfl
  exact ⟨s, server⟩

/-- The server end is closed under a request, and its client waits on. -/
theorem clients_served_fails : ¬ ∀ k, Reachable (fun _ a => a.Plain) k → ∀ t,
    k.statusOf t = .waitIPC → ∃ s, (k.serverSession s).server = true ∧
      (k.serverSession s).Engaged t := by
  intro all
  have closed : Reachable (fun _ a => a.Plain)
      (Action.after clientWaits (.closeServerSession 0)) := by
    apply (clientWaits_run.mono fun _ _ => And.left).step (a := Action.closeServerSession 0) trivial
    exact ⟨⟨⟨fun t => by cases t <;> exact List.not_mem_nil, nofun, nofun, fun _ _ _ =>
      List.not_mem_nil⟩, rfl⟩, rfl⟩
  obtain ⟨s, server, _⟩ := all _ closed 0 rfl
  cases s with
  | zero | succ s => cases server

end EmuThreeDS.Kernel
